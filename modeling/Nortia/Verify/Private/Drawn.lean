import Nortia.Verify.Committee.Members
import Nortia.Verify.Private.Completeness
import Nortia.Web.PrivateOrder

/-!
# What the browser draws and computes for an order

The values of a placement witness are field elements that are not zero, and everything the panel
writes for a prover, for the program and for the committee reads back as the number it stands for.
-/

namespace Nortia.PrivatePool

open Lib Circuit Client Web Services

variable {P : Poseidon} {market : Market} {payer : Pubkey} {side : PositionSide}
  {values : PlaceValues}

/-! ## Drawn field elements -/

/-- A field element as the browser draws it. -/
structure Coin where
  n : Nat
  pos : 0 < n
  lt : n < scalarModulus

namespace Coin

def text (coin : Coin) : String := fieldHex coin.n

def field (coin : Coin) : Field := (coin.n : Field)

theorem inField (coin : Coin) : Client.inField (coin.n : Int) = true := by
  have hlt := coin.lt
  rw [inField_iff]
  omega

theorem val_field (coin : Coin) : coin.field.val = coin.n := ZMod.val_natCast_of_lt coin.lt

theorem field_ne_zero (coin : Coin) : coin.field ≠ 0 := by
  intro h
  have hval := coin.val_field
  rw [h, ZMod.val_zero] at hval
  exact absurd hval.symm coin.pos.ne'

theorem fieldOfText_text (coin : Coin) : fieldOfText coin.text = .ok (coin.n : Int) :=
  fieldOfText_of_parse (parse_fieldHex coin.n)

theorem readField_text (coin : Coin) : RedeemInputs.readField coin.text = some coin.field := by
  apply (readField_fieldHex coin.inField).trans
  rw [Int.cast_natCast]
  rfl

/-- The hosted prover takes it. -/
theorem field_text (coin : Coin) (name : String) :
    ProverRequests.field (some (.string coin.text)) name = .ok (coin.n : Int) :=
  field_fieldHex coin.inField name

theorem ne_zero (coin : Coin) : (coin.n : Int) ≠ 0 := Int.natCast_ne_zero.mpr coin.pos.ne'

end Coin

theorem randomFieldHex_eq {text : String} {draws rest : List Bytes32}
    (h : randomFieldHex draws = some (text, rest)) : ∃ coin : Coin, text = coin.text := by
  induction draws with
  | nil => cases h
  | cons bytes draws ih =>
    rw [randomFieldHex] at h
    split at h
    · next hrange =>
      obtain ⟨hpos, hlt⟩ := hrange
      rw [fieldOfBytes] at hpos hlt
      cases h
      exact ⟨⟨_, Int.ofNat_lt.mp hpos, Int.ofNat_lt.mp hlt⟩, rfl⟩
    · exact ih h

/-- The values of a witness. -/
structure Coins where
  secret : Coin
  nullifier : Coin
  sideCoefficient : Coin
  yesAmountCoefficient : Coin
  totalAmountCoefficient : Coin
  salts : PerMember Coin

namespace Coins

def witness (coins : Coins) : PlacementWitness where
  secret := coins.secret.text
  nullifier := coins.nullifier.text
  sideCoefficient := coins.sideCoefficient.text
  yesAmountCoefficient := coins.yesAmountCoefficient.text
  totalAmountCoefficient := coins.totalAmountCoefficient.text
  salts := {
    one := coins.salts.one.text
    two := coins.salts.two.text
    three := coins.salts.three.text }

def fields (coins : Coins) : WitnessFields where
  secret := coins.secret.n
  nullifier := coins.nullifier.n
  sideCoefficient := coins.sideCoefficient.n
  yesAmountCoefficient := coins.yesAmountCoefficient.n
  totalAmountCoefficient := coins.totalAmountCoefficient.n
  salts := {
    one := coins.salts.one.n
    two := coins.salts.two.n
    three := coins.salts.three.n }

/-- The private inputs of the circuit. -/
def orderWitness (coins : Coins) (amount : { n : Nat // n ≤ u64Max }) (side : PositionSide) :
    PlaceOrder.Private where
  amount := amount.1
  side := side = .yes
  secret := coins.secret.field
  nullifier := coins.nullifier.field
  sideCoefficient := coins.sideCoefficient.field
  yesAmountCoefficient := coins.yesAmountCoefficient.field
  totalAmountCoefficient := coins.totalAmountCoefficient.field
  salt1 := coins.salts.one.field
  salt2 := coins.salts.two.field
  salt3 := coins.salts.three.field
  amount_le := PlaceOrderInputs.amount_le amount

theorem fields_eq (coins : Coins) : coins.witness.fields = .ok coins.fields := by
  simp only [PlacementWitness.fields, witness, Coin.fieldOfText_text, ok_bind]
  rfl

theorem salts_text (coins : Coins) (member : MemberIndex) :
    coins.witness.salts.get member = (coins.salts.get member).text := by
  cases member
  · rfl
  · rfl
  · rfl

theorem salts_field (coins : Coins) (member : MemberIndex) :
    coins.fields.salts.get member = ((coins.salts.get member).n : Int) := by
  cases member
  · rfl
  · rfl
  · rfl

end Coins

/-- **Whatever is drawn, the witness is eight field elements that are not zero.** -/
theorem createPlacementWitness_eq {draws rest : List Bytes32} {witness : PlacementWitness}
    (h : createPlacementWitness draws = some (witness, rest)) :
    ∃ coins : Coins, witness = coins.witness := by
  unfold createPlacementWitness at h
  obtain ⟨⟨secret, d₁⟩, h₁, h⟩ := Option.bind_eq_some_iff.mp h
  obtain ⟨⟨nullifier, d₂⟩, h₂, h⟩ := Option.bind_eq_some_iff.mp h
  obtain ⟨⟨sideCoefficient, d₃⟩, h₃, h⟩ := Option.bind_eq_some_iff.mp h
  obtain ⟨⟨yesAmountCoefficient, d₄⟩, h₄, h⟩ := Option.bind_eq_some_iff.mp h
  obtain ⟨⟨totalAmountCoefficient, d₅⟩, h₅, h⟩ := Option.bind_eq_some_iff.mp h
  obtain ⟨⟨one, d₆⟩, h₆, h⟩ := Option.bind_eq_some_iff.mp h
  obtain ⟨⟨two, d₇⟩, h₇, h⟩ := Option.bind_eq_some_iff.mp h
  obtain ⟨⟨three, d₈⟩, h₈, h⟩ := Option.bind_eq_some_iff.mp h
  obtain ⟨secret, rfl⟩ := randomFieldHex_eq h₁
  obtain ⟨nullifier, rfl⟩ := randomFieldHex_eq h₂
  obtain ⟨sideCoefficient, rfl⟩ := randomFieldHex_eq h₃
  obtain ⟨yesAmountCoefficient, rfl⟩ := randomFieldHex_eq h₄
  obtain ⟨totalAmountCoefficient, rfl⟩ := randomFieldHex_eq h₅
  obtain ⟨one, rfl⟩ := randomFieldHex_eq h₆
  obtain ⟨two, rfl⟩ := randomFieldHex_eq h₇
  obtain ⟨three, rfl⟩ := randomFieldHex_eq h₈
  cases h
  exact ⟨⟨secret, nullifier, sideCoefficient, yesAmountCoefficient, totalAmountCoefficient,
    ⟨one, two, three⟩⟩, rfl⟩

/-! ## What the panel computes -/

/-- The values of an order. -/
def orderPlacement (P : Poseidon) (market : Market) (payer : Pubkey) (amount : Nat)
    (side : PositionSide) (coins : Coins) : PlaceValues where
  marketId := market.marketId
  stakeAmount := market.stakeAmount
  amount
  payerHash := poseidonHash P (ofLeBytes (payer.toList.take 16)) (ofLeBytes (payer.toList.drop 16))
  bundles := PerMember.of (shareBundle side amount coins.fields)
  shareCommitments := PerMember.of fun member =>
    let bundle := shareBundle side amount coins.fields member
    shareCommitment P bundle.sideShare bundle.yesAmountShare bundle.totalAmountShare
      ((coins.salts.get member).n : Int)
  commitment := Client.orderCommitment P market.marketId market.stakeAmount amount (side = .yes)
    coins.secret.n coins.nullifier.n

/-- What the panel checked before it computed them. -/
structure PanelChecks (market : Market) (now : Int) (amount : Nat) : Prop where
  phase : market.phase = .open
  beforeLock : now < market.lockTs * 1000
  minAmount : minWagerAmount ≤ amount
  maxAmount : amount ≤ market.stakeAmount

theorem placeValues_ok {coins : Coins} {now : Int} {tokenBalance : Option Nat}
    {amountInput : String}
    (h : placeValues P market now payer tokenBalance amountInput side coins.witness = .ok values) :
    ∃ amount, PanelChecks market now amount ∧
      values = orderPlacement P market payer amount side coins := by
  unfold placeValues at h
  simp only [bind_eq_ok, require_eq_ok, okOr_eq_ok, exists_const, coins.fields_eq,
    Except.ok.injEq, exists_eq_left'] at h
  obtain ⟨hphase, -, hlock, balance, -, amount, -, ⟨hmin, hmax⟩, -, payerHash, hhash, hvalues⟩ := h
  rw [solanaPublicKeyHash, require_pos payer.length_toList, ok_bind, Except.ok.injEq] at hhash
  obtain ⟨n, rfl⟩ := Int.eq_ofNat_of_zero_le (show 0 ≤ amount by omega)
  refine ⟨n, ⟨hphase, hlock, Int.ofNat_le.mp hmin, Int.ofNat_le.mp hmax⟩, ?_⟩
  rw [← hvalues, ← hhash]
  simp only [orderPlacement, PerMember.get_of, coins.salts_field, Int.toNat_natCast]
  rfl

theorem placeValues_eq {coins : Coins} {now : Int} {balance amount : Nat} {amountInput : String}
    (hchecks : PanelChecks market now amount) (hlock : isSafeInteger market.lockTs = true)
    (hbalance : market.stakeAmount ≤ balance) (hamount : parseUsdc amountInput = .ok (amount : Int)) :
    placeValues P market now payer (some balance) amountInput side coins.witness =
      .ok (orderPlacement P market payer amount side coins) := by
  have hwithin : (1000000 : Int) ≤ amount ∧ (amount : Int) ≤ market.stakeAmount :=
    ⟨Int.ofNat_le.mpr hchecks.minAmount, Int.ofNat_le.mpr hchecks.maxAmount⟩
  have hhash : solanaPublicKeyHash P payer.toList =
      .ok (orderPlacement P market payer amount side coins).payerHash := by
    rw [solanaPublicKeyHash, require_pos payer.length_toList, ok_bind]
    rfl
  unfold placeValues
  refine bind_eq_ok.mpr ⟨(), require_eq_ok.mpr hchecks.phase, ?_⟩
  refine bind_eq_ok.mpr ⟨(), require_eq_ok.mpr hlock, ?_⟩
  refine bind_eq_ok.mpr ⟨(), require_eq_ok.mpr hchecks.beforeLock, ?_⟩
  refine bind_eq_ok.mpr ⟨balance, okOr_eq_ok.mpr rfl, ?_⟩
  refine bind_eq_ok.mpr ⟨_, hamount, ?_⟩
  refine bind_eq_ok.mpr ⟨(), require_eq_ok.mpr hwithin, ?_⟩
  refine bind_eq_ok.mpr ⟨(), require_eq_ok.mpr hbalance, ?_⟩
  refine bind_eq_ok.mpr ⟨_, coins.fields_eq, ?_⟩
  refine bind_eq_ok.mpr ⟨_, hhash, ?_⟩
  simp only [orderPlacement, PerMember.get_of, coins.salts_field, Int.toNat_natCast]
  rfl

end Nortia.PrivatePool
