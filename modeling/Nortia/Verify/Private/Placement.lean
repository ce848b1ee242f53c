import Nortia.Verify.Committee.Reconstruction
import Nortia.Verify.Private.Drawn

/-!
# An order the panel prepares can be placed

The panel computes the values of an order from what it drew, from the account and from the amount the
trader typed. They satisfy the circuit, pass the checks of the hosted prover, and are the public inputs
the program rebuilds, so that the program accepts the order with the proof of a complete prover.
-/

namespace Nortia.PrivatePool

open Lib Circuit Client Web Services

variable {rt : PrivateRuntime} {init s : PrivateState} {tr : List Event} {P : Poseidon}
  {market : Market} {payer : Pubkey} {side : PositionSide} {amount : Nat} {coins : Coins}
  {values : PlaceValues}

/-! ## Shares -/

theorem cast_createShamirShare (value coefficient : Int) (member : MemberIndex) :
    ((createShamirShare value coefficient member : Int) : Field) =
      value + coefficient * (member.index : Nat) := by
  rw [createShamirShare, cast_mod, Int.cast_add, Int.cast_mul, Int.cast_natCast]

theorem inField_createShamirShare (value coefficient : Int) (member : MemberIndex) :
    inField (createShamirShare value coefficient member) = true := inField_mod _

/-- An amount that fits 64 bits, as the circuit takes it. -/
def wager (amount : Nat) (h : amount ≤ u64Max) : { n : Nat // n ≤ u64Max } := ⟨amount, h⟩

section Shares

variable {h : amount ≤ u64Max}

/-- The share of the side is that of the circuit. -/
theorem cast_sideShare (member : MemberIndex) :
    ((shareBundle side amount coins.fields member).sideShare : Field) =
      (coins.orderWitness (wager amount h) side).sideShare member.index := by
  rw [shareBundle, cast_createShamirShare, PlaceOrder.Private.sideShare, ← cast_side]
  simp only [Coins.fields, Coins.orderWitness, Coin.field, decide_eq_true_eq, Int.cast_natCast]

theorem cast_yesAmountShare (member : MemberIndex) :
    ((shareBundle side amount coins.fields member).yesAmountShare : Field) =
      (coins.orderWitness (wager amount h) side).yesAmountShare member.index := by
  have hyes : (((if side = .yes then (amount : Int) else 0 : Int)) : Field) =
      (coins.orderWitness (wager amount h) side).yesAmount := by
    rw [PlaceOrder.Private.yesAmount]
    cases side
    · simp [Coins.orderWitness, wager, sideField]
    · simp [Coins.orderWitness, sideField]
  rw [shareBundle, cast_createShamirShare, PlaceOrder.Private.yesAmountShare, hyes]
  simp only [Coins.fields, Coins.orderWitness, Coin.field, Int.cast_natCast]

theorem cast_totalAmountShare (member : MemberIndex) :
    ((shareBundle side amount coins.fields member).totalAmountShare : Field) =
      (coins.orderWitness (wager amount h) side).totalAmountShare member.index := by
  rw [shareBundle, cast_createShamirShare, PlaceOrder.Private.totalAmountShare]
  simp only [Coins.fields, Coins.orderWitness, Coin.field, Int.cast_natCast, wager]

/-- **The panel commits to the bundles of the circuit.** -/
theorem cast_shareCommitments (member : MemberIndex) :
    (((orderPlacement P market payer amount side coins).shareCommitments.get member : Int) : Field) =
      (coins.orderWitness (wager amount h) side).bundle P member.index
        (saltOf (coins.orderWitness (wager amount h) side) member) := by
  have hsalt : (((coins.salts.get member).n : Int) : Field) =
      saltOf (coins.orderWitness (wager amount h) side) member := by
    rw [Int.cast_natCast]
    cases member
    · rfl
    · rfl
    · rfl
  rw [orderPlacement, PerMember.get_of, cast_shareCommitment, cast_sideShare, cast_yesAmountShare,
    cast_totalAmountShare, hsalt]
  rfl

end Shares

/-! ## What the circuit reads -/

/-- An order whose numbers the circuit and the program can hold. -/
structure Fits (market : Market) (amount : Nat) : Prop where
  marketId_pos : 0 < market.marketId
  marketId_le : market.marketId ≤ u64Max
  stake : validPrivateStakeAmount market.stakeAmount = true
  minAmount : minWagerAmount ≤ amount
  maxAmount : amount ≤ market.stakeAmount

/-- What the panel lets through fits, in every state of a market. -/
theorem PanelChecks.fits {now : Int} (h : PanelChecks s.market now amount) (hinit : Created init)
    (hrun : Run (Step rt) init tr s) : Fits s.market amount where
  marketId_pos := marketId_pos hinit hrun
  marketId_le := (inv_run hinit hrun).marketId_le
  stake := (inv_run hinit hrun).stake
  minAmount := h.minAmount
  maxAmount := h.maxAmount

theorem Fits.stake_le (h : Fits market amount) : market.stakeAmount ≤ u64Max :=
  (validPrivateStakeAmount_bounds h.stake).2.trans (by decide)

theorem Fits.amount_le (h : Fits market amount) : amount ≤ u64Max := h.maxAmount.trans h.stake_le

/-- What the order hides. -/
def Coins.opening (coins : Coins) (amount : Nat) (side : PositionSide) : Opening where
  amount
  side := side = .yes
  secret := coins.secret.field
  nullifier := coins.nullifier.field

theorem cast_commitment : (((orderPlacement P market payer amount side coins).commitment : Int) :
    Field) = (coins.opening amount side).commitment P market.marketId market.stakeAmount := by
  rw [orderPlacement, cast_orderCommitment]
  simp only [Int.cast_natCast, Opening.commitment, Coins.opening, Coin.field]

/-- The public inputs of the order. -/
def orderPublic (P : Poseidon) (market : Market) (payer : Pubkey) (amount : Nat)
    (side : PositionSide) (coins : Coins) : PlaceOrder.Public :=
  let values := orderPlacement P market payer amount side coins
  { marketId := market.marketId
    stakeAmount := market.stakeAmount
    payerHash := P (Zk.pubkeyFields payer).1 (Zk.pubkeyFields payer).2
    commitment := ((values.commitment : Int) : Field)
    shareCommitment1 := ((values.shareCommitments.one : Int) : Field)
    shareCommitment2 := ((values.shareCommitments.two : Int) : Field)
    shareCommitment3 := ((values.shareCommitments.three : Int) : Field) }

theorem inField_commitment :
    inField (orderPlacement P market payer amount side coins).commitment = true :=
  inField_poseidonHash _ _ _

theorem inField_shareCommitments (member : MemberIndex) :
    inField ((orderPlacement P market payer amount side coins).shareCommitments.get member) = true := by
  rw [orderPlacement, PerMember.get_of]
  exact inField_poseidonHash _ _ _

section Fits

variable (h : Fits market amount)

include h

theorem Fits.readPublic_eq : (placeInputs (orderPlacement P market payer amount side coins) side
    coins.witness).readPublic = some (orderPublic P market payer amount side coins) := by
  have hcommitment : RedeemInputs.readField
      (fieldHex (orderPlacement P market payer amount side coins).commitment) = some _ :=
    readField_fieldHex inField_commitment
  have hshares : ∀ member, RedeemInputs.readField (fieldHex
      ((orderPlacement P market payer amount side coins).shareCommitments.get member)) = some _ :=
    fun member => readField_fieldHex (inField_shareCommitments member)
  have hpayer : RedeemInputs.readField
      (fieldHex (orderPlacement P market payer amount side coins).payerHash) =
        some (P (Zk.pubkeyFields payer).1 (Zk.pubkeyFields payer).2) := by
    apply (readField_fieldHex (inField_poseidonHash _ _ _)).trans
    rw [cast_poseidonHash]
    rfl
  have hid := readField_fieldHex (inField_natCast h.marketId_le)
  have hstake := readField_fieldHex (inField_natCast h.stake_le)
  rw [Int.cast_natCast] at hid hstake
  unfold PlaceOrderInputs.readPublic placeInputs
  refine Option.bind_eq_some_iff.mpr ⟨_, hid, ?_⟩
  refine Option.bind_eq_some_iff.mpr ⟨_, hstake, ?_⟩
  refine Option.bind_eq_some_iff.mpr ⟨_, hpayer, ?_⟩
  refine Option.bind_eq_some_iff.mpr ⟨_, hcommitment, ?_⟩
  refine Option.bind_eq_some_iff.mpr ⟨_, hshares .one, ?_⟩
  refine Option.bind_eq_some_iff.mpr ⟨_, hshares .two, ?_⟩
  exact Option.bind_eq_some_iff.mpr ⟨_, hshares .three, rfl⟩

theorem Fits.readPrivate_eq : (placeInputs (orderPlacement P market payer amount side coins) side
    coins.witness).readPrivate = some (coins.orderWitness (wager amount h.amount_le) side) := by
  have hamount := RedeemInputs.readU64_of_parse (parse_toString amount) h.amount_le
  unfold PlaceOrderInputs.readPrivate placeInputs
  refine Option.bind_eq_some_iff.mpr ⟨_, hamount, ?_⟩
  refine Option.bind_eq_some_iff.mpr ⟨_, coins.secret.readField_text, ?_⟩
  refine Option.bind_eq_some_iff.mpr ⟨_, coins.nullifier.readField_text, ?_⟩
  refine Option.bind_eq_some_iff.mpr ⟨_, coins.sideCoefficient.readField_text, ?_⟩
  refine Option.bind_eq_some_iff.mpr ⟨_, coins.yesAmountCoefficient.readField_text, ?_⟩
  refine Option.bind_eq_some_iff.mpr ⟨_, coins.totalAmountCoefficient.readField_text, ?_⟩
  refine Option.bind_eq_some_iff.mpr ⟨_, coins.salts.one.readField_text, ?_⟩
  refine Option.bind_eq_some_iff.mpr ⟨_, coins.salts.two.readField_text, ?_⟩
  exact Option.bind_eq_some_iff.mpr ⟨_, coins.salts.three.readField_text, rfl⟩

/-- **The values satisfy the circuit.** -/
theorem Fits.main_holds (hpayer : P (Zk.pubkeyFields payer).1 (Zk.pubkeyFields payer).2 ≠ 0) :
    PlaceOrder.main P (orderPublic P market payer amount side coins)
      (coins.orderWitness (wager amount h.amount_le) side) := by
  have hstake : Field.toU64 ((market.stakeAmount : Nat) : Field) = market.stakeAmount :=
    Field.toU64_u64 h.stake_le
  have hbundle : ∀ member, (((orderPlacement P market payer amount side
      coins).shareCommitments.get member : Int) : Field) =
        (coins.orderWitness (wager amount h.amount_le) side).bundle P member.index _ :=
    fun member => cast_shareCommitments member
  refine ⟨?_, h.minAmount, ?_, cast_commitment, hbundle .one, hbundle .two, hbundle .three, hpayer,
    coins.secret.field_ne_zero, coins.nullifier.field_ne_zero, coins.sideCoefficient.field_ne_zero,
    coins.yesAmountCoefficient.field_ne_zero, coins.totalAmountCoefficient.field_ne_zero,
    coins.salts.one.field_ne_zero, coins.salts.two.field_ne_zero, coins.salts.three.field_ne_zero⟩
  · show ((Field.toU64 ((market.stakeAmount : Nat) : Field) : Nat) : Field) = _
    rw [hstake]
    rfl
  · show amount ≤ Field.toU64 ((market.stakeAmount : Nat) : Field)
    rw [hstake]
    exact h.maxAmount

end Fits

/-! ## The hosted prover -/

/-- The request as the hosted prover accepts it. -/
def hostedOrder (market : Market) (payer : Pubkey) (amount : Nat) (side : PositionSide)
    (coins : Coins) : ProverRequests.PlaceRequest where
  marketId := toString (market.marketId : Int)
  stakeAmount := toString (market.stakeAmount : Int)
  amount := toString (amount : Int)
  payer := toBase58 payer
  side := side = .yes
  secret := coins.secret.text
  nullifier := coins.nullifier.text
  sideCoefficient := coins.sideCoefficient.text
  yesAmountCoefficient := coins.yesAmountCoefficient.text
  totalAmountCoefficient := coins.totalAmountCoefficient.text
  salts := [coins.salts.one.text, coins.salts.two.text, coins.salts.three.text]

theorem checkNonZero_texts : ∀ entries : List (String × Coin), ProverRequests.checkNonZero
    (entries.map fun entry => (entry.1, some (.string entry.2.text))) = .ok () := by
  intro entries
  induction entries with
  | nil => rfl
  | cons entry rest ih =>
    rw [List.map_cons, ProverRequests.checkNonZero]
    refine bind_eq_ok.mpr ⟨_, entry.2.field_text entry.1, ?_⟩
    exact bind_eq_ok.mpr ⟨(), require_eq_ok.mpr entry.2.ne_zero, ih⟩

/-- **The hosted prover accepts the order.** -/
theorem Fits.checkedPlace_eq (h : Fits market amount) : ProverRequests.checkedPlace (placeRequest
    (orderPlacement P market payer amount side coins) payer side coins.witness) =
      .ok (hostedOrder market payer amount side coins) := by
  have hwithin : (1000000 : Int) ≤ amount ∧ (amount : Int) ≤ market.stakeAmount :=
    ⟨Int.ofNat_le.mpr h.minAmount, Int.ofNat_le.mpr h.maxAmount⟩
  have hmarketId : 0 < ProverRequests.bigInt (toString (market.marketId : Int)) ∧
      ProverRequests.bigInt (toString (market.marketId : Int)) ≤ u64Max := by
    have hpos := h.marketId_pos
    have hle := h.marketId_le
    rw [bigInt_toString]
    omega
  have hnonZero := checkNonZero_texts [("secret", coins.secret), ("nullifier", coins.nullifier),
    ("sideCoefficient", coins.sideCoefficient),
    ("yesAmountCoefficient", coins.yesAmountCoefficient),
    ("totalAmountCoefficient", coins.totalAmountCoefficient), ("salts[0]", coins.salts.one),
    ("salts[1]", coins.salts.two), ("salts[2]", coins.salts.three)]
  rw [ProverRequests.checkedPlace]
  refine bind_eq_ok.mpr ⟨(), require_eq_ok.mpr rfl, ?_⟩
  refine bind_eq_ok.mpr ⟨toString (market.marketId : Int), okOr_eq_ok.mpr rfl, ?_⟩
  refine bind_eq_ok.mpr ⟨(), require_eq_ok.mpr (Decimal.isDigits_repr _), ?_⟩
  refine bind_eq_ok.mpr ⟨_, privateStake_toString h.stake, ?_⟩
  refine bind_eq_ok.mpr ⟨_, decimalU64_toString h.amount_le _, ?_⟩
  refine bind_eq_ok.mpr ⟨(), require_eq_ok.mpr hwithin, ?_⟩
  refine bind_eq_ok.mpr ⟨toBase58 payer, okOr_eq_ok.mpr rfl, ?_⟩
  refine bind_eq_ok.mpr ⟨decide (side = .yes), okOr_eq_ok.mpr rfl, ?_⟩
  refine bind_eq_ok.mpr ⟨coins.witness.salts.toList.map Json.string, okOr_eq_ok.mpr rfl, ?_⟩
  refine bind_eq_ok.mpr ⟨(), require_eq_ok.mpr rfl, ?_⟩
  refine bind_eq_ok.mpr ⟨(), require_eq_ok.mpr hmarketId, ?_⟩
  refine bind_eq_ok.mpr ⟨payer, publicKey_toBase58 payer, ?_⟩
  exact bind_eq_ok.mpr ⟨(), hnonZero, rfl⟩

/-- **The hosted prover hands the circuit the same inputs** as the prover in the browser. -/
theorem provePlace_eq : ProverRequests.provePlace P (hostedOrder market payer amount side coins) =
    .ok (placeInputs (orderPlacement P market payer amount side coins) side coins.witness) := by
  have hsalts : ProverRequests.saltFields
      [coins.salts.one.text, coins.salts.two.text, coins.salts.three.text] =
        .ok coins.fields.salts := by
    unfold ProverRequests.saltFields
    refine bind_eq_ok.mpr ⟨_, coins.salts.one.field_text _, ?_⟩
    refine bind_eq_ok.mpr ⟨_, coins.salts.two.field_text _, ?_⟩
    exact bind_eq_ok.mpr ⟨_, coins.salts.three.field_text _, rfl⟩
  unfold ProverRequests.provePlace
  simp only [hostedOrder, bigInt_toString]
  refine bind_eq_ok.mpr ⟨payer, publicKey_toBase58 payer, ?_⟩
  refine bind_eq_ok.mpr ⟨_, coins.secret.field_text _, ?_⟩
  refine bind_eq_ok.mpr ⟨_, coins.nullifier.field_text _, ?_⟩
  refine bind_eq_ok.mpr ⟨_, coins.sideCoefficient.field_text _, ?_⟩
  refine bind_eq_ok.mpr ⟨_, coins.yesAmountCoefficient.field_text _, ?_⟩
  refine bind_eq_ok.mpr ⟨_, coins.totalAmountCoefficient.field_text _, ?_⟩
  refine bind_eq_ok.mpr ⟨_, hsalts, ?_⟩
  simp only [decide_eq_true_eq]
  rfl

/-! ## The program -/

theorem fieldBytes_int {n : Int} (hn : inField n = true) :
    fieldBytes (fieldHex n) = .ok (Field.toBytes ((n : Int) : Field)) := by
  obtain ⟨hnonneg, hlt⟩ := inField_iff.mp hn
  obtain ⟨k, rfl⟩ := Int.eq_ofNat_of_zero_le hnonneg
  apply (fieldBytes_fieldHex (Int.ofNat_lt.mp hlt)).trans
  rw [Int.cast_natCast]

/-- What the program is sent for an order. -/
def orderArgs (values : PlaceValues) (proof publicWitness : String) : PlaceOrderArgs where
  commitment := Field.toBytes ((values.commitment : Int) : Field)
  shareCommitments := {
    first := Field.toBytes ((values.shareCommitments.one : Int) : Field)
    second := Field.toBytes ((values.shareCommitments.two : Int) : Field)
    third := Field.toBytes ((values.shareCommitments.three : Int) : Field) }
  proof := Base64.decode proof.toList
  publicWitness := Base64.decode publicWitness.toList

theorem placeOrderArgs_eq (proof publicWitness : String) : placeOrderArgs
    (orderPlacement P market payer amount side coins) proof publicWitness =
      .ok (orderArgs (orderPlacement P market payer amount side coins) proof publicWitness) := by
  unfold placeOrderArgs
  refine bind_eq_ok.mpr ⟨_, fieldBytes_int inField_commitment, ?_⟩
  refine bind_eq_ok.mpr ⟨_, fieldBytes_int (inField_shareCommitments .one), ?_⟩
  refine bind_eq_ok.mpr ⟨_, fieldBytes_int (inField_shareCommitments .two), ?_⟩
  exact bind_eq_ok.mpr ⟨_, fieldBytes_int (inField_shareCommitments .three), rfl⟩

/-- The public inputs are those the program expects. -/
theorem Fits.placeFields_eq (h : Fits market amount) (proof publicWitness : String) :
    (orderPublic rt.poseidon market payer amount side coins).fields.map Field.toBytes =
      Zk.placeFields rt market payer
        (orderArgs (orderPlacement rt.poseidon market payer amount side coins) proof
          publicWitness).commitment
        (orderArgs (orderPlacement rt.poseidon market payer amount side coins) proof
          publicWitness).shareCommitments := by
  rw [Zk.placeFields, Zk.fieldFromU64_eq h.marketId_le, Zk.fieldFromU64_eq h.stake_le]
  rfl

/-- A proof of some public inputs, as the program takes it: its length, its public witness, and
the answer of the verifier. -/
structure Proves (rt : PrivateRuntime) (verifier : Pubkey) (fields : List Bytes32)
    (proof publicWitness : List UInt8) : Prop where
  length : 128 ≤ proof.length ∧ proof.length ≤ Zk.maxProofLen
  witness : ∃ header : List UInt8, header.length = Zk.witnessHeaderLen ∧
    publicWitness = header ++ fields.flatMap Bytes.toList
  accepted : rt.invokeVerifier verifier (proof ++ publicWitness) = true

theorem Proves.verify_eq {verifier : Pubkey} {fields : List Bytes32}
    {proof publicWitness : List UInt8} (h : Proves rt verifier fields proof publicWitness)
    {account : AccountInfo} (hkey : account.key = verifier) (hexecutable : account.executable = true) :
    Zk.verify rt fields proof publicWitness account verifier = .ok () := by
  obtain ⟨header, hheader, rfl⟩ := h.witness
  have hlength : (header ++ fields.flatMap Bytes.toList).length =
      Zk.witnessHeaderLen + fields.length * Zk.fieldLen := by
    rw [List.length_append, hheader, List.length_flatMap]
    simp [Zk.fieldLen]
  have hpieces : (fields.zipIdx.all fun e => Zk.witnessField
      (header ++ fields.flatMap Bytes.toList) e.2 = e.1.toList) = true := by
    rw [List.all_eq_true]
    intro e he
    obtain ⟨hi, hfield⟩ := List.mem_zipIdx' he
    rw [decide_eq_true_eq, hfield]
    exact witnessField_flatMap header hheader fields _ hi
  rw [Zk.verify, check_pos h.length, ok_bind, check_pos hlength, ok_bind, check_pos hkey, ok_bind,
    check_pos hexecutable, ok_bind, check_pos hpieces, ok_bind, require_pos h.accepted]

/-- What the program needs to take an order, beside its proof. -/
structure Takes (s : PrivateState) (accounts : PlaceOrderAccounts) (args : PlaceOrderArgs)
    (now : Int) : Prop where
  phase : s.market.phase = .open
  beforeLock : now < s.market.lockTs
  owner : (s.tokens accounts.payerToken).owner = accounts.payer
  mint : (s.tokens accounts.payerToken).mint = s.market.collateralMint
  funds : s.market.stakeAmount ≤ (s.tokens accounts.payerToken).amount
  room : s.vault + s.market.stakeAmount ≤ u64Max
  count : s.market.orderCount + 1 ≤ u32Max
  fresh : (s.order? args.commitment).isNone = true
  commitment : args.commitment ≠ zeroBytes
  shareCommitments : args.shareCommitments.first ≠ zeroBytes ∧
    args.shareCommitments.second ≠ zeroBytes ∧ args.shareCommitments.third ≠ zeroBytes

/-- The state an order leaves. -/
def placed (rt : PrivateRuntime) (s : PrivateState) (accounts : PlaceOrderAccounts)
    (args : PlaceOrderArgs) : PrivateState :=
  { s with
    market := { s.market with orderCount := s.market.orderCount + 1 }
    orders := s.orders ++ [newOrder rt s accounts.payer args]
    vault := s.vault + s.market.stakeAmount
    tokens := s.tokens.setAmount accounts.payerToken
      ((s.tokens accounts.payerToken).amount - s.market.stakeAmount) }

/-- **The program takes an order whose proof verifies.** -/
theorem Takes.placeOrder_eq {accounts : PlaceOrderAccounts} {args : PlaceOrderArgs} {now : Int}
    (h : Takes s accounts args now) (hverified : Zk.verifyPlace rt s.market accounts.payer args
      accounts.placementVerifier = .ok ()) :
    placeOrder rt s accounts args now = .ok (placed rt s accounts args) := by
  have hdebit : s.tokens.debit accounts.payerToken s.market.stakeAmount = .ok (s.tokens.setAmount
      accounts.payerToken ((s.tokens accounts.payerToken).amount - s.market.stakeAmount)) := by
    rw [Tokens.debit, require_pos h.funds, ok_bind]
  have hdeposit : depositIntoVault s.tokens accounts.payerToken s.vault s.market.stakeAmount =
      .ok ⟨s.tokens.setAmount accounts.payerToken ((s.tokens accounts.payerToken).amount -
        s.market.stakeAmount), s.vault + s.market.stakeAmount⟩ := by
    unfold depositIntoVault
    refine bind_eq_ok.mpr ⟨_, hdebit, ?_⟩
    exact bind_eq_ok.mpr ⟨_, okOr_eq_ok.mpr (checkedAdd_eq_some.mpr ⟨h.room, rfl⟩), rfl⟩
  unfold placeOrder
  refine bind_eq_ok.mpr ⟨(), checkTokenAccount_ok.mpr ⟨h.owner, h.mint⟩, ?_⟩
  refine bind_eq_ok.mpr ⟨(), require_eq_ok.mpr h.fresh, ?_⟩
  refine bind_eq_ok.mpr ⟨(), check_eq_ok.mpr h.phase, ?_⟩
  refine bind_eq_ok.mpr ⟨(), check_eq_ok.mpr h.beforeLock, ?_⟩
  refine bind_eq_ok.mpr ⟨(), check_eq_ok.mpr h.commitment, ?_⟩
  refine bind_eq_ok.mpr ⟨(), check_eq_ok.mpr h.shareCommitments, ?_⟩
  refine bind_eq_ok.mpr ⟨(), hverified, ?_⟩
  refine bind_eq_ok.mpr ⟨_, orFail_eq_ok.mpr (checkedAdd_eq_some.mpr ⟨h.count, rfl⟩), ?_⟩
  exact bind_eq_ok.mpr ⟨_, hdeposit, rfl⟩

/-! ## The stored position -/

theorem commitment_val : (orderPlacement P market payer amount side coins).commitment =
    (((coins.opening amount side).commitment P market.marketId market.stakeAmount).val : Int) := by
  refine inField_ext inField_commitment (inField_val _) ?_
  rw [cast_commitment, Int.cast_natCast, ZMod.natCast_zmod_val]

/-- **The position keeps the order.** -/
theorem keeps_prepared (marketAddress question createdAt : String) : Keeps P market
    (preparedPosition (orderPlacement P market payer amount side coins) payer side coins.witness
      marketAddress question createdAt) (coins.opening amount side) := by
  constructor
  case commitment => exact congrArg fieldHex commitment_val
  case stakeAmount => rfl
  case amount => rfl
  case side => rfl
  case secret =>
    have hval : ((coins.opening amount side).secret.val : Int) = (coins.secret.n : Int) :=
      congrArg Nat.cast coins.secret.val_field
    exact congrArg fieldHex hval.symm
  case nullifier =>
    have hval : ((coins.opening amount side).nullifier.val : Int) = (coins.nullifier.n : Int) :=
      congrArg Nat.cast coins.nullifier.val_field
    exact congrArg fieldHex hval.symm

/-! ## Over every run -/

/-- The placement of an order, from what the panel hands a prover to what the program does. -/
structure PlacementProved (rt : PrivateRuntime) (s : PrivateState) (payer : Pubkey)
    (side : PositionSide) (witness : PlacementWitness) (values : PlaceValues)
    (pub : PlaceOrder.Public) (w : PlaceOrder.Private) : Prop where
  /-- Every assertion holds of the inputs of the prover in the browser. -/
  circuit : (placeInputs values side witness).readPublic = some pub ∧
    (placeInputs values side witness).readPrivate = some w ∧ PlaceOrder.main rt.poseidon pub w
  /-- The hosted prover accepts the request, and hands the circuit the same inputs. -/
  hosted : ∃ input : ProverRequests.PlaceRequest,
    ProverRequests.checkedPlace (placeRequest values payer side witness) = .ok input ∧
      ProverRequests.provePlace rt.poseidon input = .ok (placeInputs values side witness)
  /-- The program takes the order with any proof of these public inputs. -/
  accepted : ∀ (accounts : PlaceOrderAccounts) (now : Int) (proof publicWitness : String),
    accounts.payer = payer → accounts.placementVerifier.key = s.market.placementVerifier →
    accounts.placementVerifier.executable = true →
    Proves rt s.market.placementVerifier (pub.fields.map Field.toBytes)
      (Base64.decode proof.toList) (Base64.decode publicWitness.toList) →
      ∃ args, placeOrderArgs values proof publicWitness = .ok args ∧
        (Takes s accounts args now →
          placeOrder rt s accounts args now = .ok (placed rt s accounts args))
  /-- The stored position is what the order is redeemed from. -/
  keeps : ∀ marketAddress question createdAt, Keeps rt.poseidon s.market
    (preparedPosition values payer side witness marketAddress question createdAt) w.opening

/-- **An order the panel prepares can be proved and placed.** In every state of a market, whatever is
drawn and whatever amount the panel lets through. -/
theorem placement_complete (hinit : Created init) (hrun : Run (Step rt) init tr s)
    {draws rest : List Bytes32} {witness : PlacementWitness}
    (hdrawn : createPlacementWitness draws = some (witness, rest)) {now : Int}
    {tokenBalance : Option Nat} {amountInput : String}
    (hvalues : placeValues rt.poseidon s.market now payer tokenBalance amountInput side witness =
      .ok values)
    (hpayer : rt.poseidon (Zk.pubkeyFields payer).1 (Zk.pubkeyFields payer).2 ≠ 0) :
    ∃ pub w, PlacementProved rt s payer side witness values pub w := by
  obtain ⟨coins, rfl⟩ := createPlacementWitness_eq hdrawn
  obtain ⟨amount, hchecks, rfl⟩ := placeValues_ok hvalues
  have hfits := hchecks.fits hinit hrun
  refine ⟨orderPublic rt.poseidon s.market payer amount side coins,
    coins.orderWitness (wager amount hfits.amount_le) side, ?_⟩
  constructor
  case circuit => exact ⟨hfits.readPublic_eq, hfits.readPrivate_eq, hfits.main_holds hpayer⟩
  case hosted => exact ⟨_, hfits.checkedPlace_eq, provePlace_eq⟩
  case accepted =>
    rintro accounts now proof publicWitness rfl hkey hexecutable hproves
    refine ⟨_, placeOrderArgs_eq proof publicWitness, ?_⟩
    intro htakes
    apply htakes.placeOrder_eq
    rw [Zk.verifyPlace, ← hfits.placeFields_eq proof publicWitness]
    exact hproves.verify_eq hkey hexecutable
  case keeps => exact fun marketAddress question createdAt =>
    keeps_prepared marketAddress question createdAt

/-! ### A concrete order -/

namespace Sample

/-- What the browser draws for the first order. The zero is drawn again. -/
def draws : List Bytes32 :=
  [0, 11, 21, 1, 1, 1, 1, 2, 3].map fun n => ⟨beBytes 32 n, length_beBytes 32 n⟩

def drawnCoins : Coins where
  secret := ⟨11, by decide, by decide⟩
  nullifier := ⟨21, by decide, by decide⟩
  sideCoefficient := ⟨1, by decide, by decide⟩
  yesAmountCoefficient := ⟨1, by decide, by decide⟩
  totalAmountCoefficient := ⟨1, by decide, by decide⟩
  salts := {
    one := ⟨1, by decide, by decide⟩
    two := ⟨2, by decide, by decide⟩
    three := ⟨3, by decide, by decide⟩ }

theorem drawn_eq : createPlacementWitness draws = some (drawnCoins.witness, []) := by decide +kernel

/-- The values of an order of 2.500025 USDC on YES. -/
theorem panelValues_eq : placeValues poseidon (newMarket protocol creator args) 0 alice
    (some 1000000000000) "2.500025" .yes drawnCoins.witness =
      .ok (orderPlacement poseidon (newMarket protocol creator args) alice 2500025 .yes drawnCoins) := by
  have hamount : parseUsdc "2.500025" = .ok ((2500025 : Nat) : Int) := by rfl
  exact placeValues_eq ⟨rfl, by decide, by decide, by decide⟩ (by decide) (by decide) hamount

end Sample

/-- The first order of a market that was just created. -/
theorem placement_complete_sample : ∃ (s : PrivateState) (values : PlaceValues)
    (pub : PlaceOrder.Public) (w : PlaceOrder.Private), s.market.phase = .open ∧
      values.amount = 2500025 ∧
      PlacementProved Sample.market s Sample.alice .yes Sample.drawnCoins.witness values pub w := by
  obtain ⟨init, hinit⟩ : ∃ init, Sample.created = .ok init := ⟨_, rfl⟩
  have hcreated := Sample.created_of_ok hinit
  obtain ⟨-, rfl⟩ := initializeMarket_ok hinit
  have hpayer : Sample.market.poseidon (Zk.pubkeyFields Sample.alice).1
      (Zk.pubkeyFields Sample.alice).2 ≠ 0 := by decide +kernel
  have hrun : ∀ s, Run (Step Sample.market) s [] s := fun s => .nil s
  obtain ⟨pub, w, hproved⟩ :=
    placement_complete hcreated (hrun _) Sample.drawn_eq Sample.panelValues_eq hpayer
  exact ⟨_, _, pub, w, rfl, rfl, hproved⟩

end Nortia.PrivatePool
