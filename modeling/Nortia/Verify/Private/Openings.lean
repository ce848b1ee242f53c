import Nortia.Client.Committee
import Nortia.Verify.Private.Invariant

/-!
# The orders behind the commitments

An order on chain is a commitment. What it hides is its opening, which the placement circuit has
checked; a true batch is what the openings of all orders add up to. A redemption the verifier
accepts is one of these openings, with its exact payout.
-/

namespace Nortia.PrivatePool

open Lib Circuit

variable {rt : PrivateRuntime} {S : Set (Field × Field)} {s s' : PrivateState} {tr : List Event}

/-! ## Verifiers -/

/-- A verifier program accepts a proof only when its `count` public inputs, each in its 32 bytes,
satisfy the circuit. -/
def VerifierSound (rt : PrivateRuntime) (verifier : Pubkey) (count : Nat)
    (circuit : List Field → Prop) : Prop :=
  ∀ proof witness : List UInt8,
    witness.length = Zk.witnessHeaderLen + count * Zk.fieldLen →
    rt.invokeVerifier verifier (proof ++ witness) = true →
      ∃ fields : List Field, fields.length = count ∧
        witness.drop Zk.witnessHeaderLen = (fields.map Field.toBytes).flatMap Bytes.toList ∧
        circuit fields

/-- What passes `verify` under a sound verifier satisfies the circuit. -/
theorem VerifierSound.verified {verifier : Pubkey} {circuit : List Field → Prop}
    {expected : List Bytes32} (hsound : VerifierSound rt verifier expected.length circuit)
    {proof witness : List UInt8} {account : AccountInfo} {u : Unit}
    (h : Zk.verify rt expected proof witness account verifier = .ok u) :
    ∃ fields, fields.map Field.toBytes = expected ∧ circuit fields := by
  obtain ⟨hlen, hbytes, hinvoked⟩ := Zk.verify_ok h
  obtain ⟨fields, hcount, hfields, hcircuit⟩ := hsound proof witness hlen hinvoked
  refine ⟨fields, ?_, hcircuit⟩
  exact Zk.flatMap_toBytes_injective (by rw [List.length_map, hcount]) (hfields.symm.trans hbytes)

/-! ## Orders -/

/-- What the placement circuit knows of the order behind a commitment. -/
structure PlacedBy (hash : Poseidon) (S : Set (Field × Field)) (market : Market) (order : Order)
    (o : Opening) : Prop where
  commitment : order.commitment =
    Field.toBytes (o.commitment hash market.marketId market.stakeAmount)
  minAmount : Circuit.minWagerAmount ≤ o.amount
  maxAmount : o.amount ≤ market.stakeAmount
  secret : o.secret ≠ 0
  nullifier : o.nullifier ≠ 0
  hashed : ∀ pair ∈ o.pairs hash market.marketId market.stakeAmount, pair ∈ S

/-- Every order of the market went through the placement circuit. -/
def Placed (rt : PrivateRuntime) (S : Set (Field × Field)) (s : PrivateState) : Prop :=
  ∀ order ∈ s.orders, ∃ o, PlacedBy rt.poseidon S s.market order o

/-- Only the commitment of the order matters, and what it is made over. -/
theorem PlacedBy.of_commitment {hash : Poseidon} {market market' : Market} {order order' : Order}
    {o : Opening} (h : PlacedBy hash S market order o)
    (hmarketId : market'.marketId = market.marketId)
    (hstake : market'.stakeAmount = market.stakeAmount)
    (horder : order'.commitment = order.commitment) : PlacedBy hash S market' order' o := by
  constructor
  case commitment => rw [horder, hmarketId, hstake, h.commitment]
  case minAmount => exact h.minAmount
  case maxAmount => rw [hstake]; exact h.maxAmount
  case secret => exact h.secret
  case nullifier => exact h.nullifier
  case hashed => rw [hmarketId, hstake]; exact h.hashed

theorem Placed.of_commitments (h : Placed rt S s)
    (hmarketId : s'.market.marketId = s.market.marketId)
    (hstake : s'.market.stakeAmount = s.market.stakeAmount)
    (horders : ∀ order ∈ s'.orders, ∃ old ∈ s.orders, order.commitment = old.commitment) :
    Placed rt S s' := by
  intro order horder
  obtain ⟨old, hold, hsame⟩ := horders order horder
  obtain ⟨o, ho⟩ := h old hold
  exact ⟨o, ho.of_commitment hmarketId hstake hsame⟩

/-- An accepted order has an opening. -/
theorem placeOrder_placedBy (hI : Inv tr s)
    (hsound : VerifierSound rt s.market.placementVerifier Zk.placementPublicInputs
      (PlaceOrder.Satisfied rt.poseidon S))
    {accounts : PlaceOrderAccounts} {args : PlaceOrderArgs}
    (h : Zk.verifyPlace rt s.market accounts.payer args accounts.placementVerifier = .ok ()) :
    ∃ o, PlacedBy rt.poseidon S s.market (newOrder rt s accounts.payer args) o := by
  obtain ⟨fields, hfields, pub, w, rfl, hmain, hpairs⟩ := hsound.verified h
  have hstake : s.market.stakeAmount ≤ u64Max :=
    (validPrivateStakeAmount_bounds hI.stake).2.trans (by decide)
  rw [Zk.placeFields, Zk.fieldFromU64_eq hI.marketId_le, Zk.fieldFromU64_eq hstake] at hfields
  simp only [PlaceOrder.Public.fields, List.map_cons, List.map_nil, List.cons.injEq] at hfields
  obtain ⟨hmarketId, hstakeAmount, -, hcommitment, -⟩ := hfields
  have hmarketId := Field.toBytes_injective hmarketId
  have hstakeAmount := Field.toBytes_injective hstakeAmount
  obtain ⟨-, hmin, hmax, hopened, -, -, -, -, hsecret, hnullifier, -⟩ := hmain
  rw [hmarketId, hstakeAmount] at hopened
  rw [hstakeAmount, Field.toU64_u64 hstake] at hmax
  refine ⟨w.opening, ?_⟩
  constructor
  case commitment =>
    show args.commitment = _
    rw [← hcommitment, hopened]
    rfl
  case minAmount => exact hmin
  case maxAmount => exact hmax
  case secret => exact hsecret
  case nullifier => exact hnullifier
  case hashed =>
    intro pair hpair
    apply hpairs
    rw [PlaceOrder.Private.pairs, hmarketId, hstakeAmount]
    simp only [List.mem_append]
    exact .inl (.inl (.inl hpair))

/-- **Every order has an opening** when the placement verifier is sound. -/
theorem placed_run {init : PrivateState} (hinit : Created init) (hrun : Run (Step rt) init tr s)
    (hsound : VerifierSound rt s.market.placementVerifier Zk.placementPublicInputs
      (PlaceOrder.Satisfied rt.poseidon S)) : Placed rt S s := by
  let Opened (tr : List Event) (s : PrivateState) : Prop := Inv tr s ∧
    (VerifierSound rt s.market.placementVerifier Zk.placementPublicInputs
      (PlaceOrder.Satisfied rt.poseidon S) → Placed rt S s)
  have hopened : Opened tr s := by
    refine hrun.history (I := Opened) ?_ ⟨inv_created hinit, ?_⟩
    · rintro tr s e s' ⟨hI, hplaced⟩ hstep
      refine ⟨inv_step hI hstep, fun hsound => ?_⟩
      cases hstep with
      | @call _ instruction now hok =>
        cases instruction with
        | syncMarketVerifiers protocol authority =>
          -- verifiers change only while there is no order
          obtain ⟨hsync, rfl⟩ := syncMarketVerifiers_ok hok
          have hnone : s.orders = [] :=
            List.length_eq_zero_iff.mp (hI.orders_length.trans hsync.2.1)
          intro order horder
          rw [show _ = s.orders from rfl, hnone] at horder
          cases horder
        | placeOrder accounts args =>
          obtain ⟨hchecks, -, tokens, rfl⟩ := placeOrder_ok hok
          intro order horder
          rcases List.mem_append.mp horder with hold | hnew
          · obtain ⟨o, ho⟩ := hplaced hsound order hold
            exact ⟨o, ho.of_commitment rfl rfl rfl⟩
          · obtain ⟨o, ho⟩ := placeOrder_placedBy hI hsound hchecks.verified
            rw [List.mem_singleton.mp hnew]
            exact ⟨o, ho.of_commitment rfl rfl rfl⟩
        | submitBatch remainingAccounts args =>
          obtain ⟨-, rfl⟩ := submitBatch_ok hok
          exact (hplaced hsound).of_commitments rfl rfl fun order h => ⟨order, h, rfl⟩
        | resolveMarket accounts finalSeq payload =>
          obtain ⟨_, _, _, _, _, -, rfl⟩ := resolveMarket_ok hok
          exact (hplaced hsound).of_commitments rfl rfl fun order h => ⟨order, h, rfl⟩
        | beginRefund =>
          obtain ⟨-, rfl⟩ := beginRefund_ok hok
          exact (hplaced hsound).of_commitments rfl rfl fun order h => ⟨order, h, rfl⟩
        | refundOrder payer payerToken commitment =>
          obtain ⟨_, -, rfl⟩ := refundOrder_ok hok
          refine (hplaced hsound).of_commitments rfl rfl fun order h => ?_
          obtain ⟨old, hold, rfl⟩ := List.mem_map.mp h
          refine ⟨old, hold, ?_⟩
          split <;> rfl
        | redeem accounts args =>
          obtain ⟨_, _, -, -, -, rfl⟩ := redeem_ok hok
          exact (hplaced hsound).of_commitments rfl rfl fun order h => ⟨order, h, rfl⟩
      | donate => exact hplaced hsound
      | external => exact hplaced hsound
    · intro _ order horder
      obtain ⟨_, _, _, _, _, _, _, h⟩ := hinit
      obtain ⟨-, rfl⟩ := initializeMarket_ok h
      cases horder
  exact hopened.2 hsound

end Nortia.PrivatePool
