import Nortia.Lib.Rounding
import Nortia.Verify.Private.Lifecycle
import Nortia.Verify.Private.Openings

/-!
# Redemption of a true batch

The openings of a market's orders decide what each order is owed. Every redemption pays one order
that was not paid before, the last one also takes what rounding left, and the vault always holds
enough for the rest.
-/

namespace Nortia.PrivatePool

open Lib Circuit

variable {rt : PrivateRuntime} {S : Set (Field × Field)} {s s' : PrivateState} {tr : List Event}
  {os : List Opening} {o : Opening}

/-! ## The openings of a market -/

/-- The commitments of openings as the client's field elements. -/
def leaves (hash : Poseidon) (market : Market) (os : List Opening) : List Int :=
  os.map fun o => ((o.commitment hash market.marketId market.stakeAmount).val : Int)

/-- The nullifier hash of an opening, in bytes. -/
def nullifierBytes (hash : Poseidon) (market : Market) (o : Opening) : Bytes32 :=
  Field.toBytes (hash market.marketId o.nullifier)

/-- `os` opens the orders of the market, in the sequence of their indices, over hashed pairs. -/
structure Opens (rt : PrivateRuntime) (S : Set (Field × Field)) (s : PrivateState)
    (os : List Opening) : Prop where
  commitments : s.orders.map (·.commitment) = os.map fun o =>
    Field.toBytes (o.commitment rt.poseidon s.market.marketId s.market.stakeAmount)
  width : ∀ o ∈ os, o.amount ≤ u64Max
  hashed : ∀ o ∈ os, ∀ pair ∈ o.pairs rt.poseidon s.market.marketId s.market.stakeAmount, pair ∈ S
  nullifiersHashed : ∀ o ∈ os, ((s.market.marketId : Field), o.nullifier) ∈ S
  treeHashed : Merkle.treePairs rt.poseidon
    (Client.fieldRow (leaves rt.poseidon s.market os)) treeDepth ⊆ S

/-- The batch of a market says what the openings of its orders add up to. -/
structure TrueBatch (hash : Poseidon) (market : Market) (os : List Opening) : Prop where
  yesCount : market.yesCount = os.countP (·.side)
  noCount : market.noCount = os.countP (!·.side)
  yesAmount : market.yesAmount = ((os.filter (·.side)).map (·.amount)).sum
  noAmount : market.noAmount = ((os.filter (!·.side)).map (·.amount)).sum
  root : ∃ root, Client.commitmentRoot hash (leaves hash market os) = .ok root ∧
    market.commitmentRoot = Field.toBytes (root : Field)

/-- What the claims about redemption assume: an ideal hash, sound verifiers, the openings of the
orders with distinct nullifiers, and their true batch. -/
structure Honest (rt : PrivateRuntime) (S : Set (Field × Field)) (s : PrivateState)
    (os : List Opening) : Prop where
  ideal : IdealHash rt.poseidon S
  placementSound : VerifierSound rt s.market.placementVerifier Zk.placementPublicInputs
    (PlaceOrder.Satisfied rt.poseidon S)
  redeemSound : VerifierSound rt s.market.redeemVerifier Zk.redeemPublicInputs
    (Redeem.Satisfied rt.poseidon S)
  opens : Opens rt S s os
  nullifiers : (os.map (·.nullifier)).Nodup
  batch : TrueBatch rt.poseidon s.market os

/-! ## What an order is owed -/

/-- Whether an opening is on the winning side. -/
def wins (market : Market) (o : Opening) : Bool := o.side = decide (market.outcome = 1)

/-- The exact payout of an order: its unused stake and, if it wins, its share of the pool. -/
def payout (market : Market) (o : Opening) : Nat :=
  (market.stakeAmount - o.amount) +
    if wins market o then Rounding.share market.netPool market.winningAmount o.amount else 0

/-- What rounding leaves of the pool. -/
def remainder (market : Market) (os : List Opening) : Nat :=
  market.netPool - ((os.filter (wins market)).map fun o =>
    Rounding.share market.netPool market.winningAmount o.amount).sum

/-- The orders not claimed yet. -/
def unclaimed (rt : PrivateRuntime) (s : PrivateState) (os : List Opening) : List Opening :=
  Rounding.unused (nullifierBytes rt.poseidon s.market) os (s.claims.map (·.nullifierHash))

section Openings

variable (hH : Honest rt S s os)

include hH in
theorem Honest.length_eq (hI : Inv tr s) : os.length = s.market.orderCount := by
  rw [← hI.orders_length, ← List.length_map (f := fun order : Order => order.commitment),
    hH.opens.commitments, List.length_map]

include hH in
theorem Honest.nullifierBytes_injOn {o o' : Opening} (ho : o ∈ os) (ho' : o' ∈ os)
    (h : nullifierBytes rt.poseidon s.market o = nullifierBytes rt.poseidon s.market o') :
    o.nullifier = o'.nullifier := by
  have hhash := Field.toBytes_injective h
  exact (Prod.mk.inj (hH.ideal.injOn (hH.opens.nullifiersHashed o ho)
    (hH.opens.nullifiersHashed o' ho') hhash)).2

include hH in
theorem Honest.nullifierBytes_nodup :
    (os.map (nullifierBytes rt.poseidon s.market)).Nodup := by
  have hnodup := hH.nullifiers
  rw [List.Nodup, List.pairwise_map] at hnodup ⊢
  refine hnodup.imp_of_mem ?_
  intro o o' ho ho' hne h
  exact hne (hH.nullifierBytes_injOn ho ho' h)

include hH in
/-- What the placement circuit checked holds of the openings. -/
theorem Honest.placed {init : PrivateState} (hinit : Created init)
    (hrun : Run (Step rt) init tr s) (ho : o ∈ os) :
    ∃ order ∈ s.orders, PlacedBy rt.poseidon S s.market order o := by
  have hI : Inv tr s := inv_run hinit hrun
  have hplaced : Placed rt S s := placed_run hinit hrun hH.placementSound
  have hmem : Field.toBytes (o.commitment rt.poseidon s.market.marketId s.market.stakeAmount) ∈
      s.orders.map (·.commitment) := by
    rw [hH.opens.commitments]
    exact List.mem_map_of_mem ho
  obtain ⟨order, horder, hcommitment⟩ := List.mem_map.mp hmem
  obtain ⟨o', ho'⟩ := hplaced order horder
  have hstake : s.market.stakeAmount ≤ u64Max :=
    (validPrivateStakeAmount_bounds hI.stake).2.trans (by decide)
  have heq : o = o' := Opening.commitment_inj hH.ideal (hH.opens.hashed o ho) ho'.hashed
    (hH.opens.width o ho) (ho'.maxAmount.trans hstake)
    (Field.toBytes_injective (hcommitment.symm.trans ho'.commitment))
  exact ⟨order, horder, heq ▸ ho'⟩

end Openings

/-! ## The pool -/

section Pool

variable {hash : Poseidon} {market : Market}

/-- The winning amount and count are those of the winners. -/
theorem TrueBatch.winners (hB : TrueBatch hash market os) :
    market.winningAmount = ((os.filter (wins market)).map (·.amount)).sum ∧
      market.winningCount = (os.filter (wins market)).length := by
  unfold Market.winningAmount Market.winningCount
  by_cases houtcome : market.outcome = 1
  · have hwins : wins market = fun o => o.side := by
      funext o
      simp [wins, houtcome]
    rw [if_pos houtcome, if_pos houtcome, hwins, hB.yesAmount, hB.yesCount,
      List.countP_eq_length_filter]
    exact ⟨rfl, rfl⟩
  · have hwins : wins market = fun o => !o.side := by
      funext o
      simp [wins, houtcome]
    rw [if_neg houtcome, if_neg houtcome, hwins, hB.noAmount, hB.noCount,
      List.countP_eq_length_filter]
    exact ⟨rfl, rfl⟩

/-- The shares of the winners and the remainder make up the pool. -/
theorem TrueBatch.pool (hB : TrueBatch hash market os) (hwinners : 0 < market.winningAmount) :
    ((os.filter (wins market)).map fun o =>
      Rounding.share market.netPool market.winningAmount o.amount).sum + remainder market os =
        market.netPool := by
  obtain ⟨hamount, -⟩ := hB.winners
  rw [remainder]
  refine Nat.add_sub_cancel' ?_
  rw [hamount] at hwinners ⊢
  exact Rounding.sum_share_le hwinners

/-- **The remainder is less than one unit a winner.** -/
theorem TrueBatch.remainder_le (hB : TrueBatch hash market os)
    (hwinners : 0 < market.winningAmount) :
    remainder market os ≤ market.winningCount - 1 := by
  obtain ⟨hamount, hcount⟩ := hB.winners
  have hpool := hB.pool hwinners
  rw [hamount] at hwinners hpool
  have hlt : market.netPool < _ := Rounding.pool_lt_sum_share hwinners
  rw [hcount]
  omega

/-- A sum over a list splits by side. -/
private theorem sum_amount (os : List Opening) :
    (os.map (·.amount)).sum = ((os.filter (·.side)).map (·.amount)).sum +
      ((os.filter (!·.side)).map (·.amount)).sum := by
  induction os with
  | nil => rfl
  | cons o os ih =>
    cases hside : o.side
    · simp only [List.map_cons, List.sum_cons, List.filter_cons, hside, Bool.not_false, ih]
      simp only [Bool.false_eq_true, if_false, if_true, List.map_cons, List.sum_cons]
      omega
    · simp only [List.map_cons, List.sum_cons, List.filter_cons, hside, Bool.not_true, ih]
      simp only [Bool.false_eq_true, if_false, if_true, List.map_cons, List.sum_cons]
      omega

/-- The stakes of the orders are their amounts and the unused rest. -/
private theorem sum_payout (market : Market) (os : List Opening)
    (hmax : ∀ o ∈ os, o.amount ≤ market.stakeAmount) :
    (os.map (payout market)).sum + (os.map (·.amount)).sum =
      market.stakeAmount * os.length + ((os.filter (wins market)).map fun o =>
        Rounding.share market.netPool market.winningAmount o.amount).sum := by
  induction os with
  | nil => simp
  | cons o os ih =>
    have ho := hmax o List.mem_cons_self
    have hrest := ih fun o' ho' => hmax o' (List.mem_cons_of_mem _ ho')
    simp only [List.map_cons, List.sum_cons, List.length_cons, List.filter_cons, Nat.mul_add,
      Nat.mul_one]
    cases hwins : wins market o
    · simp only [payout, hwins, Bool.false_eq_true, if_false]
      omega
    · simp only [payout, hwins, if_true, List.map_cons, List.sum_cons]
      omega

/-- **What is owed, what rounding leaves and the fees make up the stakes.** -/
theorem Settled.pool_eq (hsettled : Settled market) (hB : TrueBatch hash market os)
    (hcount : os.length = market.orderCount) (hmax : ∀ o ∈ os, o.amount ≤ market.stakeAmount) :
    (os.map (payout market)).sum + remainder market os +
        (market.treasuryFee + market.keeperReward) = market.stakeAmount * market.orderCount := by
  have hpool := hB.pool hsettled.winners
  have hfees := hsettled.pool
  have howed := sum_payout market os hmax
  have hamounts := sum_amount os
  rw [← hB.yesAmount, ← hB.noAmount] at hamounts
  rw [hcount] at howed
  omega

end Pool

/-! ## Claims -/

/-- Every claim is the exact payout of one of the orders. -/
def ClaimsMatch (rt : PrivateRuntime) (s : PrivateState) (os : List Opening) : Prop :=
  ∀ claim ∈ s.claims, ∃ o ∈ os,
    claim.nullifierHash = nullifierBytes rt.poseidon s.market o ∧
      claim.amount = payout s.market o

/-- What was claimed and what is still owed make up what all orders are owed. -/
theorem sum_claims {key : Opening → Bytes32} {owed : Opening → Nat}
    (hkeys : (os.map key).Nodup) :
    ∀ claims : List Claim, (claims.map (·.nullifierHash)).Nodup →
      (∀ claim ∈ claims, ∃ o ∈ os, claim.nullifierHash = key o ∧ claim.amount = owed o) →
        (claims.map (·.amount)).sum +
            ((Rounding.unused key os (claims.map (·.nullifierHash))).map owed).sum =
          (os.map owed).sum ∧
        claims.length + (Rounding.unused key os (claims.map (·.nullifierHash))).length =
          os.length := by
  intro claims
  induction claims with
  | nil =>
    intro _ _
    simp
  | cons claim rest ih =>
    intro hnodup hmatch
    rw [List.map_cons, List.nodup_cons] at hnodup
    obtain ⟨hfresh, hnodup⟩ := hnodup
    obtain ⟨hsum, hlength⟩ := ih hnodup fun c hc => hmatch c (List.mem_cons_of_mem _ hc)
    obtain ⟨o, ho, hkey, hamount⟩ := hmatch claim List.mem_cons_self
    have hunused : o ∈ Rounding.unused key os (rest.map (·.nullifierHash)) :=
      Rounding.mem_unused.mpr ⟨ho, hkey ▸ hfresh⟩
    have htakes := Rounding.sum_unused_cons hkeys hunused owed
    have hdrops := Rounding.length_unused_cons hkeys hunused
    rw [List.map_cons, List.map_cons, List.sum_cons, List.length_cons, hkey, hamount]
    omega

section Claims

variable (hH : Honest rt S s os) (hI : Inv tr s)

include hH hI in
theorem Honest.length_unclaimed (hmatch : ClaimsMatch rt s os) :
    s.market.claimedCount + (unclaimed rt s os).length = s.market.orderCount := by
  obtain ⟨-, hlength⟩ := sum_claims hH.nullifierBytes_nodup s.claims hI.claims_nodup hmatch
  rw [← hI.claims_length, ← hH.length_eq hI]
  exact hlength

include hH hI in
/-- **The vault holds what is owed**, what rounding left and what was given for nothing. -/
theorem Honest.vault_eq (hmatch : ClaimsMatch rt s os) (hsettled : Settled s.market)
    (hnone : s.market.refundedCount = 0) (hmax : ∀ o ∈ os, o.amount ≤ s.market.stakeAmount) :
    s.vault = ((unclaimed rt s os).map (payout s.market)).sum + remainder s.market os +
      donated tr := by
  obtain ⟨hsum, -⟩ := sum_claims hH.nullifierBytes_nodup s.claims hI.claims_nodup hmatch
  have hpool := hsettled.pool_eq hH.batch (hH.length_eq hI) hmax
  have hbalance := hI.balance
  rw [hnone, Nat.mul_zero, Nat.add_zero, spent] at hbalance
  unfold unclaimed
  omega

end Claims

end Nortia.PrivatePool
