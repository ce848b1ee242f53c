import Nortia.Verify.Private.Redemption

/-!
# Which order a redemption is for

The redeem circuit climbs from a commitment to the root of the batch. Under an ideal hash the climb
starts at one of the orders, opened as its owner opened it; conversely every order has the path
that proves it.
-/

namespace Nortia.PrivatePool

open Lib Circuit

variable {rt : PrivateRuntime} {S : Set (Field × Field)} {s : PrivateState} {tr : List Event}
  {os : List Opening} {o : Opening} {init : PrivateState}

/-! ## The leaves of a batch -/

section Leaves

variable {hash : Poseidon} {market : Market}

theorem length_leaves : (leaves hash market os).length = os.length := by
  rw [leaves, List.length_map]

/-- The leaf at an index is the commitment there, and zero past the end. -/
theorem fieldRow_leaves (i : Nat) : Client.fieldRow (leaves hash market os) i =
    (os[i]?.map fun o => o.commitment hash market.marketId market.stakeAmount).getD 0 := by
  rw [Client.fieldRow, Client.leafRow, leaves, List.getD_eq_getElem?_getD, List.getElem?_map]
  cases os[i]? with
  | none => simp
  | some o => simp

theorem fieldRow_of_lt {i : Nat} (hi : i < os.length) :
    Client.fieldRow (leaves hash market os) i =
      os[i].commitment hash market.marketId market.stakeAmount := by
  rw [fieldRow_leaves, List.getElem?_eq_getElem hi]
  rfl

theorem fieldRow_of_le {i : Nat} (hi : os.length ≤ i) :
    Client.fieldRow (leaves hash market os) i = 0 := by
  rw [fieldRow_leaves, List.getElem?_eq_none hi]
  rfl

/-- The root on chain is the root of the tree over the orders. -/
theorem TrueBatch.root_eq (hB : TrueBatch hash market os) : os.length ≤ 2 ^ treeDepth ∧
    market.commitmentRoot =
      Field.toBytes (Merkle.node hash (Client.fieldRow (leaves hash market os)) treeDepth 0) := by
  obtain ⟨root, hroot, hbytes⟩ := hB.root
  obtain ⟨hlength, -, hnode⟩ := Client.commitmentRoot_ok hroot
  rw [length_leaves] at hlength
  exact ⟨hlength, by rw [hbytes, hnode]⟩

end Leaves

/-! ## Statements on chain -/

/-- The numbers of a settled market fit their widths. -/
structure Widths (market : Market) : Prop where
  marketId : market.marketId ≤ u64Max
  stake : market.stakeAmount ≤ u64Max
  outcome : market.outcome ≤ u64Max
  netPool : market.netPool ≤ u64Max
  winningAmount : market.winningAmount ≤ u64Max

theorem Inv.widths (hI : Inv tr s) (hsettled : Settled s.market) : Widths s.market where
  marketId := hI.marketId_le
  stake := (validPrivateStakeAmount_bounds hI.stake).2.trans (by decide)
  outcome := by
    rcases hsettled.outcome with h | h <;> rw [h] <;> decide
  netPool := hsettled.netPool_le
  winningAmount := by
    have hamounts := hsettled.batched.amounts
    simp only [validPrivateBatchAmounts, checkedAdd, Bool.and_eq_true] at hamounts
    have hfits : s.market.yesAmount + s.market.noAmount ≤ u64Max := by
      by_contra hover
      rw [if_neg hover] at hamounts
      exact absurd hamounts.2 (by decide)
    unfold Market.winningAmount
    split <;> omega

/-- The public inputs the program expects, as field elements. -/
def expectedPublic (rt : PrivateRuntime) (market : Market) (root : Field) (recipient : Pubkey)
    (nullifierHash : Field) (payoutAmount : Nat) : Redeem.Public where
  marketId := market.marketId
  stakeAmount := market.stakeAmount
  commitmentRoot := root
  outcome := market.outcome = 1
  nullifierHash := nullifierHash
  recipientHash := rt.poseidon (Zk.pubkeyFields recipient).1 (Zk.pubkeyFields recipient).2
  netPool := market.netPool
  winningAmount := market.winningAmount
  payoutAmount := payoutAmount

/-- The program rebuilds the public inputs of this statement byte for byte. -/
theorem expectedPublic_bytes {market : Market} (hwidths : Widths market)
    (houtcome : market.outcome = 0 ∨ market.outcome = 1) {root : Field}
    (hroot : market.commitmentRoot = Field.toBytes root) (recipient : Pubkey)
    (nullifierHash : Field) {payoutAmount : Nat} (hpayout : payoutAmount ≤ u64Max) :
    (expectedPublic rt market root recipient nullifierHash payoutAmount).fields.map Field.toBytes =
      Zk.redeemFields rt market recipient (Field.toBytes nullifierHash) payoutAmount := by
  have hside : sideField (decide (market.outcome = 1)) = ((market.outcome : Nat) : Field) := by
    rcases houtcome with h | h <;> simp [h, sideField]
  simp only [Redeem.Public.fields, expectedPublic, Zk.redeemFields, List.map_cons, List.map_nil,
    Zk.fieldFromU64_eq hwidths.marketId, Zk.fieldFromU64_eq hwidths.stake,
    Zk.fieldFromU64_eq hwidths.outcome, Zk.fieldFromU64_eq hwidths.netPool,
    Zk.fieldFromU64_eq hwidths.winningAmount, Zk.fieldFromU64_eq hpayout, hroot, hside,
    Zk.pubkeyHash]

/-- The payout as the circuit writes it. -/
theorem payout_eq (market : Market) (o : Opening) : payout market o =
    (market.stakeAmount - o.amount) + if o.side = decide (market.outcome = 1) then
      o.amount * market.netPool / market.winningAmount else 0 := by
  unfold payout wins Rounding.share
  by_cases hside : o.side = decide (market.outcome = 1)
  · simp only [hside, decide_true, if_true]
  · simp only [hside, decide_false, Bool.false_eq_true, if_false]

/-! ## From an accepted proof to an order -/

section Accepted

variable (hH : Honest rt S s os) (hinit : Created init) (hrun : Run (Step rt) init tr s)

include hH hinit hrun in
/-- **An accepted redemption is for one of the orders**, with its nullifier and exact payout. -/
theorem Honest.redeem_opening (hsettled : Settled s.market) {recipient : Pubkey}
    {args : RedeemArgs} {verifier : AccountInfo}
    (h : Zk.verifyRedeem rt s.market recipient args verifier = .ok ()) :
    ∃ o ∈ os, args.nullifierHash = nullifierBytes rt.poseidon s.market o ∧
      args.payoutAmount = payout s.market o := by
  have hI : Inv tr s := inv_run hinit hrun
  have hwidths := hI.widths hsettled
  obtain ⟨hcapacity, hroot⟩ := hH.batch.root_eq
  obtain ⟨fields, hfields, pub, w, rfl, hmain, hpairs⟩ := hH.redeemSound.verified h
  -- the nine public inputs, one by one
  rw [Zk.redeemFields, Zk.fieldFromU64_eq hwidths.marketId, Zk.fieldFromU64_eq hwidths.stake,
    Zk.fieldFromU64_eq hwidths.outcome, Zk.fieldFromU64_eq hwidths.netPool,
    Zk.fieldFromU64_eq hwidths.winningAmount, Zk.fieldFromU64_eq args.payoutAmount_le,
    hroot] at hfields
  simp only [Redeem.Public.fields, List.map_cons, List.map_nil, List.cons.injEq, and_true] at hfields
  obtain ⟨hmarketId, hstake, hpubRoot, hside, hnullifier, -, hnetPool, hwinning, hpayout⟩ := hfields
  have hmarketId := Field.toBytes_injective hmarketId
  have hstake := Field.toBytes_injective hstake
  have hpubRoot := Field.toBytes_injective hpubRoot
  have hside := Field.toBytes_injective hside
  have hnetPool := Field.toBytes_injective hnetPool
  have hwinning := Field.toBytes_injective hwinning
  have hpayout := Field.toBytes_injective hpayout
  have houtcome : pub.outcome = decide (s.market.outcome = 1) := by
    apply sideField_injective
    rw [hside]
    rcases hsettled.outcome with h | h <;> simp [h, sideField]
  simp only [Redeem.main, hmarketId, hstake, hnetPool, hwinning, hpayout, hpubRoot,
    Field.toU64_u64 hwidths.stake, Field.toU64_u64 hwidths.netPool,
    Field.toU64_u64 hwidths.winningAmount, Field.toU64_u64 args.payoutAmount_le] at hmain
  obtain ⟨-, -, -, -, -, hmax, -, hclimb, hhash, hpays, -⟩ := hmain
  simp only [Redeem.Private.pairs, hmarketId, hstake, List.cons_append, List.forall_mem_cons,
    List.forall_mem_append] at hpairs
  obtain ⟨hnullifierPair, hopening, hpath⟩ := hpairs
  -- the climb starts at a leaf of the batch
  have hsteps : w.path.length = treeDepth := by
    rw [Redeem.Private.path, List.length_zip, w.length_pathBits, w.length_siblings, Nat.min_self]
  have hfold : Merkle.fold rt.poseidon
      (w.opening.commitment rt.poseidon s.market.marketId s.market.stakeAmount) w.path =
        Merkle.node rt.poseidon (Client.fieldRow (leaves rt.poseidon s.market os))
          (0 + w.path.length) 0 := by
    rw [hsteps, Nat.zero_add]
    exact hclimb
  obtain ⟨i, hleaf, -⟩ := Merkle.fold_eq_node hH.ideal.injOn hH.opens.treeHashed w.path _ 0 0
    (by rw [hsteps, Nat.zero_add]) hpath hfold
  have hleaf : w.opening.commitment rt.poseidon s.market.marketId s.market.stakeAmount =
      Client.fieldRow (leaves rt.poseidon s.market os) i := hleaf
  have hi : i < os.length := by
    by_contra hpast
    rw [fieldRow_of_le (Nat.not_lt.mp hpast)] at hleaf
    exact Opening.commitment_ne_zero hH.ideal hopening hleaf
  rw [fieldRow_of_lt hi] at hleaf
  have heq : w.opening = os[i] := Opening.commitment_inj hH.ideal hopening
    (hH.opens.hashed _ (List.getElem_mem hi)) w.amount_le
    (hH.opens.width _ (List.getElem_mem hi)) hleaf
  refine ⟨os[i], List.getElem_mem hi, ?_, ?_⟩
  · rw [nullifierBytes, ← heq, ← hnullifier, ← hhash]
    rfl
  · rw [← heq, ← hpays, payout_eq, houtcome]
    rfl

end Accepted

/-! ## From an order to a proof -/

section Order

variable {market : Market}

/-- No payout exceeds the stakes of all orders. -/
theorem TrueBatch.payout_le_stakes {hash : Poseidon} (hB : TrueBatch hash market os)
    (hsettled : Settled market) (hstake : validPrivateStakeAmount market.stakeAmount = true)
    (hcount : os.length = market.orderCount) (hmax : ∀ o ∈ os, o.amount ≤ market.stakeAmount)
    (ho : o ∈ os) : payout market o ≤ maxPrivateStakeAmount * 2 ^ treeDepth := by
  have hpool := hsettled.pool_eq hB hcount hmax
  have hone : payout market o ≤ (os.map (payout market)).sum :=
    List.single_le_sum (fun _ _ => Nat.zero_le _) _ (List.mem_map_of_mem ho)
  obtain ⟨hcapacity, -⟩ := hB.root_eq
  have hmaxStake := (validPrivateStakeAmount_bounds hstake).2
  have hstakes : market.stakeAmount * market.orderCount ≤ maxPrivateStakeAmount * 2 ^ treeDepth :=
    Nat.mul_le_mul hmaxStake (hcount ▸ hcapacity)
  omega

/-- **The circuit accepts an order** with a path to the root, for its exact payout. -/
theorem redeem_main (hwidths : Widths market) (hwinners : 0 < market.winningAmount)
    {w : Redeem.Private} {root : Field} {recipient : Pubkey}
    (hpayout : payout market w.opening ≤ u64Max)
    (hmin : minWagerAmount ≤ w.amount) (hmax : w.amount ≤ market.stakeAmount)
    (hroot : Redeem.merkleRoot rt.poseidon
      (w.opening.commitment rt.poseidon market.marketId market.stakeAmount) w.path = root)
    (hrecipient : rt.poseidon (Zk.pubkeyFields recipient).1 (Zk.pubkeyFields recipient).2 ≠ 0)
    (hsecret : w.secret ≠ 0) (hnullifier : w.nullifier ≠ 0) :
    Redeem.main rt.poseidon (expectedPublic rt market root recipient
      (rt.poseidon market.marketId w.nullifier) (payout market w.opening)) w := by
  simp only [Redeem.main, expectedPublic, Field.toU64_u64 hwidths.stake,
    Field.toU64_u64 hwidths.netPool, Field.toU64_u64 hwidths.winningAmount,
    Field.toU64_u64 hpayout]
  refine ⟨trivial, trivial, trivial, trivial, hmin, hmax, hwinners, hroot, trivial, ?_,
    hrecipient, hsecret, hnullifier⟩
  rw [payout_eq]
  rfl

end Order

section Provable

variable (hH : Honest rt S s os) (hinit : Created init) (hrun : Run (Step rt) init tr s)

include hH hinit hrun in
theorem Honest.amount_le (ho : o ∈ os) : o.amount ≤ s.market.stakeAmount := by
  obtain ⟨_, -, hplaced⟩ := hH.placed hinit hrun ho
  exact hplaced.maxAmount

include hH hinit hrun in
theorem Honest.payout_le_stakes (hsettled : Settled s.market) (ho : o ∈ os) :
    payout s.market o ≤ maxPrivateStakeAmount * 2 ^ treeDepth := by
  have hI : Inv tr s := inv_run hinit hrun
  exact hH.batch.payout_le_stakes hsettled hI.stake (hH.length_eq hI)
    (fun o ho => hH.amount_le hinit hrun ho) ho

include hH hinit hrun in
theorem Honest.payout_le (hsettled : Settled s.market) (ho : o ∈ os) :
    payout s.market o ≤ u64Max :=
  (hH.payout_le_stakes hinit hrun hsettled ho).trans (by decide)

/-- The private inputs of an order: its opening and the path of its index. -/
def redeemWitness (hash : Poseidon) (row : Nat → Field) (o : Opening) (i : Nat)
    (hamount : o.amount ≤ u64Max) : Redeem.Private where
  amount := o.amount
  side := o.side
  secret := o.secret
  nullifier := o.nullifier
  pathBits := (Merkle.path hash row 0 i treeDepth).map (·.1)
  siblings := (Merkle.path hash row 0 i treeDepth).map (·.2)
  amount_le := hamount
  length_pathBits := by rw [List.length_map, Merkle.length_path]
  length_siblings := by rw [List.length_map, Merkle.length_path]

theorem redeemWitness_path (hash : Poseidon) (row : Nat → Field) (o : Opening) (i : Nat)
    (hamount : o.amount ≤ u64Max) :
    (redeemWitness hash row o i hamount).path = Merkle.path hash row 0 i treeDepth := by
  rw [Redeem.Private.path, redeemWitness]
  exact List.zip_of_prod rfl rfl

include hH hinit hrun in
/-- **Every order can be proved.** The path of its index satisfies the circuit for its exact payout
and any recipient whose key does not hash to zero. -/
theorem Honest.provable (hsettled : Settled s.market) {i : Nat} (hi : i < os.length)
    {recipient : Pubkey} (hrecipient : rt.poseidon (Zk.pubkeyFields recipient).1
      (Zk.pubkeyFields recipient).2 ≠ 0) :
    Redeem.main rt.poseidon
      (expectedPublic rt s.market (Merkle.node rt.poseidon
        (Client.fieldRow (leaves rt.poseidon s.market os)) treeDepth 0) recipient
        (rt.poseidon s.market.marketId os[i].nullifier) (payout s.market os[i]))
      (redeemWitness rt.poseidon (Client.fieldRow (leaves rt.poseidon s.market os)) os[i] i
        (hH.opens.width _ (List.getElem_mem hi))) := by
  have hmem : os[i] ∈ os := List.getElem_mem hi
  obtain ⟨order, -, hplaced⟩ := hH.placed hinit hrun hmem
  obtain ⟨hcapacity, -⟩ := hH.batch.root_eq
  have hfold := @Merkle.fold_path _ rt.poseidon
    (Client.fieldRow (leaves rt.poseidon s.market os)) treeDepth 0 i
  have hzero : i / 2 ^ treeDepth = 0 := Nat.div_eq_of_lt (Nat.lt_of_lt_of_le hi hcapacity)
  rw [Nat.zero_add, hzero, Merkle.node, fieldRow_of_lt hi] at hfold
  refine redeem_main (w := redeemWitness rt.poseidon _ os[i] i _)
    ((inv_run hinit hrun).widths hsettled) hsettled.winners
    (hH.payout_le hinit hrun hsettled hmem) hplaced.minAmount hplaced.maxAmount ?_ hrecipient
    hplaced.secret hplaced.nullifier
  rw [redeemWitness_path]
  exact hfold

end Provable

end Nortia.PrivatePool
