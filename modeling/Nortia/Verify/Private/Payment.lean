import Nortia.Verify.Private.Binding

/-!
# One redemption

Along every run of a market with a true batch each redemption pays one unpaid order, no redemption
is short of money, and every accepted proof of an unpaid order is paid.
-/

namespace Nortia.PrivatePool

open Lib Circuit

variable {rt : PrivateRuntime} {S : Set (Field × Field)} {s s' : PrivateState} {tr : List Event}
  {os : List Opening} {o : Opening} {init : PrivateState}

/-! ## Claims along a run -/

/-- A redemption changes nothing that the assumptions speak of. -/
theorem Honest.of_redeem {accounts : RedeemAccounts} {args : RedeemArgs}
    (h : redeem rt s accounts args = .ok s') (hH : Honest rt S s' os) : Honest rt S s os := by
  obtain ⟨amount, tokens, -, -, -, rfl⟩ := redeem_ok h
  exact ⟨hH.1, hH.2, hH.3, ⟨hH.4.1, hH.4.2, hH.4.3, hH.4.4, hH.4.5⟩, hH.5,
    ⟨hH.6.1, hH.6.2, hH.6.3, hH.6.4, hH.6.5⟩⟩

theorem Honest.after_redeem {accounts : RedeemAccounts} {args : RedeemArgs}
    (hH : Honest rt S s os) (h : redeem rt s accounts args = .ok s') : Honest rt S s' os := by
  obtain ⟨amount, tokens, -, -, -, rfl⟩ := redeem_ok h
  exact ⟨hH.1, hH.2, hH.3, ⟨hH.4.1, hH.4.2, hH.4.3, hH.4.4, hH.4.5⟩, hH.5,
    ⟨hH.6.1, hH.6.2, hH.6.3, hH.6.4, hH.6.5⟩⟩

/-- One redemption keeps the claims exact, as long as it is not the last. -/
theorem claimsMatch_redeem (hinit : Created init) (hrun : Run (Step rt) init tr s)
    (hH : Honest rt S s os) (hsettled : Settled s.market) (hmatch : ClaimsMatch rt s os)
    {accounts : RedeemAccounts} {args : RedeemArgs} (h : redeem rt s accounts args = .ok s')
    (hmore : s.market.claimedCount + 1 ≠ s.market.orderCount) : ClaimsMatch rt s' os := by
  obtain ⟨amount, tokens, hchecks, -, -, rfl⟩ := redeem_ok h
  obtain ⟨o, ho, hnullifier, hpayout⟩ := hH.redeem_opening hinit hrun hsettled hchecks.verified
  intro claim hclaim
  rcases List.mem_cons.mp hclaim with rfl | hold
  · have hamount := (claimAmount_ok hchecks.amount).1 hmore
    exact ⟨o, ho, hnullifier, hamount.trans hpayout⟩
  · exact hmatch claim hold

/-- **Until the last redemption every claim is the exact payout of an order.** -/
theorem claimsMatch_run (hinit : Created init) (hrun : Run (Step rt) init tr s)
    (hH : Honest rt S s os) (hresolved : s.market.phase = .resolved) : ClaimsMatch rt s os := by
  let Matches (tr : List Event) (s : PrivateState) : Prop := Run (Step rt) init tr s ∧
    (∀ os, Honest rt S s os → s.market.phase = .resolved → ClaimsMatch rt s os)
  have hmatches : Matches tr s := by
    refine hrun.history (I := Matches) ?_ ⟨.nil init, ?_⟩
    · rintro tr s e s' ⟨hrun, hmatch⟩ hstep
      refine ⟨.snoc hrun hstep, ?_⟩
      intro os hH hresolved
      cases hstep with
      | @call _ instruction now hok =>
        cases instruction with
        | syncMarketVerifiers protocol authority =>
          obtain ⟨hsync, rfl⟩ := syncMarketVerifiers_ok hok
          exact absurd (hsync.1.symm.trans hresolved) (by decide)
        | placeOrder accounts args =>
          obtain ⟨hchecks, -, tokens, rfl⟩ := placeOrder_ok hok
          exact absurd (hchecks.phase.symm.trans hresolved) (by decide)
        | submitBatch remainingAccounts args =>
          obtain ⟨-, rfl⟩ := submitBatch_ok hok
          cases hresolved
        | resolveMarket accounts finalSeq payload =>
          -- nothing is claimed before the resolution
          obtain ⟨_, _, _, _, _, hchecks, rfl⟩ := resolveMarket_ok hok
          have hI : Inv tr s := inv_run hinit hrun
          obtain ⟨hunsettled, -⟩ := (phaseInv_batched hchecks.phase).mp hI.phase
          have hnil : s.claims = [] :=
            List.length_eq_zero_iff.mp (hI.claims_length.trans hunsettled.claims)
          intro claim hclaim
          rw [show _ = s.claims from rfl, hnil] at hclaim
          cases hclaim
        | beginRefund =>
          obtain ⟨-, rfl⟩ := beginRefund_ok hok
          by_cases hzero : s.market.orderCount = 0
          · exact absurd ((if_pos hzero).symm.trans hresolved) (by decide)
          · exact absurd ((if_neg hzero).symm.trans hresolved) (by decide)
        | refundOrder payer payerToken commitment =>
          obtain ⟨_, hchecks, rfl⟩ := refundOrder_ok hok
          by_cases hlast : s.market.refundedCount + 1 = s.market.orderCount
          · exact absurd ((if_pos hlast).symm.trans hresolved) (by decide)
          · exact absurd (((if_neg hlast).trans hchecks.phase).symm.trans hresolved) (by decide)
        | redeem accounts args =>
          have hbefore := hH.of_redeem hok
          obtain ⟨amount, tokens, hchecks, -, -, hs'⟩ := redeem_ok hok
          have hmore : s.market.claimedCount + 1 ≠ s.market.orderCount := by
            intro hlast
            rw [hs'] at hresolved
            exact absurd ((if_pos hlast).symm.trans hresolved) (by decide)
          obtain ⟨-, -, hsettled⟩ :=
            (phaseInv_resolved hchecks.phase).mp (inv_run hinit hrun).phase
          exact claimsMatch_redeem hinit hrun hbefore hsettled
            (hmatch os hbefore hchecks.phase) hok hmore
      | donate =>
        exact hmatch os ⟨hH.1, hH.2, hH.3, ⟨hH.4.1, hH.4.2, hH.4.3, hH.4.4, hH.4.5⟩, hH.5, hH.6⟩
          hresolved
      | external =>
        exact hmatch os ⟨hH.1, hH.2, hH.3, ⟨hH.4.1, hH.4.2, hH.4.3, hH.4.4, hH.4.5⟩, hH.5, hH.6⟩
          hresolved
    · intro _ _ hresolved
      obtain ⟨_, _, _, _, _, _, _, h⟩ := hinit
      obtain ⟨-, rfl⟩ := initializeMarket_ok h
      cases hresolved
  exact hmatches.2 os hH hresolved

/-! ## One redemption -/

/-- What one redemption of a resolved market does: it pays one order that was not claimed, and the
last one also pays what rounding left, and donations up to the same cap. -/
structure Pays (rt : PrivateRuntime) (tr : List Event) (s s' : PrivateState) (os : List Opening)
    (accounts : RedeemAccounts) (args : RedeemArgs) (o : Opening) (paid : Nat) : Prop where
  nullifier : args.nullifierHash = nullifierBytes rt.poseidon s.market o
  unclaimed : args.nullifierHash ∉ s.claims.map (·.nullifierHash)
  claimed : s'.claims.map (·.nullifierHash) =
    args.nullifierHash :: s.claims.map (·.nullifierHash)
  vault : s'.vault + paid = s.vault
  recipient : (s'.tokens accounts.recipientToken).amount =
    (s.tokens accounts.recipientToken).amount + paid
  notLast : s.market.claimedCount + 1 ≠ s.market.orderCount →
    paid = payout s.market o ∧ s'.market.phase = .resolved
  last : s.market.claimedCount + 1 = s.market.orderCount →
    ∃ extra, paid = payout s.market o + extra ∧ remainder s.market os ≤ extra ∧
      extra ≤ s.market.winningCount - 1 ∧ s'.market.phase = .closed ∧
      s'.vault + extra = remainder s.market os + donated tr ∧
      (s'.claims.map (·.nullifierHash)).Perm (os.map (nullifierBytes rt.poseidon s.market))

section Resolved

variable (hinit : Created init) (hrun : Run (Step rt) init tr s) (hH : Honest rt S s os)
  (hresolved : s.market.phase = .resolved)

include hinit hrun hH hresolved in
/-- The vault of a resolved market holds what is still owed and the remainder. -/
theorem Honest.vault_resolved : s.vault =
    ((unclaimed rt s os).map (payout s.market)).sum + remainder s.market os + donated tr := by
  have hI : Inv tr s := inv_run hinit hrun
  obtain ⟨hnone, -, hsettled⟩ := (phaseInv_resolved hresolved).mp hI.phase
  exact hH.vault_eq hI (claimsMatch_run hinit hrun hH hresolved) hsettled hnone fun o ho =>
    hH.amount_le hinit hrun ho

include hinit hrun hH hresolved in
/-- An unclaimed order's payout is in the vault. -/
theorem Honest.payout_le_vault (ho : o ∈ unclaimed rt s os) : payout s.market o ≤ s.vault := by
  have hone : payout s.market o ≤ ((unclaimed rt s os).map (payout s.market)).sum :=
    List.single_le_sum (fun _ _ => Nat.zero_le _) _ (List.mem_map_of_mem ho)
  rw [hH.vault_resolved hinit hrun hresolved]
  omega

include hinit hrun hH hresolved in
/-- The order an accepted and unused proof is for. -/
theorem Honest.order_of_proof {recipient : Pubkey} {args : RedeemArgs} {verifier : AccountInfo}
    (h : Zk.verifyRedeem rt s.market recipient args verifier = .ok ())
    (hfresh : (s.claim? args.nullifierHash).isNone = true) :
    ∃ o ∈ unclaimed rt s os, args.nullifierHash = nullifierBytes rt.poseidon s.market o ∧
      args.payoutAmount = payout s.market o := by
  obtain ⟨-, -, hsettled⟩ := (phaseInv_resolved hresolved).mp (inv_run hinit hrun).phase
  obtain ⟨o, ho, hnullifier, hpayout⟩ := hH.redeem_opening hinit hrun hsettled h
  refine ⟨o, Rounding.mem_unused.mpr ⟨ho, ?_⟩, hnullifier, hpayout⟩
  rw [← hnullifier]
  exact claim?_isNone.mp hfresh

include hinit hrun hH hresolved in
/-- **A successful redemption pays exactly one unpaid order.** -/
theorem redeem_pays {accounts : RedeemAccounts} {args : RedeemArgs}
    (h : redeem rt s accounts args = .ok s') :
    ∃ o ∈ os, ∃ paid, Pays rt tr s s' os accounts args o paid := by
  have hI : Inv tr s := inv_run hinit hrun
  have hmatch : ClaimsMatch rt s os := claimsMatch_run hinit hrun hH hresolved
  obtain ⟨-, -, hsettled⟩ := (phaseInv_resolved hresolved).mp hI.phase
  have hvault := hH.vault_resolved hinit hrun hresolved
  have hlength := hH.length_unclaimed hI hmatch
  obtain ⟨amount, tokens, hchecks, hle, htokens, rfl⟩ := redeem_ok h
  obtain ⟨o, ho, hnullifier, hpayout⟩ :=
    hH.order_of_proof hinit hrun hresolved hchecks.verified hchecks.fresh
  obtain ⟨hmem, hfresh⟩ := Rounding.mem_unused.mp ho
  obtain ⟨hnotLast, hlast⟩ := claimAmount_ok hchecks.amount
  refine ⟨o, hmem, amount, ?_⟩
  constructor
  case nullifier => exact hnullifier
  case unclaimed => exact claim?_isNone.mp hchecks.fresh
  case claimed => rfl
  case vault => exact Nat.sub_add_cancel hle
  case recipient =>
    show (tokens accounts.recipientToken).amount = _
    rw [htokens, Tokens.setAmount_self]
  case notLast =>
    intro hmore
    exact ⟨(hnotLast hmore).trans hpayout, (if_neg hmore).trans hchecks.phase⟩
  case last =>
    intro hfinal
    obtain ⟨-, hamount⟩ := hlast hfinal
    -- the order is the only one left
    have hone : unclaimed rt s os = [o] := by
      have hlen : (unclaimed rt s os).length = 1 := by omega
      obtain ⟨o', ho'⟩ := List.length_eq_one_iff.mp hlen
      have hsame : o ∈ [o'] := ho' ▸ ho
      rw [ho', List.mem_singleton.mp hsame]
    rw [hone, List.map_singleton, List.sum_singleton] at hvault
    have hremainder := hH.batch.remainder_le hsettled.winners
    rw [hpayout] at hamount
    refine ⟨min (s.vault - payout s.market o) (s.market.winningCount - 1), hamount, ?_, ?_,
      if_pos hfinal, ?_, ?_⟩
    · refine Nat.le_min.mpr ⟨?_, hremainder⟩
      omega
    · exact Nat.min_le_right _ _
    · show s.vault - amount + _ = _
      omega
    · -- as many distinct hashes as orders, all of orders
      have hnodup : (args.nullifierHash :: s.claims.map (·.nullifierHash)).Nodup :=
        List.nodup_cons.mpr ⟨claim?_isNone.mp hchecks.fresh, hI.claims_nodup⟩
      have hsubset : (args.nullifierHash :: s.claims.map (·.nullifierHash)) ⊆
          os.map (nullifierBytes rt.poseidon s.market) := by
        intro hash hhash
        rcases List.mem_cons.mp hhash with rfl | hold
        · rw [hnullifier]
          exact List.mem_map_of_mem hmem
        · obtain ⟨claim, hclaim, rfl⟩ := List.mem_map.mp hold
          obtain ⟨o', ho', hclaimed, -⟩ := hmatch claim hclaim
          rw [hclaimed]
          exact List.mem_map_of_mem ho'
      refine (hnodup.subperm hsubset).perm_of_length_le ?_
      rw [List.length_map, hH.length_eq hI, List.length_cons, List.length_map, hI.claims_length]
      exact hfinal.ge

include hinit hrun hH hresolved in
/-- The claim of an accepted and unused proof is covered by the vault, the last one included. -/
theorem Honest.claimAmount_covered {recipient : Pubkey} {args : RedeemArgs}
    {verifier : AccountInfo} (h : Zk.verifyRedeem rt s.market recipient args verifier = .ok ())
    (hfresh : (s.claim? args.nullifierHash).isNone = true) :
    args.payoutAmount ≤ s.vault ∧ ∃ amount,
      claimAmount s.market s.vault args.payoutAmount = .ok amount ∧ amount ≤ s.vault := by
  have hI : Inv tr s := inv_run hinit hrun
  obtain ⟨-, -, hsettled⟩ := (phaseInv_resolved hresolved).mp hI.phase
  obtain ⟨o, ho, -, hpayout⟩ := hH.order_of_proof hinit hrun hresolved h hfresh
  have hcovered := hH.payout_le_vault hinit hrun hresolved ho
  have hstakes := hH.payout_le_stakes hinit hrun hsettled (Rounding.mem_unused.mp ho).1
  -- no more winners than leaves of the tree
  obtain ⟨hcapacity, -⟩ := hH.batch.root_eq
  obtain ⟨-, hcount⟩ := hH.batch.winners
  have hwinners : (os.filter (wins s.market)).length ≤ os.length := List.length_filter_le _ _
  have hfits : maxPrivateStakeAmount * 2 ^ treeDepth + 2 ^ treeDepth ≤ u64Max := by decide
  rw [hpayout]
  exact ⟨hcovered, claimAmount_of_le hcovered (by omega)⟩

include hinit hrun hH hresolved in
theorem Honest.claimedCount_lt : s.market.claimedCount + 1 ≤ u32Max := by
  have hI : Inv tr s := inv_run hinit hrun
  obtain ⟨-, hbelow, -⟩ := (phaseInv_resolved hresolved).mp hI.phase
  obtain ⟨hcapacity, -⟩ := hH.batch.root_eq
  have hcount := hH.length_eq hI
  have hfits : 2 ^ treeDepth ≤ u32Max := by decide
  omega

include hinit hrun hH hresolved in
/-- **No redemption is short of money**, and none overflows. -/
theorem redeem_funded (accounts : RedeemAccounts) (args : RedeemArgs) :
    redeem rt s accounts args ≠ .error (.nortia .insufficientVaultBalance) ∧
      redeem rt s accounts args ≠ .error .insufficientFunds ∧
      redeem rt s accounts args ≠ .error (.nortia .arithmeticOverflow) := by
  have hcount := hH.claimedCount_lt hinit hrun hresolved
  have hfails : FailsIn (fun e => e ≠ .nortia .insufficientVaultBalance ∧ e ≠ .insufficientFunds ∧
      e ≠ .nortia .arithmeticOverflow) (redeem rt s accounts args) := by
    simp only [redeem, checkTokenAccount, failsIn_bind, failsIn_ok, failsIn_check, failsIn_require,
      failsIn_orFail, check_eq_ok, require_eq_ok, checkedAdd_eq_none]
    refine ⟨by simp, fun _ hfresh => ⟨by simp, fun _ _ => ⟨by simp, fun _ _ => ⟨by simp,
      fun _ _ => ⟨?_, fun _ hverified => ?_⟩⟩⟩⟩⟩
    · simp [Zk.verifyRedeem, Zk.verify]
    · obtain ⟨hcovered, amount, hamount, hle⟩ :=
        hH.claimAmount_covered hinit hrun hresolved hverified hfresh
      refine ⟨fun hlow => absurd hcovered hlow, fun _ _ => ⟨?_, fun amount' hamount' => ?_⟩⟩
      · rw [hamount]
        exact failsIn_ok amount
      · obtain rfl : amount = amount' := Except.ok.inj (hamount.symm.trans hamount')
        refine ⟨fun hover => absurd hcount (Nat.not_le.mpr hover), fun _ _ => ⟨?_, by simp⟩⟩
        -- only the recipient's own account can be too full
        unfold payClaim
        simp only [transferFromVault, Tokens.credit, failsIn_ite, failsIn_bind, failsIn_check,
          failsIn_okOr, failsIn_ok, checkedSub_eq_none]
        refine ⟨fun _ => ⟨fun hlow => absurd hle hlow, fun _ _ =>
          ⟨fun hlow => absurd hle (Nat.not_le.mpr hlow), by simp⟩⟩, by simp⟩
  exact ⟨fun h => (hfails _ h).1 rfl, fun h => (hfails _ h).2.1 rfl, fun h => (hfails _ h).2.2 rfl⟩

include hinit hrun hH hresolved in
/-- **Every accepted proof of an unpaid order is paid.** -/
theorem redeem_of_proof {accounts : RedeemAccounts} {args : RedeemArgs}
    (hverified : Zk.verifyRedeem rt s.market accounts.recipientOwner args
      accounts.redeemVerifier = .ok ())
    (hfresh : (s.claim? args.nullifierHash).isNone = true)
    (htoken : checkTokenAccount (s.tokens accounts.recipientToken) accounts.recipientOwner
      s.market.collateralMint = .ok ())
    (hroom : (s.tokens accounts.recipientToken).amount + s.vault ≤ u64Max) :
    ∃ s', redeem rt s accounts args = .ok s' := by
  obtain ⟨-, hbelow, -⟩ := (phaseInv_resolved hresolved).mp (inv_run hinit hrun).phase
  obtain ⟨hcovered, amount, hamount, hle⟩ :=
    hH.claimAmount_covered hinit hrun hresolved hverified hfresh
  have hcount := hH.claimedCount_lt hinit hrun hresolved
  have hnext : checkedAdd u32Max s.market.claimedCount 1 = some (s.market.claimedCount + 1) :=
    checkedAdd_eq_some.mpr ⟨hcount, rfl⟩
  have hpaid := @payClaim_of_le s accounts.recipientToken amount hle (by omega)
  simp only [redeem, require_pos hfresh, htoken, check_pos hresolved, check_pos hbelow, hverified,
    check_pos hcovered, hamount, hnext, orFail, okOr, hpaid, ok_bind, Except.ok.injEq,
    exists_eq']

/-- A claimed order is not paid again. -/
theorem redeem_claimed {accounts : RedeemAccounts} {args : RedeemArgs}
    (h : args.nullifierHash ∈ s.claims.map (·.nullifierHash)) :
    redeem rt s accounts args = .error .accountInUse := by
  have hused : ¬(s.claim? args.nullifierHash).isNone = true := by
    rw [claim?_isNone]
    exact not_not_intro h
  simp only [redeem, require_neg hused, error_bind]

end Resolved

end Nortia.PrivatePool
