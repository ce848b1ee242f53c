import Nortia.Verify.Hybrid.Solvency

/-!
# Settlement does not depend on its order

A resolution fixes the verdict: outcome, time, evidence and quantities stay from then on. What
is owed and what was redeemed always add up to the liability of the verdict, every unsettled
position with a payout can settle now, and each position settles once.
-/

namespace Nortia.Hybrid

open Lib Tally

/-! ## The verdict -/

/-- What a resolution fixes for good. -/
structure Verdict where
  outcome : Nat
  settledAt : Int
  settlementEvidenceHash : Bytes32
  yesQuantity : Nat
  noQuantity : Nat

def verdict (market : HybridMarket) : Verdict where
  outcome := market.outcome
  settledAt := market.settledAt
  settlementEvidenceHash := market.settlementEvidenceHash
  yesQuantity := market.yesQuantity
  noQuantity := market.noQuantity

/-- Resolved, and perhaps drained and closed. -/
def Final (phase : HybridPhase) : Prop := phase = .resolved ∨ phase = .closed

theorem not_final_of_unresolved {phase : HybridPhase} (h : Unresolved phase) : ¬Final phase := by
  rcases h with rfl | rfl | rfl | rfl <;> simp [Final]

/-- Once a market is final, no step resolves it again or changes its verdict. -/
theorem final_step {rt : Runtime} {s s' : HybridState} {event : Event} (hf : Final s.market.phase)
    (h : Step rt s event s') :
    Final s'.market.phase ∧ verdict s'.market = verdict s.market ∧
      event.isResolution = false := by
  have hnot : ¬Unresolved s.market.phase := fun hu => not_final_of_unresolved hu hf
  cases step_effect h with
  | opened h => exact absurd (.inl h.phase) hnot
  | traded _ h => exact absurd (.inl h.phase) hnot
  | locked h => exact absurd (.inl h.phase) hnot
  | proposed h => exact absurd (h.phase.elim .inl fun hl => .inr (.inl hl)) hnot
  | challenged _ h => exact absurd (.inr (.inr (.inl h.phase))) hnot
  | resolved _ h => exact absurd h.ready.unresolved hnot
  | bondClaimed h =>
    rw [h.market]
    exact ⟨hf, rfl, rfl⟩
  | settled h =>
    refine ⟨?_, by rw [h.market]; rfl, rfl⟩
    rw [h.market]
    simp only [Final]
    split <;> simp
  | withdrew h =>
    refine ⟨?_, by rw [h.market]; rfl, rfl⟩
    rw [h.market]
    simp only [Final]
    split <;> simp
  | deposited hkind h =>
    rw [h.market]
    refine ⟨hf, rfl, ?_⟩
    cases event <;> first | rfl | cases hkind

/-- From a final state on, the verdict stays and nothing resolves the market. -/
theorem final_run {rt : Runtime} {s t : HybridState} {tr : List Event}
    (hf : Final s.market.phase) (h : Run (Step rt) s tr t) :
    Final t.market.phase ∧ verdict t.market = verdict s.market ∧
      ∀ event ∈ tr, event.isResolution = false := by
  refine h.history (I := fun tr t => Final t.market.phase ∧ verdict t.market = verdict s.market ∧
    ∀ event ∈ tr, event.isResolution = false) ?_ ⟨hf, rfl, fun _ h => nomatch h⟩
  rintro tr u a v ⟨hu, hverdict, hnone⟩ hstep
  obtain ⟨hv, hsame, ha⟩ := final_step hu hstep
  refine ⟨hv, hsame.trans hverdict, fun event hevent => ?_⟩
  rcases List.mem_append.mp hevent with h | h
  · exact hnone event h
  · rw [List.mem_singleton.mp h]
    exact ha

/-- A successful resolution ends in the phase `Resolved`, with nothing redeemed yet. -/
theorem resolution_step {rt : Runtime} {s s' : HybridState} {event : Event} (hI : Inv rt s)
    (hkind : event.isResolution = true) (h : Step rt s event s') :
    s'.market.phase = .resolved ∧ s'.market.redeemedLiability = 0 := by
  cases step_effect h with
  | resolved _ h =>
    obtain ⟨_, hm⟩ := h.market
    rw [hm]
    exact ⟨rfl, (hI.phase.pending h.ready.unresolved).redeemed⟩
  | deposited hnot _ =>
    have hnone : event.isResolution = false := by
      cases event <;> first | rfl | cases hnot
    rw [hnone] at hkind
    cases hkind
  | @traded _ instruction _ _ _ _ htrade _ =>
    have hnone : instruction.isResolution = false := by
      cases instruction <;> first | rfl | cases htrade
    rw [Event.isResolution, hnone] at hkind
    cases hkind
  | _ => cases hkind

/-! ## Settling -/

/-- An unsettled position settles, if its owner's token account can take the payout. -/
theorem settleHybridPosition_succeeds {rt : Runtime} {s : HybridState} (hI : Inv rt s)
    (hphase : s.market.phase = .resolved) {owner ownerToken : Pubkey} {p : Position}
    (hp : s.positions.lookup owner = some p) (hsettled : p.settled = false)
    (howner : (s.tokens ownerToken).owner = owner)
    (hmint : (s.tokens ownerToken).mint = s.market.collateralMint)
    (hroom : (s.tokens ownerToken).amount + owed p.yesShares p.noShares s.market.outcome ≤
      u64Max) :
    ∃ s', settleHybridPosition s owner ownerToken = .ok s' := by
  obtain ⟨hsettling, -⟩ := hI.phase.resolved hphase
  have howed := hsettling.owed_le hI hp hsettled
  have hsolvent := hsettling.solvent
  have hredeemed := hsettling.redeemed_fits hI
  have hpayout := sharesOwed_of_decided hsettling.decided (hI.shares_fit hp)
  obtain ⟨tokens, htransfer⟩ := transferFromHybridVault_of_le
    { tokens := s.tokens, vault := s.vault } (howed.trans hsolvent) hroom
  have hclose : ∃ market, closeHybridMarketIfDrained { s.market with
      outstandingLiability :=
        s.market.outstandingLiability - owed p.yesShares p.noShares s.market.outcome
      redeemedLiability :=
        s.market.redeemedLiability + owed p.yesShares p.noShares s.market.outcome }
      (s.vault - owed p.yesShares p.noShares s.market.outcome) = .ok market := by
    simp only [closeHybridMarketIfDrained, bind_eq_ok, check_eq_ok]
    split
    · exact ⟨_, (), ⟨hphase, Nat.sub_le_sub_right hsolvent _⟩, rfl⟩
    · exact ⟨_, (), ⟨hphase, Nat.sub_le_sub_right hsolvent _⟩, rfl⟩
  obtain ⟨market, hmarket⟩ := hclose
  simp only [settleHybridPosition, hybridPositionPayout, bind_eq_ok, okOr_eq_ok, check_eq_ok,
    orFail_eq_ok, checkedSub_eq_some, checkedAdd_eq_some, checkTokenAccount_ok]
  exact ⟨_, p, hp, (), ⟨howner, hmint⟩, (), hphase, (), hsettled, _, hpayout, (), howed, _,
    ⟨howed.trans hsolvent, rfl⟩, _, ⟨by omega, rfl⟩, market, hmarket, _, htransfer, rfl⟩

/-- Whether an event settles the position of an owner. -/
def Event.settles (owner : Pubkey) : Event → Bool
  | .call (.settleHybridPosition settler _) _ => settler = owner
  | _ => false

/-- How often the position of an owner was settled. -/
def timesSettled (positions : Table Pubkey Position) (owner : Pubkey) : Nat :=
  match positions.lookup owner with
  | some p => p.settled.toNat
  | none => 0

theorem timesSettled_insert_of_ne {positions : Table Pubkey Position} {owner k : Pubkey}
    (h : owner ≠ k) (p : Position) :
    timesSettled (positions.insert k p) owner = timesSettled positions owner := by
  rw [timesSettled, AList.lookup_insert_ne h, timesSettled]

theorem timesSettled_of_lookup {positions : Table Pubkey Position} {owner : Pubkey} {p : Position}
    (h : positions.lookup owner = some p) :
    timesSettled positions owner = p.settled.toNat := by
  rw [timesSettled, h]

/-- A step settles a position exactly when it is a settlement by its owner. -/
theorem timesSettled_step {rt : Runtime} {s s' : HybridState} {event : Event} (owner : Pubkey)
    (h : Step rt s event s') :
    timesSettled s'.positions owner =
      timesSettled s.positions owner + (event.settles owner).toNat := by
  cases step_effect h with
  | @opened _ opener _ h =>
    obtain ⟨p, hpositions, -, -, hsettled⟩ := h.position
    rw [hpositions]
    by_cases ho : owner = opener
    · subst ho
      rw [timesSettled_of_lookup (AList.lookup_insert _), hsettled, timesSettled, h.missing]
      rfl
    · rw [timesSettled_insert_of_ne ho]
      rfl
  | @traded _ instruction _ trader _ _ hkind h =>
    have hsettles : Event.settles owner (.call instruction ‹_›) = false := by
      cases instruction <;> first | rfl | cases hkind
    rw [h.positions, hsettles]
    by_cases ho : owner = trader
    · subst ho
      rw [timesSettled_of_lookup (AList.lookup_insert _), timesSettled_of_lookup h.held,
        h.unsettled, h.unsettled']
      rfl
    · rw [timesSettled_insert_of_ne ho]
      rfl
  | locked h => rw [h.positions]; rfl
  | proposed h => rw [h.positions]; rfl
  | challenged _ h => rw [h.positions]; rfl
  | @resolved _ instruction _ _ _ hkind h =>
    have hsettles : Event.settles owner (.call instruction ‹_›) = false := by
      cases instruction <;> first | rfl | cases hkind
    rw [h.positions, hsettles]
    rfl
  | bondClaimed h => rw [h.positions]; rfl
  | @settled _ settler _ _ p h =>
    rw [h.positions]
    by_cases ho : owner = settler
    · subst ho
      rw [timesSettled_of_lookup (AList.lookup_insert _), timesSettled_of_lookup h.held,
        h.unsettled]
      simp [Event.settles]
    · rw [timesSettled_insert_of_ne ho]
      simp [Event.settles, Ne.symm ho]
  | withdrew h => rw [h.positions]; rfl
  | deposited hkind h =>
    have hsettles : event.settles owner = false := by
      cases event <;> first | rfl | cases hkind
    rw [h.positions, hsettles]
    rfl

/-- A position is settled at most once in a run, and it is marked when it was. -/
theorem timesSettled_run {rt : Runtime} {init s : HybridState} {tr : List Event}
    (hempty : init.positions = ∅) (h : Run (Step rt) init tr s) (owner : Pubkey) :
    tr.countP (Event.settles owner) = timesSettled s.positions owner := by
  refine h.history (I := fun tr s => tr.countP (Event.settles owner) =
    timesSettled s.positions owner) (fun tr s event t ih hstep => ?_) ?_
  · rw [List.countP_append, ih, timesSettled_step owner hstep, List.countP_singleton]
    cases event.settles owner <;> rfl
  · rw [hempty]
    rfl

theorem timesSettled_le_one (positions : Table Pubkey Position) (owner : Pubkey) :
    timesSettled positions owner ≤ 1 := by
  unfold timesSettled
  split
  · exact Bool.toNat_le _
  · exact Nat.zero_le 1

/-! ## Over every run -/

/-- What is owed and redeemed later is the liability that the resolution recorded. -/
theorem recorded_liability {rt : Runtime} {s t t' : HybridState} {event : Event}
    {tr : List Event} (hI : Inv rt t) (hkind : event.isResolution = true)
    (hstep : Step rt t event t') (hrun : Run (Step rt) t' tr s) :
    s.market.outstandingLiability + s.market.redeemedLiability =
      t'.market.outstandingLiability := by
  have hI' := inv_step hI hstep
  obtain ⟨hphase, hzero⟩ := resolution_step hI hkind hstep
  obtain ⟨hfinal, hverdict, -⟩ := final_run (.inl hphase) hrun
  have hIs : Inv rt s := hrun.invariant (fun _ _ _ => inv_step) hI'
  have hnow := (hIs.phase.settling hfinal).liability
  have hthen := (hI'.phase.settling (.inl hphase)).liability
  have hyes : s.market.yesQuantity = t'.market.yesQuantity := congrArg Verdict.yesQuantity hverdict
  have hno : s.market.noQuantity = t'.market.noQuantity := congrArg Verdict.noQuantity hverdict
  have houtcome : s.market.outcome = t'.market.outcome := congrArg Verdict.outcome hverdict
  rw [hnow, hyes, hno, houtcome, ← hthen, hzero, Nat.add_zero]

/-- **Share conservation and settlement in any order.** Positions add up to the quantities; after
the resolution what is owed and redeemed is the recorded liability, the unsettled payouts are
covered, each of them can be paid now, and a run settles each position at most once. -/
theorem settlement_in_any_order {rt : Runtime} {args : InitializeHybridMarketArgs} {now : Int}
    {init s : HybridState} {tr : List Event} (hinit : Created rt args now init)
    (hrun : Run (Step rt) init tr s) :
    (total Position.yesShares s.positions = s.market.yesQuantity ∧
      total Position.noShares s.positions = s.market.noQuantity) ∧
    (∀ before event after t t', tr = before ++ event :: after → event.isResolution = true →
      Run (Step rt) init before t → Step rt t event t' → Run (Step rt) t' after s →
      s.market.outstandingLiability + s.market.redeemedLiability =
        t'.market.outstandingLiability) ∧
    (Final s.market.phase →
      total (unsettledOwed s.market.outcome) s.positions ≤ s.market.outstandingLiability ∧
      ∀ owner ownerToken p clock, s.positions.lookup owner = some p → p.settled = false →
        0 < owed p.yesShares p.noShares s.market.outcome →
        (s.tokens ownerToken).owner = owner →
        (s.tokens ownerToken).mint = s.market.collateralMint →
        (s.tokens ownerToken).amount + owed p.yesShares p.noShares s.market.outcome ≤ u64Max →
        ∃ s', execute rt s clock (.settleHybridPosition owner ownerToken) = .ok s' ∧
          (s'.tokens ownerToken).amount = (s.tokens ownerToken).amount +
            owed p.yesShares p.noShares s.market.outcome) ∧
    ∀ owner, tr.countP (Event.settles owner) = timesSettled s.positions owner ∧
      tr.countP (Event.settles owner) ≤ 1 := by
  have hI := inv_reaches hinit ⟨tr, hrun⟩
  obtain ⟨engine, tokens, creator, creatorToken, hcreated⟩ := id hinit
  obtain ⟨-, -, -, _, _, -, -, -, -, -, -, hempty, -⟩ := initializeHybridMarket_ok hcreated
  refine ⟨⟨hI.yes, hI.no⟩, ?_, fun hfinal => ⟨(hI.phase.settling hfinal).unsettled_le hI, ?_⟩,
    fun owner => ?_⟩
  · rintro before event after t t' - hkind hbefore hstep hafter
    exact recorded_liability (inv_reaches hinit ⟨before, hbefore⟩) hkind hstep hafter
  · intro owner ownerToken p clock hp hsettled hpos howner hmint hroom
    have hphase : s.market.phase = .resolved := by
      rcases hfinal with h | h
      · exact h
      · -- a closed market owes nothing
        have howed := (hI.phase.closed h).1.owed_le hI hp hsettled
        rw [(hI.phase.closed h).2] at howed
        omega
    obtain ⟨s', hs'⟩ := settleHybridPosition_succeeds hI hphase hp hsettled howner hmint hroom
    obtain ⟨q, hq⟩ := settleHybridPosition_ok hs'
    obtain rfl : p = q := Option.some.inj (hp.symm.trans hq.held)
    exact ⟨s', hs', hq.paid⟩
  · have hcount := timesSettled_run hempty hrun owner
    exact ⟨hcount, hcount ▸ timesSettled_le_one s.positions owner⟩

/-- Bob is paid half of his odd number of shares, after Alice and before any withdrawal. -/
theorem settlement_in_any_order_sample : ∃ s s' : HybridState,
    s.market.outstandingLiability = 5000001 ∧
      execute Sample.runtime s { slot := 0, unixTimestamp := 0 }
        (.settleHybridPosition Sample.bob Sample.bob) = .ok s' ∧
      (s'.tokens Sample.bob).amount = (s.tokens Sample.bob).amount + 5000000 := by
  have hvalue : (Sample.created >>= fun init => executeAll Sample.runtime init
      (Sample.twoHolders ++ [Sample.settle Sample.alice])).toOption.map
      (fun s => ((s.market.phase, s.market.outcome, s.market.outstandingLiability),
        (s.positions.lookup Sample.bob).map (fun p => (p.yesShares, p.noShares, p.settled)),
        decide ((s.tokens Sample.bob).owner = Sample.bob ∧
          (s.tokens Sample.bob).mint = s.market.collateralMint ∧
          (s.tokens Sample.bob).amount + 5000000 ≤ u64Max))) =
      some ((.resolved, 2, 5000001), some (10000001, 0, false), true) := by
    decide +kernel
  obtain ⟨init, s, hinit, hs, hfields⟩ := executeAll_of_map hvalue
  simp only [Prod.mk.injEq, decide_eq_true_eq, Option.map_eq_some_iff] at hfields
  obtain ⟨⟨hphase, houtcome, hliability⟩, ⟨p, hp, hyes, hno, hsettled⟩, howner, hmint, hroom⟩ :=
    hfields
  have hrun := executeAll_run (by
    simp [Sample.twoHolders, Sample.openPosition, Sample.buyYes, Sample.timeout, Sample.settle,
      Instruction.signed]) hs
  have howed : owed p.yesShares p.noShares s.market.outcome = 5000000 := by
    rw [hyes, hno, houtcome]
    rfl
  obtain ⟨s', hs', hpaid⟩ :=
    ((settlement_in_any_order (Sample.created_of_ok hinit) hrun).2.2.1 (.inl hphase)).2
      Sample.bob Sample.bob p { slot := 0, unixTimestamp := 0 } hp hsettled (by omega) howner hmint
      (by rwa [howed])
  exact ⟨s, s', hliability, hs', howed ▸ hpaid⟩

end Nortia.Hybrid
