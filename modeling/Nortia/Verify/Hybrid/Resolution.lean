import Nortia.Verify.Hybrid.Settlement

/-!
# The resolution state machine

A run resolves its market at most once and for good, trades stop at the lock and at the first
proposal, the outcome agrees with the deadline, and after the deadline exactly one of the three
timeout instructions passes in every unresolved state.
-/

namespace Nortia.Hybrid

open Lib

variable {rt : Runtime} {init s : HybridState} {tr : List Event}

/-! ## Counting resolutions -/

/-- How often a market in this phase was resolved. -/
def timesResolved : HybridPhase → Nat
  | .resolved | .closed => 1
  | _ => 0

theorem timesResolved_of_unresolved {phase : HybridPhase} (h : Unresolved phase) :
    timesResolved phase = 0 := by
  rcases h with rfl | rfl | rfl | rfl <;> rfl

theorem timesResolved_le_one (phase : HybridPhase) : timesResolved phase ≤ 1 := by
  cases phase <;> decide

theorem timesResolved_drained (c : Prop) [Decidable c] :
    timesResolved (if c then .closed else .resolved) = 1 := by
  split <;> rfl

theorem isResolution_of_isTrade {instruction : Instruction} (h : instruction.isTrade = true) :
    instruction.isResolution = false := by
  cases instruction <;> first | rfl | cases h

theorem isResolution_of_isCall {event : Event} (h : event.isCall = false) :
    event.isResolution = false ∧ event.isProposal = false := by
  cases event <;> first | exact ⟨rfl, rfl⟩ | cases h

/-- A step resolves the market exactly when it is a resolution. -/
theorem timesResolved_step {s' : HybridState} {event : Event} (h : Step rt s event s') :
    timesResolved s'.market.phase =
      timesResolved s.market.phase + event.isResolution.toNat := by
  cases step_effect h with
  | opened h => rw [h.market]; rfl
  | traded hkind h =>
    have hphase : s'.market.phase = s.market.phase := congrArg Life.phase h.life
    rw [hphase, Event.isResolution, isResolution_of_isTrade hkind]
    rfl
  | locked h => rw [h.market, h.phase]; rfl
  | proposed h =>
    rw [h.market, timesResolved_of_unresolved (h.phase.elim .inl fun hl => .inr (.inl hl))]
    rfl
  | challenged _ h => rw [h.market, h.phase]; rfl
  | resolved hkind h =>
    obtain ⟨_, hm⟩ := h.market
    rw [hm, timesResolved_of_unresolved h.ready.unresolved, Event.isResolution, hkind]
    rfl
  | bondClaimed h => rw [h.market]; rfl
  | settled h => rw [h.market, h.phase, timesResolved_drained]; rfl
  | withdrew h => rw [h.market, h.phase, timesResolved_drained]; rfl
  | deposited hkind h => rw [h.market, (isResolution_of_isCall hkind).1]; rfl

/-- Resolutions in a run are as many as the phase says. -/
theorem timesResolved_run (hopen : init.market.phase = .open) (h : Run (Step rt) init tr s) :
    tr.countP Event.isResolution = timesResolved s.market.phase := by
  refine h.history (I := fun tr s => tr.countP Event.isResolution =
    timesResolved s.market.phase) (fun tr s event t ih hstep => ?_) ?_
  · rw [List.countP_append, ih, timesResolved_step hstep, List.countP_singleton]
    cases event.isResolution <;> rfl
  · rw [hopen]
    rfl

/-! ## Trading stops -/

/-- As long as a market is open, no proposal and no resolution has succeeded. -/
theorem open_run (h : Run (Step rt) init tr s) :
    s.market.phase = .open → ∀ event ∈ tr, event.isResolution = false ∧ event.isProposal = false := by
  refine h.history (I := fun tr s => s.market.phase = .open →
    ∀ event ∈ tr, event.isResolution = false ∧ event.isProposal = false) ?_
    (fun _ _ h => nomatch h)
  intro tr s event s' ih hstep hopen
  -- the last step leaves the market open, so the market was open before and the step is neither
  have hlast : s.market.phase = .open ∧ event.isResolution = false ∧ event.isProposal = false := by
    cases step_effect hstep with
    | opened h => exact ⟨h.phase, rfl, rfl⟩
    | @traded _ instruction _ _ _ _ hkind h =>
      refine ⟨h.phase, isResolution_of_isTrade hkind, ?_⟩
      cases instruction <;> first | rfl | cases hkind
    | locked h => rw [h.market] at hopen; cases hopen
    | proposed h => rw [h.market] at hopen; cases hopen
    | challenged _ h => rw [h.market] at hopen; cases hopen
    | resolved _ h =>
      obtain ⟨_, hm⟩ := h.market
      rw [hm] at hopen
      cases hopen
    | bondClaimed h => exact ⟨h.market ▸ hopen, rfl, rfl⟩
    | settled h =>
      rw [h.market] at hopen
      simp only at hopen
      split at hopen <;> cases hopen
    | withdrew h =>
      rw [h.market] at hopen
      simp only at hopen
      split at hopen <;> cases hopen
    | deposited hkind h => exact ⟨h.market ▸ hopen, isResolution_of_isCall hkind⟩
  intro e he
  rcases List.mem_append.mp he with h | h
  · exact ih hlast.1 e h
  · rw [List.mem_singleton.mp h]
    exact hlast.2

/-- Every step keeps the outcome unless it is a resolution. -/
theorem outcome_step {s' : HybridState} {event : Event} (hkind : event.isResolution = false)
    (h : Step rt s event s') : s'.market.outcome = s.market.outcome := by
  cases step_effect h with
  | opened h => rw [h.market]
  | traded _ h => exact congrArg Life.outcome h.life
  | locked h => rw [h.market]
  | proposed h => rw [h.market]
  | challenged _ h => rw [h.market]
  | resolved hres _ => rw [Event.isResolution, hres] at hkind; cases hkind
  | bondClaimed h => rw [h.market]
  | settled h => rw [h.market]
  | withdrew h => rw [h.market]
  | deposited _ h => rw [h.market]

/-- A resolution sets YES or NO up to the deadline and INVALID after it, and records the moment. -/
theorem outcome_time {s' : HybridState} {instruction : Instruction} {clock : Clock}
    (hkind : instruction.isResolution = true) (h : Step rt s (.call instruction clock) s') :
    s'.market.settledAt = clock.unixTimestamp ∧
      (((s'.market.outcome = HybridMarket.outcomeYes ∨ s'.market.outcome = HybridMarket.outcomeNo) ∧
          clock.unixTimestamp ≤ s.market.resolutionDeadlineTs) ∨
        (s'.market.outcome = HybridMarket.outcomeInvalid ∧
          s.market.resolutionDeadlineTs < clock.unixTimestamp)) := by
  cases h with
  | call _ h =>
    obtain ⟨outcome, timeout, hresolved⟩ := resolution_ok hkind h
    obtain ⟨_, hm⟩ := hresolved.market
    rw [hm]
    refine ⟨rfl, ?_⟩
    have htime := hresolved.ready.time
    cases timeout with
    | true =>
      obtain ⟨hlate, hinvalid⟩ := checkResolutionTime_true.mp htime
      exact .inr ⟨hinvalid, hlate⟩
    | false =>
      obtain ⟨hearly, hdecided⟩ := checkResolutionTime_false.mp htime
      exact .inl ⟨hdecided, hearly⟩

/-! ## After the deadline -/

/-- The digests of the three timeouts of a state are not zero. -/
def TimeoutDigests (rt : Runtime) (s : HybridState) : Prop :=
  oracleTimeoutEvidenceHash rt s ≠ zeroBytes ∧ ∀ p, s.proposal = some p →
    finalizeEvidenceHash rt s p true ≠ zeroBytes ∧ disputeTimeoutEvidenceHash rt s p ≠ zeroBytes

/-- An instruction passes all its checks. -/
def Passes (rt : Runtime) (s : HybridState) (clock : Clock) (instruction : Instruction) : Prop :=
  ∃ s', execute rt s clock instruction = .ok s'

/-- The three ways out of an unresolved market after its deadline. -/
def timeouts : List Instruction :=
  [.resolveHybridTimeout, .finalizeOptimisticResolution, .timeoutOptimisticDispute]

section Timeouts

variable {now : Int}

/-- The finaliser accepts every decided outcome at its time. -/
theorem finalizeWith_succeeds (hI : Inv rt s) (args : FinalizeHybridResolutionArgs)
    (hready : Resolvable s.market args.observation.outcome args.now args.timeout)
    (hdecided : Decided args.observation.outcome) (hvault : args.vaultBalance = s.vault)
    (hdigest : args.evidenceHash ≠ zeroBytes) : ∃ s', finalizeWith s args = .ok s' := by
  have hpending := hI.phase.pending hready.unresolved
  obtain ⟨done, hdone⟩ := finalizeHybridResolution_of hready hpending.fresh hdigest hdecided
    hI.quantities_fit (hvault ▸ (owed_le_max _ _ _).trans hpending.covers.1)
  simp only [finalizeWith, hdone, ok_bind]
  exact ⟨_, rfl⟩

/-- The finaliser accepts every timeout after the deadline. -/
theorem finalizeWith_timeout (hI : Inv rt s) (hu : Unresolved s.market.phase)
    (hlate : s.market.resolutionDeadlineTs < now) (args : FinalizeHybridResolutionArgs)
    (hnow : args.now = now) (hinvalid : args.observation.outcome = HybridMarket.outcomeInvalid)
    (hvault : args.vaultBalance = s.vault) (htimeout : args.timeout = true)
    (hdigest : args.evidenceHash ≠ zeroBytes) : ∃ s', finalizeWith s args = .ok s' := by
  have htimes := hI.times
  refine finalizeWith_succeeds hI args ⟨hu, by omega, by omega, ?_⟩ (.inr (.inr hinvalid)) hvault
    hdigest
  rw [htimeout, checkResolutionTime_true, hnow]
  exact ⟨hlate, hinvalid⟩

/-- An unpaid proposal records payouts that add up to its bonds. -/
theorem recordOptimisticPayouts_of {p : OptimisticProposal} {a b : Nat} (h : Unpaid p)
    (hbonds : depositedBonds p = .ok (a + b)) (hfits : a + b ≤ u64Max) :
    ∃ p', recordOptimisticPayouts p a b 0 = .ok p' := by
  simp only [recordOptimisticPayouts, bind_eq_ok, check_eq_ok, orFail_eq_ok, checkedAdd_eq_some]
  exact ⟨_, (), ⟨h.1, h.2, h.3, h.4, h.5, h.6, h.7⟩, a + b, hbonds, a + b, ⟨hfits, rfl⟩, a + b,
    ⟨hfits, rfl⟩, (), rfl, rfl⟩

/-- Without a proposal the oracle timeout passes, and only it. -/
theorem timeouts_open (hI : Inv rt s) (hkey : s.proposalKey rt ≠ Pubkey.default)
    (hphase : s.market.phase = .open ∨ s.market.phase = .locked)
    (hlate : s.market.resolutionDeadlineTs < now) (hdigest : TimeoutDigests rt s) :
    (∃ s', resolveHybridTimeout rt s now = .ok s') ∧
      (∀ s', finalizeOptimisticResolution rt s now ≠ .ok s') ∧
      ∀ s', timeoutOptimisticDispute rt s now ≠ .ok s' := by
  obtain ⟨hpending, -, hnone⟩ := hI.phase.open hphase
  have hnot : ∀ p, proposalAccounts rt s ≠ .ok p := fun p hp =>
    hkey ((proposalAccounts_ok.mp hp).1.symm.trans hnone)
  refine ⟨?_, fun s' h => ?_, fun s' h => ?_⟩
  · simp only [resolveHybridTimeout, bind_eq_ok, check_eq_ok, resolutionAccounts_ok]
    obtain ⟨s', hs'⟩ := finalizeWith_timeout hI (hphase.elim .inl fun h => .inr (.inl h)) hlate
      ⟨Pubkey.default, ⟨HybridMarket.outcomeInvalid, 0, 0, now, 0, 0, 0⟩,
        oracleTimeoutEvidenceHash rt s, now, s.vault, true⟩ rfl rfl rfl rfl hdigest.1
    exact ⟨s', (), ⟨hpending.fresh, hpending.noReceipt⟩, (), hnone, hs'⟩
  · simp only [finalizeOptimisticResolution, bind_eq_ok] at h
    obtain ⟨p, hp, -⟩ := h
    exact hnot p hp
  · simp only [timeoutOptimisticDispute, bind_eq_ok] at h
    obtain ⟨p, hp, -⟩ := h
    exact hnot p hp

/-- An unchallenged proposal is finalised as INVALID, and only that passes. -/
theorem timeouts_resolving (hI : Inv rt s) (hkey : s.proposalKey rt ≠ Pubkey.default)
    (hphase : s.market.phase = .resolving) (hlate : s.market.resolutionDeadlineTs < now)
    (hdigest : TimeoutDigests rt s) :
    (∀ s', resolveHybridTimeout rt s now ≠ .ok s') ∧
      (∃ s', finalizeOptimisticResolution rt s now = .ok s') ∧
      ∀ s', timeoutOptimisticDispute rt s now ≠ .ok s' := by
  obtain ⟨hpending, hproposalKey, p, hp, hunpaid, hchallenger, hbond⟩ := hI.phase.resolving hphase
  have hbondFits := hI.bondFits
  refine ⟨fun s' h => ?_, ?_, fun s' h => ?_⟩
  · simp only [resolveHybridTimeout, bind_eq_ok, check_eq_ok] at h
    obtain ⟨-, -, -, hdefault, -⟩ := h
    exact hkey (hproposalKey.symm.trans hdefault)
  · have hdecision : optimisticFinalizeOutcome s.market p now =
        .ok (HybridMarket.outcomeInvalid, true) := by
      simp only [optimisticFinalizeOutcome, bind_eq_ok, check_eq_ok, if_pos hlate]
      exact ⟨(), ⟨hphase, hunpaid.finalized, hchallenger⟩, trivial⟩
    obtain ⟨t, ht⟩ := finalizeWith_timeout hI (.inr (.inr (.inl hphase))) hlate
      ⟨s.proposalKey rt, optimisticObservation HybridMarket.outcomeInvalid now,
        finalizeEvidenceHash rt s p true, now, s.vault, true⟩ rfl rfl rfl rfl (hdigest.2 p hp).1
    have hdeposited : depositedBonds p = .ok (p.bondAmount + 0) := if_pos hchallenger
    obtain ⟨p', hp'⟩ := recordOptimisticPayouts_of hunpaid hdeposited (by omega)
    simp only [finalizeOptimisticResolution, bind_eq_ok, proposalAccounts_ok, resolutionAccounts_ok]
    exact ⟨_, p, ⟨hproposalKey, hpending.fresh, hp⟩, (), ⟨hpending.fresh, hpending.noReceipt⟩, _,
      hdecision, t, ht, p', hp', rfl⟩
  · simp only [timeoutOptimisticDispute, bind_eq_ok, check_eq_ok] at h
    obtain ⟨_, -, -, -, -, ⟨hdisputed, -⟩, -⟩ := h
    rw [hphase] at hdisputed
    cases hdisputed

/-- A challenged proposal is timed out as a dispute, and only that passes. -/
theorem timeouts_disputed (hI : Inv rt s) (hkey : s.proposalKey rt ≠ Pubkey.default)
    (hphase : s.market.phase = .disputed) (hlate : s.market.resolutionDeadlineTs < now)
    (hdigest : TimeoutDigests rt s) :
    (∀ s', resolveHybridTimeout rt s now ≠ .ok s') ∧
      (∀ s', finalizeOptimisticResolution rt s now ≠ .ok s') ∧
      ∃ s', timeoutOptimisticDispute rt s now = .ok s' := by
  obtain ⟨hpending, hproposalKey, p, hp, hunpaid, hchallenger, hbond⟩ := hI.phase.disputed hphase
  have hbondFits := hI.bondFits
  refine ⟨fun s' h => ?_, fun s' h => ?_, ?_⟩
  · simp only [resolveHybridTimeout, bind_eq_ok, check_eq_ok] at h
    obtain ⟨-, -, -, hdefault, -⟩ := h
    exact hkey (hproposalKey.symm.trans hdefault)
  · simp only [finalizeOptimisticResolution, optimisticFinalizeOutcome, bind_eq_ok,
      check_eq_ok] at h
    obtain ⟨_, -, -, -, _, ⟨-, ⟨hresolving, -⟩, -⟩, -⟩ := h
    rw [hphase] at hresolving
    cases hresolving
  · obtain ⟨t, ht⟩ := finalizeWith_timeout hI (.inr (.inr (.inr hphase))) hlate
      ⟨s.proposalKey rt, optimisticObservation HybridMarket.outcomeInvalid now,
        disputeTimeoutEvidenceHash rt s p, now, s.vault, true⟩ rfl rfl rfl rfl (hdigest.2 p hp).2
    have hdeposited : depositedBonds p = .ok (p.bondAmount + p.bondAmount) := by
      rw [depositedBonds, if_neg hchallenger, orFail_eq_ok, checkedMul_eq_some]
      omega
    obtain ⟨p', hp'⟩ := recordOptimisticPayouts_of hunpaid hdeposited (by omega)
    simp only [timeoutOptimisticDispute, bind_eq_ok, check_eq_ok, proposalAccounts_ok,
      resolutionAccounts_ok]
    exact ⟨_, p, ⟨hproposalKey, hpending.fresh, hp⟩, (), ⟨hpending.fresh, hpending.noReceipt⟩, (),
      ⟨hphase, hunpaid.finalized, hchallenger, hlate⟩, t, ht, p', hp', rfl⟩

/-- **Exactly one way out.** After the deadline of an unresolved market exactly one of the three
timeout instructions passes all its checks. -/
theorem exactly_one_timeout (hI : Inv rt s) (hkey : s.proposalKey rt ≠ Pubkey.default)
    (hu : Unresolved s.market.phase) {clock : Clock}
    (hlate : s.market.resolutionDeadlineTs < clock.unixTimestamp)
    (hdigest : TimeoutDigests rt s) :
    ∃ i ∈ timeouts, Passes rt s clock i ∧ ∀ j ∈ timeouts, Passes rt s clock j → j = i := by
  have hlist : ∀ {P : Instruction → Prop}, (∀ j ∈ timeouts, P j) ↔ P .resolveHybridTimeout ∧
      P .finalizeOptimisticResolution ∧ P .timeoutOptimisticDispute := by simp [timeouts]
  have hopen := fun h => timeouts_open hI hkey h hlate hdigest
  rcases hu with h | h | h | h
  · obtain ⟨hyes, hno, hno'⟩ := hopen (.inl h)
    exact ⟨_, .head _, hyes, hlist.mpr ⟨fun _ => rfl, fun ⟨s', hs'⟩ => absurd hs' (hno s'),
      fun ⟨s', hs'⟩ => absurd hs' (hno' s')⟩⟩
  · obtain ⟨hyes, hno, hno'⟩ := hopen (.inr h)
    exact ⟨_, .head _, hyes, hlist.mpr ⟨fun _ => rfl, fun ⟨s', hs'⟩ => absurd hs' (hno s'),
      fun ⟨s', hs'⟩ => absurd hs' (hno' s')⟩⟩
  · obtain ⟨hno, hyes, hno'⟩ := timeouts_resolving hI hkey h hlate hdigest
    exact ⟨_, .tail _ (.head _), hyes, hlist.mpr ⟨fun ⟨s', hs'⟩ => absurd hs' (hno s'),
      fun _ => rfl, fun ⟨s', hs'⟩ => absurd hs' (hno' s')⟩⟩
  · obtain ⟨hno, hno', hyes⟩ := timeouts_disputed hI hkey h hlate hdigest
    exact ⟨_, .tail _ (.tail _ (.head _)), hyes, hlist.mpr ⟨fun ⟨s', hs'⟩ => absurd hs' (hno s'),
      fun ⟨s', hs'⟩ => absurd hs' (hno' s'), fun _ => rfl⟩⟩

end Timeouts

/-! ## Over every run -/

theorem terms_run (h : Run (Step rt) init tr s) : terms s.market = terms init.market :=
  h.invariant (I := fun s => terms s.market = terms init.market)
    (fun _ _ _ ih hstep => (step_effect hstep).terms.trans ih) rfl

/-- The terms of a created market are those of its arguments. -/
theorem created_terms {args : InitializeHybridMarketArgs} {now : Int}
    (hinit : Created rt args now init) (h : Run (Step rt) init tr s) :
    s.market.lockTs = args.lockTs ∧ s.market.resolutionDeadlineTs = args.resolutionDeadlineTs := by
  obtain ⟨engine, tokens, creator, creatorToken, hcreated⟩ := hinit
  obtain ⟨-, -, -, _, _, -, -, hmarket, -⟩ := initializeHybridMarket_ok hcreated
  have hterms := terms_run h
  rw [field_of_terms HybridMarket.lockTs (fun _ => rfl) hterms,
    field_of_terms HybridMarket.resolutionDeadlineTs (fun _ => rfl) hterms, hmarket]
  exact ⟨rfl, rfl⟩

/-- **The resolution state machine.** In every run of a hybrid market: at most one resolution
succeeds; from then on outcome, time and evidence stay; a trade succeeds only before the lock and
before any proposal or resolution; only a resolution sets the outcome, YES or NO up to the deadline
and INVALID after it; and an unresolved market has exactly one way out after the deadline. -/
theorem resolution_state_machine
    (hkey : ∀ seeds program, rt.findProgramAddress seeds program ≠ Pubkey.default)
    {args : InitializeHybridMarketArgs} {now : Int} (hinit : Created rt args now init)
    (hrun : Run (Step rt) init tr s) :
    tr.countP Event.isResolution ≤ 1 ∧
    (∀ before after t, tr = before ++ after → Run (Step rt) init before t →
      Run (Step rt) t after s → Final t.market.phase →
      s.market.outcome = t.market.outcome ∧ s.market.settledAt = t.market.settledAt ∧
        s.market.settlementEvidenceHash = t.market.settlementEvidenceHash) ∧
    (∀ before after instruction clock t t', tr = before ++ .call instruction clock :: after →
      Run (Step rt) init before t → Step rt t (.call instruction clock) t' →
      (instruction.isTrade = true → clock.unixTimestamp < args.lockTs ∧
        ∀ event ∈ before, event.isResolution = false ∧ event.isProposal = false) ∧
      (instruction.isResolution = true → t'.market.settledAt = clock.unixTimestamp ∧
        (((t'.market.outcome = HybridMarket.outcomeYes ∨
              t'.market.outcome = HybridMarket.outcomeNo) ∧
            clock.unixTimestamp ≤ args.resolutionDeadlineTs) ∨
          (t'.market.outcome = HybridMarket.outcomeInvalid ∧
            args.resolutionDeadlineTs < clock.unixTimestamp))) ∧
      (instruction.isResolution = false → t'.market.outcome = t.market.outcome)) ∧
    (Unresolved s.market.phase → ∀ clock, args.resolutionDeadlineTs < clock.unixTimestamp →
      TimeoutDigests rt s →
      ∃ i ∈ timeouts, Passes rt s clock i ∧ ∀ j ∈ timeouts, Passes rt s clock j → j = i) := by
  have hI := inv_reaches hinit ⟨tr, hrun⟩
  have hopen : init.market.phase = .open := by
    obtain ⟨engine, tokens, creator, creatorToken, hcreated⟩ := id hinit
    obtain ⟨-, -, -, _, _, -, -, hmarket, -⟩ := initializeHybridMarket_ok hcreated
    rw [hmarket]
    rfl
  refine ⟨timesResolved_run hopen hrun ▸ timesResolved_le_one _, ?_, ?_, ?_⟩
  · rintro before after t - - hafter hfinal
    have hverdict := (final_run hfinal hafter).2.1
    exact ⟨congrArg Verdict.outcome hverdict, congrArg Verdict.settledAt hverdict,
      congrArg Verdict.settlementEvidenceHash hverdict⟩
  · rintro before after instruction clock t t' - hbefore hstep
    obtain ⟨hlock, hdeadline⟩ := created_terms hinit hbefore
    refine ⟨fun htrade => ?_, fun hkind => ?_, fun hkind =>
      outcome_step (show (Event.call instruction clock).isResolution = false from hkind) hstep⟩
    · have hphase : t.market.phase = .open ∧ clock.unixTimestamp < t.market.lockTs := by
        cases hstep with
        | call _ h =>
          cases instruction with
          | buyHybridShares accounts args =>
            obtain ⟨_, _, htraded⟩ := buyHybridShares_ok h
            exact ⟨htraded.phase, htraded.early⟩
          | sellHybridShares accounts args =>
            obtain ⟨_, _, htraded⟩ := sellHybridShares_ok h
            exact ⟨htraded.phase, htraded.early⟩
          | _ => cases htrade
      exact ⟨hlock ▸ hphase.2, open_run hbefore hphase.1⟩
    · exact hdeadline ▸ outcome_time hkind hstep
  · intro hu clock hlate hdigest
    have hdeadline := (created_terms hinit hrun).2
    exact exactly_one_timeout hI (hkey _ _) hu (hdeadline ▸ hlate) hdigest

theorem Sample.findProgramAddress_ne_default (seeds : List (List UInt8)) (program : Pubkey) :
    Sample.runtime.findProgramAddress seeds program ≠ Pubkey.default := by
  simp only [Sample.runtime]
  split
  · decide
  · split <;> decide

namespace Sample

/-- Bob proposes YES; every digest of this runtime is the same. -/
def propose : Instruction × Clock :=
  (.proposeOptimisticResolution bob bob
    { outcome := 1, assertionHash := timeoutDigest, evidenceUri := "ipfs://evidence".toList },
    { slot := 0, unixTimestamp := 2000 })

def finalize : Instruction × Clock :=
  (.finalizeOptimisticResolution, { slot := 0, unixTimestamp := 6000 })

/-- Alice buys before the lock and Bob proposes after it. -/
def proposed : List (Instruction × Clock) :=
  [openPosition alice, buyYes alice 10000001, propose]

theorem timeoutDigests (s : HybridState) : TimeoutDigests runtime s :=
  ⟨show timeoutDigest ≠ zeroBytes by decide, fun _ _ =>
    ⟨show timeoutDigest ≠ zeroBytes by decide, show timeoutDigest ≠ zeroBytes by decide⟩⟩

end Sample

/-- Alice's purchase comes before the lock and the proposal, the unchallenged proposal becomes the
verdict, the verdict stays when Alice is settled, and with the proposal open the market would have had
one way out after its deadline. -/
theorem resolution_state_machine_sample : ∃ init proposed resolved settled : HybridState,
    Run (Step Sample.runtime) init (calls Sample.proposed) proposed ∧
    Run (Step Sample.runtime) proposed (calls [Sample.finalize]) resolved ∧
    Run (Step Sample.runtime) resolved (calls [Sample.settle Sample.alice]) settled ∧
    ((10 : Int) < Sample.args.lockTs ∧
      ∀ event ∈ calls [Sample.openPosition Sample.alice],
        event.isResolution = false ∧ event.isProposal = false) ∧
    (resolved.market.outcome = HybridMarket.outcomeYes ∧ resolved.market.settledAt = 6000) ∧
    (settled.market.outcome = resolved.market.outcome ∧
      settled.market.settledAt = resolved.market.settledAt ∧
        settled.market.settlementEvidenceHash = resolved.market.settlementEvidenceHash) ∧
    ∃ i ∈ timeouts, Passes Sample.runtime proposed { slot := 0, unixTimestamp := 100001 } i ∧
      ∀ j ∈ timeouts, Passes Sample.runtime proposed { slot := 0, unixTimestamp := 100001 } j →
        j = i := by
  have hvalue : (Sample.created >>= fun init => executeAll Sample.runtime init
      (Sample.proposed ++ [Sample.finalize, Sample.settle Sample.alice])).toOption.map
      (fun s => s.market.outcome) = some HybridMarket.outcomeYes := by
    decide +kernel
  obtain ⟨init, settled, hinit, hs, houtcome⟩ := executeAll_of_map hvalue
  have hcreated := Sample.created_of_ok hinit
  -- the states between the five calls
  obtain ⟨opened, hopen, hs⟩ := bind_eq_ok.mp hs
  obtain ⟨bought, hbuy, hs⟩ := bind_eq_ok.mp hs
  obtain ⟨proposed, hpropose, hs⟩ := bind_eq_ok.mp hs
  obtain ⟨resolved, hfinalize, hs⟩ := bind_eq_ok.mp hs
  have hopening : Step Sample.runtime init (.call (.initializePosition Sample.alice) _) opened :=
    .call trivial hopen
  have hbuying : Step Sample.runtime opened (.call (Sample.buyYes Sample.alice 10000001).1 _)
      bought := .call trivial hbuy
  have hproposing : Step Sample.runtime bought (.call Sample.propose.1 _) proposed :=
    .call trivial hpropose
  have hfinalizing : Step Sample.runtime proposed (.call Sample.finalize.1 _) resolved :=
    .call trivial hfinalize
  have hproposed : Run (Step Sample.runtime) init (calls Sample.proposed) proposed :=
    .cons hopening (.cons hbuying (.single hproposing))
  have hresolved : Run (Step Sample.runtime) proposed (calls [Sample.finalize]) resolved :=
    .single hfinalizing
  have hsettled : Run (Step Sample.runtime) resolved (calls [Sample.settle Sample.alice]) settled :=
    executeAll_run (by simp [Sample.settle, Instruction.signed]) hs
  have hrun := (hproposed.append hresolved).append hsettled
  obtain ⟨-, hkeeps, hcalls, -⟩ :=
    resolution_state_machine Sample.findProgramAddress_ne_default hcreated hrun
  obtain ⟨-, -, -, hway⟩ :=
    resolution_state_machine Sample.findProgramAddress_ne_default hcreated hproposed
  obtain ⟨outcome, timeout, hverdict⟩ :=
    resolution_ok (show Instruction.isResolution Sample.finalize.1 = true from rfl) hfinalize
  obtain ⟨digest, hmarket⟩ := hverdict.market
  have hfinal : Final resolved.market.phase := .inl (congrArg HybridMarket.phase hmarket)
  have hkept := hkeeps _ _ resolved rfl (hproposed.append hresolved) hsettled hfinal
  have htrade := (hcalls (calls [Sample.openPosition Sample.alice]) _ _ _ opened bought rfl
    (.single hopening) hbuying).1 rfl
  have hresolution := (hcalls (calls Sample.proposed) _ _ _ proposed resolved rfl hproposed
    hfinalizing).2.1 rfl
  have hphase : proposed.market.phase = .resolving :=
    congrArg HybridMarket.phase (proposeOptimisticResolution_ok hpropose).market
  refine ⟨init, proposed, resolved, settled, hproposed, hresolved, hsettled, htrade,
    ⟨hkept.1.symm.trans houtcome, hresolution.1⟩, hkept, ?_⟩
  exact hway (.inr (.inr (.inl hphase))) _ (by decide) (Sample.timeoutDigests proposed)

end Nortia.Hybrid
