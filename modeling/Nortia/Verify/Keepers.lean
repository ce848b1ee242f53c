import Nortia.Services.Lifecycle
import Nortia.Verify.Hybrid.Alive
import Nortia.Verify.Hybrid.Bonds
import Nortia.Verify.Private.Lifecycle

/-!
# The keepers' planners

A planner decides from a few fields of a market. Where it plans an instruction the program accepts
it, and after the deadline of a hybrid market it plans the one timeout that the program accepts.
It refuses timestamps that JavaScript cannot represent, or that are negative; those of a market
opened at a non-negative time lie between that time and a moment after its deadline.
-/

namespace Nortia.Hybrid

open Lib

variable {rt : Runtime} {init s s' : HybridState}

/-! ## What a proposal asserts, over a run -/

/-- A field of the terms or of the configuration that an assertion rests on stays. -/
theorem Asserted.step {p p' : OptimisticProposal} {e : Event} (h : Asserted s p)
    (hstep : Step rt s e s') (hasserts : asserts p' = asserts p) : Asserted s' p' := by
  have hterms := (step_effect hstep).terms
  have hresolver : s'.oracle.resolver = s.oracle.resolver :=
    congrArg OracleConfigArgs.resolver (configured_step hstep)
  have hready : s'.market.resolveNotBeforeTs = s.market.resolveNotBeforeTs :=
    field_of_terms HybridMarket.resolveNotBeforeTs (fun _ => rfl) hterms
  have hdeadline : s'.market.resolutionDeadlineTs = s.market.resolutionDeadlineTs :=
    field_of_terms HybridMarket.resolutionDeadlineTs (fun _ => rfl) hterms
  obtain ⟨houtcome, hchallengeable⟩ := Prod.mk.inj hasserts
  constructor
  · rw [hresolver]
    exact h.resolver
  · rw [houtcome]
    exact h.outcome
  · rw [hready, hdeadline, hchallengeable]
    exact h.challengeable

/-- The accounts of a proposal: an address in the configuration has an account, and what the
account holds was asserted. -/
structure Proposable (s : HybridState) : Prop where
  fetchable : s.oracle.optimisticProposal ≠ Pubkey.default → s.proposal.isSome = true
  asserted : ∀ p, s.proposal = some p → Asserted s p

theorem optimisticProposal_step {e : Event} (h : Step rt s e s') :
    s'.oracle.optimisticProposal = s.oracle.optimisticProposal ∨ s'.proposal.isSome = true := by
  cases step_effect h with
  | opened h => exact .inl (by rw [h.accounts.oracle])
  | traded _ h => exact .inl (by rw [h.accounts.oracle])
  | locked h => exact .inl (by rw [h.accounts.oracle])
  | proposed h =>
    obtain ⟨p, hp, -⟩ := h.proposal
    exact .inr (by rw [hp]; rfl)
  | challenged _ h => exact .inl (by rw [h.oracle])
  | resolved _ h => exact .inl (by rw [h.oracle])
  | bondClaimed h => exact .inl (by rw [h.oracle])
  | settled h => exact .inl (by rw [h.accounts.oracle])
  | withdrew h => exact .inl (by rw [h.accounts.oracle])
  | deposited _ h => exact .inl (by rw [h.oracle])

theorem proposable_step {e : Event} (hP : Proposable s) (h : Step rt s e s') : Proposable s' := by
  have hbonds := step_bonds h
  constructor
  · intro haddress
    rcases optimisticProposal_step h with hsame | hsome
    · rw [hsame] at haddress
      have hsome := hP.fetchable haddress
      cases hbonds with
      | kept _ _ hproposal _ => rw [hproposal]; exact hsome
      | donated _ hproposal _ => rw [hproposal]; exact hsome
      | proposed _ _ _ hp => rw [hp]; rfl
      | challenged _ _ _ hp => rw [hp]; rfl
      | recorded _ _ _ hp => rw [hp]; rfl
      | claimed _ hp => rw [hp]; rfl
    · exact hsome
  · intro p' hp'
    cases hbonds with
    | kept _ _ hproposal _ => exact (hP.asserted p' (hproposal ▸ hp')).step h rfl
    | donated _ hproposal _ => exact (hP.asserted p' (hproposal ▸ hp')).step h rfl
    | proposed _ _ _ hp _ _ hasserted =>
      obtain rfl := Option.some.inj (hp.symm.trans hp')
      exact hasserted.step h rfl
    | challenged _ _ hp hq _ _ _ _ _ _ hasserts =>
      obtain rfl := Option.some.inj (hq.symm.trans hp')
      exact (hP.asserted _ hp).step h hasserts
    | recorded _ _ hp hq hrecorded =>
      obtain rfl := Option.some.inj (hq.symm.trans hp')
      exact (hP.asserted _ hp).step h hrecorded.parties.asserted
    | claimed hp hq hclaims =>
      obtain rfl := Option.some.inj (hq.symm.trans hp')
      exact (hP.asserted _ hp).step h hclaims.asserted

theorem proposable_reachable (h : Reachable rt s) : Proposable s := by
  obtain ⟨args, now, init, ⟨engine, tokens, creator, creatorToken, hinit⟩, hreach⟩ := h
  refine hreach.invariant (fun _ _ _ => proposable_step) ?_
  obtain ⟨-, -, -, _, _, -, -, -, horacle, hproposal, -⟩ := initializeHybridMarket_ok hinit
  constructor
  · rw [horacle]
    exact fun h => absurd rfl h
  · intro p hp
    rw [hproposal] at hp
    cases hp

/-- A market locks after the moment it was opened at. -/
theorem openTs_lt_lockTs (h : Reachable rt s) : s.market.openTs < s.market.lockTs := by
  obtain ⟨args, now, init, ⟨engine, tokens, creator, creatorToken, hinit⟩, hreach⟩ := h
  refine hreach.invariant (I := fun s => s.market.openTs < s.market.lockTs) ?_ ?_
  · intro s e s' hlt hstep
    have hterms := (step_effect hstep).terms
    rw [field_of_terms HybridMarket.openTs (fun _ => rfl) hterms,
      field_of_terms HybridMarket.lockTs (fun _ => rfl) hterms]
    exact hlt
  · obtain ⟨-, hvalid, -, _, _, -, -, hmarket, -⟩ := initializeHybridMarket_ok hinit
    obtain ⟨-, -, -, -, -, -, -, -, -, hlock, -, -⟩ := hvalid
    rw [hmarket]
    exact hlock

end Nortia.Hybrid

namespace Nortia.Services

open Lib Client Hybrid

variable {rt : Runtime} {s : HybridState} {now : Int}

/-! ## Reading a hybrid market -/

theorem isTimestamp_iff {value : Int} :
    isTimestamp value = true ↔ 0 ≤ value ∧ value ≤ 9007199254740991 := by
  simp only [isTimestamp, isSafeInteger, Bool.and_eq_true, decide_eq_true_eq]
  omega

theorem toNumber_eq_ok {value number : Int} :
    toNumber value = .ok number ↔ isSafeInteger value = true ∧ value = number := by
  simp only [toNumber, bind_eq_ok, require_eq_ok, exists_const, Except.ok.injEq]

theorem toNumber_of_timestamp {value : Int} (h : isTimestamp value = true) :
    toNumber value = .ok value := by
  rw [isTimestamp, Bool.and_eq_true] at h
  exact toNumber_eq_ok.mpr ⟨h.1, rfl⟩

/-- The timestamps of a market and the clock of a pass are numbers a planner accepts. -/
structure Readable (s : HybridState) (now : Int) : Prop where
  lockTs : isTimestamp s.market.lockTs = true
  resolveNotBeforeTs : isTimestamp s.market.resolveNotBeforeTs = true
  resolutionDeadlineTs : isTimestamp s.market.resolutionDeadlineTs = true
  now : isTimestamp now = true

def observedProposal (p : OptimisticProposal) : OptimisticProposalState where
  challengeDeadline := p.challengeDeadline
  challenged := p.challenger ≠ Pubkey.default
  finalized := p.finalized

/-- What a planner sees of a market. -/
def observed (s : HybridState) : HybridKeeperInput where
  phase := s.market.phase
  resolver := s.oracle.resolver
  lockTs := s.market.lockTs
  resolveNotBeforeTs := s.market.resolveNotBeforeTs
  resolutionDeadlineTs := s.market.resolutionDeadlineTs
  proposal := if s.oracle.optimisticProposal = Pubkey.default then none
    else s.proposal.map observedProposal

theorem Readable.proposalState (h : Readable s now) {p : OptimisticProposal} (hp : Asserted s p) :
    proposalState (some p) = .ok (some (observedProposal p)) := by
  have hready := isTimestamp_iff.mp h.resolveNotBeforeTs
  have hdeadline := isTimestamp_iff.mp h.resolutionDeadlineTs
  have hchallenge := hp.challengeable
  have hnumber : toNumber p.challengeDeadline = .ok p.challengeDeadline :=
    toNumber_of_timestamp (isTimestamp_iff.mpr (by omega))
  simp only [Services.proposalState, hnumber, ok_bind]
  rfl

/-- A keeper reads what there is to see. -/
theorem Readable.hybridKeeperInput (h : Readable s now) (hP : Proposable s) :
    hybridKeeperInput s = .ok (observed s) := by
  have hlock := toNumber_of_timestamp h.lockTs
  have hready := toNumber_of_timestamp h.resolveNotBeforeTs
  have hdeadline := toNumber_of_timestamp h.resolutionDeadlineTs
  by_cases haddress : s.oracle.optimisticProposal = Pubkey.default
  · have hfetch : fetchProposal s = .ok none := if_pos haddress
    have hnone : Services.proposalState none = .ok none := rfl
    simp only [Services.hybridKeeperInput, hfetch, hlock, hready, hdeadline, hnone, ok_bind,
      observed, if_pos haddress]
  · obtain ⟨p, hp⟩ := Option.isSome_iff_exists.mp (hP.fetchable haddress)
    have hfetch : fetchProposal s = .ok (some p) := by
      rw [fetchProposal, if_neg haddress, hp]
      rfl
    simp only [Services.hybridKeeperInput, hfetch, hlock, hready, hdeadline, ok_bind, observed,
      h.proposalState (hP.asserted p hp), if_neg haddress, hp, Option.map_some]

theorem checkTimestamps_eq_ok {list : List (String × Int)} {u : Unit} :
    checkTimestamps list = .ok u ↔ ∀ entry ∈ list, isTimestamp entry.2 = true := by
  induction list with
  | nil => simp [checkTimestamps]
  | cons entry rest ih =>
    simp only [checkTimestamps, bind_eq_ok, require_eq_ok, exists_const, ih, List.forall_mem_cons]

theorem Readable.hybridKeeperAction (h : Readable s now) (hI : Inv rt s) (hP : Proposable s) :
    hybridKeeperAction s now = .ok (plannedAction (observed s) now) := by
  have hvalid : validateTimestamps (observed s) now = .ok () := by
    simp only [validateTimestamps, bind_eq_ok, require_eq_ok]
    refine ⟨(), checkTimestamps_eq_ok.mpr ?_, hI.times⟩
    simp only [List.forall_mem_cons]
    exact ⟨h.lockTs, h.resolveNotBeforeTs, h.resolutionDeadlineTs, h.now,
      fun _ hnil => absurd hnil List.not_mem_nil⟩
  simp only [Services.hybridKeeperAction, h.hybridKeeperInput hP, planHybridKeeperAction, hvalid,
    ok_bind]

/-- A planner answers only what it could read. -/
theorem readable_of_ok {action : HybridKeeperAction} (h : hybridKeeperAction s now = .ok action) :
    Readable s now := by
  simp only [Services.hybridKeeperAction, Services.hybridKeeperInput, planHybridKeeperAction,
    validateTimestamps, bind_eq_ok, toNumber_eq_ok, Except.ok.injEq] at h
  obtain ⟨_, ⟨-, -, _, ⟨-, rfl⟩, _, ⟨-, rfl⟩, _, ⟨-, rfl⟩, proposal, -, rfl⟩, _, ⟨_, hchecked, -⟩,
    -⟩ := h
  rw [checkTimestamps_eq_ok] at hchecked
  simp only [List.forall_mem_cons] at hchecked
  obtain ⟨hlock, hready, hdeadline, hnow, -⟩ := hchecked
  exact ⟨hlock, hready, hdeadline, hnow⟩

/-- After the deadline of a market opened at a non-negative time there is nothing a keeper cannot
read: every timestamp lies between that time and now. -/
theorem readable_of_late (hreach : Reachable rt s) (hopen : 0 ≤ s.market.openTs)
    (hnow : isSafeInteger now = true) (hlate : s.market.resolutionDeadlineTs < now) :
    Readable s now := by
  have hlock := openTs_lt_lockTs hreach
  obtain ⟨hready, hdeadline⟩ := (inv_reachable hreach).times
  have hbound : now ≤ 9007199254740991 := by
    simp only [isSafeInteger, Bool.and_eq_true, decide_eq_true_eq] at hnow
    omega
  constructor <;> refine isTimestamp_iff.mpr ⟨?_, ?_⟩ <;> omega

/-! ## What is planned passes -/

/-- The instruction of an action that needs no oracle data. -/
def HybridKeeperAction.instruction : HybridKeeperAction → Option Instruction
  | .lock => some .lockHybridMarket
  | .finalizeOptimistic => some .finalizeOptimisticResolution
  | .timeoutOptimisticDispute => some .timeoutOptimisticDispute
  | .resolveTimeout => some .resolveHybridTimeout
  | _ => Option.none

theorem lateAction_unproposed (h : s.oracle.optimisticProposal = Pubkey.default) :
    lateAction (observed s) = .resolveTimeout := by
  have hproposal : (observed s).proposal = none := if_pos h
  unfold lateAction
  rw [hproposal]
  cases (observed s).resolver <;> rfl

theorem lateAction_proposed {p : OptimisticProposal} (hA : Asserted s p)
    (haddress : s.oracle.optimisticProposal ≠ Pubkey.default) (hp : s.proposal = some p)
    (hopen : p.finalized = false) : lateAction (observed s) =
      if p.challenger = Pubkey.default then .finalizeOptimistic else .timeoutOptimisticDispute := by
  have hproposal : (observed s).proposal = some (observedProposal p) := by
    rw [observed, if_neg haddress, hp]
    rfl
  have hresolver : (observed s).resolver = .optimistic := hA.resolver
  unfold lateAction
  rw [hproposal, hresolver]
  simp only [observedProposal, hopen, Bool.false_eq_true, if_false, decide_eq_true_eq, ne_eq,
    ite_not]

section Late

variable {clock : Clock} (hI : Inv rt s) (hP : Proposable s)
  (hkey : s.proposalKey rt ≠ Pubkey.default) (hdigest : TimeoutDigests rt s)
  (hlate : s.market.resolutionDeadlineTs < clock.unixTimestamp)

include hI hP hkey hdigest hlate

/-- After the deadline the planner names a timeout that passes. -/
theorem lateAction_passes (hu : Unresolved s.market.phase) :
    ∃ i ∈ timeouts, (lateAction (observed s)).instruction = some i ∧ Passes rt s clock i := by
  have hunproposed : s.market.phase = .open ∨ s.market.phase = .locked →
      ∃ i ∈ timeouts, (lateAction (observed s)).instruction = some i ∧ Passes rt s clock i := by
    intro h
    obtain ⟨-, -, haddress⟩ := hI.phase.open h
    obtain ⟨hpasses, -⟩ := timeouts_open hI hkey h hlate hdigest
    exact ⟨.resolveHybridTimeout, .head _, by rw [lateAction_unproposed haddress]; rfl, hpasses⟩
  rcases hu with h | h | h | h
  · exact hunproposed (.inl h)
  · exact hunproposed (.inr h)
  · obtain ⟨-, haddress, p, hp, hunpaid, hchallenger, -⟩ := hI.phase.resolving h
    obtain ⟨-, hpasses, -⟩ := timeouts_resolving hI hkey h hlate hdigest
    have haction := lateAction_proposed (hP.asserted p hp) (haddress.trans_ne hkey) hp
      hunpaid.finalized
    rw [if_pos hchallenger] at haction
    exact ⟨.finalizeOptimisticResolution, .tail _ (.head _), by rw [haction]; rfl, hpasses⟩
  · obtain ⟨-, haddress, p, hp, hunpaid, hchallenger, -⟩ := hI.phase.disputed h
    obtain ⟨-, -, hpasses⟩ := timeouts_disputed hI hkey h hlate hdigest
    have haction := lateAction_proposed (hP.asserted p hp) (haddress.trans_ne hkey) hp
      hunpaid.finalized
    rw [if_neg hchallenger] at haction
    exact ⟨.timeoutOptimisticDispute, .tail _ (.tail _ (.head _)), by rw [haction]; rfl, hpasses⟩

omit hP in
/-- Nothing else of the timeouts passes. -/
theorem timeout_unique (hu : Unresolved s.market.phase) {i : Instruction} (hi : i ∈ timeouts)
    (hpasses : Passes rt s clock i) : ∀ j ∈ timeouts, Passes rt s clock j ↔ j = i := by
  obtain ⟨only, -, -, hunique⟩ := exactly_one_timeout hI hkey hu hlate hdigest
  intro j hj
  constructor
  · intro hpasses'
    rw [hunique i hi hpasses, hunique j hj hpasses']
  · rintro rfl
    exact hpasses

end Late

/-- On a market that may resolve, the only instruction without oracle data finalises an unchallenged
proposal. -/
theorem readyAction_instruction {market : HybridKeeperInput} {i : Instruction}
    (h : (readyAction market now).instruction = some i) : i = .finalizeOptimisticResolution ∧
      market.phase = .resolving ∧ ∃ proposal, market.proposal = some proposal ∧
        proposal.challengeDeadline < now := by
  have hmachine : ∀ action : HybridKeeperAction, action.instruction = Option.none →
      (if market.phase = .open ∨ market.phase = .locked then action
        else .none).instruction = Option.none := by
    intro action haction
    split
    · exact haction
    · rfl
  cases hresolver : market.resolver <;> simp only [readyAction, hresolver] at h
  case pythPrice => rw [hmachine _ rfl] at h; cases h
  case txlineStat => rw [hmachine _ rfl] at h; cases h
  case switchboardQuote => rw [hmachine _ rfl] at h; cases h
  case storkPrice => rw [hmachine _ rfl] at h; cases h
  case umaWormhole => cases h
  case chainlinkReport => cases h
  case optimistic =>
    cases hproposal : market.proposal with
    | none =>
      simp only [hproposal] at h
      cases h
    | some proposal =>
      simp only [hproposal] at h
      by_cases hfinal : proposal.finalized = true
      · rw [if_pos hfinal] at h
        cases h
      · rw [if_neg hfinal] at h
        split at h
        · next hready =>
          cases h
          exact ⟨rfl, hready.1, proposal, rfl, hready.2.2⟩
        · cases h

/-- From the resolution time on and up to the deadline, what the planner finalises passes. -/
theorem readyAction_passes {clock : Clock} (hI : Inv rt s) (hP : Proposable s)
    (hkey : s.proposalKey rt ≠ Pubkey.default) (hdigest : ∀ data, rt.sha256 data ≠ zeroBytes)
    (hready : s.market.resolveNotBeforeTs ≤ clock.unixTimestamp)
    (hdeadline : clock.unixTimestamp ≤ s.market.resolutionDeadlineTs) {i : Instruction}
    (h : (readyAction (observed s) clock.unixTimestamp).instruction = some i) :
    Passes rt s clock i := by
  obtain ⟨rfl, hphase, proposal, hproposal, hover⟩ := readyAction_instruction h
  obtain ⟨-, haddress, p, hp, -⟩ := hI.phase.resolving hphase
  have hobserved : (observed s).proposal = some (observedProposal p) := by
    rw [observed, if_neg (haddress.trans_ne hkey), hp]
    rfl
  obtain rfl := Option.some.inj (hobserved.symm.trans hproposal)
  obtain ⟨s', hs', -⟩ := finalize_unchallenged hI hdigest hphase hp (hP.asserted p hp).outcome
    hready hover hdeadline
  exact ⟨s', hs'⟩

theorem unresolved_iff {phase : HybridPhase} :
    Unresolved phase ↔ ¬(phase = .resolved ∨ phase = .closed) := by
  unfold Unresolved
  cases phase <;> decide

/-- **What is planned passes.** -/
theorem plannedAction_passes {clock : Clock} (hI : Inv rt s) (hP : Proposable s)
    (hkey : s.proposalKey rt ≠ Pubkey.default) (hdigest : ∀ data, rt.sha256 data ≠ zeroBytes)
    {i : Instruction}
    (h : (plannedAction (observed s) clock.unixTimestamp).instruction = some i) :
    Passes rt s clock i := by
  have hdigests : TimeoutDigests rt s := ⟨hdigest _, fun p _ => ⟨hdigest _, hdigest _⟩⟩
  unfold plannedAction at h
  by_cases hdone : (observed s).phase = .resolved ∨ (observed s).phase = .closed
  · rw [if_pos hdone] at h
    cases h
  rw [if_neg hdone] at h
  have hu : Unresolved s.market.phase := unresolved_iff.mpr hdone
  by_cases hlate : (observed s).resolutionDeadlineTs < clock.unixTimestamp
  · rw [if_pos hlate] at h
    obtain ⟨j, -, hj, hpasses⟩ := lateAction_passes hI hP hkey hdigests hlate hu
    obtain rfl := Option.some.inj (h.symm.trans hj)
    exact hpasses
  rw [if_neg hlate] at h
  by_cases hearly : clock.unixTimestamp < (observed s).lockTs
  · rw [if_pos hearly] at h
    cases h
  rw [if_neg hearly] at h
  by_cases hwaiting : clock.unixTimestamp < (observed s).resolveNotBeforeTs
  · rw [if_pos hwaiting] at h
    split at h
    · next hopen =>
      cases h
      have hphase : s.market.phase = .open := hopen
      have hlock : s.market.lockTs ≤ clock.unixTimestamp := Int.not_lt.mp hearly
      refine ⟨{ s with market := { s.market with phase := .locked } }, ?_⟩
      simp only [execute, lockHybridMarket, check_pos hphase, check_pos hlock, ok_bind]
    · cases h
  rw [if_neg hwaiting] at h
  exact readyAction_passes hI hP hkey hdigest (Int.not_lt.mp hwaiting) (Int.not_lt.mp hlate) h

/-- The planner of hybrid markets at a state and a moment. -/
structure HybridRefines (rt : Runtime) (s : HybridState) (clock : Clock) : Prop where
  /-- It answers exactly when every timestamp is a non-negative safe integer. -/
  answers : (∃ action, hybridKeeperAction s clock.unixTimestamp = .ok action) ↔
    Readable s clock.unixTimestamp
  passes : ∀ action i, hybridKeeperAction s clock.unixTimestamp = .ok action →
    action.instruction = some i → Passes rt s clock i
  /-- After the deadline it names the one timeout that is enabled. -/
  late : Unresolved s.market.phase → s.market.resolutionDeadlineTs < clock.unixTimestamp →
    ∃ action, hybridKeeperAction s clock.unixTimestamp = .ok action ∧
      ∃ i ∈ timeouts, action.instruction = some i ∧ ∀ j ∈ timeouts, Passes rt s clock j ↔ j = i

theorem hybridRefines (hreach : Reachable rt s) (hopen : 0 ≤ s.market.openTs)
    (hkey : s.proposalKey rt ≠ Pubkey.default) (hdigest : ∀ data, rt.sha256 data ≠ zeroBytes)
    {clock : Clock} (hnow : isSafeInteger clock.unixTimestamp = true) :
    HybridRefines rt s clock := by
  have hI := inv_reachable hreach
  have hP := proposable_reachable hreach
  constructor
  case answers =>
    constructor
    · rintro ⟨action, h⟩
      exact readable_of_ok h
    · intro h
      exact ⟨_, h.hybridKeeperAction hI hP⟩
  case passes =>
    intro action i h hi
    have hplanned := (readable_of_ok h).hybridKeeperAction hI hP
    obtain rfl := Except.ok.inj (hplanned.symm.trans h)
    exact plannedAction_passes hI hP hkey hdigest hi
  case late =>
    intro hu hlate
    have hreadable := readable_of_late hreach hopen hnow hlate
    have hdigests : TimeoutDigests rt s := ⟨hdigest _, fun p _ => ⟨hdigest _, hdigest _⟩⟩
    obtain ⟨i, hi, haction, hpasses⟩ := lateAction_passes hI hP hkey hdigests hlate hu
    have hplanned : plannedAction (observed s) clock.unixTimestamp = lateAction (observed s) := by
      have hopen : ¬((observed s).phase = .resolved ∨ (observed s).phase = .closed) :=
        unresolved_iff.mp hu
      have hpast : (observed s).resolutionDeadlineTs < clock.unixTimestamp := hlate
      rw [plannedAction, if_neg hopen, if_pos hpast]
    refine ⟨_, hreadable.hybridKeeperAction hI hP, i, hi, by rw [hplanned]; exact haction, ?_⟩
    exact timeout_unique hI hkey hdigests hlate hu hi hpasses

/-! ## Private markets -/

/-- What the planner is given of a private market. -/
def indexed (s : PrivatePool.PrivateState) : IndexedMarket where
  phase := s.market.phase
  lockTs := s.market.lockTs
  batchDeadlineTs := s.market.batchDeadlineTs
  resolutionDeadlineTs := s.market.resolutionDeadlineTs

/-- The planner of private markets at a state and a moment. -/
structure PrivateRefines (rt : PrivateRuntime) (s : PrivatePool.PrivateState) (now : Int) :
    Prop where
  /-- It opens the refunds exactly when the program does. -/
  refunds : planKeeperAction (indexed s) now = .beginRefund ↔
    ∃ s', PrivatePool.execute rt s now .beginRefund = .ok s'
  /-- A pass of the keeper answers what the planner does. -/
  answers : ∀ action, keeperAction s now = .ok action → action = planKeeperAction (indexed s) now

theorem planKeeperAction_beginRefund {market : IndexedMarket} :
    planKeeperAction market now = .beginRefund ↔
      (market.phase = .open ∧ market.batchDeadlineTs < now) ∨
        (market.phase = .batched ∧ market.resolutionDeadlineTs < now) := by
  unfold planKeeperAction
  cases market.phase
  case «open» =>
    by_cases hlate : market.batchDeadlineTs < now
    · simp [hlate]
    · by_cases hlock : market.lockTs ≤ now <;> simp [hlate, hlock]
  case batched =>
    by_cases hlate : market.resolutionDeadlineTs < now <;> simp [hlate]
  all_goals simp

theorem timedOut_iff {market : Market} : PrivatePool.timedOut market now ↔
    (market.phase = .open ∧ market.batchDeadlineTs < now) ∨
      (market.phase = .batched ∧ market.resolutionDeadlineTs < now) := by
  unfold PrivatePool.timedOut
  cases market.phase <;> simp

theorem privateRefines (rt : PrivateRuntime) (s : PrivatePool.PrivateState) (now : Int) :
    PrivateRefines rt s now := by
  constructor
  case refunds =>
    have hphase : (planKeeperAction (indexed s) now = .beginRefund) ↔
        PrivatePool.timedOut s.market now :=
      planKeeperAction_beginRefund.trans timedOut_iff.symm
    rw [hphase]
    constructor
    · intro htimedOut
      simp only [PrivatePool.execute, PrivatePool.beginRefund, check_pos htimedOut, ok_bind]
      exact ⟨_, rfl⟩
    · rintro ⟨s', hs'⟩
      exact (PrivatePool.beginRefund_ok hs').1
  case answers =>
    intro action h
    simp only [keeperAction, bind_eq_ok, toNumber_eq_ok, Except.ok.injEq] at h
    obtain ⟨_, ⟨-, rfl⟩, _, ⟨-, rfl⟩, _, ⟨-, rfl⟩, rfl⟩ := h
    rfl

/-- **The planners refine the program.** Whatever the hybrid planner plans for a reachable market
passes, and after the deadline it plans the one timeout there is; the private planner opens refunds
exactly when the program does. -/
theorem planners_refine (hreach : Reachable rt s) (hopen : 0 ≤ s.market.openTs)
    (hkey : s.proposalKey rt ≠ Pubkey.default) (hdigest : ∀ data, rt.sha256 data ≠ zeroBytes)
    (clock : Clock) (hnow : isSafeInteger clock.unixTimestamp = true) (prt : PrivateRuntime)
    (ps : PrivatePool.PrivateState) (now : Int) :
    HybridRefines rt s clock ∧ PrivateRefines prt ps now :=
  ⟨hybridRefines hreach hopen hkey hdigest hnow, privateRefines prt ps now⟩

/-- One second after their deadlines the keepers invalidate the one sample market and open the
refunds of the other. -/
theorem planners_refine_sample : ∃ (s : HybridState) (ps : PrivatePool.PrivateState),
    hybridKeeperAction s 100001 = .ok .resolveTimeout ∧
      Passes Hybrid.Sample.runtime s { slot := 0, unixTimestamp := 100001 } .resolveHybridTimeout ∧
      planKeeperAction (indexed ps) 2001 = .beginRefund ∧
      ∃ ps', PrivatePool.beginRefund ps 2001 = .ok ps' := by
  have hvalue : (Hybrid.Sample.created >>= fun init =>
      executeAll Hybrid.Sample.runtime init []).toOption.map
        (fun s => (s.market.openTs, (hybridKeeperAction s 100001).toOption)) =
      some (0, some .resolveTimeout) := by
    decide +kernel
  have hprivate : PrivatePool.Sample.created.toOption.map
      (fun ps => planKeeperAction (indexed ps) 2001) = some .beginRefund := by
    decide +kernel
  obtain ⟨init, s, hinit, hs, hfields⟩ := executeAll_of_map hvalue
  cases hs
  obtain ⟨hopen, haction⟩ := Prod.mk.inj hfields
  obtain ⟨ps, -, hrefund⟩ := Option.map_eq_some_iff.mp hprivate
  rw [toOption_eq_some] at haction
  have hreach : Reachable Hybrid.Sample.runtime init :=
    ⟨_, _, init, Hybrid.Sample.created_of_ok hinit, _, .nil _⟩
  obtain ⟨hhybrid, hrefines⟩ := planners_refine hreach (le_of_eq hopen.symm)
    (Hybrid.Sample.findProgramAddress_ne_default _ _)
    (fun _ => show Hybrid.Sample.timeoutDigest ≠ zeroBytes by decide)
    { slot := 0, unixTimestamp := 100001 } (by decide)
    (PrivatePool.Sample.runtime (fun x _ => x) fun _ _ => true) ps 2001
  exact ⟨init, ps, haction, hhybrid.passes _ _ haction rfl, hrefund, hrefines.refunds.mp hrefund⟩

end Nortia.Services
