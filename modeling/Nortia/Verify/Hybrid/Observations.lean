import Nortia.Verify.Hybrid.Invariant

/-!
# When a source can attest an observation

`InTime` is the condition on a configuration and a deadline under which some observation of its
source passes every check in time. This module has one direction: whatever a resolution accepts
meets the condition.
-/

namespace Nortia.Hybrid

open Lib

/-! ## The condition -/

/-- The part of a configuration its creation fixes for good. -/
def configured (oracle : OracleConfig) : OracleConfigArgs where
  resolver := oracle.resolver
  sourceProgram := oracle.sourceProgram
  sourceQueue := oracle.sourceQueue
  sourceId := oracle.sourceId
  comparator := oracle.comparator
  threshold := oracle.threshold
  thresholdExponent := oracle.thresholdExponent
  observationTs := oracle.observationTs
  observationWindowSecs := oracle.observationWindowSecs
  maxStalenessSecs := oracle.maxStalenessSecs
  maxStalenessSlots := oracle.maxStalenessSlots
  maxConfidenceBps := oracle.maxConfidenceBps
  minSamples := oracle.minSamples
  challengePeriodSecs := oracle.challengePeriodSecs
  bondAmount := oracle.bondAmount
  configHash := oracle.configHash

/-- The last second a Stork feed expresses: its time is 64 bits of nanoseconds. -/
def lastStorkSecond : Int := 18446744073

/-- The last second a TxLINE payload expresses: its times are signed milliseconds. -/
def lastTxlineSecond : Int := 9223372036854775

/-- Some second from the epoch on lies in the observation window, is not stale, and comes neither
after the deadline nor after the last second the source expresses. -/
def Reportable (args : OracleConfigArgs) (deadline last : Int) : Prop :=
  max args.observationTs 0 ≤ min (args.observationTs + args.observationWindowSecs)
    (min (args.observationTs + args.maxStalenessSecs) (min deadline last))

/-- The strict comparison that replaces a `≥` or a `≤` has a threshold of its own. -/
def Expressible (args : OracleConfigArgs) : Prop :=
  (args.comparator = .greaterThanOrEqual → args.threshold ≠ i32Min) ∧
    (args.comparator = .lessThanOrEqual → args.threshold ≠ i32Max)

/-- The source of a configuration can attest an observation the program accepts in time. -/
def InTime (args : OracleConfigArgs) (deadline : Int) : Prop :=
  args.observationTs + args.observationWindowSecs ≤ i64Max ∧
    match args.resolver with
    | .pythPrice | .switchboardQuote => args.observationTs ≤ deadline
    | .optimistic => args.observationTs + args.challengePeriodSecs < deadline
    | .storkPrice => Reportable args deadline lastStorkSecond
    | .txlineStat => Reportable args deadline lastTxlineSecond ∧ Expressible args
    | .umaWormhole | .chainlinkReport => False

/-! ## Well-formed observations -/

/-- TxLINE's own reading of a predicate. -/
def holdsFor (predicate : Txline.TraderPredicate) (value : Int) : Bool :=
  match predicate.comparison with
  | .greaterThan => predicate.threshold < value
  | .lessThan => value < predicate.threshold
  | .equalTo => value = predicate.threshold

def statValue (payload : Txline.StatValidationInput) (index : Nat) : Int :=
  ((payload.stats[index]?).map fun leaf => leaf.stat.value).getD 0

def statHolds (payload : Txline.StatValidationInput) : Txline.StatPredicate → Bool
  | .single index predicate => holdsFor predicate (statValue payload index)
  | .binary indexA indexB .add predicate =>
    holdsFor predicate (statValue payload indexA + statValue payload indexB)
  | .binary indexA indexB .subtract predicate =>
    holdsFor predicate (statValue payload indexA - statValue payload indexB)

/-- TxLINE attesting a payload: it answers whether the strategy holds of it. -/
def attestingTxline : Txline.TxlineProgram := fun payload strategy =>
  some (some (txlineProgramId,
    [if strategy.discretePredicates.all (statHolds payload) then 1 else 0]))

/-- The widths of a payload's times. -/
structure PayloadTyped (payload : Txline.StatValidationInput) : Prop where
  ts : i64Min ≤ payload.ts ∧ payload.ts ≤ i64Max
  minTimestamp : i64Min ≤ payload.fixtureSummary.updateStats.minTimestamp ∧
    payload.fixtureSummary.updateStats.minTimestamp ≤ i64Max
  maxTimestamp : i64Min ≤ payload.fixtureSummary.updateStats.maxTimestamp ∧
    payload.fixtureSummary.updateStats.maxTimestamp ≤ i64Max

/-- An event real programs and a real clock can produce. -/
def WellFormed : Event → Prop
  | .call instruction clock => i64Min ≤ clock.unixTimestamp ∧ clock.unixTimestamp ≤ i64Max ∧
    match instruction with
    | .resolveHybridWithTxline accounts =>
      PayloadTyped accounts.payload ∧ accounts.txline = attestingTxline
    | _ => True
  | _ => True

/-! ## Accepted observations -/

section Accepted

variable {rt : Runtime} {oracle : OracleConfig} {clock : Clock}

theorem validatePythAccount_time {priceUpdate : AccountInfo}
    {validated : Oracles.ValidatedPythUpdate}
    (h : Oracles.validatePythAccount rt priceUpdate oracle clock = .ok validated) :
    oracle.observationTs + oracle.observationWindowSecs ≤ i64Max ∧
      oracle.observationTs ≤ clock.unixTimestamp := by
  simp only [Oracles.validatePythAccount, Oracles.validatePythObservation, bind_eq_ok,
    check_eq_ok, orFail_eq_ok, checkedAddInt_eq_some] at h
  obtain ⟨-, -, -, -, update, -, _, ⟨-, -, -, -, price, -, _, ⟨⟨-, hwindow⟩, -⟩, -,
    ⟨-, hfrom, -, hnow⟩, -⟩, -⟩ := h
  exact ⟨hwindow, hfrom.trans hnow⟩

theorem validateSwitchboardAccount_time {quoteAccount : AccountInfo}
    {observation : NormalizedObservation}
    (h : Switchboard.validateSwitchboardAccount rt quoteAccount oracle clock = .ok observation) :
    oracle.observationTs + oracle.observationWindowSecs ≤ i64Max ∧
      oracle.observationTs ≤ clock.unixTimestamp := by
  simp only [Switchboard.validateSwitchboardAccount, Switchboard.validateSwitchboardQuote,
    bind_eq_ok, check_eq_ok, orFail_eq_ok, okOr_eq_ok, checkedAddInt_eq_some] at h
  obtain ⟨-, -, -, -, -, -, -, -, -, -, _, -, -, -, _, -, quote, -, -, -, _, -, -, -, ⟨⟩, -, feed, -,
    -, -, -, -, _, ⟨⟨-, hwindow⟩, -⟩, -, ⟨hfrom, -⟩, -⟩ := h
  exact ⟨hwindow, hfrom⟩

theorem validateStorkAccount_time {feedAccount : AccountInfo} {deadline : Int}
    {observation : NormalizedObservation} (hnow : clock.unixTimestamp ≤ deadline)
    (h : Stork.validateStorkAccount rt feedAccount oracle clock = .ok observation) :
    oracle.observationTs + oracle.observationWindowSecs ≤ i64Max ∧
      Reportable (configured oracle) deadline lastStorkSecond := by
  simp only [Stork.validateStorkAccount, bind_eq_ok, check_eq_ok, orFail_eq_ok,
    checkedAddInt_eq_some, checkedSubInt_eq_some, Option.mem_def] at h
  obtain ⟨-, -, -, -, -, -, -, ⟨hlength, -⟩, -, -, _, ⟨⟨-, hwindow⟩, rfl⟩, -,
    ⟨hfrom, hto, hpast, _, ⟨-, rfl⟩, hfresh⟩, -⟩ := h
  -- eight bytes hold the nanoseconds
  have hslice : (Stork.slice feedAccount.data 40 48).length ≤ 8 := by
    simp only [Stork.slice, List.length_take]
    omega
  have hnanos := ofLeBytes_lt (Stork.slice feedAccount.data 40 48)
  have hbytes : 256 ^ (Stork.slice feedAccount.data 40 48).length ≤ 256 ^ 8 :=
    Nat.pow_le_pow_right (by decide) hslice
  refine ⟨hwindow, ?_⟩
  simp only [Reportable, configured, lastStorkSecond, Stork.nanosPerSecond] at *
  omega

theorem strategyPredicate_expressible {comparator : ValueComparator} {threshold : Int}
    {predicate : Txline.TraderPredicate}
    (h : Txline.strategyPredicate threshold comparator = .ok predicate) :
    (comparator = .greaterThanOrEqual → threshold ≠ i32Min) ∧
      (comparator = .lessThanOrEqual → threshold ≠ i32Max) := by
  cases comparator with
  | greaterThanOrEqual =>
    simp only [Txline.strategyPredicate, bind_eq_ok, orFail_eq_ok, checkedSubInt_eq_some] at h
    obtain ⟨_, ⟨⟨hlow, -⟩, -⟩, -⟩ := h
    exact ⟨fun _ => by omega, by simp⟩
  | lessThanOrEqual =>
    simp only [Txline.strategyPredicate, bind_eq_ok, orFail_eq_ok, checkedAddInt_eq_some] at h
    obtain ⟨_, ⟨⟨-, hhigh⟩, -⟩, -⟩ := h
    exact ⟨by simp, fun _ => by omega⟩
  | greaterThan => exact ⟨by simp, by simp⟩
  | lessThan => exact ⟨by simp, by simp⟩
  | equal => exact ⟨by simp, by simp⟩

theorem resolveHybridTotalGoals_time {market : HybridMarket}
    {payload : Txline.StatValidationInput} {dailyRoot txlineProgram : AccountInfo}
    {txline : Txline.TxlineProgram} {now deadline : Int} {observation : NormalizedObservation}
    (hpayload : PayloadTyped payload) (hnow : now ≤ deadline)
    (h : Txline.resolveHybridTotalGoals rt market oracle payload dailyRoot txlineProgram txline now
      = .ok observation) :
    oracle.observationTs + oracle.observationWindowSecs ≤ i64Max ∧
      Reportable (configured oracle) deadline lastTxlineSecond ∧
      Expressible (configured oracle) := by
  simp only [Txline.resolveHybridTotalGoals, Txline.validateHybridPayload,
    Txline.totalGoalsStrategy, Txline.dailyScoresRoot, bind_eq_ok, check_eq_ok, orFail_eq_ok,
    okOr_eq_ok, checkedAddInt_eq_some, checkedSubInt_eq_some] at h
  obtain ⟨-, -, -, -, -, -, -, -, ⟨⟩, ⟨_, -, -, -, -, -, -, ⟨-, horder, hts⟩, leafA, -, leafB, -, -,
    -, _, ⟨⟨-, hwindow⟩, rfl⟩, _, ⟨-, rfl⟩, -, ⟨hfrom, hto, hpast, hfresh⟩, _,
    ⟨-, ⟨hday, -⟩, -⟩, -⟩, -, -, strategy, ⟨predicate, hpredicate, -⟩, -⟩ := h
  refine ⟨hwindow, ?_, strategyPredicate_expressible hpredicate⟩
  -- the first update is not before the epoch, so neither is the last
  have hmax : _ ≤ (9223372036854775807 : Int) := hpayload.maxTimestamp.2
  simp only [Reportable, configured, lastTxlineSecond, millisPerDay] at *
  omega

end Accepted

theorem finalizeWith_proposal {s s' : HybridState} {args : FinalizeHybridResolutionArgs}
    (h : finalizeWith s args = .ok s') : s'.proposal = s.proposal := by
  simp only [finalizeWith, bind_eq_ok, Except.ok.injEq] at h
  obtain ⟨done, -, rfl⟩ := h
  rfl

/-- Without a proposal, a resolution to YES or NO is one of an oracle in time. -/
theorem resolution_inTime {rt : Runtime} {s s' : HybridState} {instruction : Instruction}
    {clock : Clock} (hkind : instruction.isResolution = true)
    (hformed : WellFormed (.call instruction clock)) (hno : s.proposal = none)
    (h : execute rt s clock instruction = .ok s') :
    s'.proposal = none ∧ (s'.market.outcome = HybridMarket.outcomeYes ∨
      s'.market.outcome = HybridMarket.outcomeNo → s.oracle.resolver ≠ .optimistic ∧
        InTime (configured s.oracle) s.market.resolutionDeadlineTs) := by
  obtain ⟨-, -, hpayload⟩ := hformed
  cases instruction with
  | resolveHybridWithPyth priceUpdate =>
    simp only [execute, resolveHybridWithPyth, bind_eq_ok, resolverAccounts_ok] at h
    obtain ⟨-, ⟨hresolver, -⟩, validated, hvalidated, h⟩ := h
    obtain ⟨hwindow, hfrom⟩ := validatePythAccount_time hvalidated
    have htime := (checkResolutionTime_false.mp (finalizeWith_ok rfl h).ready.time).1
    refine ⟨(finalizeWith_proposal h).trans hno, fun _ => ⟨by rw [hresolver]; decide, hwindow, ?_⟩⟩
    simp only [configured, hresolver]
    exact hfrom.trans htime
  | resolveHybridWithStork feedAccount =>
    simp only [execute, resolveHybridWithStork, bind_eq_ok, resolverAccounts_ok] at h
    obtain ⟨-, ⟨hresolver, -⟩, observation, hobservation, h⟩ := h
    have htime := (checkResolutionTime_false.mp (finalizeWith_ok rfl h).ready.time).1
    obtain ⟨hwindow, hreportable⟩ := validateStorkAccount_time htime hobservation
    refine ⟨(finalizeWith_proposal h).trans hno, fun _ => ⟨by rw [hresolver]; decide, hwindow, ?_⟩⟩
    simp only [configured, hresolver]
    exact hreportable
  | resolveHybridWithTxline accounts =>
    simp only [execute, resolveHybridWithTxline, bind_eq_ok, resolverAccounts_ok] at h
    obtain ⟨-, ⟨hresolver, -⟩, observation, hobservation, h⟩ := h
    have htime := (checkResolutionTime_false.mp (finalizeWith_ok rfl h).ready.time).1
    obtain ⟨hwindow, hreportable⟩ := resolveHybridTotalGoals_time hpayload.1 htime hobservation
    refine ⟨(finalizeWith_proposal h).trans hno, fun _ => ⟨by rw [hresolver]; decide, hwindow, ?_⟩⟩
    simp only [configured, hresolver]
    exact hreportable
  | resolveHybridWithSwitchboard quoteAccount =>
    simp only [execute, resolveHybridWithSwitchboard, bind_eq_ok, resolverAccounts_ok] at h
    obtain ⟨-, ⟨hresolver, -⟩, observation, hobservation, h⟩ := h
    obtain ⟨hwindow, hfrom⟩ := validateSwitchboardAccount_time hobservation
    have htime := (checkResolutionTime_false.mp (finalizeWith_ok rfl h).ready.time).1
    refine ⟨(finalizeWith_proposal h).trans hno, fun _ => ⟨by rw [hresolver]; decide, hwindow, ?_⟩⟩
    simp only [configured, hresolver]
    exact hfrom.trans htime
  | finalizeOptimisticResolution =>
    simp only [execute, finalizeOptimisticResolution, bind_eq_ok, proposalAccounts_ok] at h
    obtain ⟨p, ⟨-, -, hp⟩, -⟩ := h
    rw [hno] at hp
    cases hp
  | arbitrateOptimisticResolution protocol remainingAccounts args =>
    simp only [execute, arbitrateOptimisticResolution, bind_eq_ok, proposalAccounts_ok] at h
    obtain ⟨-, -, p, ⟨-, -, hp⟩, -⟩ := h
    rw [hno] at hp
    cases hp
  | timeoutOptimisticDispute =>
    simp only [execute, timeoutOptimisticDispute, bind_eq_ok, proposalAccounts_ok] at h
    obtain ⟨p, ⟨-, -, hp⟩, -⟩ := h
    rw [hno] at hp
    cases hp
  | resolveHybridTimeout =>
    simp only [execute, resolveHybridTimeout, bind_eq_ok] at h
    obtain ⟨-, -, -, -, h⟩ := h
    refine ⟨(finalizeWith_proposal h).trans hno, fun hyesno => ?_⟩
    -- a timeout's outcome is INVALID
    obtain ⟨_, hmarket⟩ := (finalizeWith_ok rfl h).market
    rw [hmarket] at hyesno
    rcases hyesno with h | h <;> cases h
  | _ => cases hkind

end Nortia.Hybrid
