import Nortia.Verify.Hybrid.Observations
import Nortia.Verify.Oracles

/-!
# The TxLINE strategy and the configured comparison

TxLINE knows three strict comparisons of integers, the program five comparisons of decimals. The
strategy shifts the threshold by one for the two that are not strict, which fails at the ends of
`i32` alone. Everywhere else the two agree on every total.
-/

namespace Nortia.Hybrid

open Lib

/-! ## The strategy -/

/-- What a comparator says of two integers. -/
def relates (comparator : ValueComparator) (total threshold : Int) : Bool :=
  match comparator with
  | .greaterThan => threshold < total
  | .greaterThanOrEqual => threshold ≤ total
  | .lessThan => total < threshold
  | .lessThanOrEqual => total ≤ threshold
  | .equal => total = threshold

/-- The strategy over the sum of the two stats. -/
def sumStrategy (predicate : Txline.TraderPredicate) : Txline.NDimensionalStrategy where
  geometricTargets := []
  distancePredicate := none
  discretePredicates := [.binary 0 1 .add predicate]

section Strategy

variable {args : OracleConfigArgs}

/-- **The predicate of the strategy is the comparator**, on every integer. -/
theorem strategyPredicate_ok (hrange : i32Min ≤ args.threshold ∧ args.threshold ≤ i32Max)
    (h : Expressible args) :
    ∃ predicate, Txline.strategyPredicate args.threshold args.comparator = .ok predicate ∧
      (i32Min ≤ predicate.threshold ∧ predicate.threshold ≤ i32Max) ∧
      ∀ total, holdsFor predicate total = relates args.comparator total args.threshold := by
  obtain ⟨hlow, hhigh⟩ := hrange
  obtain ⟨hmin, hmax⟩ := h
  generalize args.threshold = threshold at *
  generalize args.comparator = comparator at *
  cases comparator with
  | greaterThan => exact ⟨_, rfl, ⟨hlow, hhigh⟩, fun total => rfl⟩
  | greaterThanOrEqual =>
    have hmin := hmin rfl
    have hsub : checkedSubInt i32Min i32Max threshold 1 = some (threshold - 1) :=
      checkedSubInt_eq_some.mpr ⟨⟨by omega, by omega⟩, rfl⟩
    refine ⟨⟨threshold - 1, .greaterThan⟩, ?_, ⟨?_, ?_⟩, fun total => ?_⟩
    · rw [Txline.strategyPredicate, hsub]
      rfl
    · show i32Min ≤ threshold - 1
      omega
    · show threshold - 1 ≤ i32Max
      omega
    · rw [Bool.eq_iff_iff]
      simp only [holdsFor, relates, decide_eq_true_eq]
      omega
  | lessThan => exact ⟨_, rfl, ⟨hlow, hhigh⟩, fun total => rfl⟩
  | lessThanOrEqual =>
    have hmax := hmax rfl
    have hadd : checkedAddInt i32Min i32Max threshold 1 = some (threshold + 1) :=
      checkedAddInt_eq_some.mpr ⟨⟨by omega, by omega⟩, rfl⟩
    refine ⟨⟨threshold + 1, .lessThan⟩, ?_, ⟨?_, ?_⟩, fun total => ?_⟩
    · rw [Txline.strategyPredicate, hadd]
      rfl
    · show i32Min ≤ threshold + 1
      omega
    · show threshold + 1 ≤ i32Max
      omega
    · rw [Bool.eq_iff_iff]
      simp only [holdsFor, relates, decide_eq_true_eq]
      omega
  | equal => exact ⟨_, rfl, ⟨hlow, hhigh⟩, fun total => rfl⟩

/-- At the two ends of `i32` the shift is refused. -/
theorem strategyPredicate_error (h : ¬Expressible args) :
    Txline.strategyPredicate args.threshold args.comparator =
      .error (.nortia .invalidOracleConfiguration) := by
  have hends : (args.comparator = .greaterThanOrEqual ∧ args.threshold = i32Min) ∨
      (args.comparator = .lessThanOrEqual ∧ args.threshold = i32Max) := by
    by_contra hnone
    rw [not_or, not_and, not_and] at hnone
    exact h hnone
  rcases hends with ⟨hcomparator, hthreshold⟩ | ⟨hcomparator, hthreshold⟩
  · rw [hcomparator, hthreshold]
    rfl
  · rw [hcomparator, hthreshold]
    rfl

end Strategy

/-- On integers the comparison of decimals is that of integers. -/
theorem compareValues_integer {total threshold : Int}
    (htotal : i128Min ≤ total ∧ total ≤ i128Max)
    (hthreshold : i128Min ≤ threshold ∧ threshold ≤ i128Max) (comparator : ValueComparator) :
    Oracles.compareValues total 0 threshold 0 comparator =
      .ok (relates comparator total threshold) := by
  have hexponent : -18 ≤ (0 : Int) ∧ (0 : Int) ≤ 18 := by decide
  obtain ⟨answer, hanswer, hrelates⟩ :=
    Oracles.compareValues_exact htotal hthreshold hexponent hexponent comparator
  rw [hanswer, Except.ok.injEq, Bool.eq_iff_iff, hrelates, zpow_zero, mul_one, mul_one]
  cases comparator with
  | greaterThan => simp only [Oracles.Relates, relates, Int.cast_lt, decide_eq_true_eq]
  | greaterThanOrEqual => simp only [Oracles.Relates, relates, Int.cast_le, decide_eq_true_eq]
  | lessThan => simp only [Oracles.Relates, relates, Int.cast_lt, decide_eq_true_eq]
  | lessThanOrEqual => simp only [Oracles.Relates, relates, Int.cast_le, decide_eq_true_eq]
  | equal => simp only [Oracles.Relates, relates, Int.cast_inj, decide_eq_true_eq]

/-! ## The resolution -/

/-- TxLINE's program answers for a payload whether a predicate holds of its exact sum. -/
def EvaluatesSum (txline : Txline.TxlineProgram) (payload : Txline.StatValidationInput) : Prop :=
  ∀ predicate, txline payload (sumStrategy predicate) = some (some (txlineProgramId,
    [if holdsFor predicate (statValue payload 0 + statValue payload 1) then 1 else 0]))

/-- Scores are `i32`. -/
def ScoresFit (payload : Txline.StatValidationInput) : Prop :=
  ∀ leaf ∈ payload.stats, i32Min ≤ leaf.stat.value ∧ leaf.stat.value ≤ i32Max

theorem invokeStatValidation_ok {txline : Txline.TxlineProgram}
    {payload : Txline.StatValidationInput} (h : EvaluatesSum txline payload)
    (predicate : Txline.TraderPredicate) :
    Txline.invokeStatValidation txline payload (sumStrategy predicate) =
      .ok (holdsFor predicate (statValue payload 0 + statValue payload 1)) := by
  simp only [Txline.invokeStatValidation, h predicate, bind_eq_ok, okOr_eq_ok, orFail_eq_ok,
    check_eq_ok]
  refine ⟨_, rfl, _, rfl, (), rfl, ?_⟩
  cases holdsFor predicate (statValue payload 0 + statValue payload 1) <;> rfl

/-- What the checks before the strategy let through. -/
structure ReachesStrategy (rt : Runtime) (market : HybridMarket) (oracle : OracleConfig)
    (payload : Txline.StatValidationInput) (dailyRoot txlineProgram : AccountInfo) (now : Int) :
    Prop where
  category : market.category = .sports
  program : txlineProgram.key = txlineProgramId ∧ txlineProgram.executable = true
  owner : dailyRoot.owner = txlineProgramId
  payload : Txline.validateHybridPayload rt oracle payload dailyRoot.key now = .ok ()

theorem stats_of_validateHybridPayload {rt : Runtime} {oracle : OracleConfig}
    {payload : Txline.StatValidationInput} {dailyRoot : Pubkey} {now : Int}
    (h : Txline.validateHybridPayload rt oracle payload dailyRoot now = .ok ()) :
    ∃ leafA leafB, payload.stats = [leafA, leafB] ∧ 0 ≤ leafA.stat.value ∧
      0 ≤ leafB.stat.value := by
  simp only [Txline.validateHybridPayload, bind_eq_ok, check_eq_ok, orFail_eq_ok, okOr_eq_ok] at h
  obtain ⟨-, -, -, -, -, hlength, -, -, leafA, hleafA, leafB, hleafB, -,
    ⟨-, -, -, -, hscoreA, hscoreB⟩, -⟩ := h
  obtain ⟨first, second, hstats⟩ := List.length_eq_two.mp hlength
  rw [hstats] at hleafA hleafB
  cases hleafA
  cases hleafB
  exact ⟨leafA, leafB, hstats, hscoreA, hscoreB⟩

/-- **TxLINE resolution agrees with the configured comparison.** Under an accepted configuration
whose strict threshold exists, the strategy is built, its predicate is the configured comparison on
every total of scores, and whatever passes the checks before is resolved to the side the comparison
gives. Without such a threshold the strategy is refused. -/
theorem total_goals_agree {category : MarketCategory} {args : OracleConfigArgs}
    {resolveNotBeforeTs : Int}
    (hconfig : validateOracleConfig category args resolveNotBeforeTs = .ok ())
    (hresolver : args.resolver = .txlineStat) :
    (¬Expressible args → Txline.totalGoalsStrategy args.threshold args.comparator =
      .error (.nortia .invalidOracleConfiguration)) ∧
    (Expressible args → ∃ predicate,
      Txline.totalGoalsStrategy args.threshold args.comparator = .ok (sumStrategy predicate) ∧
      (i32Min ≤ predicate.threshold ∧ predicate.threshold ≤ i32Max) ∧
      (∀ a b : Int, 0 ≤ a ∧ a ≤ i32Max → 0 ≤ b ∧ b ≤ i32Max →
        Oracles.compareValues (a + b) 0 args.threshold 0 args.comparator =
          .ok (holdsFor predicate (a + b))) ∧
      ∀ (rt : Runtime) (market : HybridMarket) (key : Pubkey)
        (payload : Txline.StatValidationInput) (dailyRoot txlineProgram : AccountInfo)
        (txline : Txline.TxlineProgram) (now : Int),
        ReachesStrategy rt market (newOracleConfig key args) payload dailyRoot txlineProgram now →
        ScoresFit payload → EvaluatesSum txline payload → ∃ observation,
          Txline.resolveHybridTotalGoals rt market (newOracleConfig key args) payload dailyRoot
              txlineProgram txline now = .ok observation ∧
            observation.value = statValue payload 0 + statValue payload 1 ∧
            observation.outcome = (relates args.comparator
              (statValue payload 0 + statValue payload 1) args.threshold).toNat) := by
  simp only [validateOracleConfig, bind_eq_ok, check_eq_ok, validateResolverFields, hresolver]
    at hconfig
  obtain ⟨-, -, -, hprogram, -, -, hrange, -⟩ := hconfig
  have hwide : i128Min ≤ args.threshold ∧ args.threshold ≤ i128Max := by
    simp only [i32Min, i32Max, i128Min, i128Max] at *
    omega
  have hcompare : ∀ a b : Int, 0 ≤ a ∧ a ≤ i32Max → 0 ≤ b ∧ b ≤ i32Max →
      Oracles.compareValues (a + b) 0 args.threshold 0 args.comparator =
        .ok (relates args.comparator (a + b) args.threshold) := by
    intro a b ha hb
    refine compareValues_integer ?_ hwide args.comparator
    simp only [i32Max, i128Min, i128Max] at *
    omega
  constructor
  · intro hnot
    rw [Txline.totalGoalsStrategy, strategyPredicate_error hnot, error_bind]
  · intro hexpressible
    obtain ⟨predicate, hpredicate, hthreshold, hholds⟩ := strategyPredicate_ok hrange hexpressible
    have hstrategy : Txline.totalGoalsStrategy args.threshold args.comparator =
        .ok (sumStrategy predicate) := by
      rw [Txline.totalGoalsStrategy, hpredicate, ok_bind]
      rfl
    refine ⟨predicate, hstrategy, hthreshold, ?_, ?_⟩
    · intro a b ha hb
      rw [hcompare a b ha hb, hholds]
    · intro rt market key payload dailyRoot txlineProgram txline now hpasses hfit htxline
      obtain ⟨leafA, leafB, hstats, hscoreA, hscoreB⟩ :=
        stats_of_validateHybridPayload hpasses.payload
      obtain ⟨-, hfitA⟩ := hfit leafA (by rw [hstats]; exact List.mem_cons_self)
      obtain ⟨-, hfitB⟩ := hfit leafB
        (by rw [hstats]; exact List.mem_cons_of_mem _ List.mem_cons_self)
      have hvalues : statValue payload 0 = leafA.stat.value ∧
          statValue payload 1 = leafB.stat.value := by
        rw [statValue, statValue, hstats]
        exact ⟨rfl, rfl⟩
      have hanswer := invokeStatValidation_ok htxline predicate
      rw [hholds] at hanswer
      have hsum : checkedAddInt i128Min i128Max leafA.stat.value leafB.stat.value =
          some (leafA.stat.value + leafB.stat.value) := by
        refine checkedAddInt_eq_some.mpr ⟨?_, rfl⟩
        simp only [i32Max, i128Min, i128Max] at *
        omega
      have hagree := hcompare _ _ ⟨hscoreA, hfitA⟩ ⟨hscoreB, hfitB⟩
      rw [hvalues.1, hvalues.2] at hanswer
      rw [hvalues.1, hvalues.2]
      refine ⟨{
        outcome := (relates args.comparator (leafA.stat.value + leafB.stat.value)
          args.threshold).toNat
        value := leafA.stat.value + leafB.stat.value
        exponent := 0
        timestamp := payload.fixtureSummary.updateStats.maxTimestamp / 1000
        slot := 0
        confidence := 0
        sampleCount := 0 }, ?_, rfl, rfl⟩
      simp only [Txline.resolveHybridTotalGoals, bind_eq_ok, check_eq_ok, orFail_eq_ok, okOr_eq_ok]
      exact ⟨(), ⟨hpasses.category, hresolver, hprogram⟩, (), hpasses.program.1, (),
        hpasses.program.2, (), hpasses.owner, (), hpasses.payload, (), hrange, _, hstrategy, _,
        hanswer, leafA, by rw [hstats]; rfl, leafB, by rw [hstats]; rfl, _, hsum, _, hagree, (),
        rfl, rfl⟩

namespace Sample

def totals (comparator : ValueComparator) (threshold : Int) : OracleConfigArgs where
  resolver := .txlineStat
  sourceProgram := txlineProgramId
  sourceQueue := Pubkey.default
  sourceId := ⟨42 :: List.replicate 31 0, rfl⟩
  comparator
  threshold
  thresholdExponent := 0
  observationTs := 2000
  observationWindowSecs := 60
  maxStalenessSecs := 60
  maxStalenessSlots := 0
  maxConfidenceBps := 0
  minSamples := 0
  challengePeriodSecs := 0
  bondAmount := 0
  configHash := Bytes.fill 32 8

end Sample

/-- At least three goals: a total of three satisfies the predicate, a total of two does not. -/
theorem total_goals_agree_three : ∃ predicate,
    Txline.totalGoalsStrategy 3 .greaterThanOrEqual = .ok (sumStrategy predicate) ∧
      holdsFor predicate (2 + 1) = true ∧ holdsFor predicate (1 + 1) = false := by
  have hconfig : validateOracleConfig .sports (Sample.totals .greaterThanOrEqual 3) 2000 =
      .ok () := by
    decide +kernel
  obtain ⟨-, hagree⟩ := total_goals_agree hconfig rfl
  have hexpressible : Expressible (Sample.totals .greaterThanOrEqual 3) :=
    ⟨fun _ => (by decide : (3 : Int) ≠ i32Min), fun _ => (by decide : (3 : Int) ≠ i32Max)⟩
  obtain ⟨predicate, hstrategy, -, hcompare, -⟩ := hagree hexpressible
  have hthree := hcompare 2 1 (by decide) (by decide)
  have htwo := hcompare 1 1 (by decide) (by decide)
  exact ⟨predicate, hstrategy, Except.ok.inj (hthree.symm.trans rfl),
    Except.ok.inj (htwo.symm.trans rfl)⟩

/-- The program accepts a market on at least `i32::MIN` goals, and has no strategy for it. -/
theorem no_strategy_below_the_least_threshold :
    validateOracleConfig .sports (Sample.totals .greaterThanOrEqual i32Min) 2000 = .ok () ∧
      Txline.totalGoalsStrategy i32Min .greaterThanOrEqual =
        .error (.nortia .invalidOracleConfiguration) := by
  refine ⟨by decide +kernel, ?_⟩
  rw [Txline.totalGoalsStrategy]
  rfl

end Nortia.Hybrid
