import Nortia.Program.Oracles
import Mathlib.Algebra.Order.Field.Power
import Mathlib.Algebra.Order.Field.Rat
import Mathlib.Data.List.Chain
import Mathlib.Order.Compare
import Mathlib.Tactic.NormNum
import Mathlib.Tactic.Ring

/-!
# Observations: exact comparison, and one Pyth message for each configuration

Comparing two decimals rescales the one with the larger exponent. Where that overflows the scaled
magnitude is larger than any `i128`, so the comparison is exact on all of them. A Pyth message is
accepted only as the first one at or after the observation time, so a history has one at most.
-/

namespace Nortia.Oracles

open Lib

/-! ## Magnitudes -/

/-- The rational a decimal stands for. -/
def decimal (value exponent : Int) : ℚ := value * 10 ^ exponent

theorem compare_compares {α : Type} [LinearOrder α] (a b : α) : (compare a b).Compares a b :=
  cmp_eq_compare a b ▸ cmp_compares a b

/-- A larger exponent is a multiple by a power of ten. -/
theorem decimal_rescale (value : Int) {exponent other : Int} (h : other ≤ exponent) :
    decimal value exponent = decimal (value * 10 ^ (exponent - other).toNat) other := by
  have hsplit : exponent = (exponent - other).toNat + other := by omega
  rw [decimal, decimal]
  nth_rewrite 1 [hsplit]
  rw [zpow_add₀ (by norm_num), zpow_natCast]
  push_cast
  ring

theorem decimal_lt {a b exponent : Int} : decimal a exponent < decimal b exponent ↔ a < b := by
  have hpos : (0 : ℚ) < 10 ^ exponent := zpow_pos (by norm_num) exponent
  rw [decimal, decimal, mul_lt_mul_iff_left₀ hpos, Int.cast_lt]

theorem decimal_inj {a b exponent : Int} : decimal a exponent = decimal b exponent ↔ a = b := by
  have hne : (10 : ℚ) ^ exponent ≠ 0 := zpow_ne_zero exponent (by norm_num)
  rw [decimal, decimal, mul_left_inj' hne, Int.cast_inj]

theorem decimal_compares {a b : Int} {o : Ordering} (h : o.Compares a b) (exponent : Int) :
    o.Compares (decimal a exponent) (decimal b exponent) := by
  cases o with
  | lt => exact decimal_lt.mpr h
  | eq => exact decimal_inj.mpr h
  | gt => exact decimal_lt.mpr h

theorem compares_natCast {m n : Nat} {o : Ordering} (h : o.Compares m n) :
    o.Compares (m : Int) (n : Int) := by
  cases o with
  | lt => exact Int.ofNat_lt.mpr h
  | eq => exact congrArg Nat.cast h
  | gt => exact Int.ofNat_lt.mpr h

/-- Magnitudes that fit `u128` are compared as rationals, overflow or not. -/
theorem compareMagnitudes_compares {left right : Nat} (hleft : left ≤ u128Max)
    (hright : right ≤ u128Max) (leftExponent rightExponent : Int) :
    (compareMagnitudes left leftExponent right rightExponent).Compares
      (decimal left leftExponent) (decimal right rightExponent) := by
  have hexp := compare_compares leftExponent rightExponent
  unfold compareMagnitudes
  generalize compare leftExponent rightExponent = o at hexp
  cases o with
  | eq =>
    cases hexp
    exact decimal_compares (compares_natCast (compare_compares left right)) leftExponent
  | gt =>
    have hle : rightExponent ≤ leftExponent := le_of_lt hexp
    rw [decimal_rescale left hle]
    cases hscaled : checkedMul u128Max left (10 ^ (leftExponent - rightExponent).toNat) with
    | some normalized =>
      obtain ⟨-, rfl⟩ := checkedMul_eq_some.mp hscaled
      have hcompare := decimal_compares (compares_natCast (compare_compares
        (left * 10 ^ (leftExponent - rightExponent).toNat) right)) rightExponent
      push_cast at hcompare
      exact hcompare
    | none =>
      -- the scaled magnitude is above `u128`, the other one is not
      have hover := checkedMul_eq_none.mp hscaled
      have hlt := Int.ofNat_lt.mpr (hright.trans_lt hover)
      push_cast at hlt
      exact decimal_lt.mpr hlt
  | lt =>
    have hle : leftExponent ≤ rightExponent := le_of_lt hexp
    rw [decimal_rescale right hle]
    cases hscaled : checkedMul u128Max right (10 ^ (rightExponent - leftExponent).toNat) with
    | some normalized =>
      obtain ⟨-, rfl⟩ := checkedMul_eq_some.mp hscaled
      have hcompare := decimal_compares (compares_natCast (compare_compares
        left (right * 10 ^ (rightExponent - leftExponent).toNat))) leftExponent
      push_cast at hcompare
      exact hcompare
    | none =>
      have hover := checkedMul_eq_none.mp hscaled
      have hlt := Int.ofNat_lt.mpr (hleft.trans_lt hover)
      push_cast at hlt
      exact decimal_lt.mpr hlt

/-! ## Signed values -/

theorem decimal_neg (value exponent : Int) : decimal (-value) exponent = -decimal value exponent := by
  rw [decimal, decimal, Int.cast_neg, neg_mul]

theorem decimal_zero (exponent : Int) : decimal 0 exponent = 0 := by
  rw [decimal, Int.cast_zero, zero_mul]

theorem decimal_pos {value : Int} (h : 0 < value) (exponent : Int) : 0 < decimal value exponent := by
  rw [← decimal_zero exponent]
  exact decimal_lt.mpr h

theorem decimal_neg_of_neg {value : Int} (h : value < 0) (exponent : Int) :
    decimal value exponent < 0 := by
  rw [← decimal_zero exponent]
  exact decimal_lt.mpr h

theorem compares_neg {a b : ℚ} {o : Ordering} (h : o.Compares a b) : o.swap.Compares (-a) (-b) := by
  cases o with
  | lt => exact neg_lt_neg h
  | eq => exact congrArg Neg.neg h
  | gt => exact neg_lt_neg h

theorem natAbs_le_u128 {value : Int} (h : i128Min ≤ value ∧ value ≤ i128Max) :
    value.natAbs ≤ u128Max := by
  simp only [i128Min, i128Max, u128Max] at *
  omega

/-- **Comparison of decimals** is that of the rationals they stand for. -/
theorem compareDecimalValues_compares {left right : Int}
    (hleft : i128Min ≤ left ∧ left ≤ i128Max) (hright : i128Min ≤ right ∧ right ≤ i128Max)
    (leftExponent rightExponent : Int) :
    (compareDecimalValues left leftExponent right rightExponent).Compares
      (decimal left leftExponent) (decimal right rightExponent) := by
  have hmagnitudes := compareMagnitudes_compares (natAbs_le_u128 hleft) (natAbs_le_u128 hright)
    leftExponent rightExponent
  have hl := compare_compares left 0
  have hr := compare_compares right 0
  unfold compareDecimalValues
  generalize compare left 0 = o at hl
  generalize compare right 0 = o' at hr
  cases o with
  | lt =>
    have hneg := decimal_neg_of_neg hl leftExponent
    cases o' with
    | lt =>
      have hcompare := compares_neg hmagnitudes
      rw [← decimal_neg, ← decimal_neg, Int.ofNat_natAbs_of_nonpos (le_of_lt hl),
        Int.ofNat_natAbs_of_nonpos (le_of_lt hr), Int.neg_neg, Int.neg_neg] at hcompare
      exact hcompare
    | eq =>
      cases (show right = 0 from hr)
      rw [decimal_zero]
      exact hneg
    | gt => exact hneg.trans (decimal_pos hr rightExponent)
  | eq =>
    cases (show left = 0 from hl)
    rw [decimal_zero]
    cases o' with
    | lt => exact decimal_neg_of_neg hr rightExponent
    | eq =>
      cases (show right = 0 from hr)
      exact (decimal_zero rightExponent).symm
    | gt => exact decimal_pos hr rightExponent
  | gt =>
    have hpos := decimal_pos hl leftExponent
    cases o' with
    | lt => exact (decimal_neg_of_neg hr rightExponent).trans hpos
    | eq =>
      cases (show right = 0 from hr)
      rw [decimal_zero]
      exact hpos
    | gt =>
      rw [Int.natAbs_of_nonneg (le_of_lt hl), Int.natAbs_of_nonneg (le_of_lt hr)] at hmagnitudes
      exact hmagnitudes

/-- What a comparator says of two rationals. -/
def Relates (comparator : ValueComparator) (a b : ℚ) : Prop :=
  match comparator with
  | .greaterThan => b < a
  | .greaterThanOrEqual => b ≤ a
  | .lessThan => a < b
  | .lessThanOrEqual => a ≤ b
  | .equal => a = b

/-- **`compare_values` is exact.** On all `i128` values and all exponents it admits, the answer is
that of the comparator on the two rationals. -/
theorem compareValues_exact {left right leftExponent rightExponent : Int}
    (hleft : i128Min ≤ left ∧ left ≤ i128Max) (hright : i128Min ≤ right ∧ right ≤ i128Max)
    (hleftExponent : -18 ≤ leftExponent ∧ leftExponent ≤ 18)
    (hrightExponent : -18 ≤ rightExponent ∧ rightExponent ≤ 18) (comparator : ValueComparator) :
    ∃ answer, compareValues left leftExponent right rightExponent comparator = .ok answer ∧
      (answer = true ↔ Relates comparator (left * 10 ^ leftExponent)
        (right * 10 ^ rightExponent)) := by
  have hcompare := compareDecimalValues_compares hleft hright leftExponent rightExponent
  unfold compareValues
  rw [check_pos (And.intro hleftExponent hrightExponent), ok_bind]
  generalize compareDecimalValues left leftExponent right rightExponent = o at hcompare
  cases comparator with
  | greaterThan => exact ⟨_, rfl, decide_eq_true_iff.trans hcompare.eq_gt⟩
  | greaterThanOrEqual => exact ⟨_, rfl, decide_eq_true_iff.trans hcompare.ne_lt⟩
  | lessThan => exact ⟨_, rfl, decide_eq_true_iff.trans hcompare.eq_lt⟩
  | lessThanOrEqual => exact ⟨_, rfl, decide_eq_true_iff.trans hcompare.ne_gt⟩
  | equal => exact ⟨_, rfl, decide_eq_true_iff.trans hcompare.eq_eq⟩

/-- The smallest value against the largest, rescaled past `u128`. -/
theorem compareValues_exact_extremes :
    ∃ answer, compareValues i128Min 18 i128Max (-18) .lessThan = .ok answer ∧
      (answer = true ↔ Relates .lessThan (i128Min * 10 ^ (18 : Int)) (i128Max * 10 ^ (-18 : Int))) :=
  compareValues_exact (by decide) (by decide) (by decide) (by decide) .lessThan

/-! ## One message for each configuration -/

/-- `next` is the message a feed publishes after `message`. -/
structure Follows (message next : PriceFeedMessage) : Prop where
  publishTime : message.publishTime ≤ next.publishTime
  prevPublishTime : next.prevPublishTime = message.publishTime

/-- In a history every later message was published after every earlier one. -/
theorem prevPublishTime_of_history {message : PriceFeedMessage} {history : List PriceFeedMessage}
    (h : (message :: history).IsChain Follows) :
    ∀ later ∈ history, message.publishTime ≤ later.prevPublishTime := by
  induction history generalizing message with
  | nil => exact fun later hlater => absurd hlater List.not_mem_nil
  | cons next history ih =>
    rw [List.isChain_cons_cons] at h
    obtain ⟨hfollows, hrest⟩ := h
    intro later hlater
    rcases List.mem_cons.mp hlater with rfl | hmem
    · exact hfollows.prevPublishTime.ge
    · exact hfollows.publishTime.trans (ih hrest later hmem)

/-- Two messages of a history that bracket the same time are the same. -/
theorem bracketing_unique {history : List PriceFeedMessage} (h : history.IsChain Follows)
    {a b : PriceFeedMessage} (ha : a ∈ history) (hb : b ∈ history) {time : Int}
    (htimeA : a.prevPublishTime < time ∧ time ≤ a.publishTime)
    (htimeB : b.prevPublishTime < time ∧ time ≤ b.publishTime) : a = b := by
  induction history with
  | nil => exact absurd ha List.not_mem_nil
  | cons message history ih =>
    have hlater := prevPublishTime_of_history h
    have hrest := h.tail
    rcases List.mem_cons.mp ha with rfl | ha'
    · rcases List.mem_cons.mp hb with rfl | hb'
      · rfl
      · have := hlater b hb'
        omega
    · rcases List.mem_cons.mp hb with rfl | hb'
      · have := hlater a ha'
        omega
      · exact ih hrest ha' hb'

/-- What the checks on a message let through, and what they return. -/
theorem validatePythObservation_ok {update : PythPriceUpdate} {oracle : OracleConfig}
    {clock : Clock} {observation : NormalizedObservation}
    (h : validatePythObservation update oracle clock = .ok observation) :
    (update.priceMessage.prevPublishTime < oracle.observationTs ∧
      oracle.observationTs ≤ update.priceMessage.publishTime) ∧
    observation.value = update.priceMessage.price ∧
    observation.exponent = update.priceMessage.exponent ∧
    ∃ answer, compareValues update.priceMessage.price update.priceMessage.exponent
      oracle.threshold oracle.thresholdExponent oracle.comparator = .ok answer ∧
      observation.outcome = answer.toNat := by
  simp only [validatePythObservation, bind_eq_ok, check_eq_ok, orFail_eq_ok,
    Except.ok.injEq] at h
  obtain ⟨-, -, -, -, price, hprice, _, -, -, htimes, _, -, -, -, -, -, _, -, _, -, -, -, answer,
    hanswer, rfl⟩ := h
  simp only [getPriceUnchecked, Option.ite_none_right_eq_some, Option.some.injEq] at hprice
  obtain ⟨-, rfl⟩ := hprice
  exact ⟨⟨htimes.1, htimes.2.1⟩, rfl, rfl, answer, hanswer, rfl⟩

theorem validatePythAccount_ok {rt : Runtime} {priceUpdate : AccountInfo} {oracle : OracleConfig}
    {clock : Clock} {validated : ValidatedPythUpdate}
    (h : validatePythAccount rt priceUpdate oracle clock = .ok validated) :
    validatePythObservation validated.update oracle clock = .ok validated.observation := by
  simp only [validatePythAccount, bind_eq_ok, check_eq_ok, orFail_eq_ok, Except.ok.injEq] at h
  obtain ⟨-, -, -, -, update, -, observation, hobservation, rfl⟩ := h
  exact hobservation

/-- All messages of one history that a configuration accepts are one message. -/
theorem acceptedMessage_unique {history : List PriceFeedMessage} (h : history.IsChain Follows)
    {oracle : OracleConfig} {update update' : PythPriceUpdate} {clock clock' : Clock}
    {observation observation' : NormalizedObservation}
    (hupdate : validatePythObservation update oracle clock = .ok observation)
    (hupdate' : validatePythObservation update' oracle clock' = .ok observation')
    (hmem : update.priceMessage ∈ history) (hmem' : update'.priceMessage ∈ history) :
    update.priceMessage = update'.priceMessage := by
  obtain ⟨htime, -⟩ := validatePythObservation_ok hupdate
  obtain ⟨htime', -⟩ := validatePythObservation_ok hupdate'
  exact bracketing_unique h hmem hmem' htime htime'

/-- What is observed is a function of the message and the configuration. -/
theorem observation_eq_of_message {oracle : OracleConfig} {update update' : PythPriceUpdate}
    {clock clock' : Clock} {observation observation' : NormalizedObservation}
    (hupdate : validatePythObservation update oracle clock = .ok observation)
    (hupdate' : validatePythObservation update' oracle clock' = .ok observation')
    (hmessage : update.priceMessage = update'.priceMessage) :
    observation.value = observation'.value ∧ observation.exponent = observation'.exponent ∧
      observation.outcome = observation'.outcome := by
  obtain ⟨-, hvalue, hexponent, answer, hanswer, houtcome⟩ := validatePythObservation_ok hupdate
  obtain ⟨-, hvalue', hexponent', answer', hanswer', houtcome'⟩ :=
    validatePythObservation_ok hupdate'
  rw [hmessage, hanswer', Except.ok.injEq] at hanswer
  rw [hvalue, hvalue', hexponent, hexponent', houtcome, houtcome', hmessage, hanswer]
  exact ⟨rfl, rfl, rfl⟩

/-- **Pyth outcomes are unique.** All messages of one history that a configuration accepts, in
whatever updates and at whatever times, give the same value, exponent and outcome. -/
theorem pyth_outcome_unique {history : List PriceFeedMessage} (h : history.IsChain Follows)
    (oracle : OracleConfig) {update update' : PythPriceUpdate} {clock clock' : Clock}
    {observation observation' : NormalizedObservation}
    (hupdate : validatePythObservation update oracle clock = .ok observation)
    (hupdate' : validatePythObservation update' oracle clock' = .ok observation')
    (hmem : update.priceMessage ∈ history) (hmem' : update'.priceMessage ∈ history) :
    observation.value = observation'.value ∧ observation.exponent = observation'.exponent ∧
      observation.outcome = observation'.outcome :=
  observation_eq_of_message hupdate hupdate' (acceptedMessage_unique h hupdate hupdate' hmem hmem')

/-- The same of the accounts a submitter posts: their data decodes to an accepted update. -/
theorem validatePythAccount_unique {history : List PriceFeedMessage} (h : history.IsChain Follows)
    {rt : Runtime} {oracle : OracleConfig} {account account' : AccountInfo} {clock clock' : Clock}
    {validated validated' : ValidatedPythUpdate}
    (haccount : validatePythAccount rt account oracle clock = .ok validated)
    (haccount' : validatePythAccount rt account' oracle clock' = .ok validated')
    (hmem : validated.update.priceMessage ∈ history)
    (hmem' : validated'.update.priceMessage ∈ history) :
    validated.observation.value = validated'.observation.value ∧
      validated.observation.exponent = validated'.observation.exponent ∧
      validated.observation.outcome = validated'.observation.outcome := by
  have hupdate := validatePythAccount_ok haccount
  have hupdate' := validatePythAccount_ok haccount'
  exact observation_eq_of_message hupdate hupdate'
    (acceptedMessage_unique h hupdate hupdate' hmem hmem')

namespace Sample

def feed (publishTime prevPublishTime price : Int) : PriceFeedMessage where
  feedId := Pubkey.default
  price := price
  conf := 500000
  exponent := -6
  publishTime := publishTime
  prevPublishTime := prevPublishTime
  emaPrice := price
  emaConf := 500000

/-- A message before the observation time, two at the second after it and one later. -/
def history : List PriceFeedMessage :=
  [feed 999 998 99000000, feed 1001 999 100000000, feed 1001 1001 98000000, feed 1003 1001 97000000]

def oracle : OracleConfig where
  market := Pubkey.default
  resolver := .pythPrice
  sourceProgram := pythReceiverProgramId
  sourceQueue := Pubkey.default
  sourceId := Pubkey.default
  comparator := .greaterThanOrEqual
  threshold := 100
  thresholdExponent := 0
  observationTs := 1000
  observationWindowSecs := 30
  maxStalenessSecs := 5
  maxStalenessSlots := 0
  maxConfidenceBps := 100
  minSamples := 0
  challengePeriodSecs := 0
  bondAmount := 0
  configHash := Pubkey.default
  optimisticProposal := Pubkey.default
  consumed := false

/-- The bracketing message in the account of one submitter or another. -/
def update (writeAuthority : Pubkey) (postedSlot : Nat) : PythPriceUpdate where
  writeAuthority := writeAuthority
  verificationLevel := .full
  priceMessage := feed 1001 999 100000000
  postedSlot := postedSlot

def observation (slot : Nat) : NormalizedObservation where
  outcome := 1
  value := 100000000
  exponent := -6
  timestamp := 1001
  slot := slot
  confidence := 500000
  sampleCount := 0

theorem history_follows : history.IsChain Follows := by
  have hfirst : Follows (feed 999 998 99000000) (feed 1001 999 100000000) := ⟨by decide, rfl⟩
  have hsecond : Follows (feed 1001 999 100000000) (feed 1001 1001 98000000) := ⟨by decide, rfl⟩
  have hthird : Follows (feed 1001 1001 98000000) (feed 1003 1001 97000000) := ⟨by decide, rfl⟩
  exact .cons_cons hfirst (.cons_cons hsecond (.cons_cons hthird (.singleton _)))

/-- Any update of the bracketing message is accepted from its publication on. -/
theorem update_accepted (writeAuthority : Pubkey) (postedSlot : Nat) (clock : Clock)
    (h : 1001 ≤ clock.unixTimestamp) :
    validatePythObservation (update writeAuthority postedSlot) oracle clock =
      .ok (observation postedSlot) := by
  simp only [validatePythObservation, getPriceUnchecked, bind_eq_ok, check_eq_ok, orFail_eq_ok,
    checkedAddInt_eq_some, checkedSubInt_eq_some, checkedMul_eq_some]
  have hprev : (999 : Int) < 1000 := by decide
  refine ⟨(), ⟨rfl, .inl rfl⟩, (), rfl, feed 1001 999 100000000, if_pos rfl, _,
    ⟨⟨by decide, by decide⟩, rfl⟩, (), ⟨hprev, by decide, by decide, h⟩, _,
    ⟨⟨by decide, by decide⟩, rfl⟩, (), by decide, (), by decide, _, ⟨by decide, rfl⟩, _,
    ⟨by decide, rfl⟩, (), by decide, true, rfl, rfl⟩

end Sample

open Nortia.Oracles.Sample in
/-- Two submitters post the bracketing message at different times. -/
theorem pyth_outcome_unique_two_submitters :
    (observation 7).value = (observation 8).value ∧
      (observation 7).exponent = (observation 8).exponent ∧
      (observation 7).outcome = (observation 8).outcome := by
  have hmem : feed 1001 999 100000000 ∈ history := List.mem_cons_of_mem _ List.mem_cons_self
  have hearly := update_accepted Pubkey.default 7 ⟨7, 1001⟩ (by decide)
  have hlate := update_accepted pythReceiverProgramId 8 ⟨9, 1020⟩ (by decide)
  exact pyth_outcome_unique history_follows oracle hearly hlate hmem hmem

end Nortia.Oracles
