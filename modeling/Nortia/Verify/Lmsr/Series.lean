import Nortia.Lib.FixedPoint
import Nortia.Program.LmsrFacts

/-!
# What the market maker computes

On a state that passes `validate_state` no checked operation of the two series, of the cost or of
the probability fails. Each of them returns the value of a plain function of naturals, read off the
truncated series.
-/

namespace Nortia.Lmsr

open Lib Lib.FixedPoint

/-! ## The states the market maker accepts -/

structure Accepted (q : MarketQuantities) (b : Nat) : Prop where
  minLiquidity : minLiquidityParameter ≤ b
  maxLiquidity : b ≤ maxLiquidityParameter
  yes : q.yes ≤ maxOutcomeQuantity
  no : q.no ≤ maxOutcomeQuantity
  imbalance : absDiff q.yes q.no ≤ b * maxImbalanceMultiplier

theorem validateState_iff {q : MarketQuantities} {b : Nat} {u : Unit} :
    validateState q b = .ok u ↔ Accepted q b := by
  constructor
  · intro h
    obtain ⟨hb, hyes, hno, hdiff⟩ := validateState_ok h
    exact ⟨hb.1, hb.2, hyes, hno, hdiff⟩
  · intro h
    have hmul : b * maxImbalanceMultiplier ≤ u64Max :=
      calc b * maxImbalanceMultiplier ≤ maxLiquidityParameter * maxImbalanceMultiplier :=
            Nat.mul_le_mul_right _ h.maxLiquidity
        _ ≤ u64Max := by decide
    have hchecked := checkedMul_eq_some.mpr ⟨hmul, rfl⟩
    simp only [validateState, validateLiquidity, require_pos (And.intro h.minLiquidity
      h.maxLiquidity), require_pos (And.intro h.yes h.no), hchecked, okOr, ok_bind,
      require_pos h.imbalance]

theorem validateState_eq {q : MarketQuantities} {b : Nat} (h : Accepted q b) :
    validateState q b = .ok () :=
  validateState_iff.mpr h

theorem Accepted.pos {q : MarketQuantities} {b : Nat} (h : Accepted q b) : 0 < b :=
  Nat.lt_of_lt_of_le (by decide) h.minLiquidity

/-! ## The exponential -/

/-- `exp (- x / SCALE)` in units of `1 / SCALE`, as `exp_negative_fixed` rounds it. -/
def expValue (x : Nat) : Nat :=
  (expSum fixedScale (x % ln2Fixed) 22).toNat >>> (x / ln2Fixed)

theorem ln2Fixed_pos : 0 < ln2Fixed := by decide

theorem remainder_le (x : Nat) : x % ln2Fixed ≤ fixedScale :=
  (Nat.mod_lt x ln2Fixed_pos).le.trans (by decide)

theorem mulDivFloor_eq {a b d : Nat} (hd : d ≠ 0) (h : a * b ≤ u128Max) :
    mulDivFloor a b d = .ok (a * b / d) :=
  mulDivFloor_ok.mpr ⟨hd, h, rfl⟩

theorem fixedScale_sq_le : fixedScale * fixedScale ≤ u128Max := by decide

/-- The loop adds the terms of the series, and no subtraction of it underflows. -/
theorem expSeries_eq {r : Nat} (hr : r ≤ fixedScale) (n k : Nat) :
    expSeries r (List.range' (k + 1) n) (expTerm fixedScale r k)
        (expSum fixedScale r k).toNat = .ok (expSum fixedScale r (k + n)).toNat := by
  induction n generalizing k with
  | zero => rfl
  | succ n ih =>
    have hterm := expTerm_le hr k
    have hscaled : mulDivFloor (expTerm fixedScale r k) r fixedScale =
        .ok (expTerm fixedScale r k * r / fixedScale) :=
      mulDivFloor_eq (by decide) ((Nat.mul_le_mul hterm hr).trans fixedScale_sq_le)
    have hnow := expSum_nonneg hr k
    have hnext := expSum_nonneg hr (k + 1)
    have hbound := expSum_le hr (k + 1)
    have hadd : addTerm (k + 1) (expTerm fixedScale r (k + 1)) (expSum fixedScale r k).toNat =
        .ok (expSum fixedScale r (k + 1)).toNat := by
      unfold addTerm
      by_cases hodd : (k + 1) % 2 = 1
      · rw [if_pos hodd, okOr_eq_ok, checkedSub_eq_some]
        rw [expSum_succ_of_even (by omega)] at hnext ⊢
        omega
      · have hmax : fixedScale ≤ u128Max := by decide
        rw [if_neg hodd, okOr_eq_ok, checkedAdd_eq_some]
        rw [expSum_succ_of_odd (by omega)] at hnext hbound ⊢
        omega
    rw [List.range'_succ, expSeries, hscaled, ok_bind]
    change (addTerm (k + 1) (expTerm fixedScale r (k + 1)) _ >>= _) = _
    rw [hadd, ok_bind, Nat.add_comm n 1, ← Nat.add_assoc]
    exact ih (k + 1)

theorem toNat_expSum_le {r : Nat} (hr : r ≤ fixedScale) (n : Nat) :
    (expSum fixedScale r n).toNat ≤ fixedScale := by
  have := expSum_le hr n
  omega

theorem expNegativeFixed_eq (x : Nat) : expNegativeFixed x = .ok (expValue x) := by
  have hr := remainder_le x
  unfold expNegativeFixed expValue
  by_cases hpower : 127 < x / ln2Fixed
  · -- the early return is the value the shift would give
    rw [if_pos hpower, Nat.shiftRight_eq_div_pow, Nat.div_eq_of_lt]
    apply (toNat_expSum_le hr 22).trans_lt
    calc fixedScale < 2 ^ 127 := by decide
      _ ≤ 2 ^ (x / ln2Fixed) := Nat.pow_le_pow_right (by decide) hpower.le
  · have hloop := expSeries_eq hr 22 0
    rw [if_neg hpower]
    change (expSeries _ _ fixedScale fixedScale >>= _) = _
    rw [show expSeries (x % ln2Fixed) (List.range' 1 22) fixedScale fixedScale = _ from hloop,
      ok_bind, Nat.zero_add]

theorem expValue_le (x : Nat) : expValue x ≤ fixedScale := by
  rw [expValue, Nat.shiftRight_eq_div_pow]
  exact (Nat.div_le_self _ _).trans (toNat_expSum_le (remainder_le x) 22)

/-! ## The logarithm -/

/-- `ln (1 + v / SCALE)` in units of `1 / SCALE`, as `ln_one_plus_fixed` rounds it. -/
def lnValue (v : Nat) : Nat := 2 * lnSum fixedScale v 16

theorem lnSum_le_u128 (v : Nat) {n : Nat} (hn : n ≤ 16) : lnSum fixedScale v n ≤ u128Max :=
  calc lnSum fixedScale v n ≤ (n + 1) * fixedScale := lnSum_le fixedScale v n
    _ ≤ 17 * fixedScale := Nat.mul_le_mul_right _ (by omega)
    _ ≤ u128Max := by decide

/-- The loop adds the odd powers of the ratio. -/
theorem lnSeries_eq (v n k : Nat) (h : k + n ≤ 16) :
    lnSeries (lnRatio fixedScale v * lnRatio fixedScale v / fixedScale)
        (List.range' (2 * k + 3) n 2) (lnPower fixedScale v k) (lnSum fixedScale v k) =
      .ok (lnSum fixedScale v (k + n)) := by
  induction n generalizing k with
  | zero => rfl
  | succ n ih =>
    have hsq : lnRatio fixedScale v * lnRatio fixedScale v / fixedScale ≤ fixedScale :=
      Nat.div_le_of_le_mul (Nat.mul_le_mul (lnRatio_le _ v) (lnRatio_le _ v))
    have hpower : mulDivFloor (lnPower fixedScale v k)
        (lnRatio fixedScale v * lnRatio fixedScale v / fixedScale) fixedScale =
        .ok (lnPower fixedScale v (k + 1)) :=
      mulDivFloor_eq (by decide)
        ((Nat.mul_le_mul (lnPower_le _ v k) hsq).trans fixedScale_sq_le)
    have hsum : okOr (checkedAdd u128Max (lnSum fixedScale v k)
        (lnPower fixedScale v (k + 1) / (2 * k + 3))) LmsrError.arithmeticOverflow =
        .ok (lnSum fixedScale v (k + 1)) := by
      rw [okOr_eq_ok, checkedAdd_eq_some]
      exact ⟨lnSum_le_u128 v (n := k + 1) (by omega), rfl⟩
    rw [List.range'_succ, lnSeries, hpower, ok_bind, hsum, ok_bind, Nat.add_comm n 1,
      ← Nat.add_assoc]
    exact ih (k + 1) (by omega)

theorem lnOnePlusFixed_eq {v : Nat} (hv : v ≤ fixedScale) :
    lnOnePlusFixed v = .ok (lnValue v) := by
  have hbase : okOr (checkedMul u128Max fixedScale 2) LmsrError.arithmeticOverflow =
      .ok (2 * fixedScale) := by rfl
  have hden : okOr (checkedAdd u128Max (2 * fixedScale) v) LmsrError.arithmeticOverflow =
      .ok (2 * fixedScale + v) := by
    rw [okOr_eq_ok, checkedAdd_eq_some]
    exact ⟨(Nat.add_le_add_left hv _).trans (by decide), rfl⟩
  have hratio : mulDivFloor v fixedScale (2 * fixedScale + v) = .ok (lnRatio fixedScale v) :=
    mulDivFloor_eq (by simp [fixedScale]) ((Nat.mul_le_mul_right _ hv).trans fixedScale_sq_le)
  have hsq : mulDivFloor (lnRatio fixedScale v) (lnRatio fixedScale v) fixedScale =
      .ok (lnRatio fixedScale v * lnRatio fixedScale v / fixedScale) :=
    mulDivFloor_eq (by decide)
      ((Nat.mul_le_mul (lnRatio_le _ v) (lnRatio_le _ v)).trans fixedScale_sq_le)
  have hdouble : okOr (checkedMul u128Max (lnSum fixedScale v 16) 2)
      LmsrError.arithmeticOverflow = .ok (lnValue v) := by
    rw [okOr_eq_ok, checkedMul_eq_some, Nat.mul_comm]
    exact ⟨(Nat.mul_le_mul_left 2 (lnSum_le fixedScale v 16)).trans (by decide), rfl⟩
  have hloop := lnSeries_eq v 16 0 (by decide)
  unfold lnOnePlusFixed
  rw [require_pos hv, ok_bind, hbase, ok_bind, hden, ok_bind, hratio, ok_bind, hsq, ok_bind]
  change (lnSeries _ (List.range' (2 * 0 + 3) 16 2) (lnPower fixedScale v 0)
    (lnSum fixedScale v 0) >>= _) = _
  rw [hloop, ok_bind, Nat.zero_add, hdouble]

theorem lnValue_le (v : Nat) : lnValue v ≤ 34 * fixedScale :=
  calc lnValue v ≤ 2 * (17 * fixedScale) := Nat.mul_le_mul_left 2 (lnSum_le fixedScale v 16)
    _ = 34 * fixedScale := by rfl

theorem lnValue_mono {v v' : Nat} (h : v ≤ v') : lnValue v ≤ lnValue v' :=
  Nat.mul_le_mul_left 2 (lnSum_mono (by decide) h 16)

/-! ## Costs and probabilities -/

/-- The scaled imbalance. -/
def ratioOf (q : MarketQuantities) (b : Nat) : Nat := absDiff q.yes q.no * fixedScale / b

/-- The softplus of the negated imbalance, in units of `1 / SCALE`. -/
def softplus (x : Nat) : Nat := lnValue (expValue x)

def cost (q : MarketQuantities) (b : Nat) : Nat :=
  max q.yes q.no * fixedScale + b * softplus (ratioOf q b)

/-- The probability of the side with fewer shares. -/
def lowerProbability (x : Nat) : Nat :=
  expValue x * probabilityScale / (fixedScale + expValue x)

def probability (q : MarketQuantities) (b : Nat) : Nat :=
  if q.no ≤ q.yes then probabilityScale - lowerProbability (ratioOf q b)
  else lowerProbability (ratioOf q b)

theorem mulDivFloor_ratio {q : MarketQuantities} {b : Nat} (h : Accepted q b) :
    mulDivFloor (absDiff q.yes q.no) fixedScale b = .ok (ratioOf q b) := by
  apply mulDivFloor_eq (Nat.ne_of_gt h.pos)
  calc absDiff q.yes q.no * fixedScale
      ≤ maxLiquidityParameter * maxImbalanceMultiplier * fixedScale :=
        Nat.mul_le_mul_right _ (h.imbalance.trans (Nat.mul_le_mul_right _ h.maxLiquidity))
    _ ≤ u128Max := by decide

theorem cost_le {q : MarketQuantities} {b : Nat} (h : Accepted q b) :
    cost q b ≤ (maxOutcomeQuantity + 34 * maxLiquidityParameter) * fixedScale := by
  have hmax : max q.yes q.no ≤ maxOutcomeQuantity := max_le h.yes h.no
  have hsoft : b * softplus (ratioOf q b) ≤ maxLiquidityParameter * (34 * fixedScale) :=
    Nat.mul_le_mul h.maxLiquidity (lnValue_le _)
  calc cost q b ≤ maxOutcomeQuantity * fixedScale + maxLiquidityParameter * (34 * fixedScale) :=
        Nat.add_le_add (Nat.mul_le_mul_right _ hmax) hsoft
    _ = (maxOutcomeQuantity + 34 * maxLiquidityParameter) * fixedScale := by rfl

/-- **The cost** of an accepted state is always computed. -/
theorem costFixed_eq {q : MarketQuantities} {b : Nat} (h : Accepted q b) :
    costFixed q b = .ok (cost q b) := by
  have htotal : cost q b ≤ u128Max := (cost_le h).trans (by decide)
  have hbase : okOr (checkedMul u128Max (max q.yes q.no) fixedScale)
      LmsrError.arithmeticOverflow = .ok (max q.yes q.no * fixedScale) := by
    rw [okOr_eq_ok, checkedMul_eq_some]
    exact ⟨(Nat.le_add_right _ _).trans htotal, rfl⟩
  have hweighted : okOr (checkedMul u128Max b (softplus (ratioOf q b)))
      LmsrError.arithmeticOverflow = .ok (b * softplus (ratioOf q b)) := by
    rw [okOr_eq_ok, checkedMul_eq_some]
    exact ⟨(Nat.le_add_left _ _).trans htotal, rfl⟩
  unfold costFixed
  rw [validateState_eq h, ok_bind, mulDivFloor_ratio h, ok_bind, expNegativeFixed_eq, ok_bind,
    lnOnePlusFixed_eq (expValue_le _), ok_bind, hbase, ok_bind]
  change (okOr (checkedMul u128Max b (softplus (ratioOf q b))) _ >>= _) = _
  rw [hweighted, ok_bind, okOr_eq_ok, checkedAdd_eq_some]
  exact ⟨htotal, rfl⟩

theorem lowerProbability_le (x : Nat) : 2 * lowerProbability x ≤ probabilityScale := by
  have htail := expValue_le x
  have hquot := Nat.div_mul_le_self (expValue x * probabilityScale) (fixedScale + expValue x)
  by_contra hlt
  -- more than one half of the scale would need a tail above one
  have hhalf : probabilityScale / 2 + 1 ≤ lowerProbability x := by
    simp only [probabilityScale] at hlt ⊢
    omega
  have hmul := Nat.mul_le_mul_right (fixedScale + expValue x) hhalf
  have hle := hmul.trans hquot
  simp only [probabilityScale, fixedScale] at hle htail
  omega

/-- **The probability** of an accepted state is always computed. -/
theorem yesProbability_eq {q : MarketQuantities} {b : Nat} (h : Accepted q b) :
    yesProbability q b = .ok (probability q b) := by
  have htail := expValue_le (ratioOf q b)
  have hhalf := lowerProbability_le (ratioOf q b)
  have hden : okOr (checkedAdd u128Max fixedScale (expValue (ratioOf q b)))
      LmsrError.arithmeticOverflow = .ok (fixedScale + expValue (ratioOf q b)) := by
    rw [okOr_eq_ok, checkedAdd_eq_some]
    exact ⟨(Nat.add_le_add_left htail _).trans (by decide), rfl⟩
  have hlower : mulDivFloor (expValue (ratioOf q b)) probabilityScale
      (fixedScale + expValue (ratioOf q b)) = .ok (lowerProbability (ratioOf q b)) :=
    mulDivFloor_eq (by simp [fixedScale]) ((Nat.mul_le_mul_right _ htail).trans (by decide))
  have hsmall : toU64 (lowerProbability (ratioOf q b)) = .ok (lowerProbability (ratioOf q b)) :=
    toU64_ok.mpr ⟨by simp only [probabilityScale, u64Max] at hhalf ⊢; omega, rfl⟩
  unfold yesProbability probability
  rw [validateState_eq h, ok_bind, mulDivFloor_ratio h, ok_bind, expNegativeFixed_eq, ok_bind,
    hden, ok_bind, hlower, ok_bind, hsmall, ok_bind]
  split
  · rw [okOr_eq_ok, checkedSub_eq_some]
    exact ⟨by omega, rfl⟩
  · rfl

end Nortia.Lmsr
