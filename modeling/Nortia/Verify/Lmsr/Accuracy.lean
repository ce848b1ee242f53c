import Nortia.Verify.Lmsr.Series

/-!
# The fixed-point series against the real functions

The two series of the market maker are compared with `Real.exp` and `Real.log`. The exponential is
off by at most 24 units of `1 / SCALE`, the softplus by at most 91, so the cost of an accepted
state is off by at most 100 units for each unit of liquidity.
-/

namespace Nortia.Lmsr

open Lib Lib.FixedPoint

theorem cast_fixedScale : ((fixedScale : ℕ) : ℝ) = 1000000000000 := by norm_num [fixedScale]

theorem cast_ln2Fixed : ((ln2Fixed : ℕ) : ℝ) = 693147180559 := by norm_num [ln2Fixed]

/-- The constant of the range reduction is `SCALE * ln 2` rounded down. -/
theorem ln2Fixed_bounds :
    (ln2Fixed : ℝ) ≤ fixedScale * Real.log 2 ∧ fixedScale * Real.log 2 ≤ (ln2Fixed : ℝ) + 1 := by
  have hlo := Real.sum_range_le_log_div (x := 1 / 3) (by norm_num) (by norm_num) 14
  have hhi := Real.log_div_le_sum_range_add (x := 1 / 3) (by norm_num) (by norm_num) 14
  norm_num [Finset.sum_range_succ] at hlo hhi
  rw [cast_fixedScale, cast_ln2Fixed]
  constructor <;> linarith

/-! ## The exponential -/

theorem expSum_close {r : ℕ} (hr : r ≤ fixedScale) :
    |((expSum fixedScale r 22 : ℤ) : ℝ) - fixedScale * Real.exp (-(r / fixedScale : ℝ))| ≤
      23 + 1 / 1000 := by
  apply (expSum_approx (by decide) hr 22).trans
  rw [cast_fixedScale]
  norm_num [Nat.factorial]

theorem cast_toNat_expSum {r : ℕ} (hr : r ≤ fixedScale) :
    (((expSum fixedScale r 22).toNat : ℕ) : ℝ) = ((expSum fixedScale r 22 : ℤ) : ℝ) := by
  have h := Int.toNat_of_nonneg (expSum_nonneg hr 22)
  exact_mod_cast congrArg (Int.cast (R := ℝ)) h

/-- Reducing the argument by `k` times the rounded `ln 2` instead of `ln 2` moves the exponential
by less than two units, however large `k` is. -/
theorem exp_reduce_close (k : ℕ) :
    |fixedScale * Real.exp (-(k * ln2Fixed / fixedScale : ℝ)) - fixedScale / 2 ^ k| ≤ 2 := by
  obtain ⟨hlo, hhi⟩ := ln2Fixed_bounds
  have hpow : (2 : ℝ) ^ k = Real.exp (k * Real.log 2) := by
    rw [Real.exp_nat_mul, Real.exp_log (by norm_num)]
  have hk : (0 : ℝ) ≤ k := Nat.cast_nonneg k
  rw [cast_fixedScale, cast_ln2Fixed] at *
  -- the two exponents, at most `k / SCALE` apart
  have hgap := Real.add_one_le_exp (k * (693147180559 / 1000000000000 - Real.log 2))
  have hsmall := Real.add_one_le_exp (k * 693147180559 / 1000000000000 : ℝ)
  have hprod : Real.exp (-(k * 693147180559 / 1000000000000 : ℝ)) *
      Real.exp (k * 693147180559 / 1000000000000) = 1 := by
    rw [← Real.exp_add, neg_add_cancel, Real.exp_zero]
  have hratio : (1 : ℝ) / 2 ^ k = Real.exp (-(k * 693147180559 / 1000000000000)) *
      Real.exp (k * (693147180559 / 1000000000000 - Real.log 2)) := by
    rw [hpow, one_div, ← Real.exp_neg, ← Real.exp_add]
    congr 1
    ring
  have hmono : (1 : ℝ) / 2 ^ k ≤ Real.exp (-(k * 693147180559 / 1000000000000)) := by
    rw [hpow, one_div, ← Real.exp_neg]
    apply Real.exp_le_exp.mpr
    nlinarith
  have hpos := Real.exp_pos (-(k * 693147180559 / 1000000000000 : ℝ))
  generalize Real.exp (-(k * 693147180559 / 1000000000000 : ℝ)) = e at *
  have hlow : e * (1 - k / 1000000000000) ≤ 1 / 2 ^ k := by
    rw [hratio]
    apply mul_le_mul_of_nonneg_left _ hpos.le
    nlinarith
  have hek : e * k ≤ 2 := by nlinarith
  rw [abs_le]
  have hdiv : (1000000000000 : ℝ) / 2 ^ k = 1000000000000 * (1 / 2 ^ k) := by ring
  constructor
  · nlinarith
  · nlinarith

/-- **The exponential** of the market maker is off by at most 24 units. -/
theorem expValue_close (x : ℕ) :
    |(expValue x : ℝ) - fixedScale * Real.exp (-(x / fixedScale : ℝ))| ≤ 24 := by
  have hr := remainder_le x
  have hsum := expSum_close hr
  rw [← cast_toNat_expSum hr] at hsum
  have hsum_le := toNat_expSum_le hr 22
  have hx : (x : ℝ) = (x / ln2Fixed : ℕ) * ln2Fixed + (x % ln2Fixed : ℕ) := by
    exact_mod_cast (Nat.div_add_mod' x ln2Fixed).symm
  have hsplit : Real.exp (-(x / fixedScale : ℝ)) =
      Real.exp (-((x / ln2Fixed : ℕ) * ln2Fixed / fixedScale : ℝ)) *
        Real.exp (-((x % ln2Fixed : ℕ) / fixedScale : ℝ)) := by
    rw [← Real.exp_add]
    congr 1
    rw [hx]
    ring
  have hunit : Real.exp (-((x % ln2Fixed : ℕ) / fixedScale : ℝ)) ≤ 1 := by
    apply Real.exp_le_one_iff.mpr
    simp only [Left.neg_nonpos_iff]
    positivity
  have hreduce := exp_reduce_close (x / ln2Fixed)
  unfold expValue
  rw [hsplit, Nat.shiftRight_eq_div_pow]
  generalize (expSum fixedScale (x % ln2Fixed) 22).toNat = sum at *
  generalize x / ln2Fixed = k at *
  have hexp0 := Real.exp_pos (-((x % ln2Fixed : ℕ) / fixedScale : ℝ))
  generalize Real.exp (-((x % ln2Fixed : ℕ) / fixedScale : ℝ)) = t at *
  rcases Nat.eq_zero_or_pos k with rfl | hk
  · -- nothing is shifted
    have hone : Real.exp (-(((0 : ℕ) : ℝ) * ln2Fixed / fixedScale : ℝ)) = 1 := by simp
    rw [hone, one_mul, pow_zero, Nat.div_one]
    linarith
  · obtain ⟨hflo, hfhi⟩ := cast_div_bounds (a := sum) (d := 2 ^ k) (by positivity)
    generalize Real.exp (-(k * ln2Fixed / fixedScale : ℝ)) = e at *
    have htwo : (2 : ℝ) ≤ 2 ^ k := by
      calc (2 : ℝ) = 2 ^ 1 := (pow_one 2).symm
        _ ≤ 2 ^ k := pow_le_pow_right₀ (by norm_num) hk
    have hhalf : |(sum / 2 ^ k : ℝ) - fixedScale / 2 ^ k * t| ≤ 12 := by
      have hscaled : (sum / 2 ^ k : ℝ) - fixedScale / 2 ^ k * t =
          (sum - fixedScale * t) / 2 ^ k := by ring
      have hpow : (0 : ℝ) < 2 ^ k := by positivity
      rw [hscaled, abs_div, abs_of_pos hpow, div_le_iff₀ hpow]
      linarith
    have hshift : |fixedScale / 2 ^ k * t - fixedScale * (e * t)| ≤ 2 := by
      have hscaled : fixedScale / 2 ^ k * t - fixedScale * (e * t) =
          -((fixedScale * e - fixedScale / 2 ^ k) * t) := by ring
      rw [hscaled, abs_neg, abs_mul, abs_of_pos hexp0]
      nlinarith [abs_nonneg (fixedScale * e - fixedScale / 2 ^ k)]
    push_cast at hflo hfhi
    rw [abs_le] at hhalf hshift ⊢
    constructor <;> linarith

/-! ## The softplus -/

theorem lnValue_close {v : ℕ} (hv : v ≤ fixedScale) :
    |(lnValue v : ℝ) - fixedScale * Real.log (1 + v / fixedScale)| ≤ 66 + 1 / 1000 := by
  have h := lnSum_approx (by decide) hv 16
  have hcast : (lnValue v : ℝ) = 2 * (lnSum fixedScale v 16 : ℝ) := by
    rw [lnValue]
    push_cast
    rfl
  rw [hcast]
  apply h.trans
  rw [cast_fixedScale]
  norm_num

/-- Above one, the logarithm moves at most as much as its argument. -/
theorem log_lipschitz {u w : ℝ} (hu : 0 ≤ u) (hw : 0 ≤ w) :
    |Real.log (1 + u) - Real.log (1 + w)| ≤ |u - w| := by
  wlog h : w ≤ u generalizing u w
  · rw [abs_sub_comm, abs_sub_comm u]
    exact this hw hu (le_of_not_ge h)
  have hmono : Real.log (1 + w) ≤ Real.log (1 + u) :=
    Real.log_le_log (by linarith) (by linarith)
  have hquot : Real.log (1 + u) - Real.log (1 + w) ≤ u - w := by
    rw [← Real.log_div (by linarith) (by linarith)]
    calc Real.log ((1 + u) / (1 + w)) ≤ (1 + u) / (1 + w) - 1 :=
          Real.log_le_sub_one_of_pos (by positivity)
      _ = (u - w) / (1 + w) := by
          field_simp
          ring
      _ ≤ u - w := div_le_self (by linarith) (by linarith)
  rw [abs_of_nonneg (by linarith), abs_of_nonneg (by linarith)]
  exact hquot

/-- **The softplus** of the market maker is off by at most 91 units. -/
theorem softplus_close (x : ℕ) :
    |(softplus x : ℝ) - fixedScale * Real.log (1 + Real.exp (-(x / fixedScale : ℝ)))| ≤ 91 := by
  have hscale : (0 : ℝ) < fixedScale := by
    rw [cast_fixedScale]
    norm_num
  have hln := lnValue_close (expValue_le x)
  have hexp := expValue_close x
  have hlip := log_lipschitz (u := expValue x / fixedScale) (w := Real.exp (-(x / fixedScale)))
    (by positivity) (Real.exp_pos _).le
  have hmove : |fixedScale * Real.log (1 + expValue x / fixedScale) -
      fixedScale * Real.log (1 + Real.exp (-(x / fixedScale : ℝ)))| ≤ 24 := by
    rw [← mul_sub, abs_mul, abs_of_pos hscale]
    calc (fixedScale : ℝ) * _ ≤
          fixedScale * |expValue x / fixedScale - Real.exp (-(x / fixedScale : ℝ))| :=
          mul_le_mul_of_nonneg_left hlip hscale.le
      _ = |(expValue x : ℝ) - fixedScale * Real.exp (-(x / fixedScale : ℝ))| := by
          rw [← abs_of_pos hscale, ← abs_mul, abs_of_pos hscale, mul_sub,
            mul_div_cancel₀ _ hscale.ne']
      _ ≤ 24 := hexp
  unfold softplus
  rw [abs_le] at *
  constructor <;> linarith

/-! ## The cost -/

theorem softplus_lipschitz {y z : ℝ} (hyz : y ≤ z) :
    Real.log (1 + Real.exp (-z)) ≤ Real.log (1 + Real.exp (-y)) ∧
      (0 ≤ y → Real.log (1 + Real.exp (-y)) ≤ Real.log (1 + Real.exp (-z)) + (z - y) / 2) := by
  have hmono : Real.exp (-z) ≤ Real.exp (-y) := Real.exp_le_exp.mpr (by linarith)
  have hz := Real.exp_pos (-z)
  refine ⟨Real.log_le_log (by linarith) (by linarith), fun hy => ?_⟩
  -- with `u = exp (- y / 2)` and `w = exp (- z / 2)` this is `(u - w) (1 - u w) ≥ 0`
  have hu : Real.exp (-y) = Real.exp (-(y / 2)) ^ 2 := by
    rw [← Real.exp_nat_mul]
    congr 1
    push_cast
    ring
  have hw : Real.exp (-z) = Real.exp (-(z / 2)) ^ 2 := by
    rw [← Real.exp_nat_mul]
    congr 1
    push_cast
    ring
  have hquot : Real.exp ((z - y) / 2) * Real.exp (-(z / 2)) = Real.exp (-(y / 2)) := by
    rw [← Real.exp_add]
    congr 1
    ring
  have huw : Real.exp (-(z / 2)) ≤ Real.exp (-(y / 2)) := Real.exp_le_exp.mpr (by linarith)
  have hu1 : Real.exp (-(y / 2)) ≤ 1 := Real.exp_le_one_iff.mpr (by linarith)
  have hw0 := Real.exp_pos (-(z / 2))
  have hexp : Real.log (Real.exp ((z - y) / 2)) = (z - y) / 2 := Real.log_exp _
  rw [← hexp, ← Real.log_mul (by positivity) (Real.exp_pos _).ne']
  apply Real.log_le_log (by positivity)
  rw [hu, hw]
  generalize Real.exp (-(y / 2)) = u at *
  generalize Real.exp (-(z / 2)) = w at *
  have huw1 : u * w ≤ 1 := mul_le_one₀ hu1 hw0.le (huw.trans hu1)
  have hcross : (1 + u ^ 2) * w ≤ (1 + w ^ 2) * u := by
    have hprod := mul_nonneg (sub_nonneg.mpr huw) (sub_nonneg.mpr huw1)
    linarith
  have hdiv : Real.exp ((z - y) / 2) = u / w := by
    rw [eq_div_iff hw0.ne', hquot]
  rw [hdiv, ← mul_div_assoc, le_div_iff₀ hw0]
  exact hcross

/-- The cost function of the ideal market maker. -/
noncomputable def idealCost (q : MarketQuantities) (b : ℕ) : ℝ :=
  max q.yes q.no + b * Real.log (1 + Real.exp (-(absDiff q.yes q.no / b : ℝ)))

theorem cost_close {q : MarketQuantities} {b : ℕ} (h : Accepted q b) :
    |(cost q b : ℝ) - fixedScale * idealCost q b| ≤ 92 * b := by
  have hb : (0 : ℝ) < b := by exact_mod_cast h.pos
  have hscale : (0 : ℝ) < fixedScale := by
    rw [cast_fixedScale]
    norm_num
  obtain ⟨hlo, hhi⟩ := cast_div_bounds (a := absDiff q.yes q.no * fixedScale) h.pos
  have hclose := softplus_close (ratioOf q b)
  have hratio : ((absDiff q.yes q.no * fixedScale : ℕ) : ℝ) / b =
      fixedScale * (absDiff q.yes q.no / b) := by
    push_cast
    ring
  rw [hratio] at hlo hhi
  change ((ratioOf q b : ℕ) : ℝ) ≤ _ at hlo
  change _ ≤ ((ratioOf q b : ℕ) : ℝ) + 1 at hhi
  have hcost : (cost q b : ℝ) - fixedScale * idealCost q b = b * (softplus (ratioOf q b) -
      fixedScale * Real.log (1 + Real.exp (-(absDiff q.yes q.no / b : ℝ)))) := by
    rw [cost, idealCost]
    push_cast
    ring
  have hle : (ratioOf q b / fixedScale : ℝ) ≤ absDiff q.yes q.no / b := by
    rw [div_le_iff₀ hscale]
    linarith
  have hge : (absDiff q.yes q.no / b : ℝ) - ratioOf q b / fixedScale ≤ 1 / fixedScale := by
    rw [← sub_nonneg]
    have : (1 / fixedScale - (absDiff q.yes q.no / b - ratioOf q b / fixedScale) : ℝ) =
        (ratioOf q b + 1 - fixedScale * (absDiff q.yes q.no / b)) / fixedScale := by
      field_simp
      ring
    rw [this]
    exact div_nonneg (by linarith) hscale.le
  obtain ⟨hmono, hstep⟩ := softplus_lipschitz hle
  have hstep := hstep (by positivity)
  rw [hcost, abs_mul, abs_of_pos hb, mul_comm]
  apply mul_le_mul_of_nonneg_right _ hb.le
  have hmove := mul_le_mul_of_nonneg_left hmono hscale.le
  have hmove' := mul_le_mul_of_nonneg_left hstep hscale.le
  have hunit : (fixedScale : ℝ) * (1 / fixedScale) = 1 := by
    field_simp
  have hgap := mul_le_mul_of_nonneg_left hge hscale.le
  rw [abs_le] at hclose ⊢
  constructor <;> nlinarith

/-- **Accuracy.** The cost the program computes is within 100 units of `1 / SCALE`, for each unit
of liquidity, of the cost of the ideal market maker. -/
theorem costFixed_close {q : MarketQuantities} {b : ℕ} (h : validateState q b = .ok ()) :
    ∃ c, costFixed q b = .ok c ∧
      |(c : ℝ) - fixedScale * (max q.yes q.no +
        b * Real.log (1 + Real.exp (-(absDiff q.yes q.no / b : ℝ))))| ≤ 100 * b := by
  have haccepted := validateState_iff.mp h
  refine ⟨cost q b, costFixed_eq haccepted, ?_⟩
  have hclose := cost_close haccepted
  have hb : (0 : ℝ) ≤ b := Nat.cast_nonneg b
  rw [idealCost] at hclose
  push_cast at hclose ⊢
  linarith

/-- The balanced market of the tests, at a liquidity of 100 units of collateral. -/
theorem costFixed_close_balanced : ∃ c, costFixed ⟨0, 0⟩ 100000000 = .ok c ∧
    |(c : ℝ) - fixedScale * (max (0 : ℕ) (0 : ℕ) +
      (100000000 : ℕ) * Real.log (1 + Real.exp (-(absDiff 0 0 / (100000000 : ℕ) : ℝ))))| ≤
      100 * (100000000 : ℕ) :=
  costFixed_close (q := ⟨0, 0⟩) (b := 100000000) (by rfl)

end Nortia.Lmsr
