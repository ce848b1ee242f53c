import Mathlib.Analysis.Complex.Exponential
import Mathlib.Analysis.SpecialFunctions.Log.Deriv

/-!
# Truncated series in fixed point

The exponential of a negative number and the logarithm of one plus a number, summed in units of
`1 / s` with every quotient rounded down. The sums stay between zero and `s`, the logarithm is
monotone, and both are within a few units of `Real.exp` and `Real.log`.
-/

namespace Lib.FixedPoint

open Finset

/-- A rounded quotient by a positive number is less than one unit below the exact one. -/
theorem cast_div_bounds {a d : ℕ} (hd : 0 < d) :
    ((a / d : ℕ) : ℝ) ≤ a / d ∧ (a / d : ℝ) ≤ ((a / d : ℕ) : ℝ) + 1 := by
  have hd' : (0 : ℝ) < d := by exact_mod_cast hd
  refine ⟨Nat.cast_div_le, ?_⟩
  rw [div_le_iff₀ hd']
  have hlt := Nat.lt_div_mul_add (a := a) hd
  have : (a : ℝ) ≤ ((a / d * d + d : ℕ) : ℝ) := by exact_mod_cast hlt.le
  push_cast at this ⊢
  linarith

/-! ## The exponential -/

/-- The terms of the series of `exp (x / s)`, in units of `1 / s`. -/
def expTerm (s x : ℕ) : ℕ → ℕ
  | 0 => s
  | k + 1 => expTerm s x k * x / s / (k + 1)

/-- The alternating sum of the terms, up to the `n`-th one. -/
def expSum (s x : ℕ) : ℕ → ℤ
  | 0 => s
  | n + 1 => expSum s x n + (-1) ^ (n + 1) * expTerm s x (n + 1)

section

variable {s x : ℕ}

theorem expTerm_succ_le (hx : x ≤ s) (k : ℕ) : expTerm s x (k + 1) ≤ expTerm s x k := by
  have hscaled : expTerm s x k * x / s ≤ expTerm s x k := by
    by_cases hs : s = 0
    · simp [hs]
    · apply Nat.div_le_of_le_mul
      rw [Nat.mul_comm s]
      exact Nat.mul_le_mul_left _ hx
  exact (Nat.div_le_self _ _).trans hscaled

theorem expTerm_le (hx : x ≤ s) (k : ℕ) : expTerm s x k ≤ s := by
  induction k with
  | zero => exact Nat.le_refl s
  | succ k ih => exact (expTerm_succ_le hx k).trans ih

theorem expSum_succ_of_even {n : ℕ} (hn : n % 2 = 0) :
    expSum s x (n + 1) = expSum s x n - expTerm s x (n + 1) := by
  have hodd : Odd (n + 1) := Nat.odd_iff.mpr (by omega)
  rw [expSum, hodd.neg_one_pow]
  omega

theorem expSum_succ_of_odd {n : ℕ} (hn : n % 2 = 1) :
    expSum s x (n + 1) = expSum s x n + expTerm s x (n + 1) := by
  have heven : Even (n + 1) := Nat.even_iff.mpr (by omega)
  rw [expSum, heven.neg_one_pow]
  omega

/-- A partial sum lies between zero and `s`. One that ends with an added term covers that term,
one that ends with a subtracted term leaves room for it. -/
theorem expSum_bounds (hx : x ≤ s) (n : ℕ) :
    (n % 2 = 0 → expTerm s x n ≤ expSum s x n ∧ expSum s x n ≤ s) ∧
      (n % 2 = 1 → 0 ≤ expSum s x n ∧ expSum s x n + expTerm s x n ≤ s) := by
  induction n with
  | zero => exact ⟨fun _ => ⟨Int.le_refl _, Int.le_refl _⟩, fun h => absurd h (by decide)⟩
  | succ n ih =>
    have hterm := expTerm_succ_le hx n
    constructor
    · intro hn
      obtain ⟨hlo, hhi⟩ := ih.2 (by omega)
      rw [expSum_succ_of_odd (by omega)]
      omega
    · intro hn
      obtain ⟨hlo, hhi⟩ := ih.1 (by omega)
      rw [expSum_succ_of_even (by omega)]
      omega

/-- Two further terms of a sum that ends with an added one do not raise it. -/
theorem expSum_even_antitone (hx : x ≤ s) (m : ℕ) :
    expSum s x (2 + 2 * m) ≤ expSum s x 2 := by
  induction m with
  | zero => exact Int.le_refl _
  | succ m ih =>
    have hterm := expTerm_succ_le hx (2 + 2 * m + 1)
    have hstep : expSum s x (2 + 2 * (m + 1)) = expSum s x (2 + 2 * m) -
        expTerm s x (2 + 2 * m + 1) + expTerm s x (2 + 2 * m + 1 + 1) := by
      rw [show 2 + 2 * (m + 1) = 2 + 2 * m + 1 + 1 by omega, expSum_succ_of_odd (by omega),
        expSum_succ_of_even (by omega)]
    omega

/-- The exponential of a positive argument is below one. -/
theorem expSum_lt (hx : x ≤ s) (hpos : 0 < x) (m : ℕ) : expSum s x (2 + 2 * m) < s := by
  have hs : 0 < s := hpos.trans_le hx
  have hfirst : expTerm s x 1 = x := by
    rw [expTerm, expTerm, Nat.div_one, Nat.mul_div_cancel_left x hs]
  have hsecond : expTerm s x 2 ≤ x / 2 := by
    rw [expTerm, hfirst]
    exact Nat.div_le_div_right (Nat.div_le_of_le_mul (Nat.mul_le_mul_right x hx))
  have htwo : expSum s x 2 = s - expTerm s x 1 + expTerm s x 2 := by
    rw [expSum_succ_of_odd (by decide), expSum_succ_of_even (by decide)]
    rfl
  have hle := expSum_even_antitone hx m
  omega

theorem expSum_nonneg (hx : x ≤ s) (n : ℕ) : 0 ≤ expSum s x n := by
  have h := expSum_bounds hx n
  rcases Nat.mod_two_eq_zero_or_one n with hn | hn
  · exact Int.le_trans (Int.natCast_nonneg _) (h.1 hn).1
  · exact (h.2 hn).1

theorem expSum_le (hx : x ≤ s) (n : ℕ) : expSum s x n ≤ s := by
  have h := expSum_bounds hx n
  rcases Nat.mod_two_eq_zero_or_one n with hn | hn
  · exact (h.1 hn).2
  · have := (h.2 hn).2
    omega

end

/-! ### Against the real exponential -/

section

variable {s x : ℕ} (hs : 0 < s) (hx : x ≤ s)
include hs hx

/-- A rounded term is at most two units below the exact one. -/
theorem expTerm_approx (k : ℕ) :
    (expTerm s x k : ℝ) ≤ s * ((x / s : ℝ) ^ k / k.factorial) ∧
      s * ((x / s : ℝ) ^ k / k.factorial) ≤ expTerm s x k + 2 := by
  have hs' : (0 : ℝ) < s := by exact_mod_cast hs
  have hratio : (x / s : ℝ) ≤ 1 := (div_le_one hs').mpr (by exact_mod_cast hx)
  have hratio0 : (0 : ℝ) ≤ x / s := by positivity
  induction k with
  | zero => simp [expTerm]
  | succ k ih =>
    have hk : (0 : ℝ) < k + 1 := by positivity
    have hexact : s * ((x / s : ℝ) ^ (k + 1) / (k + 1).factorial) =
        s * ((x / s : ℝ) ^ k / k.factorial) * (x / s) / (k + 1) := by
      rw [pow_succ, Nat.factorial_succ]
      push_cast
      field_simp
    -- both divisions of the step are one rounded division
    have hstep : expTerm s x (k + 1) = expTerm s x k * x / (s * (k + 1)) :=
      Nat.div_div_eq_div_mul _ _ _
    have hquot : ((expTerm s x k * x : ℕ) : ℝ) / ((s * (k + 1) : ℕ) : ℝ) =
        expTerm s x k * (x / s) / (k + 1) := by
      push_cast
      field_simp
    obtain ⟨hlo, hhi⟩ := cast_div_bounds (a := expTerm s x k * x) (Nat.mul_pos hs k.succ_pos)
    rw [hquot, ← hstep] at hlo hhi
    rw [hexact]
    constructor
    · apply hlo.trans
      have := mul_le_mul_of_nonneg_right ih.1 hratio0
      exact div_le_div_of_nonneg_right this hk.le
    · -- the first term is exact, later errors are at least halved
      have hgap : s * ((x / s : ℝ) ^ k / k.factorial) * (x / s) / (k + 1) -
          expTerm s x k * (x / s) / (k + 1) ≤ 1 := by
        rw [← sub_div, ← sub_mul]
        cases k with
        | zero => simp [expTerm]
        | succ k =>
          rw [div_le_one hk]
          have hk1 : (0 : ℝ) ≤ k := Nat.cast_nonneg k
          have herr := mul_le_mul (a := s * ((x / s : ℝ) ^ (k + 1) / (k + 1).factorial) -
            expTerm s x (k + 1)) (b := 2) (by linarith [ih.2]) hratio hratio0 (by norm_num)
          push_cast
          linarith
      linarith

/-- The errors of added and subtracted terms pull in opposite directions. -/
theorem expSum_approx_sum (n : ℕ) :
    |(expSum s x n : ℝ) - s * ∑ k ∈ range (n + 1), (-(x / s : ℝ)) ^ k / k.factorial| ≤
      n + 1 := by
  suffices h : ∀ n, (n % 2 = 0 →
      |(expSum s x n : ℝ) - s * ∑ k ∈ range (n + 1), (-(x / s : ℝ)) ^ k / k.factorial| ≤ n) ∧
      (n % 2 = 1 →
        1 - (n : ℝ) ≤
            expSum s x n - s * ∑ k ∈ range (n + 1), (-(x / s : ℝ)) ^ k / k.factorial ∧
          expSum s x n - s * ∑ k ∈ range (n + 1), (-(x / s : ℝ)) ^ k / k.factorial ≤ n + 1) by
    rcases Nat.mod_two_eq_zero_or_one n with hn | hn
    · exact ((h n).1 hn).trans (by linarith)
    · obtain ⟨hlo, hhi⟩ := (h n).2 hn
      exact abs_le.mpr ⟨by linarith, hhi⟩
  intro n
  induction n with
  | zero => simp [expSum]
  | succ n ih =>
    obtain ⟨hlo, hhi⟩ := expTerm_approx hs hx (n + 1)
    rw [sum_range_succ _ (n + 1), neg_pow (x / s : ℝ) (n + 1), mul_div_assoc, mul_add,
      mul_left_comm (s : ℝ)]
    constructor
    · intro hn
      obtain ⟨hplo, hphi⟩ := ih.2 (by omega)
      have heven : Even (n + 1) := Nat.even_iff.mpr hn
      rw [expSum_succ_of_odd (by omega), heven.neg_one_pow, one_mul, abs_le]
      push_cast
      constructor <;> linarith
    · intro hn
      have hprev := abs_le.mp (ih.1 (by omega))
      obtain ⟨hplo, hphi⟩ := hprev
      have hodd : Odd (n + 1) := Nat.odd_iff.mpr hn
      rw [expSum_succ_of_even (by omega), hodd.neg_one_pow, neg_one_mul]
      push_cast
      constructor <;> linarith

/-- **The exponential.** The alternating sum is within `n + 1` units and the remainder of the
series of the exponential of the negated argument. -/
theorem expSum_approx (n : ℕ) :
    |(expSum s x n : ℝ) - s * Real.exp (-(x / s : ℝ))| ≤
      n + 1 + s * ((n + 2) / ((n + 1).factorial * (n + 1))) := by
  have hs' : (0 : ℝ) < s := by exact_mod_cast hs
  have hratio : |(-(x / s : ℝ))| ≤ 1 := by
    rw [abs_neg, abs_of_nonneg (by positivity)]
    exact (div_le_one hs').mpr (by exact_mod_cast hx)
  have hsum := expSum_approx_sum hs hx n
  have htail := Real.exp_bound hratio (Nat.succ_pos n)
  have hpow : |(-(x / s : ℝ))| ^ (n + 1) ≤ 1 := pow_le_one₀ (abs_nonneg _) hratio
  have hslack : (0 : ℝ) ≤ (n + 2) / ((n + 1).factorial * (n + 1)) := by positivity
  have hscaled : |s * ∑ k ∈ range (n + 1), (-(x / s : ℝ)) ^ k / k.factorial -
      s * Real.exp (-(x / s : ℝ))| ≤ s * ((n + 2) / ((n + 1).factorial * (n + 1))) := by
    rw [← mul_sub, abs_mul, abs_of_pos hs', abs_sub_comm]
    apply mul_le_mul_of_nonneg_left _ hs'.le
    apply htail.trans
    push_cast
    rw [show ((n : ℝ) + 1 + 1) = n + 2 by ring]
    exact mul_le_of_le_one_left hslack hpow
  calc |(expSum s x n : ℝ) - s * Real.exp (-(x / s : ℝ))|
      ≤ |(expSum s x n : ℝ) - s * ∑ k ∈ range (n + 1), (-(x / s : ℝ)) ^ k / k.factorial| +
        |s * ∑ k ∈ range (n + 1), (-(x / s : ℝ)) ^ k / k.factorial -
          s * Real.exp (-(x / s : ℝ))| := abs_sub_le _ _ _
    _ ≤ n + 1 + s * ((n + 2) / ((n + 1).factorial * (n + 1))) := add_le_add hsum hscaled

end

/-! ## The logarithm -/

/-- `v / (2 s + v)` in units of `1 / s`. -/
def lnRatio (s v : ℕ) : ℕ := v * s / (2 * s + v)

/-- The odd powers of the ratio, in units of `1 / s`. -/
def lnPower (s v : ℕ) : ℕ → ℕ
  | 0 => lnRatio s v
  | k + 1 => lnPower s v k * (lnRatio s v * lnRatio s v / s) / s

/-- The sum of the odd powers, each divided by its exponent. -/
def lnSum (s v : ℕ) : ℕ → ℕ
  | 0 => lnRatio s v
  | n + 1 => lnSum s v n + lnPower s v (n + 1) / (2 * n + 3)

section

variable {s v v' : ℕ}

theorem div_le_div_of_mul_le {a b c d : ℕ} (hb : 0 < b) (hd : 0 < d) (h : a * d ≤ c * b) :
    a / b ≤ c / d := by
  rw [Nat.le_div_iff_mul_le hd]
  apply Nat.le_of_mul_le_mul_right (c := b) _ hb
  calc a / b * d * b = a / b * b * d := Nat.mul_right_comm _ _ _
    _ ≤ a * d := Nat.mul_le_mul_right d (Nat.div_mul_le_self a b)
    _ ≤ c * b := h

theorem lnRatio_mono (hs : 0 < s) (h : v ≤ v') : lnRatio s v ≤ lnRatio s v' := by
  apply div_le_div_of_mul_le (by omega) (by omega)
  have hcross : v * (2 * s + v') ≤ v' * (2 * s + v) := by
    rw [Nat.mul_add, Nat.mul_add, Nat.mul_comm v v']
    exact Nat.add_le_add_right (Nat.mul_le_mul_right _ h) _
  calc v * s * (2 * s + v') = v * (2 * s + v') * s := Nat.mul_right_comm _ _ _
    _ ≤ v' * (2 * s + v) * s := Nat.mul_le_mul_right s hcross
    _ = v' * s * (2 * s + v) := Nat.mul_right_comm _ _ _

theorem lnPower_mono (hs : 0 < s) (h : v ≤ v') (k : ℕ) : lnPower s v k ≤ lnPower s v' k := by
  have hratio := lnRatio_mono hs h
  induction k with
  | zero => exact hratio
  | succ k ih =>
    apply Nat.div_le_div_right
    exact Nat.mul_le_mul ih (Nat.div_le_div_right (Nat.mul_le_mul hratio hratio))

/-- The logarithm is monotone in its argument. -/
theorem lnSum_mono (hs : 0 < s) (h : v ≤ v') (n : ℕ) : lnSum s v n ≤ lnSum s v' n := by
  induction n with
  | zero => exact lnRatio_mono hs h
  | succ n ih => exact Nat.add_le_add ih (Nat.div_le_div_right (lnPower_mono hs h (n + 1)))

theorem lnRatio_le (s v : ℕ) : lnRatio s v ≤ s := by
  apply Nat.div_le_of_le_mul
  exact Nat.mul_le_mul_right s (Nat.le_add_left v (2 * s))

theorem lnPower_le (s v k : ℕ) : lnPower s v k ≤ s := by
  induction k with
  | zero => exact lnRatio_le s v
  | succ k ih =>
    have hsq : lnRatio s v * lnRatio s v / s ≤ s :=
      Nat.div_le_of_le_mul (Nat.mul_le_mul (lnRatio_le s v) (lnRatio_le s v))
    exact Nat.div_le_of_le_mul (Nat.mul_le_mul ih hsq)

theorem lnSum_le (s v n : ℕ) : lnSum s v n ≤ (n + 1) * s := by
  induction n with
  | zero => exact (lnRatio_le s v).trans (Nat.le_of_eq (Nat.one_mul s).symm)
  | succ n ih =>
    rw [Nat.succ_mul]
    exact Nat.add_le_add ih ((Nat.div_le_self _ _).trans (lnPower_le s v (n + 1)))

end

/-! ### Against the real logarithm -/

section

variable {s v : ℕ} (hs : 0 < s)
include hs

/-- The exact ratio. -/
theorem ratio_bounds (hv : v ≤ s) :
    (0 : ℝ) ≤ v / (2 * s + v) ∧ (v / (2 * s + v) : ℝ) ≤ 1 / 3 := by
  have hs' : (0 : ℝ) < s := by exact_mod_cast hs
  have hv' : (v : ℝ) ≤ s := by exact_mod_cast hv
  refine ⟨by positivity, ?_⟩
  rw [div_le_div_iff₀ (by positivity) (by norm_num)]
  linarith

theorem lnRatio_approx :
    (lnRatio s v : ℝ) ≤ s * (v / (2 * s + v)) ∧ s * (v / (2 * s + v) : ℝ) ≤ lnRatio s v + 1 := by
  have h := cast_div_bounds (a := v * s) (d := 2 * s + v) (by omega)
  have hcast : ((v * s : ℕ) / (2 * s + v : ℕ) : ℝ) = s * (v / (2 * s + v)) := by
    push_cast
    ring
  rwa [hcast] at h

/-- The rounded square of the ratio is at most two units below the exact one. -/
theorem lnRatio_sq_approx (hv : v ≤ s) :
    ((lnRatio s v * lnRatio s v / s : ℕ) : ℝ) ≤ s * (v / (2 * s + v)) ^ 2 ∧
      s * (v / (2 * s + v) : ℝ) ^ 2 ≤ (lnRatio s v * lnRatio s v / s : ℕ) + 2 := by
  have hs' : (0 : ℝ) < s := by exact_mod_cast hs
  obtain ⟨hz0, hz⟩ := ratio_bounds hs hv
  obtain ⟨hlo, hhi⟩ := lnRatio_approx (v := v) hs
  obtain ⟨hflo, hfhi⟩ := cast_div_bounds (a := lnRatio s v * lnRatio s v) hs
  have hρ : (0 : ℝ) ≤ lnRatio s v := Nat.cast_nonneg _
  generalize (v / (2 * s + v) : ℝ) = z at *
  push_cast at hflo hfhi ⊢
  have hsq : (lnRatio s v * lnRatio s v / s : ℝ) ≤ s * z ^ 2 := by
    rw [div_le_iff₀ hs']
    calc (lnRatio s v * lnRatio s v : ℝ) ≤ s * z * (s * z) := mul_le_mul hlo hlo hρ (by positivity)
      _ = s * z ^ 2 * s := by ring
  have hsq' : s * z ^ 2 ≤ (lnRatio s v * lnRatio s v / s : ℝ) + 1 := by
    rw [← sub_le_iff_le_add, le_div_iff₀ hs']
    -- the product loses at most `2 s z` through the two roundings
    have hlose : s * z * (s * z) - lnRatio s v * lnRatio s v ≤ 2 * (s * z) := by nlinarith
    nlinarith
  exact ⟨hflo.trans hsq, by linarith⟩

/-- A rounded power is at most two units below the exact one. -/
theorem lnPower_approx (hv : v ≤ s) (k : ℕ) :
    (lnPower s v k : ℝ) ≤ s * (v / (2 * s + v)) ^ (2 * k + 1) ∧
      s * (v / (2 * s + v) : ℝ) ^ (2 * k + 1) ≤ lnPower s v k + 2 := by
  have hs' : (0 : ℝ) < s := by exact_mod_cast hs
  obtain ⟨hz0, hz⟩ := ratio_bounds hs hv
  obtain ⟨hsqlo, hsqhi⟩ := lnRatio_sq_approx hs hv
  induction k with
  | zero =>
    obtain ⟨hlo, hhi⟩ := lnRatio_approx (v := v) hs
    rw [Nat.mul_zero, Nat.zero_add, pow_one]
    exact ⟨hlo, by rw [lnPower]; linarith⟩
  | succ k ih =>
    obtain ⟨hlo, hhi⟩ := ih
    obtain ⟨hflo, hfhi⟩ :=
      cast_div_bounds (a := lnPower s v k * (lnRatio s v * lnRatio s v / s)) hs
    have hρ : (0 : ℝ) ≤ (lnRatio s v * lnRatio s v / s : ℕ) := Nat.cast_nonneg _
    have hp : (0 : ℝ) ≤ lnPower s v k := Nat.cast_nonneg _
    have hpow : (v / (2 * s + v) : ℝ) ^ (2 * (k + 1) + 1) =
        (v / (2 * s + v)) ^ (2 * k + 1) * (v / (2 * s + v)) ^ 2 := by
      rw [← pow_add]
      congr 1
    have hpow_le : (v / (2 * s + v) : ℝ) ^ (2 * k + 1) ≤ 1 / 3 :=
      (pow_le_of_le_one hz0 (by linarith) (by omega)).trans hz
    have hpow0 : (0 : ℝ) ≤ (v / (2 * s + v)) ^ (2 * k + 1) := pow_nonneg hz0 _
    rw [lnPower, hpow]
    push_cast at hflo hfhi hsqlo hsqhi hρ ⊢
    generalize (v / (2 * s + v) : ℝ) = z at *
    generalize z ^ (2 * k + 1) = q at *
    generalize ((lnRatio s v * lnRatio s v / s : ℕ) : ℝ) = ρ at *
    generalize ((lnPower s v k * (lnRatio s v * lnRatio s v / s) / s : ℕ) : ℝ) = next at *
    generalize (lnPower s v k : ℝ) = p at *
    constructor
    · apply hflo.trans
      rw [div_le_iff₀ hs']
      calc p * ρ ≤ s * q * (s * z ^ 2) := mul_le_mul hlo hsqlo hρ (by positivity)
        _ = s * (q * z ^ 2) * s := by ring
    · have hgap : s * (q * z ^ 2) ≤ p * ρ / s + 1 := by
        rw [← sub_le_iff_le_add, le_div_iff₀ hs']
        have hexact : s * q * (s * z ^ 2) ≤ (p + 2) * (s * z ^ 2) :=
          mul_le_mul_of_nonneg_right hhi (by positivity)
        have hround : p * (s * z ^ 2) ≤ p * (ρ + 2) := mul_le_mul_of_nonneg_left hsqhi hp
        -- what is lost is at most eight ninths of a unit
        have hp_le : p ≤ s / 3 := by nlinarith
        have hz_sq : z ^ 2 ≤ (1 / 3) ^ 2 := pow_le_pow_left₀ hz0 hz 2
        have hsq_le : s * z ^ 2 ≤ s * (1 / 3) ^ 2 := mul_le_mul_of_nonneg_left hz_sq hs'.le
        calc (s * (q * z ^ 2) - 1) * s = s * q * (s * z ^ 2) - s := by ring
          _ ≤ p * (ρ + 2) + 2 * (s * z ^ 2) - s := by linarith
          _ ≤ p * ρ := by linarith
      linarith

theorem lnSum_approx_sum (hv : v ≤ s) (n : ℕ) :
    |(lnSum s v n : ℝ) -
        s * ∑ i ∈ range (n + 1), (v / (2 * s + v) : ℝ) ^ (2 * i + 1) / (2 * i + 1)| ≤
      2 * n + 1 := by
  induction n with
  | zero =>
    obtain ⟨hlo, hhi⟩ := lnRatio_approx (v := v) hs
    simp only [lnSum, range_one, sum_singleton, Nat.cast_zero, mul_zero, pow_one, zero_add,
      div_one]
    exact abs_le.mpr ⟨by linarith, by linarith⟩
  | succ n ih =>
    obtain ⟨hlo, hhi⟩ := lnPower_approx hs hv (n + 1)
    obtain ⟨hflo, hfhi⟩ :=
      cast_div_bounds (a := lnPower s v (n + 1)) (d := 2 * n + 3) (by omega)
    have hn : (0 : ℝ) ≤ n := Nat.cast_nonneg n
    have hd : (0 : ℝ) < 2 * ((n + 1 : ℕ) : ℝ) + 1 := by positivity
    have hcast : ((2 * n + 3 : ℕ) : ℝ) = 2 * ((n + 1 : ℕ) : ℝ) + 1 := by
      push_cast
      ring
    rw [hcast] at hflo hfhi
    have hterm : |((lnPower s v (n + 1) / (2 * n + 3) : ℕ) : ℝ) -
        s * ((v / (2 * s + v) : ℝ) ^ (2 * (n + 1) + 1) / (2 * ((n + 1 : ℕ) : ℝ) + 1))| ≤ 2 := by
      have hup := div_le_div_of_nonneg_right hlo hd.le
      have hdown := div_le_div_of_nonneg_right hhi hd.le
      have htwo : 2 / (2 * ((n + 1 : ℕ) : ℝ) + 1) ≤ 1 := by
        rw [div_le_one hd]
        push_cast
        linarith
      rw [add_div] at hdown
      rw [← mul_div_assoc]
      exact abs_le.mpr ⟨by linarith, by linarith⟩
    rw [sum_range_succ _ (n + 1), lnSum]
    have hsplit := abs_add_le
      ((lnSum s v n : ℝ) -
        s * ∑ i ∈ range (n + 1), (v / (2 * s + v) : ℝ) ^ (2 * i + 1) / (2 * i + 1))
      (((lnPower s v (n + 1) / (2 * n + 3) : ℕ) : ℝ) -
        s * ((v / (2 * s + v) : ℝ) ^ (2 * (n + 1) + 1) / (2 * ((n + 1 : ℕ) : ℝ) + 1)))
    calc _ = _ := by
          congr 1
          push_cast
          ring
      _ ≤ _ := hsplit
      _ ≤ 2 * ((n + 1 : ℕ) : ℝ) + 1 := by
          push_cast at hterm ih ⊢
          linarith

/-- **The logarithm.** Twice the sum of the odd powers is within `4 n + 2` units and the remainder
of the series of the logarithm of one plus the argument. -/
theorem lnSum_approx (hv : v ≤ s) (n : ℕ) :
    |2 * (lnSum s v n : ℝ) - s * Real.log (1 + v / s)| ≤
      4 * n + 2 + 9 / 4 * s * (1 / 3) ^ (2 * n + 3) := by
  have hs' : (0 : ℝ) < s := by exact_mod_cast hs
  have hv0 : (0 : ℝ) ≤ v := Nat.cast_nonneg v
  obtain ⟨hz0, hz⟩ := ratio_bounds hs hv
  have habs : |(v / (2 * s + v) : ℝ)| < 1 := by
    rw [abs_of_nonneg hz0]
    linarith
  have htail := Real.sum_range_sub_log_div_le habs (n + 1)
  have hlog : (1 + v / (2 * s + v) : ℝ) / (1 - v / (2 * s + v)) = 1 + v / s := by
    field_simp
    ring
  rw [hlog, abs_of_nonneg hz0] at htail
  have hrest : (v / (2 * s + v) : ℝ) ^ (2 * (n + 1) + 1) / (1 - (v / (2 * s + v)) ^ 2) ≤
      9 / 8 * (1 / 3) ^ (2 * n + 3) := by
    have hpow := pow_le_pow_left₀ hz0 hz (2 * (n + 1) + 1)
    have hsq := pow_le_pow_left₀ hz0 hz 2
    rw [div_le_iff₀ (by linarith)]
    have hpos : (0 : ℝ) ≤ (1 / 3) ^ (2 * n + 3) := by positivity
    rw [show 2 * (n + 1) + 1 = 2 * n + 3 by ring] at hpow ⊢
    nlinarith
  have hsum := lnSum_approx_sum hs hv n
  rw [abs_le] at htail hsum ⊢
  obtain ⟨h1, h2⟩ := htail
  obtain ⟨h3, h4⟩ := hsum
  have h5 := mul_le_mul_of_nonneg_left h1 hs'.le
  have h6 := mul_le_mul_of_nonneg_left h2 hs'.le
  have h7 := mul_le_mul_of_nonneg_left hrest hs'.le
  constructor <;> nlinarith

end

end Lib.FixedPoint
