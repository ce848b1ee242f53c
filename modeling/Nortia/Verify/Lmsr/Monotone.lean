import Nortia.Verify.Lmsr.Accuracy

/-!
# The cost is monotone at trade granularity

One unit of the series can go the wrong way, since every term is rounded. The smallest trade moves
the imbalance far enough for the exponential to move by more than its noise (`expValue_antitone`),
and where the largest quantity moves with the trade the softplus moves by half as much at most. So
a trade never lowers the cost, and never raises it by more than the shares traded.
-/

namespace Nortia.Lmsr

open Lib Lib.FixedPoint

/-! ## The noise of the series -/

theorem fixedScale_pos_real : (0 : ℝ) < fixedScale := by
  rw [cast_fixedScale]
  norm_num

/-- The remainder of the range reduction leaves an exponential of at least one half. -/
theorem half_le_exp {r : ℕ} (hr : r ≤ ln2Fixed) :
    1 / 2 ≤ Real.exp (-(r / fixedScale : ℝ)) := by
  obtain ⟨hlo, -⟩ := ln2Fixed_bounds
  have hr' : (r : ℝ) ≤ ln2Fixed := by exact_mod_cast hr
  have hlog : (r / fixedScale : ℝ) ≤ Real.log 2 := by
    rw [div_le_iff₀ fixedScale_pos_real]
    linarith
  calc (1 / 2 : ℝ) = Real.exp (-Real.log 2) := by
        rw [Real.exp_neg, Real.exp_log (by norm_num), one_div]
    _ ≤ Real.exp (-(r / fixedScale : ℝ)) := Real.exp_le_exp.mpr (by linarith)

/-- The sum at a remainder, shifted up by the number of halvings, covers the sum at a remainder
that is at least 1000 units further. -/
theorem expSum_far {r r' j : ℕ} (hr : r ≤ ln2Fixed) (hr' : r' ≤ ln2Fixed)
    (hfar : r + 1000 ≤ j * ln2Fixed + r') :
    (expSum fixedScale r' 22).toNat ≤ 2 ^ j * (expSum fixedScale r 22).toNat := by
  have hle : ln2Fixed ≤ fixedScale := by decide
  have hsum := expSum_close (hr.trans hle)
  have hsum' := expSum_close (hr'.trans hle)
  rw [← cast_toNat_expSum (hr.trans hle)] at hsum
  rw [← cast_toNat_expSum (hr'.trans hle)] at hsum'
  have hhalf := half_le_exp hr
  have hhalf' := half_le_exp hr'
  obtain ⟨hlog, -⟩ := ln2Fixed_bounds
  have hscale := fixedScale_pos_real
  -- the exact exponentials are `exp (1000 / SCALE)` apart
  have hexact : Real.exp (-(r' / fixedScale : ℝ)) * (1 + 1000 / fixedScale) ≤
      2 ^ j * Real.exp (-(r / fixedScale : ℝ)) := by
    have hpow : (2 : ℝ) ^ j = Real.exp (j * Real.log 2) := by
      rw [Real.exp_nat_mul, Real.exp_log (by norm_num)]
    have hone := Real.add_one_le_exp (1000 / fixedScale : ℝ)
    have hfar' : (r + 1000 : ℝ) ≤ j * ln2Fixed + r' := by exact_mod_cast hfar
    have hj : (0 : ℝ) ≤ j := Nat.cast_nonneg j
    calc Real.exp (-(r' / fixedScale : ℝ)) * (1 + 1000 / fixedScale)
        ≤ Real.exp (-(r' / fixedScale : ℝ)) * Real.exp (1000 / fixedScale) :=
          mul_le_mul_of_nonneg_left (by linarith) (Real.exp_pos _).le
      _ = Real.exp (-(r' / fixedScale : ℝ) + 1000 / fixedScale) := (Real.exp_add _ _).symm
      _ ≤ Real.exp (j * Real.log 2 + -(r / fixedScale : ℝ)) := by
          apply Real.exp_le_exp.mpr
          rw [← sub_nonneg]
          have hgap : j * Real.log 2 + -(r / fixedScale : ℝ) -
              (-(r' / fixedScale : ℝ) + 1000 / fixedScale) =
              (j * (fixedScale * Real.log 2) + r' - (r + 1000)) / fixedScale := by
            field_simp
            ring
          rw [hgap]
          apply div_nonneg _ hscale.le
          have := mul_le_mul_of_nonneg_left hlog hj
          linarith
      _ = 2 ^ j * Real.exp (-(r / fixedScale : ℝ)) := by rw [Real.exp_add, ← hpow]
  have hpow1 : (1 : ℝ) ≤ 2 ^ j := one_le_pow₀ (by norm_num)
  have hcast : ((2 ^ j * (expSum fixedScale r 22).toNat : ℕ) : ℝ) =
      2 ^ j * ((expSum fixedScale r 22).toNat : ℝ) := by
    push_cast
    rfl
  have hunit : Real.exp (-(r' / fixedScale : ℝ)) ≤ 1 := by
    apply Real.exp_le_one_iff.mpr
    simp only [Left.neg_nonpos_iff]
    positivity
  rw [← Nat.cast_le (α := ℝ), hcast]
  generalize ((expSum fixedScale r 22).toNat : ℝ) = sum at *
  generalize ((expSum fixedScale r' 22).toNat : ℝ) = sum' at *
  generalize Real.exp (-(r / fixedScale : ℝ)) = e at *
  generalize Real.exp (-(r' / fixedScale : ℝ)) = e' at *
  generalize (2 : ℝ) ^ j = p at *
  rw [abs_le] at hsum hsum'
  rw [cast_fixedScale] at hsum hsum' hexact
  -- the noise at the nearer remainder is a small part of its exponential
  have hnoise : 1000000000000 * e * (1 - 48 / 1000000000000) ≤ sum := by linarith
  have hshift := mul_le_mul_of_nonneg_left hnoise (zero_le_one.trans hpow1)
  nlinarith

/-- **Distant arguments.** Over a distance of 1000 units the exponential does not rise. -/
theorem expValue_antitone {x x' : ℕ} (h : x + 1000 ≤ x') : expValue x' ≤ expValue x := by
  have hx := Nat.div_add_mod x ln2Fixed
  have hx' := Nat.div_add_mod x' ln2Fixed
  have hr := (Nat.mod_lt x ln2Fixed_pos).le
  have hr' := (Nat.mod_lt x' ln2Fixed_pos).le
  obtain ⟨j, hj⟩ := Nat.exists_eq_add_of_le
    (Nat.div_le_div_right (c := ln2Fixed) (Nat.le_of_add_right_le h))
  have hfar : x % ln2Fixed + 1000 ≤ j * ln2Fixed + x' % ln2Fixed := by
    rw [hj, Nat.mul_add, Nat.mul_comm ln2Fixed j] at hx'
    omega
  have hsum := expSum_far hr hr' hfar
  unfold expValue
  rw [Nat.shiftRight_eq_div_pow, Nat.shiftRight_eq_div_pow, hj, Nat.pow_add, Nat.mul_comm (2 ^ _),
    ← Nat.div_div_eq_div_mul]
  apply Nat.div_le_div_right
  exact Nat.div_le_of_le_mul hsum

theorem softplus_antitone {x x' : ℕ} (h : x + 1000 ≤ x') : softplus x' ≤ softplus x :=
  lnValue_mono (expValue_antitone h)

/-- At any distance the softplus drops by half of it at most, and otherwise moves by its noise. -/
theorem softplus_drop (x x' : ℕ) : 2 * softplus x ≤ 2 * softplus x' + (x' - x) + 364 := by
  have hclose := softplus_close x
  have hclose' := softplus_close x'
  have hscale := fixedScale_pos_real
  have hx : (0 : ℝ) ≤ x / fixedScale := by positivity
  rw [abs_le] at hclose hclose'
  rcases Nat.le_total x x' with hle | hle
  · have hle' : (x / fixedScale : ℝ) ≤ x' / fixedScale := by
      apply div_le_div_of_nonneg_right _ hscale.le
      exact_mod_cast hle
    have hstep := mul_le_mul_of_nonneg_left ((softplus_lipschitz hle').2 hx) hscale.le
    have hgap : (fixedScale : ℝ) * ((x' / fixedScale - x / fixedScale) / 2) = (x' - x) / 2 := by
      field_simp
    rw [mul_add, hgap] at hstep
    have : (2 * softplus x : ℝ) ≤ 2 * softplus x' + (x' - x) + 364 := by linarith
    have hcast : ((2 * softplus x : ℕ) : ℝ) ≤ ((2 * softplus x' + (x' - x) + 364 : ℕ) : ℝ) := by
      push_cast [Nat.cast_sub hle]
      exact this
    exact_mod_cast hcast
  · have hle' : (x' / fixedScale : ℝ) ≤ x / fixedScale := by
      apply div_le_div_of_nonneg_right _ hscale.le
      exact_mod_cast hle
    have hstep := mul_le_mul_of_nonneg_left (softplus_lipschitz hle').1 hscale.le
    have : (2 * softplus x : ℝ) ≤ 2 * softplus x' + 364 := by linarith
    have hcast : 2 * softplus x ≤ 2 * softplus x' + 364 := by exact_mod_cast this
    omega

/-! ## One trade -/

section

variable {b : ℕ} (hb : 0 < b) (hmax : b ≤ maxLiquidityParameter)
include hb hmax

/-- At every admitted liquidity, 1001 shares of imbalance are 1000 units of the scaled one. -/
theorem ratio_far {d d' : ℕ} (h : d + 1001 ≤ d') :
    d * fixedScale / b + 1000 ≤ d' * fixedScale / b := by
  rw [Nat.le_div_iff_mul_le hb, Nat.add_mul]
  have hfloor := Nat.div_mul_le_self (d * fixedScale) b
  have hscaled := Nat.mul_le_mul_right fixedScale h
  simp only [maxLiquidityParameter, fixedScale] at *
  omega

theorem weighted_antitone (d d' : ℕ) (h : d + 1001 ≤ d') :
    b * softplus (d' * fixedScale / b) ≤ b * softplus (d * fixedScale / b) :=
  Nat.mul_le_mul_left b (softplus_antitone (ratio_far hb hmax h))

/-- The weighted softplus drops by half of the added imbalance at most, up to 183 shares. -/
theorem weighted_drop (d d' : ℕ) :
    2 * (b * softplus (d * fixedScale / b)) ≤
      2 * (b * softplus (d' * fixedScale / b)) + (d' - d) * fixedScale + 366 * fixedScale := by
  have hdrop := Nat.mul_le_mul_left b
    (softplus_drop (d * fixedScale / b) (d' * fixedScale / b))
  have hgap : b * (d' * fixedScale / b - d * fixedScale / b) ≤ (d' - d) * fixedScale + b := by
    have hlo := Nat.lt_div_mul_add (a := d * fixedScale) hb
    have hhi := Nat.div_mul_le_self (d' * fixedScale) b
    rw [Nat.mul_sub, Nat.sub_mul, Nat.mul_comm b, Nat.mul_comm b]
    omega
  have hb' : 365 * b ≤ 365 * fixedScale := Nat.mul_le_mul_left 365 hmax
  rw [Nat.mul_add, Nat.mul_add, Nat.mul_left_comm, Nat.mul_left_comm b 2] at hdrop
  omega

omit hb hmax in
theorem cost_of_le {yes no : ℕ} (h : no ≤ yes) :
    cost ⟨yes, no⟩ b = yes * fixedScale + b * softplus ((yes - no) * fixedScale / b) := by
  rw [cost, ratioOf, absDiff, Nat.max_eq_left h, Nat.min_eq_right h]

omit hb hmax in
theorem cost_of_ge {yes no : ℕ} (h : yes ≤ no) :
    cost ⟨yes, no⟩ b = no * fixedScale + b * softplus ((no - yes) * fixedScale / b) := by
  rw [cost, ratioOf, absDiff, Nat.max_eq_right h, Nat.min_eq_left h]

/-- **One trade** never lowers the cost, and raises it by the shares traded at most. -/
theorem cost_step {s : ℕ} (hs : minTradeShares ≤ s) (yes no : ℕ) :
    cost ⟨yes, no⟩ b ≤ cost ⟨yes + s, no⟩ b ∧
      cost ⟨yes + s, no⟩ b ≤ cost ⟨yes, no⟩ b + s * fixedScale := by
  simp only [minTradeShares] at hs
  rcases le_or_gt no yes with hyes | hno
  · -- the largest quantity moves with the trade, the imbalance grows
    obtain ⟨d, rfl⟩ := Nat.exists_eq_add_of_le hyes
    have hdrop := weighted_drop hb hmax d (d + s)
    have hrise := weighted_antitone hb hmax d (d + s) (by omega)
    rw [cost_of_le hyes, cost_of_le (hyes.trans (Nat.le_add_right _ s)), Nat.add_assoc,
      Nat.add_sub_cancel_left, Nat.add_sub_cancel_left]
    rw [Nat.add_sub_cancel_left] at hdrop
    generalize softplus (d * fixedScale / b) = before at *
    generalize softplus ((d + s) * fixedScale / b) = after at *
    simp only [fixedScale] at *
    omega
  · obtain ⟨d, rfl⟩ := Nat.exists_eq_add_of_le hno.le
    rw [cost_of_ge hno.le, Nat.add_sub_cancel_left]
    rcases Nat.le_total s d with hle | hgt
    · -- the largest quantity stays, the imbalance shrinks
      obtain ⟨d', rfl⟩ := Nat.exists_eq_add_of_le hle
      have hdrop := weighted_drop hb hmax d' (s + d')
      have hrise := weighted_antitone hb hmax d' (s + d') (by omega)
      rw [cost_of_ge (by omega), ← Nat.add_assoc, Nat.add_sub_cancel_left]
      rw [Nat.add_sub_cancel] at hdrop
      generalize softplus ((s + d') * fixedScale / b) = before at *
      generalize softplus (d' * fixedScale / b) = after at *
      simp only [fixedScale] at *
      omega
    · -- the trade crosses the balance point
      obtain ⟨d', rfl⟩ := Nat.exists_eq_add_of_le hgt
      have hdown := weighted_drop hb hmax d d'
      have hup := weighted_drop hb hmax d' d
      have hfar := weighted_antitone hb hmax d d'
      have hfar' := weighted_antitone hb hmax d' d
      rw [cost_of_le (by omega), ← Nat.add_assoc, Nat.add_sub_cancel_left]
      generalize softplus (d * fixedScale / b) = before at *
      generalize softplus (d' * fixedScale / b) = after at *
      simp only [fixedScale] at *
      omega

end

end Nortia.Lmsr
