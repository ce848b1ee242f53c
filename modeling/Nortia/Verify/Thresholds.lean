import Nortia.Client.Oracles
import Mathlib.Algebra.Order.Field.Power
import Mathlib.Tactic.NormNum

/-!
# Thresholds are parsed exactly

What is returned is the number of the text at the exponent, and what is refused is no plain decimal,
is too fine for the exponent or too large for its width.
-/

namespace Nortia.Client

open Lib

variable {value : List Char} {exponent : Int}

/-- The number a plain decimal denotes, in units of the exponent. -/
def unitsAt (d : PlainDecimal) (exponent : Int) : ℚ := d.value * 10 ^ (-exponent)

/-- Why a text has no threshold at an exponent. -/
inductive Refused (value : List Char) (exponent : Int) : Prop
  | grammar (h : ∀ d : PlainDecimal, d.text ≠ value)
  | places (d : PlainDecimal) (htext : d.text = value) (h : -exponent < d.digits.length)
  | range (d : PlainDecimal) (htext : d.text = value)
      (h : unitsAt d exponent < i128Min ∨ i128Max < unitsAt d exponent)

section Admitted

variable (hexponent : -18 ≤ exponent ∧ exponent ≤ 0)

include hexponent

theorem cast_scaled_eq {d : PlainDecimal} (h : d.digits.length ≤ (-exponent).toNat) :
    (d.scaled (-exponent).toNat : ℚ) = unitsAt d exponent := by
  have hprecision : (-exponent) = ((-exponent).toNat : Int) := by omega
  rw [PlainDecimal.cast_scaled h, unitsAt]
  nth_rewrite 2 [hprecision]
  rw [zpow_natCast]

/-- A threshold is the number of some plain decimal that is fine and small enough. -/
theorem parseDecimalAtExponent_eq_ok {n : Int} :
    parseDecimalAtExponent value exponent = .ok n ↔
      ∃ d : PlainDecimal, d.text = value ∧ d.digits.length ≤ (-exponent).toNat ∧
        n = d.scaled (-exponent).toNat ∧ i128Min ≤ n ∧ n ≤ i128Max := by
  simp only [parseDecimalAtExponent, bind_eq_ok, require_eq_ok, okOr_eq_ok, Except.ok.injEq,
    PlainDecimal.read_eq_some]
  constructor
  · rintro ⟨-, -, d, htext, -, hplaces, -, hrange, rfl⟩
    exact ⟨d, htext, hplaces, rfl, hrange⟩
  · rintro ⟨d, htext, hplaces, rfl, hrange⟩
    exact ⟨(), hexponent, d, htext, (), hplaces, (), hrange, rfl⟩

/-- The text of a refused threshold has none. -/
theorem Refused.not_ok (h : Refused value exponent) (n : Int) :
    parseDecimalAtExponent value exponent ≠ .ok n := by
  intro hok
  obtain ⟨d, htext, hplaces, rfl, hlow, hhigh⟩ := (parseDecimalAtExponent_eq_ok hexponent).mp hok
  cases h with
  | grammar h => exact h d htext
  | places d' htext' h =>
    cases PlainDecimal.text_injective (htext'.trans htext.symm)
    omega
  | range d' htext' h =>
    cases PlainDecimal.text_injective (htext'.trans htext.symm)
    rw [← cast_scaled_eq hexponent hplaces] at h
    rcases h with h | h
    · exact absurd (Int.cast_lt.mp h) (not_lt.mpr hlow)
    · exact absurd (Int.cast_lt.mp h) (not_lt.mpr hhigh)

/-- A text that is not refused has a threshold. -/
theorem ok_of_not_refused (h : ¬Refused value exponent) :
    ∃ n, parseDecimalAtExponent value exponent = .ok n := by
  have htext : ∃ d : PlainDecimal, d.text = value := by
    by_contra hnone
    exact h (.grammar fun d hd => hnone ⟨d, hd⟩)
  obtain ⟨d, htext⟩ := htext
  have hplaces : d.digits.length ≤ (-exponent).toNat := by
    by_contra hfine
    exact h (.places d htext (by omega))
  refine ⟨_, (parseDecimalAtExponent_eq_ok hexponent).mpr ⟨d, htext, hplaces, rfl, ?_, ?_⟩⟩
  · by_contra hlow
    refine h (.range d htext (.inl ?_))
    rw [← cast_scaled_eq hexponent hplaces]
    exact Int.cast_lt.mpr (not_le.mp hlow)
  · by_contra hhigh
    refine h (.range d htext (.inr ?_))
    rw [← cast_scaled_eq hexponent hplaces]
    exact Int.cast_lt.mpr (not_le.mp hhigh)

/-- **Decimal thresholds are exact.** At every exponent it admits, the parser returns the number the
text denotes, which fits `i128`, and refuses exactly the texts that are no plain decimals, have more
digits after the point than the exponent, or denote a number out of range. -/
theorem parseDecimalAtExponent_exact (value : List Char) :
    (∀ n, parseDecimalAtExponent value exponent = .ok n →
      (i128Min ≤ n ∧ n ≤ i128Max) ∧
        ∃! d : PlainDecimal, d.text = value ∧ (n : ℚ) * 10 ^ exponent = d.value) ∧
    ((∃ error, parseDecimalAtExponent value exponent = .error error) ↔ Refused value exponent) := by
  constructor
  · intro n hn
    obtain ⟨d, htext, hplaces, rfl, hrange⟩ := (parseDecimalAtExponent_eq_ok hexponent).mp hn
    refine ⟨hrange, d, ⟨htext, ?_⟩, ?_⟩
    · have hten : (10 : ℚ) ^ (-exponent) * 10 ^ exponent = 1 := by
        rw [← zpow_add₀ (by norm_num), neg_add_cancel, zpow_zero]
      rw [cast_scaled_eq hexponent hplaces, unitsAt, mul_assoc, hten, mul_one]
    · rintro d' ⟨htext', -⟩
      exact PlainDecimal.text_injective (htext'.trans htext.symm)
  · constructor
    · rintro ⟨error, herror⟩
      by_contra hnot
      obtain ⟨n, hn⟩ := ok_of_not_refused hexponent hnot
      rw [herror] at hn
      cases hn
    · intro hrefused
      cases hresult : parseDecimalAtExponent value exponent with
      | ok n => exact absurd hresult (hrefused.not_ok hexponent n)
      | error error => exact ⟨error, rfl⟩

end Admitted

/-- A negative number with fewer digits after the point than the exponent allows. -/
theorem parseDecimalAtExponent_exact_padded :
    parseDecimalAtExponent "-12.34".toList (-4) = .ok (-123400) ∧
      ∃ d : PlainDecimal, d.text = "-12.34".toList ∧ (-123400 : ℚ) * 10 ^ (-4 : Int) = d.value := by
  have hok : parseDecimalAtExponent "-12.34".toList (-4) = .ok (-123400) := by
    refine (parseDecimalAtExponent_eq_ok (by decide)).mpr ?_
    refine ⟨⟨true, "12".toList, some "34".toList, by decide, by decide⟩, by decide, by decide,
      by decide, by decide, by decide⟩
  obtain ⟨hexact, -⟩ := parseDecimalAtExponent_exact (by decide : (-18 : Int) ≤ -4 ∧ (-4 : Int) ≤ 0)
    "-12.34".toList
  obtain ⟨-, d, ⟨htext, hvalue⟩, -⟩ := hexact _ hok
  refine ⟨hok, d, htext, ?_⟩
  rw [← hvalue]
  norm_num

end Nortia.Client
