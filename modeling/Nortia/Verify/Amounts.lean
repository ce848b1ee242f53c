import Mathlib.Data.List.TakeWhile
import Mathlib.Tactic.ByContra
import Nortia.Client.Economics

/-!
# Amounts of USDC as texts

The trading panel fills its field with a formatted amount and reads the field back. A formatted amount
separates the thousands, which the reader does not take.
-/

namespace Nortia.Client

open Lib

/-! ## Separators -/

/-- A digit, as `Nat.toDigits` writes them. -/
theorem isDigit_toDigits (n : Nat) : ∀ c ∈ Nat.toDigits 10 n, c.isDigit = true := by
  have h := Decimal.isDigits_repr n
  rw [Nat.toList_repr, Decimal.isDigits, Bool.and_eq_true, List.all_eq_true] at h
  exact h.2

theorem separated_of_length {digits : List Char} (h : digits.length ≤ 3) :
    separated digits = digits := by
  unfold separated
  split
  · simp only [List.length_cons] at h
    omega
  · rfl

theorem comma_mem_separated {digits : List Char} (h : 3 < digits.length) : ',' ∈ separated digits := by
  match digits with
  | a :: b :: c :: d :: rest =>
    rw [separated]
    simp

/-- **Thousands are separated** from a thousand on. -/
theorem localeDigits_eq {n : Nat} (h : n < 1000) : localeDigits n = Nat.toDigits 10 n := by
  have hlength : (Nat.toDigits 10 n).length ≤ 3 :=
    (Nat.length_toDigits_le_iff (by decide) (by decide)).mpr h
  rw [localeDigits, separated_of_length (by rwa [List.length_reverse]), List.reverse_reverse]

theorem comma_mem_localeDigits {n : Nat} (h : 1000 ≤ n) : ',' ∈ localeDigits n := by
  have hlength : 3 < (Nat.toDigits 10 n).length := by
    by_contra hshort
    have hlt := (Nat.length_toDigits_le_iff (by decide) (by decide)).mp (Nat.not_lt.mp hshort)
    omega
  rw [localeDigits, List.mem_reverse]
  exact comma_mem_separated (by rwa [List.length_reverse])

/-! ## The six places -/

/-- The six digits of a fraction. -/
def places (n : Nat) : List Char :=
  List.replicate (6 - (Nat.toDigits 10 n).length) '0' ++ Nat.toDigits 10 n

theorem length_places {n : Nat} (h : n < usdcScale) : (places n).length = 6 := by
  have hlength : (Nat.toDigits 10 n).length ≤ 6 :=
    (Nat.length_toDigits_le_iff (by decide) (by decide)).mpr h
  rw [places, List.length_append, List.length_replicate]
  omega

theorem isDigit_places (n : Nat) : ∀ c ∈ places n, c.isDigit = true := by
  intro c hc
  rcases List.mem_append.mp hc with hzero | hdigit
  · rw [List.eq_of_mem_replicate hzero]
    rfl
  · exact isDigit_toDigits n c hdigit

theorem ofDigitChars_places (n : Nat) : Nat.ofDigitChars 10 (places n) 0 = n := by
  rw [places, Nat.ofDigitChars_append, Nat.ofDigitChars_replicate_zero, Nat.mul_zero,
    Nat.ofDigitChars_ten_toDigits]

/-- What is left of a text without the zeros at its end, with the zeros. -/
theorem strip_append (text : List Char) : ∃ zeros : Nat,
    text = (text.reverse.dropWhile (· = '0')).reverse ++ List.replicate zeros '0' := by
  refine ⟨(text.reverse.takeWhile (· = '0')).length, ?_⟩
  have hzeros : text.reverse.takeWhile (· = '0') =
      List.replicate (text.reverse.takeWhile (· = '0')).length '0' := by
    apply List.eq_replicate_of_mem
    intro c hc
    have hzero := List.mem_takeWhile_imp (p := fun c => decide (c = '0')) hc
    exact of_decide_eq_true hzero
  have hsplit := congrArg List.reverse
    (List.takeWhile_append_dropWhile (p := fun c => decide (c = '0')) (l := text.reverse))
  rw [List.reverse_append, List.reverse_reverse] at hsplit
  rw [← List.reverse_replicate, ← hzeros]
  exact hsplit.symm

/-- The zeros come back. -/
theorem padEnd_usdcFraction {n : Nat} (h : n < usdcScale) : padEnd 6 (usdcFraction n) = places n := by
  obtain ⟨zeros, hzeros⟩ := strip_append (places n)
  have hlength := congrArg List.length hzeros
  rw [length_places h, List.length_append, List.length_replicate] at hlength
  have hvisible : usdcFraction n = ((places n).reverse.dropWhile (· = '0')).reverse := rfl
  rw [padEnd, hvisible]
  have hcount : 6 - ((places n).reverse.dropWhile (· = '0')).reverse.length = zeros := by omega
  rw [hcount]
  exact hzeros.symm

theorem mem_usdcFraction {n : Nat} : ∀ c ∈ usdcFraction n, c.isDigit = true := by
  intro c hc
  obtain ⟨zeros, hzeros⟩ := strip_append (places n)
  apply isDigit_places n
  rw [hzeros]
  exact List.mem_append_left _ hc

theorem length_usdcFraction {n : Nat} (h : n < usdcScale) : (usdcFraction n).length ≤ 6 := by
  have hlength := congrArg List.length (padEnd_usdcFraction h)
  rw [length_places h, padEnd, List.length_append, List.length_replicate] at hlength
  omega

/-! ## Reading -/

/-- What the reader takes consists of digits, with one point at most. -/
theorem mem_of_usdcParts {text : List Char} {parts : List Char × List Char}
    (h : usdcParts text = some parts) : ∀ c ∈ text, c.isDigit = true ∨ c = '.' := by
  intro c hc
  rw [← List.takeWhile_append_dropWhile (p := Char.isDigit) (l := text), List.mem_append] at hc
  rcases hc with hwhole | hrest
  · exact .inl (List.mem_takeWhile_imp hwhole)
  · unfold usdcParts at h
    dsimp only at h
    split at h
    · split at h
      · next hnil =>
        rw [hnil] at hrest
        cases hrest
      · next fraction hpoint =>
        split at h
        · next hdigits =>
          rw [hpoint] at hrest
          rcases List.mem_cons.mp hrest with rfl | hfraction
          · exact .inr rfl
          · rw [Decimal.isDigits, Bool.and_eq_true, List.all_eq_true] at hdigits
            exact .inl (hdigits.1.2 c hfraction)
        · cases h
      · cases h
    · cases h

/-- Digits in front of a point, or of nothing. -/
theorem usdcParts_append {whole fraction : List Char} (hwhole : ∀ c ∈ whole, c.isDigit = true)
    (hhead : whole = ['0'] ∨ (whole ≠ [] ∧ whole.head? ≠ some '0'))
    (hfraction : ∀ c ∈ fraction, c.isDigit = true) (hlength : fraction.length ≤ 6) :
    usdcParts (whole ++ if fraction = [] then [] else '.' :: fraction) = some (whole, fraction) := by
  have hrest : ∀ c ∈ (if fraction = [] then [] else '.' :: fraction).head?, c.isDigit = false := by
    intro c hc
    split at hc
    · cases hc
    · cases hc
      rfl
  have htake : (whole ++ if fraction = [] then [] else '.' :: fraction).takeWhile Char.isDigit =
      whole := by
    rw [List.takeWhile_append_of_pos hwhole]
    split
    · simp
    · simp
  have hdrop : (whole ++ if fraction = [] then [] else '.' :: fraction).dropWhile Char.isDigit =
      if fraction = [] then [] else '.' :: fraction := by
    rw [List.dropWhile_append_of_pos hwhole]
    split
    · rfl
    · rfl
  unfold usdcParts
  simp only [htake, hdrop, if_pos hhead]
  by_cases hempty : fraction = []
  · rw [hempty]
    rfl
  · have hdigits : Decimal.isDigits fraction = true ∧ fraction.length ≤ 6 := by
      refine ⟨?_, hlength⟩
      rw [Decimal.isDigits, Bool.and_eq_true, List.all_eq_true]
      exact ⟨by simpa using hempty, hfraction⟩
    rw [if_neg hempty]
    simp only [if_pos hdigits]

/-- **A formatted amount reads as itself exactly below a thousand USDC.** -/
theorem parseUsdc_formatUsdc_iff (n : Nat) :
    parseUsdc (formatUsdc n) = .ok (n : Int) ↔ n < 1000 * usdcScale := by
  have htext : (formatUsdc n).toList = localeDigits (n / usdcScale) ++
      if usdcFraction (n % usdcScale) = [] then [] else '.' :: usdcFraction (n % usdcScale) := by
    rw [formatUsdc, String.toList_ofList, if_neg (Int.not_lt.mpr (Int.natCast_nonneg n)),
      Int.natAbs_natCast]
    rfl
  have hfraction : n % usdcScale < usdcScale := Nat.mod_lt n (by decide)
  constructor
  · intro h
    by_contra hlarge
    have hthousand : 1000 ≤ n / usdcScale :=
      (Nat.le_div_iff_mul_le (by decide)).mpr (Nat.not_lt.mp hlarge)
    -- the comma is no digit
    obtain ⟨parts, hparts, -⟩ := bind_eq_ok.mp h
    rw [okOr_eq_ok, htext] at hparts
    have hcomma := mem_of_usdcParts hparts ','
      (List.mem_append_left _ (comma_mem_localeDigits hthousand))
    revert hcomma
    decide
  · intro h
    have hsmall : n / usdcScale < 1000 := Nat.div_lt_of_lt_mul (by rwa [Nat.mul_comm])
    have hhead : Nat.toDigits 10 (n / usdcScale) = ['0'] ∨
        (Nat.toDigits 10 (n / usdcScale) ≠ [] ∧
          (Nat.toDigits 10 (n / usdcScale)).head? ≠ some '0') := by
      rcases Nat.eq_zero_or_pos (n / usdcScale) with hzero | hpos
      · exact .inl (by rw [hzero]; rfl)
      · exact .inr ⟨List.length_pos_iff.mp Nat.length_toDigits_pos, Decimal.head?_toDigits hpos⟩
    have hparts := usdcParts_append (isDigit_toDigits (n / usdcScale)) hhead
      mem_usdcFraction (length_usdcFraction hfraction)
    rw [localeDigits_eq hsmall] at htext
    rw [← htext] at hparts
    refine bind_eq_ok.mpr ⟨_, okOr_eq_ok.mpr hparts, ?_⟩
    rw [padEnd_usdcFraction hfraction, ofDigitChars_places, Nat.ofDigitChars_ten_toDigits,
      Nat.mul_comm, Nat.div_add_mod]

end Nortia.Client
