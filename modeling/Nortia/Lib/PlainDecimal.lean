import Nortia.Lib.Decimal
import Mathlib.Algebra.Order.Field.Rat
import Mathlib.Data.List.TakeWhile
import Mathlib.Tactic.FieldSimp
import Mathlib.Tactic.Ring

/-!
# Plain decimal numbers

An optional minus sign, digits, and after a point some more digits. Such a text is read one way, and
with zeros put behind the fraction its digits are those of the scaled number.
-/

namespace Lib

structure PlainDecimal where
  negative : Bool
  whole : List Char
  fraction : Option (List Char)
  whole_isDigits : Decimal.isDigits whole = true
  fraction_isDigits : fraction.all Decimal.isDigits = true

namespace PlainDecimal

/-! ## Texts -/

/-- The sign of a text, and the rest. -/
def sign : List Char → Bool × List Char
  | '-' :: rest => (true, rest)
  | rest => (false, rest)

def ofParts (negative : Bool) (whole : List Char) (fraction : Option (List Char)) :
    Option PlainDecimal :=
  if h : Decimal.isDigits whole = true ∧ fraction.all Decimal.isDigits = true then
    some { negative, whole, fraction, whole_isDigits := h.1, fraction_isDigits := h.2 }
  else none

/-- What is read after the sign. -/
def readDigits (negative : Bool) (rest : List Char) : Option PlainDecimal :=
  match rest.dropWhile Char.isDigit with
  | [] => ofParts negative (rest.takeWhile Char.isDigit) none
  | '.' :: digits => ofParts negative (rest.takeWhile Char.isDigit) (some digits)
  | _ => none

/-- The match of `^(-?)(\d+)(?:\.(\d+))?$`. -/
def read (text : List Char) : Option PlainDecimal := readDigits (sign text).1 (sign text).2

variable (d : PlainDecimal)

/-- The digits after the point. -/
def digits : List Char := d.fraction.getD []

def text : List Char :=
  (if d.negative then ['-'] else []) ++ d.whole ++ (d.fraction.map ('.' :: ·)).getD []

variable {d}

theorem ofParts_eq_some {negative : Bool} {whole : List Char} {fraction : Option (List Char)} :
    ofParts negative whole fraction = some d ↔
      d.negative = negative ∧ d.whole = whole ∧ d.fraction = fraction := by
  unfold ofParts
  split
  · next h =>
    rw [Option.some.injEq]
    constructor
    · rintro rfl
      exact ⟨rfl, rfl, rfl⟩
    · rintro ⟨rfl, rfl, rfl⟩
      rfl
  · next h =>
    constructor
    · intro hnone
      cases hnone
    · rintro ⟨-, rfl, rfl⟩
      exact absurd ⟨d.whole_isDigits, d.fraction_isDigits⟩ h

theorem all_isDigit {digits : List Char} (h : Decimal.isDigits digits = true) :
    ∀ c ∈ digits, c.isDigit = true := by
  simp only [Decimal.isDigits, Bool.and_eq_true, List.all_eq_true] at h
  exact h.2

theorem ne_nil_of_isDigits {digits : List Char} (h : Decimal.isDigits digits = true) :
    digits ≠ [] := by
  rintro rfl
  cases h

theorem sign_of_ne {c : Char} (hc : c ≠ '-') (rest : List Char) :
    sign (c :: rest) = (false, c :: rest) := by
  unfold sign
  split
  · next heq =>
    cases heq
    exact absurd rfl hc
  · rfl

theorem sign_text : sign d.text =
    (d.negative, d.whole ++ (d.fraction.map ('.' :: ·)).getD []) := by
  unfold text
  cases d.negative with
  | true => rfl
  | false =>
    have hdigits := all_isDigit d.whole_isDigits
    have hne := ne_nil_of_isDigits d.whole_isDigits
    cases hwhole : d.whole with
    | nil => exact absurd hwhole hne
    | cons c rest =>
      rw [hwhole] at hdigits
      have hc : c ≠ '-' := by
        rintro rfl
        exact absurd (hdigits '-' List.mem_cons_self) (by decide)
      rw [if_neg Bool.false_ne_true, List.nil_append, List.cons_append, sign_of_ne hc]

/-- **A plain decimal is read from its text**, and from no other. -/
theorem read_eq_some {text : List Char} : read text = some d ↔ d.text = text := by
  constructor
  · intro h
    rw [read, readDigits] at h
    have hsign : (if (sign text).1 then ['-'] else []) ++ (sign text).2 = text := by
      unfold sign
      split <;> rfl
    have hsplit := List.takeWhile_append_dropWhile (p := Char.isDigit) (l := (sign text).2)
    split at h
    · next hrest =>
      obtain ⟨hnegative, hwhole, hfraction⟩ := ofParts_eq_some.mp h
      rw [hrest, List.append_nil] at hsplit
      rw [PlainDecimal.text, hnegative, hwhole, hfraction, hsplit, Option.map_none,
        Option.getD_none, List.append_nil, hsign]
    · next digits hrest =>
      obtain ⟨hnegative, hwhole, hfraction⟩ := ofParts_eq_some.mp h
      rw [hrest] at hsplit
      rw [PlainDecimal.text, hnegative, hwhole, hfraction, Option.map_some, Option.getD_some,
        List.append_assoc, hsplit, hsign]
    · cases h
  · rintro rfl
    have hdigits := all_isDigit d.whole_isDigits
    rw [read, sign_text, readDigits]
    cases hfraction : d.fraction with
    | none =>
      have hdrop : d.whole.dropWhile Char.isDigit = [] := List.dropWhile_eq_nil_iff.mpr hdigits
      have htake : d.whole.takeWhile Char.isDigit = d.whole :=
        List.takeWhile_eq_self_iff.mpr hdigits
      simp only [Option.map_none, Option.getD_none, List.append_nil, hdrop, htake]
      exact ofParts_eq_some.mpr ⟨rfl, rfl, hfraction⟩
    | some digits =>
      have hpoint : Char.isDigit '.' = false := by decide
      have hdrop : (d.whole ++ '.' :: digits).dropWhile Char.isDigit = '.' :: digits := by
        rw [List.dropWhile_append_of_pos hdigits,
          List.dropWhile_cons_of_neg (by rw [hpoint]; exact Bool.false_ne_true)]
      have htake : (d.whole ++ '.' :: digits).takeWhile Char.isDigit = d.whole := by
        rw [List.takeWhile_append_of_pos hdigits,
          List.takeWhile_cons_of_neg (by rw [hpoint]; exact Bool.false_ne_true), List.append_nil]
      simp only [Option.map_some, Option.getD_some, hdrop, htake]
      exact ofParts_eq_some.mpr ⟨rfl, rfl, hfraction⟩

theorem text_injective {d d' : PlainDecimal} (h : d.text = d'.text) : d = d' := by
  have hd := read_eq_some.mpr h
  have hd' := read_eq_some.mpr (rfl : d'.text = d'.text)
  exact Option.some.inj (hd.symm.trans hd')

/-! ## Values -/

/-- The number of a digit string. -/
def number (digits : List Char) : Nat := Nat.ofDigitChars 10 digits 0

/-- The rational a plain decimal denotes. -/
def value (d : PlainDecimal) : ℚ :=
  let magnitude : ℚ := number d.whole + number d.digits / 10 ^ d.digits.length
  if d.negative then -magnitude else magnitude

/-- The digits of the number scaled by a power of ten. -/
def scaledDigits (d : PlainDecimal) (places : Nat) : List Char :=
  d.whole ++ (d.digits ++ List.replicate (places - d.digits.length) '0')

/-- The scaled number. -/
def scaled (d : PlainDecimal) (places : Nat) : Int :=
  if d.negative then -(number (d.scaledDigits places) : Int) else number (d.scaledDigits places)

theorem number_append (a b : List Char) : number (a ++ b) = 10 ^ b.length * number a + number b := by
  rw [number, Nat.ofDigitChars_append, Nat.ofDigitChars_eq_ofDigitChars_zero]
  rfl

theorem number_replicate_zero (n : Nat) : number (List.replicate n '0') = 0 := by
  rw [number, Nat.ofDigitChars_replicate_zero, Nat.mul_zero]

/-- **Scaling is exact** when all digits after the point are kept. -/
theorem cast_scaled {places : Nat} (h : d.digits.length ≤ places) :
    (d.scaled places : ℚ) = d.value * 10 ^ places := by
  have hplaces : places = d.digits.length + (places - d.digits.length) := by omega
  have hnumber : (number (d.scaledDigits places) : ℚ) =
      (number d.whole + number d.digits / 10 ^ d.digits.length) * 10 ^ places := by
    rw [scaledDigits, number_append, number_append, number_replicate_zero, List.length_append,
      List.length_replicate, ← hplaces]
    generalize places - d.digits.length = zeros at *
    subst hplaces
    have hpos : (10 : ℚ) ^ d.digits.length ≠ 0 := pow_ne_zero _ (by norm_num)
    push_cast
    rw [pow_add]
    field_simp
    ring
  unfold scaled value
  cases d.negative with
  | true =>
    rw [if_pos rfl, if_pos rfl, Int.cast_neg, Int.cast_natCast, hnumber, neg_mul]
  | false =>
    rw [if_neg Bool.false_ne_true, if_neg Bool.false_ne_true, Int.cast_natCast, hnumber]

end PlainDecimal

end Lib
