/-!
# Integers and bytes as text

The test of a decimal integer that readers make before they convert it, and that every printed
integer passes; bytes in hexadecimal.
-/

namespace Lib.Decimal

/-- One digit or more. -/
def isDigits (text : List Char) : Bool := !text.isEmpty && text.all Char.isDigit

/-- An optional minus sign, and digits. -/
def isInteger : List Char → Bool
  | '-' :: digits => isDigits digits
  | digits => isDigits digits

theorem isDigits_repr (n : Nat) : isDigits n.repr.toList = true := by
  have hdigits : ∀ c ∈ Nat.toDigits 10 n, c.isDigit = true := fun c hc =>
    Nat.isDigit_of_mem_toDigits (by decide) (by decide) hc
  simp only [isDigits, Nat.toList_repr, Bool.and_eq_true, List.all_eq_true]
  exact ⟨by simp, hdigits⟩

theorem isInteger_of_isDigits {text : List Char} (h : isDigits text = true) :
    isInteger text = true := by
  unfold isInteger
  split
  · -- a sign is not a digit
    simp [isDigits] at h
  · exact h

/-- **A printed integer is a decimal integer.** -/
theorem isInteger_toString (n : Int) : isInteger (toString n).toList = true := by
  rw [Int.toString_eq_repr, Int.repr_eq_if]
  split
  · exact isInteger_of_isDigits (isDigits_repr _)
  · rw [String.toList_append]
    exact isDigits_repr _

/-- A positive number is printed without zeros in front. -/
theorem head?_toDigits {n : Nat} (h : 0 < n) : (Nat.toDigits 10 n).head? ≠ some '0' := by
  induction n using Nat.strongRecOn with
  | _ n ih =>
    by_cases hsmall : n < 10
    · rw [Nat.toDigits_of_lt_base hsmall]
      intro hzero
      have hdigit : ∀ d < 10, Nat.digitChar d = '0' → d = 0 := by decide
      exact absurd (hdigit n hsmall (Option.some.inj hzero)) (Nat.ne_of_gt h)
    · have hrest := ih (n / 10) (by omega) (by omega)
      rw [Nat.toDigits_of_base_le (by decide) (Nat.not_lt.mp hsmall)]
      cases hdigits : Nat.toDigits 10 (n / 10) with
      | nil => exact absurd hdigits Nat.toDigits_ne_nil
      | cons d rest =>
        rw [hdigits] at hrest
        exact hrest

end Lib.Decimal

/-- The bytes in lower-case hexadecimal. -/
def Lib.hex (bytes : List UInt8) : String :=
  String.ofList (bytes.flatMap fun b => [Nat.digitChar (b.toNat / 16), Nat.digitChar (b.toNat % 16)])
