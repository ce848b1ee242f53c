import Nortia.Lib.Alphabet
import Nortia.Lib.Decimal
import Nortia.Lib.Trim

/-!
# Texts of big integers

What JavaScript's `BigInt` reads from a text: a decimal integer, or a numeral after the mark of its
base, with any white space around it. A text without anything else reads as zero.
-/

namespace Lib.BigInt

/-- The characters `trim` removes. -/
def whiteSpace : List Nat :=
  [9, 10, 11, 12, 13, 32, 160, 5760, 8192, 8193, 8194, 8195, 8196, 8197, 8198, 8199, 8200, 8201, 8202,
    8232, 8233, 8239, 8287, 12288, 65279]

def isSpace (c : Char) : Bool := whiteSpace.contains c.toNat

def trim (text : List Char) : List Char :=
  ((text.dropWhile isSpace).reverse.dropWhile isSpace).reverse

/-- The number of some decimal digits. -/
def decimal (text : List Char) : Option Nat :=
  if Decimal.isDigits text then some (Nat.ofDigitChars 10 text 0) else none

/-- The number of some digits of a base up to 16. -/
def numeral (base : Nat) (text : List Char) : Option Nat :=
  if text = [] then none
  else (Alphabet.read (Hex.alphabet.take base) (text.map Char.toLower)).map (Radix.value base)

/-- `BigInt(text)`, or nothing where it throws. -/
def parse (text : List Char) : Option Int :=
  match trim text with
  | [] => some 0
  | '0' :: 'x' :: digits | '0' :: 'X' :: digits => (numeral 16 digits).map Int.ofNat
  | '0' :: 'o' :: digits | '0' :: 'O' :: digits => (numeral 8 digits).map Int.ofNat
  | '0' :: 'b' :: digits | '0' :: 'B' :: digits => (numeral 2 digits).map Int.ofNat
  | '-' :: digits => (decimal digits).map fun n => -(n : Int)
  | '+' :: digits => (decimal digits).map Int.ofNat
  | digits => (decimal digits).map Int.ofNat

/-! ## Reading what was printed -/

theorem trim_eq {text : List Char} (h : ∀ c ∈ text, isSpace c = false) : trim text = text :=
  (Trimmed.of_forall h).trimBy_eq

theorem isSpace_of_isDigit {c : Char} (h : c.isDigit = true) : isSpace c = false := by
  have hrange : 48 ≤ c.toNat ∧ c.toNat ≤ 57 := by
    simp only [Char.isDigit, Bool.and_eq_true, decide_eq_true_eq, ge_iff_le, UInt32.le_iff_toNat_le] at h
    exact h
  have hnone : ∀ n ∈ whiteSpace, n < 48 ∨ 57 < n := by decide
  by_contra hspace
  have hmem := List.contains_iff_mem.mp (Bool.of_not_eq_false hspace)
  have hbound := hnone _ hmem
  omega

/-- A digit string is read in base ten. -/
theorem parse_decimal {text : List Char} (h : Decimal.isDigits text = true) :
    parse text = some ((Nat.ofDigitChars 10 text 0 : Nat) : Int) := by
  have hall : ∀ c ∈ text, c.isDigit = true := by
    simp only [Decimal.isDigits, Bool.and_eq_true, List.all_eq_true] at h
    exact h.2
  have hread : (decimal text).map Int.ofNat = some ((Nat.ofDigitChars 10 text 0 : Nat) : Int) := by
    rw [decimal, if_pos h]
    rfl
  rw [parse, trim_eq fun c hc => isSpace_of_isDigit (hall c hc)]
  split
  · cases h
  · exact absurd (hall 'x' (by simp)) (by decide)
  · exact absurd (hall 'X' (by simp)) (by decide)
  · exact absurd (hall 'o' (by simp)) (by decide)
  · exact absurd (hall 'O' (by simp)) (by decide)
  · exact absurd (hall 'b' (by simp)) (by decide)
  · exact absurd (hall 'B' (by simp)) (by decide)
  · exact absurd (hall '-' (by simp)) (by decide)
  · exact absurd (hall '+' (by simp)) (by decide)
  · exact hread

/-- **A printed number reads as itself.** -/
theorem parse_repr (n : Nat) : parse n.repr.toList = some (n : Int) := by
  rw [parse_decimal (Decimal.isDigits_repr n), Nat.toList_repr, Nat.ofDigitChars_ten_toDigits]

/-- **A padded hexadecimal numeral reads as its number.** -/
theorem parse_hex {width : Nat} (hwidth : 0 < width) (n : Nat) :
    parse ('0' :: 'x' :: Hex.padStart width (Hex.numeral n)) = some (n : Int) := by
  have hspaces : ∀ c ∈ Hex.alphabet, isSpace c = false := by
    have hall : Hex.alphabet.all (fun c => isSpace c = false) = true := by decide
    exact fun c hc => of_decide_eq_true (List.all_eq_true.mp hall c hc)
  have htrim : trim ('0' :: 'x' :: Hex.padStart width (Hex.numeral n)) =
      '0' :: 'x' :: Hex.padStart width (Hex.numeral n) := by
    refine trim_eq ?_
    intro c hc
    rcases List.mem_cons.mp hc with rfl | hc
    · decide
    · rcases List.mem_cons.mp hc with rfl | hc
      · decide
      · exact hspaces c (Hex.mem_padStart width n c hc)
  have hne : Hex.padStart width (Hex.numeral n) ≠ [] := by
    intro hnil
    have hlength := congrArg List.length hnil
    rw [Hex.padStart, List.length_append, List.length_replicate, List.length_nil] at hlength
    omega
  have hvalue : numeral 16 (Hex.padStart width (Hex.numeral n)) = some n := by
    rw [numeral, if_neg hne]
    exact Hex.value?_padStart width n
  rw [parse, htrim]
  simp only [hvalue]
  rfl

end Lib.BigInt
