import Nortia.Lib.Digits

/-!
# Rust strings

A `&str` is its list of characters; its length is that of its UTF-8 bytes. `isWhitespace` and
`isControl` are the Unicode `White_Space` property and the category `Cc`, as the standard library
has them.
-/

namespace Nortia.Text

/-- `str::as_bytes`. -/
def asBytes (s : List Char) : List UInt8 := s.flatMap String.utf8EncodeChar

/-- **A string is its bytes.** -/
theorem asBytes_injective {s t : List Char} (h : asBytes s = asBytes t) : s = t := by
  have hbytes : s.utf8Encode = t.utf8Encode := by
    rw [List.utf8Encode, List.utf8Encode]
    exact congrArg List.toByteArray h
  have hstring : String.ofList s = String.ofList t := by
    rw [← String.toByteArray_inj, String.toByteArray_ofList, String.toByteArray_ofList, hbytes]
  rw [← @String.toList_ofList s, ← @String.toList_ofList t, hstring]

/-- `str::len`. -/
def len (s : List Char) : Nat := (asBytes s).length

/-- `char::is_whitespace`. -/
def isWhitespace (c : Char) : Bool :=
  (0x9 ≤ c.toNat && c.toNat ≤ 0xD) || c.toNat = 0x20 || c.toNat = 0x85 || c.toNat = 0xA0 ||
    c.toNat = 0x1680 || (0x2000 ≤ c.toNat && c.toNat ≤ 0x200A) || c.toNat = 0x2028 ||
    c.toNat = 0x2029 || c.toNat = 0x202F || c.toNat = 0x205F || c.toNat = 0x3000

/-- `char::is_control`. -/
def isControl (c : Char) : Bool := c.toNat ≤ 0x1F || (0x7F ≤ c.toNat && c.toNat ≤ 0x9F)

/-- `str::trim`. -/
def trim (s : List Char) : List Char :=
  ((s.dropWhile isWhitespace).reverse.dropWhile isWhitespace).reverse

/-- `str::is_ascii`. -/
def isAscii (s : List Char) : Bool := s.all fun c => c.toNat < 0x80

/-- `str::find` of a string: the byte index of its first occurrence. -/
def find (pattern : List Char) : List Char → Option Nat
  | [] => if pattern = [] then some 0 else none
  | c :: s =>
    if pattern <+: c :: s then some 0
    else (find pattern s).map (· + (String.utf8EncodeChar c).length)

/-! ## Lengths -/

theorem len_append (s t : List Char) : len (s ++ t) = len s + len t := by
  simp only [len, asBytes, List.flatMap_append, List.length_append]

theorem len_pos_of_ne_nil {s : List Char} (h : s ≠ []) : 0 < len s := by
  cases s with
  | nil => exact absurd rfl h
  | cons c s =>
    have hchar := String.length_utf8EncodeChar c
    have hsize := Char.utf8Size_pos c
    simp only [len, asBytes, List.flatMap_cons, List.length_append]
    omega

theorem len_of_ascii {s : List Char} (h : ∀ c ∈ s, c.toNat < 0x80) : len s = s.length := by
  induction s with
  | nil => rfl
  | cons c s ih =>
    have hrest := ih fun d hd => h d (List.mem_cons_of_mem _ hd)
    have hchar : c.utf8Size = 1 := by
      have hc := h c List.mem_cons_self
      rw [Char.utf8Size_eq_one_iff]
      exact UInt32.le_iff_toNat_le.mpr (Nat.le_of_lt_succ hc)
    rw [len, asBytes, List.flatMap_cons, List.length_append, String.length_utf8EncodeChar, hchar,
      List.length_cons, Nat.add_comm]
    exact congrArg (· + 1) hrest

/-! ## Printable ASCII -/

/-- The space is the only white space of printable ASCII. -/
theorem isWhitespace_of_printable {c : Char} (h : 0x20 ≤ c.toNat ∧ c.toNat ≤ 0x7e)
    (hspace : isWhitespace c = true) : c = ' ' := by
  simp only [isWhitespace, Bool.or_eq_true, Bool.and_eq_true, decide_eq_true_eq] at hspace
  have hcode : c.toNat = ' '.toNat := by
    change c.toNat = 32
    omega
  exact Char.toNat_inj.mp hcode

theorem isControl_of_printable {c : Char} (h : 0x20 ≤ c.toNat ∧ c.toNat ≤ 0x7e) :
    isControl c = false := by
  rw [Bool.eq_false_iff]
  intro hcontrol
  simp only [isControl, Bool.or_eq_true, Bool.and_eq_true, decide_eq_true_eq] at hcontrol
  omega

end Nortia.Text
