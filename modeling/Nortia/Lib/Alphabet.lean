import Mathlib.Data.List.GetD
import Mathlib.Data.List.Nodup
import Nortia.Lib.Radix

/-!
# Digits as characters

An alphabet writes the digits of a base as characters, and reads them back. Hexadecimal numerals
are written in lower case and read in either.
-/

namespace Lib.Alphabet

variable {A : List Char} {ds : List Nat} {text text' : List Char}

def write (A : List Char) (ds : List Nat) : List Char := ds.map fun d => A.getD d ' '

def read (A : List Char) (text : List Char) : Option (List Nat) := text.mapM A.idxOf?

/-- A digit is the place of its character. -/
theorem idxOf?_getD (hA : A.Nodup) {d : Nat} (hd : d < A.length) :
    A.idxOf? (A.getD d ' ') = some d := by
  rw [List.getD_eq_getElem _ _ hd, List.idxOf?_eq_some_iff]
  refine ⟨hd, rfl, ?_⟩
  intro j hj heq
  exact absurd (hA.getElem_inj_iff.mp heq) hj.ne

theorem read_write (hA : A.Nodup) (h : ∀ d ∈ ds, d < A.length) : read A (write A ds) = some ds := by
  induction ds with
  | nil => rfl
  | cons d ds ih =>
    have hrest := ih fun e he => h e (List.mem_cons_of_mem _ he)
    rw [read] at hrest ⊢
    rw [write, List.map_cons, List.mapM_cons, idxOf?_getD hA (h d List.mem_cons_self)]
    exact congrArg (fun o => o.bind fun rest => some (d :: rest)) hrest

theorem write_of_read (h : read A text = some ds) :
    write A ds = text ∧ ∀ d ∈ ds, d < A.length := by
  induction text generalizing ds with
  | nil =>
    cases h
    exact ⟨rfl, fun _ hd => nomatch hd⟩
  | cons c text ih =>
    rw [read, List.mapM_cons] at h
    obtain ⟨d, hd, h⟩ := Option.bind_eq_some_iff.mp h
    obtain ⟨rest, hrest, h⟩ := Option.bind_eq_some_iff.mp h
    cases h
    obtain ⟨hwrite, hlt⟩ := ih hrest
    obtain ⟨hbound, heq, -⟩ := List.idxOf?_eq_some_iff.mp hd
    constructor
    · rw [write, List.map_cons, List.getD_eq_getElem _ _ hbound]
      exact congrArg₂ List.cons heq hwrite
    · intro e he
      rcases List.mem_cons.mp he with rfl | hrest
      · exact hbound
      · exact hlt e hrest

end Lib.Alphabet

namespace Lib.Hex

open Alphabet

def alphabet : List Char :=
  ['0', '1', '2', '3', '4', '5', '6', '7', '8', '9', 'a', 'b', 'c', 'd', 'e', 'f']

/-- A number in hexadecimal. -/
def numeral (n : Nat) : List Char := if n = 0 then ['0'] else write alphabet (Radix.digits 16 n)

/-- The number a hexadecimal numeral writes. -/
def value? (text : List Char) : Option Nat :=
  (read alphabet (text.map Char.toLower)).map (Radix.value 16)

def isHexDigit (c : Char) : Bool := alphabet.contains c.toLower

/-- `/^0x[0-9a-fA-F]{64}$/`. -/
def isWord : List Char → Bool
  | '0' :: 'x' :: digits => digits.length = 64 && digits.all isHexDigit
  | _ => false

/-- Zeros in front of a text, up to a width. -/
def padStart (width : Nat) (text : List Char) : List Char :=
  List.replicate (width - text.length) '0' ++ text

/-- A padded numeral as digits. -/
theorem padStart_numeral (width n : Nat) : ∃ ds, padStart width (numeral n) = write alphabet ds ∧
    (∀ d ∈ ds, d < 16) ∧ Radix.value 16 ds = n := by
  have hpad : ∀ (k : Nat) (ds : List Nat), List.replicate k '0' ++ write alphabet ds =
      write alphabet (List.replicate k 0 ++ ds) := by
    intro k ds
    rw [write, write, List.map_append, List.map_replicate]
    rfl
  have hzeros : ∀ (k : Nat) (ds : List Nat), (∀ d ∈ ds, d < 16) →
      ∀ d ∈ List.replicate k 0 ++ ds, d < 16 := by
    intro k ds hds d hd
    rcases List.mem_append.mp hd with hzero | hdigit
    · rw [List.eq_of_mem_replicate hzero]
      decide
    · exact hds d hdigit
  unfold padStart numeral
  split
  · next hn =>
    refine ⟨_, hpad _ [0], hzeros _ [0] (by decide), ?_⟩
    rw [Radix.value_replicate_append, hn]
    rfl
  · refine ⟨_, hpad _ _, hzeros _ _ (Radix.digits_lt (by decide)), ?_⟩
    rw [Radix.value_replicate_append, Radix.value_digits]

/-- Every digit is a lower-case one. -/
theorem mem_write {ds : List Nat} (h : ∀ d ∈ ds, d < 16) : ∀ c ∈ write alphabet ds, c ∈ alphabet := by
  intro c hc
  obtain ⟨d, hd, rfl⟩ := List.mem_map.mp hc
  rw [List.getD_eq_getElem _ _ (h d hd)]
  exact List.getElem_mem _

theorem toLower_of_mem : ∀ c ∈ alphabet, c.toLower = c := by
  have hall : alphabet.all (fun c => c.toLower = c) = true := by decide
  exact fun c hc => of_decide_eq_true (List.all_eq_true.mp hall c hc)

theorem map_toLower {text : List Char} (h : ∀ c ∈ text, c ∈ alphabet) :
    text.map Char.toLower = text :=
  (List.map_congr_left fun c hc => toLower_of_mem c (h c hc)).trans (List.map_id _)

/-- The digits of a padded numeral are lower-case ones. -/
theorem mem_padStart (width n : Nat) : ∀ c ∈ padStart width (numeral n), c ∈ alphabet := by
  obtain ⟨ds, heq, hlt, -⟩ := padStart_numeral width n
  rw [heq]
  exact mem_write hlt

theorem isHexDigit_padStart (width n : Nat) : (padStart width (numeral n)).all isHexDigit = true := by
  rw [List.all_eq_true]
  intro c hc
  have hmem := mem_padStart width n c hc
  rw [isHexDigit, toLower_of_mem c hmem]
  exact List.contains_iff_mem.mpr hmem

/-- **A padded numeral reads as its number.** -/
theorem value?_padStart (width n : Nat) : value? (padStart width (numeral n)) = some n := by
  have hlower := map_toLower (mem_padStart width n)
  obtain ⟨ds, heq, hlt, hvalue⟩ := padStart_numeral width n
  rw [value?, hlower, heq, read_write (by decide) hlt, Option.map_some, hvalue]

theorem length_padStart {width n : Nat} (hwidth : 0 < width) (h : n < 16 ^ width) :
    (padStart width (numeral n)).length = width := by
  have hnumeral : (numeral n).length ≤ width := by
    unfold numeral
    split
    · exact hwidth
    · rw [write, List.length_map, Radix.digits, List.length_reverse]
      exact Nat.digits_length_le_iff (by decide) n |>.mpr h
  rw [padStart, List.length_append, List.length_replicate]
  omega

/-- A padded numeral of 64 digits is a word. -/
theorem isWord_padStart {n : Nat} (h : n < 16 ^ 64) :
    isWord ('0' :: 'x' :: padStart 64 (numeral n)) = true := by
  simp only [isWord, Bool.and_eq_true, decide_eq_true_eq]
  exact ⟨length_padStart (by decide) h, isHexDigit_padStart 64 n⟩

end Lib.Hex
