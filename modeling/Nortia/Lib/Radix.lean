import Mathlib.Data.Nat.Digits.Lemmas

/-!
# Digits in another base

Digit lists are written with the highest digit first. A list is rewritten in another base with as
many zeros in front as it had, which makes the change of base reversible.
-/

namespace Lib.Radix

/-- The zeros in front of a list of digits. -/
def leadingZeros (ds : List Nat) : Nat := (ds.takeWhile (· = 0)).length

/-- The number a list of digits writes. -/
def value (b : Nat) (ds : List Nat) : Nat := Nat.ofDigits b ds.reverse

/-- The digits of a number, without zeros in front. -/
def digits (b n : Nat) : List Nat := (Nat.digits b n).reverse

/-- The digits of `ds` in base `c`, after the zeros of `ds`. -/
def convert (b c : Nat) (ds : List Nat) : List Nat :=
  List.replicate (leadingZeros ds) 0 ++ digits c (value b ds)

variable {b c n z : Nat} {ds : List Nat}

/-- A list of digits without a zero in front. -/
def Normal (ds : List Nat) : Prop := ∀ d ∈ ds.head?, d ≠ 0

theorem digits_lt (hb : 1 < b) : ∀ d ∈ digits b n, d < b := fun _ hd =>
  Nat.digits_lt_base hb (List.mem_reverse.mp hd)

theorem normal_digits (b n : Nat) : Normal (digits b n) := by
  intro d hd
  rw [digits, List.head?_reverse] at hd
  obtain ⟨hne, rfl⟩ := List.mem_getLast?_eq_getLast hd
  exact Nat.getLast_digit_ne_zero b (Nat.digits_ne_nil_iff_ne_zero.mp hne)

@[simp] theorem value_digits (b n : Nat) : value b (digits b n) = n := by
  rw [value, digits, List.reverse_reverse, Nat.ofDigits_digits]

theorem digits_value (hb : 1 < b) (hlt : ∀ d ∈ ds, d < b) (hnormal : Normal ds) :
    digits b (value b ds) = ds := by
  rw [digits, value, Nat.digits_ofDigits b hb ds.reverse (fun d hd => hlt d (List.mem_reverse.mp hd)),
    List.reverse_reverse]
  intro hne
  refine hnormal _ ?_
  rw [List.getLast_reverse]
  exact List.head?_eq_some_head _

@[simp] theorem value_replicate_append : value b (List.replicate z 0 ++ ds) = value b ds := by
  rw [value, value, List.reverse_append, List.reverse_replicate,
    Nat.ofDigits_append_replicate_zero]

theorem leadingZeros_replicate_append (h : Normal ds) :
    leadingZeros (List.replicate z 0 ++ ds) = z := by
  induction z with
  | zero =>
    cases ds with
    | nil => rfl
    | cons d ds => simp [leadingZeros, h d rfl]
  | succ z ih =>
    rw [leadingZeros] at ih ⊢
    rw [List.replicate_succ, List.cons_append, List.takeWhile_cons_of_pos (by simp),
      List.length_cons, ih]

/-- A list of digits is its zeros and a list without any in front. -/
theorem eq_replicate_append (ds : List Nat) :
    ∃ rest, ds = List.replicate (leadingZeros ds) 0 ++ rest ∧ Normal rest := by
  induction ds with
  | nil => exact ⟨[], rfl, fun _ hd => nomatch hd⟩
  | cons d ds ih =>
    by_cases hd : d = 0
    · obtain ⟨rest, hrest, hnormal⟩ := ih
      refine ⟨rest, ?_, hnormal⟩
      rw [leadingZeros, List.takeWhile_cons_of_pos (by simpa using hd), List.length_cons,
        List.replicate_succ, List.cons_append, ← leadingZeros, ← hrest, hd]
    · refine ⟨d :: ds, ?_, ?_⟩
      · rw [leadingZeros, List.takeWhile_cons_of_neg (by simpa using hd)]
        rfl
      · intro first hfirst
        rw [List.head?_cons, Option.mem_some_iff] at hfirst
        rwa [← hfirst]

theorem convert_lt (hc : 1 < c) : ∀ d ∈ convert b c ds, d < c := by
  intro d hd
  rcases List.mem_append.mp hd with hzero | hdigit
  · rw [List.eq_of_mem_replicate hzero]
    exact Nat.lt_of_succ_lt hc
  · exact digits_lt hc d hdigit

/-- **A change of base is undone by the change back.** -/
theorem convert_convert (hb : 1 < b) (h : ∀ d ∈ ds, d < b) :
    convert c b (convert b c ds) = ds := by
  obtain ⟨rest, hrest, hnormal⟩ := eq_replicate_append ds
  have hzeros : leadingZeros (convert b c ds) = leadingZeros ds :=
    leadingZeros_replicate_append (normal_digits c _)
  have hvalue : value c (convert b c ds) = value b rest := by
    rw [convert, value_replicate_append, value_digits]
    conv_lhs => rw [hrest]
    exact value_replicate_append
  have hlt : ∀ d ∈ rest, d < b := by
    intro d hd
    refine h d ?_
    rw [hrest]
    exact List.mem_append_right _ hd
  rw [convert, hzeros, hvalue, digits_value hb hlt hnormal, ← hrest]

end Lib.Radix
