import Mathlib.Data.List.DropRight

/-!
# Trimming

A text is trimmed when neither end of it is of a kind of characters. Trimming makes a text so, and
leaves a trimmed one alone.
-/

namespace Lib

variable {α : Type} {p q : α → Bool} {s : List α}

/-- The text without the characters of one kind at its ends. -/
def trimBy (p : α → Bool) (s : List α) : List α :=
  ((s.dropWhile p).reverse.dropWhile p).reverse

/-- Neither the first nor the last character is of the kind. -/
structure Trimmed (p : α → Bool) (s : List α) : Prop where
  first : ∀ c ∈ s.head?, p c = false
  last : ∀ c ∈ s.getLast?, p c = false

theorem trimBy_eq_rdropWhile : trimBy p s = (s.dropWhile p).rdropWhile p := rfl

theorem trimmed_trimBy (p : α → Bool) (s : List α) : Trimmed p (trimBy p s) := by
  rw [trimBy_eq_rdropWhile]
  constructor
  · intro c hc
    -- what is left after the end is dropped starts as before
    obtain ⟨dropped, hdropped⟩ := List.rdropWhile_prefix p (l := s.dropWhile p)
    have hhead : (s.dropWhile p).head? = some c := by
      rw [← hdropped, List.head?_append, hc]
      rfl
    have hfirst := List.head?_dropWhile_not p s
    rw [hhead] at hfirst
    exact hfirst
  · intro c hc
    have hne : (s.dropWhile p).rdropWhile p ≠ [] := by
      intro hnil
      rw [hnil] at hc
      cases hc
    have hlast := List.rdropWhile_last_not p _ hne
    rw [List.getLast?_eq_some_getLast hne] at hc
    cases hc
    exact Bool.eq_false_iff.mpr hlast

theorem Trimmed.trimBy_eq (h : Trimmed p s) : trimBy p s = s := by
  have hfirst : s.dropWhile p = s := by
    cases s with
    | nil => rfl
    | cons c s => exact List.dropWhile_cons_of_neg (by simp [h.first c rfl])
  rw [trimBy_eq_rdropWhile, hfirst, List.rdropWhile_eq_self_iff]
  intro hne
  have hlast := h.last _ (List.getLast?_eq_some_getLast hne)
  simp [hlast]

theorem Trimmed.of_forall (h : ∀ c ∈ s, p c = false) : Trimmed p s :=
  ⟨fun c hc => h c (List.mem_of_mem_head? hc), fun c hc => h c (List.mem_of_mem_getLast? hc)⟩

/-- A smaller kind of characters needs no more trimming. -/
theorem Trimmed.mono (h : Trimmed p s) (hsub : ∀ c ∈ s, q c = true → p c = true) :
    Trimmed q s := by
  constructor
  · intro c hc
    have hfirst := h.first c hc
    rw [Bool.eq_false_iff] at hfirst ⊢
    exact fun hq => hfirst (hsub c (List.mem_of_mem_head? hc) hq)
  · intro c hc
    have hlast := h.last c hc
    rw [Bool.eq_false_iff] at hlast ⊢
    exact fun hq => hlast (hsub c (List.mem_of_mem_getLast? hc) hq)

end Lib
