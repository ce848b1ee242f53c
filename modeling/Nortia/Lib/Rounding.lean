import Mathlib.Algebra.BigOperators.Ring.List
import Mathlib.Algebra.Order.Ring.Nat

/-!
# Dividing a pool into rounded shares

A pool is divided in proportion to a list of weights, each share rounded down. What is left over
is smaller than the number of shares. A list of items with distinct keys, some of them used up, is
summed over the unused ones.
-/

namespace Lib.Rounding

variable {α K : Type}

/-- The quotients and the remainders of a list make up its sum. -/
theorem sum_div_add_mod (d : Nat) (f : α → Nat) (l : List α) :
    d * (l.map fun x => f x / d).sum + (l.map fun x => f x % d).sum = (l.map f).sum := by
  induction l with
  | nil => rfl
  | cons x l ih =>
    have hx := Nat.div_add_mod (f x) d
    simp only [List.map_cons, List.sum_cons, Nat.mul_add] at ih ⊢
    rw [← ih]
    omega

theorem sum_mod_lt {d : Nat} (hd : 0 < d) (f : α → Nat) {l : List α} (hl : l ≠ []) :
    (l.map fun x => f x % d).sum < l.length * d := by
  induction l with
  | nil => exact absurd rfl hl
  | cons x l ih =>
    have hx : f x % d < d := Nat.mod_lt _ hd
    rw [List.map_cons, List.sum_cons, List.length_cons, Nat.add_mul, Nat.one_mul]
    by_cases hnil : l = []
    · subst hnil
      simpa using hx
    · have := ih hnil
      omega

/-! ## Shares of a pool -/

/-- The share of a weight, rounded down. -/
def share (pool total weight : Nat) : Nat := weight * pool / total

section Shares

variable {pool : Nat} {weight : α → Nat} {l : List α}

/-- The shares of a pool do not exceed it. -/
theorem sum_share_le (hpos : 0 < (l.map weight).sum) :
    (l.map fun x => share pool (l.map weight).sum (weight x)).sum ≤ pool := by
  have hparts := sum_div_add_mod (l.map weight).sum (fun x => weight x * pool) l
  rw [List.sum_map_mul_right] at hparts
  refine Nat.le_of_mul_le_mul_left ?_ hpos
  unfold share
  omega

/-- **Rounding loses less than one unit a share.** -/
theorem pool_lt_sum_share (hpos : 0 < (l.map weight).sum) :
    pool < (l.map fun x => share pool (l.map weight).sum (weight x)).sum + l.length := by
  have hne : l ≠ [] := by
    rintro rfl
    exact Nat.lt_irrefl 0 hpos
  have hparts := sum_div_add_mod (l.map weight).sum (fun x => weight x * pool) l
  have hmods := sum_mod_lt hpos (fun x => weight x * pool) hne
  rw [List.sum_map_mul_right] at hparts
  refine Nat.lt_of_mul_lt_mul_left (a := (l.map weight).sum) ?_
  unfold share
  rw [Nat.mul_add, Nat.mul_comm _ l.length]
  omega

end Shares

/-! ## Items with keys, some of them used -/

section Unused

variable [DecidableEq K] {key : α → K} {l : List α} {used : List K} {x : α}

/-- The items whose key is not used. -/
def unused (key : α → K) (l : List α) (used : List K) : List α :=
  l.filter fun x => key x ∉ used

theorem mem_unused : x ∈ unused key l used ↔ x ∈ l ∧ key x ∉ used := by
  simp [unused]

@[simp] theorem unused_nil : unused key l [] = l := by
  simp [unused]

/-- A key that no item has changes nothing. -/
theorem unused_cons_of_forall {k : K} (h : ∀ y ∈ l, key y ≠ k) :
    unused key l (k :: used) = unused key l used := by
  refine List.filter_congr fun y hy => ?_
  simp [h y hy]

/-- Using an item takes it, and nothing else, out of a sum over the unused ones. -/
theorem sum_unused_cons (hl : (l.map key).Nodup) (hx : x ∈ unused key l used) (f : α → Nat) :
    ((unused key l (key x :: used)).map f).sum + f x = ((unused key l used).map f).sum := by
  induction l with
  | nil => cases hx
  | cons y l ih =>
    rw [List.map_cons, List.nodup_cons] at hl
    obtain ⟨hy, hl⟩ := hl
    obtain ⟨hmem, hfresh⟩ := mem_unused.mp hx
    rcases List.mem_cons.mp hmem with rfl | hmem
    · have htail : unused key l (key x :: used) = unused key l used :=
        unused_cons_of_forall fun z hz heq => hy (heq ▸ List.mem_map_of_mem hz)
      have hhead : unused key (x :: l) (key x :: used) = unused key l (key x :: used) :=
        List.filter_cons_of_neg (by simp)
      have hold : unused key (x :: l) used = x :: unused key l used :=
        List.filter_cons_of_pos (by simpa using hfresh)
      rw [hhead, htail, hold, List.map_cons, List.sum_cons, Nat.add_comm]
    · have hne : key y ≠ key x := fun heq => hy (heq ▸ List.mem_map_of_mem hmem)
      have hsum := ih hl (mem_unused.mpr ⟨hmem, hfresh⟩)
      by_cases hused : key y ∈ used
      · have hnew : unused key (y :: l) (key x :: used) = unused key l (key x :: used) :=
          List.filter_cons_of_neg (by simp [hused])
        have hold : unused key (y :: l) used = unused key l used :=
          List.filter_cons_of_neg (by simp [hused])
        rw [hnew, hold, hsum]
      · have hnew : unused key (y :: l) (key x :: used) = y :: unused key l (key x :: used) :=
          List.filter_cons_of_pos (by simp [hused, hne])
        have hold : unused key (y :: l) used = y :: unused key l used :=
          List.filter_cons_of_pos (by simp [hused])
        rw [hnew, hold, List.map_cons, List.sum_cons, List.map_cons, List.sum_cons, Nat.add_assoc,
          hsum]

theorem length_unused_cons (hl : (l.map key).Nodup) (hx : x ∈ unused key l used) :
    (unused key l (key x :: used)).length + 1 = (unused key l used).length := by
  have h := sum_unused_cons hl hx fun _ => 1
  simpa using h

end Unused

end Lib.Rounding
