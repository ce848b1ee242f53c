import Mathlib.Data.List.AList
import Mathlib.Algebra.BigOperators.Group.List.Basic
import Mathlib.Algebra.Order.BigOperators.Group.List
import Mathlib.Algebra.Order.Ring.Nat
import Nortia.Lib.Rounding

/-!
# Totals over keyed tables

A table of accounts is an association list whose keys are distinct. `Tally.total f` adds a
quantity over its values; one write changes it by the new value minus the old one.
-/

namespace Lib.Tally

variable {K V : Type} [DecidableEq K]

/-- A table of values `V` under distinct keys `K`. -/
abbrev Table (K V : Type) := AList fun _ : K => V

/-- The sum of `f` over the values of a table. -/
def total (f : V → Nat) (t : Table K V) : Nat := (t.entries.map fun e => f e.2).sum

omit [DecidableEq K] in
@[simp] theorem total_empty (f : V → Nat) : total f (∅ : Table K V) = 0 := rfl

/-- Erasing a bound key takes its value out of the sum. -/
private theorem kerase_sum {l : List (Sigma fun _ : K => V)} {k : K} {v : V}
    (h : l.dlookup k = some v) (f : V → Nat) :
    ((l.kerase k).map fun e => f e.2).sum + f v = (l.map fun e => f e.2).sum := by
  induction l with
  | nil => simp at h
  | cons e l ih =>
    obtain ⟨k', w⟩ := e
    by_cases hk : k = k'
    · subst hk
      rw [List.dlookup_cons_eq, Option.some.injEq] at h
      subst h
      have hl : List.kerase k ((⟨k, w⟩ : Sigma fun _ : K => V) :: l) = l := List.kerase_cons_eq rfl
      rw [hl, List.map_cons, List.sum_cons, Nat.add_comm]
    · rw [List.dlookup_cons_ne _ _ hk] at h
      have hl : List.kerase k ((⟨k', w⟩ : Sigma fun _ : K => V) :: l) = ⟨k', w⟩ :: l.kerase k :=
        List.kerase_cons_ne hk
      rw [hl, List.map_cons, List.sum_cons, List.map_cons, List.sum_cons,
        Nat.add_assoc, ih h]

theorem total_insert {t : Table K V} {k : K} {w : V} (h : t.lookup k = some w) (v : V)
    (f : V → Nat) : total f (t.insert k v) + f w = total f t + f v := by
  have he := kerase_sum (l := t.entries) h f
  show (((⟨k, v⟩ : Sigma fun _ : K => V) :: t.entries.kerase k).map fun e => f e.2).sum + f w =
    (t.entries.map fun e => f e.2).sum + f v
  rw [List.map_cons, List.sum_cons, Nat.add_assoc, he, Nat.add_comm]

theorem total_insert_new {t : Table K V} {k : K} (h : t.lookup k = none) (v : V) (f : V → Nat) :
    total f (t.insert k v) = total f t + f v := by
  have hk : k ∉ t.entries.keys := List.dlookup_eq_none.mp h
  show (((⟨k, v⟩ : Sigma fun _ : K => V) :: t.entries.kerase k).map fun e => f e.2).sum =
    (t.entries.map fun e => f e.2).sum + f v
  rw [List.kerase_of_notMem_keys hk, List.map_cons, List.sum_cons, Nat.add_comm]

theorem le_total {t : Table K V} {k : K} {v : V} (h : t.lookup k = some v) (f : V → Nat) :
    f v ≤ total f t := by
  have he := kerase_sum (l := t.entries) h f
  unfold total
  omega

theorem mem_entries_iff {t : Table K V} {k : K} {v : V} :
    (⟨k, v⟩ : Sigma fun _ : K => V) ∈ t.entries ↔ t.lookup k = some v :=
  (List.mem_dlookup_iff t.nodupKeys).symm

theorem total_le {t : Table K V} {f g : V → Nat} (h : ∀ k v, t.lookup k = some v → f v ≤ g v) :
    total f t ≤ total g t :=
  List.sum_le_sum fun e he => h e.1 e.2 (mem_entries_iff.mp he)

theorem total_congr {t : Table K V} {f g : V → Nat} (h : ∀ k v, t.lookup k = some v → f v = g v) :
    total f t = total g t :=
  Nat.le_antisymm (total_le fun k v hv => (h k v hv).le) (total_le fun k v hv => (h k v hv).ge)

omit [DecidableEq K] in
theorem total_add (f g : V → Nat) (t : Table K V) :
    total (fun v => f v + g v) t = total f t + total g t :=
  List.sum_map_add

theorem total_eq_zero {t : Table K V} {f : V → Nat} (h : ∀ k v, t.lookup k = some v → f v = 0) :
    total f t = 0 := by
  rw [total_congr (g := fun _ => 0) h]
  simp [total]

/-! ## Rounding each value and rounding the total -/

omit [DecidableEq K] in
/-- The quotients and the remainders of the values make up the total. -/
theorem total_div_add_mod (d : Nat) (f : V → Nat) (t : Table K V) :
    d * total (fun v => f v / d) t + total (fun v => f v % d) t = total f t :=
  Rounding.sum_div_add_mod d (fun e : Sigma fun _ : K => V => f e.2) t.entries

omit [DecidableEq K] in
/-- Rounding the total down loses only what whole units of the remainders make up. -/
theorem total_div {d : Nat} (hd : 0 < d) (f : V → Nat) (t : Table K V) :
    total f t / d = total (fun v => f v / d) t + total (fun v => f v % d) t / d := by
  rw [← total_div_add_mod d f t, Nat.mul_add_div hd]

end Lib.Tally
