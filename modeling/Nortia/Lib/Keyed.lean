import Mathlib.Data.List.Nodup

/-!
# Lists of records under keys

A list stands for a table in which the first record of a key counts. `dedupe` keeps the first
record of each key, so it changes the list and not the table.
-/

namespace Lib.Keyed

variable {α κ : Type} [DecidableEq κ] (key : α → κ)

/-- The record of a key: the first one. -/
def find (l : List α) (k : κ) : Option α := l.find? fun a => key a = k

/-- The first record of each key, in the order of the list. -/
def dedupe (l : List α) : List α :=
  l.foldl (fun unique a => if (find key unique (key a)).isSome then unique else unique ++ [a]) []

variable {key} {l l' : List α} {a : α} {k : κ}

@[simp] theorem find_nil : find key [] k = none := rfl

theorem find_cons : find key (a :: l) k = if key a = k then some a else find key l k := by
  rw [find, List.find?_cons]
  by_cases h : key a = k
  · simp [h]
  · simp [h, find]

theorem find_append : find key (l ++ l') k = (find key l k).or (find key l' k) :=
  List.find?_append

theorem find_some (h : find key l k = some a) : a ∈ l ∧ key a = k :=
  ⟨List.mem_of_find?_eq_some h, of_decide_eq_true (List.find?_some (p := fun a => decide (key a = k)) h)⟩

/-- A key has a record exactly when some record has it. -/
theorem find_isSome : (find key l k).isSome = true ↔ ∃ a ∈ l, key a = k := by
  simp [find, List.find?_isSome]

theorem find_eq_none : find key l k = none ↔ ∀ a ∈ l, key a ≠ k := by
  simp [find, List.find?_eq_none]

/-- Taking out the records of one key leaves those of the others. -/
theorem find_filter_ne {k' : κ} (h : k ≠ k') :
    find key (l.filter fun a => key a ≠ k') k = find key l k := by
  induction l with
  | nil => rfl
  | cons a l ih =>
    by_cases ha : key a = k'
    · rw [List.filter_cons_of_neg (by simpa using ha), ih, find_cons,
        if_neg (fun hk => h (hk.symm.trans ha))]
    · rw [List.filter_cons_of_pos (by simpa using ha), find_cons, find_cons, ih]

/-- Where keys are distinct, a record is the one of its key. -/
theorem find_of_mem (hkeys : (l.map key).Nodup) (ha : a ∈ l) : find key l (key a) = some a := by
  have hsome : (find key l (key a)).isSome = true := find_isSome.mpr ⟨a, ha, rfl⟩
  obtain ⟨b, hb⟩ := Option.isSome_iff_exists.mp hsome
  obtain ⟨hmem, hkey⟩ := find_some hb
  rw [hb, List.inj_on_of_nodup_map hkeys hmem ha hkey]

/-! ## Tables in which the last record counts -/

/-- The record of a key: the last one. -/
def findLast (key : α → κ) (l : List α) (k : κ) : Option α := find key l.reverse k

theorem findLast_some (h : findLast key l k = some a) : a ∈ l ∧ key a = k :=
  ⟨List.mem_reverse.mp (find_some h).1, (find_some h).2⟩

theorem findLast_of_mem (hkeys : (l.map key).Nodup) (ha : a ∈ l) :
    findLast key l (key a) = some a := by
  refine find_of_mem ?_ (List.mem_reverse.mpr ha)
  rw [List.map_reverse]
  exact List.nodup_reverse.mpr hkeys

theorem findLast_append : findLast key (l ++ l') k = (findLast key l' k).or (findLast key l k) := by
  rw [findLast, List.reverse_append]
  exact find_append

theorem findLast_eq_none : findLast key l k = none ↔ ∀ a ∈ l, key a ≠ k := by
  rw [findLast, find_eq_none]
  simp only [List.mem_reverse]

/-! ## Deduping -/

/-- One round of `dedupe` adds the record if its key is new. -/
private def add (key : α → κ) (unique : List α) (a : α) : List α :=
  if (find key unique (key a)).isSome then unique else unique ++ [a]

private theorem find_add (unique : List α) (a : α) (k : κ) :
    find key (add key unique a) k = (find key unique k).or (find key [a] k) := by
  unfold add
  split
  · next hsome =>
    by_cases ha : key a = k
    · rw [ha] at hsome
      rw [Option.or_of_isSome hsome]
    · rw [find_cons, if_neg ha, find_nil, Option.or_none]
  · exact find_append

private theorem find_foldl (l unique : List α) (k : κ) :
    find key (l.foldl (add key) unique) k = (find key unique k).or (find key l k) := by
  induction l generalizing unique with
  | nil => rw [List.foldl_nil, find_nil, Option.or_none]
  | cons a l ih =>
    rw [List.foldl_cons, ih, find_add, Option.or_assoc, ← find_append, List.singleton_append]

/-- The table stays. -/
@[simp] theorem find_dedupe (l : List α) (k : κ) : find key (dedupe key l) k = find key l k :=
  find_foldl l [] k

private theorem mem_foldl {unique : List α} (h : a ∈ l.foldl (add key) unique) :
    a ∈ unique ∨ a ∈ l := by
  induction l generalizing unique with
  | nil => exact .inl h
  | cons b l ih =>
    rcases ih h with hunique | hrest
    · unfold add at hunique
      split at hunique
      · exact .inl hunique
      · rcases List.mem_append.mp hunique with hold | hnew
        · exact .inl hold
        · exact .inr (List.mem_singleton.mp hnew ▸ List.mem_cons_self)
    · exact .inr (List.mem_cons_of_mem _ hrest)

theorem mem_of_mem_dedupe (h : a ∈ dedupe key l) : a ∈ l := by
  rcases mem_foldl h with hnil | hmem
  · exact absurd hnil List.not_mem_nil
  · exact hmem

/-! ## Deduping again -/

private theorem foldl_of_present {unique : List α}
    (h : ∀ a ∈ l, (find key unique (key a)).isSome = true) : l.foldl (add key) unique = unique := by
  induction l with
  | nil => rfl
  | cons a l ih =>
    rw [List.foldl_cons, add, if_pos (h a List.mem_cons_self)]
    exact ih fun b hb => h b (List.mem_cons_of_mem _ hb)

/-- What is added is new, so adding it again to the same start gives the same. -/
private theorem foldl_eq_append (unique l : List α) :
    ∃ rest, l.foldl (add key) unique = unique ++ rest ∧
      rest.foldl (add key) unique = unique ++ rest := by
  induction l generalizing unique with
  | nil => exact ⟨[], (List.append_nil unique).symm, (List.append_nil unique).symm⟩
  | cons a l ih =>
    by_cases hpresent : (find key unique (key a)).isSome = true
    · have hadd : add key unique a = unique := if_pos hpresent
      rw [List.foldl_cons, hadd]
      exact ih unique
    · have hadd : add key unique a = unique ++ [a] := if_neg hpresent
      obtain ⟨rest, hrest, hagain⟩ := ih (unique ++ [a])
      refine ⟨a :: rest, ?_, ?_⟩
      · rw [List.foldl_cons, hadd, hrest, List.append_assoc, List.singleton_append]
      · rw [List.foldl_cons, hadd, hagain, List.append_assoc, List.singleton_append]

/-- Merging the same records a second time changes nothing, not even the order. -/
theorem dedupe_append_dedupe (l l' : List α) :
    dedupe key (l ++ dedupe key (l ++ l')) = dedupe key (l ++ l') := by
  have hsplit : ∀ r : List α, dedupe key (l ++ r) = r.foldl (add key) (dedupe key l) :=
    fun r => List.foldl_append
  obtain ⟨rest, hrest, hagain⟩ : ∃ rest, l'.foldl (add key) (dedupe key l) = dedupe key l ++ rest ∧
      rest.foldl (add key) (dedupe key l) = dedupe key l ++ rest := foldl_eq_append (dedupe key l) l'
  have hself : (dedupe key l).foldl (add key) (dedupe key l) = dedupe key l :=
    foldl_of_present fun a ha => find_isSome.mpr ⟨a, ha, rfl⟩
  rw [hsplit (dedupe key (l ++ l')), hsplit l', hrest, List.foldl_append, hself, hagain]

theorem dedupe_dedupe (l : List α) : dedupe key (dedupe key l) = dedupe key l :=
  dedupe_append_dedupe [] l

end Lib.Keyed
