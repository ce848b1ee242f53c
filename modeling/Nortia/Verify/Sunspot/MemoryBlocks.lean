import Nortia.Verify.Sunspot.Opcodes

/-!
# Memory blocks as lookup tables

A memory block is a table, and a write makes a fresh one. The entries of a block's table are the
block's values; in the end a table that was replaced by a write has one zero more.
-/

namespace Nortia.Sunspot

/-! ## Tables -/

theorem natCast_inj {a b : Nat} (ha : a < scalarModulus) (hb : b < scalarModulus) :
    ((a : Nat) : Scalar) = ((b : Nat) : Scalar) ↔ a = b := by
  constructor
  · intro h
    rw [ZMod.natCast_eq_natCast_iff', Nat.mod_eq_of_lt ha, Nat.mod_eq_of_lt hb] at h
    exact h
  · exact congrArg _

section

variable {R : Gadgets} {T : List (List Variable)} {σ : Wire → Scalar} {b b' : Calls}
  {pre : (Nat → Scalar) → Prop} {n : Nat} {ws : Witnesses} {w : Valuation}
  {table : Nat} {entries : List Variable} {inner inner' : Nat → Scalar}

/-- A lookup finds the value of an entry at its place. -/
theorem holds_lookup (hT : T[table]? = some entries) {index result : Variable} :
    (Constraint.lookup table index result).Holds R T (withInner σ inner) ↔
      ∃ k : Nat, (entries.map (·.eval (withInner σ inner)))[k]? = some (result.eval (withInner σ inner)) ∧
        index.eval (withInner σ inner) = (k : Scalar) := by
  rw [Constraint.Holds]
  constructor
  · rintro ⟨entries', k, entry, hentries, hentry, hindex, hresult⟩
    rw [hT] at hentries
    cases hentries
    exact ⟨k, by rw [List.getElem?_map, hentry, Option.map_some, hresult], hindex⟩
  · rintro ⟨k, hk, hindex⟩
    rw [List.getElem?_map, Option.map_eq_some_iff] at hk
    obtain ⟨entry, hentry, hvalue⟩ := hk
    exact ⟨entries, k, entry, hT, hentry, hindex, hvalue.symm⟩

theorem map_eval_congr {k : Nat} (h : ∀ v ∈ entries, v.Below k)
    (hagree : AgreeBelow k inner inner') :
    entries.map (·.eval (withInner σ inner)) = entries.map (·.eval (withInner σ inner')) :=
  List.map_congr_left fun v hv => eval_congr (h v hv) hagree

theorem lookup_run (table : Nat) (index : Variable) (b : Calls) :
    lookup table index b = .ok (.wire (.inner b.inners), { b with
      inners := b.inners + 1
      constraints := b.constraints ++ [.lookup table index (.wire (.inner b.inners))] }) := rfl

theorem insert_run (h : b.tables[table]? = some entries) (v : Variable) :
    insert table v b =
      .ok (entries.length, { b with tables := b.tables.set table (entries ++ [v]) }) := by
  rw [insert, h]

theorem insertAll_run (h : Bound n ws σ w) {init : List Witness} (hinit : ∀ j ∈ init, j < n)
    (hentries : b.tables[table]? = some entries)
    (hdefine : insertAll table ws init b = .ok ((), b')) :
    ∃ vars, List.Forall₂ (fun j v => Means σ v (w j)) init vars ∧
      b' = { b with tables := b.tables.set table (entries ++ vars) } := by
  induction init generalizing b entries with
  | nil =>
    obtain ⟨-, rfl⟩ := build_pure_ok.mp hdefine
    have hset : b'.tables.set table entries = b'.tables := by
      obtain ⟨hlt, heq⟩ := List.getElem?_eq_some_iff.mp hentries
      rw [← heq, List.set_getElem_self]
    refine ⟨[], .nil, ?_⟩
    rw [List.append_nil, hset]
  | cons j init ih =>
    obtain ⟨v, b₁, hv, hrest₁⟩ := build_bind_ok.mp hdefine
    obtain ⟨rfl, hmeans⟩ := deref_means h (hinit j List.mem_cons_self) hv
    obtain ⟨i, b₂, hinsert, hrest₂⟩ := build_bind_ok.mp hrest₁
    rw [insert_run hentries] at hinsert
    cases hinsert
    have hlt : table < b₁.tables.length := (List.getElem?_eq_some_iff.mp hentries).1
    obtain ⟨vars, hall, rfl⟩ := ih (fun j hj => hinit j (List.mem_cons_of_mem _ hj))
      (by rw [List.getElem?_set_self hlt]) hrest₂
    refine ⟨v :: vars, .cons hmeans hall, ?_⟩
    rw [List.set_set, List.append_assoc]
    rfl

/-! ## Copying a table -/

/-- The lookups of a copy of `m` entries from the `i`-th on, with results on the wires from `k` on. -/
def copyConstraints (table k i m : Nat) : List Constraint :=
  (List.range m).map fun j => .lookup table (.constant ((i + j : Nat) : Scalar)) (.wire (.inner (k + j)))

/-- The entries of the copy. -/
def copied (index value : Variable) (k i m : Nat) : List Variable :=
  (List.range m).map fun j => .select (.isZero (.sub index (.constant ((i + j : Nat) : Scalar)))) value
    (.wire (.inner (k + j)))

theorem range_succ_map {α : Type} (f : Nat → α) (m : Nat) :
    (List.range (m + 1)).map f = f 0 :: (List.range m).map fun j => f (j + 1) := by
  rw [List.range_succ_eq_map, List.map_cons, List.map_map]
  rfl

theorem copyEntries_run {fresh i m : Nat} {index value : Variable}
    (hentries : b.tables[fresh]? = some entries) :
    copyEntries table fresh index value (List.range' i m) b = .ok ((), { b with
      inners := b.inners + m
      constraints := b.constraints ++ copyConstraints table b.inners i m
      tables := b.tables.set fresh (entries ++ copied index value b.inners i m) }) := by
  induction m generalizing b entries i with
  | zero =>
    obtain ⟨hlt, heq⟩ := List.getElem?_eq_some_iff.mp hentries
    have hset : b.tables.set fresh entries = b.tables := by rw [← heq, List.set_getElem_self]
    rw [List.range'_zero, copyEntries, copyConstraints, copied, List.range_zero, List.map_nil,
      List.map_nil, List.append_nil, List.append_nil, hset]
    rfl
  | succ m ih =>
    have hlt : fresh < b.tables.length := (List.getElem?_eq_some_iff.mp hentries).1
    let v : Variable := .select (.isZero (.sub index (.constant (i : Scalar)))) value
      (.wire (.inner b.inners))
    let b₁ : Calls := { b with
      inners := b.inners + 1
      constraints := b.constraints ++
        [.lookup table (.constant (i : Scalar)) (.wire (.inner b.inners))]
      tables := b.tables.set fresh (entries ++ [v]) }
    have hstep : copyEntries table fresh index value (List.range' i (m + 1)) b =
        copyEntries table fresh index value (List.range' (i + 1) m) b₁ := by
      rw [List.range'_succ, copyEntries, build_bind_run (lookup_run _ _ _)]
      refine build_bind_run (insert_run ?_ _)
      exact hentries
    have hget : b₁.tables[fresh]? = some (entries ++ [v]) := by
      show (b.tables.set fresh (entries ++ [v]))[fresh]? = _
      rw [List.getElem?_set_self hlt]
    rw [hstep, ih hget]
    simp only [b₁, v, copyConstraints, copied, range_succ_map, List.append_assoc, List.set_set,
      List.singleton_append, Nat.add_zero, Nat.add_assoc, Nat.add_comm 1]

/-- **The copy is the block after the write**, once the wires are the old entries. -/
theorem eval_copied {index value : Variable} {x y : Scalar} (hindex : Means σ index x)
    (hvalue : Means σ value y) {k : Nat} {xs : List Scalar}
    (hwires : ∀ j < xs.length, xs[j]? = some (inner (k + j))) :
    (copied index value k 0 xs.length).map (·.eval (withInner σ inner)) = writeAt x y xs := by
  refine List.ext_getElem? fun j => ?_
  rw [copied, List.map_map, writeAt, List.getElem?_map, List.getElem?_mapIdx]
  by_cases hj : j < xs.length
  · rw [List.getElem?_range hj, hwires j hj, Option.map_some, Option.map_some]
    simp only [Function.comp_apply, Variable.eval, hindex.value, hvalue.value, withInner, Nat.zero_add,
      sub_eq_zero]
    split
    · rw [one_mul, add_sub_cancel]
    · rw [zero_mul, add_zero]
  · have hlen : xs.length ≤ j := Nat.le_of_not_lt hj
    rw [List.getElem?_eq_none hlen, List.getElem?_eq_none (by rwa [List.length_range])]
    rfl

theorem sat_copyConstraints {k m : Nat} : Sat R T σ (copyConstraints table k 0 m) inner ↔
    ∀ j < m, (Constraint.lookup table (.constant ((j : Nat) : Scalar))
      (.wire (.inner (k + j)))).Holds R T (withInner σ inner) := by
  simp [Sat, copyConstraints]

end

/-! ## The scope of a circuit -/

/-- The tables of the blocks there are: distinct, with entries on wires there are. -/
structure ScopeOk (n : Nat) (σ : Wire → Scalar) (w : Valuation) (b : Calls) (s : Scope) : Prop where
  bound : Bound n s.witnesses σ w
  live : ∀ block table, s.memory.lookup block = some table → ∃ entries,
    b.tables[table]? = some entries ∧ (∀ v ∈ entries, v.Below b.inners) ∧
      entries.length < scalarModulus
  inj : ∀ block block' table, s.memory.lookup block = some table →
    s.memory.lookup block' = some table → block = block'

/-- The entries of a table, by their values. -/
def tableValues (σ : Wire → Scalar) (b : Calls) (inner : Nat → Scalar) (table : Nat) :
    List Scalar :=
  ((b.tables[table]?).getD []).map (·.eval (withInner σ inner))

/-- The tables hold the memory. -/
def Related (σ : Wire → Scalar) (b : Calls) (s : Scope) (mem : Memory) (inner : Nat → Scalar) :
    Prop :=
  ∀ block, mem.lookup block = (s.memory.lookup block).map (tableValues σ b inner)

/-- The dummy entry of a table that is to be replaced. -/
def dummyEntry (block : Nat) (rest : List Opcode) : List Variable :=
  if writtenLater block rest then [.constant 0] else []

/-- What the tables are in the end: those of the blocks may get a dummy entry, the others stay. -/
structure TablesFinal (T : List (List Variable)) (b : Calls) (s : Scope) (rest : List Opcode) :
    Prop where
  live : ∀ (block table : Nat) (entries : List Variable), s.memory.lookup block = some table →
    b.tables[table]? = some entries → T[table]? = some (entries ++ dummyEntry block rest)
  dead : ∀ (table : Nat) (entries : List Variable), (∀ block, s.memory.lookup block ≠ some table) →
    b.tables[table]? = some entries → T[table]? = some entries

/-- The tables of `b` are among those of `T`. -/
def Extends (b : Calls) (T : List (List Variable)) : Prop :=
  ∀ (table : Nat) (entries : List Variable), b.tables[table]? = some entries →
    T[table]? = some entries

section

variable {R : Gadgets} {T : List (List Variable)} {σ : Wire → Scalar} {b b₁ b' : Calls}
  {n : Nat} {w : Valuation} {s s₁ : Scope} {mem : Memory} {inner inner' : Nat → Scalar}
  {rest : List Opcode}

theorem lookup_cons_self {α : Type} (k : Nat) (x : α) (l : List (Nat × α)) :
    ((k, x) :: l).lookup k = some x := by
  rw [List.lookup_cons, beq_self_eq_true]

theorem lookup_cons_ne {α : Type} {k k' : Nat} (h : k' ≠ k) (x : α) (l : List (Nat × α)) :
    ((k, x) :: l).lookup k' = l.lookup k' := by
  rw [List.lookup_cons, beq_eq_false_iff_ne.mpr h]

theorem eval_dummyEntry (block : Nat) (rest : List Opcode) :
    (dummyEntry block rest).map (·.eval (withInner σ inner)) = dummySlack block rest := by
  rw [dummyEntry, dummySlack]
  split <;> rfl

/-- What the memory is does not depend on later wires. -/
theorem Related.agree (hok : ScopeOk n σ w b s) (h : Related σ b s mem inner)
    (hagree : AgreeBelow b.inners inner inner') : Related σ b s mem inner' := by
  intro block
  rw [h block]
  cases htable : s.memory.lookup block with
  | none => rfl
  | some table =>
    obtain ⟨entries, hentries, hbelow, -⟩ := hok.live block table htable
    rw [Option.map_some, Option.map_some, tableValues, tableValues, hentries, Option.getD_some,
      map_eval_congr hbelow hagree]

/-- A step that leaves the tables and the memory alone. -/
theorem ScopeOk.mono (hok : ScopeOk n σ w b s) (htables : b₁.tables = b.tables)
    (hinners : b.inners ≤ b₁.inners) : ScopeOk n σ w b₁ s where
  bound := hok.bound
  live := by
    intro block table h
    obtain ⟨entries, hentries, hbelow, hlen⟩ := hok.live block table h
    exact ⟨entries, by rw [htables]; exact hentries, fun v hv => (hbelow v hv).mono hinners, hlen⟩
  inj := hok.inj

theorem Related.mono (h : Related σ b s mem inner) (htables : b₁.tables = b.tables) :
    Related σ b₁ s mem inner := by
  intro block
  rw [h block]
  unfold tableValues
  rw [htables]

theorem TablesFinal.mono {op : Opcode} (h : TablesFinal T b₁ s rest)
    (htables : b₁.tables = b.tables)
    (hlater : ∀ block, writtenLater block (op :: rest) = writtenLater block rest) :
    TablesFinal T b s (op :: rest) where
  live := by
    intro block table entries hblock hentries
    rw [dummyEntry, hlater]
    exact h.live block table entries hblock (by rw [htables]; exact hentries)
  dead := fun table entries hdead hentries =>
    h.dead table entries hdead (by rw [htables]; exact hentries)

/-- The values a read of a block may see. -/
theorem holds_read {table : Nat} {block : Nat} {entries : List Variable}
    (hT : T[table]? = some (entries ++ dummyEntry block rest)) {index result : Variable} :
    (Constraint.lookup table index result).Holds R T (withInner σ inner) ↔
      ∃ k : Nat, (entries.map (·.eval (withInner σ inner)) ++ dummySlack block rest)[k]? =
        some (result.eval (withInner σ inner)) ∧ index.eval (withInner σ inner) = (k : Scalar) := by
  rw [holds_lookup hT, List.map_append, eval_dummyEntry]

/-! ## A block gets a fresh table -/

/-- The scope once a block has a fresh table. -/
def Scope.renew (s : Scope) (b : Calls) (block : Nat) : Scope :=
  { s with memory := (block, b.tables.length) :: s.memory }

/-- The tables of the other blocks stay, and the fresh one has these entries. -/
structure Renews (b b₁ : Calls) (s : Scope) (block : Nat) (entries : List Variable) : Prop where
  keep : ∀ table < b.tables.length, s.memory.lookup block ≠ some table →
    b₁.tables[table]? = b.tables[table]?
  fresh : b₁.tables[b.tables.length]? = some entries

theorem ScopeOk.lt (hok : ScopeOk n σ w b s) {block table : Nat}
    (h : s.memory.lookup block = some table) : table < b.tables.length := by
  obtain ⟨entries, hentries, -⟩ := hok.live block table h
  exact (List.getElem?_eq_some_iff.mp hentries).1

variable {block : Nat} {entries : List Variable}

/-- Another block's table is kept. -/
theorem Renews.other (h : Renews b b₁ s block entries) (hok : ScopeOk n σ w b s) {block' table : Nat}
    (hne : block' ≠ block) (hlookup : s.memory.lookup block' = some table) :
    b₁.tables[table]? = b.tables[table]? :=
  h.keep table (hok.lt hlookup) fun hsame => hne (hok.inj _ _ _ hlookup hsame)

theorem ScopeOk.renew (hok : ScopeOk n σ w b s) (h : Renews b b₁ s block entries)
    (hbelow : ∀ v ∈ entries, v.Below b₁.inners) (hlen : entries.length < scalarModulus)
    (hinners : b.inners ≤ b₁.inners) : ScopeOk n σ w b₁ (s.renew b block) where
  bound := hok.bound
  live := by
    intro block' table hlookup
    by_cases hblock : block' = block
    · subst hblock
      rw [Scope.renew, lookup_cons_self] at hlookup
      cases hlookup
      exact ⟨entries, h.fresh, hbelow, hlen⟩
    · rw [Scope.renew, lookup_cons_ne hblock] at hlookup
      obtain ⟨old, hold, hbelow', hlen'⟩ := hok.live block' table hlookup
      exact ⟨old, (h.other hok hblock hlookup).trans hold, fun v hv => (hbelow' v hv).mono hinners,
        hlen'⟩
  inj := by
    intro x y table hx hy
    by_cases hxb : x = block <;> by_cases hyb : y = block
    · rw [hxb, hyb]
    · subst hxb
      rw [Scope.renew, lookup_cons_self] at hx
      cases hx
      rw [Scope.renew, lookup_cons_ne hyb] at hy
      exact absurd (hok.lt hy) (Nat.lt_irrefl _)
    · subst hyb
      rw [Scope.renew, lookup_cons_self] at hy
      cases hy
      rw [Scope.renew, lookup_cons_ne hxb] at hx
      exact absurd (hok.lt hx) (Nat.lt_irrefl _)
    · rw [Scope.renew, lookup_cons_ne hxb] at hx
      rw [Scope.renew, lookup_cons_ne hyb] at hy
      exact hok.inj x y table hx hy

theorem Related.renew (h : Related σ b s mem inner) (hok : ScopeOk n σ w b s)
    (hrenews : Renews b b₁ s block entries) {xs : List Scalar}
    (hxs : entries.map (·.eval (withInner σ inner)) = xs) :
    Related σ b₁ (s.renew b block) ((block, xs) :: mem) inner := by
  intro block'
  by_cases hblock : block' = block
  · subst hblock
    rw [Scope.renew, lookup_cons_self, lookup_cons_self, Option.map_some, tableValues, hrenews.fresh,
      Option.getD_some, hxs]
  · rw [Scope.renew, lookup_cons_ne hblock, lookup_cons_ne hblock, h block']
    cases hlookup : s.memory.lookup block' with
    | none => rfl
    | some table =>
      rw [Option.map_some, Option.map_some, tableValues, tableValues,
        hrenews.other hok hblock hlookup]

/-- The block's old table is never written again. -/
theorem TablesFinal.renew {op : Opcode} (h : TablesFinal T b₁ (s.renew b block) rest)
    (hok : ScopeOk n σ w b s) (hrenews : Renews b b₁ s block entries)
    (hlater : ∀ block' ≠ block, writtenLater block' (op :: rest) = writtenLater block' rest)
    (hold : ∀ (table : Nat) (old : List Variable), s.memory.lookup block = some table →
      b.tables[table]? = some old →
      b₁.tables[table]? = some (old ++ dummyEntry block (op :: rest))) :
    TablesFinal T b s (op :: rest) where
  live := by
    intro block' table old hlookup hentries
    by_cases hblock : block' = block
    · subst hblock
      refine h.dead table _ (fun x hx => ?_) (hold table old hlookup hentries)
      by_cases hxb : x = block'
      · subst hxb
        rw [Scope.renew, lookup_cons_self] at hx
        cases hx
        exact absurd (hok.lt hlookup) (Nat.lt_irrefl _)
      · rw [Scope.renew, lookup_cons_ne hxb] at hx
        exact hxb (hok.inj _ _ _ hx hlookup)
    · rw [dummyEntry, hlater block' hblock]
      refine h.live block' table old ?_ ((hrenews.other hok hblock hlookup).trans hentries)
      rw [Scope.renew, lookup_cons_ne hblock]
      exact hlookup
  dead := by
    intro table old hdead hentries
    have hlt : table < b.tables.length := (List.getElem?_eq_some_iff.mp hentries).1
    refine h.dead table old (fun x hx => ?_) ((hrenews.keep table hlt (hdead block)).trans hentries)
    by_cases hxb : x = block
    · subst hxb
      rw [Scope.renew, lookup_cons_self] at hx
      cases hx
      exact absurd hlt (Nat.lt_irrefl _)
    · rw [Scope.renew, lookup_cons_ne hxb] at hx
      exact hdead x hx

end

/-! ## One opcode -/

/-- The constants of an opcode are in the ranges its decoder checks. -/
def Opcode.Sized : Opcode → Prop
  | .blackBoxFuncCall f => f.Sized
  | .memoryInit m => m.init.length < 2 ^ 32
  | _ => True

/-- The witnesses an opcode refers to are among the first `n`, and its constants are in range. -/
structure OpcodeOk (n : Nat) (op : Opcode) : Prop where
  closed : ∀ j ∈ op.witnesses, j < n
  sized : op.Sized

section

variable (R : Gadgets) (σ : Wire → Scalar) (n : Nat) (w : Valuation)

/-- What is known of an opcode's step: its scope, and that it is exact in front of an exact rest. -/
structure OpStep (op : Opcode) (b b₁ : Calls) (s s₁ : Scope) : Prop where
  witnesses : s₁.witnesses = s.witnesses
  ok : ScopeOk n σ w b₁ s₁
  final : ∀ T rest, TablesFinal T b₁ s₁ rest → TablesFinal T b s (op :: rest)
  exact : ∀ T rest mem b', TablesFinal T b₁ s₁ rest →
    (∀ mem₁, Exact R T σ b₁ b' (Related σ b₁ s₁ mem₁) (OpcodesAccept R dummySlack w rest mem₁)) →
    Exact R T σ b b' (Related σ b s mem) (OpcodesAccept R dummySlack w (op :: rest) mem)

end

section

variable {R : Gadgets} {T : List (List Variable)} {σ : Wire → Scalar} {b b₁ b' : Calls}
  {n : Nat} {w : Valuation} {s s₁ : Scope} {mem : Memory} {inner inner' : Nat → Scalar}
  {rest : List Opcode} {op : Opcode}

/-- An opcode that only adds constraints. -/
theorem plain_step (hok : ScopeOk n σ w b s) {cond : Prop} (htables : b₁.tables = b.tables)
    (hexact : ∀ T pre, Exact R T σ b b₁ pre cond)
    (hlater : ∀ block rest, writtenLater block (op :: rest) = writtenLater block rest)
    (haccept : ∀ rest mem, OpcodesAccept R dummySlack w (op :: rest) mem ↔
      cond ∧ OpcodesAccept R dummySlack w rest mem) : OpStep R σ n w op b b₁ s s where
  witnesses := rfl
  ok := hok.mono htables (hexact [] fun _ => True).inners
  final := fun T rest h => h.mono htables fun block => hlater block rest
  exact := by
    intro T rest mem b' _ hrest
    refine ((hexact T (Related σ b s mem)).trans (hrest mem) ?_).congr fun inner _ =>
      (haccept rest mem).symm
    intro new _ inner inner' hrelated hagree _
    exact (hrelated.agree hok hagree).mono htables

theorem getElem?_push {α : Type} (l : List α) (x : α) : (l ++ [x])[l.length]? = some x := by
  rw [List.getElem?_append_right (Nat.le_refl _), Nat.sub_self]
  rfl

theorem memoryInit_run (hbound : Bound n s.witnesses σ w) {m : MemoryInit}
    (hinit : ∀ j ∈ m.init, j < n) (hdefine : m.define s b = .ok (s₁, b₁)) :
    ∃ vars, List.Forall₂ (fun j v => Means σ v (w j)) m.init vars ∧ s₁ = s.renew b m.blockID ∧
      b₁ = { b with tables := b.tables ++ [vars] } := by
  obtain ⟨table, b₂, hnew, hrest₁⟩ := build_bind_ok.mp hdefine
  cases hnew
  obtain ⟨_, b₃, hinsert, hpure⟩ := build_bind_ok.mp hrest₁
  obtain ⟨rfl, rfl⟩ := build_pure_ok.mp hpure
  obtain ⟨vars, hvars, hb⟩ := insertAll_run hbound hinit (getElem?_push _ _) hinsert
  refine ⟨vars, hvars, rfl, ?_⟩
  have hset : (b.tables ++ [[]]).set b.tables.length ([] ++ vars) = b.tables ++ [vars] := by
    rw [List.set_append_right _ _ (Nat.le_refl _), Nat.sub_self]
    rfl
  rw [hb, ← hset]

theorem memoryInit_step (hok : ScopeOk n σ w b s) {m : MemoryInit} (hm : OpcodeOk n (.memoryInit m))
    (hdefine : m.define s b = .ok (s₁, b₁)) : OpStep R σ n w (.memoryInit m) b b₁ s s₁ := by
  have hinit : ∀ j ∈ m.init, j < n := hm.closed
  obtain ⟨vars, hvars, rfl, rfl⟩ := memoryInit_run hok.bound hinit hdefine
  have hrenews : Renews b { b with tables := b.tables ++ [vars] } s m.blockID vars :=
    ⟨fun table hlt _ => List.getElem?_append_left hlt, getElem?_push _ _⟩
  have hlength : vars.length = m.init.length := hvars.length_eq.symm
  have hbelow : ∀ v ∈ vars, v.Below b.inners := by
    intro v hv
    obtain ⟨i, hi, rfl⟩ := List.mem_iff_getElem.mp hv
    have hmeans := (List.forall₂_iff_get.mp hvars).2 i (by omega) hi
    exact hmeans.outer.mono (Nat.zero_le _)
  have hlen : vars.length < scalarModulus := by
    rw [hlength]
    exact Nat.lt_trans hm.sized (by decide)
  have hlater : ∀ rest, ∀ block' ≠ m.blockID,
      writtenLater block' (.memoryInit m :: rest) = writtenLater block' rest :=
    fun rest block' hne => if_neg (Ne.symm hne)
  have hdummy : ∀ rest, dummyEntry m.blockID (.memoryInit m :: rest) = [] := by
    intro rest
    rw [dummyEntry, writtenLater, if_pos rfl]
    rfl
  refine ⟨rfl, hok.renew hrenews hbelow hlen (Nat.le_refl _), ?_, ?_⟩
  · intro T rest hfinal
    refine hfinal.renew hok hrenews (hlater rest) fun table old _ hold => ?_
    rw [hdummy, List.append_nil]
    exact (List.getElem?_append_left (List.getElem?_eq_some_iff.mp hold).1).trans hold
  · intro T rest mem b' _ hrest
    have hstart : Exact R T σ b { b with tables := b.tables ++ [vars] } (Related σ b s mem) True :=
      .constraints rfl ⟨rfl, rfl, rfl⟩ (List.append_nil _).symm fun inner => by simp [Sat]
    refine (hstart.trans (hrest ((m.blockID, m.init.map w) :: mem)) ?_).congr fun inner _ => ?_
    · intro new _ inner inner' hrelated hagree _
      refine (hrelated.agree hok hagree).renew hok hrenews ?_
      exact map_eq_of_forall₂ (hvars.imp fun j v hmeans => hmeans.value inner')
    · rw [true_and, OpcodesAccept]

/-! ## Reads and writes -/

/-- The block of an operation, as the tables and the memory have it. -/
theorem Related.block {m : MemoryOp} {table : Nat}
    (htable : s.memory.lookup m.blockID = some table) {entries : List Variable}
    (hentries : b.tables[table]? = some entries) (h : Related σ b s mem inner) :
    mem.lookup m.blockID = some (entries.map (·.eval (withInner σ inner))) := by
  rw [h m.blockID, htable, Option.map_some, tableValues, hentries, Option.getD_some]

/-- The table, the index and the value of an operation. -/
theorem memoryOp_means (hok : ScopeOk n σ w b s) {m : MemoryOp} (hm : OpcodeOk n (.memoryOp m))
    (hdefine : m.define s b = .ok (s₁, b₁)) : ∃ table index value,
      s.memory.lookup m.blockID = some table ∧ s.witnesses m.index = some index ∧
      s.witnesses m.value = some value ∧ Means σ index (w m.index) ∧ Means σ value (w m.value) := by
  obtain ⟨index, hindex, hx⟩ := hok.bound.means (hm.closed m.index (by simp [Opcode.witnesses,
    MemoryOp.witnesses]))
  obtain ⟨value, hvalue, hy⟩ := hok.bound.means (hm.closed m.value (by simp [Opcode.witnesses,
    MemoryOp.witnesses]))
  rw [MemoryOp.define] at hdefine
  cases htable : s.memory.lookup m.blockID with
  | none => rw [htable] at hdefine; exact (crash_ok.mp hdefine).elim
  | some table => exact ⟨table, index, value, rfl, hindex, hvalue, hx, hy⟩

theorem deref_run (v : Variable) (b : Calls) : deref (some v) b = .ok (v, b) := rfl

theorem memoryRead_run {m : MemoryOp} (hread : m.isWrite = false) {table : Nat}
    {index value : Variable} (htable : s.memory.lookup m.blockID = some table)
    (hindex : s.witnesses m.index = some index) (hvalue : s.witnesses m.value = some value) :
    m.define s b = .ok (s, { b with
      inners := b.inners + 1
      constraints := b.constraints ++ [.lookup table index (.wire (.inner b.inners)),
        .assertIsEqual (.wire (.inner b.inners)) value] }) := by
  simp only [MemoryOp.define, htable, hindex, hvalue, hread, Bool.false_eq_true, if_false]
  rw [build_bind_run (deref_run _ _), build_bind_run (deref_run _ _), build_bind_run (lookup_run _ _ _)]
  show Except.ok (s, _) = _
  rw [List.append_cons b.constraints, List.append_assoc]
  simp

theorem memoryRead_step (hok : ScopeOk n σ w b s) {m : MemoryOp} (hread : m.isWrite = false)
    (hm : OpcodeOk n (.memoryOp m)) (hdefine : m.define s b = .ok (s₁, b₁)) :
    OpStep R σ n w (.memoryOp m) b b₁ s s₁ := by
  obtain ⟨table, index, value, htable, hindex, hvalue, hx, hy⟩ := memoryOp_means hok hm hdefine
  rw [memoryRead_run hread htable hindex hvalue] at hdefine
  cases hdefine
  obtain ⟨entries, hentries, hbelow, hlen⟩ := hok.live _ _ htable
  have hlater : ∀ block rest, writtenLater block (.memoryOp m :: rest) = writtenLater block rest := by
    intro block rest
    rw [writtenLater, hread]
    simp
  refine ⟨rfl, hok.mono rfl (Nat.le_succ _), fun T rest h => h.mono rfl fun block =>
    hlater block rest, ?_⟩
  intro T rest mem b' hfinal hrest
  have hT := hfinal.live _ _ _ htable hentries
  -- the lookup's wire is the only fresh one
  have hsat : ∀ inner, Sat R T σ [.lookup table index (.wire (.inner b.inners)),
      .assertIsEqual (.wire (.inner b.inners)) value] inner ↔
      (∃ k : Nat, (entries.map (·.eval (withInner σ inner)) ++ dummySlack m.blockID rest)[k]? =
        some (inner b.inners) ∧ w m.index = (k : Scalar)) ∧ inner b.inners = w m.value := by
    intro inner
    rw [← List.singleton_append, sat_append, sat_singleton, sat_singleton, holds_read hT,
      Constraint.Holds, hy.value, hx.value]
    exact Iff.rfl
  have hstep : Exact R T σ b { b with
      inners := b.inners + 1
      constraints := b.constraints ++ [.lookup table index (.wire (.inner b.inners)),
        .assertIsEqual (.wire (.inner b.inners)) value] } (Related σ b s mem)
      (∃ xs, mem.lookup m.blockID = some xs ∧
        ∃ k, (xs ++ dummySlack m.blockID rest)[k]? = some (w m.value) ∧ w m.index = (k : Nat)) := by
    refine ⟨Nat.le_succ _, ⟨rfl, rfl, rfl⟩, _, rfl, ?_, ?_, ?_⟩
    · intro inner inner' hagree hs
      have hbelow' : ∀ v ∈ entries, v.Below (b.inners + 1) := fun v hv =>
        (hbelow v hv).mono (Nat.le_succ _)
      refine (hsat inner').mpr ?_
      rw [← map_eval_congr hbelow' hagree, ← hagree b.inners (Nat.lt_succ_self _)]
      exact (hsat inner).mp hs
    · intro inner hrelated hs
      obtain ⟨⟨k, hk, hindex⟩, hresult⟩ := (hsat inner).mp hs
      exact ⟨_, hrelated.block htable hentries, k, by rw [← hresult]; exact hk, hindex⟩
    · rintro inner hrelated ⟨xs, hxs, k, hk, hindex⟩
      rw [hrelated.block htable hentries] at hxs
      cases hxs
      have hwire : place b.inners [w m.value] inner b.inners = w m.value := place_add (j := 0) rfl
      refine ⟨place b.inners [w m.value] inner, agreeBelow_place _ _ _,
        (hsat _).mpr ⟨⟨k, ?_, hindex⟩, hwire⟩⟩
      rw [hwire, ← map_eval_congr hbelow (agreeBelow_place _ _ _)]
      exact hk
  refine (hstep.trans (hrest mem) ?_).congr fun inner _ => ?_
  · intro new _ inner inner' hrelated hagree _
    exact (hrelated.agree hok hagree).mono rfl
  · simp only [OpcodesAccept, hread, Bool.false_eq_true, if_false]
    constructor
    · rintro ⟨⟨xs, hxs, hk⟩, haccept⟩
      exact ⟨xs, hxs, hk, haccept⟩
    · rintro ⟨xs, hxs, hk, haccept⟩
      exact ⟨⟨xs, hxs, hk⟩, haccept⟩

/-- The calls once the entries of a table are copied to a fresh one, with a dummy entry behind. -/
def Calls.copyTable (b : Calls) (table : Nat) (entries : List Variable)
    (index value : Variable) : Calls :=
  { b with
    inners := b.inners + entries.length
    constraints := b.constraints ++ copyConstraints table b.inners 0 entries.length
    tables := b.tables.set table (entries ++ [.constant 0]) ++
      [copied index value b.inners 0 entries.length] }

theorem memoryWrite_run {m : MemoryOp} (hwrite : m.isWrite = true) {table : Nat}
    {index value : Variable} (htable : s.memory.lookup m.blockID = some table)
    (hindex : s.witnesses m.index = some index) (hvalue : s.witnesses m.value = some value)
    {entries : List Variable} (hentries : b.tables[table]? = some entries) :
    m.define s b = .ok (s.renew b m.blockID, b.copyTable table entries index value) := by
  have hlt : table < b.tables.length := (List.getElem?_eq_some_iff.mp hentries).1
  have hold : (b.tables ++ [[]])[table]? = some entries :=
    (List.getElem?_append_left hlt).trans hentries
  simp only [MemoryOp.define, htable, hindex, hvalue, hwrite, if_true]
  rw [build_bind_run (deref_run _ _), build_bind_run (deref_run _ _)]
  have hnew : newTable b = .ok (b.tables.length, { b with tables := b.tables ++ [[]] }) := rfl
  rw [build_bind_run hnew, build_bind_run (insert_run hold _), List.range_eq_range']
  have htables : (b.tables ++ [[]]).set table (entries ++ [Variable.constant 0]) =
      b.tables.set table (entries ++ [Variable.constant 0]) ++ [[]] := List.set_append_left _ _ hlt
  have hlength : (b.tables.set table (entries ++ [Variable.constant 0])).length = b.tables.length :=
    List.length_set
  have hfresh : ((b.tables ++ [[]]).set table (entries ++ [Variable.constant 0]))[b.tables.length]? =
      some ([] : List Variable) := by
    rw [htables, ← hlength]
    exact getElem?_push _ _
  rw [build_bind_run (copyEntries_run hfresh)]
  show Except.ok (s.renew b m.blockID, _) = _
  rw [htables, List.set_append_right _ _ (Nat.le_of_eq hlength), hlength, Nat.sub_self]
  rfl

/-- The entries of a copy are on wires there are. -/
theorem below_copied {index value : Variable} (hindex : index.Outer) (hvalue : value.Outer)
    {k m : Nat} : ∀ v ∈ copied index value k 0 m, v.Below (k + m) := by
  intro v hv
  obtain ⟨j, hj, rfl⟩ := List.mem_map.mp hv
  have hlt : j < m := List.mem_range.mp hj
  exact ⟨⟨hindex.mono (Nat.zero_le _), trivial⟩, hvalue.mono (Nat.zero_le _),
    Nat.add_lt_add_left hlt k⟩

/-- The lookups of a copy find the entries in their places, and not the dummy behind them. -/
theorem sat_copy {table : Nat} {entries : List Variable} {k : Nat}
    (hT : T[table]? = some (entries ++ [.constant 0])) (hlen : entries.length < scalarModulus) :
    Sat R T σ (copyConstraints table k 0 entries.length) inner ↔ ∀ j < entries.length,
      (entries.map (·.eval (withInner σ inner)))[j]? = some (inner (k + j)) := by
  rw [sat_copyConstraints]
  refine forall₂_congr fun j hj => ?_
  rw [holds_lookup hT, List.map_append]
  have hlength : (entries.map (·.eval (withInner σ inner))).length = entries.length :=
    List.length_map _
  constructor
  · rintro ⟨i, hi, hindex⟩
    have hlt : i < entries.length + 1 := by
      have hsome := (List.getElem?_eq_some_iff.mp hi).1
      rw [List.length_append, hlength] at hsome
      exact hsome
    have heq : j = i := (natCast_inj (by omega) (by omega)).mp hindex
    subst heq
    rw [List.getElem?_append_left (by rwa [hlength])] at hi
    exact hi
  · intro hj'
    exact ⟨j, by rw [List.getElem?_append_left (by rwa [hlength])]; exact hj', rfl⟩

/-- A copy is a fresh table of the block. -/
theorem renews_copyTable {block table : Nat} {entries : List Variable} {index value : Variable}
    (htable : s.memory.lookup block = some table) :
    Renews b (b.copyTable table entries index value) s block
      (copied index value b.inners 0 entries.length) := by
  have hlength : (b.tables.set table (entries ++ [Variable.constant 0])).length = b.tables.length :=
    List.length_set
  constructor
  · intro table' hlt hne
    have hne' : table ≠ table' := fun heq => hne (heq ▸ htable)
    exact (List.getElem?_append_left (by rwa [hlength])).trans (List.getElem?_set_ne hne')
  · have hpush := getElem?_push (b.tables.set table (entries ++ [Variable.constant 0]))
      (copied index value b.inners 0 entries.length)
    rw [hlength] at hpush
    exact hpush

/-- The copied table gets a dummy entry. -/
theorem getElem?_copyTable {table : Nat} {entries : List Variable} {index value : Variable}
    (hlt : table < b.tables.length) :
    (b.copyTable table entries index value).tables[table]? =
      some (entries ++ [Variable.constant 0]) :=
  (List.getElem?_append_left (by rwa [List.length_set])).trans (List.getElem?_set_self hlt)

/-- The wires of a copy can always be chosen. -/
theorem exact_copyTable {table : Nat} {entries : List Variable} {index value : Variable}
    {pre : (Nat → Scalar) → Prop} (hT : T[table]? = some (entries ++ [.constant 0]))
    (hlen : entries.length < scalarModulus) (hbelow : ∀ v ∈ entries, v.Below b.inners) :
    Exact R T σ b (b.copyTable table entries index value) pre True := by
  refine ⟨Nat.le_add_right _ _, ⟨rfl, rfl, rfl⟩, _, rfl, ?_, fun _ _ _ => trivial, ?_⟩
  · intro inner inner' hagree hs
    refine (sat_copy hT hlen).mpr fun j hj => ?_
    rw [← map_eval_congr hbelow (hagree.mono (Nat.le_add_right _ _)),
      ← hagree (b.inners + j) (Nat.add_lt_add_left hj _)]
    exact (sat_copy hT hlen).mp hs j hj
  · intro inner _ _
    refine ⟨place b.inners (entries.map (·.eval (withInner σ inner))) inner,
      agreeBelow_place _ _ _, (sat_copy hT hlen).mpr fun j hj => ?_⟩
    have hget : (entries.map (·.eval (withInner σ inner)))[j]? =
        some (entries[j].eval (withInner σ inner)) := by
      rw [List.getElem?_map, List.getElem?_eq_getElem hj, Option.map_some]
    rw [← map_eval_congr hbelow (agreeBelow_place _ _ _), place_add hget]
    exact hget

theorem memoryWrite_step (hok : ScopeOk n σ w b s) {m : MemoryOp} (hwrite : m.isWrite = true)
    (hm : OpcodeOk n (.memoryOp m)) (hdefine : m.define s b = .ok (s₁, b₁)) :
    OpStep R σ n w (.memoryOp m) b b₁ s s₁ := by
  obtain ⟨table, index, value, htable, hindex, hvalue, hx, hy⟩ := memoryOp_means hok hm hdefine
  obtain ⟨entries, hentries, hbelow, hlen⟩ := hok.live _ _ htable
  have hlt : table < b.tables.length := (List.getElem?_eq_some_iff.mp hentries).1
  rw [memoryWrite_run hwrite htable hindex hvalue hentries] at hdefine
  cases hdefine
  have hrenews : Renews b (b.copyTable table entries index value) s m.blockID
      (copied index value b.inners 0 entries.length) := renews_copyTable htable
  have hcopied : (copied index value b.inners 0 entries.length).length = entries.length := by
    rw [copied, List.length_map, List.length_range]
  have hlater : ∀ rest, ∀ block' ≠ m.blockID,
      writtenLater block' (.memoryOp m :: rest) = writtenLater block' rest := by
    intro rest block' hne
    rw [writtenLater, decide_eq_false (Ne.symm hne), Bool.false_and, Bool.false_or]
  have hdummy : ∀ rest, dummyEntry m.blockID (.memoryOp m :: rest) = [.constant 0] := by
    intro rest
    rw [dummyEntry, writtenLater, hwrite]
    simp
  have hfinal : ∀ T rest,
      TablesFinal T (b.copyTable table entries index value) (s.renew b m.blockID) rest →
        TablesFinal T b s (.memoryOp m :: rest) := by
    intro T rest hfinal
    refine hfinal.renew hok hrenews (hlater rest) fun table' old hlookup hold => ?_
    rw [htable] at hlookup
    cases hlookup
    rw [hentries] at hold
    cases hold
    rw [hdummy]
    exact getElem?_copyTable hlt
  refine ⟨rfl, hok.renew hrenews (below_copied hx.outer hy.outer) (by rwa [hcopied])
    (Nat.le_add_right _ _), hfinal, ?_⟩
  intro T rest mem b' hnext hrest
  have hT := (hfinal T rest hnext).live _ _ _ htable hentries
  rw [hdummy] at hT
  have hstep : Exact R T σ b (b.copyTable table entries index value) (Related σ b s mem) True :=
    exact_copyTable hT hlen hbelow
  let xs : List Scalar := (mem.lookup m.blockID).getD []
  refine (hstep.trans (hrest ((m.blockID, writeAt (w m.index) (w m.value) xs) :: mem)) ?_).congr
    fun inner hrelated => ?_
  · intro new hnew inner inner' hrelated hagree hs
    have hcopy : new = copyConstraints table b.inners 0 entries.length :=
      (List.append_cancel_left hnew).symm
    rw [hcopy, sat_copy hT hlen] at hs
    have hrelated' := hrelated.agree hok hagree
    refine hrelated'.renew hok hrenews ?_
    have hxs : xs = entries.map (·.eval (withInner σ inner')) := by
      show (mem.lookup m.blockID).getD [] = _
      rw [hrelated'.block htable hentries, Option.getD_some]
    have hlengths : xs.length = entries.length := by rw [hxs, List.length_map]
    rw [← hlengths]
    refine eval_copied hx hy fun j hj => ?_
    rw [hxs]
    exact hs j (by rwa [hlengths] at hj)
  · have hblock := hrelated.block htable hentries
    simp only [OpcodesAccept, hwrite, if_true, true_and, xs, hblock, Option.getD_some,
      Option.some.injEq, exists_eq_left']

end

end Nortia.Sunspot
