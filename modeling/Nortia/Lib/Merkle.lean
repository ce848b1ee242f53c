import Mathlib.Algebra.Group.Nat.Defs
import Mathlib.Data.Set.Function
import Mathlib.Data.List.Basic

/-!
# Binary hash trees over an unbounded row of leaves

A tree of any height stands over a row of leaves `f : Nat → F`; a finite list of leaves is such a
row once it is padded. `node hash f k i` is the node of level `k` at index `i`. A path folds a leaf
up to a node; the path of an index folds its own leaf (`fold_path`), and when no two hashed pairs
collide nothing else folds to a node of the tree (`fold_eq_node`).
-/

namespace Lib.Merkle

variable {F G : Type} {hash : F → F → F} {f : Nat → F}

/-! ## Nodes -/

/-- The node of a level at an index. -/
def node (hash : F → F → F) (f : Nat → F) : Nat → Nat → F
  | 0, i => f i
  | k + 1, i => hash (node hash f k (2 * i)) (node hash f k (2 * i + 1))

/-- The root over padding alone. -/
def padding (hash : F → F → F) (zero : F) : Nat → F
  | 0 => zero
  | k + 1 => hash (padding hash zero k) (padding hash zero k)

/-- Where all the leaves below a node are padding, so is the node. -/
theorem node_eq_padding {zero : F} {n : Nat} (hf : ∀ i, n ≤ i → f i = zero) :
    ∀ (k i : Nat), n ≤ i * 2 ^ k → node hash f k i = padding hash zero k := by
  intro k
  induction k with
  | zero =>
    intro i hi
    exact hf i (by omega)
  | succ k ih =>
    intro i hi
    have hpow : i * 2 ^ (k + 1) = 2 * i * 2 ^ k := by
      rw [Nat.pow_succ, Nat.mul_comm (2 ^ k) 2, ← Nat.mul_assoc, Nat.mul_comm i 2]
    have hleft : n ≤ 2 * i * 2 ^ k := hpow ▸ hi
    have hright : n ≤ (2 * i + 1) * 2 ^ k := by
      rw [Nat.add_mul]
      omega
    show hash _ _ = hash _ _
    rw [ih _ hleft, ih _ hright]

/-- A map that commutes with the hashes maps nodes to nodes. -/
theorem map_node {hash' : G → G → G} {φ : F → G}
    (hφ : ∀ a b, φ (hash a b) = hash' (φ a) (φ b)) :
    ∀ (k i : Nat), φ (node hash f k i) = node hash' (φ ∘ f) k i := by
  intro k
  induction k with
  | zero =>
    intro i
    rfl
  | succ k ih =>
    intro i
    show φ (hash _ _) = hash' _ _
    rw [hφ, ih, ih]

/-! ## Rows of a level -/

/-- A list is the row of a level up to the padding of that level. -/
def Represents (l : List F) (zero : F) (g : Nat → F) : Prop := ∀ i, l.getD i zero = g i

/-- The parents of a list: as many as needed to cover it, and at least one. -/
def parents (hash : F → F → F) (zero : F) (l : List F) : List F :=
  (List.range (max 1 ((l.length + 1) / 2))).map fun i =>
    hash (l.getD (2 * i) zero) (l.getD (2 * i + 1) zero)

theorem Represents.parents {l : List F} {zero : F} {k : Nat}
    (h : Represents l zero (node hash f k)) :
    Represents (parents hash zero l) (hash zero zero) (node hash f (k + 1)) := by
  intro i
  have hpair : node hash f (k + 1) i = hash (l.getD (2 * i) zero) (l.getD (2 * i + 1) zero) := by
    rw [h, h]
    rfl
  rw [hpair, Merkle.parents, List.getD_eq_getElem?_getD, List.getElem?_map]
  by_cases hi : i < max 1 ((l.length + 1) / 2)
  · rw [List.getElem?_range hi]
    rfl
  · -- past the parents both children are padding
    have hleft : l.length ≤ 2 * i := by omega
    have hright : l.length ≤ 2 * i + 1 := by omega
    have hrange : (List.range (max 1 ((l.length + 1) / 2)))[i]? = none :=
      List.getElem?_eq_none (by rw [List.length_range]; omega)
    rw [hrange, List.getD_eq_getElem?_getD, List.getD_eq_getElem?_getD,
      List.getElem?_eq_none hleft, List.getElem?_eq_none hright]
    rfl

/-! ## Paths -/

/-- One step up: on a right child (`true`) the sibling comes first. -/
def up (hash : F → F → F) (x : F) (step : Bool × F) : F :=
  if step.1 then hash step.2 x else hash x step.2

/-- Climbs from a leaf along a path, lowest step first. -/
def fold (hash : F → F → F) (x : F) (path : List (Bool × F)) : F := path.foldl (up hash) x

/-- The path of an index from a level up, for some levels. -/
def path (hash : F → F → F) (f : Nat → F) : Nat → Nat → Nat → List (Bool × F)
  | _, _, 0 => []
  | k, i, d + 1 =>
    (i % 2 = 1, node hash f k (if i % 2 = 1 then i - 1 else i + 1)) ::
      path hash f (k + 1) (i / 2) d

theorem length_path : ∀ (k i d : Nat), (path hash f k i d).length = d := by
  intro k i d
  induction d generalizing k i with
  | zero => rfl
  | succ d ih => simp only [path, List.length_cons, ih]

/-- A longer path ends with the step of its last level. -/
theorem path_succ : ∀ (d k i : Nat), path hash f k i (d + 1) = path hash f k i d ++
    [(decide (i / 2 ^ d % 2 = 1), node hash f (k + d)
      (if i / 2 ^ d % 2 = 1 then i / 2 ^ d - 1 else i / 2 ^ d + 1))] := by
  intro d
  induction d with
  | zero =>
    intro k i
    simp [path]
  | succ d ih =>
    intro k i
    have hindex : i / 2 / 2 ^ d = i / 2 ^ (d + 1) := by
      rw [Nat.div_div_eq_div_mul, Nat.pow_succ, Nat.mul_comm 2]
    rw [path, ih (k + 1) (i / 2), hindex, Nat.add_assoc, Nat.add_comm 1 d, path]
    rfl

theorem up_path (k i : Nat) :
    up hash (node hash f k i)
      (i % 2 = 1, node hash f k (if i % 2 = 1 then i - 1 else i + 1)) =
        node hash f (k + 1) (i / 2) := by
  show _ = hash _ _
  by_cases hodd : i % 2 = 1
  · have hleft : i - 1 = 2 * (i / 2) := by omega
    have hright : i = 2 * (i / 2) + 1 := by omega
    simp only [up, hodd, decide_true, if_true, hleft]
    rw [← hright]
  · have hleft : i = 2 * (i / 2) := by omega
    simp only [up, hodd, decide_false, Bool.false_eq_true, if_false]
    rw [← hleft]

/-- **A leaf's own path folds it to the root.** -/
theorem fold_path : ∀ (d k i : Nat),
    fold hash (node hash f k i) (path hash f k i d) = node hash f (k + d) (i / 2 ^ d) := by
  intro d
  induction d with
  | zero =>
    intro k i
    simp [fold, path]
  | succ d ih =>
    intro k i
    have hstep : fold hash (node hash f k i) (path hash f k i (d + 1)) =
        fold hash (node hash f (k + 1) (i / 2)) (path hash f (k + 1) (i / 2) d) := by
      simp only [fold, path, List.foldl_cons, up_path]
    rw [hstep, ih, Nat.add_assoc, Nat.add_comm 1 d, Nat.div_div_eq_div_mul, Nat.pow_succ,
      Nat.mul_comm 2]

/-! ## Binding -/

/-- The pair one step hashes. -/
def stepPair (x : F) (step : Bool × F) : F × F := if step.1 then (step.2, x) else (x, step.2)

theorem up_eq (x : F) (step : Bool × F) :
    up hash x step = Function.uncurry hash (stepPair x step) := by
  unfold up stepPair
  split <;> rfl

/-- The pairs hashed along a path. -/
def foldPairs (hash : F → F → F) : F → List (Bool × F) → List (F × F)
  | _, [] => []
  | x, step :: rest => stepPair x step :: foldPairs hash (up hash x step) rest

/-- The pairs hashed in the tree up to a height. -/
def treePairs (hash : F → F → F) (f : Nat → F) (height : Nat) : Set (F × F) :=
  { pair | ∃ k < height, ∃ i, pair = (node hash f k (2 * i), node hash f k (2 * i + 1)) }

/-- The index below a node that a path climbs from: the lowest bit comes first. -/
def leafIndex : List Bool → Nat
  | [] => 0
  | bit :: rest => (if bit then 1 else 0) + 2 * leafIndex rest

theorem leafIndex_lt (bits : List Bool) : leafIndex bits < 2 ^ bits.length := by
  induction bits with
  | nil => exact Nat.one_pos
  | cons bit rest ih =>
    rw [leafIndex, List.length_cons, Nat.pow_succ]
    cases bit <;> simp only [Bool.false_eq_true, if_false, if_true] <;> omega

/-- The bits of the path of an index encode it. -/
theorem leafIndex_path : ∀ (d k i : Nat),
    leafIndex ((path hash f k i d).map Prod.fst) = i % 2 ^ d := by
  intro d
  induction d with
  | zero =>
    intro k i
    exact (Nat.mod_one i).symm
  | succ d ih =>
    intro k i
    have hmod : i % 2 ^ (d + 1) = i % 2 + 2 * (i / 2 % 2 ^ d) := by
      rw [Nat.pow_succ, Nat.mul_comm, Nat.mod_mul]
    rw [path, List.map_cons, leafIndex, ih, hmod]
    by_cases hodd : i % 2 = 1
    · simp [hodd]
    · have heven : i % 2 = 0 := by omega
      simp [heven]

/-- **Binding.** Unless two of the hashed pairs collide, what folds to a node of the tree is the
node of the tree below it that the bits of the path name. -/
theorem fold_eq_node_at {S : Set (F × F)} (hS : Set.InjOn (Function.uncurry hash) S) {height : Nat}
    (htree : treePairs hash f height ⊆ S) :
    ∀ (steps : List (Bool × F)) (x : F) (k j : Nat), k + steps.length ≤ height →
      (∀ pair ∈ foldPairs hash x steps, pair ∈ S) →
      fold hash x steps = node hash f (k + steps.length) j →
        x = node hash f k (leafIndex (steps.map Prod.fst) + j * 2 ^ steps.length) := by
  intro steps
  induction steps with
  | nil =>
    intro x k j _ _ hfold
    show x = node hash f k (0 + j * 1)
    rw [Nat.zero_add, Nat.mul_one]
    exact hfold
  | cons step rest ih =>
    intro x k j hheight hpairs hfold
    have hlength : k + 1 + rest.length = k + (step :: rest).length := by
      rw [List.length_cons]
      omega
    have habove := ih (up hash x step) (k + 1) j (by omega)
      (fun pair hpair => hpairs pair (List.mem_cons_of_mem _ hpair))
      (hlength ▸ hfold)
    obtain ⟨i, hi⟩ : ∃ i, i = leafIndex (rest.map Prod.fst) + j * 2 ^ rest.length := ⟨_, rfl⟩
    rw [← hi] at habove
    -- both pairs hash to the node above, so they are equal
    have hpair : stepPair x step = (node hash f k (2 * i), node hash f k (2 * i + 1)) := by
      refine hS (hpairs _ List.mem_cons_self) (htree ⟨k, ?_, i, rfl⟩) ?_
      · rw [List.length_cons] at hheight
        omega
      · rw [← up_eq, habove]
        rfl
    have hindex : leafIndex ((step :: rest).map Prod.fst) + j * 2 ^ (step :: rest).length =
        (if step.1 then 1 else 0) + 2 * i := by
      rw [List.map_cons, leafIndex, List.length_cons, Nat.pow_succ, ← Nat.mul_assoc, hi]
      omega
    rw [hindex]
    unfold stepPair at hpair
    split at hpair
    · next hright =>
      rw [if_pos hright, Nat.add_comm]
      exact (Prod.mk.inj hpair).2
    · next hleft =>
      rw [if_neg hleft, Nat.zero_add]
      exact (Prod.mk.inj hpair).1

/-- What folds to a node of the tree is some node of the tree below it. -/
theorem fold_eq_node {S : Set (F × F)} (hS : Set.InjOn (Function.uncurry hash) S) {height : Nat}
    (htree : treePairs hash f height ⊆ S) (steps : List (Bool × F)) (x : F) (k j : Nat)
    (hheight : k + steps.length ≤ height) (hpairs : ∀ pair ∈ foldPairs hash x steps, pair ∈ S)
    (hfold : fold hash x steps = node hash f (k + steps.length) j) :
    ∃ i, x = node hash f k i ∧ i / 2 ^ steps.length = j := by
  refine ⟨_, fold_eq_node_at hS htree steps x k j hheight hpairs hfold, ?_⟩
  have hlt := leafIndex_lt (steps.map Prod.fst)
  rw [List.length_map] at hlt
  rw [Nat.add_mul_div_right _ _ (Nat.two_pow_pos _), Nat.div_eq_of_lt hlt, Nat.zero_add]

end Lib.Merkle
