import Nortia.Verify.Private.Settlement
import Nortia.Web.Crypto
import Mathlib.Data.List.GetD

/-!
# The commitment tree of the three programs

The browser builds paths, the committee the root, and the client and the circuit climb. All four
compute in one tree: the batch padded with zeros.
-/

namespace Nortia.PrivatePool

open Lib Circuit Client Web

variable {P : Poseidon} {leaves : List Int} {S : Set (Field × Field)}

/-- The browser's path of a leaf, on which everyone computes the same root. -/
structure Agreement (P : Poseidon) (leaves : List Int) (i : Nat) (leaf : Int)
    (path : CommitmentPath) : Prop where
  returned : commitmentPath P leaves i = .ok path
  /-- The bits of the path encode the index. -/
  index : Merkle.leafIndex path.pathBits = i
  siblings : ∀ x ∈ path.siblings, inField x = true
  client : Client.merkleRoot P leaf path.pathBits path.siblings = .ok path.root
  committee : commitmentRoot P leaves = .ok path.root
  circuit : Redeem.merkleRoot P leaf (path.pathBits.zip (path.siblings.map Int.cast)) = path.root

/-- The leaf at an index: of the batch, or zero past its end. -/
def paddedLeaf (leaves : List Int) (i : Nat) : Int :=
  if h : i < leaves.length then leaves[i] else 0

theorem paddedLeaf_eq (leaves : List Int) (i : Nat) : paddedLeaf leaves i = leafRow leaves i := by
  unfold paddedLeaf leafRow
  split
  · next h => exact (List.getD_eq_getElem _ _ h).symm
  · next h => exact (List.getD_eq_default _ _ (Nat.not_lt.mp h)).symm

/-- Only the leaves of the padded batch climb to its root, each along its own bits. -/
structure Binding (P : Poseidon) (S : Set (Field × Field)) (leaves : List Int) (root : Int) :
    Prop where
  circuit : ∀ (leaf : Field) (pathBits : List Bool) (siblings : List Field),
    pathBits.length = treeDepth → siblings.length = treeDepth →
    (∀ pair ∈ Merkle.foldPairs P leaf (pathBits.zip siblings), pair ∈ S) →
    Redeem.merkleRoot P leaf (pathBits.zip siblings) = root →
    leaf = paddedLeaf leaves (Merkle.leafIndex pathBits)
  client : ∀ (leaf : Int) (pathBits : List Bool) (siblings : List Int), inField leaf = true →
    (∀ pair ∈ Merkle.foldPairs P (leaf : Field) (pathBits.zip (siblings.map Int.cast)),
      pair ∈ S) →
    Client.merkleRoot P leaf pathBits siblings = .ok root →
    leaf = paddedLeaf leaves (Merkle.leafIndex pathBits)
  /-- The redemption circuit accepts an order of the batch, or one that commits to zero. -/
  accepted : ∀ (pub : Redeem.Public) (w : Redeem.Private), Redeem.main P pub w →
    pub.commitmentRoot = root → (∀ pair ∈ w.pairs P pub, pair ∈ S) →
    w.opening.commitment P pub.marketId pub.stakeAmount = 0 ∨
      ∃ h : Merkle.leafIndex w.pathBits < leaves.length,
        w.opening.commitment P pub.marketId pub.stakeAmount =
          (leaves[Merkle.leafIndex w.pathBits] : Field)

theorem inField_poseidonHash (P : Poseidon) (left right : Int) :
    inField (poseidonHash P left right) = true :=
  inField_iff.mpr ⟨poseidonHash_nonneg P left right, poseidonHash_lt P left right⟩

theorem inField_leafRow (h : ∀ x ∈ leaves, inField x = true) (i : Nat) :
    inField (leafRow leaves i) = true := by
  rw [← paddedLeaf_eq]
  unfold paddedLeaf
  split
  · exact h _ (List.getElem_mem _)
  · rfl

/-- Every node of a tree over field elements is one. -/
theorem inField_node (h : ∀ x ∈ leaves, inField x = true) (k i : Nat) :
    inField (Merkle.node (poseidonHash P) (leafRow leaves) k i) = true := by
  cases k with
  | zero => exact inField_leafRow h i
  | succ k => exact inField_poseidonHash P _ _

/-- The siblings of a path are nodes of the tree. -/
theorem inField_path (h : ∀ x ∈ leaves, inField x = true) : ∀ (d k i : Nat),
    ∀ step ∈ Merkle.path (poseidonHash P) (leafRow leaves) k i d, inField step.2 = true := by
  intro d
  induction d with
  | zero =>
    intro k i step hstep
    cases hstep
  | succ d ih =>
    intro k i step hstep
    rcases List.mem_cons.mp hstep with rfl | hrest
    · exact inField_node h _ _
    · exact ih _ _ _ hrest

theorem agreement {i : Nat} (hfield : ∀ x ∈ leaves, inField x = true) (hi : i < leaves.length)
    (hlen : leaves.length ≤ 2 ^ treeDepth) : ∃ path, Agreement P leaves i leaves[i] path := by
  have hreturned := commitmentPath_eq (P := P) hi hlen
  obtain ⟨root, hcommittee⟩ := commitmentRoot_of_le P hlen
  obtain ⟨-, hroot, -⟩ := commitmentRoot_ok hcommittee
  have hlength : (treePath P leaves i treeDepth).length = treeDepth := Merkle.length_path _ _ _
  have hzip : treePath P leaves i treeDepth = ((treePath P leaves i treeDepth).map Prod.fst).zip
      ((treePath P leaves i treeDepth).map Prod.snd) := List.zip_of_prod rfl rfl
  have hleaf : Merkle.node (poseidonHash P) (leafRow leaves) 0 i = leaves[i] :=
    List.getD_eq_getElem _ _ hi
  have hfold : Merkle.fold (poseidonHash P) leaves[i] (treePath P leaves i treeDepth) = root := by
    rw [treePath, ← hleaf, Merkle.fold_path, hroot, Nat.zero_add,
      Nat.div_eq_of_lt (hi.trans_le hlen)]
  rw [← hroot] at hreturned
  refine ⟨_, hreturned, ?_, ?_, ?_, hcommittee, ?_⟩
  · rw [treePath, Merkle.leafIndex_path]
    exact Nat.mod_eq_of_lt (hi.trans_le hlen)
  · intro x hx
    obtain ⟨step, hstep, rfl⟩ := List.mem_map.mp hx
    exact inField_path hfield _ _ _ _ hstep
  · refine merkleRoot_ok.mpr ⟨?_, ?_, ?_⟩
    · rw [List.length_map, hlength]
    · rw [List.length_map, hlength]
    · rw [← hzip, hfold]
  · rw [← cast_fold, ← hzip, hfold]

section Bound

variable {root : Int} (hroot : commitmentRoot P leaves = .ok root)
  (hS : Set.InjOn (Function.uncurry P) S)
  (htree : Merkle.treePairs P (fieldRow leaves) treeDepth ⊆ S)

include hroot hS htree

theorem leaf_of_fold {leaf : Field} {pathBits : List Bool} {siblings : List Field}
    (hbits : pathBits.length = treeDepth) (hsiblings : siblings.length = treeDepth)
    (hpairs : ∀ pair ∈ Merkle.foldPairs P leaf (pathBits.zip siblings), pair ∈ S)
    (hfold : Redeem.merkleRoot P leaf (pathBits.zip siblings) = root) :
    leaf = paddedLeaf leaves (Merkle.leafIndex pathBits) := by
  obtain ⟨-, -, hnode⟩ := commitmentRoot_ok hroot
  have hlength : (pathBits.zip siblings).length = treeDepth := by
    rw [List.length_zip, hbits, hsiblings, Nat.min_self]
  have hfirst : (pathBits.zip siblings).map Prod.fst = pathBits :=
    List.map_fst_zip (hbits.trans hsiblings.symm).le
  have hleaf := Merkle.fold_eq_node_at hS htree (pathBits.zip siblings) leaf 0 0
    (by rw [hlength, Nat.zero_add]) hpairs
    (by rw [hlength, Nat.zero_add, ← hnode]; exact hfold)
  rw [hfirst, Nat.zero_mul, Nat.add_zero] at hleaf
  rw [hleaf, paddedLeaf_eq]
  rfl

theorem binding (hfield : ∀ x ∈ leaves, inField x = true) : Binding P S leaves root := by
  have hcircuit := @leaf_of_fold P leaves S root hroot hS htree
  constructor
  case circuit =>
    intro leaf pathBits siblings hbits hsiblings hpairs hfold
    exact hcircuit hbits hsiblings hpairs hfold
  case client =>
    intro leaf pathBits siblings hleaf hpairs hclient
    obtain ⟨hbits, hsiblings, hfold⟩ := merkleRoot_ok.mp hclient
    have hcast : (leaf : Field) = paddedLeaf leaves (Merkle.leafIndex pathBits) := by
      refine hcircuit hbits ?_ hpairs ?_
      · rw [List.length_map, hsiblings]
      · rw [← cast_fold, hfold]
    refine eq_of_cast_eq (inField_iff.mp hleaf) ?_ hcast
    rw [paddedLeaf_eq]
    exact inField_iff.mp (inField_leafRow hfield _)
  case accepted =>
    intro pub w hmain hpub hpairs
    obtain ⟨-, -, -, -, -, -, -, hfold, -⟩ := hmain
    have hleaf := hcircuit w.length_pathBits w.length_siblings
      (fun pair hpair => hpairs pair (List.mem_append_right _ hpair)) (hfold.trans hpub)
    rw [paddedLeaf] at hleaf
    split at hleaf
    · next hlt => exact .inr ⟨hlt, hleaf⟩
    · exact .inl (hleaf.trans Int.cast_zero)

end Bound

/-- **The four trees agree and bind.** On every batch that fits the tree the browser returns for
every index a path that folds its leaf to the committee's root in the client and in the circuit.
Where the hash is injective, nothing else folds to that root. -/
theorem commitment_tree (hfield : ∀ x ∈ leaves, inField x = true)
    (hlen : 1 ≤ leaves.length ∧ leaves.length ≤ 2 ^ treeDepth) :
    (∀ (i : Nat) (hi : i < leaves.length), ∃ path, Agreement P leaves i leaves[i] path) ∧
    ∃ root, commitmentRoot P leaves = .ok root ∧
      ∀ S : Set (Field × Field), Set.InjOn (Function.uncurry P) S →
        Merkle.treePairs P (fieldRow leaves) treeDepth ⊆ S → Binding P S leaves root := by
  obtain ⟨root, hroot⟩ := commitmentRoot_of_le P hlen.2
  refine ⟨fun i hi => agreement hfield hi hlen.2, root, hroot, ?_⟩
  intro S hS htree
  exact binding hroot hS htree hfield

/-- The batch of four orders, under the real hashes of its tree: the last leaf has a path, and
whatever climbs to the root along the bits of the last index is that leaf. -/
theorem commitment_tree_sample : ∃ path root,
    Agreement Sample.poseidon Sample.leafValues 3 (paddedLeaf Sample.leafValues 3) path ∧
      Binding Sample.poseidon Sample.hashed Sample.leafValues root := by
  have hfield : (Sample.leafValues.all inField) = true := by decide +kernel
  have hlength : Sample.leafValues.length = 4 := rfl
  have hlen : 1 ≤ Sample.leafValues.length ∧ Sample.leafValues.length ≤ 2 ^ treeDepth := by
    decide
  obtain ⟨hagree, root, -, hbinding⟩ := commitment_tree (P := Sample.poseidon)
    (List.all_eq_true.mp hfield) hlen
  obtain ⟨path, hpath⟩ := hagree 3 (by rw [hlength]; decide)
  exact ⟨path, root, hpath, hbinding Sample.hashed Sample.ideal.injOn Sample.treeHashed⟩

end Nortia.PrivatePool
