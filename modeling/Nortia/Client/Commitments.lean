import Nortia.Circuit.PlaceOrder
import Nortia.Circuit.Redeem
import Nortia.Lib.Result
import Mathlib.Tactic.NormNum

/-!
# `client/src/commitments.ts`

The hashes of the circuits over TypeScript's bigints. A bigint is an integer, and what the library
hashes is its residue; a function that throws returns its message.
-/

namespace Nortia.Client

open Lib Circuit

def poseidonHash (P : Poseidon) (left right : Int) : Int := ((P left right).val : Int)

def orderCommitment (P : Poseidon) (marketId stakeAmount amount : Int) (side : Bool)
    (secret nullifier : Int) : Int :=
  let context := poseidonHash P marketId stakeAmount
  let position := poseidonHash P amount (if side then 1 else 0)
  poseidonHash P context (poseidonHash P position (poseidonHash P secret nullifier))

def shareCommitment (P : Poseidon) (sideShare yesAmountShare totalAmountShare salt : Int) : Int :=
  poseidonHash P (poseidonHash P sideShare yesAmountShare) (poseidonHash P totalAmountShare salt)

def nullifierHash (P : Poseidon) (marketId nullifier : Int) : Int :=
  poseidonHash P marketId nullifier

/-- One round of `merkleRoot`: a missing bit counts as false. -/
def merkleStep (P : Poseidon) (pathBits : List Bool) (current : Int) (entry : Int × Nat) : Int :=
  if pathBits[entry.2]?.getD false then poseidonHash P entry.1 current
  else poseidonHash P current entry.1

def merkleRoot (P : Poseidon) (leaf : Int) (pathBits : List Bool) (siblings : List Int) :
    Except String Int := do
  require (pathBits.length = treeDepth ∧ siblings.length = treeDepth) "expected Merkle depth 16"
  .ok (siblings.zipIdx.foldl (merkleStep P pathBits) leaf)

/-! ## Integers as residues -/

@[simp] theorem cast_poseidonHash (P : Poseidon) (left right : Int) :
    ((poseidonHash P left right : Int) : Field) = P left right := by
  rw [poseidonHash, Int.cast_natCast, ZMod.natCast_zmod_val]

theorem poseidonHash_nonneg (P : Poseidon) (left right : Int) : 0 ≤ poseidonHash P left right :=
  Int.natCast_nonneg _

theorem poseidonHash_lt (P : Poseidon) (left right : Int) :
    poseidonHash P left right < scalarModulus :=
  Int.ofNat_lt.mpr (ZMod.val_lt _)

/-- Integers of the field are equal when their residues are. -/
theorem eq_of_cast_eq {a b : Int} (ha : 0 ≤ a ∧ a < scalarModulus) (hb : 0 ≤ b ∧ b < scalarModulus)
    (h : (a : Field) = (b : Field)) : a = b := by
  have hmod := (ZMod.intCast_eq_intCast_iff a b scalarModulus).mp h
  rwa [Int.ModEq, Int.emod_eq_of_lt ha.1 ha.2, Int.emod_eq_of_lt hb.1 hb.2] at hmod

theorem cast_side (side : Bool) : (((if side then 1 else 0 : Int)) : Field) = sideField side := by
  cases side <;> simp [sideField]

/-- The commitment of the client is the one of the circuits. -/
theorem cast_orderCommitment (P : Poseidon) (marketId stakeAmount amount : Int) (side : Bool)
    (secret nullifier : Int) :
    ((orderCommitment P marketId stakeAmount amount side secret nullifier : Int) : Field) =
      Circuit.orderCommitment P marketId stakeAmount amount side secret nullifier := by
  simp only [orderCommitment, Circuit.orderCommitment, cast_poseidonHash, cast_side]

/-- The share commitment of the client is the bundle of the circuit. -/
theorem cast_shareCommitment (P : Poseidon) (sideShare yesAmountShare totalAmountShare salt : Int) :
    ((shareCommitment P sideShare yesAmountShare totalAmountShare salt : Int) : Field) =
      committedShareBundle P sideShare yesAmountShare totalAmountShare salt := by
  simp only [shareCommitment, committedShareBundle, cast_poseidonHash]

/-! ## The root of a path -/

/-- Bit by index, the bits are those of the zipped lists. -/
private theorem foldl_merkleStep (P : Poseidon) (done bits : List Bool) (siblings : List Int)
    (leaf : Int) (h : bits.length = siblings.length) :
    (siblings.zipIdx done.length).foldl (merkleStep P (done ++ bits)) leaf =
      Merkle.fold (poseidonHash P) leaf (bits.zip siblings) := by
  induction siblings generalizing done bits leaf with
  | nil => rw [List.length_eq_zero_iff.mp h]; rfl
  | cons sibling rest ih =>
    cases bits with
    | nil => cases h
    | cons bit bits =>
      have hrest := ih (done ++ [bit]) bits (Merkle.up (poseidonHash P) leaf (bit, sibling))
        (Nat.succ.inj h)
      rw [List.append_assoc, List.singleton_append, List.length_append, List.length_singleton] at hrest
      have hbit : (done ++ bit :: bits)[done.length]?.getD false = bit := by simp
      have hstep : merkleStep P (done ++ bit :: bits) leaf (sibling, done.length) =
          Merkle.up (poseidonHash P) leaf (bit, sibling) := by
        rw [merkleStep, hbit]
        rfl
      rw [List.zipIdx_cons, List.foldl_cons, hstep, hrest]
      rfl

/-- **The client's fold is the climb of the path.** -/
theorem merkleRoot_ok {P : Poseidon} {leaf root : Int} {pathBits : List Bool}
    {siblings : List Int} : merkleRoot P leaf pathBits siblings = .ok root ↔
      pathBits.length = treeDepth ∧ siblings.length = treeDepth ∧
        Merkle.fold (poseidonHash P) leaf (pathBits.zip siblings) = root := by
  simp only [merkleRoot, bind_eq_ok, require_eq_ok, exists_const, Except.ok.injEq, and_assoc]
  refine and_congr_right fun hbits => and_congr_right fun hsiblings => ?_
  have hfold := foldl_merkleStep P [] pathBits siblings leaf (hbits.trans hsiblings.symm)
  rw [List.length_nil, List.nil_append] at hfold
  rw [hfold]

/-- The circuit folds the residues of a path to the residue of its root. -/
theorem cast_fold (P : Poseidon) (leaf : Int) (pathBits : List Bool) (siblings : List Int) :
    ((Merkle.fold (poseidonHash P) leaf (pathBits.zip siblings) : Int) : Field) =
      Redeem.merkleRoot P leaf (pathBits.zip (siblings.map Int.cast)) := by
  induction siblings generalizing pathBits leaf with
  | nil => simp [Merkle.fold, Redeem.merkleRoot]
  | cons sibling rest ih =>
    cases pathBits with
    | nil => rfl
    | cons bit bits =>
      have hup : ((Merkle.up (poseidonHash P) leaf (bit, sibling) : Int) : Field) =
          Merkle.up P (leaf : Field) (bit, (sibling : Field)) := by
        cases bit <;> exact cast_poseidonHash P _ _
      have hrest := ih (Merkle.up (poseidonHash P) leaf (bit, sibling)) bits
      rw [hup] at hrest
      exact hrest

end Nortia.Client
