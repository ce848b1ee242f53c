import Mathlib.Data.ZMod.Basic
import Nortia.Program.Types

/-!
# The scalar field of BN254

The circuits compute in the scalar field. On chain a field element is its 32 big-endian bytes.
Poseidon, a third-party function in each of the three languages, is a parameter.
-/

namespace Nortia

open Lib

def scalarModulus : Nat :=
  21888242871839275222246405745257275088548364400416034343698204186575808495617

abbrev Field : Type := ZMod scalarModulus

/-- The two-input Poseidon hash. -/
abbrev Poseidon : Type := Field → Field → Field

instance : NeZero scalarModulus := ⟨by decide⟩

namespace Field

theorem val_lt_pow (x : Field) : x.val < 256 ^ 32 :=
  (ZMod.val_lt x).trans (by decide)

/-- The 32 bytes of a field element, the highest first. -/
def toBytes (x : Field) : Bytes32 := ⟨beBytes 32 x.val, length_beBytes 32 x.val⟩

theorem ofBeBytes_toBytes (x : Field) : ofBeBytes x.toBytes.toList = x.val :=
  ofBeBytes_beBytes (val_lt_pow x)

theorem toBytes_injective : Function.Injective toBytes := by
  intro x y h
  have hval : x.val = y.val := by
    rw [← ofBeBytes_toBytes, ← ofBeBytes_toBytes, h]
  exact ZMod.val_injective scalarModulus hval

/-- `x as u64`: the low 64 bits. -/
def toU64 (x : Field) : Nat := x.val % 2 ^ 64

/-- A `u64` is a field element of its own. -/
theorem val_u64 {n : Nat} (h : n ≤ u64Max) : ((n : Nat) : Field).val = n := by
  refine ZMod.val_natCast_of_lt (lt_of_le_of_lt h ?_)
  show u64Max < scalarModulus
  decide

theorem toU64_u64 {n : Nat} (h : n ≤ u64Max) : toU64 (n : Field) = n := by
  rw [toU64, val_u64 h]
  exact Nat.mod_eq_of_lt (lt_of_le_of_lt h (by decide))

end Field

end Nortia
