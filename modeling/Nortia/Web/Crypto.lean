import Nortia.Client.Committee
import Nortia.Lib.BigInt

/-!
# `web/lib/crypto.ts`

Field elements as texts and bytes, and the browser's copy of the tree, which keeps one path while it
builds the levels.
-/

namespace Nortia.Web

open Lib Circuit Client

/-! ## Field elements -/

/-- `fieldBigInt` of bytes. -/
def fieldOfBytes (bytes : List UInt8) : Int := ofBeBytes bytes

/-- `fieldBigInt` of a text. -/
def fieldOfText (text : String) : Except String Int :=
  okOr (BigInt.parse text.toList) ("Cannot convert " ++ text ++ " to a BigInt")

/-- `toString(16)` of a bigint. -/
def toHex (value : Int) : List Char :=
  if 0 ≤ value then Hex.numeral value.toNat else '-' :: Hex.numeral (-value).toNat

def fieldHex (value : Int) : String := String.ofList ('0' :: 'x' :: Hex.padStart 64 (toHex value))

def solanaPublicKeyHash (P : Poseidon) (bytes : List UInt8) : Except String Int := do
  require (bytes.length = 32) "Solana public key must contain 32 bytes"
  .ok (poseidonHash P (ofLeBytes (bytes.take 16)) (ofLeBytes (bytes.drop 16)))

theorem fieldHex_toList (n : Nat) :
    (fieldHex n).toList = '0' :: 'x' :: Hex.padStart 64 (Hex.numeral n) := by
  rw [fieldHex, String.toList_ofList, toHex, if_pos (Int.natCast_nonneg n), Int.toNat_natCast]

/-- **A field element reads as itself.** -/
theorem parse_fieldHex (n : Nat) : BigInt.parse (fieldHex n).toList = some (n : Int) := by
  rw [fieldHex_toList, BigInt.parse_hex (by decide)]

/-! ## Randomness -/

/-- The values `getRandomValues` gives are drawn one after another, until one is a field element that is
not zero. -/
def randomFieldHex : List Bytes32 → Option (String × List Bytes32)
  | [] => none
  | bytes :: draws =>
    let value := fieldOfBytes bytes.toList
    if 0 < value ∧ value < scalarModulus then some (fieldHex value, draws) else randomFieldHex draws

structure PlacementWitness where
  secret : String
  nullifier : String
  sideCoefficient : String
  yesAmountCoefficient : String
  totalAmountCoefficient : String
  salts : PerMember String
  deriving DecidableEq

def createPlacementWitness (draws : List Bytes32) : Option (PlacementWitness × List Bytes32) := do
  let (secret, draws) ← randomFieldHex draws
  let (nullifier, draws) ← randomFieldHex draws
  let (sideCoefficient, draws) ← randomFieldHex draws
  let (yesAmountCoefficient, draws) ← randomFieldHex draws
  let (totalAmountCoefficient, draws) ← randomFieldHex draws
  let (one, draws) ← randomFieldHex draws
  let (two, draws) ← randomFieldHex draws
  let (three, draws) ← randomFieldHex draws
  let salts : PerMember String := { one, two, three }
  some ({ secret, nullifier, sideCoefficient, yesAmountCoefficient, totalAmountCoefficient, salts },
    draws)

/-! ## Paths -/

structure CommitmentPath where
  pathBits : List Bool
  siblings : List Int
  root : Int

/-- The variables of the loop of `commitmentPath`. -/
structure PathState where
  pathBits : List Bool
  siblings : List Int
  index : Nat
  levelNodes : List Int

/-- One round of the loop: the sibling of the level, then the parents. -/
def PathState.climb (P : Poseidon) (st : PathState) (level : Nat) : PathState :=
  let isRight : Bool := st.index % 2 = 1
  { pathBits := st.pathBits ++ [isRight]
    siblings := st.siblings ++
      [st.levelNodes.getD (if isRight then st.index - 1 else st.index + 1) (zeroHash P level)]
    levelNodes := Merkle.parents (poseidonHash P) (zeroHash P level) st.levelNodes
    index := st.index / 2 }

def commitmentPath (P : Poseidon) (leaves : List Int) (leafIndex : Int) :
    Except String CommitmentPath := do
  require (0 ≤ leafIndex ∧ leafIndex < leaves.length)
    "Commitment is not present in the market batch"
  require (leaves.length ≤ 2 ^ treeDepth) "Market commitment tree exceeds the circuit depth"
  let st := (List.range treeDepth).foldl (PathState.climb P) {
    pathBits := []
    siblings := []
    index := leafIndex.toNat
    levelNodes := leaves }
  .ok {
    pathBits := st.pathBits
    siblings := st.siblings
    root := st.levelNodes.getD 0 (zeroHash P treeDepth) }

/-! ## The path of the padded tree -/

/-- The steps of the tree's own path, from the leaves up. -/
def treePath (P : Poseidon) (leaves : List Int) (i levels : Nat) : List (Bool × Int) :=
  Merkle.path (poseidonHash P) (leafRow leaves) 0 i levels

theorem climb_levels (P : Poseidon) (leaves : List Int) (i levels : Nat) :
    (List.range levels).foldl (PathState.climb P) ⟨[], [], i, leaves⟩ =
      ⟨(treePath P leaves i levels).map Prod.fst, (treePath P leaves i levels).map Prod.snd,
        i / 2 ^ levels, levelNodes P leaves levels⟩ := by
  induction levels with
  | zero => simp [treePath, Merkle.path, levelNodes]
  | succ levels ih =>
    have hsibling := levelNodes_represents P leaves levels
      (if i / 2 ^ levels % 2 = 1 then i / 2 ^ levels - 1 else i / 2 ^ levels + 1)
    have hindex : i / 2 ^ levels / 2 = i / 2 ^ (levels + 1) := by
      rw [Nat.div_div_eq_div_mul, Nat.pow_succ]
    rw [List.range_succ, List.foldl_append, ih, List.foldl_cons, List.foldl_nil, PathState.climb]
    simp only [treePath, Merkle.path_succ, List.map_append, List.map_cons, List.map_nil,
      Nat.zero_add, decide_eq_true_eq, hsibling, hindex, levelNodes]

/-- **The browser returns the tree's own path.** -/
theorem commitmentPath_eq {P : Poseidon} {leaves : List Int} {i : Nat} (hi : i < leaves.length)
    (hlen : leaves.length ≤ 2 ^ treeDepth) : commitmentPath P leaves i = .ok {
      pathBits := (treePath P leaves i treeDepth).map Prod.fst
      siblings := (treePath P leaves i treeDepth).map Prod.snd
      root := Merkle.node (poseidonHash P) (leafRow leaves) treeDepth 0 } := by
  have hindex : (0 : Int) ≤ i ∧ (i : Int) < leaves.length := by omega
  have hroot := levelNodes_represents P leaves treeDepth 0
  simp only [commitmentPath, require_pos hindex, require_pos hlen, ok_bind, Int.toNat_natCast,
    climb_levels, hroot]

end Nortia.Web
