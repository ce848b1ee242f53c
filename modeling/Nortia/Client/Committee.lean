import Nortia.Client.Commitments
import Nortia.Lib.Result
import Mathlib.Data.Int.DivMod

/-!
# `client/src/committee.ts`

The arithmetic of the shares, the tree over the commitments and the aggregates of the members.
Numbers that are not integers fail the checks on integers and are left out.
-/

namespace Nortia.Client

open Lib Circuit

def minPrivateBatchOrders : Nat := 4
def minPrivateWagerAmount : Int := 1000000

/-! ## The field -/

/-- `mod`: the remainder of a bigint has the sign of the dividend. -/
def mod (value : Int) : Int :=
  let reduced := value.tmod scalarModulus
  if 0 ≤ reduced then reduced else reduced + scalarModulus

/-- The loop of `inverse`, which halves the exponent, for some number of rounds. -/
def powerLoop : Nat → Nat → Int → Int → Int
  | 0, _, _, result => result
  | rounds + 1, exponent, base, result =>
    if exponent = 0 then result
    else
      powerLoop rounds (exponent / 2) (mod (base * base))
        (if exponent % 2 = 1 then mod (result * base) else result)

def inverse (value : Int) : Except String Int :=
  let base := mod value
  if base = 0 then .error "cannot invert zero"
  -- the exponent has 254 bits
  else .ok (powerLoop 254 (scalarModulus - 2) base 1)

/-- One of the three members. -/
inductive MemberIndex
  | one
  | two
  | three
  deriving DecidableEq, Repr

def MemberIndex.index : MemberIndex → Nat
  | .one => 1
  | .two => 2
  | .three => 3

def createShamirShare (value coefficient : Int) (memberIndex : MemberIndex) : Int :=
  mod (value + coefficient * memberIndex.index)

/-- A value for each of them. -/
structure PerMember (α : Type) where
  one : α
  two : α
  three : α
  deriving DecidableEq

namespace PerMember

variable {α : Type}

def get (xs : PerMember α) : MemberIndex → α
  | .one => xs.one
  | .two => xs.two
  | .three => xs.three

def of (f : MemberIndex → α) : PerMember α := ⟨f .one, f .two, f .three⟩

def toList (xs : PerMember α) : List α := [xs.one, xs.two, xs.three]

@[simp] theorem get_of (f : MemberIndex → α) (i : MemberIndex) : (of f).get i = f i := by
  cases i <;> rfl

end PerMember

def reconstructIntercept (firstIndex : MemberIndex) (firstShare : Int) (secondIndex : MemberIndex)
    (secondShare : Int) : Except String Int :=
  if firstIndex = secondIndex then .error "committee indices must be distinct"
  else do
    let x1 : Int := firstIndex.index
    let x2 : Int := secondIndex.index
    let numerator := mod (firstShare * x2 - secondShare * x1)
    let inverted ← inverse (x2 - x1)
    .ok (mod (numerator * inverted))

/-! ## The commitment tree -/

/-- The entries of `zeroHashes`. -/
def zeroHash (P : Poseidon) : Nat → Int := Merkle.padding (poseidonHash P) 0

/-- The nodes of a level, from the leaves up. -/
def levelNodes (P : Poseidon) (leaves : List Int) : Nat → List Int
  | 0 => leaves
  | level + 1 => Merkle.parents (poseidonHash P) (zeroHash P level) (levelNodes P leaves level)

def commitmentRoot (P : Poseidon) (leaves : List Int) : Except String Int :=
  if 2 ^ treeDepth < leaves.length then .error "tree supports at most 65536 commitments"
  else .ok ((levelNodes P leaves treeDepth).getD 0 (zeroHash P treeDepth))

/-! ## Members -/

structure CommitteeShare where
  market : List Char
  orderIndex : Int
  orderCommitment : Int
  memberIndex : MemberIndex
  sideShare : Int
  yesAmountShare : Int
  totalAmountShare : Int
  salt : Int
  expectedShareCommitment : Int
  placementSignature : List Char
  deriving DecidableEq

structure CommitteeAggregate where
  market : List Char
  memberIndex : MemberIndex
  orderCount : Nat
  aggregateSideShare : Int
  aggregateYesAmountShare : Int
  aggregateTotalAmountShare : Int
  orderCommitments : List Int
  deriving DecidableEq

structure CommitteeBatch where
  market : List Char
  orderCount : Nat
  yesCount : Int
  noCount : Int
  yesAmount : Int
  noAmount : Int
  commitmentRoot : Int
  memberIndices : MemberIndex × MemberIndex

/-- A member and the shares it holds, of all markets, in the sequence it accepted them. -/
structure CommitteeMember where
  memberIndex : MemberIndex
  shares : List CommitteeShare

/-- `Number.isSafeInteger` of an integer. -/
def isSafeInteger (n : Int) : Bool := -9007199254740991 ≤ n && n ≤ 9007199254740991

/-- The fields of a share that must lie in the scalar field, with their names. -/
def CommitteeShare.fieldValues (input : CommitteeShare) : List (String × Int) :=
  [("orderCommitment", input.orderCommitment), ("sideShare", input.sideShare),
    ("yesAmountShare", input.yesAmountShare), ("totalAmountShare", input.totalAmountShare),
    ("salt", input.salt), ("expectedShareCommitment", input.expectedShareCommitment)]

/-- Whether a bigint is a field element. -/
def inField (value : Int) : Bool := 0 ≤ value && value < scalarModulus

theorem inField_iff {value : Int} : inField value = true ↔ 0 ≤ value ∧ value < scalarModulus := by
  simp [inField]

def checkFields : List (String × Int) → Except String Unit
  | [] => .ok ()
  | (name, value) :: rest => do
    require (inField value = true) (name ++ " is outside the BN254 scalar field")
    checkFields rest

namespace CommitteeMember

/-- The share a member holds for an order of a market. -/
def share? (m : CommitteeMember) (market : List Char) (orderIndex : Int) : Option CommitteeShare :=
  m.shares.find? fun share => share.market = market ∧ share.orderIndex = orderIndex

/-- Whether a second submission says the same as the first. -/
def sameSubmission (existing input : CommitteeShare) : Bool :=
  existing.orderCommitment = input.orderCommitment && existing.sideShare = input.sideShare &&
    existing.yesAmountShare = input.yesAmountShare &&
    existing.totalAmountShare = input.totalAmountShare && existing.salt = input.salt &&
    existing.placementSignature = input.placementSignature

def submit (P : Poseidon) (m : CommitteeMember) (input : CommitteeShare) :
    Except String CommitteeMember := do
  require (input.memberIndex = m.memberIndex) "share sent to the wrong committee member"
  require (isSafeInteger input.orderIndex = true ∧ 0 ≤ input.orderIndex)
    "order index must be a non-negative safe integer"
  require (input.placementSignature ≠ []) "placement signature is required"
  checkFields input.fieldValues
  require (shareCommitment P input.sideShare input.yesAmountShare input.totalAmountShare
    input.salt = input.expectedShareCommitment) "share commitment mismatch"
  match m.share? input.market input.orderIndex with
  | some existing => do
    require (sameSubmission existing input = true) "conflicting share submission"
    .ok m
  | none => .ok { m with shares := m.shares ++ [input] }

def snapshot (m : CommitteeMember) (market : List Char) : List CommitteeShare :=
  (m.shares.filter fun share => share.market = market).mergeSort
    fun left right => left.orderIndex ≤ right.orderIndex

def clearMarket (m : CommitteeMember) (market : List Char) : CommitteeMember :=
  { m with shares := m.shares.filter fun share => share.market ≠ market }

/-- One round of the loop of `aggregate`. -/
def addShare (totals : CommitteeAggregate) (share : CommitteeShare) : CommitteeAggregate :=
  { totals with
    orderCount := totals.orderCount + 1
    aggregateSideShare := mod (totals.aggregateSideShare + share.sideShare)
    aggregateYesAmountShare := mod (totals.aggregateYesAmountShare + share.yesAmountShare)
    aggregateTotalAmountShare := mod (totals.aggregateTotalAmountShare + share.totalAmountShare)
    orderCommitments := totals.orderCommitments ++ [share.orderCommitment] }

/-- The loop of `aggregate`. -/
def addShares : CommitteeAggregate → List CommitteeShare → Except String CommitteeAggregate
  | totals, [] => .ok totals
  | totals, share :: rest => do
    require (share.orderIndex = totals.orderCount) "committee orders must be contiguous from zero"
    addShares (addShare totals share) rest

def aggregate (m : CommitteeMember) (market : List Char) : Except String CommitteeAggregate := do
  let shares := m.snapshot market
  require (minPrivateBatchOrders ≤ shares.length) "private batches require at least 4 orders"
  addShares {
    market
    memberIndex := m.memberIndex
    orderCount := 0
    aggregateSideShare := 0
    aggregateYesAmountShare := 0
    aggregateTotalAmountShare := 0
    orderCommitments := [] } shares

end CommitteeMember

/-! ## The batch of two members -/

def finalizeCommitteeAggregates (P : Poseidon) (market : List Char)
    (first second : CommitteeAggregate) : Except String CommitteeBatch := do
  require (first.memberIndex ≠ second.memberIndex) "two distinct committee members are required"
  require (first.market = market ∧ second.market = market)
    "committee aggregates belong to a different market"
  require (minPrivateBatchOrders ≤ first.orderCount ∧ first.orderCount = second.orderCount ∧
    first.orderCommitments.length = first.orderCount ∧
    second.orderCommitments.length = second.orderCount)
    "committee aggregates must contain the same eligible order count"
  -- the loop compares the two lists, whose lengths are equal, entry by entry
  require (first.orderCommitments = second.orderCommitments)
    "committee aggregates do not describe the same ordered commitments"
  let yesCount ← reconstructIntercept first.memberIndex first.aggregateSideShare
    second.memberIndex second.aggregateSideShare
  require (yesCount ≤ first.orderCount) "reconstructed YES count is outside the order range"
  let noCount := first.orderCount - yesCount
  require (yesCount ≠ 0 ∧ noCount ≠ 0)
    "one-sided private batches must wait for permissionless refunds"
  let yesAmount ← reconstructIntercept first.memberIndex first.aggregateYesAmountShare
    second.memberIndex second.aggregateYesAmountShare
  let totalAmount ← reconstructIntercept first.memberIndex first.aggregateTotalAmountShare
    second.memberIndex second.aggregateTotalAmountShare
  require (yesAmount ≤ totalAmount) "reconstructed YES liquidity exceeds total liquidity"
  let noAmount := totalAmount - yesAmount
  require (yesCount * minPrivateWagerAmount ≤ yesAmount ∧ noCount * minPrivateWagerAmount ≤ noAmount)
    "reconstructed private liquidity is below the minimum wager bounds"
  let root ← commitmentRoot P first.orderCommitments
  .ok {
    market
    orderCount := first.orderCount
    yesCount
    noCount
    yesAmount
    noAmount
    commitmentRoot := root
    memberIndices := (first.memberIndex, second.memberIndex) }

/-! ## The root is the root of the padded tree -/

/-- The row of leaves a list stands for. -/
def leafRow (leaves : List Int) (i : Nat) : Int := leaves.getD i 0

theorem levelNodes_represents (P : Poseidon) (leaves : List Int) (level : Nat) :
    Merkle.Represents (levelNodes P leaves level) (zeroHash P level)
      (Merkle.node (poseidonHash P) (leafRow leaves) level) := by
  induction level with
  | zero =>
    intro i
    rfl
  | succ level ih => exact ih.parents

/-- The row of leaves as field elements. -/
def fieldRow (leaves : List Int) (i : Nat) : Field := ((leafRow leaves i : Int) : Field)

/-- The nodes of the circuits' tree are those the committee computes, and its padding. -/
theorem node_eq_levelNodes (P : Poseidon) (leaves : List Int) (level i : Nat) :
    Merkle.node P (fieldRow leaves) level i =
      (((levelNodes P leaves level).getD i (zeroHash P level) : Int) : Field) := by
  rw [levelNodes_represents P leaves level i]
  exact (Merkle.map_node (φ := fun n : Int => (n : Field)) (cast_poseidonHash P) level i).symm

/-- **The root the committee computes is the root of the circuits' tree.** -/
theorem commitmentRoot_ok {P : Poseidon} {leaves : List Int} {root : Int}
    (h : commitmentRoot P leaves = .ok root) :
    leaves.length ≤ 2 ^ treeDepth ∧
      root = Merkle.node (poseidonHash P) (leafRow leaves) treeDepth 0 ∧
      (root : Field) = Merkle.node P (fieldRow leaves) treeDepth 0 := by
  unfold commitmentRoot at h
  split at h
  · cases h
  · next hlen =>
    cases h
    exact ⟨Nat.not_lt.mp hlen, levelNodes_represents P leaves treeDepth 0,
      (node_eq_levelNodes P leaves treeDepth 0).symm⟩

theorem commitmentRoot_of_le (P : Poseidon) {leaves : List Int}
    (h : leaves.length ≤ 2 ^ treeDepth) : ∃ root, commitmentRoot P leaves = .ok root :=
  ⟨_, if_neg (Nat.not_lt.mpr h)⟩

end Nortia.Client
