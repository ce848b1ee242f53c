import Nortia.Circuit.Commitment
import Nortia.Lib.Merkle

/-!
# `circuits/redeem`

A statement is the nine public inputs, a witness the private ones. `Redeem.main` is the
conjunction of the circuit's assertions, in its order.
-/

namespace Nortia.Circuit

open Lib

def treeDepth : Nat := 16

namespace Redeem

structure Public where
  marketId : Field
  stakeAmount : Field
  commitmentRoot : Field
  outcome : Bool
  nullifierHash : Field
  recipientHash : Field
  netPool : Field
  winningAmount : Field
  payoutAmount : Field

/-- The public inputs as the verifier reads them, in order. -/
def Public.fields (pub : Public) : List Field :=
  [pub.marketId, pub.stakeAmount, pub.commitmentRoot, sideField pub.outcome, pub.nullifierHash,
    pub.recipientHash, pub.netPool, pub.winningAmount, pub.payoutAmount]

structure Private where
  amount : Nat
  side : Bool
  secret : Field
  nullifier : Field
  pathBits : List Bool
  siblings : List Field
  amount_le : amount ≤ u64Max
  length_pathBits : pathBits.length = treeDepth
  length_siblings : siblings.length = treeDepth

def Private.opening (w : Private) : Opening where
  amount := w.amount
  side := w.side
  secret := w.secret
  nullifier := w.nullifier

/-- The steps of the path, lowest first. -/
def Private.path (w : Private) : List (Bool × Field) := w.pathBits.zip w.siblings

/-- `merkle_root`. -/
def merkleRoot (hash : Poseidon) (leaf : Field) (path : List (Bool × Field)) : Field :=
  Merkle.fold hash leaf path

def main (hash : Poseidon) (pub : Public) (w : Private) : Prop :=
  let stake := Field.toU64 pub.stakeAmount
  let netPool := Field.toU64 pub.netPool
  let winningAmount := Field.toU64 pub.winningAmount
  let payout := Field.toU64 pub.payoutAmount
  (stake : Field) = pub.stakeAmount ∧
  (netPool : Field) = pub.netPool ∧
  (winningAmount : Field) = pub.winningAmount ∧
  (payout : Field) = pub.payoutAmount ∧
  minWagerAmount ≤ w.amount ∧
  w.amount ≤ stake ∧
  0 < winningAmount ∧
  merkleRoot hash (orderCommitment hash pub.marketId pub.stakeAmount w.amount w.side w.secret
    w.nullifier) w.path = pub.commitmentRoot ∧
  hash pub.marketId w.nullifier = pub.nullifierHash ∧
  -- the products and sums of `u128` fit: both factors are 64 bits wide
  (stake - w.amount) + (if w.side = pub.outcome then w.amount * netPool / winningAmount else 0) =
    payout ∧
  pub.recipientHash ≠ 0 ∧
  w.secret ≠ 0 ∧
  w.nullifier ≠ 0

instance (hash : Poseidon) (pub : Public) (w : Private) : Decidable (main hash pub w) :=
  inferInstanceAs (Decidable (_ ∧ _))

/-- The pairs a witness hashes. -/
def Private.pairs (hash : Poseidon) (pub : Public) (w : Private) : List (Field × Field) :=
  (pub.marketId, w.nullifier) :: w.opening.pairs hash pub.marketId pub.stakeAmount ++
    Merkle.foldPairs hash (w.opening.commitment hash pub.marketId pub.stakeAmount) w.path

/-- The public inputs some witness over the pairs of `S` satisfies. -/
def Satisfied (hash : Poseidon) (S : Set (Field × Field)) (fields : List Field) : Prop :=
  ∃ pub w, fields = pub.fields ∧ main hash pub w ∧ ∀ pair ∈ w.pairs hash pub, pair ∈ S

end Redeem

end Nortia.Circuit
