import Nortia.Circuit.Commitment

/-!
# `circuits/place_order`

A trader commits to an order and to one Shamir share of it for each member of the committee.
`PlaceOrder.main` is the conjunction of the circuit's assertions, in its order.
-/

namespace Nortia.Circuit

open Lib

/-- `committed_share_bundle`. -/
def committedShareBundle (hash : Poseidon)
    (sideShare yesAmountShare totalAmountShare salt : Field) : Field :=
  hash (hash sideShare yesAmountShare) (hash totalAmountShare salt)

namespace PlaceOrder

structure Public where
  marketId : Field
  stakeAmount : Field
  payerHash : Field
  commitment : Field
  shareCommitment1 : Field
  shareCommitment2 : Field
  shareCommitment3 : Field

/-- The public inputs as the verifier reads them, in order. -/
def Public.fields (pub : Public) : List Field :=
  [pub.marketId, pub.stakeAmount, pub.payerHash, pub.commitment, pub.shareCommitment1,
    pub.shareCommitment2, pub.shareCommitment3]

structure Private where
  amount : Nat
  side : Bool
  secret : Field
  nullifier : Field
  sideCoefficient : Field
  yesAmountCoefficient : Field
  totalAmountCoefficient : Field
  salt1 : Field
  salt2 : Field
  salt3 : Field
  amount_le : amount ≤ u64Max
  deriving DecidableEq

def Private.opening (w : Private) : Opening where
  amount := w.amount
  side := w.side
  secret := w.secret
  nullifier := w.nullifier

/-! ## The shares of a witness -/

namespace Private

/-- The amount of a YES order, zero for a NO order. -/
def yesAmount (w : Private) : Field := (w.amount : Field) * sideField w.side

def sideShare (w : Private) (member : Nat) : Field := sideField w.side + w.sideCoefficient * member

def yesAmountShare (w : Private) (member : Nat) : Field :=
  w.yesAmount + w.yesAmountCoefficient * member

def totalAmountShare (w : Private) (member : Nat) : Field :=
  (w.amount : Field) + w.totalAmountCoefficient * member

/-- The bundle of a member's shares under a salt. -/
def bundle (hash : Poseidon) (w : Private) (member : Nat) (salt : Field) : Field :=
  committedShareBundle hash (w.sideShare member) (w.yesAmountShare member)
    (w.totalAmountShare member) salt

end Private

def main (hash : Poseidon) (pub : Public) (w : Private) : Prop :=
  let stake := Field.toU64 pub.stakeAmount
  (stake : Field) = pub.stakeAmount ∧
  minWagerAmount ≤ w.amount ∧
  w.amount ≤ stake ∧
  pub.commitment = orderCommitment hash pub.marketId pub.stakeAmount w.amount w.side w.secret
    w.nullifier ∧
  pub.shareCommitment1 = w.bundle hash 1 w.salt1 ∧
  pub.shareCommitment2 = w.bundle hash 2 w.salt2 ∧
  pub.shareCommitment3 = w.bundle hash 3 w.salt3 ∧
  pub.payerHash ≠ 0 ∧
  w.secret ≠ 0 ∧
  w.nullifier ≠ 0 ∧
  w.sideCoefficient ≠ 0 ∧
  w.yesAmountCoefficient ≠ 0 ∧
  w.totalAmountCoefficient ≠ 0 ∧
  w.salt1 ≠ 0 ∧
  w.salt2 ≠ 0 ∧
  w.salt3 ≠ 0

instance (hash : Poseidon) (pub : Public) (w : Private) : Decidable (main hash pub w) :=
  inferInstanceAs (Decidable (_ ∧ _))

/-- The pairs a bundle hashes. -/
def bundlePairs (hash : Poseidon) (sideShare yesAmountShare totalAmountShare salt : Field) :
    List (Field × Field) :=
  [(sideShare, yesAmountShare), (totalAmountShare, salt),
    (hash sideShare yesAmountShare, hash totalAmountShare salt)]

/-- The pairs of a member's bundle. -/
def Private.bundlePairs (hash : Poseidon) (w : Private) (member : Nat) (salt : Field) :
    List (Field × Field) :=
  PlaceOrder.bundlePairs hash (w.sideShare member) (w.yesAmountShare member)
    (w.totalAmountShare member) salt

/-- The pairs a witness hashes. -/
def Private.pairs (hash : Poseidon) (pub : Public) (w : Private) : List (Field × Field) :=
  w.opening.pairs hash pub.marketId pub.stakeAmount ++ w.bundlePairs hash 1 w.salt1 ++
    w.bundlePairs hash 2 w.salt2 ++ w.bundlePairs hash 3 w.salt3

/-- The public inputs some witness over the pairs of `S` satisfies. -/
def Satisfied (hash : Poseidon) (S : Set (Field × Field)) (fields : List Field) : Prop :=
  ∃ pub w, fields = pub.fields ∧ main hash pub w ∧ ∀ pair ∈ w.pairs hash pub, pair ∈ S

end PlaceOrder

/-- **A bundle opens one way.** -/
theorem committedShareBundle_inj {hash : Poseidon} {S : Set (Field × Field)}
    (hS : Set.InjOn (Function.uncurry hash) S) {s y t r s' y' t' r' : Field}
    (h₁ : ∀ pair ∈ PlaceOrder.bundlePairs hash s y t r, pair ∈ S)
    (h₂ : ∀ pair ∈ PlaceOrder.bundlePairs hash s' y' t' r', pair ∈ S)
    (h : committedShareBundle hash s y t r = committedShareBundle hash s' y' t' r') :
    s = s' ∧ y = y' ∧ t = t' ∧ r = r' := by
  simp only [PlaceOrder.bundlePairs, List.forall_mem_cons] at h₁ h₂
  obtain ⟨hfirst, hsecond, houter, -⟩ := h₁
  obtain ⟨hfirst', hsecond', houter', -⟩ := h₂
  obtain ⟨hleft, hright⟩ := Prod.mk.inj (hS houter houter' h)
  obtain ⟨hs, hy⟩ := Prod.mk.inj (hS hfirst hfirst' hleft)
  obtain ⟨ht, hr⟩ := Prod.mk.inj (hS hsecond hsecond' hright)
  exact ⟨hs, hy, ht, hr⟩

end Nortia.Circuit
