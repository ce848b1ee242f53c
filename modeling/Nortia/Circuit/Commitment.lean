import Nortia.Circuit.Field
import Mathlib.Data.Set.Function

/-!
# What both circuits share

The commitment to an order, and what an ideal hash makes of it: on the pairs anyone hashes no two
collide and none gives zero, so a commitment opens one way.
-/

namespace Nortia.Circuit

open Lib

def minWagerAmount : Nat := 1000000

/-- What an order hides. -/
structure Opening where
  amount : Nat
  side : Bool
  secret : Field
  nullifier : Field
  deriving DecidableEq

/-- `side as Field`. -/
def sideField (side : Bool) : Field := if side then 1 else 0

/-- `order_commitment`, which both circuits have. -/
def orderCommitment (hash : Poseidon) (marketId stakeAmount amount : Field) (side : Bool)
    (secret nullifier : Field) : Field :=
  let context := hash marketId stakeAmount
  let position := hash amount (sideField side)
  hash context (hash position (hash secret nullifier))

/-- The commitment to an opening. -/
def Opening.commitment (hash : Poseidon) (marketId stakeAmount : Field) (o : Opening) : Field :=
  orderCommitment hash marketId stakeAmount o.amount o.side o.secret o.nullifier

/-- The pairs the commitment hashes. -/
def Opening.pairs (hash : Poseidon) (marketId stakeAmount : Field) (o : Opening) :
    List (Field × Field) :=
  [(marketId, stakeAmount), ((o.amount : Field), sideField o.side), (o.secret, o.nullifier),
    (hash o.amount (sideField o.side), hash o.secret o.nullifier),
    (hash marketId stakeAmount,
      hash (hash o.amount (sideField o.side)) (hash o.secret o.nullifier))]

/-- On the pairs of `S` the hash has no collision and never gives zero, the empty leaf. -/
structure IdealHash (hash : Poseidon) (S : Set (Field × Field)) : Prop where
  injOn : Set.InjOn (Function.uncurry hash) S
  ne_zero : ∀ pair ∈ S, Function.uncurry hash pair ≠ 0

theorem sideField_injective : Function.Injective sideField := by
  intro a b h
  cases a <;> cases b <;> first | rfl | exact absurd h (by decide)

/-- **A commitment opens one way.** Unless two of their pairs collide, openings of equal commitments
agree on the amount, the side, the secret and the nullifier. -/
theorem Opening.commitment_inj {hash : Poseidon} {S : Set (Field × Field)}
    (hS : IdealHash hash S) {marketId stakeAmount : Field} {o o' : Opening}
    (ho : ∀ pair ∈ o.pairs hash marketId stakeAmount, pair ∈ S)
    (ho' : ∀ pair ∈ o'.pairs hash marketId stakeAmount, pair ∈ S)
    (hamount : o.amount ≤ u64Max) (hamount' : o'.amount ≤ u64Max)
    (h : o.commitment hash marketId stakeAmount = o'.commitment hash marketId stakeAmount) :
    o = o' := by
  simp only [Opening.pairs, List.forall_mem_cons] at ho ho'
  obtain ⟨-, hposition, hsecret, hinner, houter, -⟩ := ho
  obtain ⟨-, hposition', hsecret', hinner', houter', -⟩ := ho'
  have h₁ := (Prod.mk.inj (hS.injOn houter houter' h)).2
  obtain ⟨h₂, h₃⟩ := Prod.mk.inj (hS.injOn hinner hinner' h₁)
  obtain ⟨hamounts, hsides⟩ := Prod.mk.inj (hS.injOn hposition hposition' h₂)
  obtain ⟨hsecrets, hnullifiers⟩ := Prod.mk.inj (hS.injOn hsecret hsecret' h₃)
  have hval : o.amount = o'.amount := by
    rw [← Field.val_u64 hamount, ← Field.val_u64 hamount', hamounts]
  cases o
  cases o'
  simp only [Opening.mk.injEq]
  exact ⟨hval, sideField_injective hsides, hsecrets, hnullifiers⟩

/-- A commitment is never the empty leaf. -/
theorem Opening.commitment_ne_zero {hash : Poseidon} {S : Set (Field × Field)}
    (hS : IdealHash hash S) {marketId stakeAmount : Field} {o : Opening}
    (ho : ∀ pair ∈ o.pairs hash marketId stakeAmount, pair ∈ S) :
    o.commitment hash marketId stakeAmount ≠ 0 :=
  hS.ne_zero _ (ho (hash marketId stakeAmount, _) (by simp [Opening.pairs]))

end Nortia.Circuit
