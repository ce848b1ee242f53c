import Nortia.Circuit.Redeem
import Nortia.Lib.BigInt

/-!
# The inputs of `circuits/redeem` as texts

A prover is given the inputs of the circuit under their names, numbers as texts, and reads a field
element or a `u64` off each.
-/

namespace Nortia.Circuit

open Lib

structure RedeemInputs where
  marketId : String
  stakeAmount : String
  commitmentRoot : String
  outcome : Bool
  nullifierHash : String
  recipientHash : String
  netPool : String
  winningAmount : String
  payoutAmount : String
  side : Bool
  amount : String
  secret : String
  nullifier : String
  pathBits : List Bool
  siblings : List String
  deriving DecidableEq

namespace RedeemInputs

/-- A field element, from the text of a number below the modulus. -/
def readField (text : String) : Option Field := do
  let n ← BigInt.parse text.toList
  if 0 ≤ n ∧ n < scalarModulus then some (n : Field) else none

/-- A `u64`, which carries its bound. -/
def readU64 (text : String) : Option { n : Nat // n ≤ u64Max } := do
  let n ← BigInt.parse text.toList
  if h : 0 ≤ n ∧ n ≤ u64Max then some ⟨n.toNat, by omega⟩ else none

/-- The public inputs, by their names. -/
def readPublic (inputs : RedeemInputs) : Option Redeem.Public := do
  let marketId ← readField inputs.marketId
  let stakeAmount ← readField inputs.stakeAmount
  let commitmentRoot ← readField inputs.commitmentRoot
  let nullifierHash ← readField inputs.nullifierHash
  let recipientHash ← readField inputs.recipientHash
  let netPool ← readField inputs.netPool
  let winningAmount ← readField inputs.winningAmount
  let payoutAmount ← readField inputs.payoutAmount
  some {
    marketId
    stakeAmount
    commitmentRoot
    outcome := inputs.outcome
    nullifierHash
    recipientHash
    netPool
    winningAmount
    payoutAmount }

def readPrivate (inputs : RedeemInputs) : Option Redeem.Private := do
  let amount ← readU64 inputs.amount
  let secret ← readField inputs.secret
  let nullifier ← readField inputs.nullifier
  let siblings ← inputs.siblings.mapM readField
  if h : inputs.pathBits.length = treeDepth ∧ siblings.length = treeDepth then
    some {
      amount := amount.1
      side := inputs.side
      secret
      nullifier
      pathBits := inputs.pathBits
      siblings
      amount_le := amount.2
      length_pathBits := h.1
      length_siblings := h.2 }
  else none

/-! ## Reading what was printed -/

theorem readField_of_parse {text : String} {n : Int} (h : BigInt.parse text.toList = some n)
    (hn : 0 ≤ n ∧ n < scalarModulus) : readField text = some (n : Field) := by
  rw [readField, h, Option.bind_eq_bind, Option.bind_some, if_pos hn]

theorem readU64_of_parse {text : String} {n : Nat} (h : BigInt.parse text.toList = some (n : Int))
    (hn : n ≤ u64Max) : readU64 text = some ⟨n, hn⟩ := by
  have hrange : 0 ≤ (n : Int) ∧ (n : Int) ≤ u64Max := by omega
  rw [readU64, h, Option.bind_eq_bind, Option.bind_some, dif_pos hrange]
  rfl

end RedeemInputs

end Nortia.Circuit
