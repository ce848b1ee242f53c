import Nortia.Circuit.PlaceOrder
import Nortia.Circuit.RedeemInputs

/-!
# The inputs of `circuits/place_order` as texts

As for a redemption: a prover reads a field element or a `u64` off each text.
-/

namespace Nortia.Circuit

open RedeemInputs (readField readU64)

structure PlaceOrderInputs where
  marketId : String
  stakeAmount : String
  payerHash : String
  commitment : String
  shareCommitment1 : String
  shareCommitment2 : String
  shareCommitment3 : String
  amount : String
  side : Bool
  secret : String
  nullifier : String
  sideCoefficient : String
  yesAmountCoefficient : String
  totalAmountCoefficient : String
  salt1 : String
  salt2 : String
  salt3 : String
  deriving DecidableEq

namespace PlaceOrderInputs

theorem amount_le (amount : { n : Nat // n ≤ u64Max }) : amount.1 ≤ u64Max := amount.2

/-- The public inputs, by their names. -/
def readPublic (inputs : PlaceOrderInputs) : Option PlaceOrder.Public := do
  let marketId ← readField inputs.marketId
  let stakeAmount ← readField inputs.stakeAmount
  let payerHash ← readField inputs.payerHash
  let commitment ← readField inputs.commitment
  let shareCommitment1 ← readField inputs.shareCommitment1
  let shareCommitment2 ← readField inputs.shareCommitment2
  let shareCommitment3 ← readField inputs.shareCommitment3
  some {
    marketId
    stakeAmount
    payerHash
    commitment
    shareCommitment1
    shareCommitment2
    shareCommitment3 }

def readPrivate (inputs : PlaceOrderInputs) : Option PlaceOrder.Private := do
  let amount ← readU64 inputs.amount
  let secret ← readField inputs.secret
  let nullifier ← readField inputs.nullifier
  let sideCoefficient ← readField inputs.sideCoefficient
  let yesAmountCoefficient ← readField inputs.yesAmountCoefficient
  let totalAmountCoefficient ← readField inputs.totalAmountCoefficient
  let salt1 ← readField inputs.salt1
  let salt2 ← readField inputs.salt2
  let salt3 ← readField inputs.salt3
  some {
    amount := amount.1
    side := inputs.side
    secret
    nullifier
    sideCoefficient
    yesAmountCoefficient
    totalAmountCoefficient
    salt1
    salt2
    salt3
    amount_le := amount_le amount }

end PlaceOrderInputs

end Nortia.Circuit
