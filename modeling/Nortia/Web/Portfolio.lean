import Nortia.Circuit.RedeemInputs
import Nortia.Client.Economics
import Nortia.Client.PublicKey
import Nortia.Lib.Base64
import Nortia.Lib.Json
import Nortia.Program.Market
import Nortia.Web.Crypto
import Nortia.Web.Positions

/-!
# `web/components/portfolio-dashboard.tsx`: `redeem`

What the dashboard reads, computes and sends when a private position is redeemed. The accounts it
fetches are arguments, and the proof a prover returns is one too.
-/

namespace Nortia.Web

open Lib Client Circuit

/-- What the dashboard computes before it asks for a proof. -/
structure RedeemValues where
  market : Pubkey
  recipient : Pubkey
  marketId : Int
  stakeAmount : Int
  expectedRoot : Int
  outcome : Bool
  nullifierHash : Int
  recipientHash : Int
  netPool : Int
  winningAmount : Int
  payoutAmount : Int
  path : CommitmentPath

/-- The orders of a market, by their indices. -/
def marketOrders (orders : List Order) (market : Pubkey) : List Order :=
  (orders.filter fun order => order.market = market).mergeSort
    fun left right => left.orderIndex ≤ right.orderIndex

/-- From the accounts on: the market at an address, and all order accounts of the program. -/
def redeemValues (P : Poseidon) (account : Market) (orders : List Order) (position : PrivatePosition)
    (market recipient : Pubkey) : Except String RedeemValues := do
  require (account.phase = .resolved) "Market is not ready for redemption"
  let leaves := (marketOrders orders market).map fun order => fieldOfBytes order.commitment.toList
  let commitment ← fieldOfText position.commitment
  let index ← okOr (leaves.idxOf? commitment) "Private position commitment is missing from this market"
  let path ← commitmentPath P leaves index
  let expectedRoot := fieldOfBytes account.commitmentRoot.toList
  require (path.root = expectedRoot) "Local commitment path does not match the onchain batch root"
  let marketId : Int := account.marketId
  let stakeAmount : Int := account.stakeAmount
  let amount ← fieldOfText position.amount
  let collateral ← fieldOfText position.stakeAmount
  require (collateral = stakeAmount) "Private position collateral does not match this market"
  let netPool : Int := account.netPool
  let winningAmount : Int := if account.outcome = 1 then account.yesAmount else account.noAmount
  let winner : Bool := decide (position.side = .yes) = decide (account.outcome = 1)
  let payout ← calculatePrivatePayout stakeAmount amount winner netPool winningAmount
  let nullifier ← fieldOfText position.nullifier
  let recipientHash ← solanaPublicKeyHash P recipient.toList
  .ok {
    market
    recipient
    marketId
    stakeAmount
    expectedRoot
    outcome := account.outcome = 1
    nullifierHash := Client.nullifierHash P marketId nullifier
    recipientHash
    netPool
    winningAmount
    payoutAmount := payout.payoutAmount
    path }

/-- `redeem`, up to the proof. `wallet` is the connected one. -/
def redeem (P : Poseidon) (isOnCurve : Pubkey → Bool) (fetchMarket : Pubkey → Except String Market)
    (orders : List Order) (wallet : Pubkey) (payoutRecipient : String) (marketAddress : String)
    (position : PrivatePosition) : Except String RedeemValues := do
  let recipient ← publicKey (String.ofList (BigInt.trim payoutRecipient.toList))
  require (isOnCurve recipient = true) "Fresh payout recipient must be a wallet address"
  require (recipient ≠ wallet) "Use a fresh payout wallet that differs from the order wallet"
  let market ← publicKey marketAddress
  let account ← fetchMarket market
  redeemValues P account orders position market recipient

/-! ## What is sent -/

/-- The inputs of the prover in the browser. -/
def browserInputs (values : RedeemValues) (position : PrivatePosition) : RedeemInputs where
  marketId := fieldHex values.marketId
  stakeAmount := fieldHex values.stakeAmount
  commitmentRoot := fieldHex values.expectedRoot
  outcome := values.outcome
  nullifierHash := fieldHex values.nullifierHash
  recipientHash := fieldHex values.recipientHash
  netPool := fieldHex values.netPool
  winningAmount := fieldHex values.winningAmount
  payoutAmount := fieldHex values.payoutAmount
  side := position.side = .yes
  amount := position.amount
  secret := position.secret
  nullifier := position.nullifier
  pathBits := values.path.pathBits
  siblings := values.path.siblings.map fieldHex

/-- The body of the request to the hosted prover. -/
def hostedRequest (values : RedeemValues) (position : PrivatePosition) : Json :=
  .object [
    ("marketId", .string (toString values.marketId)),
    ("stakeAmount", .string (toString values.stakeAmount)),
    ("amount", .string position.amount),
    ("commitmentRoot", .string (fieldHex values.expectedRoot)),
    ("outcome", .bool values.outcome),
    ("recipient", .string (toBase58 values.recipient)),
    ("netPool", .string (toString values.netPool)),
    ("winningAmount", .string (toString values.winningAmount)),
    ("payoutAmount", .string (toString values.payoutAmount)),
    ("side", .bool (position.side = .yes)),
    ("secret", .string position.secret),
    ("nullifier", .string position.nullifier),
    ("pathBits", .array (values.path.pathBits.map Json.bool)),
    ("siblings", .array (values.path.siblings.map fun sibling => .string (fieldHex sibling)))]

/-- The body of the request to the relay, with the proof a prover returned. -/
def relayRequest (market recipient : Pubkey) (nullifierHash payoutAmount : Int)
    (proof publicWitness : List UInt8) : Json :=
  .object [
    ("market", .string (toBase58 market)),
    ("recipient", .string (toBase58 recipient)),
    ("nullifierHash", .string (fieldHex nullifierHash)),
    ("payoutAmount", .string (toString payoutAmount)),
    ("proof", .string (String.ofList (Base64.encode proof))),
    ("publicWitness", .string (String.ofList (Base64.encode publicWitness)))]

end Nortia.Web
