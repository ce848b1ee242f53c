import Nortia.Program.Types

/-!
# The private accounts of `state.rs`

A private market, its orders and its claims. Orders and claims sit at addresses derived from the
market and the commitment or the nullifier hash they hold.
-/

namespace Nortia

open Lib

/-! ## Constants -/

def marketSeed : List UInt8 := asciiBytes "market".toList
def minPrivateBatchOrders : Nat := 4
def minPrivateWagerAmount : Nat := 1000000
def maxPrivateStakeAmount : Nat := 1000000000
def maxProtocolFeeBps : Nat := 300
def maxKeeperRewardBps : Nat := 5000
def basisPointsDenominator : Nat := 10000
def maxTotalGoalsThreshold : Int := 20

/-! ## Enumerations -/

inductive MarketMode
  | live
  | replay
  deriving DecidableEq, Repr

inductive ResolverKind
  | txlineStat
  deriving DecidableEq, Repr

inductive MarketPhase
  | open
  | batched
  | resolved
  | refunding
  | closed
  deriving DecidableEq, Repr

/-! ## Accounts -/

structure Mint where
  key : Pubkey
  decimals : Nat

structure Market where
  marketId : Nat
  authority : Pubkey
  category : MarketCategory
  resolverKind : ResolverKind
  questionHash : Bytes32
  rulesHash : Bytes32
  fixtureId : Int
  marketMode : MarketMode
  fixtureStartTs : Int
  scoreKeyA : Nat
  scoreKeyB : Nat
  totalGoalsThreshold : Int
  collateralMint : Pubkey
  tokenProgram : Pubkey
  stakeAmount : Nat
  feeBps : Nat
  keeperRewardBps : Nat
  treasuryOwner : Pubkey
  txlineProgram : Pubkey
  lockTs : Int
  batchDeadlineTs : Int
  resolutionDeadlineTs : Int
  phase : MarketPhase
  orderCount : Nat
  yesCount : Nat
  noCount : Nat
  commitmentRoot : Bytes32
  outcome : Nat
  committee : List Pubkey
  placementVerifier : Pubkey
  redeemVerifier : Pubkey
  grossPool : Nat
  protocolFee : Nat
  keeperReward : Nat
  treasuryFee : Nat
  netPool : Nat
  payoutAmount : Nat
  payoutRemainder : Nat
  claimedCount : Nat
  refundedCount : Nat
  settledAt : Int
  txlineProofTs : Int
  finalSeq : Nat
  dailyScoresRoot : Pubkey
  settlementEvidenceHash : Bytes32
  scoreA : Int
  scoreB : Int
  yesAmount : Nat
  noAmount : Nat

namespace Market

def outcomeUnset : Nat := 2

def winningAmount (market : Market) : Nat :=
  if market.outcome = 1 then market.yesAmount else market.noAmount

def winningCount (market : Market) : Nat :=
  if market.outcome = 1 then market.yesCount else market.noCount

end Market

/-- The commitments of a share for each of the three members. -/
structure ShareCommitments where
  first : Bytes32
  second : Bytes32
  third : Bytes32
  deriving DecidableEq

structure Order where
  market : Pubkey
  payer : Pubkey
  orderIndex : Nat
  commitment : Bytes32
  shareCommitments : ShareCommitments
  refunded : Bool

structure Claim where
  market : Pubkey
  nullifierHash : Bytes32
  recipientOwner : Pubkey
  recipientToken : Pubkey
  amount : Nat

/-! ## Instruction arguments

Where a check does not bound an argument, the argument carries the bound of its width.
-/

structure InitializeMarketArgs where
  marketId : Nat
  category : MarketCategory
  resolverKind : ResolverKind
  questionHash : Bytes32
  rulesHash : Bytes32
  fixtureId : Int
  totalGoalsThreshold : Int
  marketMode : MarketMode
  fixtureStartTs : Int
  lockTs : Int
  batchDeadlineTs : Int
  resolutionDeadlineTs : Int
  stakeAmount : Nat
  marketId_le : marketId ≤ u64Max

structure PlaceOrderArgs where
  commitment : Bytes32
  shareCommitments : ShareCommitments
  proof : List UInt8
  publicWitness : List UInt8

structure SubmitBatchArgs where
  commitmentRoot : Bytes32
  yesCount : Nat
  noCount : Nat
  yesAmount : Nat
  noAmount : Nat

structure RedeemArgs where
  nullifierHash : Bytes32
  payoutAmount : Nat
  proof : List UInt8
  publicWitness : List UInt8
  payoutAmount_le : payoutAmount ≤ u64Max

end Nortia
