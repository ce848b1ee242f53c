import Nortia.Lib.Digits
import Nortia.Program.Width

/-!
# `constants.rs` and the accounts of `state.rs` that markets share or the hybrid market has

Unsigned fields are natural numbers, signed ones integers; the operations that can overflow check
the width themselves. Bumps, versions and account sizes are left out.
-/

namespace Nortia

open Lib

abbrev Bytes32 : Type := Bytes 32

abbrev Pubkey : Type := Bytes32

/-- `Pubkey::default()`, the all-zero key. -/
def Pubkey.default : Pubkey := Bytes.fill 32 0

/-- `[0; 32]`. -/
def zeroBytes : Bytes32 := Bytes.fill 32 0

/-- The bytes of an ASCII seed. -/
def asciiBytes (s : List Char) : List UInt8 := s.map fun c => UInt8.ofNat c.toNat

/-! ## Constants -/

def hybridMarketSeed : List UInt8 := asciiBytes "hybrid-market".toList
def oracleConfigSeed : List UInt8 := asciiBytes "oracle-config".toList
def optimisticProposalSeed : List UInt8 := asciiBytes "optimistic-proposal".toList
def dailyScoresRootSeed : List UInt8 := asciiBytes "daily_scores_roots".toList
def committeeThreshold : Nat := 2
def usdcDecimals : Nat := 6
def feeSplitDenominator : Nat := 10000
def hybridRoundingReserve : Nat := 2
def minOptimisticBond : Nat := 10000000
def optimisticDisputeFeeBps : Nat := 500
def maxOptimisticEvidenceUriBytes : Nat := 160
def participantOneGoalsKey : Nat := 1
def participantTwoGoalsKey : Nat := 2
def finalPeriod : Int := 100
def millisPerDay : Int := 86400000

/-- The address of this program. -/
def crateId : Pubkey :=
  ⟨[50, 251, 251, 176, 223, 91, 2, 126, 29, 47, 251, 206, 118, 189, 60, 106, 220, 191, 156, 196,
    69, 108, 102, 190, 246, 191, 211, 242, 25, 228, 208, 162], rfl⟩

def txlineProgramId : Pubkey :=
  ⟨[86, 117, 159, 44, 144, 95, 120, 96, 200, 99, 119, 20, 191, 36, 145, 48, 157, 192, 113, 129,
    81, 63, 122, 36, 191, 62, 218, 248, 127, 119, 80, 3], rfl⟩

def pythReceiverProgramId : Pubkey :=
  ⟨[12, 183, 250, 187, 82, 247, 166, 72, 187, 91, 49, 125, 154, 1, 139, 144, 87, 203, 2, 71,
    116, 250, 254, 1, 230, 196, 223, 152, 204, 56, 88, 129], rfl⟩

def pythPushOracleProgramId : Pubkey :=
  ⟨[12, 74, 160, 18, 142, 149, 211, 225, 98, 42, 165, 1, 197, 133, 169, 235, 7, 179, 115, 84,
    193, 8, 234, 11, 121, 27, 69, 109, 199, 238, 163, 54], rfl⟩

def switchboardQuoteProgramId : Pubkey :=
  ⟨[12, 0, 198, 219, 237, 104, 161, 160, 13, 241, 116, 15, 191, 74, 217, 142, 253, 127, 135,
    134, 152, 37, 83, 75, 89, 89, 115, 15, 48, 136, 143, 201], rfl⟩

def switchboardDevnetQueue : Pubkey :=
  ⟨[201, 71, 123, 251, 95, 241, 1, 40, 89, 243, 54, 207, 152, 114, 86, 128, 231, 112, 91, 162,
    171, 236, 225, 113, 136, 207, 178, 140, 166, 108, 165, 176], rfl⟩

def storkOracleProgramId : Pubkey :=
  ⟨[13, 9, 158, 172, 160, 66, 246, 238, 223, 39, 184, 53, 115, 54, 127, 223, 22, 38, 40, 189,
    145, 81, 228, 189, 147, 79, 227, 103, 124, 76, 63, 231], rfl⟩

/-! ## Enumerations -/

inductive MarketCategory
  | sports
  | crypto
  | politics
  | technology
  | culture
  | other
  | economics
  | science
  deriving DecidableEq, Repr

inductive HybridPhase
  | open
  | locked
  | resolving
  | disputed
  | resolved
  | closed
  deriving DecidableEq, Repr

inductive HybridTradingMode
  | continuous
  | privateBatch
  deriving DecidableEq, Repr

inductive OracleResolver
  | txlineStat
  | pythPrice
  | switchboardQuote
  | optimistic
  | umaWormhole
  | chainlinkReport
  | storkPrice
  deriving DecidableEq, Repr

inductive ValueComparator
  | greaterThan
  | greaterThanOrEqual
  | lessThan
  | lessThanOrEqual
  | equal
  deriving DecidableEq, Repr

/-! ## Accounts -/

/-- The account every program sees: its key, its owner program and its data. -/
structure AccountInfo where
  key : Pubkey
  owner : Pubkey
  executable : Bool
  isSigner : Bool
  data : List UInt8

structure Clock where
  slot : Nat
  unixTimestamp : Int
  deriving DecidableEq

structure EngineConfig where
  authority : Pubkey
  treasuryOwner : Pubkey
  collateralMint : Pubkey
  treasuryFeeShareBps : Nat
  paused : Bool

structure ProtocolConfig where
  authority : Pubkey
  treasuryOwner : Pubkey
  feeBps : Nat
  keeperRewardBps : Nat
  collateralMint : Pubkey
  tokenProgram : Pubkey
  txlineProgram : Pubkey
  committee : List Pubkey
  placementVerifier : Pubkey
  redeemVerifier : Pubkey

structure HybridMarket where
  marketId : Nat
  creator : Pubkey
  liquidityOwner : Pubkey
  category : MarketCategory
  tradingMode : HybridTradingMode
  questionHash : Bytes32
  rulesHash : Bytes32
  outcomeLabelsHash : Bytes32
  collateralMint : Pubkey
  treasuryOwner : Pubkey
  oracleConfig : Pubkey
  liquidityParameter : Nat
  initialSubsidy : Nat
  roundingReserve : Nat
  maxTradeShares : Nat
  resolverSecurityCap : Nat
  yesQuantity : Nat
  noQuantity : Nat
  tradeFeeBps : Nat
  treasuryFeeShareBps : Nat
  openTs : Int
  lockTs : Int
  resolveNotBeforeTs : Int
  resolutionDeadlineTs : Int
  phase : HybridPhase
  outcome : Nat
  tradeCount : Nat
  volume : Nat
  treasuryFees : Nat
  liquidityFees : Nat
  outstandingLiability : Nat
  redeemedLiability : Nat
  settledAt : Int
  settlementEvidenceHash : Bytes32

namespace HybridMarket

def outcomeYes : Nat := 1
def outcomeNo : Nat := 0
def outcomeInvalid : Nat := 2
def outcomeUnset : Nat := 3

end HybridMarket

structure OracleConfig where
  market : Pubkey
  resolver : OracleResolver
  sourceProgram : Pubkey
  sourceQueue : Pubkey
  sourceId : Bytes32
  comparator : ValueComparator
  threshold : Int
  thresholdExponent : Int
  observationTs : Int
  observationWindowSecs : Nat
  maxStalenessSecs : Nat
  maxStalenessSlots : Nat
  maxConfidenceBps : Nat
  minSamples : Nat
  challengePeriodSecs : Nat
  bondAmount : Nat
  configHash : Bytes32
  optimisticProposal : Pubkey
  consumed : Bool

structure Position where
  market : Pubkey
  owner : Pubkey
  yesShares : Nat
  noShares : Nat
  totalSpent : Nat
  totalProceeds : Nat
  settledAmount : Nat
  settled : Bool

structure ResolutionReceipt where
  market : Pubkey
  resolver : OracleResolver
  outcome : Nat
  observationValue : Int
  observationExponent : Int
  observationTs : Int
  observationSlot : Nat
  confidence : Nat
  sampleCount : Nat
  sourceQueue : Pubkey
  sourceId : Bytes32
  sourceAccount : Pubkey
  evidenceHash : Bytes32
  finalizedAt : Int

structure OptimisticProposal where
  market : Pubkey
  proposer : Pubkey
  proposerToken : Pubkey
  proposedOutcome : Nat
  assertionHash : Bytes32
  assertionEvidenceUri : List Char
  proposedAt : Int
  challengeDeadline : Int
  challenger : Pubkey
  challengerToken : Pubkey
  challengedOutcome : Nat
  challengeHash : Bytes32
  challengeEvidenceUri : List Char
  challengedAt : Int
  bondAmount : Nat
  proposerPayout : Nat
  challengerPayout : Nat
  treasuryPayout : Nat
  proposerClaimed : Bool
  challengerClaimed : Bool
  treasuryClaimed : Bool
  finalized : Bool
  winner : Pubkey
  decisionHash : Bytes32

/-! ## Instruction arguments -/

structure OracleConfigArgs where
  resolver : OracleResolver
  sourceProgram : Pubkey
  sourceQueue : Pubkey
  sourceId : Bytes32
  comparator : ValueComparator
  threshold : Int
  thresholdExponent : Int
  observationTs : Int
  observationWindowSecs : Nat
  maxStalenessSecs : Nat
  maxStalenessSlots : Nat
  maxConfidenceBps : Nat
  minSamples : Nat
  challengePeriodSecs : Nat
  bondAmount : Nat
  configHash : Bytes32

structure InitializeHybridMarketArgs where
  marketId : Nat
  category : MarketCategory
  tradingMode : HybridTradingMode
  questionHash : Bytes32
  rulesHash : Bytes32
  outcomeLabelsHash : Bytes32
  liquidityParameter : Nat
  roundingReserve : Nat
  maxTradeShares : Nat
  tradeFeeBps : Nat
  lockTs : Int
  resolveNotBeforeTs : Int
  resolutionDeadlineTs : Int
  oracle : OracleConfigArgs

structure TradeSharesArgs where
  side : Nat
  shares : Nat
  amountGuard : Nat
  deadlineTs : Int

structure ProposeOptimisticArgs where
  outcome : Nat
  assertionHash : Bytes32
  evidenceUri : List Char

structure ChallengeOptimisticArgs where
  outcome : Nat
  challengeHash : Bytes32
  evidenceUri : List Char

structure ArbitrateOptimisticArgs where
  outcome : Nat
  decisionHash : Bytes32

end Nortia
