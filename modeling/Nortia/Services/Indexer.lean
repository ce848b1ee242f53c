import Nortia.Lib.Decimal
import Nortia.Lib.Keyed
import Nortia.Client.Lmsr
import Nortia.Client.MarketEngine

/-!
# `services/src/indexer`: the snapshots of the hybrid markets

What a pass of the indexer writes of each market. An account is decoded to the fields the program
keeps: an enumeration to an object whose one key is the name of the variant, an integer of 64 bits
or more to a bignumber, bytes to a list of numbers. The digest and the derived addresses are the
program's, and `toBase58` is the text of an address.
-/

namespace Nortia.Services

open Lib Client

/-! ## Conversions -/

/-- `value.toString()` of a bignumber, with the test that it is one. -/
def integerString (value : Int) (label : String) : Except String String := do
  let encoded := toString value
  require (Decimal.isInteger encoded.toList = true) (label ++ " is not an integer")
  .ok encoded

/-- A number: the nearest double of an integer is safe exactly when the integer is, and then it is
the integer. -/
def safeInteger (value : Int) (label : String) : Except String Int := do
  let _ ← integerString value label
  require (isSafeInteger value = true) (label ++ " exceeds the safe integer range")
  .ok value

def bytes32 (value : List UInt8) (label : String) : Except String String := do
  require (value.length = 32) (label ++ " must contain exactly 32 bytes")
  .ok (hex value)

/-- The keys of the object an enumeration is decoded to. -/
abbrev EnumLike : Type := List String

/-- A string that is not empty. -/
def truthy (value : String) : Option String := if value = "" then none else some value

/-- The name of the object's first key, when it has one. -/
def nameOf (value : EnumLike) (names : List (String × String)) : Option String := do
  let key ← value.head?
  let key ← truthy key
  let name ← names.lookup key
  truthy name

def enumName (value : EnumLike) (names : List (String × String)) (label : String) :
    Except String String :=
  okOr (nameOf value names) ("Unknown " ++ label)

def outcomeName (value : Nat) : Except String String :=
  okOr (["no", "yes", "invalid", "unset"][value]?) "Unknown hybrid market outcome"

/-! ## Enumerations -/

def categoryKeys : MarketCategory → EnumLike
  | .sports => ["sports"]
  | .crypto => ["crypto"]
  | .politics => ["politics"]
  | .technology => ["technology"]
  | .culture => ["culture"]
  | .other => ["other"]
  | .economics => ["economics"]
  | .science => ["science"]

def tradingModeKeys : HybridTradingMode → EnumLike
  | .continuous => ["continuous"]
  | .privateBatch => ["privateBatch"]

/-- The pricing model has one variant. -/
def pricingModelKeys : EnumLike := ["lmsr"]

def phaseKeys : HybridPhase → EnumLike
  | .open => ["open"]
  | .locked => ["locked"]
  | .resolving => ["resolving"]
  | .disputed => ["disputed"]
  | .resolved => ["resolved"]
  | .closed => ["closed"]

def resolverKeys : OracleResolver → EnumLike
  | .txlineStat => ["txlineStat"]
  | .pythPrice => ["pythPrice"]
  | .switchboardQuote => ["switchboardQuote"]
  | .optimistic => ["optimistic"]
  | .umaWormhole => ["umaWormhole"]
  | .chainlinkReport => ["chainlinkReport"]
  | .storkPrice => ["storkPrice"]

def comparatorKeys : ValueComparator → EnumLike
  | .greaterThan => ["greaterThan"]
  | .greaterThanOrEqual => ["greaterThanOrEqual"]
  | .lessThan => ["lessThan"]
  | .lessThanOrEqual => ["lessThanOrEqual"]
  | .equal => ["equal"]

def categoryNames : List (String × String) :=
  [("sports", "sports"), ("crypto", "crypto"), ("politics", "politics"),
    ("technology", "technology"), ("culture", "culture"), ("other", "other"),
    ("economics", "economics"), ("science", "science")]

def tradingModeNames : List (String × String) :=
  [("continuous", "continuous"), ("privateBatch", "private-batch")]

def comparatorName (value : EnumLike) : Except String String :=
  enumName value
    [("greaterThan", "greater-than"), ("greaterThanOrEqual", "greater-than-or-equal"),
      ("lessThan", "less-than"), ("lessThanOrEqual", "less-than-or-equal"), ("equal", "equal")]
    "value comparator"

def hybridPhaseName (phase : EnumLike) : Except String String := do
  let name ← okOr (phase.head?.bind truthy) "Unknown Nortia hybrid phase"
  require (["open", "locked", "resolving", "disputed", "resolved", "closed"].contains name = true)
    "Unknown Nortia hybrid phase"
  .ok name

def oracleResolverName (resolver : EnumLike) : Except String String :=
  okOr (nameOf resolver
    [("txlineStat", "txline-stat"), ("pythPrice", "pyth-price"),
      ("switchboardQuote", "switchboard-quote"), ("optimistic", "optimistic"),
      ("umaWormhole", "uma-wormhole"), ("chainlinkReport", "chainlink-report"),
      ("storkPrice", "stork-price")]) "Unknown Nortia oracle resolver"

/-! ## Snapshots -/

structure OracleSnapshot where
  resolver : String
  sourceProgram : String
  sourceQueue : String
  sourceId : String
  comparator : String
  threshold : String
  thresholdExponent : Int
  observationTs : String
  observationWindowSecs : Nat
  maxStalenessSecs : Nat
  maxStalenessSlots : String
  maxConfidenceBps : Nat
  minSamples : Nat
  challengePeriodSecs : Nat
  bondAmount : String
  configHash : String
  optimisticProposal : String
  consumed : Bool

structure ResolutionReceiptSnapshot where
  market : String
  resolver : String
  outcome : String
  observationValue : String
  observationExponent : Int
  observationTs : String
  observationSlot : String
  confidence : String
  sampleCount : Nat
  sourceQueue : String
  sourceId : String
  sourceAccount : String
  evidenceHash : String
  finalizedAt : String

structure MetadataSnapshot where
  market : String
  creator : String
  question : List Char
  rules : List Char
  yesLabel : List Char
  noLabel : List Char
  referenceUrl : Option (List Char)
  publishedAt : String

structure HybridMarketSnapshot where
  address : String
  marketId : String
  creator : String
  liquidityOwner : String
  category : String
  tradingMode : String
  pricingModel : String
  questionHash : String
  rulesHash : String
  outcomeLabelsHash : String
  collateralMint : String
  treasuryOwner : String
  oracleConfigAddress : String
  vault : String
  vaultBalance : Option String
  liquidityParameter : String
  initialSubsidy : String
  roundingReserve : String
  maxTradeShares : String
  resolverSecurityCap : String
  yesQuantity : String
  noQuantity : String
  yesProbabilityPpm : Int
  tradeFeeBps : Nat
  treasuryFeeShareBps : Nat
  openTs : String
  lockTs : String
  resolveNotBeforeTs : String
  resolutionDeadlineTs : String
  phase : String
  tradingOpen : Bool
  outcome : String
  tradeCount : String
  traderCount : Nat
  volume : String
  treasuryFees : String
  liquidityFees : String
  outstandingLiability : String
  redeemedLiability : String
  settledAt : String
  settlementEvidenceHash : String
  resolver : String
  oracle : OracleSnapshot
  receipt : Option ResolutionReceiptSnapshot
  metadata : Option MetadataSnapshot

structure SnapshotInput where
  address : Pubkey
  vault : Pubkey
  vaultBalance : Option Nat
  market : HybridMarket
  oracle : OracleConfig
  receipt : Option ResolutionReceipt
  metadata : Option Hybrid.HybridMarketMetadata
  traderCount : Nat
  now : Int

section Build

variable (sha256 : List UInt8 → Bytes32) (toBase58 : Pubkey → String)

/-- `createHash("sha256").update(text, "utf8").digest("hex")`. -/
def digest (text : List Char) : String := hex (sha256 (Text.asBytes text)).toList

def buildMetadataSnapshot (metadata : Hybrid.HybridMarketMetadata) (market : HybridMarket)
    (address : Pubkey) : Except String MetadataSnapshot := do
  require (metadata.market = address ∧ metadata.creator = market.creator)
    "Hybrid metadata belongs to a different market or creator"
  let questionHash ← bytes32 market.questionHash.toList "question hash"
  let rulesHash ← bytes32 market.rulesHash.toList "rules hash"
  let labelsHash ← bytes32 market.outcomeLabelsHash.toList "outcome labels hash"
  require (digest sha256 metadata.question = questionHash ∧
    digest sha256 metadata.rules = rulesHash ∧
    digest sha256 (metadata.yesLabel ++ ['\n'] ++ metadata.noLabel) = labelsHash)
    "Hybrid metadata hashes do not match immutable market state"
  let publishedAt ← integerString metadata.publishedAt "metadata publication timestamp"
  .ok {
    market := toBase58 metadata.market
    creator := toBase58 metadata.creator
    question := metadata.question
    rules := metadata.rules
    yesLabel := metadata.yesLabel
    noLabel := metadata.noLabel
    referenceUrl := if metadata.referenceUrl = [] then none else some metadata.referenceUrl
    publishedAt }

def buildResolutionReceiptSnapshot (receipt : ResolutionReceipt) :
    Except String ResolutionReceiptSnapshot := do
  let resolver ← oracleResolverName (resolverKeys receipt.resolver)
  let outcome ← outcomeName receipt.outcome
  let observationValue ← integerString receipt.observationValue "observation value"
  let observationTs ← integerString receipt.observationTs "observation timestamp"
  let observationSlot ← integerString receipt.observationSlot "observation slot"
  let confidence ← integerString receipt.confidence "observation confidence"
  let sourceId ← bytes32 receipt.sourceId.toList "receipt source ID"
  let evidenceHash ← bytes32 receipt.evidenceHash.toList "receipt evidence hash"
  let finalizedAt ← integerString receipt.finalizedAt "receipt finalization timestamp"
  .ok {
    market := toBase58 receipt.market
    resolver
    outcome
    observationValue
    observationExponent := receipt.observationExponent
    observationTs
    observationSlot
    confidence
    sampleCount := receipt.sampleCount
    sourceQueue := toBase58 receipt.sourceQueue
    sourceId
    sourceAccount := toBase58 receipt.sourceAccount
    evidenceHash
    finalizedAt }

/-- The `oracle` field of a snapshot. -/
def buildOracleSnapshot (oracle : OracleConfig) (resolver : String) :
    Except String OracleSnapshot := do
  let sourceId ← bytes32 oracle.sourceId.toList "oracle source ID"
  let comparator ← comparatorName (comparatorKeys oracle.comparator)
  let threshold ← integerString oracle.threshold "oracle threshold"
  let observationTs ← integerString oracle.observationTs "oracle observation timestamp"
  let maxStalenessSlots ← integerString oracle.maxStalenessSlots "oracle maximum staleness slots"
  let bondAmount ← integerString oracle.bondAmount "optimistic bond amount"
  let configHash ← bytes32 oracle.configHash.toList "oracle config hash"
  .ok {
    resolver
    sourceProgram := toBase58 oracle.sourceProgram
    sourceQueue := toBase58 oracle.sourceQueue
    sourceId
    comparator
    threshold
    thresholdExponent := oracle.thresholdExponent
    observationTs
    observationWindowSecs := oracle.observationWindowSecs
    maxStalenessSecs := oracle.maxStalenessSecs
    maxStalenessSlots
    maxConfidenceBps := oracle.maxConfidenceBps
    minSamples := oracle.minSamples
    challengePeriodSecs := oracle.challengePeriodSecs
    bondAmount
    configHash
    optimisticProposal := toBase58 oracle.optimisticProposal
    consumed := oracle.consumed }

/-- A part of a snapshot that is null when its account is. -/
def optionally {α β : Type} (build : α → Except String β) : Option α → Except String (Option β)
  | none => .ok none
  | some account => do
    let built ← build account
    .ok (some built)

def buildHybridMarketSnapshot (input : SnapshotInput) : Except String HybridMarketSnapshot := do
  let market := input.market
  require (input.oracle.market = input.address) "Oracle config belongs to a different hybrid market"
  require (input.receipt.all (fun receipt => decide (receipt.market = input.address)) = true)
    "Resolution receipt belongs to a different hybrid market"
  let liquidityParameter ← integerString market.liquidityParameter "liquidity parameter"
  let yesQuantity ← integerString market.yesQuantity "YES quantity"
  let noQuantity ← integerString market.noQuantity "NO quantity"
  let phase ← hybridPhaseName (phaseKeys market.phase)
  let lockTs ← safeInteger market.lockTs "lock timestamp"
  let resolver ← oracleResolverName (resolverKeys input.oracle.resolver)
  let marketId ← integerString market.marketId "market ID"
  let category ← enumName (categoryKeys market.category) categoryNames "market category"
  let tradingMode ← enumName (tradingModeKeys market.tradingMode) tradingModeNames
    "hybrid trading mode"
  let pricingModel ← enumName pricingModelKeys [("lmsr", "lmsr")] "pricing model"
  let questionHash ← bytes32 market.questionHash.toList "question hash"
  let rulesHash ← bytes32 market.rulesHash.toList "rules hash"
  let outcomeLabelsHash ← bytes32 market.outcomeLabelsHash.toList "outcome labels hash"
  let initialSubsidy ← integerString market.initialSubsidy "initial subsidy"
  let roundingReserve ← integerString market.roundingReserve "rounding reserve"
  let maxTradeShares ← integerString market.maxTradeShares "maximum trade shares"
  let resolverSecurityCap ← integerString market.resolverSecurityCap "resolver security cap"
  let yesProbabilityPpm ← lmsrYesProbability ⟨market.yesQuantity, market.noQuantity⟩
    market.liquidityParameter
  let openTs ← integerString market.openTs "open timestamp"
  let resolveNotBeforeTs ← integerString market.resolveNotBeforeTs "resolution start timestamp"
  let resolutionDeadlineTs ← integerString market.resolutionDeadlineTs "resolution deadline"
  let outcome ← outcomeName market.outcome
  let tradeCount ← integerString market.tradeCount "trade count"
  let volume ← integerString market.volume "volume"
  let treasuryFees ← integerString market.treasuryFees "treasury fees"
  let liquidityFees ← integerString market.liquidityFees "liquidity fees"
  let outstandingLiability ← integerString market.outstandingLiability "outstanding liability"
  let redeemedLiability ← integerString market.redeemedLiability "redeemed liability"
  let settledAt ← integerString market.settledAt "settlement timestamp"
  let settlementEvidenceHash ← bytes32 market.settlementEvidenceHash.toList
    "market settlement evidence hash"
  let oracle ← buildOracleSnapshot toBase58 input.oracle resolver
  let receipt ← optionally (buildResolutionReceiptSnapshot toBase58) input.receipt
  let metadata ← optionally
    (fun metadata => buildMetadataSnapshot sha256 toBase58 metadata market input.address)
    input.metadata
  .ok {
    address := toBase58 input.address
    marketId
    creator := toBase58 market.creator
    liquidityOwner := toBase58 market.liquidityOwner
    category
    tradingMode
    pricingModel
    questionHash
    rulesHash
    outcomeLabelsHash
    collateralMint := toBase58 market.collateralMint
    treasuryOwner := toBase58 market.treasuryOwner
    oracleConfigAddress := toBase58 market.oracleConfig
    vault := toBase58 input.vault
    vaultBalance := input.vaultBalance.map toString
    liquidityParameter
    initialSubsidy
    roundingReserve
    maxTradeShares
    resolverSecurityCap
    yesQuantity
    noQuantity
    yesProbabilityPpm
    tradeFeeBps := market.tradeFeeBps
    treasuryFeeShareBps := market.treasuryFeeShareBps
    openTs
    lockTs := toString lockTs
    resolveNotBeforeTs
    resolutionDeadlineTs
    phase
    tradingOpen := phase = "open" ∧ input.now < lockTs
    outcome
    tradeCount
    traderCount := input.traderCount
    volume
    treasuryFees
    liquidityFees
    outstandingLiability
    redeemedLiability
    settledAt
    settlementEvidenceHash
    resolver
    oracle
    receipt
    metadata }

end Build

/-! ## A pass -/

/-- The accounts a pass fetches, with their addresses where it reads them. -/
structure ProgramRows where
  publicRows : List (Pubkey × HybridMarket)
  oracleRows : List (Pubkey × OracleConfig)
  receiptRows : List ResolutionReceipt
  metadataRows : List Hybrid.HybridMarketMetadata
  positionRows : List Position
  vaultBalance : Pubkey → Option Nat

/-- What a pass gathers of one market for its snapshot. Of the entries of a map under one key the last
one counts. -/
def snapshotInput (rt : Runtime) (rows : ProgramRows) (now : Int) (publicKey : Pubkey)
    (account : HybridMarket) (oracle : OracleConfig) : SnapshotInput where
  address := publicKey
  vault := hybridVaultPda rt publicKey
  vaultBalance := rows.vaultBalance (hybridVaultPda rt publicKey)
  market := account
  oracle := oracle
  receipt := Keyed.findLast ResolutionReceipt.market rows.receiptRows publicKey
  metadata := Keyed.findLast Hybrid.HybridMarketMetadata.market rows.metadataRows publicKey
  traderCount := rows.positionRows.countP fun position => position.market = publicKey
  now := now

/-- The snapshot a pass takes of one market. -/
def publicMarket (rt : Runtime) (toBase58 : Pubkey → String) (rows : ProgramRows) (now : Int)
    (publicKey : Pubkey) (account : HybridMarket) : Except String HybridMarketSnapshot := do
  let oracle ← okOr (Keyed.findLast Prod.fst rows.oracleRows account.oracleConfig)
    ("Missing oracle config for " ++ toBase58 publicKey)
  buildHybridMarketSnapshot rt.sha256 toBase58
    (snapshotInput rt rows now publicKey account oracle.2)

/-- The `publicMarkets` of a pass: one throw ends it. -/
def publicMarkets (rt : Runtime) (toBase58 : Pubkey → String) (rows : ProgramRows) (now : Int) :
    Except String (List HybridMarketSnapshot) :=
  rows.publicRows.mapM fun row => publicMarket rt toBase58 rows now row.1 row.2

end Nortia.Services
