import Nortia.Lib.Tally
import Nortia.Program.Lmsr
import Nortia.Program.Switchboard
import Nortia.Program.Text
import Nortia.Program.Token
import Nortia.Program.Txline

/-!
# `lib.rs`: the helpers of the hybrid instructions

In the order of the source: the shared finaliser, the optimistic checks, creation, trading,
settlement.
-/

namespace Nortia.Hybrid

open Lib

/-! ## Resolution -/

structure FinalizeHybridResolutionArgs where
  sourceAccount : Pubkey
  observation : NormalizedObservation
  evidenceHash : Bytes32
  now : Int
  vaultBalance : Nat
  timeout : Bool

/-- The three accounts `finalize_hybrid_resolution` writes. -/
structure Finalized where
  market : HybridMarket
  oracle : OracleConfig
  receipt : ResolutionReceipt

/-- What an outcome owes to the holder of some YES and NO shares. -/
def sharesOwed (yes no outcome : Nat) : Except Failure Nat :=
  if outcome = HybridMarket.outcomeYes then
    .ok yes
  else if outcome = HybridMarket.outcomeNo then
    .ok no
  else if outcome = HybridMarket.outcomeInvalid then
    orFail ((checkedAdd u64Max yes no).map (· / 2)) .arithmeticOverflow
  else
    .error (.nortia .invalidOutcome)

def hybridMarketLiability (yesQuantity noQuantity outcome : Nat) : Except Failure Nat :=
  sharesOwed yesQuantity noQuantity outcome

/-- The deadline and outcome checks of the two kinds of resolution. -/
def checkResolutionTime (market : HybridMarket) (outcome : Nat) (now : Int) (timeout : Bool) :
    Except Failure Unit :=
  if timeout then do
    check (market.resolutionDeadlineTs < now) .tooEarly
    check (outcome = HybridMarket.outcomeInvalid) .invalidOutcome
  else do
    check (now ≤ market.resolutionDeadlineTs) .deadlineElapsed
    check (outcome = HybridMarket.outcomeYes ∨ outcome = HybridMarket.outcomeNo) .invalidOutcome

def finalizeHybridResolution (market : HybridMarket) (oracle : OracleConfig)
    (args : FinalizeHybridResolutionArgs) : Except Failure Finalized := do
  check (market.phase = .open ∨ market.phase = .locked ∨ market.phase = .resolving ∨
    market.phase = .disputed) .invalidPhase
  check (market.lockTs ≤ args.now) .marketLocked
  check (market.resolveNotBeforeTs ≤ args.now) .marketNotReadyForResolution
  checkResolutionTime market args.observation.outcome args.now args.timeout
  check (oracle.consumed = false) .resolutionReplay
  check (args.evidenceHash ≠ zeroBytes) .zeroCommitment
  let liability ← hybridMarketLiability market.yesQuantity market.noQuantity
    args.observation.outcome
  check (liability ≤ args.vaultBalance) .insolventMarket
  .ok {
    oracle := { oracle with consumed := true }
    market := { market with
      phase := .resolved
      outcome := args.observation.outcome
      outstandingLiability := liability
      settledAt := args.now
      settlementEvidenceHash := args.evidenceHash }
    receipt := {
      market := oracle.market
      resolver := oracle.resolver
      outcome := args.observation.outcome
      observationValue := args.observation.value
      observationExponent := args.observation.exponent
      observationTs := args.observation.timestamp
      observationSlot := args.observation.slot
      confidence := args.observation.confidence
      sampleCount := args.observation.sampleCount
      sourceQueue := oracle.sourceQueue
      sourceId := oracle.sourceId
      sourceAccount := args.sourceAccount
      evidenceHash := args.evidenceHash
      finalizedAt := args.now } }

/-! ## The optimistic resolver -/

structure OptimisticEvidence where
  outcome : Nat
  hash : Bytes32
  uri : List Char

def optimisticEvidenceHash (rt : Runtime) (domain : List UInt8) (market : Pubkey) (outcome : Nat)
    (evidenceUri : List Char) : Bytes32 :=
  rt.hashv [domain, market.toList, leBytes 1 outcome, Text.asBytes evidenceUri]

/-- The length of the scheme of an accepted URI, or zero. -/
def uriPrefixLength (value : List Char) : Nat :=
  if "https://".toList <+: value then 8
  else if "ipfs://".toList <+: value ∨ "ar://".toList <+: value then
    ((Text.find "://".toList value).map (· + 3)).getD 0
  else 0

def validOptimisticEvidenceUri (value : List Char) : Bool :=
  0 < uriPrefixLength value && Text.len value ≤ maxOptimisticEvidenceUriBytes &&
    Text.trim value = value && uriPrefixLength value < Text.len value && Text.isAscii value &&
    !value.any Text.isWhitespace && !value.any Text.isControl

def assertionDomain : List UInt8 := asciiBytes "nortia-optimistic-assertion".toList
def challengeDomain : List UInt8 := asciiBytes "nortia-optimistic-challenge".toList

def validateOptimisticProposal (rt : Runtime) (marketKey : Pubkey) (market : HybridMarket)
    (oracle : OracleConfig) (evidence : OptimisticEvidence) (now : Int) : Except Failure Int := do
  check (market.phase = .open ∨ market.phase = .locked) .invalidPhase
  check (market.lockTs ≤ now ∧ market.resolveNotBeforeTs ≤ now ∧ oracle.observationTs ≤ now ∧
    now ≤ market.resolutionDeadlineTs) .marketNotReadyForResolution
  let observationWindowEnd ← orFail
    (checkedAddInt i64Min i64Max oracle.observationTs oracle.observationWindowSecs)
    .arithmeticOverflow
  check (now ≤ observationWindowEnd) .invalidObservationTime
  check (validOptimisticEvidenceUri evidence.uri = true ∧
    evidence.hash = optimisticEvidenceHash rt assertionDomain marketKey evidence.outcome
      evidence.uri ∧
    (evidence.outcome = HybridMarket.outcomeYes ∨ evidence.outcome = HybridMarket.outcomeNo) ∧
    oracle.optimisticProposal = Pubkey.default ∧ oracle.consumed = false) .invalidAssertion
  let challengeDeadline ← orFail
    (checkedAddInt i64Min i64Max now oracle.challengePeriodSecs) .arithmeticOverflow
  check (challengeDeadline < market.resolutionDeadlineTs) .challengeWindowClosed
  .ok challengeDeadline

def validateOptimisticChallenge (rt : Runtime) (marketKey : Pubkey) (market : HybridMarket)
    (proposal : OptimisticProposal) (challenger : Pubkey) (evidence : OptimisticEvidence)
    (now : Int) : Except Failure Unit := do
  check (market.phase = .resolving ∧ proposal.finalized = false) .invalidPhase
  check (now ≤ proposal.challengeDeadline) .challengeWindowClosed
  check (proposal.challenger = Pubkey.default ∧ challenger ≠ proposal.proposer ∧
    evidence.outcome ≠ proposal.proposedOutcome ∧
    (evidence.outcome = HybridMarket.outcomeYes ∨ evidence.outcome = HybridMarket.outcomeNo) ∧
    validOptimisticEvidenceUri evidence.uri = true ∧
    evidence.hash = optimisticEvidenceHash rt challengeDomain marketKey evidence.outcome
      evidence.uri) .invalidAssertion

/-- The outcome of an unchallenged proposal, and whether it timed out. -/
def optimisticFinalizeOutcome (market : HybridMarket) (proposal : OptimisticProposal)
    (now : Int) : Except Failure (Nat × Bool) := do
  check (market.phase = .resolving ∧ proposal.finalized = false ∧
    proposal.challenger = Pubkey.default) .invalidPhase
  if market.resolutionDeadlineTs < now then
    .ok (HybridMarket.outcomeInvalid, true)
  else do
    check (proposal.challengeDeadline < now) .challengeWindowClosed
    .ok (proposal.proposedOutcome, false)

def validateOptimisticArbitration (market : HybridMarket) (proposal : OptimisticProposal)
    (outcome : Nat) (decisionHash : Bytes32) (now : Int) : Except Failure Unit := do
  check (market.phase = .disputed ∧ proposal.finalized = false ∧
    proposal.challenger ≠ Pubkey.default ∧ now ≤ market.resolutionDeadlineTs) .invalidPhase
  check (decisionHash ≠ zeroBytes ∧
    (outcome = proposal.proposedOutcome ∨ outcome = proposal.challengedOutcome))
    .invalidDisputeDecision

def optimisticObservation (outcome : Nat) (now : Int) : NormalizedObservation where
  outcome := outcome
  value := outcome
  exponent := 0
  timestamp := now
  slot := 0
  confidence := 0
  sampleCount := 0

/-- The winner's payout of a dispute and the treasury's fee. -/
def optimisticDisputePayout (bondAmount : Nat) : Except Failure (Nat × Nat) := do
  let scaled ← orFail (checkedMul u128Max bondAmount optimisticDisputeFeeBps) .arithmeticOverflow
  let treasuryFee := scaled / feeSplitDenominator
  check (treasuryFee ≤ u64Max) .arithmeticOverflow
  let bonds ← orFail (checkedMul u64Max bondAmount 2) .arithmeticOverflow
  let winnerPayout ← orFail (checkedSub bonds treasuryFee) .arithmeticOverflow
  .ok (winnerPayout, treasuryFee)

/-- The bonds a proposal holds. -/
def depositedBonds (proposal : OptimisticProposal) : Except Failure Nat :=
  if proposal.challenger = Pubkey.default then
    .ok proposal.bondAmount
  else
    orFail (checkedMul u64Max proposal.bondAmount 2) .arithmeticOverflow

def recordOptimisticPayouts (proposal : OptimisticProposal)
    (proposerPayout challengerPayout treasuryPayout : Nat) :
    Except Failure OptimisticProposal := do
  check (proposal.finalized = false ∧ proposal.proposerPayout = 0 ∧
    proposal.challengerPayout = 0 ∧ proposal.treasuryPayout = 0 ∧
    proposal.proposerClaimed = false ∧ proposal.challengerClaimed = false ∧
    proposal.treasuryClaimed = false) .invalidPhase
  let deposited ← depositedBonds proposal
  let parties ← orFail (checkedAdd u64Max proposerPayout challengerPayout) .arithmeticOverflow
  let recordedPayouts ← orFail (checkedAdd u64Max parties treasuryPayout) .arithmeticOverflow
  check (recordedPayouts = deposited) .invalidDisputeDecision
  .ok { proposal with proposerPayout, challengerPayout, treasuryPayout }

/-- One party's share of a claim: its recorded payout when it may still claim it. -/
def claimShare (claims : Bool) (payout amount : Nat) : Except Failure Nat :=
  if claims then orFail (checkedAdd u64Max amount payout) .arithmeticOverflow else .ok amount

/-- The amount a claimant is paid and the proposal after the claim. -/
def prepareOptimisticBondClaim (proposal : OptimisticProposal) (treasuryOwner claimant : Pubkey) :
    Except Failure (Nat × OptimisticProposal) := do
  check (proposal.finalized = true) .invalidPhase
  let claimProposer : Bool := claimant = proposal.proposer ∧ 0 < proposal.proposerPayout ∧
    proposal.proposerClaimed = false
  let claimChallenger : Bool := claimant = proposal.challenger ∧ 0 < proposal.challengerPayout ∧
    proposal.challengerClaimed = false
  let claimTreasury : Bool := claimant = treasuryOwner ∧ 0 < proposal.treasuryPayout ∧
    proposal.treasuryClaimed = false
  let amount ← claimShare claimProposer proposal.proposerPayout 0
  let amount ← claimShare claimChallenger proposal.challengerPayout amount
  let amount ← claimShare claimTreasury proposal.treasuryPayout amount
  check (0 < amount) .noOptimisticBondPayout
  .ok (amount, { proposal with
    proposerClaimed := proposal.proposerClaimed || claimProposer
    challengerClaimed := proposal.challengerClaimed || claimChallenger
    treasuryClaimed := proposal.treasuryClaimed || claimTreasury })

/-! ## Creation -/

/-- The fields a resolver admits. -/
def validateResolverFields (category : MarketCategory) (args : OracleConfigArgs) :
    Except Failure Unit :=
  match args.resolver with
  | .txlineStat =>
    check (category = .sports ∧ args.sourceProgram = txlineProgramId ∧
      args.sourceQueue = Pubkey.default ∧ args.thresholdExponent = 0 ∧
      (i32Min ≤ args.threshold ∧ args.threshold ≤ i32Max) ∧ 0 < args.maxStalenessSecs ∧
      args.maxStalenessSlots = 0 ∧ args.bondAmount = 0 ∧
      (Txline.fixtureIdFromSourceId args.sourceId).toBool = true) .invalidOracleConfiguration
  | .pythPrice =>
    check ((category = .crypto ∨ category = .economics) ∧
      (args.sourceProgram = pythReceiverProgramId ∨
        args.sourceProgram = pythPushOracleProgramId) ∧
      args.sourceQueue = Pubkey.default ∧
      (-18 ≤ args.thresholdExponent ∧ args.thresholdExponent ≤ 18) ∧ 0 < args.maxStalenessSecs ∧
      args.maxStalenessSlots = 0 ∧ 0 < args.maxConfidenceBps ∧
      args.maxConfidenceBps ≤ feeSplitDenominator ∧ args.bondAmount = 0)
      .invalidOracleConfiguration
  | .storkPrice =>
    check ((category = .crypto ∨ category = .economics) ∧
      args.sourceProgram = storkOracleProgramId ∧ args.sourceQueue = Pubkey.default ∧
      (-18 ≤ args.thresholdExponent ∧ args.thresholdExponent ≤ 18) ∧ 0 < args.maxStalenessSecs ∧
      args.maxStalenessSlots = 0 ∧ args.maxConfidenceBps = 0 ∧ args.minSamples = 0 ∧
      args.challengePeriodSecs = 0 ∧ args.bondAmount = 0) .invalidOracleConfiguration
  | .switchboardQuote =>
    check (category ≠ .sports ∧ category ≠ .crypto ∧
      args.sourceProgram = switchboardQuoteProgramId ∧
      args.sourceQueue = switchboardDevnetQueue ∧
      (-18 ≤ args.thresholdExponent ∧ args.thresholdExponent ≤ 18) ∧ args.maxStalenessSecs = 0 ∧
      0 < args.maxStalenessSlots ∧ args.maxConfidenceBps = 0 ∧
      (2 ≤ args.minSamples ∧ args.minSamples ≤ 8) ∧ args.bondAmount = 0)
      .invalidOracleConfiguration
  | .optimistic =>
    check (category ≠ .sports ∧ category ≠ .crypto ∧ args.sourceProgram = crateId ∧
      args.sourceQueue = Pubkey.default ∧ args.threshold = 0 ∧ args.thresholdExponent = 0 ∧
      args.maxStalenessSecs = 0 ∧ args.maxStalenessSlots = 0 ∧ args.maxConfidenceBps = 0 ∧
      args.minSamples = 0 ∧ 3600 ≤ args.challengePeriodSecs ∧
      minOptimisticBond ≤ args.bondAmount) .invalidOracleConfiguration
  | .umaWormhole | .chainlinkReport => .error (.nortia .resolverNotEnabled)

def validateOracleConfig (category : MarketCategory) (args : OracleConfigArgs)
    (resolveNotBeforeTs : Int) : Except Failure Unit := do
  check (args.sourceId ≠ zeroBytes ∧ args.configHash ≠ zeroBytes ∧
    resolveNotBeforeTs ≤ args.observationTs ∧ 0 < args.observationWindowSecs)
    .invalidOracleConfiguration
  validateResolverFields category args

/-- The most outcome shares a resolver secures. -/
def resolverSecurityCap (args : OracleConfigArgs) (initialSubsidy : Nat) : Except Failure Nat :=
  if args.resolver = .optimistic then do
    check (initialSubsidy ≤ args.bondAmount) .invalidOracleConfiguration
    .ok args.bondAmount
  else
    .ok u64Max

/-! ## Trading -/

def validateHybridTrade (market : HybridMarket) (args : TradeSharesArgs) (now : Int) :
    Except Failure Unit := do
  check (market.phase = .open) .invalidPhase
  check (now < market.lockTs) .marketLocked
  check (now ≤ args.deadlineTs) .tradeDeadlineElapsed
  check (Lmsr.minTradeShares ≤ args.shares ∧ args.shares ≤ market.maxTradeShares)
    .invalidLmsrState

def lmsrSide (side : Nat) : Except Failure Lmsr.OutcomeSide :=
  if side = 0 then .ok .no
  else if side = 1 then .ok .yes
  else .error (.nortia .invalidOutcome)

def lmsrQuantities (market : HybridMarket) : Lmsr.MarketQuantities where
  yes := market.yesQuantity
  no := market.noQuantity

def validateResolverSecurityCap (securityCap : Nat) (quantities : Lmsr.MarketQuantities) :
    Except Failure Unit :=
  check (max quantities.yes quantities.no ≤ securityCap) .resolverSecurityCapExceeded

def positionShares (position : Position) : Lmsr.OutcomeSide → Nat
  | .yes => position.yesShares
  | .no => position.noShares

/-- The treasury's and the liquidity owner's part of a fee. -/
def splitHybridFee (fee treasuryShareBps : Nat) : Except Failure (Nat × Nat) := do
  check (treasuryShareBps < feeSplitDenominator) .invalidProtocolFee
  let scaled ← orFail (checkedMul u128Max fee treasuryShareBps) .arithmeticOverflow
  let treasury := scaled / feeSplitDenominator
  check (treasury ≤ u64Max) .arithmeticOverflow
  let liquidity ← orFail (checkedSub fee treasury) .arithmeticOverflow
  .ok (treasury, liquidity)

def coalesceHybridFeeTransfers (treasuryToken : Pubkey) (treasuryFee : Nat)
    (liquidityToken : Pubkey) (liquidityFee : Nat) : Except Failure (Nat × Nat) :=
  if treasuryToken ≠ liquidityToken then
    .ok (treasuryFee, liquidityFee)
  else do
    let fee ← orFail (checkedAdd u64Max treasuryFee liquidityFee) .arithmeticOverflow
    .ok (fee, 0)

/-- The shares of one side after a buy. -/
def addShares (position : Position) (side : Lmsr.OutcomeSide) (shares : Nat) :
    Except Failure Position :=
  match side with
  | .yes => do
    let yesShares ← orFail (checkedAdd u64Max position.yesShares shares) .arithmeticOverflow
    .ok { position with yesShares }
  | .no => do
    let noShares ← orFail (checkedAdd u64Max position.noShares shares) .arithmeticOverflow
    .ok { position with noShares }

/-- The shares of one side after a sell. -/
def removeShares (position : Position) (side : Lmsr.OutcomeSide) (shares : Nat) :
    Except Failure Position :=
  match side with
  | .yes => do
    let yesShares ← orFail (checkedSub position.yesShares shares) .insufficientPosition
    .ok { position with yesShares }
  | .no => do
    let noShares ← orFail (checkedSub position.noShares shares) .insufficientPosition
    .ok { position with noShares }

def applyPositionBuy (position : Position) (side : Lmsr.OutcomeSide) (quote : Lmsr.TradeQuote) :
    Except Failure Position := do
  let position ← addShares position side quote.shares
  let totalSpent ← orFail (checkedAdd u64Max position.totalSpent quote.totalAmount)
    .arithmeticOverflow
  .ok { position with totalSpent }

def applyPositionSell (position : Position) (side : Lmsr.OutcomeSide) (quote : Lmsr.TradeQuote) :
    Except Failure Position := do
  let position ← removeShares position side quote.shares
  let totalProceeds ← orFail (checkedAdd u64Max position.totalProceeds quote.totalAmount)
    .arithmeticOverflow
  .ok { position with totalProceeds }

def applyMarketTrade (market : HybridMarket) (quote : Lmsr.TradeQuote)
    (treasuryFee liquidityFee : Nat) : Except Failure HybridMarket := do
  let tradeCount ← orFail (checkedAdd u64Max market.tradeCount 1) .arithmeticOverflow
  let volume ← orFail (checkedAdd u64Max market.volume quote.rawAmount) .arithmeticOverflow
  let treasuryFees ← orFail (checkedAdd u64Max market.treasuryFees treasuryFee)
    .arithmeticOverflow
  let liquidityFees ← orFail (checkedAdd u64Max market.liquidityFees liquidityFee)
    .arithmeticOverflow
  .ok { market with
    yesQuantity := quote.after.yes
    noQuantity := quote.after.no
    tradeCount, volume, treasuryFees, liquidityFees }

/-! ## Settlement -/

def hybridPositionPayout (position : Position) (outcome : Nat) : Except Failure Nat :=
  sharesOwed position.yesShares position.noShares outcome

/-- The market after the check, closed once nothing is owed and nothing is left. -/
def closeHybridMarketIfDrained (market : HybridMarket) (projectedVault : Nat) :
    Except Failure HybridMarket := do
  check (market.phase = .resolved ∧ market.outstandingLiability ≤ projectedVault)
    .insolventMarket
  if market.outstandingLiability = 0 ∧ projectedVault = 0 then
    .ok { market with phase := .closed }
  else
    .ok market

end Nortia.Hybrid
