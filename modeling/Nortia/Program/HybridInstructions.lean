import Nortia.Program.Committee
import Nortia.Program.Hybrid

/-!
# `lib.rs`: the hybrid instructions

A hybrid market with its accounts is one state; an instruction maps it to the next state or
fails and leaves no trace. Accounts at derived addresses are fields of the state, so the seed
constraints hold by construction; the accounts a caller chooses are arguments, checked as the
source's `#[derive(Accounts)]` structs check them. Events and rent are left out.
-/

namespace Nortia.Hybrid

open Lib

/-- A hybrid market, the accounts derived from it and the token accounts it moves tokens among. -/
structure HybridState where
  market : HybridMarket
  oracle : OracleConfig
  proposal : Option OptimisticProposal
  receipt : Option ResolutionReceipt
  positions : Tally.Table Pubkey Position
  vault : Nat
  bondVault : Nat
  tokens : Tokens

/-! ## Derived addresses -/

def hybridMarketKey (rt : Runtime) (creator : Pubkey) (marketId : Nat) : Pubkey :=
  rt.findProgramAddress [hybridMarketSeed, creator.toList, leBytes 8 marketId] crateId

def oracleConfigKey (rt : Runtime) (marketKey : Pubkey) : Pubkey :=
  rt.findProgramAddress [oracleConfigSeed, marketKey.toList] crateId

def optimisticProposalKey (rt : Runtime) (marketKey : Pubkey) : Pubkey :=
  rt.findProgramAddress [optimisticProposalSeed, marketKey.toList] crateId

namespace HybridState

def marketKey (rt : Runtime) (s : HybridState) : Pubkey :=
  hybridMarketKey rt s.market.creator s.market.marketId

def proposalKey (rt : Runtime) (s : HybridState) : Pubkey :=
  optimisticProposalKey rt (s.marketKey rt)

end HybridState

/-! ## Creation -/

/-- The checks of `initialize_hybrid_market` on its arguments. -/
def validMarketArgs (args : InitializeHybridMarketArgs) (now : Int) : Prop :=
  0 < args.marketId ∧ args.questionHash ≠ zeroBytes ∧ args.rulesHash ≠ zeroBytes ∧
    args.outcomeLabelsHash ≠ zeroBytes ∧ args.tradingMode = .continuous ∧
    hybridRoundingReserve ≤ args.roundingReserve ∧
    Lmsr.minTradeShares ≤ args.maxTradeShares ∧ args.maxTradeShares ≤ Lmsr.maxTradeShares ∧
    args.tradeFeeBps ≤ Lmsr.maxTradingFeeBps ∧ now < args.lockTs ∧
    args.lockTs ≤ args.resolveNotBeforeTs ∧ args.resolveNotBeforeTs < args.resolutionDeadlineTs

instance (args : InitializeHybridMarketArgs) (now : Int) : Decidable (validMarketArgs args now) :=
  inferInstanceAs (Decidable (_ ∧ _))

def newHybridMarket (rt : Runtime) (engine : EngineConfig) (creator : Pubkey)
    (args : InitializeHybridMarketArgs) (now : Int) (initialSubsidy resolverSecurityCap : Nat) :
    HybridMarket where
  marketId := args.marketId
  creator := creator
  liquidityOwner := creator
  category := args.category
  tradingMode := args.tradingMode
  questionHash := args.questionHash
  rulesHash := args.rulesHash
  outcomeLabelsHash := args.outcomeLabelsHash
  collateralMint := engine.collateralMint
  treasuryOwner := engine.treasuryOwner
  oracleConfig := oracleConfigKey rt (hybridMarketKey rt creator args.marketId)
  liquidityParameter := args.liquidityParameter
  initialSubsidy := initialSubsidy
  roundingReserve := args.roundingReserve
  maxTradeShares := args.maxTradeShares
  resolverSecurityCap := resolverSecurityCap
  yesQuantity := 0
  noQuantity := 0
  tradeFeeBps := args.tradeFeeBps
  treasuryFeeShareBps := engine.treasuryFeeShareBps
  openTs := now
  lockTs := args.lockTs
  resolveNotBeforeTs := args.resolveNotBeforeTs
  resolutionDeadlineTs := args.resolutionDeadlineTs
  phase := .open
  outcome := HybridMarket.outcomeUnset
  tradeCount := 0
  volume := 0
  treasuryFees := 0
  liquidityFees := 0
  outstandingLiability := 0
  redeemedLiability := 0
  settledAt := 0
  settlementEvidenceHash := zeroBytes

def newOracleConfig (market : Pubkey) (args : OracleConfigArgs) : OracleConfig where
  market := market
  resolver := args.resolver
  sourceProgram := args.sourceProgram
  sourceQueue := args.sourceQueue
  sourceId := args.sourceId
  comparator := args.comparator
  threshold := args.threshold
  thresholdExponent := args.thresholdExponent
  observationTs := args.observationTs
  observationWindowSecs := args.observationWindowSecs
  maxStalenessSecs := args.maxStalenessSecs
  maxStalenessSlots := args.maxStalenessSlots
  maxConfidenceBps := args.maxConfidenceBps
  minSamples := args.minSamples
  challengePeriodSecs := args.challengePeriodSecs
  bondAmount := args.bondAmount
  configHash := args.configHash
  optimisticProposal := Pubkey.default
  consumed := false

def initializeHybridMarket (rt : Runtime) (engine : EngineConfig) (tokens : Tokens)
    (creator creatorToken : Pubkey) (args : InitializeHybridMarketArgs) (now : Int) :
    Except Failure HybridState := do
  checkTokenAccount (tokens creatorToken) creator engine.collateralMint
  check (engine.paused = false) .invalidPhase
  check (validMarketArgs args now) .invalidMarketConfiguration
  validateOracleConfig args.category args.oracle args.resolveNotBeforeTs
  let initialSubsidy ←
    (Lmsr.requiredSubsidy args.liquidityParameter args.roundingReserve).mapError
      fun _ => .nortia .invalidLmsrState
  let resolverSecurityCap ← resolverSecurityCap args.oracle initialSubsidy
  let balances ← transferToVault tokens creatorToken 0 initialSubsidy
  .ok {
    market := newHybridMarket rt engine creator args now initialSubsidy resolverSecurityCap
    oracle := newOracleConfig (hybridMarketKey rt creator args.marketId) args.oracle
    proposal := none
    receipt := none
    positions := ∅
    vault := balances.vault
    bondVault := 0
    tokens := balances.tokens }

def initializePosition (rt : Runtime) (s : HybridState) (owner : Pubkey) :
    Except Failure HybridState := do
  require (s.positions.lookup owner = none) .accountInUse
  check (s.market.phase = .open) .invalidPhase
  let position : Position := {
    market := s.marketKey rt
    owner
    yesShares := 0
    noShares := 0
    totalSpent := 0
    totalProceeds := 0
    settledAmount := 0
    settled := false }
  .ok { s with positions := s.positions.insert owner position }

/-! ## Trading -/

/-- The accounts a trader chooses. -/
structure TradeAccounts where
  owner : Pubkey
  ownerToken : Pubkey
  treasuryToken : Pubkey
  liquidityToken : Pubkey

/-- The constraints of `TradeHybridShares`, which yield the trader's position. -/
def tradePosition (s : HybridState) (accounts : TradeAccounts) : Except Failure Position := do
  check (s.market.treasuryOwner = (s.tokens accounts.treasuryToken).owner) .invalidTreasury
  check (s.market.liquidityOwner = (s.tokens accounts.liquidityToken).owner) .invalidTokenAccount
  let position ← okOr (s.positions.lookup accounts.owner) .accountNotInitialized
  check (position.settled = false) .positionAlreadySettled
  checkTokenAccount (s.tokens accounts.ownerToken) accounts.owner s.market.collateralMint
  check ((s.tokens accounts.treasuryToken).mint = s.market.collateralMint) .invalidTreasury
  check ((s.tokens accounts.liquidityToken).mint = s.market.collateralMint) .invalidTokenAccount
  .ok position

def buyHybridShares (s : HybridState) (accounts : TradeAccounts) (args : TradeSharesArgs)
    (now : Int) : Except Failure HybridState := do
  let position ← tradePosition s accounts
  validateHybridTrade s.market args now
  let side ← lmsrSide args.side
  let quote ← (Lmsr.quoteBuy (lmsrQuantities s.market) s.market.liquidityParameter side args.shares
    s.market.tradeFeeBps).mapError fun _ => .nortia .invalidLmsrState
  check (quote.totalAmount ≤ args.amountGuard) .priceGuardExceeded
  let fees ← splitHybridFee quote.feeAmount s.market.treasuryFeeShareBps
  let projectedVault ← orFail (checkedAdd u64Max s.vault quote.rawAmount) .arithmeticOverflow
  check (max quote.after.yes quote.after.no ≤ projectedVault) .insolventMarket
  validateResolverSecurityCap s.market.resolverSecurityCap quote.after
  let position ← applyPositionBuy position side quote
  let market ← applyMarketTrade s.market quote fees.1 fees.2
  let balances ← transferToVault s.tokens accounts.ownerToken s.vault quote.rawAmount
  let transfers ← coalesceHybridFeeTransfers accounts.treasuryToken fees.1
    accounts.liquidityToken fees.2
  let tokens ← transferFromOwner balances.tokens accounts.ownerToken accounts.treasuryToken
    transfers.1
  let tokens ← transferFromOwner tokens accounts.ownerToken accounts.liquidityToken transfers.2
  .ok { s with
    market
    positions := s.positions.insert accounts.owner position
    vault := balances.vault
    tokens }

def sellHybridShares (s : HybridState) (accounts : TradeAccounts) (args : TradeSharesArgs)
    (now : Int) : Except Failure HybridState := do
  let position ← tradePosition s accounts
  validateHybridTrade s.market args now
  let side ← lmsrSide args.side
  check (args.shares ≤ positionShares position side) .insufficientPosition
  let quote ← (Lmsr.quoteSell (lmsrQuantities s.market) s.market.liquidityParameter side
    args.shares s.market.tradeFeeBps).mapError fun _ => .nortia .invalidLmsrState
  check (args.amountGuard ≤ quote.totalAmount) .priceGuardExceeded
  let fees ← splitHybridFee quote.feeAmount s.market.treasuryFeeShareBps
  let projectedVault ← orFail (checkedSub s.vault quote.rawAmount) .insufficientVaultBalance
  check (max quote.after.yes quote.after.no ≤ projectedVault) .insolventMarket
  let position ← applyPositionSell position side quote
  let market ← applyMarketTrade s.market quote fees.1 fees.2
  let transfers ← coalesceHybridFeeTransfers accounts.treasuryToken fees.1
    accounts.liquidityToken fees.2
  let balances ← transferFromHybridVault s.vault { tokens := s.tokens, vault := s.vault }
    accounts.ownerToken quote.totalAmount
  let balances ← transferFromHybridVault s.vault balances accounts.treasuryToken transfers.1
  let balances ← transferFromHybridVault s.vault balances accounts.liquidityToken transfers.2
  .ok { s with
    market
    positions := s.positions.insert accounts.owner position
    vault := balances.vault
    tokens := balances.tokens }

def lockHybridMarket (s : HybridState) (now : Int) : Except Failure HybridState := do
  check (s.market.phase = .open) .invalidPhase
  check (s.market.lockTs ≤ now) .tooEarly
  .ok { s with market := { s.market with phase := .locked } }

/-! ## Resolution by an oracle -/

/-- The accounts every resolution needs: an unused configuration and no receipt yet. -/
def resolutionAccounts (s : HybridState) : Except Failure Unit := do
  check (s.oracle.consumed = false) .resolutionReplay
  require (s.receipt.isNone = true) .accountInUse

/-- The accounts of a resolution by the oracle of one kind. -/
def resolverAccounts (s : HybridState) (resolver : OracleResolver) : Except Failure Unit := do
  check (s.oracle.resolver = resolver) .invalidOracleConfiguration
  resolutionAccounts s

/-- Runs the finaliser on the accounts of the state. -/
def finalizeWith (s : HybridState) (args : FinalizeHybridResolutionArgs) :
    Except Failure HybridState := do
  let done ← finalizeHybridResolution s.market s.oracle args
  .ok { s with market := done.market, oracle := done.oracle, receipt := some done.receipt }

def pythEvidenceHash (rt : Runtime) (s : HybridState) (priceUpdate : AccountInfo)
    (validated : Oracles.ValidatedPythUpdate) : Bytes32 :=
  rt.hashv [asciiBytes "nortia-pyth-resolution".toList, (s.marketKey rt).toList,
    s.oracle.configHash.toList, s.oracle.sourceId.toList, priceUpdate.key.toList,
    validated.update.writeAuthority.toList, leBytesInt 16 validated.observation.value,
    leBytesInt 4 validated.observation.exponent, leBytesInt 8 validated.observation.timestamp,
    leBytesInt 8 validated.update.priceMessage.prevPublishTime,
    leBytes 8 validated.observation.confidence,
    leBytesInt 8 validated.update.priceMessage.emaPrice,
    leBytes 8 validated.update.priceMessage.emaConf, leBytes 8 validated.update.postedSlot]

def resolveHybridWithPyth (rt : Runtime) (s : HybridState) (priceUpdate : AccountInfo)
    (clock : Clock) : Except Failure HybridState := do
  resolverAccounts s .pythPrice
  let validated ← Oracles.validatePythAccount rt priceUpdate s.oracle clock
  finalizeWith s {
    sourceAccount := priceUpdate.key
    observation := validated.observation
    evidenceHash := pythEvidenceHash rt s priceUpdate validated
    now := clock.unixTimestamp
    vaultBalance := s.vault
    timeout := false }

def storkEvidenceHash (rt : Runtime) (s : HybridState) (feedAccount : AccountInfo)
    (observation : NormalizedObservation) : Bytes32 :=
  rt.hashv [asciiBytes "nortia-stork-resolution".toList, (s.marketKey rt).toList,
    s.oracle.configHash.toList, s.oracle.sourceId.toList, feedAccount.key.toList,
    leBytesInt 16 observation.value, leBytesInt 4 observation.exponent,
    leBytesInt 8 observation.timestamp, feedAccount.data]

def resolveHybridWithStork (rt : Runtime) (s : HybridState) (feedAccount : AccountInfo)
    (clock : Clock) : Except Failure HybridState := do
  resolverAccounts s .storkPrice
  let observation ← Stork.validateStorkAccount rt feedAccount s.oracle clock
  finalizeWith s {
    sourceAccount := feedAccount.key
    observation
    evidenceHash := storkEvidenceHash rt s feedAccount observation
    now := clock.unixTimestamp
    vaultBalance := s.vault
    timeout := false }

/-- The accounts and the payload of a TxLINE resolution, and TxLINE's own program. -/
structure TxlineAccounts where
  payload : Txline.StatValidationInput
  dailyScoresMerkleRoots : AccountInfo
  txlineProgram : AccountInfo
  txline : Txline.TxlineProgram

def txlineEvidenceHash (rt : Runtime) (s : HybridState) (accounts : TxlineAccounts) : Bytes32 :=
  rt.hashv [asciiBytes "nortia-txline-resolution".toList, (s.marketKey rt).toList,
    s.oracle.configHash.toList, s.oracle.sourceId.toList, txlineProgramId.toList,
    accounts.dailyScoresMerkleRoots.key.toList,
    Txline.Borsh.statValidationInput accounts.payload]

def resolveHybridWithTxline (rt : Runtime) (s : HybridState) (accounts : TxlineAccounts)
    (clock : Clock) : Except Failure HybridState := do
  resolverAccounts s .txlineStat
  let observation ← Txline.resolveHybridTotalGoals rt s.market s.oracle accounts.payload
    accounts.dailyScoresMerkleRoots accounts.txlineProgram accounts.txline clock.unixTimestamp
  finalizeWith s {
    sourceAccount := accounts.dailyScoresMerkleRoots.key
    observation
    evidenceHash := txlineEvidenceHash rt s accounts
    now := clock.unixTimestamp
    vaultBalance := s.vault
    timeout := false }

def switchboardEvidenceHash (rt : Runtime) (s : HybridState) (quoteAccount : AccountInfo)
    (observation : NormalizedObservation) : Bytes32 :=
  rt.hashv [asciiBytes "nortia-switchboard-resolution".toList, (s.marketKey rt).toList,
    s.oracle.configHash.toList, s.oracle.sourceQueue.toList, s.oracle.sourceId.toList,
    quoteAccount.key.toList, leBytesInt 16 observation.value,
    leBytesInt 4 observation.exponent, leBytesInt 8 observation.timestamp,
    leBytes 8 observation.slot, leBytes 1 observation.sampleCount, quoteAccount.data]

def resolveHybridWithSwitchboard (rt : Runtime) (s : HybridState) (quoteAccount : AccountInfo)
    (clock : Clock) : Except Failure HybridState := do
  resolverAccounts s .switchboardQuote
  let observation ← Switchboard.validateSwitchboardAccount rt quoteAccount s.oracle clock
  finalizeWith s {
    sourceAccount := quoteAccount.key
    observation
    evidenceHash := switchboardEvidenceHash rt s quoteAccount observation
    now := clock.unixTimestamp
    vaultBalance := s.vault
    timeout := false }

/-! ## Optimistic resolution -/

def newProposal (s : HybridState) (market proposer proposerToken : Pubkey)
    (args : ProposeOptimisticArgs) (now challengeDeadline : Int) : OptimisticProposal where
  market := market
  proposer := proposer
  proposerToken := proposerToken
  proposedOutcome := args.outcome
  assertionHash := args.assertionHash
  assertionEvidenceUri := args.evidenceUri
  proposedAt := now
  challengeDeadline := challengeDeadline
  challenger := Pubkey.default
  challengerToken := Pubkey.default
  challengedOutcome := HybridMarket.outcomeUnset
  challengeHash := zeroBytes
  challengeEvidenceUri := []
  challengedAt := 0
  bondAmount := s.oracle.bondAmount
  proposerPayout := 0
  challengerPayout := 0
  treasuryPayout := 0
  proposerClaimed := false
  challengerClaimed := false
  treasuryClaimed := false
  finalized := false
  winner := Pubkey.default
  decisionHash := zeroBytes

def proposeOptimisticResolution (rt : Runtime) (s : HybridState) (proposer proposerToken : Pubkey)
    (args : ProposeOptimisticArgs) (now : Int) : Except Failure HybridState := do
  check (s.oracle.resolver = .optimistic) .invalidOracleConfiguration
  check (s.oracle.consumed = false) .resolutionReplay
  require (s.proposal.isNone = true) .accountInUse
  checkTokenAccount (s.tokens proposerToken) proposer s.market.collateralMint
  let challengeDeadline ← validateOptimisticProposal rt (s.marketKey rt) s.market s.oracle
    { outcome := args.outcome, hash := args.assertionHash, uri := args.evidenceUri } now
  let balances ← transferToVault s.tokens proposerToken s.bondVault s.oracle.bondAmount
  .ok { s with
    proposal := some
      (newProposal s (s.marketKey rt) proposer proposerToken args now challengeDeadline)
    oracle := { s.oracle with optimisticProposal := s.proposalKey rt }
    market := { s.market with phase := .resolving }
    bondVault := balances.vault
    tokens := balances.tokens }

/-- The accounts of a step on a proposal: the proposal of an unused configuration. -/
def proposalAccounts (rt : Runtime) (s : HybridState) : Except Failure OptimisticProposal := do
  check (s.oracle.optimisticProposal = s.proposalKey rt) .invalidAssertion
  check (s.oracle.consumed = false) .resolutionReplay
  okOr s.proposal .accountNotInitialized

def challengeOptimisticResolution (rt : Runtime) (s : HybridState)
    (challenger challengerToken : Pubkey) (args : ChallengeOptimisticArgs) (now : Int) :
    Except Failure HybridState := do
  let proposal ← proposalAccounts rt s
  checkTokenAccount (s.tokens challengerToken) challenger s.market.collateralMint
  validateOptimisticChallenge rt (s.marketKey rt) s.market proposal challenger
    { outcome := args.outcome, hash := args.challengeHash, uri := args.evidenceUri } now
  let balances ← transferToVault s.tokens challengerToken s.bondVault proposal.bondAmount
  .ok { s with
    proposal := some { proposal with
      challenger
      challengerToken
      challengedOutcome := args.outcome
      challengeHash := args.challengeHash
      challengeEvidenceUri := args.evidenceUri
      challengedAt := now }
    market := { s.market with phase := .disputed }
    bondVault := balances.vault
    tokens := balances.tokens }

def finalizeEvidenceHash (rt : Runtime) (s : HybridState) (proposal : OptimisticProposal)
    (timedOut : Bool) : Bytes32 :=
  rt.hashv [
    asciiBytes (if timedOut then "nortia-optimistic-proposal-timeout"
      else "nortia-optimistic-unchallenged").toList,
    (s.marketKey rt).toList, s.oracle.configHash.toList, (s.proposalKey rt).toList,
    proposal.assertionHash.toList, leBytes 1 proposal.proposedOutcome,
    leBytesInt 8 proposal.proposedAt, leBytesInt 8 proposal.challengeDeadline]

def finalizeOptimisticResolution (rt : Runtime) (s : HybridState) (now : Int) :
    Except Failure HybridState := do
  let proposal ← proposalAccounts rt s
  resolutionAccounts s
  let decision ← optimisticFinalizeOutcome s.market proposal now
  let evidenceHash := finalizeEvidenceHash rt s proposal decision.2
  let s ← finalizeWith s {
    sourceAccount := s.proposalKey rt
    observation := optimisticObservation decision.1 now
    evidenceHash
    now
    vaultBalance := s.vault
    timeout := decision.2 }
  let proposal ← recordOptimisticPayouts proposal proposal.bondAmount 0 0
  .ok { s with
    proposal := some { proposal with
      finalized := true
      winner := if decision.2 then Pubkey.default else proposal.proposer
      decisionHash := evidenceHash } }

def arbitrationEvidenceHash (rt : Runtime) (s : HybridState) (proposal : OptimisticProposal)
    (winner : Pubkey) (args : ArbitrateOptimisticArgs) : Bytes32 :=
  rt.hashv [asciiBytes "nortia-optimistic-arbitration".toList, (s.marketKey rt).toList,
    s.oracle.configHash.toList, (s.proposalKey rt).toList, proposal.assertionHash.toList,
    proposal.challengeHash.toList, args.decisionHash.toList, winner.toList,
    leBytes 1 args.outcome]

/-- Whom a decision pays: the proposer when it confirms the proposal. -/
def disputeWinner (proposal : OptimisticProposal) (outcome : Nat) : Pubkey :=
  if outcome = proposal.proposedOutcome then proposal.proposer else proposal.challenger

def arbitrateOptimisticResolution (rt : Runtime) (s : HybridState) (protocol : ProtocolConfig)
    (remainingAccounts : List AccountInfo) (args : ArbitrateOptimisticArgs) (now : Int) :
    Except Failure HybridState := do
  check (protocol.treasuryOwner = s.market.treasuryOwner) .invalidTreasury
  let proposal ← proposalAccounts rt s
  resolutionAccounts s
  validateOptimisticArbitration s.market proposal args.outcome args.decisionHash now
  verifyCommitteeQuorum protocol.committee remainingAccounts
  let winner := disputeWinner proposal args.outcome
  let payout ← optimisticDisputePayout proposal.bondAmount
  let s ← finalizeWith s {
    sourceAccount := s.proposalKey rt
    observation := optimisticObservation args.outcome now
    evidenceHash := arbitrationEvidenceHash rt s proposal winner args
    now
    vaultBalance := s.vault
    timeout := false }
  let proposal ← recordOptimisticPayouts proposal
    (if winner = proposal.proposer then payout.1 else 0)
    (if winner = proposal.proposer then 0 else payout.1) payout.2
  .ok { s with
    proposal := some { proposal with
      finalized := true
      winner
      decisionHash := args.decisionHash } }

def disputeTimeoutEvidenceHash (rt : Runtime) (s : HybridState) (proposal : OptimisticProposal) :
    Bytes32 :=
  rt.hashv [asciiBytes "nortia-optimistic-dispute-timeout".toList, (s.marketKey rt).toList,
    s.oracle.configHash.toList, (s.proposalKey rt).toList, proposal.assertionHash.toList,
    proposal.challengeHash.toList, leBytesInt 8 s.market.resolutionDeadlineTs]

def timeoutOptimisticDispute (rt : Runtime) (s : HybridState) (now : Int) :
    Except Failure HybridState := do
  let proposal ← proposalAccounts rt s
  resolutionAccounts s
  check (s.market.phase = .disputed ∧ proposal.finalized = false ∧
    proposal.challenger ≠ Pubkey.default ∧ s.market.resolutionDeadlineTs < now) .invalidPhase
  let evidenceHash := disputeTimeoutEvidenceHash rt s proposal
  let s ← finalizeWith s {
    sourceAccount := s.proposalKey rt
    observation := optimisticObservation HybridMarket.outcomeInvalid now
    evidenceHash
    now
    vaultBalance := s.vault
    timeout := true }
  let proposal ← recordOptimisticPayouts proposal proposal.bondAmount proposal.bondAmount 0
  .ok { s with
    proposal := some { proposal with
      finalized := true
      winner := Pubkey.default
      decisionHash := evidenceHash } }

def claimOptimisticBond (s : HybridState) (claimant destination : Pubkey) :
    Except Failure HybridState := do
  let proposal ← okOr s.proposal .accountNotInitialized
  checkTokenAccount (s.tokens destination) claimant s.market.collateralMint
  let claim ← prepareOptimisticBondClaim proposal s.market.treasuryOwner claimant
  let balances ← transferFromHybridVault s.bondVault { tokens := s.tokens, vault := s.bondVault }
    destination claim.1
  .ok { s with
    proposal := some claim.2
    bondVault := balances.vault
    tokens := balances.tokens }

/-! ## Timeout and settlement -/

def oracleTimeoutEvidenceHash (rt : Runtime) (s : HybridState) : Bytes32 :=
  rt.hashv [asciiBytes "nortia-oracle-timeout".toList, (s.marketKey rt).toList,
    s.oracle.configHash.toList, leBytesInt 8 s.market.resolutionDeadlineTs]

def resolveHybridTimeout (rt : Runtime) (s : HybridState) (now : Int) :
    Except Failure HybridState := do
  resolutionAccounts s
  check (s.oracle.optimisticProposal = Pubkey.default) .invalidPhase
  finalizeWith s {
    sourceAccount := Pubkey.default
    observation := {
      outcome := HybridMarket.outcomeInvalid
      value := 0
      exponent := 0
      timestamp := now
      slot := 0
      confidence := 0
      sampleCount := 0 }
    evidenceHash := oracleTimeoutEvidenceHash rt s
    now
    vaultBalance := s.vault
    timeout := true }

def settleHybridPosition (s : HybridState) (owner ownerToken : Pubkey) :
    Except Failure HybridState := do
  let position ← okOr (s.positions.lookup owner) .accountNotInitialized
  checkTokenAccount (s.tokens ownerToken) owner s.market.collateralMint
  check (s.market.phase = .resolved) .invalidPhase
  check (position.settled = false) .positionAlreadySettled
  let amount ← hybridPositionPayout position s.market.outcome
  check (amount ≤ s.market.outstandingLiability) .insolventMarket
  let projectedVault ← orFail (checkedSub s.vault amount) .insufficientVaultBalance
  let redeemedLiability ← orFail (checkedAdd u64Max s.market.redeemedLiability amount)
    .arithmeticOverflow
  let market ← closeHybridMarketIfDrained { s.market with
    outstandingLiability := s.market.outstandingLiability - amount
    redeemedLiability } projectedVault
  let balances ← transferFromHybridVault s.vault { tokens := s.tokens, vault := s.vault }
    ownerToken amount
  .ok { s with
    market
    positions := s.positions.insert owner { position with
      settled := true
      settledAmount := amount }
    vault := balances.vault
    tokens := balances.tokens }

def withdrawHybridLiquidity (s : HybridState) (liquidityOwner liquidityToken : Pubkey) :
    Except Failure HybridState := do
  check (s.market.liquidityOwner = liquidityOwner) .invalidTokenAccount
  checkTokenAccount (s.tokens liquidityToken) liquidityOwner s.market.collateralMint
  check (s.market.phase = .resolved) .invalidPhase
  let amount ← orFail (checkedSub s.vault s.market.outstandingLiability) .insolventMarket
  check (0 < amount) .zeroCommitment
  let projectedVault ← orFail (checkedSub s.vault amount) .insufficientVaultBalance
  let market ← closeHybridMarketIfDrained s.market projectedVault
  let balances ← transferFromHybridVault s.vault { tokens := s.tokens, vault := s.vault }
    liquidityToken amount
  .ok { s with
    market
    vault := balances.vault
    tokens := balances.tokens }

end Nortia.Hybrid
