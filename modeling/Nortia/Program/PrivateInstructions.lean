import Nortia.Program.Committee
import Nortia.Program.PrivatePool
import Nortia.Program.Token
import Nortia.Program.Txline
import Nortia.Program.Zk

/-!
# `lib.rs`: the private instructions

A private market with its orders, claims and vault is one state. The orders are listed in the
sequence of their indices. An account that must not exist yet is looked up by what its address is
derived from: an order by its commitment, a claim by its nullifier hash.
-/

namespace Nortia.PrivatePool

open Lib

structure PrivateState where
  market : Market
  orders : List Order
  claims : List Claim
  vault : Nat
  tokens : Tokens

def marketKey (rt : Runtime) (authority : Pubkey) (marketId : Nat) : Pubkey :=
  rt.findProgramAddress [marketSeed, authority.toList, leBytes 8 marketId] crateId

namespace PrivateState

def marketKey (rt : Runtime) (s : PrivateState) : Pubkey :=
  PrivatePool.marketKey rt s.market.authority s.market.marketId

/-- The order account of a commitment. -/
def order? (s : PrivateState) (commitment : Bytes32) : Option Order :=
  s.orders.find? fun order => order.commitment = commitment

/-- The claim account of a nullifier hash. -/
def claim? (s : PrivateState) (nullifierHash : Bytes32) : Option Claim :=
  s.claims.find? fun claim => claim.nullifierHash = nullifierHash

end PrivateState

/-! ## Creation -/

/-- The checks of `initialize_market` on its arguments. -/
def validMarketArgs (args : InitializeMarketArgs) (now : Int) : Prop :=
  0 < args.marketId ∧ args.questionHash ≠ zeroBytes ∧ args.rulesHash ≠ zeroBytes ∧
    args.category = .sports ∧ args.resolverKind = .txlineStat ∧ 0 < args.fixtureId ∧
    (0 ≤ args.totalGoalsThreshold ∧ args.totalGoalsThreshold ≤ maxTotalGoalsThreshold) ∧
    0 < args.fixtureStartTs ∧ now < args.lockTs ∧ args.lockTs < args.batchDeadlineTs ∧
    args.batchDeadlineTs < args.resolutionDeadlineTs ∧
    args.fixtureStartTs < args.resolutionDeadlineTs ∧
    validPrivateStakeAmount args.stakeAmount = true ∧
    (args.marketMode ≠ .live ∨ args.lockTs ≤ args.fixtureStartTs)

instance (args : InitializeMarketArgs) (now : Int) : Decidable (validMarketArgs args now) :=
  inferInstanceAs (Decidable (_ ∧ _))

def newMarket (protocol : ProtocolConfig) (creator : Pubkey) (args : InitializeMarketArgs) :
    Market where
  marketId := args.marketId
  authority := creator
  category := args.category
  resolverKind := args.resolverKind
  questionHash := args.questionHash
  rulesHash := args.rulesHash
  fixtureId := args.fixtureId
  marketMode := args.marketMode
  fixtureStartTs := args.fixtureStartTs
  scoreKeyA := participantOneGoalsKey
  scoreKeyB := participantTwoGoalsKey
  totalGoalsThreshold := args.totalGoalsThreshold
  collateralMint := protocol.collateralMint
  tokenProgram := protocol.tokenProgram
  stakeAmount := args.stakeAmount
  feeBps := protocol.feeBps
  keeperRewardBps := protocol.keeperRewardBps
  treasuryOwner := protocol.treasuryOwner
  txlineProgram := protocol.txlineProgram
  lockTs := args.lockTs
  batchDeadlineTs := args.batchDeadlineTs
  resolutionDeadlineTs := args.resolutionDeadlineTs
  phase := .open
  orderCount := 0
  yesCount := 0
  noCount := 0
  commitmentRoot := zeroBytes
  outcome := Market.outcomeUnset
  committee := protocol.committee
  placementVerifier := protocol.placementVerifier
  redeemVerifier := protocol.redeemVerifier
  grossPool := 0
  protocolFee := 0
  keeperReward := 0
  treasuryFee := 0
  netPool := 0
  payoutAmount := 0
  payoutRemainder := 0
  claimedCount := 0
  refundedCount := 0
  settledAt := 0
  txlineProofTs := 0
  finalSeq := 0
  dailyScoresRoot := Pubkey.default
  settlementEvidenceHash := zeroBytes
  scoreA := 0
  scoreB := 0
  yesAmount := 0
  noAmount := 0

def initializeMarket (protocol : ProtocolConfig) (tokens : Tokens) (creator : Pubkey)
    (collateralMint : Mint) (tokenProgram : Pubkey) (args : InitializeMarketArgs) (now : Int) :
    Except Failure PrivateState := do
  check (protocol.collateralMint = collateralMint.key) .invalidCollateralMint
  check (protocol.tokenProgram = tokenProgram) .invalidTokenAccount
  check (protocol.txlineProgram = txlineProgramId) .invalidTxlineProgram
  check (collateralMint.decimals = usdcDecimals) .invalidCollateralMint
  check (validMarketArgs args now) .invalidMarketConfiguration
  .ok { market := newMarket protocol creator args, orders := [], claims := [], vault := 0, tokens }

/-- A market on which nothing has happened yet, with an empty vault. -/
def marketVerifiersCanSync (market : Market) (vaultAmount : Nat) : Prop :=
  market.phase = .open ∧ market.orderCount = 0 ∧ market.yesCount = 0 ∧ market.noCount = 0 ∧
    market.yesAmount = 0 ∧ market.noAmount = 0 ∧ market.commitmentRoot = zeroBytes ∧
    market.outcome = Market.outcomeUnset ∧ market.grossPool = 0 ∧ market.protocolFee = 0 ∧
    market.keeperReward = 0 ∧ market.treasuryFee = 0 ∧ market.netPool = 0 ∧
    market.payoutAmount = 0 ∧ market.payoutRemainder = 0 ∧ market.claimedCount = 0 ∧
    market.refundedCount = 0 ∧ market.settledAt = 0 ∧ vaultAmount = 0

instance (market : Market) (vaultAmount : Nat) :
    Decidable (marketVerifiersCanSync market vaultAmount) :=
  inferInstanceAs (Decidable (_ ∧ _))

def syncMarketVerifiers (s : PrivateState) (protocol : ProtocolConfig) (authority : Pubkey)
    (now : Int) : Except Failure PrivateState := do
  check (authority = protocol.authority) .unauthorizedProtocolAuthority
  check (s.market.collateralMint = protocol.collateralMint) .invalidCollateralMint
  check (now < s.market.lockTs) .marketLocked
  check (marketVerifiersCanSync s.market s.vault) .marketVerifierRotationLocked
  .ok { s with market := { s.market with
    placementVerifier := protocol.placementVerifier
    redeemVerifier := protocol.redeemVerifier } }

/-! ## Orders -/

/-- The accounts a trader chooses. -/
structure PlaceOrderAccounts where
  payer : Pubkey
  payerToken : Pubkey
  placementVerifier : AccountInfo

def newOrder (rt : PrivateRuntime) (s : PrivateState) (payer : Pubkey) (args : PlaceOrderArgs) :
    Order where
  market := s.marketKey rt.toRuntime
  payer := payer
  orderIndex := s.market.orderCount
  commitment := args.commitment
  shareCommitments := args.shareCommitments
  refunded := false

def placeOrder (rt : PrivateRuntime) (s : PrivateState) (accounts : PlaceOrderAccounts)
    (args : PlaceOrderArgs) (now : Int) : Except Failure PrivateState := do
  checkTokenAccount (s.tokens accounts.payerToken) accounts.payer s.market.collateralMint
  require ((s.order? args.commitment).isNone = true) .accountInUse
  check (s.market.phase = .open) .invalidPhase
  check (now < s.market.lockTs) .marketLocked
  check (args.commitment ≠ zeroBytes) .zeroCommitment
  check (args.shareCommitments.first ≠ zeroBytes ∧ args.shareCommitments.second ≠ zeroBytes ∧
    args.shareCommitments.third ≠ zeroBytes) .zeroCommitment
  Zk.verifyPlace rt s.market accounts.payer args accounts.placementVerifier
  let nextOrderCount ← orFail (checkedAdd u32Max s.market.orderCount 1) .arithmeticOverflow
  let balances ← depositIntoVault s.tokens accounts.payerToken s.vault s.market.stakeAmount
  .ok { s with
    market := { s.market with orderCount := nextOrderCount }
    orders := s.orders ++ [newOrder rt s accounts.payer args]
    vault := balances.vault
    tokens := balances.tokens }

def submitBatch (s : PrivateState) (remainingAccounts : List AccountInfo) (args : SubmitBatchArgs)
    (now : Int) : Except Failure PrivateState := do
  check (s.market.phase = .open) .invalidPhase
  check (s.market.lockTs ≤ now) .tooEarly
  check (now ≤ s.market.batchDeadlineTs) .deadlineElapsed
  check (args.commitmentRoot ≠ zeroBytes) .zeroCommitment
  check (0 < s.market.orderCount) .noOrders
  check (hasMinPrivateSet s.market.orderCount = true) .insufficientPrivacySet
  check (checkedAdd u32Max args.yesCount args.noCount = some s.market.orderCount)
    .batchCountMismatch
  check (hasTwoPrivateSides args.yesCount args.noCount = true) .oneSidedPrivateBatch
  check (validPrivateBatchAmounts s.market.stakeAmount args.yesCount args.noCount args.yesAmount
    args.noAmount = true) .batchAmountMismatch
  verifyCommitteeQuorum s.market.committee remainingAccounts
  .ok { s with market := { s.market with
    commitmentRoot := args.commitmentRoot
    yesCount := args.yesCount
    noCount := args.noCount
    yesAmount := args.yesAmount
    noAmount := args.noAmount
    phase := .batched } }

/-! ## Resolution -/

/-- The accounts and the payload of a resolution, and TxLINE's own program. -/
structure ResolveAccounts where
  keeper : Pubkey
  treasuryToken : Pubkey
  keeperToken : Pubkey
  dailyScoresMerkleRoots : AccountInfo
  txlineProgram : AccountInfo
  txline : Txline.TxlineProgram

def settlementEvidenceHash (rt : Runtime) (payload : Txline.StatValidationInput)
    (dailyScoresRoot : Pubkey) (finalSeq : Nat) : Bytes32 :=
  rt.hashv [Txline.Borsh.statValidationInput payload, dailyScoresRoot.toList, leBytes 4 finalSeq]

/-- The market after its resolution. -/
def resolvedMarket (rt : Runtime) (market : Market) (isOver : Bool)
    (settlement : SettlementAmounts) (payload : Txline.StatValidationInput)
    (dailyScoresRoot : Pubkey) (finalSeq : Nat) (scoreA scoreB now : Int) : Market :=
  { market with
    outcome := isOver.toNat
    grossPool := settlement.grossPool
    protocolFee := settlement.protocolFee
    keeperReward := settlement.keeperReward
    treasuryFee := settlement.treasuryFee
    netPool := settlement.netPool
    payoutAmount := 0
    payoutRemainder := 0
    phase := .resolved
    settledAt := now
    txlineProofTs := payload.ts
    finalSeq
    dailyScoresRoot
    settlementEvidenceHash := settlementEvidenceHash rt payload dailyScoresRoot finalSeq
    scoreA
    scoreB }

/-- The constraints of `ResolveMarket` on the token accounts. -/
def resolveAccounts (s : PrivateState) (accounts : ResolveAccounts) : Except Failure Unit := do
  require (accounts.treasuryToken ≠ accounts.keeperToken) .duplicateMutableAccount
  check (s.market.treasuryOwner = (s.tokens accounts.treasuryToken).owner) .invalidTreasury
  check ((s.tokens accounts.treasuryToken).mint = s.market.collateralMint) .invalidTreasury
  checkTokenAccount (s.tokens accounts.keeperToken) accounts.keeper s.market.collateralMint

def resolveMarket (rt : PrivateRuntime) (s : PrivateState) (accounts : ResolveAccounts)
    (finalSeq : Nat) (payload : Txline.StatValidationInput) (now : Int) :
    Except Failure PrivateState := do
  resolveAccounts s accounts
  check (s.market.phase = .batched) .invalidPhase
  check (now ≤ s.market.resolutionDeadlineTs) .deadlineElapsed
  check (0 < finalSeq) .invalidScorePayload
  let isOver ← Txline.resolveTotalGoalsOver rt.toRuntime s.market payload
    accounts.dailyScoresMerkleRoots accounts.txlineProgram accounts.txline
  let winningAmount := if isOver then s.market.yesAmount else s.market.noAmount
  let grossPool ← orFail (checkedAdd u64Max s.market.yesAmount s.market.noAmount)
    .arithmeticOverflow
  let settlement ← calculateSettlement grossPool winningAmount s.market.feeBps
    s.market.keeperRewardBps
  let escrowedPool ← orFail (checkedMul u64Max s.market.stakeAmount s.market.orderCount)
    .arithmeticOverflow
  check (escrowedPool ≤ s.vault) .insufficientVaultBalance
  let leafA ← okOr payload.stats[0]? .panicked
  let leafB ← okOr payload.stats[1]? .panicked
  let balances ← transferFromVault s.vault { tokens := s.tokens, vault := s.vault }
    accounts.treasuryToken settlement.treasuryFee
  let balances ← transferFromVault s.vault balances accounts.keeperToken settlement.keeperReward
  .ok { s with
    market := resolvedMarket rt.toRuntime s.market isOver settlement payload
      accounts.dailyScoresMerkleRoots.key finalSeq leafA.stat.value leafB.stat.value now
    vault := balances.vault
    tokens := balances.tokens }

/-! ## Refunds -/

/-- Whether the phase's own deadline has passed. -/
def timedOut (market : Market) (now : Int) : Prop :=
  match market.phase with
  | .open => market.batchDeadlineTs < now
  | .batched => market.resolutionDeadlineTs < now
  | _ => False

instance (market : Market) (now : Int) : Decidable (timedOut market now) := by
  unfold timedOut
  split <;> infer_instance

def beginRefund (s : PrivateState) (now : Int) : Except Failure PrivateState := do
  check (timedOut s.market now) .tooEarly
  .ok { s with market := { s.market with
    phase := if s.market.orderCount = 0 then .closed else .refunding } }

/-- The orders with the one of a commitment marked as refunded. -/
def markRefunded (orders : List Order) (commitment : Bytes32) : List Order :=
  orders.map fun order => if order.commitment = commitment then { order with refunded := true }
    else order

def refundOrder (s : PrivateState) (payer payerToken : Pubkey) (commitment : Bytes32) :
    Except Failure PrivateState := do
  let order ← okOr (s.order? commitment) .accountNotInitialized
  check (order.payer = payer) .invalidOrder
  checkTokenAccount (s.tokens payerToken) payer s.market.collateralMint
  check (s.market.phase = .refunding) .invalidPhase
  check (order.refunded = false) .alreadyRefunded
  let refundedCount ← orFail (checkedAdd u32Max s.market.refundedCount 1) .arithmeticOverflow
  let balances ← transferFromVault s.vault { tokens := s.tokens, vault := s.vault } payerToken
    s.market.stakeAmount
  .ok { s with
    market := { s.market with
      refundedCount
      phase := if refundedCount = s.market.orderCount then .closed else s.market.phase }
    orders := markRefunded s.orders commitment
    vault := balances.vault
    tokens := balances.tokens }

/-! ## Redemption -/

/-- The accounts a relayer passes for a recipient. -/
structure RedeemAccounts where
  recipientOwner : Pubkey
  recipientToken : Pubkey
  redeemVerifier : AccountInfo

/-- What a claim pays: the last one also gets the rounding dust, up to its cap. -/
def claimAmount (market : Market) (vault payoutAmount : Nat) : Except Failure Nat :=
  if market.claimedCount + 1 = market.orderCount then do
    let roundingDust ← orFail (checkedSub vault payoutAmount) .arithmeticOverflow
    let roundingDustCap := market.winningCount - 1
    orFail (checkedAdd u64Max payoutAmount (min roundingDust roundingDustCap)) .arithmeticOverflow
  else
    .ok payoutAmount

/-- The transfer of a claim, made only when there is something to pay. -/
def payClaim (s : PrivateState) (recipientToken : Pubkey) (amount : Nat) :
    Except Failure Balances :=
  if 0 < amount then
    transferFromVault s.vault { tokens := s.tokens, vault := s.vault } recipientToken amount
  else
    .ok { tokens := s.tokens, vault := s.vault }

def redeem (rt : PrivateRuntime) (s : PrivateState) (accounts : RedeemAccounts)
    (args : RedeemArgs) : Except Failure PrivateState := do
  require ((s.claim? args.nullifierHash).isNone = true) .accountInUse
  checkTokenAccount (s.tokens accounts.recipientToken) accounts.recipientOwner
    s.market.collateralMint
  check (s.market.phase = .resolved) .invalidPhase
  check (s.market.claimedCount < s.market.orderCount) .allPrivatePositionsSettled
  Zk.verifyRedeem rt s.market accounts.recipientOwner args accounts.redeemVerifier
  check (args.payoutAmount ≤ s.vault) .insufficientVaultBalance
  let amount ← claimAmount s.market s.vault args.payoutAmount
  let claim : Claim := {
    market := s.marketKey rt.toRuntime
    nullifierHash := args.nullifierHash
    recipientOwner := accounts.recipientOwner
    recipientToken := accounts.recipientToken
    amount }
  let claimedCount ← orFail (checkedAdd u32Max s.market.claimedCount 1) .arithmeticOverflow
  let balances ← payClaim s accounts.recipientToken amount
  .ok { s with
    market := { s.market with
      claimedCount
      phase := if claimedCount = s.market.orderCount then .closed else s.market.phase }
    claims := claim :: s.claims
    vault := balances.vault
    tokens := balances.tokens }

end Nortia.PrivatePool
