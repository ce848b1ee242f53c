import Nortia.Verify.Hybrid.Helpers

/-!
# What one step of a hybrid market can do

`step_effect` says it once: a step opens a position, trades, locks, proposes, challenges,
resolves, pays a bond, settles, withdraws, or only moves tokens the market does not count on.
Every invariant of the market is proved by cases on it.
-/

namespace Nortia.Hybrid

open Lib

/-! ## The parts of a market a step may change -/

/-- The market with every field reset that an instruction after its creation may write. -/
def terms (market : HybridMarket) : HybridMarket :=
  { market with
    yesQuantity := 0
    noQuantity := 0
    phase := .open
    outcome := 0
    tradeCount := 0
    volume := 0
    treasuryFees := 0
    liquidityFees := 0
    outstandingLiability := 0
    redeemedLiability := 0
    settledAt := 0
    settlementEvidenceHash := zeroBytes }

/-- The fields that say how far a market has come. -/
structure Life where
  phase : HybridPhase
  outcome : Nat
  outstandingLiability : Nat
  redeemedLiability : Nat
  settledAt : Int
  settlementEvidenceHash : Bytes32

def life (market : HybridMarket) : Life where
  phase := market.phase
  outcome := market.outcome
  outstandingLiability := market.outstandingLiability
  redeemedLiability := market.redeemedLiability
  settledAt := market.settledAt
  settlementEvidenceHash := market.settlementEvidenceHash

/-- Everything but the market account, the positions and the balances stays. -/
structure SameAccounts (s s' : HybridState) : Prop where
  oracle : s'.oracle = s.oracle
  proposal : s'.proposal = s.proposal
  receipt : s'.receipt = s.receipt
  bondVault : s'.bondVault = s.bondVault

/-! ## The effects -/

/-- The owner's first, empty position. -/
structure Opened (s s' : HybridState) (owner : Pubkey) : Prop where
  accounts : SameAccounts s s'
  market : s'.market = s.market
  vault : s'.vault = s.vault
  phase : s.market.phase = .open
  missing : s.positions.lookup owner = none
  position : ∃ p, s'.positions = s.positions.insert owner p ∧ p.yesShares = 0 ∧ p.noShares = 0 ∧
    p.settled = false

/-- A buy or a sell: the position and the market move by the same shares, and the vault by at
least the cost difference. -/
structure Traded (s s' : HybridState) (owner : Pubkey) (now : Int) (p p' : Position) : Prop where
  accounts : SameAccounts s s'
  terms : terms s'.market = terms s.market
  life : life s'.market = life s.market
  phase : s.market.phase = .open
  early : now < s.market.lockTs
  held : s.positions.lookup owner = some p
  positions : s'.positions = s.positions.insert owner p'
  unsettled : p.settled = false
  unsettled' : p'.settled = false
  yes : p'.yesShares + s.market.yesQuantity = p.yesShares + s'.market.yesQuantity
  no : p'.noShares + s.market.noQuantity = p.noShares + s'.market.noQuantity
  bounded : s'.market.yesQuantity ≤ Lmsr.maxOutcomeQuantity ∧
    s'.market.noQuantity ≤ Lmsr.maxOutcomeQuantity
  capped : max s.market.yesQuantity s.market.noQuantity ≤ s.market.resolverSecurityCap →
    max s'.market.yesQuantity s'.market.noQuantity ≤ s.market.resolverSecurityCap
  cost : ∃ before after,
    Lmsr.costFixed (lmsrQuantities s.market) s.market.liquidityParameter = .ok before ∧
    Lmsr.costFixed (lmsrQuantities s'.market) s.market.liquidityParameter = .ok after ∧
    after + s.vault * Lmsr.fixedScale ≤ before + s'.vault * Lmsr.fixedScale

structure Locked (s s' : HybridState) (now : Int) : Prop where
  accounts : SameAccounts s s'
  market : s'.market = { s.market with phase := .locked }
  positions : s'.positions = s.positions
  vault : s'.vault = s.vault
  phase : s.market.phase = .open
  late : s.market.lockTs ≤ now

/-- No party has been paid from the bonds. -/
structure Unpaid (p : OptimisticProposal) : Prop where
  finalized : p.finalized = false
  proposerPayout : p.proposerPayout = 0
  challengerPayout : p.challengerPayout = 0
  treasuryPayout : p.treasuryPayout = 0
  proposerClaimed : p.proposerClaimed = false
  challengerClaimed : p.challengerClaimed = false
  treasuryClaimed : p.treasuryClaimed = false

structure Proposed (rt : Runtime) (s s' : HybridState) (now : Int) : Prop where
  market : s'.market = { s.market with phase := .resolving }
  oracle : s'.oracle = { s.oracle with optimisticProposal := s.proposalKey rt }
  receipt : s'.receipt = s.receipt
  positions : s'.positions = s.positions
  vault : s'.vault = s.vault
  phase : s.market.phase = .open ∨ s.market.phase = .locked
  late : s.market.lockTs ≤ now
  fresh : s.oracle.consumed = false
  optimistic : s.oracle.resolver = .optimistic
  window : s.oracle.observationTs + s.oracle.observationWindowSecs ≤ i64Max
  period : s.oracle.observationTs + s.oracle.challengePeriodSecs < s.market.resolutionDeadlineTs
  proposal : ∃ p, s'.proposal = some p ∧ Unpaid p ∧ p.challenger = Pubkey.default ∧
    s'.bondVault = s.bondVault + p.bondAmount ∧
    (p.bondAmount = 0 ∨ s.bondVault + p.bondAmount ≤ u64Max)

structure Challenged (s s' : HybridState) (challenger : Pubkey) : Prop where
  market : s'.market = { s.market with phase := .disputed }
  oracle : s'.oracle = s.oracle
  receipt : s'.receipt = s.receipt
  positions : s'.positions = s.positions
  vault : s'.vault = s.vault
  phase : s.market.phase = .resolving
  proposal : ∃ p p', s.proposal = some p ∧ s'.proposal = some p' ∧ (Unpaid p → Unpaid p') ∧
    p'.challenger = challenger ∧ p'.bondAmount = p.bondAmount ∧
    s'.bondVault = s.bondVault + p.bondAmount ∧
    (p.bondAmount = 0 ∨ s.bondVault + p.bondAmount ≤ u64Max)

/-- A resolution, by whichever instruction. -/
structure Resolved (s s' : HybridState) (outcome : Nat) (now : Int) (timeout : Bool) : Prop where
  ready : Resolvable s.market outcome now timeout
  decided : Decided outcome
  fresh : s.oracle.consumed = false
  covered : owed s.market.yesQuantity s.market.noQuantity outcome ≤ s.vault
  market : ∃ digest, s'.market = { s.market with
    phase := .resolved
    outcome
    outstandingLiability := owed s.market.yesQuantity s.market.noQuantity outcome
    settledAt := now
    settlementEvidenceHash := digest }
  oracle : s'.oracle = { s.oracle with consumed := true }
  receipt : s'.receipt.isSome = true
  positions : s'.positions = s.positions
  vault : s'.vault = s.vault
  bondVault : s'.bondVault = s.bondVault

structure BondClaimed (s s' : HybridState) : Prop where
  market : s'.market = s.market
  oracle : s'.oracle = s.oracle
  receipt : s'.receipt = s.receipt
  positions : s'.positions = s.positions
  vault : s'.vault = s.vault
  bondVault : s'.bondVault ≤ s.bondVault
  finalized : ∃ p, s.proposal = some p ∧ p.finalized = true

/-- One position is paid what the outcome owes it. -/
structure Settled (s s' : HybridState) (owner ownerToken : Pubkey) (p : Position) : Prop where
  accounts : SameAccounts s s'
  phase : s.market.phase = .resolved
  held : s.positions.lookup owner = some p
  unsettled : p.settled = false
  liability : owed p.yesShares p.noShares s.market.outcome ≤ s.market.outstandingLiability
  positions : s'.positions = s.positions.insert owner { p with
    settled := true
    settledAmount := owed p.yesShares p.noShares s.market.outcome }
  vault : s'.vault + owed p.yesShares p.noShares s.market.outcome = s.vault
  solvent : s'.market.outstandingLiability ≤ s'.vault
  market : s'.market = { s.market with
    phase := if s'.market.outstandingLiability = 0 ∧ s'.vault = 0 then .closed else .resolved
    outstandingLiability :=
      s.market.outstandingLiability - owed p.yesShares p.noShares s.market.outcome
    redeemedLiability :=
      s.market.redeemedLiability + owed p.yesShares p.noShares s.market.outcome }
  paid : (s'.tokens ownerToken).amount =
    (s.tokens ownerToken).amount + owed p.yesShares p.noShares s.market.outcome

structure Withdrew (s s' : HybridState) : Prop where
  accounts : SameAccounts s s'
  phase : s.market.phase = .resolved
  solvent : s.market.outstandingLiability < s.vault
  positions : s'.positions = s.positions
  vault : s'.vault = s.market.outstandingLiability
  market : s'.market = { s.market with
    phase := if s.market.outstandingLiability = 0 then .closed else .resolved }

/-- Only deposits and token accounts of users change. -/
structure Deposited (s s' : HybridState) : Prop where
  market : s'.market = s.market
  oracle : s'.oracle = s.oracle
  proposal : s'.proposal = s.proposal
  receipt : s'.receipt = s.receipt
  positions : s'.positions = s.positions
  vault : s.vault ≤ s'.vault
  bondVault : s.bondVault ≤ s'.bondVault
  fits : s.bondVault ≤ u64Max → s'.bondVault ≤ u64Max

inductive Effect (rt : Runtime) (s : HybridState) : Event → HybridState → Prop
  | opened {s' : HybridState} {owner : Pubkey} {clock : Clock} (h : Opened s s' owner) :
    Effect rt s (.call (.initializePosition owner) clock) s'
  | traded {s' : HybridState} {instruction : Instruction} {clock : Clock} {owner : Pubkey}
    {p p' : Position} (hkind : instruction.isTrade = true)
    (h : Traded s s' owner clock.unixTimestamp p p') : Effect rt s (.call instruction clock) s'
  | locked {s' : HybridState} {clock : Clock} (h : Locked s s' clock.unixTimestamp) :
    Effect rt s (.call .lockHybridMarket clock) s'
  | proposed {s' : HybridState} {proposer proposerToken : Pubkey} {args : ProposeOptimisticArgs}
    {clock : Clock} (h : Proposed rt s s' clock.unixTimestamp) :
    Effect rt s (.call (.proposeOptimisticResolution proposer proposerToken args) clock) s'
  | challenged {s' : HybridState} {challenger challengerToken : Pubkey}
    {args : ChallengeOptimisticArgs} {clock : Clock} (hsigned : challenger ≠ Pubkey.default)
    (h : Challenged s s' challenger) :
    Effect rt s (.call (.challengeOptimisticResolution challenger challengerToken args) clock) s'
  | resolved {s' : HybridState} {instruction : Instruction} {clock : Clock} {outcome : Nat}
    {timeout : Bool} (hkind : instruction.isResolution = true)
    (h : Resolved s s' outcome clock.unixTimestamp timeout) :
    Effect rt s (.call instruction clock) s'
  | bondClaimed {s' : HybridState} {claimant destination : Pubkey} {clock : Clock}
    (h : BondClaimed s s') : Effect rt s (.call (.claimOptimisticBond claimant destination) clock) s'
  | settled {s' : HybridState} {owner ownerToken : Pubkey} {clock : Clock} {p : Position}
    (h : Settled s s' owner ownerToken p) :
    Effect rt s (.call (.settleHybridPosition owner ownerToken) clock) s'
  | withdrew {s' : HybridState} {liquidityOwner liquidityToken : Pubkey} {clock : Clock}
    (h : Withdrew s s') :
    Effect rt s (.call (.withdrawHybridLiquidity liquidityOwner liquidityToken) clock) s'
  | deposited {s' : HybridState} {event : Event} (hkind : event.isCall = false)
    (h : Deposited s s') : Effect rt s event s'

/-! ## One lemma for each instruction -/

theorem initializePosition_ok {rt : Runtime} {s s' : HybridState} {owner : Pubkey}
    (h : initializePosition rt s owner = .ok s') : Opened s s' owner := by
  simp only [initializePosition, bind_eq_ok, require_eq_ok, check_eq_ok, Except.ok.injEq] at h
  obtain ⟨-, hmissing, -, hphase, rfl⟩ := h
  exact ⟨⟨rfl, rfl, rfl, rfl⟩, rfl, rfl, hphase, hmissing, _, rfl, rfl, rfl, rfl⟩

theorem buyHybridShares_ok {s s' : HybridState} {accounts : TradeAccounts}
    {args : TradeSharesArgs} {now : Int} (h : buyHybridShares s accounts args now = .ok s') :
    ∃ p p', Traded s s' accounts.owner now p p' := by
  simp only [buyHybridShares, bind_eq_ok, check_eq_ok, orFail_eq_ok, checkedAdd_eq_some,
    mapError_ok_iff, validateResolverSecurityCap, Except.ok.injEq] at h
  obtain ⟨p, hp, ⟨⟩, htrade, side, -, quote, hquote, -, -, fees, -, _, -, -, -, -, hcap, p', hp',
    market, hmarket, balances, hbalances, _, -, _, -, _, -, rfl⟩ := h
  obtain ⟨hheld, hunsettled⟩ := tradePosition_ok hp
  obtain ⟨hphase, hearly⟩ := validateHybridTrade_ok htrade
  obtain ⟨-, hshares, hinc, hvalid, -, -, -, -, before, after, hbefore, hafter, hcost⟩ :=
    Lmsr.quoteBuy_ok hquote
  obtain ⟨-, hyes, hno, -⟩ := Lmsr.validateState_ok hvalid
  obtain ⟨hsettled, hp'⟩ := applyPositionBuy_ok hp'
  obtain rfl := applyMarketTrade_ok hmarket
  have hvault := (transferToVault_ok hbalances).1
  have hmoved := Lmsr.increase_ok hinc
  have hmove : p'.yesShares + s.market.yesQuantity = p.yesShares + quote.after.yes ∧
      p'.noShares + s.market.noQuantity = p.noShares + quote.after.no := by
    cases side with
    | yes =>
      simp only [lmsrQuantities] at hp' hmoved
      omega
    | no =>
      simp only [lmsrQuantities] at hp' hmoved
      omega
  refine ⟨p, p', ⟨rfl, rfl, rfl, rfl⟩, rfl, rfl, hphase, hearly, hheld, rfl, hunsettled,
    hsettled.trans hunsettled, hmove.1, hmove.2, ⟨hyes, hno⟩, fun _ => hcap, before, after,
    hbefore, hafter, ?_⟩
  rw [hvault, Nat.add_mul]
  omega

theorem sellHybridShares_ok {s s' : HybridState} {accounts : TradeAccounts}
    {args : TradeSharesArgs} {now : Int} (h : sellHybridShares s accounts args now = .ok s') :
    ∃ p p', Traded s s' accounts.owner now p p' := by
  simp only [sellHybridShares, bind_eq_ok, check_eq_ok, mapError_ok_iff, Except.ok.injEq] at h
  obtain ⟨p, hp, ⟨⟩, htrade, side, -, -, -, quote, hquote, -, -, fees, hfees, _, -, -, -, p', hp',
    market, hmarket, parts, hparts, b₁, hb₁, b₂, hb₂, b₃, hb₃, rfl⟩ := h
  obtain ⟨hheld, hunsettled⟩ := tradePosition_ok hp
  obtain ⟨hphase, hearly⟩ := validateHybridTrade_ok htrade
  obtain ⟨-, hshares, hdec, hvalid, -, -, htotal, before, after, hbefore, hafter, hcost⟩ :=
    Lmsr.quoteSell_ok hquote
  obtain ⟨-, hyes, hno, -⟩ := Lmsr.validateState_ok hvalid
  obtain ⟨hsettled, hp'⟩ := applyPositionSell_ok hp'
  obtain rfl := applyMarketTrade_ok hmarket
  have hmoved := Lmsr.decrease_ok hdec
  have hmove : (p'.yesShares + s.market.yesQuantity = p.yesShares + quote.after.yes ∧
      p'.noShares + s.market.noQuantity = p.noShares + quote.after.no) ∧
      quote.after.yes ≤ s.market.yesQuantity ∧ quote.after.no ≤ s.market.noQuantity := by
    cases side with
    | yes =>
      simp only [lmsrQuantities] at hp' hmoved
      omega
    | no =>
      simp only [lmsrQuantities] at hp' hmoved
      omega
  -- the three transfers leave the vault by the raw amount together
  have hvault : b₃.vault + quote.rawAmount = s.vault := by
    obtain ⟨hle₁, hv₁, -⟩ := transferFromHybridVault_ok hb₁
    obtain ⟨hle₂, hv₂, -⟩ := transferFromHybridVault_ok hb₂
    obtain ⟨hle₃, hv₃, -⟩ := transferFromHybridVault_ok hb₃
    have hfee := splitHybridFee_ok hfees
    have hsum := coalesceHybridFeeTransfers_ok hparts
    simp only at hle₁ hv₁
    omega
  refine ⟨p, p', ⟨rfl, rfl, rfl, rfl⟩, rfl, rfl, hphase, hearly, hheld, rfl, hunsettled,
    hsettled.trans hunsettled, hmove.1.1, hmove.1.2, ⟨hyes, hno⟩, fun hcap => ?_, before, after,
    hbefore, hafter, ?_⟩
  · have := hmove.2
    simp only at hcap ⊢
    omega
  · rw [← hvault, Nat.add_mul]
    simp only
    omega

theorem lockHybridMarket_ok {s s' : HybridState} {now : Int}
    (h : lockHybridMarket s now = .ok s') : Locked s s' now := by
  simp only [lockHybridMarket, bind_eq_ok, check_eq_ok, Except.ok.injEq] at h
  obtain ⟨-, hphase, -, hlate, rfl⟩ := h
  exact ⟨⟨rfl, rfl, rfl, rfl⟩, rfl, rfl, rfl, hphase, hlate⟩

theorem finalizeWith_ok {s s' : HybridState} {args : FinalizeHybridResolutionArgs}
    (hvault : args.vaultBalance = s.vault) (h : finalizeWith s args = .ok s') :
    Resolved s s' args.observation.outcome args.now args.timeout := by
  simp only [finalizeWith, bind_eq_ok, Except.ok.injEq] at h
  obtain ⟨done, hdone, rfl⟩ := h
  obtain ⟨hready, hfresh, hdecided, hcovered, horacle, hmarket⟩ := finalizeHybridResolution_ok hdone
  exact ⟨hready, hdecided, hfresh, hvault ▸ hcovered, ⟨_, hmarket⟩, horacle, rfl, rfl, rfl, rfl⟩

/-- Writing the proposal after the finaliser ran keeps what the finaliser did. -/
theorem Resolved.withProposal {s t : HybridState} {outcome : Nat} {now : Int} {timeout : Bool}
    (h : Resolved s t outcome now timeout) (proposal : Option OptimisticProposal) :
    Resolved s { t with proposal } outcome now timeout :=
  ⟨h.ready, h.decided, h.fresh, h.covered, h.market, h.oracle, h.receipt, h.positions, h.vault,
    h.bondVault⟩

theorem proposeOptimisticResolution_ok {rt : Runtime} {s s' : HybridState}
    {proposer proposerToken : Pubkey} {args : ProposeOptimisticArgs} {now : Int}
    (h : proposeOptimisticResolution rt s proposer proposerToken args now = .ok s') :
    Proposed rt s s' now := by
  simp only [proposeOptimisticResolution, validateOptimisticProposal, bind_eq_ok, check_eq_ok,
    require_eq_ok, orFail_eq_ok, checkedAddInt_eq_some, Except.ok.injEq] at h
  obtain ⟨-, hoptimistic, -, hfresh, -, -, -, -, _, ⟨-, hphase, -, ⟨hlate, -, hobserved, -⟩, _,
    ⟨⟨-, hwindow⟩, -⟩, -, -, -, -, _, ⟨-, rfl⟩, -, hperiod, -⟩, balances, hbalances, rfl⟩ := h
  obtain ⟨hvault, hfits⟩ := transferToVault_ok hbalances
  exact ⟨rfl, rfl, rfl, rfl, rfl, hphase, hlate, hfresh, hoptimistic, hwindow, by omega, _, rfl,
    ⟨rfl, rfl, rfl, rfl, rfl, rfl, rfl⟩, rfl, hvault, hfits⟩

theorem challengeOptimisticResolution_ok {rt : Runtime} {s s' : HybridState}
    {challenger challengerToken : Pubkey} {args : ChallengeOptimisticArgs} {now : Int}
    (h : challengeOptimisticResolution rt s challenger challengerToken args now = .ok s') :
    Challenged s s' challenger := by
  simp only [challengeOptimisticResolution, validateOptimisticChallenge, bind_eq_ok, check_eq_ok,
    proposalAccounts_ok, Except.ok.injEq] at h
  obtain ⟨p, ⟨-, -, hp⟩, -, -, -, ⟨-, ⟨hphase, -⟩, -⟩, balances, hbalances, rfl⟩ := h
  obtain ⟨hvault, hfits⟩ := transferToVault_ok hbalances
  exact ⟨rfl, rfl, rfl, rfl, rfl, hphase, p, _, hp, rfl,
    fun h => ⟨h.1, h.2, h.3, h.4, h.5, h.6, h.7⟩, rfl, rfl, hvault, hfits⟩

theorem claimOptimisticBond_ok {s s' : HybridState} {claimant destination : Pubkey}
    (h : claimOptimisticBond s claimant destination = .ok s') : BondClaimed s s' := by
  simp only [claimOptimisticBond, prepareOptimisticBondClaim, bind_eq_ok, okOr_eq_ok, check_eq_ok,
    Except.ok.injEq] at h
  obtain ⟨p, hp, -, -, _, ⟨-, hfinalized, -⟩, balances, hbalances, rfl⟩ := h
  obtain ⟨-, hvault, -⟩ := transferFromHybridVault_ok hbalances
  refine ⟨rfl, rfl, rfl, rfl, rfl, ?_, p, hp, hfinalized⟩
  simp only [hvault]
  exact Nat.sub_le _ _

theorem settleHybridPosition_ok {s s' : HybridState} {owner ownerToken : Pubkey}
    (h : settleHybridPosition s owner ownerToken = .ok s') :
    ∃ p, Settled s s' owner ownerToken p := by
  simp only [settleHybridPosition, hybridPositionPayout, bind_eq_ok, okOr_eq_ok, check_eq_ok,
    orFail_eq_ok, checkedSub_eq_some, checkedAdd_eq_some, Except.ok.injEq] at h
  obtain ⟨p, hp, -, -, -, hphase, -, hunsettled, amount, hamount, -, hliability, _, ⟨hle, rfl⟩, _,
    ⟨-, rfl⟩, market, hmarket, balances, hbalances, rfl⟩ := h
  obtain ⟨-, rfl⟩ := sharesOwed_ok hamount
  obtain ⟨-, hsolvent, rfl⟩ := closeHybridMarketIfDrained_ok hmarket
  obtain ⟨-, hvault, hpaid⟩ := transferFromHybridVault_ok hbalances
  simp only at hvault hsolvent hpaid
  refine ⟨p, ⟨rfl, rfl, rfl, rfl⟩, hphase, hp, hunsettled, hliability, rfl, ?_, ?_, ?_, hpaid⟩
  · simp only [hvault]
    omega
  · simp only [hvault]
    exact hsolvent
  · simp only [hvault]

theorem withdrawHybridLiquidity_ok {s s' : HybridState} {liquidityOwner liquidityToken : Pubkey}
    (h : withdrawHybridLiquidity s liquidityOwner liquidityToken = .ok s') : Withdrew s s' := by
  simp only [withdrawHybridLiquidity, bind_eq_ok, check_eq_ok, orFail_eq_ok, checkedSub_eq_some,
    Except.ok.injEq] at h
  obtain ⟨-, -, -, -, -, hphase, _, ⟨hle, rfl⟩, -, hpos, _, ⟨-, rfl⟩, market, hmarket, balances,
    hbalances, rfl⟩ := h
  obtain ⟨-, -, rfl⟩ := closeHybridMarketIfDrained_ok hmarket
  obtain ⟨-, hvault, -⟩ := transferFromHybridVault_ok hbalances
  simp only at hvault
  have hleft : s.vault - (s.vault - s.market.outstandingLiability) =
      s.market.outstandingLiability := by omega
  refine ⟨⟨rfl, rfl, rfl, rfl⟩, hphase, by omega, rfl, by simp only [hvault, hleft], ?_⟩
  simp only [hleft, and_self]

/-! ## The resolutions -/

/-- Every resolution runs the finaliser on the vault as it is, and writes nothing else but the
proposal. -/
theorem resolution_finalizes {rt : Runtime} {s s' : HybridState} {instruction : Instruction}
    {clock : Clock} (hkind : instruction.isResolution = true)
    (h : execute rt s clock instruction = .ok s') :
    ∃ args t proposal, args.vaultBalance = s.vault ∧ args.now = clock.unixTimestamp ∧
      finalizeWith s args = .ok t ∧ s' = { t with proposal } := by
  cases instruction with
  | resolveHybridWithPyth priceUpdate =>
    simp only [execute, resolveHybridWithPyth, bind_eq_ok] at h
    obtain ⟨-, -, validated, -, h⟩ := h
    exact ⟨_, s', s'.proposal, rfl, rfl, h, rfl⟩
  | resolveHybridWithStork feedAccount =>
    simp only [execute, resolveHybridWithStork, bind_eq_ok] at h
    obtain ⟨-, -, observation, -, h⟩ := h
    exact ⟨_, s', s'.proposal, rfl, rfl, h, rfl⟩
  | resolveHybridWithTxline accounts =>
    simp only [execute, resolveHybridWithTxline, bind_eq_ok] at h
    obtain ⟨-, -, observation, -, h⟩ := h
    exact ⟨_, s', s'.proposal, rfl, rfl, h, rfl⟩
  | resolveHybridWithSwitchboard quoteAccount =>
    simp only [execute, resolveHybridWithSwitchboard, bind_eq_ok] at h
    obtain ⟨-, -, observation, -, h⟩ := h
    exact ⟨_, s', s'.proposal, rfl, rfl, h, rfl⟩
  | finalizeOptimisticResolution =>
    simp only [execute, finalizeOptimisticResolution, bind_eq_ok, Except.ok.injEq] at h
    obtain ⟨p, -, -, -, decision, -, t, ht, _, -, rfl⟩ := h
    exact ⟨_, t, _, rfl, rfl, ht, rfl⟩
  | arbitrateOptimisticResolution protocol remainingAccounts args =>
    simp only [execute, arbitrateOptimisticResolution, bind_eq_ok, Except.ok.injEq] at h
    obtain ⟨-, -, p, -, -, -, -, -, -, -, payout, -, t, ht, _, -, rfl⟩ := h
    exact ⟨_, t, _, rfl, rfl, ht, rfl⟩
  | timeoutOptimisticDispute =>
    simp only [execute, timeoutOptimisticDispute, bind_eq_ok, Except.ok.injEq] at h
    obtain ⟨p, -, -, -, -, -, t, ht, _, -, rfl⟩ := h
    exact ⟨_, t, _, rfl, rfl, ht, rfl⟩
  | resolveHybridTimeout =>
    simp only [execute, resolveHybridTimeout, bind_eq_ok] at h
    obtain ⟨-, -, -, -, h⟩ := h
    exact ⟨_, s', s'.proposal, rfl, rfl, h, rfl⟩
  | _ => cases hkind

theorem resolution_ok {rt : Runtime} {s s' : HybridState} {instruction : Instruction}
    {clock : Clock} (hkind : instruction.isResolution = true)
    (h : execute rt s clock instruction = .ok s') :
    ∃ outcome timeout, Resolved s s' outcome clock.unixTimestamp timeout := by
  obtain ⟨args, t, proposal, hvault, hnow, ht, rfl⟩ := resolution_finalizes hkind h
  have hresolved := (finalizeWith_ok hvault ht).withProposal proposal
  rw [hnow] at hresolved
  exact ⟨_, _, hresolved⟩

/-- **Every step has one of the effects.** -/
theorem step_effect {rt : Runtime} {s s' : HybridState} {event : Event}
    (h : Step rt s event s') : Effect rt s event s' := by
  cases h with
  | @call _ instruction clock hsigned h =>
    by_cases hkind : instruction.isResolution = true
    · obtain ⟨outcome, timeout, hresolved⟩ := resolution_ok hkind h
      exact .resolved hkind hresolved
    cases instruction with
    | initializePosition owner => exact .opened (initializePosition_ok h)
    | buyHybridShares accounts args =>
      obtain ⟨p, p', htraded⟩ := buyHybridShares_ok h
      exact .traded rfl htraded
    | sellHybridShares accounts args =>
      obtain ⟨p, p', htraded⟩ := sellHybridShares_ok h
      exact .traded rfl htraded
    | lockHybridMarket => exact .locked (lockHybridMarket_ok h)
    | proposeOptimisticResolution proposer proposerToken args =>
      exact .proposed (proposeOptimisticResolution_ok h)
    | challengeOptimisticResolution challenger challengerToken args =>
      exact .challenged hsigned (challengeOptimisticResolution_ok h)
    | claimOptimisticBond claimant destination => exact .bondClaimed (claimOptimisticBond_ok h)
    | settleHybridPosition owner ownerToken =>
      obtain ⟨p, hsettled⟩ := settleHybridPosition_ok h
      exact .settled hsettled
    | withdrawHybridLiquidity liquidityOwner liquidityToken =>
      exact .withdrew (withdrawHybridLiquidity_ok h)
    | _ => exact absurd rfl hkind
  | donate hfits =>
    exact .deposited rfl ⟨rfl, rfl, rfl, rfl, rfl, Nat.le_add_right _ _, le_rfl, id⟩
  | donateBond _ hfits =>
    exact .deposited rfl ⟨rfl, rfl, rfl, rfl, rfl, le_rfl, Nat.le_add_right _ _, fun _ => hfits⟩
  | external => exact .deposited rfl ⟨rfl, rfl, rfl, rfl, rfl, le_rfl, le_rfl, id⟩

end Nortia.Hybrid
