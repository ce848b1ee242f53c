import Nortia.Program.HybridSystem
import Nortia.Program.LmsrFacts

/-!
# What the hybrid helpers say when they succeed

One inversion lemma for each helper; the instruction lemmas of `Effects` cite them and never
unfold a helper again.
-/

namespace Nortia.Hybrid

open Lib

/-! ## What an outcome owes -/

/-- The pure value of `sharesOwed`: all shares of the winning side, or half of all of them. -/
def owed (yes no outcome : Nat) : Nat :=
  if outcome = HybridMarket.outcomeYes then yes
  else if outcome = HybridMarket.outcomeNo then no
  else (yes + no) / 2

/-- YES, NO or INVALID. -/
def Decided (outcome : Nat) : Prop :=
  outcome = HybridMarket.outcomeYes ∨ outcome = HybridMarket.outcomeNo ∨
    outcome = HybridMarket.outcomeInvalid

theorem owed_yes (yes no : Nat) : owed yes no HybridMarket.outcomeYes = yes := if_pos rfl

theorem owed_no (yes no : Nat) : owed yes no HybridMarket.outcomeNo = no := by
  rw [owed, if_neg (by decide), if_pos rfl]

theorem owed_invalid (yes no : Nat) : owed yes no HybridMarket.outcomeInvalid = (yes + no) / 2 := by
  rw [owed, if_neg (by decide), if_neg (by decide)]

theorem owed_le_max (yes no outcome : Nat) : owed yes no outcome ≤ max yes no := by
  unfold owed
  split
  · exact Nat.le_max_left _ _
  · split
    · exact Nat.le_max_right _ _
    · omega

theorem sharesOwed_ok {yes no outcome amount : Nat} (h : sharesOwed yes no outcome = .ok amount) :
    Decided outcome ∧ amount = owed yes no outcome := by
  unfold sharesOwed at h
  unfold owed
  split at h
  · next hyes =>
    cases h
    exact ⟨.inl hyes, (if_pos hyes).symm⟩
  · next hyes =>
    split at h
    · next hno =>
      cases h
      exact ⟨.inr (.inl hno), by rw [if_neg hyes, if_pos hno]⟩
    · next hno =>
      split at h
      · next hinvalid =>
        simp only [orFail_eq_ok, Option.map_eq_some_iff, checkedAdd_eq_some] at h
        obtain ⟨_, ⟨-, rfl⟩, rfl⟩ := h
        exact ⟨.inr (.inr hinvalid), by rw [if_neg hyes, if_neg hno]⟩
      · cases h

theorem sharesOwed_of_decided {yes no outcome : Nat} (ho : Decided outcome)
    (hfit : yes + no ≤ u64Max) : sharesOwed yes no outcome = .ok (owed yes no outcome) := by
  have hadd : checkedAdd u64Max yes no = some (yes + no) := checkedAdd_eq_some.mpr ⟨hfit, rfl⟩
  rcases ho with rfl | rfl | rfl
  · rfl
  · rfl
  · show orFail ((checkedAdd u64Max yes no).map (· / 2)) .arithmeticOverflow = _
    rw [hadd, owed_invalid]
    rfl

/-! ## The finaliser -/

/-- What `finalize_hybrid_resolution` checks about the market and the moment. -/
structure Resolvable (market : HybridMarket) (outcome : Nat) (now : Int) (timeout : Bool) :
    Prop where
  unresolved : market.phase = .open ∨ market.phase = .locked ∨ market.phase = .resolving ∨
    market.phase = .disputed
  locked : market.lockTs ≤ now
  ready : market.resolveNotBeforeTs ≤ now
  time : checkResolutionTime market outcome now timeout = .ok ()

theorem finalizeHybridResolution_ok {market : HybridMarket} {oracle : OracleConfig}
    {args : FinalizeHybridResolutionArgs} {done : Finalized}
    (h : finalizeHybridResolution market oracle args = .ok done) :
    Resolvable market args.observation.outcome args.now args.timeout ∧
      oracle.consumed = false ∧ Decided args.observation.outcome ∧
      owed market.yesQuantity market.noQuantity args.observation.outcome ≤ args.vaultBalance ∧
      done.oracle = { oracle with consumed := true } ∧
      done.market = { market with
        phase := .resolved
        outcome := args.observation.outcome
        outstandingLiability :=
          owed market.yesQuantity market.noQuantity args.observation.outcome
        settledAt := args.now
        settlementEvidenceHash := args.evidenceHash } := by
  simp only [finalizeHybridResolution, bind_eq_ok, check_eq_ok, Except.ok.injEq] at h
  obtain ⟨-, hphase, -, hlock, -, hready, ⟨⟩, htime, -, hfresh, -, -, liability, hliability, -,
    hsolvent, rfl⟩ := h
  obtain ⟨hdecided, rfl⟩ := sharesOwed_ok hliability
  exact ⟨⟨hphase, hlock, hready, htime⟩, hfresh, hdecided, hsolvent, rfl, rfl⟩

theorem finalizeHybridResolution_of {market : HybridMarket} {oracle : OracleConfig}
    {args : FinalizeHybridResolutionArgs}
    (hr : Resolvable market args.observation.outcome args.now args.timeout)
    (hfresh : oracle.consumed = false) (hdigest : args.evidenceHash ≠ zeroBytes)
    (hdecided : Decided args.observation.outcome)
    (hfit : market.yesQuantity + market.noQuantity ≤ u64Max)
    (hvault : owed market.yesQuantity market.noQuantity args.observation.outcome ≤
      args.vaultBalance) :
    ∃ done, finalizeHybridResolution market oracle args = .ok done := by
  simp only [finalizeHybridResolution, bind_eq_ok, check_eq_ok]
  exact ⟨_, (), hr.unresolved, (), hr.locked, (), hr.ready, (), hr.time, (), hfresh, (), hdigest,
    _, sharesOwed_of_decided hdecided hfit, (), hvault, rfl⟩

theorem checkResolutionTime_true {market : HybridMarket} {outcome : Nat} {now : Int} {u : Unit} :
    checkResolutionTime market outcome now true = .ok u ↔
      market.resolutionDeadlineTs < now ∧ outcome = HybridMarket.outcomeInvalid := by
  simp only [checkResolutionTime, if_true, bind_eq_ok, check_eq_ok, exists_const]

theorem checkResolutionTime_false {market : HybridMarket} {outcome : Nat} {now : Int} {u : Unit} :
    checkResolutionTime market outcome now false = .ok u ↔
      now ≤ market.resolutionDeadlineTs ∧
        (outcome = HybridMarket.outcomeYes ∨ outcome = HybridMarket.outcomeNo) := by
  simp only [checkResolutionTime, Bool.false_eq_true, if_false, bind_eq_ok, check_eq_ok,
    exists_const]

/-! ## Fees and shares -/

theorem splitHybridFee_ok {fee share : Nat} {parts : Nat × Nat}
    (h : splitHybridFee fee share = .ok parts) : parts.1 + parts.2 = fee := by
  simp only [splitHybridFee, bind_eq_ok, check_eq_ok, orFail_eq_ok, checkedSub_eq_some,
    Except.ok.injEq] at h
  obtain ⟨-, -, _, -, -, -, _, ⟨hle, rfl⟩, rfl⟩ := h
  exact Nat.add_sub_of_le hle

theorem coalesceHybridFeeTransfers_ok {treasury liquidity : Pubkey} {a b : Nat}
    {parts : Nat × Nat} (h : coalesceHybridFeeTransfers treasury a liquidity b = .ok parts) :
    parts.1 + parts.2 = a + b := by
  unfold coalesceHybridFeeTransfers at h
  split at h
  · cases h
    rfl
  · simp only [bind_eq_ok, orFail_eq_ok, checkedAdd_eq_some, Except.ok.injEq] at h
    obtain ⟨_, ⟨-, rfl⟩, rfl⟩ := h
    rfl

/-- The shares of a position, and of the market, after some shares of one side are added. -/
theorem applyPositionBuy_ok {p p' : Position} {side : Lmsr.OutcomeSide} {quote : Lmsr.TradeQuote}
    (h : applyPositionBuy p side quote = .ok p') :
    p'.settled = p.settled ∧
      match side with
      | .yes => p'.yesShares = p.yesShares + quote.shares ∧ p'.noShares = p.noShares
      | .no => p'.yesShares = p.yesShares ∧ p'.noShares = p.noShares + quote.shares := by
  simp only [applyPositionBuy, bind_eq_ok, orFail_eq_ok, checkedAdd_eq_some,
    Except.ok.injEq] at h
  obtain ⟨q, hq, _, -, rfl⟩ := h
  cases side with
  | yes =>
    simp only [addShares, bind_eq_ok, orFail_eq_ok, checkedAdd_eq_some, Except.ok.injEq] at hq
    obtain ⟨_, ⟨-, rfl⟩, rfl⟩ := hq
    exact ⟨rfl, rfl, rfl⟩
  | no =>
    simp only [addShares, bind_eq_ok, orFail_eq_ok, checkedAdd_eq_some, Except.ok.injEq] at hq
    obtain ⟨_, ⟨-, rfl⟩, rfl⟩ := hq
    exact ⟨rfl, rfl, rfl⟩

theorem applyPositionSell_ok {p p' : Position} {side : Lmsr.OutcomeSide} {quote : Lmsr.TradeQuote}
    (h : applyPositionSell p side quote = .ok p') :
    p'.settled = p.settled ∧
      match side with
      | .yes => p'.yesShares + quote.shares = p.yesShares ∧ p'.noShares = p.noShares
      | .no => p'.yesShares = p.yesShares ∧ p'.noShares + quote.shares = p.noShares := by
  simp only [applyPositionSell, bind_eq_ok, orFail_eq_ok, checkedAdd_eq_some,
    Except.ok.injEq] at h
  obtain ⟨q, hq, _, -, rfl⟩ := h
  cases side with
  | yes =>
    simp only [removeShares, bind_eq_ok, orFail_eq_ok, checkedSub_eq_some, Except.ok.injEq] at hq
    obtain ⟨_, ⟨hle, rfl⟩, rfl⟩ := hq
    exact ⟨rfl, Nat.sub_add_cancel hle, rfl⟩
  | no =>
    simp only [removeShares, bind_eq_ok, orFail_eq_ok, checkedSub_eq_some, Except.ok.injEq] at hq
    obtain ⟨_, ⟨hle, rfl⟩, rfl⟩ := hq
    exact ⟨rfl, rfl, Nat.sub_add_cancel hle⟩

theorem applyMarketTrade_ok {market market' : HybridMarket} {quote : Lmsr.TradeQuote}
    {treasuryFee liquidityFee : Nat}
    (h : applyMarketTrade market quote treasuryFee liquidityFee = .ok market') :
    market' = { market with
      yesQuantity := quote.after.yes
      noQuantity := quote.after.no
      tradeCount := market.tradeCount + 1
      volume := market.volume + quote.rawAmount
      treasuryFees := market.treasuryFees + treasuryFee
      liquidityFees := market.liquidityFees + liquidityFee } := by
  simp only [applyMarketTrade, bind_eq_ok, orFail_eq_ok, checkedAdd_eq_some, Except.ok.injEq] at h
  obtain ⟨_, ⟨-, rfl⟩, _, ⟨-, rfl⟩, _, ⟨-, rfl⟩, _, ⟨-, rfl⟩, rfl⟩ := h
  rfl

theorem validateHybridTrade_ok {market : HybridMarket} {args : TradeSharesArgs} {now : Int}
    {u : Unit} (h : validateHybridTrade market args now = .ok u) :
    market.phase = .open ∧ now < market.lockTs := by
  simp only [validateHybridTrade, bind_eq_ok, check_eq_ok] at h
  obtain ⟨-, hphase, -, hlock, -⟩ := h
  exact ⟨hphase, hlock⟩

theorem tradePosition_ok {s : HybridState} {accounts : TradeAccounts} {position : Position}
    (h : tradePosition s accounts = .ok position) :
    s.positions.lookup accounts.owner = some position ∧ position.settled = false := by
  simp only [tradePosition, bind_eq_ok, check_eq_ok, okOr_eq_ok, Except.ok.injEq] at h
  obtain ⟨-, -, -, -, _, hp, -, hsettled, -, -, -, -, -, -, rfl⟩ := h
  exact ⟨hp, hsettled⟩

theorem closeHybridMarketIfDrained_ok {market market' : HybridMarket} {projected : Nat}
    (h : closeHybridMarketIfDrained market projected = .ok market') :
    market.phase = .resolved ∧ market.outstandingLiability ≤ projected ∧
      market' = { market with
        phase := if market.outstandingLiability = 0 ∧ projected = 0 then .closed
          else .resolved } := by
  simp only [closeHybridMarketIfDrained, bind_eq_ok, check_eq_ok] at h
  obtain ⟨-, ⟨hphase, hle⟩, h⟩ := h
  refine ⟨hphase, hle, ?_⟩
  split at h
  · next hdrained =>
    cases h
    rw [if_pos hdrained]
  · next hdrained =>
    cases h
    rw [if_neg hdrained, ← hphase]

theorem resolutionAccounts_ok {s : HybridState} {u : Unit} :
    resolutionAccounts s = .ok u ↔ s.oracle.consumed = false ∧ s.receipt.isNone = true := by
  simp only [resolutionAccounts, bind_eq_ok, check_eq_ok, require_eq_ok, exists_const]

theorem resolverAccounts_ok {s : HybridState} {resolver : OracleResolver} {u : Unit} :
    resolverAccounts s resolver = .ok u ↔
      s.oracle.resolver = resolver ∧ s.oracle.consumed = false ∧ s.receipt.isNone = true := by
  simp only [resolverAccounts, bind_eq_ok, check_eq_ok, resolutionAccounts_ok, exists_const]

theorem proposalAccounts_ok {rt : Runtime} {s : HybridState} {proposal : OptimisticProposal} :
    proposalAccounts rt s = .ok proposal ↔ s.oracle.optimisticProposal = s.proposalKey rt ∧
      s.oracle.consumed = false ∧ s.proposal = some proposal := by
  simp only [proposalAccounts, bind_eq_ok, check_eq_ok, okOr_eq_ok, exists_const]

end Nortia.Hybrid
