import Nortia.Verify.Hybrid.Payouts

/-!
# Solvency of a hybrid market

The vault covers both sides before the resolution and what is still owed after it, so the
program's own solvency guards never reject a call. The guards are the errors `InsolventMarket`
and `InsufficientVaultBalance`; `Harmless` failures are the others.
-/

namespace Nortia.Hybrid

open Lib Tally

/-- A failure that is not one of the two solvency guards. -/
def Harmless (f : Failure) : Prop :=
  f ≠ .nortia .insolventMarket ∧ f ≠ .nortia .insufficientVaultBalance

/-! ## Helpers without guards -/

section Helpers

@[simp] theorem harmless_nortia {e : NortiaError} :
    Harmless (.nortia e) ↔ e ≠ .insolventMarket ∧ e ≠ .insufficientVaultBalance := by
  simp [Harmless]

@[simp] theorem harmless_accountInUse : Harmless .accountInUse := by simp [Harmless]

@[simp] theorem harmless_accountNotInitialized : Harmless .accountNotInitialized := by
  simp [Harmless]

@[simp] theorem harmless_insufficientFunds : Harmless .insufficientFunds := by simp [Harmless]

@[simp] theorem harmless_tokenOverflow : Harmless .tokenOverflow := by simp [Harmless]

@[simp] theorem harmless_invokedProgram : Harmless .invokedProgram := by simp [Harmless]

@[simp] theorem harmless_panicked : Harmless .panicked := by simp [Harmless]

variable {rt : Runtime} {s : HybridState}

@[simp] theorem checkTokenAccount_harmless {account : TokenAccount} {owner mint : Pubkey} :
    FailsIn Harmless (checkTokenAccount account owner mint) := by
  simp [checkTokenAccount]

@[simp] theorem debit_harmless {tokens : Tokens} {key : Pubkey} {amount : Nat} :
    FailsIn Harmless (tokens.debit key amount) := by
  simp [Tokens.debit]

@[simp] theorem credit_harmless {tokens : Tokens} {key : Pubkey} {amount : Nat} :
    FailsIn Harmless (tokens.credit key amount) := by
  simp [Tokens.credit]

@[simp] theorem transferToVault_harmless {tokens : Tokens} {source : Pubkey} {vault amount : Nat} :
    FailsIn Harmless (transferToVault tokens source vault amount) := by
  simp [transferToVault]

@[simp] theorem transferFromOwner_harmless {tokens : Tokens} {source destination : Pubkey}
    {amount : Nat} : FailsIn Harmless (transferFromOwner tokens source destination amount) := by
  simp [transferFromOwner]

/-- A transfer out of the vault meets its guard when the balance read before covers it. -/
theorem transferFromHybridVault_harmless {cached : Nat} {balances : Balances}
    {destination : Pubkey} {amount : Nat} (h : amount ≤ cached) :
    FailsIn Harmless (transferFromHybridVault cached balances destination amount) := by
  simp [transferFromHybridVault, h]

@[simp] theorem sharesOwed_harmless {yes no outcome : Nat} :
    FailsIn Harmless (sharesOwed yes no outcome) := by
  simp [sharesOwed]

@[simp] theorem tradePosition_harmless {accounts : TradeAccounts} :
    FailsIn Harmless (tradePosition s accounts) := by
  simp [tradePosition]

@[simp] theorem validateHybridTrade_harmless {market : HybridMarket} {args : TradeSharesArgs}
    {now : Int} : FailsIn Harmless (validateHybridTrade market args now) := by
  simp [validateHybridTrade]

@[simp] theorem lmsrSide_harmless {side : Nat} : FailsIn Harmless (lmsrSide side) := by
  simp [lmsrSide]

@[simp] theorem splitHybridFee_harmless {fee share : Nat} :
    FailsIn Harmless (splitHybridFee fee share) := by
  simp [splitHybridFee]

@[simp] theorem coalesceHybridFeeTransfers_harmless {treasury liquidity : Pubkey} {a b : Nat} :
    FailsIn Harmless (coalesceHybridFeeTransfers treasury a liquidity b) := by
  simp [coalesceHybridFeeTransfers]

@[simp] theorem applyPositionBuy_harmless {p : Position} {side : Lmsr.OutcomeSide}
    {quote : Lmsr.TradeQuote} : FailsIn Harmless (applyPositionBuy p side quote) := by
  cases side <;> simp [applyPositionBuy, addShares]

@[simp] theorem applyPositionSell_harmless {p : Position} {side : Lmsr.OutcomeSide}
    {quote : Lmsr.TradeQuote} : FailsIn Harmless (applyPositionSell p side quote) := by
  cases side <;> simp [applyPositionSell, removeShares]

@[simp] theorem applyMarketTrade_harmless {market : HybridMarket} {quote : Lmsr.TradeQuote}
    {a b : Nat} : FailsIn Harmless (applyMarketTrade market quote a b) := by
  simp [applyMarketTrade]

@[simp] theorem quote_harmless {x : Except Lmsr.LmsrError Lmsr.TradeQuote} :
    FailsIn Harmless (x.mapError fun _ => Failure.nortia .invalidLmsrState) := by
  rw [failsIn_mapError]
  exact failsIn_of_forall fun _ => by simp

@[simp] theorem resolutionAccounts_harmless : FailsIn Harmless (resolutionAccounts s) := by
  simp [resolutionAccounts]

@[simp] theorem resolverAccounts_harmless {resolver : OracleResolver} :
    FailsIn Harmless (resolverAccounts s resolver) := by
  simp [resolverAccounts]

@[simp] theorem proposalAccounts_harmless : FailsIn Harmless (proposalAccounts rt s) := by
  simp [proposalAccounts]

@[simp] theorem compareValues_harmless {left leftExponent right rightExponent : Int}
    {comparator : ValueComparator} : FailsIn Harmless
      (Oracles.compareValues left leftExponent right rightExponent comparator) := by
  cases comparator <;> simp [Oracles.compareValues]

@[simp] theorem validatePythAccount_harmless {priceUpdate : AccountInfo} {oracle : OracleConfig}
    {clock : Clock} :
    FailsIn Harmless (Oracles.validatePythAccount rt priceUpdate oracle clock) := by
  simp [Oracles.validatePythAccount, Oracles.checkPushOracleAddress,
    Oracles.validatePythObservation]

@[simp] theorem validateStorkAccount_harmless {feedAccount : AccountInfo} {oracle : OracleConfig}
    {clock : Clock} :
    FailsIn Harmless (Stork.validateStorkAccount rt feedAccount oracle clock) := by
  simp [Stork.validateStorkAccount]

@[simp] theorem checkOracles_harmless {quote : ParsedEd25519Instruction} {indices : List Nat} :
    FailsIn Harmless (Switchboard.checkOracles quote indices) := by
  induction indices with
  | nil => simp [Switchboard.checkOracles]
  | cons index rest ih => simp [Switchboard.checkOracles, Switchboard.checkOracle, ih]

@[simp] theorem oracleQuote_harmless {payload : ParsedQuotePayload} :
    FailsIn Harmless (Switchboard.oracleQuote payload) := by
  cases payload <;> simp [Switchboard.oracleQuote]

@[simp] theorem validateSwitchboardAccount_harmless {quoteAccount : AccountInfo}
    {oracle : OracleConfig} {clock : Clock} :
    FailsIn Harmless (Switchboard.validateSwitchboardAccount rt quoteAccount oracle clock) := by
  simp [Switchboard.validateSwitchboardAccount, Switchboard.validateSwitchboardQuote]

@[simp] theorem totalGoalsStrategy_harmless {threshold : Int} {comparator : ValueComparator} :
    FailsIn Harmless (Txline.totalGoalsStrategy threshold comparator) := by
  cases comparator <;> simp [Txline.totalGoalsStrategy, Txline.strategyPredicate]

@[simp] theorem readReturnData_harmless {data : List UInt8} :
    FailsIn Harmless (Txline.readReturnData data) := by
  unfold Txline.readReturnData
  split <;> simp

@[simp] theorem resolveHybridTotalGoals_harmless {market : HybridMarket} {oracle : OracleConfig}
    {payload : Txline.StatValidationInput} {dailyRoot txlineProgram : AccountInfo}
    {txline : Txline.TxlineProgram} {now : Int} : FailsIn Harmless
      (Txline.resolveHybridTotalGoals rt market oracle payload dailyRoot txlineProgram txline
        now) := by
  simp [Txline.resolveHybridTotalGoals, Txline.validateHybridPayload,
    Txline.fixtureIdFromSourceId, Txline.dailyScoresRoot, Txline.invokeStatValidation]

@[simp] theorem checkResolutionTime_harmless {market : HybridMarket} {outcome : Nat} {now : Int}
    {timeout : Bool} : FailsIn Harmless (checkResolutionTime market outcome now timeout) := by
  simp [checkResolutionTime]

@[simp] theorem validateOptimisticProposal_harmless {key : Pubkey} {market : HybridMarket}
    {oracle : OracleConfig} {evidence : OptimisticEvidence} {now : Int} :
    FailsIn Harmless (validateOptimisticProposal rt key market oracle evidence now) := by
  simp [validateOptimisticProposal]

@[simp] theorem validateOptimisticChallenge_harmless {key challenger : Pubkey}
    {market : HybridMarket} {p : OptimisticProposal} {evidence : OptimisticEvidence} {now : Int} :
    FailsIn Harmless (validateOptimisticChallenge rt key market p challenger evidence now) := by
  simp [validateOptimisticChallenge]

@[simp] theorem optimisticFinalizeOutcome_harmless {market : HybridMarket}
    {p : OptimisticProposal} {now : Int} :
    FailsIn Harmless (optimisticFinalizeOutcome market p now) := by
  simp [optimisticFinalizeOutcome]

@[simp] theorem validateOptimisticArbitration_harmless {market : HybridMarket}
    {p : OptimisticProposal} {outcome : Nat} {decisionHash : Bytes32} {now : Int} :
    FailsIn Harmless (validateOptimisticArbitration market p outcome decisionHash now) := by
  simp [validateOptimisticArbitration]

@[simp] theorem verifyCommitteeQuorum_harmless {committee : List Pubkey}
    {accounts : List AccountInfo} :
    FailsIn Harmless (verifyCommitteeQuorum committee accounts) := by
  have hpair : ∀ signers left right, FailsIn Harmless (checkSigners signers left right) := by
    intro signers left right
    simp [checkSigners]
  refine failsIn_bind.mpr ⟨?_, fun _ _ => by simp⟩
  exact failsIn_forM fun _ _ => failsIn_forM fun _ _ => hpair _ _ _

@[simp] theorem optimisticDisputePayout_harmless {bond : Nat} :
    FailsIn Harmless (optimisticDisputePayout bond) := by
  simp [optimisticDisputePayout]

@[simp] theorem recordOptimisticPayouts_harmless {p : OptimisticProposal} {a b c : Nat} :
    FailsIn Harmless (recordOptimisticPayouts p a b c) := by
  simp [recordOptimisticPayouts, depositedBonds]

end Helpers

/-! ## The guards hold -/

section Guards

variable {rt : Runtime} {s : HybridState}

/-- The finaliser's guard: the vault of an unresolved market covers every outcome. -/
theorem finalizeWith_harmless (hI : Inv rt s) {args : FinalizeHybridResolutionArgs}
    (hvault : args.vaultBalance = s.vault) : FailsIn Harmless (finalizeWith s args) := by
  simp only [finalizeWith, finalizeHybridResolution, failsIn_bind, failsIn_ok, implies_true,
    and_true, failsIn_check, checkResolutionTime_harmless, true_and, check_eq_ok,
    hybridMarketLiability, sharesOwed_harmless]
  refine ⟨by simp, fun _ hphase => ⟨by simp, fun _ _ => ⟨by simp, fun _ _ _ _ =>
    ⟨by simp, fun _ _ => ⟨by simp, fun _ _ liability hliability hcovered => ?_⟩⟩⟩⟩⟩
  obtain ⟨-, rfl⟩ := sharesOwed_ok hliability
  have hcovers := (hI.phase.pending hphase).covers.1
  have hmax := owed_le_max s.market.yesQuantity s.market.noQuantity args.observation.outcome
  exact absurd (hmax.trans (hvault ▸ hcovers)) hcovered

theorem buyHybridShares_harmless (hI : Inv rt s) {accounts : TradeAccounts}
    {args : TradeSharesArgs} {now : Int} :
    FailsIn Harmless (buyHybridShares s accounts args now) := by
  simp only [buyHybridShares, failsIn_bind, failsIn_ok, failsIn_check, failsIn_orFail,
    mapError_ok_iff, tradePosition_harmless, validateHybridTrade_harmless, lmsrSide_harmless,
    quote_harmless, splitHybridFee_harmless, validateResolverSecurityCap,
    applyPositionBuy_harmless, applyMarketTrade_harmless, transferToVault_harmless,
    coalesceHybridFeeTransfers_harmless, transferFromOwner_harmless, implies_true, true_and,
    and_true, orFail_eq_ok, checkedAdd_eq_some]
  intro _ _ _ htrade side _ quote hquote
  refine ⟨by simp, fun _ _ fees _ => ⟨by simp, ?_⟩⟩
  rintro _ ⟨-, rfl⟩
  refine ⟨fun hlow => absurd ?_ hlow, fun _ _ => by simp⟩
  have hopen := hI.phase.open (.inl (validateHybridTrade_ok htrade).1)
  obtain ⟨c, hc, hle⟩ := hopen.1.solvent
  obtain ⟨-, -, -, -, -, -, -, -, before, after, hbefore, hafter, hcost⟩ := Lmsr.quoteBuy_ok hquote
  obtain rfl : c = before := Except.ok.inj (hc.symm.trans hbefore)
  have hmax := Lmsr.max_le_costFixed hafter
  refine Nat.le_of_mul_le_mul_right ?_ (show 0 < Lmsr.fixedScale by decide)
  rw [Nat.add_mul]
  omega

theorem sellHybridShares_harmless (hI : Inv rt s) {accounts : TradeAccounts}
    {args : TradeSharesArgs} {now : Int} :
    FailsIn Harmless (sellHybridShares s accounts args now) := by
  simp only [sellHybridShares, failsIn_bind, failsIn_ok, failsIn_check, failsIn_orFail,
    mapError_ok_iff, tradePosition_harmless, validateHybridTrade_harmless, lmsrSide_harmless,
    quote_harmless, splitHybridFee_harmless, applyPositionSell_harmless,
    applyMarketTrade_harmless, coalesceHybridFeeTransfers_harmless, implies_true, true_and,
    and_true, orFail_eq_ok, checkedSub_eq_some, checkedSub_eq_none]
  intro _ _ _ htrade side _
  refine ⟨by simp, fun _ _ quote hquote => ⟨by simp, fun _ _ fees hfees => ?_⟩⟩
  have hopen := hI.phase.open (.inl (validateHybridTrade_ok htrade).1)
  obtain ⟨c, hc, hle⟩ := hopen.1.solvent
  obtain ⟨-, -, -, -, -, -, htotal, before, after, hbefore, hafter, hcost⟩ :=
    Lmsr.quoteSell_ok hquote
  obtain rfl : c = before := Except.ok.inj (hc.symm.trans hbefore)
  have hmax := Lmsr.max_le_costFixed hafter
  have hfee := splitHybridFee_ok hfees
  have hscale : 0 < Lmsr.fixedScale := by decide
  have hraw : quote.rawAmount ≤ s.vault := Nat.le_of_mul_le_mul_right (by omega) hscale
  refine ⟨fun hlt => absurd hraw (Nat.not_le.mpr hlt), ?_⟩
  rintro _ ⟨-, rfl⟩
  refine ⟨fun hlow => absurd ?_ hlow, ?_⟩
  · refine Nat.le_of_mul_le_mul_right ?_ hscale
    have hback : (s.vault - quote.rawAmount) * Lmsr.fixedScale +
        quote.rawAmount * Lmsr.fixedScale = s.vault * Lmsr.fixedScale := by
      rw [← Nat.add_mul, Nat.sub_add_cancel hraw]
    omega
  · intro _ _ _ _ _ _ parts hparts
    have hsum := coalesceHybridFeeTransfers_ok hparts
    exact ⟨transferFromHybridVault_harmless (by omega), fun _ _ =>
      ⟨transferFromHybridVault_harmless (by omega), fun _ _ =>
        transferFromHybridVault_harmless (by omega)⟩⟩

theorem settleHybridPosition_harmless (hI : Inv rt s) {owner ownerToken : Pubkey} :
    FailsIn Harmless (settleHybridPosition s owner ownerToken) := by
  simp only [settleHybridPosition, hybridPositionPayout, closeHybridMarketIfDrained, failsIn_bind,
    failsIn_ok, failsIn_check, failsIn_orFail, failsIn_okOr, failsIn_ite, okOr_eq_ok, check_eq_ok,
    checkTokenAccount_harmless, sharesOwed_harmless, harmless_accountNotInitialized, implies_true,
    true_and, and_true, orFail_eq_ok, checkedSub_eq_some, checkedSub_eq_none, checkedAdd_eq_some]
  intro p hp _ _
  refine ⟨by simp, fun _ hphase => ⟨by simp, fun _ hunsettled amount hamount => ?_⟩⟩
  obtain ⟨-, rfl⟩ := sharesOwed_ok hamount
  obtain ⟨hsettling, -⟩ := hI.phase.resolved hphase
  have howed := hsettling.owed_le hI hp hunsettled
  have hsolvent := hsettling.solvent
  refine ⟨fun hlow => absurd howed hlow, fun _ _ =>
    ⟨fun hlt => absurd (howed.trans hsolvent) (Nat.not_le.mpr hlt), ?_⟩⟩
  rintro _ ⟨-, rfl⟩
  refine ⟨by simp, ?_⟩
  rintro _ ⟨-, rfl⟩
  refine ⟨fun hlow => absurd ⟨hphase, ?_⟩ hlow, fun _ _ =>
    transferFromHybridVault_harmless (howed.trans hsolvent)⟩
  exact Nat.sub_le_sub_right hsolvent _

theorem withdrawHybridLiquidity_harmless (hI : Inv rt s) {liquidityOwner liquidityToken : Pubkey} :
    FailsIn Harmless (withdrawHybridLiquidity s liquidityOwner liquidityToken) := by
  simp only [withdrawHybridLiquidity, closeHybridMarketIfDrained, failsIn_bind, failsIn_ok,
    failsIn_check, failsIn_orFail, failsIn_ite, check_eq_ok, checkTokenAccount_harmless,
    implies_true, true_and, and_true, orFail_eq_ok, checkedSub_eq_some, checkedSub_eq_none]
  refine ⟨by simp, fun _ _ _ _ => ⟨by simp, fun _ hphase => ?_⟩⟩
  obtain ⟨hsettling, -⟩ := hI.phase.resolved hphase
  have hsolvent := hsettling.solvent
  refine ⟨fun hlt => absurd hsolvent (Nat.not_le.mpr hlt), ?_⟩
  rintro _ ⟨-, rfl⟩
  refine ⟨by simp, fun _ _ => ⟨fun hlt => absurd (Nat.sub_le _ _) (Nat.not_le.mpr hlt), ?_⟩⟩
  rintro _ ⟨-, rfl⟩
  refine ⟨fun hlow => absurd ⟨hphase, ?_⟩ hlow, fun _ _ =>
    transferFromHybridVault_harmless (Nat.sub_le _ _)⟩
  omega

/-- **No call is rejected for solvency**, whatever the state the market has reached; the payment
of an optimistic bond draws on the bonds and not on the vault. -/
theorem execute_harmless (hI : Inv rt s) (clock : Clock) {instruction : Instruction}
    (hbond : ∀ claimant destination,
      instruction ≠ .claimOptimisticBond claimant destination) :
    FailsIn Harmless (execute rt s clock instruction) := by
  have hfinal : ∀ {args : FinalizeHybridResolutionArgs}, args.vaultBalance = s.vault →
      FailsIn Harmless (finalizeWith s args) := fun h => finalizeWith_harmless hI h
  cases instruction with
  | initializePosition owner => simp [execute, initializePosition]
  | buyHybridShares accounts args => exact buyHybridShares_harmless hI
  | sellHybridShares accounts args => exact sellHybridShares_harmless hI
  | lockHybridMarket => simp [execute, lockHybridMarket]
  | resolveHybridWithPyth priceUpdate => simp [execute, resolveHybridWithPyth, hfinal]
  | resolveHybridWithStork feedAccount => simp [execute, resolveHybridWithStork, hfinal]
  | resolveHybridWithTxline accounts => simp [execute, resolveHybridWithTxline, hfinal]
  | resolveHybridWithSwitchboard quoteAccount =>
    simp [execute, resolveHybridWithSwitchboard, hfinal]
  | proposeOptimisticResolution proposer proposerToken args =>
    simp [execute, proposeOptimisticResolution]
  | challengeOptimisticResolution challenger challengerToken args =>
    simp [execute, challengeOptimisticResolution]
  | finalizeOptimisticResolution => simp [execute, finalizeOptimisticResolution, hfinal]
  | arbitrateOptimisticResolution protocol remainingAccounts args =>
    simp [execute, arbitrateOptimisticResolution, hfinal]
  | timeoutOptimisticDispute => simp [execute, timeoutOptimisticDispute, hfinal]
  | claimOptimisticBond claimant destination => exact absurd rfl (hbond claimant destination)
  | resolveHybridTimeout => simp [execute, resolveHybridTimeout, hfinal]
  | settleHybridPosition owner ownerToken => exact settleHybridPosition_harmless hI
  | withdrawHybridLiquidity liquidityOwner liquidityToken =>
    exact withdrawHybridLiquidity_harmless hI

end Guards

/-! ## Over every run -/

/-- **Solvency over every run.** Before the resolution the vault covers both sides and both stay
under the security cap; after it the vault covers what is owed; no guard ever rejects a call. -/
theorem vault_covers_liabilities {rt : Runtime} {args : InitializeHybridMarketArgs} {now : Int}
    {init s : HybridState} (hinit : Created rt args now init) (hrun : Reaches (Step rt) init s) :
    (Unresolved s.market.phase →
      max s.market.yesQuantity s.market.noQuantity ≤ s.vault ∧
        max s.market.yesQuantity s.market.noQuantity ≤ s.market.resolverSecurityCap) ∧
    (s.market.phase = .resolved ∨ s.market.phase = .closed →
      s.market.outstandingLiability ≤ s.vault) ∧
    ∀ instruction clock,
      (∀ claimant destination, instruction ≠ .claimOptimisticBond claimant destination) →
      execute rt s clock instruction ≠ .error (.nortia .insolventMarket) ∧
        execute rt s clock instruction ≠ .error (.nortia .insufficientVaultBalance) := by
  have hI := inv_reaches hinit hrun
  refine ⟨fun hu => ⟨(hI.phase.pending hu).covers.1, hI.capped⟩,
    fun hr => (hI.phase.settling hr).solvent, fun instruction clock hbond => ?_⟩
  have hharmless := execute_harmless hI clock hbond
  exact ⟨fun h => (hharmless _ h).1 rfl, fun h => (hharmless _ h).2 rfl⟩

/-! ### A concrete market -/

namespace Sample

def creator : Pubkey := Bytes.fill 32 7
def alice : Pubkey := Bytes.fill 32 10
def bob : Pubkey := Bytes.fill 32 11

/-- The address the runtime derives for the market of `creator` with the id 1. -/
def marketKey : Pubkey :=
  ⟨[253, 42, 203, 215, 241, 236, 15, 195, 160, 124, 211, 0, 242, 150, 225, 123, 234, 201, 231, 51,
    70, 230, 0, 37, 158, 222, 78, 101, 35, 182, 226, 96], rfl⟩

def oracleKey : Pubkey :=
  ⟨[127, 192, 76, 99, 67, 55, 18, 47, 218, 67, 92, 174, 22, 167, 142, 171, 18, 140, 11, 16, 176,
    206, 100, 241, 76, 194, 68, 154, 253, 234, 80, 151], rfl⟩

def proposalKey : Pubkey :=
  ⟨[140, 252, 31, 72, 14, 132, 211, 198, 49, 69, 6, 237, 60, 36, 101, 181, 137, 3, 222, 203, 141,
    59, 41, 104, 54, 209, 192, 185, 112, 151, 100, 165], rfl⟩

/-- The digest of the timeout of this market. -/
def timeoutDigest : Bytes32 :=
  ⟨[77, 102, 146, 149, 33, 79, 88, 2, 99, 26, 109, 229, 132, 176, 47, 86, 84, 253, 187, 190, 143,
    167, 252, 160, 223, 70, 196, 212, 30, 16, 96, 246], rfl⟩

/-- The derived addresses and the digest of this market; no oracle account decodes. -/
def runtime : Runtime where
  sha256 := fun _ => timeoutDigest
  findProgramAddress := fun seeds _ =>
    if seeds = [hybridMarketSeed, creator.toList, leBytes 8 1] then marketKey
    else if seeds = [oracleConfigSeed, marketKey.toList] then oracleKey
    else proposalKey
  deserializePriceUpdate := fun _ => none
  parseQuotePayload := fun _ => none

def mint : Pubkey :=
  ⟨[59, 68, 44, 179, 145, 33, 87, 241, 58, 147, 61, 1, 52, 40, 45, 3, 43, 95, 254, 205, 1, 162,
    219, 241, 183, 121, 6, 8, 223, 0, 46, 167], rfl⟩

def engine : EngineConfig where
  authority := Bytes.fill 32 2
  treasuryOwner := Bytes.fill 32 3
  collateralMint := mint
  treasuryFeeShareBps := 7000
  paused := false

/-- Every key owns a token account at its own address. -/
def tokens : Tokens := fun key => { owner := key, mint, amount := 1000000000000 }

def args : InitializeHybridMarketArgs where
  marketId := 1
  category := .politics
  tradingMode := .continuous
  questionHash := Bytes.fill 32 1
  rulesHash := Bytes.fill 32 1
  outcomeLabelsHash := Bytes.fill 32 1
  liquidityParameter := 100000000
  roundingReserve := 2
  maxTradeShares := 1000000000
  tradeFeeBps := 100
  lockTs := 1000
  resolveNotBeforeTs := 1000
  resolutionDeadlineTs := 100000
  oracle := {
    resolver := .optimistic
    sourceProgram := crateId
    sourceQueue := Pubkey.default
    sourceId := Bytes.fill 32 4
    comparator := .greaterThan
    threshold := 0
    thresholdExponent := 0
    observationTs := 1000
    observationWindowSecs := 50000
    maxStalenessSecs := 0
    maxStalenessSlots := 0
    maxConfidenceBps := 0
    minSamples := 0
    challengePeriodSecs := 3600
    bondAmount := 100000000
    configHash := Bytes.fill 32 5 }

/-- The market as it is created at time 0. -/
def created : Except Failure HybridState :=
  initializeHybridMarket runtime engine tokens creator creator args 0

def accounts (owner : Pubkey) : TradeAccounts where
  owner := owner
  ownerToken := owner
  treasuryToken := engine.treasuryOwner
  liquidityToken := creator

def buyYes (owner : Pubkey) (shares : Nat) : Instruction × Clock :=
  (.buyHybridShares (accounts owner)
    { side := 1, shares, amountGuard := 1000000000, deadlineTs := 500 },
    { slot := 0, unixTimestamp := 10 })

def openPosition (owner : Pubkey) : Instruction × Clock :=
  (.initializePosition owner, { slot := 0, unixTimestamp := 5 })

def timeout (now : Int) : Instruction × Clock :=
  (.resolveHybridTimeout, { slot := 0, unixTimestamp := now })

def settle (owner : Pubkey) : Instruction × Clock :=
  (.settleHybridPosition owner owner, { slot := 0, unixTimestamp := 0 })

/-- Two holders with an odd number of shares each, and a market resolved to INVALID. -/
def twoHolders : List (Instruction × Clock) :=
  [openPosition alice, buyYes alice 10000001, openPosition bob, buyYes bob 10000001,
    timeout 100001]

theorem created_of_ok {init : HybridState} (h : created = .ok init) :
    Created runtime args 0 init := ⟨engine, tokens, creator, creator, h⟩

end Sample

/-- Alice opens a position and buys 10000001 YES shares of a market with 100 USDC of liquidity. -/
theorem vault_covers_liabilities_sample : ∃ s : HybridState,
    s.market.phase = .open ∧ s.market.yesQuantity = 10000001 ∧ 10000001 ≤ s.vault := by
  have hrun : (Sample.created >>= fun init => executeAll Sample.runtime init
      [Sample.openPosition Sample.alice, Sample.buyYes Sample.alice 10000001]).toOption.map
      (fun s => (s.market.phase, s.market.yesQuantity)) = some (.open, 10000001) := by
    decide +kernel
  obtain ⟨init, s, hinit, hs, hfields⟩ := executeAll_of_map hrun
  rw [Prod.mk.injEq] at hfields
  have hreach : Reaches (Step Sample.runtime) init s := ⟨_, executeAll_run (by
    simp [Sample.openPosition, Sample.buyYes, Instruction.signed]) hs⟩
  have hsolvent := vault_covers_liabilities (Sample.created_of_ok hinit) hreach
  have hcovers := (hsolvent.1 (.inl hfields.1)).1
  rw [hfields.2] at hcovers
  exact ⟨s, hfields.1, hfields.2, (Nat.le_max_left _ _).trans hcovers⟩

end Nortia.Hybrid
