import Nortia.Program.PrivateSystem

/-!
# What each private instruction does

One lemma for each instruction: what it checked and the state it leaves.
-/

namespace Nortia.PrivatePool

open Lib

variable {rt : PrivateRuntime} {s s' : PrivateState} {now : Int}

theorem initializeMarket_ok {protocol : ProtocolConfig} {tokens : Tokens} {creator : Pubkey}
    {collateralMint : Mint} {tokenProgram : Pubkey} {args : InitializeMarketArgs}
    (h : initializeMarket protocol tokens creator collateralMint tokenProgram args now = .ok s) :
    validMarketArgs args now ∧
      s = { market := newMarket protocol creator args, orders := [], claims := [], vault := 0,
            tokens } := by
  simp only [initializeMarket, bind_eq_ok, check_eq_ok, exists_const, Except.ok.injEq] at h
  obtain ⟨-, -, -, -, hargs, rfl⟩ := h
  exact ⟨hargs, rfl⟩

theorem syncMarketVerifiers_ok {protocol : ProtocolConfig} {authority : Pubkey}
    (h : syncMarketVerifiers s protocol authority now = .ok s') :
    marketVerifiersCanSync s.market s.vault ∧
      s' = { s with market := { s.market with
        placementVerifier := protocol.placementVerifier
        redeemVerifier := protocol.redeemVerifier } } := by
  simp only [syncMarketVerifiers, bind_eq_ok, check_eq_ok, exists_const, Except.ok.injEq] at h
  obtain ⟨-, -, -, hsync, rfl⟩ := h
  exact ⟨hsync, rfl⟩

/-- What an accepted order passed. -/
structure PlaceChecks (rt : PrivateRuntime) (s : PrivateState) (accounts : PlaceOrderAccounts)
    (args : PlaceOrderArgs) (now : Int) : Prop where
  phase : s.market.phase = .open
  beforeLock : now < s.market.lockTs
  fresh : (s.order? args.commitment).isNone = true
  verified : Zk.verifyPlace rt s.market accounts.payer args accounts.placementVerifier = .ok ()
  count : s.market.orderCount + 1 ≤ u32Max

theorem placeOrder_ok {accounts : PlaceOrderAccounts} {args : PlaceOrderArgs}
    (h : placeOrder rt s accounts args now = .ok s') :
    PlaceChecks rt s accounts args now ∧ s.vault + s.market.stakeAmount ≤ u64Max ∧
      ∃ tokens, s' = { s with
        market := { s.market with orderCount := s.market.orderCount + 1 }
        orders := s.orders ++ [newOrder rt s accounts.payer args]
        vault := s.vault + s.market.stakeAmount
        tokens } := by
  simp only [placeOrder, bind_eq_ok, check_eq_ok, require_eq_ok, orFail_eq_ok, checkedAdd_eq_some,
    exists_const, Except.ok.injEq] at h
  obtain ⟨-, -, hfresh, hphase, hlock, -, -, _, hverified, _, ⟨hcount, rfl⟩, balances, hdeposit,
    rfl⟩ := h
  obtain ⟨hvault, hfits⟩ := depositIntoVault_ok hdeposit
  exact ⟨⟨hphase, hlock, hfresh, hverified, hcount⟩, hfits, balances.tokens, by rw [← hvault]⟩

/-- What an accepted batch passed. -/
structure BatchChecks (s : PrivateState) (args : SubmitBatchArgs) (now : Int) : Prop where
  phase : s.market.phase = .open
  afterLock : s.market.lockTs ≤ now
  inTime : now ≤ s.market.batchDeadlineTs
  minSet : minPrivateBatchOrders ≤ s.market.orderCount
  counts : args.yesCount + args.noCount = s.market.orderCount
  amounts : validPrivateBatchAmounts s.market.stakeAmount args.yesCount args.noCount
    args.yesAmount args.noAmount = true

theorem submitBatch_ok {remainingAccounts : List AccountInfo} {args : SubmitBatchArgs}
    (h : submitBatch s remainingAccounts args now = .ok s') :
    BatchChecks s args now ∧
      s' = { s with market := { s.market with
        commitmentRoot := args.commitmentRoot
        yesCount := args.yesCount
        noCount := args.noCount
        yesAmount := args.yesAmount
        noAmount := args.noAmount
        phase := .batched } } := by
  simp only [submitBatch, bind_eq_ok, check_eq_ok, checkedAdd_eq_some, exists_const,
    Except.ok.injEq] at h
  obtain ⟨hphase, hlock, htime, -, -, hset, ⟨-, hcounts⟩, -, hamounts, -, -, rfl⟩ := h
  exact ⟨⟨hphase, hlock, htime, of_decide_eq_true hset, hcounts, hamounts⟩, rfl⟩

/-- What a resolution passed, with its division of the pool. -/
structure ResolveChecks (s : PrivateState) (isOver : Bool) (settlement : SettlementAmounts)
    (now : Int) : Prop where
  phase : s.market.phase = .batched
  inTime : now ≤ s.market.resolutionDeadlineTs
  settled : calculateSettlement (s.market.yesAmount + s.market.noAmount)
    (if isOver then s.market.yesAmount else s.market.noAmount) s.market.feeBps
    s.market.keeperRewardBps = .ok settlement
  escrowed : s.market.stakeAmount * s.market.orderCount ≤ s.vault
  fees : settlement.treasuryFee + settlement.keeperReward ≤ s.vault

theorem resolveMarket_ok {accounts : ResolveAccounts} {finalSeq : Nat}
    {payload : Txline.StatValidationInput}
    (h : resolveMarket rt s accounts finalSeq payload now = .ok s') :
    ∃ isOver settlement scoreA scoreB tokens, ResolveChecks s isOver settlement now ∧
      s' = { s with
        market := resolvedMarket rt.toRuntime s.market isOver settlement payload
          accounts.dailyScoresMerkleRoots.key finalSeq scoreA scoreB now
        vault := s.vault - settlement.treasuryFee - settlement.keeperReward
        tokens } := by
  simp only [resolveMarket, bind_eq_ok, check_eq_ok, orFail_eq_ok, okOr_eq_ok, checkedAdd_eq_some,
    checkedMul_eq_some, exists_const, Except.ok.injEq] at h
  obtain ⟨-, -, hphase, htime, -, isOver, -, _, ⟨-, rfl⟩, settlement, hsettled, _, ⟨-, rfl⟩,
    hescrowed, leafA, -, leafB, -, first, hfirst, second, hsecond, rfl⟩ := h
  obtain ⟨hle, hvault, -⟩ := transferFromVault_ok hfirst
  obtain ⟨hle', hvault', -⟩ := transferFromVault_ok hsecond
  have hfees : settlement.treasuryFee + settlement.keeperReward ≤ s.vault := by
    rw [hvault] at hle'
    dsimp only at hle hle'
    omega
  refine ⟨isOver, settlement, leafA.stat.value, leafB.stat.value, second.tokens,
    ⟨hphase, htime, hsettled, hescrowed, hfees⟩, ?_⟩
  rw [hvault', hvault]

theorem beginRefund_ok (h : beginRefund s now = .ok s') :
    timedOut s.market now ∧
      s' = { s with market := { s.market with
        phase := if s.market.orderCount = 0 then .closed else .refunding } } := by
  simp only [beginRefund, bind_eq_ok, check_eq_ok, exists_const, Except.ok.injEq] at h
  exact ⟨h.1, h.2.symm⟩

/-- What a refund passed. -/
structure RefundChecks (s : PrivateState) (payer : Pubkey) (commitment : Bytes32) (order : Order) :
    Prop where
  found : s.order? commitment = some order
  payer : order.payer = payer
  phase : s.market.phase = .refunding
  pending : order.refunded = false
  funds : s.market.stakeAmount ≤ s.vault

theorem refundOrder_ok {payer payerToken : Pubkey} {commitment : Bytes32}
    (h : refundOrder s payer payerToken commitment = .ok s') :
    ∃ order, RefundChecks s payer commitment order ∧
      s' = { s with
        market := { s.market with
          refundedCount := s.market.refundedCount + 1
          phase := if s.market.refundedCount + 1 = s.market.orderCount then .closed
            else s.market.phase }
        orders := markRefunded s.orders commitment
        vault := s.vault - s.market.stakeAmount
        tokens := s.tokens.setAmount payerToken
          ((s.tokens payerToken).amount + s.market.stakeAmount) } := by
  simp only [refundOrder, bind_eq_ok, check_eq_ok, orFail_eq_ok, okOr_eq_ok, checkedAdd_eq_some,
    exists_const, Except.ok.injEq] at h
  obtain ⟨order, hfound, hpayer, -, -, hphase, hpending, _, ⟨-, rfl⟩, balances, htransfer, rfl⟩ := h
  obtain ⟨hle, hvault, htokens⟩ := transferFromVault_ok htransfer
  refine ⟨order, ⟨hfound, hpayer, hphase, hpending, hle⟩, ?_⟩
  rw [hvault, htokens]

/-- What a redemption passed, with the amount it pays. -/
structure RedeemChecks (rt : PrivateRuntime) (s : PrivateState) (accounts : RedeemAccounts)
    (args : RedeemArgs) (amount : Nat) : Prop where
  fresh : (s.claim? args.nullifierHash).isNone = true
  phase : s.market.phase = .resolved
  count : s.market.claimedCount < s.market.orderCount
  verified : Zk.verifyRedeem rt s.market accounts.recipientOwner args accounts.redeemVerifier =
    .ok ()
  funds : args.payoutAmount ≤ s.vault
  amount : claimAmount s.market s.vault args.payoutAmount = .ok amount

/-- The claim a redemption writes. -/
def newClaim (rt : PrivateRuntime) (s : PrivateState) (accounts : RedeemAccounts)
    (args : RedeemArgs) (amount : Nat) : Claim where
  market := s.marketKey rt.toRuntime
  nullifierHash := args.nullifierHash
  recipientOwner := accounts.recipientOwner
  recipientToken := accounts.recipientToken
  amount := amount

/-- A claim pays what is asked, and the last one the dust of the vault up to its cap. -/
theorem claimAmount_ok {market : Market} {vault payoutAmount amount : Nat}
    (h : claimAmount market vault payoutAmount = .ok amount) :
    (market.claimedCount + 1 ≠ market.orderCount → amount = payoutAmount) ∧
    (market.claimedCount + 1 = market.orderCount → payoutAmount ≤ vault ∧
      amount = payoutAmount + min (vault - payoutAmount) (market.winningCount - 1)) := by
  unfold claimAmount at h
  split at h
  · next hfinal =>
    simp only [bind_eq_ok, orFail_eq_ok, checkedSub_eq_some, checkedAdd_eq_some] at h
    obtain ⟨_, ⟨hle, rfl⟩, -, rfl⟩ := h
    exact ⟨fun hne => absurd hfinal hne, fun _ => ⟨hle, rfl⟩⟩
  · next hnotFinal =>
    cases h
    exact ⟨fun _ => rfl, fun heq => absurd heq hnotFinal⟩

/-- The payment of a claim: nothing moves when there is nothing to pay. -/
theorem payClaim_ok {recipientToken : Pubkey} {amount : Nat} {balances : Balances}
    (h : payClaim s recipientToken amount = .ok balances) :
    amount ≤ s.vault ∧ balances.vault = s.vault - amount ∧
      balances.tokens =
        s.tokens.setAmount recipientToken ((s.tokens recipientToken).amount + amount) := by
  unfold payClaim at h
  split at h
  · exact transferFromVault_ok h
  · next hzero =>
    cases h
    obtain rfl : amount = 0 := Nat.eq_zero_of_not_pos hzero
    exact ⟨Nat.zero_le _, rfl, (Tokens.setAmount_amount_self _ _).symm⟩

/-- A claim the vault covers is never more than the vault. -/
theorem claimAmount_of_le {market : Market} {vault payoutAmount : Nat} (hle : payoutAmount ≤ vault)
    (hfits : payoutAmount + (market.winningCount - 1) ≤ u64Max) :
    ∃ amount, claimAmount market vault payoutAmount = .ok amount ∧ amount ≤ vault := by
  unfold claimAmount
  split
  · have hdust : checkedSub vault payoutAmount = some (vault - payoutAmount) :=
      checkedSub_eq_some.mpr ⟨hle, rfl⟩
    have hcap : min (vault - payoutAmount) (market.winningCount - 1) ≤ market.winningCount - 1 :=
      Nat.min_le_right _ _
    have hsum : checkedAdd u64Max payoutAmount
        (min (vault - payoutAmount) (market.winningCount - 1)) =
          some (payoutAmount + min (vault - payoutAmount) (market.winningCount - 1)) :=
      checkedAdd_eq_some.mpr ⟨by omega, rfl⟩
    refine ⟨payoutAmount + min (vault - payoutAmount) (market.winningCount - 1), ?_,
      Nat.add_le_of_le_sub' hle (Nat.min_le_left _ _)⟩
    simp only [hdust, hsum, orFail, okOr, ok_bind]
  · exact ⟨payoutAmount, rfl, hle⟩

/-- The payment of a claim the vault covers succeeds where the recipient has room for it. -/
theorem payClaim_of_le {recipientToken : Pubkey} {amount : Nat} (hle : amount ≤ s.vault)
    (hroom : (s.tokens recipientToken).amount + amount ≤ u64Max) :
    payClaim s recipientToken amount = .ok {
      tokens := s.tokens.setAmount recipientToken ((s.tokens recipientToken).amount + amount)
      vault := s.vault - amount } := by
  unfold payClaim
  split
  · exact transferFromVault_of_le hle hle hroom
  · next hzero =>
    obtain rfl : amount = 0 := Nat.eq_zero_of_not_pos hzero
    rw [Nat.add_zero, Tokens.setAmount_amount_self, Nat.sub_zero]

theorem redeem_ok {accounts : RedeemAccounts} {args : RedeemArgs}
    (h : redeem rt s accounts args = .ok s') :
    ∃ amount tokens, RedeemChecks rt s accounts args amount ∧ amount ≤ s.vault ∧
      tokens = s.tokens.setAmount accounts.recipientToken
        ((s.tokens accounts.recipientToken).amount + amount) ∧
      s' = { s with
        market := { s.market with
          claimedCount := s.market.claimedCount + 1
          phase := if s.market.claimedCount + 1 = s.market.orderCount then .closed
            else s.market.phase }
        claims := newClaim rt s accounts args amount :: s.claims
        vault := s.vault - amount
        tokens } := by
  simp only [redeem, bind_eq_ok, check_eq_ok, require_eq_ok, orFail_eq_ok, checkedAdd_eq_some,
    exists_const, Except.ok.injEq] at h
  obtain ⟨hfresh, -, -, hphase, hcount, _, hverified, hfunds, amount, hamount, _, ⟨-, rfl⟩,
    balances, hpayment, rfl⟩ := h
  obtain ⟨hle, hvault, htokens⟩ := payClaim_ok hpayment
  refine ⟨amount, balances.tokens, ⟨hfresh, hphase, hcount, hverified, hfunds, hamount⟩, hle,
    htokens, ?_⟩
  rw [hvault]
  rfl

end Nortia.PrivatePool
