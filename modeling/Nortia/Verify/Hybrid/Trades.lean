import Nortia.Verify.Hybrid.Solvency
import Mathlib.Algebra.BigOperators.Pi
import Mathlib.Algebra.BigOperators.Ring.Finset
import Mathlib.Algebra.BigOperators.Group.Finset.Piecewise
import Mathlib.Tactic.Abel

/-!
# Trades conserve tokens

The three accounts of a trade may be one, two or three. A transfer is described by the amounts it
adds to the accounts, as a function of the account, and these functions are added up: accounts
that coincide then get the sum of what is due to them, whichever transfers were merged or skipped.
-/

namespace Nortia.Hybrid

open Lib

/-! ## Movements of tokens -/

/-- Every account changes by its movement, and in nothing but its amount. -/
structure Moves (tokens tokens' : Tokens) (movement : Pubkey → Int) : Prop where
  amount : ∀ key, ((tokens' key).amount : Int) = (tokens key).amount + movement key
  owner : ∀ key, (tokens' key).owner = (tokens key).owner
  mint : ∀ key, (tokens' key).mint = (tokens key).mint

section

variable {tokens tokens' tokens'' : Tokens} {source destination key : Pubkey} {amount : Nat}

theorem Moves.refl (tokens : Tokens) : Moves tokens tokens 0 :=
  ⟨fun _ => (Int.add_zero _).symm, fun _ => rfl, fun _ => rfl⟩

theorem Moves.trans {f g : Pubkey → Int} (h : Moves tokens tokens' f)
    (h' : Moves tokens' tokens'' g) : Moves tokens tokens'' (f + g) := by
  refine ⟨fun key => ?_, fun key => ?_, fun key => ?_⟩
  · rw [h'.amount, h.amount, Pi.add_apply, Int.add_assoc]
  · exact (h'.owner key).trans (h.owner key)
  · exact (h'.mint key).trans (h.mint key)

/-- Nothing moves where an amount goes out of an account and back into it. -/
theorem Moves.refl_of_eq (tokens : Tokens) (h : amount = 0 ∨ source = destination) :
    Moves tokens tokens (Pi.single source (-(amount : Int)) + Pi.single destination (amount : Int)) := by
  have hnothing : Pi.single source (-(amount : Int)) + Pi.single destination (amount : Int) =
      (0 : Pubkey → Int) := by
    rcases h with rfl | rfl
    · simp
    · rw [← Pi.single_add, Int.add_left_neg, Pi.single_zero]
  rw [hnothing]
  exact .refl tokens

theorem setAmount_moves {change : Int} (h : (amount : Int) = (tokens key).amount + change) :
    Moves tokens (tokens.setAmount key amount) (Pi.single key change) := by
  refine ⟨fun other => ?_, fun other => ?_, fun other => ?_⟩
  · rcases eq_or_ne other key with rfl | hne
    · rw [Tokens.setAmount_self, Pi.single_eq_same]
      exact h
    · rw [Tokens.setAmount_of_ne tokens amount hne, Pi.single_eq_of_ne hne, Int.add_zero]
  · exact (tokens.setAmount_owner_mint key other amount).1
  · exact (tokens.setAmount_owner_mint key other amount).2

theorem debit_moves (h : tokens.debit source amount = .ok tokens') :
    Moves tokens tokens' (Pi.single source (-(amount : Int))) := by
  simp only [Tokens.debit, bind_eq_ok, require_eq_ok, Except.ok.injEq] at h
  obtain ⟨-, hfunds, rfl⟩ := h
  exact setAmount_moves (by omega)

theorem credit_moves (h : tokens.credit destination amount = .ok tokens') :
    Moves tokens tokens' (Pi.single destination (amount : Int)) := by
  rw [Tokens.credit_ok h]
  exact setAmount_moves (Int.natCast_add _ _)

theorem transferToVault_moves {vault : Nat} {balances : Balances}
    (h : transferToVault tokens source vault amount = .ok balances) :
    Moves tokens balances.tokens (Pi.single source (-(amount : Int))) := by
  unfold transferToVault at h
  split at h
  · next hzero =>
    cases h
    subst hzero
    rw [Int.natCast_zero, Int.neg_zero, Pi.single_zero]
    exact .refl tokens
  · simp only [bind_eq_ok, okOr_eq_ok, Except.ok.injEq] at h
    obtain ⟨t, hdebit, _, -, rfl⟩ := h
    exact debit_moves hdebit

theorem transferFromOwner_moves
    (h : transferFromOwner tokens source destination amount = .ok tokens') :
    Moves tokens tokens'
      (Pi.single source (-(amount : Int)) + Pi.single destination (amount : Int)) := by
  unfold transferFromOwner at h
  split at h
  · next hskipped =>
    cases h
    exact .refl_of_eq tokens hskipped
  · obtain ⟨t, hdebit, hcredit⟩ := bind_eq_ok.mp h
    exact (debit_moves hdebit).trans (credit_moves hcredit)

theorem transferFromHybridVault_moves {cached : Nat} {balances balances' : Balances}
    (h : transferFromHybridVault cached balances destination amount = .ok balances') :
    Moves balances.tokens balances'.tokens (Pi.single destination (amount : Int)) := by
  unfold transferFromHybridVault at h
  split at h
  · next hzero =>
    cases h
    subst hzero
    rw [Int.natCast_zero, Pi.single_zero]
    exact .refl _
  · simp only [bind_eq_ok, check_eq_ok, okOr_eq_ok, Except.ok.injEq] at h
    obtain ⟨-, -, _, -, t, hcredit, rfl⟩ := h
    exact credit_moves hcredit

/-- Merging the two fee transfers changes no account's due. -/
theorem coalesceHybridFeeTransfers_single {treasury liquidity : Pubkey} {a b : Nat}
    {parts : Nat × Nat} (h : coalesceHybridFeeTransfers treasury a liquidity b = .ok parts) :
    (Pi.single treasury (parts.1 : Int) + Pi.single liquidity (parts.2 : Int) : Pubkey → Int) =
      Pi.single treasury (a : Int) + Pi.single liquidity (b : Int) := by
  unfold coalesceHybridFeeTransfers at h
  split at h
  · cases h
    rfl
  · next hsame =>
    rw [not_not] at hsame
    subst hsame
    simp only [bind_eq_ok, orFail_eq_ok, checkedAdd_eq_some, Except.ok.injEq] at h
    obtain ⟨_, ⟨-, rfl⟩, rfl⟩ := h
    rw [Int.natCast_zero, Pi.single_zero, add_zero, Int.natCast_add, Pi.single_add]

/-- Tokens only move between accounts when the movements add up to nothing. -/
theorem Moves.sum {f : Pubkey → Int} (h : Moves tokens tokens' f) (keys : Finset Pubkey) :
    ((∑ key ∈ keys, (tokens' key).amount : Nat) : Int) =
      (∑ key ∈ keys, (tokens key).amount : Nat) + ∑ key ∈ keys, f key := by
  rw [Nat.cast_sum, Nat.cast_sum, ← Finset.sum_add_distrib]
  exact Finset.sum_congr rfl fun key _ => h.amount key

end

/-! ## What a trade moves -/

/-- The quote of a buy. -/
def buyQuote (s : HybridState) (args : TradeSharesArgs) : Except Failure Lmsr.TradeQuote := do
  let side ← lmsrSide args.side
  (Lmsr.quoteBuy (lmsrQuantities s.market) s.market.liquidityParameter side args.shares
    s.market.tradeFeeBps).mapError fun _ => .nortia .invalidLmsrState

/-- The quote of a sell. -/
def sellQuote (s : HybridState) (args : TradeSharesArgs) : Except Failure Lmsr.TradeQuote := do
  let side ← lmsrSide args.side
  (Lmsr.quoteSell (lmsrQuantities s.market) s.market.liquidityParameter side args.shares
    s.market.tradeFeeBps).mapError fun _ => .nortia .invalidLmsrState

/-- What is due to each account: the dues of all parties whose account it is. -/
def dues (accounts : TradeAccounts) (owner treasury liquidity : Int) : Pubkey → Int :=
  Pi.single accounts.ownerToken owner +
    (Pi.single accounts.treasuryToken treasury + Pi.single accounts.liquidityToken liquidity)

/-- A trade at a quote, where the vault gets `raw` and the owner `owner`. -/
structure Exchanged (s s' : HybridState) (accounts : TradeAccounts) (quote : Lmsr.TradeQuote)
    (raw owner : Int) : Prop where
  vault : (s'.vault : Int) = s.vault + raw
  bondVault : s'.bondVault = s.bondVault
  moves : ∃ fees, splitHybridFee quote.feeAmount s.market.treasuryFeeShareBps = .ok fees ∧
    Moves s.tokens s'.tokens (dues accounts owner fees.1 fees.2)
  total : ∀ keys : Finset Pubkey, accounts.ownerToken ∈ keys → accounts.treasuryToken ∈ keys →
    accounts.liquidityToken ∈ keys →
      ∑ key ∈ keys, (s'.tokens key).amount + s'.vault =
        ∑ key ∈ keys, (s.tokens key).amount + s.vault
  fees : s'.market.treasuryFees + s'.market.liquidityFees =
    s.market.treasuryFees + s.market.liquidityFees + quote.feeAmount

theorem dues_sum {accounts : TradeAccounts} {keys : Finset Pubkey}
    (howner : accounts.ownerToken ∈ keys) (htreasury : accounts.treasuryToken ∈ keys)
    (hliquidity : accounts.liquidityToken ∈ keys) (owner treasury liquidity : Int) :
    ∑ key ∈ keys, dues accounts owner treasury liquidity key = owner + (treasury + liquidity) := by
  simp only [dues, Pi.add_apply, Finset.sum_add_distrib, Finset.sum_pi_single', if_pos howner,
    if_pos htreasury, if_pos hliquidity]

/-- A vault that gets what all accounts lose keeps the total. -/
theorem total_of_dues {tokens tokens' : Tokens} {vault vault' : Nat} {accounts : TradeAccounts}
    {raw owner treasury liquidity : Int} (hvault : (vault' : Int) = vault + raw)
    (hmoves : Moves tokens tokens' (dues accounts owner treasury liquidity))
    (hbalance : raw + (owner + (treasury + liquidity)) = 0) (keys : Finset Pubkey)
    (howner : accounts.ownerToken ∈ keys) (htreasury : accounts.treasuryToken ∈ keys)
    (hliquidity : accounts.liquidityToken ∈ keys) :
    ∑ key ∈ keys, (tokens' key).amount + vault' = ∑ key ∈ keys, (tokens key).amount + vault := by
  have hsum := hmoves.sum keys
  rw [dues_sum howner htreasury hliquidity] at hsum
  omega

/-- The owner of a buy pays the raw amount and both fee transfers. -/
theorem buy_dues {accounts : TradeAccounts} {fees parts : Nat × Nat} {raw total : Nat}
    (hparts : coalesceHybridFeeTransfers accounts.treasuryToken fees.1 accounts.liquidityToken
      fees.2 = .ok parts) (htotal : total = raw + (fees.1 + fees.2)) :
    Pi.single accounts.ownerToken (-(raw : Int)) +
        (Pi.single accounts.ownerToken (-(parts.1 : Int)) +
          Pi.single accounts.treasuryToken (parts.1 : Int)) +
        (Pi.single accounts.ownerToken (-(parts.2 : Int)) +
          Pi.single accounts.liquidityToken (parts.2 : Int)) =
      dues accounts (-total) fees.1 fees.2 := by
  have howner : -(total : Int) = -raw + -parts.1 + -parts.2 := by
    have := coalesceHybridFeeTransfers_ok hparts
    omega
  rw [dues, ← coalesceHybridFeeTransfers_single hparts, howner, Pi.single_add, Pi.single_add]
  abel

/-- The vault pays the owner of a sell and both fee transfers. -/
theorem sell_dues {accounts : TradeAccounts} {fees parts : Nat × Nat}
    (hparts : coalesceHybridFeeTransfers accounts.treasuryToken fees.1 accounts.liquidityToken
      fees.2 = .ok parts) (total : Nat) :
    Pi.single accounts.ownerToken (total : Int) + Pi.single accounts.treasuryToken (parts.1 : Int) +
        Pi.single accounts.liquidityToken (parts.2 : Int) =
      dues accounts total fees.1 fees.2 := by
  rw [dues, ← coalesceHybridFeeTransfers_single hparts, add_assoc]

theorem buyHybridShares_exchanged {s s' : HybridState} {accounts : TradeAccounts}
    {args : TradeSharesArgs} {now : Int} (h : buyHybridShares s accounts args now = .ok s') :
    ∃ quote, buyQuote s args = .ok quote ∧
      Exchanged s s' accounts quote quote.rawAmount (-quote.totalAmount) := by
  simp only [buyHybridShares, bind_eq_ok, check_eq_ok, orFail_eq_ok, checkedAdd_eq_some,
    Except.ok.injEq] at h
  obtain ⟨_, -, _, -, side, hside, quote, hquote, -, -, fees, hfees, _, -, -, -, _, -, _, -,
    market, hmarket, balances, hbalances, parts, hparts, t₁, ht₁, t₂, ht₂, rfl⟩ := h
  obtain rfl := applyMarketTrade_ok hmarket
  have hsplit := splitHybridFee_ok hfees
  have htotal : quote.totalAmount = quote.rawAmount + (fees.1 + fees.2) := by
    obtain ⟨-, -, -, -, -, -, htotal, -⟩ := Lmsr.quoteBuy_ok (mapError_ok_iff.mp hquote)
    rw [htotal, hsplit]
  have hvault : (balances.vault : Int) = s.vault + quote.rawAmount := by
    rw [(transferToVault_ok hbalances).1]
    exact Int.natCast_add _ _
  have hmoves : Moves s.tokens t₂ (dues accounts (-quote.totalAmount) fees.1 fees.2) := by
    rw [← buy_dues hparts htotal]
    exact ((transferToVault_moves hbalances).trans (transferFromOwner_moves ht₁)).trans
      (transferFromOwner_moves ht₂)
  refine ⟨quote, bind_eq_ok.mpr ⟨side, hside, hquote⟩, hvault, rfl, ⟨fees, hfees, hmoves⟩, ?_, ?_⟩
  · refine total_of_dues hvault hmoves ?_
    omega
  · simp only
    omega

theorem sellHybridShares_exchanged {s s' : HybridState} {accounts : TradeAccounts}
    {args : TradeSharesArgs} {now : Int} (h : sellHybridShares s accounts args now = .ok s') :
    ∃ quote, sellQuote s args = .ok quote ∧
      Exchanged s s' accounts quote (-quote.rawAmount) quote.totalAmount := by
  simp only [sellHybridShares, bind_eq_ok, check_eq_ok, Except.ok.injEq] at h
  obtain ⟨_, -, _, -, side, hside, -, -, quote, hquote, -, -, fees, hfees, _, -, -, -, _, -,
    market, hmarket, parts, hparts, b₁, hb₁, b₂, hb₂, b₃, hb₃, rfl⟩ := h
  obtain rfl := applyMarketTrade_ok hmarket
  have hsplit := splitHybridFee_ok hfees
  have hparted := coalesceHybridFeeTransfers_ok hparts
  obtain ⟨-, -, -, -, -, -, htotal, -⟩ := Lmsr.quoteSell_ok (mapError_ok_iff.mp hquote)
  have hvault : (b₃.vault : Int) = s.vault + -quote.rawAmount := by
    obtain ⟨hle₁, hv₁, -⟩ := transferFromHybridVault_ok hb₁
    obtain ⟨hle₂, hv₂, -⟩ := transferFromHybridVault_ok hb₂
    obtain ⟨hle₃, hv₃, -⟩ := transferFromHybridVault_ok hb₃
    simp only at hle₁ hv₁
    omega
  have hmoves : Moves s.tokens b₃.tokens (dues accounts quote.totalAmount fees.1 fees.2) := by
    rw [← sell_dues hparts]
    exact ((transferFromHybridVault_moves hb₁).trans (transferFromHybridVault_moves hb₂)).trans
      (transferFromHybridVault_moves hb₃)
  refine ⟨quote, bind_eq_ok.mpr ⟨side, hside, hquote⟩, hvault, rfl, ⟨fees, hfees, hmoves⟩, ?_, ?_⟩
  · refine total_of_dues hvault hmoves ?_
    omega
  · simp only
    omega

/-! ## The fees of a run -/

/-- The fee amount of a quote, and nothing for none. -/
def quotedFee (quote : Except Failure Lmsr.TradeQuote) : Nat :=
  match quote with
  | .ok quote => quote.feeAmount
  | .error _ => 0

/-- The fee amount of the trade that an event is. -/
def tradeFee (s : HybridState) : Event → Nat
  | .call (.buyHybridShares _ args) _ => quotedFee (buyQuote s args)
  | .call (.sellHybridShares _ args) _ => quotedFee (sellQuote s args)
  | _ => 0

/-- **A step books the fee of its trade**, and nothing without one. -/
theorem step_books_fee {rt : Runtime} {s s' : HybridState} {event : Event}
    (h : Step rt s event s') :
    s'.market.treasuryFees + s'.market.liquidityFees =
      s.market.treasuryFees + s.market.liquidityFees + tradeFee s event := by
  have hkept : ∀ {market : HybridMarket}, s'.market = market →
      market.treasuryFees = s.market.treasuryFees →
      market.liquidityFees = s.market.liquidityFees →
      s'.market.treasuryFees + s'.market.liquidityFees =
        s.market.treasuryFees + s.market.liquidityFees + 0 := by
    intro market hmarket htreasury hliquidity
    rw [hmarket, htreasury, hliquidity, Nat.add_zero]
  cases step_effect h with
  | opened h => exact hkept h.market rfl rfl
  | @traded _ instruction _ _ _ _ hkind _ =>
    cases h with
    | call _ hcall =>
      cases instruction with
      | buyHybridShares accounts args =>
        obtain ⟨quote, hquote, hexchanged⟩ := buyHybridShares_exchanged hcall
        rw [hexchanged.fees, tradeFee, hquote, quotedFee]
      | sellHybridShares accounts args =>
        obtain ⟨quote, hquote, hexchanged⟩ := sellHybridShares_exchanged hcall
        rw [hexchanged.fees, tradeFee, hquote, quotedFee]
      | _ => cases hkind
  | locked h => exact hkept h.market rfl rfl
  | proposed h => exact hkept h.market rfl rfl
  | challenged _ h => exact hkept h.market rfl rfl
  | @resolved _ instruction _ _ _ hkind h =>
    obtain ⟨digest, hmarket⟩ := h.market
    cases instruction with
    | buyHybridShares accounts args => cases hkind
    | sellHybridShares accounts args => cases hkind
    | _ => exact hkept hmarket rfl rfl
  | bondClaimed h => exact hkept h.market rfl rfl
  | settled h => exact hkept h.market rfl rfl
  | withdrew h => exact hkept h.market rfl rfl
  | @deposited _ event hkind hdeposited =>
    cases event with
    | call instruction clock => cases hkind
    | _ => exact hkept hdeposited.market rfl rfl

/-- Over any run the fees of the market are those of all its trades. -/
theorem run_books_fees {rt : Runtime} {args : InitializeHybridMarketArgs} {now : Int}
    {init s : HybridState} {tr : List Event} {fees : Nat} (hinit : Created rt args now init)
    (hrun : Run (Run.Metered (Step rt) tradeFee) (init, 0) tr (s, fees)) :
    s.market.treasuryFees + s.market.liquidityFees = fees := by
  refine hrun.invariant (I := fun x => x.1.market.treasuryFees + x.1.market.liquidityFees = x.2)
    (fun x event y hI hstep => ?_) ?_
  · rw [step_books_fee hstep.1, hI, hstep.2]
  · obtain ⟨engine, tokens, creator, creatorToken, hcreated⟩ := hinit
    obtain ⟨-, -, -, subsidy, cap, -, -, hmarket, -⟩ := initializeHybridMarket_ok hcreated
    simp only [hmarket, newHybridMarket]

/-- **Trades conserve tokens.** Whichever of its accounts are one, a buy moves the raw amount into
the vault and a sell out of it, every account changes by what is due to its parties, the total
stays, and over any run the fees of the market are those of all its trades. -/
theorem trades_conserve_tokens (rt : Runtime) :
    (∀ s s' accounts args now, buyHybridShares s accounts args now = .ok s' →
      ∃ quote, buyQuote s args = .ok quote ∧
        Exchanged s s' accounts quote quote.rawAmount (-quote.totalAmount)) ∧
    (∀ s s' accounts args now, sellHybridShares s accounts args now = .ok s' →
      ∃ quote, sellQuote s args = .ok quote ∧
        Exchanged s s' accounts quote (-quote.rawAmount) quote.totalAmount) ∧
    ∀ args now init tr s fees, Created rt args now init →
      Run (Run.Metered (Step rt) tradeFee) (init, 0) tr (s, fees) →
      s.market.treasuryFees + s.market.liquidityFees = fees :=
  ⟨fun _ _ _ _ _ => buyHybridShares_exchanged, fun _ _ _ _ _ => sellHybridShares_exchanged,
    fun _ _ _ _ _ _ => run_books_fees⟩

namespace Sample

/-- A market whose creator also owns the treasury. -/
def createdOwn : Except Failure HybridState :=
  initializeHybridMarket runtime { engine with treasuryOwner := creator } tokens creator creator
    args 0

/-- The creator trades, and one account of theirs is all three of the trade. -/
def ownAccounts : TradeAccounts where
  owner := creator
  ownerToken := creator
  treasuryToken := creator
  liquidityToken := creator

def ownBuy : TradeSharesArgs where
  side := 1
  shares := 10000001
  amountGuard := 1000000000
  deadlineTs := 500

end Sample

open Nortia.Hybrid.Sample in
/-- The fees of a buy return to the account they are paid from. -/
theorem trades_conserve_tokens_one_account : ∃ s s' quote,
    Exchanged s s' ownAccounts quote quote.rawAmount (-quote.totalAmount) ∧
      s'.market.treasuryFees + s'.market.liquidityFees = 24985 := by
  have hrun : (createdOwn >>= fun init => executeAll runtime init [openPosition creator,
      (.buyHybridShares ownAccounts ownBuy, ⟨0, 10⟩)]).toOption.map
      (fun s => s.market.treasuryFees + s.market.liquidityFees) = some 24985 := by
    decide +kernel
  obtain ⟨init, s', -, hlist, hfees⟩ := executeAll_of_map hrun
  obtain ⟨s, -, hlist⟩ := bind_eq_ok.mp hlist
  obtain ⟨t, hbuy, hdone⟩ := bind_eq_ok.mp hlist
  cases hdone
  obtain ⟨quote, -, hexchanged⟩ :=
    (trades_conserve_tokens runtime).1 s s' ownAccounts ownBuy 10 hbuy
  exact ⟨s, s', quote, hexchanged, hfees⟩

end Nortia.Hybrid
