import Nortia.Verify.Hybrid.Invariant
import Nortia.Verify.Lmsr.Monotone

/-!
# The supply of the collateral mint

The tokens of one mint add up to a `u64`, wherever they are. A bond is posted out of what the vault
does not hold, and the vault holds the subsidy of the market up to what trades take from it, which
is at most the noise of the cost function.
-/

namespace Nortia.Hybrid

open Lib

variable {rt : Runtime} {s s' : HybridState} {event : Event}

/-! ## Supply -/

/-- What some token accounts hold together. -/
def holdings (tokens : Tokens) (keys : List Pubkey) : Nat :=
  (keys.map fun key => (tokens key).amount).sum

/-- The tokens of the collateral mint are a supply: those of any distinct accounts, of the vault
and of the bond vault fit a `u64` together. -/
def Supplied (s : HybridState) : Prop :=
  ∀ keys : List Pubkey, keys.Nodup →
    (∀ key ∈ keys, (s.tokens key).mint = s.market.collateralMint) →
      holdings s.tokens keys + s.vault + s.bondVault ≤ u64Max

/-- A step that leaves the mint a supply. -/
def SuppliedStep (rt : Runtime) (s : HybridState) (event : Event) (s' : HybridState) : Prop :=
  Step rt s event s' ∧ Supplied s'

theorem Supplied.of_same (h : Supplied s) (htokens : s'.tokens = s.tokens)
    (hmint : s'.market.collateralMint = s.market.collateralMint) (hvault : s'.vault = s.vault)
    (hbond : s'.bondVault = s.bondVault) : Supplied s' := by
  intro keys hnodup hkeys
  rw [htokens, hvault, hbond]
  exact h keys hnodup fun key hkey => by rw [← hmint, ← htokens]; exact hkeys key hkey

/-- Distinct accounts hold no more than the one account that holds anything. -/
theorem holdings_le {tokens : Tokens} {holder : Pubkey}
    (h : ∀ key, key ≠ holder → (tokens key).amount = 0) :
    ∀ {keys : List Pubkey}, keys.Nodup → holdings tokens keys ≤ (tokens holder).amount := by
  intro keys
  induction keys with
  | nil => exact fun _ => Nat.zero_le _
  | cons key rest ih =>
    intro hnodup
    obtain ⟨hnew, hrest⟩ := List.nodup_cons.mp hnodup
    have hcons : holdings tokens (key :: rest) = (tokens key).amount + holdings tokens rest := rfl
    by_cases hkey : key = holder
    · have hnone : holdings tokens rest = 0 := by
        refine List.sum_eq_zero fun amount hamount => ?_
        obtain ⟨other, hother, rfl⟩ := List.mem_map.mp hamount
        exact h other fun heq => hnew (hkey.trans heq.symm ▸ hother)
      rw [hcons, hnone, hkey]
      exact Nat.le_refl _
    · rw [hcons, h key hkey, Nat.zero_add]
      exact ih hrest

theorem supplied_of_holder (holder : Pubkey)
    (h : ∀ key, key ≠ holder → (s.tokens key).amount = 0)
    (hfits : (s.tokens holder).amount + s.vault + s.bondVault ≤ u64Max) : Supplied s := by
  intro keys hnodup _
  have hle := holdings_le h hnodup
  omega

/-- A market created when its creator holds all there is of the mint leaves it a supply. -/
theorem supplied_created {engine : EngineConfig} {tokens : Tokens} {creator creatorToken : Pubkey}
    {args : InitializeHybridMarketArgs} {now : Int}
    (h : initializeHybridMarket rt engine tokens creator creatorToken args now = .ok s)
    (hothers : ∀ key, key ≠ creatorToken → (tokens key).amount = 0)
    (hfits : (tokens creatorToken).amount ≤ u64Max) : Supplied s := by
  simp only [initializeHybridMarket, bind_eq_ok, Except.ok.injEq] at h
  obtain ⟨-, -, -, -, -, -, -, -, subsidy, -, cap, -, balances, hbalances, rfl⟩ := h
  obtain ⟨hsame, hpaid⟩ := transferToVault_source hbalances
  have hvault := (transferToVault_ok hbalances).1
  refine supplied_of_holder creatorToken (fun key hkey => ?_) ?_
  · show (balances.tokens key).amount = 0
    rw [hsame key hkey]
    exact hothers key hkey
  · show (balances.tokens creatorToken).amount + balances.vault + 0 ≤ u64Max
    omega

/-- A bond is posted out of what the vault does not hold. -/
theorem posted_fits (hs : Supplied s) {proposer proposerToken : Pubkey}
    {args : ProposeOptimisticArgs} {now : Int}
    (h : proposeOptimisticResolution rt s proposer proposerToken args now = .ok s') :
    s.oracle.bondAmount + s.vault ≤ u64Max := by
  simp only [proposeOptimisticResolution, bind_eq_ok, check_eq_ok, require_eq_ok,
    checkTokenAccount_ok] at h
  obtain ⟨-, -, -, -, -, -, -, ⟨-, hmint⟩, -, -, balances, hbalances, -⟩ := h
  have hone := hs [proposerToken] (List.nodup_singleton _)
    fun key hkey => by rw [List.mem_singleton.mp hkey]; exact hmint
  have hheld : holdings s.tokens [proposerToken] = (s.tokens proposerToken).amount := Nat.add_zero _
  rw [hheld] at hone
  unfold transferToVault at hbalances
  split at hbalances
  · next hzero => omega
  · simp only [Tokens.debit, bind_eq_ok, require_eq_ok] at hbalances
    obtain ⟨_, ⟨_, hfunds, -⟩, -⟩ := hbalances
    omega

/-! ## What the vault holds -/

/-- The cost of a market without shares exceeds that of any other by its noise at most. -/
theorem costFixed_zero_le {q : Lmsr.MarketQuantities} {b c c₀ : Nat}
    (h : Lmsr.costFixed q b = .ok c) (h₀ : Lmsr.costFixed ⟨0, 0⟩ b = .ok c₀) :
    c₀ ≤ c + 183 * Lmsr.fixedScale := by
  have hq := Lmsr.validateState_iff.mp (Lmsr.costFixed_ok h).1
  have hzero := Lmsr.validateState_iff.mp (Lmsr.costFixed_ok h₀).1
  obtain rfl := Except.ok.inj ((Lmsr.costFixed_eq hq).symm.trans h)
  obtain rfl := Except.ok.inj ((Lmsr.costFixed_eq hzero).symm.trans h₀)
  have hpos : 0 < b := Nat.lt_of_lt_of_le (by decide) hq.minLiquidity
  have hdrop := Lmsr.weighted_drop hpos hq.maxLiquidity 0 (Lmsr.absDiff q.yes q.no)
  have hdiff : Lmsr.absDiff q.yes q.no * Lmsr.fixedScale ≤ max q.yes q.no * Lmsr.fixedScale :=
    Nat.mul_le_mul_right _ (Nat.sub_le _ _)
  have hempty : Lmsr.absDiff 0 0 = 0 := rfl
  simp only [Lmsr.cost, Lmsr.ratioOf, hempty, Nat.max_self, Nat.zero_mul, Nat.zero_add,
    Nat.sub_zero] at hdrop ⊢
  omega

/-- Before a proposal the vault holds the subsidy and the cost of the shares sold so far, over the
cost of none. -/
def Subsidised (subsidy : Nat) (s : HybridState) : Prop :=
  s.market.phase = .open ∨ s.market.phase = .locked →
    ∃ c c₀, Lmsr.costFixed (lmsrQuantities s.market) s.market.liquidityParameter = .ok c ∧
      Lmsr.costFixed ⟨0, 0⟩ s.market.liquidityParameter = .ok c₀ ∧
      c + subsidy * Lmsr.fixedScale ≤ c₀ + s.vault * Lmsr.fixedScale

theorem Subsidised.step {subsidy : Nat} (hS : Subsidised subsidy s) (h : Step rt s event s') :
    Subsidised subsidy s' := by
  intro hphase
  cases step_effect h with
  | opened h =>
    rw [h.market, h.vault]
    exact hS (.inl h.phase)
  | traded _ h =>
    obtain ⟨c, c₀, hc, hc₀, hle⟩ := hS (.inl h.phase)
    obtain ⟨before, after, hbefore, hafter, hcost⟩ := h.cost
    obtain rfl := Except.ok.inj (hc.symm.trans hbefore)
    have hliquidity : s'.market.liquidityParameter = s.market.liquidityParameter :=
      field_of_terms HybridMarket.liquidityParameter (fun _ => rfl) h.terms
    rw [hliquidity]
    exact ⟨after, c₀, hafter, hc₀, by omega⟩
  | locked h =>
    rw [h.market, h.vault]
    exact hS (.inl h.phase)
  | proposed h => rw [h.market] at hphase; rcases hphase with h | h <;> cases h
  | challenged _ h => rw [h.market] at hphase; rcases hphase with h | h <;> cases h
  | resolved _ h =>
    obtain ⟨_, hmarket⟩ := h.market
    rw [hmarket] at hphase
    rcases hphase with h | h <;> cases h
  | bondClaimed h =>
    rw [h.market] at hphase ⊢
    rw [h.vault]
    exact hS hphase
  | settled h =>
    have hlate : s'.market.phase = .closed ∨ s'.market.phase = .resolved := by
      rw [h.market]
      exact ite_eq_or_eq _ _ _
    rcases hlate with h | h <;> rw [h] at hphase <;> rcases hphase with h | h <;> cases h
  | withdrew h =>
    have hlate : s'.market.phase = .closed ∨ s'.market.phase = .resolved := by
      rw [h.market]
      exact ite_eq_or_eq _ _ _
    rcases hlate with h | h <;> rw [h] at hphase <;> rcases hphase with h | h <;> cases h
  | deposited _ h =>
    rw [h.market] at hphase ⊢
    obtain ⟨c, c₀, hc, hc₀, hle⟩ := hS hphase
    have hvault := Nat.mul_le_mul_right Lmsr.fixedScale h.vault
    exact ⟨c, c₀, hc, hc₀, by omega⟩

theorem subsidised_created {args : InitializeHybridMarketArgs} {now : Int}
    (hinit : Created rt args now s) {subsidy : Nat}
    (hsubsidy : Lmsr.requiredSubsidy args.liquidityParameter args.roundingReserve = .ok subsidy) :
    Subsidised subsidy s := by
  obtain ⟨engine, tokens, creator, creatorToken, h⟩ := hinit
  obtain ⟨-, -, -, paid, cap, hpaid, -, hmarket, -, -, -, -, hvault, -⟩ :=
    initializeHybridMarket_ok h
  obtain rfl := Except.ok.inj (hpaid.symm.trans hsubsidy)
  obtain ⟨c₀, hc₀, -⟩ := Lmsr.costFixed_zero (Lmsr.requiredSubsidy_ok hsubsidy).1
  intro _
  rw [hmarket, hvault]
  exact ⟨c₀, c₀, hc₀, hc₀, Nat.le_refl _⟩

/-- Before a proposal the vault holds the subsidy but for the noise of the cost. -/
theorem Subsidised.vault {subsidy : Nat} (hS : Subsidised subsidy s)
    (hphase : s.market.phase = .open ∨ s.market.phase = .locked) : subsidy ≤ s.vault + 183 := by
  obtain ⟨c, c₀, hc, hc₀, hle⟩ := hS hphase
  have hnoise := costFixed_zero_le hc hc₀
  simp only [Lmsr.fixedScale] at *
  omega

/-- Without shares, the vault holds the subsidy. -/
theorem Subsidised.vault_of_untraded {subsidy : Nat} (hS : Subsidised subsidy s)
    (hnone : lmsrQuantities s.market = ⟨0, 0⟩)
    (hphase : s.market.phase = .open ∨ s.market.phase = .locked) : subsidy ≤ s.vault := by
  obtain ⟨c, c₀, hc, hc₀, hle⟩ := hS hphase
  rw [hnone] at hc
  obtain rfl := Except.ok.inj (hc.symm.trans hc₀)
  simp only [Lmsr.fixedScale] at *
  omega

/-! ## Markets nobody trades -/

/-- An event that is no trade. -/
def Untraded (event : Event) : Prop :=
  ∀ instruction clock, event = .call instruction clock → instruction.isTrade = false

/-- Only trades change the quantities. -/
theorem quantities_untraded (hevent : Untraded event) (h : Step rt s event s') :
    lmsrQuantities s'.market = lmsrQuantities s.market := by
  cases step_effect h with
  | opened h => rw [h.market]
  | traded hkind _ =>
    rw [hevent _ _ rfl] at hkind
    cases hkind
  | locked h => rw [h.market]; rfl
  | proposed h => rw [h.market]; rfl
  | challenged _ h => rw [h.market]; rfl
  | resolved _ h =>
    obtain ⟨_, hmarket⟩ := h.market
    rw [hmarket]
    rfl
  | bondClaimed h => rw [h.market]
  | settled h => rw [h.market]; rfl
  | withdrew h => rw [h.market]; rfl
  | deposited _ h => rw [h.market]

end Nortia.Hybrid
