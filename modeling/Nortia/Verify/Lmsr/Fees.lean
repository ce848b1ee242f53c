import Nortia.Verify.Lmsr.Paths
import Mathlib.Data.Rat.Floor

/-!
# The trading fee

The fee is the curvature `p (1 - p)` of the average price times the shares and the rate, rounded up
once at the end. The curvature is at most the price, which bounds the fee by the rate on the raw
amount, and at most a quarter, which bounds it by a quarter of the rate on the shares. Both bounds
survive the last rounding because a quotient rounded up is the least integer above it.
-/

namespace Nortia.Lmsr

open Lib

/-! ## The curvature -/

/-- The curvature is largest at the price one half. -/
theorem four_mul_curvature_le (raw shares : Nat) : 4 * curvature raw shares ≤ fixedScale := by
  have hcap : boundedPrice raw shares ≤ fixedScale := Nat.min_le_right _ _
  obtain ⟨rest, hrest⟩ := Nat.exists_eq_add_of_le hcap
  have hsquare : 4 * (boundedPrice raw shares * rest) ≤ fixedScale * fixedScale := by
    rw [hrest]
    nlinarith [sq_nonneg ((boundedPrice raw shares : Int) - rest)]
  have hcomplement : fixedScale - boundedPrice raw shares = rest := by omega
  have hpos : 0 < fixedScale := by decide
  rw [curvature, hcomplement]
  calc 4 * (boundedPrice raw shares * rest / fixedScale)
      ≤ 4 * (boundedPrice raw shares * rest) / fixedScale := Nat.mul_div_le_mul_div_assoc _ _ _
    _ ≤ fixedScale * fixedScale / fixedScale := Nat.div_le_div_right hsquare
    _ = fixedScale := Nat.mul_div_cancel _ hpos

/-! ## The bounds -/

/-- A rounded quotient is at most any ceiling that is above the quotient. -/
theorem ceilDiv_le_ceil {v d : Nat} {x : ℚ} (hd : 0 < d) (h : (v : ℚ) ≤ x * d) :
    ceilDiv v d ≤ ⌈x⌉₊ := by
  apply ceilDiv_le hd
  have hceil : (v : ℚ) ≤ (⌈x⌉₊ : ℚ) * d :=
    h.trans (mul_le_mul_of_nonneg_right (Nat.le_ceil x) (Nat.cast_nonneg d))
  exact_mod_cast hceil

theorem feeOf_le_raw (raw shares feeBps : Nat) :
    feeOf raw shares feeBps ≤ ⌈(raw * feeBps : ℚ) / 10000⌉₊ := by
  apply ceilDiv_le_ceil (by decide)
  have hnat : shares * feeBps * curvature raw shares ≤ raw * feeBps * fixedScale := by
    calc shares * feeBps * curvature raw shares
        = feeBps * (shares * curvature raw shares) := by ring
      _ ≤ feeBps * (raw * fixedScale) := Nat.mul_le_mul_left _ (mul_curvature_le raw shares)
      _ = raw * feeBps * fixedScale := by ring
  have hcast : ((shares * feeBps * curvature raw shares : Nat) : ℚ) ≤
      raw * feeBps * fixedScale := by
    exact_mod_cast hnat
  refine hcast.trans_eq ?_
  push_cast
  ring

theorem feeOf_le_shares (raw shares feeBps : Nat) :
    feeOf raw shares feeBps ≤ ⌈(shares * feeBps : ℚ) / 40000⌉₊ := by
  apply ceilDiv_le_ceil (by decide)
  have hnat : 4 * (shares * feeBps * curvature raw shares) ≤ shares * feeBps * fixedScale := by
    calc 4 * (shares * feeBps * curvature raw shares)
        = shares * feeBps * (4 * curvature raw shares) := by ring
      _ ≤ shares * feeBps * fixedScale := Nat.mul_le_mul_left _ (four_mul_curvature_le raw shares)
  have hcast : 4 * ((shares * feeBps * curvature raw shares : Nat) : ℚ) ≤
      shares * feeBps * fixedScale := by
    exact_mod_cast hnat
  push_cast at hcast ⊢
  linarith

/-! ## No sale costs more than it brings -/

section

variable {q : MarketQuantities} {b : Nat}

theorem failsIn_validateState : FailsIn (· ≠ .feeExceedsProceeds) (validateState q b) := by
  simp [validateState, validateLiquidity]

theorem failsIn_costFixed : FailsIn (· ≠ .feeExceedsProceeds) (costFixed q b) := by
  intro e h
  by_cases hq : Accepted q b
  · rw [costFixed_eq hq] at h
    cases h
  · rw [costFixed, bind_eq_error] at h
    rcases h with h | ⟨_, hvalid, -⟩
    · exact failsIn_validateState e h
    · exact absurd (validateState_iff.mp hvalid) hq

theorem failsIn_decrease (side : OutcomeSide) (s : Nat) :
    FailsIn (· ≠ .feeExceedsProceeds) (decrease q side s) := by
  cases side with
  | yes => simp [decrease]
  | no => simp [decrease]

/-- No sale is refused because of its fee, whatever the state, the trade and the rate. -/
theorem failsIn_quoteSell (side : OutcomeSide) (s fee : Nat) :
    FailsIn (· ≠ .feeExceedsProceeds) (quoteSell q b side s fee) := by
  intro e h
  have hparts := h
  simp only [quoteSell, bind_eq_error] at hparts
  rcases hparts with htrade | ⟨⟨⟩, htrade, hparts⟩
  · have hfails : FailsIn (· ≠ .feeExceedsProceeds) (validateTrade s fee) := by
      simp [validateTrade]
    exact hfails e htrade
  rcases hparts with hdec | ⟨r, hdec, hparts⟩
  · exact failsIn_decrease side s e hdec
  rcases hparts with hstate | ⟨⟨⟩, hstate, hparts⟩
  · exact failsIn_validateState e hstate
  rcases hparts with hcost | ⟨_, hcost, -⟩
  · exact failsIn_costFixed e hcost
  -- both states are accepted: only an amount of zero is refused
  have hr : Accepted r b := validateState_iff.mp hstate
  have hq : Accepted q b := validateState_iff.mp (costFixed_ok hcost).1
  cases decrease_eq_raised hdec
  rw [(quoteSell_eq htrade hr hq).2] at h
  split at h
  · cases h
    decide
  · cases h

end

/-! ## Every quote -/

/-- The fee of a quote is bounded by the raw amount and by the shares, and the total is the raw
amount with the fee added for a purchase and taken off for a sale. -/
structure FeeBounds (trade : Trade) (quote : TradeQuote) : Prop where
  le_raw : quote.feeAmount ≤ ⌈(quote.rawAmount * trade.feeBps : ℚ) / 10000⌉₊
  le_shares : quote.feeAmount ≤ ⌈(trade.shares * trade.feeBps : ℚ) / 40000⌉₊
  total_buy : trade.direction = .buy →
    (quote.totalAmount : Int) - quote.feeAmount = quote.rawAmount
  total_sell : trade.direction = .sell → quote.totalAmount + quote.feeAmount = quote.rawAmount

theorem quoteOf_feeBounds {before after : MarketQuantities} {b raw : Nat} {trade : Trade}
    (hfee : trade.feeBps ≤ maxTradingFeeBps) :
    FeeBounds trade (quoteOf ⟨trade.direction, trade.side, trade.shares, trade.feeBps⟩
      before after b raw) := by
  refine ⟨feeOf_le_raw _ _ _, feeOf_le_shares _ _ _, fun hbuy => ?_, fun hsell => ?_⟩
  · simp only [quoteOf, totalAmount, hbuy]
    omega
  · have hle := feeOf_le raw trade.shares hfee
    simp only [quoteOf, totalAmount, hsell]
    omega

/-- **LMSR fee bounds.** The fee of every successful quote is at most the rate on the raw amount
and a quarter of the rate on the shares, both rounded up; the total differs from the raw amount
by exactly the fee; and no sale is refused because its fee exceeds its proceeds. -/
theorem fee_bounds (q : MarketQuantities) (b : Nat) :
    (∀ trade quote, Trade.quote b q trade = .ok quote → FeeBounds trade quote) ∧
      ∀ side shares feeBps, quoteSell q b side shares feeBps ≠ .error .feeExceedsProceeds := by
  constructor
  · rintro ⟨direction, side, shares, feeBps⟩ quote h
    cases direction with
    | buy =>
      obtain ⟨htrade, -, -, rfl⟩ := quoteBuy_inv h
      have hfee : (Trade.mk .buy side shares feeBps).feeBps ≤ maxTradingFeeBps :=
        (validateTrade_ok.mp htrade).2
      exact quoteOf_feeBounds hfee
    | sell =>
      obtain ⟨htrade, r, -, -, -, rfl⟩ := quoteSell_inv h
      have hfee : (Trade.mk .sell side shares feeBps).feeBps ≤ maxTradingFeeBps :=
        (validateTrade_ok.mp htrade).2
      exact quoteOf_feeBounds hfee
  · intro side shares feeBps h
    exact failsIn_quoteSell side shares feeBps _ h rfl

/-- The smallest sale of a market of 100 units of collateral, at one percent. -/
theorem fee_bounds_smallest_sale :
    ∃ quote, quoteSell ⟨10000, 0⟩ 100000000 .yes 10000 100 = .ok quote ∧
      FeeBounds ⟨.sell, .yes, 10000, 100⟩ quote :=
  ⟨_, rfl, (fee_bounds ⟨10000, 0⟩ 100000000).1 ⟨.sell, .yes, 10000, 100⟩ _ rfl⟩

end Nortia.Lmsr
