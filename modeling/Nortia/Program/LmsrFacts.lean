import Nortia.Program.Lmsr

/-!
# What a successful quote says

Inversion lemmas of the market maker. A cost is the scaled largest quantity plus a non-negative
softplus term; a bought quote charges at least the cost difference and a sold quote returns at
most the cost difference (`quoteBuy_ok`, `quoteSell_ok`). The subsidy of `required_subsidy`
covers the cost of the empty market because the series for `ln 2` stays below the constant
(`costFixed_zero`).
-/

namespace Nortia.Lmsr

open Lib

/-! ## Division and validation -/

theorem mulDivFloor_ok {a b d q : Nat} :
    mulDivFloor a b d = .ok q ↔ d ≠ 0 ∧ a * b ≤ u128Max ∧ a * b / d = q := by
  simp only [mulDivFloor, bind_eq_ok, require_eq_ok, okOr_eq_ok, checkedMul_eq_some,
    Except.ok.injEq]
  constructor
  · rintro ⟨-, hd, v, ⟨hv, rfl⟩, hq⟩
    exact ⟨hd, hv, hq⟩
  · rintro ⟨hd, hv, hq⟩
    exact ⟨(), hd, _, ⟨hv, rfl⟩, hq⟩

/-- The quotient of `div_ceil`, from above and from below. -/
theorem divCeil_ok {v d q : Nat} (h : divCeil v d = .ok q) :
    d ≠ 0 ∧ v ≤ q * d ∧ q * d < v + d := by
  simp only [divCeil, bind_eq_ok, require_eq_ok] at h
  obtain ⟨-, hd, h⟩ := h
  have hdiv := Nat.div_add_mod v d
  have hmod := Nat.mod_lt v (Nat.pos_of_ne_zero hd)
  rw [Nat.mul_comm] at hdiv
  split at h
  · next hzero =>
    cases h
    exact ⟨hd, by omega, by omega⟩
  · next hpos =>
    simp only [okOr_eq_ok, checkedAdd_eq_some] at h
    obtain ⟨-, rfl⟩ := h
    rw [Nat.add_mul, Nat.one_mul]
    exact ⟨hd, by omega, by omega⟩

theorem toU64_ok {v q : Nat} : toU64 v = .ok q ↔ v ≤ u64Max ∧ v = q := by
  simp only [toU64, bind_eq_ok, require_eq_ok, Except.ok.injEq]
  exact ⟨fun ⟨_, h⟩ => h, fun h => ⟨(), h⟩⟩

theorem validateLiquidity_ok {b : Nat} {u : Unit} : validateLiquidity b = .ok u ↔
    minLiquidityParameter ≤ b ∧ b ≤ maxLiquidityParameter := by
  simp only [validateLiquidity, require_eq_ok]

theorem validateTrade_ok {shares fee : Nat} {u : Unit} : validateTrade shares fee = .ok u ↔
    (minTradeShares ≤ shares ∧ shares ≤ maxTradeShares) ∧ fee ≤ maxTradingFeeBps := by
  simp only [validateTrade, bind_eq_ok, require_eq_ok, exists_const]

/-- The quantities of a state the market maker accepts are bounded. -/
theorem validateState_ok {q : MarketQuantities} {b : Nat} {u : Unit}
    (h : validateState q b = .ok u) :
    (minLiquidityParameter ≤ b ∧ b ≤ maxLiquidityParameter) ∧
      q.yes ≤ maxOutcomeQuantity ∧ q.no ≤ maxOutcomeQuantity ∧
      absDiff q.yes q.no ≤ b * maxImbalanceMultiplier := by
  simp only [validateState, bind_eq_ok, require_eq_ok, okOr_eq_ok, checkedMul_eq_some,
    validateLiquidity_ok] at h
  obtain ⟨-, hb, -, hq, m, ⟨-, rfl⟩, hi⟩ := h
  exact ⟨hb, hq.1, hq.2, hi⟩

theorem increase_ok {q r : MarketQuantities} {side : OutcomeSide} {s : Nat}
    (h : increase q side s = .ok r) :
    match side with
    | .yes => r.yes = q.yes + s ∧ r.no = q.no
    | .no => r.yes = q.yes ∧ r.no = q.no + s := by
  cases side with
  | yes =>
    simp only [increase, bind_eq_ok, okOr_eq_ok, checkedAdd_eq_some, Except.ok.injEq] at h
    obtain ⟨y, ⟨-, rfl⟩, rfl⟩ := h
    exact ⟨rfl, rfl⟩
  | no =>
    simp only [increase, bind_eq_ok, okOr_eq_ok, checkedAdd_eq_some, Except.ok.injEq] at h
    obtain ⟨n, ⟨-, rfl⟩, rfl⟩ := h
    exact ⟨rfl, rfl⟩

theorem decrease_ok {q r : MarketQuantities} {side : OutcomeSide} {s : Nat}
    (h : decrease q side s = .ok r) :
    match side with
    | .yes => r.yes + s = q.yes ∧ r.no = q.no
    | .no => r.yes = q.yes ∧ r.no + s = q.no := by
  cases side with
  | yes =>
    simp only [decrease, bind_eq_ok, okOr_eq_ok, checkedSub_eq_some, Except.ok.injEq] at h
    obtain ⟨y, ⟨hy, rfl⟩, rfl⟩ := h
    exact ⟨Nat.sub_add_cancel hy, rfl⟩
  | no =>
    simp only [decrease, bind_eq_ok, okOr_eq_ok, checkedSub_eq_some, Except.ok.injEq] at h
    obtain ⟨n, ⟨hn, rfl⟩, rfl⟩ := h
    exact ⟨rfl, Nat.sub_add_cancel hn⟩

/-! ## Costs -/

/-- A cost is the scaled largest quantity plus the liquidity times the softplus of the
imbalance. -/
theorem costFixed_ok {q : MarketQuantities} {b c : Nat} (h : costFixed q b = .ok c) :
    validateState q b = .ok () ∧ ∃ ratio tail softplus,
      mulDivFloor (absDiff q.yes q.no) fixedScale b = .ok ratio ∧
      expNegativeFixed ratio = .ok tail ∧ lnOnePlusFixed tail = .ok softplus ∧
      c = max q.yes q.no * fixedScale + b * softplus := by
  simp only [costFixed, bind_eq_ok, okOr_eq_ok, checkedMul_eq_some, checkedAdd_eq_some] at h
  obtain ⟨⟨⟩, hv, ratio, hr, tail, ht, softplus, hs, _, ⟨-, rfl⟩, _, ⟨-, rfl⟩, -, rfl⟩ := h
  exact ⟨hv, ratio, tail, softplus, hr, ht, hs, rfl⟩

/-- The cost covers the largest quantity. -/
theorem max_le_costFixed {q : MarketQuantities} {b c : Nat} (h : costFixed q b = .ok c) :
    max q.yes q.no * fixedScale ≤ c := by
  obtain ⟨-, _, _, _, -, -, -, rfl⟩ := costFixed_ok h
  exact Nat.le_add_right _ _

theorem expNegativeFixed_zero : expNegativeFixed 0 = .ok fixedScale := by rfl

/-- The truncated series for `ln 2` is below the truncated constant. -/
theorem lnOnePlusFixed_one : lnOnePlusFixed fixedScale = .ok 693147180550 := by rfl

theorem validateState_zero {b : Nat}
    (hb : minLiquidityParameter ≤ b ∧ b ≤ maxLiquidityParameter) :
    validateState ⟨0, 0⟩ b = .ok () := by
  have hmul : checkedMul u64Max b maxImbalanceMultiplier = some (b * maxImbalanceMultiplier) := by
    have hhi := hb.2
    simp only [maxLiquidityParameter] at hhi
    simp only [checkedMul_eq_some, maxImbalanceMultiplier, and_true, u64Max]
    omega
  have hzero : 0 ≤ maxOutcomeQuantity := Nat.zero_le _
  have hdiff : absDiff 0 0 ≤ b * maxImbalanceMultiplier := Nat.zero_le _
  simp only [validateState, validateLiquidity, require_pos hb, ok_bind, hmul, okOr,
    require_pos (And.intro hzero hzero), require_pos hdiff]

/-- The market maker accepts the empty market, and the cost of it is at most the liquidity times
the constant of the subsidy. -/
theorem costFixed_zero {b : Nat} (hb : minLiquidityParameter ≤ b ∧ b ≤ maxLiquidityParameter) :
    ∃ c, costFixed ⟨0, 0⟩ b = .ok c ∧ 0 < c ∧ c ≤ b * ln2Fixed := by
  have hpos : 0 < b := Nat.lt_of_lt_of_le (by decide) hb.1
  obtain ⟨softplus, hsoftplus, hlo, hhi⟩ :
      ∃ softplus, lnOnePlusFixed fixedScale = .ok softplus ∧ 0 < softplus ∧
        softplus ≤ ln2Fixed := ⟨_, lnOnePlusFixed_one, by decide, by decide⟩
  have hratio : mulDivFloor (absDiff 0 0) fixedScale b = .ok 0 :=
    mulDivFloor_ok.mpr ⟨Nat.ne_of_gt hpos, Nat.zero_le _, Nat.zero_div b⟩
  have hbase : checkedMul u128Max (max 0 0) fixedScale = some 0 :=
    checkedMul_eq_some.mpr ⟨by rw [Nat.max_self, Nat.zero_mul]; exact Nat.zero_le _, Nat.zero_mul _⟩
  have hbound : b * softplus ≤ u128Max :=
    calc b * softplus ≤ maxLiquidityParameter * ln2Fixed := Nat.mul_le_mul hb.2 hhi
      _ ≤ u128Max := by decide
  have hweighted : checkedMul u128Max b softplus = some (b * softplus) :=
    checkedMul_eq_some.mpr ⟨hbound, rfl⟩
  have hsum : checkedAdd u128Max 0 (b * softplus) = some (b * softplus) :=
    checkedAdd_eq_some.mpr ⟨by rwa [Nat.zero_add], Nat.zero_add _⟩
  refine ⟨b * softplus, ?_, Nat.mul_pos hpos hlo, Nat.mul_le_mul_left b hhi⟩
  simp only [costFixed, bind_eq_ok, okOr_eq_ok]
  exact ⟨(), validateState_zero hb, 0, hratio, fixedScale, expNegativeFixed_zero, softplus,
    hsoftplus, 0, hbase, _, hweighted, hsum⟩

/-- A market always costs something. -/
theorem costFixed_pos {q : MarketQuantities} {b c : Nat} (h : costFixed q b = .ok c) : 0 < c := by
  have hmax := max_le_costFixed h
  obtain ⟨hv, -⟩ := costFixed_ok h
  obtain ⟨hb, -⟩ := validateState_ok hv
  by_cases hq : q = ⟨0, 0⟩
  · subst hq
    obtain ⟨_, hzero, hpos, -⟩ := costFixed_zero hb
    rw [hzero, Except.ok.injEq] at h
    exact h ▸ hpos
  · have hpos : 0 < max q.yes q.no := by
      obtain ⟨yes, no⟩ := q
      simp only [MarketQuantities.mk.injEq] at hq
      simp only
      omega
    have hscale := Nat.mul_le_mul_right fixedScale hpos
    simp only [fixedScale] at hscale hmax
    omega

/-- The subsidy, in scaled units, covers the cost constant and the rounding reserve. -/
theorem requiredSubsidy_ok {b reserve s : Nat} (h : requiredSubsidy b reserve = .ok s) :
    (minLiquidityParameter ≤ b ∧ b ≤ maxLiquidityParameter) ∧ s ≤ u64Max ∧
      b * ln2Fixed + reserve * fixedScale ≤ s * fixedScale := by
  simp only [requiredSubsidy, mulDivCeil, bind_eq_ok, okOr_eq_ok, checkedMul_eq_some,
    checkedAdd_eq_some, toU64_ok, validateLiquidity_ok] at h
  obtain ⟨-, hb, cost, ⟨_, ⟨-, rfl⟩, hc⟩, _, ⟨-, rfl⟩, hs, rfl⟩ := h
  obtain ⟨-, hc, -⟩ := divCeil_ok hc
  rw [Nat.add_mul]
  exact ⟨hb, hs, by omega⟩

/-! ## Quotes -/

/-- The parts of a quote that `build_quote` copies or computes from the fee. -/
theorem buildQuote_ok {r : QuoteRequest} {before after : MarketQuantities} {b raw : Nat}
    {quote : TradeQuote} (h : buildQuote r before after b raw = .ok quote) :
    quote.direction = r.direction ∧ quote.side = r.side ∧ quote.shares = r.shares ∧
      quote.rawAmount = raw ∧ quote.after = after ∧ quote.feeAmount ≤ u64Max ∧
      totalOf r.direction raw quote.feeAmount = .ok quote.totalAmount ∧
      quote.totalAmount ≠ 0 := by
  simp only [buildQuote, bind_eq_ok, require_eq_ok, toU64_ok, Except.ok.injEq] at h
  obtain ⟨_, -, _, -, _, -, _, -, _, -, _, -, fee, -, feeAmount, ⟨hfee, rfl⟩, total, htotal, -,
    hne, _, -, _, -, _, -, _, -, rfl⟩ := h
  exact ⟨rfl, rfl, rfl, rfl, rfl, hfee, htotal, hne⟩

/-- **A buy** moves to valid quantities and pays, scaled, at least the cost difference. -/
theorem quoteBuy_ok {q : MarketQuantities} {b s fee : Nat} {side : OutcomeSide}
    {quote : TradeQuote} (h : quoteBuy q b side s fee = .ok quote) :
    quote.side = side ∧ quote.shares = s ∧ increase q side s = .ok quote.after ∧
      validateState quote.after b = .ok () ∧ quote.rawAmount ≤ u64Max ∧
      quote.feeAmount ≤ u64Max ∧ quote.totalAmount = quote.rawAmount + quote.feeAmount ∧
      quote.totalAmount ≤ u64Max ∧ ∃ before after, costFixed q b = .ok before ∧
        costFixed quote.after b = .ok after ∧ after ≤ before + quote.rawAmount * fixedScale := by
  simp only [quoteBuy, bind_eq_ok, require_eq_ok, okOr_eq_ok, checkedSub_eq_some, toU64_ok] at h
  obtain ⟨-, -, after, hinc, ⟨⟩, hv, cb, hcb, ca, hca, delta, ⟨hle, rfl⟩, raw, hraw, _,
    ⟨hraw64, rfl⟩, -, -, hq⟩ := h
  obtain ⟨-, hside, hshares, rfl, rfl, hfee, htotal, -⟩ := buildQuote_ok hq
  simp only [totalOf, okOr_eq_ok, checkedAdd_eq_some] at htotal
  obtain ⟨-, hceil, -⟩ := divCeil_ok hraw
  exact ⟨hside, hshares, hinc, hv, hraw64, hfee, htotal.2.symm, htotal.2 ▸ htotal.1, cb, ca, hcb,
    hca, by omega⟩

/-- **A sell** moves to valid quantities and returns, scaled, at most the cost difference. -/
theorem quoteSell_ok {q : MarketQuantities} {b s fee : Nat} {side : OutcomeSide}
    {quote : TradeQuote} (h : quoteSell q b side s fee = .ok quote) :
    quote.side = side ∧ quote.shares = s ∧ decrease q side s = .ok quote.after ∧
      validateState quote.after b = .ok () ∧ quote.rawAmount ≤ u64Max ∧
      quote.feeAmount ≤ u64Max ∧ quote.totalAmount + quote.feeAmount = quote.rawAmount ∧
      ∃ before after, costFixed q b = .ok before ∧
        costFixed quote.after b = .ok after ∧ after + quote.rawAmount * fixedScale ≤ before := by
  simp only [quoteSell, bind_eq_ok, require_eq_ok, okOr_eq_ok, checkedSub_eq_some, toU64_ok] at h
  obtain ⟨-, -, after, hdec, ⟨⟩, hv, cb, hcb, ca, hca, delta, ⟨hle, rfl⟩, raw, ⟨hraw64, rfl⟩, -,
    -, hq⟩ := h
  obtain ⟨-, hside, hshares, hraw, rfl, hfee, htotal, -⟩ := buildQuote_ok hq
  simp only [totalOf, okOr_eq_ok, checkedSub_eq_some] at htotal
  have hfloor := Nat.div_mul_le_self (cb - ca) fixedScale
  rw [hraw]
  exact ⟨hside, hshares, hdec, hv, hraw64, hfee, by omega, cb, ca, hcb, hca, by omega⟩

end Nortia.Lmsr
