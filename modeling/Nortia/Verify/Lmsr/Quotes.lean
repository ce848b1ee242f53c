import Nortia.Verify.Lmsr.Monotone

/-!
# Quotes between accepted states

A trade between two accepted states moves the cost up by at most the shares traded, so its raw
amount never exceeds the shares, the cap of the average price never binds and the fee never exceeds
the raw amount. No checked operation of the two quotes fails there: they return the plain quote, or
the error for an amount of zero.
-/

namespace Nortia.Lmsr

open Lib

/-! ## The two directions -/

/-- The quantities with `s` more shares on one side. -/
def raised (q : MarketQuantities) (side : OutcomeSide) (s : Nat) : MarketQuantities :=
  match side with
  | .yes => { yes := q.yes + s, no := q.no }
  | .no => { yes := q.yes, no := q.no + s }

theorem increase_eq_raised {q r : MarketQuantities} {side : OutcomeSide} {s : Nat}
    (h : increase q side s = .ok r) : r = raised q side s := by
  cases side with
  | yes =>
    simp only [increase, bind_eq_ok, okOr_eq_ok, checkedAdd_eq_some, Except.ok.injEq] at h
    obtain ⟨_, ⟨-, rfl⟩, rfl⟩ := h
    rfl
  | no =>
    simp only [increase, bind_eq_ok, okOr_eq_ok, checkedAdd_eq_some, Except.ok.injEq] at h
    obtain ⟨_, ⟨-, rfl⟩, rfl⟩ := h
    rfl

theorem decrease_eq_raised {q r : MarketQuantities} {side : OutcomeSide} {s : Nat}
    (h : decrease q side s = .ok r) : q = raised r side s := by
  obtain ⟨yes, no⟩ := q
  cases side with
  | yes =>
    simp only [decrease, bind_eq_ok, okOr_eq_ok, checkedSub_eq_some, Except.ok.injEq] at h
    obtain ⟨_, ⟨hle, rfl⟩, rfl⟩ := h
    rw [raised, Nat.sub_add_cancel hle]
  | no =>
    simp only [decrease, bind_eq_ok, okOr_eq_ok, checkedSub_eq_some, Except.ok.injEq] at h
    obtain ⟨_, ⟨hle, rfl⟩, rfl⟩ := h
    rw [raised, Nat.sub_add_cancel hle]

theorem increase_eq_ok {q : MarketQuantities} {side : OutcomeSide} {b s : Nat}
    (h : Accepted (raised q side s) b) : increase q side s = .ok (raised q side s) := by
  have hyes := h.yes
  have hno := h.no
  have htop : maxOutcomeQuantity ≤ u64Max := by decide
  cases side with
  | yes =>
    simp only [increase, bind_eq_ok, okOr_eq_ok, checkedAdd_eq_some]
    exact ⟨_, ⟨hyes.trans htop, rfl⟩, rfl⟩
  | no =>
    simp only [increase, bind_eq_ok, okOr_eq_ok, checkedAdd_eq_some]
    exact ⟨_, ⟨hno.trans htop, rfl⟩, rfl⟩

theorem decrease_raised (q : MarketQuantities) (side : OutcomeSide) (s : Nat) :
    decrease (raised q side s) side s = .ok q := by
  obtain ⟨yes, no⟩ := q
  cases side with
  | yes =>
    simp only [decrease, raised, bind_eq_ok, okOr_eq_ok, checkedSub_eq_some]
    exact ⟨yes, ⟨Nat.le_add_left s yes, Nat.add_sub_cancel yes s⟩, rfl⟩
  | no =>
    simp only [decrease, raised, bind_eq_ok, okOr_eq_ok, checkedSub_eq_some]
    exact ⟨no, ⟨Nat.le_add_left s no, Nat.add_sub_cancel no s⟩, rfl⟩

theorem absDiff_comm (m n : Nat) : absDiff m n = absDiff n m := by
  rw [absDiff, absDiff, Nat.max_comm, Nat.min_comm]

theorem cost_comm (yes no b : Nat) : cost ⟨yes, no⟩ b = cost ⟨no, yes⟩ b := by
  rw [cost, cost, ratioOf, ratioOf, absDiff_comm, Nat.max_comm]

/-- **One trade** on either side. -/
theorem cost_raised {q : MarketQuantities} {b s : Nat} (hq : Accepted q b)
    (hs : minTradeShares ≤ s) (side : OutcomeSide) :
    cost q b ≤ cost (raised q side s) b ∧
      cost (raised q side s) b ≤ cost q b + s * fixedScale := by
  obtain ⟨yes, no⟩ := q
  cases side with
  | yes => exact cost_step hq.pos hq.maxLiquidity hs yes no
  | no =>
    rw [raised, cost_comm yes no, cost_comm yes (no + s)]
    exact cost_step hq.pos hq.maxLiquidity hs no yes

/-! ## The fee and the price -/

/-- The quotient rounded up, as `div_ceil` computes it. -/
def ceilDiv (v d : Nat) : Nat := if v % d = 0 then v / d else v / d + 1

theorem ceilDiv_le {v d n : Nat} (hd : 0 < d) (h : v ≤ n * d) : ceilDiv v d ≤ n := by
  have hmod := Nat.div_add_mod v d
  unfold ceilDiv
  split
  · exact Nat.div_le_of_le_mul (by rwa [Nat.mul_comm])
  · next hne =>
    apply (Nat.div_lt_iff_lt_mul hd).mpr
    apply Nat.lt_of_le_of_ne h
    rintro rfl
    exact hne (Nat.mul_mod_left n d)

theorem divCeil_eq {v d : Nat} (hd : 0 < d) (h : v < u128Max) :
    divCeil v d = .ok (ceilDiv v d) := by
  have hquot := Nat.div_le_self v d
  simp only [divCeil, require_pos (Nat.ne_of_gt hd), ok_bind, ceilDiv]
  split
  · rfl
  · rw [okOr_eq_ok, checkedAdd_eq_some]
    exact ⟨by omega, rfl⟩

/-- The average price in units of `1 / SCALE`, capped at one. -/
def boundedPrice (raw shares : Nat) : Nat := min (raw * fixedScale / shares) fixedScale

def curvature (raw shares : Nat) : Nat :=
  boundedPrice raw shares * (fixedScale - boundedPrice raw shares) / fixedScale

def feeOf (raw shares feeBps : Nat) : Nat :=
  ceilDiv (shares * feeBps * curvature raw shares) (10000 * fixedScale)

theorem curvature_le (raw shares : Nat) : curvature raw shares ≤ boundedPrice raw shares := by
  apply Nat.div_le_of_le_mul
  rw [Nat.mul_comm]
  exact Nat.mul_le_mul_right _ (Nat.sub_le _ _)

/-- The curvature of all shares is at most the scaled raw amount. -/
theorem mul_curvature_le (raw shares : Nat) :
    shares * curvature raw shares ≤ raw * fixedScale :=
  calc shares * curvature raw shares ≤ shares * (raw * fixedScale / shares) :=
        Nat.mul_le_mul_left _ ((curvature_le raw shares).trans (Nat.min_le_left _ _))
    _ ≤ raw * fixedScale := Nat.mul_div_le _ _

/-- A tenth of the price is charged at most, so the fee never exceeds the raw amount. -/
theorem feeOf_le (raw shares : Nat) {feeBps : Nat} (hfee : feeBps ≤ maxTradingFeeBps) :
    feeOf raw shares feeBps ≤ raw := by
  apply ceilDiv_le (by decide)
  calc shares * feeBps * curvature raw shares = feeBps * (shares * curvature raw shares) := by
        rw [Nat.mul_comm shares, Nat.mul_assoc]
    _ ≤ maxTradingFeeBps * (raw * fixedScale) := Nat.mul_le_mul hfee (mul_curvature_le raw shares)
    _ ≤ raw * (10000 * fixedScale) := by
        simp only [maxTradingFeeBps, fixedScale]
        omega

/-- A raw amount up to the shares keeps the average price below the cap. -/
theorem price_le {raw shares : Nat} (h : raw ≤ shares) : raw * fixedScale / shares ≤ fixedScale :=
  Nat.div_le_of_le_mul (Nat.mul_le_mul_right _ h)

/-! ## The quote -/

def totalAmount (direction : TradeDirection) (raw fee : Nat) : Nat :=
  match direction with
  | .buy => raw + fee
  | .sell => raw - fee

def quoteOf (r : QuoteRequest) (before after : MarketQuantities) (b raw : Nat) : TradeQuote where
  direction := r.direction
  side := r.side
  shares := r.shares
  rawAmount := raw
  feeAmount := feeOf raw r.shares r.feeBps
  totalAmount := totalAmount r.direction raw (feeOf raw r.shares r.feeBps)
  averagePrice := boundedPrice raw r.shares * probabilityScale / fixedScale
  beforeYesProbability := probability before b
  afterYesProbability := probability after b
  after := after

theorem totalOf_eq {direction : TradeDirection} {raw fee : Nat} (hraw : raw ≤ maxTradeShares)
    (hfee : fee ≤ raw) : totalOf direction raw fee = .ok (totalAmount direction raw fee) := by
  have htop : maxTradeShares + maxTradeShares ≤ u64Max := by decide
  cases direction with
  | buy =>
    rw [totalOf, okOr_eq_ok, checkedAdd_eq_some]
    exact ⟨by omega, rfl⟩
  | sell =>
    rw [totalOf, okOr_eq_ok, checkedSub_eq_some]
    exact ⟨hfee, rfl⟩

/-- **`build_quote`** between accepted states: only an amount of zero is refused. -/
theorem buildQuote_eq {r : QuoteRequest} {before after : MarketQuantities} {b raw : Nat}
    (hbefore : Accepted before b) (hafter : Accepted after b) (hraw : raw ≤ r.shares)
    (hshares : minTradeShares ≤ r.shares ∧ r.shares ≤ maxTradeShares)
    (hfee : r.feeBps ≤ maxTradingFeeBps) :
    buildQuote r before after b raw =
      if (quoteOf r before after b raw).totalAmount = 0 then .error .zeroAmount
      else .ok (quoteOf r before after b raw) := by
  have hne : r.shares ≠ 0 := by
    have := hshares.1
    simp only [minTradeShares] at this
    omega
  have hraw' : raw ≤ maxTradeShares := hraw.trans hshares.2
  have hbound : boundedPrice raw r.shares ≤ fixedScale := Nat.min_le_right _ _
  have hfee_le := feeOf_le raw r.shares hfee
  have hprice : mulDivFloor raw fixedScale r.shares = .ok (raw * fixedScale / r.shares) :=
    mulDivFloor_eq hne ((Nat.mul_le_mul_right _ hraw').trans (by decide))
  have hcomplement : okOr (checkedSub fixedScale (boundedPrice raw r.shares))
      LmsrError.arithmeticOverflow = .ok (fixedScale - boundedPrice raw r.shares) := by
    rw [okOr_eq_ok, checkedSub_eq_some]
    exact ⟨hbound, rfl⟩
  have hcurvature : mulDivFloor (boundedPrice raw r.shares)
      (fixedScale - boundedPrice raw r.shares) fixedScale = .ok (curvature raw r.shares) :=
    mulDivFloor_eq (by decide) ((Nat.mul_le_mul hbound (Nat.sub_le _ _)).trans fixedScale_sq_le)
  have hscaled : r.shares * r.feeBps ≤ maxTradeShares * maxTradingFeeBps :=
    Nat.mul_le_mul hshares.2 hfee
  have hbase : okOr (checkedMul u128Max r.shares r.feeBps) LmsrError.arithmeticOverflow =
      .ok (r.shares * r.feeBps) := by
    rw [okOr_eq_ok, checkedMul_eq_some]
    exact ⟨hscaled.trans (by decide), rfl⟩
  have hnumerator_le : r.shares * r.feeBps * curvature raw r.shares ≤
      maxTradeShares * maxTradingFeeBps * fixedScale :=
    Nat.mul_le_mul hscaled ((curvature_le raw r.shares).trans hbound)
  have hnumerator : okOr (checkedMul u128Max (r.shares * r.feeBps) (curvature raw r.shares))
      LmsrError.arithmeticOverflow = .ok (r.shares * r.feeBps * curvature raw r.shares) := by
    rw [okOr_eq_ok, checkedMul_eq_some]
    exact ⟨hnumerator_le.trans (by decide), rfl⟩
  have hdenominator : okOr (checkedMul u128Max 10000 fixedScale) LmsrError.arithmeticOverflow =
      .ok (10000 * fixedScale) := by rfl
  have hceil : divCeil (r.shares * r.feeBps * curvature raw r.shares) (10000 * fixedScale) =
      .ok (feeOf raw r.shares r.feeBps) :=
    divCeil_eq (by decide) (hnumerator_le.trans_lt (by decide))
  have hfee64 : toU64 (feeOf raw r.shares r.feeBps) = .ok (feeOf raw r.shares r.feeBps) :=
    toU64_ok.mpr ⟨(hfee_le.trans hraw').trans (by decide), rfl⟩
  have haverage : mulDivFloor (boundedPrice raw r.shares) probabilityScale fixedScale =
      .ok (boundedPrice raw r.shares * probabilityScale / fixedScale) :=
    mulDivFloor_eq (by decide) ((Nat.mul_le_mul_right _ hbound).trans (by decide))
  have haverage64 : toU64 (boundedPrice raw r.shares * probabilityScale / fixedScale) =
      .ok (boundedPrice raw r.shares * probabilityScale / fixedScale) :=
    toU64_ok.mpr ⟨(Nat.div_le_of_le_mul (Nat.mul_le_mul_right _ hbound)).trans (by decide), rfl⟩
  unfold buildQuote
  rw [hprice, ok_bind]
  change (okOr (checkedSub fixedScale (boundedPrice raw r.shares)) _ >>= _) = _
  rw [hcomplement, ok_bind]
  change (mulDivFloor (boundedPrice raw r.shares) _ _ >>= _) = _
  rw [hcurvature, ok_bind, hbase, ok_bind, hnumerator, ok_bind, hdenominator, ok_bind, hceil,
    ok_bind, hfee64, ok_bind, totalOf_eq hraw' hfee_le, ok_bind]
  have htotal : (quoteOf r before after b raw).totalAmount =
      totalAmount r.direction raw (feeOf raw r.shares r.feeBps) := rfl
  rw [htotal]
  by_cases hzero : totalAmount r.direction raw (feeOf raw r.shares r.feeBps) = 0
  · rw [require_neg (not_not.mpr hzero), if_pos hzero]
    rfl
  · rw [require_pos hzero, ok_bind, if_neg hzero]
    change (mulDivFloor (boundedPrice raw r.shares) _ _ >>= _) = _
    rw [haverage, ok_bind, haverage64, ok_bind, yesProbability_eq hbefore, ok_bind,
      yesProbability_eq hafter, ok_bind]
    rfl

/-- A purchase that raises accepted quantities: what `quote_buy` returns. -/
theorem quoteBuy_eq {q : MarketQuantities} {b s fee : Nat} {side : OutcomeSide}
    (htrade : validateTrade s fee = .ok ()) (hq : Accepted q b)
    (hr : Accepted (raised q side s) b) :
    ceilDiv (cost (raised q side s) b - cost q b) fixedScale ≤ s ∧
      quoteBuy q b side s fee =
        if ceilDiv (cost (raised q side s) b - cost q b) fixedScale = 0 then .error .zeroAmount
        else .ok (quoteOf ⟨.buy, side, s, fee⟩ q (raised q side s) b
          (ceilDiv (cost (raised q side s) b - cost q b) fixedScale)) := by
  obtain ⟨hs, hfee⟩ := validateTrade_ok.mp htrade
  obtain ⟨hlo, hhi⟩ := cost_raised hq hs.1 side
  have hraw : ceilDiv (cost (raised q side s) b - cost q b) fixedScale ≤ s :=
    ceilDiv_le (by decide) (by omega)
  have hdelta : okOr (checkedSub (cost (raised q side s) b) (cost q b))
      LmsrError.arithmeticOverflow = .ok (cost (raised q side s) b - cost q b) := by
    rw [okOr_eq_ok, checkedSub_eq_some]
    exact ⟨hlo, rfl⟩
  have hceil : divCeil (cost (raised q side s) b - cost q b) fixedScale =
      .ok (ceilDiv (cost (raised q side s) b - cost q b) fixedScale) :=
    divCeil_eq (by decide) ((Nat.sub_le _ _).trans_lt ((cost_le hr).trans_lt (by decide)))
  have hraw64 : toU64 (ceilDiv (cost (raised q side s) b - cost q b) fixedScale) =
      .ok (ceilDiv (cost (raised q side s) b - cost q b) fixedScale) :=
    toU64_ok.mpr ⟨(hraw.trans hs.2).trans (by decide), rfl⟩
  refine ⟨hraw, ?_⟩
  unfold quoteBuy
  rw [htrade, ok_bind, increase_eq_ok hr, ok_bind, validateState_eq hr, ok_bind, costFixed_eq hq,
    ok_bind, costFixed_eq hr, ok_bind, hdelta, ok_bind, hceil, ok_bind, hraw64, ok_bind]
  generalize ceilDiv (cost (raised q side s) b - cost q b) fixedScale = raw at *
  by_cases hzero : raw = 0
  · rw [require_neg (not_not.mpr hzero), if_pos hzero]
    rfl
  · have htotal : (quoteOf ⟨.buy, side, s, fee⟩ q (raised q side s) b raw).totalAmount ≠ 0 := by
      change raw + _ ≠ 0
      omega
    rw [require_pos hzero, ok_bind, if_neg hzero,
      buildQuote_eq (r := ⟨.buy, side, s, fee⟩) hq hr hraw hs hfee, if_neg htotal]

/-- A sale that lowers quantities to accepted ones: what `quote_sell` returns. -/
theorem quoteSell_eq {r : MarketQuantities} {b s fee : Nat} {side : OutcomeSide}
    (htrade : validateTrade s fee = .ok ()) (hr : Accepted r b)
    (hq : Accepted (raised r side s) b) :
    (cost (raised r side s) b - cost r b) / fixedScale ≤ s ∧
      quoteSell (raised r side s) b side s fee =
        if (quoteOf ⟨.sell, side, s, fee⟩ (raised r side s) r b
          ((cost (raised r side s) b - cost r b) / fixedScale)).totalAmount = 0
        then .error .zeroAmount
        else .ok (quoteOf ⟨.sell, side, s, fee⟩ (raised r side s) r b
          ((cost (raised r side s) b - cost r b) / fixedScale)) := by
  obtain ⟨hs, hfee⟩ := validateTrade_ok.mp htrade
  obtain ⟨hlo, hhi⟩ := cost_raised hr hs.1 side
  have hraw : (cost (raised r side s) b - cost r b) / fixedScale ≤ s :=
    Nat.div_le_of_le_mul (by rw [Nat.mul_comm]; omega)
  have hdelta : okOr (checkedSub (cost (raised r side s) b) (cost r b))
      LmsrError.arithmeticOverflow = .ok (cost (raised r side s) b - cost r b) := by
    rw [okOr_eq_ok, checkedSub_eq_some]
    exact ⟨hlo, rfl⟩
  have hraw64 : toU64 ((cost (raised r side s) b - cost r b) / fixedScale) =
      .ok ((cost (raised r side s) b - cost r b) / fixedScale) :=
    toU64_ok.mpr ⟨(hraw.trans hs.2).trans (by decide), rfl⟩
  refine ⟨hraw, ?_⟩
  unfold quoteSell
  rw [htrade, ok_bind, decrease_raised, ok_bind, validateState_eq hr, ok_bind, costFixed_eq hq,
    ok_bind, costFixed_eq hr, ok_bind, hdelta, ok_bind, hraw64, ok_bind]
  generalize (cost (raised r side s) b - cost r b) / fixedScale = raw at *
  rw [buildQuote_eq (r := ⟨.sell, side, s, fee⟩) hq hr hraw hs hfee]
  by_cases hzero : raw = 0
  · have htotal : (quoteOf ⟨.sell, side, s, fee⟩ (raised r side s) r b raw).totalAmount = 0 := by
      change raw - _ = 0
      omega
    rw [require_neg (not_not.mpr hzero), if_pos htotal]
    rfl
  · rw [require_pos hzero, ok_bind]

/-! ## What a successful quote is -/

theorem quoteBuy_inv {q : MarketQuantities} {b s fee : Nat} {side : OutcomeSide}
    {quote : TradeQuote} (h : quoteBuy q b side s fee = .ok quote) :
    validateTrade s fee = .ok () ∧ Accepted q b ∧ Accepted (raised q side s) b ∧
      quote = quoteOf ⟨.buy, side, s, fee⟩ q (raised q side s) b
        (ceilDiv (cost (raised q side s) b - cost q b) fixedScale) := by
  have hparts := h
  simp only [quoteBuy, bind_eq_ok] at hparts
  obtain ⟨⟨⟩, htrade, r, hinc, ⟨⟩, hr, _, hcost, -⟩ := hparts
  cases increase_eq_raised hinc
  have hq := validateState_iff.mp (costFixed_ok hcost).1
  have hr := validateState_iff.mp hr
  rw [(quoteBuy_eq htrade hq hr).2] at h
  split at h
  · cases h
  · exact ⟨htrade, hq, hr, (Except.ok.inj h).symm⟩

theorem quoteSell_inv {q : MarketQuantities} {b s fee : Nat} {side : OutcomeSide}
    {quote : TradeQuote} (h : quoteSell q b side s fee = .ok quote) :
    validateTrade s fee = .ok () ∧ ∃ r, q = raised r side s ∧ Accepted r b ∧ Accepted q b ∧
      quote = quoteOf ⟨.sell, side, s, fee⟩ q r b ((cost q b - cost r b) / fixedScale) := by
  have hparts := h
  simp only [quoteSell, bind_eq_ok] at hparts
  obtain ⟨⟨⟩, htrade, r, hdec, ⟨⟩, hr, _, hcost, -⟩ := hparts
  cases decrease_eq_raised hdec
  have hq := validateState_iff.mp (costFixed_ok hcost).1
  have hr := validateState_iff.mp hr
  rw [(quoteSell_eq htrade hr hq).2] at h
  split at h
  · cases h
  · exact ⟨htrade, r, rfl, hr, hq, (Except.ok.inj h).symm⟩

theorem ceilDiv_bounds {v d : Nat} (hd : 0 < d) :
    v ≤ ceilDiv v d * d ∧ ceilDiv v d * d < v + d := by
  have hdiv := Nat.div_add_mod' v d
  have hmod := Nat.mod_lt v hd
  unfold ceilDiv
  split
  · omega
  · rw [Nat.add_mul]
    omega

/-! ## Every trade between accepted states -/

/-- A raw amount that does not exceed the shares: the cap on the average price does not bind. -/
structure UncappedRaw (shares raw : Nat) : Prop where
  le_shares : raw ≤ shares
  uncapped : ∃ price, mulDivFloor raw fixedScale shares = .ok price ∧ min price fixedScale = price

theorem uncappedRaw_of_le {shares raw : Nat}
    (hshares : minTradeShares ≤ shares ∧ shares ≤ maxTradeShares) (hraw : raw ≤ shares) :
    UncappedRaw shares raw := by
  have hne : shares ≠ 0 := by
    have := hshares.1
    simp only [minTradeShares] at this
    omega
  refine ⟨hraw, _, mulDivFloor_eq hne ?_, Nat.min_eq_left (price_le hraw)⟩
  calc raw * fixedScale ≤ maxTradeShares * fixedScale :=
        Nat.mul_le_mul_right _ (hraw.trans hshares.2)
    _ ≤ u128Max := by decide

theorem averagePrice_le (raw shares : Nat) :
    boundedPrice raw shares * probabilityScale / fixedScale ≤ probabilityScale :=
  Nat.div_le_of_le_mul (Nat.mul_le_mul_right _ (Nat.min_le_right _ _))

theorem validateTrade_error {s fee : Nat} {e : LmsrError}
    (hs : minTradeShares ≤ s ∧ s ≤ maxTradeShares) (h : validateTrade s fee = .error e) :
    e = .invalidFee := by
  simp only [validateTrade, require_pos hs, ok_bind, require_eq_error] at h
  exact h.2.symm

/-- **Monotone at trade granularity.** Between accepted states a purchase of an admitted number of
shares never lowers the cost and a sale never raises it; the raw amount is at most the number of
shares, so the cap on the average price never binds, and no quote fails by an overflow. -/
theorem trade_cost_monotone {q after : MarketQuantities} {b s : Nat} (side : OutcomeSide)
    (hs : minTradeShares ≤ s ∧ s ≤ maxTradeShares) (hq : validateState q b = .ok ())
    (hafter : validateState after b = .ok ()) :
    (increase q side s = .ok after → ∃ low high raw,
      costFixed q b = .ok low ∧ costFixed after b = .ok high ∧ low ≤ high ∧
      divCeil (high - low) fixedScale = .ok raw ∧ UncappedRaw s raw ∧ ∀ fee, quoteBuy q b side s fee ≠ .error .arithmeticOverflow ∧
        ∀ quote, quoteBuy q b side s fee = .ok quote →
          quote.rawAmount = raw ∧ quote.averagePrice ≤ probabilityScale) ∧
    (decrease q side s = .ok after → ∃ low high,
      costFixed q b = .ok high ∧ costFixed after b = .ok low ∧ low ≤ high ∧
      UncappedRaw s ((high - low) / fixedScale) ∧
      ∀ fee, quoteSell q b side s fee ≠ .error .arithmeticOverflow ∧
        ∀ quote, quoteSell q b side s fee = .ok quote →
          quote.rawAmount = (high - low) / fixedScale ∧
          quote.averagePrice ≤ probabilityScale) := by
  have hq' := validateState_iff.mp hq
  have hafter' := validateState_iff.mp hafter
  constructor
  · intro hinc
    cases increase_eq_raised hinc
    obtain ⟨hlo, hhi⟩ := cost_raised hq' hs.1 side
    have hraw : ceilDiv (cost (raised q side s) b - cost q b) fixedScale ≤ s :=
      ceilDiv_le (by decide) (by omega)
    have hceil : divCeil (cost (raised q side s) b - cost q b) fixedScale =
        .ok (ceilDiv (cost (raised q side s) b - cost q b) fixedScale) :=
      divCeil_eq (by decide) ((Nat.sub_le _ _).trans_lt ((cost_le hafter').trans_lt (by decide)))
    refine ⟨_, _, _, costFixed_eq hq', costFixed_eq hafter', hlo, hceil,
      uncappedRaw_of_le hs hraw, fun fee => ?_⟩
    cases htrade : validateTrade s fee with
    | error e =>
      cases validateTrade_error hs htrade
      simp [quoteBuy, htrade]
    | ok u =>
      rw [(quoteBuy_eq htrade hq' hafter').2]
      split
      · simp
      · refine ⟨by simp, fun quote hquote => ?_⟩
        cases hquote
        exact ⟨rfl, averagePrice_le _ s⟩
  · intro hdec
    cases decrease_eq_raised hdec
    obtain ⟨hlo, hhi⟩ := cost_raised hafter' hs.1 side
    have hraw : (cost (raised after side s) b - cost after b) / fixedScale ≤ s :=
      Nat.div_le_of_le_mul (by rw [Nat.mul_comm]; omega)
    refine ⟨_, _, costFixed_eq hq', costFixed_eq hafter', hlo, uncappedRaw_of_le hs hraw,
      fun fee => ?_⟩
    cases htrade : validateTrade s fee with
    | error e =>
      cases validateTrade_error hs htrade
      simp [quoteSell, htrade]
    | ok u =>
      rw [(quoteSell_eq htrade hafter' hq').2]
      split
      · simp
      · refine ⟨by simp, fun quote hquote => ?_⟩
        cases hquote
        exact ⟨rfl, averagePrice_le _ s⟩

/-- The smallest trade in an empty market of 100 units of collateral. -/
theorem trade_cost_monotone_balanced :
    ∃ low high raw, costFixed ⟨0, 0⟩ 100000000 = .ok low ∧
      costFixed ⟨10000, 0⟩ 100000000 = .ok high ∧ low ≤ high ∧
      divCeil (high - low) fixedScale = .ok raw ∧ UncappedRaw 10000 raw ∧
      ∀ fee, quoteBuy ⟨0, 0⟩ 100000000 .yes 10000 fee ≠ .error .arithmeticOverflow ∧
        ∀ quote, quoteBuy ⟨0, 0⟩ 100000000 .yes 10000 fee = .ok quote →
          quote.rawAmount = raw ∧ quote.averagePrice ≤ probabilityScale :=
  (trade_cost_monotone (q := ⟨0, 0⟩) .yes (by decide) rfl rfl).1 rfl

end Nortia.Lmsr
