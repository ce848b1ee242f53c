import Nortia.Client.Lmsr
import Nortia.Verify.Lmsr.Quotes

/-!
# The two quote engines agree

The client computes in unbounded integers what the program computes in checked `u128` and `u64`.
On the states both accept each of them returns the same plain quote, and they refuse the same
inputs; the client has no overflow to fail on and the program never fails by one.
-/

namespace Nortia.Client

open Lib Lib.FixedPoint
open Nortia.Lmsr (OutcomeSide TradeDirection Accepted expValue lnValue cost probability ratioOf
  softplus raised ceilDiv)

/-! ## The quantities and quotes of the program as bigints -/

def ofQuantities (q : Lmsr.MarketQuantities) : MarketQuantities where
  yes := q.yes
  no := q.no

def ofQuote (quote : Lmsr.TradeQuote) : TradeQuote where
  direction := quote.direction
  side := quote.side
  shares := quote.shares
  rawAmount := quote.rawAmount
  feeAmount := quote.feeAmount
  totalAmount := quote.totalAmount
  averagePrice := quote.averagePrice
  beforeYesProbability := quote.beforeYesProbability
  afterYesProbability := quote.afterYesProbability
  after := ofQuantities quote.after

/-! ## Division -/

theorem mulDivFloor_natCast {a b d : Nat} (hd : 0 < d) :
    mulDivFloor a b d = .ok ((a * b / d : Nat) : Int) := by
  have hok : ¬((a : Int) < 0 ∨ (b : Int) < 0 ∨ (d : Int) ≤ 0) := by omega
  rw [mulDivFloor, require_pos hok, ok_bind, Int.ofNat_tdiv]
  push_cast
  rfl

theorem divCeil_natCast {v d : Nat} (hd : 0 < d) :
    divCeil v d = .ok ((ceilDiv v d : Nat) : Int) := by
  have hok : ¬((v : Int) < 0 ∨ (d : Int) ≤ 0) := by omega
  have hrest : (v : Int).tmod d = ((v % d : Nat) : Int) := (Int.ofNat_tmod v d).symm
  have hquot : (v : Int).tdiv d = ((v / d : Nat) : Int) := (Int.ofNat_tdiv v d).symm
  rw [divCeil, require_pos hok, ok_bind, hrest, hquot, ceilDiv]
  by_cases hzero : v % d = 0
  · rw [if_pos hzero, if_pos (by exact_mod_cast hzero)]
  · rw [if_neg hzero, if_neg (by exact_mod_cast hzero)]
    push_cast
    rfl

theorem lmsrFixedScale_eq : lmsrFixedScale = ((Lmsr.fixedScale : Nat) : Int) := by decide

theorem lmsrProbabilityScale_eq :
    lmsrProbabilityScale = ((Lmsr.probabilityScale : Nat) : Int) := by decide

theorem ln2Fixed_eq : ln2Fixed = ((Lmsr.ln2Fixed : Nat) : Int) := by decide

theorem fixedScale_pos : 0 < Lmsr.fixedScale := by decide

/-! ## The two series -/

theorem expLoop_eq {r : Nat} (n k : Nat) :
    expLoop r (List.range' (k + 1) n) (expTerm Lmsr.fixedScale r k : Nat)
        (expSum Lmsr.fixedScale r k) = .ok (expSum Lmsr.fixedScale r (k + n)) := by
  induction n generalizing k with
  | zero => rfl
  | succ n ih =>
    have hterm : ((expTerm Lmsr.fixedScale r k * r / Lmsr.fixedScale : Nat) : Int).tdiv
        ((k + 1 : Nat) : Int) = (expTerm Lmsr.fixedScale r (k + 1) : Nat) :=
      (Int.ofNat_tdiv _ _).symm
    have hsum : (if (k + 1) % 2 = 1 then
        expSum Lmsr.fixedScale r k - (expTerm Lmsr.fixedScale r (k + 1) : Nat)
        else expSum Lmsr.fixedScale r k + (expTerm Lmsr.fixedScale r (k + 1) : Nat)) =
        expSum Lmsr.fixedScale r (k + 1) := by
      by_cases hodd : (k + 1) % 2 = 1
      · rw [if_pos hodd, expSum_succ_of_even (by omega)]
      · rw [if_neg hodd, expSum_succ_of_odd (by omega)]
    rw [List.range'_succ, expLoop, lmsrFixedScale_eq, mulDivFloor_natCast fixedScale_pos, ok_bind]
    change expLoop _ _ (Int.tdiv _ ((k + 1 : Nat) : Int)) (ite _ (_ - Int.tdiv _ _) _) = _
    rw [hterm, hsum, Nat.add_comm n 1, ← Nat.add_assoc]
    exact ih (k + 1)

theorem expNegativeFixed_natCast (x : Nat) : expNegativeFixed x = .ok (expValue x : Int) := by
  have hr := Lmsr.remainder_le x
  have hnonneg := expSum_nonneg hr 22
  have hpower : (x : Int).tdiv ln2Fixed = ((x / Lmsr.ln2Fixed : Nat) : Int) := by
    rw [ln2Fixed_eq, Int.ofNat_tdiv]
  have hremainder : (x : Int).tmod ln2Fixed = ((x % Lmsr.ln2Fixed : Nat) : Int) := by
    rw [ln2Fixed_eq, Int.ofNat_tmod]
  have hvalue := Lmsr.expNegativeFixed_eq x
  unfold Lmsr.expNegativeFixed at hvalue
  rw [expNegativeFixed, hpower, hremainder]
  by_cases hlarge : 127 < x / Lmsr.ln2Fixed
  · rw [if_pos hlarge] at hvalue
    rw [if_pos (by exact_mod_cast hlarge), ← Except.ok.inj hvalue]
    rfl
  · have hloop := expLoop_eq (r := x % Lmsr.ln2Fixed) 22 0
    rw [if_neg (by exact_mod_cast hlarge), lmsrFixedScale_eq]
    change (expLoop _ _ (expTerm Lmsr.fixedScale (x % Lmsr.ln2Fixed) 0 : Nat)
      (expSum Lmsr.fixedScale (x % Lmsr.ln2Fixed) 0) >>= _) = _
    rw [hloop, ok_bind, Nat.zero_add, Int.toNat_natCast, expValue, Int.natCast_shiftRight,
      Int.toNat_of_nonneg hnonneg]

theorem lnLoop_eq (v n k : Nat) :
    lnLoop ((lnRatio Lmsr.fixedScale v * lnRatio Lmsr.fixedScale v / Lmsr.fixedScale : Nat) : Int)
        (List.range' (2 * k + 3) n 2) (lnPower Lmsr.fixedScale v k : Nat)
        (lnSum Lmsr.fixedScale v k : Nat) = .ok ((lnSum Lmsr.fixedScale v (k + n) : Nat) : Int) := by
  induction n generalizing k with
  | zero => rfl
  | succ n ih =>
    have hsum : ((lnSum Lmsr.fixedScale v k : Nat) : Int) +
        Int.tdiv (lnPower Lmsr.fixedScale v (k + 1) : Nat) ((2 * k + 3 : Nat) : Int) =
        (lnSum Lmsr.fixedScale v (k + 1) : Nat) := by
      rw [← Int.ofNat_tdiv, lnSum]
      push_cast
      rfl
    rw [List.range'_succ, lnLoop, lmsrFixedScale_eq, mulDivFloor_natCast fixedScale_pos, ok_bind]
    change lnLoop _ _ (lnPower Lmsr.fixedScale v (k + 1) : Nat) (_ + Int.tdiv
      (lnPower Lmsr.fixedScale v (k + 1) : Nat) ((2 * k + 3 : Nat) : Int)) = _
    rw [hsum, Nat.add_comm n 1, ← Nat.add_assoc]
    exact ih (k + 1)

theorem lnOnePlusFixed_natCast {v : Nat} (hv : v ≤ Lmsr.fixedScale) :
    lnOnePlusFixed v = .ok (lnValue v : Int) := by
  have hok : ¬((v : Int) < 0 ∨ ((Lmsr.fixedScale : Nat) : Int) < (v : Int)) := by omega
  have hden : 2 * ((Lmsr.fixedScale : Nat) : Int) + (v : Int) =
      ((2 * Lmsr.fixedScale + v : Nat) : Int) := by
    push_cast
    rfl
  have hloop := lnLoop_eq v 16 0
  rw [lnOnePlusFixed, lmsrFixedScale_eq, require_pos hok, ok_bind, hden,
    mulDivFloor_natCast (Nat.add_pos_left (by decide) v), ok_bind,
    mulDivFloor_natCast fixedScale_pos, ok_bind]
  change (lnLoop ((lnRatio Lmsr.fixedScale v * lnRatio Lmsr.fixedScale v / Lmsr.fixedScale : Nat)
    : Int) (List.range' (2 * 0 + 3) 16 2) (lnPower Lmsr.fixedScale v 0 : Nat)
    (lnSum Lmsr.fixedScale v 0 : Nat) >>= _) = _
  rw [hloop, ok_bind, lnValue, Nat.zero_add]
  push_cast
  rfl

/-! ## Validation -/

theorem validateTrade_iff {s fee : Nat} {u : Unit} :
    validateTrade s fee = .ok u ↔ Lmsr.validateTrade s fee = .ok u := by
  simp only [validateTrade, bind_eq_ok, require_eq_ok, exists_const, Lmsr.validateTrade_ok]
  simp only [isSafeInteger, minTradeShares, maxTradeShares, maxTradingFeeBps,
    Lmsr.minTradeShares, Lmsr.maxTradeShares, Lmsr.maxTradingFeeBps, Bool.and_eq_false_iff,
    decide_eq_false_iff_not]
  omega

theorem absoluteDifference_natCast (m n : Nat) :
    absoluteDifference m n = ((Lmsr.absDiff m n : Nat) : Int) := by
  unfold absoluteDifference Lmsr.absDiff
  split <;> omega

theorem validateState_iff {q : Lmsr.MarketQuantities} {b : Nat} {u : Unit} :
    validateState (ofQuantities q) b = .ok u ↔ Accepted q b := by
  simp only [validateState, validateLiquidity, bind_eq_ok, require_eq_ok, exists_const]
  simp only [ofQuantities, absoluteDifference_natCast, minLiquidityParameter,
    maxLiquidityParameter, maxOutcomeQuantity, maxImbalanceMultiplier]
  constructor
  · rintro ⟨hb, hq, hdiff⟩
    refine ⟨?_, ?_, ?_, ?_, ?_⟩ <;>
      simp only [Lmsr.minLiquidityParameter, Lmsr.maxLiquidityParameter, Lmsr.maxOutcomeQuantity,
        Lmsr.maxImbalanceMultiplier] <;> omega
  · rintro ⟨hmin, hmax, hyes, hno, hdiff⟩
    simp only [Lmsr.minLiquidityParameter, Lmsr.maxLiquidityParameter, Lmsr.maxOutcomeQuantity,
      Lmsr.maxImbalanceMultiplier] at hmin hmax hyes hno hdiff
    omega

theorem validateState_eq {q : Lmsr.MarketQuantities} {b : Nat} (h : Accepted q b) :
    validateState (ofQuantities q) b = .ok () :=
  validateState_iff.mpr h

/-! ## Costs and probabilities -/

section

variable {q : Lmsr.MarketQuantities} {b : Nat} (h : Accepted q b)
include h

theorem lmsrCostFixed_eq : lmsrCostFixed (ofQuantities q) b = .ok (cost q b : Int) := by
  have hmax : (if (q.no : Int) < q.yes then (q.yes : Int) else q.no) =
      ((max q.yes q.no : Nat) : Int) := by
    split <;> omega
  unfold lmsrCostFixed
  rw [validateState_eq h, ok_bind]
  change (mulDivFloor (absoluteDifference q.yes q.no) lmsrFixedScale b >>= _) = _
  rw [absoluteDifference_natCast, lmsrFixedScale_eq, mulDivFloor_natCast h.pos, ok_bind,
    expNegativeFixed_natCast, ok_bind, lnOnePlusFixed_natCast (Lmsr.expValue_le _), ok_bind]
  change Except.ok ((if (q.no : Int) < q.yes then (q.yes : Int) else q.no) *
    ((Lmsr.fixedScale : Nat) : Int) + (b : Int) * (softplus (ratioOf q b) : Nat)) = _
  rw [hmax, cost]
  push_cast
  rfl

theorem lmsrYesProbability_eq :
    lmsrYesProbability (ofQuantities q) b = .ok (probability q b : Int) := by
  have hhalf := Lmsr.lowerProbability_le (ratioOf q b)
  have hden : ((Lmsr.fixedScale : Nat) : Int) + (expValue (ratioOf q b) : Int) =
      ((Lmsr.fixedScale + expValue (ratioOf q b) : Nat) : Int) := by
    push_cast
    rfl
  unfold lmsrYesProbability
  rw [validateState_eq h, ok_bind]
  change (mulDivFloor (absoluteDifference q.yes q.no) lmsrFixedScale b >>= _) = _
  rw [absoluteDifference_natCast, lmsrFixedScale_eq, mulDivFloor_natCast h.pos, ok_bind,
    expNegativeFixed_natCast, ok_bind]
  change (mulDivFloor (expValue (ratioOf q b)) lmsrProbabilityScale
    (((Lmsr.fixedScale : Nat) : Int) + (expValue (ratioOf q b) : Int)) >>= _) = _
  rw [hden, lmsrProbabilityScale_eq, mulDivFloor_natCast (Nat.add_pos_left (by decide) _), ok_bind]
  change Except.ok (if (q.no : Int) ≤ q.yes then
    ((Lmsr.probabilityScale : Nat) : Int) - (Lmsr.lowerProbability (ratioOf q b) : Nat)
    else (Lmsr.lowerProbability (ratioOf q b) : Nat)) = _
  unfold probability
  by_cases hyes : q.no ≤ q.yes
  · rw [if_pos hyes, if_pos (by exact_mod_cast hyes), Int.ofNat_sub (by omega)]
  · rw [if_neg hyes, if_neg (by exact_mod_cast hyes)]

end

/-! ## Quotes -/

theorem buildQuote_natCast {r : Lmsr.QuoteRequest} {before after : Lmsr.MarketQuantities}
    {b : Nat} (raw : Nat) (hbefore : Accepted before b) (hafter : Accepted after b)
    (hshares : 0 < r.shares) (hfee : r.feeBps ≤ Lmsr.maxTradingFeeBps) :
    buildQuote r.direction (ofQuantities before) (ofQuantities after) b r.side r.shares raw
        r.feeBps =
      if (Lmsr.quoteOf r before after b raw).totalAmount = 0
      then .error "fee exceeds trade proceeds"
      else .ok (ofQuote (Lmsr.quoteOf r before after b raw)) := by
  have hfee_le := Lmsr.feeOf_le raw r.shares hfee
  have hbounded : (if ((raw * Lmsr.fixedScale / r.shares : Nat) : Int) <
      ((Lmsr.fixedScale : Nat) : Int) then ((raw * Lmsr.fixedScale / r.shares : Nat) : Int)
      else ((Lmsr.fixedScale : Nat) : Int)) = (Lmsr.boundedPrice raw r.shares : Nat) := by
    unfold Lmsr.boundedPrice
    split <;> omega
  have hle : Lmsr.boundedPrice raw r.shares ≤ Lmsr.fixedScale := Nat.min_le_right _ _
  have hcomplement : ((Lmsr.fixedScale : Nat) : Int) - (Lmsr.boundedPrice raw r.shares : Nat) =
      ((Lmsr.fixedScale - Lmsr.boundedPrice raw r.shares : Nat) : Int) :=
    (Int.ofNat_sub hle).symm
  have hnumerator : (r.shares : Int) * r.feeBps * (Lmsr.curvature raw r.shares : Nat) =
      ((r.shares * r.feeBps * Lmsr.curvature raw r.shares : Nat) : Int) := by
    push_cast
    rfl
  have hdenominator : (10000 : Int) * ((Lmsr.fixedScale : Nat) : Int) =
      ((10000 * Lmsr.fixedScale : Nat) : Int) := by
    push_cast
    rfl
  have htotal : totalOf r.direction raw (Lmsr.feeOf raw r.shares r.feeBps : Nat) =
      ((Lmsr.totalAmount r.direction raw (Lmsr.feeOf raw r.shares r.feeBps) : Nat) : Int) := by
    cases r.direction with
    | buy =>
      rw [Lmsr.totalAmount, Int.natCast_add]
      rfl
    | sell => exact (Int.ofNat_sub hfee_le).symm
  unfold buildQuote
  rw [lmsrFixedScale_eq, mulDivFloor_natCast hshares, ok_bind]
  simp only [hbounded, hcomplement]
  rw [mulDivFloor_natCast fixedScale_pos, ok_bind]
  change (divCeil ((r.shares : Int) * r.feeBps * (Lmsr.curvature raw r.shares : Nat)) _ >>= _) = _
  rw [hnumerator, hdenominator, divCeil_natCast (by decide), ok_bind]
  have hzero : (((Lmsr.totalAmount r.direction raw
      (Lmsr.feeOf raw r.shares r.feeBps) : Nat) : Int) ≤ 0) ↔
      (Lmsr.quoteOf r before after b raw).totalAmount = 0 := by
    change _ ↔ Lmsr.totalAmount r.direction raw (Lmsr.feeOf raw r.shares r.feeBps) = 0
    omega
  change (require (¬totalOf r.direction raw (Lmsr.feeOf raw r.shares r.feeBps : Nat) ≤ 0) _
    >>= _) = _
  by_cases hnone : (Lmsr.quoteOf r before after b raw).totalAmount = 0
  · have hle0 := hzero.mpr hnone
    rw [← htotal] at hle0
    rw [require_neg (not_not.mpr hle0), if_pos hnone]
    rfl
  · have hpos := mt hzero.mp hnone
    rw [← htotal] at hpos
    rw [require_pos hpos, ok_bind, if_neg hnone, lmsrProbabilityScale_eq,
      mulDivFloor_natCast fixedScale_pos, ok_bind, lmsrYesProbability_eq hbefore, ok_bind,
      lmsrYesProbability_eq hafter, ok_bind]
    change Except.ok (TradeQuote.mk r.direction r.side r.shares raw
      (Lmsr.feeOf raw r.shares r.feeBps : Nat)
      (totalOf r.direction raw (Lmsr.feeOf raw r.shares r.feeBps : Nat)) _ _ _ _) = _
    rw [htotal]
    rfl

theorem increase_natCast (q : Lmsr.MarketQuantities) (side : OutcomeSide) (s : Nat) :
    increase (ofQuantities q) side s = ofQuantities (raised q side s) := by
  cases side <;> simp [increase, ofQuantities, raised]

theorem decrease_raised (q : Lmsr.MarketQuantities) (side : OutcomeSide) (s : Nat) :
    decrease (ofQuantities (raised q side s)) side s = .ok (ofQuantities q) := by
  cases side with
  | yes =>
    have hok : ¬((q.yes + s : Nat) : Int) < s := by omega
    change (require (¬((q.yes + s : Nat) : Int) < s) _ >>= _) = _
    rw [require_pos hok, ok_bind]
    change Except.ok (MarketQuantities.mk (((q.yes + s : Nat) : Int) - s) q.no) = _
    rw [Int.natCast_add, Int.add_sub_cancel, ofQuantities]
  | no =>
    have hok : ¬((q.no + s : Nat) : Int) < s := by omega
    change (require (¬((q.no + s : Nat) : Int) < s) _ >>= _) = _
    rw [require_pos hok, ok_bind]
    change Except.ok (MarketQuantities.mk q.yes (((q.no + s : Nat) : Int) - s)) = _
    rw [Int.natCast_add, Int.add_sub_cancel, ofQuantities]

/-- A sale the client does not refuse for missing shares has them. -/
theorem decrease_ok {q : Lmsr.MarketQuantities} {side : OutcomeSide} {s : Nat}
    {after : MarketQuantities} (h : decrease (ofQuantities q) side s = .ok after) :
    ∃ r, q = raised r side s ∧ after = ofQuantities r := by
  obtain ⟨yes, no⟩ := q
  cases side with
  | yes =>
    simp only [decrease, bind_eq_ok, require_eq_ok, exists_const] at h
    simp only [ofQuantities] at h
    refine ⟨⟨yes - s, no⟩, ?_, ?_⟩
    · rw [raised, Nat.sub_add_cancel (by omega)]
    · rw [← Except.ok.inj h.2, ofQuantities, Int.ofNat_sub (by omega)]
  | no =>
    simp only [decrease, bind_eq_ok, require_eq_ok, exists_const] at h
    simp only [ofQuantities] at h
    refine ⟨⟨yes, no - s⟩, ?_, ?_⟩
    · rw [raised, Nat.sub_add_cancel (by omega)]
    · rw [← Except.ok.inj h.2, ofQuantities, Int.ofNat_sub (by omega)]

theorem quoteLmsrBuy_eq {q : Lmsr.MarketQuantities} {b s fee : Nat} {side : OutcomeSide}
    (htrade : Lmsr.validateTrade s fee = .ok ()) (hq : Accepted q b)
    (hr : Accepted (raised q side s) b) :
    (quoteLmsrBuy (ofQuantities q) b side s fee).toOption =
      (Lmsr.quoteBuy q b side s fee).toOption.map ofQuote := by
  obtain ⟨hs, hfee⟩ := Lmsr.validateTrade_ok.mp htrade
  obtain ⟨hlo, -⟩ := Lmsr.cost_raised hq hs.1 side
  have hdelta : (cost (raised q side s) b : Int) - (cost q b : Int) =
      ((cost (raised q side s) b - cost q b : Nat) : Int) := (Int.ofNat_sub hlo).symm
  unfold quoteLmsrBuy
  rw [validateTrade_iff.mpr htrade, ok_bind, increase_natCast]
  dsimp only
  rw [validateState_eq hr, ok_bind, lmsrCostFixed_eq hr, ok_bind, lmsrCostFixed_eq hq, ok_bind, hdelta,
    lmsrFixedScale_eq, divCeil_natCast fixedScale_pos, ok_bind, (Lmsr.quoteBuy_eq htrade hq hr).2]
  generalize ceilDiv (cost (raised q side s) b - cost q b) Lmsr.fixedScale = raw
  by_cases hzero : raw = 0
  · rw [if_pos hzero, require_neg (by simp [hzero])]
    rfl
  · have hquote := buildQuote_natCast (r := ⟨.buy, side, s, fee⟩) raw hq hr
      (Nat.lt_of_lt_of_le (by decide) hs.1) hfee
    have htotal : (Lmsr.quoteOf ⟨.buy, side, s, fee⟩ q (raised q side s) b raw).totalAmount ≠
        0 := by
      change raw + _ ≠ 0
      omega
    rw [if_neg htotal] at hquote
    rw [if_neg hzero, require_pos (by exact_mod_cast hzero), ok_bind]
    exact congrArg Except.toOption hquote

theorem quoteLmsrSell_eq {r : Lmsr.MarketQuantities} {b s fee : Nat} {side : OutcomeSide}
    (htrade : Lmsr.validateTrade s fee = .ok ()) (hr : Accepted r b)
    (hq : Accepted (raised r side s) b) :
    (quoteLmsrSell (ofQuantities (raised r side s)) b side s fee).toOption =
      (Lmsr.quoteSell (raised r side s) b side s fee).toOption.map ofQuote := by
  obtain ⟨hs, hfee⟩ := Lmsr.validateTrade_ok.mp htrade
  obtain ⟨hlo, -⟩ := Lmsr.cost_raised hr hs.1 side
  have hdelta : (cost (raised r side s) b : Int) - (cost r b : Int) =
      ((cost (raised r side s) b - cost r b : Nat) : Int) := (Int.ofNat_sub hlo).symm
  unfold quoteLmsrSell
  rw [validateTrade_iff.mpr htrade, ok_bind, decrease_raised, ok_bind, validateState_eq hr,
    ok_bind, lmsrCostFixed_eq hq, ok_bind, lmsrCostFixed_eq hr, ok_bind, hdelta,
    lmsrFixedScale_eq, ← Int.ofNat_tdiv, (Lmsr.quoteSell_eq htrade hr hq).2]
  generalize (cost (raised r side s) b - cost r b) / Lmsr.fixedScale = raw
  dsimp only
  have hquote := buildQuote_natCast (r := ⟨.sell, side, s, fee⟩) raw hq hr
    (Nat.lt_of_lt_of_le (by decide) hs.1) hfee
  by_cases hzero : raw = 0
  · have htotal : (Lmsr.quoteOf ⟨.sell, side, s, fee⟩ (raised r side s) r b raw).totalAmount =
        0 := by
      change raw - _ = 0
      omega
    rw [if_pos htotal, require_neg (by simp [hzero])]
    rfl
  · rw [require_pos (by exact_mod_cast hzero), ok_bind]
    apply (congrArg Except.toOption hquote).trans
    split <;> rfl

/-! ## Inputs either of them refuses -/

theorem lmsrCostFixed_accepted {q : Lmsr.MarketQuantities} {b : Nat} {c : Int}
    (h : lmsrCostFixed (ofQuantities q) b = .ok c) : Accepted q b := by
  simp only [lmsrCostFixed, bind_eq_ok] at h
  obtain ⟨⟨⟩, hvalid, -⟩ := h
  exact validateState_iff.mp hvalid

theorem quoteLmsrBuy_inv {q : Lmsr.MarketQuantities} {b s fee : Nat} {side : OutcomeSide}
    {quote : TradeQuote} (h : quoteLmsrBuy (ofQuantities q) b side s fee = .ok quote) :
    Lmsr.validateTrade s fee = .ok () ∧ Accepted q b ∧ Accepted (raised q side s) b := by
  simp only [quoteLmsrBuy, bind_eq_ok] at h
  obtain ⟨⟨⟩, htrade, ⟨⟩, hr, _, -, _, hq, -⟩ := h
  rw [increase_natCast] at hr
  exact ⟨validateTrade_iff.mp htrade, lmsrCostFixed_accepted hq, validateState_iff.mp hr⟩

theorem quoteLmsrSell_inv {q : Lmsr.MarketQuantities} {b s fee : Nat} {side : OutcomeSide}
    {quote : TradeQuote} (h : quoteLmsrSell (ofQuantities q) b side s fee = .ok quote) :
    Lmsr.validateTrade s fee = .ok () ∧
      ∃ r, q = raised r side s ∧ Accepted r b ∧ Accepted q b := by
  simp only [quoteLmsrSell, bind_eq_ok] at h
  obtain ⟨⟨⟩, htrade, after, hdec, ⟨⟩, hr, _, hq, -⟩ := h
  obtain ⟨r, hraised, rfl⟩ := decrease_ok hdec
  exact ⟨validateTrade_iff.mp htrade, r, hraised, validateState_iff.mp hr,
    lmsrCostFixed_accepted hq⟩

theorem toOption_eq_none {ε α : Type} {x : Except ε α} (h : ∀ a, x ≠ .ok a) :
    x.toOption = none := by
  cases x with
  | error e => rfl
  | ok a => exact absurd rfl (h a)

/-! ## Agreement -/

theorem buy_agrees (q : Lmsr.MarketQuantities) (b s fee : Nat) (side : OutcomeSide) :
    (quoteLmsrBuy (ofQuantities q) b side s fee).toOption =
      (Lmsr.quoteBuy q b side s fee).toOption.map ofQuote := by
  by_cases hvalid : Lmsr.validateTrade s fee = .ok () ∧ Accepted q b ∧
      Accepted (raised q side s) b
  · obtain ⟨htrade, hq, hr⟩ := hvalid
    exact quoteLmsrBuy_eq htrade hq hr
  · have hclient : (quoteLmsrBuy (ofQuantities q) b side s fee).toOption = none :=
      toOption_eq_none fun quote h => hvalid (quoteLmsrBuy_inv h)
    have hprogram : (Lmsr.quoteBuy q b side s fee).toOption = none := by
      apply toOption_eq_none
      intro quote h
      obtain ⟨htrade, hq, hr, -⟩ := Lmsr.quoteBuy_inv h
      exact hvalid ⟨htrade, hq, hr⟩
    rw [hclient, hprogram]
    rfl

theorem sell_agrees (q : Lmsr.MarketQuantities) (b s fee : Nat) (side : OutcomeSide) :
    (quoteLmsrSell (ofQuantities q) b side s fee).toOption =
      (Lmsr.quoteSell q b side s fee).toOption.map ofQuote := by
  by_cases hvalid : Lmsr.validateTrade s fee = .ok () ∧
      ∃ r, q = raised r side s ∧ Accepted r b ∧ Accepted q b
  · obtain ⟨htrade, r, rfl, hr, hq⟩ := hvalid
    exact quoteLmsrSell_eq htrade hr hq
  · have hclient : (quoteLmsrSell (ofQuantities q) b side s fee).toOption = none :=
      toOption_eq_none fun quote h => hvalid (quoteLmsrSell_inv h)
    have hprogram : (Lmsr.quoteSell q b side s fee).toOption = none := by
      apply toOption_eq_none
      intro quote h
      obtain ⟨htrade, r, hraised, hr, hq, -⟩ := Lmsr.quoteSell_inv h
      exact hvalid ⟨htrade, r, hraised, hr, hq⟩
    rw [hclient, hprogram]
    rfl

/-- **The quote engines agree.** On every input the client quotes a trade exactly when the program
does, and then the quotes are the same. Where the trade and the states before and after it pass
validation, the program refuses it for an amount of zero only: no checked operation fails. -/
theorem quote_engines_agree (q : Lmsr.MarketQuantities) (b s fee : Nat) (side : OutcomeSide) :
    ((quoteLmsrBuy (ofQuantities q) b side s fee).toOption =
      (Lmsr.quoteBuy q b side s fee).toOption.map ofQuote) ∧
    ((quoteLmsrSell (ofQuantities q) b side s fee).toOption =
      (Lmsr.quoteSell q b side s fee).toOption.map ofQuote) ∧
    (Lmsr.validateTrade s fee = .ok () → Lmsr.validateState q b = .ok () →
      Lmsr.validateState (raised q side s) b = .ok () →
      (∀ e, Lmsr.quoteBuy q b side s fee = .error e → e = .zeroAmount) ∧
      (∀ e, Lmsr.quoteSell (raised q side s) b side s fee = .error e → e = .zeroAmount)) := by
  refine ⟨buy_agrees q b s fee side, sell_agrees q b s fee side, fun htrade hq hr => ⟨?_, ?_⟩⟩
  · intro e h
    rw [(Lmsr.quoteBuy_eq htrade (Lmsr.validateState_iff.mp hq)
      (Lmsr.validateState_iff.mp hr)).2] at h
    split at h
    · exact (Except.error.inj h).symm
    · cases h
  · intro e h
    rw [(Lmsr.quoteSell_eq htrade (Lmsr.validateState_iff.mp hq)
      (Lmsr.validateState_iff.mp hr)).2] at h
    split at h
    · exact (Except.error.inj h).symm
    · cases h

/-- The first vector both test suites compare. -/
example : (quoteLmsrBuy ⟨0, 0⟩ 100000000 .yes 10000000 100).toOption.map TradeQuote.rawAmount =
    some 5124948 := by rfl

end Nortia.Client
