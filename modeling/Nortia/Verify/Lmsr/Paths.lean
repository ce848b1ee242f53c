import Nortia.Verify.Lmsr.Quotes
import Mathlib.Algebra.BigOperators.Group.List.Basic

/-!
# Sequences of quotes

A purchase is rounded up and a sale down, each by less than one unit, and both are priced by the
cost at the state they start from. So what a sequence of quotes pays in follows the cost from its
first to its last state, up to one unit for each quote: no sequence that returns to its start
pays out, and splitting a purchase only adds the roundings.
-/

namespace Nortia.Lmsr

open Lib

/-! ## Sequences -/

structure Trade where
  direction : TradeDirection
  side : OutcomeSide
  shares : Nat
  feeBps : Nat
  deriving DecidableEq

/-- The quote for a trade at the given quantities. -/
def Trade.quote (b : Nat) (q : MarketQuantities) (t : Trade) : Except LmsrError TradeQuote :=
  match t.direction with
  | .buy => quoteBuy q b t.side t.shares t.feeBps
  | .sell => quoteSell q b t.side t.shares t.feeBps

/-- The quotes for a sequence of trades, each at the quantities the one before it leaves. -/
def quoteAll (b : Nat) : MarketQuantities → List Trade → Except LmsrError (List TradeQuote)
  | _, [] => .ok []
  | q, t :: ts => do
    let quote ← t.quote b q
    let rest ← quoteAll b quote.after ts
    .ok (quote :: rest)

/-- The quantities after the last quote. -/
def lastState : MarketQuantities → List TradeQuote → MarketQuantities
  | q, [] => q
  | _, quote :: rest => lastState quote.after rest

/-- What the trader pays in: positive for a purchase, negative for a sale. -/
def signed (direction : TradeDirection) (amount : Nat) : Int :=
  match direction with
  | .buy => amount
  | .sell => -(amount : Int)

def netRaw (quotes : List TradeQuote) : Int :=
  (quotes.map fun quote => signed quote.direction quote.rawAmount).sum

def netTotal (quotes : List TradeQuote) : Int :=
  (quotes.map fun quote => signed quote.direction quote.totalAmount).sum

def totalFees (quotes : List TradeQuote) : Int :=
  (quotes.map fun quote => (quote.feeAmount : Int)).sum

/-! ## One quote -/

section

variable {b : Nat} {q : MarketQuantities}

/-- **One quote** follows the cost up to one unit, and its total adds the fee. -/
theorem Trade.quote_step {t : Trade} {quote : TradeQuote} (h : t.quote b q = .ok quote) :
    Accepted q b ∧ Accepted quote.after b ∧
      (cost quote.after b : Int) - cost q b ≤
        signed quote.direction quote.rawAmount * fixedScale ∧
      signed quote.direction quote.rawAmount * fixedScale <
        (cost quote.after b : Int) - cost q b + fixedScale ∧
      signed quote.direction quote.totalAmount =
        signed quote.direction quote.rawAmount + quote.feeAmount := by
  obtain ⟨direction, side, s, fee⟩ := t
  cases direction with
  | buy =>
    change quoteBuy q b side s fee = _ at h
    obtain ⟨htrade, hq, hr, rfl⟩ := quoteBuy_inv h
    obtain ⟨hs, -⟩ := validateTrade_ok.mp htrade
    obtain ⟨hlo, -⟩ := cost_raised hq hs.1 side
    obtain ⟨hge, hlt⟩ := ceilDiv_bounds (v := cost (raised q side s) b - cost q b)
      (d := fixedScale) (by decide)
    refine ⟨hq, hr, ?_, ?_, ?_⟩
    · simp only [quoteOf, signed]
      omega
    · simp only [quoteOf, signed]
      omega
    · simp only [quoteOf, signed, totalAmount]
      omega
  | sell =>
    change quoteSell q b side s fee = _ at h
    obtain ⟨htrade, r, rfl, hr, hq, rfl⟩ := quoteSell_inv h
    obtain ⟨hs, hfee⟩ := validateTrade_ok.mp htrade
    obtain ⟨hlo, -⟩ := cost_raised hr hs.1 side
    have hmod := Nat.div_add_mod' (cost (raised r side s) b - cost r b) fixedScale
    have hlt := Nat.mod_lt (cost (raised r side s) b - cost r b) (y := fixedScale) (by decide)
    have hfee_le := feeOf_le ((cost (raised r side s) b - cost r b) / fixedScale) s hfee
    refine ⟨hq, hr, ?_, ?_, ?_⟩
    · simp only [quoteOf, signed, Int.neg_mul]
      omega
    · simp only [quoteOf, signed, Int.neg_mul]
      omega
    · simp only [quoteOf, signed, totalAmount]
      omega

/-! ## All quotes -/

theorem quoteAll_cons {t : Trade} {ts : List Trade} {quotes : List TradeQuote}
    (h : quoteAll b q (t :: ts) = .ok quotes) : ∃ quote rest, t.quote b q = .ok quote ∧
      quoteAll b quote.after ts = .ok rest ∧ quotes = quote :: rest := by
  simp only [quoteAll, bind_eq_ok, Except.ok.injEq] at h
  obtain ⟨quote, hquote, rest, hrest, rfl⟩ := h
  exact ⟨quote, rest, hquote, hrest, rfl⟩

theorem quoteAll_length {ts : List Trade} {quotes : List TradeQuote}
    (h : quoteAll b q ts = .ok quotes) : quotes.length = ts.length := by
  induction ts generalizing q quotes with
  | nil =>
    cases h
    rfl
  | cons t ts ih =>
    obtain ⟨quote, rest, -, hrest, rfl⟩ := quoteAll_cons h
    rw [List.length_cons, List.length_cons, ih hrest]

/-- A sequence of quotes that starts at an accepted state ends at one. -/
theorem quoteAll_accepted {ts : List Trade} {quotes : List TradeQuote} (hq : Accepted q b)
    (h : quoteAll b q ts = .ok quotes) : Accepted (lastState q quotes) b := by
  induction ts generalizing q quotes with
  | nil =>
    cases h
    exact hq
  | cons t ts ih =>
    obtain ⟨quote, rest, hquote, hrest, rfl⟩ := quoteAll_cons h
    have hafter := (Trade.quote_step hquote).2.1
    exact ih (q := quote.after) hafter hrest

/-- The net raw amount follows the cost, up to one unit for each quote. -/
theorem netRaw_bounds {ts : List Trade} {quotes : List TradeQuote}
    (h : quoteAll b q ts = .ok quotes) :
    (cost (lastState q quotes) b : Int) - cost q b ≤ netRaw quotes * fixedScale ∧
      netRaw quotes * fixedScale + quotes.length ≤
        (cost (lastState q quotes) b : Int) - cost q b + quotes.length * fixedScale := by
  induction ts generalizing q quotes with
  | nil =>
    cases h
    simp [netRaw, lastState]
  | cons t ts ih =>
    obtain ⟨quote, rest, hquote, hrest, rfl⟩ := quoteAll_cons h
    obtain ⟨-, -, hlo, hhi, -⟩ := Trade.quote_step hquote
    obtain ⟨ihlo, ihhi⟩ := ih hrest
    simp only [netRaw, lastState, List.map_cons, List.sum_cons, List.length_cons, Int.add_mul,
      Nat.cast_add, Nat.cast_one, Int.one_mul] at *
    constructor
    · linarith
    · omega

/-- The totals add the fees to the raw amounts. -/
theorem netTotal_eq {ts : List Trade} {quotes : List TradeQuote}
    (h : quoteAll b q ts = .ok quotes) : netTotal quotes = netRaw quotes + totalFees quotes := by
  induction ts generalizing q quotes with
  | nil =>
    cases h
    rfl
  | cons t ts ih =>
    obtain ⟨quote, rest, hquote, hrest, rfl⟩ := quoteAll_cons h
    obtain ⟨-, -, -, -, htotal⟩ := Trade.quote_step hquote
    have hrest := ih hrest
    simp only [netTotal, netRaw, totalFees, List.map_cons, List.sum_cons] at *
    omega

end

/-! ## Splitting a purchase -/

theorem raised_raised (q : MarketQuantities) (side : OutcomeSide) (s s' : Nat) :
    raised (raised q side s) side s' = raised q side (s + s') := by
  cases side <;> simp [raised, Nat.add_assoc]

/-- Purchases on one side end at the quantities of the whole purchase. -/
theorem lastState_of_buys {b : Nat} {q : MarketQuantities} {side : OutcomeSide}
    {ts : List Trade} {quotes : List TradeQuote}
    (hbuy : ∀ t ∈ ts, t.direction = .buy ∧ t.side = side)
    (h : quoteAll b q ts = .ok quotes) :
    lastState q quotes = raised q side (ts.map Trade.shares).sum := by
  induction ts generalizing q quotes with
  | nil =>
    cases h
    cases side <;> rfl
  | cons t ts ih =>
    obtain ⟨quote, rest, hquote, hrest, rfl⟩ := quoteAll_cons h
    have hrest := ih (fun t ht => hbuy t (List.mem_cons_of_mem _ ht)) hrest
    obtain ⟨direction, side', s, fee⟩ := t
    obtain ⟨rfl, rfl⟩ := hbuy _ List.mem_cons_self
    change quoteBuy q b side' s fee = _ at hquote
    obtain ⟨-, -, -, rfl⟩ := quoteBuy_inv hquote
    change lastState (raised q side' s) rest = _
    rw [show lastState (raised q side' s) rest = _ from hrest, List.map_cons, List.sum_cons]
    exact raised_raised q side' s _

/-! ## The three consequences -/

/-- **Path independence.** What a sequence of quotes pays in, scaled, is at least the change of the
cost, and less than that change plus one unit for each quote when there is one. A sequence that
returns to its first quantities costs at least its fees, and a purchase split into several on its
side costs at least as much as the whole, by at most one unit for each further one. -/
theorem path_independent {b : Nat} {q : MarketQuantities} {ts : List Trade}
    {quotes : List TradeQuote} (h : quoteAll b q ts = .ok quotes) :
    (ts ≠ [] → ∃ first last, costFixed q b = .ok first ∧
      costFixed (lastState q quotes) b = .ok last) ∧
    (∀ first last, costFixed q b = .ok first → costFixed (lastState q quotes) b = .ok last →
      (last : Int) - first ≤ netRaw quotes * fixedScale ∧
      (ts ≠ [] → netRaw quotes * fixedScale < (last : Int) - first + ts.length * fixedScale)) ∧
    (lastState q quotes = q → 0 ≤ netRaw quotes ∧ totalFees quotes ≤ netTotal quotes) ∧
    (∀ side fee whole, (∀ t ∈ ts, t.direction = .buy ∧ t.side = side) →
      quoteBuy q b side (ts.map Trade.shares).sum fee = .ok whole →
      (whole.rawAmount : Int) ≤ netRaw quotes ∧
        netRaw quotes ≤ whole.rawAmount + (ts.length - 1)) := by
  obtain ⟨hlo, hhi⟩ := netRaw_bounds h
  have htotal := netTotal_eq h
  rw [quoteAll_length h] at hhi
  refine ⟨fun hts => ?_, fun first last hfirst hlast => ?_, fun hcycle => ?_,
    fun side fee whole hbuy hwhole => ?_⟩
  · obtain ⟨t, ts, rfl⟩ := List.exists_cons_of_ne_nil hts
    have hq : Accepted q b := by
      obtain ⟨quote, rest, hquote, -, -⟩ := quoteAll_cons h
      exact (Trade.quote_step hquote).1
    exact ⟨_, _, costFixed_eq hq, costFixed_eq (quoteAll_accepted hq h)⟩
  · rw [costFixed_eq (validateState_iff.mp (costFixed_ok hfirst).1)] at hfirst
    rw [costFixed_eq (validateState_iff.mp (costFixed_ok hlast).1)] at hlast
    cases hfirst
    cases hlast
    refine ⟨hlo, fun hts => ?_⟩
    have hpos : 0 < ts.length := List.length_pos_iff.mpr hts
    omega
  · rw [hcycle] at hlo
    simp only [fixedScale] at hlo
    exact ⟨by omega, by omega⟩
  · obtain ⟨htrade, hq, hr, rfl⟩ := quoteBuy_inv hwhole
    obtain ⟨hs, -⟩ := validateTrade_ok.mp htrade
    obtain ⟨hrise, -⟩ := cost_raised hq hs.1 side
    have hpos : 0 < ts.length := by
      by_contra hnone
      cases List.length_eq_zero_iff.mp (Nat.eq_zero_of_not_pos hnone)
      exact absurd hs.1 (by decide)
    obtain ⟨hge, hlt⟩ := ceilDiv_bounds
      (v := cost (raised q side (ts.map Trade.shares).sum) b - cost q b)
      (d := fixedScale) (by decide)
    rw [lastState_of_buys hbuy h] at hlo hhi
    simp only [quoteOf]
    generalize ceilDiv (cost (raised q side (ts.map Trade.shares).sum) b - cost q b) fixedScale =
      raw at *
    simp only [fixedScale] at *
    omega

/-- The round trip of the tests: a purchase and the sale of the same shares. -/
theorem path_independent_round_trip :
    let quotes := [quoteOf ⟨.buy, .yes, 10000000, 100⟩ ⟨0, 0⟩ ⟨10000000, 0⟩ 100000000 5124948,
      quoteOf ⟨.sell, .yes, 10000000, 100⟩ ⟨10000000, 0⟩ ⟨0, 0⟩ 100000000 5124947]
    0 ≤ netRaw quotes ∧ totalFees quotes ≤ netTotal quotes := by
  intro quotes
  have h : quoteAll 100000000 ⟨0, 0⟩
      [⟨.buy, .yes, 10000000, 100⟩, ⟨.sell, .yes, 10000000, 100⟩] = .ok quotes := by rfl
  exact (path_independent h).2.2.1 rfl

/-- The strict bound needs a quote: a sequence of none pays nothing for no change of the cost. -/
theorem empty_path_pays_nothing :
    quoteAll 100000000 ⟨0, 0⟩ [] = .ok [] ∧
      ∃ cost, costFixed ⟨0, 0⟩ 100000000 = .ok cost ∧
        costFixed (lastState ⟨0, 0⟩ []) 100000000 = .ok cost ∧
        ¬netRaw [] * fixedScale < (cost : Int) - cost + (0 : Nat) * fixedScale := by
  obtain ⟨cost, hcost, -, -⟩ := costFixed_zero (b := 100000000) (by decide)
  exact ⟨rfl, cost, hcost, hcost, by simp [netRaw]⟩

end Nortia.Lmsr
