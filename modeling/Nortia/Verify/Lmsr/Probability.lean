import Nortia.Verify.Lmsr.Quotes

/-!
# Demand moves the displayed probability

The probability is one half and above exactly where there are at least as many YES shares. Shares
bought on the YES side or sold on the NO side never lower it, and the other way round, also where
the trade crosses the balance point. Swapping the two sides of an unbalanced state reflects it.
-/

namespace Nortia.Lmsr

open Lib Lib.FixedPoint

/-! ## The smaller probability -/

theorem div_add_mono {k v v' : Nat} (hk : 0 < k) (h : v ≤ v') (m : Nat) :
    v * m / (k + v) ≤ v' * m / (k + v') := by
  apply div_le_div_of_mul_le (by omega) (by omega)
  have hcross : v * (k + v') ≤ v' * (k + v) := by
    rw [Nat.mul_add, Nat.mul_add, Nat.mul_comm v v']
    exact Nat.add_le_add_right (Nat.mul_le_mul_right _ h) _
  calc v * m * (k + v') = v * (k + v') * m := Nat.mul_right_comm _ _ _
    _ ≤ v' * (k + v) * m := Nat.mul_le_mul_right m hcross
    _ = v' * m * (k + v) := Nat.mul_right_comm _ _ _

theorem lowerProbability_antitone {x x' : Nat} (h : x + 1000 ≤ x') :
    lowerProbability x' ≤ lowerProbability x :=
  div_add_mono (by decide) (expValue_antitone h) probabilityScale

theorem expValue_lt {x : Nat} (hx : 0 < x) : expValue x < fixedScale := by
  have hr := remainder_le x
  have hdiv := Nat.div_add_mod x ln2Fixed
  rw [expValue, Nat.shiftRight_eq_div_pow]
  rcases Nat.eq_zero_or_pos (x % ln2Fixed) with hzero | hpos
  · -- a whole number of halvings, and at least one
    have hpower : x / ln2Fixed ≠ 0 := by
      intro hpower
      rw [hpower, hzero] at hdiv
      omega
    have hsum := toNat_expSum_le hr 22
    apply Nat.div_lt_of_lt_mul
    calc (expSum fixedScale (x % ln2Fixed) 22).toNat ≤ fixedScale := hsum
      _ < 2 * fixedScale := by decide
      _ ≤ 2 ^ (x / ln2Fixed) * fixedScale :=
          Nat.mul_le_mul_right _ (Nat.le_self_pow hpower 2)
  · have hsum : expSum fixedScale (x % ln2Fixed) 22 < fixedScale := expSum_lt hr hpos 10
    have hnonneg := expSum_nonneg hr 22
    exact (Nat.div_le_self _ _).trans_lt (by omega)

theorem lowerProbability_lt {x : Nat} (hx : 0 < x) : 2 * lowerProbability x < probabilityScale := by
  have htail := expValue_lt hx
  have hquot := Nat.div_mul_le_self (expValue x * probabilityScale) (fixedScale + expValue x)
  by_contra hge
  have hhalf : probabilityScale / 2 ≤ lowerProbability x := by
    simp only [probabilityScale] at hge ⊢
    omega
  have hmul := Nat.mul_le_mul_right (fixedScale + expValue x) hhalf
  have hle := hmul.trans hquot
  simp only [probabilityScale, fixedScale] at hle htail
  omega

/-! ## The probability of a state -/

theorem probability_le {q : MarketQuantities} (b : Nat) : probability q b ≤ probabilityScale := by
  have hhalf := lowerProbability_le (ratioOf q b)
  unfold probability
  split <;> omega

theorem ratioOf_pos {q : MarketQuantities} {b : Nat} (hq : Accepted q b) (hne : q.yes ≠ q.no) :
    0 < ratioOf q b := by
  apply Nat.div_pos _ hq.pos
  have hdiff : 1 ≤ absDiff q.yes q.no := by
    unfold absDiff
    omega
  calc b ≤ maxLiquidityParameter := hq.maxLiquidity
    _ = 1 * fixedScale := by rfl
    _ ≤ absDiff q.yes q.no * fixedScale := Nat.mul_le_mul_right _ hdiff

/-- The probability is at least one half exactly where YES has at least as many shares. -/
theorem half_le_probability {q : MarketQuantities} {b : Nat} (hq : Accepted q b) :
    probabilityScale ≤ 2 * probability q b ↔ q.no ≤ q.yes := by
  have hhalf := lowerProbability_le (ratioOf q b)
  unfold probability
  split
  · next hyes =>
    constructor
    · exact fun _ => hyes
    · intro _
      omega
  · next hno =>
    have hlt := lowerProbability_lt (ratioOf_pos hq (by omega))
    constructor
    · intro h
      omega
    · exact fun h => absurd h hno

theorem probability_swap {q : MarketQuantities} (b : Nat) (hne : q.yes ≠ q.no) :
    probability ⟨q.no, q.yes⟩ b = probabilityScale - probability q b := by
  have hhalf := lowerProbability_le (ratioOf q b)
  have hratio : ratioOf ⟨q.no, q.yes⟩ b = ratioOf q b := by
    rw [ratioOf, ratioOf, absDiff_comm]
  unfold probability
  rw [hratio]
  by_cases hyes : q.no ≤ q.yes
  · rw [if_pos hyes, if_neg (show ¬q.yes ≤ q.no by omega)]
    omega
  · rw [if_neg hyes, if_pos (show q.yes ≤ q.no by omega)]

theorem Accepted.swap {q : MarketQuantities} {b : Nat} (h : Accepted q b) :
    Accepted ⟨q.no, q.yes⟩ b :=
  ⟨h.minLiquidity, h.maxLiquidity, h.no, h.yes, absDiff_comm q.yes q.no ▸ h.imbalance⟩

/-! ## One trade -/

theorem probability_of_le {yes no : Nat} (b : Nat) (h : no ≤ yes) :
    probability ⟨yes, no⟩ b =
      probabilityScale - lowerProbability ((yes - no) * fixedScale / b) := by
  rw [probability, if_pos h, ratioOf, absDiff, Nat.max_eq_left h, Nat.min_eq_right h]

theorem probability_of_lt {yes no : Nat} (b : Nat) (h : yes < no) :
    probability ⟨yes, no⟩ b = lowerProbability ((no - yes) * fixedScale / b) := by
  rw [probability, if_neg (Nat.not_le.mpr h), ratioOf, absDiff, Nat.max_eq_right h.le,
    Nat.min_eq_left h.le]

/-- More YES shares never lower the probability. -/
theorem probability_raised_yes {q : MarketQuantities} {b s : Nat} (hq : Accepted q b)
    (hs : minTradeShares ≤ s) : probability q b ≤ probability (raised q .yes s) b := by
  obtain ⟨yes, no⟩ := q
  change probability ⟨yes, no⟩ b ≤ probability ⟨yes + s, no⟩ b
  simp only [minTradeShares] at hs
  rcases le_or_gt no yes with hyes | hno
  · -- the imbalance grows, the smaller probability is that of NO
    have hyes' : no ≤ yes + s := hyes.trans (Nat.le_add_right yes s)
    have hfar := ratio_far hq.pos hq.maxLiquidity (show yes - no + 1001 ≤ yes + s - no by omega)
    have hlower := lowerProbability_antitone hfar
    rw [probability_of_le b hyes, probability_of_le b hyes']
    omega
  · rw [probability_of_lt b hno]
    have hhalf := lowerProbability_le ((no - yes) * fixedScale / b)
    rcases le_or_gt no (yes + s) with hyes' | hno'
    · -- the trade crosses the balance point
      have hhalf' := lowerProbability_le ((yes + s - no) * fixedScale / b)
      rw [probability_of_le b hyes']
      omega
    · -- the imbalance shrinks, the smaller probability is that of YES
      rw [probability_of_lt b hno']
      have hfar := ratio_far hq.pos hq.maxLiquidity
        (show no - (yes + s) + 1001 ≤ no - yes by omega)
      exact lowerProbability_antitone hfar

/-- More NO shares never raise it. -/
theorem probability_raised_no {q : MarketQuantities} {b s : Nat} (hq : Accepted q b)
    (hs : minTradeShares ≤ s) : probability (raised q .no s) b ≤ probability q b := by
  obtain ⟨yes, no⟩ := q
  change probability ⟨yes, no + s⟩ b ≤ probability ⟨yes, no⟩ b
  simp only [minTradeShares] at hs
  rcases le_or_gt (no + s) yes with hyes | hno
  · -- the imbalance shrinks, the smaller probability is that of NO
    have hyes' : no ≤ yes := (Nat.le_add_right no s).trans hyes
    have hfar := ratio_far hq.pos hq.maxLiquidity
      (show yes - (no + s) + 1001 ≤ yes - no by omega)
    have hlower := lowerProbability_antitone hfar
    rw [probability_of_le b hyes, probability_of_le b hyes']
    omega
  · rw [probability_of_lt b hno]
    have hhalf := lowerProbability_le ((no + s - yes) * fixedScale / b)
    rcases le_or_gt no yes with hyes' | hno'
    · -- the trade crosses the balance point
      have hhalf' := lowerProbability_le ((yes - no) * fixedScale / b)
      rw [probability_of_le b hyes']
      omega
    · -- the imbalance grows, the smaller probability is that of YES
      rw [probability_of_lt b hno']
      have hfar := ratio_far hq.pos hq.maxLiquidity
        (show no - yes + 1001 ≤ no + s - yes by omega)
      exact lowerProbability_antitone hfar

/-- The trades that raise the demand for YES. -/
def QuoteRequest.raisesYes (request : QuoteRequest) : Prop :=
  (request.direction = .buy ∧ request.side = .yes) ∨
    (request.direction = .sell ∧ request.side = .no)

/-- The quote of a trade displays the probabilities of the states before and after it, which move
the way of the trade. -/
structure FollowsDemand (request : QuoteRequest) (b : Nat) (before after : MarketQuantities)
    (quote : TradeQuote) : Prop where
  asked : quote.direction = request.direction ∧ quote.side = request.side
  state : quote.after = after
  before_eq : yesProbability before b = .ok quote.beforeYesProbability
  after_eq : yesProbability after b = .ok quote.afterYesProbability
  before_le : quote.beforeYesProbability ≤ probabilityScale
  after_le : quote.afterYesProbability ≤ probabilityScale
  up : request.raisesYes → quote.beforeYesProbability ≤ quote.afterYesProbability
  down : ¬request.raisesYes → quote.afterYesProbability ≤ quote.beforeYesProbability

theorem quoteOf_followsDemand {request : QuoteRequest} {before after : MarketQuantities} {b : Nat}
    (raw : Nat) (hbefore : Accepted before b) (hafter : Accepted after b)
    (hup : request.raisesYes → probability before b ≤ probability after b)
    (hdown : ¬request.raisesYes → probability after b ≤ probability before b) :
    FollowsDemand request b before after (quoteOf request before after b raw) :=
  ⟨⟨rfl, rfl⟩, rfl, yesProbability_eq hbefore, yesProbability_eq hafter, probability_le b,
    probability_le b, hup, hdown⟩

theorem quoteBuy_followsDemand {q : MarketQuantities} {b s fee : Nat} {side : OutcomeSide}
    {quote : TradeQuote} (h : quoteBuy q b side s fee = .ok quote) :
    ∃ after, increase q side s = .ok after ∧ FollowsDemand ⟨.buy, side, s, fee⟩ b q after quote := by
  obtain ⟨htrade, hq, hr, rfl⟩ := quoteBuy_inv h
  obtain ⟨hs, -⟩ := validateTrade_ok.mp htrade
  refine ⟨_, increase_eq_ok hr, quoteOf_followsDemand _ hq hr (fun hraises => ?_) fun hlowers => ?_⟩
  · rcases hraises with ⟨-, hside⟩ | ⟨hdirection, -⟩
    · cases hside
      exact probability_raised_yes hq hs.1
    · cases hdirection
  · cases side with
    | yes => exact absurd (.inl ⟨rfl, rfl⟩) hlowers
    | no => exact probability_raised_no hq hs.1

theorem quoteSell_followsDemand {q : MarketQuantities} {b s fee : Nat} {side : OutcomeSide}
    {quote : TradeQuote} (h : quoteSell q b side s fee = .ok quote) :
    ∃ after, decrease q side s = .ok after ∧ FollowsDemand ⟨.sell, side, s, fee⟩ b q after quote := by
  obtain ⟨htrade, r, rfl, hr, hq, rfl⟩ := quoteSell_inv h
  obtain ⟨hs, -⟩ := validateTrade_ok.mp htrade
  refine ⟨r, decrease_raised r side s,
    quoteOf_followsDemand _ hq hr (fun hraises => ?_) fun hlowers => ?_⟩
  · rcases hraises with ⟨hdirection, -⟩ | ⟨-, hside⟩
    · cases hdirection
    · cases hside
      exact probability_raised_no hr hs.1
  · cases side with
    | yes => exact probability_raised_yes hr hs.1
    | no => exact absurd (.inr ⟨rfl, rfl⟩) hlowers

/-- **Demand.** The probability of every valid state is computed, lies within the scale, is at
least one half exactly where YES has at least as many shares, and is reflected when the two sides
of an unbalanced state are swapped. Every quote moves it the way of its trade. -/
theorem probability_follows_demand {q : MarketQuantities} {b : Nat}
    (h : validateState q b = .ok ()) :
    (∃ p, yesProbability q b = .ok p ∧ p ≤ probabilityScale ∧
      (probabilityScale ≤ 2 * p ↔ q.no ≤ q.yes) ∧
      (q.yes ≠ q.no → yesProbability ⟨q.no, q.yes⟩ b = .ok (probabilityScale - p))) ∧
    ∀ side s fee quote,
      (quoteBuy q b side s fee = .ok quote → ∃ after,
        increase q side s = .ok after ∧ FollowsDemand ⟨.buy, side, s, fee⟩ b q after quote) ∧
      (quoteSell q b side s fee = .ok quote → ∃ after,
        decrease q side s = .ok after ∧ FollowsDemand ⟨.sell, side, s, fee⟩ b q after quote) := by
  have hq := validateState_iff.mp h
  refine ⟨⟨_, yesProbability_eq hq, probability_le b, half_le_probability hq, fun hne => ?_⟩,
    fun side s fee quote => ⟨quoteBuy_followsDemand, quoteSell_followsDemand⟩⟩
  rw [yesProbability_eq hq.swap, probability_swap b hne]

/-- A market of the tests with more YES shares, and a purchase of NO shares that crosses the balance
point: the displayed probability falls below one half. -/
theorem probability_follows_demand_unbalanced : ∃ p quote,
    yesProbability ⟨75000000, 20000000⟩ 100000000 = .ok p ∧ probabilityScale ≤ 2 * p ∧
      yesProbability ⟨20000000, 75000000⟩ 100000000 = .ok (probabilityScale - p) ∧
    quoteBuy ⟨75000000, 20000000⟩ 100000000 .no 60000000 100 = .ok quote ∧
      quote.after = ⟨75000000, 80000000⟩ ∧
      yesProbability ⟨75000000, 80000000⟩ 100000000 = .ok quote.afterYesProbability ∧
      quote.beforeYesProbability = p ∧ quote.afterYesProbability ≤ p := by
  obtain ⟨⟨p, hp, -, hhalf, hswap⟩, hquotes⟩ :=
    probability_follows_demand (q := ⟨75000000, 20000000⟩) (b := 100000000) rfl
  obtain ⟨quote, hquote⟩ : ∃ quote,
      quoteBuy ⟨75000000, 20000000⟩ 100000000 .no 60000000 100 = .ok quote := by
    have hsome : (quoteBuy ⟨75000000, 20000000⟩ 100000000 .no 60000000 100).toOption.isSome = true := by
      decide +kernel
    obtain ⟨quote, hquote⟩ := Option.isSome_iff_exists.mp hsome
    exact ⟨quote, toOption_eq_some.mp hquote⟩
  obtain ⟨after, hafter, hfollows⟩ := (hquotes _ _ _ _).1 hquote
  cases Except.ok.inj (show Except.ok ⟨75000000, 80000000⟩ = Except.ok after from hafter)
  have hbefore : quote.beforeYesProbability = p :=
    Except.ok.inj (hfollows.before_eq.symm.trans hp)
  have hlowers : ¬QuoteRequest.raisesYes ⟨.buy, .no, 60000000, 100⟩ := by
    simp [QuoteRequest.raisesYes]
  exact ⟨p, quote, hp, hhalf.mpr (by decide), hswap (by decide), hquote, hfollows.state,
    hfollows.after_eq, hbefore, hbefore ▸ hfollows.down hlowers⟩

end Nortia.Lmsr
