import Nortia.Program.Lmsr
import Nortia.Client.Committee

/-!
# `client/src/lmsr.ts`

The quotes of the client, in bigints: nothing overflows, a difference can be negative, a quotient
is truncated toward zero and a failed check throws. The two sides and the two directions are those
of the program; a fee that is not an integer fails the check on integers and is left out.
-/

namespace Nortia.Client

open Lib
open Nortia.Lmsr (OutcomeSide TradeDirection)

def lmsrFixedScale : Int := 1000000000000
def lmsrProbabilityScale : Int := 1000000
def minLiquidityParameter : Int := 10000000
def maxLiquidityParameter : Int := 1000000000000
def minTradeShares : Int := 10000
def maxTradeShares : Int := 100000000000
def maxOutcomeQuantity : Int := 1000000000000000
def maxImbalanceMultiplier : Int := 20
def maxTradingFeeBps : Int := 1000
def ln2Fixed : Int := 693147180559

structure MarketQuantities where
  yes : Int
  no : Int
  deriving DecidableEq

structure TradeQuote where
  direction : TradeDirection
  side : OutcomeSide
  shares : Int
  rawAmount : Int
  feeAmount : Int
  totalAmount : Int
  averagePrice : Int
  beforeYesProbability : Int
  afterYesProbability : Int
  after : MarketQuantities
  deriving DecidableEq

/-! ## Division -/

def mulDivFloor (a b denominator : Int) : Except String Int := do
  require (¬(a < 0 ∨ b < 0 ∨ denominator ≤ 0)) "invalid unsigned division"
  .ok ((a * b).tdiv denominator)

def divCeil (value denominator : Int) : Except String Int := do
  require (¬(value < 0 ∨ denominator ≤ 0)) "invalid unsigned division"
  let quotient := value.tdiv denominator
  if value.tmod denominator = 0 then .ok quotient else .ok (quotient + 1)

def absoluteDifference (a b : Int) : Int := if b ≤ a then a - b else b - a

/-! ## The two series -/

/-- The loop of `expNegativeFixed` over the denominators left. -/
def expLoop (remainder : Int) : List Nat → Int → Int → Except String Int
  | [], _, sum => .ok sum
  | denominator :: rest, term, sum => do
    let scaled ← mulDivFloor term remainder lmsrFixedScale
    let term := scaled.tdiv denominator
    expLoop remainder rest term (if denominator % 2 = 1 then sum - term else sum + term)

def expNegativeFixed (value : Int) : Except String Int :=
  let power := value.tdiv ln2Fixed
  if 127 < power then
    .ok 0
  else do
    let sum ← expLoop (value.tmod ln2Fixed) (List.range' 1 22) lmsrFixedScale lmsrFixedScale
    .ok (sum >>> power.toNat)

/-- The loop of `lnOnePlusFixed` over the denominators left. -/
def lnLoop (ratioSquared : Int) : List Nat → Int → Int → Except String Int
  | [], _, sum => .ok sum
  | denominator :: rest, power, sum => do
    let power ← mulDivFloor power ratioSquared lmsrFixedScale
    lnLoop ratioSquared rest power (sum + power.tdiv denominator)

def lnOnePlusFixed (value : Int) : Except String Int := do
  require (¬(value < 0 ∨ lmsrFixedScale < value)) "logarithm input is outside protocol bounds"
  let ratio ← mulDivFloor value lmsrFixedScale (2 * lmsrFixedScale + value)
  let ratioSquared ← mulDivFloor ratio ratio lmsrFixedScale
  let sum ← lnLoop ratioSquared (List.range' 3 16 2) ratio ratio
  .ok (2 * sum)

/-! ## Validation -/

def validateLiquidity (liquidity : Int) : Except String Unit :=
  require (¬(liquidity < minLiquidityParameter ∨ maxLiquidityParameter < liquidity))
    "liquidity parameter is outside protocol bounds"

def validateTrade (shares feeBps : Int) : Except String Unit := do
  require (¬(shares < minTradeShares ∨ maxTradeShares < shares))
    "share amount is outside protocol bounds"
  require (¬(isSafeInteger feeBps = false ∨ feeBps < 0 ∨ maxTradingFeeBps < feeBps))
    "trading fee is outside protocol bounds"

def validateState (quantities : MarketQuantities) (liquidity : Int) : Except String Unit := do
  validateLiquidity liquidity
  require (¬(quantities.yes < 0 ∨ quantities.no < 0 ∨ maxOutcomeQuantity < quantities.yes ∨
    maxOutcomeQuantity < quantities.no)) "outcome quantity is outside protocol bounds"
  require (¬(liquidity * maxImbalanceMultiplier <
    absoluteDifference quantities.yes quantities.no)) "market imbalance exceeds protocol bounds"

def increase (quantities : MarketQuantities) (side : OutcomeSide) (shares : Int) :
    MarketQuantities :=
  match side with
  | .yes => { yes := quantities.yes + shares, no := quantities.no }
  | .no => { yes := quantities.yes, no := quantities.no + shares }

def decrease (quantities : MarketQuantities) (side : OutcomeSide) (shares : Int) :
    Except String MarketQuantities :=
  match side with
  | .yes => do
    require (¬quantities.yes < shares) "insufficient YES shares"
    .ok { yes := quantities.yes - shares, no := quantities.no }
  | .no => do
    require (¬quantities.no < shares) "insufficient NO shares"
    .ok { yes := quantities.yes, no := quantities.no - shares }

/-! ## Costs and quotes -/

def lmsrCostFixed (quantities : MarketQuantities) (liquidity : Int) : Except String Int := do
  validateState quantities liquidity
  let maximum := if quantities.no < quantities.yes then quantities.yes else quantities.no
  let difference := absoluteDifference quantities.yes quantities.no
  let ratio ← mulDivFloor difference lmsrFixedScale liquidity
  let tail ← expNegativeFixed ratio
  let softplus ← lnOnePlusFixed tail
  .ok (maximum * lmsrFixedScale + liquidity * softplus)

def lmsrYesProbability (quantities : MarketQuantities) (liquidity : Int) : Except String Int := do
  validateState quantities liquidity
  let difference := absoluteDifference quantities.yes quantities.no
  let ratio ← mulDivFloor difference lmsrFixedScale liquidity
  let tail ← expNegativeFixed ratio
  let lower ← mulDivFloor tail lmsrProbabilityScale (lmsrFixedScale + tail)
  .ok (if quantities.no ≤ quantities.yes then lmsrProbabilityScale - lower else lower)

/-- What the trader pays or receives once the fee is known. -/
def totalOf (direction : TradeDirection) (rawAmount feeAmount : Int) : Int :=
  match direction with
  | .buy => rawAmount + feeAmount
  | .sell => rawAmount - feeAmount

def buildQuote (direction : TradeDirection) (before after : MarketQuantities) (liquidity : Int)
    (side : OutcomeSide) (shares rawAmount feeBps : Int) : Except String TradeQuote := do
  let averagePriceFixed ← mulDivFloor rawAmount lmsrFixedScale shares
  let boundedPrice := if averagePriceFixed < lmsrFixedScale then averagePriceFixed
    else lmsrFixedScale
  let curvature ← mulDivFloor boundedPrice (lmsrFixedScale - boundedPrice) lmsrFixedScale
  let feeAmount ← divCeil (shares * feeBps * curvature) (10000 * lmsrFixedScale)
  let totalAmount := totalOf direction rawAmount feeAmount
  require (¬totalAmount ≤ 0) "fee exceeds trade proceeds"
  let averagePrice ← mulDivFloor boundedPrice lmsrProbabilityScale lmsrFixedScale
  let beforeYesProbability ← lmsrYesProbability before liquidity
  let afterYesProbability ← lmsrYesProbability after liquidity
  .ok { direction, side, shares, rawAmount, feeAmount, totalAmount, averagePrice,
        beforeYesProbability, afterYesProbability, after }

def quoteLmsrBuy (quantities : MarketQuantities) (liquidity : Int) (side : OutcomeSide)
    (shares feeBps : Int) : Except String TradeQuote := do
  validateTrade shares feeBps
  let after := increase quantities side shares
  validateState after liquidity
  let afterCost ← lmsrCostFixed after liquidity
  let beforeCost ← lmsrCostFixed quantities liquidity
  let rawAmount ← divCeil (afterCost - beforeCost) lmsrFixedScale
  require (rawAmount ≠ 0) "trade amount rounds to zero"
  buildQuote .buy quantities after liquidity side shares rawAmount feeBps

def quoteLmsrSell (quantities : MarketQuantities) (liquidity : Int) (side : OutcomeSide)
    (shares feeBps : Int) : Except String TradeQuote := do
  validateTrade shares feeBps
  let after ← decrease quantities side shares
  validateState after liquidity
  let beforeCost ← lmsrCostFixed quantities liquidity
  let afterCost ← lmsrCostFixed after liquidity
  let rawAmount := (beforeCost - afterCost).tdiv lmsrFixedScale
  require (rawAmount ≠ 0) "trade amount rounds to zero"
  buildQuote .sell quantities after liquidity side shares rawAmount feeBps

end Nortia.Client
