import Nortia.Lib.Result
import Nortia.Program.Width

/-!
# `lmsr.rs`: the fixed-point market maker

Prices are those of a logarithmic market scoring rule computed in integers scaled by
`fixedScale`. Every intermediate product is a checked `u128`, every result a checked `u64`.
-/

namespace Nortia.Lmsr

open Lib

def fixedScale : Nat := 1000000000000
def probabilityScale : Nat := 1000000
def minLiquidityParameter : Nat := 10000000
def maxLiquidityParameter : Nat := 1000000000000
def minTradeShares : Nat := 10000
def maxTradeShares : Nat := 100000000000
def maxOutcomeQuantity : Nat := 1000000000000000
def maxImbalanceMultiplier : Nat := 20
def maxTradingFeeBps : Nat := 1000
def ln2Fixed : Nat := 693147180559

inductive OutcomeSide
  | yes
  | no
  deriving DecidableEq, Repr

inductive TradeDirection
  | buy
  | sell
  deriving DecidableEq, Repr

structure MarketQuantities where
  yes : Nat
  no : Nat
  deriving DecidableEq, Repr

structure TradeQuote where
  direction : TradeDirection
  side : OutcomeSide
  shares : Nat
  rawAmount : Nat
  feeAmount : Nat
  totalAmount : Nat
  averagePrice : Nat
  beforeYesProbability : Nat
  afterYesProbability : Nat
  after : MarketQuantities
  deriving DecidableEq, Repr

inductive LmsrError
  | invalidLiquidity
  | invalidTradeSize
  | invalidFee
  | insufficientShares
  | quantityOverflow
  | imbalanceLimit
  | arithmeticOverflow
  | zeroAmount
  | feeExceedsProceeds
  deriving DecidableEq, Repr

structure QuoteRequest where
  direction : TradeDirection
  side : OutcomeSide
  shares : Nat
  feeBps : Nat

/-- `u64::abs_diff`. -/
def absDiff (a b : Nat) : Nat := max a b - min a b

/-! ## Scaled division -/

def mulDivFloor (a b denominator : Nat) : Except LmsrError Nat := do
  require (denominator ≠ 0) .arithmeticOverflow
  let value ← okOr (checkedMul u128Max a b) .arithmeticOverflow
  .ok (value / denominator)

def divCeil (value denominator : Nat) : Except LmsrError Nat := do
  require (denominator ≠ 0) .arithmeticOverflow
  if value % denominator = 0 then
    .ok (value / denominator)
  else
    okOr (checkedAdd u128Max (value / denominator) 1) .arithmeticOverflow

def mulDivCeil (a b denominator : Nat) : Except LmsrError Nat := do
  let value ← okOr (checkedMul u128Max a b) .arithmeticOverflow
  divCeil value denominator

def toU64 (value : Nat) : Except LmsrError Nat := do
  require (value ≤ u64Max) .arithmeticOverflow
  .ok value

/-! ## The two series -/

/-- One term of the alternating series: subtracted at odd denominators, added at even ones. -/
def addTerm (denominator term sum : Nat) : Except LmsrError Nat :=
  if denominator % 2 = 1 then
    okOr (checkedSub sum term) .arithmeticOverflow
  else
    okOr (checkedAdd u128Max sum term) .arithmeticOverflow

/-- The loop of `exp_negative_fixed` over the denominators left. -/
def expSeries (remainder : Nat) : List Nat → Nat → Nat → Except LmsrError Nat
  | [], _, sum => .ok sum
  | denominator :: rest, term, sum => do
    let scaled ← mulDivFloor term remainder fixedScale
    let sum ← addTerm denominator (scaled / denominator) sum
    expSeries remainder rest (scaled / denominator) sum

def expNegativeFixed (value : Nat) : Except LmsrError Nat :=
  if 127 < value / ln2Fixed then
    .ok 0
  else do
    let sum ← expSeries (value % ln2Fixed) (List.range' 1 22) fixedScale fixedScale
    .ok (sum >>> (value / ln2Fixed))

/-- The loop of `ln_one_plus_fixed` over the denominators left. -/
def lnSeries (ratioSquared : Nat) : List Nat → Nat → Nat → Except LmsrError Nat
  | [], _, sum => .ok sum
  | denominator :: rest, power, sum => do
    let power ← mulDivFloor power ratioSquared fixedScale
    let sum ← okOr (checkedAdd u128Max sum (power / denominator)) .arithmeticOverflow
    lnSeries ratioSquared rest power sum

def lnOnePlusFixed (value : Nat) : Except LmsrError Nat := do
  require (value ≤ fixedScale) .arithmeticOverflow
  let base ← okOr (checkedMul u128Max fixedScale 2) .arithmeticOverflow
  let denominator ← okOr (checkedAdd u128Max base value) .arithmeticOverflow
  let ratio ← mulDivFloor value fixedScale denominator
  let ratioSquared ← mulDivFloor ratio ratio fixedScale
  let sum ← lnSeries ratioSquared (List.range' 3 16 2) ratio ratio
  okOr (checkedMul u128Max sum 2) .arithmeticOverflow

/-! ## Validation -/

def validateLiquidity (liquidity : Nat) : Except LmsrError Unit :=
  require (minLiquidityParameter ≤ liquidity ∧ liquidity ≤ maxLiquidityParameter)
    .invalidLiquidity

def validateTrade (shares feeBps : Nat) : Except LmsrError Unit := do
  require (minTradeShares ≤ shares ∧ shares ≤ maxTradeShares) .invalidTradeSize
  require (feeBps ≤ maxTradingFeeBps) .invalidFee

def validateState (quantities : MarketQuantities) (liquidity : Nat) : Except LmsrError Unit := do
  validateLiquidity liquidity
  require (quantities.yes ≤ maxOutcomeQuantity ∧ quantities.no ≤ maxOutcomeQuantity)
    .quantityOverflow
  let maximumImbalance ← okOr (checkedMul u64Max liquidity maxImbalanceMultiplier)
    .arithmeticOverflow
  require (absDiff quantities.yes quantities.no ≤ maximumImbalance) .imbalanceLimit

def increase (quantities : MarketQuantities) (side : OutcomeSide) (shares : Nat) :
    Except LmsrError MarketQuantities :=
  match side with
  | .yes => do
    let yes ← okOr (checkedAdd u64Max quantities.yes shares) .quantityOverflow
    .ok { quantities with yes }
  | .no => do
    let no ← okOr (checkedAdd u64Max quantities.no shares) .quantityOverflow
    .ok { quantities with no }

def decrease (quantities : MarketQuantities) (side : OutcomeSide) (shares : Nat) :
    Except LmsrError MarketQuantities :=
  match side with
  | .yes => do
    let yes ← okOr (checkedSub quantities.yes shares) .insufficientShares
    .ok { quantities with yes }
  | .no => do
    let no ← okOr (checkedSub quantities.no shares) .insufficientShares
    .ok { quantities with no }

/-! ## Costs and quotes -/

def requiredSubsidy (liquidity roundingReserve : Nat) : Except LmsrError Nat := do
  validateLiquidity liquidity
  let cost ← mulDivCeil liquidity ln2Fixed fixedScale
  let subsidy ← okOr (checkedAdd u128Max cost roundingReserve) .arithmeticOverflow
  toU64 subsidy

def costFixed (quantities : MarketQuantities) (liquidity : Nat) : Except LmsrError Nat := do
  validateState quantities liquidity
  let ratio ← mulDivFloor (absDiff quantities.yes quantities.no) fixedScale liquidity
  let tail ← expNegativeFixed ratio
  let softplus ← lnOnePlusFixed tail
  let base ← okOr (checkedMul u128Max (max quantities.yes quantities.no) fixedScale)
    .arithmeticOverflow
  let weighted ← okOr (checkedMul u128Max liquidity softplus) .arithmeticOverflow
  okOr (checkedAdd u128Max base weighted) .arithmeticOverflow

def yesProbability (quantities : MarketQuantities) (liquidity : Nat) : Except LmsrError Nat := do
  validateState quantities liquidity
  let ratio ← mulDivFloor (absDiff quantities.yes quantities.no) fixedScale liquidity
  let tail ← expNegativeFixed ratio
  let denominator ← okOr (checkedAdd u128Max fixedScale tail) .arithmeticOverflow
  let scaled ← mulDivFloor tail probabilityScale denominator
  let lower ← toU64 scaled
  if quantities.no ≤ quantities.yes then
    okOr (checkedSub probabilityScale lower) .arithmeticOverflow
  else
    .ok lower

/-- What the trader pays or receives once the fee is known. -/
def totalOf (direction : TradeDirection) (rawAmount feeAmount : Nat) : Except LmsrError Nat :=
  match direction with
  | .buy => okOr (checkedAdd u64Max rawAmount feeAmount) .arithmeticOverflow
  | .sell => okOr (checkedSub rawAmount feeAmount) .feeExceedsProceeds

def buildQuote (request : QuoteRequest) (before after : MarketQuantities)
    (liquidity rawAmount : Nat) : Except LmsrError TradeQuote := do
  let averagePriceFixed ← mulDivFloor rawAmount fixedScale request.shares
  let boundedPrice := min averagePriceFixed fixedScale
  let complement ← okOr (checkedSub fixedScale boundedPrice) .arithmeticOverflow
  let curvature ← mulDivFloor boundedPrice complement fixedScale
  let feeBase ← okOr (checkedMul u128Max request.shares request.feeBps) .arithmeticOverflow
  let feeNumerator ← okOr (checkedMul u128Max feeBase curvature) .arithmeticOverflow
  let feeDenominator ← okOr (checkedMul u128Max 10000 fixedScale) .arithmeticOverflow
  let fee ← divCeil feeNumerator feeDenominator
  let feeAmount ← toU64 fee
  let totalAmount ← totalOf request.direction rawAmount feeAmount
  require (totalAmount ≠ 0) .zeroAmount
  let price ← mulDivFloor boundedPrice probabilityScale fixedScale
  let averagePrice ← toU64 price
  let beforeYesProbability ← yesProbability before liquidity
  let afterYesProbability ← yesProbability after liquidity
  .ok {
    direction := request.direction
    side := request.side
    shares := request.shares
    rawAmount, feeAmount, totalAmount, averagePrice
    beforeYesProbability, afterYesProbability, after }

def quoteBuy (quantities : MarketQuantities) (liquidity : Nat) (side : OutcomeSide)
    (shares feeBps : Nat) : Except LmsrError TradeQuote := do
  validateTrade shares feeBps
  let after ← increase quantities side shares
  validateState after liquidity
  let beforeCost ← costFixed quantities liquidity
  let afterCost ← costFixed after liquidity
  let delta ← okOr (checkedSub afterCost beforeCost) .arithmeticOverflow
  let raw ← divCeil delta fixedScale
  let rawAmount ← toU64 raw
  require (rawAmount ≠ 0) .zeroAmount
  buildQuote { direction := .buy, side, shares, feeBps } quantities after liquidity rawAmount

def quoteSell (quantities : MarketQuantities) (liquidity : Nat) (side : OutcomeSide)
    (shares feeBps : Nat) : Except LmsrError TradeQuote := do
  validateTrade shares feeBps
  let after ← decrease quantities side shares
  validateState after liquidity
  let beforeCost ← costFixed quantities liquidity
  let afterCost ← costFixed after liquidity
  let delta ← okOr (checkedSub beforeCost afterCost) .arithmeticOverflow
  let rawAmount ← toU64 (delta / fixedScale)
  require (rawAmount ≠ 0) .zeroAmount
  buildQuote { direction := .sell, side, shares, feeBps } quantities after liquidity rawAmount

end Nortia.Lmsr
