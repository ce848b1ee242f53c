import Nortia.Program.Error
import Nortia.Program.Types

/-!
# `oracles.rs`: observations and the Pyth resolver

The Pyth SDK's decoder of a price update, SHA-256 and the address derivation are parameters
(`Runtime`).
-/

namespace Nortia

open Lib

/-! ## Third-party code -/

inductive VerificationLevel
  | partly (numSignatures : Nat)
  | full
  deriving DecidableEq

structure PriceFeedMessage where
  feedId : Bytes32
  price : Int
  conf : Nat
  exponent : Int
  publishTime : Int
  prevPublishTime : Int
  emaPrice : Int
  emaConf : Nat

structure PythPriceUpdate where
  writeAuthority : Pubkey
  verificationLevel : VerificationLevel
  priceMessage : PriceFeedMessage
  postedSlot : Nat

structure OracleSignatureData where
  messageDataSize : Nat
  pubkey : Bytes32
  signature : Bytes 64

structure PackedFeedInfo where
  feedId : Bytes32
  feedValue : Int
  minOracleSamples : Nat

structure ParsedEd25519Instruction where
  numSignatures : Nat
  padding : Nat
  signatures : List OracleSignatureData
  signedSlothash : Bytes32
  feeds : List PackedFeedInfo
  oracleIdxs : List Nat
  slot : Nat
  version : Nat
  discriminator : List UInt8

inductive ParsedQuotePayload
  | oracle (quote : ParsedEd25519Instruction)
  | authority

/-- What the program calls outside its own sources. -/
structure Runtime where
  sha256 : List UInt8 → Bytes32
  findProgramAddress : List (List UInt8) → Pubkey → Pubkey
  deserializePriceUpdate : List UInt8 → Option PythPriceUpdate
  parseQuotePayload : List UInt8 → Option ParsedQuotePayload

/-- `hashv`: SHA-256 of the concatenation. -/
def Runtime.hashv (rt : Runtime) (parts : List (List UInt8)) : Bytes32 := rt.sha256 parts.flatten

/-! ## Comparison of decimals -/

structure NormalizedObservation where
  outcome : Nat
  value : Int
  exponent : Int
  timestamp : Int
  slot : Nat
  confidence : Nat
  sampleCount : Nat

namespace Oracles

def compareMagnitudes (left : Nat) (leftExponent : Int) (right : Nat) (rightExponent : Int) :
    Ordering :=
  match compare leftExponent rightExponent with
  | .eq => compare left right
  | .gt =>
    match checkedMul u128Max left (10 ^ (leftExponent - rightExponent).toNat) with
    | some normalized => compare normalized right
    | none => .gt
  | .lt =>
    match checkedMul u128Max right (10 ^ (rightExponent - leftExponent).toNat) with
    | some normalized => compare left normalized
    | none => .lt

def compareDecimalValues (left leftExponent right rightExponent : Int) : Ordering :=
  match compare left 0, compare right 0 with
  | .lt, .lt => (compareMagnitudes left.natAbs leftExponent right.natAbs rightExponent).swap
  | .lt, _ | .eq, .gt => .lt
  | .eq, .lt | .gt, .lt | .gt, .eq => .gt
  | .eq, .eq => .eq
  | .gt, .gt => compareMagnitudes left.natAbs leftExponent right.natAbs rightExponent

def compareValues (left leftExponent right rightExponent : Int) (comparator : ValueComparator) :
    Except Failure Bool := do
  check ((-18 ≤ leftExponent ∧ leftExponent ≤ 18) ∧ -18 ≤ rightExponent ∧ rightExponent ≤ 18)
    .invalidOracleConfiguration
  let ordering := compareDecimalValues left leftExponent right rightExponent
  match comparator with
  | .greaterThan => .ok (ordering = .gt)
  | .greaterThanOrEqual => .ok (ordering ≠ .lt)
  | .lessThan => .ok (ordering = .lt)
  | .lessThanOrEqual => .ok (ordering ≠ .gt)
  | .equal => .ok (ordering = .eq)

/-! ## Pyth -/

structure ValidatedPythUpdate where
  observation : NormalizedObservation
  update : PythPriceUpdate

/-- The SDK's `get_price_unchecked`: the message, if it is of the given feed. -/
def getPriceUnchecked (update : PythPriceUpdate) (feedId : Bytes32) : Option PriceFeedMessage :=
  if update.priceMessage.feedId = feedId then some update.priceMessage else none

def validatePythObservation (update : PythPriceUpdate) (oracle : OracleConfig) (clock : Clock) :
    Except Failure NormalizedObservation := do
  check (oracle.resolver = .pythPrice ∧ (oracle.sourceProgram = pythReceiverProgramId ∨
    oracle.sourceProgram = pythPushOracleProgramId)) .invalidOracleConfiguration
  check (update.verificationLevel = .full) .invalidOracleConfiguration
  let price ← orFail (getPriceUnchecked update oracle.sourceId) .invalidOracleConfiguration
  let windowEnd ← orFail
    (checkedAddInt i64Min i64Max oracle.observationTs oracle.observationWindowSecs)
    .arithmeticOverflow
  check (update.priceMessage.prevPublishTime < oracle.observationTs ∧
    oracle.observationTs ≤ price.publishTime ∧ price.publishTime ≤ windowEnd ∧
    price.publishTime ≤ clock.unixTimestamp) .invalidObservationTime
  let reportLag ← orFail (checkedSubInt i64Min i64Max price.publishTime oracle.observationTs)
    .invalidObservationTime
  check (reportLag ≤ oracle.maxStalenessSecs) .invalidObservationTime
  check (0 < price.price) .invalidOracleConfiguration
  let confidenceRatioLeft ← orFail (checkedMul u128Max price.conf feeSplitDenominator)
    .arithmeticOverflow
  let confidenceRatioRight ← orFail
    (checkedMul u128Max price.price.toNat oracle.maxConfidenceBps) .arithmeticOverflow
  check (confidenceRatioLeft ≤ confidenceRatioRight) .invalidOracleConfiguration
  let answer ← compareValues price.price price.exponent oracle.threshold oracle.thresholdExponent
    oracle.comparator
  .ok {
    outcome := answer.toNat
    value := price.price
    exponent := price.exponent
    timestamp := price.publishTime
    slot := update.postedSlot
    confidence := price.conf
    sampleCount := 0 }

/-- The push oracle's account of a feed is at its canonical address. -/
def checkPushOracleAddress (rt : Runtime) (priceUpdate : AccountInfo) (oracle : OracleConfig) :
    Except Failure Unit :=
  check (oracle.sourceProgram = pythPushOracleProgramId →
    priceUpdate.key = rt.findProgramAddress [leBytes 2 0, oracle.sourceId.toList]
      pythPushOracleProgramId) .invalidOracleConfiguration

def validatePythAccount (rt : Runtime) (priceUpdate : AccountInfo) (oracle : OracleConfig)
    (clock : Clock) : Except Failure ValidatedPythUpdate := do
  check (priceUpdate.owner = oracle.sourceProgram) .invalidOracleConfiguration
  checkPushOracleAddress rt priceUpdate oracle
  let update ← orFail (rt.deserializePriceUpdate priceUpdate.data) .invalidOracleConfiguration
  let observation ← validatePythObservation update oracle clock
  .ok { observation, update }

end Oracles

end Nortia
