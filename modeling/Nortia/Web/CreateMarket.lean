import Nortia.Client.Oracles
import Nortia.Client.PublicKey
import Nortia.Lib.BigInt
import Nortia.Program.Metadata

/-!
# `create-market-form.tsx`: creating a hybrid market

The form derives a question, rules and a reference from what was typed, commits to the digests of
the texts in one transaction and publishes the texts in a second one. A string is its characters; a
lone surrogate is the replacement character, which it is encoded as and which no check of the form
tells from it. The market does not exist yet and the wallet can pay.
-/

namespace Nortia.Web

open Lib Nortia.Client

inductive ResolverChoice
  | pyth
  | switchboard
  | stork
  | optimistic
  | txlineReplay
  deriving DecidableEq, Repr

def ResolverChoice.text : ResolverChoice → List Char
  | .pyth => "pyth".toList
  | .switchboard => "switchboard".toList
  | .stork => "stork".toList
  | .optimistic => "optimistic".toList
  | .txlineReplay => "txline-replay".toList

structure PythFeed where
  id : List Char
  symbol : List Char
  quoteCurrency : List Char
  sponsoredPush : Bool
  heartbeatSeconds : Option Nat

structure StorkAsset where
  feedId : List Char

/-- The state of the form. -/
structure CreateMarketForm where
  category : MarketCategory
  resolver : ResolverChoice
  marketId : Nat
  selectedFeed : Option PythFeed
  priceThreshold : List Char
  customQuestion : List Char
  customRules : List Char
  customReferenceUrl : List Char
  switchboardFeedHash : List Char
  switchboardUnit : List Char
  switchboardLabel : List Char
  switchboardValidated : Bool
  storkAssetId : List Char
  storkAsset : Option StorkAsset
  fixtureLabel : List Char

/-! ## The texts -/

/-- `value || fallback`. -/
def orElse (value : List Char) (fallback : String) : List Char :=
  if value = [] then fallback.toList else value

namespace CreateMarketForm

variable (form : CreateMarketForm)

def question : List Char :=
  match form.resolver with
  | .pyth =>
    match form.selectedFeed with
    | some feed =>
      "Will ".toList ++ feed.symbol ++ " be at or above ".toList ++
        (if feed.quoteCurrency = "USD".toList then "$".toList else []) ++ form.priceThreshold ++
        " ".toList ++ feed.quoteCurrency ++ " at the resolution time?".toList
    | none => "Select a verified Pyth feed to define this market.".toList
  | .switchboard =>
    "Will ".toList ++ orElse (BigInt.trim form.switchboardLabel) "the configured metric" ++
      " be at or above ".toList ++ form.priceThreshold ++ " ".toList ++
      orElse (BigInt.trim form.switchboardUnit) "units" ++ " at the resolution time?".toList
  | .stork =>
    "Will ".toList ++ orElse form.storkAssetId "the selected Stork asset" ++
      " be at or above ".toList ++ form.priceThreshold ++
      " USD at the resolution time?".toList
  | .optimistic => BigInt.trim form.customQuestion
  | .txlineReplay => "Will ".toList ++ form.fixtureLabel ++ " finish with over 2.5 goals?".toList

def rules : List Char :=
  match form.resolver with
  | .pyth =>
    match form.selectedFeed with
    | some feed =>
      "Resolve from the fully verified Pyth ".toList ++ feed.symbol ++
        " update that uniquely brackets the configured timestamp. ".toList ++
        "YES requires a value greater than or equal to ".toList ++
        form.priceThreshold ++ " ".toList ++ feed.quoteCurrency ++
        " with no more than 1% confidence width.".toList
    | none => "A verified Pyth feed is required before this market can be created.".toList
  | .switchboard =>
    "Resolve from the canonical Switchboard devnet quote for feed ".toList ++
      form.switchboardFeedHash ++
      ". YES requires the 1e18-scaled value to be greater than or equal to ".toList ++
      form.priceThreshold ++ " ".toList ++ form.switchboardUnit ++
      ", with at least three distinct oracle signatures.".toList
  | .stork =>
    "Resolve from the canonical Stork Solana account for ".toList ++ form.storkAssetId ++
      ". YES requires the 1e18-scaled value to be greater than or equal to ".toList ++
      form.priceThreshold ++ " USD inside the configured observation window.".toList
  | .optimistic => BigInt.trim form.customRules
  | .txlineReplay =>
    "TxLINE participant-one goals plus participant-two goals ".toList ++
      "for final period 100 must be greater than 2.".toList

/-- `/^[0-9a-f]{64}$/i`. -/
def isFeedHash (value : List Char) : Bool := value.length = 64 && value.all Hex.isHexDigit

def referenceUrl : List Char :=
  match form.resolver with
  | .pyth => "https://docs.pyth.network/price-feeds/core/price-feeds".toList
  | .switchboard =>
    if isFeedHash form.switchboardFeedHash then
      "https://crossbar.switchboard.xyz/v2/fetch/".toList ++
        form.switchboardFeedHash.map Char.toLower
    else []
  | .stork => "https://docs.stork.network/resources/asset-id-registry".toList
  | .optimistic => BigInt.trim form.customReferenceUrl
  | .txlineReplay => []

end CreateMarketForm

/-! ## The oracle -/

/-- What a resolver choice sets: the arguments of the oracle without the observation time and the
digest of the configuration, and the deadline. -/
structure OracleSettings where
  resolver : OracleResolver
  sourceProgram : Pubkey
  sourceQueue : Pubkey
  sourceId : Bytes32
  comparator : ValueComparator
  threshold : Int
  thresholdExponent : Int
  observationWindowSecs : Nat
  maxStalenessSecs : Nat
  maxStalenessSlots : Nat
  maxConfidenceBps : Nat
  minSamples : Nat
  challengePeriodSecs : Nat
  bondAmount : Nat
  resolutionDeadlineTs : Int

/-- The values the declarations start with. -/
def OracleSettings.initial (questionHash : Bytes32) (observationTs : Int) : OracleSettings where
  resolver := .optimistic
  sourceProgram := crateId
  sourceQueue := Pubkey.default
  sourceId := questionHash
  comparator := .equal
  threshold := 0
  thresholdExponent := 0
  observationWindowSecs := 24 * 60 * 60
  maxStalenessSecs := 0
  maxStalenessSlots := 0
  maxConfidenceBps := 0
  minSamples := 0
  challengePeriodSecs := 6 * 60 * 60
  bondAmount := 25000000
  resolutionDeadlineTs := observationTs + 48 * 60 * 60

def oracleSettings (form : CreateMarketForm) (questionHash : Bytes32) (observationTs : Int) :
    Except String OracleSettings :=
  let initial := OracleSettings.initial questionHash observationTs
  match form.resolver with
  | .pyth => do
    let feed ← okOr form.selectedFeed "Select a verified Pyth feed before creating the market"
    let sourceId ← oracleSourceIdBytes feed.id
    let threshold ← parseDecimalAtExponent form.priceThreshold (-8)
    let observationWindowSecs :=
      if feed.sponsoredPush then max (feed.heartbeatSeconds.getD 60 + 30) 90 else 60
    .ok { initial with
      sourceProgram := if feed.sponsoredPush then pythPushOracleProgramId else pythReceiverProgramId
      sourceId, threshold, observationWindowSecs
      resolver := .pythPrice
      comparator := .greaterThanOrEqual
      thresholdExponent := -8
      maxStalenessSecs := observationWindowSecs
      maxConfidenceBps := 100
      challengePeriodSecs := 0
      bondAmount := 0
      resolutionDeadlineTs := observationTs + 30 * 60 }
  | .switchboard => do
    let sourceId ← oracleSourceIdBytes form.switchboardFeedHash
    let threshold ← parseDecimalAtExponent form.priceThreshold (-18)
    .ok { initial with
      sourceId, threshold
      sourceProgram := switchboardQuoteProgramId
      sourceQueue := switchboardDevnetQueue
      resolver := .switchboardQuote
      comparator := .greaterThanOrEqual
      thresholdExponent := -18
      observationWindowSecs := 5 * 60
      maxStalenessSlots := 150
      minSamples := 3
      challengePeriodSecs := 0
      bondAmount := 0
      resolutionDeadlineTs := observationTs + 60 * 60 }
  | .stork => do
    let asset ← okOr form.storkAsset "Choose a verified Stork asset"
    let sourceId ← oracleSourceIdBytes asset.feedId
    let threshold ← parseDecimalAtExponent form.priceThreshold (-18)
    .ok { initial with
      sourceId, threshold
      sourceProgram := storkOracleProgramId
      resolver := .storkPrice
      comparator := .greaterThanOrEqual
      thresholdExponent := -18
      observationWindowSecs := 30
      maxStalenessSecs := 15
      challengePeriodSecs := 0
      bondAmount := 0
      resolutionDeadlineTs := observationTs + 30 * 60 }
  | _ => .ok initial

/-- The key of the comparator object. -/
def comparatorKey : ValueComparator → String
  | .greaterThan => "greaterThan"
  | .greaterThanOrEqual => "greaterThanOrEqual"
  | .lessThan => "lessThan"
  | .lessThanOrEqual => "lessThanOrEqual"
  | .equal => "equal"

def oracleFingerprint (form : CreateMarketForm) (settings : OracleSettings) (observationTs : Int)
    (questionHash rulesHash : Bytes32) : List Char :=
  List.intercalate ['\n'] [
    form.resolver.text,
    (toBase58 settings.sourceProgram).toList,
    (toBase58 settings.sourceQueue).toList,
    (hex settings.sourceId.toList).toList,
    (comparatorKey settings.comparator).toList,
    (toString settings.threshold).toList,
    (toString settings.thresholdExponent).toList,
    (toString observationTs).toList,
    (toString settings.observationWindowSecs).toList,
    (hex questionHash.toList).toList,
    (hex rulesHash.toList).toList]

/-! ## The two transactions -/

/-- The length of a string: its UTF-16 code units. -/
def utf16Length (s : List Char) : Nat := (s.map fun c => if c.toNat < 0x10000 then 1 else 2).sum

/-- The arguments of the transactions that create a market and publish its texts. -/
structure HybridMarketTransactions where
  market : InitializeHybridMarketArgs
  metadata : Hybrid.PublishHybridMetadataArgs

/-- The date of the form in seconds; `milliseconds` is what `Date.parse` returns. -/
def timestamp (milliseconds : Option Int) : Except String Int := do
  let milliseconds ← okOr milliseconds "Choose a valid resolution date and time"
  .ok (milliseconds / 1000)

/-- The SHA-256 digest of the UTF-8 bytes of a text. -/
def sha256Text (sha256 : List UInt8 → Bytes32) (value : List Char) : Bytes32 :=
  sha256 (Text.asBytes value)

def createHybridMarket (sha256 : List UInt8 → Bytes32) (form : CreateMarketForm)
    (resolutionAt : Option Int) (now : Int) : Except String HybridMarketTransactions := do
  let observationTs ← timestamp resolutionAt
  require (now + 20 * 60 ≤ observationTs) "Resolution must be at least 20 minutes in the future"
  require (form.question ≠ [] ∧ form.rules ≠ []) "Question and resolution rules are required"
  require (utf16Length form.question ≤ 160 ∧ utf16Length form.rules ≤ 420)
    "Question or resolution rules exceed contract limits"
  require (form.resolver = .optimistic → "https://".toList <+: form.referenceUrl)
    "Bonded fact markets require an HTTPS primary source"
  require (form.resolver = .switchboard → form.switchboardValidated = true)
    "Validate the stored Switchboard feed before creating the market"
  require (form.resolver = .stork → form.storkAsset.isSome = true) "Choose a verified Stork asset"
  let questionHash := sha256Text sha256 form.question
  let rulesHash := sha256Text sha256 form.rules
  let outcomeLabelsHash := sha256Text sha256 "YES\nNO".toList
  let settings ← oracleSettings form questionHash observationTs
  let configHash := sha256Text sha256
    (oracleFingerprint form settings observationTs questionHash rulesHash)
  .ok {
    market := {
      marketId := form.marketId
      category := form.category
      tradingMode := .continuous
      questionHash, rulesHash, outcomeLabelsHash
      liquidityParameter := 25000000
      roundingReserve := 2
      maxTradeShares := 10000000
      tradeFeeBps := 100
      lockTs := observationTs - 5 * 60
      resolveNotBeforeTs := observationTs
      resolutionDeadlineTs := settings.resolutionDeadlineTs
      oracle := {
        resolver := settings.resolver
        sourceProgram := settings.sourceProgram
        sourceQueue := settings.sourceQueue
        sourceId := settings.sourceId
        comparator := settings.comparator
        threshold := settings.threshold
        thresholdExponent := settings.thresholdExponent
        observationTs
        observationWindowSecs := settings.observationWindowSecs
        maxStalenessSecs := settings.maxStalenessSecs
        maxStalenessSlots := settings.maxStalenessSlots
        maxConfidenceBps := settings.maxConfidenceBps
        minSamples := settings.minSamples
        challengePeriodSecs := settings.challengePeriodSecs
        bondAmount := settings.bondAmount
        configHash } }
    metadata := {
      question := form.question
      rules := form.rules
      yesLabel := "YES".toList
      noLabel := "NO".toList
      referenceUrl := form.referenceUrl } }

end Nortia.Web
