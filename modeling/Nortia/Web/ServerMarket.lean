import Nortia.Lib.Decimal
import Nortia.Lib.Keyed
import Nortia.Client.Lmsr
import Nortia.Client.MarketEngine
import Nortia.Program.Market

/-!
# `web/lib/solana/server-market.ts`: the listing of the markets

`getOnchainMarkets` decodes the accounts of the program, builds an entry of each market and sorts
the entries. What throws while an account is decoded is caught there; what throws while an entry is
built is not. An ISO text stands for the milliseconds it denotes, and a double for the rational it
is.
-/

namespace Nortia.Web

open Lib Client

/-! ## Accounts -/

/-- What the coder decodes the data of an account to; its discriminator leaves one choice. -/
inductive AccountData
  | market (account : Market)
  | hybridMarket (account : HybridMarket)
  | oracleConfig (account : OracleConfig)
  | hybridMarketMetadata (account : Hybrid.HybridMarketMetadata)
  | resolutionReceipt (account : ResolutionReceipt)
  | position (account : Position)
  | other

/-- An account; `tokenAmount` is what `vaultBalance` reads of its data. -/
structure ChainAccount where
  owner : Pubkey
  data : AccountData
  tokenAmount : Nat

/-- The accounts of the chain, one at an address. -/
structure Ledger where
  accounts : List (Pubkey × ChainAccount)
  distinct : (accounts.map Prod.fst).Nodup

def Ledger.get (ledger : Ledger) (address : Pubkey) : Option ChainAccount :=
  (Keyed.find Prod.fst ledger.accounts address).map Prod.snd

/-- What the page is run on: the clock in milliseconds, the texts of addresses and of times, the
rounding to doubles, the digest and the derived addresses. -/
structure Host where
  now : Int
  toBase58 : Pubkey → String
  toLocaleString : (timeZoneName : Bool) → (milliseconds : Int) → String
  round : Rat → Rat
  runtime : Runtime

/-! ## Conversions -/

/-- The nearest double of an integer is safe exactly when the integer is, and then it is the
integer. -/
def safeNumber (value : Int) (label : String) : Except String Int := do
  require (isSafeInteger value = true) (label ++ " exceeds the safe integer range")
  .ok value

def tokenNumber (host : Host) (value : Int) : Rat := host.round (host.round value / 1000000)

/-- The last millisecond of a `Date`, and minus the first. -/
def maxTime : Int := 8640000000000000

/-- `Date.prototype.toISOString`. -/
def toISOString (milliseconds : Int) : Except String Int := do
  require (-maxTime ≤ milliseconds ∧ milliseconds ≤ maxTime) "Invalid time value"
  .ok milliseconds

def dateFromSeconds (value : Int) : Except String Int := do
  let seconds ← safeNumber value "timestamp"
  toISOString (seconds * 1000)

/-- The text of `new Date(ms).toLocaleString`, which does not throw. -/
def localeString (host : Host) (timeZoneName : Bool) (milliseconds : Int) : String :=
  if -maxTime ≤ milliseconds ∧ milliseconds ≤ maxTime then
    host.toLocaleString timeZoneName milliseconds
  else "Invalid Date"

/-- The key of the object an enumeration is decoded to, without underscores and in lower case. -/
def enumKey (key : String) : String :=
  String.ofList ((key.toList.filter (· ≠ '_')).map Char.toLower)

/-! ## Enumerations -/

inductive TradingState
  | open
  | locked
  | batched
  | resolving
  | disputed
  | resolved
  | refunding
  | closed
  deriving DecidableEq, Repr

def MarketPhase.key : MarketPhase → String
  | .open => "Open"
  | .batched => "Batched"
  | .resolved => "Resolved"
  | .refunding => "Refunding"
  | .closed => "Closed"

def MarketMode.key : MarketMode → String
  | .live => "Live"
  | .replay => "Replay"

def HybridPhase.key : HybridPhase → String
  | .open => "Open"
  | .locked => "Locked"
  | .resolving => "Resolving"
  | .disputed => "Disputed"
  | .resolved => "Resolved"
  | .closed => "Closed"

def MarketCategory.key : MarketCategory → String
  | .sports => "Sports"
  | .crypto => "Crypto"
  | .politics => "Politics"
  | .technology => "Technology"
  | .culture => "Culture"
  | .other => "Other"
  | .economics => "Economics"
  | .science => "Science"

def OracleResolver.key : OracleResolver → String
  | .txlineStat => "TxlineStat"
  | .pythPrice => "PythPrice"
  | .switchboardQuote => "SwitchboardQuote"
  | .optimistic => "Optimistic"
  | .umaWormhole => "UmaWormhole"
  | .chainlinkReport => "ChainlinkReport"
  | .storkPrice => "StorkPrice"

def ValueComparator.key : ValueComparator → String
  | .greaterThan => "GreaterThan"
  | .greaterThanOrEqual => "GreaterThanOrEqual"
  | .lessThan => "LessThan"
  | .lessThanOrEqual => "LessThanOrEqual"
  | .equal => "Equal"

def privatePoolPhase (value : String) : Option TradingState :=
  List.lookup (enumKey value) [("open", .open), ("batched", .batched), ("resolved", .resolved),
    ("refunding", .refunding), ("closed", .closed)]

def hybridPhase (value : String) : Option TradingState :=
  List.lookup (enumKey value) [("open", .open), ("locked", .locked), ("resolving", .resolving),
    ("disputed", .disputed), ("resolved", .resolved), ("closed", .closed)]

def categoryName (value : String) : Option String :=
  List.lookup (enumKey value) [("sports", "Sports"), ("crypto", "Crypto"),
    ("politics", "Politics"), ("technology", "Technology"), ("culture", "Culture"),
    ("other", "Other"), ("economics", "Economics"), ("science", "Science")]

structure ResolverName where
  resolverId : String
  label : String

def resolverName (value : String) : Option ResolverName :=
  List.lookup (enumKey value) [("txlinestat", ⟨"txline-stat", "TxLINE"⟩),
    ("pythprice", ⟨"pyth-price", "Pyth"⟩),
    ("switchboardquote", ⟨"switchboard-quote", "Switchboard"⟩),
    ("storkprice", ⟨"stork-price", "Stork"⟩), ("optimistic", ⟨"optimistic", "Bonded"⟩),
    ("umawormhole", ⟨"uma-wormhole", "UMA"⟩),
    ("chainlinkreport", ⟨"chainlink-report", "Chainlink"⟩)]

def comparatorName (value : String) : Option String :=
  List.lookup (enumKey value) [("greaterthan", "greater-than"),
    ("greaterthanorequal", "greater-than-or-equal"), ("lessthan", "less-than"),
    ("lessthanorequal", "less-than-or-equal"), ("equal", "equal")]

def outcomeName (value : Nat) : Option String := ["no", "yes", "invalid", "unset"][value]?

def categoryCode (category : String) : String :=
  (List.lookup category [("Sports", "SPT"), ("Crypto", "CRY"), ("Politics", "POL"),
    ("Technology", "TEC"), ("Culture", "CUL"), ("Other", "MKT"), ("Economics", "ECO"),
    ("Science", "SCI")]).getD ""

/-! ## Entries -/

inductive MarketStatus
  | live
  | upcoming
  | settled
  deriving DecidableEq, Repr

structure OracleDetails where
  sourceProgram : String
  sourceQueue : String
  sourceId : String
  comparator : String
  threshold : String
  thresholdExponent : Int
  observationAt : Int
  observationWindowSecs : Nat
  maxStalenessSecs : Nat
  maxStalenessSlots : String
  maxConfidenceBps : Nat
  minSamples : Nat
  challengePeriodSecs : Nat
  bondAmount : String
  consumed : Bool

structure ReceiptDetails where
  outcome : String
  observationValue : String
  observationExponent : Int
  observationAt : Int
  observationSlot : String
  confidence : String
  sampleCount : Nat
  sourceAccount : String
  evidenceHash : String
  finalizedAt : Int

structure HybridMarketDetails where
  creator : String
  liquidityOwner : String
  treasuryOwner : String
  collateralMint : String
  oracleConfig : String
  resolverId : String
  metadataPublished : Bool
  rules : Option (List Char)
  yesLabel : List Char
  noLabel : List Char
  referenceUrl : Option (List Char)
  questionHash : String
  rulesHash : String
  liquidityParameter : String
  yesQuantity : String
  noQuantity : String
  maxTradeShares : String
  tradeFeeBps : Nat
  treasuryFeeShareBps : Nat
  openAt : Int
  resolveNotBefore : Int
  resolutionDeadline : Int
  settlementEvidenceHash : String
  outcome : String
  oracle : OracleDetails
  receipt : Option ReceiptDetails

/-- The `Market` of `lib/markets.ts`. -/
structure MarketEntry where
  id : String
  address : String
  marketId : String
  fixtureId : Int
  category : String
  resolver : String
  competition : String
  question : String
  shortQuestion : String
  home : String
  homeCode : String
  away : String
  awayCode : String
  kickoff : String
  lockAt : Int
  status : MarketStatus
  tradingState : TradingState
  score : Option (Int × Int)
  yes : Int
  volume : Rat
  liquidity : Rat
  traders : Nat
  privateStakeAmount : Option String
  replay : Bool
  points : List Int
  hybrid : Option HybridMarketDetails

/-- What a private market takes of a fixture that the page knows. -/
structure Template where
  fixtureId : Int
  competition : String
  home : String
  homeCode : String
  away : String
  awayCode : String
  kickoff : String

def templates : List Template :=
  [⟨18222446, "World Cup Quarter-final", "Argentina", "ARG", "Switzerland", "SUI",
      "Final score replay"⟩,
    ⟨18257739, "World Cup Final", "Spain", "ESP", "Argentina", "ARG", "Jul 19, 19:00 UTC"⟩,
    ⟨18209181, "World Cup Quarter-final", "France", "FRA", "Morocco", "MAR",
      "Final score replay"⟩,
    ⟨18218149, "World Cup Quarter-final", "Spain", "ESP", "Belgium", "BEL",
      "Final score replay"⟩,
    ⟨18213979, "World Cup Quarter-final", "Norway", "NOR", "England", "ENG",
      "Final score replay"⟩]

def findTemplate (fixtureId : Int) : Option Template :=
  Keyed.find Template.fixtureId templates fixtureId

/-- The text of the number `threshold + 0.5`. -/
def halfText (threshold : Int) : String :=
  if 0 ≤ threshold then toString threshold ++ ".5" else "-" ++ toString (-threshold - 1) ++ ".5"

/-- The state of a market that is open until its lock. -/
def effectiveTradingState (host : Host) (tradingState : TradingState) (lockAt : Int) :
    TradingState :=
  if tradingState = .open ∧ lockAt ≤ host.now then .locked else tradingState

def statusFrom (host : Host) (tradingState : TradingState) (start : Int) : MarketStatus :=
  if tradingState = .resolved ∨ tradingState = .closed then .settled
  else if host.now < start then .upcoming else .live

/-- The kickoff of a fixture the page does not know. -/
def kickoffOf (host : Host) (template : Option Template) (fixtureStartTs : Int) :
    Except String String :=
  match template with
  | some template => .ok template.kickoff
  | none => do
    let seconds ← safeNumber fixtureStartTs "fixture start"
    .ok (localeString host false (seconds * 1000))

def buildPrivateMarket (host : Host) (value : String) (account : Market) :
    Except String (Option MarketEntry) :=
  match privatePoolPhase (MarketPhase.key account.phase) with
  | none => .ok none
  | some tradingState => do
    let fixtureId ← safeNumber account.fixtureId "fixture ID"
    let template := findTemplate fixtureId
    let threshold := halfText account.totalGoalsThreshold
    let resolved := tradingState = .resolved ∨ tradingState = .closed
    let home := (template.map Template.home).getD "Participant one"
    let away := (template.map Template.away).getD "Participant two"
    let lockAt ← dateFromSeconds account.lockTs
    let batchedLiquidity : Int := account.yesAmount + account.noAmount
    let kickoff ← kickoffOf host template account.fixtureStartTs
    .ok (some {
      id := value
      address := value
      marketId := toString account.marketId
      fixtureId
      category := "Sports"
      resolver := "TxLINE"
      competition := (template.map Template.competition).getD "TxLINE covered fixture"
      question := "Will " ++ home ++ " vs " ++ away ++ " finish with over " ++ threshold ++ " goals?"
      shortQuestion := "Over " ++ threshold ++ " total goals"
      home
      homeCode := (template.map Template.homeCode).getD "ONE"
      away
      awayCode := (template.map Template.awayCode).getD "TWO"
      kickoff
      lockAt
      status := statusFrom host tradingState lockAt
      tradingState := effectiveTradingState host tradingState lockAt
      score := if resolved then some (account.scoreA, account.scoreB) else none
      yes := if resolved then account.outcome * 100 else 50
      volume := tokenNumber host (if 0 < account.grossPool then account.grossPool
        else batchedLiquidity)
      liquidity := tokenNumber host account.netPool
      traders := account.orderCount
      privateStakeAmount := some (toString account.stakeAmount)
      replay := enumKey (MarketMode.key account.marketMode) = "replay"
      points := [50, 50]
      hybrid := none })

/-! ## Hybrid markets -/

/-- The accounts a hybrid market is read with. -/
structure HybridSupportAccounts where
  oracle : Option ChainAccount
  metadata : Option ChainAccount
  receipt : Option ChainAccount
  vault : Option ChainAccount

/-- `decodeAccount`: the data of an account of the program, when it is the wanted one. -/
def decodeAccount {α : Type} (decode : AccountData → Option α) (info : Option ChainAccount) :
    Option α :=
  info.bind fun account => if account.owner = crateId then decode account.data else none

def AccountData.oracleConfig? : AccountData → Option OracleConfig
  | .oracleConfig account => some account
  | _ => none

def AccountData.hybridMarketMetadata? : AccountData → Option Hybrid.HybridMarketMetadata
  | .hybridMarketMetadata account => some account
  | _ => none

def AccountData.resolutionReceipt? : AccountData → Option ResolutionReceipt
  | .resolutionReceipt account => some account
  | _ => none

def vaultBalance (info : Option ChainAccount) : Nat := (info.map ChainAccount.tokenAmount).getD 0

/-- The digest of a text. -/
def sha256Of (host : Host) (text : List Char) : Bytes32 := host.runtime.sha256 (Text.asBytes text)

def verifiedQuestion (host : Host) (candidate : Option (List Char)) (hash : Bytes32) :
    Option (List Char) :=
  candidate.filter fun text => text ≠ [] && sha256Of host text = hash

def verifiedMetadata (host : Host) (account : Hybrid.HybridMarketMetadata) (market : HybridMarket)
    (address : Pubkey) : Option Hybrid.HybridMarketMetadata :=
  if account.market = address ∧ account.creator = market.creator ∧
      sha256Of host account.question = market.questionHash ∧
      sha256Of host account.rules = market.rulesHash ∧
      sha256Of host (account.yesLabel ++ ['\n'] ++ account.noLabel) = market.outcomeLabelsHash then
    some account
  else none

/-- The oracle account of a market, when it is one and names the market. -/
def oracleOf (support : HybridSupportAccounts) (address : Pubkey) : Option OracleConfig :=
  (decodeAccount AccountData.oracleConfig? support.oracle).filter fun oracle =>
    oracle.market = address

/-- The receipt of a market, when it is one, names the market and has an outcome to show. -/
def receiptOf (support : HybridSupportAccounts) (address : Pubkey) :
    Option (ResolutionReceipt × String) := do
  let receipt ← (decodeAccount AccountData.resolutionReceipt? support.receipt).filter fun receipt =>
    receipt.market = address
  let outcome ← outcomeName receipt.outcome
  if outcome = "unset" then none else some (receipt, outcome)

def buildOracleDetails (host : Host) (oracle : OracleConfig) (comparator : String) :
    Except String OracleDetails := do
  let observationAt ← dateFromSeconds oracle.observationTs
  .ok {
    sourceProgram := host.toBase58 oracle.sourceProgram
    sourceQueue := host.toBase58 oracle.sourceQueue
    sourceId := hex oracle.sourceId.toList
    comparator
    threshold := toString oracle.threshold
    thresholdExponent := oracle.thresholdExponent
    observationAt
    observationWindowSecs := oracle.observationWindowSecs
    maxStalenessSecs := oracle.maxStalenessSecs
    maxStalenessSlots := toString oracle.maxStalenessSlots
    maxConfidenceBps := oracle.maxConfidenceBps
    minSamples := oracle.minSamples
    challengePeriodSecs := oracle.challengePeriodSecs
    bondAmount := toString oracle.bondAmount
    consumed := oracle.consumed }

def buildReceiptDetails (host : Host) :
    Option (ResolutionReceipt × String) → Except String (Option ReceiptDetails)
  | none => .ok none
  | some (receipt, outcome) => do
    let observationAt ← dateFromSeconds receipt.observationTs
    let finalizedAt ← dateFromSeconds receipt.finalizedAt
    .ok (some {
      outcome
      observationValue := toString receipt.observationValue
      observationExponent := receipt.observationExponent
      observationAt
      observationSlot := toString receipt.observationSlot
      confidence := toString receipt.confidence
      sampleCount := receipt.sampleCount
      sourceAccount := host.toBase58 receipt.sourceAccount
      evidenceHash := hex receipt.evidenceHash.toList
      finalizedAt })

/-- The entry of a market whose names are known. -/
def buildNamedMarket (host : Host) (address : Pubkey) (account : HybridMarket)
    (support : HybridSupportAccounts) (traderCount : Nat) (questionCandidate : Option (List Char))
    (tradingState : TradingState) (category outcome : String) (oracle : OracleConfig)
    (resolver : ResolverName) (comparator : String) : Except String MarketEntry := do
  let metadata := (decodeAccount AccountData.hybridMarketMetadata? support.metadata).bind
    fun decoded => verifiedMetadata host decoded account address
  let probability ← lmsrYesProbability ⟨account.yesQuantity, account.noQuantity⟩
    account.liquidityParameter
  let questionHash := hex account.questionHash.toList
  let question := ((metadata.map Hybrid.HybridMarketMetadata.question).or
    (verifiedQuestion host questionCandidate account.questionHash)).elim
      ("Verified market " ++ String.ofList (questionHash.toList.take 8)) String.ofList
  let yes := (probability + 5000) / 10000
  let lockAt ← dateFromSeconds account.lockTs
  let openAt ← dateFromSeconds account.openTs
  let resolveNotBefore ← dateFromSeconds account.resolveNotBeforeTs
  let resolutionDeadline ← dateFromSeconds account.resolutionDeadlineTs
  let oracleDetails ← buildOracleDetails host oracle comparator
  let receipt ← buildReceiptDetails host (receiptOf support address)
  .ok {
    id := host.toBase58 address
    address := host.toBase58 address
    marketId := toString account.marketId
    fixtureId := 0
    category
    resolver := resolver.label
    competition := category ++ " continuous market"
    question
    shortQuestion := question
    home := category
    homeCode := categoryCode category
    away := resolver.label
    awayCode := String.ofList ((resolver.label.toList.take 3).map Char.toUpper)
    kickoff := "Resolves " ++ localeString host true resolveNotBefore
    lockAt
    status := statusFrom host tradingState openAt
    tradingState := effectiveTradingState host tradingState lockAt
    score := none
    yes
    volume := tokenNumber host account.volume
    liquidity := tokenNumber host (vaultBalance support.vault)
    traders := traderCount
    privateStakeAmount := none
    replay := false
    points := if yes = 50 then [50, 50] else [50, yes]
    hybrid := some {
      creator := host.toBase58 account.creator
      liquidityOwner := host.toBase58 account.liquidityOwner
      treasuryOwner := host.toBase58 account.treasuryOwner
      collateralMint := host.toBase58 account.collateralMint
      oracleConfig := host.toBase58 account.oracleConfig
      resolverId := resolver.resolverId
      metadataPublished := metadata.isSome
      rules := metadata.map Hybrid.HybridMarketMetadata.rules
      yesLabel := (metadata.map Hybrid.HybridMarketMetadata.yesLabel).getD "YES".toList
      noLabel := (metadata.map Hybrid.HybridMarketMetadata.noLabel).getD "NO".toList
      referenceUrl := (metadata.map Hybrid.HybridMarketMetadata.referenceUrl).filter (· ≠ [])
      questionHash
      rulesHash := hex account.rulesHash.toList
      liquidityParameter := toString account.liquidityParameter
      yesQuantity := toString account.yesQuantity
      noQuantity := toString account.noQuantity
      maxTradeShares := toString account.maxTradeShares
      tradeFeeBps := account.tradeFeeBps
      treasuryFeeShareBps := account.treasuryFeeShareBps
      openAt
      resolveNotBefore
      resolutionDeadline
      settlementEvidenceHash := hex account.settlementEvidenceHash.toList
      outcome
      oracle := oracleDetails
      receipt } }

/-- The names and the oracle account of a market; a market without them has no entry. -/
def namesOf (address : Pubkey) (account : HybridMarket) (support : HybridSupportAccounts) :
    Option (TradingState × String × String × OracleConfig × ResolverName × String) := do
  let tradingState ← hybridPhase (HybridPhase.key account.phase)
  let category ← categoryName (MarketCategory.key account.category)
  let outcome ← outcomeName account.outcome
  let oracle ← oracleOf support address
  let resolver ← resolverName (OracleResolver.key oracle.resolver)
  let comparator ← comparatorName (ValueComparator.key oracle.comparator)
  some (tradingState, category, outcome, oracle, resolver, comparator)

def buildHybridMarket (host : Host) (address : Pubkey) (account : HybridMarket)
    (support : HybridSupportAccounts) (traderCount : Nat)
    (questionCandidate : Option (List Char)) : Except String (Option MarketEntry) :=
  match namesOf address account support with
  | none => .ok none
  | some (tradingState, category, outcome, oracle, resolver, comparator) => do
    let entry ← buildNamedMarket host address account support traderCount questionCandidate
      tradingState category outcome oracle resolver comparator
    .ok (some entry)

/-! ## The listing -/

/-- The accounts that the program owns. -/
def Ledger.programRows (ledger : Ledger) : List (Pubkey × ChainAccount) :=
  ledger.accounts.filter fun row => row.2.owner = crateId

def decodedPrivate (rows : List (Pubkey × ChainAccount)) : List (Pubkey × Market) :=
  rows.filterMap fun row =>
    match row.2.data with
    | .market account => some (row.1, account)
    | _ => none

def decodedHybrid (rows : List (Pubkey × ChainAccount)) : List (Pubkey × HybridMarket) :=
  rows.filterMap fun row =>
    match row.2.data with
    | .hybridMarket account => some (row.1, account)
    | _ => none

def decodedPositions (rows : List (Pubkey × ChainAccount)) : List Position :=
  rows.filterMap fun row =>
    match row.2.data with
    | .position account => some account
    | _ => none

/-- The map the listing looks accounts up in: the accounts of the program, and then the vaults. -/
def accountMap (host : Host) (ledger : Ledger) : List (Pubkey × Option ChainAccount) :=
  let vaults := (decodedHybrid ledger.programRows).map fun row =>
    hybridVaultPda host.runtime row.1
  (ledger.programRows.map fun row => (row.1, some row.2)) ++
    vaults.map fun vault => (vault, ledger.get vault)

/-- `accountMap.get(address) ?? null`. -/
def mapGet (entries : List (Pubkey × Option ChainAccount)) (address : Pubkey) :
    Option ChainAccount :=
  (Keyed.findLast Prod.fst entries address).bind Prod.snd

def supportFromMap (host : Host) (entries : List (Pubkey × Option ChainAccount))
    (address oracle : Pubkey) : HybridSupportAccounts where
  oracle := mapGet entries oracle
  metadata := mapGet entries (hybridMetadataPda host.runtime address)
  receipt := mapGet entries (resolutionReceiptPda host.runtime address)
  vault := mapGet entries (hybridVaultPda host.runtime address)

/-- The number of owners of positions in a market. -/
def traderCount (positions : List Position) (address : Pubkey) : Nat :=
  ((positions.filter fun position => position.market = address).map Position.owner).dedup.length

def phaseRank : TradingState → Nat
  | .open => 0
  | .locked => 1
  | .resolving => 2
  | .disputed => 3
  | .batched => 4
  | .refunding => 5
  | .resolved => 6
  | .closed => 7

/-- Whether the sort leaves `left` before `right`. -/
def precedes (left right : MarketEntry) : Bool :=
  phaseRank left.tradingState < phaseRank right.tradingState ||
    (phaseRank left.tradingState = phaseRank right.tradingState && right.volume ≤ left.volume)

def getOnchainMarkets (host : Host) (ledger : Ledger) : Except String (List MarketEntry) := do
  let entries := accountMap host ledger
  let positions := decodedPositions ledger.programRows
  let publicMarkets ← (decodedHybrid ledger.programRows).mapM fun row =>
    buildHybridMarket host row.1 row.2 (supportFromMap host entries row.1 row.2.oracleConfig)
      (traderCount positions row.1) none
  let privateMarkets ← (decodedPrivate ledger.programRows).mapM fun row =>
    buildPrivateMarket host (host.toBase58 row.1) row.2
  .ok ((publicMarkets.reduceOption ++ privateMarkets.reduceOption).mergeSort precedes)

end Nortia.Web
