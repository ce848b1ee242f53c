import Nortia.Program.Stork

/-!
# `switchboard.rs`: the Switchboard resolver

The account wraps a length-prefixed payload, which the Switchboard SDK parses
(`Runtime.parseQuotePayload`). An index out of range stops the program.
-/

namespace Nortia.Switchboard

open Lib Oracles Stork

def switchboardQuoteDiscriminator : List UInt8 := asciiBytes "SBOracle".toList
def switchboardTailDiscriminator : List UInt8 := asciiBytes "SBOD".toList
def switchboardValueExponent : Int := -18

/-- One turn of the loop over the oracle indices. -/
def checkOracle (quote : ParsedEd25519Instruction) (index : Nat) : Except Failure Unit := do
  let oracleIndex ← okOr quote.oracleIdxs[index]? .panicked
  check (oracleIndex ∉ quote.oracleIdxs.take index) .invalidSwitchboardQuote
  let signature ← okOr quote.signatures[index]? .panicked
  check (signature.pubkey ≠ zeroBytes ∧ signature.signature ≠ Bytes.fill 64 0 ∧
    ∀ earlier ∈ quote.signatures.take index, earlier.pubkey ≠ signature.pubkey)
    .invalidSwitchboardQuote

def checkOracles (quote : ParsedEd25519Instruction) : List Nat → Except Failure Unit
  | [] => .ok ()
  | index :: rest => do
    checkOracle quote index
    checkOracles quote rest

def validateSwitchboardQuote (quote : ParsedEd25519Instruction) (oracle : OracleConfig)
    (clock : Clock) : Except Failure NormalizedObservation := do
  check (quote.padding = 0 ∧ 0 < quote.version ∧
    quote.discriminator = switchboardTailDiscriminator ∧ quote.signedSlothash ≠ zeroBytes ∧
    quote.feeds.length = 1 ∧ quote.signatures.length = quote.numSignatures ∧
    quote.oracleIdxs.length = quote.signatures.length ∧
    oracle.minSamples ≤ quote.signatures.length) .invalidSwitchboardQuote
  let first ← okOr quote.signatures[0]? .panicked
  check (first.messageDataSize = 32 + 49) .invalidSwitchboardQuote
  checkOracles quote (List.range quote.oracleIdxs.length)
  let feed ← okOr quote.feeds[0]? .panicked
  check (feed.feedId = oracle.sourceId ∧ oracle.minSamples ≤ feed.minOracleSamples)
    .invalidSwitchboardQuote
  check (quote.slot ≤ clock.slot ∧ clock.slot - quote.slot ≤ oracle.maxStalenessSlots)
    .invalidObservationTime
  let windowEnd ← orFail
    (checkedAddInt i64Min i64Max oracle.observationTs oracle.observationWindowSecs)
    .arithmeticOverflow
  check (oracle.observationTs ≤ clock.unixTimestamp ∧ clock.unixTimestamp ≤ windowEnd)
    .invalidObservationTime
  let answer ← compareValues feed.feedValue switchboardValueExponent oracle.threshold
    oracle.thresholdExponent oracle.comparator
  .ok {
    outcome := answer.toNat
    value := feed.feedValue
    exponent := switchboardValueExponent
    timestamp := clock.unixTimestamp
    slot := quote.slot
    confidence := 0
    sampleCount := quote.numSignatures }

/-- The quote of a parsed payload: authority payloads are refused. -/
def oracleQuote : ParsedQuotePayload → Except Failure ParsedEd25519Instruction
  | .oracle quote => .ok quote
  | .authority => .error (.nortia .invalidSwitchboardQuote)

def validateSwitchboardAccount (rt : Runtime) (quoteAccount : AccountInfo)
    (oracle : OracleConfig) (clock : Clock) : Except Failure NormalizedObservation := do
  check (oracle.resolver = .switchboardQuote ∧ oracle.sourceProgram = switchboardQuoteProgramId ∧
    oracle.sourceQueue = switchboardDevnetQueue) .invalidOracleConfiguration
  check (quoteAccount.owner = oracle.sourceProgram) .invalidSwitchboardQuote
  check (quoteAccount.key = rt.findProgramAddress
    [oracle.sourceQueue.toList, oracle.sourceId.toList] oracle.sourceProgram)
    .invalidSwitchboardQuote
  check (42 ≤ quoteAccount.data.length ∧
    slice quoteAccount.data 0 8 = switchboardQuoteDiscriminator) .invalidSwitchboardQuote
  check (slice quoteAccount.data 8 40 = oracle.sourceQueue.toList) .invalidSwitchboardQuote
  let payloadLen := ofLeBytes (slice quoteAccount.data 40 42)
  let payloadEnd ← orFail (checkedAdd u64Max 42 payloadLen) .arithmeticOverflow
  check (0 < payloadLen ∧ payloadEnd ≤ quoteAccount.data.length) .invalidSwitchboardQuote
  let parsed ← orFail (rt.parseQuotePayload (slice quoteAccount.data 42 payloadEnd))
    .invalidSwitchboardQuote
  let quote ← oracleQuote parsed
  validateSwitchboardQuote quote oracle clock

end Nortia.Switchboard
