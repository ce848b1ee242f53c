import Nortia.Program.Oracles

/-!
# `stork.rs`: the Stork resolver

A feed account is a prefix of raw bytes: discriminator, feed id, nanosecond timestamp, value.
-/

namespace Nortia.Stork

open Lib Oracles

def storkFeedSeed : List UInt8 := asciiBytes "stork_feed".toList
def storkFeedDiscriminator : List UInt8 := [0x25, 0xa6, 0x41, 0xc4, 0x1d, 0x69, 0x61, 0xa1]
def storkValueExponent : Int := -18
def storkValuePrefixLen : Nat := 64
def nanosPerSecond : Nat := 1000000000

/-- The bytes `[lo, hi)`. -/
def slice (data : List UInt8) (lo hi : Nat) : List UInt8 := (data.drop lo).take (hi - lo)

def validateStorkAccount (rt : Runtime) (feedAccount : AccountInfo) (oracle : OracleConfig)
    (clock : Clock) : Except Failure NormalizedObservation := do
  check (oracle.resolver = .storkPrice ∧ oracle.sourceProgram = storkOracleProgramId ∧
    oracle.sourceQueue = Pubkey.default) .invalidOracleConfiguration
  check (feedAccount.owner = storkOracleProgramId) .invalidStorkFeed
  check (feedAccount.key = rt.findProgramAddress [storkFeedSeed, oracle.sourceId.toList]
    storkOracleProgramId) .invalidStorkFeed
  check (storkValuePrefixLen ≤ feedAccount.data.length ∧
    slice feedAccount.data 0 8 = storkFeedDiscriminator ∧
    slice feedAccount.data 8 40 = oracle.sourceId.toList) .invalidStorkFeed
  let timestampNs := ofLeBytes (slice feedAccount.data 40 48)
  check ((timestampNs / nanosPerSecond : Nat) ≤ i64Max) .invalidObservationTime
  let timestamp : Int := (timestampNs / nanosPerSecond : Nat)
  let value := ofLeBytesInt (slice feedAccount.data 48 64)
  let windowEnd ← orFail
    (checkedAddInt i64Min i64Max oracle.observationTs oracle.observationWindowSecs)
    .arithmeticOverflow
  check (oracle.observationTs ≤ timestamp ∧ timestamp ≤ windowEnd ∧
    timestamp ≤ clock.unixTimestamp ∧
    ∃ lag ∈ checkedSubInt i64Min i64Max timestamp oracle.observationTs,
      lag ≤ oracle.maxStalenessSecs) .invalidObservationTime
  check (0 < value) .invalidStorkFeed
  let answer ← compareValues value storkValueExponent oracle.threshold oracle.thresholdExponent
    oracle.comparator
  .ok {
    outcome := answer.toNat
    value
    exponent := storkValueExponent
    timestamp
    slot := 0
    confidence := 0
    sampleCount := 1 }

end Nortia.Stork
