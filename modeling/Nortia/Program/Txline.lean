import Nortia.Program.Market
import Nortia.Program.Stork

/-!
# `txline.rs`: the TxLINE resolver

The validation itself is a call into TxLINE's program. Its answer is a parameter
(`TxlineProgram`): nothing when the call fails, else the return data the runtime hands back.
-/

namespace Nortia.Txline

open Lib Oracles

structure ProofNode where
  hash : Bytes32
  isRightSibling : Bool

structure ScoresUpdateStats where
  updateCount : Int
  minTimestamp : Int
  maxTimestamp : Int

structure ScoresBatchSummary where
  fixtureId : Int
  updateStats : ScoresUpdateStats
  eventsSubTreeRoot : Bytes32

structure ScoreStat where
  key : Nat
  value : Int
  period : Int

structure StatLeaf where
  stat : ScoreStat
  statProof : List ProofNode

structure StatValidationInput where
  ts : Int
  fixtureSummary : ScoresBatchSummary
  fixtureProof : List ProofNode
  mainTreeProof : List ProofNode
  eventStatRoot : Bytes32
  stats : List StatLeaf

inductive Comparison
  | greaterThan
  | lessThan
  | equalTo
  deriving DecidableEq

structure TraderPredicate where
  threshold : Int
  comparison : Comparison

inductive BinaryExpression
  | add
  | subtract

inductive StatPredicate
  | single (index : Nat) (predicate : TraderPredicate)
  | binary (indexA indexB : Nat) (op : BinaryExpression) (predicate : TraderPredicate)

structure GeometricTarget where
  statIndex : Nat
  prediction : Int

structure NDimensionalStrategy where
  geometricTargets : List GeometricTarget
  distancePredicate : Option TraderPredicate
  discretePredicates : List StatPredicate

/-! ## Borsh -/

namespace Borsh

def vec {α : Type} (f : α → List UInt8) (l : List α) : List UInt8 :=
  leBytes 4 l.length ++ l.flatMap f

def proofNode (node : ProofNode) : List UInt8 :=
  node.hash.toList ++ leBytes 1 node.isRightSibling.toNat

def statLeaf (leaf : StatLeaf) : List UInt8 :=
  leBytes 4 leaf.stat.key ++ leBytesInt 4 leaf.stat.value ++ leBytesInt 4 leaf.stat.period ++
    vec proofNode leaf.statProof

def scoresBatchSummary (summary : ScoresBatchSummary) : List UInt8 :=
  leBytesInt 8 summary.fixtureId ++ leBytesInt 4 summary.updateStats.updateCount ++
    leBytesInt 8 summary.updateStats.minTimestamp ++
    leBytesInt 8 summary.updateStats.maxTimestamp ++ summary.eventsSubTreeRoot.toList

def statValidationInput (payload : StatValidationInput) : List UInt8 :=
  leBytesInt 8 payload.ts ++ scoresBatchSummary payload.fixtureSummary ++
    vec proofNode payload.fixtureProof ++ vec proofNode payload.mainTreeProof ++
    payload.eventStatRoot.toList ++ vec statLeaf payload.stats

end Borsh

/-! ## Validation -/

/-- What the call into TxLINE answers: the returning program and its data. -/
abbrev TxlineProgram : Type :=
  StatValidationInput → NDimensionalStrategy → Option (Option (Pubkey × List UInt8))

def fixtureIdFromSourceId (sourceId : Bytes32) : Except Failure Int := do
  check ((sourceId.toList.drop 8).all (· = 0) = true) .invalidOracleConfiguration
  let fixtureId := ofLeBytesInt (sourceId.toList.take 8)
  check (0 < fixtureId) .invalidOracleConfiguration
  .ok fixtureId

def dailyScoresRoot (rt : Runtime) (timestampMs : Int) : Except Failure Pubkey := do
  let epochDay := timestampMs / millisPerDay
  check (0 ≤ epochDay ∧ epochDay ≤ u16Max) .invalidTxlineRoot
  .ok (rt.findProgramAddress [dailyScoresRootSeed, leBytes 2 epochDay.toNat] txlineProgramId)

def strategyPredicate (threshold : Int) (comparator : ValueComparator) :
    Except Failure TraderPredicate :=
  match comparator with
  | .greaterThan => .ok { threshold, comparison := .greaterThan }
  | .greaterThanOrEqual => do
    let threshold ← orFail (checkedSubInt i32Min i32Max threshold 1) .invalidOracleConfiguration
    .ok { threshold, comparison := .greaterThan }
  | .lessThan => .ok { threshold, comparison := .lessThan }
  | .lessThanOrEqual => do
    let threshold ← orFail (checkedAddInt i32Min i32Max threshold 1) .invalidOracleConfiguration
    .ok { threshold, comparison := .lessThan }
  | .equal => .ok { threshold, comparison := .equalTo }

def totalGoalsStrategy (threshold : Int) (comparator : ValueComparator) :
    Except Failure NDimensionalStrategy := do
  let predicate ← strategyPredicate threshold comparator
  .ok {
    geometricTargets := []
    distancePredicate := none
    discretePredicates := [.binary 0 1 .add predicate] }

def readReturnData : List UInt8 → Except Failure Bool
  | [0] => .ok false
  | [1] => .ok true
  | _ => .error (.nortia .invalidTxlineReturn)

def invokeStatValidation (txline : TxlineProgram) (payload : StatValidationInput)
    (strategy : NDimensionalStrategy) : Except Failure Bool := do
  let reply ← okOr (txline payload strategy) .invokedProgram
  let returned ← orFail reply .invalidTxlineReturn
  check (returned.1 = txlineProgramId) .invalidTxlineReturn
  readReturnData returned.2

def validateHybridPayload (rt : Runtime) (oracle : OracleConfig) (payload : StatValidationInput)
    (dailyRoot : Pubkey) (now : Int) : Except Failure Unit := do
  let fixtureId ← fixtureIdFromSourceId oracle.sourceId
  check (payload.fixtureSummary.fixtureId = fixtureId) .invalidScorePayload
  check (payload.stats.length = 2) .invalidScorePayload
  let stats := payload.fixtureSummary.updateStats
  check (0 < stats.updateCount ∧ stats.minTimestamp ≤ stats.maxTimestamp ∧
    payload.ts = stats.minTimestamp) .invalidScorePayload
  let leafA ← okOr payload.stats[0]? .panicked
  let leafB ← okOr payload.stats[1]? .panicked
  check (leafA.stat.key = participantOneGoalsKey ∧ leafB.stat.key = participantTwoGoalsKey ∧
    leafA.stat.period = finalPeriod ∧ leafB.stat.period = finalPeriod ∧ 0 ≤ leafA.stat.value ∧
    0 ≤ leafB.stat.value) .invalidScorePayload
  let proofTs := stats.maxTimestamp / 1000
  let windowEnd ← orFail
    (checkedAddInt i64Min i64Max oracle.observationTs oracle.observationWindowSecs)
    .arithmeticOverflow
  let reportLag ← orFail (checkedSubInt i64Min i64Max proofTs oracle.observationTs)
    .invalidObservationTime
  check (oracle.observationTs ≤ proofTs ∧ proofTs ≤ windowEnd ∧ proofTs ≤ now ∧
    reportLag ≤ oracle.maxStalenessSecs) .invalidObservationTime
  let expectedRoot ← dailyScoresRoot rt payload.ts
  check (dailyRoot = expectedRoot) .invalidTxlineRoot

def resolveHybridTotalGoals (rt : Runtime) (market : HybridMarket) (oracle : OracleConfig)
    (payload : StatValidationInput) (dailyRoot txlineProgram : AccountInfo)
    (txline : TxlineProgram) (now : Int) : Except Failure NormalizedObservation := do
  check (market.category = .sports ∧ oracle.resolver = .txlineStat ∧
    oracle.sourceProgram = txlineProgramId) .invalidOracleConfiguration
  check (txlineProgram.key = txlineProgramId) .invalidTxlineProgram
  check (txlineProgram.executable = true) .invalidTxlineProgram
  check (dailyRoot.owner = txlineProgramId) .invalidTxlineRoot
  validateHybridPayload rt oracle payload dailyRoot.key now
  check (i32Min ≤ oracle.threshold ∧ oracle.threshold ≤ i32Max) .invalidOracleConfiguration
  let strategy ← totalGoalsStrategy oracle.threshold oracle.comparator
  let oracleOutcome ← invokeStatValidation txline payload strategy
  let leafA ← okOr payload.stats[0]? .panicked
  let leafB ← okOr payload.stats[1]? .panicked
  let total ← orFail (checkedAddInt i128Min i128Max leafA.stat.value leafB.stat.value)
    .arithmeticOverflow
  let expectedOutcome ← compareValues total 0 oracle.threshold 0 oracle.comparator
  check (oracleOutcome = expectedOutcome) .invalidTxlineReturn
  .ok {
    outcome := oracleOutcome.toNat
    value := total
    exponent := 0
    timestamp := payload.fixtureSummary.updateStats.maxTimestamp / 1000
    slot := 0
    confidence := 0
    sampleCount := 0 }

/-! ## Private markets -/

def validatePayload (rt : Runtime) (market : Market) (payload : StatValidationInput)
    (dailyRoot : Pubkey) : Except Failure Unit := do
  check (payload.fixtureSummary.fixtureId = market.fixtureId) .invalidScorePayload
  check (payload.stats.length = 2) .invalidScorePayload
  let stats := payload.fixtureSummary.updateStats
  check (0 < stats.updateCount ∧ stats.minTimestamp ≤ stats.maxTimestamp ∧
    payload.ts = stats.minTimestamp) .invalidScorePayload
  let leafA ← okOr payload.stats[0]? .panicked
  let leafB ← okOr payload.stats[1]? .panicked
  check (leafA.stat.key = market.scoreKeyA ∧ leafB.stat.key = market.scoreKeyB ∧
    leafA.stat.period = finalPeriod ∧ leafB.stat.period = finalPeriod ∧ 0 ≤ leafA.stat.value ∧
    0 ≤ leafB.stat.value) .invalidScorePayload
  let expectedRoot ← dailyScoresRoot rt payload.ts
  check (dailyRoot = expectedRoot) .invalidTxlineRoot

def totalGoalsOverStrategy (threshold : Int) : Except Failure NDimensionalStrategy :=
  totalGoalsStrategy threshold .greaterThan

def resolveTotalGoalsOver (rt : Runtime) (market : Market) (payload : StatValidationInput)
    (dailyRoot txlineProgram : AccountInfo) (txline : TxlineProgram) : Except Failure Bool := do
  check (market.txlineProgram = txlineProgramId) .invalidTxlineProgram
  check (txlineProgram.key = txlineProgramId) .invalidTxlineProgram
  check (txlineProgram.executable = true) .invalidTxlineProgram
  check (dailyRoot.owner = txlineProgramId) .invalidTxlineRoot
  validatePayload rt market payload dailyRoot.key
  let strategy ← totalGoalsOverStrategy market.totalGoalsThreshold
  invokeStatValidation txline payload strategy

end Nortia.Txline
