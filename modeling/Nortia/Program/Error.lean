import Nortia.Lib.Result

/-!
# `error.rs`: how an instruction fails

An instruction fails with an error of the program, or because the runtime, Anchor or the token
program stops it.
-/

namespace Nortia

open Lib

inductive NortiaError
  | invalidProtocolConfiguration
  | unauthorizedProtocolAuthority
  | invalidMarketConfiguration
  | invalidPhase
  | marketLocked
  | tooEarly
  | deadlineElapsed
  | committeeQuorumNotMet
  | duplicateCommitteeSigner
  | batchCountMismatch
  | invalidPrivateAmount
  | batchAmountMismatch
  | noOrders
  | insufficientPrivacySet
  | oneSidedPrivateBatch
  | zeroCommitment
  | invalidWitnessLength
  | publicWitnessMismatch
  | invalidProofLength
  | invalidVerifierProgram
  | marketVerifierRotationLocked
  | poseidonHashFailed
  | arithmeticOverflow
  | noWinners
  | alreadyRefunded
  | invalidOrder
  | invalidCollateralMint
  | invalidTokenAccount
  | invalidProtocolFee
  | invalidTreasury
  | insufficientVaultBalance
  | invalidTxlineProgram
  | invalidTxlineRoot
  | invalidScorePayload
  | invalidTxlineReturn
  | invalidEngineConfiguration
  | invalidLmsrState
  | priceGuardExceeded
  | tradeDeadlineElapsed
  | invalidPosition
  | insufficientPosition
  | insolventMarket
  | invalidOracleConfiguration
  | resolverNotEnabled
  | invalidObservationTime
  | resolutionReplay
  | invalidOutcome
  | positionAlreadySettled
  | marketNotReadyForResolution
  | invalidSwitchboardQuote
  | invalidStorkFeed
  | invalidAssertion
  | challengeWindowClosed
  | invalidDisputeDecision
  | resolverSecurityCapExceeded
  | noOptimisticBondPayout
  | invalidMarketMetadata
  | allPrivatePositionsSettled
  deriving DecidableEq, Repr

inductive Failure
  | nortia (error : NortiaError)
  /-- An account the instruction creates exists already. -/
  | accountInUse
  | accountNotInitialized
  /-- Two mutable accounts at one address, which Anchor refuses unless they are marked `dup`. -/
  | duplicateMutableAccount
  /-- A transfer of more than the source holds. -/
  | insufficientFunds
  /-- A transfer that overflows the balance of its destination. -/
  | tokenOverflow
  /-- A cross-program call that failed. -/
  | invokedProgram
  /-- An index out of range, which stops the program. -/
  | panicked
  deriving DecidableEq, Repr

/-- `require!`. -/
def check (c : Prop) [Decidable c] (error : NortiaError) : Except Failure Unit :=
  require c (.nortia error)

/-- `ok_or_else`. -/
def orFail {α : Type} (o : Option α) (error : NortiaError) : Except Failure α :=
  okOr o (.nortia error)

@[simp] theorem check_eq_ok {c : Prop} [Decidable c] {e : NortiaError} {u : Unit} :
    check c e = .ok u ↔ c := require_eq_ok

@[simp] theorem check_eq_error {c : Prop} [Decidable c] {e : NortiaError} {f : Failure} :
    check c e = .error f ↔ ¬c ∧ .nortia e = f := require_eq_error

theorem check_pos {c : Prop} [Decidable c] (h : c) (e : NortiaError) : check c e = .ok () :=
  require_pos h _

@[simp] theorem orFail_eq_ok {α : Type} {o : Option α} {e : NortiaError} {a : α} :
    orFail o e = .ok a ↔ o = some a := okOr_eq_ok

@[simp] theorem orFail_eq_error {α : Type} {o : Option α} {e : NortiaError} {f : Failure} :
    orFail o e = .error f ↔ o = none ∧ .nortia e = f := okOr_eq_error

@[simp] theorem failsIn_check {P : Failure → Prop} {c : Prop} [Decidable c] {e : NortiaError} :
    FailsIn P (check c e) ↔ (¬c → P (.nortia e)) := failsIn_require

@[simp] theorem failsIn_orFail {P : Failure → Prop} {α : Type} {o : Option α} {e : NortiaError} :
    FailsIn P (orFail o e) ↔ (o = none → P (.nortia e)) := failsIn_okOr

end Nortia
