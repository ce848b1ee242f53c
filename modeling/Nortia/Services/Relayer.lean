import Nortia.Lib.Run
import Mathlib.Data.List.Count
import Mathlib.Data.List.Basic

/-!
# The queue of `services/src/relayer/server.ts`

Handlers interleave wherever they await. A handler reads its body between the check of the counter
and the increment; its job then waits for the job before it on the chain of promises, relays, and
is finished by its `finally`. What a body or a relayed transaction holds is left to the step.
-/

namespace Nortia.Services

def maxPendingRedemptions : Int := 8

/-- A job on the chain, with whether its transaction went through. -/
inductive Job
  | chained
  | relaying
  /-- The transaction is answered and the `finally` has not run. -/
  | settled (relayed : Bool)
  | finished (relayed : Bool)
  deriving DecidableEq, Repr

def Job.isFinished : Job → Bool
  | .finished _ => true
  | _ => false

/-- Where a request's handler stands. -/
inductive Handler
  /-- Past the check of the counter, in `await requestJson`. -/
  | reading
  /-- In `await work`. -/
  | awaiting (job : Nat)
  | responded (status : Nat)
  deriving DecidableEq, Repr

def Handler.isReading : Handler → Bool
  | .reading => true
  | _ => false

structure Relayer where
  pendingRedemptions : Int
  handlers : List Handler
  jobs : List Job
  deriving DecidableEq, Repr

namespace Relayer

def init : Relayer := ⟨0, [], []⟩

/-- The job before one on the chain is finished; the first follows `Promise.resolve()`. -/
def isNext (jobs : List Job) : Nat → Bool
  | 0 => true
  | job + 1 => (jobs[job]?).any Job.isFinished

/-- What happens between two awaits. -/
inductive Action
  /-- A request for another route, or without the token. -/
  | refuse (status : Nat)
  | redeem
  /-- The body of a handler arrives, or fails to parse or to validate. -/
  | body (handler : Nat) (valid : Bool)
  | relay (job : Nat)
  | settle (job : Nat) (relayed : Bool)
  /-- The `finally` of a job. -/
  | finish (job : Nat)
  | respond (handler : Nat)
  deriving DecidableEq, Repr

def step (s : Relayer) : Action → Option Relayer
  | .refuse status => some { s with handlers := s.handlers ++ [.responded status] }
  | .redeem =>
    if maxPendingRedemptions ≤ s.pendingRedemptions then
      some { s with handlers := s.handlers ++ [.responded 429] }
    else some { s with handlers := s.handlers ++ [.reading] }
  | .body handler valid =>
    match s.handlers[handler]? with
    | some .reading =>
      if valid then some {
        pendingRedemptions := s.pendingRedemptions + 1
        handlers := s.handlers.set handler (.awaiting s.jobs.length)
        jobs := s.jobs ++ [.chained] }
      else some { s with handlers := s.handlers.set handler (.responded 400) }
    | _ => none
  | .relay job =>
    match s.jobs[job]? with
    | some .chained =>
      if isNext s.jobs job then some { s with jobs := s.jobs.set job .relaying } else none
    | _ => none
  | .settle job relayed =>
    match s.jobs[job]? with
    | some .relaying => some { s with jobs := s.jobs.set job (.settled relayed) }
    | _ => none
  | .finish job =>
    match s.jobs[job]? with
    | some (.settled relayed) => some { s with
        pendingRedemptions := s.pendingRedemptions - 1
        jobs := s.jobs.set job (.finished relayed) }
    | _ => none
  | .respond handler =>
    match s.handlers[handler]? with
    | some (.awaiting job) =>
      match s.jobs[job]? with
      | some (.finished relayed) => some { s with
          handlers := s.handlers.set handler (.responded (if relayed then 200 else 400)) }
      | _ => none
    | _ => none

def Step (s : Relayer) (a : Action) (s' : Relayer) : Prop := step s a = some s'

/-- The accepted jobs that have not finished. -/
def unfinished (s : Relayer) : Nat := s.jobs.countP fun job => !job.isFinished

end Relayer

end Nortia.Services
