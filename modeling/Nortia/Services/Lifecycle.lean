import Nortia.Program.HybridInstructions
import Nortia.Program.PrivateInstructions
import Nortia.Client.Committee

/-!
# `services/src/hybrid-lifecycle.ts` and `services/src/lifecycle.ts`

The planners of the keepers, and the way a keeper reads an account for them. A number is an
integer; what a bignumber cannot turn into one throws.
-/

namespace Nortia.Services

open Lib Client

/-- `BN.toNumber`. -/
def toNumber (value : Int) : Except String Int := do
  require (isSafeInteger value = true) "Number can only safely store up to 53 bits"
  .ok value

/-! ## Hybrid markets -/

structure OptimisticProposalState where
  challengeDeadline : Int
  challenged : Bool
  finalized : Bool

structure HybridKeeperInput where
  phase : HybridPhase
  resolver : OracleResolver
  lockTs : Int
  resolveNotBeforeTs : Int
  resolutionDeadlineTs : Int
  proposal : Option OptimisticProposalState

inductive HybridKeeperAction
  | none
  | lock
  | resolvePyth
  | resolveTxline
  | resolveSwitchboard
  | resolveStork
  | finalizeOptimistic
  | timeoutOptimisticDispute
  | resolveTimeout
  deriving DecidableEq, Repr

/-- `Number.isSafeInteger` of a number that is not negative. -/
def isTimestamp (value : Int) : Bool := isSafeInteger value && 0 ≤ value

/-- The loop of `validateTimestamps`. -/
def checkTimestamps : List (String × Int) → Except String Unit
  | [] => .ok ()
  | (label, value) :: rest => do
    require (isTimestamp value = true) (label ++ " must be a non-negative safe integer")
    checkTimestamps rest

def validateTimestamps (market : HybridKeeperInput) (now : Int) : Except String Unit := do
  checkTimestamps [("lock timestamp", market.lockTs),
    ("resolve timestamp", market.resolveNotBeforeTs),
    ("resolution deadline", market.resolutionDeadlineTs), ("current timestamp", now)]
  require (market.lockTs ≤ market.resolveNotBeforeTs ∧
    market.resolveNotBeforeTs < market.resolutionDeadlineTs)
    "hybrid market timestamps are not ordered"

/-- The action on a market after its deadline. -/
def lateAction (market : HybridKeeperInput) : HybridKeeperAction :=
  match market.resolver, market.proposal with
  | .optimistic, some proposal =>
    if proposal.finalized then .resolveTimeout
    else if proposal.challenged then .timeoutOptimisticDispute else .finalizeOptimistic
  | _, _ => .resolveTimeout

/-- The action on a market that may resolve. -/
def readyAction (market : HybridKeeperInput) (now : Int) : HybridKeeperAction :=
  let machineReady := market.phase = .open ∨ market.phase = .locked
  match market.resolver with
  | .pythPrice => if machineReady then .resolvePyth else .none
  | .txlineStat => if machineReady then .resolveTxline else .none
  | .switchboardQuote => if machineReady then .resolveSwitchboard else .none
  | .storkPrice => if machineReady then .resolveStork else .none
  | .umaWormhole | .chainlinkReport => .none
  | .optimistic =>
    match market.proposal with
    | none => .none
    | some proposal =>
      if proposal.finalized then .none
      else if market.phase = .resolving ∧ proposal.challenged = false ∧
          proposal.challengeDeadline < now then .finalizeOptimistic
      else .none

/-- The action on a market whose timestamps are valid. -/
def plannedAction (market : HybridKeeperInput) (now : Int) : HybridKeeperAction :=
  if market.phase = .resolved ∨ market.phase = .closed then .none
  else if market.resolutionDeadlineTs < now then lateAction market
  else if now < market.lockTs then .none
  else if now < market.resolveNotBeforeTs then
    if market.phase = .open then .lock else .none
  else readyAction market now

def planHybridKeeperAction (market : HybridKeeperInput) (now : Int) :
    Except String HybridKeeperAction := do
  validateTimestamps market now
  .ok (plannedAction market now)

/-- The proposal a keeper fetches: none under the default address. -/
def fetchProposal (s : Hybrid.HybridState) : Except String (Option OptimisticProposal) :=
  if s.oracle.optimisticProposal = Pubkey.default then .ok none
  else do
    let proposal ← okOr s.proposal "Account does not exist or has no data"
    .ok (some proposal)

def proposalState : Option OptimisticProposal → Except String (Option OptimisticProposalState)
  | none => .ok none
  | some proposal => do
    let challengeDeadline ← toNumber proposal.challengeDeadline
    .ok (some {
      challengeDeadline
      challenged := proposal.challenger ≠ Pubkey.default
      finalized := proposal.finalized })

/-- What a pass of the keeper reads of a market (`keeper/hybrid.ts`). -/
def hybridKeeperInput (s : Hybrid.HybridState) : Except String HybridKeeperInput := do
  let proposal ← fetchProposal s
  let lockTs ← toNumber s.market.lockTs
  let resolveNotBeforeTs ← toNumber s.market.resolveNotBeforeTs
  let resolutionDeadlineTs ← toNumber s.market.resolutionDeadlineTs
  let proposal ← proposalState proposal
  .ok {
    phase := s.market.phase
    resolver := s.oracle.resolver
    lockTs
    resolveNotBeforeTs
    resolutionDeadlineTs
    proposal }

/-- The action a pass plans for a market. -/
def hybridKeeperAction (s : Hybrid.HybridState) (now : Int) : Except String HybridKeeperAction := do
  let market ← hybridKeeperInput s
  planHybridKeeperAction market now

/-! ## Private markets -/

structure IndexedMarket where
  phase : MarketPhase
  lockTs : Int
  batchDeadlineTs : Int
  resolutionDeadlineTs : Int

inductive KeeperAction
  | none
  | submitBatch
  | resolve
  | beginRefund
  deriving DecidableEq, Repr

def planKeeperAction (market : IndexedMarket) (now : Int) : KeeperAction :=
  match market.phase with
  | .open =>
    if market.batchDeadlineTs < now then .beginRefund
    else if market.lockTs ≤ now then .submitBatch
    else .none
  | .batched => if market.resolutionDeadlineTs < now then .beginRefund else .resolve
  | _ => .none

/-- The action a pass plans for a private market (`keeper/runner.ts`). -/
def keeperAction (s : PrivatePool.PrivateState) (now : Int) : Except String KeeperAction := do
  let lockTs ← toNumber s.market.lockTs
  let batchDeadlineTs ← toNumber s.market.batchDeadlineTs
  let resolutionDeadlineTs ← toNumber s.market.resolutionDeadlineTs
  .ok (planKeeperAction {
    phase := s.market.phase
    lockTs
    batchDeadlineTs
    resolutionDeadlineTs } now)

end Nortia.Services
