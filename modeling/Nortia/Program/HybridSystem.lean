import Nortia.Lib.Run
import Nortia.Program.HybridInstructions

/-!
# The hybrid market as a transition system

A step is a successful instruction at some clock value, a deposit anyone makes into a vault, or
any change other programs make to the users' token accounts. Clock values are not assumed to
grow, so what holds of every run here holds of those whose clock does.
-/

namespace Nortia.Hybrid

open Lib

inductive Instruction
  | initializePosition (owner : Pubkey)
  | buyHybridShares (accounts : TradeAccounts) (args : TradeSharesArgs)
  | sellHybridShares (accounts : TradeAccounts) (args : TradeSharesArgs)
  | lockHybridMarket
  | resolveHybridWithPyth (priceUpdate : AccountInfo)
  | resolveHybridWithStork (feedAccount : AccountInfo)
  | resolveHybridWithTxline (accounts : TxlineAccounts)
  | resolveHybridWithSwitchboard (quoteAccount : AccountInfo)
  | proposeOptimisticResolution (proposer proposerToken : Pubkey) (args : ProposeOptimisticArgs)
  | challengeOptimisticResolution (challenger challengerToken : Pubkey)
      (args : ChallengeOptimisticArgs)
  | finalizeOptimisticResolution
  | arbitrateOptimisticResolution (protocol : ProtocolConfig)
      (remainingAccounts : List AccountInfo) (args : ArbitrateOptimisticArgs)
  | timeoutOptimisticDispute
  | claimOptimisticBond (claimant destination : Pubkey)
  | resolveHybridTimeout
  | settleHybridPosition (owner ownerToken : Pubkey)
  | withdrawHybridLiquidity (liquidityOwner liquidityToken : Pubkey)

/-- Runs one instruction. -/
def execute (rt : Runtime) (s : HybridState) (clock : Clock) :
    Instruction → Except Failure HybridState
  | .initializePosition owner => initializePosition rt s owner
  | .buyHybridShares accounts args => buyHybridShares s accounts args clock.unixTimestamp
  | .sellHybridShares accounts args => sellHybridShares s accounts args clock.unixTimestamp
  | .lockHybridMarket => lockHybridMarket s clock.unixTimestamp
  | .resolveHybridWithPyth priceUpdate => resolveHybridWithPyth rt s priceUpdate clock
  | .resolveHybridWithStork feedAccount => resolveHybridWithStork rt s feedAccount clock
  | .resolveHybridWithTxline accounts => resolveHybridWithTxline rt s accounts clock
  | .resolveHybridWithSwitchboard quoteAccount =>
    resolveHybridWithSwitchboard rt s quoteAccount clock
  | .proposeOptimisticResolution proposer proposerToken args =>
    proposeOptimisticResolution rt s proposer proposerToken args clock.unixTimestamp
  | .challengeOptimisticResolution challenger challengerToken args =>
    challengeOptimisticResolution rt s challenger challengerToken args clock.unixTimestamp
  | .finalizeOptimisticResolution => finalizeOptimisticResolution rt s clock.unixTimestamp
  | .arbitrateOptimisticResolution protocol remainingAccounts args =>
    arbitrateOptimisticResolution rt s protocol remainingAccounts args clock.unixTimestamp
  | .timeoutOptimisticDispute => timeoutOptimisticDispute rt s clock.unixTimestamp
  | .claimOptimisticBond claimant destination => claimOptimisticBond s claimant destination
  | .resolveHybridTimeout => resolveHybridTimeout rt s clock.unixTimestamp
  | .settleHybridPosition owner ownerToken => settleHybridPosition s owner ownerToken
  | .withdrawHybridLiquidity liquidityOwner liquidityToken =>
    withdrawHybridLiquidity s liquidityOwner liquidityToken

/-- The challenger signs, so its key is not the all-zero one. -/
def Instruction.signed : Instruction → Prop
  | .challengeOptimisticResolution challenger _ _ => challenger ≠ Pubkey.default
  | _ => True

inductive Event
  | call (instruction : Instruction) (clock : Clock)
  | donate (amount : Nat)
  | donateBond (amount : Nat)
  | external (tokens : Tokens)

inductive Step (rt : Runtime) : HybridState → Event → HybridState → Prop
  | call {s s' : HybridState} {instruction : Instruction} {clock : Clock} :
    instruction.signed → execute rt s clock instruction = .ok s' →
      Step rt s (.call instruction clock) s'
  | donate {s : HybridState} {amount : Nat} : s.vault + amount ≤ u64Max →
      Step rt s (.donate amount) { s with vault := s.vault + amount }
  | donateBond {s : HybridState} {amount : Nat} : s.proposal.isSome = true →
    s.bondVault + amount ≤ u64Max →
      Step rt s (.donateBond amount) { s with bondVault := s.bondVault + amount }
  | external {s : HybridState} {tokens : Tokens} :
      Step rt s (.external tokens) { s with tokens }

/-- `s` is a hybrid market that `initialize_hybrid_market` just created from `args` at `now`. -/
def Created (rt : Runtime) (args : InitializeHybridMarketArgs) (now : Int) (s : HybridState) :
    Prop :=
  ∃ engine tokens creator creatorToken,
    initializeHybridMarket rt engine tokens creator creatorToken args now = .ok s

/-- The states of a market some run of which leads from its creation to them. -/
def Reachable (rt : Runtime) (s : HybridState) : Prop :=
  ∃ args now init, Created rt args now init ∧ Reaches (Step rt) init s

/-! ## Running a list of calls -/

/-- Runs instructions one after another, each at its clock. -/
def executeAll (rt : Runtime) (s : HybridState) :
    List (Instruction × Clock) → Except Failure HybridState
  | [] => .ok s
  | call :: rest => do
    let s ← execute rt s call.2 call.1
    executeAll rt s rest

/-- The events of a list of calls. -/
def calls (list : List (Instruction × Clock)) : List Event := list.map fun c => .call c.1 c.2

theorem executeAll_run {rt : Runtime} {list : List (Instruction × Clock)}
    (hsigned : ∀ call ∈ list, call.1.signed) {s s' : HybridState}
    (h : executeAll rt s list = .ok s') : Run (Step rt) s (calls list) s' := by
  induction list generalizing s with
  | nil =>
    cases h
    exact .nil _
  | cons call rest ih =>
    obtain ⟨t, ht, hrest⟩ := bind_eq_ok.mp h
    have hstep : Step rt s (.call call.1 call.2) t := .call (hsigned call List.mem_cons_self) ht
    exact .cons hstep (ih (fun c hc => hsigned c (List.mem_cons_of_mem _ hc)) hrest)

/-- Reads a run of calls off the value of one quantity at its end. -/
theorem executeAll_of_map {rt : Runtime} {α : Type} {x : Except Failure HybridState}
    {list : List (Instruction × Clock)} {f : HybridState → α} {a : α}
    (h : (x >>= fun init => executeAll rt init list).toOption.map f = some a) :
    ∃ init s, x = .ok init ∧ executeAll rt init list = .ok s ∧ f s = a := by
  rw [Option.map_eq_some_iff] at h
  obtain ⟨s, hs, hf⟩ := h
  obtain ⟨init, hinit, hlist⟩ := bind_eq_ok.mp (toOption_eq_some.mp hs)
  exact ⟨init, s, hinit, hlist, hf⟩

/-! ## Kinds of instructions -/

/-- The instructions that resolve a market. -/
def Instruction.isResolution : Instruction → Bool
  | .resolveHybridWithPyth _ | .resolveHybridWithStork _ | .resolveHybridWithTxline _
  | .resolveHybridWithSwitchboard _ | .finalizeOptimisticResolution
  | .arbitrateOptimisticResolution .. | .timeoutOptimisticDispute | .resolveHybridTimeout => true
  | _ => false

def Instruction.isTrade : Instruction → Bool
  | .buyHybridShares .. | .sellHybridShares .. => true
  | _ => false

def Instruction.isProposal : Instruction → Bool
  | .proposeOptimisticResolution .. => true
  | _ => false

def Event.isCall : Event → Bool
  | .call .. => true
  | _ => false

/-- The clock value of a call. -/
def Event.time? : Event → Option Int
  | .call _ clock => some clock.unixTimestamp
  | _ => none

def Event.isResolution : Event → Bool
  | .call instruction _ => instruction.isResolution
  | _ => false

def Event.isProposal : Event → Bool
  | .call instruction _ => instruction.isProposal
  | _ => false

end Nortia.Hybrid
