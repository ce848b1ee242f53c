import Nortia.Lib.Run
import Nortia.Program.PrivateInstructions

/-!
# The private market as a transition system

A step is a successful instruction at some clock value, a deposit anyone makes into the vault, or
any change other programs make to the users' token accounts. Clock values are not assumed to grow.
-/

namespace Nortia.PrivatePool

open Lib

inductive Instruction
  | syncMarketVerifiers (protocol : ProtocolConfig) (authority : Pubkey)
  | placeOrder (accounts : PlaceOrderAccounts) (args : PlaceOrderArgs)
  | submitBatch (remainingAccounts : List AccountInfo) (args : SubmitBatchArgs)
  | resolveMarket (accounts : ResolveAccounts) (finalSeq : Nat)
      (payload : Txline.StatValidationInput)
  | beginRefund
  | refundOrder (payer payerToken : Pubkey) (commitment : Bytes32)
  | redeem (accounts : RedeemAccounts) (args : RedeemArgs)

/-- Runs one instruction. -/
def execute (rt : PrivateRuntime) (s : PrivateState) (now : Int) :
    Instruction → Except Failure PrivateState
  | .syncMarketVerifiers protocol authority => syncMarketVerifiers s protocol authority now
  | .placeOrder accounts args => placeOrder rt s accounts args now
  | .submitBatch remainingAccounts args => submitBatch s remainingAccounts args now
  | .resolveMarket accounts finalSeq payload => resolveMarket rt s accounts finalSeq payload now
  | .beginRefund => beginRefund s now
  | .refundOrder payer payerToken commitment => refundOrder s payer payerToken commitment
  | .redeem accounts args => redeem rt s accounts args

inductive Event
  | call (instruction : Instruction) (now : Int)
  | donate (amount : Nat)
  | external (tokens : Tokens)

inductive Step (rt : PrivateRuntime) : PrivateState → Event → PrivateState → Prop
  | call {s s' : PrivateState} {instruction : Instruction} {now : Int} :
      execute rt s now instruction = .ok s' → Step rt s (.call instruction now) s'
  | donate {s : PrivateState} {amount : Nat} : s.vault + amount ≤ u64Max →
      Step rt s (.donate amount) { s with vault := s.vault + amount }
  | external {s : PrivateState} {tokens : Tokens} :
      Step rt s (.external tokens) { s with tokens }

/-- `s` is a market that `initialize_market` just created. -/
def Created (s : PrivateState) : Prop :=
  ∃ protocol tokens creator collateralMint tokenProgram args now,
    initializeMarket protocol tokens creator collateralMint tokenProgram args now = .ok s

/-- What one event gives the vault for nothing. -/
def Event.donation : Event → Nat
  | .donate amount => amount
  | _ => 0

/-- What a run has given the vault for nothing. -/
def donated (tr : List Event) : Nat := (tr.map Event.donation).sum

@[simp] theorem donated_nil : donated [] = 0 := rfl

@[simp] theorem donated_append (tr : List Event) (e : Event) :
    donated (tr ++ [e]) = donated tr + e.donation := by
  simp [donated]

/-! ## Running a list of calls -/

/-- Runs instructions one after another, each at its clock. -/
def executeAll (rt : PrivateRuntime) (s : PrivateState) :
    List (Instruction × Int) → Except Failure PrivateState
  | [] => .ok s
  | call :: rest => do
    let s ← execute rt s call.2 call.1
    executeAll rt s rest

/-- The events of a list of calls. -/
def calls (list : List (Instruction × Int)) : List Event := list.map fun c => .call c.1 c.2

theorem executeAll_run {rt : PrivateRuntime} {list : List (Instruction × Int)}
    {s s' : PrivateState} (h : executeAll rt s list = .ok s') :
    Run (Step rt) s (calls list) s' := by
  induction list generalizing s with
  | nil =>
    cases h
    exact .nil _
  | cons call rest ih =>
    obtain ⟨t, ht, hrest⟩ := bind_eq_ok.mp h
    exact .cons (.call ht) (ih hrest)

/-- Reads a run of calls off the value of one quantity at its end. -/
theorem executeAll_of_map {rt : PrivateRuntime} {α : Type} {x : Except Failure PrivateState}
    {list : List (Instruction × Int)} {f : PrivateState → α} {a : α}
    (h : (x >>= fun init => executeAll rt init list).toOption.map f = some a) :
    ∃ init s, x = .ok init ∧ executeAll rt init list = .ok s ∧ f s = a := by
  rw [Option.map_eq_some_iff] at h
  obtain ⟨s, hs, hf⟩ := h
  obtain ⟨init, hinit, hlist⟩ := bind_eq_ok.mp (toOption_eq_some.mp hs)
  exact ⟨init, s, hinit, hlist, hf⟩

end Nortia.PrivatePool
