import Nortia.Verify.Committee.Disk

/-!
# Acknowledged shares are stored

An acknowledged share is in the state file, and a purged one is not, in every run in which no two
handlers write and move their snapshots at a time, and in which no submission to a market overlaps a
purge of it. Nothing in the service sees to either: handlers that overlap move each other's
snapshots.
-/

namespace Nortia.Services.CommitteeServer

open Lib Client
open PrivatePool (PrivateState)

section

variable {CryptoKey Ciphertext : Type} {host : Host CryptoKey Ciphertext}
variable {s s' : Server Ciphertext} {log entered : List Entry} {share : CommitteeShare}
variable {present : Bool} {change : Change} {stage : PersistStage Ciphertext}

/-! ## What the log says of a share -/

/-- The share was acknowledged, and its market was not purged since. -/
def Live (log : List Entry) (share : CommitteeShare) : Prop :=
  ∃ before after, log = before ++ .accepted share :: after ∧ .cleared share.market ∉ after

/-- A purge was acknowledged after the share was, and the share was not submitted again since. -/
def Gone (log : List Entry) (share : CommitteeShare) : Prop :=
  ∃ before after, log = before ++ .purged share.market :: after ∧ .accepted share ∈ before ∧
    .submitted share ∉ after

/-- **Durability**: a process that is started from the file has every live share, and none that is
gone. -/
def Durable (host : Host CryptoKey Ciphertext) (log : List Entry)
    (file : Option (StateFile Ciphertext)) : Prop :=
  ∃ memory legacy, restore host file = .ok (memory, legacy) ∧
    (∀ share, Live log share → share ∈ memory.member.shares) ∧
    ∀ share, Gone log share → share ∉ memory.member.shares

/-- What the log has settled about a share: that it is kept, or that it is not. -/
def Settled (log : List Entry) (share : CommitteeShare) : Bool → Prop
  | true => Live log share
  | false => Gone log share

/-- What a change of the member sets: that a share is kept, or that those of a market are not. -/
def Change.Sets (share : CommitteeShare) : Change → Bool → Prop
  | .submitted other, present => share = other ∧ present = true
  | .cleared market _, present => share.market = market ∧ present = false

/-- One entry more leaves what is live live, unless it acknowledges the share. -/
theorem Live.of_snoc {entry : Entry} (h : Live (log ++ [entry]) share)
    (hentry : entry ≠ .accepted share) : Live log share ∧ entry ≠ .cleared share.market := by
  obtain ⟨before, after, hlog, hkept⟩ := h
  rcases List.eq_nil_or_concat after with rfl | ⟨init, last, rfl⟩
  · obtain ⟨-, hlast⟩ := List.append_inj' hlog rfl
    exact absurd (List.singleton_inj.mp hlast) hentry
  · rw [List.concat_eq_append] at hlog hkept
    have hlog : log ++ [entry] = (before ++ .accepted share :: init) ++ [last] := by
      rw [hlog, List.append_assoc, List.cons_append]
    obtain ⟨rfl, hlast⟩ := List.append_inj' hlog rfl
    rw [List.mem_append, not_or, List.mem_singleton] at hkept
    refine ⟨⟨before, init, rfl, hkept.1⟩, fun heq => hkept.2 ?_⟩
    rw [← List.singleton_inj.mp hlast, heq]

theorem Gone.of_snoc {entry : Entry} (h : Gone (log ++ [entry]) share)
    (hentry : entry ≠ .purged share.market) : Gone log share ∧ entry ≠ .submitted share := by
  obtain ⟨before, after, hlog, haccepted, hgone⟩ := h
  rcases List.eq_nil_or_concat after with rfl | ⟨init, last, rfl⟩
  · obtain ⟨-, hlast⟩ := List.append_inj' hlog rfl
    exact absurd (List.singleton_inj.mp hlast) hentry
  · rw [List.concat_eq_append] at hlog hgone
    have hlog : log ++ [entry] = (before ++ .purged share.market :: init) ++ [last] := by
      rw [hlog, List.append_assoc, List.cons_append]
    obtain ⟨rfl, hlast⟩ := List.append_inj' hlog rfl
    rw [List.mem_append, not_or, List.mem_singleton] at hgone
    refine ⟨⟨before, init, rfl, haccepted, hgone.1⟩, fun heq => hgone.2 ?_⟩
    rw [← List.singleton_inj.mp hlast, heq]

/-- An acknowledgement settles what its change has set, and nothing else. -/
theorem Settled.of_acknowledged (h : Settled (log ++ [change.acknowledged]) share present) :
    Settled log share present ∨ change.Sets share present := by
  cases present with
  | true =>
    by_cases hentry : change.acknowledged = .accepted share
    · cases change with
      | submitted other => exact .inr ⟨(Entry.accepted.inj hentry).symm, rfl⟩
      | cleared market removed => cases hentry
    · exact .inl (Live.of_snoc h hentry).1
  | false =>
    by_cases hentry : change.acknowledged = .purged share.market
    · cases change with
      | submitted other => cases hentry
      | cleared market removed => exact .inr ⟨(Entry.purged.inj hentry).symm, rfl⟩
    · exact .inl (Gone.of_snoc h hentry).1

/-- A change unsettles what it sets otherwise. -/
theorem Settled.of_made (h : Settled (log ++ [change.made]) share present) :
    Settled log share present ∧ ¬change.Sets share !present := by
  cases present with
  | true =>
    have hentry : change.made ≠ .accepted share := by
      intro heq
      cases change <;> cases heq
    obtain ⟨hlive, hkept⟩ := Live.of_snoc h hentry
    refine ⟨hlive, ?_⟩
    cases change with
    | submitted other =>
      rintro ⟨-, hfalse⟩
      cases hfalse
    | cleared market removed =>
      rintro ⟨hmarket, -⟩
      exact hkept (congrArg Entry.cleared hmarket.symm)
  | false =>
    have hentry : change.made ≠ .purged share.market := by
      intro heq
      cases change <;> cases heq
    obtain ⟨hgone, hout⟩ := Gone.of_snoc h hentry
    refine ⟨hgone, ?_⟩
    cases change with
    | submitted other =>
      rintro ⟨hshare, -⟩
      exact hout (congrArg Entry.submitted hshare.symm)
    | cleared market removed =>
      rintro ⟨-, htrue⟩
      cases htrue

/-- Other entries settle nothing. -/
theorem Settled.of_other {entry : Entry} (h : Settled (log ++ [entry]) share present)
    (haccepted : entry ≠ .accepted share) (hpurged : entry ≠ .purged share.market) :
    Settled log share present := by
  cases present with
  | true => exact (Live.of_snoc h haccepted).1
  | false => exact (Gone.of_snoc h hpurged).1

/-- What is answered for a market settles nothing. -/
theorem Settled.of_response {response : Response}
    (h : Settled (log ++ response.entries) share present) : Settled log share present := by
  unfold Response.entries at h
  split at h
  · refine Settled.of_other h ?_ ?_
    · intro heq
      cases heq
    · intro heq
      cases heq
  · rwa [List.append_nil] at h

/-! ## Files and handlers -/

/-- A file that is restored, with the share or without it. -/
def Shows (host : Host CryptoKey Ciphertext) (file : Option (StateFile Ciphertext))
    (share : CommitteeShare) (present : Bool) : Prop :=
  ∃ memory legacy, restore host file = .ok (memory, legacy) ∧
    (share ∈ memory.member.shares ↔ present = true)

/-- Between its snapshot and its rename. -/
def PersistStage.isStoring : PersistStage Ciphertext → Bool
  | .opening _ => true
  | .writing _ => true
  | .moving => true
  | _ => false

/-- What a call of `persist` is about to move into place. -/
def PersistStage.pending (temporary : Option (File Ciphertext)) :
    PersistStage Ciphertext → Option (StateFile Ciphertext)
  | .opening contents => some contents
  | .writing contents => some contents
  | .moving => temporary.map File.contents
  | _ => none

def Pending (s : Server Ciphertext) (contents : StateFile Ciphertext) : Prop :=
  ∃ (i : Nat) (change : Change) (stage : PersistStage Ciphertext),
    s.handlers[i]? = some (.persisting change stage) ∧ stage.pending s.temporary = some contents

def Handler.isStoring : Handler Ciphertext → Bool
  | .persisting _ stage => stage.isStoring
  | _ => false

/-- A share of the market is in memory and not acknowledged yet. -/
def Handler.isSubmitting (marketValue : List Char) : Handler Ciphertext → Bool
  | .persisting (.submitted share) _ => share.market = marketValue
  | _ => false

/-- The market is purged in memory, and the purge is not acknowledged yet. -/
def Handler.isClearing (marketValue : List Char) : Handler Ciphertext → Bool
  | .persisting (.cleared other _) _ => other = marketValue
  | _ => false

/-- **Snapshots are stored one after another**, and no submission to a market overlaps a purge of
it. -/
def serial (s : Server Ciphertext) : Action → Bool
  | .directoryMade _ _ => s.handlers.all fun h => !h.isStoring
  | .transactionFound handler _ =>
    match s.handlers[handler]? with
    | some (.findingTransaction share) => s.handlers.all fun h => !h.isClearing share.market
    | _ => true
  | .resume handler _ =>
    match s.handlers[handler]? with
    | some (.fetchedMarket .purge marketValue _ _) =>
      s.handlers.all fun h => !h.isSubmitting marketValue
    | _ => true
  | _ => true

theorem not_of_all {p : Handler Ciphertext → Bool} {i : Nat} {h : Handler Ciphertext}
    (hall : (s.handlers.all fun h => !p h) = true) (hi : s.handlers[i]? = some h) : p h = false := by
  have hmem := List.all_eq_true.mp hall h (List.mem_of_getElem? hi)
  rwa [Bool.not_eq_true'] at hmem

/-- Nobody but this handler is between its snapshot and its rename. -/
def Alone (s : Server Ciphertext) (handler : Nat) : Prop :=
  ∀ (i : Nat) (change : Change) (stage : PersistStage Ciphertext), i ≠ handler →
    s.handlers[i]? = some (.persisting change stage) → stage.isStoring = false

theorem alone_of_serial {handler : Nat} {iv : String}
    (h : serial s (.directoryMade handler iv) = true) : Alone s handler :=
  fun _ _ _ _ hi => not_of_all (p := Handler.isStoring) h hi

theorem not_clearing_of_serial {handler : Nat} {transaction : Option Bool}
    (h : serial s (.transactionFound handler transaction) = true)
    (hhandler : s.handlers[handler]? = some (.findingTransaction share)) (i : Nat)
    (removed : Bool) (stage : PersistStage Ciphertext) :
    s.handlers[i]? ≠ some (.persisting (.cleared share.market removed) stage) := by
  intro hi
  simp only [serial, hhandler] at h
  have hclearing : decide (share.market = share.market) = false := not_of_all h hi
  exact of_decide_eq_false hclearing rfl

theorem not_submitting_of_serial {handler : Nat} {marketValue : List Char} {market : Pubkey}
    {account : Option Market} {now : Int} (h : serial s (.resume handler now) = true)
    (hhandler : s.handlers[handler]? = some (.fetchedMarket .purge marketValue market account))
    (i : Nat) (share : CommitteeShare) (stage : PersistStage Ciphertext)
    (hi : s.handlers[i]? = some (.persisting (.submitted share) stage)) :
    share.market ≠ marketValue := by
  simp only [serial, hhandler] at h
  have hsubmitting : decide (share.market = marketValue) = false := not_of_all h hi
  exact of_decide_eq_false hsubmitting

/-- Memory, the file and what is about to replace it agree on a share. -/
structure Agrees (host : Host CryptoKey Ciphertext) (s : Server Ciphertext)
    (share : CommitteeShare) (present : Bool) : Prop where
  memory : share ∈ s.memory.member.shares ↔ present = true
  file : Shows host s.stateFile share present
  pending : ∀ contents, Pending s contents → Shows host (some contents) share present

/-- How far a change has come on its way to the file. -/
def Reached (host : Host CryptoKey Ciphertext) (s : Server Ciphertext) (share : CommitteeShare)
    (present : Bool) : PersistStage Ciphertext → Prop
  | .makingDirectory => True
  | .opening contents => Shows host (some contents) share present
  | .writing contents => Shows host (some contents) share present
  | .moving => ∀ f, s.temporary = some f → Shows host (some f.contents) share present
  | .moved => Shows host s.stateFile share present ∧
      ∀ contents, Pending s contents → Shows host (some contents) share present

/-- What serial runs keep. -/
structure Stores (host : Host CryptoKey Ciphertext) (log : List Entry) (s : Server Ciphertext) :
    Prop where
  valid : s.memory.Valid host
  readable : ∃ memory legacy, restore host s.stateFile = .ok (memory, legacy)
  disk : Disk s.handlers s.file s.temporary
  single : ∀ (i j : Nat) (change change' : Change) (stage stage' : PersistStage Ciphertext),
    s.handlers[i]? = some (.persisting change stage) →
    s.handlers[j]? = some (.persisting change' stage') →
      stage.isStoring = true → stage'.isStoring = true → i = j
  pendingReadable : ∀ contents, Pending s contents →
    ∃ memory legacy, restore host (some contents) = .ok (memory, legacy)
  settled : ∀ share present, Settled log share present → Agrees host s share present
  changing : ∀ (i : Nat) (change : Change) (stage : PersistStage Ciphertext),
    s.handlers[i]? = some (.persisting change stage) → ∀ share present,
      change.Sets share present →
        (share ∈ s.memory.member.shares ↔ present = true) ∧ Reached host s share present stage

theorem Stores.durable (h : Stores host log s) : Durable host log s.stateFile := by
  obtain ⟨memory, legacy, hrestored⟩ := h.readable
  have hshows : ∀ share present, Shows host s.stateFile share present →
      (share ∈ memory.member.shares ↔ present = true) := by
    rintro share present ⟨memory', legacy', hrestored', hshare⟩
    rw [hrestored] at hrestored'
    cases hrestored'
    exact hshare
  refine ⟨memory, legacy, hrestored, ?_, ?_⟩
  · intro share hlive
    exact (hshows share true (h.settled share true hlive).file).mpr rfl
  · intro share hgone hmem
    exact absurd ((hshows share false (h.settled share false hgone).file).mp hmem) (by decide)

/-- A snapshot of the memory shows what the memory has. -/
theorem shows_sealMemory (hopens : host.crypto.Opens) {memory : Memory} (h : memory.Valid host)
    (iv : String) (hshare : share ∈ memory.member.shares ↔ present = true) :
    Shows host (some (sealMemory host memory iv)) share present := by
  obtain ⟨markets, hrestored⟩ := restore_sealMemory hopens h iv
  exact ⟨_, _, hrestored, h.mem_snapshot.trans hshare⟩

/-! ## What a step keeps -/

/-- A step that leaves the memory and the files, and persists nothing new, keeps the invariant. -/
theorem Stores.quiet (h : Stores host log s) (hmemory : s'.memory = s.memory)
    (hfile : s'.file = s.file) (htemporary : s'.temporary = s.temporary)
    (hdisk : Disk s'.handlers s.file s.temporary)
    (hhandlers : ∀ (i : Nat) (change : Change) (stage : PersistStage Ciphertext),
      s'.handlers[i]? = some (.persisting change stage) →
        s.handlers[i]? = some (.persisting change stage))
    (hsettled : ∀ share present, Settled (log ++ entered) share present →
      Agrees host s share present) : Stores host (log ++ entered) s' := by
  have hpending : ∀ contents, Pending s' contents → Pending s contents := by
    rintro contents ⟨i, change, stage, hi, hcontents⟩
    exact ⟨i, change, stage, hhandlers i change stage hi, htemporary ▸ hcontents⟩
  have hstate : s'.stateFile = s.stateFile := congrArg (Option.map File.contents) hfile
  constructor
  case valid => exact hmemory ▸ h.valid
  case readable => exact hstate ▸ h.readable
  case disk =>
    rw [hfile, htemporary]
    exact hdisk
  case single =>
    intro i j change change' stage stage' hi hj
    exact h.single i j change change' stage stage' (hhandlers _ _ _ hi) (hhandlers _ _ _ hj)
  case pendingReadable => exact fun contents hc => h.pendingReadable contents (hpending contents hc)
  case settled =>
    intro share present hsettles
    have hagrees := hsettled share present hsettles
    constructor
    · rw [hmemory]
      exact hagrees.memory
    · rw [hstate]
      exact hagrees.file
    · exact fun contents hc => hagrees.pending contents (hpending contents hc)
  case changing =>
    intro i change stage hi share present hsets
    obtain ⟨hmem, hreached⟩ := h.changing i change stage (hhandlers i change stage hi) share present
      hsets
    refine ⟨by rw [hmemory]; exact hmem, ?_⟩
    cases stage with
    | makingDirectory => trivial
    | opening contents => exact hreached
    | writing contents => exact hreached
    | moving => exact fun f hf => hreached f (htemporary ▸ hf)
    | moved =>
      refine ⟨by rw [hstate]; exact hreached.1, ?_⟩
      exact fun contents hc => hreached.2 contents (hpending contents hc)

theorem persisting_of_start {handler : Handler Ciphertext} {i : Nat}
    (hnot : ∀ change stage, handler ≠ .persisting change stage)
    (hi : (s.start handler).handlers[i]? = some (.persisting change stage)) :
    s.handlers[i]? = some (.persisting change stage) := by
  rw [Server.start, List.getElem?_append] at hi
  split at hi
  · exact hi
  · have hmem := List.mem_of_getElem? hi
    exact absurd (List.mem_singleton.mp hmem).symm (hnot change stage)

theorem persisting_of_put {handler : Nat} {next : Handler Ciphertext} {i : Nat}
    (hnot : ∀ change stage, next ≠ .persisting change stage)
    (hi : (s.put handler next).handlers[i]? = some (.persisting change stage)) :
    s.handlers[i]? = some (.persisting change stage) := by
  rcases Server.of_put hi with ⟨-, heq⟩ | ⟨-, hold⟩
  · exact absurd heq.symm (hnot change stage)
  · exact hold

/-- A change of the member that no call under way contradicts keeps the invariant. -/
theorem Stores.changed (h : Stores host log s) {handler : Nat} {old : Handler Ciphertext}
    (change : Change) {memory : Memory} (hold : s.handlers[handler]? = some old)
    (hopen : old.isOpen = false) (hdone : old.isDone = false) (hvalid : memory.Valid host)
    (hset : ∀ share present, change.Sets share present →
      (share ∈ memory.member.shares ↔ present = true))
    (hkept : ∀ share present, ¬change.Sets share !present →
      (share ∈ s.memory.member.shares ↔ present = true) →
        (share ∈ memory.member.shares ↔ present = true))
    (hapart : ∀ (i : Nat) (other : Change) (stage : PersistStage Ciphertext),
      s.handlers[i]? = some (.persisting other stage) → ∀ share present,
        other.Sets share present → ¬change.Sets share !present) :
    Stores host (log ++ [change.made])
      { s.put handler (.persisting change .makingDirectory) with memory } := by
  have hothers : ∀ (i : Nat) (other : Change) (stage : PersistStage Ciphertext),
      (s.put handler (.persisting change .makingDirectory)).handlers[i]? =
        some (.persisting other stage) →
      (other = change ∧ stage = .makingDirectory) ∨
        s.handlers[i]? = some (.persisting other stage) := by
    intro i other stage hi
    rcases Server.of_put hi with ⟨-, heq⟩ | ⟨-, hold⟩
    · cases heq
      exact .inl ⟨rfl, rfl⟩
    · exact .inr hold
  have hpending : ∀ contents, Pending { s.put handler (.persisting change .makingDirectory) with
      memory } contents → Pending s contents := by
    rintro contents ⟨i, other, stage, hi, hcontents⟩
    rcases hothers i other stage hi with ⟨-, rfl⟩ | hold
    · cases hcontents
    · exact ⟨i, other, stage, hold, hcontents⟩
  constructor
  case valid => exact hvalid
  case readable => exact h.readable
  case disk =>
    refine h.disk.set hold hopen rfl fun hisDone => ?_
    rw [hdone] at hisDone
    cases hisDone
  case single =>
    intro i j other other' stage stage' hi hj hstoring hstoring'
    rcases hothers i other stage hi with ⟨-, rfl⟩ | hi
    · cases hstoring
    · rcases hothers j other' stage' hj with ⟨-, rfl⟩ | hj
      · cases hstoring'
      · exact h.single i j other other' stage stage' hi hj hstoring hstoring'
  case pendingReadable => exact fun contents hc => h.pendingReadable contents (hpending contents hc)
  case settled =>
    intro share present hsettles
    obtain ⟨hsettled, hnot⟩ := Settled.of_made hsettles
    have hagrees := h.settled share present hsettled
    exact ⟨hkept share present hnot hagrees.memory, hagrees.file,
      fun contents hc => hagrees.pending contents (hpending contents hc)⟩
  case changing =>
    intro i other stage hi share present hsets
    rcases hothers i other stage hi with ⟨rfl, rfl⟩ | hold
    · exact ⟨hset share present hsets, trivial⟩
    · obtain ⟨hmem, hreached⟩ := h.changing i other stage hold share present hsets
      refine ⟨hkept share present (hapart i other stage hold share present hsets) hmem, ?_⟩
      cases stage with
      | makingDirectory => trivial
      | opening contents => exact hreached
      | writing contents => exact hreached
      | moving => exact hreached
      | moved => exact ⟨hreached.1, fun contents hc => hreached.2 contents (hpending contents hc)⟩

theorem PersistStage.isStoring_of_pending {temporary : Option (File Ciphertext)}
    {contents : StateFile Ciphertext} (h : stage.pending temporary = some contents) :
    stage.isStoring = true := by
  cases stage with
  | makingDirectory => cases h
  | opening contents => rfl
  | writing contents => rfl
  | moving => rfl
  | moved => cases h

theorem isStoring_of_isOpen {h : Handler Ciphertext} (hopen : h.isOpen = true) :
    ∃ change stage, h = .persisting change stage ∧ stage.isStoring = true := by
  unfold Handler.isOpen at hopen
  split at hopen
  · exact ⟨_, _, rfl, rfl⟩
  · exact ⟨_, _, rfl, rfl⟩
  · cases hopen

/-- Nobody has a file open where one handler is about to open one alone. -/
theorem Alone.isOpen_eq {handler : Nat} {old : Handler Ciphertext} (h : Alone s handler)
    (hold : s.handlers[handler]? = some old) (hclosed : old.isOpen = false) (i : Nat)
    (other : Handler Ciphertext) (hi : s.handlers[i]? = some other) : other.isOpen = false := by
  by_contra hopen
  obtain ⟨change, stage, rfl, hstoring⟩ := isStoring_of_isOpen (Bool.of_not_eq_false hopen)
  rcases eq_or_ne i handler with rfl | hne
  · rw [hold] at hi
    cases hi
    exact hopen hclosed
  · rw [h i change stage hne hi] at hstoring
    cases hstoring

theorem Stores.alone (h : Stores host log s) {handler : Nat}
    (hhandler : s.handlers[handler]? = some (.persisting change stage))
    (hstores : stage.isStoring = true) : Alone s handler := by
  intro i other stage' hi hother
  by_contra hstoring
  exact hi (h.single i handler other change stage' stage hother hhandler
    (Bool.of_not_eq_false hstoring) hstores)

section Advanced

variable {handler : Nat} {next : PersistStage Ciphertext}
variable {file temporary : Option (File Ciphertext)}

/-- A handler that stores alone has gone on with its call of `persist`. -/
def advanced (s : Server Ciphertext) (handler : Nat) (change : Change)
    (next : PersistStage Ciphertext) (file temporary : Option (File Ciphertext)) :
    Server Ciphertext :=
  { s.put handler (.persisting change next) with file, temporary }

theorem pending_advanced (halone : Alone s handler) {contents : StateFile Ciphertext}
    (hc : Pending (advanced s handler change next file temporary) contents) :
    next.pending temporary = some contents := by
  obtain ⟨i, other, stage, hi, hcontents⟩ := hc
  rcases Server.of_put hi with ⟨-, heq⟩ | ⟨hne, hold⟩
  · cases heq
    exact hcontents
  · have hidle := halone i other stage hne hold
    rw [PersistStage.isStoring_of_pending hcontents] at hidle
    cases hidle

/-- What the others have reached by then agrees everywhere, so it suffices that agreement is kept
and that the change of the handler is where its stage says. -/
theorem Stores.advance (h : Stores host log s) (next : PersistStage Ciphertext) (halone : Alone s handler)
    (hhandler : s.handlers[handler]? = some (.persisting change stage))
    (hdisk : Disk (s.handlers.set handler (.persisting change next)) file temporary)
    (hreadable : ∃ memory legacy, restore host (file.map File.contents) = .ok (memory, legacy))
    (hnext : ∀ contents, next.pending temporary = some contents →
      ∃ memory legacy, restore host (some contents) = .ok (memory, legacy))
    (hagrees : ∀ share present, Agrees host s share present →
      Shows host (file.map File.contents) share present ∧ ∀ contents, next.pending temporary = some contents →
        Shows host (some contents) share present)
    (hown : ∀ share present, (share ∈ s.memory.member.shares ↔ present = true) →
      Reached host s share present stage →
        Reached host (advanced s handler change next file temporary) share present next) :
    Stores host log (advanced s handler change next file temporary) := by
  have hkept : ∀ share present, Agrees host s share present →
      Agrees host (advanced s handler change next file temporary) share present := by
    intro share present h
    obtain ⟨hfile, hpending⟩ := hagrees share present h
    exact ⟨h.memory, hfile, fun contents hc => hpending contents (pending_advanced halone hc)⟩
  constructor
  case valid => exact h.valid
  case readable => exact hreadable
  case disk => exact hdisk
  case single =>
    have hstoring : ∀ (i : Nat) (other : Change) (stage : PersistStage Ciphertext),
        (advanced s handler change next file temporary).handlers[i]? =
          some (.persisting other stage) → stage.isStoring = true → i = handler := by
      intro i other stage hi hstores
      rcases Server.of_put hi with ⟨rfl, -⟩ | ⟨hne, hold⟩
      · rfl
      · rw [halone i other stage hne hold] at hstores
        cases hstores
    intro i j other other' stage stage' hi hj hstores hstores'
    exact (hstoring i other stage hi hstores).trans (hstoring j other' stage' hj hstores').symm
  case pendingReadable => exact fun contents hc => hnext contents (pending_advanced halone hc)
  case settled =>
    intro share present hsettles
    exact hkept share present (h.settled share present hsettles)
  case changing =>
    intro i other stage' hi share present hsets
    rcases Server.of_put hi with ⟨-, heq⟩ | ⟨hne, hold⟩
    · cases heq
      obtain ⟨hmem, hreached⟩ := h.changing handler change stage hhandler share present hsets
      exact ⟨hmem, hown share present hmem hreached⟩
    · obtain ⟨hmem, hreached⟩ := h.changing i other stage' hold share present hsets
      have hidle := halone i other stage' hne hold
      refine ⟨hmem, ?_⟩
      cases stage' with
      | makingDirectory => trivial
      | opening contents => cases hidle
      | writing contents => cases hidle
      | moving => cases hidle
      | moved =>
        have hagrees := hkept share present ⟨hmem, hreached.1, hreached.2⟩
        exact ⟨hagrees.file, hagrees.pending⟩

/-- The state file stays, and the handler goes on with the snapshot it has. -/
theorem Stores.carry (h : Stores host log s) (next : PersistStage Ciphertext) (halone : Alone s handler)
    (hhandler : s.handlers[handler]? = some (.persisting change stage))
    (hdisk : Disk (s.handlers.set handler (.persisting change next)) s.file temporary)
    {contents : StateFile Ciphertext} (hpending : Pending s contents)
    (hsame : ∀ other, next.pending temporary = some other → other = contents)
    (hown : ∀ share present, Reached host s share present stage →
      Reached host (advanced s handler change next s.file temporary) share present next) :
    Stores host log (advanced s handler change next s.file temporary) := by
  refine h.advance next halone hhandler hdisk h.readable ?_ ?_
    fun share present _ hreached => hown share present hreached
  · intro other hc
    rw [hsame other hc]
    exact h.pendingReadable contents hpending
  · intro share present hagrees
    refine ⟨hagrees.file, fun other hc => ?_⟩
    rw [hsame other hc]
    exact hagrees.pending contents hpending

end Advanced

/-- A snapshot is taken while nobody stores one. -/
theorem Stores.snapshotted (hopens : host.crypto.Opens) (h : Stores host log s) {handler : Nat}
    (hhandler : s.handlers[handler]? = some (.persisting change .makingDirectory))
    (halone : Alone s handler) (iv : String) : Stores host log
      (s.put handler (.persisting change (.opening (sealMemory host s.memory iv)))) := by
  refine h.advance (.opening (sealMemory host s.memory iv)) halone hhandler
    (h.disk.set hhandler rfl rfl id) h.readable ?_ ?_ ?_
  · rintro contents hc
    obtain ⟨markets, hrestored⟩ := restore_sealMemory hopens h.valid iv
    cases hc
    exact ⟨_, _, hrestored⟩
  · intro share present hagrees
    refine ⟨hagrees.file, ?_⟩
    rintro contents hc
    cases hc
    exact shows_sealMemory hopens h.valid iv hagrees.memory
  · intro share present hmem _
    exact shows_sealMemory hopens h.valid iv hmem

/-- The temporary file is opened for the snapshot. -/
theorem Stores.opened (h : Stores host log s) {handler : Nat} {contents : StateFile Ciphertext}
    (hhandler : s.handlers[handler]? = some (.persisting change (.opening contents))) :
    Stores host log
      ((s.openTemporary handler).put handler (.persisting change (.writing contents))) := by
  have halone := h.alone hhandler rfl
  have hpending : Pending s contents := ⟨handler, change, _, hhandler, rfl⟩
  exact h.carry (.writing contents) halone hhandler
    (h.disk.openTemporary hhandler (halone.isOpen_eq hhandler rfl) rfl rfl) hpending
    (fun other hc => (Option.some.inj hc).symm) fun _ _ hreached => hreached

theorem put_same {handler : Nat} {old : Handler Ciphertext} (h : s.handlers[handler]? = some old) :
    s.put handler old = s := by
  obtain ⟨hlt, rfl⟩ := List.getElem?_eq_some_iff.mp h
  rw [Server.put, List.set_getElem_self]

/-- A part of the snapshot is written. -/
theorem Stores.wrote (h : Stores host log s) {handler : Nat} {contents : StateFile Ciphertext}
    (hhandler : s.handlers[handler]? = some (.persisting change (.writing contents))) :
    Stores host log (s.writeFile handler .torn false) := by
  have hpending : Pending s contents := ⟨handler, change, _, hhandler, rfl⟩
  have hwritten : s.writeFile handler .torn false = advanced s handler change (.writing contents)
      s.file (s.temporary.map (·.write handler .torn false)) := by
    rw [advanced, put_same hhandler, Server.writeFile, h.disk.file_write hhandler rfl]
  rw [hwritten]
  exact h.carry (.writing contents) (h.alone hhandler rfl) hhandler (h.disk.write hhandler rfl rfl)
    hpending (fun other hc => (Option.some.inj hc).symm) fun _ _ hreached => hreached

/-- The snapshot is written to the temporary file. -/
theorem Stores.written (h : Stores host log s) {handler : Nat} {contents : StateFile Ciphertext}
    (hhandler : s.handlers[handler]? = some (.persisting change (.writing contents)))
    (intact : Bool) : Stores host log
      ((s.writeFile handler contents intact).put handler (.persisting change .moving)) := by
  have hpending : Pending s contents := ⟨handler, change, _, hhandler, rfl⟩
  have hwritten : (s.writeFile handler contents intact).put handler (.persisting change .moving) =
      advanced s handler change .moving s.file
        (s.temporary.map (·.write handler contents intact)) := by
    rw [advanced, Server.writeFile, h.disk.file_write hhandler rfl, Server.put, Server.put]
  -- the file that is there now holds the snapshot
  have hcontents : ∀ f, s.temporary.map (·.write handler contents intact) = some f →
      f.contents = contents := by
    intro f hf
    obtain ⟨g, hg, rfl⟩ := Option.map_eq_some_iff.mp hf
    obtain ⟨g', hg', hwriters⟩ := h.disk.opened handler _ hhandler rfl
    cases hg'.symm.trans hg
    exact File.contents_write_alone hwriters
  have hmoved : ∀ other, PersistStage.moving.pending
      (s.temporary.map (·.write handler contents intact)) = some other → other = contents := by
    intro other hc
    obtain ⟨f, hf, rfl⟩ := Option.map_eq_some_iff.mp hc
    exact hcontents f hf
  rw [hwritten]
  refine h.carry .moving (h.alone hhandler rfl) hhandler (h.disk.write hhandler rfl rfl) hpending
    hmoved ?_
  intro share present hreached f hf
  rw [hcontents f hf]
  exact hreached

/-- The temporary file becomes the state file. -/
theorem Stores.renamed (h : Stores host log s) {handler : Nat} {f : File Ciphertext}
    (hhandler : s.handlers[handler]? = some (.persisting change .moving))
    (htemporary : s.temporary = some f) : Stores host log
      { s.put handler (.persisting change .moved) with
        file := some f
        temporary := none } := by
  have halone := h.alone hhandler rfl
  have hpending : Pending s f.contents := by
    refine ⟨handler, change, _, hhandler, ?_⟩
    rw [PersistStage.pending, htemporary, Option.map_some]
  refine h.advance .moved halone hhandler (h.disk.rename hhandler rfl rfl rfl htemporary)
    (h.pendingReadable f.contents hpending) ?_ ?_ ?_
  · rintro other hc
    cases hc
  · intro share present hagrees
    refine ⟨hagrees.pending f.contents hpending, ?_⟩
    rintro other hc
    cases hc
  · intro share present _ hreached
    refine ⟨hreached f htemporary, ?_⟩
    intro other hc
    have hnone : (none : Option (StateFile Ciphertext)) = some other := pending_advanced halone hc
    cases hnone

/-- The answer acknowledges a change that has reached the file. -/
theorem Stores.responded (h : Stores host log s) {handler : Nat}
    (hhandler : s.handlers[handler]? = some (.persisting change .moved)) :
    Stores host (log ++ [change.acknowledged])
      (s.put handler (.responded change.response)) := by
  have hnot : ∀ (other : Change) (stage : PersistStage Ciphertext),
      Handler.responded change.response ≠ .persisting other stage := by
    intro other stage heq
    cases heq
  refine h.quiet rfl rfl rfl (h.disk.set hhandler rfl rfl id)
    (fun i other stage hi => persisting_of_put hnot hi) ?_
  intro share present hsettles
  rcases Settled.of_acknowledged hsettles with hold | hsets
  · exact h.settled share present hold
  · obtain ⟨hmem, hfile, hpending⟩ :=
      h.changing handler change .moved hhandler share present hsets
    exact ⟨hmem, hfile, hpending⟩

/-- The state file of a process that has started. -/
theorem stateFile_started (memory : Memory) (legacy : Bool) (iv : String) :
    (s.started host memory legacy iv).stateFile =
      if legacy then some (sealMemory host memory iv) else s.stateFile := by
  cases legacy with
  | true => rfl
  | false =>
    show (s.file.map _).map _ = s.file.map _
    rw [Option.map_map]
    rfl

theorem disk_started (memory : Memory) (legacy : Bool) (iv : String) :
    let started := s.started host memory legacy iv
    Disk started.handlers started.file started.temporary := by
  have hclosed : ∀ {file : Option (File Ciphertext)} {f : File Ciphertext} {i : Nat},
      (file.map fun file => { file with writers := [] }) = some f → i ∉ f.writers := by
    intro file f i hf hi
    obtain ⟨g, -, rfl⟩ := Option.map_eq_some_iff.mp hf
    cases hi
  constructor
  case opened =>
    intro i h hi
    cases hi
  case writes =>
    intro f i hf hi
    cases legacy with
    | true => cases hf
    | false => exact absurd hi (hclosed hf)
  case done =>
    intro f i hf hi
    cases legacy with
    | true =>
      cases hf
      cases hi
    | false => exact absurd hi (hclosed hf)

/-- The process is started from a file that shows what is settled. -/
theorem stores_started (hopens : host.crypto.Opens) {memory : Memory} {legacy : Bool}
    (hrestored : restore host s.stateFile = .ok (memory, legacy))
    (hsettled : ∀ share present, Settled log share present →
      Shows host s.stateFile share present) (iv : String) :
    Stores host log (s.started host memory legacy iv) := by
  have hvalid := restore_valid hrestored
  have hstate : (s.started host memory legacy iv).stateFile =
      if legacy then some (sealMemory host memory iv) else s.stateFile :=
    stateFile_started memory legacy iv
  constructor
  case valid => exact hvalid
  case readable =>
    rw [hstate]
    cases legacy with
    | false => exact ⟨_, _, hrestored⟩
    | true =>
      obtain ⟨markets, hsealed⟩ := restore_sealMemory hopens hvalid iv
      exact ⟨_, _, hsealed⟩
  case disk => exact disk_started memory legacy iv
  case single =>
    intro i j change change' stage stage' hi
    cases hi
  case pendingReadable =>
    rintro contents ⟨i, change, stage, hi, -⟩
    cases hi
  case settled =>
    intro share present hsettles
    obtain ⟨memory', legacy', hrestored', hshare⟩ := hsettled share present hsettles
    rw [hrestored] at hrestored'
    cases hrestored'
    refine ⟨hshare, ?_, ?_⟩
    · rw [hstate]
      cases legacy with
      | false => exact ⟨_, _, hrestored, hshare⟩
      | true => exact shows_sealMemory hopens hvalid iv hshare
    · rintro contents ⟨i, change, stage, hi, -⟩
      cases hi
  case changing =>
    intro i change stage hi
    cases hi

/-- A share is submitted while no purge of its market is under way. -/
theorem Stores.submitted (h : Stores host log s) {handler : Nat} {m : CommitteeMember}
    (hhandler : s.handlers[handler]? = some (.findingTransaction share))
    (hsubmit : s.memory.member.submit host.runtime.poseidon share = .ok m)
    (hserial : ∀ (i : Nat) (removed : Bool) (stage : PersistStage Ciphertext),
      s.handlers[i]? ≠ some (.persisting (.cleared share.market removed) stage)) :
    Stores host (log ++ [.submitted share])
      { s.put handler (.persisting (.submitted share) .makingDirectory) with
        memory := ⟨m, addMarket s.memory.allMarkets share.market⟩ } := by
  refine h.changed (.submitted share) hhandler rfl rfl (h.valid.submitted hsubmit) ?_ ?_ ?_
  · rintro other present ⟨rfl, rfl⟩
    exact iff_of_true (h.valid.wellFormed.mem_of_submit_self hsubmit) rfl
  · intro other present hnot hmem
    cases present with
    | true => exact iff_of_true (CommitteeMember.mem_of_submit hsubmit (hmem.mpr rfl)) rfl
    | false =>
      refine iff_of_false (fun hheld => ?_) Bool.false_ne_true
      rcases CommitteeMember.mem_submit hsubmit hheld with hold | rfl
      · exact Bool.false_ne_true (hmem.mp hold)
      · exact hnot ⟨rfl, rfl⟩
  · rintro i change stage hi other present hsets ⟨rfl, hpresent⟩
    cases change with
    | submitted share' =>
      rw [hsets.2] at hpresent
      cases hpresent
    | cleared market removed =>
      obtain ⟨rfl, -⟩ := hsets
      exact hserial i removed stage hi

/-- A market is purged while no submission to it is under way. -/
theorem Stores.cleared (h : Stores host log s) {handler : Nat} {market : List Char} {key : Pubkey}
    {account : Option Market} {removed : Bool}
    (hhandler : s.handlers[handler]? = some (.fetchedMarket .purge market key account))
    (hserial : ∀ (i : Nat) (share : CommitteeShare) (stage : PersistStage Ciphertext),
      s.handlers[i]? = some (.persisting (.submitted share) stage) → share.market ≠ market) :
    Stores host (log ++ [.cleared market])
      { s.put handler (.persisting (.cleared market removed) .makingDirectory) with
        memory := ⟨s.memory.member.clearMarket market,
          s.memory.allMarkets.filter (· ≠ market)⟩ } := by
  have hcleared : ∀ share : CommitteeShare, share ∈ (s.memory.member.clearMarket market).shares ↔
      share ∈ s.memory.member.shares ∧ share.market ≠ market := by
    intro share
    rw [CommitteeMember.clearMarket, List.mem_filter, decide_eq_true_eq]
  refine h.changed (.cleared market removed) hhandler rfl rfl (h.valid.cleared market) ?_ ?_ ?_
  · rintro share present ⟨hmarket, rfl⟩
    exact iff_of_false (fun hheld => ((hcleared share).mp hheld).2 hmarket) Bool.false_ne_true
  · intro share present hnot hmem
    cases present with
    | true => exact iff_of_true ((hcleared share).mpr ⟨hmem.mpr rfl, fun heq => hnot ⟨heq, rfl⟩⟩) rfl
    | false =>
      refine iff_of_false (fun hheld => ?_) Bool.false_ne_true
      exact Bool.false_ne_true (hmem.mp ((hcleared share).mp hheld).1)
  · rintro i change stage hi share present hsets ⟨hmarket, hpresent⟩
    cases change with
    | submitted other =>
      obtain ⟨rfl, -⟩ := hsets
      exact hserial i share stage hi hmarket
    | cleared other removed =>
      rw [hsets.2] at hpresent
      cases hpresent

theorem stores_step {a : Action} (hopens : host.crypto.Opens) (h : Stores host log s)
    (hserial : serial s a = true) (hstep : Server.Step host s a s') :
    Stores host (log ++ Server.entries s a s') s' := by
  have heffect := Server.step_effect hstep
  have hnone : ∀ share present, Settled (log ++ []) share present →
      Agrees host s share present := by
    intro share present hsettles
    rw [List.append_nil] at hsettles
    exact h.settled share present hsettles
  generalize Server.entries s a s' = entered at heffect ⊢
  cases heffect with
  | ticked hclock => exact h.quiet rfl rfl rfl h.disk (fun _ _ _ hi => hi) hnone
  | created hcreated hnew => exact h.quiet rfl rfl rfl h.disk (fun _ _ _ hi => hi) hnone
  | programmed hmarket hstep hclock => exact h.quiet rfl rfl rfl h.disk (fun _ _ _ hi => hi) hnone
  | booted hrestored =>
    rw [List.append_nil]
    exact stores_started hopens hrestored (fun share present hsettles =>
      (h.settled share present hsettles).file) _
  | @posted share handler hstart =>
    have hclosed : handler.isOpen = false := by
      rcases hstart with rfl | ⟨message, rfl⟩
      · rfl
      · rfl
    refine h.quiet rfl rfl rfl (h.disk.start hclosed) (fun _ _ _ hi => persisting_of_start ?_ hi) ?_
    · rintro change stage rfl
      rcases hstart with heq | ⟨message, heq⟩
      · cases heq
      · cases heq
    · intro share present hsettles
      refine h.settled share present (hsettles.of_other ?_ ?_)
      · intro heq
        cases heq
      · intro heq
        cases heq
  | @requested route marketValue handler hstart =>
    have hclosed : handler.isOpen = false := by
      rcases hstart with ⟨market, -, rfl⟩ | ⟨message, rfl⟩
      · rfl
      · rfl
    refine h.quiet rfl rfl rfl (h.disk.start hclosed) (fun _ _ _ hi => persisting_of_start ?_ hi)
      hnone
    rintro change stage rfl
    rcases hstart with ⟨market, -, heq⟩ | ⟨message, heq⟩
    · cases heq
    · cases heq
  | found hhandler hverified =>
    refine h.quiet rfl rfl rfl (h.disk.set hhandler rfl rfl fun hdone => nomatch hdone)
      (fun _ _ _ hi => persisting_of_put ?_ hi) hnone
    intro change stage heq
    cases heq
  | submitted hhandler hsubmit =>
    exact h.submitted hhandler hsubmit (not_clearing_of_serial hserial hhandler)
  | fetched hhandler =>
    refine h.quiet rfl rfl rfl (h.disk.set hhandler rfl rfl fun hdone => nomatch hdone)
      (fun _ _ _ hi => persisting_of_put ?_ hi) hnone
    intro change stage heq
    cases heq
  | answered hhandler hanswer =>
    refine h.quiet rfl rfl rfl (h.disk.set hhandler rfl rfl fun hdone => nomatch hdone)
      (fun _ _ _ hi => persisting_of_put ?_ hi) ?_
    · intro change stage heq
      cases heq
    · intro share present hsettles
      exact h.settled share present hsettles.of_response
  | cleared hhandler => exact h.cleared hhandler (not_submitting_of_serial hserial hhandler)
  | snapshotted hhandler =>
    rw [List.append_nil]
    exact h.snapshotted hopens hhandler (alone_of_serial hserial) _
  | opened hhandler =>
    rw [List.append_nil]
    exact h.opened hhandler
  | wrote hhandler =>
    rw [List.append_nil]
    exact h.wrote hhandler
  | written hhandler =>
    rw [List.append_nil]
    exact h.written hhandler _
  | renamed hhandler htemporary =>
    rw [List.append_nil]
    exact h.renamed hhandler htemporary
  | responded hhandler => exact h.responded hhandler
  | unmoved hhandler htemporary =>
    -- the file that was written is there
    obtain ⟨f, hf, -⟩ := h.disk.opened _ _ hhandler rfl
    rw [htemporary] at hf
    cases hf
  | @failed a handler old message hhandler hidle =>
    have hclosed : old.isOpen = false := by
      by_contra hopen
      obtain ⟨change, stage, heq, -⟩ := isStoring_of_isOpen (Bool.of_not_eq_false hopen)
      exact hidle change stage heq
    refine h.quiet rfl rfl rfl (h.disk.set hhandler hclosed rfl fun _ => rfl)
      (fun _ _ _ hi => persisting_of_put ?_ hi) hnone
    intro change stage heq
    cases heq

/-- The process was started, from whatever file it found. -/
def Started (host : Host CryptoKey Ciphertext) (s : Server Ciphertext) : Prop :=
  ∃ (before : Server Ciphertext) (iv : String), before.boot host iv = some s

theorem stores_boot (hopens : host.crypto.Opens) (h : Started host s) : Stores host [] s := by
  obtain ⟨before, iv, hboot⟩ := h
  unfold Server.boot at hboot
  split at hboot
  · next memory legacy hrestored =>
    cases hboot
    refine stores_started hopens hrestored ?_ iv
    intro share present hsettled
    cases present with
    | true =>
      obtain ⟨_, _, hlog, -⟩ := hsettled
      exact absurd hlog.symm (List.append_ne_nil_of_right_ne_nil _ (List.cons_ne_nil _ _))
    | false =>
      obtain ⟨_, _, hlog, -⟩ := hsettled
      exact absurd hlog.symm (List.append_ne_nil_of_right_ne_nil _ (List.cons_ne_nil _ _))
  · cases hboot

/-- **Acknowledged shares are stored** wherever handlers store their snapshots one after another,
and no submission to a market overlaps a purge of it. -/
theorem acknowledged_shares_durable {s₀ : Server Ciphertext} {tr : List Action}
    {x : Server Ciphertext × List Entry} (hopens : host.crypto.Opens) (hstarted : Started host s₀)
    (hserial : Run.EveryStep (Run.Logged (Server.Step host) Server.entries)
      (fun x a => serial x.1 a = true) (s₀, []) tr x) :
    Run.Throughout (Run.Logged (Server.Step host) Server.entries)
      (fun x => Durable host x.2 x.1.stateFile) (s₀, []) tr x := by
  have hstores : Run.Throughout (Run.Logged (Server.Step host) Server.entries)
      (fun x => Stores host x.2 x.1) (s₀, []) tr x := by
    refine hserial.throughout (stores_boot hopens hstarted) ?_
    rintro x a y hserial hstores ⟨hstep, hlog⟩
    rw [hlog]
    exact stores_step hopens hstores hserial hstep
  exact hstores.mono fun _ h => h.durable

end

namespace Sample

/-- A share is stored before the next one is submitted. -/
def oneAfterAnother : List Action :=
  placing 2 ++ posting 0 0 ++ storing 0 "a" ++ posting 1 1 ++ storing 1 "b"

/-- Both take their snapshots before either writes, the earlier snapshot is written last, and the
handler of the later one moves it into place. -/
def overlapping : List Action :=
  placing 2 ++ posting 0 0 ++ [.directoryMade 0 "a"] ++ posting 1 1 ++
    [.directoryMade 1 "b", .opened 1, .written 1 true, .opened 0, .written 0 true, .renamed 1,
      .respond 1]

theorem one_after_another : ((before.boot host "0").bind fun s =>
    oneAfterAnother.foldlM (fun x a => if serial x.1 a then
      Run.logStep (Server.step host) Server.entries x a else none) (s, [])).isSome = true := by
  decide +kernel

/-- Whether the share was the last to be acknowledged, and the file does not have it. -/
def losesShare (share : CommitteeShare) (x : Server (Nat × String × String × Json) × List Entry) :
    Bool :=
  x.2.getLast? = some (.accepted share) &&
    match restore host x.1.stateFile with
    | .ok (memory, _) => share ∉ memory.member.shares
    | .error _ => true

theorem overlapping_loses : ((before.boot host "0").bind fun s =>
    (overlapping.foldlM (Run.logStep (Server.step host) Server.entries) (s, []))).map
      (losesShare (share 1)) = some true := by
  decide +kernel

end Sample

open Nortia.Services.CommitteeServer.Sample in
/-- Two shares that are submitted one after the other. -/
theorem acknowledged_shares_durable_sample : ∃ (s₀ : Server (Nat × String × String × Json))
    (x : Server (Nat × String × String × Json) × List Entry),
    Run (Run.Logged (Server.Step host) Server.entries) (s₀, []) oneAfterAnother x ∧
      Run.Throughout (Run.Logged (Server.Step host) Server.entries)
        (fun x => Durable host x.2 x.1.stateFile) (s₀, []) oneAfterAnother x := by
  obtain ⟨x, hx⟩ := Option.isSome_iff_exists.mp one_after_another
  obtain ⟨s₀, hs₀, hx⟩ := Option.bind_eq_some_iff.mp hx
  obtain ⟨hrun, hserial⟩ := Run.everyStep_of_foldlM hx
  rw [Run.logStep_eq] at hrun hserial
  exact ⟨s₀, x, hrun, acknowledged_shares_durable Web.Sample.crypto_opens ⟨before, "0", hs₀⟩
    hserial⟩

open Nortia.Services.CommitteeServer.Sample in
/-- Of two shares that are submitted at a time, the file loses one that was acknowledged. -/
theorem acknowledged_share_lost : ∃ (s₀ : Server (Nat × String × String × Json)) (tr : List Action)
    (x : Server (Nat × String × String × Json) × List Entry), Started host s₀ ∧
      Run (Run.Logged (Server.Step host) Server.entries) (s₀, []) tr x ∧
        ¬Durable host x.2 x.1.stateFile := by
  obtain ⟨x, hx, hloses⟩ := Option.map_eq_some_iff.mp overlapping_loses
  obtain ⟨s₀, hs₀, hx⟩ := Option.bind_eq_some_iff.mp hx
  have hrun := Run.of_foldlM hx
  rw [Run.logStep_eq] at hrun
  refine ⟨s₀, overlapping, x, ⟨before, "0", hs₀⟩, hrun, ?_⟩
  rintro ⟨memory, legacy, hrestored, hlive, -⟩
  rw [losesShare, hrestored, Bool.and_eq_true, decide_eq_true_eq, decide_eq_true_eq] at hloses
  obtain ⟨hlast, hlost⟩ := hloses
  obtain ⟨earlier, hlog⟩ := List.getLast?_eq_some_iff.mp hlast
  exact hlost (hlive (share 1) ⟨earlier, [], hlog, List.not_mem_nil⟩)

end Nortia.Services.CommitteeServer
