import Nortia.Verify.Committee.Service

/-!
# What a committee member answers

The shares a member keeps, in memory and on file, are shares of orders on chain, however its
handlers interleave. Its aggregates of a market agree and cover every order, wherever a handler that
goes on after the lock has an account that counts the orders there are: the account is fetched
before the clock is read, and orders may land in between. They also land after the lock by the clock of
the process, where it is ahead of the chain's.
-/

namespace Nortia.Services.CommitteeServer

open Lib Circuit Client
open PrivatePool (PrivateState orderStep map_orders_kept sameTerms_step orderLeaves orderEntry
  newOrder)

/-! ## Orders of a market -/

/-- What a member reads of an order. No step changes it. -/
def orderTerms (order : Order) : Nat × Bytes32 × ShareCommitments :=
  (order.orderIndex, order.commitment, order.shareCommitments)

/-- What a market keeps: its lock, its orders, and after its lock their number. -/
structure Grows (clock : Int) (market market' : PrivateState) : Prop where
  lock : market'.market.lockTs = market.market.lockTs
  orders : market.orders.map orderTerms <+: market'.orders.map orderTerms
  locked : market.market.lockTs ≤ clock →
    market'.orders.map orderTerms = market.orders.map orderTerms ∧
      market'.market.orderCount = market.market.orderCount

theorem Grows.refl (clock : Int) (market : PrivateState) : Grows clock market market :=
  ⟨rfl, List.prefix_rfl, fun _ => ⟨rfl, rfl⟩⟩

theorem grows_step {rt : PrivateRuntime} {market market' : PrivateState}
    {event : PrivatePool.Event} {clock : Int} (h : PrivatePool.Step rt market event market')
    (hclock : ∀ instruction now, event = .call instruction now → now = clock) :
    Grows clock market market' := by
  refine ⟨(sameTerms_step h).lock, ?_, ?_⟩
  · cases orderStep h with
    | placed hchecks horders hcount =>
      rw [horders, List.map_append]
      exact List.prefix_append _ _
    | kept he horders hcount =>
      rw [map_orders_kept (fun _ => rfl) horders]
  · intro hlocked
    cases orderStep h with
    | placed hchecks horders hcount =>
      -- an order is placed before the lock
      have hbefore := hchecks.beforeLock
      rw [hclock _ _ rfl] at hbefore
      exact absurd hlocked (not_le.mpr hbefore)
    | kept he horders hcount => exact ⟨map_orders_kept (fun _ => rfl) horders, hcount⟩

/-- Two lists with the same keys agree in what is determined by the key. -/
theorem map_eq_of_keys {α β κ γ : Type} {l : List α} {l' : List β} (key : α → κ) (key' : β → κ)
    {value : α → γ} {value' : β → γ} (hkeys : l.map key = l'.map key')
    (h : ∀ a ∈ l, ∀ b ∈ l', key a = key' b → value a = value' b) :
    l.map value = l'.map value' := by
  have hlength : l.length = l'.length := by
    have hlengths := congrArg List.length hkeys
    rwa [List.length_map, List.length_map] at hlengths
  refine List.ext_getElem (by rw [List.length_map, List.length_map, hlength]) ?_
  intro k hk hk'
  rw [List.length_map] at hk hk'
  have hkey := List.getElem_of_eq hkeys (by rw [List.length_map]; exact hk : k < _)
  rw [List.getElem_map, List.getElem_map] at hkey
  rw [List.getElem_map, List.getElem_map]
  exact h _ (List.getElem_mem hk) _ (List.getElem_mem hk') hkey

section

variable {CryptoKey Ciphertext : Type} {host : Host CryptoKey Ciphertext}
variable {s s' : Server Ciphertext} {log entered : List Entry} {share share' : CommitteeShare}

/-! ## The chain goes on -/

/-- Every market came about through its instructions. -/
def OnChain (host : Host CryptoKey Ciphertext) (markets : Pubkey → Option PrivateState) : Prop :=
  ∀ key market, markets key = some market →
    ∃ init tr, PrivatePool.Created init ∧ Run (PrivatePool.Step host.runtime) init tr market

/-- Markets of an earlier state are there, and time does not go back. -/
structure Later (s s' : Server Ciphertext) : Prop where
  clock : s.clock ≤ s'.clock
  markets : ∀ key market, s.markets key = some market →
    ∃ market', s'.markets key = some market' ∧ Grows s.clock market market'

theorem later_of_eq (hclock : s.clock ≤ s'.clock) (hmarkets : s'.markets = s.markets) :
    Later s s' := by
  refine ⟨hclock, ?_⟩
  intro key market h
  rw [hmarkets]
  exact ⟨market, h, .refl _ _⟩

theorem setMarket_self (key : Pubkey) (market : PrivateState) :
    (s.setMarket key market).markets key = some market :=
  Function.update_self _ _ _

theorem setMarket_of_ne {key other : Pubkey} {market : PrivateState} (h : other ≠ key) :
    (s.setMarket key market).markets other = s.markets other :=
  Function.update_of_ne h _ _

theorem later_setMarket {key : Pubkey} {market : PrivateState}
    (h : ∀ old, s.markets key = some old → Grows s.clock old market) :
    Later s (s.setMarket key market) := by
  refine ⟨le_rfl, ?_⟩
  intro other old hold
  by_cases heq : other = key
  · subst heq
    exact ⟨market, setMarket_self _ _, h old hold⟩
  · refine ⟨old, ?_, .refl _ _⟩
    rw [setMarket_of_ne heq]
    exact hold

theorem onChain_setMarket {key : Pubkey} {market : PrivateState} (h : OnChain host s.markets)
    (hmarket : ∃ init tr, PrivatePool.Created init ∧
      Run (PrivatePool.Step host.runtime) init tr market) :
    OnChain host (s.setMarket key market).markets := by
  intro other found hfound
  by_cases heq : other = key
  · subst heq
    rw [setMarket_self] at hfound
    rw [← Option.some.inj hfound]
    exact hmarket
  · rw [setMarket_of_ne heq] at hfound
    exact h other found hfound

/-! ## Shares of orders on chain -/

/-- The order of a share is on chain, with its index, its commitment and the commitment to the
share. -/
def Recorded (markets : Pubkey → Option PrivateState) (share : CommitteeShare) : Prop :=
  ∃ key market order, publicKey (String.ofList share.market) = .ok key ∧
    markets key = some market ∧ order ∈ market.orders ∧
    (order.orderIndex : Int) = share.orderIndex ∧
    fieldBytes share.orderCommitment = .ok order.commitment.toList ∧
    fieldBytes share.expectedShareCommitment =
      .ok (shareCommitmentOf order share.memberIndex).toList

theorem recorded_of_verified {markets : Pubkey → Option PrivateState}
    (h : verifyOnchainOrder markets share = .ok ()) : Recorded markets share := by
  simp only [verifyOnchainOrder, bind_eq_ok, require_eq_ok, exists_const, okOr_eq_ok] at h
  obtain ⟨key, hkey, commitment, hcommitment, -, order, horder, -, hindex, hsame, expected, hexpected,
    hshare⟩ := h
  obtain ⟨market, hmarket, hfound⟩ := Option.bind_eq_some_iff.mp horder
  refine ⟨key, market, order, hkey, hmarket, List.mem_of_find?_eq_some hfound, hindex, ?_, ?_⟩
  · rw [hcommitment, hsame]
  · rw [hexpected, hshare]

theorem Recorded.later (h : Recorded s.markets share) (hlater : Later s s') :
    Recorded s'.markets share := by
  obtain ⟨key, market, order, hkey, hmarket, horder, hindex, hcommitment, hshare⟩ := h
  obtain ⟨market', hmarket', hgrows⟩ := hlater.markets key market hmarket
  have hterms : orderTerms order ∈ market'.orders.map orderTerms :=
    hgrows.orders.subset (List.mem_map_of_mem horder)
  obtain ⟨order', horder', heq⟩ := List.mem_map.mp hterms
  simp only [orderTerms, Prod.mk.injEq] at heq
  obtain ⟨hi, hc, hs⟩ := heq
  refine ⟨key, market', order', hkey, hmarket', horder', ?_, ?_, ?_⟩
  · rw [hi, hindex]
  · rw [hc, hcommitment]
  · rw [hshare]
    cases hmember : share.memberIndex with
    | one => simp only [shareCommitmentOf, hs]
    | two => simp only [shareCommitmentOf, hs]
    | three => simp only [shareCommitmentOf, hs]

/-- A share that was posted and whose order is on chain. -/
structure Kept (log : List Entry) (s : Server Ciphertext) (share : CommitteeShare) : Prop where
  posted : .posted share ∈ log
  recorded : Recorded s.markets share

theorem Kept.later (h : Kept log s share) (hlater : Later s s') (entered : List Entry) :
    Kept (log ++ entered) s' share :=
  ⟨List.mem_append_left _ h.posted, h.recorded.later hlater⟩

/-- A text from which a process starts with kept shares only, if it starts. -/
def Verified (host : Host CryptoKey Ciphertext) (log : List Entry) (s : Server Ciphertext)
    (contents : StateFile Ciphertext) : Prop :=
  ∀ memory legacy, restore host (some contents) = .ok (memory, legacy) →
    ∀ share ∈ memory.member.shares, Kept log s share

theorem Verified.later {contents : StateFile Ciphertext} (h : Verified host log s contents)
    (hlater : Later s s') (entered : List Entry) :
    Verified host (log ++ entered) s' contents :=
  fun memory legacy hrestored share hshare =>
    (h memory legacy hrestored share hshare).later hlater entered

theorem verified_torn : Verified host log s .torn := by
  intro memory legacy hrestored
  cases hrestored

theorem verified_sealMemory (hopens : host.crypto.Opens) {memory : Memory}
    (hvalid : memory.Valid host) (hkept : ∀ share ∈ memory.member.shares, Kept log s share)
    (iv : String) : Verified host log s (sealMemory host memory iv) := by
  intro memory' legacy hrestored' share hshare
  obtain ⟨markets, hrestored⟩ := restore_sealMemory hopens hvalid iv
  rw [hrestored] at hrestored'
  cases hrestored'
  exact hkept share (hvalid.mem_snapshot.mp hshare)

def Stored (host : Host CryptoKey Ciphertext) (log : List Entry) (s : Server Ciphertext)
    (file : Option (File Ciphertext)) : Prop :=
  ∀ f, file = some f → Verified host log s f.contents

theorem stored_none : Stored host log s none := by
  intro f hf
  cases hf

theorem stored_some {f : File Ciphertext} (h : Verified host log s f.contents) :
    Stored host log s (some f) := by
  intro g hg
  rw [← Option.some.inj hg]
  exact h

theorem Stored.later {file : Option (File Ciphertext)} (h : Stored host log s file)
    (hlater : Later s s') (entered : List Entry) : Stored host (log ++ entered) s' file :=
  fun f hf => (h f hf).later hlater entered

/-- Whatever becomes of a text that a handler writes. -/
theorem Stored.write {file : Option (File Ciphertext)} {contents : StateFile Ciphertext}
    (h : Stored host log s file) (hcontents : Verified host log s contents) (handler : Nat)
    (intact : Bool) : Stored host log s (file.map (·.write handler contents intact)) := by
  intro f hf
  obtain ⟨g, hg, rfl⟩ := Option.map_eq_some_iff.mp hf
  rcases File.contents_write g handler contents intact with heq | heq | heq
  · rw [heq]
    exact h g hg
  · rw [heq]
    exact hcontents
  · rw [heq]
    exact verified_torn

/-- A process that starts from a stored file has kept shares. -/
theorem Stored.restored (h : Stored host log s s.file) {memory : Memory} {legacy : Bool}
    (hrestored : restore host s.stateFile = .ok (memory, legacy)) :
    ∀ share ∈ memory.member.shares, Kept log s share := by
  unfold Server.stateFile at hrestored
  cases hfile : s.file with
  | none =>
    rw [hfile] at hrestored
    cases hrestored
    exact fun share hshare => by cases hshare
  | some f =>
    rw [hfile] at hrestored
    exact h f hfile memory legacy hrestored

/-- What a handler carries across its awaits. -/
def HandlerSound (host : Host CryptoKey Ciphertext) (log : List Entry) (s : Server Ciphertext) :
    Handler Ciphertext → Prop
  | .findingOrder share => .posted share ∈ log
  | .findingTransaction share => Kept log s share
  | .fetchingMarket _ marketValue key => publicKey (String.ofList marketValue) = .ok key
  | .fetchedMarket _ marketValue key account =>
    publicKey (String.ofList marketValue) = .ok key ∧ ∀ fetched, account = some fetched →
      ∃ market, s.markets key = some market ∧ fetched.lockTs = market.market.lockTs
  | .persisting _ (.opening contents) => Verified host log s contents
  | .persisting _ (.writing contents) => Verified host log s contents
  | _ => True

theorem HandlerSound.later {handler : Handler Ciphertext} (h : HandlerSound host log s handler)
    (hlater : Later s s') (entered : List Entry) : HandlerSound host (log ++ entered) s' handler := by
  cases handler with
  | findingOrder share => exact List.mem_append_left _ h
  | findingTransaction share => exact Kept.later h hlater entered
  | fetchingMarket route marketValue key => exact h
  | fetchedMarket route marketValue key account =>
    refine ⟨h.1, fun fetched hfetched => ?_⟩
    obtain ⟨market, hmarket, hlock⟩ := h.2 fetched hfetched
    obtain ⟨market', hmarket', hgrows⟩ := hlater.markets key market hmarket
    exact ⟨market', hmarket', by rw [hlock, hgrows.lock]⟩
  | persisting change stage =>
    cases stage with
    | makingDirectory => trivial
    | opening contents => exact Verified.later h hlater entered
    | writing contents => exact Verified.later h hlater entered
    | moving => trivial
    | moved => trivial
  | responded response => trivial

/-- What every run keeps, however its handlers interleave. -/
structure Sound (host : Host CryptoKey Ciphertext) (log : List Entry) (s : Server Ciphertext) :
    Prop where
  chain : OnChain host s.markets
  valid : s.memory.Valid host
  held : ∀ share ∈ s.memory.member.shares, Kept log s share
  file : Stored host log s s.file
  temporary : Stored host log s s.temporary
  handlers : ∀ handler ∈ s.handlers, HandlerSound host log s handler

/-- It suffices that what a step makes new is sound. -/
theorem Sound.of_step (h : Sound host log s) (hlater : Later s s') (hchain : OnChain host s'.markets)
    (hvalid : s'.memory.Valid host)
    (hheld : ∀ share ∈ s'.memory.member.shares,
      share ∈ s.memory.member.shares ∨ Kept (log ++ entered) s' share)
    (hfile : s'.file = s.file ∨ Stored host (log ++ entered) s' s'.file)
    (htemporary : s'.temporary = s.temporary ∨ Stored host (log ++ entered) s' s'.temporary)
    (hhandlers : ∀ handler ∈ s'.handlers,
      handler ∈ s.handlers ∨ HandlerSound host (log ++ entered) s' handler) :
    Sound host (log ++ entered) s' := by
  constructor
  case chain => exact hchain
  case valid => exact hvalid
  case held =>
    intro share hshare
    rcases hheld share hshare with hold | hnew
    · exact (h.held share hold).later hlater entered
    · exact hnew
  case file =>
    rcases hfile with hsame | hnew
    · rw [hsame]
      exact h.file.later hlater entered
    · exact hnew
  case temporary =>
    rcases htemporary with hsame | hnew
    · rw [hsame]
      exact h.temporary.later hlater entered
    · exact hnew
  case handlers =>
    intro handler hhandler
    rcases hhandlers handler hhandler with hold | hnew
    · exact (h.handlers handler hold).later hlater entered
    · exact hnew

/-- Where one handler goes on, only what it goes on with is new. -/
theorem handlers_set {handlers : List (Handler Ciphertext)} {handler : Nat}
    {next : Handler Ciphertext} (hnext : HandlerSound host log s next) :
    ∀ other ∈ handlers.set handler next, other ∈ handlers ∨ HandlerSound host log s other := by
  intro other hother
  rcases List.mem_or_eq_of_mem_set hother with hold | rfl
  · exact .inl hold
  · exact .inr hnext

/-- A step of one handler that leaves the memory, the chain and the files. -/
theorem Sound.put (h : Sound host log s) {handler : Nat} {next : Handler Ciphertext}
    (hnext : HandlerSound host (log ++ entered) (s.put handler next) next) :
    Sound host (log ++ entered) (s.put handler next) :=
  h.of_step (later_of_eq le_rfl rfl) h.chain h.valid (fun _ => .inl) (.inl rfl) (.inl rfl)
    (handlers_set hnext)

theorem Sound.start (h : Sound host log s) {next : Handler Ciphertext}
    (hnext : HandlerSound host (log ++ entered) (s.start next) next) :
    Sound host (log ++ entered) (s.start next) := by
  refine h.of_step (later_of_eq le_rfl rfl) h.chain h.valid (fun _ => .inl) (.inl rfl) (.inl rfl) ?_
  intro other hother
  rcases List.mem_append.mp hother with hold | hnew
  · exact .inl hold
  · rw [List.mem_singleton] at hnew
    subst hnew
    exact .inr hnext

/-- Markets stay, and grow. -/
theorem later_of_step {a : Action} (hstep : Server.Step host s a s') : Later s s' := by
  have heffect := Server.step_effect hstep
  generalize Server.entries s a s' = entered at heffect
  cases heffect with
  | ticked hclock => exact later_of_eq hclock rfl
  | created hcreated hnew =>
    refine later_setMarket fun old hold => ?_
    rw [hnew] at hold
    cases hold
  | programmed hmarket hmoved hclock =>
    refine later_setMarket fun old hold => ?_
    rw [hmarket] at hold
    cases hold
    exact grows_step hmoved hclock
  | booted hrestored => exact later_of_eq le_rfl rfl
  | posted hstart => exact later_of_eq le_rfl rfl
  | requested hstart => exact later_of_eq le_rfl rfl
  | found hhandler hverified => exact later_of_eq le_rfl rfl
  | submitted hhandler hsubmit => exact later_of_eq le_rfl rfl
  | fetched hhandler => exact later_of_eq le_rfl rfl
  | answered hhandler hanswer => exact later_of_eq le_rfl rfl
  | cleared hhandler => exact later_of_eq le_rfl rfl
  | snapshotted hhandler => exact later_of_eq le_rfl rfl
  | opened hhandler => exact later_of_eq le_rfl rfl
  | wrote hhandler => exact later_of_eq le_rfl rfl
  | written hhandler => exact later_of_eq le_rfl rfl
  | renamed hhandler htemporary => exact later_of_eq le_rfl rfl
  | unmoved hhandler htemporary => exact later_of_eq le_rfl rfl
  | responded hhandler => exact later_of_eq le_rfl rfl
  | failed hhandler hidle => exact later_of_eq le_rfl rfl

/-- A process that starts again closes the files, and writes the file of an older version anew. -/
theorem Sound.started (hopens : host.crypto.Opens) (h : Sound host log s) {memory : Memory}
    {legacy : Bool} (hrestored : restore host s.stateFile = .ok (memory, legacy)) (iv : String) :
    Sound host (log ++ []) (s.started host memory legacy iv) := by
  have hlater : Later s (s.started host memory legacy iv) := later_of_eq le_rfl rfl
  have hkept : ∀ share ∈ memory.member.shares,
      Kept (log ++ []) (s.started host memory legacy iv) share :=
    fun share hshare => (h.file.restored hrestored share hshare).later hlater []
  have hclosed : ∀ {file : Option (File Ciphertext)}, Stored host log s file →
      Stored host (log ++ []) (s.started host memory legacy iv)
        (file.map fun file => { file with writers := [] }) := by
    intro file hstored f hf
    obtain ⟨g, hg, rfl⟩ := Option.map_eq_some_iff.mp hf
    exact (hstored g hg).later hlater []
  refine h.of_step hlater h.chain (restore_valid hrestored)
    (fun share hshare => .inr (hkept share hshare)) (.inr ?_) (.inr ?_) ?_
  · cases legacy with
    | false => exact hclosed h.file
    | true => exact stored_some (verified_sealMemory hopens (restore_valid hrestored) hkept iv)
  · cases legacy with
    | false => exact hclosed h.temporary
    | true => exact stored_none
  · intro handler hhandler
    cases hhandler

/-- **Every step keeps it.** -/
theorem sound_step {a : Action} (hopens : host.crypto.Opens) (h : Sound host log s)
    (hstep : Server.Step host s a s') : Sound host (log ++ Server.entries s a s') s' := by
  have hlater := later_of_step hstep
  have heffect := Server.step_effect hstep
  generalize Server.entries s a s' = entered at heffect ⊢
  cases heffect with
  | ticked hclock =>
    exact h.of_step hlater h.chain h.valid (fun _ => .inl) (.inl rfl) (.inl rfl) (fun _ => .inl)
  | @created _ _ _ _ _ _ market hcreated hnew =>
    have hchain : OnChain host (s.setMarket (market.marketKey host.runtime.toRuntime) market).markets :=
      onChain_setMarket h.chain ⟨market, [], ⟨_, _, _, _, _, _, _, hcreated⟩, .nil _⟩
    exact h.of_step hlater hchain h.valid (fun _ => .inl) (.inl rfl) (.inl rfl) (fun _ => .inl)
  | @programmed key market market' event hmarket hmoved hclock =>
    obtain ⟨init, tr, hinit, hrun⟩ := h.chain key market hmarket
    have hchain : OnChain host (s.setMarket key market').markets :=
      onChain_setMarket h.chain ⟨init, tr ++ [event], hinit, .snoc hrun hmoved⟩
    exact h.of_step hlater hchain h.valid (fun _ => .inl) (.inl rfl) (.inl rfl) (fun _ => .inl)
  | @booted iv memory legacy hrestored => exact h.started hopens hrestored iv
  | posted hstart =>
    refine h.start ?_
    rcases hstart with rfl | ⟨message, rfl⟩
    · exact List.mem_append_right _ List.mem_cons_self
    · trivial
  | requested hstart =>
    refine h.start ?_
    rcases hstart with ⟨market, hmarket, rfl⟩ | ⟨message, rfl⟩
    · exact hmarket
    · trivial
  | found hhandler hverified =>
    refine h.put ?_
    have hposted : .posted _ ∈ log := h.handlers _ (List.mem_of_getElem? hhandler)
    exact ⟨List.mem_append_left _ hposted, recorded_of_verified hverified⟩
  | @submitted handler share transaction m hhandler hsubmit =>
    have hkept : Kept log s share := h.handlers _ (List.mem_of_getElem? hhandler)
    refine h.of_step hlater h.chain (h.valid.submitted hsubmit) ?_ (.inl rfl) (.inl rfl)
      (handlers_set trivial)
    intro other hother
    rcases CommitteeMember.mem_submit hsubmit hother with hold | rfl
    · exact .inl hold
    · exact .inr (hkept.later hlater _)
  | @fetched handler route marketValue key hhandler =>
    refine h.put ⟨h.handlers _ (List.mem_of_getElem? hhandler), ?_⟩
    intro fetched hfetched
    obtain ⟨market, hmarket, rfl⟩ := Option.map_eq_some_iff.mp hfetched
    exact ⟨market, hmarket, rfl⟩
  | answered hhandler hanswer => exact h.put trivial
  | @cleared handler marketValue key account now removed hhandler =>
    exact h.of_step hlater h.chain (h.valid.cleared marketValue)
      (fun other hother => .inl (List.mem_filter.mp hother).1) (.inl rfl) (.inl rfl)
      (handlers_set trivial)
  | @snapshotted handler iv change hhandler =>
    exact h.put (verified_sealMemory hopens h.valid
      (fun share hshare => (h.held share hshare).later hlater []) iv)
  | @opened handler change contents hhandler =>
    have hcontents : Verified host log s contents := h.handlers _ (List.mem_of_getElem? hhandler)
    have hnext := hcontents.later hlater []
    exact h.of_step hlater h.chain h.valid (fun _ => .inl) (.inl rfl)
      (.inr (stored_some verified_torn)) (handlers_set hnext)
  | @wrote handler change contents hhandler =>
    exact h.of_step hlater h.chain h.valid (fun _ => .inl)
      (.inr ((h.file.write verified_torn handler false).later hlater []))
      (.inr ((h.temporary.write verified_torn handler false).later hlater [])) (fun _ => .inl)
  | @written handler change contents intact hhandler =>
    have hcontents : Verified host log s contents := h.handlers _ (List.mem_of_getElem? hhandler)
    exact h.of_step hlater h.chain h.valid (fun _ => .inl)
      (.inr ((h.file.write hcontents handler intact).later hlater []))
      (.inr ((h.temporary.write hcontents handler intact).later hlater [])) (handlers_set trivial)
  | @renamed handler change file hhandler htemporary =>
    have hstored : Stored host log s (some file) := htemporary ▸ h.temporary
    exact h.of_step hlater h.chain h.valid (fun _ => .inl) (.inr (hstored.later hlater []))
      (.inr stored_none) (handlers_set trivial)
  | unmoved hhandler htemporary => exact h.put trivial
  | responded hhandler => exact h.put trivial
  | failed hhandler hidle => exact h.put trivial

/-- The process was started for the first time, and there was no market yet. -/
structure FirstStarted (host : Host CryptoKey Ciphertext) (s : Server Ciphertext) : Prop where
  markets : ∀ key, s.markets key = none
  memory : s.memory = ⟨⟨host.memberIndex, []⟩, []⟩
  file : s.file = none
  temporary : s.temporary = none
  handlers : s.handlers = []

theorem sound_firstStarted (h : FirstStarted host s) : Sound host [] s := by
  constructor
  case chain =>
    intro key market hmarket
    rw [h.markets] at hmarket
    cases hmarket
  case valid =>
    rw [h.memory]
    exact ⟨rfl, CommitteeMember.wellFormed_new _ _, List.nodup_nil, fun share hshare => by cases hshare⟩
  case held =>
    intro share hshare
    rw [h.memory] at hshare
    cases hshare
  case file =>
    rw [h.file]
    exact stored_none
  case temporary =>
    rw [h.temporary]
    exact stored_none
  case handlers =>
    intro handler hhandler
    rw [h.handlers] at hhandler
    cases hhandler

theorem sound_run (hopens : host.crypto.Opens) {s₀ : Server Ciphertext} {tr : List Action}
    {x : Server Ciphertext × List Entry} (hfirst : FirstStarted host s₀)
    (hrun : Run (Run.Logged (Server.Step host) Server.entries) (s₀, []) tr x) : Sound host x.2 x.1 := by
  refine hrun.invariant (I := fun x => Sound host x.2 x.1) ?_ (sound_firstStarted hfirst)
  rintro x a y hsound ⟨hstep, hlog⟩
  rw [hlog]
  exact sound_step hopens hsound hstep

/-- **Only verified shares are kept**: whatever handlers overlap, and however often the process is
restarted, every share in memory was posted for an order on chain that commits to it, and so was every
share a process reads from the state file. -/
theorem only_verified_shares (hopens : host.crypto.Opens) {s₀ : Server Ciphertext}
    {tr : List Action} {x : Server Ciphertext × List Entry} (hfirst : FirstStarted host s₀)
    (hrun : Run (Run.Logged (Server.Step host) Server.entries) (s₀, []) tr x) :
    (∀ share ∈ x.1.memory.member.shares, Kept x.2 x.1 share) ∧
      ∀ memory legacy, restore host x.1.stateFile = .ok (memory, legacy) →
        ∀ share ∈ memory.member.shares, Kept x.2 x.1 share :=
  have hsound := sound_run hopens hfirst hrun
  ⟨hsound.held, fun _ _ hrestored => hsound.file.restored hrestored⟩

/-! ## Aggregates -/

/-- A handler that goes on after the lock, by the time of the process, goes on after the lock by the
time of the chain, with an account that counts the orders there are. -/
def fresh (s : Server Ciphertext) : Action → Bool
  | .resume handler now =>
    match s.handlers[handler]? with
    | some (.fetchedMarket .aggregate _ key (some account)) =>
      account.lockTs > now || (account.lockTs ≤ s.clock &&
        (s.markets key).all fun market => market.market.orderCount = account.orderCount)
    | _ => true
  | _ => true

/-- The time of the process is that of the chain. -/
def oneClock (s : Server Ciphertext) : Action → Bool
  | .resume _ now => now = s.clock
  | _ => true

/-- Shares whose commitments are equal have equal values. -/
def CollisionFree (host : Host CryptoKey Ciphertext) (log : List Entry) : Prop :=
  ∀ share share', .posted share ∈ log → .posted share' ∈ log →
    Checked host.runtime.poseidon host.memberIndex share →
    Checked host.runtime.poseidon host.memberIndex share' →
    share.expectedShareCommitment = share'.expectedShareCommitment →
      share.sideShare = share'.sideShare ∧ share.yesAmountShare = share'.yesAmountShare ∧
        share.totalAmountShare = share'.totalAmountShare

variable {a b : CommitteeAggregate} {key : Pubkey} {market : PrivateState}
  {shares shares' : List CommitteeShare}

/-- An answer sums kept shares, one for each order of a market that is locked. -/
structure Sums (host : Host CryptoKey Ciphertext) (log : List Entry) (s : Server Ciphertext)
    (a : CommitteeAggregate) (key : Pubkey) (market : PrivateState)
    (shares : List CommitteeShare) : Prop where
  address : publicKey (String.ofList a.market) = .ok key
  found : s.markets key = some market
  locked : market.market.lockTs ≤ s.clock
  indices : shares.map (·.orderIndex) =
    (List.range market.market.orderCount).map fun i : Nat => (i : Int)
  checked : ∀ share ∈ shares, share.market = a.market ∧
    Checked host.runtime.poseidon host.memberIndex share ∧ Kept log s share
  total : shares.foldl CommitteeMember.addShare
    (CommitteeMember.noShares a.market host.memberIndex) = a

theorem Sums.later (h : Sums host log s a key market shares) (hlater : Later s s')
    (entered : List Entry) : ∃ market', Sums host (log ++ entered) s' a key market' shares := by
  obtain ⟨market', hmarket', hgrows⟩ := hlater.markets key market h.found
  obtain ⟨-, hcount⟩ := hgrows.locked h.locked
  refine ⟨market', h.address, hmarket', ?_, ?_, ?_, h.total⟩
  · rw [hgrows.lock]
    exact h.locked.trans hlater.clock
  · rw [hcount]
    exact h.indices
  · intro share hshare
    obtain ⟨hmarket, hchecked, hkept⟩ := h.checked share hshare
    exact ⟨hmarket, hchecked, hkept.later hlater entered⟩

/-- What an answer of an aggregate says of the account it was given for. -/
theorem answerAggregate_aggregate {m : CommitteeMember} {marketValue : List Char}
    {account : Option Market} {now : Int}
    (h : answerAggregate m marketValue account now = .ok (.aggregate a)) :
    ∃ fetched, account = some fetched ∧ fetched.lockTs ≤ now ∧ m.aggregate marketValue = .ok a ∧
      a.orderCount = fetched.orderCount := by
  obtain ⟨fetched, hfetched, h⟩ := bind_eq_ok.mp h
  obtain ⟨-, -, h⟩ := bind_eq_ok.mp h
  obtain ⟨lockTs, hlock, h⟩ := bind_eq_ok.mp h
  obtain ⟨-, -, hlock⟩ := bind_eq_ok.mp hlock
  obtain rfl := Except.ok.inj hlock
  obtain ⟨_, hlocked, h⟩ := bind_eq_ok.mp h
  dsimp only at h
  split at h
  · cases h
  · obtain ⟨aggregate, haggregate, h⟩ := bind_eq_ok.mp h
    obtain ⟨_, hcount, h⟩ := bind_eq_ok.mp h
    cases h
    exact ⟨fetched, okOr_eq_ok.mp hfetched, require_eq_ok.mp hlocked, haggregate,
      require_eq_ok.mp hcount⟩

/-- A handler that goes on with a fresh account answers the sum over all orders. -/
theorem sums_of_answered (hsound : Sound host log s) {handler : Nat} {marketValue : List Char}
    {account : Option Market} {now : Int}
    (hhandler : s.handlers[handler]? = some (.fetchedMarket .aggregate marketValue key account))
    (hfresh : fresh s (.resume handler now) = true)
    (hanswer : answerAggregate s.memory.member marketValue account now = .ok (.aggregate a)) :
    ∃ market, Sums host log s a key market (s.memory.member.snapshot marketValue) := by
  obtain ⟨fetched, rfl, hlocked, haggregate, hcount⟩ := answerAggregate_aggregate hanswer
  obtain ⟨hkey, hfetched⟩ := hsound.handlers _ (List.mem_of_getElem? hhandler)
  obtain ⟨market, hmarket, hlock⟩ := hfetched fetched rfl
  obtain ⟨-, hsuccessive, htotal⟩ := CommitteeMember.aggregate_eq_ok.mp haggregate
  obtain ⟨hvalue, -, hadds⟩ := CommitteeMember.addsUp_of_aggregate haggregate
  simp only [fresh, hhandler, hmarket, Option.all_some, Bool.or_eq_true, Bool.and_eq_true,
    decide_eq_true_eq] at hfresh
  obtain ⟨hclock, hnow⟩ := hfresh.resolve_left (not_lt.mpr hlocked)
  refine ⟨market, ?_, hmarket, hlock ▸ hclock, ?_, ?_, ?_⟩
  · rw [hvalue]
    exact hkey
  · rw [hsuccessive, hnow, ← hcount, hadds.orderCount, List.range_eq_range']
  · intro share hshare
    obtain ⟨hheld, hshareMarket⟩ := CommitteeMember.mem_snapshot.mp hshare
    refine ⟨by rw [hvalue, hshareMarket], ?_, hsound.held share hheld⟩
    rw [← hsound.valid.memberIndex]
    exact hsound.valid.wellFormed.checked share hheld
  · rw [hvalue, ← hsound.valid.memberIndex]
    exact htotal

/-- Every answer so far is such a sum. -/
def Answered (host : Host CryptoKey Ciphertext) (log : List Entry) (s : Server Ciphertext) : Prop :=
  ∀ a, .answered a ∈ log → ∃ key market shares, Sums host log s a key market shares

/-- A step under the condition keeps the answers, and makes one that sums all orders. -/
theorem answered_step {a : Action} (hsound : Sound host log s) (h : Answered host log s)
    (hfresh : fresh s a = true) (hstep : Server.Step host s a s') :
    Answered host (log ++ Server.entries s a s') s' := by
  have hlater : Later s s' := later_of_step hstep
  have heffect := Server.step_effect hstep
  intro aggregate haggregate
  rcases List.mem_append.mp haggregate with hold | hnew
  · obtain ⟨key, market, shares, hsums⟩ := h aggregate hold
    obtain ⟨market', hsums'⟩ := hsums.later hlater (Server.entries s a s')
    exact ⟨key, market', shares, hsums'⟩
  · generalize Server.entries s a s' = entered at heffect hnew ⊢
    cases heffect with
    | @answered handler marketValue key account now response hhandler hanswer =>
      unfold Response.entries at hnew
      split at hnew
      · rw [List.mem_singleton] at hnew
        cases hnew
        obtain ⟨market, hsums⟩ := sums_of_answered hsound hhandler hfresh hanswer
        obtain ⟨market', hsums'⟩ := hsums.later hlater [.answered aggregate]
        exact ⟨key, market', _, hsums'⟩
      · cases hnew
    | posted hstart => simp at hnew
    | submitted hhandler hsubmit => simp at hnew
    | cleared hhandler => simp at hnew
    | @responded handler change hhandler =>
      rw [List.mem_singleton] at hnew
      cases change <;> cases hnew
    | ticked hclock => cases hnew
    | created hcreated hnone => cases hnew
    | programmed hmarket hmoved hclock => cases hnew
    | booted hrestored => cases hnew
    | requested hstart => cases hnew
    | found hhandler hverified => cases hnew
    | fetched hhandler => cases hnew
    | snapshotted hhandler => cases hnew
    | opened hhandler => cases hnew
    | wrote hhandler => cases hnew
    | written hhandler => cases hnew
    | renamed hhandler htemporary => cases hnew
    | unmoved hhandler htemporary => cases hnew
    | failed hhandler hidle => cases hnew

/-! ## Answers agree -/

theorem ofBeBytes_fieldBytes {value : Int} {bytes : List UInt8} (hvalue : inField value = true)
    (h : fieldBytes value = .ok bytes) : value = ofBeBytes bytes := by
  obtain ⟨hnonneg, hlt⟩ := inField_iff.mp hvalue
  obtain ⟨-, -, h⟩ := bind_eq_ok.mp h
  have hfits : value.toNat < 256 ^ 32 := by
    have hmodulus : scalarModulus < 256 ^ 32 := by decide
    omega
  dsimp only at h
  rw [if_pos hfits] at h
  cases h
  rw [ofBeBytes_beBytes hfits, Int.toNat_of_nonneg hnonneg]

/-- Two orders of a market with one index are one order. -/
theorem order_unique (hchain : OnChain host s.markets) (hmarket : s.markets key = some market)
    {order order' : Order} (horder : order ∈ market.orders) (horder' : order' ∈ market.orders)
    (h : order.orderIndex = order'.orderIndex) : order = order' := by
  obtain ⟨init, tr, hinit, hrun⟩ := hchain key market hmarket
  have hindices := (PrivatePool.numbered_run hinit hrun).indices
  have hnodup : (market.orders.map (·.orderIndex)).Nodup := by
    rw [hindices]
    exact List.nodup_range
  exact List.inj_on_of_nodup_map hnodup horder horder' h

/-- The order of a kept share, in the market of an answer. -/
theorem Sums.order (h : Sums host log s a key market shares) (hshare : share ∈ shares) :
    ∃ order ∈ market.orders, (order.orderIndex : Int) = share.orderIndex ∧
      share.orderCommitment = ofBeBytes order.commitment.toList ∧
      share.expectedShareCommitment = ofBeBytes (shareCommitmentOf order host.memberIndex).toList := by
  obtain ⟨hmarket, hchecked, -, key', market', order, hkey, hfound, horder, hindex, hcommitment,
    hexpected⟩ := h.checked share hshare
  have hsame : key' = key := by
    rw [hmarket, h.address] at hkey
    exact (Except.ok.inj hkey).symm
  rw [hsame, h.found] at hfound
  cases hfound
  have hfields := hchecked.fields
  simp only [CommitteeShare.fieldValues, List.forall_mem_cons] at hfields
  obtain ⟨hfield, -, -, -, -, hexpectedField, -⟩ := hfields
  refine ⟨order, horder, hindex, ofBeBytes_fieldBytes hfield hcommitment, ?_⟩
  rw [← hchecked.member]
  exact ofBeBytes_fieldBytes hexpectedField hexpected

/-- **An answer covers every order of its market.** -/
theorem Sums.covers (hchain : OnChain host s.markets) (h : Sums host log s a key market shares) :
    a.orderCommitments = orderLeaves market := by
  obtain ⟨init, tr, hinit, hrun⟩ := hchain key market h.found
  have hadds : CommitteeMember.AddsUp shares a := by
    rw [← h.total]
    exact (CommitteeMember.addsUp_noShares a.market host.memberIndex).foldl
  rw [hadds.orderCommitments, orderLeaves]
  refine map_eq_of_keys (·.orderIndex) (fun order : Order => (order.orderIndex : Int)) ?_ ?_
  · rw [h.indices, ← (PrivatePool.numbered_run hinit hrun).indices, List.map_map]
    rfl
  · intro share hshare order horder hindex
    obtain ⟨order', horder', hindex', hcommitment, -⟩ := h.order hshare
    rw [← hindex', Int.ofNat_inj] at hindex
    rw [hcommitment, order_unique hchain h.found horder' horder hindex]
    rfl

/-- What a share adds to an aggregate. -/
def addend (share : CommitteeShare) : Int × Int × Int × Int :=
  (share.orderCommitment, share.sideShare, share.yesAmountShare, share.totalAmountShare)

theorem foldl_addShare_congr {l l' : List CommitteeShare} (h : l.map addend = l'.map addend) :
    ∀ totals, l.foldl CommitteeMember.addShare totals = l'.foldl CommitteeMember.addShare totals := by
  induction l generalizing l' with
  | nil =>
    intro totals
    rw [List.map_nil, eq_comm, List.map_eq_nil_iff] at h
    rw [h]
  | cons share rest ih =>
    intro totals
    rw [List.map_cons, eq_comm, List.map_eq_cons_iff] at h
    obtain ⟨share', rest', rfl, hhead, hrest⟩ := h
    simp only [addend, Prod.mk.injEq] at hhead
    obtain ⟨hcommitment, hside, hyes, htotal⟩ := hhead
    have hadded : CommitteeMember.addShare totals share = CommitteeMember.addShare totals share' := by
      rw [CommitteeMember.addShare, CommitteeMember.addShare, hcommitment, hside, hyes, htotal]
    rw [List.foldl_cons, List.foldl_cons, hadded]
    exact ih hrest.symm _

/-- **Two answers for one market are equal.** -/
theorem Sums.unique (hchain : OnChain host s.markets) (hfree : CollisionFree host log)
    (h : Sums host log s a key market shares) {market' : PrivateState}
    (h' : Sums host log s b key market' shares') : a = b := by
  have hmarket : a.market = b.market :=
    String.ofList_injective (publicKey_injective h.address h'.address)
  have hsame : market' = market := Option.some.inj (h'.found.symm.trans h.found)
  subst hsame
  rw [← h.total, ← h'.total, hmarket]
  refine foldl_addShare_congr ?_ _
  refine map_eq_of_keys (·.orderIndex) (·.orderIndex) (h.indices.trans h'.indices.symm) ?_
  intro share hshare share' hshare' hindex
  obtain ⟨order, horder, hi, hcommitment, hexpected⟩ := h.order hshare
  obtain ⟨order', horder', hi', hcommitment', hexpected'⟩ := h'.order hshare'
  have hone : order = order' := by
    refine order_unique hchain h.found horder horder' ?_
    rw [← Int.ofNat_inj, hi, hi', hindex]
  subst hone
  obtain ⟨-, hchecked, hkept⟩ := h.checked share hshare
  obtain ⟨-, hchecked', hkept'⟩ := h'.checked share' hshare'
  obtain ⟨hside, hyes, htotal⟩ := hfree share share' hkept.posted hkept'.posted hchecked hchecked'
    (hexpected.trans hexpected'.symm)
  rw [addend, addend, hcommitment, hcommitment', hside, hyes, htotal]

/-- Every answer covers the orders there are, and the answers for one market are equal. -/
structure Agreed (host : Host CryptoKey Ciphertext) (log : List Entry) (s : Server Ciphertext) :
    Prop where
  covers : ∀ a, .answered a ∈ log → ∃ key market, publicKey (String.ofList a.market) = .ok key ∧
    s.markets key = some market ∧ a.orderCommitments = orderLeaves market
  single : ∀ a b key, .answered a ∈ log → .answered b ∈ log →
    publicKey (String.ofList a.market) = .ok key → publicKey (String.ofList b.market) = .ok key → a = b

theorem agreed_of_answered (hchain : OnChain host s.markets) (hfree : CollisionFree host log)
    (h : Answered host log s) : Agreed host log s := by
  constructor
  case covers =>
    intro a ha
    obtain ⟨key, market, shares, hsums⟩ := h a ha
    exact ⟨key, market, hsums.address, hsums.found, hsums.covers hchain⟩
  case single =>
    intro a b key ha hb hkey hkey'
    obtain ⟨keyA, market, shares, hsums⟩ := h a ha
    obtain ⟨keyB, market', shares', hsums'⟩ := h b hb
    have hA : keyA = key := Except.ok.inj (hsums.address.symm.trans hkey)
    have hB : keyB = key := Except.ok.inj (hsums'.address.symm.trans hkey')
    subst hA
    subst hB
    exact hsums.unique hchain hfree hsums'

/-- **A member's aggregates of a market agree**, and cover every order the market has at any time,
wherever every handler that goes on after the lock does so after the lock on chain, with a fresh
account. -/
theorem aggregates_agree (hopens : host.crypto.Opens) {s₀ : Server Ciphertext} {tr : List Action}
    {x : Server Ciphertext × List Entry} (hfirst : FirstStarted host s₀)
    (hfree : CollisionFree host x.2)
    (hfresh : Run.EveryStep (Run.Logged (Server.Step host) Server.entries)
      (fun x a => fresh x.1 a = true) (s₀, []) tr x) :
    Run.Throughout (Run.Logged (Server.Step host) Server.entries)
      (fun x => Agreed host x.2 x.1) (s₀, []) tr x := by
  have hinvariant : Run.Throughout (Run.Logged (Server.Step host) Server.entries)
      (fun x => Sound host x.2 x.1 ∧ Answered host x.2 x.1) (s₀, []) tr x := by
    refine hfresh.throughout ⟨sound_firstStarted hfirst, ?_⟩ ?_
    · intro a ha
      cases ha
    · rintro x a y hfresh ⟨hsound, hanswered⟩ ⟨hstep, hlog⟩
      rw [hlog]
      exact ⟨sound_step hopens hsound hstep, answered_step hsound hanswered hfresh hstep⟩
  intro tr₁ y tr₂ htr hy hrest
  obtain ⟨hsound, hanswered⟩ := hinvariant tr₁ y tr₂ htr hy hrest
  have hgrown := Run.log_prefix hrest
  refine agreed_of_answered hsound.chain ?_ hanswered
  intro share share' hposted hposted'
  exact hfree share share' (hgrown.subset hposted) (hgrown.subset hposted')

end

/-! ### Four orders, and a fifth -/

namespace Sample

/-- The snapshot of a market. It evaluates where the shares came in the sequence of the orders. -/
def sorted (m : CommitteeMember) (market : List Char) : List CommitteeShare :=
  let held := m.shares.filter fun share => share.market = market
  if held.Pairwise fun left right => left.orderIndex ≤ right.orderIndex then held
  else m.snapshot market

theorem snapshot_eq_sorted (m : CommitteeMember) (market : List Char) :
    m.snapshot market = sorted m market := by
  unfold sorted
  dsimp only
  split
  · next hsorted =>
    exact List.mergeSort_of_pairwise (hsorted.imp fun h => decide_eq_true h)
  · rfl

/-- What the handler answers for a snapshot. -/
def answerOf (m : CommitteeMember) (snapshot : List CommitteeShare) (marketValue : List Char)
    (account : Option Market) (now : Int) : Except String Response := do
  let market ← okOr account "Onchain market account was not found"
  require (market.phase = .open) "Market is not open for batching"
  let lockTs ← toNumber market.lockTs
  require (lockTs ≤ now) "Market is not locked yet"
  if snapshot.length < Client.minPrivateBatchOrders then .ok (.insufficientPrivacySet snapshot.length)
  else do
    require (Client.minPrivateBatchOrders ≤ snapshot.length) "private batches require at least 4 orders"
    let aggregate ← CommitteeMember.addShares (CommitteeMember.noShares marketValue m.memberIndex)
      snapshot
    require (aggregate.orderCount = market.orderCount)
      "Committee member is missing accepted orders"
    .ok (.aggregate aggregate)

theorem answerAggregate_eq (m : CommitteeMember) (marketValue : List Char) (account : Option Market)
    (now : Int) :
    answerAggregate m marketValue account now =
      answerOf m (sorted m marketValue) marketValue account now := by
  rw [← snapshot_eq_sorted]
  simp only [answerAggregate, answerOf, CommitteeMember.aggregate, CommitteeMember.noShares,
    bind_assoc]

/-- The step, with snapshots that evaluate. -/
def stepSorted (s : Server (Nat × String × String × Json)) (a : Action) :
    Option (Server (Nat × String × String × Json)) :=
  match a with
  | .resume handler now =>
    match s.handlers[handler]? with
    | some (.fetchedMarket .aggregate marketValue _ account) =>
      some (s.put handler (Server.caught (do
        let response ← answerOf s.memory.member (sorted s.memory.member marketValue) marketValue
          account now
        .ok (.responded response))))
    | some (.fetchedMarket .purge marketValue _ account) =>
      some (s.purge handler marketValue account now)
    | _ => none
  | a => s.step host a

theorem step_eq : Server.step host = stepSorted := by
  funext s a
  cases a with
  | resume handler now =>
    simp only [Server.step, stepSorted, answerAggregate_eq]
    cases s.handlers[handler]? with
    | none => rfl
    | some h =>
      cases h with
      | fetchedMarket route marketValue market account =>
        cases route with
        | aggregate => rfl
        | purge => rfl
      | _ => rfl
  | _ => rfl

theorem first_started : FirstStarted host before where
  markets _ := rfl
  memory := rfl
  file := rfl
  temporary := rfl
  handlers := rfl

def asking (handler : Nat) : List Action :=
  [.request .aggregate marketValue, .marketFetched handler, .resume handler 1000]

def fourPosted : List Action :=
  placing 4 ++ posting 0 0 ++ posting 1 1 ++ posting 2 2 ++ posting 3 3

/-- The market is locked before the member is asked. -/
def askedAfterLock : List Action := fourPosted ++ [.tick 1000] ++ asking 4

/-- The fifth order lands between the account and the clock, and the member is asked again. -/
def askedAcrossLock : List Action :=
  fourPosted ++ [.request .aggregate marketValue, .marketFetched 4,
    .program marketKey (.call (place 4) 10), .tick 1000, .resume 4 1000] ++ posting 5 4 ++ asking 6

/-- Whether all shares that were posted have the values of the first. -/
def postsAlike (log : List Entry) : Bool :=
  log.all fun entry => match entry with
    | .posted other => other.sideShare = (share 0).sideShare &&
        other.yesAmountShare = (share 0).yesAmountShare &&
        other.totalAmountShare = (share 0).totalAmountShare
    | _ => true

def answersOf (log : List Entry) : List CommitteeAggregate :=
  log.filterMap fun entry => match entry with
    | .answered a => some a
    | _ => none

theorem mem_of_answersOf {log : List Entry} {a : CommitteeAggregate} (h : a ∈ answersOf log) :
    .answered a ∈ log := by
  obtain ⟨entry, hentry, heq⟩ := List.mem_filterMap.mp h
  split at heq
  · cases heq
    exact hentry
  · cases heq

theorem collisionFree_of_postsAlike {log : List Entry} (h : postsAlike log = true) :
    CollisionFree host log := by
  have hvalues : ∀ other, .posted other ∈ log → other.sideShare = (share 0).sideShare ∧
      other.yesAmountShare = (share 0).yesAmountShare ∧
        other.totalAmountShare = (share 0).totalAmountShare := by
    intro other hother
    have hentry := List.all_eq_true.mp h _ hother
    simpa only [Bool.and_eq_true, decide_eq_true_eq, and_assoc] using hentry
  intro first second hfirst hsecond _ _ _
  obtain ⟨hside, hyes, htotal⟩ := hvalues first hfirst
  obtain ⟨hside', hyes', htotal'⟩ := hvalues second hsecond
  exact ⟨hside.trans hside'.symm, hyes.trans hyes'.symm, htotal.trans htotal'.symm⟩

theorem answers_after_lock : (askedAfterLock.foldlM (fun x a => if fresh x.1 a then
      Run.logStep (Server.step host) Server.entries x a else none) (before, [])).map
    (fun x => postsAlike x.2 && (answersOf x.2).length == 1) = some true := by
  rw [step_eq]
  decide +kernel

theorem answers_across_lock : (askedAcrossLock.foldlM (fun x a => if oneClock x.1 a then
      Run.logStep (Server.step host) Server.entries x a else none) (before, [])).map
      (fun x => postsAlike x.2 && (answersOf x.2).map (fun a => (a.market, a.orderCount)) ==
        [(marketValue, 4), (marketValue, 5)]) = some true := by
  rw [step_eq]
  decide +kernel

end Sample

open Nortia.Services.CommitteeServer.Sample in
/-- The member is asked once the market is locked. -/
theorem aggregates_agree_sample : ∃ x : Server (Nat × String × String × Json) × List Entry,
    Run (Run.Logged (Server.Step host) Server.entries) (before, []) askedAfterLock x ∧
      (answersOf x.2).length = 1 ∧
        Run.Throughout (Run.Logged (Server.Step host) Server.entries)
          (fun x => Agreed host x.2 x.1) (before, []) askedAfterLock x := by
  obtain ⟨x, hx, hlog⟩ := Option.map_eq_some_iff.mp answers_after_lock
  rw [Bool.and_eq_true, beq_iff_eq] at hlog
  obtain ⟨hrun, hfresh⟩ := Run.everyStep_of_foldlM hx
  rw [Run.logStep_eq] at hrun hfresh
  exact ⟨x, hrun, hlog.2, aggregates_agree Web.Sample.crypto_opens first_started
    (collisionFree_of_postsAlike hlog.1) hfresh⟩

open Nortia.Services.CommitteeServer.Sample in
/-- A member that read the account before the lock, and the clock after it, answers without the
fifth order, and with it later. -/
theorem aggregates_differ : ∃ (tr : List Action)
    (x : Server (Nat × String × String × Json) × List Entry), FirstStarted host before ∧
    Run (Run.Logged (Server.Step host) Server.entries) (before, []) tr x ∧
    Run.EveryStep (Run.Logged (Server.Step host) Server.entries)
      (fun x a => oneClock x.1 a = true) (before, []) tr x ∧
      CollisionFree host x.2 ∧ ∃ a b, .answered a ∈ x.2 ∧ .answered b ∈ x.2 ∧
        a.market = b.market ∧ a.orderCount = 4 ∧ b.orderCount = 5 := by
  obtain ⟨x, hx, hlog⟩ := Option.map_eq_some_iff.mp answers_across_lock
  rw [Bool.and_eq_true, beq_iff_eq] at hlog
  obtain ⟨hrun, hclock⟩ := Run.everyStep_of_foldlM hx
  rw [Run.logStep_eq] at hrun hclock
  obtain ⟨a, rest, hanswers, hfour, hrest⟩ := List.map_eq_cons_iff.mp hlog.2
  obtain ⟨b, last, rfl, hfive, -⟩ := List.map_eq_cons_iff.mp hrest
  rw [Prod.mk.injEq] at hfour hfive
  refine ⟨askedAcrossLock, x, first_started, hrun, hclock, collisionFree_of_postsAlike hlog.1, a, b, ?_, ?_,
    hfour.1.trans hfive.1.symm, hfour.2, hfive.2⟩
  · exact mem_of_answersOf (by rw [hanswers]; exact List.mem_cons_self)
  · exact mem_of_answersOf (by rw [hanswers]; exact List.mem_cons_of_mem _ List.mem_cons_self)

open Nortia.Services.CommitteeServer.Sample in
/-- What is kept in the run with the fifth order. -/
theorem only_verified_shares_sample : ∃ x : Server (Nat × String × String × Json) × List Entry,
    Run (Run.Logged (Server.Step host) Server.entries) (before, []) askedAcrossLock x ∧
      (∀ share ∈ x.1.memory.member.shares, Kept x.2 x.1 share) ∧
        ∀ memory legacy, restore host x.1.stateFile = .ok (memory, legacy) →
          ∀ share ∈ memory.member.shares, Kept x.2 x.1 share := by
  obtain ⟨x, hx, -⟩ := Option.map_eq_some_iff.mp answers_across_lock
  obtain ⟨hrun, -⟩ := Run.everyStep_of_foldlM hx
  rw [Run.logStep_eq] at hrun
  exact ⟨x, hrun, only_verified_shares Web.Sample.crypto_opens first_started hrun⟩

end Nortia.Services.CommitteeServer
