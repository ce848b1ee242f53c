import Nortia.Services.CommitteeServer
import Nortia.Verify.Committee.Members
import Nortia.Verify.Committee.Reconstruction
import Nortia.Verify.Positions.Vault

/-!
# The service of a committee member

What is stored reads as the shares that were held, and what one step of the service does.
-/

namespace Nortia.Services.CommitteeServer

open Lib Client
open Web (SubtleCrypto)
open PrivatePool (PrivateState)

section

variable {CryptoKey Ciphertext : Type} {host : Host CryptoKey Ciphertext}
variable {memory : Memory} {share input : CommitteeShare} {market : List Char} {iv : String}

/-! ## Shares as JSON -/

theorem integerField_int {value : Json} {name : String} {n : Int}
    (h : value.field name = some (.number n)) : integerField value name = some n := by
  rw [integerField, h]
  rfl

theorem bigIntField_toString (value : Json) (name : String) {n : Int} (hn : inField n = true)
    (h : value.field name = some (.string (toString n))) : bigIntField value name = some n := by
  obtain ⟨hnonneg, -⟩ := inField_iff.mp hn
  obtain ⟨k, rfl⟩ := Int.eq_ofNat_of_zero_le hnonneg
  have htext : value.stringField name = some (toString (k : Int)) := by
    rw [Json.stringField, h]
    rfl
  rw [bigIntField, htext]
  exact BigInt.parse_repr k

theorem memberIndexField_encode (share : CommitteeShare) :
    memberIndexField (encode share) = some share.memberIndex := by
  have hindex : integerField (encode share) "memberIndex" =
      some (share.memberIndex.index : Int) :=
    integerField_int (by rw [Int.cast_natCast]; rfl)
  rw [memberIndexField, hindex]
  cases share.memberIndex with
  | one => rfl
  | two => rfl
  | three => rfl

/-- **A share reads as itself.** -/
theorem decode_encode (h : ∀ entry ∈ share.fieldValues, inField entry.2 = true) :
    decode (encode share) = some share := by
  simp only [CommitteeShare.fieldValues, List.forall_mem_cons] at h
  obtain ⟨horder, hside, hyes, htotal, hsalt, hexpected, -⟩ := h
  have hindex : integerField (encode share) "orderIndex" = some share.orderIndex :=
    integerField_int rfl
  have hmarket : (encode share).stringField "market" = some (String.ofList share.market) := rfl
  have hsignature : (encode share).stringField "placementSignature" =
      some (String.ofList share.placementSignature) := rfl
  simp only [decode, hmarket, hindex, memberIndexField_encode, hsignature,
    bigIntField_toString (encode share) "orderCommitment" horder rfl,
    bigIntField_toString (encode share) "sideShare" hside rfl,
    bigIntField_toString (encode share) "yesAmountShare" hyes rfl,
    bigIntField_toString (encode share) "totalAmountShare" htotal rfl,
    bigIntField_toString (encode share) "salt" hsalt rfl,
    bigIntField_toString (encode share) "expectedShareCommitment" hexpected rfl,
    Option.bind_eq_bind, Option.bind_some, String.toList_ofList]

/-! ## What is stored and restored -/

/-- Memory as submissions and purges leave it: every market with a share is listed, once. -/
structure Memory.Valid (host : Host CryptoKey Ciphertext) (memory : Memory) : Prop where
  memberIndex : memory.member.memberIndex = host.memberIndex
  wellFormed : CommitteeMember.WellFormed host.runtime.poseidon memory.member
  markets : memory.allMarkets.Nodup
  covers : ∀ share ∈ memory.member.shares, share.market ∈ memory.allMarkets

theorem mem_addMarket {markets : List (List Char)} {other : List Char} :
    other ∈ addMarket markets market ↔ other ∈ markets ∨ other = market := by
  unfold addMarket
  split
  · next hmem =>
    constructor
    · exact .inl
    · rintro (h | rfl)
      · exact h
      · exact hmem
  · rw [List.mem_append, List.mem_singleton]

theorem nodup_addMarket {markets : List (List Char)} (h : markets.Nodup) :
    (addMarket markets market).Nodup := by
  unfold addMarket
  split
  · exact h
  · next hnew =>
    rw [List.nodup_append]
    refine ⟨h, List.nodup_singleton _, ?_⟩
    rintro a ha b hb rfl
    rw [List.mem_singleton] at hb
    exact hnew (hb ▸ ha)

/-- A snapshot of all markets has the shares of the member. -/
theorem Memory.Valid.mem_snapshot (h : memory.Valid host) :
    share ∈ memory.snapshot ↔ share ∈ memory.member.shares := by
  rw [Memory.snapshot, List.mem_flatMap]
  constructor
  · rintro ⟨market, -, hshare⟩
    exact (CommitteeMember.mem_snapshot.mp hshare).1
  · intro hshare
    exact ⟨share.market, h.covers share hshare, CommitteeMember.mem_snapshot.mpr ⟨hshare, rfl⟩⟩

theorem Memory.Valid.snapshot_keys (h : memory.Valid host) :
    (memory.snapshot.map CommitteeShare.key).Nodup := by
  rw [Memory.snapshot, List.map_flatMap, List.nodup_flatMap]
  constructor
  · intro market _
    refine ((List.mergeSort_perm _ _).map _).nodup_iff.mpr ?_
    exact h.wellFormed.keys.sublist (List.filter_sublist.map _)
  · refine h.markets.imp ?_
    -- the keys of two markets differ in the market
    intro market other hne key hkey hother
    obtain ⟨share, hshare, rfl⟩ := List.mem_map.mp hkey
    obtain ⟨share', hshare', heq⟩ := List.mem_map.mp hother
    refine hne ?_
    rw [← (CommitteeMember.mem_snapshot.mp hshare).2, ← (CommitteeMember.mem_snapshot.mp hshare').2]
    exact (congrArg Prod.fst heq).symm

/-- Shares that were held are taken back one after another. -/
theorem foldlM_restoreShare : ∀ {shares : List CommitteeShare} {m : CommitteeMember},
    (∀ share ∈ shares, Checked host.runtime.poseidon m.memberIndex share) →
    ((m.shares ++ shares).map CommitteeShare.key).Nodup →
      (shares.map encode).foldlM (restoreShare host) m =
        .ok { m with shares := m.shares ++ shares } := by
  intro shares
  induction shares with
  | nil =>
    intro m _ _
    rw [List.append_nil]
    rfl
  | cons share rest ih =>
    intro m hchecked hkeys
    rw [List.forall_mem_cons] at hchecked
    have hnew : m.share? share.market share.orderIndex = none := by
      rw [CommitteeMember.share?_eq_find, Keyed.find_eq_none]
      intro other hother heq
      rw [List.map_append, List.map_cons, List.nodup_append] at hkeys
      exact hkeys.2.2 _ (List.mem_map_of_mem hother) _ List.mem_cons_self heq
    have hsubmit : restoreShare host m (encode share) =
        .ok { m with shares := m.shares ++ [share] } := by
      rw [restoreShare, decode_encode hchecked.1.fields]
      exact CommitteeMember.submit_eq_ok.mpr ⟨hchecked.1, .inr ⟨hnew, rfl⟩⟩
    have hrest := ih (m := { m with shares := m.shares ++ [share] }) hchecked.2 (by
      rw [List.append_assoc]
      exact hkeys)
    rw [List.map_cons, List.foldlM_cons, hsubmit, ok_bind, hrest, List.append_assoc]
    rfl

/-- **What was stored is restored.** -/
theorem restore_sealMemory (hopens : host.crypto.Opens) (h : memory.Valid host) (iv : String) :
    ∃ markets, restore host (some (sealMemory host memory iv)) =
      .ok (⟨⟨host.memberIndex, memory.snapshot⟩, markets⟩, false) := by
  have hopened : openCommitteeState host (sealMemory host memory iv) =
      .ok (.array (memory.snapshot.map encode), false) := by
    rw [sealMemory, sealCommitteeState, openCommitteeState, require_pos ⟨rfl, rfl, rfl⟩, ok_bind,
      hopens]
    rfl
  have hchecked : ∀ share ∈ memory.snapshot,
      Checked host.runtime.poseidon host.memberIndex share := by
    intro share hshare
    rw [← h.memberIndex]
    exact h.wellFormed.checked share (h.mem_snapshot.mp hshare)
  have hmember : (memory.snapshot.map encode).foldlM (restoreShare host)
      ⟨host.memberIndex, []⟩ = .ok ⟨host.memberIndex, memory.snapshot⟩ :=
    foldlM_restoreShare hchecked h.snapshot_keys
  refine ⟨((memory.snapshot.map encode).filterMap fun item =>
    (decode item).map (·.market)).foldl addMarket [], ?_⟩
  rw [restore]
  refine bind_eq_ok.mpr ⟨_, hopened, ?_⟩
  refine bind_eq_ok.mpr ⟨memory.snapshot.map encode, okOr_eq_ok.mpr rfl, ?_⟩
  exact bind_eq_ok.mpr ⟨_, hmember, rfl⟩

/-- One stored share is taken back as a submission. -/
theorem restoreShare_ok {m m' : CommitteeMember} {item : Json}
    (h : restoreShare host m item = .ok m') :
    ∃ share, decode item = some share ∧ m.submit host.runtime.poseidon share = .ok m' := by
  obtain ⟨share, hshare, hsubmit⟩ := bind_eq_ok.mp h
  exact ⟨share, okOr_eq_ok.mp hshare, hsubmit⟩

theorem foldlM_restoreShare_ok : ∀ {items : List Json} {m m' : CommitteeMember},
    CommitteeMember.WellFormed host.runtime.poseidon m →
    items.foldlM (restoreShare host) m = .ok m' →
      CommitteeMember.WellFormed host.runtime.poseidon m' ∧ m'.memberIndex = m.memberIndex ∧
        ∀ share ∈ m'.shares, share ∈ m.shares ∨ share ∈ items.filterMap decode := by
  intro items
  induction items with
  | nil =>
    intro m m' hm h
    cases h
    exact ⟨hm, rfl, fun share hshare => .inl hshare⟩
  | cons item rest ih =>
    intro m m' hm h
    rw [List.foldlM_cons] at h
    obtain ⟨next, hnext, hrest⟩ := bind_eq_ok.mp h
    obtain ⟨share, hshare, hsubmit⟩ := restoreShare_ok hnext
    obtain ⟨hwell, hindex, hmem⟩ := ih (hm.submit hsubmit) hrest
    refine ⟨hwell, hindex.trans (CommitteeMember.memberIndex_submit hsubmit), ?_⟩
    intro other hother
    rw [List.filterMap_cons_some hshare]
    rcases hmem other hother with hheld | hlater
    · rcases CommitteeMember.mem_submit hsubmit hheld with hold | rfl
      · exact .inl hold
      · exact .inr List.mem_cons_self
    · exact .inr (List.mem_cons_of_mem _ hlater)

theorem mem_foldl_addMarket : ∀ {added markets : List (List Char)},
    market ∈ added.foldl addMarket markets ↔ market ∈ markets ∨ market ∈ added := by
  intro added
  induction added with
  | nil =>
    intro markets
    simp
  | cons first rest ih =>
    intro markets
    rw [List.foldl_cons, ih, mem_addMarket, List.mem_cons, or_assoc]

theorem nodup_foldl_addMarket : ∀ {added markets : List (List Char)}, markets.Nodup →
    (added.foldl addMarket markets).Nodup := by
  intro added
  induction added with
  | nil =>
    intro markets h
    exact h
  | cons first rest ih =>
    intro markets h
    exact ih (nodup_addMarket h)

/-- Whatever file is restored, the memory is valid. -/
theorem restore_valid {file : Option (StateFile Ciphertext)} {legacy : Bool}
    (h : restore host file = .ok (memory, legacy)) : memory.Valid host := by
  cases file with
  | none =>
    cases h
    exact ⟨rfl, CommitteeMember.wellFormed_new _ _, List.nodup_nil, by simp⟩
  | some contents =>
    obtain ⟨opened, -, h⟩ := bind_eq_ok.mp h
    obtain ⟨stored, -, h⟩ := bind_eq_ok.mp h
    obtain ⟨m, hm, h⟩ := bind_eq_ok.mp h
    obtain ⟨hwell, hindex, hmem⟩ :=
      foldlM_restoreShare_ok (CommitteeMember.wellFormed_new _ _) hm
    cases h
    refine ⟨hindex, hwell, nodup_foldl_addMarket List.nodup_nil, ?_⟩
    intro share hshare
    rw [mem_foldl_addMarket]
    rcases hmem share hshare with hnone | hstored
    · cases hnone
    · obtain ⟨item, hitem, hdecoded⟩ := List.mem_filterMap.mp hstored
      refine .inr (List.mem_filterMap.mpr ⟨item, hitem, ?_⟩)
      rw [hdecoded]
      rfl

theorem Memory.Valid.submitted {m : CommitteeMember} (h : memory.Valid host)
    (hsubmit : memory.member.submit host.runtime.poseidon share = .ok m) :
    Memory.Valid host ⟨m, addMarket memory.allMarkets share.market⟩ where
  memberIndex := (CommitteeMember.memberIndex_submit hsubmit).trans h.memberIndex
  wellFormed := h.wellFormed.submit hsubmit
  markets := nodup_addMarket h.markets
  covers := by
    intro other hother
    rw [mem_addMarket]
    rcases CommitteeMember.mem_submit hsubmit hother with hold | rfl
    · exact .inl (h.covers other hold)
    · exact .inr rfl

theorem Memory.Valid.cleared (h : memory.Valid host) (market : List Char) :
    Memory.Valid host
      ⟨memory.member.clearMarket market, memory.allMarkets.filter (· ≠ market)⟩ where
  memberIndex := h.memberIndex
  wellFormed := h.wellFormed.clearMarket market
  markets := h.markets.filter _
  covers := by
    intro share hshare
    obtain ⟨hheld, hother⟩ := List.mem_filter.mp hshare
    exact List.mem_filter.mpr ⟨h.covers share hheld, hother⟩

/-! ## Files -/

section

variable {file : File Ciphertext} {handler : Nat} {contents : StateFile Ciphertext} {intact : Bool}

@[simp] theorem File.writers_write : (file.write handler contents intact).writers = file.writers := by
  unfold File.write
  split
  · rfl
  · rfl

theorem File.write_of_notMem (h : handler ∉ file.writers) :
    file.write handler contents intact = file := if_neg h

/-- The only writer of a file writes its text. -/
theorem File.contents_write_alone (h : file.writers = [handler]) :
    (file.write handler contents intact).contents = contents := by
  rw [File.write, if_pos (h ▸ List.mem_singleton.mpr rfl)]
  exact if_pos (.inl h)

variable (file handler contents intact) in
theorem File.contents_write : (file.write handler contents intact).contents = file.contents ∨
    (file.write handler contents intact).contents = contents ∨
      (file.write handler contents intact).contents = .torn := by
  unfold File.write
  split
  · split
    · exact .inr (.inl rfl)
    · exact .inr (.inr rfl)
  · exact .inl rfl

end

end

/-! ## One step -/

/-- What happened to shares and aggregates: what came in, what changed the member, and what was
answered. -/
inductive Entry
  | posted (share : CommitteeShare)
  | submitted (share : CommitteeShare)
  | cleared (market : List Char)
  | answered (aggregate : CommitteeAggregate)
  | accepted (share : CommitteeShare)
  | purged (market : List Char)
  deriving DecidableEq

def Change.made : Change → Entry
  | .submitted share => .submitted share
  | .cleared market _ => .cleared market

def Change.acknowledged : Change → Entry
  | .submitted share => .accepted share
  | .cleared market _ => .purged market

def Response.entries : Response → List Entry
  | .aggregate a => [.answered a]
  | _ => []

namespace Server

section

variable {CryptoKey Ciphertext : Type} {host : Host CryptoKey Ciphertext}
variable {s s' : Server Ciphertext} {a : Action} {log : List Entry}

/-- What a handler that went on has done. -/
def entered : Option (Handler Ciphertext) → List Entry
  | some (.persisting change .makingDirectory) => [change.made]
  | some (.responded response) => response.entries
  | _ => []

/-- What a step enters in the log. -/
def entries (s : Server Ciphertext) (a : Action) (s' : Server Ciphertext) : List Entry :=
  match a with
  | .postShare share => [.posted share]
  | .transactionFound handler _ => entered s'.handlers[handler]?
  | .resume handler _ => entered s'.handlers[handler]?
  | .respond handler =>
    match s.handlers[handler]? with
    | some (.persisting change _) => [change.acknowledged]
    | _ => []
  | _ => []

/-- What a step does, and what it enters in the log. -/
inductive Effect (host : Host CryptoKey Ciphertext) (s : Server Ciphertext) :
    Action → Server Ciphertext → List Entry → Prop
  | ticked {now : Int} (hclock : s.clock ≤ now) :
    Effect host s (.tick now) { s with clock := now } []
  | created {protocol : ProtocolConfig} {tokens : Tokens} {creator : Pubkey} {mint : Mint}
    {tokenProgram : Pubkey} {args : InitializeMarketArgs} {market : PrivateState}
    (hcreated : PrivatePool.initializeMarket protocol tokens creator mint tokenProgram args s.clock =
      .ok market)
    (hnew : s.markets (market.marketKey host.runtime.toRuntime) = none) :
    Effect host s (.create protocol tokens creator mint tokenProgram args)
      (s.setMarket (market.marketKey host.runtime.toRuntime) market) []
  | programmed {key : Pubkey} {market market' : PrivateState} {event : PrivatePool.Event}
    (hmarket : s.markets key = some market)
    (hstep : PrivatePool.Step host.runtime market event market')
    (hclock : ∀ instruction now, event = .call instruction now → now = s.clock) :
    Effect host s (.program key event) (s.setMarket key market') []
  | booted {iv : String} {memory : Memory} {legacy : Bool}
    (hrestored : restore host s.stateFile = .ok (memory, legacy)) :
    Effect host s (.restart iv) (s.started host memory legacy iv) []
  | posted {share : CommitteeShare} {handler : Handler Ciphertext}
    (hstart : handler = .findingOrder share ∨ ∃ message, handler = .responded (.error message)) :
    Effect host s (.postShare share) (s.start handler) [.posted share]
  | requested {route : Route} {marketValue : List Char} {handler : Handler Ciphertext}
    (hstart : (∃ market, publicKey (String.ofList marketValue) = .ok market ∧
      handler = .fetchingMarket route marketValue market) ∨
        ∃ message, handler = .responded (.error message)) :
    Effect host s (.request route marketValue) (s.start handler) []
  | found {handler : Nat} {share : CommitteeShare}
    (hhandler : s.handlers[handler]? = some (.findingOrder share))
    (hverified : verifyOnchainOrder s.markets share = .ok ()) :
    Effect host s (.orderFound handler) (s.put handler (.findingTransaction share)) []
  | submitted {handler : Nat} {share : CommitteeShare} {transaction : Option Bool}
    {m : CommitteeMember} (hhandler : s.handlers[handler]? = some (.findingTransaction share))
    (hsubmit : s.memory.member.submit host.runtime.poseidon share = .ok m) :
    Effect host s (.transactionFound handler transaction)
      { s.put handler (.persisting (.submitted share) .makingDirectory) with
        memory := ⟨m, addMarket s.memory.allMarkets share.market⟩ } [.submitted share]
  | fetched {handler : Nat} {route : Route} {marketValue : List Char} {market : Pubkey}
    (hhandler : s.handlers[handler]? = some (.fetchingMarket route marketValue market)) :
    Effect host s (.marketFetched handler) (s.put handler (.fetchedMarket route marketValue market
      ((s.markets market).map (·.market)))) []
  | answered {handler : Nat} {marketValue : List Char} {market : Pubkey} {account : Option Market}
    {now : Int} {response : Response}
    (hhandler : s.handlers[handler]? = some (.fetchedMarket .aggregate marketValue market account))
    (hanswer : answerAggregate s.memory.member marketValue account now = .ok response) :
    Effect host s (.resume handler now) (s.put handler (.responded response)) response.entries
  | cleared {handler : Nat} {marketValue : List Char} {market : Pubkey} {account : Option Market}
    {now : Int} {removed : Bool}
    (hhandler : s.handlers[handler]? = some (.fetchedMarket .purge marketValue market account)) :
    Effect host s (.resume handler now)
      { s.put handler (.persisting (.cleared marketValue removed) .makingDirectory) with
        memory := ⟨s.memory.member.clearMarket marketValue,
          s.memory.allMarkets.filter (· ≠ marketValue)⟩ } [.cleared marketValue]
  | snapshotted {handler : Nat} {iv : String} {change : Change}
    (hhandler : s.handlers[handler]? = some (.persisting change .makingDirectory)) :
    Effect host s (.directoryMade handler iv)
      (s.put handler (.persisting change (.opening (sealMemory host s.memory iv)))) []
  | opened {handler : Nat} {change : Change} {contents : StateFile Ciphertext}
    (hhandler : s.handlers[handler]? = some (.persisting change (.opening contents))) :
    Effect host s (.opened handler)
      ((s.openTemporary handler).put handler (.persisting change (.writing contents))) []
  | wrote {handler : Nat} {change : Change} {contents : StateFile Ciphertext}
    (hhandler : s.handlers[handler]? = some (.persisting change (.writing contents))) :
    Effect host s (.wrote handler) (s.writeFile handler .torn false) []
  | written {handler : Nat} {change : Change} {contents : StateFile Ciphertext} {intact : Bool}
    (hhandler : s.handlers[handler]? = some (.persisting change (.writing contents))) :
    Effect host s (.written handler intact)
      ((s.writeFile handler contents intact).put handler (.persisting change .moving)) []
  | renamed {handler : Nat} {change : Change} {file : File Ciphertext}
    (hhandler : s.handlers[handler]? = some (.persisting change .moving))
    (htemporary : s.temporary = some file) :
    Effect host s (.renamed handler)
      { s.put handler (.persisting change .moved) with
        file := some file
        temporary := none } []
  | unmoved {handler : Nat} {change : Change} {message : String}
    (hhandler : s.handlers[handler]? = some (.persisting change .moving))
    (htemporary : s.temporary = none) :
    Effect host s (.renamed handler) (s.put handler (.responded (.error message))) []
  | responded {handler : Nat} {change : Change}
    (hhandler : s.handlers[handler]? = some (.persisting change .moved)) :
    Effect host s (.respond handler) (s.put handler (.responded change.response))
      [change.acknowledged]
  | failed {a : Action} {handler : Nat} {old : Handler Ciphertext} {message : String}
    (hhandler : s.handlers[handler]? = some old)
    (hidle : ∀ change stage, old ≠ .persisting change stage) :
    Effect host s a (s.put handler (.responded (.error message))) []

theorem put_self {handler : Nat} {old next : Handler Ciphertext}
    (h : s.handlers[handler]? = some old) : (s.put handler next).handlers[handler]? = some next :=
  List.getElem?_set_self (List.getElem?_eq_some_iff.mp h).1

/-- A put changes one handler. -/
theorem of_put {handler i : Nat} {next h : Handler Ciphertext}
    (hi : (s.put handler next).handlers[i]? = some h) :
    (i = handler ∧ h = next) ∨ (i ≠ handler ∧ s.handlers[i]? = some h) := by
  rw [put, List.getElem?_set] at hi
  split at hi
  · next heq =>
    split at hi
    · exact .inl ⟨heq.symm, (Option.some.inj hi).symm⟩
    · cases hi
  · next hne => exact .inr ⟨fun heq => hne heq.symm, hi⟩

/-- The log entries of a handler that went on are those of what it went on to. -/
theorem Effect.of_put {handler : Nat} {old next : Handler Ciphertext}
    (h : s.handlers[handler]? = some old) (hs' : s'.handlers = (s.put handler next).handlers)
    (heffect : Effect host s a s' (entered (some next))) :
    Effect host s a s' (entered s'.handlers[handler]?) := by
  rwa [hs', put_self h]

theorem programStep_some {market market' : PrivateState} {event : PrivatePool.Event}
    (h : s.programStep host market event = some market') :
    PrivatePool.Step host.runtime market event market' ∧
      ∀ instruction now, event = .call instruction now → now = s.clock := by
  cases event with
  | call instruction now =>
    simp only [programStep] at h
    split at h
    · next hnow =>
      refine ⟨.call (toOption_eq_some.mp h), ?_⟩
      rintro instruction' now' heq
      cases heq
      exact hnow
    · cases h
  | donate amount =>
    simp only [programStep] at h
    split at h
    · next hfits =>
      cases h
      refine ⟨.donate hfits, ?_⟩
      intro instruction now heq
      cases heq
    · cases h
  | external tokens =>
    cases h
    refine ⟨.external, ?_⟩
    intro instruction now heq
    cases heq

/-- **What one step does.** -/
theorem step_effect (h : Step host s a s') : Effect host s a s' (entries s a s') := by
  cases a with
  | tick now =>
    simp only [Step, step] at h
    split at h
    · next hclock =>
      cases h
      exact .ticked hclock
    · cases h
  | create protocol tokens creator mint tokenProgram args =>
    simp only [Step, step] at h
    split at h
    · next market hcreated =>
      split at h
      · next hnew =>
        cases h
        exact .created hcreated (Option.isNone_iff_eq_none.mp hnew)
      · cases h
    · cases h
  | program key event =>
    obtain ⟨market, hmarket, h⟩ := Option.bind_eq_some_iff.mp h
    obtain ⟨market', hstep, h⟩ := Option.bind_eq_some_iff.mp h
    cases h
    obtain ⟨hstep, hclock⟩ := programStep_some hstep
    exact .programmed hmarket hstep hclock
  | restart iv =>
    simp only [Step, step, boot] at h
    split at h
    · next memory legacy hrestored =>
      cases h
      exact .booted hrestored
    · cases h
  | postShare share =>
    cases h
    refine .posted ?_
    unfold require
    split
    · exact .inl rfl
    · exact .inr ⟨_, rfl⟩
  | request route marketValue =>
    cases h
    refine .requested ?_
    cases hmarket : publicKey (String.ofList marketValue) with
    | ok market => exact .inl ⟨market, rfl, rfl⟩
    | error message => exact .inr ⟨message, rfl⟩
  | orderFound handler =>
    simp only [Step, step] at h
    split at h
    · next share hhandler =>
      cases h
      cases hverified : verifyOnchainOrder s.markets share with
      | ok u => exact .found hhandler hverified
      | error message => exact .failed hhandler fun _ _ heq => nomatch heq
    · cases h
  | transactionFound handler transaction =>
    simp only [Step, step] at h
    split at h
    · next share hhandler =>
      cases h
      rw [submitShare]
      split
      · next m hsubmit =>
        obtain ⟨-, -, hsubmit⟩ := bind_eq_ok.mp hsubmit
        exact .of_put hhandler rfl (.submitted hhandler hsubmit)
      · exact .of_put hhandler rfl (.failed hhandler fun _ _ heq => nomatch heq)
    · cases h
  | marketFetched handler =>
    simp only [Step, step] at h
    split at h
    · next route marketValue market hhandler =>
      cases h
      exact .fetched hhandler
    · cases h
  | resume handler now =>
    simp only [Step, step] at h
    split at h
    · next marketValue market account hhandler =>
      cases h
      refine .of_put hhandler rfl ?_
      cases hanswer : answerAggregate s.memory.member marketValue account now with
      | ok response => exact .answered hhandler hanswer
      | error message => exact .failed hhandler fun _ _ heq => nomatch heq
    · next marketValue market account hhandler =>
      cases h
      rw [purge]
      split
      · exact .of_put hhandler rfl (.cleared hhandler)
      · exact .of_put hhandler rfl (.failed hhandler fun _ _ heq => nomatch heq)
    · cases h
  | directoryMade handler iv =>
    simp only [Step, step] at h
    split at h
    · next change hhandler =>
      cases h
      exact .snapshotted hhandler
    · cases h
  | opened handler =>
    simp only [Step, step] at h
    split at h
    · next change contents hhandler =>
      cases h
      exact .opened hhandler
    · cases h
  | wrote handler =>
    simp only [Step, step] at h
    split at h
    · next change contents hhandler =>
      cases h
      exact .wrote hhandler
    · cases h
  | written handler intact =>
    simp only [Step, step] at h
    split at h
    · next change contents hhandler =>
      cases h
      exact .written hhandler
    · cases h
  | renamed handler =>
    simp only [Step, step] at h
    split at h
    · next change hhandler =>
      split at h
      · next file htemporary =>
        cases h
        exact .renamed hhandler htemporary
      · next htemporary =>
        cases h
        exact .unmoved hhandler htemporary
    · cases h
  | respond handler =>
    simp only [Step, step] at h
    split at h
    · next change hhandler =>
      cases h
      have hentries : entries s (.respond handler) (s.put handler (.responded change.response)) =
          [change.acknowledged] := by
        simp only [entries, hhandler]
      rw [hentries]
      exact .responded hhandler
    · cases h

end

end Server

/-! ### A service to run -/

namespace Sample

open PrivatePool (Instruction)
open PrivatePool.Sample (runtime poseidon openingAt placement protocol program proofData witnessData
  alice)

/-- The first member, whose market takes every proof. -/
def host : Host Nat (Nat × String × String × Json) where
  runtime := runtime poseidon fun _ _ => true
  crypto := Web.Sample.crypto
  stateKey := 1
  memberIndex := .one

def marketKey : Pubkey := PrivatePool.Sample.marketKey

def marketValue : List Char := (toBase58 marketKey).toList

/-- The orders differ in their commitments only. -/
def place (k : Nat) : Instruction :=
  let order := { placement (openingAt 0) with commitment := (k : Field) + 1 }
  .placeOrder
    { payer := alice, payerToken := alice,
      placementVerifier := program protocol.placementVerifier false }
    { commitment := Field.toBytes order.commitment
      shareCommitments := {
        first := Field.toBytes order.shareCommitment1
        second := Field.toBytes order.shareCommitment2
        third := Field.toBytes order.shareCommitment3 }
      proof := proofData
      publicWitness := witnessData (order.fields.map Field.toBytes) }

/-- The first member's share of an order. -/
def share (k : Nat) : CommitteeShare :=
  { PrivatePool.Sample.shareFor (openingAt 0) k .one with
    market := marketValue
    orderCommitment := ((k : Field) + 1).val }

/-- The service before it is started for the first time. -/
def before : Server (Nat × String × String × Json) where
  markets := fun _ => none
  clock := 0
  memory := ⟨⟨.one, []⟩, []⟩
  file := none
  temporary := none
  handlers := []

/-- The market is created, and orders are placed. -/
def placing (orders : Nat) : List Action :=
  .create protocol PrivatePool.Sample.tokens PrivatePool.Sample.creator PrivatePool.Sample.mint
      PrivatePool.Sample.tokenProgram PrivatePool.Sample.args :: .tick 10 ::
    (List.range orders).map fun k => .program marketKey (.call (place k) 10)

/-- The share of an order is posted, and the chain confirms it. -/
def posting (handler k : Nat) : List Action :=
  [.postShare (share k), .orderFound handler, .transactionFound handler (some true)]

/-- The state is stored, and the change is acknowledged. -/
def storing (handler : Nat) (iv : String) : List Action :=
  [.directoryMade handler iv, .opened handler, .written handler true, .renamed handler,
    .respond handler]

end Sample

end Nortia.Services.CommitteeServer
