import Nortia.Client.Committee
import Nortia.Client.PublicKey
import Nortia.Lib.BigInt
import Nortia.Program.PrivateSystem
import Nortia.Web.Positions

/-!
# `services/src/committee`: the service of a member

The shares a member keeps in memory and in its encrypted state file (`state.ts`), and the handlers
of its service (`server.ts`), which interleave wherever they await. The chain goes on meanwhile, by
its own clock, and the process may be restarted. AES-GCM is a parameter, with the base64 text around
it; a body that was opened, a transaction that was looked up and the time of the process are left to
the step. A file is emptied when it is opened to be written, and written in one or more parts.
-/

namespace Nortia.Services.CommitteeServer

open Lib Client
open Web (SubtleCrypto)
open PrivatePool (PrivateState initializeMarket execute)

/-! ## Shares as JSON -/

def encode (share : CommitteeShare) : Json :=
  .object [
    ("market", .string (String.ofList share.market)),
    ("orderIndex", .number share.orderIndex),
    ("memberIndex", .number share.memberIndex.index),
    ("placementSignature", .string (String.ofList share.placementSignature)),
    ("orderCommitment", .string (toString share.orderCommitment)),
    ("sideShare", .string (toString share.sideShare)),
    ("yesAmountShare", .string (toString share.yesAmountShare)),
    ("totalAmountShare", .string (toString share.totalAmountShare)),
    ("salt", .string (toString share.salt)),
    ("expectedShareCommitment", .string (toString share.expectedShareCommitment))]

/-- `BigInt` of a field. -/
def bigIntField (value : Json) (name : String) : Option Int := do
  let text ← value.stringField name
  BigInt.parse text.toList

def integerField (value : Json) (name : String) : Option Int :=
  match value.field name with
  | some (.number n) => if n.den = 1 then some n.num else none
  | _ => none

def memberIndexField (value : Json) : Option MemberIndex := do
  let index ← integerField value "memberIndex"
  [MemberIndex.one, .two, .three].find? fun memberIndex => (memberIndex.index : Int) = index

/-- `decode` of a value of the encoded form. Of others it throws or `submit` does, except that `BigInt`
also takes numbers and booleans for the texts. -/
def decode (value : Json) : Option CommitteeShare := do
  let market ← value.stringField "market"
  let orderIndex ← integerField value "orderIndex"
  let memberIndex ← memberIndexField value
  let placementSignature ← value.stringField "placementSignature"
  let orderCommitment ← bigIntField value "orderCommitment"
  let sideShare ← bigIntField value "sideShare"
  let yesAmountShare ← bigIntField value "yesAmountShare"
  let totalAmountShare ← bigIntField value "totalAmountShare"
  let salt ← bigIntField value "salt"
  let expectedShareCommitment ← bigIntField value "expectedShareCommitment"
  some {
    market := market.toList
    orderIndex, orderCommitment, memberIndex, sideShare, yesAmountShare, totalAmountShare, salt
    expectedShareCommitment
    placementSignature := placementSignature.toList }

/-! ## The state file -/

/-- What the process is given: the program it reads the accounts of, the cipher, and its own place
in the committee. -/
structure Host (CryptoKey Ciphertext : Type) where
  runtime : PrivateRuntime
  crypto : SubtleCrypto CryptoKey Ciphertext
  stateKey : CryptoKey
  memberIndex : MemberIndex

/-- The ciphertext comes with its tag. -/
structure EncryptedCommitteeState (Ciphertext : Type) where
  format : String
  cipher : String
  memberIndex : MemberIndex
  iv : String
  ciphertext : Ciphertext

/-- What `JSON.parse` makes of a state file: the array of the oldest format, an envelope, or nothing of a
text that is empty, written in part or mixed from several. -/
inductive StateFile (Ciphertext : Type)
  | legacy (items : List Json)
  | envelope (state : EncryptedCommitteeState Ciphertext)
  | torn

def aad (memberIndex : MemberIndex) : String :=
  "nortia-committee-state\nmember:" ++ toString memberIndex.index

/-- The variables of the process: the member, and the set of its markets in insertion order. -/
structure Memory where
  member : CommitteeMember
  allMarkets : List (List Char)

section

variable {CryptoKey Ciphertext : Type} (host : Host CryptoKey Ciphertext)

def sealCommitteeState (value : Json) (iv : String) : StateFile Ciphertext :=
  .envelope {
    format := "nortia-committee-state"
    cipher := "aes-256-gcm"
    memberIndex := host.memberIndex
    iv
    ciphertext := host.crypto.encrypt host.stateKey iv (aad host.memberIndex) value }

/-- The value, and whether the file has the oldest format. -/
def openCommitteeState : StateFile Ciphertext → Except String (Json × Bool)
  | .legacy items => .ok (.array items, true)
  | .envelope state => do
    require (state.format = "nortia-committee-state" ∧ state.cipher = "aes-256-gcm" ∧
      state.memberIndex = host.memberIndex) "Committee state envelope is invalid"
    let plaintext ← okOr (host.crypto.decrypt host.stateKey state.iv (aad host.memberIndex)
      state.ciphertext) "Unsupported state or unable to authenticate data"
    .ok (plaintext, false)
  | .torn => .error "Unexpected end of JSON input"

/-- `Set.add`. -/
def addMarket (allMarkets : List (List Char)) (market : List Char) : List (List Char) :=
  if market ∈ allMarkets then allMarkets else allMarkets ++ [market]

/-- The shares `persist` takes a snapshot of. -/
def Memory.snapshot (memory : Memory) : List CommitteeShare :=
  memory.allMarkets.flatMap memory.member.snapshot

/-- What `persist` writes. -/
def sealMemory (memory : Memory) (iv : String) : StateFile Ciphertext :=
  sealCommitteeState host (.array (memory.snapshot.map encode)) iv

/-- One stored share of the start-up. -/
def restoreShare (member : CommitteeMember) (item : Json) : Except String CommitteeMember := do
  let share ← okOr (decode item) "Cannot convert undefined to a BigInt"
  member.submit host.runtime.poseidon share

/-- What the start-up reads from the state file, and whether it has the oldest format. Without a
file the member starts with nothing. -/
def restore (file : Option (StateFile Ciphertext)) : Except String (Memory × Bool) :=
  match file with
  | none => .ok (⟨⟨host.memberIndex, []⟩, []⟩, false)
  | some contents => do
    let opened ← openCommitteeState host contents
    let stored ← okOr opened.1.asArray "Committee state payload is invalid"
    let member ← stored.foldlM (restoreShare host) ⟨host.memberIndex, []⟩
    let markets := stored.filterMap fun item => (decode item).map (·.market)
    .ok (⟨member, markets.foldl addMarket []⟩, opened.2)

end

/-! ## Requests -/

/-- `Buffer.from(value.toString(16).padStart(64, "0"), "hex")`: a numeral of more digits has more
bytes, and an odd last digit is dropped. -/
def fieldBytes (value : Int) : Except String (List UInt8) := do
  require (0 ≤ value) "Field values must be non-negative"
  let n := value.toNat
  let digits := (Hex.numeral n).length
  .ok (if n < 256 ^ 32 then beBytes 32 n else beBytes (digits / 2) (n / 16 ^ (digits % 2)))

/-- `toNumber` of a `BN`. -/
def toNumber (n : Int) : Except String Int := do
  require (n.natAbs < 2 ^ 53) "Number can only safely store up to 53 bits"
  .ok n

/-- `share_commitments[memberIndex - 1]`. -/
def shareCommitmentOf (order : Order) : MemberIndex → Bytes32
  | .one => order.shareCommitments.first
  | .two => order.shareCommitments.second
  | .three => order.shareCommitments.third

/-- The order account, whose address is derived from the market and the commitment. -/
def findOrder (markets : Pubkey → Option PrivateState) (market : Pubkey)
    (commitment : List UInt8) : Option Order := do
  let s ← markets market
  s.orders.find? fun order => order.commitment.toList = commitment

/-- `verifyOnchainOrder`, up to the lookup of the transaction. -/
def verifyOnchainOrder (markets : Pubkey → Option PrivateState) (share : CommitteeShare) :
    Except String Unit := do
  let market ← publicKey (String.ofList share.market)
  let commitment ← fieldBytes share.orderCommitment
  require (commitment.length ≤ 32) "Max seed length exceeded"
  let order ← okOr (findOrder markets market commitment) "Onchain order account was not found"
  require (order.market = market) "Onchain order belongs to a different market"
  require ((order.orderIndex : Int) = share.orderIndex) "Onchain order index does not match"
  require (order.commitment.toList = commitment) "Onchain order commitment does not match"
  let expected ← fieldBytes share.expectedShareCommitment
  require ((shareCommitmentOf order share.memberIndex).toList = expected)
    "Onchain share commitment does not match this committee member"

/-- The rest of it: the transaction, with whether it invoked the program, unless it is missing or
failed. -/
def verifyPlacement (transaction : Option Bool) : Except String Unit := do
  let invoked ← okOr transaction "Placement transaction is missing or failed"
  require (invoked = true) "Placement transaction did not invoke Nortia"

inductive Response
  | aggregate (aggregate : CommitteeAggregate)
  | insufficientPrivacySet (orderCount : Nat)
  | accepted (orderIndex : Int)
  | purged (removed : Bool)
  | error (message : String)
  deriving DecidableEq

/-- The aggregate handler after it has the market account. -/
def answerAggregate (member : CommitteeMember) (marketValue : List Char)
    (account : Option Market) (now : Int) : Except String Response := do
  let market ← okOr account "Onchain market account was not found"
  require (market.phase = .open) "Market is not open for batching"
  let lockTs ← toNumber market.lockTs
  require (lockTs ≤ now) "Market is not locked yet"
  let localCount := (member.snapshot marketValue).length
  if localCount < Client.minPrivateBatchOrders then .ok (.insufficientPrivacySet localCount)
  else do
    let aggregate ← member.aggregate marketValue
    require (aggregate.orderCount = market.orderCount)
      "Committee member is missing accepted orders"
    .ok (.aggregate aggregate)

/-- What the purge handler asks of the market account. -/
def checkPurge (account : Option Market) (now : Int) : Except String Unit := do
  let market ← okOr account "Onchain market account was not found"
  if market.phase = .open then do
    let batchDeadlineTs ← toNumber market.batchDeadlineTs
    require (batchDeadlineTs < now) "Committee shares cannot be purged before batching closes"
  else .ok ()

/-! ## Handlers -/

inductive Route
  | aggregate
  | purge
  deriving DecidableEq

/-- What a handler answers once the state is stored. -/
inductive Change
  | submitted (share : CommitteeShare)
  | cleared (market : List Char) (removed : Bool)
  deriving DecidableEq

def Change.response : Change → Response
  | .submitted share => .accepted share.orderIndex
  | .cleared _ removed => .purged removed

/-- Where a call of `persist` stands. -/
inductive PersistStage (Ciphertext : Type)
  /-- In the `await` of `mkdir`; the snapshot is not taken yet. -/
  | makingDirectory
  /-- In the `await` of `writeFile`, which has not opened the file. -/
  | opening (contents : StateFile Ciphertext)
  | writing (contents : StateFile Ciphertext)
  /-- In the `await` of `rename`. -/
  | moving
  | moved

inductive Handler (Ciphertext : Type)
  | findingOrder (share : CommitteeShare)
  | findingTransaction (share : CommitteeShare)
  | fetchingMarket (route : Route) (marketValue : List Char) (market : Pubkey)
  /-- The account was read, and the handler has not gone on. -/
  | fetchedMarket (route : Route) (marketValue : List Char) (market : Pubkey)
      (account : Option Market)
  | persisting (change : Change) (stage : PersistStage Ciphertext)
  | responded (response : Response)

/-- A file, with the handlers that have opened it to write. -/
structure File (Ciphertext : Type) where
  contents : StateFile Ciphertext
  writers : List Nat

/-- A handler writes to the file it has opened. Its text is there for certain if no other handler has
opened the file, else if they leave it intact. -/
def File.write {Ciphertext : Type} (file : File Ciphertext) (handler : Nat)
    (contents : StateFile Ciphertext) (intact : Bool) : File Ciphertext :=
  if handler ∈ file.writers then
    { file with contents := if file.writers = [handler] ∨ intact = true then contents else .torn }
  else file

/-- The chain with its clock, the process and its files. A file keeps its writers when it is moved. -/
structure Server (Ciphertext : Type) where
  markets : Pubkey → Option PrivateState
  clock : Int
  memory : Memory
  file : Option (File Ciphertext)
  temporary : Option (File Ciphertext)
  handlers : List (Handler Ciphertext)

/-- What a process that starts reads. -/
def Server.stateFile {Ciphertext : Type} (s : Server Ciphertext) : Option (StateFile Ciphertext) :=
  s.file.map File.contents

/-- What happens between two awaits, on chain or to the process. -/
inductive Action
  | tick (now : Int)
  | create (protocol : ProtocolConfig) (tokens : Tokens) (creator : Pubkey) (collateralMint : Mint)
      (tokenProgram : Pubkey) (args : InitializeMarketArgs)
  | program (market : Pubkey) (event : PrivatePool.Event)
  | restart (iv : String)
  /-- A body of `POST /shares` was read and opened. -/
  | postShare (share : CommitteeShare)
  | request (route : Route) (marketValue : List Char)
  | orderFound (handler : Nat)
  | transactionFound (handler : Nat) (transaction : Option Bool)
  | marketFetched (handler : Nat)
  /-- The time of the process need not be that of the chain. -/
  | resume (handler : Nat) (now : Int)
  | directoryMade (handler : Nat) (iv : String)
  | opened (handler : Nat)
  /-- A part of the text was written. -/
  | wrote (handler : Nat)
  | written (handler : Nat) (intact : Bool)
  | renamed (handler : Nat)
  | respond (handler : Nat)

namespace Server

section

variable {CryptoKey Ciphertext : Type} (host : Host CryptoKey Ciphertext)

def start (s : Server Ciphertext) (handler : Handler Ciphertext) : Server Ciphertext :=
  { s with handlers := s.handlers ++ [handler] }

def put (s : Server Ciphertext) (handler : Nat) (next : Handler Ciphertext) : Server Ciphertext :=
  { s with handlers := s.handlers.set handler next }

/-- The `catch` of the server. -/
def caught : Except String (Handler Ciphertext) → Handler Ciphertext
  | .ok handler => handler
  | .error message => .responded (.error message)

/-- A step of a market, whose instructions see the clock. -/
def programStep (s : Server Ciphertext) (market : PrivateState) :
    PrivatePool.Event → Option PrivateState
  | .call instruction now =>
    if now = s.clock then (execute host.runtime market now instruction).toOption else none
  | .donate amount =>
    if market.vault + amount ≤ u64Max then some { market with vault := market.vault + amount }
    else none
  | .external tokens => some { market with tokens }

def setMarket (s : Server Ciphertext) (key : Pubkey) (market : PrivateState) :
    Server Ciphertext :=
  { s with markets := Function.update s.markets key (some market) }

/-- `POST /shares`, after the transaction was looked up and until `mkdir`. -/
def submitShare (s : Server Ciphertext) (handler : Nat) (share : CommitteeShare)
    (transaction : Option Bool) : Server Ciphertext :=
  match (do
    verifyPlacement transaction
    s.memory.member.submit host.runtime.poseidon share : Except String CommitteeMember) with
  | .ok member =>
    { s.put handler (.persisting (.submitted share) .makingDirectory) with
      memory := ⟨member, addMarket s.memory.allMarkets share.market⟩ }
  | .error message => s.put handler (.responded (.error message))

/-- `DELETE /markets/:id/shares`, after the account was fetched and until `mkdir`. -/
def purge (s : Server Ciphertext) (handler : Nat) (marketValue : List Char)
    (account : Option Market) (now : Int) : Server Ciphertext :=
  match checkPurge account now with
  | .ok () =>
    let removed : Bool := s.memory.member.shares.any fun share => share.market = marketValue
    { s.put handler (.persisting (.cleared marketValue removed) .makingDirectory) with
      memory := ⟨s.memory.member.clearMarket marketValue,
        s.memory.allMarkets.filter (· ≠ marketValue)⟩ }
  | .error message => s.put handler (.responded (.error message))

/-- The process starts with this memory, and converts a file of the oldest format. -/
def started (s : Server Ciphertext) (memory : Memory) (legacy : Bool) (iv : String) :
    Server Ciphertext :=
  { s with
    memory
    file := if legacy then some ⟨sealMemory host memory iv, []⟩
      else s.file.map fun file => { file with writers := [] }
    temporary := if legacy then none
      else s.temporary.map fun file => { file with writers := [] }
    handlers := [] }

/-- The process starts with what the state file holds. -/
def boot (s : Server Ciphertext) (iv : String) : Option (Server Ciphertext) :=
  match restore host s.stateFile with
  | .ok (memory, legacy) => some (s.started host memory legacy iv)
  | .error _ => none

/-- `writeFile` opens the temporary file, which is emptied if it is there. -/
def openTemporary (s : Server Ciphertext) (handler : Nat) : Server Ciphertext :=
  { s with temporary := some ⟨.torn, handler :: (s.temporary.map File.writers).getD []⟩ }

/-- A handler writes to the file it has opened, wherever that is by now. -/
def writeFile (s : Server Ciphertext) (handler : Nat) (contents : StateFile Ciphertext)
    (intact : Bool) : Server Ciphertext :=
  { s with
    file := s.file.map (·.write handler contents intact)
    temporary := s.temporary.map (·.write handler contents intact) }

def step (s : Server Ciphertext) : Action → Option (Server Ciphertext)
  | .tick now => if s.clock ≤ now then some { s with clock := now } else none
  | .create protocol tokens creator collateralMint tokenProgram args =>
    match initializeMarket protocol tokens creator collateralMint tokenProgram args s.clock with
    | .ok market =>
      let key := market.marketKey host.runtime.toRuntime
      if (s.markets key).isNone then some (s.setMarket key market) else none
    | .error _ => none
  | .program key event => do
    let market ← s.markets key
    let market ← s.programStep host market event
    some (s.setMarket key market)
  | .restart iv => s.boot host iv
  | .postShare share =>
    some (s.start (caught (do
      require (share.memberIndex = s.memory.member.memberIndex)
        "Share was sent to the wrong member service"
      .ok (.findingOrder share))))
  | .request route marketValue =>
    some (s.start (caught (do
      let market ← publicKey (String.ofList marketValue)
      .ok (.fetchingMarket route marketValue market))))
  | .orderFound handler =>
    match s.handlers[handler]? with
    | some (.findingOrder share) =>
      some (s.put handler (caught (do
        verifyOnchainOrder s.markets share
        .ok (.findingTransaction share))))
    | _ => none
  | .transactionFound handler transaction =>
    match s.handlers[handler]? with
    | some (.findingTransaction share) => some (s.submitShare host handler share transaction)
    | _ => none
  | .marketFetched handler =>
    match s.handlers[handler]? with
    | some (.fetchingMarket route marketValue market) =>
      some (s.put handler (.fetchedMarket route marketValue market
        ((s.markets market).map (·.market))))
    | _ => none
  | .resume handler now =>
    match s.handlers[handler]? with
    | some (.fetchedMarket .aggregate marketValue _ account) =>
      some (s.put handler (caught (do
        let response ← answerAggregate s.memory.member marketValue account now
        .ok (.responded response))))
    | some (.fetchedMarket .purge marketValue _ account) =>
      some (s.purge handler marketValue account now)
    | _ => none
  | .directoryMade handler iv =>
    match s.handlers[handler]? with
    | some (.persisting change .makingDirectory) =>
      some (s.put handler (.persisting change (.opening (sealMemory host s.memory iv))))
    | _ => none
  | .opened handler =>
    match s.handlers[handler]? with
    | some (.persisting change (.opening contents)) =>
      some ((s.openTemporary handler).put handler (.persisting change (.writing contents)))
    | _ => none
  | .wrote handler =>
    match s.handlers[handler]? with
    | some (.persisting _ (.writing _)) => some (s.writeFile handler .torn false)
    | _ => none
  | .written handler intact =>
    match s.handlers[handler]? with
    | some (.persisting change (.writing contents)) =>
      some ((s.writeFile handler contents intact).put handler (.persisting change .moving))
    | _ => none
  | .renamed handler =>
    match s.handlers[handler]? with
    | some (.persisting change .moving) =>
      match s.temporary with
      | some file =>
        some { s.put handler (.persisting change .moved) with
          file := some file
          temporary := none }
      -- another handler has already moved the file
      | none => some (s.put handler (.responded (.error "ENOENT: no such file or directory")))
    | _ => none
  | .respond handler =>
    match s.handlers[handler]? with
    | some (.persisting change .moved) => some (s.put handler (.responded change.response))
    | _ => none

def Step (s : Server Ciphertext) (a : Action) (s' : Server Ciphertext) : Prop :=
  s.step host a = some s'

end

end Server

end Nortia.Services.CommitteeServer
