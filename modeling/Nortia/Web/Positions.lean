import Mathlib.Logic.Function.Basic
import Nortia.Lib.Json
import Nortia.Lib.Keyed
import Nortia.Lib.Result
import Nortia.Lib.Run

/-!
# `web/lib/positions.ts`

The browser's vault of private positions. AES-GCM is a parameter, with the base64 text around it;
local storage holds an encrypted vault under the key of each wallet, and the JSON of the positions
of all wallets under the legacy key. An item that does not parse counts as absent, as it does there.
-/

namespace Nortia.Web

open Lib

/-! ## Positions -/

inductive PositionSide
  | yes
  | no
  deriving DecidableEq, Repr

def PositionSide.text : PositionSide → String
  | .yes => "yes"
  | .no => "no"

inductive PositionStatus
  | prepared
  | deliveryPending
  | open
  | claimable
  | claimed
  | refundable
  | refunded
  deriving DecidableEq, Repr

def PositionStatus.text : PositionStatus → String
  | .prepared => "prepared"
  | .deliveryPending => "delivery-pending"
  | .open => "open"
  | .claimable => "claimable"
  | .claimed => "claimed"
  | .refundable => "refundable"
  | .refunded => "refunded"

/-- `/^\d+$/`. -/
def isDecimal (text : String) : Bool := !text.toList.isEmpty && text.toList.all Char.isDigit

/-- A position. What `normalizePosition` leaves unchecked is any JSON, or undefined. -/
structure PrivatePosition where
  owner : String
  marketId : String
  question : String
  side : PositionSide
  amount : String
  stakeAmount : String
  commitment : String
  secret : String
  nullifier : String
  marketAddress : Option Json
  transactionSignature : Option Json
  settlementSignature : Option Json
  committeeShares : Option Json
  createdAt : Option Json
  status : Option Json
  decimal : isDecimal amount = true ∧ isDecimal stakeAmount = true

/-- `JSON.stringify` of a position. -/
def PrivatePosition.toJson (position : PrivatePosition) : Json :=
  .object <|
    [("version", .number 1),
      ("owner", .string position.owner),
      ("marketId", .string position.marketId),
      ("question", .string position.question),
      ("side", .string position.side.text),
      ("amount", .string position.amount),
      ("stakeAmount", .string position.stakeAmount),
      ("commitment", .string position.commitment),
      ("secret", .string position.secret),
      ("nullifier", .string position.nullifier)] ++
    (Json.optional "marketAddress" position.marketAddress ++
    (Json.optional "transactionSignature" position.transactionSignature ++
    (Json.optional "settlementSignature" position.settlementSignature ++
    (Json.optional "committeeShares" position.committeeShares ++
    (Json.optional "createdAt" position.createdAt ++
    Json.optional "status" position.status)))))

/-- `=== 1`. -/
def isOne : Option Json → Bool
  | some (.number value) => value = 1
  | _ => false

def parseSide (value : Json) : Option PositionSide :=
  match value.stringField "side" with
  | some text => if text = "yes" then some .yes else if text = "no" then some .no else none
  | none => none

/-- The amount, which the oldest positions gave as a ticket of one USDC. -/
def parseAmount (value : Json) : Option String :=
  match value.stringField "amount" with
  | some amount => some amount
  | none => if isOne (value.field "ticketUsdc") then some "1000000" else none

/-- Fields other than these are carried along by the source and read by nothing. -/
def normalizePosition (value : Json) (owner : String) : Option PrivatePosition := do
  let normalizedOwner := (value.stringField "owner").getD owner
  guard (isOne (value.field "version"))
  guard (normalizedOwner = owner)
  let marketId ← value.stringField "marketId"
  let question ← value.stringField "question"
  let side ← parseSide value
  let commitment ← value.stringField "commitment"
  let secret ← value.stringField "secret"
  let nullifier ← value.stringField "nullifier"
  let amount ← parseAmount value
  let stakeAmount := (value.stringField "stakeAmount").getD amount
  if decimal : isDecimal amount = true ∧ isDecimal stakeAmount = true then
    some {
      owner := normalizedOwner
      marketId, question, side, amount, stakeAmount, commitment, secret, nullifier, decimal
      marketAddress := value.field "marketAddress"
      transactionSignature := value.field "transactionSignature"
      settlementSignature := value.field "settlementSignature"
      committeeShares := value.field "committeeShares"
      createdAt := value.field "createdAt"
      status := value.field "status" }
  else none

def parsePositions (value : Json) (owner : String) : List PrivatePosition :=
  match value with
  | .array items => items.filterMap (normalizePosition · owner)
  | _ => []

def dedupe (positions : List PrivatePosition) : List PrivatePosition :=
  Keyed.dedupe PrivatePosition.commitment positions

/-- The record of a commitment in a list of positions. -/
def record (positions : List PrivatePosition) (commitment : String) : Option PrivatePosition :=
  Keyed.find PrivatePosition.commitment positions commitment

/-! ## The encrypted vault -/

/-- AES-GCM: the key, the initialisation vector, the additional data and the text. -/
structure SubtleCrypto (CryptoKey Ciphertext : Type) where
  encrypt : CryptoKey → String → String → Json → Ciphertext
  decrypt : CryptoKey → String → String → Ciphertext → Option Json

/-- What was encrypted is decrypted under the same key, vector and additional data. -/
def SubtleCrypto.Opens {CryptoKey Ciphertext : Type} (crypto : SubtleCrypto CryptoKey Ciphertext) :
    Prop :=
  ∀ key iv data text, crypto.decrypt key iv data (crypto.encrypt key iv data text) = some text

structure EncryptedVault (Ciphertext : Type) where
  wallet : String
  iv : String
  ciphertext : Ciphertext

/-- `window.localStorage`: the vault of each wallet, and the legacy positions. -/
structure LocalStorage (Ciphertext : Type) where
  vault : String → Option (EncryptedVault Ciphertext)
  legacy : Option Json

def network : String := "solana-devnet"

def additionalData (wallet : String) : String :=
  "nortia-private-positions\n" ++ network ++ "\n" ++ wallet

section

variable {CryptoKey Ciphertext : Type} (crypto : SubtleCrypto CryptoKey Ciphertext)

def decryptVault (vault : EncryptedVault Ciphertext) (key : CryptoKey) :
    Except String (List PrivatePosition) :=
  match crypto.decrypt key vault.iv (additionalData vault.wallet) vault.ciphertext with
  | some plaintext => .ok (parsePositions plaintext vault.wallet)
  | none => .error "OperationError"

/-- The vault that `encryptVault` writes. -/
def sealVault (wallet : String) (positions : List PrivatePosition) (key : CryptoKey) (iv : String) :
    EncryptedVault Ciphertext where
  wallet := wallet
  iv := iv
  ciphertext := crypto.encrypt key iv (additionalData wallet)
    (.array ((dedupe positions).map PrivatePosition.toJson))

def encryptVault (storage : LocalStorage Ciphertext) (wallet : String)
    (positions : List PrivatePosition) (key : CryptoKey) (iv : String) : LocalStorage Ciphertext :=
  { storage with
    vault := Function.update storage.vault wallet (some (sealVault crypto wallet positions key iv)) }

def readLegacyPositions (storage : LocalStorage Ciphertext) (owner : String) :
    List PrivatePosition :=
  match storage.legacy with
  | some value => parsePositions value owner
  | none => []

/-- The positions of a vault that was read, and none without one. -/
def openVault (vault : Option (EncryptedVault Ciphertext)) (key : CryptoKey) :
    Except String (List PrivatePosition) :=
  match vault with
  | some vault => decryptVault crypto vault key
  | none => .ok []

/-- The unlocked positions, and how many of them were migrated. -/
def unlockPrivatePositions (storage : LocalStorage Ciphertext) (wallet : String) (key : CryptoKey)
    (iv : String) : Except String ((List PrivatePosition × Nat) × LocalStorage Ciphertext) := do
  let vault := storage.vault wallet
  let encrypted ← openVault crypto vault key
  let legacy := readLegacyPositions storage wallet
  let positions := dedupe (encrypted ++ legacy)
  if 0 < legacy.length ∨ vault.isNone = true then
    .ok ((positions, legacy.length),
      { encryptVault crypto storage wallet positions key iv with legacy := none })
  else .ok ((positions, legacy.length), storage)

/-- `loadPrivatePositions`, after it has read the vault. -/
def loadVault (wallet : String) (vault : Option (EncryptedVault Ciphertext)) (key : CryptoKey) :
    Except String (List PrivatePosition) :=
  match vault with
  | none => .ok []
  | some vault =>
    if vault.wallet = wallet then decryptVault crypto vault key
    else .error "This browser vault belongs to a different wallet"

def loadPrivatePositions (storage : LocalStorage Ciphertext) (wallet : String) (key : CryptoKey) :
    Except String (List PrivatePosition) :=
  loadVault crypto wallet (storage.vault wallet) key

/-- What a save writes over the positions it loaded. -/
def savedPositions (position : PrivatePosition) (existing : List PrivatePosition) :
    List PrivatePosition :=
  position :: existing.filter fun item => item.commitment ≠ position.commitment

def savePrivatePosition (storage : LocalStorage Ciphertext) (position : PrivatePosition)
    (key : CryptoKey) (iv : String) : Except String (LocalStorage Ciphertext) := do
  let existing ← loadPrivatePositions crypto storage position.owner key
  .ok (encryptVault crypto storage position.owner (savedPositions position existing) key iv)

/-- The exported item, if any, and the storage it leaves. -/
def exportPrivatePositionVault (storage : LocalStorage Ciphertext) (wallet : String)
    (key : CryptoKey) (iv : String) :
    Except String (Option (EncryptedVault Ciphertext) × LocalStorage Ciphertext) := do
  let positions ← loadPrivatePositions crypto storage wallet key
  let storage := encryptVault crypto storage wallet positions key iv
  .ok (storage.vault wallet, storage)

/-- The merged positions and the storage. A backup that does not parse as a vault is none. -/
def importPrivatePositionVault (storage : LocalStorage Ciphertext) (wallet : String)
    (key : CryptoKey) (backup : Option (EncryptedVault Ciphertext)) (iv : String) :
    Except String (List PrivatePosition × LocalStorage Ciphertext) := do
  let vault ← okOr backup "Private position backup is invalid"
  require (vault.wallet = wallet) "Private position backup belongs to a different wallet"
  let imported ← decryptVault crypto vault key
  let existing ← loadPrivatePositions crypto storage wallet key
  let positions := dedupe (imported ++ existing)
  .ok (positions, encryptVault crypto storage wallet positions key iv)

/-! ## Overlapping saves -/

/-- Where a save stands. It read the vault when it was called. -/
inductive SaveStage (Ciphertext : Type)
  /-- In the `await` of `decryptVault`. -/
  | decrypting (vault : Option (EncryptedVault Ciphertext))
  /-- In the `await` of `encrypt`, with the positions it is going to write. -/
  | encrypting (positions : List PrivatePosition)
  | saved
  | failed

structure Save (Ciphertext : Type) where
  position : PrivatePosition
  stage : SaveStage Ciphertext

structure Tab (Ciphertext : Type) where
  storage : LocalStorage Ciphertext
  saves : List (Save Ciphertext)

/-- What happens between two awaits. -/
inductive SaveEvent
  | call (position : PrivatePosition)
  | decrypted (save : Nat)
  | encrypted (save : Nat) (iv : String)

def saveStep (key : CryptoKey) (tab : Tab Ciphertext) : SaveEvent → Option (Tab Ciphertext)
  | .call position => some { tab with
      saves := tab.saves ++ [⟨position, .decrypting (tab.storage.vault position.owner)⟩] }
  | .decrypted save =>
    match tab.saves[save]? with
    | some ⟨position, .decrypting vault⟩ =>
      match loadVault crypto position.owner vault key with
      | .ok existing => some { tab with
          saves := tab.saves.set save ⟨position, .encrypting (savedPositions position existing)⟩ }
      | .error _ => some { tab with saves := tab.saves.set save ⟨position, .failed⟩ }
    | _ => none
  | .encrypted save iv =>
    match tab.saves[save]? with
    | some ⟨position, .encrypting positions⟩ => some {
        storage := encryptVault crypto tab.storage position.owner positions key iv
        saves := tab.saves.set save ⟨position, .saved⟩ }
    | _ => none

/-- Steps of saves for one wallet. -/
def SaveStep (wallet : String) (key : CryptoKey) (tab : Tab Ciphertext) (event : SaveEvent)
    (tab' : Tab Ciphertext) : Prop :=
  saveStep crypto key tab event = some tab' ∧
    ∀ position, event = .call position → position.owner = wallet

end

end Nortia.Web
