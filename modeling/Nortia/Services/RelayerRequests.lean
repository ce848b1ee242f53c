import Nortia.Client.PublicKey
import Nortia.Lib.Base64
import Nortia.Lib.BigInt
import Nortia.Lib.Json
import Nortia.Program.Width

/-!
# `services/src/relayer/requests.ts`

The checks on the body of a relay request. A field the body leaves out is undefined.
-/

namespace Nortia.Services.RelayerRequests

open Lib Client

structure RelayRedeemRequest where
  market : String
  recipient : String
  nullifierHash : String
  payoutAmount : String
  proof : String
  publicWitness : String
  deriving DecidableEq

def canonicalBase64 (value : Option Json) (name : String) (byteLength : Nat) :
    Except String String := do
  let text ← okOr (value.bind Json.asString) (name ++ " must be base64")
  require (Base64.isBase64 text.toList = true) (name ++ " must be base64")
  let bytes := Base64.decode text.toList
  require (bytes.length = byteLength ∧ Base64.encode bytes = text.toList)
    (name ++ " has an invalid length or encoding")
  .ok text

/-- `publicKey`: the key in canonical text, if it is a point of the curve. -/
def publicKey (isOnCurve : Pubkey → Bool) (value : Option Json) (name : String) :
    Except String String := do
  let text ← okOr (value.bind Json.asString) (name ++ " is required")
  let key ← Client.publicKey text
  require (isOnCurve key = true) (name ++ " must be a wallet address")
  .ok (toBase58 key)

/-- `/^(0|[1-9]\d*)$/`. -/
def isCanonicalDecimal (text : List Char) : Bool :=
  text = ['0'] || (Decimal.isDigits text && text.head? ≠ some '0')

def decimalU64 (value : Option Json) (name : String) : Except String String := do
  let text ← okOr (value.bind Json.asString) (name ++ " must be a decimal u64")
  require (isCanonicalDecimal text.toList = true) (name ++ " must be a decimal u64")
  let amount := Nat.ofDigitChars 10 text.toList 0
  require (amount ≤ u64Max) (name ++ " exceeds u64")
  .ok text

def toLowerCase (text : String) : String := String.ofList (text.toList.map Char.toLower)

def checkedRelayRedeem (isOnCurve : Pubkey → Bool) (value : Json) :
    Except String RelayRedeemRequest := do
  require (value.isObject = true) "Invalid relay request"
  let market ← publicKey isOnCurve (value.field "market") "market"
  let recipient ← publicKey isOnCurve (value.field "recipient") "recipient"
  let nullifierHash ← okOr (value.stringField "nullifierHash")
    "nullifierHash must be a 32-byte field"
  require (Hex.isWord nullifierHash.toList = true) "nullifierHash must be a 32-byte field"
  let payoutAmount ← decimalU64 (value.field "payoutAmount") "payoutAmount"
  let proof ← canonicalBase64 (value.field "proof") "proof" 388
  let publicWitness ← canonicalBase64 (value.field "publicWitness") "publicWitness" 300
  .ok {
    market
    recipient
    nullifierHash := toLowerCase nullifierHash
    payoutAmount
    proof
    publicWitness }

end Nortia.Services.RelayerRequests
