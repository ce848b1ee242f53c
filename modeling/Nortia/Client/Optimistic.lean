import Nortia.Lib.BigInt
import Nortia.Lib.Result
import Nortia.Program.Text
import Nortia.Program.Types

/-!
# `client/src/optimistic.ts`: evidence of the optimistic resolver

The evidence URI of a proposal or a challenge is checked before its hash is computed. The URL
parser of the platform is a parameter. A string is its characters: one with a lone surrogate is not
printable ASCII and refused, so no accepted string is missing here.
-/

namespace Nortia.Client

open Lib

def maxOptimisticEvidenceUriBytes : Nat := 160

inductive OptimisticEvidenceRole
  | assertion
  | challenge
  deriving DecidableEq, Repr

/-- `DOMAINS`. -/
def domains : OptimisticEvidenceRole → List Char
  | .assertion => "nortia-optimistic-assertion".toList
  | .challenge => "nortia-optimistic-challenge".toList

/-- The fields of a parsed `URL` that are read. -/
structure Url where
  hostname : List Char
  username : List Char
  password : List Char

/-- `/[\u0000-\u001f\u007f]/u`. -/
def isControlCharacter (c : Char) : Bool := c.toNat ≤ 0x1f || c.toNat = 0x7f

/-- `/[\x20-\x7e]/u`. -/
def isPrintableAscii (c : Char) : Bool := 0x20 ≤ c.toNat && c.toNat ≤ 0x7e

def hasEvidenceScheme (value : List Char) : Bool :=
  "https://".toList.isPrefixOf value || "ipfs://".toList.isPrefixOf value ||
    "ar://".toList.isPrefixOf value

/-- `parseUrl` is `new URL`, nothing where it throws. -/
def normalizeEvidenceUri (parseUrl : List Char → Option Url) (value : List Char) :
    Except String (List Char) := do
  require (value ≠ [] ∧ BigInt.trim value = value) "Evidence URI must use canonical spacing"
  require ((Text.asBytes value).length ≤ maxOptimisticEvidenceUriBytes)
    "Evidence URI cannot exceed 160 bytes"
  require (value.any isControlCharacter = false) "Evidence URI cannot contain control characters"
  require (value.all isPrintableAscii = true) "Evidence URI must use printable ASCII characters"
  require (hasEvidenceScheme value = true)
    "Evidence URI must use an HTTPS, IPFS, or Arweave scheme"
  let parsed ← okOr (parseUrl value) "Evidence URI is invalid"
  require (parsed.hostname ≠ [] ∧ parsed.username = [] ∧ parsed.password = [])
    "Evidence URI is invalid"
  .ok value

/-- The digest of the domain, the market, the outcome and the normalised URI. -/
def optimisticEvidenceHash (sha256 : List UInt8 → Bytes32) (parseUrl : List Char → Option Url)
    (role : OptimisticEvidenceRole) (market : Pubkey) (outcome : Fin 2)
    (evidenceUri : List Char) : Except String Bytes32 := do
  let uri ← normalizeEvidenceUri parseUrl evidenceUri
  let parts := [Text.asBytes (domains role), market.toList, [UInt8.ofNat outcome.val],
    Text.asBytes uri]
  .ok (sha256 parts.flatten)

end Nortia.Client
