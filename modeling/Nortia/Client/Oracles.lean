import Nortia.Lib.Alphabet
import Nortia.Lib.PlainDecimal
import Nortia.Lib.Result
import Nortia.Program.Types
import Nortia.Program.Width

/-!
# `client/src/oracles.ts`: thresholds and sources

A threshold is typed as a plain decimal and kept as an integer at the exponent of its oracle. A
source is named by 32 bytes in hexadecimal.
-/

namespace Nortia.Client

open Lib

def parseDecimalAtExponent (value : List Char) (exponent : Int) : Except String Int := do
  require (-18 ≤ exponent ∧ exponent ≤ 0) "Oracle exponent must be an integer from -18 through 0"
  let decimal ← okOr (PlainDecimal.read value) "Oracle threshold must be a plain decimal number"
  let precision := (-exponent).toNat
  require (decimal.digits.length ≤ precision)
    ("Oracle threshold supports at most " ++ toString precision ++ " decimal places")
  let result := decimal.scaled precision
  require (i128Min ≤ result ∧ result ≤ i128Max)
    "Oracle threshold exceeds the signed 128-bit range"
  .ok result

/-- A letter that is not ASCII is no hexadecimal digit after `toLowerCase` either. -/
def oracleSourceIdBytes (value : List Char) : Except String Bytes32 := do
  let lower := value.map Char.toLower
  let normalized := if "0x".toList.isPrefixOf lower then lower.drop 2 else lower
  require (normalized.length = 64 ∧ normalized.all Hex.isHexDigit = true)
    "Oracle source ID must be an exact 32-byte hexadecimal value"
  .ok ⟨beBytes 32 ((Hex.value? normalized).getD 0), length_beBytes _ _⟩

end Nortia.Client
