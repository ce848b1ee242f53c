import Nortia.Lib.Decimal
import Nortia.Lib.Result

/-!
# `client/src/economics.ts`

What the owner of a private order is paid, over bigints, and amounts of USDC as texts.
-/

namespace Nortia.Client

open Lib

structure PrivatePayout where
  unusedCollateral : Int
  marketPayout : Int
  payoutAmount : Int

def calculatePrivatePayout (stakeAmount wagerAmount : Int) (winner : Bool)
    (netPool winningAmount : Int) : Except String PrivatePayout := do
  require (0 < stakeAmount ∧ 0 < wagerAmount ∧ wagerAmount ≤ stakeAmount)
    "wager amount must be within the public stake amount"
  require (0 ≤ netPool ∧ 0 < winningAmount) "settlement liquidity is invalid"
  let unusedCollateral := stakeAmount - wagerAmount
  let marketPayout := if winner then (wagerAmount * netPool).tdiv winningAmount else 0
  .ok { unusedCollateral, marketPayout, payoutAmount := unusedCollateral + marketPayout }

/-! ## Amounts as texts -/

def usdcScale : Nat := 1000000

/-- The match of `/^(0|[1-9]\d*)(\.\d{1,6})?$/`: the digits in front of the point and behind it. -/
def usdcParts (text : List Char) : Option (List Char × List Char) :=
  let whole := text.takeWhile Char.isDigit
  if whole = ['0'] ∨ (whole ≠ [] ∧ whole.head? ≠ some '0') then
    match text.dropWhile Char.isDigit with
    | [] => some (whole, [])
    | '.' :: fraction =>
      if Decimal.isDigits fraction = true ∧ fraction.length ≤ 6 then some (whole, fraction) else none
    | _ => none
  else none

def padEnd (width : Nat) (text : List Char) : List Char :=
  text ++ List.replicate (width - text.length) '0'

def parseUsdc (value : String) : Except String Int := do
  let parts ← okOr (usdcParts value.toList)
    "USDC amount must be a positive decimal with at most six places"
  .ok (Nat.ofDigitChars 10 parts.1 0 * usdcScale + Nat.ofDigitChars 10 (padEnd 6 parts.2) 0 : Nat)

/-- Digits from the last one on, with a comma behind every third. -/
def separated : List Char → List Char
  | a :: b :: c :: d :: rest => a :: b :: c :: ',' :: separated (d :: rest)
  | digits => digits

/-- `toLocaleString("en-US")` of a bigint that is not negative. -/
def localeDigits (n : Nat) : List Char := (separated (Nat.toDigits 10 n).reverse).reverse

/-- The six digits behind the point, without the zeros at their end. -/
def usdcFraction (n : Nat) : List Char :=
  let digits := Nat.toDigits 10 n
  let fraction := List.replicate (6 - digits.length) '0' ++ digits
  (fraction.reverse.dropWhile (· = '0')).reverse

/-- `formatUsdc` with all six places. -/
def formatUsdc (amount : Int) : String :=
  let sign := if amount < 0 then ['-'] else []
  let absolute := amount.natAbs
  let visible := usdcFraction (absolute % usdcScale)
  String.ofList (sign ++ localeDigits (absolute / usdcScale) ++
    if visible = [] then [] else '.' :: visible)

example : formatUsdc 1234567050000 = "1,234,567.05" := by decide

end Nortia.Client
