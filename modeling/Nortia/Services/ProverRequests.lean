import Nortia.Circuit.PlaceOrderInputs
import Nortia.Client.Economics
import Nortia.Client.PublicKey
import Nortia.Lib.Json
import Nortia.Program.PrivatePool
import Nortia.Web.Crypto

/-!
# `services/src/prover`

The checks of the hosted prover on the body of a request (`requests.ts`), and the values it hands to
the circuit (`server.ts`). A field the body leaves out is undefined.
-/

namespace Nortia.Services.ProverRequests

open Lib Client Web

structure RedeemRequest where
  marketId : String
  stakeAmount : String
  amount : String
  commitmentRoot : String
  outcome : Bool
  recipient : String
  payoutAmount : String
  netPool : String
  winningAmount : String
  side : Bool
  secret : String
  nullifier : String
  pathBits : List Bool
  siblings : List String
  deriving DecidableEq

/-! ## Fields -/

/-- `BigInt` of a text that passed a check. -/
def bigInt (text : String) : Int := (BigInt.parse text.toList).getD 0

def field (value : Option Json) (name : String) : Except String Int := do
  let text ← okOr (value.bind Json.asString) (name ++ " must be a 32-byte field")
  require (Hex.isWord text.toList = true) (name ++ " must be a 32-byte field")
  let parsed := bigInt text
  require (parsed < scalarModulus) (name ++ " exceeds the BN254 scalar field")
  .ok parsed

def decimalU64 (value : Option Json) (name : String) : Except String Int := do
  let text ← okOr (value.bind Json.asString) (name ++ " must be a decimal integer")
  require (Decimal.isDigits text.toList = true) (name ++ " must be a decimal integer")
  let parsed := bigInt text
  require (parsed ≤ u64Max) (name ++ " is outside the u64 range")
  .ok parsed

def privateStake (value : Option Json) : Except String Int := do
  let parsed ← decimalU64 value "stakeAmount"
  require (([1, 5, 10, 25, 50, 100, 250, 500, 1000].any fun tokens : Int =>
    tokens * 1000000 = parsed) = true) "stakeAmount is not a supported private collateral ceiling"
  .ok parsed

/-- The elements of an array, one after another, under their places. -/
def checkedSiblings : List Json → Nat → Except String (List Int)
  | [], _ => .ok []
  | item :: rest, index => do
    let sibling ← field (some item) ("siblings[" ++ toString index ++ "]")
    let siblings ← checkedSiblings rest (index + 1)
    .ok (sibling :: siblings)

/-- The text a field was checked to be. -/
def text (value : Json) (name : String) : String := (value.stringField name).getD ""

def checkedRedeem (isOnCurve : Pubkey → Bool) (value : Json) : Except String RedeemRequest := do
  require (value.isObject = true) "Invalid redeem proof request"
  let marketId ← okOr (value.stringField "marketId") "marketId must be a decimal integer"
  require (Decimal.isDigits marketId.toList = true) "marketId must be a decimal integer"
  let stakeAmount ← privateStake (value.field "stakeAmount")
  let amount ← decimalU64 (value.field "amount") "amount"
  let payoutAmount ← decimalU64 (value.field "payoutAmount") "payoutAmount"
  let netPool ← decimalU64 (value.field "netPool") "netPool"
  let winningAmount ← decimalU64 (value.field "winningAmount") "winningAmount"
  require (1000000 ≤ amount ∧ amount ≤ stakeAmount) "amount must be between 1 USDC and stakeAmount"
  require (winningAmount ≠ 0) "winningAmount must be positive"
  let recipient ← okOr (value.stringField "recipient") "recipient is required"
  let outcome ← okOr ((value.field "outcome").bind Json.asBool) "outcome and side must be boolean"
  let side ← okOr ((value.field "side").bind Json.asBool) "outcome and side must be boolean"
  let expectedPayout ← calculatePrivatePayout stakeAmount amount (side = outcome) netPool
    winningAmount
  require (payoutAmount = expectedPayout.payoutAmount)
    "payoutAmount does not match the confidential position settlement"
  let bits ← okOr ((value.field "pathBits").bind Json.asArray) "pathBits must contain 16 booleans"
  require (bits.length = Circuit.treeDepth) "pathBits must contain 16 booleans"
  let pathBits ← okOr (bits.mapM Json.asBool) "pathBits must contain 16 booleans"
  let siblings ← okOr ((value.field "siblings").bind Json.asArray) "siblings must contain 16 fields"
  require (siblings.length = Circuit.treeDepth) "siblings must contain 16 fields"
  require (0 < bigInt marketId ∧ bigInt marketId ≤ u64Max) "marketId is outside the u64 range"
  let key ← publicKey recipient
  require (isOnCurve key = true) "recipient must be a wallet address"
  let _ ← field (value.field "commitmentRoot") "commitmentRoot"
  let secret ← field (value.field "secret") "secret"
  require (secret ≠ 0) "secret must be non-zero"
  let nullifier ← field (value.field "nullifier") "nullifier"
  require (nullifier ≠ 0) "nullifier must be non-zero"
  let _ ← checkedSiblings siblings 0
  .ok {
    marketId
    stakeAmount := text value "stakeAmount"
    amount := text value "amount"
    commitmentRoot := text value "commitmentRoot"
    outcome
    recipient
    payoutAmount := text value "payoutAmount"
    netPool := text value "netPool"
    winningAmount := text value "winningAmount"
    side
    secret := text value "secret"
    nullifier := text value "nullifier"
    pathBits
    siblings := siblings.filterMap Json.asString }

structure PlaceRequest where
  marketId : String
  stakeAmount : String
  amount : String
  payer : String
  side : Bool
  secret : String
  nullifier : String
  sideCoefficient : String
  yesAmountCoefficient : String
  totalAmountCoefficient : String
  salts : List String
  deriving DecidableEq

/-- The fields that must not be zero, one after another. -/
def checkNonZero : List (String × Option Json) → Except String Unit
  | [] => .ok ()
  | (name, item) :: rest => do
    let value ← field item name
    require (value ≠ 0) (name ++ " must be non-zero")
    checkNonZero rest

def checkedPlace (value : Json) : Except String PlaceRequest := do
  require (value.isObject = true) "Invalid proof request"
  let marketId ← okOr (value.stringField "marketId") "marketId must be a decimal integer"
  require (Decimal.isDigits marketId.toList = true) "marketId must be a decimal integer"
  let stakeAmount ← privateStake (value.field "stakeAmount")
  let amount ← decimalU64 (value.field "amount") "amount"
  require (1000000 ≤ amount ∧ amount ≤ stakeAmount) "amount must be between 1 USDC and stakeAmount"
  let payer ← okOr (value.stringField "payer") "payer is required"
  let side ← okOr ((value.field "side").bind Json.asBool) "side must be boolean"
  let salts ← okOr ((value.field "salts").bind Json.asArray) "salts must contain three fields"
  require (salts.length = 3) "salts must contain three fields"
  require (0 < bigInt marketId ∧ bigInt marketId ≤ u64Max) "marketId is outside the u64 range"
  let _ ← publicKey payer
  checkNonZero [
    ("secret", value.field "secret"),
    ("nullifier", value.field "nullifier"),
    ("sideCoefficient", value.field "sideCoefficient"),
    ("yesAmountCoefficient", value.field "yesAmountCoefficient"),
    ("totalAmountCoefficient", value.field "totalAmountCoefficient"),
    ("salts[0]", salts[0]?),
    ("salts[1]", salts[1]?),
    ("salts[2]", salts[2]?)]
  .ok {
    marketId
    stakeAmount := text value "stakeAmount"
    amount := text value "amount"
    payer
    side
    secret := text value "secret"
    nullifier := text value "nullifier"
    sideCoefficient := text value "sideCoefficient"
    yesAmountCoefficient := text value "yesAmountCoefficient"
    totalAmountCoefficient := text value "totalAmountCoefficient"
    salts := salts.filterMap Json.asString }

/-! ## Proving -/

def littleEndianInteger (value : List UInt8) : Int := ofLeBytes value

def payerHash (P : Poseidon) (payer : Pubkey) : Int :=
  poseidonHash P (littleEndianInteger (payer.toList.take 16))
    (littleEndianInteger (payer.toList.drop 16))

/-- `proveRedeem`, up to the `Prover.toml` it writes for the circuit. -/
def proveRedeem (P : Poseidon) (input : RedeemRequest) : Except String Circuit.RedeemInputs := do
  let marketId := bigInt input.marketId
  let stakeAmount := bigInt input.stakeAmount
  let amount := bigInt input.amount
  let commitmentRoot ← field (some (.string input.commitmentRoot)) "commitmentRoot"
  let secret ← field (some (.string input.secret)) "secret"
  let nullifier ← field (some (.string input.nullifier)) "nullifier"
  let siblings ← checkedSiblings (input.siblings.map Json.string) 0
  let commitment := orderCommitment P marketId stakeAmount amount input.side secret nullifier
  let root ← merkleRoot P commitment input.pathBits siblings
  require (root = commitmentRoot) "Position is not included in the submitted commitment root"
  let recipient ← publicKey input.recipient
  let nullifierValue := nullifierHash P marketId nullifier
  .ok {
    marketId := fieldHex marketId
    stakeAmount := fieldHex stakeAmount
    commitmentRoot := fieldHex commitmentRoot
    outcome := input.outcome
    nullifierHash := fieldHex nullifierValue
    recipientHash := fieldHex (payerHash P recipient)
    netPool := fieldHex (bigInt input.netPool)
    winningAmount := fieldHex (bigInt input.winningAmount)
    payoutAmount := fieldHex (bigInt input.payoutAmount)
    side := input.side
    amount := toString amount
    secret := fieldHex secret
    nullifier := fieldHex nullifier
    pathBits := input.pathBits
    siblings := siblings.map fieldHex }

/-- The three salts of a checked request. -/
def saltFields (salts : List String) : Except String (PerMember Int) := do
  let one ← field (salts[0]?.map Json.string) "salts[0]"
  let two ← field (salts[1]?.map Json.string) "salts[1]"
  let three ← field (salts[2]?.map Json.string) "salts[2]"
  .ok { one, two, three }

/-- `provePlace`, up to the `Prover.toml`. -/
def provePlace (P : Poseidon) (input : PlaceRequest) : Except String Circuit.PlaceOrderInputs := do
  let marketId := bigInt input.marketId
  let stakeAmount := bigInt input.stakeAmount
  let amount := bigInt input.amount
  let payer ← publicKey input.payer
  let secret ← field (some (.string input.secret)) "secret"
  let nullifier ← field (some (.string input.nullifier)) "nullifier"
  let sideCoefficient ← field (some (.string input.sideCoefficient)) "sideCoefficient"
  let yesAmountCoefficient ← field (some (.string input.yesAmountCoefficient)) "yesAmountCoefficient"
  let totalAmountCoefficient ←
    field (some (.string input.totalAmountCoefficient)) "totalAmountCoefficient"
  let salts ← saltFields input.salts
  let commitment := orderCommitment P marketId stakeAmount amount input.side secret nullifier
  let shareCommitments := PerMember.of fun memberIndex => shareCommitment P
    (createShamirShare (if input.side then 1 else 0) sideCoefficient memberIndex)
    (createShamirShare (if input.side then amount else 0) yesAmountCoefficient memberIndex)
    (createShamirShare amount totalAmountCoefficient memberIndex) (salts.get memberIndex)
  .ok {
    marketId := fieldHex marketId
    stakeAmount := fieldHex stakeAmount
    payerHash := fieldHex (payerHash P payer)
    commitment := fieldHex commitment
    shareCommitment1 := fieldHex shareCommitments.one
    shareCommitment2 := fieldHex shareCommitments.two
    shareCommitment3 := fieldHex shareCommitments.three
    amount := toString amount
    side := input.side
    secret := fieldHex secret
    nullifier := fieldHex nullifier
    sideCoefficient := fieldHex sideCoefficient
    yesAmountCoefficient := fieldHex yesAmountCoefficient
    totalAmountCoefficient := fieldHex totalAmountCoefficient
    salt1 := fieldHex salts.one
    salt2 := fieldHex salts.two
    salt3 := fieldHex salts.three }

end Nortia.Services.ProverRequests
