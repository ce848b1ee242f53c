import Nortia.Circuit.PlaceOrderInputs
import Nortia.Client.Economics
import Nortia.Client.PublicKey
import Nortia.Lib.Base64
import Nortia.Lib.HexBytes
import Nortia.Lib.Json
import Nortia.Program.Market
import Nortia.Web.Crypto
import Nortia.Web.Positions

/-!
# `web/components/private-order-panel.tsx`: `submit`

What the panel computes, stores and sends when a private order is placed, and what the dashboard sends
again when a delivery to the committee failed. The account it fetches and the proof a prover returns are
arguments.
-/

namespace Nortia.Web

open Lib Client Circuit

structure ShareBundle where
  sideShare : Int
  yesAmountShare : Int
  totalAmountShare : Int

/-- What the panel computes before it asks for a proof. -/
structure PlaceValues where
  marketId : Int
  stakeAmount : Nat
  amount : Nat
  payerHash : Int
  bundles : PerMember ShareBundle
  shareCommitments : PerMember Int
  commitment : Int

/-- The numbers of a placement witness. -/
structure WitnessFields where
  secret : Int
  nullifier : Int
  sideCoefficient : Int
  yesAmountCoefficient : Int
  totalAmountCoefficient : Int
  salts : PerMember Int

def PlacementWitness.fields (witness : PlacementWitness) : Except String WitnessFields := do
  let secret ← fieldOfText witness.secret
  let nullifier ← fieldOfText witness.nullifier
  let sideCoefficient ← fieldOfText witness.sideCoefficient
  let yesAmountCoefficient ← fieldOfText witness.yesAmountCoefficient
  let totalAmountCoefficient ← fieldOfText witness.totalAmountCoefficient
  let one ← fieldOfText witness.salts.one
  let two ← fieldOfText witness.salts.two
  let three ← fieldOfText witness.salts.three
  .ok { secret, nullifier, sideCoefficient, yesAmountCoefficient, totalAmountCoefficient,
        salts := { one, two, three } }

def shareBundle (side : PositionSide) (amount : Int) (fields : WitnessFields)
    (memberIndex : MemberIndex) : ShareBundle where
  sideShare := createShamirShare (if side = .yes then 1 else 0) fields.sideCoefficient memberIndex
  yesAmountShare :=
    createShamirShare (if side = .yes then amount else 0) fields.yesAmountCoefficient memberIndex
  totalAmountShare := createShamirShare amount fields.totalAmountCoefficient memberIndex

/-- From the account on, up to the proof. `now` is in milliseconds, and `tokenBalance` that of the
wallet's token account, if there is one. -/
def placeValues (P : Poseidon) (account : Market) (now : Int) (payer : Pubkey)
    (tokenBalance : Option Nat) (amountInput : String) (side : PositionSide)
    (witness : PlacementWitness) : Except String PlaceValues := do
  let locked := "The market locked before this order could be prepared"
  require (account.phase = .open) locked
  require (isSafeInteger account.lockTs = true) "Number can only safely store up to 53 bits"
  require (now < account.lockTs * 1000) locked
  let balance ← okOr tokenBalance "The connected wallet needs devnet USDC from the Circle faucet"
  let amount ← parseUsdc amountInput
  require (1000000 ≤ amount ∧ amount ≤ account.stakeAmount)
    ("Choose a private wager between 1 and " ++ formatUsdc account.stakeAmount ++ " USDC")
  require (account.stakeAmount ≤ balance)
    ("The connected wallet needs " ++ formatUsdc account.stakeAmount ++ " devnet USDC collateral")
  let fields ← witness.fields
  let bundles := PerMember.of (shareBundle side amount fields)
  let payerHash ← solanaPublicKeyHash P payer.toList
  .ok {
    marketId := account.marketId
    stakeAmount := account.stakeAmount
    amount := amount.toNat
    payerHash
    bundles
    shareCommitments := PerMember.of fun memberIndex =>
      let bundle := bundles.get memberIndex
      shareCommitment P bundle.sideShare bundle.yesAmountShare bundle.totalAmountShare
        (fields.salts.get memberIndex)
    commitment := orderCommitment P account.marketId account.stakeAmount amount (side = .yes)
      fields.secret fields.nullifier }

/-! ## What is sent to a prover -/

/-- The inputs of the prover in the browser. -/
def placeInputs (values : PlaceValues) (side : PositionSide) (witness : PlacementWitness) :
    PlaceOrderInputs where
  marketId := fieldHex values.marketId
  stakeAmount := fieldHex values.stakeAmount
  payerHash := fieldHex values.payerHash
  commitment := fieldHex values.commitment
  shareCommitment1 := fieldHex values.shareCommitments.one
  shareCommitment2 := fieldHex values.shareCommitments.two
  shareCommitment3 := fieldHex values.shareCommitments.three
  amount := toString (values.amount : Int)
  side := side = .yes
  secret := witness.secret
  nullifier := witness.nullifier
  sideCoefficient := witness.sideCoefficient
  yesAmountCoefficient := witness.yesAmountCoefficient
  totalAmountCoefficient := witness.totalAmountCoefficient
  salt1 := witness.salts.one
  salt2 := witness.salts.two
  salt3 := witness.salts.three

/-- The body of the request to the hosted prover. -/
def placeRequest (values : PlaceValues) (payer : Pubkey) (side : PositionSide)
    (witness : PlacementWitness) : Json :=
  .object [
    ("marketId", .string (toString values.marketId)),
    ("stakeAmount", .string (toString (values.stakeAmount : Int))),
    ("amount", .string (toString (values.amount : Int))),
    ("payer", .string (toBase58 payer)),
    ("side", .bool (side = .yes)),
    ("secret", .string witness.secret),
    ("nullifier", .string witness.nullifier),
    ("sideCoefficient", .string witness.sideCoefficient),
    ("yesAmountCoefficient", .string witness.yesAmountCoefficient),
    ("totalAmountCoefficient", .string witness.totalAmountCoefficient),
    ("salts", .array (witness.salts.toList.map Json.string))]

/-! ## What is stored -/

/-- A share as the position keeps it until it is delivered. -/
structure StoredShare where
  memberIndex : MemberIndex
  sideShare : String
  yesAmountShare : String
  totalAmountShare : String
  salt : String
  expectedShareCommitment : String

def StoredShare.toJson (share : StoredShare) : Json :=
  .object [
    ("memberIndex", .number share.memberIndex.index),
    ("sideShare", .string share.sideShare),
    ("yesAmountShare", .string share.yesAmountShare),
    ("totalAmountShare", .string share.totalAmountShare),
    ("salt", .string share.salt),
    ("expectedShareCommitment", .string share.expectedShareCommitment)]

def committeeShares (values : PlaceValues) (witness : PlacementWitness) : PerMember StoredShare :=
  PerMember.of fun memberIndex =>
    let bundle := values.bundles.get memberIndex
    { memberIndex
      sideShare := fieldHex bundle.sideShare
      yesAmountShare := fieldHex bundle.yesAmountShare
      totalAmountShare := fieldHex bundle.totalAmountShare
      salt := witness.salts.get memberIndex
      expectedShareCommitment := fieldHex (values.shareCommitments.get memberIndex) }

theorem isDecimal_toString (n : Nat) : isDecimal (toString (n : Int)) = true :=
  Decimal.isDigits_repr n

/-- The position as it is stored before the wallet is asked to sign. -/
def preparedPosition (values : PlaceValues) (payer : Pubkey) (side : PositionSide)
    (witness : PlacementWitness) (marketAddress question createdAt : String) : PrivatePosition where
  owner := toBase58 payer
  marketId := toString values.marketId
  question
  side
  amount := toString (values.amount : Int)
  stakeAmount := toString (values.stakeAmount : Int)
  commitment := fieldHex values.commitment
  secret := witness.secret
  nullifier := witness.nullifier
  marketAddress := some (.string marketAddress)
  transactionSignature := none
  settlementSignature := none
  committeeShares := some (.array ((committeeShares values witness).toList.map StoredShare.toJson))
  createdAt := some (.string createdAt)
  status := some (.string PositionStatus.prepared.text)
  decimal := ⟨isDecimal_toString _, isDecimal_toString _⟩

/-- The position once the transaction is confirmed. -/
def deliveryPending (position : PrivatePosition) (transactionSignature : String) : PrivatePosition :=
  { position with
    transactionSignature := some (.string transactionSignature)
    status := some (.string PositionStatus.deliveryPending.text) }

/-! ## What is sent to the program -/

/-- `fieldBytes` of a text. -/
def fieldBytes (value : String) : Except String Bytes32 := do
  let hex := match value.toList with
    | '0' :: 'x' :: digits => digits
    | digits => digits
  require (hex.length = 64 ∧ hex.all Hex.isHexDigit = true) "Prover returned an invalid field element"
  okOr (Bytes.ofList? 32 (Hex.pairs hex)) "Prover returned an invalid field element"

/-- **The bytes of a field element** are those the program is sent. -/
theorem fieldBytes_fieldHex {n : Nat} (hn : n < scalarModulus) :
    fieldBytes (fieldHex n) = .ok (Field.toBytes (n : Field)) := by
  have hword : n < 16 ^ 64 := hn.trans (by decide)
  have hbytes : Hex.pairs (Hex.padStart 64 (Hex.numeral n)) = beBytes 32 n :=
    @Hex.pairs_padStart 32 n (by decide) (hn.trans (by decide))
  have hread : Bytes.ofList? 32 (beBytes 32 n) = some (Field.toBytes (n : Field)) := by
    rw [Bytes.ofList?, dif_pos (length_beBytes 32 n)]
    apply congrArg some
    apply Bytes.ext
    show beBytes 32 n = beBytes 32 ((n : Nat) : Field).val
    rw [ZMod.val_natCast_of_lt hn]
  rw [fieldBytes, fieldHex_toList]
  refine bind_eq_ok.mpr ⟨(), require_eq_ok.mpr ?_, ?_⟩
  · exact ⟨Hex.length_padStart (by decide) hword, Hex.isHexDigit_padStart 64 n⟩
  · show okOr (Bytes.ofList? 32 (Hex.pairs (Hex.padStart 64 (Hex.numeral n)))) _ = _
    rw [hbytes, hread]
    rfl

def placeOrderArgs (values : PlaceValues) (proof publicWitness : String) :
    Except String PlaceOrderArgs := do
  let commitment ← fieldBytes (fieldHex values.commitment)
  let first ← fieldBytes (fieldHex values.shareCommitments.one)
  let second ← fieldBytes (fieldHex values.shareCommitments.two)
  let third ← fieldBytes (fieldHex values.shareCommitments.three)
  .ok {
    commitment
    shareCommitments := { first, second, third }
    proof := Base64.decode proof.toList
    publicWitness := Base64.decode publicWitness.toList }

/-! ## What is sent to the committee -/

def decimalField (value : String) : Except String String := do
  let n ← fieldOfText value
  .ok (toString n)

/-- A share as it is delivered to its member. -/
def delivery (marketAddress : String) (orderIndex : Nat) (commitment placementSignature : String)
    (share : StoredShare) : Except String Json := do
  let orderCommitment ← decimalField commitment
  let sideShare ← decimalField share.sideShare
  let yesAmountShare ← decimalField share.yesAmountShare
  let totalAmountShare ← decimalField share.totalAmountShare
  let salt ← decimalField share.salt
  let expectedShareCommitment ← decimalField share.expectedShareCommitment
  .ok (.object [
    ("market", .string marketAddress),
    ("orderIndex", .number orderIndex),
    ("orderCommitment", .string orderCommitment),
    ("memberIndex", .number share.memberIndex.index),
    ("sideShare", .string sideShare),
    ("yesAmountShare", .string yesAmountShare),
    ("totalAmountShare", .string totalAmountShare),
    ("salt", .string salt),
    ("expectedShareCommitment", .string expectedShareCommitment),
    ("placementSignature", .string placementSignature)])

/-- The member of a number. -/
def memberOf : Option Json → Option MemberIndex
  | some (.number n) =>
    [MemberIndex.one, .two, .three].find? fun memberIndex => (memberIndex.index : Rat) = n
  | _ => none

/-- A share as it is read back from a stored position. -/
def StoredShare.ofJson (value : Json) : Option StoredShare := do
  let memberIndex ← memberOf (value.field "memberIndex")
  let sideShare ← value.stringField "sideShare"
  let yesAmountShare ← value.stringField "yesAmountShare"
  let totalAmountShare ← value.stringField "totalAmountShare"
  let salt ← value.stringField "salt"
  let expectedShareCommitment ← value.stringField "expectedShareCommitment"
  some { memberIndex, sideShare, yesAmountShare, totalAmountShare, salt, expectedShareCommitment }

/-- What `retryCommitteeDelivery` of the dashboard delivers for a stored position, given the index of
its order. -/
def retryDeliveries (position : PrivatePosition) (orderIndex : Nat) : Option (List Json) := do
  let marketAddress ← position.marketAddress.bind Json.asString
  let placementSignature ← position.transactionSignature.bind Json.asString
  let items ← position.committeeShares.bind Json.asArray
  guard (items.length = 3)
  let shares ← items.mapM StoredShare.ofJson
  (shares.mapM (delivery marketAddress orderIndex position.commitment placementSignature)).toOption

end Nortia.Web
