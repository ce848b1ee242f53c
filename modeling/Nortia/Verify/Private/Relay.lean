import Nortia.Services.RelayerRequests
import Nortia.Verify.Private.Settlement
import Nortia.Web.Portfolio

/-!
# The relay of redemptions

The relay asks of the market what it asks of the recipient: to be a point of the curve. A market's
address is derived by the program, and no derived address is a point of the curve.
-/

namespace Nortia.PrivatePool

open Lib Client Web Services

section

variable {isOnCurve : Pubkey → Bool} {market recipient : Pubkey} {nullifierHash payoutAmount : Nat}
  {proof publicWitness : List UInt8}

/-- The relay accepts the request for a market as it was sent. -/
def Relayed (isOnCurve : Pubkey → Bool) (market recipient : Pubkey)
    (nullifierHash payoutAmount : Nat) (proof publicWitness : List UInt8) : Prop :=
  RelayerRequests.checkedRelayRedeem isOnCurve
      (relayRequest market recipient nullifierHash payoutAmount proof publicWitness) = .ok {
    market := toBase58 market
    recipient := toBase58 recipient
    nullifierHash := fieldHex nullifierHash
    payoutAmount := toString (payoutAmount : Int)
    proof := String.ofList (Base64.encode proof)
    publicWitness := String.ofList (Base64.encode publicWitness) }

/-- A request of the dashboard: a recipient on the curve, a hash of 32 bytes, a `u64` and a proof and
a witness of their lengths. -/
structure HonestRequest (isOnCurve : Pubkey → Bool) (recipient : Pubkey)
    (nullifierHash payoutAmount : Nat) (proof publicWitness : List UInt8) : Prop where
  recipient : isOnCurve recipient = true
  nullifierHash : nullifierHash < 16 ^ 64
  payoutAmount : payoutAmount ≤ u64Max
  proof : proof.length = 388
  publicWitness : publicWitness.length = 300

/-! ## Field by field -/

theorem publicKey_eq (isOnCurve : Pubkey → Bool) (key : Pubkey) (name : String) :
    RelayerRequests.publicKey isOnCurve (some (.string (toBase58 key))) name =
      if isOnCurve key = true then .ok (toBase58 key)
      else .error (name ++ " must be a wallet address") := by
  have htext : (some (Json.string (toBase58 key))).bind Json.asString = some (toBase58 key) := rfl
  simp only [RelayerRequests.publicKey, htext, okOr, ok_bind, publicKey_toBase58, require]
  split
  · rfl
  · rfl

theorem isCanonicalDecimal_repr (n : Nat) :
    RelayerRequests.isCanonicalDecimal n.repr.toList = true := by
  rw [RelayerRequests.isCanonicalDecimal, Bool.or_eq_true, Bool.and_eq_true]
  by_cases hzero : n = 0
  · subst hzero
    exact .inl rfl
  · refine .inr ⟨Decimal.isDigits_repr n, decide_eq_true ?_⟩
    rw [Nat.toList_repr]
    exact Decimal.head?_toDigits (Nat.pos_of_ne_zero hzero)

theorem decimalU64_eq {n : Nat} (h : n ≤ u64Max) (name : String) :
    RelayerRequests.decimalU64 (some (.string (toString (n : Int)))) name =
      .ok (toString (n : Int)) := by
  have hvalue : Nat.ofDigitChars 10 n.repr.toList 0 ≤ u64Max := by
    rw [Nat.toList_repr, Nat.ofDigitChars_ten_toDigits]
    exact h
  have hread : (some (Json.string (toString (n : Int)))).bind Json.asString = some n.repr := rfl
  rw [RelayerRequests.decimalU64]
  refine bind_eq_ok.mpr ⟨_, okOr_eq_ok.mpr hread, ?_⟩
  refine bind_eq_ok.mpr ⟨(), require_eq_ok.mpr (isCanonicalDecimal_repr n), ?_⟩
  exact bind_eq_ok.mpr ⟨(), require_eq_ok.mpr hvalue, rfl⟩

theorem canonicalBase64_eq {bytes : List UInt8} {length : Nat} (h : bytes.length = length)
    (hpos : 0 < length) (name : String) :
    RelayerRequests.canonicalBase64 (some (.string (String.ofList (Base64.encode bytes)))) name
      length = .ok (String.ofList (Base64.encode bytes)) := by
  have hne : bytes ≠ [] := by
    intro hnil
    rw [hnil, List.length_nil] at h
    omega
  have hchars : Base64.isBase64 (String.ofList (Base64.encode bytes)).toList = true := by
    rw [String.toList_ofList]
    exact Base64.isBase64_encode hne
  have hdecoded : (Base64.decode (String.ofList (Base64.encode bytes)).toList).length = length ∧
      Base64.encode (Base64.decode (String.ofList (Base64.encode bytes)).toList) =
        (String.ofList (Base64.encode bytes)).toList := by
    rw [String.toList_ofList, Base64.decode_encode]
    exact ⟨h, rfl⟩
  rw [RelayerRequests.canonicalBase64]
  refine bind_eq_ok.mpr ⟨_, okOr_eq_ok.mpr rfl, ?_⟩
  refine bind_eq_ok.mpr ⟨(), require_eq_ok.mpr hchars, ?_⟩
  exact bind_eq_ok.mpr ⟨(), require_eq_ok.mpr hdecoded, rfl⟩

theorem toLowerCase_fieldHex (n : Nat) :
    RelayerRequests.toLowerCase (fieldHex n) = fieldHex n := by
  have hdigits := Hex.map_toLower (Hex.mem_padStart 64 n)
  have hlower : (fieldHex n).toList.map Char.toLower = (fieldHex n).toList := by
    rw [fieldHex_toList, List.map_cons, List.map_cons, hdigits]
    rfl
  rw [RelayerRequests.toLowerCase, hlower, String.ofList_toList]

/-- A market off the curve is refused, whatever else the request says. -/
theorem refused_of_offCurve (h : isOnCurve market = false) :
    RelayerRequests.checkedRelayRedeem isOnCurve
        (relayRequest market recipient nullifierHash payoutAmount proof publicWitness) =
      .error "market must be a wallet address" := by
  have hmarket : (relayRequest market recipient nullifierHash payoutAmount proof
      publicWitness).field "market" = some (.string (toBase58 market)) := rfl
  rw [RelayerRequests.checkedRelayRedeem, require_pos (by rfl), ok_bind, hmarket, publicKey_eq,
    if_neg (by rw [h]; exact Bool.false_ne_true), error_bind]
  rfl

/-- **All but the market passes**: a request of the dashboard for an address on the curve is
accepted as it was sent. -/
theorem relayed_of_onCurve (h : isOnCurve market = true)
    (hrequest : HonestRequest isOnCurve recipient nullifierHash payoutAmount proof publicWitness) :
    Relayed isOnCurve market recipient nullifierHash payoutAmount proof publicWitness := by
  have hword : Hex.isWord (fieldHex nullifierHash).toList = true := by
    rw [fieldHex_toList]
    exact Hex.isWord_padStart hrequest.nullifierHash
  have hmarket := publicKey_eq isOnCurve market "market"
  have hrecipient := publicKey_eq isOnCurve recipient "recipient"
  rw [if_pos h] at hmarket
  rw [if_pos hrequest.recipient] at hrecipient
  rw [Relayed, RelayerRequests.checkedRelayRedeem]
  refine bind_eq_ok.mpr ⟨(), require_eq_ok.mpr rfl, ?_⟩
  refine bind_eq_ok.mpr ⟨_, hmarket, ?_⟩
  refine bind_eq_ok.mpr ⟨_, hrecipient, ?_⟩
  refine bind_eq_ok.mpr ⟨fieldHex nullifierHash, okOr_eq_ok.mpr rfl, ?_⟩
  refine bind_eq_ok.mpr ⟨(), require_eq_ok.mpr hword, ?_⟩
  refine bind_eq_ok.mpr ⟨_, decimalU64_eq hrequest.payoutAmount "payoutAmount", ?_⟩
  refine bind_eq_ok.mpr ⟨_, canonicalBase64_eq hrequest.proof (by decide) "proof", ?_⟩
  refine bind_eq_ok.mpr
    ⟨_, canonicalBase64_eq hrequest.publicWitness (by decide) "publicWitness", ?_⟩
  rw [toLowerCase_fieldHex]

/-- What the program guarantees of a derived address: it is no point of the curve. -/
def DerivesOffCurve (isOnCurve : Pubkey → Bool) (rt : Runtime) : Prop :=
  ∀ seeds program, isOnCurve (rt.findProgramAddress seeds program) = false

/-- **No redemption is relayed**, for no market the program has: its own address is refused. -/
theorem never_relayed {rt : Runtime} (hderived : DerivesOffCurve isOnCurve rt) (s : PrivateState)
    (recipient : Pubkey) (nullifierHash payoutAmount : Nat) (proof publicWitness : List UInt8) :
    ¬Relayed isOnCurve (s.marketKey rt) recipient nullifierHash payoutAmount proof
      publicWitness := by
  intro h
  have hmarket : isOnCurve (s.marketKey rt) = false :=
    hderived [marketSeed, s.market.authority.toList, leBytes 8 s.market.marketId] crateId
  rw [Relayed, refused_of_offCurve hmarket] at h
  cases h

end

/-! ### A settled market -/

namespace Ed25519

def prime : Nat := 2 ^ 255 - 19

/-- `-121665 / 121666`. -/
def d : Nat := 37095705934669439343138083508754565189542113879843219016388785533085940283555

/-- `base ^ exponent`, by squaring, for exponents of so many bits. -/
def power : Nat → Nat → Nat → Nat → Nat
  | 0, _, _, result => result
  | bits + 1, base, exponent, result =>
    power bits (base * base % prime) (exponent / 2)
      (if exponent % 2 = 1 then result * base % prime else result)

/-- Whether a key encodes a point: the square of the first coordinate has a root. -/
def isOnCurve (key : Pubkey) : Bool :=
  let y := ofLeBytes key.toList % 2 ^ 255
  let u := (y * y + prime - 1) % prime
  let v := (d * (y * y) + 1) % prime
  let square := u * power 255 v (prime - 2) 1 % prime
  y < prime && (square = 0 && ofLeBytes key.toList < 2 ^ 255 ||
    power 255 square ((prime - 1) / 2) 1 = 1)

end Ed25519

namespace Sample

theorem derivesOffCurve (poseidon : Poseidon) (invokeVerifier : Pubkey → List UInt8 → Bool) :
    DerivesOffCurve Ed25519.isOnCurve (runtime poseidon invokeVerifier).toRuntime := by
  have hmarket : Ed25519.isOnCurve marketKey = false := by decide +kernel
  have hscores : Ed25519.isOnCurve dailyScores = false := by decide +kernel
  intro seeds program
  show Ed25519.isOnCurve (if program = crateId then marketKey else dailyScores) = false
  split
  · exact hmarket
  · exact hscores

/-- The nullifier hash of the first order. -/
def firstHash : Nat := (poseidon 1 (openingAt 0).nullifier).val

/-- The public witness of the first order. -/
def firstWitness : List UInt8 :=
  witnessData ((redemption (openingAt 0)).fields.map Field.toBytes)

theorem honestRequest : HonestRequest Ed25519.isOnCurve bob firstHash (paid (openingAt 0))
    proofData firstWitness := by
  constructor
  case recipient => decide +kernel
  case nullifierHash => decide +kernel
  case payoutAmount => decide
  case proof => exact List.length_replicate
  case publicWitness => rw [firstWitness, length_witnessData]; rfl

end Sample

/-- The first order of a settled market is not relayed to a wallet on the curve. -/
theorem never_relayed_sample : ∃ s : PrivateState, s.market.phase = .resolved ∧
    ¬Relayed Ed25519.isOnCurve (s.marketKey Sample.market.toRuntime) Sample.bob Sample.firstHash
      (Sample.paid (Sample.openingAt 0)) Sample.proofData Sample.firstWitness := by
  obtain ⟨init, s, -, -, hready⟩ := executeAll_of_map Sample.settled_ready
  have hready : Sample.Ready s := of_decide_eq_true hready
  exact ⟨s, hready.1.1,
    never_relayed (Sample.derivesOffCurve Sample.poseidon Sample.invokeVerifier) s _ _ _ _ _⟩

/-- A market settles with four true orders, and the relay refuses the redemption of the first for
the market's own address. -/
theorem relay_refuses_a_market : ∃ (init s : PrivateState) (tr : List Event),
    Created init ∧ Run (Step Sample.market) init tr s ∧ s.market.phase = .resolved ∧
      Honest Sample.market Sample.hashed s Sample.openings ∧
      HonestRequest Ed25519.isOnCurve Sample.bob Sample.firstHash
        (Sample.paid (Sample.openingAt 0)) Sample.proofData Sample.firstWitness ∧
      RelayerRequests.checkedRelayRedeem Ed25519.isOnCurve
          (relayRequest (s.marketKey Sample.market.toRuntime) Sample.bob Sample.firstHash
            (Sample.paid (Sample.openingAt 0)) Sample.proofData Sample.firstWitness) =
        .error "market must be a wallet address" := by
  obtain ⟨init, s, hinit, hs, hready⟩ := executeAll_of_map Sample.settled_ready
  have hready : Sample.Ready s := of_decide_eq_true hready
  refine ⟨init, s, _, Sample.created_of_ok hinit, executeAll_run hs, hready.1.1,
    Sample.honest hready, Sample.honestRequest, ?_⟩
  exact refused_of_offCurve (Sample.derivesOffCurve Sample.poseidon Sample.invokeVerifier
    [marketSeed, s.market.authority.toList, leBytes 8 s.market.marketId] crateId)

end Nortia.PrivatePool
