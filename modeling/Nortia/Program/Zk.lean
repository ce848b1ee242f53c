import Nortia.Circuit.Field
import Nortia.Program.Market
import Nortia.Program.Oracles

/-!
# `zk.rs`: checking a proof against its public inputs

The verifier programs are called with the proof followed by the public witness: a header of 12
bytes and the public inputs, 32 big-endian bytes each. Whether such a call succeeds is a parameter.
-/

namespace Nortia

open Lib

/-- What the private pool calls outside its own sources. -/
structure PrivateRuntime extends Runtime where
  poseidon : Poseidon
  invokeVerifier : Pubkey → List UInt8 → Bool

namespace Zk

def placementPublicInputs : Nat := 7
def redeemPublicInputs : Nat := 9
def witnessHeaderLen : Nat := 12
def fieldLen : Nat := 32
def maxProofLen : Nat := 512

/-- The two halves of a key, each read little-endian. -/
def pubkeyFields (key : Pubkey) : Field × Field :=
  ((ofLeBytes (key.toList.take 16) : Field), (ofLeBytes (key.toList.drop 16) : Field))

def pubkeyHash (rt : PrivateRuntime) (key : Pubkey) : Bytes32 :=
  Field.toBytes (rt.poseidon (pubkeyFields key).1 (pubkeyFields key).2)

def fieldFromU64 (value : Nat) : Bytes32 :=
  ⟨List.replicate 24 0 ++ beBytes 8 value, by simp⟩

/-- The `index`-th public input of a witness. -/
def witnessField (witness : List UInt8) (index : Nat) : List UInt8 :=
  (witness.drop (witnessHeaderLen + index * fieldLen)).take fieldLen

def verify (rt : PrivateRuntime) (expectedFields : List Bytes32) (proof witness : List UInt8)
    (verifier : AccountInfo) (expectedVerifier : Pubkey) : Except Failure Unit := do
  check (128 ≤ proof.length ∧ proof.length ≤ maxProofLen) .invalidProofLength
  check (witness.length = witnessHeaderLen + expectedFields.length * fieldLen)
    .invalidWitnessLength
  check (verifier.key = expectedVerifier) .invalidVerifierProgram
  check (verifier.executable = true) .invalidVerifierProgram
  check ((expectedFields.zipIdx.all fun e => witnessField witness e.2 = e.1.toList) = true)
    .publicWitnessMismatch
  require (rt.invokeVerifier expectedVerifier (proof ++ witness) = true) .invokedProgram

/-- The public inputs of a placement. -/
def placeFields (rt : PrivateRuntime) (market : Market) (payer : Pubkey) (commitment : Bytes32)
    (shareCommitments : ShareCommitments) : List Bytes32 :=
  [fieldFromU64 market.marketId, fieldFromU64 market.stakeAmount, pubkeyHash rt payer, commitment,
    shareCommitments.first, shareCommitments.second, shareCommitments.third]

def verifyPlace (rt : PrivateRuntime) (market : Market) (payer : Pubkey) (args : PlaceOrderArgs)
    (verifier : AccountInfo) : Except Failure Unit :=
  verify rt (placeFields rt market payer args.commitment args.shareCommitments) args.proof
    args.publicWitness verifier market.placementVerifier

/-- The public inputs of a redemption. -/
def redeemFields (rt : PrivateRuntime) (market : Market) (recipient : Pubkey)
    (nullifierHash : Bytes32) (payoutAmount : Nat) : List Bytes32 :=
  [fieldFromU64 market.marketId, fieldFromU64 market.stakeAmount, market.commitmentRoot,
    fieldFromU64 market.outcome, nullifierHash, pubkeyHash rt recipient,
    fieldFromU64 market.netPool, fieldFromU64 market.winningAmount, fieldFromU64 payoutAmount]

def verifyRedeem (rt : PrivateRuntime) (market : Market) (recipient : Pubkey) (args : RedeemArgs)
    (verifier : AccountInfo) : Except Failure Unit :=
  verify rt (redeemFields rt market recipient args.nullifierHash args.payoutAmount) args.proof
    args.publicWitness verifier market.redeemVerifier

/-! ## What a verified witness says -/

theorem fieldFromU64_eq {value : Nat} (h : value ≤ u64Max) :
    fieldFromU64 value = Field.toBytes (value : Field) := by
  apply Bytes.ext
  have hlt : value < 256 ^ 8 := Nat.lt_of_le_of_lt h (by decide)
  show List.replicate 24 0 ++ beBytes 8 value = beBytes 32 ((value : Nat) : Field).val
  rw [Field.val_u64 h]
  exact (beBytes_of_lt 24 hlt).symm

/-- The 32-byte pieces of a list of bytes. -/
private theorem eq_flatMap_of_pieces :
    ∀ (fields : List Bytes32) (start : Nat) (witness : List UInt8),
      witness.length = witnessHeaderLen + (start + fields.length) * fieldLen →
      (∀ e ∈ fields.zipIdx start, witnessField witness e.2 = e.1.toList) →
        witness.drop (witnessHeaderLen + start * fieldLen) = fields.flatMap Bytes.toList := by
  intro fields
  induction fields with
  | nil =>
    intro start witness hlen _
    rw [List.flatMap_nil]
    exact List.drop_eq_nil_of_le (by simpa using hlen.le)
  | cons field rest ih =>
    intro start witness hlen hpieces
    have hhead : witnessField witness start = field.toList := hpieces (field, start) (by simp)
    have hcount : start + 1 + rest.length = start + (field :: rest).length := by
      rw [List.length_cons, Nat.add_assoc, Nat.add_comm 1]
    have htail := ih (start + 1) witness (by rw [hcount, hlen]) fun e he =>
      hpieces e (by rw [List.zipIdx_cons]; exact List.mem_cons_of_mem _ he)
    have hnext : witnessHeaderLen + (start + 1) * fieldLen =
        witnessHeaderLen + start * fieldLen + fieldLen := by
      rw [Nat.add_mul, Nat.one_mul, Nat.add_assoc]
    have hsplit := List.take_append_drop fieldLen
      (witness.drop (witnessHeaderLen + start * fieldLen))
    rw [List.drop_drop] at hsplit
    rw [List.flatMap_cons, ← hhead, ← htail, hnext]
    exact hsplit.symm

/-- A verified witness is its header and the expected public inputs, and the program accepts it. -/
theorem verify_ok {rt : PrivateRuntime} {expectedFields : List Bytes32} {proof witness : List UInt8}
    {verifier : AccountInfo} {expectedVerifier : Pubkey} {u : Unit}
    (h : verify rt expectedFields proof witness verifier expectedVerifier = .ok u) :
    witness.length = witnessHeaderLen + expectedFields.length * fieldLen ∧
      witness.drop witnessHeaderLen = expectedFields.flatMap Bytes.toList ∧
      rt.invokeVerifier expectedVerifier (proof ++ witness) = true := by
  simp only [verify, bind_eq_ok, check_eq_ok, require_eq_ok, exists_const] at h
  obtain ⟨-, hlen, -, -, hpieces, hinvoked⟩ := h
  refine ⟨hlen, ?_, hinvoked⟩
  have hall := List.all_eq_true.mp hpieces
  have hflat := eq_flatMap_of_pieces expectedFields 0 witness (by rw [hlen, Nat.zero_add])
    fun e he => of_decide_eq_true (hall e he)
  rwa [Nat.zero_mul, Nat.add_zero] at hflat

/-- Two lists of field elements with the same bytes are equal. -/
theorem flatMap_toBytes_injective :
    ∀ {a b : List Bytes32}, a.length = b.length →
      a.flatMap Bytes.toList = b.flatMap Bytes.toList → a = b := by
  intro a
  induction a with
  | nil =>
    intro b hlen _
    exact (List.length_eq_zero_iff.mp hlen.symm).symm
  | cons x xs ih =>
    intro b hlen h
    cases b with
    | nil => simp at hlen
    | cons y ys =>
      rw [List.flatMap_cons, List.flatMap_cons] at h
      obtain ⟨hhead, htail⟩ := List.append_inj h (by simp)
      rw [Bytes.ext hhead, ih (Nat.succ.inj hlen) htail]

end Zk

end Nortia
