import Nortia.Lib.Base58
import Nortia.Lib.Result
import Nortia.Program.Types

/-!
# Public keys as text

What `@solana/web3.js` makes of a key and of a text. Whether a key is a point of the curve is asked
of a parameter wherever it is asked.
-/

namespace Nortia.Client

open Lib

def toBase58 (key : Pubkey) : String := String.ofList (Base58.encode key.toList)

/-- `new PublicKey(value)` of a text. -/
def publicKey (value : String) : Except String Pubkey := do
  let bytes ← okOr (Base58.decode value.toList) "Non-base58 character"
  okOr (Bytes.ofList? 32 bytes) "Invalid public key input"

/-- **A key reads as itself.** -/
theorem publicKey_toBase58 (key : Pubkey) : publicKey (toBase58 key) = .ok key := by
  have hdecode : Base58.decode (toBase58 key).toList = some key.toList := by
    rw [toBase58, String.toList_ofList, Base58.decode_encode]
  have hkey : Bytes.ofList? 32 key.toList = some key := dif_pos key.length_toList
  simp only [publicKey, hdecode, hkey, okOr, ok_bind]

/-- Only one text reads as a key. -/
theorem toBase58_of_publicKey {value : String} {key : Pubkey} (h : publicKey value = .ok key) :
    toBase58 key = value := by
  obtain ⟨bytes, hbytes, hkey⟩ := bind_eq_ok.mp h
  rw [okOr_eq_ok] at hbytes hkey
  have hlist : key.toList = bytes := by
    unfold Bytes.ofList? at hkey
    split at hkey
    · cases hkey
      rfl
    · cases hkey
  rw [toBase58, hlist, Base58.encode_of_decode hbytes, String.ofList_toList]

theorem publicKey_injective {value value' : String} {key : Pubkey} (h : publicKey value = .ok key)
    (h' : publicKey value' = .ok key) : value = value' :=
  (toBase58_of_publicKey h).symm.trans (toBase58_of_publicKey h')

end Nortia.Client
