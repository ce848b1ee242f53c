import Nortia.Lib.Alphabet

/-!
# Base 58

Base 58 writes bytes as the digits of one number, with a character for each zero byte in front.
-/

namespace Lib.Base58

open Alphabet

def alphabet : List Char :=
  ['1', '2', '3', '4', '5', '6', '7', '8', '9', 'A', 'B', 'C', 'D', 'E', 'F', 'G', 'H', 'J', 'K',
    'L', 'M', 'N', 'P', 'Q', 'R', 'S', 'T', 'U', 'V', 'W', 'X', 'Y', 'Z', 'a', 'b', 'c', 'd',
    'e', 'f', 'g', 'h', 'i', 'j', 'k', 'm', 'n', 'o', 'p', 'q', 'r', 's', 't', 'u', 'v', 'w',
    'x', 'y', 'z']

def encode (bytes : List UInt8) : List Char :=
  write alphabet (Radix.convert 256 58 (bytes.map UInt8.toNat))

def decode (text : List Char) : Option (List UInt8) :=
  (read alphabet text).map fun ds => (Radix.convert 58 256 ds).map UInt8.ofNat

theorem bytes_lt (bytes : List UInt8) : ∀ d ∈ bytes.map UInt8.toNat, d < 256 := by
  intro d hd
  obtain ⟨b, -, rfl⟩ := List.mem_map.mp hd
  exact b.toNat_lt

/-- **What was encoded decodes.** -/
theorem decode_encode (bytes : List UInt8) : decode (encode bytes) = some bytes := by
  have hread : read alphabet (encode bytes) = some (Radix.convert 256 58 (bytes.map UInt8.toNat)) :=
    read_write (by decide +kernel) (Radix.convert_lt (by decide))
  rw [decode, hread, Option.map_some, Radix.convert_convert (by decide) (bytes_lt bytes),
    List.map_map]
  exact congrArg some (List.map_id'' (fun b => UInt8.ofNat_toNat) bytes)

/-- **A text that decodes is the encoding of its bytes.** -/
theorem encode_of_decode {text : List Char} {bytes : List UInt8} (h : decode text = some bytes) :
    encode bytes = text := by
  obtain ⟨ds, hread, rfl⟩ := Option.map_eq_some_iff.mp h
  obtain ⟨hwrite, hlt⟩ := write_of_read hread
  have hbytes : ((Radix.convert 58 256 ds).map UInt8.ofNat).map UInt8.toNat =
      Radix.convert 58 256 ds := by
    rw [List.map_map]
    refine (List.map_congr_left fun d hd => ?_).trans (List.map_id _)
    have hd := Radix.convert_lt (b := 58) (by decide : 1 < 256) d hd
    simpa using hd
  have hlt : ∀ d ∈ ds, d < 58 := hlt
  rw [encode, hbytes, Radix.convert_convert (by decide) hlt, hwrite]

end Lib.Base58
