import Nortia.Lib.Alphabet
import Nortia.Lib.Digits
import Mathlib.Tactic.Ring

/-!
# Bytes in hexadecimal

Two digits write a byte. A padded numeral of twice as many digits writes the big-endian bytes of its
number.
-/

namespace Lib

theorem ofLeBytes_append (as bs : List UInt8) :
    ofLeBytes (as ++ bs) = ofLeBytes as + 256 ^ as.length * ofLeBytes bs := by
  induction as with
  | nil => simp [ofLeBytes]
  | cons a as ih =>
    rw [List.cons_append, ofLeBytes, ih, ofLeBytes, List.length_cons]
    ring

theorem ofBeBytes_cons (b : UInt8) (bs : List UInt8) :
    ofBeBytes (b :: bs) = b.toNat * 256 ^ bs.length + ofBeBytes bs := by
  rw [ofBeBytes, List.reverse_cons, ofLeBytes_append, List.length_reverse, ofBeBytes]
  simp only [ofLeBytes]
  ring

theorem beBytes_ofBeBytes (bs : List UInt8) : beBytes bs.length (ofBeBytes bs) = bs := by
  have h := leBytes_ofLeBytes bs.reverse
  rw [List.length_reverse] at h
  rw [beBytes, ofBeBytes, h, List.reverse_reverse]

theorem Radix.value_cons (b d : Nat) (ds : List Nat) :
    Radix.value b (d :: ds) = d * b ^ ds.length + Radix.value b ds := by
  rw [Radix.value, List.reverse_cons, Nat.ofDigits_append, List.length_reverse,
    Nat.ofDigits_singleton, ← Radix.value]
  ring

namespace Hex

open Alphabet

/-- The bytes of pairs of hexadecimal digits. -/
def pairs : List Char → List UInt8
  | a :: b :: rest => UInt8.ofNat ((value? [a, b]).getD 0) :: pairs rest
  | _ => []

theorem value?_write {ds : List Nat} (h : ∀ d ∈ ds, d < 16) :
    value? (write alphabet ds) = some (Radix.value 16 ds) := by
  rw [value?, map_toLower (mem_write h), read_write (by decide) h, Option.map_some]

/-- An even number of digits writes the bytes of their number. -/
theorem pairs_write : ∀ {k : Nat} {ds : List Nat}, ds.length = 2 * k → (∀ d ∈ ds, d < 16) →
    (pairs (write alphabet ds)).length = k ∧
      ofBeBytes (pairs (write alphabet ds)) = Radix.value 16 ds := by
  intro k
  induction k with
  | zero =>
    intro ds hlength _
    rw [List.length_eq_zero_iff.mp hlength]
    exact ⟨rfl, rfl⟩
  | succ k ih =>
    intro ds hlength hlt
    match ds with
    | a :: b :: rest =>
      simp only [List.forall_mem_cons] at hlt
      obtain ⟨ha, hb, hrest⟩ := hlt
      have hlength : rest.length = 2 * k := by
        rw [List.length_cons, List.length_cons] at hlength
        omega
      obtain ⟨hpairs, hvalue⟩ := ih hlength hrest
      have hbyte : value? (write alphabet [a, b]) = some (16 * a + b) := by
        rw [value?_write (by simp [ha, hb]), Radix.value_cons, Radix.value_cons]
        simp [Radix.value, Nat.mul_comm]
      have hnat : (UInt8.ofNat (16 * a + b)).toNat = 16 * a + b :=
        UInt8.toNat_ofNat_of_lt' (show 16 * a + b < 256 by omega)
      have hcons : pairs (write alphabet (a :: b :: rest)) =
          UInt8.ofNat (16 * a + b) :: pairs (write alphabet rest) := by
        have hunfold : pairs (write alphabet (a :: b :: rest)) =
            UInt8.ofNat ((value? (write alphabet [a, b])).getD 0) ::
              pairs (write alphabet rest) := rfl
        rw [hunfold, hbyte, Option.getD_some]
      rw [hcons]
      constructor
      · rw [List.length_cons, hpairs]
      · rw [ofBeBytes_cons, hnat, hpairs, hvalue, Radix.value_cons, Radix.value_cons,
          List.length_cons, hlength, pow_succ, pow_mul]
        norm_num
        ring

/-- **A padded numeral is the bytes of its number.** -/
theorem pairs_padStart {k n : Nat} (hk : 0 < k) (h : n < 256 ^ k) :
    pairs (padStart (2 * k) (numeral n)) = beBytes k n := by
  have hpow : (16 : Nat) ^ (2 * k) = 256 ^ k := by
    rw [pow_mul]
    norm_num
  have hlength := length_padStart (n := n) (Nat.mul_pos (by decide) hk) (hpow ▸ h)
  obtain ⟨ds, heq, hlt, hvalue⟩ := padStart_numeral (2 * k) n
  rw [heq] at hlength ⊢
  rw [write, List.length_map] at hlength
  obtain ⟨hpairs, hbytes⟩ := pairs_write hlength hlt
  rw [← beBytes_ofBeBytes (pairs (write alphabet ds)), hpairs, hbytes, hvalue]

end Hex

end Lib
