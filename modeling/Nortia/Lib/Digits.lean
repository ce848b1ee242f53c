import Mathlib.Algebra.Group.Nat.Defs

/-!
# Fixed-width byte strings

A byte string of a fixed length carries its length. Numbers are written little-endian in a fixed
number of bytes and read back; two lists of one length that read as the same number are equal.
-/

namespace Lib

/-- Byte strings of length `n`. -/
def Bytes (n : Nat) : Type := { bytes : List UInt8 // bytes.length = n }

namespace Bytes

variable {n : Nat}

instance : DecidableEq (Bytes n) := inferInstanceAs (DecidableEq { l : List UInt8 // l.length = n })

/-- The same byte `n` times. -/
def fill (n : Nat) (b : UInt8) : Bytes n := ⟨List.replicate n b, List.length_replicate⟩

instance : Inhabited (Bytes n) := ⟨fill n 0⟩

def toList (b : Bytes n) : List UInt8 := b.1

@[simp] theorem length_toList (b : Bytes n) : b.toList.length = n := b.2

@[ext] theorem ext {a b : Bytes n} (h : a.toList = b.toList) : a = b := Subtype.ext h

/-- A list of the right length, or nothing. -/
def ofList? (n : Nat) (l : List UInt8) : Option (Bytes n) :=
  if h : l.length = n then some ⟨l, h⟩ else none

end Bytes

/-! ## Little-endian numbers -/

/-- The `n` low bytes of `x`, the lowest first. -/
def leBytes : Nat → Nat → List UInt8
  | 0, _ => []
  | n + 1, x => UInt8.ofNat (x % 256) :: leBytes n (x / 256)

/-- The two's complement of a signed number in `n` bytes. -/
def leBytesInt (n : Nat) (x : Int) : List UInt8 := leBytes n (x % (256 ^ n : Nat)).toNat

/-- The number a list of bytes writes, the lowest byte first. -/
def ofLeBytes : List UInt8 → Nat
  | [] => 0
  | b :: bs => b.toNat + 256 * ofLeBytes bs

/-- The signed number a list of bytes writes in two's complement. -/
def ofLeBytesInt (bs : List UInt8) : Int :=
  if 2 * ofLeBytes bs < 256 ^ bs.length then ofLeBytes bs
  else ofLeBytes bs - (256 ^ bs.length : Nat)

@[simp] theorem length_leBytes (n x : Nat) : (leBytes n x).length = n := by
  induction n generalizing x with
  | zero => rfl
  | succ n ih => simp [leBytes, ih]

theorem ofLeBytes_leBytes {n x : Nat} (h : x < 256 ^ n) : ofLeBytes (leBytes n x) = x := by
  induction n generalizing x with
  | zero => simp [leBytes, ofLeBytes]; omega
  | succ n ih =>
    have hdiv : x / 256 < 256 ^ n := by
      rw [Nat.pow_succ] at h
      exact Nat.div_lt_of_lt_mul (by omega)
    simp only [leBytes, ofLeBytes, ih hdiv, UInt8.toNat_ofNat']
    omega

theorem ofLeBytes_lt (bs : List UInt8) : ofLeBytes bs < 256 ^ bs.length := by
  induction bs with
  | nil => simp [ofLeBytes]
  | cons b bs ih =>
    have hb : b.toNat < 256 := b.toNat_lt
    simp only [ofLeBytes, List.length_cons, Nat.pow_succ]
    omega

/-- A list of bytes is the writing of its number. -/
theorem leBytes_ofLeBytes (bs : List UInt8) : leBytes bs.length (ofLeBytes bs) = bs := by
  induction bs with
  | nil => rfl
  | cons b bs ih =>
    have hb : b.toNat < 256 := b.toNat_lt
    have hmod : (b.toNat + 256 * ofLeBytes bs) % 256 = b.toNat := by omega
    have hdiv : (b.toNat + 256 * ofLeBytes bs) / 256 = ofLeBytes bs := by omega
    simp only [ofLeBytes, List.length_cons, leBytes, hmod, hdiv, ih, UInt8.ofNat_toNat]

theorem leBytes_zero (n : Nat) : leBytes n 0 = List.replicate n 0 := by
  induction n with
  | zero => rfl
  | succ n ih =>
    show UInt8.ofNat (0 % 256) :: leBytes n (0 / 256) = _
    rw [Nat.zero_div, ih, List.replicate_succ]
    rfl

/-- The bytes of a number are its low bytes followed by those of the rest. -/
theorem leBytes_add (m n x : Nat) : leBytes (m + n) x = leBytes m x ++ leBytes n (x / 256 ^ m) := by
  induction m generalizing x with
  | zero => simp [leBytes]
  | succ m ih =>
    rw [Nat.add_right_comm, leBytes, ih, leBytes, List.cons_append, Nat.div_div_eq_div_mul,
      Nat.pow_succ, Nat.mul_comm 256]

/-! ## Big-endian numbers -/

/-- The `n` low bytes of `x`, the highest first. -/
def beBytes (n x : Nat) : List UInt8 := (leBytes n x).reverse

/-- The number a list of bytes writes, the highest byte first. -/
def ofBeBytes (bs : List UInt8) : Nat := ofLeBytes bs.reverse

@[simp] theorem length_beBytes (n x : Nat) : (beBytes n x).length = n := by
  rw [beBytes, List.length_reverse, length_leBytes]

theorem ofBeBytes_beBytes {n x : Nat} (h : x < 256 ^ n) : ofBeBytes (beBytes n x) = x := by
  rw [ofBeBytes, beBytes, List.reverse_reverse, ofLeBytes_leBytes h]

/-- A number that fits fewer bytes is padded with zeros in front. -/
theorem beBytes_of_lt {m x : Nat} (n : Nat) (h : x < 256 ^ m) :
    beBytes (m + n) x = List.replicate n 0 ++ beBytes m x := by
  rw [beBytes, leBytes_add, Nat.div_eq_of_lt h, leBytes_zero, List.reverse_append,
    List.reverse_replicate, beBytes]

end Lib
