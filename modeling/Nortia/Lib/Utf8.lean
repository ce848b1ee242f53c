import Mathlib.Data.List.Induction
import Mathlib.Tactic.Ring

/-!
# Decoding UTF-8 as it arrives

The streaming decoder of the Encoding Standard: a byte either completes a character, continues one,
or shows that the bytes before it were none, which becomes the replacement character. A byte order
mark in front of the stream is left out. Only a byte below `0x80` makes a character below `0x80`,
and makes it at once.
-/

namespace Lib.Utf8

def replacement : Char := Char.ofNat 0xFFFD

def byteOrderMark : Char := Char.ofNat 0xFEFF

/-- The code point of a character made from one. -/
theorem toNat_ofNat {n : Nat} (h : n.isValidChar) : (Char.ofNat n).toNat = n := by
  have hchar : Char.ofNat n = Char.ofNatAux n h := dif_pos h
  rw [hchar]
  rfl

/-! ## Incomplete characters -/

/-- The least code point a character can still have. -/
def lowest (codePoint missing lower : Nat) : Nat := (codePoint * 64 + (lower - 0x80)) * 64 ^ missing

/-- The code point after the greatest one a character can still have. -/
def beyond (codePoint missing upper : Nat) : Nat :=
  (codePoint * 64 + (upper - 0x80) + 1) * 64 ^ missing

/-- A character that some bytes began: its bits so far, the bytes that are missing after the next
one, and the bounds of the next one. However it goes on, it is a character and not ASCII. -/
structure Pending where
  codePoint : Nat
  missing : Nat
  lower : Nat
  upper : Nat
  lower_ge : 0x80 ≤ lower
  upper_le : upper ≤ 0xBF
  long : 0x80 ≤ lowest codePoint missing lower
  scalar : beyond codePoint missing upper ≤ 0xD800 ∨
    (0xE000 ≤ lowest codePoint missing lower ∧ beyond codePoint missing upper ≤ 0x110000)

/-- After the first byte of two. -/
def Pending.two (byte : Nat) (h : 0xC2 ≤ byte ∧ byte ≤ 0xDF) : Pending where
  codePoint := byte % 32
  missing := 0
  lower := 0x80
  upper := 0xBF
  lower_ge := Nat.le_refl _
  upper_le := Nat.le_refl _
  long := by
    simp only [lowest, Nat.pow_zero]
    omega
  scalar := by
    simp only [lowest, beyond, Nat.pow_zero]
    omega

/-- After the first byte of three; the second one excludes overlong forms and surrogates. -/
def Pending.three (byte : Nat) (h : 0xE0 ≤ byte ∧ byte ≤ 0xEF) : Pending where
  codePoint := byte % 16
  missing := 1
  lower := if byte = 0xE0 then 0xA0 else 0x80
  upper := if byte = 0xED then 0x9F else 0xBF
  lower_ge := by split <;> decide
  upper_le := by split <;> decide
  long := by
    simp only [lowest, Nat.pow_one]
    split <;> omega
  scalar := by
    simp only [lowest, beyond, Nat.pow_one]
    split <;> split <;> omega

/-- After the first byte of four; the second one keeps to the Unicode range. -/
def Pending.four (byte : Nat) (h : 0xF0 ≤ byte ∧ byte ≤ 0xF4) : Pending where
  codePoint := byte % 8
  missing := 2
  lower := if byte = 0xF0 then 0x90 else 0x80
  upper := if byte = 0xF4 then 0x8F else 0xBF
  lower_ge := by split <;> decide
  upper_le := by split <;> decide
  long := by
    have hsquare : (64 : Nat) ^ 2 = 4096 := rfl
    simp only [lowest, hsquare]
    split <;> omega
  scalar := by
    have hsquare : (64 : Nat) ^ 2 = 4096 := rfl
    simp only [lowest, beyond, hsquare]
    split <;> split <;> omega

namespace Pending

/-- The bits so far, with those of one more byte. -/
def extended (p : Pending) (byte : Nat) : Nat := p.codePoint * 64 + byte % 64

variable {p : Pending} {byte missing : Nat}

theorem extended_bounds (h : p.lower ≤ byte ∧ byte ≤ p.upper) :
    p.codePoint * 64 + (p.lower - 0x80) ≤ p.extended byte ∧
      p.extended byte + 1 ≤ p.codePoint * 64 + (p.upper - 0x80) + 1 := by
  have hlower := p.lower_ge
  have hupper := p.upper_le
  unfold extended
  omega

/-- One more byte narrows what the character can be. -/
theorem extended_range (h : p.lower ≤ byte ∧ byte ≤ p.upper) (hmissing : p.missing = missing + 1) :
    lowest p.codePoint p.missing p.lower ≤ lowest (p.extended byte) missing 0x80 ∧
      beyond (p.extended byte) missing 0xBF ≤ beyond p.codePoint p.missing p.upper := by
  obtain ⟨hlow, hhigh⟩ := extended_bounds h
  unfold lowest beyond
  rw [hmissing, Nat.pow_succ']
  constructor
  · calc (p.codePoint * 64 + (p.lower - 0x80)) * (64 * 64 ^ missing)
        ≤ p.extended byte * (64 * 64 ^ missing) := Nat.mul_le_mul_right _ hlow
      _ = (p.extended byte * 64 + (0x80 - 0x80)) * 64 ^ missing := by ring
  · calc (p.extended byte * 64 + (0xBF - 0x80) + 1) * 64 ^ missing
        = (p.extended byte + 1) * (64 * 64 ^ missing) := by ring
      _ ≤ (p.codePoint * 64 + (p.upper - 0x80) + 1) * (64 * 64 ^ missing) :=
        Nat.mul_le_mul_right _ hhigh

/-- After a continuing byte that is not the last one. -/
def continued (p : Pending) (byte : Nat) (h : p.lower ≤ byte ∧ byte ≤ p.upper) (missing : Nat)
    (hmissing : p.missing = missing + 1) : Pending where
  codePoint := p.extended byte
  missing := missing
  lower := 0x80
  upper := 0xBF
  lower_ge := Nat.le_refl _
  upper_le := Nat.le_refl _
  long := p.long.trans (extended_range h hmissing).1
  scalar := p.scalar.imp (extended_range h hmissing).2.trans fun hhigh =>
    ⟨hhigh.1.trans (extended_range h hmissing).1, (extended_range h hmissing).2.trans hhigh.2⟩

/-- The last byte completes a character that is not ASCII. -/
theorem extended_toNat (h : p.lower ≤ byte ∧ byte ≤ p.upper) (hmissing : p.missing = 0) :
    0x80 ≤ (Char.ofNat (p.extended byte)).toNat := by
  obtain ⟨hlow, hhigh⟩ := extended_bounds h
  have hlong := p.long
  have hscalar := p.scalar
  simp only [lowest, beyond, hmissing, Nat.pow_zero, Nat.mul_one] at hlong hscalar
  have hvalid : (p.extended byte).isValidChar := by
    unfold Nat.isValidChar
    omega
  rw [toNat_ofNat hvalid]
  omega

end Pending

/-! ## The decoder -/

/-- A byte where a character starts. -/
def start (byte : Nat) : Option Pending × List Char :=
  if byte ≤ 0x7F then (none, [Char.ofNat byte])
  else if h : 0xC2 ≤ byte ∧ byte ≤ 0xDF then (some (.two byte h), [])
  else if h : 0xE0 ≤ byte ∧ byte ≤ 0xEF then (some (.three byte h), [])
  else if h : 0xF0 ≤ byte ∧ byte ≤ 0xF4 then (some (.four byte h), [])
  else (none, [replacement])

/-- A byte inside a character; one that does not continue it is read again from the start. -/
def resume (p : Pending) (byte : Nat) : Option Pending × List Char :=
  if h : p.lower ≤ byte ∧ byte ≤ p.upper then
    match hmissing : p.missing with
    | 0 => (none, [Char.ofNat (p.extended byte)])
    | missing + 1 => (some (p.continued byte h missing hmissing), [])
  else ((start byte).1, replacement :: (start byte).2)

structure Decoder where
  pending : Option Pending
  bomSeen : Bool

def Decoder.initial : Decoder := { pending := none, bomSeen := false }

/-- What one byte makes, before the byte order mark is left out. -/
def Decoder.read (d : Decoder) (byte : UInt8) : Option Pending × List Char :=
  match d.pending with
  | none => start byte.toNat
  | some p => resume p byte.toNat

/-- The first character of a stream is left out when it is the byte order mark. -/
def stripMark (bomSeen : Bool) : List Char → Bool × List Char
  | [] => (bomSeen, [])
  | c :: text => (true, if bomSeen = false ∧ c = byteOrderMark then text else c :: text)

def Decoder.step (d : Decoder) (byte : UInt8) : Decoder × List Char :=
  ({ pending := (d.read byte).1, bomSeen := (stripMark d.bomSeen (d.read byte).2).1 },
    (stripMark d.bomSeen (d.read byte).2).2)

/-- `decode` with more to come: the decoder after some bytes, and the characters they made. -/
def Decoder.decode (d : Decoder) : List UInt8 → Decoder × List Char
  | [] => (d, [])
  | byte :: bytes =>
    (((d.step byte).1.decode bytes).1, (d.step byte).2 ++ ((d.step byte).1.decode bytes).2)

/-- **Bytes may come in any pieces.** -/
theorem Decoder.decode_append (d : Decoder) (xs ys : List UInt8) : d.decode (xs ++ ys) =
    (((d.decode xs).1.decode ys).1, (d.decode xs).2 ++ ((d.decode xs).1.decode ys).2) := by
  induction xs generalizing d with
  | nil => rfl
  | cons byte xs ih => simp only [List.cons_append, decode, ih, List.append_assoc]

/-- Three bytes of one character, cut after the second, and two bytes that make none. -/
example : ((Decoder.initial.decode [0xE2, 0x82]).1.decode [0xAC, 0xC0, 0x80]).2 =
    ['€', replacement, replacement] := by
  decide

/-! ## ASCII -/

theorem start_ascii {byte : Nat} {c : Char} (hc : c.toNat < 0x80) :
    c ∈ (start byte).2 → (start byte) = (none, [c]) ∧ c.toNat = byte := by
  intro hmem
  unfold start at hmem ⊢
  split at hmem
  · next hascii =>
    rw [if_pos hascii]
    cases List.mem_singleton.mp hmem
    have hvalid : byte.isValidChar := .inl (by omega)
    exact ⟨rfl, toNat_ofNat hvalid⟩
  · split at hmem
    · cases hmem
    split at hmem
    · cases hmem
    split at hmem
    · cases hmem
    · cases List.mem_singleton.mp hmem
      exact absurd hc (by decide)

theorem resume_ascii {p : Pending} {byte : Nat} {c : Char} (hc : c.toNat < 0x80)
    (hmem : c ∈ (resume p byte).2) : resume p byte = (none, [replacement, c]) ∧ c.toNat = byte := by
  unfold resume at hmem ⊢
  split at hmem
  · next hbounds =>
    split at hmem
    · next hmissing =>
      cases List.mem_singleton.mp hmem
      exact absurd hc (Nat.not_lt.mpr (Pending.extended_toNat hbounds hmissing))
    · cases hmem
  · next hbounds =>
    rcases List.mem_cons.mp hmem with rfl | hmem
    · exact absurd hc (by decide)
    · obtain ⟨hstart, hbyte⟩ := start_ascii hc hmem
      rw [dif_neg hbounds, hstart]
      exact ⟨rfl, hbyte⟩

namespace Decoder

variable {d : Decoder} {byte : UInt8} {c : Char}

/-- An ASCII character is made of the last byte, alone or after the replacement of what was
pending. -/
theorem read_ascii (hc : c.toNat < 0x80) (hmem : c ∈ (d.read byte).2) :
    (d.read byte).2.getLast? = some c ∧ c.toNat = byte.toNat ∧
      ((d.read byte).2.head? = some c → d.pending = none) := by
  unfold read at hmem ⊢
  split at hmem
  · next hpending =>
    obtain ⟨hstart, hbyte⟩ := start_ascii hc hmem
    rw [hstart]
    exact ⟨rfl, hbyte, fun _ => hpending⟩
  · obtain ⟨hresume, hbyte⟩ := resume_ascii hc hmem
    rw [hresume]
    refine ⟨rfl, hbyte, fun hhead => ?_⟩
    cases hhead
    exact absurd hc (by decide)

/-- A byte that makes nothing leaves a character pending. -/
theorem read_pending (h : (d.read byte).2 = []) : (d.read byte).1 ≠ none := by
  unfold read start resume at *
  grind

/-! ## The mark -/

@[simp] theorem stripMark_true (text : List Char) : stripMark true text = (true, text) := by
  cases text with
  | nil => rfl
  | cons c text => simp [stripMark]

theorem stripMark_sublist (bomSeen : Bool) (text : List Char) :
    (stripMark bomSeen text).2 <:+ text := by
  cases text with
  | nil => exact List.suffix_refl _
  | cons c text =>
    simp only [stripMark]
    split
    · exact List.suffix_cons _ _
    · exact List.suffix_refl _

theorem stripMark_fst {bomSeen : Bool} {text : List Char} (h : (stripMark bomSeen text).1 = false) :
    bomSeen = false ∧ text = [] := by
  cases text with
  | nil => exact ⟨h, rfl⟩
  | cons c text => cases h

theorem decode_concat (bytes : List UInt8) (byte : UInt8) : d.decode (bytes ++ [byte]) =
    (((d.decode bytes).1.step byte).1, (d.decode bytes).2 ++ ((d.decode bytes).1.step byte).2) := by
  rw [decode_append]
  simp only [decode, List.append_nil]

/-- Until the mark is looked for, nothing was made. -/
theorem decode_eq_nil {bytes : List UInt8} (h : (initial.decode bytes).1.bomSeen = false) :
    (initial.decode bytes).2 = [] := by
  induction bytes using List.reverseRecOn with
  | nil => rfl
  | append_singleton bytes byte ih =>
    rw [decode_concat] at h ⊢
    obtain ⟨hbefore, hread⟩ := stripMark_fst h
    have hstep : ((initial.decode bytes).1.step byte).2 = [] := by
      simp only [step, hread, stripMark]
    rw [ih hbefore, hstep]
    rfl

/-! ## Where an ASCII character comes from -/

/-- The last character is that of the last byte, unless one is pending. -/
theorem decode_last {bytes : List UInt8} (hidle : (initial.decode bytes).1.pending = none)
    (hlast : (initial.decode bytes).2.getLast? = some c) (hc : c.toNat < 0x80) :
    ∃ byte, bytes.getLast? = some byte ∧ c.toNat = byte.toNat := by
  induction bytes using List.reverseRecOn with
  | nil => cases hlast
  | append_singleton bytes byte _ =>
    rw [decode_concat] at hidle hlast
    refine ⟨byte, List.getLast?_concat, ?_⟩
    have hread : ((initial.decode bytes).1.read byte).2 ≠ [] := fun hnil =>
      read_pending hnil hidle
    rw [List.getLast?_append] at hlast
    cases hout : ((initial.decode bytes).1.step byte).2.getLast? with
    | some last =>
      rw [hout] at hlast
      cases hlast
      have hmem := List.mem_of_mem_getLast? hout
      exact (read_ascii hc ((stripMark_sublist _ _).mem hmem)).2.1
    | none =>
      -- the byte completed the mark, which is the first character
      rw [hout, Option.none_or] at hlast
      have hseen : (initial.decode bytes).1.bomSeen = false := by
        by_contra hseen
        have hstrip : ((initial.decode bytes).1.step byte).2 =
            ((initial.decode bytes).1.read byte).2 := by
          rw [step, Bool.of_not_eq_false hseen, stripMark_true]
        rw [List.getLast?_eq_none_iff, hstrip] at hout
        exact hread hout
      rw [decode_eq_nil hseen] at hlast
      cases hlast

/-- The first character after the mark was looked for is that of the first byte. -/
theorem decode_head {bytes : List UInt8} (hseen : d.bomSeen = true)
    (hhead : (d.decode bytes).2.head? = some c) (hc : c.toNat < 0x80) :
    d.pending = none ∧ ∃ byte, bytes.head? = some byte ∧ c.toNat = byte.toNat := by
  induction bytes generalizing d with
  | nil => cases hhead
  | cons byte bytes ih =>
    have hstep : d.step byte = (⟨(d.read byte).1, true⟩, (d.read byte).2) := by
      rw [step, hseen, stripMark_true]
    rw [decode, hstep, List.head?_append] at hhead
    cases hout : (d.read byte).2.head? with
    | some first =>
      rw [hout] at hhead
      cases hhead
      obtain ⟨-, hbyte, hidle⟩ := read_ascii hc (List.mem_of_mem_head? hout)
      exact ⟨hidle hout, byte, rfl, hbyte⟩
    | none =>
      rw [hout, Option.none_or] at hhead
      obtain ⟨hidle, -⟩ := ih rfl hhead
      exact absurd hidle (read_pending (List.head?_eq_none_iff.mp hout))

/-- **Two ASCII characters around a cut** are those of the bytes around it. -/
theorem decode_cut {before after : List UInt8} {last first : Char}
    (hlast : (initial.decode before).2.getLast? = some last)
    (hfirst : ((initial.decode before).1.decode after).2.head? = some first)
    (hascii : last.toNat < 0x80 ∧ first.toNat < 0x80) :
    (∃ byte, before.getLast? = some byte ∧ last.toNat = byte.toNat) ∧
      ∃ byte, after.head? = some byte ∧ first.toNat = byte.toNat := by
  have hseen : (initial.decode before).1.bomSeen = true := by
    by_contra hseen
    rw [decode_eq_nil (Bool.of_not_eq_true hseen)] at hlast
    cases hlast
  obtain ⟨hidle, hafter⟩ := decode_head hseen hfirst hascii.2
  exact ⟨decode_last hidle hlast hascii.1, hafter⟩

end Decoder

end Lib.Utf8
