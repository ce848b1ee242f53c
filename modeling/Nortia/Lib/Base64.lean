import Nortia.Lib.Alphabet

/-!
# Base 64

Three bytes are written as four characters of six bits each, and the last group is padded. A reader
stops at the padding and passes over what is not a character of the alphabet.
-/

namespace Lib.Base64

open Alphabet

def alphabet : List Char :=
  ['A', 'B', 'C', 'D', 'E', 'F', 'G', 'H', 'I', 'J', 'K', 'L', 'M', 'N', 'O', 'P', 'Q', 'R', 'S',
    'T', 'U', 'V', 'W', 'X', 'Y', 'Z', 'a', 'b', 'c', 'd', 'e', 'f', 'g', 'h', 'i', 'j', 'k',
    'l', 'm', 'n', 'o', 'p', 'q', 'r', 's', 't', 'u', 'v', 'w', 'x', 'y', 'z', '0', '1', '2',
    '3', '4', '5', '6', '7', '8', '9', '+', '/']

/-- The groups of six bits. -/
def sextets : List UInt8 → List Nat
  | [] => []
  | [a] => [a.toNat / 4, a.toNat % 4 * 16]
  | [a, b] => [a.toNat / 4, a.toNat % 4 * 16 + b.toNat / 16, b.toNat % 16 * 4]
  | a :: b :: c :: rest =>
    a.toNat / 4 :: (a.toNat % 4 * 16 + b.toNat / 16) :: (b.toNat % 16 * 4 + c.toNat / 64) ::
      (c.toNat % 64) :: sextets rest

def padding (length : Nat) : List Char := List.replicate ((3 - length % 3) % 3) '='

def encode (bytes : List UInt8) : List Char := write alphabet (sextets bytes) ++ padding bytes.length

/-- The bytes of groups of six bits. -/
def ofSextets : List Nat → List UInt8
  | v :: w :: x :: y :: rest =>
    UInt8.ofNat (v * 4 + w / 16) :: UInt8.ofNat (w % 16 * 16 + x / 4) ::
      UInt8.ofNat (x % 4 * 64 + y) :: ofSextets rest
  | [v, w, x] => [UInt8.ofNat (v * 4 + w / 16), UInt8.ofNat (w % 16 * 16 + x / 4)]
  | [v, w] => [UInt8.ofNat (v * 4 + w / 16)]
  | _ => []

def decode (text : List Char) : List UInt8 :=
  ofSextets ((text.takeWhile (· ≠ '=')).filterMap alphabet.idxOf?)

/-- `/^[A-Za-z0-9+/]+={0,2}$/`. -/
def isBase64 (text : List Char) : Bool :=
  let rest := text.dropWhile fun c => alphabet.contains c
  (text.takeWhile fun c => alphabet.contains c) ≠ [] && rest.length ≤ 2 && rest.all (· = '=')

theorem sextets_lt (bytes : List UInt8) : ∀ d ∈ sextets bytes, d < 64 := by
  induction bytes using sextets.induct with
  | case1 =>
    intro d hd
    cases hd
  | case2 a =>
    have ha := a.toNat_lt
    intro d hd
    simp only [sextets, List.mem_cons, List.not_mem_nil, or_false] at hd
    omega
  | case3 a b =>
    have ha := a.toNat_lt
    have hb := b.toNat_lt
    intro d hd
    simp only [sextets, List.mem_cons, List.not_mem_nil, or_false] at hd
    omega
  | case4 a b c rest ih =>
    have ha := a.toNat_lt
    have hb := b.toNat_lt
    have hc := c.toNat_lt
    intro d hd
    simp only [sextets, List.mem_cons] at hd
    rcases hd with rfl | rfl | rfl | rfl | hrest
    · omega
    · omega
    · omega
    · omega
    · exact ih d hrest

/-- A byte is what its number says. -/
theorem ofNat_eq {a : UInt8} {n : Nat} (h : n = a.toNat) : UInt8.ofNat n = a := by
  rw [h, UInt8.ofNat_toNat]

theorem ofSextets_sextets (bytes : List UInt8) : ofSextets (sextets bytes) = bytes := by
  induction bytes using sextets.induct with
  | case1 => rfl
  | case2 a =>
    have ha := a.toNat_lt
    rw [sextets, ofSextets, ofNat_eq (a := a) (by omega)]
  | case3 a b =>
    have ha := a.toNat_lt
    have hb := b.toNat_lt
    rw [sextets, ofSextets, ofNat_eq (a := a) (by omega), ofNat_eq (a := b) (by omega)]
  | case4 a b c rest ih =>
    have ha := a.toNat_lt
    have hb := b.toNat_lt
    have hc := c.toNat_lt
    rw [sextets, ofSextets, ih, ofNat_eq (a := a) (by omega), ofNat_eq (a := b) (by omega),
      ofNat_eq (a := c) (by omega)]

theorem length_alphabet : alphabet.length = 64 := rfl

theorem nodup_alphabet : alphabet.Nodup := by decide +kernel

theorem mem_write {ds : List Nat} (h : ∀ d ∈ ds, d < 64) : ∀ c ∈ write alphabet ds, c ∈ alphabet := by
  intro c hc
  obtain ⟨d, hd, rfl⟩ := List.mem_map.mp hc
  rw [List.getD_eq_getElem _ _ (h d hd)]
  exact List.getElem_mem _

/-- The characters of an encoding up to the padding, and those after. -/
theorem encode_split {p : Char → Bool} (hp : alphabet.all p = true) (hpad : p '=' = false)
    (bytes : List UInt8) : (encode bytes).takeWhile p = write alphabet (sextets bytes) ∧
      (encode bytes).dropWhile p = padding bytes.length := by
  have hbody : ∀ c ∈ write alphabet (sextets bytes), p c = true := fun c hc =>
    List.all_eq_true.mp hp c (mem_write (sextets_lt bytes) c hc)
  have hpadding : (padding bytes.length).takeWhile p = [] ∧
      (padding bytes.length).dropWhile p = padding bytes.length := by
    rw [padding]
    cases (3 - bytes.length % 3) % 3 with
    | zero => exact ⟨rfl, rfl⟩
    | succ k => simp [List.replicate_succ, hpad]
  constructor
  · rw [encode, List.takeWhile_append_of_pos hbody, hpadding.1, List.append_nil]
  · rw [encode, List.dropWhile_append_of_pos hbody, hpadding.2]

theorem filterMap_write {ds : List Nat} (h : ∀ d ∈ ds, d < 64) :
    (write alphabet ds).filterMap alphabet.idxOf? = ds := by
  induction ds with
  | nil => rfl
  | cons d ds ih =>
    have hindex : List.idxOf? (alphabet.getD d ' ') alphabet = some d :=
      idxOf?_getD nodup_alphabet (length_alphabet ▸ h d List.mem_cons_self)
    rw [write, List.map_cons]
    refine (List.filterMap_cons_some (f := fun c => List.idxOf? c alphabet) hindex).trans ?_
    exact congrArg _ (ih fun e he => h e (List.mem_cons_of_mem _ he))

/-- **What was encoded decodes.** -/
theorem decode_encode (bytes : List UInt8) : decode (encode bytes) = bytes := by
  have hsplit := (encode_split (p := (· ≠ '=')) (by decide +kernel) (by decide) bytes).1
  rw [decode, hsplit, filterMap_write (sextets_lt bytes), ofSextets_sextets]

/-- **An encoding of some bytes is base 64.** -/
theorem isBase64_encode {bytes : List UInt8} (h : bytes ≠ []) : isBase64 (encode bytes) = true := by
  obtain ⟨htake, hdrop⟩ := encode_split (p := fun c => alphabet.contains c) (by decide +kernel)
    (by decide) bytes
  have hsextets : sextets bytes ≠ [] := by
    cases bytes using sextets.fun_cases with
    | case1 => exact absurd rfl h
    | case2 => simp [sextets]
    | case3 => simp [sextets]
    | case4 => simp [sextets]
  have hpadding : (padding bytes.length).length ≤ 2 := by
    rw [padding, List.length_replicate]
    omega
  have hequals : (padding bytes.length).all (· = '=') = true := by
    rw [List.all_eq_true]
    intro c hc
    exact decide_eq_true (List.eq_of_mem_replicate hc)
  rw [isBase64]
  simp only [htake, hdrop, hequals, Bool.and_true, Bool.and_eq_true, decide_eq_true_eq]
  exact ⟨by simpa [write] using hsextets, hpadding⟩

end Lib.Base64
