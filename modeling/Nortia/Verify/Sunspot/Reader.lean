import Nortia.Lib.MsgPack
import Nortia.Lib.Result
import Nortia.Sunspot.Msgpackutil

/-!
# What the reader consumes

The lengths the reader reads are the headers of the MessagePack grammar, and `SkipValue` steps over
exactly one value.
-/

namespace Nortia.Sunspot

open Lib Lib.MsgPack

variable {α β σ : Type} {r r' : Reader} {bs : List UInt8} {t : WitnessTracker}

/-! ## Sequencing -/

theorem bind_ok {p : Decoder α} {f : α → Decoder β} {y : β} :
    (p >>= f) r = .ok (y, r') ↔ ∃ x r₁, p r = .ok (x, r₁) ∧ f x r₁ = .ok (y, r') := by
  show (StateT.bind p f) r = _ ↔ _
  rw [StateT.bind, show (bind : Except DecodeError (α × Reader) → _) = Except.bind from rfl]
  cases h : p r with
  | error e => simp [Except.bind]
  | ok s =>
    obtain ⟨x, r₁⟩ := s
    simp [Except.bind, and_assoc]

@[simp] theorem pure_ok {x y : α} : (pure x : Decoder α) r = .ok (y, r') ↔ y = x ∧ r' = r := by
  show Except.ok (x, r) = _ ↔ _
  rw [Except.ok.injEq, Prod.mk.injEq]
  exact ⟨fun h => ⟨h.1.symm, h.2.symm⟩, fun h => ⟨h.1.symm, h.2.symm⟩⟩

@[simp] theorem fail_ok {e : DecodeError} {x : α} : fail e r = .ok (x, r') ↔ False := by
  simp [fail]

@[simp] theorem wrap_ok {context : DecodeError → DecodeError} {p : Decoder α} {x : α} :
    wrap context p r = .ok (x, r') ↔ p r = .ok (x, r') := by
  unfold wrap
  exact mapError_ok_iff

/-! ## Bytes -/

@[simp] theorem peek_ok {b : UInt8} :
    peek ⟨bs, t⟩ = .ok (b, r') ↔ bs.head? = some b ∧ r' = ⟨bs, t⟩ := by
  cases bs with
  | nil => simp [peek]
  | cons c rest => simp [peek, eq_comm]

@[simp] theorem readByte_ok {b : UInt8} :
    readByte ⟨bs, t⟩ = .ok (b, r') ↔ ∃ rest, bs = b :: rest ∧ r' = ⟨rest, t⟩ := by
  cases bs with
  | nil => simp [readByte]
  | cons c rest => simp [readByte, eq_comm, and_assoc]

theorem readByte_bind {b : UInt8} (f : UInt8 → Decoder α) :
    (readByte >>= f) ⟨b :: bs, t⟩ = f b ⟨bs, t⟩ := rfl

theorem peek_bind {b : UInt8} (f : UInt8 → Decoder α) :
    (peek >>= f) ⟨b :: bs, t⟩ = f b ⟨b :: bs, t⟩ := rfl

@[simp] theorem readN_ok {n : Nat} {x : List UInt8} : readN n ⟨bs, t⟩ = .ok (x, r') ↔
    n ≤ bs.length ∧ x = bs.take n ∧ r' = ⟨bs.drop n, t⟩ := by
  rw [readN]
  split
  · next h => simp [h, eq_comm]
  · next h => split <;> simp [h]

@[simp] theorem readUnsigned_ok {n v : Nat} : readUnsigned n ⟨bs, t⟩ = .ok (v, r') ↔
    n ≤ bs.length ∧ v = ofBeBytes (bs.take n) ∧ r' = ⟨bs.drop n, t⟩ := by
  rw [readUnsigned, bind_ok]
  constructor
  · rintro ⟨x, r₁, hread, hpure⟩
    obtain ⟨hle, rfl, rfl⟩ := readN_ok.mp hread
    exact ⟨hle, pure_ok.mp hpure⟩
  · rintro ⟨hle, rfl, rfl⟩
    exact ⟨_, _, readN_ok.mpr ⟨hle, rfl, rfl⟩, pure_ok.mpr ⟨rfl, rfl⟩⟩

theorem skipBytes_ok {n : Nat} : skipBytes n ⟨bs, t⟩ = .ok ((), r') ↔
    n ≤ bs.length ∧ r' = ⟨bs.drop n, t⟩ := by
  rw [skipBytes, bind_ok]
  constructor
  · rintro ⟨x, r₁, hread, hpure⟩
    obtain ⟨hle, -, rfl⟩ := readN_ok.mp hread
    exact ⟨hle, (pure_ok.mp hpure).2⟩
  · rintro ⟨hle, rfl⟩
    exact ⟨_, _, readN_ok.mpr ⟨hle, rfl, rfl⟩, pure_ok.mpr ⟨rfl, rfl⟩⟩

/-! ## Headers -/

variable {b : UInt8} {n width : Nat} {f : Nat → Follow}

/-- The count behind a marker is the rest of its header. -/
theorem header_counted (hmarker : marker b = some (.counted width f))
    (hinj : Function.Injective f) :
    readUnsigned width ⟨bs, t⟩ = .ok (n, r') ↔
      ∃ rest, header (b :: bs) = some (f n, rest) ∧ r' = ⟨rest, t⟩ := by
  rw [readUnsigned_ok]
  simp only [header, hmarker]
  constructor
  · rintro ⟨hle, rfl, rfl⟩
    exact ⟨bs.drop width, if_pos hle, rfl⟩
  · rintro ⟨rest, hrest, rfl⟩
    split at hrest
    · next hle =>
      simp only [Option.some.injEq, Prod.mk.injEq] at hrest
      exact ⟨hle, (hinj hrest.1).symm, by rw [hrest.2]⟩
    · cases hrest

/-- A marker with its count in its own bits is a whole header. -/
theorem header_fixed {m : Nat} (hmarker : marker b = some (.fixed (f m)))
    (hinj : Function.Injective f) : (pure m : Decoder Nat) ⟨bs, t⟩ = .ok (n, r') ↔
      ∃ rest, header (b :: bs) = some (f n, rest) ∧ r' = ⟨rest, t⟩ := by
  rw [pure_ok]
  simp only [header, hmarker]
  constructor
  · rintro ⟨rfl, rfl⟩
    exact ⟨bs, rfl, rfl⟩
  · rintro ⟨rest, hrest, rfl⟩
    simp only [Option.some.injEq, Prod.mk.injEq] at hrest
    exact ⟨(hinj hrest.1).symm, by rw [hrest.2]⟩

theorem and_container (b : UInt8) : (b &&& markerFixContainerLenMask).toNat = b.toNat % 16 := by
  rw [UInt8.toNat_and]
  exact Nat.and_two_pow_sub_one_eq_mod b.toNat 4

theorem and_fixstr (b : UInt8) : (b &&& markerFixstrLenMask).toNat = b.toNat % 32 := by
  rw [UInt8.toNat_and]
  exact Nat.and_two_pow_sub_one_eq_mod b.toNat 5

theorem marker_fixmap (h : isFixmap b) :
    marker b = some (.fixed (.values (2 * (b &&& markerFixContainerLenMask).toNat))) := by
  rw [and_container]
  have hlow : ¬ b ≤ 0x7f := fun hle => absurd (UInt8.le_trans h.1 hle) (by decide)
  have hhigh : b ≤ 0x8f := h.2
  rw [marker, if_neg hlow, if_pos hhigh]

theorem marker_fixarray (h : isFixarray b) :
    marker b = some (.fixed (.values (b &&& markerFixContainerLenMask).toNat)) := by
  rw [and_container]
  have hlow : ¬ b ≤ 0x7f := fun hle => absurd (UInt8.le_trans h.1 hle) (by decide)
  have hmap : ¬ b ≤ 0x8f := fun hle => absurd (UInt8.le_trans h.1 hle) (by decide)
  have hhigh : b ≤ 0x9f := h.2
  rw [marker, if_neg hlow, if_neg hmap, if_pos hhigh]

theorem marker_fixstr (h : isFixstr b) :
    marker b = some (.fixed (.bytes (b &&& markerFixstrLenMask).toNat)) := by
  rw [and_fixstr]
  have hlow : ¬ b ≤ 0x7f := fun hle => absurd (UInt8.le_trans h.1 hle) (by decide)
  have hmap : ¬ b ≤ 0x8f := fun hle => absurd (UInt8.le_trans h.1 hle) (by decide)
  have harray : ¬ b ≤ 0x9f := fun hle => absurd (UInt8.le_trans h.1 hle) (by decide)
  have hhigh : b ≤ 0xbf := h.2
  rw [marker, if_neg hlow, if_neg hmap, if_neg harray, if_pos hhigh]

theorem bytes_injective : Function.Injective Follow.bytes := fun _ _ h => by cases h; rfl

theorem values_injective : Function.Injective Follow.values := fun _ _ h => by cases h; rfl

theorem pairs_injective : Function.Injective fun n => Follow.values (2 * n) := fun _ _ h => by
  have hn := values_injective h
  omega

/-- **The length of an array is its header.** -/
theorem readArrayLen_ok : readArrayLen ⟨b :: bs, t⟩ = .ok (n, r') ↔
    isArrayMarker b ∧ ∃ rest, header (b :: bs) = some (.values n, rest) ∧ r' = ⟨rest, t⟩ := by
  rw [readArrayLen, readByte_bind]
  by_cases hfix : isFixarray b
  · rw [if_pos hfix, and_iff_right (Or.inl hfix)]
    exact header_fixed (marker_fixarray hfix) values_injective
  rw [if_neg hfix]
  by_cases h16 : b = markerArray16
  · rw [if_pos h16, and_iff_right (Or.inr <| Or.inl h16)]
    exact header_counted (by subst h16; rfl) values_injective
  rw [if_neg h16]
  by_cases h32 : b = markerArray32
  · rw [if_pos h32, and_iff_right (Or.inr <| Or.inr h32)]
    exact header_counted (by subst h32; rfl) values_injective
  rw [if_neg h32]
  simp [isArrayMarker, hfix, h16, h32]

/-- The length of a map counts its keys and its values. -/
theorem readMapLen_ok : readMapLen ⟨b :: bs, t⟩ = .ok (n, r') ↔
    isMapMarker b ∧ ∃ rest, header (b :: bs) = some (.values (2 * n), rest) ∧ r' = ⟨rest, t⟩ := by
  rw [readMapLen, readByte_bind]
  by_cases hfix : isFixmap b
  · rw [if_pos hfix, and_iff_right (Or.inl hfix)]
    exact header_fixed (f := fun n => .values (2 * n)) (marker_fixmap hfix) pairs_injective
  rw [if_neg hfix]
  by_cases h16 : b = markerMap16
  · rw [if_pos h16, and_iff_right (Or.inr <| Or.inl h16)]
    exact header_counted (by subst h16; rfl) pairs_injective
  rw [if_neg h16]
  by_cases h32 : b = markerMap32
  · rw [if_pos h32, and_iff_right (Or.inr <| Or.inr h32)]
    exact header_counted (by subst h32; rfl) pairs_injective
  rw [if_neg h32]
  simp [isMapMarker, hfix, h16, h32]

theorem readStringLen_ok : readStringLen ⟨b :: bs, t⟩ = .ok (n, r') ↔
    isStringMarker b ∧ ∃ rest, header (b :: bs) = some (.bytes n, rest) ∧ r' = ⟨rest, t⟩ := by
  rw [readStringLen, readByte_bind]
  by_cases hfix : isFixstr b
  · rw [if_pos hfix, and_iff_right (Or.inl hfix)]
    exact header_fixed (marker_fixstr hfix) bytes_injective
  rw [if_neg hfix]
  by_cases h8 : b = markerStr8
  · rw [if_pos h8, and_iff_right (Or.inr <| Or.inl h8)]
    exact header_counted (by subst h8; rfl) bytes_injective
  rw [if_neg h8]
  by_cases h16 : b = markerStr16
  · rw [if_pos h16, and_iff_right (Or.inr <| Or.inr <| Or.inl h16)]
    exact header_counted (by subst h16; rfl) bytes_injective
  rw [if_neg h16]
  by_cases h32 : b = markerStr32
  · rw [if_pos h32, and_iff_right (Or.inr <| Or.inr <| Or.inr h32)]
    exact header_counted (by subst h32; rfl) bytes_injective
  rw [if_neg h32]
  simp [isStringMarker, hfix, h8, h16, h32]

theorem readBinLen_ok : readBinLen ⟨b :: bs, t⟩ = .ok (n, r') ↔
    isBinMarker b ∧ ∃ rest, header (b :: bs) = some (.bytes n, rest) ∧ r' = ⟨rest, t⟩ := by
  rw [readBinLen, readByte_bind]
  by_cases h8 : b = markerBin8
  · rw [if_pos h8, and_iff_right (Or.inl h8)]
    exact header_counted (by subst h8; rfl) bytes_injective
  rw [if_neg h8]
  by_cases h16 : b = markerBin16
  · rw [if_pos h16, and_iff_right (Or.inr <| Or.inl h16)]
    exact header_counted (by subst h16; rfl) bytes_injective
  rw [if_neg h16]
  by_cases h32 : b = markerBin32
  · rw [if_pos h32, and_iff_right (Or.inr <| Or.inr h32)]
    exact header_counted (by subst h32; rfl) bytes_injective
  rw [if_neg h32]
  simp [isBinMarker, h8, h16, h32]

/-- The bytes behind a header. -/
theorem readN_header {p : UInt8 → Prop} {q : Decoder Nat} {body : List UInt8}
    (hq : ∀ n r', q ⟨b :: bs, t⟩ = .ok (n, r') ↔
      p b ∧ ∃ rest, header (b :: bs) = some (.bytes n, rest) ∧ r' = ⟨rest, t⟩) :
    (q >>= readN) ⟨b :: bs, t⟩ = .ok (body, r') ↔
      p b ∧ ∃ n rest, header (b :: bs) = some (.bytes n, rest) ∧ n ≤ rest.length ∧
        body = rest.take n ∧ r' = ⟨rest.drop n, t⟩ := by
  rw [bind_ok]
  constructor
  · rintro ⟨n, r₁, hlen, hread⟩
    obtain ⟨hp, rest, hheader, rfl⟩ := (hq n r₁).mp hlen
    exact ⟨hp, n, rest, hheader, readN_ok.mp hread⟩
  · rintro ⟨hp, n, rest, hheader, hbody⟩
    exact ⟨n, _, (hq n _).mpr ⟨hp, rest, hheader, rfl⟩, readN_ok.mpr hbody⟩

theorem readString_ok {body : List UInt8} : readString ⟨b :: bs, t⟩ = .ok (body, r') ↔
    isStringMarker b ∧ ∃ n rest, header (b :: bs) = some (.bytes n, rest) ∧ n ≤ rest.length ∧
      body = rest.take n ∧ r' = ⟨rest.drop n, t⟩ :=
  readN_header (fun _ _ => readStringLen_ok)

theorem readBytes_ok {body : List UInt8} : readBytes ⟨b :: bs, t⟩ = .ok (body, r') ↔
    isBinMarker b ∧ ∃ n rest, header (b :: bs) = some (.bytes n, rest) ∧ n ≤ rest.length ∧
      body = rest.take n ∧ r' = ⟨rest.drop n, t⟩ :=
  readN_header (fun _ _ => readBinLen_ok)

/-! ## Skipping -/

/-- What stands behind the header is skipped: the bytes, or the values one after another. -/
def SkipsBehind (depth : Nat) (t : WitnessTracker) (r' : Reader) (rest : List UInt8) :
    Follow → Prop
  | .bytes n => n ≤ rest.length ∧ r' = ⟨rest.drop n, t⟩
  | .values n => times (skipValueWithin depth) n ⟨rest, t⟩ = .ok ((), r')

theorem ignore_ok {p : Decoder α} : (do let _ ← p; pure ()) r = .ok ((), r') ↔
    ∃ x, p r = .ok (x, r') := by
  rw [bind_ok]
  constructor
  · rintro ⟨x, r₁, hp, hpure⟩
    obtain ⟨-, rfl⟩ := pure_ok.mp hpure
    exact ⟨x, hp⟩
  · rintro ⟨x, hp⟩
    exact ⟨x, r', hp, pure_ok.mpr ⟨rfl, rfl⟩⟩

variable {depth : Nat}

/-- A marker that counts something, in its own bits or in the bytes behind it. -/
def Counts (b : UInt8) (f : Nat → Follow) : Prop :=
  (∃ m, marker b = some (.fixed (f m))) ∨ ∃ width, marker b = some (.counted width f)

theorem Counts.header (h : Counts b f) {follow : Follow} {rest : List UInt8}
    (hheader : header (b :: bs) = some (follow, rest)) : ∃ n, follow = f n := by
  obtain ⟨m, hmarker⟩ | ⟨width, hmarker⟩ := h
  · simp only [MsgPack.header, hmarker, Option.some.injEq, Prod.mk.injEq] at hheader
    exact ⟨m, hheader.1.symm⟩
  · simp only [MsgPack.header, hmarker] at hheader
    split at hheader
    · simp only [Option.some.injEq, Prod.mk.injEq] at hheader
      exact ⟨_, hheader.1.symm⟩
    · cases hheader

theorem counts_string (h : isStringMarker b) : Counts b .bytes := by
  rcases h with h | rfl | rfl | rfl
  · exact .inl ⟨_, marker_fixstr h⟩
  · exact .inr ⟨1, rfl⟩
  · exact .inr ⟨2, rfl⟩
  · exact .inr ⟨4, rfl⟩

theorem counts_bin (h : isBinMarker b) : Counts b .bytes := by
  rcases h with rfl | rfl | rfl
  · exact .inr ⟨1, rfl⟩
  · exact .inr ⟨2, rfl⟩
  · exact .inr ⟨4, rfl⟩

theorem counts_array (h : isArrayMarker b) : Counts b .values := by
  rcases h with h | rfl | rfl
  · exact .inl ⟨_, marker_fixarray h⟩
  · exact .inr ⟨2, rfl⟩
  · exact .inr ⟨4, rfl⟩

theorem counts_map (h : isMapMarker b) : Counts b fun n => .values (2 * n) := by
  rcases h with h | rfl | rfl
  · exact .inl ⟨_, marker_fixmap h⟩
  · exact .inr ⟨2, rfl⟩
  · exact .inr ⟨4, rfl⟩

/-- The bytes up to the fixed strings are no extensions. -/
theorem not_extension_low (h : b ≤ 0xbf) : ¬ IsExtension b := by
  rintro (⟨hlow, -⟩ | ⟨hlow, -⟩)
  · exact absurd (UInt8.le_trans hlow h) (by decide)
  · exact absurd (UInt8.le_trans hlow h) (by decide)

theorem not_extension_high (h : 0xd9 ≤ b) : ¬ IsExtension b := by
  rintro (⟨-, hhigh⟩ | ⟨-, hhigh⟩)
  · exact absurd (UInt8.le_trans h hhigh) (by decide)
  · exact absurd (UInt8.le_trans h hhigh) (by decide)

theorem fixmap_le (h : isFixmap b) : b ≤ 0xbf := UInt8.le_trans h.2 (by decide)

theorem fixarray_le (h : isFixarray b) : b ≤ 0xbf := UInt8.le_trans h.2 (by decide)

theorem not_extension_container (h : isArrayMarker b ∨ isMapMarker b) : ¬ IsExtension b := by
  rcases h with (h | rfl | rfl) | (h | rfl | rfl)
  · exact not_extension_low (fixarray_le h)
  · exact not_extension_high (by decide)
  · exact not_extension_high (by decide)
  · exact not_extension_low (fixmap_le h)
  · exact not_extension_high (by decide)
  · exact not_extension_high (by decide)

theorem not_extension_data (h : isStringMarker b ∨ isBinMarker b) : ¬ IsExtension b := by
  rcases h with (h | rfl | rfl | rfl) | (rfl | rfl | rfl)
  · exact not_extension_low h.2
  · exact not_extension_high (by decide)
  · exact not_extension_high (by decide)
  · exact not_extension_high (by decide)
  · decide
  · decide
  · decide

/-- What `SkipValue` must do at a marker. -/
def Skips (depth : Nat) (b : UInt8) (bs : List UInt8) (t : WitnessTracker) (r' : Reader) : Prop :=
  ¬ IsExtension b ∧
    ∃ follow rest, header (b :: bs) = some (follow, rest) ∧ SkipsBehind depth t r' rest follow

/-- Strings and binary data. -/
theorem skips_data {p : UInt8 → Prop} {q : Decoder (List UInt8)} (hp : p b) (hext : ¬ IsExtension b)
    (hcounts : Counts b .bytes) (hq : ∀ body, q ⟨b :: bs, t⟩ = .ok (body, r') ↔ p b ∧
      ∃ n rest, header (b :: bs) = some (.bytes n, rest) ∧ n ≤ rest.length ∧
        body = rest.take n ∧ r' = ⟨rest.drop n, t⟩) :
    (do let _ ← q; pure ()) ⟨b :: bs, t⟩ = .ok ((), r') ↔ Skips depth b bs t r' := by
  rw [ignore_ok]
  constructor
  · rintro ⟨body, hread⟩
    obtain ⟨-, n, rest, hheader, hle, -, hr⟩ := (hq body).mp hread
    exact ⟨hext, .bytes n, rest, hheader, hle, hr⟩
  · rintro ⟨-, follow, rest, hheader, hbehind⟩
    obtain ⟨n, rfl⟩ := hcounts.header hheader
    exact ⟨rest.take n, (hq _).mpr ⟨hp, n, rest, hheader, hbehind.1, rfl, hbehind.2⟩⟩

/-- Arrays and maps: `g n` values stand behind a header that says `n`. -/
theorem skips_container {p : UInt8 → Prop} {q : Decoder Nat} {g : Nat → Nat} (hp : p b)
    (hext : ¬ IsExtension b) (hcounts : Counts b fun n => .values (g n))
    (hq : ∀ n r₁, q ⟨b :: bs, t⟩ = .ok (n, r₁) ↔ p b ∧
      ∃ rest, header (b :: bs) = some (.values (g n), rest) ∧ r₁ = ⟨rest, t⟩) :
    (do let n ← q; times (skipValueWithin depth) (g n)) ⟨b :: bs, t⟩ = .ok ((), r') ↔
      Skips depth b bs t r' := by
  rw [bind_ok]
  constructor
  · rintro ⟨n, r₁, hread, htimes⟩
    obtain ⟨-, rest, hheader, rfl⟩ := (hq n r₁).mp hread
    exact ⟨hext, .values (g n), rest, hheader, htimes⟩
  · rintro ⟨-, follow, rest, hheader, hbehind⟩
    obtain ⟨n, rfl⟩ := hcounts.header hheader
    exact ⟨n, _, (hq n _).mpr ⟨hp, rest, hheader, rfl⟩, hbehind⟩

/-- Values of a fixed width. -/
theorem skips_fixed (hext : ¬ IsExtension b) (hmarker : marker b = some (.fixed (.bytes n))) :
    skipBytes (1 + n) ⟨b :: bs, t⟩ = .ok ((), r') ↔ Skips depth b bs t r' := by
  rw [skipBytes_ok, List.length_cons, Nat.add_comm 1 n, Nat.add_le_add_iff_right,
    List.drop_succ_cons]
  constructor
  · rintro ⟨hle, rfl⟩
    exact ⟨hext, .bytes n, bs, by simp [MsgPack.header, hmarker], hle, rfl⟩
  · rintro ⟨-, follow, rest, hheader, hbehind⟩
    simp only [MsgPack.header, hmarker, Option.some.injEq, Prod.mk.injEq] at hheader
    obtain ⟨rfl, rfl⟩ := hheader
    exact hbehind

/-- A value that is its marker. -/
theorem skips_marker (hext : ¬ IsExtension b) (hmarker : marker b = some (.fixed (.bytes 0))) :
    (do let _ ← readByte; pure ()) ⟨b :: bs, t⟩ = .ok ((), r') ↔ Skips depth b bs t r' := by
  rw [← skips_fixed hext hmarker, ignore_ok, skipBytes_ok]
  constructor
  · rintro ⟨x, hread⟩
    obtain ⟨rest, hrest, rfl⟩ := readByte_ok.mp hread
    cases hrest
    exact ⟨Nat.le_add_left 1 bs.length, rfl⟩
  · rintro ⟨-, rfl⟩
    exact ⟨b, readByte_ok.mpr ⟨bs, rfl, rfl⟩⟩

theorem marker_fixint (h : b ≤ markerPosFixintMax ∨ markerNegFixintLow ≤ b) :
    marker b = some (.fixed (.bytes 0)) := by
  rcases h with h | h
  · exact if_pos h
  · have hge : (0xe0 : UInt8) ≤ b := h
    have h7f : ¬ b ≤ 0x7f := fun hle => absurd (UInt8.le_trans hge hle) (by decide)
    have h8f : ¬ b ≤ 0x8f := fun hle => absurd (UInt8.le_trans hge hle) (by decide)
    have h9f : ¬ b ≤ 0x9f := fun hle => absurd (UInt8.le_trans hge hle) (by decide)
    have hbf : ¬ b ≤ 0xbf := fun hle => absurd (UInt8.le_trans hge hle) (by decide)
    rw [marker, if_neg h7f, if_neg h8f, if_neg h9f, if_neg hbf, if_pos hge]

/-- The markers `SkipValue` has a branch for. -/
abbrev Supported (b : UInt8) : Prop :=
  (b = markerNil ∨ b = markerFalse ∨ b = markerTrue) ∨
  (b ≤ markerPosFixintMax ∨ markerNegFixintLow ≤ b) ∨
  isFixstr b ∨ isArrayMarker b ∨ isMapMarker b ∨ isBinMarker b ∨
  (b = markerUint8 ∨ b = markerInt8) ∨
  (b = markerUint16 ∨ b = markerInt16) ∨
  (b = markerUint32 ∨ b = markerInt32 ∨ b = markerFloat32) ∨
  (b = markerUint64 ∨ b = markerInt64 ∨ b = markerFloat64) ∨
  (b = markerStr8 ∨ b = markerStr16 ∨ b = markerStr32)

/-- The other bytes are the extension types and `0xc1`, which starts no value. -/
theorem marker_unsupported (h : ¬ Supported b) : IsExtension b ∨ marker b = none := by
  have hall : ∀ n : Fin 256, Supported (UInt8.ofFin n) ∨ IsExtension (UInt8.ofFin n) ∨
      (marker (UInt8.ofFin n)).isNone := by
    decide +kernel
  rcases hall b.toFin with hsupported | hext | hnone
  · exact absurd hsupported h
  · exact .inl hext
  · exact .inr (Option.isNone_iff_eq_none.mp hnone)

/-- **The switch of `SkipValue` is the table of the grammar**, less its extension types. -/
theorem skipValueWithin_ok : skipValueWithin (depth + 1) ⟨b :: bs, t⟩ = .ok ((), r') ↔
    Skips depth b bs t r' := by
  rw [skipValueWithin, peek_bind]
  by_cases hnil : b = markerNil ∨ b = markerFalse ∨ b = markerTrue
  · rw [if_pos hnil]
    refine skips_marker ?_ ?_
    · rcases hnil with rfl | rfl | rfl <;> decide
    · rcases hnil with rfl | rfl | rfl <;> rfl
  rw [if_neg hnil]
  by_cases hint : b ≤ markerPosFixintMax ∨ markerNegFixintLow ≤ b
  · rw [if_pos hint]
    refine skips_marker ?_ (marker_fixint hint)
    rcases hint with h | h
    · exact not_extension_low (UInt8.le_trans h (by decide))
    · exact not_extension_high (UInt8.le_trans (by decide) h)
  rw [if_neg hint]
  by_cases hfixstr : isFixstr b
  · rw [if_pos hfixstr]
    have hstring : isStringMarker b := .inl hfixstr
    exact skips_data hstring (not_extension_data (.inl hstring)) (counts_string hstring)
      fun _ => readString_ok
  rw [if_neg hfixstr]
  by_cases harray : isArrayMarker b
  · rw [if_pos harray]
    exact skips_container (g := id) harray (not_extension_container (.inl harray))
      (counts_array harray) fun _ _ => readArrayLen_ok
  rw [if_neg harray]
  by_cases hmap : isMapMarker b
  · rw [if_pos hmap]
    exact skips_container (g := fun n => 2 * n) hmap (not_extension_container (.inr hmap))
      (counts_map hmap) fun _ _ => readMapLen_ok
  rw [if_neg hmap]
  by_cases hbin : isBinMarker b
  · rw [if_pos hbin]
    exact skips_data hbin (not_extension_data (.inr hbin)) (counts_bin hbin) fun _ => readBytes_ok
  rw [if_neg hbin]
  by_cases h8 : b = markerUint8 ∨ b = markerInt8
  · rw [if_pos h8]
    rcases h8 with rfl | rfl
    · exact skips_fixed (by decide) rfl
    · exact skips_fixed (by decide) rfl
  rw [if_neg h8]
  by_cases h16 : b = markerUint16 ∨ b = markerInt16
  · rw [if_pos h16]
    rcases h16 with rfl | rfl
    · exact skips_fixed (by decide) rfl
    · exact skips_fixed (by decide) rfl
  rw [if_neg h16]
  by_cases h32 : b = markerUint32 ∨ b = markerInt32 ∨ b = markerFloat32
  · rw [if_pos h32]
    rcases h32 with rfl | rfl | rfl
    · exact skips_fixed (by decide) rfl
    · exact skips_fixed (by decide) rfl
    · exact skips_fixed (by decide) rfl
  rw [if_neg h32]
  by_cases h64 : b = markerUint64 ∨ b = markerInt64 ∨ b = markerFloat64
  · rw [if_pos h64]
    rcases h64 with rfl | rfl | rfl
    · exact skips_fixed (by decide) rfl
    · exact skips_fixed (by decide) rfl
    · exact skips_fixed (by decide) rfl
  rw [if_neg h64]
  by_cases hstr : b = markerStr8 ∨ b = markerStr16 ∨ b = markerStr32
  · rw [if_pos hstr]
    have hstring : isStringMarker b := .inr hstr
    exact skips_data hstring (not_extension_data (.inl hstring)) (counts_string hstring)
      fun _ => readString_ok
  rw [if_neg hstr, fail_ok, false_iff]
  rintro ⟨hext, follow, rest, hheader, -⟩
  have hunsupported : ¬ Supported b := by
    rintro (h | h | h | h | h | h | h | h | h | h | h)
    · exact hnil h
    · exact hint h
    · exact hfixstr h
    · exact harray h
    · exact hmap h
    · exact hbin h
    · exact h8 h
    · exact h16 h
    · exact h32 h
    · exact h64 h
    · exact hstr h
  rcases marker_unsupported hunsupported with h | hnone
  · exact hext h
  · simp [MsgPack.header, hnone] at hheader

/-! ## One value -/

/-- A value without extension types. -/
abbrev IsPlain : List UInt8 → Prop := IsValue fun b => ¬ IsExtension b

theorem skipValueWithin_nil : skipValueWithin depth ⟨[], t⟩ ≠ .ok ((), r') := by
  intro h
  cases depth with
  | zero => exact fail_ok.mp h
  | succ depth =>
    rw [skipValueWithin, bind_ok] at h
    obtain ⟨b, r₁, hpeek, -⟩ := h
    cases hpeek

/-- Values skipped one after another. -/
theorem times_values {p : Decoder Unit}
    (hp : ∀ bs r', p ⟨bs, t⟩ = .ok ((), r') →
      ∃ value, IsPlain value ∧ bs = value ++ r'.bytes ∧ r'.tracker = t)
    (h : times p n ⟨bs, t⟩ = .ok ((), r')) :
    ∃ items : List (List UInt8), items.length = n ∧ (∀ item ∈ items, IsPlain item) ∧
      bs = items.flatten ++ r'.bytes ∧ r'.tracker = t := by
  induction n generalizing bs with
  | zero =>
    obtain ⟨-, rfl⟩ := pure_ok.mp h
    exact ⟨[], rfl, fun item hitem => absurd hitem (List.not_mem_nil), rfl, rfl⟩
  | succ n ih =>
    rw [times, bind_ok] at h
    obtain ⟨_, r₁, hfirst, hrest⟩ := h
    obtain ⟨value, hvalue, rfl, ht⟩ := hp bs r₁ hfirst
    have hrest' : times p n ⟨r₁.bytes, t⟩ = .ok ((), r') := by rw [← ht]; exact hrest
    obtain ⟨items, hlength, hitems, hbytes, htracker⟩ := ih hrest'
    refine ⟨value :: items, congrArg Nat.succ hlength, ?_, ?_, htracker⟩
    · intro item hitem
      rcases List.mem_cons.mp hitem with rfl | hitem
      · exact hvalue
      · exact hitems item hitem
    · rw [List.flatten_cons, List.append_assoc, ← hbytes]

/-- What is skipped is a value. -/
theorem skipValueWithin_sound (h : skipValueWithin depth ⟨bs, t⟩ = .ok ((), r')) :
    ∃ value, IsPlain value ∧ bs = value ++ r'.bytes ∧ r'.tracker = t := by
  induction depth generalizing bs r' with
  | zero => exact (fail_ok.mp h).elim
  | succ depth ih =>
    cases bs with
    | nil => exact absurd h skipValueWithin_nil
    | cons b bs =>
      obtain ⟨hext, follow, rest, hheader, hbehind⟩ := skipValueWithin_ok.mp h
      obtain ⟨head, hhead, hbytes⟩ := header_eq_some.mp hheader
      have hplain : Header (fun b => ¬ IsExtension b) head follow := by
        refine hhead.allow fun c hc => ?_
        have hb : (b :: bs).head? = some c := by
          rw [hbytes, List.head?_append, hc]
          rfl
        cases hb
        exact hext
      cases follow with
      | bytes n =>
        obtain ⟨hle, rfl⟩ := hbehind
        have hlength : (rest.take n).length = n := List.length_take_of_le hle
        refine ⟨head ++ rest.take n, .bytes (by rwa [hlength]), ?_, rfl⟩
        rw [hbytes, List.append_assoc, List.take_append_drop]
      | values n =>
        obtain ⟨items, hlength, hitems, hrest, ht⟩ := times_values (fun bs r' => ih) hbehind
        refine ⟨head ++ items.flatten, .values (by rwa [hlength]) hitems, ?_, ht⟩
        rw [hbytes, hrest, List.append_assoc]

theorem times_flatten {p : Decoder Unit} {items : List (List UInt8)} {rest : List UInt8}
    (hp : ∀ item ∈ items, ∀ rest, p ⟨item ++ rest, t⟩ = .ok ((), ⟨rest, t⟩)) :
    times p items.length ⟨items.flatten ++ rest, t⟩ = .ok ((), ⟨rest, t⟩) := by
  induction items with
  | nil => rfl
  | cons item items ih =>
    rw [List.length_cons, times, bind_ok, List.flatten_cons, List.append_assoc]
    exact ⟨(), _, hp item List.mem_cons_self _,
      ih fun item hitem => hp item (List.mem_cons_of_mem _ hitem)⟩

/-- A header is recognised in front of anything. -/
theorem skipValueWithin_header {head rest : List UInt8} {follow : Follow}
    (hhead : Header (fun b => ¬ IsExtension b) head follow)
    (hbehind : SkipsBehind depth t r' rest follow) :
    skipValueWithin (depth + 1) ⟨head ++ rest, t⟩ = .ok ((), r') := by
  obtain ⟨b, tail, rfl, hext⟩ := hhead.eq_cons
  rw [List.cons_append, skipValueWithin_ok]
  refine ⟨hext, follow, rest, ?_, hbehind⟩
  exact header_eq_some.mpr ⟨b :: tail, hhead.allow fun _ _ => trivial, rfl⟩

/-- A value is skipped, whatever stands behind it. -/
theorem skipValueWithin_complete {value : List UInt8} (h : IsPlain value)
    (hdepth : value.length ≤ depth) (rest : List UInt8) :
    skipValueWithin depth ⟨value ++ rest, t⟩ = .ok ((), ⟨rest, t⟩) := by
  obtain ⟨depth, rfl⟩ := Nat.exists_eq_succ_of_ne_zero
    (Nat.ne_of_gt (Nat.lt_of_lt_of_le h.length_pos hdepth))
  induction h generalizing depth rest with
  | @bytes head body hhead =>
    rw [List.append_assoc]
    refine skipValueWithin_header hhead ⟨?_, ?_⟩
    · rw [List.length_append]
      exact Nat.le_add_right _ _
    · rw [List.drop_left]
  | @values head items hhead hitems ih =>
    rw [List.append_assoc]
    refine skipValueWithin_header hhead (times_flatten fun item hitem rest => ?_)
    -- the items are shorter than the value, so one level less suffices
    have hlt : item.length < (head ++ items.flatten).length := length_item_lt hhead hitem
    have hpos : 0 < item.length := (hitems item hitem).length_pos
    obtain ⟨deeper, rfl⟩ : ∃ deeper, depth = deeper + 1 := ⟨depth - 1, by omega⟩
    exact ih item hitem rest deeper (by omega)

theorem skipValue_run {value : List UInt8} (h : IsPlain value) (rest : List UInt8)
    (t : WitnessTracker) : skipValue ⟨value ++ rest, t⟩ = .ok ((), ⟨rest, t⟩) := by
  have hdepth : value.length ≤ (value ++ rest).length + 1 := by
    rw [List.length_append]
    omega
  exact skipValueWithin_complete h hdepth rest

/-- **`SkipValue` steps over exactly one value**, at any nesting, and refuses the extension types. -/
theorem skipValue_iff : skipValue r = .ok ((), r') ↔
    ∃ value, IsPlain value ∧ r.bytes = value ++ r'.bytes ∧ r'.tracker = r.tracker := by
  constructor
  · intro h
    exact skipValueWithin_sound h
  · rintro ⟨value, hvalue, hbytes, ht⟩
    have hskip : skipValue ⟨value ++ r'.bytes, r'.tracker⟩ = .ok ((), r') :=
      skipValue_run hvalue r'.bytes r'.tracker
    rw [← hbytes, ht] at hskip
    exact hskip

end Nortia.Sunspot
