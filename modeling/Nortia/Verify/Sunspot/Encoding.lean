import Mathlib.Data.List.Forall2
import Nortia.Verify.Sunspot.Decode

/-!
# Encodings

The byte strings that write a value. A struct is an array of its fields, or a map by their names or
tags, in which each header has any width it fits. A decoder reads a set of encodings when it turns each
of them into the value it writes, whatever follows.
-/

namespace Nortia.Sunspot

open Lib Lib.MsgPack Nortia.Text

/-- The encodings of a value. -/
abbrev Encoding := List UInt8 → Prop

/-- A number, in any unsigned width or in a signed one that has room for it. -/
inductive IsNumber : Nat → Encoding
  | fixed {b : UInt8} (h : b ≤ markerPosFixintMax) : IsNumber b.toNat [b]
  | unsigned {b : UInt8} {count : List UInt8}
      (h : (b, count.length) ∈
        [(markerUint8, 1), (markerUint16, 2), (markerUint32, 4), (markerUint64, 8)]) :
      IsNumber (ofBeBytes count) (b :: count)
  | signed {b : UInt8} {count : List UInt8}
      (h : (b, count.length) ∈
        [(markerInt8, 1), (markerInt16, 2), (markerInt32, 4), (markerInt64, 8)])
      (hsign : 2 * ofBeBytes count < 256 ^ count.length) : IsNumber (ofBeBytes count) (b :: count)

def IsBoolean (x : Bool) : Encoding := fun bs => bs = [if x then markerTrue else markerFalse]

def IsText (s : List UInt8) : Encoding := fun bs =>
  ∃ head, Header isStringMarker head (.bytes s.length) ∧ bs = head ++ s

def IsBinary (s : List UInt8) : Encoding := fun bs =>
  ∃ head, Header isBinMarker head (.bytes s.length) ∧ bs = head ++ s

/-- The key of the field or variant at place `i`. -/
def IsKey (i : Nat) (name : String) : Encoding := fun bs =>
  IsText (asBytes name.toList) bs ∨ IsNumber i bs

/-- Encodings one after another. -/
inductive Each : List Encoding → Encoding
  | nil : Each [] []
  | cons {E : Encoding} {rest : List Encoding} {bs behind : List UInt8} (h : E bs)
      (hrest : Each rest behind) : Each (E :: rest) (bs ++ behind)

def IsArray (items : List Encoding) : Encoding := fun bs =>
  ∃ head body, Header isArrayMarker head (.values items.length) ∧ Each items body ∧ bs = head ++ body

/-- A map; its keys and values alternate. -/
def IsMap (entries : List (Encoding × Encoding)) : Encoding := fun bs =>
  ∃ head body, Header isMapMarker head (.values (2 * entries.length)) ∧
    Each (entries.flatMap fun entry => [entry.1, entry.2]) body ∧ bs = head ++ body

/-- The entries of a struct, from the `i`-th field on. -/
def keyed (i : Nat) : List (String × Encoding) → List (Encoding × Encoding)
  | [] => []
  | (name, payload) :: fields => (IsKey i name, payload) :: keyed (i + 1) fields

def IsStruct (fields : List (String × Encoding)) : Encoding := fun bs =>
  IsArray (fields.map Prod.snd) bs ∨ IsMap (keyed 0 fields) bs

/-- The variant at place `i` of an enum. -/
def IsVariant (i : Nat) (name : String) (payload : Encoding) : Encoding :=
  IsMap [(IsKey i name, payload)]

def IsVector {α : Type} (encode : α → Encoding) (xs : List α) : Encoding :=
  IsArray (xs.map encode)

/-! ## Reading -/

/-- The mark after some witnesses. -/
def WitnessTracker.observeAll (t : WitnessTracker) (ws : List Witness) : WitnessTracker :=
  ws.foldl WitnessTracker.observe t

/-- What a decoder does to the mark. -/
abbrev Marking := WitnessTracker → WitnessTracker

section

variable {α β σ τ : Type} {E : Encoding} {mark : Marking} {x : α} {p : Decoder α}

/-- The decoder reads each of the encodings as this value. -/
def Reads (p : Decoder α) (E : Encoding) (mark : Marking) (x : α) : Prop :=
  ∀ bs rest t, E bs → p ⟨bs ++ rest, t⟩ = .ok (x, ⟨rest, mark t⟩)

theorem observeAll_append (t : WitnessTracker) (ws ws' : List Witness) :
    t.observeAll (ws ++ ws') = (t.observeAll ws).observeAll ws' := List.foldl_append

theorem observeAll_flatMap (t : WitnessTracker) (xs : List α) (ws : α → List Witness) :
    t.observeAll (xs.flatMap ws) = xs.foldl (fun t x => t.observeAll (ws x)) t := List.foldl_flatMap

theorem decoder_bind {r r' : Reader} {f : α → Decoder β} (h : p r = .ok (x, r')) :
    (p >>= f) r = f x r' := by
  show (StateT.bind p f) r = _
  rw [StateT.bind, h]
  rfl

theorem Reads.map (h : Reads p E mark x) (f : α → β) :
    Reads (do let y ← p; pure (f y)) E mark (f x) := by
  intro bs rest t hbs
  rw [decoder_bind (h bs rest t hbs)]
  rfl

theorem Reads.wrap {context : DecodeError → DecodeError} (h : Reads p E mark x) :
    Reads (wrap context p) E mark x := fun bs rest t hbs => wrap_ok.mpr (h bs rest t hbs)

theorem Reads.congr {mark' : Marking} {y : α} (h : Reads p E mark x) (hmark : ∀ t, mark t = mark' t)
    (hy : x = y) : Reads p E mark' y := by
  intro bs rest t hbs
  rw [← hmark, ← hy]
  exact h bs rest t hbs

/-- A decoder that only looks at the value it has read. -/
theorem Reads.bind_pure {f : α → Decoder β} {y : β} (h : Reads p E mark x) (hf : f x = pure y) :
    Reads (p >>= f) E mark y := by
  intro bs rest t hbs
  rw [decoder_bind (h bs rest t hbs), hf]
  rfl

/-! ## Scalars -/

variable {head rest : List UInt8} {n : Nat} {t : WitnessTracker}

theorem header_append {allowed : UInt8 → Prop} {follow : Follow} (h : Header allowed head follow)
    (rest : List UInt8) : header (head ++ rest) = some (follow, rest) :=
  header_eq_some.mpr ⟨head, h.allow fun _ _ => trivial, rfl⟩

theorem readArrayLen_run (h : Header isArrayMarker head (.values n)) :
    readArrayLen ⟨head ++ rest, t⟩ = .ok (n, ⟨rest, t⟩) := by
  obtain ⟨b, tail, rfl, hb⟩ := h.eq_cons
  exact readArrayLen_ok.mpr ⟨hb, rest, header_append h rest, rfl⟩

theorem readMapLen_run (h : Header isMapMarker head (.values (2 * n))) :
    readMapLen ⟨head ++ rest, t⟩ = .ok (n, ⟨rest, t⟩) := by
  obtain ⟨b, tail, rfl, hb⟩ := h.eq_cons
  exact readMapLen_ok.mpr ⟨hb, rest, header_append h rest, rfl⟩

theorem reads_text (s : List UInt8) : Reads readString (IsText s) id s := by
  rintro bs rest t ⟨head, hhead, rfl⟩
  obtain ⟨b, tail, rfl, hb⟩ := hhead.eq_cons
  rw [List.append_assoc]
  refine readString_ok.mpr ⟨hb, s.length, s ++ rest, header_append hhead _, ?_, ?_, ?_⟩
  · rw [List.length_append]
    exact Nat.le_add_right _ _
  · rw [List.take_left]
  · rw [List.drop_left]
    rfl

theorem reads_binary (s : List UInt8) : Reads readBytes (IsBinary s) id s := by
  rintro bs rest t ⟨head, hhead, rfl⟩
  obtain ⟨b, tail, rfl, hb⟩ := hhead.eq_cons
  rw [List.append_assoc]
  refine readBytes_ok.mpr ⟨hb, s.length, s ++ rest, header_append hhead _, ?_, ?_, ?_⟩
  · rw [List.length_append]
    exact Nat.le_add_right _ _
  · rw [List.take_left]
  · rw [List.drop_left]
    rfl

theorem reads_boolean (x : Bool) : Reads readBool (IsBoolean x) id x := by
  rintro bs rest t rfl
  cases x <;> rfl

theorem readUnsigned_run {count : List UInt8} (h : count.length = n) :
    readUnsigned n ⟨count ++ rest, t⟩ = .ok (ofBeBytes count, ⟨rest, t⟩) := by
  subst h
  refine readUnsigned_ok.mpr ⟨?_, ?_, ?_⟩
  · rw [List.length_append]
    exact Nat.le_add_right _ _
  · rw [List.take_left]
  · rw [List.drop_left]

theorem readSigned_run {count : List UInt8} (h : count.length = n)
    (hsign : 2 * ofBeBytes count < 256 ^ n) :
    readSigned n ⟨count ++ rest, t⟩ = .ok (ofBeBytes count, ⟨rest, t⟩) := by
  subst h
  unfold readSigned
  have hread : readN count.length ⟨count ++ rest, t⟩ = .ok (count, ⟨rest, t⟩) := by
    refine readN_ok.mpr ⟨?_, ?_, ?_⟩
    · rw [List.length_append]
      exact Nat.le_add_right _ _
    · rw [List.take_left]
    · rw [List.drop_left]
  rw [decoder_bind hread, if_neg (Nat.not_le.mpr hsign)]
  rfl

theorem reads_number (n : Nat) : Reads readUint (IsNumber n) id n := by
  intro bs rest t h
  cases h with
  | @fixed b h =>
    show readUint ⟨b :: rest, t⟩ = _
    rw [readUint, readByte_bind, if_pos h]
    rfl
  | @unsigned b count h =>
    show readUint ⟨b :: (count ++ rest), t⟩ = _
    simp only [List.mem_cons, Prod.mk.injEq, List.not_mem_nil, or_false] at h
    rw [readUint, readByte_bind]
    rcases h with ⟨rfl, hlen⟩ | ⟨rfl, hlen⟩ | ⟨rfl, hlen⟩ | ⟨rfl, hlen⟩
    all_goals exact readUnsigned_run hlen
  | @signed b count h hsign =>
    show readUint ⟨b :: (count ++ rest), t⟩ = _
    simp only [List.mem_cons, Prod.mk.injEq, List.not_mem_nil, or_false] at h
    rw [readUint, readByte_bind]
    rcases h with ⟨rfl, hlen⟩ | ⟨rfl, hlen⟩ | ⟨rfl, hlen⟩ | ⟨rfl, hlen⟩
    all_goals exact readSigned_run hlen (by rwa [hlen] at hsign)

theorem reads_skipped (s : σ) : Reads (skipField s) IsPlain id s := by
  intro bs rest t hbs
  rw [skipField, decoder_bind (skipValue_run hbs rest t)]
  rfl

/-! ## Vectors -/

theorem Each.cons_inv {Es : List Encoding} {bs : List UInt8} (h : Each (E :: Es) bs) :
    ∃ first behind, bs = first ++ behind ∧ E first ∧ Each Es behind := by
  cases h with
  | cons h hrest => exact ⟨_, _, rfl, h, hrest⟩

theorem Each.nil_inv {bs : List UInt8} (h : Each [] bs) : bs = [] := by
  cases h
  rfl

variable {encode : α → Encoding} {marks : α → Marking} {decode : α → Decoder α} {fresh : α}

theorem reads_elements {xs : List α}
    (h : ∀ x ∈ xs, Reads (decode fresh) (encode x) (marks x) x) :
    Reads (readElements decode (List.replicate xs.length fresh)) (Each (xs.map encode))
      (fun t => xs.foldl (fun t x => marks x t) t) xs := by
  induction xs with
  | nil =>
    intro bs rest t hbs
    rw [hbs.nil_inv]
    rfl
  | cons x xs ih =>
    intro bs rest t hbs
    obtain ⟨first, behind, rfl, hfirst, hbehind⟩ := hbs.cons_inv
    rw [List.length_cons, List.replicate_succ, readElements, List.append_assoc,
      decoder_bind (h x List.mem_cons_self first _ t hfirst),
      decoder_bind (ih (fun x hx => h x (List.mem_cons_of_mem _ hx)) behind rest _ hbehind)]
    rfl

/-- **A vector is read element by element.** -/
theorem reads_vector {xs : List α}
    (h : ∀ x ∈ xs, Reads (decode fresh) (encode x) (marks x) x) :
    Reads (readVec fresh decode) (IsVector encode xs)
      (fun t => xs.foldl (fun t x => marks x t) t) xs := by
  rintro bs rest t ⟨head, body, hhead, hbody, rfl⟩
  rw [List.length_map] at hhead
  rw [readVec, List.append_assoc, decoder_bind (readArrayLen_run hhead)]
  exact reads_elements h body rest t hbody

theorem reads_list {ws : α → List Witness} {xs : List α}
    (h : ∀ x ∈ xs, Reads (decode fresh) (encode x) (·.observeAll (ws x)) x) :
    Reads (readVec fresh decode) (IsVector encode xs) (·.observeAll (xs.flatMap ws)) xs :=
  (reads_vector h).congr (fun t => (observeAll_flatMap t xs ws).symm) rfl

theorem reads_array {ws : α → List Witness} {xs : List α} {n : Nat} (hn : xs.length = n)
    (h : ∀ x ∈ xs, Reads (decode fresh) (encode x) (·.observeAll (ws x)) x) :
    Reads (readArrayInto decode (List.replicate n fresh)) (IsVector encode xs)
      (·.observeAll (xs.flatMap ws)) xs := by
  subst hn
  rintro bs rest t ⟨head, body, hhead, hbody, rfl⟩
  rw [List.length_map] at hhead
  have hlength : ¬ xs.length ≠ (List.replicate xs.length fresh).length := by simp
  rw [readArrayInto, List.append_assoc, decoder_bind (readArrayLen_run hhead), if_neg hlength]
  exact (reads_elements h).congr (fun t => (observeAll_flatMap t xs ws).symm) rfl body rest t hbody

/-! ## Keys -/

variable {fields : List (Field σ τ)} {f : Field σ τ} {i : Nat} {s : σ} {y : τ}
  {name parent kind : String} {bs key : List UInt8}

/-- The names of the fields, as they are written. -/
def wireNames (fields : List (Field σ τ)) : List (List UInt8) :=
  fields.map fun f => asBytes f.name.toList

/-- A field is found by its name. -/
theorem find_name (hnames : (wireNames fields).Nodup) (hf : fields[i]? = some f) :
    fields.find? (fun g => asBytes g.name.toList = asBytes f.name.toList) = some f := by
  induction fields generalizing i with
  | nil => cases hf
  | cons g fields ih =>
    obtain ⟨hg, hnames⟩ := List.nodup_cons.mp hnames
    cases i with
    | zero =>
      cases hf
      exact List.find?_cons_of_pos (decide_eq_true rfl)
    | succ i =>
      have hne : ¬ asBytes g.name.toList = asBytes f.name.toList := by
        intro heq
        apply hg
        show asBytes g.name.toList ∈ wireNames fields
        rw [heq]
        exact List.mem_map_of_mem (List.mem_of_getElem? hf)
      rw [List.find?_cons_of_neg (by rw [decide_eq_true_eq]; exact hne)]
      exact ih hnames hf

/-- The marker of a number is none of a text. -/
theorem IsNumber.not_text (h : IsNumber n key) : ∃ b tail, key = b :: tail ∧ ¬ isStringMarker b := by
  cases h with
  | @fixed b h =>
    refine ⟨b, [], rfl, ?_⟩
    rintro (⟨hlow, -⟩ | rfl | rfl | rfl)
    · exact absurd (UInt8.le_trans hlow h) (by decide)
    all_goals exact absurd h (by decide)
  | @unsigned b count h =>
    refine ⟨b, count, rfl, ?_⟩
    simp only [List.mem_cons, Prod.mk.injEq, List.not_mem_nil, or_false] at h
    rcases h with ⟨rfl, -⟩ | ⟨rfl, -⟩ | ⟨rfl, -⟩ | ⟨rfl, -⟩
    all_goals decide
  | @signed b count h hsign =>
    refine ⟨b, count, rfl, ?_⟩
    simp only [List.mem_cons, Prod.mk.injEq, List.not_mem_nil, or_false] at h
    rcases h with ⟨rfl, -⟩ | ⟨rfl, -⟩ | ⟨rfl, -⟩ | ⟨rfl, -⟩
    all_goals decide

/-- **The field a key names decodes the payload**, whether the key is its name or its tag. -/
theorem dispatchKeyed_run (hnames : (wireNames fields).Nodup) (hf : fields[i]? = some f)
    (hkey : IsKey i f.name key) (h : Reads (f.decode s) E mark y) (hbs : E bs) :
    dispatchKeyed parent kind fields s ⟨key ++ (bs ++ rest), t⟩ =
      .ok (y, ⟨rest, mark t⟩) := by
  have hinvoke : ∀ parent, invoke parent f s ⟨bs ++ rest, t⟩ = .ok (y, ⟨rest, mark t⟩) :=
    fun parent => h.wrap bs rest t hbs
  rcases hkey with htext | hnumber
  · have hread := reads_text (asBytes f.name.toList) key (bs ++ rest) t htext
    obtain ⟨head, hhead, rfl⟩ := htext
    obtain ⟨b, tail, rfl, hb⟩ := hhead.eq_cons
    have hpeek : peek ⟨b :: tail ++ asBytes f.name.toList ++ (bs ++ rest), t⟩ =
        .ok (b, ⟨b :: tail ++ asBytes f.name.toList ++ (bs ++ rest), t⟩) := rfl
    rw [dispatchKeyed, decoder_bind hpeek, if_pos hb, decoder_bind hread, find_name hnames hf]
    exact hinvoke parent
  · have hread := reads_number i key (bs ++ rest) t hnumber
    obtain ⟨b, tail, rfl, hb⟩ := hnumber.not_text
    have hpeek : peek ⟨b :: tail ++ (bs ++ rest), t⟩ = .ok (b, ⟨b :: tail ++ (bs ++ rest), t⟩) := rfl
    rw [dispatchKeyed, decoder_bind hpeek, if_neg hb, decoder_bind hread, hf]
    exact hinvoke parent

/-- **A variant is read by its name or its tag.** -/
theorem reads_variant {text : String} {read : σ → Decoder τ} (hnames : (wireNames fields).Nodup)
    (hf : fields[i]? = some ⟨text, read⟩) (h : Reads (read s) E mark y) :
    Reads (readEnum name fields s) (IsVariant i text E) mark y := by
  rintro bs rest t ⟨head, body, hhead, hbody, rfl⟩
  obtain ⟨key, behind, rfl, hkey, hbehind⟩ := hbody.cons_inv
  obtain ⟨payload, nothing, rfl, hpayload, hnothing⟩ := hbehind.cons_inv
  rw [hnothing.nil_inv, List.append_nil, List.append_assoc, List.append_assoc]
  have hlen : wrap (.within name) readMapLen ⟨head ++ (key ++ (payload ++ rest)), t⟩ =
      .ok (1, ⟨key ++ (payload ++ rest), t⟩) := wrap_ok.mpr (readMapLen_run hhead)
  rw [readEnum, decoder_bind hlen, if_neg (fun h => h rfl)]
  exact dispatchKeyed_run hnames hf hkey h hpayload

end

/-! ## Structs -/

/-- What a field is written as, and what its decoder does to the struct. -/
structure Part (σ : Type) where
  name : String
  encoding : Encoding
  mark : Marking
  update : σ → σ

def Part.wire {σ : Type} (part : Part σ) : String × Encoding := (part.name, part.encoding)

/-- A struct as it is written. -/
abbrev IsWritten {σ : Type} (parts : List (Part σ)) : Encoding := IsStruct (parts.map Part.wire)

section

variable {σ : Type} {fields : List (Field σ)} {f : Field σ} {part : Part σ} {parts : List (Part σ)}
  {i : Nat} {name : String} {rest bs : List UInt8} {t : WitnessTracker} {s : σ}

/-- The decoder of the field reads the part, from any struct. -/
structure Field.Meets (f : Field σ) (part : Part σ) : Prop where
  name : f.name = part.name
  reads : ∀ s, Reads (f.decode s) part.encoding part.mark (part.update s)

theorem drop_cons {α : Type} {l : List α} {x : α} {i : Nat} {tail : List α}
    (h : l.drop i = x :: tail) : l[i]? = some x ∧ l.drop (i + 1) = tail := by
  constructor
  · rw [← Nat.add_zero i, ← List.getElem?_drop, h]
    rfl
  · rw [← List.tail_drop, h]
    rfl

theorem readPositional_run (h : List.Forall₂ Field.Meets (fields.drop i) parts)
    (hbs : Each (parts.map Part.encoding) bs) :
    readPositional name fields i parts.length s ⟨bs ++ rest, t⟩ =
      .ok (parts.foldl (fun s part => part.update s) s,
        ⟨rest, parts.foldl (fun t part => part.mark t) t⟩) := by
  induction parts generalizing i bs s t with
  | nil =>
    rw [hbs.nil_inv]
    rfl
  | cons part parts ih =>
    cases hdrop : fields.drop i with
    | nil => rw [hdrop] at h; cases h
    | cons f tail =>
      obtain ⟨hf, htail⟩ := drop_cons hdrop
      rw [hdrop] at h
      obtain ⟨hmeets, h⟩ := List.forall₂_cons.mp h
      obtain ⟨first, behind, rfl, hfirst, hbehind⟩ := hbs.cons_inv
      have hinvoke : invoke name f s ⟨first ++ (behind ++ rest), t⟩ =
          .ok (part.update s, ⟨behind ++ rest, part.mark t⟩) :=
        (hmeets.reads s).wrap first _ t hfirst
      rw [List.length_cons, readPositional, hf, List.append_assoc]
      simp only
      rw [decoder_bind hinvoke, ih (htail ▸ h) hbehind]
      rfl

theorem readEntries_run (hnames : (wireNames fields).Nodup)
    (h : List.Forall₂ Field.Meets (fields.drop i) parts)
    (hbs : Each ((keyed i (parts.map Part.wire)).flatMap
      fun entry => [entry.1, entry.2]) bs) (j : Nat) :
    readEntries name fields j parts.length s ⟨bs ++ rest, t⟩ =
      .ok (parts.foldl (fun s part => part.update s) s,
        ⟨rest, parts.foldl (fun t part => part.mark t) t⟩) := by
  induction parts generalizing i j bs s t with
  | nil =>
    rw [hbs.nil_inv]
    rfl
  | cons part parts ih =>
    cases hdrop : fields.drop i with
    | nil => rw [hdrop] at h; cases h
    | cons f tail =>
      obtain ⟨hf, htail⟩ := drop_cons hdrop
      rw [hdrop] at h
      obtain ⟨hmeets, h⟩ := List.forall₂_cons.mp h
      obtain ⟨key, behind, rfl, hkey, hbehind⟩ := hbs.cons_inv
      obtain ⟨payload, others, rfl, hpayload, hothers⟩ := hbehind.cons_inv
      have hentry : wrap (.item s!"{name}: entry" j) (dispatchKeyed name "field" fields s)
          ⟨key ++ (payload ++ (others ++ rest)), t⟩ =
          .ok (part.update s, ⟨others ++ rest, part.mark t⟩) := by
        rw [← hmeets.name] at hkey
        exact wrap_ok.mpr (dispatchKeyed_run hnames hf hkey (hmeets.reads s) hpayload)
      rw [List.length_cons, readEntries, List.append_assoc, List.append_assoc, decoder_bind hentry,
        ih (htail ▸ h) hothers]
      rfl

theorem length_keyed (i : Nat) (fields : List (String × Encoding)) :
    (keyed i fields).length = fields.length := by
  induction fields generalizing i with
  | nil => rfl
  | cons field fields ih => rw [keyed, List.length_cons, List.length_cons, ih]

theorem array_not_map {b : UInt8} (h : isArrayMarker b) : ¬ isMapMarker b := by
  rintro (hmap | rfl | rfl)
  · rcases h with harray | rfl | rfl
    · exact absurd (UInt8.le_trans harray.1 hmap.2) (by decide)
    all_goals exact absurd hmap.2 (by decide)
  all_goals
    rcases h with harray | harray | harray
    · exact absurd harray.2 (by decide)
    all_goals exact absurd harray (by decide)

/-- **A struct is read field by field**, as an array or as a map by names or tags. -/
theorem reads_struct (hnames : (wireNames fields).Nodup)
    (h : List.Forall₂ Field.Meets fields parts) (s : σ) :
    Reads (readStruct name fields s) (IsWritten parts)
      (fun t => parts.foldl (fun t part => part.mark t) t)
      (parts.foldl (fun s part => part.update s) s) := by
  rintro bs rest t (⟨head, body, hhead, hbody, rfl⟩ | ⟨head, body, hhead, hbody, rfl⟩)
  · rw [List.length_map, List.length_map] at hhead
    rw [List.map_map] at hbody
    obtain ⟨b, tail, rfl, hb⟩ := hhead.eq_cons
    have hpeek : peek ⟨b :: tail ++ (body ++ rest), t⟩ = .ok (b, ⟨b :: tail ++ (body ++ rest), t⟩) :=
      rfl
    rw [readStruct, List.append_assoc, decoder_bind hpeek, if_neg (array_not_map hb), if_pos hb,
      decoder_bind (readArrayLen_run hhead)]
    exact readPositional_run (i := 0) h hbody
  · rw [length_keyed, List.length_map] at hhead
    obtain ⟨b, tail, rfl, hb⟩ := hhead.eq_cons
    have hpeek : peek ⟨b :: tail ++ (body ++ rest), t⟩ = .ok (b, ⟨b :: tail ++ (body ++ rest), t⟩) :=
      rfl
    rw [readStruct, List.append_assoc, decoder_bind hpeek, if_pos hb,
      decoder_bind (readMapLen_run hhead)]
    exact readEntries_run (i := 0) hnames h hbody 0

end

end Nortia.Sunspot
