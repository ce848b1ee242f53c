import Nortia.Program.Text

/-!
# The msgpack reader of the browser prover

`msgpackutil`: a peekable byte stream that also remembers the highest witness index it has decoded,
and the decoders of structs and enums in each of noir's three serialization formats. An `int` has 64
bits; the lengths on the wire have at most 32.
-/

namespace Nortia.Sunspot

open Lib Nortia.Text

/-- The errors, one constructor for each text. -/
inductive DecodeError where
  | eof
  | unexpectedEof
  /-- `msgpack: expected {what}, got 0x{got}` -/
  | expected (what : String) (got : UInt8)
  /-- `msgpack: negative int where uint expected` -/
  | negative
  /-- `u32 field overflow: {v}` -/
  | overflow (v : Nat)
  /-- `msgpack: SkipValue: unsupported marker 0x{got}` -/
  | unsupported (got : UInt8)
  /-- `unsupported ACIR serialization format byte 0x{got}` -/
  | format (got : UInt8)
  /-- `expected fixed-size array of {want}, got {got}` -/
  | fixedSize (want got : Nat)
  /-- `{name}: expected {want}-tuple, got {got} elements` -/
  | tuple (name : String) (want got : Nat)
  /-- `{name}: num_bits={n} exceeds supported maximum of 128` -/
  | numBits (name : String) (n : Nat)
  /-- `{name}: positional index {index} exceeds schema length {length}` -/
  | positional (name : String) (index length : Nat)
  /-- `{name}: expected map or array, got 0x{got}` -/
  | mapOrArray (name : String) (got : UInt8)
  /-- `{name}: expected single-entry map, got {n} entries` -/
  | singleEntry (name : String) (n : Nat)
  /-- `{parent}: unknown {kind} "{key}"` -/
  | unknown (parent kind : String) (key : List UInt8)
  /-- `{parent}: unknown {kind} tag {tag}` -/
  | unknownTag (parent kind : String) (tag : Nat)
  /-- `{parent}.{name}: {e}` -/
  | field (parent name : String) (e : DecodeError)
  /-- `{what} {index}: {e}`, also with the struct's name before an entry -/
  | item (what : String) (index : Nat) (e : DecodeError)
  /-- `{name}: {e}` -/
  | within (name : String) (e : DecodeError)
  /-- The stack of the process is exhausted. -/
  | depth
deriving DecidableEq, Repr

/-- The highest witness index observed during decode. -/
structure WitnessTracker where
  maxWitness : Nat
  witnessSeen : Bool
  unseen : witnessSeen = false → maxWitness = 0
deriving DecidableEq

namespace WitnessTracker

/-- `ResetWitnessTracker` -/
def reset : WitnessTracker := { maxWitness := 0, witnessSeen := false, unseen := fun _ => rfl }

/-- `ObserveWitness` -/
def observe (t : WitnessTracker) (idx : Nat) : WitnessTracker :=
  if !t.witnessSeen || t.maxWitness < idx then
    { maxWitness := idx, witnessSeen := true, unseen := fun h => absurd h (by decide) }
  else t

end WitnessTracker

structure Reader where
  bytes : List UInt8
  tracker : WitnessTracker
deriving DecidableEq

abbrev Decoder := StateT Reader (Except DecodeError)

def fail {α : Type} (e : DecodeError) : Decoder α := fun _ => .error e

/-- `fmt.Errorf` around an error of the decoder. -/
def wrap {α : Type} (context : DecodeError → DecodeError) (p : Decoder α) : Decoder α :=
  fun r => (p r).mapError context

/-! ## Markers -/

def markerNil : UInt8 := 0xc0
def markerFalse : UInt8 := 0xc2
def markerTrue : UInt8 := 0xc3
def markerBin8 : UInt8 := 0xc4
def markerBin16 : UInt8 := 0xc5
def markerBin32 : UInt8 := 0xc6
def markerFloat32 : UInt8 := 0xca
def markerFloat64 : UInt8 := 0xcb
def markerUint8 : UInt8 := 0xcc
def markerUint16 : UInt8 := 0xcd
def markerUint32 : UInt8 := 0xce
def markerUint64 : UInt8 := 0xcf
def markerInt8 : UInt8 := 0xd0
def markerInt16 : UInt8 := 0xd1
def markerInt32 : UInt8 := 0xd2
def markerInt64 : UInt8 := 0xd3
def markerStr8 : UInt8 := 0xd9
def markerStr16 : UInt8 := 0xda
def markerStr32 : UInt8 := 0xdb
def markerArray16 : UInt8 := 0xdc
def markerArray32 : UInt8 := 0xdd
def markerMap16 : UInt8 := 0xde
def markerMap32 : UInt8 := 0xdf
def markerPosFixintMax : UInt8 := 0x7f
def markerNegFixintLow : UInt8 := 0xe0
def markerFixmapLow : UInt8 := 0x80
def markerFixmapHigh : UInt8 := 0x8f
def markerFixarrayLow : UInt8 := 0x90
def markerFixarrayHigh : UInt8 := 0x9f
def markerFixstrLow : UInt8 := 0xa0
def markerFixstrHigh : UInt8 := 0xbf
def markerFixContainerLenMask : UInt8 := 0x0f
def markerFixstrLenMask : UInt8 := 0x1f

abbrev isFixstr (b : UInt8) : Prop := markerFixstrLow ≤ b ∧ b ≤ markerFixstrHigh
abbrev isFixarray (b : UInt8) : Prop := markerFixarrayLow ≤ b ∧ b ≤ markerFixarrayHigh
abbrev isFixmap (b : UInt8) : Prop := markerFixmapLow ≤ b ∧ b ≤ markerFixmapHigh

abbrev isStringMarker (b : UInt8) : Prop :=
  isFixstr b ∨ b = markerStr8 ∨ b = markerStr16 ∨ b = markerStr32

abbrev isBinMarker (b : UInt8) : Prop := b = markerBin8 ∨ b = markerBin16 ∨ b = markerBin32

abbrev isMapMarker (b : UInt8) : Prop := isFixmap b ∨ b = markerMap16 ∨ b = markerMap32

abbrev isArrayMarker (b : UInt8) : Prop := isFixarray b ∨ b = markerArray16 ∨ b = markerArray32

/-! ## Scalars -/

def peek : Decoder UInt8 := fun r =>
  match r.bytes with
  | [] => .error .eof
  | b :: _ => .ok (b, r)

def readByte : Decoder UInt8 := fun r =>
  match r.bytes with
  | [] => .error .eof
  | b :: rest => .ok (b, { r with bytes := rest })

def readN (n : Nat) : Decoder (List UInt8) := fun r =>
  if n ≤ r.bytes.length then .ok (r.bytes.take n, { r with bytes := r.bytes.drop n })
  else if r.bytes = [] then .error .eof
  else .error .unexpectedEof

/-- `binary.BigEndian.Uint{8n}` of the next `n` bytes. -/
def readUnsigned (n : Nat) : Decoder Nat := do
  let buf ← readN n
  pure (ofBeBytes buf)

/-- The same read as a signed integer, which must not be negative. -/
def readSigned (n : Nat) : Decoder Nat := do
  let buf ← readN n
  if 256 ^ n ≤ 2 * ofBeBytes buf then fail .negative
  else pure (ofBeBytes buf)

def readBool : Decoder Bool := do
  let b ← readByte
  if b = markerFalse then pure false
  else if b = markerTrue then pure true
  else fail (.expected "bool" b)

/-- Any unsigned integer encoding, and the signed ones that are not negative. -/
def readUint : Decoder Nat := do
  let b ← readByte
  if b ≤ markerPosFixintMax then pure b.toNat
  else if b = markerUint8 then readUnsigned 1
  else if b = markerUint16 then readUnsigned 2
  else if b = markerUint32 then readUnsigned 4
  else if b = markerUint64 then readUnsigned 8
  else if b = markerInt8 then readSigned 1
  else if b = markerInt16 then readSigned 2
  else if b = markerInt32 then readSigned 4
  else if b = markerInt64 then readSigned 8
  else fail (.expected "uint" b)

def readU32 : Decoder Nat := do
  let v ← readUint
  if v ≤ 2 ^ 32 - 1 then pure v else fail (.overflow v)

def readStringLen : Decoder Nat := do
  let b ← readByte
  if isFixstr b then pure (b &&& markerFixstrLenMask).toNat
  else if b = markerStr8 then readUnsigned 1
  else if b = markerStr16 then readUnsigned 2
  else if b = markerStr32 then readUnsigned 4
  else fail (.expected "string" b)

/-- A string of Go: its bytes. -/
def readString : Decoder (List UInt8) := do
  let n ← readStringLen
  readN n

/-- The length of a `bin*` value. -/
def readBinLen : Decoder Nat := do
  let b ← readByte
  if b = markerBin8 then readUnsigned 1
  else if b = markerBin16 then readUnsigned 2
  else if b = markerBin32 then readUnsigned 4
  else fail (.expected "bin" b)

def readBytes : Decoder (List UInt8) := do
  let n ← readBinLen
  readN n

def readArrayLen : Decoder Nat := do
  let b ← readByte
  if isFixarray b then pure (b &&& markerFixContainerLenMask).toNat
  else if b = markerArray16 then readUnsigned 2
  else if b = markerArray32 then readUnsigned 4
  else fail (.expected "array" b)

def readMapLen : Decoder Nat := do
  let b ← readByte
  if isFixmap b then pure (b &&& markerFixContainerLenMask).toNat
  else if b = markerMap16 then readUnsigned 2
  else if b = markerMap32 then readUnsigned 4
  else fail (.expected "map" b)

/-! ## Skipping -/

/-- `for i := 0; i < n; i++` around a decoder. -/
def times (p : Decoder Unit) : Nat → Decoder Unit
  | 0 => pure ()
  | n + 1 => do
    p
    times p n

def skipBytes (n : Nat) : Decoder Unit := do
  let _ ← readN n
  pure ()

/-- One value, in a call stack that has room for so many more calls. -/
def skipValueWithin : Nat → Decoder Unit
  | 0 => fail .depth
  | depth + 1 => do
    let b ← peek
    if b = markerNil ∨ b = markerFalse ∨ b = markerTrue then
      let _ ← readByte
    else if b ≤ markerPosFixintMax ∨ markerNegFixintLow ≤ b then
      let _ ← readByte
    else if isFixstr b then
      let _ ← readString
    else if isFixarray b ∨ b = markerArray16 ∨ b = markerArray32 then
      let n ← readArrayLen
      times (skipValueWithin depth) n
    else if isFixmap b ∨ b = markerMap16 ∨ b = markerMap32 then
      let n ← readMapLen
      times (skipValueWithin depth) (2 * n)
    else if b = markerBin8 ∨ b = markerBin16 ∨ b = markerBin32 then
      let _ ← readBytes
    else if b = markerUint8 ∨ b = markerInt8 then skipBytes (1 + 1)
    else if b = markerUint16 ∨ b = markerInt16 then skipBytes (1 + 2)
    else if b = markerUint32 ∨ b = markerInt32 ∨ b = markerFloat32 then skipBytes (1 + 4)
    else if b = markerUint64 ∨ b = markerInt64 ∨ b = markerFloat64 then skipBytes (1 + 8)
    else if b = markerStr8 ∨ b = markerStr16 ∨ b = markerStr32 then
      let _ ← readString
    else fail (.unsupported b)

/-- `SkipValue`. Every call reads a byte before it calls itself, so the calls are never more than the
bytes left. -/
def skipValue : Decoder Unit := fun r => skipValueWithin (r.bytes.length + 1) r

/-! ## Structs and enums -/

/-- A wire name with the decoder of its payload. The decoder of a struct's field updates the struct
under construction; the decoder of a variant produces one. -/
structure Field (σ : Type) (τ : Type := σ) where
  name : String
  decode : σ → Decoder τ

variable {σ τ α : Type}

/-- `SkipField`, for a field that is consumed and discarded. -/
def skipField (s : σ) : Decoder σ := do
  skipValue
  pure s

def invoke (parent : String) (f : Field σ τ) (s : σ) : Decoder τ :=
  wrap (.field parent f.name) (f.decode s)

/-- A map key, a string or an integer, and the payload of the field it names. -/
def dispatchKeyed (parent kind : String) (fields : List (Field σ τ)) (s : σ) : Decoder τ := do
  let b ← peek
  if isStringMarker b then
    let key ← readString
    match fields.find? (fun f => asBytes f.name.toList = key) with
    | some f => invoke parent f s
    | none => fail (.unknown parent kind key)
  else
    let tag ← readUint
    match fields[tag]? with
    | some f => invoke parent f s
    | none => fail (.unknownTag parent kind tag)

/-- The entries of a map, from the `i`-th on. -/
def readEntries (name : String) (fields : List (Field σ)) (i : Nat) : Nat → σ → Decoder σ
  | 0, s => pure s
  | n + 1, s => do
    let s ← wrap (.item s!"{name}: entry" i) (dispatchKeyed name "field" fields s)
    readEntries name fields (i + 1) n s

/-- The elements of a positional array, from the `i`-th on. -/
def readPositional (name : String) (fields : List (Field σ)) (i : Nat) : Nat → σ → Decoder σ
  | 0, s => pure s
  | n + 1, s => do
    match fields[i]? with
    | none => fail (.positional name i fields.length)
    | some f =>
      let s ← invoke name f s
      readPositional name fields (i + 1) n s

/-- `ReadStruct`: a string-keyed map, an integer-keyed map or a positional array. -/
def readStruct (name : String) (fields : List (Field σ)) (s : σ) : Decoder σ := do
  let b ← peek
  if isMapMarker b then
    let n ← readMapLen
    readEntries name fields 0 n s
  else if isArrayMarker b then
    let n ← readArrayLen
    readPositional name fields 0 n s
  else fail (.mapOrArray name b)

/-- `ReadEnum`: a map of one entry. -/
def readEnum (name : String) (variants : List (Field σ τ)) (s : σ) : Decoder τ := do
  let n ← wrap (.within name) readMapLen
  if n ≠ 1 then fail (.singleEntry name n)
  else dispatchKeyed name "variant" variants s

/-- `ReadDispatchedEnum`: each variant decodes a fresh value of its own type. -/
def readDispatchedEnum (name : String) (exemplars : List (Field Unit τ)) : Decoder τ :=
  readEnum name exemplars ()

/-! ## Vectors -/

/-- Elements decoded one after another, each into the value it finds there. -/
def readElements (decode : α → Decoder α) : List α → Decoder (List α)
  | [] => pure []
  | x :: xs => do
    let x ← decode x
    let xs ← readElements decode xs
    pure (x :: xs)

/-- `ReadVec`: a fresh slice of zero values, decoded. -/
def readVec (zero : α) (decode : α → Decoder α) : Decoder (List α) := do
  let n ← readArrayLen
  readElements decode (List.replicate n zero)

/-- `ReadArrayInto`: the elements of a fixed-size array, decoded in place. -/
def readArrayInto (decode : α → Decoder α) (out : List α) : Decoder (List α) := do
  let n ← readArrayLen
  if n ≠ out.length then fail (.fixedSize out.length n)
  else readElements decode out

/-- `ConsumeFormatByte`: `2` Msgpack, `3` MsgpackCompact, `4` MsgpackTagged. -/
def consumeFormatByte : Decoder Unit := do
  let b ← wrap (.within "read format byte") readByte
  if b = 2 ∨ b = 3 ∨ b = 4 then pure () else fail (.format b)

end Nortia.Sunspot
