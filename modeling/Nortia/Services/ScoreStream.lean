import Nortia.Lib.BigInt
import Nortia.Lib.Framing
import Nortia.Lib.Utf8

/-!
# `services/src/txline/client.ts`: the score stream

The body of the response arrives in chunks of bytes. Each is decoded, its line ends are normalised,
and every block of lines that an empty line completes becomes a message when it has data.
-/

namespace Nortia.Services

open Lib

structure SseMessage where
  event : Option (List Char)
  data : List Char
  deriving DecidableEq

/-! ## Lines and blocks -/

/-- `.replace(/\r\n/g, "\n")`. -/
def normalizeNewlines : List Char → List Char
  | [] => []
  | c :: text =>
    if c = '\r' ∧ text.head? = some '\n' then normalizeNewlines text
    else c :: normalizeNewlines text

/-- The text before the first empty line, and what follows it. -/
def nextBlock : List Char → Option (List Char × List Char)
  | [] => none
  | c :: buffer =>
    if c = '\n' ∧ buffer.head? = some '\n' then some ([], buffer.tail)
    else (nextBlock buffer).map fun cut => (c :: cut.1, cut.2)

theorem nextBlock_shrinks {buffer block rest : List Char}
    (h : nextBlock buffer = some (block, rest)) : rest.length < buffer.length := by
  induction buffer generalizing block rest with
  | nil => cases h
  | cons c buffer ih =>
    rw [nextBlock] at h
    split at h
    · cases h
      rw [List.length_tail, List.length_cons]
      omega
    · obtain ⟨⟨block', rest'⟩, hnext, heq⟩ := Option.map_eq_some_iff.mp h
      cases heq
      exact (ih hnext).trans (Nat.lt_succ_self _)

theorem nextBlock_stable {buffer block rest : List Char} (more : List Char)
    (h : nextBlock buffer = some (block, rest)) :
    nextBlock (buffer ++ more) = some (block, rest ++ more) := by
  induction buffer generalizing block rest with
  | nil => cases h
  | cons c buffer ih =>
    rw [nextBlock] at h
    rw [List.cons_append, nextBlock]
    cases buffer with
    | nil => simp [nextBlock] at h
    | cons d buffer =>
      have hhead : (d :: buffer ++ more).head? = (d :: buffer).head? := rfl
      rw [hhead]
      split at h
      · next hempty =>
        cases h
        rw [if_pos hempty]
        rfl
      · next hfull =>
        obtain ⟨⟨block', rest'⟩, hnext, heq⟩ := Option.map_eq_some_iff.mp h
        cases heq
        rw [if_neg hfull, ih hnext]
        rfl

/-- The loop over the boundaries of the buffer. -/
def blocks : Framing Char (List Char) where
  next := nextBlock
  shrinks := nextBlock_shrinks
  stable := nextBlock_stable

/-- The event and the data of a block, after one more line. -/
def readLine (fields : Option (List Char) × List (List Char)) (line : List Char) :
    Option (List Char) × List (List Char) :=
  (if "event:".toList.isPrefixOf line then some (BigInt.trim (line.drop 6)) else fields.1,
    if "data:".toList.isPrefixOf line then fields.2 ++ [(line.drop 5).dropWhile BigInt.isSpace]
    else fields.2)

/-- What is yielded for a block. -/
def message (block : List Char) : Option SseMessage :=
  let fields := (block.splitOn '\n').foldl readLine (none, [])
  if fields.2 = [] then none
  else some { event := fields.1, data := List.intercalate ['\n'] fields.2 }

/-! ## The stream -/

/-- The variables of `scoreStream`, and what it has yielded. -/
structure ScoreStream where
  decoder : Utf8.Decoder
  buffer : List Char
  yielded : List SseMessage

def ScoreStream.initial : ScoreStream where
  decoder := .initial
  buffer := []
  yielded := []

/-- The body of the loop over the chunks. -/
def ScoreStream.receive (s : ScoreStream) (chunk : List UInt8) : ScoreStream :=
  let text := (s.decoder.decode chunk).2
  let buffer := s.buffer ++ normalizeNewlines text
  { decoder := (s.decoder.decode chunk).1
    buffer := (blocks.drain buffer).2
    yielded := s.yielded ++ (blocks.drain buffer).1.filterMap message }

/-- All that is yielded while the chunks arrive. -/
def scoreStream (chunks : List (List UInt8)) : List SseMessage :=
  (chunks.foldl ScoreStream.receive .initial).yielded

end Nortia.Services
