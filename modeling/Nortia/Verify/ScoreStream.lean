import Nortia.Services.ScoreStream

/-!
# The score stream and its chunks

Neither the decoder nor the loop over the blocks depends on where the stream is cut. Only the line
ends are normalised chunk by chunk: a line end of two bytes that is cut in the middle keeps its
carriage return. Away from these cuts, what has been yielded is what the bytes so far would yield
in one piece.
-/

namespace Nortia.Services

open Lib

/-! ## Line ends -/

theorem normalizeNewlines_append {s t : List Char}
    (h : ¬(s.getLast? = some '\r' ∧ t.head? = some '\n')) :
    normalizeNewlines (s ++ t) = normalizeNewlines s ++ normalizeNewlines t := by
  induction s with
  | nil => rfl
  | cons c s ih =>
    cases s with
    | nil =>
      have hcut : ¬(c = '\r' ∧ t.head? = some '\n') := fun hc => h ⟨congrArg some hc.1, hc.2⟩
      simp [normalizeNewlines, hcut]
    | cons d s =>
      have hrest := ih fun hcut => h ⟨by rw [List.getLast?_cons_cons]; exact hcut.1, hcut.2⟩
      have hwhole : normalizeNewlines (c :: (d :: s ++ t)) =
          if c = '\r' ∧ (d :: s).head? = some '\n' then normalizeNewlines (d :: s ++ t)
          else c :: normalizeNewlines (d :: s ++ t) := rfl
      have hleft : normalizeNewlines (c :: d :: s) =
          if c = '\r' ∧ (d :: s).head? = some '\n' then normalizeNewlines (d :: s)
          else c :: normalizeNewlines (d :: s) := rfl
      rw [List.cons_append, hwhole, hleft, hrest]
      split
      · rfl
      · rfl

/-- No chunk ends with the carriage return of a line end that the next one completes. -/
def Unsplit (chunks : List (List UInt8)) : Prop :=
  ∀ before chunk after, chunks = before ++ chunk :: after →
    ¬(before.flatten.getLast? = some 13 ∧ chunk.head? = some 10)

theorem Unsplit.prefix {before after : List (List UInt8)} (h : Unsplit (before ++ after)) :
    Unsplit before := by
  intro first chunk rest heq
  apply h first chunk (rest ++ after)
  rw [heq, List.append_assoc]
  rfl

/-! ## One chunk -/

/-- The text of some bytes with its line ends normalised at once. -/
def normalText (bytes : List UInt8) : List Char :=
  normalizeNewlines (Utf8.Decoder.initial.decode bytes).2

/-- The state is that of reading the bytes in one piece. -/
structure Reads (s : ScoreStream) (bytes : List UInt8) : Prop where
  decoder : s.decoder = (Utf8.Decoder.initial.decode bytes).1
  buffer : s.buffer = (blocks.drain (normalText bytes)).2
  yielded : s.yielded = (blocks.drain (normalText bytes)).1.filterMap message

/-- Text made on both sides of a cut that splits no line end is normalised in two parts. -/
theorem normalText_append {before after : List UInt8}
    (h : ¬(before.getLast? = some 13 ∧ after.head? = some 10)) :
    normalText (before ++ after) = normalText before ++
      normalizeNewlines ((Utf8.Decoder.initial.decode before).1.decode after).2 := by
  unfold normalText
  rw [Utf8.Decoder.decode_append]
  apply normalizeNewlines_append
  rintro ⟨hlast, hfirst⟩
  obtain ⟨⟨cr, hcr, hcr13⟩, lf, hlf, hlf10⟩ := Utf8.Decoder.decode_cut hlast hfirst (by decide)
  cases (UInt8.toNat_inj.mp hcr13.symm : cr = 13)
  cases (UInt8.toNat_inj.mp hlf10.symm : lf = 10)
  exact h ⟨hcr, hlf⟩

/-- **One chunk** after bytes that were read as one piece. -/
theorem Reads.receive {s : ScoreStream} {bytes chunk : List UInt8} (hs : Reads s bytes)
    (h : ¬(bytes.getLast? = some 13 ∧ chunk.head? = some 10)) :
    Reads (s.receive chunk) (bytes ++ chunk) := by
  have htext := normalText_append h
  have hdrain := Framing.drain_append (F := blocks) (normalText bytes)
    (normalizeNewlines ((Utf8.Decoder.initial.decode bytes).1.decode chunk).2)
  constructor
  · rw [Utf8.Decoder.decode_append]
    simp only [ScoreStream.receive, hs.decoder]
  · rw [htext, hdrain]
    simp only [ScoreStream.receive, hs.decoder, hs.buffer]
  · rw [htext, hdrain]
    simp only [ScoreStream.receive, hs.decoder, hs.buffer, hs.yielded, List.filterMap_append]

/-! ## All chunks -/

theorem reads_foldl {chunks : List (List UInt8)} (h : Unsplit chunks) :
    Reads (chunks.foldl ScoreStream.receive .initial) chunks.flatten := by
  induction chunks using List.reverseRecOn with
  | nil =>
    have hdrain : blocks.drain [] = ([], []) := Framing.drain_of_none rfl
    constructor
    · rfl
    · exact (congrArg Prod.snd hdrain).symm
    · rw [List.flatten_nil, normalText]
      exact (congrArg (fun drained => drained.1.filterMap message) hdrain).symm
  | append_singleton chunks chunk ih =>
    rw [List.foldl_append, List.flatten_append, List.flatten_singleton]
    exact (ih h.prefix).receive (h chunks chunk [] rfl)

theorem unsplit_singleton (bytes : List UInt8) : Unsplit [bytes] := by
  rintro before chunk after heq ⟨hlast, -⟩
  cases before with
  | nil => cases hlast
  | cons first before => cases before <;> cases heq

/-- What was yielded is what the bytes would yield in one piece. -/
theorem scoreStream_eq {chunks : List (List UInt8)} (h : Unsplit chunks) :
    scoreStream chunks = scoreStream [chunks.flatten] := by
  have hpieces := (reads_foldl h).yielded
  have hwhole := (reads_foldl (unsplit_singleton chunks.flatten)).yielded
  rw [List.flatten_singleton] at hwhole
  rw [scoreStream, hpieces, scoreStream, hwhole]

/-- **The stream does not depend on its chunks**, for cuttings of the same bytes that split no line
end of two bytes: at every moment of either run, what was yielded is what the bytes so far yield in
one piece, and in the end both runs yield the same. -/
theorem chunking_changes_nothing {chunks chunks' : List (List UInt8)}
    (hsame : chunks.flatten = chunks'.flatten) (h : Unsplit chunks) (h' : Unsplit chunks') :
    (∀ n, scoreStream (chunks.take n) = scoreStream [(chunks.take n).flatten] ∧
      scoreStream (chunks'.take n) = scoreStream [(chunks'.take n).flatten]) ∧
    scoreStream chunks = scoreStream chunks' := by
  constructor
  · intro n
    constructor
    · apply scoreStream_eq
      rw [← List.take_append_drop n chunks] at h
      exact h.prefix
    · apply scoreStream_eq
      rw [← List.take_append_drop n chunks'] at h'
      exact h'.prefix
  · rw [scoreStream_eq h, scoreStream_eq h', hsame]

/-! ## One message -/

namespace Sample

/-- `data:x` and the line end of the line. -/
def dataLine : List UInt8 := [100, 97, 116, 97, 58, 120, 13, 10]

/-- The empty line that completes the block. -/
def emptyLine : List UInt8 := [13, 10]

theorem unsplit_lines : Unsplit [dataLine, emptyLine] := by
  rintro before chunk after heq ⟨hlast, -⟩
  cases before with
  | nil => cases hlast
  | cons first before =>
    cases before with
    | nil =>
      cases heq
      revert hlast
      decide
    | cons second before => cases before <;> cases heq

end Sample

open Nortia.Services.Sample in
theorem chunking_changes_nothing_lines :
    scoreStream [dataLine, emptyLine] = scoreStream [dataLine ++ emptyLine] := by
  have hsame : [dataLine, emptyLine].flatten = [dataLine ++ emptyLine].flatten := rfl
  exact (chunking_changes_nothing hsame unsplit_lines (unsplit_singleton _)).2

/-- A cut inside the first line end leaves its carriage return in the data. -/
theorem cut_line_end_changes_data :
    scoreStream [[100, 97, 116, 97, 58, 120, 13, 10, 13, 10]] = [⟨none, ['x']⟩] ∧
      scoreStream [[100, 97, 116, 97, 58, 120, 13], [10, 13, 10]] = [⟨none, ['x', '\r']⟩] := by
  decide +kernel

end Nortia.Services
