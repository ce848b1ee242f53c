/-!
# Frames of a stream

A reader cuts frames off the front of what has arrived and keeps the rest for later. Where a frame
that was cut off stays the same when more arrives, it does not matter in which pieces the stream
comes: the frames and the rest are those of the whole.
-/

namespace Lib

/-- How to cut the first frame off a stream. -/
structure Framing (α β : Type) where
  next : List α → Option (β × List α)
  shrinks : ∀ {s frame rest}, next s = some (frame, rest) → rest.length < s.length
  stable : ∀ {s frame rest} (more : List α), next s = some (frame, rest) →
    next (s ++ more) = some (frame, rest ++ more)

namespace Framing

variable {α β : Type} (F : Framing α β)

/-- All frames of a stream, and the rest. -/
def drain (s : List α) : List β × List α :=
  match _h : F.next s with
  | some (frame, rest) => (frame :: (drain rest).1, (drain rest).2)
  | none => ([], s)
termination_by s.length
decreasing_by all_goals exact F.shrinks _h

variable {F}

theorem drain_of_some {s rest : List α} {frame : β} (h : F.next s = some (frame, rest)) :
    F.drain s = (frame :: (F.drain rest).1, (F.drain rest).2) := by
  rw [drain]
  split
  · next frame' rest' heq =>
    rw [h] at heq
    cases heq
    rfl
  · next heq =>
    rw [h] at heq
    cases heq

theorem drain_of_none {s : List α} (h : F.next s = none) : F.drain s = ([], s) := by
  rw [drain]
  split
  · next heq =>
    rw [h] at heq
    cases heq
  · rfl

/-- **What arrives later** continues from the rest. -/
theorem drain_append (s more : List α) : F.drain (s ++ more) =
    ((F.drain s).1 ++ (F.drain ((F.drain s).2 ++ more)).1,
      (F.drain ((F.drain s).2 ++ more)).2) := by
  induction hlength : s.length using Nat.strongRecOn generalizing s with
  | ind n ih =>
    cases hnext : F.next s with
    | none =>
      rw [drain_of_none hnext]
      rfl
    | some cut =>
      obtain ⟨frame, rest⟩ := cut
      have hshort : rest.length < n := hlength ▸ F.shrinks hnext
      rw [drain_of_some hnext, drain_of_some (F.stable more hnext), ih _ hshort rest rfl]
      rfl

end Framing

end Lib
