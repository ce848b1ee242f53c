import Mathlib.Algebra.BigOperators.Group.List.Basic
import Mathlib.Tactic.Ring

/-!
# Sharing a secret among points of a line

A secret is where a line meets the axis, and a share is the height of the line at a point. Shares
at one point add up to the share of the sum, and shares at two points give the secret back.
-/

namespace Lib.Shamir

variable {R α : Type} [CommRing R]

/-- The height at `x` of the line through `secret` at zero. -/
def share (secret slope x : R) : R := secret + slope * x

/-- **Shares add up**: the sum of the shares of many secrets is a share of their sum. -/
theorem sum_share (l : List α) (secret slope : α → R) (x : R) :
    (l.map fun a => share (secret a) (slope a) x).sum =
      share (l.map secret).sum (l.map slope).sum x := by
  induction l with
  | nil => simp [share]
  | cons a l ih =>
    rw [List.map_cons, List.map_cons, List.map_cons, List.sum_cons, List.sum_cons, List.sum_cons, ih]
    simp only [share]
    ring

/-- **Two shares give the secret back**, by an inverse of the distance of their points. -/
theorem reconstruct {secret slope x y inverse : R} (h : inverse * (y - x) = 1) :
    (share secret slope x * y - share secret slope y * x) * inverse = secret := by
  calc (share secret slope x * y - share secret slope y * x) * inverse
      = secret * (inverse * (y - x)) := by simp only [share]; ring
    _ = secret := by rw [h, mul_one]

end Lib.Shamir
