import Mathlib.Analysis.SpecialFunctions.Trigonometric.Bounds
import PolygonNesting.Lib.Plane

/-!
# An elliptic arc and its chord

The image of a circle under an affine map, and the distance of its points from
a chord.  Off the line of the chord an arc of at most half a turn deviates most
at its middle; along the line its points may run past the ends of the chord.
-/

namespace ArcChord

open Plane

variable {p q z : ℝ × ℝ} {d : ℝ}

/-! ## §1  Distance from a segment -/

/-- How far a point is along a segment, in units of its squared length. -/
def along (p q z : ℝ × ℝ) : ℝ := (z.1 - p.1) * (q.1 - p.1) + (z.2 - p.2) * (q.2 - p.2)

/-- A point of the image of the unit circle. -/
noncomputable def arc (c u w : ℝ × ℝ) (t : ℝ) : ℝ × ℝ :=
  (c.1 + u.1 * Real.cos t + w.1 * Real.sin t, c.2 + u.2 * Real.cos t + w.2 * Real.sin t)

variable {c u w : ℝ × ℝ} {m h s : ℝ}

end ArcChord
