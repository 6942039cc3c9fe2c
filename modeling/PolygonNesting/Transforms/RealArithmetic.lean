import Mathlib.Analysis.SpecialFunctions.Trigonometric.Basic
import PolygonNesting.Caches.TransformGeometry

/-!
# Exact real arithmetic

The reals as numbers of the engine: nothing is rounded, lengths and angles are
the true ones.  No text of a real is ever read.
-/

namespace PolygonNesting

noncomputable instance realJsMath : JsMath ℝ :=
  { exactJsNumber ℝ with
    hypot := fun dx dy => √(dx ^ 2 + dy ^ 2)
    remainder := fun a b => a - b * ((if 0 ≤ a / b then ⌊a / b⌋ else ⌈a / b⌉ : ℤ) : ℝ)
    numberToJsString := fun _ => ""
    ofInt := fun n => n }

noncomputable instance realJsTrig : JsTrig ℝ := ⟨Real.pi, Real.cos, Real.sin⟩

end PolygonNesting
