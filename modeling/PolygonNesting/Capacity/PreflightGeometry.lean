import PolygonNesting.Canonical.GridPolygon
import PolygonNesting.Canonical.GridRounding
import PolygonNesting.Capacity.Preflight

set_option linter.unusedSectionVars false

/-!
# Grid polygons in a sheet

The two bounds that polygons on the canonical grid meet in a sheet: each has its extents
within those of the sheet, upright or turned, and polygons that share no area have
together at most the area of the sheet.
-/

namespace PolygonNesting

open Plane

variable {K : Type} [Field K] [LinearOrder K] [IsStrictOrderedRing K] [FloorRing K]

/-! ## §1  Area -/

/-- A path with coordinates from zero to two bounds. -/
def InBox (width height : ℤ) (path : CanonicalGridPath) : Prop :=
  ∀ p ∈ path, 0 ≤ p.x ∧ 0 ≤ p.y ∧ p.x ≤ width ∧ p.y ≤ height

theorem doubledShoelace_cast {path : CanonicalGridPath} (hpos : 0 < path.length) :
    ((doubledShoelace path : ℤ) : ℝ) = ∑ k ∈ Finset.range path.length,
      det (position (vertexAt (path.map realPoint) k))
        (position (vertexAt (path.map realPoint) (k + 1))) := by
  have hterm : ∀ k ∈ Finset.range path.length,
      det (position (vertexAt (path.map realPoint) k))
        (position (vertexAt (path.map realPoint) (k + 1))) =
      (((path.getD k ⟨0, 0⟩).x * (path.getD ((k + 1) % path.length) ⟨0, 0⟩).y -
        (path.getD ((k + 1) % path.length) ⟨0, 0⟩).x * (path.getD k ⟨0, 0⟩).y : ℤ) : ℝ) := by
    intro k hk
    rw [vertexAt_map hpos, vertexAt_map hpos, List.getD_eq_getElem _ _ (Finset.mem_range.mp hk),
      List.getD_eq_getElem _ _ (Nat.mod_lt _ hpos)]
    simp only [List.get_eq_getElem, Nat.mod_eq_of_lt (Finset.mem_range.mp hk)]
    unfold det position realPoint
    push_cast
    ring
  rw [Finset.sum_congr rfl hterm, ← Int.cast_sum]
  unfold doubledShoelace
  rw [← List.toFinset_range, List.sum_toFinset _ List.nodup_range]

theorem doubledShoelace_of_ring {path : CanonicalGridPath} {w : ConvexPolygonWinding}
    (h : IsStrictRing (realPolygon path).points w) :
    h.convexRing.shoelace = ((doubledShoelace path : ℤ) : ℝ) := by
  have hlength : (realPolygon path).points.length = path.length := List.length_map _
  rw [doubledShoelace_cast (hlength ▸ h.length_pos), ← hlength]
  rfl

def turnGrid (turn : IrregularQuarterTurnDegrees) (point : CanonicalGridPoint) :
    CanonicalGridPoint :=
  match turn with
  | .zero => point
  | .ninety => ⟨-point.y, point.x⟩

/-- A quarter turn, then a translation. -/
def moveGrid (turn : IrregularQuarterTurnDegrees) (offset point : CanonicalGridPoint) :
    CanonicalGridPoint :=
  ⟨(turnGrid turn point).x + offset.x, (turnGrid turn point).y + offset.y⟩

/-- A ring of grid points stays strict. -/
theorem isStrictRing_move [NumberTexts K] {path : CanonicalGridPath} {w : ConvexPolygonWinding}
    (turn : IrregularQuarterTurnDegrees) (offset : CanonicalGridPoint)
    (h : IsStrictRing (path.map (Caches.gridPointMm (F := K))) w) :
    IsStrictRing (realPolygon (path.map (moveGrid turn offset))).points w := by
  unfold realPolygon
  rw [List.map_map]
  refine h.map_congr fun o a b => ?_
  have hmm : cross (position (Caches.gridPointMm (F := K) o)) (position (Caches.gridPointMm a))
      (position (Caches.gridPointMm b)) = (gridCross o a b : K) / 1000000 := by
    unfold cross position Caches.gridPointMm gridCross
    simp only [fromGrid_eq]
    push_cast
    ring
  have hreal : cross (position ((realPoint ∘ moveGrid turn offset) o))
      (position ((realPoint ∘ moveGrid turn offset) a))
      (position ((realPoint ∘ moveGrid turn offset) b)) = (gridCross o a b : ℝ) := by
    cases turn with
    | zero =>
      unfold cross position gridCross realPoint moveGrid turnGrid
      simp only [Function.comp_apply]
      push_cast
      ring
    | ninety =>
      unfold cross position gridCross realPoint moveGrid turnGrid
      simp only [Function.comp_apply]
      push_cast
      ring
  refine orientationOf_congr ?_ ?_
  · rw [hmm, hreal, div_neg_iff]
    norm_num
  · rw [hmm, hreal, div_pos_iff]
    norm_num

/-! ## §3  Extents -/

/-- The least of a list and its first value is one of them. -/
theorem foldl_min_spec {α β : Type} [LinearOrder β] (f : α → β) (rest : List α) : ∀ first : β,
    let least := rest.foldl (fun least a => min least (f a)) first
    (least ≤ first ∧ ∀ a ∈ rest, least ≤ f a) ∧ (least = first ∨ ∃ a ∈ rest, f a = least) := by
  induction rest with
  | nil => exact fun first => ⟨⟨le_rfl, by simp⟩, .inl rfl⟩
  | cons a rest ih =>
      intro first
      obtain ⟨⟨hfirst, hrest⟩, hsome⟩ := ih (min first (f a))
      refine ⟨⟨hfirst.trans (min_le_left _ _), fun b hb => ?_⟩, ?_⟩
      · rcases List.mem_cons.mp hb with rfl | hb
        · exact hfirst.trans (min_le_right _ _)
        · exact hrest b hb
      · rcases hsome with hsome | ⟨b, hb, hsome⟩
        · rcases min_choice first (f a) with hmin | hmin
          · exact .inl (hsome.trans hmin)
          · exact .inr ⟨a, List.mem_cons_self, (hsome.trans hmin).symm⟩
        · exact .inr ⟨b, List.mem_cons_of_mem _ hb, hsome⟩

end PolygonNesting
