import Mathlib.Analysis.Convex.Basic
import PolygonNesting.Canonical.LayoutIdentity
import PolygonNesting.Capacity.PreflightGeometry

set_option linter.unusedSectionVars false

/-!
# Layouts of grid paths, moved rigidly

A layout of grid paths is turned by a quarter and anchored at the origin by one rigid motion of
the grid.  The motion changes no overlap, so what a sheet decides about the anchored layout are
the extents alone.
-/

open scoped Pointwise

namespace PolygonNesting

open Plane

/-! ## §1  Corners -/

/-- The greatest coordinates of the points. -/
def upperRight : List CanonicalGridPoint → CanonicalGridPoint
  | [] => ⟨0, 0⟩
  | first :: rest =>
      ⟨rest.foldl (fun greatest point => max greatest point.x) first.x,
        rest.foldl (fun greatest point => max greatest point.y) first.y⟩

/-- An extremum over two lists of points is the one of their extrema. -/
theorem foldl_pick_append {pick : ℤ → ℤ → ℤ} [Std.Associative pick]
    (f : CanonicalGridPoint → ℤ) (first second : CanonicalGridPoint)
    (rest rest' : List CanonicalGridPoint) :
    (rest ++ second :: rest').foldl (fun best point => pick best (f point)) (f first) =
      pick (rest.foldl (fun best point => pick best (f point)) (f first))
        (rest'.foldl (fun best point => pick best (f point)) (f second)) := by
  have hpick : ∀ (points : List CanonicalGridPoint) (best : ℤ),
      points.foldl (fun best point => pick best (f point)) best =
        (points.map f).foldl pick best := fun points best => List.foldl_map.symm
  rw [List.foldl_append, List.foldl_cons, hpick rest', hpick rest', List.foldl_assoc]

theorem lowerLeft_append {points points' : List CanonicalGridPoint} (h : points ≠ [])
    (h' : points' ≠ []) :
    lowerLeft (points ++ points') =
      ⟨min (lowerLeft points).x (lowerLeft points').x,
        min (lowerLeft points).y (lowerLeft points').y⟩ := by
  obtain ⟨first, rest, rfl⟩ := List.exists_cons_of_ne_nil h
  obtain ⟨second, rest', rfl⟩ := List.exists_cons_of_ne_nil h'
  exact congrArg₂ CanonicalGridPoint.mk (foldl_pick_append (·.x) first second rest rest')
    (foldl_pick_append (·.y) first second rest rest')

theorem upperRight_append {points points' : List CanonicalGridPoint} (h : points ≠ [])
    (h' : points' ≠ []) :
    upperRight (points ++ points') =
      ⟨max (upperRight points).x (upperRight points').x,
        max (upperRight points).y (upperRight points').y⟩ := by
  obtain ⟨first, rest, rfl⟩ := List.exists_cons_of_ne_nil h
  obtain ⟨second, rest', rfl⟩ := List.exists_cons_of_ne_nil h'
  exact congrArg₂ CanonicalGridPoint.mk (foldl_pick_append (·.x) first second rest rest')
    (foldl_pick_append (·.y) first second rest rest')

/-- The two corners frame the points, and points reach all four sides. -/
structure Framed (lower upper : CanonicalGridPoint) (points : List CanonicalGridPoint) : Prop
    where
  inside : ∀ p ∈ points, lower.x ≤ p.x ∧ lower.y ≤ p.y ∧ p.x ≤ upper.x ∧ p.y ≤ upper.y
  left : ∃ p ∈ points, p.x = lower.x
  bottom : ∃ p ∈ points, p.y = lower.y
  right : ∃ p ∈ points, p.x = upper.x
  top : ∃ p ∈ points, p.y = upper.y

theorem framed_corners {points : List CanonicalGridPoint} (h : points ≠ []) :
    Framed (lowerLeft points) (upperRight points) points := by
  obtain ⟨first, rest, rfl⟩ := List.exists_cons_of_ne_nil h
  obtain ⟨⟨hleft, hleft'⟩, hx⟩ := foldl_min_spec CanonicalGridPoint.x rest first.x
  obtain ⟨⟨hbottom, hbottom'⟩, hy⟩ := foldl_min_spec CanonicalGridPoint.y rest first.y
  obtain ⟨⟨hright, hright'⟩, hx'⟩ :=
    foldl_min_spec (β := ℤᵒᵈ) CanonicalGridPoint.x rest first.x
  obtain ⟨⟨htop, htop'⟩, hy'⟩ := foldl_min_spec (β := ℤᵒᵈ) CanonicalGridPoint.y rest first.y
  have hsome : ∀ {f : CanonicalGridPoint → ℤ} {value : ℤ},
      (value = f first ∨ ∃ p ∈ rest, f p = value) → ∃ p ∈ first :: rest, f p = value := by
    rintro f value (rfl | ⟨p, hp, hvalue⟩)
    · exact ⟨first, List.mem_cons_self, rfl⟩
    · exact ⟨p, List.mem_cons_of_mem _ hp, hvalue⟩
  refine ⟨fun p hp => ?_, hsome hx, hsome hy, hsome hx', hsome hy'⟩
  rcases List.mem_cons.1 hp with rfl | hp
  · exact ⟨hleft, hbottom, hright, htop⟩
  · exact ⟨hleft' p hp, hbottom' p hp, hright' p hp, htop' p hp⟩

/-- One frame is around the points that reach the sides of another. -/
theorem Framed.le {lower upper lower' upper' : CanonicalGridPoint}
    {points : List CanonicalGridPoint} (h : Framed lower upper points)
    (h' : Framed lower' upper' points) :
    lower.x ≤ lower'.x ∧ lower.y ≤ lower'.y ∧ upper'.x ≤ upper.x ∧ upper'.y ≤ upper.y := by
  obtain ⟨-, ⟨l, hl, hleft⟩, ⟨b, hb, hbottom⟩, ⟨r, hr, hright⟩, ⟨t, ht, htop⟩⟩ := h'
  exact ⟨hleft ▸ (h.inside l hl).1, hbottom ▸ (h.inside b hb).2.1,
    hright ▸ (h.inside r hr).2.2.1, htop ▸ (h.inside t ht).2.2.2⟩

theorem Framed.unique {lower upper lower' upper' : CanonicalGridPoint}
    {points : List CanonicalGridPoint} (h : Framed lower upper points)
    (h' : Framed lower' upper' points) : lower = lower' ∧ upper = upper' := by
  have hle := h.le h'
  have hge := h'.le h
  constructor
  · exact congrArg₂ CanonicalGridPoint.mk (by omega : lower.x = lower'.x) (by omega)
  · exact congrArg₂ CanonicalGridPoint.mk (by omega : upper.x = upper'.x) (by omega)

theorem Framed.ne_nil {lower upper : CanonicalGridPoint} {points : List CanonicalGridPoint}
    (h : Framed lower upper points) : points ≠ [] := by
  obtain ⟨p, hp, -⟩ := h.left
  exact List.ne_nil_of_mem hp

theorem Framed.corners {lower upper : CanonicalGridPoint} {points : List CanonicalGridPoint}
    (h : Framed lower upper points) : lowerLeft points = lower ∧ upperRight points = upper :=
  (framed_corners h.ne_nil).unique h

/-- Framed points lie in a box at the origin when the upper corner does. -/
theorem Framed.inBox_iff {upper : CanonicalGridPoint} {points : List CanonicalGridPoint}
    (h : Framed ⟨0, 0⟩ upper points) {width height : ℤ} :
    InBox width height points ↔ upper.x ≤ width ∧ upper.y ≤ height := by
  constructor
  · intro hbox
    obtain ⟨r, hr, hright⟩ := h.right
    obtain ⟨t, ht, htop⟩ := h.top
    have hr' := hbox r hr
    have ht' := hbox t ht
    omega
  · rintro ⟨hwidth, hheight⟩ p hp
    have hp' := h.inside p hp
    simp only at hp'
    omega

/-! ## §2  Motions -/

def IrregularQuarterTurnDegrees.quarterTurn : IrregularQuarterTurnDegrees → QuarterTurn
  | .zero => .zero
  | .ninety => .ninety

theorem exists_turn_iff {p : IrregularQuarterTurnDegrees → Prop} :
    (∃ turn, p turn) ↔ p .zero ∨ p .ninety := by
  constructor
  · rintro ⟨_ | _, h⟩
    · exact .inl h
    · exact .inr h
  · rintro (h | h)
    · exact ⟨_, h⟩
    · exact ⟨_, h⟩

theorem rotateGridPoint_quarterTurn (turn : IrregularQuarterTurnDegrees)
    (point : CanonicalGridPoint) :
    rotateGridPoint point turn.quarterTurn = turnGrid turn point := by
  cases turn <;> rfl

/-- The upper corner of a layout at the origin. -/
def extents (points : List CanonicalGridPoint) : CanonicalGridPoint :=
  ⟨(upperRight points).x - (lowerLeft points).x, (upperRight points).y - (lowerLeft points).y⟩

/-- Extents as a turned layout has them. -/
def turnExtents (turn : IrregularQuarterTurnDegrees) (extent : CanonicalGridPoint) :
    CanonicalGridPoint :=
  match turn with
  | .zero => extent
  | .ninety => ⟨extent.y, extent.x⟩

/-- The motion that turns the points and anchors them. -/
def anchoring (turn : IrregularQuarterTurnDegrees) (points : List CanonicalGridPoint) :
    CanonicalGridPoint :=
  match turn with
  | .zero => ⟨-(lowerLeft points).x, -(lowerLeft points).y⟩
  | .ninety => ⟨(upperRight points).y, -(lowerLeft points).x⟩

/-- The corner of a frame that a turn takes to the place of the first. -/
def turnCorner (turn : IrregularQuarterTurnDegrees) (first second : CanonicalGridPoint) :
    CanonicalGridPoint :=
  match turn with
  | .zero => first
  | .ninety => ⟨first.x, second.y⟩

/-- **A motion moves the frame.** -/
theorem Framed.move {lower upper : CanonicalGridPoint} {points : List CanonicalGridPoint}
    (h : Framed lower upper points) (turn : IrregularQuarterTurnDegrees)
    (offset : CanonicalGridPoint) :
    Framed (moveGrid turn offset (turnCorner turn lower upper))
      (moveGrid turn offset (turnCorner turn upper lower))
      (points.map (moveGrid turn offset)) := by
  obtain ⟨hinside, ⟨l, hl, hleft⟩, ⟨b, hb, hbottom⟩, ⟨r, hr, hright⟩, ⟨t, ht, htop⟩⟩ := h
  have hmem : ∀ {p : CanonicalGridPoint}, p ∈ points →
      moveGrid turn offset p ∈ points.map (moveGrid turn offset) := List.mem_map_of_mem
  cases turn with
  | zero =>
    refine ⟨List.forall_mem_map.2 fun p hp => ?_, ⟨_, hmem hl, ?_⟩, ⟨_, hmem hb, ?_⟩,
      ⟨_, hmem hr, ?_⟩, ⟨_, hmem ht, ?_⟩⟩ <;>
      simp only [moveGrid, turnGrid, turnCorner]
    · have hp' := hinside p hp
      omega
    · omega
    · omega
    · omega
    · omega
  | ninety =>
    refine ⟨List.forall_mem_map.2 fun p hp => ?_, ⟨_, hmem ht, ?_⟩, ⟨_, hmem hl, ?_⟩,
      ⟨_, hmem hb, ?_⟩, ⟨_, hmem hr, ?_⟩⟩ <;>
      simp only [moveGrid, turnGrid, turnCorner]
    · have hp' := hinside p hp
      omega
    · omega
    · omega
    · omega
    · omega

/-- **Turned points anchored at the origin** fill the turned extents. -/
theorem framed_anchoring {points : List CanonicalGridPoint} (h : points ≠ [])
    (turn : IrregularQuarterTurnDegrees) :
    Framed ⟨0, 0⟩ (turnExtents turn (extents points))
      (points.map (moveGrid turn (anchoring turn points))) := by
  have hframed := (framed_corners h).move turn (anchoring turn points)
  cases turn <;>
    simpa only [moveGrid, turnGrid, turnCorner, anchoring, turnExtents, extents, add_neg_cancel,
      neg_add_cancel, sub_eq_add_neg, add_comm] using hframed

/-- A motion turns the extents. -/
theorem extents_move {points : List CanonicalGridPoint} (h : points ≠ [])
    (turn : IrregularQuarterTurnDegrees) (offset : CanonicalGridPoint) :
    extents (points.map (moveGrid turn offset)) = turnExtents turn (extents points) := by
  obtain ⟨hlower, hupper⟩ := ((framed_corners h).move turn offset).corners
  unfold extents
  rw [hlower, hupper]
  cases turn <;> simp [moveGrid, turnGrid, turnCorner, turnExtents, neg_add_eq_sub]

/-- A layout moved as a whole. -/
def moved (turn : IrregularQuarterTurnDegrees) (offset : CanonicalGridPoint)
    (paths : List CanonicalGridPath) : List CanonicalGridPath :=
  paths.map fun path => path.map (moveGrid turn offset)

theorem flatten_moved (turn : IrregularQuarterTurnDegrees) (offset : CanonicalGridPoint)
    (paths : List CanonicalGridPath) :
    (moved turn offset paths).flatten = paths.flatten.map (moveGrid turn offset) :=
  List.map_flatten.symm

theorem turned_eq_moved (turn : IrregularQuarterTurnDegrees) (paths : List CanonicalGridPath) :
    turned turn.quarterTurn paths = moved turn ⟨0, 0⟩ paths := by
  refine List.map_congr_left fun path _ => List.map_congr_left fun p _ => ?_
  rw [rotateGridPoint_quarterTurn]
  unfold moveGrid
  rw [add_zero, add_zero]

theorem translated_turned_eq (turn : IrregularQuarterTurnDegrees) (dx dy : ℤ)
    (paths : List CanonicalGridPath) :
    translated dx dy (turned turn.quarterTurn paths) = moved turn ⟨dx, dy⟩ paths := by
  unfold translated turned moved
  rw [List.map_map]
  refine List.map_congr_left fun path _ => ?_
  rw [Function.comp_apply, List.map_map]
  refine List.map_congr_left fun p _ => ?_
  rw [Function.comp_apply, rotateGridPoint_quarterTurn]
  rfl

theorem anchored_eq_translated (paths : List CanonicalGridPath) :
    anchored paths =
      translated (-(lowerLeft paths.flatten).x) (-(lowerLeft paths.flatten).y) paths := rfl

/-- **A turned layout is anchored by one motion.** -/
theorem anchored_turned_eq {paths : List CanonicalGridPath} (h : paths.flatten ≠ [])
    (turn : IrregularQuarterTurnDegrees) :
    anchored (turned turn.quarterTurn paths) = moved turn (anchoring turn paths.flatten) paths := by
  have hcorner := ((framed_corners h).move turn ⟨0, 0⟩).corners.1
  rw [← flatten_moved, ← turned_eq_moved] at hcorner
  rw [anchored_eq_translated, translated_turned_eq, hcorner]
  cases turn <;> simp [moveGrid, turnGrid, turnCorner, anchoring]

/-! ## §3  Overlaps -/

/-- A turn of the plane. -/
def turnPlane : IrregularQuarterTurnDegrees → (ℝ × ℝ) ≃ₗ[ℝ] (ℝ × ℝ)
  | .zero => LinearEquiv.refl ℝ (ℝ × ℝ)
  | .ninety =>
      { toFun := fun q => (-q.2, q.1)
        invFun := fun q => (q.2, -q.1)
        map_add' := fun q r => by simp [add_comm]
        map_smul' := fun c q => by simp
        left_inv := fun q => by simp
        right_inv := fun q => by simp }

theorem position_moveGrid (turn : IrregularQuarterTurnDegrees) (offset p : CanonicalGridPoint) :
    position (realPoint (moveGrid turn offset p)) =
      position (realPoint offset) + turnPlane turn (position (realPoint p)) := by
  cases turn with
  | zero =>
    unfold position realPoint moveGrid turnGrid turnPlane
    ext <;> simp [add_comm]
  | ninety =>
    unfold position realPoint moveGrid turnGrid turnPlane
    ext <;> simp [add_comm]

theorem mem_core_image {s : Set (ℝ × ℝ)} (e : (ℝ × ℝ) ≃ₗ[ℝ] (ℝ × ℝ)) {q : ℝ × ℝ} :
    e q ∈ core (e '' s) ↔ q ∈ core s := by
  constructor
  · intro h d
    obtain ⟨t, ht, r, hr, heq⟩ := h (e d)
    rw [← map_smul, ← map_add] at heq
    exact ⟨t, ht, e.injective heq ▸ hr⟩
  · intro h d
    obtain ⟨t, ht, hmem⟩ := h (e.symm d)
    refine ⟨t, ht, _, hmem, ?_⟩
    rw [map_add, map_smul, e.apply_symm_apply]

theorem mem_openInterior_move {turn : IrregularQuarterTurnDegrees} {offset : CanonicalGridPoint}
    {path : CanonicalGridPath} {q : ℝ × ℝ} :
    position (realPoint offset) + turnPlane turn q ∈
        openInterior (realPolygon (path.map (moveGrid turn offset))) ↔
      q ∈ openInterior (realPolygon path) := by
  have hvertices : vertexSet (realPolygon (path.map (moveGrid turn offset))) =
      position (realPoint offset) +ᵥ turnPlane turn '' vertexSet (realPolygon path) := by
    ext r
    simp only [vertexSet, realPolygon, List.map_map, List.mem_map, Function.comp_apply,
      Set.mem_vadd_set, vadd_eq_add, Set.mem_image]
    constructor
    · rintro ⟨_, ⟨p, hp, rfl⟩, rfl⟩
      exact ⟨_, ⟨_, ⟨_, ⟨p, hp, rfl⟩, rfl⟩, rfl⟩, (position_moveGrid turn offset p).symm⟩
    · rintro ⟨_, ⟨_, ⟨_, ⟨p, hp, rfl⟩, rfl⟩, rfl⟩, rfl⟩
      exact ⟨_, ⟨p, hp, rfl⟩, position_moveGrid turn offset p⟩
  have himage : convexHull ℝ (turnPlane turn '' vertexSet (realPolygon path)) =
      turnPlane turn '' convexHull ℝ (vertexSet (realPolygon path)) :=
    ((turnPlane turn).toLinearMap.image_convexHull _).symm
  rw [openInterior_eq_core, openInterior_eq_core, hvertices, convexHull_vadd, mem_core_vadd,
    add_sub_cancel_left, himage, mem_core_image]

/-- **A common rigid motion changes no overlap.** -/
theorem sharesGridArea_move {turn : IrregularQuarterTurnDegrees} {offset : CanonicalGridPoint}
    {first second : CanonicalGridPath} :
    sharesGridArea (first.map (moveGrid turn offset)) (second.map (moveGrid turn offset)) ↔
      sharesGridArea first second := by
  constructor
  · rintro ⟨q, hfirst, hsecond⟩
    have hq : q = position (realPoint offset) +
        turnPlane turn ((turnPlane turn).symm (q - position (realPoint offset))) := by
      rw [LinearEquiv.apply_symm_apply, add_sub_cancel]
    rw [hq, mem_openInterior_move] at hfirst hsecond
    exact ⟨_, hfirst, hsecond⟩
  · rintro ⟨q, hfirst, hsecond⟩
    exact ⟨_, mem_openInterior_move.2 hfirst, mem_openInterior_move.2 hsecond⟩

/-! ## §4  Legal layouts -/

/-- A strict ring of grid points. -/
def IsStrictPath (path : CanonicalGridPath) : Prop :=
  ∃ w, IsStrictRing (realPolygon path).points w

theorem cross_realPoint (o a b : CanonicalGridPoint) :
    cross (position (realPoint o)) (position (realPoint a)) (position (realPoint b)) =
      (gridCross o a b : ℝ) := by
  unfold cross position realPoint gridCross
  push_cast
  ring

theorem gridCross_moveGrid (turn : IrregularQuarterTurnDegrees)
    (offset o a b : CanonicalGridPoint) :
    gridCross (moveGrid turn offset o) (moveGrid turn offset a) (moveGrid turn offset b) =
      gridCross o a b := by
  cases turn <;> unfold gridCross moveGrid turnGrid <;> ring

theorem IsStrictPath.move {path : CanonicalGridPath} (h : IsStrictPath path)
    (turn : IrregularQuarterTurnDegrees) (offset : CanonicalGridPoint) :
    IsStrictPath (path.map (moveGrid turn offset)) := by
  obtain ⟨w, hw⟩ := h
  refine ⟨w, ?_⟩
  unfold realPolygon at hw ⊢
  rw [List.map_map]
  refine hw.map_congr fun o a b => orientationOf_congr ?_ ?_ <;>
    simp only [Function.comp_apply, cross_realPoint, gridCross_moveGrid]

/-- A verdict about two rings that is the same after a common motion. -/
def RigidVerdict (overlaps : CanonicalGridPath → CanonicalGridPath → Prop) : Prop :=
  ∀ turn offset first second, IsStrictPath first → IsStrictPath second →
    (overlaps (first.map (moveGrid turn offset)) (second.map (moveGrid turn offset)) ↔
      overlaps first second)

theorem rigidVerdict_sharesGridArea : RigidVerdict sharesGridArea :=
  fun _ _ _ _ _ _ => sharesGridArea_move

/-- No two paths overlap; a later path is asked about the earlier ones. -/
def Apart (overlaps : CanonicalGridPath → CanonicalGridPath → Prop)
    (paths : List CanonicalGridPath) : Prop :=
  paths.Pairwise fun first second => ¬overlaps second first

/-- The paths lie in the sheet and no two overlap. -/
def LegalPaths (overlaps : CanonicalGridPath → CanonicalGridPath → Prop) (width height : ℤ)
    (paths : List CanonicalGridPath) : Prop :=
  (∀ path ∈ paths, InBox width height path) ∧ Apart overlaps paths

variable {overlaps : CanonicalGridPath → CanonicalGridPath → Prop}
  {paths : List CanonicalGridPath}

theorem apart_move (hrigid : RigidVerdict overlaps) (hrings : ∀ path ∈ paths, IsStrictPath path)
    (turn : IrregularQuarterTurnDegrees) (offset : CanonicalGridPoint) :
    Apart overlaps (moved turn offset paths) ↔ Apart overlaps paths := by
  unfold Apart moved
  rw [List.pairwise_map]
  exact List.Pairwise.iff_of_mem fun hfirst hsecond =>
    not_congr (hrigid turn offset _ _ (hrings _ hsecond) (hrings _ hfirst))

/-- **Only the extents matter to a sheet.** -/
theorem legalPaths_anchored_iff (hrigid : RigidVerdict overlaps)
    (hrings : ∀ path ∈ paths, IsStrictPath path) (hne : paths.flatten ≠ [])
    (turn : IrregularQuarterTurnDegrees) {width height : ℤ} :
    LegalPaths overlaps width height (anchored (turned turn.quarterTurn paths)) ↔
      ((turnExtents turn (extents paths.flatten)).x ≤ width ∧
        (turnExtents turn (extents paths.flatten)).y ≤ height) ∧ Apart overlaps paths := by
  rw [anchored_turned_eq hne]
  refine and_congr ?_ (apart_move hrigid hrings turn _)
  rw [← (framed_anchoring hne turn).inBox_iff, ← flatten_moved]
  unfold InBox
  simp only [List.mem_flatten]
  exact ⟨fun hall p ⟨path, hpath, hp⟩ => hall path hpath p hp,
    fun hall path hpath p hp => hall p ⟨path, hpath, hp⟩⟩

end PolygonNesting
