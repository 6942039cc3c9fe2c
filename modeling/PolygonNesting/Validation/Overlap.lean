import PolygonNesting.Geometry.OpenInterior
import PolygonNesting.Validation.Placement
import Mathlib.Order.CompletePartialOrder

/-!
# What the overlap test decides

The seven stages against the open interiors of the two rings, in exact
arithmetic.  Every stage that answers yes is right.  The answer no is wrong
for one kind of input: the interiors meet, but the outlines cross only at
vertices, so that no vertex is strictly inside the other ring and no two edges
share an inner point, and neither vertex average is inside the other ring.
-/

namespace PolygonNesting

open Plane

variable {K : Type} [Field K] [LinearOrder K] [IsStrictOrderedRing K] [FloorRing K]

/-! ## §1  Purpose -/

/-- The equal-weight average of the vertices. -/
def vertexAverage (polygon : IrregularPolygon K) : K × K :=
  ((polygon.points.map fun p => p.x).sum / polygon.points.length,
    (polygon.points.map fun p => p.y).sum / polygon.points.length)

/-- An edge of the first polygon runs through the interior of the second. -/
def edgeRunsThrough (first second : IrregularPolygon K) : Prop :=
  ∃ e ∈ polygonEdges first,
    (segment K (position e.start) (position e.finish) ∩ openInterior second).Nonempty

/-- **The inputs between the stages.** An edge of one polygon runs through the
other, but the outlines meet at vertices only: no vertex is inside the other
polygon, no two edges share an inner point, and neither average is inside. -/
structure SlipsBetweenStages (first second : IrregularPolygon K) : Prop where
  runsThrough : edgeRunsThrough first second ∨ edgeRunsThrough second first
  noVertexInside : (∀ p ∈ first.points, position p ∉ openInterior second) ∧
    ∀ p ∈ second.points, position p ∉ openInterior first
  noSharedEdgePoint : ∀ e ∈ polygonEdges first, ∀ f ∈ polygonEdges second,
    Disjoint (openSegment K (position e.start) (position e.finish))
      (openSegment K (position f.start) (position f.finish))
  noAverageInside : vertexAverage first ∉ openInterior second ∧
    vertexAverage second ∉ openInterior first

/-! ## §2  Checked polygons -/

/-- What the constructors of a validated polygon guarantee. -/
structure Checked (v : ValidatedPolygonWithBounds K) : Prop where
  accepted : Accepted v.polygon.points v.winding
  bounded : ∀ p ∈ v.polygon.points, v.bounds.minX ≤ p.x ∧ p.x ≤ v.bounds.maxX ∧
    v.bounds.minY ≤ p.y ∧ p.y ≤ v.bounds.maxY

omit [Field K] [IsStrictOrderedRing K] [FloorRing K] in
theorem foldl_extendBounds_le : ∀ (points : List (IrregularPoint K))
    (b : IrregularBounds K),
    (points.foldl extendBounds b).minX ≤ b.minX ∧
      b.maxX ≤ (points.foldl extendBounds b).maxX ∧
      (points.foldl extendBounds b).minY ≤ b.minY ∧
      b.maxY ≤ (points.foldl extendBounds b).maxY ∧
      ∀ p ∈ points, (points.foldl extendBounds b).minX ≤ p.x ∧
        p.x ≤ (points.foldl extendBounds b).maxX ∧
        (points.foldl extendBounds b).minY ≤ p.y ∧
        p.y ≤ (points.foldl extendBounds b).maxY
  | [], b => by simp
  | q :: points, b => by
      obtain ⟨h1, h2, h3, h4, h5⟩ :=
        foldl_extendBounds_le points (extendBounds b q)
      rw [List.foldl_cons]
      refine ⟨h1.trans (min_le_left _ _), (le_max_left _ _).trans h2,
        h3.trans (min_le_left _ _), (le_max_left _ _).trans h4, fun p hp => ?_⟩
      rcases List.mem_cons.mp hp with rfl | hp
      · exact ⟨h1.trans (min_le_right _ _), (le_max_right _ _).trans h2,
          h3.trans (min_le_right _ _), (le_max_right _ _).trans h4⟩
      · exact h5 p hp

omit [IsStrictOrderedRing K] in
theorem translatePolygonWithBounds_eq_some {polygon : IrregularPolygon K}
    {translation : IrregularPoint K} {translated : IrregularPolygonWithBounds K}
    (h : translatePolygonWithBounds polygon translation = some translated) :
    translated.polygon.points = polygon.points.map (translatePoint translation) ∧
      ∀ p ∈ translated.polygon.points, translated.bounds.minX ≤ p.x ∧
        p.x ≤ translated.bounds.maxX ∧ translated.bounds.minY ≤ p.y ∧
        p.y ≤ translated.bounds.maxY := by
  unfold translatePolygonWithBounds at h
  split at h
  · simp at h
  · next first rest hpoints =>
    split at h
    · simp only [Option.bind_eq_bind, Option.bind_eq_some_iff,
        Option.some.injEq] at h
      obtain ⟨bounds, hb, rfl⟩ := h
      unfold makeBounds at hb
      split at hb
      · simp at hb
      · obtain rfl := Option.some.inj hb
        refine ⟨hpoints.symm, fun p hp => ?_⟩
        obtain ⟨h1, h2, h3, h4, h5⟩ := foldl_extendBounds_le rest
          ⟨first.x, first.y, first.x, first.y⟩
        rcases List.mem_cons.mp hp with rfl | hp
        · exact ⟨h1, h2, h3, h4⟩
        · exact h5 p hp
    · simp at h

/-- **A polygon the engine translated and validated is checked**, and is the
translate. -/
theorem checked_of_translateAndValidatePolygon {polygon : IrregularPolygon K}
    {translation : IrregularPoint K} {label : String}
    {v : ValidatedPolygonWithBounds K}
    (h : translateAndValidatePolygon polygon translation label = .ok v) :
    Checked v ∧ v.polygon.points =
      polygon.points.map (translatePoint translation) := by
  unfold translateAndValidatePolygon at h
  split at h
  · simp at h
  · next translated htr =>
    split at h
    · simp at h
    · next winding hvalid =>
      obtain rfl := Except.ok.inj h
      obtain ⟨hpoints, hbounded⟩ := translatePolygonWithBounds_eq_some htr
      exact ⟨⟨accepted_of_validateStrictBoundary hvalid, hbounded⟩, hpoints⟩

namespace Checked

variable {v first second : ValidatedPolygonWithBounds K}

/-- The ring of a checked polygon. -/
def ring (h : Checked v) : ConvexRing K := h.accepted.ring

theorem openInterior_eq (h : Checked v) :
    openInterior v.polygon = {q | h.ring.Inner q} := h.accepted.openInterior_eq

theorem mem_openInterior (h : Checked v) {q : K × K} :
    q ∈ openInterior v.polygon ↔ h.ring.Inner q := by
  rw [h.openInterior_eq]
  rfl

omit [IsStrictOrderedRing K] in
theorem mem_polygonEdges (h : Checked v) {e : BoundaryEdge K} :
    e ∈ polygonEdges v.polygon ↔ ∃ k, edgeAt v.polygon.points k = e := by
  constructor
  · intro he
    obtain ⟨k, -, hk⟩ := mem_boundaryEdges.mp he
    exact ⟨k, hk⟩
  · rintro ⟨k, rfl⟩
    exact edgeAt_mem_boundaryEdges h.accepted.length_pos k

theorem orientationOf_edge (h : Checked v) (k : ℕ) (q : IrregularPoint K) :
    orientationOf (edgeAt v.polygon.points k).start
        (edgeAt v.polygon.points k).finish q = v.winding ↔
      0 < h.ring.height k (position q) :=
  orientationOf_eq_iff h.accepted.winding

theorem sharesPositiveArea_iff (h1 : Checked first) (h2 : Checked second) :
    sharesPositiveArea first.polygon second.polygon ↔
      ∃ q, h1.ring.Inner q ∧ h2.ring.Inner q := by
  unfold sharesPositiveArea
  rw [h1.openInterior_eq, h2.openInterior_eq]
  rfl

theorem edgeRunsThrough_iff (h1 : Checked first) (h2 : Checked second) :
    edgeRunsThrough first.polygon second.polygon ↔
      ∃ q, h1.ring.Outline q ∧ h2.ring.Inner q := by
  unfold edgeRunsThrough
  rw [h2.openInterior_eq]
  constructor
  · rintro ⟨e, he, q, hq, hin⟩
    obtain ⟨k, rfl⟩ := h1.mem_polygonEdges.mp he
    rw [segment_eq_image_lineMap] at hq
    obtain ⟨t, ⟨h0, h1'⟩, rfl⟩ := hq
    exact ⟨_, ⟨k, t, h0, h1', rfl⟩, hin⟩
  · rintro ⟨q, ⟨k, t, h0, h1', rfl⟩, hin⟩
    refine ⟨_, h1.mem_polygonEdges.mpr ⟨k, rfl⟩, _, ?_, hin⟩
    rw [segment_eq_image_lineMap]
    exact ⟨t, ⟨h0, h1'⟩, rfl⟩

/-! ## §3  Stages one to five -/

/-- Stage 1: disjoint bounds keep the interiors apart. -/
theorem not_sharesPositiveArea_of_disjoint (h1 : Checked first)
    (h2 : Checked second) (h : areDisjoint first.bounds second.bounds = true) :
    ¬sharesPositiveArea first.polygon second.polygon := by
  rw [sharesPositiveArea_iff h1 h2]
  rintro ⟨q, hq1, hq2⟩
  have hbox : ∀ {v : ValidatedPolygonWithBounds K} (hv : Checked v),
      hv.ring.Inner q → v.bounds.minX ≤ q.1 ∧ q.1 ≤ v.bounds.maxX ∧
        v.bounds.minY ≤ q.2 ∧ q.2 ≤ v.bounds.maxY := by
    intro v hv hq
    have hb := fun k => hv.bounded _ (vertexAt_mem hv.accepted.length_pos k)
    have h1 := hq.le_furthest (α := -1) (β := 0) (c := -v.bounds.minX) fun k => by
      show -1 * (vertexAt v.polygon.points k).x + 0 * _ ≤ _
      linarith [(hb k).1]
    have h2 := hq.le_furthest (α := 1) (β := 0) (c := v.bounds.maxX) fun k => by
      show 1 * (vertexAt v.polygon.points k).x + 0 * _ ≤ _
      linarith [(hb k).2.1]
    have h3 := hq.le_furthest (α := 0) (β := -1) (c := -v.bounds.minY) fun k => by
      show 0 * _ + -1 * (vertexAt v.polygon.points k).y ≤ _
      linarith [(hb k).2.2.1]
    have h4 := hq.le_furthest (α := 0) (β := 1) (c := v.bounds.maxY) fun k => by
      show 0 * _ + 1 * (vertexAt v.polygon.points k).y ≤ _
      linarith [(hb k).2.2.2]
    exact ⟨by linarith, by linarith, by linarith, by linarith⟩
  have hb1 := hbox h1 hq1
  have hb2 := hbox h2 hq2
  simp only [areDisjoint, Bool.or_eq_true, decide_eq_true_eq] at h
  rcases h with ((h | h) | h) | h <;> linarith

/-- Strictly inside is in the open interior. -/
theorem isStrictlyInside_iff (h : Checked v) {q : IrregularPoint K} :
    isStrictlyInside q v.polygon v.winding = true ↔
      position q ∈ openInterior v.polygon := by
  have hne : v.winding ≠ 0 := by
    rcases h.accepted.winding with hw | hw <;> rw [hw] <;> decide
  have hedge : ∀ e : BoundaryEdge K,
      (!(orientationOf e.start e.finish q == 0 ||
        orientationOf e.start e.finish q != v.winding)) = true ↔
      orientationOf e.start e.finish q = v.winding := by
    intro e
    simp only [Bool.not_eq_true', Bool.or_eq_false_iff, beq_eq_false_iff_ne,
      bne_eq_false_iff_eq]
    exact ⟨fun hx => hx.2, fun hx => ⟨hx ▸ hne, hx⟩⟩
  rw [h.mem_openInterior, isStrictlyInside, List.all_eq_true]
  constructor
  · intro hall k
    exact (h.orientationOf_edge k q).mp
      ((hedge _).mp (hall _ (h.mem_polygonEdges.mpr ⟨k, rfl⟩)))
  · intro hin e he
    obtain ⟨k, rfl⟩ := h.mem_polygonEdges.mp he
    exact (hedge _).mpr ((h.orientationOf_edge k q).mpr (hin k))

omit [LinearOrder K] [IsStrictOrderedRing K] in
theorem points_eq_map (points : List (IrregularPoint K)) :
    points = (List.range points.length).map (vertexAt points) := by
  refine List.ext_getElem (by simp) fun k hk hk' => ?_
  rw [List.getElem_map, List.getElem_range, vertexAt_of_lt hk]

omit [LinearOrder K] [IsStrictOrderedRing K] [FloorRing K] in
theorem sum_map_range (f : ℕ → K) (n : ℕ) :
    ((List.range n).map f).sum = ∑ k ∈ Finset.range n, f k := by
  induction n with
  | zero => rfl
  | succ n ih =>
      rw [List.range_succ, List.map_append, List.sum_append, ih,
        Finset.sum_range_succ, List.map_singleton, List.sum_singleton]

theorem vertexAverage_eq_centre (h : Checked v) :
    vertexAverage v.polygon = h.ring.centre := by
  have hsum : ∀ f : IrregularPoint K → K, (v.polygon.points.map f).sum =
      ∑ k ∈ Finset.range v.polygon.points.length,
        f (vertexAt v.polygon.points k) := by
    intro f
    conv_lhs => rw [points_eq_map v.polygon.points, List.map_map]
    exact sum_map_range _ _
  unfold vertexAverage
  rw [hsum, hsum]
  rfl

omit [IsStrictOrderedRing K] in
/-- The interior point the source computes is the vertex average. -/
theorem strictConvexInteriorPoint_eq (polygon : IrregularPolygon K) :
    ∃ c, strictConvexInteriorPoint polygon = .ok c ∧
      position c = vertexAverage polygon := by
  have hfold : ∀ (points : List (IrregularPoint K)) (w : K) (s : IrregularPoint K),
      points.foldlM (accumulateInteriorPoint w) s =
        .ok ⟨s.x + (points.map fun p => p.x).sum * w,
          s.y + (points.map fun p => p.y).sum * w⟩ := by
    intro points w
    induction points with
    | nil => intro s; simp; rfl
    | cons p points ih =>
        intro s
        have hstep : accumulateInteriorPoint w s p =
            .ok ⟨s.x + p.x * w, s.y + p.y * w⟩ := rfl
        rw [List.foldlM_cons, hstep]
        show points.foldlM (accumulateInteriorPoint w) _ = _
        rw [ih]
        simp only [List.map_cons, List.sum_cons, add_mul, add_assoc]
  refine ⟨⟨(polygon.points.map fun p => p.x).sum * (1 / polygon.points.length),
    (polygon.points.map fun p => p.y).sum * (1 / polygon.points.length)⟩, ?_, ?_⟩
  · show polygon.points.foldlM (accumulateInteriorPoint (1 /
      (polygon.points.length : K))) ⟨0, 0⟩ = _
    rw [hfold]
    simp only [zero_add]
  · simp only [position, vertexAverage, mul_one_div]

/-! ## §4  Edges that share an inner point -/

/-- Two edges share an inner point. -/
def EdgesShare (R S : ConvexRing K) (i j : ℕ) : Prop :=
  ∃ t u : K, 0 < t ∧ t < 1 ∧ 0 < u ∧ u < 1 ∧
    AffineMap.lineMap (R.vertex i) (R.vertex (i + 1)) t =
      AffineMap.lineMap (S.vertex j) (S.vertex (j + 1)) u

theorem disjoint_openSegment_iff (h1 : Checked first) (h2 : Checked second) :
    (∀ e ∈ polygonEdges first.polygon, ∀ f ∈ polygonEdges second.polygon,
      Disjoint (openSegment K (position e.start) (position e.finish))
        (openSegment K (position f.start) (position f.finish))) ↔
      ∀ i j, ¬EdgesShare h1.ring h2.ring i j := by
  constructor
  · rintro h i j ⟨t, u, ht0, ht1, hu0, hu1, heq⟩
    have hd := Set.disjoint_left.mp (h _ (h1.mem_polygonEdges.mpr ⟨i, rfl⟩) _
      (h2.mem_polygonEdges.mpr ⟨j, rfl⟩))
    rw [openSegment_eq_image_lineMap, openSegment_eq_image_lineMap] at hd
    exact hd ⟨t, ⟨ht0, ht1⟩, rfl⟩ ⟨u, ⟨hu0, hu1⟩, heq.symm⟩
  · intro h e he f hf
    obtain ⟨i, rfl⟩ := h1.mem_polygonEdges.mp he
    obtain ⟨j, rfl⟩ := h2.mem_polygonEdges.mp hf
    rw [Set.disjoint_left]
    intro q hq hq'
    rw [openSegment_eq_image_lineMap] at hq hq'
    obtain ⟨t, ⟨ht0, ht1⟩, rfl⟩ := hq
    obtain ⟨u, ⟨hu0, hu1⟩, heq⟩ := hq'
    exact h i j ⟨t, u, ht0, ht1, hu0, hu1, heq.symm⟩

omit [FloorRing K] in
/-- **A shared inner point is a proper crossing or a collinear overlap.** -/
theorem EdgesShare.crossing_or_collinear {R S : ConvexRing K} {i j : ℕ}
    (h : EdgesShare R S i j) :
    (((cross (R.vertex i) (R.vertex (i + 1)) (S.vertex j) < 0 ∧
          0 < cross (R.vertex i) (R.vertex (i + 1)) (S.vertex (j + 1))) ∨
        (0 < cross (R.vertex i) (R.vertex (i + 1)) (S.vertex j) ∧
          cross (R.vertex i) (R.vertex (i + 1)) (S.vertex (j + 1)) < 0)) ∧
      ((cross (S.vertex j) (S.vertex (j + 1)) (R.vertex i) < 0 ∧
          0 < cross (S.vertex j) (S.vertex (j + 1)) (R.vertex (i + 1))) ∨
        (0 < cross (S.vertex j) (S.vertex (j + 1)) (R.vertex i) ∧
          cross (S.vertex j) (S.vertex (j + 1)) (R.vertex (i + 1)) < 0))) ∨
      (cross (R.vertex i) (R.vertex (i + 1)) (S.vertex j) = 0 ∧
        cross (R.vertex i) (R.vertex (i + 1)) (S.vertex (j + 1)) = 0) := by
  obtain ⟨t, u, ht0, ht1, hu0, hu1, heq⟩ := h
  have h1 : (1 - u) * cross (R.vertex i) (R.vertex (i + 1)) (S.vertex j) +
      u * cross (R.vertex i) (R.vertex (i + 1)) (S.vertex (j + 1)) = 0 := by
    rw [← cross_lineMap, ← heq, cross_lineMap]
    simp
  have h2 : (1 - t) * cross (S.vertex j) (S.vertex (j + 1)) (R.vertex i) +
      t * cross (S.vertex j) (S.vertex (j + 1)) (R.vertex (i + 1)) = 0 := by
    rw [← cross_lineMap, heq, cross_lineMap]
    simp
  rcases mix_eq_zero hu0.le hu1.le h1 with hz | ⟨-, hz⟩ | ⟨-, hz⟩ | hopp
  · exact .inr hz
  · exact absurd hz hu0.ne'
  · exact absurd hz hu1.ne
  · rcases mix_eq_zero ht0.le ht1.le h2 with ⟨ha, hb⟩ | ⟨-, hz⟩ | ⟨-, hz⟩ | hopp'
    · exfalso
      have hsum : cross (R.vertex i) (R.vertex (i + 1)) (S.vertex j) -
          cross (R.vertex i) (R.vertex (i + 1)) (S.vertex (j + 1)) =
          cross (S.vertex j) (S.vertex (j + 1)) (R.vertex (i + 1)) -
          cross (S.vertex j) (S.vertex (j + 1)) (R.vertex i) := by
        unfold cross
        ring
      rw [ha, hb] at hsum
      rcases hopp with ⟨h3, h4⟩ | ⟨h3, h4⟩ <;> linarith
    · exact absurd hz ht0.ne'
    · exact absurd hz ht1.ne
    · exact .inl ⟨hopp, hopp'⟩

/-- Stage 4, one pair of edges. -/
theorem edgesCrossProperly_iff {e f : BoundaryEdge K} :
    edgesCrossProperly e f = true ↔
      ((cross (position e.start) (position e.finish) (position f.start) < 0 ∧
          0 < cross (position e.start) (position e.finish) (position f.finish)) ∨
        (0 < cross (position e.start) (position e.finish) (position f.start) ∧
          cross (position e.start) (position e.finish) (position f.finish) < 0)) ∧
      ((cross (position f.start) (position f.finish) (position e.start) < 0 ∧
          0 < cross (position f.start) (position f.finish) (position e.finish)) ∨
        (0 < cross (position f.start) (position f.finish) (position e.start) ∧
          cross (position f.start) (position f.finish) (position e.finish) < 0)) := by
  have hpair : ∀ o f a b : IrregularPoint K,
      (orientationOf o f a ≠ 0 ∧ orientationOf o f b ≠ 0 ∧
        orientationOf o f a ≠ orientationOf o f b) ↔
      ((cross (position o) (position f) (position a) < 0 ∧
          0 < cross (position o) (position f) (position b)) ∨
        (0 < cross (position o) (position f) (position a) ∧
          cross (position o) (position f) (position b) < 0)) := by
    intro o f a b
    rw [orientationOf_eq, orientationOf_eq]
    split <;> split <;> grind
  rw [← hpair, ← hpair]
  simp only [edgesCrossProperly, Bool.and_eq_true, Bool.not_eq_true',
    Bool.or_eq_false_iff, beq_eq_false_iff_ne, bne_iff_ne]
  tauto

omit [IsStrictOrderedRing K] in
theorem boundariesHaveProperCrossing_iff (h1 : Checked first)
    (h2 : Checked second) :
    boundariesHaveProperCrossing first.polygon second.polygon = true ↔
      ∃ i j, edgesCrossProperly (edgeAt first.polygon.points i)
        (edgeAt second.polygon.points j) = true := by
  simp only [boundariesHaveProperCrossing, List.any_eq_true]
  constructor
  · rintro ⟨e, he, f, hf, h⟩
    obtain ⟨i, rfl⟩ := h1.mem_polygonEdges.mp he
    obtain ⟨j, rfl⟩ := h2.mem_polygonEdges.mp hf
    exact ⟨i, j, h⟩
  · rintro ⟨i, j, h⟩
    exact ⟨_, h1.mem_polygonEdges.mpr ⟨i, rfl⟩, _,
      h2.mem_polygonEdges.mpr ⟨j, rfl⟩, h⟩

/-- Stage 4 answers yes only where the interiors meet, and then edges share an
inner point. -/
theorem of_properCrossing (h1 : Checked first) (h2 : Checked second)
    (h : boundariesHaveProperCrossing first.polygon second.polygon = true) :
    (∃ q, h1.ring.Inner q ∧ h2.ring.Inner q) ∧
      ∃ i j, EdgesShare h1.ring h2.ring i j := by
  obtain ⟨i, j, hij⟩ := (boundariesHaveProperCrossing_iff h1 h2).mp h
  obtain ⟨hopp, hopp'⟩ := edgesCrossProperly_iff.mp hij
  obtain ⟨t, u, ht0, ht1, hu0, hu1, heq⟩ := exists_crossing hopp hopp'
  refine ⟨ConvexRing.meets_of_crossing (i := i) (j := j) ht0 ht1 hu0.le hu1.le heq ?_,
    i, j, t, u, ht0, ht1, hu0, hu1, heq⟩
  -- one end of the second edge is on the inner side of the first
  have hside : (first.winding : K) = 1 ∨ (first.winding : K) = -1 := by
    rcases h1.accepted.winding with hw | hw <;> simp [hw]
  show 0 < (first.winding : K) * cross _ _ _ ∨ 0 < (first.winding : K) * cross _ _ _
  rcases hside with hw | hw <;> rw [hw] <;> rcases hopp with ⟨ha, hb⟩ | ⟨ha, hb⟩
  · exact .inr (by rw [one_mul]; exact hb)
  · exact .inl (by rw [one_mul]; exact ha)
  · exact .inl (by rw [neg_one_mul]; exact neg_pos.mpr ha)
  · exact .inr (by rw [neg_one_mul]; exact neg_pos.mpr hb)

/-! ## §5  Edges that overlap on one line -/

omit [FloorRing K] in
/-- On a line, ranges overlap where some point is inside both. -/
theorem ranges_overlap_iff {a b u v : K} (hab : a ≠ b) (huv : u ≠ v) :
    max (min a b) (min (a + u * (b - a)) (a + v * (b - a))) <
        min (max a b) (max (a + u * (b - a)) (a + v * (b - a))) ↔
      ∃ t s : K, 0 < t ∧ t < 1 ∧ 0 < s ∧ s < 1 ∧ t = u + s * (v - u) := by
  have hd : b - a ≠ 0 := sub_ne_zero.mpr hab.symm
  constructor
  · intro h
    obtain ⟨m, hlow, hhigh⟩ := exists_between h
    rw [max_lt_iff] at hlow
    rw [lt_min_iff] at hhigh
    obtain ⟨t, ht0, ht1, ht⟩ := exists_between_param hlow.1 hhigh.1
    obtain ⟨s, hs0, hs1, hs⟩ := exists_between_param hlow.2 hhigh.2
    refine ⟨t, s, ht0, ht1, hs0, hs1, mul_right_cancel₀ hd ?_⟩
    linarith
  · rintro ⟨t, s, ht0, ht1, hs0, hs1, hts⟩
    have h1 := between_of_param hab ht0 ht1
    have hne : a + u * (b - a) ≠ a + v * (b - a) := fun h =>
      huv (mul_right_cancel₀ hd (add_left_cancel h))
    have h2 := between_of_param hne hs0 hs1
    have hm : a + u * (b - a) + s * (a + v * (b - a) - (a + u * (b - a))) =
        a + t * (b - a) := by
      rw [hts]
      ring
    rw [hm] at h2
    exact (max_lt h1.1 h2.1).trans (lt_min h1.2 h2.2)

omit [FloorRing K] in
theorem segmentsHavePositiveLengthOverlap_iff {e f : BoundaryEdge K} {u v : K}
    (hne : position e.start ≠ position e.finish) (huv : u ≠ v)
    (hu : AffineMap.lineMap (position e.start) (position e.finish) u =
      position f.start)
    (hv : AffineMap.lineMap (position e.start) (position e.finish) v =
      position f.finish) :
    segmentsHavePositiveLengthOverlap e f = true ↔
      ∃ t s : K, 0 < t ∧ t < 1 ∧ 0 < s ∧ s < 1 ∧ t = u + s * (v - u) := by
  have hfx := congrArg Prod.fst hu
  have hfy := congrArg Prod.snd hu
  have hgx := congrArg Prod.fst hv
  have hgy := congrArg Prod.snd hv
  rw [lineMap_fst] at hfx hgx
  rw [lineMap_snd] at hfy hgy
  simp only [position] at hfx hfy hgx hgy
  unfold segmentsHavePositiveLengthOverlap
  by_cases hx : absolute (e.finish.y - e.start.y) ≤
      absolute (e.finish.x - e.start.x)
  · have hd : e.start.x ≠ e.finish.x := by
      intro h
      refine hne (Prod.ext h ?_)
      have habs : |e.finish.y - e.start.y| ≤ |e.finish.x - e.start.x| := hx
      rw [h, sub_self, abs_zero, abs_nonpos_iff, sub_eq_zero] at habs
      exact habs.symm
    simp only [hx, decide_true, if_true, ← hfx, ← hgx, decide_eq_true_eq]
    exact ranges_overlap_iff hd huv
  · have hd : e.start.y ≠ e.finish.y := by
      intro h
      refine hx ?_
      show |e.finish.y - e.start.y| ≤ |e.finish.x - e.start.x|
      rw [h, sub_self, abs_zero]
      exact abs_nonneg _
    simp only [hx, decide_false, ← hfy, ← hgy, decide_eq_true_eq]
    exact ranges_overlap_iff hd huv

/-- The two edges are on one line. -/
def EdgesCollinear (R S : ConvexRing K) (i j : ℕ) : Prop :=
  cross (R.vertex i) (R.vertex (i + 1)) (S.vertex j) = 0 ∧
    cross (R.vertex i) (R.vertex (i + 1)) (S.vertex (j + 1)) = 0

omit [FloorRing K] [IsStrictOrderedRing K] in
/-- Heights over collinear edges are proportional. -/
theorem EdgesCollinear.exists_params {R S : ConvexRing K} {i j : ℕ}
    (h : EdgesCollinear R S i j) :
    ∃ u v : K, u ≠ v ∧
      AffineMap.lineMap (R.vertex i) (R.vertex (i + 1)) u = S.vertex j ∧
      AffineMap.lineMap (R.vertex i) (R.vertex (i + 1)) v = S.vertex (j + 1) ∧
      ∀ q, cross (S.vertex j) (S.vertex (j + 1)) q =
        (v - u) * cross (R.vertex i) (R.vertex (i + 1)) q := by
  obtain ⟨u, hu⟩ := exists_lineMap_of_cross_eq_zero (ConvexRing.vertex_ne i) h.1
  obtain ⟨v, hv⟩ := exists_lineMap_of_cross_eq_zero (ConvexRing.vertex_ne i) h.2
  refine ⟨u, v, ?_, hu, hv, fun q => ?_⟩
  · rintro rfl
    exact ConvexRing.vertex_ne j (hu.symm.trans hv)
  · rw [← hu, ← hv, cross_lineMap_lineMap]

/-- Stage 6, one pair of edges. -/
theorem edgesOverlapCollinearly_iff (h1 : Checked first) (h2 : Checked second)
    (i j : ℕ) :
    edgesOverlapCollinearly (edgeAt first.polygon.points i)
        (edgeAt second.polygon.points j) = true ↔
      EdgesCollinear h1.ring h2.ring i j ∧ EdgesShare h1.ring h2.ring i j := by
  have hne : position (edgeAt first.polygon.points i).start ≠
      position (edgeAt first.polygon.points i).finish :=
    ConvexRing.vertex_ne (R := h1.ring) i
  have hcol : (!(orientationOf (edgeAt first.polygon.points i).start
        (edgeAt first.polygon.points i).finish
        (edgeAt second.polygon.points j).start != 0 ||
      orientationOf (edgeAt first.polygon.points i).start
        (edgeAt first.polygon.points i).finish
        (edgeAt second.polygon.points j).finish != 0)) = true ↔
      EdgesCollinear h1.ring h2.ring i j := by
    simp only [Bool.not_eq_true', Bool.or_eq_false_iff, bne_eq_false_iff_eq,
      orientationOf_eq_zero_iff]
    rfl
  unfold edgesOverlapCollinearly
  rw [Bool.and_eq_true, hcol]
  refine and_congr_right fun hc => ?_
  obtain ⟨u, v, huv, hu, hv, -⟩ := hc.exists_params
  rw [segmentsHavePositiveLengthOverlap_iff (e := edgeAt first.polygon.points i)
    (f := edgeAt second.polygon.points j) hne huv hu hv]
  -- a common parameter is a common point
  have hpoint : ∀ s : K, AffineMap.lineMap (h2.ring.vertex j)
      (h2.ring.vertex (j + 1)) s =
      AffineMap.lineMap (h1.ring.vertex i) (h1.ring.vertex (i + 1))
        (u + s * (v - u)) := by
    intro s
    rw [← hu, ← hv]
    refine Prod.ext ?_ ?_ <;> simp only [lineMap_fst, lineMap_snd] <;> ring
  constructor
  · rintro ⟨t, s, ht0, ht1, hs0, hs1, rfl⟩
    exact ⟨_, s, ht0, ht1, hs0, hs1, (hpoint s).symm⟩
  · rintro ⟨t, s, ht0, ht1, hs0, hs1, heq⟩
    rw [hpoint] at heq
    exact ⟨t, s, ht0, ht1, hs0, hs1,
      AffineMap.lineMap_injective K (ConvexRing.vertex_ne i) heq⟩

omit [IsStrictOrderedRing K] in
/-- The loop over the pairs answers, when every overlapping pair has a vertex
off its line. -/
theorem collinearOverlapFrom_eq (polygon : IrregularPolygon K)
    (w : ConvexPolygonWinding) :
    ∀ pairs : List (BoundaryEdge K × BoundaryEdge K),
      (∀ pair ∈ pairs, edgesOverlapCollinearly pair.1 pair.2 = true →
        ∃ p ∈ polygon.points, orientationOf pair.1.start pair.1.finish p ≠ 0) →
      ∃ b, collinearOverlapFrom polygon w pairs = .ok b ∧
        (b = true ↔ ∃ pair ∈ pairs, edgesOverlapCollinearly pair.1 pair.2 = true ∧
          ∃ p ∈ polygon.points, orientationOf pair.1.start pair.1.finish p ≠ 0 ∧
            polygon.points.find? (fun point =>
              orientationOf pair.1.start pair.1.finish point != 0) = some p ∧
            orientationOf pair.1.start pair.1.finish p = w)
  | [], _ => ⟨false, rfl, by simp⟩
  | (e, f) :: pairs, hoff => by
      obtain ⟨b, hb, hiff⟩ := collinearOverlapFrom_eq polygon w pairs
        fun pair hp => hoff pair (List.mem_cons_of_mem _ hp)
      unfold collinearOverlapFrom
      cases hov : edgesOverlapCollinearly e f with
      | false =>
          refine ⟨b, by simpa using hb, ?_⟩
          rw [hiff]
          simp [hov]
      | true =>
          obtain ⟨p, hp, hne⟩ := hoff (e, f) List.mem_cons_self hov
          cases hfind : polygon.points.find? (fun point =>
              orientationOf e.start e.finish point != 0) with
          | none =>
              have := List.find?_eq_none.mp hfind p hp
              simp only [bne_iff_ne, ne_eq, not_not] at this
              exact absurd this hne
          | some q =>
              have hq : q ∈ polygon.points := List.mem_of_find?_eq_some hfind
              have hqne : orientationOf e.start e.finish q ≠ 0 := by
                simpa using List.find?_some hfind
              by_cases hside : orientationOf e.start e.finish q = w
              · refine ⟨true, by simp [hside], ?_⟩
                simp only [true_iff]
                exact ⟨(e, f), List.mem_cons_self, hov, q, hq, hqne, hfind, hside⟩
              · refine ⟨b, by simpa [hside] using hb, ?_⟩
                rw [hiff]
                constructor
                · rintro ⟨pair, hp, h⟩
                  exact ⟨pair, List.mem_cons_of_mem _ hp, h⟩
                · rintro ⟨pair, hp, h⟩
                  rcases List.mem_cons.mp hp with rfl | hp
                  · obtain ⟨-, q', -, -, hfind', hside'⟩ := h
                    rw [hfind] at hfind'
                    obtain rfl := Option.some.inj hfind'
                    exact absurd hside' hside
                  · exact ⟨pair, hp, h⟩

/-- Stage 6 always answers; it answers yes only where the interiors meet and
edges share an inner point, and it does where collinear edges share one and
the interiors meet. -/
theorem collinearOverlap_spec (h1 : Checked first) (h2 : Checked second) :
    ∃ b, boundariesHavePositiveCollinearOverlap first.polygon second.polygon
        first.winding = .ok b ∧
      (b = true → (∃ q, h1.ring.Inner q ∧ h2.ring.Inner q) ∧
        ∃ i j, EdgesShare h1.ring h2.ring i j) ∧
      ((∃ i j, EdgesCollinear h1.ring h2.ring i j ∧
          EdgesShare h1.ring h2.ring i j) →
        (∃ q, h1.ring.Inner q ∧ h2.ring.Inner q) → b = true) := by
  have hmem : ∀ pair, pair ∈ ((polygonEdges first.polygon).flatMap fun firstEdge =>
      (polygonEdges second.polygon).map fun secondEdge => (firstEdge, secondEdge)) ↔
      ∃ i j, (edgeAt first.polygon.points i, edgeAt second.polygon.points j) =
        pair := by
    intro pair
    simp only [List.mem_flatMap, List.mem_map]
    constructor
    · rintro ⟨e, he, f, hf, rfl⟩
      obtain ⟨i, rfl⟩ := h1.mem_polygonEdges.mp he
      obtain ⟨j, rfl⟩ := h2.mem_polygonEdges.mp hf
      exact ⟨i, j, rfl⟩
    · rintro ⟨i, j, rfl⟩
      exact ⟨_, h1.mem_polygonEdges.mpr ⟨i, rfl⟩, _,
        h2.mem_polygonEdges.mpr ⟨j, rfl⟩, rfl⟩
  obtain ⟨b, hb, hiff⟩ := collinearOverlapFrom_eq second.polygon first.winding
    ((polygonEdges first.polygon).flatMap fun firstEdge =>
      (polygonEdges second.polygon).map fun secondEdge => (firstEdge, secondEdge))
    (by
      -- the vertex after the overlapping edge is off its line
      intro pair hp hov
      obtain ⟨i, j, rfl⟩ := (hmem pair).mp hp
      obtain ⟨hcol, -⟩ := (edgesOverlapCollinearly_iff h1 h2 i j).mp hov
      obtain ⟨u, v, -, -, -, hprop⟩ := hcol.exists_params
      refine ⟨vertexAt second.polygon.points (j + 2),
        vertexAt_mem h2.accepted.length_pos _, fun hz => ?_⟩
      have hturn := h2.ring.turn j
      rw [hprop] at hturn
      have hzero : cross (h1.ring.vertex i) (h1.ring.vertex (i + 1))
          (h2.ring.vertex (j + 2)) = 0 := orientationOf_eq_zero_iff.mp hz
      rw [hzero] at hturn
      simp at hturn)
  refine ⟨b, hb, fun hbt => ?_, ?_⟩
  · obtain ⟨pair, hp, hov, q, hq, hne, -, hside⟩ := hiff.mp hbt
    obtain ⟨i, j, rfl⟩ := (hmem pair).mp hp
    obtain ⟨hcol, t, s, ht0, ht1, hs0, hs1, heq⟩ :=
      (edgesOverlapCollinearly_iff h1 h2 i j).mp hov
    refine ⟨?_, i, j, t, s, ht0, ht1, hs0, hs1, heq⟩
    obtain ⟨u, v, huv, -, -, hprop⟩ := hcol.exists_params
    obtain ⟨k, -, rfl⟩ := exists_vertexAt hq
    -- the vertex found is strictly inside over both edges
    have hpos : 0 < h1.ring.height i (h2.ring.vertex k) :=
      (h1.orientationOf_edge i _).mp hside
    refine ConvexRing.meets_of_overlap ht0 ht1 hs0 hs1 heq hpos
      ((h2.ring.convex j k).lt_of_ne fun hz => hne ?_)
    have hside2 : h2.ring.side ≠ 0 := by
      intro hs
      have := h2.ring.turn j
      simp [hs] at this
    have hz' := (mul_eq_zero.mp hz.symm).resolve_left hside2
    rw [hprop] at hz'
    exact orientationOf_eq_zero_iff.mpr
      ((mul_eq_zero.mp hz').resolve_left (sub_ne_zero.mpr huv.symm))
  · rintro ⟨i, j, hcol, hshare⟩ ⟨q, hq1, hq2⟩
    refine hiff.mpr ⟨_, (hmem _).mpr ⟨i, j, rfl⟩,
      (edgesOverlapCollinearly_iff h1 h2 i j).mpr ⟨hcol, hshare⟩, ?_⟩
    obtain ⟨u, v, huv, -, -, hprop⟩ := hcol.exists_params
    -- some vertex is off the line, so the search finds one
    cases hfind : second.polygon.points.find? (fun point =>
        orientationOf (edgeAt first.polygon.points i).start
          (edgeAt first.polygon.points i).finish point != 0) with
    | none =>
        exfalso
        have hz := List.find?_eq_none.mp hfind (vertexAt second.polygon.points (j + 2))
          (vertexAt_mem h2.accepted.length_pos _)
        simp only [bne_iff_ne, ne_eq, not_not] at hz
        have hzero : cross (h1.ring.vertex i) (h1.ring.vertex (i + 1))
            (h2.ring.vertex (j + 2)) = 0 := orientationOf_eq_zero_iff.mp hz
        have hturn := h2.ring.turn j
        rw [hprop, hzero] at hturn
        simp at hturn
    | some p =>
        have hp := List.mem_of_find?_eq_some hfind
        have hne : orientationOf (edgeAt first.polygon.points i).start
            (edgeAt first.polygon.points i).finish p ≠ 0 := by
          simpa using List.find?_some hfind
        refine ⟨p, hp, hne, rfl, (h1.orientationOf_edge i p).mpr ?_⟩
        obtain ⟨k, -, rfl⟩ := exists_vertexAt hp
        -- the common inner point says the two inner sides agree
        have hprop' : ∀ x, h2.ring.height j x * h1.ring.side =
            h2.ring.side * (v - u) * h1.ring.height i x := by
          intro x
          unfold ConvexRing.height
          rw [hprop]
          ring
        have hside1 : h1.ring.side * h1.ring.side = 1 := by
          show (first.winding : K) * first.winding = 1
          rcases h1.accepted.winding with hw | hw <;> simp [hw]
        have hq := hprop' q
        have hk := hprop' (h2.ring.vertex k)
        have hkne : h1.ring.height i (h2.ring.vertex k) ≠ 0 := fun hz =>
          hne (orientationOf_eq_zero_iff.mpr ((mul_eq_zero.mp hz).resolve_left
            (left_ne_zero_of_mul_eq_one hside1)))
        have hsame : h2.ring.height j (h2.ring.vertex k) * h1.ring.height i q =
            h2.ring.height j q * h1.ring.height i (h2.ring.vertex k) := by
          refine mul_right_cancel₀ (left_ne_zero_of_mul_eq_one hside1) ?_
          linear_combination h1.ring.height i q * hk -
            h1.ring.height i (h2.ring.vertex k) * hq
        have hnonneg : 0 ≤ h1.ring.height i (h2.ring.vertex k) := by
          refine nonneg_of_mul_nonneg_right ?_ (hq2 j)
          rw [← hsame]
          exact mul_nonneg (h2.ring.convex j k) (hq1 i).le
        exact hnonneg.lt_of_ne hkne.symm

/-! ## §6  The verdict -/

/-- A point on the boundary, as stage 7 tests it, is closed. -/
theorem closed_of_isOnBoundary (h : Checked v) {q : IrregularPoint K}
    (hq : isOnBoundary q v.polygon = true) : h.ring.Closed (position q) := by
  unfold isOnBoundary at hq
  rw [List.any_eq_true] at hq
  obtain ⟨e, he, hq⟩ := hq
  obtain ⟨k, rfl⟩ := h.mem_polygonEdges.mp he
  rw [Bool.and_eq_true, beq_iff_eq, orientationOf_eq_zero_iff] at hq
  have hne := ConvexRing.vertex_ne (R := h.ring) k
  obtain ⟨t, ht⟩ := exists_lineMap_of_cross_eq_zero hne hq.1
  have hbox := hq.2
  simp only [pointIsOnSegment, Bool.and_eq_true, decide_eq_true_eq] at hbox
  have hx := congrArg Prod.fst ht
  have hy := congrArg Prod.snd ht
  rw [lineMap_fst] at hx
  rw [lineMap_snd] at hy
  have hparam : ∀ {a b c : K}, a ≠ b → a + t * (b - a) = c → min a b ≤ c →
      c ≤ max a b → 0 ≤ t ∧ t ≤ 1 := by
    rintro a b c hab rfl h1 h2
    rcases lt_or_gt_of_ne hab with hlt | hlt
    · rw [min_eq_left hlt.le] at h1
      rw [max_eq_right hlt.le] at h2
      have hd := sub_pos.mpr hlt
      exact ⟨nonneg_of_mul_nonneg_left (by linarith : 0 ≤ t * (b - a)) hd,
        le_of_mul_le_mul_right (by linarith : t * (b - a) ≤ 1 * (b - a)) hd⟩
    · rw [min_eq_right hlt.le] at h1
      rw [max_eq_left hlt.le] at h2
      have hd := sub_pos.mpr hlt
      exact ⟨nonneg_of_mul_nonneg_left (by linarith : 0 ≤ t * (a - b)) hd,
        le_of_mul_le_mul_right (by linarith : t * (a - b) ≤ 1 * (a - b)) hd⟩
  have ht01 : 0 ≤ t ∧ t ≤ 1 := by
    by_cases hxe : (h.ring.vertex k).1 = (h.ring.vertex (k + 1)).1
    · have hye : (h.ring.vertex k).2 ≠ (h.ring.vertex (k + 1)).2 := fun hye =>
        hne (Prod.ext hxe hye)
      exact hparam hye hy hbox.1.2 hbox.2
    · exact hparam hxe hx hbox.1.1.1 hbox.1.1.2
  exact ConvexRing.Outline.closed ⟨k, t, ht01.1, ht01.2, ht⟩

/-- Stage 7 says nothing new: a ring with all vertices on the other's boundary
has its average inside the other. -/
theorem average_inside_of_coincident (h1 : Checked first) (h2 : Checked second)
    (hon : (first.polygon.points.all fun point =>
      isOnBoundary point second.polygon) = true) :
    vertexAverage first.polygon ∈ openInterior second.polygon := by
  rw [List.all_eq_true] at hon
  have hclosed : ∀ k, h2.ring.Closed (h1.ring.vertex k) := fun k =>
    h2.closed_of_isOnBoundary (hon _ (vertexAt_mem h1.accepted.length_pos k))
  rw [h2.mem_openInterior, h1.vertexAverage_eq_centre]
  intro k
  rw [ConvexRing.height_centre]
  refine div_pos ?_ (Nat.cast_pos.mpr h1.ring.size_pos)
  refine (Finset.sum_nonneg fun j _ => hclosed j k).lt_of_ne fun hz => ?_
  -- otherwise all vertices of the first ring are on one line
  have hflat : ∀ j, cross (h2.ring.vertex k) (h2.ring.vertex (k + 1))
      (h1.ring.vertex j) = 0 := by
    intro j
    have hside2 : h2.ring.side ≠ 0 := by
      intro hs
      have := h2.ring.turn k
      simp [hs] at this
    have := (Finset.sum_eq_zero_iff_of_nonneg fun j _ => hclosed j k).mp hz.symm _
      (ConvexRing.mod_mem (R := h1.ring) j)
    rw [ConvexRing.vertex_mod] at this
    exact (mul_eq_zero.mp this).resolve_left hside2
  have hturn := h1.ring.turn 0
  have hne := ConvexRing.vertex_ne (R := h2.ring) k
  obtain ⟨a, ha⟩ := exists_lineMap_of_cross_eq_zero hne (hflat 0)
  obtain ⟨b, hb⟩ := exists_lineMap_of_cross_eq_zero hne (hflat (0 + 1))
  rw [← ha, ← hb, cross_lineMap_lineMap, hflat] at hturn
  simp at hturn

/-- **The verdict.** The test always answers, and it answers yes exactly where
the interiors meet and the input does not slip between the stages. -/
theorem verdict (h1 : Checked first) (h2 : Checked second) :
    ∃ b, polygonsHavePositiveAreaOverlap first second = .ok b ∧
      (b = true ↔ sharesPositiveArea first.polygon second.polygon ∧
        ¬SlipsBetweenStages first.polygon second.polygon) := by
  unfold polygonsHavePositiveAreaOverlap
  by_cases hd : areDisjoint first.bounds second.bounds = true
  · rw [if_pos hd]
    refine ⟨false, rfl, ?_⟩
    simp [not_sharesPositiveArea_of_disjoint h1 h2 hd]
  rw [if_neg hd]
  by_cases hs2 : (first.polygon.points.any fun point =>
      isStrictlyInside point second.polygon second.winding) = true
  · rw [if_pos hs2]
    obtain ⟨p, hp, hin⟩ := List.any_eq_true.mp hs2
    have hin' := h2.isStrictlyInside_iff.mp hin
    refine ⟨true, rfl, ⟨fun _ => ⟨?_, fun hslip => hslip.noVertexInside.1 p hp hin'⟩,
      fun _ => rfl⟩⟩
    obtain ⟨k, -, rfl⟩ := exists_vertexAt hp
    exact (sharesPositiveArea_iff h1 h2).mpr (ConvexRing.meets_of_closed
      (ConvexRing.closed_vertex k) (h2.mem_openInterior.mp hin'))
  rw [if_neg hs2]
  by_cases hs3 : (second.polygon.points.any fun point =>
      isStrictlyInside point first.polygon first.winding) = true
  · rw [if_pos hs3]
    obtain ⟨p, hp, hin⟩ := List.any_eq_true.mp hs3
    have hin' := h1.isStrictlyInside_iff.mp hin
    refine ⟨true, rfl, ⟨fun _ => ⟨?_, fun hslip => hslip.noVertexInside.2 p hp hin'⟩,
      fun _ => rfl⟩⟩
    obtain ⟨k, -, rfl⟩ := exists_vertexAt hp
    obtain ⟨q, hq2, hq1⟩ := ConvexRing.meets_of_closed
      (ConvexRing.closed_vertex (R := h2.ring) k) (h1.mem_openInterior.mp hin')
    exact (sharesPositiveArea_iff h1 h2).mpr ⟨q, hq1, hq2⟩
  rw [if_neg hs3]
  by_cases hs4 : boundariesHaveProperCrossing first.polygon second.polygon = true
  · rw [if_pos hs4]
    obtain ⟨hmeet, i, j, hshare⟩ := of_properCrossing h1 h2 hs4
    exact ⟨true, rfl, ⟨fun _ => ⟨(sharesPositiveArea_iff h1 h2).mpr hmeet,
      fun hslip => (disjoint_openSegment_iff h1 h2).mp hslip.noSharedEdgePoint i j
        hshare⟩, fun _ => rfl⟩⟩
  rw [if_neg hs4]
  obtain ⟨c1, hc1, hpos1⟩ := strictConvexInteriorPoint_eq first.polygon
  obtain ⟨c2, hc2, hpos2⟩ := strictConvexInteriorPoint_eq second.polygon
  rw [hc1, hc2]
  dsimp only
  have hin1 : isStrictlyInside c1 second.polygon second.winding = true ↔
      vertexAverage first.polygon ∈ openInterior second.polygon := by
    rw [h2.isStrictlyInside_iff, hpos1]
  have hin2 : isStrictlyInside c2 first.polygon first.winding = true ↔
      vertexAverage second.polygon ∈ openInterior first.polygon := by
    rw [h1.isStrictlyInside_iff, hpos2]
  have hcentre1 : h1.ring.Inner (vertexAverage first.polygon) :=
    h1.vertexAverage_eq_centre ▸ ConvexRing.inner_centre
  have hcentre2 : h2.ring.Inner (vertexAverage second.polygon) :=
    h2.vertexAverage_eq_centre ▸ ConvexRing.inner_centre
  by_cases hs5 : (isStrictlyInside c1 second.polygon second.winding ||
      isStrictlyInside c2 first.polygon first.winding) = true
  · rw [if_pos hs5]
    rw [Bool.or_eq_true, hin1, hin2] at hs5
    refine ⟨true, rfl, ⟨fun _ => ⟨?_, fun hslip => ?_⟩, fun _ => rfl⟩⟩
    · rw [sharesPositiveArea_iff h1 h2]
      rcases hs5 with h | h
      · exact ⟨_, hcentre1, h2.mem_openInterior.mp h⟩
      · exact ⟨_, h1.mem_openInterior.mp h, hcentre2⟩
    · rcases hs5 with h | h
      · exact hslip.noAverageInside.1 h
      · exact hslip.noAverageInside.2 h
  rw [if_neg hs5]
  rw [Bool.or_eq_true, hin1, hin2, not_or] at hs5
  obtain ⟨b, hb, hyes, hno⟩ := collinearOverlap_spec h1 h2
  rw [hb]
  cases b with
  | true =>
      obtain ⟨hmeet, i, j, hshare⟩ := hyes rfl
      exact ⟨true, rfl, ⟨fun _ => ⟨(sharesPositiveArea_iff h1 h2).mpr hmeet,
        fun hslip => (disjoint_openSegment_iff h1 h2).mp hslip.noSharedEdgePoint
          i j hshare⟩, fun _ => rfl⟩⟩
  | false =>
      -- stage 7 cannot answer yes after stage 5 did not
      have hs7 : (first.polygon.points.all fun point =>
          isOnBoundary point second.polygon) = false := by
        rw [← Bool.not_eq_true]
        exact fun hon => hs5.1 (average_inside_of_coincident h1 h2 hon)
      dsimp only
      rw [hs7, Bool.false_and]
      refine ⟨false, rfl, ?_⟩
      simp only [Bool.false_eq_true, false_iff, not_and, not_not]
      intro hmeet
      obtain ⟨q, hq1, hq2⟩ := (sharesPositiveArea_iff h1 h2).mp hmeet
      refine ⟨?_, ⟨fun p hp hin => ?_, fun p hp hin => ?_⟩, ?_, hs5⟩
      · rw [edgeRunsThrough_iff h1 h2, edgeRunsThrough_iff h2 h1]
        rcases ConvexRing.outline_enters hq1 hq2 with h | h | hsame
        · exact .inl h
        · exact .inr h
        · exact absurd (h2.mem_openInterior.mpr ((hsame _).mp hcentre1)) hs5.1
      · exact hs2 (List.any_eq_true.mpr ⟨p, hp, h2.isStrictlyInside_iff.mpr hin⟩)
      · exact hs3 (List.any_eq_true.mpr ⟨p, hp, h1.isStrictlyInside_iff.mpr hin⟩)
      · rw [disjoint_openSegment_iff h1 h2]
        intro i j hshare
        rcases hshare.crossing_or_collinear with hcross | hcol
        · exact hs4 ((boundariesHaveProperCrossing_iff h1 h2).mpr
            ⟨i, j, edgesCrossProperly_iff.mpr hcross⟩)
        · exact Bool.false_ne_true (hno ⟨i, j, hcol, hshare⟩ ⟨q, hq1, hq2⟩)

end Checked

/-! ## §7  The assessment -/

omit [FloorRing K] [IsStrictOrderedRing K] in
theorem sharesPositiveArea_comm (first second : IrregularPolygon K) :
    sharesPositiveArea first second ↔ sharesPositiveArea second first := by
  unfold sharesPositiveArea
  rw [Set.inter_comm]

omit [FloorRing K] [IsStrictOrderedRing K] in
theorem SlipsBetweenStages.symm {first second : IrregularPolygon K}
    (h : SlipsBetweenStages first second) : SlipsBetweenStages second first :=
  ⟨h.runsThrough.symm, h.noVertexInside.symm,
    fun e he f hf => (h.noSharedEdgePoint f hf e he).symm, h.noAverageInside.symm⟩

theorem Checked.overlap_comm {first second : ValidatedPolygonWithBounds K}
    (h1 : Checked first) (h2 : Checked second) :
    polygonsHavePositiveAreaOverlap first second =
      polygonsHavePositiveAreaOverlap second first := by
  obtain ⟨b, hb, hbiff⟩ := h1.verdict h2
  obtain ⟨c, hc, hciff⟩ := h2.verdict h1
  rw [hb, hc]
  refine congrArg Except.ok (Bool.eq_iff_iff.mpr ?_)
  rw [hbiff, hciff, sharesPositiveArea_comm]
  exact and_congr_right fun _ => not_congr ⟨.symm, .symm⟩

/-- The whole polygon is on the sheet. -/
def liesInSheet (polygon : IrregularPolygon K) (sheet : SheetSpec K) : Prop :=
  ∀ q ∈ convexHull K {q | ∃ p ∈ polygon.points, position p = q},
    0 ≤ q.1 ∧ q.1 ≤ sheet.width ∧ 0 ≤ q.2 ∧ q.2 ≤ sheet.height

/-- The sheet bounds hold, when they are enforced and there is a sheet. -/
def respectsSheet (polygon : IrregularPolygon K) (sheet : Option (SheetSpec K))
    (enforceSheetBounds : Bool) : Prop :=
  enforceSheetBounds = true → ∀ s, sheet = some s → liesInSheet polygon s

omit [FloorRing K] in
theorem isInsideSheet_iff {polygon : IrregularPolygon K} {sheet : SheetSpec K} :
    isInsideSheet polygon.points sheet.width sheet.height = true ↔
      liesInSheet polygon sheet := by
  simp only [isInsideSheet, List.all_eq_true, Bool.and_eq_true, decide_eq_true_eq]
  constructor
  · intro h
    have hconvex : Convex K {q : K × K | 0 ≤ q.1 ∧ q.1 ≤ sheet.width ∧
        0 ≤ q.2 ∧ q.2 ≤ sheet.height} := by
      rintro p ⟨p1, p2, p3, p4⟩ q ⟨q1, q2, q3, q4⟩ a b ha hb hab
      have hone : ∀ c : K, a * c + b * c = c := fun c => by
        rw [← add_mul, hab, one_mul]
      simp only [Set.mem_ofPred_eq, Prod.fst_add, Prod.snd_add, Prod.smul_fst,
        Prod.smul_snd, smul_eq_mul]
      refine ⟨by positivity, ?_, by positivity, ?_⟩
      · exact (add_le_add (mul_le_mul_of_nonneg_left p2 ha)
          (mul_le_mul_of_nonneg_left q2 hb)).trans_eq (hone _)
      · exact (add_le_add (mul_le_mul_of_nonneg_left p4 ha)
          (mul_le_mul_of_nonneg_left q4 hb)).trans_eq (hone _)
    intro q hq
    refine convexHull_min ?_ hconvex hq
    rintro _ ⟨p, hp, rfl⟩
    obtain ⟨⟨⟨h1, h2⟩, h3⟩, h4⟩ := h p hp
    exact ⟨h1, h2, h3, h4⟩
  · intro h p hp
    obtain ⟨h1, h2, h3, h4⟩ := h (position p) (subset_convexHull K _ ⟨p, hp, rfl⟩)
    exact ⟨⟨⟨h1, h2⟩, h3⟩, h4⟩

/-- The overlap loop accepts when every overlap slips between the stages. -/
theorem assessOverlaps_eq_legal_iff {moving : ValidatedPolygonWithBounds K}
    (hmoving : Checked moving) :
    ∀ placed : List (ValidatedPolygonWithBounds K), (∀ p ∈ placed, Checked p) →
      (assessOverlaps moving placed = .assessment ⟨true, ""⟩ ↔
        ∀ p ∈ placed, sharesPositiveArea moving.polygon p.polygon →
          SlipsBetweenStages moving.polygon p.polygon)
  | [], _ => by simp [assessOverlaps]
  | p :: placed, hplaced => by
      obtain ⟨b, hb, hiff⟩ := hmoving.verdict (hplaced p List.mem_cons_self)
      have ih := assessOverlaps_eq_legal_iff hmoving placed fun q hq =>
        hplaced q (List.mem_cons_of_mem _ hq)
      unfold assessOverlaps
      rw [hb]
      cases b with
      | true =>
          obtain ⟨hshares, hslip⟩ := hiff.mp rfl
          refine iff_of_false (by simp) fun h => ?_
          exact hslip (h p List.mem_cons_self hshares)
      | false =>
          dsimp only
          rw [ih, List.forall_mem_cons]
          refine (and_iff_right fun hshares => ?_).symm
          by_contra hslip
          exact Bool.false_ne_true (hiff.mpr ⟨hshares, hslip⟩)

theorem mapM_placedPolygon_checked {heap : ℕ → IrregularPlacedPiece K} :
    ∀ {arcs : List (PlacedArc heap)} {placed : List (ValidatedPolygonWithBounds K)},
      arcs.mapM placedPolygon = .ok placed → ∀ p ∈ placed, Checked p
  | [], placed, h => by
      obtain rfl := Except.ok.inj h
      simp
  | arc :: arcs, placed, h => by
      rw [List.mapM_cons] at h
      cases hp : placedPolygon arc with
      | error message =>
          rw [hp] at h
          exact absurd h (by simp [bind, Except.bind])
      | ok p =>
          cases hrest : arcs.mapM placedPolygon with
          | error message =>
              rw [hp, hrest] at h
              exact absurd h (by simp [bind, Except.bind])
          | ok rest =>
              rw [hp, hrest] at h
              obtain rfl := Except.ok.inj h
              intro q hq
              rcases List.mem_cons.mp hq with rfl | hq
              · exact (checked_of_translateAndValidatePolygon hp).1
              · exact mapM_placedPolygon_checked hrest q hq

/-- An index the engine built does not show in the assessment. -/
theorem assessPlacement_without_index {heap : ℕ → IrregularPlacedPiece K}
    (input : AssessPlacementInput heap) (enforceSheetBounds : Bool)
    (hindex : ∀ index, input.placedCollisionIndex = some index →
      ∃ arcs cellSizeMm, index = makePlacedCollisionSpatialIndex arcs cellSizeMm) :
    assessPlacement input enforceSheetBounds =
      assessPlacement { input with placedCollisionIndex := none }
        enforceSheetBounds := by
  cases hi : input.placedCollisionIndex with
  | none => rw [← hi]
  | some index =>
      obtain ⟨arcs, cellSizeMm, rfl⟩ := hindex index hi
      cases hm : (makePlacedCollisionSpatialIndex arcs cellSizeMm).matches
          input.placed with
      | true =>
          refine (filed_makePlacedCollisionSpatialIndex arcs
            cellSizeMm).assessPlacement_eq ?_ input hi hm enforceSheetBounds
          unfold makePlacedCollisionSpatialIndex
          rw [cellSizeMm_foldl_add]
          exact floorMonotone_validCellSize _
      | false =>
          have hplaced : ∀ bounds, placedPolygons input bounds =
              placedPolygons { input with placedCollisionIndex := none } bounds := by
            intro bounds
            simp [placedPolygons, hi, Option.filter, hm]
          unfold assessPlacement
          simp only [hplaced]

/-- **What a legal assessment means.** -/
theorem assessPlacement_eq_legal_iff {heap : ℕ → IrregularPlacedPiece K}
    {input : AssessPlacementInput heap} {enforceSheetBounds : Bool}
    {moving : ValidatedPolygonWithBounds K}
    {placed : List (ValidatedPolygonWithBounds K)}
    (hmoving : translateAndValidatePolygon input.moving.polygon
      input.candidatePoint "moving" = .ok moving)
    (hplaced : input.placed.mapM placedPolygon = .ok placed)
    (hindex : ∀ index, input.placedCollisionIndex = some index →
      ∃ arcs cellSizeMm, index = makePlacedCollisionSpatialIndex arcs cellSizeMm) :
    assessPlacement input enforceSheetBounds = .assessment ⟨true, ""⟩ ↔
      respectsSheet moving.polygon input.sheet enforceSheetBounds ∧
        ∀ p ∈ placed, sharesPositiveArea moving.polygon p.polygon →
          SlipsBetweenStages moving.polygon p.polygon := by
  have hdirect : placedPolygons { input with placedCollisionIndex := none }
      moving.bounds = .ok placed := hplaced
  rw [assessPlacement_without_index input enforceSheetBounds hindex,
    ← assessOverlaps_eq_legal_iff (checked_of_translateAndValidatePolygon hmoving).1
      placed (mapM_placedPolygon_checked hplaced)]
  unfold assessPlacement
  rw [hmoving]
  dsimp only
  rw [hdirect]
  dsimp only
  cases enforceSheetBounds with
  | false => simp [respectsSheet]
  | true =>
      cases hs : input.sheet with
      | none => simp [respectsSheet]
      | some sheet =>
          have hsheet : respectsSheet moving.polygon (some sheet) true ↔
              isInsideSheet moving.polygon.points sheet.width sheet.height = true := by
            rw [isInsideSheet_iff]
            simp [respectsSheet]
          rw [hsheet]
          cases hin : isInsideSheet moving.polygon.points sheet.width
              sheet.height with
          | true => simp [hin]
          | false => simp [hin]

/-! ## §8  Exactness -/

/-- **The overlap test is exact except between its stages.** For two polygons
the engine validated, the verdict is that they share a positive area if and
only if they do not slip between the stages; the verdict is the same both ways
round; and an assessment is legal exactly when the polygon is on the sheet and
shares no positive area, unless it is on the sheet, some placed polygon slips
and every one it overlaps does. -/
theorem polygonsHavePositiveAreaOverlap_exact_iff :
    (∀ (a b : IrregularPolygon K) (s t : IrregularPoint K) (l m : String)
        (first second : ValidatedPolygonWithBounds K),
      translateAndValidatePolygon a s l = .ok first →
      translateAndValidatePolygon b t m = .ok second →
      ((polygonsHavePositiveAreaOverlap first second = .ok true ↔
          sharesPositiveArea first.polygon second.polygon) ↔
        ¬SlipsBetweenStages first.polygon second.polygon) ∧
      (∃ verdict, polygonsHavePositiveAreaOverlap first second = .ok verdict) ∧
      polygonsHavePositiveAreaOverlap first second =
        polygonsHavePositiveAreaOverlap second first) ∧
    ∀ (heap : ℕ → IrregularPlacedPiece K) (input : AssessPlacementInput heap)
        (enforceSheetBounds : Bool) (moving : ValidatedPolygonWithBounds K)
        (placed : List (ValidatedPolygonWithBounds K)),
      translateAndValidatePolygon input.moving.polygon input.candidatePoint
        "moving" = .ok moving →
      input.placed.mapM placedPolygon = .ok placed →
      (∀ index, input.placedCollisionIndex = some index →
        ∃ arcs cellSizeMm, index = makePlacedCollisionSpatialIndex arcs cellSizeMm) →
      ((assessPlacement input enforceSheetBounds = .assessment ⟨true, ""⟩ ↔
          respectsSheet moving.polygon input.sheet enforceSheetBounds ∧
            ∀ p ∈ placed, ¬sharesPositiveArea moving.polygon p.polygon) ↔
        ¬(respectsSheet moving.polygon input.sheet enforceSheetBounds ∧
          (∃ p ∈ placed, SlipsBetweenStages moving.polygon p.polygon) ∧
          ∀ p ∈ placed, sharesPositiveArea moving.polygon p.polygon →
            SlipsBetweenStages moving.polygon p.polygon)) := by
  have hshares : ∀ {first second : ValidatedPolygonWithBounds K}, Checked first →
      Checked second → SlipsBetweenStages first.polygon second.polygon →
      sharesPositiveArea first.polygon second.polygon := by
    intro first second h1 h2 hslip
    rw [Checked.sharesPositiveArea_iff h1 h2]
    rcases hslip.runsThrough with h | h
    · obtain ⟨q, hout, hin⟩ := (Checked.edgeRunsThrough_iff h1 h2).mp h
      exact ConvexRing.meets_of_closed hout.closed hin
    · obtain ⟨q, hout, hin⟩ := (Checked.edgeRunsThrough_iff h2 h1).mp h
      obtain ⟨p, hp2, hp1⟩ := ConvexRing.meets_of_closed hout.closed hin
      exact ⟨p, hp1, hp2⟩
  refine ⟨?_, ?_⟩
  · intro a b s t l m first second hfirst hsecond
    have h1 := (checked_of_translateAndValidatePolygon hfirst).1
    have h2 := (checked_of_translateAndValidatePolygon hsecond).1
    obtain ⟨verdict, hverdict, hiff⟩ := h1.verdict h2
    refine ⟨?_, ⟨verdict, hverdict⟩, h1.overlap_comm h2⟩
    have htrue : polygonsHavePositiveAreaOverlap first second = .ok true ↔
        sharesPositiveArea first.polygon second.polygon ∧
          ¬SlipsBetweenStages first.polygon second.polygon := by
      rw [hverdict, Except.ok.injEq, hiff]
    rw [htrue]
    constructor
    · intro h hslip
      exact (h.mpr (hshares h1 h2 hslip)).2 hslip
    · intro hslip
      exact ⟨fun h => h.1, fun h => ⟨h, hslip⟩⟩
  · intro heap input enforceSheetBounds moving placed hmoving hplaced hindex
    have h1 := (checked_of_translateAndValidatePolygon hmoving).1
    have h2 := mapM_placedPolygon_checked hplaced
    rw [assessPlacement_eq_legal_iff hmoving hplaced hindex]
    constructor
    · rintro h ⟨hsheet, ⟨p, hp, hslip⟩, hall⟩
      exact (h.mp ⟨hsheet, hall⟩).2 p hp (hshares h1 (h2 p hp) hslip)
    · intro hnot
      refine ⟨fun ⟨hsheet, hall⟩ => ⟨hsheet, fun p hp hmeet => ?_⟩,
        fun ⟨hsheet, hall⟩ => ⟨hsheet, fun p hp hmeet => absurd hmeet (hall p hp)⟩⟩
      exact hnot ⟨hsheet, ⟨p, hp, hall p hp hmeet⟩, hall⟩

/-- A unit square at `(left, 0)`, validated. -/
def validatedSquare (left : ℚ) : ValidatedPolygonWithBounds ℚ :=
  ⟨⟨[⟨left, 0⟩, ⟨left + 1, 0⟩, ⟨left + 1, 1⟩, ⟨left, 1⟩]⟩,
    ⟨left, 0, left + 1, 1⟩, 1⟩

theorem polygonsHavePositiveAreaOverlap_exact_iff_squares :
    ((polygonsHavePositiveAreaOverlap (validatedSquare 0) (validatedSquare (1 / 2)) =
          .ok true ↔
        sharesPositiveArea (validatedSquare 0).polygon
          (validatedSquare (1 / 2)).polygon) ↔
      ¬SlipsBetweenStages (validatedSquare 0).polygon
        (validatedSquare (1 / 2)).polygon) ∧
    ((assessPlacement (thirdSquare 3) true = .assessment ⟨true, ""⟩ ↔
        respectsSheet (validatedSquare 3).polygon (thirdSquare 3).sheet true ∧
          ∀ p ∈ [validatedSquare 0, validatedSquare 5],
            ¬sharesPositiveArea (validatedSquare 3).polygon p.polygon) ↔
      ¬(respectsSheet (validatedSquare 3).polygon (thirdSquare 3).sheet true ∧
        (∃ p ∈ [validatedSquare 0, validatedSquare 5],
          SlipsBetweenStages (validatedSquare 3).polygon p.polygon) ∧
        ∀ p ∈ [validatedSquare 0, validatedSquare 5],
          sharesPositiveArea (validatedSquare 3).polygon p.polygon →
            SlipsBetweenStages (validatedSquare 3).polygon p.polygon)) := by
  have h := polygonsHavePositiveAreaOverlap_exact_iff (K := ℚ)
  refine ⟨(h.1 ⟨[⟨0, 0⟩, ⟨1, 0⟩, ⟨1, 1⟩, ⟨0, 1⟩]⟩
      ⟨[⟨0, 0⟩, ⟨1, 0⟩, ⟨1, 1⟩, ⟨0, 1⟩]⟩ ⟨0, 0⟩ ⟨1 / 2, 0⟩ "moving" "placed" _ _
      ?_ ?_).1, h.2 rowOfSquares (thirdSquare 3) true _ _ ?_ ?_ ?_⟩
  · decide +kernel
  · decide +kernel
  · decide +kernel
  · decide +kernel
  · intro index hindex
    exact ⟨_, _, (Option.some.inj hindex).symm⟩

/-! ### An overlap between the stages -/

/-- A flat octagon with two of its vertices on the lower edge of a square and
two on the upper. -/
def octagon : IrregularPolygon ℚ :=
  ⟨[⟨0, 0⟩, ⟨4, 0⟩, ⟨100, 1⟩, ⟨101, 2⟩, ⟨100, 3⟩, ⟨4, 4⟩, ⟨0, 4⟩, ⟨-1, 2⟩]⟩

/-- A tall rectangle with the octagon's four inner vertices on its sides. -/
def tower : IrregularPolygon ℚ := ⟨[⟨0, -3⟩, ⟨4, -3⟩, ⟨4, 1000⟩, ⟨0, 1000⟩]⟩

def validatedOctagon : ValidatedPolygonWithBounds ℚ :=
  ⟨octagon, ⟨-1, 0, 101, 4⟩, 1⟩

def validatedTower : ValidatedPolygonWithBounds ℚ :=
  ⟨tower, ⟨0, -3, 4, 1000⟩, 1⟩

/-- A sheet with the tower on it, and the octagon to be placed. -/
def placedTower (_ : ℕ) : IrregularPlacedPiece ℚ where
  placement := ⟨none, "tower", none, ⟨0, 0, 0, false⟩⟩
  collisionGeometry := ⟨"tower", ⟨0, 0, false, .orthogonal⟩, tower, ⟨0, -3, 4, 1000⟩⟩

def octagonOverTower : AssessPlacementInput placedTower where
  sheet := none
  placed := [⟨0⟩]
  placedCollisionIndex := none
  moving := ⟨"octagon", ⟨0, 0, false, .orthogonal⟩, octagon, ⟨-1, 0, 101, 4⟩⟩
  candidatePoint := ⟨0, 0⟩

/-- The two share the square between `(0, 0)` and `(4, 4)`, and the assessment
is legal. -/
theorem octagon_over_tower_is_legal :
    translateAndValidatePolygon octagon ⟨0, 0⟩ "moving" = .ok validatedOctagon ∧
      translateAndValidatePolygon tower ⟨0, 0⟩ "placed" = .ok validatedTower ∧
      polygonsHavePositiveAreaOverlap validatedOctagon validatedTower = .ok false ∧
      assessPlacement octagonOverTower false = .assessment ⟨true, ""⟩ ∧
      sharesPositiveArea octagon tower := by
  have h1 : translateAndValidatePolygon octagon ⟨0, 0⟩ "moving" =
      .ok validatedOctagon := by decide +kernel
  have h2 : translateAndValidatePolygon tower ⟨0, 0⟩ "placed" =
      .ok validatedTower := by decide +kernel
  refine ⟨h1, h2, by decide +kernel, by decide +kernel, position ⟨2, 2⟩, ?_, ?_⟩
  · exact (checked_of_translateAndValidatePolygon h1).1.isStrictlyInside_iff.mp
      (by decide +kernel)
  · exact (checked_of_translateAndValidatePolygon h2).1.isStrictlyInside_iff.mp
      (by decide +kernel)

end PolygonNesting
