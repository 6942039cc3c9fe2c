import Mathlib.Data.List.Rotate
import PolygonNesting.Geometry.ConvexHull
import PolygonNesting.Geometry.OpenInterior
import PolygonNesting.NfpIfp.CanonicalRing

set_option linter.unusedSectionVars false

/-!
# The relative no-fit polygon is one ring

In exact arithmetic both constructions answer with the strictly convex ring
that starts at its lowest vertex, has differences of vertices for its vertices
and encloses all differences.  There is one such ring, and it depends on the
vertices of the inputs only.
-/

namespace PolygonNesting

open Plane

variable {K : Type} [Field K] [LinearOrder K] [IsStrictOrderedRing K] [FloorRing K]

/-! ## §1  The ring of differences -/

/-- What both constructions compute. -/
structure IsRelativeNfp (fixedPoints movingPoints boundary : List (IrregularPoint K)) :
    Prop where
  strict : IsStrictRing boundary 1
  startsLowest : StartsLowest boundary
  difference : ∀ p ∈ boundary, ∃ f ∈ fixedPoints, ∃ m ∈ movingPoints,
    position p = position f - position m
  closed : ∀ f ∈ fixedPoints, ∀ m ∈ movingPoints,
    strict.ring.toConvexRing.Closed (position f - position m)

namespace IsRelativeNfp

variable {fixedPoints movingPoints boundary boundary' : List (IrregularPoint K)}

theorem closed_vertex (h : IsRelativeNfp fixedPoints movingPoints boundary)
    (h' : IsRelativeNfp fixedPoints movingPoints boundary') (k : ℕ) :
    h'.strict.ring.toConvexRing.Closed (h.strict.ring.vertex k) := by
  obtain ⟨f, hf, m, hm, heq⟩ := h.difference _ (vertexAt_mem h.strict.length_pos k)
  show h'.strict.ring.toConvexRing.Closed (position (vertexAt boundary k))
  rw [heq]
  exact h'.closed f hf m hm

/-- **There is one such ring.** -/
theorem unique (h : IsRelativeNfp fixedPoints movingPoints boundary)
    (h' : IsRelativeNfp fixedPoints movingPoints boundary') : boundary = boundary' :=
  h.strict.eq_of_closed h'.strict h.startsLowest h'.startsLowest (h.closed_vertex h')
    (h'.closed_vertex h)

/-- **Only the vertices matter**, not their order. -/
theorem congr {fixedPoints' movingPoints' : List (IrregularPoint K)}
    (h : IsRelativeNfp fixedPoints movingPoints boundary)
    (hfixed : ∀ p, p ∈ fixedPoints' ↔ p ∈ fixedPoints)
    (hmoving : ∀ p, p ∈ movingPoints' ↔ p ∈ movingPoints) :
    IsRelativeNfp fixedPoints' movingPoints' boundary where
  strict := h.strict
  startsLowest := h.startsLowest
  difference p hp := by
    obtain ⟨f, hf, m, hm, heq⟩ := h.difference p hp
    exact ⟨f, (hfixed f).mpr hf, m, (hmoving m).mpr hm, heq⟩
  closed f hf m hm := h.closed f ((hfixed f).mp hf) m ((hmoving m).mp hm)

end IsRelativeNfp

/-! ## §2  Normalized rings -/

theorem exceptMapM_ok {α β ε : Type} {f : α → Except ε β} {g : α → β}
    (h : ∀ a, f a = .ok (g a)) (l : List α) : l.mapM f = .ok (l.map g) := by
  rw [show f = fun a => pure (g a) from funext h, List.mapM_pure]
  rfl

theorem isFinitePoint_exact (p : IrregularPoint K) : isFinitePoint p = true := rfl

theorem finitePointsMessage_exact (points : List (IrregularPoint K)) :
    finitePointsMessage points = none := by
  unfold finitePointsMessage
  rw [if_pos (List.all_eq_true.mpr fun p _ => isFinitePoint_exact p)]

theorem position_neg (p : IrregularPoint K) :
    position (⟨-p.x, -p.y⟩ : IrregularPoint K) = -position p := rfl

theorem vertexAt_negatedPoints {points : List (IrregularPoint K)} (h : 0 < points.length)
    (k : ℕ) :
    vertexAt (negatedPoints points) k = ⟨-(vertexAt points k).x, -(vertexAt points k).y⟩ := by
  have hlt := Nat.mod_lt k h
  unfold vertexAt negatedPoints
  rw [List.length_map, List.getD_eq_getElem _ _ (by rwa [List.length_map]), List.getElem_map,
    List.getD_eq_getElem _ _ hlt]

theorem orientationOf_neg (o f s : IrregularPoint K) :
    orientationOf (⟨-o.x, -o.y⟩ : IrregularPoint K) ⟨-f.x, -f.y⟩ ⟨-s.x, -s.y⟩ =
      orientationOf o f s := by
  have hcross : cross (-position o) (-position f) (-position s) =
      cross (position o) (position f) (position s) := by
    simp only [cross, Prod.fst_neg, Prod.snd_neg]
    ring
  rw [orientationOf_eq, orientationOf_eq, position_neg, position_neg, position_neg, hcross]

namespace IsStrictRing

variable {points : List (IrregularPoint K)} {w : ConvexPolygonWinding}

theorem negatedPoints (h : IsStrictRing points w) : IsStrictRing (negatedPoints points) w := by
  have hlen : (PolygonNesting.negatedPoints points).length = points.length := List.length_map _
  refine ⟨hlen ▸ h.length, h.winding, h.nodup.map ?_, ?_⟩
  · intro p q heq
    obtain ⟨hx, hy⟩ := IrregularPoint.mk.inj heq
    exact position_injective (Prod.ext (neg_inj.mp hx) (neg_inj.mp hy))
  · intro e he p hp hstart hfinish
    obtain ⟨i, -, rfl⟩ := mem_boundaryEdges.mp he
    obtain ⟨q, hq, rfl⟩ := List.mem_map.mp hp
    unfold edgeAt at hstart hfinish ⊢
    simp only [vertexAt_negatedPoints h.length_pos] at hstart hfinish ⊢
    rw [orientationOf_neg]
    refine h.side _ (edgeAt_mem_boundaryEdges h.length_pos i) q hq ?_ ?_
    · rintro rfl
      exact hstart rfl
    · rintro rfl
      exact hfinish rfl

theorem counterClockwiseStablePoints (h : IsStrictRing points w) :
    IsStrictRing (counterClockwiseStablePoints points w) 1 := by
  unfold PolygonNesting.counterClockwiseStablePoints
  rcases h.winding with rfl | rfl
  · exact h.rotateToStableStart
  · exact h.reverse.rotateToStableStart

omit [FloorRing K] in
theorem counterClockwiseStablePoints_startsLowest (h : 3 ≤ points.length) :
    StartsLowest (PolygonNesting.counterClockwiseStablePoints points w) := by
  refine rotateToStableStart_startsLowest ?_
  split
  · rw [List.length_reverse]
    omega
  · omega

omit [FloorRing K] in
theorem mem_counterClockwiseStablePoints {p : IrregularPoint K} :
    p ∈ PolygonNesting.counterClockwiseStablePoints points w ↔ p ∈ points := by
  unfold PolygonNesting.counterClockwiseStablePoints
  rw [mem_rotateToStableStart]
  split
  · exact List.mem_reverse
  · exact Iff.rfl

/-- The vertices do not lie on a line. -/
theorem spans (h : IsStrictRing points w) : Spans points := by
  intro a d hd
  obtain ⟨k, hk⟩ := h.counterClockwiseStablePoints.ring.exists_det_ne_zero a hd
  exact ⟨_, mem_counterClockwiseStablePoints.mp
    (vertexAt_mem h.counterClockwiseStablePoints.length_pos k), hk⟩

end IsStrictRing

section

variable {fixedPoints movingPoints : List (IrregularPoint K)} {wf wm : ConvexPolygonWinding}

theorem validateRelativeNfpInputs_eq (hf : IsStrictRing fixedPoints wf)
    (hm : IsStrictRing movingPoints wm) :
    validateRelativeNfpInputs fixedPoints movingPoints = .ok ⟨wf, wm⟩ := by
  unfold validateRelativeNfpInputs
  rw [finitePointsMessage_exact, finitePointsMessage_exact, hf.validate_eq, hm.validate_eq]

/-! ## §3  The hull of all differences -/

theorem sumPoints_exact (p q : IrregularPoint K) (operation : String) :
    sumPoints p q operation = .ok ⟨p.x + q.x, p.y + q.y⟩ := by
  unfold sumPoints
  dsimp only
  rw [isFinitePoint_exact]
  rfl

theorem minkowskiPoints_eq (fixedPoints movingPoints : List (IrregularPoint K)) :
    ∃ points, minkowskiPoints fixedPoints (negatedPoints movingPoints) = .ok points ∧
      ∀ p, p ∈ points ↔ ∃ f ∈ fixedPoints, ∃ m ∈ movingPoints,
        position p = position f - position m := by
  refine ⟨_, exceptMapM_ok (fun pair : IrregularPoint K × IrregularPoint K =>
    sumPoints_exact pair.1 pair.2 "Minkowski sum") _, fun p => ?_⟩
  simp only [List.mem_map, List.mem_flatMap, negatedPoints]
  constructor
  · rintro ⟨_, ⟨f, hf, _, ⟨m, hm, rfl⟩, rfl⟩, rfl⟩
    exact ⟨f, hf, m, hm, (sub_eq_add_neg (position f) (position m)).symm⟩
  · rintro ⟨f, hf, m, hm, heq⟩
    refine ⟨_, ⟨f, hf, _, ⟨m, hm, rfl⟩, rfl⟩, position_injective ?_⟩
    rw [heq, sub_eq_add_neg]
    rfl

/-- **The hull of the differences.** -/
theorem computeRelativeNfpBoundaryReference_spec (hf : IsStrictRing fixedPoints wf)
    (hm : IsStrictRing movingPoints wm) :
    ∃ boundary, computeRelativeNfpBoundaryReference fixedPoints movingPoints = .ok ⟨boundary⟩ ∧
      IsRelativeNfp fixedPoints movingPoints boundary := by
  obtain ⟨points, hpoints, hmem⟩ := minkowskiPoints_eq fixedPoints movingPoints
  have hspan : Spans points := by
    intro a d hd
    obtain ⟨m, hm⟩ : ∃ m, m ∈ movingPoints := ⟨_, vertexAt_mem hm.length_pos 0⟩
    obtain ⟨f, hf, hne⟩ := hf.spans (a + position m) d hd
    refine ⟨⟨f.x - m.x, f.y - m.y⟩, (hmem _).mpr ⟨f, hf, m, hm, rfl⟩, ?_⟩
    rwa [show position (⟨f.x - m.x, f.y - m.y⟩ : IrregularPoint K) = position f - position m
      from rfl, sub_sub, add_comm (position m)]
  obtain ⟨hstrict, hsub, hclosed⟩ := computeConvexHull_spec hspan
  refine ⟨_, ?_, hstrict.rotateToStableStart,
    rotateToStableStart_startsLowest hstrict.length_pos, ?_, ?_⟩
  · unfold computeRelativeNfpBoundaryReference
    rw [validateRelativeNfpInputs_eq hf hm]
    dsimp only
    rw [hpoints]
    dsimp only
    rw [hstrict.validate_eq]
  · intro p hp
    exact (hmem p).mp (hsub p (mem_rotateToStableStart.mp hp))
  · intro f hf m hm
    have hp := hclosed ⟨f.x - m.x, f.y - m.y⟩ ((hmem _).mpr ⟨f, hf, m, hm, rfl⟩)
    exact hstrict.closed_rotateToStableStart hp

end

/-! ## §4  The merge -/

/-- The edges of a ring, by index. -/
theorem edgeVectors_eq {points : List (IrregularPoint K)} (h : IsStrictRing points 1) :
    ∃ edges, edgeVectors points = .ok edges ∧ edges.length = points.length ∧
      ∀ k < points.length, position (pointAt edges k) = edge h.ring.vertex k := by
  have hvector : ∀ k, (let start := pointAt points k
      let finish := pointAt points ((k + 1) % points.length)
      let vector : IrregularPoint K := ⟨finish.x - start.x, finish.y - start.y⟩
      if !isFinitePoint vector then
        (.error "Minkowski edge arithmetic must produce finite vectors." :
          Except String (IrregularPoint K))
      else .ok vector) =
        .ok ⟨(pointAt points ((k + 1) % points.length)).x - (pointAt points k).x,
          (pointAt points ((k + 1) % points.length)).y - (pointAt points k).y⟩ := by
    intro k
    dsimp only
    rw [isFinitePoint_exact]
    rfl
  refine ⟨_, exceptMapM_ok hvector _, by rw [List.length_map, List.length_range],
    fun k hk => ?_⟩
  rw [pointAt_of_lt (by rwa [List.length_map, List.length_range]),
    vertexAt_of_lt (by rwa [List.length_map, List.length_range]), List.getElem_map,
    List.getElem_range, pointAt_of_lt hk, pointAt_of_lt (Nat.mod_lt _ h.length_pos), vertexAt_mod]
  rfl

theorem edgeDirectionHalf_eq_zero_iff {a : IrregularPoint K} (ha : position a ≠ 0) :
    edgeDirectionHalf a = 0 ↔ (HalfPlane.upper K).mem (position a) := by
  have hiff : (0 < a.y ∨ a.y = 0 ∧ 0 ≤ a.x) ↔ (HalfPlane.upper K).mem (position a) := by
    refine or_congr_right (and_congr_right fun hy => ⟨fun hx => hx.lt_of_ne fun hz => ?_, le_of_lt⟩)
    exact ha (Prod.ext hz.symm hy)
  rw [← hiff, edgeDirectionHalf]
  split
  · next h => exact iff_of_true rfl h
  · next h => exact iff_of_false (by decide) h

theorem edgeDirectionHalf_or (a : IrregularPoint K) :
    edgeDirectionHalf a = 0 ∨ edgeDirectionHalf a = 1 := by
  unfold edgeDirectionHalf
  split
  · exact .inl rfl
  · exact .inr rfl

/-- What the comparison of two edges says. -/
theorem compareEdgeDirections_spec {a b : IrregularPoint K} (ha : position a ≠ 0)
    (hb : position b ≠ 0) :
    (compareEdgeDirections a b = -1 ∧ DirectionLt (position a) (position b)) ∨
      (compareEdgeDirections a b = 0 ∧ SameDirection (position a) (position b)) ∨
      (compareEdgeDirections a b = 1 ∧ DirectionLt (position b) (position a)) := by
  have hupa := edgeDirectionHalf_eq_zero_iff ha
  have hupb := edgeDirectionHalf_eq_zero_iff hb
  have hcross : cross (position (origin : IrregularPoint K)) (position a) (position b) =
      det (position a) (position b) := by
    rw [cross_eq_det, show position (origin : IrregularPoint K) = 0 from rfl, sub_zero, sub_zero]
  unfold compareEdgeDirections
  dsimp only
  by_cases hhalf : edgeDirectionHalf a = edgeDirectionHalf b
  · -- in one half, the turn decides
    have hsame : (HalfPlane.upper K).mem (position a) ↔ (HalfPlane.upper K).mem (position b) := by
      rw [← hupa, ← hupb, hhalf]
    rw [if_neg (not_not.mpr hhalf), orientationOf_eq, hcross]
    rcases lt_trichotomy (det (position a) (position b)) 0 with hdet | hdet | hdet
    · refine .inr (.inr ⟨?_, .inr ⟨hsame.symm, ?_⟩⟩)
      · rw [if_pos hdet]
        rfl
      · rw [det_swap]
        exact neg_pos.mpr hdet
    · refine .inr (.inl ⟨?_, hsame, hdet⟩)
      rw [hdet, if_neg (lt_irrefl 0), if_neg (lt_irrefl 0)]
      rfl
    · refine .inl ⟨?_, .inr ⟨hsame, hdet⟩⟩
      rw [if_neg hdet.not_gt, if_pos hdet]
      rfl
  · rw [if_pos hhalf]
    rcases edgeDirectionHalf_or a with h | h <;> rcases edgeDirectionHalf_or b with h' | h'
    · exact absurd (h.trans h'.symm) hhalf
    · refine .inl ⟨by rw [h, h']; rfl, .inl ⟨hupa.mp h, fun hup => ?_⟩⟩
      rw [hupb.mpr hup] at h'
      exact absurd h' (by decide)
    · refine .inr (.inr ⟨by rw [h, h']; rfl, .inl ⟨hupb.mp h', fun hup => ?_⟩⟩)
      rw [hupa.mpr hup] at h
      exact absurd h (by decide)
    · exact absurd (h.trans h'.symm) hhalf

section

variable {fixedBoundary movingBoundary fixedEdges movingEdges : List (IrregularPoint K)}
  (hf : IsStrictRing fixedBoundary 1) (hm : IsStrictRing movingBoundary 1)
  (hfLength : fixedEdges.length = fixedBoundary.length)
  (hfEdge : ∀ k < fixedBoundary.length, position (pointAt fixedEdges k) = edge hf.ring.vertex k)
  (hmLength : movingEdges.length = movingBoundary.length)
  (hmEdge : ∀ k < movingBoundary.length, position (pointAt movingEdges k) = edge hm.ring.vertex k)

include hfLength hfEdge hmLength hmEdge

/-- The edges taken are the ones that come first. -/
theorem advanceEdges_step {i j : ℕ} (h : i < fixedEdges.length ∨ j < movingEdges.length) :
    MergeStep hf.ring hm.ring (i, j) (advanceEdges fixedEdges movingEdges i j) := by
  have hsizeF : hf.ring.size = fixedEdges.length := hfLength.symm
  have hsizeM : hm.ring.size = movingEdges.length := hmLength.symm
  unfold advanceEdges
  split
  · next hboth =>
    have hfi := hfEdge i (by omega)
    have hmj := hmEdge j (by omega)
    have hspec := compareEdgeDirections_spec (hfi ▸ hf.ring.edge_ne_zero i)
      (hmj ▸ hm.ring.edge_ne_zero j)
    rw [hfi, hmj] at hspec
    dsimp only
    rcases hspec with ⟨heq, hlt⟩ | ⟨heq, hsame⟩ | ⟨heq, hlt⟩
    · rw [heq, if_pos (by decide), if_neg (by decide)]
      exact .first (by omega) fun _ => hlt
    · rw [heq, if_pos (by decide), if_pos (by decide)]
      exact .both (by omega) (by omega) hsame
    · rw [heq, if_neg (by decide), if_pos (by decide)]
      exact .second (by omega) fun _ => hlt
  · split
    · exact .first (by omega) fun hj => absurd hj (by omega)
    · exact .second (by omega) fun hi => absurd hi (by omega)

/-- The point of a state of the merge. -/
def sumAt (fixedBoundary movingBoundary : List (IrregularPoint K)) (state : ℕ × ℕ) :
    IrregularPoint K :=
  ⟨(pointAt fixedBoundary (state.1 % fixedBoundary.length)).x +
      (pointAt movingBoundary (state.2 % movingBoundary.length)).x,
    (pointAt fixedBoundary (state.1 % fixedBoundary.length)).y +
      (pointAt movingBoundary (state.2 % movingBoundary.length)).y⟩

omit hfLength hfEdge hmLength hmEdge in
theorem position_sumAt (state : ℕ × ℕ) :
    position (sumAt fixedBoundary movingBoundary state) =
      mergePoint hf.ring hm.ring state := by
  unfold sumAt
  rw [pointAt_of_lt (Nat.mod_lt _ hf.length_pos), pointAt_of_lt (Nat.mod_lt _ hm.length_pos),
    vertexAt_mod, vertexAt_mod]
  rfl

/-- **The loop runs the merge.** -/
theorem mergeBoundaries_run (i j : ℕ) (hi : i ≤ fixedEdges.length) (hj : j ≤ movingEdges.length)
    (boundaryPoints : List (IrregularPoint K)) :
    ∃ states, MergeRun hf.ring hm.ring (i, j) states ∧
      mergeBoundaries fixedBoundary movingBoundary fixedEdges movingEdges i j boundaryPoints =
        .ok (boundaryPoints ++ states.tail.map (sumAt fixedBoundary movingBoundary)) := by
  have hsizeF : hf.ring.size = fixedEdges.length := hfLength.symm
  have hsizeM : hm.ring.size = movingEdges.length := hmLength.symm
  by_cases h : i < fixedEdges.length ∨ j < movingEdges.length
  · have hstep := advanceEdges_step hf hm hfLength hfEdge hmLength hmEdge h
    have hle : (advanceEdges fixedEdges movingEdges i j).1 ≤ fixedEdges.length ∧
        (advanceEdges fixedEdges movingEdges i j).2 ≤ movingEdges.length := by
      generalize advanceEdges fixedEdges movingEdges i j = next at hstep
      cases hstep <;> constructor <;> dsimp only <;> omega
    obtain ⟨states, hrun, hmerge⟩ := mergeBoundaries_run
      (advanceEdges fixedEdges movingEdges i j).1 (advanceEdges fixedEdges movingEdges i j).2
      hle.1 hle.2
      (if (advanceEdges fixedEdges movingEdges i j).1 < fixedEdges.length ∨
          (advanceEdges fixedEdges movingEdges i j).2 < movingEdges.length then
        boundaryPoints ++ [sumAt fixedBoundary movingBoundary
          (advanceEdges fixedEdges movingEdges i j)]
      else boundaryPoints)
    refine ⟨_, .step hstep hrun, ?_⟩
    rw [mergeBoundaries, dif_pos h]
    dsimp only
    rw [sumPoints_exact]
    refine hmerge.trans (congrArg Except.ok ?_)
    rw [List.tail_cons]
    rcases hrun.done_or_step with ⟨hend, hnil⟩ | ⟨hlt, hcons⟩
    · obtain ⟨hend, hend'⟩ := Prod.mk.inj hend
      rw [if_neg (by omega), hnil]
      rfl
    · rw [hsizeF, hsizeM] at hlt
      rw [if_pos hlt, List.append_assoc, ← List.map_singleton, ← List.map_append]
      exact congrArg (boundaryPoints ++ List.map _ ·) hcons.symm
  · have hend : (i, j) = (hf.ring.size, hm.ring.size) := Prod.ext (by omega) (by omega)
    refine ⟨[], hend ▸ .done, ?_⟩
    rw [mergeBoundaries, dif_neg h]
    exact congrArg Except.ok (List.append_nil _).symm
termination_by (fixedEdges.length - i) + (movingEdges.length - j)
decreasing_by exact advanceEdges_lt h

end

section

variable {fixedPoints movingPoints : List (IrregularPoint K)} {wf wm : ConvexPolygonWinding}

/-- The list of a run of the merge is its ring. -/
theorem isStrictRing_of_mergeRun {F M : StrictRing K} {states : List (ℕ × ℕ)} (hF : F.Lowest)
    (hM : M.Lowest) (hrun : MergeRun F M (0, 0) states) {pointOf : ℕ × ℕ → IrregularPoint K}
    (hpoint : ∀ state, position (pointOf state) = mergePoint F M state) :
    ∃ h : IsStrictRing (states.map pointOf) 1, StartsLowest (states.map pointOf) ∧
      ∀ i j, h.ring.toConvexRing.Closed (F.vertex i + M.vertex j) := by
  have hvertex : ∀ k, (hrun.ring hF hM).vertex k =
      position (vertexAt (states.map pointOf) k) := by
    intro k
    have hlt := Nat.mod_lt k hrun.length_pos
    have hlt' : k % (states.map pointOf).length < (states.map pointOf).length := by
      rwa [List.length_map]
    rw [← vertexAt_mod, vertexAt_of_lt hlt', List.getElem_map, hpoint]
    show mergePoint F M (MergeRun.stateAt F M states (k % states.length)) = _
    unfold MergeRun.stateAt
    rw [List.getD_eq_getElem _ _ hlt]
    simp only [List.length_map]
  have h := isStrictRing_of_ring (hrun.ring hF hM) (List.length_map _).symm hvertex
  refine ⟨h, ?_, ?_⟩
  · intro p hp
    obtain ⟨k, -, rfl⟩ := exists_vertexAt hp
    have hlow := hrun.ring_lowest hF hM k
    rwa [hvertex, hvertex] at hlow
  · intro i j
    have hclosed := StrictRing.closed_iff.mp (hrun.ring_closed hF hM i j)
    rw [StrictRing.closed_iff]
    intro k
    have := hclosed k
    rwa [hvertex, hvertex] at this

/-- **The merge of the edges.** -/
theorem computeRelativeNfpBoundaryLinear_spec (hf : IsStrictRing fixedPoints wf)
    (hm : IsStrictRing movingPoints wm) :
    ∃ boundary, computeRelativeNfpBoundaryLinear fixedPoints movingPoints = .ok ⟨boundary⟩ ∧
      IsRelativeNfp fixedPoints movingPoints boundary := by
  -- the two rings that are merged
  have hF := hf.counterClockwiseStablePoints
  have hM := hm.negatedPoints.counterClockwiseStablePoints
  have hFlow := hF.lowest_iff.mpr (IsStrictRing.counterClockwiseStablePoints_startsLowest hf.length)
  have hMlow := hM.lowest_iff.mpr
    (IsStrictRing.counterClockwiseStablePoints_startsLowest hm.negatedPoints.length)
  obtain ⟨fixedEdges, hfEdges, hfLength, hfEdge⟩ := edgeVectors_eq hF
  obtain ⟨movingEdges, hmEdges, hmLength, hmEdge⟩ := edgeVectors_eq hM
  obtain ⟨states, hrun, hmerge⟩ := mergeBoundaries_run hF hM hfLength hfEdge hmLength hmEdge 0 0
    (Nat.zero_le _) (Nat.zero_le _)
    [sumAt (counterClockwiseStablePoints fixedPoints wf)
      (counterClockwiseStablePoints (negatedPoints movingPoints) wm) (0, 0)]
  obtain ⟨hstrict, hlow, hclosed⟩ := isStrictRing_of_mergeRun hFlow hMlow hrun
    (position_sumAt hF hM)
  have hstates : states = (0, 0) :: states.tail := by
    refine (hrun.done_or_step.resolve_left ?_).2
    rintro ⟨hend, -⟩
    exact hF.length_pos.ne (congrArg Prod.fst hend)
  have hcanonical : canonicalMerge (states.map (sumAt (counterClockwiseStablePoints fixedPoints wf)
      (counterClockwiseStablePoints (negatedPoints movingPoints) wm))) =
      some ⟨states.map (sumAt (counterClockwiseStablePoints fixedPoints wf)
        (counterClockwiseStablePoints (negatedPoints movingPoints) wm))⟩ := by
    unfold canonicalMerge
    rw [hstrict.canonicalize_eq, hlow.rotate_eq]
    dsimp only
    rw [hstrict.validate_eq]
    dsimp only
    rw [counterClockwiseBoundary, if_pos rfl, hlow.rotate_eq]
  refine ⟨_, ?_, hstrict, hlow, ?_, ?_⟩
  · unfold computeRelativeNfpBoundaryLinear
    rw [validateRelativeNfpInputs_eq hf hm]
    dsimp only
    rw [hfEdges, hmEdges, sumPoints_exact]
    have hinitial : sumAt (counterClockwiseStablePoints fixedPoints wf)
        (counterClockwiseStablePoints (negatedPoints movingPoints) wm) (0, 0) =
        ⟨(pointAt (counterClockwiseStablePoints fixedPoints wf) 0).x +
            (pointAt (counterClockwiseStablePoints (negatedPoints movingPoints) wm) 0).x,
          (pointAt (counterClockwiseStablePoints fixedPoints wf) 0).y +
            (pointAt (counterClockwiseStablePoints (negatedPoints movingPoints) wm) 0).y⟩ := by
      unfold sumAt
      rw [Nat.zero_mod, Nat.zero_mod]
    simp only [bind, Except.bind]
    rw [← hinitial, hmerge, List.singleton_append, ← List.map_cons, ← hstates]
    dsimp only
    rw [hcanonical]
  · intro p hp
    obtain ⟨state, -, rfl⟩ := List.mem_map.mp hp
    have hfixed := IsStrictRing.mem_counterClockwiseStablePoints.mp
      (vertexAt_mem hF.length_pos state.1)
    have hmoving := IsStrictRing.mem_counterClockwiseStablePoints.mp
      (vertexAt_mem hM.length_pos state.2)
    obtain ⟨m, hm, heq⟩ := List.mem_map.mp hmoving
    refine ⟨_, hfixed, m, hm, (position_sumAt hF hM state).trans ?_⟩
    show position _ + position _ = _
    rw [← heq, position_neg, sub_eq_add_neg]
  · intro f hf m hm
    obtain ⟨i, -, rfl⟩ := exists_vertexAt
      (IsStrictRing.mem_counterClockwiseStablePoints (w := wf).mpr hf)
    obtain ⟨j, -, heq⟩ := exists_vertexAt
      (IsStrictRing.mem_counterClockwiseStablePoints (w := wm).mpr
        (List.mem_map_of_mem (f := fun point : IrregularPoint K => ⟨-point.x, -point.y⟩) hm))
    have := hclosed i j
    rwa [show hM.ring.vertex j = -position m from congrArg position heq, ← sub_eq_add_neg] at this

/-! ## §5  Exactness -/

/-- The same ring, from any start and in either direction. -/
def SameBoundary (points points' : List (IrregularPoint K)) : Prop :=
  points' ~r points ∨ points' ~r points.reverse

theorem SameBoundary.mem_iff {points points' : List (IrregularPoint K)}
    (h : SameBoundary points points') {p : IrregularPoint K} : p ∈ points' ↔ p ∈ points := by
  rcases h with h | h
  · exact h.mem_iff
  · exact h.mem_iff.trans List.mem_reverse

/-- Start and direction change at most the winding. -/
theorem IsStrictRing.sameBoundary {points points' : List (IrregularPoint K)}
    {w : ConvexPolygonWinding} (h : IsStrictRing points w) (hsame : SameBoundary points points') :
    ∃ w', IsStrictRing points' w' := by
  rcases hsame with hsame | hsame
  · obtain ⟨n, rfl⟩ := hsame.symm
    exact ⟨w, h.rotate n⟩
  · obtain ⟨n, rfl⟩ := hsame.symm
    exact ⟨-w, h.reverse.rotate n⟩

theorem IsStrictRing.accepted {points : List (IrregularPoint K)} {w : ConvexPolygonWinding}
    (h : IsStrictRing points w) : Accepted points w :=
  accepted_of_validateStrictBoundary h.validate_eq

theorem IsStrictRing.mem_openInterior {polygon : IrregularPolygon K}
    (h : IsStrictRing polygon.points 1) {q : K × K} :
    q ∈ openInterior polygon ↔ h.ring.toConvexRing.Inner q := by
  rw [h.accepted.openInterior_eq]
  refine forall_congr' fun k => ?_
  rw [StrictRing.height_eq]
  show 0 < ((1 : ℤ) : K) * _ ↔ _
  rw [Int.cast_one, one_mul]
  rfl

/-- **The inside of the ring of differences** holds the translations that overlap. -/
theorem IsRelativeNfp.mem_openInterior_iff {boundary : IrregularPolygon K}
    (h : IsRelativeNfp fixedPoints movingPoints boundary.points) (hf : IsStrictRing fixedPoints wf)
    (hm : IsStrictRing movingPoints wm) (t : IrregularPoint K) :
    position t ∈ openInterior boundary ↔
      sharesPositiveArea ⟨fixedPoints⟩ (IrregularPolygon.translate ⟨movingPoints⟩ t) := by
  have hfixed : Accepted (IrregularPolygon.mk fixedPoints).points wf := hf.accepted
  have hmoving : Accepted (IrregularPolygon.mk movingPoints).points wm := hm.accepted
  rw [h.strict.mem_openInterior, ConvexRing.inner_differences_iff (F := hf.accepted.ring)
    (M := hm.accepted.ring) (fun k => ?_) (fun i j => ?_)]
  · refine exists_congr fun q => and_congr ?_ ?_
    · rw [hfixed.openInterior_eq]
      rfl
    · rw [mem_openInterior_translate, hmoving.openInterior_eq]
      rfl
  · obtain ⟨f, hfm, m, hmm, heq⟩ := h.difference _ (vertexAt_mem h.strict.length_pos k)
    obtain ⟨i, -, rfl⟩ := exists_vertexAt hfm
    obtain ⟨j, -, rfl⟩ := exists_vertexAt hmm
    exact ⟨i, j, heq⟩
  · exact h.closed _ (vertexAt_mem hf.length_pos i) _ (vertexAt_mem hm.length_pos j)

/-- **Both constructions answer with the ring of differences.** -/
theorem IsRelativeNfp.constructed {boundary : IrregularPolygon K}
    (h : IsRelativeNfp fixedPoints movingPoints boundary.points) (hf : IsStrictRing fixedPoints wf)
    (hm : IsStrictRing movingPoints wm) :
    computeRelativeNfpBoundaryReference fixedPoints movingPoints = .ok boundary ∧
      computeRelativeNfpBoundaryLinear fixedPoints movingPoints = .ok boundary := by
  obtain ⟨hull, hhull, hspec⟩ := computeRelativeNfpBoundaryReference_spec hf hm
  obtain ⟨merge, hmerge, hspec'⟩ := computeRelativeNfpBoundaryLinear_spec hf hm
  rw [hhull, hmerge, hspec.unique h, hspec'.unique h]
  exact ⟨rfl, rfl⟩

/-- **The relative no-fit polygon is exact.**  The hull of the differences and the
merge of the edges are one counter-clockwise strictly convex ring that starts at
its lowest vertex, from any start and direction of the inputs; and strictly
inside it are the translations at which the two interiors meet. -/
theorem relativeNfpBoundary_exact (hf : IsStrictRing fixedPoints wf)
    (hm : IsStrictRing movingPoints wm) :
    ∃ boundary : IrregularPolygon K,
      computeRelativeNfpBoundaryReference fixedPoints movingPoints = .ok boundary ∧
      computeRelativeNfpBoundaryLinear fixedPoints movingPoints = .ok boundary ∧
      IsStrictRing boundary.points 1 ∧ StartsLowest boundary.points ∧
      (∀ fixedPoints' movingPoints', SameBoundary fixedPoints fixedPoints' →
        SameBoundary movingPoints movingPoints' →
        computeRelativeNfpBoundaryReference fixedPoints' movingPoints' = .ok boundary ∧
          computeRelativeNfpBoundaryLinear fixedPoints' movingPoints' = .ok boundary) ∧
      ∀ t, position t ∈ openInterior boundary ↔
        sharesPositiveArea ⟨fixedPoints⟩ (IrregularPolygon.translate ⟨movingPoints⟩ t) := by
  obtain ⟨points, hreference, hspec⟩ := computeRelativeNfpBoundaryReference_spec hf hm
  have hspec : IsRelativeNfp fixedPoints movingPoints (IrregularPolygon.mk points).points := hspec
  refine ⟨⟨points⟩, hreference, (hspec.constructed hf hm).2, hspec.strict, hspec.startsLowest,
    ?_, hspec.mem_openInterior_iff hf hm⟩
  intro fixedPoints' movingPoints' hfixed hmoving
  obtain ⟨wf', hf'⟩ := hf.sameBoundary hfixed
  obtain ⟨wm', hm'⟩ := hm.sameBoundary hmoving
  exact (hspec.congr (fun _ => hfixed.mem_iff) fun _ => hmoving.mem_iff).constructed hf' hm'

end

/-- A square, and a clockwise triangle with an edge along one of its edges. -/
def exampleSquare : List (IrregularPoint ℚ) := [⟨2, 2⟩, ⟨0, 2⟩, ⟨0, 0⟩, ⟨2, 0⟩]

def exampleTriangle : List (IrregularPoint ℚ) := [⟨0, 0⟩, ⟨0, 1⟩, ⟨1, 0⟩]

theorem relativeNfpBoundary_exact_squareTriangle :
    ∃ boundary : IrregularPolygon ℚ,
      computeRelativeNfpBoundaryReference exampleSquare exampleTriangle = .ok boundary ∧
      computeRelativeNfpBoundaryLinear exampleSquare exampleTriangle = .ok boundary ∧
      StartsLowest boundary.points ∧
      ∀ t, position t ∈ openInterior boundary ↔
        sharesPositiveArea ⟨exampleSquare⟩ (IrregularPolygon.translate ⟨exampleTriangle⟩ t) := by
  have hsquare : IsStrictRing exampleSquare 1 :=
    validateStrictBoundary_eq_valid_iff.mp (by decide +kernel)
  have htriangle : IsStrictRing exampleTriangle (-1) :=
    validateStrictBoundary_eq_valid_iff.mp (by decide +kernel)
  obtain ⟨boundary, hreference, hlinear, -, hlow, -, hinside⟩ :=
    relativeNfpBoundary_exact hsquare htriangle
  exact ⟨boundary, hreference, hlinear, hlow, hinside⟩

end PolygonNesting
