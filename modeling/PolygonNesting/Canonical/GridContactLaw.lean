import PolygonNesting.Canonical.GridContact
import PolygonNesting.Canonical.GridPolygon
import PolygonNesting.Lib.Fallible
import PolygonNesting.Lib.SegmentOverlap

set_option linter.unusedSectionVars false

/-!
# What the boundary overlap measures

Without a checkpoint the score of two rings is the sum, over all pairs of their sides, of
the greater extent of the common part of the two sides; it does not depend on the order of
the rings nor on their first points.  A checkpoint only ends a measurement.  A contact is a
common part that is longer than a point.

Sides that face the same way count like sides that face each other.  Where two convex
rings run the same way round insides that do not meet, only opposite sides have a common
part longer than a point.
-/

namespace PolygonNesting

open Plane SegmentOverlap StatefulCall

/-! ## §1  Sides -/

/-- The sides of a ring, from every point to the next. -/
def sides (path : CanonicalGridPath) : List (CanonicalGridPoint × CanonicalGridPoint) :=
  path.zip (path.rotate 1)

/-- A ring has three points or more, safe coordinates, and no side of no length. -/
structure IsGridRing (path : CanonicalGridPath) : Prop where
  length : 3 ≤ path.length
  safe : ∀ p ∈ path, hasSafeCoordinates p = true
  proper : ∀ side ∈ sides path, side.1 ≠ side.2

theorem sides_rotate (path : CanonicalGridPath) (k : ℕ) :
    sides (path.rotate k) = (sides path).rotate k := by
  unfold sides
  rw [List.rotate_rotate, Nat.add_comm k 1, ← List.rotate_rotate]
  exact (List.zipWith_rotate_distrib Prod.mk path (path.rotate 1) k (by simp)).symm

theorem isGridRing_rotate (path : CanonicalGridPath) (k : ℕ) :
    IsGridRing (path.rotate k) ↔ IsGridRing path := by
  have himp : ∀ {path path' : CanonicalGridPath}, path.length = path'.length →
      (∀ p, p ∈ path ↔ p ∈ path') → (∀ side, side ∈ sides path ↔ side ∈ sides path') →
        IsGridRing path → IsGridRing path' := by
    intro path path' hlength hmem hsides h
    exact ⟨hlength ▸ h.length, fun p hp => h.safe p ((hmem p).mpr hp),
      fun side hside => h.proper side ((hsides side).mpr hside)⟩
  have hsides : ∀ side, side ∈ sides (path.rotate k) ↔ side ∈ sides path := by
    intro side
    rw [sides_rotate, List.mem_rotate]
  constructor
  · exact himp (List.length_rotate _ _) (fun p => List.mem_rotate) hsides
  · exact himp (List.length_rotate _ _).symm (fun p => List.mem_rotate.symm)
      fun side => (hsides side).symm

/-- The edge that the loop builds at an index. -/
def edgeOf (path : CanonicalGridPath) (index : ℕ) : CanonicalGridEdge :=
  ⟨path.getD index ⟨0, 0⟩, path.getD ((index + 1) % path.length) ⟨0, 0⟩, index⟩

def ringEdges (path : CanonicalGridPath) : List CanonicalGridEdge :=
  (List.range path.length).map (edgeOf path)

/-- The ends of an edge. -/
def CanonicalGridEdge.side (edge : CanonicalGridEdge) : CanonicalGridPoint × CanonicalGridPoint :=
  (edge.start, edge.finish)

theorem map_side_ringEdges (path : CanonicalGridPath) :
    (ringEdges path).map CanonicalGridEdge.side = sides path := by
  unfold ringEdges sides
  rw [List.map_map]
  refine List.ext_getElem (by simp) fun k hk _ => ?_
  have hk' : k < path.length := by simpa using hk
  simp only [List.getElem_map, List.getElem_range, List.getElem_zip, List.getElem_rotate,
    Function.comp_apply]
  unfold edgeOf CanonicalGridEdge.side
  rw [List.getD_eq_getElem _ _ hk', List.getD_eq_getElem _ _ (Nat.mod_lt _ (by omega))]

theorem gridPoint_eq {p q : CanonicalGridPoint} (hx : p.x = q.x) (hy : p.y = q.y) : p = q := by
  cases p
  cases q
  rw [CanonicalGridPoint.mk.injEq]
  exact ⟨hx, hy⟩

/-- The edge at an index is one of a side. -/
def IsEdgeOf (path : CanonicalGridPath) (index : ℕ) : Prop :=
  hasSafeCoordinates (edgeOf path index).start = true ∧
    hasSafeCoordinates (edgeOf path index).finish = true ∧
    (edgeOf path index).start ≠ (edgeOf path index).finish

theorem addPathEdge_eq (path : CanonicalGridPath) (edges : List CanonicalGridEdge) (index : ℕ) :
    (IsEdgeOf path index →
      addPathEdge (M := Except BoundaryOverlapStop) (pure ()) path edges index =
        .ok (edges ++ [edgeOf path index])) ∧
    (¬IsEdgeOf path index →
      addPathEdge (M := Except BoundaryOverlapStop) (pure ()) path edges index =
        .error .undecidable) := by
  have hequal : ∀ p q : CanonicalGridPoint, p.x = q.x ∧ p.y = q.y ↔ p = q := fun p q =>
    ⟨fun h => gridPoint_eq h.1 h.2, fun h => h ▸ ⟨rfl, rfl⟩⟩
  unfold IsEdgeOf edgeOf addPathEdge
  dsimp only
  rw [pure_bind]
  simp only [hequal]
  constructor
  · rintro ⟨hstart, hfinish, hne⟩
    rw [hstart, hfinish, decide_eq_false hne]
    rfl
  · intro h
    rw [if_pos]
    · rfl
    · by_contra hnot
      simp only [Bool.or_eq_true, Bool.not_eq_true', decide_eq_true_eq, not_or,
        Bool.not_eq_false] at hnot
      exact h ⟨hnot.1.1, hnot.1.2, hnot.2⟩

/-- A path of three points is a ring when every index has an edge. -/
theorem isGridRing_iff {path : CanonicalGridPath} (hlength : 3 ≤ path.length) :
    IsGridRing path ↔ ∀ index ∈ List.range path.length, IsEdgeOf path index := by
  have hget : ∀ k < path.length, (edgeOf path k).start ∈ path ∧ (edgeOf path k).finish ∈ path := by
    intro k hk
    unfold edgeOf
    rw [List.getD_eq_getElem _ _ hk, List.getD_eq_getElem _ _ (Nat.mod_lt _ (by omega))]
    exact ⟨List.getElem_mem _, List.getElem_mem _⟩
  have hside : ∀ side, side ∈ sides path ↔
      ∃ k ∈ List.range path.length, (edgeOf path k).side = side := by
    intro side
    rw [← map_side_ringEdges]
    unfold ringEdges
    rw [List.map_map, List.mem_map]
    rfl
  constructor
  · intro h k hk
    obtain ⟨hstart, hfinish⟩ := hget k (List.mem_range.mp hk)
    exact ⟨h.safe _ hstart, h.safe _ hfinish, h.proper _ ((hside _).mpr ⟨k, hk, rfl⟩)⟩
  · intro h
    refine ⟨hlength, fun p hp => ?_, fun side hmem => ?_⟩
    · obtain ⟨k, hk, rfl⟩ := List.getElem_of_mem hp
      have hsafe := (h k (List.mem_range.mpr hk)).1
      unfold edgeOf at hsafe
      rwa [List.getD_eq_getElem _ _ hk] at hsafe
    · obtain ⟨k, hk, rfl⟩ := (hside side).mp hmem
      exact (h k hk).2.2

/-- **The edges of a path that is a ring**; no other path has any. -/
theorem canonicalGridPathEdges_eq (path : CanonicalGridPath) :
    (IsGridRing path → canonicalGridPathEdges (M := Except BoundaryOverlapStop) (pure ()) path =
      .ok (ringEdges path)) ∧
    (¬IsGridRing path → canonicalGridPathEdges (M := Except BoundaryOverlapStop) (pure ()) path =
      .error .undecidable) := by
  unfold canonicalGridPathEdges
  rcases lt_or_ge path.length 3 with hshort | hlength
  · rw [if_pos hshort]
    exact ⟨fun h => absurd h.length (not_le.mpr hshort), fun _ => rfl⟩
  · rw [if_neg (not_lt.mpr hlength), isGridRing_iff hlength]
    constructor
    · intro h
      rw [except_foldlM_ok fun k hk edges => (addPathEdge_eq path edges k).1 (h k hk)]
      have hcollect : ∀ (l : List ℕ) (edges : List CanonicalGridEdge),
          l.foldl (fun edges k => edges ++ [edgeOf path k]) edges = edges ++ l.map (edgeOf path) := by
        intro l
        induction l with
        | nil => simp
        | cons k l ih => simp [ih]
      rw [hcollect, List.nil_append]
      rfl
    · intro h
      push Not at h
      obtain ⟨k, hk, hbad⟩ := h
      refine except_foldlM_error (fun index _ edges => ?_)
        ⟨k, hk, fun edges => (addPathEdge_eq path edges k).2 hbad⟩
      by_cases hedge : IsEdgeOf path index
      · exact .inl ⟨_, (addPathEdge_eq path edges index).1 hedge⟩
      · exact .inr ((addPathEdge_eq path edges index).2 hedge)

/-! ## §2  The overlap of two sides -/

/-- The segment of a side. -/
def sideSegment (side : CanonicalGridPoint × CanonicalGridPoint) : Set (ℝ × ℝ) :=
  segment ℝ (position (realPoint side.1)) (position (realPoint side.2))

/-- The greater extent of the common part of two sides. -/
noncomputable def commonExtent (first second : CanonicalGridPoint × CanonicalGridPoint) : ℝ :=
  Metric.diam (sideSegment first ∩ sideSegment second)

/-- The extent in whole units. -/
def overlapUnits (first second : CanonicalGridPoint × CanonicalGridPoint) : ℤ :=
  if gridCross first.1 first.2 second.1 = 0 ∧ gridCross first.1 first.2 second.2 = 0 then
    if |first.2.y - first.1.y| ≤ |first.2.x - first.1.x| then
      overlap first.1.x first.2.x second.1.x second.2.x
    else overlap first.1.y first.2.y second.1.y second.2.y
  else 0

theorem offLine_realPoint (a b c : CanonicalGridPoint) :
    offLine (position (realPoint a)) (position (realPoint b)) (position (realPoint c)) =
      gridCross a b c := by
  rw [offLine_apply]
  unfold position realPoint gridCross
  push_cast
  ring

theorem realPoint_ne {a b : CanonicalGridPoint} (h : a ≠ b) :
    position (realPoint a) ≠ position (realPoint b) := by
  intro heq
  have hx : (a.x : ℝ) = b.x := congrArg Prod.fst heq
  have hy : (a.y : ℝ) = b.y := congrArg Prod.snd heq
  exact h (gridPoint_eq (by exact_mod_cast hx) (by exact_mod_cast hy))

/-- **The units are the extent of the common part.** -/
theorem overlapUnits_eq {first : CanonicalGridPoint × CanonicalGridPoint}
    (hproper : first.1 ≠ first.2) (second : CanonicalGridPoint × CanonicalGridPoint) :
    (overlapUnits first second : ℝ) = commonExtent first second := by
  unfold overlapUnits commonExtent sideSegment
  split
  · next hline =>
      rw [diam_segment_inter_plane (realPoint_ne hproper)
        (by rw [offLine_realPoint, hline.1, Int.cast_zero])
        (by rw [offLine_realPoint, hline.2, Int.cast_zero])]
      have hlong : |first.2.y - first.1.y| ≤ |first.2.x - first.1.x| ↔
          |(position (realPoint first.2)).2 - (position (realPoint first.1)).2| ≤
            |(position (realPoint first.2)).1 - (position (realPoint first.1)).1| := by
        show _ ↔ |(first.2.y : ℝ) - first.1.y| ≤ |(first.2.x : ℝ) - first.1.x|
        norm_cast
      simp only [← hlong]
      split <;> unfold overlap position realPoint <;> push_cast <;> rfl
  · next hline =>
      rw [diam_segment_inter_off_line, Int.cast_zero]
      rw [offLine_realPoint, offLine_realPoint]
      exact_mod_cast hline

theorem overlapUnits_comm {first second : CanonicalGridPoint × CanonicalGridPoint}
    (hfirst : first.1 ≠ first.2) (hsecond : second.1 ≠ second.2) :
    overlapUnits first second = overlapUnits second first := by
  have hreal : (overlapUnits first second : ℝ) = overlapUnits second first := by
    rw [overlapUnits_eq hfirst, overlapUnits_eq hsecond]
    unfold commonExtent
    rw [Set.inter_comm]
  exact_mod_cast hreal

/-- Neither along the one axis nor along the other. -/
def IsSlanted (side : CanonicalGridPoint × CanonicalGridPoint) : Prop :=
  side.2.x - side.1.x ≠ 0 ∧ side.2.y - side.1.y ≠ 0

theorem onLine_of_overlap {first second : CanonicalGridPoint × CanonicalGridPoint}
    (h : 0 < overlapUnits first second) :
    gridCross first.1 first.2 second.1 = 0 ∧ gridCross first.1 first.2 second.2 = 0 := by
  by_contra hline
  unfold overlapUnits at h
  rw [if_neg hline] at h
  exact lt_irrefl _ h

/-- Sides on one line are slanted both or neither. -/
theorem isSlanted_of_overlap {first second : CanonicalGridPoint × CanonicalGridPoint}
    (hsecond : second.1 ≠ second.2) (h : 0 < overlapUnits first second)
    (hslanted : IsSlanted first) : IsSlanted second := by
  obtain ⟨hstart, hfinish⟩ := onLine_of_overlap h
  obtain ⟨hx, hy⟩ := hslanted
  have hparallel : (first.2.x - first.1.x) * (second.2.y - second.1.y) =
      (first.2.y - first.1.y) * (second.2.x - second.1.x) := by
    unfold gridCross at hstart hfinish
    linarith
  have hboth : second.2.x - second.1.x = 0 ∨ second.2.y - second.1.y = 0 →
      second.1 = second.2 := by
    intro hzero
    have hzeros : second.2.x - second.1.x = 0 ∧ second.2.y - second.1.y = 0 := by
      rcases hzero with hzero | hzero
      · rw [hzero, mul_zero] at hparallel
        exact ⟨hzero, (mul_eq_zero.mp hparallel).resolve_left hx⟩
      · rw [hzero, mul_zero] at hparallel
        exact ⟨(mul_eq_zero.mp hparallel.symm).resolve_left hy, hzero⟩
    exact gridPoint_eq (by omega) (by omega)
  exact ⟨fun hzero => hsecond (hboth (.inl hzero)), fun hzero => hsecond (hboth (.inr hzero))⟩

theorem safeGridPoint {point : CanonicalGridPoint} (h : hasSafeCoordinates point = true) :
    ∃ safe : SafeGridPoint, safe.toCanonicalGridPoint = point := by
  unfold hasSafeCoordinates at h
  rw [Bool.and_eq_true, decide_eq_true_eq, decide_eq_true_eq] at h
  exact ⟨⟨point, h.1, h.2⟩, rfl⟩

theorem gridCrossSign_eq {origin first second : CanonicalGridPoint}
    (ho : hasSafeCoordinates origin = true) (hf : hasSafeCoordinates first = true)
    (hs : hasSafeCoordinates second = true) :
    gridCrossSign origin first second = some (Int.sign (gridCross origin first second)) := by
  obtain ⟨o, rfl⟩ := safeGridPoint ho
  obtain ⟨f, rfl⟩ := safeGridPoint hf
  obtain ⟨s, rfl⟩ := safeGridPoint hs
  exact canonicalGridCrossSign_toNumber o f s

theorem canonicalGridCollinearOverlapAxisUnits_eq {first second : CanonicalGridEdge}
    (h1 : hasSafeCoordinates first.start = true) (h2 : hasSafeCoordinates first.finish = true)
    (h3 : hasSafeCoordinates second.start = true) (h4 : hasSafeCoordinates second.finish = true) :
    canonicalGridCollinearOverlapAxisUnits first second =
      some (overlapUnits first.side second.side) := by
  unfold canonicalGridCollinearOverlapAxisUnits
  rw [gridCrossSign_eq h1 h2 h3, gridCrossSign_eq h1 h2 h4]
  have hpositive : ∀ n : ℤ, (if 0 < n then n else 0) = max n 0 := by
    intro n
    split
    · next hn => rw [max_eq_left hn.le]
    · next hn => rw [max_eq_right (not_lt.mp hn)]
  simp only [Option.bind_eq_bind, Option.bind_some, hpositive]
  unfold overlapUnits CanonicalGridEdge.side CanonicalGridEdge.axisValue CanonicalGridEdge.useX
    overlap
  dsimp only
  by_cases hline : gridCross first.start first.finish second.start = 0 ∧
      gridCross first.start first.finish second.finish = 0
  · rw [if_pos hline, hline.1, hline.2]
    simp only [Int.sign_zero, bne_self_eq_false, Bool.or_self, Bool.false_eq_true, if_false,
      decide_eq_true_eq]
    split <;> rfl
  · rw [if_neg hline, if_pos]
    rw [Bool.or_eq_true, bne_iff_ne, bne_iff_ne, Ne, Ne, Int.sign_eq_zero_iff_zero,
      Int.sign_eq_zero_iff_zero, ← not_and_or]
    exact hline

/-! ## §3  The score -/

/-- The sum of the extents over all pairs of sides. -/
def score (first second : CanonicalGridPath) : ℤ :=
  ((sides first).map fun s => ((sides second).map fun t => overlapUnits s t).sum).sum

/-- Two slanted sides have a common part longer than a point. -/
def HasSlantedOverlap (first second : CanonicalGridPath) : Prop :=
  ∃ s ∈ sides first, ∃ t ∈ sides second, 0 < overlapUnits s t ∧ IsSlanted s

/-- The rings that a measurement compares. -/
def IsMeasurable (first second : CanonicalGridPath) : Prop :=
  IsGridRing first ∧ IsGridRing second ∧ ¬HasSlantedOverlap first second

theorem IsGridRing.safe_edge {path : CanonicalGridPath} (h : IsGridRing path)
    {edge : CanonicalGridEdge} (hedge : edge ∈ ringEdges path) :
    hasSafeCoordinates edge.start = true ∧ hasSafeCoordinates edge.finish = true := by
  obtain ⟨k, hk, rfl⟩ := List.mem_map.mp hedge
  have hedge := (isGridRing_iff h.length).mp h k hk
  exact ⟨hedge.1, hedge.2.1⟩

theorem addPairOverlap_eq {first second : CanonicalGridPath} (hfirst : IsGridRing first)
    (hsecond : IsGridRing second) {e f : CanonicalGridEdge} (he : e ∈ ringEdges first)
    (hf : f ∈ ringEdges second) (total : ℤ) :
    (¬(0 < overlapUnits e.side f.side ∧ IsSlanted e.side) →
      addPairOverlap (M := Except BoundaryOverlapStop) total e f =
        .ok (total + overlapUnits e.side f.side)) ∧
    (0 < overlapUnits e.side f.side ∧ IsSlanted e.side →
      addPairOverlap (M := Except BoundaryOverlapStop) total e f = .error .undecidable) := by
  obtain ⟨h1, h2⟩ := hfirst.safe_edge he
  obtain ⟨h3, h4⟩ := hsecond.safe_edge hf
  unfold addPairOverlap
  rw [canonicalGridCollinearOverlapAxisUnits_eq h1 h2 h3 h4]
  exact ⟨fun h => if_neg h, fun h => if_pos h⟩

theorem foldl_add_eq {α : Type} (f : α → ℤ) (l : List α) :
    ∀ total : ℤ, l.foldl (fun total a => total + f a) total = total + (l.map f).sum := by
  induction l with
  | nil => simp
  | cons a l ih =>
      intro total
      rw [List.foldl_cons, ih, List.map_cons, List.sum_cons, add_assoc]

/-- A sum over the edges is one over the sides. -/
theorem sum_ringEdges (path : CanonicalGridPath)
    (f : CanonicalGridPoint × CanonicalGridPoint → ℤ) :
    ((ringEdges path).map fun edge => f edge.side).sum = ((sides path).map f).sum := by
  rw [← map_side_ringEdges, List.map_map]
  rfl

theorem exists_edge {path : CanonicalGridPath} {side : CanonicalGridPoint × CanonicalGridPoint}
    (h : side ∈ sides path) : ∃ edge ∈ ringEdges path, edge.side = side := by
  rwa [← map_side_ringEdges, List.mem_map] at h

theorem side_mem_sides {path : CanonicalGridPath} {edge : CanonicalGridEdge}
    (h : edge ∈ ringEdges path) : edge.side ∈ sides path := by
  rw [← map_side_ringEdges]
  exact List.mem_map_of_mem h

/-- One edge against the sides of a ring. -/
theorem foldlM_addPairOverlap {first second : CanonicalGridPath} (hfirst : IsGridRing first)
    (hsecond : IsGridRing second) {e : CanonicalGridEdge} (he : e ∈ ringEdges first)
    (total : ℤ) :
    ((∀ t ∈ sides second, ¬(0 < overlapUnits e.side t ∧ IsSlanted e.side)) →
      (ringEdges second).foldlM (addPairOverlap (M := Except BoundaryOverlapStop) · e) total =
        .ok (total + ((sides second).map fun t => overlapUnits e.side t).sum)) ∧
    ((∃ t ∈ sides second, 0 < overlapUnits e.side t ∧ IsSlanted e.side) →
      (ringEdges second).foldlM (addPairOverlap (M := Except BoundaryOverlapStop) · e) total =
        .error .undecidable) := by
  constructor
  · intro h
    rw [except_foldlM_ok fun f hf total =>
      (addPairOverlap_eq hfirst hsecond he hf total).1 (h _ (side_mem_sides hf)),
      foldl_add_eq fun f : CanonicalGridEdge => overlapUnits e.side f.side,
      sum_ringEdges second fun t => overlapUnits e.side t]
  · rintro ⟨t, ht, hslanted⟩
    obtain ⟨f, hf, rfl⟩ := exists_edge ht
    refine except_foldlM_error (fun g hg total => ?_)
      ⟨f, hf, fun total => (addPairOverlap_eq hfirst hsecond he hf total).2 hslanted⟩
    by_cases hpair : 0 < overlapUnits e.side g.side ∧ IsSlanted e.side
    · exact .inr ((addPairOverlap_eq hfirst hsecond he hg total).2 hpair)
    · exact .inl ⟨_, (addPairOverlap_eq hfirst hsecond he hg total).1 hpair⟩

/-- **The measurement without a checkpoint** is the score of the rings it compares. -/
theorem boundaryOverlapAxisUnits_eq (first second : CanonicalGridPath) :
    (IsMeasurable first second →
      boundaryOverlapAxisUnits (M := Except BoundaryOverlapStop) (pure ()) first second =
        .ok (score first second)) ∧
    (¬IsMeasurable first second →
      boundaryOverlapAxisUnits (M := Except BoundaryOverlapStop) (pure ()) first second =
        .error .undecidable) := by
  by_cases hfirst : IsGridRing first
  swap
  · refine ⟨fun h => absurd h.1 hfirst, fun _ => ?_⟩
    unfold boundaryOverlapAxisUnits
    rw [(canonicalGridPathEdges_eq first).2 hfirst]
    rfl
  by_cases hsecond : IsGridRing second
  swap
  · refine ⟨fun h => absurd h.2.1 hsecond, fun _ => ?_⟩
    unfold boundaryOverlapAxisUnits
    rw [(canonicalGridPathEdges_eq first).1 hfirst, (canonicalGridPathEdges_eq second).2 hsecond]
    rfl
  have hloop : boundaryOverlapAxisUnits (M := Except BoundaryOverlapStop) (pure ()) first second =
      (ringEdges first).foldlM (fun total e => (ringEdges second).foldlM
        (addPairOverlap (M := Except BoundaryOverlapStop) · e) total) 0 := by
    unfold boundaryOverlapAxisUnits
    rw [(canonicalGridPathEdges_eq first).1 hfirst, (canonicalGridPathEdges_eq second).1 hsecond]
    rfl
  rw [hloop]
  have hnone : ¬HasSlantedOverlap first second → ∀ e ∈ ringEdges first, ∀ t ∈ sides second,
      ¬(0 < overlapUnits e.side t ∧ IsSlanted e.side) := fun h e he t ht hslanted =>
    h ⟨e.side, side_mem_sides he, t, ht, hslanted⟩
  constructor
  · rintro ⟨-, -, h⟩
    rw [except_foldlM_ok fun e he total =>
      (foldlM_addPairOverlap hfirst hsecond he total).1 (hnone h e he),
      foldl_add_eq fun e : CanonicalGridEdge =>
        ((sides second).map fun t => overlapUnits e.side t).sum,
      sum_ringEdges first fun s => ((sides second).map fun t => overlapUnits s t).sum, zero_add]
    rfl
  · intro h
    have hslanted : HasSlantedOverlap first second := by
      by_contra hnot
      exact h ⟨hfirst, hsecond, hnot⟩
    obtain ⟨s, hs, t, ht, hslanted⟩ := hslanted
    obtain ⟨e, he, rfl⟩ := exists_edge hs
    refine except_foldlM_error (fun g hg total => ?_) ⟨e, he, fun total =>
      (foldlM_addPairOverlap hfirst hsecond he total).2 ⟨t, ht, hslanted⟩⟩
    by_cases hrow : ∃ t ∈ sides second, 0 < overlapUnits g.side t ∧ IsSlanted g.side
    · exact .inr ((foldlM_addPairOverlap hfirst hsecond hg total).2 hrow)
    · push Not at hrow
      exact .inl ⟨_, (foldlM_addPairOverlap hfirst hsecond hg total).1
        fun t ht hslanted => hrow t ht hslanted.1 hslanted.2⟩

/-! ## §4  Symmetry -/

theorem score_comm {first second : CanonicalGridPath} (hfirst : IsGridRing first)
    (hsecond : IsGridRing second) : score first second = score second first := by
  unfold score
  have hswap := Multiset.sum_map_sum_map (↑(sides first) : Multiset _) (↑(sides second))
    (f := overlapUnits)
  simp only [Multiset.map_coe, Multiset.sum_coe] at hswap
  rw [hswap]
  refine congrArg List.sum (List.map_congr_left fun t ht => congrArg List.sum ?_)
  exact List.map_congr_left fun s hs =>
    overlapUnits_comm (hfirst.proper s hs) (hsecond.proper t ht)

theorem HasSlantedOverlap.swap {first second : CanonicalGridPath} (hfirst : IsGridRing first)
    (hsecond : IsGridRing second) (h : HasSlantedOverlap first second) :
    HasSlantedOverlap second first := by
  obtain ⟨s, hs, t, ht, hoverlap, hslanted⟩ := h
  refine ⟨t, ht, s, hs, ?_, isSlanted_of_overlap (hsecond.proper t ht) hoverlap hslanted⟩
  rwa [← overlapUnits_comm (hfirst.proper s hs) (hsecond.proper t ht)]

theorem isMeasurable_comm (first second : CanonicalGridPath) :
    IsMeasurable first second ↔ IsMeasurable second first := by
  have himp : ∀ {first second : CanonicalGridPath}, IsMeasurable first second →
      IsMeasurable second first := fun h =>
    ⟨h.2.1, h.1, fun hslanted => h.2.2 (hslanted.swap h.2.1 h.1)⟩
  exact ⟨himp, himp⟩

theorem score_rotate (first second : CanonicalGridPath) (k l : ℕ) :
    score (first.rotate k) (second.rotate l) = score first second := by
  unfold score
  simp only [sides_rotate]
  rw [((List.rotate_perm (sides first) k).map _).sum_eq]
  refine congrArg List.sum (List.map_congr_left fun s _ => ?_)
  exact ((List.rotate_perm (sides second) l).map _).sum_eq

theorem isMeasurable_rotate (first second : CanonicalGridPath) (k l : ℕ) :
    IsMeasurable (first.rotate k) (second.rotate l) ↔ IsMeasurable first second := by
  unfold IsMeasurable HasSlantedOverlap
  simp only [isGridRing_rotate, sides_rotate, List.mem_rotate]

/-- Two pairs of rings with the same score, or none, measure the same. -/
theorem boundaryOverlapAxisUnits_congr {first second first' second' : CanonicalGridPath}
    (hmeasurable : IsMeasurable first second ↔ IsMeasurable first' second')
    (hscore : IsMeasurable first second → score first second = score first' second') :
    boundaryOverlapAxisUnits (M := Except BoundaryOverlapStop) (pure ()) first second =
      boundaryOverlapAxisUnits (M := Except BoundaryOverlapStop) (pure ()) first' second' := by
  by_cases h : IsMeasurable first second
  · rw [(boundaryOverlapAxisUnits_eq first second).1 h,
      (boundaryOverlapAxisUnits_eq first' second').1 (hmeasurable.mp h), hscore h]
  · rw [(boundaryOverlapAxisUnits_eq first second).2 h,
      (boundaryOverlapAxisUnits_eq first' second').2 (fun h' => h (hmeasurable.mpr h'))]

/-- **The score is exact**: the sum of the extents of the common parts. -/
theorem score_eq_sum_commonExtent {first : CanonicalGridPath} (hfirst : IsGridRing first)
    (second : CanonicalGridPath) :
    (score first second : ℝ) =
      ((sides first).map fun s => ((sides second).map fun t => commonExtent s t).sum).sum := by
  unfold score
  rw [Int.cast_list_sum, List.map_map]
  refine congrArg List.sum (List.map_congr_left fun s hs => ?_)
  rw [Function.comp_apply, Int.cast_list_sum, List.map_map]
  exact congrArg List.sum
    (List.map_congr_left fun t _ => overlapUnits_eq (hfirst.proper s hs) t)

/-! ## §5  The checkpoint -/

section Relation

variable {M N : Type → Type} [Monad M] [Monad N] [MonadExceptOf BoundaryOverlapStop M]
  [MonadExceptOf BoundaryOverlapStop N] (R : MonadRelation M N)
  (hthrow : ∀ {α : Type} (e : BoundaryOverlapStop),
    R.rel (α := α) (MonadExceptOf.throw e) (MonadExceptOf.throw e))

include hthrow

theorem addPathEdge_rel {checked : M Unit} {checked' : N Unit} (h : R.rel checked checked')
    (path : CanonicalGridPath) (edges : List CanonicalGridEdge) (index : ℕ) :
    R.rel (addPathEdge checked path edges index) (addPathEdge checked' path edges index) := by
  refine R.bind h fun _ => ?_
  dsimp only
  split
  · exact hthrow _
  · exact R.pure _

theorem canonicalGridPathEdges_rel {checked : M Unit} {checked' : N Unit}
    (h : R.rel checked checked') (path : CanonicalGridPath) :
    R.rel (canonicalGridPathEdges checked path) (canonicalGridPathEdges checked' path) := by
  unfold canonicalGridPathEdges
  split
  · exact hthrow _
  · exact R.foldlM (fun edges index _ => addPathEdge_rel R hthrow h path edges index) []

theorem addPairOverlap_rel (total : ℤ) (first second : CanonicalGridEdge) :
    R.rel (addPairOverlap total first second) (addPairOverlap total first second) := by
  unfold addPairOverlap
  cases canonicalGridCollinearOverlapAxisUnits first second with
  | none => exact hthrow _
  | some axisUnits =>
      dsimp only
      split
      · exact hthrow _
      · exact R.pure _

/-- The measurement asks nothing of its monad but the checkpoint and the stops. -/
theorem boundaryOverlapAxisUnits_rel {checked : M Unit} {checked' : N Unit}
    (h : R.rel checked checked') (first second : CanonicalGridPath) :
    R.rel (boundaryOverlapAxisUnits checked first second)
      (boundaryOverlapAxisUnits checked' first second) := by
  refine R.bind (canonicalGridPathEdges_rel R hthrow h first) fun firstEdges => ?_
  refine R.bind (canonicalGridPathEdges_rel R hthrow h second) fun secondEdges => ?_
  refine R.foldlM (fun total firstEdge _ => ?_) 0
  refine R.bind h fun _ => ?_
  refine R.foldlM (fun total secondEdge _ => ?_) total
  exact R.bind h fun _ => addPairOverlap_rel R hthrow total firstEdge secondEdge

end Relation

/-- A call of the checkpoint answered no. -/
def Stops (checkpoint : Option (ℕ → Bool)) (stop : BoundaryOverlapStop) : Prop :=
  stop = .aborted ∧ ∃ callback ∈ checkpoint, ∃ call, callback call = false

section Checkpoint

variable {checkpoint : Option (ℕ → Bool)}

/-- A call answers like the pure one, or the checkpoint stops it. -/
def AnswersUnlessStopped {α : Type} (checkpoint : Option (ℕ → Bool))
    (call : ExceptT BoundaryOverlapStop (StateT ℕ Option) α)
    (answer : Except BoundaryOverlapStop α) : Prop :=
  AnswersLike (fun _ => True) (Stops checkpoint) call answer

theorem checkedCall_answers :
    AnswersUnlessStopped checkpoint (checkedCall checkpoint) (pure ()) := by
  cases checkpoint with
  | none => exact .pure ()
  | some callback =>
      intro call _
      have hrun : (checkedCall (some callback)).run.run call =
          ((if callback call then pure () else throw .aborted :
            ExceptT BoundaryOverlapStop (StateT ℕ Option) Unit).run.run (call + 1)) := rfl
      cases hcall : callback call with
      | true =>
          refine ⟨.ok (), call + 1, ?_, trivial, .inl rfl⟩
          rw [hrun, hcall]
          rfl
      | false =>
          refine ⟨.error .aborted, call + 1, ?_, trivial,
            .inr ⟨.aborted, ⟨rfl, callback, rfl, call, hcall⟩, rfl⟩⟩
          rw [hrun, hcall]
          rfl

theorem boundaryOverlapAxisUnits_answers (first second : CanonicalGridPath) :
    AnswersUnlessStopped checkpoint (boundaryOverlapAxisUnits (checkedCall checkpoint) first second)
      (boundaryOverlapAxisUnits (M := Except BoundaryOverlapStop) (pure ()) first second) :=
  boundaryOverlapAxisUnits_rel (answersLike (fun _ => True) (Stops checkpoint))
    (fun e => AnswersLike.throw e) checkedCall_answers first second

end Checkpoint

/-- What is measured when no call of the checkpoint answers no. -/
def uncheckedResult (first second : CanonicalGridPath) :
    CanonicalGridBoundaryOverlapAxisUnitsResult :=
  overlapResult (boundaryOverlapAxisUnits (M := Except BoundaryOverlapStop) (pure ()) first second)

/-- **A checkpoint only ends a measurement**, and only by a call that answers no. -/
theorem measureCanonicalGridBoundaryOverlapAxisUnits_eq (first second : CanonicalGridPath)
    (checkpoint : Option (ℕ → Bool)) :
    measureCanonicalGridBoundaryOverlapAxisUnits first second checkpoint =
        some (uncheckedResult first second) ∨
      measureCanonicalGridBoundaryOverlapAxisUnits first second checkpoint = some .aborted ∧
        ∃ callback ∈ checkpoint, ∃ call, callback call = false := by
  obtain ⟨result, call, hrun, -, hresult⟩ :=
    (boundaryOverlapAxisUnits_answers first second : AnswersUnlessStopped checkpoint _ _) 0 trivial
  have hmeasure : measureCanonicalGridBoundaryOverlapAxisUnits first second checkpoint =
      some (overlapResult result) :=
    congrArg (Option.map fun answer : Except BoundaryOverlapStop ℤ × ℕ =>
      overlapResult answer.1) hrun
  rw [hmeasure]
  rcases hresult with rfl | ⟨e, ⟨rfl, hno⟩, rfl⟩
  · exact .inl rfl
  · exact .inr ⟨rfl, hno⟩

/-- **The score of every pair of paths.** -/
theorem uncheckedResult_eq_measured_iff (first second : CanonicalGridPath) (units : ℤ) :
    uncheckedResult first second = .measured units ↔
      IsMeasurable first second ∧ score first second = units := by
  unfold uncheckedResult
  by_cases h : IsMeasurable first second
  · rw [(boundaryOverlapAxisUnits_eq first second).1 h]
    unfold overlapResult
    rw [CanonicalGridBoundaryOverlapAxisUnitsResult.measured.injEq, and_iff_right h]
  · rw [(boundaryOverlapAxisUnits_eq first second).2 h]
    unfold overlapResult
    simp [h]

theorem uncheckedResult_comm (first second : CanonicalGridPath) :
    uncheckedResult first second = uncheckedResult second first :=
  congrArg overlapResult (boundaryOverlapAxisUnits_congr (isMeasurable_comm first second)
    fun h => score_comm h.1 h.2.1)

theorem uncheckedResult_rotate (first second : CanonicalGridPath) (k l : ℕ) :
    uncheckedResult (first.rotate k) (second.rotate l) = uncheckedResult first second :=
  congrArg overlapResult (boundaryOverlapAxisUnits_congr (isMeasurable_rotate first second k l)
    fun _ => score_rotate first second k l)

end PolygonNesting
