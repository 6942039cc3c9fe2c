import PolygonNesting.Canonical.GridContactLaw

set_option linter.unusedSectionVars false

/-!
# Rings that touch

Where two convex rings run the same way round insides that do not meet, sides with a common
part longer than a point face each other.  A positive contact is found exactly where two sides
have a common part longer than a point.
-/

namespace PolygonNesting

open Plane SegmentOverlap

/-! ## §1  Facing sides -/

/-- Negative for two sides of one line that face each other. -/
def facing (first second : CanonicalGridPoint × CanonicalGridPoint) : ℤ :=
  (first.2.x - first.1.x) * (second.2.x - second.1.x) +
    (first.2.y - first.1.y) * (second.2.y - second.1.y)

theorem exists_vertex_of_side {path : CanonicalGridPath} {w : ConvexPolygonWinding}
    (h : IsStrictRing (realPolygon path).points w)
    {side : CanonicalGridPoint × CanonicalGridPoint} (hside : side ∈ sides path) :
    ∃ k, h.convexRing.vertex k = position (realPoint side.1) ∧
      h.convexRing.vertex (k + 1) = position (realPoint side.2) := by
  obtain ⟨edge, hedge, rfl⟩ := exists_edge hside
  obtain ⟨k, hk, rfl⟩ := List.mem_map.mp hedge
  have hk : k < path.length := List.mem_range.mp hk
  have hpos : 0 < path.length := Nat.zero_lt_of_lt hk
  have hvertex : ∀ j, h.convexRing.vertex j =
      position (realPoint (path.get ⟨j % path.length, Nat.mod_lt j hpos⟩)) := fun j =>
    congrArg position (vertexAt_map hpos j realPoint)
  refine ⟨k, ?_, ?_⟩
  · rw [hvertex]
    unfold CanonicalGridEdge.side edgeOf
    rw [List.getD_eq_getElem _ _ hk, List.get_eq_getElem]
    simp only [Nat.mod_eq_of_lt hk]
  · rw [hvertex]
    unfold CanonicalGridEdge.side edgeOf
    rw [List.getD_eq_getElem _ _ (Nat.mod_lt _ hpos), List.get_eq_getElem]

/-- **Sides with a common part face each other.** -/
theorem facing_neg {first second : CanonicalGridPath} {w : ConvexPolygonWinding}
    (hfirst : IsStrictRing (realPolygon first).points w)
    (hsecond : IsStrictRing (realPolygon second).points w)
    (happart : ¬sharesGridArea first second)
    {s t : CanonicalGridPoint × CanonicalGridPoint} (hs : s ∈ sides first)
    (ht : t ∈ sides second) (hlong : 0 < commonExtent s t) : facing s t < 0 := by
  obtain ⟨i, hi, hi'⟩ := exists_vertex_of_side hfirst hs
  obtain ⟨j, hj, hj'⟩ := exists_vertex_of_side hsecond ht
  have hinner : ∀ {path : CanonicalGridPath} (h : IsStrictRing (realPolygon path).points w),
      openInterior (realPolygon path) = {q | h.convexRing.Inner q} :=
    fun h => Accepted.openInterior_eq _
  have happart' : ¬∃ p, hfirst.convexRing.Inner p ∧ hsecond.convexRing.Inner p := by
    rintro ⟨p, hp, hp'⟩
    refine happart ⟨p, ?_, ?_⟩
    · rw [hinner hfirst]
      exact hp
    · rw [hinner hsecond]
      exact hp'
  have hneg := heading_neg (i := i) (j := j) (R := hfirst.convexRing) (S := hsecond.convexRing)
    rfl happart' (by
      rw [hi, hi', hj, hj']
      exact hlong.ne')
  have hcast : heading (hfirst.convexRing.vertex i) (hfirst.convexRing.vertex (i + 1))
      (hsecond.convexRing.vertex j) (hsecond.convexRing.vertex (j + 1)) = (facing s t : ℝ) := by
    rw [hi, hi', hj, hj']
    unfold heading facing position realPoint
    push_cast
    rfl
  rw [hcast] at hneg
  exact_mod_cast hneg

/-! ## §2  Positive contact -/

/-- Two sides of the rings have a common part longer than a point. -/
def ShareBoundary (first second : CanonicalGridPath) : Prop :=
  ∃ s ∈ sides first, ∃ t ∈ sides second, 0 < commonExtent s t

theorem shareBoundary_comm {first second : CanonicalGridPath} :
    ShareBoundary first second ↔ ShareBoundary second first := by
  have himp : ∀ {first second : CanonicalGridPath}, ShareBoundary first second →
      ShareBoundary second first := by
    rintro first second ⟨s, hs, t, ht, hlong⟩
    refine ⟨t, ht, s, hs, ?_⟩
    unfold commonExtent at hlong ⊢
    rwa [Set.inter_comm]
  exact ⟨himp, himp⟩

section Contact

variable (F : Type) [LinearOrder F] [Zero F] [One F] [Add F] [Sub F] [Neg F]
  [Mul F] [Div F] [JsMath F]

/-- A length is positive where the units are. -/
theorem canonicalGridCollinearOverlap_pos_iff {first second : CanonicalGridEdge} {units : ℤ}
    (hunits : canonicalGridCollinearOverlapAxisUnits first second = some units) {lengthMm : F}
    (h : canonicalGridCollinearOverlap F first second = some lengthMm) :
    0 < lengthMm ↔ 0 < units := by
  unfold canonicalGridCollinearOverlap at h
  rw [hunits, Option.bind_eq_bind, Option.bind_some] at h
  split at h
  · next hzero =>
      rw [← Option.some.inj h]
      simp [hzero]
  · next hpositive =>
      obtain ⟨edgeLengthMm, -, h⟩ := Option.bind_eq_some_iff.mp h
      dsimp only at h
      split at h
      · cases h
      · split at h
        · next hlength =>
            rw [Bool.and_eq_true, decide_eq_true_eq] at hlength
            rw [← Option.some.inj h]
            exact ⟨fun _ => not_le.mp hpositive, fun _ => hlength.2⟩
        · cases h

theorem hasPositiveContactOfPairs_iff {first second : CanonicalGridPath}
    (hfirst : IsGridRing first) (hsecond : IsGridRing second) :
    ∀ {pairs : List (CanonicalGridEdge × CanonicalGridEdge)} {answer : Bool},
      (∀ pair ∈ pairs, pair.1 ∈ ringEdges first ∧ pair.2 ∈ ringEdges second) →
      hasPositiveContactOfPairs F pairs = some answer →
      (answer = true ↔ ∃ pair ∈ pairs, 0 < overlapUnits pair.1.side pair.2.side)
  | [], answer, _, h => by
      rw [← Option.some.inj h]
      simp
  | (e, f) :: rest, answer, hpairs, h => by
      obtain ⟨he, hf⟩ := hpairs (e, f) List.mem_cons_self
      obtain ⟨h1, h2⟩ := hfirst.safe_edge he
      obtain ⟨h3, h4⟩ := hsecond.safe_edge hf
      have hunits := canonicalGridCollinearOverlapAxisUnits_eq h1 h2 h3 h4
      rw [hasPositiveContactOfPairs] at h
      obtain ⟨lengthMm, hlength, h⟩ := Option.bind_eq_some_iff.mp h
      have hpositive := canonicalGridCollinearOverlap_pos_iff F hunits hlength
      split at h
      · next hlong =>
          rw [← Option.some.inj h]
          simp [hpositive.mp hlong]
      · next hshort =>
          rw [hasPositiveContactOfPairs_iff hfirst hsecond
            (fun pair hpair => hpairs pair (List.mem_cons_of_mem _ hpair)) h]
          simp [mt hpositive.mpr hshort]

theorem preparedEdges_eq_some {path : CanonicalGridPath} {edges : List CanonicalGridEdge}
    (h : preparedEdges path = some edges) : IsGridRing path ∧ edges = ringEdges path := by
  unfold preparedEdges at h
  by_cases hring : IsGridRing path
  · rw [(canonicalGridPathEdges_eq path).1 hring] at h
    exact ⟨hring, (Option.some.inj h).symm⟩
  · rw [(canonicalGridPathEdges_eq path).2 hring] at h
    cases h

/-- **A contact is a shared part of the boundary.** -/
theorem hasPositiveCanonicalGridBoundaryContact_iff {first second : CanonicalGridPath}
    {answer : Bool}
    (h : hasPositiveCanonicalGridBoundaryContact F first second = some answer) :
    answer = true ↔ ShareBoundary first second := by
  obtain ⟨firstEdges, hfirstEdges, h⟩ := Option.bind_eq_some_iff.mp h
  obtain ⟨secondEdges, hsecondEdges, h⟩ := Option.bind_eq_some_iff.mp h
  obtain ⟨hfirst, rfl⟩ := preparedEdges_eq_some hfirstEdges
  obtain ⟨hsecond, rfl⟩ := preparedEdges_eq_some hsecondEdges
  have hmem : ∀ pair, (pair ∈ (ringEdges first).flatMap fun e =>
      (ringEdges second).map fun f => (e, f)) ↔
        pair.1 ∈ ringEdges first ∧ pair.2 ∈ ringEdges second := by
    rintro ⟨e, f⟩
    simp only [List.mem_flatMap, List.mem_map, Prod.mk.injEq]
    constructor
    · rintro ⟨e, he, f, hf, rfl, rfl⟩
      exact ⟨he, hf⟩
    · rintro ⟨he, hf⟩
      exact ⟨e, he, f, hf, rfl, rfl⟩
  rw [hasPositiveContactOfPairs_iff F hfirst hsecond (fun pair hpair => (hmem pair).mp hpair) h]
  have hextent : ∀ s ∈ sides first, ∀ t, 0 < overlapUnits s t ↔ 0 < commonExtent s t := by
    intro s hs t
    rw [← overlapUnits_eq (hfirst.proper s hs)]
    exact Int.cast_pos.symm
  constructor
  · rintro ⟨⟨e, f⟩, hpair, hlong⟩
    obtain ⟨he, hf⟩ := (hmem _).mp hpair
    exact ⟨e.side, side_mem_sides he, f.side, side_mem_sides hf,
      (hextent _ (side_mem_sides he) _).mp hlong⟩
  · rintro ⟨s, hs, t, ht, hlong⟩
    obtain ⟨e, he, rfl⟩ := exists_edge hs
    obtain ⟨f, hf, rfl⟩ := exists_edge ht
    exact ⟨(e, f), (hmem _).mpr ⟨he, hf⟩, (hextent _ hs _).mpr hlong⟩

end Contact

end PolygonNesting
