import PolygonNesting.Geometry.StrictConvex
import PolygonNesting.Lib.EdgeMerge

set_option linter.unusedSectionVars false

/-!
# The rings the boundary validator accepts

In exact arithmetic `validateStrictBoundary` accepts exactly the strictly
convex rings: at least three vertices, none repeated, and every vertex strictly
on one side of every edge that does not end in it.  The direction and the
first vertex of the list do not matter.
-/

namespace PolygonNesting

open Plane

variable {K : Type} [Field K] [LinearOrder K] [IsStrictOrderedRing K] [FloorRing K]

/-- A strictly convex ring: `w` is `1` counter-clockwise and `-1` clockwise. -/
structure IsStrictRing (points : List (IrregularPoint K)) (w : ConvexPolygonWinding) :
    Prop where
  length : 3 ≤ points.length
  winding : w = 1 ∨ w = -1
  nodup : points.Nodup
  side : ∀ e ∈ boundaryEdges points, ∀ p ∈ points, p ≠ e.start → p ≠ e.finish →
    orientationOf e.start e.finish p = w

/-! ## §1  By index -/

omit [Field K] [LinearOrder K] [IsStrictOrderedRing K] [FloorRing K] in
theorem vertexAt_eq_iff {F : Type} [Zero F] {points : List (IrregularPoint F)}
    (h : points.Nodup) (hpos : 0 < points.length) {i j : ℕ} :
    vertexAt points i = vertexAt points j ↔ i ≡ j [MOD points.length] := by
  rw [← vertexAt_mod points i, ← vertexAt_mod points j, vertexAt_of_lt (Nat.mod_lt i hpos),
    vertexAt_of_lt (Nat.mod_lt j hpos), h.getElem_inj_iff]
  rfl

omit [Field K] [LinearOrder K] [IsStrictOrderedRing K] [FloorRing K] in
theorem position_injective : Function.Injective (position (K := K)) := by
  rintro ⟨x, y⟩ ⟨x', y'⟩ h
  obtain ⟨rfl, rfl⟩ := Prod.mk.inj h
  rfl

namespace IsStrictRing

variable {points : List (IrregularPoint K)} {w : ConvexPolygonWinding}

omit [IsStrictOrderedRing K] in
theorem length_pos (h : IsStrictRing points w) : 0 < points.length :=
  lt_of_lt_of_le (by norm_num) h.length

theorem cross_pos (h : IsStrictRing points w) {i j : ℕ} (hi : ¬j ≡ i [MOD points.length])
    (hi' : ¬j ≡ i + 1 [MOD points.length]) :
    0 < (w : K) * cross (position (vertexAt points i)) (position (vertexAt points (i + 1)))
      (position (vertexAt points j)) := by
  refine (orientationOf_eq_iff h.winding).mp
    (h.side (edgeAt points i) (edgeAt_mem_boundaryEdges h.length_pos i) _
      (vertexAt_mem h.length_pos j) ?_ ?_)
  · exact fun heq => hi ((vertexAt_eq_iff h.nodup h.length_pos).mp heq)
  · exact fun heq => hi' ((vertexAt_eq_iff h.nodup h.length_pos).mp heq)

/-- The ring, mirrored to turn left if it is clockwise. -/
def mirrored (h : IsStrictRing points w) : StrictRing K where
  size := points.length
  vertex k := ((w : K) * (vertexAt points k).x, (vertexAt points k).y)
  three_le := h.length
  periodic k := by simp only [periodic_vertexAt points k]
  left i j hi hi' := by
    have hpos := h.cross_pos hi hi'
    have hmirror : ∀ a b c : IrregularPoint K, cross ((w : K) * a.x, a.y) ((w : K) * b.x, b.y)
        ((w : K) * c.x, c.y) = (w : K) * cross (position a) (position b) (position c) := by
      intro a b c
      simp only [cross, position]
      ring
    rw [hmirror]
    exact hpos

/-- A counter-clockwise ring. -/
def ring (h : IsStrictRing points 1) : StrictRing K where
  size := points.length
  vertex k := position (vertexAt points k)
  three_le := h.length
  periodic := Accepted.periodic_position points
  left i j hi hi' := by
    have hpos := h.cross_pos hi hi'
    rwa [Int.cast_one, one_mul] at hpos

end IsStrictRing

/-- The list of a strict ring. -/
theorem isStrictRing_of_ring (R : StrictRing K) {points : List (IrregularPoint K)}
    (hsize : R.size = points.length)
    (hvertex : ∀ k, R.vertex k = position (vertexAt points k)) : IsStrictRing points 1 := by
  have hmod : ∀ {i j}, vertexAt points i = vertexAt points j → i ≡ j [MOD R.size] := by
    intro i j h
    refine R.vertex_eq_iff.mp ?_
    rw [hvertex, hvertex, h]
  have hlen : 3 ≤ points.length := hsize ▸ R.three_le
  refine ⟨hlen, .inl rfl, ?_, ?_⟩
  · rw [List.nodup_iff_injective_getElem]
    rintro ⟨i, hi⟩ ⟨j, hj⟩ heq
    have hij := hmod (i := i) (j := j) (by
      rw [vertexAt_of_lt hi, vertexAt_of_lt hj]
      exact heq)
    rw [Nat.ModEq, hsize, Nat.mod_eq_of_lt hi, Nat.mod_eq_of_lt hj] at hij
    exact Fin.ext hij
  · rintro e he p hp hstart hfinish
    obtain ⟨i, -, rfl⟩ := mem_boundaryEdges.mp he
    obtain ⟨j, -, rfl⟩ := exists_vertexAt hp
    rw [orientationOf_eq_iff (.inl rfl), Int.cast_one, one_mul]
    show 0 < cross (position (vertexAt points i)) (position (vertexAt points (i + 1))) _
    rw [← hvertex, ← hvertex, ← hvertex]
    refine R.left i j (fun h => hstart ?_) (fun h => hfinish ?_)
    · refine position_injective ?_
      rw [← hvertex, R.vertex_of_modEq h, hvertex]
      rfl
    · refine position_injective ?_
      rw [← hvertex, R.vertex_of_modEq h, hvertex]
      rfl

/-! ## §2  What is accepted is strict -/

namespace Accepted

variable {points : List (IrregularPoint K)} {w : ConvexPolygonWinding}

/-- A ring that comes back early goes around more than once. -/
theorem vertexAt_ne_of_revolution (h : Accepted points w)
    (hrev : completesOneRevolution (boundaryEdges points) = true) {i j : ℕ} (hij : i < j)
    (hj : j < points.length) : vertexAt points i ≠ vertexAt points j := by
  intro heq
  obtain ⟨t, ht, hstop, honce⟩ := exists_stop h.length_pos hrev
  have hshift : ∀ k, vertexAt points (t + k + (j - i)) = vertexAt points (t + k) := by
    intro k
    have hrun := ConvexRing.vertex_shift (R := h.ring) (i := i) (j := j)
      (congrArg position heq) (t + k + (points.length - i))
    have := position_injective hrun
    rw [show i + (t + k + (points.length - i)) = t + k + points.length by omega,
      show j + (t + k + (points.length - i)) = t + k + (j - i) + points.length by omega,
      periodic_vertexAt, periodic_vertexAt] at this
    exact this.symm
  -- the stop, one round earlier
  have hvertex : ∀ k, vertexAt points ((t + (j - i)) % points.length + k) =
      vertexAt points (t + k) := by
    intro k
    rw [← vertexAt_mod, Nat.mod_add_mod, vertexAt_mod,
      show t + (j - i) + k = t + k + (j - i) by omega, hshift]
  have hedge : ∀ k, edgeAt points ((t + (j - i)) % points.length + k) = edgeAt points (t + k) := by
    intro k
    unfold edgeAt
    rw [hvertex k, Nat.add_assoc, hvertex (k + 1), Nat.add_assoc]
  have hsame := honce ((t + (j - i)) % points.length) (Nat.mod_lt _ h.length_pos)
    ((congrArg pointsDownwards (hedge 0)).trans hstop.1)
    ((congrArg pointsDownwards (hedge 1)).trans hstop.2)
  rcases Nat.lt_or_ge (t + (j - i)) points.length with hlt | hge
  · rw [Nat.mod_eq_of_lt hlt] at hsame
    omega
  · rw [Nat.mod_eq_sub_mod hge, Nat.mod_eq_of_lt (by omega)] at hsame
    omega

/-- A ring that comes back early touches itself. -/
theorem vertexAt_ne_of_no_intersection (h : Accepted points w)
    (hno : hasSelfIntersection (boundaryEdges points) = false) {i j : ℕ} (hij : i < j)
    (hj : j < points.length) : vertexAt points i ≠ vertexAt points j := by
  have hne : ∀ k, vertexAt points k ≠ vertexAt points (k + 1) := fun k heq =>
    ConvexRing.vertex_ne (R := h.ring) k (congrArg position heq)
  intro heq
  cases hadj : areAdjacentEdges i j points.length with
  | true =>
    unfold areAdjacentEdges at hadj
    rw [Bool.or_eq_true, Bool.and_eq_true, beq_iff_eq, beq_iff_eq, beq_iff_eq] at hadj
    rcases hadj with rfl | ⟨rfl, rfl⟩
    · exact hne i heq
    · refine hne (points.length - 1) (heq.symm.trans ?_)
      rw [show points.length - 1 + 1 = 0 + points.length by omega, periodic_vertexAt]
  | false =>
    have hfree := hasSelfIntersection_eq_false_iff.mp hno i j hij hj hadj
    rw [segmentsIntersect_of_common (s := 0) (t := 0) le_rfl zero_le_one le_rfl zero_le_one]
      at hfree
    · cases hfree
    · rw [AffineMap.lineMap_apply_zero, AffineMap.lineMap_apply_zero]
      exact congrArg position heq

theorem isStrictRing (h : Accepted points w) : IsStrictRing points w := by
  refine ⟨h.length, h.winding, ?_, ?_⟩
  · rw [List.nodup_iff_injective_getElem]
    have hne : ∀ {i j}, i < j → j < points.length →
        vertexAt points i ≠ vertexAt points j := fun hij hj =>
      h.simple.elim (fun hrev => h.vertexAt_ne_of_revolution hrev hij hj)
        fun hno => h.vertexAt_ne_of_no_intersection hno hij hj
    rintro ⟨i, hi⟩ ⟨j, hj⟩ heq
    change points[i] = points[j] at heq
    rw [← vertexAt_of_lt hi, ← vertexAt_of_lt hj] at heq
    rcases Nat.lt_trichotomy i j with hlt | rfl | hlt
    · exact absurd heq (hne hlt hj)
    · rfl
    · exact absurd heq.symm (hne hlt hi)
  · rintro e he p hp hstart hfinish
    obtain ⟨i, -, rfl⟩ := mem_boundaryEdges.mp he
    obtain ⟨j, -, rfl⟩ := exists_vertexAt hp
    rw [orientationOf_eq_iff h.winding]
    refine (h.ring.convex i j).lt_of_ne fun hz => ?_
    rcases ConvexRing.eq_of_height_vertex_eq_zero (R := h.ring) hz.symm with heq | heq
    · exact hstart (position_injective heq)
    · exact hfinish (position_injective heq)

end Accepted

/-! ## §3  What is strict is accepted -/

namespace IsStrictRing

variable {points : List (IrregularPoint K)} {w : ConvexPolygonWinding}

theorem turn_eq (h : IsStrictRing points w) (k : ℕ) :
    orientationOf (vertexAt points k) (vertexAt points (k + 1)) (vertexAt points (k + 2)) = w :=
  (orientationOf_eq_iff h.winding).mpr
    (h.cross_pos (h.mirrored.not_modEq_add (by omega) (by omega) k)
      (h.mirrored.not_modEq_add (d := 1) (by omega) (by omega) (k + 1)))

/-- The turn scan sees one winding. -/
theorem scanTurnsFrom_eq {F : Type} [LinearOrder F] [Zero F] [Neg F] [JsNumber F]
    {v : ConvexPolygonWinding} (hv : v ≠ 0) :
    ∀ {cs : List (IrregularPoint F × IrregularPoint F × IrregularPoint F)}
      {established : Option ConvexPolygonWinding},
      (∀ c ∈ cs, orientationOf c.1 c.2.1 c.2.2 = v) →
      (∀ e ∈ established, e = v) → (cs ≠ [] ∨ established = some v) →
      scanTurnsFrom established cs = ⟨some v, none⟩
  | [], _, _, _, hsome => by
    rw [hsome.resolve_left fun h => h rfl]
    rfl
  | (a, b, c) :: rest, established, hall, hest, _ => by
    have hturn := hall _ List.mem_cons_self
    dsimp only at hturn
    unfold scanTurnsFrom
    rw [hturn, if_neg hv]
    have hrest : scanTurnsFrom (some v) rest = ⟨some v, none⟩ :=
      scanTurnsFrom_eq hv (fun x hx => hall x (List.mem_cons_of_mem _ hx))
        (fun e he => (Option.some.inj he).symm) (.inr rfl)
    cases established with
    | none => exact hrest
    | some e =>
      obtain rfl := hest e rfl
      exact (if_neg (not_not.mpr rfl)).trans hrest

theorem scanTurns_eq (h : IsStrictRing points w) : scanTurns points = ⟨some w, none⟩ := by
  have hlen := h.length_pos
  have hw : w ≠ 0 := by
    rcases h.winding with rfl | rfl <;> decide
  refine scanTurnsFrom_eq hw ?_ (fun e he => absurd he (Option.not_mem_none e)) (.inl ?_)
  · rw [corners_eq_map]
    intro c hc
    obtain ⟨k, -, rfl⟩ := List.mem_map.mp hc
    have hturn := h.turn_eq (k + (points.length - 1))
    rw [show k + (points.length - 1) + 1 = k + points.length by omega,
      show k + (points.length - 1) + 2 = k + 1 + points.length by omega,
      periodic_vertexAt, periodic_vertexAt] at hturn
    exact hturn
  · rw [corners_eq_map]
    intro hnil
    have := List.map_eq_nil_iff.mp hnil
    rw [List.range_eq_nil] at this
    omega

/-- No two edges apart meet: the ends of the one are on one side of the other. -/
theorem no_intersection (h : IsStrictRing points w) :
    hasSelfIntersection (boundaryEdges points) = false := by
  rw [Accepted.hasSelfIntersection_eq_false_iff]
  have hw : w ≠ 0 := by
    rcases h.winding with rfl | rfl <;> decide
  have hside : ∀ i j, i < points.length → j < points.length → j ≠ i → j ≠ (i + 1) % points.length →
      orientationOf (edgeAt points i).start (edgeAt points i).finish (vertexAt points j) = w := by
    intro i j hi hj hne hne'
    refine h.side _ (edgeAt_mem_boundaryEdges h.length_pos i) _ (vertexAt_mem h.length_pos j) ?_ ?_
    · intro heq
      have := (vertexAt_eq_iff h.nodup h.length_pos).mp heq
      rw [Nat.ModEq, Nat.mod_eq_of_lt hi, Nat.mod_eq_of_lt hj] at this
      exact hne this
    · intro heq
      have := (vertexAt_eq_iff h.nodup h.length_pos).mp heq
      rw [Nat.ModEq, Nat.mod_eq_of_lt hj] at this
      exact hne' this
  intro a b hab hb hadj
  unfold areAdjacentEdges at hadj
  rw [Bool.or_eq_false_iff, Bool.and_eq_false_iff, beq_eq_false_iff_ne, beq_eq_false_iff_ne,
    beq_eq_false_iff_ne] at hadj
  have hb' : (b + 1) % points.length = if b + 1 = points.length then 0 else b + 1 := by
    split
    · next hend => rw [hend, Nat.mod_self]
    · exact Nat.mod_eq_of_lt (by omega)
  have ha' : (a + 1) % points.length = a + 1 := Nat.mod_eq_of_lt (by omega)
  have hfinish : ∀ k, (edgeAt points k).finish = vertexAt points ((k + 1) % points.length) :=
    fun k => (vertexAt_mod points (k + 1)).symm
  have hlt : (b + 1) % points.length < points.length := Nat.mod_lt _ h.length_pos
  have h1 := hside a b (by omega) hb (by omega) (by omega)
  have h2 := hside a ((b + 1) % points.length) (by omega) hlt (by rw [hb']; split <;> omega)
    (by rw [hb', ha']; split <;> omega)
  have h3 := hside b a hb (by omega) (by omega) (by rw [hb']; split <;> omega)
  have h4 := hside b ((a + 1) % points.length) hb (by omega) (by omega)
    (by rw [hb', ha']; split <;> omega)
  rw [← hfinish] at h2 h4
  unfold segmentsIntersect
  rw [show (edgeAt points b).start = vertexAt points b from rfl,
    show (edgeAt points a).start = vertexAt points a from rfl] at *
  simp only [h1, h2, h3, h4, beq_eq_false_iff_ne.mpr hw, Bool.false_and, Bool.or_self, bne_self_eq_false]

/-- The edges stop pointing downwards once. -/
theorem one_revolution (h : IsStrictRing points w) :
    completesOneRevolution (boundaryEdges points) = true := by
  obtain ⟨t, ht, honce⟩ := h.mirrored.exists_unique_stop
  have hper : edgeAt points points.length = edgeAt points 0 := by
    have := periodic_vertexAt points
    simp only [edgeAt, Nat.zero_add]
    rw [← Nat.zero_add points.length, this, Nat.zero_add, Nat.add_comm, this]
  rw [completesOneRevolution, beq_iff_eq, boundaryEdges_eq_map,
    Accepted.revolutions_map h.length_pos hper]
  have hstop : ∀ k ∈ List.range points.length,
      (pointsDownwards (edgeAt points k) && !pointsDownwards (edgeAt points (k + 1))) = (k == t) := by
    intro k hk
    rw [Bool.eq_iff_iff, Bool.and_eq_true, Bool.not_eq_true', beq_iff_eq,
      ← honce k (List.mem_range.mp hk)]
    refine and_congr ?_ ?_
    · rw [pointsDownwards, decide_eq_true_iff]
      exact sub_neg.symm
    · rw [pointsDownwards, decide_eq_false_iff_not, not_lt]
      exact sub_nonneg.symm
  rw [List.countP_congr fun k hk => by rw [hstop k hk]]
  exact List.count_eq_one_of_mem List.nodup_range (List.mem_range.mpr ht)

/-- **A strict ring is accepted, with its winding.** -/
theorem validate_eq (h : IsStrictRing points w) : validateStrictBoundary points = .valid w := by
  have hlen := h.length
  unfold validateStrictBoundary
  rw [if_neg (by omega), if_neg (by
    rw [Bool.not_eq_true, List.any_eq_false]
    exact fun _ _ => by simp [isFinitePoint, JsNumber.isFinite])]
  dsimp only
  rw [if_neg, scanTurns_eq h, h.one_revolution, h.no_intersection]
  · simp
  · rw [Bool.not_eq_true, List.any_eq_false]
    intro e he
    obtain ⟨k, -, rfl⟩ := mem_boundaryEdges.mp he
    rw [decide_eq_true_iff]
    rintro ⟨hx, hy⟩
    refine ConvexRing.vertex_ne (R := h.mirrored.toConvexRing) k ?_
    show ((w : K) * _, _) = ((w : K) * _, _)
    exact Prod.ext (congrArg ((w : K) * ·) hx) hy

end IsStrictRing

/-- **Exactly the strictly convex rings are accepted.** -/
theorem validateStrictBoundary_eq_valid_iff {points : List (IrregularPoint K)}
    {w : ConvexPolygonWinding} :
    validateStrictBoundary points = .valid w ↔ IsStrictRing points w :=
  ⟨fun h => (accepted_of_validateStrictBoundary h).isStrictRing, IsStrictRing.validate_eq⟩

/-- Every vertex that is neither end of an edge lies strictly on the `w` side of it. -/
def OnSide (points : List (IrregularPoint K)) (w : ConvexPolygonWinding) : Prop :=
  ∀ i < points.length, ∀ j < points.length, j ≠ i → j ≠ (i + 1) % points.length →
    orientationOf (vertexAt points i) (vertexAt points (i + 1)) (vertexAt points j) = w

theorem IsStrictRing.onSide {points : List (IrregularPoint K)} {w : ConvexPolygonWinding}
    (h : IsStrictRing points w) : OnSide points w := by
  intro i hi j hj hstart hfinish
  refine (orientationOf_eq_iff h.winding).mpr (h.cross_pos ?_ ?_)
  · rwa [Nat.ModEq, Nat.mod_eq_of_lt hi, Nat.mod_eq_of_lt hj]
  · rwa [Nat.ModEq, Nat.mod_eq_of_lt hj]

/-- A vertex that comes twice is not strictly on any side of an edge it begins or ends. -/
theorem OnSide.nodup {points : List (IrregularPoint K)} {w : ConvexPolygonWinding}
    (h : OnSide points w) (hlength : 3 ≤ points.length) (hw : w = 1 ∨ w = -1) :
    points.Nodup := by
  have hzero : ∀ o f : IrregularPoint K, orientationOf o f o ≠ w ∧ orientationOf o f f ≠ w := by
    intro o f
    rw [orientationOf_eq, orientationOf_eq, cross_left, cross_right]
    rcases hw with rfl | rfl <;> simp
  rw [List.nodup_iff_injective_getElem]
  rintro ⟨i, hi⟩ ⟨j, hj⟩ heq
  have hsame : vertexAt points i = vertexAt points j := by
    rw [vertexAt_of_lt hi, vertexAt_of_lt hj]
    exact heq
  by_contra hij
  have hij' : j ≠ i := fun h => hij (Fin.ext h.symm)
  by_cases hnext : j = (i + 1) % points.length
  · -- the edge before `i` ends in `i`, and `j` is not its start
    have hbefore : (i + (points.length - 1)) % points.length < points.length :=
      Nat.mod_lt _ (by omega)
    have hstart : j ≠ (i + (points.length - 1)) % points.length := by
      intro hprev
      have hmod : i + 1 ≡ i + (points.length - 1) [MOD points.length] := hnext.symm.trans hprev
      have hone : (1 : ℕ) ≡ points.length - 1 [MOD points.length] := Nat.ModEq.add_left_cancel' i hmod
      rw [Nat.ModEq, Nat.mod_eq_of_lt (by omega), Nat.mod_eq_of_lt (by omega)] at hone
      omega
    have hfinish : ((i + (points.length - 1)) % points.length + 1) % points.length = i := by
      rw [Nat.mod_add_mod, show i + (points.length - 1) + 1 = i + points.length by omega,
        Nat.add_mod_right, Nat.mod_eq_of_lt hi]
    have hturn := h _ hbefore j hj hstart (by rwa [hfinish])
    rw [← vertexAt_mod points ((i + (points.length - 1)) % points.length + 1), hfinish,
      hsame] at hturn
    exact (hzero _ _).2 hturn
  · have hturn := h i hi j hj hij' hnext
    rw [hsame] at hturn
    exact (hzero _ _).1 hturn

theorem isStrictRing_iff_onSide {points : List (IrregularPoint K)} {w : ConvexPolygonWinding} :
    IsStrictRing points w ↔
      3 ≤ points.length ∧ (w = 1 ∨ w = -1) ∧ OnSide points w := by
  constructor
  · exact fun h => ⟨h.length, h.winding, h.onSide⟩
  · rintro ⟨hlength, hw, hside⟩
    refine ⟨hlength, hw, hside.nodup hlength hw, ?_⟩
    rintro e he p hp hstart hfinish
    obtain ⟨i, hi, rfl⟩ := mem_boundaryEdges.mp he
    obtain ⟨j, hj, rfl⟩ := exists_vertexAt hp
    refine hside i hi j hj (fun hij => hstart (by rw [hij]; rfl)) fun hij => hfinish ?_
    rw [hij, vertexAt_mod]
    rfl

/-- The two tests of a simple ring agree where every corner turns the same way. -/
theorem completesOneRevolution_eq_not_hasSelfIntersection {points : List (IrregularPoint K)}
    (hlength : 3 ≤ points.length) {w : ConvexPolygonWinding} (hw : w ≠ 0)
    (hturn : ∀ corner ∈ corners points,
      orientationOf corner.1 corner.2.1 corner.2.2 = w) :
    completesOneRevolution (boundaryEdges points) =
      !hasSelfIntersection (boundaryEdges points) := by
  have hcorner : ∀ k, orientationOf (vertexAt points k) (vertexAt points (k + 1))
      (vertexAt points (k + 2)) = w := fun k => hturn _ (mem_corners (by omega) k)
  have hwinding : w = 1 ∨ w = -1 := by
    rw [← hcorner 0] at hw ⊢
    exact (orientationOf_trichotomy _ _ _).resolve_left hw
  cases hrev : completesOneRevolution (boundaryEdges points) with
  | true =>
    have hring : Accepted points w := ⟨hlength, hwinding, hcorner, .inl hrev⟩
    rw [hring.isStrictRing.no_intersection, Bool.not_false]
  | false =>
    cases hself : hasSelfIntersection (boundaryEdges points) with
    | true => rfl
    | false =>
      have hring : Accepted points w := ⟨hlength, hwinding, hcorner, .inr hself⟩
      rw [hring.isStrictRing.one_revolution] at hrev
      cases hrev

/-- **Exactly the strictly convex rings of at least three vertices are accepted**, and
the count of revolutions and the sweep over all pairs of edges agree on every ring
whose corners all turn the same way. -/
theorem validateStrictBoundary_exact (points : List (IrregularPoint K)) :
    (∀ w : ConvexPolygonWinding, validateStrictBoundary points = .valid w ↔
      3 ≤ points.length ∧ (w = 1 ∨ w = -1) ∧ OnSide points w) ∧
    (3 ≤ points.length → ∀ w : ConvexPolygonWinding, w ≠ 0 →
      (∀ corner ∈ corners points, orientationOf corner.1 corner.2.1 corner.2.2 = w) →
      completesOneRevolution (boundaryEdges points) =
        !hasSelfIntersection (boundaryEdges points)) :=
  ⟨fun _ => validateStrictBoundary_eq_valid_iff.trans isStrictRing_iff_onSide,
    fun hlength _ => completesOneRevolution_eq_not_hasSelfIntersection hlength⟩

/-- A triangle is on the inner side of its edges, which do not meet. -/
theorem validateStrictBoundary_exact_triangle :
    OnSide [(⟨0, 0⟩ : IrregularPoint ℚ), ⟨1, 0⟩, ⟨0, 1⟩] 1 ∧
      completesOneRevolution (boundaryEdges [(⟨0, 0⟩ : IrregularPoint ℚ), ⟨1, 0⟩, ⟨0, 1⟩]) =
        !hasSelfIntersection (boundaryEdges [(⟨0, 0⟩ : IrregularPoint ℚ), ⟨1, 0⟩, ⟨0, 1⟩]) := by
  obtain ⟨haccepted, hrevolution⟩ :=
    validateStrictBoundary_exact [(⟨0, 0⟩ : IrregularPoint ℚ), ⟨1, 0⟩, ⟨0, 1⟩]
  exact ⟨((haccepted 1).mp (by decide +kernel)).2.2,
    hrevolution (by decide) 1 (by decide) (by decide +kernel)⟩

/-- A list of two points has no vertex off its edges, and is not accepted. -/
theorem validateStrictBoundary_two_points :
    ¬ ∀ (points : List (IrregularPoint ℚ)) (w : ConvexPolygonWinding), w = 1 ∨ w = -1 →
      (validateStrictBoundary points = .valid w ↔ OnSide points w) := by
  intro h
  have hside : OnSide [(⟨0, 0⟩ : IrregularPoint ℚ), ⟨1, 0⟩] 1 := by
    intro i hi j hj hstart hfinish
    simp only [List.length_cons, List.length_nil] at hi hj hfinish
    omega
  have haccepted := (h [⟨0, 0⟩, ⟨1, 0⟩] 1 (.inl rfl)).mpr hside
  exact absurd haccepted (by decide)

/-! ## §4  Start and direction -/

theorem orientationOf_swap (o f s : IrregularPoint K) :
    orientationOf f o s = -orientationOf o f s := by
  rw [orientationOf_eq, orientationOf_eq, cross_swap]
  rcases lt_trichotomy (cross (position o) (position f) (position s)) 0 with h | h | h
  · simp [h, h.le]
  · simp [h]
  · simp [h, h.le]

section

variable {points : List (IrregularPoint K)} {w : ConvexPolygonWinding}

omit [Field K] [LinearOrder K] [IsStrictOrderedRing K] [FloorRing K] in
theorem vertexAt_rotate {F : Type} [Zero F] {points : List (IrregularPoint F)}
    (h : 0 < points.length) (s k : ℕ) :
    vertexAt (points.rotate s) k = vertexAt points (k + s) := by
  unfold vertexAt
  rw [List.length_rotate, List.getD_eq_getElem _ _ (by
    rw [List.length_rotate]
    exact Nat.mod_lt _ h), List.getElem_rotate, List.getD_eq_getElem _ _ (Nat.mod_lt _ h)]
  simp only [Nat.mod_add_mod]

theorem vertexAt_reverse {k : ℕ} (h : k < points.length) :
    vertexAt points.reverse k = vertexAt points (points.length - 1 - k) := by
  rw [vertexAt_of_lt (by rwa [List.length_reverse]), List.getElem_reverse,
    vertexAt_of_lt (by omega)]

theorem mem_boundaryEdges_of_rotate {s : ℕ} {e : BoundaryEdge K}
    (h : e ∈ boundaryEdges (points.rotate s)) : e ∈ boundaryEdges points := by
  obtain ⟨k, hk, rfl⟩ := mem_boundaryEdges.mp h
  rw [List.length_rotate] at hk
  have hpos : 0 < points.length := by omega
  unfold edgeAt
  rw [vertexAt_rotate hpos, vertexAt_rotate hpos, show k + 1 + s = k + s + 1 by omega]
  exact edgeAt_mem_boundaryEdges hpos (k + s)

theorem mem_boundaryEdges_of_reverse {e : BoundaryEdge K}
    (h : e ∈ boundaryEdges points.reverse) : ⟨e.finish, e.start⟩ ∈ boundaryEdges points := by
  obtain ⟨k, hk, rfl⟩ := mem_boundaryEdges.mp h
  rw [List.length_reverse] at hk
  have hpos : 0 < points.length := by omega
  have hstart : vertexAt points.reverse k = vertexAt points (points.length - 1 - k) :=
    vertexAt_reverse hk
  rcases Nat.lt_or_ge (k + 1) points.length with hlt | hge
  · have hfinish : vertexAt points.reverse (k + 1) =
        vertexAt points (points.length - 1 - (k + 1)) := vertexAt_reverse hlt
    have hmem := edgeAt_mem_boundaryEdges hpos (points.length - 1 - (k + 1))
    unfold edgeAt at hmem ⊢
    rwa [show points.length - 1 - (k + 1) + 1 = points.length - 1 - k by omega, ← hstart,
      ← hfinish] at hmem
  · -- the closing edge
    have hfinish : vertexAt points.reverse (k + 1) = vertexAt points (points.length - 1) := by
      have hperiod := periodic_vertexAt points.reverse 0
      rw [List.length_reverse, vertexAt_reverse hpos] at hperiod
      rw [show k + 1 = 0 + points.length by omega, hperiod, Nat.sub_zero]
    have hmem := edgeAt_mem_boundaryEdges hpos (points.length - 1)
    unfold edgeAt at hmem ⊢
    rw [show points.length - 1 + 1 = 0 + points.length by omega, periodic_vertexAt,
      show 0 = points.length - 1 - k by omega, ← hstart, ← hfinish] at hmem
    exact hmem

namespace IsStrictRing

theorem rotate (h : IsStrictRing points w) (s : ℕ) : IsStrictRing (points.rotate s) w := by
  refine ⟨by rw [List.length_rotate]; exact h.length, h.winding, List.nodup_rotate.mpr h.nodup, ?_⟩
  intro e he p hp
  exact h.side e (mem_boundaryEdges_of_rotate he) p (List.mem_rotate.mp hp)

theorem reverse (h : IsStrictRing points w) : IsStrictRing points.reverse (-w) := by
  refine ⟨by rw [List.length_reverse]; exact h.length, ?_, List.nodup_reverse.mpr h.nodup, ?_⟩
  · rcases h.winding with rfl | rfl
    · exact .inr rfl
    · exact .inl rfl
  · intro e he p hp hstart hfinish
    rw [orientationOf_swap, h.side _ (mem_boundaryEdges_of_reverse he) p (List.mem_reverse.mp hp)
      hfinish hstart]

end IsStrictRing

end

end PolygonNesting
