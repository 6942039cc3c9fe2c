import Mathlib.Data.List.GetD
import PolygonNesting.Geometry.Convex
import PolygonNesting.Lib.ConvexRing
import PolygonNesting.Lib.RingConvexity
import PolygonNesting.Lib.SegmentCrossing

/-!
# What the boundary validator accepts

In exact arithmetic a ring that `validateStrictBoundary` accepts is strictly
convex: it turns strictly to the reported side at every vertex, and every
vertex is on that side of every edge line.  Both simple-ring procedures are
covered, the count of revolutions and the test of all pairs of edges.
-/

namespace PolygonNesting

open Plane

/-! ## §1  Points and lists -/

section Lists

variable {F : Type} [Zero F]

/-- The vertices of a ring, repeated for ever. -/
def vertexAt (points : List (IrregularPoint F)) (k : ℕ) : IrregularPoint F :=
  points.getD (k % points.length) ⟨0, 0⟩

def edgeAt (points : List (IrregularPoint F)) (k : ℕ) : BoundaryEdge F :=
  ⟨vertexAt points k, vertexAt points (k + 1)⟩

theorem vertexAt_mod (points : List (IrregularPoint F)) (k : ℕ) :
    vertexAt points (k % points.length) = vertexAt points k := by
  unfold vertexAt
  rw [Nat.mod_mod]

theorem periodic_vertexAt (points : List (IrregularPoint F)) :
    Function.Periodic (vertexAt points) points.length := fun k => by
  unfold vertexAt
  rw [Nat.add_mod_right]

theorem vertexAt_mem {points : List (IrregularPoint F)} (h : 0 < points.length)
    (k : ℕ) : vertexAt points k ∈ points := by
  unfold vertexAt
  rw [List.getD_eq_getElem _ _ (Nat.mod_lt k h)]
  exact List.getElem_mem _

theorem vertexAt_of_lt {points : List (IrregularPoint F)} {k : ℕ}
    (h : k < points.length) : vertexAt points k = points[k] := by
  unfold vertexAt
  rw [Nat.mod_eq_of_lt h, List.getD_eq_getElem _ _ h]

theorem exists_vertexAt {points : List (IrregularPoint F)} {p : IrregularPoint F}
    (h : p ∈ points) : ∃ k < points.length, vertexAt points k = p := by
  obtain ⟨k, hk, rfl⟩ := List.getElem_of_mem h
  exact ⟨k, hk, vertexAt_of_lt hk⟩

theorem boundaryEdges_eq_map (points : List (IrregularPoint F)) :
    boundaryEdges points = (List.range points.length).map (edgeAt points) := by
  cases points with
  | nil => rfl
  | cons first rest =>
      refine List.ext_getElem (by simp [boundaryEdges]) fun k hk hk' => ?_
      have hlt : k < (first :: rest).length := by simpa using hk'
      simp only [boundaryEdges, List.getElem_zipWith, List.getElem_map,
        List.getElem_range, edgeAt, List.tail_cons]
      rw [vertexAt_of_lt hlt]
      congr 1
      rcases Nat.lt_or_ge k rest.length with h | h
      · rw [List.getElem_append_left h, vertexAt_of_lt (by simpa using h)]
        rfl
      · obtain rfl : k = rest.length := by simp at hlt; omega
        simp [vertexAt]

theorem mem_boundaryEdges {points : List (IrregularPoint F)} {e : BoundaryEdge F} :
    e ∈ boundaryEdges points ↔ ∃ k < points.length, edgeAt points k = e := by
  simp [boundaryEdges_eq_map]

theorem edgeAt_mem_boundaryEdges {points : List (IrregularPoint F)}
    (h : 0 < points.length) (k : ℕ) : edgeAt points k ∈ boundaryEdges points := by
  refine mem_boundaryEdges.mpr ⟨k % points.length, Nat.mod_lt k h, ?_⟩
  unfold edgeAt
  rw [vertexAt_mod, ← vertexAt_mod points (k % points.length + 1),
    Nat.mod_add_mod, vertexAt_mod]

theorem corners_eq_map (points : List (IrregularPoint F)) :
    corners points = (List.range points.length).map fun k =>
      (vertexAt points (k + (points.length - 1)), vertexAt points k,
        vertexAt points (k + 1)) := by
  cases points with
  | nil => rfl
  | cons first rest =>
      have hlast : (first :: rest).getLast? =
          some ((first :: rest).getLast (by simp)) :=
        List.getLast?_eq_some_getLast _
      refine List.ext_getElem ?_ fun k hk hk' => ?_
      · simp [corners, hlast]
      · have hlt : k < (first :: rest).length := by simpa using hk'
        simp only [corners, hlast, List.getElem_zip, List.getElem_map,
          List.getElem_range, List.tail_cons, List.length_cons]
        refine Prod.ext ?_ (Prod.ext (vertexAt_of_lt hlt).symm ?_)
        · cases k with
          | zero =>
              rw [List.getElem_cons_zero, Nat.zero_add, Nat.add_sub_cancel,
                vertexAt_of_lt (by simp)]
              exact List.getLast_eq_getElem _
          | succ k =>
              rw [List.getElem_cons_succ, List.getElem_dropLast,
                show k + 1 + (rest.length + 1 - 1) =
                  k + (first :: rest).length by simp; omega,
                periodic_vertexAt, vertexAt_of_lt (by simp at hlt ⊢; omega)]
        · rcases Nat.lt_or_ge k rest.length with h | h
          · dsimp only
            rw [List.getElem_append_left h, vertexAt_of_lt (by simpa using h)]
            rfl
          · obtain rfl : k = rest.length := by simp at hlt; omega
            simp [vertexAt]

/-- The corner at each vertex is scanned. -/
theorem mem_corners {points : List (IrregularPoint F)} (h : 0 < points.length)
    (k : ℕ) : (vertexAt points k, vertexAt points (k + 1), vertexAt points (k + 2)) ∈
      corners points := by
  rw [corners_eq_map]
  refine List.mem_map.mpr ⟨(k + 1) % points.length,
    List.mem_range.mpr (Nat.mod_lt _ h), ?_⟩
  have hbefore : vertexAt points ((k + 1) % points.length + (points.length - 1)) =
      vertexAt points k := by
    rw [← vertexAt_mod, Nat.mod_add_mod, vertexAt_mod,
      show k + 1 + (points.length - 1) = k + points.length by omega,
      periodic_vertexAt]
  rw [hbefore, vertexAt_mod, ← vertexAt_mod points ((k + 1) % points.length + 1),
    Nat.mod_add_mod, vertexAt_mod]

end Lists

/-! ## §2  Exact signs -/

section Exact

variable {K : Type} [Field K] [LinearOrder K] [IsStrictOrderedRing K] [FloorRing K]

/-- A point as a pair of coordinates. -/
def position (p : IrregularPoint K) : K × K := (p.x, p.y)

theorem orientationOf_eq (o f s : IrregularPoint K) :
    orientationOf o f s =
      if cross (position o) (position f) (position s) < 0 then -1
      else if 0 < cross (position o) (position f) (position s) then 1 else 0 := by
  have h : orient2d o.x o.y f.x f.y s.x s.y =
      -cross (position o) (position f) (position s) := by
    simp only [orient2d, JsNumber.robustOrient2d, cross, position]
    ring
  simp only [orientationOf, orientation, h, neg_pos, neg_lt_zero]

theorem orientationOf_eq_zero_iff {o f s : IrregularPoint K} :
    orientationOf o f s = 0 ↔
      cross (position o) (position f) (position s) = 0 := by
  rw [orientationOf_eq]
  split
  · next h => simp [h.ne]
  · next h =>
    split
    · next h' => simp [h'.ne']
    · next h' => simp [le_antisymm (not_lt.mp h') (not_lt.mp h)]

/-- The orientation is the sign of the cross product. -/
theorem orientationOf_eq_iff {o f s : IrregularPoint K} {w : Int}
    (hw : w = 1 ∨ w = -1) :
    orientationOf o f s = w ↔
      0 < (w : K) * cross (position o) (position f) (position s) := by
  rw [orientationOf_eq]
  rcases hw with rfl | rfl
  · split
    · next h => simp [h.le]
    · split
      · next h => simp [h]
      · next h => simp [not_lt.mp h]
  · split
    · next h => simp [h]
    · next h =>
      split
      · simp [not_lt.mp h]
      · simp [not_lt.mp h]

theorem orientationOf_trichotomy (o f s : IrregularPoint K) :
    orientationOf o f s = 0 ∨ orientationOf o f s = 1 ∨
      orientationOf o f s = -1 := by
  rw [orientationOf_eq]
  split
  · exact .inr (.inr rfl)
  · split
    · exact .inr (.inl rfl)
    · exact .inl rfl

/-! ## §3  The validator, inverted -/

omit [FloorRing K] [IsStrictOrderedRing K] [Field K] [LinearOrder K] in
theorem scanTurnsFrom_winding {F : Type} [LinearOrder F] [Zero F] [Neg F]
    [JsNumber F] {v : ConvexPolygonWinding} :
    ∀ {cs : List (IrregularPoint F × IrregularPoint F × IrregularPoint F)}
      {established : Option ConvexPolygonWinding},
      (scanTurnsFrom established cs).failure = none →
      (scanTurnsFrom established cs).winding = some v →
      (∀ e, established = some e → e = v) ∧
        ∀ c ∈ cs, orientationOf c.1 c.2.1 c.2.2 = v ∧ v ≠ 0
  | [], established, _, hw => by
      refine ⟨fun e he => ?_, by simp⟩
      subst he
      exact Option.some.inj hw
  | (a, b, c) :: rest, established, hf, hw => by
      unfold scanTurnsFrom at hf hw
      dsimp only at hf hw
      split at hf
      · simp at hf
      · next hturn =>
        rw [if_neg hturn] at hw
        cases established with
        | none =>
            obtain ⟨h1, h2⟩ := scanTurnsFrom_winding hf hw
            obtain rfl := h1 _ rfl
            refine ⟨by simp, fun x hx => ?_⟩
            rcases List.mem_cons.mp hx with rfl | hx
            · exact ⟨rfl, hturn⟩
            · exact h2 x hx
        | some e =>
            dsimp only at hf hw
            split at hf
            · simp at hf
            · next hsame =>
              rw [if_neg hsame] at hw
              obtain ⟨h1, h2⟩ := scanTurnsFrom_winding hf hw
              obtain rfl := h1 _ rfl
              refine ⟨fun e' he' => (Option.some.inj he').symm, fun x hx => ?_⟩
              rcases List.mem_cons.mp hx with rfl | hx
              · have := not_not.mp hsame
                exact ⟨this, this ▸ hturn⟩
              · exact h2 x hx

/-- What acceptance says about a ring, before any geometry. -/
structure Accepted (points : List (IrregularPoint K)) (w : ConvexPolygonWinding) :
    Prop where
  length : 3 ≤ points.length
  winding : w = 1 ∨ w = -1
  turn : ∀ k, orientationOf (vertexAt points k) (vertexAt points (k + 1))
    (vertexAt points (k + 2)) = w
  simple : completesOneRevolution (boundaryEdges points) = true ∨
    hasSelfIntersection (boundaryEdges points) = false

theorem accepted_of_validateStrictBoundary {points : List (IrregularPoint K)}
    {w : ConvexPolygonWinding} (h : validateStrictBoundary points = .valid w) :
    Accepted points w := by
  unfold validateStrictBoundary at h
  split at h
  · simp at h
  next hlen =>
  split at h
  · simp at h
  dsimp only at h
  split at h
  · simp at h
  generalize hself : (if ((scanTurns points).failure.isNone &&
      supportsLinearTopologyDecision points) = true then
      !completesOneRevolution (boundaryEdges points)
    else hasSelfIntersection (boundaryEdges points)) = selfIntersects at h
  cases selfIntersects with
  | true => simp at h
  | false =>
      have hlen' : 3 ≤ points.length := not_lt.mp hlen
      have hsplit : (scanTurns points).failure = none ∧
          (scanTurns points).winding = some w := by
        cases hf : (scanTurns points).failure with
        | some message => simp [hf] at h
        | none =>
            cases hw : (scanTurns points).winding with
            | none => simp [hf, hw] at h
            | some v => simpa [hf, hw] using h
      have hturn : ∀ k, orientationOf (vertexAt points k)
          (vertexAt points (k + 1)) (vertexAt points (k + 2)) = w ∧ w ≠ 0 :=
        fun k => (scanTurnsFrom_winding hsplit.1 hsplit.2).2 _
          (mem_corners (by omega) k)
      refine ⟨hlen', ?_, fun k => (hturn k).1, ?_⟩
      · have hne := (hturn 0).2
        rcases orientationOf_trichotomy (vertexAt points 0)
          (vertexAt points (0 + 1)) (vertexAt points (0 + 2)) with h0 | h0 | h0 <;>
          rw [(hturn 0).1] at h0
        · exact absurd h0 hne
        · exact .inl h0
        · exact .inr h0
      · split at hself
        · exact .inl (by simpa using hself)
        · exact .inr hself

namespace Accepted

variable {points : List (IrregularPoint K)} {w : ConvexPolygonWinding}

theorem cross_pos (h : Accepted points w) (k : ℕ) :
    0 < (w : K) * cross (position (vertexAt points k))
      (position (vertexAt points (k + 1))) (position (vertexAt points (k + 2))) :=
  (orientationOf_eq_iff h.winding).mp (h.turn k)

omit [IsStrictOrderedRing K] in
theorem length_pos (h : Accepted points w) : 0 < points.length :=
  lt_of_lt_of_le (by norm_num) h.length

omit [LinearOrder K] [IsStrictOrderedRing K] [FloorRing K] in
theorem periodic_position (points : List (IrregularPoint K)) :
    Function.Periodic (fun k => position (vertexAt points k)) points.length :=
  fun k => congrArg position (periodic_vertexAt points k)

/-! ### One revolution -/

omit [Field K] [FloorRing K] [IsStrictOrderedRing K] in
theorem revolutions_map {f : ℕ → BoundaryEdge K} {n : ℕ} (hn : 0 < n)
    (hper : f n = f 0) :
    revolutions ((List.range n).map f) = (List.range n).countP fun k =>
      pointsDownwards (f k) && !pointsDownwards (f (k + 1)) := by
  obtain ⟨m, rfl⟩ : ∃ m, n = m + 1 := ⟨n - 1, by omega⟩
  have hcons : (List.range (m + 1)).map f =
      f 0 :: (List.range m).map fun k => f (k + 1) := by
    rw [List.range_succ_eq_map, List.map_cons, List.map_map]
    rfl
  have hnext : ((List.range m).map fun k => f (k + 1)) ++ [f 0] =
      (List.range (m + 1)).map fun k => f (k + 1) := by
    rw [List.range_succ, List.map_append, List.map_singleton, hper]
  have hrev : revolutions ((List.range (m + 1)).map f) =
      (((List.range (m + 1)).map f).zip
        ((List.range (m + 1)).map fun k => f (k + 1))).countP fun pair =>
          pointsDownwards pair.1 && !pointsDownwards pair.2 := by
    rw [← hnext, hcons]
    rfl
  rw [hrev, List.zip_map', List.countP_map]
  rfl

omit [FloorRing K] [IsStrictOrderedRing K] in
/-- One position stops pointing downwards, and only one. -/
theorem exists_stop {points : List (IrregularPoint K)} (hn : 0 < points.length)
    (h : completesOneRevolution (boundaryEdges points) = true) :
    ∃ t < points.length,
      (pointsDownwards (edgeAt points t) = true ∧
        pointsDownwards (edgeAt points (t + 1)) = false) ∧
      ∀ k < points.length, pointsDownwards (edgeAt points k) = true →
        pointsDownwards (edgeAt points (k + 1)) = false → k = t := by
  have hper : edgeAt points points.length = edgeAt points 0 := by
    have := periodic_vertexAt points
    simp only [edgeAt, Nat.zero_add]
    rw [← Nat.zero_add points.length, this, Nat.zero_add, Nat.add_comm, this]
  rw [completesOneRevolution, beq_iff_eq, boundaryEdges_eq_map,
    revolutions_map hn hper, List.countP_eq_length_filter,
    List.length_eq_one_iff] at h
  obtain ⟨t, ht⟩ := h
  have hmem : ∀ k, k ∈ (List.range points.length).filter (fun k =>
      pointsDownwards (edgeAt points k) && !pointsDownwards (edgeAt points (k + 1))) ↔
      k = t := by
    intro k
    rw [ht, List.mem_singleton]
  simp only [List.mem_filter, List.mem_range, Bool.and_eq_true,
    Bool.not_eq_true'] at hmem
  obtain ⟨hlt, hstop⟩ := (hmem t).mpr rfl
  exact ⟨t, hlt, hstop, fun k hk h1 h2 => (hmem k).mp ⟨hk, h1, h2⟩⟩

theorem convex_of_revolution (h : Accepted points w)
    (hrev : completesOneRevolution (boundaryEdges points) = true) (i j : ℕ) :
    0 ≤ (w : K) * cross (position (vertexAt points i))
      (position (vertexAt points (i + 1))) (position (vertexAt points j)) := by
  obtain ⟨t, ht, hstop, honce⟩ := exists_stop h.length_pos hrev
  -- mirror a clockwise ring, so that it turns left
  let p : ℕ → K × K := fun k =>
    ((w : K) * (vertexAt points k).x, (vertexAt points k).y)
  have hcross : ∀ a b c, cross (p a) (p b) (p c) =
      (w : K) * cross (position (vertexAt points a)) (position (vertexAt points b))
        (position (vertexAt points c)) := by
    intro a b c
    simp only [cross, p, position]
    ring
  have hper : Function.Periodic p points.length := fun k => by
    simp only [p, periodic_vertexAt points k]
  have hdown : ∀ k, pointsDownwards (edgeAt points k) = true ↔
      (p (k + 1)).2 < (p k).2 := fun k => decide_eq_true_iff
  have hdownper : Function.Periodic (fun k => (p (k + 1)).2 < (p k).2)
      points.length := fun k => by
    show ((p (k + points.length + 1)).2 < (p (k + points.length)).2) = _
    rw [hper k, show k + points.length + 1 = k + 1 + points.length by omega,
      hper (k + 1)]
  obtain ⟨m, hm, hblocks⟩ := exists_blocks hdownper ht
    ⟨(hdown t).mp hstop.1, fun hd => by simp [(hdown (t + 1)).mpr hd] at hstop⟩
    (fun k hk h1 h2 => honce k hk ((hdown k).mpr h1) (by
      rw [← Bool.not_eq_true]
      exact fun hd => h2 ((hdown (k + 1)).mp hd)))
  have hone : OneRevolution (fun k => p (t + 1 + k)) points.length m := by
    refine ⟨fun k => ?_, fun k hk => ?_, fun k hmk hk => ?_, hm⟩
    · rw [← cross_turn]
      show 0 < cross (p (t + 1 + k)) (p (t + 1 + k + 1)) (p (t + 1 + k + 2))
      rw [hcross]
      exact h.cross_pos _
    · have := mt (hblocks k (by omega)).mp (by omega)
      exact sub_nonneg.mpr (not_lt.mp this)
    · exact sub_neg.mpr ((hblocks k hk).mpr hmk)
  have hconv := hone.convex (periodic_shift hper (t + 1)) h.length_pos
  -- back to the indices of the ring
  have hshift : ∀ k, ∃ l, p (t + 1 + l) = p k ∧ p (t + 1 + (l + 1)) = p (k + 1) := by
    intro k
    refine ⟨k + (points.length - 1 - t), ?_, ?_⟩
    · rw [show t + 1 + (k + (points.length - 1 - t)) = k + points.length by omega,
        hper]
    · rw [show t + 1 + (k + (points.length - 1 - t) + 1) =
        k + 1 + points.length by omega, hper]
  obtain ⟨a, ha, ha'⟩ := hshift i
  obtain ⟨b, hb, -⟩ := hshift j
  have := hconv a b
  rw [← hcross, ← ha, ← ha', ← hb]
  exact this

/-! ### No self-intersection -/

omit [FloorRing K] in
/-- A point of a segment is in its box. -/
theorem pointIsOnSegment_lineMap {e : BoundaryEdge K} {q : IrregularPoint K}
    {t : K} (h0 : 0 ≤ t) (h1 : t ≤ 1)
    (hq : AffineMap.lineMap (position e.start) (position e.finish) t = position q) :
    pointIsOnSegment q e = true := by
  have hx := congrArg Prod.fst hq
  have hy := congrArg Prod.snd hq
  rw [lineMap_fst] at hx
  rw [lineMap_snd] at hy
  have hbetween : ∀ {a b c : K}, a + t * (b - a) = c →
      min a b ≤ c ∧ c ≤ max a b := fun hc => hc ▸ box_of_param h0 h1
  unfold pointIsOnSegment
  simp only [Bool.and_eq_true, decide_eq_true_eq]
  exact ⟨⟨hbetween hx, (hbetween hy).1⟩, (hbetween hy).2⟩

/-- The turn towards two points on opposite sides of a line differs. -/
theorem orientationOf_ne_of_opposite {o f a b : IrregularPoint K}
    (h : (cross (position o) (position f) (position a) < 0 ∧
        0 < cross (position o) (position f) (position b)) ∨
      (0 < cross (position o) (position f) (position a) ∧
        cross (position o) (position f) (position b) < 0)) :
    orientationOf o f a ≠ orientationOf o f b := by
  rw [orientationOf_eq, orientationOf_eq]
  rcases h with ⟨h1, h2⟩ | ⟨h1, h2⟩
  · rw [if_pos h1, if_neg (not_lt.mpr h2.le), if_pos h2]
    decide
  · rw [if_neg (not_lt.mpr h1.le), if_pos h1, if_pos h2]
    decide

/-- **Edges with a common point intersect**, as the validator tests it. -/
theorem segmentsIntersect_of_common {e f : BoundaryEdge K} {s t : K}
    (hs0 : 0 ≤ s) (hs1 : s ≤ 1) (ht0 : 0 ≤ t) (ht1 : t ≤ 1)
    (h : AffineMap.lineMap (position e.start) (position e.finish) s =
      AffineMap.lineMap (position f.start) (position f.finish) t) :
    segmentsIntersect e f = true := by
  have contact : ∀ {q : IrregularPoint K} {g : BoundaryEdge K},
      position q ∈ segment K (position g.start) (position g.finish) →
        orientationOf g.start g.finish q = 0 ∧ pointIsOnSegment q g = true := by
    intro q g hq
    obtain ⟨r, h0, h1, hr⟩ := mem_segment_iff_lineMap.1 hq
    refine ⟨orientationOf_eq_zero_iff.mpr ?_, pointIsOnSegment_lineMap h0 h1 hr⟩
    rw [← hr, cross_lineMap]
    simp
  rcases exists_end_or_opposite (mem_segment_iff_lineMap.2 ⟨s, hs0, hs1, rfl⟩)
    (mem_segment_iff_lineMap.2 ⟨t, ht0, ht1, h.symm⟩) with hend | hend | hend | hend | ⟨hopp, hopp'⟩
  · simp [segmentsIntersect, contact hend]
  · simp [segmentsIntersect, contact hend]
  · simp [segmentsIntersect, contact hend]
  · simp [segmentsIntersect, contact hend]
  · have h1 := orientationOf_ne_of_opposite hopp
    have h2 := orientationOf_ne_of_opposite hopp'
    simp [segmentsIntersect, h1, h2]

omit [IsStrictOrderedRing K] in
theorem hasSelfIntersection_eq_false_iff {points : List (IrregularPoint K)} :
    hasSelfIntersection (boundaryEdges points) = false ↔ ∀ a b, a < b → b < points.length →
      areAdjacentEdges a b points.length = false →
      segmentsIntersect (edgeAt points a) (edgeAt points b) = false := by
  have hlen : (boundaryEdges points).length = points.length := by
    simp [boundaryEdges_eq_map]
  have hedge : ∀ (e : BoundaryEdge K) (k : ℕ), (e, k) ∈ (boundaryEdges points).zipIdx ↔
      k < points.length ∧ edgeAt points k = e := by
    intro e k
    rw [List.mem_zipIdx_iff_getElem?, List.getElem?_eq_some_iff]
    simp only [boundaryEdges_eq_map, List.length_map, List.length_range, List.getElem_map,
      List.getElem_range, exists_prop]
  unfold hasSelfIntersection
  rw [List.any_eq_false]
  constructor
  · intro h a b hab hb hadj
    have hrow := h (edgeAt points a, a) ((hedge _ _).mpr ⟨by omega, rfl⟩)
    rw [Bool.not_eq_true, List.any_eq_false] at hrow
    have := hrow (edgeAt points b, b) ((hedge _ _).mpr ⟨hb, rfl⟩)
    rw [hlen] at this
    simpa [hab, hadj] using this
  · rintro h ⟨e, a⟩ he
    rw [Bool.not_eq_true, List.any_eq_false]
    rintro ⟨f, b⟩ hf
    obtain ⟨-, rfl⟩ := (hedge e a).mp he
    obtain ⟨hb, rfl⟩ := (hedge f b).mp hf
    rw [hlen, Bool.not_eq_true]
    by_cases hab : a < b
    · cases hadj : areAdjacentEdges a b points.length with
      | true => simp [hadj]
      | false => simp [h a b hab hb hadj]
    · simp [hab]

theorem convex_of_no_intersection (h : Accepted points w)
    (hno : hasSelfIntersection (boundaryEdges points) = false) (i j : ℕ) :
    0 ≤ (w : K) * cross (position (vertexAt points i))
      (position (vertexAt points (i + 1))) (position (vertexAt points j)) := by
  have hn := h.length_pos
  have hne : ∀ k, position (vertexAt points k) ≠
      position (vertexAt points (k + 1)) := by
    intro k heq
    have hturn := h.cross_pos k
    rw [heq, cross_rotate] at hturn
    simp at hturn
  have hpair := hasSelfIntersection_eq_false_iff.mp hno
  refine convex_of_simple (periodic_position points) hn h.cross_pos ?_ i j
  rintro a d hd hdn ⟨s, t, hs0, hs1, ht0, ht1, heq⟩
  -- both edges in the first period, in one order or the other
  have hmod : ∀ k, position (vertexAt points (k % points.length)) =
      position (vertexAt points k) ∧
      position (vertexAt points (k % points.length + 1)) =
        position (vertexAt points (k + 1)) := by
    intro k
    rw [vertexAt_mod, ← vertexAt_mod points (k % points.length + 1),
      Nat.mod_add_mod, vertexAt_mod]
    exact ⟨rfl, rfl⟩
  have ha := Nat.mod_lt a hn
  have hb := Nat.mod_lt (a + d) hn
  have hsum : (a + d) % points.length = a % points.length + d ∨
      (a + d) % points.length + points.length = a % points.length + d := by
    rw [← Nat.mod_add_mod]
    rcases Nat.lt_or_ge (a % points.length + d) points.length with hlt | hge
    · exact .inl (Nat.mod_eq_of_lt hlt)
    · rw [Nat.mod_eq_sub_mod hge, Nat.mod_eq_of_lt (by omega)]
      exact .inr (by omega)
  rcases hsum with hsum | hsum
  · have := hpair (a % points.length) ((a + d) % points.length) (by omega) hb
      (by simp only [areAdjacentEdges, Bool.or_eq_false_iff,
            Bool.and_eq_false_iff, beq_eq_false_iff_ne]; omega)
    rw [segmentsIntersect_of_common hs0 hs1 ht0 ht1] at this
    · exact Bool.noConfusion this
    · show AffineMap.lineMap (position (vertexAt points (a % points.length)))
        (position (vertexAt points (a % points.length + 1))) s = _
      rw [(hmod a).1, (hmod a).2, heq]
      exact congrArg₂ (fun x y => AffineMap.lineMap x y t) (hmod (a + d)).1.symm
        (hmod (a + d)).2.symm
  · have := hpair ((a + d) % points.length) (a % points.length) (by omega) ha
      (by simp only [areAdjacentEdges, Bool.or_eq_false_iff,
            Bool.and_eq_false_iff, beq_eq_false_iff_ne]; omega)
    rw [segmentsIntersect_of_common ht0 ht1 hs0 hs1] at this
    · exact Bool.noConfusion this
    · show AffineMap.lineMap (position (vertexAt points ((a + d) % points.length)))
        (position (vertexAt points ((a + d) % points.length + 1))) t = _
      rw [(hmod (a + d)).1, (hmod (a + d)).2, ← heq]
      exact congrArg₂ (fun x y => AffineMap.lineMap x y s) (hmod a).1.symm
        (hmod a).2.symm

/-- **An accepted ring is strictly convex.** -/
def ring (h : Accepted points w) : ConvexRing K where
  size := points.length
  vertex k := position (vertexAt points k)
  side := w
  size_pos := h.length_pos
  periodic := periodic_position points
  turn := h.cross_pos
  convex i j := h.simple.elim (fun hrev => h.convex_of_revolution hrev i j)
    fun hno => h.convex_of_no_intersection hno i j

end Accepted

end Exact

end PolygonNesting
