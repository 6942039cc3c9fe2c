import PolygonNesting.Geometry.StrictBoundary
import PolygonNesting.Lib.MonotoneChain

set_option linter.unusedSectionVars false

/-!
# What the hull function computes

In exact arithmetic, for points that do not lie on a line, `computeConvexHull`
returns a counter-clockwise strictly convex ring of some of the points that
encloses all of them.
-/

namespace PolygonNesting

open Plane

variable {K : Type} [Field K] [LinearOrder K] [IsStrictOrderedRing K] [FloorRing K]

/-! ## §1  The sorted points -/

/-- Before in the order of the hull: further left, or below. -/
def HullBefore (p q : IrregularPoint K) : Prop :=
  (HalfPlane.right K).mem (position q - position p)

theorem hullBefore_iff {p q : IrregularPoint K} :
    HullBefore p q ↔ p.x < q.x ∨ p.x = q.x ∧ p.y < q.y := by
  show 0 < q.x - p.x ∨ q.x - p.x = 0 ∧ 0 < q.y - p.y ↔ _
  rw [sub_pos, sub_eq_zero, sub_pos, eq_comm]

theorem hullPointLe_iff {p q : IrregularPoint K} :
    hullPointLe p q = true ↔ p = q ∨ HullBefore p q := by
  rw [hullBefore_iff]
  obtain ⟨x, y⟩ := p
  obtain ⟨x', y'⟩ := q
  unfold hullPointLe
  simp only [IrregularPoint.mk.injEq]
  split
  · next hne =>
    rw [decide_eq_true_iff]
    constructor
    · exact fun hle => .inr (.inl (hle.lt_of_ne hne))
    · rintro (⟨hx, -⟩ | hlt | ⟨hx, -⟩)
      · exact absurd hx hne
      · exact hlt.le
      · exact absurd hx hne
  · next heq =>
    rw [not_not] at heq
    rw [decide_eq_true_iff]
    constructor
    · intro hle
      rcases hle.lt_or_eq with hlt | hy
      · exact .inr (.inr ⟨heq, hlt⟩)
      · exact .inl ⟨heq, hy⟩
    · rintro (⟨-, hy⟩ | hlt | ⟨-, hlt⟩)
      · exact hy.le
      · exact absurd heq hlt.ne
      · exact hlt.le

theorem HullBefore.trans {p q r : IrregularPoint K} (h : HullBefore p q) (h' : HullBefore q r) :
    HullBefore p r := by
  have := (HalfPlane.right K).add h h'
  rwa [sub_add_sub_comm, add_comm (position q), add_sub_add_right_eq_sub] at this

theorem sorted_mergeSort (points : List (IrregularPoint K)) :
    (points.mergeSort hullPointLe).Pairwise fun p q => p = q ∨ HullBefore p q := by
  refine (List.pairwise_mergeSort ?_ ?_ points).imp fun {p q} h => hullPointLe_iff.mp h
  · intro p q r hpq hqr
    rw [hullPointLe_iff] at hpq hqr ⊢
    rcases hpq with rfl | hpq
    · exact hqr
    · rcases hqr with rfl | hqr
      · exact .inr hpq
      · exact .inr (hpq.trans hqr)
  · intro p q
    rw [Bool.or_eq_true, hullPointLe_iff, hullPointLe_iff]
    rcases eq_or_ne p q with rfl | hne
    · exact .inl (.inl rfl)
    · rcases (HalfPlane.right K).total (a := position q - position p)
        (sub_ne_zero.mpr fun h => hne (position_injective h).symm) with h | h
      · exact .inl (.inr h)
      · rw [neg_sub] at h
        exact .inr (.inr h)

/-- One point of the loop that drops repeated neighbours. -/
def pushUnique (uniquePoints : List (IrregularPoint K)) (point : IrregularPoint K) :
    List (IrregularPoint K) :=
  match uniquePoints with
  | previousPoint :: _ =>
      if previousPoint.x = point.x ∧ previousPoint.y = point.y then uniquePoints
      else point :: uniquePoints
  | [] => [point]

theorem foldl_pushUnique : ∀ (points acc : List (IrregularPoint K)),
    points.Pairwise (fun p q => p = q ∨ HullBefore p q) →
    acc.Pairwise (fun q p => HullBefore p q) →
    (∀ b ∈ acc.head?, ∀ q ∈ points, b = q ∨ HullBefore b q) →
    (points.foldl pushUnique acc).Pairwise (fun q p => HullBefore p q) ∧
      ∀ q, q ∈ points.foldl pushUnique acc ↔ q ∈ acc ∨ q ∈ points
  | [], _, _, hacc, _ => ⟨hacc, fun q => by simp⟩
  | point :: rest, [], hsorted, _, _ => by
    obtain ⟨hafter, hrest⟩ := List.pairwise_cons.mp hsorted
    obtain ⟨h1, h2⟩ := foldl_pushUnique rest [point] hrest (List.pairwise_singleton _ _)
      (fun b hb q hq => Option.some.inj hb ▸ hafter q hq)
    exact ⟨h1, fun q => by simp [List.foldl_cons, pushUnique, h2]⟩
  | point :: rest, previous :: acc, hsorted, hacc, hhead => by
    obtain ⟨hafter, hrest⟩ := List.pairwise_cons.mp hsorted
    rw [List.foldl_cons]
    by_cases heq : previous.x = point.x ∧ previous.y = point.y
    · -- a repeated neighbour
      have hsame : previous = point := position_injective (Prod.ext heq.1 heq.2)
      subst hsame
      rw [show pushUnique (previous :: acc) previous = previous :: acc from if_pos ⟨rfl, rfl⟩]
      obtain ⟨h1, h2⟩ := foldl_pushUnique rest (previous :: acc) hrest hacc
        (fun b hb q hq => hhead b hb q (List.mem_cons_of_mem _ hq))
      refine ⟨h1, fun q => ?_⟩
      rw [h2]
      simp only [List.mem_cons]
      tauto
    · have hbefore : HullBefore previous point :=
        (hhead previous rfl point List.mem_cons_self).resolve_left fun h =>
          heq (by rw [h]; exact ⟨rfl, rfl⟩)
      rw [show pushUnique (previous :: acc) point = point :: previous :: acc from if_neg heq]
      have hpush : (point :: previous :: acc).Pairwise fun q p => HullBefore p q := by
        refine List.pairwise_cons.mpr ⟨fun p hp => ?_, hacc⟩
        rcases List.mem_cons.mp hp with rfl | hp
        · exact hbefore
        · exact (List.rel_of_pairwise_cons hacc hp).trans hbefore
      obtain ⟨h1, h2⟩ := foldl_pushUnique rest (point :: previous :: acc) hrest hpush
        (fun b hb q hq => Option.some.inj hb ▸ hafter q hq)
      refine ⟨h1, fun q => ?_⟩
      rw [h2]
      simp only [List.mem_cons]
      tauto

/-- **The points of a hull in order**, each once. -/
theorem uniquePoints_spec (points : List (IrregularPoint K)) :
    (deduplicateSortedPoints (points.mergeSort hullPointLe)).Pairwise HullBefore ∧
      ∀ q, q ∈ deduplicateSortedPoints (points.mergeSort hullPointLe) ↔ q ∈ points := by
  obtain ⟨h1, h2⟩ := foldl_pushUnique (points.mergeSort hullPointLe) [] (sorted_mergeSort points)
    .nil (fun b hb => absurd hb (Option.not_mem_none b))
  constructor
  · exact List.pairwise_reverse.mpr h1
  · intro q
    rw [show deduplicateSortedPoints (points.mergeSort hullPointLe) =
      ((points.mergeSort hullPointLe).foldl pushUnique []).reverse from rfl, List.mem_reverse, h2,
      List.mem_mergeSort, or_iff_right List.not_mem_nil]

/-! ## §2  The chains -/

theorem popHull_map (point : IrregularPoint K) : ∀ hull : List (IrregularPoint K),
    (popHull point hull).map position = popTurns (position point) (hull.map position)
  | [] => rfl
  | [_] => rfl
  | last :: previous :: rest => by
    have hturn : 0 < orientationOf previous last point ↔
        0 < cross (position previous) (position last) (position point) := by
      rw [orientationOf_eq]
      split
      · next h => simp [h.le]
      · split
        · next h => simpa using h
        · next h => simpa using h
    unfold popHull
    rw [List.map_cons, List.map_cons, popTurns]
    by_cases h : 0 < orientationOf previous last point
    · rw [if_pos h, if_pos (hturn.mp h)]
      rfl
    · rw [if_neg h, if_neg fun h' => h (hturn.mpr h')]
      exact popHull_map point (previous :: rest)

theorem buildHullHalf_map (points : List (IrregularPoint K)) :
    (buildHullHalf points).map position = halfHull (points.map position) := by
  have hfold : ∀ (points hull : List (IrregularPoint K)),
      (points.foldl (fun hull point => point :: popHull point hull) hull).map position =
        (points.map position).foldl (fun stack c => c :: popTurns c stack) (hull.map position) := by
    intro points
    induction points with
    | nil => intro hull; rfl
    | cons point rest ih =>
      intro hull
      rw [List.foldl_cons, ih, List.map_cons, popHull_map]
      rfl
  unfold buildHullHalf halfHull chainStack
  rw [List.map_reverse, hfold]
  rfl

/-! ## §3  The hull -/

/-- The points do not lie on a line. -/
def Spans (points : List (IrregularPoint K)) : Prop :=
  ∀ a d : K × K, d ≠ 0 → ∃ q ∈ points, det d (position q - a) ≠ 0

/-- At most two points lie on a line. -/
theorem Spans.three_le {points : List (IrregularPoint K)} (h : Spans points) :
    3 ≤ points.length := by
  by_contra hlt
  match points, h, hlt with
  | [], h, _ =>
    obtain ⟨q, hq, -⟩ := h 0 (1, 0) (by simp)
    cases hq
  | [p], h, _ =>
    obtain ⟨q, hq, hne⟩ := h (position p) (1, 0) (by simp)
    rw [List.mem_singleton.mp hq, sub_self] at hne
    simp [det] at hne
  | [p, p'], h, _ =>
    rcases eq_or_ne (position p') (position p) with heq | hneq
    · obtain ⟨q, hq, hne⟩ := h (position p) (1, 0) (by simp)
      simp only [List.mem_cons, List.not_mem_nil, or_false] at hq
      rcases hq with rfl | rfl
      · simp [det] at hne
      · rw [heq] at hne
        simp [det] at hne
    · obtain ⟨q, hq, hne⟩ := h (position p) (position p' - position p) (sub_ne_zero.mpr hneq)
      simp only [List.mem_cons, List.not_mem_nil, or_false] at hq
      rcases hq with rfl | rfl
      · simp [det] at hne
      · exact hne (det_self _)
  | _ :: _ :: _ :: _, _, hlt => simp at hlt

/-- **The hull is a strict ring of the points around all of them.** -/
theorem computeConvexHull_spec {points : List (IrregularPoint K)} (hspan : Spans points) :
    ∃ h : IsStrictRing (computeConvexHull points).points 1,
      (∀ p ∈ (computeConvexHull points).points, p ∈ points) ∧
      ∀ p ∈ points, h.ring.toConvexRing.Closed (position p) := by
  obtain ⟨hsorted, hmem⟩ := uniquePoints_spec points
  have hspan' : Spans (deduplicateSortedPoints (points.mergeSort hullPointLe)) := by
    intro a d hd
    obtain ⟨q, hq, hne⟩ := hspan a d hd
    exact ⟨q, (hmem q).mpr hq, hne⟩
  have hlen := hspan'.three_le
  have hpoints : (computeConvexHull points).points =
      (buildHullHalf (deduplicateSortedPoints (points.mergeSort hullPointLe))).dropLast ++
        (buildHullHalf
          (deduplicateSortedPoints (points.mergeSort hullPointLe)).reverse).dropLast := by
    unfold computeConvexHull
    dsimp only
    rw [if_neg (by omega)]
  generalize deduplicateSortedPoints (points.mergeSort hullPointLe) = unique at *
  have hmap : (computeConvexHull points).points.map position = hullPoints (unique.map position) := by
    rw [hpoints, List.map_append, List.map_dropLast, List.map_dropLast, buildHullHalf_map,
      buildHullHalf_map, List.map_reverse]
    rfl
  have hsorted' : (unique.map position).Pairwise fun a b => (HalfPlane.right K).mem (b - a) :=
    List.pairwise_map.mpr hsorted
  obtain ⟨R, hsize, hvertex, hfrom, hclosed⟩ := exists_hullRing hsorted' (by
    intro a d hd
    obtain ⟨q, hq, hne⟩ := hspan' a d hd
    exact ⟨position q, List.mem_map_of_mem hq, hne⟩)
  have hsize' : R.size = (computeConvexHull points).points.length := by
    rw [hsize, ← hmap, List.length_map]
  have hvertex' : ∀ k, R.vertex k = position (vertexAt (computeConvexHull points).points k) := by
    intro k
    rw [hvertex, ← hsize, hsize', ← hmap]
    exact List.getD_map _ (d := (⟨0, 0⟩ : IrregularPoint K)) position
  have h := isStrictRing_of_ring R hsize' hvertex'
  refine ⟨h, ?_, ?_⟩
  · intro p hp
    obtain ⟨k, -, rfl⟩ := exists_vertexAt hp
    have := hfrom k
    rw [hvertex'] at this
    obtain ⟨q, hq, heq⟩ := List.mem_map.mp this
    rw [← position_injective heq]
    exact (hmem q).mp hq
  · intro p hp k
    have := hclosed (position p) (List.mem_map_of_mem ((hmem p).mpr hp)) k
    rw [StrictRing.height_eq] at this ⊢
    rw [hvertex', hvertex'] at this
    exact this

end PolygonNesting
