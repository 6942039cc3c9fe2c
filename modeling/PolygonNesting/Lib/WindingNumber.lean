import Mathlib.Algebra.BigOperators.Group.List.Basic
import PolygonNesting.Lib.CyclicNeighbours
import PolygonNesting.Lib.Plane

set_option linter.unusedSectionVars false

/-!
# Filling by winding number

How often a closed path of the plane winds about a point, counted by the signed crossings of
its edges with the ray to the right of the point.  A path winds about no point outside its box;
the reversed path winds the other way and fills the same points.
-/

namespace Plane

open CyclicNeighbours

variable {K : Type} [Field K] [LinearOrder K] [IsStrictOrderedRing K]

/-! ## §1  Crossings -/

/-- The signed crossing of an edge and the ray to the right of a point.  An edge has its lower
end and not its upper one, so that a horizontal edge is never crossed. -/
def crossing (p : K × K) (edge : (K × K) × (K × K)) : ℤ :=
  if edge.1.2 ≤ p.2 ∧ p.2 < edge.2.2 ∧ 0 < cross edge.1 edge.2 p then 1
  else if edge.2.2 ≤ p.2 ∧ p.2 < edge.1.2 ∧ cross edge.1 edge.2 p < 0 then -1
  else 0

theorem crossing_swap (p : K × K) (edge : (K × K) × (K × K)) :
    crossing p edge.swap = -crossing p edge := by
  obtain ⟨a, b⟩ := edge
  simp only [crossing, Prod.swap_prod_mk, cross_swap a b, Left.neg_pos_iff, Left.neg_neg_iff]
  by_cases hup : a.2 ≤ p.2 ∧ p.2 < b.2 ∧ 0 < cross a b p
  · have hdown : ¬(b.2 ≤ p.2 ∧ p.2 < a.2 ∧ cross a b p < 0) := fun h =>
      absurd hup.2.1 (not_lt.mpr h.1)
    rw [if_neg hdown, if_pos hup, if_pos hup]
  · rw [if_neg hup, if_neg hup]
    split_ifs <;> rfl

/-- Above both ends, below both, or to the right of both, no crossing. -/
theorem crossing_eq_zero {p a b : K × K}
    (h : p.2 < a.2 ∧ p.2 < b.2 ∨ a.2 ≤ p.2 ∧ b.2 ≤ p.2 ∨ a.1 ≤ p.1 ∧ b.1 ≤ p.1) :
    crossing p (a, b) = 0 := by
  unfold crossing
  rw [if_neg, if_neg]
  · rintro ⟨hb, ha, hside⟩
    rcases h with h | h | ⟨hxa, hxb⟩
    · exact absurd h.2 (not_lt.mpr hb)
    · exact absurd ha (not_lt.mpr h.1)
    · refine absurd hside (not_lt.mpr ?_)
      have hleft := mul_nonneg (sub_nonneg.mpr hxa) (sub_nonneg.mpr hb)
      have hright := mul_nonneg (sub_nonneg.mpr hxb) (sub_nonneg.mpr ha.le)
      unfold cross
      linarith
  · rintro ⟨ha, hb, hside⟩
    rcases h with h | h | ⟨hxa, hxb⟩
    · exact absurd h.1 (not_lt.mpr ha)
    · exact absurd hb (not_lt.mpr h.2)
    · refine absurd hside (not_lt.mpr ?_)
      have hleft := mul_nonneg (sub_nonneg.mpr hxa) (sub_nonneg.mpr hb.le)
      have hright := mul_nonneg (sub_nonneg.mpr hxb) (sub_nonneg.mpr ha)
      unfold cross
      linarith

theorem crossing_horizontal (p : K × K) (x x' y : K) : crossing p ((x, y), (x', y)) = 0 := by
  rcases lt_or_ge p.2 y with h | h
  · exact crossing_eq_zero (.inl ⟨h, h⟩)
  · exact crossing_eq_zero (.inr (.inl ⟨h, h⟩))

/-- To the left of both ends, the crossing says which of them are above. -/
theorem crossing_of_left {p a b : K × K} (ha : p.1 < a.1) (hb : p.1 < b.1) :
    crossing p (a, b) = (if p.2 < b.2 then 1 else 0) - if p.2 < a.2 then 1 else 0 := by
  unfold crossing
  rcases lt_or_ge p.2 a.2 with hya | hya <;> rcases lt_or_ge p.2 b.2 with hyb | hyb
  · rw [if_neg fun h => absurd hya (not_lt.mpr h.1), if_neg fun h => absurd hyb (not_lt.mpr h.1),
      if_pos hyb, if_pos hya, sub_self]
  · have hside : cross a b p < 0 := by
      have hleft := mul_nonneg (sub_pos.mpr ha).le (sub_nonneg.mpr hyb)
      have hright := mul_pos (sub_pos.mpr hb) (sub_pos.mpr hya)
      unfold cross
      linarith
    rw [if_neg fun h => absurd hya (not_lt.mpr h.1), if_pos ⟨hyb, hya, hside⟩,
      if_neg (not_lt.mpr hyb), if_pos hya, zero_sub]
  · have hside : 0 < cross a b p := by
      have hleft := mul_pos (sub_pos.mpr ha) (sub_pos.mpr hyb)
      have hright := mul_nonneg (sub_pos.mpr hb).le (sub_nonneg.mpr hya)
      unfold cross
      linarith
    rw [if_pos ⟨hya, hyb, hside⟩, if_pos hyb, if_neg (not_lt.mpr hya), sub_zero]
  · rw [if_neg fun h => absurd h.2.1 (not_lt.mpr hyb),
      if_neg fun h => absurd h.2.1 (not_lt.mpr hya), if_neg (not_lt.mpr hyb),
      if_neg (not_lt.mpr hya), sub_self]

/-! ## §2  The winding number -/

/-- How often a closed path winds about a point, counter-clockwise. -/
def winding (p : K × K) (path : List (K × K)) : ℤ :=
  ((neighbours path).map (crossing p)).sum

theorem winding_reverse (p : K × K) (path : List (K × K)) :
    winding p path.reverse = -winding p path := by
  unfold winding
  rw [((neighbours_reverse path).map _).sum_eq, List.map_map, List.sum_neg, List.map_map]
  exact congrArg List.sum (List.map_congr_left fun edge _ => crossing_swap p edge)

theorem winding_eq_zero_of {p : K × K} {path : List (K × K)}
    (h : ∀ a ∈ path, ∀ b ∈ path, crossing p (a, b) = 0) : winding p path = 0 := by
  refine List.sum_eq_zero fun value hvalue => ?_
  obtain ⟨⟨a, b⟩, hedge, rfl⟩ := List.mem_map.1 hvalue
  obtain ⟨ha, hb⟩ := mem_of_mem_neighbours hedge
  exact h a ha b hb

/-- A path that lies to the right of a point does not wind about it: it goes up past the point as
often as down. -/
theorem winding_of_left {p : K × K} {path : List (K × K)} (h : ∀ v ∈ path, p.1 < v.1) :
    winding p path = 0 := by
  have hedges : (neighbours path).map (crossing p) = (neighbours path).map fun edge =>
      (if p.2 < edge.2.2 then 1 else 0) - if p.2 < edge.1.2 then 1 else 0 := by
    refine List.map_congr_left fun edge hedge => ?_
    obtain ⟨ha, hb⟩ := mem_of_mem_neighbours (a := edge.1) (b := edge.2) hedge
    exact crossing_of_left (h _ ha) (h _ hb)
  unfold winding
  rw [hedges]
  exact sum_neighbours_sub (fun v : K × K => if p.2 < v.2 then (1 : ℤ) else 0) path

/-- A spike out and back changes nothing. -/
theorem winding_spike (p a tip : K × K) (rest : List (K × K)) :
    winding p (a :: tip :: a :: rest) = winding p (a :: rest) := by
  have hedges : neighbours (a :: tip :: a :: rest) =
      (a, tip) :: (a, tip).swap :: neighbours (a :: rest) := rfl
  unfold winding
  rw [hedges, List.map_cons, List.map_cons, crossing_swap, List.sum_cons, List.sum_cons,
    add_neg_cancel_left]

/-! ## §3  Filled points -/

/-- The points that closed paths wind about, all together. -/
def filled (paths : List (List (K × K))) : Set (K × K) :=
  {p | (paths.map (winding p)).sum ≠ 0}

theorem mem_filled {p : K × K} {paths : List (List (K × K))} :
    p ∈ filled paths ↔ (paths.map (winding p)).sum ≠ 0 := Iff.rfl

theorem mem_filled_singleton {p : K × K} {path : List (K × K)} :
    p ∈ filled [path] ↔ winding p path ≠ 0 := by
  rw [mem_filled, List.map_singleton, List.sum_singleton]

theorem filled_reverse (path : List (K × K)) : filled [path.reverse] = filled [path] := by
  ext p
  rw [mem_filled_singleton, mem_filled_singleton, winding_reverse, neg_ne_zero]

theorem filled_spike (a tip : K × K) (rest : List (K × K)) :
    filled [a :: tip :: a :: rest] = filled [a :: rest] := by
  ext p
  rw [mem_filled_singleton, mem_filled_singleton, winding_spike]

/-- A rectangle is filled, its left and lower sides included. -/
theorem mem_filled_rectangle {a b c d : K} {p : K × K} (hleft : a ≤ p.1) (hright : p.1 < b)
    (hlow : c ≤ p.2) (hhigh : p.2 < d) : p ∈ filled [[(a, c), (b, c), (b, d), (a, d)]] := by
  have hup : crossing p ((b, c), (b, d)) = 1 := by
    refine if_pos ⟨hlow, hhigh, ?_⟩
    have hpos := mul_pos (sub_pos.mpr (hlow.trans_lt hhigh)) (sub_pos.mpr hright)
    unfold cross
    linarith
  have hdown : crossing p ((a, d), (a, c)) = 0 := by
    unfold crossing
    rw [if_neg fun h => absurd h.1 (not_le.mpr hhigh), if_neg fun h => absurd h.2.2 (not_lt.mpr ?_)]
    have hnonneg := mul_nonneg (sub_pos.mpr (hlow.trans_lt hhigh)).le (sub_nonneg.mpr hleft)
    unfold cross
    linarith
  rw [mem_filled_singleton]
  simp [winding, neighbours, hup, hdown, crossing_horizontal]

/-- **Nothing is filled outside the box.** -/
theorem filled_subset_box {paths : List (List (K × K))} (low high : K × K)
    (hbox : ∀ path ∈ paths, ∀ v ∈ path,
      low.1 ≤ v.1 ∧ low.2 ≤ v.2 ∧ v.1 ≤ high.1 ∧ v.2 ≤ high.2) {p : K × K}
    (hp : p ∈ filled paths) :
    low.1 ≤ p.1 ∧ low.2 ≤ p.2 ∧ p.1 < high.1 ∧ p.2 < high.2 := by
  by_contra hout
  refine hp (List.sum_eq_zero fun value hvalue => ?_)
  obtain ⟨path, hpath, rfl⟩ := List.mem_map.1 hvalue
  have hv := hbox path hpath
  rcases lt_or_ge p.1 low.1 with hleft | hleft
  · exact winding_of_left fun v hmem => lt_of_lt_of_le hleft (hv v hmem).1
  refine winding_eq_zero_of fun a ha b hb => crossing_eq_zero ?_
  rcases lt_or_ge p.2 low.2 with hbelow | hbelow
  · exact .inl ⟨lt_of_lt_of_le hbelow (hv a ha).2.1, lt_of_lt_of_le hbelow (hv b hb).2.1⟩
  rcases lt_or_ge p.1 high.1 with hright | hright
  · have habove : high.2 ≤ p.2 := not_lt.mp fun h => hout ⟨hleft, hbelow, hright, h⟩
    exact .inr (.inl ⟨(hv a ha).2.2.2.trans habove, (hv b hb).2.2.2.trans habove⟩)
  · exact .inr (.inr ⟨(hv a ha).2.2.1.trans hright, (hv b hb).2.2.1.trans hright⟩)

end Plane
