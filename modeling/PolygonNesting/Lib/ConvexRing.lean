import Mathlib.Data.Nat.Periodic
import PolygonNesting.Lib.Plane

/-!
# Strictly convex rings

A closed ring of points that turns strictly to one side at every vertex and
has every vertex on that side of every edge line.  The facts below are what an
overlap test of two such rings rests on: a point that leaves the interior
leaves it through an edge, interiors meet when an edge of one ring enters the
other, when two edges cross, or when two edges overlap with the interiors on
the same side, and two interiors that meet are equal unless an edge of one
enters the other.
-/

open Finset

namespace Plane

variable {K : Type} [Field K] [LinearOrder K] [IsStrictOrderedRing K]

/-- A strictly convex ring, as a periodic sequence of vertices.  `side` is
positive for a counter-clockwise ring and negative for a clockwise one. -/
structure ConvexRing (K : Type) [Field K] [LinearOrder K] where
  size : ℕ
  vertex : ℕ → K × K
  side : K
  size_pos : 0 < size
  periodic : Function.Periodic vertex size
  turn : ∀ k, 0 < side * cross (vertex k) (vertex (k + 1)) (vertex (k + 2))
  convex : ∀ i j, 0 ≤ side * cross (vertex i) (vertex (i + 1)) (vertex j)

namespace ConvexRing

variable (R S : ConvexRing K)

/-! ## §1  Heights over the edges -/

/-- How far a point lies on the inner side of an edge line. -/
def height (k : ℕ) (q : K × K) : K :=
  R.side * cross (R.vertex k) (R.vertex (k + 1)) q

/-- Strictly on the inner side of every edge. -/
def Inner (q : K × K) : Prop := ∀ k, 0 < R.height k q

/-- On the inner side of every edge, or on its line. -/
def Closed (q : K × K) : Prop := ∀ k, 0 ≤ R.height k q

/-- On an edge. -/
def Outline (q : K × K) : Prop :=
  ∃ (k : ℕ) (t : K), 0 ≤ t ∧ t ≤ 1 ∧ AffineMap.lineMap (R.vertex k) (R.vertex (k + 1)) t = q

variable {R S}

omit [IsStrictOrderedRing K] in
theorem vertex_mod (k : ℕ) : R.vertex (k % R.size) = R.vertex k :=
  R.periodic.map_mod_nat k

omit [IsStrictOrderedRing K] in
theorem height_mod (k : ℕ) (q : K × K) :
    R.height (k % R.size) q = R.height k q := by
  unfold height
  rw [vertex_mod, ← vertex_mod (k % R.size + 1), Nat.mod_add_mod, vertex_mod]

omit [IsStrictOrderedRing K] in
theorem mod_mem (k : ℕ) : k % R.size ∈ range R.size :=
  Finset.mem_range.mpr (Nat.mod_lt _ R.size_pos)

omit [IsStrictOrderedRing K] in
theorem height_lineMap (k : ℕ) (p q : K × K) (t : K) :
    R.height k (AffineMap.lineMap p q t) =
      (1 - t) * R.height k p + t * R.height k q := by
  unfold height
  rw [cross_lineMap]
  ring

omit [IsStrictOrderedRing K] in
@[simp] theorem height_start (k : ℕ) : R.height k (R.vertex k) = 0 := by
  simp [height]

omit [IsStrictOrderedRing K] in
@[simp] theorem height_finish (k : ℕ) : R.height k (R.vertex (k + 1)) = 0 := by
  simp [height]

omit [IsStrictOrderedRing K] in
theorem height_next_pos (k : ℕ) : 0 < R.height k (R.vertex (k + 2)) := R.turn k

omit [IsStrictOrderedRing K] in
theorem height_previous_pos (k : ℕ) : 0 < R.height (k + 1) (R.vertex k) := by
  unfold height
  rw [← cross_rotate]
  exact R.turn k

omit [IsStrictOrderedRing K] in
theorem vertex_ne (k : ℕ) : R.vertex k ≠ R.vertex (k + 1) := by
  intro h
  have := R.turn k
  rw [← h, cross_rotate] at this
  simp at this

omit [IsStrictOrderedRing K] in
theorem closed_vertex (j : ℕ) : R.Closed (R.vertex j) := fun k => R.convex k j

omit [IsStrictOrderedRing K] in
theorem Inner.closed {q : K × K} (h : R.Inner q) : R.Closed q :=
  fun k => (h k).le

/-! ## §2  Segments against a ring -/

theorem Closed.lineMap {p q : K × K} (hp : R.Closed p) (hq : R.Closed q) {t : K}
    (h0 : 0 ≤ t) (h1 : t ≤ 1) : R.Closed (AffineMap.lineMap p q t) := by
  intro k
  rw [height_lineMap]
  exact add_nonneg (mul_nonneg (sub_nonneg.mpr h1) (hp k)) (mul_nonneg h0 (hq k))

/-- From a closed point towards an inner one, everything after is inner. -/
theorem Closed.lineMap_inner {p q : K × K} (hp : R.Closed p) (hq : R.Inner q)
    {t : K} (h0 : 0 < t) (h1 : t ≤ 1) : R.Inner (AffineMap.lineMap p q t) := by
  intro k
  rw [height_lineMap]
  exact add_pos_of_nonneg_of_pos (mul_nonneg (sub_nonneg.mpr h1) (hp k))
    (mul_pos h0 (hq k))

theorem Outline.closed {q : K × K} (h : R.Outline q) : R.Closed q := by
  obtain ⟨k, t, h0, h1, rfl⟩ := h
  exact (closed_vertex k).lineMap (closed_vertex (k + 1)) h0 h1

/-- **A closed point on an edge line is on the edge.**  The neighbouring edges
bound it on both sides. -/
theorem Closed.exists_on_edge {q : K × K} (h : R.Closed q) {k : ℕ}
    (hzero : R.height k q = 0) :
    ∃ t : K, 0 ≤ t ∧ t ≤ 1 ∧
      AffineMap.lineMap (R.vertex k) (R.vertex (k + 1)) t = q := by
  have hside : R.side ≠ 0 := by
    intro hs
    simpa [hs] using R.turn k
  obtain ⟨t, rfl⟩ := exists_lineMap_of_cross_eq_zero (vertex_ne k)
    ((mul_eq_zero.mp hzero).resolve_left hside)
  refine ⟨t, ?_, ?_, rfl⟩
  · -- the edge before
    obtain ⟨j, hj⟩ : ∃ j, R.vertex (j + 1) = R.vertex k ∧
        R.vertex (j + 2) = R.vertex (k + 1) := by
      refine ⟨k + (R.size - 1), ?_, ?_⟩
      · rw [show k + (R.size - 1) + 1 = k + R.size by have := R.size_pos; omega]
        exact R.periodic k
      · rw [show k + (R.size - 1) + 2 = k + 1 + R.size by
          have := R.size_pos; omega]
        exact R.periodic (k + 1)
    have hpos := height_next_pos (R := R) j
    have hnonneg := h j
    rw [height_lineMap, ← hj.1, ← hj.2, height_finish, mul_zero, zero_add]
      at hnonneg
    exact nonneg_of_mul_nonneg_left hnonneg hpos
  · -- the edge after
    have hpos := height_previous_pos (R := R) k
    have hnonneg := h (k + 1)
    rw [height_lineMap, height_start, mul_zero, add_zero] at hnonneg
    exact sub_nonneg.mp (nonneg_of_mul_nonneg_left hnonneg hpos)

/-- **Only its own ends lie on an edge line.** -/
theorem eq_of_height_vertex_eq_zero {k j : ℕ}
    (h : R.height k (R.vertex j) = 0) :
    R.vertex j = R.vertex k ∨ R.vertex j = R.vertex (k + 1) := by
  obtain ⟨t, h0, h1, ht⟩ := (closed_vertex j).exists_on_edge h
  by_contra hne
  push Not at hne
  have h0' : 0 < t := by
    refine h0.lt_of_ne fun hz => hne.1 ?_
    rw [← ht, ← hz, AffineMap.lineMap_apply_zero]
  have h1' : t < 1 := by
    refine h1.lt_of_ne fun hz => hne.2 ?_
    rw [← ht, hz, AffineMap.lineMap_apply_one]
  -- an edge line through the vertex has both ends of the edge on one side
  have hflat : ∀ i, R.height i (R.vertex j) = 0 → R.height i (R.vertex k) = 0 := by
    intro i hi
    rw [← ht, height_lineMap] at hi
    have ha := mul_nonneg (sub_nonneg.mpr h1) (R.convex i k)
    have hb := mul_nonneg h0 (R.convex i (k + 1))
    have hz : (1 - t) * R.height i (R.vertex k) = 0 := by
      unfold height at hi ⊢
      linarith
    exact (mul_eq_zero.mp hz).resolve_left (sub_pos.mpr h1').ne'
  obtain ⟨m, hm⟩ : ∃ m, R.vertex (m + 1) = R.vertex j ∧
      R.vertex (m + 2) = R.vertex (j + 1) := by
    refine ⟨j + (R.size - 1), ?_, ?_⟩
    · rw [show j + (R.size - 1) + 1 = j + R.size by have := R.size_pos; omega]
      exact R.periodic j
    · rw [show j + (R.size - 1) + 2 = j + 1 + R.size by have := R.size_pos; omega]
      exact R.periodic (j + 1)
  have hturn := R.turn m
  have hside : R.side ≠ 0 := by
    intro hs
    simp [hs] at hturn
  -- both neighbours are on the line through the vertex and the edge's start
  have hbefore : cross (R.vertex m) (R.vertex (m + 1)) (R.vertex k) = 0 := by
    have := hflat m (by rw [← hm.1, height_finish])
    exact (mul_eq_zero.mp this).resolve_left hside
  have hafter : cross (R.vertex (m + 1)) (R.vertex (m + 2)) (R.vertex k) = 0 := by
    have := hflat j (height_start j)
    rw [hm.1, hm.2]
    exact (mul_eq_zero.mp this).resolve_left hside
  have hnek : R.vertex (m + 1) ≠ R.vertex k := hm.1 ▸ hne.1
  obtain ⟨a, ha⟩ := exists_lineMap_of_cross_eq_zero hnek
    (c := R.vertex m) (by rw [← cross_rotate, hbefore])
  obtain ⟨b, hb⟩ := exists_lineMap_of_cross_eq_zero hnek
    (c := R.vertex (m + 2)) (by rw [← cross_rotate, ← cross_rotate, cross_swap,
      cross_rotate, cross_rotate, hafter, neg_zero])
  rw [← ha, ← hb, cross_lineMap, cross_right, mul_zero, zero_add, cross_rotate,
    cross_lineMap, cross_right] at hturn
  simp at hturn

/-- **A ring that comes back to a point goes on as before.** -/
theorem vertex_shift {i j : ℕ} (h : R.vertex i = R.vertex j) (k : ℕ) :
    R.vertex (i + k) = R.vertex (j + k) := by
  induction k with
  | zero => exact h
  | succ k ih =>
      have hforth := R.convex (i + k) (j + k + 1)
      have hback := R.convex (j + k) (i + k + 1)
      -- each next vertex is on the left of the edge to the other
      rw [← ih, ← cross_rotate, ← cross_rotate, cross_swap, cross_rotate, cross_rotate,
        mul_neg, neg_nonneg] at hback
      rcases eq_of_height_vertex_eq_zero (le_antisymm hback hforth) with heq | heq
      · exact absurd (heq.trans ih).symm (vertex_ne (j + k))
      · exact heq.symm

/-! ## §3  The centre -/

variable (R) in
/-- The average of the vertices. -/
def centre : K × K :=
  ((∑ j ∈ range R.size, (R.vertex j).1) / R.size,
    (∑ j ∈ range R.size, (R.vertex j).2) / R.size)

theorem height_centre (R S : ConvexRing K) (k : ℕ) :
    S.height k R.centre =
      (∑ j ∈ range R.size, S.height k (R.vertex j)) / R.size := by
  have hsize : (R.size : K) ≠ 0 := Nat.cast_ne_zero.mpr R.size_pos.ne'
  unfold height centre cross
  rw [eq_div_iff hsize, ← mul_sum, sum_sub_distrib, ← mul_sum, ← mul_sum,
    sum_sub_distrib, sum_sub_distrib, sum_const, sum_const, card_range,
    nsmul_eq_mul, nsmul_eq_mul]
  field_simp

theorem inner_centre : R.Inner R.centre := by
  intro k
  rw [height_centre]
  refine div_pos ?_ (Nat.cast_pos.mpr R.size_pos)
  refine sum_pos' (fun j _ => R.convex k j) ⟨(k + 2) % R.size, mod_mem _, ?_⟩
  rw [vertex_mod]
  exact height_next_pos k

/-! ## §4  Leaving and entering -/

/-- **The exit is on the outline.** -/
theorem Inner.exists_exit {p q : K × K} (hp : R.Inner p) (hq : ¬R.Inner q) :
    ∃ t : K, 0 < t ∧ t ≤ 1 ∧ R.Outline (AffineMap.lineMap p q t) := by
  obtain ⟨k, hk⟩ := not_forall.mp hq
  obtain ⟨t, h0, h1, hall, i, -, hzero⟩ := exists_exit_of_pos
    (s := range R.size) (f := fun k => R.height k p) (g := fun k => R.height k q)
    (fun i _ => hp i)
    ⟨k % R.size, mod_mem k, by rw [height_mod]; exact not_lt.mp hk⟩
  refine ⟨t, h0, h1, i, ?_⟩
  have hclosed : R.Closed (AffineMap.lineMap p q t) := by
    intro j
    rw [← height_mod, height_lineMap]
    exact hall _ (mod_mem j)
  exact hclosed.exists_on_edge (by rw [height_lineMap]; exact hzero)

/-- An inner point stays inner a little way towards any point. -/
theorem Inner.exists_near {p : K × K} (hp : R.Inner p) (q : K × K) :
    ∃ t : K, 0 < t ∧ t < 1 ∧ R.Inner (AffineMap.lineMap p q t) := by
  obtain ⟨t, h0, h1, hall⟩ := exists_small (s := range R.size)
    (f := fun k => R.height k p) (g := fun k => R.height k q) (fun i _ => hp i)
  refine ⟨t, h0, h1, fun k => ?_⟩
  rw [← height_mod, height_lineMap]
  exact hall _ (mod_mem k)

/-- Interiors meet where a closed point of one is inner to the other. -/
theorem meets_of_closed {q : K × K} (hR : R.Closed q) (hS : S.Inner q) :
    ∃ p, R.Inner p ∧ S.Inner p := by
  obtain ⟨t, h0, h1, ht⟩ := hS.exists_near R.centre
  exact ⟨_, hR.lineMap_inner inner_centre h0 h1.le, ht⟩

/-- **Meeting interiors are equal unless an outline enters the other.** -/
theorem outline_enters {p : K × K} (hR : R.Inner p) (hS : S.Inner p) :
    (∃ q, R.Outline q ∧ S.Inner q) ∨ (∃ q, S.Outline q ∧ R.Inner q) ∨
      ∀ q, R.Inner q ↔ S.Inner q := by
  by_cases h1 : ∃ q, R.Outline q ∧ S.Inner q
  · exact .inl h1
  by_cases h2 : ∃ q, S.Outline q ∧ R.Inner q
  · exact .inr (.inl h2)
  refine .inr (.inr fun q => ⟨fun hq => ?_, fun hq => ?_⟩)
  · by_contra hn
    obtain ⟨t, h0, ht1, hout⟩ := hS.exists_exit hn
    exact h2 ⟨_, hout, hR.closed.lineMap_inner hq h0 ht1⟩
  · by_contra hn
    obtain ⟨t, h0, ht1, hout⟩ := hR.exists_exit hn
    exact h1 ⟨_, hout, hS.closed.lineMap_inner hq h0 ht1⟩

/-! ## §5  Inner points of edges -/

/-- Two edges on one line have the same heights. -/
theorem height_eq_of_same_line {i k : ℕ} (h0 : R.height k (R.vertex i) = 0)
    (h1 : R.height k (R.vertex (i + 1)) = 0) (q : K × K) :
    R.height k q = R.height i q := by
  rcases eq_of_height_vertex_eq_zero h0 with hs | hs <;>
    rcases eq_of_height_vertex_eq_zero h1 with hf | hf
  · exact absurd (hs.trans hf.symm) (vertex_ne i)
  · rw [height, height, hs, hf]
  · -- the same edge backwards would turn the ring to the other side
    have hback : R.height i (R.vertex (k + 2)) = -R.height k (R.vertex (k + 2)) := by
      rw [height, height, hs, hf, cross_swap, mul_neg]
    have h2 := R.convex i (k + 2)
    have h3 := height_next_pos (R := R) k
    unfold height at hback h3
    linarith
  · exact absurd (hs.trans hf.symm) (vertex_ne i)

/-- Inside an edge, every other edge line is strictly away. -/
theorem height_edge {i : ℕ} {t : K} (h0 : 0 < t) (h1 : t < 1) (k : ℕ) :
    0 < R.height k (AffineMap.lineMap (R.vertex i) (R.vertex (i + 1)) t) ∨
      ∀ q, R.height k q = R.height i q := by
  rw [height_lineMap]
  have ha := mul_nonneg (sub_pos.mpr h1).le (R.convex k i)
  have hb := mul_nonneg h0.le (R.convex k (i + 1))
  rcases (add_nonneg ha hb).lt_or_eq with h | h
  · exact .inl h
  · refine .inr (height_eq_of_same_line ?_ ?_)
    · have hz : (1 - t) * R.height k (R.vertex i) = 0 := by
        unfold height
        linarith
      exact (mul_eq_zero.mp hz).resolve_left (sub_pos.mpr h1).ne'
    · have hz : t * R.height k (R.vertex (i + 1)) = 0 := by
        unfold height
        linarith
      exact (mul_eq_zero.mp hz).resolve_left h0.ne'

/-- From inside an edge, a little way towards a point on the inner side is
inside the ring. -/
theorem exists_near_edge {i : ℕ} {t : K} (h0 : 0 < t) (h1 : t < 1) {q : K × K}
    (hq : 0 < R.height i q) :
    ∃ s : K, 0 < s ∧ s < 1 ∧ R.Inner (AffineMap.lineMap
      (AffineMap.lineMap (R.vertex i) (R.vertex (i + 1)) t) q s) := by
  obtain ⟨s, hs0, hs1, hall⟩ := exists_small
    (s := (range R.size).filter fun k => 0 < R.height k
      (AffineMap.lineMap (R.vertex i) (R.vertex (i + 1)) t))
    (f := fun k => R.height k
      (AffineMap.lineMap (R.vertex i) (R.vertex (i + 1)) t))
    (g := fun k => R.height k q)
    (fun k hk => (Finset.mem_filter.mp hk).2)
  refine ⟨s, hs0, hs1, fun k => ?_⟩
  rw [← height_mod, height_lineMap]
  rcases height_edge (R := R) (i := i) h0 h1 (k % R.size) with h | h
  · exact hall _ (Finset.mem_filter.mpr ⟨mod_mem k, h⟩)
  · rw [h, h, height_lineMap, height_start, height_finish]
    simpa using mul_pos hs0 hq

/-- **Interiors meet where two edges cross.** -/
theorem meets_of_crossing {i j : ℕ} {t u : K} (ht0 : 0 < t) (ht1 : t < 1)
    (hu0 : 0 ≤ u) (hu1 : u ≤ 1)
    (hcommon : AffineMap.lineMap (R.vertex i) (R.vertex (i + 1)) t =
      AffineMap.lineMap (S.vertex j) (S.vertex (j + 1)) u)
    (hcross : 0 < R.height i (S.vertex j) ∨ 0 < R.height i (S.vertex (j + 1))) :
    ∃ p, R.Inner p ∧ S.Inner p := by
  have hS : S.Closed (AffineMap.lineMap (R.vertex i) (R.vertex (i + 1)) t) := by
    rw [hcommon]
    exact (closed_vertex j).lineMap (closed_vertex (j + 1)) hu0 hu1
  have henter : ∃ e, S.Closed e ∧ 0 < R.height i e := by
    rcases hcross with h | h
    · exact ⟨_, closed_vertex j, h⟩
    · exact ⟨_, closed_vertex (j + 1), h⟩
  obtain ⟨e, he, hpos⟩ := henter
  obtain ⟨s, hs0, hs1, hinner⟩ := exists_near_edge ht0 ht1 hpos
  obtain ⟨p, hp⟩ := meets_of_closed (hS.lineMap he hs0.le hs1.le) hinner
  exact ⟨p, hp.2, hp.1⟩

/-- **Interiors meet where two edges overlap on the same side.** -/
theorem meets_of_overlap {i j : ℕ} {t u : K} (ht0 : 0 < t) (ht1 : t < 1)
    (hu0 : 0 < u) (hu1 : u < 1)
    (hcommon : AffineMap.lineMap (R.vertex i) (R.vertex (i + 1)) t =
      AffineMap.lineMap (S.vertex j) (S.vertex (j + 1)) u)
    {q : K × K} (hR : 0 < R.height i q) (hS : 0 < S.height j q) :
    ∃ p, R.Inner p ∧ S.Inner p := by
  obtain ⟨a, ha0, ha1, hRin⟩ := exists_near_edge ht0 ht1 hR
  obtain ⟨b, hb0, hb1, hSin⟩ := exists_near_edge hu0 hu1 hS
  rw [← hcommon] at hSin
  have hRcl : R.Closed (AffineMap.lineMap (R.vertex i) (R.vertex (i + 1)) t) :=
    (closed_vertex i).lineMap (closed_vertex (i + 1)) ht0.le ht1.le
  have hScl : S.Closed (AffineMap.lineMap (R.vertex i) (R.vertex (i + 1)) t) := by
    rw [hcommon]
    exact (closed_vertex j).lineMap (closed_vertex (j + 1)) hu0.le hu1.le
  -- the shorter of the two steps is inside both
  have hshorter : ∀ {T : ConvexRing K} {r : K × K} {a b : K}, T.Closed r →
      0 < b → b ≤ a → 0 < a → T.Inner (AffineMap.lineMap r q a) →
      T.Inner (AffineMap.lineMap r q b) := by
    intro T r a b hr hb hba ha hin
    have hstep : AffineMap.lineMap r (AffineMap.lineMap r q a) (b / a) =
        AffineMap.lineMap r q b := by
      refine Prod.ext ?_ ?_
      · simp only [lineMap_fst]
        field_simp
        ring
      · simp only [lineMap_snd]
        field_simp
        ring
    rw [← hstep]
    exact hr.lineMap_inner hin (div_pos hb ha) ((div_le_one ha).mpr hba)
  rcases le_total a b with hab | hab
  · exact ⟨_, hRin, hshorter hScl ha0 hab hb0 hSin⟩
  · exact ⟨_, hshorter hRcl hb0 hab ha0 hRin, hSin⟩

/-! ## §6  The interior is bounded by the vertices -/

/-- **No closed point is further in a direction than the furthest vertex.** -/
theorem Closed.le_furthest {q : K × K} (hq : R.Closed q) {α β c : K}
    (hc : ∀ j, α * (R.vertex j).1 + β * (R.vertex j).2 ≤ c) :
    α * q.1 + β * q.2 ≤ c := by
  -- the furthest vertex, with a predecessor in the sequence
  obtain ⟨n, -, hn⟩ := (range R.size).exists_max_image
    (fun j => α * (R.vertex j).1 + β * (R.vertex j).2)
    ⟨0, Finset.mem_range.mpr R.size_pos⟩
  obtain ⟨m, hm⟩ : ∃ m, R.vertex (m + 1) = R.vertex n := by
    refine ⟨n + (R.size - 1), ?_⟩
    rw [show n + (R.size - 1) + 1 = n + R.size by have := R.size_pos; omega]
    exact R.periodic n
  have hmax : ∀ j, α * (R.vertex j).1 + β * (R.vertex j).2 ≤
      α * (R.vertex (m + 1)).1 + β * (R.vertex (m + 1)).2 := by
    intro j
    have := hn _ (mod_mem j)
    rwa [vertex_mod, ← hm] at this
  refine le_trans ?_ (hc (m + 1))
  by_contra hgt
  push Not at hgt
  -- the three cross products at that vertex, weighed by the other direction,
  -- cancel, but each term is non-negative and the first is positive
  have hcancel :
      R.side * cross (R.vertex m) (R.vertex (m + 1)) (R.vertex (m + 2)) *
          (α * q.1 + β * q.2 -
            (α * (R.vertex (m + 1)).1 + β * (R.vertex (m + 1)).2)) +
        R.height m q *
          (α * (R.vertex (m + 1)).1 + β * (R.vertex (m + 1)).2 -
            (α * (R.vertex (m + 2)).1 + β * (R.vertex (m + 2)).2)) +
        R.height (m + 1) q *
          (α * (R.vertex (m + 1)).1 + β * (R.vertex (m + 1)).2 -
            (α * (R.vertex m).1 + β * (R.vertex m).2)) = 0 := by
    unfold height cross
    ring
  have h1 := mul_pos (R.turn m) (sub_pos.mpr hgt)
  have h2 := mul_nonneg (hq m) (sub_nonneg.mpr (hmax (m + 2)))
  have h3 := mul_nonneg (hq (m + 1)) (sub_nonneg.mpr (hmax m))
  linarith

theorem Inner.le_furthest {q : K × K} (hq : R.Inner q) {α β c : K}
    (hc : ∀ j, α * (R.vertex j).1 + β * (R.vertex j).2 ≤ c) :
    α * q.1 + β * q.2 ≤ c :=
  hq.closed.le_furthest hc

theorem Closed.exists_furthest {q : K × K} (hq : R.Closed q) (α β : K) :
    ∃ j, α * q.1 + β * q.2 ≤ α * (R.vertex j).1 + β * (R.vertex j).2 := by
  obtain ⟨m, -, hm⟩ := (range R.size).exists_max_image
    (fun j => α * (R.vertex j).1 + β * (R.vertex j).2)
    ⟨0, Finset.mem_range.mpr R.size_pos⟩
  refine ⟨m, hq.le_furthest fun j => ?_⟩
  have := hm _ (mod_mem j)
  rwa [vertex_mod] at this

/-- An inner point is strictly nearer than some vertex. -/
theorem Inner.exists_further {q : K × K} (hq : R.Inner q) {α β : K} (h : (α, β) ≠ (0 : K × K)) :
    ∃ j, α * q.1 + β * q.2 < α * (R.vertex j).1 + β * (R.vertex j).2 := by
  obtain ⟨t, h0, -, ht⟩ := hq.exists_near (q.1 + α, q.2 + β)
  obtain ⟨j, hj⟩ := ht.closed.exists_furthest α β
  refine ⟨j, lt_of_lt_of_le ?_ hj⟩
  have hsq : 0 < α * α + β * β := by
    rcases not_and_or.mp (fun hz : α = 0 ∧ β = 0 => h (Prod.ext hz.1 hz.2)) with hz | hz
    · exact add_pos_of_pos_of_nonneg (mul_self_pos.mpr hz) (mul_self_nonneg _)
    · exact add_pos_of_nonneg_of_pos (mul_self_nonneg _) (mul_self_pos.mpr hz)
  rw [lineMap_fst, lineMap_snd]
  have := mul_pos h0 hsq
  simp only [add_sub_cancel_left]
  linarith

/-- Every direction from an inner point leaves the interior. -/
theorem exists_not_inner (R : ConvexRing K) (p : K × K) {d : K × K} (hd : d ≠ 0) :
    ∃ t : K, 1 < t ∧ ¬R.Inner (p + t • d) := by
  obtain ⟨m, -, hm⟩ := (range R.size).exists_max_image
    (fun j => d.1 * (R.vertex j).1 + d.2 * (R.vertex j).2)
    ⟨0, Finset.mem_range.mpr R.size_pos⟩
  have hsq : 0 < d.1 * d.1 + d.2 * d.2 := by
    rcases not_and_or.mp (fun h : d.1 = 0 ∧ d.2 = 0 => hd (Prod.ext h.1 h.2))
      with h | h
    · exact add_pos_of_pos_of_nonneg (mul_self_pos.mpr h) (mul_self_nonneg _)
    · exact add_pos_of_nonneg_of_pos (mul_self_nonneg _) (mul_self_pos.mpr h)
  let excess := d.1 * (R.vertex m).1 + d.2 * (R.vertex m).2 -
    (d.1 * p.1 + d.2 * p.2)
  refine ⟨max 1 (excess / (d.1 * d.1 + d.2 * d.2)) + 1, ?_, fun hin => ?_⟩
  · exact lt_add_of_le_of_pos (le_max_left _ _) one_pos
  · have hle := hin.le_furthest (α := d.1) (β := d.2)
      (c := d.1 * (R.vertex m).1 + d.2 * (R.vertex m).2) fun j => by
        have := hm _ (mod_mem j)
        rwa [vertex_mod] at this
    simp only [Prod.fst_add, Prod.snd_add, Prod.smul_fst, Prod.smul_snd,
      smul_eq_mul] at hle
    have hmax : excess ≤
        max 1 (excess / (d.1 * d.1 + d.2 * d.2)) * (d.1 * d.1 + d.2 * d.2) :=
      (div_le_iff₀ hsq).mp (le_max_right _ _)
    simp only [excess] at hmax hle
    linarith

/-! ## §7  The interior of the hull -/

/-- The convex hull of the vertices. -/
def hull (R : ConvexRing K) : Set (K × K) := convexHull K (Set.range R.vertex)

theorem convex_closed (R : ConvexRing K) : Convex K {q | R.Closed q} := by
  intro p hp q hq a b ha hb hab k
  have h : R.height k (a • p + b • q) = a * R.height k p + b * R.height k q := by
    have ha' : a = 1 - b := by linarith
    subst ha'
    unfold height cross
    simp only [Prod.fst_add, Prod.snd_add, Prod.smul_fst, Prod.smul_snd,
      smul_eq_mul]
    ring
  rw [h]
  exact add_nonneg (mul_nonneg ha (hp k)) (mul_nonneg hb (hq k))

theorem hull_subset_closed {q : K × K} (hq : q ∈ R.hull) : R.Closed q := by
  have h : R.hull ⊆ {q | R.Closed q} :=
    convexHull_min (Set.range_subset_iff.mpr closed_vertex) (convex_closed R)
  exact h hq

theorem Outline.mem_hull {q : K × K} (h : R.Outline q) : q ∈ R.hull := by
  obtain ⟨k, t, h0, h1, rfl⟩ := h
  exact (convex_convexHull K _).lineMap_mem
    (subset_convexHull K _ (Set.mem_range_self k))
    (subset_convexHull K _ (Set.mem_range_self (k + 1))) ⟨h0, h1⟩

/-- An inner point is between two outline points, so in the hull. -/
theorem Inner.mem_hull {q : K × K} (hq : R.Inner q) : q ∈ R.hull := by
  have hout : ∀ d : K × K, d ≠ 0 → ∃ t : K, 0 < t ∧ R.Outline (q + t • d) := by
    intro d hd
    obtain ⟨T, hT, hnot⟩ := exists_not_inner R q hd
    obtain ⟨t, h0, -, ht⟩ := hq.exists_exit hnot
    refine ⟨t * T, mul_pos h0 (one_pos.trans hT), ?_⟩
    have hstep : AffineMap.lineMap q (q + T • d) t = q + (t * T) • d := by
      rw [AffineMap.lineMap_apply, vsub_eq_sub, add_sub_cancel_left, vadd_eq_add,
        smul_smul, add_comm]
    rwa [← hstep]
  obtain ⟨a, ha, hpa⟩ := hout (1, 0) (by simp)
  obtain ⟨b, hb, hpb⟩ := hout (-1, 0) (by simp)
  have hmid : AffineMap.lineMap (q + a • ((1, 0) : K × K)) (q + b • ((-1, 0) : K × K))
      (a / (a + b)) = q := by
    refine Prod.ext ?_ ?_
    · rw [lineMap_fst]
      simp only [Prod.fst_add, Prod.smul_fst, smul_eq_mul]
      field_simp
      ring
    · rw [lineMap_snd]
      simp
  rw [← hmid]
  refine (convex_convexHull K _).lineMap_mem hpa.mem_hull hpb.mem_hull
    ⟨by positivity, ?_⟩
  exact (div_le_one (by positivity)).mpr (by linarith)

/-- **The closed ring is the hull.** -/
theorem Closed.mem_hull {q : K × K} (hq : R.Closed q) : q ∈ R.hull := by
  by_cases hinner : R.Inner q
  · exact hinner.mem_hull
  · unfold Inner at hinner
    push Not at hinner
    obtain ⟨k, hk⟩ := hinner
    obtain ⟨t, h0, h1, ht⟩ := hq.exists_on_edge (le_antisymm hk (hq k))
    exact Outline.mem_hull ⟨k, t, h0, h1, ht⟩

/-- **Inner is the interior of the hull.** -/
theorem mem_core_hull_iff {q : K × K} : q ∈ core R.hull ↔ R.Inner q := by
  constructor
  · intro hq k
    -- follow the outward normal of the edge a little
    let d : K × K := (R.side * ((R.vertex (k + 1)).2 - (R.vertex k).2),
      -(R.side * ((R.vertex (k + 1)).1 - (R.vertex k).1)))
    obtain ⟨t, h0, ht⟩ := hq d
    have hclosed := hull_subset_closed ht k
    have hside : R.side ≠ 0 := by
      intro hs
      simpa [hs] using R.turn k
    have hdrop : R.height k (q + t • d) = R.height k q - t * (d.1 * d.1 + d.2 * d.2) := by
      simp only [height, cross, d, Prod.fst_add, Prod.snd_add, Prod.smul_fst,
        Prod.smul_snd, smul_eq_mul]
      ring
    have hd : 0 < d.1 * d.1 + d.2 * d.2 := by
      rcases not_and_or.mp (fun h : (R.vertex k).1 = (R.vertex (k + 1)).1 ∧
        (R.vertex k).2 = (R.vertex (k + 1)).2 =>
          vertex_ne k (Prod.ext h.1 h.2)) with h | h
      · refine add_pos_of_nonneg_of_pos (mul_self_nonneg _) (mul_self_pos.mpr ?_)
        exact neg_ne_zero.mpr (mul_ne_zero hside (sub_ne_zero.mpr (Ne.symm h)))
      · refine add_pos_of_pos_of_nonneg (mul_self_pos.mpr ?_) (mul_self_nonneg _)
        exact mul_ne_zero hside (sub_ne_zero.mpr (Ne.symm h))
    have := mul_pos h0 hd
    linarith
  · intro hq d
    obtain ⟨t, h0, -, ht⟩ := hq.exists_near (q + d)
    refine ⟨t, h0, ?_⟩
    have hstep : AffineMap.lineMap q (q + d) t = q + t • d := by
      rw [AffineMap.lineMap_apply, vsub_eq_sub, add_sub_cancel_left, vadd_eq_add,
        add_comm]
    rw [← hstep]
    exact ht.mem_hull

end ConvexRing

end Plane
