import Mathlib.Analysis.Convex.Between
import PolygonNesting.Lib.CyclicNeighbours
import PolygonNesting.Lib.EdgeMerge

set_option linter.unusedSectionVars false

/-!
# Once around a strict ring

A closed walk of points that keeps a strict ring on its left, stays in it,
comes by every vertex and reaches the first vertex once.  A point of the
segment between its neighbours can be put in and taken out; the walk that has
none left is the ring.
-/

namespace Plane

open CyclicNeighbours

variable {K : Type} [Field K] [LinearOrder K] [IsStrictOrderedRing K]

/-- A walk once around a ring. -/
structure Around (R : StrictRing K) (l : List (K × K)) : Prop where
  left : ∀ e ∈ neighbours l, ∀ k, 0 ≤ cross e.1 e.2 (R.vertex k)
  closed : ∀ q ∈ l, R.toConvexRing.Closed q
  vertex_mem : ∀ k, R.vertex k ∈ l
  once : (neighbours l).countP (fun e => decide (e.1 ≠ R.vertex 0 ∧ e.2 = R.vertex 0)) = 1

/-! ## §1  Points between -/

theorem cross_between {a b c : K × K} (h : Wbtw K a b c) (q : K × K) :
    ∃ t : K, 0 ≤ t ∧ t ≤ 1 ∧ cross a b q = t * cross a c q ∧ cross b c q = (1 - t) * cross a c q := by
  obtain ⟨t, ⟨h0, h1⟩, rfl⟩ := h
  refine ⟨t, h0, h1, ?_, ?_⟩ <;> simp only [cross, lineMap_fst, lineMap_snd] <;> ring

namespace StrictRing

variable {R : StrictRing K}

/-- **A vertex is between two enclosed points only if it is one of them.** -/
theorem eq_of_wbtw_vertex {a c : K × K} {k : ℕ} (h : Wbtw K a (R.vertex k) c)
    (ha : R.toConvexRing.Closed a) (hc : R.toConvexRing.Closed c) :
    R.vertex k = a ∨ R.vertex k = c := by
  have hsize := R.three_le
  obtain ⟨m, hm⟩ : ∃ m, R.vertex k = R.vertex (m + 1) := by
    refine ⟨k + (R.size - 1), ?_⟩
    rw [show k + (R.size - 1) + 1 = k + R.size by omega, R.periodic]
  obtain ⟨t, ⟨h0, h1⟩, ht⟩ := h
  rw [hm] at ht ⊢
  have hmix1 : (1 - t) * cross (R.vertex m) (R.vertex (m + 1)) a +
      t * cross (R.vertex m) (R.vertex (m + 1)) c = 0 := by
    rw [← cross_lineMap, ht, cross_right]
  have hmix2 : (1 - t) * cross (R.vertex (m + 1)) (R.vertex (m + 2)) a +
      t * cross (R.vertex (m + 1)) (R.vertex (m + 2)) c = 0 := by
    rw [← cross_lineMap, ht, cross_left]
  have ha1 := closed_iff.mp ha m
  have ha2 := closed_iff.mp ha (m + 1)
  have hc1 := closed_iff.mp hc m
  have hc2 := closed_iff.mp hc (m + 1)
  rcases h1.lt_or_eq with h1 | rfl
  · -- short of the far end the near end is on both edge lines
    have hpos : 0 < 1 - t := sub_pos.mpr h1
    refine .inl (eq_vertex_of_cross_eq_zero (R := R) ?_ ?_).symm
    · have := mul_nonneg h0 hc1
      exact le_antisymm (nonpos_of_mul_nonpos_right (by linarith) hpos) ha1
    · have := mul_nonneg h0 hc2
      exact le_antisymm (nonpos_of_mul_nonpos_right (by linarith) hpos) ha2
  · rw [AffineMap.lineMap_apply_one] at ht
    exact .inr ht.symm

end StrictRing

/-! ## §2  The walk -/

namespace Around

variable {R : StrictRing K} {l : List (K × K)} {a b c : K × K} {rest : List (K × K)}

theorem isRotated (h : Around R l) {l' : List (K × K)} (hrot : l ~r l') : Around R l' where
  left e he := h.left e ((neighbours_perm hrot).mem_iff.mp he)
  closed q hq := h.closed q (hrot.mem_iff.mpr hq)
  vertex_mem k := hrot.mem_iff.mp (h.vertex_mem k)
  once := ((neighbours_perm hrot).countP_eq _).trans h.once

/-- A point between its neighbours leaves the number of arrivals as it is. -/
theorem arrivals_eq (hb : Wbtw K a b c) (ha : R.toConvexRing.Closed a)
    (hc : R.toConvexRing.Closed c) :
    (neighbours (a :: b :: c :: rest)).countP
        (fun e => decide (e.1 ≠ R.vertex 0 ∧ e.2 = R.vertex 0)) =
      (neighbours (a :: c :: rest)).countP
        (fun e => decide (e.1 ≠ R.vertex 0 ∧ e.2 = R.vertex 0)) := by
  have hend : b = R.vertex 0 → a = R.vertex 0 ∨ c = R.vertex 0 := by
    intro heq
    rw [heq] at hb
    exact (R.eq_of_wbtw_vertex hb ha hc).imp Eq.symm Eq.symm
  have hself : a = R.vertex 0 → c = R.vertex 0 → b = R.vertex 0 := by
    rintro rfl rfl
    exact (wbtw_self_iff K).mp hb
  rw [neighbours_cons, neighbours_cons, List.cons_append, List.zip_cons_cons, List.countP_cons,
    List.countP_cons, List.countP_cons, Nat.add_assoc]
  refine congrArg _ ?_
  by_cases hav : a = R.vertex 0 <;> by_cases hbv : b = R.vertex 0 <;>
    by_cases hcv : c = R.vertex 0 <;> simp_all

/-- **A point put in** between its neighbours. -/
theorem insert (hb : Wbtw K a b c) (h : Around R (a :: c :: rest)) :
    Around R (a :: b :: c :: rest) where
  left := by
    intro e he k
    obtain ⟨t, h0, h1, hab, hbc⟩ := cross_between hb (R.vertex k)
    have hac : 0 ≤ cross a c (R.vertex k) := h.left (a, c) List.mem_cons_self k
    rw [neighbours_cons, List.cons_append, List.zip_cons_cons] at he
    rcases List.mem_cons.mp he with rfl | he
    · show 0 ≤ cross a b (R.vertex k)
      rw [hab]
      exact mul_nonneg h0 hac
    rcases List.mem_cons.mp he with rfl | he
    · show 0 ≤ cross b c (R.vertex k)
      rw [hbc]
      exact mul_nonneg (sub_nonneg.mpr h1) hac
    · exact h.left e (List.mem_cons_of_mem _ he) k
  closed := by
    intro q hq
    rcases List.mem_cons.mp hq with rfl | hq
    · exact h.closed _ List.mem_cons_self
    rcases List.mem_cons.mp hq with rfl | hq
    · obtain ⟨t, ⟨h0, h1⟩, rfl⟩ := hb
      exact (h.closed a List.mem_cons_self).lineMap
        (h.closed c (List.mem_cons_of_mem _ List.mem_cons_self)) h0 h1
    · exact h.closed q (List.mem_cons_of_mem _ hq)
  vertex_mem k := by
    rcases List.mem_cons.mp (h.vertex_mem k) with heq | hmem
    · rw [heq]
      exact List.mem_cons_self
    · exact List.mem_cons_of_mem _ (List.mem_cons_of_mem _ hmem)
  once := (arrivals_eq hb (h.closed a List.mem_cons_self)
    (h.closed c (List.mem_cons_of_mem _ List.mem_cons_self))).trans h.once

/-- **A point taken out** between its neighbours: a vertex is there twice. -/
theorem remove (hb : Wbtw K a b c) (h : Around R (a :: b :: c :: rest)) :
    Around R (a :: c :: rest) := by
  have ha := h.closed a List.mem_cons_self
  have hc := h.closed c (List.mem_cons_of_mem _ (List.mem_cons_of_mem _ List.mem_cons_self))
  refine ⟨fun e he k => ?_, fun q hq => ?_, fun k => ?_, (arrivals_eq hb ha hc).symm.trans h.once⟩
  · rw [neighbours_cons] at he
    rcases List.mem_cons.mp he with rfl | he
    · obtain ⟨t, -, -, hab, hbc⟩ := cross_between hb (R.vertex k)
      have h1 : 0 ≤ cross a b (R.vertex k) := h.left (a, b) List.mem_cons_self k
      have h2 : 0 ≤ cross b c (R.vertex k) :=
        h.left (b, c) (List.mem_cons_of_mem _ List.mem_cons_self) k
      show 0 ≤ cross a c (R.vertex k)
      linarith
    · exact h.left e (List.mem_cons_of_mem _ (List.mem_cons_of_mem _ he)) k
  · rcases List.mem_cons.mp hq with rfl | hq
    · exact ha
    · exact h.closed q (List.mem_cons_of_mem _ (List.mem_cons_of_mem _ hq))
  · have hmem := h.vertex_mem k
    rcases List.mem_cons.mp hmem with heq | hmem
    · rw [heq]
      exact List.mem_cons_self
    rcases List.mem_cons.mp hmem with heq | hmem
    · rw [← heq] at hb
      rcases R.eq_of_wbtw_vertex hb ha hc with heq' | heq'
      · rw [heq']
        exact List.mem_cons_self
      · rw [heq']
        exact List.mem_cons_of_mem _ List.mem_cons_self
    · exact List.mem_cons_of_mem _ hmem

end Around

/-! ## §3  The walk with nothing between -/

section

variable {l : List (K × K)}

/-- The walk as a periodic sequence. -/
def walkAt (l : List (K × K)) (k : ℕ) : K × K := l.getD (k % l.length) 0

theorem neighbours_eq (l : List (K × K)) :
    neighbours l = (List.range l.length).map fun k : ℕ => (walkAt l k, walkAt l (k + 1)) :=
  neighbours_eq_map l 0

theorem periodic_walkAt (l : List (K × K)) : Function.Periodic (walkAt l) l.length := by
  intro k
  unfold walkAt
  rw [Nat.add_mod_right]

theorem exists_walkAt {q : K × K} (hq : q ∈ l) : ∃ k < l.length, walkAt l k = q := by
  obtain ⟨k, hk, rfl⟩ := List.getElem_of_mem hq
  refine ⟨k, hk, ?_⟩
  unfold walkAt
  rw [Nat.mod_eq_of_lt hk, List.getD_eq_getElem _ _ hk]

theorem walkAt_mem (h : 0 < l.length) (k : ℕ) : walkAt l k ∈ l := by
  unfold walkAt
  rw [List.getD_eq_getElem _ _ (Nat.mod_lt k h)]
  exact List.getElem_mem _

end

namespace Around

variable {R : StrictRing K} {l : List (K × K)}

/-- The first three vertices are there. -/
theorem three_le (h : Around R l) : 3 ≤ l.length := by
  have hne : ∀ d, 0 < d → d < 3 → ∀ i, R.vertex i ≠ R.vertex (i + d) := fun d h0 h3 i heq =>
    R.not_modEq_add h0 h3 i (R.vertex_eq_iff.mp heq.symm)
  have hnodup : [R.vertex 0, R.vertex 1, R.vertex 2].Nodup := by
    simp only [List.nodup_cons, List.mem_cons, List.not_mem_nil, or_false, not_or,
      not_false_eq_true, List.nodup_nil, and_true]
    exact ⟨⟨hne 1 (by omega) (by omega) 0, hne 2 (by omega) (by omega) 0⟩,
      hne 1 (by omega) (by omega) 1⟩
  have hsub : [R.vertex 0, R.vertex 1, R.vertex 2] ⊆ l := by
    intro q hq
    simp only [List.mem_cons, List.not_mem_nil, or_false] at hq
    rcases hq with rfl | rfl | rfl
    · exact h.vertex_mem 0
    · exact h.vertex_mem 1
    · exact h.vertex_mem 2
  exact (List.subperm_of_subset hnodup hsub).length_le

theorem length_pos (h : Around R l) : 0 < l.length := by
  have := h.three_le
  omega

/-- Everything the ring encloses is on the left. -/
theorem left_closed (h : Around R l) (k : ℕ) {q : K × K} (hq : R.toConvexRing.Closed q) :
    0 ≤ cross (walkAt l k) (walkAt l (k + 1)) q := by
  have hmem : (walkAt l k, walkAt l (k + 1)) ∈ neighbours l := by
    rw [neighbours_eq]
    refine List.mem_map.mpr ⟨k % l.length, List.mem_range.mpr (Nat.mod_lt k h.length_pos), ?_⟩
    rw [(periodic_walkAt l).map_mod_nat, ← (periodic_walkAt l).map_mod_nat (k % l.length + 1),
      Nat.mod_add_mod, (periodic_walkAt l).map_mod_nat]
  have hvertex := h.left _ hmem
  generalize walkAt l k = a at hvertex ⊢
  generalize walkAt l (k + 1) = b at hvertex ⊢
  have hle := hq.le_furthest (α := b.2 - a.2) (β := -(b.1 - a.1))
    (c := (b.2 - a.2) * a.1 - (b.1 - a.1) * a.2) (fun j => by
      have := hvertex j
      simp only [cross, StrictRing.toConvexRing_vertex] at this ⊢
      linarith)
  unfold cross
  linarith

/-- The walk with nothing between its neighbours. -/
theorem hullWalk (h : Around R l)
    (hbetween : ∀ k, ¬Wbtw K (walkAt l k) (walkAt l (k + 1)) (walkAt l (k + 2))) :
    HullWalk (walkAt l) l.length {q | R.toConvexRing.Closed q} where
  size_pos := h.length_pos
  periodic := periodic_walkAt l
  vertex_mem k := h.closed _ (walkAt_mem h.length_pos k)
  left k q hq := h.left_closed k hq
  vertex_ne k heq := by
    refine hbetween k ?_
    rw [heq]
    exact wbtw_self_left K _ _
  not_straight k t ht hedge := by
    refine hbetween k ⟨1 / (1 + t), ⟨by positivity, ?_⟩, ?_⟩
    · rw [div_le_one (by positivity)]
      linarith
    · have hne : 1 + t ≠ 0 := by positivity
      have h1 := congrArg Prod.fst hedge
      have h2 := congrArg Prod.snd hedge
      simp only [edge, Prod.fst_sub, Prod.snd_sub, Prod.smul_fst, Prod.smul_snd, smul_eq_mul] at h1 h2
      refine Prod.ext ?_ ?_
      · rw [lineMap_fst]
        field_simp
        linear_combination h1
      · rw [lineMap_snd]
        field_simp
        linear_combination h2
  spans a d hd := by
    obtain ⟨k, hk⟩ := R.exists_det_ne_zero a hd
    exact ⟨_, ConvexRing.closed_vertex (R := R.toConvexRing) k, hk⟩

/-- **It visits no point twice**: else it would reach the first vertex twice. -/
theorem injective (h : Around R l)
    (hbetween : ∀ k, ¬Wbtw K (walkAt l k) (walkAt l (k + 1)) (walkAt l (k + 2))) (i j : ℕ)
    (hij : i < j) (hj : j < l.length) : walkAt l i ≠ walkAt l j := by
  intro heq
  have hwalk := h.hullWalk hbetween
  have hper := periodic_walkAt l
  have hshift := ConvexRing.vertex_shift (R := hwalk.toConvexRing) heq
  obtain ⟨m, hm, hfirst⟩ := exists_walkAt (h.vertex_mem 0)
  have hmod : ∀ k, walkAt l ((k + l.length - 1) % l.length + 1) = walkAt l k := by
    intro k
    rw [← hper.map_mod_nat, Nat.mod_add_mod, Nat.sub_add_cancel (by omega), Nat.add_mod_right,
      hper.map_mod_nat]
  -- the arrival at an index where the first vertex is
  have harrival : ∀ k, walkAt l k = R.vertex 0 →
      decide (walkAt l ((k + l.length - 1) % l.length) ≠ R.vertex 0 ∧
        walkAt l ((k + l.length - 1) % l.length + 1) = R.vertex 0) = true := by
    intro k hk
    rw [decide_eq_true_iff, hmod]
    refine ⟨fun hsame => hwalk.vertex_ne ((k + l.length - 1) % l.length) ?_, hk⟩
    rw [hmod, hsame, hk]
  have honce := h.once
  rw [neighbours_eq, List.countP_map, List.countP_eq_length_filter, List.length_eq_one_iff] at honce
  obtain ⟨t, ht⟩ := honce
  have hunique : ∀ k, walkAt l k = R.vertex 0 → (k + l.length - 1) % l.length = t := by
    intro k hk
    refine List.mem_singleton.mp ?_
    rw [← ht]
    exact List.mem_filter.mpr ⟨List.mem_range.mpr (Nat.mod_lt _ h.length_pos), harrival k hk⟩
  have hagain : walkAt l (m + (j - i)) = R.vertex 0 := by
    have hrun : walkAt l (i + (m + l.length - i)) = walkAt l (j + (m + l.length - i)) :=
      hshift (m + l.length - i)
    rw [show i + (m + l.length - i) = m + l.length by omega, hper,
      show j + (m + l.length - i) = m + (j - i) + l.length by omega, hper] at hrun
    rw [← hrun, hfirst]
  have hsame := (hunique _ hagain).trans (hunique _ hfirst).symm
  have hdiff : (m + (j - i) + l.length - 1) - (m + l.length - 1) = j - i := by omega
  have hdvd : l.length ∣ j - i := by
    rw [← hdiff]
    exact (Nat.modEq_iff_dvd' (by omega)).mp hsame.symm
  exact absurd (Nat.le_of_dvd (by omega) hdvd) (by omega)

/-- **The walk with nothing between is a strict ring** that encloses what the
ring encloses. -/
theorem exists_strictRing (h : Around R l)
    (hbetween : ∀ k, ¬Wbtw K (walkAt l k) (walkAt l (k + 1)) (walkAt l (k + 2))) :
    ∃ S : StrictRing K, S.size = l.length ∧ S.vertex = walkAt l ∧
      ∀ q, R.toConvexRing.Closed q → S.toConvexRing.Closed q :=
  ⟨(h.hullWalk hbetween).toStrictRing (h.injective hbetween), rfl, rfl,
    fun _ hq => (h.hullWalk hbetween).closed (h.injective hbetween) hq⟩

/-- A ring walks around itself. -/
theorem self (hsize : R.size = l.length) (hvertex : ∀ k, R.vertex k = walkAt l k) :
    Around R l where
  left e he k := by
    rw [neighbours_eq] at he
    obtain ⟨j, -, rfl⟩ := List.mem_map.mp he
    rw [← hvertex, ← hvertex]
    exact R.convex j k
  closed q hq := by
    obtain ⟨k, -, rfl⟩ := exists_walkAt hq
    rw [← hvertex]
    exact ConvexRing.closed_vertex (R := R.toConvexRing) k
  vertex_mem k := by
    have hpos : 0 < l.length := by
      have := R.three_le
      omega
    rw [hvertex]
    exact walkAt_mem hpos k
  once := by
    have hlen := R.three_le
    rw [neighbours_eq, List.countP_map, List.countP_congr (q := fun k => k == l.length - 1)]
    · exact List.count_eq_one_of_mem List.nodup_range (List.mem_range.mpr (by omega))
    · intro k hk
      have hk := List.mem_range.mp hk
      rw [Function.comp_apply, decide_eq_true_iff, beq_iff_eq, ← hvertex, ← hvertex, Ne,
        R.vertex_eq_iff, R.vertex_eq_iff, Nat.ModEq, Nat.ModEq, hsize, Nat.zero_mod,
        Nat.mod_eq_of_lt hk]
      constructor
      · rintro ⟨-, hend⟩
        by_contra hne
        rw [Nat.mod_eq_of_lt (by omega)] at hend
        omega
      · rintro rfl
        exact ⟨by omega, by rw [Nat.sub_add_cancel (by omega), Nat.mod_self]⟩

end Around

end Plane
