import PolygonNesting.Lib.StrictRing

/-!
# Merging the edges of two rings

Two strict rings, each walked from its lowest vertex, have their edges in the
order of direction.  Merging the two sequences of edges, and taking both edges
where they are parallel, walks around the sums of their points: the walk is a
strict ring that encloses every sum.
-/

namespace Plane

variable {K : Type} [Field K] [LinearOrder K] [IsStrictOrderedRing K]

open HalfPlane

/-! ## §1  The order of directions -/

/-- Counted counter-clockwise from the positive first axis. -/
def DirectionLt (a b : K × K) : Prop :=
  ((upper K).mem a ∧ ¬(upper K).mem b) ∨ (((upper K).mem a ↔ (upper K).mem b) ∧ 0 < det a b)

def DirectionLe (a b : K × K) : Prop :=
  ((upper K).mem a ∧ ¬(upper K).mem b) ∨ (((upper K).mem a ↔ (upper K).mem b) ∧ 0 ≤ det a b)

/-- Parallel, and not opposite. -/
def SameDirection (a b : K × K) : Prop :=
  ((upper K).mem a ↔ (upper K).mem b) ∧ det a b = 0

theorem DirectionLt.le {a b : K × K} (h : DirectionLt a b) : DirectionLe a b :=
  h.imp_right fun h => ⟨h.1, h.2.le⟩

theorem SameDirection.le {a b : K × K} (h : SameDirection a b) : DirectionLe a b :=
  .inr ⟨h.1, h.2.ge⟩

theorem SameDirection.symm {a b : K × K} (h : SameDirection a b) : SameDirection b a :=
  ⟨h.1.symm, by rw [det_swap, h.2, neg_zero]⟩

theorem DirectionLt.irrefl (a : K × K) : ¬DirectionLt a a := by
  rintro (⟨h, h'⟩ | ⟨-, h⟩)
  · exact h' h
  · rw [det_self] at h
    exact lt_irrefl _ h

theorem lower_of_not_upper {a : K × K} (ha : a ≠ 0) (h : ¬(upper K).mem a) :
    (upper K).opposite.mem a :=
  ((upper K).total ha).resolve_left h

theorem DirectionLe.trans_lt {a b c : K × K} (ha : a ≠ 0) (hb : b ≠ 0) (hc : c ≠ 0)
    (hab : DirectionLe a b) (hbc : DirectionLt b c) : DirectionLt a c := by
  rcases hab with ⟨hab, hab'⟩ | ⟨hab, hdet⟩
  · rcases hbc with ⟨hbc, -⟩ | ⟨hbc, -⟩
    · exact absurd hbc hab'
    · exact .inl ⟨hab, fun h => hab' (hbc.mpr h)⟩
  · rcases hbc with ⟨hbc, hbc'⟩ | ⟨hbc, hdet'⟩
    · exact .inl ⟨hab.mpr hbc, hbc'⟩
    · refine .inr ⟨hab.trans hbc, ?_⟩
      by_cases hup : (upper K).mem b
      · exact (upper K).det_pos_trans (hab.mpr hup) hup (hbc.mp hup) hdet hdet'.le
          (.inl hdet'.ne')
      · exact (upper K).opposite.det_pos_trans
          (lower_of_not_upper ha fun h => hup (hab.mp h)) (lower_of_not_upper hb hup)
          (lower_of_not_upper hc fun h => hup (hbc.mpr h)) hdet hdet'.le (.inl hdet'.ne')

theorem DirectionLt.trans {a b c : K × K} (ha : a ≠ 0) (hb : b ≠ 0) (hc : c ≠ 0)
    (hab : DirectionLt a b) (hbc : DirectionLt b c) : DirectionLt a c :=
  hab.le.trans_lt ha hb hc hbc

theorem upper_smul_iff {t : K} (ht : 0 < t) {a : K × K} :
    (upper K).mem (t • a) ↔ (upper K).mem a := by
  refine ⟨fun h => ?_, (upper K).smul ht⟩
  have := (upper K).smul (inv_pos.mpr ht) h
  rwa [smul_smul, inv_mul_cancel₀ ht.ne', one_smul] at this

theorem DirectionLt.smul {s t : K} (hs : 0 < s) (ht : 0 < t) {a b : K × K}
    (h : DirectionLt a b) : DirectionLt (s • a) (t • b) := by
  unfold DirectionLt
  rw [upper_smul_iff hs, upper_smul_iff ht, det_smul_left, det_smul_right]
  exact h.imp_right fun h => ⟨h.1, mul_pos hs (mul_pos ht h.2)⟩

theorem DirectionLt.not_multiple {a b : K × K} (h : DirectionLt a b) (t : K) (ht : 0 < t) :
    b ≠ t • a := by
  rintro rfl
  have := h.smul ht one_pos
  rw [one_smul] at this
  exact DirectionLt.irrefl _ this

/-- Parallel directions are positive multiples. -/
theorem SameDirection.exists_smul {a b : K × K} (ha : a ≠ 0) (hb : b ≠ 0)
    (h : SameDirection a b) : ∃ t : K, 0 < t ∧ b = t • a := by
  obtain ⟨t, rfl⟩ := exists_smul_of_det_eq_zero ha h.2
  refine ⟨t, ?_, rfl⟩
  rcases lt_trichotomy t 0 with ht | rfl | ht
  · -- one of the two would be in both half-planes
    have hneg : (upper K).mem (t • a) ↔ (upper K).mem (-a) := by
      rw [← upper_smul_iff (neg_pos.mpr ht) (a := -a), smul_neg, neg_smul, neg_neg]
    rcases (upper K).total ha with hup | hup
    · exact absurd (hneg.mp (h.1.mp hup)) ((upper K).not_neg hup)
    · exact absurd hup ((upper K).not_neg (h.1.mpr (hneg.mpr hup)))
  · rw [zero_smul] at hb
    exact absurd rfl hb
  · exact ht

/-! ## §2  Between two directions -/

/-- After the first of two directions less than half a turn apart, and before the
half turn, is before the second. -/
theorem HalfPlane.det_nonneg_of_after (H : HalfPlane K) {u d w : K × K} (hu : H.mem u)
    (hd : H.mem d) (hw : H.mem (-w)) (hud : 0 ≤ det u d) (huw : 0 < det u w) :
    0 ≤ det d w := by
  by_contra hneg
  push Not at hneg
  have hsum := H.add (H.mix hd hw huw.le hud (.inl huw.ne')) (H.smul (neg_pos.mpr hneg) hu)
  have hzero : det u w • d + det u d • -w + -det d w • u = 0 := by
    rw [← det_smul u d w, smul_neg, neg_smul]
    abel
  rw [hzero] at hsum
  exact H.zero hsum

theorem HalfPlane.det_nonneg_of_before (H : HalfPlane K) {u d w : K × K} (hu : H.mem u)
    (hd : H.mem (-d)) (hw : H.mem (-w)) (hdw : 0 ≤ det d w) (huw : 0 < det u w) :
    0 ≤ det u d := by
  by_contra hneg
  push Not at hneg
  have hsum := H.add (H.mix hd hu huw.le hdw (.inl huw.ne')) (H.smul (neg_pos.mpr hneg) hw)
  have hzero : det u w • -d + det d w • u + -det u d • -w = 0 := by
    rw [smul_neg, ← det_smul u d w, neg_smul, smul_neg, neg_neg]
    abel
  rw [hzero] at hsum
  exact H.zero hsum

/-! ## §3  A ring from its lowest vertex -/

theorem walkKey_le_iff_upper {p q : K × K} :
    walkKey p ≤ walkKey q ↔ q = p ∨ (upper K).mem (q - p) := by
  rw [walkKey_le_iff]
  constructor
  · rintro (h | ⟨h, h'⟩)
    · exact .inr (.inl (sub_pos.mpr h))
    · rcases h'.lt_or_eq with h' | h'
      · exact .inr (.inr ⟨sub_eq_zero.mpr h.symm, sub_pos.mpr h'⟩)
      · exact .inl (Prod.ext h'.symm h.symm)
  · rintro (rfl | h | ⟨h, h'⟩)
    · exact .inr ⟨rfl, le_rfl⟩
    · exact .inl (sub_pos.mp h)
    · exact .inr ⟨(sub_eq_zero.mp h).symm, (sub_pos.mp h').le⟩

namespace StrictRing

variable {R : StrictRing K}

/-- The walk starts at the lowest vertex, the leftmost of them. -/
def Lowest (R : StrictRing K) : Prop := ∀ k, walkKey (R.vertex 0) ≤ walkKey (R.vertex k)

omit [IsStrictOrderedRing K] in
theorem edge_ne_zero (R : StrictRing K) (k : ℕ) : edge R.vertex k ≠ 0 :=
  sub_ne_zero.mpr (ConvexRing.vertex_ne (R := R.toConvexRing) k).symm

omit [IsStrictOrderedRing K] in
theorem det_edge_pos (R : StrictRing K) (k : ℕ) :
    0 < det (edge R.vertex k) (edge R.vertex (k + 1)) := by
  rw [← cross_turn]
  exact R.turn k

omit [IsStrictOrderedRing K] in
theorem det_edge_nonneg (R : StrictRing K) (k j : ℕ) :
    0 ≤ det (edge R.vertex k) (R.vertex j - R.vertex k) := R.convex k j

omit [IsStrictOrderedRing K] in
theorem det_edge_finish_nonneg (R : StrictRing K) (k j : ℕ) :
    0 ≤ det (edge R.vertex k) (R.vertex j - R.vertex (k + 1)) := by
  have := R.convex k j
  rwa [cross_eq_det_finish] at this

/-- Where the directions go from the lower half-plane to the upper one, the walk is lowest. -/
theorem walkKey_le_of_stop {k : ℕ} (h : ¬(upper K).mem (edge R.vertex k))
    (h' : (upper K).mem (edge R.vertex (k + 1))) (j : ℕ) :
    walkKey (R.vertex (k + 1)) ≤ walkKey (R.vertex j) := by
  have hdown : (upper K).mem (-edge R.vertex k) := lower_of_not_upper (R.edge_ne_zero k) h
  have h1 := R.det_edge_finish_nonneg k j
  have h2 := R.det_edge_nonneg (k + 1) j
  have hpos := R.det_edge_pos k
  rw [walkKey_le_iff_upper]
  -- the way to the vertex is a combination of the edge out and the edge in, backwards
  have hmix : det (edge R.vertex k) (R.vertex j - R.vertex (k + 1)) • edge R.vertex (k + 1) +
      det (edge R.vertex (k + 1)) (R.vertex j - R.vertex (k + 1)) • -edge R.vertex k =
        det (edge R.vertex k) (edge R.vertex (k + 1)) • (R.vertex j - R.vertex (k + 1)) := by
    rw [← det_smul (edge R.vertex k) (R.vertex j - R.vertex (k + 1)) (edge R.vertex (k + 1)),
      det_swap (edge R.vertex (k + 1)) (R.vertex j - R.vertex (k + 1)), smul_neg, neg_smul,
      add_comm]
  by_cases hz : det (edge R.vertex k) (R.vertex j - R.vertex (k + 1)) ≠ 0 ∨
      det (edge R.vertex (k + 1)) (R.vertex j - R.vertex (k + 1)) ≠ 0
  · refine .inr ((upper_smul_iff hpos).mp ?_)
    rw [← hmix]
    exact (upper K).mix h' hdown h1 h2 hz
  · push Not at hz
    rw [hz.1, hz.2, zero_smul, zero_smul, zero_add] at hmix
    exact .inl (sub_eq_zero.mp ((smul_eq_zero.mp hmix.symm).resolve_left hpos.ne'))

/-- From a lowest vertex the ring goes up, and it comes down to it. -/
theorem upper_of_walkKey_le {k : ℕ} (h : ∀ j, walkKey (R.vertex (k + 1)) ≤ walkKey (R.vertex j)) :
    (upper K).mem (edge R.vertex (k + 1)) ∧ ¬(upper K).mem (edge R.vertex k) := by
  constructor
  · exact (walkKey_le_iff_upper.mp (h (k + 2))).resolve_left
      (ConvexRing.vertex_ne (R := R.toConvexRing) (k + 1)).symm
  · have hup := (walkKey_le_iff_upper.mp (h k)).resolve_left
      (ConvexRing.vertex_ne (R := R.toConvexRing) k)
    intro hedge
    refine (upper K).not_neg hup ?_
    rwa [neg_sub]

omit [Field K] [LinearOrder K] [IsStrictOrderedRing K] in
theorem eq_of_walkKey_eq {p q : K × K} (h : walkKey p = walkKey q) : p = q :=
  Prod.ext (congrArg Prod.snd (toLex.injective h)) (congrArg Prod.fst (toLex.injective h))

/-- **A strict ring stops going down exactly once.** -/
theorem exists_unique_stop (R : StrictRing K) :
    ∃ t < R.size, ∀ k < R.size,
      ((edge R.vertex k).2 < 0 ∧ 0 ≤ (edge R.vertex (k + 1)).2) ↔ k = t := by
  have hsize := R.three_le
  have hiff : ∀ k, ((edge R.vertex k).2 < 0 ∧ 0 ≤ (edge R.vertex (k + 1)).2) ↔
      (upper K).mem (edge R.vertex (k + 1)) ∧ ¬(upper K).mem (edge R.vertex k) := by
    intro k
    have hturn := R.det_edge_pos k
    unfold det at hturn
    constructor
    · rintro ⟨hdown, hup⟩
      refine ⟨?_, ?_⟩
      · rcases hup.lt_or_eq with hup | hup
        · exact .inl hup
        · rw [← hup, mul_zero, zero_sub, neg_pos] at hturn
          exact .inr ⟨hup.symm, pos_of_mul_neg_right hturn hdown.le⟩
      · rintro (hpos | ⟨hzero, -⟩)
        · exact lt_asymm hdown hpos
        · exact hdown.ne hzero
    · rintro ⟨hup, hdown⟩
      have hup' : 0 ≤ (edge R.vertex (k + 1)).2 := hup.elim le_of_lt fun h => h.1.ge
      refine ⟨?_, hup'⟩
      rcases lower_of_not_upper (R.edge_ne_zero k) hdown with hneg | ⟨hzero, hneg⟩
      · exact neg_pos.mp hneg
      · -- a level edge to the left is not followed by one that goes up
        rw [show (edge R.vertex k).2 = 0 from neg_eq_zero.mp hzero, zero_mul, sub_zero] at hturn
        exact absurd (mul_nonpos_of_nonpos_of_nonneg (neg_pos.mp hneg).le hup') (not_le.mpr hturn)
  obtain ⟨m, -, hm⟩ := (Finset.range R.size).exists_min_image (fun k => walkKey (R.vertex k))
    ⟨0, Finset.mem_range.mpr (by omega)⟩
  have hlow : ∀ j, walkKey (R.vertex m) ≤ walkKey (R.vertex j) := by
    intro j
    have := hm _ (Finset.mem_range.mpr (Nat.mod_lt j (by omega)))
    rwa [R.periodic.map_mod_nat] at this
  have hnext : R.vertex ((m + (R.size - 1)) % R.size + 1) = R.vertex m := by
    refine R.vertex_of_modEq ?_
    rw [Nat.ModEq, Nat.mod_add_mod, show m + (R.size - 1) + 1 = m + R.size by omega,
      Nat.add_mod_right]
  refine ⟨(m + (R.size - 1)) % R.size, Nat.mod_lt _ (by omega), fun k hk => ?_⟩
  rw [hiff]
  constructor
  · rintro ⟨hup, hdown⟩
    have heq := eq_of_walkKey_eq
      (le_antisymm (walkKey_le_of_stop hdown hup m) (hlow (k + 1)))
    have hmod := R.vertex_eq_iff.mp (heq.trans hnext.symm)
    have := Nat.ModEq.add_right_cancel' 1 hmod
    rwa [Nat.ModEq, Nat.mod_mod, Nat.mod_eq_of_lt hk] at this
  · rintro rfl
    refine upper_of_walkKey_le fun j => ?_
    rw [hnext]
    exact hlow j

namespace Lowest

variable (h : R.Lowest)

include h

theorem upper_first : (upper K).mem (edge R.vertex 0) :=
  (walkKey_le_iff_upper.mp (h 1)).resolve_left
    (ConvexRing.vertex_ne (R := R.toConvexRing) 0).symm

theorem lower_last : ¬(upper K).mem (edge R.vertex (R.size - 1)) := by
  have hsize := R.three_le
  have hwrap : R.vertex (R.size - 1 + 1) = R.vertex 0 := by
    rw [show R.size - 1 + 1 = 0 + R.size by omega, R.periodic]
  have hne := ConvexRing.vertex_ne (R := R.toConvexRing) (R.size - 1)
  have hup := (walkKey_le_iff_upper.mp (h (R.size - 1))).resolve_left
    (by simpa only [toConvexRing_vertex, hwrap] using hne)
  intro hlast
  refine (upper K).not_neg hup ?_
  rwa [neg_sub, ← hwrap]

/-- **The edges are in the order of direction.** -/
theorem edge_lt_succ {k : ℕ} (hk : k + 1 < R.size) :
    DirectionLt (edge R.vertex k) (edge R.vertex (k + 1)) := by
  have hpos := R.det_edge_pos k
  by_cases hup : (upper K).mem (edge R.vertex k) <;>
    by_cases hup' : (upper K).mem (edge R.vertex (k + 1))
  · exact .inr ⟨iff_of_true hup hup', hpos⟩
  · exact .inl ⟨hup, hup'⟩
  · -- only at the end of the walk
    have heq := eq_of_walkKey_eq (le_antisymm (walkKey_le_of_stop hup hup' 0) (h (k + 1)))
    have hmod := R.vertex_eq_iff.mp heq
    rw [Nat.ModEq, Nat.mod_eq_of_lt hk, Nat.zero_mod] at hmod
    omega
  · exact .inr ⟨iff_of_false hup hup', hpos⟩

/-- **The vertex between two edges is the lowest over every direction between
theirs.** -/
theorem support {d : K × K} (hd : d ≠ 0) {j : ℕ} (hj : j ≤ R.size)
    (hbefore : 0 < j → DirectionLe (edge R.vertex (j - 1)) d)
    (hafter : j < R.size → DirectionLe d (edge R.vertex j)) (l : ℕ) :
    0 ≤ det d (R.vertex l - R.vertex j) := by
  have hsize := R.three_le
  -- the edges into and out of the vertex
  obtain ⟨m, hm, hin⟩ : ∃ m, R.vertex (m + 1) = R.vertex j ∧ 
      0 ≤ det (edge R.vertex m) d ∧ 0 ≤ det d (edge R.vertex (m + 1)) := by
    rcases Nat.eq_zero_or_pos j with rfl | hpos
    · refine ⟨R.size - 1, ?_, ?_⟩
      · rw [show R.size - 1 + 1 = 0 + R.size by omega, R.periodic]
      · have hedge : edge R.vertex (R.size - 1 + 1) = edge R.vertex 0 := by
          simp only [edge, show R.size - 1 + 1 = 0 + R.size by omega, R.periodic 0,
            show 0 + R.size + 1 = 0 + 1 + R.size by omega, R.periodic (0 + 1)]
        have hturn := R.det_edge_pos (R.size - 1)
        rw [hedge] at hturn ⊢
        have hlast := lower_of_not_upper (R.edge_ne_zero _) h.lower_last
        rcases hafter (by omega) with ⟨-, hnot⟩ | ⟨hiff, hdet⟩
        · exact absurd h.upper_first hnot
        · refine ⟨?_, hdet⟩
          refine (upper K).opposite.det_nonneg_of_before hlast ?_ ?_ hdet hturn
          · show (upper K).mem (- -d)
            rw [neg_neg]
            exact hiff.mpr h.upper_first
          · show (upper K).mem (- -edge R.vertex 0)
            rw [neg_neg]
            exact h.upper_first
    · obtain ⟨m, rfl⟩ : ∃ m, j = m + 1 := ⟨j - 1, by omega⟩
      refine ⟨m, rfl, ?_⟩
      have hle := hbefore hpos
      rw [Nat.add_sub_cancel] at hle
      have hturn := R.det_edge_pos m
      rcases hj.lt_or_eq with hlt | heq
      · have hge := hafter hlt
        rcases hle with ⟨hle, hle'⟩ | ⟨hle, hdet⟩
        · -- the direction is below, so is the edge out
          rcases hge with ⟨hge, -⟩ | ⟨hge, hdet⟩
          · exact absurd hge hle'
          · refine ⟨(upper K).det_nonneg_of_before hle (lower_of_not_upper hd hle')
              (lower_of_not_upper (R.edge_ne_zero _) fun hup => hle' (hge.mpr hup)) hdet hturn,
              hdet⟩
        · rcases hge with ⟨hge, hge'⟩ | ⟨hge, hdet'⟩
          · exact ⟨hdet, (upper K).det_nonneg_of_after (hle.mpr hge) hge
              (lower_of_not_upper (R.edge_ne_zero _) hge') hdet hturn⟩
          · exact ⟨hdet, hdet'⟩
      · have hm : m = R.size - 1 := by omega
        have hedge : edge R.vertex (m + 1) = edge R.vertex 0 := by
          simp only [edge, show m + 1 = 0 + R.size by omega, R.periodic 0,
            show 0 + R.size + 1 = 0 + 1 + R.size by omega, R.periodic (0 + 1)]
        rw [hedge] at hturn ⊢
        have hlow : ¬(upper K).mem (edge R.vertex m) := hm ▸ h.lower_last
        rcases hle with ⟨hle, -⟩ | ⟨hle, hdet⟩
        · exact absurd hle hlow
        · refine ⟨hdet, (upper K).opposite.det_nonneg_of_after
            (lower_of_not_upper (R.edge_ne_zero _) hlow)
            (lower_of_not_upper hd fun hup => hlow (hle.mpr hup)) ?_ hdet hturn⟩
          show (upper K).mem (- -edge R.vertex 0)
          rw [neg_neg]
          exact h.upper_first
  obtain ⟨hin, hout⟩ := hin
  rw [← hm]
  have h1 := R.det_edge_finish_nonneg m l
  have h2 := R.det_edge_nonneg (m + 1) l
  have hpos := R.det_edge_pos m
  have hmix := congrArg (fun v => det v (R.vertex l - R.vertex (m + 1)))
    (det_smul (edge R.vertex m) d (edge R.vertex (m + 1)))
  simp only [det_add_left, det_smul_left] at hmix
  have hprod := add_nonneg (mul_nonneg hout h1) (mul_nonneg hin h2)
  rw [hmix] at hprod
  exact nonneg_of_mul_nonneg_right hprod hpos

end Lowest

end StrictRing

/-! ## §4  The merge -/

section

variable (F G : StrictRing K)

/-- One step of the merge: the edge that comes first, or both where they are parallel. -/
inductive MergeStep : ℕ × ℕ → ℕ × ℕ → Prop
  | first {i j : ℕ} : i < F.size →
      (j < G.size → DirectionLt (edge F.vertex i) (edge G.vertex j)) →
      MergeStep (i, j) (i + 1, j)
  | second {i j : ℕ} : j < G.size →
      (i < F.size → DirectionLt (edge G.vertex j) (edge F.vertex i)) →
      MergeStep (i, j) (i, j + 1)
  | both {i j : ℕ} : i < F.size → j < G.size →
      SameDirection (edge F.vertex i) (edge G.vertex j) → MergeStep (i, j) (i + 1, j + 1)

/-- The steps from a state to the end, with the states before it. -/
inductive MergeRun : ℕ × ℕ → List (ℕ × ℕ) → Prop
  | done : MergeRun (F.size, G.size) []
  | step {state next : ℕ × ℕ} {rest : List (ℕ × ℕ)} :
      MergeStep F G state next → MergeRun next rest → MergeRun state (state :: rest)

/-- The point a state of the merge stands at. -/
def mergePoint (state : ℕ × ℕ) : K × K := F.vertex state.1 + G.vertex state.2

/-- What holds of a state: the edges passed come before those ahead. -/
structure Merging (state : ℕ × ℕ) : Prop where
  first_le : state.1 ≤ F.size
  second_le : state.2 ≤ G.size
  first_lt : 0 < state.1 → state.2 < G.size →
    DirectionLt (edge F.vertex (state.1 - 1)) (edge G.vertex state.2)
  second_lt : 0 < state.2 → state.1 < F.size →
    DirectionLt (edge G.vertex (state.2 - 1)) (edge F.vertex state.1)

variable {F G} {state next last : ℕ × ℕ}

theorem Merging.initial : Merging F G (0, 0) :=
  ⟨Nat.zero_le _, Nat.zero_le _, fun h => absurd h (lt_irrefl 0), fun h => absurd h (lt_irrefl 0)⟩

theorem Merging.step (hF : F.Lowest) (hG : G.Lowest) (h : Merging F G state)
    (hstep : MergeStep F G state next) : Merging F G next := by
  cases hstep with
  | first hi hlt =>
    refine ⟨hi, h.second_le, fun _ hj => hlt hj, fun hj hi' => ?_⟩
    exact (h.second_lt hj hi).trans (G.edge_ne_zero _) (F.edge_ne_zero _) (F.edge_ne_zero _)
      (hF.edge_lt_succ hi')
  | second hj hlt =>
    refine ⟨h.first_le, hj, fun hi hj' => ?_, fun _ hi => hlt hi⟩
    exact (h.first_lt hi hj).trans (F.edge_ne_zero _) (G.edge_ne_zero _) (G.edge_ne_zero _)
      (hG.edge_lt_succ hj')
  | both hi hj hsame =>
    refine ⟨hi, hj, fun _ hj' => ?_, fun _ hi' => ?_⟩
    · exact hsame.le.trans_lt (F.edge_ne_zero _) (G.edge_ne_zero _) (G.edge_ne_zero _)
        (hG.edge_lt_succ hj')
    · exact hsame.symm.le.trans_lt (G.edge_ne_zero _) (F.edge_ne_zero _) (F.edge_ne_zero _)
        (hF.edge_lt_succ hi')

/-- The edge a step walks, up to its length: an edge of one of the rings. -/
inductive Along (F G : StrictRing K) : ℕ × ℕ → ℕ × ℕ → K × K → Prop
  | first {state next : ℕ × ℕ} : state.1 < F.size → next.1 = state.1 + 1 →
      Along F G state next (edge F.vertex state.1)
  | second {state next : ℕ × ℕ} : state.2 < G.size → next.2 = state.2 + 1 →
      Along F G state next (edge G.vertex state.2)

omit [IsStrictOrderedRing K] in
theorem Along.ne_zero {d : K × K} (h : Along F G state next d) : d ≠ 0 := by
  cases h with
  | first _ _ => exact F.edge_ne_zero _
  | second _ _ => exact G.edge_ne_zero _

theorem MergeStep.along (hstep : MergeStep F G state next) :
    ∃ (t : K) (d : K × K), 0 < t ∧ mergePoint F G next - mergePoint F G state = t • d ∧
      Along F G state next d := by
  cases hstep with
  | @first i j hi _ =>
    refine ⟨1, _, one_pos, ?_, Along.first hi rfl⟩
    rw [one_smul]
    exact add_sub_add_right_eq_sub _ _ _
  | @second i j hj _ =>
    refine ⟨1, _, one_pos, ?_, Along.second hj rfl⟩
    rw [one_smul]
    exact add_sub_add_left_eq_sub _ _ _
  | @both i j hi hj hsame =>
    obtain ⟨t, ht, heq⟩ := hsame.exists_smul (F.edge_ne_zero i) (G.edge_ne_zero j)
    refine ⟨1 + t, _, by positivity, ?_, Along.first hi rfl⟩
    show F.vertex (i + 1) + G.vertex (j + 1) - (F.vertex i + G.vertex j) = _
    rw [add_sub_add_comm, add_smul, one_smul, ← heq]
    rfl

/-- Successive steps go on in the order of direction. -/
theorem Along.lt {d d' : K × K} (hF : F.Lowest) (hG : G.Lowest) (hnext : Merging F G next)
    (h : Along F G state next d) (h' : Along F G next last d') : DirectionLt d d' := by
  cases h with
  | first hi heq =>
    have hpos : 0 < next.1 := by omega
    have hback : edge F.vertex state.1 = edge F.vertex (next.1 - 1) := by
      rw [heq, Nat.add_sub_cancel]
    cases h' with
    | first hi' _ =>
      rw [heq] at hi' ⊢
      exact hF.edge_lt_succ hi'
    | second hj' _ =>
      rw [hback]
      exact hnext.first_lt hpos hj'
  | second hj heq =>
    have hpos : 0 < next.2 := by omega
    have hback : edge G.vertex state.2 = edge G.vertex (next.2 - 1) := by
      rw [heq, Nat.add_sub_cancel]
    cases h' with
    | first hi' _ =>
      rw [hback]
      exact hnext.second_lt hpos hi'
    | second hj' _ =>
      rw [heq] at hj' ⊢
      exact hG.edge_lt_succ hj'

/-- **Every sum is on the left of every step.** -/
theorem MergeStep.left (hF : F.Lowest) (hG : G.Lowest) (h : Merging F G state)
    (hstep : MergeStep F G state next) (k l : ℕ) :
    0 ≤ cross (mergePoint F G state) (mergePoint F G next) (F.vertex k + G.vertex l) := by
  have hsplit : ∀ (d : K × K) (i j : ℕ), 0 ≤ det d (F.vertex k - F.vertex i) →
      0 ≤ det d (G.vertex l - G.vertex j) →
      0 ≤ det d (F.vertex k + G.vertex l - (F.vertex i + G.vertex j)) := by
    intro d i j h1 h2
    rw [add_sub_add_comm, det_add_right]
    exact add_nonneg h1 h2
  rw [cross_eq_det]
  cases hstep with
  | @first i j hi hlt =>
    rw [show mergePoint F G (i + 1, j) - mergePoint F G (i, j) = edge F.vertex i from
      add_sub_add_right_eq_sub _ _ _]
    refine hsplit _ i j (F.det_edge_nonneg i k) ?_
    exact hG.support (F.edge_ne_zero i) h.second_le (fun hj => (h.second_lt hj hi).le)
      (fun hj => (hlt hj).le) l
  | @second i j hj hlt =>
    rw [show mergePoint F G (i, j + 1) - mergePoint F G (i, j) = edge G.vertex j from
      add_sub_add_left_eq_sub _ _ _]
    refine hsplit _ i j ?_ (G.det_edge_nonneg j l)
    exact hF.support (G.edge_ne_zero j) h.first_le (fun hi => (h.first_lt hi hj).le)
      (fun hi => (hlt hi).le) k
  | @both i j hi hj hsame =>
    rw [show mergePoint F G (i + 1, j + 1) - mergePoint F G (i, j) =
      edge F.vertex i + edge G.vertex j from add_sub_add_comm _ _ _ _, det_add_left]
    refine add_nonneg (hsplit _ i j (F.det_edge_nonneg i k) ?_)
      (hsplit _ i j ?_ (G.det_edge_nonneg j l))
    · exact hG.support (F.edge_ne_zero i) h.second_le (fun hj => (h.second_lt hj hi).le)
        (fun _ => hsame.le) l
    · exact hF.support (G.edge_ne_zero j) h.first_le (fun hi => (h.first_lt hi hj).le)
        (fun _ => hsame.symm.le) k

end

/-! ## §5  The walk of a run -/

omit [IsStrictOrderedRing K] in
theorem StrictRing.exists_det_ne_zero (R : StrictRing K) (a : K × K) {d : K × K} (hd : d ≠ 0) :
    ∃ k, det d (R.vertex k - a) ≠ 0 := by
  by_contra hall
  push Not at hall
  -- two successive edges would both be along the direction
  have hedge : ∀ k, det (edge R.vertex k) d = 0 := by
    intro k
    rw [det_swap, neg_eq_zero, edge, show R.vertex (k + 1) - R.vertex k =
      R.vertex (k + 1) - a - (R.vertex k - a) by abel, det_sub_right, hall, hall, sub_zero]
  exact hd (eq_zero_of_det_eq_zero (R.det_edge_pos 0).ne' (hedge 0) (hedge 1))

namespace MergeRun

variable {F G : StrictRing K} {state : ℕ × ℕ} {states : List (ℕ × ℕ)}

/-- The states of a run by index; the end comes after them. -/
def stateAt (F G : StrictRing K) (states : List (ℕ × ℕ)) (k : ℕ) : ℕ × ℕ :=
  states.getD k (F.size, G.size)

omit [IsStrictOrderedRing K] in
theorem stateAt_length (F G : StrictRing K) (states : List (ℕ × ℕ)) :
    stateAt F G states states.length = (F.size, G.size) := by
  unfold stateAt
  rw [List.getD_eq_getElem?_getD, List.getElem?_eq_none le_rfl]
  rfl

theorem stateAt_zero (h : MergeRun F G state states) : stateAt F G states 0 = state := by
  cases h with
  | done => rfl
  | step _ _ => rfl

/-- A run is over at the end only. -/
theorem done_or_step (h : MergeRun F G state states) :
    (state = (F.size, G.size) ∧ states = []) ∨
      ((state.1 < F.size ∨ state.2 < G.size) ∧ states = state :: states.tail) := by
  cases h with
  | done => exact .inl ⟨rfl, rfl⟩
  | step hstep _ =>
    refine .inr ⟨?_, rfl⟩
    cases hstep with
    | first hi _ => exact .inl hi
    | second hj _ => exact .inr hj
    | both hi _ _ => exact .inl hi

theorem step_at (h : MergeRun F G state states) {k : ℕ} (hk : k < states.length) :
    MergeStep F G (stateAt F G states k) (stateAt F G states (k + 1)) := by
  induction h generalizing k with
  | done => exact absurd hk (Nat.not_lt_zero k)
  | @step state next rest hstep hrest ih =>
    cases k with
    | zero =>
      show MergeStep F G state (stateAt F G rest 0)
      rw [hrest.stateAt_zero]
      exact hstep
    | succ k => exact ih (Nat.lt_of_succ_lt_succ hk)

theorem merging_at (hF : F.Lowest) (hG : G.Lowest) (h : MergeRun F G (0, 0) states) {k : ℕ}
    (hk : k ≤ states.length) : Merging F G (stateAt F G states k) := by
  induction k with
  | zero =>
    rw [h.stateAt_zero]
    exact .initial
  | succ k ih => exact (ih (by omega)).step hF hG (h.step_at hk)

theorem length_pos (h : MergeRun F G (0, 0) states) : 0 < states.length := by
  cases states with
  | nil =>
    have hend : F.size = 0 := congrArg Prod.fst h.stateAt_zero
    have := F.three_le
    omega
  | cons _ _ => exact Nat.succ_pos _

/-- The points of a run, for ever. -/
def walk (F G : StrictRing K) (states : List (ℕ × ℕ)) (k : ℕ) : K × K :=
  mergePoint F G (stateAt F G states (k % states.length))

theorem walk_succ (h : MergeRun F G (0, 0) states) (k : ℕ) :
    walk F G states (k + 1) =
      mergePoint F G (stateAt F G states (k % states.length + 1)) := by
  have hpos := h.length_pos
  have hlt := Nat.mod_lt k hpos
  unfold walk
  rw [← Nat.mod_add_mod]
  rcases Nat.lt_or_ge (k % states.length + 1) states.length with hlt' | hge
  · rw [Nat.mod_eq_of_lt hlt']
  · rw [show k % states.length + 1 = states.length by omega, Nat.mod_self, h.stateAt_zero,
      stateAt_length]
    -- the end is the start
    show F.vertex 0 + G.vertex 0 = F.vertex F.size + G.vertex G.size
    rw [← F.periodic 0, ← G.periodic 0, Nat.zero_add, Nat.zero_add]

theorem edge_walk (h : MergeRun F G (0, 0) states) (k : ℕ) :
    ∃ (t : K) (d : K × K), 0 < t ∧ edge (walk F G states) k = t • d ∧
      Along F G (stateAt F G states (k % states.length))
        (stateAt F G states (k % states.length + 1)) d := by
  obtain ⟨t, d, ht, heq, hd⟩ := (h.step_at (Nat.mod_lt k h.length_pos)).along
  refine ⟨t, d, ht, ?_, hd⟩
  rw [edge, h.walk_succ]
  exact heq

theorem edge_lt_succ (hF : F.Lowest) (hG : G.Lowest) (h : MergeRun F G (0, 0) states) {k : ℕ}
    (hk : k % states.length + 1 < states.length) :
    DirectionLt (edge (walk F G states) k) (edge (walk F G states) (k + 1)) := by
  obtain ⟨t, d, ht, heq, hd⟩ := h.edge_walk k
  obtain ⟨t', d', ht', heq', hd'⟩ := h.edge_walk (k + 1)
  rw [← Nat.mod_add_mod k, Nat.mod_eq_of_lt hk] at hd'
  rw [heq, heq']
  exact (hd.lt hF hG (h.merging_at hF hG hk.le) hd').smul ht ht'

theorem edge_ne_zero (h : MergeRun F G (0, 0) states) (k : ℕ) :
    edge (walk F G states) k ≠ 0 := by
  obtain ⟨t, d, ht, heq, hd⟩ := h.edge_walk k
  rw [heq]
  exact smul_ne_zero ht.ne' hd.ne_zero

theorem edge_lt (hF : F.Lowest) (hG : G.Lowest) (h : MergeRun F G (0, 0) states) {i j : ℕ}
    (hij : i < j) (hj : j < states.length) :
    DirectionLt (edge (walk F G states) i) (edge (walk F G states) j) := by
  have hsucc : ∀ k, k + 1 < states.length →
      DirectionLt (edge (walk F G states) k) (edge (walk F G states) (k + 1)) := by
    intro k hk
    refine h.edge_lt_succ hF hG ?_
    rwa [Nat.mod_eq_of_lt (by omega)]
  induction j, hij using Nat.le_induction with
  | base => exact hsucc i hj
  | succ j hij ih =>
    exact (ih (by omega)).trans (h.edge_ne_zero _) (h.edge_ne_zero _) (h.edge_ne_zero _)
      (hsucc j hj)

/-- The walk leaves upwards and comes back downwards. -/
theorem upper_first (hF : F.Lowest) (hG : G.Lowest) (h : MergeRun F G (0, 0) states) {k : ℕ}
    (hk : k % states.length = 0) : (upper K).mem (edge (walk F G states) k) := by
  obtain ⟨t, d, ht, heq, hd⟩ := h.edge_walk k
  rw [hk, h.stateAt_zero] at hd
  rw [heq, upper_smul_iff ht]
  cases hd with
  | first _ _ => exact hF.upper_first
  | second _ _ => exact hG.upper_first

theorem lower_last (hF : F.Lowest) (hG : G.Lowest) (h : MergeRun F G (0, 0) states) {k : ℕ}
    (hk : k % states.length + 1 = states.length) :
    ¬(upper K).mem (edge (walk F G states) k) := by
  obtain ⟨t, d, ht, heq, hd⟩ := h.edge_walk k
  rw [hk, stateAt_length] at hd
  rw [heq, upper_smul_iff ht]
  generalize stateAt F G states (k % states.length) = before at hd
  cases hd with
  | first _ hend =>
    rw [show before.1 = F.size - 1 by simp only at hend; omega]
    exact hF.lower_last
  | second _ hend =>
    rw [show before.2 = G.size - 1 by simp only at hend; omega]
    exact hG.lower_last

/-- The sums of the points of two rings. -/
def sums (F G : StrictRing K) : Set (K × K) := {q | ∃ i j, F.vertex i + G.vertex j = q}

/-- **The merge walks around the sums.** -/
theorem hullWalk (hF : F.Lowest) (hG : G.Lowest) (h : MergeRun F G (0, 0) states) :
    HullWalk (walk F G states) states.length (sums F G) where
  size_pos := h.length_pos
  periodic k := by
    unfold walk
    rw [Nat.add_mod_right]
  vertex_mem k := ⟨_, _, rfl⟩
  left := by
    rintro k _ ⟨i, j, rfl⟩
    have hlt := Nat.mod_lt k h.length_pos
    rw [h.walk_succ]
    exact (h.step_at hlt).left hF hG (h.merging_at hF hG hlt.le) i j
  vertex_ne k heq := h.edge_ne_zero k (sub_eq_zero.mpr heq.symm)
  not_straight k t ht := by
    have hlt := Nat.mod_lt k h.length_pos
    rcases Nat.lt_or_ge (k % states.length + 1) states.length with hk | hk
    · exact (h.edge_lt_succ hF hG hk).not_multiple t ht
    · have hend : k % states.length + 1 = states.length := by omega
      intro heq
      refine h.lower_last hF hG hend ((upper_smul_iff ht).mp ?_)
      rw [← heq]
      refine h.upper_first hF hG ?_
      rw [← Nat.mod_add_mod, hend, Nat.mod_self]
  spans a d hd := by
    obtain ⟨k, hk⟩ := F.exists_det_ne_zero (a - G.vertex 0) hd
    refine ⟨_, ⟨k, 0, rfl⟩, ?_⟩
    rwa [show F.vertex k + G.vertex 0 - a = F.vertex k - (a - G.vertex 0) by abel]

theorem walk_injective (hF : F.Lowest) (hG : G.Lowest) (h : MergeRun F G (0, 0) states)
    (i j : ℕ) (hij : i < j) (hj : j < states.length) :
    walk F G states i ≠ walk F G states j := by
  intro heq
  have hnext : walk F G states (i + 1) = walk F G states (j + 1) :=
    ConvexRing.vertex_shift (R := (h.hullWalk hF hG).toConvexRing) heq 1
  have hlt := h.edge_lt hF hG hij hj
  rw [edge, edge, heq, hnext] at hlt
  exact DirectionLt.irrefl _ hlt

/-- **The ring of the merge.** -/
def ring (hF : F.Lowest) (hG : G.Lowest) (h : MergeRun F G (0, 0) states) : StrictRing K :=
  (h.hullWalk hF hG).toStrictRing (h.walk_injective hF hG)

theorem ring_closed (hF : F.Lowest) (hG : G.Lowest) (h : MergeRun F G (0, 0) states) (i j : ℕ) :
    (h.ring hF hG).toConvexRing.Closed (F.vertex i + G.vertex j) :=
  (h.hullWalk hF hG).closed (h.walk_injective hF hG) ⟨i, j, rfl⟩

theorem ring_lowest (hF : F.Lowest) (hG : G.Lowest) (h : MergeRun F G (0, 0) states) :
    (h.ring hF hG).Lowest := by
  have hadd : ∀ i j, walkKey (F.vertex 0 + G.vertex 0) ≤ walkKey (F.vertex i + G.vertex j) := by
    intro i j
    rw [walkKey_le_iff_upper, add_sub_add_comm]
    rcases walkKey_le_iff_upper.mp (hF i) with h1 | h1 <;>
      rcases walkKey_le_iff_upper.mp (hG j) with h2 | h2
    · exact .inl (by rw [h1, h2])
    · rw [h1, sub_self, zero_add]
      exact .inr h2
    · rw [h2, sub_self, add_zero]
      exact .inr h1
    · exact .inr ((upper K).add h1 h2)
  intro k
  have hstart : (h.ring hF hG).vertex 0 = F.vertex 0 + G.vertex 0 := by
    show walk F G states 0 = _
    unfold walk
    rw [Nat.zero_mod, h.stateAt_zero]
    rfl
  rw [hstart]
  exact hadd _ _

end MergeRun

end Plane
