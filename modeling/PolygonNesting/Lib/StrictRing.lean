import Mathlib.Data.Nat.ModEq
import PolygonNesting.Lib.ConvexRing
import PolygonNesting.Lib.RingConvexity

/-!
# Rings that are determined by their hull

A counter-clockwise strictly convex ring that visits no point twice is
determined by where it starts and by which points it encloses.  A ring of
differences of two rings that encloses all differences has for its inside the
translations that make the two insides meet.

The directions of the plane are ordered through half-planes: one that holds
exactly one of each nonzero vector and its opposite, closed under sums and
positive multiples.
-/

namespace Plane

variable {K : Type} [Field K] [LinearOrder K] [IsStrictOrderedRing K]

/-! ## §1  Half-planes -/

/-- The positive vectors of a total order of the plane. -/
structure HalfPlane (K : Type) [Field K] [LinearOrder K] where
  mem : K × K → Prop
  add : ∀ {a b}, mem a → mem b → mem (a + b)
  smul : ∀ {t : K} {a}, 0 < t → mem a → mem (t • a)
  zero : ¬mem 0
  total : ∀ {a}, a ≠ 0 → mem a ∨ mem (-a)

namespace HalfPlane

/-- Above the first axis, or on its positive side. -/
def upper (K : Type) [Field K] [LinearOrder K] [IsStrictOrderedRing K] : HalfPlane K where
  mem a := 0 < a.2 ∨ a.2 = 0 ∧ 0 < a.1
  add := by
    rintro a b (ha | ⟨ha, ha'⟩) (hb | ⟨hb, hb'⟩)
    · exact .inl (add_pos ha hb)
    · exact .inl (by rw [Prod.snd_add, hb, add_zero]; exact ha)
    · exact .inl (by rw [Prod.snd_add, ha, zero_add]; exact hb)
    · exact .inr ⟨by rw [Prod.snd_add, ha, hb, add_zero], add_pos ha' hb'⟩
  smul := by
    rintro t a ht (ha | ⟨ha, ha'⟩)
    · exact .inl (mul_pos ht ha)
    · exact .inr ⟨by rw [Prod.smul_snd, ha, smul_zero], mul_pos ht ha'⟩
  zero := by simp
  total := by
    intro a ha
    rcases lt_trichotomy a.2 0 with h | h | h
    · exact .inr (.inl (neg_pos.mpr h))
    · rcases lt_trichotomy a.1 0 with h' | h' | h'
      · exact .inr (.inr ⟨neg_eq_zero.mpr h, neg_pos.mpr h'⟩)
      · exact absurd (Prod.ext h' h) ha
      · exact .inl (.inr ⟨h, h'⟩)
    · exact .inl (.inl h)

/-- To the right of the second axis, or on its positive side. -/
def right (K : Type) [Field K] [LinearOrder K] [IsStrictOrderedRing K] : HalfPlane K where
  mem a := (upper K).mem a.swap
  add := (upper K).add
  smul := (upper K).smul
  zero := (upper K).zero
  total {a} ha := (upper K).total fun h => ha (by simpa using congrArg Prod.swap h)

/-- The opposite half-plane. -/
def opposite (H : HalfPlane K) : HalfPlane K where
  mem a := H.mem (-a)
  add ha hb := by
    rw [neg_add]
    exact H.add ha hb
  smul ht ha := by
    rw [← smul_neg]
    exact H.smul ht ha
  zero := by
    rw [neg_zero]
    exact H.zero
  total ha := by
    rw [neg_neg]
    exact (H.total ha).symm

variable (H : HalfPlane K) {a b c : K × K}

omit [IsStrictOrderedRing K] in
theorem ne_zero (ha : H.mem a) : a ≠ 0 := by
  rintro rfl
  exact H.zero ha

omit [IsStrictOrderedRing K] in
theorem not_neg (ha : H.mem a) : ¬H.mem (-a) := by
  intro h
  have := H.add ha h
  rw [add_neg_cancel] at this
  exact H.zero this

omit [IsStrictOrderedRing K] in
/-- Sums of multiples that are not both zero. -/
theorem mix {s t : K} (ha : H.mem a) (hb : H.mem b) (hs : 0 ≤ s) (ht : 0 ≤ t)
    (hst : s ≠ 0 ∨ t ≠ 0) : H.mem (s • a + t • b) := by
  rcases hs.lt_or_eq with hs | rfl <;> rcases ht.lt_or_eq with ht | rfl
  · exact H.add (H.smul hs ha) (H.smul ht hb)
  · rw [zero_smul, add_zero]
    exact H.smul hs ha
  · rw [zero_smul, zero_add]
    exact H.smul ht hb
  · simp at hst

omit [LinearOrder K] [IsStrictOrderedRing K] in
/-- Three vectors of the plane are dependent. -/
theorem det_smul (a b c : K × K) : det b c • a + det a b • c = det a c • b := by
  refine Prod.ext ?_ ?_ <;> simp only [det, Prod.fst_add, Prod.snd_add, Prod.smul_fst,
    Prod.smul_snd, smul_eq_mul] <;> ring

/-- **Turning left is transitive in a half-plane.** -/
theorem det_nonneg_trans (ha : H.mem a) (hb : H.mem b) (hc : H.mem c) (hab : 0 ≤ det a b)
    (hbc : 0 ≤ det b c) : 0 ≤ det a c := by
  by_contra hneg
  push Not at hneg
  -- a positive combination of the three would vanish
  have hsum : H.mem (det b c • a + det a b • c + -det a c • b) := by
    by_cases hz : det b c ≠ 0 ∨ det a b ≠ 0
    · exact H.add (H.mix ha hc hbc hab hz) (H.smul (neg_pos.mpr hneg) hb)
    · push Not at hz
      rw [hz.1, hz.2, zero_smul, zero_smul, zero_add, zero_add]
      exact H.smul (neg_pos.mpr hneg) hb
  rw [det_smul, neg_smul, add_neg_cancel] at hsum
  exact H.zero hsum

theorem det_pos_trans (ha : H.mem a) (hb : H.mem b) (hc : H.mem c) (hab : 0 ≤ det a b)
    (hbc : 0 ≤ det b c) (hne : det b c ≠ 0 ∨ det a b ≠ 0) : 0 < det a c := by
  refine (H.det_nonneg_trans ha hb hc hab hbc).lt_of_ne fun hz => ?_
  have hsum := H.mix ha hc hbc hab hne
  rw [det_smul, ← hz, zero_smul] at hsum
  exact H.zero hsum

end HalfPlane

omit [LinearOrder K] [IsStrictOrderedRing K] in
theorem cross_eq_det (a b c : K × K) : cross a b c = det (b - a) (c - a) := rfl

omit [LinearOrder K] [IsStrictOrderedRing K] in
theorem cross_eq_det_finish (a b c : K × K) : cross a b c = det (b - a) (c - b) := by
  simp only [cross, det, Prod.fst_sub, Prod.snd_sub]
  ring

omit [LinearOrder K] [IsStrictOrderedRing K] in
@[simp] theorem det_self (a : K × K) : det a a = 0 := by
  unfold det
  ring

omit [LinearOrder K] [IsStrictOrderedRing K] in
theorem det_add_right (a b c : K × K) : det a (b + c) = det a b + det a c := by
  simp only [det, Prod.fst_add, Prod.snd_add]
  ring

omit [LinearOrder K] [IsStrictOrderedRing K] in
theorem det_add_left (a b c : K × K) : det (a + b) c = det a c + det b c := by
  simp only [det, Prod.fst_add, Prod.snd_add]
  ring

omit [LinearOrder K] [IsStrictOrderedRing K] in
theorem det_smul_left (t : K) (a b : K × K) : det (t • a) b = t * det a b := by
  simp only [det, Prod.smul_fst, Prod.smul_snd, smul_eq_mul]
  ring

omit [LinearOrder K] [IsStrictOrderedRing K] in
theorem det_smul_right (t : K) (a b : K × K) : det a (t • b) = t * det a b := by
  simp only [det, Prod.smul_fst, Prod.smul_snd, smul_eq_mul]
  ring

omit [LinearOrder K] [IsStrictOrderedRing K] in
theorem det_neg_right (a b : K × K) : det a (-b) = -det a b := by
  simp only [det, Prod.fst_neg, Prod.snd_neg]
  ring

omit [LinearOrder K] [IsStrictOrderedRing K] in
theorem det_neg_left (a b : K × K) : det (-a) b = -det a b := by
  simp only [det, Prod.fst_neg, Prod.snd_neg]
  ring

omit [LinearOrder K] [IsStrictOrderedRing K] in
theorem det_sub_right (a b c : K × K) : det a (b - c) = det a b - det a c := by
  rw [sub_eq_add_neg, det_add_right, det_neg_right, sub_eq_add_neg]

omit [LinearOrder K] [IsStrictOrderedRing K] in
/-- Parallel vectors are multiples. -/
theorem exists_smul_of_det_eq_zero {a b : K × K} (ha : a ≠ 0) (h : det a b = 0) :
    ∃ t : K, b = t • a := by
  obtain ⟨t, ht⟩ := exists_lineMap_of_cross_eq_zero (a := (0 : K × K)) (b := a) (c := b) ha.symm (by
    rw [cross_eq_det, sub_zero, sub_zero, h])
  refine ⟨t, ?_⟩
  rw [← ht, AffineMap.lineMap_apply]
  simp

omit [LinearOrder K] [IsStrictOrderedRing K] in
/-- A vector with no component along two independent ones is zero. -/
theorem eq_zero_of_det_eq_zero {a b r : K × K} (hab : det a b ≠ 0) (ha : det a r = 0)
    (hb : det b r = 0) : r = 0 := by
  have h := HalfPlane.det_smul a r b
  rw [det_swap b r, hb, ha, neg_zero, zero_smul, zero_smul, zero_add] at h
  exact (smul_eq_zero.mp h.symm).resolve_left hab

/-! ## §2  Strict rings -/

/-- A counter-clockwise ring, as a periodic sequence: every vertex is strictly
on the left of every edge that does not end in it. -/
structure StrictRing (K : Type) [Field K] [LinearOrder K] where
  size : ℕ
  vertex : ℕ → K × K
  three_le : 3 ≤ size
  periodic : Function.Periodic vertex size
  left : ∀ i j, ¬j ≡ i [MOD size] → ¬j ≡ i + 1 [MOD size] →
    0 < cross (vertex i) (vertex (i + 1)) (vertex j)

namespace StrictRing

variable (R S : StrictRing K)

omit [IsStrictOrderedRing K] in
theorem not_modEq_add (R : StrictRing K) {d : ℕ} (h0 : 0 < d) (h : d < 3) (i : ℕ) :
    ¬i + d ≡ i [MOD R.size] := by
  intro hmod
  have hd : d ≡ 0 [MOD R.size] := by
    refine Nat.ModEq.add_left_cancel (Nat.ModEq.refl i) ?_
    rwa [Nat.add_zero]
  have hlt : d < R.size := h.trans_le R.three_le
  rw [Nat.ModEq, Nat.mod_eq_of_lt hlt, Nat.zero_mod] at hd
  omega

omit [IsStrictOrderedRing K] in
theorem vertex_of_modEq {i j : ℕ} (h : i ≡ j [MOD R.size]) : R.vertex i = R.vertex j := by
  rw [← R.periodic.map_mod_nat i, h, R.periodic.map_mod_nat]

/-- A strict ring is a convex ring. -/
def toConvexRing : ConvexRing K where
  size := R.size
  vertex := R.vertex
  side := 1
  size_pos := by have := R.three_le; omega
  periodic := R.periodic
  turn k := by
    rw [one_mul]
    refine R.left k (k + 2) (R.not_modEq_add (by omega) (by omega) k) ?_
    exact R.not_modEq_add (d := 1) (by omega) (by omega) (k + 1)
  convex i j := by
    rw [one_mul]
    by_cases hi : j ≡ i [MOD R.size]
    · rw [R.vertex_of_modEq hi, cross_left]
    by_cases hi' : j ≡ i + 1 [MOD R.size]
    · rw [R.vertex_of_modEq hi', cross_right]
    exact (R.left i j hi hi').le

omit [IsStrictOrderedRing K] in
@[simp] theorem toConvexRing_vertex (k : ℕ) : R.toConvexRing.vertex k = R.vertex k := rfl

omit [IsStrictOrderedRing K] in
@[simp] theorem toConvexRing_size : R.toConvexRing.size = R.size := rfl

omit [IsStrictOrderedRing K] in
theorem height_eq (k : ℕ) (q : K × K) :
    R.toConvexRing.height k q = cross (R.vertex k) (R.vertex (k + 1)) q := one_mul _

omit [IsStrictOrderedRing K] in
theorem turn (k : ℕ) : 0 < cross (R.vertex k) (R.vertex (k + 1)) (R.vertex (k + 2)) := by
  have := R.toConvexRing.turn k
  rwa [show R.toConvexRing.side = 1 from rfl, one_mul] at this

omit [IsStrictOrderedRing K] in
theorem convex (i j : ℕ) : 0 ≤ cross (R.vertex i) (R.vertex (i + 1)) (R.vertex j) := by
  have := R.toConvexRing.convex i j
  rwa [show R.toConvexRing.side = 1 from rfl, one_mul] at this

omit [IsStrictOrderedRing K] in
/-- **No point is visited twice.** -/
theorem vertex_eq_iff {i j : ℕ} : R.vertex i = R.vertex j ↔ i ≡ j [MOD R.size] := by
  refine ⟨fun h => ?_, R.vertex_of_modEq⟩
  by_contra hne
  by_cases hnext : j ≡ i + 1 [MOD R.size]
  · rw [R.vertex_of_modEq hnext] at h
    exact ConvexRing.vertex_ne (R := R.toConvexRing) i h
  · have hpos := R.left i j (fun hmod => hne hmod.symm) hnext
    rw [← h, cross_left] at hpos
    exact lt_irrefl _ hpos

/-- A convex ring of side one without repetitions is strict. -/
def ofConvexRing (R : ConvexRing K) (hside : R.side = 1)
    (hinj : ∀ i j, i < j → j < R.size → R.vertex i ≠ R.vertex j) : StrictRing K where
  size := R.size
  vertex := R.vertex
  periodic := R.periodic
  three_le := by
    by_contra hlt
    push Not at hlt
    have hpos := R.size_pos
    have hturn := R.turn 0
    have hsize : R.vertex (0 + 2) = R.vertex 0 := by
      rcases (show R.size = 1 ∨ R.size = 2 by omega) with h | h
      · rw [show 0 + 2 = 0 + 1 + R.size by omega, R.periodic,
          show 0 + 1 = 0 + R.size by omega, R.periodic]
      · rw [show 0 + 2 = 0 + R.size by omega, R.periodic]
    rw [hsize, cross_left, mul_zero] at hturn
    exact lt_irrefl _ hturn
  left i j hi hi' := by
    have hmod : ∀ {a b}, R.vertex a = R.vertex b → a ≡ b [MOD R.size] := by
      intro a b h
      rw [← R.periodic.map_mod_nat a, ← R.periodic.map_mod_nat b] at h
      have ha := Nat.mod_lt a R.size_pos
      have hb := Nat.mod_lt b R.size_pos
      rcases Nat.lt_trichotomy (a % R.size) (b % R.size) with hlt | heq | hlt
      · exact absurd h (hinj _ _ hlt hb)
      · exact heq
      · exact absurd h.symm (hinj _ _ hlt ha)
    have hnonneg := R.convex i j
    rw [hside, one_mul] at hnonneg
    refine hnonneg.lt_of_ne fun hz => ?_
    rcases ConvexRing.eq_of_height_vertex_eq_zero (R := R) (k := i) (j := j)
      (by rw [ConvexRing.height, ← hz, mul_zero]) with h | h
    · exact hi (hmod h)
    · exact hi' (hmod h)

omit [IsStrictOrderedRing K] in
theorem closed_iff {R : StrictRing K} {q : K × K} :
    R.toConvexRing.Closed q ↔ ∀ k, 0 ≤ cross (R.vertex k) (R.vertex (k + 1)) q :=
  forall_congr' fun k => by rw [height_eq]

omit [IsStrictOrderedRing K] in
theorem inner_iff {R : StrictRing K} {q : K × K} :
    R.toConvexRing.Inner q ↔ ∀ k, 0 < cross (R.vertex k) (R.vertex (k + 1)) q :=
  forall_congr' fun k => by rw [height_eq]

end StrictRing

/-- A closed walk with a set of points on the left of every edge, never straight
on: if the set does not lie on a line, the walk turns. -/
structure HullWalk (p : ℕ → K × K) (n : ℕ) (s : Set (K × K)) : Prop where
  size_pos : 0 < n
  periodic : Function.Periodic p n
  vertex_mem : ∀ k, p k ∈ s
  left : ∀ k, ∀ q ∈ s, 0 ≤ cross (p k) (p (k + 1)) q
  vertex_ne : ∀ k, p k ≠ p (k + 1)
  not_straight : ∀ k, ∀ t : K, 0 < t → edge p (k + 1) ≠ t • edge p k
  spans : ∀ a d : K × K, d ≠ 0 → ∃ q ∈ s, det d (q - a) ≠ 0

namespace HullWalk

variable {p : ℕ → K × K} {n : ℕ} {s : Set (K × K)}

theorem turn (h : HullWalk p n s) (k : ℕ) : 0 < cross (p k) (p (k + 1)) (p (k + 2)) := by
  refine (h.left k _ (h.vertex_mem (k + 2))).lt_of_ne fun hz => ?_
  have hedge : edge p k ≠ 0 := sub_ne_zero.mpr (h.vertex_ne k).symm
  rw [cross_turn] at hz
  obtain ⟨t, ht⟩ := exists_smul_of_det_eq_zero hedge hz.symm
  rcases lt_trichotomy t 0 with hneg | rfl | hpos
  · -- the walk turns back on itself, and everything is on its line
    obtain ⟨q, hq, hne⟩ := h.spans (p (k + 1)) (edge p k) hedge
    have h1 := h.left k q hq
    have h2 := h.left (k + 1) q hq
    rw [cross_eq_det_finish] at h1
    rw [cross_eq_det, show p (k + 1 + 1) - p (k + 1) = t • edge p k from ht, det_smul_left] at h2
    exact hne (le_antisymm (nonpos_of_mul_nonneg_right h2 hneg) h1)
  · rw [zero_smul] at ht
    exact h.vertex_ne (k + 1) (sub_eq_zero.mp ht).symm
  · exact h.not_straight k t hpos ht

/-- The walk as a convex ring. -/
def toConvexRing (h : HullWalk p n s) : ConvexRing K where
  size := n
  vertex := p
  side := 1
  size_pos := h.size_pos
  periodic := h.periodic
  turn k := by
    rw [one_mul]
    exact h.turn k
  convex i j := by
    rw [one_mul]
    exact h.left i _ (h.vertex_mem j)

/-- The walk as a strict ring, when it visits no point twice. -/
def toStrictRing (h : HullWalk p n s) (hinj : ∀ i j, i < j → j < n → p i ≠ p j) :
    StrictRing K :=
  .ofConvexRing h.toConvexRing rfl hinj

theorem closed (h : HullWalk p n s) (hinj : ∀ i j, i < j → j < n → p i ≠ p j) {q : K × K}
    (hq : q ∈ s) : (h.toStrictRing hinj).toConvexRing.Closed q := by
  rw [StrictRing.closed_iff]
  exact fun k => h.left k q hq

end HullWalk

/-! ## §3  A ring is determined by its hull -/

namespace StrictRing

variable {R S : StrictRing K}

omit [IsStrictOrderedRing K] in
/-- The two edge lines at a vertex meet in it alone. -/
theorem eq_vertex_of_cross_eq_zero {k : ℕ} {q : K × K}
    (h1 : cross (R.vertex k) (R.vertex (k + 1)) q = 0)
    (h2 : cross (R.vertex (k + 1)) (R.vertex (k + 2)) q = 0) : q = R.vertex (k + 1) := by
  refine sub_eq_zero.mp (eq_zero_of_det_eq_zero (a := edge R.vertex k)
    (b := edge R.vertex (k + 1)) ?_ ?_ ?_)
  · rw [← cross_turn]
    exact (R.turn k).ne'
  · rw [← h1, cross_eq_det_finish]
    rfl
  · rw [← h2, cross_eq_det]
    rfl

/-- Every vertex stands out, so a ring that encloses it and is enclosed has it. -/
theorem exists_vertex_eq_succ (hR : ∀ j, S.toConvexRing.Closed (R.vertex j))
    (hS : ∀ j, R.toConvexRing.Closed (S.vertex j)) (k : ℕ) :
    ∃ j, S.vertex j = R.vertex (k + 1) := by
  -- the two edges at the vertex, as one direction that is furthest only there
  let d := edge R.vertex k + edge R.vertex (k + 1)
  have hform : ∀ q, d.2 * q.1 + -d.1 * q.2 = d.2 * (R.vertex (k + 1)).1 +
      -d.1 * (R.vertex (k + 1)).2 - (cross (R.vertex k) (R.vertex (k + 1)) q +
        cross (R.vertex (k + 1)) (R.vertex (k + 2)) q) := by
    intro q
    simp only [d, edge, cross, Prod.fst_add, Prod.snd_add, Prod.fst_sub, Prod.snd_sub]
    ring
  obtain ⟨j, hj⟩ := (hR (k + 1)).exists_furthest d.2 (-d.1)
  rw [toConvexRing_vertex, hform (S.vertex j)] at hj
  have h1 := closed_iff.mp (hS j) k
  have h2 := closed_iff.mp (hS j) (k + 1)
  have hzero : cross (R.vertex k) (R.vertex (k + 1)) (S.vertex j) = 0 ∧
      cross (R.vertex (k + 1)) (R.vertex (k + 2)) (S.vertex j) = 0 := by
    constructor <;> linarith
  exact ⟨j, eq_vertex_of_cross_eq_zero hzero.1 hzero.2⟩

theorem exists_vertex_eq (hR : ∀ j, S.toConvexRing.Closed (R.vertex j))
    (hS : ∀ j, R.toConvexRing.Closed (S.vertex j)) (k : ℕ) :
    ∃ j, S.vertex j = R.vertex k := by
  obtain ⟨j, hj⟩ := exists_vertex_eq_succ hR hS (k + (R.size - 1))
  have := R.three_le
  refine ⟨j, hj.trans ?_⟩
  rw [show k + (R.size - 1) + 1 = k + R.size by omega, R.periodic]

/-- **Two rings that enclose each other's vertices run together.** -/
theorem vertex_eq_of_closed (hR : ∀ j, S.toConvexRing.Closed (R.vertex j))
    (hS : ∀ j, R.toConvexRing.Closed (S.vertex j)) {i j : ℕ} (h : R.vertex i = S.vertex j)
    (k : ℕ) : R.vertex (i + k) = S.vertex (j + k) := by
  induction k with
  | zero => exact h
  | succ k ih =>
      have hforth := closed_iff.mp (hS (j + k + 1)) (i + k)
      have hback := closed_iff.mp (hR (i + k + 1)) (j + k)
      rw [← ih, ← cross_rotate, ← cross_rotate, cross_swap, cross_rotate, cross_rotate,
        neg_nonneg] at hback
      -- the next vertex of the one ring is on the edge line of the other
      obtain ⟨m, hm⟩ := exists_vertex_eq hS hR (j + k + 1)
      have hzero : R.toConvexRing.height (i + k) (R.toConvexRing.vertex m) = 0 := by
        rw [height_eq, toConvexRing_vertex, hm]
        exact le_antisymm hback hforth
      rcases ConvexRing.eq_of_height_vertex_eq_zero hzero with heq | heq
      · exact absurd ((hm.symm.trans heq).trans ih).symm
          (ConvexRing.vertex_ne (R := S.toConvexRing) (j + k))
      · exact heq.symm.trans hm

theorem size_eq_of_closed (hR : ∀ j, S.toConvexRing.Closed (R.vertex j))
    (hS : ∀ j, R.toConvexRing.Closed (S.vertex j)) (h : R.vertex 0 = S.vertex 0) :
    R.size = S.size := by
  have hrun : ∀ k, R.vertex k = S.vertex k := by
    intro k
    have := vertex_eq_of_closed hR hS h k
    rwa [Nat.zero_add] at this
  have hRS : R.vertex S.size = R.vertex 0 := by
    rw [hrun, hrun, ← S.periodic 0, Nat.zero_add]
  have hSR : S.vertex R.size = S.vertex 0 := by
    rw [← hrun, ← hrun, ← R.periodic 0, Nat.zero_add]
  exact Nat.dvd_antisymm (Nat.modEq_zero_iff_dvd.mp (R.vertex_eq_iff.mp hRS))
    (Nat.modEq_zero_iff_dvd.mp (S.vertex_eq_iff.mp hSR))

end StrictRing

/-! ## §4  Rings of differences -/

namespace ConvexRing

variable {F M : ConvexRing K}

/-- **The inside of a ring of differences** is where the two insides meet. -/
theorem inner_differences_iff {R : StrictRing K}
    (hvertex : ∀ k, ∃ i j, R.vertex k = F.vertex i - M.vertex j)
    (hclosed : ∀ i j, R.toConvexRing.Closed (F.vertex i - M.vertex j)) {t : K × K} :
    R.toConvexRing.Inner t ↔ ∃ q, F.Inner q ∧ M.Inner (q - t) := by
  constructor
  · intro ht
    -- a little away from the centres the translation is still a difference
    obtain ⟨s, hs0, hs⟩ := mem_core_hull_iff.mpr ht (t - (F.centre - M.centre))
    have hsub : R.toConvexRing.hull ⊆
        {d | ∃ a b, F.Closed a ∧ M.Closed b ∧ d = a - b} := by
      refine convexHull_min ?_ ?_
      · rintro _ ⟨k, rfl⟩
        obtain ⟨i, j, hij⟩ := hvertex k
        exact ⟨_, _, closed_vertex i, closed_vertex j, hij⟩
      · rintro _ ⟨a, b, ha, hb, rfl⟩ _ ⟨a', b', ha', hb', rfl⟩ u v hu hv huv
        refine ⟨u • a + v • a', u • b + v • b', convex_closed F ha ha' hu hv huv,
          convex_closed M hb hb' hu hv huv, ?_⟩
        rw [smul_sub, smul_sub]
        abel
    obtain ⟨a, b, ha, hb, hab⟩ := hsub hs
    have hmix : ∀ x y : K × K, AffineMap.lineMap x y (s / (1 + s)) =
        (1 + s)⁻¹ • (x + s • y) := by
      intro x y
      have h1 : (1 + s) ≠ 0 := by positivity
      refine Prod.ext ?_ ?_
      · rw [lineMap_fst]
        simp only [Prod.smul_fst, Prod.fst_add, smul_eq_mul]
        field_simp
        ring
      · rw [lineMap_snd]
        simp only [Prod.smul_snd, Prod.snd_add, smul_eq_mul]
        field_simp
        ring
    have hpos : 0 < s / (1 + s) := by positivity
    have hle : s / (1 + s) ≤ 1 := (div_le_one (by positivity)).mpr (by linarith)
    refine ⟨_, ha.lineMap_inner inner_centre hpos hle, ?_⟩
    have hback : AffineMap.lineMap a F.centre (s / (1 + s)) - t =
        AffineMap.lineMap b M.centre (s / (1 + s)) := by
      rw [hmix, hmix, sub_eq_iff_eq_add]
      have hne : (1 + s) ≠ 0 := by positivity
      have hsum : a + s • F.centre = (b + s • M.centre) + (1 + s) • t := by
        have : a = b + (t + s • (t - (F.centre - M.centre))) := by
          rw [hab]
          abel
        rw [this, add_smul, one_smul, smul_sub, smul_sub]
        abel
      rw [hsum, smul_add, smul_smul, inv_mul_cancel₀ hne, one_smul]
    rw [hback]
    exact hb.lineMap_inner inner_centre hpos hle
  · rintro ⟨q, hF, hM⟩ 
    rw [StrictRing.inner_iff]
    intro k
    have hne : edge R.vertex k ≠ 0 := sub_ne_zero.mpr
      (ConvexRing.vertex_ne (R := R.toConvexRing) k).symm
    -- the vertices lowest over the edge in the one ring and highest in the other
    obtain ⟨i, hi⟩ := hF.exists_further (α := (edge R.vertex k).2) (β := -(edge R.vertex k).1) (by
      intro h
      refine hne (Prod.ext ?_ (congrArg Prod.fst h))
      simpa using congrArg Prod.snd h)
    obtain ⟨j, hj⟩ := hM.exists_further (α := -(edge R.vertex k).2) (β := (edge R.vertex k).1) (by
      intro h
      refine hne (Prod.ext (congrArg Prod.snd h) ?_)
      simpa using congrArg Prod.fst h)
    have hdiff := StrictRing.closed_iff.mp (hclosed i j) k
    simp only [cross_eq_det, det, edge, Prod.fst_sub, Prod.snd_sub] at hi hj hdiff ⊢
    linarith

end ConvexRing

end Plane
