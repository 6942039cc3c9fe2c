import Mathlib.Data.Nat.Periodic
import Mathlib.Data.Prod.Lex
import PolygonNesting.Lib.Plane

/-!
# From local turns to a convex ring

A closed ring that turns to one side at every vertex need not be convex: it
can go around several times.  Two ways to rule that out.  If its edges stop
pointing downwards exactly once, their directions go around once, and the
height of the ring over any edge rises and then falls.  If no two edges apart
touch, then walking from the lowest vertex no step can cross the line of an
earlier edge, in either direction of the walk.
-/

namespace Plane

variable {K : Type} [Field K] [LinearOrder K] [IsStrictOrderedRing K]

/-! ## §1  One revolution -/

/-- The cross product of two directions. -/
def det (a b : K × K) : K := a.1 * b.2 - a.2 * b.1

/-- The direction of an edge of the ring. -/
def edge (p : ℕ → K × K) (k : ℕ) : K × K := p (k + 1) - p k

omit [LinearOrder K] [IsStrictOrderedRing K] in
theorem det_swap (a b : K × K) : det b a = -det a b := by
  unfold det
  ring

omit [LinearOrder K] [IsStrictOrderedRing K] in
theorem cross_turn (p : ℕ → K × K) (k : ℕ) :
    cross (p k) (p (k + 1)) (p (k + 2)) = det (edge p k) (edge p (k + 1)) := by
  simp only [cross, det, edge, Prod.fst_sub, Prod.snd_sub]
  ring

omit [LinearOrder K] [IsStrictOrderedRing K] in
theorem cross_step (p : ℕ → K × K) (i j : ℕ) :
    cross (p i) (p (i + 1)) (p (j + 1)) =
      cross (p i) (p (i + 1)) (p j) + det (edge p i) (edge p j) := by
  simp only [cross, det, edge, Prod.fst_sub, Prod.snd_sub]
  ring

omit [LinearOrder K] [IsStrictOrderedRing K] in
/-- Three directions of the plane are dependent. -/
theorem det_dependent (a b c : K × K) :
    b.2 * det a c = a.2 * det b c + c.2 * det a b := by
  unfold det
  ring

omit [IsStrictOrderedRing K] in
/-- A sequence that starts and ends non-negative and does not rise again after
it falls stays non-negative. -/
theorem nonneg_of_unimodal {f : ℕ → K} {n : ℕ} (h0 : 0 ≤ f 0) (hn : 0 ≤ f n)
    (h : ∀ a b, a < b → b < n → f (a + 1) < f a → f (b + 1) ≤ f b) :
    ∀ a ≤ n, 0 ≤ f a := by
  intro a ha
  by_cases hfall : ∃ c < a, f (c + 1) < f c
  · obtain ⟨c, hca, hc⟩ := hfall
    have hle : ∀ b, a ≤ b → b ≤ n → f b ≤ f a := by
      intro b hab
      induction b, hab using Nat.le_induction with
      | base => intro _; exact le_rfl
      | succ b hab ih =>
          intro hb
          exact (h c b (by omega) (by omega) hc).trans (ih (by omega))
    exact hn.trans (hle n ha le_rfl)
  · push Not at hfall
    have hle : ∀ b ≤ a, f 0 ≤ f b := by
      intro b
      induction b with
      | zero => intro _; exact le_rfl
      | succ b ih =>
          intro hb
          exact (ih (by omega)).trans (hfall b (by omega))
    exact h0.trans (hle a le_rfl)

/-- **Two blocks of directions.** If directions within each block are in order
and a direction of the first block, once passed in the second, stays passed,
then every edge of the first block has the ring on its left. -/
theorem nonneg_of_two_blocks {p : ℕ → K × K} {n m : ℕ}
    (hper : Function.Periodic p n)
    (h1 : ∀ i j, i < j → j < m → 0 ≤ det (edge p i) (edge p j))
    (h2 : ∀ i a b, i < m → m ≤ a → a < b → b < n →
      det (edge p i) (edge p a) ≤ 0 → det (edge p i) (edge p b) ≤ 0)
    {i : ℕ} (hi : i < m) :
    ∀ a ≤ n, 0 ≤ cross (p i) (p (i + 1)) (p (i + a)) := by
  have hback : ∀ y, n ≤ y → y < i + n → det (edge p i) (edge p y) ≤ 0 := by
    intro y hny hy
    obtain ⟨z, rfl⟩ := Nat.exists_eq_add_of_le' hny
    have hz : edge p (z + n) = edge p z := by
      simp only [edge, hper z, show z + n + 1 = z + 1 + n by omega, hper (z + 1)]
    rw [hz, det_swap]
    exact neg_nonpos.mpr (h1 z i (by omega) hi)
  refine nonneg_of_unimodal (by simp) ?_ fun a b hab hb hfall => ?_
  · show 0 ≤ cross (p i) (p (i + 1)) (p (i + n))
    rw [hper i]
    simp
  · rw [← Nat.add_assoc, cross_step] at hfall ⊢
    have hneg : det (edge p i) (edge p (i + a)) < 0 := by linarith
    have hlater : det (edge p i) (edge p (i + b)) ≤ 0 := by
      rcases Nat.lt_or_ge (i + b) n with hbn | hbn
      · rcases Nat.lt_or_ge (i + a) m with ham | ham
        · rcases Nat.eq_zero_or_pos a with rfl | ha
          · simp [det, mul_comm] at hneg
          · exact absurd (h1 i (i + a) (by omega) ham) (not_le.mpr hneg)
        · exact h2 i (i + a) (i + b) hi ham (by omega) hbn hneg.le
      · exact hback (i + b) hbn (by omega)
    linarith

omit [Field K] [LinearOrder K] [IsStrictOrderedRing K] in
theorem periodic_shift {p : ℕ → K × K} {n : ℕ} (hper : Function.Periodic p n)
    (m : ℕ) : Function.Periodic (fun k => p (m + k)) n := fun k => by
  show p (m + (k + n)) = p (m + k)
  rw [← Nat.add_assoc, hper]

/-- The edges turn left, the first `m` of the `n` do not point downwards and
the others do. -/
structure OneRevolution (p : ℕ → K × K) (n m : ℕ) : Prop where
  turn : ∀ k, 0 < det (edge p k) (edge p (k + 1))
  up : ∀ k < m, 0 ≤ (edge p k).2
  down : ∀ k, m ≤ k → k < n → (edge p k).2 < 0
  le : m ≤ n

namespace OneRevolution

variable {p : ℕ → K × K} {n m : ℕ}

/-- A direction between two that do not point down points up. -/
theorem up_strict (h : OneRevolution p n m) {k : ℕ} (hk : k + 2 < m) :
    0 < (edge p (k + 1)).2 := by
  refine (h.up (k + 1) (by omega)).lt_of_ne fun hz => ?_
  have hab := h.turn k
  have hbc := h.turn (k + 1)
  simp only [det, ← hz, mul_zero, zero_mul, zero_sub, sub_zero] at hab hbc
  -- pointing right, it could not follow; pointing left, nothing could follow
  rcases le_total 0 (edge p (k + 1)).1 with hx | hx
  · linarith [mul_nonneg (h.up k (by omega)) hx]
  · linarith [mul_nonpos_of_nonpos_of_nonneg hx (h.up (k + 1 + 1) hk)]

theorem upper (h : OneRevolution p n m) {i j : ℕ} (hij : i < j) (hj : j < m) :
    0 ≤ det (edge p i) (edge p j) := by
  induction j, hij using Nat.le_induction with
  | base => exact (h.turn i).le
  | succ j hij ih =>
      obtain ⟨k, rfl⟩ : ∃ k, j = k + 1 := ⟨j - 1, by omega⟩
      have hid := det_dependent (edge p i) (edge p (k + 1)) (edge p (k + 1 + 1))
      have h1 := mul_nonneg (h.up i (by omega)) (h.turn (k + 1)).le
      have h2 := mul_nonneg (h.up (k + 1 + 1) hj) (ih (by omega))
      exact nonneg_of_mul_nonneg_right (hid ▸ add_nonneg h1 h2)
        (h.up_strict (by omega))

theorem lower (h : OneRevolution p n m) {i j : ℕ} (hi : m ≤ i) (hij : i < j)
    (hj : j < n) : 0 ≤ det (edge p i) (edge p j) := by
  induction j, hij using Nat.le_induction with
  | base => exact (h.turn i).le
  | succ j hij ih =>
      have hid := det_dependent (edge p i) (edge p j) (edge p (j + 1))
      have h1 := mul_nonpos_of_nonpos_of_nonneg (h.down i hi (by omega)).le
        (h.turn j).le
      have h2 := mul_nonpos_of_nonpos_of_nonneg
        (h.down (j + 1) (by omega) hj).le (ih (by omega))
      have hb := h.down j (by omega) (by omega)
      by_contra hneg
      push Not at hneg
      linarith [mul_pos_of_neg_of_neg hb hneg]

/-- An upward direction, once passed by the downward ones, stays passed. -/
theorem pass_lower (h : OneRevolution p n m) {i a b : ℕ} (hi : i < m)
    (ha : m ≤ a) (hab : a ≤ b) (hb : b < n)
    (hpass : det (edge p i) (edge p a) ≤ 0) :
    det (edge p i) (edge p b) ≤ 0 := by
  induction b, hab using Nat.le_induction with
  | base => exact hpass
  | succ b hab ih =>
      have hid := det_dependent (edge p i) (edge p b) (edge p (b + 1))
      have h1 := mul_nonneg (h.up i hi) (h.turn b).le
      have h2 := mul_nonneg_of_nonpos_of_nonpos
        (h.down (b + 1) (by omega) hb).le (ih (by omega))
      by_contra hpos
      push Not at hpos
      linarith [mul_neg_of_neg_of_pos (h.down b (by omega) (by omega)) hpos]

/-- A downward direction, once passed by the upward ones, stays passed. -/
theorem pass_upper (h : OneRevolution p n m) {i a b : ℕ} (hi : m ≤ i)
    (hin : i < n) (hab : a ≤ b) (hb : b < m)
    (hpass : det (edge p i) (edge p a) ≤ 0) :
    det (edge p i) (edge p b) ≤ 0 := by
  induction b, hab using Nat.le_induction with
  | base => exact hpass
  | succ b hab ih =>
      have hle := ih (by omega)
      have hid := det_dependent (edge p i) (edge p b) (edge p (b + 1))
      have hdown := h.down i hi hin
      have h1 := mul_nonpos_of_nonpos_of_nonneg hdown.le (h.turn b).le
      have h2 := mul_nonpos_of_nonneg_of_nonpos (h.up (b + 1) hb) hle
      rcases (h.up b (by omega)).lt_or_eq with hup | hz
      · by_contra hpos
        push Not at hpos
        linarith [mul_pos hup hpos]
      · -- a level direction that is passed points left, and nothing follows it
        have hturn := h.turn b
        simp only [det, ← hz, mul_zero, zero_mul, zero_sub, sub_zero] at hle hturn
        have hx : (edge p b).1 ≤ 0 := by
          by_contra hx
          push Not at hx
          linarith [mul_neg_of_neg_of_pos hdown hx]
        linarith [mul_nonpos_of_nonpos_of_nonneg hx (h.up (b + 1) hb)]

/-- **One revolution makes a ring convex.** -/
theorem convex (h : OneRevolution p n m) (hper : Function.Periodic p n)
    (hn : 0 < n) (i j : ℕ) : 0 ≤ cross (p i) (p (i + 1)) (p j) := by
  have hall : ∀ i < n, ∀ a ≤ n, 0 ≤ cross (p i) (p (i + 1)) (p (i + a)) := by
    intro i hi a ha
    rcases Nat.lt_or_ge i m with him | him
    · exact nonneg_of_two_blocks hper (fun i j hij hj => h.upper hij hj)
        (fun i a b hi ha hab hb => h.pass_lower hi ha hab.le hb) him a ha
    · -- start the walk at the downward block
      obtain ⟨k, rfl⟩ := Nat.exists_eq_add_of_le him
      have hedge : ∀ x, edge (fun k => p (m + k)) x = edge p (m + x) := fun _ => rfl
      have hwrap : ∀ x, edge p (n + x) = edge p x := by
        intro x
        simp only [edge, Nat.add_comm n x, hper x,
          show x + n + 1 = x + 1 + n by omega, hper (x + 1)]
      have := nonneg_of_two_blocks (m := n - m) (periodic_shift hper m) ?_ ?_
        (show k < n - m by omega) a ha
      · simpa only [Nat.add_assoc] using this
      · intro x y hxy hy
        rw [hedge, hedge]
        exact h.lower (by omega) (by omega) (by omega)
      · intro x y z hx hy hyz hz hpass
        have hle := h.le
        rw [hedge, hedge] at hpass ⊢
        obtain ⟨y', rfl⟩ := Nat.exists_eq_add_of_le hy
        obtain ⟨z', rfl⟩ := Nat.exists_eq_add_of_le (hy.trans hyz.le)
        rw [show m + (n - m + y') = n + y' by omega, hwrap] at hpass
        rw [show m + (n - m + z') = n + z' by omega, hwrap]
        exact h.pass_upper (by omega) (by omega) (by omega) (by omega) hpass
  have hi : i % n < n := Nat.mod_lt i hn
  have hj : j % n < n := Nat.mod_lt j hn
  have hpi : p (i % n + 1) = p (i + 1) := by
    rw [← hper.map_mod_nat, Nat.mod_add_mod, hper.map_mod_nat]
  rw [← hper.map_mod_nat i, ← hpi, ← hper.map_mod_nat j]
  rcases Nat.lt_or_ge (j % n) (i % n) with hlt | hge
  · have := hall (i % n) hi (j % n + n - i % n) (by omega)
    rwa [show i % n + (j % n + n - i % n) = j % n + n by omega, hper] at this
  · have := hall (i % n) hi (j % n - i % n) (by omega)
    rwa [show i % n + (j % n - i % n) = j % n by omega] at this

end OneRevolution

/-- A periodic yes-no sequence that stops being true exactly once in a period
is, from the stop on, a block of false and then a block of true. -/
theorem exists_blocks {d : ℕ → Prop} {n : ℕ} (hper : Function.Periodic d n)
    {t : ℕ} (ht : t < n) (hstop : d t ∧ ¬d (t + 1))
    (honce : ∀ k < n, d k → ¬d (k + 1) → k = t) :
    ∃ m ≤ n, ∀ k < n, d (t + 1 + k) ↔ m ≤ k := by
  classical
  have hlast : d (t + 1 + (n - 1)) := by
    rw [show t + 1 + (n - 1) = t + n by omega, hper]
    exact hstop.1
  have hkeep : ∀ k, k + 1 < n → d (t + 1 + k) → d (t + 1 + (k + 1)) := by
    intro k hk hd
    by_contra hnd
    -- a second stop, back in the first period
    have hmod : ∀ x, d (x % n) = d x := hper.map_mod_nat
    have hsucc : d ((t + 1 + k) % n + 1) = d (t + 1 + (k + 1)) := by
      rw [← hmod, Nat.mod_add_mod, hmod, Nat.add_assoc]
    have heq := honce ((t + 1 + k) % n) (Nat.mod_lt _ (by omega))
      ((hmod _).symm ▸ hd) (hsucc ▸ hnd)
    rcases Nat.lt_or_ge (t + 1 + k) n with hlt | hge
    · rw [Nat.mod_eq_of_lt hlt] at heq
      omega
    · rw [Nat.mod_eq_sub_mod hge, Nat.mod_eq_of_lt (by omega)] at heq
      omega
  have hex : ∃ k, d (t + 1 + k) := ⟨n - 1, hlast⟩
  refine ⟨Nat.find hex, (Nat.find_min' hex hlast).trans (by omega), ?_⟩
  intro k hk
  constructor
  · exact fun hd => Nat.find_min' hex hd
  · intro hle
    induction k, hle using Nat.le_induction with
    | base => exact Nat.find_spec hex
    | succ k hle ih => exact hkeep k hk (ih (by omega))

/-! ## §2  A simple ring -/

/-- The order of the walk: by height, then from left to right. -/
def walkKey (q : K × K) : K ×ₗ K := toLex (q.2, q.1)

omit [Field K] [IsStrictOrderedRing K] in
theorem walkKey_le_iff {a b : K × K} :
    walkKey a ≤ walkKey b ↔ a.2 < b.2 ∨ a.2 = b.2 ∧ a.1 ≤ b.1 :=
  Prod.Lex.toLex_le_toLex

/-- A segment between two points after `a` is after `a`. -/
theorem walkKey_le_lineMap {a b c : K × K} (hb : walkKey a ≤ walkKey b)
    (hc : walkKey a ≤ walkKey c) {t : K} (h0 : 0 ≤ t) (h1 : t ≤ 1) :
    walkKey a ≤ walkKey (AffineMap.lineMap b c t) := by
  rw [walkKey_le_iff] at hb hc ⊢
  have hfst : (AffineMap.lineMap b c t).1 - a.1 =
      (1 - t) * (b.1 - a.1) + t * (c.1 - a.1) := by
    rw [lineMap_fst]
    ring
  have hsnd : (AffineMap.lineMap b c t).2 - a.2 =
      (1 - t) * (b.2 - a.2) + t * (c.2 - a.2) := by
    rw [lineMap_snd]
    ring
  rcases h0.lt_or_eq with h0 | rfl
  · rcases h1.lt_or_eq with h1 | rfl
    · have h1' := sub_pos.mpr h1
      rcases hb with hb | ⟨hb, hb'⟩ <;> rcases hc with hc | ⟨hc, hc'⟩
      · have := mul_pos h1' (sub_pos.mpr hb)
        have := mul_pos h0 (sub_pos.mpr hc)
        exact .inl (by linarith)
      · have := mul_pos h1' (sub_pos.mpr hb)
        rw [← hc, sub_self, mul_zero, add_zero] at hsnd
        exact .inl (by linarith)
      · have := mul_pos h0 (sub_pos.mpr hc)
        rw [← hb, sub_self, mul_zero, zero_add] at hsnd
        exact .inl (by linarith)
      · have h2 := mul_nonneg h1'.le (sub_nonneg.mpr hb')
        have h3 := mul_nonneg h0.le (sub_nonneg.mpr hc')
        rw [← hb, ← hc, sub_self, mul_zero, mul_zero, add_zero] at hsnd
        exact .inr ⟨by linarith, by linarith⟩
    · rwa [AffineMap.lineMap_apply_one]
  · rwa [AffineMap.lineMap_apply_zero]

/-- Backwards from `a`, away from a later point, is before `a`. -/
theorem not_walkKey_le_lineMap {a b : K × K} (hab : a ≠ b)
    (h : walkKey a ≤ walkKey b) {t : K} (ht : t < 0) :
    ¬walkKey a ≤ walkKey (AffineMap.lineMap a b t) := by
  rw [walkKey_le_iff] at h ⊢
  rw [lineMap_fst, lineMap_snd]
  rcases h with h | ⟨h, h'⟩
  · have := mul_neg_of_neg_of_pos ht (sub_pos.mpr h)
    rintro (hlt | ⟨heq, -⟩) <;> linarith
  · have hlt : a.1 < b.1 := h'.lt_of_ne fun he => hab (Prod.ext he h)
    have := mul_neg_of_neg_of_pos ht (sub_pos.mpr hlt)
    rw [← h, sub_self, mul_zero, add_zero]
    rintro (hlt' | ⟨-, hle⟩)
    · exact lt_irrefl _ hlt'
    · linarith

/-- Two edges have a common point. -/
def Touch (p : ℕ → K × K) (i j : ℕ) : Prop :=
  ∃ s t : K, 0 ≤ s ∧ s ≤ 1 ∧ 0 ≤ t ∧ t ≤ 1 ∧
    AffineMap.lineMap (p i) (p (i + 1)) s = AffineMap.lineMap (p j) (p (j + 1)) t

/-- A walk from its first point, and back to it, that turns to one side, never
comes before its start, and touches itself only at neighbouring edges. -/
structure SimpleWalk (p : ℕ → K × K) (n : ℕ) (w : K) : Prop where
  back : p n = p 0
  turn : ∀ k, k + 2 ≤ n → 0 < w * cross (p k) (p (k + 1)) (p (k + 2))
  lowest : ∀ k ≤ n, walkKey (p 0) ≤ walkKey (p k)
  simple : ∀ i j, i + 2 ≤ j → j < n → ¬(i = 0 ∧ j + 1 = n) → ¬Touch p i j

namespace SimpleWalk

variable {p : ℕ → K × K} {n : ℕ} {w : K}

/-- A point on an edge line, on the inner side of the edges before and after,
is on the edge; before the first edge the lowest point does. -/
theorem exists_on_edge (h : SimpleWalk p n w) {i : ℕ} (hi : i + 2 ≤ n)
    {q : K × K} (hlow : walkKey (p 0) ≤ walkKey q)
    (hbefore : ∀ k, k + 1 = i → 0 ≤ w * cross (p k) (p (k + 1)) q)
    (hzero : w * cross (p i) (p (i + 1)) q = 0)
    (hafter : 0 ≤ w * cross (p (i + 1)) (p (i + 2)) q) :
    ∃ s : K, 0 ≤ s ∧ s ≤ 1 ∧ AffineMap.lineMap (p i) (p (i + 1)) s = q := by
  have hturn := h.turn i hi
  have hw : w ≠ 0 := by
    rintro rfl
    simp at hturn
  have hne : p i ≠ p (i + 1) := by
    intro he
    rw [he, cross_rotate] at hturn
    simp at hturn
  obtain ⟨s, rfl⟩ := exists_lineMap_of_cross_eq_zero hne
    ((mul_eq_zero.mp hzero).resolve_left hw)
  refine ⟨s, ?_, ?_, rfl⟩
  · cases i with
    | zero =>
        by_contra hs
        push Not at hs
        exact not_walkKey_le_lineMap hne (h.lowest 1 (by omega)) hs hlow
    | succ k =>
        have hk := hbefore k rfl
        rw [cross_lineMap, cross_right, mul_zero, zero_add, mul_left_comm] at hk
        exact nonneg_of_mul_nonneg_left hk (h.turn k (by omega))
  · rw [cross_lineMap, cross_left, mul_zero, add_zero, ← cross_rotate,
      mul_left_comm] at hafter
    exact sub_nonneg.mp (nonneg_of_mul_nonneg_left hafter hturn)

/-- **No step crosses the line of an earlier edge.** -/
theorem left_of_earlier (h : SimpleWalk p n w) : ∀ j ≤ n, ∀ i < j,
    0 ≤ w * cross (p i) (p (i + 1)) (p j) := by
  intro j
  induction j with
  | zero => intro _ i hi; omega
  | succ j ih =>
      intro hj i hi
      have hIH := ih (by omega)
      by_contra hneg
      push Not at hneg
      have hij : i < j := by
        refine lt_of_le_of_ne (by omega) ?_
        rintro rfl
        simp at hneg
      -- the vertex itself is on no earlier line but its own edge's
      have hzero : ∀ k ∈ Finset.range j, w * cross (p k) (p (k + 1)) (p j) = 0 →
          0 ≤ w * cross (p k) (p (k + 1)) (p (j + 1)) := by
        intro k hk hz
        rw [Finset.mem_range] at hk
        rcases Nat.lt_or_ge (k + 2) j with hfar | hnear
        · exfalso
          obtain ⟨s, hs0, hs1, hs⟩ := h.exists_on_edge (i := k) (by omega)
            (h.lowest j (by omega)) (fun l _ => hIH l (by omega)) hz
            (hIH (k + 1) (by omega))
          refine h.simple k (j - 1) (by omega) (by omega) (by omega)
            ⟨s, 1, hs0, hs1, zero_le_one, le_rfl, ?_⟩
          rw [hs, AffineMap.lineMap_apply_one, Nat.sub_add_cancel (by omega)]
        · rcases Nat.lt_or_ge (k + 1) j with h2 | h1
          · obtain rfl : j = k + 2 := by omega
            exact absurd hz (h.turn k (by omega)).ne'
          · obtain rfl : j = k + 1 := by omega
            exact (h.turn k hj).le
      obtain ⟨t, ht0, ht1, hall, k, hk, hkneg, hkzero⟩ := exists_exit
        (s := Finset.range j)
        (f := fun k => w * cross (p k) (p (k + 1)) (p j))
        (g := fun k => w * cross (p k) (p (k + 1)) (p (j + 1)))
        (fun k hk => hIH k (Finset.mem_range.mp hk)) hzero
        ⟨i, Finset.mem_range.mpr hij, hneg⟩
      rw [Finset.mem_range] at hk
      have hpoint : ∀ k, w * cross (p k) (p (k + 1))
          (AffineMap.lineMap (p j) (p (j + 1)) t) =
          (1 - t) * (w * cross (p k) (p (k + 1)) (p j)) +
            t * (w * cross (p k) (p (k + 1)) (p (j + 1))) := by
        intro k
        rw [cross_lineMap]
        ring
      -- the edge it crosses is not the one before
      have hfar : k + 2 ≤ j := by
        by_contra hn
        obtain rfl : j = k + 1 := by omega
        exact absurd (h.turn k hj) (not_lt.mpr hkneg.le)
      obtain ⟨s, hs0, hs1, hs⟩ := h.exists_on_edge (i := k) (by omega)
        (walkKey_le_lineMap (h.lowest j (by omega)) (h.lowest (j + 1) hj) ht0.le
          ht1.le)
        (fun l hl => by
          rw [hpoint]
          exact hall l (Finset.mem_range.mpr (by omega)))
        (by rw [hpoint]; exact hkzero)
        (by rw [hpoint]; exact hall (k + 1) (Finset.mem_range.mpr (by omega)))
      refine h.simple k j hfar (by omega) ?_ ⟨s, t, hs0, hs1, ht0.le, ht1.le, hs⟩
      rintro ⟨rfl, hlast⟩
      rw [hlast, h.back] at hkneg
      simp at hkneg

end SimpleWalk

/-- **A simple ring that turns to one side is convex.** Walk it from the lowest
vertex in both directions. -/
theorem convex_of_simple {p : ℕ → K × K} {n : ℕ} {w : K}
    (hper : Function.Periodic p n) (hn : 0 < n)
    (hturn : ∀ k, 0 < w * cross (p k) (p (k + 1)) (p (k + 2)))
    (hsimple : ∀ i d, 2 ≤ d → d + 2 ≤ n → ¬Touch p i (i + d)) (i j : ℕ) :
    0 ≤ w * cross (p i) (p (i + 1)) (p j) := by
  obtain ⟨m, hm, hmin⟩ := (Finset.range n).exists_min_image
    (fun k => walkKey (p k)) ⟨0, Finset.mem_range.mpr hn⟩
  rw [Finset.mem_range] at hm
  have hlow : ∀ k, walkKey (p m) ≤ walkKey (p k) := by
    intro k
    have := hmin (k % n) (Finset.mem_range.mpr (Nat.mod_lt k hn))
    rwa [hper.map_mod_nat] at this
  have hforth : SimpleWalk (fun k => p (m + k)) n w := by
    refine ⟨hper m, fun k _ => hturn (m + k), fun k _ => hlow _, ?_⟩
    intro a b hab hb hends htouch
    refine hsimple (m + a) (b - a) (by omega) (by omega) ?_
    rwa [show m + a + (b - a) = m + b by omega]
  have hback : SimpleWalk (fun k => p (m + (n - k))) n (-w) := by
    refine ⟨?_, ?_, fun k _ => ?_, ?_⟩
    · simpa using (hper m).symm
    · intro k hk
      obtain ⟨a, rfl⟩ := Nat.exists_eq_add_of_le hk
      rw [show m + (k + 2 + a - k) = m + a + 2 by omega,
        show m + (k + 2 + a - (k + 1)) = m + a + 1 by omega,
        show m + (k + 2 + a - (k + 2)) = m + a by omega, cross_rotate,
        cross_rotate, cross_rotate, cross_swap, ← cross_rotate, neg_mul_neg]
      exact hturn (m + a)
    · simpa only [Nat.sub_zero, hper m] using hlow _
    · rintro a b hab hb hends ⟨s, t, hs0, hs1, ht0, ht1, heq⟩
      -- the reversed edges, with the same common point
      refine hsimple (m + (n - b - 1)) (b - a) (by omega) (by omega)
        ⟨1 - t, 1 - s, by linarith, by linarith, by linarith, by linarith, ?_⟩
      rw [show m + (n - b - 1) + (b - a) = m + (n - a - 1) by omega,
        show m + (n - b - 1) + 1 = m + (n - b) by omega,
        show m + (n - a - 1) + 1 = m + (n - a) by omega,
        AffineMap.lineMap_apply_one_sub, AffineMap.lineMap_apply_one_sub]
      exact heq.symm
  have hall : ∀ a < n, ∀ b ≤ n,
      0 ≤ w * cross (p (m + a)) (p (m + a + 1)) (p (m + b)) := by
    intro a ha b hb
    rcases Nat.lt_or_ge a b with hab | hab
    · exact hforth.left_of_earlier b hb a hab
    · have := hback.left_of_earlier (n - b) (by omega) (n - a - 1) (by omega)
      rw [show m + (n - (n - a - 1)) = m + a + 1 by omega,
        show m + (n - (n - a - 1 + 1)) = m + a by omega,
        show m + (n - (n - b)) = m + b by omega, cross_swap, neg_mul_neg] at this
      exact this
  have hindex : ∀ k, (m + (k + n - m) % n) % n = k % n ∧ (k + n - m) % n < n := by
    intro k
    refine ⟨?_, Nat.mod_lt _ hn⟩
    rw [Nat.add_mod_mod, show m + (k + n - m) = k + n by omega, Nat.add_mod_right]
  have hp : ∀ k, p (m + (k + n - m) % n) = p k := by
    intro k
    rw [← hper.map_mod_nat, (hindex k).1, hper.map_mod_nat]
  have hp' : ∀ k, p (m + (k + n - m) % n + 1) = p (k + 1) := by
    intro k
    rw [← hper.map_mod_nat, ← Nat.mod_add_mod, (hindex k).1, Nat.mod_add_mod,
      hper.map_mod_nat]
  have := hall _ (hindex i).2 _ (hindex j).2.le
  rwa [hp, hp', hp] at this

end Plane
