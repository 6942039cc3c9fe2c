import PolygonNesting.Geometry.StrictBoundary
import PolygonNesting.NfpIfp.BoundaryCore

set_option linter.unusedSectionVars false

/-!
# The canonical ring

A ring is rotated to start at its lowest vertex, the leftmost of them.  On a
strictly convex ring the peel of the translated boundary finds nothing to drop.
-/

namespace PolygonNesting

open Plane

/-! ## §1  The stable start -/

section

variable {F : Type} [LinearOrder F] [Zero F]

/-- The order of the start: by `y`, then by `x`. -/
def stableKey (point : IrregularPoint F) : F ×ₗ F := toLex (point.y, point.x)

theorem stableKey_lt_iff {p q : IrregularPoint F} :
    stableKey p < stableKey q ↔ p.y < q.y ∨ p.y = q.y ∧ p.x < q.x :=
  Prod.Lex.toLex_lt_toLex

/-- The ring starts at its lowest vertex. -/
def StartsLowest (points : List (IrregularPoint F)) : Prop :=
  ∀ p ∈ points, stableKey (vertexAt points 0) ≤ stableKey p

/-- What the loop knows after the indices below `n`. -/
structure StableUpTo (points : List (IrregularPoint F)) (n start : ℕ) : Prop where
  lt : start < n
  le : ∀ k < n, stableKey (pointAt points start) ≤ stableKey (pointAt points k)
  first : ∀ k < start, stableKey (pointAt points start) < stableKey (pointAt points k)

theorem StableUpTo.step {points : List (IrregularPoint F)} {n start : ℕ}
    (h : StableUpTo points n start) :
    StableUpTo points (n + 1)
      (if (pointAt points n).y < (pointAt points start).y ∨
          (pointAt points n).y = (pointAt points start).y ∧
            (pointAt points n).x < (pointAt points start).x then n else start) := by
  split
  · next hlt =>
    have hlt := stableKey_lt_iff.mpr hlt
    refine ⟨n.lt_succ_self, fun k hk => ?_, fun k hk => hlt.trans_le (h.le k hk)⟩
    rcases Nat.lt_succ_iff_lt_or_eq.mp hk with hk | rfl
    · exact hlt.le.trans (h.le k hk)
    · exact le_rfl
  · next hge =>
    rw [← stableKey_lt_iff, not_lt] at hge
    refine ⟨h.lt.trans n.lt_succ_self, fun k hk => ?_, h.first⟩
    rcases Nat.lt_succ_iff_lt_or_eq.mp hk with hk | rfl
    · exact h.le k hk
    · exact hge

theorem stableStartIndex_spec {points : List (IrregularPoint F)} (h : 0 < points.length) :
    StableUpTo points points.length (stableStartIndex points) := by
  have hrun : ∀ n, StableUpTo points (n + 1) ((List.range' 1 n).foldl (fun startIndex index =>
      if (pointAt points index).y < (pointAt points startIndex).y ∨
          (pointAt points index).y = (pointAt points startIndex).y ∧
            (pointAt points index).x < (pointAt points startIndex).x then index
      else startIndex) 0) := by
    intro n
    induction n with
    | zero =>
      refine ⟨Nat.one_pos, fun k hk => ?_, fun k hk => absurd hk k.not_lt_zero⟩
      rw [show k = 0 by omega]
      exact le_rfl
    | succ n ih =>
      rw [List.range'_1_concat, List.foldl_append, Nat.add_comm 1 n]
      exact ih.step
  have := hrun (points.length - 1)
  rwa [Nat.sub_add_cancel h] at this

theorem pointAt_of_lt {points : List (IrregularPoint F)} {k : ℕ} (h : k < points.length) :
    pointAt points k = vertexAt points k := by
  rw [vertexAt_of_lt h]
  exact List.getD_eq_getElem _ _ h

/-- **A rotation, to the first vertex with the least key.** -/
theorem rotateToStableStart_eq (points : List (IrregularPoint F)) :
    rotateToStableStart points = points.rotate (stableStartIndex points) := by
  rcases Nat.eq_zero_or_pos points.length with hnil | hpos
  · rw [List.length_eq_zero_iff.mp hnil]
    rfl
  · exact (List.rotate_eq_drop_append_take (stableStartIndex_spec hpos).lt.le).symm

@[simp] theorem mem_rotateToStableStart {points : List (IrregularPoint F)}
    {p : IrregularPoint F} : p ∈ rotateToStableStart points ↔ p ∈ points := by
  rw [rotateToStableStart_eq, List.mem_rotate]

theorem rotateToStableStart_startsLowest {points : List (IrregularPoint F)}
    (h : 0 < points.length) : StartsLowest (rotateToStableStart points) := by
  intro p hp
  obtain ⟨k, hk, rfl⟩ := exists_vertexAt (mem_rotateToStableStart.mp hp)
  have hspec := stableStartIndex_spec h
  rw [rotateToStableStart_eq, vertexAt_rotate h, Nat.zero_add, ← pointAt_of_lt hspec.lt,
    ← pointAt_of_lt hk]
  exact hspec.le k hk

/-- A ring that starts lowest stays. -/
theorem StartsLowest.rotate_eq {points : List (IrregularPoint F)} (h : StartsLowest points) :
    rotateToStableStart points = points := by
  rcases Nat.eq_zero_or_pos points.length with hnil | hpos
  · rw [List.length_eq_zero_iff.mp hnil]
    rfl
  have hspec := stableStartIndex_spec hpos
  rw [rotateToStableStart_eq]
  rcases Nat.eq_zero_or_pos (stableStartIndex points) with hzero | hlt
  · rw [hzero, List.rotate_zero]
  · have hfirst := hspec.first 0 hlt
    rw [pointAt_of_lt hpos, pointAt_of_lt hspec.lt] at hfirst
    exact absurd (h _ (vertexAt_mem hpos _)) (not_le.mpr hfirst)

end

/-! ## §2  The links before the peel -/

namespace LinkedRing

variable {length k : ℕ}

theorem next_initial (h : k < length) : (initial length).next k = (k + 1) % length := by
  unfold next initial
  rw [List.getD_eq_getElem _ _ (by rwa [List.length_map, List.length_range]), List.getElem_map,
    List.getElem_range]

theorem previous_initial (h : k < length) :
    (initial length).previous k = (k + length - 1) % length := by
  unfold previous initial
  rw [List.getD_eq_getElem _ _ (by rwa [List.length_map, List.length_range]), List.getElem_map,
    List.getElem_range]

theorem isActive_initial (h : k < length) : (initial length).isActive k = true := by
  unfold isActive initial
  rw [List.getD_eq_getElem _ _ (by rwa [List.length_replicate]), List.getElem_replicate]

end LinkedRing

variable {K : Type} [Field K] [LinearOrder K] [IsStrictOrderedRing K] [FloorRing K]

namespace IsStrictRing

variable {points : List (IrregularPoint K)} {w : ConvexPolygonWinding}

theorem rotateToStableStart (h : IsStrictRing points w) :
    IsStrictRing (rotateToStableStart points) w := by
  rw [rotateToStableStart_eq]
  exact h.rotate _

theorem lowest_iff (h : IsStrictRing points 1) : h.ring.Lowest ↔ StartsLowest points := by
  constructor
  · intro hlow p hp
    obtain ⟨k, -, rfl⟩ := exists_vertexAt hp
    exact hlow k
  · exact fun hlow k => hlow _ (vertexAt_mem h.length_pos k)

/-- **A ring is determined by what it encloses and its lowest vertex.** -/
theorem eq_of_closed {points' : List (IrregularPoint K)} (h : IsStrictRing points 1)
    (h' : IsStrictRing points' 1) (hlow : StartsLowest points) (hlow' : StartsLowest points')
    (hclosed : ∀ k, h'.ring.toConvexRing.Closed (h.ring.vertex k))
    (hclosed' : ∀ k, h.ring.toConvexRing.Closed (h'.ring.vertex k)) : points = points' := by
  have hstart : h.ring.vertex 0 = h'.ring.vertex 0 := by
    obtain ⟨i, hi⟩ := StrictRing.exists_vertex_eq hclosed' hclosed 0
    obtain ⟨j, hj⟩ := StrictRing.exists_vertex_eq hclosed hclosed' 0
    refine StrictRing.eq_of_walkKey_eq (le_antisymm ?_ ?_)
    · rw [← hi]
      exact h.lowest_iff.mpr hlow i
    · rw [← hj]
      exact h'.lowest_iff.mpr hlow' j
  have hsize : points.length = points'.length :=
    StrictRing.size_eq_of_closed hclosed hclosed' hstart
  refine List.ext_getElem hsize fun k hk hk' => position_injective ?_
  have hvertex := StrictRing.vertex_eq_of_closed hclosed hclosed' hstart k
  rw [Nat.zero_add] at hvertex
  rw [← vertexAt_of_lt hk, ← vertexAt_of_lt hk']
  exact hvertex

/-- A rotation encloses the same points. -/
theorem closed_rotateToStableStart (h : IsStrictRing points 1) {q : K × K}
    (hq : h.ring.toConvexRing.Closed q) :
    h.rotateToStableStart.ring.toConvexRing.Closed q := by
  rw [StrictRing.closed_iff] at hq ⊢
  intro k
  show 0 ≤ cross (position (vertexAt (PolygonNesting.rotateToStableStart points) k))
    (position (vertexAt (PolygonNesting.rotateToStableStart points) (k + 1))) q
  rw [rotateToStableStart_eq, vertexAt_rotate h.length_pos, vertexAt_rotate h.length_pos,
    show k + 1 + stableStartIndex points = k + stableStartIndex points + 1 by omega]
  exact hq _

/-! ## §3  The peel -/

theorem not_isRedundant (h : IsStrictRing points w) {k : ℕ} (hk : k < points.length) :
    (LinkedRing.initial points.length).isRedundant points k = false := by
  have hpos := h.length_pos
  have hpoint : ∀ j, pointAt points (j % points.length) = vertexAt points j := fun j => by
    rw [pointAt_of_lt (Nat.mod_lt j hpos), vertexAt_mod]
  -- the three vertices in a row, from the one before
  obtain ⟨m, hm⟩ : ∃ m, k + points.length - 1 = m := ⟨_, rfl⟩
  have hk1 : vertexAt points k = vertexAt points (m + 1) := by
    rw [← periodic_vertexAt points k, ← hm, Nat.sub_add_cancel (by omega)]
  have hk2 : vertexAt points (k + 1) = vertexAt points (m + 2) := by
    rw [← periodic_vertexAt points (k + 1), ← hm,
      show k + points.length - 1 + 2 = k + 1 + points.length by omega]
  have hne : ∀ j, pointsEqual (vertexAt points j) (vertexAt points (j + 1)) = false := by
    intro j
    rw [pointsEqual, Bool.and_eq_false_iff, decide_eq_false_iff_not, decide_eq_false_iff_not]
    by_contra hboth
    push Not at hboth
    refine h.mirrored.not_modEq_add Nat.one_pos (by omega) j ?_
    have heq : vertexAt points (j + 1) = vertexAt points j :=
      (position_injective (Prod.ext hboth.1 hboth.2)).symm
    exact (vertexAt_eq_iff h.nodup hpos).mp heq
  have hw : w ≠ 0 := by
    rcases h.winding with rfl | rfl <;> decide
  unfold LinkedRing.isRedundant
  rw [LinkedRing.previous_initial hk, LinkedRing.next_initial hk, hpoint, hpoint,
    pointAt_of_lt hk, hk1, hk2, hm]
  dsimp only
  rw [hne, hne, h.turn_eq, beq_eq_false_iff_ne.mpr hw]
  rfl

/-- **The peel leaves a strict ring alone.** -/
theorem peelRing_eq (h : IsStrictRing points w) {pendingIndexes : List ℕ}
    (hpending : ∀ k ∈ pendingIndexes, k < points.length) :
    peelRing points pendingIndexes (LinkedRing.initial points.length) =
      .ok (LinkedRing.initial points.length) := by
  have hlen := h.length
  induction pendingIndexes with
  | nil => rw [peelRing]
  | cons k rest ih =>
    have hk := hpending k List.mem_cons_self
    have hcount : ¬(LinkedRing.initial points.length).activeCount < 3 := by
      show ¬points.length < 3
      omega
    rw [peelRing, LinkedRing.isActive_initial hk, Bool.not_true, if_neg Bool.false_ne_true, if_neg hcount,
      h.not_isRedundant hk, Bool.not_false, if_pos rfl]
    exact ih fun j hj => hpending j (List.mem_cons_of_mem k hj)

end IsStrictRing

/-- The walk around the unpeeled ring collects the points. -/
theorem collectRing_initial {F : Type} [Zero F] {points : List (IrregularPoint F)} :
    ∀ {fuel k : ℕ}, k + fuel = points.length → 0 < fuel →
      collectRing points (LinkedRing.initial points.length) 0 fuel k = points.drop k
  | 0, _, _, hpos => absurd hpos (lt_irrefl 0)
  | fuel + 1, k, hsum, _ => by
    have hk : k < points.length := by omega
    rw [collectRing, LinkedRing.next_initial hk, List.drop_eq_getElem_cons hk]
    refine congrArg₂ _ (List.getD_eq_getElem _ _ hk) ?_
    rcases Nat.eq_zero_or_pos fuel with rfl | hpos
    · rw [hsum, Nat.mod_self, if_pos rfl, List.drop_length]
    · rw [Nat.mod_eq_of_lt (by omega), if_neg (by omega)]
      exact collectRing_initial (by omega) hpos

/-- **The canonical form of a strict ring is its rotation.** -/
theorem IsStrictRing.canonicalize_eq {points : List (IrregularPoint K)}
    {w : ConvexPolygonWinding} (h : IsStrictRing points w) :
    canonicalizeTranslatedConvexRing points = .ok ⟨PolygonNesting.rotateToStableStart points⟩ := by
  have hlen := h.length
  have hfirst : (LinkedRing.initial points.length).active.findIdx? id = some 0 := by
    show (List.replicate points.length true).findIdx? id = some 0
    rw [List.findIdx?_replicate]
    simp [h.length_pos]
  have hcount : (LinkedRing.initial points.length).activeCount = points.length := rfl
  unfold canonicalizeTranslatedConvexRing
  rw [if_neg (by omega), h.peelRing_eq fun k hk => List.mem_range.mp hk]
  dsimp only
  rw [hfirst]
  dsimp only
  rw [hcount, if_neg (by omega), collectRing_initial (Nat.zero_add _) h.length_pos,
    List.drop_zero, if_neg (not_not.mpr rfl), h.validate_eq]

end PolygonNesting
