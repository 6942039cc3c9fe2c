import PolygonNesting.Lib.AroundRing
import PolygonNesting.NfpIfp.RelativeBoundary

set_option linter.unusedSectionVars false

/-!
# The peel of a padded ring

A strictly convex ring may be written with repeated vertices and with points of
its edges in between, from any start.  The peel takes one vertex out of the
linked ring at a time, always one between its neighbours, so the ring stays a
walk once around; when no vertex is left to take out it is the strict ring.
-/

namespace PolygonNesting

open Plane CyclicNeighbours

variable {K : Type} [Field K] [LinearOrder K] [IsStrictOrderedRing K] [FloorRing K]

/-! ## §1  Padded rings -/

/-- The ring, from any start, with points put in between neighbours: points of
the edges, or repeated vertices. -/
inductive Padded (strict : List (IrregularPoint K)) : List (IrregularPoint K) → Prop
  | ring : Padded strict strict
  | rotate {points : List (IrregularPoint K)} (s : ℕ) (h : Padded strict points) :
      Padded strict (points.rotate s)
  | insert {first point second : IrregularPoint K} {rest : List (IrregularPoint K)}
      (h : Padded strict (first :: second :: rest))
      (hbetween : Wbtw K (position first) (position point) (position second)) :
      Padded strict (first :: point :: second :: rest)

theorem walkAt_map_position {points : List (IrregularPoint K)} (h : 0 < points.length) (k : ℕ) :
    walkAt (points.map position) k = position (vertexAt points k) := by
  unfold walkAt vertexAt
  have hlt := Nat.mod_lt k h
  rw [List.length_map, List.getD_eq_getElem _ _ (by rwa [List.length_map]), List.getElem_map,
    List.getD_eq_getElem _ _ hlt]

/-- **A padded ring walks once around.** -/
theorem Padded.around {strict points : List (IrregularPoint K)} (h : IsStrictRing strict 1)
    (hpadded : Padded strict points) : Around h.ring (points.map position) := by
  induction hpadded with
  | ring =>
    refine Around.self (List.length_map _).symm fun k => ?_
    rw [walkAt_map_position h.length_pos]
    rfl
  | rotate s _ ih => exact ih.isRotated (List.IsRotated.map ⟨s, rfl⟩ position)
  | insert _ hbetween ih => exact ih.insert hbetween

/-! ## §2  Redundant vertices -/

/-- **Redundant is what lies between its neighbours.** -/
theorem isRedundant_iff {points : List (IrregularPoint K)} {ring : LinkedRing} {k : ℕ} :
    ring.isRedundant points k = true ↔
      Wbtw K (position (pointAt points (ring.previous k))) (position (pointAt points k))
        (position (pointAt points (ring.next k))) := by
  unfold LinkedRing.isRedundant
  dsimp only
  generalize pointAt points (ring.previous k) = a
  generalize pointAt points k = b
  generalize pointAt points (ring.next k) = c
  have hequal : ∀ {p q : IrregularPoint K}, pointsEqual p q = true ↔ p = q := by
    intro p q
    unfold pointsEqual
    rw [Bool.and_eq_true, decide_eq_true_iff, decide_eq_true_iff]
    exact ⟨fun h => position_injective (Prod.ext h.1 h.2), fun h => h ▸ ⟨rfl, rfl⟩⟩
  rw [Bool.or_eq_true, Bool.or_eq_true, Bool.and_eq_true, beq_iff_eq, hequal, hequal,
    orientationOf_eq_zero_iff]
  constructor
  · rintro ((rfl | rfl) | ⟨hturn, hbox⟩)
    · exact wbtw_self_left K _ _
    · exact wbtw_self_right K _ _
    · unfold pointIsBetween at hbox
      simp only [Bool.and_eq_true, decide_eq_true_eq] at hbox
      obtain ⟨⟨⟨hx, hx'⟩, hy⟩, hy'⟩ := hbox
      obtain ⟨t, h0, h1, ht⟩ := exists_lineMap_of_box hturn hx hx' hy hy'
      exact ⟨t, ⟨h0, h1⟩, ht⟩
  · rintro ⟨t, ⟨h0, h1⟩, ht⟩
    refine .inr ⟨?_, Accepted.pointIsOnSegment_lineMap (e := ⟨a, c⟩) h0 h1 ht⟩
    rw [← ht, cross_rotate, cross_rotate, cross_lineMap]
    simp

/-! ## §3  The linked ring -/

theorem getD_set {α : Type} {l : List α} {i k : ℕ} {v d : α} (h : i < l.length ∨ v = d) :
    (l.set i v).getD k d = if i = k then v else l.getD k d := by
  rw [List.getD_eq_getElem?_getD, List.getElem?_set]
  split
  · split
    · rfl
    · next hge => exact (h.resolve_left hge).symm
  · exact (List.getD_eq_getElem?_getD).symm

namespace LinkedRing

variable {ring : LinkedRing} {k j : ℕ}

theorem next_remove (h : ring.previous k < ring.nextIndexes.length) :
    (ring.remove k).next j = if ring.previous k = j then ring.next k else ring.next j :=
  getD_set (.inl h)

theorem previous_remove (h : ring.next k < ring.previousIndexes.length) :
    (ring.remove k).previous j = if ring.next k = j then ring.previous k else ring.previous j :=
  getD_set (.inl h)

/-- What is not a neighbour of the removed index keeps its neighbours. -/
theorem isRedundant_remove {points : List (IrregularPoint K)}
    (hprevious : ring.previous k < ring.nextIndexes.length)
    (hnext : ring.next k < ring.previousIndexes.length) (hj : j ≠ ring.previous k)
    (hj' : j ≠ ring.next k) :
    (ring.remove k).isRedundant points j = ring.isRedundant points j := by
  unfold isRedundant
  rw [next_remove hprevious, previous_remove hnext, if_neg (Ne.symm hj), if_neg (Ne.symm hj')]

end LinkedRing

/-- The links go around the active indices in an order. -/
structure Linked (length : ℕ) (ring : LinkedRing) (indexes : List ℕ) : Prop where
  nodup : indexes.Nodup
  lt : ∀ k ∈ indexes, k < length
  previousLength : ring.previousIndexes.length = length
  nextLength : ring.nextIndexes.length = length
  active : ∀ k, ring.isActive k = true ↔ k ∈ indexes
  count : ring.activeCount = indexes.length
  next : ∀ e ∈ neighbours indexes, ring.next e.1 = e.2
  previous : ∀ e ∈ neighbours indexes, ring.previous e.2 = e.1

namespace Linked

variable {length : ℕ} {ring : LinkedRing} {indexes : List ℕ}

theorem initial (h : 0 < length) : Linked length (.initial length) (List.range length) where
  nodup := List.nodup_range
  lt k hk := List.mem_range.mp hk
  previousLength := by simp [LinkedRing.initial]
  nextLength := by simp [LinkedRing.initial]
  active k := by
    rw [List.mem_range]
    refine ⟨fun hk => ?_, LinkedRing.isActive_initial⟩
    by_contra hge
    unfold LinkedRing.isActive LinkedRing.initial at hk
    rw [List.getD_eq_default _ _ (by simpa using hge)] at hk
    cases hk
  count := by simp [LinkedRing.initial]
  next e he := by
    rw [neighbours_eq_map _ 0] at he
    obtain ⟨k, hk, rfl⟩ := List.mem_map.mp he
    rw [List.length_range] at hk ⊢
    have hk := List.mem_range.mp hk
    rw [List.getD_eq_getElem _ _ (by simpa using Nat.mod_lt k h), List.getElem_range,
      List.getD_eq_getElem _ _ (by simpa using Nat.mod_lt (k + 1) h), List.getElem_range,
      LinkedRing.next_initial (Nat.mod_lt k h), Nat.mod_add_mod]
  previous e he := by
    rw [neighbours_eq_map _ 0] at he
    obtain ⟨k, hk, rfl⟩ := List.mem_map.mp he
    rw [List.length_range] at hk ⊢
    have hk := List.mem_range.mp hk
    rw [List.getD_eq_getElem _ _ (by simpa using Nat.mod_lt k h), List.getElem_range,
      List.getD_eq_getElem _ _ (by simpa using Nat.mod_lt (k + 1) h), List.getElem_range,
      LinkedRing.previous_initial (Nat.mod_lt (k + 1) h), Nat.add_sub_assoc h, Nat.mod_add_mod,
      ← Nat.add_sub_assoc h, show k + 1 + length - 1 = k + length by omega, Nat.add_mod_right]

theorem isRotated (h : Linked length ring indexes) {indexes' : List ℕ}
    (hrot : indexes ~r indexes') : Linked length ring indexes' where
  nodup := hrot.nodup_iff.mp h.nodup
  lt k hk := h.lt k (hrot.mem_iff.mpr hk)
  previousLength := h.previousLength
  nextLength := h.nextLength
  active k := (h.active k).trans hrot.mem_iff
  count := h.count.trans hrot.perm.length_eq
  next e he := h.next e ((neighbours_perm hrot).mem_iff.mp he)
  previous e he := h.previous e ((neighbours_perm hrot).mem_iff.mp he)

/-- **A removal** links the neighbours. -/
theorem remove {a b c : ℕ} {rest : List ℕ} (h : Linked length ring (a :: b :: c :: rest)) :
    Linked length (ring.remove b) (a :: c :: rest) := by
  have hprev : ring.previous b = a := h.previous (a, b) List.mem_cons_self
  have hnext : ring.next b = c := h.next (b, c) (List.mem_cons_of_mem _ List.mem_cons_self)
  have hnodup := h.nodup
  simp only [List.nodup_cons, List.mem_cons, not_or] at hnodup
  obtain ⟨⟨hab, hac, ha⟩, ⟨hbc, hb⟩, hc, hrest⟩ := hnodup
  have hlt := h.lt
  simp only [List.mem_cons, forall_eq_or_imp] at hlt
  have hremoveNext : ∀ k, (ring.remove b).next k = if a = k then c else ring.next k := by
    intro k
    rw [LinkedRing.next_remove (by rw [hprev, h.nextLength]; exact hlt.1), hprev, hnext]
  have hremovePrevious : ∀ k, (ring.remove b).previous k = if c = k then a else ring.previous k := by
    intro k
    rw [LinkedRing.previous_remove (by rw [hnext, h.previousLength]; exact hlt.2.2.1), hprev, hnext]
  have htail : ∀ e ∈ (c :: rest).zip (rest ++ [a]), e ∈ neighbours (a :: b :: c :: rest) :=
    fun e he => List.mem_cons_of_mem _ (List.mem_cons_of_mem _ he)
  refine ⟨?_, ?_, ?_, ?_, ?_, ?_, ?_, ?_⟩
  · simp only [List.nodup_cons, List.mem_cons, not_or]
    exact ⟨⟨hac, ha⟩, hc, hrest⟩
  · intro k hk
    refine h.lt k ?_
    simp only [List.mem_cons] at hk ⊢
    tauto
  · exact (List.length_set ..).trans h.previousLength
  · exact (List.length_set ..).trans h.nextLength
  · intro k
    have hactive := h.active k
    simp only [List.mem_cons] at hactive ⊢
    show (ring.active.set b false).getD k false = true ↔ _
    rw [getD_set (.inr rfl)]
    split
    · next heq =>
      subst heq
      simp only [Bool.false_eq_true, false_iff, not_or]
      exact ⟨fun heq => hab heq.symm, hbc, hb⟩
    · next hne =>
      refine hactive.trans ?_
      have hkb : k ≠ b := fun heq => hne heq.symm
      tauto
  · show ring.activeCount - 1 = _
    rw [h.count]
    rfl
  · intro e he
    rw [neighbours_cons] at he
    rw [hremoveNext]
    rcases List.mem_cons.mp he with rfl | he
    · exact if_pos rfl
    · have hmem := (List.of_mem_zip he).1
      rw [if_neg fun heq => by
        rw [← heq] at hmem
        simp only [List.mem_cons] at hmem
        tauto]
      exact h.next e (htail e he)
  · intro e he
    rw [neighbours_cons] at he
    rw [hremovePrevious]
    rcases List.mem_cons.mp he with rfl | he
    · exact if_pos rfl
    · have hmem := (List.of_mem_zip he).2
      rw [if_neg fun heq => by
        rw [← heq] at hmem
        simp only [List.mem_append, List.mem_singleton] at hmem
        tauto]
      exact h.previous e (htail e he)

end Linked

/-! ## §4  The peel -/

/-- What the peel keeps: a walk around the ring, with the redundant vertices pending. -/
structure Peeling (R : StrictRing K) (points : List (IrregularPoint K)) (ring : LinkedRing)
    (indexes pendingIndexes : List ℕ) : Prop where
  linked : Linked points.length ring indexes
  around : Around R (indexes.map fun k => position (pointAt points k))
  pending : ∀ k ∈ indexes, ring.isRedundant points k = true → k ∈ pendingIndexes

namespace Peeling

variable {R : StrictRing K} {points : List (IrregularPoint K)} {ring : LinkedRing}
  {indexes rest : List ℕ} {k : ℕ}

theorem three_le (h : Peeling R points ring indexes rest) : 3 ≤ ring.activeCount := by
  have := h.around.three_le
  rwa [List.length_map, ← h.linked.count] at this

/-- A pending index that is not taken out is done with. -/
theorem skip (h : Peeling R points ring indexes (k :: rest))
    (hk : k ∈ indexes → ring.isRedundant points k = false) :
    Peeling R points ring indexes rest where
  linked := h.linked
  around := h.around
  pending j hj hred := by
    refine (List.mem_cons.mp (h.pending j hj hred)).resolve_left fun heq => ?_
    subst heq
    rw [hk hj] at hred
    cases hred

/-- **A removal**: only the neighbours of what is taken out can become redundant. -/
theorem remove (h : Peeling R points ring indexes (k :: rest)) (hk : k ∈ indexes)
    (hred : ring.isRedundant points k = true) :
    ∃ indexes', Peeling R points (ring.remove k) indexes'
      (rest ++ [ring.previous k, ring.next k]) := by
  have hlen := h.three_le
  rw [h.linked.count] at hlen
  obtain ⟨a, c, others, hrot⟩ := exists_isRotated_middle hk hlen
  have hlinked := h.linked.isRotated hrot
  have hprev : ring.previous k = a := hlinked.previous (a, k) List.mem_cons_self
  have hnext : ring.next k = c :=
    hlinked.next (k, c) (List.mem_cons_of_mem _ List.mem_cons_self)
  have hbetween := isRedundant_iff.mp hred
  rw [hprev, hnext] at hbetween
  refine ⟨a :: c :: others, hlinked.remove, ?_, ?_⟩
  · exact (h.around.isRotated (hrot.map fun k => position (pointAt points k))).remove hbetween
  · intro j hj hjred
    rw [hprev, hnext, List.mem_append]
    by_contra hout
    simp only [List.mem_cons, List.not_mem_nil, or_false, not_or] at hout
    obtain ⟨hrest, hja, hjc⟩ := hout
    have hlt := hlinked.lt
    simp only [List.mem_cons, forall_eq_or_imp] at hlt
    rw [LinkedRing.isRedundant_remove (by rw [hprev, hlinked.nextLength]; exact hlt.1)
      (by rw [hnext, hlinked.previousLength]; exact hlt.2.2.1) (by rwa [hprev]) (by rwa [hnext])]
      at hjred
    have hmem : j ∈ others := by
      simp only [List.mem_cons] at hj
      tauto
    have hjk : j ≠ k := by
      rintro rfl
      have hnodup := hlinked.nodup
      simp only [List.nodup_cons, List.mem_cons, not_or] at hnodup
      exact hnodup.2.1.2 hmem
    have hpending := h.pending j (hrot.mem_iff.mpr (by simp [hmem])) hjred
    exact hrest ((List.mem_cons.mp hpending).resolve_left hjk)

theorem removed (h : Peeling R points ring indexes (k :: rest)) (hactive : ¬(!ring.isActive k) = true)
    (hred : ¬(!ring.isRedundant points k) = true) :
    ∃ indexes', Peeling R points (ring.remove k) indexes'
      (rest ++ [ring.previous k, ring.next k]) := by
  rw [Bool.not_eq_true', Bool.not_eq_false] at hactive hred
  exact h.remove ((h.linked.active k).mp hactive) hred

end Peeling

/-- **The peel of a walk around a ring** ends with nothing redundant. -/
theorem peelRing_spec {R : StrictRing K} {points : List (IrregularPoint K)} :
    ∀ (pendingIndexes : List ℕ) (ring : LinkedRing) (indexes : List ℕ),
      Peeling R points ring indexes pendingIndexes →
      ∃ ring' indexes', peelRing points pendingIndexes ring = .ok ring' ∧
        Peeling R points ring' indexes' [] := by
  intro pendingIndexes ring
  induction pendingIndexes, ring using peelRing.induct points with
  | case1 ring =>
    intro indexes h
    exact ⟨ring, indexes, by rw [peelRing], h⟩
  | case2 ring k rest hinactive ih =>
    intro indexes h
    rw [peelRing, if_pos hinactive]
    refine ih indexes (h.skip fun hk => ?_)
    rw [(h.linked.active k).mpr hk] at hinactive
    cases hinactive
  | case3 ring k rest hactive hcount =>
    intro indexes h
    exact absurd h.three_le (not_le.mpr hcount)
  | case4 ring k rest hactive hcount hred ih =>
    intro indexes h
    rw [peelRing, if_neg hactive, if_neg hcount, if_pos hred]
    refine ih indexes (h.skip fun _ => ?_)
    rwa [Bool.not_eq_true'] at hred
  | case5 ring k rest hactive hcount hred hcount' =>
    intro indexes h
    obtain ⟨indexes', h'⟩ := h.removed hactive hred
    exact absurd h'.three_le (not_le.mpr hcount')
  | case6 ring k rest hactive hcount hred hcount' ih =>
    intro indexes h
    rw [peelRing, if_neg hactive, if_neg hcount, if_neg hred, if_neg hcount']
    obtain ⟨indexes', h'⟩ := h.removed hactive hred
    exact ih indexes' h'

/-! ## §5  The walk around what is left -/

/-- The walk ends back at its first index, whatever fuel is left. -/
theorem collectRing_eq {points : List (IrregularPoint K)} {ring : LinkedRing} {first : ℕ} :
    ∀ {todo : List ℕ} {k fuel : ℕ},
      (∀ e ∈ (k :: todo).zip (todo ++ [first]), ring.next e.1 = e.2) → first ∉ todo →
      todo.length < fuel →
      collectRing points ring first fuel k = (k :: todo).map (pointAt points)
  | _, _, 0, _, _, hfuel => absurd hfuel (Nat.not_lt_zero _)
  | [], k, fuel + 1, hnext, _, _ => by
    have hlast : ring.next k = first := hnext (k, first) List.mem_cons_self
    rw [collectRing, hlast, if_pos rfl]
    rfl
  | k' :: todo, k, fuel + 1, hnext, hfirst, hfuel => by
    have hstep : ring.next k = k' := hnext (k, k') List.mem_cons_self
    rw [List.mem_cons, not_or] at hfirst
    rw [collectRing, hstep, if_neg (Ne.symm hfirst.1),
      collectRing_eq (fun e he => hnext e (List.mem_cons_of_mem _ he)) hfirst.2
        (Nat.lt_of_succ_lt_succ hfuel)]
    rfl

/-- **Where nothing is redundant the walk collects a strict ring** around the
first one. -/
theorem Peeling.strict {R : StrictRing K} {points : List (IrregularPoint K)} {ring : LinkedRing}
    {indexes : List ℕ} (h : Peeling R points ring indexes []) :
    ∃ hstrict : IsStrictRing (indexes.map (pointAt points)) 1,
      (∀ q, R.toConvexRing.Closed q → hstrict.ring.toConvexRing.Closed q) ∧
      ∀ k, R.toConvexRing.Closed (hstrict.ring.vertex k) := by
  have hmap : indexes.map (fun k => position (pointAt points k)) =
      (indexes.map (pointAt points)).map position := by
    rw [List.map_map]
    rfl
  have hlen := h.around.three_le
  rw [List.length_map] at hlen
  have hpos : 0 < (indexes.map (pointAt points)).length := by
    rw [List.length_map]
    omega
  have haround := h.around
  rw [hmap] at haround
  have hindex : ∀ k, vertexAt (indexes.map (pointAt points)) k =
      pointAt points (indexes.getD (k % indexes.length) 0) := by
    intro k
    have hlt : k % indexes.length < indexes.length := Nat.mod_lt k (by omega)
    unfold vertexAt
    rw [List.length_map, List.getD_eq_getElem _ _ (by rwa [List.length_map]), List.getElem_map,
      List.getD_eq_getElem _ _ hlt]
  have hpair : ∀ k, (indexes.getD (k % indexes.length) 0, indexes.getD ((k + 1) % indexes.length) 0) ∈
      neighbours indexes := by
    intro k
    rw [neighbours_eq_map _ 0]
    refine List.mem_map.mpr ⟨k % indexes.length, List.mem_range.mpr (Nat.mod_lt k (by omega)), ?_⟩
    rw [Nat.mod_mod, Nat.mod_add_mod]
  obtain ⟨S, hsize, hvertex, hclosed⟩ := haround.exists_strictRing (by
    intro k hbetween
    rw [walkAt_map_position hpos, walkAt_map_position hpos, walkAt_map_position hpos, hindex, hindex,
      hindex] at hbetween
    refine absurd (h.pending (indexes.getD ((k + 1) % indexes.length) 0) ?_ ?_) List.not_mem_nil
    · rw [List.getD_eq_getElem _ _ (Nat.mod_lt (k + 1) (by omega))]
      exact List.getElem_mem _
    · rw [isRedundant_iff, h.linked.previous _ (hpair k), h.linked.next _ (hpair (k + 1))]
      exact hbetween)
  have hvertex' : ∀ k, S.vertex k = position (vertexAt (indexes.map (pointAt points)) k) := by
    intro k
    rw [hvertex, walkAt_map_position hpos]
  have hstrict := isStrictRing_of_ring S (hsize.trans (List.length_map _)) hvertex'
  refine ⟨hstrict, ?_, ?_⟩
  · intro q hq
    have := StrictRing.closed_iff.mp (hclosed q hq)
    rw [StrictRing.closed_iff]
    intro k
    have hk := this k
    rw [hvertex', hvertex'] at hk
    exact hk
  · intro k
    exact haround.closed _ (List.mem_map_of_mem (vertexAt_mem hpos k))

theorem Peeling.isRotated {R : StrictRing K} {points : List (IrregularPoint K)}
    {ring : LinkedRing} {indexes indexes' pendingIndexes : List ℕ}
    (h : Peeling R points ring indexes pendingIndexes) (hrot : indexes ~r indexes') :
    Peeling R points ring indexes' pendingIndexes where
  linked := h.linked.isRotated hrot
  around := h.around.isRotated (hrot.map _)
  pending k hk := h.pending k (hrot.mem_iff.mpr hk)

/-- The first active index starts a walk around all of them. -/
theorem Linked.exists_first {length : ℕ} {ring : LinkedRing} {indexes : List ℕ}
    (h : Linked length ring indexes) (hpos : 0 < indexes.length) :
    ∃ first todo, ring.active.findIdx? id = some first ∧ indexes ~r first :: todo := by
  cases hfirst : ring.active.findIdx? id with
  | none =>
    obtain ⟨k, rest, rfl⟩ := List.exists_cons_of_length_pos hpos
    have hactive := (h.active k).mpr List.mem_cons_self
    unfold LinkedRing.isActive at hactive
    rcases Nat.lt_or_ge k ring.active.length with hk | hk
    · rw [List.getD_eq_getElem _ _ hk] at hactive
      have := List.findIdx?_eq_none_iff.mp hfirst _ (List.getElem_mem hk)
      rw [hactive] at this
      cases this
    · rw [List.getD_eq_default _ _ hk] at hactive
      cases hactive
  | some first =>
    obtain ⟨hlt, hactive, -⟩ := List.findIdx?_eq_some_iff_getElem.mp hfirst
    have hmem : first ∈ indexes := by
      refine (h.active first).mp ?_
      unfold LinkedRing.isActive
      rw [List.getD_eq_getElem _ _ hlt]
      exact hactive
    obtain ⟨todo, hrot⟩ := exists_isRotated_cons hmem
    exact ⟨first, todo, rfl, hrot⟩

/-! ## §6  The canonical ring -/

/-- Rings that enclose each other have one canonical reading. -/
theorem IsStrictRing.rotateToStableStart_eq_of_closed {points points' : List (IrregularPoint K)}
    (h : IsStrictRing points 1) (h' : IsStrictRing points' 1)
    (hclosed : ∀ k, h'.ring.toConvexRing.Closed (h.ring.vertex k))
    (hclosed' : ∀ k, h.ring.toConvexRing.Closed (h'.ring.vertex k)) :
    PolygonNesting.rotateToStableStart points = PolygonNesting.rotateToStableStart points' := by
  have hvertex : ∀ {points : List (IrregularPoint K)} (h : IsStrictRing points 1) (k : ℕ),
      h.rotateToStableStart.ring.vertex k = h.ring.vertex (k + stableStartIndex points) := by
    intro points h k
    show position (vertexAt (PolygonNesting.rotateToStableStart points) k) = _
    rw [rotateToStableStart_eq, vertexAt_rotate h.length_pos]
    rfl
  refine h.rotateToStableStart.eq_of_closed h'.rotateToStableStart
    (rotateToStableStart_startsLowest h.length_pos)
    (rotateToStableStart_startsLowest h'.length_pos) ?_ ?_
  · intro k
    rw [hvertex h]
    exact h'.closed_rotateToStableStart (hclosed _)
  · intro k
    rw [hvertex h']
    exact h.closed_rotateToStableStart (hclosed' _)

/-- The hull of a padded ring is the ring. -/
theorem Padded.hullFallback_eq {strict points : List (IrregularPoint K)}
    (h : IsStrictRing strict 1) (hpadded : Padded strict points) :
    canonicalizeTranslatedConvexRingWithHullFallback points =
      .ok ⟨rotateToStableStart strict⟩ := by
  have haround := hpadded.around h
  have hspans : Spans points := by
    intro a d hd
    obtain ⟨k, hk⟩ := h.ring.exists_det_ne_zero a hd
    obtain ⟨p, hp, hpk⟩ := List.mem_map.mp (haround.vertex_mem k)
    exact ⟨p, hp, by rwa [hpk]⟩
  obtain ⟨hhull, hfrom, hclosed⟩ := computeConvexHull_spec hspans
  have hsame := h.rotateToStableStart_eq_of_closed hhull (fun k => by
      obtain ⟨p, hp, hpk⟩ := List.mem_map.mp (haround.vertex_mem k)
      rw [← hpk]
      exact hclosed p hp)
    (fun k => haround.closed _ (List.mem_map_of_mem
      (hfrom _ (vertexAt_mem hhull.length_pos k))))
  unfold canonicalizeTranslatedConvexRingWithHullFallback
  dsimp only
  rw [hhull.validate_eq, hsame]

/-- **The cleaning of a padded ring** ends, with the vertices of the ring from
the lowest one, as does the hull of the same points. -/
theorem canonicalizeTranslatedConvexRing_padded {strict points : List (IrregularPoint K)}
    (h : IsStrictRing strict 1) (hpadded : Padded strict points) :
    ∃ s, StartsLowest (strict.rotate s) ∧
      canonicalizeTranslatedConvexRing points = .ok ⟨strict.rotate s⟩ ∧
      canonicalizeTranslatedConvexRingWithHullFallback points = .ok ⟨strict.rotate s⟩ ∧
      ∃ ring firstActiveIndex,
        peelRing points (List.range points.length) (.initial points.length) = .ok ring ∧
        ring.active.findIdx? id = some firstActiveIndex ∧
        ∀ fuel, points.length ≤ fuel →
          collectRing points ring firstActiveIndex fuel firstActiveIndex =
            collectRing points ring firstActiveIndex points.length firstActiveIndex := by
  have haround := hpadded.around h
  have hlen : 3 ≤ points.length := by
    have := haround.three_le
    rwa [List.length_map] at this
  have hinitial : Peeling h.ring points (.initial points.length) (List.range points.length)
      (List.range points.length) := by
    refine ⟨.initial (by omega), ?_, fun k hk _ => hk⟩
    have hpoints : (List.range points.length).map (fun k => position (pointAt points k)) =
        points.map position := by
      refine List.ext_getElem (by simp) fun k hk hk' => ?_
      rw [List.length_map] at hk'
      rw [List.getElem_map, List.getElem_map, List.getElem_range]
      exact congrArg position (List.getD_eq_getElem _ _ hk')
    rwa [hpoints]
  obtain ⟨ring, indexes, hpeel, hdone⟩ := peelRing_spec _ _ _ hinitial
  have hcount := hdone.three_le
  obtain ⟨first, todo, hfirst, hrot⟩ := hdone.linked.exists_first (by
    rw [← hdone.linked.count]
    omega)
  have hdone' := hdone.isRotated hrot
  have hnodup := List.nodup_cons.mp hdone'.linked.nodup
  have hshort : todo.length < points.length := by
    have hsub : first :: todo ⊆ List.range points.length := fun k hk =>
      List.mem_range.mpr (hdone'.linked.lt k hk)
    have := (List.subperm_of_subset hdone'.linked.nodup hsub).length_le
    rw [List.length_range, List.length_cons] at this
    omega
  have hcollect : ∀ fuel, points.length ≤ fuel →
      collectRing points ring first fuel first = (first :: todo).map (pointAt points) :=
    fun fuel hfuel => collectRing_eq (fun e he => hdone'.linked.next e he) hnodup.1 (by omega)
  obtain ⟨hstrict, hclosed, hclosed'⟩ := hdone'.strict
  have hsame := h.rotateToStableStart_eq_of_closed hstrict
    (fun k => hclosed _ (ConvexRing.closed_vertex (R := h.ring.toConvexRing) k)) hclosed'
  refine ⟨stableStartIndex strict, ?_, ?_, ?_, ring, first, hpeel, hfirst, fun fuel hfuel => ?_⟩
  · rw [← rotateToStableStart_eq]
    exact rotateToStableStart_startsLowest h.length_pos
  · rw [← rotateToStableStart_eq, hsame]
    unfold canonicalizeTranslatedConvexRing
    rw [if_neg (by omega), hpeel]
    dsimp only
    rw [hfirst]
    dsimp only
    rw [if_neg (by omega), hcollect _ le_rfl, if_neg, hstrict.validate_eq]
    rw [not_not, List.length_map, hdone'.linked.count]
  · rw [← rotateToStableStart_eq]
    exact hpadded.hullFallback_eq h
  · rw [hcollect fuel hfuel, hcollect _ le_rfl]

def exampleCorner : List (IrregularPoint ℚ) := [⟨0, 0⟩, ⟨4, 0⟩, ⟨0, 4⟩]

/-- The corner with a point of its lower edge and a repeated vertex, from the vertex. -/
def exampleCornerPadded : List (IrregularPoint ℚ) := [⟨4, 0⟩, ⟨4, 0⟩, ⟨0, 4⟩, ⟨0, 0⟩, ⟨2, 0⟩]

theorem padded_exampleCorner : Padded exampleCorner exampleCornerPadded := by
  have hmiddle : Padded exampleCorner [⟨0, 0⟩, ⟨2, 0⟩, ⟨4, 0⟩, ⟨0, 4⟩] := by
    refine Padded.ring.insert ⟨1 / 2, ⟨by norm_num, by norm_num⟩, ?_⟩
    refine Prod.ext ?_ ?_
    · rw [lineMap_fst]
      norm_num [position]
    · rw [lineMap_snd]
      norm_num [position]
  exact (hmiddle.rotate 2).insert (wbtw_self_left ℚ _ _)

theorem canonicalizeTranslatedConvexRing_padded_corner :
    ∃ s, StartsLowest (exampleCorner.rotate s) ∧
      canonicalizeTranslatedConvexRing exampleCornerPadded = .ok ⟨exampleCorner.rotate s⟩ ∧
      canonicalizeTranslatedConvexRingWithHullFallback exampleCornerPadded =
        .ok ⟨exampleCorner.rotate s⟩ := by
  have hcorner : IsStrictRing exampleCorner 1 :=
    validateStrictBoundary_eq_valid_iff.mp (by decide +kernel)
  obtain ⟨s, hlow, hring, hhull, -⟩ :=
    canonicalizeTranslatedConvexRing_padded hcorner padded_exampleCorner
  exact ⟨s, hlow, hring, hhull⟩

end PolygonNesting
