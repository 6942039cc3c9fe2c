import PolygonNesting.Archive.PeriodicCells
import PolygonNesting.Lib.Fallible
import PolygonNesting.Lib.PlaneLattice
import PolygonNesting.Validation.Overlap
import Mathlib.Algebra.Order.Ring.Cast

set_option linter.unusedSectionVars false

/-!
# A certified cell tiles the plane

In exact arithmetic, a cell that passes the 3×3 diagnostic and the
far-neighbour certificate has no two members, in any translates, that share a
positive area; and every crop of it is free of overlaps.  Neighbouring
translates are pairs of the 3×3 block; all others are further apart than the
diameter of the cell.
-/

open scoped Pointwise

namespace PolygonNesting

open Plane

/-! ## §1  Polygons far apart -/

section

variable {K : Type} [Field K] [LinearOrder K] [IsStrictOrderedRing K] [FloorRing K]

omit [FloorRing K] in
/-- Two polygons far apart in a common set share nothing. -/
theorem not_sharesPositiveArea_of_far {first second : IrregularPolygon K} {s : Set (K × K)}
    {u v : K × K} {D : K} (hD : ∀ w ∈ s, ∀ w' ∈ s, normSq (w - w') ≤ D)
    (hfirst : vertexSet first ⊆ u +ᵥ s) (hsecond : vertexSet second ⊆ v +ᵥ s)
    (hlong : D < normSq (u - v)) : ¬sharesPositiveArea first second := by
  rintro ⟨q, hq1, hq2⟩
  have hsub : ∀ {polygon : IrregularPolygon K} {u : K × K}, vertexSet polygon ⊆ u +ᵥ s →
      q ∈ openInterior polygon → q ∈ u +ᵥ convexHull K s := by
    intro polygon u hpolygon hq
    rw [← convexHull_vadd]
    exact convexHull_mono hpolygon (core_subset _ hq)
  exact not_mem_translate hD hlong q (hsub hfirst hq1) (hsub hsecond hq2)

end

/-! ## §2  What a check without a sheet says -/

section

variable {F : Type} [LinearOrder F] [Zero F] [One F] [Add F] [Sub F] [Neg F]
  [Mul F] [Div F] [JsMath F]

theorem assessOverlaps_legal {moving : ValidatedPolygonWithBounds F} {message : String} :
    ∀ {placed : List (ValidatedPolygonWithBounds F)},
      assessOverlaps moving placed = .assessment ⟨true, message⟩ →
        ∀ polygon ∈ placed, polygonsHavePositiveAreaOverlap moving polygon = .ok false
  | [], _ => by simp
  | polygon :: placed, h => by
      unfold assessOverlaps at h
      split at h
      · cases h
      · cases h
      · next hfree =>
        intro other hother
        rcases List.mem_cons.1 hother with rfl | hother
        · exact hfree
        · exact assessOverlaps_legal h other hother

/-- The two polygons were validated and the pairwise check found no overlap. -/
def CheckedApart (placed moving : IrregularPolygon F) (placedAt movingAt : IrregularPoint F) :
    Prop :=
  ∃ v w, translateAndValidatePolygon moving movingAt "moving" = .ok v ∧
    translateAndValidatePolygon placed placedAt "placed" = .ok w ∧
    polygonsHavePositiveAreaOverlap v w = .ok false

/-- **A legal check** looked at every placed piece. -/
theorem checkSheetless_legal {placed : List (IrregularPlacedPiece F)}
    {moving : TransformedCollisionGeometry F} {point : IrregularPoint F}
    (h : checkSheetless placed moving point = .ok true) :
    ∀ piece ∈ placed, CheckedApart piece.collisionGeometry.polygon moving.polygon
      (placedTranslation piece) point := by
  unfold checkSheetless checkPlacement at h
  split at h
  · next assessment hassess =>
    have hlegal : assessment.legal = true := Except.ok.inj h
    obtain ⟨legal, message⟩ := assessment
    cases hlegal
    unfold assessPlacement at hassess
    split at hassess
    · cases hassess
    · next v hv =>
      split at hassess
      · cases hassess
      · next polygons hpolygons =>
        simp only [Bool.false_eq_true, if_false] at hassess
        intro piece hpiece
        obtain ⟨index, hindex, hget⟩ := List.mem_iff_getElem.1 hpiece
        obtain ⟨w, hw, hvalid⟩ := except_mapM_eq_ok hpolygons ⟨index⟩
          (List.mem_map.2 ⟨index, List.mem_range.2 hindex, rfl⟩)
        refine ⟨v, w, hv, ?_, assessOverlaps_legal hassess w hw⟩
        have hheap : placedHeap placed moving index = piece := by
          unfold placedHeap
          rw [List.getD_eq_getElem _ _ hindex, hget]
        unfold placedPolygon PlacedArc.piece at hvalid
        rwa [hheap] at hvalid
  · cases h

/-! ## §3  The 3×3 block -/

/-- Two entries of the block were placed, and checked against each other. -/
def EntriesApart (basis : GridPoint × GridPoint)
    (first second : ℤ × ℤ × IntrinsicPeriodicBaseMember F) : Prop :=
  ∃ s t, latticePosition basis first.2.2 first.1 first.2.1 = some s ∧
    latticePosition basis second.2.2 second.1 second.2.1 = some t ∧
    CheckedApart first.2.2.geometry.polygon second.2.2.geometry.polygon s t

/-- The piece is the entry, placed. -/
def PlacedEntry (basis : GridPoint × GridPoint)
    (entry : ℤ × ℤ × IntrinsicPeriodicBaseMember F) (piece : IrregularPlacedPiece F) : Prop :=
  ∃ s, latticePosition basis entry.2.2 entry.1 entry.2.1 = some s ∧
    piece = makePlaced entry.2.2.piece entry.2.2.geometry s

/-- The loop that reaches the end has checked every entry against all before it. -/
theorem placeBlock_apart (basis : GridPoint × GridPoint) :
    ∀ (done : List (ℤ × ℤ × IntrinsicPeriodicBaseMember F))
      {entries : List (ℤ × ℤ × IntrinsicPeriodicBaseMember F)}
      {placed : List (IrregularPlacedPiece F)} {center : List ℕ}
      {result : List (IrregularPlacedPiece F) × List ℕ},
      (∀ earlier ∈ done, ∃ piece ∈ placed, PlacedEntry basis earlier piece) →
      placeBlock basis entries placed center = .ok (some result) →
        entries.Pairwise (EntriesApart basis) ∧
          ∀ earlier ∈ done, ∀ entry ∈ entries, EntriesApart basis earlier entry
  | _, [], _, _, _, _, _ => by simp
  | done, (n, m, member) :: entries, placed, center, result, hdone, h => by
      unfold placeBlock at h
      split at h
      · cases h
      · next point hpoint =>
        split at h
        · cases h
        · cases h
        · next hlegal =>
          have hapart : ∀ earlier ∈ done, EntriesApart basis earlier (n, m, member) := by
            intro earlier hearlier
            obtain ⟨piece, hpiece, s, hs, rfl⟩ := hdone earlier hearlier
            exact ⟨s, point, hs, hpoint, checkSheetless_legal hlegal _ hpiece⟩
          obtain ⟨hpairs, hnext⟩ := placeBlock_apart basis (done ++ [(n, m, member)])
            (by
              intro earlier hearlier
              rcases List.mem_append.1 hearlier with hearlier | hearlier
              · obtain ⟨piece, hpiece, hplaced⟩ := hdone earlier hearlier
                exact ⟨piece, List.mem_append_left _ hpiece, hplaced⟩
              · obtain rfl := List.mem_singleton.1 hearlier
                exact ⟨_, List.mem_append_right _ List.mem_cons_self, point, hpoint, rfl⟩) h
          refine ⟨List.pairwise_cons.2 ⟨?_, hpairs⟩, ?_⟩
          · intro entry hentry
            exact hnext _ (List.mem_append_right _ List.mem_cons_self) entry hentry
          · intro earlier hearlier entry hentry
            rcases List.mem_cons.1 hentry with rfl | hentry
            · exact hapart earlier hearlier
            · exact hnext _ (List.mem_append_left _ hearlier) entry hentry

theorem diagnoseLattice_legal {members : List (IntrinsicPeriodicBaseMember F)}
    {basis : GridPoint × GridPoint} {diagnostic : PeriodicLatticeDiagnostic F}
    (h : diagnoseLattice members basis = .ok diagnostic) (hlegal : diagnostic.legal = true) :
    (blockEntries members).Pairwise (EntriesApart basis) := by
  unfold diagnoseLattice at h
  split at h
  · cases h
  · obtain rfl := Except.ok.inj h
    cases hlegal
  · next placed center hblock => exact (placeBlock_apart basis [] (by simp) hblock).1

/-- A member of the cell in a translate. -/
abbrev Occurrence (members : List (IntrinsicPeriodicBaseMember F)) : Type :=
  ℤ × ℤ × Fin members.length

theorem blockEntries_map {α β : Type} (f : α → β) (l : List α) :
    blockEntries (l.map f) = (blockEntries l).map fun entry =>
      (entry.1, entry.2.1, f entry.2.2) := by
  simp only [blockEntries, List.map_flatMap, List.map_map]
  rfl

theorem mem_blockEntries {α : Type} {l : List α} {n m : ℤ} {a : α} :
    (n, m, a) ∈ blockEntries l ↔ |n| ≤ 1 ∧ |m| ≤ 1 ∧ a ∈ l := by
  have hrange : ∀ k : ℤ, k ∈ ([-1, 0, 1] : List ℤ) ↔ |k| ≤ 1 := by
    intro k
    simp only [List.mem_cons, List.not_mem_nil, or_false, abs_le]
    omega
  simp only [blockEntries, List.mem_flatMap, List.mem_map, hrange, Prod.mk.injEq]
  constructor
  · rintro ⟨_, hn, _, hm, _, ha, rfl, rfl, rfl⟩
    exact ⟨hn, hm, ha⟩
  · rintro ⟨hn, hm, ha⟩
    exact ⟨n, hn, m, hm, a, ha, rfl, rfl, rfl⟩

/-- The entry an occurrence stands for. -/
def Occurrence.entry {members : List (IntrinsicPeriodicBaseMember F)}
    (occurrence : Occurrence members) : ℤ × ℤ × IntrinsicPeriodicBaseMember F :=
  (occurrence.1, occurrence.2.1, members.get occurrence.2.2)

/-- **Every pair of the block** has been checked, one way or the other. -/
theorem block_apart {members : List (IntrinsicPeriodicBaseMember F)}
    {basis : GridPoint × GridPoint} {diagnostic : PeriodicLatticeDiagnostic F}
    (h : diagnoseLattice members basis = .ok diagnostic) (hlegal : diagnostic.legal = true)
    {o o' : Occurrence members} (ho : |o.1| ≤ 1 ∧ |o.2.1| ≤ 1) (ho' : |o'.1| ≤ 1 ∧ |o'.2.1| ≤ 1)
    (hne : o ≠ o') :
    EntriesApart basis o.entry o'.entry ∨ EntriesApart basis o'.entry o.entry := by
  have hpairs := diagnoseLattice_legal h hlegal
  have hmembers : members = (List.finRange members.length).map members.get :=
    (List.map_get_finRange members).symm
  rw [hmembers, blockEntries_map, List.pairwise_map] at hpairs
  have hall : (blockEntries (List.finRange members.length)).Pairwise
      fun a b : Occurrence members =>
        EntriesApart basis a.entry b.entry ∨ EntriesApart basis b.entry a.entry :=
    hpairs.imp .inl
  have : Std.Symm fun a b : Occurrence members =>
      EntriesApart basis a.entry b.entry ∨ EntriesApart basis b.entry a.entry :=
    ⟨fun _ _ => Or.symm⟩
  exact hall.forall (mem_blockEntries.2 ⟨ho.1, ho.2, List.mem_finRange _⟩)
    (mem_blockEntries.2 ⟨ho'.1, ho'.2, List.mem_finRange _⟩) hne

end

/-! ## §4  Translates that are not neighbours -/

section

variable {members : List (IntrinsicPeriodicBaseMember ℚ)} {basis : GridPoint × GridPoint}

/-- A grid point in the plane, in millimetres. -/
def gridPosition (point : GridPoint) : ℚ × ℚ := position (fromGridPoint point)

theorem gridPosition_eq (point : GridPoint) :
    gridPosition point = ((point.x : ℚ) / 1000, (point.y : ℚ) / 1000) := rfl

/-- The vertices of a member have grid points, and stand on them. -/
def OnGrid (member : IntrinsicPeriodicBaseMember ℚ) : Prop :=
  ∀ vertex ∈ member.geometry.polygon.points,
    ∃ point, gridPoint vertex = some point ∧ fromGridPoint point = vertex

theorem latticePoint_position (n m : ℤ) (base : GridPoint) :
    position (fromGridPoint (latticePoint basis n m base) : IrregularPoint ℚ) =
      gridPosition base + latticeVector (gridPosition basis.1) (gridPosition basis.2) n m := by
  change gridPosition _ = _
  simp only [gridPosition_eq, latticePoint, latticeVector, Int.cast_add, Int.cast_mul,
    Prod.smul_mk, Prod.mk_add_mk, smul_eq_mul, Prod.mk.injEq]
  constructor <;> ring

/-- A member that stands in a translate is within the cell, translated. -/
theorem vertexSet_subset {member : IntrinsicPeriodicBaseMember ℚ} (hmember : member ∈ members)
    (hgrid : OnGrid member) {n m : ℤ} {t : IrregularPoint ℚ}
    (ht : latticePosition basis member n m = some t) :
    vertexSet (member.geometry.polygon.translate t) ⊆
      latticeVector (gridPosition basis.1) (gridPosition basis.2) n m +ᵥ
        {q | ∃ point ∈ worldGridVertices members, gridPosition point = q} := by
  obtain ⟨base, hbase, rfl⟩ := Option.map_eq_some_iff.1 ht
  rintro _ ⟨_, htranslated, rfl⟩
  obtain ⟨vertex, hvertex, rfl⟩ := List.mem_map.1 htranslated
  obtain ⟨point, hpoint, rfl⟩ := hgrid vertex hvertex
  refine Set.mem_vadd_set.2 ⟨_, ⟨⟨point.x + base.x, point.y + base.y⟩, ?_, rfl⟩, ?_⟩
  · refine List.mem_flatMap.2 ⟨member, hmember, ?_⟩
    unfold memberGridVertices
    rw [hbase]
    exact List.mem_filterMap.2 ⟨_, hvertex, by rw [hpoint]; rfl⟩
  · rw [position_translatePoint, latticePoint_position]
    change _ = gridPosition base + _ + gridPosition point
    refine Prod.ext ?_ ?_ <;>
      simp only [gridPosition_eq, Int.cast_add, vadd_eq_add, Prod.fst_add, Prod.snd_add] <;>
      ring

theorem le_foldl_max {α : Type} (f : α → ℤ) :
    ∀ (l : List α) (start : ℤ),
      start ≤ l.foldl (fun maximum a => if maximum < f a then f a else maximum) start ∧
        ∀ a ∈ l, f a ≤ l.foldl (fun maximum a => if maximum < f a then f a else maximum) start
  | [], start => by simp
  | b :: l, start => by
      obtain ⟨hstart, hall⟩ := le_foldl_max f l (if start < f b then f b else start)
      rw [List.foldl_cons]
      refine ⟨le_trans ?_ hstart, ?_⟩
      · split <;> omega
      · intro a ha
        rcases List.mem_cons.1 ha with rfl | ha
        · exact le_trans (by split <;> omega) hstart
        · exact hall a ha

/-- The maximum is one: no two world vertices are further apart. -/
theorem distanceSquared_le {maximum : ℤ}
    (h : farNeighborMaximumDistanceSquared members = some maximum) :
    ∀ first ∈ worldGridVertices members, ∀ second ∈ worldGridVertices members,
      distanceSquared first second ≤ maximum := by
  unfold farNeighborMaximumDistanceSquared at h
  dsimp only at h
  split at h
  · cases h
  · obtain rfl := Option.some.inj h
    generalize worldGridVertices members = vertices
    have houter : ∀ (firsts : List GridPoint) (start : ℤ),
        start ≤ firsts.foldl (fun maximum first => vertices.foldl (fun maximum second =>
            if maximum < distanceSquared first second then distanceSquared first second
            else maximum) maximum) start ∧
          ∀ first ∈ firsts, ∀ second ∈ vertices, distanceSquared first second ≤
            firsts.foldl (fun maximum first => vertices.foldl (fun maximum second =>
              if maximum < distanceSquared first second then distanceSquared first second
              else maximum) maximum) start := by
      intro firsts
      induction firsts with
      | nil => simp
      | cons head firsts ih =>
          intro start
          obtain ⟨hstart, hinner⟩ := le_foldl_max (distanceSquared head) vertices start
          obtain ⟨hnext, hrest⟩ := ih (vertices.foldl (fun maximum second =>
            if maximum < distanceSquared head second then distanceSquared head second
            else maximum) start)
          rw [List.foldl_cons]
          refine ⟨hstart.trans hnext, ?_⟩
          intro first hfirst second hsecond
          rcases List.mem_cons.1 hfirst with rfl | hfirst
          · exact (hinner second hsecond).trans hnext
          · exact hrest first hfirst second hsecond
    exact (houter vertices 0).2

/-- **What the certificate excludes**: translates that differ by two or more steps. -/
theorem far_of_certificate (hfar : farNeighborCertificateGrid members basis = true) :
    ∃ D : ℚ,
      (∀ w ∈ {q | ∃ point ∈ worldGridVertices members, gridPosition point = q},
        ∀ w' ∈ {q | ∃ point ∈ worldGridVertices members, gridPosition point = q},
          normSq (w - w') ≤ D) ∧
      ∀ i j : ℤ, 4 ≤ i ^ 2 + j ^ 2 →
        D < normSq (latticeVector (gridPosition basis.1) (gridPosition basis.2) i j) := by
  unfold farNeighborCertificateGrid farNeighborCertificateFromMaximum at hfar
  split at hfar
  · cases hfar
  · next maximum hmaximum =>
    have hbound := of_decide_eq_true hfar
    rw [mul_assoc 4, abs_mul_abs_self] at hbound
    refine ⟨(maximum : ℚ) / 1000000, ?_, ?_⟩
    · rintro _ ⟨first, hfirst, rfl⟩ _ ⟨second, hsecond, rfl⟩
      have hle : (distanceSquared first second : ℚ) ≤ maximum := by
        exact_mod_cast distanceSquared_le hmaximum first hfirst second hsecond
      have heq : normSq (gridPosition first - gridPosition second) =
          (distanceSquared first second : ℚ) / 1000000 := by
        simp only [normSq, dot, gridPosition_eq, distanceSquared, Prod.fst_sub, Prod.snd_sub,
          Int.cast_add, Int.cast_mul, Int.cast_sub]
        ring
      rw [heq]
      exact div_le_div_of_nonneg_right hle (by norm_num)
    · intro i j hij
      refine lt_normSq_latticeVector ?_ hij
      have hcast : (maximum : ℚ) * (basis.1.x * basis.1.x + basis.1.y * basis.1.y +
          basis.2.x * basis.2.x + basis.2.y * basis.2.y) <
          4 * (crossGrid basis.1 basis.2 * crossGrid basis.1 basis.2) := by
        exact_mod_cast hbound
      have hleft : (maximum : ℚ) / 1000000 *
          (normSq (gridPosition basis.1) + normSq (gridPosition basis.2)) =
          (maximum : ℚ) * (basis.1.x * basis.1.x + basis.1.y * basis.1.y +
            basis.2.x * basis.2.x + basis.2.y * basis.2.y) / 1000000000000 := by
        simp only [normSq, dot, gridPosition_eq]
        ring
      have hright : 4 * det (gridPosition basis.1) (gridPosition basis.2) ^ 2 =
          4 * (crossGrid basis.1 basis.2 * crossGrid basis.1 basis.2 : ℚ) / 1000000000000 := by
        simp only [det, gridPosition_eq, crossGrid, Int.cast_sub, Int.cast_mul]
        ring
      rw [hleft, hright]
      exact div_lt_div_of_pos_right hcast (by norm_num)

/-! ## §5  The whole lattice -/

/-- The polygon of an occurrence in the plane. -/
def Occurrence.polygon (basis : GridPoint × GridPoint) (o : Occurrence members) :
    Option (IrregularPolygon ℚ) :=
  (latticePosition basis (members.get o.2.2) o.1 o.2.1).map
    (members.get o.2.2).geometry.polygon.translate

/-- On two polygons the engine validated, the pairwise check decides whether they share a
positive area. -/
def DecidesOverlap (placed moving : IrregularPolygon ℚ) : Prop :=
  ∀ v w, Checked v → Checked w → v.polygon = moving → w.polygon = placed →
    (polygonsHavePositiveAreaOverlap v w = .ok true ↔
      sharesPositiveArea v.polygon w.polygon)

theorem CheckedApart.not_shares {placed moving : IrregularPolygon ℚ}
    {placedAt movingAt : IrregularPoint ℚ}
    (h : CheckedApart placed moving placedAt movingAt)
    (hexact : DecidesOverlap (placed.translate placedAt) (moving.translate movingAt)) :
    ¬sharesPositiveArea (placed.translate placedAt) (moving.translate movingAt) := by
  obtain ⟨v, w, hv, hw, hfree⟩ := h
  obtain ⟨hcheckedV, hpointsV⟩ := checked_of_translateAndValidatePolygon hv
  obtain ⟨hcheckedW, hpointsW⟩ := checked_of_translateAndValidatePolygon hw
  have hvp : v.polygon = moving.translate movingAt := IrregularPolygon.eq_of_points hpointsV
  have hwp : w.polygon = placed.translate placedAt := IrregularPolygon.eq_of_points hpointsW
  intro hshares
  have hyes := (hexact v w hcheckedV hcheckedW hvp hwp).2
    (hvp ▸ hwp ▸ sharesPositiveArea_symm hshares)
  rw [hfree] at hyes
  cases hyes

/-- What the pairwise check is assumed to decide: the pairs of the 3×3 block. -/
def BlockExact (members : List (IntrinsicPeriodicBaseMember ℚ)) (basis : GridPoint × GridPoint) :
    Prop :=
  ∀ o o' : Occurrence members, |o.1| ≤ 1 → |o.2.1| ≤ 1 → |o'.1| ≤ 1 → |o'.2.1| ≤ 1 → o ≠ o' →
    ∀ placed ∈ o.polygon basis, ∀ moving ∈ o'.polygon basis, DecidesOverlap placed moving

/-- A cell with its basis that passed both tests. -/
structure Certified (members : List (IntrinsicPeriodicBaseMember ℚ))
    (basis : GridPoint × GridPoint) : Prop where
  legal : ∃ diagnostic, diagnoseLattice members basis = .ok diagnostic ∧
    diagnostic.legal = true
  far : farNeighborCertificateGrid members basis = true
  onGrid : ∀ member ∈ members, OnGrid member
  exactCheck : BlockExact members basis

namespace Certified

theorem position_eq_some (h : Certified members basis) (o : Occurrence members) :
    ∃ t, latticePosition basis (members.get o.2.2) o.1 o.2.1 = some t := by
  obtain ⟨diagnostic, hdiagnose, hlegal⟩ := h.legal
  have hbase : ∃ base, gridPoint (members.get o.2.2).point = some base := by
    -- the member was placed at the centre, against itself one step away
    have hne : ((0, 0, o.2.2) : Occurrence members) ≠ (1, 0, o.2.2) := by
      intro heq
      cases congrArg Prod.fst heq
    rcases block_apart hdiagnose hlegal (by simp) (by simp) hne with
      ⟨s, t, hs, -, -⟩ | ⟨s, t, -, hs, -⟩
    all_goals
      obtain ⟨base, hbase, -⟩ := Option.map_eq_some_iff.1 hs
      exact ⟨base, hbase⟩
  obtain ⟨base, hbase⟩ := hbase
  exact ⟨_, by rw [latticePosition, hbase]; rfl⟩

/-- Pairs of the block share nothing. -/
theorem block (h : Certified members basis) {o o' : Occurrence members}
    (ho : |o.1| ≤ 1 ∧ |o.2.1| ≤ 1) (ho' : |o'.1| ≤ 1 ∧ |o'.2.1| ≤ 1) (hne : o ≠ o')
    {P Q : IrregularPolygon ℚ} (hP : o.polygon basis = some P) (hQ : o'.polygon basis = some Q) :
    ¬sharesPositiveArea P Q := by
  obtain ⟨diagnostic, hdiagnose, hlegal⟩ := h.legal
  obtain ⟨s, hs, rfl⟩ := Option.map_eq_some_iff.1 hP
  obtain ⟨t, ht, rfl⟩ := Option.map_eq_some_iff.1 hQ
  rcases block_apart hdiagnose hlegal ho ho' hne with
    ⟨s', t', hs', ht', hapart⟩ | ⟨t', s', ht', hs', hapart⟩
  · obtain rfl := Option.some.inj (hs.symm.trans hs')
    obtain rfl := Option.some.inj (ht.symm.trans ht')
    exact hapart.not_shares (h.exactCheck o o' ho.1 ho.2 ho'.1 ho'.2 hne _ hP _ hQ)
  · obtain rfl := Option.some.inj (hs.symm.trans hs')
    obtain rfl := Option.some.inj (ht.symm.trans ht')
    intro hshares
    exact hapart.not_shares (h.exactCheck o' o ho'.1 ho'.2 ho.1 ho.2 hne.symm _ hQ _ hP)
      (sharesPositiveArea_symm hshares)

/-- **No two members overlap, in any translates.** -/
theorem apart (h : Certified members basis) {o o' : Occurrence members} (hne : o ≠ o')
    {P Q : IrregularPolygon ℚ} (hP : o.polygon basis = some P) (hQ : o'.polygon basis = some Q) :
    ¬sharesPositiveArea P Q := by
  obtain ⟨n, m, k⟩ := o
  obtain ⟨n', m', k'⟩ := o'
  obtain ⟨s, hs, rfl⟩ := Option.map_eq_some_iff.1 hP
  obtain ⟨t, ht, rfl⟩ := Option.map_eq_some_iff.1 hQ
  by_cases hnear : (n - n') ^ 2 + (m - m') ^ 2 < 4
  · -- the same pair occurs in the block, the second member at its centre
    obtain ⟨hi, hj⟩ := neighbour_of_sq_lt_four hnear
    obtain ⟨s', hs'⟩ := h.position_eq_some (n - n', m - m', k)
    obtain ⟨t', ht'⟩ := h.position_eq_some (0, 0, k')
    intro hshares
    refine @block _ _ h (n - n', m - m', k) (0, 0, k') ⟨hi, hj⟩ (by simp) ?_ _ _
      (by rw [Occurrence.polygon, hs']; rfl) (by rw [Occurrence.polygon, ht']; rfl)
      (sharesPositiveArea_of_translate ?_ hshares)
    · intro heq
      simp only [Prod.mk.injEq] at heq
      exact hne (by rw [heq.2.2, sub_eq_zero.1 heq.1, sub_eq_zero.1 heq.2.1])
    · obtain ⟨base, hbase, rfl⟩ := Option.map_eq_some_iff.1 hs
      obtain ⟨base', hbase', rfl⟩ := Option.map_eq_some_iff.1 ht
      obtain ⟨_, hsame, rfl⟩ := Option.map_eq_some_iff.1 hs'
      obtain rfl := Option.some.inj (hbase.symm.trans hsame)
      obtain ⟨_, hsame, rfl⟩ := Option.map_eq_some_iff.1 ht'
      obtain rfl := Option.some.inj (hbase'.symm.trans hsame)
      simp only [latticePoint_position, add_sub_add_left_eq_sub,
        latticeVector_sub, sub_sub_cancel, sub_zero]
  · -- further apart than the diameter
    push Not at hnear
    obtain ⟨D, hD, hlong⟩ := far_of_certificate h.far
    refine not_sharesPositiveArea_of_far hD
      (vertexSet_subset (List.get_mem _ _) (h.onGrid _ (List.get_mem _ _)) hs)
      (vertexSet_subset (List.get_mem _ _) (h.onGrid _ (List.get_mem _ _)) ht) ?_
    rw [latticeVector_sub]
    exact hlong _ _ hnear

end Certified

/-! ## §6  Crops -/

theorem pairwise_of_forall₂_nodup {α β : Type} {R : α → β → Prop} {S : α → α → Prop}
    (hS : ∀ a b a' b', R a b → R a' b' → b ≠ b' → S a a') :
    ∀ {l : List α} {l' : List β}, List.Forall₂ R l l' → l'.Nodup → l.Pairwise S
  | _, _, .nil, _ => .nil
  | _, _, .cons hab h, hnodup => by
      obtain ⟨hhead, htail⟩ := List.nodup_cons.1 hnodup
      refine List.pairwise_cons.2 ⟨?_, pairwise_of_forall₂_nodup hS h htail⟩
      intro a' ha'
      obtain ⟨b', hb', hab'⟩ := forall₂_exists h a' ha'
      exact hS _ _ _ _ hab hab' fun heq => hhead (heq ▸ hb')

/-- A placed piece, as it lies in the plane. -/
def worldPolygon (piece : IrregularPlacedPiece ℚ) : IrregularPolygon ℚ :=
  piece.collisionGeometry.polygon.translate (placedTranslation piece)

/-- No two pieces of the list share a positive area. -/
def CollisionFree (placed : List (IrregularPlacedPiece ℚ)) : Prop :=
  placed.Pairwise fun first second => ¬sharesPositiveArea (worldPolygon first) (worldPolygon second)

/-- The piece lies where the cell has the occurrence. -/
def LiesAt (basis : GridPoint × GridPoint) (piece : IrregularPlacedPiece ℚ)
    (o : Occurrence members) : Prop :=
  o.polygon basis = some (worldPolygon piece)

theorem Certified.collisionFree (h : Certified members basis)
    {placed : List (IrregularPlacedPiece ℚ)} {occurrences : List (Occurrence members)}
    (hlies : List.Forall₂ (LiesAt basis) placed occurrences) (hnodup : occurrences.Nodup) :
    CollisionFree placed := by
  have hapart : ∀ (first : IrregularPlacedPiece ℚ) (o : Occurrence members)
      (second : IrregularPlacedPiece ℚ) (o' : Occurrence members), LiesAt basis first o →
      LiesAt basis second o' → o ≠ o' →
      ¬sharesPositiveArea (worldPolygon first) (worldPolygon second) :=
    fun _ _ _ _ hP hQ hne => h.apart hne hP hQ
  exact pairwise_of_forall₂_nodup hapart hlies hnodup

/-- Members are placed at their occurrences in the translate, in order. -/
theorem placeCropMembers_lies {familyMembers : List (IrregularPreparedPiece ℚ)}
    {coordinate : CropCoordinate} :
    ∀ (indices : List (Fin members.length)) {placed placed' : List (IrregularPlacedPiece ℚ)}
      {occurrences : List (Occurrence members)} {legal : Bool},
      List.Forall₂ (LiesAt basis) placed occurrences →
      placeCropMembers basis familyMembers coordinate (indices.map members.get) placed =
        .ok (placed', legal) →
      ∃ added : List (Occurrence members),
        added.Sublist (indices.map fun k => (coordinate.row, coordinate.column, k)) ∧
          List.Forall₂ (LiesAt basis) placed' (occurrences ++ added)
  | [], placed, placed', occurrences, legal, hlies, h => by
      obtain ⟨rfl, -⟩ := Prod.mk.inj (Except.ok.inj h)
      exact ⟨[], List.nil_sublist _, by rwa [List.append_nil]⟩
  | k :: indices, placed, placed', occurrences, legal, hlies, h => by
      rw [List.map_cons] at h
      unfold placeCropMembers at h
      have hstop : placed = placed' → ∃ added : List (Occurrence members),
          added.Sublist ((k :: indices).map fun k => (coordinate.row, coordinate.column, k)) ∧
            List.Forall₂ (LiesAt basis) placed' (occurrences ++ added) := by
        rintro rfl
        exact ⟨[], List.nil_sublist _, by rwa [List.append_nil]⟩
      split at h
      · exact hstop (Prod.mk.inj (Except.ok.inj h)).1
      · next piece _ =>
        split at h
        · exact hstop (Prod.mk.inj (Except.ok.inj h)).1
        · next point hpoint =>
          dsimp only at h
          split at h
          · cases h
          · exact hstop (Prod.mk.inj (Except.ok.inj h)).1
          · have hnew : LiesAt basis
                (makePlaced piece (geometryForPiece (members.get k).geometry piece) point)
                ((coordinate.row, coordinate.column, k) : Occurrence members) := by
              unfold LiesAt Occurrence.polygon
              rw [hpoint]
              rfl
            obtain ⟨added, hsub, hall⟩ := placeCropMembers_lies indices
              (List.rel_append hlies (.cons hnew .nil)) h
            refine ⟨(coordinate.row, coordinate.column, k) :: added, hsub.cons_cons _, ?_⟩
            rwa [List.append_assoc, List.singleton_append] at hall

/-- The occurrences of the whole cell at the coordinates, in order. -/
def cropOccurrences (members : List (IntrinsicPeriodicBaseMember ℚ))
    (coordinates : List CropCoordinate) : List (Occurrence members) :=
  coordinates.flatMap fun coordinate =>
    (List.finRange members.length).map fun k => (coordinate.row, coordinate.column, k)

theorem cropOccurrences_nodup {coordinates : List CropCoordinate} (h : coordinates.Nodup) :
    (cropOccurrences members coordinates).Nodup := by
  refine List.nodup_flatMap.2 ⟨?_, ?_⟩
  · intro coordinate _
    refine (List.nodup_finRange _).map fun k k' heq => ?_
    exact (Prod.mk.inj (Prod.mk.inj heq).2).2
  · refine h.imp ?_
    rintro ⟨row, column⟩ ⟨row', column'⟩ hne o ho ho'
    obtain ⟨k, -, rfl⟩ := List.mem_map.1 ho
    obtain ⟨k', -, heq⟩ := List.mem_map.1 ho'
    simp only [Prod.mk.injEq] at heq
    exact hne (by rw [heq.1, heq.2.1])

variable {cell : IntrinsicPeriodicCell ℚ} {familyMembers : List (IrregularPreparedPiece ℚ)}

theorem placeCrop_lies {size : ℕ} :
    ∀ {coordinates : List CropCoordinate} {placed placed' : List (IrregularPlacedPiece ℚ)}
      {occurrences : List (Occurrence cell.members)} {legal : Bool},
      List.Forall₂ (LiesAt basis) placed occurrences →
      placeCrop cell basis familyMembers size coordinates placed = .ok (placed', legal) →
      ∃ added : List (Occurrence cell.members),
        added.Sublist (cropOccurrences cell.members coordinates) ∧
          List.Forall₂ (LiesAt basis) placed' (occurrences ++ added)
  | [], placed, placed', occurrences, legal, hlies, h => by
      obtain ⟨rfl, -⟩ := Prod.mk.inj (Except.ok.inj h)
      exact ⟨[], List.nil_sublist _, by rwa [List.append_nil]⟩
  | coordinate :: coordinates, placed, placed', occurrences, legal, hlies, h => by
      unfold placeCrop at h
      split at h
      · cases h
      · next next' legal' hmembers =>
        rw [← List.map_get_finRange cell.members] at hmembers
        obtain ⟨added, hsub, hall⟩ := placeCropMembers_lies _ hlies hmembers
        split at h
        · obtain ⟨rfl, -⟩ := Prod.mk.inj (Except.ok.inj h)
          exact ⟨added, hsub.trans (List.sublist_append_left _ _), hall⟩
        · obtain ⟨added', hsub', hall'⟩ := placeCrop_lies hall h
          refine ⟨added ++ added', hsub.append hsub', ?_⟩
          rwa [List.append_assoc] at hall'

/-- The coordinates of a crop are distinct. -/
theorem cropCoordinates_nodup (rows columns count : ℕ)
    (traversal : IntrinsicPeriodicCropTraversal) (corner : ℕ) :
    (cropCoordinates rows columns count traversal corner).Nodup := by
  have hblock : ((List.range rows).flatMap fun row : ℕ =>
      (List.range columns).map fun column : ℕ => (⟨row, column⟩ : CropCoordinate)).Nodup := by
    refine List.nodup_flatMap.2 ⟨?_, ?_⟩
    · intro row _
      refine List.nodup_range.map fun column column' heq => ?_
      simpa using heq
    · refine List.nodup_range.imp ?_
      rintro row row' hne coordinate hrow hrow'
      obtain ⟨column, -, rfl⟩ := List.mem_map.1 hrow
      obtain ⟨column', -, heq⟩ := List.mem_map.1 hrow'
      exact hne (by simpa using congrArg CropCoordinate.row heq.symm)
  refine List.Nodup.map ?_ (((List.mergeSort_perm _ _).nodup_iff.2 hblock).sublist
    (List.take_sublist _ _))
  rintro ⟨row, column⟩ ⟨row', column'⟩ heq
  simp only [fromCorner, CropCoordinate.mk.injEq] at heq ⊢
  obtain ⟨hrow, hcolumn⟩ := heq
  constructor
  · split at hrow <;> omega
  · split at hcolumn <;> omega

/-- Normalizing moves all pieces alike. -/
theorem CollisionFree.normalize {placed : List (IrregularPlacedPiece ℚ)}
    (h : CollisionFree placed) : CollisionFree (normalizePlacedBottomLeft placed) := by
  unfold normalizePlacedBottomLeft
  split
  · exact .nil
  · next bounds _ =>
    refine List.pairwise_map.2 (h.imp ?_)
    intro first second hapart hshares
    refine hapart (sharesPositiveArea_of_translate ?_ hshares)
    simp only [position, placedTranslation, IrregularPlacedPiece.shiftBack, Prod.mk_sub_mk,
      sub_sub_cancel_left]

/-- **Every crop is free of overlaps.** -/
theorem Certified.crops (h : Certified cell.members basis) (measures : LayoutMeasures ℚ)
    {q : ℕ} {crop : IntrinsicPeriodicCropProvenance} {state state' : CropState ℚ}
    (hstate : ∀ seed ∈ state.candidates, CollisionFree seed.placements)
    (hattempt : cropAttempt measures cell basis familyMembers q crop state = .ok state') :
    ∀ seed ∈ state'.candidates, CollisionFree seed.placements := by
  unfold cropAttempt at hattempt
  dsimp only at hattempt
  split at hattempt
  · obtain rfl := Except.ok.inj hattempt
    exact hstate
  · split at hattempt
    · cases hattempt
    · next placed legal hcrop =>
      obtain ⟨added, hsub, hlies⟩ := placeCrop_lies .nil hcrop
      have hfree : CollisionFree placed := h.collisionFree hlies
        ((cropOccurrences_nodup (cropCoordinates_nodup _ _ _ _ _)).sublist hsub)
      split at hattempt
      · obtain rfl := Except.ok.inj hattempt
        exact hstate
      · split at hattempt
        · obtain rfl := Except.ok.inj hattempt
          exact hstate
        · next seed hseed =>
          have hplacements : seed.placements = normalizePlacedBottomLeft placed := by
            simp only [cropSeed, Option.bind_eq_bind, Option.bind_eq_some_iff,
              Option.some.injEq] at hseed
            obtain ⟨_, _, _, _, _, _, _, _, rfl⟩ := hseed
            rfl
          split at hattempt
          · obtain rfl := Except.ok.inj hattempt
            exact hstate
          · obtain rfl := Except.ok.inj hattempt
            intro other hother
            rcases List.mem_append.1 hother with hother | hother
            · exact hstate other hother
            · obtain rfl := List.mem_singleton.1 hother
              rw [hplacements]
              exact hfree.normalize

end

/-! ## §7  The tiling -/

/-- **A certified cell tiles the plane legally.** Of a cell that the 3×3 diagnostic calls legal
and the far-neighbour certificate accepts, every member stands in every translate, no two of
them share a positive area, and every crop the enumeration keeps is free of overlaps. -/
theorem certifiedCell_tiles {members : List (IntrinsicPeriodicBaseMember ℚ)}
    {basis : GridPoint × GridPoint} {diagnostic : PeriodicLatticeDiagnostic ℚ}
    (hdiagnose : diagnoseLattice members basis = .ok diagnostic)
    (hlegal : diagnostic.legal = true)
    (hfar : farNeighborCertificateGrid members basis = true)
    (hgrid : ∀ member ∈ members, OnGrid member) (hexact : BlockExact members basis) :
    (∀ o o' : Occurrence members, o ≠ o' → ∃ P Q, o.polygon basis = some P ∧
      o'.polygon basis = some Q ∧ ¬sharesPositiveArea P Q) ∧
    ∀ (measures : LayoutMeasures ℚ) (cell : IntrinsicPeriodicCell ℚ)
      (familyMembers : List (IrregularPreparedPiece ℚ)) (seeds : List (IntrinsicPeriodicSeed ℚ)),
      cell.members = members →
      gridPoint (⟨cell.v1.x, cell.v1.y⟩ : IrregularPoint ℚ) = some basis.1 →
      gridPoint (⟨cell.v2.x, cell.v2.y⟩ : IrregularPoint ℚ) = some basis.2 →
      enumerateIntrinsicPeriodicCellCrops measures cell familyMembers = .ok seeds →
      ∀ seed ∈ seeds, CollisionFree seed.placements := by
  have hcertified : Certified members basis := ⟨⟨diagnostic, hdiagnose, hlegal⟩, hfar, hgrid, hexact⟩
  constructor
  · intro o o' hne
    obtain ⟨s, hs⟩ := hcertified.position_eq_some o
    obtain ⟨t, ht⟩ := hcertified.position_eq_some o'
    have hP : o.polygon basis = some ((members.get o.2.2).geometry.polygon.translate s) := by
      rw [Occurrence.polygon, hs]
      rfl
    have hQ : o'.polygon basis = some ((members.get o'.2.2).geometry.polygon.translate t) := by
      rw [Occurrence.polygon, ht]
      rfl
    exact ⟨_, _, hP, hQ, hcertified.apart hne hP hQ⟩
  · rintro measures cell familyMembers seeds rfl hv1 hv2 hrun
    unfold enumerateIntrinsicPeriodicCellCrops at hrun
    rw [hv1, hv2] at hrun
    dsimp only at hrun
    split at hrun
    · obtain rfl := Except.ok.inj hrun
      simp
    · split at hrun
      · obtain rfl := Except.ok.inj hrun
        simp
      · obtain ⟨state, hstate, rfl⟩ := except_map_eq_ok hrun
        refine except_foldlM_induct
          (P := fun state => ∀ seed ∈ state.candidates, CollisionFree seed.placements) ?_ (by simp)
          hstate
        intro crop _ state state' hstate hattempt
        exact hcertified.crops measures hstate hattempt

/-- A unit square at the origin. -/
def squareMember : IntrinsicPeriodicBaseMember ℚ where
  piece := ⟨none, "square", ⟨"square", ⟨[]⟩, ⟨[]⟩, ⟨0, 0⟩⟩, []⟩
  geometry := ⟨"square", ⟨0, 0, false, .orthogonal⟩,
    ⟨[⟨0, 0⟩, ⟨1, 0⟩, ⟨1, 1⟩, ⟨0, 1⟩]⟩, ⟨0, 0, 1, 1⟩⟩
  point := ⟨0, 0⟩

/-- Two millimetres to the right, and two up. -/
def wideBasis : GridPoint × GridPoint := (⟨2000, 0⟩, ⟨0, 2000⟩)

theorem squareMember_onGrid : OnGrid squareMember := by
  intro vertex hvertex
  simp only [squareMember, List.mem_cons, List.not_mem_nil, or_false] at hvertex
  rcases hvertex with rfl | rfl | rfl | rfl
  · exact ⟨⟨0, 0⟩, by decide +kernel, by decide +kernel⟩
  · exact ⟨⟨1000, 0⟩, by decide +kernel, by decide +kernel⟩
  · exact ⟨⟨1000, 1000⟩, by decide +kernel, by decide +kernel⟩
  · exact ⟨⟨0, 1000⟩, by decide +kernel, by decide +kernel⟩

/-- Squares two millimetres apart share nothing, and the check says so. -/
theorem squareMember_blockExact : BlockExact [squareMember] wideBasis := by
  rintro ⟨n, m, k⟩ ⟨n', m', k'⟩ - - - - hne P hP Q hQ v w hv hw rfl rfl
  obtain rfl : k = ⟨0, Nat.one_pos⟩ := Fin.ext (Nat.lt_one_iff.1 k.isLt)
  obtain rfl : k' = ⟨0, Nat.one_pos⟩ := Fin.ext (Nat.lt_one_iff.1 k'.isLt)
  obtain ⟨s, hs, hP⟩ := Option.map_eq_some_iff.1 hP
  obtain ⟨t, ht, hQ⟩ := Option.map_eq_some_iff.1 hQ
  have hdiameter : ∀ p ∈ {q | ∃ point ∈ worldGridVertices [squareMember], gridPosition point = q},
      ∀ p' ∈ {q | ∃ point ∈ worldGridVertices [squareMember], gridPosition point = q},
        normSq (p - p') ≤ 2 := by
    have hvertices : worldGridVertices [squareMember] =
        [⟨0, 0⟩, ⟨1000, 0⟩, ⟨1000, 1000⟩, ⟨0, 1000⟩] := by decide +kernel
    rw [hvertices]
    rintro _ ⟨point, hpoint, rfl⟩ _ ⟨point', hpoint', rfl⟩
    simp only [List.mem_cons, List.not_mem_nil, or_false] at hpoint hpoint'
    rcases hpoint with rfl | rfl | rfl | rfl <;> rcases hpoint' with rfl | rfl | rfl | rfl <;>
      norm_num [normSq, dot, gridPosition_eq]
  have hfree : ¬sharesPositiveArea v.polygon w.polygon := by
    rw [← hP, ← hQ]
    refine fun hshares => not_sharesPositiveArea_of_far hdiameter
      (vertexSet_subset List.mem_cons_self squareMember_onGrid ht)
      (vertexSet_subset List.mem_cons_self squareMember_onGrid hs) ?_ hshares
    rw [latticeVector_sub]
    have hstep : 1 ≤ (n' - n) ^ 2 + (m' - m) ^ 2 := by
      by_contra hzero
      have hn : (n' - n) ^ 2 = 0 := by nlinarith [sq_nonneg (n' - n), sq_nonneg (m' - m)]
      have hm : (m' - m) ^ 2 = 0 := by nlinarith [sq_nonneg (n' - n), sq_nonneg (m' - m)]
      rw [sq_eq_zero_iff, sub_eq_zero] at hn hm
      exact hne (by rw [hn, hm])
    have hcast : (1 : ℚ) ≤ ((n' - n : ℤ) : ℚ) ^ 2 + ((m' - m : ℤ) : ℚ) ^ 2 := by
      exact_mod_cast hstep
    have hlength : normSq (latticeVector (gridPosition wideBasis.1) (gridPosition wideBasis.2)
        (n' - n) (m' - m)) =
        4 * (((n' - n : ℤ) : ℚ) ^ 2 + ((m' - m : ℤ) : ℚ) ^ 2) := by
      simp only [normSq, dot, latticeVector, gridPosition_eq, wideBasis, Prod.smul_mk,
        Prod.mk_add_mk, smul_eq_mul]
      norm_num
      ring
    rw [hlength]
    linarith
  obtain ⟨verdict, hverdict, hiff⟩ := hv.verdict hw
  rw [hverdict, Except.ok.injEq, hiff]
  exact ⟨And.left, fun hshares => absurd hshares hfree⟩

/-- The square of the lattice in a column. -/
def squareAt (column : ℤ) : Occurrence [squareMember] := (column, 0, ⟨0, by decide⟩)

/-- A square and its right neighbour. -/
theorem certifiedCell_tiles_squares :
    ∃ P Q, (squareAt 0).polygon wideBasis = some P ∧
      (squareAt 1).polygon wideBasis = some Q ∧ ¬sharesPositiveArea P Q := by
  have hdiagnose : diagnoseLattice [squareMember] wideBasis = .ok ⟨true, false, 0⟩ := by
    decide +kernel
  exact (certifiedCell_tiles hdiagnose rfl (by decide +kernel)
    (by simpa using squareMember_onGrid) squareMember_blockExact).1 (squareAt 0) (squareAt 1)
    (by decide)

end PolygonNesting
