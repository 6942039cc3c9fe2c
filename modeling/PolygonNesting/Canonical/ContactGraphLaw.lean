import Mathlib.Combinatorics.SimpleGraph.Connectivity.Connected
import PolygonNesting.Canonical.ContactGraph
import PolygonNesting.Canonical.TouchingRings

set_option linter.unusedSectionVars false

/-!
# The components are those of the contact graph

Two polygons are neighbours when they share a part of their boundary.  The components that
are found are the connected components of that graph, whatever the order in which the
neighbours are listed: the search finds the same parts in the same order, and each is
sorted.
-/

namespace PolygonNesting

/-! ## §1  The graph -/

/-- Two polygons of the layout are neighbours when they share a part of their boundary. -/
def contactGraph (polygons : List CanonicalPlacedPolygon) : SimpleGraph ℕ where
  Adj i j := i ≠ j ∧ (i < polygons.length ∧ j < polygons.length) ∧
    ShareBoundary (pathAt polygons i) (pathAt polygons j)
  symm := ⟨fun _ _ h => ⟨h.1.symm, h.2.1.symm, shareBoundary_comm.mp h.2.2⟩⟩
  loopless := ⟨fun _ h => h.1 rfl⟩

theorem mem_indexPairs {count i j : ℕ} : (i, j) ∈ indexPairs count ↔ j < i ∧ i < count := by
  unfold indexPairs
  simp only [List.mem_flatMap, List.mem_range, List.mem_map, Prod.mk.injEq]
  constructor
  · rintro ⟨i, hi, j, hj, rfl, rfl⟩
    exact ⟨hj, hi⟩
  · rintro ⟨hj, hi⟩
    exact ⟨i, hi, j, hj, rfl, rfl⟩

theorem mem_modify_insert {sets : List (Finset ℕ)} {k : ℕ} (hk : k < sets.length) (a i j : ℕ) :
    j ∈ (sets.modify k (insert a)).getD i ∅ ↔ j ∈ sets.getD i ∅ ∨ i = k ∧ j = a := by
  rw [List.getD_eq_getElem?_getD, List.getD_eq_getElem?_getD, List.getElem?_modify]
  by_cases hik : k = i
  · subst hik
    rw [List.getElem?_eq_getElem hk]
    simp [or_comm]
  · simp [hik, Ne.symm hik]

/-- What the neighbour sets are after some of the pairs. -/
structure Joined (polygons : List CanonicalPlacedPolygon) (done : List (ℕ × ℕ))
    (sets : List (Finset ℕ)) : Prop where
  length : sets.length = polygons.length
  mem : ∀ i j, j ∈ sets.getD i ∅ ↔ ((i, j) ∈ done ∨ (j, i) ∈ done) ∧
    ShareBoundary (pathAt polygons i) (pathAt polygons j)

section Neighbors

variable (F : Type) [LinearOrder F] [Zero F] [One F] [Add F] [Sub F] [Neg F]
  [Mul F] [Div F] [JsMath F]

theorem Joined.step {polygons : List CanonicalPlacedPolygon} {done : List (ℕ × ℕ)}
    {sets sets' : List (Finset ℕ)} (h : Joined polygons done sets) {pair : ℕ × ℕ}
    (hpair : pair ∈ indexPairs polygons.length)
    (hstep : addNeighbors F polygons sets pair = some sets') :
    Joined polygons (done ++ [pair]) sets' := by
  obtain ⟨first, second⟩ := pair
  obtain ⟨hlt, hfirst⟩ := mem_indexPairs.mp hpair
  obtain ⟨contact, hcontact, hstep⟩ := Option.bind_eq_some_iff.mp hstep
  have hshare := hasPositiveCanonicalGridBoundaryContact_iff F hcontact
  have hpairs : ∀ i j, ((i, j) ∈ done ++ [(first, second)] ∨ (j, i) ∈ done ++ [(first, second)]) ↔
      ((i, j) ∈ done ∨ (j, i) ∈ done) ∨ (i = first ∧ j = second ∨ j = first ∧ i = second) := by
    intro i j
    simp only [List.mem_append, List.mem_singleton, Prod.mk.injEq]
    tauto
  split at hstep
  · next htrue =>
      have hboth := hshare.mp htrue
      obtain rfl := Option.some.inj hstep
      refine ⟨by rw [List.length_modify, List.length_modify, h.length], fun i j => ?_⟩
      rw [mem_modify_insert (by rw [List.length_modify, h.length]; omega),
        mem_modify_insert (by rw [h.length]; exact hfirst), h.mem, hpairs]
      constructor
      · rintro ((⟨hdone, hij⟩ | ⟨rfl, rfl⟩) | ⟨rfl, rfl⟩)
        · exact ⟨.inl hdone, hij⟩
        · exact ⟨.inr (.inl ⟨rfl, rfl⟩), hboth⟩
        · exact ⟨.inr (.inr ⟨rfl, rfl⟩), shareBoundary_comm.mp hboth⟩
      · rintro ⟨hdone | ⟨rfl, rfl⟩ | ⟨rfl, rfl⟩, hij⟩
        · exact .inl (.inl ⟨hdone, hij⟩)
        · exact .inl (.inr ⟨rfl, rfl⟩)
        · exact .inr ⟨rfl, rfl⟩
  · next hfalse =>
      obtain rfl := Option.some.inj hstep
      refine ⟨h.length, fun i j => ?_⟩
      rw [h.mem, hpairs]
      constructor
      · rintro ⟨hdone, hij⟩
        exact ⟨.inl hdone, hij⟩
      · rintro ⟨hdone | ⟨rfl, rfl⟩ | ⟨rfl, rfl⟩, hij⟩
        · exact ⟨hdone, hij⟩
        · exact absurd (hshare.mpr hij) hfalse
        · exact absurd (hshare.mpr (shareBoundary_comm.mp hij)) hfalse

/-- **The neighbour sets are those of the graph.** -/
theorem contactNeighbors_spec {polygons : List CanonicalPlacedPolygon}
    {sets : List (Finset ℕ)} (h : contactNeighbors F polygons = some sets) (i j : ℕ) :
    j ∈ sets.getD i ∅ ↔ (contactGraph polygons).Adj i j := by
  have hempty : Joined polygons [] (List.replicate polygons.length ∅) := by
    refine ⟨List.length_replicate, fun i j => ?_⟩
    rw [List.getD_eq_getElem?_getD, List.getElem?_replicate]
    split <;> simp
  have hjoined := option_foldlM_eq_some (P := Joined polygons)
    (fun done pair hpair sets sets' hsets hstep => hsets.step F hpair hstep) hempty h
  rw [List.nil_append] at hjoined
  rw [hjoined.mem, mem_indexPairs, mem_indexPairs]
  unfold contactGraph
  dsimp only
  constructor
  · rintro ⟨hpair, hshare⟩
    exact ⟨by omega, by omega, hshare⟩
  · rintro ⟨hne, hbounds, hshare⟩
    exact ⟨by omega, hshare⟩

end Neighbors

/-! ## §2  The search -/

/-- Every set is listed in some order. -/
def ListNeighbors (neighbors : List (List ℕ)) (sets : List (Finset ℕ)) : Prop :=
  List.Forall₂ (fun neighborSet set => ∀ a, a ∈ neighborSet ↔ a ∈ set) neighbors sets

theorem ListNeighbors.mem_iff {neighbors : List (List ℕ)} {sets : List (Finset ℕ)}
    (h : ListNeighbors neighbors sets) : ∀ i j, j ∈ neighbors.getD i [] ↔ j ∈ sets.getD i ∅ := by
  induction h with
  | nil => simp
  | cons hset _ ih =>
      intro i j
      cases i with
      | zero => exact hset j
      | succ i => exact ih i j

/-- The identity of the polygon at an index. -/
def idAt (polygons : List CanonicalPlacedPolygon) (index : ℕ) : PieceId :=
  (polygons[index]?.map CanonicalPlacedPolygon.pieceId).getD ""

theorem sortIds_eq_of_perm {component component' : List PieceId} (h : component.Perm component') :
    sortIds component = sortIds component' :=
  Comparator.sort_eq_of_perm h fun _ _ _ _ heq => eq_of_cmpJsCodeUnits heq

theorem map_sortIds_eq {found found' : List (List PieceId)}
    (h : List.Forall₂ List.Perm found found') : found.map sortIds = found'.map sortIds := by
  induction h with
  | nil => rfl
  | cons hperm _ ih => rw [List.map_cons, List.map_cons, sortIds_eq_of_perm hperm, ih]

/-- The connected components, as lists of indices. -/
def IsComponentsOf (polygons : List CanonicalPlacedPolygon) (parts : List (List ℕ)) : Prop :=
  parts.flatten.Perm (List.range polygons.length) ∧
    ∀ part ∈ parts, part ≠ [] ∧
      ∀ i ∈ part, ∀ j, j ∈ part ↔ (contactGraph polygons).Reachable i j

/-- Lists of the neighbours of a layout. -/
def IsContactLists (polygons : List CanonicalPlacedPolygon) (neighbors : List (List ℕ)) : Prop :=
  ∀ i j, j ∈ neighbors.getD i [] ↔ (contactGraph polygons).Adj i j

section Search

variable {polygons : List CanonicalPlacedPolygon} {neighbors : List (List ℕ)}

theorem IsContactLists.mem_range (h : IsContactLists polygons neighbors) :
    ∀ a ∈ List.range polygons.length, ∀ b ∈ neighbors.getD a [], b ∈ List.range polygons.length :=
  fun a _ b hb => List.mem_range.mpr ((h a b).mp hb).2.1.2

theorem IsContactLists.symm (h : IsContactLists polygons neighbors) :
    ∀ a ∈ List.range polygons.length, ∀ b ∈ neighbors.getD a [], a ∈ neighbors.getD b [] :=
  fun a _ b hb => (h b a).mpr ((h a b).mp hb).symm

theorem label_eq : ∀ a ∈ List.range polygons.length,
    polygons[a]?.map CanonicalPlacedPolygon.pieceId = some (idAt polygons a) := by
  intro a ha
  unfold idAt
  rw [List.getElem?_eq_getElem (List.mem_range.mp ha)]
  rfl

theorem IsContactLists.reaches_iff (h : IsContactLists polygons neighbors) (i j : ℕ) :
    GraphSearch.Reaches (fun current => neighbors.getD current []) i j ↔
      (contactGraph polygons).Reachable i j := by
  rw [SimpleGraph.reachable_iff_reflTransGen]
  unfold GraphSearch.Reaches
  simp only [h _ _]

/-- **The search finds the connected components.** -/
theorem searchComponents_spec (h : IsContactLists polygons neighbors) :
    ∃ parts, IsComponentsOf polygons parts ∧
      searchComponents polygons neighbors =
        some (parts.map fun part => sortIds (part.map (idAt polygons))) := by
  have hfuel : (List.range polygons.length).length ≤ polygons.length := by rw [List.length_range]
  obtain ⟨parts, hfound, hperm, hparts⟩ := GraphSearch.components_parts h.mem_range label_eq h.symm
    hfuel List.nodup_range
  refine ⟨parts, ⟨hperm, fun part hpart => ⟨(hparts part hpart).1, fun i hi j => ?_⟩⟩, ?_⟩
  · rw [(hparts part hpart).2 i hi j, h.reaches_iff]
  · unfold searchComponents
    rw [hfound, Option.map_some, List.map_map]
    rfl

/-- **The order of the neighbours does not matter.** -/
theorem searchComponents_congr {neighbors' : List (List ℕ)}
    (h : IsContactLists polygons neighbors) (h' : IsContactLists polygons neighbors') :
    searchComponents polygons neighbors = searchComponents polygons neighbors' := by
  have hfuel : (List.range polygons.length).length ≤ polygons.length := by rw [List.length_range]
  have hmem : ∀ a b, b ∈ neighbors.getD a [] ↔ b ∈ neighbors'.getD a [] :=
    fun a b => (h a b).trans (h' a b).symm
  obtain ⟨found, found', hfound, hfound', hperm⟩ := GraphSearch.components_congr hmem
    h.mem_range label_eq h.symm hfuel (List.Subset.refl _)
  unfold searchComponents
  rw [hfound, hfound', Option.map_some, Option.map_some, map_sortIds_eq hperm]

/-- **What `contact_components` returns**: the components in some order. -/
theorem contactComponents_spec (h : IsContactLists polygons neighbors)
    {components : List (List PieceId)}
    (hcomponents : contactComponents polygons neighbors = some components) :
    ∃ parts, IsComponentsOf polygons parts ∧
      components.Perm (parts.map fun part => sortIds (part.map (idAt polygons))) := by
  obtain ⟨parts, hparts, hsearch⟩ := searchComponents_spec h
  refine ⟨parts, hparts, ?_⟩
  unfold contactComponents at hcomponents
  rw [hsearch, Option.bind_eq_bind, Option.bind_some] at hcomponents
  obtain ⟨areaEntries, -, hsorted⟩ := Option.bind_eq_some_iff.mp hcomponents
  rw [← Option.some.inj hsorted]
  exact List.mergeSort_perm _ _

/-- It returns components once every area is a number. -/
theorem contactComponents_isSome (h : IsContactLists polygons neighbors)
    (hareas : ∀ polygon ∈ polygons, (checkedAbsoluteDoubledArea polygon.path).isSome = true) :
    (contactComponents polygons neighbors).isSome = true := by
  obtain ⟨parts, -, hsearch⟩ := searchComponents_spec h
  have hentries : (polygons.mapM fun polygon =>
      (checkedAbsoluteDoubledArea polygon.path).map fun area => (polygon.pieceId, area)) =
      some (polygons.map fun polygon =>
        (polygon.pieceId, (checkedAbsoluteDoubledArea polygon.path).getD 0)) := by
    refine option_mapM_some fun polygon hpolygon => ?_
    obtain ⟨area, harea⟩ := Option.isSome_iff_exists.mp (hareas polygon hpolygon)
    rw [harea]
    rfl
  unfold contactComponents
  rw [hsearch, hentries]
  rfl

theorem contactComponents_congr {neighbors' : List (List ℕ)}
    (h : IsContactLists polygons neighbors) (h' : IsContactLists polygons neighbors') :
    contactComponents polygons neighbors = contactComponents polygons neighbors' := by
  unfold contactComponents
  rw [searchComponents_congr h h']

end Search

/-! ## §3  Boundary contact -/

theorem isMeasurable_iff (first second : CanonicalGridPath) :
    IsMeasurable first second ↔ IsGridRing first ∧ IsGridRing second ∧
      ∀ s ∈ sides first, ∀ t ∈ sides second, 0 < commonExtent s t → ¬IsSlanted s := by
  unfold IsMeasurable HasSlantedOverlap
  refine and_congr_right fun hfirst => and_congr_right fun _ => ?_
  push Not
  refine forall₂_congr fun s hs => forall₂_congr fun t _ => ?_
  rw [← overlapUnits_eq (hfirst.proper s hs), Int.cast_pos]

theorem measure_eq_unchecked (first second : CanonicalGridPath) :
    measureCanonicalGridBoundaryOverlapAxisUnits first second none =
      some (uncheckedResult first second) := by
  refine (measureCanonicalGridBoundaryOverlapAxisUnits_eq first second none).resolve_right ?_
  rintro ⟨-, callback, hcallback, -⟩
  cases hcallback

/-- **Boundary contact**: the units do not depend on the order of the rings nor on where
they start, a checkpoint only ends the measurement, and the units are the sum of the lengths
of the common parts of sides along an axis, whichever way these face; between convex rings
of one direction with insides that do not meet all of them face each other.  The contact
components are the connected components of the contact graph, in whatever order the
neighbours are listed. -/
theorem boundaryContact_exact (F : Type) [LinearOrder F] [Zero F] [One F] [Add F] [Sub F]
    [Neg F] [Mul F] [Div F] [JsMath F] :
    (∀ (first second : CanonicalGridPath) (checkpoint : Option (ℕ → Bool)),
      measureCanonicalGridBoundaryOverlapAxisUnits first second checkpoint =
          measureCanonicalGridBoundaryOverlapAxisUnits first second none ∨
        measureCanonicalGridBoundaryOverlapAxisUnits first second checkpoint = some .aborted ∧
          ∃ callback ∈ checkpoint, ∃ call, callback call = false) ∧
    (∀ first second : CanonicalGridPath,
      measureCanonicalGridBoundaryOverlapAxisUnits first second none =
        measureCanonicalGridBoundaryOverlapAxisUnits second first none) ∧
    (∀ (first second : CanonicalGridPath) (k l : ℕ),
      measureCanonicalGridBoundaryOverlapAxisUnits (first.rotate k) (second.rotate l) none =
        measureCanonicalGridBoundaryOverlapAxisUnits first second none) ∧
    (∀ (first second : CanonicalGridPath) (units : ℤ),
      measureCanonicalGridBoundaryOverlapAxisUnits first second none = some (.measured units) ↔
        (IsGridRing first ∧ IsGridRing second ∧
          ∀ s ∈ sides first, ∀ t ∈ sides second, 0 < commonExtent s t → ¬IsSlanted s) ∧
        (units : ℝ) =
          ((sides first).map fun s => ((sides second).map fun t => commonExtent s t).sum).sum) ∧
    (∀ (first second : CanonicalGridPath) (w : ConvexPolygonWinding),
      IsStrictRing (realPolygon first).points w → IsStrictRing (realPolygon second).points w →
        ¬sharesGridArea first second →
          ∀ s ∈ sides first, ∀ t ∈ sides second, 0 < commonExtent s t → facing s t < 0) ∧
    ∀ (polygons : List CanonicalPlacedPolygon) (sets : List (Finset ℕ))
      (neighbors : List (List ℕ)),
      contactNeighbors F polygons = some sets → ListNeighbors neighbors sets →
        (∀ neighbors', ListNeighbors neighbors' sets →
          contactComponents polygons neighbors' = contactComponents polygons neighbors) ∧
        (∀ components, contactComponents polygons neighbors = some components →
          ∃ parts, IsComponentsOf polygons parts ∧
            components.Perm (parts.map fun part => sortIds (part.map (idAt polygons)))) ∧
        ((∀ polygon ∈ polygons, (checkedAbsoluteDoubledArea polygon.path).isSome = true) →
          (contactComponents polygons neighbors).isSome = true) := by
  refine ⟨fun first second checkpoint => ?_, fun first second => ?_,
    fun first second k l => ?_, fun first second units => ?_,
    fun first second w hfirst hsecond happart s hs t ht hlong => ?_,
    fun polygons sets neighbors hsets hneighbors => ?_⟩
  · rw [measure_eq_unchecked]
    exact measureCanonicalGridBoundaryOverlapAxisUnits_eq first second checkpoint
  · rw [measure_eq_unchecked, measure_eq_unchecked, uncheckedResult_comm]
  · rw [measure_eq_unchecked, measure_eq_unchecked, uncheckedResult_rotate]
  · rw [measure_eq_unchecked, Option.some.injEq, uncheckedResult_eq_measured_iff,
      isMeasurable_iff]
    refine and_congr_right fun hmeasurable => ?_
    rw [← score_eq_sum_commonExtent hmeasurable.1, Int.cast_inj, eq_comm]
  · exact facing_neg hfirst hsecond happart hs ht hlong
  · have hlists : ∀ {neighbors : List (List ℕ)}, ListNeighbors neighbors sets →
        IsContactLists polygons neighbors := fun h i j =>
      (h.mem_iff i j).trans (contactNeighbors_spec F hsets i j)
    exact ⟨fun neighbors' h' => contactComponents_congr (hlists h') (hlists hneighbors),
      fun components h => contactComponents_spec (hlists hneighbors) h,
      contactComponents_isSome (hlists hneighbors)⟩

/-- A square of two units. -/
def gridSquare : CanonicalGridPath := [⟨0, 0⟩, ⟨2, 0⟩, ⟨2, 2⟩, ⟨0, 2⟩]

/-- **Sides that face the same way count**: the units of a square and itself are its whole
boundary, of which nothing faces the other way. -/
theorem boundaryContact_same_way :
    ¬∀ (first second : CanonicalGridPath) (units : ℤ),
      measureCanonicalGridBoundaryOverlapAxisUnits first second none = some (.measured units) →
        (units : ℝ) = ((sides first).map fun s => ((sides second).map fun t =>
          if facing s t < 0 then commonExtent s t else 0).sum).sum := by
  intro h
  have hring : IsGridRing gridSquare := ⟨by decide, by decide, by decide⟩
  have hmeasurable : IsMeasurable gridSquare gridSquare := by
    refine ⟨hring, hring, ?_⟩
    unfold HasSlantedOverlap IsSlanted
    decide
  have hscore : score gridSquare gridSquare = 8 := by decide
  have height := h gridSquare gridSquare 8 (by
    rw [measure_eq_unchecked, (uncheckedResult_eq_measured_iff _ _ 8).mpr ⟨hmeasurable, hscore⟩])
  have hzero : ∀ s ∈ sides gridSquare, ∀ t ∈ sides gridSquare,
      (if facing s t < 0 then commonExtent s t else 0) = 0 := by
    intro s hs t ht
    have hnothing : ∀ s ∈ sides gridSquare, ∀ t ∈ sides gridSquare, facing s t < 0 →
        overlapUnits s t = 0 := by decide
    split
    · next hfacing =>
        rw [← overlapUnits_eq (hring.proper s hs), hnothing s hs t ht hfacing, Int.cast_zero]
    · rfl
  rw [List.map_congr_left fun s hs => congrArg List.sum
    (List.map_congr_left fun t ht => hzero s hs t ht)] at height
  norm_num at height

end PolygonNesting
