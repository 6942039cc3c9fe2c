import Mathlib.Algebra.BigOperators.Group.List.Lemmas
import Mathlib.Algebra.FreeMonoid.Basic
import PolygonNesting.Geometry.FreeMaterialRegions
import PolygonNesting.Lib.StableSort

set_option linter.unusedSectionVars false

/-!
# Snapshots of reordered trees

The order of the regions and the start of each ring depend on the traversal exactly where a
ring goes on differently from its repeats of the lowest vertex, or where regions with one
boundary come in another order.
-/

namespace PolygonNesting.FreeMaterial

open Binary64 CyclicStart Caches

/-! ## §1  Other orders of a tree -/

/-- The same nested contours, with the trees of each level in any order and the contours from
any start. -/
inductive Reordered : List PolyTree → List PolyTree → Prop
  | nil : Reordered [] []
  | cons {forest rest rest' children children' : List PolyTree}
      {polygon polygon' : Option CanonicalGridPath}
      (first : forest.Perm (.node polygon children :: rest))
      (start : Option.Rel List.IsRotated polygon polygon')
      (inside : Reordered children children') (later : Reordered rest rest') :
      Reordered forest (.node polygon' children' :: rest')

theorem rel_refl (contour : Option CanonicalGridPath) :
    Option.Rel List.IsRotated contour contour := by
  cases contour with
  | none => exact .none
  | some path => exact .some (.refl path)

theorem Reordered.refl (forest : List PolyTree) : Reordered forest forest := by
  induction forest using forest_induction with
  | nil => exact .nil
  | cons polygon children rest ihChildren ihRest =>
      exact .cons (.refl _) (rel_refl polygon) ihChildren ihRest

theorem Reordered.of_perm {forest forest' : List PolyTree} (h : forest.Perm forest') :
    Reordered forest forest' := by
  cases forest' with
  | nil =>
      rw [List.perm_nil.1 h]
      exact .nil
  | cons first rest =>
      cases first with
      | node polygon children =>
          exact .cons h (rel_refl polygon) (.refl children) (.refl rest)

theorem contours_cons (first : PolyTree) (rest : List PolyTree) :
    contours (first :: rest) = contours [first] ++ contours rest := by
  cases first with
  | node polygon children =>
      rw [contours, contours, contours, List.append_nil, List.cons_append]

theorem contours_perm {forest forest' : List PolyTree} (h : forest.Perm forest') :
    (contours forest).Perm (contours forest') := by
  induction h with
  | nil => exact .refl _
  | @cons first rest rest' _ ih =>
      rw [contours_cons first rest, contours_cons first rest']
      exact ih.append_left _
  | swap first second rest =>
      rw [contours_cons second (first :: rest), contours_cons first rest,
        contours_cons first (second :: rest), contours_cons second rest]
      exact List.perm_append_comm_assoc _ _ _
  | trans _ _ ih ih' => exact ih.trans ih'

theorem forall_contours_iff {forest children rest : List PolyTree}
    {polygon : Option CanonicalGridPath} (first : forest.Perm (.node polygon children :: rest))
    {P : Option CanonicalGridPath → Prop} :
    (∀ contour ∈ contours forest, P contour) ↔ P polygon ∧
      (∀ contour ∈ contours children, P contour) ∧ ∀ contour ∈ contours rest, P contour := by
  have hmem : ∀ {contour}, contour ∈ contours forest ↔ _ := (contours_perm first).mem_iff
  simp only [hmem]
  rw [contours, List.forall_mem_cons, List.forall_mem_append]

/-- The contours of the other order, one for each. -/
theorem Reordered.exists_contours {forest forest' : List PolyTree} (h : Reordered forest forest') :
    ∃ mid, (contours forest).Perm mid ∧
      List.Forall₂ (Option.Rel List.IsRotated) mid (contours forest') := by
  induction h with
  | nil => exact ⟨_, .refl _, by rw [contours]; exact .nil⟩
  | cons first start _ _ ihInside ihLater =>
      obtain ⟨below, hbelow, hinside⟩ := ihInside
      obtain ⟨after, hafter, hlater⟩ := ihLater
      have hperm := contours_perm first
      rw [contours] at hperm
      rw [contours]
      exact ⟨_, hperm.trans ((hbelow.append hafter).cons _),
        .cons start (List.rel_append hinside hlater)⟩

variable {F : Type} [LinearOrder F] [Zero F] [One F] [Add F] [Sub F] [Neg F] [Mul F] [Div F]
  [JsMath F]

/-! ## §2  Settled contours -/

variable (F) in
/-- Accepted from every start, and always read from the same one. -/
def SettledContour (contour : Option CanonicalGridPath) : Prop :=
  ∃ path, contour = some path ∧ (∀ path', path ~r path' → Accepted path') ∧
    StartsAlike comparePoints (ringOf (F := F) path)

theorem ringOf_isRotated {path path' : CanonicalGridPath} (h : path ~r path') :
    ringOf (F := F) path ~r ringOf path' :=
  (stripDuplicates_isRotated h).map pointFromGrid

/-- **A contour is read alike from every start exactly where it starts alike.** -/
theorem startsAlike_ringOf_iff {path : CanonicalGridPath} :
    StartsAlike comparePoints (ringOf (F := F) path) ↔
      ∀ path', path ~r path' → polygonOf (F := F) (some path') = polygonOf (some path) := by
  have htrans := transCmp_comparePoints (F := F)
  rw [startsAlike_iff]
  constructor
  · intro h path' hpath
    exact congrArg IrregularPolygon.mk (h _ (ringOf_isRotated hpath))
  · intro h l hl
    obtain ⟨n, rfl⟩ := hl
    obtain ⟨path', hpath, hstrip⟩ : ∃ path', path ~r path' ∧
        stripDuplicates path' true = (stripDuplicates path true).rotate n :=
      exists_stripDuplicates_eq ⟨n, rfl⟩
    have hring : ringOf (F := F) path' = (ringOf path).rotate n := by
      unfold ringOf normalizeClipperOutputPath
      rw [hstrip, List.map_rotate]
    rw [← hring]
    exact congrArg IrregularPolygon.points (h path' hpath)

theorem SettledContour.polygonOf_eq {contour contour' : Option CanonicalGridPath}
    (h : SettledContour F contour) (hrel : Option.Rel List.IsRotated contour contour') :
    polygonOf (F := F) contour' = polygonOf contour := by
  obtain ⟨path, rfl, -, halike⟩ := h
  cases hrel with
  | some hpath => exact startsAlike_ringOf_iff.1 halike _ hpath

/-! ## §3  Regions with one boundary -/

/-- The regions of a forest with a boundary, in the order of the traversal, their holes
sorted. -/
def regionsWith (boundary : IrregularPolygon F) (level : ℕ) (forest : List PolyTree) :
    List (FreeMaterialRegion F) :=
  ((materialRegions level forest).map sortHoles).filter fun region =>
    region.boundary = boundary

theorem regionsWith_nil (boundary : IrregularPolygon F) (level : ℕ) :
    regionsWith boundary level [] = [] := by
  unfold regionsWith materialRegions
  rw [outerNodes]
  rfl

/-- The region of a node, when it is an outer one with the boundary. -/
def ownRegionWith (boundary : IrregularPolygon F) (level : ℕ) (node : PolyTree) :
    List (FreeMaterialRegion F) :=
  (((outerNode level node).map regionOf).map sortHoles).filter fun region =>
    region.boundary = boundary

theorem regionsWith_node (boundary : IrregularPolygon F) (level : ℕ)
    (polygon : Option CanonicalGridPath) (children rest : List PolyTree) :
    regionsWith boundary level (.node polygon children :: rest) =
      ownRegionWith boundary level (.node polygon children) ++
        (regionsWith boundary (level + 1) children ++ regionsWith boundary level rest) := by
  unfold regionsWith ownRegionWith materialRegions
  rw [outerNodes]
  simp only [List.map_append, List.filter_append]

theorem regionsWith_cons (boundary : IrregularPolygon F) (level : ℕ) (first : PolyTree)
    (rest : List PolyTree) :
    regionsWith boundary level (first :: rest) =
      regionsWith boundary level [first] ++ regionsWith boundary level rest := by
  cases first with
  | node polygon children =>
      rw [regionsWith_node, regionsWith_node, regionsWith_nil, List.append_nil,
        List.append_assoc]

theorem regionsWith_two (boundary : IrregularPolygon F) (level : ℕ) (first second : PolyTree)
    (rest : List PolyTree) :
    regionsWith boundary level (first :: second :: rest) =
      regionsWith boundary level [first] ++ regionsWith boundary level [second] ++
        regionsWith boundary level rest := by
  rw [regionsWith_cons, regionsWith_cons boundary level second rest, List.append_assoc]

variable (F) in
/-- Two trees next to each other give the regions of each boundary in the same order, whichever
of them comes first. -/
def Exchange (level : ℕ) (first second : PolyTree) : Prop :=
  ∀ boundary : IrregularPolygon F,
    regionsWith boundary level [first] ++ regionsWith boundary level [second] =
      regionsWith boundary level [second] ++ regionsWith boundary level [first]

variable (F) in
/-- So do any two trees of the forest that are inside the same contour. -/
def Exchangeable : ℕ → List PolyTree → Prop
  | _, [] => True
  | level, .node polygon children :: rest =>
      (∀ other ∈ rest, Exchange F level (.node polygon children) other) ∧
        Exchangeable (level + 1) children ∧ Exchangeable level rest

theorem exchangeable_iff (level : ℕ) (forest : List PolyTree) :
    Exchangeable F level forest ↔ forest.Pairwise (Exchange F level) ∧
      ∀ tree ∈ forest, Exchangeable F (level + 1) tree.children := by
  induction forest with
  | nil => simp [Exchangeable]
  | cons first rest ih =>
      cases first with
      | node polygon children =>
          rw [Exchangeable, ih, List.pairwise_cons, List.forall_mem_cons]
          simp only [PolyTree.children]
          tauto

theorem Exchangeable.perm {level : ℕ} {forest forest' : List PolyTree}
    (h : Exchangeable F level forest) (hperm : forest.Perm forest') :
    Exchangeable F level forest' := by
  rw [exchangeable_iff] at h ⊢
  refine ⟨(hperm.pairwise_iff fun hexchange boundary => ?_).1 h.1, fun tree htree =>
    h.2 tree (hperm.mem_iff.2 htree)⟩
  exact (hexchange boundary).symm

/-- As a product of words, which may be taken in any order where they commute. -/
theorem ofList_regionsWith (boundary : IrregularPolygon F) (level : ℕ) (forest : List PolyTree) :
    FreeMonoid.ofList (regionsWith boundary level forest) =
      (forest.map fun tree => FreeMonoid.ofList (regionsWith boundary level [tree])).prod := by
  induction forest with
  | nil =>
      rw [regionsWith_nil]
      rfl
  | cons first rest ih =>
      rw [regionsWith_cons, FreeMonoid.ofList_append, ih, List.map_cons, List.prod_cons]

theorem regionsWith_perm {level : ℕ} {forest forest' : List PolyTree}
    (h : Exchangeable F level forest) (hperm : forest.Perm forest')
    (boundary : IrregularPolygon F) :
    regionsWith boundary level forest = regionsWith boundary level forest' := by
  have hwords : (forest.map fun tree =>
      FreeMonoid.ofList (regionsWith boundary level [tree])).Pairwise Commute :=
    List.pairwise_map.2 (((exchangeable_iff level forest).1 h).1.imp fun hexchange =>
      hexchange boundary)
  have hprod := (hperm.map fun tree =>
    FreeMonoid.ofList (regionsWith boundary level [tree])).prod_eq' hwords
  rw [← ofList_regionsWith, ← ofList_regionsWith] at hprod
  exact FreeMonoid.ofList.injective hprod

theorem holes_perm {forest forest' : List PolyTree} (h : Reordered forest forest')
    (hsettled : ∀ contour ∈ contours forest, SettledContour F contour) :
    (forest.map fun hole => polygonOf (F := F) hole.polygon).Perm
      (forest'.map fun hole => polygonOf hole.polygon) := by
  induction h with
  | nil => exact .nil
  | cons first start _ _ _ ihLater =>
      obtain ⟨hpolygon, -, hrest⟩ := (forall_contours_iff first).1 hsettled
      refine (first.map _).trans ?_
      rw [List.map_cons, List.map_cons, PolyTree.polygon, PolyTree.polygon,
        hpolygon.polygonOf_eq start]
      exact (ihLater hrest).cons _

section Words

variable (numbers : KeyNumberText F)

include numbers

theorem sortHoles_regionOf_eq {polygon polygon' : Option CanonicalGridPath}
    {children children' : List PolyTree} (hpolygon : SettledContour F polygon)
    (hchildren : ∀ contour ∈ contours children, SettledContour F contour)
    (start : Option.Rel List.IsRotated polygon polygon') (inside : Reordered children children') :
    sortHoles (F := F) (regionOf (.node polygon' children')) =
      sortHoles (regionOf (.node polygon children)) := by
  have htrans := transCmp_comparePolygons (F := F)
  unfold sortHoles regionOf
  simp only [PolyTree.polygon, PolyTree.children, FreeMaterialRegion.mk.injEq]
  exact ⟨hpolygon.polygonOf_eq start, (Comparator.sort_eq_of_perm (holes_perm inside hchildren)
    fun _ _ _ _ => (comparePolygons_eq_iff numbers).1).symm⟩

theorem ownRegionWith_eq {polygon polygon' : Option CanonicalGridPath}
    {children children' : List PolyTree} (hpolygon : SettledContour F polygon)
    (hchildren : ∀ contour ∈ contours children, SettledContour F contour)
    (start : Option.Rel List.IsRotated polygon polygon') (inside : Reordered children children')
    (boundary : IrregularPolygon F) (level : ℕ) :
    ownRegionWith boundary level (.node polygon' children') =
      ownRegionWith boundary level (.node polygon children) := by
  unfold ownRegionWith outerNode
  split
  · rfl
  · simp only [List.map_cons, List.map_nil,
      sortHoles_regionOf_eq numbers hpolygon hchildren start inside]

/-- **Where contours are settled and trees exchange, every order gives the same regions.** -/
theorem regionsWith_reordered {forest forest' : List PolyTree} (h : Reordered forest forest') :
    ∀ {level : ℕ}, (∀ contour ∈ contours forest, SettledContour F contour) →
      Exchangeable F level forest → ∀ boundary : IrregularPolygon F,
        regionsWith boundary level forest' = regionsWith boundary level forest := by
  induction h with
  | nil => exact fun _ _ _ => rfl
  | cons first start inside _ ihInside ihLater =>
      intro level hsettled hexchange boundary
      obtain ⟨hpolygon, hchildren, hrest⟩ := (forall_contours_iff first).1 hsettled
      have hmid := hexchange.perm first
      rw [Exchangeable] at hmid
      rw [regionsWith_perm hexchange first boundary, regionsWith_node, regionsWith_node,
        ihInside hchildren hmid.2.1 boundary, ihLater hrest hmid.2.2 boundary,
        ownRegionWith_eq numbers hpolygon hchildren start inside]

/-- Trees whose order does not matter exchange. -/
theorem exchangeable_of_invariant (forest : List PolyTree) :
    ∀ {level : ℕ}, (∀ contour ∈ contours forest, SettledContour F contour) →
      (∀ forest', Reordered forest forest' → ∀ boundary : IrregularPolygon F,
        regionsWith boundary level forest' = regionsWith boundary level forest) →
      Exchangeable F level forest := by
  induction forest using forest_induction with
  | nil =>
      intro level _ _
      rw [Exchangeable]
      trivial
  | cons polygon children rest ihChildren ihRest =>
      intro level hsettled hinvariant
      obtain ⟨hpolygon, hchildren, hrest⟩ := (forall_contours_iff (.refl _)).1 hsettled
      rw [Exchangeable]
      refine ⟨fun other hother boundary => ?_, ihChildren hchildren fun forest' hforest boundary => ?_,
        ihRest hrest fun forest' hforest boundary => ?_⟩
      · obtain ⟨before, after, rfl⟩ := List.append_of_mem hother
        have hfirst := hinvariant (.node polygon children :: other :: (before ++ after))
          (.of_perm (List.Perm.cons _ List.perm_middle)) boundary
        have hsecond := hinvariant (other :: .node polygon children :: (before ++ after))
          (.of_perm ((List.Perm.cons _ List.perm_middle).trans (.swap _ _ _))) boundary
        rw [← hsecond, regionsWith_two, regionsWith_two] at hfirst
        exact List.append_cancel_right hfirst
      · have h := hinvariant _ (.cons (.refl _) (rel_refl polygon) hforest (.refl rest)) boundary
        rw [regionsWith_node, regionsWith_node,
          ownRegionWith_eq numbers hpolygon hchildren (rel_refl polygon) hforest] at h
        exact List.append_cancel_right (List.append_cancel_left h)
      · have h := hinvariant _ (.cons (.refl _) (rel_refl polygon) (.refl children) hforest) boundary
        rw [regionsWith_node, regionsWith_node] at h
        exact List.append_cancel_left (List.append_cancel_left h)

end Words

/-! ## §4  Snapshots -/

/-- The boundary and the holes. -/
def polygons (region : FreeMaterialRegion F) : List (IrregularPolygon F) :=
  region.boundary :: region.holes

theorem polygons_sortHoles_perm (region : FreeMaterialRegion F) :
    (polygons (sortHoles region)).Perm (polygons region) :=
  (List.mergeSort_perm region.holes _).cons _

theorem flatMap_polygons_materialRegions (level : ℕ) (forest : List PolyTree) :
    (materialRegions (F := F) level forest).flatMap polygons =
      (regionContours level forest).map polygonOf := by
  unfold materialRegions regionContours
  rw [List.flatMap_map, List.map_flatMap]
  refine List.flatMap_congr fun node _ => ?_
  unfold polygons ownContours regionOf
  rw [List.map_cons, List.map_map]
  rfl

/-- A sort of the regions with their holes sorted. -/
theorem orderRegions_eq (regions : List (FreeMaterialRegion F)) :
    orderRegions regions = (regions.map sortHoles).mergeSort fun first second =>
      compareRegions first second != .gt :=
  List.map_mergeSort fun _ _ _ _ => rfl

theorem orderRegions_perm (regions : List (FreeMaterialRegion F)) :
    (orderRegions regions).Perm (regions.map sortHoles) := by
  rw [orderRegions_eq]
  exact List.mergeSort_perm _ _

/-- The contours of a forest of outer trees can be seen in the ordered regions. -/
theorem flatMap_polygons_orderRegions (forest : List PolyTree) :
    ((orderRegions (materialRegions (F := F) 1 forest)).flatMap polygons).Perm
      ((contours forest).map polygonOf) := by
  refine ((orderRegions_perm _).flatMap_right _).trans ?_
  rw [List.flatMap_map]
  refine (List.Perm.flatMap_left _ fun region _ => polygons_sortHoles_perm region).trans ?_
  rw [flatMap_polygons_materialRegions]
  exact ((regionContours_perm forest 0).1 rfl).map _

theorem orderRegions_eq_iff (numbers : KeyNumberText F) (forest forest' : List PolyTree) :
    orderRegions (materialRegions (F := F) 1 forest) = orderRegions (materialRegions 1 forest') ↔
      ∀ boundary : IrregularPolygon F,
        regionsWith boundary 1 forest = regionsWith boundary 1 forest' := by
  have htrans := transCmp_compareRegions (F := F)
  have hties : ∀ (region : FreeMaterialRegion F) (forest : List PolyTree),
      Comparator.ties compareRegions region ((materialRegions 1 forest).map sortHoles) =
        regionsWith region.boundary 1 forest := by
    intro region forest
    unfold Comparator.ties regionsWith
    refine List.filter_congr fun other _ => ?_
    unfold compareRegions
    rw [Bool.eq_iff_iff, beq_iff_eq, comparePolygons_eq_iff numbers, decide_eq_true_iff, eq_comm]
  rw [orderRegions_eq, orderRegions_eq, Comparator.mergeSort_eq_iff]
  constructor
  · intro h boundary
    rw [← hties ⟨boundary, []⟩, ← hties ⟨boundary, []⟩, h]
  · intro h region
    rw [hties, hties, h]

theorem snapshotFromTree_ok_iff {sheet : SheetSpec F} {tree : PolyTree} {operation : String}
    {snapshot : FreeMaterialSnapshot F} :
    snapshotFromTree sheet tree operation = .ok snapshot ↔
      (∀ contour ∈ contours tree.children, AcceptedContour contour) ∧
        snapshot = ⟨sheet, orderRegions (materialRegions 1 tree.children), []⟩ := by
  unfold snapshotFromTree
  rcases hregions : regionsFromTree (F := F) tree with error | regions
  · have hrejected : ¬ ∀ contour ∈ contours tree.children, AcceptedContour contour := by
      intro hall
      have hok : regionsFromTree (F := F) tree = .ok _ := regionsFromTree_ok_iff.2 ⟨hall, rfl⟩
      rw [hregions] at hok
      cases hok
    simp [hrejected, Except.mapError, bind, Except.bind]
  · obtain ⟨hall, rfl⟩ := regionsFromTree_ok_iff.1 hregions
    constructor
    · intro h
      exact ⟨hall, (Except.ok.inj h).symm⟩
    · rintro ⟨-, rfl⟩
      rfl

/-! ## §5  When every order gives the same snapshot -/

/-- The contour is accepted from no start. -/
def RejectedContour (contour : Option CanonicalGridPath) : Prop :=
  ∀ path, Option.Rel List.IsRotated contour (some path) → ¬ Accepted path

theorem SettledContour.accepted {contour contour' : Option CanonicalGridPath}
    (h : SettledContour F contour) (hrel : Option.Rel List.IsRotated contour contour') :
    AcceptedContour contour' := by
  obtain ⟨path, rfl, haccepted, -⟩ := h
  cases hrel with
  | some hpath => exact ⟨_, rfl, haccepted _ hpath⟩

theorem not_accepted_of_rejected {forest forest' : List PolyTree} (h : Reordered forest forest')
    {contour : Option CanonicalGridPath} (hmem : contour ∈ contours forest)
    (hrejected : RejectedContour contour) :
    ¬ ∀ contour' ∈ contours forest', AcceptedContour contour' := by
  intro hall
  obtain ⟨mid, hperm, hrel⟩ := h.exists_contours
  obtain ⟨contour', hcontour', hstart⟩ := forall₂_exists hrel contour (hperm.mem_iff.1 hmem)
  obtain ⟨path, rfl, haccepted⟩ := hall contour' hcontour'
  exact hrejected path hstart haccepted

theorem accepted_of_settled {forest forest' : List PolyTree} (h : Reordered forest forest')
    (hsettled : ∀ contour ∈ contours forest, SettledContour F contour) :
    ∀ contour' ∈ contours forest', AcceptedContour contour' := by
  intro contour' hcontour'
  obtain ⟨mid, hperm, hrel⟩ := h.exists_contours
  obtain ⟨contour, hcontour, hstart⟩ := forall₂_exists hrel.flip contour' hcontour'
  exact (hsettled contour (hperm.mem_iff.2 hcontour)).accepted hstart

/-- Starts can be chosen so that every contour is accepted. -/
theorem exists_accepted (forest : List PolyTree) :
    (∀ contour ∈ contours forest, ¬ RejectedContour contour) →
      ∃ forest', Reordered forest forest' ∧
        ∀ contour ∈ contours forest', AcceptedContour contour := by
  induction forest using forest_induction with
  | nil => exact fun _ => ⟨[], .nil, by rw [contours]; simp⟩
  | cons polygon children rest ihChildren ihRest =>
      intro h
      obtain ⟨hpolygon, hchildren, hrest⟩ := (forall_contours_iff (.refl _)).1 h
      obtain ⟨children', hinside, hchildren'⟩ := ihChildren hchildren
      obtain ⟨rest', hlater, hrest'⟩ := ihRest hrest
      obtain ⟨path, hstart, haccepted⟩ : ∃ path,
          Option.Rel List.IsRotated polygon (some path) ∧ Accepted path := by
        unfold RejectedContour at hpolygon
        push Not at hpolygon
        exact hpolygon
      exact ⟨_, .cons (.refl _) hstart hinside hlater, (forall_contours_iff (.refl _)).2
        ⟨⟨path, rfl, haccepted⟩, hchildren', hrest'⟩⟩

/-- Contours whose starts do not matter are settled. -/
theorem settled_of_invariant (forest : List PolyTree) :
    (∀ forest', Reordered forest forest' →
      (∀ contour ∈ contours forest', AcceptedContour contour) ∧
        ((contours forest').map (polygonOf (F := F))).Perm
          ((contours forest).map polygonOf)) →
      ∀ contour ∈ contours forest, SettledContour F contour := by
  induction forest using forest_induction with
  | nil => exact fun _ => by rw [contours]; simp
  | cons polygon children rest ihChildren ihRest =>
      intro h
      refine (forall_contours_iff (.refl _)).2 ⟨?_, ihChildren fun forest' hforest => ?_,
        ihRest fun forest' hforest => ?_⟩
      · obtain ⟨path, rfl, -⟩ := ((forall_contours_iff (.refl _)).1 (h _ (.refl _)).1).1
        have hother : ∀ path', path ~r path' → Accepted path' ∧
            polygonOf (F := F) (some path') = polygonOf (some path) := by
          intro path' hpath
          obtain ⟨hall, hperm⟩ := h _ (.cons (.refl _) (.some hpath) (.refl children) (.refl rest))
          obtain ⟨⟨_, hsome, haccepted⟩, -⟩ := (forall_contours_iff (.refl _)).1 hall
          obtain rfl := Option.some.inj hsome
          rw [contours, contours, List.map_cons, List.map_cons, ← Multiset.coe_eq_coe,
            ← Multiset.cons_coe, ← Multiset.cons_coe] at hperm
          exact ⟨haccepted, (Multiset.cons_inj_left _).1 hperm⟩
        exact ⟨path, rfl, fun path' hpath => (hother path' hpath).1,
          startsAlike_ringOf_iff.2 fun path' hpath => (hother path' hpath).2⟩
      · obtain ⟨hall, hperm⟩ := h _ (.cons (.refl _) (rel_refl polygon) hforest (.refl rest))
        rw [contours, contours, List.map_cons, List.map_cons, List.map_append,
          List.map_append] at hperm
        exact ⟨((forall_contours_iff (.refl _)).1 hall).2.1,
          (List.perm_append_right_iff _).1 hperm.cons_inv⟩
      · obtain ⟨hall, hperm⟩ := h _ (.cons (.refl _) (rel_refl polygon) (.refl children) hforest)
        rw [contours, contours, List.map_cons, List.map_cons, List.map_append,
          List.map_append] at hperm
        exact ⟨((forall_contours_iff (.refl _)).1 hall).2.2,
          (List.perm_append_left_iff _).1 hperm.cons_inv⟩

/-- The polygon is the ring of the contour, from a lowest and then leftmost vertex. -/
structure IsRingOf (contour : Option CanonicalGridPath) (polygon : IrregularPolygon F) : Prop where
  ring : ∃ path, contour = some path ∧ ringOf path ~r polygon.points
  least : LeastFirst comparePoints polygon.points

/-- The region has the contour of the node and those right inside it. -/
structure IsRegionOf (node : PolyTree) (region : FreeMaterialRegion F) : Prop where
  boundary : IsRingOf node.polygon region.boundary
  holes : List.Forall₂ (fun hole polygon => IsRingOf hole.polygon polygon) node.children
    region.holes

theorem isRingOf_polygonOf {contour : Option CanonicalGridPath} (h : AcceptedContour contour) :
    IsRingOf (F := F) contour (polygonOf contour) := by
  have htrans := transCmp_comparePoints (F := F)
  obtain ⟨path, rfl, -⟩ := h
  exact ⟨⟨path, rfl, fromStart_isRotated _⟩, fromStart_leastFirst _⟩

/-- What the regions of a polygon tree are to be, and their snapshot. -/
structure CanonicalRegions (sheet : SheetSpec F) (operation : String) (tree : PolyTree) :
    Prop where
  /-- One region for each outer contour, with its own holes. -/
  complete : ∀ regions : List (FreeMaterialRegion F), regionsFromTree tree = .ok regions →
    List.Forall₂ IsRegionOf (outerNodes 1 tree.children) regions ∧
      (regions.flatMap polygons).Perm ((contours tree.children).map polygonOf)
  /-- The snapshot has these regions in order. -/
  sorted : ∀ snapshot, snapshotFromTree sheet tree operation = .ok snapshot →
    ∃ regions, regionsFromTree tree = .ok regions ∧
      snapshot.regions.Perm (regions.map sortHoles) ∧
      (snapshot.regions.Pairwise fun first second =>
        (compareRegions first second).isLE = true) ∧
      ∀ region ∈ snapshot.regions, region.holes.Pairwise fun first second =>
        (comparePolygons first second).isLE = true
  /-- The snapshot does not depend on the order of children and on the starts of contours. -/
  invariant : ∀ tree' : PolyTree, Reordered tree.children tree'.children → ∀ snapshot,
    snapshotFromTree sheet tree' operation = .ok snapshot ↔
      snapshotFromTree sheet tree operation = .ok snapshot

theorem regionsFromTree_complete {tree : PolyTree} {regions : List (FreeMaterialRegion F)}
    (h : regionsFromTree tree = .ok regions) :
    List.Forall₂ IsRegionOf (outerNodes 1 tree.children) regions ∧
      (regions.flatMap polygons).Perm ((contours tree.children).map polygonOf) := by
  obtain ⟨hall, rfl⟩ := regionsFromTree_ok_iff.1 h
  have hperm := (regionContours_perm tree.children 0).1 rfl
  have hown : ∀ node ∈ outerNodes 1 tree.children, ∀ contour ∈ ownContours node,
      AcceptedContour contour := fun node hnode contour hcontour =>
    hall contour (hperm.mem_iff.1 (List.mem_flatMap.2 ⟨node, hnode, hcontour⟩))
  refine ⟨List.forall₂_map_right_iff.2 (List.forall₂_same.2 fun node hnode => ⟨?_, ?_⟩), ?_⟩
  · exact isRingOf_polygonOf (hown node hnode _ List.mem_cons_self)
  · refine List.forall₂_map_right_iff.2 (List.forall₂_same.2 fun hole hhole => ?_)
    exact isRingOf_polygonOf (hown node hnode _
      (List.mem_cons_of_mem _ (List.mem_map.2 ⟨hole, hhole, rfl⟩)))
  · rw [flatMap_polygons_materialRegions]
    exact hperm.map _

theorem snapshotFromTree_sorted {sheet : SheetSpec F} {tree : PolyTree} {operation : String}
    {snapshot : FreeMaterialSnapshot F}
    (h : snapshotFromTree sheet tree operation = .ok snapshot) :
    ∃ regions, regionsFromTree tree = .ok regions ∧
      snapshot.regions.Perm (regions.map sortHoles) ∧
      (snapshot.regions.Pairwise fun first second =>
        (compareRegions first second).isLE = true) ∧
      ∀ region ∈ snapshot.regions, region.holes.Pairwise fun first second =>
        (comparePolygons first second).isLE = true := by
  have hregions := transCmp_compareRegions (F := F)
  have hpolygons := transCmp_comparePolygons (F := F)
  obtain ⟨hall, rfl⟩ := snapshotFromTree_ok_iff.1 h
  refine ⟨_, regionsFromTree_ok_iff.2 ⟨hall, rfl⟩, orderRegions_perm _, ?_, ?_⟩
  · rw [orderRegions_eq]
    exact Comparator.pairwise_sort _
  · intro region hregion
    obtain ⟨unsorted, -, rfl⟩ := List.mem_map.1 ((orderRegions_perm _).mem_iff.1 hregion)
    exact Comparator.pairwise_sort unsorted.holes

/-- **When the regions of a tree are canonical.** -/
theorem canonicalRegions_iff (numbers : KeyNumberText F) (sheet : SheetSpec F)
    (operation : String) (tree : PolyTree) :
    CanonicalRegions sheet operation tree ↔
      (∃ contour ∈ contours tree.children, RejectedContour contour) ∨
        (∀ contour ∈ contours tree.children, SettledContour F contour) ∧
          Exchangeable F 1 tree.children := by
  constructor
  · intro h
    by_cases hrejected : ∃ contour ∈ contours tree.children, RejectedContour contour
    · exact .inl hrejected
    · right
      push Not at hrejected
      obtain ⟨forest, hforest, hforestAll⟩ := exists_accepted tree.children hrejected
      have hsome := (h.invariant (.node none forest) hforest _).1
        (snapshotFromTree_ok_iff.2 ⟨hforestAll, rfl⟩)
      obtain ⟨hall, hfirst⟩ := snapshotFromTree_ok_iff.1 hsome
      -- so every order is accepted, with the regions of the tree
      have hevery : ∀ forest', Reordered tree.children forest' →
          (∀ contour ∈ contours forest', AcceptedContour contour) ∧
            orderRegions (materialRegions (F := F) 1 forest') =
              orderRegions (materialRegions 1 tree.children) := by
        intro forest' hforest'
        have hsnapshot := (h.invariant (.node none forest') hforest' _).2 hsome
        obtain ⟨hall', hsame⟩ := snapshotFromTree_ok_iff.1 hsnapshot
        rw [hfirst] at hsame
        exact ⟨hall', (congrArg FreeMaterialSnapshot.regions hsame).symm⟩
      have hsettled := settled_of_invariant (F := F) tree.children fun forest' hforest' => by
        obtain ⟨hall', hsame⟩ := hevery forest' hforest'
        refine ⟨hall', (flatMap_polygons_orderRegions forest').symm.trans ?_⟩
        rw [hsame]
        exact flatMap_polygons_orderRegions tree.children
      exact ⟨hsettled, exchangeable_of_invariant numbers tree.children hsettled
        fun forest' hforest' =>
          (orderRegions_eq_iff numbers _ _).1 (hevery forest' hforest').2⟩
  · intro h
    refine ⟨fun _ => regionsFromTree_complete, fun _ => snapshotFromTree_sorted,
      fun tree' htree snapshot => ?_⟩
    rw [snapshotFromTree_ok_iff, snapshotFromTree_ok_iff]
    rcases h with ⟨contour, hcontour, hrejected⟩ | ⟨hsettled, hexchange⟩
    · simp [not_accepted_of_rejected htree hcontour hrejected,
        not_accepted_of_rejected (.refl _) hcontour hrejected]
    · rw [(orderRegions_eq_iff numbers _ _).2
        (regionsWith_reordered numbers htree hsettled hexchange)]
      exact and_congr_left' (iff_of_true (accepted_of_settled htree hsettled)
        (accepted_of_settled (.refl _) hsettled))

/-! ### Two triangles on one vertex -/

section TwoTriangles

attribute [local instance] fractionTexts exactFractions

/-- Two triangles that touch in their lowest vertex, drawn in one go. -/
def twoTriangles : CanonicalGridPath :=
  [⟨3000, 0⟩, ⟨5000, 1000⟩, ⟨4000, 2000⟩, ⟨3000, 0⟩, ⟨2000, 2000⟩, ⟨1000, 1000⟩]

def twoTrianglesTree : PolyTree := .node none [.node (some twoTriangles) []]

def sixByFour : SheetSpec ℚ := ⟨6, 4, "six by four"⟩

theorem canonicalRegions_iff_twoTriangles :
    CanonicalRegions sixByFour "computeFreeMaterial" twoTrianglesTree ↔
      (∃ contour ∈ contours twoTrianglesTree.children, RejectedContour contour) ∨
        (∀ contour ∈ contours twoTrianglesTree.children, SettledContour ℚ contour) ∧
          Exchangeable ℚ 1 twoTrianglesTree.children :=
  canonicalRegions_iff keyNumberText_fractions sixByFour "computeFreeMaterial" twoTrianglesTree

/-- From its third vertex on, the other triangle comes first. -/
theorem not_canonicalRegions_twoTriangles :
    ¬ CanonicalRegions sixByFour "computeFreeMaterial" twoTrianglesTree := by
  intro h
  have hcontours : ∀ path, contours [.node (some path) []] = [some path] := fun path => by
    rw [contours, contours]
    rfl
  have hperm : ∀ path, ((orderRegions (materialRegions (F := ℚ) 1 [.node (some path) []])).flatMap
      polygons).Perm [polygonOf (some path)] := fun path => by
    have hflat := flatMap_polygons_orderRegions (F := ℚ) [.node (some path) []]
    rwa [hcontours] at hflat
  have haccepted : ∀ path ∈ [twoTriangles, twoTriangles.rotate 2], Accepted path := by
    intro path hpath
    simp only [List.mem_cons, List.not_mem_nil, or_false] at hpath
    rcases hpath with rfl | rfl
    · exact ⟨by decide +kernel, by decide +kernel⟩
    · exact ⟨by decide +kernel, by decide +kernel⟩
  have hok : ∀ path ∈ [twoTriangles, twoTriangles.rotate 2],
      snapshotFromTree sixByFour (.node none [.node (some path) []]) "computeFreeMaterial" =
        .ok ⟨sixByFour, orderRegions (materialRegions 1 [.node (some path) []]), []⟩ := by
    intro path hpath
    refine snapshotFromTree_ok_iff.2 ⟨fun contour hcontour => ?_, rfl⟩
    rw [PolyTree.children, hcontours, List.mem_singleton] at hcontour
    exact ⟨path, hcontour, haccepted path hpath⟩
  have hsame := (h.invariant (.node none [.node (some (twoTriangles.rotate 2)) []])
    (.cons (.refl _) (.some ⟨2, rfl⟩) .nil .nil) _).2 (hok _ (by simp))
  rw [hok _ (by simp)] at hsame
  have hregions : orderRegions (materialRegions (F := ℚ) 1
      [.node (some (twoTriangles.rotate 2)) []]) = orderRegions (materialRegions 1
        [.node (some twoTriangles) []]) :=
    congrArg FreeMaterialSnapshot.regions (Except.ok.inj hsame)
  have hrotated := hperm (twoTriangles.rotate 2)
  rw [hregions] at hrotated
  exact absurd (List.singleton_perm_singleton.1 ((hperm twoTriangles).symm.trans hrotated))
    (by decide +kernel)

end TwoTriangles

end PolygonNesting.FreeMaterial
