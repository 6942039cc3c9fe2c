import PolygonNesting.Caches.GeometryCacheIdentity
import PolygonNesting.Geometry.FreeMaterial
import PolygonNesting.Lib.Fallible
import PolygonNesting.Lib.SeparatedText

set_option linter.unusedSectionVars false

/-!
# The regions of a polygon tree

The regions are the outer contours of the tree, each with the contours right inside it.  They
are ordered by their boundaries, and polygons that tie in that order are equal.
-/

namespace PolygonNesting.FreeMaterial

open Binary64 CyclicStart Caches

/-! ## §1  Forests -/

/-- Induction on the nodes of a forest in the order of the traversal. -/
theorem forest_induction {P : List PolyTree → Prop} (nil : P [])
    (cons : ∀ polygon children rest, P children → P rest →
      P (PolyTree.node polygon children :: rest)) : ∀ forest, P forest
  | [] => nil
  | .node polygon children :: rest =>
      cons polygon children rest (forest_induction nil cons children)
        (forest_induction nil cons rest)

/-- The contours of a forest. -/
def contours : List PolyTree → List (Option CanonicalGridPath)
  | [] => []
  | .node polygon children :: rest => polygon :: (contours children ++ contours rest)

/-- The node on the level, when its contour is an outer one. -/
def outerNode (level : ℕ) (node : PolyTree) : List PolyTree :=
  if PolyTree.isHole level then [] else [node]

/-- The nodes with an outer contour, the roots of the forest being on the level. -/
def outerNodes : ℕ → List PolyTree → List PolyTree
  | _, [] => []
  | level, .node polygon children :: rest =>
      outerNode level (.node polygon children) ++
        (outerNodes (level + 1) children ++ outerNodes level rest)

/-- The contour of a node and those right inside it. -/
def ownContours (node : PolyTree) : List (Option CanonicalGridPath) :=
  node.polygon :: node.children.map PolyTree.polygon

/-- The contours of the outer nodes and of the holes in them. -/
def regionContours (level : ℕ) (forest : List PolyTree) : List (Option CanonicalGridPath) :=
  (outerNodes level forest).flatMap ownContours

theorem isHole_succ (level : ℕ) :
    PolyTree.isHole (level + 2) = !PolyTree.isHole (level + 1) := by
  unfold PolyTree.isHole
  rcases Nat.mod_two_eq_zero_or_one (level + 1) with h | h
  · simp [h, Nat.succ_mod_two_eq_one_iff.2 h]
  · simp [h, Nat.succ_mod_two_eq_zero_iff.2 h]

theorem regionContours_nil (level : ℕ) : regionContours level [] = [] := by
  unfold regionContours
  rw [outerNodes, List.flatMap_nil]

theorem regionContours_cons (level : ℕ) (polygon : Option CanonicalGridPath)
    (children rest : List PolyTree) :
    regionContours level (.node polygon children :: rest) =
      (outerNode level (.node polygon children)).flatMap ownContours ++
        (regionContours (level + 1) children ++ regionContours level rest) := by
  unfold regionContours
  rw [outerNodes, List.flatMap_append, List.flatMap_append]

/-- **Every contour belongs to one region**: an outer one as its boundary, the others as holes
of the outer one they are in. -/
theorem regionContours_perm (forest : List PolyTree) : ∀ level,
    (PolyTree.isHole (level + 1) = false →
      (regionContours (level + 1) forest).Perm (contours forest)) ∧
    (PolyTree.isHole (level + 1) = true →
      (forest.map PolyTree.polygon ++ regionContours (level + 1) forest).Perm
        (contours forest)) := by
  induction forest using forest_induction with
  | nil =>
      intro level
      rw [regionContours_nil, contours]
      exact ⟨fun _ => List.Perm.nil, fun _ => List.Perm.nil⟩
  | cons polygon children rest ihChildren ihRest =>
      intro level
      have hsucc := isHole_succ level
      rw [regionContours_cons, contours, outerNode]
      refine ⟨fun houter => ?_, fun hhole => ?_⟩
      · rw [houter] at hsucc ⊢
        rw [if_neg Bool.false_ne_true, List.flatMap_singleton, ← List.append_assoc]
        exact (((ihChildren (level + 1)).2 hsucc).append ((ihRest level).1 houter)).cons polygon
      · rw [hhole] at hsucc ⊢
        rw [if_pos rfl, List.flatMap_nil, List.nil_append, List.map_cons, List.cons_append]
        refine List.Perm.cons polygon ((List.perm_append_comm_assoc _ _ _).trans ?_)
        exact ((ihChildren (level + 1)).1 hsucc).append ((ihRest level).2 hhole)

/-! ## §2  Accepted contours -/

/-- A contour that passes the checks, without its repeats. -/
structure Accepted (path : CanonicalGridPath) : Prop where
  guarded : validateCoordinateGuard (normalizeClipperOutputPath path) = .ok ()
  valid : validateClipperOutputPath (normalizeClipperOutputPath path) "" = .ok ()

theorem validateVertices_ok_iff (label label' : String) (path : CanonicalGridPath) :
    ∀ uniquePoints, validateVertices label false uniquePoints path = .ok () ↔
      validateVertices label' false uniquePoints path = .ok () := by
  induction path with
  | nil => exact fun _ => Iff.rfl
  | cons point rest ih =>
      intro uniquePoints
      unfold validateVertices
      split
      · simp
      · exact ih _

/-- The label is only told. -/
theorem validateClipperOutputPath_ok_iff (label label' : String) (path : CanonicalGridPath) :
    validateClipperOutputPath path label = .ok () ↔
      validateClipperOutputPath path label' = .ok () := by
  have hvertices := validateVertices_ok_iff label label' path []
  unfold validateClipperOutputPath validatePathStructure
  by_cases hlength : path.length < 3
  · rw [if_pos hlength, if_pos hlength]
    simp [throw, throwThe, MonadExceptOf.throw, bind, Except.bind]
  · rw [if_neg hlength, if_neg hlength]
    rcases h : validateVertices label false [] path with error | _
    · rcases h' : validateVertices label' false [] path with error' | _
      · simp [bind, Except.bind]
      · rw [h, h'] at hvertices
        simp at hvertices
    · rw [hvertices.1 h]
      dsimp only [bind, Except.bind, pure, Except.pure]
      split <;> simp [throw, throwThe, MonadExceptOf.throw]

variable {F : Type} [LinearOrder F] [Zero F] [One F] [Add F] [Sub F] [Neg F] [Mul F] [Div F]
  [JsMath F]

/-- The ring of a contour in millimetres, without repeats. -/
def ringOf (path : CanonicalGridPath) : List (IrregularPoint F) :=
  (normalizeClipperOutputPath path).map pointFromGrid

def polygonOf (contour : Option CanonicalGridPath) : IrregularPolygon F :=
  ⟨rotateToStableStart (ringOf (contour.getD []))⟩

theorem polygonFromPath_ok_iff {path : CanonicalGridPath} {label : String}
    {polygon : IrregularPolygon F} :
    polygonFromPath path label = .ok polygon ↔ Accepted path ∧ polygon = polygonOf path := by
  have hvalid := validateClipperOutputPath_ok_iff label "" (normalizeClipperOutputPath path)
  unfold polygonFromPath
  constructor
  · intro h
    obtain ⟨_, hguard, h⟩ := except_bind_eq_ok h
    obtain ⟨_, hpath, h⟩ := except_bind_eq_ok h
    refine ⟨⟨?_, hvalid.1 hpath⟩, (Except.ok.inj h).symm⟩
    rcases hcases : validateCoordinateGuard (normalizeClipperOutputPath path) with error | _
    · rw [hcases] at hguard
      cases hguard
    · rfl
  · rintro ⟨haccepted, rfl⟩
    dsimp only
    rw [haccepted.guarded, hvalid.2 haccepted.valid]
    rfl

/-- A contour there is and that passes. -/
def AcceptedContour (contour : Option CanonicalGridPath) : Prop :=
  ∃ path, contour = some path ∧ Accepted path

/-- The region of a node. -/
def regionOf (node : PolyTree) : FreeMaterialRegion F where
  boundary := polygonOf node.polygon
  holes := node.children.map fun hole => polygonOf hole.polygon

theorem holeFromNode_ok_iff {hole : PolyTree} {polygon : IrregularPolygon F} :
    holeFromNode hole = .ok polygon ↔
      AcceptedContour hole.polygon ∧ polygon = polygonOf hole.polygon := by
  unfold holeFromNode AcceptedContour
  rcases hole.polygon with _ | path
  · simp
  · simpa using polygonFromPath_ok_iff

theorem mapM_holeFromNode_ok_iff {children : List PolyTree}
    {polygons : List (IrregularPolygon F)} :
    children.mapM holeFromNode = .ok polygons ↔
      (∀ hole ∈ children, AcceptedContour hole.polygon) ∧
        polygons = children.map fun hole => polygonOf hole.polygon :=
  except_mapM_ok_iff fun _ _ => holeFromNode_ok_iff

theorem regionFromChild_ok_iff {level : ℕ} {path : CanonicalGridPath}
    {children : List PolyTree} {regions : List (FreeMaterialRegion F)} :
    regionFromChild (level + 1) path children = .ok regions ↔
      (∀ contour ∈ (outerNode (level + 1) (.node path children)).flatMap ownContours,
        AcceptedContour contour) ∧
          regions = (outerNode (level + 1) (.node path children)).map regionOf := by
  have hsucc := isHole_succ level
  unfold regionFromChild outerNode
  rcases h : PolyTree.isHole (level + 1) with _ | _
  · rw [h] at hsucc
    rw [hsucc, if_neg Bool.false_ne_true, if_neg Bool.false_ne_true, List.flatMap_singleton]
    simp only [Bool.not_false, if_true]
    constructor
    · intro hregions
      obtain ⟨boundary, hboundary, hregions⟩ := except_bind_eq_ok hregions
      obtain ⟨holes, hholes, hregions⟩ := except_bind_eq_ok hregions
      obtain ⟨hpath, rfl⟩ := polygonFromPath_ok_iff.1 hboundary
      obtain ⟨hall, rfl⟩ := mapM_holeFromNode_ok_iff.1 hholes
      refine ⟨fun contour hcontour => ?_, (Except.ok.inj hregions).symm⟩
      rcases List.mem_cons.1 hcontour with rfl | hcontour
      · exact ⟨path, rfl, hpath⟩
      · obtain ⟨hole, hhole, rfl⟩ := List.mem_map.1 hcontour
        exact hall hole hhole
    · rintro ⟨hall, rfl⟩
      obtain ⟨_, hpath, haccepted⟩ := hall path List.mem_cons_self
      obtain rfl := Option.some.inj hpath
      have hboundary : polygonFromPath (F := F) path "free-material boundary" = .ok _ :=
        polygonFromPath_ok_iff.2 ⟨haccepted, rfl⟩
      have hholes : children.mapM (holeFromNode (F := F)) = .ok _ :=
        mapM_holeFromNode_ok_iff.2 ⟨fun hole hhole =>
          hall _ (List.mem_cons_of_mem _ (List.mem_map.2 ⟨hole, hhole, rfl⟩)), rfl⟩
      rw [hboundary]
      change (children.mapM holeFromNode).bind _ = _
      rw [hholes]
      rfl
  · simp [eq_comm, pure, Except.pure]

/-- The regions of a forest, its roots being on the level. -/
def materialRegions (level : ℕ) (forest : List PolyTree) : List (FreeMaterialRegion F) :=
  (outerNodes level forest).map regionOf

/-- **The traversal succeeds where it meets accepted contours only.** -/
theorem collectTreeChildren_ok_iff (forest : List PolyTree) :
    ∀ {level : ℕ} {regions : List (FreeMaterialRegion F)},
      collectTreeChildren (level + 1) forest = .ok regions ↔
        (∀ contour ∈ regionContours (level + 1) forest, AcceptedContour contour) ∧
          (∀ contour ∈ contours forest, contour ≠ none) ∧
            regions = materialRegions (level + 1) forest := by
  induction forest using forest_induction with
  | nil =>
      intro level regions
      rw [collectTreeChildren, regionContours_nil, contours, materialRegions, outerNodes]
      simp [eq_comm]
  | cons polygon children rest ihChildren ihRest =>
      intro level regions
      rw [collectTreeChildren, contours, List.forall_mem_cons, List.forall_mem_append,
        regionContours_cons, List.forall_mem_append, List.forall_mem_append, materialRegions,
        outerNodes, List.map_append, List.map_append]
      rcases polygon with _ | path
      · rw [collectChild]
        simp [bind, Except.bind]
      · rw [collectChild]
        constructor
        · intro h
          obtain ⟨first, hfirst, h⟩ := except_bind_eq_ok h
          obtain ⟨later, hlater, h⟩ := except_bind_eq_ok h
          obtain ⟨own, hown, hfirst⟩ := except_bind_eq_ok hfirst
          obtain ⟨below, hbelow, hfirst⟩ := except_bind_eq_ok hfirst
          obtain ⟨hownAll, rfl⟩ := regionFromChild_ok_iff.1 hown
          obtain ⟨hbelowAll, hbelowSome, rfl⟩ := ihChildren.1 hbelow
          obtain ⟨hlaterAll, hlaterSome, rfl⟩ := ihRest.1 hlater
          obtain rfl := Except.ok.inj hfirst
          obtain rfl := Except.ok.inj h
          exact ⟨⟨hownAll, hbelowAll, hlaterAll⟩, ⟨by simp, hbelowSome, hlaterSome⟩,
            List.append_assoc _ _ _⟩
        · rintro ⟨⟨hownAll, hbelowAll, hlaterAll⟩, ⟨-, hbelowSome, hlaterSome⟩, rfl⟩
          rw [regionFromChild_ok_iff.2 ⟨hownAll, rfl⟩,
            ihChildren.2 ⟨hbelowAll, hbelowSome, rfl⟩, ihRest.2 ⟨hlaterAll, hlaterSome, rfl⟩,
            ← List.append_assoc]
          rfl

/-- **The regions of a tree are those of its outer nodes**, and there are some where every
contour is accepted. -/
theorem regionsFromTree_ok_iff {tree : PolyTree} {regions : List (FreeMaterialRegion F)} :
    regionsFromTree tree = .ok regions ↔
      (∀ contour ∈ contours tree.children, AcceptedContour contour) ∧
        regions = materialRegions 1 tree.children := by
  have hperm := (regionContours_perm tree.children 0).1 rfl
  unfold regionsFromTree
  rw [collectTreeChildren_ok_iff]
  constructor
  · rintro ⟨hall, -, rfl⟩
    exact ⟨fun contour hcontour => hall contour (hperm.mem_iff.2 hcontour), rfl⟩
  · rintro ⟨hall, rfl⟩
    refine ⟨fun contour hcontour => hall contour (hperm.mem_iff.1 hcontour), ?_, rfl⟩
    rintro contour hcontour rfl
    obtain ⟨path, hpath, -⟩ := hall none hcontour
    cases hpath

/-! ## §3  Order -/

theorem transCmp_comparePoints : Std.TransCmp (comparePoints (F := F)) :=
  Comparator.transCmp_then (Comparator.transCmp_comap compare IrregularPoint.y)
    (Comparator.transCmp_comap compare IrregularPoint.x)

/-- The order of the polygons as a chain of keys. -/
def comparePolygonsByKeys (first second : IrregularPolygon F) : Ordering :=
  ((compare (min first.points.length 1) (min second.points.length 1)).then
    (comparePoints (first.points.headD ⟨0, 0⟩) (second.points.headD ⟨0, 0⟩))).then
      (localeCompareKeys (polygonKey first) (polygonKey second))

theorem compare_eq_ite (a b : F) (order : Ordering) :
    (if a ≠ b then if a < b then .lt else .gt else order) = (compare a b).then order := by
  rcases lt_trichotomy a b with h | rfl | h
  · rw [if_pos h.ne, if_pos h, compare_lt_iff_lt.2 h]
    rfl
  · rw [if_neg (not_not.2 rfl), compare_eq_iff_eq.2 rfl]
    rfl
  · rw [if_pos h.ne', if_neg h.not_gt, compare_gt_iff_gt.2 h]
    rfl

theorem comparePolygons_eq (first second : IrregularPolygon F) :
    comparePolygons first second = comparePolygonsByKeys first second := by
  obtain ⟨firsts⟩ := first
  obtain ⟨seconds⟩ := second
  have hleast : ∀ n : ℕ, min (n + 1) 1 = 1 := fun n => by omega
  unfold comparePolygons comparePolygonsByKeys comparePoints
  rcases firsts with _ | ⟨p, firsts⟩
  · rcases seconds with _ | ⟨q, seconds⟩
    · simp [Comparator.cmp_self]
    · simp only [List.head?_nil, List.head?_cons, List.length_nil, List.length_cons, hleast]
      rw [compare_lt_iff_lt.2 (Nat.succ_pos _)]
      rfl
  · rcases seconds with _ | ⟨q, seconds⟩
    · simp only [List.head?_nil, List.head?_cons, List.length_nil, List.length_cons, hleast]
      rw [compare_gt_iff_gt.2 (Nat.succ_pos _)]
      rfl
    · simp only [List.head?_cons, List.length_cons, hleast, List.headD_cons]
      rw [compare_eq_ite, compare_eq_ite, Comparator.cmp_self compare 1]
      simp only [Ordering.eq_then, Ordering.then_assoc]

theorem transCmp_comparePolygons : Std.TransCmp (comparePolygons (F := F)) := by
  have hkeys : Std.TransCmp (comparePolygonsByKeys (F := F)) := by
    refine Comparator.transCmp_then (Comparator.transCmp_then ?_ ?_) ?_
    · exact Comparator.transCmp_comap compare fun polygon : IrregularPolygon F =>
        min polygon.points.length 1
    · have hpoints := transCmp_comparePoints (F := F)
      exact Comparator.transCmp_comap comparePoints fun polygon : IrregularPolygon F =>
        polygon.points.headD ⟨0, 0⟩
    · exact Comparator.transCmp_comap localeCompareKeys polygonKey
  have heq : comparePolygons (F := F) = comparePolygonsByKeys :=
    funext fun first => funext fun second => comparePolygons_eq first second
  rw [heq]
  exact hkeys

theorem transCmp_compareRegions : Std.TransCmp (compareRegions (F := F)) := by
  have hpolygons := transCmp_comparePolygons (F := F)
  exact Comparator.transCmp_comap comparePolygons FreeMaterialRegion.boundary

section Keys

variable (numbers : KeyNumberText F)

include numbers

theorem polygonKey_injective : Function.Injective (polygonKey (F := F)) := by
  let pointKey : IrregularPoint F → String := fun point =>
    JsMath.numberToJsString point.x ++ (":" ++ JsMath.numberToJsString point.y)
  have hwords : ∀ points : List (IrregularPoint F),
      ∀ word ∈ points.map pointKey, '|' ∉ word.toList ∧ word ≠ "" := by
    intro points word hword
    obtain ⟨point, -, rfl⟩ := List.mem_map.1 hword
    refine ⟨?_, fun hempty => ?_⟩
    · simp only [pointKey, String.toList_append, List.mem_append, not_or]
      exact ⟨not_mem_foldNegativeZeroKey numbers point.x rfl (by decide), by decide,
        not_mem_foldNegativeZeroKey numbers point.y rfl (by decide)⟩
    · have htext := congrArg String.toList hempty
      simp [pointKey, String.toList_append] at htext
  have hpoint : Function.Injective pointKey := by
    rintro ⟨x, y⟩ ⟨x', y'⟩ h
    obtain ⟨hx, hy⟩ := SeparatedText.append_inj (c := ':') rfl
      (not_mem_foldNegativeZeroKey numbers x rfl (by decide))
      (not_mem_foldNegativeZeroKey numbers x' rfl (by decide)) h
    exact congrArg₂ IrregularPoint.mk (numbers.injective _ _ hx) (numbers.injective _ _ hy)
  rintro ⟨points⟩ ⟨points'⟩ h
  have hmap : points.map pointKey = points'.map pointKey :=
    SeparatedText.intercalate_inj_of_ne_empty rfl (hwords points) (hwords points') h
  rw [List.map_injective_iff.2 hpoint hmap]

/-- Polygons that tie are equal. -/
theorem comparePolygons_eq_iff {first second : IrregularPolygon F} :
    comparePolygons first second = .eq ↔ first = second := by
  constructor
  · intro h
    rw [comparePolygons_eq, comparePolygonsByKeys, Ordering.then_eq_eq] at h
    exact polygonKey_injective numbers (eq_of_localeCompareKeys h.2)
  · rintro rfl
    have hpolygons := transCmp_comparePolygons (F := F)
    exact Comparator.cmp_self comparePolygons _

end Keys

end PolygonNesting.FreeMaterial
