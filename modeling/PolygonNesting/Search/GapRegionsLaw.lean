import Mathlib.MeasureTheory.Constructions.BorelSpace.Basic
import Mathlib.MeasureTheory.Measure.Lebesgue.Basic
import PolygonNesting.Canonical.GridRounding
import PolygonNesting.Lib.WindingNumber
import PolygonNesting.Search.GapRegions
import PolygonNesting.Search.Orientation

set_option linter.unusedSectionVars false

/-!
# The bounding-box prefilter of the gap regions

The prefilter rejects a candidate that the polygon difference accepts exactly where the snapped
candidate leaves the box of the region by spikes of no width.  A candidate that covers area at
every side of its own box has no such spike.
-/

namespace PolygonNesting

open Binary64 MeasureTheory Plane

/-! ## §1  Boxes -/

/-- The box holds the point. -/
def CanonicalIntrinsicGapRegionAabb.Holds (aabb : CanonicalIntrinsicGapRegionAabb)
    (v : CanonicalGridPoint) : Prop :=
  aabb.minX ≤ v.x ∧ aabb.minY ≤ v.y ∧ v.x ≤ aabb.maxX ∧ v.y ≤ aabb.maxY

theorem foldl_extendAabb (rest : CanonicalGridPath) : ∀ aabb : CanonicalIntrinsicGapRegionAabb,
    rest.foldl extendAabb aabb =
      ⟨(rest.map (·.x)).foldl min aabb.minX, (rest.map (·.y)).foldl min aabb.minY,
        (rest.map (·.x)).foldl max aabb.maxX, (rest.map (·.y)).foldl max aabb.maxY⟩ := by
  induction rest with
  | nil => exact fun aabb => rfl
  | cons v rest ih => exact fun aabb => ih (extendAabb aabb v)

theorem pathBounds_eq_some_iff {path : CanonicalGridPath}
    {aabb : CanonicalIntrinsicGapRegionAabb} :
    pathBounds path = some aabb ↔
      (path.map (·.x)).min? = some aabb.minX ∧ (path.map (·.y)).min? = some aabb.minY ∧
        (path.map (·.x)).max? = some aabb.maxX ∧ (path.map (·.y)).max? = some aabb.maxY := by
  cases path with
  | nil => simp [pathBounds]
  | cons first rest =>
    simp only [pathBounds, foldl_extendAabb, List.map_cons, List.min?_cons', List.max?_cons',
      Option.some.injEq]
    constructor
    · rintro rfl
      exact ⟨rfl, rfl, rfl, rfl⟩
    · rintro ⟨h1, h2, h3, h4⟩
      rw [h1, h2, h3, h4]

theorem holds_of_pathBounds {path : CanonicalGridPath} {aabb : CanonicalIntrinsicGapRegionAabb}
    (h : pathBounds path = some aabb) {v : CanonicalGridPoint} (hv : v ∈ path) :
    aabb.Holds v := by
  obtain ⟨h1, h2, h3, h4⟩ := pathBounds_eq_some_iff.1 h
  exact ⟨(List.min?_eq_some_iff.1 h1).2 _ (List.mem_map_of_mem hv),
    (List.min?_eq_some_iff.1 h2).2 _ (List.mem_map_of_mem hv),
    (List.max?_eq_some_iff.1 h3).2 _ (List.mem_map_of_mem hv),
    (List.max?_eq_some_iff.1 h4).2 _ (List.mem_map_of_mem hv)⟩

/-- The box of a path lies in another where all its points do. -/
theorem within_iff_of_pathBounds {path : CanonicalGridPath}
    {aabb outer : CanonicalIntrinsicGapRegionAabb} (h : pathBounds path = some aabb) :
    aabb.within outer = true ↔ ∀ v ∈ path, outer.Holds v := by
  unfold CanonicalIntrinsicGapRegionAabb.within CanonicalIntrinsicGapRegionAabb.Holds
  simp only [Bool.and_eq_true, decide_eq_true_eq]
  constructor
  · rintro ⟨⟨⟨h1, h2⟩, h3⟩, h4⟩ v hv
    obtain ⟨hx, hy, hx', hy'⟩ := holds_of_pathBounds h hv
    exact ⟨h1.trans hx, h2.trans hy, hx'.trans h3, hy'.trans h4⟩
  · intro hall
    obtain ⟨h1, h2, h3, h4⟩ := pathBounds_eq_some_iff.1 h
    obtain ⟨u, hu, hux⟩ := List.mem_map.1 (List.min?_eq_some_iff.1 h1).1
    obtain ⟨v, hv, hvy⟩ := List.mem_map.1 (List.min?_eq_some_iff.1 h2).1
    obtain ⟨w, hw, hwx⟩ := List.mem_map.1 (List.max?_eq_some_iff.1 h3).1
    obtain ⟨z, hz, hzy⟩ := List.mem_map.1 (List.max?_eq_some_iff.1 h4).1
    rw [← hux, ← hvy, ← hwx, ← hzy]
    exact ⟨⟨⟨(hall u hu).1, (hall v hv).2.1⟩, (hall w hw).2.2.1⟩, (hall z hz).2.2.2⟩

theorem mem_canonicalGridCounterClockwise {path : CanonicalGridPath} {v : CanonicalGridPoint} :
    v ∈ canonicalGridCounterClockwise path ↔ v ∈ path := by
  unfold canonicalGridCounterClockwise
  split
  · rfl
  · exact List.mem_reverse

theorem mem_canonicalGridClockwise {path : CanonicalGridPath} {v : CanonicalGridPoint} :
    v ∈ canonicalGridClockwise path ↔ v ∈ path := by
  unfold canonicalGridClockwise
  split
  · rfl
  · exact List.mem_reverse

/-! ## §2  Derived regions -/

/-- The paths inside a node lie in the box of its path. -/
def InsideOf (outer inner : CanonicalGridPath) : Prop :=
  ∀ aabb, pathBounds outer = some aabb → ∀ v ∈ inner, aabb.Holds v

mutual

/-- Every path of the tree lies in the box of the path it is in. -/
def PolyTree.Nested : PolyTree → Prop
  | .node polygon children =>
      (∀ outer ∈ polygon, ∀ child ∈ children, ∀ inner ∈ child.polygon, InsideOf outer inner) ∧
        PolyTree.AllNested children

def PolyTree.AllNested : List PolyTree → Prop
  | [] => True
  | child :: rest => child.Nested ∧ PolyTree.AllNested rest

end

variable {F : Type} [LinearOrder F] [Zero F] [One F] [Add F] [Sub F] [Neg F] [Mul F] [Div F]
  [JsMath F]

/-- The solid of a region lies in its box. -/
def CanonicalIntrinsicGapRegion.Boxed (region : CanonicalIntrinsicGapRegion F) : Prop :=
  ∀ path ∈ region.solid, ∀ v ∈ path, region.aabb.Holds v

theorem gapRegion_boxed {hull childPath : CanonicalGridPath} {holes : List CanonicalGridPath}
    {region : CanonicalIntrinsicGapRegion F} (h : gapRegion hull childPath holes = some region)
    (hholes : ∀ hole ∈ holes, InsideOf childPath hole) : region.Boxed := by
  unfold gapRegion at h
  obtain ⟨aabb, haabb, h⟩ := Option.bind_eq_some_iff.1 h
  obtain ⟨areaMm2, -, h⟩ := Option.bind_eq_some_iff.1 h
  split at h
  · cases h
  · obtain rfl := Option.some.inj h
    intro path hpath v hv
    rcases List.mem_cons.1 hpath with rfl | hpath
    · rw [mem_canonicalGridCounterClockwise, mem_canonicalGridCounterClockwise] at hv
      exact holds_of_pathBounds haabb hv
    · obtain ⟨ordered, hordered, rfl⟩ := List.mem_map.1 hpath
      obtain ⟨hole, hhole, rfl⟩ := List.mem_map.1 (List.mem_mergeSort.1 hordered)
      rw [mem_canonicalGridClockwise, mem_canonicalGridClockwise] at hv
      exact hholes hole hhole aabb haabb v hv

theorem childRegion_boxed {hull : CanonicalGridPath} {level : ℕ} {child : PolyTree}
    {regions : List (CanonicalIntrinsicGapRegion F)} (h : childRegion hull level child = some regions)
    (hnested : child.Nested) : ∀ region ∈ regions, region.Boxed := by
  obtain ⟨polygon, children⟩ := child
  rw [PolyTree.Nested] at hnested
  cases polygon with
  | none =>
    obtain rfl := Option.some.inj h
    simp
  | some childPath =>
    simp only [childRegion] at h
    split at h
    · obtain rfl := Option.some.inj h
      simp
    · obtain ⟨region, hregion, rfl⟩ := Option.map_eq_some_iff.1 h
      intro other hother
      obtain rfl := List.mem_singleton.1 hother
      refine gapRegion_boxed hregion fun hole hhole => ?_
      split at hhole
      · obtain ⟨inner, hinner, hpath⟩ := List.mem_filterMap.1 hhole
        exact hnested.1 childPath rfl inner hinner hole hpath
      · simp at hhole

mutual

theorem collectRegions_boxed {hull : CanonicalGridPath} {level : ℕ} : ∀ {tree : PolyTree}
    {regions : List (CanonicalIntrinsicGapRegion F)}, collectRegions hull level tree = some regions →
      tree.Nested → ∀ region ∈ regions, region.Boxed
  | .node polygon children, regions, h, hnested => by
    rw [collectRegions] at h
    rw [PolyTree.Nested] at hnested
    exact collectChildren_boxed h hnested.2

theorem collectChildren_boxed {hull : CanonicalGridPath} {level : ℕ} : ∀ {children : List PolyTree}
    {regions : List (CanonicalIntrinsicGapRegion F)},
      collectChildren hull level children = some regions → PolyTree.AllNested children →
        ∀ region ∈ regions, region.Boxed
  | [], regions, h, _ => by
    rw [collectChildren] at h
    obtain rfl := Option.some.inj h
    simp
  | child :: rest, regions, h, hnested => by
    rw [collectChildren] at h
    rw [PolyTree.AllNested] at hnested
    obtain ⟨own, hown, h⟩ := Option.bind_eq_some_iff.1 h
    obtain ⟨below, hbelow, h⟩ := Option.bind_eq_some_iff.1 h
    obtain ⟨later, hlater, h⟩ := Option.bind_eq_some_iff.1 h
    obtain rfl := Option.some.inj h
    intro region hregion
    rcases List.mem_append.1 hregion with hregion | hregion
    · rcases List.mem_append.1 hregion with hregion | hregion
      · exact childRegion_boxed hown hnested.1 region hregion
      · exact collectRegions_boxed hbelow hnested.1 region hregion
    · exact collectChildren_boxed hlater hnested.2 region hregion

end

theorem deriveCanonicalIntrinsicGapRegions_boxed {numberToJsString : Number → String}
    {booleanOpWithPolyTree : BooleanOp} {placed : List (IrregularPlacedPiece F)}
    {regions : List (CanonicalIntrinsicGapRegion F)}
    (hnested : ∀ subject clip,
      (booleanOpWithPolyTree .difference subject (some clip) .nonZero).Nested)
    (h : deriveCanonicalIntrinsicGapRegions numberToJsString booleanOpWithPolyTree placed =
      some regions) : ∀ region ∈ regions, region.Boxed := by
  unfold deriveCanonicalIntrinsicGapRegions at h
  obtain ⟨occupied, -, h⟩ := Option.bind_eq_some_iff.1 h
  obtain ⟨hull, -, h⟩ := Option.bind_eq_some_iff.1 h
  split at h
  · obtain rfl := Option.some.inj h
    simp
  · obtain ⟨collected, hcollected, h⟩ := Option.bind_eq_some_iff.1 h
    obtain rfl := Option.some.inj h
    intro region hregion
    exact collectRegions_boxed hcollected (hnested _ _) region (List.mem_mergeSort.1 hregion)

/-! ## §3  Areas -/

/-- A point of the grid in the plane, in grid units. -/
def gridPlanePoint (v : CanonicalGridPoint) : ℝ × ℝ := (v.x, v.y)

/-- The points that grid paths fill, by the rule of nonzero winding. -/
def gridFilled (paths : List CanonicalGridPath) : Set (ℝ × ℝ) :=
  filled (paths.map (List.map gridPlanePoint))

/-- **The assumptions on the polygon difference**: it has no area exactly where the subject less
the clip has none, and its tree nests. -/
structure ExactDifference (booleanOpWithPolyTree : BooleanOp) : Prop where
  area : ∀ subject clip,
    (booleanOpWithPolyTree .difference subject (some clip) .nonZero).totalPositiveDoubledArea = 0 ↔
      volume (gridFilled subject \ gridFilled clip) = 0
  nested : ∀ subject clip, (booleanOpWithPolyTree .difference subject (some clip) .nonZero).Nested

/-- A path covers area within a grid unit of every side of its box. -/
structure CoversSides (path : CanonicalGridPath) (aabb : CanonicalIntrinsicGapRegionAabb) :
    Prop where
  left : 0 < volume (gridFilled [path] ∩ {p | p.1 < aabb.minX + 1})
  bottom : 0 < volume (gridFilled [path] ∩ {p | p.2 < aabb.minY + 1})
  right : 0 < volume (gridFilled [path] ∩ {p | aabb.maxX - 1 ≤ p.1})
  top : 0 < volume (gridFilled [path] ∩ {p | aabb.maxY - 1 ≤ p.2})

theorem gridFilled_counterClockwise (path : CanonicalGridPath) :
    gridFilled [canonicalGridCounterClockwise path] = gridFilled [path] := by
  unfold canonicalGridCounterClockwise
  split
  · rfl
  · unfold gridFilled
    rw [List.map_singleton, List.map_singleton, List.map_reverse, filled_reverse]

theorem mem_box_of_mem_gridFilled {paths : List CanonicalGridPath}
    {aabb : CanonicalIntrinsicGapRegionAabb} (h : ∀ path ∈ paths, ∀ v ∈ path, aabb.Holds v)
    {p : ℝ × ℝ} (hp : p ∈ gridFilled paths) :
    (aabb.minX : ℝ) ≤ p.1 ∧ (aabb.minY : ℝ) ≤ p.2 ∧ p.1 < aabb.maxX ∧ p.2 < aabb.maxY := by
  refine filled_subset_box ((aabb.minX : ℝ), (aabb.minY : ℝ)) ((aabb.maxX : ℝ), (aabb.maxY : ℝ))
    (fun path hpath v hv => ?_) hp
  obtain ⟨gridPath, hgridPath, rfl⟩ := List.mem_map.1 hpath
  obtain ⟨u, hu, rfl⟩ := List.mem_map.1 hv
  obtain ⟨h1, h2, h3, h4⟩ := h gridPath hgridPath u hu
  exact ⟨Int.cast_le.2 h1, Int.cast_le.2 h2, Int.cast_le.2 h3, Int.cast_le.2 h4⟩

/-- What covers its sides and lies in a solid up to no area has its box in the box of the
solid. -/
theorem within_of_volume_eq_zero {path : CanonicalGridPath} {solid : List CanonicalGridPath}
    {aabb outer : CanonicalIntrinsicGapRegionAabb} (hcovers : CoversSides path aabb)
    (hsolid : ∀ path ∈ solid, ∀ v ∈ path, outer.Holds v)
    (hzero : volume (gridFilled [path] \ gridFilled solid) = 0) : aabb.within outer = true := by
  -- a strip of the candidate beyond the outer box would be area of the difference
  have hstrip : ∀ strip : Set (ℝ × ℝ), 0 < volume (gridFilled [path] ∩ strip) →
      ∃ p ∈ strip, (outer.minX : ℝ) ≤ p.1 ∧ (outer.minY : ℝ) ≤ p.2 ∧ p.1 < outer.maxX ∧
        p.2 < outer.maxY := by
    intro strip hpos
    by_contra hnone
    refine absurd (measure_mono_null ?_ hzero) hpos.ne'
    rintro p ⟨hp, hstrip⟩
    exact ⟨hp, fun hp' => hnone ⟨p, hstrip, mem_box_of_mem_gridFilled hsolid hp'⟩⟩
  obtain ⟨p, hp, hleft, -⟩ := hstrip _ hcovers.left
  obtain ⟨q, hq, -, hbottom, -⟩ := hstrip _ hcovers.bottom
  obtain ⟨r, hr, -, -, hright, -⟩ := hstrip _ hcovers.right
  obtain ⟨s, hs, -, -, -, htop⟩ := hstrip _ hcovers.top
  have h1 : outer.minX < aabb.minX + 1 := by exact_mod_cast hleft.trans_lt hp
  have h2 : outer.minY < aabb.minY + 1 := by exact_mod_cast hbottom.trans_lt hq
  have h3 : aabb.maxX - 1 < outer.maxX := by exact_mod_cast lt_of_le_of_lt hr hright
  have h4 : aabb.maxY - 1 < outer.maxY := by exact_mod_cast lt_of_le_of_lt hs htop
  unfold CanonicalIntrinsicGapRegionAabb.within
  simp only [Bool.and_eq_true, decide_eq_true_eq]
  omega

/-! ## §4  The prefilter -/

/-- **The assumption on the grid conversion.** -/
def MonotoneGrid (F : Type) [LinearOrder F] [Zero F] [One F] [Add F] [Sub F] [Neg F] [Mul F]
    [Div F] [JsMath F] : Prop :=
  ∀ a b t : F, a ≤ b → ∀ i j, toGridMm (a + t) = some i → toGridMm (b + t) = some j → i ≤ j

/-- The bounds of a geometry are those of its polygon. -/
def BoundsMatch (moving : TransformedCollisionGeometry F) : Prop :=
  boundsForPointsUnchecked moving.polygon.points = some moving.bounds

theorem foldl_extendBounds (rest : List (IrregularPoint F)) : ∀ bounds : IrregularBounds F,
    rest.foldl extendBounds bounds =
      ⟨(rest.map (·.x)).foldl min bounds.minX, (rest.map (·.y)).foldl min bounds.minY,
        (rest.map (·.x)).foldl max bounds.maxX, (rest.map (·.y)).foldl max bounds.maxY⟩ := by
  induction rest with
  | nil => exact fun bounds => rfl
  | cons v rest ih => exact fun bounds => ih (extendBounds bounds v)

theorem boundsForPointsUnchecked_eq_some_iff {points : List (IrregularPoint F)}
    {bounds : IrregularBounds F} :
    boundsForPointsUnchecked points = some bounds ↔
      (points.map (·.x)).min? = some bounds.minX ∧ (points.map (·.y)).min? = some bounds.minY ∧
        (points.map (·.x)).max? = some bounds.maxX ∧
        (points.map (·.y)).max? = some bounds.maxY := by
  cases points with
  | nil => simp [boundsForPointsUnchecked]
  | cons first rest =>
    simp only [boundsForPointsUnchecked, foldl_extendBounds, List.map_cons, List.min?_cons',
      List.max?_cons', Option.some.injEq]
    constructor
    · rintro rfl
      exact ⟨rfl, rfl, rfl, rfl⟩
    · rintro ⟨h1, h2, h3, h4⟩
      rw [h1, h2, h3, h4]

section Candidate

variable {points : List (IrregularPoint F)} {path : CanonicalGridPath} {t : F}
  {f : IrregularPoint F → F} {g : CanonicalGridPoint → ℤ}

/-- The least coordinate of the snapped points is the snapped least coordinate. -/
theorem min?_of_forall₂ (hgrid : MonotoneGrid F)
    (h : List.Forall₂ (fun p v => toGridMm (f p + t) = some (g v)) points path) {least : F}
    (hleast : (points.map f).min? = some least) :
    ∃ i, toGridMm (least + t) = some i ∧ (path.map g).min? = some i := by
  obtain ⟨hmem, hle⟩ := List.min?_eq_some_iff.1 hleast
  obtain ⟨p, hp, rfl⟩ := List.mem_map.1 hmem
  obtain ⟨v, hv, hpv⟩ := forall₂_exists h p hp
  refine ⟨g v, hpv, List.min?_eq_some_iff.2 ⟨List.mem_map_of_mem hv, fun b hb => ?_⟩⟩
  obtain ⟨w, hw, rfl⟩ := List.mem_map.1 hb
  obtain ⟨q, hq, hqw⟩ := forall₂_exists h.flip w hw
  exact hgrid _ _ t (hle _ (List.mem_map_of_mem hq)) _ _ hpv hqw

theorem max?_of_forall₂ (hgrid : MonotoneGrid F)
    (h : List.Forall₂ (fun p v => toGridMm (f p + t) = some (g v)) points path) {greatest : F}
    (hgreatest : (points.map f).max? = some greatest) :
    ∃ i, toGridMm (greatest + t) = some i ∧ (path.map g).max? = some i := by
  obtain ⟨hmem, hle⟩ := List.max?_eq_some_iff.1 hgreatest
  obtain ⟨p, hp, rfl⟩ := List.mem_map.1 hmem
  obtain ⟨v, hv, hpv⟩ := forall₂_exists h p hp
  refine ⟨g v, hpv, List.max?_eq_some_iff.2 ⟨List.mem_map_of_mem hv, fun b hb => ?_⟩⟩
  obtain ⟨w, hw, rfl⟩ := List.mem_map.1 hb
  obtain ⟨q, hq, hqw⟩ := forall₂_exists h.flip w hw
  exact hgrid _ _ t (hle _ (List.mem_map_of_mem hq)) _ _ hqw hpv

end Candidate

/-- **The snapped bounds are the bounds of the snapped candidate.** -/
theorem candidateAabb_eq_pathBounds (hgrid : MonotoneGrid F)
    {moving : TransformedCollisionGeometry F} {point : IrregularPoint F} {path : CanonicalGridPath}
    (hbounds : BoundsMatch moving) (hpath : candidatePath moving point = some path) :
    ∃ aabb, candidateAabb moving point = some aabb ∧ pathBounds path = some aabb := by
  have hsnapped := option_mapM_forall₂ hpath
  have hx : List.Forall₂ (fun p v => toGridMm (IrregularPoint.x p + point.x) =
      some (CanonicalGridPoint.x v)) moving.polygon.points path := by
    refine hsnapped.imp fun p v h => ?_
    obtain ⟨x, hx, h⟩ := Option.bind_eq_some_iff.1 h
    obtain ⟨y, -, h⟩ := Option.bind_eq_some_iff.1 h
    obtain rfl := Option.some.inj h
    exact hx
  have hy : List.Forall₂ (fun p v => toGridMm (IrregularPoint.y p + point.y) =
      some (CanonicalGridPoint.y v)) moving.polygon.points path := by
    refine hsnapped.imp fun p v h => ?_
    obtain ⟨x, -, h⟩ := Option.bind_eq_some_iff.1 h
    obtain ⟨y, hy, h⟩ := Option.bind_eq_some_iff.1 h
    obtain rfl := Option.some.inj h
    exact hy
  obtain ⟨h1, h2, h3, h4⟩ := boundsForPointsUnchecked_eq_some_iff.1 hbounds
  obtain ⟨minX, hminX, hpathMinX⟩ := min?_of_forall₂ hgrid hx h1
  obtain ⟨minY, hminY, hpathMinY⟩ := min?_of_forall₂ hgrid hy h2
  obtain ⟨maxX, hmaxX, hpathMaxX⟩ := max?_of_forall₂ hgrid hx h3
  obtain ⟨maxY, hmaxY, hpathMaxY⟩ := max?_of_forall₂ hgrid hy h4
  refine ⟨⟨minX, minY, maxX, maxY⟩, ?_,
    pathBounds_eq_some_iff.2 ⟨hpathMinX, hpathMinY, hpathMaxX, hpathMaxY⟩⟩
  unfold candidateAabb
  rw [hminX, hminY, hmaxX, hmaxY]
  rfl

/-- A path has points outside the box of a region and no area outside its solid. -/
def LeavesBySpike (path : CanonicalGridPath) (region : CanonicalIntrinsicGapRegion F) : Prop :=
  (∃ v ∈ path, ¬region.aabb.Holds v) ∧
    volume (gridFilled [path] \ gridFilled region.solid) = 0

theorem not_leavesBySpike_of_coversSides {path : CanonicalGridPath}
    {aabb : CanonicalIntrinsicGapRegionAabb} {region : CanonicalIntrinsicGapRegion F}
    (hbounds : pathBounds path = some aabb) (hcovers : CoversSides path aabb)
    (hregion : region.Boxed) : ¬LeavesBySpike path region := by
  rintro ⟨⟨v, hv, hout⟩, hzero⟩
  have hwithin := within_of_volume_eq_zero hcovers hregion hzero
  exact hout ((within_iff_of_pathBounds hbounds).1 hwithin v hv)

section Agreement

variable {booleanOpWithPolyTree : BooleanOp} {moving : TransformedCollisionGeometry F}
  {point : IrregularPoint F} {region : CanonicalIntrinsicGapRegion F} {path : CanonicalGridPath}

theorem contained_iff (hexact : ExactDifference booleanOpWithPolyTree)
    (hpath : candidatePath moving point = some path) :
    candidateContainedInIntrinsicGap booleanOpWithPolyTree moving point region = true ↔
      volume (gridFilled [path] \ gridFilled region.solid) = 0 := by
  unfold candidateContainedInIntrinsicGap
  rw [hpath, ← gridFilled_counterClockwise]
  exact decide_eq_true_iff.trans (hexact.area _ _)

theorem prechecked_iff (hgrid : MonotoneGrid F) (hbounds : BoundsMatch moving)
    (hpath : candidatePath moving point = some path) :
    candidateContainedInIntrinsicGapPrechecked booleanOpWithPolyTree moving point region = true ↔
      (∀ v ∈ path, region.aabb.Holds v) ∧
        candidateContainedInIntrinsicGap booleanOpWithPolyTree moving point region = true := by
  obtain ⟨aabb, haabb, hpathBounds⟩ := candidateAabb_eq_pathBounds hgrid hbounds hpath
  unfold candidateContainedInIntrinsicGapPrechecked
  rw [haabb, ← within_iff_of_pathBounds hpathBounds]
  exact Bool.and_eq_true_iff

end Agreement

/-- **The prefilter changes the answer exactly where the snapped candidate leaves the region's
box by spikes.**  The solids of the derived regions lie in their boxes, so that a candidate that
covers area at its sides has the same answer. -/
theorem candidateContainedInIntrinsicGapPrechecked_eq_iff {booleanOpWithPolyTree : BooleanOp}
    (hexact : ExactDifference booleanOpWithPolyTree) (hgrid : MonotoneGrid F) :
    (∀ (moving : TransformedCollisionGeometry F) (point : IrregularPoint F)
      (region : CanonicalIntrinsicGapRegion F), BoundsMatch moving →
      (candidateContainedInIntrinsicGapPrechecked booleanOpWithPolyTree moving point region =
          candidateContainedInIntrinsicGap booleanOpWithPolyTree moving point region ↔
        ∀ path, candidatePath moving point = some path → ¬LeavesBySpike path region)) ∧
    ∀ (numberToJsString : Number → String) (placed : List (IrregularPlacedPiece F)) regions,
      deriveCanonicalIntrinsicGapRegions numberToJsString booleanOpWithPolyTree placed =
        some regions →
      ∀ region ∈ regions, ∀ path aabb, pathBounds path = some aabb → CoversSides path aabb →
        ¬LeavesBySpike path region := by
  refine ⟨fun moving point region hbounds => ?_, fun numberToJsString placed regions hderive
    region hregion path aabb hpath hcovers => not_leavesBySpike_of_coversSides hpath hcovers
      (deriveCanonicalIntrinsicGapRegions_boxed hexact.nested hderive region hregion)⟩
  cases hpath : candidatePath moving point with
  | none =>
    -- a point that has no grid value fails both tests
    have hcontained : candidateContainedInIntrinsicGap booleanOpWithPolyTree moving point region =
        false := by
      unfold candidateContainedInIntrinsicGap
      rw [hpath]
    refine iff_of_true ?_ (by simp)
    unfold candidateContainedInIntrinsicGapPrechecked
    rw [hcontained]
    split
    · rfl
    · exact Bool.and_false _
  | some path =>
    have hcontained : candidateContainedInIntrinsicGap booleanOpWithPolyTree moving point region =
        true ↔ volume (gridFilled [path] \ gridFilled region.solid) = 0 := contained_iff hexact hpath
    have hprechecked : candidateContainedInIntrinsicGapPrechecked booleanOpWithPolyTree moving point
        region = true ↔ (∀ v ∈ path, region.aabb.Holds v) ∧
          candidateContainedInIntrinsicGap booleanOpWithPolyTree moving point region = true :=
      prechecked_iff hgrid hbounds hpath
    constructor
    · rintro heq _ ⟨⟩ ⟨⟨v, hv, hout⟩, hzero⟩
      exact hout ((hprechecked.1 (heq.trans (hcontained.2 hzero))).1 v hv)
    · intro hspike
      refine Bool.eq_iff_iff.2 ⟨fun h => (hprechecked.1 h).2, fun h => hprechecked.2 ⟨?_, h⟩⟩
      intro v hv
      by_contra hout
      exact hspike path rfl ⟨⟨v, hv, hout⟩, hcontained.1 h⟩

/-! ### A square and a needle in a slot -/

section Slot

/-- A difference that is exact about having area: no path, or some triangle. -/
noncomputable def exactBooleanOp : BooleanOp := fun _ subject clip _ =>
  open Classical in
  if volume (gridFilled subject \ gridFilled (clip.getD [])) = 0 then .node none []
  else .node none [.node (some [⟨0, 0⟩, ⟨1, 0⟩, ⟨0, 1⟩]) []]

theorem exactDifference_exactBooleanOp : ExactDifference exactBooleanOp where
  area subject clip := by
    by_cases h : volume (gridFilled subject \ gridFilled clip) = 0
    · have htree : exactBooleanOp .difference subject (some clip) .nonZero = .node none [] :=
        if_pos h
      rw [htree]
      exact ⟨fun _ => h, fun _ => by decide⟩
    · have htree : exactBooleanOp .difference subject (some clip) .nonZero =
          .node none [.node (some [⟨0, 0⟩, ⟨1, 0⟩, ⟨0, 1⟩]) []] := if_neg h
      rw [htree]
      exact ⟨fun harea => absurd harea (by decide), fun hzero => absurd hzero h⟩
  nested subject clip := by
    unfold exactBooleanOp
    split
    · simp [PolyTree.Nested, PolyTree.AllNested]
    · simp [PolyTree.Nested, PolyTree.AllNested]

theorem monotoneGrid_rat : MonotoneGrid ℚ := by
  intro a b t hab i j hi hj
  let _ : NumberTexts ℚ := ⟨fun _ => ""⟩
  exact toGridMm_mono (K := ℚ) (add_le_add_left hab t) hi hj

/-- A slot of almost a millimetre. -/
def slotBoundary : CanonicalGridPath := [⟨0, -20⟩, ⟨995, -20⟩, ⟨995, 20⟩, ⟨0, 20⟩]

def slotRegion : CanonicalIntrinsicGapRegion ℚ where
  kind := .enclosedCavity
  boundary := slotBoundary
  holes := []
  areaMm2 := 398 / 10000
  doubledAreaGrid2 := 79600
  aabb := ⟨0, -20, 995, 20⟩
  canonicalKey := canonicalRing slotBoundary ++ "|"

theorem solid_slotRegion : slotRegion.solid = [slotBoundary] := by
  decide

theorem slotRegion_boxed : slotRegion.Boxed := by
  intro path hpath v hv
  rw [solid_slotRegion] at hpath
  obtain rfl := List.mem_singleton.1 hpath
  exact holds_of_pathBounds (show pathBounds slotBoundary = some slotRegion.aabb by decide) hv

theorem mem_gridFilled_slot {p : ℝ × ℝ} (hleft : 0 ≤ p.1) (hlow : -20 ≤ p.2) (hright : p.1 < 995)
    (hhigh : p.2 < 20) : p ∈ gridFilled slotRegion.solid := by
  rw [solid_slotRegion]
  have hfilled := mem_filled_rectangle hleft hright hlow hhigh
  simpa [gridFilled, slotBoundary, gridPlanePoint] using hfilled

def slotCandidate (points : List (IrregularPoint ℚ)) (bounds : IrregularBounds ℚ) :
    TransformedCollisionGeometry ℚ where
  sourcePieceId := "candidate"
  transform := ⟨0, 0, false, .configured⟩
  polygon := ⟨points⟩
  bounds := bounds

/-- A square of ten grid units. -/
def squareCandidate : TransformedCollisionGeometry ℚ :=
  slotCandidate [⟨0, 0⟩, ⟨1 / 100, 0⟩, ⟨1 / 100, 1 / 100⟩, ⟨0, 1 / 100⟩] ⟨0, 0, 1 / 100, 1 / 100⟩

def squarePath : CanonicalGridPath := [⟨0, 0⟩, ⟨10, 0⟩, ⟨10, 10⟩, ⟨0, 10⟩]

theorem volume_pos_of_box {s : Set (ℝ × ℝ)} {a b c d : ℝ} (hab : a < b) (hcd : c < d)
    (h : ∀ p : ℝ × ℝ, a < p.1 → p.1 < b → c < p.2 → p.2 < d → p ∈ s) : 0 < volume s := by
  have hopen : IsOpen (Set.Ioo a b ×ˢ Set.Ioo c d) := isOpen_Ioo.prod isOpen_Ioo
  have hne : (Set.Ioo a b ×ˢ Set.Ioo c d).Nonempty :=
    (Set.nonempty_Ioo.2 hab).prod (Set.nonempty_Ioo.2 hcd)
  refine (hopen.measure_pos volume hne).trans_le (measure_mono fun p hp => ?_)
  exact h p hp.1.1 hp.1.2 hp.2.1 hp.2.2

theorem coversSides_square : CoversSides squarePath ⟨0, 0, 10, 10⟩ := by
  have hfilled : ∀ p : ℝ × ℝ, 0 ≤ p.1 → p.1 < 10 → 0 ≤ p.2 → p.2 < 10 →
      p ∈ gridFilled [squarePath] := by
    intro p hleft hright hlow hhigh
    have hrectangle := mem_filled_rectangle hleft hright hlow hhigh
    simpa [gridFilled, squarePath, gridPlanePoint] using hrectangle
  constructor
  · refine volume_pos_of_box (a := 0) (b := 1) (c := 0) (d := 10) (by norm_num) (by norm_num) ?_
    intro p h1 h2 h3 h4
    exact ⟨hfilled p h1.le (h2.trans (by norm_num)) h3.le h4, by simpa using h2⟩
  · refine volume_pos_of_box (a := 0) (b := 10) (c := 0) (d := 1) (by norm_num) (by norm_num) ?_
    intro p h1 h2 h3 h4
    exact ⟨hfilled p h1.le h2 h3.le (h4.trans (by norm_num)), by simpa using h4⟩
  · refine volume_pos_of_box (a := 9) (b := 10) (c := 0) (d := 10) (by norm_num) (by norm_num) ?_
    intro p h1 h2 h3 h4
    refine ⟨hfilled p (by linarith) h2 h3.le h4, ?_⟩
    show ((10 : ℤ) : ℝ) - 1 ≤ p.1
    push_cast
    linarith
  · refine volume_pos_of_box (a := 0) (b := 10) (c := 9) (d := 10) (by norm_num) (by norm_num) ?_
    intro p h1 h2 h3 h4
    refine ⟨hfilled p h1.le h2 (by linarith) h4, ?_⟩
    show ((10 : ℤ) : ℝ) - 1 ≤ p.2
    push_cast
    linarith

theorem candidatePath_square : candidatePath squareCandidate ⟨0, 0⟩ = some squarePath := by
  decide +kernel

theorem not_leavesBySpike_square : ¬LeavesBySpike squarePath slotRegion :=
  not_leavesBySpike_of_coversSides (by decide) coversSides_square slotRegion_boxed

theorem candidateContainedInIntrinsicGapPrechecked_eq_iff_square :
    candidateContainedInIntrinsicGapPrechecked exactBooleanOp squareCandidate ⟨0, 0⟩ slotRegion =
      candidateContainedInIntrinsicGap exactBooleanOp squareCandidate ⟨0, 0⟩ slotRegion := by
  have hbounds : BoundsMatch squareCandidate := by
    unfold BoundsMatch
    decide +kernel
  refine ((candidateContainedInIntrinsicGapPrechecked_eq_iff exactDifference_exactBooleanOp
    monotoneGrid_rat).1 squareCandidate ⟨0, 0⟩ slotRegion hbounds).2 fun path hpath => ?_
  obtain rfl := Option.some.inj (candidatePath_square.symm.trans hpath)
  exact not_leavesBySpike_square

/-- A convex needle of one millimetre.  Its flanks near the tip are three tenths of a grid unit
from the axis and snap onto it. -/
def needleCandidate : TransformedCollisionGeometry ℚ :=
  slotCandidate [⟨99 / 100, -3 / 10000⟩, ⟨1, 0⟩, ⟨99 / 100, 3 / 10000⟩, ⟨0, 2 / 100⟩, ⟨0, -2 / 100⟩]
    ⟨0, -2 / 100, 1, 2 / 100⟩

def needlePath : CanonicalGridPath := [⟨990, 0⟩, ⟨1000, 0⟩, ⟨990, 0⟩, ⟨0, 20⟩, ⟨0, -20⟩]

theorem candidatePath_needle : candidatePath needleCandidate ⟨0, 0⟩ = some needlePath := by
  decide +kernel

theorem gridFilled_needle_subset :
    gridFilled [needlePath] ⊆ gridFilled slotRegion.solid := by
  intro p hp
  have htriangle : p ∈ gridFilled [[⟨990, 0⟩, ⟨0, 20⟩, ⟨0, -20⟩]] := by
    unfold gridFilled needlePath at hp
    rwa [List.map_singleton, List.map_cons, List.map_cons, List.map_cons, filled_spike] at hp
  have hholds : ∀ path ∈ [[⟨990, 0⟩, ⟨0, 20⟩, ⟨0, -20⟩]], ∀ v ∈ path,
      CanonicalIntrinsicGapRegionAabb.Holds ⟨0, -20, 990, 20⟩ v := by
    intro path hpath v hv
    obtain rfl := List.mem_singleton.1 hpath
    exact holds_of_pathBounds (by decide) hv
  have hbox := mem_box_of_mem_gridFilled hholds htriangle
  push_cast at hbox
  exact mem_gridFilled_slot hbox.1 hbox.2.1 (by linarith [hbox.2.2.1]) hbox.2.2.2

/-- The tip of the needle snaps to a spike of no width that leaves the slot: the difference has
no area and the prefilter rejects. -/
theorem candidateContainedInIntrinsicGapPrechecked_needle :
    ExactDifference exactBooleanOp ∧ MonotoneGrid ℚ ∧ slotRegion.Boxed ∧
    BoundsMatch needleCandidate ∧
    candidateContainedInIntrinsicGap exactBooleanOp needleCandidate ⟨0, 0⟩ slotRegion = true ∧
    candidateContainedInIntrinsicGapPrechecked exactBooleanOp needleCandidate ⟨0, 0⟩ slotRegion =
      false := by
  refine ⟨exactDifference_exactBooleanOp, monotoneGrid_rat, slotRegion_boxed,
    by unfold BoundsMatch; decide +kernel, ?_, ?_⟩
  · unfold candidateContainedInIntrinsicGap
    rw [candidatePath_needle]
    refine decide_eq_true ((exactDifference_exactBooleanOp.area _ _).2 ?_)
    rw [gridFilled_counterClockwise, Set.sdiff_eq_empty.2 gridFilled_needle_subset, measure_empty]
  · have haabb : candidateAabb needleCandidate ⟨0, 0⟩ = some ⟨0, -20, 1000, 20⟩ := by
      decide +kernel
    unfold candidateContainedInIntrinsicGapPrechecked
    rw [haabb]
    exact Bool.and_eq_false_imp.2 fun h => absurd h (by decide)

end Slot

end PolygonNesting
