import PolygonNesting.Capacity.Quanta
import PolygonNesting.Search.BeamStateExact
import PolygonNesting.Search.GapRegionsLaw
import PolygonNesting.Search.TerminalOrientation

set_option linter.unusedSectionVars false

/-!
# The fit filter

The search drops a state whose span fits the sheet in neither orientation.  On the grid this
cheap test stands for the legality gate of the endpoint, a dropped state has no endpoint
whatever is placed later, and the span of a candidate is the span of the state it gives.
-/

namespace PolygonNesting

variable {K : Type} [Field K] [LinearOrder K] [IsStrictOrderedRing K] [FloorRing K]
  [NumberTexts K] {heap : ℕ → IrregularPlacedPiece K} {π : Type}
  {authority : LayoutAuthority heap} {state : IrregularBeamState heap π}
  {paths : List CanonicalGridPath}

/-! ## §1  The span -/

/-- Every coordinate is a safe integer. -/
def SafePaths (paths : List CanonicalGridPath) : Prop := ∀ path ∈ paths, ∀ p ∈ path, SafePoint p

theorem SafePaths.corners (h : SafePaths paths) (hne : paths.flatten ≠ []) :
    SafePoint (lowerLeft paths.flatten) ∧ SafePoint (upperRight paths.flatten) := by
  obtain ⟨-, ⟨l, hl, hleft⟩, ⟨b, hb, hbottom⟩, ⟨r, hr, hright⟩, ⟨t, ht, htop⟩⟩ :=
    framed_corners hne
  have hsafe : ∀ {p : CanonicalGridPoint}, p ∈ paths.flatten → SafePoint p := by
    intro p hp
    obtain ⟨path, hpath, hp⟩ := List.mem_flatten.1 hp
    exact h path hpath p hp
  unfold SafePoint
  rw [← hleft, ← hbottom, ← hright, ← htop]
  exact ⟨⟨(hsafe hl).1, (hsafe hb).2⟩, (hsafe hr).1, (hsafe ht).2⟩

/-- The span of a layout. -/
def spanOf (paths : List CanonicalGridPath) : IntrinsicCapacityGridSpan :=
  ⟨(extents paths.flatten).x, (extents paths.flatten).y⟩

theorem stateGridSpan_eq {minXMm minYMm maxXMm maxYMm : K} {minX minY maxX maxY : ℤ}
    (hbounds : state.translatedCollisionBounds =
      finiteCollisionBounds minXMm minYMm maxXMm maxYMm)
    (hminX : toGridMm minXMm = some minX) (hminY : toGridMm minYMm = some minY)
    (hmaxX : toGridMm maxXMm = some maxX) (hmaxY : toGridMm maxYMm = some maxY) :
    intrinsicCapacityStateGridSpan state = some ⟨maxX - minX, maxY - minY⟩ := by
  have hfinite : state.translatedCollisionBounds =
      some ⟨minXMm, minYMm, maxXMm, maxYMm, maxXMm - minXMm, maxYMm - minYMm⟩ := hbounds
  simp only [intrinsicCapacityStateGridSpan, hfinite, Option.bind_eq_bind, Option.bind_some,
    hminX, hminY, hmaxX, hmaxY]

theorem GridState.span_eq (h : GridState state paths)
    (hplaced : state.placedCollisionGeometries ≠ []) (hsafe : SafePaths paths) :
    intrinsicCapacityStateGridSpan state = some (spanOf paths) := by
  obtain ⟨hlower, hupper⟩ := hsafe.corners (h.layout.flatten_ne_nil hplaced)
  refine stateGridSpan_eq ?_ (toGridMm_fromGrid hlower.1) (toGridMm_fromGrid hlower.2)
    (toGridMm_fromGrid hupper.1) (toGridMm_fromGrid hupper.2)
  rw [h.bounds, h.layout.bounds hplaced, finiteCollisionBounds_grid]

/-! ## §2  The filter and the endpoint -/

/-- The span fits the sheet in some orientation. -/
def spanFitsSheet (span : IntrinsicCapacityGridSpan) (sheetWidthGrid sheetHeightGrid : ℤ) :
    Bool :=
  (intrinsicCapacitySpanFitsSheet span sheetWidthGrid sheetHeightGrid).1 ||
    (intrinsicCapacitySpanFitsSheet span sheetWidthGrid sheetHeightGrid).2

theorem spanFitsSheet_iff {width height : ℤ} :
    spanFitsSheet (spanOf paths) width height = true ↔
      ∃ turn, (turnExtents turn (extents paths.flatten)).x ≤ width ∧
        (turnExtents turn (extents paths.flatten)).y ≤ height := by
  unfold spanFitsSheet intrinsicCapacitySpanFitsSheet
  rw [Bool.or_eq_true, decide_eq_true_eq, decide_eq_true_eq, exists_turn_iff]
  exact Iff.rfl

theorem spanFitsSheet_eq_true_iff {sheet : SheetSpec K} {width height : ℤ}
    (hrigid : RigidVerdict (overlapsBy authority.intersection)) (hstrict : StrictPaths K paths)
    (hne : paths.flatten ≠ []) (hapart : Apart (overlapsBy authority.intersection) paths)
    (hwidth : toGridMm sheet.width = some width) (hheight : toGridMm sheet.height = some height) :
    spanFitsSheet (spanOf paths) width height = true ↔ FitsSomehow authority sheet paths := by
  have hlegal : ∀ turn, LegalAt authority sheet paths turn ↔
      (turnExtents turn (extents paths.flatten)).x ≤ width ∧
        (turnExtents turn (extents paths.flatten)).y ≤ height := by
    intro turn
    rw [legalAt_iff hrigid hstrict hne]
    constructor
    · rintro ⟨width', height', hwidth', hheight', hfits, -⟩
      obtain rfl := Option.some.inj (hwidth.symm.trans hwidth')
      obtain rfl := Option.some.inj (hheight.symm.trans hheight')
      exact hfits
    · exact fun hfits => ⟨width, height, hwidth, hheight, hfits, hapart⟩
  rw [spanFitsSheet_iff]
  exact exists_congr fun turn => (hlegal turn).symm

/-- What an endpoint needs besides a legal orientation: every measure of the state exists. -/
structure MeasurableState (authority : LayoutAuthority heap)
    (input : MaterializeIntrinsicCapacityEndpointInput heap π)
    (cache : IntrinsicCapacityCavityCache K) : Prop where
  cavities : (measureIntrinsicCapacityCavities authority input.state cache).1.isSome = true
  material : (sumMaterialAreas input.state.placementOrder
    input.materialAreasByPieceId).isSome = true
  envelope : ∀ turn oriented,
    input.state.withQuarterTurnBottomLeft authority.alloc turn = some oriented →
      (authority.measureCanonicalLayoutEnvelope
        (toOwnedPlaced oriented.placedCollisionGeometries)).isSome = true

/-- A selected orientation is one of the two turns of the state. -/
theorem exists_turn_of_selected {sheet : SheetSpec K} {selected : LegalOrientation heap π}
    (h : selectedOrientation authority sheet state = some selected) :
    ∃ turn, state.withQuarterTurnBottomLeft authority.alloc turn = some selected.oriented := by
  have hmem := List.mem_mergeSort.1 (List.mem_of_mem_head? h)
  obtain ⟨turn, -, hlegal⟩ := List.mem_filterMap.1 hmem
  unfold legalOrientation at hlegal
  obtain ⟨oriented, horiented, hlegal⟩ := Option.bind_eq_some_iff.1 hlegal
  refine ⟨turn, ?_⟩
  dsimp only at hlegal
  split at hlegal
  · cases hlegal
  · obtain ⟨identity, -, hlegal⟩ := Option.bind_eq_some_iff.1 hlegal
    rw [horiented, ← Option.some.inj hlegal]

theorem materialize_isSome_iff {input : MaterializeIntrinsicCapacityEndpointInput heap π}
    {cache : IntrinsicCapacityCavityCache K} (hplaced : input.state.placementOrder ≠ [])
    (hmeasurable : MeasurableState authority input cache) :
    (materializeIntrinsicCapacityEndpoint authority input cache).1.isSome = true ↔
      (selectedOrientation authority input.sheet input.state).isSome = true := by
  obtain ⟨cavities, hcavities⟩ := Option.isSome_iff_exists.1 hmeasurable.cavities
  obtain ⟨material, hmaterial⟩ := Option.isSome_iff_exists.1 hmeasurable.material
  constructor
  · intro hsome
    obtain ⟨endpoint, hendpoint⟩ := Option.isSome_iff_exists.1 hsome
    obtain ⟨selected, hselected, -⟩ := selected_of_materialize hplaced hendpoint
    rw [hselected]
    rfl
  · intro hsome
    obtain ⟨selected, hselected⟩ := Option.isSome_iff_exists.1 hsome
    obtain ⟨turn, hturn⟩ := exists_turn_of_selected hselected
    obtain ⟨envelope, henvelope⟩ :=
      Option.isSome_iff_exists.1 (hmeasurable.envelope turn _ hturn)
    rcases hmeasure : measureIntrinsicCapacityCavities authority input.state cache with
      ⟨_ | measured, cache'⟩
    · rw [hmeasure] at hcavities
      cases hcavities
    · unfold selectedOrientation at hselected
      unfold materializeIntrinsicCapacityEndpoint
      dsimp only
      rw [if_neg (by simpa using hplaced), hmeasure]
      dsimp only
      rw [hmaterial, hselected]
      dsimp only [Option.bind_eq_bind, Option.bind_some]
      rw [henvelope]
      rfl

/-- **The fit filter is sound and complete.**  For a state of strict rings on the grid that do
not overlap and can be measured, the span test accepts an orientation exactly when an endpoint
is made. -/
theorem materialize_isSome_iff_spanFits (hauthority : authority.Exact)
    (hrigid : RigidVerdict (overlapsBy authority.intersection))
    {input : MaterializeIntrinsicCapacityEndpointInput heap π}
    {cache : IntrinsicCapacityCavityCache K} (h : GridState input.state paths)
    (hpieces : input.state.placedCollisionGeometries ≠ [])
    (hplaced : input.state.placementOrder ≠ []) (hsafe : SafePaths paths)
    (hapart : Apart (overlapsBy authority.intersection) paths)
    (hmeasurable : MeasurableState authority input cache) {width height : ℤ}
    (hwidth : toGridMm input.sheet.width = some width)
    (hheight : toGridMm input.sheet.height = some height) :
    ∃ span, intrinsicCapacityStateGridSpan input.state = some span ∧
      (spanFitsSheet span width height = true ↔
        (materializeIntrinsicCapacityEndpoint authority input cache).1.isSome = true) := by
  refine ⟨spanOf paths, h.span_eq hpieces hsafe, ?_⟩
  rw [spanFitsSheet_eq_true_iff hrigid h.layout.strict (h.layout.flatten_ne_nil hpieces) hapart
    hwidth hheight, materialize_isSome_iff hplaced hmeasurable]
  rw [← Option.isSome_map, selectedOrientation_map hauthority h,
    ← Option.isSome_map (f := fun chosen => chosen.canonicalHash), Option.isSome_iff_exists]
  simp only [selectedHash_eq_some_iff hauthority h, exists_and_left, exists_eq, and_true]

/-! ## §3  Further placements -/

/-- One more piece on the grid. -/
theorem GridState.withPlacement (h : GridState state paths) {arc : PlacedArc heap}
    {path : CanonicalGridPath} (harc : PolygonOnGrid arc.piece path)
    (hstrict : ∃ w, IsStrictRing (path.map (Caches.gridPointMm (F := K))) w)
    (remaining : List π) (pieceId : PieceId) :
    GridState (state.withPlacement remaining arc pieceId) (paths ++ [path]) where
  layout :=
    { onGrid := List.rel_append h.layout.onGrid (.cons harc .nil)
      strict := List.forall_mem_append.2 ⟨h.layout.strict, List.forall_mem_singleton.2 hstrict⟩ }
  bounds := by
    have hbounds := deriveCollisionBounds_append state.placedCollisionGeometries arc
    rw [← h.bounds] at hbounds
    exact hbounds.symm

/-- The piece of an operation, if it places one, is a strict ring on the grid. -/
def OperationOnGrid (operation : BeamOperation heap π) : Prop :=
  ∀ arc, operation.placed? = some arc → ∃ path, PolygonOnGrid arc.piece path ∧
    ∃ w, IsStrictRing (path.map (Caches.gridPointMm (F := K))) w

theorem GridState.apply (h : GridState state paths) {operation : BeamOperation heap π}
    (hoperation : OperationOnGrid operation) :
    ∃ more, GridState (state.apply operation) (paths ++ more) := by
  cases operation with
  | withPlacement remaining placed pieceId =>
      obtain ⟨path, hpath, hstrict⟩ := hoperation placed rfl
      exact ⟨[path], h.withPlacement hpath hstrict remaining pieceId⟩
  | withUnplacedPiece remaining pieceId =>
      refine ⟨[], ?_⟩
      rw [List.append_nil]
      exact ⟨h.layout, h.bounds⟩

/-- A run from a state on the grid adds paths to its layout. -/
theorem GridState.foldl_apply (h : GridState state paths)
    {operations : List (BeamOperation heap π)} :
    (∀ operation ∈ operations, OperationOnGrid operation) →
      ∃ more, GridState (operations.foldl IrregularBeamState.apply state) (paths ++ more) := by
  induction operations using List.reverseRecOn with
  | nil => exact fun _ => ⟨[], by rwa [List.append_nil]⟩
  | append_singleton operations operation ih =>
      intro hoperations
      obtain ⟨more, hmore⟩ := ih fun other hother =>
        hoperations other (List.mem_append_left _ hother)
      obtain ⟨last, hlast⟩ := hmore.apply (hoperations operation (by simp))
      rw [List.append_assoc] at hlast
      rw [List.foldl_append]
      exact ⟨more ++ last, hlast⟩

/-- More paths have no smaller extents. -/
theorem extents_le_append {points more : List CanonicalGridPoint} (hne : points ≠ []) :
    (extents points).x ≤ (extents (points ++ more)).x ∧
      (extents points).y ≤ (extents (points ++ more)).y := by
  by_cases hmore : more = []
  · rw [hmore, List.append_nil]
    exact ⟨le_rfl, le_rfl⟩
  · unfold extents
    rw [lowerLeft_append hne hmore, upperRight_append hne hmore]
    have hx := min_le_left (lowerLeft points).x (lowerLeft more).x
    have hy := min_le_left (lowerLeft points).y (lowerLeft more).y
    have hx' := le_max_left (upperRight points).x (upperRight more).x
    have hy' := le_max_left (upperRight points).y (upperRight more).y
    exact ⟨sub_le_sub hx' hx, sub_le_sub hy' hy⟩

theorem spanFitsSheet_of_append {more : List CanonicalGridPath} (hne : paths.flatten ≠ [])
    {width height : ℤ} (h : spanFitsSheet (spanOf (paths ++ more)) width height = true) :
    spanFitsSheet (spanOf paths) width height = true := by
  obtain ⟨hx, hy⟩ := @extents_le_append _ more.flatten hne
  obtain ⟨turn, hfits⟩ := spanFitsSheet_iff.1 h
  rw [List.flatten_append] at hfits
  refine spanFitsSheet_iff.2 ⟨turn, ?_⟩
  cases turn with
  | zero => exact ⟨hx.trans hfits.1, hy.trans hfits.2⟩
  | ninety => exact ⟨hy.trans hfits.1, hx.trans hfits.2⟩

/-- A layout whose span does not fit is legal in no orientation. -/
theorem spanFits_of_fitsSomehow {sheet : SheetSpec K} {width height : ℤ}
    (hwidth : toGridMm sheet.width = some width) (hheight : toGridMm sheet.height = some height)
    (hne : paths.flatten ≠ []) (h : FitsSomehow authority sheet paths) :
    spanFitsSheet (spanOf paths) width height = true := by
  obtain ⟨turn, width', height', hwidth', hheight', hbox, -⟩ := h
  obtain rfl := Option.some.inj (hwidth.symm.trans hwidth')
  obtain rfl := Option.some.inj (hheight.symm.trans hheight')
  have hinside : InBox width height
      (paths.flatten.map (moveGrid turn (anchoring turn paths.flatten))) := by
    rw [anchored_turned_eq hne, moved] at hbox
    rw [List.map_flatten]
    intro p hp
    obtain ⟨path, hpath, hp⟩ := List.mem_flatten.1 hp
    exact hbox path hpath p hp
  exact spanFitsSheet_iff.2 ⟨turn, (framed_anchoring hne turn).inBox_iff.1 hinside⟩

/-- **A rejected state stays rejected.**  Once the span fits the sheet in no orientation, no
state that any further operations lead to has an endpoint. -/
theorem materialize_eq_none_of_rejected (hauthority : authority.Exact) (h : GridState state paths)
    (hpieces : state.placedCollisionGeometries ≠ []) (hsafe : SafePaths paths)
    {sheet : SheetSpec K} {width height : ℤ} (hwidth : toGridMm sheet.width = some width)
    (hheight : toGridMm sheet.height = some height)
    (hrejected : ∀ span, intrinsicCapacityStateGridSpan state = some span →
      spanFitsSheet span width height = false)
    {operations : List (BeamOperation heap π)}
    (hoperations : ∀ operation ∈ operations, OperationOnGrid operation)
    {input : MaterializeIntrinsicCapacityEndpointInput heap π} (hsheet : input.sheet = sheet)
    (hstate : input.state = operations.foldl IrregularBeamState.apply state)
    (hplaced : input.state.placementOrder ≠ []) (cache : IntrinsicCapacityCavityCache K) :
    (materializeIntrinsicCapacityEndpoint authority input cache).1 = none := by
  obtain ⟨more, hmore⟩ := h.foldl_apply hoperations
  rw [← hstate] at hmore
  have hne := h.layout.flatten_ne_nil hpieces
  have hne' : (paths ++ more).flatten ≠ [] := by
    rw [List.flatten_append]
    exact List.append_ne_nil_of_left_ne_nil hne _
  by_contra hendpoint
  obtain ⟨endpoint, hendpoint⟩ := Option.ne_none_iff_exists'.1 hendpoint
  obtain ⟨selected, hselected, -⟩ := selected_of_materialize hplaced hendpoint
  have hmap := selectedOrientation_map hauthority hmore input.sheet
  rw [hselected, hsheet] at hmap
  have hfits : FitsSomehow authority sheet (paths ++ more) :=
    ((selectedHash_eq_some_iff hauthority hmore sheet).1 (by rw [← hmap]; rfl)).1
  have hspan := spanFitsSheet_of_append hne (spanFits_of_fitsSomehow hwidth hheight hne' hfits)
  rw [hrejected _ (h.span_eq hpieces hsafe)] at hspan
  cases hspan

/-! ## §4  The span of a candidate -/

/-- Bounds moved by a translation. -/
def shiftBounds (t : IrregularPoint K) (bounds : IrregularBounds K) : IrregularBounds K :=
  ⟨bounds.minX + t.x, bounds.minY + t.y, bounds.maxX + t.x, bounds.maxY + t.y⟩

theorem foldl_extendBounds_translate (t : IrregularPoint K) (rest : List (IrregularPoint K)) :
    ∀ bounds : IrregularBounds K,
      (rest.map (translatePoint t)).foldl extendBounds (shiftBounds t bounds) =
        shiftBounds t (rest.foldl extendBounds bounds) := by
  induction rest with
  | nil => exact fun _ => rfl
  | cons point rest ih =>
      intro bounds
      rw [List.map_cons, List.foldl_cons, List.foldl_cons, ← ih]
      congr 1
      unfold extendBounds shiftBounds translatePoint
      simp only [min_add_add_right, max_add_add_right]

/-- The bounds of a placed geometry are its own, moved. -/
theorem derivePlacedCollisionBounds_eq {placement : IrregularPlacement K}
    {moving : TransformedCollisionGeometry K} (hbounds : BoundsMatch moving) :
    derivePlacedCollisionBounds ⟨placement, moving⟩ =
      finiteCollisionBounds (moving.bounds.minX + placement.transform.translateX)
        (moving.bounds.minY + placement.transform.translateY)
        (moving.bounds.maxX + placement.transform.translateX)
        (moving.bounds.maxY + placement.transform.translateY) := by
  unfold BoundsMatch at hbounds
  unfold derivePlacedCollisionBounds
  dsimp only
  cases hpoints : moving.polygon.points with
  | nil =>
      rw [hpoints] at hbounds
      cases hbounds
  | cons first rest =>
      rw [hpoints] at hbounds
      rw [List.map_cons]
      dsimp only
      have hfinite : (translatePoint (placedTranslation ⟨placement, moving⟩) first ::
          rest.map (translatePoint (placedTranslation ⟨placement, moving⟩))).all
            isFinitePoint = true := List.all_eq_true.2 fun _ _ => rfl
      have hfold := foldl_extendBounds_translate (placedTranslation ⟨placement, moving⟩) rest
        ⟨first.x, first.y, first.x, first.y⟩
      rw [Option.some.inj hbounds] at hfold
      rw [if_pos hfinite]
      unfold shiftBounds at hfold
      unfold translatePoint at hfold ⊢
      rw [hfold]
      rfl

variable {context : DepthContext heap} {entry : CapacityEntry heap}
  {moving : TransformedCollisionGeometry K} {candidate : IrregularPlacementCandidate K}
  {evaluated : EvaluatedCandidateReference K}

/-- **The span of a candidate is the span of the state it gives.** -/
theorem span_placedState (halloc : ∀ piece, (context.subsystems.alloc piece).piece = piece)
    (hbounds : BoundsMatch moving) {transformOrdinal : ℕ}
    (h : evaluateCandidate entry moving candidate transformOrdinal = some evaluated) :
    intrinsicCapacityStateGridSpan (context.placedState entry evaluated) =
      some ⟨evaluated.widthGrid, evaluated.heightGrid⟩ := by
  unfold evaluateCandidate at h
  obtain ⟨parent, hparent, h⟩ := Option.bind_eq_some_iff.1 h
  obtain ⟨minX, hminX, h⟩ := Option.bind_eq_some_iff.1 h
  obtain ⟨minY, hminY, h⟩ := Option.bind_eq_some_iff.1 h
  obtain ⟨maxX, hmaxX, h⟩ := Option.bind_eq_some_iff.1 h
  obtain ⟨maxY, hmaxY, h⟩ := Option.bind_eq_some_iff.1 h
  obtain ⟨gridX, -, h⟩ := Option.bind_eq_some_iff.1 h
  obtain ⟨gridY, -, h⟩ := Option.bind_eq_some_iff.1 h
  obtain rfl := Option.some.inj h
  have hplaced : derivePlacedCollisionBounds
      (context.subsystems.alloc ⟨context.makeCapacityPlacement candidate, moving⟩).piece =
        finiteCollisionBounds (moving.bounds.minX + candidate.point.x)
          (moving.bounds.minY + candidate.point.y) (moving.bounds.maxX + candidate.point.x)
          (moving.bounds.maxY + candidate.point.y) := by
    rw [halloc]
    exact derivePlacedCollisionBounds_eq hbounds
  refine stateGridSpan_eq ?_ hminX hminY hmaxX hmaxY
  show (if entry.state.placedCollisionGeometries.isEmpty then derivePlacedCollisionBounds _
    else extendCollisionBounds entry.state.translatedCollisionBounds _) = _
  cases entry.state.placedCollisionGeometries.isEmpty with
  | true => exact hplaced
  | false =>
      show extendCollisionBounds entry.state.translatedCollisionBounds _ = _
      unfold extendCollisionBounds
      rw [hparent, hplaced]
      rfl

/-! ## §5  The second check -/

/-- Anchoring never fails in exact arithmetic, so every state has an anchored key. -/
theorem exists_anchoredKey (state : IrregularBeamState heap π) :
    ∃ key, state.bottomLeftAnchoredCanonicalOccupiedGeometryKey = some key := by
  have hmoved : ∀ (x y : K) (placed : List (PlacedArc heap)),
      ∃ moved, (placed.mapM fun arc => shiftPlaced x y arc.piece) = some moved := by
    intro x y placed
    induction placed with
    | nil => exact ⟨[], rfl⟩
    | cons arc placed ih =>
        obtain ⟨moved, hmoved⟩ := ih
        rw [List.mapM_cons, hmoved]
        exact ⟨_, rfl⟩
  unfold IrregularBeamState.bottomLeftAnchoredCanonicalOccupiedGeometryKey
  split
  · exact ⟨_, rfl⟩
  · split
    · exact ⟨_, rfl⟩
    · next bounds _ _ =>
        obtain ⟨moved, hmoved⟩ :=
          hmoved (-bounds.minX) (-bounds.minY) state.placedCollisionGeometries
        rw [hmoved]
        exact ⟨_, rfl⟩

/-- The reference passed the first check, for a geometry with its own bounds. -/
def Scored (context : DepthContext heap) (entry : CapacityEntry heap)
    (reference : EvaluatedCandidateReference K) : Prop :=
  ∃ moving transformOrdinal candidate, BoundsMatch moving ∧
    context.evaluateCandidateOutcome entry moving transformOrdinal candidate =
      .ok (.scored reference)

/-- What a scored reference is built to. -/
def builtEntry (context : DepthContext heap) (entry : CapacityEntry heap)
    (reference : EvaluatedCandidateReference K) (key : String) : CapacityEntry heap :=
  ⟨context.placedState entry reference, entry.placedDoubledMaterialAreaGrid2 +
    context.pieceMaterial, key, ⟨reference.widthGrid, reference.heightGrid⟩, noCavities⟩

section

variable (halloc : ∀ piece, (context.subsystems.alloc piece).piece = piece)

include halloc

/-- **What the first check scores the second accepts**: the reference is always pushed. -/
theorem buildReference_of_scored {reference : EvaluatedCandidateReference K}
    (h : Scored context entry reference) :
    ∃ key, (context.placedState entry
        reference).bottomLeftAnchoredCanonicalOccupiedGeometryKey = some key ∧
      ∀ expansion, context.buildReference entry reference expansion =
        context.pushSuccessor expansion (builtEntry context entry reference key) := by
  obtain ⟨moving, transformOrdinal, candidate, hbounds, houtcome⟩ := h
  obtain ⟨key, hkey⟩ := exists_anchoredKey (context.placedState entry reference)
  refine ⟨key, hkey, fun expansion => ?_⟩
  unfold DepthContext.evaluateCandidateOutcome at houtcome
  split at houtcome
  · cases houtcome
  · next evaluated hevaluated =>
      dsimp only at houtcome
      split at houtcome
      · cases houtcome
      · next hfits =>
          -- the contact length is all that is added to what was evaluated
          have hsame : context.placedState entry reference =
                context.placedState entry evaluated ∧
              reference.widthGrid = evaluated.widthGrid ∧
              reference.heightGrid = evaluated.heightGrid := by
            split at houtcome
            · obtain ⟨lengthMm, -, houtcome⟩ := except_bind_eq_ok houtcome
              cases houtcome
              exact ⟨rfl, rfl, rfl⟩
            · cases houtcome
              exact ⟨rfl, rfl, rfl⟩
          obtain ⟨hplaced, hwidth, hheight⟩ := hsame
          have hspan := span_placedState halloc hbounds hevaluated
          rw [← hplaced, ← hwidth, ← hheight] at hspan
          rw [← hwidth, ← hheight] at hfits
          unfold DepthContext.buildReference
          dsimp only
          rw [hspan]
          dsimp only
          rw [if_neg hfits, hkey]
          rfl

/-- The candidates that were rejected. -/
def rejections (expansion : DepthExpansion heap) : ℕ :=
  expansion.counters.fitRejectedCandidates + expansion.counters.invalidCandidates

/-- What was rejected and what was consumed. -/
def accounts (expansion : DepthExpansion heap) : ℕ × ℕ :=
  (rejections expansion, expansion.consumedPlacementEvaluations)

omit halloc in
theorem accounts_pushSuccessor (expansion : DepthExpansion heap)
    (successor : CapacityEntry heap) :
    accounts (context.pushSuccessor expansion successor).1 = accounts expansion := by
  unfold DepthContext.pushSuccessor
  dsimp only
  split
  · rfl
  · rfl

theorem accounts_buildReference {reference : EvaluatedCandidateReference K}
    (h : Scored context entry reference) (expansion : DepthExpansion heap) :
    accounts (context.buildReference entry reference expansion).1 = accounts expansion := by
  obtain ⟨key, -, hbuild⟩ := buildReference_of_scored halloc h
  rw [hbuild]
  exact accounts_pushSuccessor expansion _

theorem accounts_buildCompact {scored : List (EvaluatedCandidateReference K)} :
    (∀ reference ∈ scored, Scored context entry reference) →
      ∀ (builtCount : ℕ) (keys : List String) (expansion : DepthExpansion heap),
        accounts (context.buildCompact entry scored builtCount keys expansion).1 =
          accounts expansion := by
  induction scored with
  | nil => exact fun _ _ _ _ => rfl
  | cons reference scored ih =>
      intro hscored builtCount keys expansion
      obtain ⟨hreference, hrest⟩ := List.forall_mem_cons.1 hscored
      unfold DepthContext.buildCompact
      split
      · rfl
      · exact (ih hrest _ _ _).trans (accounts_buildReference halloc hreference expansion)

theorem accounts_buildContact {scored : List (EvaluatedCandidateReference K)}
    (hscored : ∀ reference ∈ scored, Scored context entry reference) (keys : List String)
    (expansion : DepthExpansion heap) :
    accounts (context.buildContact entry scored keys expansion) = accounts expansion := by
  unfold DepthContext.buildContact
  split
  · dsimp only
    split
    · rfl
    · next reference hreference =>
        have hmem := List.mem_mergeSort.1 (List.mem_of_mem_head? hreference)
        exact accounts_buildReference halloc
          (hscored reference (List.mem_filter.1 hmem).1) expansion
  · rfl

end

/-- Where the evaluation of an entry stands: the references scored so far, and each rejection
and each score accounted for by an evaluation of its own. -/
structure Evaluating (context : DepthContext heap) (entry : CapacityEntry heap) (r c : ℕ)
    (expansion : DepthExpansion heap) (scored : List (EvaluatedCandidateReference K)) : Prop where
  all_scored : ∀ reference ∈ scored, Scored context entry reference
  accounted : rejections expansion + scored.length + c ≤
    r + expansion.consumedPlacementEvaluations

theorem Evaluating.evaluateCandidates {r c : ℕ} {transformOrdinal : ℕ}
    (hbounds : BoundsMatch moving) {candidates : List (IrregularPlacementCandidate K)} :
    ∀ {expansion expansion' : DepthExpansion heap}
      {scored scored' : List (EvaluatedCandidateReference K)},
      Evaluating context entry r c expansion scored →
      context.evaluateCandidates entry moving transformOrdinal candidates expansion scored =
          .ok (expansion', scored') →
        Evaluating context entry r c expansion' scored' := by
  induction candidates with
  | nil =>
      intro expansion expansion' scored scored' h hok
      cases hok
      exact h
  | cons candidate candidates ih =>
      intro expansion expansion' scored scored' h hok
      have haccounted := h.accounted
      unfold DepthContext.evaluateCandidates at hok
      split at hok
      · cases hok
        exact ⟨h.all_scored, h.accounted⟩
      · split at hok
        · cases hok
        · refine ih ⟨h.all_scored, ?_⟩ hok
          simp only [rejections, DepthExpansion.countInvalid, DepthExpansion.consume]
            at haccounted ⊢
          omega
        · refine ih ⟨h.all_scored, ?_⟩ hok
          simp only [rejections, DepthExpansion.countFitRejected, DepthExpansion.consume]
            at haccounted ⊢
          omega
        · next evaluated houtcome =>
            refine ih ⟨fun reference hreference => ?_, ?_⟩ hok
            · rcases List.mem_append.1 hreference with hreference | hreference
              · exact h.all_scored reference hreference
              · rw [List.mem_singleton.1 hreference]
                exact ⟨moving, transformOrdinal, candidate, hbounds, houtcome⟩
            · simp only [rejections, DepthExpansion.consume, List.length_append,
                List.length_singleton] at haccounted ⊢
              omega

/-- Every resolved geometry has the bounds of its polygon. -/
def ResolvesBounds (subsystems : SearchSubsystems heap) : Prop :=
  ∀ geometry transform moving,
    subsystems.resolveTransformedCollisionGeometry geometry transform = .ok moving →
      BoundsMatch moving

theorem Evaluating.evaluateTransforms {r c : ℕ} (hresolve : ResolvesBounds context.subsystems)
    {transforms : List (IrregularTransformCandidate K × ℕ)} :
    ∀ {expansion expansion' : DepthExpansion heap}
      {scored scored' : List (EvaluatedCandidateReference K)},
      Evaluating context entry r c expansion scored →
      context.evaluateTransforms entry transforms expansion scored = .ok (expansion', scored') →
        Evaluating context entry r c expansion' scored' := by
  induction transforms with
  | nil =>
      intro expansion expansion' scored scored' h hok
      cases hok
      exact h
  | cons transform transforms ih =>
      intro expansion expansion' scored scored' h hok
      unfold DepthContext.evaluateTransforms at hok
      split at hok
      · cases hok
        exact h
      · obtain ⟨moving, hmoving, hok⟩ := except_bind_eq_ok hok
        obtain ⟨candidates, -, hok⟩ := except_bind_eq_ok hok
        obtain ⟨⟨evaluated, scored₁⟩, hevaluated, hok⟩ := except_bind_eq_ok hok
        unfold transformCollisionGeometry at hmoving
        split at hmoving
        · next resolved hresolved =>
            have hbounds := hresolve _ _ _ hresolved
            rw [Except.ok.inj hmoving] at hbounds
            exact ih (h.evaluateCandidates hbounds hevaluated) hok
        · cases hmoving

/-- **No candidate is rejected twice.**  Over a whole depth the rejections grow by at most the
evaluations: every reference that the first check scores is built, with the span it was scored
with, and the second check of the built state adds no rejection. -/
theorem expandEntries_rejections
    (halloc : ∀ piece, (context.subsystems.alloc piece).piece = piece)
    (hresolve : ResolvesBounds context.subsystems) {beam : List (CapacityEntry heap)} :
    ∀ {expansion expansion' : DepthExpansion heap},
      context.expandEntries beam expansion = .ok expansion' →
        rejections expansion' + expansion.consumedPlacementEvaluations ≤
          rejections expansion + expansion'.consumedPlacementEvaluations := by
  induction beam with
  | nil =>
      intro expansion expansion' hok
      cases hok
      exact le_rfl
  | cons entry beam ih =>
      intro expansion expansion' hok
      unfold DepthContext.expandEntries at hok
      split at hok
      · cases hok
        exact le_rfl
      · obtain ⟨⟨evaluated, scored⟩, hevaluated, hok⟩ := except_bind_eq_ok hok
        have hstart : Evaluating context entry (rejections expansion)
            expansion.consumedPlacementEvaluations expansion [] :=
          ⟨fun _ hreference => absurd hreference List.not_mem_nil, by simp⟩
        have hdone := hstart.evaluateTransforms hresolve hevaluated
        have hscored : ∀ reference ∈ scored.mergeSort
            (sortLe compareScoredCandidateReferences), Scored context entry reference :=
          fun reference hreference => hdone.all_scored reference (List.mem_mergeSort.1 hreference)
        have haccounted := hdone.accounted
        obtain ⟨hrejected, hconsumed⟩ := Prod.mk.inj
          ((accounts_buildContact halloc hscored _ _).trans
            (accounts_buildCompact halloc hscored 0 [] evaluated))
        have hrest := ih hok
        rw [hrejected, hconsumed] at hrest
        omega

/-! ## §6  A square on a sheet -/

section SquareOnSheet

attribute [local instance] Caches.fractionTexts Caches.exactFractions

noncomputable def uprightInput (sheet : SheetSpec ℚ) (state : IrregularBeamState everyPiece PieceId) :
    MaterializeIntrinsicCapacityEndpointInput everyPiece PieceId :=
  ⟨sheet, state, [], .coldSearch, none, none, fun _ => some 2⟩

theorem safePaths_upright : SafePaths [uprightPath] := by
  refine List.forall_mem_singleton.2 ?_
  unfold SafePoint
  decide +kernel

theorem cavities_upright :
    (measureIntrinsicCapacityCavities squareAuthority uprightState ∅).1.isSome = true := by
  obtain ⟨key, hkey⟩ := exists_anchoredKey uprightState
  unfold measureIntrinsicCapacityCavities
  rw [if_neg (show ¬uprightState.placedCollisionGeometries.isEmpty = true from
    Bool.false_ne_true), hkey]
  rfl

theorem measurable_upright :
    MeasurableState squareAuthority (uprightInput roomySheet uprightState) ∅ where
  cavities := cavities_upright
  material := rfl
  envelope _ _ _ := rfl

theorem materialize_isSome_iff_spanFits_square :
    ∃ span, intrinsicCapacityStateGridSpan uprightState = some span ∧
      (spanFitsSheet span 2000 1000 = true ↔
        (materializeIntrinsicCapacityEndpoint squareAuthority
          (uprightInput roomySheet uprightState) ∅).1.isSome = true) :=
  materialize_isSome_iff_spanFits squareAuthority_exact rigidVerdict_exactIntersection
    gridState_square (by exact List.cons_ne_nil _ _) (by exact List.cons_ne_nil _ _)
    safePaths_upright (List.pairwise_singleton _ _) measurable_upright (by decide +kernel)
    (by decide +kernel)

/-- Half a millimetre each way. -/
def tinySheet : SheetSpec ℚ := ⟨1 / 2, 1 / 2, "tiny"⟩

noncomputable def secondSquare : BeamOperation everyPiece PieceId :=
  .withPlacement [] (newArc (squarePlacedAt 7)) "second"

theorem materialize_eq_none_of_rejected_square :
    (materializeIntrinsicCapacityEndpoint squareAuthority
      (uprightInput tinySheet ([secondSquare].foldl IrregularBeamState.apply uprightState))
        ∅).1 = none := by
  refine materialize_eq_none_of_rejected squareAuthority_exact gridState_square
    (by exact List.cons_ne_nil _ _) safePaths_upright
    (show toGridMm tinySheet.width = some 500 by decide +kernel)
    (show toGridMm tinySheet.height = some 500 by decide +kernel) ?_ ?_ rfl rfl
    (by exact List.cons_ne_nil _ _) ∅
  · intro span hspan
    rw [gridState_square.span_eq (by exact List.cons_ne_nil _ _) safePaths_upright] at hspan
    rw [← Option.some.inj hspan]
    decide +kernel
  · refine List.forall_mem_singleton.2 fun arc harc => ?_
    obtain rfl := Option.some.inj harc
    refine ⟨[⟨7000, 0⟩, ⟨8000, 0⟩, ⟨8000, 1000⟩, ⟨7000, 1000⟩], ?_, 1,
      validateStrictBoundary_eq_valid_iff.1 ?_⟩
    · unfold PolygonOnGrid
      rw [piece_newArc]
      decide +kernel
    · decide +kernel

/-- One square to place on the sheet. -/
noncomputable def squareContext : DepthContext everyPiece where
  subsystems :=
    { squareAuthority with
      resolveTransformedCollisionGeometry := fun geometry transform =>
        .ok (unitSquare geometry.sourcePieceId transform)
      generatePlacementCandidates := fun _ _ _ => .ok []
      sharedCollisionBoundaryLengthMm := fun _ _ _ => .ok 0
      measureCanonicalLayoutTopologyExact := fun _ => none
      jsonString := fun text => text }
  input := ⟨roomySheet, [squarePiece "a"], fun _ => some 2, none, none, none, none⟩
  sheetWidthGrid := 2000
  sheetHeightGrid := 1000
  piece := squarePiece "a"
  pieceMaterial := 2
  remainingPreparedPieces := []

noncomputable def emptyEntry : CapacityEntry everyPiece :=
  ⟨IrregularBeamState.empty [squarePiece "a"], 0, "", ⟨0, 0⟩, noCavities⟩

noncomputable def freshExpansion : DepthExpansion everyPiece := ⟨[], {}, 0, 0, false⟩

theorem resolvesBounds_square : ResolvesBounds squareContext.subsystems := by
  intro geometry transform moving hmoving
  rw [← Except.ok.inj hmoving]
  show boundsForPointsUnchecked [⟨0, 0⟩, ⟨1, 0⟩, ⟨1, 1⟩, ⟨0, 1⟩] = some (⟨0, 0, 1, 1⟩ :
    IrregularBounds ℚ)
  decide +kernel

theorem expandEntries_rejections_square :
    ∃ expansion', squareContext.expandEntries [emptyEntry] freshExpansion = .ok expansion' ∧
      rejections expansion' + 0 ≤ 0 + expansion'.consumedPlacementEvaluations := by
  have hok : (squareContext.expandEntries [emptyEntry] freshExpansion).toOption.isSome = true := by
    decide +kernel
  cases hexpansion : squareContext.expandEntries [emptyEntry] freshExpansion with
  | error e =>
      rw [hexpansion] at hok
      cases hok
  | ok expansion' =>
      exact ⟨expansion', rfl, expandEntries_rejections piece_newArc resolvesBounds_square
        hexpansion⟩

end SquareOnSheet

end PolygonNesting
