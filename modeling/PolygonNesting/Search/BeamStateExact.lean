import Mathlib.Data.List.Induction
import Mathlib.Data.List.Sort
import PolygonNesting.Search.BeamState
import PolygonNesting.Validation.Placement

/-!
# The incremental beam state is the state from scratch

Every transition updates six summaries of its parent; `fromInput` derives them
from the list of placed pieces.  One step lemma for each summary says that the
update of a derived summary is the derived summary of the longer list, and a
run of transitions from the empty state is therefore `fromInput` of its lists.

The step that needs an argument is the shared boundary: the transition measures
the new piece against what the spatial index returns, the derivation against
every earlier entry.  The entries the index leaves out have disjoint bounds, so
their contact is nothing and adding it changes no sum.
-/

namespace PolygonNesting

variable {F : Type} [LinearOrder F] [Zero F] [One F] [Add F] [Sub F] [Neg F]
  [Mul F] [Div F] [JsMath F] {heap : ℕ → IrregularPlacedPiece F} {π : Type}

/-! ## §1  Canonical keys -/

theorem insertCanonicalEntryKey_perm (entryKey : String) (entryKeys : List String) :
    (insertCanonicalEntryKey entryKey entryKeys).Perm (entryKeys ++ [entryKey]) := by
  induction entryKeys with
  | nil => exact List.Perm.refl _
  | cons existing entryKeys ih =>
      unfold insertCanonicalEntryKey
      split
      · exact (List.perm_append_singleton entryKey (existing :: entryKeys)).symm
      · exact ih.cons existing

/-- Insertion keeps a list of keys sorted. -/
theorem insertCanonicalEntryKey_sorted {entryKey : String} {entryKeys : List String}
    (h : entryKeys.Pairwise fun a b => keyLe a b = true) :
    (insertCanonicalEntryKey entryKey entryKeys).Pairwise
      fun a b => keyLe a b = true := by
  induction entryKeys with
  | nil => exact List.pairwise_singleton _ _
  | cons existing entryKeys ih =>
      obtain ⟨hfirst, hrest⟩ := List.pairwise_cons.mp h
      unfold insertCanonicalEntryKey
      split
      · next hlt =>
        have hle : keyLe entryKey existing = true :=
          keyLe_iff.mpr (cmpJsCodeUnits_eq_lt_iff.mp hlt).le
        refine List.pairwise_cons.mpr ⟨?_, h⟩
        intro key hkey
        rcases List.mem_cons.mp hkey with rfl | hkey
        · exact hle
        · exact keyLe_trans _ _ _ hle (hfirst key hkey)
      · next hlt =>
        refine List.pairwise_cons.mpr ⟨?_, ih hrest⟩
        intro key hkey
        have hmem := (insertCanonicalEntryKey_perm entryKey entryKeys).mem_iff.mp hkey
        rcases List.mem_append.mp hmem with hkey | hkey
        · exact hfirst key hkey
        · obtain rfl := List.mem_singleton.mp hkey
          -- not strictly before `existing`, so not before it at all
          exact keyLe_iff.mpr (not_lt.mp fun hbefore =>
            hlt (cmpJsCodeUnits_eq_lt_iff.mpr hbefore))

/-- **Inserting into the sorted keys is sorting the longer list.** -/
theorem insertCanonicalEntryKey_mergeSort (entryKey : String) (entryKeys : List String) :
    insertCanonicalEntryKey entryKey (entryKeys.mergeSort keyLe) =
      (entryKeys ++ [entryKey]).mergeSort keyLe := by
  have hperm : (insertCanonicalEntryKey entryKey (entryKeys.mergeSort keyLe)).Perm
      ((entryKeys ++ [entryKey]).mergeSort keyLe) :=
    calc (insertCanonicalEntryKey entryKey (entryKeys.mergeSort keyLe)).Perm
          (entryKeys.mergeSort keyLe ++ [entryKey]) := insertCanonicalEntryKey_perm _ _
      List.Perm _ (entryKeys ++ [entryKey]) :=
          (List.mergeSort_perm entryKeys keyLe).append_right _
      List.Perm _ ((entryKeys ++ [entryKey]).mergeSort keyLe) :=
          (List.mergeSort_perm _ keyLe).symm
  refine hperm.eq_of_pairwise (fun a b _ _ => keyLe_antisymm) ?_ ?_
  · exact insertCanonicalEntryKey_sorted
      (List.pairwise_mergeSort keyLe_trans keyLe_total entryKeys)
  · exact List.pairwise_mergeSort keyLe_trans keyLe_total _

/-! ## §2  The index and the bounds -/

omit [One F] [Neg F] [Mul F] [Div F] in
theorem deriveCollisionBounds_append (placed : List (PlacedArc heap))
    (arc : PlacedArc heap) :
    deriveCollisionBounds (placed ++ [arc]) =
      if placed.isEmpty then derivePlacedCollisionBounds arc.piece
      else extendCollisionBounds (deriveCollisionBounds placed) arc.piece := by
  cases placed with
  | nil => rfl
  | cons first rest => simp [deriveCollisionBounds, List.foldl_append]

/-! ## §3  The shared boundary -/

/-- A fold that leaves its accumulator alone at every dropped element is the
fold over the kept ones, as long as the accumulator stays good. -/
theorem foldlM_filter_of_idle {α β : Type} (f : β → α → Option β) (p : α → Bool)
    (Good : β → Prop) (hkeep : ∀ b a b', Good b → f b a = some b' → Good b')
    (hidle : ∀ b a, Good b → p a = false → f b a = some b) (as : List α) {b : β}
    (hb : Good b) : (as.filter p).foldlM f b = as.foldlM f b := by
  induction as generalizing b with
  | nil => rfl
  | cons a as ih =>
      cases hp : p a with
      | false =>
          rw [List.filter_cons_of_neg (by simp [hp]), List.foldlM_cons,
            hidle b a hb hp]
          exact ih hb
      | true =>
          rw [List.filter_cons_of_pos hp, List.foldlM_cons, List.foldlM_cons]
          cases hf : f b a with
          | none => rfl
          | some b' => exact ih (hkeep b a b' hb hf)

/-- A fold uses its function at the members of the list only. -/
theorem foldlM_congr_mem {α β : Type} {f g : β → α → Option β} (as : List α)
    (h : ∀ b, ∀ a ∈ as, f b a = g b a) (b : β) : as.foldlM f b = as.foldlM g b := by
  induction as generalizing b with
  | nil => rfl
  | cons a as ih =>
      rw [List.foldlM_cons, List.foldlM_cons, h b a List.mem_cons_self]
      exact bind_congr fun b' => ih (fun b a ha => h b a (List.mem_cons_of_mem _ ha)) b'

omit [Zero F] [One F] [Add F] [Sub F] [Neg F] [Mul F] [Div F] in
theorem sound_of_checked {metrics result : SharedCollisionBoundaryMetrics F}
    (h : metrics.checked = some result) : result.sound = true := by
  obtain ⟨hsound, rfl⟩ : metrics.sound = true ∧ metrics = result := by
    simpa [SharedCollisionBoundaryMetrics.checked] using h
  exact hsound

/-- Every accumulator of the contact sums has passed the check. -/
theorem addContact_sound {added : IrregularPolygonWithBounds F}
    {metrics result : SharedCollisionBoundaryMetrics F}
    {existing : PlacedCollisionSpatialEntry heap}
    (h : addContact added metrics existing = some result) : result.sound = true := by
  unfold addContact at h
  split at h
  · simp at h
  · simp only [Option.bind_eq_bind, Option.bind_eq_some_iff] at h
    obtain ⟨_, _, _, _, h⟩ := h
    exact sound_of_checked h

/-- **An entry the query drops adds nothing.** -/
theorem addContact_of_not_meets (hadd : ∀ x : F, x + 0 = x)
    (hfinite : JsNumber.isFinite (0 : F) = true) {added : IrregularPolygonWithBounds F}
    {metrics : SharedCollisionBoundaryMetrics F} (hsound : metrics.sound = true)
    {existing : PlacedCollisionSpatialEntry heap}
    (h : PlacedCollisionSpatialIndex.meets (some added.bounds) existing = false) :
    addContact added metrics existing = some metrics := by
  unfold PlacedCollisionSpatialIndex.meets at h
  unfold addContact
  split at h
  · simp at h
  · simp at *
  · next polygon bounds hvalid hbounds =>
    obtain rfl := Option.some.inj hbounds
    have hdisjoint : areDisjoint added.bounds polygon.polygonWithBounds.bounds = true := by
      rw [areDisjoint_comm]
      simpa using h
    rw [hvalid]
    simp only [measure_of_disjoint hfinite hdisjoint, Option.bind_eq_bind,
      Option.bind_some, noContact, addStructuralContactSignatures, List.foldlM_nil,
      Option.pure_def, hadd]
    exact if_pos hsound

omit [One F] [Add F] [Sub F] [Neg F] [Mul F] [Div F] in
/-- The default cell size passes its own check. -/
theorem validCellSize_default :
    validCellSize (defaultPlacedCollisionGridCellSizeMm : F) =
      defaultPlacedCollisionGridCellSizeMm := by
  unfold validCellSize
  split <;> rfl

/-- **Against the query and against everything, the sums are the same.** -/
theorem sharedBoundaryWithEntries_query (hadd : ∀ x : F, x + 0 = x)
    (hfinite : JsNumber.isFinite (0 : F) = true)
    (hsafe : isSafeInteger (0 : F) = true)
    (hfloor : FloorMonotone (defaultPlacedCollisionGridCellSizeMm : F))
    (placed : List (PlacedArc heap)) (added : PlacedCollisionSpatialEntry heap) :
    (added.validation.bounds.bind fun bounds =>
        sharedBoundaryWithEntries added
          ((makePlacedCollisionSpatialIndex placed none).query (some bounds))) =
      sharedBoundaryWithEntries added (makeEntries placed) := by
  cases hvalid : added.validation with
  | invalid message =>
      simp [PlacedCollisionValidation.bounds, sharedBoundaryWithEntries, hvalid]
  | valid polygon =>
      have hcell : (makePlacedCollisionSpatialIndex placed none).cellSizeMm =
          (defaultPlacedCollisionGridCellSizeMm : F) :=
        (cellSizeMm_foldl_add placed _).trans validCellSize_default
      have hquery := (filed_makePlacedCollisionSpatialIndex placed none).query_eq
        (hcell ▸ hfloor) (some polygon.polygonWithBounds.bounds)
      simp only [PlacedCollisionValidation.bounds, Option.bind_some,
        sharedBoundaryWithEntries, hvalid, hquery]
      refine foldlM_filter_of_idle _ _ (fun metrics => metrics.sound = true) ?_ ?_ _ ?_
      · exact fun _ _ _ _ => addContact_sound
      · exact fun _ _ hsound hdrop => addContact_of_not_meets hadd hfinite hsound hdrop
      · simp [noSharedBoundary, SharedCollisionBoundaryMetrics.sound, hfinite, hsafe]

/-- The derivation on a longer list measures the last entry against all others. -/
theorem deriveSharedCollisionBoundaryMetrics_append (placed : List (PlacedArc heap))
    (arc : PlacedArc heap) :
    deriveSharedCollisionBoundaryMetrics (placed ++ [arc]) =
      (deriveSharedCollisionBoundaryMetrics placed).bind fun metrics =>
        (sharedBoundaryWithEntries (makeEntry arc placed.length)
          (makeEntries placed)).bind (mergeSharedBoundary metrics) := by
  have htake : ∀ entry ∈ makeEntries placed,
      (makeEntries placed ++ [makeEntry arc placed.length]).take entry.ordinal =
        (makeEntries placed).take entry.ordinal := by
    intro entry hentry
    refine List.take_append_of_le_length ?_
    rw [length_makeEntries]
    exact (makeEntries_ordinal_lt hentry).le
  have hall : (makeEntries placed ++ [makeEntry arc placed.length]).take
      (makeEntry arc placed.length).ordinal = makeEntries placed :=
    List.take_left' (length_makeEntries placed)
  have hentries : ∀ list : List (PlacedArc heap),
      (makePlacedCollisionSpatialIndex list (none : Option F)).entries =
        makeEntries list := fun list =>
    (filed_makePlacedCollisionSpatialIndex list none).entries
  simp only [deriveSharedCollisionBoundaryMetrics, hentries, makeEntries_append,
    List.foldlM_append, List.foldlM_cons, List.foldlM_nil, hall, bind_pure]
  -- the prefix before an earlier entry does not reach the new one
  rw [foldlM_congr_mem (makeEntries placed) fun metrics entry hentry => by
    rw [htake entry hentry]]
  rfl

/-- **The shared boundary of one more piece.** -/
theorem extendSharedCollisionBoundaryMetrics_derive (hadd : ∀ x : F, x + 0 = x)
    (hfinite : JsNumber.isFinite (0 : F) = true)
    (hsafe : isSafeInteger (0 : F) = true)
    (hfloor : FloorMonotone (defaultPlacedCollisionGridCellSizeMm : F))
    (placed : List (PlacedArc heap)) (arc : PlacedArc heap) :
    extendSharedCollisionBoundaryMetrics (deriveSharedCollisionBoundaryMetrics placed)
        (makePlacedCollisionSpatialIndex placed none)
        ((makePlacedCollisionSpatialIndex placed none).add arc).entries.getLast? =
      deriveSharedCollisionBoundaryMetrics (placed ++ [arc]) := by
  have hlast : ((makePlacedCollisionSpatialIndex placed none).add arc).entries.getLast? =
      some (makeEntry arc placed.length) := by
    rw [← makePlacedCollisionSpatialIndex_append,
      (filed_makePlacedCollisionSpatialIndex _ _).entries, makeEntries_append]
    exact List.getLast?_concat
  rw [deriveSharedCollisionBoundaryMetrics_append, hlast,
    ← sharedBoundaryWithEntries_query hadd hfinite hsafe hfloor]
  simp [extendSharedCollisionBoundaryMetrics, Option.bind_assoc]

/-! ## §4  States of the constructors -/

namespace IrregularBeamState

/-- What every constructor and every transition leaves: the keys and the index of
the placed pieces.  Bounds and contact metrics depend on how the pieces came to
be where they are. -/
structure Built (state : IrregularBeamState heap π) : Prop where
  entryKeys : state.canonicalEntryKeys =
    (state.placedCollisionGeometries.map fun arc =>
      canonicalPlacedGeometryKey arc.piece).mergeSort keyLe
  occupiedKey : state.canonicalOccupiedGeometryKey =
    canonicalEntryListKey F state.canonicalEntryKeys
  index : state.placedCollisionIndex =
    makePlacedCollisionSpatialIndex state.placedCollisionGeometries none

variable {state : IrregularBeamState heap π}

theorem Built.withPlacement (h : state.Built) (remainingPreparedPieces : List π)
    (placed : PlacedArc heap) (pieceId : PieceId) :
    (state.withPlacement remainingPreparedPieces placed pieceId).Built where
  entryKeys := by
    show insertCanonicalEntryKey (canonicalPlacedGeometryKey placed.piece)
      state.canonicalEntryKeys =
        ((state.placedCollisionGeometries ++ [placed]).map fun arc =>
          canonicalPlacedGeometryKey arc.piece).mergeSort keyLe
    rw [h.entryKeys, insertCanonicalEntryKey_mergeSort, List.map_append]
    rfl
  occupiedKey := rfl
  index := by
    show (if (state.placedCollisionIndex.add placed).matches
        (state.placedCollisionGeometries ++ [placed]) then
        state.placedCollisionIndex.add placed else _) = _
    rw [h.index, ← makePlacedCollisionSpatialIndex_append]
    exact ite_self _

theorem Built.withUnplacedPiece (h : state.Built) (remainingPreparedPieces : List π)
    (pieceId : PieceId) : (state.withUnplacedPiece remainingPreparedPieces pieceId).Built
    where
  entryKeys := h.entryKeys
  occupiedKey := h.occupiedKey
  index := by
    show (if state.placedCollisionIndex.matches state.placedCollisionGeometries then
        state.placedCollisionIndex else _) = _
    rw [h.index]
    exact ite_self _

end IrregularBeamState

/-! ## §5  Runs -/

/-- One transition of the search. -/
inductive BeamOperation (heap : ℕ → IrregularPlacedPiece F) (π : Type) where
  | withPlacement (remainingPreparedPieces : List π) (placed : PlacedArc heap)
      (placementOrderPieceId : PieceId)
  | withUnplacedPiece (remainingPreparedPieces : List π) (unplacedPieceId : PieceId)

/-- The piece an operation places. -/
def BeamOperation.placed? : BeamOperation heap π → Option (PlacedArc heap)
  | .withPlacement _ placed _ => some placed
  | .withUnplacedPiece _ _ => none

namespace IrregularBeamState

def apply (state : IrregularBeamState heap π) :
    BeamOperation heap π → IrregularBeamState heap π
  | .withPlacement remaining placed pieceId => state.withPlacement remaining placed pieceId
  | .withUnplacedPiece remaining pieceId => state.withUnplacedPiece remaining pieceId

/-- A run of transitions from the empty state. -/
def run (remainingPreparedPieces : List π) (operations : List (BeamOperation heap π)) :
    IrregularBeamState heap π :=
  operations.foldl apply (empty remainingPreparedPieces)

/-- The lists of a state, without any of its summaries. -/
def lists (state : IrregularBeamState heap π) : IrregularBeamStateInput heap π where
  remainingPreparedPieces := state.remainingPreparedPieces
  placedCollisionGeometries := state.placedCollisionGeometries
  unplacedPieceIds := some state.unplacedPieceIds
  unplacedSourcePieceIds := none
  placementOrder := state.placementOrder
  placedCollisionIndex := none

/-- The summaries of a state from scratch are the derived ones. -/
theorem fromInput_toDerivedMetadata {input : IrregularBeamStateInput heap π}
    (h : input.placedCollisionIndex = none) :
    (fromInput input).toDerivedMetadata =
      deriveMetadata input.placedCollisionGeometries := by
  simp [fromInput, construct, h, deriveMetadata, makeMetadata]

/-- Metadata that is the derived metadata may as well be left out. -/
theorem construct_some_derived {input : IrregularBeamStateInput heap π}
    {metadata : DerivedMetadata heap}
    (h : metadata = deriveMetadata input.placedCollisionGeometries) :
    construct input (some metadata) = fromInput input := by
  rw [h]
  rfl

/-- The five fields of the shared metrics come from one optional value. -/
theorem sharedMetrics_of_derived {state : IrregularBeamState heap π}
    (h : state.toDerivedMetadata = deriveMetadata state.placedCollisionGeometries) :
    state.sharedMetrics =
      deriveSharedCollisionBoundaryMetrics state.placedCollisionGeometries := by
  simp only [sharedMetrics, h, deriveMetadata, makeMetadata]
  cases deriveSharedCollisionBoundaryMetrics state.placedCollisionGeometries <;> rfl

/-- **The summaries of one more piece**, all six. -/
theorem deriveMetadata_append (hadd : ∀ x : F, x + 0 = x)
    (hfinite : JsNumber.isFinite (0 : F) = true)
    (hsafe : isSafeInteger (0 : F) = true)
    (hfloor : FloorMonotone (defaultPlacedCollisionGridCellSizeMm : F))
    (placed : List (PlacedArc heap)) (arc : PlacedArc heap) :
    makeMetadata
        (insertCanonicalEntryKey (canonicalPlacedGeometryKey arc.piece)
          (deriveMetadata placed).canonicalEntryKeys)
        (if placed.isEmpty then derivePlacedCollisionBounds arc.piece
          else extendCollisionBounds
            (deriveMetadata placed).translatedCollisionBounds arc.piece)
        (extendSharedCollisionBoundaryMetrics
          (deriveSharedCollisionBoundaryMetrics placed)
          (deriveMetadata placed).placedCollisionIndex
          ((deriveMetadata placed).placedCollisionIndex.add arc).entries.getLast?)
        ((deriveMetadata placed).placedCollisionIndex.add arc) =
      deriveMetadata (placed ++ [arc]) := by
  have hkeys := insertCanonicalEntryKey_mergeSort (canonicalPlacedGeometryKey arc.piece)
    (placed.map fun arc => canonicalPlacedGeometryKey arc.piece)
  have hshared := extendSharedCollisionBoundaryMetrics_derive hadd hfinite hsafe hfloor
    placed arc
  show makeMetadata (insertCanonicalEntryKey _ (List.mergeSort _ keyLe)) _ _ _ = _
  rw [hkeys]
  unfold deriveMetadata
  rw [deriveCollisionBounds_append, makePlacedCollisionSpatialIndex_append, ← hshared,
    List.map_append]
  rfl

/-- **One transition from a derived state gives the state from scratch.** -/
theorem apply_eq_fromInput (hadd : ∀ x : F, x + 0 = x)
    (hfinite : JsNumber.isFinite (0 : F) = true)
    (hsafe : isSafeInteger (0 : F) = true)
    (hfloor : FloorMonotone (defaultPlacedCollisionGridCellSizeMm : F))
    {state : IrregularBeamState heap π}
    (h : state.toDerivedMetadata = deriveMetadata state.placedCollisionGeometries)
    (operation : BeamOperation heap π) :
    state.apply operation = fromInput (state.apply operation).lists := by
  cases operation with
  | withPlacement remaining placed pieceId =>
      refine construct_some_derived (Eq.trans ?_ (deriveMetadata_append hadd hfinite
        hsafe hfloor state.placedCollisionGeometries placed))
      rw [← h, sharedMetrics_of_derived h]
  | withUnplacedPiece remaining pieceId =>
      exact construct_some_derived h

/-- **Every run is the state from scratch**, and places what its operations
place. -/
theorem run_eq_fromInput_lists (hadd : ∀ x : F, x + 0 = x)
    (hfinite : JsNumber.isFinite (0 : F) = true)
    (hsafe : isSafeInteger (0 : F) = true)
    (hfloor : FloorMonotone (defaultPlacedCollisionGridCellSizeMm : F))
    (remainingPreparedPieces : List π) (operations : List (BeamOperation heap π)) :
    run remainingPreparedPieces operations =
        fromInput (run remainingPreparedPieces operations).lists ∧
      (run remainingPreparedPieces operations).placedCollisionGeometries =
        operations.filterMap BeamOperation.placed? := by
  induction operations using List.reverseRecOn with
  | nil => exact ⟨rfl, rfl⟩
  | append_singleton operations operation ih =>
      obtain ⟨hstate, hplaced⟩ := ih
      have hrun : run remainingPreparedPieces (operations ++ [operation]) =
          (run remainingPreparedPieces operations).apply operation := by
        simp [run]
      have hderived : (run remainingPreparedPieces operations).toDerivedMetadata =
          deriveMetadata
            (run remainingPreparedPieces operations).placedCollisionGeometries := by
        conv_lhs => rw [hstate]
        exact fromInput_toDerivedMetadata rfl
      rw [hrun]
      refine ⟨apply_eq_fromInput hadd hfinite hsafe hfloor hderived operation, ?_⟩
      cases operation with
      | withPlacement remaining placed pieceId =>
          rw [List.filterMap_append, ← hplaced]
          rfl
      | withUnplacedPiece remaining pieceId =>
          rw [List.filterMap_append, ← hplaced]
          exact (List.append_nil _).symm

/-- **The incremental state equals the state from scratch.** After any
transitions from the empty state, the whole state, with its keys, bounds,
contact sums, signature counts and index, is `fromInput` of the pieces the
transitions placed. -/
theorem run_eq_fromInput (hadd : ∀ x : F, x + 0 = x)
    (hfinite : JsNumber.isFinite (0 : F) = true)
    (hsafe : isSafeInteger (0 : F) = true)
    (hfloor : FloorMonotone (defaultPlacedCollisionGridCellSizeMm : F))
    (remainingPreparedPieces : List π) (operations : List (BeamOperation heap π)) :
    run remainingPreparedPieces operations = fromInput
      { remainingPreparedPieces :=
          (run remainingPreparedPieces operations).remainingPreparedPieces
        placedCollisionGeometries := operations.filterMap BeamOperation.placed?
        unplacedPieceIds :=
          some (run remainingPreparedPieces operations).unplacedPieceIds
        unplacedSourcePieceIds := none
        placementOrder := (run remainingPreparedPieces operations).placementOrder
        placedCollisionIndex := none } := by
  obtain ⟨hstate, hplaced⟩ := run_eq_fromInput_lists hadd hfinite hsafe hfloor
    remainingPreparedPieces operations
  rw [← hplaced]
  exact hstate

end IrregularBeamState

/-- The square at address `n` stands at `(n, 0)`, touching its neighbours. -/
def touchingSquares (n : ℕ) : IrregularPlacedPiece ℚ := squarePlacedAt n

/-- Place a square, leave a piece out, place the square next to the first. -/
def placeLeavePlace : List (BeamOperation touchingSquares PieceId) :=
  [.withPlacement ["b", "c"] ⟨0⟩ "a", .withUnplacedPiece ["c"] "b",
    .withPlacement [] ⟨1⟩ "c"]

theorem run_eq_fromInput_touchingSquares :
    IrregularBeamState.run ["a", "b", "c"] placeLeavePlace =
        IrregularBeamState.fromInput
          ⟨[], [⟨0⟩, ⟨1⟩], some ["b"], none, ["a", "c"], none⟩ ∧
      (IrregularBeamState.run ["a", "b", "c"]
        placeLeavePlace).sharedCollisionBoundaryLengthMm = some 1 := by
  have h := IrregularBeamState.run_eq_fromInput (F := ℚ) add_zero rfl
    (by decide +kernel) (validCellSize_default (F := ℚ) ▸ floorMonotone_validCellSize _)
    ["a", "b", "c"] placeLeavePlace
  exact ⟨h, by decide +kernel⟩

end PolygonNesting
