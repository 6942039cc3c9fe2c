import PolygonNesting.ShortSide.BoxLayouts
import PolygonNesting.ShortSide.DirectionalRequest

/-!
# The layouts of a directional request

Whatever the clock, the memory, the geometry cache and the strips answer, the pair of a request
is a least of the pairs that fit, its fold is finalized, and the shelf is finalized where its
next-fit rows are in the sheet.  A request is never left because a selected pair does not fit.
-/

set_option linter.unusedSectionVars false

namespace PolygonNesting.PairFold

open StatefulCall Comparator Tournament BoxPacking

variable {F : Type} [LinearOrder F] [Zero F] [One F] [Add F] [Sub F] [Neg F]
  [Mul F] [Div F] [JsMath F] {heap : ℕ → IrregularPlacedPiece F} {σ : Type}

/-! ## §1  The least pair -/

theorem transCmp_compareSelectedPairs (transforms : List (SelectedTransform F)) :
    Std.TransCmp (compareSelectedPairs transforms) := by
  have harea := transCmp_comap compare fun pair : SelectedPair => pair.envelopeAreaGrid2
  have hdepth := transCmp_comap compare fun pair : SelectedPair => pair.depthGrid
  have hbottom := transCmp_comap localeCompareKeys fun pair : SelectedPair =>
    pieceIdAt transforms pair.bottomIndex
  have hupper := transCmp_comap localeCompareKeys fun pair : SelectedPair =>
    pieceIdAt transforms pair.upperIndex
  exact transCmp_then harea (transCmp_then hdepth (transCmp_then hbottom hupper))

def Fits (requested : RequestedAxes) (pair : SelectedPair) : Prop := pair.fits requested = true

/-- The pairs of a list of transforms. -/
def pairsOf (transforms : List (SelectedTransform F)) : List SelectedPair :=
  (earlierPairs transforms.zipIdx).map fun pair => selectedPair transforms pair.1 pair.2

theorem orderOn_compareSelectedPairs (transforms : List (SelectedTransform F))
    (requested : RequestedAxes) : OrderOn (Fits requested) (compareSelectedPairs transforms) :=
  OrderOn.of_transCmp (transCmp_compareSelectedPairs transforms)

/-- One more pair is played against the best so far. -/
theorem optimal_keepPair (transforms : List (SelectedTransform F)) (requested : RequestedAxes)
    {selected : Option SelectedPair} (hselected : ∀ pair ∈ selected, Fits requested pair)
    (candidate : SelectedPair) :
    Optimal (Fits requested) (compareSelectedPairs transforms) (selected.toList ++ [candidate])
      (keepPair transforms requested selected candidate) := by
  have hcmp := transCmp_compareSelectedPairs transforms
  unfold keepPair
  split
  · rename_i hfits
    cases selected with
    | none => exact optimal_some (by simp) hfits (by simpa using fun _ => cmp_self_isLE _ candidate)
    | some current =>
        dsimp only
        split
        · rename_i hlt
          refine optimal_some (by simp) hfits fun pair hpair _ => ?_
          rcases List.mem_pair.1 hpair with rfl | rfl
          · rw [hlt]
            rfl
          · exact cmp_self_isLE _ _
        · rename_i hlt
          refine optimal_some (by simp) (hselected current rfl) fun pair hpair _ => ?_
          rcases List.mem_pair.1 hpair with rfl | rfl
          · exact cmp_self_isLE _ _
          · rw [cmp_eq_swap (compareSelectedPairs transforms)]
            cases hcase : compareSelectedPairs transforms pair current with
            | lt => exact absurd hcase hlt
            | eq => rfl
            | gt => rfl
  · rename_i hfits
    cases selected with
    | none =>
        refine optimal_none fun pair hpair haccepted => hfits ?_
        exact List.mem_singleton.1 hpair ▸ haccepted
    | some current =>
        refine optimal_some (by simp) (hselected current rfl) fun pair hpair haccepted => ?_
        rcases List.mem_pair.1 hpair with rfl | rfl
        · exact cmp_self_isLE _ _
        · exact absurd haccepted hfits

/-- **The fold over pairs keeps a least fitting one.** -/
theorem optimal_foldl_keepPair (transforms : List (SelectedTransform F))
    (requested : RequestedAxes) (pairs : List SelectedPair) :
    Optimal (Fits requested) (compareSelectedPairs transforms) pairs
      (pairs.foldl (keepPair transforms requested) none) := by
  have horder := orderOn_compareSelectedPairs transforms requested
  induction pairs using List.reverseRecOn with
  | nil => exact optimal_none fun _ h => absurd h List.not_mem_nil
  | append_singleton pairs candidate ih =>
      rw [List.foldl_append, List.foldl_cons, List.foldl_nil]
      refine Keeps.trans horder (fun _ _ h => h) ih.toKeeps
        (@keeps_toList _ _ _ _ horder (some candidate) fun _ _ h => h) ?_
      exact optimal_keepPair transforms requested ih.accepted candidate

/-! ## §2  Leaving a request -/

/-- The reason no request is left for. -/
def accountingReason : String := "selected pair accounting exceeded the requested short axis."

/-- The request is left by an error, or by a failed outcome that does not blame the pair. -/
def OtherExit : ObserverExit heap → Prop
  | .failed outcome => Failed outcome ∧ outcome.trace.failureReason ≠ some accountingReason
  | .error _ => True

theorem ne_accountingReason (first : Char) {text : String} (h : text.toList.head? = some first)
    (hne : first ≠ 's') : text ≠ accountingReason := by
  rintro rfl
  have hhead : accountingReason.toList.head? = some 's' := by decide +kernel
  exact hne (Option.some.inj (h.symm.trans hhead))

theorem ne_accountingReason_append (first : Char) {text : String}
    (h : text.toList.head? = some first) (hne : first ≠ 's') (rest : String) :
    text ++ rest ≠ accountingReason := by
  refine ne_accountingReason first ?_ hne
  rw [String.toList_append, List.head?_append, h]
  rfl

theorem asStr_append_ne (bounded : BoundedStatus) (rest : String) :
    bounded.asStr ++ rest ≠ accountingReason := by
  cases bounded with
  | deadline => exact ne_accountingReason_append 'd' (by decide +kernel) (by decide) rest
  | memoryCap => exact ne_accountingReason_append 'm' (by decide +kernel) (by decide) rest

section

variable (measures : TerminalMeasures F) (world : ObserverWorld σ heap)
  (input : IntrinsicShortSidePairFoldInput F)

theorem runs_leave_other {α : Type} {status : IntrinsicShortSidePairFoldStatus} {reason : String}
    (hstatus : status ≠ .accepted) (hreason : reason ≠ accountingReason) {post : α → Prop} :
    Runs (fun _ => True) (leave measures world input status reason) post OtherExit := by
  have hfailed : Yields (failedOutcome measures world input (requestFailure status reason))
      fun outcome => Failed outcome ∧ outcome.trace.failureReason ≠ some accountingReason :=
    (yields_ask _).bind fun _ _ => (yields_sampleRss world).bind fun _ _ =>
      yields_readRuntime.bind fun _ _ =>
        Ends.pure ⟨⟨hstatus, rfl⟩, fun h => hreason (Option.some.inj h)⟩
  exact Runs.lift_bind hfailed fun _ h => Runs.throw h

theorem runs_leaveIfBounded_other (reached : ObserverRuntime F → String) :
    Runs (fun _ => True) (leaveIfBounded measures world input reached) (fun _ => True)
      OtherExit := by
  refine Runs.lift_bind (yields_boundedStatus world) fun bounded _ => ?_
  cases bounded with
  | none => exact Runs.pure trivial
  | some bounded =>
      exact Runs.lift_bind yields_readRuntime fun runtime _ =>
        runs_leave_other measures world input (toStatus_ne_accepted bounded)
          (asStr_append_ne bounded _)

/-! ## §3  Transforms -/

/-- A transform of a piece. -/
structure TransformOf (piece : IrregularPreparedPiece F) (transform : SelectedTransform F) :
    Prop extends Sized transform where
  ofPiece : transform.piece = piece
  id : transform.pieceId = preparedPieceId piece

theorem transformOf_selectedTransform {piece : IrregularPreparedPiece F}
    {geometry : TransformedCollisionGeometry F} {transform : SelectedTransform F}
    (h : selectedTransform piece geometry = some transform) : TransformOf piece transform := by
  refine ⟨sized_of_selectedTransform h, ?_, ?_⟩ <;>
  · unfold selectedTransform at h
    simp only [Option.bind_eq_bind, Option.bind_eq_some_iff] at h
    obtain ⟨minX, -, minY, -, maxX, -, maxY, -, h⟩ := h
    split at h
    · cases h
    · obtain rfl := Option.some.inj h
      rfl

theorem mem_keepTransform {cmp : SelectedTransform F → SelectedTransform F → Ordering}
    {selected : Option (SelectedTransform F)} {candidate transform : SelectedTransform F}
    (h : transform ∈ keepTransform cmp selected candidate) :
    transform ∈ selected ∨ transform = candidate := by
  unfold keepTransform at h
  split at h
  · exact .inr (Option.some.inj h).symm
  · split at h
    · exact .inr (Option.some.inj h).symm
    · exact .inl h

theorem runs_selectTransforms_other (piece : IrregularPreparedPiece F) :
    Runs (fun _ => True) (selectTransforms measures world input piece)
      (fun selected => TransformOf piece selected.1 ∧ TransformOf piece selected.2) OtherExit := by
  have hstep : ∀ (selected : SelectedTransforms F) transform,
      ((∀ t ∈ selected.1, TransformOf piece t) ∧ ∀ t ∈ selected.2, TransformOf piece t) →
      Runs (fun _ => True) (evaluateTransform measures world input piece selected transform)
        (fun selected => (∀ t ∈ selected.1, TransformOf piece t) ∧
          ∀ t ∈ selected.2, TransformOf piece t) OtherExit := by
    intro selected transform hselected
    refine Runs.lift_bind (yields_modifyRuntime _) fun _ _ => ?_
    have htransform : Runs (fun _ => True)
        (transformCollisionGeometry world piece.collisionGeometry transform) (fun _ => True)
        OtherExit := by
      refine Runs.lift_bind (yields_ask _) fun answer _ => ?_
      cases answer with
      | ok transformed => exact Runs.pure trivial
      | error message => exact Runs.throw trivial
    refine htransform.bind fun geometry _ =>
      (runs_leaveIfBounded_other measures world input _).bind fun _ _ => ?_
    cases hcandidate : selectedTransform piece geometry with
    | none => exact Runs.pure hselected
    | some candidate =>
        have hof := transformOf_selectedTransform hcandidate
        refine Runs.pure ⟨fun t ht => ?_, fun t ht => ?_⟩
        · rcases mem_keepTransform ht with ht | rfl
          · exact hselected.1 t ht
          · exact hof
        · rcases mem_keepTransform ht with ht | rfl
          · exact hselected.2 t ht
          · exact hof
  refine (Runs.foldlM (fun selected transform _ => hstep selected transform)
    ⟨fun _ h => (by cases h), fun _ h => (by cases h)⟩).bind fun selected hselected => ?_
  split
  · exact Runs.pure ⟨hselected.1 _ rfl, hselected.2 _ rfl⟩
  · refine runs_leave_other measures world input (by decide) ?_
    rw [String.append_assoc]
    exact ne_accountingReason_append 'p' (by decide +kernel) (by decide) _

/-! ## §4  The pair fold -/

/-- A fold of a pair: every transform once, packed in the envelope of the pair, all of it. -/
structure FoldOf (transforms : List (SelectedTransform F)) (pair : SelectedPair)
    (standings : List (Standing F)) : Prop where
  perm : (standings.map Standing.transform).Perm transforms
  packed : PackedIn ⟨0, 0, pair.widthGrid, pair.depthGrid⟩ (standings.map Standing.box)
  spans : BoxPacking.Spans ⟨0, 0, pair.widthGrid, pair.depthGrid⟩ (standings.map Standing.box)

variable (alloc : IrregularPlacedPiece F → PlacedArc heap)

/-- **The layout of a pair that fits**: it is never refused. -/
theorem exists_constructPairLayout {transforms : List (SelectedTransform F)}
    (hsized : ∀ t ∈ transforms, Sized t) {pair : SelectedPair} (hpair : pair ∈ pairsOf transforms)
    {requested : RequestedAxes} (hfits : Fits requested pair) :
    ∃ standings, constructPairLayout alloc transforms pair requested.shortAxisGrid =
      some (standings.map (Standing.place alloc)) ∧ FoldOf transforms pair standings := by
  obtain ⟨⟨bottom, upper⟩, hmem, rfl⟩ := List.mem_map.1 hpair
  obtain ⟨before, between, after, hsplit, hbottom, hupper⟩ := exists_split hmem
  obtain ⟨bottom, bottomIndex⟩ := bottom
  obtain ⟨upper, upperIndex⟩ := upper
  dsimp only at hsplit hbottom hupper
  subst hbottom hupper hsplit
  have hfits' := of_decide_eq_true hfits
  refine ⟨pairStandings before bottom upper (between ++ after), ?_, ?_, ?_, ?_⟩
  · refine constructPairLayout_eq alloc hsized rfl rfl ?_
    rw [← widthGrid_selectedPair]
    exact hfits'.1
  · exact transforms_pairStandings before between after bottom upper
  · rw [widthGrid_selectedPair, depthGrid_selectedPair]
    exact packedIn_pairStandings hsized (le_max_left _ _) (le_max_right _ _)
  · rw [widthGrid_selectedPair, depthGrid_selectedPair]
    exact spans_pairStandings hsized

/-- What a construction of the request is finalized from. -/
def FinalizedFrom (params : FinalizePlacedLayoutInput heap)
    (outcome : IntrinsicShortSidePairFoldOutcome heap) : Prop :=
  ∃ s s', (finalizePlacedLayout measures world input alloc params).run s = some (outcome, s')

theorem yields_finalizedFrom (params : FinalizePlacedLayoutInput heap) :
    Yields (finalizePlacedLayout measures world input alloc params)
      (FinalizedFrom measures world input alloc params) :=
  (yields_finalizePlacedLayout measures world input alloc params).to_run.mono
    fun _ ⟨s, s', _, hrun⟩ => ⟨s, s', hrun⟩

/-- The pair outcome of some transforms: a least fitting pair, and its fold is finalized. -/
def PairLaw (transforms : List (SelectedTransform F)) (requested : RequestedAxes)
    (outcome : Option (IntrinsicShortSidePairFoldOutcome heap)) : Prop :=
  ∃ kept, Optimal (Fits requested) (compareSelectedPairs transforms) (pairsOf transforms) kept ∧
    (kept = none → outcome = none) ∧
    ∀ pair, kept = some pair → ∃ standings finalized, outcome = some finalized ∧
      FoldOf transforms pair standings ∧
      FinalizedFrom measures world input alloc {
        placed := standings.map (Standing.place alloc)
        constructionKind := .pairFold
        rowCount := 1
        selectedBottomPieceId := some (pieceIdAt transforms pair.bottomIndex)
        selectedUpperPieceId := some (pieceIdAt transforms pair.upperIndex) } finalized

/-- The shelf outcome of some transforms: their next-fit rows, finalized where they are in the
sheet. -/
def ShelfLaw (transforms : List (SelectedTransform F)) (requested : RequestedAxes)
    (outcome : Option (IntrinsicShortSidePairFoldOutcome heap)) : Prop :=
  ∃ rows, NextFit requested.shortAxisGrid transforms rows ∧
    (outcome.isSome = true ↔
      ∀ standing ∈ stackStandings 0 rows, standing.box.Within requested.frame) ∧
    ∀ finalized, outcome = some finalized →
      PackedIn requested.frame ((stackStandings 0 rows).map Standing.box) ∧
      FinalizedFrom measures world input alloc {
        placed := (stackStandings 0 rows).map (Standing.place alloc)
        constructionKind := .multiRowShelf
        rowCount := rows.length
        selectedBottomPieceId := none
        selectedUpperPieceId := none } finalized

theorem runs_searchPair_eq (transforms : List (SelectedTransform F)) (requested : RequestedAxes) :
    Runs (fun _ => True) (searchPair measures world input transforms requested)
      (fun kept => Optimal (Fits requested) (compareSelectedPairs transforms)
        (pairsOf transforms) kept) OtherExit := by
  have hstep : ∀ selected : Option SelectedPair, ∀ pair ∈ earlierPairs transforms.zipIdx,
      Runs (fun _ => True) (evaluatePair measures world input transforms requested selected pair)
        (fun kept => kept = keepPair transforms requested selected
          (selectedPair transforms pair.1 pair.2)) OtherExit := by
    intro selected pair _
    refine (runs_leaveIfBounded_other measures world input _).bind fun _ _ => ?_
    refine Runs.lift_bind (yields_modifyRuntime _) fun _ _ => ?_
    exact (runs_leaveIfBounded_other measures world input _).bind fun _ _ => Runs.pure rfl
  have hfold := Runs.foldlM_eq hstep none
  refine hfold.mono fun kept hkept => ?_
  have hpairs := optimal_foldl_keepPair transforms requested (pairsOf transforms)
  unfold pairsOf at hpairs ⊢
  rw [List.foldl_map] at hpairs
  rwa [hkept]

/-- **The pair of a request** folds: no request is left because its layout is refused. -/
theorem runs_constructPair_law {transforms : List (SelectedTransform F)}
    (hsized : ∀ t ∈ transforms, Sized t) (requested : RequestedAxes) :
    Runs (fun _ => True) (constructPair measures world input alloc transforms requested)
      (PairLaw measures world input alloc transforms requested) OtherExit := by
  refine (runs_searchPair_eq measures world input transforms requested).bind fun kept hkept => ?_
  cases kept with
  | none => exact Runs.pure ⟨none, hkept, fun _ => rfl, fun _ h => (by cases h)⟩
  | some pair =>
      obtain ⟨standings, hlayout, hfold⟩ := exists_constructPairLayout alloc hsized
        (hkept.mem pair rfl) (hkept.accepted pair rfl)
      dsimp only
      rw [hlayout]
      refine Runs.lift_bind (yields_finalizedFrom measures world input alloc _)
        fun finalized hfinalized => Runs.pure ⟨some pair, hkept, fun h => (by cases h), ?_⟩
      intro pair' heq
      obtain rfl := Option.some.inj heq
      exact ⟨standings, finalized, rfl, hfold, hfinalized⟩

/-! ## §5  The shelf -/

/-- **The shelf of a request** is finalized where its next-fit rows are in the sheet. -/
theorem yields_constructShelf_law {transforms : List (SelectedTransform F)}
    (hsized : ∀ t ∈ transforms, Sized t) (requested : RequestedAxes) :
    Yields (constructShelf measures world input alloc transforms requested)
      (ShelfLaw measures world input alloc transforms requested) := by
  have hrows := nextFit_nextFitRows requested.shortAxisGrid transforms
  unfold constructShelf
  cases hshelf : constructNextFitShelf alloc transforms requested with
  | none =>
      refine Ends.pure ⟨_, hrows, iff_of_false Bool.false_ne_true fun hwithin => ?_,
        fun _ h => (by cases h)⟩
      have hsome := (constructNextFitShelf_eq_some_iff alloc hsized).2 ⟨hwithin, rfl⟩
      rw [hshelf] at hsome
      cases hsome
  | some shelf =>
      obtain ⟨hwithin, rfl⟩ := (constructNextFitShelf_eq_some_iff alloc hsized).1 hshelf
      refine (yields_finalizedFrom measures world input alloc _).bind fun finalized hfinalized =>
        Ends.pure ⟨_, hrows, iff_of_true rfl hwithin, fun outcome houtcome => ?_⟩
      obtain rfl := Option.some.inj houtcome
      exact ⟨packedIn_nextFitRows hsized hwithin, hfinalized⟩

/-! ## §6  The request -/

theorem runs_continueStrips_other (continuations :
    List (ContactStrip.IntrinsicShortSideContactStripOrderPolicy ×
      List (IrregularPreparedPiece F))) :
    ∀ lanes : StripLanes heap,
      Runs (fun _ => True) (continueStrips measures world input alloc continuations lanes)
        (fun _ => True) OtherExit := by
  induction continuations with
  | nil => exact fun lanes => Runs.pure trivial
  | cons continuation rest ih =>
      obtain ⟨orderPolicy, pieces⟩ := continuation
      intro lanes
      unfold continueStrips
      refine Runs.lift_bind (yields_constructContactStrip world input _ _ _ _ _)
        fun strip _ => (runs_leaveIfBounded_other measures world input _).bind fun _ _ => ?_
      refine Runs.lift_bind (yields_finalizeStrip measures world input alloc strip)
        fun outcome _ => ?_
      cases outcome with
      | none => exact ih _
      | some continued =>
          dsimp only
          split
          · exact Runs.pure trivial
          · exact ih _

/-- The transforms of a piece for the fold and for the shelf. -/
structure SelectedOf (piece : IrregularPreparedPiece F)
    (selected : SelectedTransform F × SelectedTransform F) : Prop where
  fold : TransformOf piece selected.1
  shelf : TransformOf piece selected.2

/-- The fold and the shelf of a request's constructions. -/
def LayoutLaw (constructions : DirectionalConstructions heap) : Prop :=
  ∃ requested transforms, requestedAxes input = some requested ∧
    List.Forall₂ SelectedOf input.preparedPieces transforms ∧
    PairLaw measures world input alloc (transforms.map Prod.fst) requested
      constructions.pairOutcome ∧
    ShelfLaw measures world input alloc (transforms.map Prod.snd) requested
      constructions.shelfOutcome

/-- **Every directional request**, whatever clock, memory, cache and strips answer, has the fold
of a least pair that fits and the next-fit shelf where it is in the sheet, or is left early, but
never because its pair does not fit. -/
theorem constructDirectional_layouts :
    Runs (fun _ => True) (constructDirectional measures world input alloc)
      (LayoutLaw measures world input alloc) OtherExit := by
  unfold constructDirectional
  cases haxes : requestedAxes input with
  | none =>
      exact runs_leave_other measures world input (by decide)
        (ne_accountingReason 'r' (by decide +kernel) (by decide))
  | some requested =>
      refine (Runs.mapM_forall₂ fun piece _ =>
        (runs_selectTransforms_other measures world input piece).mono fun _ h =>
          SelectedOf.mk h.1 h.2).bind fun transforms htransforms => ?_
      refine Runs.lift_bind (yields_modifyRuntime _) fun _ _ => ?_
      have hfold : ∀ t ∈ transforms.map Prod.fst, Sized t := by
        intro t ht
        obtain ⟨selected, hmem, rfl⟩ := List.mem_map.1 ht
        obtain ⟨piece, -, hof⟩ := forall₂_exists htransforms.flip _ hmem
        exact hof.fold.toSized
      have hshelf : ∀ t ∈ transforms.map Prod.snd, Sized t := by
        intro t ht
        obtain ⟨selected, hmem, rfl⟩ := List.mem_map.1 ht
        obtain ⟨piece, -, hof⟩ := forall₂_exists htransforms.flip _ hmem
        exact hof.shelf.toSized
      refine (runs_constructPair_law measures world input alloc hfold requested).bind
        fun pairOutcome hpair => ?_
      refine Runs.lift_bind (yields_constructShelf_law measures world input alloc hshelf requested)
        fun shelfOutcome hshelf => ?_
      refine Runs.lift_bind (yields_constructContactStrip world input _ _ _ _ _)
        fun depthStrip _ => (runs_leaveIfBounded_other measures world input _).bind fun _ _ => ?_
      refine Runs.lift_bind (yields_finalizeStrip measures world input alloc depthStrip)
        fun depthStripOutcome _ => ?_
      refine Runs.lift_bind (yields_constructContactStrip world input _ _ _ _ _)
        fun contactStrip _ => (runs_leaveIfBounded_other measures world input _).bind fun _ _ => ?_
      refine Runs.lift_bind (yields_finalizeStrip measures world input alloc contactStrip)
        fun contactStripOutcome _ => ?_
      dsimp only
      have hlaw : ∀ constructions : DirectionalConstructions heap,
          constructions.pairOutcome = pairOutcome → constructions.shelfOutcome = shelfOutcome →
          LayoutLaw measures world input alloc constructions := by
        intro constructions hpairOutcome hshelfOutcome
        refine ⟨requested, transforms, haxes, htransforms, ?_, ?_⟩
        · rwa [hpairOutcome]
        · rwa [hshelfOutcome]
      split
      · exact (runs_continueStrips_other measures world input alloc _ _).bind fun lanes _ =>
          Runs.pure (hlaw _ rfl rfl)
      · exact Runs.pure (hlaw _ rfl rfl)

end

end PolygonNesting.PairFold
