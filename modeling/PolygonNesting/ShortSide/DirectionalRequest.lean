import PolygonNesting.Lib.StatefulCall
import PolygonNesting.ShortSide.ConstructPairFold
import PolygonNesting.ShortSide.DirectionalIncumbent

/-!
# The outcome of a directional request

Every finalized construction is sound: it carries its placements exactly where it is
accepted, and then it places the requested pieces, each once.  An accepted one has exact
metrics and a hash.  The strips of the other orders are played against what there is, one
after the other, so the outcome of a request is a least of all accepted constructions.
-/

set_option linter.unusedSectionVars false

namespace PolygonNesting.PairFold

open StatefulCall Comparator Tournament

variable {F : Type} [LinearOrder F] [Zero F] [One F] [Add F] [Sub F] [Neg F]
  [Mul F] [Div F] [JsMath F] {heap : ℕ → IrregularPlacedPiece F} {σ : Type}

/-! ## §1  Sound outcomes -/

/-- The ids of some placed pieces. -/
def placedIds (placed : List (PlacedArc heap)) : List PieceId :=
  placed.map fun arc => arc.piece.placement.preparedId

/-- The pieces of the request, each once. -/
structure PlacesRequest (input : IntrinsicShortSidePairFoldInput F)
    (placed : List (PlacedArc heap)) : Prop where
  perm : (placedIds placed).Perm (input.preparedPieces.map preparedPieceId)
  nodup : (placedIds placed).Nodup

/-- Placements where and only where the outcome is accepted, and then of the request. -/
structure Sound (input : IntrinsicShortSidePairFoldInput F)
    (outcome : IntrinsicShortSidePairFoldOutcome heap) : Prop where
  placed_iff : outcome.placedCollisionGeometries.isSome = true ↔ Accepted outcome
  places : ∀ placed ∈ outcome.placedCollisionGeometries, PlacesRequest input placed

/-- A sound outcome that can be ranked as soon as it is accepted. -/
structure Finalized (input : IntrinsicShortSidePairFoldInput F)
    (outcome : IntrinsicShortSidePairFoldOutcome heap) : Prop extends Sound input outcome where
  exact : Accepted outcome → (exactPromotionMetrics outcome).isSome = true
  hash : Accepted outcome → outcome.trace.canonicalGeometryHash.isSome = true

/-- An outcome without placements that is not accepted. -/
structure Failed (outcome : IntrinsicShortSidePairFoldOutcome heap) : Prop where
  not_accepted : ¬ Accepted outcome
  placed : outcome.placedCollisionGeometries = none

theorem Failed.finalized {outcome : IntrinsicShortSidePairFoldOutcome heap}
    (h : Failed outcome) (input : IntrinsicShortSidePairFoldInput F) : Finalized input outcome where
  placed_iff := by
    rw [h.placed]
    exact iff_of_false Bool.false_ne_true h.not_accepted
  places placed hplaced := by
    rw [h.placed] at hplaced
    cases hplaced
  exact haccepted := absurd haccepted h.not_accepted
  hash haccepted := absurd haccepted h.not_accepted

theorem placesRequest_of_exactTargetIdentity {input : IntrinsicShortSidePairFoldInput F}
    {placed : List (PlacedArc heap)}
    (h : exactTargetIdentity (input.preparedPieces.map preparedPieceId) (placedIds placed) = true) :
    PlacesRequest input placed := by
  unfold exactTargetIdentity at h
  simp only [Bool.and_eq_true, beq_iff_eq, List.all_eq_true, decide_eq_true_eq] at h
  obtain ⟨⟨⟨hexpected, hplaced⟩, hlength⟩, hmem⟩ := h
  have hnodup : (input.preparedPieces.map preparedPieceId).Nodup := by
    rw [← List.dedup_eq_self]
    exact (List.dedup_sublist _).eq_of_length hexpected
  have hnodup' : (placedIds placed).Nodup := by
    rw [← List.dedup_eq_self]
    exact (List.dedup_sublist _).eq_of_length hplaced
  exact ⟨((hnodup.subperm hmem).perm_of_length_le hlength.le).symm, hnodup'⟩

/-! ## §2  Single calls -/

/-- A call of the observer always ends, with an answer that satisfies `post`. -/
abbrev Yields {α : Type} (call : ObserverCall F σ α) (post : α → Prop) : Prop :=
  Ends (fun _ => True) call post

theorem yields_ask {α : Type} (call : σ → α × σ) :
    Yields (F := F) (ask call) fun _ => True :=
  fun s _ => ⟨(call s.2).1, (s.1, (call s.2).2), rfl, trivial, trivial⟩

theorem yields_readRuntime : Yields (F := F) (σ := σ) readRuntime fun _ => True :=
  fun s _ => ⟨s.1, s, rfl, trivial, trivial⟩

theorem yields_modifyRuntime (f : ObserverRuntime F → ObserverRuntime F) :
    Yields (σ := σ) (modifyRuntime f) fun _ => True :=
  fun s _ => ⟨(), (f s.1, s.2), rfl, trivial, trivial⟩

section

variable (measures : TerminalMeasures F) (world : ObserverWorld σ heap)
  (input : IntrinsicShortSidePairFoldInput F)

theorem yields_sampleRss : Yields (sampleRss world) fun _ => True :=
  (yields_ask _).bind fun _ _ => (yields_modifyRuntime _).bind fun _ _ =>
    yields_readRuntime.bind fun _ _ => Ends.pure trivial

theorem yields_boundedStatus : Yields (boundedStatus world) fun _ => True := by
  refine (yields_ask _).bind fun now _ => yields_readRuntime.bind fun runtime _ => ?_
  split
  · exact Ends.pure trivial
  · refine (yields_sampleRss world).bind fun rss _ => ?_
    split
    · exact Ends.pure trivial
    · exact Ends.pure trivial

theorem toStatus_ne_accepted (bounded : BoundedStatus) : bounded.toStatus ≠ .accepted := by
  cases bounded <;> decide

theorem yields_failedOutcome {failure : Failure} (h : failure.status ≠ .accepted) :
    Yields (failedOutcome measures world input failure) Failed :=
  (yields_ask _).bind fun _ _ => (yields_sampleRss world).bind fun _ _ =>
    yields_readRuntime.bind fun _ _ => Ends.pure ⟨h, rfl⟩

/-! ## §3  Finalization -/

theorem toGridMm_of_physicalDimensions {placed : List (IrregularPlacedPiece F)}
    {sheet : SheetSpec F} {dimensions : PhysicalDimensions F}
    (h : physicalDimensions placed sheet = some dimensions) :
    toGridMm dimensions.requestedShortAxisMm = some dimensions.requestedShortAxisGrid := by
  unfold physicalDimensions at h
  simp only [Option.bind_eq_bind, Option.bind_eq_some_iff, Option.some.injEq] at h
  obtain ⟨x, -, y, -, short, hshort, long, -, rfl⟩ := h
  exact hshort

theorem yields_finalizeOutcome (params : FinalizePlacedLayoutInput heap)
    (state : List (PlacedArc heap)) (prescribedRotationDeg : ShortSideRotationDeg) :
    Yields (finalizeOutcome measures world input params state prescribedRotationDeg)
      (Finalized input) := by
  have hprotected : IntrinsicShortSidePairFoldStatus.failedProtectedFallback ≠ .accepted := by
    decide
  have hfailed : ∀ failure : Failure, failure.status = .failedProtectedFallback →
      Yields (failedOutcome measures world input failure) (Finalized input) := fun _ h =>
    (yields_failedOutcome measures world input (h ▸ hprotected)).mono fun _ hfailed =>
      hfailed.finalized input
  unfold finalizeOutcome
  dsimp only
  cases hmetrics : measureTerminal measures input (state.map PlacedArc.piece) with
  | none => exact hfailed _ rfl
  | some metrics =>
      dsimp only
      split
      · exact hfailed _ rfl
      · have hveto : Yields (σ := σ)
            (noteVeto input params (state.map PlacedArc.piece) metrics) fun _ => True := by
          unfold noteVeto
          dsimp only
          split
          · exact yields_modifyRuntime _
          · exact Ends.pure trivial
        refine hveto.bind fun _ _ => (yields_ask _).bind fun now _ =>
          (yields_sampleRss world).bind fun rss _ => yields_readRuntime.bind fun runtime _ =>
            Ends.pure ?_
        by_cases hidentity :
            terminalTargetIdentity input (state.map PlacedArc.piece) = true
        · simp only [hidentity, if_true]
          refine ⟨⟨iff_of_true rfl rfl, fun placed hplaced => ?_⟩, fun _ => ?_, fun _ => rfl⟩
          · obtain rfl := Option.some.inj hplaced
            refine placesRequest_of_exactTargetIdentity ?_
            unfold terminalTargetIdentity at hidentity
            rwa [List.map_map] at hidentity
          · unfold measureTerminal at hmetrics
            simp only [Option.bind_eq_bind, Option.bind_eq_some_iff, Option.some.injEq] at hmetrics
            obtain ⟨dimensions, hdimensions, topology, -, length, -, material, -, identity, -,
              rfl⟩ := hmetrics
            unfold exactPromotionMetrics withMeasuredTrace
            dsimp only
            rw [toGridMm_of_physicalDimensions hdimensions]
            rfl
        · simp only [hidentity]
          exact Failed.finalized ⟨fun h => (by cases h), rfl⟩ input

variable (alloc : IrregularPlacedPiece F → PlacedArc heap)

theorem yields_finalizePlacedLayout (params : FinalizePlacedLayoutInput heap) :
    Yields (finalizePlacedLayout measures world input alloc params) (Finalized input) := by
  have hfailed : ∀ failure : Failure, failure.status ≠ .accepted →
      Yields (failedOutcome measures world input failure) (Finalized input) := fun _ h =>
    (yields_failedOutcome measures world input h).mono fun _ hfailed => hfailed.finalized input
  have hprotected : IntrinsicShortSidePairFoldStatus.failedProtectedFallback ≠ .accepted := by
    decide
  have hcap : IntrinsicShortSidePairFoldStatus.traceCap ≠ .accepted := by decide
  refine (yields_boundedStatus world).bind fun bounded _ => ?_
  cases bounded with
  | some bounded => exact hfailed _ (toStatus_ne_accepted bounded)
  | none =>
      dsimp only
      cases legalPhysicalState measures input alloc params.placed with
      | none => exact hfailed _ hprotected
      | some physical =>
          refine (yields_finalizeOutcome measures world input params physical _).bind
            fun outcome houtcome => (yields_boundedStatus world).bind fun bounded _ => ?_
          cases bounded with
          | some bounded => exact hfailed _ (toStatus_ne_accepted bounded)
          | none =>
              refine yields_readRuntime.bind fun runtime _ => ?_
              split
              · exact hfailed _ hcap
              · exact Ends.pure houtcome

/-- An outcome of the request: some construction was finalized to it. -/
def IsOutcome (outcome : IntrinsicShortSidePairFoldOutcome heap) : Prop :=
  ∃ params s s', (finalizePlacedLayout measures world input alloc params).run s =
    some (outcome, s')

theorem IsOutcome.finalized {outcome : IntrinsicShortSidePairFoldOutcome heap}
    (h : IsOutcome measures world input alloc outcome) : Finalized input outcome := by
  obtain ⟨params, s, s', hrun⟩ := h
  exact (yields_finalizePlacedLayout measures world input alloc params).of_run trivial hrun

theorem yields_isOutcome (params : FinalizePlacedLayoutInput heap) :
    Yields (finalizePlacedLayout measures world input alloc params)
      (IsOutcome measures world input alloc) :=
  (yields_finalizePlacedLayout measures world input alloc params).to_run.mono
    fun _ ⟨s, s', _, hrun⟩ => ⟨params, s, s', hrun⟩

/-! ## §4  Constructions -/

/-- The request is left by a failed outcome or an error. -/
def FailedExit : ObserverExit heap → Prop
  | .failed outcome => Failed outcome
  | .error _ => True

theorem runs_leave {α : Type} {status : IntrinsicShortSidePairFoldStatus} (reason : String)
    (h : status ≠ .accepted) {post : α → Prop} :
    Runs (fun _ => True) (leave measures world input status reason) post FailedExit :=
  Runs.lift_bind (yields_failedOutcome measures world input h) fun _ hfailed =>
    Runs.throw hfailed

theorem runs_leaveIfBounded (reached : ObserverRuntime F → String) :
    Runs (fun _ => True) (leaveIfBounded measures world input reached) (fun _ => True)
      FailedExit := by
  refine Runs.lift_bind (yields_boundedStatus world) fun bounded _ => ?_
  cases bounded with
  | none => exact Runs.pure trivial
  | some bounded =>
      exact Runs.lift_bind yields_readRuntime fun runtime _ =>
        runs_leave measures world input _ (toStatus_ne_accepted bounded)

theorem runs_selectTransforms (piece : IrregularPreparedPiece F) :
    Runs (fun _ => True) (selectTransforms measures world input piece) (fun _ => True)
      FailedExit := by
  have hstep : ∀ (selected : SelectedTransforms F) transform, True →
      Runs (fun _ => True) (evaluateTransform measures world input piece selected transform)
        (fun _ => True) FailedExit := by
    intro selected transform _
    refine Runs.lift_bind (yields_modifyRuntime _) fun _ _ => ?_
    have htransform : Runs (fun _ => True)
        (transformCollisionGeometry world piece.collisionGeometry transform) (fun _ => True)
        FailedExit := by
      refine Runs.lift_bind (yields_ask _) fun answer _ => ?_
      cases answer with
      | ok transformed => exact Runs.pure trivial
      | error message => exact Runs.throw trivial
    refine htransform.bind fun geometry _ =>
      (runs_leaveIfBounded measures world input _).bind fun _ _ => ?_
    cases selectedTransform piece geometry with
    | none => exact Runs.pure trivial
    | some candidate => exact Runs.pure trivial
  refine (Runs.foldlM (fun selected transform _ => hstep selected transform) trivial).bind
    fun selected _ => ?_
  split
  · exact Runs.pure trivial
  · exact runs_leave measures world input _ (by decide)

theorem runs_searchPair (selectedTransforms : List (SelectedTransform F))
    (requested : RequestedAxes) :
    Runs (fun _ => True) (searchPair measures world input selectedTransforms requested)
      (fun _ => True) FailedExit :=
  Runs.foldlM (fun _ _ _ _ => (runs_leaveIfBounded measures world input _).bind fun _ _ =>
    Runs.lift_bind (yields_modifyRuntime _) fun _ _ =>
      (runs_leaveIfBounded measures world input _).bind fun _ _ => Runs.pure trivial) trivial

/-- Every construction there is was finalized. -/
def AllOutcomes (outcomes : List (IntrinsicShortSidePairFoldOutcome heap)) : Prop :=
  ∀ outcome ∈ outcomes, IsOutcome measures world input alloc outcome

theorem runs_constructPair (selectedTransforms : List (SelectedTransform F))
    (requested : RequestedAxes) :
    Runs (fun _ => True)
      (constructPair measures world input alloc selectedTransforms requested)
      (fun outcome => AllOutcomes measures world input alloc outcome.toList) FailedExit := by
  refine (runs_searchPair measures world input selectedTransforms requested).bind
    fun pair _ => ?_
  cases pair with
  | none => exact Runs.pure fun _ h => absurd h List.not_mem_nil
  | some pair =>
      dsimp only
      split
      · exact runs_leave measures world input _ (by decide)
      · refine Runs.lift_bind (yields_isOutcome measures world input alloc _)
          fun outcome houtcome => Runs.pure fun o ho => ?_
        obtain rfl := List.mem_singleton.mp ho
        exact houtcome

theorem yields_constructShelf (shelfTransforms : List (SelectedTransform F))
    (requested : RequestedAxes) :
    Yields (constructShelf measures world input alloc shelfTransforms requested)
      (fun outcome => AllOutcomes measures world input alloc outcome.toList) := by
  unfold constructShelf
  split
  · exact Ends.pure fun _ h => absurd h List.not_mem_nil
  · refine (yields_isOutcome measures world input alloc _).bind
      fun outcome houtcome => Ends.pure fun o ho => ?_
    obtain rfl := List.mem_singleton.mp ho
    exact houtcome

theorem yields_constructContactStrip
    (selectionPolicy : ContactStrip.IntrinsicShortSideContactStripSelectionPolicy)
    (orderPolicy : ContactStrip.IntrinsicShortSideContactStripOrderPolicy)
    (preparedPieces : List (IrregularPreparedPiece F))
    (maximumCandidateEvaluations maximumBacktracks : Option ℕ) :
    Yields (constructContactStrip world input selectionPolicy orderPolicy preparedPieces
      maximumCandidateEvaluations maximumBacktracks) fun _ => True := by
  have hcontrol : Yields (stripRuntimeControl world) fun _ => True :=
    (yields_ask _).bind fun _ _ => (yields_sampleRss world).bind fun _ _ =>
      yields_readRuntime.bind fun _ _ => Ends.pure trivial
  exact hcontrol.bind fun _ _ => yields_readRuntime.bind fun _ _ => (yields_ask _).bind
    fun _ _ => (yields_modifyRuntime _).bind fun _ _ => Ends.pure trivial

theorem yields_finalizeStrip
    (strip : ContactStrip.IntrinsicShortSideContactStripOutcome heap) :
    Yields (finalizeStrip measures world input alloc strip)
      (fun outcome => AllOutcomes measures world input alloc outcome.toList) := by
  unfold finalizeStrip
  split
  · exact Ends.pure fun _ h => absurd h List.not_mem_nil
  · refine (yields_isOutcome measures world input alloc _).bind
      fun outcome houtcome => Ends.pure fun o ho => ?_
    obtain rfl := List.mem_singleton.mp ho
    exact houtcome

theorem allOutcomes_select {first second : Option (IntrinsicShortSidePairFoldOutcome heap)}
    (hfirst : AllOutcomes measures world input alloc first.toList)
    (hsecond : AllOutcomes measures world input alloc second.toList) :
    AllOutcomes measures world input alloc
      (selectDirectionalIncumbent first second).toList := by
  intro o ho
  rcases eq_or_eq_of_selectDirectionalIncumbent (Option.mem_toList.mp ho) with h | h
  · exact hfirst o (Option.mem_toList.mpr h)
  · exact hsecond o (Option.mem_toList.mpr h)

/-- The strips so far are finalized, and the best of them is kept. -/
structure Played (base : List (IntrinsicShortSidePairFoldOutcome heap))
    (lanes : StripLanes heap) : Prop where
  outcomes : AllOutcomes measures world input alloc lanes.continuedOutcomes
  strip : AllOutcomes measures world input alloc lanes.stripOutcome.toList
  optimal : (∀ o ∈ base ++ lanes.continuedOutcomes, Accepted o → Measured o) →
    Optimal Accepted directionalOrder (base ++ lanes.continuedOutcomes) lanes.stripOutcome

/-- One more strip is played against the best so far. -/
theorem Played.next {base : List (IntrinsicShortSidePairFoldOutcome heap)}
    {lanes next : StripLanes heap} {continued : IntrinsicShortSidePairFoldOutcome heap}
    (h : Played measures world input alloc base lanes)
    (hcontinued : IsOutcome measures world input alloc continued)
    (hnext : next.continuedOutcomes = lanes.continuedOutcomes ++ [continued])
    (hstrip : next.stripOutcome =
      selectDirectionalIncumbent lanes.stripOutcome (some continued)) :
    Played measures world input alloc base next where
  outcomes := by
    rw [hnext]
    intro o ho
    rcases List.mem_append.mp ho with ho | ho
    · exact h.outcomes o ho
    · obtain rfl := List.mem_singleton.mp ho
      exact hcontinued
  strip := by
    rw [hstrip]
    exact allOutcomes_select measures world input alloc h.strip fun o ho =>
      List.mem_singleton.mp ho ▸ hcontinued
  optimal := by
    rw [hnext, hstrip, ← List.append_assoc]
    intro hmeasured
    have hbefore := h.optimal fun o ho => hmeasured o (List.mem_append_left _ ho)
    have hlast : Keeps Accepted directionalOrder (some continued).toList (some continued) :=
      keeps_toList orderOn_directionalOrder fun o ho =>
        hmeasured o (List.mem_append_right _ (Option.mem_toList.mpr ho))
    exact selects_selectDirectionalIncumbent.pairing orderOn_directionalOrder hmeasured
      hbefore.toKeeps hlast

theorem runs_continueStrips (base : List (IntrinsicShortSidePairFoldOutcome heap))
    (continuations : List (ContactStrip.IntrinsicShortSideContactStripOrderPolicy ×
      List (IrregularPreparedPiece F))) :
    ∀ lanes : StripLanes heap, Played measures world input alloc base lanes →
      Runs (fun _ => True) (continueStrips measures world input alloc continuations lanes)
        (Played measures world input alloc base) FailedExit := by
  induction continuations with
  | nil => exact fun lanes h => Runs.pure h
  | cons continuation rest ih =>
      obtain ⟨orderPolicy, pieces⟩ := continuation
      intro lanes h
      unfold continueStrips
      refine Runs.lift_bind (yields_constructContactStrip world input _ _ _ _ _)
        fun strip _ => (runs_leaveIfBounded measures world input _).bind fun _ _ => ?_
      refine Runs.lift_bind (yields_finalizeStrip measures world input alloc strip)
        fun outcome houtcome => ?_
      cases outcome with
      | none => exact ih _ ⟨h.outcomes, h.strip, h.optimal⟩
      | some continued =>
          have hcontinued : IsOutcome measures world input alloc continued :=
            houtcome continued (List.mem_singleton_self continued)
          dsimp only
          split
          · exact Runs.pure (h.next measures world input alloc hcontinued rfl rfl)
          · exact ih _ (h.next measures world input alloc hcontinued rfl rfl)

/-- All outcomes of the constructions that were finalized. -/
def DirectionalConstructions.outcomes (constructions : DirectionalConstructions heap) :
    List (IntrinsicShortSidePairFoldOutcome heap) :=
  (constructions.pairOutcome.toList ++ constructions.shelfOutcome.toList) ++
    (constructions.depthStripOutcome.toList ++ constructions.contactStripOutcome.toList ++
      constructions.continuedOutcomes)

/-- The constructions were finalized, and the last selection keeps a least of them. -/
structure Constructed (constructions : DirectionalConstructions heap) : Prop where
  outcomes : AllOutcomes measures world input alloc constructions.outcomes
  selected : AllOutcomes measures world input alloc
    (selectDirectionalIncumbent constructions.incumbent constructions.stripOutcome).toList
  optimal : (∀ o ∈ constructions.outcomes, Accepted o → Measured o) →
    Optimal Accepted directionalOrder constructions.outcomes
      (selectDirectionalIncumbent constructions.incumbent constructions.stripOutcome)

/-- The best of two outcomes that may be missing. -/
theorem optimal_select (first second : Option (IntrinsicShortSidePairFoldOutcome heap))
    (h : ∀ o ∈ first.toList ++ second.toList, Accepted o → Measured o) :
    Optimal Accepted directionalOrder (first.toList ++ second.toList)
      (selectDirectionalIncumbent first second) :=
  selects_selectDirectionalIncumbent first second h

theorem runs_constructDirectional :
    Runs (fun _ => True) (constructDirectional measures world input alloc)
      (Constructed measures world input alloc) FailedExit := by
  unfold constructDirectional
  cases requestedAxes input with
  | none => exact runs_leave measures world input _ (by decide)
  | some requested =>
      refine (Runs.mapM fun piece _ => runs_selectTransforms measures world input piece).bind
        fun transforms _ => Runs.lift_bind (yields_modifyRuntime _) fun _ _ => ?_
      refine (runs_constructPair measures world input alloc _ requested).bind
        fun pairOutcome hpair => ?_
      refine Runs.lift_bind (yields_constructShelf measures world input alloc _ requested)
        fun shelfOutcome hshelf => ?_
      refine Runs.lift_bind (yields_constructContactStrip world input _ _ _ _ _)
        fun depthStrip _ => (runs_leaveIfBounded measures world input _).bind fun _ _ => ?_
      refine Runs.lift_bind (yields_finalizeStrip measures world input alloc depthStrip)
        fun depthStripOutcome hdepth => ?_
      refine Runs.lift_bind (yields_constructContactStrip world input _ _ _ _ _)
        fun contactStrip _ => (runs_leaveIfBounded measures world input _).bind fun _ _ => ?_
      refine Runs.lift_bind (yields_finalizeStrip measures world input alloc contactStrip)
        fun contactStripOutcome hcontact => ?_
      dsimp only
      have hstart : ∀ lanes : StripLanes heap, lanes.continuedOutcomes = [] →
          lanes.stripOutcome = selectDirectionalIncumbent depthStripOutcome
            contactStripOutcome →
          Played measures world input alloc
            (depthStripOutcome.toList ++ contactStripOutcome.toList) lanes := by
        intro lanes hcontinued hstrip
        refine ⟨?_, ?_, ?_⟩
        · rw [hcontinued]
          exact fun _ h => absurd h List.not_mem_nil
        · rw [hstrip]
          exact allOutcomes_select measures world input alloc hdepth hcontact
        · rw [hcontinued, hstrip, List.append_nil]
          exact optimal_select depthStripOutcome contactStripOutcome
      have hend : ∀ lanes : StripLanes heap, Played measures world input alloc
            (depthStripOutcome.toList ++ contactStripOutcome.toList) lanes →
          Constructed measures world input alloc {
            toStripLanes := lanes
            pairOutcome, shelfOutcome, depthStripOutcome, contactStripOutcome
            incumbent := selectDirectionalIncumbent pairOutcome shelfOutcome } := by
        intro lanes h
        refine ⟨fun o ho => ?_, allOutcomes_select measures world input alloc
          (allOutcomes_select measures world input alloc hpair hshelf) h.strip,
          fun hmeasured => ?_⟩
        · rcases List.mem_append.mp ho with ho | ho
          · exact (List.mem_append.mp ho).elim (hpair o) (hshelf o)
          · rcases List.mem_append.mp ho with ho | ho
            · exact (List.mem_append.mp ho).elim (hdepth o) (hcontact o)
            · exact h.outcomes o ho
        · exact selects_selectDirectionalIncumbent.pairing orderOn_directionalOrder hmeasured
            (optimal_select pairOutcome shelfOutcome fun o ho =>
              hmeasured o (List.mem_append_left _ ho)).toKeeps
            (h.optimal fun o ho => hmeasured o (List.mem_append_right _ ho)).toKeeps
      split
      · exact (runs_continueStrips measures world input alloc _ _ _ (hstart _ rfl rfl)).bind
          fun lanes hlanes => Runs.pure (hend lanes hlanes)
      · exact Runs.pure (hend _ (hstart _ rfl rfl))

/-- An outcome with the placements, the status and the hash of another one. -/
structure Presents (selected outcome : IntrinsicShortSidePairFoldOutcome heap) : Prop where
  placed : outcome.placedCollisionGeometries = selected.placedCollisionGeometries
  status : outcome.trace.status = selected.trace.status
  hash : outcome.trace.canonicalGeometryHash = selected.trace.canonicalGeometryHash

theorem Presents.sound {selected outcome : IntrinsicShortSidePairFoldOutcome heap}
    (h : Presents selected outcome) (hselected : Sound input selected) :
    Sound input outcome where
  placed_iff := by
    unfold Accepted
    rw [h.placed, h.status]
    exact hselected.placed_iff
  places := by
    rw [h.placed]
    exact hselected.places

/-- What the request ends with: a failed outcome, or one that presents the selected. -/
def Composed (constructions : DirectionalConstructions heap)
    (outcome : IntrinsicShortSidePairFoldOutcome heap) : Prop :=
  Failed outcome ∨ ∃ selected, selectDirectionalIncumbent constructions.incumbent
    constructions.stripOutcome = some selected ∧ Presents selected outcome

theorem yields_composeOutcome (constructions : DirectionalConstructions heap) :
    Yields (composeOutcome measures world input constructions)
      (Composed constructions) := by
  have hcap : IntrinsicShortSidePairFoldStatus.traceCap ≠ .accepted := by decide
  -- whatever is selected, the end presents it or fails
  have hend : ∀ (selected : IntrinsicShortSidePairFoldOutcome heap)
      (runtime : ObserverRuntime F) (trace : IntrinsicShortSidePairFoldTrace F),
      Presents selected ⟨trace, selected.placedCollisionGeometries⟩ →
      (Failed selected ∨ selectDirectionalIncumbent constructions.incumbent
        constructions.stripOutcome = some selected) →
      Yields (σ := σ) (if runtime.maximumTraceBytes <
          JsNumber.ofNat (selectedOutputTraceSize measures trace) then
        failedOutcome measures world input (requestFailure .traceCap
          "composite terminal short-side trace exceeds its byte cap.")
      else pure ⟨trace, selected.placedCollisionGeometries⟩) (Composed constructions) := by
    intro selected runtime trace hpresents hselected
    split
    · exact (yields_failedOutcome measures world input hcap).mono fun _ h => .inl h
    · refine Ends.pure ?_
      rcases hselected with hfailed | hselected
      · refine .inl ⟨?_, hpresents.placed.trans hfailed.placed⟩
        unfold Accepted
        rw [hpresents.status]
        exact hfailed.not_accepted
      · exact .inr ⟨selected, hselected, hpresents⟩
  unfold composeOutcome
  cases hselect : selectDirectionalIncumbent constructions.incumbent
      constructions.stripOutcome with
  | some selected =>
      dsimp only
      rw [pure_bind]
      exact (yields_sampleRss world).bind fun rss _ => (yields_ask _).bind fun now _ =>
        yields_readRuntime.bind fun runtime _ =>
          hend selected runtime _ ⟨rfl, rfl, rfl⟩ (.inr hselect)
  | none =>
      refine (yields_failedOutcome measures world input (by decide)).bind
        fun selected hfailed => ?_
      exact (yields_sampleRss world).bind fun rss _ => (yields_ask _).bind fun now _ =>
        yields_readRuntime.bind fun runtime _ =>
          hend selected runtime _ ⟨rfl, rfl, rfl⟩ (.inl hfailed)

/-- The constructions of a run, if it came to its end. -/
def ConstructedAt (s : ObserverRuntime F × σ)
    (constructions : DirectionalConstructions heap) : Prop :=
  ∃ later, (constructDirectional measures world input alloc).run.run s =
    some (.ok constructions, later)

theorem observeOutcome_spec (s : ObserverRuntime F × σ) :
    ∃ outcome s', (observeOutcome measures world input alloc).run s = some (outcome, s') ∧
      (Failed outcome ∨ ∃ constructions, ConstructedAt measures world input alloc s constructions ∧
        Composed constructions outcome) := by
  obtain ⟨result, later, hrun, -, hok, herror⟩ :=
    runs_constructDirectional measures world input alloc s trivial
  unfold observeOutcome constructPairFold
  rw [StateT.run_bind, ExceptT.run_bind, StateT.run_bind]
  rw [show (constructDirectional measures world input alloc).run.run s = some (result, later)
    from hrun]
  cases result with
  | ok constructions =>
      obtain ⟨outcome, s', hcompose, -, hcomposed⟩ :=
        yields_composeOutcome measures world input constructions later trivial
      refine ⟨outcome, s', ?_, .inr ⟨constructions, ⟨later, hrun⟩, hcomposed⟩⟩
      show ((ExceptT.lift (composeOutcome measures world input constructions)).run.run later >>=
        _) = _
      rw [ExceptT.run_lift, StateT.run_map, hcompose]
      rfl
  | error exit =>
      have hexit : FailedExit exit := herror exit rfl
      cases exit with
      | failed outcome => exact ⟨outcome, later, rfl, .inl hexit⟩
      | error error =>
          have hprotected :
              IntrinsicShortSidePairFoldStatus.failedProtectedFallback ≠ .accepted := by decide
          have hyields : Yields (failedOutcome measures world input
              (requestFailure .failedProtectedFallback error.message)) Failed :=
            yields_failedOutcome measures world input hprotected
          obtain ⟨outcome, s', hfailed, -, houtcome⟩ := hyields later trivial
          exact ⟨outcome, s', hfailed, .inl houtcome⟩

/-! ## §5  The law of the incumbent -/

/-- An accepted outcome of the request with a hull of positive area. -/
structure Candidate (outcome : IntrinsicShortSidePairFoldOutcome heap) : Prop where
  of_request : IsOutcome measures world input alloc outcome
  accepted : Accepted outcome
  hull : ∀ interlocking ∈ outcome.trace.interlocking,
    0 < interlocking.occupiedHullDoubledAreaGrid2

theorem Candidate.measured {outcome : IntrinsicShortSidePairFoldOutcome heap}
    (h : Candidate measures world input alloc outcome) : Measured outcome where
  exact := (h.of_request.finalized measures world input alloc).exact h.accepted
  hull := h.hull

theorem Candidate.hash_eq {outcome : IntrinsicShortSidePairFoldOutcome heap}
    (h : Candidate measures world input alloc outcome) :
    outcome.trace.canonicalGeometryHash = some (hashKey outcome) := by
  have hhash := (h.of_request.finalized measures world input alloc).hash h.accepted
  unfold hashKey
  obtain ⟨hash, hsome⟩ := Option.isSome_iff_exists.mp hhash
  rw [hsome]
  rfl

/-- **The directional incumbent.**  One total and transitive order decides every choice
between accepted outcomes of a request, and ties have the same hash.  So any bracket, and
the one of the request, keeps a least of all accepted outcomes, and two brackets of the
same outcomes keep the same hash.  The outcome of a request carries placements exactly
where it is accepted, and then those of the requested pieces; unless it failed it presents
the least of all constructions. -/
theorem directionalIncumbent_least :
    (∃ order : IntrinsicShortSidePairFoldOutcome heap →
        IntrinsicShortSidePairFoldOutcome heap → Ordering,
      Std.TransCmp order ∧
      (∀ first second, Candidate measures world input alloc first →
        Candidate measures world input alloc second →
          selectDirectionalIncumbentChoice (some first) (some second) =
            some (choiceOf (order first second)) ∧
          (order first second = .eq → first.trace.canonicalGeometryHash =
            second.trace.canonicalGeometryHash)) ∧
      (∀ first second : Bracket (IntrinsicShortSidePairFoldOutcome heap),
        (∀ o ∈ (first.pairing second).entrants, Accepted o →
          Candidate measures world input alloc o) →
        Optimal Accepted order (first.pairing second).entrants
          ((first.pairing second).winner selectDirectionalIncumbent)) ∧
      ∀ s constructions, ConstructedAt measures world input alloc s constructions →
        AllOutcomes measures world input alloc constructions.outcomes ∧
        ((∀ o ∈ constructions.outcomes, Accepted o →
            Candidate measures world input alloc o) →
          Optimal Accepted order constructions.outcomes
            (selectDirectionalIncumbent constructions.incumbent constructions.stripOutcome))) ∧
    (∀ first second first' second' : Bracket (IntrinsicShortSidePairFoldOutcome heap),
      (∀ o ∈ (first.pairing second).entrants, Accepted o →
        Candidate measures world input alloc o) →
      (first.pairing second).entrants.Perm (first'.pairing second').entrants →
      ((first.pairing second).winner selectDirectionalIncumbent).map
          (fun o => o.trace.canonicalGeometryHash) =
        ((first'.pairing second').winner selectDirectionalIncumbent).map
          fun o => o.trace.canonicalGeometryHash) ∧
    (∀ outcome, IsOutcome measures world input alloc outcome → Sound input outcome) ∧
    ∀ control start, ∃ outcome,
      observeIntrinsicShortSidePairFold measures world input alloc control start =
        some outcome ∧
      Sound input outcome ∧
      (Failed outcome ∨ ∃ constructions,
        ConstructedAt measures world input alloc (startRuntime world control start)
          constructions ∧
        Composed constructions outcome) := by
  obtain ⟨order, htrans, horder⟩ : OrderOn Measured (directionalOrder :
      IntrinsicShortSidePairFoldOutcome heap → IntrinsicShortSidePairFoldOutcome heap → Ordering) :=
    orderOn_directionalOrder
  have hselect : Selects Measured Accepted directionalOrder
      (selectDirectionalIncumbent : Option (IntrinsicShortSidePairFoldOutcome heap) →
        Option (IntrinsicShortSidePairFoldOutcome heap) →
          Option (IntrinsicShortSidePairFoldOutcome heap)) :=
    selects_selectDirectionalIncumbent
  refine ⟨⟨order, htrans, fun first second hfirst hsecond => ⟨?_, fun htie => ?_⟩,
    fun first second hS => ?_, fun s constructions hrun => ?_⟩,
    fun first second first' second' hS hperm => ?_,
    fun outcome houtcome => (houtcome.finalized measures world input alloc).toSound,
    fun control start => ?_⟩
  · rw [← horder first second hfirst.measured hsecond.measured]
    exact selectDirectionalIncumbentChoice_some hfirst.accepted hsecond.accepted
      hfirst.measured hsecond.measured
  · rw [← horder first second hfirst.measured hsecond.measured] at htie
    rw [hfirst.hash_eq, hsecond.hash_eq, hashKey_eq_of_directionalOrder htie]
  · exact (winner_optimal orderOn_directionalOrder hselect first second fun o ho hacc =>
      (hS o ho hacc).measured).congr fun a ha b hb hacc hacc' =>
        horder a b (hS a ha hacc).measured (hS b hb hacc').measured
  · obtain ⟨later, hrun⟩ := hrun
    have hconstructed : Constructed measures world input alloc constructions :=
      (Ends.of_run (runs_constructDirectional measures world input alloc) trivial hrun).1
        constructions rfl
    refine ⟨hconstructed.outcomes, fun hS => ?_⟩
    exact (hconstructed.optimal fun o ho hacc => (hS o ho hacc).measured).congr
      fun a ha b hb hacc hacc' => horder a b (hS a ha hacc).measured (hS b hb hacc').measured
  · have hwinner := winner_optimal orderOn_directionalOrder hselect first second
      fun o ho hacc => (hS o ho hacc).measured
    have hwinner' := winner_optimal orderOn_directionalOrder hselect first' second'
      fun o ho hacc => (hS o (hperm.mem_iff.mpr ho) hacc).measured
    have hsome : ((first.pairing second).winner selectDirectionalIncumbent).isSome =
        ((first'.pairing second').winner selectDirectionalIncumbent).isSome := by
      rw [Bool.eq_iff_iff, hwinner.isSome_iff, hwinner'.isSome_iff]
      simp only [hperm.mem_iff]
    cases hfirst : (first.pairing second).winner selectDirectionalIncumbent with
    | none =>
        rw [hfirst] at hsome
        rw [Option.isNone_iff_eq_none.mp (Option.isSome_eq_false_iff.mp hsome.symm)]
    | some a =>
        rw [hfirst] at hsome hwinner
        obtain ⟨b, hb⟩ := Option.isSome_iff_exists.mp hsome.symm
        rw [hb] at hwinner' ⊢
        have htie := hwinner.tie orderOn_directionalOrder
          (fun o ho hacc => (hS o ho hacc).measured) hperm hwinner'
        have ha : Candidate measures world input alloc a :=
          hS a (hwinner.mem a rfl) (hwinner.accepted a rfl)
        have hb : Candidate measures world input alloc b :=
          hS b (hperm.mem_iff.mpr (hwinner'.mem b rfl)) (hwinner'.accepted b rfl)
        rw [Option.map_some, Option.map_some, ha.hash_eq, hb.hash_eq,
          hashKey_eq_of_directionalOrder htie]
  · obtain ⟨outcome, later, hrun, hend⟩ := observeOutcome_spec measures world input alloc
      (startRuntime world control start)
    refine ⟨outcome, ?_, ?_, hend⟩
    · unfold observeIntrinsicShortSidePairFold
      rw [hrun]
      rfl
    · rcases hend with hfailed | ⟨constructions, ⟨later, hconstructions⟩, hcomposed⟩
      · exact (hfailed.finalized input).toSound
      · have hconstructed : Constructed measures world input alloc constructions :=
          (Ends.of_run (runs_constructDirectional measures world input alloc) trivial
            hconstructions).1 constructions rfl
        rcases hcomposed with hfailed | ⟨selected, hselected, hpresents⟩
        · exact (hfailed.finalized input).toSound
        · have houtcome := hconstructed.selected selected (Option.mem_toList.mpr hselected)
          exact hpresents.sound input
            (houtcome.finalized measures world input alloc).toSound

end

end PolygonNesting.PairFold
