import PolygonNesting.Canonical.GridContactLaw
import PolygonNesting.Lib.Comparator
import PolygonNesting.ShortSide.ContactStrip

/-!
# The contact-aware winner

Unless a limit is passed, a selection is the one computed without a clock.  That one has
a least baseline and a best winner among the candidates the policy compares, and both
depend on the candidates only, up to ties, and not on their order.
-/

set_option linter.unusedSectionVars false

namespace PolygonNesting.ContactStrip

open StatefulCall Comparator

variable {F : Type} [LinearOrder F] [Zero F] [One F] [Add F] [Sub F] [Neg F]
  [Mul F] [Div F] [JsMath F]

/-! ## §1  Any monad -/

section Relation

variable {M N : Type → Type} [Monad M] [LawfulMonad M] [Monad N] [LawfulMonad N]
  (R : MonadRelation M N) {notBounded : M Unit} {notBounded' : N Unit}
  (h : R.rel notBounded notBounded')

include h

theorem measureBoundaryOverlap_rel (first second : CanonicalGridPath) :
    R.rel (measureBoundaryOverlap notBounded first second)
      (measureBoundaryOverlap notBounded' first second) :=
  R.bind (boundaryOverlapAxisUnits_rel (R.exceptT BoundaryOverlapStop)
    (fun e => R.exceptT_throw e) (R.exceptT_lift h) first second) fun _ => R.pure _

theorem addContacts_rel (worldPath : CanonicalGridPath) :
    ∀ (placed : List (IrregularPlacedPiece F)) (score : ContactScore),
      R.rel (addContacts notBounded worldPath placed score)
        (addContacts notBounded' worldPath placed score)
  | [], score => R.pure _
  | entry :: rest, score => by
      unfold addContacts
      refine R.bind h fun _ => ?_
      cases placedCollisionWorldGridPath entry with
      | none => exact R.pure _
      | some placedWorldPath =>
          dsimp only
          cases hasPositiveCanonicalGridBoundaryContact F worldPath placedWorldPath with
          | none => exact R.pure _
          | some hasPositiveContact =>
              refine R.bind (measureBoundaryOverlap_rel R h _ _) fun overlap => ?_
              cases overlap with
              | aborted => exact R.pure _
              | undecidable => exact addContacts_rel worldPath rest _
              | measured units => exact addContacts_rel worldPath rest _

theorem candidateContactAxisUnits_rel (anchored : AnchoredCandidate F)
    (placed : List (IrregularPlacedPiece F)) (piece : IrregularPreparedPiece F) :
    R.rel (candidateContactAxisUnits notBounded anchored placed piece)
      (candidateContactAxisUnits notBounded' anchored placed piece) := by
  unfold candidateContactAxisUnits
  cases placedCollisionWorldGridPath (stripPlacedPiece piece anchored) with
  | none => exact R.pure _
  | some worldPath => exact addContacts_rel R h worldPath placed _

theorem keepBaseline_rel (baseline : Option (IndexedCandidate F))
    (anchored : IndexedCandidate F) :
    R.rel (keepBaseline notBounded baseline anchored)
      (keepBaseline notBounded' baseline anchored) := by
  refine R.bind h fun _ => ?_
  cases baseline with
  | none => exact R.pure _
  | some current =>
      dsimp only
      split
      · exact R.pure _
      · exact R.pure _

variable {selectionPolicy : IntrinsicShortSideContactStripSelectionPolicy}

theorem keepEligible_rel (baseline : AnchoredCandidate F) (tied : List (IndexedCandidate F))
    (anchored : IndexedCandidate F) :
    R.rel (keepEligible notBounded selectionPolicy baseline tied anchored)
      (keepEligible notBounded' selectionPolicy baseline tied anchored) := by
  refine R.bind h fun _ => ?_
  split
  · exact R.pure _
  · exact R.pure _

theorem challenge_rel (placed : List (IrregularPlacedPiece F))
    (piece : IrregularPreparedPiece F) (baseline : IndexedCandidate F) :
    ∀ (rest : List (IndexedCandidate F)) (winner : IndexedCandidate F)
      (winnerScore : ContactScore),
      R.rel (challenge notBounded placed piece selectionPolicy baseline rest winner winnerScore)
        (challenge notBounded' placed piece selectionPolicy baseline rest winner winnerScore)
  | [], _, _ => R.pure _
  | challenger :: rest, winner, winnerScore => by
      unfold challenge
      refine R.bind h fun _ => ?_
      split
      · exact challenge_rel placed piece baseline rest _ _
      · split
        · exact challenge_rel placed piece baseline rest _ _
        · refine R.bind (candidateContactAxisUnits_rel R h _ placed piece) fun score => ?_
          cases score with
          | none => exact R.pure _
          | some challengerScore =>
              dsimp only
              split
              · exact challenge_rel placed piece baseline rest _ _
              · exact challenge_rel placed piece baseline rest _ _

theorem selectContactAwareWinner_rel (candidates : List (AnchoredCandidate F))
    (placed : List (IrregularPlacedPiece F)) (piece : IrregularPreparedPiece F) :
    R.rel (selectContactAwareWinner notBounded candidates placed piece selectionPolicy)
      (selectContactAwareWinner notBounded' candidates placed piece selectionPolicy) := by
  refine R.bind (R.foldlM (fun baseline anchored _ =>
    keepBaseline_rel R h baseline anchored) none) fun baseline => ?_
  cases baseline with
  | none => exact R.pure _
  | some baseline =>
      refine R.bind (R.foldlM (fun tied anchored _ =>
        keepEligible_rel R h baseline.candidate tied anchored) []) fun tied => ?_
      dsimp only
      split
      · exact R.pure _
      · refine R.bind (candidateContactAxisUnits_rel R h _ placed piece) fun score => ?_
        cases score with
        | none => exact R.pure _
        | some baselineScore =>
            refine R.bind (challenge_rel R h placed piece baseline tied baseline
              baselineScore) fun result => ?_
            cases result with
            | none => exact R.pure _
            | some winner => exact R.pure _

end Relation

/-! ## §2  Limits -/

/-- A reading is past the limit. -/
def Passed (runtime : StripRuntime F) : BoundedStatus → Prop
  | .deadline => ∃ call, runtime.maximumRuntimeMs < runtime.now call - runtime.startedAt
  | .memoryCap => ∃ peak, (peak = runtime.peakRssBytes ∨
      ∃ call, peak = runtime.currentRssBytes call) ∧
      runtime.maximumRssDeltaBytes < max 0 (peak - runtime.startingRssBytes)

/-- The clock, the memory and the limits stay; the peak is a reading. -/
structure SameLimits (runtime later : StripRuntime F) : Prop where
  startedAt : later.startedAt = runtime.startedAt
  startingRssBytes : later.startingRssBytes = runtime.startingRssBytes
  maximumRuntimeMs : later.maximumRuntimeMs = runtime.maximumRuntimeMs
  maximumRssDeltaBytes : later.maximumRssDeltaBytes = runtime.maximumRssDeltaBytes
  now : later.now = runtime.now
  currentRssBytes : later.currentRssBytes = runtime.currentRssBytes
  peak : later.peakRssBytes = runtime.peakRssBytes ∨
    ∃ call, later.peakRssBytes = runtime.currentRssBytes call

theorem SameLimits.refl (runtime : StripRuntime F) : SameLimits runtime runtime :=
  ⟨rfl, rfl, rfl, rfl, rfl, rfl, .inl rfl⟩

variable {runtime : StripRuntime F}

/-- A status means that its limit is passed. -/
theorem boundedStatus_ends : Ends (SameLimits runtime) boundedStatus
    fun status => ∀ bounded ∈ status, Passed runtime bounded := by
  intro later hlater
  have hpeak : max later.peakRssBytes (later.currentRssBytes later.rssCalls) =
        runtime.peakRssBytes ∨
      ∃ call, max later.peakRssBytes (later.currentRssBytes later.rssCalls) =
        runtime.currentRssBytes call := by
    rcases max_choice later.peakRssBytes (later.currentRssBytes later.rssCalls) with hmax | hmax
    · rw [hmax]
      exact hlater.peak
    · rw [hmax, hlater.currentRssBytes]
      exact .inr ⟨_, rfl⟩
  by_cases htime : later.maximumRuntimeMs < later.now later.nowCalls - later.startedAt
  · refine ⟨some .deadline, { later with
      nowCalls := later.nowCalls + 1 }, ?_, { hlater with }, ?_⟩
    · show (if _ then _ else _ : StateT (StripRuntime F) Option _).run _ = _
      rw [if_pos htime]
      rfl
    · intro bounded hbounded
      obtain rfl := Option.some.inj hbounded
      rw [hlater.maximumRuntimeMs, hlater.now, hlater.startedAt] at htime
      exact ⟨_, htime⟩
  · by_cases hmemory : later.maximumRssDeltaBytes <
        max 0 (max later.peakRssBytes (later.currentRssBytes later.rssCalls) -
          later.startingRssBytes)
    · refine ⟨some .memoryCap, { later with
        nowCalls := later.nowCalls + 1
        peakRssBytes := max later.peakRssBytes (later.currentRssBytes later.rssCalls)
        rssCalls := later.rssCalls + 1 }, ?_, { hlater with peak := hpeak }, ?_⟩
      · show (if _ then _ else _ : StateT (StripRuntime F) Option _).run _ = _
        rw [if_neg htime]
        show (if _ then _ else _ : StateT (StripRuntime F) Option _).run _ = _
        rw [if_pos hmemory]
        rfl
      · intro bounded hbounded
        obtain rfl := Option.some.inj hbounded
        rw [hlater.maximumRssDeltaBytes, hlater.startingRssBytes] at hmemory
        exact ⟨_, hpeak, hmemory⟩
    · refine ⟨none, { later with
        nowCalls := later.nowCalls + 1
        peakRssBytes := max later.peakRssBytes (later.currentRssBytes later.rssCalls)
        rssCalls := later.rssCalls + 1 }, ?_, { hlater with peak := hpeak }, ?_⟩
      · show (if _ then _ else _ : StateT (StripRuntime F) Option _).run _ = _
        rw [if_neg htime]
        show (if _ then _ else _ : StateT (StripRuntime F) Option _).run _ = _
        rw [if_neg hmemory]
        rfl
      · intro bounded hbounded
        cases hbounded

theorem notBounded_answers : (answersWith (SameLimits runtime) (Passed runtime)).rel
    (notBounded boundedStatus) (pure ()) := by
  intro later hlater
  obtain ⟨status, after, hrun, hafter, hstatus⟩ := boundedStatus_ends later hlater
  cases status with
  | none =>
      refine ⟨.ok (), after, ?_, hafter, .inl rfl⟩
      unfold notBounded
      rw [ExceptT.run_bind_lift, StateT.run_bind, hrun]
      rfl
  | some bounded =>
      refine ⟨.error bounded, after, ?_, hafter, .inr ⟨bounded, hstatus bounded rfl, rfl⟩⟩
      unfold notBounded
      rw [ExceptT.run_bind_lift, StateT.run_bind, hrun]
      rfl

/-! ## §3  The selection without a clock -/

def contactScore (anchored : AnchoredCandidate F) (placed : List (IrregularPlacedPiece F))
    (piece : IrregularPreparedPiece F) : Option ContactScore :=
  (candidateContactAxisUnits (M := Id) (pure ()) anchored placed piece).run

def contactAwareSelection (candidates : List (AnchoredCandidate F))
    (placed : List (IrregularPlacedPiece F)) (piece : IrregularPreparedPiece F)
    (selectionPolicy : IntrinsicShortSideContactStripSelectionPolicy) :
    Option (ContactAwareSelection F) :=
  (selectContactAwareWinner (M := Id) (pure ()) candidates placed piece selectionPolicy).run

/-- **A selection is the one without a clock**, unless a limit is passed. -/
theorem selectContactAwareWinner_answers (candidates : List (AnchoredCandidate F))
    (placed : List (IrregularPlacedPiece F)) (piece : IrregularPreparedPiece F)
    (selectionPolicy : IntrinsicShortSideContactStripSelectionPolicy) :
    AnswersLike (SameLimits runtime) (Passed runtime)
      (selectContactAwareWinner (notBounded boundedStatus) candidates placed piece
        selectionPolicy)
      (.ok (contactAwareSelection candidates placed piece selectionPolicy)) :=
  selectContactAwareWinner_rel _ notBounded_answers candidates placed piece

/-- The candidates the policy compares. -/
def eligible (selectionPolicy : IntrinsicShortSideContactStripSelectionPolicy)
    (candidates : List (AnchoredCandidate F)) (baseline : AnchoredCandidate F) :
    List (AnchoredCandidate F) :=
  candidates.filter fun anchored => isEligible selectionPolicy baseline anchored

/-- A best score, and first in the order of the anchors among the best. -/
def IsBest (placed : List (IrregularPlacedPiece F)) (piece : IrregularPreparedPiece F)
    (candidates : List (AnchoredCandidate F)) (winner : AnchoredCandidate F) : Prop :=
  winner ∈ candidates ∧ ∃ score, contactScore winner placed piece = some score ∧
    ∀ anchored ∈ candidates, ∀ other, contactScore anchored placed piece = some other →
      compareContactScores other score ≠ .gt ∧
        (other = score → compareAnchoredCandidates winner anchored ≠ .gt)

/-- Every one of the candidates has a score. -/
def AllMeasurable (placed : List (IrregularPlacedPiece F)) (piece : IrregularPreparedPiece F)
    (candidates : List (AnchoredCandidate F)) : Prop :=
  ∀ anchored ∈ candidates, contactScore anchored placed piece ≠ none

structure IsContactAwareSelection (candidates : List (AnchoredCandidate F))
    (placed : List (IrregularPlacedPiece F)) (piece : IrregularPreparedPiece F)
    (selectionPolicy : IntrinsicShortSideContactStripSelectionPolicy)
    (selection : ContactAwareSelection F) : Prop where
  baseline_mem : selection.baselineWinner ∈ candidates
  baseline_least : ∀ anchored ∈ candidates,
    compareAnchoredCandidates selection.baselineWinner anchored ≠ .gt
  tied : selection.tied = eligible selectionPolicy candidates selection.baselineWinner
  tiedCount : selection.tiedCount = selection.tied.length
  changed : selection.selectionChanged = true ↔
    selection.winner ≠ selection.baselineWinner
  best : AllMeasurable placed piece selection.tied →
    IsBest placed piece selection.tied selection.winner
  fallback : ¬ AllMeasurable placed piece selection.tied →
    selection.winner = selection.baselineWinner

/-! ### Comparators -/

theorem compareAnchoredCandidates_trans :
    Std.TransCmp (compareAnchoredCandidates : AnchoredCandidate F → AnchoredCandidate F → _) :=
  transCmp_then (transCmp_comap compare AnchoredCandidate.maxLongAxisGrid) <|
  transCmp_then (transCmp_comap compare AnchoredCandidate.anchorLongAxisGrid) <|
  transCmp_then (transCmp_comap compare AnchoredCandidate.anchorShortAxisGrid) <|
  transCmp_then (transCmp_comap compare AnchoredCandidate.maxShortAxisGrid) <|
  transCmp_then (transCmp_comap compare AnchoredCandidate.translationShortAxisGrid) <|
  transCmp_then (transCmp_comap compare AnchoredCandidate.translationLongAxisGrid) <|
  transCmp_then (transCmp_comap compare AnchoredCandidate.transformIndex) <|
  transCmp_then (transCmp_comap compare AnchoredCandidate.rotationDeg) <|
  transCmp_comap compare AnchoredCandidate.mirrored

instance instTransCmpAnchored :
    Std.TransCmp (compareAnchoredCandidates : AnchoredCandidate F → AnchoredCandidate F → _) :=
  compareAnchoredCandidates_trans

theorem compareContactScores_eq_then (first second : ContactScore) :
    compareContactScores first second =
      (compare first.positiveContactCount second.positiveContactCount).then
        (compare first.axisUnits second.axisUnits) := by
  unfold compareContactScores
  split
  · next hne =>
    cases hcmp : compare first.positiveContactCount second.positiveContactCount with
    | lt => rfl
    | eq => exact absurd (compare_eq_iff_eq.mp hcmp) hne
    | gt => rfl
  · next heq =>
    rw [compare_eq_iff_eq.mpr (not_not.mp heq)]
    rfl

instance instTransCmpScores : Std.TransCmp compareContactScores := by
  have h : compareContactScores = fun first second =>
      (compare first.positiveContactCount second.positiveContactCount).then
        (compare first.axisUnits second.axisUnits) :=
    funext fun first => funext fun second => compareContactScores_eq_then first second
  rw [h]
  exact transCmp_then (transCmp_comap compare ContactScore.positiveContactCount)
    (transCmp_comap compare ContactScore.axisUnits)

theorem eq_of_compareContactScores {first second : ContactScore}
    (h : compareContactScores first second = .eq) : first = second := by
  rw [compareContactScores_eq_then, Ordering.then_eq_eq] at h
  obtain ⟨count, units⟩ := first
  obtain ⟨count', units'⟩ := second
  obtain rfl : count = count' := compare_eq_iff_eq.mp h.1
  obtain rfl : units = units' := compare_eq_iff_eq.mp h.2
  rfl

/-- A candidate with its score. -/
abbrev Scored (F : Type) := AnchoredCandidate F × ContactScore

/-- The better score first, then the anchor. -/
def compareScored (first second : Scored F) : Ordering :=
  (compareContactScores second.2 first.2).then (compareAnchoredCandidates first.1 second.1)

instance instTransCmpScored : Std.TransCmp (compareScored : Scored F → Scored F → _) := by
  have hscores : Std.TransCmp fun first second : Scored F =>
      (compareContactScores first.2 second.2).swap :=
    transCmp_swap (transCmp_comap compareContactScores Prod.snd)
  have hswap : (fun first second : Scored F =>
      (compareContactScores first.2 second.2).swap) =
      fun first second => compareContactScores second.2 first.2 :=
    funext fun first => funext fun second =>
      (cmp_eq_swap compareContactScores second.2 first.2).symm
  rw [hswap] at hscores
  exact transCmp_then hscores (transCmp_comap compareAnchoredCandidates Prod.fst)

theorem outscores_iff (challenger winner : AnchoredCandidate F)
    (challengerScore winnerScore : ContactScore) :
    outscores challenger winner challengerScore winnerScore = true ↔
      compareScored (challenger, challengerScore) (winner, winnerScore) = .lt := by
  unfold outscores compareScored
  dsimp only
  rw [cmp_eq_swap compareContactScores winnerScore challengerScore]
  cases compareContactScores challengerScore winnerScore with
  | lt => simp
  | eq => simp
  | gt => simp

/-! ## §4  The scans -/

def compareIndexed (first second : IndexedCandidate F) : Ordering :=
  compareAnchoredCandidates first.candidate second.candidate

instance instTransCmpIndexed :
    Std.TransCmp (compareIndexed : IndexedCandidate F → IndexedCandidate F → _) :=
  transCmp_comap compareAnchoredCandidates IndexedCandidate.candidate

theorem foldlM_keepBaseline (l : List (IndexedCandidate F)) :
    ∀ current : IndexedCandidate F,
      (l.foldlM (keepBaseline (M := Id) (pure ())) (some current)).run =
        some (l.foldl (keepLeast compareIndexed) current) := by
  induction l with
  | nil => exact fun current => rfl
  | cons anchored l ih =>
      intro current
      have hstep : (keepBaseline (M := Id) (pure ()) (some current) anchored).run =
          some (keepLeast compareIndexed current anchored) := by
        show (if _ then some anchored else some current) = _
        unfold keepLeast compareIndexed
        split
        · rfl
        · rfl
      rw [List.foldlM_cons, List.foldl_cons, ← ih]
      exact congrArg (fun baseline : Option (IndexedCandidate F) =>
        (l.foldlM (keepBaseline (M := Id) (pure ())) baseline).run) hstep

theorem foldlM_keepEligible
    (selectionPolicy : IntrinsicShortSideContactStripSelectionPolicy)
    (baseline : AnchoredCandidate F) (l : List (IndexedCandidate F)) :
    ∀ tied : List (IndexedCandidate F),
      (l.foldlM (keepEligible (M := Id) (pure ()) selectionPolicy baseline) tied).run =
        tied ++ l.filter fun anchored =>
          isEligible selectionPolicy baseline anchored.candidate := by
  induction l with
  | nil => exact fun tied => (List.append_nil tied).symm
  | cons anchored l ih =>
      intro tied
      have hstep : (keepEligible (M := Id) (pure ()) selectionPolicy baseline tied
          anchored).run = if isEligible selectionPolicy baseline anchored.candidate then
            tied ++ [anchored] else tied := by
        show Id.run (if _ then pure (tied ++ [anchored]) else pure tied) = _
        split
        · rfl
        · rfl
      rw [List.foldlM_cons, List.filter_cons]
      refine (congrArg (fun tied : List (IndexedCandidate F) =>
        (l.foldlM (keepEligible (M := Id) (pure ()) selectionPolicy baseline) tied).run)
        hstep).trans ?_
      rw [ih]
      split
      · rw [List.append_assoc]
        rfl
      · rfl

theorem map_candidate_indexedCandidates (candidates : List (AnchoredCandidate F)) :
    (indexedCandidates candidates).map IndexedCandidate.candidate = candidates := by
  unfold indexedCandidates
  rw [List.map_map]
  exact List.zipIdx_map_fst 0 candidates

theorem index_inj {candidates : List (AnchoredCandidate F)} {first second : IndexedCandidate F}
    (hfirst : first ∈ indexedCandidates candidates)
    (hsecond : second ∈ indexedCandidates candidates) (h : first.index = second.index) :
    first = second := by
  unfold indexedCandidates at hfirst hsecond
  obtain ⟨⟨anchored, index⟩, hentry, rfl⟩ := List.mem_map.mp hfirst
  obtain ⟨⟨anchored', index'⟩, hentry', rfl⟩ := List.mem_map.mp hsecond
  obtain rfl : index = index' := h
  rw [List.mem_zipIdx_iff_getElem?] at hentry hentry'
  obtain rfl : anchored = anchored' := Option.some.inj (hentry.symm.trans hentry')
  rfl

section Challenge

variable {placed : List (IrregularPlacedPiece F)} {piece : IrregularPreparedPiece F}
  {selectionPolicy : IntrinsicShortSideContactStripSelectionPolicy}
  {baseline : IndexedCandidate F}

/-- A challenger that is not compared with the winner. -/
def IsSkipped (selectionPolicy : IntrinsicShortSideContactStripSelectionPolicy)
    (baseline challenger : IndexedCandidate F) : Prop :=
  challenger.index = baseline.index ∨ (selectionPolicy = .depthFirst ∧
    baseline.candidate.maxLongAxisGrid < challenger.candidate.maxLongAxisGrid)

/-- The challenge without a clock. -/
def challengeResult (placed : List (IrregularPlacedPiece F)) (piece : IrregularPreparedPiece F)
    (selectionPolicy : IntrinsicShortSideContactStripSelectionPolicy)
    (baseline : IndexedCandidate F) (rest : List (IndexedCandidate F))
    (winner : IndexedCandidate F) (winnerScore : ContactScore) :
    Option (IndexedCandidate F × ContactScore) :=
  (challenge (M := Id) (pure ()) placed piece selectionPolicy baseline rest winner
    winnerScore).run

theorem challengeResult_skip {challenger : IndexedCandidate F}
    (h : IsSkipped selectionPolicy baseline challenger) (rest : List (IndexedCandidate F))
    (winner : IndexedCandidate F) (winnerScore : ContactScore) :
    challengeResult placed piece selectionPolicy baseline (challenger :: rest) winner
        winnerScore =
      challengeResult placed piece selectionPolicy baseline rest winner winnerScore := by
  unfold challengeResult
  rw [challenge]
  show Id.run (if _ then _ else if _ then _ else _) = _
  rcases h with h | h
  · rw [if_pos h]
  · by_cases hindex : challenger.index = baseline.index
    · rw [if_pos hindex]
    · rw [if_neg hindex, if_pos h]

/-- An indexed candidate with its score. -/
abbrev IndexedScored (F : Type) := IndexedCandidate F × ContactScore

def compareIndexedScored (first second : IndexedScored F) : Ordering :=
  compareScored (first.1.candidate, first.2) (second.1.candidate, second.2)

instance instTransCmpIndexedScored :
    Std.TransCmp (compareIndexedScored : IndexedScored F → IndexedScored F → _) :=
  transCmp_comap compareScored fun scored : IndexedScored F =>
    (scored.1.candidate, scored.2)

theorem challengeResult_unmeasurable {challenger : IndexedCandidate F}
    (h : ¬ IsSkipped selectionPolicy baseline challenger)
    (hscore : contactScore challenger.candidate placed piece = none)
    (rest : List (IndexedCandidate F)) (winner : IndexedCandidate F)
    (winnerScore : ContactScore) :
    challengeResult placed piece selectionPolicy baseline (challenger :: rest) winner
      winnerScore = none := by
  have hcall : candidateContactAxisUnits (M := Id) (pure ()) challenger.candidate placed piece =
      pure none := hscore
  unfold IsSkipped at h
  rw [not_or] at h
  unfold challengeResult
  rw [challenge]
  show Id.run (if _ then _ else if _ then _ else _) = _
  rw [if_neg h.1, if_neg h.2, hcall]
  rfl

theorem challengeResult_measured {challenger : IndexedCandidate F}
    (h : ¬ IsSkipped selectionPolicy baseline challenger) {score : ContactScore}
    (hscore : contactScore challenger.candidate placed piece = some score)
    (rest : List (IndexedCandidate F)) (kept : IndexedScored F) :
    challengeResult placed piece selectionPolicy baseline (challenger :: rest) kept.1 kept.2 =
      challengeResult placed piece selectionPolicy baseline rest
        (keepLeast compareIndexedScored kept (challenger, score)).1
        (keepLeast compareIndexedScored kept (challenger, score)).2 := by
  have hcall : candidateContactAxisUnits (M := Id) (pure ()) challenger.candidate placed piece =
      pure (some score) := hscore
  unfold IsSkipped at h
  rw [not_or] at h
  unfold challengeResult keepLeast
  rw [challenge]
  show Id.run (if _ then _ else if _ then _ else _) = _
  rw [if_neg h.1, if_neg h.2, hcall]
  show Id.run (if outscores challenger.candidate kept.1.candidate score kept.2 = true then _
    else _) = _
  unfold compareIndexedScored
  rw [if_congr (outscores_iff _ _ _ _) rfl rfl]
  split
  · rfl
  · rfl

variable (placed piece selectionPolicy baseline) in
/-- **The challenge** ends with the best of the winner and the challengers compared, or
without an answer where one of them has no score. -/
theorem challengeResult_cases (rest : List (IndexedCandidate F)) :
    ∀ kept : IndexedScored F,
      (∃ challenger ∈ rest, ¬ IsSkipped selectionPolicy baseline challenger ∧
        contactScore challenger.candidate placed piece = none) ∧
        challengeResult placed piece selectionPolicy baseline rest kept.1 kept.2 = none ∨
      ∃ best : IndexedScored F,
        challengeResult placed piece selectionPolicy baseline rest kept.1 kept.2 = some best ∧
        (best = kept ∨ best.1 ∈ rest ∧
          contactScore best.1.candidate placed piece = some best.2 ∧
          compareIndexedScored best kept = .lt) ∧
        (compareIndexedScored best kept).isLE = true ∧
        ∀ challenger ∈ rest, ¬ IsSkipped selectionPolicy baseline challenger →
          ∃ score, contactScore challenger.candidate placed piece = some score ∧
            (compareIndexedScored best (challenger, score)).isLE = true := by
  induction rest with
  | nil =>
      intro kept
      refine .inr ⟨kept, rfl, .inl rfl, cmp_self_isLE compareIndexedScored kept, ?_⟩
      intro challenger hmem
      cases hmem
  | cons challenger rest ih =>
      intro kept
      by_cases hskip : IsSkipped selectionPolicy baseline challenger
      · rw [challengeResult_skip hskip]
        rcases ih kept with ⟨⟨other, hmem, hother⟩, hnone⟩ | ⟨best, hbest, hfrom, hle, hall⟩
        · exact .inl ⟨⟨other, List.mem_cons_of_mem _ hmem, hother⟩, hnone⟩
        · refine .inr ⟨best, hbest, ?_, hle, fun other hmem hother => ?_⟩
          · exact hfrom.imp_right fun h => ⟨List.mem_cons_of_mem _ h.1, h.2⟩
          · rcases List.mem_cons.mp hmem with rfl | hmem
            · exact absurd hskip hother
            · exact hall other hmem hother
      · cases hscore : contactScore challenger.candidate placed piece with
        | none =>
            exact .inl ⟨⟨challenger, List.mem_cons_self, hskip, hscore⟩,
              challengeResult_unmeasurable hskip hscore rest kept.1 kept.2⟩
        | some score =>
            rw [challengeResult_measured hskip hscore]
            have hleft : (compareIndexedScored (keepLeast compareIndexedScored kept
                (challenger, score)) kept).isLE = true := keepLeast_isLE_left kept _
            have hright : (compareIndexedScored (keepLeast compareIndexedScored kept
                (challenger, score)) (challenger, score)).isLE = true :=
              keepLeast_isLE_right kept _
            rcases ih (keepLeast compareIndexedScored kept (challenger, score)) with
              ⟨⟨other, hmem, hother⟩, hnone⟩ | ⟨best, hbest, hfrom, hle, hall⟩
            · exact .inl ⟨⟨other, List.mem_cons_of_mem _ hmem, hother⟩, hnone⟩
            · refine .inr ⟨best, hbest, ?_, Std.TransCmp.isLE_trans hle hleft,
                fun other hmem hother => ?_⟩
              · rcases hfrom with rfl | ⟨hmem, hbestScore, hlt⟩
                · unfold keepLeast
                  split
                  · next hlt => exact .inr ⟨List.mem_cons_self, hscore, hlt⟩
                  · exact .inl rfl
                · exact .inr ⟨List.mem_cons_of_mem _ hmem, hbestScore,
                    Std.TransCmp.lt_of_lt_of_isLE hlt hleft⟩
              · rcases List.mem_cons.mp hmem with rfl | hmem
                · exact ⟨score, hscore, Std.TransCmp.isLE_trans hle hright⟩
                · exact hall other hmem hother

end Challenge

/-! ## §5  The selection -/

section

variable {candidates : List (AnchoredCandidate F)} {placed : List (IrregularPlacedPiece F)}
  {piece : IrregularPreparedPiece F}
  {selectionPolicy : IntrinsicShortSideContactStripSelectionPolicy}

theorem contactAwareSelection_nil :
    contactAwareSelection [] placed piece selectionPolicy = none := rfl

/-- The baseline is a first least candidate. -/
theorem exists_baseline (h : candidates ≠ []) :
    ∃ baseline ∈ indexedCandidates candidates,
      ((indexedCandidates candidates).foldlM (keepBaseline (M := Id) (pure ())) none).run =
        some baseline ∧
      ∀ anchored ∈ candidates,
        compareAnchoredCandidates baseline.candidate anchored ≠ .gt := by
  have hmap := map_candidate_indexedCandidates candidates
  cases hindexed : indexedCandidates candidates with
  | nil =>
      rw [hindexed] at hmap
      exact absurd hmap.symm h
  | cons first rest =>
      refine ⟨rest.foldl (keepLeast compareIndexed) first, foldl_keepLeast_mem rest first,
        ?_, fun anchored hanchored => ?_⟩
      · rw [List.foldlM_cons]
        exact foldlM_keepBaseline rest first
      · rw [← hmap, hindexed] at hanchored
        obtain ⟨indexed, hmem, rfl⟩ := List.mem_map.mp hanchored
        have hle : (compareIndexed (rest.foldl (keepLeast compareIndexed) first)
            indexed).isLE = true := foldl_keepLeast_isLE rest first indexed hmem
        exact Ordering.ne_gt_iff_isLE.mpr hle

/-- What follows from a baseline. -/
def selectionFrom (placed : List (IrregularPlacedPiece F)) (piece : IrregularPreparedPiece F)
    (selectionPolicy : IntrinsicShortSideContactStripSelectionPolicy)
    (baseline : IndexedCandidate F) (tied : List (IndexedCandidate F)) :
    ContactAwareSelection F :=
  let baselineSelection : ContactAwareSelection F := {
    winner := baseline.candidate
    baselineWinner := baseline.candidate
    tiedCount := tied.length
    tied := tied.map IndexedCandidate.candidate
    winnerScore := none
    baselineScore := none
    selectionChanged := false }
  if tied.length < 2 then baselineSelection
  else
    match contactScore baseline.candidate placed piece with
    | none => baselineSelection
    | some baselineScore =>
        match challengeResult placed piece selectionPolicy baseline tied baseline
            baselineScore with
        | none => { baselineSelection with
            winnerScore := some baselineScore
            baselineScore := some baselineScore }
        | some (winner, winnerScore) => { baselineSelection with
            winner := winner.candidate
            winnerScore := some winnerScore
            baselineScore := some baselineScore
            selectionChanged := decide (winner.index ≠ baseline.index) }

theorem contactAwareSelection_eq {baseline : IndexedCandidate F}
    (h : ((indexedCandidates candidates).foldlM (keepBaseline (M := Id) (pure ())) none).run =
      some baseline) :
    contactAwareSelection candidates placed piece selectionPolicy =
      some (selectionFrom placed piece selectionPolicy baseline
        ((indexedCandidates candidates).filter fun anchored =>
          isEligible selectionPolicy baseline.candidate anchored.candidate)) := by
  have hbaseline : (indexedCandidates candidates).foldlM (keepBaseline (M := Id) (pure ()))
      none = pure (some baseline) := h
  have htied := foldlM_keepEligible selectionPolicy baseline.candidate
    (indexedCandidates candidates) []
  have htied' : (indexedCandidates candidates).foldlM
      (keepEligible (M := Id) (pure ()) selectionPolicy baseline.candidate) [] =
      pure ((indexedCandidates candidates).filter fun anchored =>
        isEligible selectionPolicy baseline.candidate anchored.candidate) := htied
  unfold contactAwareSelection selectContactAwareWinner
  rw [hbaseline, pure_bind]
  dsimp only
  rw [htied', pure_bind]
  unfold selectionFrom
  dsimp only
  split
  · rfl
  · cases hscore : contactScore baseline.candidate placed piece with
    | none =>
        have hcall : candidateContactAxisUnits (M := Id) (pure ()) baseline.candidate placed
          piece = pure none := hscore
        rw [hcall]
        rfl
    | some baselineScore =>
        have hcall : candidateContactAxisUnits (M := Id) (pure ()) baseline.candidate placed
          piece = pure (some baselineScore) := hscore
        rw [hcall, pure_bind]
        dsimp only
        cases hresult : challengeResult placed piece selectionPolicy baseline
            ((indexedCandidates candidates).filter fun anchored =>
              isEligible selectionPolicy baseline.candidate anchored.candidate) baseline
            baselineScore with
        | none =>
            unfold challengeResult at hresult
            rw [show challenge (M := Id) (pure ()) placed piece selectionPolicy baseline _
              baseline baselineScore = pure none from hresult]
            rfl
        | some best =>
            unfold challengeResult at hresult
            rw [show challenge (M := Id) (pure ()) placed piece selectionPolicy baseline _
              baseline baselineScore = pure (some best) from hresult]
            rfl

theorem isEligible_self (baseline : AnchoredCandidate F) :
    isEligible selectionPolicy baseline baseline = true := by
  unfold isEligible
  rw [beq_self_eq_true, Bool.or_true]

theorem map_candidate_tied (baseline : AnchoredCandidate F) :
    ((indexedCandidates candidates).filter fun anchored =>
      isEligible selectionPolicy baseline anchored.candidate).map IndexedCandidate.candidate =
      eligible selectionPolicy candidates baseline := by
  unfold eligible
  conv_rhs => rw [← map_candidate_indexedCandidates candidates, List.filter_map]
  rfl

/-- What it means that a scored candidate is not after another. -/
theorem score_of_isLE {winner anchored : AnchoredCandidate F} {score other : ContactScore}
    (h : (compareScored (winner, score) (anchored, other)).isLE = true) :
    compareContactScores other score ≠ .gt ∧
      (other = score → compareAnchoredCandidates winner anchored ≠ .gt) := by
  unfold compareScored at h
  dsimp only at h
  constructor
  · intro hgt
    rw [hgt] at h
    exact Bool.false_ne_true h
  · rintro rfl
    rw [cmp_self compareContactScores] at h
    exact Ordering.ne_gt_iff_isLE.mpr h

theorem not_allMeasurable {baseline : AnchoredCandidate F} {l : List (AnchoredCandidate F)}
    (hmem : baseline ∈ l) (hscore : contactScore baseline placed piece = none) :
    ¬ AllMeasurable placed piece l := fun h => h baseline hmem hscore

variable (placed piece) in
/-- **The winner** of the candidates compared. -/
theorem isBest_selectionFrom {baseline : IndexedCandidate F}
    (hmem : baseline ∈ indexedCandidates candidates) {tied : List (IndexedCandidate F)}
    (htied : tied = (indexedCandidates candidates).filter fun anchored =>
      isEligible selectionPolicy baseline.candidate anchored.candidate) :
    (AllMeasurable placed piece (tied.map IndexedCandidate.candidate) →
      IsBest placed piece (tied.map IndexedCandidate.candidate)
        (selectionFrom placed piece selectionPolicy baseline tied).winner) ∧
    (¬ AllMeasurable placed piece (tied.map IndexedCandidate.candidate) →
      (selectionFrom placed piece selectionPolicy baseline tied).winner =
        baseline.candidate) := by
  have hbaseline : baseline ∈ tied := by
    rw [htied]
    exact List.mem_filter.mpr ⟨hmem, isEligible_self baseline.candidate⟩
  have hcandidate : baseline.candidate ∈ tied.map IndexedCandidate.candidate :=
    List.mem_map_of_mem hbaseline
  unfold selectionFrom
  dsimp only
  split
  · next hsingle =>
    refine ⟨fun hall => ⟨hcandidate, ?_⟩, fun _ => rfl⟩
    obtain ⟨score, hscore⟩ := Option.ne_none_iff_exists'.mp (hall _ hcandidate)
    refine ⟨score, hscore, fun anchored hanchored other hother => ?_⟩
    have honly : tied = [baseline] := by
      obtain ⟨only, rfl⟩ := List.length_eq_one_iff.mp (Nat.le_antisymm (by omega)
        (List.length_pos_of_mem hbaseline))
      rw [List.mem_singleton.mp hbaseline]
    rw [honly, List.map_singleton, List.mem_singleton] at hanchored
    subst hanchored
    obtain rfl := Option.some.inj (hscore.symm.trans hother)
    exact score_of_isLE (cmp_self_isLE compareScored (baseline.candidate, score))
  · cases hscore : contactScore baseline.candidate placed piece with
    | none => exact ⟨fun hall => absurd hall (not_allMeasurable hcandidate hscore), fun _ => rfl⟩
    | some baselineScore =>
        have hunskipped : ∀ challenger ∈ tied, challenger.index ≠ baseline.index →
            ¬ IsSkipped selectionPolicy baseline challenger := by
          intro challenger hchallenger hindex hskip
          rw [htied, List.mem_filter] at hchallenger
          rcases hskip with hskip | ⟨rfl, hdeep⟩
          · exact hindex hskip
          · have heligible := hchallenger.2
            unfold isEligible at heligible
            have hdepth : challenger.candidate.maxLongAxisGrid =
                baseline.candidate.maxLongAxisGrid := by simpa using heligible
            exact hdeep.ne hdepth.symm
        rcases challengeResult_cases placed piece selectionPolicy baseline tied
            (baseline, baselineScore) with
          ⟨⟨challenger, hchallenger, -, hnone⟩, hresult⟩ | ⟨best, hresult, hfrom, hle, hall⟩
        · dsimp only at hresult ⊢
          rw [hresult]
          exact ⟨fun hmeasurable => absurd hmeasurable
            (not_allMeasurable (List.mem_map_of_mem hchallenger) hnone), fun _ => rfl⟩
        · dsimp only at hresult ⊢
          rw [hresult]
          have hbest : best.1 ∈ tied ∧
              contactScore best.1.candidate placed piece = some best.2 := by
            rcases hfrom with rfl | hfrom
            · exact ⟨hbaseline, hscore⟩
            · exact ⟨hfrom.1, hfrom.2.1⟩
          have hcompared : ∀ indexed ∈ tied, ∃ score,
              contactScore indexed.candidate placed piece = some score ∧
              (compareScored (best.1.candidate, best.2) (indexed.candidate, score)).isLE =
                true := by
            intro indexed hindexed
            by_cases hindex : indexed.index = baseline.index
            · have hsame : indexed = baseline := by
                rw [htied] at hindexed
                exact index_inj (List.mem_filter.mp hindexed).1 hmem hindex
              rw [hsame]
              exact ⟨baselineScore, hscore, hle⟩
            · exact hall indexed hindexed (hunskipped indexed hindexed hindex)
          constructor
          · intro _
            refine ⟨List.mem_map_of_mem hbest.1, best.2, hbest.2,
              fun anchored hanchored other hother => ?_⟩
            obtain ⟨indexed, hindexed, rfl⟩ := List.mem_map.mp hanchored
            obtain ⟨score, hindexedScore, hnotAfter⟩ := hcompared indexed hindexed
            obtain rfl := Option.some.inj (hindexedScore.symm.trans hother)
            exact score_of_isLE hnotAfter
          · intro hunmeasurable
            refine absurd (fun anchored hanchored hnone => ?_) hunmeasurable
            obtain ⟨indexed, hindexed, rfl⟩ := List.mem_map.mp hanchored
            obtain ⟨score, hindexedScore, -⟩ := hcompared indexed hindexed
            rw [hindexedScore] at hnone
            cases hnone

variable (placed piece selectionPolicy) in
theorem selectionFrom_baseline (baseline : IndexedCandidate F)
    (tied : List (IndexedCandidate F)) :
    (selectionFrom placed piece selectionPolicy baseline tied).baselineWinner =
        baseline.candidate ∧
      (selectionFrom placed piece selectionPolicy baseline tied).tied =
        tied.map IndexedCandidate.candidate ∧
      (selectionFrom placed piece selectionPolicy baseline tied).tiedCount = tied.length := by
  unfold selectionFrom
  dsimp only
  split
  · exact ⟨rfl, rfl, rfl⟩
  · split
    · exact ⟨rfl, rfl, rfl⟩
    · split
      · exact ⟨rfl, rfl, rfl⟩
      · exact ⟨rfl, rfl, rfl⟩

variable (placed piece) in
/-- A challenger that has won is another candidate than the baseline. -/
theorem selectionFrom_changed {baseline : IndexedCandidate F}
    (hmem : baseline ∈ indexedCandidates candidates) {tied : List (IndexedCandidate F)}
    (htied : tied = (indexedCandidates candidates).filter fun anchored =>
      isEligible selectionPolicy baseline.candidate anchored.candidate) :
    (selectionFrom placed piece selectionPolicy baseline tied).selectionChanged = true ↔
      (selectionFrom placed piece selectionPolicy baseline tied).winner ≠
        baseline.candidate := by
  unfold selectionFrom
  dsimp only
  split
  · simp
  · cases hscore : contactScore baseline.candidate placed piece with
    | none => simp
    | some baselineScore =>
        rcases challengeResult_cases placed piece selectionPolicy baseline tied
            (baseline, baselineScore) with
          ⟨-, hresult⟩ | ⟨best, hresult, hfrom, -, -⟩
        · dsimp only at hresult ⊢
          rw [hresult]
          simp
        · dsimp only at hresult ⊢
          rw [hresult]
          dsimp only
          rw [decide_eq_true_iff]
          rcases hfrom with rfl | ⟨hbest, hbestScore, hlt⟩
          · simp
          · have hcandidate : best.1.candidate ≠ baseline.candidate := by
              intro hsame
              rw [hsame, hscore] at hbestScore
              have hscores : baselineScore = best.2 := Option.some.inj hbestScore
              unfold compareIndexedScored at hlt
              dsimp only at hlt
              rw [hsame, hscores, cmp_self compareScored] at hlt
              cases hlt
            refine ⟨fun _ => hcandidate, fun _ hindex => hcandidate ?_⟩
            rw [htied] at hbest
            rw [index_inj (List.mem_filter.mp hbest).1 hmem hindex]

/-- There is a selection as soon as there is a candidate. -/
theorem exists_contactAwareSelection (h : candidates ≠ []) :
    ∃ selection, contactAwareSelection candidates placed piece selectionPolicy =
        some selection ∧
      IsContactAwareSelection candidates placed piece selectionPolicy selection := by
  obtain ⟨baseline, hmem, hscan, hleast⟩ := exists_baseline h
  refine ⟨_, contactAwareSelection_eq hscan, ?_⟩
  obtain ⟨hwinner, htied, hcount⟩ := selectionFrom_baseline placed piece selectionPolicy baseline
    ((indexedCandidates candidates).filter fun anchored =>
      isEligible selectionPolicy baseline.candidate anchored.candidate)
  obtain ⟨hbest, hfallback⟩ := isBest_selectionFrom placed piece hmem
    (rfl : _ = (indexedCandidates candidates).filter fun anchored =>
      isEligible selectionPolicy baseline.candidate anchored.candidate)
  have hchanged := selectionFrom_changed placed piece hmem
    (rfl : _ = (indexedCandidates candidates).filter fun anchored =>
      isEligible selectionPolicy baseline.candidate anchored.candidate)
  refine ⟨?_, ?_, ?_, ?_, ?_, ?_, ?_⟩
  · rw [hwinner, ← map_candidate_indexedCandidates candidates]
    exact List.mem_map_of_mem hmem
  · rw [hwinner]
    exact hleast
  · rw [htied, hwinner]
    exact map_candidate_tied baseline.candidate
  · rw [hcount, htied, List.length_map]
  · rw [hwinner]
    exact hchanged
  · rw [htied]
    exact hbest
  · rw [htied, hwinner]
    exact hfallback

theorem contactAwareSelection_spec {selection : ContactAwareSelection F}
    (h : contactAwareSelection candidates placed piece selectionPolicy = some selection) :
    IsContactAwareSelection candidates placed piece selectionPolicy selection := by
  have hne : candidates ≠ [] := by
    rintro rfl
    cases h
  obtain ⟨selection', hsome, hspec⟩ := exists_contactAwareSelection hne
  obtain rfl := Option.some.inj (hsome.symm.trans h)
  exact hspec

/-- **The order of the candidates only decides ties.** -/
theorem IsContactAwareSelection.compare_eq_of_perm {candidates' : List (AnchoredCandidate F)}
    (hperm : candidates.Perm candidates') {selection selection' : ContactAwareSelection F}
    (h : IsContactAwareSelection candidates placed piece selectionPolicy selection)
    (h' : IsContactAwareSelection candidates' placed piece selectionPolicy selection') :
    compareAnchoredCandidates selection.baselineWinner selection'.baselineWinner = .eq ∧
      compareAnchoredCandidates selection.winner selection'.winner = .eq ∧
      selection.tied.Perm selection'.tied := by
  have hbaseline : compareAnchoredCandidates selection.baselineWinner
      selection'.baselineWinner = .eq := by
    have hle := h.baseline_least _ (hperm.mem_iff.mpr h'.baseline_mem)
    have hge := h'.baseline_least _ (hperm.mem_iff.mp h.baseline_mem)
    exact Std.OrientedCmp.isLE_antisymm (Ordering.ne_gt_iff_isLE.mp hle)
      (Ordering.ne_gt_iff_isLE.mp hge)
  have hdepth : selection.baselineWinner.maxLongAxisGrid =
      selection'.baselineWinner.maxLongAxisGrid := by
    unfold compareAnchoredCandidates at hbaseline
    rw [Ordering.then_eq_eq] at hbaseline
    exact compare_eq_iff_eq.mp hbaseline.1
  have htied : selection.tied.Perm selection'.tied := by
    rw [h.tied, h'.tied]
    unfold eligible
    have heligible : (fun anchored : AnchoredCandidate F =>
        isEligible selectionPolicy selection.baselineWinner anchored) =
        fun anchored => isEligible selectionPolicy selection'.baselineWinner anchored := by
      unfold isEligible
      rw [hdepth]
    rw [heligible]
    exact hperm.filter _
  refine ⟨hbaseline, ?_, htied⟩
  by_cases hall : AllMeasurable placed piece selection.tied
  · have hall' : AllMeasurable placed piece selection'.tied := fun anchored hanchored =>
      hall anchored (htied.mem_iff.mpr hanchored)
    obtain ⟨hmem, score, hscore, hbest⟩ := h.best hall
    obtain ⟨hmem', score', hscore', hbest'⟩ := h'.best hall'
    have hle := hbest _ (htied.mem_iff.mpr hmem') score' hscore'
    have hge := hbest' _ (htied.mem_iff.mp hmem) score hscore
    have hsame : score = score' := eq_of_compareContactScores
      (Std.OrientedCmp.isLE_antisymm (Ordering.ne_gt_iff_isLE.mp hge.1)
        (Ordering.ne_gt_iff_isLE.mp hle.1))
    exact Std.OrientedCmp.isLE_antisymm (Ordering.ne_gt_iff_isLE.mp (hle.2 hsame.symm))
      (Ordering.ne_gt_iff_isLE.mp (hge.2 hsame))
  · have hall' : ¬ AllMeasurable placed piece selection'.tied := fun hall' =>
      hall fun anchored hanchored => hall' anchored (htied.mem_iff.mp hanchored)
    rw [h.fallback hall, h'.fallback hall']
    exact hbaseline

end

/-- **The contact-aware winner**: unless a limit is passed the selection is that of the
candidates, which has a least baseline and a best winner, whatever their order. -/
theorem selectContactAwareWinner_optimal (runtime : StripRuntime F)
    (candidates : List (AnchoredCandidate F)) (placed : List (IrregularPlacedPiece F))
    (piece : IrregularPreparedPiece F)
    (selectionPolicy : IntrinsicShortSideContactStripSelectionPolicy) :
    (∃ result later,
      (selectContactAwareWinner (notBounded boundedStatus) candidates placed piece
        selectionPolicy).run.run runtime = some (result, later) ∧
      Answers (Passed runtime)
        (.ok (contactAwareSelection candidates placed piece selectionPolicy)) result) ∧
    (contactAwareSelection candidates placed piece selectionPolicy = none ↔ candidates = []) ∧
    ∀ selection ∈ contactAwareSelection candidates placed piece selectionPolicy,
      IsContactAwareSelection candidates placed piece selectionPolicy selection ∧
      ∀ candidates', candidates.Perm candidates' →
        ∃ selection' ∈ contactAwareSelection candidates' placed piece selectionPolicy,
          compareAnchoredCandidates selection.baselineWinner selection'.baselineWinner = .eq ∧
          compareAnchoredCandidates selection.winner selection'.winner = .eq ∧
          selection.tied.Perm selection'.tied := by
  refine ⟨?_, ?_, fun selection hselection => ?_⟩
  · obtain ⟨result, later, hrun, -, hresult⟩ :=
      selectContactAwareWinner_answers candidates placed piece selectionPolicy runtime
        (SameLimits.refl runtime)
    exact ⟨result, later, hrun, hresult⟩
  · constructor
    · intro hnone
      by_contra hne
      obtain ⟨selection, hsome, -⟩ := exists_contactAwareSelection hne
      cases hnone.symm.trans hsome
    · rintro rfl
      exact contactAwareSelection_nil
  · have hne : candidates ≠ [] := by
      rintro rfl
      cases hselection
    have hspec := contactAwareSelection_spec hselection
    refine ⟨hspec, fun candidates' hperm => ?_⟩
    have hne' : candidates' ≠ [] := fun hnil => hne (by rw [hnil] at hperm; exact hperm.eq_nil)
    obtain ⟨selection', hsome', hspec'⟩ := exists_contactAwareSelection hne'
    exact ⟨selection', hsome', hspec.compare_eq_of_perm hperm hspec'⟩

end PolygonNesting.ContactStrip
