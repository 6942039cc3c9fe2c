import PolygonNesting.Search.StrictScoring

set_option linter.unusedSectionVars false

/-!
# The scoring mode does not matter

Up to 2^53 evaluations the parallel mode of a step ends as the serial one: it admits the same
candidates, replays the same scores in the same order, counts the same evaluations and reports the
same truncation, whatever the job pool does.  Beyond 2^53 a count by ones stands still and a count
by batches does not.
-/

namespace PolygonNesting

open Binary64 Interleaving SharedMemo

/-! ## §1  Counting -/

section Counting

variable {n : ℕ}

theorem abs_natCast_le (hn : n ≤ 2 ^ 53) : |(n : ℤ)| ≤ 2 ^ 53 := by
  rw [Nat.abs_cast]
  exact_mod_cast hn

theorem ofInt_add {m : ℕ} (hn : n ≤ 2 ^ 53) (hm : m ≤ 2 ^ 53) :
    (Number.ofInt n).add (Number.ofInt m) = Number.ofInt ((n + m : ℕ) : ℤ) := by
  rw [Number.ofInt_eq (abs_natCast_le hn), Number.ofInt_eq (abs_natCast_le hm)]
  show Binary64.round (((n : ℤ) : ℚ) + ((m : ℤ) : ℚ)) = Binary64.round (((n + m : ℕ) : ℤ) : ℚ)
  push_cast
  rfl

theorem takeWhile_congr {α : Type} {p q : α → Bool} {l : List α} (h : ∀ a ∈ l, p a = q a) :
    l.takeWhile p = l.takeWhile q := by
  induction l with
  | nil => rfl
  | cons a l ih =>
    rw [List.takeWhile_cons, List.takeWhile_cons, h a List.mem_cons_self,
      ih fun b hb => h b (List.mem_cons_of_mem _ hb)]

/-- The serial test is the negation of the parallel one. -/
theorem reached_eq_not (count cap : Number) :
    (count.partialCmp cap == some .gt || count.partialCmp cap == some .eq) =
      !(count.partialCmp cap == some .lt || count.partialCmp cap == none) := by
  cases count.partialCmp cap with
  | none => rfl
  | some ordering => cases ordering <;> rfl

theorem admittedScoringCount_le (legal : ℕ) (cap : Option Number) (count : Number) :
    admittedScoringCount legal cap count ≤ legal := by
  cases cap with
  | none => exact le_rfl
  | some cap =>
    refine (List.takeWhile_sublist _).length_le.trans ?_
    rw [List.length_range]

/-- One candidate more at the front: it is admitted, and the rest from the next count on. -/
theorem admittedScoringCount_succ (limits : ScoringLimits) (legal : ℕ)
    (hn : n + (legal + 1) ≤ 2 ^ 53) :
    admittedScoringCount (legal + 1) limits.maximumCandidateEvaluationCount (.ofInt n) =
      if limits.reached (.ofInt n) then 0
      else admittedScoringCount legal limits.maximumCandidateEvaluationCount
        (.ofInt ((if limits.captureCandidateEvaluationCount then n + 1 else n : ℕ) : ℤ)) + 1 := by
  unfold ScoringLimits.reached
  cases hcap : limits.maximumCandidateEvaluationCount with
  | none => rfl
  | some cap =>
    have hzero : (Number.ofInt n).add (.ofInt ((0 : ℕ) : ℤ)) = .ofInt n :=
      ofInt_add (by omega) (by omega)
    have hcapture : limits.captureCandidateEvaluationCount = true :=
      limits.captures (by rw [hcap]; rfl)
    simp only [admittedScoringCount, hcapture, if_true]
    rw [List.range_succ_eq_map, List.takeWhile_cons, hzero, reached_eq_not]
    cases hbelow : ((Number.ofInt n).partialCmp cap == some .lt ||
        (Number.ofInt n).partialCmp cap == none) with
    | false => rfl
    | true =>
      simp only [if_true, Bool.not_true, Bool.false_eq_true, if_false, List.length_cons,
        List.takeWhile_map, List.length_map]
      congr 1
      -- a later ordinal counts from here or from the next count alike
      refine congrArg List.length (takeWhile_congr fun ordinal hordinal => ?_)
      have hlt := List.mem_range.1 hordinal
      simp only [Function.comp_apply]
      rw [ofInt_add (by omega) (by omega), ofInt_add (by omega) (by omega),
        show n + ordinal.succ = n + 1 + ordinal by omega]

end Counting

/-! ## §2  Chunks -/

section Speculation

variable {I T E μ σ : Type} {score : I → μ → μ → Except E T × μ} {S : I → Prop} {Valid : μ → Prop}
  {plain : I → T} {chunk : List (I × ℕ)} {memo memo' : μ}

/-- On valid memos the inputs of `S` have their plain scores. -/
structure PlainOn (S : I → Prop) (Valid : μ → Prop) (score : I → μ → μ → Except E T × μ)
    (plain : I → T) : Prop where
  result : ∀ {input seen stored}, S input → Valid seen → Valid stored →
    (score input seen stored).1 = .ok (plain input)
  valid : ∀ {input seen stored}, S input → Valid seen → Valid stored →
    Valid (score input seen stored).2

/-- A chunk of inputs of `S`, by ascending ordinals. -/
structure InOrder (S : I → Prop) (chunk : List (I × ℕ)) : Prop where
  inputs : ∀ input ∈ chunk, S input.1
  ordinals : chunk.Pairwise fun a b => a.2 < b.2

/-- The outcomes in the order of the inputs. -/
def plainOutcomes (E : Type) (plain : I → T) (chunk : List (I × ℕ)) :
    List (IndexedScoringOutcome T E) :=
  chunk.map fun input => ⟨input.2, .ok (plain input.1)⟩

theorem chunkCall_sound (h : PlainOn S Valid score plain) (hchunk : ∀ input ∈ chunk, S input.1) :
    Sound Valid (chunkCall score chunk) fun i => .ok (plain (chunk.get i).1) where
  result i _ _ hseen hstored := h.result (hchunk _ (chunk.get_mem i)) hseen hstored
  valid i _ _ hseen hstored := h.valid (hchunk _ (chunk.get_mem i)) hseen hstored

theorem scoreInTurn_eq (h : PlainOn S Valid score plain) :
    ∀ (chunk : List (I × ℕ)) {memo : μ}, (∀ input ∈ chunk, S input.1) → Valid memo →
      (scoreInTurn score chunk memo).1 = plainOutcomes E plain chunk ∧
        Valid (scoreInTurn score chunk memo).2
  | [], _, _, hmemo => ⟨rfl, hmemo⟩
  | (input, sourceOrdinal) :: rest, memo, hchunk, hmemo => by
    have hinput := hchunk _ List.mem_cons_self
    obtain ⟨hrest, hvalid⟩ := scoreInTurn_eq h rest
      (fun other hother => hchunk other (List.mem_cons_of_mem _ hother))
      (h.valid hinput hmemo hmemo)
    refine ⟨?_, hvalid⟩
    simp only [scoreInTurn, hrest, h.result hinput hmemo hmemo]
    rfl

theorem mapM_outcome_plainOutcomes : ∀ chunk : List (I × ℕ),
    ((plainOutcomes E plain chunk).mapM fun outcome => outcome.outcome) =
      .ok (chunk.map fun input => plain input.1)
  | [] => rfl
  | input :: rest => by
    unfold plainOutcomes
    rw [List.map_cons, List.mapM_cons]
    have hrest := mapM_outcome_plainOutcomes rest
    unfold plainOutcomes at hrest
    rw [hrest]
    rfl

/-- The order of arrival does not matter. -/
theorem replayIndexedScoringOutcomes_of_perm (hordinals : chunk.Pairwise fun a b => a.2 < b.2)
    {outcomes : List (IndexedScoringOutcome T E)}
    (hperm : outcomes.Perm (plainOutcomes E plain chunk)) :
    replayIndexedScoringOutcomes outcomes = .ok (chunk.map fun input => plain input.1) := by
  have hsorted : (plainOutcomes E plain chunk).Pairwise fun first second =>
      decide (first.sourceOrdinal ≤ second.sourceOrdinal) = true :=
    List.pairwise_map.2 (hordinals.imp fun hlt => decide_eq_true hlt.le)
  have hinj : ∀ a ∈ plainOutcomes E plain chunk, ∀ b ∈ plainOutcomes E plain chunk,
      a.sourceOrdinal = b.sourceOrdinal → a = b := by
    intro a ha b hb heq
    obtain ⟨first, hfirst, rfl⟩ := List.mem_map.1 ha
    obtain ⟨second, hsecond, rfl⟩ := List.mem_map.1 hb
    have hnodup : (chunk.map Prod.snd).Nodup :=
      List.pairwise_map.2 (hordinals.imp fun hlt => hlt.ne)
    rw [List.inj_on_of_nodup_map hnodup hfirst hsecond heq]
  have hsort : (outcomes.mergeSort fun first second =>
      decide (first.sourceOrdinal ≤ second.sourceOrdinal)) = plainOutcomes E plain chunk := by
    refine ((List.mergeSort_perm _ _).trans hperm).eq_of_pairwise (fun a b ha hb hab hba => ?_)
      (List.pairwise_mergeSort ?_ ?_ _) hsorted
    · exact hinj a (hperm.mem_iff.1 (List.mem_mergeSort.1 ha)) b hb
        (le_antisymm (of_decide_eq_true hab) (of_decide_eq_true hba))
    · intro a b c hab hbc
      exact decide_eq_true ((of_decide_eq_true hab).trans (of_decide_eq_true hbc))
    · intro a b
      rw [Bool.or_eq_true, decide_eq_true_iff, decide_eq_true_iff]
      exact le_total _ _
  unfold replayIndexedScoringOutcomes
  rw [hsort, mapM_outcome_plainOutcomes]

theorem map_finRange_plainOutcomes (chunk : List (I × ℕ)) :
    ((List.finRange chunk.length).map fun i =>
      (⟨(chunk.get i).2, .ok (plain (chunk.get i).1)⟩ : IndexedScoringOutcome T E)) =
        plainOutcomes E plain chunk := by
  have hmap := congrArg (List.map fun input : I × ℕ =>
    (⟨input.2, .ok (plain input.1)⟩ : IndexedScoringOutcome T E)) (List.map_get_finRange chunk)
  rw [List.map_map] at hmap
  exact hmap

/-- **What a chunk gives**, with and without a job pool. -/
theorem ChunkScored.outputs {hasJobPool : Bool} {outcomes : List (IndexedScoringOutcome T E)}
    (hscored : ChunkScored score hasJobPool chunk memo outcomes memo')
    (h : PlainOn S Valid score plain) (hmemo : Valid memo) (hchunk : InOrder S chunk) :
    replayIndexedScoringOutcomes outcomes = .ok (chunk.map fun input => plain input.1) ∧
      Valid memo' := by
  cases hscored with
  | serial hpool =>
    obtain ⟨houtcomes, hvalid⟩ := scoreInTurn_eq h chunk hchunk.inputs hmemo
    rw [houtcomes]
    exact ⟨replayIndexedScoringOutcomes_of_perm hchunk.ordinals (.refl _), hvalid⟩
  | pooled hpool run horder =>
    have hsound := chunkCall_sound h hchunk.inputs
    obtain rfl := hsound.results_eq hmemo run
    refine ⟨replayIndexedScoringOutcomes_of_perm hchunk.ordinals ?_, hsound.valid_of_run hmemo run⟩
    rw [← map_finRange_plainOutcomes]
    exact horder.map _

theorem exists_chunkScored (h : PlainOn S Valid score plain) (hmemo : Valid memo)
    (hasJobPool : Bool) (hchunk : ∀ input ∈ chunk, S input.1) :
    ∃ outcomes memo', ChunkScored score hasJobPool chunk memo outcomes memo' := by
  cases hasJobPool with
  | false => exact ⟨_, _, .serial rfl⟩
  | true =>
    obtain ⟨memo', run⟩ := (chunkCall_sound h hchunk).exists_run hmemo
    exact ⟨_, memo', .pooled rfl run (.refl _)⟩

variable {replay : σ → T → σ}

/-- **The replays of all chunks** are the replays of the plain scores in the order of the
inputs. -/
theorem ReplaysAdmitted.eq_foldl {hasJobPool : Bool} {chunked : List (List (I × ℕ))}
    {start : μ × σ} {result : Except E (μ × σ)}
    (hreplays : ReplaysAdmitted score hasJobPool replay chunked start result)
    (h : PlainOn S Valid score plain) (hmemo : Valid start.1)
    (hchunked : ∀ chunk ∈ chunked, InOrder S chunk) :
    ∃ memo', Valid memo' ∧ result =
      .ok (memo', (chunked.flatten.map fun input => plain input.1).foldl replay start.2) := by
  induction hreplays with
  | done state => exact ⟨state.1, hmemo, rfl⟩
  | chunk hscored houtputs hrest ih =>
    obtain ⟨hplain, hvalid⟩ := hscored.outputs h hmemo (hchunked _ List.mem_cons_self)
    obtain rfl := Except.ok.inj (houtputs.symm.trans hplain)
    obtain ⟨memo', hmemo', hresult⟩ := ih hvalid fun chunk hchunk =>
      hchunked chunk (List.mem_cons_of_mem _ hchunk)
    refine ⟨memo', hmemo', ?_⟩
    rw [hresult, List.flatten_cons, List.map_append, List.foldl_append]
  | failed hscored herror =>
    obtain ⟨hplain, -⟩ := hscored.outputs h hmemo (hchunked _ List.mem_cons_self)
    cases herror.symm.trans hplain

theorem exists_replaysAdmitted (h : PlainOn S Valid score plain) (hasJobPool : Bool) : ∀ (chunked : List (List (I × ℕ))) (start : μ × σ), Valid start.1 →
      (∀ chunk ∈ chunked, InOrder S chunk) →
        ∃ result, ReplaysAdmitted score hasJobPool replay chunked start result
  | [], start, _, _ => ⟨_, .done start⟩
  | chunk :: rest, (memo, state), hmemo, hchunked => by
    have hchunk := hchunked chunk List.mem_cons_self
    obtain ⟨outcomes, memo', hscored⟩ := exists_chunkScored h hmemo hasJobPool hchunk.inputs
    obtain ⟨houtputs, hvalid⟩ := hscored.outputs h hmemo hchunk
    obtain ⟨result, hrest⟩ := exists_replaysAdmitted h hasJobPool rest
      (memo', (chunk.map fun input => plain input.1).foldl replay state) hvalid
      fun other hother => hchunked other (List.mem_cons_of_mem _ hother)
    exact ⟨result, .chunk hscored houtputs hrest⟩

theorem flatten_chunks {size : ℕ} (hsize : 0 < size) : ∀ (fuel : ℕ) (items : List I),
    items.length ≤ fuel → (chunks size items).flatten = items := by
  intro fuel
  induction fuel with
  | zero =>
    intro items hfuel
    rw [List.length_eq_zero_iff.1 (Nat.le_zero.1 hfuel), chunks_nil hsize, List.flatten_nil]
  | succ fuel ih =>
    intro items hfuel
    by_cases hitems : items = []
    · rw [hitems, chunks_nil hsize, List.flatten_nil]
    · have hpos := List.length_pos_of_ne_nil hitems
      rw [chunks_of_ne_nil hsize hitems, List.flatten_cons,
        ih _ (by rw [List.length_drop]; omega), List.take_append_drop]

/-- The chunks of a list of inputs are in order. -/
theorem inOrder_chunks_zipIdx {size : ℕ} (hsize : 0 < size) {inputs : List I}
    (hinputs : ∀ input ∈ inputs, S input) : ∀ chunk ∈ chunks size inputs.zipIdx, InOrder S chunk := by
  intro chunk hchunk
  have hsublist := List.sublist_flatten_of_mem hchunk
  rw [flatten_chunks hsize _ _ le_rfl] at hsublist
  constructor
  · intro input hinput
    refine hinputs _ ?_
    rw [← List.zipIdx_map_fst 0 inputs]
    exact List.mem_map_of_mem (hsublist.subset hinput)
  · refine List.Pairwise.sublist hsublist ?_
    rw [← List.pairwise_map (f := Prod.snd) (R := (· < ·)), List.zipIdx_map_snd]
    exact List.pairwise_lt_range'

theorem map_flatten_chunks_zipIdx {size : ℕ} (hsize : 0 < size) (inputs : List I) :
    ((chunks size inputs.zipIdx).flatten.map fun input => plain input.1) = inputs.map plain := by
  have hmap := congrArg (List.map plain) (List.zipIdx_map_fst 0 inputs)
  rw [List.map_map] at hmap
  rw [flatten_chunks hsize _ _ le_rfl]
  exact hmap

end Speculation

/-! ## §3  A batch -/

variable {F : Type} [LinearOrder F] [Zero F] [One F] [Add F] [Sub F] [Neg F] [Mul F] [Div F]
  [JsMath F] {heap : ℕ → IrregularPlacedPiece F}

section Batch

variable (booleanOpWithPolyTree : BooleanOp) (alloc : IrregularPlacedPiece F → PlacedArc heap)

/-- The score by the plain probe of the placed state, without a memo. -/
def plainScore (input : StrictScoringInput heap) : Option (ScoredCandidate heap) :=
  input.scored booleanOpWithPolyTree alloc
    (input.placedState alloc).bottomLeftAnchoredCanonicalOccupiedGeometryKey

variable {parent : PreparedBeamState heap}
  {seen stored memo : AnchoredParentKeysMemo F}

/-- A memo that renders the parent does not change a score. -/
theorem scoreCandidate_eq {input : StrictScoringInput heap} (hinput : input.state = parent)
    (hseen : Renders parent seen) (hstored : Renders parent stored) :
    (scoreCandidate booleanOpWithPolyTree alloc input seen stored).1 =
        plainScore booleanOpWithPolyTree alloc input ∧
      Renders parent (scoreCandidate booleanOpWithPolyTree alloc input seen stored).2 := by
  subst hinput
  constructor
  · exact congrArg (input.scored booleanOpWithPolyTree alloc)
      (viaParentMemo_withPlacement hseen hstored _ _ _)
  · exact hseen.call hstored _

theorem score_plainOn (E : Type) :
    PlainOn (fun input : StrictScoringInput heap => input.state = parent) (Renders parent)
      (StrictScoringInput.score booleanOpWithPolyTree alloc E)
      (plainScore booleanOpWithPolyTree alloc) where
  result hinput hseen hstored := congrArg Except.ok (scoreCandidate_eq booleanOpWithPolyTree alloc hinput hseen hstored).1
  valid hinput hseen hstored := (scoreCandidate_eq booleanOpWithPolyTree alloc hinput hseen hstored).2

variable (limits : ScoringLimits) (family : String)

theorem count_replayOutput (evaluations : ℕ) (scoring : StepScoring heap)
    (output : Option (ScoredCandidate heap)) :
    limits.count evaluations (replayOutput family scoring output) =
      replayOutput family (limits.count evaluations scoring) output := by
  unfold ScoringLimits.count
  cases limits.captureCandidateEvaluationCount <;> cases output <;> rfl

/-- The count that a step stands at. -/
theorem count_candidateEvaluationCount {n evaluations : ℕ} {scoring : StepScoring heap}
    (hcount : scoring.candidateEvaluationCount = .ofInt n) (htotal : n + evaluations ≤ 2 ^ 53) :
    (limits.count evaluations scoring).candidateEvaluationCount =
      .ofInt ((if limits.captureCandidateEvaluationCount then n + evaluations else n : ℕ) : ℤ) := by
  unfold ScoringLimits.count
  cases limits.captureCandidateEvaluationCount with
  | false => exact hcount
  | true =>
    show scoring.candidateEvaluationCount.add (.ofInt evaluations) = _
    rw [hcount, ofInt_add (by omega) (by omega)]
    rfl

theorem count_count {n first second : ℕ} {scoring : StepScoring heap}
    (hcount : scoring.candidateEvaluationCount = .ofInt n) (htotal : n + first + second ≤ 2 ^ 53) :
    limits.count second (limits.count first scoring) = limits.count (first + second) scoring := by
  unfold ScoringLimits.count
  cases limits.captureCandidateEvaluationCount with
  | false => rfl
  | true =>
    simp only [if_true]
    rw [hcount, ofInt_add (by omega) (by omega), ofInt_add (by omega) (by omega),
      ofInt_add (by omega) (by omega), Nat.add_assoc]

theorem count_zero {n : ℕ} {scoring : StepScoring heap}
    (hcount : scoring.candidateEvaluationCount = .ofInt n) (hn : n ≤ 2 ^ 53) :
    limits.count 0 scoring = scoring := by
  unfold ScoringLimits.count
  cases limits.captureCandidateEvaluationCount with
  | false => rfl
  | true =>
    simp only [if_true]
    rw [hcount, ofInt_add hn (by omega), Nat.add_zero, ← hcount]

/-- What the parallel mode does to a step with the inputs of a batch. -/
def admittedScoring (inputs : List (StrictScoringInput heap)) (scoring : StepScoring heap) :
    StepScoring heap :=
  let admitted := admittedScoringCount inputs.length limits.maximumCandidateEvaluationCount
    scoring.candidateEvaluationCount
  let replayed := ((inputs.take admitted).map (plainScore booleanOpWithPolyTree alloc)).foldl
    (replayOutput family) (limits.count admitted scoring)
  if admitted < inputs.length then truncate replayed else replayed

theorem replayOutput_candidateEvaluationCount (scoring : StepScoring heap)
    (output : Option (ScoredCandidate heap)) :
    (replayOutput family scoring output).candidateEvaluationCount =
      scoring.candidateEvaluationCount := by
  cases output <;> rfl

/-- An admitted input comes before the rest of the batch. -/
theorem admittedScoring_cons {input : StrictScoringInput heap} {rest : List (StrictScoringInput heap)}
    {scoring : StepScoring heap} {n : ℕ} (hcount : scoring.candidateEvaluationCount = .ofInt n)
    (htotal : n + (input :: rest).length ≤ 2 ^ 53)
    (hreached : limits.reached scoring.candidateEvaluationCount = false) :
    admittedScoring booleanOpWithPolyTree alloc limits family (input :: rest) scoring =
      admittedScoring booleanOpWithPolyTree alloc limits family rest
        (replayOutput family (limits.count 1 scoring)
          (plainScore booleanOpWithPolyTree alloc input)) := by
  rw [List.length_cons] at htotal
  have hnext : (replayOutput family (limits.count 1 scoring)
      (plainScore booleanOpWithPolyTree alloc input)).candidateEvaluationCount =
        .ofInt ((if limits.captureCandidateEvaluationCount then n + 1 else n : ℕ) : ℤ) := by
    rw [replayOutput_candidateEvaluationCount, count_candidateEvaluationCount limits hcount (by omega)]
  have hadmitted : admittedScoringCount (input :: rest).length
      limits.maximumCandidateEvaluationCount scoring.candidateEvaluationCount =
        admittedScoringCount rest.length limits.maximumCandidateEvaluationCount
          (replayOutput family (limits.count 1 scoring)
            (plainScore booleanOpWithPolyTree alloc input)).candidateEvaluationCount + 1 := by
    rw [hnext, hcount, List.length_cons, admittedScoringCount_succ limits _ htotal, if_neg]
    rw [← hcount, hreached]
    exact Bool.false_ne_true
  have hle := admittedScoringCount_le rest.length limits.maximumCandidateEvaluationCount
    (replayOutput family (limits.count 1 scoring)
      (plainScore booleanOpWithPolyTree alloc input)).candidateEvaluationCount
  unfold admittedScoring
  rw [hadmitted]
  generalize admittedScoringCount rest.length limits.maximumCandidateEvaluationCount
    (replayOutput family (limits.count 1 scoring)
      (plainScore booleanOpWithPolyTree alloc input)).candidateEvaluationCount = admitted at hle ⊢
  simp only [List.take_succ_cons, List.map_cons, List.foldl_cons, List.length_cons,
    add_lt_add_iff_right]
  rw [count_replayOutput, count_count limits hcount (by omega), Nat.add_comm 1 admitted]

/-- A reached cap admits nothing. -/
theorem admittedScoring_reached {inputs : List (StrictScoringInput heap)} {scoring : StepScoring heap}
    {n : ℕ} (hcount : scoring.candidateEvaluationCount = .ofInt n)
    (htotal : n + inputs.length ≤ 2 ^ 53) (hne : inputs ≠ [])
    (hreached : limits.reached scoring.candidateEvaluationCount = true) :
    admittedScoring booleanOpWithPolyTree alloc limits family inputs scoring = truncate scoring := by
  cases inputs with
  | nil => exact absurd rfl hne
  | cons input rest =>
    have hadmitted : admittedScoringCount (input :: rest).length
        limits.maximumCandidateEvaluationCount scoring.candidateEvaluationCount = 0 := by
      rw [hcount, List.length_cons, admittedScoringCount_succ limits _ htotal, if_pos]
      rw [← hcount]
      exact hreached
    unfold admittedScoring
    rw [hadmitted]
    dsimp only
    rw [count_zero limits hcount (by omega)]
    exact if_pos (Nat.succ_pos _)

/-- **The serial loop is the parallel admission.** -/
theorem scoreSerially_eq : ∀ (inputs : List (StrictScoringInput heap))
    {memo : AnchoredParentKeysMemo F} {scoring : StepScoring heap} {n : ℕ},
    (∀ input ∈ inputs, input.state = parent) → Renders parent memo →
    scoring.candidateEvaluationCount = .ofInt n → n + inputs.length ≤ 2 ^ 53 →
      (scoreSerially booleanOpWithPolyTree alloc limits family inputs (memo, scoring)).2 =
          admittedScoring booleanOpWithPolyTree alloc limits family inputs scoring ∧
        Renders parent
          (scoreSerially booleanOpWithPolyTree alloc limits family inputs (memo, scoring)).1
  | [], memo, scoring, n, _, hmemo, hcount, htotal => by
    refine ⟨?_, hmemo⟩
    have hadmitted : admittedScoringCount 0 limits.maximumCandidateEvaluationCount
        scoring.candidateEvaluationCount = 0 := Nat.le_zero.1 (admittedScoringCount_le _ _ _)
    unfold admittedScoring
    simp only [List.length_nil] at htotal ⊢
    rw [hadmitted, count_zero limits hcount (by omega)]
    rfl
  | input :: rest, memo, scoring, n, hinputs, hmemo, hcount, htotal => by
    cases hreached : limits.reached scoring.candidateEvaluationCount with
    | true =>
      have hserial : scoreSerially booleanOpWithPolyTree alloc limits family (input :: rest)
          (memo, scoring) = (memo, truncate scoring) := if_pos hreached
      rw [hserial]
      exact ⟨(admittedScoring_reached booleanOpWithPolyTree alloc limits family hcount htotal
        (List.cons_ne_nil _ _) hreached).symm, hmemo⟩
    | false =>
      obtain ⟨hscore, hrenders⟩ := scoreCandidate_eq booleanOpWithPolyTree alloc
        (hinputs input List.mem_cons_self) hmemo hmemo
      have hserial : scoreSerially booleanOpWithPolyTree alloc limits family (input :: rest)
          (memo, scoring) = scoreSerially booleanOpWithPolyTree alloc limits family rest
            ((scoreCandidate booleanOpWithPolyTree alloc input memo memo).2,
              replayOutput family (limits.count 1 scoring)
                (plainScore booleanOpWithPolyTree alloc input)) := by
        rw [← hscore]
        exact if_neg (by rw [hreached]; exact Bool.false_ne_true)
      rw [List.length_cons] at htotal
      rw [hserial, admittedScoring_cons booleanOpWithPolyTree alloc limits family hcount
        (by rwa [List.length_cons]) hreached]
      refine scoreSerially_eq rest (fun other hother => hinputs other (List.mem_cons_of_mem _ hother))
        hrenders ((replayOutput_candidateEvaluationCount _ _ _).trans
          (count_candidateEvaluationCount limits hcount (by omega))) ?_
      split <;> omega

end Batch

/-! ## §4  A step -/

/-- How many candidates a transform brings. -/
def TransformStepOutcome.legalCandidateCount {E : Type} : TransformStepOutcome F E → ℕ
  | .ready batch => batch.legalCandidates.length
  | _ => 0

def legalCandidateTotal {E : Type}
    (outcomes : List (IrregularTransformCandidate F × TransformStepOutcome F E)) : ℕ :=
  (outcomes.map fun outcome => outcome.2.legalCandidateCount).sum

theorem legalCandidateTotal_cons {E : Type} (transform : IrregularTransformCandidate F)
    (outcome : TransformStepOutcome F E)
    (rest : List (IrregularTransformCandidate F × TransformStepOutcome F E)) :
    legalCandidateTotal ((transform, outcome) :: rest) =
      outcome.legalCandidateCount + legalCandidateTotal rest := rfl

theorem ScoringStep.length_inputs (step : ScoringStep heap) (family : String)
    (batch : TransformBatch F) : (step.inputs family batch).length = batch.legalCandidates.length :=
  List.length_map _

theorem ScoringStep.state_of_mem_inputs {step : ScoringStep heap} {family : String}
    {batch : TransformBatch F} {input : StrictScoringInput heap}
    (h : input ∈ step.inputs family batch) : input.state = step.state := by
  obtain ⟨candidate, -, rfl⟩ := List.mem_map.1 h
  rfl

section Step

variable {booleanOpWithPolyTree : BooleanOp} {alloc : IrregularPlacedPiece F → PlacedArc heap}
  {limits : ScoringLimits} {E : Type} {hasJobPool : Bool} {step : ScoringStep heap}
  {family : String} {batch : TransformBatch F}
  {state : AnchoredParentKeysMemo F × StepScoring heap} {n : ℕ}

/-- The step after the admitted candidates of a batch. -/
def replayedBatch (booleanOpWithPolyTree : BooleanOp)
    (alloc : IrregularPlacedPiece F → PlacedArc heap) (limits : ScoringLimits)
    (step : ScoringStep heap) (family : String) (batch : TransformBatch F)
    (scoring : StepScoring heap) : StepScoring heap :=
  (((step.inputs family batch).take (limits.admitted batch scoring)).map
    (plainScore booleanOpWithPolyTree alloc)).foldl (replayOutput family)
      (limits.count (limits.admitted batch scoring)
        (scoring.addCandidates batch.legalCandidates.length))

theorem BatchReplays.eq_ok {result : Except E (AnchoredParentKeysMemo F × StepScoring heap)}
    (h : BatchReplays booleanOpWithPolyTree alloc limits hasJobPool step family batch state result)
    (hmemo : Renders step.state state.1) :
    ∃ memo', Renders step.state memo' ∧ result =
      .ok (memo', replayedBatch booleanOpWithPolyTree alloc limits step family batch state.2) := by
  have hsize : 0 < strictScoringChunkSize := by decide
  obtain ⟨memo', hmemo', hresult⟩ := h.eq_foldl (score_plainOn booleanOpWithPolyTree alloc E) hmemo
    (inOrder_chunks_zipIdx hsize fun input hinput =>
      ScoringStep.state_of_mem_inputs (List.mem_of_mem_take hinput))
  rw [map_flatten_chunks_zipIdx hsize] at hresult
  exact ⟨memo', hmemo', hresult⟩

theorem exists_batchReplays (E : Type) (hasJobPool : Bool) (hmemo : Renders step.state state.1) :
    ∃ result : Except E (AnchoredParentKeysMemo F × StepScoring heap),
      BatchReplays booleanOpWithPolyTree alloc limits hasJobPool step family batch state result :=
  exists_replaysAdmitted (score_plainOn booleanOpWithPolyTree alloc E) hasJobPool _ _ hmemo
    (inOrder_chunks_zipIdx (by decide) fun _ hinput =>
      ScoringStep.state_of_mem_inputs (List.mem_of_mem_take hinput))

theorem admitted_le (scoring : StepScoring heap) :
    limits.admitted batch scoring ≤ batch.legalCandidates.length :=
  admittedScoringCount_le _ _ _

theorem admittedScoring_eq (scoring : StepScoring heap) :
    admittedScoring booleanOpWithPolyTree alloc limits family (step.inputs family batch)
        (scoring.addCandidates batch.legalCandidates.length) =
      if limits.admitted batch scoring < batch.legalCandidates.length then
        truncate (replayedBatch booleanOpWithPolyTree alloc limits step family batch scoring)
      else replayedBatch booleanOpWithPolyTree alloc limits step family batch scoring := by
  unfold admittedScoring
  rw [ScoringStep.length_inputs]
  rfl

/-- Replays change the families only. -/
theorem foldl_replayOutput_frame (outputs : List (Option (ScoredCandidate heap))) :
    ∀ scoring : StepScoring heap,
      (outputs.foldl (replayOutput family) scoring).candidateEvaluationCount =
          scoring.candidateEvaluationCount ∧
        (outputs.foldl (replayOutput family) scoring).truncationReason =
          scoring.truncationReason := by
  induction outputs with
  | nil => exact fun scoring => ⟨rfl, rfl⟩
  | cons output outputs ih =>
    intro scoring
    obtain ⟨hcount, htruncation⟩ := ih (replayOutput family scoring output)
    rw [List.foldl_cons, hcount, htruncation]
    cases output <;> exact ⟨rfl, rfl⟩

theorem truncationReason_replayedBatch (scoring : StepScoring heap) :
    (replayedBatch booleanOpWithPolyTree alloc limits step family batch scoring).truncationReason =
      scoring.truncationReason := by
  unfold replayedBatch
  rw [(foldl_replayOutput_frame _ _).2]
  unfold ScoringLimits.count
  split <;> rfl

theorem candidateEvaluationCount_replayedBatch {scoring : StepScoring heap}
    (hcount : scoring.candidateEvaluationCount = .ofInt n)
    (htotal : n + batch.legalCandidates.length ≤ 2 ^ 53) :
    ∃ m ≤ n + batch.legalCandidates.length,
      (replayedBatch booleanOpWithPolyTree alloc limits step family batch
        scoring).candidateEvaluationCount = .ofInt (m : ℕ) := by
  have hle : limits.admitted batch scoring ≤ batch.legalCandidates.length := admitted_le scoring
  have hcount' : (scoring.addCandidates batch.legalCandidates.length).candidateEvaluationCount =
      .ofInt n := hcount
  refine ⟨if limits.captureCandidateEvaluationCount then n + limits.admitted batch scoring else n,
    by split <;> omega, ?_⟩
  unfold replayedBatch
  rw [(foldl_replayOutput_frame _ _).1,
    count_candidateEvaluationCount limits hcount' (by omega)]

/-- A batch in the serial step: it truncates, or the step goes on. -/
theorem serialStep_ready {memo : AnchoredParentKeysMemo F} {scoring : StepScoring heap}
    (transform : IrregularTransformCandidate F) (batch : TransformBatch F)
    (rest : List (IrregularTransformCandidate F × TransformStepOutcome F E))
    (hmemo : Renders step.state memo) (hcount : scoring.candidateEvaluationCount = .ofInt n)
    (htruncation : scoring.truncationReason = none)
    (htotal : n + batch.legalCandidates.length ≤ 2 ^ 53) :
    ∃ memo', Renders step.state memo' ∧
      serialStep booleanOpWithPolyTree alloc limits step ((transform, .ready batch) :: rest)
          (memo, scoring) =
        if limits.admitted batch scoring < batch.legalCandidates.length then
          .ok (memo', truncate (replayedBatch booleanOpWithPolyTree alloc limits step
            (transformFamilyKey transform) batch scoring))
        else serialStep booleanOpWithPolyTree alloc limits step rest
          (memo', replayedBatch booleanOpWithPolyTree alloc limits step
            (transformFamilyKey transform) batch scoring) := by
  have hlength := step.length_inputs (transformFamilyKey transform) batch
  have hcount' : (scoring.addCandidates batch.legalCandidates.length).candidateEvaluationCount =
      .ofInt n := hcount
  obtain ⟨hscoring, hmemo'⟩ := scoreSerially_eq booleanOpWithPolyTree alloc limits
    (transformFamilyKey transform) (step.inputs (transformFamilyKey transform) batch)
    (fun _ hinput => ScoringStep.state_of_mem_inputs hinput) hmemo hcount' (by rwa [hlength])
  refine ⟨_, hmemo', ?_⟩
  rw [admittedScoring_eq] at hscoring
  rw [serialStep]
  generalize scoreSerially booleanOpWithPolyTree alloc limits (transformFamilyKey transform)
    (step.inputs (transformFamilyKey transform) batch)
    (memo, scoring.addCandidates batch.legalCandidates.length) = next at hscoring
  obtain ⟨memo', scoring'⟩ := next
  dsimp only at hscoring ⊢
  rw [hscoring]
  split
  · rfl
  · rw [truncationReason_replayedBatch, htruncation]
    rfl

/-- **One way of scoring gives what the other gives.** -/
theorem ParallelStep.eq_serialStep
    {outcomes : List (IrregularTransformCandidate F × TransformStepOutcome F E)}
    {result : Except E (AnchoredParentKeysMemo F × StepScoring heap)}
    (h : ParallelStep booleanOpWithPolyTree alloc limits hasJobPool step outcomes state result) :
    ∀ {n : ℕ} {memo : AnchoredParentKeysMemo F}, Renders step.state state.1 →
      Renders step.state memo → state.2.candidateEvaluationCount = .ofInt n →
      state.2.truncationReason = none → n + legalCandidateTotal outcomes ≤ 2 ^ 53 →
      result.map Prod.snd =
        (serialStep booleanOpWithPolyTree alloc limits step outcomes (memo, state.2)).map
          Prod.snd := by
  induction h with
  | done state => exact fun _ _ _ _ _ => rfl
  | fail => exact fun _ _ _ _ _ => rfl
  | skip hrest ih =>
    intro n memo hstate hmemo hcount htruncation htotal
    rw [legalCandidateTotal_cons] at htotal
    exact ih hstate hmemo hcount htruncation (by omega)
  | failed hbatch =>
    intro n memo hstate
    obtain ⟨memo', -, hresult⟩ := hbatch.eq_ok hstate
    cases hresult
  | truncated hbatch hfewer =>
    intro n memo hstate hmemo hcount htruncation htotal
    rw [legalCandidateTotal_cons] at htotal
    obtain ⟨memo', -, hresult⟩ := hbatch.eq_ok hstate
    obtain ⟨-, rfl⟩ := Prod.mk.inj (Except.ok.inj hresult)
    obtain ⟨memo'', -, hserial⟩ := serialStep_ready _ _ _ hmemo hcount htruncation
      (Nat.le_trans (Nat.add_le_add_left (Nat.le_add_right _ _) n) htotal)
    rw [hserial, if_pos hfewer]
    rfl
  | next hbatch hall hrest ih =>
    intro n memo hstate hmemo hcount htruncation htotal
    rw [legalCandidateTotal_cons] at htotal
    have hbatchTotal := Nat.le_trans (Nat.add_le_add_left (Nat.le_add_right _ _) n) htotal
    obtain ⟨memo', hmemo', hresult⟩ := hbatch.eq_ok hstate
    obtain rfl := Except.ok.inj hresult
    obtain ⟨memo'', hmemo'', hserial⟩ := serialStep_ready _ _ _ hmemo hcount htruncation hbatchTotal
    obtain ⟨m, hm, hnext⟩ := candidateEvaluationCount_replayedBatch hcount hbatchTotal
    rw [hserial, if_neg hall]
    refine ih hmemo' hmemo'' hnext ((truncationReason_replayedBatch _).trans htruncation) ?_
    exact Nat.le_trans (Nat.add_le_add_right hm _) (by rwa [Nat.add_assoc])

/-- **A run on the job pool exists.** -/
theorem exists_parallelStep (hasJobPool : Bool) :
    ∀ (outcomes : List (IrregularTransformCandidate F × TransformStepOutcome F E))
      (state : AnchoredParentKeysMemo F × StepScoring heap), Renders step.state state.1 →
        ∃ result, ParallelStep booleanOpWithPolyTree alloc limits hasJobPool step outcomes state
          result
  | [], state, _ => ⟨_, .done state⟩
  | (_, .fail error) :: _, _, _ => ⟨_, .fail⟩
  | (_, .skip) :: rest, state, hstate => by
    obtain ⟨result, hrest⟩ := exists_parallelStep hasJobPool rest state hstate
    exact ⟨result, .skip hrest⟩
  | (transform, .ready batch) :: rest, state, hstate => by
    have hexists : ∃ result : Except E (AnchoredParentKeysMemo F × StepScoring heap),
        BatchReplays booleanOpWithPolyTree alloc limits hasJobPool step
          (transformFamilyKey transform) batch state result :=
      exists_batchReplays E hasJobPool hstate
    obtain ⟨result, hbatch⟩ := hexists
    obtain ⟨memo', hmemo', rfl⟩ := hbatch.eq_ok hstate
    by_cases hfewer : limits.admitted batch state.2 < batch.legalCandidates.length
    · exact ⟨_, .truncated hbatch hfewer⟩
    · obtain ⟨result, hrest⟩ := exists_parallelStep hasJobPool rest
        (memo', replayedBatch booleanOpWithPolyTree alloc limits step
          (transformFamilyKey transform) batch state.2) hmemo'
      exact ⟨result, .next hbatch hfewer hrest⟩

end Step

/-- **The scoring mode does not matter up to 2^53 evaluations.**  In a step whose count stays at
most 2^53, the serial loop over the inputs of a batch admits as many of them as the parallel mode
computes up front, and replays their scores in their order; the job pool can be run, and however
it runs, the families, counts and truncation are those of the serial step. -/
theorem scoringMode_irrelevant (booleanOpWithPolyTree : BooleanOp)
    (alloc : IrregularPlacedPiece F → PlacedArc heap) (limits : ScoringLimits) {E : Type}
    (step : ScoringStep heap)
    (outcomes : List (IrregularTransformCandidate F × TransformStepOutcome F E))
    (scoring : StepScoring heap) (n : ℕ) (hcount : scoring.candidateEvaluationCount = .ofInt n)
    (htruncation : scoring.truncationReason = none)
    (htotal : n + legalCandidateTotal outcomes ≤ 2 ^ 53) :
    (∀ (family : String) (inputs : List (StrictScoringInput heap)) (memo : AnchoredParentKeysMemo F)
        (before : StepScoring heap) (m : ℕ), (∀ input ∈ inputs, input.state = step.state) →
      ParentMemo step.state memo → before.candidateEvaluationCount = .ofInt m →
      m + inputs.length ≤ 2 ^ 53 →
      (scoreSerially booleanOpWithPolyTree alloc limits family inputs (memo, before)).2 =
        admittedScoring booleanOpWithPolyTree alloc limits family inputs before) ∧
    ∀ hasJobPool,
      (∃ result, ParallelStep booleanOpWithPolyTree alloc limits hasJobPool step outcomes
        (∅, scoring) result) ∧
      ∀ result, ParallelStep booleanOpWithPolyTree alloc limits hasJobPool step outcomes
          (∅, scoring) result →
        result.map Prod.snd =
          (serialStep booleanOpWithPolyTree alloc limits step outcomes (∅, scoring)).map
            Prod.snd := by
  have hfresh : Renders step.state (∅ : AnchoredParentKeysMemo F) := ParentMemo.fresh.renders
  refine ⟨fun family inputs memo before m hinputs hmemo hbefore hbound =>
    (scoreSerially_eq booleanOpWithPolyTree alloc limits family inputs hinputs hmemo.renders
      hbefore hbound).1, fun hasJobPool =>
    ⟨exists_parallelStep hasJobPool outcomes (∅, scoring) hfresh, fun result hresult =>
      hresult.eq_serialStep hfresh hfresh hcount htruncation htotal⟩⟩

/-! ### Three squares beside a square -/

/-- No gap region is looked at. -/
def emptyTree : BooleanOp := fun _ _ _ _ => .node none []

def squareAlloc (placed : IrregularPlacedPiece ℚ) : PlacedArc touchingSquares :=
  ⟨placed.placement.transform.translateX.num.toNat⟩

def squareStep : ScoringStep touchingSquares where
  state := (IrregularBeamState.empty []).withPlacement [] ⟨0⟩ "a"
  piece := ⟨some "b", "b", ⟨"b", (squarePlacedAt 0).collisionGeometry.polygon,
    (squarePlacedAt 0).collisionGeometry.polygon, ⟨0, 0⟩⟩, []⟩
  remainingPreparedPieces := []
  gapRegions := none

def squareCandidateAt (x : ℚ) : IrregularPlacementCandidate ℚ :=
  ⟨"b", ⟨0, 0, false, .orthogonal⟩, ⟨x, 0⟩, []⟩

def squareBatch : TransformBatch ℚ :=
  ⟨(squarePlacedAt 0).collisionGeometry, 1, 2000000,
    [squareCandidateAt 1, squareCandidateAt 2, squareCandidateAt 3]⟩

def squareOutcomes : List (IrregularTransformCandidate ℚ × TransformStepOutcome ℚ String) :=
  [(⟨0, 0, false, .orthogonal⟩, .ready squareBatch)]

/-- Before a step, with a count of evaluations. -/
def beforeStep (count : ℤ) : StepScoring touchingSquares := ⟨.ofInt 0, .ofInt count, none, [], []⟩

theorem scoringMode_irrelevant_squares :
    (∃ result, ParallelStep emptyTree squareAlloc (scoringLimits (some (.ofInt 2)) false false) true
      squareStep squareOutcomes (∅, beforeStep 0) result) ∧
    ∀ result, ParallelStep emptyTree squareAlloc (scoringLimits (some (.ofInt 2)) false false) true
        squareStep squareOutcomes (∅, beforeStep 0) result →
      result.map Prod.snd = (serialStep emptyTree squareAlloc
        (scoringLimits (some (.ofInt 2)) false false) squareStep squareOutcomes
          (∅, beforeStep 0)).map Prod.snd :=
  (scoringMode_irrelevant emptyTree squareAlloc (scoringLimits (some (.ofInt 2)) false false)
    squareStep squareOutcomes (beforeStep 0) 0 rfl rfl (by decide)).2 true

/-- The count of a batch by ones, without a cap. -/
theorem candidateEvaluationCount_scoreSerially (limits : ScoringLimits)
    (hcap : limits.maximumCandidateEvaluationCount = none)
    (hcapture : limits.captureCandidateEvaluationCount = true) (family : String) :
    ∀ (inputs : List (StrictScoringInput touchingSquares)) (memo : AnchoredParentKeysMemo ℚ)
      (scoring : StepScoring touchingSquares),
      (scoreSerially emptyTree squareAlloc limits family inputs
          (memo, scoring)).2.candidateEvaluationCount =
        inputs.foldl (fun count _ => count.add (.ofInt 1)) scoring.candidateEvaluationCount
  | [], _, _ => rfl
  | input :: rest, memo, scoring => by
    have hreached : limits.reached scoring.candidateEvaluationCount = false := by
      unfold ScoringLimits.reached
      rw [hcap]
    have hcount : (limits.count 1 scoring).candidateEvaluationCount =
        scoring.candidateEvaluationCount.add (.ofInt 1) := by
      unfold ScoringLimits.count
      rw [hcapture]
      rfl
    rw [scoreSerially, hreached, if_neg Bool.false_ne_true]
    dsimp only
    rw [candidateEvaluationCount_scoreSerially limits hcap hcapture family rest,
      replayOutput_candidateEvaluationCount, hcount]
    rfl

/-- The limits of a run that counts without a cap. -/
def countingLimits : ScoringLimits := scoringLimits none true false

/-- At 2^53 - 1 evaluations three more candidates are counted up to 2^53 by ones and up to
2^53 + 2 at once. -/
theorem scoringMode_apart :
    (∃ result, ParallelStep emptyTree squareAlloc countingLimits true squareStep squareOutcomes
      (∅, beforeStep 9007199254740991) result) ∧
    (∀ result, ParallelStep emptyTree squareAlloc countingLimits true squareStep squareOutcomes
        (∅, beforeStep 9007199254740991) result →
      result.map (fun state => state.2.candidateEvaluationCount) =
        .ok (.ofInt 9007199254740994)) ∧
    (serialStep emptyTree squareAlloc countingLimits squareStep squareOutcomes
        (∅, beforeStep 9007199254740991)).map (fun state => state.2.candidateEvaluationCount) =
      .ok (.ofInt 9007199254740992) ∧
    (Number.ofInt 9007199254740992).lt (.ofInt 9007199254740994) = true := by
  have hfresh : Renders squareStep.state (∅ : AnchoredParentKeysMemo ℚ) :=
    ParentMemo.fresh.renders
  refine ⟨exists_parallelStep true squareOutcomes _ hfresh, fun result hresult => ?_, ?_,
    by decide +kernel⟩
  · have hbatched : (replayedBatch emptyTree squareAlloc countingLimits squareStep
        (transformFamilyKey (⟨0, 0, false, .orthogonal⟩ : IrregularTransformCandidate ℚ)) squareBatch
        (beforeStep 9007199254740991)).candidateEvaluationCount = .ofInt 9007199254740994 := by
      have hcounted : (Number.ofInt ((9007199254740991 : ℕ) : ℤ)).add (Number.ofInt ((3 : ℕ) : ℤ)) =
          Number.ofInt ((9007199254740991 + 3 : ℕ) : ℤ) := ofInt_add (by norm_num) (by norm_num)
      unfold replayedBatch
      rw [(foldl_replayOutput_frame _ _).1]
      exact hcounted
    cases hresult with
    | failed hbatch =>
      obtain ⟨memo, -, hfailed⟩ := hbatch.eq_ok hfresh
      cases hfailed
    | truncated hbatch hfewer => exact absurd hfewer (by decide)
    | next hbatch hall hrest =>
      cases hrest
      obtain ⟨memo, -, hok⟩ := hbatch.eq_ok hfresh
      obtain rfl := Except.ok.inj hok
      exact congrArg Except.ok hbatched
  · have hserial := candidateEvaluationCount_scoreSerially countingLimits rfl rfl
      (transformFamilyKey (⟨0, 0, false, .orthogonal⟩ : IrregularTransformCandidate ℚ))
      (squareStep.inputs (transformFamilyKey (⟨0, 0, false, .orthogonal⟩ :
        IrregularTransformCandidate ℚ)) squareBatch) ∅
      ((beforeStep 9007199254740991).addCandidates squareBatch.legalCandidates.length)
    -- the sum of 2^53 and one rounds to 2^53
    have hthree : (((Number.ofInt 9007199254740991).add (.ofInt 1)).add (.ofInt 1)).add (.ofInt 1) =
        Number.ofInt 9007199254740992 := Number.place_injective (by decide +kernel)
    unfold squareOutcomes
    rw [serialStep]
    split
    · exact congrArg Except.ok (hserial.trans hthree)
    · exact congrArg Except.ok (hserial.trans hthree)

end PolygonNesting
