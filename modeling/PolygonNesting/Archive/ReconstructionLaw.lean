import PolygonNesting.Archive.Reconstruction
import PolygonNesting.Lib.NumberCounts
import PolygonNesting.Search.CompletedRankingLaw
import PolygonNesting.Search.StrictScoringLaw

/-!
# The law of the portfolio

What one turn of the loop can do is said once, as the relation `PortfolioTurn`; the ledger of the
portfolio and its record of runs are invariants of it.  An abort reaches the caller exactly when
the caller's own control gave it: a checkpoint records the abort it passes on, and the deadline of
a decode leaves no record.
-/

namespace PolygonNesting

open Binary64 Comparator ParetoPeeling

set_option linter.unusedSectionVars false

variable {F : Type} [LinearOrder F] [Zero F] [One F] [Add F] [Sub F] [Neg F] [Mul F] [Div F]
  [JsMath F]

/-! ## §1  The archive -/

section Archive

variable {entry : IntrinsicReconstructionArchiveRun F}
  {selected unique : List (IntrinsicReconstructionArchiveRun F)}

theorem nodup_hash_concat (h : (selected.map fun kept => kept.hash).Nodup)
    (hnew : (selected.any fun kept => kept.hash == entry.hash) = false) :
    ((selected ++ [entry]).map fun kept => kept.hash).Nodup := by
  rw [List.map_append, List.map_singleton, List.nodup_append]
  refine ⟨h, List.nodup_singleton _, ?_⟩
  rintro hash hmem other hother rfl
  obtain ⟨kept, hkept, rfl⟩ := List.mem_map.1 hmem
  have hne := List.any_eq_false.1 hnew kept hkept
  exact hne (beq_iff_eq.2 (List.mem_singleton.1 hother))

theorem insertUnique_nodup (h : (unique.map fun kept => kept.hash).Nodup) :
    ((insertUnique unique entry).map fun kept => kept.hash).Nodup := by
  unfold insertUnique
  split
  · exact h
  · next hnew => exact nodup_hash_concat h (Bool.eq_false_iff.2 hnew)

/-- The unique runs have different hashes. -/
theorem uniqueRuns_nodup (runs : List (IntrinsicReconstructionRun F)) :
    ((uniqueRuns runs).map fun entry => entry.hash).Nodup := by
  unfold uniqueRuns
  refine List.foldlRecOn (motive := fun unique : List (IntrinsicReconstructionArchiveRun F) =>
    (unique.map fun kept => kept.hash).Nodup) (b := []) _ _ List.nodup_nil ?_
  intro unique h entry _
  exact insertUnique_nodup h

variable {boundedCapacity : ℕ}

theorem appendSelected_nodup (h : (selected.map fun kept => kept.hash).Nodup) :
    ((appendSelected boundedCapacity selected entry).map fun kept => kept.hash).Nodup := by
  unfold appendSelected
  split
  · next hnew =>
    rw [Bool.and_eq_true, Bool.not_eq_true'] at hnew
    exact nodup_hash_concat h hnew.2
  · exact h

theorem length_appendSelected (h : selected.length ≤ boundedCapacity) :
    (appendSelected boundedCapacity selected entry).length ≤ boundedCapacity := by
  unfold appendSelected
  split
  · next hnew =>
    rw [Bool.and_eq_true] at hnew
    rw [List.length_append, List.length_singleton]
    exact of_decide_eq_true hnew.1
  · exact h

theorem prefix_appendSelected : selected <+: appendSelected boundedCapacity selected entry := by
  unfold appendSelected
  split
  · exact List.prefix_append _ _
  · exact List.prefix_rfl

/-- The entries appended first stay first. -/
theorem prefix_foldl_appendSelected (entries : List (IntrinsicReconstructionArchiveRun F)) :
    selected <+: entries.foldl (appendSelected boundedCapacity) selected := by
  refine List.foldlRecOn (motive := fun result => selected <+: result) _ _ List.prefix_rfl ?_
  intro result h entry _
  exact h.trans prefix_appendSelected

theorem head?_foldl_appendSelected (hpos : 0 < boundedCapacity)
    (entries : List (IntrinsicReconstructionArchiveRun F)) :
    (entries.foldl (appendSelected boundedCapacity) []).head? = entries.head? := by
  cases entries with
  | nil => rfl
  | cons first rest =>
      have hfirst : appendSelected boundedCapacity [] first = [first] := by
        unfold appendSelected
        rw [if_pos (by simpa using hpos)]
        rfl
      rw [List.foldl_cons, hfirst]
      have hprefix : [first] <+: rest.foldl (appendSelected boundedCapacity) [first] :=
        prefix_foldl_appendSelected rest
      obtain ⟨later, hlater⟩ := hprefix
      rw [← hlater]
      rfl

/-- A run of the unique ones is found by its hash. -/
theorem find?_hash (h : (unique.map fun kept => kept.hash).Nodup) (hmem : entry ∈ unique) :
    (unique.find? fun kept => kept.hash == entry.hash) = some entry := by
  induction unique with
  | nil => cases hmem
  | cons first rest ih =>
      rw [List.map_cons, List.nodup_cons] at h
      rw [List.find?_cons]
      rcases List.mem_cons.1 hmem with rfl | hrest
      · rw [beq_self_eq_true]
      · have hne : (first.hash == entry.hash) = false :=
          beq_eq_false_iff_ne.2 fun heq => h.1 (heq ▸ List.mem_map_of_mem hrest)
        rw [hne]
        exact ih h.2 hrest

theorem mem_of_mem_front {layouts : List (IntrinsicStrictCompletedMetrics F)}
    {metrics : IntrinsicStrictCompletedMetrics F}
    (h : metrics ∈ selectIntrinsicStrictCompletedParetoFront layouts) : metrics ∈ layouts :=
  List.mem_of_mem_filter ((selectFront_perm layouts).mem_iff.1 h)

/-- The ranked runs are those of the front, in its order. -/
theorem map_rankedRuns (h : (unique.map fun kept => kept.hash).Nodup) :
    (rankedRuns unique).map (fun entry => entry.metrics) =
      selectIntrinsicStrictCompletedParetoFront (unique.map fun entry => entry.metrics) := by
  unfold rankedRuns
  rw [List.map_filterMap]
  refine (List.filterMap_congr (g := some) fun metrics hmem => ?_).trans List.filterMap_some
  obtain ⟨entry, hentry, rfl⟩ := List.mem_map.1 (mem_of_mem_front hmem)
  exact congrArg (Option.map _) (find?_hash h hentry)

/-- The front of the completed runs of different hashes. -/
def completedFront (runs : List (IntrinsicReconstructionRun F)) :
    List (IntrinsicStrictCompletedMetrics F) :=
  selectIntrinsicStrictCompletedParetoFront ((uniqueRuns runs).map fun entry => entry.metrics)

/-- **The archive keeps at most its capacity, no hash twice, and the leader of the front first.**
-/
theorem retainIntrinsicReconstructionArchive_spec (runs : List (IntrinsicReconstructionRun F))
    (capacity : ℤ) :
    ((retainIntrinsicReconstructionArchive runs capacity).length : ℤ) ≤ max capacity 0 ∧
      ((retainIntrinsicReconstructionArchive runs capacity).map fun entry => entry.hash).Nodup ∧
      (0 < capacity → ∀ leader, (completedFront runs).head? = some leader →
        (retainIntrinsicReconstructionArchive runs capacity).head?.map
          (fun entry => entry.metrics) = some leader) := by
  unfold retainIntrinsicReconstructionArchive
  dsimp only
  refine ⟨?_, ?_, fun hpos leader hleader => ?_⟩
  · have hlength := List.foldlRecOn (motive := fun result : List (IntrinsicReconstructionArchiveRun F) =>
        result.length ≤ (max capacity 0).toNat)
      ((rankedRuns (uniqueRuns runs)).head?.toList ++ (uniqueRuns runs).filter isProtectedSeed ++
        rankedRuns (uniqueRuns runs)) (appendSelected (max capacity 0).toNat) (b := []) (Nat.zero_le _)
      fun result h entry _ => length_appendSelected h
    omega
  · exact List.foldlRecOn (motive := fun result : List (IntrinsicReconstructionArchiveRun F) =>
        (result.map fun kept => kept.hash).Nodup) (b := []) _ _ List.nodup_nil
      fun result h entry _ => appendSelected_nodup h
  · unfold completedFront at hleader
    rw [← map_rankedRuns (uniqueRuns_nodup runs), List.head?_map] at hleader
    rw [head?_foldl_appendSelected (by omega), List.append_assoc, List.head?_append]
    cases hranked : (rankedRuns (uniqueRuns runs)).head? with
    | none =>
        rw [hranked] at hleader
        cases hleader
    | some first =>
        rw [hranked] at hleader
        exact hleader

end Archive

/-! ## §2  Aborts -/

section Aborts

variable (world : PortfolioWorld F)

/-- Every checkpoint passed on so far was answered with leave to go on. -/
def AllPassed (control : ReconstructionControl) : Prop :=
  control.externalAbortReason = none ∧
    ∀ answer, world.control = some answer → ∀ call < control.checkpoints, answer call = .ok ()

/-- The last checkpoint passed on was answered with the abort, which is recorded. -/
def AbortedBy (control : ReconstructionControl) (abort : NfpIfpControlAbortError) : Prop :=
  control.externalAbortReason = some abort.reason ∧
    ∃ answer last, world.control = some answer ∧ control.checkpoints = last + 1 ∧
      answer last = .error abort ∧ ∀ call < last, answer call = .ok ()

/-- The abort that ended the calls is the only one the control gave. -/
theorem AbortedBy.eq_of_answer {control : ReconstructionControl}
    {abort abort' : NfpIfpControlAbortError} (h : AbortedBy world control abort)
    {answer : ℕ → Except NfpIfpControlAbortError Unit} (hanswer : world.control = some answer)
    {call : ℕ} (hcall : call < control.checkpoints) (habort : answer call = .error abort') :
    abort' = abort := by
  obtain ⟨_, answer', last, hanswer', hcount, hlast, hbefore⟩ := h
  obtain rfl := Option.some.inj (hanswer.symm.trans hanswer')
  rcases Nat.lt_succ_iff_lt_or_eq.1 (hcount ▸ hcall) with hlt | rfl
  · rw [hbefore call hlt] at habort
    cases habort
  · exact Except.error.inj (habort.symm.trans hlast)

theorem checkpoint_spec {control : ReconstructionControl} (h : AllPassed world control) :
    (AllPassed world (control.checkpoint world).1 ∧ (control.checkpoint world).2 = .ok ()) ∨
      ∃ abort, (control.checkpoint world).2 = .error abort ∧
        AbortedBy world (control.checkpoint world).1 abort := by
  unfold ReconstructionControl.checkpoint
  cases hanswer : world.control with
  | none => exact .inl ⟨h, rfl⟩
  | some answer =>
      dsimp only
      cases hcall : answer control.checkpoints with
      | ok =>
          refine .inl ⟨⟨h.1, fun answer' hanswer' call hlt => ?_⟩, rfl⟩
          obtain rfl := Option.some.inj (hanswer.symm.trans hanswer')
          rcases Nat.lt_succ_iff_lt_or_eq.1 hlt with hlt | rfl
          · exact h.2 answer hanswer call hlt
          · exact hcall
      | error abort =>
          exact .inr ⟨abort, rfl, rfl, answer, control.checkpoints, hanswer, rfl, hcall,
            h.2 answer hanswer⟩

variable {startedAt maximumRuntimeMs : F}

/-- The deadline of the decode aborts without a record. -/
theorem deadlineCheckpoint_spec {control : ReconstructionControl} (h : AllPassed world control) :
    AllPassed world (deadlineCheckpoint world startedAt maximumRuntimeMs control).1 ∨
      ∃ abort, (deadlineCheckpoint world startedAt maximumRuntimeMs control).2 = .error abort ∧
        AbortedBy world (deadlineCheckpoint world startedAt maximumRuntimeMs control).1 abort := by
  unfold deadlineCheckpoint
  cases hcheck : control.checkpoint world with
  | mk control' result =>
      rcases checkpoint_spec world h with ⟨hpassed, hok⟩ | ⟨abort, herror, haborted⟩
      · rw [hcheck] at hpassed hok
        cases hok
        dsimp only
        split
        · exact .inl hpassed
        · exact .inl hpassed
      · rw [hcheck] at herror haborted
        cases herror
        exact .inr ⟨abort, rfl, haborted⟩

theorem runDecode_spec (limits : ScoringLimits) : ∀ (decode : Decode F)
    {control : ReconstructionControl} (count : Number), AllPassed world control →
    AllPassed world
        (runDecode world limits startedAt maximumRuntimeMs decode control count).1 ∨
      ∃ abort,
        (runDecode world limits startedAt maximumRuntimeMs decode control count).2 =
          .error (.abort abort) ∧
        AbortedBy world
          (runDecode world limits startedAt maximumRuntimeMs decode control count).1 abort := by
  intro decode
  induction decode with
  | checkpoint next ih =>
      intro control count h
      unfold runDecode
      have hspec :
          AllPassed world (deadlineCheckpoint world startedAt maximumRuntimeMs control).1 ∨
            ∃ abort, (deadlineCheckpoint world startedAt maximumRuntimeMs control).2 =
                .error abort ∧
              AbortedBy world (deadlineCheckpoint world startedAt maximumRuntimeMs control).1
                abort :=
        deadlineCheckpoint_spec world h
      cases hcheck : deadlineCheckpoint world startedAt maximumRuntimeMs control with
      | mk control' result =>
          rw [hcheck] at hspec
          cases result with
          | ok =>
              rcases hspec with hpassed | ⟨abort, herror, _⟩
              · exact ih count hpassed
              · cases herror
          | error abort =>
              rcases hspec with hpassed | ⟨abort', herror, haborted⟩
              · exact .inl hpassed
              · cases herror
                exact .inr ⟨abort, rfl, haborted⟩
  | score legalCandidateCount reached next ih =>
      intro control count h
      unfold runDecode
      cases evaluateSerially limits legalCandidateCount count with
      | mk count' ended =>
          cases ended with
          | true => exact .inl h
          | false => exact ih count' h
  | decoderFailure error => exact fun _ h => .inl h
  | geometryFailure error => exact fun _ h => .inl h
  | finish reached => exact fun _ h => .inl h

theorem constructIntrinsicStrictState_spec (call : ℕ)
    (input : ConstructIntrinsicStrictStateInput F) {control : ReconstructionControl}
    (h : AllPassed world control) :
    AllPassed world (constructIntrinsicStrictState world call input control).1 ∨
      ∃ abort,
        (constructIntrinsicStrictState world call input control).2 = .error (.abort abort) ∧
        AbortedBy world (constructIntrinsicStrictState world call input control).1 abort :=
  runDecode_spec world _ _ _ h

variable (text : Number → String) (input : RunIntrinsicReconstructionPortfolioInput F)

/-- A turn, the loop or the portfolio ended with the caller's abort, or none was given and none is
reported. -/
def AbortsTruly {α : Type} (control : ReconstructionControl)
    (outcome : Except IntrinsicReconstructionPortfolioFailure α) : Prop :=
  (AllPassed world control ∧ ∀ abort, outcome ≠ .error (.strict (.abort abort))) ∨
    ∃ abort, outcome = .error (.strict (.abort abort)) ∧ AbortedBy world control abort

theorem settleDecode_external {spec : DecodeSpec} {requested : Option Number} {decodeStartedAt : F}
    {state : PortfolioState F} {abort : NfpIfpControlAbortError}
    (h : state.control.externalAbortReason = some abort.reason) :
    settleDecode text world spec requested decodeStartedAt state (.error (.abort abort)) =
      (state, .error (.strict (.abort abort))) := by
  unfold settleDecode
  exact if_pos h

theorem settleDecode_internal {spec : DecodeSpec} {requested : Option Number} {decodeStartedAt : F}
    {state : PortfolioState F} {abort : NfpIfpControlAbortError}
    (h : state.control.externalAbortReason ≠ some abort.reason) :
    settleDecode text world spec requested decodeStartedAt state (.error (.abort abort)) =
      ({ (state.timingNow world).1 with candidateEvaluationAccountingComplete := false }.pushRun
        { deadlineRun text spec requested with
          runtimeMs := (state.timingNow world).2 - decodeStartedAt }, .ok ()) := by
  unfold settleDecode
  exact if_neg h

/-- **Only a recorded abort ends the portfolio.** -/
theorem settleDecode_aborts (spec : DecodeSpec) (requested : Option Number) (decodeStartedAt : F)
    (state : PortfolioState F)
    (result : Except IntrinsicStrictDecoderFailure (IntrinsicStrictConstructResult F))
    (h : AllPassed world state.control ∨ ∃ abort, result = .error (.abort abort) ∧
      AbortedBy world state.control abort) :
    AbortsTruly world
      (settleDecode text world spec requested decodeStartedAt state result).1.control
      (settleDecode text world spec requested decodeStartedAt state result).2 := by
  rcases h with hpassed | ⟨abort, rfl, haborted⟩
  · refine .inl ?_
    cases result with
    | ok constructed =>
        unfold settleDecode
        dsimp only
        split
        · exact ⟨hpassed, nofun⟩
        · exact ⟨hpassed, nofun⟩
    | error failure =>
        cases failure with
        | abort abort =>
            rw [settleDecode_internal world text (by rw [hpassed.1]; nofun)]
            exact ⟨hpassed, nofun⟩
        | decoder error => exact ⟨hpassed, nofun⟩
        | geometry error => exact ⟨hpassed, nofun⟩
  · refine .inr ⟨abort, ?_⟩
    rw [settleDecode_external world text haborted.1]
    exact ⟨rfl, haborted⟩

theorem portfolioStep_aborts (startedAt : F) (spec : DecodeSpec) {state : PortfolioState F}
    (h : AllPassed world state.control) :
    AbortsTruly world (portfolioStep text world input startedAt spec state).1.control
      (portfolioStep text world input startedAt spec state).2 := by
  unfold portfolioStep
  dsimp only
  split
  · exact .inl ⟨h, nofun⟩
  · split
    · exact .inl ⟨h, nofun⟩
    · split
      · exact .inl ⟨h, nofun⟩
      · exact settleDecode_aborts world text spec _ _ _ _
          (constructIntrinsicStrictState_spec world _ _ h)

theorem portfolioLoop_aborts (startedAt : F) : ∀ (specs : List DecodeSpec)
    {state : PortfolioState F}, AllPassed world state.control →
    AbortsTruly world (portfolioLoop text world input startedAt specs state).1.control
      (portfolioLoop text world input startedAt specs state).2
  | [], state, h => .inl ⟨h, nofun⟩
  | spec :: specs, state, h => by
      have hstep := portfolioStep_aborts world text input startedAt spec h
      unfold portfolioLoop
      cases hturn : portfolioStep text world input startedAt spec state with
      | mk state' outcome =>
          rw [hturn] at hstep
          cases outcome with
          | error failure => 
              rcases hstep with ⟨hpassed, hno⟩ | ⟨abort, herror, haborted⟩
              · exact .inl ⟨hpassed, fun abort heq => hno abort (by cases heq; rfl)⟩
              · exact .inr ⟨abort, by cases herror; rfl, haborted⟩
          | ok =>
              rcases hstep with ⟨hpassed, _⟩ | ⟨abort, herror, _⟩
              · exact portfolioLoop_aborts startedAt specs hpassed
              · cases herror

end Aborts

/-! ## §3  Counts -/

section Counts

variable {limits : ScoringLimits}

/-- A whole count; the cap was not reached one evaluation before. -/
def CountedWithin (limits : ScoringLimits) (count : Number) : Prop :=
  ∃ k : ℕ, k ≤ 2 ^ 53 ∧ count = .ofInt k ∧
    (k = 0 ∨ limits.reached (.ofInt ((k - 1 : ℕ) : ℤ)) = false)

theorem countedWithin_zero : CountedWithin limits (.ofInt 0) :=
  ⟨0, by norm_num, rfl, .inl rfl⟩

/-- Beyond 53 bits a count stays where it is. -/
theorem ofInt_full_add_one :
    (Number.ofInt ((2 ^ 53 : ℕ) : ℤ)).add (.ofInt 1) = .ofInt ((2 ^ 53 : ℕ) : ℤ) :=
  Number.place_injective (by decide +kernel)

theorem CountedWithin.add_one {count : Number} (h : CountedWithin limits count)
    (hopen : limits.reached count = false) : CountedWithin limits (count.add (.ofInt 1)) := by
  obtain ⟨k, hk, rfl, hbefore⟩ := h
  rcases hk.lt_or_eq with hlt | rfl
  · refine ⟨k + 1, hlt, ?_, .inr ?_⟩
    · have hadd := ofInt_add (n := k) (m := 1) hk (by norm_num)
      exact hadd
    · rw [Nat.add_sub_cancel]
      exact hopen
  · exact ⟨2 ^ 53, le_rfl, ofInt_full_add_one, hbefore⟩

theorem evaluateSerially_counted : ∀ (remaining : ℕ) {count : Number},
    CountedWithin limits count → CountedWithin limits (evaluateSerially limits remaining count).1
  | 0, _, h => h
  | remaining + 1, count, h => by
      unfold evaluateSerially
      split
      · exact h
      · next hopen =>
        refine evaluateSerially_counted remaining ?_
        split
        · exact h.add_one (Bool.eq_false_iff.2 hopen)
        · exact h

/-- The loop over counts is that of the scored candidates. -/
theorem scoreSerially_counts {heap : ℕ → IrregularPlacedPiece F} (booleanOpWithPolyTree : BooleanOp)
    (alloc : IrregularPlacedPiece F → PlacedArc heap) (limits : ScoringLimits) (family : String) :
    ∀ (inputs : List (StrictScoringInput heap)) (memo : AnchoredParentKeysMemo F)
      (scoring : StepScoring heap),
    let scored := (scoreSerially booleanOpWithPolyTree alloc limits family inputs
      (memo, scoring)).2
    let counted := evaluateSerially limits inputs.length scoring.candidateEvaluationCount
    scored.candidateEvaluationCount = counted.1 ∧
      scored.truncationReason =
        if counted.2 then some .maximumCandidateEvaluations else scoring.truncationReason
  | [], _, _ => ⟨rfl, rfl⟩
  | input :: rest, memo, scoring => by
      dsimp only
      rw [List.length_cons, scoreSerially, evaluateSerially]
      split
      · exact ⟨rfl, rfl⟩
      · obtain ⟨hcount, hreason⟩ := scoreSerially_counts booleanOpWithPolyTree alloc limits family
          rest (scoreCandidate booleanOpWithPolyTree alloc input memo memo).2
          (replayOutput family (limits.count 1 scoring)
            (scoreCandidate booleanOpWithPolyTree alloc input memo memo).1)
        have hone : (replayOutput family (limits.count 1 scoring)
            (scoreCandidate booleanOpWithPolyTree alloc input memo memo).1).candidateEvaluationCount =
              if limits.captureCandidateEvaluationCount then
                scoring.candidateEvaluationCount.add (.ofInt 1)
              else scoring.candidateEvaluationCount := by
          rw [replayOutput_candidateEvaluationCount]
          unfold ScoringLimits.count
          split <;> rfl
        have hkept : (replayOutput family (limits.count 1 scoring)
            (scoreCandidate booleanOpWithPolyTree alloc input memo memo).1).truncationReason =
              scoring.truncationReason := by
          unfold ScoringLimits.count
          cases (scoreCandidate booleanOpWithPolyTree alloc input memo memo).1 <;> split <;> rfl
        rw [hone] at hcount hreason
        rw [hkept] at hreason
        exact ⟨hcount, hreason⟩

theorem runDecode_counted {world : PortfolioWorld F} {startedAt maximumRuntimeMs : F} :
    ∀ (decode : Decode F) {control : ReconstructionControl} {count : Number}
      {constructed : IntrinsicStrictConstructResult F}, CountedWithin limits count →
    (runDecode world limits startedAt maximumRuntimeMs decode control count).2 = .ok constructed →
      CountedWithin limits constructed.candidateEvaluationCount := by
  intro decode
  induction decode with
  | checkpoint next ih =>
      intro control count constructed h hresult
      unfold runDecode at hresult
      cases hcheck : deadlineCheckpoint world startedAt maximumRuntimeMs control with
      | mk control' result =>
          rw [hcheck] at hresult
          cases result with
          | ok => exact ih h hresult
          | error abort => cases hresult
  | score legalCandidateCount reached next ih =>
      intro control count constructed h hresult
      have hcounted := evaluateSerially_counted legalCandidateCount h
      unfold runDecode at hresult
      cases hcount : evaluateSerially limits legalCandidateCount count with
      | mk count' ended =>
          rw [hcount] at hresult hcounted
          cases ended with
          | true =>
              cases hresult
              exact hcounted
          | false => exact ih hcounted hresult
  | decoderFailure error => exact fun _ hresult => by cases hresult
  | geometryFailure error => exact fun _ hresult => by cases hresult
  | finish reached =>
      intro control count constructed h hresult
      cases hresult
      exact h

/-- Below a cap that is a number, the count is less than it. -/
theorem lt_of_reached_eq_false {count cap : Number} (hcount : count.isNan = false)
    (hcap : cap.isNan = false) (hlimit : limits.maximumCandidateEvaluationCount = some cap)
    (h : limits.reached count = false) : count.lt cap = true := by
  unfold ScoringLimits.reached at h
  rw [hlimit] at h
  dsimp only at h
  by_contra hlt
  have hcmp := Number.partialCmp_eq hcount hcap
  rw [hcmp] at h
  unfold Number.partialCmp at hcmp
  rw [if_neg hlt] at hcmp
  split at hcmp
  · rw [← hcmp] at h
    cases h
  · split at hcmp
    · rw [← hcmp] at h
      cases h
    · cases hcmp

/-- The cap of a request is one, or the whole part of the request. -/
theorem scoringLimits_cap (requested : Number) (hnan : requested.isNan = false) :
    ∃ cap, (scoringLimits (some requested) true false).maximumCandidateEvaluationCount = some cap ∧
      (cap = .ofInt 1 ∨ cap = requested.floor) ∧ cap.isNan = false := by
  refine ⟨jsMax (.ofInt 1) requested.floor, rfl, ?_⟩
  have hfloor : requested.floor.isNan = false := by
    cases requested with
    | nan => cases hnan
    | infinity negative => rfl
    | finite value _ => exact isNan_round _
  have hone : (Number.ofInt 1).isNan = false := isNan_round _
  unfold jsMax
  rw [hfloor, hone]
  rw [Bool.or_self, if_neg Bool.false_ne_true]
  split
  · exact ⟨.inr rfl, hfloor⟩
  · exact ⟨.inl rfl, hone⟩

/-- **A decode evaluates one candidate, or no more than the whole part of what remains.** -/
theorem CountedWithin.spent {requested remaining count : Number}
    (h : CountedWithin (scoringLimits (some requested) true false) count)
    (hle : requested.le remaining = true) :
    ∃ k : ℕ, k ≤ 2 ^ 53 ∧ count = .ofInt k ∧
      (k ≤ 1 ∨ (Number.ofInt k).le remaining.floor = true) := by
  obtain ⟨k, hk, rfl, hbefore⟩ := h
  refine ⟨k, hk, rfl, ?_⟩
  rcases hbefore with rfl | hopen
  · exact .inl (Nat.zero_le 1)
  by_cases hone : k ≤ 1
  · exact .inl hone
  have hnan : requested.isNan = false := by
    cases requested with
    | nan => cases hle
    | infinity negative => rfl
    | finite value _ => rfl
  obtain ⟨cap, hlimit, hcap, hcapNan⟩ := scoringLimits_cap requested hnan
  have hlt : (Number.ofInt ((k - 1 : ℕ) : ℤ)).lt cap = true :=
    lt_of_reached_eq_false (isNan_round _) hcapNan hlimit hopen
  rcases hcap with rfl | rfl
  · -- the cap of one was reached
    have hlt' := Number.lt_ofInt (a := ((k - 1 : ℕ) : ℤ)) (b := 1)
      (abs_natCast_le (by omega)) (by norm_num)
    rw [hlt'] at hlt
    have := of_decide_eq_true hlt
    omega
  right
  have hinfinite : (Number.ofInt k).le (.infinity false) = true :=
    Number.le_infinity (Number.isCount_ofInt k)
  cases requested with
  | nan => cases hnan
  | infinity negative =>
      cases negative with
      | true =>
          rw [Number.ofInt_natCast (by omega)] at hlt
          cases hlt
      | false =>
          cases remaining with
          | nan => cases hle
          | infinity negative =>
              cases negative with
              | true => cases hle
              | false => exact hinfinite
          | finite value _ => cases hle
  | finite r hr =>
      have hfloor : ((k - 1 : ℕ) : ℤ) < ⌊r⌋ := Number.lt_of_lt_floor (by omega) hlt
      cases remaining with
      | nan => cases hle
      | infinity negative =>
          cases negative with
          | true => cases hle
          | false => exact hinfinite
      | finite r' hr' =>
          have hmono : ⌊r⌋ ≤ ⌊r'⌋ := Int.floor_le_floor (of_decide_eq_true hle)
          rw [Number.ofInt_natCast hk]
          refine Number.le_round (Number.representable_natCast hk) ?_
          exact_mod_cast (show (k : ℤ) ≤ ⌊r'⌋ by omega)

end Counts

/-! ## §4  What a turn can do -/

section Turns

variable (text : Number → String) (world : PortfolioWorld F)
  (input : RunIntrinsicReconstructionPortfolioInput F)

/-- The run of an order. -/
structure IsRunOf (spec : DecodeSpec) (run : IntrinsicReconstructionRun F) : Prop where
  role : run.role = spec.role
  sourceEndpointHash : run.sourceEndpointHash = spec.sourceEndpointHash
  candidateMode : run.candidateMode = spec.candidateMode
  pieceIds : run.pieceIds = spec.pieces.map (·.preparedPieceId)
  effectiveOrderKey :
    run.effectiveOrderKey = intrinsicReconstructionEffectiveOrderKey text spec.pieces

/-- Under a maximum total the call is made while something remains, and asks for no more. -/
def RequestsWithin (call : DecodeCall F) : Prop :=
  ∀ maximum, input.maximumTotalCandidateEvaluations = some maximum →
    (maximum.sub call.consumedBefore).le (.ofInt 0) = false ∧
      ∃ requested, call.input.maximumCandidateEvaluationCount = some requested ∧
        ((maximum.sub call.consumedBefore).isNan = false →
          requested.le (maximum.sub call.consumedBefore) = true)

/-- A call of the decoder from a state of the loop. -/
structure IsCallOf (spec : DecodeSpec) (state : PortfolioState F) (call : DecodeCall F) : Prop where
  pieces : call.input.allPreparedPieces = spec.pieces
  candidateMode : call.input.candidateMode = spec.candidateMode
  consumedBefore : call.consumedBefore = state.consumedCandidateEvaluations
  request : RequestsWithin input call

/-- The state with the order owned. -/
def PortfolioState.own (state : PortfolioState F) (spec : DecodeSpec) : PortfolioState F :=
  { state with
    orderOwners := Function.update state.orderOwners
      (ownerKey text spec.candidateMode spec.pieces) (some spec.role) }

/-- A turn of the loop: the order has an owner; or it is not decoded, for want of time or of
evaluations; or its decode fails, runs out of its own time, or is counted. -/
inductive PortfolioTurn (spec : DecodeSpec) (state : PortfolioState F) :
    PortfolioState F → Except IntrinsicReconstructionPortfolioFailure Unit → Prop
  | duplicate {owner : IntrinsicReconstructionRole}
      (howner : state.orderOwners (ownerKey text spec.candidateMode spec.pieces) = some owner) :
      PortfolioTurn spec state (state.pushRun (duplicateOrderRun text spec owner)) (.ok ())
  | undecoded {control : ReconstructionControl} {complete : Bool}
      {run : IntrinsicReconstructionRun F}
      (hfree : state.orderOwners (ownerKey text spec.candidateMode spec.pieces) = none)
      (hrun : IsRunOf text spec run) (hduplicate : run.duplicateOf = none)
      (hconsumed : run.consumedCandidateEvaluations = none)
      (hstatus : run.status = .deadline ∧ complete = false ∨
        run.status = .evaluationCap ∧ complete = state.candidateEvaluationAccountingComplete) :
      PortfolioTurn spec state
        ({ state.own text spec with
          control := control
          candidateEvaluationAccountingComplete := complete }.pushRun run) (.ok ())
  | failed {control : ReconstructionControl} {call : DecodeCall F}
      (failure : IntrinsicReconstructionPortfolioFailure)
      (hfree : state.orderOwners (ownerKey text spec.candidateMode spec.pieces) = none)
      (hcall : IsCallOf input spec state call) :
      PortfolioTurn spec state
        { state.own text spec with control := control, decodes := state.decodes ++ [call] }
        (.error failure)
  | deadline {control : ReconstructionControl} {call : DecodeCall F}
      {run : IntrinsicReconstructionRun F}
      (hfree : state.orderOwners (ownerKey text spec.candidateMode spec.pieces) = none)
      (hcall : IsCallOf input spec state call) (hrun : IsRunOf text spec run)
      (hduplicate : run.duplicateOf = none) (hconsumed : run.consumedCandidateEvaluations = none)
      (hstatus : run.status = .deadline) :
      PortfolioTurn spec state
        ({ state.own text spec with
          control := control
          decodes := state.decodes ++ [call]
          candidateEvaluationAccountingComplete := false }.pushRun run) (.ok ())
  | decoded {control : ReconstructionControl} {call : DecodeCall F} {count : Number}
      {run : IntrinsicReconstructionRun F}
      (hfree : state.orderOwners (ownerKey text spec.candidateMode spec.pieces) = none)
      (hcall : IsCallOf input spec state call) (hrun : IsRunOf text spec run)
      (hduplicate : run.duplicateOf = none)
      (hcount : CountedWithin
        (scoringLimits call.input.maximumCandidateEvaluationCount true false) count)
      (hconsumed : run.consumedCandidateEvaluations = some count)
      (hstatus : run.status = .completed ∨ run.status = .incomplete ∨
        run.status = .evaluationCap) :
      PortfolioTurn spec state
        ({ state.own text spec with
          control := control
          decodes := state.decodes ++ [call]
          consumedCandidateEvaluations := state.consumedCandidateEvaluations.add count }.pushRun
            run) (.ok ())

/-- **No request exceeds what remains.** -/
theorem requested_within (maximumPerDecode : Option Number) (remaining : Number) :
    ∃ requested, requestedCandidateEvaluations maximumPerDecode (some remaining) =
      some requested ∧ (remaining.isNan = false → requested.le remaining = true) := by
  cases maximumPerDecode with
  | none => exact ⟨remaining, rfl, fun hnan => Number.min_le .nan hnan⟩
  | some perDecode => exact ⟨perDecode.min remaining, rfl, Number.min_le perDecode⟩

theorem settleDecode_turn {spec : DecodeSpec} {state : PortfolioState F}
    (hfree : state.orderOwners (ownerKey text spec.candidateMode spec.pieces) = none)
    {control : ReconstructionControl} {call : DecodeCall F} (hcall : IsCallOf input spec state call)
    {requested : Option Number} {decodeStartedAt : F}
    {result : Except IntrinsicStrictDecoderFailure (IntrinsicStrictConstructResult F)}
    (hcount : ∀ constructed, result = .ok constructed → CountedWithin
      (scoringLimits call.input.maximumCandidateEvaluationCount true false)
        constructed.candidateEvaluationCount) :
    PortfolioTurn text input spec state
      (settleDecode text world spec requested decodeStartedAt
        { state.own text spec with control := control, decodes := state.decodes ++ [call] }
        result).1
      (settleDecode text world spec requested decodeStartedAt
        { state.own text spec with control := control, decodes := state.decodes ++ [call] }
        result).2 := by
  cases result with
  | ok constructed =>
      unfold settleDecode
      dsimp only
      split
      · exact .decoded hfree hcall ⟨rfl, rfl, rfl, rfl, rfl⟩ rfl (hcount constructed rfl) rfl
          (.inr (.inr rfl))
      · refine .decoded hfree hcall ⟨rfl, rfl, rfl, rfl, rfl⟩ rfl (hcount constructed rfl) rfl ?_
        unfold decodedRun
        dsimp only
        split
        · exact .inr (.inl rfl)
        · exact .inl rfl
  | error failure =>
      cases failure with
      | abort abort =>
          by_cases hreason : control.externalAbortReason = some abort.reason
          · rw [settleDecode_external world text hreason]
            exact .failed _ hfree hcall
          · rw [settleDecode_internal world text hreason]
            exact .deadline hfree hcall ⟨rfl, rfl, rfl, rfl, rfl⟩ rfl rfl rfl
      | decoder error => exact .failed _ hfree hcall
      | geometry error => exact .failed _ hfree hcall

/-- **Every turn is one of these.** -/
theorem portfolioStep_turn (startedAt : F) (spec : DecodeSpec) (state : PortfolioState F) :
    PortfolioTurn text input spec state
      (portfolioStep text world input startedAt spec state).1
      (portfolioStep text world input startedAt spec state).2 := by
  unfold portfolioStep
  dsimp only
  split
  · next howner => exact .duplicate howner
  · next hfree =>
    split
    · exact .undecoded hfree ⟨rfl, rfl, rfl, rfl, rfl⟩ rfl rfl (.inl ⟨rfl, rfl⟩)
    · split
      · exact .undecoded hfree ⟨rfl, rfl, rfl, rfl, rfl⟩ rfl rfl (.inr ⟨rfl, rfl⟩)
      · next hopen =>
        unfold decodeOrder
        dsimp only
        refine settleDecode_turn text world input hfree ⟨rfl, rfl, rfl, fun maximum hmaximum => ?_⟩
          fun constructed hresult => runDecode_counted _ countedWithin_zero hresult
        rw [hmaximum] at hopen
        refine ⟨Bool.eq_false_iff.2 hopen, ?_⟩
        dsimp only
        rw [hmaximum]
        exact requested_within _ _

end Turns

/-! ## §5  Owners -/

section Owners

/-- The text under which the owner of a mode and an order is kept. -/
def ownerText (mode : IntrinsicStrictCandidateMode) (key : String) : String :=
  candidateModeKey mode ++ ":" ++ key

theorem candidateModeKey_injective : Function.Injective candidateModeKey := by
  have hmodes : ∀ mode mode' : IntrinsicStrictComparatorMode,
      candidateModeKey (.comparator mode) = candidateModeKey (.comparator mode') → mode = mode' := by
    intro mode mode' h
    cases mode <;> cases mode' <;> first | rfl | exact absurd h (by decide)
  intro mode mode' h
  cases mode with
  | gapContained =>
      cases mode' with
      | gapContained => rfl
      | comparator mode' => cases mode' <;> exact absurd h (by decide)
  | comparator mode =>
      cases mode' with
      | gapContained => cases mode <;> exact absurd h (by decide)
      | comparator mode' => rw [hmodes mode mode' h]

theorem not_mem_candidateModeKey (mode : IntrinsicStrictCandidateMode) :
    ':' ∉ (candidateModeKey mode).toList := by
  cases mode with
  | gapContained => decide
  | comparator mode => cases mode <;> decide

/-- The mode and the order can be read back. -/
theorem ownerText_inj {mode mode' : IntrinsicStrictCandidateMode} {key key' : String} :
    ownerText mode key = ownerText mode' key' ↔ mode = mode' ∧ key = key' := by
  constructor
  · intro h
    unfold ownerText at h
    rw [String.append_assoc, String.append_assoc] at h
    obtain ⟨hmode, hkey⟩ := SeparatedText.append_inj (c := ':') rfl
      (not_mem_candidateModeKey mode) (not_mem_candidateModeKey mode') h
    exact ⟨candidateModeKey_injective hmode, hkey⟩
  · rintro ⟨rfl, rfl⟩
    rfl

def IntrinsicReconstructionRun.owns (mode : IntrinsicStrictCandidateMode) (key : String)
    (run : IntrinsicReconstructionRun F) : Bool :=
  run.candidateMode = mode && run.effectiveOrderKey = key

theorem owns_iff {mode : IntrinsicStrictCandidateMode} {key : String}
    {run : IntrinsicReconstructionRun F} :
    run.owns mode key = true ↔ run.candidateMode = mode ∧ run.effectiveOrderKey = key := by
  unfold IntrinsicReconstructionRun.owns
  rw [Bool.and_eq_true, decide_eq_true_eq, decide_eq_true_eq]

/-- The owner of an order under a mode: the last seed that has them, or else the first run. -/
def ownerOf (seedRuns specRuns : List (IntrinsicReconstructionRun F))
    (mode : IntrinsicStrictCandidateMode) (key : String) : Option IntrinsicReconstructionRole :=
  ((seedRuns.filter fun run => run.owns mode key).getLast?.or
    (specRuns.find? fun run => run.owns mode key)).map fun run => run.role

theorem ownerOf_concat (seedRuns specRuns : List (IntrinsicReconstructionRun F))
    (run : IntrinsicReconstructionRun F) (mode : IntrinsicStrictCandidateMode) (key : String) :
    ownerOf seedRuns (specRuns ++ [run]) mode key =
      (ownerOf seedRuns specRuns mode key).or
        (if run.owns mode key then some run.role else none) := by
  unfold ownerOf
  rw [List.find?_append, List.find?_singleton]
  cases (seedRuns.filter fun run => run.owns mode key).getLast? with
  | some seed => rfl
  | none =>
      cases specRuns.find? fun run => run.owns mode key with
      | some owner => rfl
      | none =>
          cases run.owns mode key <;> rfl

variable (text : Number → String) (input : RunIntrinsicReconstructionPortfolioInput F)

/-- A later update of a key replaces an earlier one. -/
theorem seedOwners_eq {seedRuns : List (IntrinsicReconstructionRun F)}
    (hkeys : ∀ run ∈ seedRuns, run.effectiveOrderKey =
      intrinsicReconstructionEffectiveOrderKey text input.allPreparedPieces)
    (mode : IntrinsicStrictCandidateMode) (key : String) :
    seedOwners text input seedRuns (ownerText mode key) = ownerOf seedRuns [] mode key := by
  induction seedRuns using List.reverseRecOn with
  | nil => rfl
  | append_singleton seedRuns run ih =>
      have hrun := hkeys run (List.mem_append_right _ List.mem_cons_self)
      have hupdate : seedOwners text input (seedRuns ++ [run]) =
          Function.update (seedOwners text input seedRuns)
            (ownerText run.candidateMode run.effectiveOrderKey) (some run.role) := by
        unfold seedOwners
        rw [List.foldl_append, hrun]
        rfl
      rw [hupdate]
      unfold ownerOf
      rw [List.filter_append, List.filter_singleton]
      by_cases howns : run.owns mode key = true
      · obtain ⟨rfl, rfl⟩ := owns_iff.1 howns
        rw [Function.update_self, howns]
        simp
      · have hne : ownerText mode key ≠ ownerText run.candidateMode run.effectiveOrderKey :=
          fun heq => howns (owns_iff.2 ⟨(ownerText_inj.1 heq).1.symm, (ownerText_inj.1 heq).2.symm⟩)
        rw [Function.update_of_ne hne, ih fun run' hmem => hkeys run' (List.mem_append_left _ hmem),
          Bool.eq_false_iff.2 howns]
        simp [ownerOf]

end Owners

/-! ## §6  The ledger -/

section Ledger

variable (text : Number → String) (world : PortfolioWorld F)
  (input : RunIntrinsicReconstructionPortfolioInput F)

/-- The mode and the order of a call. -/
def DecodeCall.order (call : DecodeCall F) : IntrinsicStrictCandidateMode × String :=
  (call.input.candidateMode,
    intrinsicReconstructionEffectiveOrderKey text call.input.allPreparedPieces)

/-- What holds of the calls and the count of a portfolio after every turn. -/
structure Ledger (state : PortfolioState F) : Prop where
  once : (state.decodes.map fun call => call.order text).Nodup
  owned : ∀ call ∈ state.decodes,
    (state.orderOwners (ownerText (call.order text).1 (call.order text).2)).isSome = true
  apart : ∀ call ∈ state.decodes,
    ∀ run ∈ baselineSeedRuns text input.baselineSeeds input.allPreparedPieces,
      (run.candidateMode, run.effectiveOrderKey) ≠ call.order text
  seeds : ∀ run ∈ baselineSeedRuns text input.baselineSeeds input.allPreparedPieces,
    (state.orderOwners (ownerText run.candidateMode run.effectiveOrderKey)).isSome = true
  counted : state.consumedCandidateEvaluations.isCount = true
  bounded : ∀ maximum bound, input.maximumTotalCandidateEvaluations = some maximum →
    bound.isCount = true → maximum.le bound = true →
      state.consumedCandidateEvaluations.le bound = true
  requests : ∀ call ∈ state.decodes, RequestsWithin input call

variable {text input} {spec : DecodeSpec} {state state' : PortfolioState F}

/-- The ledger reads the owners, the calls and the count. -/
theorem Ledger.congr (h : Ledger text input state) (howners : state'.orderOwners = state.orderOwners)
    (hdecodes : state'.decodes = state.decodes)
    (hconsumed : state'.consumedCandidateEvaluations = state.consumedCandidateEvaluations) :
    Ledger text input state' where
  once := hdecodes ▸ h.once
  owned := by
    rw [hdecodes, howners]
    exact h.owned
  apart := hdecodes ▸ h.apart
  seeds := howners ▸ h.seeds
  counted := hconsumed ▸ h.counted
  bounded := hconsumed ▸ h.bounded
  requests := hdecodes ▸ h.requests

theorem isSome_own {key : String} (h : (state.orderOwners key).isSome = true) :
    ((state.own text spec).orderOwners key).isSome = true := by
  show (Function.update state.orderOwners _ _ key).isSome = true
  rw [Function.update_apply]
  split
  · rfl
  · exact h

theorem Ledger.own (h : Ledger text input state) : Ledger text input (state.own text spec) where
  once := h.once
  owned := fun call hcall => isSome_own (h.owned call hcall)
  apart := h.apart
  seeds := fun run hrun => isSome_own (h.seeds run hrun)
  counted := h.counted
  bounded := h.bounded
  requests := h.requests

theorem IsCallOf.order_eq {call : DecodeCall F} (h : IsCallOf input spec state call) :
    call.order text =
      (spec.candidateMode, intrinsicReconstructionEffectiveOrderKey text spec.pieces) := by
  unfold DecodeCall.order
  rw [h.candidateMode, h.pieces]

/-- **A call is made for an order that no call and no seed has.** -/
theorem Ledger.call (h : Ledger text input state)
    (hfree : state.orderOwners (ownerKey text spec.candidateMode spec.pieces) = none)
    {control : ReconstructionControl} {call : DecodeCall F}
    (hcall : IsCallOf input spec state call) :
    Ledger text input
      { state.own text spec with control := control, decodes := state.decodes ++ [call] } where
  once := by
    rw [List.map_append, List.map_singleton, List.nodup_append]
    refine ⟨h.once, List.nodup_singleton _, ?_⟩
    rintro order hmem other hother rfl
    obtain ⟨earlier, hearlier, rfl⟩ := List.mem_map.1 hmem
    have howned := h.owned earlier hearlier
    rw [List.mem_singleton.1 hother, hcall.order_eq] at howned
    rw [show ownerText spec.candidateMode _ = ownerKey text spec.candidateMode spec.pieces from rfl,
      hfree] at howned
    cases howned
  owned := by
    intro other hother
    rcases List.mem_append.1 hother with hearlier | hnew
    · exact isSome_own (h.owned other hearlier)
    · rw [List.mem_singleton.1 hnew, hcall.order_eq]
      show (Function.update state.orderOwners (ownerKey text spec.candidateMode spec.pieces) _
        (ownerKey text spec.candidateMode spec.pieces)).isSome = true
      rw [Function.update_self]
      rfl
  apart := by
    intro other hother run hrun heq
    rcases List.mem_append.1 hother with hearlier | hnew
    · exact h.apart other hearlier run hrun heq
    · rw [List.mem_singleton.1 hnew, hcall.order_eq, Prod.mk.injEq] at heq
      have howned := h.seeds run hrun
      rw [heq.1, heq.2,
        show ownerText spec.candidateMode _ = ownerKey text spec.candidateMode spec.pieces from rfl,
        hfree] at howned
      cases howned
  seeds := fun run hrun => isSome_own (h.seeds run hrun)
  counted := h.counted
  bounded := h.bounded
  requests := by
    intro other hother
    rcases List.mem_append.1 hother with hearlier | hnew
    · exact h.requests other hearlier
    · rw [List.mem_singleton.1 hnew]
      exact hcall.request

/-- **Counting a decode keeps the count within every whole bound of the maximum.** -/
theorem Ledger.count (h : Ledger text input state) {call : DecodeCall F} {count : Number}
    (hcall : IsCallOf input spec state call)
    (hcount : CountedWithin
      (scoringLimits call.input.maximumCandidateEvaluationCount true false) count) :
    (state.consumedCandidateEvaluations.add count).isCount = true ∧
      ∀ maximum bound, input.maximumTotalCandidateEvaluations = some maximum →
        bound.isCount = true → maximum.le bound = true →
          (state.consumedCandidateEvaluations.add count).le bound = true := by
  have hwhole : count.isCount = true := by
    obtain ⟨k, _, rfl, _⟩ := hcount
    exact Number.isCount_ofInt k
  refine ⟨Number.isCount_add h.counted hwhole, fun maximum bound hmaximum hbound hle => ?_⟩
  obtain ⟨hopen, requested, hrequested, hwithin⟩ := hcall.request maximum hmaximum
  rw [hcall.consumedBefore] at hopen hwithin
  rw [hrequested] at hcount
  rcases Number.isCount_cases hbound with rfl | ⟨b, hb, rfl⟩
  · exact Number.le_infinity (Number.isCount_add h.counted hwhole)
  have hnan : (maximum.sub state.consumedCandidateEvaluations).isNan = false := by
    rcases Number.isCount_cases h.counted with hconsumed | ⟨c, hc, hconsumed⟩
    · have := h.bounded maximum _ hmaximum hbound hle
      rw [hconsumed] at this
      cases this
    · rw [hconsumed]
      cases maximum with
      | nan => cases hle
      | infinity negative => rfl
      | finite value _ => exact isNan_round _
  obtain ⟨k, hk, rfl, hspent⟩ := hcount.spent (hwithin hnan)
  exact Number.add_le_of_remaining hbound hle h.counted (h.bounded maximum _ hmaximum hbound hle)
    hopen hk hspent

/-- **Every turn keeps the ledger.** -/
theorem PortfolioTurn.ledger {outcome : Except IntrinsicReconstructionPortfolioFailure Unit}
    (hturn : PortfolioTurn text input spec state state' outcome) (h : Ledger text input state) :
    Ledger text input state' := by
  cases hturn with
  | duplicate howner => exact h.congr rfl rfl rfl
  | undecoded hfree hrun hduplicate hconsumed hstatus => exact h.own.congr rfl rfl rfl
  | failed failure hfree hcall => exact h.call hfree hcall
  | deadline hfree hcall hrun hduplicate hconsumed hstatus =>
      have hledger : Ledger text input
          { state.own text spec with
            control := state.control, decodes := state.decodes ++ [_] } := h.call hfree hcall
      exact hledger.congr rfl rfl rfl
  | decoded hfree hcall hrun hduplicate hcount hconsumed hstatus =>
      have hledger : Ledger text input
          { state.own text spec with
            control := state.control, decodes := state.decodes ++ [_] } := h.call hfree hcall
      obtain ⟨hcounted, hbounded⟩ := h.count hcall hcount
      exact ⟨hledger.once, hledger.owned, hledger.apart, hledger.seeds, hcounted, hbounded,
        hledger.requests⟩

theorem portfolioLoop_ledger (startedAt : F) : ∀ (specs : List DecodeSpec)
    {state : PortfolioState F}, Ledger text input state →
    Ledger text input (portfolioLoop text world input startedAt specs state).1
  | [], _, h => h
  | spec :: specs, state, h => by
      have hturn := (portfolioStep_turn text world input startedAt spec state).ledger h
      unfold portfolioLoop
      cases hstep : portfolioStep text world input startedAt spec state with
      | mk state' outcome =>
          rw [hstep] at hturn
          cases outcome with
          | error failure => exact hturn
          | ok => exact portfolioLoop_ledger startedAt specs hturn

end Ledger

/-! ## §7  The record -/

section Record

variable (text : Number → String) (world : PortfolioWorld F)
  (input : RunIntrinsicReconstructionPortfolioInput F)

/-- A run is a duplicate exactly when its order has an owner among the seeds and the runs before
it, and then of that owner. -/
def RecordsDuplicates (seedRuns specRuns : List (IntrinsicReconstructionRun F)) : Prop :=
  ∀ n run, specRuns[n]? = some run →
    run.duplicateOf =
        ownerOf seedRuns (specRuns.take n) run.candidateMode run.effectiveOrderKey ∧
      (run.status = .duplicateOrder ↔ run.duplicateOf.isSome = true)

/-- The evaluations of the runs, added in their order. -/
def consumedByRuns (runs : List (IntrinsicReconstructionRun F)) : Number :=
  (runs.filterMap fun run => run.consumedCandidateEvaluations).foldl Number.add (.ofInt 0)

/-- What holds of the runs after the turns of some specs. -/
structure Recorded (specs : List DecodeSpec) (specRuns : List (IntrinsicReconstructionRun F))
    (state : PortfolioState F) : Prop where
  runs : state.runs =
    baselineSeedRuns text input.baselineSeeds input.allPreparedPieces ++ specRuns
  each : List.Forall₂ (IsRunOf text) specs specRuns
  owners : ∀ mode key, state.orderOwners (ownerText mode key) =
    ownerOf (baselineSeedRuns text input.baselineSeeds input.allPreparedPieces) specRuns mode key
  duplicates : RecordsDuplicates
    (baselineSeedRuns text input.baselineSeeds input.allPreparedPieces) specRuns
  consumed : state.consumedCandidateEvaluations = consumedByRuns specRuns
  complete : state.candidateEvaluationAccountingComplete = true ↔
    ∀ run ∈ specRuns, run.status ≠ .deadline

theorem RecordsDuplicates.concat {seedRuns specRuns : List (IntrinsicReconstructionRun F)}
    {run : IntrinsicReconstructionRun F} (h : RecordsDuplicates seedRuns specRuns)
    (hduplicate : run.duplicateOf =
      ownerOf seedRuns specRuns run.candidateMode run.effectiveOrderKey)
    (hstatus : run.status = .duplicateOrder ↔ run.duplicateOf.isSome = true) :
    RecordsDuplicates seedRuns (specRuns ++ [run]) := by
  intro n other hother
  rcases lt_trichotomy n specRuns.length with hlt | rfl | hgt
  · rw [List.getElem?_append_left hlt] at hother
    rw [List.take_append_of_le_length hlt.le]
    exact h n other hother
  · rw [List.getElem?_append_right le_rfl, Nat.sub_self] at hother
    obtain rfl := Option.some.inj hother
    rw [List.take_left]
    exact ⟨hduplicate, hstatus⟩
  · rw [List.getElem?_eq_none (by rw [List.length_append, List.length_singleton]; omega)] at hother
    cases hother

theorem consumedByRuns_concat (runs : List (IntrinsicReconstructionRun F))
    (run : IntrinsicReconstructionRun F) :
    consumedByRuns (runs ++ [run]) =
      (run.consumedCandidateEvaluations.map fun count => (consumedByRuns runs).add count).getD
        (consumedByRuns runs) := by
  unfold consumedByRuns
  rw [List.filterMap_append, List.foldl_append]
  cases hconsumed : run.consumedCandidateEvaluations with
  | none => simp [hconsumed]
  | some count => simp [hconsumed]

variable {text input} {spec : DecodeSpec} {specs : List DecodeSpec} {state state' : PortfolioState F}
  {specRuns : List (IntrinsicReconstructionRun F)} {run : IntrinsicReconstructionRun F}

theorem IsRunOf.ownerKey_eq (h : IsRunOf text spec run) :
    ownerKey text spec.candidateMode spec.pieces =
      ownerText run.candidateMode run.effectiveOrderKey := by
  rw [h.candidateMode, h.effectiveOrderKey]
  rfl

/-- The run of an order without an owner owns it. -/
theorem Recorded.own (h : Recorded text input specs specRuns state)
    (hfree : state.orderOwners (ownerKey text spec.candidateMode spec.pieces) = none)
    (hrun : IsRunOf text spec run) (mode : IntrinsicStrictCandidateMode) (key : String) :
    (state.own text spec).orderOwners (ownerText mode key) =
      ownerOf (baselineSeedRuns text input.baselineSeeds input.allPreparedPieces)
        (specRuns ++ [run]) mode key := by
  rw [ownerOf_concat, ← h.owners]
  show Function.update state.orderOwners (ownerKey text spec.candidateMode spec.pieces) _
    (ownerText mode key) = _
  rw [hrun.ownerKey_eq] at hfree ⊢
  by_cases howns : run.owns mode key = true
  · obtain ⟨rfl, rfl⟩ := owns_iff.1 howns
    rw [Function.update_self, hfree, howns, hrun.role]
    rfl
  · have hne : ownerText mode key ≠ ownerText run.candidateMode run.effectiveOrderKey :=
      fun heq => howns (owns_iff.2 ⟨(ownerText_inj.1 heq).1.symm, (ownerText_inj.1 heq).2.symm⟩)
    rw [Function.update_of_ne hne, Bool.eq_false_iff.2 howns]
    simp

/-- The record with the run of an order that had no owner. -/
theorem Recorded.concat (h : Recorded text input specs specRuns state)
    (hfree : state.orderOwners (ownerKey text spec.candidateMode spec.pieces) = none)
    (hrun : IsRunOf text spec run) (hduplicate : run.duplicateOf = none)
    (hstatus : run.status ≠ .duplicateOrder)
    (howners : state'.orderOwners = (state.own text spec).orderOwners)
    (hruns : state'.runs = state.runs ++ [run])
    (hconsumed : state'.consumedCandidateEvaluations =
      (run.consumedCandidateEvaluations.map fun count =>
        state.consumedCandidateEvaluations.add count).getD state.consumedCandidateEvaluations)
    (hcomplete : state'.candidateEvaluationAccountingComplete =
      (state.candidateEvaluationAccountingComplete && decide (run.status ≠ .deadline))) :
    Recorded text input (specs ++ [spec]) (specRuns ++ [run]) state' where
  runs := by rw [hruns, h.runs, List.append_assoc]
  each := List.rel_append h.each (List.Forall₂.cons hrun .nil)
  owners := fun mode key => by rw [howners, h.own hfree hrun]
  duplicates := by
    refine h.duplicates.concat ?_ ?_
    · rw [hduplicate, ← h.owners, ← hrun.ownerKey_eq, hfree]
    · rw [hduplicate]
      exact ⟨fun heq => absurd heq hstatus, nofun⟩
  consumed := by rw [hconsumed, consumedByRuns_concat, h.consumed]
  complete := by
    rw [hcomplete, Bool.and_eq_true, h.complete, decide_eq_true_eq]
    constructor
    · rintro ⟨hbefore, hlast⟩ other hother
      rcases List.mem_append.1 hother with hmem | hmem
      · exact hbefore other hmem
      · rwa [List.mem_singleton.1 hmem]
    · intro hall
      exact ⟨fun other hmem => hall other (List.mem_append_left _ hmem),
        hall run (List.mem_append_right _ List.mem_cons_self)⟩

/-- The record with the run of a duplicate. -/
theorem Recorded.duplicate (h : Recorded text input specs specRuns state)
    (hledger : Ledger text input state) {owner : IntrinsicReconstructionRole}
    (howner : state.orderOwners (ownerKey text spec.candidateMode spec.pieces) = some owner) :
    Recorded text input (specs ++ [spec]) (specRuns ++ [duplicateOrderRun text spec owner])
      (state.pushRun (duplicateOrderRun text spec owner)) where
  runs := by
    show state.runs ++ [_] = _
    rw [h.runs, List.append_assoc]
  each := List.rel_append h.each (List.Forall₂.cons ⟨rfl, rfl, rfl, rfl, rfl⟩ .nil)
  owners := by
    intro mode key
    rw [ownerOf_concat, ← h.owners]
    show state.orderOwners (ownerText mode key) = _
    by_cases howns :
      (duplicateOrderRun text spec owner : IntrinsicReconstructionRun F).owns mode key = true
    · -- the order had an owner before
      obtain ⟨rfl, rfl⟩ := owns_iff.1 howns
      change state.orderOwners (ownerKey text spec.candidateMode spec.pieces) =
        (state.orderOwners (ownerKey text spec.candidateMode spec.pieces)).or _
      rw [howner]
      rfl
    · rw [Bool.eq_false_iff.2 howns]
      simp
  duplicates := by
    refine h.duplicates.concat ?_ (by exact ⟨fun _ => rfl, fun _ => rfl⟩)
    rw [← h.owners]
    exact howner.symm
  consumed := by
    rw [consumedByRuns_concat, ← h.consumed]
    exact (Number.add_zero_of_isCount hledger.counted).symm
  complete := by
    refine h.complete.trans ⟨fun hall other hother => ?_, fun hall other hmem =>
      hall other (List.mem_append_left _ hmem)⟩
    rcases List.mem_append.1 hother with hmem | hmem
    · exact hall other hmem
    · rw [List.mem_singleton.1 hmem]
      nofun

/-- **Every turn that does not fail records one run.** -/
theorem PortfolioTurn.recorded (hturn : PortfolioTurn text input spec state state' (.ok ()))
    (hledger : Ledger text input state) (h : Recorded text input specs specRuns state) :
    ∃ run, Recorded text input (specs ++ [spec]) (specRuns ++ [run]) state' := by
  cases hturn with
  | duplicate howner => exact ⟨_, h.duplicate hledger howner⟩
  | @undecoded control complete run hfree hrun hduplicate hconsumed hstatus =>
      refine ⟨run, h.concat hfree hrun hduplicate ?_ rfl rfl (by rw [hconsumed]; rfl) ?_⟩
      · rcases hstatus with ⟨hstatus, _⟩ | ⟨hstatus, _⟩ <;> rw [hstatus] <;> nofun
      · show complete = _
        rcases hstatus with ⟨hstatus, hcomplete⟩ | ⟨hstatus, hcomplete⟩
        · simp [hstatus, hcomplete]
        · simp [hstatus, hcomplete]
  | @deadline control call run hfree hcall hrun hduplicate hconsumed hstatus =>
      refine ⟨run, h.concat hfree hrun hduplicate ?_ rfl rfl (by rw [hconsumed]; rfl) ?_⟩
      · rw [hstatus]
        nofun
      · show false = _
        simp [hstatus]
  | @decoded control call count run hfree hcall hrun hduplicate hcount hconsumed hstatus =>
      refine ⟨run, h.concat hfree hrun hduplicate ?_ rfl rfl (by rw [hconsumed]; rfl) ?_⟩
      · rcases hstatus with hstatus | hstatus | hstatus <;> rw [hstatus] <;> nofun
      · show state.candidateEvaluationAccountingComplete = _
        rcases hstatus with hstatus | hstatus | hstatus <;> simp [hstatus]

theorem portfolioLoop_recorded (startedAt : F) : ∀ (remaining : List DecodeSpec)
    {specs : List DecodeSpec} {specRuns : List (IntrinsicReconstructionRun F)}
    {state : PortfolioState F}, Ledger text input state →
    Recorded text input specs specRuns state →
    (portfolioLoop text world input startedAt remaining state).2 = .ok () →
      ∃ specRuns', Recorded text input (specs ++ remaining) specRuns'
        (portfolioLoop text world input startedAt remaining state).1
  | [], specs, specRuns, state, _, h, _ => ⟨specRuns, by rwa [List.append_nil]⟩
  | spec :: remaining, specs, specRuns, state, hledger, h, hok => by
      have hturn := portfolioStep_turn text world input startedAt spec state
      unfold portfolioLoop at hok ⊢
      cases hstep : portfolioStep text world input startedAt spec state with
      | mk state' outcome =>
          rw [hstep] at hturn hok
          cases outcome with
          | error failure => cases hok
          | ok =>
              obtain ⟨run, hrecorded⟩ := hturn.recorded hledger h
              obtain ⟨specRuns', hfinal⟩ := portfolioLoop_recorded startedAt remaining
                (hturn.ledger hledger) hrecorded hok
              rw [List.append_assoc] at hfinal
              exact ⟨specRuns', hfinal⟩

end Record

/-! ## §8  The portfolio -/

section Portfolio

variable (text : Number → String) (world : PortfolioWorld F)
  (input : RunIntrinsicReconstructionPortfolioInput F)

theorem seedRuns_key : ∀ run ∈ baselineSeedRuns text input.baselineSeeds input.allPreparedPieces,
    run.effectiveOrderKey =
      intrinsicReconstructionEffectiveOrderKey text input.allPreparedPieces := by
  intro run hrun
  obtain ⟨seed, _, rfl⟩ := List.mem_map.1 hrun
  rfl

theorem isSome_ownerOf_of_mem {seedRuns specRuns : List (IntrinsicReconstructionRun F)}
    {run : IntrinsicReconstructionRun F} (h : run ∈ seedRuns) :
    (ownerOf seedRuns specRuns run.candidateMode run.effectiveOrderKey).isSome = true := by
  unfold ownerOf
  have hmem : run ∈ seedRuns.filter fun other =>
      other.owns run.candidateMode run.effectiveOrderKey :=
    List.mem_filter.2 ⟨h, owns_iff.2 ⟨rfl, rfl⟩⟩
  rw [List.getLast?_eq_some_getLast (List.ne_nil_of_mem hmem)]
  rfl

theorem portfolioStart_ledger : Ledger text input (portfolioStart text input) where
  once := List.nodup_nil
  owned := nofun
  apart := nofun
  seeds := by
    intro run hrun
    show (seedOwners text input _ _).isSome = true
    rw [seedOwners_eq text input (seedRuns_key text input)]
    exact isSome_ownerOf_of_mem hrun
  counted := Number.isCount_ofInt 0
  bounded := fun _ bound _ hbound _ => by
    show (Number.ofInt 0).le bound = true
    unfold Number.isCount at hbound
    exact (Bool.and_eq_true _ _ ▸ hbound).2
  requests := nofun

theorem portfolioStart_recorded : Recorded text input [] [] (portfolioStart text input) where
  runs := (List.append_nil _).symm
  each := .nil
  owners := seedOwners_eq text input (seedRuns_key text input)
  duplicates := by
    intro n run hrun
    rw [List.getElem?_nil] at hrun
    cases hrun
  consumed := by
    unfold consumedByRuns
    rw [List.filterMap_nil, List.foldl_nil]
    rfl
  complete := ⟨fun _ _ hrun => absurd hrun List.not_mem_nil, fun _ => rfl⟩

theorem portfolioStart_allPassed : AllPassed world (portfolioStart text input).control :=
  ⟨rfl, fun _ _ _ hcall => absurd hcall (Nat.not_lt_zero _)⟩

/-- The portfolio without an endpoint, with a failure of its loop, and with a result. -/
theorem runIntrinsicReconstructionPortfolio_cases :
    (∃ error, runIntrinsicReconstructionPortfolio text world input =
      (portfolioStart text input, .error (.portfolio error))) ∨
    ∃ endpoint, selectReconstructionEndpoint input.baselineSeeds = some endpoint ∧
      ∃ state,
        (∃ failure, portfolioLoop text world input (world.timingNow 0)
            (portfolioSpecs input endpoint) (portfolioStart text input) =
              (state, .error failure) ∧
          runIntrinsicReconstructionPortfolio text world input = (state, .error failure)) ∨
        (portfolioLoop text world input (world.timingNow 0)
            (portfolioSpecs input endpoint) (portfolioStart text input) = (state, .ok ()) ∧
          ∃ runtimeMs, runIntrinsicReconstructionPortfolio text world input =
            ((state.timingNow world).1,
              .ok (portfolioResult (state.timingNow world).1 runtimeMs))) := by
  unfold runIntrinsicReconstructionPortfolio
  dsimp only
  cases selectReconstructionEndpoint input.baselineSeeds with
  | none => exact .inl ⟨_, rfl⟩
  | some endpoint =>
      refine .inr ⟨endpoint, rfl, ?_⟩
      dsimp only
      cases portfolioLoop text world input (world.timingNow 0)
        (portfolioSpecs input endpoint) (portfolioStart text input) with
      | mk state outcome =>
          cases outcome with
          | error failure => exact ⟨state, .inl ⟨failure, rfl, rfl⟩⟩
          | ok => exact ⟨state, .inr ⟨rfl, _, rfl⟩⟩

/-- The ledger holds however the portfolio ends. -/
theorem runIntrinsicReconstructionPortfolio_ledger :
    Ledger text input (runIntrinsicReconstructionPortfolio text world input).1 := by
  have hstart := portfolioStart_ledger text input
  rcases runIntrinsicReconstructionPortfolio_cases text world input with
    ⟨_, hrun⟩ | ⟨endpoint, _, state, ⟨failure, hloop, hrun⟩ | ⟨hloop, _, hrun⟩⟩
  · rw [hrun]
    exact hstart
  · have hledger := portfolioLoop_ledger world (world.timingNow 0) (portfolioSpecs input endpoint) hstart
    rw [hloop] at hledger
    rw [hrun]
    exact hledger
  · have hledger := portfolioLoop_ledger world (world.timingNow 0) (portfolioSpecs input endpoint) hstart
    rw [hloop] at hledger
    rw [hrun]
    exact hledger.congr rfl rfl rfl

/-- **An abort reaches the caller exactly when the caller's control gave it.** -/
theorem runIntrinsicReconstructionPortfolio_aborts (abort : NfpIfpControlAbortError) :
    (runIntrinsicReconstructionPortfolio text world input).2 = .error (.strict (.abort abort)) ↔
      ∃ answer, world.control = some answer ∧
        ∃ call < (runIntrinsicReconstructionPortfolio text world input).1.control.checkpoints,
          answer call = .error abort := by
  have htruly : AbortsTruly world (runIntrinsicReconstructionPortfolio text world input).1.control
      (runIntrinsicReconstructionPortfolio text world input).2 := by
    have hstart := portfolioStart_allPassed text world input
    rcases runIntrinsicReconstructionPortfolio_cases text world input with
      ⟨error, hrun⟩ | ⟨endpoint, _, state, ⟨failure, hloop, hrun⟩ | ⟨hloop, _, hrun⟩⟩
    · rw [hrun]
      exact .inl ⟨hstart, nofun⟩
    · have h := portfolioLoop_aborts world text input (world.timingNow 0)
        (portfolioSpecs input endpoint) hstart
      rw [hloop] at h
      rw [hrun]
      rcases h with ⟨hpassed, hno⟩ | ⟨abort, herror, haborted⟩
      · exact .inl ⟨hpassed, fun abort heq => hno abort (by cases heq; rfl)⟩
      · exact .inr ⟨abort, by cases herror; rfl, haborted⟩
    · have h := portfolioLoop_aborts world text input (world.timingNow 0)
        (portfolioSpecs input endpoint) hstart
      rw [hloop] at h
      rw [hrun]
      rcases h with ⟨hpassed, _⟩ | ⟨abort, herror, _⟩
      · exact .inl ⟨hpassed, nofun⟩
      · cases herror
  rcases htruly with ⟨hpassed, hno⟩ | ⟨abort', houtcome, haborted⟩
  · refine ⟨fun heq => absurd heq (hno abort), ?_⟩
    rintro ⟨answer, hanswer, call, hcall, habort⟩
    rw [hpassed.2 answer hanswer call hcall] at habort
    cases habort
  · constructor
    · intro heq
      rw [houtcome] at heq
      cases heq
      obtain ⟨_, answer, last, hanswer, hcount, hlast, _⟩ := haborted
      exact ⟨answer, hanswer, last, by omega, hlast⟩
    · rintro ⟨answer, hanswer, call, hcall, habort⟩
      rw [houtcome, haborted.eq_of_answer world hanswer hcall habort]

/-- **The law of the reconstruction portfolio.** However it ends, no order is decoded twice under
one mode nor one that a seed has; what is consumed stays within every whole bound of the maximum,
and no request exceeds what remains; and an abort is the caller's own.  A portfolio that succeeds
has one run for every order, names the owner of every repeat (the last seed that has the order, or
else the first run), adds up its runs, and keeps an archive of at most eight entries of different
hashes, the leader of the front first. -/
theorem runIntrinsicReconstructionPortfolio_law :
    (((runIntrinsicReconstructionPortfolio text world input).1.decodes.map
        fun call => call.order text).Nodup ∧
      ∀ call ∈ (runIntrinsicReconstructionPortfolio text world input).1.decodes,
        ∀ run ∈ baselineSeedRuns text input.baselineSeeds input.allPreparedPieces,
          (run.candidateMode, run.effectiveOrderKey) ≠ call.order text) ∧
    (∀ maximum bound, input.maximumTotalCandidateEvaluations = some maximum →
      bound.isCount = true → maximum.le bound = true →
        (runIntrinsicReconstructionPortfolio text world
          input).1.consumedCandidateEvaluations.le bound = true) ∧
    (∀ call ∈ (runIntrinsicReconstructionPortfolio text world input).1.decodes,
      RequestsWithin input call) ∧
    (∀ abort,
      (runIntrinsicReconstructionPortfolio text world input).2 =
          .error (.strict (.abort abort)) ↔
        ∃ answer, world.control = some answer ∧
          ∃ call < (runIntrinsicReconstructionPortfolio text world input).1.control.checkpoints,
            answer call = .error abort) ∧
    ∀ result, (runIntrinsicReconstructionPortfolio text world input).2 = .ok result →
      (∃ endpoint specRuns, selectReconstructionEndpoint input.baselineSeeds = some endpoint ∧
        result.runs = baselineSeedRuns text input.baselineSeeds input.allPreparedPieces ++
          specRuns ∧
        List.Forall₂ (IsRunOf text) (portfolioSpecs input endpoint) specRuns ∧
        RecordsDuplicates (baselineSeedRuns text input.baselineSeeds input.allPreparedPieces)
          specRuns ∧
        result.consumedCandidateEvaluations = consumedByRuns specRuns ∧
        (result.candidateEvaluationAccountingComplete = true ↔
          ∀ run ∈ specRuns, run.status ≠ .deadline)) ∧
      (result.archive.length : ℤ) ≤ intrinsicReconstructionArchiveCapacity ∧
      (result.archive.map fun entry => entry.hash).Nodup ∧
      (∀ leader, (completedFront result.runs).head? = some leader →
        result.archive.head?.map (fun entry => entry.metrics) = some leader) ∧
      result.winner = result.archive.head? := by
  have hledger := runIntrinsicReconstructionPortfolio_ledger text world input
  refine ⟨⟨hledger.once, hledger.apart⟩, hledger.bounded, hledger.requests,
    runIntrinsicReconstructionPortfolio_aborts text world input, fun result hresult => ?_⟩
  rcases runIntrinsicReconstructionPortfolio_cases text world input with
    ⟨error, hrun⟩ | ⟨endpoint, hendpoint, state, ⟨failure, _, hrun⟩ | ⟨hloop, runtimeMs, hrun⟩⟩
  · rw [hrun] at hresult
    cases hresult
  · rw [hrun] at hresult
    cases hresult
  · rw [hrun] at hresult
    obtain rfl := Except.ok.inj hresult
    obtain ⟨specRuns, hrecorded⟩ := portfolioLoop_recorded world (world.timingNow 0)
      (portfolioSpecs input endpoint) (portfolioStart_ledger text input)
      (portfolioStart_recorded text input) (by rw [hloop])
    rw [hloop] at hrecorded
    have hcapacity : 0 < intrinsicReconstructionArchiveCapacity := by decide
    obtain ⟨hlength, hnodup, hleader⟩ := retainIntrinsicReconstructionArchive_spec state.runs
      intrinsicReconstructionArchiveCapacity
    exact ⟨⟨endpoint, specRuns, hendpoint, hrecorded.runs, hrecorded.each, hrecorded.duplicates,
      hrecorded.consumed, hrecorded.complete⟩, hlength.trans_eq (max_eq_left hcapacity.le), hnodup,
      hleader hcapacity, rfl⟩

end Portfolio

/-! ## §9  Two portfolios of one piece -/

section Lone

def plainMetrics : IntrinsicStrictCompletedMetrics ℚ where
  envelopeMaximumSideMm := 2
  envelopeAreaMm2 := 2
  envelopeSpanMm := 3
  enclosedCavityCount := 0
  totalEnclosedCavityAreaMm2 := 0
  largestOccupiedHullGapRatio := 0
  isolatedPieceCount := 1
  positiveContactComponentCount := 1
  largestPositiveContactComponentSize := 1
  largestPositiveContactComponentRatio := 1
  occupiedAreaOutsideLargestContactComponentMm2 := 0
  occupiedHullWasteRatio := 0
  totalStructuralContacts := 0
  dominantStructuralContacts := 0
  contactUnits := 0
  sharedBoundaryLengthMm := 0
  canonicalGeometryHash := "triangle"
  runtimeMs := 0
  exact := none

def portfolioPiece : MirrorablePiece :=
  ringPiece [millimetres 0 0, millimetres 2 0, millimetres 0 1] (millimetres 0 0) [unturned]

/-- A seed whose layout is the piece alone. -/
def loneSeed (role : IntrinsicReconstructionSeedRole) : IntrinsicReconstructionSeed ℚ where
  role := role
  canonicalGeometryHash := "triangle"
  placedCollisionGeometries := []
  stepTrace := []
  metrics := plainMetrics

def loneState : DecodedState ℚ := ⟨[], [], fun _ => none⟩

/-- A clock that stands, no control, and decodes that score one candidate. -/
def stillWorld : PortfolioWorld ℚ where
  timingNow := fun _ => 0
  control := none
  decoder := fun _ _ => .score 1 loneState (.finish loneState)
  display := fun _ => ""

def loneInput (roles : List IntrinsicReconstructionSeedRole) (maximum : Option Number) :
    RunIntrinsicReconstructionPortfolioInput ℚ where
  allPreparedPieces := [portfolioPiece]
  baselineSeeds := roles.map loneSeed
  maximumRuntimeMsPerDecode := none
  maximumTotalRuntimeMs := none
  roleFamily := some .endpointQ90RightToLeft
  maximumCandidateEvaluationsPerDecode := none
  maximumTotalCandidateEvaluations := maximum

def loneSpec : DecodeSpec :=
  ⟨.endpointQ90RightToLeft, some "triangle", .comparator .pureGrowth, [portfolioPiece]⟩

theorem portfolioSpecs_lone (roles : List IntrinsicReconstructionSeedRole) (maximum : Option Number)
    (role : IntrinsicReconstructionSeedRole) :
    portfolioSpecs (loneInput roles maximum) (loneSeed role) = [loneSpec] := by
  unfold portfolioSpecs buildIntrinsicReconstructionSpecs buildCanonicalEndpointOrders
  dsimp only [loneInput, loneSeed]
  simp only [List.mergeSort_singleton]
  rfl


theorem selectReconstructionEndpoint_lone (role : IntrinsicReconstructionSeedRole)
    {roles : List IntrinsicReconstructionSeedRole} {maximum : Option Number}
    (hrank : (rankIntrinsicStrictCompletedLayouts
      (((role :: roles).map loneSeed).map fun seed => seed.metrics)).head? = some plainMetrics) :
    selectReconstructionEndpoint (loneInput (role :: roles) maximum).baselineSeeds =
      some (loneSeed role) := by
  unfold selectReconstructionEndpoint
  change (rankIntrinsicStrictCompletedLayouts
    (((role :: roles).map loneSeed).map fun seed => seed.metrics)).head?.bind _ = _
  rw [hrank]
  rfl

/-- The owner of the order of the piece before the loop. -/
theorem portfolioStart_lone (roles : List IntrinsicReconstructionSeedRole)
    (maximum : Option Number) :
    (portfolioStart numberText (loneInput roles maximum)).orderOwners
        (ownerKey numberText loneSpec.candidateMode loneSpec.pieces) =
      ownerOf (baselineSeedRuns numberText (loneInput roles maximum).baselineSeeds [portfolioPiece])
        [] loneSpec.candidateMode
        (intrinsicReconstructionEffectiveOrderKey numberText [portfolioPiece]) :=
  seedOwners_eq numberText _ (seedRuns_key numberText _) _ _

/-- The order of a settled endpoint is a duplicate of it, although a seed before it has the same
mode and order; and under a maximum of one half one evaluation is consumed. -/
theorem runIntrinsicReconstructionPortfolio_apart :
    (∃ result, (runIntrinsicReconstructionPortfolio numberText stillWorld
        (loneInput [.canonicalGrid, .settledProtected] none)).2 = .ok result ∧
      result.runs.map (fun run => (run.role, run.candidateMode, run.duplicateOf)) =
        [(.canonicalGrid, .comparator .pureGrowth, none),
          (.settledProtected, .comparator .pureGrowth, none),
          (.endpointQ90RightToLeft, .comparator .pureGrowth, some .settledProtected)]) ∧
    (runIntrinsicReconstructionPortfolio numberText stillWorld
      (loneInput [.legacyAbsoluteEnvelope]
        (some (Binary64.round (1 / 2))))).1.consumedCandidateEvaluations.le
          (Binary64.round (1 / 2)) = false := by
  constructor
  · have howner : (portfolioStart numberText
        (loneInput [.canonicalGrid, .settledProtected] none)).orderOwners
          (ownerKey numberText loneSpec.candidateMode loneSpec.pieces) =
            some .settledProtected := by
      rw [portfolioStart_lone]
      unfold ownerOf IntrinsicReconstructionRun.owns
      simp [loneInput, loneSpec, baselineSeedRuns, loneSeed, seedCandidateMode,
        IntrinsicReconstructionSeedRole.toRole]
    unfold runIntrinsicReconstructionPortfolio
    dsimp only
    rw [selectReconstructionEndpoint_lone .canonicalGrid (by decide +kernel)]
    dsimp only
    rw [portfolioSpecs_lone]
    unfold portfolioLoop portfolioStep
    dsimp only
    rw [howner]
    exact ⟨_, rfl, rfl⟩
  · have hfree : (portfolioStart numberText
        (loneInput [.legacyAbsoluteEnvelope] (some (Binary64.round (1 / 2))))).orderOwners
          (ownerKey numberText loneSpec.candidateMode loneSpec.pieces) = none := by
      rw [portfolioStart_lone]
      unfold ownerOf IntrinsicReconstructionRun.owns
      simp [loneInput, loneSpec, baselineSeedRuns, loneSeed, seedCandidateMode]
    unfold runIntrinsicReconstructionPortfolio
    dsimp only
    rw [selectReconstructionEndpoint_lone .legacyAbsoluteEnvelope (by decide +kernel)]
    dsimp only
    rw [portfolioSpecs_lone]
    unfold portfolioLoop portfolioStep
    dsimp only
    rw [hfree]
    decide +kernel

end Lone

end PolygonNesting
