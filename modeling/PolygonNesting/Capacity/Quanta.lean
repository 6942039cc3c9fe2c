import PolygonNesting.Capacity.Resume
import PolygonNesting.Search.BeamStateExact

set_option linter.unusedSectionVars false

/-!
# A lane in quanta

A cold search that is split at depth boundaries, any number of times, each call
resumed from the checkpoint of the call before; against one call that never
pauses.  Endpoints, counters, ledgers and no-skip witness agree always.  The
settlement agrees except in the case named by `QuotaForgotten`.
-/

namespace PolygonNesting

open ResumableLoop

variable {F : Type} [LinearOrder F] [Zero F] [One F] [Add F] [Sub F] [Neg F]
  [Mul F] [Div F] [JsMath F] {heap : ℕ → IrregularPlacedPiece F}

/-! ## §1  Calls -/

/-- The depth of a fresh lane. -/
def ColdSearchInput.initialDepth (input : ColdSearchInput heap) : ℕ :=
  match input.warmPrefixSeed with
  | none => 0
  | some seed => seed.depth

namespace SearchCall

def startDepth (call : SearchCall heap) (input : ColdSearchInput heap) : ℕ :=
  match call.checkpoint with
  | none => input.initialDepth
  | some checkpoint => checkpoint.nextDepth

/-- The loop of a call once its lane has started. -/
def startLoop (call : SearchCall heap) (start : LaneStart heap)
    (cache : IntrinsicCapacityCavityCache F) : SearchLoop heap :=
  match call.checkpoint with
  | none => freshLoop start cache
  | some checkpoint => restoreLoop checkpoint cache

end SearchCall

theorem makeSearchContext_ok {subsystems : SearchSubsystems heap}
    {input : ColdSearchInput heap} {context : SearchContext heap}
    (h : makeSearchContext subsystems input = .ok context) :
    context.subsystems = subsystems ∧ context.input = input ∧
      suffixMaterialSums input.materialAreasByPieceId input.preparedIds =
        some context.suffixMaterial := by
  unfold makeSearchContext at h
  split at h
  · split at h
    · cases h
    · next hsums =>
      cases h
      exact ⟨rfl, rfl, hsums⟩
  · cases h

theorem LaneStarts.initialDepth {context : SearchContext heap} {start : LaneStart heap}
    {cache cache' : IntrinsicCapacityCavityCache F}
    (h : LaneStarts context cache start cache') :
    start.initialDepth = context.input.initialDepth := by
  unfold ColdSearchInput.initialDepth
  cases h with
  | cold gridSpan hseed hspan => rw [hseed]
  | warm seed key gridSpan cavities cache' hseed => rw [hseed]

/-- **A call that succeeds**: its preamble succeeds, a checkpoint it resumes is
accepted, and its loop runs from where the call starts. -/
theorem SearchCall.run_ok {call : SearchCall heap} {subsystems : SearchSubsystems heap}
    {identities : CheckpointIdentities heap} {input : ColdSearchInput heap}
    {cache : IntrinsicCapacityCavityCache F} {ended : CallOutcome heap}
    (h : call.run subsystems identities input cache = .ok ended) :
    ∃ start cache', makeSearchContext subsystems input = .ok ended.context ∧
      laneStart ended.context cache = (.ok start, cache') ∧
      (∀ checkpoint ∈ call.checkpoint, validateIntrinsicCapacityCheckpoint identities
        ended.context (call.requestFingerprint identities input) input.producerRole
        checkpoint = none) ∧
      ended.context.searchDepths call.checkpointEnabled call.maximumDepthBoundaries
        (input.depthsFrom (call.startDepth input)) 0 (call.startLoop start cache') =
          .ok ended.outcome := by
  unfold SearchCall.run at h
  obtain ⟨context, hcontext, h⟩ := except_bind_eq_ok h
  obtain ⟨outcome, houtcome, h⟩ := except_bind_eq_ok h
  cases h
  obtain ⟨rfl, rfl, -⟩ := makeSearchContext_ok hcontext
  unfold SearchCall.runDepths at houtcome
  split at houtcome
  · cases houtcome
  · next start cache' hstart =>
    refine ⟨start, cache', hcontext, hstart, ?_⟩
    have hdepth := (laneStart_ok hstart).initialDepth
    split at houtcome
    · cases houtcome
    · unfold SearchCall.startDepth SearchCall.startLoop
      split at houtcome
      · next hnone =>
        rw [hnone]
        refine ⟨fun _ hmem => absurd hmem (Option.not_mem_none _), ?_⟩
        rw [hdepth] at houtcome
        exact houtcome
      · next checkpoint hsome =>
        rw [hsome]
        split at houtcome
        · cases houtcome
        · next hvalid =>
          refine ⟨?_, houtcome⟩
          intro other hother
          obtain rfl := Option.some.inj hother
          exact hvalid

/-- A fresh call with a valid limit runs its loop. -/
theorem SearchCall.run_of_fresh {subsystems : SearchSubsystems heap}
    (identities : CheckpointIdentities heap) {limit : Option ℕ}
    {context : SearchContext heap} {start : LaneStart heap}
    {cache cache' : IntrinsicCapacityCavityCache F} {outcome : LoopOutcome heap}
    (hcontext : makeSearchContext subsystems context.input = .ok context)
    (hstart : laneStart context cache = (.ok start, cache'))
    (hlimit : ∀ maximum ∈ limit, 0 < maximum ∧ isSafeCount maximum = true)
    (hloop : context.searchDepths limit.isSome limit
      (context.input.depthsFrom context.input.initialDepth) 0 (freshLoop start cache') =
        .ok outcome) :
    (SearchCall.mk none limit).run subsystems identities context.input cache =
      .ok ⟨context, outcome⟩ := by
  have hvalid : ¬(limit.any fun maximum => !isSafeCount maximum || maximum == 0) =
      true := by
    cases limit with
    | none => exact Bool.false_ne_true
    | some maximum =>
        obtain ⟨hpositive, hsafe⟩ := hlimit maximum rfl
        rw [Option.any_some, hsafe, Bool.not_true, Bool.false_or, beq_iff_eq]
        omega
  have hdepths : (SearchCall.mk none limit).runDepths identities context cache =
      .ok outcome := by
    unfold SearchCall.runDepths
    rw [hstart]
    dsimp only
    rw [if_neg hvalid, (laneStart_ok hstart).initialDepth]
    exact hloop
  unfold SearchCall.run
  rw [hcontext]
  show Except.bind ((SearchCall.mk none limit).runDepths identities context cache) _ = _
  rw [hdepths]
  rfl

/-! ## §2  What is restored -/

/-- The checkpoint of a pause, trusted by the caller or not. -/
def IsEmitted (call : SearchCall heap) (identities : CheckpointIdentities heap)
    (context : SearchContext heap) (nextDepth : ℕ) (loop : SearchLoop heap)
    (checkpoint : IntrinsicAnytimeCheckpoint heap) : Prop :=
  checkpoint = call.makeCheckpoint identities context nextDepth loop ∨
    checkpoint = { call.makeCheckpoint identities context nextDepth loop with
      trustedInternal := true }

theorem makeCheckpoint_fields (call : SearchCall heap)
    (identities : CheckpointIdentities heap) (context : SearchContext heap)
    (nextDepth : ℕ) (loop : SearchLoop heap) :
    let checkpoint := call.makeCheckpoint identities context nextDepth loop
    checkpoint.frontier =
        loop.progress.beam.map (makeDecisionState identities context nextDepth) ∧
      checkpoint.nextDepth = nextDepth ∧
      checkpoint.counters = loop.progress.counters ∧
      checkpoint.budgetLedgers.totalConsumedPlacementEvaluations =
        loop.progress.consumedPlacementEvaluations ∧
      checkpoint.budgetLedgers.perDepth = loop.accounts.perDepthBudgetLedgers ∧
      checkpoint.noSkipFrontier = loop.accounts.noSkipFrontier := by
  unfold SearchCall.makeCheckpoint makeIntrinsicCapacityCheckpoint
  dsimp only
  cases call.trustedChain <;> exact ⟨rfl, rfl, rfl, rfl, rfl, rfl⟩

/-- **A checkpoint restores the loop** it was made from, over the given cache,
with the settlement back at its start. -/
theorem IsEmitted.restore {call : SearchCall heap}
    {identities : CheckpointIdentities heap} {context : SearchContext heap}
    {nextDepth : ℕ} {loop : SearchLoop heap}
    {checkpoint : IntrinsicAnytimeCheckpoint heap}
    (h : IsEmitted call identities context nextDepth loop checkpoint)
    (cache : IntrinsicCapacityCavityCache F) :
    checkpoint.nextDepth = nextDepth ∧
      restoreLoop checkpoint cache =
        ⟨{ loop.progress with cavityCache := cache },
          { loop.accounts with settlement := .exhausted }⟩ := by
  obtain ⟨hfrontier, hdepth, hcounters, hconsumed, hledgers, hnoSkip⟩ :=
    makeCheckpoint_fields call identities context nextDepth loop
  have hbeam : (loop.progress.beam.map
      (makeDecisionState identities context nextDepth)).map restoreEntry =
      loop.progress.beam := by
    rw [List.map_map]
    exact List.map_id _
  have hrestore : restoreLoop (call.makeCheckpoint identities context nextDepth loop)
      cache = ⟨{ loop.progress with cavityCache := cache },
        { loop.accounts with settlement := .exhausted }⟩ := by
    unfold restoreLoop
    rw [hfrontier, hcounters, hconsumed, hledgers, hnoSkip, hbeam]
  rcases h with rfl | rfl
  · exact ⟨hdepth, hrestore⟩
  · exact ⟨hdepth, hrestore⟩

/-- The depth of a pause, and the inputs left at it. -/
theorem depthsFrom_split {input : ColdSearchInput heap} {startDepth : ℕ}
    {done rest : List (IrregularPreparedPiece F × ℕ)}
    {last : IrregularPreparedPiece F × ℕ}
    (h : input.depthsFrom startDepth = done ++ last :: rest) :
    last.2 = startDepth + done.length ∧ rest = input.depthsFrom (last.2 + 1) := by
  induction done generalizing startDepth with
  | nil =>
      obtain ⟨hdepth, hrest, -⟩ := depthsFrom_cons h.symm
      exact ⟨hdepth, by rw [hrest, hdepth]⟩
  | cons input' done ih =>
      obtain ⟨hdepth, hrest, -⟩ := depthsFrom_cons h.symm
      obtain ⟨hlast, hleft⟩ := ih hrest.symm
      rw [List.length_cons]
      exact ⟨by omega, hleft⟩

/-! ## §3  Settlement -/

theorem CavityCachesAgree.collectEndpoint {subsystems : SearchSubsystems heap}
    (input : ColdSearchInput heap) (role : IntrinsicAnytimeProducerRole)
    {first second : EndpointCollection heap} (state : CapacityState heap)
    (hhash : first.byHash = second.byHash) (hrejections : first.rejections =
      second.rejections)
    (hcache : CavityCachesAgree subsystems.toLayoutAuthority first.cavityCache
      second.cavityCache) :
    (collectEndpoint subsystems input role first state).byHash =
        (collectEndpoint subsystems input role second state).byHash ∧
      (collectEndpoint subsystems input role first state).rejections =
        (collectEndpoint subsystems input role second state).rejections ∧
      CavityCachesAgree subsystems.toLayoutAuthority
        (collectEndpoint subsystems input role first state).cavityCache
        (collectEndpoint subsystems input role second state).cavityCache := by
  have hmaterialize : (materializeIntrinsicCapacityEndpoint subsystems.toLayoutAuthority
        (endpointInput input role state) first.cavityCache).1 =
      (materializeIntrinsicCapacityEndpoint subsystems.toLayoutAuthority
        (endpointInput input role state) second.cavityCache).1 ∧
      CavityCachesAgree subsystems.toLayoutAuthority
        (materializeIntrinsicCapacityEndpoint subsystems.toLayoutAuthority
          (endpointInput input role state) first.cavityCache).2
        (materializeIntrinsicCapacityEndpoint subsystems.toLayoutAuthority
          (endpointInput input role state) second.cavityCache).2 := by
    unfold materializeIntrinsicCapacityEndpoint
    dsimp only
    split
    · exact ⟨rfl, hcache⟩
    · obtain ⟨hresult, hcaches⟩ := hcache.measureState
        (endpointInput input role state).state
      rcases hfirst : measureIntrinsicCapacityCavities subsystems.toLayoutAuthority
        (endpointInput input role state).state first.cavityCache with ⟨result, first'⟩
      rcases hsecond : measureIntrinsicCapacityCavities subsystems.toLayoutAuthority
        (endpointInput input role state).state second.cavityCache with ⟨result', second'⟩
      rw [hfirst, hsecond] at hresult hcaches
      obtain rfl : result = result' := hresult
      cases result with
      | none => exact ⟨rfl, hcaches⟩
      | some cavities => exact ⟨rfl, hcaches⟩
  obtain ⟨hresult, hcaches⟩ := hmaterialize
  unfold PolygonNesting.collectEndpoint
  rcases hfirst : materializeIntrinsicCapacityEndpoint subsystems.toLayoutAuthority
    (endpointInput input role state) first.cavityCache with ⟨result, first'⟩
  rcases hsecond : materializeIntrinsicCapacityEndpoint subsystems.toLayoutAuthority
    (endpointInput input role state) second.cavityCache with ⟨result', second'⟩
  rw [hfirst, hsecond] at hresult hcaches
  obtain rfl : result = result' := hresult
  cases result with
  | none => exact ⟨hhash, congrArg (· + 1) hrejections, hcaches⟩
  | some endpoint =>
      exact ⟨congrArg (insertEndpointByHash subsystems.toLayoutAuthority · endpoint)
        hhash, hrejections, hcaches⟩

theorem CavityCachesAgree.collectEndpoints {subsystems : SearchSubsystems heap}
    (input : ColdSearchInput heap) (role : IntrinsicAnytimeProducerRole)
    (states : List (CapacityState heap)) :
    ∀ first second : EndpointCollection heap, first.byHash = second.byHash →
      first.rejections = second.rejections →
      CavityCachesAgree subsystems.toLayoutAuthority first.cavityCache
        second.cavityCache →
        (states.foldl (PolygonNesting.collectEndpoint subsystems input role)
            first).byHash =
          (states.foldl (PolygonNesting.collectEndpoint subsystems input role)
            second).byHash ∧
        (states.foldl (PolygonNesting.collectEndpoint subsystems input role)
            first).rejections =
          (states.foldl (PolygonNesting.collectEndpoint subsystems input role)
            second).rejections := by
  induction states with
  | nil =>
      intro first second hhash hrejections _
      exact ⟨hhash, hrejections⟩
  | cons state states ih =>
      intro first second hhash hrejections hcache
      obtain ⟨hhash', hrejections', hcache'⟩ :=
        CavityCachesAgree.collectEndpoint input role state hhash hrejections hcache
      exact ih _ _ hhash' hrejections' hcache'

/-- **Alike progresses settle alike.** -/
theorem SearchProgress.Alike.settle {context : SearchContext heap}
    {progress other : SearchProgress heap}
    (h : progress.Alike context.subsystems.toLayoutAuthority other)
    (accounts : SearchAccounts) :
    (context.settle ⟨progress, accounts⟩).1 = (context.settle ⟨other, accounts⟩).1 := by
  obtain ⟨hhash, hrejections⟩ := CavityCachesAgree.collectEndpoints context.input
    context.input.producerRole (other.beam.map fun entry => entry.state) ⟨∅, 0, progress.cavityCache⟩
    ⟨∅, 0, other.cavityCache⟩ rfl rfl h.cache
  unfold SearchContext.settle PolygonNesting.collectEndpoints
  dsimp only
  rw [h.beam, h.counters, h.consumed, hhash, hrejections]

/-! ## §4  Lanes in quanta -/

/-- What a lane is compared by, once it has settled: the result of its last
call, and the accounts behind it where checkpoints were enabled. -/
structure SettledLane (heap : ℕ → IrregularPlacedPiece F) where
  startDepth : ℕ
  recorded : Bool
  accounts : SearchAccounts
  result : IntrinsicCapacitySearchResult heap

/-- The settled lane of a call whose loop has finished. -/
def SearchCall.settledLane (call : SearchCall heap) (context : SearchContext heap)
    (loop : SearchLoop heap) : SettledLane heap where
  startDepth := call.startDepth context.input
  recorded := call.checkpointEnabled
  accounts := loop.accounts
  result := (context.settle loop).1

/-- A lane that settles after any number of pauses.  Every resumed call has the
checkpoint of the call before, any limit, and a cache that no state tells apart
from the one that was given back. -/
inductive SettlesInQuanta (subsystems : SearchSubsystems heap)
    (identities : CheckpointIdentities heap) (input : ColdSearchInput heap) :
    SearchCall heap → IntrinsicCapacityCavityCache F → SettledLane heap → Prop
  | settled {call : SearchCall heap} {cache : IntrinsicCapacityCavityCache F}
      {ended : CallOutcome heap} {loop : SearchLoop heap}
      (hrun : call.run subsystems identities input cache = .ok ended)
      (hended : ended.outcome = .finished loop) :
      SettlesInQuanta subsystems identities input call cache
        (call.settledLane ended.context loop)
  | resumed {call : SearchCall heap} {cache cache' : IntrinsicCapacityCavityCache F}
      {ended : CallOutcome heap} {nextDepth : ℕ} {loop : SearchLoop heap}
      {checkpoint : IntrinsicAnytimeCheckpoint heap} {limit : Option ℕ}
      {settled : SettledLane heap}
      (hrun : call.run subsystems identities input cache = .ok ended)
      (hended : ended.outcome = .paused nextDepth loop)
      (hcheckpoint : IsEmitted call identities ended.context nextDepth loop checkpoint)
      (hcache : CavityCachesAgree subsystems.toLayoutAuthority
        loop.progress.cavityCache cache')
      (hrest : SettlesInQuanta subsystems identities input ⟨some checkpoint, limit⟩
        cache' settled) :
      SettlesInQuanta subsystems identities input call cache settled

theorem SettlesInQuanta.starts {subsystems : SearchSubsystems heap}
    {identities : CheckpointIdentities heap} {input : ColdSearchInput heap}
    {call : SearchCall heap} {cache : IntrinsicCapacityCavityCache F}
    {settled : SettledLane heap}
    (h : SettlesInQuanta subsystems identities input call cache settled) :
    ∃ context start cache', makeSearchContext subsystems input = .ok context ∧
      laneStart context cache = (.ok start, cache') := by
  cases h with
  | settled hrun hended =>
      obtain ⟨start, cache', hcontext, hstart, -⟩ := SearchCall.run_ok hrun
      exact ⟨_, start, cache', hcontext, hstart⟩
  | resumed hrun hended hcheckpoint hcache hrest =>
      obtain ⟨start, cache', hcontext, hstart, -⟩ := SearchCall.run_ok hrun
      exact ⟨_, start, cache', hcontext, hstart⟩

/-- Some depth of the reports exhausted its quota. -/
def anyExhausted (reports : List DepthReport) : Bool :=
  reports.any fun report => report.1.quotaExhausted

theorem startLoop_settlement (call : SearchCall heap) (start : LaneStart heap)
    (cache : IntrinsicCapacityCavityCache F) :
    (call.startLoop start cache).accounts.settlement = .exhausted := by
  unfold SearchCall.startLoop
  split <;> rfl

theorem depthsFrom_inj {input : ColdSearchInput heap} {first second : ℕ}
    (h : input.depthsFrom first = input.depthsFrom second)
    (hfirst : first < input.preparedPieces.length) : first = second := by
  have := congrArg List.length h
  unfold ColdSearchInput.depthsFrom at this
  rw [List.length_drop, List.length_drop, List.length_zipIdx] at this
  omega

/-- **A call that pauses.**  Its loop is a first part of the loop that never
pauses, its reports are recorded, and what it leaves is ready for the next
depth. -/
theorem SearchCall.run_paused {subsystems : SearchSubsystems heap}
    {identities : CheckpointIdentities heap} {input : ColdSearchInput heap}
    {call : SearchCall heap} {cache cache' : IntrinsicCapacityCavityCache F}
    {ended : CallOutcome heap} {nextDepth : ℕ} {loop : SearchLoop heap}
    {start : LaneStart heap}
    (hrun : call.run subsystems identities input cache = .ok ended)
    (hended : ended.outcome = .paused nextDepth loop)
    (hstart : laneStart ended.context cache = (.ok start, cache'))
    (hdepth : (call.startLoop start cache').progress.AtDepth (call.startDepth input))
    (hwarm : WarmKnown input (call.startLoop start cache').progress.cavityCache) :
    ∃ reports,
      ResumableLoop.run ended.context.depthStep SearchProgress.spent
          (input.depthsFrom (call.startDepth input))
          (call.startLoop start cache').progress =
        (ResumableLoop.run ended.context.depthStep SearchProgress.spent
          (input.depthsFrom nextDepth) loop.progress).map (fun last => (last.1, reports ++ last.2)) ∧
      call.startDepth input + reports.length = nextDepth ∧
      nextDepth < input.preparedPieces.length ∧
      loop.progress.AtDepth nextDepth ∧
      WarmKnown input loop.progress.cavityCache ∧
      call.checkpointEnabled = true ∧ loop.progress.beam ≠ [] ∧
      loop.accounts =
        (call.startLoop start cache').accounts.recordReports true reports := by
  obtain ⟨start₁, cache₁, hcontext, hstart₁, -, hloop⟩ := SearchCall.run_ok hrun
  obtain ⟨hstart₂, rfl⟩ := Prod.mk.inj (hstart₁.symm.trans hstart)
  cases hstart₂
  obtain ⟨rfl, rfl, -⟩ := makeSearchContext_ok hcontext
  rw [SearchContext.searchDepths_eq] at hloop
  obtain ⟨end', hend', houtcome⟩ := map_eq_ok hloop
  rw [hended] at houtcome
  cases end' with
  | finished progress reports => cases houtcome
  | paused last rest progress reports =>
      cases houtcome
      obtain ⟨hpaused, done, hinputs, hlength, hpause, hspent⟩ := run_of_paused hend'
      obtain ⟨hlast, rfl⟩ := depthsFrom_split hinputs
      obtain ⟨hlimit, hroom⟩ := Bool.and_eq_true_iff.mp hpause
      -- a call that pauses has a limit
      have henabled : call.checkpointEnabled = true := by
        unfold SearchCall.checkpointEnabled
        cases hmaximum : call.maximumDepthBoundaries with
        | none => rw [hmaximum] at hlimit; cases hlimit
        | some maximum => exact Bool.or_true _
      obtain ⟨depth, hleft, hat, hknown⟩ := inv_of_paused
        (P := fun inputs progress => ∃ depth,
          inputs = ended.context.input.depthsFrom depth ∧
          progress.AtDepth depth ∧ WarmKnown ended.context.input progress.cavityCache)
        (by
          intro input' inputs state next report hinv hstep
          obtain ⟨piece, depth⟩ := input'
          obtain ⟨depth', heq, hat, hknown⟩ := hinv
          obtain ⟨rfl, rfl, hlt, -⟩ := depthsFrom_cons heq
          obtain ⟨⟨next', ledger⟩, hsearch, heq'⟩ := map_eq_ok hstep
          cases heq'
          exact ⟨depth + 1, rfl, hat.step hlt hsearch, hknown.step hsearch⟩)
        ⟨_, rfl, hdepth, hwarm⟩ hend'
      obtain rfl := depthsFrom_inj hleft (of_decide_eq_true hroom)
      refine ⟨reports, hpaused, by omega, of_decide_eq_true hroom, hat, hknown, henabled,
        ?_, ?_⟩
      · intro hempty
        rw [SearchProgress.spent, hempty] at hspent
        cases hspent
      · rw [henabled]

/-- **A lane in quanta is one run of the loop.**  From where a call starts, the
loop that never pauses makes the reports of all the calls to come; those before
the last call are `earlier`.  The last call settles on progress alike to the
last of the run, by the quotas of its own depths only. -/
theorem SettlesInQuanta.whole {subsystems : SearchSubsystems heap}
    {identities : CheckpointIdentities heap} {input : ColdSearchInput heap}
    {call : SearchCall heap} {cache : IntrinsicCapacityCavityCache F}
    {settled : SettledLane heap}
    (h : SettlesInQuanta subsystems identities input call cache settled)
    {context : SearchContext heap} {start : LaneStart heap}
    {cache' : IntrinsicCapacityCavityCache F}
    (hcontext : makeSearchContext subsystems input = .ok context)
    (hstart : laneStart context cache = (.ok start, cache'))
    (hdepth : (call.startLoop start cache').progress.AtDepth (call.startDepth input))
    (hwarm : WarmKnown input (call.startLoop start cache').progress.cavityCache) :
    ∃ final ended earlier last,
      run context.depthStep SearchProgress.spent
          (input.depthsFrom (call.startDepth input))
          (call.startLoop start cache').progress = .ok (final, earlier ++ last) ∧
      call.startDepth input + earlier.length = settled.startDepth ∧
      ended.Alike subsystems.toLayoutAuthority final ∧
      settled.result = (context.settle ⟨ended, settled.accounts⟩).1 ∧
      settled.accounts.settlement =
        (if anyExhausted last then .evaluationCap else .exhausted) ∧
      (settled.recorded = true → settled.accounts.saved =
        ((call.startLoop start cache').accounts.recordReports true
          (earlier ++ last)).saved) := by
  induction h generalizing context start cache' with
  | @settled call cache ended loop hrun hended =>
      obtain ⟨start₁, cache₁, hcontext₁, hstart₁, -, hloop⟩ := SearchCall.run_ok hrun
      obtain rfl := Except.ok.inj (hcontext₁.symm.trans hcontext)
      obtain ⟨hstart₂, rfl⟩ := Prod.mk.inj (hstart₁.symm.trans hstart)
      cases hstart₂
      obtain ⟨rfl, rfl, -⟩ := makeSearchContext_ok hcontext
      rw [SearchContext.searchDepths_eq] at hloop
      obtain ⟨end', hend', houtcome⟩ := map_eq_ok hloop
      rw [hended] at houtcome
      cases end' with
      | paused last rest progress reports => cases houtcome
      | finished progress reports =>
          cases houtcome
          refine ⟨progress, progress, [], reports, run_of_finished hend', rfl,
            ⟨rfl, rfl, rfl, .refl⟩, rfl, ?_, ?_⟩
          · show (SearchAccounts.recordReports _ _ _).settlement = _
            rw [SearchAccounts.settlement_recordReports, startLoop_settlement]
            rfl
          · intro hrecorded
            show (SearchAccounts.recordReports call.checkpointEnabled _ _).saved = _
            rw [show call.checkpointEnabled = true from hrecorded]
            rfl
  | @resumed call cache cache₂ ended nextDepth loop checkpoint limit settled hrun hended
      hcheckpoint hcache hrest ih =>
      obtain ⟨_, _, hcontext₁, -⟩ := SearchCall.run_ok hrun
      obtain rfl := Except.ok.inj (hcontext₁.symm.trans hcontext)
      obtain ⟨reports, hpaused, hnext, -, hat, hknown, -, -, haccounts⟩ :=
        SearchCall.run_paused hrun hended hstart hdepth hwarm
      obtain ⟨context₂, start₂, cache₃, hcontext₂, hstart₂⟩ := hrest.starts
      obtain rfl := Except.ok.inj (hcontext₂.symm.trans hcontext)
      obtain ⟨hsubsystems, hinput, -⟩ := makeSearchContext_ok hcontext
      -- the next call stands where this one paused, over its own cache
      obtain ⟨hcheckpointDepth, hrestore⟩ := hcheckpoint.restore cache₃
      have hcaches : CavityCachesAgree subsystems.toLayoutAuthority
          loop.progress.cavityCache cache₃ := by
        have hstarts := CavityCachesAgree.laneStart
          (show CavityCachesAgree ended.context.subsystems.toLayoutAuthority _ _ from
            hsubsystems ▸ hcache)
        rw [hstart₂, WarmKnown.laneStart (hinput ▸ hknown)] at hstarts
        exact hsubsystems ▸ hstarts.2
      have hloop : (SearchCall.mk (some checkpoint) limit).startLoop start₂ cache₃ =
          ⟨{ loop.progress with cavityCache := cache₃ },
            { loop.accounts with settlement := .exhausted }⟩ := hrestore
      have hstartDepth : (SearchCall.mk (some checkpoint) limit).startDepth input =
          nextDepth := hcheckpointDepth
      have hat' : ({ loop.progress with cavityCache := cache₃ } :
          SearchProgress heap).AtDepth nextDepth := ⟨hat.keys, hat.consumed⟩
      have hknown' : WarmKnown input cache₃ := by
        rw [← hinput]
        exact (laneStart_ok hstart₂).warmKnown
      obtain ⟨final, last, earlier, reports', hrun', hlength, halike, hresult,
        hsettlement, hsaved⟩ := ih hcontext hstart₂ (by rw [hloop, hstartDepth]; exact hat')
          (by rw [hloop]; exact hknown')
      rw [hloop, hstartDepth] at hrun'
      rw [hstartDepth] at hlength
      rw [hloop] at hsaved
      -- the run of the next call is that of this one, over alike progress
      have haligned : Aligned ended.context (input.depthsFrom nextDepth)
          { loop.progress with cavityCache := cache₃ } loop.progress :=
        ⟨nextDepth, by rw [hinput], hat', rfl, rfl, rfl, hsubsystems ▸ hcaches.symm⟩
      obtain ⟨final', _, hfinal', _, _, _, hlast⟩ :=
        run_related Aligned.spent Aligned.step haligned hrun'
      refine ⟨final', last, reports ++ earlier, reports', ?_, ?_, ?_, hresult,
        hsettlement, ?_⟩
      · rw [hpaused, hfinal', List.append_assoc]
        rfl
      · rw [List.length_append]
        omega
      · have hlast' := hsubsystems ▸ hlast
        exact ⟨halike.beam.trans hlast'.beam, halike.counters.trans hlast'.counters,
          halike.consumed.trans hlast'.consumed, halike.cache.trans hlast'.cache⟩
      · intro hrecorded
        rw [hsaved hrecorded, List.append_assoc, SearchAccounts.recordReports_append _ _
          reports, ← haccounts]
        exact SearchAccounts.saved_recordReports_congr _ _ _ _ rfl

/-! ## §5  Against the uninterrupted run -/

/-- The depths that one call without pauses visits, each with the progress it
starts from. -/
def uninterruptedVisits (subsystems : SearchSubsystems heap)
    (input : ColdSearchInput heap) (cache : IntrinsicCapacityCavityCache F) :
    List ((IrregularPreparedPiece F × ℕ) × SearchProgress heap) :=
  match makeSearchContext subsystems input with
  | .error _ => []
  | .ok context =>
      match laneStart context cache with
      | (.error _, _) => []
      | (.ok start, cache) => visits context.depthStep SearchProgress.spent
          (input.depthsFrom input.initialDepth) (freshLoop start cache).progress

/-- The beam of a depth offers more candidates than its quota. -/
def OffersTooMany (subsystems : SearchSubsystems heap)
    (visit : (IrregularPreparedPiece F × ℕ) × SearchProgress heap) : Prop :=
  depthQuota < offeredCandidates subsystems visit.1.1 visit.2.beam

/-- A depth before the last call offers more than its quota, and no depth of the
last call does. -/
def QuotaForgotten (subsystems : SearchSubsystems heap)
    (depths : List ((IrregularPreparedPiece F × ℕ) × SearchProgress heap))
    (startDepth : ℕ) : Prop :=
  (∃ visit ∈ depths, visit.1.2 < startDepth ∧ OffersTooMany subsystems visit) ∧
    ∀ visit ∈ depths, startDepth ≤ visit.1.2 → ¬OffersTooMany subsystems visit

namespace SettledLane

/-- The same endpoints, trace, ledgers and no-skip witness, whatever the
settlement. -/
structure AgreesButSettlement (first second : SettledLane heap) : Prop where
  result : first.result = { second.result with
    trace := { second.result.trace with
      settlement := first.result.trace.settlement } }
  saved : first.recorded = true → second.recorded = true →
    first.accounts.saved = second.accounts.saved

/-- The same endpoints, trace, ledgers, no-skip witness and settlement. -/
structure Agrees (first second : SettledLane heap) : Prop where
  result : first.result = second.result
  saved : first.recorded = true → second.recorded = true →
    first.accounts.saved = second.accounts.saved

end SettledLane

/-- The visits of a run stand at the depths of its inputs, one after the other. -/
theorem visits_depths {input : ColdSearchInput heap} {startDepth : ℕ}
    {earlier last : List ((IrregularPreparedPiece F × ℕ) × SearchProgress heap)}
    (h : (earlier ++ last).map Prod.fst <+: input.depthsFrom startDepth) :
    (∀ visit ∈ earlier, visit.1.2 < startDepth + earlier.length) ∧
      ∀ visit ∈ last, startDepth + earlier.length ≤ visit.1.2 := by
  obtain ⟨rest, hrest⟩ := h
  rw [List.map_append] at hrest
  constructor
  · intro visit hvisit
    obtain ⟨before, after, rfl⟩ := List.append_of_mem hvisit
    simp only [List.map_append, List.map_cons, List.append_assoc, List.cons_append]
      at hrest
    obtain ⟨hdepth, -⟩ := depthsFrom_split hrest.symm
    rw [hdepth, List.length_map, List.length_append, List.length_cons]
    omega
  · intro visit hvisit
    obtain ⟨before, after, rfl⟩ := List.append_of_mem hvisit
    rw [List.map_append, List.map_cons] at hrest
    have hsplit : input.depthsFrom startDepth =
        (earlier.map Prod.fst ++ before.map Prod.fst) ++
          visit.1 :: (after.map Prod.fst ++ rest) := by
      rw [← hrest]
      simp only [List.append_assoc, List.cons_append]
    obtain ⟨hdepth, -⟩ := depthsFrom_split hsplit
    rw [hdepth, List.length_append, List.length_map, List.length_map]
    omega

/-- A report and the visit it was made at. -/
def ReportOf (subsystems : SearchSubsystems heap)
    (visit : (IrregularPreparedPiece F × ℕ) × SearchProgress heap)
    (report : DepthReport) : Prop :=
  report.1.quotaExhausted = true ↔ OffersTooMany subsystems visit

theorem anyExhausted_iff {subsystems : SearchSubsystems heap}
    {depths : List ((IrregularPreparedPiece F × ℕ) × SearchProgress heap)}
    {reports : List DepthReport}
    (h : List.Forall₂ (ReportOf subsystems) depths reports) :
    anyExhausted reports = true ↔ ∃ visit ∈ depths, OffersTooMany subsystems visit := by
  induction h with
  | nil => exact ⟨fun h => absurd h Bool.false_ne_true,
      fun ⟨_, hmem, _⟩ => absurd hmem List.not_mem_nil⟩
  | @cons visit report depths reports hreport _ ih =>
      unfold anyExhausted at ih ⊢
      rw [List.any_cons, Bool.or_eq_true, ih]
      constructor
      · rintro (hone | ⟨other, hmem, hoffers⟩)
        · exact ⟨visit, List.mem_cons_self, hreport.mp hone⟩
        · exact ⟨other, List.mem_cons_of_mem _ hmem, hoffers⟩
      · rintro ⟨other, hmem, hoffers⟩
        rcases List.mem_cons.mp hmem with rfl | hmem
        · exact .inl (hreport.mpr hoffers)
        · exact .inr ⟨other, hmem, hoffers⟩

/-- **The reports of a run say which of its beams offered too many.** -/
theorem reports_of_visits {context : SearchContext heap} {startDepth : ℕ}
    {progress final : SearchProgress heap} {reports : List DepthReport}
    (hdepth : progress.AtDepth startDepth)
    (h : run context.depthStep SearchProgress.spent
      (context.input.depthsFrom startDepth) progress = .ok (final, reports)) :
    List.Forall₂ (ReportOf context.subsystems)
      (visits context.depthStep SearchProgress.spent
        (context.input.depthsFrom startDepth) progress) reports := by
  refine forall₂_visits (P := fun inputs progress => ∃ depth,
    inputs = context.input.depthsFrom depth ∧ progress.AtDepth depth) ?_
    ⟨startDepth, rfl, hdepth⟩ h
  intro input inputs state next report hinv hstep
  obtain ⟨piece, depth⟩ := input
  obtain ⟨depth', heq, hat⟩ := hinv
  obtain ⟨rfl, rfl, hlt, -⟩ := depthsFrom_cons heq
  obtain ⟨⟨next', ledger⟩, hsearch, heq'⟩ := map_eq_ok hstep
  cases heq'
  refine ⟨⟨depth + 1, rfl, hat.step hlt hsearch⟩, ?_⟩
  obtain ⟨hledger, -⟩ := SearchContext.searchDepth_ledger (hat.room hlt) hsearch
  show ledger.quotaExhausted = true ↔ _
  rw [hledger, decide_eq_true_iff]
  rfl

/-- A quota is forgotten when a depth before the last call exhausted it and no
depth of the last call did. -/
theorem quotaForgotten_iff {subsystems : SearchSubsystems heap}
    {input : ColdSearchInput heap} {startDepth : ℕ}
    {depths : List ((IrregularPreparedPiece F × ℕ) × SearchProgress heap)}
    {earlier last : List DepthReport}
    (hvisited : depths.map Prod.fst <+: input.depthsFrom startDepth)
    (hreports : List.Forall₂ (ReportOf subsystems) depths (earlier ++ last)) :
    QuotaForgotten subsystems depths (startDepth + earlier.length) ↔
      anyExhausted earlier = true ∧ anyExhausted last = false := by
  have hearlier := List.forall₂_take_append depths earlier last hreports
  have hlast := List.forall₂_drop_append depths earlier last hreports
  have hsplit := List.take_append_drop earlier.length depths
  have hlength := hearlier.length_eq
  obtain ⟨hbefore, hafter⟩ := visits_depths
    (show (depths.take earlier.length ++ depths.drop earlier.length).map Prod.fst <+:
      input.depthsFrom startDepth by rw [hsplit]; exact hvisited)
  rw [hlength] at hbefore hafter
  rw [anyExhausted_iff hearlier, ← Bool.not_eq_true, anyExhausted_iff hlast]
  unfold QuotaForgotten
  constructor
  · rintro ⟨⟨visit, hmem, hdepth, hoffers⟩, hnone⟩
    rw [← hsplit, List.mem_append] at hmem
    refine ⟨⟨visit, ?_, hoffers⟩, ?_⟩
    · rcases hmem with hmem | hmem
      · exact hmem
      · exact absurd (hafter visit hmem) (Nat.not_le.mpr hdepth)
    · rintro ⟨other, hother, hoffers'⟩
      exact hnone other (List.mem_of_mem_drop hother) (hafter other hother) hoffers'
  · rintro ⟨⟨visit, hmem, hoffers⟩, hnone⟩
    refine ⟨⟨visit, List.mem_of_mem_take hmem, hbefore visit hmem, hoffers⟩, ?_⟩
    intro other hother hdepth hoffers'
    rw [← hsplit, List.mem_append] at hother
    rcases hother with hother | hother
    · exact absurd hdepth (Nat.not_le.mpr (hbefore other hother))
    · exact hnone ⟨other, hother, hoffers'⟩

/-- The settlement is all that a settled result takes from the accounts. -/
theorem settle_accounts (context : SearchContext heap) (progress : SearchProgress heap)
    (accounts other : SearchAccounts) :
    (context.settle ⟨progress, accounts⟩).1 =
      { (context.settle ⟨progress, other⟩).1 with
        trace := { (context.settle ⟨progress, other⟩).1.trace with
          settlement := accounts.settlement } } := rfl

/-- A limit of at least the number of pieces never pauses a fresh call. -/
theorem never_pauses {context : SearchContext heap} {limit : Option ℕ}
    (hlimit : ∀ maximum ∈ limit, context.input.preparedPieces.length ≤ maximum)
    (startDepth : ℕ) :
    ∀ done input rest, context.input.depthsFrom startDepth = done ++ input :: rest →
      context.pauses limit (0 + done.length + 1) input = false := by
  intro done input rest heq
  obtain ⟨hdepth, -⟩ := depthsFrom_split heq
  unfold SearchContext.pauses
  cases limit with
  | none => rfl
  | some maximum =>
      have hmaximum := hlimit maximum rfl
      rw [Option.any_some, Bool.and_eq_false_iff, decide_eq_false_iff_not,
        decide_eq_false_iff_not]
      omega

/-- **Pausing and resuming a cold search.**  Whenever a lane settles in quanta,
the call that never pauses settles too, over any cache no state tells apart from
the first, and agrees with it in everything but the settlement; it agrees in the
settlement as well exactly when no quota was forgotten. -/
theorem settlesInQuanta_agrees_iff {subsystems : SearchSubsystems heap}
    {identities : CheckpointIdentities heap} {input : ColdSearchInput heap}
    {limit : Option ℕ} {cache : IntrinsicCapacityCavityCache F}
    {settled : SettledLane heap}
    (h : SettlesInQuanta subsystems identities input ⟨none, limit⟩ cache settled)
    {wholeLimit : Option ℕ}
    (hwhole : ∀ maximum ∈ wholeLimit, 0 < maximum ∧ isSafeCount maximum = true ∧
      input.preparedPieces.length ≤ maximum)
    {wholeCache : IntrinsicCapacityCavityCache F}
    (hcache : CavityCachesAgree subsystems.toLayoutAuthority cache wholeCache) :
    ∃ ended loop,
      (SearchCall.mk none wholeLimit).run subsystems identities input wholeCache =
        .ok ended ∧
      ended.outcome = .finished loop ∧
      settled.AgreesButSettlement
        ((SearchCall.mk none wholeLimit).settledLane ended.context loop) ∧
      (settled.Agrees ((SearchCall.mk none wholeLimit).settledLane ended.context loop) ↔
        ¬QuotaForgotten subsystems (uninterruptedVisits subsystems input wholeCache)
          settled.startDepth) := by
  obtain ⟨context, start, cache', hcontext, hstart⟩ := h.starts
  obtain ⟨rfl, rfl, -⟩ := makeSearchContext_ok hcontext
  have hstarts := laneStart_ok hstart
  have hdepth := hstarts.atDepth
  rw [hstarts.initialDepth] at hdepth
  obtain ⟨final, last, earlier, reports, hrun, hlength, halike, hresult, hsettlement,
    hsaved⟩ := h.whole hcontext hstart hdepth hstarts.warmKnown
  -- the uninterrupted call starts alike, and runs to an alike end
  obtain ⟨hstartEq, hcaches⟩ := hcache.laneStart
  rcases hwholeStart : laneStart context wholeCache with ⟨result, wholeCache'⟩
  rw [hstart, hwholeStart] at hstartEq hcaches
  obtain rfl : Except.ok start = result := hstartEq
  have haligned : Aligned context (context.input.depthsFrom context.input.initialDepth)
      (freshLoop start cache').progress (freshLoop start wholeCache').progress :=
    ⟨_, rfl, hdepth, rfl, rfl, rfl, hcaches⟩
  obtain ⟨final', _, hrun', _, _, _, hfinal⟩ :=
    run_related Aligned.spent Aligned.step haligned hrun
  have hwholeDepth : (freshLoop start wholeCache').progress.AtDepth
      context.input.initialDepth := ⟨hdepth.keys, hdepth.consumed⟩
  have hloop : context.searchDepths wholeLimit.isSome wholeLimit
      (context.input.depthsFrom context.input.initialDepth) 0
      (freshLoop start wholeCache') = .ok (.finished ⟨final',
        (freshLoop start wholeCache').accounts.recordReports wholeLimit.isSome
          (earlier ++ reports)⟩) := by
    rw [SearchContext.searchDepths_eq, runUntil_of_run
      (never_pauses (fun maximum hmem => (hwhole maximum hmem).2.2) _) hrun']
    rfl
  have hcall := SearchCall.run_of_fresh identities hcontext hwholeStart
    (fun maximum hmem => ⟨(hwhole maximum hmem).1, (hwhole maximum hmem).2.1⟩) hloop
  refine ⟨_, _, hcall, rfl, ?_⟩
  -- what the two lanes have in common
  have hlast : last.Alike context.subsystems.toLayoutAuthority final' :=
    ⟨halike.beam.trans hfinal.beam, halike.counters.trans hfinal.counters,
      halike.consumed.trans hfinal.consumed, halike.cache.trans hfinal.cache⟩
  rw [hlast.settle] at hresult
  have hboth : settled.recorded = true → wholeLimit.isSome = true →
      settled.accounts.saved =
        ((freshLoop start wholeCache').accounts.recordReports wholeLimit.isSome
          (earlier ++ reports)).saved := by
    intro hrecorded henabled
    rw [hsaved hrecorded, henabled]
    rfl
  have hrecordedWhole : ((SearchCall.mk none wholeLimit).settledLane context
      ⟨final', (freshLoop start wholeCache').accounts.recordReports wholeLimit.isSome
        (earlier ++ reports)⟩).recorded = wholeLimit.isSome := rfl
  refine ⟨⟨?_, fun hrecorded henabled => hboth hrecorded henabled⟩, ?_⟩
  · rw [hresult]
    rfl
  -- the settlements, and the depths behind them
  have hwholeSettlement :
      ((freshLoop start wholeCache').accounts.recordReports wholeLimit.isSome
        (earlier ++ reports)).settlement =
      if anyExhausted (earlier ++ reports) then .evaluationCap else .exhausted :=
    SearchAccounts.settlement_recordReports _ _ _
  have hvisits : uninterruptedVisits context.subsystems context.input wholeCache =
      visits context.depthStep SearchProgress.spent
        (context.input.depthsFrom context.input.initialDepth)
        (freshLoop start wholeCache').progress := by
    unfold uninterruptedVisits
    rw [hcontext]
    dsimp only
    rw [hwholeStart]
  have hreports := reports_of_visits hwholeDepth hrun'
  rw [hvisits, ← hlength, show (SearchCall.mk none limit).startDepth context.input =
    context.input.initialDepth from rfl, quotaForgotten_iff visits_prefix hreports]
  have hsame : settled.accounts.settlement =
      ((freshLoop start wholeCache').accounts.recordReports wholeLimit.isSome
        (earlier ++ reports)).settlement ↔
      ¬(anyExhausted earlier = true ∧ anyExhausted reports = false) := by
    rw [hsettlement, hwholeSettlement, show anyExhausted (earlier ++ reports) =
      (anyExhausted earlier || anyExhausted reports) from List.any_append]
    cases anyExhausted earlier <;> cases anyExhausted reports <;> decide
  rw [← hsame]
  constructor
  · intro hagrees
    have := hagrees.result
    rw [hresult] at this
    exact congrArg (fun result => result.trace.settlement) this
  · intro hequal
    refine ⟨?_, fun hrecorded henabled => hboth hrecorded henabled⟩
    rw [hresult]
    show _ = (context.settle ⟨final', _⟩).1
    rw [settle_accounts context final' settled.accounts
      ((freshLoop start wholeCache').accounts.recordReports wholeLimit.isSome
        (earlier ++ reports)), hequal]
    rfl

/-! ## §6  A lane that forgets its quota -/

def upright : IrregularTransformCandidate ℚ := ⟨0, 0, false, .orthogonal⟩

def unitSquare (sourcePieceId : PieceId) (transform : IrregularTransformCandidate ℚ) :
    TransformedCollisionGeometry ℚ where
  sourcePieceId := sourcePieceId
  transform := transform
  polygon := ⟨[⟨0, 0⟩, ⟨1, 0⟩, ⟨1, 1⟩, ⟨0, 1⟩]⟩
  bounds := ⟨0, 0, 1, 1⟩

def squareAtOrigin (pieceId : PieceId) : IrregularPlacedPiece ℚ where
  placement := ⟨none, pieceId, some ⟨0, 0⟩, ⟨0, 0, 0, false⟩⟩
  collisionGeometry := unitSquare pieceId upright

def squarePiece (pieceId : PieceId) : IrregularPreparedPiece ℚ where
  pieceId := none
  sourceId := pieceId
  collisionGeometry := ⟨pieceId, ⟨[]⟩, ⟨[]⟩, ⟨0, 0⟩⟩
  transforms := [upright]

/-- All placed squares stand at the origin, one for each of the three pieces. -/
def squareHeap (n : ℕ) : IrregularPlacedPiece ℚ :=
  squareAtOrigin (["a", "b"].getD n "c")

/-- Next to a placed square the second piece has a number of candidates, all so
far away that they are off the grid; the third piece has none. -/
def crowdedSubsystems (candidates : ℕ) : SearchSubsystems squareHeap where
  alloc placed := ⟨["a", "b"].idxOf placed.placement.sourcePieceId⟩
  intersection _ _ := []
  canonicalCollisionLayoutIdentity placed :=
    some (String.join (placed.map fun piece => piece.placement.preparedId))
  measureCanonicalLayoutEnvelope _ := some ⟨1, 1, 2, 1000, 2000, 1000000⟩
  measureCanonicalEnclosedCavities _ := some noCavities
  sha256Hex text := text
  localeCompareKeys := cmpJsCodeUnits
  resolveTransformedCollisionGeometry geometry transform :=
    .ok (unitSquare geometry.sourcePieceId transform)
  generatePlacementCandidates _ _ moving :=
    if moving.sourcePieceId = "b" then
      .ok (List.replicate candidates ⟨"b", moving.transform, ⟨-10000000000000, 0⟩, []⟩)
    else .ok []
  sharedCollisionBoundaryLengthMm _ _ _ := .ok 0
  measureCanonicalLayoutTopologyExact _ := none
  jsonString text := text

/-- Hashes that tell nothing apart. -/
def plainIdentities (heap : ℕ → IrregularPlacedPiece ℚ) : CheckpointIdentities heap where
  requestFingerprint _ := ""
  integrityHash _ := ""
  continuationMetadataIdentity _ := ""
  indexContinuationIdentity _ := ""

/-- Three squares on a sheet of one, the first already placed. -/
def threeSquares : ColdSearchInput squareHeap where
  sheet := ⟨1, 1, ""⟩
  preparedPieces := [squarePiece "a", squarePiece "b", squarePiece "c"]
  materialAreasByPieceId _ := some 2
  incumbent := none
  warmPrefixSeed := some ⟨"prefix", 1,
    (IrregularBeamState.empty
      [squarePiece "a", squarePiece "b", squarePiece "c"]).withPlacement
        [squarePiece "b", squarePiece "c"] ⟨0⟩ "a"⟩
  schedulerDeficit := none
  retentionMode := none

/-- The settlement of a call on the three squares; none when it pauses. -/
def crowdedSettlement (candidates : ℕ) (call : SearchCall squareHeap)
    (cache : IntrinsicCapacityCavityCache ℚ) : Option IntrinsicCapacitySettlement :=
  match call.run (crowdedSubsystems candidates) (plainIdentities _) threeSquares cache with
  | .error _ => none
  | .ok ended =>
      match ended.outcome with
      | .finished loop => some loop.accounts.settlement
      | .paused _ _ => none

/-- The trusted checkpoint after the second square, and the cache given back. -/
def crowdedCheckpoint (candidates : ℕ) :
    Option (IntrinsicAnytimeCheckpoint squareHeap × IntrinsicCapacityCavityCache ℚ) :=
  match (SearchCall.mk none (some 1)).run (crowdedSubsystems candidates)
      (plainIdentities _) threeSquares ∅ with
  | .error _ => none
  | .ok ended =>
      match ended.outcome with
      | .finished _ => none
      | .paused nextDepth loop =>
          some ({ (SearchCall.mk none (some 1)).makeCheckpoint (plainIdentities _)
            ended.context nextDepth loop with trustedInternal := true },
            loop.progress.cavityCache)

theorem crowdedSettlement_ok {candidates : ℕ} {call : SearchCall squareHeap}
    {cache : IntrinsicCapacityCavityCache ℚ} {settlement : IntrinsicCapacitySettlement}
    (h : crowdedSettlement candidates call cache = some settlement) :
    ∃ ended loop, call.run (crowdedSubsystems candidates) (plainIdentities _)
        threeSquares cache = .ok ended ∧
      ended.outcome = .finished loop ∧ loop.accounts.settlement = settlement := by
  unfold crowdedSettlement at h
  split at h
  · cases h
  · next ended hrun =>
    split at h
    · next loop hended => exact ⟨ended, loop, hrun, hended, Option.some.inj h⟩
    · cases h

/-- The settlement of the lane that pauses after the second square and goes on. -/
def crowdedResumption (candidates : ℕ) : Option IntrinsicCapacitySettlement :=
  (crowdedCheckpoint candidates).bind fun paused =>
    crowdedSettlement candidates ⟨some paused.1, none⟩ paused.2

theorem crowded_settlesInQuanta {candidates : ℕ}
    {settlement : IntrinsicCapacitySettlement}
    (h : crowdedResumption candidates = some settlement) :
    ∃ settled, SettlesInQuanta (crowdedSubsystems candidates) (plainIdentities _)
        threeSquares ⟨none, some 1⟩ ∅ settled ∧
      settled.result.trace.settlement = settlement := by
  obtain ⟨⟨checkpoint, cache⟩, hcheckpoint, hsettlement⟩ := Option.bind_eq_some_iff.mp h
  obtain ⟨last, loop', hrun', hended', hlast⟩ := crowdedSettlement_ok hsettlement
  unfold crowdedCheckpoint at hcheckpoint
  split at hcheckpoint
  · cases hcheckpoint
  · next ended hrun =>
    split at hcheckpoint
    · cases hcheckpoint
    · next nextDepth loop hended =>
      cases hcheckpoint
      exact ⟨_, .resumed hrun hended (.inr rfl) .refl (.settled hrun' hended'), hlast⟩

/-- Five candidates are within the quota, and the lanes agree. -/
theorem settlesInQuanta_agrees_iff_fiveCandidates :
    ∃ settled, SettlesInQuanta (crowdedSubsystems 5) (plainIdentities _) threeSquares
        ⟨none, some 1⟩ ∅ settled ∧
      ∃ ended loop, (SearchCall.mk none none).run (crowdedSubsystems 5)
          (plainIdentities _) threeSquares ∅ = .ok ended ∧
        ended.outcome = .finished loop ∧
        settled.Agrees ((SearchCall.mk none none).settledLane ended.context loop) := by
  obtain ⟨settled, hsettles, -⟩ := crowded_settlesInQuanta
    (show crowdedResumption 5 = some .exhausted by decide +kernel)
  obtain ⟨ended, loop, hrun, hended, -, hagrees⟩ :=
    settlesInQuanta_agrees_iff hsettles
      (show ∀ maximum ∈ (none : Option ℕ), _ from
        fun _ hmem => absurd hmem (Option.not_mem_none _))
      (show CavityCachesAgree (crowdedSubsystems 5).toLayoutAuthority ∅ ∅ from .refl)
  have hquota : ∀ visit ∈ uninterruptedVisits (crowdedSubsystems 5) threeSquares ∅,
      ¬OffersTooMany (crowdedSubsystems 5) visit := by
    have hall : (uninterruptedVisits (crowdedSubsystems 5) threeSquares ∅).all
        (fun visit => decide (offeredCandidates (crowdedSubsystems 5) visit.1.1
          visit.2.beam ≤ depthQuota)) = true := by decide +kernel
    intro visit hmem
    exact Nat.not_lt.mpr (of_decide_eq_true (List.all_eq_true.mp hall visit hmem))
  refine ⟨settled, hsettles, ended, loop, hrun, hended, hagrees.mpr ?_⟩
  rintro ⟨⟨visit, hmem, -, hoffers⟩, -⟩
  exact hquota visit hmem hoffers

theorem crowded_settlements : crowdedResumption 4097 = some .exhausted ∧
    crowdedSettlement 4097 ⟨none, none⟩ ∅ = some .evaluationCap := by
  decide +kernel

/-- With 4097 candidates the second square exhausts the quota: the uninterrupted
call settles by the evaluation cap, the resumed one as exhausted. -/
theorem crowded_lane_forgets_quota :
    ∃ settled, SettlesInQuanta (crowdedSubsystems 4097) (plainIdentities _) threeSquares
        ⟨none, some 1⟩ ∅ settled ∧
      settled.result.trace.settlement = .exhausted ∧
      ∃ ended loop, (SearchCall.mk none none).run (crowdedSubsystems 4097)
          (plainIdentities _) threeSquares ∅ = .ok ended ∧
        ended.outcome = .finished loop ∧
        ((SearchCall.mk none none).settledLane ended.context
          loop).result.trace.settlement = .evaluationCap ∧
        ¬settled.Agrees ((SearchCall.mk none none).settledLane ended.context loop) := by
  obtain ⟨settled, hsettles, hexhausted⟩ := crowded_settlesInQuanta crowded_settlements.1
  obtain ⟨ended, loop, hrun, hended, hcap⟩ := crowdedSettlement_ok crowded_settlements.2
  refine ⟨settled, hsettles, hexhausted, ended, loop, hrun, hended, hcap, ?_⟩
  intro hagrees
  have hsame : settled.result.trace.settlement = loop.accounts.settlement :=
    congrArg (fun result => result.trace.settlement) hagrees.result
  rw [hexhausted, hcap] at hsame
  cases hsame

end PolygonNesting
