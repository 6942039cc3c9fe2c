import PolygonNesting.Capacity.CheckpointValid
import PolygonNesting.Capacity.Quanta

set_option linter.unusedSectionVars false

/-!
# Reachable loops

The loops that calls of the search can reach: from a fresh lane, from any
checkpoint that the validator accepts, and from a checkpoint that an earlier
call emitted, after any number of depths.  An invariant of reachable loops is
shown by four facts, one for each way to get there.
-/

namespace PolygonNesting

variable {F : Type} [LinearOrder F] [Zero F] [One F] [Add F] [Sub F] [Neg F]
  [Mul F] [Div F] [JsMath F] {heap : ℕ → IrregularPlacedPiece F}

/-! ## §1  Calls and loops -/

section
variable (subsystems : SearchSubsystems heap) (identities : CheckpointIdentities heap)
  (input : ColdSearchInput heap) (caches : IntrinsicCapacityCavityCache F → Prop)

/-- The calls of a lane, with caches of one kind.  The flag says that every
checkpoint on the way was emitted; trust is only given to an emitted one. -/
inductive LaneCall : Bool → SearchCall heap → Prop
  | fresh (limit : Option ℕ) : LaneCall true ⟨none, limit⟩
  | accepted (checkpoint : IntrinsicAnytimeCheckpoint heap) (limit : Option ℕ)
      (huntrusted : checkpoint.trustedInternal = false) :
      LaneCall false ⟨some checkpoint, limit⟩
  | resumed {emitted : Bool} {call : SearchCall heap}
      {cache : IntrinsicCapacityCavityCache F} {ended : CallOutcome heap}
      {nextDepth : ℕ} {loop : SearchLoop heap}
      {checkpoint : IntrinsicAnytimeCheckpoint heap} (limit : Option ℕ)
      (hcall : LaneCall emitted call) (hcache : caches cache)
      (hrun : call.run subsystems identities input cache = .ok ended)
      (hended : ended.outcome = .paused nextDepth loop)
      (hcheckpoint : IsEmitted call identities ended.context nextDepth loop checkpoint) :
      LaneCall emitted ⟨some checkpoint, limit⟩

/-- The loops that a call reaches, depth by depth. -/
inductive LoopReached : Bool → SearchCall heap → ℕ → SearchLoop heap → Prop
  | start {emitted : Bool} {call : SearchCall heap}
      {cache cache' : IntrinsicCapacityCavityCache F} {context : SearchContext heap}
      {start : LaneStart heap}
      (hcall : LaneCall subsystems identities input caches emitted call)
      (hcache : caches cache)
      (hcontext : makeSearchContext subsystems input = .ok context)
      (hstart : laneStart context cache = (.ok start, cache'))
      (hvalid : ∀ checkpoint ∈ call.checkpoint,
        validateIntrinsicCapacityCheckpoint identities context
          (call.requestFingerprint identities input) input.producerRole checkpoint =
            none) :
      LoopReached emitted call (call.startDepth input) (call.startLoop start cache')
  | step {emitted : Bool} {call : SearchCall heap} {depth : ℕ}
      {loop next : SearchLoop heap} {context : SearchContext heap}
      {piece : IrregularPreparedPiece F}
      (hreached : LoopReached emitted call depth loop)
      (hcontext : makeSearchContext subsystems input = .ok context)
      (hpiece : input.preparedPieces[depth]? = some piece)
      (hadvance : context.advance call.checkpointEnabled depth piece loop = .ok next) :
      LoopReached emitted call (depth + 1) next

end

/-! ## §2  Along one call -/

theorem depthsFrom_eq_nil {input : ColdSearchInput heap} {depth : ℕ}
    (h : [] = input.depthsFrom depth) : input.preparedPieces.length ≤ depth := by
  have := congrArg List.length h
  unfold ColdSearchInput.depthsFrom at this
  rw [List.length_nil, List.length_drop, List.length_zipIdx] at this
  omega

/-- What a loop keeps, depth by depth, holds where a call ends. -/
theorem searchDepths_inv {context : SearchContext heap} {checkpointEnabled : Bool}
    {limit : Option ℕ} {P : ℕ → SearchLoop heap → Prop}
    (hstep : ∀ depth piece loop next, P depth loop →
      context.input.preparedPieces[depth]? = some piece →
      context.advance checkpointEnabled depth piece loop = .ok next → P (depth + 1) next)
    {depths : List (IrregularPreparedPiece F × ℕ)} :
    ∀ {depth completed : ℕ} {loop : SearchLoop heap} {outcome : LoopOutcome heap},
      depths = context.input.depthsFrom depth → P depth loop →
      context.searchDepths checkpointEnabled limit depths completed loop = .ok outcome →
        match outcome with
        | .finished last => ∃ depth', P depth' last ∧
            (last.progress.beam = [] ∨ context.input.preparedPieces.length ≤ depth')
        | .paused nextDepth last => P nextDepth last ∧
            nextDepth < context.input.preparedPieces.length ∧ 0 < nextDepth ∧
            last.progress.beam ≠ [] ∧ limit.isSome = true := by
  induction depths with
  | nil =>
      intro depth completed loop outcome hdepths hinv h
      cases h
      exact ⟨depth, hinv, .inr (depthsFrom_eq_nil hdepths)⟩
  | cons input depths ih =>
      obtain ⟨piece, depth'⟩ := input
      intro depth completed loop outcome hdepths hinv h
      obtain ⟨rfl, hrest, -, hpiece⟩ := depthsFrom_cons hdepths
      unfold SearchContext.searchDepths at h
      split at h
      · cases h
      · next next hadvance =>
        have hnext := hstep _ _ _ _ hinv hpiece hadvance
        split at h
        · next hempty =>
          cases h
          exact ⟨_, hnext, .inl (List.isEmpty_iff.mp hempty)⟩
        · next hbeam =>
          split at h
          · next hpause =>
            cases h
            obtain ⟨hlimit, hroom⟩ := Bool.and_eq_true_iff.mp hpause
            refine ⟨hnext, of_decide_eq_true hroom, Nat.succ_pos _, ?_, ?_⟩
            · rwa [List.isEmpty_iff] at hbeam
            · cases limit with
              | none => cases hlimit
              | some maximum => rfl
          · exact ih hrest hnext h

theorem checkpointEnabled_of_limit {call : SearchCall heap}
    (h : call.maximumDepthBoundaries.isSome = true) : call.checkpointEnabled = true := by
  unfold SearchCall.checkpointEnabled
  rw [h, Bool.or_true]

section
variable {subsystems : SearchSubsystems heap} {identities : CheckpointIdentities heap}
  {input : ColdSearchInput heap} {caches : IntrinsicCapacityCavityCache F → Prop}
  {emitted : Bool} {call : SearchCall heap} {cache : IntrinsicCapacityCavityCache F}
  {ended : CallOutcome heap}

/-- **Where a call ends is reached.** -/
theorem LaneCall.outcome_reached
    (hcall : LaneCall subsystems identities input caches emitted call)
    (hcache : caches cache)
    (hrun : call.run subsystems identities input cache = .ok ended) :
    match ended.outcome with
    | .finished last => ∃ depth,
        LoopReached subsystems identities input caches emitted call depth last ∧
          (last.progress.beam = [] ∨ input.preparedPieces.length ≤ depth)
    | .paused nextDepth last =>
        LoopReached subsystems identities input caches emitted call nextDepth last ∧
          nextDepth < input.preparedPieces.length ∧ 0 < nextDepth ∧
          last.progress.beam ≠ [] ∧ call.maximumDepthBoundaries.isSome = true := by
  obtain ⟨start, cache', hcontext, hstart, hvalid, hloop⟩ := SearchCall.run_ok hrun
  have hreached := LoopReached.start hcall hcache hcontext hstart hvalid
  obtain ⟨hsubsystems, hinput, -⟩ := makeSearchContext_ok hcontext
  have hend := searchDepths_inv
    (P := LoopReached subsystems identities input caches emitted call)
    (fun depth piece loop next hloop hpiece hadvance =>
      hloop.step hcontext (by rwa [hinput] at hpiece) hadvance)
    (by rw [hinput]) hreached hloop
  rw [hinput] at hend
  exact hend

/-! ## §3  Induction -/

/-- **An invariant of reachable loops.**  It holds of fresh lanes and of accepted
checkpoints, every depth keeps it, and a resume from an emitted checkpoint
restores it over the cache of the next call. -/
theorem LoopReached.induction {motive : Bool → Bool → ℕ → SearchLoop heap → Prop}
    (hfresh : ∀ (limit : Option ℕ) {context : SearchContext heap} {start : LaneStart heap}
      {cache cache' : IntrinsicCapacityCavityCache F}, caches cache →
      makeSearchContext subsystems input = .ok context →
      LaneStarts context cache start cache' →
      motive true limit.isSome input.initialDepth (freshLoop start cache'))
    (haccepted : ∀ {context : SearchContext heap}
      {checkpoint : IntrinsicAnytimeCheckpoint heap} {fingerprint : String}
      {start : LaneStart heap} {cache cache' : IntrinsicCapacityCavityCache F},
      caches cache → makeSearchContext subsystems input = .ok context →
      LaneStarts context cache start cache' →
      CheckpointValid identities context fingerprint input.producerRole checkpoint →
      motive false true checkpoint.nextDepth (restoreLoop checkpoint cache'))
    (hstep : ∀ {emitted recorded : Bool} {depth : ℕ} {loop next : SearchLoop heap}
      {context : SearchContext heap} {piece : IrregularPreparedPiece F},
      motive emitted recorded depth loop →
      makeSearchContext subsystems input = .ok context →
      input.preparedPieces[depth]? = some piece →
      context.advance recorded depth piece loop = .ok next →
      motive emitted recorded (depth + 1) next)
    (hresumed : ∀ {emitted : Bool} {depth : ℕ} {loop : SearchLoop heap}
      {context : SearchContext heap} {start : LaneStart heap}
      {cache cache' : IntrinsicCapacityCavityCache F}, motive emitted true depth loop →
      depth < input.preparedPieces.length → caches cache →
      makeSearchContext subsystems input = .ok context →
      LaneStarts context cache start cache' →
      motive emitted true depth ⟨{ loop.progress with cavityCache := cache' },
        { loop.accounts with settlement := .exhausted }⟩)
    {depth : ℕ} {loop : SearchLoop heap}
    (h : LoopReached subsystems identities input caches emitted call depth loop) :
    motive emitted call.checkpointEnabled depth loop := by
  -- the start of every call, by induction on how the caller came to it
  have hstarts : ∀ {emitted : Bool} {call : SearchCall heap},
      LaneCall subsystems identities input caches emitted call →
      ∀ {context : SearchContext heap} {start : LaneStart heap}
        {cache cache' : IntrinsicCapacityCavityCache F}, caches cache →
        makeSearchContext subsystems input = .ok context →
        laneStart context cache = (.ok start, cache') →
        (∀ checkpoint ∈ call.checkpoint,
          validateIntrinsicCapacityCheckpoint identities context
            (call.requestFingerprint identities input) input.producerRole checkpoint =
              none) →
        motive emitted call.checkpointEnabled (call.startDepth input)
          (call.startLoop start cache') := by
    intro emitted call hcall
    induction hcall with
    | fresh limit =>
        intro context start cache cache' hcache hcontext hstart _
        exact hfresh limit hcache hcontext (laneStart_ok hstart)
    | accepted checkpoint limit huntrusted =>
        intro context start cache cache' hcache hcontext hstart hvalid
        obtain ⟨-, htrusted | hchecks⟩ :=
          validateCheckpoint_eq_none.mp (hvalid checkpoint rfl)
        · rw [huntrusted] at htrusted
          cases htrusted
        · exact haccepted hcache hcontext (laneStart_ok hstart) hchecks
    | @resumed emitted call cache₀ ended nextDepth loop checkpoint limit hcall hcache₀ hrun
        hended hcheckpoint ih =>
        intro context start cache cache' hcache hcontext hstart _
        obtain ⟨start₀, cache₁, hcontext₀, hstart₀, hvalid₀, hloop⟩ :=
          SearchCall.run_ok hrun
        have hfirst := ih hcache₀ hcontext₀ hstart₀ hvalid₀
        obtain ⟨-, hinput, -⟩ := makeSearchContext_ok hcontext₀
        have hend := searchDepths_inv (P := motive emitted call.checkpointEnabled)
          (fun depth piece loop next hinv hpiece hadvance =>
            hstep hinv hcontext₀ (by rwa [hinput] at hpiece) hadvance)
          (by rw [hinput]) hfirst hloop
        rw [hended] at hend
        obtain ⟨hinv, hdepth, -, -, hlimit⟩ := hend
        rw [checkpointEnabled_of_limit hlimit] at hinv
        obtain ⟨hnext, hrestore⟩ := hcheckpoint.restore cache'
        rw [hinput] at hdepth
        have hresult := hresumed hinv hdepth hcache hcontext (laneStart_ok hstart)
        rw [← hrestore, ← hnext] at hresult
        exact hresult
  induction h with
  | start hcall hcache hcontext hstart hvalid =>
      exact hstarts hcall hcache hcontext hstart hvalid
  | step hreached hcontext hpiece hadvance ih =>
      exact hstep ih hcontext hpiece hadvance

end

end PolygonNesting
