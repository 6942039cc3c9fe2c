import PolygonNesting.Job.Control
import PolygonNesting.Lib.Interleaving

/-!
# The terminal commit of a job

One worker runs the job while any number of callers cancel it.  The worker polls the
control during the computation, cancels it itself when its deadline has passed, and at
the end tries to complete it; only one of these compare-exchanges from `RUNNING` wins.

A program counter names the worker's next atomic operation.  The computation is any
tree of polls, so the theorems hold for whatever it does with the answers and whatever
the clock says at each poll.
-/

namespace PolygonNesting

open Interleaving

variable {ρ F ι : Type}

/-! ## §1  The worker -/

/-- How `compute_irregular_nesting` ends inside `catch_unwind`. -/
inductive Execution (ρ : Type) where
  | success (result : ρ)
  | error (error : IrregularComputeError)
  | panicked

/-- A computation that polls the cancellation closure; `expired` is what the clock says
at that poll. -/
inductive Computation (ρ F : Type) where
  | ended (execution : Execution ρ) (diagnostics : ExecutionDiagnostics F)
  | poll (expired : Bool) (next : Option NfpIfpAbortReason → Computation ρ F)

/-- What `run_uncommitted` reads of a request: its validation, its routing, its
settings, and the computation. -/
structure JobRequest (ρ F : Type) where
  validationError : Option EngineError
  archiveIneligibility : Option ArchiveIneligibilityReason
  hasSettings : Bool
  computation : Computation ρ F

abbrev JobResult (ρ F : Type) := Except EngineError (EngineOutcome ρ F)

/-- The outcome of an execution. -/
def executionOutcome (execution : Execution ρ) (diagnostics : ExecutionDiagnostics F) :
    EngineOutcome ρ F :=
  match execution with
  | .success result => .success result diagnostics
  | .error error => .failure (projectError error) diagnostics
  | .panicked => .failure (internalFailure "compute-irregular-nesting") diagnostics

def abortReason : CancelReason → NfpIfpAbortReason
  | .cancelled => .cancelled
  | .deadline => .deadline

/-- The next atomic operation of the worker. -/
inductive WorkerPc (ρ F : Type) where
  | validate
  | admission
  | computing (computation : Computation ρ F)
  | pollFirst (expired : Bool) (next : Option NfpIfpAbortReason → Computation ρ F)
  | pollCancel (next : Option NfpIfpAbortReason → Computation ρ F)
  | pollSecond (next : Option NfpIfpAbortReason → Computation ρ F)
  | tryComplete (candidate : JobResult ρ F)
  | readReason (candidate : JobResult ρ F)
  | failOutcome
  | done (outcome : JobResult ρ F)
  | panicked

/-- The worker, and which of its compare-exchanges won. -/
structure Worker (ρ F : Type) where
  pc : WorkerPc ρ F
  deadlineWon : Bool
  completed : Bool

/-- The candidate carries the reason that the commit read. -/
def carriesReason (candidate : JobResult ρ F) (reason : CancelReason) : Bool :=
  match candidate with
  | .error _ => false
  | .ok outcome => decide (outcomeCancelReason outcome = some reason)

/-- After the admission: the routing, the settings, the computation. -/
def admitted (request : JobRequest ρ F) : WorkerPc ρ F :=
  match request.archiveIneligibility with
  | some reason => .tryComplete (.ok (.archiveIneligible reason (.archiveIneligible reason) {}))
  | none =>
      if request.hasSettings then .computing request.computation
      else .tryComplete (.error (internalFailure "prepare-nesting-request"))

/-- One atomic operation of `Job::run`; `none` when it has returned. -/
def workerStep (request : JobRequest ρ F) (state : ControlState) (worker : Worker ρ F) :
    Option (ControlState × Worker ρ F) :=
  match worker.pc with
  | .validate =>
      match request.validationError with
      | some error => some (state, { worker with pc := .tryComplete (.error error) })
      | none => some (state, { worker with pc := .admission })
  | .admission =>
      match controlFailureOutcome state with
      | some outcome => some (state, { worker with pc := .tryComplete (.ok outcome) })
      | none => some (state, { worker with pc := admitted request })
  | .computing (.ended execution diagnostics) =>
      some (state, { worker with pc := .tryComplete (.ok (executionOutcome execution diagnostics)) })
  | .computing (.poll expired next) => some (state, { worker with pc := .pollFirst expired next })
  | .pollFirst expired next =>
      if state.reason.isNone && expired then
        some (state, { worker with pc := .pollCancel next })
      else some (state, { worker with pc := .pollSecond next })
  | .pollCancel next =>
      let (state, won) := state.cancel .deadline
      some (state, { worker with pc := .pollSecond next, deadlineWon := worker.deadlineWon || won })
  | .pollSecond next =>
      some (state, { worker with pc := .computing (next (state.reason.map abortReason)) })
  -- `commit_terminal_result`
  | .tryComplete candidate =>
      match state.tryComplete with
      | (state, true) => some (state, { worker with pc := .done candidate, completed := true })
      | (state, false) => some (state, { worker with pc := .readReason candidate })
  | .readReason candidate =>
      match state.reason with
      | none => some (state, { worker with pc := .done candidate })
      | some reason =>
          if carriesReason candidate reason then
            some (state, { worker with pc := .done candidate })
          else some (state, { worker with pc := .failOutcome })
  | .failOutcome =>
      match controlFailureOutcome state with
      | some outcome => some (state, { worker with pc := .done (.ok outcome) })
      -- the `expect`
      | none => some (state, { worker with pc := .panicked })
  | .done _ => none
  | .panicked => none

/-! ## §2  The interleaving -/

/-- A call of `cancel` from outside, before and after its compare-exchange. -/
inductive CancelCall where
  | calling
  | returned (won : Bool)
  deriving DecidableEq

def cancelStep (reason : CancelReason) (state : ControlState) :
    CancelCall → Option (ControlState × CancelCall)
  | .calling =>
      let (state, won) := state.cancel reason
      some (state, .returned won)
  | .returned _ => none

inductive JobThread (ι : Type) where
  | worker
  | caller (i : ι)
  deriving DecidableEq

/-- The worker of one job and its cancellers, one thread for each call. -/
def jobThreads (request : JobRequest ρ F) (reasons : ι → CancelReason) :
    Threads ControlState (JobThread ι) where
  Local
    | .worker => Worker ρ F
    | .caller _ => CancelCall
  step
    | .worker, state, worker, state', worker' =>
        workerStep request state worker = some (state', worker')
    | .caller i, state, call, state', call' =>
        cancelStep (reasons i) state call = some (state', call')

variable {request : JobRequest ρ F} {reasons : ι → CancelReason}

/-- A fresh control, a worker about to start, and no call made yet. -/
def jobInitial (request : JobRequest ρ F) (reasons : ι → CancelReason) :
    Config (jobThreads request reasons) where
  shared := .running
  locals
    | .worker => ⟨.validate, false, false⟩
    | .caller _ => .calling

/-- The worker of a configuration. -/
def workerOf (c : Config (jobThreads request reasons)) : Worker ρ F :=
  c.locals .worker

/-- A call of a configuration. -/
def callOf (c : Config (jobThreads request reasons)) (i : ι) : CancelCall :=
  c.locals (.caller i)

/-! ## §3  The race -/

/-- Who may leave `RUNNING`: a caller, the deadline of the worker, its completion. -/
inductive Winner (ι : Type) where
  | caller (i : ι)
  | deadline
  | completion

/-- What the winner wrote. -/
def Winner.wrote (reasons : ι → CancelReason) : Winner ι → ControlState
  | .caller i => (reasons i).terminal
  | .deadline => .deadline
  | .completion => .completed

def Won (c : Config (jobThreads request reasons)) : Winner ι → Prop
  | .caller i => callOf c i = .returned true
  | .deadline => (workerOf c).deadlineWon = true
  | .completion => (workerOf c).completed = true

/-- Nobody has won while the state is `RUNNING`, and after that exactly one has, who
wrote it. -/
structure Race (reasons : ι → CancelReason) (state : ControlState) (won : Winner ι → Prop) :
    Prop where
  unique : ∀ w w', won w → won w' → w = w'
  wrote : ∀ w, won w → state = w.wrote reasons
  running : state = .running → ∀ w, ¬ won w

variable {state : ControlState} {won won' : Winner ι → Prop}

theorem Winner.wrote_ne_running (w : Winner ι) : w.wrote reasons ≠ .running := by
  cases w with
  | caller i => exact ControlState.terminal_ne_running _
  | deadline => nofun
  | completion => nofun

theorem Race.keep (h : Race reasons state won) (hsame : ∀ w, won' w ↔ won w) :
    Race reasons state won' := by
  refine ⟨?_, ?_, ?_⟩
  · intro w w' hw hw'
    exact h.unique w w' ((hsame w).1 hw) ((hsame w').1 hw')
  · intro w hw
    exact h.wrote w ((hsame w).1 hw)
  · intro hrunning w hw
    exact h.running hrunning w ((hsame w).1 hw)

/-- The first compare-exchange. -/
theorem Race.win (h : Race reasons .running won) (winner : Winner ι)
    (hwinner : ∀ w, won' w ↔ won w ∨ w = winner) :
    Race reasons (winner.wrote reasons) won' := by
  have honly : ∀ w, won' w → w = winner := by
    intro w hw
    exact ((hwinner w).1 hw).resolve_left (h.running rfl w)
  refine ⟨?_, ?_, ?_⟩
  · intro w w' hw hw'
    rw [honly w hw, honly w' hw']
  · intro w hw
    rw [honly w hw]
  · intro hrunning
    exact absurd hrunning winner.wrote_ne_running

/-! ## §4  What the worker knows -/

/-- The commit has read a cancellation, and a returned outcome agrees with the state. -/
def PcLaw (state : ControlState) : WorkerPc ρ F → Prop
  | .readReason _ => state ≠ .running
  | .failOutcome => state.reason ≠ none
  | .done outcome => state = .completed ∨
      ∃ reason, state.reason = some reason ∧ carriesReason outcome reason = true
  | .panicked => False
  | _ => True

/-- **One step of the worker**: it leaves the race alone, or cancels at its deadline, or
completes. -/
theorem workerStep_cases {state' : ControlState} {worker worker' : Worker ρ F}
    (h : workerStep request state worker = some (state', worker'))
    (hlaw : PcLaw state worker.pc) :
    (state' = state ∧ worker'.deadlineWon = worker.deadlineWon ∧
        worker'.completed = worker.completed ∧ PcLaw state' worker'.pc) ∨
      (state = .running ∧ state' = .deadline ∧ worker'.deadlineWon = true ∧
        worker'.completed = worker.completed ∧ PcLaw state' worker'.pc) ∨
      (state = .running ∧ state' = .completed ∧
        worker'.deadlineWon = worker.deadlineWon ∧ worker'.completed = true ∧
        PcLaw state' worker'.pc) := by
  obtain ⟨pc, deadlineWon, completed⟩ := worker
  cases pc with
  | validate =>
      left
      unfold workerStep at h
      cases hvalidation : request.validationError <;> simp only [hvalidation] at h <;>
        cases h <;> exact ⟨rfl, rfl, rfl, trivial⟩
  | admission =>
      left
      unfold workerStep at h
      cases hfailure : (controlFailureOutcome state : Option (EngineOutcome ρ F)) <;>
        simp only [hfailure] at h <;> cases h
      · refine ⟨rfl, rfl, rfl, ?_⟩
        unfold admitted
        cases request.archiveIneligibility with
        | some reason => trivial
        | none => cases request.hasSettings <;> trivial
      · exact ⟨rfl, rfl, rfl, trivial⟩
  | computing computation =>
      left
      cases computation <;> cases h <;> exact ⟨rfl, rfl, rfl, trivial⟩
  | pollFirst expired next =>
      left
      unfold workerStep at h
      dsimp only at h
      split at h <;> cases h <;> exact ⟨rfl, rfl, rfl, trivial⟩
  | pollCancel next =>
      unfold workerStep ControlState.cancel at h
      rcases state.compareExchange_cases CancelReason.deadline.terminal with
        ⟨hrunning, hexchange⟩ | ⟨-, hexchange⟩
      · rw [hexchange] at h
        cases h
        exact .inr (.inl ⟨hrunning, rfl, Bool.or_true _, rfl, trivial⟩)
      · rw [hexchange] at h
        cases h
        exact .inl ⟨rfl, Bool.or_false _, rfl, trivial⟩
  | pollSecond next =>
      left
      cases h
      exact ⟨rfl, rfl, rfl, trivial⟩
  | tryComplete candidate =>
      unfold workerStep ControlState.tryComplete at h
      rcases state.compareExchange_cases .completed with
        ⟨hrunning, hexchange⟩ | ⟨hterminal, hexchange⟩
      · rw [hexchange] at h
        cases h
        exact .inr (.inr ⟨hrunning, rfl, rfl, rfl, .inl rfl⟩)
      · rw [hexchange] at h
        cases h
        exact .inl ⟨rfl, rfl, rfl, hterminal⟩
  | readReason candidate =>
      left
      unfold workerStep at h
      cases hreason : state.reason with
      | none =>
          simp only [hreason] at h
          cases h
          refine ⟨rfl, rfl, rfl, .inl ?_⟩
          -- not running and no reason: completed
          cases state with
          | running => exact absurd rfl hlaw
          | cancelled => cases hreason
          | deadline => cases hreason
          | completed => rfl
      | some reason =>
          simp only [hreason] at h
          split at h
          · next hcarries =>
            cases h
            exact ⟨rfl, rfl, rfl, .inr ⟨reason, hreason, hcarries⟩⟩
          · cases h
            refine ⟨rfl, rfl, rfl, ?_⟩
            unfold PcLaw
            rw [hreason]
            nofun
  | failOutcome =>
      left
      unfold workerStep at h
      obtain ⟨reason, hreason⟩ := Option.ne_none_iff_exists'.1 hlaw
      have hread : ∃ outcome : EngineOutcome ρ F,
          controlFailureOutcome state = some outcome := by
        unfold controlFailureOutcome
        rw [hreason]
        exact ⟨_, rfl⟩
      obtain ⟨outcome, houtcome⟩ := hread
      simp only [houtcome] at h
      cases h
      refine ⟨rfl, rfl, rfl, .inr ⟨reason, hreason, ?_⟩⟩
      have hcarried := outcomeCancelReason_of_controlFailureOutcome houtcome
      exact decide_eq_true (hcarried.trans hreason)
  | done outcome => cases h
  | panicked => cases h

/-- Before the race is decided the worker knows nothing. -/
theorem PcLaw.of_running {pc : WorkerPc ρ F} (h : PcLaw .running pc) (state : ControlState) :
    PcLaw state pc := by
  cases pc with
  | readReason candidate => exact absurd rfl h
  | failOutcome => exact absurd rfl h
  | done outcome =>
      rcases h with h | ⟨reason, h, -⟩
      · cases h
      · cases h
  | panicked => exact h
  | _ => trivial

/-! ## §5  Every run -/

structure JobConsistent (c : Config (jobThreads request reasons)) : Prop where
  race : Race reasons c.shared (Won c)
  law : PcLaw c.shared (workerOf c).pc

theorem jobConsistent_initial : JobConsistent (jobInitial request reasons) := by
  refine ⟨⟨?_, ?_, ?_⟩, trivial⟩
  · intro w w' hw
    cases w <;> cases hw
  · intro w hw
    cases w <;> cases hw
  · intro _ w hw
    cases w <;> cases hw

/-- A step of the worker. -/
theorem JobConsistent.worker {c c' : Config (jobThreads request reasons)}
    (h : JobConsistent c) (hcalls : ∀ i, callOf c' i = callOf c i)
    (hstep : workerStep request c.shared (workerOf c) = some (c'.shared, workerOf c')) :
    JobConsistent c' := by
  have hcaller : ∀ i, Won c' (.caller i) ↔ Won c (.caller i) := by
    intro i
    unfold Won
    dsimp only
    rw [hcalls]
  obtain ⟨hrace, hlaw⟩ := h
  rcases workerStep_cases hstep hlaw with
    ⟨hstate, hdeadline, hcompleted, hlaw'⟩ | ⟨hrunning, hstate, hdeadline, hcompleted, hlaw'⟩ |
      ⟨hrunning, hstate, hdeadline, hcompleted, hlaw'⟩
  · refine ⟨?_, hlaw'⟩
    rw [hstate]
    refine hrace.keep ?_
    intro w
    cases w with
    | caller i => exact hcaller i
    | deadline => exact Bool.coe_iff_coe.2 hdeadline
    | completion => exact Bool.coe_iff_coe.2 hcompleted
  · refine ⟨?_, hlaw'⟩
    rw [hrunning] at hrace
    rw [hstate]
    refine hrace.win .deadline ?_
    intro w
    cases w with
    | caller i =>
        rw [hcaller]
        exact ⟨.inl, fun hw => hw.resolve_right nofun⟩
    | deadline => exact ⟨fun _ => .inr rfl, fun _ => hdeadline⟩
    | completion =>
        have hsame : Won c' .completion ↔ Won c .completion := Bool.coe_iff_coe.2 hcompleted
        rw [hsame]
        exact ⟨.inl, fun hw => hw.resolve_right nofun⟩
  · refine ⟨?_, hlaw'⟩
    rw [hrunning] at hrace
    rw [hstate]
    refine hrace.win .completion ?_
    intro w
    cases w with
    | caller i =>
        rw [hcaller]
        exact ⟨.inl, fun hw => hw.resolve_right nofun⟩
    | deadline =>
        have hsame : Won c' .deadline ↔ Won c .deadline := Bool.coe_iff_coe.2 hdeadline
        rw [hsame]
        exact ⟨.inl, fun hw => hw.resolve_right nofun⟩
    | completion => exact ⟨fun _ => .inr rfl, fun _ => hcompleted⟩

/-- A step of one caller. -/
theorem JobConsistent.caller {c c' : Config (jobThreads request reasons)} {i : ι}
    (h : JobConsistent c) (hworker : workerOf c' = workerOf c)
    (hcalls : ∀ j, j ≠ i → callOf c' j = callOf c j)
    (hstep : cancelStep (reasons i) c.shared (callOf c i) = some (c'.shared, callOf c' i)) :
    JobConsistent c' := by
  have hflags : (Won c' .deadline ↔ Won c .deadline) ∧
      (Won c' .completion ↔ Won c .completion) := by
    unfold Won
    dsimp only
    rw [hworker]
    exact ⟨.rfl, .rfl⟩
  have hother : ∀ j, j ≠ i → (Won c' (.caller j) ↔ Won c (.caller j)) := by
    intro j hj
    unfold Won
    dsimp only
    rw [hcalls j hj]
  obtain ⟨hrace, hlaw⟩ := h
  cases hcall : callOf c i with
  | returned won =>
      rw [hcall] at hstep
      cases hstep
  | calling =>
      rw [hcall] at hstep
      unfold cancelStep ControlState.cancel at hstep
      have hnone : ¬ Won c (.caller i) := by
        intro hwon
        cases hcall.symm.trans hwon
      rcases c.shared.compareExchange_cases (reasons i).terminal with
        ⟨hrunning, hexchange⟩ | ⟨-, hexchange⟩
      · rw [hexchange] at hstep
        obtain ⟨hstate, hwon⟩ := Prod.mk.inj (Option.some.inj hstep)
        rw [hrunning] at hrace hlaw
        refine ⟨?_, ?_⟩
        · rw [← hstate]
          refine hrace.win (.caller i) ?_
          intro w
          cases w with
          | caller j =>
              by_cases hj : j = i
              · subst hj
                exact ⟨fun _ => .inr rfl, fun _ => hwon.symm⟩
              · rw [hother j hj]
                exact ⟨.inl, fun hw => hw.resolve_right fun heq =>
                  hj (Winner.caller.inj heq)⟩
          | deadline =>
              rw [hflags.1]
              exact ⟨.inl, fun hw => hw.resolve_right nofun⟩
          | completion =>
              rw [hflags.2]
              exact ⟨.inl, fun hw => hw.resolve_right nofun⟩
        · rw [hworker]
          exact hlaw.of_running _
      · rw [hexchange] at hstep
        obtain ⟨hstate, hlost⟩ := Prod.mk.inj (Option.some.inj hstep)
        refine ⟨?_, ?_⟩
        · rw [← hstate]
          refine hrace.keep ?_
          intro w
          cases w with
          | caller j =>
              by_cases hj : j = i
              · subst hj
                refine ⟨fun hw => ?_, fun hw => absurd hw hnone⟩
                cases hlost.trans hw
              · exact hother j hj
          | deadline => exact hflags.1
          | completion => exact hflags.2
        · rw [← hstate, hworker]
          exact hlaw

/-- The job succeeded. -/
def reportsSuccess : JobResult ρ F → Bool
  | .ok (.success _ _) => true
  | _ => false

theorem carriesReason_of_reportsSuccess {outcome : JobResult ρ F} (reason : CancelReason)
    (h : reportsSuccess outcome = true) : carriesReason outcome reason = false := by
  rcases outcome with error | (⟨result, diagnostics⟩ | ⟨error, diagnostics⟩ | _)
  · cases h
  · rfl
  · cases h
  · cases h

theorem failure_of_carriesReason {outcome : JobResult ρ F} {reason : CancelReason}
    (h : carriesReason outcome reason = true) :
    ∃ error diagnostics, outcome = .ok (.failure error diagnostics) ∧
      outcomeCancelReason (.failure error diagnostics : EngineOutcome ρ F) = some reason := by
  rcases outcome with error | (_ | ⟨error, diagnostics⟩ | _)
  · cases h
  · cases h
  · exact ⟨error, diagnostics, rfl, of_decide_eq_true h⟩
  · cases h

/-- A cancellation that won decides the outcome. -/
theorem JobConsistent.outcome_of_won {c : Config (jobThreads request reasons)}
    (h : JobConsistent c) {w : Winner ι} {reason : CancelReason} (hwon : Won c w)
    (hwrote : w.wrote reasons = reason.terminal) {outcome : JobResult ρ F}
    (hdone : (workerOf c).pc = .done outcome) : carriesReason outcome reason = true := by
  have hstate := (h.race.wrote w hwon).trans hwrote
  have hlaw := h.law
  rw [hdone, hstate] at hlaw
  rcases hlaw with hcompleted | ⟨read, hread, hcarries⟩
  · exact absurd hcompleted (ControlState.terminal_ne_completed reason)
  · rw [ControlState.reason_terminal] at hread
    rw [Option.some.inj hread]
    exact hcarries

variable [DecidableEq ι]

/-- **Every step of every thread keeps the job consistent.** -/
theorem JobConsistent.step {c c' : Config (jobThreads request reasons)}
    (h : JobConsistent c) (hstep : Step c c') : JobConsistent c' := by
  obtain ⟨thread, hthread, hothers⟩ := hstep.thread
  cases thread with
  | worker => exact h.worker (fun i => hothers (.caller i) (by nofun)) hthread
  | caller i =>
      refine h.caller (hothers .worker (by nofun)) ?_ hthread
      intro j hj
      exact hothers (.caller j) fun heq => hj (JobThread.caller.inj heq)

theorem jobConsistent_steps {c : Config (jobThreads request reasons)}
    (hrun : Steps (jobInitial request reasons) c) : JobConsistent c :=
  steps_induct (fun _ _ => JobConsistent.step) jobConsistent_initial hrun

/-- An outcome is final. -/
theorem done_steps {c c' : Config (jobThreads request reasons)} {outcome : JobResult ρ F}
    (hdone : (workerOf c).pc = .done outcome) (hrun : Steps c c') :
    (workerOf c').pc = .done outcome := by
  refine steps_induct (P := fun c => (workerOf c).pc = .done outcome) ?_ hdone hrun
  intro a b ha hstep
  obtain ⟨thread, hthread, hothers⟩ := hstep.thread
  cases thread with
  | worker =>
      have hnone : workerStep request a.shared (workerOf a) = none := by
        unfold workerStep
        rw [ha]
      cases hnone.symm.trans hthread
  | caller i =>
      have hsame : workerOf b = workerOf a := hothers .worker (by nofun)
      rw [hsame]
      exact ha

/-- **Commit against cancellation.**  In every run: one winner at most; a cancel that
returned true, or the deadline of the worker, gives its reason to the outcome; after a
success no cancel returns true, then or later; and the `expect` is never reached. -/
theorem terminalCommit_consistent {c : Config (jobThreads request reasons)}
    (hrun : Steps (jobInitial request reasons) c) :
    (∀ w w', Won c w → Won c w' → w = w') ∧
      (∀ i outcome, callOf c i = .returned true → (workerOf c).pc = .done outcome →
        ∃ error diagnostics, outcome = .ok (.failure error diagnostics) ∧
          outcomeCancelReason (.failure error diagnostics : EngineOutcome ρ F) =
            some (reasons i)) ∧
      (∀ outcome, (workerOf c).deadlineWon = true → (workerOf c).pc = .done outcome →
        ∃ error diagnostics, outcome = .ok (.failure error diagnostics) ∧
          outcomeCancelReason (.failure error diagnostics : EngineOutcome ρ F) =
            some .deadline) ∧
      (∀ outcome, (workerOf c).pc = .done outcome → reportsSuccess outcome = true →
        ∀ c', Steps c c' → ∀ i won, callOf c' i = .returned won → won = false) ∧
      (workerOf c).pc ≠ .panicked := by
  have h := jobConsistent_steps hrun
  refine ⟨h.race.unique, ?_, ?_, ?_, ?_⟩
  · intro i outcome hwon hdone
    exact failure_of_carriesReason (h.outcome_of_won (w := .caller i) hwon rfl hdone)
  · intro outcome hwon hdone
    have hwrote : Winner.wrote reasons .deadline = CancelReason.deadline.terminal := rfl
    exact failure_of_carriesReason (h.outcome_of_won (w := .deadline) hwon hwrote hdone)
  · intro outcome hdone hsuccess c' hlater i won hreturned
    cases won with
    | false => rfl
    | true =>
        have hcarries := (jobConsistent_steps (hrun.trans hlater)).outcome_of_won
          (w := .caller i) hreturned rfl (done_steps hdone hlater)
        rw [carriesReason_of_reportsSuccess _ hsuccess] at hcarries
        cases hcarries
  · intro hpanicked
    have hlaw := h.law
    rw [hpanicked] at hlaw
    exact hlaw

/-- A request whose computation polls once, and aborts when it is told to. -/
def pollOnce : JobRequest Unit Unit where
  validationError := none
  archiveIneligibility := none
  hasSettings := true
  computation := .poll false fun answer =>
    match answer with
    | none => .ended (.success ()) {}
    | some reason => .ended (.error (.nfpIfpControlAbort reason "cancelled")) {}

/-- A job with one caller. -/
def jobWithCaller (state : ControlState) (pc : WorkerPc Unit Unit) (call : CancelCall) :
    Config (jobThreads pollOnce fun _ : Unit => .cancelled) where
  shared := state
  locals
    | .worker => ⟨pc, false, false⟩
    | .caller _ => call

theorem jobWithCaller_worker {state : ControlState} {pc pc' : WorkerPc Unit Unit}
    {call : CancelCall}
    (h : workerStep pollOnce state ⟨pc, false, false⟩ = some (state, ⟨pc', false, false⟩)) :
    Step (jobWithCaller state pc call) (jobWithCaller state pc' call) := by
  refine ⟨.worker, state, ⟨pc', false, false⟩, h, ?_⟩
  unfold jobWithCaller
  congr 1
  funext thread
  cases thread <;> rfl

theorem jobWithCaller_caller {state state' : ControlState} {pc : WorkerPc Unit Unit}
    {call call' : CancelCall} (h : cancelStep .cancelled state call = some (state', call')) :
    Step (jobWithCaller state pc call) (jobWithCaller state' pc call') := by
  refine ⟨.caller (), state', call', h, ?_⟩
  unfold jobWithCaller
  congr 1
  funext thread
  cases thread <;> rfl

/-- The caller cancels between the two reads of the poll. -/
theorem terminalCommit_consistent_pollOnce :
    ∃ c : Config (jobThreads pollOnce fun _ : Unit => .cancelled),
      Steps (jobInitial pollOnce fun _ : Unit => .cancelled) c ∧
        ∃ outcome, (workerOf c).pc = .done outcome ∧ callOf c () = .returned true ∧
          ∃ error diagnostics, outcome = .ok (.failure error diagnostics) ∧
            outcomeCancelReason (.failure error diagnostics : EngineOutcome Unit Unit) =
              some .cancelled := by
  have hstart : jobInitial pollOnce (fun _ : Unit => CancelReason.cancelled) =
      jobWithCaller .running .validate .calling := by
    unfold jobInitial jobWithCaller
    congr 1
    funext thread
    cases thread <;> rfl
  have hrun : ∃ outcome, Steps (jobInitial pollOnce fun _ : Unit => .cancelled)
      (jobWithCaller .cancelled (.done outcome) (.returned true)) := by
    rw [hstart]
    refine ⟨_, Relation.ReflTransGen.refl |>.tail (jobWithCaller_worker rfl)
      |>.tail (jobWithCaller_worker rfl) |>.tail (jobWithCaller_worker rfl)
      |>.tail (jobWithCaller_worker rfl) |>.tail (jobWithCaller_caller rfl)
      |>.tail (jobWithCaller_worker rfl) |>.tail (jobWithCaller_worker rfl)
      |>.tail (jobWithCaller_worker rfl) |>.tail (jobWithCaller_worker rfl)⟩
  obtain ⟨outcome, hsteps⟩ := hrun
  exact ⟨_, hsteps, outcome, rfl, rfl,
    (terminalCommit_consistent hsteps).2.1 () outcome rfl rfl⟩

end PolygonNesting
