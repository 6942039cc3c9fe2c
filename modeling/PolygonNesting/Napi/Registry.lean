import PolygonNesting.Job.Control
import PolygonNesting.Lib.Interleaving

/-!
# The cancellation registry and the lifecycle of jobs

Every native job registers a fresh lease under its token, runs, and removes the lease
when the guard of its lifecycle is dropped; the cleanup hook of its environment may
remove it earlier.  Callers look a token up and cancel what they find.

A lease is named by its job, so that tokens may be used again.  Each operation on the
registry is one step, as it holds the lock, and so is each operation on a control.  What
the callbacks of a job return is part of its plan; during `execute` a job may cancel or
complete its own control any number of times.
-/

namespace PolygonNesting.Napi

open Interleaving

/-! ## §1  The registry -/

/-- `J` names the jobs.  `hooked` says that the environment would still call the cleanup
hook of the job. -/
structure RegistryState (J : Type) where
  leases : String → Option J
  control : J → ControlState
  fired : J → Bool
  hooked : J → Bool

namespace RegistryState

variable {J : Type} [DecidableEq J]

def new : RegistryState J where
  leases _ := none
  control _ := .running
  fired _ := false
  hooked _ := false

/-- `register`: `true` when the token was vacant. -/
def register (state : RegistryState J) (token : String) (job : J) : RegistryState J × Bool :=
  match state.leases token with
  | none => ({ state with leases := Function.update state.leases token (some job) }, true)
  | some _ => (state, false)

/-- `remove_if_current`. -/
def removeIfCurrent (state : RegistryState J) (token : String) (job : J) : RegistryState J :=
  if state.leases token = some job then
    { state with leases := Function.update state.leases token none }
  else state

/-- `cancel` on the control of one lease. -/
def cancelLease (state : RegistryState J) (job : J) (reason : CancelReason) :
    RegistryState J :=
  { state with control :=
      Function.update state.control job ((state.control job).cancel reason).1 }

end RegistryState

/-- `cancellation_reason_from_wire`. -/
def cancellationReasonFromWire (reason : String) : Option CancelReason :=
  if reason = "cancelled" then some .cancelled
  else if reason = "timeout" then some .deadline
  else none

/-! ## §2  The lifecycle of a job -/

/-- What the terminal callback does. -/
inductive TerminalReturn where
  | ok
  | status (status : String)
  | panicked
  deriving DecidableEq

/-- The token of a job, and what its callbacks do; an `execute` that panics returns
nothing. -/
structure JobPlan where
  token : String
  hookRegisters : Bool
  execute : Option String
  terminal : TerminalReturn

/-- The text that `run_lifecycle` resolves to, by its projection. -/
inductive Resolved where
  | output (text : String)
  | panic (operation : String)
  | deliveryFailure (status : String)
  deriving DecidableEq

inductive LifecycleEvent where
  | executed
  | terminal
  deriving DecidableEq

/-- The next operation of a job: `run_irregular_job`, `run_lifecycle`, `finally`. -/
inductive LifecyclePc where
  | register
  | registerHook
  | unregister
  | rejected
  | execute
  | terminal (resolved : Resolved)
  | dropGuard (resolved : Resolved)
  | readFired (resolved : Resolved)
  | removeHook (resolved : Resolved)
  | finished (resolved : Resolved)
  deriving DecidableEq

/-- A job, and which of its callbacks have run, in order. -/
structure Lifecycle where
  pc : LifecyclePc
  log : List LifecycleEvent
  deriving DecidableEq

/-- The lifecycle of the job has returned, or never started. -/
def LifecyclePc.ended : LifecyclePc → Bool
  | .rejected | .readFired _ | .removeHook _ | .finished _ => true
  | _ => false

def resolveExecute (plan : JobPlan) : Resolved :=
  match plan.execute with
  | some text => .output text
  | none => .panic "runIrregularJob"

def resolveTerminal (plan : JobPlan) (resolved : Resolved) : Resolved :=
  match plan.terminal with
  | .ok => resolved
  | .status status => .deliveryFailure status
  | .panicked => .panic "runIrregularJob"

variable {J K : Type} [DecidableEq J]

/-- One operation of a job. -/
inductive LifecycleStep (plan : JobPlan) (job : J) :
    RegistryState J → Lifecycle → RegistryState J → Lifecycle → Prop
  | registered {state state' : RegistryState J} {log : List LifecycleEvent}
      (h : state.register plan.token job = (state', true)) :
      LifecycleStep plan job state ⟨.register, log⟩ state' ⟨.registerHook, log⟩
  | occupied {state state' : RegistryState J} {log : List LifecycleEvent}
      (h : state.register plan.token job = (state', false)) :
      LifecycleStep plan job state ⟨.register, log⟩ state' ⟨.rejected, log⟩
  | hooked {state : RegistryState J} {log : List LifecycleEvent}
      (h : plan.hookRegisters = true) :
      LifecycleStep plan job state ⟨.registerHook, log⟩
        { state with hooked := Function.update state.hooked job true } ⟨.execute, log⟩
  | unhooked {state : RegistryState J} {log : List LifecycleEvent}
      (h : plan.hookRegisters = false) :
      LifecycleStep plan job state ⟨.registerHook, log⟩ state ⟨.unregister, log⟩
  | unregister {state : RegistryState J} {log : List LifecycleEvent} :
      LifecycleStep plan job state ⟨.unregister, log⟩
        (state.removeIfCurrent plan.token job) ⟨.rejected, log⟩
  -- the running engine polls its control, and completes or cancels it
  | deadline {state : RegistryState J} {log : List LifecycleEvent} :
      LifecycleStep plan job state ⟨.execute, log⟩ (state.cancelLease job .deadline)
        ⟨.execute, log⟩
  | complete {state : RegistryState J} {log : List LifecycleEvent} :
      LifecycleStep plan job state ⟨.execute, log⟩
        { state with control :=
            Function.update state.control job (state.control job).tryComplete.1 }
        ⟨.execute, log⟩
  | executed {state : RegistryState J} {log : List LifecycleEvent} :
      LifecycleStep plan job state ⟨.execute, log⟩ state
        ⟨.terminal (resolveExecute plan), log ++ [.executed]⟩
  | terminal {state : RegistryState J} {log : List LifecycleEvent} {resolved : Resolved} :
      LifecycleStep plan job state ⟨.terminal resolved, log⟩ state
        ⟨.dropGuard (resolveTerminal plan resolved), log ++ [.terminal]⟩
  | dropGuard {state : RegistryState J} {log : List LifecycleEvent} {resolved : Resolved} :
      LifecycleStep plan job state ⟨.dropGuard resolved, log⟩
        (state.removeIfCurrent plan.token job) ⟨.readFired resolved, log⟩
  | fired {state : RegistryState J} {log : List LifecycleEvent} {resolved : Resolved}
      (h : state.fired job = true) :
      LifecycleStep plan job state ⟨.readFired resolved, log⟩ state ⟨.finished resolved, log⟩
  | notFired {state : RegistryState J} {log : List LifecycleEvent} {resolved : Resolved}
      (h : state.fired job = false) :
      LifecycleStep plan job state ⟨.readFired resolved, log⟩ state ⟨.removeHook resolved, log⟩
  | hookRemoved {state : RegistryState J} {log : List LifecycleEvent} {resolved : Resolved} :
      LifecycleStep plan job state ⟨.removeHook resolved, log⟩
        { state with hooked := Function.update state.hooked job false } ⟨.finished resolved, log⟩
  | hookKept {state : RegistryState J} {log : List LifecycleEvent} {resolved : Resolved} :
      LifecycleStep plan job state ⟨.removeHook resolved, log⟩ state ⟨.finished resolved, log⟩

/-! ## §3  Cleanup hooks and callers -/

/-- The next operation of a cleanup hook. -/
inductive HookPc where
  | swap
  | cancel
  | removeLease
  | done
  deriving DecidableEq

/-- `TerminalCleanupHookData::cleanup`, once the environment calls it; closing the latch
does not touch the registry. -/
def hookStep (token : String) (job : J) (state : RegistryState J) :
    HookPc → Option (RegistryState J × HookPc)
  | .swap =>
      if state.hooked job then
        if state.fired job then some (state, .done)
        else some ({ state with fired := Function.update state.fired job true }, .cancel)
      else none
  | .cancel => some (state.cancelLease job .cancelled, .removeLease)
  | .removeLease => some (state.removeIfCurrent token job, .done)
  | .done => none

/-- A call of `cancelIrregularJob`. -/
structure CancelRequest where
  token : String
  reason : String

/-- The next operation of a caller. -/
inductive CallerPc (J : Type) where
  | parse
  | lookup (reason : CancelReason)
  | apply (job : J) (reason : CancelReason)
  | returned (found : Bool)
  deriving DecidableEq

def callerStep (call : CancelRequest) (state : RegistryState J) :
    CallerPc J → Option (RegistryState J × CallerPc J)
  | .parse =>
      match cancellationReasonFromWire call.reason with
      | none => some (state, .returned false)
      | some reason => some (state, .lookup reason)
  | .lookup reason =>
      match state.leases call.token with
      | none => some (state, .returned false)
      | some job => some (state, .apply job reason)
  | .apply job reason => some (state.cancelLease job reason, .returned true)
  | .returned _ => none

/-! ## §4  The interleaving -/

inductive RegistryThread (J K : Type) where
  | job (job : J)
  | hook (job : J)
  | caller (call : K)
  deriving DecidableEq

/-- Jobs, their hooks, and any family of callers. -/
def registryThreads (plans : J → JobPlan) (calls : K → CancelRequest) :
    Threads (RegistryState J) (RegistryThread J K) where
  Local
    | .job _ => Lifecycle
    | .hook _ => HookPc
    | .caller _ => CallerPc J
  step
    | .job job, state, local', state', next =>
        LifecycleStep (plans job) job state local' state' next
    | .hook job, state, pc, state', pc' =>
        hookStep (plans job).token job state pc = some (state', pc')
    | .caller call, state, pc, state', pc' =>
        callerStep (calls call) state pc = some (state', pc')

variable {plans : J → JobPlan} {calls : K → CancelRequest}

/-- An empty registry; no job registered and no call made. -/
def registryInitial (plans : J → JobPlan) (calls : K → CancelRequest) :
    Config (registryThreads plans calls) where
  shared := .new
  locals
    | .job _ => ⟨.register, []⟩
    | .hook _ => .swap
    | .caller _ => .parse

def lifecycleOf (c : Config (registryThreads plans calls)) (job : J) : Lifecycle :=
  c.locals (.job job)

def callerOf (c : Config (registryThreads plans calls)) (call : K) : CallerPc J :=
  c.locals (.caller call)

def hookOf (c : Config (registryThreads plans calls)) (job : J) : HookPc :=
  c.locals (.hook job)

/-! ## §5  Who changes which lease -/

/-- The job on whose behalf a thread runs. -/
def RegistryThread.owner : RegistryThread J K → Option J
  | .job name => some name
  | .hook name => some name
  | .caller _ => none

section
variable {state state' : RegistryState J} {token : String} {job other : J}

theorem removeIfCurrent_leases (t : String) :
    (state.removeIfCurrent token job).leases t =
      if t = token ∧ state.leases token = some job then none else state.leases t := by
  unfold RegistryState.removeIfCurrent
  by_cases hcurrent : state.leases token = some job
  · rw [if_pos hcurrent]
    by_cases ht : t = token
    · rw [if_pos ⟨ht, hcurrent⟩, ht]
      exact Function.update_self ..
    · rw [if_neg fun h => ht h.1]
      exact Function.update_of_ne ht ..
  · rw [if_neg hcurrent, if_neg fun h => hcurrent h.2]

/-- What is still there after a removal was there before. -/
theorem leases_of_removeIfCurrent {t : String}
    (h : (state.removeIfCurrent token job).leases t = some other) :
    state.leases t = some other ∧ ¬ (t = token ∧ other = job) := by
  rw [removeIfCurrent_leases] at h
  split at h
  · cases h
  · next hkept =>
    refine ⟨h, ?_⟩
    rintro ⟨rfl, rfl⟩
    exact hkept ⟨rfl, h⟩

/-- **A removal leaves the leases of other jobs alone.** -/
theorem removeIfCurrent_other (hother : other ≠ job) (t : String) :
    (state.removeIfCurrent token job).leases t = some other ↔
      state.leases t = some other := by
  refine ⟨fun h => (leases_of_removeIfCurrent h).1, fun h => ?_⟩
  rw [removeIfCurrent_leases, if_neg]
  · exact h
  · rintro ⟨rfl, hcurrent⟩
    exact hother (Option.some.inj (h.symm.trans hcurrent))

omit [DecidableEq J] in
theorem register_cases (state : RegistryState J) (token : String) (job : J) :
    (state.leases token = none ∧ state.register token job =
        ({ state with leases := Function.update state.leases token (some job) }, true)) ∨
      state.register token job = (state, false) := by
  unfold RegistryState.register
  cases hlease : state.leases token with
  | none => exact .inl ⟨rfl, rfl⟩
  | some held => exact .inr rfl

/-- A step of a job changes its own lease only. -/
theorem LifecycleStep.leases_other {plan : JobPlan} {local' next : Lifecycle}
    (h : LifecycleStep plan job state local' state' next) (hother : other ≠ job)
    (t : String) : state'.leases t = some other ↔ state.leases t = some other := by
  cases h with
  | registered hregister =>
      rcases register_cases state plan.token job with ⟨hvacant, hnew⟩ | hsame
      · obtain ⟨rfl, -⟩ := Prod.mk.inj (hregister.symm.trans hnew)
        dsimp only
        by_cases ht : t = plan.token
        · rw [ht, Function.update_self, hvacant]
          exact ⟨fun heq => absurd (Option.some.inj heq).symm hother, nofun⟩
        · rw [Function.update_of_ne ht]
      · cases (Prod.mk.inj (hregister.symm.trans hsame)).2
  | occupied hregister =>
      rcases register_cases state plan.token job with ⟨-, hnew⟩ | hsame
      · cases (Prod.mk.inj (hregister.symm.trans hnew)).2
      · obtain ⟨rfl, -⟩ := Prod.mk.inj (hregister.symm.trans hsame)
        exact .rfl
  | unregister => exact removeIfCurrent_other hother t
  | dropGuard => exact removeIfCurrent_other hother t
  | _ => exact .rfl

/-- The lease of a job whose hook moves may go, and nothing else changes. -/
theorem hookStep_leases {pc pc' : HookPc} (h : hookStep token job state pc = some (state', pc')) :
    state'.leases = state.leases ∨
      state'.leases = (state.removeIfCurrent token job).leases := by
  cases pc with
  | swap =>
      unfold hookStep at h
      dsimp only at h
      split at h
      · split at h <;> cases h <;> exact .inl rfl
      · cases h
  | cancel =>
      cases h
      exact .inl rfl
  | removeLease =>
      cases h
      exact .inr rfl
  | done => cases h

/-- A caller changes the control of the lease it found and nothing else. -/
theorem callerStep_shared {call : CancelRequest} {pc pc' : CallerPc J}
    (h : callerStep call state pc = some (state', pc')) :
    (state' = state ∧ pc' ≠ .returned true) ∨
      ∃ job reason, pc = .apply job reason ∧ state' = state.cancelLease job reason ∧
        pc' = .returned true := by
  cases pc with
  | parse =>
      unfold callerStep at h
      dsimp only at h
      split at h <;> cases h <;> exact .inl ⟨rfl, nofun⟩
  | lookup reason =>
      unfold callerStep at h
      dsimp only at h
      split at h <;> cases h <;> exact .inl ⟨rfl, nofun⟩
  | apply job reason =>
      cases h
      exact .inr ⟨job, reason, rfl, rfl, rfl⟩
  | returned found => cases h

end

/-- **No thread touches the lease of a job it does not run for.** -/
theorem stepBy_leases_other {c c' : Config (registryThreads plans calls)}
    {thread : RegistryThread J K} (h : StepBy thread c c') {other : J}
    (hother : thread.owner ≠ some other) (token : String) :
    c'.shared.leases token = some other ↔ c.shared.leases token = some other := by
  obtain ⟨hthread, -⟩ := h
  cases thread with
  | job job =>
      have hne : other ≠ job := by
        rintro rfl
        exact hother rfl
      exact LifecycleStep.leases_other hthread hne token
  | hook job =>
      have hne : other ≠ job := by
        rintro rfl
        exact hother rfl
      rcases hookStep_leases hthread with hsame | hremoved
      · rw [hsame]
      · rw [hremoved]
        exact removeIfCurrent_other hne token
  | caller call =>
      rcases callerStep_shared hthread with ⟨hsame, -⟩ | ⟨job, reason, -, hcancelled, -⟩
      · rw [hsame]
      · rw [hcancelled]
        rfl

/-! ## §6  Every run -/

/-- The job holds its lease, or is about to give it back. -/
def LifecyclePc.holding : LifecyclePc → Bool
  | .register => false
  | pc => !pc.ended

/-- The callbacks that have run when a job stands at its program counter. -/
def LifecyclePc.log : LifecyclePc → List LifecycleEvent
  | .register | .registerHook | .unregister | .rejected | .execute => []
  | .terminal _ => [.executed]
  | .dropGuard _ | .readFired _ | .removeHook _ | .finished _ => [.executed, .terminal]

/-- A lease is registered under the token of its job while the job holds it. -/
structure RegistryConsistent (c : Config (registryThreads plans calls)) : Prop where
  held : ∀ token job, c.shared.leases token = some job →
    (plans job).token = token ∧ (lifecycleOf c job).pc.holding = true
  logged : ∀ job, (lifecycleOf c job).log = (lifecycleOf c job).pc.log

theorem registryConsistent_initial :
    RegistryConsistent (registryInitial plans calls) := by
  refine ⟨?_, fun _ => rfl⟩
  intro token job h
  cases h

/-- A job keeps its lease for as long as it holds it. -/
theorem LifecycleStep.held {state state' : RegistryState J} {plan : JobPlan} {job : J}
    {local' next : Lifecycle} (h : LifecycleStep plan job state local' state' next)
    (hheld : ∀ token, state.leases token = some job →
      plan.token = token ∧ local'.pc.holding = true) :
    ∀ token, state'.leases token = some job →
      plan.token = token ∧ next.pc.holding = true := by
  intro token hlease
  cases h with
  | registered hregister =>
      rcases register_cases state plan.token job with ⟨-, hnew⟩ | hsame
      · obtain ⟨rfl, -⟩ := Prod.mk.inj (hregister.symm.trans hnew)
        dsimp only at hlease
        by_cases ht : token = plan.token
        · exact ⟨ht.symm, rfl⟩
        · rw [Function.update_of_ne ht] at hlease
          cases (hheld token hlease).2
      · cases (Prod.mk.inj (hregister.symm.trans hsame)).2
  | occupied hregister =>
      rcases register_cases state plan.token job with ⟨-, hnew⟩ | hsame
      · cases (Prod.mk.inj (hregister.symm.trans hnew)).2
      · obtain ⟨rfl, -⟩ := Prod.mk.inj (hregister.symm.trans hsame)
        cases (hheld token hlease).2
  | unregister =>
      obtain ⟨hbefore, hkept⟩ := leases_of_removeIfCurrent hlease
      exact absurd ⟨(hheld token hbefore).1.symm, rfl⟩ hkept
  | dropGuard =>
      obtain ⟨hbefore, hkept⟩ := leases_of_removeIfCurrent hlease
      exact absurd ⟨(hheld token hbefore).1.symm, rfl⟩ hkept
  | fired => cases (hheld token hlease).2
  | notFired => cases (hheld token hlease).2
  | hookRemoved => cases (hheld token hlease).2
  | hookKept => cases (hheld token hlease).2
  | _ => exact ⟨(hheld token hlease).1, rfl⟩

theorem LifecycleStep.logged {state state' : RegistryState J} {plan : JobPlan} {job : J}
    {local' next : Lifecycle} (h : LifecycleStep plan job state local' state' next)
    (hlog : local'.log = local'.pc.log) : next.log = next.pc.log := by
  cases h <;> first | exact hlog | (dsimp only at hlog; subst hlog; rfl)

variable [DecidableEq K]

/-- **Every step keeps the registry consistent.** -/
theorem RegistryConsistent.step {c c' : Config (registryThreads plans calls)}
    (h : RegistryConsistent c) (hstep : Step c c') : RegistryConsistent c' := by
  obtain ⟨thread, hthread⟩ := hstep.thread
  have hleases : ∀ other, thread.owner ≠ some other → ∀ token,
      c'.shared.leases token = some other ↔ c.shared.leases token = some other :=
    fun other hother token => stepBy_leases_other hthread hother token
  obtain ⟨hmove, hothers⟩ := hthread
  cases thread with
  | job job =>
      have hlocal : ∀ other, other ≠ job → lifecycleOf c' other = lifecycleOf c other :=
        fun other hother =>
          hothers (.job other) fun heq => hother (RegistryThread.job.inj heq)
      refine ⟨?_, ?_⟩
      · intro token other hlease
        by_cases hother : other = job
        · subst hother
          exact LifecycleStep.held hmove (fun token => h.held token other) token hlease
        · rw [hleases other (fun heq => hother (Option.some.inj heq).symm)] at hlease
          rw [hlocal other hother]
          exact h.held token other hlease
      · intro other
        by_cases hother : other = job
        · subst hother
          exact LifecycleStep.logged hmove (h.logged other)
        · rw [hlocal other hother]
          exact h.logged other
  | hook job =>
      have hlocal : ∀ other, lifecycleOf c' other = lifecycleOf c other :=
        fun other => hothers (.job other) nofun
      refine ⟨?_, fun other => by rw [hlocal]; exact h.logged other⟩
      intro token other hlease
      rw [hlocal]
      rcases hookStep_leases hmove with hsame | hremoved
      · rw [hsame] at hlease
        exact h.held token other hlease
      · rw [hremoved] at hlease
        exact h.held token other (leases_of_removeIfCurrent hlease).1
  | caller call =>
      have hlocal : ∀ other, lifecycleOf c' other = lifecycleOf c other :=
        fun other => hothers (.job other) nofun
      refine ⟨?_, fun other => by rw [hlocal]; exact h.logged other⟩
      intro token other hlease
      rw [hleases other nofun] at hlease
      rw [hlocal]
      exact h.held token other hlease

/-- Where a call of `cancel` stands has a past: a lease it carries was found under its
token, and a call that returned true cancelled such a lease and nothing else. -/
def CallerPast (c : Config (registryThreads plans calls)) (call : K) : Prop :=
  match callerOf c call with
  | .parse => True
  | .lookup reason => cancellationReasonFromWire (calls call).reason = some reason
  | .apply job reason => cancellationReasonFromWire (calls call).reason = some reason ∧
      ∃ c₁ c₂, Steps (registryInitial plans calls) c₁ ∧ StepBy (.caller call) c₁ c₂ ∧
        Steps c₂ c ∧ c₁.shared.leases (calls call).token = some job ∧
        c₂.shared = c₁.shared
  | .returned false => True
  | .returned true => ∃ job reason c₁ c₂ c₃ c₄,
      cancellationReasonFromWire (calls call).reason = some reason ∧
      Steps (registryInitial plans calls) c₁ ∧ StepBy (.caller call) c₁ c₂ ∧
      Steps c₂ c₃ ∧ StepBy (.caller call) c₃ c₄ ∧ Steps c₄ c ∧
      c₁.shared.leases (calls call).token = some job ∧ c₂.shared = c₁.shared ∧
      c₄.shared = c₃.shared.cancelLease job reason

/-- The past of a call stays its past while others move. -/
theorem CallerPast.later {c c' : Config (registryThreads plans calls)} {call : K}
    (h : CallerPast c call) (hstep : Step c c') (hsame : callerOf c' call = callerOf c call) :
    CallerPast c' call := by
  unfold CallerPast at h ⊢
  rw [hsame]
  cases hpc : callerOf c call with
  | parse => trivial
  | lookup reason =>
      rw [hpc] at h
      exact h
  | apply job reason =>
      rw [hpc] at h
      obtain ⟨hreason, c₁, c₂, hpast, hlookup, hsince, hlease, hshared⟩ := h
      exact ⟨hreason, c₁, c₂, hpast, hlookup, hsince.tail hstep, hlease, hshared⟩
  | returned found =>
      rw [hpc] at h
      cases found with
      | false => trivial
      | true =>
          obtain ⟨job, reason, c₁, c₂, c₃, c₄, hreason, hpast, hlookup, hsince, happly,
            hafter, hlease, hshared, hcancelled⟩ := h
          exact ⟨job, reason, c₁, c₂, c₃, c₄, hreason, hpast, hlookup, hsince, happly,
            hafter.tail hstep, hlease, hshared, hcancelled⟩

/-- A step of the caller itself. -/
theorem CallerPast.own {c c' : Config (registryThreads plans calls)} {call : K}
    (h : CallerPast c call) (hrun : Steps (registryInitial plans calls) c)
    (hstep : StepBy (.caller call) c c') : CallerPast c' call := by
  have hmove : callerStep (calls call) c.shared (callerOf c call) =
      some (c'.shared, callerOf c' call) := hstep.1
  unfold CallerPast at h ⊢
  cases hpc : callerOf c call with
  | parse =>
      rw [hpc] at hmove
      unfold callerStep at hmove
      dsimp only at hmove
      split at hmove
      · obtain ⟨-, hnext⟩ := Prod.mk.inj (Option.some.inj hmove)
        rw [← hnext]
        trivial
      · next reason hreason =>
        obtain ⟨-, hnext⟩ := Prod.mk.inj (Option.some.inj hmove)
        rw [← hnext]
        exact hreason
  | lookup reason =>
      rw [hpc] at hmove h
      unfold callerStep at hmove
      dsimp only at hmove
      split at hmove
      · obtain ⟨-, hnext⟩ := Prod.mk.inj (Option.some.inj hmove)
        rw [← hnext]
        trivial
      · next job hlease =>
        obtain ⟨hshared, hnext⟩ := Prod.mk.inj (Option.some.inj hmove)
        rw [← hnext]
        exact ⟨h, c, c', hrun, hstep, .refl, hlease, hshared.symm⟩
  | apply job reason =>
      rw [hpc] at hmove h
      obtain ⟨hshared, hnext⟩ := Prod.mk.inj (Option.some.inj hmove)
      obtain ⟨hreason, c₁, c₂, hpast, hlookup, hsince, hlease, hsame⟩ := h
      rw [← hnext]
      exact ⟨job, reason, c₁, c₂, c, c', hreason, hpast, hlookup, hsince, hstep, .refl, hlease,
        hsame, hshared.symm⟩
  | returned found =>
      rw [hpc] at hmove
      cases hmove

theorem registry_steps {c : Config (registryThreads plans calls)}
    (hrun : Steps (registryInitial plans calls) c) :
    RegistryConsistent c ∧ ∀ call, CallerPast c call := by
  induction hrun with
  | refl => exact ⟨registryConsistent_initial, fun _ => trivial⟩
  | tail hbefore hstep ih =>
      refine ⟨ih.1.step hstep, ?_⟩
      intro call
      obtain ⟨thread, hthread⟩ := hstep.thread
      by_cases hcall : thread = .caller call
      · subst hcall
        exact (ih.2 call).own hbefore hthread
      · exact (ih.2 call).later hstep (hthread.2 (.caller call) (Ne.symm hcall))

theorem LifecyclePc.log_prefix (pc : LifecyclePc) : pc.log <+: [.executed, .terminal] := by
  cases pc <;> first
    | exact List.nil_prefix
    | exact ⟨[.terminal], rfl⟩
    | exact List.prefix_rfl

theorem LifecyclePc.log_of_ended {pc : LifecyclePc} (hended : pc.ended = true)
    (hran : pc ≠ .rejected) : pc.log = [.executed, .terminal] := by
  cases pc <;> first
    | rfl
    | exact absurd rfl hran
    | cases hended

/-! ## §7  The registry and its jobs -/

/-- **Leases and lifecycles.**  In every run: jobs with registered leases have different
tokens, and none of them has ended; a step takes only the lease of its own job; a call
that returned true found a lease under its token and cancelled its control, no other;
and the terminal callback ran once, after `execute`. -/
theorem registry_lifecycle {c : Config (registryThreads plans calls)}
    (hrun : Steps (registryInitial plans calls) c) :
    (∀ token token' job job', c.shared.leases token = some job →
        c.shared.leases token' = some job' → (plans job).token = (plans job').token →
        job = job') ∧
      (∀ token job, c.shared.leases token = some job →
        (plans job).token = token ∧ (lifecycleOf c job).pc.ended = false) ∧
      (∀ thread c', StepBy thread c c' → ∀ job, thread.owner ≠ some job → ∀ token,
        (c'.shared.leases token = some job ↔ c.shared.leases token = some job)) ∧
      (∀ call c', StepBy (.caller call) c c' → c'.shared = c.shared ∨
        ∃ job reason, callerOf c call = .apply job reason ∧
          c'.shared = c.shared.cancelLease job reason) ∧
      (∀ call, callerOf c call = .returned true → ∃ job reason c₁ c₂ c₃ c₄,
        cancellationReasonFromWire (calls call).reason = some reason ∧
        Steps (registryInitial plans calls) c₁ ∧ StepBy (.caller call) c₁ c₂ ∧
        Steps c₂ c₃ ∧ StepBy (.caller call) c₃ c₄ ∧ Steps c₄ c ∧
        c₁.shared.leases (calls call).token = some job ∧ c₂.shared = c₁.shared ∧
        c₄.shared = c₃.shared.cancelLease job reason) ∧
      ∀ job, (lifecycleOf c job).log <+: [.executed, .terminal] ∧
        ((lifecycleOf c job).pc.ended = true → (lifecycleOf c job).pc ≠ .rejected →
          (lifecycleOf c job).log = [.executed, .terminal]) := by
  obtain ⟨hconsistent, hpast⟩ := registry_steps hrun
  refine ⟨?_, ?_, ?_, ?_, ?_, ?_⟩
  · intro token token' job job' hlease hlease' htokens
    have htoken := (hconsistent.held token job hlease).1
    have htoken' := (hconsistent.held token' job' hlease').1
    rw [← htoken, htokens, htoken'] at hlease
    exact Option.some.inj (hlease.symm.trans hlease')
  · intro token job hlease
    obtain ⟨htoken, hholding⟩ := hconsistent.held token job hlease
    refine ⟨htoken, ?_⟩
    cases hpc : (lifecycleOf c job).pc <;> rw [hpc] at hholding <;> first | rfl | cases hholding
  · intro thread c' hstep job hjob token
    exact stepBy_leases_other hstep hjob token
  · intro call c' hstep
    rcases callerStep_shared hstep.1 with ⟨hsame, -⟩ | ⟨job, reason, hpc, hshared, -⟩
    · exact .inl hsame
    · exact .inr ⟨job, reason, hpc, hshared⟩
  · intro call hreturned
    have hcall := hpast call
    unfold CallerPast at hcall
    rw [hreturned] at hcall
    exact hcall
  · intro job
    rw [hconsistent.logged job]
    exact ⟨LifecyclePc.log_prefix _, LifecyclePc.log_of_ended⟩

/-- One job and one caller under one token. -/
def soloPlan : JobPlan := ⟨"token", true, some "result", .ok⟩

def soloCall : CancelRequest := ⟨"token", "cancelled"⟩

def soloConfig (state : RegistryState Unit) (lifecycle : Lifecycle) (call : CallerPc Unit) :
    Config (registryThreads (fun _ : Unit => soloPlan) fun _ : Unit => soloCall) where
  shared := state
  locals
    | .job _ => lifecycle
    | .hook _ => .swap
    | .caller _ => call

theorem soloConfig_job {state state' : RegistryState Unit} {lifecycle next : Lifecycle}
    {call : CallerPc Unit} (h : LifecycleStep soloPlan () state lifecycle state' next) :
    Step (soloConfig state lifecycle call) (soloConfig state' next call) := by
  refine ⟨.job (), state', next, h, ?_⟩
  unfold soloConfig
  congr 1
  funext thread
  cases thread <;> rfl

theorem soloConfig_caller {state state' : RegistryState Unit} {lifecycle : Lifecycle}
    {call call' : CallerPc Unit} (h : callerStep soloCall state call = some (state', call')) :
    Step (soloConfig state lifecycle call) (soloConfig state' lifecycle call') := by
  refine ⟨.caller (), state', call', h, ?_⟩
  unfold soloConfig
  congr 1
  funext thread
  cases thread <;> rfl

/-- The caller reaches the job that is registered under the token. -/
theorem registry_lifecycle_solo :
    ∃ state, Steps (registryInitial (fun _ : Unit => soloPlan) fun _ : Unit => soloCall)
        (soloConfig state ⟨.registerHook, []⟩ (.returned true)) ∧
      state.leases "token" = some () ∧ state.control () = .cancelled ∧
      (lifecycleOf (soloConfig state ⟨.registerHook, []⟩ (.returned true)) ()).pc.ended =
        false := by
  have hstart : registryInitial (fun _ : Unit => soloPlan) (fun _ : Unit => soloCall) =
      soloConfig .new ⟨.register, []⟩ .parse := by
    unfold registryInitial soloConfig
    congr 1
    funext thread
    cases thread <;> rfl
  have hrun : ∃ state, Steps (registryInitial (fun _ : Unit => soloPlan)
      fun _ : Unit => soloCall) (soloConfig state ⟨.registerHook, []⟩ (.returned true)) ∧
      state.leases "token" = some () ∧ state.control () = .cancelled := by
    rw [hstart]
    refine ⟨_, Relation.ReflTransGen.refl |>.tail (soloConfig_job (.registered rfl))
      |>.tail (soloConfig_caller rfl) |>.tail (soloConfig_caller rfl)
      |>.tail (soloConfig_caller rfl), rfl, rfl⟩
  obtain ⟨state, hsteps, hlease, hcontrol⟩ := hrun
  exact ⟨state, hsteps, hlease, hcontrol,
    ((registry_lifecycle hsteps).2.1 "token" () hlease).2⟩

end PolygonNesting.Napi
