import Mathlib.Tactic.Tauto
import PolygonNesting.Lib.Interleaving

/-!
# The terminal latch

The N-API adapter appends one terminal frame to the events of a job and waits
until JavaScript acknowledges it, while the environment may be torn down at
any moment.  `TerminalLatch` settles the race with one atomic outcome, one
cleanup flag and the park token of the single waiting thread.

The model cuts every method at its atomic operations (all sequentially
consistent): a program counter names the next operation, and `commitStep`,
`admissionStep`, `cleanupStep` and `waiterStep` perform exactly one.  The
parties are the waiter, any family of acknowledgements and any family of
environment cleanups; their steps interleave freely.  `unpark_waiter` is one
step, since a registered waiter stays registered.
-/

namespace PolygonNesting.Napi

open Interleaving

/-! ## §1  Outcomes and statuses -/

abbrev terminalPending : Int := -1
abbrev terminalAdmitting : Int := -2
abbrev terminalWaiting : Int := -3
abbrev terminalClosing : Int := -4
abbrev terminalCleanupAdmitting : Int := -5

/-- The N-API status type: its codes, which are never negative, the reading of
a code back, and the two statuses the latch names itself. -/
class Status (S : Type) where
  toCode : S → Int
  ofCode : Int → S
  ok : S
  closing : S
  toCode_nonneg : ∀ status, 0 ≤ toCode status

variable {S : Type} [Status S]

def isTerminalOutcome (outcome : Int) : Bool :=
  outcome == terminalClosing || decide (0 ≤ outcome)

/-- `none` is the `unreachable!` arm. -/
def statusForTerminalOutcome (outcome : Int) : Option S :=
  if outcome = terminalClosing then some Status.closing
  else if 0 ≤ outcome then some (Status.ofCode outcome)
  else none

theorem isTerminalOutcome_iff {outcome : Int} :
    isTerminalOutcome outcome = true ↔ outcome = -4 ∨ 0 ≤ outcome := by
  simp [isTerminalOutcome]

theorem not_isTerminalOutcome_iff {outcome : Int} :
    isTerminalOutcome outcome = false ↔ outcome ≠ -4 ∧ outcome < 0 := by
  simp [isTerminalOutcome]

/-- The `unreachable!` arm is exactly the uncommitted outcomes. -/
theorem statusForTerminalOutcome_eq_none_iff {outcome : Int} :
    (statusForTerminalOutcome outcome : Option S) = none ↔
      isTerminalOutcome outcome = false := by
  rw [not_isTerminalOutcome_iff]
  unfold statusForTerminalOutcome terminalClosing
  split
  · simp_all
  · split
    · simp; omega
    · simp; omega

/-! ## §2  The shared state and its atomic operations -/

/-- `waiter` says that the `OnceLock` holds the waiting thread, `token` that
the thread's park token is set. -/
structure TerminalLatchState where
  outcome : Int
  cleanupRequested : Bool
  waiter : Bool
  token : Bool
  deriving DecidableEq

namespace TerminalLatchState

def new : TerminalLatchState where
  outcome := terminalPending
  cleanupRequested := false
  waiter := false
  token := false

/-- Strong compare-exchange on the outcome: `true` when it wrote. -/
def compareExchange (s : TerminalLatchState) (current next : Int) :
    TerminalLatchState × Bool :=
  if s.outcome = current then ({ s with outcome := next }, true) else (s, false)

def unparkWaiter (s : TerminalLatchState) : TerminalLatchState :=
  if s.waiter then { s with token := true } else s

end TerminalLatchState

open TerminalLatchState

/-! ## §3  The methods, one atomic operation at a time -/

/-- Where `commit_status` and `commit_enqueue_failure` stand. -/
inductive CommitPc where
  | load
  | compareExchange (current : Int)
  | unpark
  deriving DecidableEq

/-- The loop both commit methods share: give up on an outcome that `ignored`
rejects, otherwise try to write the status code and wake the waiter.  The next
program counter is `none` when the method returns. -/
def commitStep (ignored : Int → Bool) (statusCode : Int)
    (s : TerminalLatchState) : CommitPc → TerminalLatchState × Option CommitPc
  | .load =>
      if ignored s.outcome then (s, none)
      else (s, some (.compareExchange s.outcome))
  | .compareExchange current =>
      match s.compareExchange current statusCode with
      | (s', true) => (s', some .unpark)
      | (s', false) => (s', some .load)
  | .unpark => (s.unparkWaiter, none)

def commitEnqueueFailureStep (status : S) :=
  commitStep isTerminalOutcome (Status.toCode status)

/-- Outcomes an acknowledgement leaves alone. -/
def ignoresAcknowledgement (outcome : Int) : Bool :=
  isTerminalOutcome outcome || outcome == terminalCleanupAdmitting

def commitStatusStep (status : S) :=
  commitStep ignoresAcknowledgement (Status.toCode status)

/-- Where `complete_successful_admission` stands. -/
inductive AdmissionPc where
  | load
  | compareExchange (current next : Int)
  deriving DecidableEq

def admissionStep (s : TerminalLatchState) :
    AdmissionPc → TerminalLatchState × Option AdmissionPc
  | .load =>
      if s.outcome = terminalAdmitting then
        (s, some (.compareExchange s.outcome terminalWaiting))
      else if s.outcome = terminalCleanupAdmitting then
        (s, some (.compareExchange s.outcome terminalClosing))
      else (s, none)
  | .compareExchange current next =>
      match s.compareExchange current next with
      | (s', true) => (s', none)
      | (s', false) => (s', some .load)

/-- Where `commit_cleanup_if_requested` stands. -/
inductive CleanupPc where
  | readRequest
  | load
  | compareExchange (current next : Int)
  deriving DecidableEq

/-- The outcome a requested cleanup writes over `current`. -/
def cleanupNext (current : Int) : Int :=
  if current = terminalAdmitting then terminalCleanupAdmitting
  else terminalClosing

def cleanupStep (s : TerminalLatchState) :
    CleanupPc → TerminalLatchState × Option CleanupPc
  | .readRequest => if s.cleanupRequested then (s, some .load) else (s, none)
  | .load =>
      if ignoresAcknowledgement s.outcome then (s, none)
      else (s, some (.compareExchange s.outcome (cleanupNext s.outcome)))
  | .compareExchange current next =>
      match s.compareExchange current next with
      | (s', true) => (s', none)
      | (s', false) => (s', some .load)

/-- Where the waiter stands in `enqueue_terminal_and_wait`. -/
inductive WaiterPc (S : Type) where
  | start
  | registerWaiter
  | enqueue
  | enqueueFailure (status : S) (pc : CommitPc)
  | enqueueFailureLoad
  | admission (pc : AdmissionPc)
  | cleanup (pc : CleanupPc)
  | load
  | park
  | returned (status : S)
  | panicked
  deriving DecidableEq

/-- Return the status of a committed outcome, or hit `unreachable!`. -/
def returnStatus (outcome : Int) : WaiterPc S :=
  match statusForTerminalOutcome outcome with
  | some status => .returned status
  | none => .panicked

variable [DecidableEq S]

/-- One step of the waiter.  `enqueueStatus` is what the enqueue callback
returns if this is the step that invokes it; `spurious` lets `park` return
without a token.  There is no step once the method has returned, and none
while the thread is parked without a token. -/
def waiterStep (enqueueStatus : S) (spurious : Bool) (s : TerminalLatchState) :
    WaiterPc S → Option (TerminalLatchState × WaiterPc S)
  | .start =>
      match s.compareExchange terminalPending terminalAdmitting with
      | (s', true) => some (s', .registerWaiter)
      | (s', false) => some (s', returnStatus s.outcome)
  | .registerWaiter =>
      -- `OnceLock::set` fails, and with it the debug assertion, when taken
      if s.waiter then some (s, .panicked)
      else some ({ s with waiter := true }, .enqueue)
  | .enqueue =>
      if enqueueStatus = Status.ok then some (s, .admission .load)
      else some (s, .enqueueFailure enqueueStatus .load)
  | .enqueueFailure status pc =>
      match commitEnqueueFailureStep status s pc with
      | (s', some pc') => some (s', .enqueueFailure status pc')
      | (s', none) => some (s', .enqueueFailureLoad)
  | .enqueueFailureLoad => some (s, returnStatus s.outcome)
  | .admission pc =>
      match admissionStep s pc with
      | (s', some pc') => some (s', .admission pc')
      | (s', none) => some (s', .cleanup .readRequest)
  | .cleanup pc =>
      match cleanupStep s pc with
      | (s', some pc') => some (s', .cleanup pc')
      | (s', none) => some (s', .load)
  | .load =>
      if isTerminalOutcome s.outcome then some (s, returnStatus s.outcome)
      else some (s, .park)
  | .park =>
      if s.token then some ({ s with token := false }, .cleanup .readRequest)
      else if spurious then some (s, .cleanup .readRequest)
      else none
  | .returned _ => none
  | .panicked => none

/-- Where a `TerminalAcknowledgement` stands; its method is `commit_status`. -/
inductive AcknowledgementPc where
  | commit (pc : CommitPc)
  | done
  deriving DecidableEq

def acknowledgementStep (status : S) (s : TerminalLatchState) :
    AcknowledgementPc → Option (TerminalLatchState × AcknowledgementPc)
  | .commit pc =>
      match commitStatusStep status s pc with
      | (s', some pc') => some (s', .commit pc')
      | (s', none) => some (s', .done)
  | .done => none

/-- Where a call of `close_for_cleanup` stands. -/
inductive CloserPc where
  | request
  | commit (pc : CleanupPc)
  | unpark
  | done
  deriving DecidableEq

def closerStep (s : TerminalLatchState) :
    CloserPc → Option (TerminalLatchState × CloserPc)
  | .request => some ({ s with cleanupRequested := true }, .commit .readRequest)
  | .commit pc =>
      match cleanupStep s pc with
      | (s', some pc') => some (s', .commit pc')
      | (s', none) => some (s', .unpark)
  | .unpark => some (s.unparkWaiter, .done)
  | .done => none

/-! ## §4  The interleaving of the parties

The waiter, the acknowledgements (indexed by `α`, each with the status it
delivers) and the cleanups (indexed by `κ`).  A party that never moves is a
call that is never made, so the families may be as large as one likes. -/

variable {α κ : Type}

inductive Party (α κ : Type) where
  | waiter
  | acknowledgement (a : α)
  | closer (k : κ)
  deriving DecidableEq

/-- The latch's parties as threads over the latch state. -/
def latch (delivered : α → S) : Threads TerminalLatchState (Party α κ) where
  Local
    | .waiter => WaiterPc S
    | .acknowledgement _ => AcknowledgementPc
    | .closer _ => CloserPc
  step
    | .waiter, s, pc, s', pc' =>
        ∃ enqueueStatus spurious,
          waiterStep enqueueStatus spurious s pc = some (s', pc')
    | .acknowledgement a, s, pc, s', pc' =>
        acknowledgementStep (delivered a) s pc = some (s', pc')
    | .closer _, s, pc, s', pc' => closerStep s pc = some (s', pc')

/-- A fresh latch, with no method called yet. -/
def initial (delivered : α → S) : Config (latch (κ := κ) delivered) where
  shared := TerminalLatchState.new
  locals
    | .waiter => .start
    | .acknowledgement _ => .commit .load
    | .closer _ => .request

/-! ## §5  What one step does to the outcome -/

/-- How parties other than the waiter may change the latch state: they keep
the registration, leave a committed outcome and a cleanup under admission
alone, and otherwise commit, or turn the admission over to cleanup. -/
structure Interferes (s s' : TerminalLatchState) : Prop where
  waiter : s'.waiter = s.waiter
  outcome : s'.outcome = s.outcome ∨
    (ignoresAcknowledgement s.outcome = false ∧
      (0 ≤ s'.outcome ∨ s'.outcome = cleanupNext s.outcome))

theorem compareExchange_cases (s : TerminalLatchState) (current next : Int) :
    (s.outcome = current ∧
        s.compareExchange current next = ({ s with outcome := next }, true)) ∨
      (s.outcome ≠ current ∧ s.compareExchange current next = (s, false)) := by
  unfold TerminalLatchState.compareExchange
  split <;> simp_all

@[simp] theorem unparkWaiter_outcome (s : TerminalLatchState) :
    s.unparkWaiter.outcome = s.outcome := by
  unfold unparkWaiter; split <;> rfl

@[simp] theorem unparkWaiter_waiter (s : TerminalLatchState) :
    s.unparkWaiter.waiter = s.waiter := by
  unfold unparkWaiter; split <;> rfl

theorem unparkWaiter_token {s : TerminalLatchState} (h : s.waiter = true) :
    s.unparkWaiter.token = true := by
  simp [unparkWaiter, h]

/-- A commit loop holds only outcomes it does not ignore. -/
def CommitPc.Sound (ignored : Int → Bool) : CommitPc → Prop
  | .compareExchange current => ignored current = false
  | _ => True

/-- **One step of a commit loop**: nothing happens to the outcome, or an
outcome that is not ignored is replaced by the status code and the waiter is
woken next. -/
theorem commitStep_cases {ignored : Int → Bool} {code : Int}
    {s s' : TerminalLatchState} {pc : CommitPc} {pc' : Option CommitPc}
    (hpc : pc.Sound ignored) (h : commitStep ignored code s pc = (s', pc')) :
    (∀ p, pc' = some p → p.Sound ignored) ∧
      ((s' = s ∧ (pc' = none → ignored s.outcome = true) ∧
          pc ≠ .unpark ∧ pc' ≠ some .unpark) ∨
        (ignored s.outcome = false ∧ s' = { s with outcome := code } ∧
          pc' = some .unpark) ∨
        (pc = .unpark ∧ s' = s.unparkWaiter ∧ pc' = none)) := by
  cases pc with
  | load =>
      simp only [commitStep] at h
      split at h
      · next hi =>
        obtain ⟨rfl, rfl⟩ := Prod.mk.inj h
        exact ⟨by simp, .inl ⟨rfl, fun _ => hi, by simp, by simp⟩⟩
      · next hi =>
        obtain ⟨rfl, rfl⟩ := Prod.mk.inj h
        refine ⟨?_, .inl ⟨rfl, by simp, by simp, by simp⟩⟩
        rintro p ⟨rfl⟩
        simpa [CommitPc.Sound] using hi
  | compareExchange current =>
      simp only [commitStep] at h
      rcases compareExchange_cases s current code with ⟨hc, he⟩ | ⟨-, he⟩
      · rw [he] at h
        obtain ⟨rfl, rfl⟩ := Prod.mk.inj h
        refine ⟨by rintro p ⟨rfl⟩; trivial, .inr (.inl ⟨?_, rfl, rfl⟩)⟩
        rw [hc]; exact hpc
      · rw [he] at h
        obtain ⟨rfl, rfl⟩ := Prod.mk.inj h
        exact ⟨by rintro p ⟨rfl⟩; trivial,
          .inl ⟨rfl, by simp, by simp, by simp⟩⟩
  | unpark =>
      simp only [commitStep] at h
      obtain ⟨rfl, rfl⟩ := Prod.mk.inj h
      exact ⟨by simp, .inr (.inr ⟨rfl, rfl, rfl⟩)⟩

/-- A cleanup loop holds only outcomes it may replace, with their successor. -/
def CleanupPc.Sound : CleanupPc → Prop
  | .compareExchange current next =>
      ignoresAcknowledgement current = false ∧ next = cleanupNext current
  | _ => True

/-- **One step of the cleanup commit**: nothing happens to the state, or an
outcome that is neither committed nor under cleanup admission gives way to its
successor, which ends the method. -/
theorem cleanupStep_cases {s s' : TerminalLatchState} {pc : CleanupPc}
    {pc' : Option CleanupPc} (hpc : pc.Sound)
    (h : cleanupStep s pc = (s', pc')) :
    (∀ p, pc' = some p → p.Sound) ∧
      (s' = s ∨
        (ignoresAcknowledgement s.outcome = false ∧
          s' = { s with outcome := cleanupNext s.outcome } ∧ pc' = none)) := by
  cases pc with
  | readRequest =>
      simp only [cleanupStep] at h
      split at h <;> obtain ⟨rfl, rfl⟩ := Prod.mk.inj h
      · exact ⟨by rintro p ⟨rfl⟩; trivial, .inl rfl⟩
      · exact ⟨by simp, .inl rfl⟩
  | load =>
      simp only [cleanupStep] at h
      split at h <;> obtain ⟨rfl, rfl⟩ := Prod.mk.inj h
      · exact ⟨by simp, .inl rfl⟩
      · next hi =>
        refine ⟨?_, .inl rfl⟩
        rintro p ⟨rfl⟩
        exact ⟨by simpa using hi, rfl⟩
  | compareExchange current next =>
      simp only [cleanupStep] at h
      obtain ⟨hc, rfl⟩ := hpc
      rcases compareExchange_cases s current (cleanupNext current)
        with ⟨rfl, he⟩ | ⟨-, he⟩
      · rw [he] at h
        obtain ⟨rfl, rfl⟩ := Prod.mk.inj h
        exact ⟨by simp, .inr ⟨hc, rfl, rfl⟩⟩
      · rw [he] at h
        obtain ⟨rfl, rfl⟩ := Prod.mk.inj h
        exact ⟨by rintro p ⟨rfl⟩; trivial, .inl rfl⟩

/-- The two exchanges a successful admission attempts. -/
def AdmissionPc.Sound : AdmissionPc → Prop
  | .compareExchange current next =>
      (current = terminalAdmitting ∧ next = terminalWaiting) ∨
        (current = terminalCleanupAdmitting ∧ next = terminalClosing)
  | .load => True

/-- **One step of the admission**: nothing happens to the state, or admitting
becomes waiting, or cleanup admission becomes closing.  The method returns
only once the outcome is neither of the two admissions. -/
theorem admissionStep_cases {s s' : TerminalLatchState} {pc : AdmissionPc}
    {pc' : Option AdmissionPc} (hpc : pc.Sound)
    (h : admissionStep s pc = (s', pc')) :
    (∀ p, pc' = some p → p.Sound) ∧
      ((s' = s ∧ (pc' = none → s.outcome ≠ terminalAdmitting ∧
          s.outcome ≠ terminalCleanupAdmitting)) ∨
        (s.outcome = terminalAdmitting ∧
          s' = { s with outcome := terminalWaiting } ∧ pc' = none) ∨
        (s.outcome = terminalCleanupAdmitting ∧
          s' = { s with outcome := terminalClosing } ∧ pc' = none)) := by
  cases pc with
  | load =>
      simp only [admissionStep] at h
      split at h
      · next ha =>
        obtain ⟨rfl, rfl⟩ := Prod.mk.inj h
        refine ⟨?_, .inl ⟨rfl, by simp⟩⟩
        rintro p ⟨rfl⟩
        exact .inl ⟨ha, rfl⟩
      · next ha =>
        split at h
        · next hc =>
          obtain ⟨rfl, rfl⟩ := Prod.mk.inj h
          refine ⟨?_, .inl ⟨rfl, by simp⟩⟩
          rintro p ⟨rfl⟩
          exact .inr ⟨hc, rfl⟩
        · next hc =>
          obtain ⟨rfl, rfl⟩ := Prod.mk.inj h
          exact ⟨by simp, .inl ⟨rfl, fun _ => ⟨ha, hc⟩⟩⟩
  | compareExchange current next =>
      simp only [admissionStep] at h
      rcases compareExchange_cases s current next with ⟨hs, he⟩ | ⟨-, he⟩
      · rw [he] at h
        obtain ⟨rfl, rfl⟩ := Prod.mk.inj h
        refine ⟨by simp, .inr ?_⟩
        rcases hpc with ⟨rfl, rfl⟩ | ⟨rfl, rfl⟩
        · exact .inl ⟨hs, rfl, rfl⟩
        · exact .inr ⟨hs, rfl, rfl⟩
      · rw [he] at h
        obtain ⟨rfl, rfl⟩ := Prod.mk.inj h
        exact ⟨by rintro p ⟨rfl⟩; trivial, .inl ⟨rfl, by simp⟩⟩

/-! ## §6  The assertions at the parties -/

theorem ignoresAcknowledgement_eq_false_iff {outcome : Int} :
    ignoresAcknowledgement outcome = false ↔
      outcome ≠ -4 ∧ outcome < 0 ∧ outcome ≠ -5 := by
  simp [ignoresAcknowledgement, isTerminalOutcome, terminalClosing,
    terminalCleanupAdmitting]
  omega

/-- What the outcome may be between the waiter's admission and its end. -/
def Admitted (outcome : Int) : Prop :=
  outcome = terminalAdmitting ∨ outcome = terminalCleanupAdmitting ∨ 0 ≤ outcome

/-- What the outcome may be once the callback has been admitted. -/
def Awaited (outcome : Int) : Prop :=
  outcome = terminalWaiting ∨ isTerminalOutcome outcome = true

/-- The latch state as the waiter knows it at each of its operations. -/
def WaiterPc.Asserts (s : TerminalLatchState) : WaiterPc S → Prop
  | .start =>
      (s.outcome = terminalPending ∨ isTerminalOutcome s.outcome = true) ∧
        s.waiter = false
  | .registerWaiter => Admitted s.outcome ∧ s.waiter = false
  | .enqueue => Admitted s.outcome ∧ s.waiter = true
  | .enqueueFailure _ pc =>
      Admitted s.outcome ∧ s.waiter = true ∧ pc.Sound isTerminalOutcome ∧
        (pc = .unpark → isTerminalOutcome s.outcome = true)
  | .enqueueFailureLoad =>
      isTerminalOutcome s.outcome = true ∧ s.waiter = true
  | .admission pc => Admitted s.outcome ∧ s.waiter = true ∧ pc.Sound
  | .cleanup pc => Awaited s.outcome ∧ s.waiter = true ∧ pc.Sound
  | .load => Awaited s.outcome ∧ s.waiter = true
  | .park => Awaited s.outcome ∧ s.waiter = true
  | .returned status =>
      isTerminalOutcome s.outcome = true ∧
        statusForTerminalOutcome s.outcome = some status
  | .panicked => False

def AcknowledgementPc.Sound : AcknowledgementPc → Prop
  | .commit pc => pc.Sound ignoresAcknowledgement
  | .done => True

def CloserPc.Sound : CloserPc → Prop
  | .commit pc => pc.Sound
  | _ => True

omit [DecidableEq S] in
/-- Returning a committed outcome never reaches `unreachable!`. -/
theorem returnStatus_asserts {s : TerminalLatchState}
    (h : isTerminalOutcome s.outcome = true) :
    (returnStatus s.outcome : WaiterPc S).Asserts s := by
  unfold returnStatus
  cases hs : (statusForTerminalOutcome s.outcome : Option S) with
  | some status => exact ⟨h, hs⟩
  | none => simp [statusForTerminalOutcome_eq_none_iff.mp hs] at h

omit [DecidableEq S] in
/-- **The waiter's assertions survive interference.** -/
theorem asserts_of_interferes {s s' : TerminalLatchState} {pc : WaiterPc S}
    (h : pc.Asserts s) (hi : Interferes s s') : pc.Asserts s' := by
  obtain ⟨hw, ho | ⟨hne, ho⟩⟩ := hi
  · cases pc <;> simp only [WaiterPc.Asserts, hw, ho] at h ⊢ <;> exact h
  · have hterm : isTerminalOutcome s.outcome = false := by
      rw [ignoresAcknowledgement_eq_false_iff] at hne
      rw [not_isTerminalOutcome_iff]
      omega
    rw [ignoresAcknowledgement_eq_false_iff] at hne
    have hadm : Admitted s.outcome → Admitted s'.outcome := by
      simp only [Admitted, cleanupNext, terminalAdmitting,
        terminalCleanupAdmitting, terminalClosing] at ho ⊢
      split at ho <;> omega
    have haw : Awaited s.outcome → Awaited s'.outcome := by
      simp only [Awaited, cleanupNext, isTerminalOutcome_iff, terminalWaiting,
        terminalAdmitting, terminalCleanupAdmitting, terminalClosing] at ho ⊢
      split at ho <;> omega
    have hopen : s.outcome = terminalPending →
        isTerminalOutcome s'.outcome = true := by
      intro hp
      simp only [cleanupNext, isTerminalOutcome_iff, terminalPending,
        terminalAdmitting, terminalCleanupAdmitting, terminalClosing] at ho hp ⊢
      split at ho <;> omega
    cases pc <;> simp only [WaiterPc.Asserts, hw, hterm] at h ⊢ <;> tauto

omit [DecidableEq S] in
theorem commitStatusStep_interferes {status : S} {s s' : TerminalLatchState}
    {pc : CommitPc} {pc' : Option CommitPc}
    (hpc : pc.Sound ignoresAcknowledgement)
    (h : commitStatusStep status s pc = (s', pc')) : Interferes s s' := by
  rcases (commitStep_cases hpc h).2 with
    ⟨rfl, -⟩ | ⟨hi, rfl, -⟩ | ⟨-, rfl, -⟩
  · exact ⟨rfl, .inl rfl⟩
  · exact ⟨rfl, .inr ⟨hi, .inl (Status.toCode_nonneg status)⟩⟩
  · exact ⟨by simp, .inl (by simp)⟩

theorem cleanupStep_interferes {s s' : TerminalLatchState} {pc : CleanupPc}
    {pc' : Option CleanupPc} (hpc : pc.Sound)
    (h : cleanupStep s pc = (s', pc')) : Interferes s s' := by
  rcases (cleanupStep_cases hpc h).2 with rfl | ⟨hi, rfl, -⟩
  · exact ⟨rfl, .inl rfl⟩
  · exact ⟨rfl, .inr ⟨hi, .inr rfl⟩⟩

omit [DecidableEq S] in
theorem acknowledgementStep_spec {status : S} {s s' : TerminalLatchState}
    {pc pc' : AcknowledgementPc} (hpc : pc.Sound)
    (h : acknowledgementStep status s pc = some (s', pc')) :
    Interferes s s' ∧ pc'.Sound := by
  cases pc with
  | commit pc =>
      simp only [acknowledgementStep] at h
      rcases hc : commitStatusStep status s pc with ⟨t, q⟩
      have hi := commitStatusStep_interferes hpc hc
      have hs := (commitStep_cases hpc hc).1
      rw [hc] at h
      cases q with
      | some q =>
          obtain ⟨rfl, rfl⟩ := Prod.mk.inj (Option.some.inj h)
          exact ⟨hi, hs q rfl⟩
      | none =>
          obtain ⟨rfl, rfl⟩ := Prod.mk.inj (Option.some.inj h)
          exact ⟨hi, trivial⟩
  | done => simp [acknowledgementStep] at h

theorem closerStep_spec {s s' : TerminalLatchState} {pc pc' : CloserPc}
    (hpc : pc.Sound) (h : closerStep s pc = some (s', pc')) :
    Interferes s s' ∧ pc'.Sound := by
  cases pc with
  | request =>
      obtain ⟨rfl, rfl⟩ := Prod.mk.inj (Option.some.inj h)
      exact ⟨⟨rfl, .inl rfl⟩, trivial⟩
  | commit pc =>
      simp only [closerStep] at h
      rcases hc : cleanupStep s pc with ⟨t, q⟩
      have hi := cleanupStep_interferes hpc hc
      have hs := (cleanupStep_cases hpc hc).1
      rw [hc] at h
      cases q with
      | some q =>
          obtain ⟨rfl, rfl⟩ := Prod.mk.inj (Option.some.inj h)
          exact ⟨hi, hs q rfl⟩
      | none =>
          obtain ⟨rfl, rfl⟩ := Prod.mk.inj (Option.some.inj h)
          exact ⟨hi, trivial⟩
  | unpark =>
      obtain ⟨rfl, rfl⟩ := Prod.mk.inj (Option.some.inj h)
      exact ⟨⟨by simp, .inl (by simp)⟩, trivial⟩
  | done => simp [closerStep] at h

/-- **The waiter maintains its assertions**, and never changes a committed
outcome. -/
theorem waiterStep_spec {enqueueStatus : S} {spurious : Bool}
    {s s' : TerminalLatchState} {pc pc' : WaiterPc S} (hpc : pc.Asserts s)
    (h : waiterStep enqueueStatus spurious s pc = some (s', pc')) :
    pc'.Asserts s' ∧
      (isTerminalOutcome s.outcome = true → s'.outcome = s.outcome) := by
  cases pc with
  | start =>
      obtain ⟨ho, hw⟩ := hpc
      simp only [waiterStep] at h
      rcases compareExchange_cases s terminalPending terminalAdmitting
        with ⟨hp, he⟩ | ⟨hp, he⟩
      · rw [he] at h
        obtain ⟨rfl, rfl⟩ := Prod.mk.inj (Option.some.inj h)
        refine ⟨⟨.inl rfl, hw⟩, fun ht => ?_⟩
        simp [hp, isTerminalOutcome] at ht
      · rw [he] at h
        obtain ⟨rfl, rfl⟩ := Prod.mk.inj (Option.some.inj h)
        exact ⟨returnStatus_asserts (ho.resolve_left hp), fun _ => rfl⟩
  | registerWaiter =>
      obtain ⟨ho, hw⟩ := hpc
      simp only [waiterStep, hw] at h
      obtain ⟨rfl, rfl⟩ := Prod.mk.inj (Option.some.inj h)
      exact ⟨⟨ho, rfl⟩, fun _ => rfl⟩
  | enqueue =>
      simp only [waiterStep] at h
      split at h <;> obtain ⟨rfl, rfl⟩ := Prod.mk.inj (Option.some.inj h)
      · exact ⟨⟨hpc.1, hpc.2, trivial⟩, fun _ => rfl⟩
      · exact ⟨⟨hpc.1, hpc.2, trivial, by simp⟩, fun _ => rfl⟩
  | enqueueFailure status pc =>
      obtain ⟨ho, hw, hsound, hun⟩ := hpc
      simp only [waiterStep] at h
      rcases hc : commitEnqueueFailureStep status s pc with ⟨t, q⟩
      obtain ⟨hs, hcases⟩ := commitStep_cases hsound hc
      rw [hc] at h
      have hcode := Status.toCode_nonneg status
      rcases hcases with ⟨rfl, hret, -, hq⟩ | ⟨hi, rfl, rfl⟩ | ⟨rfl, rfl, rfl⟩
      · cases q with
        | some q =>
            obtain ⟨rfl, rfl⟩ := Prod.mk.inj (Option.some.inj h)
            exact ⟨⟨ho, hw, hs q rfl, by rintro rfl; exact absurd rfl hq⟩,
              fun _ => rfl⟩
        | none =>
            obtain ⟨rfl, rfl⟩ := Prod.mk.inj (Option.some.inj h)
            exact ⟨⟨hret rfl, hw⟩, fun _ => rfl⟩
      · obtain ⟨rfl, rfl⟩ := Prod.mk.inj (Option.some.inj h)
        refine ⟨⟨.inr (.inr hcode), hw, trivial, fun _ => ?_⟩, fun ht => ?_⟩
        · exact isTerminalOutcome_iff.mpr (.inr hcode)
        · simp [hi] at ht
      · obtain ⟨rfl, rfl⟩ := Prod.mk.inj (Option.some.inj h)
        exact ⟨⟨by simpa using hun rfl, by simpa using hw⟩, fun _ => by simp⟩
  | enqueueFailureLoad =>
      obtain ⟨rfl, rfl⟩ := Prod.mk.inj (Option.some.inj h)
      exact ⟨returnStatus_asserts hpc.1, fun _ => rfl⟩
  | admission pc =>
      obtain ⟨ho, hw, hsound⟩ := hpc
      simp only [waiterStep] at h
      rcases hc : admissionStep s pc with ⟨t, q⟩
      obtain ⟨hs, hcases⟩ := admissionStep_cases hsound hc
      rw [hc] at h
      rcases hcases with ⟨rfl, hret⟩ | ⟨ha, rfl, rfl⟩ | ⟨ha, rfl, rfl⟩
      · cases q with
        | some q =>
            obtain ⟨rfl, rfl⟩ := Prod.mk.inj (Option.some.inj h)
            exact ⟨⟨ho, hw, hs q rfl⟩, fun _ => rfl⟩
        | none =>
            obtain ⟨rfl, rfl⟩ := Prod.mk.inj (Option.some.inj h)
            have hne := hret rfl
            have hterm : 0 ≤ t.outcome := by
              rcases ho with h1 | h1 | h1
              · exact absurd h1 hne.1
              · exact absurd h1 hne.2
              · exact h1
            exact ⟨⟨.inr (isTerminalOutcome_iff.mpr (.inr hterm)), hw, trivial⟩,
              fun _ => rfl⟩
      · obtain ⟨rfl, rfl⟩ := Prod.mk.inj (Option.some.inj h)
        refine ⟨⟨.inl rfl, hw, trivial⟩, fun ht => ?_⟩
        simp [ha, isTerminalOutcome] at ht
      · obtain ⟨rfl, rfl⟩ := Prod.mk.inj (Option.some.inj h)
        refine ⟨⟨.inr (by simp [isTerminalOutcome]), hw, trivial⟩, fun ht => ?_⟩
        simp [ha, isTerminalOutcome] at ht
  | cleanup pc =>
      obtain ⟨ho, hw, hsound⟩ := hpc
      simp only [waiterStep] at h
      rcases hc : cleanupStep s pc with ⟨t, q⟩
      obtain ⟨hs, hcases⟩ := cleanupStep_cases hsound hc
      have hi := cleanupStep_interferes hsound hc
      rw [hc] at h
      have hnext : (WaiterPc.load : WaiterPc S).Asserts t :=
        asserts_of_interferes ⟨ho, hw⟩ hi
      have hkeep : isTerminalOutcome s.outcome = true →
          t.outcome = s.outcome := by
        intro ht
        rcases hi.outcome with heq | ⟨hne, -⟩
        · exact heq
        · simp [ignoresAcknowledgement, ht] at hne
      cases q with
      | some q =>
          obtain ⟨rfl, rfl⟩ := Prod.mk.inj (Option.some.inj h)
          exact ⟨⟨hnext.1, hnext.2, hs q rfl⟩, hkeep⟩
      | none =>
          obtain ⟨rfl, rfl⟩ := Prod.mk.inj (Option.some.inj h)
          exact ⟨hnext, hkeep⟩
  | load =>
      simp only [waiterStep] at h
      split at h <;> obtain ⟨rfl, rfl⟩ := Prod.mk.inj (Option.some.inj h)
      · next ht => exact ⟨returnStatus_asserts ht, fun _ => rfl⟩
      · exact ⟨hpc, fun _ => rfl⟩
  | park =>
      obtain ⟨ho, hw⟩ := hpc
      simp only [waiterStep] at h
      split at h
      · obtain ⟨rfl, rfl⟩ := Prod.mk.inj (Option.some.inj h)
        exact ⟨⟨ho, hw, trivial⟩, fun _ => rfl⟩
      · split at h
        · obtain ⟨rfl, rfl⟩ := Prod.mk.inj (Option.some.inj h)
          exact ⟨⟨ho, hw, trivial⟩, fun _ => rfl⟩
        · exact absurd h (by simp)
  | returned status => simp [waiterStep] at h
  | panicked => simp [waiterStep] at h

/-! ## §7  Wake-ups -/

/-- What a party that may wake the waiter does to the token: it never takes
it, it sets it when its next operation is the unpark, and it has the unpark
next whenever it commits an outcome. -/
structure Wakes (waking waking' : Prop) (s s' : TerminalLatchState) : Prop where
  token : s.token = true → s'.token = true
  unpark : waking → s.waiter = true → s'.token = true
  commit : isTerminalOutcome s.outcome = false →
    isTerminalOutcome s'.outcome = true → waking'

omit [DecidableEq S] in
theorem acknowledgementStep_wakes {status : S} {s s' : TerminalLatchState}
    {pc pc' : AcknowledgementPc} (hpc : pc.Sound)
    (h : acknowledgementStep status s pc = some (s', pc')) :
    Wakes (pc = .commit .unpark) (pc' = .commit .unpark) s s' := by
  cases pc with
  | commit pc =>
      simp only [acknowledgementStep] at h
      rcases hc : commitStatusStep status s pc with ⟨t, q⟩
      rcases (commitStep_cases hpc hc).2 with
        ⟨rfl, -, hne, -⟩ | ⟨-, rfl, rfl⟩ | ⟨rfl, rfl, rfl⟩
      · rw [hc] at h
        have hs : s' = t := by cases q <;> simp at h <;> exact h.1.symm
        subst hs
        exact ⟨id, fun hun => by simp [hne] at hun, fun h1 h2 => by simp [h1] at h2⟩
      · rw [hc] at h
        obtain ⟨rfl, rfl⟩ := Prod.mk.inj (Option.some.inj h)
        refine ⟨id, fun hun => ?_, fun _ _ => rfl⟩
        obtain rfl : pc = .unpark := by simpa using hun
        simp [commitStatusStep, commitStep] at hc
      · rw [hc] at h
        obtain ⟨rfl, rfl⟩ := Prod.mk.inj (Option.some.inj h)
        refine ⟨fun ht => ?_, fun _ hw => unparkWaiter_token hw, fun h1 h2 => ?_⟩
        · unfold unparkWaiter; split <;> simp [ht]
        · simp [h1] at h2
  | done => simp [acknowledgementStep] at h

theorem closerStep_wakes {s s' : TerminalLatchState} {pc pc' : CloserPc}
    (hpc : pc.Sound) (h : closerStep s pc = some (s', pc')) :
    Wakes (pc = .unpark) (pc' = .unpark) s s' := by
  cases pc with
  | request =>
      obtain ⟨rfl, rfl⟩ := Prod.mk.inj (Option.some.inj h)
      exact ⟨id, by simp, fun h1 h2 => by simp [h1] at h2⟩
  | commit pc =>
      simp only [closerStep] at h
      rcases hc : cleanupStep s pc with ⟨t, q⟩
      rw [hc] at h
      rcases (cleanupStep_cases hpc hc).2 with rfl | ⟨-, rfl, rfl⟩
      · have hs : s' = t := by cases q <;> simp at h <;> exact h.1.symm
        subst hs
        exact ⟨id, by simp, fun h1 h2 => by simp [h1] at h2⟩
      · obtain ⟨rfl, rfl⟩ := Prod.mk.inj (Option.some.inj h)
        exact ⟨id, by simp, fun _ _ => rfl⟩
  | unpark =>
      obtain ⟨rfl, rfl⟩ := Prod.mk.inj (Option.some.inj h)
      refine ⟨fun ht => ?_, fun _ hw => unparkWaiter_token hw, fun h1 h2 => ?_⟩
      · unfold unparkWaiter; split <;> simp [ht]
      · simp [h1] at h2
  | done => simp [closerStep] at h

/-- The waiter parks only after reading an uncommitted outcome. -/
theorem waiterStep_park {enqueueStatus : S} {spurious : Bool}
    {s s' : TerminalLatchState} {pc : WaiterPc S}
    (h : waiterStep enqueueStatus spurious s pc = some (s', .park)) :
    isTerminalOutcome s'.outcome = false := by
  have hreturn : ∀ outcome, (returnStatus outcome : WaiterPc S) ≠ .park := by
    intro outcome
    unfold returnStatus
    split <;> simp
  cases pc with
  | load =>
      simp only [waiterStep] at h
      split at h
      · simp [hreturn] at h
      · next ht =>
        obtain ⟨rfl, -⟩ := Prod.mk.inj (Option.some.inj h)
        simpa using ht
  | start => simp only [waiterStep] at h; split at h <;> simp [hreturn] at h
  | enqueueFailureLoad => simp [waiterStep, hreturn] at h
  | registerWaiter | enqueue | enqueueFailure _ _ | admission _ | cleanup _ =>
      simp only [waiterStep] at h
      split at h <;> simp at h
  | park =>
      simp only [waiterStep] at h
      split at h
      · simp at h
      · split at h <;> simp at h
  | returned _ | panicked => simp [waiterStep] at h

/-! ## §8  Runs of the latch -/

section Runs

variable [DecidableEq α] [DecidableEq κ] {delivered : α → S}

/-- The assertions of all parties, free of interference. -/
def latchAssertions (delivered : α → S) :
    Assertions (latch (κ := κ) delivered) where
  holds
    | .waiter, s, pc => WaiterPc.Asserts s pc
    | .acknowledgement _, _, pc => AcknowledgementPc.Sound pc
    | .closer _, _, pc => CloserPc.Sound pc
  own := by
    intro i s l s' l' h hs
    cases i with
    | waiter =>
        obtain ⟨enqueueStatus, spurious, hs⟩ := hs
        exact (waiterStep_spec h hs).1
    | acknowledgement a => exact (acknowledgementStep_spec h hs).2
    | closer k => exact (closerStep_spec h hs).2
  free := by
    intro i j s li lj s' lj' hij hi hj hs
    cases i with
    | waiter =>
        cases j with
        | waiter => exact absurd rfl hij
        | acknowledgement a =>
            exact asserts_of_interferes hi (acknowledgementStep_spec hj hs).1
        | closer k => exact asserts_of_interferes hi (closerStep_spec hj hs).1
    | acknowledgement a => exact hi
    | closer k => exact hi

/-- The configurations some run from a fresh latch reaches. -/
def Reachable (c : Config (latch (κ := κ) delivered)) : Prop :=
  Steps (initial delivered) c

theorem reachable_holds {c : Config (latch (κ := κ) delivered)}
    (h : Reachable c) : (latchAssertions delivered).Holds c := by
  refine (latchAssertions delivered).steps ?_ h
  intro i
  cases i with
  | waiter => exact ⟨.inl rfl, rfl⟩
  | acknowledgement a => trivial
  | closer k => trivial

/-- The outcome of the configuration is committed. -/
def Committed (c : Config (latch (κ := κ) delivered)) : Prop :=
  isTerminalOutcome c.shared.outcome = true

/-- **A committed outcome is final**: no step changes it. -/
theorem outcome_step {c c' : Config (latch (κ := κ) delivered)}
    (h : (latchAssertions delivered).Holds c) (hc : Committed c)
    (hs : Step c c') : c'.shared.outcome = c.shared.outcome := by
  obtain ⟨i, s', l', hs, rfl⟩ := hs
  have of_interferes : Interferes c.shared s' →
      s'.outcome = c.shared.outcome := by
    rintro ⟨-, heq | ⟨hne, -⟩⟩
    · exact heq
    · simp [ignoresAcknowledgement, show isTerminalOutcome _ = true from hc] at hne
  cases i with
  | waiter =>
      obtain ⟨enqueueStatus, spurious, hs⟩ := hs
      exact (waiterStep_spec (h .waiter) hs).2 hc
  | acknowledgement a =>
      exact of_interferes (acknowledgementStep_spec (h (.acknowledgement a)) hs).1
  | closer k => exact of_interferes (closerStep_spec (h (.closer k)) hs).1

/-- A property of configurations that, together with the assertions and a
committed outcome, every step keeps, every run keeps. -/
theorem committed_induct {P : Config (latch (κ := κ) delivered) → Prop}
    {c c' : Config (latch (κ := κ) delivered)}
    (hstep : ∀ a b, (latchAssertions delivered).Holds a → Committed a →
      P a → Step a b → P b)
    (h : (latchAssertions delivered).Holds c) (hc : Committed c) (hp : P c)
    (run : Steps c c') : P c' ∧ c'.shared.outcome = c.shared.outcome := by
  have key : (latchAssertions delivered).Holds c' ∧
      c'.shared.outcome = c.shared.outcome ∧ P c' := by
    refine steps_induct (P := fun d => (latchAssertions delivered).Holds d ∧
      d.shared.outcome = c.shared.outcome ∧ P d) ?_ ⟨h, rfl, hp⟩ run
    rintro a b ⟨ha, hout, hpa⟩ hs
    have hca : Committed a := by rw [Committed, hout]; exact hc
    exact ⟨(latchAssertions delivered).holds_step ha hs,
      (outcome_step ha hca hs).trans hout, hstep a b ha hca hpa hs⟩
  exact ⟨key.2.2, key.2.1⟩

/-- Some party is about to unpark the waiter. -/
def WakePending (c : Config (latch (κ := κ) delivered)) : Prop :=
  (∃ a, c.locals (.acknowledgement a) = AcknowledgementPc.commit .unpark) ∨
    ∃ k, c.locals (.closer k) = CloserPc.unpark

/-- A parked waiter with a committed outcome has its wake-up coming. -/
def WakesUp (c : Config (latch (κ := κ) delivered)) : Prop :=
  Committed c → c.locals .waiter = WaiterPc.park →
    c.shared.token = true ∨ WakePending c

theorem wakesUp_step {c c' : Config (latch (κ := κ) delivered)}
    (h : (latchAssertions delivered).Holds c) (hw : WakesUp c)
    (hs : Step c c') : WakesUp c' := by
  obtain ⟨i, s', l', hs, rfl⟩ := hs
  intro hcom hpark
  cases i with
  | waiter =>
      obtain ⟨enqueueStatus, spurious, hs⟩ := hs
      obtain rfl : l' = WaiterPc.park := by simpa using hpark
      simp [Committed, waiterStep_park hs] at hcom
  | acknowledgement a =>
      replace hpark : c.locals .waiter = WaiterPc.park := by simpa using hpark
      have hreg : c.shared.waiter = true := by
        have := h .waiter
        rw [hpark] at this
        exact this.2
      have hwake := acknowledgementStep_wakes (h (.acknowledgement a)) hs
      by_cases hc : Committed c
      · rcases hw hc hpark with htok | ⟨b, hb⟩ | ⟨k, hk⟩
        · exact .inl (hwake.token htok)
        · by_cases hba : b = a
          · subst hba
            exact .inl (hwake.unpark hb hreg)
          · exact .inr (.inl ⟨b, by simpa [Function.update_of_ne, hba] using hb⟩)
        · exact .inr (.inr ⟨k, by simpa using hk⟩)
      · have := hwake.commit (by simpa [Committed] using hc) hcom
        exact .inr (.inl ⟨a, (Function.update_self ..).trans this⟩)
  | closer k =>
      replace hpark : c.locals .waiter = WaiterPc.park := by simpa using hpark
      have hreg : c.shared.waiter = true := by
        have := h .waiter
        rw [hpark] at this
        exact this.2
      have hwake := closerStep_wakes (h (.closer k)) hs
      by_cases hc : Committed c
      · rcases hw hc hpark with htok | ⟨b, hb⟩ | ⟨j, hj⟩
        · exact .inl (hwake.token htok)
        · exact .inr (.inl ⟨b, by simpa using hb⟩)
        · by_cases hjk : j = k
          · subst hjk
            exact .inl (hwake.unpark hj hreg)
          · exact .inr (.inr ⟨j, by simpa [Function.update_of_ne, hjk] using hj⟩)
      · have := hwake.commit (by simpa [Committed] using hc) hcom
        exact .inr (.inr ⟨k, (Function.update_self ..).trans this⟩)

/-- **No wake-up is lost.** -/
theorem reachable_wakesUp {c : Config (latch (κ := κ) delivered)}
    (h : Reachable c) : WakesUp c := by
  have key : (latchAssertions delivered).Holds c ∧ WakesUp c := by
    refine steps_induct (P := fun d => (latchAssertions delivered).Holds d ∧
      WakesUp d) ?_ ⟨reachable_holds .refl, ?_⟩ h
    · rintro a b ⟨ha, hw⟩ hs
      exact ⟨(latchAssertions delivered).holds_step ha hs, wakesUp_step ha hw hs⟩
    · intro hc
      simp [Committed, initial, TerminalLatchState.new, isTerminalOutcome] at hc
  exact key.2

/-- The waiter has not called, or was turned away at the door. -/
def NotAdmitted (c : Config (latch (κ := κ) delivered)) : Prop :=
  c.locals .waiter = WaiterPc.start ∨
    ∃ status, c.locals .waiter = WaiterPc.returned status

/-- Once an outcome is committed before the waiter calls, the waiter is never
admitted. -/
theorem notAdmitted_step {c c' : Config (latch (κ := κ) delivered)}
    (hc : Committed c)
    (hn : NotAdmitted c) (hs : Step c c') : NotAdmitted c' := by
  obtain ⟨i, s', l', hs, rfl⟩ := hs
  cases i with
  | waiter =>
      obtain ⟨enqueueStatus, spurious, hs⟩ := hs
      rcases hn with hn | ⟨status, hn⟩
      · rw [hn] at hs
        have hne : c.shared.outcome ≠ terminalPending := by
          intro hp
          simp [Committed, hp, isTerminalOutcome] at hc
        simp only [waiterStep, TerminalLatchState.compareExchange,
          if_neg hne] at hs
        obtain ⟨-, hl⟩ := Prod.mk.inj (Option.some.inj hs)
        cases hst : (statusForTerminalOutcome c.shared.outcome : Option S) with
        | some status =>
            have hl' : l' = WaiterPc.returned status := by
              rw [← hl, returnStatus, hst]
            exact .inr ⟨status,
              (Function.update_self Party.waiter l' c.locals).trans hl'⟩
        | none =>
            rw [statusForTerminalOutcome_eq_none_iff] at hst
            simp [Committed, hst] at hc
      · rw [hn] at hs
        simp [waiterStep] at hs
  | acknowledgement a => simpa [NotAdmitted] using hn
  | closer k => simpa [NotAdmitted] using hn

/-- The acknowledgement has not begun, or it has been ignored. -/
def Ignored (a : α) (c : Config (latch (κ := κ) delivered)) : Prop :=
  c.locals (.acknowledgement a) = AcknowledgementPc.commit .load ∨
    c.locals (.acknowledgement a) = AcknowledgementPc.done

theorem ignored_step {a : α} {c c' : Config (latch (κ := κ) delivered)}
    (hc : Committed c) (hi : Ignored a c) (hs : Step c c') : Ignored a c' := by
  obtain ⟨i, s', l', hs, rfl⟩ := hs
  cases i with
  | waiter => simpa [Ignored] using hi
  | closer k => simpa [Ignored] using hi
  | acknowledgement b =>
      by_cases hba : a = b
      · subst hba
        replace hs : acknowledgementStep (delivered a) c.shared
            (c.locals (.acknowledgement a)) = some (s', l') := hs
        rcases hi with hi | hi
        · rw [hi] at hs
          simp only [acknowledgementStep, commitStatusStep, commitStep,
            ignoresAcknowledgement, show isTerminalOutcome _ = true from hc,
            Bool.true_or, if_true] at hs
          obtain ⟨-, hl⟩ := Prod.mk.inj (Option.some.inj hs)
          exact .inr ((Function.update_self ..).trans hl.symm)
        · rw [hi] at hs
          simp [acknowledgementStep] at hs
      · simpa [Ignored, Function.update_of_ne, hba] using hi

/-- The step from `c` to `c'` commits an outcome. -/
def Commits (c c' : Config (latch (κ := κ) delivered)) : Prop :=
  ¬ Committed c ∧ Committed c'

/-- **The one-shot commit protocol**, as seen from one configuration of a run
and from everything that can follow it. -/
structure OneShotCommit (c : Config (latch (κ := κ) delivered)) : Prop where
  /-- A committed outcome never changes. -/
  final : ∀ c', Committed c → Steps c c' → c'.shared.outcome = c.shared.outcome
  /-- After a step that commits an outcome, no later step commits one. -/
  once : ∀ c₁ c₂ c₃, Step c c₁ → Commits c c₁ → Steps c₁ c₂ →
    Step c₂ c₃ → ¬ Commits c₂ c₃
  /-- The waiter returns the status of the committed outcome. -/
  returns : ∀ status, c.locals .waiter = WaiterPc.returned status →
    Committed c ∧ statusForTerminalOutcome c.shared.outcome = some status
  /-- Cleanup of the pending state shuts the enqueue callback out. -/
  closed : ∀ c', c.locals .waiter = WaiterPc.start →
    c.shared.outcome = terminalClosing → Steps c c' →
    c'.locals .waiter = WaiterPc.start ∨
      c'.locals .waiter = WaiterPc.returned Status.closing
  /-- An acknowledgement that begins after the commit does nothing. -/
  ignores : ∀ a c', Committed c →
    c.locals (.acknowledgement a) = AcknowledgementPc.commit .load →
    Steps c c' → c'.shared.outcome = c.shared.outcome ∧
      (c'.locals (.acknowledgement a) = AcknowledgementPc.commit .load ∨
        c'.locals (.acknowledgement a) = AcknowledgementPc.done)
  /-- A parked waiter whose outcome is committed has a wake-up pending. -/
  wakes : Committed c → c.locals .waiter = WaiterPc.park →
    c.shared.token = true ∨ WakePending c
  /-- No `unreachable!` arm and no assertion fires. -/
  reaches : c.locals .waiter ≠ WaiterPc.panicked

/-- **`TerminalLatch` is a one-shot commit protocol** for one waiter and any
number of acknowledgements and cleanups, in every interleaving. -/
theorem terminalLatch_oneShotCommit (delivered : α → S)
    (c : Config (latch (κ := κ) delivered)) (h : Reachable c) :
    OneShotCommit c := by
  have hA := reachable_holds h
  have final : ∀ d : Config (latch (κ := κ) delivered),
      (latchAssertions delivered).Holds d → Committed d →
      ∀ d', Steps d d' → d'.shared.outcome = d.shared.outcome :=
    fun d hd hc d' run => (committed_induct (P := fun _ => True)
      (fun _ _ _ _ _ _ => trivial) hd hc trivial run).2
  refine ⟨fun c' hc => final c hA hc c', ?_, ?_, ?_, ?_, reachable_wakesUp h, ?_⟩
  · rintro c₁ c₂ c₃ h1 ⟨-, hc1⟩ run - ⟨hn, -⟩
    have hA1 := (latchAssertions delivered).holds_step hA h1
    exact hn (by rw [Committed, final c₁ hA1 hc1 c₂ run]; exact hc1)
  · intro status hret
    have := hA .waiter
    rw [hret] at this
    exact this
  · intro c' hstart hclosing run
    have hc : Committed c := by simp [Committed, hclosing, isTerminalOutcome]
    obtain ⟨hn, hout⟩ := committed_induct (P := NotAdmitted)
      (fun _ _ _ => notAdmitted_step) hA hc (.inl hstart) run
    rcases hn with hn | ⟨status, hn⟩
    · exact .inl hn
    · have := (latchAssertions delivered).steps hA run .waiter
      rw [hn] at this
      have hst := this.2
      rw [hout, hclosing, statusForTerminalOutcome, if_pos rfl] at hst
      exact .inr (by rw [hn, Option.some.inj hst])
  · intro a c' hc hload run
    obtain ⟨hi, hout⟩ := committed_induct (P := Ignored a)
      (fun _ _ _ hc => ignored_step hc) hA hc (.inl hload) run
    exact ⟨hout, hi⟩
  · intro hpanic
    have := hA .waiter
    rw [hpanic] at this
    exact this

end Runs

/-- The statuses the adapter meets, with their N-API codes. -/
inductive NodeApiStatus where
  | ok | invalidArg | pendingException | queueFull | closing | unknown
  deriving DecidableEq

instance : Status NodeApiStatus where
  toCode
    | .ok => 0
    | .invalidArg => 1
    | .pendingException => 10
    | .queueFull => 15
    | .closing => 16
    | .unknown => 1024
  ofCode code :=
    if code = 0 then .ok
    else if code = 1 then .invalidArg
    else if code = 10 then .pendingException
    else if code = 15 then .queueFull
    else if code = 16 then .closing
    else .unknown
  ok := .ok
  closing := .closing
  toCode_nonneg status := by cases status <;> simp

/-- The waiter is inside its callback when the one acknowledgement, of a full
queue, has just committed. -/
def acknowledgedDuringEnqueue :
    Config (latch (α := Unit) (κ := Empty) (fun _ => NodeApiStatus.queueFull)) where
  shared := { TerminalLatchState.new with outcome := 15, waiter := true }
  locals
    | .waiter => WaiterPc.enqueue
    | .acknowledgement _ => AcknowledgementPc.commit .unpark
    | .closer k => k.elim

theorem terminalLatch_oneShotCommit_queueFull :
    Committed acknowledgedDuringEnqueue ∧
      OneShotCommit acknowledgedDuringEnqueue := by
  refine ⟨rfl, terminalLatch_oneShotCommit _ _ ?_⟩
  have hend : ∀ (s : TerminalLatchState)
      (f g : (i : Party Unit Empty) →
        (latch (fun _ => NodeApiStatus.queueFull)).Local i),
      f .waiter = g .waiter → f (.acknowledgement ()) = g (.acknowledgement ()) →
      (⟨s, f⟩ : Config (latch fun _ => NodeApiStatus.queueFull)) = ⟨s, g⟩ := by
    intro s f g hw ha
    congr 1
    funext i
    rcases i with _ | ⟨⟩ | k
    · exact hw
    · exact ha
    · exact k.elim
  refine Relation.ReflTransGen.tail (Relation.ReflTransGen.tail
    (Relation.ReflTransGen.tail (Relation.ReflTransGen.tail .refl
      ⟨.waiter, _, _, ⟨.ok, false, rfl⟩, rfl⟩)
      ⟨.waiter, _, _, ⟨.ok, false, rfl⟩, rfl⟩)
      ⟨.acknowledgement (), _, _, rfl, rfl⟩)
      ⟨.acknowledgement (), _, _, rfl, hend _ _ _ rfl rfl⟩

end PolygonNesting.Napi
