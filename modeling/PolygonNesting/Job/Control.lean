import Mathlib.Logic.Function.Basic
import PolygonNesting.Domain

/-!
# Cancellation control and engine outcomes

`CancellationControl` is one atomic byte that leaves `RUNNING` once.  Every method is one
atomic operation on it, so its model is a function of the state; the interleavings are
in the modules that use it.
-/

namespace PolygonNesting

/-! ## §1  The control -/

inductive CancelReason where
  | cancelled
  | deadline
  deriving DecidableEq

/-- The four values of the atomic byte. -/
inductive ControlState where
  | running
  | cancelled
  | deadline
  | completed
  deriving DecidableEq

def CancelReason.terminal : CancelReason → ControlState
  | .cancelled => .cancelled
  | .deadline => .deadline

namespace ControlState

/-- `compare_exchange` from `RUNNING`: `true` when it wrote. -/
def compareExchange (state terminal : ControlState) : ControlState × Bool :=
  if state = .running then (terminal, true) else (state, false)

def cancel (state : ControlState) (reason : CancelReason) : ControlState × Bool :=
  state.compareExchange reason.terminal

def tryComplete (state : ControlState) : ControlState × Bool :=
  state.compareExchange .completed

def reason : ControlState → Option CancelReason
  | .running | .completed => none
  | .cancelled => some .cancelled
  | .deadline => some .deadline

/-- `checkpoint`. -/
def checkpoint (state : ControlState) : Except CancelReason Unit :=
  match state.reason with
  | none => .ok ()
  | some reason => .error reason

theorem compareExchange_cases (state terminal : ControlState) :
    (state = .running ∧ state.compareExchange terminal = (terminal, true)) ∨
      (state ≠ .running ∧ state.compareExchange terminal = (state, false)) := by
  unfold compareExchange
  by_cases h : state = .running
  · rw [if_pos h]
    exact .inl ⟨h, rfl⟩
  · rw [if_neg h]
    exact .inr ⟨h, rfl⟩

theorem reason_terminal (reason : CancelReason) : reason.terminal.reason = some reason := by
  cases reason <;> rfl

theorem terminal_ne_running (reason : CancelReason) : reason.terminal ≠ .running := by
  cases reason <;> nofun

theorem terminal_ne_completed (reason : CancelReason) : reason.terminal ≠ .completed := by
  cases reason <;> nofun

end ControlState

/-! ## §2  Errors and outcomes -/

inductive EngineErrorCode where
  | malformedInput
  | protocolVersionMismatch
  | archiveIneligible
  | invalidGeometry
  | cancelled
  | deadlineExceeded
  | engineFailure
  | internalFailure
  | ioFailure
  deriving DecidableEq

/-- The context is a map from keys to texts. -/
structure EngineError where
  category : EngineErrorCode
  operation : String
  message : String
  context : String → Option String

namespace EngineError

def new (category : EngineErrorCode) (operation message : String) : EngineError :=
  ⟨category, operation, message, fun _ => none⟩

def withContext (error : EngineError) (key value : String) : EngineError :=
  { error with context := Function.update error.context key (some value) }

end EngineError

inductive ArchiveIneligibilityReason where
  | archiveDisabled
  | shortSideFill
  | gaActive
  deriving DecidableEq

def ArchiveIneligibilityReason.asStr : ArchiveIneligibilityReason → String
  | .archiveDisabled => "archive-disabled"
  | .shortSideFill => "short-side-fill"
  | .gaActive => "ga-active"

def EngineError.archiveIneligible (reason : ArchiveIneligibilityReason) : EngineError :=
  (EngineError.new .archiveIneligible "archive-ineligible"
    ("request is not eligible for the supported polygon nesting archive path: " ++
      reason.asStr)).withContext "reason" reason.asStr

structure ExecutionDiagnostics (F : Type) where
  requestedWorkers : Option ℕ := none
  actualWorkers : Option ℕ := none
  elapsedMs : Option F := none
  counters : String → Option ℕ := fun _ => none

/-- An outcome over the results `ρ` of the engine. -/
inductive EngineOutcome (ρ F : Type) where
  | success (result : ρ) (diagnostics : ExecutionDiagnostics F)
  | failure (error : EngineError) (diagnostics : ExecutionDiagnostics F)
  | archiveIneligible (reason : ArchiveIneligibilityReason) (error : EngineError)
      (diagnostics : ExecutionDiagnostics F)

inductive IrregularPortfolioErrorCategory where
  | geometry
  | scoring
  | search
  deriving DecidableEq

/-- `IrregularComputeErrorType`, with the fields that its projection reads. -/
inductive IrregularComputeError where
  | compute (preparedPieceId sourcePieceId message : String)
  | geometryInput (operation message : String)
  | nfpIfpControlAbort (reason : NfpIfpAbortReason) (message : String)
  | noValidResult (operation message : String)
  | notImplemented (service operation message : String)
  | portfolio (category : IrregularPortfolioErrorCategory) (operation message : String)
  | placementScoring (operation message : String)
  | layoutScoring (operation message : String)

def computeOperation : String := "computeIrregularNesting"

/-- `project_error`. -/
def projectError : IrregularComputeError → EngineError
  | .nfpIfpControlAbort .cancelled message =>
      (EngineError.new .cancelled computeOperation message).withContext "reason" "cancelled"
  | .nfpIfpControlAbort .deadline message =>
      (EngineError.new .deadlineExceeded computeOperation message).withContext "reason"
        "deadline"
  | .geometryInput operation message =>
      (EngineError.new .invalidGeometry operation message).withContext "operation" operation
  | .compute preparedPieceId sourcePieceId message =>
      ((EngineError.new .invalidGeometry computeOperation message).withContext
        "preparedPieceId" preparedPieceId).withContext "sourcePieceId" sourcePieceId
  | .noValidResult operation message =>
      (EngineError.new .engineFailure operation message).withContext "operation" operation
  | .notImplemented service operation message =>
      ((EngineError.new .internalFailure operation message).withContext
        "service" service).withContext "operation" operation
  | .portfolio category operation message =>
      let (code, contextCategory) := match category with
        | .geometry => (EngineErrorCode.invalidGeometry, "geometry")
        | .scoring => (EngineErrorCode.engineFailure, "scoring")
        | .search => (EngineErrorCode.engineFailure, "search")
      ((EngineError.new code operation message).withContext
        "operation" operation).withContext "category" contextCategory
  | .placementScoring operation message =>
      (EngineError.new .engineFailure operation message).withContext "operation" operation
  | .layoutScoring operation message =>
      (EngineError.new .engineFailure operation message).withContext "operation" operation

/-- `internal_failure`. -/
def internalFailure (operation : String) : EngineError :=
  EngineError.new .internalFailure operation "polygon nesting execution failed internally"

section
variable {ρ F : Type}

/-- `control_failure_outcome`, of the state it reads. -/
def controlFailureOutcome (state : ControlState) : Option (EngineOutcome ρ F) :=
  state.reason.map fun reason =>
    let error := match reason with
      | .cancelled => (EngineError.new .cancelled computeOperation
          "cancelled by caller").withContext "reason" "cancelled"
      | .deadline => (EngineError.new .deadlineExceeded computeOperation
          "deadline exceeded").withContext "reason" "deadline"
    .failure error {}

/-- `outcome_cancel_reason`. -/
def outcomeCancelReason : EngineOutcome ρ F → Option CancelReason
  | .failure error _ =>
      match error.category with
      | .cancelled => some .cancelled
      | .deadlineExceeded => some .deadline
      | _ => none
  | _ => none

/-- A failure outcome of the control carries the reason that it read. -/
theorem outcomeCancelReason_of_controlFailureOutcome {state : ControlState}
    {outcome : EngineOutcome ρ F} (h : controlFailureOutcome state = some outcome) :
    outcomeCancelReason outcome = state.reason := by
  unfold controlFailureOutcome at h
  cases hreason : state.reason with
  | none =>
      rw [hreason] at h
      cases h
  | some reason =>
      rw [hreason] at h
      cases reason <;> cases h <;> rfl

end

end PolygonNesting
