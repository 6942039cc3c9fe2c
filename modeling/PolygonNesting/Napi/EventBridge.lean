import Mathlib.Data.List.Induction
import Mathlib.Data.List.Range
import PolygonNesting.Napi.TerminalLatch

/-!
# The event bridge

The core numbers its events from zero.  The N-API adapter forwards each frame to
JavaScript or filters it out, appends one terminal frame of its own, and keeps the
first delivery failure.  Three pieces of state decide what a call may do: the next
ordinal, whether the terminal frame was emitted, and the first failure.

The sink of a call is its reply: the failures that JavaScript callbacks reported
meanwhile, and the status it answers.  For the terminal frame the reply also says
whether the latch called its enqueue callback at all.  A callback may report a
failure between two calls as well.
-/

set_option linter.unusedSectionVars false

namespace PolygonNesting.Napi

/-! ## §1  Frames and failures -/

/-- `u64::checked_add`. -/
def checkedAdd (a b : UInt64) : Option UInt64 :=
  if a.toNat + b.toNat < UInt64.size then some (a + b) else none

/-- `u64::saturating_add`. -/
def saturatingAdd (a b : UInt64) : UInt64 :=
  (checkedAdd a b).getD (UInt64.ofNat (UInt64.size - 1))

structure SequencedEngineEvent (E : Type) where
  ordinal : UInt64
  event : E
  deriving DecidableEq

inductive EventFrame (E : Type) where
  | core (event : SequencedEngineEvent E)
  | terminal (ordinal : UInt64)
  deriving DecidableEq

def EventFrame.ordinal {E : Type} : EventFrame E → UInt64
  | .core event => event.ordinal
  | .terminal ordinal => ordinal

/-- The status that rejects a call, beside those of the latch.  Reading the code of
a status gives it back. -/
class BridgeStatus (S : Type) extends Status S where
  invalidArg : S
  ofCode_toCode : ∀ status : S, ofCode (toCode status) = status

instance : BridgeStatus NodeApiStatus where
  invalidArg := .invalidArg
  ofCode_toCode status := by cases status <;> rfl

variable {E S : Type} [DecidableEq S] [BridgeStatus S]

abbrev noDeliveryFailure : Int := -1

/-- The code of the first failure. -/
structure DeliveryFailure where
  first : Int
  deriving DecidableEq

namespace DeliveryFailure

def new : DeliveryFailure := ⟨noDeliveryFailure⟩

/-- One compare-exchange: only the first status is kept. -/
def record (failure : DeliveryFailure) (status : S) : DeliveryFailure :=
  if failure.first = noDeliveryFailure then ⟨Status.toCode status⟩ else failure

def status (failure : DeliveryFailure) : Option S :=
  if failure.first = noDeliveryFailure then none
  else some (Status.ofCode failure.first)

end DeliveryFailure

/-! ## §2  The bridge -/

structure EventBridge where
  nextOrdinal : UInt64
  terminalEmitted : Bool
  deliveryFailure : DeliveryFailure
  deriving DecidableEq

/-- What the sink of a call does with its frame. -/
structure SinkReply (S : Type) where
  reported : List S
  status : S

/-- What the latch does with the terminal frame. -/
structure LatchReply (S : Type) where
  enqueued : Bool
  reply : SinkReply S

namespace EventBridge

def new : EventBridge := ⟨0, false, .new⟩

def firstDeliveryFailure (bridge : EventBridge) : Option S := bridge.deliveryFailure.status

/-- A callback reports its failure. -/
def record (bridge : EventBridge) (status : S) : EventBridge :=
  { bridge with deliveryFailure := bridge.deliveryFailure.record status }

/-- The failures of a reply, as they are recorded. -/
def settle (bridge : EventBridge) (reply : SinkReply S) : EventBridge :=
  let bridge := reply.reported.foldl record bridge
  if reply.status = Status.ok then bridge else bridge.record reply.status

/-- `deliver_core`: the bridge after the call, its status, and the frame the sink
was given. -/
def deliverCore (bridge : EventBridge) (event : SequencedEngineEvent E)
    (deliver : EventFrame E → SinkReply S) : EventBridge × S × Option (EventFrame E) :=
  if bridge.terminalEmitted then (bridge, Status.ok, none)
  else
    match checkedAdd event.ordinal 1 with
    | none => (bridge.record (BridgeStatus.invalidArg : S), BridgeStatus.invalidArg, none)
    | some nextOrdinal =>
        if event.ordinal ≠ bridge.nextOrdinal then
          (bridge.record (BridgeStatus.invalidArg : S), BridgeStatus.invalidArg, none)
        else
          let reply := deliver (.core event)
          (settle { bridge with nextOrdinal := nextOrdinal } reply, reply.status,
            some (.core event))

/-- `skip_core`: the sink is a closure that always answers `Ok`, and JavaScript is
given nothing. -/
def skipCore (bridge : EventBridge) (event : SequencedEngineEvent E) : EventBridge × S :=
  let (bridge, status, _) := bridge.deliverCore event fun _ => ⟨[], Status.ok⟩
  (bridge, status)

/-- `emit_terminal_and_wait`. -/
def emitTerminalAndWait (bridge : EventBridge) (latch : EventFrame E → LatchReply S) :
    EventBridge × S × Option (EventFrame E) :=
  if bridge.terminalEmitted then (bridge, Status.ok, none)
  else
    let frame := EventFrame.terminal bridge.nextOrdinal
    let answer := latch frame
    (settle { bridge with
        terminalEmitted := true
        nextOrdinal := saturatingAdd bridge.nextOrdinal 1 } answer.reply,
      answer.reply.status, if answer.enqueued then some frame else none)

end EventBridge

/-! ## §3  Runs -/

/-- A call of the bridge with the reply it meets, or a failure reported between
calls. -/
inductive BridgeCall (E S : Type) where
  | deliverCore (event : SequencedEngineEvent E) (reply : SinkReply S)
  | skipCore (event : SequencedEngineEvent E)
  | emitTerminal (reply : LatchReply S)
  | callbackFailed (status : S)

/-- The bridge and what happened so far: the core ordinals consumed, the frames
given to JavaScript, and the failures in the order they occurred. -/
structure BridgeHistory (E S : Type) where
  bridge : EventBridge
  consumed : List UInt64
  frames : List (EventFrame E)
  failures : List S

namespace EventBridge

/-- The bridge takes the event: it is the next one and leaves room for another. -/
def accepts (bridge : EventBridge) (event : SequencedEngineEvent E) : Bool :=
  !bridge.terminalEmitted && (checkedAdd event.ordinal 1).isSome &&
    event.ordinal == bridge.nextOrdinal

/-- The bridge rejects the event. -/
def rejects (bridge : EventBridge) (event : SequencedEngineEvent E) : Bool :=
  !bridge.terminalEmitted && !bridge.accepts event

end EventBridge

def SinkReply.failures (reply : SinkReply S) : List S :=
  reply.reported ++ if reply.status = Status.ok then [] else [reply.status]

namespace BridgeHistory

def new : BridgeHistory E S := ⟨.new, [], [], []⟩

/-- What offering an event adds to the history, apart from its frame. -/
def offer (history : BridgeHistory E S) (event : SequencedEngineEvent E)
    (failures : List S) (bridge : EventBridge) (frame : Option (EventFrame E)) :
    BridgeHistory E S where
  bridge := bridge
  consumed := history.consumed ++
    if history.bridge.accepts event then [event.ordinal] else []
  frames := history.frames ++ frame.toList
  failures := history.failures ++
    if history.bridge.accepts event then failures
    else if history.bridge.rejects event then [BridgeStatus.invalidArg] else []

def step (history : BridgeHistory E S) : BridgeCall E S → BridgeHistory E S
  | .deliverCore event reply =>
      let (bridge, _, frame) := history.bridge.deliverCore event fun _ => reply
      history.offer event reply.failures bridge frame
  | .skipCore event =>
      history.offer event [] (history.bridge.skipCore (S := S) event).1 none
  | .emitTerminal reply =>
      let (bridge, _, frame) := history.bridge.emitTerminalAndWait fun _ => reply
      { history with
        bridge := bridge
        frames := history.frames ++ frame.toList
        failures := history.failures ++
          if history.bridge.terminalEmitted then [] else reply.reply.failures }
  | .callbackFailed status =>
      { history with
        bridge := history.bridge.record status
        failures := history.failures ++ [status] }

def run (calls : List (BridgeCall E S)) : BridgeHistory E S := calls.foldl step new

end BridgeHistory

/-! ## §4  What one call does -/

theorem checkedAdd_toNat {a b sum : UInt64} (hsum : checkedAdd a b = some sum) :
    sum.toNat = a.toNat + b.toNat := by
  unfold checkedAdd at hsum
  split at hsum
  · rename_i hlt
    cases hsum
    rw [UInt64.toNat_add, Nat.mod_eq_of_lt hlt]
  · cases hsum

theorem DeliveryFailure.status_record (failure : DeliveryFailure) (status : S) :
    (failure.record status).status = failure.status.or (some status) := by
  unfold DeliveryFailure.record DeliveryFailure.status
  split
  · have hcode := Status.toCode_nonneg status
    rw [if_neg (by unfold noDeliveryFailure; dsimp only; omega), Option.none_or]
    exact congrArg some (BridgeStatus.ofCode_toCode status)
  · rfl

namespace EventBridge

@[simp] theorem nextOrdinal_record (bridge : EventBridge) (status : S) :
    (bridge.record status).nextOrdinal = bridge.nextOrdinal := rfl

@[simp] theorem terminalEmitted_record (bridge : EventBridge) (status : S) :
    (bridge.record status).terminalEmitted = bridge.terminalEmitted := rfl

/-- Only the first failure is kept. -/
@[simp] theorem firstDeliveryFailure_record (bridge : EventBridge) (status : S) :
    (bridge.record status).firstDeliveryFailure =
      bridge.firstDeliveryFailure.or (some status) :=
  bridge.deliveryFailure.status_record status

theorem foldl_record (reported : List S) : ∀ bridge : EventBridge,
    (reported.foldl record bridge).nextOrdinal = bridge.nextOrdinal ∧
      (reported.foldl record bridge).terminalEmitted = bridge.terminalEmitted ∧
      (reported.foldl record bridge).firstDeliveryFailure =
        (bridge.firstDeliveryFailure : Option S).or reported.head? := by
  induction reported with
  | nil => intro bridge; simp
  | cons status rest ih =>
      intro bridge
      obtain ⟨hnext, hterminal, hfailure⟩ := ih (bridge.record status)
      refine ⟨hnext, hterminal, ?_⟩
      rw [List.foldl_cons, hfailure, firstDeliveryFailure_record, Option.or_assoc]
      rfl

@[simp] theorem nextOrdinal_settle (bridge : EventBridge) (reply : SinkReply S) :
    (bridge.settle reply).nextOrdinal = bridge.nextOrdinal := by
  unfold settle
  dsimp only
  split
  · exact (foldl_record reply.reported bridge).1
  · exact (foldl_record reply.reported bridge).1

@[simp] theorem terminalEmitted_settle (bridge : EventBridge) (reply : SinkReply S) :
    (bridge.settle reply).terminalEmitted = bridge.terminalEmitted := by
  unfold settle
  dsimp only
  split
  · exact (foldl_record reply.reported bridge).2.1
  · exact (foldl_record reply.reported bridge).2.1

@[simp] theorem firstDeliveryFailure_settle (bridge : EventBridge)
    (reply : SinkReply S) :
    (bridge.settle reply).firstDeliveryFailure =
      (bridge.firstDeliveryFailure : Option S).or reply.failures.head? := by
  have hreported := (foldl_record reply.reported bridge).2.2
  unfold settle SinkReply.failures
  dsimp only
  split
  · rw [hreported, List.append_nil]
  · rw [firstDeliveryFailure_record, hreported, List.head?_append, Option.or_assoc]
    rfl

/-- Everything `deliver_core` can do: nothing once the terminal frame is out,
reject, or consume the event and give the sink its frame. -/
theorem deliverCore_cases (bridge : EventBridge) (event : SequencedEngineEvent E)
    (deliver : EventFrame E → SinkReply S) :
    (bridge.terminalEmitted = true ∧ bridge.accepts event = false ∧
      bridge.rejects event = false ∧
      bridge.deliverCore event deliver = (bridge, Status.ok, none)) ∨
    (bridge.terminalEmitted = false ∧ bridge.accepts event = false ∧
      bridge.rejects event = true ∧
      bridge.deliverCore event deliver =
        (bridge.record (BridgeStatus.invalidArg : S), BridgeStatus.invalidArg, none)) ∨
    (bridge.terminalEmitted = false ∧ bridge.accepts event = true ∧
      event.ordinal = bridge.nextOrdinal ∧
      ∃ next : UInt64, next.toNat = event.ordinal.toNat + 1 ∧
        bridge.deliverCore event deliver =
          (settle { bridge with nextOrdinal := next } (deliver (.core event)),
            (deliver (.core event)).status, some (.core event))) := by
  unfold deliverCore rejects accepts
  cases hterminal : bridge.terminalEmitted with
  | true => simp
  | false =>
      cases hnext : checkedAdd event.ordinal 1 with
      | none => simp
      | some next =>
          by_cases hordinal : event.ordinal = bridge.nextOrdinal
          · right; right
            simp only [hordinal, Bool.false_eq_true, if_false, not_true, ne_eq,
              Option.isSome_some, Bool.not_false, Bool.and_true, beq_self_eq_true,
              true_and]
            refine ⟨next, ?_, rfl⟩
            rw [← hordinal]
            exact checkedAdd_toNat hnext
          · right; left
            simp [hordinal]

/-- Skipping an event is delivering it to a sink that answers `Ok`. -/
theorem skipCore_fst (bridge : EventBridge) (event : SequencedEngineEvent E) :
    (bridge.skipCore (S := S) event).1 =
      (bridge.deliverCore event fun _ => (⟨[], Status.ok⟩ : SinkReply S)).1 := rfl

theorem emitTerminalAndWait_of_emitted {bridge : EventBridge}
    (hterminal : bridge.terminalEmitted = true)
    (latch : EventFrame E → LatchReply S) :
    bridge.emitTerminalAndWait latch = (bridge, Status.ok, none) :=
  if_pos hterminal

theorem emitTerminalAndWait_of_not_emitted {bridge : EventBridge}
    (hterminal : bridge.terminalEmitted = false)
    (latch : EventFrame E → LatchReply S) :
    bridge.emitTerminalAndWait latch =
      (settle { bridge with
          terminalEmitted := true
          nextOrdinal := saturatingAdd bridge.nextOrdinal 1 }
          (latch (.terminal bridge.nextOrdinal)).reply,
        (latch (.terminal bridge.nextOrdinal)).reply.status,
        if (latch (.terminal bridge.nextOrdinal)).enqueued
        then some (.terminal bridge.nextOrdinal) else none) :=
  if_neg (by simp [hterminal])

end EventBridge

/-! ## §5  The sequence law -/

/-- The invariant of a history.  `cores` are the core frames: the terminal frame
can only stand behind all of them. -/
structure SequenceLaw (history : BridgeHistory E S) : Prop where
  consumed : history.consumed.map UInt64.toNat = List.range history.consumed.length
  next : history.bridge.terminalEmitted = false →
    history.bridge.nextOrdinal.toNat = history.consumed.length
  frames : ∃ cores : List (SequencedEngineEvent E),
    (cores.map (·.ordinal)).Sublist history.consumed ∧
      (history.frames = cores.map .core ∨
        history.bridge.terminalEmitted = true ∧
          ∃ ordinal : UInt64, ordinal.toNat = history.consumed.length ∧
            history.frames = cores.map .core ++ [.terminal ordinal])
  failure : history.bridge.firstDeliveryFailure = history.failures.head?

namespace SequenceLaw

theorem new : SequenceLaw (BridgeHistory.new : BridgeHistory E S) where
  consumed := rfl
  next _ := rfl
  frames := ⟨[], by simp, .inl rfl⟩
  failure := rfl

/-- Before the terminal frame all frames are core frames. -/
theorem frames_of_not_emitted {history : BridgeHistory E S} (law : SequenceLaw history)
    (hterminal : history.bridge.terminalEmitted = false) :
    ∃ cores : List (SequencedEngineEvent E),
      (cores.map (·.ordinal)).Sublist history.consumed ∧
        history.frames = cores.map .core := by
  obtain ⟨cores, hsub, hframes | ⟨hemitted, _⟩⟩ := law.frames
  · exact ⟨cores, hsub, hframes⟩
  · rw [hterminal] at hemitted
    cases hemitted

/-- A consumed event extends the run of ordinals by one; `frames` is the core frame
or nothing. -/
theorem consume {history history' : BridgeHistory E S} (law : SequenceLaw history)
    {event : SequencedEngineEvent E} {frames : List (EventFrame E)} (failures : List S)
    (hterminal : history.bridge.terminalEmitted = false)
    (hordinal : event.ordinal = history.bridge.nextOrdinal)
    (hframes : frames = [.core event] ∨ frames = [])
    (hnext : history'.bridge.nextOrdinal.toNat = event.ordinal.toNat + 1)
    (hconsumed : history'.consumed = history.consumed ++ [event.ordinal])
    (hframes' : history'.frames = history.frames ++ frames)
    (hfailures : history'.failures = history.failures ++ failures)
    (hfailure : history'.bridge.firstDeliveryFailure =
      history.bridge.firstDeliveryFailure.or failures.head?) :
    SequenceLaw history' := by
  have hlast : event.ordinal.toNat = history.consumed.length := by
    rw [hordinal, law.next hterminal]
  obtain ⟨cores, hsub, hcores⟩ := law.frames_of_not_emitted hterminal
  refine ⟨?_, fun _ => ?_, ?_, ?_⟩
  · rw [hconsumed, List.map_append, law.consumed, List.length_append, List.map_singleton,
      List.length_singleton, List.range_succ, hlast]
  · rw [hnext, hconsumed, List.length_append, List.length_singleton, hlast]
  · rcases hframes with rfl | rfl
    · refine ⟨cores ++ [event], ?_, .inl ?_⟩
      · rw [hconsumed, List.map_append]
        exact hsub.append (List.Sublist.refl _)
      · rw [hframes', hcores, List.map_append]
        rfl
    · refine ⟨cores, ?_, .inl ?_⟩
      · rw [hconsumed]
        exact hsub.trans (List.sublist_append_left _ _)
      · rw [hframes', hcores, List.append_nil]
  · rw [hfailure, law.failure, hfailures, List.head?_append]

/-- A step that consumes and delivers nothing only records failures. -/
theorem onlyRecords {history history' : BridgeHistory E S} (law : SequenceLaw history)
    (failures : List S)
    (hterminal : history'.bridge.terminalEmitted = history.bridge.terminalEmitted)
    (hnext : history'.bridge.nextOrdinal = history.bridge.nextOrdinal)
    (hconsumed : history'.consumed = history.consumed)
    (hframes : history'.frames = history.frames)
    (hfailures : history'.failures = history.failures ++ failures)
    (hfailure : history'.bridge.firstDeliveryFailure =
      history.bridge.firstDeliveryFailure.or failures.head?) :
    SequenceLaw history' := by
  refine ⟨?_, ?_, ?_, ?_⟩
  · rw [hconsumed]
    exact law.consumed
  · rw [hterminal, hnext, hconsumed]
    exact law.next
  · rw [hterminal, hconsumed, hframes]
    exact law.frames
  · rw [hfailure, law.failure, hfailures, List.head?_append]

theorem step {history : BridgeHistory E S} (law : SequenceLaw history)
    (call : BridgeCall E S) : SequenceLaw (history.step call) := by
  cases call with
  | deliverCore event reply =>
      rcases history.bridge.deliverCore_cases event fun _ => reply with
        ⟨_, haccepts, hrejects, hcall⟩ | ⟨_, haccepts, hrejects, hcall⟩ |
          ⟨hterminal, haccepts, hordinal, next, hnext, hcall⟩
      · refine law.onlyRecords [] ?_ ?_ ?_ ?_ ?_ ?_ <;>
          simp [BridgeHistory.step, BridgeHistory.offer, hcall, haccepts, hrejects]
      · refine law.onlyRecords [BridgeStatus.invalidArg] ?_ ?_ ?_ ?_ ?_ ?_ <;>
          simp [BridgeHistory.step, BridgeHistory.offer, hcall, haccepts, hrejects]
      · refine law.consume reply.failures hterminal hordinal (.inl rfl) ?_ ?_ ?_ ?_ ?_ <;>
          simp [BridgeHistory.step, BridgeHistory.offer, hcall, haccepts, hnext]
        rfl
  | skipCore event =>
      have hskip := history.bridge.skipCore_fst (S := S) event
      rcases history.bridge.deliverCore_cases event
          fun _ => (⟨[], Status.ok⟩ : SinkReply S) with
        ⟨_, haccepts, hrejects, hcall⟩ | ⟨_, haccepts, hrejects, hcall⟩ |
          ⟨hterminal, haccepts, hordinal, next, hnext, hcall⟩
      · rw [hcall] at hskip
        refine law.onlyRecords [] ?_ ?_ ?_ ?_ ?_ ?_ <;>
          simp [BridgeHistory.step, BridgeHistory.offer, hskip, haccepts, hrejects]
      · rw [hcall] at hskip
        refine law.onlyRecords [BridgeStatus.invalidArg] ?_ ?_ ?_ ?_ ?_ ?_ <;>
          simp [BridgeHistory.step, BridgeHistory.offer, hskip, haccepts, hrejects]
      · rw [hcall] at hskip
        refine law.consume [] hterminal hordinal (.inr rfl) ?_ ?_ ?_ ?_ ?_ <;>
          simp [BridgeHistory.step, BridgeHistory.offer, hskip, haccepts, hterminal, hnext,
            SinkReply.failures]
        rfl
  | emitTerminal reply =>
      cases hterminal : history.bridge.terminalEmitted with
      | true =>
          have hcall := EventBridge.emitTerminalAndWait_of_emitted (E := E) hterminal
            fun _ => reply
          refine law.onlyRecords [] ?_ ?_ ?_ ?_ ?_ ?_ <;>
            simp [BridgeHistory.step, hcall, hterminal]
      | false =>
          have hcall := EventBridge.emitTerminalAndWait_of_not_emitted (E := E) hterminal
            fun _ => reply
          obtain ⟨cores, hsub, hcores⟩ := law.frames_of_not_emitted hterminal
          refine ⟨law.consumed, ?_, ⟨cores, hsub, ?_⟩, ?_⟩
          · simp [BridgeHistory.step, hcall]
          · cases henqueued : reply.enqueued with
            | true =>
                refine .inr ⟨?_, history.bridge.nextOrdinal, law.next hterminal, ?_⟩
                · simp [BridgeHistory.step, hcall]
                · simp [BridgeHistory.step, hcall, henqueued, hcores]
            | false =>
                refine .inl ?_
                simp [BridgeHistory.step, hcall, henqueued, hcores]
          · simp only [BridgeHistory.step, hcall, hterminal,
              EventBridge.firstDeliveryFailure_settle, List.head?_append,
              Bool.false_eq_true, if_false]
            rw [← law.failure]
            rfl
  | callbackFailed status =>
      refine law.onlyRecords [status] ?_ ?_ ?_ ?_ ?_ ?_ <;>
        simp [BridgeHistory.step]

theorem run (calls : List (BridgeCall E S)) : SequenceLaw (BridgeHistory.run calls) := by
  induction calls using List.reverseRecOn with
  | nil => exact new
  | append_singleton calls call law =>
      unfold BridgeHistory.run
      rw [List.foldl_append]
      exact law.step call

/-- The ordinals of the frames increase strictly. -/
theorem ordinals_increase {history : BridgeHistory E S} (law : SequenceLaw history) :
    (history.frames.map (·.ordinal.toNat)).Pairwise (· < ·) := by
  obtain ⟨cores, hsub, hframes⟩ := law.frames
  have hrange : (cores.map (·.ordinal.toNat)).Sublist
      (List.range history.consumed.length) := by
    have hmap := hsub.map UInt64.toNat
    rwa [law.consumed, List.map_map] at hmap
  have hcores : (cores.map (·.ordinal.toNat)).Pairwise (· < ·) :=
    List.pairwise_lt_range.sublist hrange
  have hmap : (cores.map (EventFrame.core (E := E))).map (·.ordinal.toNat) =
      cores.map (·.ordinal.toNat) := by
    rw [List.map_map]
    rfl
  rcases hframes with hframes | ⟨_, ordinal, hordinal, hframes⟩
  · rw [hframes, hmap]
    exact hcores
  · rw [hframes, List.map_append, hmap, List.pairwise_append]
    refine ⟨hcores, List.pairwise_singleton _ _, ?_⟩
    intro core hcore terminal hterminal
    have hlt := List.mem_range.1 (hrange.subset hcore)
    rw [List.map_singleton, List.mem_singleton] at hterminal
    rw [hterminal]
    exact hordinal ▸ hlt

/-- The number of consumed ordinals is the last of them plus one. -/
theorem length_consumed {history : BridgeHistory E S} (law : SequenceLaw history) :
    history.consumed.length = history.consumed.getLast?.elim 0 (·.toNat + 1) := by
  have hlast := congrArg List.getLast? law.consumed
  rw [List.getLast?_map, List.getLast?_range] at hlast
  cases hgetLast : history.consumed.getLast? with
  | none => simp [List.getLast?_eq_none_iff.1 hgetLast]
  | some last =>
      rw [hgetLast] at hlast
      split at hlast
      · cases hlast
      · rename_i hlength
        have hvalue := Option.some.inj hlast
        show history.consumed.length = last.toNat + 1
        omega

end SequenceLaw

namespace BridgeHistory

/-- After the terminal frame no call consumes an event or delivers a frame. -/
theorem step_of_emitted {history : BridgeHistory E S}
    (hterminal : history.bridge.terminalEmitted = true) (call : BridgeCall E S) :
    (history.step call).bridge.terminalEmitted = true ∧
      (history.step call).consumed = history.consumed ∧
      (history.step call).frames = history.frames := by
  cases call with
  | deliverCore event reply =>
      simp [step, offer, EventBridge.deliverCore, EventBridge.accepts, hterminal]
  | skipCore event =>
      simp [step, offer, EventBridge.skipCore, EventBridge.deliverCore,
        EventBridge.accepts, hterminal]
  | emitTerminal reply =>
      simp [step, EventBridge.emitTerminalAndWait_of_emitted hterminal, hterminal]
  | callbackFailed status => simp [step, hterminal]

theorem foldl_step_of_emitted (later : List (BridgeCall E S)) :
    ∀ history : BridgeHistory E S, history.bridge.terminalEmitted = true →
      (later.foldl step history).consumed = history.consumed ∧
        (later.foldl step history).frames = history.frames := by
  induction later with
  | nil => exact fun _ _ => ⟨rfl, rfl⟩
  | cons call later ih =>
      intro history hterminal
      obtain ⟨hstill, hconsumed, hframes⟩ := step_of_emitted hterminal call
      obtain ⟨hconsumed', hframes'⟩ := ih _ hstill
      exact ⟨hconsumed'.trans hconsumed, hframes'.trans hframes⟩

/-- Failures are only ever added behind the earlier ones. -/
theorem failures_step (history : BridgeHistory E S) (call : BridgeCall E S) :
    history.failures <+: (history.step call).failures := by
  cases call with
  | deliverCore event reply => exact List.prefix_append _ _
  | skipCore event => exact List.prefix_append _ _
  | emitTerminal reply => exact List.prefix_append _ _
  | callbackFailed status => exact List.prefix_append _ _

theorem failures_foldl_step (later : List (BridgeCall E S)) :
    ∀ history : BridgeHistory E S,
      history.failures <+: (later.foldl step history).failures := by
  induction later with
  | nil => exact fun _ => List.prefix_refl _
  | cons call later ih =>
      exact fun history => (failures_step history call).trans (ih _)

/-- Once there is a first failure it stays the first. -/
theorem firstDeliveryFailure_sticky (calls later : List (BridgeCall E S)) {status : S}
    (hfirst : (run calls).bridge.firstDeliveryFailure = some status) :
    (run (calls ++ later)).bridge.firstDeliveryFailure = some status := by
  rw [(SequenceLaw.run calls).failure] at hfirst
  rw [(SequenceLaw.run (calls ++ later)).failure]
  have hprefix : (run calls).failures <+: (run (calls ++ later)).failures := by
    unfold run
    rw [List.foldl_append]
    exact failures_foldl_step later _
  obtain ⟨rest, hrest⟩ := hprefix
  rw [← hrest, List.head?_append, hfirst]
  rfl

end BridgeHistory

/-- A rejected call answers `InvalidArg`, gives the sink no frame and changes nothing
but the first failure. -/
theorem EventBridge.deliverCore_of_rejects {bridge : EventBridge}
    {event : SequencedEngineEvent E} (hrejects : bridge.rejects event = true)
    (deliver : EventFrame E → SinkReply S) :
    bridge.deliverCore event deliver =
      (bridge.record (BridgeStatus.invalidArg : S), BridgeStatus.invalidArg, none) := by
  rcases bridge.deliverCore_cases event deliver with
    ⟨_, _, hnot, _⟩ | ⟨_, _, _, hcall⟩ | ⟨hterminal, haccepts, _⟩
  · rw [hrejects] at hnot
    cases hnot
  · exact hcall
  · simp [EventBridge.rejects, haccepts] at hrejects

theorem EventBridge.skipCore_of_rejects {bridge : EventBridge}
    {event : SequencedEngineEvent E} (hrejects : bridge.rejects event = true) :
    bridge.skipCore (S := S) event =
      (bridge.record (BridgeStatus.invalidArg : S), BridgeStatus.invalidArg) := by
  unfold EventBridge.skipCore
  rw [EventBridge.deliverCore_of_rejects hrejects]

/-- Over any calls, whatever the sink, the latch and the callbacks answer: the
consumed ordinals are `0, 1, …` without a gap; the ordinals of the delivered frames
increase strictly and the core frames among them were consumed; a terminal frame
stands last, one behind the last consumed ordinal, and once it is emitted nothing more
is consumed or delivered; the first failure is the one the bridge keeps; and a
rejected call changes nothing else. -/
theorem eventBridge_sequenceLaw (calls : List (BridgeCall E S)) :
    ((BridgeHistory.run calls).consumed.map UInt64.toNat =
        List.range (BridgeHistory.run calls).consumed.length) ∧
      ((BridgeHistory.run calls).frames.map (·.ordinal.toNat)).Pairwise (· < ·) ∧
      (∃ cores : List (SequencedEngineEvent E), ∃ terminals : List UInt64,
        (BridgeHistory.run calls).frames =
            cores.map .core ++ terminals.map .terminal ∧
          (cores.map (·.ordinal)).Sublist (BridgeHistory.run calls).consumed ∧
          terminals.length ≤ 1 ∧
          ∀ ordinal ∈ terminals, ordinal.toNat =
            (BridgeHistory.run calls).consumed.getLast?.elim 0 (·.toNat + 1)) ∧
      (∀ later : List (BridgeCall E S), (BridgeHistory.run calls).bridge.terminalEmitted →
        (BridgeHistory.run (calls ++ later)).consumed =
            (BridgeHistory.run calls).consumed ∧
          (BridgeHistory.run (calls ++ later)).frames =
            (BridgeHistory.run calls).frames) ∧
      ((BridgeHistory.run calls).bridge.firstDeliveryFailure =
        (BridgeHistory.run calls).failures.head?) ∧
      (∀ later : List (BridgeCall E S), ∀ status : S,
        (BridgeHistory.run calls).bridge.firstDeliveryFailure = some status →
          (BridgeHistory.run (calls ++ later)).bridge.firstDeliveryFailure =
            some status) ∧
      (∀ event : SequencedEngineEvent E,
        (BridgeHistory.run calls).bridge.rejects event →
          ∀ deliver : EventFrame E → SinkReply S,
            (BridgeHistory.run calls).bridge.deliverCore event deliver =
              ((BridgeHistory.run calls).bridge.record (BridgeStatus.invalidArg : S),
                BridgeStatus.invalidArg, none) ∧
            (BridgeHistory.run calls).bridge.skipCore (S := S) event =
              ((BridgeHistory.run calls).bridge.record (BridgeStatus.invalidArg : S),
                BridgeStatus.invalidArg)) := by
  have law := SequenceLaw.run calls
  refine ⟨law.consumed, law.ordinals_increase, ?_, ?_, law.failure, ?_, ?_⟩
  · obtain ⟨cores, hsub, hframes | ⟨_, ordinal, hordinal, hframes⟩⟩ := law.frames
    · exact ⟨cores, [], by simpa using hframes, hsub, Nat.zero_le _, by simp⟩
    · refine ⟨cores, [ordinal], hframes, hsub, le_refl _, ?_⟩
      intro terminal hterminal
      rw [List.mem_singleton.1 hterminal, hordinal]
      exact law.length_consumed
  · intro later hterminal
    have hrun : BridgeHistory.run (calls ++ later) =
        later.foldl BridgeHistory.step (BridgeHistory.run calls) := List.foldl_append
    rw [hrun]
    exact BridgeHistory.foldl_step_of_emitted later _ hterminal
  · intro later status
    exact BridgeHistory.firstDeliveryFailure_sticky calls later
  · intro event hrejects deliver
    exact ⟨EventBridge.deliverCore_of_rejects hrejects deliver,
      EventBridge.skipCore_of_rejects hrejects⟩

-- the second event is filtered, the third comes out of order, the fourth fails
example :
    let history := BridgeHistory.run
      [.deliverCore ⟨0, ()⟩ ⟨[], .ok⟩, .skipCore ⟨1, ()⟩, .deliverCore ⟨7, ()⟩ ⟨[], .ok⟩,
        .deliverCore ⟨2, ()⟩ ⟨[], NodeApiStatus.queueFull⟩,
        .emitTerminal ⟨true, ⟨[], .ok⟩⟩]
    history.consumed = [0, 1, 2] ∧
      history.frames = [.core ⟨0, ()⟩, .core ⟨2, ()⟩, .terminal 3] ∧
      history.bridge.firstDeliveryFailure = some NodeApiStatus.invalidArg := by
  decide

/-! ## §6  Events of the core -/

/-- The core's sequencer. -/
structure EventSequencer where
  nextOrdinal : UInt64

namespace EventSequencer

def new : EventSequencer := ⟨0⟩

/-- `none` is the panic of an ordinal overflow. -/
def emit (sequencer : EventSequencer) (event : E) :
    Option (EventSequencer × SequencedEngineEvent E) :=
  (checkedAdd sequencer.nextOrdinal 1).map fun next =>
    (⟨next⟩, ⟨sequencer.nextOrdinal, event⟩)

def emitAll : EventSequencer → List E → Option (List (SequencedEngineEvent E))
  | _, [] => some []
  | sequencer, event :: rest => do
      let (sequencer, first) ← sequencer.emit event
      let rest ← emitAll sequencer rest
      return first :: rest

end EventSequencer

/-- Which calls the adapter's sink makes: state snapshots may be filtered out. -/
structure NapiEventSink (E : Type) where
  emitStateSnapshots : Bool
  isStateSnapshot : E → Bool

namespace NapiEventSink

def filtered (sink : NapiEventSink E) (event : SequencedEngineEvent E) : Bool :=
  !sink.emitStateSnapshots && sink.isStateSnapshot event.event

def emit (sink : NapiEventSink E) (event : SequencedEngineEvent E)
    (reply : SinkReply S) : BridgeCall E S :=
  if sink.filtered event then .skipCore event else .deliverCore event reply

end NapiEventSink

/-- The next event of the sequencer is taken, and filtered or delivered. -/
theorem BridgeHistory.step_emit {history : BridgeHistory E S}
    (event : SequencedEngineEvent E) {next : UInt64}
    (hterminal : history.bridge.terminalEmitted = false)
    (hordinal : event.ordinal = history.bridge.nextOrdinal)
    (hnext : checkedAdd event.ordinal 1 = some next)
    (sink : NapiEventSink E) (reply : SinkReply S) :
    (history.step (sink.emit event reply)).bridge.terminalEmitted = false ∧
      (history.step (sink.emit event reply)).bridge.nextOrdinal = next ∧
      (history.step (sink.emit event reply)).consumed =
        history.consumed ++ [event.ordinal] ∧
      (history.step (sink.emit event reply)).frames =
        history.frames ++ if sink.filtered event then [] else [.core event] := by
  have haccepts : history.bridge.accepts event = true := by
    simp [EventBridge.accepts, hterminal, hordinal, hordinal ▸ hnext]
  unfold NapiEventSink.emit
  split
  · simp [step, offer, EventBridge.skipCore, EventBridge.deliverCore, hterminal, hordinal,
      hordinal ▸ hnext, haccepts]
  · simp [step, offer, EventBridge.deliverCore, hterminal, hordinal, hordinal ▸ hnext,
      haccepts]

/-- The bridge rejects nothing the core sends: every event is consumed, and exactly the
filtered ones are missing from the frames. -/
theorem sequencedEvents_forwarded (sink : NapiEventSink E)
    (reply : SequencedEngineEvent E → SinkReply S) (events : List E) :
    ∀ (sequencer : EventSequencer) (history : BridgeHistory E S)
      (sequenced : List (SequencedEngineEvent E)),
      sequencer.emitAll events = some sequenced →
      history.bridge.terminalEmitted = false →
      history.bridge.nextOrdinal = sequencer.nextOrdinal →
      ((sequenced.map fun event => sink.emit event (reply event)).foldl
          BridgeHistory.step history).consumed =
        history.consumed ++ sequenced.map (·.ordinal) ∧
      ((sequenced.map fun event => sink.emit event (reply event)).foldl
          BridgeHistory.step history).frames =
        history.frames ++ (sequenced.filter (!sink.filtered ·)).map .core := by
  induction events with
  | nil =>
      intro sequencer history sequenced hemit _ _
      cases hemit
      simp
  | cons event rest ih =>
      intro sequencer history sequenced hemit hterminal hordinal
      unfold EventSequencer.emitAll EventSequencer.emit at hemit
      cases hnext : checkedAdd sequencer.nextOrdinal 1 with
      | none => simp [hnext] at hemit
      | some next =>
          simp only [hnext, Option.map_some, Option.bind_eq_bind, Option.bind_some,
            Option.bind_eq_some_iff, Option.pure_def, Option.some.injEq] at hemit
          obtain ⟨sequenced', hrest, rfl⟩ := hemit
          set first : SequencedEngineEvent E := ⟨sequencer.nextOrdinal, event⟩
          obtain ⟨hterminal', hnext', hconsumed, hframes⟩ :=
            BridgeHistory.step_emit first hterminal hordinal.symm hnext sink
              (reply first)
          obtain ⟨hconsumed', hframes'⟩ := ih ⟨next⟩ _ sequenced' hrest hterminal' hnext'
          rw [List.map_cons, List.foldl_cons, hconsumed', hframes', hconsumed, hframes]
          constructor
          · simp
          · cases hfiltered : sink.filtered first <;> simp [hfiltered]

theorem sequencedEvents_forwarded_snapshot :
    (BridgeHistory.run [.deliverCore ⟨0, false⟩ ⟨[], NodeApiStatus.ok⟩,
        .skipCore ⟨1, true⟩]).consumed = [0, 1] ∧
      (BridgeHistory.run [.deliverCore ⟨0, false⟩ ⟨[], NodeApiStatus.ok⟩,
        .skipCore ⟨1, true⟩]).frames = [.core ⟨0, false⟩] :=
  sequencedEvents_forwarded ⟨false, id⟩ (fun _ => ⟨[], NodeApiStatus.ok⟩) [false, true] .new .new
    [⟨0, false⟩, ⟨1, true⟩] (by decide) rfl rfl

end PolygonNesting.Napi
