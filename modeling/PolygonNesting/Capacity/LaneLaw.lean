import PolygonNesting.Capacity.LaneCoordinator
import PolygonNesting.Capacity.QuantumLaw
import PolygonNesting.Lib.PrefixFree

set_option linter.unusedSectionVars false

/-!
# The trace law of the lane coordinator

Whatever the searches of the lanes return, the finished trace passes its validator: the
quanta of a lane chronicle its depths and evaluations, each kind of lane stays within
the base budget, and the resume loops end.

Every invariant is kept by one push of a quantum; the phases of the coordinator only say
which quantum they push.
-/

namespace PolygonNesting

open PrefixFree

variable {F : Type} [LinearOrder F] [Zero F] [One F] [Add F] [Sub F] [Neg F]
  [Mul F] [Div F] [JsMath F] {heap : ℕ → IrregularPlacedPiece F}

/-! ## §1  Chronicles -/

section
variable {quanta : List IntrinsicCapacityLaneCoordinatorQuantum}
  {quantum : IntrinsicCapacityLaneCoordinatorQuantum} {consumed completed : ℕ}
  {outcome : LaneCoordinatorQuantumOutcome}

/-- Quanta that tell the story of one lane: they start with its sample, go on where the
last one ended, and add up to its consumption. -/
structure Chronicle (quanta : List IntrinsicCapacityLaneCoordinatorQuantum)
    (consumed completed : ℕ) (outcome : LaneCoordinatorQuantumOutcome) : Prop where
  first : ∃ first, quanta.head? = some first ∧ first.phase = .initial
  contiguous : contiguousDepths quanta = true
  consumed : evaluationSum quanta = consumed
  last : ∃ last, quanta.getLast? = some last ∧ last.toDepth = completed ∧
    last.outcome = outcome

theorem evaluationSum_append (first second : List IntrinsicCapacityLaneCoordinatorQuantum) :
    evaluationSum (first ++ second) = evaluationSum first + evaluationSum second := by
  unfold evaluationSum
  rw [List.map_append, List.sum_append]

theorem contiguousDepths_snoc (quanta : List IntrinsicCapacityLaneCoordinatorQuantum) :
    ∀ {last : IntrinsicCapacityLaneCoordinatorQuantum}, contiguousDepths quanta = true →
      quanta.getLast? = some last → quantum.fromDepth = last.toDepth →
      contiguousDepths (quanta ++ [quantum]) = true := by
  induction quanta with
  | nil =>
      intro last _ hlast _
      cases hlast
  | cons previous quanta ih =>
      intro last hcontiguous hlast hfrom
      cases quanta with
      | nil =>
          obtain rfl := Option.some.inj hlast
          exact Bool.and_eq_true_iff.2 ⟨decide_eq_true hfrom, rfl⟩
      | cons next quanta =>
          obtain ⟨hstep, hrest⟩ := Bool.and_eq_true_iff.1 hcontiguous
          rw [List.getLast?_cons_cons] at hlast
          exact Bool.and_eq_true_iff.2 ⟨hstep, ih hrest hlast hfrom⟩

theorem Chronicle.single (h : quantum.phase = .initial) :
    Chronicle [quantum] quantum.placementEvaluationDelta quantum.toDepth quantum.outcome where
  first := ⟨quantum, rfl, h⟩
  contiguous := rfl
  consumed := Nat.add_zero _
  last := ⟨quantum, rfl, rfl, rfl⟩

/-- **The next quantum of a lane.** -/
theorem Chronicle.snoc (h : Chronicle quanta consumed completed outcome)
    (hfrom : quantum.fromDepth = completed) :
    Chronicle (quanta ++ [quantum]) (consumed + quantum.placementEvaluationDelta)
      quantum.toDepth quantum.outcome where
  first := by
    obtain ⟨first, hfirst, hphase⟩ := h.first
    refine ⟨first, ?_, hphase⟩
    rw [List.head?_append, hfirst]
    rfl
  contiguous := by
    obtain ⟨last, hlast, hto, -⟩ := h.last
    exact contiguousDepths_snoc quanta h.contiguous hlast (hfrom.trans hto.symm)
  consumed := by
    rw [evaluationSum_append, h.consumed]
    rfl
  last := ⟨quantum, by rw [List.getLast?_concat], rfl, rfl⟩

theorem Chronicle.valid (h : Chronicle quanta consumed completed outcome) :
    laneQuantaChronologyValid quanta consumed completed = true := by
  obtain ⟨first, hfirst, hphase⟩ := h.first
  obtain ⟨last, hlast, hto, -⟩ := h.last
  unfold laneQuantaChronologyValid
  rw [hfirst, hlast]
  simp only [Bool.and_eq_true, decide_eq_true_eq]
  exact ⟨⟨⟨hphase, h.contiguous⟩, h.consumed⟩, hto⟩

/-! ## §2  One push -/

/-- Numbered in order, and never backwards. -/
structure QuantaOrdered (quanta : List IntrinsicCapacityLaneCoordinatorQuantum) : Prop where
  ordinal : ∀ (index : ℕ) (quantum : IntrinsicCapacityLaneCoordinatorQuantum),
    quanta[index]? = some quantum → quantum.ordinal = index
  forward : ∀ quantum ∈ quanta, quantum.fromDepth ≤ quantum.toDepth

theorem QuantaOrdered.snoc (h : QuantaOrdered quanta) (hordinal : quantum.ordinal = quanta.length)
    (hforward : quantum.fromDepth ≤ quantum.toDepth) : QuantaOrdered (quanta ++ [quantum]) where
  ordinal index other hother := by
    rcases Nat.lt_trichotomy index quanta.length with hindex | hindex | hindex
    · rw [List.getElem?_append_left hindex] at hother
      exact h.ordinal index other hother
    · rw [hindex, List.getElem?_concat_length] at hother
      rw [← Option.some.inj hother, hordinal, hindex]
    · rw [List.getElem?_eq_none (by rw [List.length_append, List.length_singleton]; omega)]
        at hother
      cases hother
  forward other hother := by
    rcases List.mem_append.1 hother with hother | hother
    · exact h.forward other hother
    · rw [List.mem_singleton.1 hother]
      exact hforward

theorem QuantaOrdered.zipIdx (h : QuantaOrdered quanta) :
    (quanta.zipIdx.all fun (quantum, index) =>
      decide (quantum.ordinal = index) && decide (quantum.fromDepth ≤ quantum.toDepth)) =
        true := by
  rw [List.all_eq_true]
  rintro ⟨quantum, index⟩ hmem
  have hget := List.mk_mem_zipIdx_iff_getElem?.1 hmem
  exact Bool.and_eq_true_iff.2 ⟨decide_eq_true (h.ordinal index quantum hget),
    decide_eq_true (h.forward quantum (List.mem_of_getElem? hget))⟩

theorem quantaOf_snoc_same {role : LaneCoordinatorQuantumProducerRole}
    (h : quantum.producerRole = role) :
    quantaOf role (quanta ++ [quantum]) = quantaOf role quanta ++ [quantum] := by
  unfold quantaOf
  rw [List.filter_append, List.filter_singleton, decide_eq_true h]
  rfl

theorem quantaOf_snoc_other {role : LaneCoordinatorQuantumProducerRole}
    (h : quantum.producerRole ≠ role) :
    quantaOf role (quanta ++ [quantum]) = quantaOf role quanta := by
  unfold quantaOf
  rw [List.filter_append, List.filter_singleton, decide_eq_false h]
  exact List.append_nil _

/-- The quantum belongs to the warm lane. -/
def IsWarmQuantum (laneIdentity : String) (quantum : IntrinsicCapacityLaneCoordinatorQuantum) :
    Prop :=
  quantum.producerRole = .capacityWarmPrefix ∧ capacityLaneQuantumIdentity quantum = laneIdentity

theorem warmLaneQuanta_snoc_same {laneIdentity : String}
    (h : IsWarmQuantum laneIdentity quantum) :
    warmLaneQuanta laneIdentity (quanta ++ [quantum]) =
      warmLaneQuanta laneIdentity quanta ++ [quantum] := by
  unfold warmLaneQuanta
  rw [List.filter_append, List.filter_singleton, decide_eq_true h.1, decide_eq_true h.2]
  rfl

theorem warmLaneQuanta_snoc_other {laneIdentity : String}
    (h : ¬ IsWarmQuantum laneIdentity quantum) :
    warmLaneQuanta laneIdentity (quanta ++ [quantum]) = warmLaneQuanta laneIdentity quanta := by
  unfold warmLaneQuanta
  rw [List.filter_append, List.filter_singleton, ← Bool.decide_and,
    decide_eq_false (by exact h)]
  exact List.append_nil _

/-- A resume of a warm lane is a resume of this one. -/
def ResumedOnly (laneIdentity : Option String)
    (quanta : List IntrinsicCapacityLaneCoordinatorQuantum) : Prop :=
  ∀ quantum ∈ quanta, quantum.producerRole = .capacityWarmPrefix → quantum.phase = .resume →
    laneIdentity = some (capacityLaneQuantumIdentity quantum)

theorem ResumedOnly.snoc {laneIdentity : Option String} (h : ResumedOnly laneIdentity quanta)
    (hquantum : quantum.producerRole = .capacityWarmPrefix → quantum.phase = .resume →
      laneIdentity = some (capacityLaneQuantumIdentity quantum)) :
    ResumedOnly laneIdentity (quanta ++ [quantum]) := by
  intro other hother
  rcases List.mem_append.1 hother with hother | hother
  · exact h other hother
  · rw [List.mem_singleton.1 hother]
    exact hquantum

theorem ResumedOnly.identities {laneIdentity : Option String}
    (h : ResumedOnly laneIdentity quanta) :
    (warmResumeIdentities quanta).length ≤ 1 := by
  have hall : ∀ identity ∈ warmResumeIdentities quanta, laneIdentity = some identity := by
    intro identity hidentity
    unfold warmResumeIdentities at hidentity
    rw [List.mem_dedup, List.mem_map] at hidentity
    obtain ⟨quantum, hquantum, rfl⟩ := hidentity
    obtain ⟨hmem, hcharged⟩ := List.mem_filter.1 hquantum
    simp only [Bool.and_eq_true, decide_eq_true_eq] at hcharged
    exact h quantum hmem hcharged.1.1 hcharged.1.2
  have hnodup : (warmResumeIdentities quanta).Nodup := List.nodup_dedup _
  cases hidentities : warmResumeIdentities quanta with
  | nil => exact Nat.zero_le _
  | cons first rest =>
      rw [hidentities] at hall hnodup
      cases rest with
      | nil => exact le_rfl
      | cons second rest =>
          have hsame := (hall first List.mem_cons_self).symm.trans
            (hall second (List.mem_cons_of_mem _ List.mem_cons_self))
          rw [Option.some.inj hsame] at hnodup
          exact absurd List.mem_cons_self (List.nodup_cons.1 hnodup).1

end

/-! ## §3  The searches of a lane -/

section
variable {subsystems : SearchSubsystems heap} {identities : CheckpointIdentities heap}

theorem startSearch_law {input : ColdSearchInput heap} {limit : ℕ}
    {search : CachedSearchResult heap}
    (h : startSearch subsystems identities input limit = .ok search) :
    QuantumLaw input ⟨none, some limit⟩ search.result := by
  obtain ⟨⟨result, cache⟩, hrun, rfl⟩ := ResumableLoop.map_eq_ok h
  refine runIntrinsicCapacityColdSearch_law ?_ hrun
  intro checkpoint hcheckpoint
  cases hcheckpoint

/-- What a resume adds to a lane. -/
structure ResumeLaw (pieces : ℕ) (maximumDepthBoundaries : Option ℕ)
    (previous resumed : IntrinsicCapacitySearchResult heap) : Prop where
  lawful : LawfulResult pieces resumed
  forward : previous.trace.completedDepths ≤ resumed.trace.completedDepths
  grows : previous.trace.consumedPlacementEvaluations ≤
    resumed.trace.consumedPlacementEvaluations
  one : maximumDepthBoundaries = some 1 →
    resumed.trace.consumedPlacementEvaluations ≤
        previous.trace.consumedPlacementEvaluations + depthQuota ∧
      (resumed.status = .paused →
        resumed.trace.completedDepths = previous.trace.completedDepths + 1)
  unlimited : maximumDepthBoundaries = none → resumed.status = .settled

/-- A lawful result with a checkpoint is paused there. -/
theorem LawfulResult.checkpoint {pieces : ℕ} {result : IntrinsicCapacitySearchResult heap}
    {checkpoint : IntrinsicAnytimeCheckpoint heap} (h : LawfulResult pieces result)
    (hcheckpoint : result.checkpoint = some checkpoint) :
    CheckpointInBudget pieces checkpoint ∧
      checkpoint.nextDepth = result.trace.completedDepths ∧
      checkpoint.budgetLedgers.totalConsumedPlacementEvaluations =
        result.trace.consumedPlacementEvaluations ∧
      result.trace.completedDepths < pieces := by
  cases hstatus : result.status with
  | settled =>
      rw [h.settled hstatus] at hcheckpoint
      cases hcheckpoint
  | paused =>
      obtain ⟨paused, hpaused, hbudget, hdepth, htotal, hroom⟩ := h.paused hstatus
      obtain rfl := Option.some.inj (hpaused.symm.trans hcheckpoint)
      exact ⟨hbudget, hdepth, htotal, hroom⟩

theorem LawfulResult.paused_of_checkpoint {pieces : ℕ}
    {result : IntrinsicCapacitySearchResult heap}
    {checkpoint : IntrinsicAnytimeCheckpoint heap} (h : LawfulResult pieces result)
    (hcheckpoint : result.checkpoint = some checkpoint) : result.status = .paused := by
  cases hstatus : result.status with
  | settled =>
      rw [h.settled hstatus] at hcheckpoint
      cases hcheckpoint
  | paused => rfl

theorem resumeSearch_law {input : ColdSearchInput heap} {limit : Option ℕ}
    {checkpoint : IntrinsicAnytimeCheckpoint heap} {shared : IntrinsicCapacityCavityCache F}
    {previous : IntrinsicCapacitySearchResult heap} {resumed : CachedSearchResult heap}
    (hprevious : LawfulResult input.preparedPieces.length previous)
    (hcheckpoint : previous.checkpoint = some checkpoint)
    (h : resumeSearch subsystems identities input checkpoint limit shared = .ok resumed) :
    ResumeLaw input.preparedPieces.length limit previous resumed.result := by
  obtain ⟨⟨result, cache⟩, hrun, rfl⟩ := ResumableLoop.map_eq_ok h
  obtain ⟨hbudget, hdepth, htotal, -⟩ := hprevious.checkpoint hcheckpoint
  have hlaw : QuantumLaw input ⟨some checkpoint, limit⟩ result := by
    refine runIntrinsicCapacityColdSearch_law ?_ hrun
    intro other hother
    rw [← Option.some.inj hother]
    exact hbudget
  obtain ⟨hlawful, hforward, hgrows, hone, hunlimited⟩ := hlaw
  have hstartDepth : SearchCall.startDepth ⟨some checkpoint, limit⟩ input =
      previous.trace.completedDepths := hdepth
  have hstartConsumed : (⟨some checkpoint, limit⟩ : SearchCall heap).startConsumed =
      previous.trace.consumedPlacementEvaluations := htotal
  rw [hstartDepth] at hforward
  rw [hstartConsumed] at hgrows
  rw [hstartDepth, hstartConsumed] at hone
  exact ⟨hlawful, hforward, hgrows, hone, hunlimited⟩

/-- A cold search as far as the scheduler has taken it: any number of its quanta, in any
retention mode, trusted or not in between. -/
inductive ScheduledColdStart (subsystems : SearchSubsystems heap)
    (identities : CheckpointIdentities heap) (input : LaneCoordinatorInput heap) :
    CachedSearchResult heap → Prop
  | start (mode : Option IntrinsicCapacityRetentionMode) (limit : Option ℕ)
      {search : CachedSearchResult heap}
      (h : runIntrinsicCapacitySchedulerColdQuantum subsystems identities
        { input with retentionMode := mode } none limit = .ok search) :
      ScheduledColdStart subsystems identities input search
  | trust {search : CachedSearchResult heap}
      (h : ScheduledColdStart subsystems identities input search) :
      ScheduledColdStart subsystems identities input search.trust
  | resume (mode : Option IntrinsicCapacityRetentionMode) (limit : Option ℕ)
      {search resumed : CachedSearchResult heap}
      {checkpoint : IntrinsicAnytimeCheckpoint heap}
      (hsearch : ScheduledColdStart subsystems identities input search)
      (hcheckpoint : search.result.checkpoint = some checkpoint)
      (h : runIntrinsicCapacitySchedulerColdQuantum subsystems identities
        { input with retentionMode := mode } (some (checkpoint, search.cavityCache)) limit =
          .ok resumed) :
      ScheduledColdStart subsystems identities input resumed

theorem LawfulResult.trust {pieces : ℕ} {search : CachedSearchResult heap}
    (h : LawfulResult pieces search.result) : LawfulResult pieces search.trust.result := by
  unfold CachedSearchResult.trust
  cases hcheckpoint : search.result.checkpoint with
  | none => exact h
  | some checkpoint =>
      refine ⟨h.depths, h.quotas, ?_, ?_⟩
      · intro hsettled
        rw [h.settled hsettled] at hcheckpoint
        cases hcheckpoint
      · intro _
        obtain ⟨hbudget, hdepth, htotal, hroom⟩ := h.checkpoint hcheckpoint
        exact ⟨_, rfl, ⟨hbudget.depths, hbudget.completed, hbudget.quotas⟩, hdepth, htotal,
          hroom⟩

theorem ScheduledColdStart.lawful {input : LaneCoordinatorInput heap}
    {search : CachedSearchResult heap}
    (h : ScheduledColdStart subsystems identities input search) :
    LawfulResult input.preparedPieces.length search.result := by
  induction h with
  | start mode limit h => exact (startSearch_law h).lawful
  | trust h ih => exact ih.trust
  | resume mode limit hsearch hcheckpoint h ih =>
      exact (resumeSearch_law ih hcheckpoint h).lawful

end

/-! ## §4  The accounts of the lanes -/

namespace ProtectedCapacityLane

/-- The name of a lane in the trace. -/
def identity (lane : ProtectedCapacityLane heap) : String :=
  capacityLaneIdentity (lane.sourceRole.getD "unknown") (lane.prefixDepth.getD 0)

def consumed (lane : ProtectedCapacityLane heap) : ℕ :=
  lane.search.result.trace.consumedPlacementEvaluations

def completed (lane : ProtectedCapacityLane heap) : ℕ :=
  lane.search.result.trace.completedDepths

end ProtectedCapacityLane

section
variable {pieces : ℕ} {paused : LaneCoordinatorQuantumOutcome}
  {quanta : List IntrinsicCapacityLaneCoordinatorQuantum}
  {quantum : IntrinsicCapacityLaneCoordinatorQuantum}
  {cold lane : ProtectedCapacityLane heap} {warm : List (ProtectedCapacityLane heap)}
  {resumed : Option String}

/-- The quanta of a warm lane tell its story; its last one says how the lane stands. -/
structure WarmAccount (pieces : ℕ) (paused : LaneCoordinatorQuantumOutcome)
    (quanta : List IntrinsicCapacityLaneCoordinatorQuantum)
    (lane : ProtectedCapacityLane heap) : Prop where
  role : lane.role = .capacityWarmPrefix
  lawful : LawfulResult pieces lane.search.result
  chronicle : Chronicle (warmLaneQuanta lane.identity quanta) lane.consumed lane.completed
    (quantumOutcome paused lane.search.result)

/-- A quantum of another lane. -/
theorem WarmAccount.frame (h : WarmAccount pieces paused quanta lane)
    (hother : ¬ IsWarmQuantum lane.identity quantum) :
    WarmAccount pieces paused (quanta ++ [quantum]) lane := by
  refine ⟨h.role, h.lawful, ?_⟩
  rw [warmLaneQuanta_snoc_other hother]
  exact h.chronicle

/-- The quanta of the cold lane start with its sample, and name no prefix. -/
structure ColdAccount (pieces : ℕ) (quanta : List IntrinsicCapacityLaneCoordinatorQuantum)
    (cold : ProtectedCapacityLane heap) : Prop where
  role : cold.role = .capacityCold
  seed : cold.warmPrefixSeed = none
  lawful : LawfulResult pieces cold.search.result
  first : ∃ first rest, quantaOf .capacityCold quanta = first :: rest ∧
    IntrinsicCapacityLaneCoordinatorQuantum.phase first = .initial
  unnamed : ∀ quantum ∈ quantaOf .capacityCold quanta,
    quantum.sourceRole = none ∧ quantum.prefixDepth = none

theorem ColdAccount.frame (h : ColdAccount pieces quanta cold)
    (hother : quantum.producerRole ≠ .capacityCold) :
    ColdAccount pieces (quanta ++ [quantum]) cold := by
  have hsame : quantaOf .capacityCold (quanta ++ [quantum]) = quantaOf .capacityCold quanta :=
    quantaOf_snoc_other hother
  exact ⟨h.role, h.seed, h.lawful, by rw [hsame]; exact h.first, by rw [hsame]; exact h.unnamed⟩

/-- The accounts of the cold lane and of the warm lanes before the quality phase. -/
structure Accounted (pieces : ℕ) (cold : ProtectedCapacityLane heap)
    (warm : List (ProtectedCapacityLane heap))
    (quanta : List IntrinsicCapacityLaneCoordinatorQuantum) (resumed : Option String) :
    Prop where
  ordered : QuantaOrdered quanta
  coldLane : ColdAccount pieces quanta cold
  warmLane : ∀ lane ∈ warm, WarmAccount pieces .checkpointed quanta lane
  distinct : (warm.map ProtectedCapacityLane.identity).Nodup
  named : ∀ quantum ∈ quanta, quantum.producerRole = .capacityWarmPrefix →
    capacityLaneQuantumIdentity quantum ∈ warm.map ProtectedCapacityLane.identity
  noQuality : quantaOf .capacityQualityWarmPrefix quanta = []
  total : evaluationSum quanta =
    cold.consumed + (warm.map ProtectedCapacityLane.consumed).sum
  resumedOnly : ResumedOnly resumed quanta

theorem warmLaneQuanta_eq_nil {laneIdentity : String}
    (h : ∀ quantum ∈ quanta, ¬ IsWarmQuantum laneIdentity quantum) :
    warmLaneQuanta laneIdentity quanta = [] := by
  unfold warmLaneQuanta
  rw [List.filter_eq_nil_iff]
  intro quantum hquantum hkept
  obtain ⟨hrole, hidentity⟩ := Bool.and_eq_true_iff.1 hkept
  exact h quantum hquantum ⟨of_decide_eq_true hrole, of_decide_eq_true hidentity⟩

theorem evaluationSum_snoc :
    evaluationSum (quanta ++ [quantum]) =
      evaluationSum quanta + quantum.placementEvaluationDelta :=
  evaluationSum_append quanta [quantum]

/-- **The pilot of a new warm lane.** -/
theorem Accounted.pilot (h : Accounted pieces cold warm quanta resumed)
    (hrole : lane.role = .capacityWarmPrefix)
    (hlawful : LawfulResult pieces lane.search.result)
    (hfresh : lane.identity ∉ warm.map ProtectedCapacityLane.identity)
    (hordinal : quantum.ordinal = quanta.length)
    (hforward : quantum.fromDepth ≤ quantum.toDepth)
    (hquantum : IsWarmQuantum lane.identity quantum) (hphase : quantum.phase = .initial)
    (hdelta : quantum.placementEvaluationDelta = lane.consumed)
    (hto : quantum.toDepth = lane.completed)
    (houtcome : quantum.outcome = quantumOutcome .checkpointed lane.search.result) :
    Accounted pieces cold (warm ++ [lane]) (quanta ++ [quantum]) resumed := by
  obtain ⟨hproducer, hidentity⟩ := hquantum
  have hidentities : (warm ++ [lane]).map ProtectedCapacityLane.identity =
      warm.map ProtectedCapacityLane.identity ++ [lane.identity] := List.map_append
  refine ⟨h.ordered.snoc hordinal hforward, h.coldLane.frame ?_, ?_, ?_, ?_, ?_, ?_, ?_⟩
  · rw [hproducer]
    decide
  · intro other hother
    rcases List.mem_append.1 hother with hother | hother
    · refine (h.warmLane other hother).frame ?_
      rintro ⟨-, hsame⟩
      rw [← hidentity, hsame] at hfresh
      exact hfresh (List.mem_map_of_mem hother)
    · obtain rfl := List.mem_singleton.1 hother
      refine ⟨hrole, hlawful, ?_⟩
      have hnone : warmLaneQuanta other.identity quanta = [] := by
        refine warmLaneQuanta_eq_nil ?_
        rintro earlier hearlier ⟨hwarm, hsame⟩
        rw [← hsame] at hfresh
        exact hfresh (h.named earlier hearlier hwarm)
      rw [warmLaneQuanta_snoc_same ⟨hproducer, hidentity⟩, hnone, ← hdelta, ← hto, ← houtcome]
      exact Chronicle.single hphase
  · rw [hidentities]
    exact List.nodup_append.2 ⟨h.distinct, List.nodup_singleton _, by
      rintro first hfirst second hsecond rfl
      rw [List.mem_singleton.1 hsecond] at hfirst
      exact hfresh hfirst⟩
  · intro other hother hwarm
    rw [hidentities]
    rcases List.mem_append.1 hother with hother | hother
    · exact List.mem_append_left _ (h.named other hother hwarm)
    · rw [List.mem_singleton.1 hother, hidentity]
      exact List.mem_append_right _ (List.mem_singleton_self _)
  · rw [quantaOf_snoc_other (by rw [hproducer]; decide)]
    exact h.noQuality
  · rw [evaluationSum_snoc, h.total, hdelta, List.map_append, List.sum_append, Nat.add_assoc]
    rfl
  · refine h.resumedOnly.snoc ?_
    intro _ hresume
    rw [hphase] at hresume
    cases hresume

/-- **One more quantum of a warm lane.** -/
theorem Accounted.resume {before after : List (ProtectedCapacityLane heap)}
    {next : ProtectedCapacityLane heap}
    (h : Accounted pieces cold (before ++ lane :: after) quanta (some lane.identity))
    (hrole : next.role = .capacityWarmPrefix)
    (hlawful : LawfulResult pieces next.search.result)
    (hsame : next.identity = lane.identity)
    (hordinal : quantum.ordinal = quanta.length)
    (hforward : quantum.fromDepth ≤ quantum.toDepth)
    (hquantum : IsWarmQuantum lane.identity quantum)
    (hfrom : quantum.fromDepth = lane.completed)
    (hdelta : lane.consumed + quantum.placementEvaluationDelta = next.consumed)
    (hto : quantum.toDepth = next.completed)
    (houtcome : quantum.outcome = quantumOutcome .checkpointed next.search.result) :
    Accounted pieces cold (before ++ next :: after) (quanta ++ [quantum])
      (some lane.identity) := by
  have hproducer := hquantum.1
  have hidentities : (before ++ next :: after).map ProtectedCapacityLane.identity =
      (before ++ lane :: after).map ProtectedCapacityLane.identity := by
    rw [List.map_append, List.map_append, List.map_cons, List.map_cons, hsame]
  have hother : ∀ other, other ∈ before ∨ other ∈ after → other.identity ≠ lane.identity := by
    have hdistinct := h.distinct
    rw [List.map_append, List.map_cons, List.nodup_middle, List.nodup_cons,
      ← List.map_append] at hdistinct
    intro other hmem heq
    rw [← heq] at hdistinct
    exact hdistinct.1 (List.mem_map_of_mem (List.mem_append.2 hmem))
  have hframe : ∀ other, other ∈ before ∨ other ∈ after →
      WarmAccount pieces .checkpointed (quanta ++ [quantum]) other := by
    intro other hmem
    refine (h.warmLane other ?_).frame ?_
    · rcases hmem with hmem | hmem
      · exact List.mem_append_left _ hmem
      · exact List.mem_append_right _ (List.mem_cons_of_mem _ hmem)
    · rintro ⟨-, heq⟩
      exact hother other hmem (heq.symm.trans hquantum.2)
  refine ⟨h.ordered.snoc hordinal hforward, h.coldLane.frame ?_, ?_, ?_, ?_, ?_, ?_, ?_⟩
  · rw [hproducer]
    decide
  · intro other hmem
    rcases List.mem_append.1 hmem with hmem | hmem
    · exact hframe other (.inl hmem)
    · rcases List.mem_cons.1 hmem with rfl | hmem
      · refine ⟨hrole, hlawful, ?_⟩
        have hlane := h.warmLane lane (List.mem_append_right _ List.mem_cons_self)
        have hchronicle := hlane.chronicle.snoc hfrom
        rw [hdelta, hto, houtcome] at hchronicle
        rw [hsame, warmLaneQuanta_snoc_same hquantum]
        exact hchronicle
      · exact hframe other (.inr hmem)
  · rw [hidentities]
    exact h.distinct
  · intro other hmem hwarm
    rw [hidentities]
    rcases List.mem_append.1 hmem with hmem | hmem
    · exact h.named other hmem hwarm
    · rw [List.mem_singleton.1 hmem, hquantum.2]
      exact List.mem_map_of_mem (List.mem_append_right _ List.mem_cons_self)
  · rw [quantaOf_snoc_other (by rw [hproducer]; decide)]
    exact h.noQuality
  · have htotal := h.total
    rw [List.map_append, List.sum_append, List.map_cons, List.sum_cons] at htotal
    rw [evaluationSum_snoc, htotal, List.map_append, List.sum_append, List.map_cons,
      List.sum_cons, ← hdelta]
    omega
  · refine h.resumedOnly.snoc ?_
    intro _ _
    rw [hquantum.2]

end

/-! ## §5  The cold lane and the pilots -/

section
variable {subsystems : SearchSubsystems heap} {identities : CheckpointIdentities heap}
  {input : LaneCoordinatorInput heap} {state next : LaneCoordinatorState heap}
  {cold : ProtectedCapacityLane heap} {warm : List (ProtectedCapacityLane heap)}

theorem coldSample_lawful {search : CachedSearchResult heap}
    (hscheduled : ∀ search ∈ input.scheduledColdStart,
      ScheduledColdStart subsystems identities input search)
    (h : coldSample subsystems identities input = .ok search) :
    LawfulResult input.preparedPieces.length search.result := by
  unfold coldSample at h
  split at h
  · next scheduled heq =>
    cases h
    exact (hscheduled _ heq).lawful
  · exact (startSearch_law h).lawful

theorem sampleColdLane_ok
    (hscheduled : ∀ search ∈ input.scheduledColdStart,
      ScheduledColdStart subsystems identities input search)
    (h : sampleColdLane subsystems identities input = .ok state) :
    ∃ cold, state.lanes = [cold] ∧
      Accounted input.preparedPieces.length cold [] state.quanta none := by
  obtain ⟨search, hsearch, hstate⟩ := except_bind_eq_ok h
  cases hstate
  have hlawful := coldSample_lawful hscheduled hsearch
  refine ⟨_, rfl, ⟨?_, fun _ hother => ?_⟩, ⟨rfl, rfl, hlawful, ⟨_, [], rfl, rfl⟩, ?_⟩, ?_,
    List.nodup_nil, ?_, rfl, ?_, ?_⟩
  · intro index quantum hquantum
    cases index with
    | zero =>
        rw [← Option.some.inj hquantum]
        rfl
    | succ index => cases hquantum
  · rw [List.mem_singleton.1 hother]
    exact Nat.zero_le _
  · intro quantum hquantum
    rw [List.mem_singleton.1 hquantum]
    exact ⟨rfl, rfl⟩
  · intro lane hlane
    cases hlane
  · intro quantum hquantum hwarm
    rw [List.mem_singleton.1 hquantum] at hwarm
    cases hwarm
  · rfl
  · intro quantum hquantum hwarm
    rw [List.mem_singleton.1 hquantum] at hwarm
    cases hwarm

/-- The cold lane has one more quantum, and no warm lane yet. -/
theorem Accounted.resumeCold {pieces : ℕ} {resumedLane : ProtectedCapacityLane heap}
    {quanta : List IntrinsicCapacityLaneCoordinatorQuantum}
    {quantum : IntrinsicCapacityLaneCoordinatorQuantum}
    (h : Accounted pieces cold [] quanta none)
    (hrole : resumedLane.role = .capacityCold) (hseed : resumedLane.warmPrefixSeed = none)
    (hlawful : LawfulResult pieces resumedLane.search.result)
    (hordinal : quantum.ordinal = quanta.length)
    (hforward : quantum.fromDepth ≤ quantum.toDepth)
    (hproducer : quantum.producerRole = .capacityCold)
    (hunnamed : quantum.sourceRole = none ∧ quantum.prefixDepth = none)
    (hdelta : cold.consumed + quantum.placementEvaluationDelta = resumedLane.consumed) :
    Accounted pieces resumedLane [] (quanta ++ [quantum]) none := by
  have hnotWarm : quantum.producerRole ≠ .capacityWarmPrefix := by
    rw [hproducer]
    decide
  have hcold : quantaOf .capacityCold (quanta ++ [quantum]) =
      quantaOf .capacityCold quanta ++ [quantum] := quantaOf_snoc_same hproducer
  refine ⟨h.ordered.snoc hordinal hforward, ⟨hrole, hseed, hlawful, ?_, ?_⟩, ?_,
    List.nodup_nil, ?_, ?_, ?_, ?_⟩
  · obtain ⟨first, rest, hfirst, hphase⟩ := h.coldLane.first
    exact ⟨first, rest ++ [quantum], by rw [hcold, hfirst]; rfl, hphase⟩
  · intro other hother
    rw [hcold] at hother
    rcases List.mem_append.1 hother with hother | hother
    · exact h.coldLane.unnamed other hother
    · rw [List.mem_singleton.1 hother]
      exact hunnamed
  · intro lane hlane
    cases hlane
  · intro other hother hwarm
    rcases List.mem_append.1 hother with hother | hother
    · exact h.named other hother hwarm
    · rw [List.mem_singleton.1 hother] at hwarm
      exact absurd hwarm hnotWarm
  · rw [quantaOf_snoc_other (by rw [hproducer]; decide)]
    exact h.noQuality
  · rw [evaluationSum_snoc, h.total, ← hdelta]
    exact Nat.add_right_comm _ _ _
  · exact h.resumedOnly.snoc fun hwarm => absurd hwarm hnotWarm

theorem resumeColdLane_ok (hlanes : state.lanes = [cold])
    (haccounted : Accounted input.preparedPieces.length cold [] state.quanta none)
    (h : resumeColdLane subsystems identities input state = .ok next) :
    ∃ cold', next.lanes = [cold'] ∧
      Accounted input.preparedPieces.length cold' [] next.quanta none := by
  unfold resumeColdLane at h
  rw [hlanes] at h
  dsimp only at h
  split at h
  · split at h
    · cases h
    · next checkpoint hcheckpoint =>
      obtain ⟨resumed, hresumed, hnext⟩ := except_bind_eq_ok h
      cases hnext
      have hlaw := resumeSearch_law haccounted.coldLane.lawful hcheckpoint hresumed
      exact ⟨_, rfl, haccounted.resumeCold rfl rfl hlaw.lawful rfl hlaw.forward rfl ⟨rfl, rfl⟩
        (Nat.add_sub_of_le hlaw.grows)⟩
  · cases h
    exact ⟨cold, hlanes, haccounted⟩

/-- The name of the lane of a descriptor. -/
def IntrinsicCapacityPrefixDescriptor.identity
    (descriptor : IntrinsicCapacityPrefixDescriptor heap) : String :=
  capacityLaneIdentity descriptor.role.asStr descriptor.depth

theorem pilotWarmLane_ok {descriptor : IntrinsicCapacityPrefixDescriptor heap}
    (hlanes : state.lanes = cold :: warm)
    (haccounted : Accounted input.preparedPieces.length cold warm state.quanta none)
    (hfresh : descriptor.identity ∉ warm.map ProtectedCapacityLane.identity)
    (h : pilotWarmLane subsystems identities input state descriptor = .ok next) :
    ∃ lane, next.lanes = cold :: (warm ++ [lane]) ∧ lane.identity = descriptor.identity ∧
      lane.consumed ≤ depthQuota ∧
      Accounted input.preparedPieces.length cold (warm ++ [lane]) next.quanta none := by
  obtain ⟨search, hsearch, hnext⟩ := except_bind_eq_ok h
  cases hnext
  have hlaw := startSearch_law hsearch
  refine ⟨makeProtectedCapacityLane subsystems input .capacityWarmPrefix
    (some descriptor.role.asStr) (some descriptor.depth) descriptor.placedPreparedIds.length
    (some ⟨descriptor.role.asStr, descriptor.depth, descriptor.state⟩) search false,
    ?_, rfl, ?_, ?_⟩
  · dsimp only
    rw [hlanes]
    rfl
  · obtain ⟨hcost, -⟩ := hlaw.one rfl
    rw [SearchCall.startConsumed, Nat.zero_add] at hcost
    exact hcost
  · exact haccounted.pilot rfl hlaw.lawful hfresh rfl hlaw.forward ⟨rfl, rfl⟩ rfl rfl rfl rfl

theorem pilotWarmLanes_ok
    (descriptors : List (IntrinsicCapacityPrefixDescriptor heap)) :
    ∀ {state : LaneCoordinatorState heap} {warm : List (ProtectedCapacityLane heap)},
      state.lanes = cold :: warm →
      Accounted input.preparedPieces.length cold warm state.quanta none →
      (warm.map ProtectedCapacityLane.identity ++
        descriptors.map IntrinsicCapacityPrefixDescriptor.identity).Nodup →
      pilotWarmLanes subsystems identities input descriptors state = .ok next →
      ∃ warm', next.lanes = cold :: warm' ∧
        Accounted input.preparedPieces.length cold warm' next.quanta none ∧
        (warm'.map ProtectedCapacityLane.consumed).sum ≤
          (warm.map ProtectedCapacityLane.consumed).sum + descriptors.length * depthQuota := by
  induction descriptors with
  | nil =>
      intro state warm hlanes haccounted _ h
      cases h
      exact ⟨warm, hlanes, haccounted, Nat.le_add_right _ _⟩
  | cons descriptor descriptors ih =>
      intro state warm hlanes haccounted hdistinct h
      unfold pilotWarmLanes at h
      split at h
      · cases h
      · next pilot hpilot =>
        rw [List.map_cons] at hdistinct
        have hfresh : descriptor.identity ∉ warm.map ProtectedCapacityLane.identity := by
          intro hmem
          exact (List.nodup_append.1 hdistinct).2.2 _ hmem _ List.mem_cons_self rfl
        obtain ⟨lane, hpilotLanes, hidentity, hcost, hpiloted⟩ :=
          pilotWarmLane_ok hlanes haccounted hfresh hpilot
        obtain ⟨warm', hnext, haccounted', hsum⟩ := ih hpilotLanes hpiloted
          (by rw [List.map_append, List.map_singleton, hidentity, List.append_assoc]
              exact hdistinct) h
        refine ⟨warm', hnext, haccounted', ?_⟩
        rw [List.map_append, List.sum_append, List.map_singleton, List.sum_singleton] at hsum
        rw [List.length_cons, Nat.succ_mul]
        omega

end

/-! ## §6  Loops that end -/

section
variable {ε α : Type} {left : ℕ} {loop loop' : ℕ → Option (Except ε α)} {P : α → Prop}

/-- With more fuel than `left` the loop returns, always the same, and what it returns
has the property. -/
def EndsWithin (left : ℕ) (loop : ℕ → Option (Except ε α)) (P : α → Prop) : Prop :=
  ∃ outcome, (∀ fuel, left < fuel → loop fuel = some outcome) ∧
    ∀ final, outcome = .ok final → P final

theorem EndsWithin.now (outcome : Except ε α) (h : ∀ fuel, loop (fuel + 1) = some outcome)
    (hfinal : ∀ final, outcome = .ok final → P final) : EndsWithin left loop P := by
  refine ⟨outcome, ?_, hfinal⟩
  intro fuel hfuel
  obtain ⟨fuel, rfl⟩ := Nat.exists_eq_add_one_of_ne_zero (Nat.ne_zero_of_lt hfuel)
  exact h fuel

theorem EndsWithin.later (h : EndsWithin left loop' P)
    (hstep : ∀ fuel, loop (fuel + 1) = loop' fuel) : EndsWithin (left + 1) loop P := by
  obtain ⟨outcome, hends, hfinal⟩ := h
  refine ⟨outcome, ?_, hfinal⟩
  intro fuel hfuel
  obtain ⟨fuel, rfl⟩ := Nat.exists_eq_add_one_of_ne_zero (Nat.ne_zero_of_lt hfuel)
  rw [hstep]
  exact hends fuel (Nat.lt_of_succ_lt_succ hfuel)

/-- Two loops one after the other. -/
theorem EndsWithin.bind {β : Type} {whole : ℕ → Option (Except ε β)} {Q : β → Prop}
    (h : EndsWithin left loop P) (next : α → ℕ → Option (Except ε β))
    (herror : ∀ fuel error, loop fuel = some (.error error) → whole fuel = some (.error error))
    (hok : ∀ fuel a, loop fuel = some (.ok a) → whole fuel = next a fuel)
    (hnext : ∀ a, P a → EndsWithin left (next a) Q) : EndsWithin left whole Q := by
  obtain ⟨outcome, hends, hfinal⟩ := h
  cases outcome with
  | error error =>
      exact ⟨.error error, fun fuel hfuel => herror fuel error (hends fuel hfuel),
        by rintro final ⟨⟩⟩
  | ok a =>
      obtain ⟨outcome', hends', hfinal'⟩ := hnext a (hfinal a rfl)
      refine ⟨outcome', ?_, hfinal'⟩
      intro fuel hfuel
      rw [hok fuel a (hends fuel hfuel)]
      exact hends' fuel hfuel

end

/-! ## §7  The warm lane that is resumed -/

section
variable {subsystems : SearchSubsystems heap} {identities : CheckpointIdentities heap}
  {input : LaneCoordinatorInput heap} {cold : ProtectedCapacityLane heap}
  {before after : List (ProtectedCapacityLane heap)}

theorem reservesDepth_iff {cap consumed : ℕ} :
    reservesDepth cap consumed = true ↔ depthQuota ≤ cap - consumed :=
  decide_eq_true_iff

theorem resumeWarmLane_ok {lane : ProtectedCapacityLane heap}
    {seed : IntrinsicCapacityWarmPrefixSeed heap}
    {checkpoint : IntrinsicAnytimeCheckpoint heap} {state next : LaneCoordinatorState heap}
    {delta : ℕ} (hlanes : state.lanes = cold :: (before ++ lane :: after))
    (haccounted : Accounted input.preparedPieces.length cold (before ++ lane :: after)
      state.quanta (some lane.identity))
    (hcheckpoint : lane.search.result.checkpoint = some checkpoint)
    (h : resumeWarmLane subsystems identities input (before.length + 1) lane seed checkpoint
      state = .ok (next, delta)) :
    ∃ lane', next.lanes = cold :: (before ++ lane' :: after) ∧
      lane'.identity = lane.identity ∧
      ResumeLaw input.preparedPieces.length (some 1) lane.search.result lane'.search.result ∧
      lane.consumed + delta = lane'.consumed ∧
      Accounted input.preparedPieces.length cold (before ++ lane' :: after) next.quanta
        (some lane.identity) := by
  obtain ⟨resumed, hresumed, hnext⟩ := except_bind_eq_ok h
  cases hnext
  have hlane := haccounted.warmLane lane (List.mem_append_right _ List.mem_cons_self)
  have hlaw := resumeSearch_law hlane.lawful hcheckpoint hresumed
  have hdelta := Nat.add_sub_of_le hlaw.grows
  refine ⟨makeProtectedCapacityLane subsystems input .capacityWarmPrefix
    (some (lane.sourceRole.getD "unknown")) (some (lane.prefixDepth.getD 0))
    lane.reusedPlacedCount (some seed) resumed true, ?_, rfl, hlaw, hdelta, ?_⟩
  · dsimp only
    rw [hlanes, List.set_cons_succ, List.set_append_right _ _ le_rfl, Nat.sub_self,
      List.set_cons_zero]
  · exact haccounted.resume rfl hlaw.lawful rfl rfl hlaw.forward ⟨rfl, rfl⟩ rfl hdelta rfl rfl

/-- What the warm phase hands on. -/
def WarmSettled (input : LaneCoordinatorInput heap) (cold : ProtectedCapacityLane heap)
    (final : LaneCoordinatorState heap × ℕ) : Prop :=
  ∃ warm resumed, final.1.lanes = cold :: warm ∧
    Accounted input.preparedPieces.length cold warm final.1.quanta resumed ∧
    final.2 = (warm.map ProtectedCapacityLane.consumed).sum ∧ final.2 ≤ input.baseCap

/-- A round of the loop: it stops where it stands, or resumes the lane from its
checkpoint. -/
theorem resumeWarmLanes_round (subsystems : SearchSubsystems heap)
    (identities : CheckpointIdentities heap) (input : LaneCoordinatorInput heap)
    (consumed : ℕ) {lane : ProtectedCapacityLane heap} {state : LaneCoordinatorState heap}
    {index : ℕ} (hlane : state.lanes[index]? = some lane) :
    (∀ fuel, resumeWarmLanes subsystems identities input index (fuel + 1) state consumed =
        some (.ok (state, consumed))) ∨
      ∃ seed checkpoint, depthQuota ≤ input.baseCap - consumed ∧
        lane.search.result.checkpoint = some checkpoint ∧
        ∀ fuel, resumeWarmLanes subsystems identities input index (fuel + 1) state consumed =
          match resumeWarmLane subsystems identities input index lane seed checkpoint
              state with
          | .error error => some (.error error)
          | .ok (state, delta) =>
              resumeWarmLanes subsystems identities input index fuel state (consumed + delta)
    := by
  cases hroom : reservesDepth input.baseCap consumed with
  | false =>
      left
      intro fuel
      unfold resumeWarmLanes
      rw [hroom]
      rfl
  | true =>
      cases hseed : lane.warmPrefixSeed with
      | none =>
          left
          intro fuel
          unfold resumeWarmLanes
          rw [hroom, hlane]
          simp only [hseed, if_true]
      | some seed =>
          cases hcheckpoint : lane.search.result.checkpoint with
          | none =>
              left
              intro fuel
              unfold resumeWarmLanes
              rw [hroom, hlane]
              simp only [hseed, hcheckpoint, if_true]
          | some checkpoint =>
              right
              refine ⟨seed, checkpoint, reservesDepth_iff.1 hroom, rfl, ?_⟩
              intro fuel
              conv_lhs => unfold resumeWarmLanes
              rw [hroom, hlane]
              simp only [if_true]
              rewrite [hseed, hcheckpoint]
              rfl

/-- **The warm loop ends, within the base budget.** -/
theorem resumeWarmLanes_ends (left : ℕ) :
    ∀ {lane : ProtectedCapacityLane heap} {state : LaneCoordinatorState heap} {consumed : ℕ},
      state.lanes = cold :: (before ++ lane :: after) →
      Accounted input.preparedPieces.length cold (before ++ lane :: after) state.quanta
        (some lane.identity) →
      consumed = ((before ++ lane :: after).map ProtectedCapacityLane.consumed).sum →
      consumed ≤ input.baseCap →
      (lane.search.result.status = .paused →
        input.preparedPieces.length - lane.completed ≤ left) →
      EndsWithin left (fun fuel => resumeWarmLanes subsystems identities input
        (before.length + 1) fuel state consumed) (WarmSettled input cold) := by
  -- the paused lane has one depth less to go after each round
  induction left using Nat.strong_induction_on with
  | _ left ih =>
      intro lane state consumed hlanes haccounted hconsumed hcap hleft
      have hlane := haccounted.warmLane lane (List.mem_append_right _ List.mem_cons_self)
      have hget : state.lanes[before.length + 1]? = some lane := by
        rw [hlanes, List.getElem?_cons_succ, List.getElem?_append_right le_rfl, Nat.sub_self]
        rfl
      rcases resumeWarmLanes_round subsystems identities input consumed hget with
        hstop | ⟨seed, checkpoint, hroom, hcheckpoint, hround⟩
      · refine .now (.ok (state, consumed)) hstop ?_
        rintro final ⟨⟩
        exact ⟨_, _, hlanes, haccounted, hconsumed, hcap⟩
      · have hmore := hleft (hlane.lawful.paused_of_checkpoint hcheckpoint)
        obtain ⟨-, -, -, hdepth⟩ := hlane.lawful.checkpoint hcheckpoint
        have hpositive : 0 < left := lt_of_lt_of_le (Nat.sub_pos_of_lt hdepth) hmore
        cases hresume : resumeWarmLane subsystems identities input (before.length + 1) lane
            seed checkpoint state with
        | error error =>
            refine .now (.error error) ?_ ?_
            · intro fuel
              rw [hround, hresume]
            · rintro final ⟨⟩
        | ok resumed =>
            obtain ⟨next, delta⟩ := resumed
            obtain ⟨lane', hnext, hidentity, hlaw, hdelta, haccounted'⟩ :=
              resumeWarmLane_ok hlanes haccounted hcheckpoint hresume
            obtain ⟨hcost, hstep⟩ := hlaw.one rfl
            rw [← hidentity] at haccounted'
            have hsum : consumed + delta =
                ((before ++ lane' :: after).map ProtectedCapacityLane.consumed).sum := by
              rw [hconsumed, List.map_append, List.map_append, List.sum_append,
                List.sum_append, List.map_cons, List.map_cons, List.sum_cons, List.sum_cons,
                ← hdelta]
              omega
            have hcap' : consumed + delta ≤ input.baseCap := by
              have hquota : lane.consumed + delta ≤ lane.consumed + depthQuota :=
                hdelta.trans_le hcost
              omega
            have hleft' : lane'.search.result.status = .paused →
                input.preparedPieces.length - lane'.completed ≤ left - 1 := by
              intro hpaused
              have hcompleted : lane'.completed = lane.completed + 1 := hstep hpaused
              omega
            have hrest := ih (left - 1) (Nat.sub_lt hpositive Nat.one_pos) hnext haccounted'
              hsum hcap' hleft'
            rw [← Nat.sub_add_cancel hpositive]
            refine hrest.later ?_
            intro fuel
            rw [hround, hresume]

theorem Accounted.warmLanes_eq {pieces : ℕ} {warm : List (ProtectedCapacityLane heap)}
    {quanta : List IntrinsicCapacityLaneCoordinatorQuantum} {resumed : Option String}
    (h : Accounted pieces cold warm quanta resumed) : warmLanes (cold :: warm) = warm := by
  unfold warmLanes
  rw [List.filter_cons_of_neg (by rw [h.coldLane.role]; decide), List.filter_eq_self]
  intro lane hlane
  exact decide_eq_true (h.warmLane lane hlane).role

/-- The warm phase ends, whichever lane it selects. -/
theorem settleWarmLane_ends (subsystems : SearchSubsystems heap)
    (identities : CheckpointIdentities heap) {state : LaneCoordinatorState heap}
    {warm : List (ProtectedCapacityLane heap)} (hlanes : state.lanes = cold :: warm)
    (haccounted : Accounted input.preparedPieces.length cold warm state.quanta none)
    (hcap : (warm.map ProtectedCapacityLane.consumed).sum ≤ input.baseCap) :
    EndsWithin input.preparedPieces.length
      (fun fuel => settleWarmLane subsystems identities input fuel state)
      (WarmSettled input cold) := by
  have hwarm : warmLanes state.lanes = warm := by
    rw [hlanes]
    exact haccounted.warmLanes_eq
  have hconsumed : warmConsumedPlacementEvaluations state.lanes =
      (warm.map ProtectedCapacityLane.consumed).sum := by
    unfold warmConsumedPlacementEvaluations
    rw [hwarm]
    rfl
  have hstop : WarmSettled input cold
      (state, warmConsumedPlacementEvaluations state.lanes) :=
    ⟨warm, none, hlanes, haccounted, hconsumed, hconsumed.trans_le hcap⟩
  unfold settleWarmLane
  dsimp only
  split
  · refine .now (.ok _) (fun _ => rfl) ?_
    rintro final ⟨⟩
    exact hstop
  · next index hselected =>
    have hhalt : (∀ lane, state.lanes[index]? = some lane →
        ProtectedCapacityLane.warmPrefixSeed lane = none) →
        EndsWithin input.preparedPieces.length
          (fun fuel => resumeWarmLanes subsystems identities input index fuel state
            (warmConsumedPlacementEvaluations state.lanes)) (WarmSettled input cold) := by
      intro hseed
      refine .now (.ok _) ?_ (by rintro final ⟨⟩; exact hstop)
      intro fuel
      unfold resumeWarmLanes
      split
      · split
        · rfl
        · next lane hlane => rw [hseed lane hlane]
      · rfl
    cases index with
    | zero =>
        refine hhalt ?_
        intro lane hlane
        rw [hlanes] at hlane
        rw [← Option.some.inj hlane]
        exact haccounted.coldLane.seed
    | succ index =>
        cases hlane : warm[index]? with
        | none =>
            refine hhalt ?_
            intro lane hsome
            rw [hlanes, List.getElem?_cons_succ, hlane] at hsome
            cases hsome
        | some lane =>
            obtain ⟨before, after, rfl, rfl⟩ : ∃ before after,
                warm = before ++ lane :: after ∧ index = before.length := by
              obtain ⟨hindex, rfl⟩ := List.getElem?_eq_some_iff.1 hlane
              refine ⟨warm.take index, warm.drop (index + 1), ?_, ?_⟩
              · rw [← List.drop_eq_getElem_cons hindex, List.take_append_drop]
              · rw [List.length_take, Nat.min_eq_left hindex.le]
            rw [hconsumed]
            exact resumeWarmLanes_ends _ hlanes
              { haccounted with
                resumedOnly := fun quantum hquantum hrole hphase => by
                  cases haccounted.resumedOnly quantum hquantum hrole hphase }
              rfl hcap (fun _ => Nat.sub_le _ _)

end

/-! ## §8  The quality lane -/

section
variable {subsystems : SearchSubsystems heap} {identities : CheckpointIdentities heap}
  {input : LaneCoordinatorInput heap} {pieces depth : ℕ}
  {paused : LaneCoordinatorQuantumOutcome}
  {before added : List IntrinsicCapacityLaneCoordinatorQuantum}
  {quantum : IntrinsicCapacityLaneCoordinatorQuantum}
  {result : IntrinsicCapacitySearchResult heap}

/-- The quality lane adds its own story to the quanta, all under its one name. -/
structure QualityAccount (pieces depth : ℕ) (paused : LaneCoordinatorQuantumOutcome)
    (before added : List IntrinsicCapacityLaneCoordinatorQuantum)
    (result : IntrinsicCapacitySearchResult heap) : Prop where
  ordered : QuantaOrdered (before ++ added)
  lawful : LawfulResult pieces result
  named : ∀ quantum ∈ added, quantum.producerRole = .capacityQualityWarmPrefix ∧
    quantum.sourceRole = some "canonical-grid" ∧ quantum.prefixDepth = some depth
  chronicle : Chronicle added result.trace.consumedPlacementEvaluations
    result.trace.completedDepths (quantumOutcome paused result)

/-- The next quantum of the quality lane. -/
theorem QualityAccount.snoc {resumed : IntrinsicCapacitySearchResult heap}
    {paused' : LaneCoordinatorQuantumOutcome}
    (h : QualityAccount pieces depth paused before added result)
    (hlawful : LawfulResult pieces resumed)
    (hordinal : quantum.ordinal = (before ++ added).length)
    (hforward : quantum.fromDepth ≤ quantum.toDepth)
    (hnamed : quantum.producerRole = .capacityQualityWarmPrefix ∧
      quantum.sourceRole = some "canonical-grid" ∧ quantum.prefixDepth = some depth)
    (hfrom : quantum.fromDepth = result.trace.completedDepths)
    (hdelta : result.trace.consumedPlacementEvaluations + quantum.placementEvaluationDelta =
      resumed.trace.consumedPlacementEvaluations)
    (hto : quantum.toDepth = resumed.trace.completedDepths)
    (houtcome : quantum.outcome = quantumOutcome paused' resumed) :
    QualityAccount pieces depth paused' before (added ++ [quantum]) resumed := by
  refine ⟨?_, hlawful, ?_, ?_⟩
  · rw [← List.append_assoc]
    exact h.ordered.snoc hordinal hforward
  · intro other hother
    rcases List.mem_append.1 hother with hother | hother
    · exact h.named other hother
    · rw [List.mem_singleton.1 hother]
      exact hnamed
  · have hchronicle := h.chronicle.snoc hfrom
    rw [hdelta, hto, houtcome] at hchronicle
    exact hchronicle

/-- What the quality lane has added so far. -/
def QualityRunning (input : LaneCoordinatorInput heap) (depth : ℕ)
    (before : List IntrinsicCapacityLaneCoordinatorQuantum) (run : QualityLaneRun heap) :
    Prop :=
  ∃ added, run.quanta = before ++ added ∧
    QualityAccount input.preparedPieces.length depth .checkpointed before added
      run.search.result

theorem sampleQualityLane_ok {seed : IntrinsicCapacityWarmPrefixSeed heap}
    {run : QualityLaneRun heap} (hordered : QuantaOrdered before)
    (h : sampleQualityLane subsystems identities input seed before = .ok run) :
    QualityRunning input seed.depth before run := by
  obtain ⟨search, hsearch, hrun⟩ := except_bind_eq_ok h
  cases hrun
  have hlaw := startSearch_law hsearch
  refine ⟨_, rfl, hordered.snoc rfl hlaw.forward, hlaw.lawful, ?_, .single rfl⟩
  intro quantum hquantum
  rw [List.mem_singleton.1 hquantum]
  exact ⟨rfl, rfl, rfl⟩

/-- **The quality loop ends.** -/
theorem resumeQualityLane_ends (subsystems : SearchSubsystems heap)
    (identities : CheckpointIdentities heap) {seed : IntrinsicCapacityWarmPrefixSeed heap}
    (left : ℕ) :
    ∀ {run : QualityLaneRun heap}, QualityRunning input seed.depth before run →
      (run.search.result.status = .paused →
        input.preparedPieces.length - run.search.result.trace.completedDepths ≤ left) →
      EndsWithin left (fun fuel => resumeQualityLane subsystems identities input seed fuel run)
        (QualityRunning input seed.depth before) := by
  induction left using Nat.strong_induction_on with
  | _ left ih =>
      intro run hrun hleft
      by_cases hgo : run.search.result.status = .paused ∧
          reservesDepth input.baseCap
            run.search.result.trace.consumedPlacementEvaluations
      · obtain ⟨added, hquanta, haccount⟩ := hrun
        obtain ⟨checkpoint, hcheckpoint, -, -, -, hdepth⟩ := haccount.lawful.paused hgo.1
        have hmore := hleft hgo.1
        have hpositive : 0 < left := lt_of_lt_of_le (Nat.sub_pos_of_lt hdepth) hmore
        cases hresume : resumeSearch subsystems identities
            (input.laneInput (some seed) (some checkpoint.schedulerDeficit)
              (some .qualityFrontier)) checkpoint (some 1) run.search.cavityCache with
        | error error =>
            refine .now (.error error) ?_ (by rintro final ⟨⟩)
            intro fuel
            unfold resumeQualityLane
            simp only [hgo, and_self, if_true, hcheckpoint, hresume]
        | ok resumed =>
            have hlaw := resumeSearch_law haccount.lawful hcheckpoint hresume
            have hnext : QualityRunning input seed.depth before
                { search := resumed
                  quanta := pushLaneCoordinatorQuantum run.quanta .capacityQualityWarmPrefix
                    (some "canonical-grid") (some seed.depth) .resume
                    run.search.result.trace.completedDepths
                    resumed.result.trace.completedDepths
                    (resumed.result.trace.consumedPlacementEvaluations -
                      run.search.result.trace.consumedPlacementEvaluations)
                    (quantumOutcome .checkpointed resumed.result)
                  continued := true } := by
              unfold pushLaneCoordinatorQuantum
              rw [hquanta, List.append_assoc]
              exact ⟨_, rfl, haccount.snoc hlaw.lawful rfl hlaw.forward ⟨rfl, rfl, rfl⟩ rfl
                (Nat.add_sub_of_le hlaw.grows) rfl rfl⟩
            have hleft' : resumed.result.status = .paused →
                input.preparedPieces.length - resumed.result.trace.completedDepths ≤
                  left - 1 := by
              intro hpaused
              have hcompleted := (hlaw.one rfl).2 hpaused
              omega
            have hrest := ih (left - 1) (Nat.sub_lt hpositive Nat.one_pos) hnext hleft'
            rw [← Nat.sub_add_cancel hpositive]
            refine hrest.later ?_
            intro fuel
            conv_lhs => unfold resumeQualityLane
            simp only [hgo, and_self, if_true, hcheckpoint, hresume]
      · refine .now (.ok run) ?_ (by rintro final ⟨⟩; exact hrun)
        intro fuel
        unfold resumeQualityLane
        rw [if_neg hgo]

theorem LawfulResult.consumed_le_baseCap
    (h : LawfulResult input.preparedPieces.length result) :
    result.trace.consumedPlacementEvaluations ≤ input.baseCap := by
  calc result.trace.consumedPlacementEvaluations
      ≤ result.trace.completedDepths * depthQuota := h.quotas
    _ ≤ input.preparedPieces.length * depthQuota := Nat.mul_le_mul_right _ h.depths
    _ ≤ input.baseCap := Nat.le_max_right _ _

/-- A paused quality lane is censored where it stands. -/
theorem QualityRunning.close {run : QualityLaneRun heap}
    {descriptor : IntrinsicCapacityPrefixDescriptor heap}
    {seed : IntrinsicCapacityWarmPrefixSeed heap}
    (h : QualityRunning input descriptor.depth before run) :
    ∃ added, (closeQualityLane subsystems input descriptor seed run).quanta =
        before ++ added ∧
      QualityAccount input.preparedPieces.length descriptor.depth .censored before added
        run.search.result := by
  obtain ⟨added, hquanta, haccount⟩ := h
  unfold closeQualityLane
  by_cases hpaused : run.search.result.status = .paused
  · simp only [hpaused, if_true]
    unfold pushLaneCoordinatorQuantum
    rw [hquanta, List.append_assoc]
    refine ⟨_, rfl, haccount.snoc haccount.lawful rfl le_rfl ⟨rfl, rfl, rfl⟩ rfl rfl rfl ?_⟩
    unfold quantumOutcome
    rw [if_pos hpaused]
  · simp only [hpaused, if_false]
    refine ⟨added, hquanta, haccount.ordered, haccount.lawful, haccount.named, ?_⟩
    have houtcome : quantumOutcome .censored run.search.result =
        quantumOutcome .checkpointed run.search.result := by
      unfold quantumOutcome
      rw [if_neg hpaused, if_neg hpaused]
    rw [houtcome]
    exact haccount.chronicle

theorem closeQualityLane_status (subsystems : SearchSubsystems heap)
    (input : LaneCoordinatorInput heap) (descriptor : IntrinsicCapacityPrefixDescriptor heap)
    (seed : IntrinsicCapacityWarmPrefixSeed heap) (run : QualityLaneRun heap) :
    ((closeQualityLane subsystems input descriptor seed run).trace.status ≠
          .skippedBelowMinimumPieceCount ∧
        (closeQualityLane subsystems input descriptor seed run).trace.status ≠
          .skippedNoFittingCanonicalPrefix) ∧
      ((closeQualityLane subsystems input descriptor seed run).trace.status =
          .checkpointedCensored ↔ run.search.result.status = .paused) := by
  unfold closeQualityLane
  dsimp only
  by_cases hpaused : run.search.result.status = .paused
  · rw [if_pos hpaused]
    exact ⟨⟨nofun, nofun⟩, fun _ => hpaused, fun _ => rfl⟩
  · rw [if_neg hpaused]
    split
    · exact ⟨⟨nofun, nofun⟩, nofun, fun h => absurd h hpaused⟩
    · exact ⟨⟨nofun, nofun⟩, nofun, fun h => absurd h hpaused⟩

/-- The summary of the quality lane agrees with its quanta. -/
theorem QualityAccount.valid {trace : IntrinsicCapacityQualityWarmPrefixTrace F}
    (h : QualityAccount pieces depth .censored before added result)
    (hrun : trace.status ≠ .skippedBelowMinimumPieceCount ∧
      trace.status ≠ .skippedNoFittingCanonicalPrefix)
    (hstatus : trace.status = .checkpointedCensored ↔ result.status = .paused)
    (hsource : trace.sourceRole = some "canonical-grid")
    (hdepth : trace.prefixDepth = some depth)
    (hconsumed : trace.consumedPlacementEvaluations =
      result.trace.consumedPlacementEvaluations)
    (hcompleted : trace.completedDepths = result.trace.completedDepths) :
    qualityLaneValid added (some trace) = true := by
  obtain ⟨first, hfirst, hphase⟩ := h.chronicle.first
  obtain ⟨last, hlast, hto, houtcome⟩ := h.chronicle.last
  have hskipped : ¬ (trace.status = .skippedBelowMinimumPieceCount ∨
      trace.status = .skippedNoFittingCanonicalPrefix) := by
    rintro (hskip | hskip)
    · exact hrun.1 hskip
    · exact hrun.2 hskip
  unfold qualityLaneValid
  simp only [if_neg hskipped, hfirst, hlast, Bool.and_eq_true, decide_eq_true_eq]
  refine ⟨⟨⟨⟨⟨hphase, ?_⟩, h.chronicle.contiguous⟩, ?_⟩, ?_⟩, ?_⟩
  · rw [List.all_eq_true]
    intro quantum hquantum
    obtain ⟨-, hsourceRole, hprefixDepth⟩ := h.named quantum hquantum
    rw [hsource, hdepth, hsourceRole, hprefixDepth]
    simp
  · rw [h.chronicle.consumed, hconsumed]
  · rw [hto, hcompleted]
  · rw [houtcome]
    unfold quantumOutcome
    by_cases hpaused : result.status = .paused
    · rw [if_pos hpaused, if_pos (hstatus.2 hpaused)]
    · rw [if_neg hpaused, if_neg fun hcensored => hpaused (hstatus.1 hcensored)]

/-- What the quality phase hands on. -/
structure QualityClosed (input : LaneCoordinatorInput heap)
    (before : List IntrinsicCapacityLaneCoordinatorQuantum) (phase : QualityPhase heap)
    (added : List IntrinsicCapacityLaneCoordinatorQuantum) : Prop where
  quanta : phase.quanta = before ++ added
  ordered : QuantaOrdered phase.quanta
  producer : ∀ quantum ∈ added, quantum.producerRole = .capacityQualityWarmPrefix
  valid : qualityLaneValid added (some phase.trace) = true
  consumed : evaluationSum added = phase.trace.consumedPlacementEvaluations
  cap : phase.trace.placementEvaluationCap = input.baseCap
  bounded : phase.trace.consumedPlacementEvaluations ≤
    if (qualityDescriptor input).isNone then 0 else input.baseCap

theorem skippedQualityWarmPrefix_closed (hordered : QuantaOrdered before) :
    QualityClosed input before ⟨[], skippedQualityWarmPrefix input, before, false⟩ [] := by
  have hfields : (skippedQualityWarmPrefix input).consumedPlacementEvaluations = 0 ∧
      (skippedQualityWarmPrefix input).placementEvaluationCap = input.baseCap ∧
      ((skippedQualityWarmPrefix input).status = .skippedBelowMinimumPieceCount ∨
        (skippedQualityWarmPrefix input).status = .skippedNoFittingCanonicalPrefix) := by
    unfold skippedQualityWarmPrefix
    dsimp only
    split
    · exact ⟨rfl, rfl, .inr rfl⟩
    · split
      · exact ⟨rfl, rfl, .inl rfl⟩
      · exact ⟨rfl, rfl, .inr rfl⟩
  obtain ⟨hconsumed, hcap, hskipped⟩ := hfields
  refine ⟨(List.append_nil _).symm, hordered, ?_, ?_, hconsumed.symm, hcap, ?_⟩
  · intro quantum hquantum
    cases hquantum
  · unfold qualityLaneValid
    dsimp only
    rw [if_pos hskipped, hconsumed]
    rfl
  · rw [hconsumed]
    exact Nat.zero_le _

/-- **The quality phase ends.** -/
theorem runQualityLane_ends (subsystems : SearchSubsystems heap)
    (identities : CheckpointIdentities heap) (hordered : QuantaOrdered before) :
    EndsWithin input.preparedPieces.length
      (fun fuel => runQualityLane subsystems identities input fuel before)
      (fun phase => ∃ added, QualityClosed input before phase added) := by
  unfold runQualityLane
  cases hdescriptor : qualityDescriptor input with
  | none =>
      refine .now (.ok _) (fun _ => rfl) ?_
      rintro final ⟨⟩
      exact ⟨[], skippedQualityWarmPrefix_closed hordered⟩
  | some descriptor =>
      dsimp only
      cases hsample : sampleQualityLane subsystems identities input
          ⟨"canonical-grid", descriptor.depth, descriptor.state⟩ before with
      | error error =>
          exact .now (.error error) (fun _ => rfl) (by rintro final ⟨⟩)
      | ok run =>
          dsimp only
          refine (resumeQualityLane_ends subsystems identities input.preparedPieces.length
            (sampleQualityLane_ok hordered hsample) (fun _ => Nat.sub_le _ _)).bind
            (fun run _ => some (.ok (closeQualityLane subsystems input descriptor
              ⟨"canonical-grid", descriptor.depth, descriptor.state⟩ run)))
            (fun fuel error herror => by rw [herror]) (fun fuel run hok => by rw [hok]) ?_
          intro run hrun
          refine .now (.ok _) (fun _ => rfl) ?_
          rintro final ⟨⟩
          obtain ⟨added, hquanta, haccount⟩ := hrun.close
          obtain ⟨hran, hcensored⟩ := closeQualityLane_status subsystems input descriptor
            ⟨"canonical-grid", descriptor.depth, descriptor.state⟩ run
          refine ⟨added, hquanta, ?_, ?_, haccount.valid hran hcensored rfl rfl rfl rfl,
            haccount.chronicle.consumed, rfl, ?_⟩
          · rw [hquanta]
            exact haccount.ordered
          · intro quantum hquantum
            exact (haccount.named quantum hquantum).1
          · rw [hdescriptor]
            exact haccount.lawful.consumed_le_baseCap

end

end PolygonNesting
