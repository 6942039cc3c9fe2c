import PolygonNesting.Capacity.LaneLaw

set_option linter.unusedSectionVars false

/-!
# The finished trace of the lane coordinator

The paused warm lanes are censored one after the other; what is left then is what the
validator checks.
-/

namespace PolygonNesting

open PrefixFree

variable {F : Type} [LinearOrder F] [Zero F] [One F] [Add F] [Sub F] [Neg F]
  [Mul F] [Div F] [JsMath F] {heap : ℕ → IrregularPlacedPiece F}

/-! ## §1  Censoring -/

section
variable {pieces total : ℕ} {cold lane : ProtectedCapacityLane heap}
  {done todo warm : List (ProtectedCapacityLane heap)}
  {quanta : List IntrinsicCapacityLaneCoordinatorQuantum}
  {quantum : IntrinsicCapacityLaneCoordinatorQuantum} {resumed : Option String}
  {quality : IntrinsicCapacityQualityWarmPrefixTrace F}

/-- The accounts while the warm lanes are closed: those done say how they ended. -/
structure Closing (pieces : ℕ) (cold : ProtectedCapacityLane heap)
    (done todo : List (ProtectedCapacityLane heap))
    (quality : IntrinsicCapacityQualityWarmPrefixTrace F)
    (quanta : List IntrinsicCapacityLaneCoordinatorQuantum) (resumed : Option String)
    (total : ℕ) : Prop where
  ordered : QuantaOrdered quanta
  coldLane : ColdAccount pieces quanta cold
  closed : ∀ lane ∈ done, WarmAccount pieces .censored quanta lane
  running : ∀ lane ∈ todo, WarmAccount pieces .checkpointed quanta lane
  distinct : ((done ++ todo).map ProtectedCapacityLane.identity).Nodup
  qualityLane :
    qualityLaneValid (quantaOf .capacityQualityWarmPrefix quanta) (some quality) = true
  total : evaluationSum quanta = total
  resumedOnly : ResumedOnly resumed quanta

/-- A lane that is not paused is closed already. -/
theorem WarmAccount.settled (h : WarmAccount pieces .checkpointed quanta lane)
    (hstatus : lane.search.result.status ≠ .paused) :
    WarmAccount pieces .censored quanta lane := by
  refine ⟨h.role, h.lawful, ?_⟩
  have houtcome : quantumOutcome .censored lane.search.result =
      quantumOutcome .checkpointed lane.search.result := by
    unfold quantumOutcome
    rw [if_neg hstatus, if_neg hstatus]
  rw [houtcome]
  exact h.chronicle

/-- The other lanes have other names. -/
theorem identity_ne_of_nodup {first second : List (ProtectedCapacityLane heap)}
    (h : ((first ++ lane :: second).map ProtectedCapacityLane.identity).Nodup)
    {other : ProtectedCapacityLane heap} (hother : other ∈ first ∨ other ∈ second) :
    other.identity ≠ lane.identity := by
  rw [List.map_append, List.map_cons, List.nodup_middle, List.nodup_cons,
    ← List.map_append] at h
  intro heq
  rw [← heq] at h
  exact h.1 (List.mem_map_of_mem (List.mem_append.2 hother))

theorem Closing.settled (h : Closing pieces cold done (lane :: todo) quality quanta resumed total)
    (hstatus : lane.search.result.status ≠ .paused) :
    Closing pieces cold (done ++ [lane]) todo quality quanta resumed total := by
  refine ⟨h.ordered, h.coldLane, ?_, ?_, ?_, h.qualityLane, h.total, h.resumedOnly⟩
  · intro other hother
    rcases List.mem_append.1 hother with hother | hother
    · exact h.closed other hother
    · rw [List.mem_singleton.1 hother]
      exact (h.running lane List.mem_cons_self).settled hstatus
  · intro other hother
    exact h.running other (List.mem_cons_of_mem _ hother)
  · rw [List.append_assoc, List.singleton_append]
    exact h.distinct

/-- **A paused lane is censored where it stands.** -/
theorem Closing.censor
    (h : Closing pieces cold done (lane :: todo) quality quanta resumed total)
    (hstatus : lane.search.result.status = .paused)
    (hordinal : quantum.ordinal = quanta.length)
    (hquantum : IsWarmQuantum lane.identity quantum) (hphase : quantum.phase = .censor)
    (hfrom : quantum.fromDepth = lane.completed) (hto : quantum.toDepth = lane.completed)
    (hdelta : quantum.placementEvaluationDelta = 0) (houtcome : quantum.outcome = .censored) :
    Closing pieces cold (done ++ [lane]) todo quality (quanta ++ [quantum]) resumed total := by
  have hproducer := hquantum.1
  have hother : ∀ other, other ∈ done ∨ other ∈ todo →
      ¬ IsWarmQuantum (ProtectedCapacityLane.identity other) quantum := by
    rintro other hmem ⟨-, hsame⟩
    exact identity_ne_of_nodup h.distinct hmem (hsame.symm.trans hquantum.2)
  refine ⟨h.ordered.snoc hordinal (hfrom.trans hto.symm).le, h.coldLane.frame ?_, ?_, ?_, ?_,
    ?_, ?_, ?_⟩
  · rw [hproducer]
    decide
  · intro other hmem
    rcases List.mem_append.1 hmem with hmem | hmem
    · exact (h.closed other hmem).frame (hother other (.inl hmem))
    · obtain rfl := List.mem_singleton.1 hmem
      have haccount := h.running other List.mem_cons_self
      refine ⟨haccount.role, haccount.lawful, ?_⟩
      have hchronicle := haccount.chronicle.snoc hfrom
      have hcensored : quantumOutcome .censored other.search.result = .censored := by
        unfold quantumOutcome
        rw [if_pos hstatus]
      rw [hdelta, Nat.add_zero, hto, houtcome] at hchronicle
      rw [warmLaneQuanta_snoc_same hquantum, hcensored]
      exact hchronicle
  · intro other hmem
    exact (h.running other (List.mem_cons_of_mem _ hmem)).frame (hother other (.inr hmem))
  · rw [List.append_assoc, List.singleton_append]
    exact h.distinct
  · rw [quantaOf_snoc_other (by rw [hproducer]; decide)]
    exact h.qualityLane
  · rw [evaluationSum_snoc, hdelta]
    exact h.total
  · refine h.resumedOnly.snoc ?_
    intro _ hresume
    rw [hphase] at hresume
    cases hresume

theorem censorWarmLanes_closing (todo : List (ProtectedCapacityLane heap)) :
    ∀ {done : List (ProtectedCapacityLane heap)}
      {quanta : List IntrinsicCapacityLaneCoordinatorQuantum},
      Closing pieces cold done todo quality quanta resumed total →
      Closing pieces cold (done ++ todo) [] quality (censorWarmLanes todo quanta) resumed
        total := by
  induction todo with
  | nil =>
      intro done quanta h
      rw [List.append_nil]
      exact h
  | cons lane todo ih =>
      intro done quanta h
      unfold censorWarmLanes
      rw [List.foldl_cons, List.append_cons]
      dsimp only
      by_cases hstatus : lane.search.result.status = .paused
      · rw [if_pos hstatus]
        exact ih (h.censor hstatus rfl ⟨rfl, rfl⟩ rfl rfl rfl rfl rfl)
      · rw [if_neg hstatus]
        exact ih (h.settled hstatus)

/-! ## §2  The validator accepts -/

theorem warmPrefixLaneTrace_valid (h : WarmAccount pieces .censored quanta lane) :
    warmLaneValid quanta (warmPrefixLaneTrace lane) = true := by
  obtain ⟨last, hlast, -, houtcome⟩ := h.chronicle.last
  have hchronology := h.chronicle.valid
  unfold warmLaneValid
  rw [Bool.and_eq_true_iff]
  refine ⟨hchronology, ?_⟩
  have hname : capacityLaneIdentity (warmPrefixLaneTrace lane).sourceRole
      (warmPrefixLaneTrace lane).prefixDepth = lane.identity := rfl
  rw [hname, hlast]
  dsimp only
  rw [houtcome, decide_eq_true_eq]
  unfold quantumOutcome warmPrefixLaneTrace
  dsimp only
  by_cases hstatus : lane.search.result.status = .paused
  · rw [if_pos hstatus, if_pos hstatus]
    rfl
  · rw [if_neg hstatus, if_neg hstatus]
    rfl

theorem Closing.valid {trace : IntrinsicCapacityLaneCoordinatorTrace}
    (h : Closing pieces cold done [] quality quanta resumed total)
    (hquanta : trace.quanta = quanta)
    (htotal : trace.aggregateConsumedPlacementEvaluations = total)
    (hcap : total ≤ trace.aggregatePlacementEvaluationCap) :
    intrinsicCapacityLaneCoordinatorTraceValid trace (done.map warmPrefixLaneTrace)
      (some quality) = true := by
  obtain ⟨first, rest, hfirst, hphase⟩ := h.coldLane.first
  unfold intrinsicCapacityLaneCoordinatorTraceValid
  rw [hquanta, htotal]
  simp only [Bool.and_eq_true, decide_eq_true_eq]
  refine ⟨⟨⟨⟨⟨⟨⟨hcap, h.ordered.zipIdx⟩, ?_⟩, ?_⟩, h.total⟩, h.resumedOnly.identities⟩, ?_⟩,
    h.qualityLane⟩
  · rw [hfirst]
    exact decide_eq_true hphase
  · rw [List.all_eq_true]
    intro quantum hquantum
    obtain ⟨hsource, hdepth⟩ := h.coldLane.unnamed quantum hquantum
    rw [hsource, hdepth]
    rfl
  · rw [List.all_eq_true]
    intro laneTrace hlaneTrace
    obtain ⟨lane, hlane, rfl⟩ := List.mem_map.1 hlaneTrace
    exact warmPrefixLaneTrace_valid (h.closed lane hlane)

end

/-! ## §3  After the quality phase -/

section
variable {pieces : ℕ} {cold : ProtectedCapacityLane heap}
  {warm : List (ProtectedCapacityLane heap)}
  {before added : List IntrinsicCapacityLaneCoordinatorQuantum}
  {resumed : Option String}

theorem quantaOf_append {role : LaneCoordinatorQuantumProducerRole} :
    quantaOf role (before ++ added) = quantaOf role before ++ quantaOf role added :=
  List.filter_append ..

theorem quantaOf_eq_nil {role role' : LaneCoordinatorQuantumProducerRole}
    (h : ∀ quantum ∈ added, quantum.producerRole = role') (hne : role' ≠ role) :
    quantaOf role added = [] := by
  unfold quantaOf
  rw [List.filter_eq_nil_iff]
  intro quantum hquantum hrole
  exact hne ((h quantum hquantum).symm.trans (of_decide_eq_true hrole))

/-- The quality lane leaves the accounts of the other lanes as they are. -/
theorem Accounted.closing {input : LaneCoordinatorInput heap} {phase : QualityPhase heap}
    (h : Accounted pieces cold warm before resumed)
    (hquality : QualityClosed input before phase added) :
    Closing pieces cold [] warm phase.trace phase.quanta resumed
      (cold.consumed + (warm.map ProtectedCapacityLane.consumed).sum +
        phase.trace.consumedPlacementEvaluations) := by
  have hcold : quantaOf .capacityCold phase.quanta = quantaOf .capacityCold before := by
    rw [hquality.quanta, quantaOf_append, quantaOf_eq_nil hquality.producer (by decide),
      List.append_nil]
  have hadded : quantaOf .capacityQualityWarmPrefix phase.quanta = added := by
    rw [hquality.quanta, quantaOf_append, h.noQuality, List.nil_append]
    unfold quantaOf
    rw [List.filter_eq_self]
    intro quantum hquantum
    exact decide_eq_true (hquality.producer quantum hquantum)
  refine ⟨hquality.ordered, ⟨h.coldLane.role, h.coldLane.seed, h.coldLane.lawful, ?_, ?_⟩,
    ?_, ?_, h.distinct, ?_, ?_, ?_⟩
  · rw [hcold]
    exact h.coldLane.first
  · rw [hcold]
    exact h.coldLane.unnamed
  · intro lane hlane
    cases hlane
  · intro lane hlane
    have haccount := h.warmLane lane hlane
    refine ⟨haccount.role, haccount.lawful, ?_⟩
    have hwarm : warmLaneQuanta lane.identity phase.quanta =
        warmLaneQuanta lane.identity before := by
      rw [hquality.quanta]
      unfold warmLaneQuanta
      rw [List.filter_append]
      have hnil : warmLaneQuanta lane.identity added = [] := by
        refine warmLaneQuanta_eq_nil ?_
        rintro quantum hquantum ⟨hrole, -⟩
        rw [hquality.producer quantum hquantum] at hrole
        cases hrole
      unfold warmLaneQuanta at hnil
      rw [hnil, List.append_nil]
    rw [hwarm]
    exact haccount.chronicle
  · rw [hadded]
    exact hquality.valid
  · rw [hquality.quanta, evaluationSum_append, h.total, hquality.consumed]
  · rw [hquality.quanta]
    intro quantum hquantum hrole hphase
    rcases List.mem_append.1 hquantum with hquantum | hquantum
    · exact h.resumedOnly quantum hquantum hrole hphase
    · rw [hquality.producer quantum hquantum] at hrole
      cases hrole

end

/-! ## §4  Names of lanes -/

theorem at_notMem_asStr (role : IntrinsicSharedArchiveDirectRole) :
    '@' ∉ role.asStr.toList := by
  cases role <;> decide

theorem IntrinsicSharedArchiveDirectRole.asStr_injective :
    Function.Injective IntrinsicSharedArchiveDirectRole.asStr := by
  intro first second h
  cases first <;> cases second <;> first | rfl | exact absurd h (by decide)

/-- Lanes of different descriptors have different names. -/
theorem capacityLaneIdentity_injective {first second : IntrinsicSharedArchiveDirectRole}
    {depth depth' : ℕ}
    (h : capacityLaneIdentity first.asStr depth = capacityLaneIdentity second.asStr depth') :
    first = second ∧ depth = depth' := by
  have hsplit : ∀ (role : IntrinsicSharedArchiveDirectRole) (depth : ℕ),
      (capacityLaneIdentity role.asStr depth).toList =
        role.asStr.toList ++ '@' :: (toString depth).toList := by
    intro role depth
    unfold capacityLaneIdentity
    rw [String.toList_append, String.toList_append, List.append_assoc]
    rfl
  have hlist := congrArg String.toList h
  rw [hsplit, hsplit] at hlist
  have hword : ∀ (role : IntrinsicSharedArchiveDirectRole), ∀ symbol ∈ role.asStr.toList,
      ¬ symbol = '@' := by
    rintro role symbol hsymbol rfl
    exact at_notMem_asStr role hsymbol
  have hstop : ∀ rest : List Char, AtStop (fun symbol => symbol = '@') ('@' :: rest) := by
    intro rest symbol rest' heq
    exact (List.cons.inj heq).1.symm
  obtain ⟨hrole, hrest⟩ := eq_of_atStop (hword first) (hword second) (hstop _) (hstop _) hlist
  refine ⟨IntrinsicSharedArchiveDirectRole.asStr_injective (String.toList_inj.1 hrole), ?_⟩
  have hdigits : ∀ depth : ℕ, (toString depth).toList = Nat.toDigits 10 depth :=
    fun _ => Nat.toList_repr
  have htext := (List.cons.inj hrest).2
  rw [hdigits, hdigits] at htext
  rw [← Nat.ofDigitChars_ten_toDigits (n := depth), htext, Nat.ofDigitChars_ten_toDigits]

theorem descriptors_identity_nodup
    {descriptors : List (IntrinsicCapacityPrefixDescriptor heap)}
    (h : (descriptors.map fun descriptor => (descriptor.role, descriptor.depth)).Nodup) :
    (descriptors.map IntrinsicCapacityPrefixDescriptor.identity).Nodup := by
  have hmap : descriptors.map IntrinsicCapacityPrefixDescriptor.identity =
      (descriptors.map fun descriptor => (descriptor.role, descriptor.depth)).map
        fun key => capacityLaneIdentity key.1.asStr key.2 := by
    rw [List.map_map]
    rfl
  rw [hmap]
  refine h.map ?_
  rintro ⟨first, depth⟩ ⟨second, depth'⟩ heq
  obtain ⟨rfl, rfl⟩ := capacityLaneIdentity_injective heq
  rfl

/-! ## §5  The law -/

section
variable (subsystems : SearchSubsystems heap) (identities : CheckpointIdentities heap)
  (input : LaneCoordinatorInput heap)

/-- What the coordinator promises of its result. -/
structure LaneCoordinatorLaw (input : LaneCoordinatorInput heap)
    (result : ProtectedCapacityLaneCoordinatorResult heap) : Prop where
  traceValid : intrinsicCapacityLaneCoordinatorTraceValid result.trace result.warmPrefixLanes
    (some result.qualityWarmPrefix) = true
  coldWithinCap : result.coldSearch.trace.consumedPlacementEvaluations ≤ input.baseCap
  warmWithinCap : (result.warmPrefixLanes.map fun lane =>
    lane.consumedPlacementEvaluations).sum ≤ input.baseCap
  qualityWithinCap : result.qualityWarmPrefix.consumedPlacementEvaluations ≤ input.baseCap
  aggregate : result.coldSearch.trace.consumedPlacementEvaluations +
      (result.warmPrefixLanes.map fun lane => lane.consumedPlacementEvaluations).sum +
      result.qualityWarmPrefix.consumedPlacementEvaluations =
    result.trace.aggregateConsumedPlacementEvaluations
  evaluations : evaluationSum result.trace.quanta =
    result.trace.aggregateConsumedPlacementEvaluations
  aggregateWithinCap : result.trace.aggregateConsumedPlacementEvaluations ≤
    result.trace.aggregatePlacementEvaluationCap
  oneWarmResumed : ∃ resumed, ResumedOnly resumed result.trace.quanta

theorem settleCoordinator_law {state : LaneCoordinatorState heap} {warmConsumed : ℕ}
    {quality : QualityPhase heap} {result : ProtectedCapacityLaneCoordinatorResult heap}
    {cold : ProtectedCapacityLane heap}
    {added : List IntrinsicCapacityLaneCoordinatorQuantum}
    (hwarm : WarmSettled input cold (state, warmConsumed))
    (hquality : QualityClosed input state.quanta quality added)
    (h : settleCoordinator input state warmConsumed quality = .ok result) :
    LaneCoordinatorLaw input result := by
  obtain ⟨warm, resumed, hlanes, haccounted, hwarmConsumed, hwarmCap⟩ := hwarm
  dsimp only at hlanes haccounted hwarmConsumed hwarmCap
  have hfind : state.lanes.find? (fun lane => decide (lane.role = .capacityCold)) =
      some cold := by
    rw [hlanes]
    exact List.find?_cons_of_pos (decide_eq_true haccounted.coldLane.role)
  have hwarmLanes : warmLanes state.lanes = warm := by
    rw [hlanes]
    exact haccounted.warmLanes_eq
  unfold settleCoordinator at h
  rw [hfind, hwarmLanes] at h
  cases h
  have hclosing := censorWarmLanes_closing warm (haccounted.closing hquality)
  rw [List.nil_append, ← hwarmConsumed] at hclosing
  have hcold : cold.consumed ≤ input.baseCap :=
    haccounted.coldLane.lawful.consumed_le_baseCap
  have hsum : ((warm.map warmPrefixLaneTrace).map fun lane =>
      lane.consumedPlacementEvaluations).sum = warmConsumed := by
    rw [List.map_map, hwarmConsumed]
    rfl
  have hbounded := hquality.bounded
  have hcap : cold.consumed + warmConsumed + quality.trace.consumedPlacementEvaluations ≤
      aggregatePlacementEvaluationCap input := by
    unfold aggregatePlacementEvaluationCap
    split at hbounded
    · next hnone =>
      rw [if_pos hnone]
      omega
    · next hsome =>
      rw [if_neg hsome]
      omega
  refine ⟨hclosing.valid rfl rfl hcap, hcold, hsum.trans_le hwarmCap, ?_, ?_, hclosing.total,
    hcap, resumed, hclosing.resumedOnly⟩
  · refine hbounded.trans ?_
    split
    · exact Nat.zero_le _
    · exact le_rfl
  · dsimp only
    rw [hsum]

theorem sampleLanes_ok {state : LaneCoordinatorState heap}
    (hdistinct :
      (input.fittingDescriptors.map fun descriptor =>
        (descriptor.role, descriptor.depth)).Nodup)
    (hscheduled : ∀ search ∈ input.scheduledColdStart,
      ScheduledColdStart subsystems identities input search)
    (h : sampleLanes subsystems identities input = .ok state) :
    ∃ cold warm, state.lanes = cold :: warm ∧
      Accounted input.preparedPieces.length cold warm state.quanta none ∧
      (warm.map ProtectedCapacityLane.consumed).sum ≤
        input.fittingDescriptors.length * depthQuota := by
  obtain ⟨sampled, hsampled, hrest⟩ := except_bind_eq_ok h
  obtain ⟨resumed, hresumed, hpilots⟩ := except_bind_eq_ok hrest
  obtain ⟨first, hfirst, haccounted⟩ := sampleColdLane_ok hscheduled hsampled
  obtain ⟨cold, hcold, haccounted'⟩ := resumeColdLane_ok hfirst haccounted hresumed
  obtain ⟨warm, hlanes, hfinal, hsum⟩ := pilotWarmLanes_ok input.fittingDescriptors hcold
    haccounted' (descriptors_identity_nodup hdistinct) hpilots
  rw [List.map_nil, List.sum_nil, Nat.zero_add] at hsum
  exact ⟨cold, warm, hlanes, hfinal, hsum⟩

/-- **The trace law of the coordinator**: for at most nine descriptors of different
(role, depth), the resume loops end, and every result passes its validator within the
budgets. -/
theorem laneCoordinator_traceLaw
    (hdistinct :
      (input.fittingDescriptors.map fun descriptor =>
        (descriptor.role, descriptor.depth)).Nodup)
    (hnine : input.fittingDescriptors.length ≤ 9)
    (hscheduled : ∀ search ∈ input.scheduledColdStart,
      ScheduledColdStart subsystems identities input search) :
    EndsWithin input.preparedPieces.length
      (runProtectedCapacityLaneCoordinator subsystems identities input)
      (LaneCoordinatorLaw input) := by
  cases hsample : sampleLanes subsystems identities input with
  | error error =>
      refine .now (.error error) ?_ (by rintro final ⟨⟩)
      intro fuel
      unfold runProtectedCapacityLaneCoordinator
      rw [hsample]
  | ok state =>
      obtain ⟨cold, warm, hlanes, haccounted, hsum⟩ :=
        sampleLanes_ok subsystems identities input hdistinct hscheduled hsample
      have hpilots : (warm.map ProtectedCapacityLane.consumed).sum ≤ input.baseCap := by
        calc (warm.map ProtectedCapacityLane.consumed).sum
            ≤ input.fittingDescriptors.length * depthQuota := hsum
          _ ≤ 9 * depthQuota := Nat.mul_le_mul_right _ hnine
          _ ≤ intrinsicCapacityV1Bounds.minimumPlacementEvaluationCap := by decide
          _ ≤ input.baseCap := Nat.le_max_left _ _
      refine (settleWarmLane_ends subsystems identities hlanes haccounted hpilots).bind
        (fun settled fuel =>
          (runQualityLane subsystems identities input fuel settled.1.quanta).map fun quality =>
            quality.bind (settleCoordinator input settled.1 settled.2))
        ?_ ?_ ?_
      · intro fuel error herror
        unfold runProtectedCapacityLaneCoordinator
        rw [hsample]
        dsimp only
        rw [herror]
      · rintro fuel ⟨settled, warmConsumed⟩ hok
        unfold runProtectedCapacityLaneCoordinator
        rw [hsample]
        dsimp only
        rewrite [hok]
        rcases hquality : runQualityLane subsystems identities input fuel settled.quanta with
          _ | (error | quality) <;> simp only [hquality, Option.map_none, Option.map_some] <;> rfl
      · rintro ⟨settled, warmConsumed⟩ hsettled
        obtain ⟨_, _, _, hordered, -⟩ := id hsettled
        refine (runQualityLane_ends subsystems identities hordered.ordered).bind
          (fun quality _ => some (settleCoordinator input settled warmConsumed quality))
          (fun fuel error herror => by rw [herror]; rfl)
          (fun fuel quality hok => by rw [hok]; rfl) ?_
        rintro quality ⟨added, hquality⟩
        refine .now _ (fun _ => rfl) ?_
        intro result hresult
        exact settleCoordinator_law input hsettled hquality hresult

end

/-- A square that only a prefix can have placed. -/
def fixedSquare (pieceId : PieceId) : IrregularPreparedPiece ℚ :=
  { squarePiece pieceId with transforms := [] }

/-- Two squares with one canonical-grid prefix. -/
def twoSquaresLanes : LaneCoordinatorInput squareHeap where
  sheet := ⟨1, 1, ""⟩
  preparedPieces := [fixedSquare "a", fixedSquare "b"]
  materialAreasByPieceId _ := some 2
  fittingDescriptors := [⟨.canonicalGrid, 1,
    (IrregularBeamState.empty [fixedSquare "a", fixedSquare "b"]).withPlacement
      [fixedSquare "b"] ⟨0⟩ "a", ["a"], ["b"]⟩]
  scheduledColdStart := none
  retentionMode := some .cohesionFrontier

theorem laneCoordinator_traceLaw_twoSquares :
    ∃ result, runProtectedCapacityLaneCoordinator (crowdedSubsystems 0) (plainIdentities _)
        twoSquaresLanes 3 = some (.ok result) ∧
      LaneCoordinatorLaw twoSquaresLanes result := by
  obtain ⟨outcome, hends, hlaw⟩ := laneCoordinator_traceLaw (crowdedSubsystems 0)
    (plainIdentities _) twoSquaresLanes (by decide) (by decide) (by
      intro search hsearch
      cases hsearch)
  have hrun := hends 3 (by decide)
  have hok : (runProtectedCapacityLaneCoordinator (crowdedSubsystems 0) (plainIdentities _)
      twoSquaresLanes 3).any Except.isOk = true := by decide +kernel
  rw [hrun] at hok
  cases outcome with
  | error error => cases hok
  | ok result => exact ⟨result, hrun, hlaw result rfl⟩

end PolygonNesting
