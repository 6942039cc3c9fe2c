import PolygonNesting.Capacity.Mode

set_option linter.unusedSectionVars false

/-!
# The captured prefixes

A committed construction is a lineage of states, each one piece further than its
parent.  The capture takes from the lineage of each role the states at a quarter, a
half and three quarters of the prepared order, and keeps those that skipped no piece.
Three roles and three depths make nine descriptors at most: the limit never cuts.
-/

namespace PolygonNesting

variable {F : Type} [LinearOrder F] [Zero F] [One F] [Add F] [Sub F] [Neg F]
  [Mul F] [Div F] [JsMath F] {heap : ℕ → IrregularPlacedPiece F}

/-! ## §1  Lineages -/

/-- How many pieces a state has placed or skipped. -/
def processedCount (state : CapacityState heap) : ℕ :=
  state.placementOrder.length + state.unplacedPieceIds.length

/-- Each state of a lineage is one piece further than the one after it, its parent. -/
def IsLineage (lineage : List (CapacityState heap)) : Prop :=
  lineage.IsChain fun state parent => processedCount state = processedCount parent + 1

/-- A lineage passes each count once, so the latest state at a count is the only one. -/
theorem IsLineage.stateAtProcessedCount {lineage : List (CapacityState heap)}
    (h : IsLineage lineage) {state : CapacityState heap} (hstate : state ∈ lineage) :
    stateAtProcessedCount lineage (processedCount state) = some state := by
  have hdecreasing : lineage.Pairwise fun state other =>
      processedCount other < processedCount state := by
    refine List.isChain_iff_pairwise (R := fun state other : CapacityState heap =>
      processedCount other < processedCount state) |>.mp (h.imp fun _ _ hstep => ?_)
    omega
  unfold PolygonNesting.stateAtProcessedCount
  induction lineage with
  | nil => cases hstate
  | cons first rest ih =>
      obtain ⟨hfirst, hrest⟩ := List.pairwise_cons.mp hdecreasing
      rw [List.find?_cons]
      rcases List.mem_cons.mp hstate with rfl | hmem
      · have hself : (state.placementOrder.length + state.unplacedPieceIds.length ==
            processedCount state) = true := beq_self_eq_true _
        rw [hself]
      · have hne : (first.placementOrder.length + first.unplacedPieceIds.length ==
            processedCount state) = false :=
          beq_eq_false_iff_ne.mpr (hfirst state hmem).ne'
        rw [hne]
        exact ih (List.IsChain.of_cons h) hmem hrest

/-! ## §2  Exact prefixes -/

/-- The state is the prepared order cut at a depth: what is before it is placed, in
order, nothing is skipped, and what is after it remains, in order. -/
structure PreparedPrefix (state : CapacityState heap) (preparedIds : List PieceId)
    (depth : ℕ) : Prop where
  placed : state.placementOrder = preparedIds.take depth
  unskipped : state.unplacedPieceIds = []
  remaining : state.remainingPreparedPieces.map intrinsicCapacityPreparedPieceId =
    preparedIds.drop depth

/-- Two lists of one length agree where their pairs do. -/
theorem zip_all_eq_iff : ∀ {ids ids' : List PieceId}, ids.length = ids'.length →
    ((ids.zip ids').all (fun (id, id') => id == id') = true ↔ ids = ids')
  | [], [], _ => by simp
  | id :: ids, id' :: ids', h => by
      rw [List.zip_cons_cons, List.all_cons, Bool.and_eq_true, beq_iff_eq,
        zip_all_eq_iff (Nat.succ.inj h), List.cons.injEq]

theorem isExactPreparedPrefix_iff {state : CapacityState heap} {preparedIds : List PieceId}
    {depth : ℕ} (hdepth : depth ≤ preparedIds.length) :
    isExactPreparedPrefix state preparedIds depth = true ↔
      PreparedPrefix state preparedIds depth := by
  have htake : (preparedIds.take depth).length = depth := List.length_take_of_le hdepth
  have hzip : ∀ {ids : List PieceId}, ids.length = depth →
      ((ids.zip preparedIds).all (fun (id, id') => id == id') = true ↔
        ids = preparedIds.take depth) := by
    intro ids hids
    have hcut : ids.zip preparedIds = ids.zip (preparedIds.take depth) := by
      rw [List.zip_eq_zip_take_min, hids, Nat.min_eq_left hdepth, List.take_of_length_le hids.le]
    rw [hcut, zip_all_eq_iff (by rw [hids, htake])]
  unfold isExactPreparedPrefix
  simp only [Bool.and_eq_true, List.isEmpty_iff, beq_iff_eq]
  constructor
  · rintro ⟨⟨⟨⟨hskipped, hlength⟩, hplaced⟩, hcount⟩, hremaining⟩
    exact ⟨(hzip hlength).mp hplaced, hskipped,
      (zip_all_eq_iff (by rw [hcount, List.length_drop])).mp hremaining⟩
  · rintro ⟨hplaced, hskipped, hremaining⟩
    have hlength : state.placementOrder.length = depth := by rw [hplaced, htake]
    have hcount := congrArg List.length hremaining
    rw [List.length_drop] at hcount
    exact ⟨⟨⟨⟨hskipped, hlength⟩, (hzip hlength).mpr hplaced⟩, hcount⟩,
      (zip_all_eq_iff (by rw [hcount, List.length_drop])).mpr hremaining⟩

theorem PreparedPrefix.processedCount {state : CapacityState heap}
    {preparedIds : List PieceId} {depth : ℕ} (h : PreparedPrefix state preparedIds depth)
    (hdepth : depth ≤ preparedIds.length) : processedCount state = depth := by
  unfold PolygonNesting.processedCount
  rw [h.placed, h.unskipped, List.length_take_of_le hdepth]
  rfl

/-! ## §3  Depths -/

theorem mem_prefixDepths {pieceCount depth : ℕ} :
    depth ∈ intrinsicCapacityPrefixDepths pieceCount ↔
      (depth = pieceCount / 4 ∨ depth = pieceCount / 2 ∨ depth = 3 * pieceCount / 4) ∧
        1 ≤ depth ∧ depth < pieceCount := by
  unfold intrinsicCapacityPrefixDepths
  rw [List.mem_filter, List.mem_eraseDups, Bool.and_eq_true, decide_eq_true_iff,
    decide_eq_true_iff]
  simp only [List.mem_cons, List.not_mem_nil, or_false]

/-- Three ascending numbers, each once. -/
theorem eraseDups_ascending {a b c : ℕ} (hab : a ≤ b) (hbc : b ≤ c) :
    [a, b, c].eraseDups.Pairwise (· < ·) ∧ [a, b, c].eraseDups.length ≤ 3 := by
  rcases hab.eq_or_lt with rfl | hab
  · rcases hbc.eq_or_lt with rfl | hbc
    · simp [List.eraseDups_cons]
    · simp [List.eraseDups_cons, hbc.ne', hbc]
  · rcases hbc.eq_or_lt with rfl | hbc
    · simp [List.eraseDups_cons, hab.ne', hab]
    · simp [List.eraseDups_cons, hab.ne', hbc.ne', (hab.trans hbc).ne', hab, hbc, hab.trans hbc]

theorem ascending_prefixDepths (pieceCount : ℕ) :
    (intrinsicCapacityPrefixDepths pieceCount).Pairwise (· < ·) ∧
      (intrinsicCapacityPrefixDepths pieceCount).length ≤ 3 := by
  obtain ⟨hascending, hlength⟩ := eraseDups_ascending
    (show pieceCount / 4 ≤ pieceCount / 2 by omega)
    (show pieceCount / 2 ≤ 3 * pieceCount / 4 by omega)
  exact ⟨hascending.filter _, (List.length_filter_le _ _).trans hlength⟩

/-! ## §4  The capture -/

section

variable (preparedPieces : List (IrregularPreparedPiece F))
  (sources : List (IntrinsicCapacityPrefixSource heap))

/-- What the capture takes at one depth of the lineage of one role. -/
def descriptorAt (role : IntrinsicSharedArchiveDirectRole)
    (lineage : List (CapacityState heap)) (depth : ℕ) :
    Option (IntrinsicCapacityPrefixDescriptor heap) :=
  let preparedIds := preparedPieces.map intrinsicCapacityPreparedPieceId
  match stateAtProcessedCount lineage depth with
  | none => none
  | some state =>
      if isExactPreparedPrefix state preparedIds depth then
        some ⟨role, depth, state, state.placementOrder, preparedIds.drop depth⟩
      else none

/-- What the source of one role contributes. -/
def roleDescriptors (role : IntrinsicSharedArchiveDirectRole) :
    List (IntrinsicCapacityPrefixDescriptor heap) :=
  match sources.find? fun candidate => decide (candidate.role = role.asStr) with
  | none => []
  | some source => (intrinsicCapacityPrefixDepths
      (preparedPieces.map intrinsicCapacityPreparedPieceId).length).filterMap
        (descriptorAt preparedPieces role source.lineage)

variable {preparedPieces sources}

theorem descriptorAt_eq_some_iff {role : IntrinsicSharedArchiveDirectRole}
    {lineage : List (CapacityState heap)} {depth : ℕ} (hdepth : depth ≤ preparedPieces.length)
    {descriptor : IntrinsicCapacityPrefixDescriptor heap} :
    descriptorAt preparedPieces role lineage depth = some descriptor ↔
      stateAtProcessedCount lineage depth = some descriptor.state ∧
        PreparedPrefix descriptor.state
          (preparedPieces.map intrinsicCapacityPreparedPieceId) depth ∧
        descriptor = ⟨role, depth, descriptor.state,
          (preparedPieces.map intrinsicCapacityPreparedPieceId).take depth,
          (preparedPieces.map intrinsicCapacityPreparedPieceId).drop depth⟩ := by
  have hdepth' : depth ≤ (preparedPieces.map intrinsicCapacityPreparedPieceId).length := by
    rwa [List.length_map]
  unfold descriptorAt
  dsimp only
  cases hstate : stateAtProcessedCount lineage depth with
  | none => simp
  | some state =>
      dsimp only
      rw [Option.some.injEq]
      constructor
      · intro h
        rw [Option.ite_none_right_eq_some, Option.some.injEq] at h
        obtain ⟨hexact, rfl⟩ := h
        have hpieces := (isExactPreparedPrefix_iff hdepth').mp hexact
        refine ⟨rfl, hpieces, ?_⟩
        rw [hpieces.placed]
      · rintro ⟨rfl, hpieces, hdescriptor⟩
        rw [if_pos ((isExactPreparedPrefix_iff hdepth').mpr hpieces), hpieces.placed,
          ← hdescriptor]

theorem mem_roleDescriptors {role : IntrinsicSharedArchiveDirectRole}
    {descriptor : IntrinsicCapacityPrefixDescriptor heap} :
    descriptor ∈ roleDescriptors preparedPieces sources role ↔
      ∃ source, sources.find? (fun candidate => decide (candidate.role = role.asStr)) =
          some source ∧
        ∃ depth ∈ intrinsicCapacityPrefixDepths preparedPieces.length,
          descriptorAt preparedPieces role source.lineage depth = some descriptor := by
  unfold roleDescriptors
  cases sources.find? fun candidate => decide (candidate.role = role.asStr) with
  | none => simp
  | some source => simp only [List.mem_filterMap, List.length_map, Option.some.injEq,
      exists_eq_left']

/-- The descriptors of one role, by depth. -/
theorem pairwise_roleDescriptors (role : IntrinsicSharedArchiveDirectRole) :
    (roleDescriptors preparedPieces sources role).Pairwise fun first second =>
      first.depth < second.depth := by
  unfold roleDescriptors
  split
  · exact List.Pairwise.nil
  · next source _ =>
    rw [List.pairwise_filterMap]
    refine ((ascending_prefixDepths _).1.imp_of_mem ?_)
    intro depth depth' hmem hmem' hlt first hfirst second hsecond
    rw [List.length_map] at hmem hmem'
    have hfirst' := ((descriptorAt_eq_some_iff (mem_prefixDepths.mp hmem).2.2.le).mp hfirst).2.2
    have hsecond' :=
      ((descriptorAt_eq_some_iff (mem_prefixDepths.mp hmem').2.2.le).mp hsecond).2.2
    rw [hfirst', hsecond']
    exact hlt

theorem length_roleDescriptors_le (role : IntrinsicSharedArchiveDirectRole) :
    (roleDescriptors preparedPieces sources role).length ≤ 3 := by
  unfold roleDescriptors
  split
  · exact Nat.zero_le 3
  · exact (List.length_filterMap_le _ _).trans (ascending_prefixDepths _).2

/-- The limit never cuts. -/
theorem capture_eq_flatMap :
    captureIntrinsicCapacityPrefixDescriptors preparedPieces sources =
      intrinsicSharedArchiveDirectRoles.flatMap (roleDescriptors preparedPieces sources) := by
  have hlength : (intrinsicSharedArchiveDirectRoles.flatMap
      (roleDescriptors preparedPieces sources)).length ≤
        intrinsicCapacityMaximumPrefixDescriptors := by
    have hrole : ∀ role : IntrinsicSharedArchiveDirectRole,
        (roleDescriptors preparedPieces sources role).length ≤ 3 :=
      length_roleDescriptors_le
    have hgrid := hrole .canonicalGrid
    have hlegacy := hrole .legacyAbsoluteEnvelope
    have hpocket := hrole .openPocketFirst
    simp only [intrinsicSharedArchiveDirectRoles, List.flatMap_cons, List.flatMap_nil,
      List.append_nil, List.length_append, intrinsicCapacityMaximumPrefixDescriptors]
    omega
  exact List.take_of_length_le hlength

/-- What is captured, and from where. -/
theorem mem_capture {descriptor : IntrinsicCapacityPrefixDescriptor heap} :
    descriptor ∈ captureIntrinsicCapacityPrefixDescriptors preparedPieces sources ↔
      ∃ source, sources.find? (fun candidate =>
          decide (candidate.role = descriptor.role.asStr)) = some source ∧
        descriptor.depth ∈ intrinsicCapacityPrefixDepths preparedPieces.length ∧
        stateAtProcessedCount source.lineage descriptor.depth = some descriptor.state ∧
        PreparedPrefix descriptor.state
          (preparedPieces.map intrinsicCapacityPreparedPieceId) descriptor.depth ∧
        descriptor.placedPreparedIds =
          (preparedPieces.map intrinsicCapacityPreparedPieceId).take descriptor.depth ∧
        descriptor.remainingPreparedIds =
          (preparedPieces.map intrinsicCapacityPreparedPieceId).drop descriptor.depth := by
  rw [capture_eq_flatMap, List.mem_flatMap]
  constructor
  · rintro ⟨role, -, h⟩
    obtain ⟨source, hsource, depth, hdepth, hat⟩ := mem_roleDescriptors.mp h
    obtain ⟨hstate, hpieces, hdescriptor⟩ :=
      (descriptorAt_eq_some_iff (mem_prefixDepths.mp hdepth).2.2.le).mp hat
    rw [hdescriptor]
    exact ⟨source, hsource, hdepth, hstate, hpieces, rfl, rfl⟩
  · rintro ⟨source, hsource, hdepth, hstate, hpieces, hplaced, hremaining⟩
    refine ⟨descriptor.role, ?_, mem_roleDescriptors.mpr
      ⟨source, hsource, descriptor.depth, hdepth, ?_⟩⟩
    · cases descriptor.role <;> decide
    · refine (descriptorAt_eq_some_iff (mem_prefixDepths.mp hdepth).2.2.le).mpr
        ⟨hstate, hpieces, ?_⟩
      rw [← hplaced, ← hremaining]

/-- Role-major, then by depth. -/
def DescriptorBefore (first second : IntrinsicCapacityPrefixDescriptor heap) : Prop :=
  intrinsicSharedArchiveDirectRoles.idxOf first.role <
      intrinsicSharedArchiveDirectRoles.idxOf second.role ∨
    first.role = second.role ∧ first.depth < second.depth

theorem pairwise_capture :
    (captureIntrinsicCapacityPrefixDescriptors preparedPieces sources).Pairwise
      DescriptorBefore := by
  have hrole : ∀ {role descriptor},
      descriptor ∈ roleDescriptors preparedPieces sources role → descriptor.role = role := by
    intro role descriptor h
    obtain ⟨source, -, depth, hdepth, hat⟩ := mem_roleDescriptors.mp h
    rw [((descriptorAt_eq_some_iff (mem_prefixDepths.mp hdepth).2.2.le).mp hat).2.2]
  rw [capture_eq_flatMap, List.pairwise_flatMap]
  constructor
  · intro role _
    refine (pairwise_roleDescriptors role).imp_of_mem fun hfirst hsecond hlt => .inr ⟨?_, hlt⟩
    rw [hrole hfirst, hrole hsecond]
  · have hroles : intrinsicSharedArchiveDirectRoles.Pairwise fun first second =>
        intrinsicSharedArchiveDirectRoles.idxOf first <
          intrinsicSharedArchiveDirectRoles.idxOf second := by
      decide
    refine hroles.imp fun hlt first hfirst second hsecond => .inl ?_
    rw [hrole hfirst, hrole hsecond]
    exact hlt

end

/-- The captured descriptors are the skip-free prefixes of the lineages: each is the
prepared order cut at its depth, each role and depth stands once, in order, and no
depth is left out that the lineage of a role passes without a skip. -/
structure CapturesPrefixes (preparedPieces : List (IrregularPreparedPiece F))
    (sources : List (IntrinsicCapacityPrefixSource heap))
    (captured : List (IntrinsicCapacityPrefixDescriptor heap)) : Prop where
  exact_prefix : ∀ descriptor ∈ captured,
    PreparedPrefix descriptor.state (preparedPieces.map intrinsicCapacityPreparedPieceId)
        descriptor.depth ∧
      descriptor.placedPreparedIds =
        (preparedPieces.map intrinsicCapacityPreparedPieceId).take descriptor.depth ∧
      descriptor.remainingPreparedIds =
        (preparedPieces.map intrinsicCapacityPreparedPieceId).drop descriptor.depth
  unique : (captured.map fun descriptor => (descriptor.role, descriptor.depth)).Nodup
  ordered : captured.Pairwise DescriptorBefore
  limited : captured.length ≤ 9
  -- the lineage of a role is that of its first source
  represented : ∀ role depth state,
    (∃ descriptor ∈ captured,
        descriptor.role = role ∧ descriptor.depth = depth ∧ descriptor.state = state) ↔
      depth ∈ intrinsicCapacityPrefixDepths preparedPieces.length ∧
        PreparedPrefix state (preparedPieces.map intrinsicCapacityPreparedPieceId) depth ∧
        ∃ source, sources.find? (fun candidate => decide (candidate.role = role.asStr)) =
            some source ∧
          stateAtProcessedCount source.lineage depth = some state
  all_represented : (sources.map fun source => source.role).Nodup →
    (∀ source ∈ sources, IsLineage source.lineage) →
    ∀ source ∈ sources, ∀ role : IntrinsicSharedArchiveDirectRole, source.role = role.asStr →
      ∀ state ∈ source.lineage,
      ∀ depth ∈ intrinsicCapacityPrefixDepths preparedPieces.length,
        PreparedPrefix state (preparedPieces.map intrinsicCapacityPreparedPieceId) depth →
        ∃ descriptor ∈ captured,
          descriptor.role = role ∧ descriptor.depth = depth ∧ descriptor.state = state

/-- **The capture takes exactly the skip-free prefixes.** -/
theorem captureIntrinsicCapacityPrefixDescriptors_captures
    (preparedPieces : List (IrregularPreparedPiece F))
    (sources : List (IntrinsicCapacityPrefixSource heap)) :
    CapturesPrefixes preparedPieces sources
      (captureIntrinsicCapacityPrefixDescriptors preparedPieces sources) := by
  have hrepresented : ∀ role depth state,
      (∃ descriptor ∈ captureIntrinsicCapacityPrefixDescriptors preparedPieces sources,
          descriptor.role = role ∧ descriptor.depth = depth ∧ descriptor.state = state) ↔
        depth ∈ intrinsicCapacityPrefixDepths preparedPieces.length ∧
          PreparedPrefix state (preparedPieces.map intrinsicCapacityPreparedPieceId) depth ∧
          ∃ source, sources.find? (fun candidate => decide (candidate.role = role.asStr)) =
              some source ∧
            stateAtProcessedCount source.lineage depth = some state := by
    intro role depth state
    constructor
    · rintro ⟨descriptor, hmem, rfl, rfl, rfl⟩
      obtain ⟨source, hsource, hdepth, hstate, hpieces, -, -⟩ := mem_capture.mp hmem
      exact ⟨hdepth, hpieces, source, hsource, hstate⟩
    · rintro ⟨hdepth, hpieces, source, hsource, hstate⟩
      exact ⟨⟨role, depth, state,
          (preparedPieces.map intrinsicCapacityPreparedPieceId).take depth,
          (preparedPieces.map intrinsicCapacityPreparedPieceId).drop depth⟩,
        mem_capture.mpr ⟨source, hsource, hdepth, hstate, hpieces, rfl, rfl⟩, rfl, rfl, rfl⟩
  refine ⟨?_, ?_, pairwise_capture, List.length_take_le _ _, hrepresented, ?_⟩
  · intro descriptor hmem
    obtain ⟨source, -, -, -, hpieces⟩ := mem_capture.mp hmem
    exact hpieces
  · refine List.pairwise_map.mpr (pairwise_capture.imp fun hbefore heq => ?_)
    obtain ⟨hrole, hdepth⟩ := Prod.mk.inj heq
    rcases hbefore with hlt | ⟨-, hlt⟩
    · rw [hrole] at hlt
      exact lt_irrefl _ hlt
    · rw [hdepth] at hlt
      exact lt_irrefl _ hlt
  · intro hroles hlineages source hsource role hrole state hstate depth hdepth hpieces
    refine (hrepresented role depth state).mpr ⟨hdepth, hpieces, source, ?_, ?_⟩
    · have hfound : (sources.find? fun candidate =>
          decide (candidate.role = role.asStr)).isSome = true :=
        List.find?_isSome.mpr ⟨source, hsource, decide_eq_true hrole⟩
      obtain ⟨first, hfirst⟩ := Option.isSome_iff_exists.mp hfound
      have hfirstRole : first.role = role.asStr := by
        simpa only [decide_eq_true_iff] using List.find?_some hfirst
      have hsame : first = source :=
        List.inj_on_of_nodup_map hroles (List.mem_of_find?_eq_some hfirst) hsource
          (hfirstRole.trans hrole.symm)
      rw [hfirst, hsame]
    · have hcount : processedCount state = depth := by
        refine hpieces.processedCount ?_
        rw [List.length_map]
        exact (mem_prefixDepths.mp hdepth).2.2.le
      rw [← hcount]
      exact (hlineages source hsource).stateAtProcessedCount hstate

end PolygonNesting
