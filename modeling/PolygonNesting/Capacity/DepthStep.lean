import Mathlib.Tactic.Linarith
import PolygonNesting.Capacity.ColdSearch
import PolygonNesting.Lib.Fallible

set_option linter.unusedSectionVars false

/-!
# What one depth can do

The inversion of `searchDepth`.  Every entry of the next beam is a skip or a
placement of an entry of the beam before; the ledger of the depth is a function
of the number of candidates that the beam offers; and the counters grow by no
more than the work of the depth.

The quota flag has a meaning of its own: it is set exactly when the beam offers
more candidates than the quota, provided the total cap leaves room for a whole
quota, which it does at every depth of a run.
-/

namespace PolygonNesting

variable {F : Type} [LinearOrder F] [Zero F] [One F] [Add F] [Sub F] [Neg F]
  [Mul F] [Div F] [JsMath F] {heap : ℕ → IrregularPlacedPiece F}

/-! ## §1  Successors -/

namespace DepthContext

/-- The two ways to make a successor.  A placed successor has the span and the
key of its state, and fits the sheet one way or the other. -/
inductive Successor (context : DepthContext heap) (entry : CapacityEntry heap) :
    CapacityEntry heap → Prop
  | skip : Successor context entry (context.skipSuccessor entry)
  | place (reference : EvaluatedCandidateReference F)
      (gridSpan : IntrinsicCapacityGridSpan) (anchoredOccupiedKey : String)
      (hspan : intrinsicCapacityStateGridSpan (context.placedState entry reference) =
        some gridSpan)
      (hkey : (context.placedState entry
          reference).bottomLeftAnchoredCanonicalOccupiedGeometryKey =
        some anchoredOccupiedKey) :
      Successor context entry
        ⟨context.placedState entry reference,
          entry.placedDoubledMaterialAreaGrid2 + context.pieceMaterial,
          anchoredOccupiedKey, gridSpan, noCavities⟩

end DepthContext

/-- What is counted while successors are made and dropped. -/
def IntrinsicCapacitySearchCounters.work (counters : IntrinsicCapacitySearchCounters) :
    ℕ :=
  counters.prunedByAttainableCount + counters.prunedByAttainableMaterial +
    counters.deduplicatedSuccessors + counters.fitRejectedCandidates +
    counters.invalidCandidates

/-- The counters that only a depth boundary or a settlement changes. -/
def IntrinsicCapacitySearchCounters.boundary
    (counters : IntrinsicCapacitySearchCounters) : ℕ × ℕ × ℕ :=
  (counters.endpointFitRejections, counters.completedDepths,
    counters.depthQuotaExhaustions)

/-- Each successor made, and each one not made, is one unit of work. -/
def DepthExpansion.work (expansion : DepthExpansion heap) : ℕ :=
  expansion.counters.work + expansion.successors.length

/-- The quota of a depth. -/
def depthQuota : ℕ := intrinsicCapacityV1Bounds.placementEvaluationQuotaPerDepth

/-- Where the expansion of a beam stands, after a number of candidates was
offered; `pending` candidates are scored and not yet built. -/
structure ExpansionInv (context : DepthContext heap) (beam : List (CapacityEntry heap))
    (base : ℕ) (boundary : ℕ × ℕ × ℕ) (start offered pending : ℕ)
    (expansion : DepthExpansion heap) : Prop where
  successors : ∀ successor ∈ expansion.successors,
    ∃ entry ∈ beam, context.Successor entry successor
  consumedAtDepth : expansion.consumedAtDepth = min depthQuota offered
  exhausted : expansion.depthQuotaExhausted = decide (depthQuota < offered)
  consumed : expansion.consumedPlacementEvaluations = base + expansion.consumedAtDepth
  boundary : expansion.counters.boundary = boundary
  work : expansion.work + pending ≤ start + expansion.consumedAtDepth

section
variable {context : DepthContext heap} {beam : List (CapacityEntry heap)}
  {base start offered pending : ℕ} {boundary : ℕ × ℕ × ℕ}
  {expansion : DepthExpansion heap} {entry : CapacityEntry heap}

theorem ExpansionInv.mono
    (h : ExpansionInv context beam base boundary start offered pending expansion)
    {start' pending' : ℕ} (hle : start + pending' ≤ start' + pending) :
    ExpansionInv context beam base boundary start' offered pending' expansion where
  successors := h.successors
  consumedAtDepth := h.consumedAtDepth
  exhausted := h.exhausted
  consumed := h.consumed
  boundary := h.boundary
  work := by
    have := h.work
    omega

/-! ## §2  Building -/

theorem ExpansionInv.countInvalid
    (h : ExpansionInv context beam base boundary start offered pending expansion) :
    ExpansionInv context beam base boundary (start + 1) offered pending
      expansion.countInvalid where
  successors := h.successors
  consumedAtDepth := h.consumedAtDepth
  exhausted := h.exhausted
  consumed := h.consumed
  boundary := h.boundary
  work := by
    have hwork := h.work
    simp only [DepthExpansion.work, IntrinsicCapacitySearchCounters.work,
      DepthExpansion.countInvalid] at hwork ⊢
    omega

theorem ExpansionInv.countFitRejected
    (h : ExpansionInv context beam base boundary start offered pending expansion) :
    ExpansionInv context beam base boundary (start + 1) offered pending
      expansion.countFitRejected where
  successors := h.successors
  consumedAtDepth := h.consumedAtDepth
  exhausted := h.exhausted
  consumed := h.consumed
  boundary := h.boundary
  work := by
    have hwork := h.work
    simp only [DepthExpansion.work, IntrinsicCapacitySearchCounters.work,
      DepthExpansion.countFitRejected] at hwork ⊢
    omega

theorem ExpansionInv.pushSuccessor
    (h : ExpansionInv context beam base boundary start offered pending expansion)
    (hentry : entry ∈ beam) {successor : CapacityEntry heap}
    (hsuccessor : context.Successor entry successor) :
    ExpansionInv context beam base boundary (start + 1) offered pending
      (context.pushSuccessor expansion successor).1 := by
  have hwork := h.work
  unfold DepthContext.pushSuccessor
  dsimp only
  split
  · refine ⟨h.successors, h.consumedAtDepth, h.exhausted, h.consumed, h.boundary, ?_⟩
    simp only [DepthExpansion.work, IntrinsicCapacitySearchCounters.work] at hwork ⊢
    omega
  · refine ⟨?_, h.consumedAtDepth, h.exhausted, h.consumed, h.boundary, ?_⟩
    · intro other hother
      rcases List.mem_append.mp hother with hother | hother
      · exact h.successors other hother
      · rw [List.mem_singleton.mp hother]
        exact ⟨entry, hentry, hsuccessor⟩
    · simp only [DepthExpansion.work, List.length_append, List.length_singleton] at hwork ⊢
      omega

theorem ExpansionInv.buildReference
    (h : ExpansionInv context beam base boundary start offered pending expansion)
    (hentry : entry ∈ beam) (reference : EvaluatedCandidateReference F) :
    ExpansionInv context beam base boundary (start + 1) offered pending
      (context.buildReference entry reference expansion).1 := by
  unfold DepthContext.buildReference
  dsimp only
  split
  · exact h.countInvalid
  · next gridSpan hspan =>
    split
    · exact h.countFitRejected
    · split
      · exact h.countInvalid
      · next anchoredOccupiedKey hkey =>
        exact h.pushSuccessor hentry (.place reference gridSpan anchoredOccupiedKey
          hspan hkey)

theorem ExpansionInv.buildCompact (hentry : entry ∈ beam)
    {scored : List (EvaluatedCandidateReference F)} :
    ∀ {expansion : DepthExpansion heap} (builtCount : ℕ)
      (builtCandidateKeys : List String),
      ExpansionInv context beam base boundary start offered scored.length expansion →
        ExpansionInv context beam base boundary start offered 0
          (context.buildCompact entry scored builtCount builtCandidateKeys
            expansion).1 := by
  induction scored with
  | nil =>
      intro expansion builtCount builtCandidateKeys h
      exact h
  | cons reference scored ih =>
      intro expansion builtCount builtCandidateKeys h
      unfold DepthContext.buildCompact
      split
      · exact h.mono (by omega)
      · refine ih _ _ ((h.buildReference hentry reference).mono ?_)
        rw [List.length_cons]
        omega

theorem ExpansionInv.buildContact
    (h : ExpansionInv context beam base boundary start offered pending expansion)
    (hentry : entry ∈ beam) (scored : List (EvaluatedCandidateReference F))
    (builtCandidateKeys : List String) :
    ExpansionInv context beam base boundary (start + 1) offered pending
      (context.buildContact entry scored builtCandidateKeys expansion) := by
  unfold DepthContext.buildContact
  split
  · dsimp only
    split
    · exact h.mono (by omega)
    · exact h.buildReference hentry _
  · exact h.mono (by omega)

theorem ExpansionInv.reserveSkips {entries : List (CapacityEntry heap)}
    (hentries : ∀ entry ∈ entries, entry ∈ beam) :
    ∀ {start : ℕ} {expansion : DepthExpansion heap},
      ExpansionInv context beam base boundary start offered pending expansion →
        ExpansionInv context beam base boundary (start + entries.length) offered pending
          (context.reserveSkips entries expansion) := by
  induction entries with
  | nil =>
      intro start expansion h
      exact h
  | cons entry entries ih =>
      intro start expansion h
      have hpushed := h.pushSuccessor (hentries entry List.mem_cons_self)
        (show context.Successor entry (context.skipSuccessor entry) from .skip)
      refine (ih (fun e he => hentries e (List.mem_cons_of_mem _ he)) hpushed).mono ?_
      rw [List.length_cons]
      omega

/-! ## §3  Evaluating -/

/-- One candidate evaluated short of the quota, and accounted for in the given
way. -/
theorem ExpansionInv.consume
    (h : ExpansionInv context beam base boundary start offered pending expansion)
    (hroom : expansion.consumedAtDepth < depthQuota) :
    ExpansionInv context beam base boundary start (offered + 1) (pending + 1)
      expansion.consume := by
  have hconsumed := h.consumedAtDepth
  have hoffered : offered < depthQuota := by omega
  refine ⟨h.successors, ?_, ?_, ?_, h.boundary, ?_⟩
  · show expansion.consumedAtDepth + 1 = _
    omega
  · show expansion.depthQuotaExhausted = _
    rw [h.exhausted]
    simp only [decide_eq_decide]
    omega
  · show expansion.consumedPlacementEvaluations + 1 = base + (expansion.consumedAtDepth + 1)
    rw [h.consumed]
    omega
  · have hwork := h.work
    show expansion.work + (pending + 1) ≤ start + (expansion.consumedAtDepth + 1)
    omega

/-- Once the quota is reached, every further candidate only sets the flag. -/
theorem ExpansionInv.exhaust
    (h : ExpansionInv context beam base boundary start offered pending expansion)
    (hfull : depthQuota ≤ expansion.consumedAtDepth) {more : ℕ} (hmore : 0 < more) :
    ExpansionInv context beam base boundary start (offered + more) pending
      { expansion with depthQuotaExhausted := true } := by
  have hconsumed := h.consumedAtDepth
  refine ⟨h.successors, ?_, ?_, h.consumed, h.boundary, h.work⟩
  · show expansion.consumedAtDepth = _
    omega
  · show true = _
    rw [eq_comm, decide_eq_true_iff]
    omega

/-- Once the flag is set, nothing more counts. -/
theorem ExpansionInv.offer
    (h : ExpansionInv context beam base boundary start offered pending expansion)
    (hexhausted : expansion.depthQuotaExhausted = true) (more : ℕ) :
    ExpansionInv context beam base boundary start (offered + more) pending expansion := by
  have hconsumed := h.consumedAtDepth
  have hflag := h.exhausted
  rw [hexhausted, eq_comm, decide_eq_true_iff] at hflag
  refine ⟨h.successors, by omega, ?_, h.consumed, h.boundary, h.work⟩
  rw [hexhausted, eq_comm, decide_eq_true_iff]
  omega

theorem ExpansionInv.evaluateCandidates
    (hcap : base + depthQuota ≤ context.input.placementEvaluationCap)
    {moving : TransformedCollisionGeometry F} {transformOrdinal : ℕ}
    {candidates : List (IrregularPlacementCandidate F)} :
    ∀ {offered : ℕ} {expansion expansion' : DepthExpansion heap}
      {scored scored' : List (EvaluatedCandidateReference F)},
      ExpansionInv context beam base boundary start offered scored.length expansion →
      context.evaluateCandidates entry moving transformOrdinal candidates expansion
          scored = .ok (expansion', scored') →
        ExpansionInv context beam base boundary start (offered + candidates.length)
          scored'.length expansion' := by
  induction candidates with
  | nil =>
      intro offered expansion expansion' scored scored' h hok
      cases hok
      exact h
  | cons candidate candidates ih =>
      intro offered expansion expansion' scored scored' h hok
      have hconsumed := h.consumed
      unfold DepthContext.evaluateCandidates at hok
      split at hok
      · next hreached =>
        cases hok
        -- the total cap is not reached before the quota of the depth
        have hfull : depthQuota ≤ expansion.consumedAtDepth := by
          rcases hreached with hquota | htotal
          · exact hquota
          · omega
        exact h.exhaust hfull (by rw [List.length_cons]; omega)
      · next hbelow =>
        obtain ⟨hroom, -⟩ := not_or.mp hbelow
        have hnext := h.consume (Nat.lt_of_not_le hroom)
        have hlength : offered + (candidate :: candidates).length =
            offered + 1 + candidates.length := by
          rw [List.length_cons]
          omega
        rw [hlength]
        split at hok
        · cases hok
        · exact ih (hnext.countInvalid.mono (by omega)) hok
        · exact ih (hnext.countFitRejected.mono (by omega)) hok
        · refine ih (hnext.mono ?_) hok
          rw [List.length_append, List.length_singleton]

/-- The candidates that one transform of a piece gives a state; none where the
geometry or the generator fails. -/
def offeredByTransform (subsystems : SearchSubsystems heap)
    (piece : IrregularPreparedPiece F) (entry : CapacityEntry heap)
    (transform : IrregularTransformCandidate F) : ℕ :=
  match transformCollisionGeometry subsystems piece.collisionGeometry transform with
  | .error _ => 0
  | .ok moving =>
      match legalCandidates subsystems entry.state moving with
      | .error _ => 0
      | .ok candidates => candidates.length

/-- The candidates that all transforms of a piece give a state. -/
def offeredByEntry (subsystems : SearchSubsystems heap)
    (piece : IrregularPreparedPiece F) (entry : CapacityEntry heap) : ℕ :=
  (piece.transforms.map (offeredByTransform subsystems piece entry)).sum

/-- The candidates that a beam offers for a piece. -/
def offeredCandidates (subsystems : SearchSubsystems heap)
    (piece : IrregularPreparedPiece F) (beam : List (CapacityEntry heap)) : ℕ :=
  (beam.map (offeredByEntry subsystems piece)).sum

theorem ExpansionInv.evaluateTransforms
    (hcap : base + depthQuota ≤ context.input.placementEvaluationCap)
    {transforms : List (IrregularTransformCandidate F × ℕ)} :
    ∀ {offered : ℕ} {expansion expansion' : DepthExpansion heap}
      {scored scored' : List (EvaluatedCandidateReference F)},
      ExpansionInv context beam base boundary start offered scored.length expansion →
      context.evaluateTransforms entry transforms expansion scored =
          .ok (expansion', scored') →
        ExpansionInv context beam base boundary start
          (offered + (transforms.map fun transform => offeredByTransform
            context.subsystems context.piece entry transform.1).sum)
          scored'.length expansion' := by
  induction transforms with
  | nil =>
      intro offered expansion expansion' scored scored' h hok
      cases hok
      exact h
  | cons transform transforms ih =>
      intro offered expansion expansion' scored scored' h hok
      obtain ⟨transform, transformOrdinal⟩ := transform
      unfold DepthContext.evaluateTransforms at hok
      split at hok
      · next hexhausted =>
        cases hok
        exact h.offer hexhausted _
      · obtain ⟨moving, hmoving, hok⟩ := except_bind_eq_ok hok
        obtain ⟨candidates, hcandidates, hok⟩ := except_bind_eq_ok hok
        obtain ⟨⟨evaluated, scored₁⟩, hevaluated, hok⟩ := except_bind_eq_ok hok
        have hoffered : offeredByTransform context.subsystems context.piece entry
            transform = candidates.length := by
          unfold offeredByTransform
          rw [hmoving]
          dsimp only
          rw [hcandidates]
        rw [List.map_cons, List.sum_cons, hoffered, ← Nat.add_assoc]
        exact ih (h.evaluateCandidates hcap hevaluated) hok

theorem ExpansionInv.expandEntries
    (hcap : base + depthQuota ≤ context.input.placementEvaluationCap)
    {entries : List (CapacityEntry heap)} (hentries : ∀ entry ∈ entries, entry ∈ beam) :
    ∀ {start offered : ℕ} {expansion expansion' : DepthExpansion heap},
      ExpansionInv context beam base boundary start offered 0 expansion →
      context.expandEntries entries expansion = .ok expansion' →
        ExpansionInv context beam base boundary (start + entries.length)
          (offered + offeredCandidates context.subsystems context.piece entries) 0
          expansion' := by
  induction entries with
  | nil =>
      intro start offered expansion expansion' h hok
      cases hok
      exact h
  | cons entry entries ih =>
      intro start offered expansion expansion' h hok
      have hentry := hentries entry List.mem_cons_self
      unfold DepthContext.expandEntries at hok
      split at hok
      · next hexhausted =>
        cases hok
        exact (h.offer hexhausted _).mono (by omega)
      · obtain ⟨⟨evaluated, scored⟩, hevaluated, hok⟩ := except_bind_eq_ok hok
        have hscored := h.evaluateTransforms hcap hevaluated
        -- the order of the transforms does not change how many they offer
        have htransforms : (((context.piece.transforms.mergeSort
              (sortLe transformCandidateOrder)).zipIdx).map fun transform =>
              offeredByTransform context.subsystems context.piece entry
                transform.1).sum =
            offeredByEntry context.subsystems context.piece entry := by
          have hfst : ((context.piece.transforms.mergeSort
              (sortLe transformCandidateOrder)).zipIdx.map Prod.fst) =
              context.piece.transforms.mergeSort (sortLe transformCandidateOrder) :=
            List.zipIdx_map_fst 0 _
          rw [show (fun transform : IrregularTransformCandidate F × ℕ =>
              offeredByTransform context.subsystems context.piece entry transform.1) =
            offeredByTransform context.subsystems context.piece entry ∘ Prod.fst from rfl,
            ← List.map_map, hfst]
          exact ((List.mergeSort_perm _ _).map _).sum_eq
        rw [htransforms] at hscored
        have hsorted : (scored.mergeSort
            (sortLe compareScoredCandidateReferences)).length = scored.length :=
          List.length_mergeSort _
        rw [← hsorted] at hscored
        have hbuilt := (ExpansionInv.buildCompact hentry 0 [] hscored).buildContact
            hentry
            (scored.mergeSort (sortLe compareScoredCandidateReferences))
            (context.buildCompact entry
              (scored.mergeSort (sortLe compareScoredCandidateReferences)) 0 []
              evaluated).2
        have hrest := ih (fun e he => hentries e (List.mem_cons_of_mem _ he)) hbuilt hok
        unfold offeredCandidates at hrest ⊢
        rw [List.map_cons, List.sum_cons, List.length_cons, ← Nat.add_assoc offered]
        refine hrest.mono ?_
        omega

end

/-! ## §4  Pruning, measuring, retaining -/

theorem mem_pruneSuccessors {incumbent : Option (IntrinsicCapacityEndpoint heap)}
    {remainingCount : ℕ} {remainingMaterial : ℤ} {successor : CapacityEntry heap}
    {successors : List (CapacityEntry heap)} :
    ∀ {counters : IntrinsicCapacitySearchCounters},
      successor ∈ (DepthContext.pruneSuccessors incumbent remainingCount
        remainingMaterial successors counters).1 → successor ∈ successors := by
  induction successors with
  | nil =>
      intro counters h
      exact h
  | cons first successors ih =>
      intro counters h
      unfold DepthContext.pruneSuccessors at h
      split at h
      · rcases List.mem_cons.mp h with h | h
        · exact h ▸ List.mem_cons_self
        · exact List.mem_cons_of_mem _ (ih h)
      · dsimp only at h
        split at h
        · exact List.mem_cons_of_mem _ (ih h)
        · split at h
          · exact List.mem_cons_of_mem _ (ih h)
          · rcases List.mem_cons.mp h with h | h
            · exact h ▸ List.mem_cons_self
            · exact List.mem_cons_of_mem _ (ih h)

/-- Every successor dropped is counted. -/
theorem work_pruneSuccessors (incumbent : Option (IntrinsicCapacityEndpoint heap))
    (remainingCount : ℕ) (remainingMaterial : ℤ)
    (successors : List (CapacityEntry heap)) :
    ∀ counters : IntrinsicCapacitySearchCounters,
      (DepthContext.pruneSuccessors incumbent remainingCount remainingMaterial
          successors counters).2.work +
          (DepthContext.pruneSuccessors incumbent remainingCount remainingMaterial
            successors counters).1.length =
        counters.work + successors.length ∧
      (DepthContext.pruneSuccessors incumbent remainingCount remainingMaterial
          successors counters).2.boundary = counters.boundary := by
  induction successors with
  | nil =>
      intro counters
      exact ⟨rfl, rfl⟩
  | cons first successors ih =>
      intro counters
      unfold DepthContext.pruneSuccessors
      split
      · obtain ⟨hwork, hboundary⟩ := ih counters
        simp only [List.length_cons]
        exact ⟨by omega, hboundary⟩
      · dsimp only
        split
        · obtain ⟨hwork, hboundary⟩ := ih { counters with
            prunedByAttainableCount := counters.prunedByAttainableCount + 1 }
          refine ⟨?_, hboundary⟩
          rw [hwork]
          simp only [IntrinsicCapacitySearchCounters.work, List.length_cons]
          omega
        · split
          · obtain ⟨hwork, hboundary⟩ := ih { counters with
              prunedByAttainableMaterial := counters.prunedByAttainableMaterial + 1 }
            refine ⟨?_, hboundary⟩
            rw [hwork]
            simp only [IntrinsicCapacitySearchCounters.work, List.length_cons]
            omega
          · obtain ⟨hwork, hboundary⟩ := ih counters
            simp only [List.length_cons]
            exact ⟨by omega, hboundary⟩

theorem mem_measureSurvivors {authority : LayoutAuthority heap}
    {entry : CapacityEntry heap} {surviving : List (CapacityEntry heap)} :
    ∀ {counters : IntrinsicCapacitySearchCounters}
      {cache : IntrinsicCapacityCavityCache F},
      entry ∈ (DepthContext.measureSurvivors authority surviving counters cache).1 →
        ∃ successor ∈ surviving, ∃ cavities,
          entry = { successor with cavities := cavities } := by
  induction surviving with
  | nil =>
      intro counters cache h
      exact absurd h List.not_mem_nil
  | cons first surviving ih =>
      intro counters cache h
      have hrest : ∀ {counters cache}, entry ∈ (DepthContext.measureSurvivors authority
          surviving counters cache).1 → ∃ successor ∈ first :: surviving, ∃ cavities,
          entry = { successor with cavities := cavities } := by
        intro counters cache h
        obtain ⟨successor, hmem, hentry⟩ := ih h
        exact ⟨successor, List.mem_cons_of_mem _ hmem, hentry⟩
      unfold DepthContext.measureSurvivors at h
      split at h
      · rcases List.mem_cons.mp h with h | h
        · exact ⟨first, List.mem_cons_self, first.cavities, h⟩
        · exact hrest h
      · split at h
        · next cavities cache' hmeasure =>
          rcases List.mem_cons.mp h with h | h
          · exact ⟨first, List.mem_cons_self, cavities, h⟩
          · exact hrest h
        · exact hrest h

/-- Every survivor dropped is counted. -/
theorem work_measureSurvivors (authority : LayoutAuthority heap)
    (surviving : List (CapacityEntry heap)) :
    ∀ (counters : IntrinsicCapacitySearchCounters)
      (cache : IntrinsicCapacityCavityCache F),
      (DepthContext.measureSurvivors authority surviving counters cache).2.1.work ≤
          counters.work + surviving.length ∧
        (DepthContext.measureSurvivors authority surviving counters
          cache).2.1.boundary = counters.boundary := by
  induction surviving with
  | nil =>
      intro counters cache
      exact ⟨Nat.le_refl _, rfl⟩
  | cons first surviving ih =>
      intro counters cache
      unfold DepthContext.measureSurvivors
      split
      · obtain ⟨hwork, hboundary⟩ := ih counters cache
        exact ⟨Nat.le_succ_of_le hwork, hboundary⟩
      · split
        · next cavities cache' hmeasure =>
          obtain ⟨hwork, hboundary⟩ := ih counters cache'
          exact ⟨Nat.le_succ_of_le hwork, hboundary⟩
        · next cache' hmeasure =>
          obtain ⟨hwork, hboundary⟩ := ih { counters with
            invalidCandidates := counters.invalidCandidates + 1 } cache'
          refine ⟨?_, hboundary⟩
          rw [List.length_cons]
          simp only [IntrinsicCapacitySearchCounters.work] at hwork ⊢
          omega

/-- The successors of a depth that survive the incumbent. -/
def SearchContext.survivors (context : SearchContext heap) (depth : ℕ)
    (expansion : DepthExpansion heap) :
    List (CapacityEntry heap) × IntrinsicCapacitySearchCounters :=
  DepthContext.pruneSuccessors context.input.incumbent
    (context.input.preparedPieces.length - (depth + 1))
    (context.suffixMaterial.getD (depth + 1) 0) expansion.successors
    (if expansion.depthQuotaExhausted then { expansion.counters with
        depthQuotaExhaustions := expansion.counters.depthQuotaExhaustions + 1 }
      else expansion.counters)

/-- The survivors, measured. -/
def SearchContext.measured (context : SearchContext heap) (depth : ℕ)
    (cache : IntrinsicCapacityCavityCache F) (expansion : DepthExpansion heap) :
    List (CapacityEntry heap) × IntrinsicCapacitySearchCounters ×
      IntrinsicCapacityCavityCache F :=
  DepthContext.measureSurvivors context.subsystems.toLayoutAuthority
    (context.survivors depth expansion).1 (context.survivors depth expansion).2 cache

theorem SearchContext.retainDepth_eq (context : SearchContext heap) (depth : ℕ)
    (cache : IntrinsicCapacityCavityCache F) (expansion : DepthExpansion heap) :
    context.retainDepth depth cache expansion =
      { beam := retainCapacityBeamEntries context.subsystems.jsonString
          context.subsystems.measureCanonicalLayoutTopologyExact
          intrinsicCapacityV1Bounds.coldBeamWidth context.input.effectiveRetentionMode
          (context.measured depth cache expansion).1
        counters := { (context.measured depth cache expansion).2.1 with
          completedDepths := depth + 1 }
        consumedPlacementEvaluations := expansion.consumedPlacementEvaluations
        cavityCache := (context.measured depth cache expansion).2.2 } := by
  unfold SearchContext.retainDepth SearchContext.measured SearchContext.survivors
  rfl

/-! ## §5  The step -/

/-- The expansion of a depth; it does not look at the cavity cache. -/
def SearchContext.expandDepth (context : SearchContext heap) (depth : ℕ)
    (piece : IrregularPreparedPiece F) (beam : List (CapacityEntry heap))
    (counters : IntrinsicCapacitySearchCounters) (consumedPlacementEvaluations : ℕ) :
    Except CapacitySearchError (DepthExpansion heap) :=
  let pieceId := intrinsicCapacityPreparedPieceId piece
  match context.input.materialAreasByPieceId pieceId with
  | none => .error (capacityError "coldSearchMaterial"
      ("piece " ++ pieceId ++ " has no exact material accounting."))
  | some pieceMaterial =>
      let depthContext := context.depthContext depth piece pieceMaterial
      depthContext.expandEntries beam (depthContext.reserveSkips beam
        ⟨[], counters, consumedPlacementEvaluations, 0, false⟩)

theorem SearchContext.searchDepth_eq (context : SearchContext heap) (depth : ℕ)
    (piece : IrregularPreparedPiece F) (progress : SearchProgress heap) :
    context.searchDepth depth piece progress =
      (context.expandDepth depth piece progress.beam progress.counters
        progress.consumedPlacementEvaluations).map fun expansion =>
          (context.retainDepth depth progress.cavityCache expansion,
            ⟨depth, expansion.consumedAtDepth, expansion.depthQuotaExhausted⟩) := by
  unfold SearchContext.searchDepth SearchContext.expandDepth
  dsimp only
  cases context.input.materialAreasByPieceId (intrinsicCapacityPreparedPieceId piece) with
  | none => rfl
  | some pieceMaterial => exact except_bind_ok _ _

/-- **An expansion that succeeds** satisfies the invariant for the whole beam and
everything it offers. -/
theorem SearchContext.expandDepth_ok {context : SearchContext heap} {depth : ℕ}
    {piece : IrregularPreparedPiece F} {beam : List (CapacityEntry heap)}
    {counters : IntrinsicCapacitySearchCounters} {consumed : ℕ}
    {expansion : DepthExpansion heap}
    (hcap : consumed + depthQuota ≤ context.input.placementEvaluationCap)
    (h : context.expandDepth depth piece beam counters consumed = .ok expansion) :
    ∃ pieceMaterial,
      context.input.materialAreasByPieceId (intrinsicCapacityPreparedPieceId piece) =
        some pieceMaterial ∧
      ExpansionInv (context.depthContext depth piece pieceMaterial) beam consumed
        counters.boundary (counters.work + 2 * beam.length)
        (offeredCandidates context.subsystems piece beam) 0 expansion := by
  unfold SearchContext.expandDepth at h
  dsimp only at h
  split at h
  · cases h
  · next pieceMaterial hmaterial =>
    refine ⟨pieceMaterial, hmaterial, ?_⟩
    have hstart : ExpansionInv (context.depthContext depth piece pieceMaterial) beam
        consumed counters.boundary counters.work 0 0 ⟨[], counters, consumed, 0, false⟩ :=
      ⟨fun _ hmem => absurd hmem List.not_mem_nil, rfl, rfl, rfl, rfl, Nat.le_refl _⟩
    have hskips := ExpansionInv.reserveSkips (fun _ hentry => hentry) hstart
    have hroom : consumed + depthQuota ≤
        (context.depthContext depth piece pieceMaterial).input.placementEvaluationCap :=
      hcap
    have hexpanded := ExpansionInv.expandEntries hroom (fun _ hentry => hentry) hskips h
    rw [Nat.zero_add] at hexpanded
    exact hexpanded.mono (by omega)

/-- What the next beam is made of: measured successors of the beam before. -/
theorem SearchContext.mem_retainDepth {context : SearchContext heap} {depth : ℕ}
    {cache : IntrinsicCapacityCavityCache F} {expansion : DepthExpansion heap}
    {entry : CapacityEntry heap}
    (h : entry ∈ (context.retainDepth depth cache expansion).beam) :
    entry ∈ (context.measured depth cache expansion).1 ∧
      ∃ successor ∈ expansion.successors, ∃ cavities,
        entry = { successor with cavities := cavities } := by
  rw [SearchContext.retainDepth_eq] at h
  have hmeasured := mem_retainCapacityBeamEntries h
  obtain ⟨successor, hsurviving, cavities, hentry⟩ := mem_measureSurvivors hmeasured
  exact ⟨hmeasured, successor, mem_pruneSuccessors hsurviving, cavities, hentry⟩

/-- **An entry of the next beam** is a skip or a placement of an entry of the
beam before, up to its cavities. -/
theorem SearchContext.searchDepth_beam {context : SearchContext heap} {depth : ℕ}
    {piece : IrregularPreparedPiece F} {progress next : SearchProgress heap}
    {ledger : IntrinsicAnytimeDepthBudgetLedger}
    (hcap : progress.consumedPlacementEvaluations + depthQuota ≤
      context.input.placementEvaluationCap)
    (h : context.searchDepth depth piece progress = .ok (next, ledger))
    {entry : CapacityEntry heap} (hentry : entry ∈ next.beam) :
    ∃ pieceMaterial, context.input.materialAreasByPieceId
        (intrinsicCapacityPreparedPieceId piece) = some pieceMaterial ∧
      ∃ parent ∈ progress.beam, ∃ successor cavities,
        (context.depthContext depth piece pieceMaterial).Successor parent successor ∧
        entry = { successor with cavities := cavities } := by
  rw [SearchContext.searchDepth_eq] at h
  cases hexpansion : context.expandDepth depth piece progress.beam progress.counters
      progress.consumedPlacementEvaluations with
  | error error => rw [hexpansion] at h; cases h
  | ok expansion =>
      rw [hexpansion] at h
      cases h
      obtain ⟨pieceMaterial, hmaterial, hinv⟩ :=
        SearchContext.expandDepth_ok hcap hexpansion
      obtain ⟨-, successor, hsuccessor, cavities, rfl⟩ :=
        SearchContext.mem_retainDepth hentry
      obtain ⟨parent, hparent, hmade⟩ := hinv.successors successor hsuccessor
      exact ⟨pieceMaterial, hmaterial, parent, hparent, successor, cavities, hmade, rfl⟩

/-- **The ledger of a depth** is a function of what its beam offers. -/
theorem SearchContext.searchDepth_ledger {context : SearchContext heap} {depth : ℕ}
    {piece : IrregularPreparedPiece F} {progress next : SearchProgress heap}
    {ledger : IntrinsicAnytimeDepthBudgetLedger}
    (hcap : progress.consumedPlacementEvaluations + depthQuota ≤
      context.input.placementEvaluationCap)
    (h : context.searchDepth depth piece progress = .ok (next, ledger)) :
    ledger = ⟨depth,
        min depthQuota (offeredCandidates context.subsystems piece progress.beam),
        decide (depthQuota < offeredCandidates context.subsystems piece
          progress.beam)⟩ ∧
      next.consumedPlacementEvaluations =
        progress.consumedPlacementEvaluations + ledger.consumedPlacementEvaluations := by
  rw [SearchContext.searchDepth_eq] at h
  cases hexpansion : context.expandDepth depth piece progress.beam progress.counters
      progress.consumedPlacementEvaluations with
  | error error => rw [hexpansion] at h; cases h
  | ok expansion =>
      rw [hexpansion] at h
      cases h
      obtain ⟨pieceMaterial, hmaterial, hinv⟩ :=
        SearchContext.expandDepth_ok hcap hexpansion
      rw [SearchContext.retainDepth_eq]
      exact ⟨by rw [hinv.consumedAtDepth, hinv.exhausted], hinv.consumed⟩

end PolygonNesting
