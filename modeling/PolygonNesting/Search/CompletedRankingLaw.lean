import Mathlib.Data.List.Nodup
import PolygonNesting.Search.CompletedRanking

set_option linter.unusedSectionVars false

/-!
# The Pareto ranking

Each objective is a consistent order of the layouts with exact metrics and a hull, and of
the layouts without exact metrics, but not of both together.  Domination within either
kind is a strict partial order, so that every round of the ranking finds a front.  The
winner of the shared archive is the least of the front by the certificate, whose
fractions have positive denominators.
-/

namespace PolygonNesting

open Comparator ParetoPeeling

variable {F : Type} [LinearOrder F] [Zero F] [One F] [Add F] [Sub F] [Neg F]
  [Mul F] [Div F] [JsMath F]

/-! ## §1  Ratios -/

theorem orderOn_exactRatio {α : Type} {S : α → Prop} (numerator denominator : α → ℤ)
    (hpos : ∀ a, S a → 0 < denominator a) :
    OrderOn S fun a b => compareExactRatio (numerator a) (denominator a) (numerator b)
      (denominator b) :=
  (orderOn_cross_mul numerator denominator hpos).congr fun a b ha hb => by
    unfold compareExactRatio
    rw [if_neg (not_or.mpr ⟨not_le.mpr (hpos a ha), not_le.mpr (hpos b hb)⟩)]

theorem orderOn_asc {α β : Type} [LinearOrder β] {S : α → Prop} (f : α → β) :
    OrderOn S fun a b => ascCmp (f a) (f b) := orderOn_compare f

theorem orderOn_desc {α β : Type} [LinearOrder β] {S : α → Prop} (f : α → β) :
    OrderOn S fun a b => descCmp (f a) (f b) := orderOn_compare_flip f

/-! ## §2  Objectives -/

/-- Exact metrics, with a hull of positive area. -/
def HasExactHull (metrics : IntrinsicStrictCompletedMetrics F) : Prop :=
  ∃ exact, metrics.exact = some exact ∧ 0 < exact.occupiedHullDoubledAreaGrid2

/-- Some piece was placed. -/
def PlacesPieces (metrics : IntrinsicStrictCompletedMetrics F) : Prop :=
  ∀ exact, metrics.exact = some exact → 0 < exact.placedPieceCount

/-- The exact part, zeros where there is none. -/
def exactPart (metrics : IntrinsicStrictCompletedMetrics F) :
    IntrinsicStrictCompletedMetricsExact :=
  metrics.exact.getD ⟨0, 0, 0, 0, 0, 0, 0, 0, 0, 0⟩

theorem HasExactHull.exact_eq {metrics : IntrinsicStrictCompletedMetrics F}
    (h : HasExactHull metrics) : metrics.exact = some (exactPart metrics) := by
  obtain ⟨exact, hexact, -⟩ := h
  rw [exactPart, hexact]
  rfl

theorem HasExactHull.hull_pos {metrics : IntrinsicStrictCompletedMetrics F}
    (h : HasExactHull metrics) : 0 < (exactPart metrics).occupiedHullDoubledAreaGrid2 := by
  obtain ⟨exact, hexact, hpos⟩ := h
  rw [exactPart, hexact]
  exact hpos

theorem orderOn_compactness_exact :
    OrderOn HasExactHull (compareIntrinsicStrictCompactness : Objective F) := by
  refine ((orderOn_asc fun metrics => (exactPart metrics).envelopeMaximumSideGrid).then <|
    (orderOn_asc fun metrics => (exactPart metrics).envelopeAreaGrid2).then <|
      orderOn_asc fun metrics => (exactPart metrics).envelopeSpanGrid).congr
        fun first second hfirst hsecond => ?_
  unfold compareIntrinsicStrictCompactness
  rw [hfirst.exact_eq, hsecond.exact_eq]

theorem orderOn_compactness_none :
    OrderOn (fun metrics => metrics.exact = none)
      (compareIntrinsicStrictCompactness : Objective F) := by
  refine ((orderOn_asc fun metrics : IntrinsicStrictCompletedMetrics F =>
      canonicalLinearMetric metrics.envelopeMaximumSideMm).then <|
    (orderOn_asc fun metrics : IntrinsicStrictCompletedMetrics F =>
      canonicalAreaMetric metrics.envelopeAreaMm2).then <|
    orderOn_asc fun metrics : IntrinsicStrictCompletedMetrics F =>
      canonicalLinearMetric metrics.envelopeSpanMm).congr
        fun first second hfirst hsecond => ?_
  unfold compareIntrinsicStrictCompactness
  rw [hfirst, hsecond]

theorem orderOn_voidTopology_exact :
    OrderOn HasExactHull (compareIntrinsicStrictVoidTopology : Objective F) := by
  refine ((orderOn_asc fun metrics : IntrinsicStrictCompletedMetrics F =>
      metrics.enclosedCavityCount).then <|
    (orderOn_asc fun metrics =>
      (exactPart metrics).totalEnclosedCavityDoubledAreaGrid2).then <|
    (orderOn_exactRatio
      (fun metrics => (exactPart metrics).largestOccupiedHullGapDoubledAreaGrid2)
      (fun metrics => (exactPart metrics).occupiedHullDoubledAreaGrid2)
      fun _ h => h.hull_pos).then <|
    orderOn_exactRatio
      (fun metrics => (exactPart metrics).occupiedHullWasteDoubledAreaGrid2)
      (fun metrics => (exactPart metrics).occupiedHullDoubledAreaGrid2)
      fun _ h => h.hull_pos).congr fun first second hfirst hsecond => ?_
  unfold compareIntrinsicStrictVoidTopology
  rw [hfirst.exact_eq, hsecond.exact_eq]

theorem orderOn_voidTopology_none :
    OrderOn (fun metrics => metrics.exact = none)
      (compareIntrinsicStrictVoidTopology : Objective F) := by
  refine ((orderOn_asc fun metrics : IntrinsicStrictCompletedMetrics F =>
      metrics.enclosedCavityCount).then <|
    (orderOn_asc fun metrics : IntrinsicStrictCompletedMetrics F =>
      canonicalAreaMetric metrics.totalEnclosedCavityAreaMm2).then <|
    (orderOn_asc fun metrics : IntrinsicStrictCompletedMetrics F =>
      metrics.largestOccupiedHullGapRatio).then <|
    orderOn_asc fun metrics : IntrinsicStrictCompletedMetrics F =>
      metrics.occupiedHullWasteRatio).congr fun first second hfirst hsecond => ?_
  unfold compareIntrinsicStrictVoidTopology
  rw [hfirst, hsecond]

/-- The contact objective needs a count of pieces to divide by. -/
theorem orderOn_contact_exact :
    OrderOn (fun metrics => HasExactHull metrics ∧ PlacesPieces metrics)
      (compareIntrinsicStrictContact : Objective F) := by
  have hcomponents : OrderOn (fun metrics => HasExactHull metrics ∧ PlacesPieces metrics)
      (compareLargestComponents : Objective F) := by
    refine ((orderOn_exactRatio
        (fun metrics => ((exactPart metrics).largestPositiveContactComponentSize : ℤ))
        (fun metrics => ((exactPart metrics).placedPieceCount : ℤ))
        fun _ h => by exact_mod_cast h.2 _ h.1.exact_eq).flip.then <|
      orderOn_asc fun metrics =>
        (exactPart metrics).occupiedOutsideLargestContactComponentDoubledAreaGrid2).congr
          fun first second hfirst hsecond => ?_
    unfold compareLargestComponents
    rw [hfirst.1.exact_eq, hsecond.1.exact_eq]
  exact (orderOn_asc fun metrics : IntrinsicStrictCompletedMetrics F =>
      metrics.isolatedPieceCount).then <|
    (orderOn_asc fun metrics : IntrinsicStrictCompletedMetrics F =>
      metrics.positiveContactComponentCount).then <|
    (orderOn_desc fun metrics : IntrinsicStrictCompletedMetrics F =>
      metrics.largestPositiveContactComponentSize).then <|
    hcomponents.then <|
    (orderOn_desc fun metrics : IntrinsicStrictCompletedMetrics F =>
      metrics.totalStructuralContacts).then <|
    (orderOn_desc fun metrics : IntrinsicStrictCompletedMetrics F =>
      metrics.dominantStructuralContacts).then <|
    (orderOn_desc fun metrics : IntrinsicStrictCompletedMetrics F =>
      metrics.contactUnits).then <|
    orderOn_desc fun metrics : IntrinsicStrictCompletedMetrics F =>
      canonicalLinearMetric metrics.sharedBoundaryLengthMm

/-! ## §3  Domination -/

theorem dominates_iff {first second : IntrinsicStrictCompletedMetrics F} :
    intrinsicStrictCompletedLayoutDominates first second = true ↔
      (compareIntrinsicStrictCompactness first second).isLE = true ∧
      (compareIntrinsicStrictVoidTopology first second).isLE = true ∧
      (compareIntrinsicStrictCompactness first second = .lt ∨
        compareIntrinsicStrictVoidTopology first second = .lt) := by
  unfold intrinsicStrictCompletedLayoutDominates
    compareIntrinsicStrictCompletedLayoutDominance
  simp only [dominanceLoop]
  cases compareIntrinsicStrictCompactness first second <;>
    cases compareIntrinsicStrictVoidTopology first second <;> decide

theorem ascCmp_self {α : Type} [LinearOrder α] (a : α) : ascCmp a a = .eq :=
  compare_eq_iff_eq.mpr rfl

theorem compareExactRatio_self (a b : ℤ) : compareExactRatio a b a b = .eq := by
  unfold compareExactRatio
  split <;> exact compare_eq_iff_eq.mpr rfl

theorem compactness_self (metrics : IntrinsicStrictCompletedMetrics F) :
    compareIntrinsicStrictCompactness metrics metrics = .eq := by
  unfold compareIntrinsicStrictCompactness
  cases metrics.exact <;> simp only [ascCmp_self, Ordering.then_eq]

theorem dominates_self (metrics : IntrinsicStrictCompletedMetrics F) :
    intrinsicStrictCompletedLayoutDominates metrics metrics = false := by
  have hvoid : compareIntrinsicStrictVoidTopology metrics metrics = .eq := by
    unfold compareIntrinsicStrictVoidTopology
    cases metrics.exact <;>
      simp only [ascCmp_self, compareExactRatio_self, Ordering.then_eq]
  rw [Bool.eq_false_iff, Ne, dominates_iff, compactness_self, hvoid]
  decide

/-- Domination among layouts that both objectives order is transitive. -/
theorem dominates_trans {S : IntrinsicStrictCompletedMetrics F → Prop}
    (hcompactness : OrderOn S (compareIntrinsicStrictCompactness : Objective F))
    (hvoid : OrderOn S (compareIntrinsicStrictVoidTopology : Objective F))
    {first second third : IntrinsicStrictCompletedMetrics F} (hfirst : S first)
    (hsecond : S second) (hthird : S third)
    (h : intrinsicStrictCompletedLayoutDominates first second = true)
    (h' : intrinsicStrictCompletedLayoutDominates second third = true) :
    intrinsicStrictCompletedLayoutDominates first third = true := by
  rw [dominates_iff] at h h' ⊢
  refine ⟨hcompactness.isLE_trans hfirst hsecond hthird h.1 h'.1,
    hvoid.isLE_trans hfirst hsecond hthird h.2.1 h'.2.1, ?_⟩
  rcases h.2.2 with hlt | hlt
  · exact .inl (hcompactness.lt_of_lt_of_isLE hfirst hsecond hthird hlt h'.1)
  · exact .inr (hvoid.lt_of_lt_of_isLE hfirst hsecond hthird hlt h'.2.1)

theorem acyclic_of_orderOn {S : IntrinsicStrictCompletedMetrics F → Prop}
    (hcompactness : OrderOn S (compareIntrinsicStrictCompactness : Objective F))
    (hvoid : OrderOn S (compareIntrinsicStrictVoidTopology : Objective F))
    {layouts : List (IntrinsicStrictCompletedMetrics F)} (h : ∀ metrics ∈ layouts, S metrics) :
    Acyclic intrinsicStrictCompletedLayoutDominates layouts :=
  acyclic_of_trans dominates_self fun a ha b hb c hc =>
    dominates_trans hcompactness hvoid (h a ha) (h b hb) (h c hc)

/-! ## §4  Fronts -/

theorem orderFront_perm (frontier : List (IntrinsicStrictCompletedMetrics F)) :
    (orderIntrinsicStrictParetoFront frontier).Perm frontier :=
  selectInTurns_perm (by unfold frontObjectives; exact List.cons_ne_nil _ _) le_rfl

theorem fallback_perm (remaining : List (IntrinsicStrictCompletedMetrics F)) :
    (fallbackByHash remaining).Perm remaining :=
  List.mergeSort_perm remaining _

theorem orderOn_frontObjectives {objective : Objective F} (h : objective ∈ frontObjectives) :
    OrderOn (fun metrics => HasExactHull metrics ∧ PlacesPieces metrics) objective := by
  have hhash : OrderOn (fun metrics => HasExactHull metrics ∧ PlacesPieces metrics)
      (compareGeometryHashes : Objective F) :=
    .of_transCmp (transCmp_comap localeCompareKeys
      fun metrics : IntrinsicStrictCompletedMetrics F => metrics.canonicalGeometryHash)
  simp only [frontObjectives, List.map_cons, List.map_nil, List.mem_cons, List.not_mem_nil,
    or_false] at h
  rcases h with rfl | rfl | rfl
  · exact (orderOn_compactness_exact.comap (f := id) fun _ h => h.1).then hhash
  · exact (orderOn_voidTopology_exact.comap (f := id) fun _ h => h.1).then hhash
  · exact orderOn_contact_exact.then hhash

theorem hash_eq_of_frontObjective {objective : Objective F} (h : objective ∈ frontObjectives)
    {first second : IntrinsicStrictCompletedMetrics F} (heq : objective first second = .eq) :
    first.canonicalGeometryHash = second.canonicalGeometryHash := by
  obtain ⟨base, -, rfl⟩ := List.mem_map.mp h
  exact eq_of_localeCompareKeys (Ordering.then_eq_eq.mp heq).2

/-- **Putting a front in order does not depend on its order.** -/
theorem orderFront_eq_of_perm {frontier frontier' : List (IntrinsicStrictCompletedMetrics F)}
    (h : frontier.Perm frontier')
    (hmeasured : ∀ metrics ∈ frontier, HasExactHull metrics ∧ PlacesPieces metrics)
    (hhashes : (frontier.map fun metrics => metrics.canonicalGeometryHash).Nodup) :
    orderIntrinsicStrictParetoFront frontier = orderIntrinsicStrictParetoFront frontier' := by
  unfold orderIntrinsicStrictParetoFront
  rw [h.length_eq]
  exact selectInTurns_eq_of_perm (fun _ => orderOn_frontObjectives) hmeasured
    (fun _ hobjective first hfirst second hsecond heq =>
      List.inj_on_of_nodup_map hhashes hfirst hsecond
        (hash_eq_of_frontObjective hobjective heq)) h

/-- **The selector returns the undominated layouts.** -/
theorem selectFront_perm (layouts : List (IntrinsicStrictCompletedMetrics F)) :
    (selectIntrinsicStrictCompletedParetoFront layouts).Perm
      (layouts.filter fun candidate => !layouts.any fun other =>
        intrinsicStrictCompletedLayoutDominates other candidate) := by
  unfold selectIntrinsicStrictCompletedParetoFront
  rw [front_eq dominates_self]
  exact orderFront_perm _

/-! ## §5  The certificate -/

theorem greatestCommonDivisorLoop_eq (left right : ℕ) :
    greatestCommonDivisorLoop left right = left.gcd right := by
  fun_induction greatestCommonDivisorLoop left right with
  | case1 left => rw [Nat.gcd_zero_right]
  | case2 left right _ ih => rw [ih, Nat.gcd_comm left right, Nat.gcd_rec right left,
      Nat.gcd_comm]

/-- A normalized fraction has a positive denominator. -/
theorem normalizedFraction_pos (numerator denominator : ℤ) :
    0 < (normalizedFraction numerator denominator).denominator := by
  unfold normalizedFraction
  split
  · exact Int.one_pos
  · next h =>
    have hpos : 0 < denominator := not_le.mp h
    have hgcd : greatestCommonDivisor numerator denominator = numerator.gcd denominator :=
      greatestCommonDivisorLoop_eq _ _
    have hne : greatestCommonDivisor numerator denominator ≠ 0 := by
      rw [hgcd]
      exact (Int.gcd_pos_of_ne_zero_right _ hpos.ne').ne'
    have hdvd : (greatestCommonDivisor numerator denominator : ℤ) ∣ denominator := by
      rw [hgcd]
      exact Int.gcd_dvd_right _ _
    dsimp only
    rw [if_neg hne]
    exact Int.tdiv_pos_of_pos_of_dvd hpos (Int.natCast_nonneg _) hdvd

theorem addDeficit_pos {violated : Bool} {numerator denominator : ℤ} {total : ExactFraction}
    (h : 0 < total.denominator) :
    0 < (addDeficit violated numerator denominator total).denominator := by
  unfold addDeficit
  split
  · exact normalizedFraction_pos _ _
  · exact h

/-- The deficit of a layout, none where it is not exact. -/
def relativeDeficit (metrics : IntrinsicStrictCompletedMetrics F) : ExactFraction :=
  (exactStrictRelativeDeficit metrics).getD ⟨0, 1⟩

theorem relativeDeficit_pos (metrics : IntrinsicStrictCompletedMetrics F) :
    0 < (relativeDeficit metrics).denominator := by
  unfold relativeDeficit exactStrictRelativeDeficit
  cases metrics.exact with
  | none => exact Int.one_pos
  | some exact =>
      exact addDeficit_pos (addDeficit_pos (addDeficit_pos (addDeficit_pos Int.one_pos)))

/-- An endpoint as it is made from a measured layout. -/
def IsMade (endpoint : IntrinsicSharedArchiveEndpoint F) : Prop :=
  endpoint = makeIntrinsicSharedArchiveEndpoint endpoint.role endpoint.sourceId
    endpoint.sheetlessCanonicalGeometryIdentity endpoint.metrics

theorem IsMade.deficit_eq {endpoint : IntrinsicSharedArchiveEndpoint F} (h : IsMade endpoint)
    (hexact : HasExactHull endpoint.metrics) :
    endpoint.certificate.exactRelativeDeficitNumerator =
        some (relativeDeficit endpoint.metrics).numerator ∧
      endpoint.certificate.exactRelativeDeficitDenominator =
        some (relativeDeficit endpoint.metrics).denominator := by
  have hcertificate : endpoint.certificate =
      evaluateIntrinsicStrictCertificate endpoint.metrics := by
    rw [h]
    rfl
  rw [hcertificate]
  unfold evaluateIntrinsicStrictCertificate relativeDeficit exactStrictRelativeDeficit
  rw [hexact.exact_eq]
  exact ⟨rfl, rfl⟩

/-! ## §6  The winner -/

/-- An endpoint of a measured layout with an exact hull. -/
def IsExactEndpoint (endpoint : IntrinsicSharedArchiveEndpoint F) : Prop :=
  HasExactHull endpoint.metrics ∧ IsMade endpoint

/-- The comparator of two endpoints. -/
abbrev EndpointOrder (F : Type) : Type :=
  IntrinsicSharedArchiveEndpoint F → IntrinsicSharedArchiveEndpoint F → Ordering

theorem orderOn_certificateDeficit :
    OrderOn IsExactEndpoint (compareCertificateDeficit : EndpointOrder F) := by
  have horder : OrderOn IsExactEndpoint fun first second : IntrinsicSharedArchiveEndpoint F =>
      compare ((relativeDeficit first.metrics).numerator *
          (relativeDeficit second.metrics).denominator)
        ((relativeDeficit second.metrics).numerator *
          (relativeDeficit first.metrics).denominator) :=
    orderOn_cross_mul
      (fun endpoint : IntrinsicSharedArchiveEndpoint F =>
        (relativeDeficit endpoint.metrics).numerator)
      (fun endpoint => (relativeDeficit endpoint.metrics).denominator)
      fun endpoint _ => relativeDeficit_pos endpoint.metrics
  refine horder.congr fun first second hfirst hsecond => ?_
  unfold compareCertificateDeficit
  rw [(hfirst.2.deficit_eq hfirst.1).1, (hfirst.2.deficit_eq hfirst.1).2,
    (hsecond.2.deficit_eq hsecond.1).1, (hsecond.2.deficit_eq hsecond.1).2]

theorem orderOn_largestHullGap :
    OrderOn IsExactEndpoint (compareLargestHullGap : EndpointOrder F) := by
  refine (orderOn_cross_mul
    (fun endpoint : IntrinsicSharedArchiveEndpoint F =>
      (exactPart endpoint.metrics).largestOccupiedHullGapDoubledAreaGrid2)
    (fun endpoint => (exactPart endpoint.metrics).occupiedHullDoubledAreaGrid2)
    fun _ h => h.1.hull_pos).congr fun first second hfirst hsecond => ?_
  unfold compareLargestHullGap
  rw [hfirst.1.exact_eq, hsecond.1.exact_eq]

theorem orderOn_envelope : OrderOn IsExactEndpoint (compareEnvelope : EndpointOrder F) := by
  refine ((orderOn_asc fun endpoint : IntrinsicSharedArchiveEndpoint F =>
      (exactPart endpoint.metrics).envelopeAreaGrid2).then <|
    (orderOn_asc fun endpoint : IntrinsicSharedArchiveEndpoint F =>
      (exactPart endpoint.metrics).envelopeMaximumSideGrid).then <|
    orderOn_asc fun endpoint : IntrinsicSharedArchiveEndpoint F =>
      (exactPart endpoint.metrics).envelopeSpanGrid).congr
        fun first second hfirst hsecond => ?_
  unfold compareEnvelope
  rw [hfirst.1.exact_eq, hsecond.1.exact_eq]
  rfl

theorem orderOn_winner :
    OrderOn IsExactEndpoint (compareIntrinsicSharedArchiveWinner : EndpointOrder F) :=
  orderOn_certificateDeficit.then <|
    (orderOn_asc fun endpoint : IntrinsicSharedArchiveEndpoint F =>
      endpoint.metrics.enclosedCavityCount).then <|
    orderOn_largestHullGap.then <| orderOn_envelope.then <|
    .of_transCmp (transCmp_comap localeCompareKeys
      fun endpoint : IntrinsicSharedArchiveEndpoint F =>
        endpoint.sheetlessCanonicalGeometryHash)

theorem hash_eq_of_winner {first second : IntrinsicSharedArchiveEndpoint F}
    (h : compareIntrinsicSharedArchiveWinner first second = .eq) :
    first.sheetlessCanonicalGeometryHash = second.sheetlessCanonicalGeometryHash := by
  unfold compareIntrinsicSharedArchiveWinner at h
  simp only [Ordering.then_eq_eq] at h
  exact eq_of_localeCompareKeys h.2.2.2.2

/-- **The winner does not depend on the order of the archive.** -/
theorem winner_eq_of_perm {archive archive' : List (IntrinsicSharedArchiveEndpoint F)}
    (h : archive.Perm archive')
    (hmade : ∀ endpoint ∈ archive, IsExactEndpoint endpoint)
    (hhashes : (archive.map fun endpoint =>
      endpoint.sheetlessCanonicalGeometryHash).Nodup) :
    selectIntrinsicSharedArchiveWinner archive =
      selectIntrinsicSharedArchiveWinner archive' := by
  have hfront : (selectIntrinsicStrictCompletedParetoFront
      (archive.map fun endpoint => endpoint.metrics)).Perm
        (selectIntrinsicStrictCompletedParetoFront
          (archive'.map fun endpoint => endpoint.metrics)) :=
    (orderFront_perm _).trans <|
      (front_perm dominates_self (h.map _)).trans (orderFront_perm _).symm
  unfold selectIntrinsicSharedArchiveWinner
  dsimp only
  simp only [(hfront.map _).contains_eq]
  refine congrArg _ (orderOn_winner.sort_eq_of_perm (fun endpoint hendpoint => ?_)
    (h.filter _) fun first hfirst second hsecond heq => ?_)
  · exact hmade endpoint (List.mem_filter.mp hendpoint).1
  · exact List.inj_on_of_nodup_map hhashes (List.mem_filter.mp hfirst).1
      (List.mem_filter.mp hsecond).1 (hash_eq_of_winner heq)

/-! ## §7  The ranking -/

/-- **The ranking of completed layouts.** Whatever dominates what, it is a permutation
and the selector returns the undominated layouts.  Where domination has no cycle, as
among layouts that all have exact metrics with a hull or all have none, every round finds
a front and no layout precedes one that dominates it.  Exact layouts of different hashes
are ranked alike in every order of the input, and their endpoints have one winner. -/
theorem rankIntrinsicStrictCompletedLayouts_pareto :
    (∀ layouts : List (IntrinsicStrictCompletedMetrics F),
      (rankIntrinsicStrictCompletedLayouts layouts).Perm layouts ∧
      (selectIntrinsicStrictCompletedParetoFront layouts).Perm
        (layouts.filter fun candidate => !layouts.any fun other =>
          intrinsicStrictCompletedLayoutDominates other candidate)) ∧
    (∀ layouts : List (IntrinsicStrictCompletedMetrics F),
      Acyclic intrinsicStrictCompletedLayoutDominates layouts →
        (∀ remaining, Peeled intrinsicStrictCompletedLayoutDominates layouts remaining →
          remaining ≠ [] → front intrinsicStrictCompletedLayoutDominates remaining ≠ []) ∧
        (rankIntrinsicStrictCompletedLayouts layouts).Pairwise fun first second =>
          intrinsicStrictCompletedLayoutDominates second first = false) ∧
    (∀ layouts : List (IntrinsicStrictCompletedMetrics F),
      (∀ metrics ∈ layouts, HasExactHull metrics) ∨
          (∀ metrics ∈ layouts, metrics.exact = none) →
        Acyclic intrinsicStrictCompletedLayoutDominates layouts) ∧
    (∀ layouts layouts' : List (IntrinsicStrictCompletedMetrics F), layouts.Perm layouts' →
      (∀ metrics ∈ layouts, HasExactHull metrics ∧ PlacesPieces metrics) →
      (layouts.map fun metrics => metrics.canonicalGeometryHash).Nodup →
        rankIntrinsicStrictCompletedLayouts layouts =
          rankIntrinsicStrictCompletedLayouts layouts') ∧
    (∀ archive archive' : List (IntrinsicSharedArchiveEndpoint F), archive.Perm archive' →
      (∀ endpoint ∈ archive, IsExactEndpoint endpoint) →
      (archive.map fun endpoint => endpoint.sheetlessCanonicalGeometryHash).Nodup →
        selectIntrinsicSharedArchiveWinner archive =
          selectIntrinsicSharedArchiveWinner archive') := by
  refine ⟨fun layouts => ⟨?_, selectFront_perm layouts⟩, fun layouts hacyclic => ⟨?_, ?_⟩,
    ?_, ?_, fun _ _ => winner_eq_of_perm⟩
  · exact peel_perm dominates_self orderFront_perm fallback_perm le_rfl
  · exact fun remaining hpeeled => hpeeled.front_ne_nil dominates_self hacyclic
  · exact peel_pairwise dominates_self orderFront_perm fallback_perm le_rfl hacyclic
  · rintro layouts (hexact | hnone)
    · exact acyclic_of_orderOn orderOn_compactness_exact orderOn_voidTopology_exact hexact
    · exact acyclic_of_orderOn orderOn_compactness_none orderOn_voidTopology_none hnone
  · intro layouts layouts' hperm hmeasured hhashes
    have hacyclic := acyclic_of_orderOn orderOn_compactness_exact orderOn_voidTopology_exact
      fun metrics hmetrics => (hmeasured metrics hmetrics).1
    unfold rankIntrinsicStrictCompletedLayouts rankIntrinsicStrictParetoPartition
    rw [hperm.length_eq]
    refine peel_eq_of_perm dominates_self hacyclic (fun sub sub' hsub hsubPerm => ?_) hperm
    refine orderFront_eq_of_perm hsubPerm
      (fun metrics hmetrics => hmeasured metrics (hsub.subset hmetrics)) ?_
    obtain ⟨part, hpart, hsublist⟩ := hsub
    exact (hpart.map _).nodup_iff.mp ((hsublist.map _).nodup hhashes)

/-! A layout without exact metrics between two exact ones closes a cycle: the exact ones
are compared on the grid, and each of them with the third in millimetres.  A layout
without pieces ties with every share of pieces, and decides by the area instead. -/

def compactLayout (sideMm : ℚ) (side : Option ℤ) : IntrinsicStrictCompletedMetrics ℚ :=
  ⟨sideMm, 1, 1, 0, 0, 0, 0, 1, 1, 1, 0, 0, 0, 0, 0, 0, "", 0,
    side.map fun side => ⟨side, 1, 1, 0, 0, 1, 0, 1, 1, 0⟩⟩

def contactLayout (hash : String) (placed : ℕ) (outside : ℤ) :
    IntrinsicStrictCompletedMetrics ℚ :=
  ⟨1, 1, 1, 0, 0, 0, 0, 1, 1, 1, 0, 0, 0, 0, 0, 0, hash, 0,
    some ⟨1, 1, 1, 0, 0, 1, 0, 1, placed, outside⟩⟩

def mixedLayouts : List (IntrinsicStrictCompletedMetrics ℚ) :=
  [compactLayout 3 (some 1), compactLayout 1 (some 2), compactLayout 2 none]

def tiedLayouts : List (IntrinsicStrictCompletedMetrics ℚ) :=
  [contactLayout "a" 1 0, contactLayout "b" 1 0, contactLayout "c" 2 2,
    contactLayout "d" 3 0, contactLayout "e" 0 1]

def tiedLayouts' : List (IntrinsicStrictCompletedMetrics ℚ) :=
  [contactLayout "a" 1 0, contactLayout "b" 1 0, contactLayout "d" 3 0,
    contactLayout "e" 0 1, contactLayout "c" 2 2]

theorem rankIntrinsicStrictCompletedLayouts_mixed :
    (¬ ∀ layouts : List (IntrinsicStrictCompletedMetrics ℚ), layouts ≠ [] →
      front intrinsicStrictCompletedLayoutDominates layouts ≠ []) ∧
    ¬ ∀ layouts layouts' : List (IntrinsicStrictCompletedMetrics ℚ), layouts.Perm layouts' →
      (∀ metrics ∈ layouts, HasExactHull metrics) →
      (layouts.map fun metrics => metrics.canonicalGeometryHash).Nodup →
        rankIntrinsicStrictCompletedLayouts layouts =
          rankIntrinsicStrictCompletedLayouts layouts' := by
  constructor
  · intro h
    exact h mixedLayouts (by decide) (by decide +kernel)
  · intro h
    have heq := h tiedLayouts tiedLayouts' (by decide +kernel) ?_ (by decide)
    · exact absurd heq (by decide +kernel)
    · intro metrics hmetrics
      simp only [tiedLayouts, List.mem_cons, List.not_mem_nil, or_false] at hmetrics
      rcases hmetrics with rfl | rfl | rfl | rfl | rfl <;> exact ⟨_, rfl, Int.one_pos⟩

end PolygonNesting
