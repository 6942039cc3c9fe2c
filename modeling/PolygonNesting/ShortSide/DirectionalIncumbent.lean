import Mathlib.Order.ConditionallyCompleteLattice.Basic
import Mathlib.Order.Lattice.Nat
import PolygonNesting.Lib.Tournament
import PolygonNesting.ShortSide.PairFoldOutcome

/-!
# The directional incumbent

The choice between two accepted outcomes follows one order of the outcomes: every key of
the chain is a key of one outcome, the span too, which counts as nothing in the top tier.
A missing cavity count or a missing topology is a greatest value, and gap ratios are
compared by cross multiplication, which is consistent where every hull has an area.
-/

set_option linter.unusedSectionVars false

namespace PolygonNesting.PairFold

open Comparator Tournament

variable {F : Type} [LinearOrder F] [Zero F] [One F] [Add F] [Sub F] [Neg F]
  [Mul F] [Div F] [JsMath F] {heap : ℕ → IrregularPlacedPiece F}

/-! ## §1  Keys of one outcome -/

/-- The exact metrics, zeros where there are none. -/
def exactPart (outcome : IntrinsicShortSidePairFoldOutcome heap) : ExactPromotionMetrics :=
  (exactPromotionMetrics outcome).getD ⟨0, 0, 0, 0, 0⟩

def fillTier (outcome : IntrinsicShortSidePairFoldOutcome heap) : ℕ :=
  directionalFillTier (exactPart outcome).shortAxisSpanGrid
    (exactPart outcome).requestedShortAxisGrid

/-- In the top tier no span is better than another. -/
def spanBelowTopTier (outcome : IntrinsicShortSidePairFoldOutcome heap) : ℤ :=
  if fillTier outcome < 2 then (exactPart outcome).shortAxisSpanGrid else 0

/-- A missing count is above all counts. -/
def cavityKey (outcome : IntrinsicShortSidePairFoldOutcome heap) : WithTop ℕ :=
  match enclosedCavityCount outcome with
  | none => ⊤
  | some count => WithTop.some count

def gapKey (outcome : IntrinsicShortSidePairFoldOutcome heap) : ℤ :=
  (outcome.trace.interlocking.map fun interlocking =>
    interlocking.largestOccupiedHullGapDoubledAreaGrid2).getD 0

def hullKey (outcome : IntrinsicShortSidePairFoldOutcome heap) : ℤ :=
  (outcome.trace.interlocking.map fun interlocking =>
    interlocking.occupiedHullDoubledAreaGrid2).getD 1

def isolatedKey (outcome : IntrinsicShortSidePairFoldOutcome heap) : ℕ :=
  (outcome.trace.interlocking.map fun interlocking => interlocking.isolatedPieceCount).getD 0

def componentKey (outcome : IntrinsicShortSidePairFoldOutcome heap) : ℕ :=
  (outcome.trace.interlocking.map fun interlocking =>
    interlocking.positiveContactComponentCount).getD 0

def largestKey (outcome : IntrinsicShortSidePairFoldOutcome heap) : ℕ :=
  (outcome.trace.interlocking.map fun interlocking =>
    interlocking.largestPositiveContactComponentSize).getD 0

def hashKey (outcome : IntrinsicShortSidePairFoldOutcome heap) : String :=
  outcome.trace.canonicalGeometryHash.getD ""

/-! ## §2  The order -/

/-- The order of the outcomes, the better first. -/
def directionalOrder (first second : IntrinsicShortSidePairFoldOutcome heap) : Ordering :=
  (compare (fillTier second) (fillTier first)).then <|
  (compare (spanBelowTopTier second) (spanBelowTopTier first)).then <|
  (compare (exactPart first).envelopeAreaGrid2 (exactPart second).envelopeAreaGrid2).then <|
  (compare (exactPart first).longAxisDepthGrid (exactPart second).longAxisDepthGrid).then <|
  (compareDirectionalTopology first second).then <|
  localeCompareKeys (hashKey first) (hashKey second)

/-- An outcome with exact metrics and a hull of positive area. -/
structure Measured (outcome : IntrinsicShortSidePairFoldOutcome heap) : Prop where
  exact : (exactPromotionMetrics outcome).isSome = true
  hull : ∀ interlocking ∈ outcome.trace.interlocking,
    0 < interlocking.occupiedHullDoubledAreaGrid2

theorem Measured.hullKey_pos {outcome : IntrinsicShortSidePairFoldOutcome heap}
    (h : Measured outcome) : 0 < hullKey outcome := by
  unfold hullKey
  cases hinterlocking : outcome.trace.interlocking with
  | none => exact Int.one_pos
  | some interlocking => exact h.hull interlocking hinterlocking

theorem compareInterlocking_eq (first second : IntrinsicShortSidePairFoldOutcome heap) :
    compareInterlocking first.trace.interlocking second.trace.interlocking =
      ((compare first.trace.interlocking.isNone second.trace.interlocking.isNone).then <|
      (compare (gapKey first * hullKey second) (gapKey second * hullKey first)).then <|
      (compare (isolatedKey first) (isolatedKey second)).then <|
      (compare (componentKey first) (componentKey second)).then <|
      compare (largestKey second) (largestKey first)) := by
  unfold compareInterlocking gapKey hullKey isolatedKey componentKey largestKey
  cases first.trace.interlocking <;> cases second.trace.interlocking <;> rfl

/-- The topology by its keys. -/
theorem compareDirectionalTopology_eq (first second : IntrinsicShortSidePairFoldOutcome heap) :
    compareDirectionalTopology first second =
      ((compare (cavityKey first) (cavityKey second)).then <|
        compareInterlocking first.trace.interlocking second.trace.interlocking) := by
  unfold compareDirectionalTopology cavityKey
  cases enclosedCavityCount first with
  | none =>
      cases enclosedCavityCount second with
      | none => rfl
      | some secondCount =>
          dsimp only
          rw [compare_gt_iff_gt.mpr (WithTop.coe_lt_top secondCount)]
          rfl
  | some firstCount =>
      cases enclosedCavityCount second with
      | none =>
          dsimp only
          rw [compare_lt_iff_lt.mpr (WithTop.coe_lt_top firstCount)]
          rfl
      | some secondCount =>
          have hcounts : compare (WithTop.some firstCount) (WithTop.some secondCount) =
              compare firstCount secondCount :=
            compare_congr WithTop.coe_lt_coe WithTop.coe_lt_coe
          dsimp only
          rw [hcounts]
          by_cases heq : firstCount = secondCount
          · rw [if_neg (not_not.mpr heq), compare_eq_iff_eq.mpr heq]
            rfl
          · rw [if_pos heq]
            rcases lt_or_gt_of_ne heq with hlt | hgt
            · rw [compare_lt_iff_lt.mpr hlt]
              rfl
            · rw [compare_gt_iff_gt.mpr hgt]
              rfl

theorem orderOn_topology :
    OrderOn Measured (compareDirectionalTopology :
      IntrinsicShortSidePairFoldOutcome heap → IntrinsicShortSidePairFoldOutcome heap → Ordering) := by
  have hinterlocking : OrderOn Measured fun first second :
      IntrinsicShortSidePairFoldOutcome heap =>
      compareInterlocking first.trace.interlocking second.trace.interlocking :=
    ((orderOn_compare fun outcome => outcome.trace.interlocking.isNone).then <|
      (orderOn_cross_mul gapKey hullKey fun _ h => h.hullKey_pos).then <|
      (orderOn_compare isolatedKey).then <| (orderOn_compare componentKey).then <|
      orderOn_compare_flip largestKey).congr fun first second _ _ =>
        compareInterlocking_eq first second
  exact ((orderOn_compare cavityKey).then hinterlocking).congr fun first second _ _ =>
    compareDirectionalTopology_eq first second

/-- **The order is total and transitive** on measured outcomes. -/
theorem orderOn_directionalOrder : OrderOn Measured (directionalOrder :
    IntrinsicShortSidePairFoldOutcome heap → IntrinsicShortSidePairFoldOutcome heap → Ordering) :=
  (orderOn_compare_flip fillTier).then <|
  (orderOn_compare_flip spanBelowTopTier).then <|
  (orderOn_compare fun outcome => (exactPart outcome).envelopeAreaGrid2).then <|
  (orderOn_compare fun outcome => (exactPart outcome).longAxisDepthGrid).then <|
  orderOn_topology.then <|
  OrderOn.of_transCmp (transCmp_comap localeCompareKeys hashKey)

/-- What ties has the same hash. -/
theorem hashKey_eq_of_directionalOrder {first second : IntrinsicShortSidePairFoldOutcome heap}
    (h : directionalOrder first second = .eq) : hashKey first = hashKey second := by
  unfold directionalOrder at h
  simp only [Ordering.then_eq_eq] at h
  exact eq_of_localeCompareKeys h.2.2.2.2.2

/-! ## §3  The choice -/

/-- The first of two is chosen unless it is after the second. -/
def choiceOf (order : Ordering) : IncumbentChoice := if order.isLE then .first else .second

theorem choiceOf_compare {β : Type} [LinearOrder β] {a b : β} {order : Ordering}
    {rest : IncumbentChoice} (hrest : a = b → rest = choiceOf order) :
    (if a ≠ b then if a < b then .first else .second else rest) =
      choiceOf ((compare a b).then order) := by
  rcases lt_trichotomy a b with h | h | h
  · rw [if_pos h.ne, if_pos h, compare_lt_iff_lt.mpr h]
    rfl
  · rw [if_neg (not_not.mpr h), hrest h, compare_eq_iff_eq.mpr h]
    rfl
  · rw [if_pos h.ne', if_neg h.not_gt, compare_gt_iff_gt.mpr h]
    rfl

theorem choiceOf_compare_flip {β : Type} [LinearOrder β] {a b : β} {order : Ordering}
    {rest : IncumbentChoice} (hrest : a = b → rest = choiceOf order) :
    (if a ≠ b then if b < a then .first else .second else rest) =
      choiceOf ((compare b a).then order) := by
  have h : (if b ≠ a then if b < a then .first else .second else rest) =
      choiceOf ((compare b a).then order) := choiceOf_compare fun h => hrest h.symm
  rwa [if_congr ne_comm rfl rfl] at h

theorem choiceOf_then {order order' : Ordering} {rest : IncumbentChoice}
    (hrest : rest = choiceOf order') :
    (if order ≠ .eq then if order = .lt then .first else .second else rest) =
      choiceOf (order.then order') := by
  subst hrest
  cases order <;> rfl

theorem choiceOf_ne_gt (order : Ordering) :
    (if order ≠ .gt then .first else .second) = choiceOf order := by
  cases order <;> rfl

/-- **The choice follows the order.** -/
theorem chooseExact_eq (first second : IntrinsicShortSidePairFoldOutcome heap) :
    chooseExact first second (exactPart first) (exactPart second) =
      choiceOf (directionalOrder first second) := by
  refine choiceOf_compare_flip fun heq => ?_
  have htier : fillTier first = fillTier second := heq
  have hrest : (if (exactPart first).envelopeAreaGrid2 ≠ (exactPart second).envelopeAreaGrid2 then
        if (exactPart first).envelopeAreaGrid2 < (exactPart second).envelopeAreaGrid2 then
          .first else .second
      else if (exactPart first).longAxisDepthGrid ≠ (exactPart second).longAxisDepthGrid then
        if (exactPart first).longAxisDepthGrid < (exactPart second).longAxisDepthGrid then .first
        else .second
      else if compareDirectionalTopology first second ≠ .eq then
        if compareDirectionalTopology first second = .lt then .first else .second
      else if localeCompareKeys (hashKey first) (hashKey second) ≠ .gt then .first
      else .second) = choiceOf _ :=
    choiceOf_compare fun _ => choiceOf_compare fun _ => choiceOf_then (choiceOf_ne_gt _)
  -- in the top tier the spans do not count
  by_cases hlow : fillTier first < 2
  · have hspan : spanBelowTopTier first = (exactPart first).shortAxisSpanGrid := if_pos hlow
    have hspan' : spanBelowTopTier second = (exactPart second).shortAxisSpanGrid :=
      if_pos (htier ▸ hlow)
    rw [hspan, hspan']
    exact (if_congr (and_iff_right hlow) rfl rfl).trans (choiceOf_compare_flip fun _ => hrest)
  · have hspan : spanBelowTopTier first = 0 := if_neg hlow
    have hspan' : spanBelowTopTier second = 0 := if_neg (htier ▸ hlow)
    rw [hspan, hspan', compare_eq_iff_eq.mpr rfl]
    exact (if_neg fun h => hlow h.1).trans hrest

/-! ## §4  The selection -/

/-- The outcome is accepted. -/
def Accepted (outcome : IntrinsicShortSidePairFoldOutcome heap) : Prop :=
  outcome.trace.status = .accepted

theorem isAccepted_iff {outcome : Option (IntrinsicShortSidePairFoldOutcome heap)} :
    isAccepted outcome = true ↔ ∃ o ∈ outcome, Accepted o := by
  cases outcome with
  | none => simp [isAccepted]
  | some o => simp [isAccepted, Accepted]

theorem selectDirectionalIncumbentChoice_some {first second : IntrinsicShortSidePairFoldOutcome heap}
    (hfirst : Accepted first) (hsecond : Accepted second) (hexact : Measured first)
    (hexact' : Measured second) :
    selectDirectionalIncumbentChoice (some first) (some second) =
      some (choiceOf (directionalOrder first second)) := by
  obtain ⟨firstExact, hf⟩ := Option.isSome_iff_exists.mp hexact.exact
  obtain ⟨secondExact, hs⟩ := Option.isSome_iff_exists.mp hexact'.exact
  have hchoice := chooseExact_eq first second
  rw [show exactPart first = firstExact by rw [exactPart, hf, Option.getD_some],
    show exactPart second = secondExact by rw [exactPart, hs, Option.getD_some]] at hchoice
  unfold selectDirectionalIncumbentChoice
  rw [isAccepted_iff.mpr ⟨first, rfl, hfirst⟩, isAccepted_iff.mpr ⟨second, rfl, hsecond⟩]
  simp only [Bool.not_true, Bool.false_eq_true, if_false]
  rw [hf, hs, ← hchoice]

/-- One of the two is selected. -/
theorem eq_or_eq_of_selectDirectionalIncumbent
    {first second : Option (IntrinsicShortSidePairFoldOutcome heap)}
    {selected : IntrinsicShortSidePairFoldOutcome heap}
    (h : selectDirectionalIncumbent first second = some selected) :
    first = some selected ∨ second = some selected := by
  unfold selectDirectionalIncumbent at h
  split at h
  · exact .inl h
  · exact .inr h
  · cases h

/-- One accepted entrant is kept whatever the other is. -/
theorem optimal_of_accepted {entrants : List (IntrinsicShortSidePairFoldOutcome heap)}
    {winner : IntrinsicShortSidePairFoldOutcome heap} (hmem : winner ∈ entrants)
    (haccepted : Accepted winner)
    (hleast : ∀ a ∈ entrants, Accepted a → (directionalOrder winner a).isLE = true) :
    Optimal Accepted directionalOrder entrants (some winner) where
  mem _ h := Option.some.inj h ▸ hmem
  least _ h _ := Option.some.inj h ▸ hleast
  exists_accepted _ _ _ := ⟨winner, rfl, haccepted⟩
  accepted _ h := Option.some.inj h ▸ haccepted

/-- **The selection keeps a least accepted outcome.** -/
theorem selects_selectDirectionalIncumbent :
    Selects Measured Accepted directionalOrder (selectDirectionalIncumbent :
      Option (IntrinsicShortSidePairFoldOutcome heap) → Option (IntrinsicShortSidePairFoldOutcome heap) →
        Option (IntrinsicShortSidePairFoldOutcome heap)) := by
  have hself : ∀ {a : IntrinsicShortSidePairFoldOutcome heap}, Measured a →
      (directionalOrder a a).isLE = true := orderOn_directionalOrder.self_isLE
  intro first second hS
  unfold selectDirectionalIncumbent
  by_cases hfirst : isAccepted first = true
  · obtain ⟨a, rfl, ha⟩ := isAccepted_iff.mp hfirst
    have hameasured : Measured a := hS a (by simp) ha
    by_cases hsecond : isAccepted second = true
    · obtain ⟨b, rfl, hb⟩ := isAccepted_iff.mp hsecond
      have hbmeasured : Measured b := hS b (by simp) hb
      rw [selectDirectionalIncumbentChoice_some ha hb hameasured hbmeasured]
      unfold choiceOf
      by_cases hle : (directionalOrder a b).isLE = true
      · rw [if_pos hle]
        refine optimal_of_accepted (by simp) ha fun c hc _ => ?_
        rcases List.mem_pair.mp hc with rfl | rfl
        · exact hself hameasured
        · exact hle
      · rw [if_neg hle]
        refine optimal_of_accepted (by simp) hb fun c hc _ => ?_
        rcases List.mem_pair.mp hc with rfl | rfl
        · refine orderOn_directionalOrder.isLE_of_not_lt hameasured hbmeasured fun hlt => hle ?_
          rw [hlt]
          rfl
        · exact hself hbmeasured
    · rw [show selectDirectionalIncumbentChoice (some a) second = some .first by
        unfold selectDirectionalIncumbentChoice
        simp [hfirst, hsecond]]
      refine optimal_of_accepted (by simp) ha fun c hc hcacc => ?_
      rcases List.mem_append.mp hc with hc | hc
      · obtain rfl := List.mem_singleton.mp hc
        exact hself hameasured
      · exact absurd (isAccepted_iff.mpr ⟨c, Option.mem_toList.mp hc, hcacc⟩) hsecond
  · by_cases hsecond : isAccepted second = true
    · obtain ⟨b, rfl, hb⟩ := isAccepted_iff.mp hsecond
      have hbmeasured : Measured b := hS b (by simp) hb
      rw [show selectDirectionalIncumbentChoice first (some b) = some .second by
        unfold selectDirectionalIncumbentChoice
        simp [hfirst, hsecond]]
      refine optimal_of_accepted (by simp) hb fun c hc hcacc => ?_
      rcases List.mem_append.mp hc with hc | hc
      · exact absurd (isAccepted_iff.mpr ⟨c, Option.mem_toList.mp hc, hcacc⟩) hfirst
      · obtain rfl := List.mem_singleton.mp hc
        exact hself hbmeasured
    · rw [show selectDirectionalIncumbentChoice first second = none by
        unfold selectDirectionalIncumbentChoice
        simp [hfirst, hsecond]]
      have hnone : ∀ c ∈ first.toList ++ second.toList, ¬ Accepted c := by
        intro c hc hcacc
        rcases List.mem_append.mp hc with hc | hc
        · exact hfirst (isAccepted_iff.mpr ⟨c, Option.mem_toList.mp hc, hcacc⟩)
        · exact hsecond (isAccepted_iff.mpr ⟨c, Option.mem_toList.mp hc, hcacc⟩)
      exact {
        mem := fun _ h => by cases h
        least := fun _ h => by cases h
        exists_accepted := fun c hc hcacc => absurd hcacc (hnone c hc)
        accepted := fun _ h => by cases h }

end PolygonNesting.PairFold
