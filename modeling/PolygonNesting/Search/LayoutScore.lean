import PolygonNesting.Checkpoints.CanonicalJson
import PolygonNesting.Lib.NumberRoot
import PolygonNesting.Search.StrictScoring

/-!
# Comparing layout scores

Two layouts of one placement depth above the limit are compared by
compactness first, all others by structural contacts first.  Each of the two
chains is a total preorder, and so is the comparison on any scores that never
mix them.
-/

namespace PolygonNesting

open Binary64 Comparator

/-! ## §1  The comparison -/

/-- The fields of a layout score that are compared. -/
structure IrregularLayoutScore where
  unplacedCount : Number
  sharedCollisionBoundaryLengthMm : Number
  sharedCollisionBoundaryContactUnits : Number
  sharedCollisionBoundaryContactBand : Number
  nearCompleteStructuralContactCount : Number
  dominantNearCompleteStructuralContactCount : Number
  collisionBoundsAreaMm2 : Number
  collisionBoundsSpanMm : Number
  occupiedHullWasteRatio : Number
  placementOrder : List PieceId
  unplacedSourcePieceIds : List PieceId

/-- Numbers in order, not-a-number first. -/
def cmpNumber (a b : Number) : Ordering :=
  match a.isNan, b.isNan with
  | true, true => .eq
  | true, false => .lt
  | false, true => .gt
  | false, false => if a.lt b then .lt else if b.lt a then .gt else .eq

/-- The first difference decides, then the lengths. -/
def cmpPieceIdArray (first second : List PieceId) : Ordering :=
  match ((first.zip second).map fun pair => cmpJsCodeUnits pair.1 pair.2).find? (· != .eq) with
  | some ordering => ordering
  | none => compare first.length second.length

def strictStructuralContactPlacementLimit : ℕ := 20

/-- The larger side of the collision bounds, from their span and area. -/
def collisionBoundsMaxSideMm (score : IrregularLayoutScore) : Number :=
  let discriminant := jsMax (.ofInt 0)
    ((score.collisionBoundsSpanMm.mul score.collisionBoundsSpanMm).sub
      ((Number.ofInt 4).mul score.collisionBoundsAreaMm2))
  (score.collisionBoundsSpanMm.add discriminant.sqrt).halve

def strictLayoutScoreOrder (first second : IrregularLayoutScore) : Ordering :=
  (cmpNumber first.unplacedCount second.unplacedCount).then <|
  (cmpNumber first.dominantNearCompleteStructuralContactCount
    second.dominantNearCompleteStructuralContactCount).swap.then <|
  (cmpNumber first.nearCompleteStructuralContactCount
    second.nearCompleteStructuralContactCount).swap.then <|
  (cmpNumber (collisionBoundsMaxSideMm first) (collisionBoundsMaxSideMm second)).then <|
  (cmpNumber first.collisionBoundsAreaMm2 second.collisionBoundsAreaMm2).then <|
  (cmpNumber first.collisionBoundsSpanMm second.collisionBoundsSpanMm).then <|
  (cmpNumber first.occupiedHullWasteRatio second.occupiedHullWasteRatio).then <|
  (cmpNumber first.sharedCollisionBoundaryContactBand
    second.sharedCollisionBoundaryContactBand).swap.then <|
  (cmpNumber first.sharedCollisionBoundaryContactUnits
    second.sharedCollisionBoundaryContactUnits).swap.then <|
  (cmpNumber first.sharedCollisionBoundaryLengthMm
    second.sharedCollisionBoundaryLengthMm).swap.then <|
  (cmpPieceIdArray first.placementOrder second.placementOrder).then <|
  cmpPieceIdArray first.unplacedSourcePieceIds second.unplacedSourcePieceIds

def scaleAwareLayoutScoreOrder (first second : IrregularLayoutScore) : Ordering :=
  (cmpNumber first.unplacedCount second.unplacedCount).then <|
  (cmpNumber (collisionBoundsMaxSideMm first) (collisionBoundsMaxSideMm second)).then <|
  (cmpNumber first.collisionBoundsAreaMm2 second.collisionBoundsAreaMm2).then <|
  (cmpNumber first.collisionBoundsSpanMm second.collisionBoundsSpanMm).then <|
  (cmpNumber first.occupiedHullWasteRatio second.occupiedHullWasteRatio).then <|
  (cmpNumber first.dominantNearCompleteStructuralContactCount
    second.dominantNearCompleteStructuralContactCount).swap.then <|
  (cmpNumber first.nearCompleteStructuralContactCount.halve.floor
    second.nearCompleteStructuralContactCount.halve.floor).swap.then <|
  (cmpNumber first.nearCompleteStructuralContactCount
    second.nearCompleteStructuralContactCount).swap.then <|
  (cmpNumber first.sharedCollisionBoundaryContactUnits
    second.sharedCollisionBoundaryContactUnits).swap.then <|
  (cmpNumber first.sharedCollisionBoundaryLengthMm
    second.sharedCollisionBoundaryLengthMm).swap.then <|
  (cmpPieceIdArray first.placementOrder second.placementOrder).then <|
  cmpPieceIdArray first.unplacedSourcePieceIds second.unplacedSourcePieceIds

def layoutScoreOrder (first second : IrregularLayoutScore) : Ordering :=
  let samePlacementDepth := first.placementOrder.length == second.placementOrder.length
  let useScaleAwareContactBands := samePlacementDepth &&
    decide (first.placementOrder.length > strictStructuralContactPlacementLimit)
  if useScaleAwareContactBands then scaleAwareLayoutScoreOrder first second
  else strictLayoutScoreOrder first second

def compareScores (first second : IrregularLayoutScore) : Ordering :=
  layoutScoreOrder first second

/-! ## §2  The chains -/

theorem cmpNumber_eq (a b : Number) : cmpNumber a b = compare a.rank b.rank := by
  unfold cmpNumber
  cases ha : a.isNan with
  | true =>
      obtain rfl : a = .nan := by cases a <;> first | rfl | cases ha
      cases hb : b.isNan with
      | true =>
          obtain rfl : b = .nan := by cases b <;> first | rfl | cases hb
          exact (compare_eq_iff_eq.mpr rfl).symm
      | false => exact (compare_lt_iff_lt.mpr (Number.rank_nan_lt hb)).symm
  | false =>
      cases hb : b.isNan with
      | true =>
          obtain rfl : b = .nan := by cases b <;> first | rfl | cases hb
          exact (compare_gt_iff_gt.mpr (Number.rank_nan_lt ha)).symm
      | false =>
          dsimp only
          rw [Number.lt_eq_rank_lt ha hb, Number.lt_eq_rank_lt hb ha]
          rcases lt_trichotomy a.rank b.rank with h | h | h
          · rw [decide_eq_true h, compare_lt_iff_lt.mpr h]
            rfl
          · rw [h, compare_eq_iff_eq.mpr rfl, decide_eq_false (lt_irrefl _)]
            rfl
          · rw [decide_eq_true h, decide_eq_false h.not_gt, compare_gt_iff_gt.mpr h]
            rfl

theorem transCmp_cmpNumber : Std.TransCmp cmpNumber := by
  have heq : cmpNumber = fun a b => compare a.rank b.rank :=
    funext fun a => funext fun b => cmpNumber_eq a b
  rw [heq]
  exact transCmp_comap compare Number.rank

theorem cmpPieceIdArray_eq : ∀ first second : List PieceId,
    cmpPieceIdArray first second = List.compareLex cmpJsCodeUnits first second
  | [], [] => rfl
  | [], _ :: _ => by
      unfold cmpPieceIdArray
      exact compare_lt_iff_lt.mpr (Nat.succ_pos _)
  | _ :: _, [] => by
      unfold cmpPieceIdArray
      exact compare_gt_iff_gt.mpr (Nat.succ_pos _)
  | a :: first, b :: second => by
      have hrest := cmpPieceIdArray_eq first second
      rw [List.compareLex_cons_cons, ← hrest]
      unfold cmpPieceIdArray
      rw [List.zip_cons_cons, List.map_cons]
      cases hab : cmpJsCodeUnits a b with
      | lt => rw [List.find?_cons_of_pos rfl]; rfl
      | gt => rw [List.find?_cons_of_pos rfl]; rfl
      | eq =>
          rw [List.find?_cons_of_neg (by decide), List.length_cons, List.length_cons,
            compare_congr Nat.succ_lt_succ_iff Nat.succ_lt_succ_iff]
          rfl

theorem transCmp_cmpPieceIdArray : Std.TransCmp cmpPieceIdArray := by
  have heq : cmpPieceIdArray = List.compareLex cmpJsCodeUnits :=
    funext fun first => funext fun second => cmpPieceIdArray_eq first second
  rw [heq]
  infer_instance

/-- Ascending in a number. -/
theorem transCmp_by (f : IrregularLayoutScore → Number) :
    Std.TransCmp fun first second => cmpNumber (f first) (f second) :=
  have := transCmp_cmpNumber
  transCmp_comap cmpNumber f

/-- Descending in a number. -/
theorem transCmp_byDesc (f : IrregularLayoutScore → Number) :
    Std.TransCmp fun first second => (cmpNumber (f first) (f second)).swap :=
  transCmp_swap (transCmp_by f)

theorem transCmp_byIds (f : IrregularLayoutScore → List PieceId) :
    Std.TransCmp fun first second => cmpPieceIdArray (f first) (f second) :=
  have := transCmp_cmpPieceIdArray
  transCmp_comap cmpPieceIdArray f

theorem transCmp_strictLayoutScoreOrder : Std.TransCmp strictLayoutScoreOrder :=
  transCmp_then (transCmp_by (·.unplacedCount)) <|
  transCmp_then (transCmp_byDesc (·.dominantNearCompleteStructuralContactCount)) <|
  transCmp_then (transCmp_byDesc (·.nearCompleteStructuralContactCount)) <|
  transCmp_then (transCmp_by collisionBoundsMaxSideMm) <|
  transCmp_then (transCmp_by (·.collisionBoundsAreaMm2)) <|
  transCmp_then (transCmp_by (·.collisionBoundsSpanMm)) <|
  transCmp_then (transCmp_by (·.occupiedHullWasteRatio)) <|
  transCmp_then (transCmp_byDesc (·.sharedCollisionBoundaryContactBand)) <|
  transCmp_then (transCmp_byDesc (·.sharedCollisionBoundaryContactUnits)) <|
  transCmp_then (transCmp_byDesc (·.sharedCollisionBoundaryLengthMm)) <|
  transCmp_then (transCmp_byIds (·.placementOrder)) <|
  transCmp_byIds (·.unplacedSourcePieceIds)

theorem transCmp_scaleAwareLayoutScoreOrder : Std.TransCmp scaleAwareLayoutScoreOrder :=
  transCmp_then (transCmp_by (·.unplacedCount)) <|
  transCmp_then (transCmp_by collisionBoundsMaxSideMm) <|
  transCmp_then (transCmp_by (·.collisionBoundsAreaMm2)) <|
  transCmp_then (transCmp_by (·.collisionBoundsSpanMm)) <|
  transCmp_then (transCmp_by (·.occupiedHullWasteRatio)) <|
  transCmp_then (transCmp_byDesc (·.dominantNearCompleteStructuralContactCount)) <|
  transCmp_then (transCmp_byDesc (·.nearCompleteStructuralContactCount.halve.floor)) <|
  transCmp_then (transCmp_byDesc (·.nearCompleteStructuralContactCount)) <|
  transCmp_then (transCmp_byDesc (·.sharedCollisionBoundaryContactUnits)) <|
  transCmp_then (transCmp_byDesc (·.sharedCollisionBoundaryLengthMm)) <|
  transCmp_then (transCmp_byIds (·.placementOrder)) <|
  transCmp_byIds (·.unplacedSourcePieceIds)

/-! ## §3  The comparison of mixed depths -/

theorem cmpNumber_self (a : Number) : cmpNumber a a = .eq := by
  have := transCmp_cmpNumber
  exact cmp_self cmpNumber a

theorem cmpNumber_ofInt {a b : ℤ} (ha : |a| ≤ 2 ^ 53) (hb : |b| ≤ 2 ^ 53) :
    cmpNumber (.ofInt a) (.ofInt b) = compare a b := by
  unfold cmpNumber
  rw [show (Number.ofInt a).isNan = false from isNan_round a,
    show (Number.ofInt b).isNan = false from isNan_round b, Number.lt_ofInt ha hb,
    Number.lt_ofInt hb ha]
  rcases lt_trichotomy a b with h | rfl | h
  · rw [decide_eq_true h, compare_lt_iff_lt.mpr h]
    rfl
  · rw [decide_eq_false (lt_irrefl a), compare_eq_iff_eq.mpr rfl]
    rfl
  · rw [decide_eq_true h, decide_eq_false h.not_gt, compare_gt_iff_gt.mpr h]
    rfl

/-- The scores of `S` never mix the two chains: all have one depth, or no two of
them share a depth above the limit. -/
def OneChain (S : IrregularLayoutScore → Prop) : Prop :=
  (∀ a b, S a → S b → a.placementOrder.length = b.placementOrder.length) ∨
    ∀ a b, S a → S b → a.placementOrder.length = b.placementOrder.length →
      a.placementOrder.length ≤ strictStructuralContactPlacementLimit ∨ a = b

theorem compareScores_of_deep {a b : IrregularLayoutScore}
    (heq : a.placementOrder.length = b.placementOrder.length)
    (hdeep : strictStructuralContactPlacementLimit < a.placementOrder.length) :
    compareScores a b = scaleAwareLayoutScoreOrder a b := by
  unfold compareScores layoutScoreOrder
  simp only [heq] at hdeep ⊢
  simp [hdeep]

theorem compareScores_of_not_deep {a b : IrregularLayoutScore}
    (h : a.placementOrder.length = b.placementOrder.length →
      a.placementOrder.length ≤ strictStructuralContactPlacementLimit) :
    compareScores a b = strictLayoutScoreOrder a b := by
  unfold compareScores layoutScoreOrder
  by_cases heq : a.placementOrder.length = b.placementOrder.length
  · have hle := h heq
    simp [hle.not_gt]
  · simp [heq]

theorem compareScores_eq_swap (a b : IrregularLayoutScore) :
    compareScores a b = (compareScores b a).swap := by
  have hstrict := transCmp_strictLayoutScoreOrder
  have hscale := transCmp_scaleAwareLayoutScoreOrder
  by_cases hdeep : a.placementOrder.length = b.placementOrder.length ∧
      strictStructuralContactPlacementLimit < a.placementOrder.length
  · rw [compareScores_of_deep hdeep.1 hdeep.2,
      compareScores_of_deep hdeep.1.symm (hdeep.1 ▸ hdeep.2)]
    exact hscale.eq_swap
  · have hshallow : a.placementOrder.length = b.placementOrder.length →
        a.placementOrder.length ≤ strictStructuralContactPlacementLimit := fun heq =>
      not_lt.mp fun hlt => hdeep ⟨heq, hlt⟩
    rw [compareScores_of_not_deep hshallow,
      compareScores_of_not_deep fun heq => heq ▸ hshallow heq.symm]
    exact hstrict.eq_swap

theorem orderOn_compareScores {S : IrregularLayoutScore → Prop} (h : OneChain S) :
    OrderOn S compareScores := by
  rcases h with hdepth | hshallow
  · by_cases hdeep : ∃ a, S a ∧ strictStructuralContactPlacementLimit < a.placementOrder.length
    · obtain ⟨c, hc, hdeep⟩ := hdeep
      refine ⟨_, transCmp_scaleAwareLayoutScoreOrder, fun a b ha hb => ?_⟩
      exact compareScores_of_deep (hdepth a b ha hb) (hdepth a c ha hc ▸ hdeep)
    · refine ⟨_, transCmp_strictLayoutScoreOrder, fun a b ha hb => ?_⟩
      exact compareScores_of_not_deep fun _ => not_lt.mp fun hlt => hdeep ⟨a, ha, hlt⟩
  · refine ⟨_, transCmp_strictLayoutScoreOrder, fun a b ha hb => ?_⟩
    have hstrict := transCmp_strictLayoutScoreOrder
    have hscale := transCmp_scaleAwareLayoutScoreOrder
    by_cases hab : a = b
    · -- both chains tie a score with itself
      subst hab
      rw [cmp_self strictLayoutScoreOrder]
      by_cases hdeep : strictStructuralContactPlacementLimit < a.placementOrder.length
      · rw [compareScores_of_deep rfl hdeep, cmp_self scaleAwareLayoutScoreOrder]
      · rw [compareScores_of_not_deep fun _ => not_lt.mp hdeep, cmp_self strictLayoutScoreOrder]
    · exact compareScores_of_not_deep fun heq => (hshallow a b ha hb heq).resolve_right hab

/-- A score with `contacts` dominant contacts and the waste ratio `waste`. -/
def contactScore (contacts waste : ℤ) (placementOrder : List PieceId) : IrregularLayoutScore where
  unplacedCount := .ofInt 0
  sharedCollisionBoundaryLengthMm := .ofInt 0
  sharedCollisionBoundaryContactUnits := .ofInt 0
  sharedCollisionBoundaryContactBand := .ofInt 0
  nearCompleteStructuralContactCount := .ofInt 2
  dominantNearCompleteStructuralContactCount := .ofInt contacts
  collisionBoundsAreaMm2 := .ofInt 100
  collisionBoundsSpanMm := .ofInt 20
  occupiedHullWasteRatio := .ofInt waste
  placementOrder := placementOrder
  unplacedSourcePieceIds := []

/-- Two layouts of one deep depth are compared by their waste, each with a layout of
another depth by its contacts. -/
theorem compareScores_cycle {deep other : List PieceId}
    (hdeep : strictStructuralContactPlacementLimit < deep.length)
    (hother : other.length ≠ deep.length) :
    compareScores (contactScore 0 0 deep) (contactScore 2 1 deep) = .lt ∧
      compareScores (contactScore 2 1 deep) (contactScore 1 0 other) = .lt ∧
      compareScores (contactScore 1 0 other) (contactScore 0 0 deep) = .lt := by
  have hsides : ∀ (contacts waste contacts' waste' : ℤ) (placements placements' : List PieceId),
      cmpNumber (collisionBoundsMaxSideMm (contactScore contacts waste placements))
        (collisionBoundsMaxSideMm (contactScore contacts' waste' placements')) = .eq :=
    fun _ _ _ _ _ _ => cmpNumber_self _
  refine ⟨?_, ?_, ?_⟩
  · have hchain : compareScores (contactScore 0 0 deep) (contactScore 2 1 deep) =
        scaleAwareLayoutScoreOrder (contactScore 0 0 deep) (contactScore 2 1 deep) :=
      compareScores_of_deep rfl hdeep
    rw [hchain]
    unfold scaleAwareLayoutScoreOrder
    rw [hsides]
    simp only [contactScore, cmpNumber_self, Ordering.eq_then]
    rw [cmpNumber_ofInt (by norm_num) (by norm_num)]
    rfl
  · rw [compareScores_of_not_deep fun heq => absurd heq.symm hother]
    unfold strictLayoutScoreOrder
    simp only [contactScore, cmpNumber_self, Ordering.eq_then]
    rw [cmpNumber_ofInt (by norm_num) (by norm_num)]
    rfl
  · rw [compareScores_of_not_deep fun heq => absurd heq hother]
    unfold strictLayoutScoreOrder
    simp only [contactScore, cmpNumber_self, Ordering.eq_then]
    rw [cmpNumber_ofInt (by norm_num) (by norm_num)]
    rfl

/-- **Scores are ordered as long as no depth above the limit is mixed.**  The
comparison is always antisymmetric in sign.  It is transitive, and sorting ranks alike
whatever the order, among scores that never mix the two chains; and every depth above
the limit and every other depth have three scores in a cycle. -/
theorem compareScores_preorder :
    (∀ a b, compareScores a b = (compareScores b a).swap) ∧
      (∀ S, OneChain S →
        (∀ a b c, S a → S b → S c → (compareScores a b).isLE = true →
          (compareScores b c).isLE = true → (compareScores a c).isLE = true) ∧
        ∀ beam other : List IrregularLayoutScore, (∀ a ∈ beam, S a) → beam.Perm other →
          List.Forall₂ (fun a b => compareScores a b = .eq)
            (beam.mergeSort fun a b => compareScores a b != .gt)
            (other.mergeSort fun a b => compareScores a b != .gt)) ∧
      ∀ deep other : List PieceId, strictStructuralContactPlacementLimit < deep.length →
        other.length ≠ deep.length →
        ∃ a b c, a.placementOrder = deep ∧ b.placementOrder = deep ∧
          c.placementOrder = other ∧ compareScores a b = .lt ∧ compareScores b c = .lt ∧
          compareScores c a = .lt := by
  refine ⟨compareScores_eq_swap, fun S hS => ⟨fun a b c ha hb hc hab hbc => ?_,
    fun beam other hbeam hperm => ?_⟩, fun deep other hdeep hother => ?_⟩
  · exact (orderOn_compareScores hS).isLE_trans ha hb hc hab hbc
  · exact (orderOn_compareScores hS).forall₂_sort_of_perm hbeam hperm
  · exact ⟨_, _, _, rfl, rfl, rfl, compareScores_cycle hdeep hother⟩

/-- Two layouts of twenty-one pieces and one of a single piece. -/
theorem compareScores_not_transitive :
    ¬ ∀ a b c, (compareScores a b).isLE = true → (compareScores b c).isLE = true →
      (compareScores a c).isLE = true := by
  intro htrans
  have hlength : (List.replicate 21 "piece").length = 21 := List.length_replicate
  obtain ⟨hab, hbc, hca⟩ := compareScores_cycle
    (show strictStructuralContactPlacementLimit < (List.replicate 21 "piece").length by
      rw [hlength]
      decide)
    (show ["piece"].length ≠ (List.replicate 21 "piece").length by
      rw [hlength]
      decide)
  have hac := htrans _ _ _ (by rw [hab]; rfl) (by rw [hbc]; rfl)
  rw [compareScores_eq_swap, hca] at hac
  exact absurd hac (by decide)

end PolygonNesting
