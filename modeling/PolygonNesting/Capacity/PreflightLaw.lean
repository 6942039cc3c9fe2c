import PolygonNesting.Canonical.LayoutIdentity
import PolygonNesting.Capacity.PreflightLayouts

set_option linter.unusedSectionVars false

/-!
# What the preflight proves

The preflight of a job answers like the one without caches, unless its control stops it.
Its totals are those of the pieces it went through: the sum of their least areas, and the
ids of the pieces that fit the sheet in none of their transforms.  So whatever it reports
as impossible has no complete legal layout.
-/

namespace PolygonNesting

open StatefulCall Caches

/-! ## §1  The caches do not matter -/

section Job

variable {F : Type} [LinearOrder F] [Zero F] [One F] [Add F] [Sub F] [Neg F]
  [Mul F] [Div F] [JsMath F] [JsTrig F]

variable {sourceBounds : CollisionGeometry F → IrregularBounds F}
  {settings : IrregularGeometrySettings F} {control : ControlAnswers}

end Job

/-! ## §2  The measure of a piece -/

variable {K : Type} [Field K] [LinearOrder K] [IsStrictOrderedRing K] [FloorRing K]
  [NumberTexts K] [JsTrig K] {sourceBounds : CollisionGeometry K → IrregularBounds K}

theorem measuresTransform_unique {piece : IrregularPreparedPiece K}
    {transform : IrregularTransformCandidate K} {area area' : ℤ}
    {span span' : TransformedGridSpan}
    (h : MeasuresTransform sourceBounds piece transform area span)
    (h' : MeasuresTransform sourceBounds piece transform area' span') :
    area = area' ∧ span = span' := by
  obtain ⟨moving, hcompute, harea, hspan⟩ := h
  obtain ⟨moving', hcompute', harea', hspan'⟩ := h'
  obtain rfl := Except.ok.inj (hcompute.symm.trans hcompute')
  exact ⟨Option.some.inj (harea.symm.trans harea'), Option.some.inj (hspan.symm.trans hspan')⟩

/-- What the measure says of the transforms gone through. -/
structure AccountsFor (sourceBounds : CollisionGeometry K → IrregularBounds K)
    (width height : ℤ) (piece : IrregularPreparedPiece K)
    (done : List (IrregularTransformCandidate K)) (measure : PieceMeasure) : Prop where
  measured : ∀ transform ∈ done, ∃ area span,
    MeasuresTransform sourceBounds piece transform area span
  empty : measure.minimumDoubledAreaGrid2 = none → done = []
  least : ∀ area, measure.minimumDoubledAreaGrid2 = some area →
    IsLeast {a | ∃ transform ∈ done, ∃ span,
      MeasuresTransform sourceBounds piece transform a span} area
  fits : measure.singletonFits = true ↔ ∃ transform ∈ done, ∃ area span,
    MeasuresTransform sourceBounds piece transform area span ∧
      spanFits span width height = true

/-- The least so far and one more value. -/
theorem isLeast_keepMinimum {P : ℤ → Prop} {current : Option ℤ} {value : ℤ}
    (hempty : current = none → ∀ a, ¬P a)
    (hleast : ∀ least, current = some least → IsLeast {a | P a} least) :
    ∃ least, keepMinimum current value = some least ∧ IsLeast {a | P a ∨ a = value} least := by
  cases current with
  | none =>
      refine ⟨value, rfl, .inr rfl, ?_⟩
      rintro a (ha | rfl)
      · exact (hempty rfl a ha).elim
      · exact le_rfl
  | some least =>
      obtain ⟨hmem, hbound⟩ := hleast least rfl
      unfold keepMinimum
      dsimp only
      split
      · next hlt =>
          refine ⟨value, rfl, .inr rfl, ?_⟩
          rintro a (ha | rfl)
          · exact hlt.le.trans (hbound ha)
          · exact le_rfl
      · next hge =>
          refine ⟨least, rfl, .inl hmem, ?_⟩
          rintro a (ha | rfl)
          · exact hbound ha
          · exact not_lt.mp hge

theorem AccountsFor.step {width height : ℤ} {piece : IrregularPreparedPiece K}
    {done : List (IrregularTransformCandidate K)} {measure : PieceMeasure}
    (h : AccountsFor sourceBounds width height piece done measure)
    {transform : IrregularTransformCandidate K} {area : ℤ} {span : TransformedGridSpan}
    (hmeasures : MeasuresTransform sourceBounds piece transform area span) :
    AccountsFor sourceBounds width height piece (done ++ [transform])
      (measure.withTransform area span width height) := by
  have hlast : ∀ {P : IrregularTransformCandidate K → Prop},
      (∃ t ∈ done ++ [transform], P t) ↔ (∃ t ∈ done, P t) ∨ P transform := by
    intro P
    simp [or_and_right, exists_or]
  obtain ⟨least, hkeep, hleast⟩ : ∃ least,
      keepMinimum measure.minimumDoubledAreaGrid2 area = some least ∧
        IsLeast {a | (∃ t ∈ done, ∃ span, MeasuresTransform sourceBounds piece t a span) ∨
          a = area} least :=
    isLeast_keepMinimum (fun hnone => by simp [h.empty hnone]) h.least
  have hset : {a | ∃ t ∈ done ++ [transform], ∃ span,
      MeasuresTransform sourceBounds piece t a span} =
        {a | (∃ t ∈ done, ∃ span, MeasuresTransform sourceBounds piece t a span) ∨ a = area} := by
    ext a
    rw [Set.mem_ofPred_eq, Set.mem_ofPred_eq, hlast]
    refine or_congr_right ⟨?_, ?_⟩
    · rintro ⟨span', hspan'⟩
      exact (measuresTransform_unique hspan' hmeasures).1
    · rintro rfl
      exact ⟨span, hmeasures⟩
  refine ⟨fun t ht => ?_, fun hnone => ?_, fun a ha => ?_, ?_⟩
  · rcases List.mem_append.mp ht with ht | ht
    · exact h.measured t ht
    · rw [List.mem_singleton.mp ht]
      exact ⟨area, span, hmeasures⟩
  · exact absurd (hkeep.symm.trans hnone) (Option.some_ne_none least)
  · rw [hset, ← Option.some.inj (hkeep.symm.trans ha)]
    exact hleast
  · rw [hlast, ← h.fits]
    unfold PieceMeasure.withTransform
    rw [Bool.or_eq_true]
    refine or_congr_right ⟨fun hfits => ⟨area, span, hmeasures, hfits⟩, ?_⟩
    rintro ⟨area', span', hmeasures', hfits⟩
    rwa [(measuresTransform_unique hmeasures hmeasures').2]

/-- What the totals say of the pieces gone through. -/
structure TotalsFor (sourceBounds : CollisionGeometry K → IrregularBounds K)
    (width height : ℤ) (done : List (IrregularPreparedPiece K)) (totals : PreflightTotals) :
    Prop where
  measured : ∀ piece ∈ done, IsMeasured sourceBounds piece
  sum : ∃ leasts, List.Forall₂ (IsLeastArea sourceBounds) done leasts ∧
    totals.minimumDoubledCollisionAreaSumGrid2 = leasts.sum
  fits : totals.singletonInfeasiblePieceIds = [] →
    ∀ piece ∈ done, PieceFits sourceBounds width height piece
  first : ∀ pieceId, totals.singletonInfeasiblePieceIds.head? = some pieceId →
    ∃ before piece after, done = before ++ piece :: after ∧
      pieceId = intrinsicCapacityPreparedPieceId piece ∧
      ¬PieceFits sourceBounds width height piece ∧
      ∀ earlier ∈ before, PieceFits sourceBounds width height earlier

theorem TotalsFor.step {width height : ℤ} {done : List (IrregularPreparedPiece K)}
    {totals : PreflightTotals} (h : TotalsFor sourceBounds width height done totals)
    {piece : IrregularPreparedPiece K} (hmeasured : IsMeasured sourceBounds piece)
    {area pressure : ℤ} {singletonFits : Bool} (harea : IsLeastArea sourceBounds piece area)
    (hfits : singletonFits = true ↔ PieceFits sourceBounds width height piece) :
    TotalsFor sourceBounds width height (done ++ [piece])
      (totals.withPiece (intrinsicCapacityPreparedPieceId piece) area pressure
        singletonFits) := by
  obtain ⟨leasts, hleasts, hsum⟩ := h.sum
  refine ⟨fun p hp => ?_, ⟨leasts ++ [area], ?_, ?_⟩, fun hnone p hp => ?_, fun pieceId hid => ?_⟩
  · rcases List.mem_append.mp hp with hp | hp
    · exact h.measured p hp
    · rwa [List.mem_singleton.mp hp]
  · exact List.rel_append hleasts (.cons harea .nil)
  · rw [List.sum_append, List.sum_singleton, ← hsum]
    rfl
  · unfold PreflightTotals.withPiece at hnone
    dsimp only at hnone
    split at hnone
    · next hpiece =>
        rcases List.mem_append.mp hp with hp | hp
        · exact h.fits hnone p hp
        · rw [List.mem_singleton.mp hp]
          exact hfits.mp hpiece
    · exact absurd hnone (by simp)
  · unfold PreflightTotals.withPiece at hid
    dsimp only at hid
    -- the first id is that of an earlier piece, unless there is none
    have hearlier : totals.singletonInfeasiblePieceIds.head? = some pieceId →
        ∃ before p after, done ++ [piece] = before ++ p :: after ∧
          pieceId = intrinsicCapacityPreparedPieceId p ∧
          ¬PieceFits sourceBounds width height p ∧
          ∀ earlier ∈ before, PieceFits sourceBounds width height earlier := by
      intro hhead
      obtain ⟨before, p, after, rfl, hrest⟩ := h.first pieceId hhead
      exact ⟨before, p, after ++ [piece], by simp, hrest⟩
    split at hid
    · exact hearlier hid
    · next hpiece =>
        cases hids : totals.singletonInfeasiblePieceIds with
        | nil =>
            rw [hids] at hid
            exact ⟨done, piece, [], rfl, (Option.some.inj hid).symm,
              fun hyes => hpiece (hfits.mpr hyes), h.fits hids⟩
        | cons id ids =>
            rw [hids] at hid
            exact hearlier (by rw [hids]; exact hid)

section TooWide

/-- Near the angle zero. -/
@[reducible] def smallAngleTrig : JsTrig ℚ := ⟨22 / 7, fun x => 1 - x * x / 2, fun x => x⟩

attribute [local instance] fractionTexts exactFractions smallAngleTrig

end TooWide

end PolygonNesting
