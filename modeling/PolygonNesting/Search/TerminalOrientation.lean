import Mathlib.Data.Rat.Encodable
import Mathlib.Logic.Equiv.List
import Mathlib.Tactic.DeriveCountable
import PolygonNesting.Caches.GeometryCacheIdentity
import PolygonNesting.Capacity.Comparators
import PolygonNesting.Capacity.RigidLayouts

set_option linter.unusedSectionVars false

/-!
# Terminal orientations

Three places choose between a layout and its quarter turn on a sheet: the strict decoder, the
shared archive and the capacity endpoint.  Each anchors the state in both orientations, keeps
the legal ones and takes the first by hash, then by angle.
-/

namespace PolygonNesting

section

variable {F : Type} [LinearOrder F] [Zero F] [One F] [Add F] [Sub F] [Neg F]
  [Mul F] [Div F] [JsMath F] {heap : ℕ → IrregularPlacedPiece F} {π : Type}

/-! ## §1  The strict decoder -/

inductive TerminalRotationDeg where
  | zero
  | ninety
  deriving DecidableEq

structure TerminalOrientation (heap : ℕ → IrregularPlacedPiece F) (π : Type) where
  state : IrregularBeamState heap π
  rotationDeg : TerminalRotationDeg
  canonicalHash : String

/-- `rotation_deg_ordinal`. -/
def rotationDegOrdinal : TerminalRotationDeg → ℕ
  | .zero => 0
  | .ninety => 90

/-- One pass of the loop: `none` where the source continues without a push. -/
def terminalOrientation (authority : LayoutAuthority heap) (state : IrregularBeamState heap π)
    (sheet : SheetSpec F) (rotation : IrregularQuarterTurnDegrees) :
    Option (TerminalOrientation heap π) := do
  let oriented ← state.withQuarterTurnBottomLeft authority.alloc rotation
  let placed := toOwnedPlaced oriented.placedCollisionGeometries
  if !assertCanonicalGridLegalLayout authority.intersection sheet placed then none
  else do
    let canonicalIdentity ← authority.canonicalCollisionLayoutIdentity placed
    some ⟨oriented, if rotation = .zero then .zero else .ninety,
      authority.sha256Hex canonicalIdentity⟩

def compareTerminalOrientations (authority : LayoutAuthority heap)
    (first second : TerminalOrientation heap π) : Ordering :=
  (authority.localeCompareKeys first.canonicalHash second.canonicalHash).then
    (compare (rotationDegOrdinal first.rotationDeg) (rotationDegOrdinal second.rotationDeg))

def selectTerminalOrientation (authority : LayoutAuthority heap)
    (state : IrregularBeamState heap π) (sheet : SheetSpec F) :
    Option (TerminalOrientation heap π) :=
  let legal := [IrregularQuarterTurnDegrees.zero, .ninety].filterMap
    (terminalOrientation authority state sheet)
  (legal.mergeSort (sortLe (compareTerminalOrientations authority))).head?

/-! ## §2  The shared archive -/

structure OrientationFitInternal (heap : ℕ → IrregularPlacedPiece F) where
  rotationDeg : TerminalRotationDeg
  fits : Bool
  canonicalGeometryHash : Option String
  placedCollisionGeometries : List (PlacedArc heap)

def fitOrientation (authority : LayoutAuthority heap) (sheet : SheetSpec F)
    (state : IrregularBeamState heap π) (rotationDeg : TerminalRotationDeg) :
    OrientationFitInternal heap :=
  let quarterTurn : IrregularQuarterTurnDegrees :=
    match rotationDeg with
    | .zero => .zero
    | .ninety => .ninety
  let empty : OrientationFitInternal heap := ⟨rotationDeg, false, none, []⟩
  match state.withQuarterTurnBottomLeft authority.alloc quarterTurn with
  | none => empty
  | some oriented =>
      let placedOwned := toOwnedPlaced oriented.placedCollisionGeometries
      if !assertCanonicalGridLegalLayout authority.intersection sheet placedOwned then empty
      else
        match authority.canonicalCollisionLayoutIdentity placedOwned with
        | none => empty
        | some identity => ⟨rotationDeg, true, some (authority.sha256Hex identity),
            oriented.placedCollisionGeometries⟩

structure IntrinsicSharedArchiveOrientationFit where
  fits : Bool
  canonicalGeometryHash : Option String
  deriving DecidableEq

structure IntrinsicSharedArchiveSheetFit (heap : ℕ → IrregularPlacedPiece F) where
  q0 : IntrinsicSharedArchiveOrientationFit
  q90 : IntrinsicSharedArchiveOrientationFit
  selectedRotationDeg : Option TerminalRotationDeg
  selectedCanonicalGeometryHash : Option String
  selectedPlacedCollisionGeometries : List (PlacedArc heap)

def compareOrientationFits (authority : LayoutAuthority heap)
    (first second : OrientationFitInternal heap) : Ordering :=
  (authority.localeCompareKeys (first.canonicalGeometryHash.getD "")
    (second.canonicalGeometryHash.getD "")).then
      (compare (rotationDegOrdinal first.rotationDeg) (rotationDegOrdinal second.rotationDeg))

/-- `requested_sheet_fit`: both orientations are always computed. -/
def requestedSheetFit (authority : LayoutAuthority heap) (sheet : SheetSpec F)
    (state : IrregularBeamState heap π) : IntrinsicSharedArchiveSheetFit heap :=
  let q0 := fitOrientation authority sheet state .zero
  let q90 := fitOrientation authority sheet state .ninety
  let candidates := [q0, q90].filter fun fit => fit.fits && fit.canonicalGeometryHash.isSome
  let selected := (candidates.mergeSort (sortLe (compareOrientationFits authority))).head?
  { q0 := ⟨q0.fits, q0.canonicalGeometryHash⟩
    q90 := ⟨q90.fits, q90.canonicalGeometryHash⟩
    selectedRotationDeg := selected.map fun found => found.rotationDeg
    selectedCanonicalGeometryHash := selected.bind fun found => found.canonicalGeometryHash
    selectedPlacedCollisionGeometries :=
      (selected.map fun found => found.placedCollisionGeometries).getD [] }

end

variable {K : Type} [Field K] [LinearOrder K] [IsStrictOrderedRing K] [FloorRing K]
  [NumberTexts K] {heap : ℕ → IrregularPlacedPiece K} {π : Type}
  {authority : LayoutAuthority heap} {state : IrregularBeamState heap π}
  {paths : List CanonicalGridPath}

/-! ## §3  One orientation -/

/-- What the choice takes for granted: the allocator stores what it is given, the identity is
the canonical one, and a hash ties with itself. -/
structure LayoutAuthority.Exact (authority : LayoutAuthority heap) : Prop where
  alloc : ∀ piece, (authority.alloc piece).piece = piece
  identity : authority.canonicalCollisionLayoutIdentity =
    PolygonNesting.canonicalCollisionLayoutIdentity
  locale : ∀ text, authority.localeCompareKeys text text = .eq

/-- The hash of a layout, whatever its place and its turn. -/
def layoutHash (authority : LayoutAuthority heap) (paths : List CanonicalGridPath) : String :=
  authority.sha256Hex ((smallestIdentity paths).getD "")

/-- The anchored layout is legal on the sheet in one orientation. -/
def LegalAt (authority : LayoutAuthority heap) (sheet : SheetSpec K)
    (paths : List CanonicalGridPath) (turn : IrregularQuarterTurnDegrees) : Prop :=
  ∃ width height, toGridMm sheet.width = some width ∧ toGridMm sheet.height = some height ∧
    LegalPaths (overlapsBy authority.intersection) width height
      (anchored (turned turn.quarterTurn paths))

/-- The hash does not see the anchoring and the turn. -/
theorem smallestIdentity_oriented (hrings : Rings paths) (turn : QuarterTurn) :
    smallestIdentity (anchored (turned turn paths)) = smallestIdentity paths := by
  have hmoved : Rings (anchored (turned turn paths)) := (hrings.turned turn).map _
  exact (smallestIdentity_eq_iff hmoved hrings).2 (SameLayout.anchored_turned turn paths).symm

/-- The angle of the terminal orientation. -/
def IrregularQuarterTurnDegrees.terminal : IrregularQuarterTurnDegrees → TerminalRotationDeg
  | .zero => .zero
  | .ninety => .ninety

section

variable (hauthority : authority.Exact) (h : GridState state paths) (sheet : SheetSpec K)

include hauthority h

/-- The state exists in each orientation, the gate decides its legality, and a legal one has the
hash of the layout. -/
theorem terminalOrientation_spec (turn : IrregularQuarterTurnDegrees) :
    (LegalAt authority sheet paths turn → ∃ oriented,
      terminalOrientation authority state sheet turn =
        some ⟨oriented, turn.terminal, layoutHash authority paths⟩) ∧
      (¬LegalAt authority sheet paths turn →
        terminalOrientation authority state sheet turn = none) := by
  obtain ⟨oriented, horiented, hgrid⟩ := h.oriented hauthority.alloc turn
  unfold terminalOrientation
  rw [horiented, Option.bind_eq_bind, Option.bind_some]
  dsimp only
  constructor
  · intro hlegal
    have hassert := hgrid.layout.assert_iff.2 hlegal
    obtain ⟨turn', htext⟩ := smallestIdentity_spec paths
    have hidentity : canonicalCollisionLayoutIdentity
        (toOwnedPlaced oriented.placedCollisionGeometries) = smallestIdentity paths := by
      unfold assertCanonicalGridLegalLayout at hassert
      split at hassert
      · next polygons _ _ hpolygons _ _ =>
          rw [canonicalCollisionLayoutIdentity, hpolygons]
          show smallestIdentity (polygons.map (·.path)) = _
          rw [hgrid.layout.paths_of_polygons hpolygons,
            smallestIdentity_oriented h.layout.rings turn.quarterTurn]
      · cases hassert
    rw [hassert, hauthority.identity, hidentity]
    unfold layoutHash
    rw [htext]
    cases turn <;> exact ⟨oriented, rfl⟩
  · intro hillegal
    rw [Bool.eq_false_iff.2 fun htrue => hillegal (hgrid.layout.assert_iff.1 htrue)]
    rfl

theorem terminalOrientation_found {turn : IrregularQuarterTurnDegrees}
    {found : TerminalOrientation heap π}
    (hfound : terminalOrientation authority state sheet turn = some found) :
    found.rotationDeg = turn.terminal ∧ found.canonicalHash = layoutHash authority paths := by
  obtain ⟨hlegal, hillegal⟩ := terminalOrientation_spec hauthority h sheet turn
  by_cases hturn : LegalAt authority sheet paths turn
  · obtain ⟨oriented, horiented⟩ := hlegal hturn
    rw [horiented] at hfound
    obtain rfl := Option.some.inj hfound
    exact ⟨rfl, rfl⟩
  · rw [hillegal hturn] at hfound
    cases hfound

end

/-! ## §4  The choice -/

/-- Of two candidates that tie or stand in order the first legal one is taken. -/
theorem head?_mergeSort_turns {α : Type} {compare : α → α → Ordering}
    {f : IrregularQuarterTurnDegrees → Option α}
    (hsorted : ∀ x y, f .zero = some x → f .ninety = some y → sortLe compare x y = true) :
    (([IrregularQuarterTurnDegrees.zero, .ninety].filterMap f).mergeSort
      (sortLe compare)).head? = (f .zero).or (f .ninety) := by
  have hpairwise : ([IrregularQuarterTurnDegrees.zero, .ninety].filterMap f).Pairwise
      fun x y => sortLe compare x y = true := by
    rw [List.pairwise_filterMap]
    refine .cons (fun turn hturn x hx y hy => ?_) (List.pairwise_singleton _ _)
    rw [List.mem_singleton.1 hturn] at hy
    exact hsorted x y hx hy
  rw [List.mergeSort_of_pairwise hpairwise]
  cases hzero : f .zero with
  | none => cases hninety : f .ninety <;> simp [hzero, hninety]
  | some x => simp [hzero]

/-- The archive keeps what the strict decoder does. -/
theorem fitOrientation_eq (authority : LayoutAuthority heap) (sheet : SheetSpec K)
    (state : IrregularBeamState heap π) (turn : IrregularQuarterTurnDegrees) :
    fitOrientation authority sheet state turn.terminal =
      (terminalOrientation authority state sheet turn).elim ⟨turn.terminal, false, none, []⟩
        fun found => ⟨turn.terminal, true, some found.canonicalHash,
          found.state.placedCollisionGeometries⟩ := by
  have hturn : (match turn.terminal with
      | .zero => .zero
      | .ninety => .ninety : IrregularQuarterTurnDegrees) = turn := by
    cases turn <;> rfl
  unfold fitOrientation terminalOrientation
  dsimp only
  rw [hturn]
  cases state.withQuarterTurnBottomLeft authority.alloc turn with
  | none => rfl
  | some oriented =>
    dsimp only [Option.bind_eq_bind, Option.bind_some]
    split
    · rfl
    · cases authority.canonicalCollisionLayoutIdentity
        (toOwnedPlaced oriented.placedCollisionGeometries) <;> rfl

/-- An orientation of an endpoint, as the strict decoder has it. -/
def LegalOrientation.terminal (chosen : LegalOrientation heap π) : TerminalOrientation heap π :=
  ⟨chosen.oriented, chosen.rotationDeg.terminal, chosen.hash⟩

/-- The endpoint keeps what the strict decoder does. -/
theorem legalOrientation_map (authority : LayoutAuthority heap) (sheet : SheetSpec K)
    (state : IrregularBeamState heap π) (turn : IrregularQuarterTurnDegrees) :
    (legalOrientation authority sheet state turn).map LegalOrientation.terminal =
      terminalOrientation authority state sheet turn := by
  unfold legalOrientation terminalOrientation
  cases state.withQuarterTurnBottomLeft authority.alloc turn with
  | none => rfl
  | some oriented =>
    dsimp only [Option.bind_eq_bind, Option.bind_some]
    split
    · rfl
    · cases authority.canonicalCollisionLayoutIdentity
        (toOwnedPlaced oriented.placedCollisionGeometries) with
      | none => rfl
      | some identity => cases turn <;> rfl

section

variable (hauthority : authority.Exact) (h : GridState state paths) (sheet : SheetSpec K)

include hauthority h

/-- The strict decoder takes the upright orientation if it is legal, else the turned one. -/
theorem selectTerminalOrientation_eq :
    selectTerminalOrientation authority state sheet =
      (terminalOrientation authority state sheet .zero).or
        (terminalOrientation authority state sheet .ninety) := by
  refine head?_mergeSort_turns fun x y hx hy => ?_
  obtain ⟨hxturn, hxhash⟩ := terminalOrientation_found hauthority h sheet hx
  obtain ⟨hyturn, hyhash⟩ := terminalOrientation_found hauthority h sheet hy
  unfold sortLe compareTerminalOrientations
  rw [hxhash, hyhash, hxturn, hyturn, hauthority.locale]
  rfl

theorem requestedSheetFit_selected :
    (requestedSheetFit authority sheet state).selectedRotationDeg =
        (selectTerminalOrientation authority state sheet).map (·.rotationDeg) ∧
      (requestedSheetFit authority sheet state).selectedCanonicalGeometryHash =
        (selectTerminalOrientation authority state sheet).map (·.canonicalHash) ∧
      (requestedSheetFit authority sheet state).selectedPlacedCollisionGeometries =
        ((selectTerminalOrientation authority state sheet).map
          (·.state.placedCollisionGeometries)).getD [] := by
  have hfound : ∀ {turn found}, terminalOrientation authority state sheet turn = some found →
      found.rotationDeg = turn.terminal ∧ found.canonicalHash = layoutHash authority paths :=
    terminalOrientation_found hauthority h sheet
  rw [selectTerminalOrientation_eq hauthority h sheet]
  unfold requestedSheetFit
  rw [show fitOrientation authority sheet state .zero = _ from
      fitOrientation_eq authority sheet state .zero,
    show fitOrientation authority sheet state .ninety = _ from
      fitOrientation_eq authority sheet state .ninety]
  cases hzero : terminalOrientation authority state sheet .zero with
  | none =>
    cases hninety : terminalOrientation authority state sheet .ninety with
    | none => simp
    | some turned => simp [(hfound hninety).1]
  | some upright =>
    cases hninety : terminalOrientation authority state sheet .ninety with
    | none => simp [(hfound hzero).1]
    | some turned =>
      -- equal hashes tie, and zero degrees come first
      have hle : sortLe (compareOrientationFits authority)
          ⟨.zero, true, some upright.canonicalHash, upright.state.placedCollisionGeometries⟩
          ⟨.ninety, true, some turned.canonicalHash, turned.state.placedCollisionGeometries⟩ =
            true := by
        unfold sortLe compareOrientationFits
        dsimp only
        rw [(hfound hzero).2, (hfound hninety).2, hauthority.locale]
        rfl
      have hsorted := List.mergeSort_of_pairwise
        (List.pairwise_pair.2 hle)
      simp [IrregularQuarterTurnDegrees.terminal, hsorted, (hfound hzero).1]

/-- What the strict decoder selects, by the legality of the two orientations. -/
theorem selectTerminalOrientation_cases :
    (LegalAt authority sheet paths .zero ∧ ∃ oriented,
        selectTerminalOrientation authority state sheet =
          some ⟨oriented, .zero, layoutHash authority paths⟩) ∨
      (¬LegalAt authority sheet paths .zero ∧ LegalAt authority sheet paths .ninety ∧
        ∃ oriented, selectTerminalOrientation authority state sheet =
          some ⟨oriented, .ninety, layoutHash authority paths⟩) ∨
      (¬LegalAt authority sheet paths .zero ∧ ¬LegalAt authority sheet paths .ninety ∧
        selectTerminalOrientation authority state sheet = none) := by
  obtain ⟨hzero, hnotZero⟩ := terminalOrientation_spec hauthority h sheet .zero
  obtain ⟨hninety, hnotNinety⟩ := terminalOrientation_spec hauthority h sheet .ninety
  rw [selectTerminalOrientation_eq hauthority h sheet]
  by_cases hlegal : LegalAt authority sheet paths .zero
  · obtain ⟨oriented, horiented⟩ := hzero hlegal
    exact .inl ⟨hlegal, oriented, by rw [horiented]; rfl⟩
  · rw [hnotZero hlegal, Option.none_or]
    by_cases hlegal' : LegalAt authority sheet paths .ninety
    · exact .inr (.inl ⟨hlegal, hlegal', hninety hlegal'⟩)
    · exact .inr (.inr ⟨hlegal, hlegal', hnotNinety hlegal'⟩)

end

/-- The orientation an endpoint takes. -/
def selectedOrientation (authority : LayoutAuthority heap) (sheet : SheetSpec K)
    (state : IrregularBeamState heap π) : Option (LegalOrientation heap π) :=
  (([IrregularQuarterTurnDegrees.zero, .ninety].filterMap
    (legalOrientation authority sheet state)).mergeSort
      (sortLe (compareLegalOrientations authority))).head?

/-- The endpoint takes the orientation of the strict decoder. -/
theorem selectedOrientation_map (hauthority : authority.Exact) (h : GridState state paths)
    (sheet : SheetSpec K) :
    (selectedOrientation authority sheet state).map LegalOrientation.terminal =
      selectTerminalOrientation authority state sheet := by
  have hfound : ∀ turn chosen, legalOrientation authority sheet state turn = some chosen →
      chosen.rotationDeg.terminal = turn.terminal ∧
        chosen.hash = layoutHash authority paths := by
    intro turn chosen hchosen
    have hmap := legalOrientation_map authority sheet state turn
    rw [hchosen] at hmap
    exact terminalOrientation_found hauthority h sheet hmap.symm
  have hselected : selectedOrientation authority sheet state =
      (legalOrientation authority sheet state .zero).or
        (legalOrientation authority sheet state .ninety) := by
    refine head?_mergeSort_turns fun x y hx hy => ?_
    obtain ⟨hxturn, hxhash⟩ := hfound .zero x hx
    obtain ⟨hyturn, hyhash⟩ := hfound .ninety y hy
    unfold sortLe compareLegalOrientations
    rw [hxhash, hyhash, hauthority.locale]
    cases hx : x.rotationDeg with
    | zero => cases y.rotationDeg <;> rfl
    | ninety => rw [hx] at hxturn; cases hxturn
  rw [hselected, selectTerminalOrientation_eq hauthority h sheet, Option.map_or,
    legalOrientation_map, legalOrientation_map]

/-- An endpoint of placed pieces has the orientation that was selected. -/
theorem selected_of_materialize {input : MaterializeIntrinsicCapacityEndpointInput heap π}
    {cache : IntrinsicCapacityCavityCache K} {endpoint : IntrinsicCapacityEndpoint heap}
    (hplaced : input.state.placementOrder ≠ [])
    (h : (materializeIntrinsicCapacityEndpoint authority input cache).1 = some endpoint) :
    ∃ selected, selectedOrientation authority input.sheet input.state = some selected ∧
      endpoint.selectedRotationDeg = selected.rotationDeg ∧
      endpoint.canonicalGeometryHash = selected.hash ∧
      endpoint.placedCollisionGeometries = selected.oriented.placedCollisionGeometries := by
  unfold materializeIntrinsicCapacityEndpoint at h
  dsimp only at h
  rw [if_neg (by simpa using hplaced)] at h
  split at h
  · cases h
  · obtain ⟨material, -, h⟩ := Option.bind_eq_some_iff.1 h
    obtain ⟨selected, hselected, h⟩ := Option.bind_eq_some_iff.1 h
    obtain ⟨envelope, -, h⟩ := Option.bind_eq_some_iff.1 h
    obtain rfl := Option.some.inj h
    exact ⟨selected, hselected, rfl, rfl, rfl⟩

/-- **The three choices are one.**  On a layout of strict rings on the grid each place takes the
upright orientation exactly when it is legal and the turned one exactly when only that is; the
hash is the one of the layout whichever is taken, so the order of the hashes never decides. -/
theorem terminalOrientations_agree (hauthority : authority.Exact) (h : GridState state paths)
    (sheet : SheetSpec K) :
    ((selectTerminalOrientation authority state sheet).map (·.rotationDeg) = some .zero ↔
        LegalAt authority sheet paths .zero) ∧
      ((selectTerminalOrientation authority state sheet).map (·.rotationDeg) = some .ninety ↔
        ¬LegalAt authority sheet paths .zero ∧ LegalAt authority sheet paths .ninety) ∧
      (∀ chosen, selectTerminalOrientation authority state sheet = some chosen →
        chosen.canonicalHash = layoutHash authority paths) ∧
      ((requestedSheetFit authority sheet state).selectedRotationDeg =
          (selectTerminalOrientation authority state sheet).map (·.rotationDeg) ∧
        (requestedSheetFit authority sheet state).selectedCanonicalGeometryHash =
          (selectTerminalOrientation authority state sheet).map (·.canonicalHash) ∧
        (requestedSheetFit authority sheet state).selectedPlacedCollisionGeometries =
          ((selectTerminalOrientation authority state sheet).map
            (·.state.placedCollisionGeometries)).getD []) ∧
      ∀ (input : MaterializeIntrinsicCapacityEndpointInput heap π) cache endpoint,
        input.sheet = sheet → input.state = state → state.placementOrder ≠ [] →
        (materializeIntrinsicCapacityEndpoint authority input cache).1 = some endpoint →
        ∃ chosen, selectTerminalOrientation authority state sheet = some chosen ∧
          endpoint.selectedRotationDeg.terminal = chosen.rotationDeg ∧
          endpoint.canonicalGeometryHash = chosen.canonicalHash ∧
          endpoint.placedCollisionGeometries = chosen.state.placedCollisionGeometries := by
  have hcases := selectTerminalOrientation_cases hauthority h sheet
  refine ⟨?_, ?_, ?_, requestedSheetFit_selected hauthority h sheet, ?_⟩
  · rcases hcases with ⟨hlegal, _, hchosen⟩ | ⟨hillegal, _, _, hchosen⟩ | ⟨hillegal, _, hchosen⟩
    · simp [hchosen, hlegal]
    · simp [hchosen, hillegal]
    · simp [hchosen, hillegal]
  · rcases hcases with ⟨hlegal, _, hchosen⟩ | ⟨hillegal, hlegal, _, hchosen⟩ |
      ⟨hillegal, hillegal', hchosen⟩
    · simp [hchosen, hlegal]
    · simp [hchosen, hillegal, hlegal]
    · simp [hchosen, hillegal']
  · intro chosen hselected
    rcases hcases with ⟨_, _, hchosen⟩ | ⟨_, _, _, hchosen⟩ | ⟨_, _, hchosen⟩
    · rw [← Option.some.inj (hchosen.symm.trans hselected)]
    · rw [← Option.some.inj (hchosen.symm.trans hselected)]
    · rw [hchosen] at hselected
      cases hselected
  · rintro input cache endpoint rfl rfl hplaced hendpoint
    obtain ⟨selected, hselected, hrotation, hhash, hpieces⟩ :=
      selected_of_materialize hplaced hendpoint
    refine ⟨⟨selected.oriented, selected.rotationDeg.terminal, selected.hash⟩, ?_, ?_, hhash,
      hpieces⟩
    · rw [← selectedOrientation_map hauthority h, hselected]
      rfl
    · rw [hrotation]

/-! ## §5  The choice and rigid motions -/

theorem legalAt_iff (hrigid : RigidVerdict (overlapsBy authority.intersection))
    (hstrict : StrictPaths K paths) (hne : paths.flatten ≠ []) {sheet : SheetSpec K}
    {turn : IrregularQuarterTurnDegrees} :
    LegalAt authority sheet paths turn ↔
      ∃ width height, toGridMm sheet.width = some width ∧ toGridMm sheet.height = some height ∧
        ((turnExtents turn (extents paths.flatten)).x ≤ width ∧
          (turnExtents turn (extents paths.flatten)).y ≤ height) ∧
        Apart (overlapsBy authority.intersection) paths := by
  unfold LegalAt
  simp only [legalPaths_anchored_iff hrigid
    (fun path hpath => isStrictPath_of_strict (hstrict path hpath)) hne turn]

/-- Some orientation of the layout is legal on the sheet. -/
def FitsSomehow (authority : LayoutAuthority heap) (sheet : SheetSpec K)
    (paths : List CanonicalGridPath) : Prop := ∃ turn, LegalAt authority sheet paths turn

theorem flatten_moved_ne_nil (hne : paths.flatten ≠ []) (turn : IrregularQuarterTurnDegrees)
    (offset : CanonicalGridPoint) : (moved turn offset paths).flatten ≠ [] := by
  rw [flatten_moved]
  simpa using hne

/-- **A motion of the whole layout changes nothing.** -/
theorem fitsSomehow_moved (hrigid : RigidVerdict (overlapsBy authority.intersection))
    (hstrict : StrictPaths K paths) (hne : paths.flatten ≠ []) (sheet : SheetSpec K)
    (turn : IrregularQuarterTurnDegrees) (offset : CanonicalGridPoint) :
    FitsSomehow authority sheet (moved turn offset paths) ↔
      FitsSomehow authority sheet paths := by
  have hne' := flatten_moved_ne_nil hne turn offset
  have hlegal : ∀ turn', LegalAt authority sheet (moved turn offset paths) turn' ↔
      ∃ width height, toGridMm sheet.width = some width ∧ toGridMm sheet.height = some height ∧
        ((turnExtents turn' (turnExtents turn (extents paths.flatten))).x ≤ width ∧
          (turnExtents turn' (turnExtents turn (extents paths.flatten))).y ≤ height) ∧
        Apart (overlapsBy authority.intersection) paths := by
    intro turn'
    rw [legalAt_iff hrigid (hstrict.moved turn offset) hne', flatten_moved, extents_move hne,
      apart_move hrigid (fun path hpath => isStrictPath_of_strict (hstrict path hpath))]
  unfold FitsSomehow
  rw [exists_turn_iff, exists_turn_iff, hlegal, hlegal, legalAt_iff hrigid hstrict hne,
    legalAt_iff hrigid hstrict hne]
  cases turn with
  | zero => exact Iff.rfl
  | ninety => exact or_comm

/-- Any quarter turn is a few turns by ninety degrees. -/
theorem exists_iterate_turned (turn : QuarterTurn) (paths : List CanonicalGridPath) :
    ∃ n, turned turn paths = (moved .ninety ⟨0, 0⟩)^[n] paths := by
  have hninety : ∀ others, moved .ninety ⟨0, 0⟩ others = turned .ninety others :=
    fun others => (turned_eq_moved .ninety others).symm
  cases turn with
  | zero => exact ⟨0, by unfold turned; simp [rotateGridPoint]⟩
  | ninety => exact ⟨1, turned_eq_moved .ninety paths⟩
  | oneEighty =>
      refine ⟨2, ?_⟩
      rw [Function.iterate_succ_apply', Function.iterate_one, hninety, hninety]
      exact (turned_turned .ninety .ninety paths).symm
  | twoSeventy =>
      refine ⟨3, ?_⟩
      rw [Function.iterate_succ_apply', Function.iterate_succ_apply', Function.iterate_one, hninety,
        hninety, hninety, turned_turned .ninety .ninety paths]
      exact (turned_turned .oneEighty .ninety paths).symm

theorem fitsSomehow_translated_turned
    (hrigid : RigidVerdict (overlapsBy authority.intersection)) (hstrict : StrictPaths K paths)
    (hne : paths.flatten ≠ []) (sheet : SheetSpec K) (turn : QuarterTurn) (dx dy : ℤ) :
    FitsSomehow authority sheet (translated dx dy (turned turn paths)) ↔
      FitsSomehow authority sheet paths := by
  have hiterate : ∀ n, StrictPaths K ((moved .ninety ⟨0, 0⟩)^[n] paths) ∧
      ((moved .ninety ⟨0, 0⟩)^[n] paths).flatten ≠ [] ∧
      (FitsSomehow authority sheet ((moved .ninety ⟨0, 0⟩)^[n] paths) ↔
        FitsSomehow authority sheet paths) := by
    intro n
    induction n with
    | zero => exact ⟨hstrict, hne, Iff.rfl⟩
    | succ n ih =>
        obtain ⟨hstrict', hne', hfits⟩ := ih
        rw [Function.iterate_succ_apply']
        exact ⟨hstrict'.moved _ _, flatten_moved_ne_nil hne' _ _,
          (fitsSomehow_moved hrigid hstrict' hne' sheet _ _).trans hfits⟩
  obtain ⟨n, hn⟩ := exists_iterate_turned turn paths
  obtain ⟨hstrict', hne', hfits⟩ := hiterate n
  rw [hn]
  exact (fitsSomehow_moved hrigid hstrict' hne' sheet .zero ⟨dx, dy⟩).trans hfits

/-- The selected hash: that of the layout, if some orientation is legal. -/
theorem selectedHash_eq_some_iff (hauthority : authority.Exact) (h : GridState state paths)
    (sheet : SheetSpec K) {hash : String} :
    (selectTerminalOrientation authority state sheet).map (·.canonicalHash) = some hash ↔
      FitsSomehow authority sheet paths ∧ hash = layoutHash authority paths := by
  rcases selectTerminalOrientation_cases hauthority h sheet with
    ⟨hlegal, _, hchosen⟩ | ⟨_, hlegal, _, hchosen⟩ | ⟨hillegal, hillegal', hchosen⟩
  · rw [hchosen, Option.map_some, Option.some.injEq, eq_comm]
    exact (and_iff_right ⟨_, hlegal⟩).symm
  · rw [hchosen, Option.map_some, Option.some.injEq, eq_comm]
    exact (and_iff_right ⟨_, hlegal⟩).symm
  · rw [hchosen]
    exact ⟨fun hnone => (nomatch hnone), fun hfits =>
      absurd (exists_turn_iff.1 hfits.1) (not_or.2 ⟨hillegal, hillegal'⟩)⟩

theorem fits_iff (hauthority : authority.Exact) (h : GridState state paths)
    (sheet : SheetSpec K) (turn : IrregularQuarterTurnDegrees) :
    (fitOrientation authority sheet state turn.terminal).fits = true ↔
      LegalAt authority sheet paths turn := by
  obtain ⟨hlegal, hillegal⟩ := terminalOrientation_spec hauthority h sheet turn
  rw [fitOrientation_eq]
  by_cases hturn : LegalAt authority sheet paths turn
  · obtain ⟨_, horiented⟩ := hlegal hturn
    rw [horiented]
    exact iff_of_true rfl hturn
  · rw [hillegal hturn]
    exact iff_of_false Bool.false_ne_true hturn

/-- Turning the layout is turning the sheet. -/
theorem legalAt_ninety_iff (hrigid : RigidVerdict (overlapsBy authority.intersection))
    (hstrict : StrictPaths K paths) (hrings : Rings paths) (width height : K)
    (label label' : String) :
    LegalAt authority ⟨width, height, label⟩ paths .ninety ↔
      LegalAt authority ⟨height, width, label'⟩ paths .zero := by
  by_cases hne : paths = []
  · have hnil : ∀ turn : IrregularQuarterTurnDegrees,
        anchored (turned turn.quarterTurn paths) = [] := by
      rw [hne]
      exact fun _ => rfl
    unfold LegalAt
    rw [hnil, hnil]
    constructor
    · rintro ⟨w, t, hw, ht, -⟩
      exact ⟨t, w, ht, hw, fun path hpath => absurd hpath List.not_mem_nil, .nil⟩
    · rintro ⟨t, w, ht, hw, -⟩
      exact ⟨w, t, hw, ht, fun path hpath => absurd hpath List.not_mem_nil, .nil⟩
  · have hflat := flatten_ne_nil hrings hne
    rw [legalAt_iff hrigid hstrict hflat, legalAt_iff hrigid hstrict hflat]
    constructor
    · rintro ⟨w, t, hw, ht, ⟨hx, hy⟩, hapart⟩
      exact ⟨t, w, ht, hw, ⟨hy, hx⟩, hapart⟩
    · rintro ⟨t, w, ht, hw, ⟨hx, hy⟩, hapart⟩
      exact ⟨w, t, hw, ht, ⟨hy, hx⟩, hapart⟩

/-- **The choice does not depend on where the layout stands and how it is turned.**  If rigid
motions change no verdict about an overlap, a layout and its image under any translation and any
quarter turn get the same hash on a sheet, or both get none; and the turned orientation is legal
on a sheet exactly when the upright one is on the turned sheet. -/
theorem selectTerminalOrientation_invariant (hauthority : authority.Exact)
    (hrigid : RigidVerdict (overlapsBy authority.intersection)) (h : GridState state paths)
    {state' : IrregularBeamState heap π} {turn : QuarterTurn} {dx dy : ℤ}
    (h' : GridState state' (translated dx dy (turned turn paths))) :
    (∀ sheet, (selectTerminalOrientation authority state' sheet).map (·.canonicalHash) =
        (selectTerminalOrientation authority state sheet).map (·.canonicalHash)) ∧
      ∀ width height label label',
        (requestedSheetFit authority ⟨width, height, label⟩ state).q90.fits =
          (requestedSheetFit authority ⟨height, width, label'⟩ state).q0.fits := by
  constructor
  · intro sheet
    have hhash : layoutHash authority (translated dx dy (turned turn paths)) =
        layoutHash authority paths := by
      have hsame : SameLayout (translated dx dy (turned turn paths)) paths :=
        ((SameLayout.turn turn paths).trans (.translate dx dy _)).symm
      unfold layoutHash
      rw [(smallestIdentity_eq_iff h'.layout.rings h.layout.rings).2 hsame]
    have hfits : FitsSomehow authority sheet (translated dx dy (turned turn paths)) ↔
        FitsSomehow authority sheet paths := by
      by_cases hne : paths = []
      · rw [hne]
        exact Iff.rfl
      · exact fitsSomehow_translated_turned hrigid h.layout.strict
          (flatten_ne_nil h.layout.rings hne) sheet turn dx dy
    refine Option.ext fun hash => ?_
    rw [selectedHash_eq_some_iff hauthority h' sheet, selectedHash_eq_some_iff hauthority h sheet,
      hfits, hhash]
  · intro width height label label'
    rw [Bool.eq_iff_iff]
    show (fitOrientation authority ⟨width, height, label⟩ state
        IrregularQuarterTurnDegrees.ninety.terminal).fits = true ↔
      (fitOrientation authority ⟨height, width, label'⟩ state
        IrregularQuarterTurnDegrees.zero.terminal).fits = true
    rw [fits_iff hauthority h, fits_iff hauthority h]
    exact legalAt_ninety_iff hrigid h.layout.strict h.layout.rings width height label label'

/-! ## §6  A square on a sheet -/

section SquareOnSheet

attribute [local instance] Caches.fractionTexts Caches.exactFractions

instance countablePieceId : Countable PieceId :=
  Function.Injective.countable (f := fun id : String => id.toList.map Char.toNat)
    fun _ _ h =>
      String.ext (List.map_injective_iff.2 (fun _ _ hch => Char.toNat_inj.1 hch) h)

deriving instance Countable for IrregularPoint
deriving instance Countable for IrregularPolygon
deriving instance Countable for IrregularBounds
deriving instance Countable for IrregularTransform
deriving instance Countable for IrregularTransformReason
deriving instance Countable for IrregularTransformCandidate
deriving instance Countable for IrregularPlacement
deriving instance Countable for TransformedCollisionGeometry
deriving instance Countable for IrregularPlacedPiece

/-- There are as many addresses as pieces. -/
theorem exists_heap :
    ∃ heap : ℕ → IrregularPlacedPiece ℚ, ∃ address : IrregularPlacedPiece ℚ → ℕ,
      ∀ piece, heap (address piece) = piece := by
  have : Nonempty (IrregularPlacedPiece ℚ) := ⟨squarePlacedAt 0⟩
  obtain ⟨heap, hheap⟩ := exists_surjective_nat (IrregularPlacedPiece ℚ)
  exact ⟨heap, Function.surjInv hheap, Function.surjInv_eq hheap⟩

/-- A heap with room for every piece. -/
noncomputable def everyPiece : ℕ → IrregularPlacedPiece ℚ := exists_heap.choose

noncomputable def newArc (piece : IrregularPlacedPiece ℚ) : PlacedArc everyPiece :=
  ⟨exists_heap.choose_spec.choose piece⟩

theorem piece_newArc (piece : IrregularPlacedPiece ℚ) : (newArc piece).piece = piece :=
  exists_heap.choose_spec.choose_spec piece

open Classical in
/-- An intersection that has a path with an area exactly for overlapping rings. -/
noncomputable def exactIntersection (first second : CanonicalGridPath) :
    List CanonicalGridPath := if sharesGridArea first second then [first] else []

theorem overlapsBy_exactIntersection {first second : CanonicalGridPath}
    (h : IsStrictPath first) :
    overlapsBy exactIntersection first second ↔ sharesGridArea first second := by
  unfold overlapsBy exactIntersection
  split
  · next hshares =>
      exact iff_of_true ⟨first, List.mem_singleton_self first, abs_ne_zero.2 h.area_ne_zero⟩
        hshares
  · next hshares => simp [hshares]

theorem rigidVerdict_exactIntersection : RigidVerdict (overlapsBy exactIntersection) := by
  intro turn offset first second hfirst hsecond
  rw [overlapsBy_exactIntersection (hfirst.move turn offset),
    overlapsBy_exactIntersection hfirst]
  exact rigidVerdict_sharesGridArea turn offset first second hfirst hsecond

/-- The authority of a square of one millimetre. -/
noncomputable def squareAuthority : LayoutAuthority everyPiece where
  alloc := newArc
  intersection := exactIntersection
  canonicalCollisionLayoutIdentity := canonicalCollisionLayoutIdentity
  measureCanonicalLayoutEnvelope _ := some ⟨1, 1, 2, 1000, 2000, 1000000⟩
  measureCanonicalEnclosedCavities _ := some noCavities
  sha256Hex text := text
  localeCompareKeys := localeCompareKeys

theorem squareAuthority_exact : squareAuthority.Exact where
  alloc := piece_newArc
  identity := rfl
  locale text := show localeCompareKeys text text = .eq from Std.ReflCmp.compare_self

def uprightPath : CanonicalGridPath := [⟨5000, 0⟩, ⟨6000, 0⟩, ⟨6000, 1000⟩, ⟨5000, 1000⟩]

/-- The square stands five millimetres to the right. -/
noncomputable def uprightState : IrregularBeamState everyPiece PieceId :=
  (IrregularBeamState.empty []).withPlacement [] (newArc (squarePlacedAt 5)) "square"

theorem gridState_single {piece : IrregularPlacedPiece ℚ} {path : CanonicalGridPath}
    (honGrid : PolygonOnGrid piece path)
    (hstrict : IsStrictRing (path.map (Caches.gridPointMm (F := ℚ))) 1) :
    GridState ((IrregularBeamState.empty ([] : List PieceId)).withPlacement [] (newArc piece)
      "square") [path] where
  layout := ⟨.cons ((piece_newArc piece).symm ▸ honGrid) .nil,
    List.forall_mem_singleton.2 ⟨1, hstrict⟩⟩
  bounds := rfl

theorem gridState_square : GridState uprightState [uprightPath] :=
  gridState_single (by unfold PolygonOnGrid; decide +kernel)
    (validateStrictBoundary_eq_valid_iff.1 (by decide +kernel))

def roomySheet : SheetSpec ℚ := ⟨2, 1, "roomy"⟩

theorem legalAt_square : LegalAt squareAuthority roomySheet [uprightPath] .zero := by
  refine ⟨2000, 1000, by decide +kernel, by decide +kernel, ?_, List.pairwise_singleton _ _⟩
  refine List.forall_mem_singleton.2 ?_
  unfold InBox
  decide +kernel

theorem terminalOrientations_agree_square :
    (selectTerminalOrientation squareAuthority uprightState roomySheet).map (·.rotationDeg) =
      some .zero :=
  (terminalOrientations_agree squareAuthority_exact gridState_square roomySheet).1.2
    legalAt_square

/-- The square again, a quarter turn back and elsewhere. -/
def turnedBackSquare : IrregularPlacedPiece ℚ where
  placement := ⟨none, "square", none, ⟨5, 0, 270, false⟩⟩
  collisionGeometry := ⟨"square", ⟨0, 270, false, .orthogonal⟩,
    ⟨[⟨0, 1⟩, ⟨0, 0⟩, ⟨1, 0⟩, ⟨1, 1⟩]⟩, ⟨0, 0, 1, 1⟩⟩

def turnedBackPath : CanonicalGridPath := [⟨5000, 1000⟩, ⟨5000, 0⟩, ⟨6000, 0⟩, ⟨6000, 1000⟩]

noncomputable def turnedBackState : IrregularBeamState everyPiece PieceId :=
  (IrregularBeamState.empty []).withPlacement [] (newArc turnedBackSquare) "square"

theorem gridState_turnedBack : GridState turnedBackState [turnedBackPath] :=
  gridState_single (by unfold PolygonOnGrid; decide +kernel)
    (validateStrictBoundary_eq_valid_iff.1 (by decide +kernel))

theorem selectTerminalOrientation_invariant_square :
    (selectTerminalOrientation squareAuthority uprightState roomySheet).map (·.canonicalHash) =
      (selectTerminalOrientation squareAuthority turnedBackState roomySheet).map
        (·.canonicalHash) :=
  have hmoved : translated 6000 (-5000) (turned .ninety [turnedBackPath]) = [uprightPath] := by
    decide
  (selectTerminalOrientation_invariant squareAuthority_exact rigidVerdict_exactIntersection
    gridState_turnedBack (hmoved ▸ gridState_square)).1 roomySheet

end SquareOnSheet

end PolygonNesting
