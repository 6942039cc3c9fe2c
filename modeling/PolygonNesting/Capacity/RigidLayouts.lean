import PolygonNesting.Canonical.RigidMotion
import PolygonNesting.Capacity.Endpoint
import PolygonNesting.Capacity.PreflightLayouts

/-!
# Layouts on the grid, moved rigidly

In exact arithmetic a layout whose polygons lie on the canonical grid is anchored and turned there
like its paths: it is never lost, its paths are those of the anchored turned layout, and its
legality is that of its paths.
-/

set_option linter.unusedSectionVars false

namespace PolygonNesting

variable {K : Type} [Field K] [LinearOrder K] [IsStrictOrderedRing K] [FloorRing K]
  [NumberTexts K] {heap : ℕ → IrregularPlacedPiece K} {π : Type}

/-! ## §1  Polygons on the grid -/

/-- The polygon of a placed piece lies on the grid, along a path. -/
def PolygonOnGrid (entry : IrregularPlacedPiece K) (path : CanonicalGridPath) : Prop :=
  entry.collisionGeometry.polygon.points.map (translatePoint (placedTranslation entry)) =
    path.map Caches.gridPointMm

theorem fromGrid_add (a b : ℤ) : (fromGrid (a + b) : K) = fromGrid a + fromGrid b := by
  rw [fromGrid_eq, fromGrid_eq, fromGrid_eq]
  push_cast
  ring

theorem fromGrid_neg (a : ℤ) : (fromGrid (-a) : K) = -fromGrid a := by
  rw [fromGrid_eq, fromGrid_eq]
  push_cast
  ring

theorem fromGrid_sub (a b : ℤ) : (fromGrid (a - b) : K) = fromGrid a - fromGrid b := by
  rw [sub_eq_add_neg, fromGrid_add, fromGrid_neg, sub_eq_add_neg]

theorem fromGrid_le {a b : ℤ} : (fromGrid a : K) ≤ fromGrid b ↔ a ≤ b := by
  rw [fromGrid_eq, fromGrid_eq, div_le_div_iff_of_pos_right (by norm_num)]
  exact Int.cast_le

theorem fromGrid_mono : Monotone (fromGrid : ℤ → K) := fun _ _ h => fromGrid_le.2 h

theorem fromGrid_eq_zero_iff {a : ℤ} : (fromGrid a : K) = 0 ↔ a = 0 := by
  rw [fromGrid_eq, div_eq_zero_iff, Int.cast_eq_zero]
  norm_num

theorem fromGrid_zero : (fromGrid 0 : K) = 0 := by
  rw [fromGrid_eq]
  simp

/-- Safe integers on both axes. -/
def SafePoint (p : CanonicalGridPoint) : Prop := |p.x| ≤ maxSafeInteger ∧ |p.y| ≤ maxSafeInteger

theorem eq_of_toGridMm_fromGrid {g w : ℤ} (h : toGridMm (fromGrid g : K) = some w) : w = g := by
  have hunits := units_of_toGridMm h
  have habs : |(fromGrid g : K)| * 1000 = ((|g| : ℤ) : K) := by
    rw [fromGrid_eq, abs_div, abs_of_pos (show (0 : K) < 1000 by norm_num),
      div_mul_cancel₀ _ (by norm_num), Int.cast_abs]
  have hhalf : ⌊(1 / 2 : K)⌋ = 0 := by norm_num
  rw [habs, Int.floor_intCast_add, hhalf, add_zero] at hunits
  rcases lt_trichotomy g 0 with hneg | rfl | hpos
  · have hlt : (fromGrid g : K) < 0 := by
      rw [← fromGrid_zero]
      exact lt_of_not_ge fun hle => absurd (fromGrid_le.1 hle) (not_le.2 hneg)
    rw [hunits, signInt_of_neg hlt, abs_of_neg hneg]
    ring
  · rw [hunits, abs_zero, mul_zero]
  · have hlt : (0 : K) < fromGrid g := by
      rw [← fromGrid_zero]
      exact lt_of_not_ge fun hle => absurd (fromGrid_le.1 hle) (not_le.2 hpos)
    rw [hunits, signInt_of_pos hlt, abs_of_pos hpos, one_mul]

theorem toGridMm_fromGrid_eq_some_iff {g w : ℤ} :
    toGridMm (fromGrid g : K) = some w ↔ w = g ∧ |g| ≤ maxSafeInteger := by
  constructor
  · intro h
    obtain rfl := eq_of_toGridMm_fromGrid h
    exact ⟨rfl, abs_le_of_toGridMm h⟩
  · rintro ⟨rfl, hsafe⟩
    exact toGridMm_fromGrid hsafe

/-- The rounded place of a point. -/
def roundPoint (point : IrregularPoint K) : Option CanonicalGridPoint := do
  let x ← toGridMm point.x
  let y ← toGridMm point.y
  some ⟨x, y⟩

theorem roundPoint_eq_some_iff {p q : CanonicalGridPoint} :
    roundPoint (Caches.gridPointMm (F := K) p) = some q ↔ q = p ∧ SafePoint p := by
  simp only [roundPoint, Caches.gridPointMm, Option.bind_eq_bind, Option.bind_eq_some_iff,
    toGridMm_fromGrid_eq_some_iff, Option.some.injEq]
  constructor
  · rintro ⟨x, ⟨rfl, hx⟩, y, ⟨rfl, hy⟩, rfl⟩
    exact ⟨rfl, hx, hy⟩
  · rintro ⟨rfl, hx, hy⟩
    exact ⟨_, ⟨rfl, hx⟩, _, ⟨rfl, hy⟩, rfl⟩

namespace PolygonOnGrid

variable {entry : IrregularPlacedPiece K} {path : CanonicalGridPath}

theorem length_eq (h : PolygonOnGrid entry path) :
    entry.collisionGeometry.polygon.points.length = path.length := by
  have hlength := congrArg List.length h
  rwa [List.length_map, List.length_map] at hlength

/-- **The world path of a polygon on the grid** is its path, if it is safe. -/
theorem world_eq_some_iff (h : PolygonOnGrid entry path) {world : CanonicalGridPath} :
    placedCollisionWorldGridPath entry = some world ↔
      world = path ∧ 3 ≤ path.length ∧ ∀ p ∈ path, SafePoint p := by
  have hrounded : entry.collisionGeometry.polygon.points.mapM
      (roundPoint ∘ translatePoint (placedTranslation entry)) =
        path.mapM (roundPoint ∘ Caches.gridPointMm (F := K)) := by
    rw [← List.mapM_map, ← List.mapM_map, h]
  unfold placedCollisionWorldGridPath
  change (if _ < 3 then none else List.mapM (roundPoint ∘ translatePoint (placedTranslation entry))
    entry.collisionGeometry.polygon.points) = some world ↔ _
  rw [h.length_eq, hrounded]
  constructor
  · intro hworld
    split at hworld
    · cases hworld
    · next hlength =>
        have hall := (option_mapM_forall₂ hworld).imp fun p q hp => roundPoint_eq_some_iff.1 hp
        have heq : world = path := by
          rw [← List.forall₂_eq_eq_eq]
          exact (hall.imp fun p q hp => hp.1).flip
        refine ⟨heq, not_lt.1 hlength, fun p hp => ?_⟩
        obtain ⟨q, -, -, hsafe⟩ := forall₂_exists hall p hp
        exact hsafe
  · rintro ⟨rfl, hlength, hsafe⟩
    rw [if_neg (not_lt.2 hlength)]
    have hsome := option_mapM_some (g := fun p : CanonicalGridPoint => p) (l := world)
      fun p hp => roundPoint_eq_some_iff (K := K).2 ⟨rfl, hsafe p hp⟩
    rwa [List.map_id'] at hsome

end PolygonOnGrid

/-! ## §2  Bounds -/

/-- The bounds of points between two corners. -/
def gridBounds (lower upper : CanonicalGridPoint) : IrregularCollisionBounds K :=
  ⟨fromGrid lower.x, fromGrid lower.y, fromGrid upper.x, fromGrid upper.y,
    fromGrid (upper.x - lower.x), fromGrid (upper.y - lower.y)⟩

theorem finiteCollisionBounds_grid (lower upper : CanonicalGridPoint) :
    finiteCollisionBounds (fromGrid lower.x : K) (fromGrid lower.y) (fromGrid upper.x)
      (fromGrid upper.y) = some (gridBounds lower upper) := by
  unfold finiteCollisionBounds gridBounds
  rw [fromGrid_sub, fromGrid_sub]
  rfl

theorem foldl_extendBounds_grid (rest : CanonicalGridPath) :
    ∀ minX minY maxX maxY : ℤ, (rest.map (Caches.gridPointMm (F := K))).foldl extendBounds
      ⟨fromGrid minX, fromGrid minY, fromGrid maxX, fromGrid maxY⟩ =
        ⟨fromGrid (rest.foldl (fun least point => min least point.x) minX),
          fromGrid (rest.foldl (fun least point => min least point.y) minY),
          fromGrid (rest.foldl (fun greatest point => max greatest point.x) maxX),
          fromGrid (rest.foldl (fun greatest point => max greatest point.y) maxY)⟩ := by
  induction rest with
  | nil => exact fun _ _ _ _ => rfl
  | cons point rest ih =>
      intro minX minY maxX maxY
      rw [List.map_cons, List.foldl_cons, List.foldl_cons, List.foldl_cons, List.foldl_cons,
        List.foldl_cons, ← ih]
      unfold extendBounds Caches.gridPointMm
      rw [fromGrid_mono.map_min, fromGrid_mono.map_min, fromGrid_mono.map_max,
        fromGrid_mono.map_max]

theorem PolygonOnGrid.bounds {entry : IrregularPlacedPiece K} {path : CanonicalGridPath}
    (h : PolygonOnGrid entry path) (hne : path ≠ []) :
    derivePlacedCollisionBounds entry = some (gridBounds (lowerLeft path) (upperRight path)) := by
  obtain ⟨first, rest, rfl⟩ := List.exists_cons_of_ne_nil hne
  unfold derivePlacedCollisionBounds
  rw [h, List.map_cons]
  dsimp only
  have hfinite : (Caches.gridPointMm (F := K) first :: rest.map Caches.gridPointMm).all
      isFinitePoint = true := List.all_eq_true.2 fun _ _ => rfl
  rw [if_pos hfinite]
  have hfold := foldl_extendBounds_grid (K := K) rest first.x first.y first.x first.y
  rw [show (⟨(Caches.gridPointMm (F := K) first).x, (Caches.gridPointMm first).y,
    (Caches.gridPointMm first).x, (Caches.gridPointMm first).y⟩ : IrregularBounds K) =
      ⟨fromGrid first.x, fromGrid first.y, fromGrid first.x, fromGrid first.y⟩ from rfl, hfold]
  exact finiteCollisionBounds_grid (lowerLeft (first :: rest)) (upperRight (first :: rest))

theorem unionCollisionBounds_grid (lower upper lower' upper' : CanonicalGridPoint) :
    unionCollisionBounds (gridBounds lower upper : IrregularCollisionBounds K)
      (gridBounds lower' upper') =
        some (gridBounds ⟨min lower.x lower'.x, min lower.y lower'.y⟩
          ⟨max upper.x upper'.x, max upper.y upper'.y⟩) := by
  unfold unionCollisionBounds
  rw [← finiteCollisionBounds_grid]
  unfold gridBounds
  rw [fromGrid_mono.map_min, fromGrid_mono.map_min, fromGrid_mono.map_max,
    fromGrid_mono.map_max]

/-- The paths are strict rings, measured in millimetres. -/
def StrictPaths (K : Type) [Field K] [LinearOrder K] [IsStrictOrderedRing K] [FloorRing K]
    [NumberTexts K] (paths : List CanonicalGridPath) : Prop :=
  ∀ path ∈ paths, ∃ w, IsStrictRing (path.map (Caches.gridPointMm (F := K))) w

/-- Every polygon of a layout lies on the grid and is a strict ring there. -/
structure GridLayout (placed : List (PlacedArc heap)) (paths : List CanonicalGridPath) :
    Prop where
  onGrid : List.Forall₂ (fun arc path => PolygonOnGrid arc.piece path) placed paths
  strict : StrictPaths K paths

namespace GridLayout

variable {placed : List (PlacedArc heap)} {paths : List CanonicalGridPath}

theorem three_le (h : GridLayout placed paths) : ∀ path ∈ paths, 3 ≤ path.length := by
  intro path hpath
  obtain ⟨w, hw⟩ := h.strict path hpath
  have hlength := hw.length
  rwa [List.length_map] at hlength

theorem rings (h : GridLayout placed paths) : Rings paths := by
  rintro path hpath rfl
  have hlength := h.three_le [] hpath
  simp at hlength

theorem flatten_ne_nil (h : GridLayout placed paths) (hne : placed ≠ []) :
    paths.flatten ≠ [] := by
  refine PolygonNesting.flatten_ne_nil h.rings fun hnil => hne ?_
  have honGrid := h.onGrid
  rw [hnil] at honGrid
  exact List.forall₂_nil_right_iff.1 honGrid

theorem paths_eq_nil (h : GridLayout placed paths) (hnil : placed = []) : paths = [] := by
  have honGrid := h.onGrid
  rw [hnil] at honGrid
  exact List.forall₂_nil_left_iff.1 honGrid

/-- The bounds grow piece by piece. -/
theorem foldl_bounds {rest : List (PlacedArc heap)} {restPaths : List CanonicalGridPath}
    (h : List.Forall₂ (fun arc path => PolygonOnGrid arc.piece path) rest restPaths) :
    Rings restPaths → ∀ points : List CanonicalGridPoint, points ≠ [] →
      rest.foldl (fun bounds arc => extendCollisionBounds bounds arc.piece)
          (some (gridBounds (lowerLeft points) (upperRight points))) =
        some (gridBounds (lowerLeft (points ++ restPaths.flatten))
          (upperRight (points ++ restPaths.flatten))) := by
  induction h with
  | nil =>
      intro _ points _
      rw [List.flatten_nil, List.append_nil]
      rfl
  | @cons arc path rest restPaths harc _ ih =>
      intro hrings points hne
      obtain ⟨hpath, hrest⟩ := List.forall_mem_cons.1 hrings
      have hstep := ih hrest (points ++ path) (List.append_ne_nil_of_left_ne_nil hne path)
      rw [lowerLeft_append hne hpath, upperRight_append hne hpath, List.append_assoc,
        ← unionCollisionBounds_grid] at hstep
      rw [List.foldl_cons, List.flatten_cons, ← hstep]
      unfold extendCollisionBounds
      rw [harc.bounds hpath]
      rfl

/-- **The bounds of a layout** are the corners of its points. -/
theorem bounds (h : GridLayout placed paths) (hne : placed ≠ []) :
    deriveCollisionBounds placed =
      some (gridBounds (lowerLeft paths.flatten) (upperRight paths.flatten)) := by
  have hrings := h.rings
  cases h.onGrid with
  | nil => exact absurd rfl hne
  | cons harc hrest =>
      obtain ⟨hpath, hrings⟩ := List.forall_mem_cons.1 hrings
      show List.foldl _ _ _ = _
      rw [harc.bounds hpath, foldl_bounds hrest hrings _ hpath, List.flatten_cons]

end GridLayout

/-! ## §3  Moved pieces -/

theorem gridPointMm_translate (dx dy : ℤ) (p : CanonicalGridPoint) :
    Caches.gridPointMm (F := K) (translateGridPoint dx dy p) =
      translatePoint ⟨fromGrid dx, fromGrid dy⟩ (Caches.gridPointMm p) := by
  unfold Caches.gridPointMm translateGridPoint translatePoint
  rw [fromGrid_add, fromGrid_add]

theorem rotate_translatePoint (turn : IrregularQuarterTurnDegrees)
    (translation point : IrregularPoint K) :
    translatePoint (rotateQuarterTurnPoint translation turn) (rotateQuarterTurnPoint point turn) =
      rotateQuarterTurnPoint (translatePoint translation point) turn := by
  cases turn with
  | zero => rfl
  | ninety =>
    unfold translatePoint rotateQuarterTurnPoint
    rw [neg_add]

namespace PolygonOnGrid

variable {entry : IrregularPlacedPiece K} {path : CanonicalGridPath}

theorem shift (h : PolygonOnGrid entry path) (dx dy : ℤ) :
    ∃ entry', shiftPlaced (fromGrid dx) (fromGrid dy) entry = some entry' ∧
      PolygonOnGrid entry' (path.map (translateGridPoint dx dy)) := by
  refine ⟨_, rfl, ?_⟩
  have hpath : (path.map (translateGridPoint dx dy)).map (Caches.gridPointMm (F := K)) =
      (path.map Caches.gridPointMm).map (translatePoint ⟨fromGrid dx, fromGrid dy⟩) := by
    rw [List.map_map, List.map_map]
    exact List.map_congr_left fun p _ => gridPointMm_translate dx dy p
  unfold PolygonOnGrid
  rw [hpath, ← h, List.map_map]
  refine List.map_congr_left fun point _ => ?_
  unfold translatePoint placedTranslation
  rw [Function.comp_apply, add_assoc, add_assoc]

theorem turn (h : PolygonOnGrid entry path) (hne : path ≠ []) (turn : IrregularQuarterTurnDegrees) :
    ∃ entry', turnPlaced turn entry = some entry' ∧
      PolygonOnGrid entry' (path.map (rotateGridPoint · turn.quarterTurn)) := by
  have hpoints : entry.collisionGeometry.polygon.points ≠ [] := by
    intro hnil
    have hlength := h.length_eq
    rw [hnil] at hlength
    exact hne (List.length_eq_zero_iff.1 hlength.symm)
  obtain ⟨first, rest, hpoints⟩ := List.exists_cons_of_ne_nil hpoints
  unfold turnPlaced
  dsimp only
  rw [hpoints]
  refine ⟨_, rfl, ?_⟩
  have hpath : (path.map (rotateGridPoint · turn.quarterTurn)).map (Caches.gridPointMm (F := K)) =
      (path.map Caches.gridPointMm).map (rotateQuarterTurnPoint · turn) := by
    rw [List.map_map, List.map_map]
    refine List.map_congr_left fun p _ => ?_
    rw [Function.comp_apply, Function.comp_apply, rotate_gridPoint, rotateGridPoint_quarterTurn]
  unfold PolygonOnGrid
  rw [hpath, ← h, hpoints, List.map_map, List.map_map]
  exact List.map_congr_left fun point _ => rotate_translatePoint turn _ point

end PolygonOnGrid

/-- A layout whose pieces are moved one by one. -/
theorem exists_mapM_onGrid {alloc : IrregularPlacedPiece K → PlacedArc heap}
    (halloc : ∀ piece, (alloc piece).piece = piece)
    {move : IrregularPlacedPiece K → Option (IrregularPlacedPiece K)}
    {f : CanonicalGridPoint → CanonicalGridPoint} {placed : List (PlacedArc heap)}
    {paths : List CanonicalGridPath}
    (h : List.Forall₂ (fun arc path => PolygonOnGrid arc.piece path) placed paths) :
    (∀ entry, ∀ path ∈ paths, PolygonOnGrid entry path →
      ∃ entry', move entry = some entry' ∧ PolygonOnGrid entry' (path.map f)) →
    ∃ moved, (placed.mapM fun arc => (move arc.piece).map alloc) = some moved ∧
      List.Forall₂ (fun arc path => PolygonOnGrid arc.piece path) moved
        (paths.map fun path => path.map f) := by
  induction h with
  | nil => exact fun _ => ⟨[], rfl, .nil⟩
  | @cons arc path rest restPaths harc _ ih =>
      intro hmove
      obtain ⟨entry', hentry, hpath⟩ := hmove arc.piece path List.mem_cons_self harc
      obtain ⟨moved, hmoved, hall⟩ :=
        ih fun entry path hpath => hmove entry path (List.mem_cons_of_mem _ hpath)
      refine ⟨alloc entry' :: moved, ?_, .cons ?_ hall⟩
      · rw [List.mapM_cons, hentry, hmoved]
        rfl
      · rwa [halloc]

/-! ## §4  Moved states -/

/-- A state whose layout lies on the grid, with the bounds of its pieces. -/
structure GridState (state : IrregularBeamState heap π) (paths : List CanonicalGridPath) : Prop
    where
  layout : GridLayout state.placedCollisionGeometries paths
  bounds : state.translatedCollisionBounds =
    deriveCollisionBounds state.placedCollisionGeometries

/-- A ring on the grid stays strict. -/
theorem isStrictRing_gridPointMm_move {path : CanonicalGridPath} {w : ConvexPolygonWinding}
    (turn : IrregularQuarterTurnDegrees) (offset : CanonicalGridPoint)
    (h : IsStrictRing (path.map (Caches.gridPointMm (F := K))) w) :
    IsStrictRing ((path.map (moveGrid turn offset)).map (Caches.gridPointMm (F := K))) w := by
  rw [List.map_map]
  have hmm : ∀ o a b : CanonicalGridPoint,
      Plane.cross (position (Caches.gridPointMm (F := K) o)) (position (Caches.gridPointMm a))
        (position (Caches.gridPointMm b)) = (gridCross o a b : K) / 1000000 := by
    intro o a b
    unfold Plane.cross position Caches.gridPointMm gridCross
    simp only [fromGrid_eq]
    push_cast
    ring
  refine h.map_congr fun o a b => orientationOf_congr ?_ ?_ <;>
    simp only [Function.comp_apply, hmm, gridCross_moveGrid]

theorem StrictPaths.moved {paths : List CanonicalGridPath} (h : StrictPaths K paths)
    (turn : IrregularQuarterTurnDegrees) (offset : CanonicalGridPoint) :
    StrictPaths K (PolygonNesting.moved turn offset paths) := by
  intro path hpath
  obtain ⟨original, horiginal, rfl⟩ := List.mem_map.1 hpath
  obtain ⟨w, hw⟩ := h original horiginal
  exact ⟨w, isStrictRing_gridPointMm_move turn offset hw⟩

/-- Anchoring a layout that stands at the origin leaves it. -/
theorem anchored_of_lowerLeft {paths : List CanonicalGridPath}
    (h : lowerLeft paths.flatten = ⟨0, 0⟩) : anchored paths = paths := by
  rw [anchored_eq_translated, h]
  unfold translated
  have hid : ∀ path : CanonicalGridPath, path.map (translateGridPoint (-0) (-0)) = path := by
    intro path
    unfold translateGridPoint
    simp
  simp only [hid, List.map_id']

namespace GridState

variable {state : IrregularBeamState heap π} {paths : List CanonicalGridPath}
  {alloc : IrregularPlacedPiece K → PlacedArc heap}

/-- The corners of an anchored layout. -/
theorem corners_anchored (hne : paths.flatten ≠ []) :
    lowerLeft (anchored paths).flatten = ⟨0, 0⟩ ∧
      upperRight (anchored paths).flatten = extents paths.flatten := by
  have hframed := (framed_anchoring hne .zero).corners
  have heq : (anchored paths).flatten =
      paths.flatten.map (moveGrid .zero (anchoring .zero paths.flatten)) := by
    rw [anchored_eq_translated, translated, ← List.map_flatten]
    rfl
  rwa [heq]

/-- **Anchoring keeps a state on the grid**: it never fails, and moves the paths. -/
theorem anchored (halloc : ∀ piece, (alloc piece).piece = piece) (h : GridState state paths) :
    ∃ oriented, state.withBottomLeftAnchored alloc = some oriented ∧
      GridState oriented (PolygonNesting.anchored paths) := by
  by_cases hne : state.placedCollisionGeometries = []
  · -- without pieces the bounds are at the origin
    have hpaths := h.layout.paths_eq_nil hne
    refine ⟨state, ?_, ?_⟩
    · unfold IrregularBeamState.withBottomLeftAnchored
      rw [h.bounds, hne]
      exact if_pos ⟨rfl, rfl⟩
    · rw [hpaths] at h ⊢
      exact h
  · have hflat := h.layout.flatten_ne_nil hne
    have hbounds := h.bounds.trans (h.layout.bounds hne)
    unfold IrregularBeamState.withBottomLeftAnchored
    rw [hbounds]
    dsimp only [gridBounds]
    by_cases hcorner : lowerLeft paths.flatten = ⟨0, 0⟩
    · rw [anchored_of_lowerLeft hcorner, hcorner]
      exact ⟨state, if_pos ⟨fromGrid_zero, fromGrid_zero⟩, h⟩
    · rw [if_neg fun hzero => hcorner ?_]
      · rw [← fromGrid_neg, ← fromGrid_neg]
        obtain ⟨moved, hmoved, hall⟩ := exists_mapM_onGrid halloc h.layout.onGrid
          fun entry path _ hpath => hpath.shift (-(lowerLeft paths.flatten).x)
            (-(lowerLeft paths.flatten).y)
        have hlayout : GridLayout moved (PolygonNesting.anchored paths) :=
          ⟨hall, h.layout.strict.moved .zero
            ⟨-(lowerLeft paths.flatten).x, -(lowerLeft paths.flatten).y⟩⟩
        rw [hmoved]
        refine ⟨_, rfl, hlayout, ?_⟩
        have hmovedNe : moved ≠ [] := by
          rintro rfl
          have hlength := hall.length_eq
          rw [List.length_map, ← h.layout.onGrid.length_eq] at hlength
          exact hne (List.length_eq_zero_iff.1 hlength.symm)
        obtain ⟨hlower, hupper⟩ := corners_anchored hflat
        show _ = deriveCollisionBounds moved
        rw [hlayout.bounds hmovedNe, hlower, hupper]
        unfold gridBounds extents
        rw [fromGrid_zero, sub_zero, sub_zero]
        rfl
      · have hx := fromGrid_eq_zero_iff.1 hzero.1
        have hy := fromGrid_eq_zero_iff.1 hzero.2
        cases hlow : lowerLeft paths.flatten
        rw [hlow] at hx hy
        exact congrArg₂ CanonicalGridPoint.mk hx hy

/-- **A quarter turn keeps a state on the grid**: it never fails, and turns and anchors the
paths. -/
theorem oriented (halloc : ∀ piece, (alloc piece).piece = piece) (h : GridState state paths)
    (turn : IrregularQuarterTurnDegrees) :
    ∃ oriented, state.withQuarterTurnBottomLeft alloc turn = some oriented ∧
      GridState oriented (PolygonNesting.anchored (turned turn.quarterTurn paths)) := by
  cases turn with
  | zero =>
    have hturned : turned IrregularQuarterTurnDegrees.zero.quarterTurn paths = paths := by
      unfold turned
      simp [IrregularQuarterTurnDegrees.quarterTurn, rotateGridPoint]
    rw [hturned]
    exact h.anchored halloc
  | ninety =>
    unfold IrregularBeamState.withQuarterTurnBottomLeft
    rw [if_neg (by decide)]
    by_cases hne : state.placedCollisionGeometries = []
    · have hpaths := h.layout.paths_eq_nil hne
      rw [hne]
      rw [hpaths] at h ⊢
      exact ⟨state, rfl, h⟩
    · rw [if_neg (by simpa using hne)]
      obtain ⟨moved, hmoved, hall⟩ := exists_mapM_onGrid halloc h.layout.onGrid
        fun entry path hpath hentry => hentry.turn (h.layout.rings path hpath) .ninety
      rw [hmoved]
      have hstate : GridState (state.withMovedPieces moved (deriveCollisionBounds moved))
          (turned IrregularQuarterTurnDegrees.ninety.quarterTurn paths) :=
        ⟨⟨hall, turned_eq_moved .ninety paths ▸ h.layout.strict.moved .ninety _⟩, rfl⟩
      exact hstate.anchored halloc

end GridState

/-! ## §5  Legality -/

/-- The intersection of two paths has a path with an area. -/
def overlapsBy (intersection : CanonicalGridPath → CanonicalGridPath → List CanonicalGridPath)
    (first second : CanonicalGridPath) : Prop :=
  ∃ path ∈ intersection first second, canonicalGridAbsoluteDoubledArea path ≠ 0

/-- A ring that is strict in millimetres is one in grid units. -/
theorem isStrictPath_of_strict {path : CanonicalGridPath}
    (h : ∃ w, IsStrictRing (path.map (Caches.gridPointMm (F := K))) w) : IsStrictPath path := by
  obtain ⟨w, hw⟩ := h
  have hmoved := isStrictRing_move .zero ⟨0, 0⟩ hw
  have hsame : path.map (moveGrid .zero ⟨0, 0⟩) = path := by
    unfold moveGrid turnGrid
    simp
  rw [hsame] at hmoved
  exact ⟨w, hmoved⟩

theorem IsStrictPath.area_ne_zero {path : CanonicalGridPath} (h : IsStrictPath path) :
    canonicalGridSignedDoubledArea path ≠ 0 := by
  obtain ⟨w, hw⟩ := h
  have hthree : 3 ≤ path.length := by
    have hlength := hw.length
    unfold realPolygon at hlength
    rwa [List.length_map] at hlength
  rw [canonicalGridSignedDoubledArea_eq hthree]
  intro hzero
  have hring := doubledShoelace_of_ring hw
  rw [hzero, Int.cast_zero] at hring
  exact Plane.ConvexRing.shoelace_ne_zero hring

theorem laterPairs_of_pairwise {α : Type} {R : α → α → Prop} :
    ∀ {l : List α}, l.Pairwise R → ∀ pair ∈ laterPairs l, R pair.2 pair.1 := by
  intro l
  induction l with
  | nil => exact fun _ pair hpair => absurd hpair List.not_mem_nil
  | cons a rest ih =>
      intro h pair hpair
      obtain ⟨hfirst, hrest⟩ := List.pairwise_cons.1 h
      rcases List.mem_append.1 hpair with hpair | hpair
      · obtain ⟨later, hlater, rfl⟩ := List.mem_map.1 hpair
        exact hfirst later hlater
      · exact ih hrest pair hpair

namespace GridLayout

variable {placed : List (PlacedArc heap)} {paths : List CanonicalGridPath}

theorem isStrictPath (h : GridLayout placed paths) : ∀ path ∈ paths, IsStrictPath path :=
  fun path hpath => isStrictPath_of_strict (h.strict path hpath)

/-- A polygon of a layout has an area. -/
theorem area_ne_zero (h : GridLayout placed paths) :
    ∀ path ∈ paths, canonicalGridSignedDoubledArea path ≠ 0 :=
  fun path hpath => (h.isStrictPath path hpath).area_ne_zero

theorem paths_of_polygons (h : GridLayout placed paths) {polygons : List CanonicalPlacedPolygon}
    (hpolygons : canonicalPlacedPolygons (toOwnedPlaced placed) = some polygons) :
    polygons.map (·.path) = paths := by
  have hworlds := polygons_of_placed hpolygons
  unfold toOwnedPlaced at hworlds
  rw [List.forall₂_map_left_iff] at hworlds
  rw [← List.forall₂_eq_eq_eq, List.forall₂_map_left_iff]
  refine forall₂_join hworlds h.onGrid fun arc polygon _ path hworld hpath => ?_
  exact (hpath.world_eq_some_iff.1 hworld).1

/-- The polygons exist when the coordinates are safe. -/
theorem exists_polygons (h : GridLayout placed paths)
    (hsafe : ∀ path ∈ paths, ∀ p ∈ path, SafePoint p) :
    ∃ polygons, canonicalPlacedPolygons (toOwnedPlaced placed) = some polygons := by
  have hthree := h.three_le
  have harea := h.area_ne_zero
  have honGrid := h.onGrid
  clear h
  induction honGrid with
  | nil => exact ⟨[], rfl⟩
  | @cons arc path rest restPaths harc _ ih =>
      obtain ⟨hpathSafe, hsafe⟩ := List.forall_mem_cons.1 hsafe
      obtain ⟨hpathThree, hthree⟩ := List.forall_mem_cons.1 hthree
      obtain ⟨hpathArea, harea⟩ := List.forall_mem_cons.1 harea
      obtain ⟨polygons, hpolygons⟩ := ih hsafe hthree harea
      refine ⟨⟨arc.piece.placement.preparedId, path⟩ :: polygons, ?_⟩
      unfold canonicalPlacedPolygons toOwnedPlaced at hpolygons ⊢
      rw [List.map_cons, List.mapM_cons, hpolygons,
        harc.world_eq_some_iff.2 ⟨rfl, hpathThree, hpathSafe⟩]
      dsimp only [Option.bind_eq_bind, Option.bind_some]
      rw [if_neg (not_or.2 ⟨not_lt.2 hpathThree, hpathArea⟩)]
      rfl

/-- **What the legality gate decides**: every path lies in the sheet and no two overlap. -/
theorem assert_iff (h : GridLayout placed paths)
    {intersection : CanonicalGridPath → CanonicalGridPath → List CanonicalGridPath}
    {sheet : SheetSpec K} :
    assertCanonicalGridLegalLayout intersection sheet (toOwnedPlaced placed) = true ↔
      ∃ width height, toGridMm sheet.width = some width ∧ toGridMm sheet.height = some height ∧
        LegalPaths (overlapsBy intersection) width height paths := by
  have hoverlap : ∀ first second : CanonicalGridPath,
      ((intersection first second).all fun path =>
        decide (canonicalGridAbsoluteDoubledArea path = 0)) = true ↔
          ¬overlapsBy intersection first second := by
    intro first second
    unfold overlapsBy
    simp
  constructor
  · intro hassert
    unfold assertCanonicalGridLegalLayout at hassert
    split at hassert
    · next polygons width height hpolygons hwidth hheight =>
        rw [Bool.and_eq_true, List.all_eq_true, List.all_eq_true] at hassert
        obtain ⟨hbox, hpairs⟩ := hassert
        refine ⟨width, height, hwidth, hheight, ?_⟩
        rw [← h.paths_of_polygons hpolygons]
        constructor
        · intro path hpath p hp
          obtain ⟨polygon, hpolygon, rfl⟩ := List.mem_map.1 hpath
          exact of_decide_eq_true (List.all_eq_true.1 (hbox polygon hpolygon) p hp)
        · unfold Apart
          rw [List.pairwise_map]
          exact pairwise_of_laterPairs fun pair hpair => (hoverlap _ _).1 (hpairs pair hpair)
    · cases hassert
  · rintro ⟨width, height, hwidth, hheight, hbox, hapart⟩
    have hsafe : ∀ path ∈ paths, ∀ p ∈ path, SafePoint p := by
      intro path hpath p hp
      obtain ⟨hx0, hy0, hxw, hyh⟩ := hbox path hpath p hp
      have hw := (le_abs_self width).trans (abs_le_of_toGridMm hwidth)
      have hh := (le_abs_self height).trans (abs_le_of_toGridMm hheight)
      exact ⟨by rw [abs_of_nonneg hx0]; omega, by rw [abs_of_nonneg hy0]; omega⟩
    obtain ⟨polygons, hpolygons⟩ := h.exists_polygons hsafe
    have hpaths := h.paths_of_polygons hpolygons
    unfold assertCanonicalGridLegalLayout
    rw [hpolygons, hwidth, hheight]
    dsimp only
    rw [Bool.and_eq_true, List.all_eq_true, List.all_eq_true]
    constructor
    · intro polygon hpolygon
      have hpath : polygon.path ∈ paths := hpaths ▸ List.mem_map_of_mem hpolygon
      exact List.all_eq_true.2 fun p hp => decide_eq_true (hbox _ hpath p hp)
    · intro pair hpair
      rw [← hpaths] at hapart
      unfold Apart at hapart
      rw [List.pairwise_map] at hapart
      exact (hoverlap _ _).2 (laterPairs_of_pairwise hapart pair hpair)

end GridLayout

end PolygonNesting
