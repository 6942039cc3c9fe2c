import Mathlib.Algebra.Order.BigOperators.Group.List
import PolygonNesting.Lib.BoxPacking
import PolygonNesting.ShortSide.PairFold

/-!
# The layouts of boxes

A pair fold stands the pieces before the pair, the pair and the pieces after it in one row; a
next-fit shelf is a stack of rows, each of which is left only where the next piece does not fit.
Both place every piece once, and the boxes of the pieces are packed.
-/

set_option linter.unusedSectionVars false

namespace PolygonNesting.PairFold

open BoxPacking

variable {F : Type} [LinearOrder F] [Zero F] [One F] [Add F] [Sub F] [Neg F]
  [Mul F] [Div F] [JsMath F] {heap : ℕ → IrregularPlacedPiece F}

/-! ## §1  Rows -/

/-- A transform with the place of its lower left corner. -/
structure Standing (F : Type) where
  transform : SelectedTransform F
  x : ℤ
  y : ℤ

def Standing.box (standing : Standing F) : Box ℤ :=
  ⟨standing.x, standing.y, standing.transform.widthGrid, standing.transform.heightGrid⟩

def Standing.place (alloc : IrregularPlacedPiece F → PlacedArc heap) (standing : Standing F) :
    PlacedArc heap :=
  alloc (createPlacedPiece standing.transform standing.x standing.y)

structure Sized (transform : SelectedTransform F) : Prop where
  width : 0 < transform.widthGrid
  height : 0 < transform.heightGrid

/-- What is selected has a size. -/
theorem sized_of_selectedTransform {piece : IrregularPreparedPiece F}
    {geometry : TransformedCollisionGeometry F} {transform : SelectedTransform F}
    (h : selectedTransform piece geometry = some transform) : Sized transform := by
  unfold selectedTransform at h
  simp only [Option.bind_eq_bind, Option.bind_eq_some_iff] at h
  obtain ⟨minX, -, minY, -, maxX, -, maxY, -, h⟩ := h
  split at h
  · cases h
  · rename_i hsize
    obtain rfl := Option.some.inj h
    rw [not_or, not_le, not_le] at hsize
    exact ⟨hsize.1, hsize.2⟩

variable {row others : List (SelectedTransform F)} {transform : SelectedTransform F}

def rowWidth (row : List (SelectedTransform F)) : ℤ := (row.map SelectedTransform.widthGrid).sum

def rowHeight (row : List (SelectedTransform F)) : ℤ :=
  row.foldr (fun transform height => max transform.heightGrid height) 0

/-- The transforms side by side. -/
def rowStandings (x y : ℤ) : List (SelectedTransform F) → List (Standing F)
  | [] => []
  | transform :: rest => ⟨transform, x, y⟩ :: rowStandings (x + transform.widthGrid) y rest

theorem transforms_rowStandings (x y : ℤ) (row : List (SelectedTransform F)) :
    (rowStandings x y row).map Standing.transform = row := by
  induction row generalizing x with
  | nil => rfl
  | cons transform rest ih => rw [rowStandings, List.map_cons, ih]

theorem rowStandings_append (x y : ℤ) (row others : List (SelectedTransform F)) :
    rowStandings x y (row ++ others) =
      rowStandings x y row ++ rowStandings (x + rowWidth row) y others := by
  induction row generalizing x with
  | nil => simp [rowStandings, rowWidth]
  | cons transform rest ih =>
      rw [List.cons_append, rowStandings, ih, rowStandings, List.cons_append]
      simp [rowWidth, add_assoc]

theorem rowWidth_append : rowWidth (row ++ others) = rowWidth row + rowWidth others := by
  simp [rowWidth]

theorem rowWidth_cons : rowWidth (transform :: row) = transform.widthGrid + rowWidth row := by
  simp [rowWidth]

theorem rowWidth_nonneg (h : ∀ t ∈ row, Sized t) : 0 ≤ rowWidth row := by
  refine List.sum_nonneg fun width hwidth => ?_
  obtain ⟨transform, hmem, rfl⟩ := List.mem_map.1 hwidth
  exact (h transform hmem).width.le

theorem rowHeight_cons :
    rowHeight (transform :: row) = max transform.heightGrid (rowHeight row) := rfl

theorem rowHeight_nonneg (row : List (SelectedTransform F)) : 0 ≤ rowHeight row := by
  induction row with
  | nil => exact le_rfl
  | cons transform rest ih => exact ih.trans (le_max_right _ _)

theorem height_le_rowHeight (h : transform ∈ row) : transform.heightGrid ≤ rowHeight row := by
  induction row with
  | nil => cases h
  | cons first rest ih =>
      rw [rowHeight_cons]
      rcases List.mem_cons.1 h with rfl | h
      · exact le_max_left _ _
      · exact (ih h).trans (le_max_right _ _)

theorem rowHeight_append :
    rowHeight (row ++ others) = max (rowHeight row) (rowHeight others) := by
  induction row with
  | nil => exact (max_eq_right (rowHeight_nonneg others)).symm
  | cons transform rest ih => rw [List.cons_append, rowHeight_cons, ih, rowHeight_cons, max_assoc]

/-- **A row is packed** in a frame as wide as it and as high as any of it. -/
theorem packedIn_row (hsized : ∀ t ∈ row, Sized t) {height : ℤ}
    (hheight : ∀ t ∈ row, t.heightGrid ≤ height) (x y : ℤ) :
    PackedIn ⟨x, y, rowWidth row, height⟩ ((rowStandings x y row).map Standing.box) := by
  induction row generalizing x with
  | nil => exact packedIn_nil _
  | cons transform rest ih =>
      obtain ⟨hfirst, hsized⟩ := List.forall_mem_cons.1 hsized
      obtain ⟨hle, hheight⟩ := List.forall_mem_cons.1 hheight
      rw [rowStandings, List.map_cons, rowWidth_cons, ← List.singleton_append]
      refine PackedIn.beside hfirst.width.le (rowWidth_nonneg hsized)
        (packedIn_singleton ⟨le_rfl, le_rfl, le_rfl, ?_⟩) (ih hsized hheight _)
      exact add_le_add_right hle y

/-- The last of a row ends where the row ends. -/
theorem exists_right_eq (hne : row ≠ []) (x y : ℤ) :
    ∃ standing ∈ rowStandings x y row, standing.box.right = x + rowWidth row := by
  induction row generalizing x with
  | nil => exact absurd rfl hne
  | cons transform rest ih =>
      rw [rowStandings, rowWidth_cons, ← add_assoc]
      rcases eq_or_ne rest [] with rfl | hrest
      · exact ⟨_, List.mem_cons_self, (add_zero (x + transform.widthGrid)).symm⟩
      · obtain ⟨standing, hmem, heq⟩ := ih hrest (x + transform.widthGrid)
        exact ⟨standing, List.mem_cons_of_mem _ hmem, heq⟩

/-- One of a row is as high as the row. -/
theorem exists_rowTop_eq (hne : row ≠ []) (hsized : ∀ t ∈ row, Sized t) (x y : ℤ) :
    ∃ standing ∈ rowStandings x y row, standing.box.top = y + rowHeight row := by
  induction row generalizing x with
  | nil => exact absurd rfl hne
  | cons transform rest ih =>
      obtain ⟨hfirst, hsized⟩ := List.forall_mem_cons.1 hsized
      rw [rowStandings, rowHeight_cons]
      rcases eq_or_ne rest [] with rfl | hrest
      · exact ⟨_, List.mem_cons_self, congrArg (y + ·) (max_eq_left hfirst.height.le).symm⟩
      · obtain ⟨standing, hmem, heq⟩ := ih hrest hsized (x + transform.widthGrid)
        rcases max_choice transform.heightGrid (rowHeight rest) with h | h
        · exact ⟨_, List.mem_cons_self, congrArg (y + ·) h.symm⟩
        · exact ⟨standing, List.mem_cons_of_mem _ hmem, heq.trans (congrArg (y + ·) h.symm)⟩

/-! ## §2  The pair fold -/

/-- The row with a pair in it. -/
def pairStandings (before : List (SelectedTransform F)) (bottom upper : SelectedTransform F)
    (after : List (SelectedTransform F)) : List (Standing F) :=
  rowStandings 0 0 before ++
    ([⟨bottom, rowWidth before, 0⟩, ⟨upper, rowWidth before, bottom.heightGrid⟩] ++
      rowStandings (rowWidth before + max bottom.widthGrid upper.widthGrid) 0 after)

section

variable (alloc : IrregularPlacedPiece F → PlacedArc heap)

theorem placePairEntry_beside (transforms : List (SelectedTransform F)) {pair : SelectedPair}
    {short : ℤ} {transform : SelectedTransform F} {index : ℕ} (hbottom : index ≠ pair.bottomIndex)
    (hupper : index ≠ pair.upperIndex) {cursor : ℤ} (placed : List (PlacedArc heap))
    (hfits : cursor + transform.widthGrid ≤ short) :
    placePairEntry alloc transforms pair short ⟨cursor, placed⟩ (transform, index) =
      some ⟨cursor + transform.widthGrid,
        placed ++ [Standing.place alloc ⟨transform, cursor, 0⟩]⟩ := by
  unfold placePairEntry
  dsimp only
  rw [if_neg hupper, if_neg hbottom, if_neg (not_lt.2 hfits)]
  rfl

theorem placePairEntry_bottom {transforms : List (SelectedTransform F)} {pair : SelectedPair}
    (short : ℤ) (bottom : SelectedTransform F) {upper : SelectedTransform F}
    (hne : pair.bottomIndex ≠ pair.upperIndex) (hlookup : transforms[pair.upperIndex]? = some upper)
    (cursor : ℤ) (placed : List (PlacedArc heap)) :
    placePairEntry alloc transforms pair short ⟨cursor, placed⟩ (bottom, pair.bottomIndex) =
      some ⟨cursor + max bottom.widthGrid upper.widthGrid,
        placed ++ [Standing.place alloc ⟨bottom, cursor, 0⟩,
          Standing.place alloc ⟨upper, cursor, bottom.heightGrid⟩]⟩ := by
  unfold placePairEntry
  dsimp only
  rw [if_neg hne, if_pos rfl, hlookup]
  rfl

theorem placePairEntry_upper (transforms : List (SelectedTransform F)) (pair : SelectedPair)
    (short : ℤ) (transform : SelectedTransform F) (row : PairRow heap) :
    placePairEntry alloc transforms pair short row (transform, pair.upperIndex) = some row :=
  if_pos rfl

/-- Entries beside the pair stand side by side. -/
theorem foldlM_placePairEntry (transforms : List (SelectedTransform F)) (pair : SelectedPair)
    (short : ℤ) {row : List (SelectedTransform F)} (hsized : ∀ t ∈ row, Sized t) {k : ℕ}
    (hindex : ∀ i, k ≤ i → i < k + row.length → i ≠ pair.bottomIndex ∧ i ≠ pair.upperIndex)
    (cursor : ℤ) (placed : List (PlacedArc heap)) (hfits : cursor + rowWidth row ≤ short) :
    (row.zipIdx k).foldlM (placePairEntry alloc transforms pair short) ⟨cursor, placed⟩ =
      some ⟨cursor + rowWidth row,
        placed ++ (rowStandings cursor 0 row).map (Standing.place alloc)⟩ := by
  induction row generalizing k cursor placed with
  | nil => simp [rowWidth, rowStandings]
  | cons transform rest ih =>
      obtain ⟨hbottom, hupper⟩ := hindex k le_rfl (by simp)
      have hrest := rowWidth_nonneg fun t ht => hsized t (List.mem_cons_of_mem _ ht)
      rw [rowWidth_cons] at hfits ⊢
      rw [List.zipIdx_cons, List.foldlM_cons,
        placePairEntry_beside alloc transforms hbottom hupper placed (by omega)]
      refine (ih (fun t ht => hsized t (List.mem_cons_of_mem _ ht)) (fun i hi hlt =>
        hindex i (by omega) (by rw [List.length_cons]; omega)) _ _ (by omega)).trans ?_
      rw [rowStandings, List.map_cons, add_assoc, List.append_assoc]
      rfl

/-- **The pair layout**: the pair stands in its row. -/
theorem constructPairLayout_eq {before between after : List (SelectedTransform F)}
    {bottom upper : SelectedTransform F} {pair : SelectedPair} {short : ℤ}
    (hsized : ∀ t ∈ before ++ bottom :: (between ++ upper :: after), Sized t)
    (hbottom : before.length = pair.bottomIndex)
    (hupper : before.length + 1 + between.length = pair.upperIndex)
    (hfits : rowWidth before + max bottom.widthGrid upper.widthGrid +
      rowWidth (between ++ after) ≤ short) :
    constructPairLayout alloc (before ++ bottom :: (between ++ upper :: after)) pair short =
      some ((pairStandings before bottom upper (between ++ after)).map (Standing.place alloc)) := by
  have hsizedBefore : ∀ t ∈ before, Sized t := fun t ht => hsized t (by simp [ht])
  have hsizedBetween : ∀ t ∈ between, Sized t := fun t ht => hsized t (by simp [ht])
  have hsizedAfter : ∀ t ∈ after, Sized t := fun t ht => hsized t (by simp [ht])
  have hlookup : (before ++ bottom :: (between ++ upper :: after))[pair.upperIndex]? =
      some upper := by
    rw [← hupper, show before.length + 1 + between.length =
      before.length + (between.length + 1) by omega, List.getElem?_append_right (by omega)]
    simp
  have hbetween := rowWidth_nonneg hsizedBetween
  have hafter := rowWidth_nonneg hsizedAfter
  have hbottomWidth := (hsized bottom (by simp)).width
  have hle := le_max_left bottom.widthGrid upper.widthGrid
  rw [rowWidth_append] at hfits
  generalize htransforms : before ++ bottom :: (between ++ upper :: after) = transforms at hlookup
  unfold constructPairLayout
  rw [← htransforms, List.zipIdx_append, List.foldlM_append, htransforms,
    foldlM_placePairEntry alloc transforms pair short hsizedBefore (fun i _ hi => by omega) 0 []
      (by omega), Option.bind_eq_bind, Option.bind_some]
  rw [zero_add, zero_add, hbottom, List.zipIdx_cons, List.foldlM_cons,
    placePairEntry_bottom alloc short bottom (by omega) hlookup, Option.bind_eq_bind,
    Option.bind_some]
  rw [List.zipIdx_append, List.foldlM_append,
    foldlM_placePairEntry alloc transforms pair short hsizedBetween (fun i hi hlt => by omega) _ _
      (by omega), Option.bind_eq_bind, Option.bind_some]
  rw [show pair.bottomIndex + 1 + between.length = pair.upperIndex by omega, List.zipIdx_cons,
    List.foldlM_cons, placePairEntry_upper, Option.bind_eq_bind, Option.bind_some,
    foldlM_placePairEntry alloc transforms pair short hsizedAfter (fun i hi hlt => by omega) _ _
      (by omega)]
  rw [Option.map_some, pairStandings, rowStandings_append]
  simp only [List.nil_append, List.map_append, List.append_assoc]
  rfl

end

/-! ## §3  Accounting of a pair -/

theorem foldl_otherMaximum {row : List (SelectedTransform F)} {bottomIndex upperIndex k : ℕ}
    (hindex : ∀ i, k ≤ i → i < k + row.length → i ≠ bottomIndex ∧ i ≠ upperIndex) {maximum : ℤ}
    (hmaximum : 0 ≤ maximum) :
    (row.zipIdx k).foldl (fun maximum entry =>
      if entry.2 = bottomIndex ∨ entry.2 = upperIndex then maximum
      else max maximum entry.1.heightGrid) maximum = max maximum (rowHeight row) := by
  induction row generalizing k maximum with
  | nil => exact (max_eq_left hmaximum).symm
  | cons transform rest ih =>
      obtain ⟨hbottom, hupper⟩ := hindex k le_rfl (by simp)
      rw [List.zipIdx_cons, List.foldl_cons, if_neg (not_or.2 ⟨hbottom, hupper⟩),
        ih (fun i hi hlt => hindex i (by omega) (by rw [List.length_cons]; omega))
          (hmaximum.trans (le_max_left _ _)), rowHeight_cons, max_assoc]

variable {before between after : List (SelectedTransform F)} {bottom upper : SelectedTransform F}

/-- The pieces beside a pair are the others. -/
theorem otherMaximumHeightGrid_eq :
    otherMaximumHeightGrid (before ++ bottom :: (between ++ upper :: after)) before.length
      (before.length + 1 + between.length) = rowHeight (before ++ (between ++ after)) := by
  have hbetween := rowHeight_nonneg between
  unfold otherMaximumHeightGrid
  rw [List.zipIdx_append, List.foldl_append,
    foldl_otherMaximum (fun i _ hi => by omega) le_rfl, max_eq_right (rowHeight_nonneg before),
    zero_add, List.zipIdx_cons, List.foldl_cons, if_pos (.inl rfl), List.zipIdx_append,
    List.foldl_append, foldl_otherMaximum (fun i hi hlt => by omega) (rowHeight_nonneg before),
    List.zipIdx_cons, List.foldl_cons, if_pos (.inr rfl),
    foldl_otherMaximum (fun i hi hlt => by omega)
      ((rowHeight_nonneg before).trans (le_max_left _ _)),
    rowHeight_append, rowHeight_append, max_assoc]

theorem widthGrid_selectedPair :
    (selectedPair (before ++ bottom :: (between ++ upper :: after)) (bottom, before.length)
      (upper, before.length + 1 + between.length)).widthGrid =
      rowWidth before + max bottom.widthGrid upper.widthGrid + rowWidth (between ++ after) := by
  have htotal : ((before ++ bottom :: (between ++ upper :: after)).map
      SelectedTransform.widthGrid).sum =
        rowWidth before + bottom.widthGrid + rowWidth between + upper.widthGrid +
          rowWidth after := by
    simp only [rowWidth, List.map_append, List.map_cons, List.sum_append, List.sum_cons]
    ring
  unfold selectedPair
  dsimp only
  rw [htotal, rowWidth_append]
  ring

theorem depthGrid_selectedPair :
    (selectedPair (before ++ bottom :: (between ++ upper :: after)) (bottom, before.length)
      (upper, before.length + 1 + between.length)).depthGrid =
      max (bottom.heightGrid + upper.heightGrid) (rowHeight (before ++ (between ++ after))) :=
  congrArg (max (bottom.heightGrid + upper.heightGrid)) otherMaximumHeightGrid_eq

/-- The pieces of the fold are all pieces. -/
theorem transforms_pairStandings (before between after : List (SelectedTransform F))
    (bottom upper : SelectedTransform F) :
    ((pairStandings before bottom upper (between ++ after)).map Standing.transform).Perm
      (before ++ bottom :: (between ++ upper :: after)) := by
  unfold pairStandings
  rw [List.map_append, List.map_append, transforms_rowStandings, transforms_rowStandings]
  refine List.Perm.append_left before (List.Perm.cons bottom ?_)
  show (upper :: (between ++ after)).Perm (between ++ upper :: after)
  exact List.perm_middle.symm

theorem sized_parts (hsized : ∀ t ∈ before ++ bottom :: (between ++ upper :: after), Sized t) :
    (∀ t ∈ before, Sized t) ∧ Sized bottom ∧ Sized upper ∧ ∀ t ∈ between ++ after, Sized t := by
  refine ⟨fun t ht => hsized t (by simp [ht]), hsized bottom (by simp), hsized upper (by simp),
    fun t ht => hsized t ?_⟩
  rcases List.mem_append.1 ht with ht | ht <;> simp [ht]

/-- **The boxes of a fold are packed** in the envelope of its pair. -/
theorem packedIn_pairStandings
    (hsized : ∀ t ∈ before ++ bottom :: (between ++ upper :: after), Sized t) {depth : ℤ}
    (hpair : bottom.heightGrid + upper.heightGrid ≤ depth)
    (hothers : rowHeight (before ++ (between ++ after)) ≤ depth) :
    PackedIn ⟨0, 0, rowWidth before + max bottom.widthGrid upper.widthGrid +
      rowWidth (between ++ after), depth⟩
      ((pairStandings before bottom upper (between ++ after)).map Standing.box) := by
  obtain ⟨hbefore, hbottom, hupper, hafter⟩ := sized_parts hsized
  have hheight : ∀ t ∈ before ++ (between ++ after), t.heightGrid ≤ depth := fun t ht =>
    (height_le_rowHeight ht).trans hothers
  have hmax : 0 ≤ max bottom.widthGrid upper.widthGrid :=
    hbottom.width.le.trans (le_max_left _ _)
  -- the pair in its column
  have hcolumn : PackedIn ⟨rowWidth before, 0, max bottom.widthGrid upper.widthGrid, depth⟩
      ([⟨rowWidth before, 0, bottom.widthGrid, bottom.heightGrid⟩] ++
        [⟨rowWidth before, bottom.heightGrid, upper.widthGrid, upper.heightGrid⟩]) := by
    have hbottomHeight := hbottom.height
    have hupperHeight := hupper.height
    refine (packedIn_singleton (Box.Within.refl _)).append
      (packedIn_singleton (Box.Within.refl _)) (.inr (.inr (.inl ?_))) ⟨le_rfl, le_rfl, ?_, ?_⟩
      ⟨le_rfl, hbottomHeight.le, ?_, ?_⟩
    · exact (zero_add bottom.heightGrid).le
    · exact Int.add_le_add_left (le_max_left _ _) _
    · show 0 + bottom.heightGrid ≤ 0 + depth
      omega
    · exact Int.add_le_add_left (le_max_right _ _) _
    · show bottom.heightGrid + upper.heightGrid ≤ 0 + depth
      omega
  unfold pairStandings
  rw [List.map_append, List.map_append, add_assoc]
  refine PackedIn.beside (rowWidth_nonneg hbefore)
    (add_nonneg hmax (rowWidth_nonneg hafter))
    (packedIn_row hbefore (fun t ht => hheight t (List.mem_append_left _ ht)) 0 0) ?_
  rw [zero_add]
  exact hcolumn.beside hmax (rowWidth_nonneg hafter)
    (packedIn_row hafter (fun t ht => hheight t (List.mem_append_right _ ht)) _ 0)

/-- The boxes of a fold reach every side of the envelope. -/
theorem spans_pairStandings
    (hsized : ∀ t ∈ before ++ bottom :: (between ++ upper :: after), Sized t) :
    BoxPacking.Spans ⟨0, 0, rowWidth before + max bottom.widthGrid upper.widthGrid +
      rowWidth (between ++ after), max (bottom.heightGrid + upper.heightGrid)
        (rowHeight (before ++ (between ++ after)))⟩
      ((pairStandings before bottom upper (between ++ after)).map Standing.box) := by
  obtain ⟨hbeforeSized, hbottomSized, hupperSized, hafterSized⟩ := sized_parts hsized
  have hbottom : Standing.mk bottom (rowWidth before) 0 ∈
      pairStandings before bottom upper (between ++ after) := by simp [pairStandings]
  have hupper : Standing.mk upper (rowWidth before) bottom.heightGrid ∈
      pairStandings before bottom upper (between ++ after) := by simp [pairStandings]
  have hafter : ∀ standing ∈ rowStandings (rowWidth before +
      max bottom.widthGrid upper.widthGrid) 0 (between ++ after),
        standing ∈ pairStandings before bottom upper (between ++ after) := fun standing h =>
    List.mem_append_right _ (List.mem_append_right _ h)
  have hbefore : ∀ standing ∈ rowStandings 0 0 before,
      standing ∈ pairStandings before bottom upper (between ++ after) := fun standing h =>
    List.mem_append_left _ h
  refine ⟨?_, ⟨_, List.mem_map_of_mem hbottom, rfl⟩, ?_, ?_⟩
  · cases before with
    | nil => exact ⟨_, List.mem_map_of_mem hbottom, rfl⟩
    | cons first rest => exact ⟨_, List.mem_map_of_mem (hbefore _ List.mem_cons_self), rfl⟩
  · rcases eq_or_ne (between ++ after) [] with hnil | hne
    · have hwidth : rowWidth (between ++ after) = 0 := by rw [hnil]; rfl
      rw [hwidth, add_zero]
      rcases max_choice bottom.widthGrid upper.widthGrid with h | h
      · exact ⟨_, List.mem_map_of_mem hbottom, by rw [h]; exact (zero_add _).symm⟩
      · exact ⟨_, List.mem_map_of_mem hupper, by rw [h]; exact (zero_add _).symm⟩
    · obtain ⟨standing, hmem, hright⟩ := exists_right_eq hne
        (rowWidth before + max bottom.widthGrid upper.widthGrid) 0
      exact ⟨_, List.mem_map_of_mem (hafter _ hmem), hright.trans (zero_add _).symm⟩
  · have hpair := add_pos hbottomSized.height hupperSized.height
    have hrow : ∀ {x : ℤ} {row : List (SelectedTransform F)}, (∀ t ∈ row, Sized t) →
        (∀ standing ∈ rowStandings x 0 row,
          standing ∈ pairStandings before bottom upper (between ++ after)) →
        bottom.heightGrid + upper.heightGrid ≤ rowHeight row →
        ∃ box ∈ (pairStandings before bottom upper (between ++ after)).map Standing.box,
          box.top = 0 + rowHeight row := by
      intro x row hrowSized hmem hle
      have hne : row ≠ [] := by
        rintro rfl
        exact absurd (hpair.trans_le hle) (lt_irrefl 0)
      obtain ⟨standing, hstanding, htop⟩ := exists_rowTop_eq hne hrowSized x 0
      exact ⟨_, List.mem_map_of_mem (hmem _ hstanding), htop⟩
    have hle := le_max_left (bottom.heightGrid + upper.heightGrid)
      (rowHeight (before ++ (between ++ after)))
    rcases max_choice (bottom.heightGrid + upper.heightGrid)
      (rowHeight (before ++ (between ++ after))) with h | h
    · exact ⟨_, List.mem_map_of_mem hupper, by rw [h]; exact (zero_add _).symm⟩
    · rw [h, rowHeight_append] at hle ⊢
      rcases max_choice (rowHeight before) (rowHeight (between ++ after)) with h' | h'
      · rw [h'] at hle ⊢
        exact hrow hbeforeSized hbefore hle
      · rw [h'] at hle ⊢
        exact hrow hafterSized hafter hle

/-! ## §4  Any pair of a list -/

/-- An earlier and a later entry. -/
theorem mem_earlierPairs {α : Type} {l : List α} {first second : α} :
    (first, second) ∈ earlierPairs l ↔
      ∃ before between after, l = before ++ first :: (between ++ second :: after) := by
  induction l with
  | nil => simp [earlierPairs]
  | cons a rest ih =>
      rw [earlierPairs, List.mem_append, ih]
      constructor
      · rintro (h | ⟨before, between, after, rfl⟩)
        · obtain ⟨other, hmem, heq⟩ := List.mem_map.1 h
          obtain ⟨rfl, rfl⟩ := Prod.mk.inj heq
          obtain ⟨between, after, rfl⟩ := List.append_of_mem hmem
          exact ⟨[], between, after, rfl⟩
        · exact ⟨a :: before, between, after, rfl⟩
      · rintro ⟨before, between, after, heq⟩
        cases before with
        | nil =>
            obtain ⟨rfl, rfl⟩ := List.cons.inj heq
            exact .inl (List.mem_map.2 ⟨second, by simp, rfl⟩)
        | cons b before =>
            obtain ⟨rfl, rfl⟩ := List.cons.inj heq
            exact .inr ⟨before, between, after, rfl⟩

/-- A pair of entries with their indices splits the list. -/
theorem exists_split {α : Type} {l : List α} {first second : α × ℕ}
    (h : (first, second) ∈ earlierPairs l.zipIdx) :
    ∃ before between after, l = before ++ first.1 :: (between ++ second.1 :: after) ∧
      first.2 = before.length ∧ second.2 = before.length + 1 + between.length := by
  obtain ⟨_, _, _, hpairs⟩ := mem_earlierPairs.1 h
  obtain ⟨before, _, rfl, -, hrest⟩ := List.zipIdx_eq_append_iff.1 hpairs
  obtain ⟨a, _, rfl, rfl, hlater⟩ := List.zipIdx_eq_cons_iff.1 hrest.symm
  obtain ⟨between, _, rfl, -, hlast⟩ := List.zipIdx_eq_append_iff.1 hlater.symm
  obtain ⟨b, after, rfl, rfl, -⟩ := List.zipIdx_eq_cons_iff.1 hlast.symm
  exact ⟨before, between, after, rfl, by simp, by simp⟩

/-! ## §5  The shelf -/

def stackHeight (rows : List (List (SelectedTransform F))) : ℤ := (rows.map rowHeight).sum

/-- The rows on top of each other. -/
def stackStandings (y : ℤ) : List (List (SelectedTransform F)) → List (Standing F)
  | [] => []
  | row :: rest => rowStandings 0 y row ++ stackStandings (y + rowHeight row) rest

/-- A row takes transforms until one does not fit behind it. -/
def nextFitFrom (short : ℤ) (row : List (SelectedTransform F)) :
    List (SelectedTransform F) → List (List (SelectedTransform F))
  | [] => [row]
  | transform :: rest =>
      if short < rowWidth row + transform.widthGrid then
        row :: nextFitFrom short [transform] rest
      else nextFitFrom short (row ++ [transform]) rest

def nextFitRows (short : ℤ) : List (SelectedTransform F) → List (List (SelectedTransform F))
  | [] => []
  | transform :: rest => nextFitFrom short [transform] rest

/-- Rows that are left only where the next transform does not fit behind them. -/
structure NextFit (short : ℤ) (transforms : List (SelectedTransform F))
    (rows : List (List (SelectedTransform F))) : Prop where
  flatten : rows.flatten = transforms
  nonempty : ∀ row ∈ rows, row ≠ []
  full : rows.IsChain fun row next => ∀ t ∈ next.head?, short < rowWidth row + t.widthGrid

theorem stackHeight_cons (row : List (SelectedTransform F))
    (rows : List (List (SelectedTransform F))) :
    stackHeight (row :: rows) = rowHeight row + stackHeight rows := by
  simp [stackHeight]

theorem stackHeight_nonneg (rows : List (List (SelectedTransform F))) : 0 ≤ stackHeight rows := by
  induction rows with
  | nil => exact le_rfl
  | cons row rows ih =>
      rw [stackHeight_cons]
      exact add_nonneg (rowHeight_nonneg row) ih

theorem transforms_stackStandings (y : ℤ) (rows : List (List (SelectedTransform F))) :
    (stackStandings y rows).map Standing.transform = rows.flatten := by
  induction rows generalizing y with
  | nil => rfl
  | cons row rows ih =>
      rw [stackStandings, List.map_append, transforms_rowStandings, ih, List.flatten_cons]

/-- **A stack of rows is packed** in a frame as wide as any row. -/
theorem packedIn_stack {rows : List (List (SelectedTransform F))} {width : ℤ}
    (hsized : ∀ row ∈ rows, ∀ t ∈ row, Sized t) (hwidth : ∀ row ∈ rows, rowWidth row ≤ width)
    (y : ℤ) : PackedIn ⟨0, y, width, stackHeight rows⟩ ((stackStandings y rows).map Standing.box) := by
  induction rows generalizing y with
  | nil => exact packedIn_nil _
  | cons row rows ih =>
      rw [stackStandings, List.map_append, stackHeight_cons]
      refine PackedIn.above (rowHeight_nonneg row) (stackHeight_nonneg rows) ?_
        (ih (fun r hr => hsized r (List.mem_cons_of_mem _ hr))
          (fun r hr => hwidth r (List.mem_cons_of_mem _ hr)) _)
      refine (packedIn_row (hsized row List.mem_cons_self)
        (fun t ht => height_le_rowHeight ht) 0 y).mono ⟨le_rfl, le_rfl, ?_, le_rfl⟩
      exact Int.add_le_add_left (hwidth row List.mem_cons_self) 0

/-- The first row begins with what it has. -/
theorem exists_nextFitFrom_head (short : ℤ) (row rest : List (SelectedTransform F)) :
    ∃ more rows, nextFitFrom short row rest = (row ++ more) :: rows := by
  induction rest generalizing row with
  | nil => exact ⟨[], [], by rw [nextFitFrom, List.append_nil]⟩
  | cons transform rest ih =>
      rw [nextFitFrom]
      split
      · exact ⟨[], _, by rw [List.append_nil]⟩
      · obtain ⟨more, rows, heq⟩ := ih (row ++ [transform])
        exact ⟨transform :: more, rows, by rw [heq, List.append_assoc]; rfl⟩

theorem nextFit_nextFitFrom (short : ℤ) {row : List (SelectedTransform F)} (hrow : row ≠ [])
    (rest : List (SelectedTransform F)) :
    NextFit short (row ++ rest) (nextFitFrom short row rest) := by
  induction rest generalizing row with
  | nil => exact ⟨by simp [nextFitFrom], by simpa [nextFitFrom] using hrow, .singleton _⟩
  | cons transform rest ih =>
      rw [nextFitFrom]
      split
      · rename_i hlt
        have hrest := ih (List.cons_ne_nil transform [])
        obtain ⟨more, rows, heq⟩ := exists_nextFitFrom_head short [transform] rest
        refine ⟨?_, ?_, ?_⟩
        · rw [List.flatten_cons, hrest.flatten]
          rfl
        · intro r hr
          rcases List.mem_cons.1 hr with rfl | hr
          · exact hrow
          · exact hrest.nonempty r hr
        · have hfull := hrest.full
          rw [heq] at hfull ⊢
          refine List.IsChain.cons_cons (fun t ht => ?_) hfull
          obtain rfl : transform = t := Option.some.inj ht
          exact hlt
      · have hrest := ih (List.append_ne_nil_of_left_ne_nil hrow [transform])
        rwa [List.append_assoc] at hrest

theorem nextFit_nextFitRows (short : ℤ) (transforms : List (SelectedTransform F)) :
    NextFit short transforms (nextFitRows short transforms) := by
  cases transforms with
  | nil => exact ⟨rfl, by simp [nextFitRows], .nil⟩
  | cons transform rest => exact nextFit_nextFitFrom short (List.cons_ne_nil transform []) rest

theorem rowWidth_le_of_mem_nextFitFrom {short : ℤ} {row rest : List (SelectedTransform F)}
    (hrow : rowWidth row ≤ short) (hrest : ∀ t ∈ rest, t.widthGrid ≤ short) :
    ∀ r ∈ nextFitFrom short row rest, rowWidth r ≤ short := by
  induction rest generalizing row with
  | nil =>
      intro r hr
      obtain rfl := List.mem_singleton.1 hr
      exact hrow
  | cons transform rest ih =>
      have htransform := hrest transform List.mem_cons_self
      have hrest' : ∀ t ∈ rest, t.widthGrid ≤ short := fun t ht =>
        hrest t (List.mem_cons_of_mem _ ht)
      have hsingle : rowWidth [transform] = transform.widthGrid := by simp [rowWidth]
      intro r hr
      rw [nextFitFrom] at hr
      split at hr
      · rcases List.mem_cons.1 hr with rfl | hr
        · exact hrow
        · exact ih (hsingle.trans_le htransform) hrest' r hr
      · rename_i hle
        refine ih ?_ hrest' r hr
        rw [rowWidth_append, hsingle]
        exact not_lt.1 hle

theorem rowHeight_le_stackHeight_nextFitFrom (short : ℤ) (row rest : List (SelectedTransform F)) :
    rowHeight row ≤ stackHeight (nextFitFrom short row rest) := by
  obtain ⟨more, rows, heq⟩ := exists_nextFitFrom_head short row rest
  have hrows := stackHeight_nonneg rows
  rw [heq, stackHeight_cons, rowHeight_append]
  have := le_max_left (rowHeight row) (rowHeight more)
  omega

theorem rowHeight_concat {transform : SelectedTransform F} (h : Sized transform)
    (row : List (SelectedTransform F)) :
    rowHeight (row ++ [transform]) = max (rowHeight row) transform.heightGrid := by
  rw [rowHeight_append]
  exact congrArg (max (rowHeight row)) (max_eq_left h.height.le)

section

variable (alloc : IrregularPlacedPiece F → PlacedArc heap)

/-- The state of the shelf within a row. -/
def shelfRow (placed : List (PlacedArc heap)) (rowCount : ℕ) (rowStart : ℤ)
    (row : List (SelectedTransform F)) : ShelfRow heap where
  placed := placed ++ (rowStandings 0 rowStart row).map (Standing.place alloc)
  rowCount := rowCount
  cursorGrid := rowWidth row
  rowStartGrid := rowStart
  rowHeightGrid := rowHeight row

variable {requested : RequestedAxes} {row : List (SelectedTransform F)}
  {transform : SelectedTransform F}

/-- A row that is full is left. -/
theorem breakRow_of_full {short : ℤ} (hrow : row ≠ []) (hsized : ∀ t ∈ row, Sized t)
    (hfull : short < rowWidth row + transform.widthGrid) (placed : List (PlacedArc heap))
    (rowCount : ℕ) (rowStart : ℤ) :
    breakRow short (shelfRow alloc placed rowCount rowStart row) transform =
      shelfRow alloc (placed ++ (rowStandings 0 rowStart row).map (Standing.place alloc))
        (rowCount + 1) (rowStart + rowHeight row) [] := by
  have hpos : 0 < rowWidth row := by
    obtain ⟨first, others, rfl⟩ := List.exists_cons_of_ne_nil hrow
    have := rowWidth_nonneg fun t ht => hsized t (List.mem_cons_of_mem _ ht)
    have := (hsized first List.mem_cons_self).width
    rw [rowWidth_cons]
    omega
  refine (if_pos ⟨hpos, hfull⟩).trans ?_
  unfold shelfRow
  rw [rowStandings, List.map_nil, List.append_nil]
  rfl

theorem breakRow_of_fits {short : ℤ} (hfits : rowWidth row + transform.widthGrid ≤ short)
    (placed : List (PlacedArc heap)) (rowCount : ℕ) (rowStart : ℤ) :
    breakRow short (shelfRow alloc placed rowCount rowStart row) transform =
      shelfRow alloc placed rowCount rowStart row :=
  if_neg fun h => absurd h.2 (not_lt.2 hfits)

/-- A transform of the sheet's size stands at the end of the row, if the sheet is high enough. -/
theorem placeShelfEntry_eq (hsized : Sized transform)
    (hwidth : transform.widthGrid ≤ requested.shortAxisGrid)
    (hheight : transform.heightGrid ≤ requested.longAxisGrid) {before : ShelfRow heap}
    {placed : List (PlacedArc heap)} {rowCount : ℕ} {rowStart : ℤ}
    (hbreak : breakRow requested.shortAxisGrid before transform =
      shelfRow alloc placed rowCount rowStart row) :
    placeShelfEntry alloc requested before transform =
      if requested.longAxisGrid < rowStart + transform.heightGrid then none
      else some (shelfRow alloc placed rowCount rowStart (row ++ [transform])) := by
  unfold placeShelfEntry
  rw [if_neg (not_or.2 ⟨not_lt.2 hwidth, not_lt.2 hheight⟩), hbreak]
  have hrow : shelfRow alloc placed rowCount rowStart (row ++ [transform]) = {
      placed := placed ++ (rowStandings 0 rowStart row).map (Standing.place alloc) ++
        [alloc (createPlacedPiece transform (rowWidth row) rowStart)]
      rowCount := rowCount
      cursorGrid := rowWidth row + transform.widthGrid
      rowStartGrid := rowStart
      rowHeightGrid := max (rowHeight row) transform.heightGrid } := by
    unfold shelfRow
    rw [rowHeight_concat hsized, rowWidth_append, rowStandings_append, List.map_append,
      ← List.append_assoc, zero_add]
    simp [rowStandings, rowWidth, Standing.place]
  rw [hrow]
  rfl

/-- **The shelf from within a row**: it is built where every transform has the sheet's size and
the stack of next-fit rows is not too high. -/
theorem foldlM_placeShelfEntry {rest : List (SelectedTransform F)} (hrow : row ≠ [])
    (hrowSized : ∀ t ∈ row, Sized t) (hsized : ∀ t ∈ rest, Sized t) {rowStart : ℤ}
    (hheight : rowStart + rowHeight row ≤ requested.longAxisGrid) (placed : List (PlacedArc heap))
    (rowCount : ℕ) :
    (rest.foldlM (placeShelfEntry alloc requested)
      (shelfRow alloc placed (rowCount + 1) rowStart row)).map ShelfRow.toShelfLayout =
      if (∀ t ∈ rest, t.widthGrid ≤ requested.shortAxisGrid ∧
          t.heightGrid ≤ requested.longAxisGrid) ∧
        rowStart + stackHeight (nextFitFrom requested.shortAxisGrid row rest) ≤
          requested.longAxisGrid then
        some ⟨placed ++ (stackStandings rowStart (nextFitFrom requested.shortAxisGrid row rest)).map
          (Standing.place alloc), rowCount + (nextFitFrom requested.shortAxisGrid row rest).length⟩
      else none := by
  induction rest generalizing row rowStart placed rowCount with
  | nil =>
      have hstack : stackHeight [row] = rowHeight row := by simp [stackHeight]
      rw [nextFitFrom, hstack, if_pos ⟨by simp, hheight⟩]
      simp [shelfRow, stackStandings]
  | cons transform rest ih =>
      have htransform := hsized transform List.mem_cons_self
      have hsized' : ∀ t ∈ rest, Sized t := fun t ht => hsized t (List.mem_cons_of_mem _ ht)
      have hsingle : rowHeight [transform] = transform.heightGrid :=
        max_eq_left htransform.height.le
      rw [List.foldlM_cons]
      by_cases hsize : transform.widthGrid ≤ requested.shortAxisGrid ∧
        transform.heightGrid ≤ requested.longAxisGrid
      · rw [nextFitFrom]
        split
        · rename_i hfull
          rw [placeShelfEntry_eq alloc htransform hsize.1 hsize.2
            (breakRow_of_full alloc hrow hrowSized hfull placed _ rowStart), List.nil_append]
          have hstack := rowHeight_le_stackHeight_nextFitFrom requested.shortAxisGrid [transform]
            rest
          rw [hsingle] at hstack
          rw [stackHeight_cons, ← add_assoc]
          split
          · rw [if_neg (by omega)]
            rfl
          · refine (ih (List.cons_ne_nil transform []) (by simpa using htransform) hsized' (by omega)
              _ _).trans ?_
            rw [stackStandings, List.map_append, List.append_assoc, List.length_cons]
            refine if_congr (by simp [hsize]) (congrArg some ?_) rfl
            congr 1
            omega
        · rename_i hfits
          rw [placeShelfEntry_eq alloc htransform hsize.1 hsize.2
            (breakRow_of_fits alloc (not_lt.1 hfits) placed _ rowStart)]
          have hstack := rowHeight_le_stackHeight_nextFitFrom requested.shortAxisGrid
            (row ++ [transform]) rest
          rw [rowHeight_concat htransform] at hstack
          have hle := le_max_right (rowHeight row) transform.heightGrid
          split
          · rw [if_neg (by omega)]
            rfl
          · refine (ih (List.append_ne_nil_of_left_ne_nil hrow _) ?_ hsized' ?_ _ _).trans ?_
            · intro t ht
              rcases List.mem_append.1 ht with ht | ht
              · exact hrowSized t ht
              · exact List.mem_singleton.1 ht ▸ htransform
            · rw [rowHeight_concat htransform]
              rcases max_choice (rowHeight row) transform.heightGrid with h | h <;> omega
            · exact if_congr (by simp [hsize]) rfl rfl
      · have hnone : placeShelfEntry alloc requested
            (shelfRow alloc placed (rowCount + 1) rowStart row) transform = none := by
          unfold placeShelfEntry
          rw [if_pos (by omega)]
        rw [hnone, if_neg fun h => hsize (h.1 transform List.mem_cons_self)]
        rfl

end

/-- A stack stands to the right of and above its corner. -/
theorem corner_le_of_mem_stack {rows : List (List (SelectedTransform F))}
    (hsized : ∀ row ∈ rows, ∀ t ∈ row, Sized t) {y : ℤ} {standing : Standing F}
    (h : standing ∈ stackStandings y rows) : 0 ≤ standing.x ∧ y ≤ standing.y := by
  induction rows generalizing y with
  | nil => cases h
  | cons row rows ih =>
      rcases List.mem_append.1 h with h | h
      · have hwithin := (packedIn_row (hsized row List.mem_cons_self)
          (fun t ht => height_le_rowHeight ht) 0 y).within _ (List.mem_map_of_mem h)
        exact ⟨hwithin.left, hwithin.bottom⟩
      · obtain ⟨hx, hy⟩ := ih (fun r hr => hsized r (List.mem_cons_of_mem _ hr)) h
        exact ⟨hx, (le_add_of_nonneg_right (rowHeight_nonneg row)).trans hy⟩

/-- One of the last row ends where the stack ends. -/
theorem exists_top_eq {rows : List (List (SelectedTransform F))} (hne : rows ≠ [])
    (hrows : ∀ row ∈ rows, row ≠ []) (hsized : ∀ row ∈ rows, ∀ t ∈ row, Sized t) (y : ℤ) :
    ∃ standing ∈ stackStandings y rows, standing.box.top = y + stackHeight rows := by
  induction rows generalizing y with
  | nil => exact absurd rfl hne
  | cons row rows ih =>
      obtain ⟨hrow, hrows⟩ := List.forall_mem_cons.1 hrows
      obtain ⟨hrowSized, hsized⟩ := List.forall_mem_cons.1 hsized
      rw [stackStandings, stackHeight_cons, ← add_assoc]
      rcases eq_or_ne rows [] with rfl | hrest
      · obtain ⟨standing, hmem, heq⟩ := exists_rowTop_eq hrow hrowSized 0 y
        exact ⟨standing, List.mem_append_left _ hmem, heq.trans (add_zero _).symm⟩
      · obtain ⟨standing, hmem, heq⟩ := ih hrest hrows hsized (y + rowHeight row)
        exact ⟨standing, List.mem_append_right _ hmem, heq⟩

/-- The sheet in its normalized axes. -/
def RequestedAxes.frame (requested : RequestedAxes) : Box ℤ :=
  ⟨0, 0, requested.shortAxisGrid, requested.longAxisGrid⟩

theorem rowWidth_le_of_mem_nextFitRows {short : ℤ} {transforms : List (SelectedTransform F)}
    (h : ∀ t ∈ transforms, t.widthGrid ≤ short) :
    ∀ row ∈ nextFitRows short transforms, rowWidth row ≤ short := by
  cases transforms with
  | nil => exact fun _ hrow => absurd hrow List.not_mem_nil
  | cons first rest =>
      refine rowWidth_le_of_mem_nextFitFrom ?_ fun t ht => h t (List.mem_cons_of_mem _ ht)
      simpa [rowWidth] using h first List.mem_cons_self

theorem sized_of_mem_nextFitRows (short : ℤ) {transforms : List (SelectedTransform F)}
    (hsized : ∀ t ∈ transforms, Sized t) :
    ∀ row ∈ nextFitRows short transforms, ∀ t ∈ row, Sized t := by
  intro row hrow t ht
  refine hsized t ?_
  rw [← (nextFit_nextFitRows short transforms).flatten]
  exact List.mem_flatten.2 ⟨row, hrow, ht⟩

/-- What the shelf tests: a stack is in the sheet where each transform has its size and the
stack is not too high. -/
theorem stack_within_iff {requested : RequestedAxes} {transforms : List (SelectedTransform F)}
    (hsized : ∀ t ∈ transforms, Sized t) (hne : transforms ≠ []) :
    (∀ standing ∈ stackStandings 0 (nextFitRows requested.shortAxisGrid transforms),
      standing.box.Within requested.frame) ↔
      (∀ t ∈ transforms, t.widthGrid ≤ requested.shortAxisGrid ∧
        t.heightGrid ≤ requested.longAxisGrid) ∧
      stackHeight (nextFitRows requested.shortAxisGrid transforms) ≤ requested.longAxisGrid := by
  have hfit := nextFit_nextFitRows requested.shortAxisGrid transforms
  have hrows := sized_of_mem_nextFitRows requested.shortAxisGrid hsized
  constructor
  · intro hwithin
    constructor
    · intro t ht
      rw [← hfit.flatten, ← transforms_stackStandings 0] at ht
      obtain ⟨standing, hmem, rfl⟩ := List.mem_map.1 ht
      obtain ⟨hx, hy⟩ := corner_le_of_mem_stack hrows hmem
      have hright : standing.x + standing.transform.widthGrid ≤ 0 + requested.shortAxisGrid :=
        (hwithin standing hmem).right
      have htop : standing.y + standing.transform.heightGrid ≤ 0 + requested.longAxisGrid :=
        (hwithin standing hmem).top
      constructor <;> omega
    · have hne' : nextFitRows requested.shortAxisGrid transforms ≠ [] := fun hnil =>
        hne (by rw [← hfit.flatten, hnil]; rfl)
      obtain ⟨standing, hmem, heq⟩ := exists_top_eq hne' hfit.nonempty hrows 0
      have htop : standing.box.top ≤ 0 + requested.longAxisGrid := (hwithin standing hmem).top
      omega
  · rintro ⟨hsize, hheight⟩ standing hmem
    have hwidth := rowWidth_le_of_mem_nextFitRows fun t ht => (hsize t ht).1
    exact ((packedIn_stack hrows hwidth 0).within _ (List.mem_map_of_mem hmem)).trans
      ⟨le_rfl, le_rfl, le_rfl, Int.add_le_add_left hheight 0⟩

/-- The shelf is the stack of next-fit rows, built where all of it is in the sheet. -/
theorem constructNextFitShelf_eq_some_iff (alloc : IrregularPlacedPiece F → PlacedArc heap)
    {requested : RequestedAxes} {transforms : List (SelectedTransform F)}
    (hsized : ∀ t ∈ transforms, Sized t) {shelf : ShelfLayout heap} :
    constructNextFitShelf alloc transforms requested = some shelf ↔
      (∀ standing ∈ stackStandings 0 (nextFitRows requested.shortAxisGrid transforms),
        standing.box.Within requested.frame) ∧
      shelf = ⟨(stackStandings 0 (nextFitRows requested.shortAxisGrid transforms)).map
        (Standing.place alloc), (nextFitRows requested.shortAxisGrid transforms).length⟩ := by
  cases transforms with
  | nil =>
      unfold constructNextFitShelf nextFitRows stackStandings
      simp [eq_comm]
  | cons first rest =>
      have hfirst := hsized first List.mem_cons_self
      rw [stack_within_iff hsized (List.cons_ne_nil first rest)]
      have hstart : breakRow requested.shortAxisGrid (shelfRow alloc [] 1 0 []) first =
          shelfRow alloc [] 1 0 [] := if_neg fun h => absurd h.1 (lt_irrefl 0)
      have hsingle : rowHeight [first] = first.heightGrid := max_eq_left hfirst.height.le
      have hstack := rowHeight_le_stackHeight_nextFitFrom requested.shortAxisGrid [first] rest
      rw [hsingle] at hstack
      show (do
        let row ← placeShelfEntry alloc requested (shelfRow alloc [] 1 0 []) first
        rest.foldlM (placeShelfEntry alloc requested) row).map ShelfRow.toShelfLayout = _ ↔ _
      rw [nextFitRows]
      by_cases hsize : first.widthGrid ≤ requested.shortAxisGrid ∧
        first.heightGrid ≤ requested.longAxisGrid
      · rw [placeShelfEntry_eq alloc hfirst hsize.1 hsize.2 hstart, if_neg (by omega),
          Option.bind_eq_bind, Option.bind_some]
        show (rest.foldlM (placeShelfEntry alloc requested)
          (shelfRow alloc [] (0 + 1) 0 [first])).map ShelfRow.toShelfLayout = _ ↔ _
        rw [foldlM_placeShelfEntry alloc (List.cons_ne_nil first []) (by simpa using hfirst)
          (fun t ht => hsized t (List.mem_cons_of_mem _ ht)) (by rw [hsingle]; omega) [] 0]
        rw [Option.ite_none_right_eq_some, zero_add, zero_add, List.nil_append, Option.some.injEq]
        refine and_congr (and_congr_left' ?_) eq_comm
        rw [List.forall_mem_cons]
        exact (and_iff_right hsize).symm
      · have hnone : placeShelfEntry alloc requested (shelfRow alloc [] 1 0 []) first = none := by
          unfold placeShelfEntry
          rw [if_pos (by omega)]
        rw [hnone]
        refine iff_of_false (by simp) fun h => hsize (h.1.1 first List.mem_cons_self)

/-- Next-fit rows that are in the sheet are packed there. -/
theorem packedIn_nextFitRows {requested : RequestedAxes} {transforms : List (SelectedTransform F)}
    (hsized : ∀ t ∈ transforms, Sized t)
    (hwithin : ∀ standing ∈ stackStandings 0 (nextFitRows requested.shortAxisGrid transforms),
      standing.box.Within requested.frame) :
    PackedIn requested.frame
      ((stackStandings 0 (nextFitRows requested.shortAxisGrid transforms)).map Standing.box) := by
  rcases eq_or_ne transforms [] with rfl | hne
  · exact packedIn_nil _
  · have hsize := ((stack_within_iff hsized hne).1 hwithin).1
    refine ⟨fun box hbox => ?_, (packedIn_stack
      (sized_of_mem_nextFitRows requested.shortAxisGrid hsized)
      (rowWidth_le_of_mem_nextFitRows fun t ht => (hsize t ht).1) 0).apart⟩
    obtain ⟨standing, hmem, rfl⟩ := List.mem_map.1 hbox
    exact hwithin standing hmem

end PolygonNesting.PairFold
