import PolygonNesting.Archive.PeriodicCells
import PolygonNesting.Canonical.LayoutIdentity
import PolygonNesting.Lib.SeparatedText

set_option linter.unusedSectionVars false

/-!
# The key of a periodic cell

The key of a cell is the least of eight texts: for every quarter turn, the turned
members, moved to the origin and sorted, before the turned basis in either order.
The members' part depends on the turn only, so it is computed once for all bases.

The key names the cell up to these operations.  The one exception is a cell
without members: its texts are those of a cell whose only member has no grid point.
-/

namespace PolygonNesting

/-! ## §1  The key -/

def rotateGridQuarter (point : GridPoint) : QuarterTurn → GridPoint
  | .zero => point
  | .ninety => ⟨-point.y, point.x⟩
  | .oneEighty => ⟨-point.x, -point.y⟩
  | .twoSeventy => ⟨point.y, -point.x⟩

/-- The text of a point or of a basis vector. -/
def gridPointText (point : GridPoint) : String := toString point.x ++ "," ++ toString point.y

def canonicalCycle (points : List GridPoint) : String :=
  canonicalBidirectionalCyclicKey (points.map gridPointText)

def IntrinsicPeriodicRole.asStr : IntrinsicPeriodicRole → String
  | .p1 => "P1"
  | .p2 => "P2"

section

variable {F : Type} [LinearOrder F] [Zero F] [One F] [Add F] [Sub F] [Neg F]
  [Mul F] [Div F] [JsMath F]

/-- The member's polygon in the world; a member off the grid has no points. -/
def memberWorldPolygon (member : IntrinsicPeriodicBaseMember F) : List GridPoint :=
  (memberGridVertices member).getD []

/-- `canonical_cell_member_turn_keys`, the entry of one turn. -/
def canonicalCellMemberTurnKeys (members : List (IntrinsicPeriodicBaseMember F))
    (turn : QuarterTurn) : String :=
  let rotated := (members.map memberWorldPolygon).map fun polygon =>
    polygon.map (rotateGridQuarter · turn)
  let minX := (rotated.flatten.map GridPoint.x).min?.getD 0
  let minY := (rotated.flatten.map GridPoint.y).min?.getD 0
  let memberKeys := rotated.map fun polygon =>
    canonicalCycle (polygon.map fun point => ⟨point.x - minX, point.y - minY⟩)
  "|".intercalate (memberKeys.mergeSort keyLe)

end

/-- One variant: the members, then the basis vectors in the given order. -/
def cellVariant (memberKey : String) (first second : GridPoint) : String :=
  memberKey ++ ":" ++ gridPointText first ++ ";" ++ gridPointText second

def canonicalCellKey (role : IntrinsicPeriodicRole) (memberTurnKeys : QuarterTurn → String)
    (basis : GridPoint × GridPoint) : String :=
  let variants := quarterTurns.flatMap fun turn =>
    let first := rotateGridQuarter basis.1 turn
    let second := rotateGridQuarter basis.2 turn
    [cellVariant (memberTurnKeys turn) first second,
      cellVariant (memberTurnKeys turn) second first]
  role.asStr ++ ":" ++ (variants.mergeSort keyLe).head?.getD ""

/-! ## §2  The same cell -/

/-- A cell on the grid: the polygons of its members and its basis. -/
structure GridCell where
  members : List CanonicalGridPath
  first : CanonicalGridPoint
  second : CanonicalGridPoint

/-- Two cells that differ by the order of the members, a translation of all members, quarter
turns of members and basis, the order of the basis vectors, and the start vertices and
windings of the members' rings. -/
inductive SameCell : GridCell → GridCell → Prop where
  | refl (cell : GridCell) : SameCell cell cell
  | symm {cell cell' : GridCell} : SameCell cell cell' → SameCell cell' cell
  | trans {cell cell' cell'' : GridCell} : SameCell cell cell' → SameCell cell' cell'' →
      SameCell cell cell''
  | permute {members members' : List CanonicalGridPath} (first second : CanonicalGridPoint) :
      members.Perm members' → SameCell ⟨members, first, second⟩ ⟨members', first, second⟩
  | translate (dx dy : ℤ) (cell : GridCell) :
      SameCell cell { cell with members := translated dx dy cell.members }
  | turn (turn : QuarterTurn) (cell : GridCell) :
      SameCell cell ⟨turned turn cell.members, rotateGridPoint cell.first turn,
        rotateGridPoint cell.second turn⟩
  | swapBasis (cell : GridCell) : SameCell cell ⟨cell.members, cell.second, cell.first⟩
  | startVertex (before after : List CanonicalGridPath) (path : CanonicalGridPath) (n : ℕ)
      (first second : CanonicalGridPoint) :
      SameCell ⟨before ++ path :: after, first, second⟩
        ⟨before ++ path.rotate n :: after, first, second⟩
  | winding (before after : List CanonicalGridPath) (path : CanonicalGridPath)
      (first second : CanonicalGridPoint) :
      SameCell ⟨before ++ path :: after, first, second⟩
        ⟨before ++ path.reverse :: after, first, second⟩

/-- The point of the canonical grid. -/
def GridPoint.canonical (point : GridPoint) : CanonicalGridPoint := ⟨point.x, point.y⟩

/-- The cell of a list of members and a basis. -/
def gridCell {F : Type} [LinearOrder F] [Zero F] [One F] [Add F] [Sub F] [Neg F] [Mul F] [Div F]
    [JsMath F] (members : List (IntrinsicPeriodicBaseMember F)) (basis : GridPoint × GridPoint) :
    GridCell where
  members := members.map fun member => (memberWorldPolygon member).map GridPoint.canonical
  first := basis.1.canonical
  second := basis.2.canonical

/-- Members that are the same rings make the same cell. -/
theorem SameCell.of_sameRings {members members' : List CanonicalGridPath}
    (first second : CanonicalGridPoint) (h : SameRings members members') :
    SameCell ⟨members, first, second⟩ ⟨members', first, second⟩ :=
  h.closure (r := fun members members' =>
      SameCell ⟨members, first, second⟩ ⟨members', first, second⟩)
    (fun _ => .refl _) .trans (.permute first second)
    (fun before after path n => .startVertex before after path n first second)
    (fun before after path => .winding before after path first second)

theorem SameCell.length_eq {cell cell' : GridCell} (h : SameCell cell cell') :
    cell.members.length = cell'.members.length := by
  induction h with
  | refl => rfl
  | symm _ ih => exact ih.symm
  | trans _ _ ih ih' => exact ih.trans ih'
  | permute _ _ hperm => exact hperm.length_eq
  | translate dx dy cell => exact (List.length_map _).symm
  | turn turn cell => exact (List.length_map _).symm
  | swapBasis => rfl
  | startVertex before after path n => simp
  | winding before after path => simp

/-! ## §3  The text of the members -/

/-- The text of members that are in place. -/
def memberText (paths : List CanonicalGridPath) : String :=
  "|".intercalate ((paths.map canonicalRing).mergeSort keyLe)

/-- The key of a ring has digits, signs, commas and semicolons only. -/
theorem notMem_canonicalRing {symbol : Char} (hdigit : symbol.isDigit = false)
    (hminus : symbol ≠ '-') (hcomma : symbol ≠ ',') (hsemicolon : symbol ≠ ';')
    (path : CanonicalGridPath) : symbol ∉ (canonicalRing path).toList := by
  refine notMem_canonicalBidirectionalCyclicKey hsemicolon fun token htoken => ?_
  obtain ⟨point, _, rfl⟩ := List.mem_map.1 htoken
  exact notMem_gridPointToken hdigit hminus hcomma point

theorem colon_notMem_memberText (paths : List CanonicalGridPath) :
    ':' ∉ (memberText paths).toList := by
  refine SeparatedText.not_mem_intercalate (by decide) fun word hword => ?_
  obtain ⟨path, _, rfl⟩ := List.mem_map.1 ((List.mergeSort_perm _ _).mem_iff.1 hword)
  exact notMem_canonicalRing (by decide) (by decide) (by decide) (by decide) path

/-- **The text of the members names them**, when there are any. -/
theorem memberText_eq_iff {paths paths' : List CanonicalGridPath}
    (hempty : paths = [] ↔ paths' = []) :
    memberText paths = memberText paths' ↔ SameRings paths paths' := by
  have hclean : ∀ paths : List CanonicalGridPath,
      ∀ word ∈ (paths.map canonicalRing).mergeSort keyLe, '|' ∉ word.toList := by
    intro paths word hword
    obtain ⟨path, _, rfl⟩ := List.mem_map.1 ((List.mergeSort_perm _ _).mem_iff.1 hword)
    exact notMem_canonicalRing (by decide) (by decide) (by decide) (by decide) path
  have hnil : ∀ paths : List CanonicalGridPath,
      (paths.map canonicalRing).mergeSort keyLe = [] → paths = [] := by
    intro paths h
    have hlength := congrArg List.length h
    rw [List.length_mergeSort, List.length_map] at hlength
    exact List.length_eq_zero_iff.1 hlength
  rw [← map_canonicalRing_perm_iff, ← mergeSort_keyLe_eq_iff]
  unfold memberText
  refine ⟨fun h => ?_, fun h => by rw [h]⟩
  by_cases hne : paths = []
  · rw [hne, hempty.1 hne]
  · exact SeparatedText.intercalate_inj (c := '|') rfl (hclean paths) (hclean paths')
      (fun h => hne (hnil _ h)) (fun h => hne (hempty.2 (hnil _ h))) h

/-! ## §4  The variants -/

def GridCell.turned (turn : QuarterTurn) (cell : GridCell) : GridCell :=
  ⟨PolygonNesting.turned turn cell.members, rotateGridPoint cell.first turn,
    rotateGridPoint cell.second turn⟩

def GridCell.swapped (cell : GridCell) : GridCell := ⟨cell.members, cell.second, cell.first⟩

/-- The text of a cell as it is turned. -/
def GridCell.text (cell : GridCell) : String :=
  memberText (anchored cell.members) ++ ":" ++ gridPointToken cell.first ++ ";" ++
    gridPointToken cell.second

def GridCell.variants (cell : GridCell) : List String :=
  quarterTurns.flatMap fun turn => [(cell.turned turn).text, (cell.turned turn).swapped.text]

/-- A text that two cells share names both. -/
theorem GridCell.sameCell_of_text {cell cell' : GridCell}
    (hempty : cell.members = [] ↔ cell'.members = []) (h : cell.text = cell'.text) :
    SameCell cell cell' := by
  unfold GridCell.text at h
  simp only [String.append_assoc] at h
  obtain ⟨hmembers, h⟩ := SeparatedText.append_inj (c := ':') rfl
    (colon_notMem_memberText _) (colon_notMem_memberText _) h
  have hclean : ∀ point, ';' ∉ (gridPointToken point).toList :=
    notMem_gridPointToken (by decide) (by decide) (by decide)
  obtain ⟨hfirst, hsecond⟩ := SeparatedText.append_inj (c := ';') rfl (hclean _) (hclean _) h
  have hanchored : anchored cell.members = [] ↔ anchored cell'.members = [] := by
    unfold anchored
    rw [List.map_eq_nil_iff, List.map_eq_nil_iff, hempty]
  have hrings := (memberText_eq_iff hanchored).1 hmembers
  obtain ⟨members, first, second⟩ := cell
  obtain ⟨members', first', second'⟩ := cell'
  obtain rfl := gridPointToken_injective hfirst
  obtain rfl := gridPointToken_injective hsecond
  exact ((SameCell.translate _ _ _).trans (.of_sameRings first second hrings)).trans
    (SameCell.translate _ _ _).symm

/-- A variant is the text of the same cell. -/
theorem GridCell.exists_of_mem_variants {cell : GridCell} {text : String}
    (h : text ∈ cell.variants) : ∃ variant : GridCell, text = variant.text ∧
      SameCell cell variant ∧ (variant.members = [] ↔ cell.members = []) := by
  obtain ⟨turn, _, hmem⟩ := List.mem_flatMap.1 h
  have hturned : SameCell cell (cell.turned turn) := .turn turn cell
  rcases List.mem_cons.1 hmem with rfl | hmem
  · exact ⟨_, rfl, hturned, List.map_eq_nil_iff⟩
  · rw [List.mem_singleton] at hmem
    exact ⟨_, hmem, hturned.trans (.swapBasis _), List.map_eq_nil_iff⟩

/-- The variants of cells that are the same turn by turn. -/
theorem GridCell.variants_perm {cell cell' : GridCell} (next : QuarterTurn → QuarterTurn)
    (hnext : (quarterTurns.map next).Perm quarterTurns)
    (h : ∀ turn, [(cell'.turned turn).text, (cell'.turned turn).swapped.text].Perm
      [(cell.turned (next turn)).text, (cell.turned (next turn)).swapped.text]) :
    cell'.variants.Perm cell.variants := by
  unfold GridCell.variants
  refine (List.Perm.flatMap_left _ fun turn _ => h turn).trans ?_
  have hmap := (hnext.flatMap_right fun turn =>
    [(cell.turned turn).text, (cell.turned turn).swapped.text])
  rwa [List.flatMap_map] at hmap

theorem rotateGridPoint_then (first second : QuarterTurn) (point : CanonicalGridPoint) :
    rotateGridPoint (rotateGridPoint point first) second =
      rotateGridPoint point (first.then second) := by
  cases first <;> cases second <;> simp only [rotateGridPoint, QuarterTurn.then, neg_neg]

/-- The same rings in place are the same rings at every turn. -/
theorem GridCell.variants_of_sameRings {members members' : List CanonicalGridPath}
    (first second : CanonicalGridPoint)
    (h : ∀ turn, SameRings (anchored (PolygonNesting.turned turn members'))
      (anchored (PolygonNesting.turned turn members))) :
    (GridCell.mk members' first second).variants.Perm (GridCell.mk members first second).variants := by
  have hkey : ∀ {paths paths' : List CanonicalGridPath}, SameRings paths paths' →
      memberText paths = memberText paths' := by
    intro paths paths' hrings
    unfold memberText
    rw [mergeSort_keyLe_eq_iff.2 (map_canonicalRing_perm_iff.2 hrings)]
  refine GridCell.variants_perm id (by rw [List.map_id]) fun turn => .of_eq ?_
  unfold GridCell.text GridCell.swapped GridCell.turned
  dsimp only [id]
  rw [hkey (h turn)]

/-- **The same cell has the same variants**, in another order. -/
theorem SameCell.variants_perm {cell cell' : GridCell} (h : SameCell cell cell') :
    cell'.variants.Perm cell.variants := by
  induction h with
  | refl => exact .refl _
  | symm _ ih => exact ih.symm
  | trans _ _ ih ih' => exact ih'.trans ih
  | permute first second hperm =>
      exact GridCell.variants_of_sameRings first second fun turn =>
        ((sameRings_of_perm hperm.symm).turned turn).anchored
  | translate dx dy cell =>
      refine GridCell.variants_of_sameRings cell.first cell.second fun turn => ?_
      rw [turned_translated, anchored_translated]
      exact sameRings_of_perm (.refl _)
  | turn turn cell =>
      refine GridCell.variants_perm turn.then (quarterTurns_then_perm turn)
        fun next => .of_eq ?_
      unfold GridCell.turned
      dsimp only
      rw [turned_turned, rotateGridPoint_then, rotateGridPoint_then]
  | swapBasis cell =>
      refine GridCell.variants_perm id (by rw [List.map_id]) fun turn => ?_
      exact List.Perm.swap _ _ _
  | startVertex before after path n first second =>
      exact GridCell.variants_of_sameRings first second fun turn =>
        ((sameRings_replace (.inl (List.IsRotated.forall path n)) before after).turned turn).anchored
  | winding before after path first second =>
      exact GridCell.variants_of_sameRings first second fun turn =>
        ((sameRings_replace (.inr (.refl _)) before after).turned turn).anchored

/-! ## §5  The key names the cell -/

theorem lowerLeft_eq (points : List GridPoint) :
    lowerLeft (points.map GridPoint.canonical) =
      ⟨(points.map GridPoint.x).min?.getD 0, (points.map GridPoint.y).min?.getD 0⟩ := by
  cases points with
  | nil => rfl
  | cons point points =>
      simp only [List.map_cons, lowerLeft, List.min?_cons', Option.getD_some, List.foldl_map]
      rfl

section

variable {F : Type} [LinearOrder F] [Zero F] [One F] [Add F] [Sub F] [Neg F]
  [Mul F] [Div F] [JsMath F]

/-- The entry of a turn is the text of the turned members in place. -/
theorem canonicalCellMemberTurnKeys_eq (members : List (IntrinsicPeriodicBaseMember F))
    (basis : GridPoint × GridPoint) (turn : QuarterTurn) :
    canonicalCellMemberTurnKeys members turn =
      memberText (anchored (turned turn (gridCell members basis).members)) := by
  have hrotate : ∀ polygon : List GridPoint,
      (polygon.map (rotateGridQuarter · turn)).map GridPoint.canonical =
        (polygon.map GridPoint.canonical).map (rotateGridPoint · turn) := by
    intro polygon
    rw [List.map_map, List.map_map]
    refine List.map_congr_left fun point _ => ?_
    cases turn <;> rfl
  have hturned : turned turn (gridCell members basis).members =
      ((members.map memberWorldPolygon).map fun polygon =>
        polygon.map (rotateGridQuarter · turn)).map fun polygon =>
          polygon.map GridPoint.canonical := by
    unfold turned gridCell
    simp only [List.map_map]
    exact List.map_congr_left fun member _ => (hrotate (memberWorldPolygon member)).symm
  unfold canonicalCellMemberTurnKeys memberText anchored
  dsimp only
  rw [hturned]
  generalize (members.map memberWorldPolygon).map (fun polygon =>
    polygon.map (rotateGridQuarter · turn)) = rotated
  rw [← List.map_flatten, lowerLeft_eq, List.map_map, List.map_map]
  congr 2
  refine List.map_congr_left fun polygon _ => ?_
  unfold canonicalCycle canonicalRing
  simp only [Function.comp_apply, List.map_map]
  congr 1

theorem canonicalCellKey_eq (role : IntrinsicPeriodicRole)
    (members : List (IntrinsicPeriodicBaseMember F)) (basis : GridPoint × GridPoint) :
    canonicalCellKey role (canonicalCellMemberTurnKeys members) basis =
      role.asStr ++ ":" ++
        ((gridCell members basis).variants.mergeSort keyLe).head?.getD "" := by
  unfold canonicalCellKey GridCell.variants
  dsimp only
  congr 4
  refine List.flatMap_congr fun turn _ => ?_
  rw [canonicalCellMemberTurnKeys_eq members basis turn]
  cases turn <;> rfl

/-- **The key of a cell is a canonical form.**  The same cells have the same key; and two cells
with one key, both or neither without members, are the same. -/
theorem canonicalCellKey_canonical (role : IntrinsicPeriodicRole)
    (members members' : List (IntrinsicPeriodicBaseMember F))
    (basis basis' : GridPoint × GridPoint) :
    (SameCell (gridCell members basis) (gridCell members' basis') →
      canonicalCellKey role (canonicalCellMemberTurnKeys members) basis =
        canonicalCellKey role (canonicalCellMemberTurnKeys members') basis') ∧
    ((members = [] ↔ members' = []) →
      canonicalCellKey role (canonicalCellMemberTurnKeys members) basis =
        canonicalCellKey role (canonicalCellMemberTurnKeys members') basis' →
      SameCell (gridCell members basis) (gridCell members' basis')) := by
  rw [canonicalCellKey_eq, canonicalCellKey_eq]
  constructor
  · intro h
    rw [mergeSort_keyLe_eq_iff.2 h.variants_perm]
  · intro hempty h
    have hleast : ∀ cell : GridCell,
        (cell.variants.mergeSort keyLe).head?.getD "" ∈ cell.variants := by
      intro cell
      obtain ⟨text, hmem, htext, _⟩ :=
        exists_least_key (show cell.variants ≠ [] from List.cons_ne_nil _ _)
      rwa [htext]
    obtain ⟨variant, htext, hsame, hvariant⟩ := GridCell.exists_of_mem_variants
      (hleast (gridCell members basis))
    obtain ⟨variant', htext', hsame', hvariant'⟩ := GridCell.exists_of_mem_variants
      (hleast (gridCell members' basis'))
    have hmembers : (gridCell members basis).members = [] ↔
        (gridCell members' basis').members = [] := by
      unfold gridCell
      rw [List.map_eq_nil_iff, List.map_eq_nil_iff, hempty]
    have htexts : variant.text = variant'.text := by
      rw [← htext, ← htext']
      exact String.append_right_inj _ |>.1 h
    have hvariants := GridCell.sameCell_of_text
      (hvariant.trans (hmembers.trans hvariant'.symm)) htexts
    exact (hsame.trans hvariants).trans hsame'.symm

end

/-- A member without grid points. -/
def memberOffGrid : IntrinsicPeriodicBaseMember ℚ where
  piece := ⟨none, "piece", ⟨"piece", ⟨[]⟩, ⟨[]⟩, ⟨0, 0⟩⟩, []⟩
  geometry := ⟨"piece", ⟨0, 0, false, .orthogonal⟩, ⟨[]⟩, ⟨0, 0, 0, 0⟩⟩
  point := ⟨0, 0⟩

/-- One member without grid points has the key of no members, with the same basis. -/
theorem canonicalCellKey_offGrid :
    canonicalCellKey .p1 (canonicalCellMemberTurnKeys [memberOffGrid]) (⟨1, 0⟩, ⟨0, 1⟩) =
        canonicalCellKey .p1 (canonicalCellMemberTurnKeys ([] : List
          (IntrinsicPeriodicBaseMember ℚ))) (⟨1, 0⟩, ⟨0, 1⟩) ∧
      ¬ SameCell (gridCell [memberOffGrid] (⟨1, 0⟩, ⟨0, 1⟩))
        (gridCell ([] : List (IntrinsicPeriodicBaseMember ℚ)) (⟨1, 0⟩, ⟨0, 1⟩)) := by
  constructor
  · have hturn : canonicalCellMemberTurnKeys [memberOffGrid] =
        canonicalCellMemberTurnKeys ([] : List (IntrinsicPeriodicBaseMember ℚ)) := by
      funext turn
      cases turn <;> decide +kernel
    rw [hturn]
  · intro h
    exact absurd h.length_eq (by decide)

end PolygonNesting
