import Mathlib.Data.Int.Range
import Mathlib.Data.List.AList
import PolygonNesting.Geometry.Convex

/-!
# The placed-collision spatial index

A persistent uniform grid over the placed pieces' translated rings.  An entry
with a usable cell range is filed under every cell of the range; an entry with
no bounds, or with a range too large to file, goes to the fallback list.  A
query marks the fallback entries and the entries of its own cells, or all of
them when it has no usable range, and then filters the entries in order.

The theorem of this module is that the grid is invisible: a query returns what
the plain filter over all entries returns.
-/

namespace PolygonNesting

variable {F : Type} [LinearOrder F] [Zero F] [One F] [Add F] [Neg F] [Div F]
  [JsNumber F] {heap : ℕ → IrregularPlacedPiece F}

/-! ## §1  Entries and cells -/

def defaultPlacedCollisionGridCellSizeMm : F := JsNumber.ofNat 64

def maxGridCellsPerEntry : ℤ := 4096
def maxGridCellsPerQuery : ℤ := 4096

def jsMaxSafeInteger : ℤ := 9007199254740991

structure IndexedPlacedCollisionPolygon (F : Type) where
  polygonWithBounds : IrregularPolygonWithBounds F
  winding : ConvexPolygonWinding
  deriving DecidableEq

inductive PlacedCollisionValidation (F : Type) where
  | valid (polygon : IndexedPlacedCollisionPolygon F)
  | invalid (message : String)
  deriving DecidableEq

def PlacedCollisionValidation.bounds :
    PlacedCollisionValidation F → Option (IrregularBounds F)
  | .valid polygon => some polygon.polygonWithBounds.bounds
  | .invalid _ => none

structure PlacedCollisionSpatialEntry (heap : ℕ → IrregularPlacedPiece F) where
  placed : PlacedArc heap
  validation : PlacedCollisionValidation F
  ordinal : ℕ
  deriving DecidableEq

structure GridCellRange where
  minX : ℤ
  minY : ℤ
  maxX : ℤ
  maxY : ℤ
  deriving DecidableEq

def isJsSafeInteger (value : ℤ) : Bool := decide (|value| ≤ jsMaxSafeInteger)

/-- The cells a bounds box touches, unless they are too many or a cell number
is not a safe integer.  Past the safe integers the source's `f64` width and
cell count are rounded, but never back to a count it accepts. -/
def gridCellRange (bounds : IrregularBounds F) (cellSizeMm : F)
    (maximumCellCount : ℤ) : Option GridCellRange :=
  if !JsNumber.isFinite bounds.minX || !JsNumber.isFinite bounds.minY ||
      !JsNumber.isFinite bounds.maxX || !JsNumber.isFinite bounds.maxY ||
      decide (bounds.maxX < bounds.minX) ||
      decide (bounds.maxY < bounds.minY) then none
  else do
    let minX ← JsNumber.floor (bounds.minX / cellSizeMm)
    let minY ← JsNumber.floor (bounds.minY / cellSizeMm)
    let maxX ← JsNumber.floor (bounds.maxX / cellSizeMm)
    let maxY ← JsNumber.floor (bounds.maxY / cellSizeMm)
    let width := maxX - minX + 1
    let height := maxY - minY + 1
    let cellCount := width * height
    if isJsSafeInteger minX && isJsSafeInteger minY && isJsSafeInteger maxX &&
        isJsSafeInteger maxY && isJsSafeInteger width &&
        isJsSafeInteger height && isJsSafeInteger cellCount &&
        decide (1 ≤ cellCount) && decide (cellCount ≤ maximumCellCount) then
      some ⟨minX, minY, maxX, maxY⟩
    else none

def cellKey (cellX cellY : ℤ) : String := toString cellX ++ ":" ++ toString cellY

/-- The keys of a range, column by column. -/
def GridCellRange.keys (range : GridCellRange) : List String :=
  (Int.range range.minX (range.maxX + 1)).flatMap fun cellX =>
    (Int.range range.minY (range.maxY + 1)).map fun cellY => cellKey cellX cellY

def validCellSize (cellSizeMm : F) : F :=
  if JsNumber.isFinite cellSizeMm && decide (0 < cellSizeMm) then cellSizeMm
  else defaultPlacedCollisionGridCellSizeMm

/-- The translation of a placed piece. -/
def placedTranslation (placed : IrregularPlacedPiece F) : IrregularPoint F :=
  ⟨placed.placement.transform.translateX, placed.placement.transform.translateY⟩

def makeEntry (placed : PlacedArc heap) (ordinal : ℕ) :
    PlacedCollisionSpatialEntry heap where
  placed := placed
  validation :=
    match translatePolygonWithBounds placed.piece.collisionGeometry.polygon
        (placedTranslation placed.piece) with
    | none => .invalid
        "placed translation must produce finite polygon coordinates."
    | some translated =>
        match validateStrictBoundary translated.polygon.points with
        | .invalid message => .invalid message
        | .valid winding => .valid ⟨translated, winding⟩
  ordinal := ordinal

/-! ## §2  The index -/

structure PlacedCollisionSpatialIndex (heap : ℕ → IrregularPlacedPiece F) where
  cellSizeMm : F
  entries : List (PlacedCollisionSpatialEntry heap)
  buckets : AList fun _ : String => List (PlacedCollisionSpatialEntry heap)
  fallbackEntries : List (PlacedCollisionSpatialEntry heap)

/-- `makeEmptyPlacedCollisionSpatialIndex`. -/
def makeEmptyPlacedCollisionSpatialIndex (cellSizeMm : Option F) :
    PlacedCollisionSpatialIndex heap where
  cellSizeMm := validCellSize
    (cellSizeMm.getD defaultPlacedCollisionGridCellSizeMm)
  entries := []
  buckets := ∅
  fallbackEntries := []

/-- File an entry under one cell. -/
def fileUnder (entry : PlacedCollisionSpatialEntry heap)
    (buckets : AList fun _ : String => List (PlacedCollisionSpatialEntry heap))
    (key : String) :
    AList fun _ : String => List (PlacedCollisionSpatialEntry heap) :=
  buckets.insert key ((buckets.lookup key).getD [] ++ [entry])

namespace PlacedCollisionSpatialIndex

/-- The range an entry is filed under. -/
def entryRange (cellSizeMm : F) (entry : PlacedCollisionSpatialEntry heap) :
    Option GridCellRange :=
  entry.validation.bounds.bind fun bounds =>
    gridCellRange bounds cellSizeMm maxGridCellsPerEntry

def add (index : PlacedCollisionSpatialIndex heap) (placed : PlacedArc heap) :
    PlacedCollisionSpatialIndex heap :=
  let entry := makeEntry placed index.entries.length
  match entryRange index.cellSizeMm entry with
  | none => { index with
      entries := index.entries ++ [entry]
      fallbackEntries := index.fallbackEntries ++ [entry] }
  | some range => { index with
      entries := index.entries ++ [entry]
      buckets := range.keys.foldl (fileUnder entry) index.buckets }

/-- Same length, and the same allocation at every position. -/
def «matches» (index : PlacedCollisionSpatialIndex heap)
    (placed : List (PlacedArc heap)) : Bool :=
  placed.length == index.entries.length &&
    (placed.zip index.entries).all fun pair =>
      decide (pair.1.address = pair.2.placed.address)

/-- Mark an ordinal; the source's vector index is in range by construction. -/
def mark (selected : List Bool) (entry : PlacedCollisionSpatialEntry heap) :
    List Bool :=
  selected.set entry.ordinal true

/-- The entries a query marks, in the order it marks them. -/
def marked (index : PlacedCollisionSpatialIndex heap)
    (bounds : Option (IrregularBounds F)) :
    List (PlacedCollisionSpatialEntry heap) :=
  index.fallbackEntries ++
    match bounds.bind fun b =>
        gridCellRange b index.cellSizeMm maxGridCellsPerQuery with
    | none => index.entries
    | some range => range.keys.flatMap fun key =>
        (index.buckets.lookup key).getD []

/-- What a marked entry must pass: a valid entry must not be disjoint from the
query bounds. -/
def meets (bounds : Option (IrregularBounds F))
    (entry : PlacedCollisionSpatialEntry heap) : Bool :=
  match entry.validation, bounds with
  | .invalid _, _ => true
  | .valid _, none => true
  | .valid polygon, some b => !areDisjoint polygon.polygonWithBounds.bounds b

def query (index : PlacedCollisionSpatialIndex heap)
    (bounds : Option (IrregularBounds F)) :
    List (PlacedCollisionSpatialEntry heap) :=
  let selected := (index.marked bounds).foldl mark
    (List.replicate index.entries.length false)
  index.entries.filter fun entry =>
    selected.getD entry.ordinal false && meets bounds entry

end PlacedCollisionSpatialIndex

open PlacedCollisionSpatialIndex

/-- `makePlacedCollisionSpatialIndex`: a left fold of `add`. -/
def makePlacedCollisionSpatialIndex (placed : List (PlacedArc heap))
    (cellSizeMm : Option F) : PlacedCollisionSpatialIndex heap :=
  placed.foldl add (makeEmptyPlacedCollisionSpatialIndex cellSizeMm)

theorem makePlacedCollisionSpatialIndex_append (placed : List (PlacedArc heap))
    (arc : PlacedArc heap) (cellSizeMm : Option F) :
    makePlacedCollisionSpatialIndex (placed ++ [arc]) cellSizeMm =
      (makePlacedCollisionSpatialIndex placed cellSizeMm).add arc := by
  simp [makePlacedCollisionSpatialIndex]

/-- The entries of a list of placed pieces, by position. -/
def makeEntries (placed : List (PlacedArc heap)) :
    List (PlacedCollisionSpatialEntry heap) :=
  placed.mapIdx fun ordinal arc => makeEntry arc ordinal

/-! ## §3  Where entries are filed -/

/-- **The filing invariant.** Entries are numbered in order, lists and buckets
hold entries of the index only, and every entry is in the fallback list or in
the bucket of every cell of its range. -/
structure Filed (index : PlacedCollisionSpatialIndex heap)
    (placed : List (PlacedArc heap)) : Prop where
  entries : index.entries = makeEntries placed
  fallback : ∀ e ∈ index.fallbackEntries, e ∈ index.entries
  buckets : ∀ key, ∀ e ∈ (index.buckets.lookup key).getD [], e ∈ index.entries
  located : ∀ e ∈ index.entries,
    match entryRange index.cellSizeMm e with
    | none => e ∈ index.fallbackEntries
    | some range => ∀ key ∈ range.keys, e ∈ (index.buckets.lookup key).getD []

omit [LinearOrder F] [Zero F] [One F] [Add F] [Neg F] [Div F] [JsNumber F] in
theorem mem_fileUnder {entry e : PlacedCollisionSpatialEntry heap}
    {buckets : AList fun _ : String => List (PlacedCollisionSpatialEntry heap)}
    {key key' : String} :
    e ∈ ((fileUnder entry buckets key).lookup key').getD [] ↔
      e ∈ (buckets.lookup key').getD [] ∨ (key' = key ∧ e = entry) := by
  unfold fileUnder
  by_cases hk : key' = key
  · subst hk
    simp [AList.lookup_insert]
  · simp [AList.lookup_insert_ne hk, hk]

omit [LinearOrder F] [Zero F] [One F] [Add F] [Neg F] [Div F] [JsNumber F] in
/-- Filing under many cells adds the entry there, and nothing else. -/
theorem mem_foldl_fileUnder {entry e : PlacedCollisionSpatialEntry heap} :
    ∀ {keys : List String}
      {buckets : AList fun _ : String => List (PlacedCollisionSpatialEntry heap)}
      {key : String},
      e ∈ ((keys.foldl (fileUnder entry) buckets).lookup key).getD [] ↔
        e ∈ (buckets.lookup key).getD [] ∨ (key ∈ keys ∧ e = entry)
  | [], _, _ => by simp
  | k :: keys, _, key => by
      rw [List.foldl_cons, mem_foldl_fileUnder, mem_fileUnder, List.mem_cons]
      tauto

theorem makeEntries_append (placed : List (PlacedArc heap)) (arc : PlacedArc heap) :
    makeEntries (placed ++ [arc]) =
      makeEntries placed ++ [makeEntry arc placed.length] := by
  simp [makeEntries, List.mapIdx_append]

theorem length_makeEntries (placed : List (PlacedArc heap)) :
    (makeEntries placed).length = placed.length := by
  simp [makeEntries]

theorem filed_empty (cellSizeMm : Option F) :
    Filed (makeEmptyPlacedCollisionSpatialIndex cellSizeMm)
      ([] : List (PlacedArc heap)) := by
  refine ⟨rfl, ?_, ?_, ?_⟩ <;> simp [makeEmptyPlacedCollisionSpatialIndex]

theorem Filed.add {index : PlacedCollisionSpatialIndex heap}
    {placed : List (PlacedArc heap)} (h : Filed index placed)
    (arc : PlacedArc heap) : Filed (index.add arc) (placed ++ [arc]) := by
  have hlen : index.entries.length = placed.length := by
    rw [h.entries, length_makeEntries]
  have hentries : index.entries ++ [makeEntry arc index.entries.length] =
      makeEntries (placed ++ [arc]) := by
    rw [makeEntries_append, ← h.entries, hlen]
  cases hr : entryRange index.cellSizeMm (makeEntry arc index.entries.length) with
  | none =>
      simp only [PlacedCollisionSpatialIndex.add, hr]
      refine ⟨hentries, ?_, ?_, ?_⟩
      · intro e he
        rcases List.mem_append.mp he with he | he
        · exact List.mem_append_left _ (h.fallback e he)
        · exact List.mem_append_right _ he
      · intro key e he
        exact List.mem_append_left _ (h.buckets key e he)
      · intro e he
        rcases List.mem_append.mp he with he | he
        · have hl := h.located e he
          show match entryRange index.cellSizeMm e with
            | none => _
            | some range => _
          split at hl
          · exact List.mem_append_left _ hl
          · exact hl
        · obtain rfl : e = makeEntry arc index.entries.length := by simpa using he
          simp [hr]
  | some range =>
      simp only [PlacedCollisionSpatialIndex.add, hr]
      refine ⟨hentries, ?_, ?_, ?_⟩
      · intro e he
        exact List.mem_append_left _ (h.fallback e he)
      · intro key e he
        rcases mem_foldl_fileUnder.mp he with he | ⟨-, rfl⟩
        · exact List.mem_append_left _ (h.buckets key e he)
        · exact List.mem_append_right _ (by simp)
      · intro e he
        rcases List.mem_append.mp he with he | he
        · have hl := h.located e he
          show match entryRange index.cellSizeMm e with
            | none => _
            | some range => _
          split at hl
          · exact hl
          · intro key hkey
            exact mem_foldl_fileUnder.mpr (.inl (hl key hkey))
        · obtain rfl : e = makeEntry arc index.entries.length := by simpa using he
          simp only [hr]
          intro key hkey
          exact mem_foldl_fileUnder.mpr (.inr ⟨hkey, rfl⟩)

/-- The index of any sequence of additions files its entries. -/
theorem filed_makePlacedCollisionSpatialIndex (placed : List (PlacedArc heap))
    (cellSizeMm : Option F) :
    Filed (makePlacedCollisionSpatialIndex placed cellSizeMm) placed := by
  have h : ∀ (rest done : List (PlacedArc heap))
      (index : PlacedCollisionSpatialIndex heap), Filed index done →
      Filed (rest.foldl PlacedCollisionSpatialIndex.add index) (done ++ rest) := by
    intro rest
    induction rest with
    | nil => intro done index hf; simpa using hf
    | cons arc rest ih =>
        intro done index hf
        simpa using ih (done ++ [arc]) (index.add arc) (hf.add arc)
  exact h placed [] _ (filed_empty cellSizeMm)

/-! ## §4  A query is the plain filter -/

/-- The rounded quotient by the cell size is monotone in the coordinate. -/
def FloorMonotone (cellSizeMm : F) : Prop :=
  ∀ (a b : F) (i j : ℤ), a ≤ b → JsNumber.floor (a / cellSizeMm) = some i →
    JsNumber.floor (b / cellSizeMm) = some j → i ≤ j

omit [Zero F] [One F] [Add F] [Neg F] in
/-- **A cell range, inverted**: the bounds are in order and its corners are the
rounded quotients. -/
theorem gridCellRange_eq_some {bounds : IrregularBounds F} {cellSizeMm : F}
    {m : ℤ} {range : GridCellRange}
    (h : gridCellRange bounds cellSizeMm m = some range) :
    bounds.minX ≤ bounds.maxX ∧ bounds.minY ≤ bounds.maxY ∧
      JsNumber.floor (bounds.minX / cellSizeMm) = some range.minX ∧
      JsNumber.floor (bounds.minY / cellSizeMm) = some range.minY ∧
      JsNumber.floor (bounds.maxX / cellSizeMm) = some range.maxX ∧
      JsNumber.floor (bounds.maxY / cellSizeMm) = some range.maxY := by
  unfold gridCellRange at h
  split at h
  · simp at h
  · next hguard =>
    simp only [Option.bind_eq_bind, Option.bind_eq_some_iff,
      Option.ite_none_right_eq_some, Option.some.injEq] at h
    obtain ⟨minX, h1, minY, h2, maxX, h3, maxY, h4, -, rfl⟩ := h
    simp only [Bool.or_eq_true, decide_eq_true_eq, not_or, not_lt] at hguard
    exact ⟨hguard.1.2, hguard.2, h1, h2, h3, h4⟩

theorem mem_keys {range : GridCellRange} {key : String} :
    key ∈ range.keys ↔ ∃ cellX cellY, range.minX ≤ cellX ∧ cellX ≤ range.maxX ∧
      range.minY ≤ cellY ∧ cellY ≤ range.maxY ∧ cellKey cellX cellY = key := by
  simp only [GridCellRange.keys, List.mem_flatMap, List.mem_map,
    Int.mem_range_iff, Int.lt_add_one_iff]
  constructor
  · rintro ⟨x, ⟨h1, h2⟩, y, ⟨h3, h4⟩, h5⟩
    exact ⟨x, y, h1, h2, h3, h4, h5⟩
  · rintro ⟨x, y, h1, h2, h3, h4, h5⟩
    exact ⟨x, ⟨h1, h2⟩, y, ⟨h3, h4⟩, h5⟩

omit [Zero F] [One F] [Add F] [Neg F] in
/-- **Bounds that are not disjoint share a cell.** -/
theorem shared_key {a b : IrregularBounds F} {cellSizeMm : F} {m n : ℤ}
    {ra rb : GridCellRange} (hfloor : FloorMonotone cellSizeMm)
    (ha : gridCellRange a cellSizeMm m = some ra)
    (hb : gridCellRange b cellSizeMm n = some rb)
    (hmeet : areDisjoint a b = false) :
    ∃ key, key ∈ ra.keys ∧ key ∈ rb.keys := by
  obtain ⟨hax, hay, ha1, ha2, ha3, ha4⟩ := gridCellRange_eq_some ha
  obtain ⟨hbx, hby, hb1, hb2, hb3, hb4⟩ := gridCellRange_eq_some hb
  simp only [areDisjoint, Bool.or_eq_false_iff, decide_eq_false_iff_not,
    not_lt] at hmeet
  obtain ⟨⟨⟨hab, hba⟩, hab'⟩, hba'⟩ := hmeet
  have hx1 := hfloor _ _ _ _ hax ha1 ha3
  have hx2 := hfloor _ _ _ _ hbx hb1 hb3
  have hx3 := hfloor _ _ _ _ hab hb1 ha3
  have hx4 := hfloor _ _ _ _ hba ha1 hb3
  have hy1 := hfloor _ _ _ _ hay ha2 ha4
  have hy2 := hfloor _ _ _ _ hby hb2 hb4
  have hy3 := hfloor _ _ _ _ hab' hb2 ha4
  have hy4 := hfloor _ _ _ _ hba' ha2 hb4
  refine ⟨cellKey (max ra.minX rb.minX) (max ra.minY rb.minY), ?_, ?_⟩ <;>
    exact mem_keys.mpr ⟨_, _, by omega, by omega, by omega, by omega, rfl⟩

/-- Every entry that meets the query bounds is marked. -/
theorem Filed.mem_marked {index : PlacedCollisionSpatialIndex heap}
    {placed : List (PlacedArc heap)} (h : Filed index placed)
    (hfloor : FloorMonotone index.cellSizeMm)
    {bounds : Option (IrregularBounds F)} {e : PlacedCollisionSpatialEntry heap}
    (he : e ∈ index.entries) (hmeets : meets bounds e = true) :
    e ∈ index.marked bounds := by
  have hl := h.located e he
  unfold marked
  rw [List.mem_append]
  cases hr : entryRange index.cellSizeMm e with
  | none =>
      rw [hr] at hl
      exact .inl hl
  | some range =>
      rw [hr] at hl
      refine .inr ?_
      split
      · exact he
      · next queryRange hq =>
        obtain ⟨b, rfl, hqb⟩ := Option.bind_eq_some_iff.mp hq
        obtain ⟨a, hea, hra⟩ := Option.bind_eq_some_iff.mp hr
        cases hv : e.validation with
        | invalid message => simp [PlacedCollisionValidation.bounds, hv] at hea
        | valid polygon =>
            obtain rfl : polygon.polygonWithBounds.bounds = a := by
              simpa [PlacedCollisionValidation.bounds, hv] using hea
            have hdisj : areDisjoint polygon.polygonWithBounds.bounds b =
                false := by simpa [meets, hv] using hmeets
            obtain ⟨key, hka, hkb⟩ := shared_key hfloor hra hqb hdisj
            exact List.mem_flatMap.mpr ⟨key, hkb, hl key hka⟩

omit [LinearOrder F] [Zero F] [One F] [Add F] [Neg F] [Div F] [JsNumber F] in
theorem getD_foldl_mark : ∀ (es : List (PlacedCollisionSpatialEntry heap))
    (selected : List Bool) {i : ℕ}, i < selected.length →
    ((es.foldl mark selected).getD i false = true ↔
      selected.getD i false = true ∨ ∃ e ∈ es, e.ordinal = i)
  | [], selected, i, _ => by simp
  | e :: es, selected, i, hi => by
      rw [List.foldl_cons, getD_foldl_mark es _ (by simpa [mark] using hi)]
      by_cases hei : e.ordinal = i
      · subst hei
        simp [mark, hi]
      · simp [mark, hei]

theorem makeEntries_ordinal_lt {placed : List (PlacedArc heap)}
    {e : PlacedCollisionSpatialEntry heap} (he : e ∈ makeEntries placed) :
    e.ordinal < placed.length := by
  obtain ⟨i, hi, rfl⟩ := List.mem_mapIdx.mp he
  exact hi

/-- **A query of a filed index is the plain filter.** -/
theorem Filed.query_eq {index : PlacedCollisionSpatialIndex heap}
    {placed : List (PlacedArc heap)} (h : Filed index placed)
    (hfloor : FloorMonotone index.cellSizeMm)
    (bounds : Option (IrregularBounds F)) :
    index.query bounds = (makeEntries placed).filter (meets bounds) := by
  unfold query
  rw [h.entries]
  refine List.filter_congr fun e he => ?_
  have hlt : e.ordinal < (List.replicate (makeEntries placed).length
      false).length := by
    rw [List.length_replicate, length_makeEntries]
    exact makeEntries_ordinal_lt he
  cases hm : meets bounds e with
  | false => rw [Bool.and_false]
  | true =>
      rw [Bool.and_true, getD_foldl_mark _ _ hlt]
      exact .inr ⟨e, h.mem_marked hfloor (h.entries ▸ he) hm, rfl⟩

/-- The ordinals of the entries increase. -/
theorem makeEntries_pairwise (placed : List (PlacedArc heap)) :
    (makeEntries placed).Pairwise fun a b => a.ordinal < b.ordinal := by
  rw [List.pairwise_iff_getElem]
  intro i j hi hj hij
  simpa [makeEntries, makeEntry] using hij

end PolygonNesting
