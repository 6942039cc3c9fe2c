import PolygonNesting.Lib.Fallible
import PolygonNesting.Search.BeamStateExact
import PolygonNesting.Search.Orientation

/-!
# The anchored key by the parent's memo

The duplicate key of a candidate is the occupied key of the child state after
anchoring.  The search renders it from a memo that sibling candidates share: the
parent's keys at an anchor translation, sorted, with the one new key merged in.
Scoring threads hold the memo's lock twice, once to look and once to store, and
other threads may have stored in between.

One invariant carries every history: an entry of the memo is what rendering the
parent at that translation gives.
-/

namespace PolygonNesting

variable {F : Type} [LinearOrder F] [Zero F] [One F] [Add F] [Sub F] [Neg F]
  [Mul F] [Div F] [JsMath F] {heap : ℕ → IrregularPlacedPiece F} {π : Type}

/-! ## §1  The keys of moved pieces -/

def canonicalPlacedGeometryKeyAtTranslation (placed : IrregularPlacedPiece F)
    (translateX translateY : F) : String :=
  canonicalCollisionPolygonKey placed.collisionGeometry.polygon.points translateX
    translateY

/-- The key of a piece at an offset; `none` when the translation is not finite. -/
def anchoredPlacedKey (anchor : F × F) (placed : IrregularPlacedPiece F) : Option String :=
  let nextTranslateX := placed.placement.transform.translateX + anchor.1
  let nextTranslateY := placed.placement.transform.translateY + anchor.2
  if !JsNumber.isFinite nextTranslateX || !JsNumber.isFinite nextTranslateY then none
  else some (canonicalPlacedGeometryKeyAtTranslation placed nextTranslateX nextTranslateY)

/-- The keys of a list of pieces at an offset, sorted. -/
def anchoredSortedKeys (placed : List (PlacedArc heap)) (anchor : F × F) :
    Option (List String) :=
  (placed.mapM fun arc => anchoredPlacedKey anchor arc.piece).map fun keys =>
    keys.mergeSort keyLe

/-! ## §2  The memo -/

/-- `AnchoredParentKeysMemo`: the sorted keys by the exact anchor translation. -/
abbrev AnchoredParentKeysMemo (F : Type) := AList fun _ : F × F => List String

/-- `entry(key).or_insert(keys)`: what the memo holds afterwards under the key. -/
def orInsertKeys (memo : AnchoredParentKeysMemo F) (anchor : F × F) (keys : List String) :
    List String × AnchoredParentKeysMemo F :=
  match memo.lookup anchor with
  | some existing => (existing, memo)
  | none => (keys, memo.insert anchor keys)

/-- The parent's keys: from the memo as it was at the first lock, or rendered and
stored in the memo as it is at the second. -/
def anchoredParentKeys (parent : IrregularBeamState heap π) (anchor : F × F)
    (seen stored : AnchoredParentKeysMemo F) :
    Option (List String) × AnchoredParentKeysMemo F :=
  match seen.lookup anchor with
  | some keys => (some keys, stored)
  | none =>
      match anchoredSortedKeys parent.placedCollisionGeometries anchor with
      | none => (none, stored)
      | some keys =>
          let (keys, stored) := orInsertKeys stored anchor keys
          (some keys, stored)

/-- The new key at its `partition_point`: after every key that is not greater. -/
def mergeCanonicalEntryKey (newKey : String) (parentKeys : List String) : List String :=
  parentKeys.takeWhile (keyLe · newKey) ++ newKey :: parentKeys.dropWhile (keyLe · newKey)

/-- `bottom_left_anchored_key_via_parent_memo`, with the memo as the two locks find
it and as the call leaves it. -/
def bottomLeftAnchoredKeyViaParentMemo (child parent : IrregularBeamState heap π)
    (seen stored : AnchoredParentKeysMemo F) : Option String × AnchoredParentKeysMemo F :=
  match child.translatedCollisionBounds with
  | none => (some child.canonicalOccupiedGeometryKey, stored)
  | some bounds =>
      if bounds.minX = 0 ∧ bounds.minY = 0 then
        (some child.canonicalOccupiedGeometryKey, stored)
      else
        match child.placedCollisionGeometries.getLast?.bind fun newPiece =>
            anchoredPlacedKey (-bounds.minX, -bounds.minY) newPiece.piece with
        | none => (none, stored)
        | some newKey =>
            let (parentKeys, stored) :=
              anchoredParentKeys parent (-bounds.minX, -bounds.minY) seen stored
            (parentKeys.map fun keys =>
              canonicalEntryListKey F (mergeCanonicalEntryKey newKey keys), stored)

/-- The memos of one parent, over any interleaving of its children's calls.  A call
may look at any earlier memo, and stores in the current one. -/
inductive ParentMemo (parent : IrregularBeamState heap π) :
    AnchoredParentKeysMemo F → Prop where
  | fresh : ParentMemo parent ∅
  | call {seen stored : AnchoredParentKeysMemo F} (child : IrregularBeamState heap π) :
      ParentMemo parent seen → ParentMemo parent stored →
      ParentMemo parent (bottomLeftAnchoredKeyViaParentMemo child parent seen stored).2

/-! ## §3  What the memo holds -/

/-- Every entry is what rendering the parent gives. -/
def Renders (parent : IrregularBeamState heap π) (memo : AnchoredParentKeysMemo F) : Prop :=
  ∀ anchor keys, memo.lookup anchor = some keys →
    anchoredSortedKeys parent.placedCollisionGeometries anchor = some keys

variable {parent : IrregularBeamState heap π} {seen stored : AnchoredParentKeysMemo F}

omit [Sub F] in
/-- Storing what was rendered gives it back, and keeps the memo. -/
theorem Renders.orInsertKeys (h : Renders parent stored) {anchor : F × F}
    {keys : List String}
    (hkeys : anchoredSortedKeys parent.placedCollisionGeometries anchor = some keys) :
    (orInsertKeys stored anchor keys).1 = keys ∧
      Renders parent (orInsertKeys stored anchor keys).2 := by
  unfold PolygonNesting.orInsertKeys
  split
  · next existing hexisting =>
    exact ⟨Option.some.inj ((h anchor existing hexisting).symm.trans hkeys), h⟩
  · refine ⟨rfl, fun other keys' hother => ?_⟩
    by_cases heq : other = anchor
    · subst heq
      rw [AList.lookup_insert] at hother
      rw [← hother]
      exact hkeys
    · rw [AList.lookup_insert_ne heq] at hother
      exact h other keys' hother

omit [Sub F] in
/-- A hit and a miss give the same keys, and leave a memo that renders. -/
theorem Renders.anchoredParentKeys (hseen : Renders parent seen)
    (hstored : Renders parent stored) (anchor : F × F) :
    (anchoredParentKeys parent anchor seen stored).1 =
        anchoredSortedKeys parent.placedCollisionGeometries anchor ∧
      Renders parent (anchoredParentKeys parent anchor seen stored).2 := by
  unfold PolygonNesting.anchoredParentKeys
  split
  · next keys hhit => exact ⟨(hseen anchor keys hhit).symm, hstored⟩
  · split
    · next hnone => exact ⟨hnone.symm, hstored⟩
    · next keys hkeys =>
      obtain ⟨hback, hrenders⟩ := hstored.orInsertKeys hkeys
      exact ⟨(congrArg some hback).trans hkeys.symm, hrenders⟩

omit [Sub F] in
theorem Renders.call (hseen : Renders parent seen) (hstored : Renders parent stored)
    (child : IrregularBeamState heap π) :
    Renders parent (bottomLeftAnchoredKeyViaParentMemo child parent seen stored).2 := by
  unfold bottomLeftAnchoredKeyViaParentMemo
  split
  · exact hstored
  · split
    · exact hstored
    · split
      · exact hstored
      · exact (hseen.anchoredParentKeys hstored _).2

omit [Sub F] in
/-- **Every memo of a parent renders it.** -/
theorem ParentMemo.renders {memo : AnchoredParentKeysMemo F} (h : ParentMemo parent memo) :
    Renders parent memo := by
  induction h with
  | fresh =>
      intro anchor keys hlookup
      simp at hlookup
  | call child _ _ hseen hstored => exact hseen.call hstored child

/-! ## §4  One value on all paths -/

theorem mergeCanonicalEntryKey_eq (newKey : String) (parentKeys : List String) :
    mergeCanonicalEntryKey newKey parentKeys =
      insertCanonicalEntryKey newKey parentKeys := by
  induction parentKeys with
  | nil => rfl
  | cons existing parentKeys ih =>
      unfold mergeCanonicalEntryKey at ih ⊢
      unfold insertCanonicalEntryKey
      by_cases hle : keyLe existing newKey = true
      · have hnot : cmpJsCodeUnits newKey existing ≠ .lt := fun hlt =>
          absurd (cmpJsCodeUnits_eq_lt_iff.mp hlt) (not_lt.mpr (keyLe_iff.mp hle))
        simp only [List.takeWhile_cons, List.dropWhile_cons, hle, if_pos, if_neg hnot,
          List.cons_append, ih]
      · have hlt : cmpJsCodeUnits newKey existing = .lt :=
          cmpJsCodeUnits_eq_lt_iff.mpr (not_le.mp fun h => hle (keyLe_iff.mpr h))
        simp only [List.takeWhile_cons, List.dropWhile_cons, hle, if_pos hlt,
          Bool.false_eq_true, if_false, List.nil_append]

omit [Sub F] in
/-- The sorted keys of one more piece. -/
theorem anchoredSortedKeys_append (placed : List (PlacedArc heap)) (arc : PlacedArc heap)
    (anchor : F × F) :
    anchoredSortedKeys (placed ++ [arc]) anchor =
      (anchoredPlacedKey anchor arc.piece).bind fun newKey =>
        (anchoredSortedKeys placed anchor).map fun keys =>
          mergeCanonicalEntryKey newKey keys := by
  simp only [anchoredSortedKeys, mergeCanonicalEntryKey_eq]
  rw [List.mapM_append]
  cases hkeys : placed.mapM fun arc => anchoredPlacedKey anchor arc.piece with
  | none => cases anchoredPlacedKey anchor arc.piece <;> rfl
  | some keys =>
      cases hnew : anchoredPlacedKey anchor arc.piece with
      | none => simp [hnew]
      | some newKey => simp [hnew, insertCanonicalEntryKey_mergeSort]

omit [Sub F] in
/-- The key at an offset is the key of the moved piece. -/
theorem anchoredPlacedKey_eq (anchor : F × F) (placed : IrregularPlacedPiece F) :
    anchoredPlacedKey anchor placed =
      (shiftPlaced anchor.1 anchor.2 placed).map canonicalPlacedGeometryKey := by
  simp only [anchoredPlacedKey, shiftPlaced]
  split <;> rfl

omit [Sub F] in
/-- The plain probe renders the pieces at the anchor. -/
theorem bottomLeftAnchoredCanonicalOccupiedGeometryKey_eq {state : IrregularBeamState heap π}
    {bounds : IrregularCollisionBounds F} (hbounds : state.translatedCollisionBounds = some bounds)
    (hzero : ¬(bounds.minX = 0 ∧ bounds.minY = 0)) :
    state.bottomLeftAnchoredCanonicalOccupiedGeometryKey =
      (anchoredSortedKeys state.placedCollisionGeometries (-bounds.minX, -bounds.minY)).map
        (canonicalEntryListKey F) := by
  simp only [IrregularBeamState.bottomLeftAnchoredCanonicalOccupiedGeometryKey, hbounds,
    if_neg hzero, anchoredSortedKeys, anchoredPlacedKey_eq, option_mapM_map, Option.map_map]
  cases state.placedCollisionGeometries.mapM fun arc =>
    shiftPlaced (-bounds.minX) (-bounds.minY) arc.piece <;> rfl

/-- **A child's call gives the plain probe.** -/
theorem viaParentMemo_withPlacement (hseen : Renders parent seen)
    (hstored : Renders parent stored) (remainingPreparedPieces : List π)
    (placed : PlacedArc heap) (pieceId : PieceId) :
    (bottomLeftAnchoredKeyViaParentMemo
        (parent.withPlacement remainingPreparedPieces placed pieceId) parent seen stored).1 =
      (parent.withPlacement remainingPreparedPieces placed
        pieceId).bottomLeftAnchoredCanonicalOccupiedGeometryKey := by
  have hplaced : (parent.withPlacement remainingPreparedPieces placed
      pieceId).placedCollisionGeometries = parent.placedCollisionGeometries ++ [placed] := rfl
  generalize parent.withPlacement remainingPreparedPieces placed pieceId = child at hplaced ⊢
  cases hbounds : child.translatedCollisionBounds with
  | none =>
      simp only [bottomLeftAnchoredKeyViaParentMemo, hbounds,
        IrregularBeamState.bottomLeftAnchoredCanonicalOccupiedGeometryKey]
  | some bounds =>
      by_cases hzero : bounds.minX = 0 ∧ bounds.minY = 0
      · simp only [bottomLeftAnchoredKeyViaParentMemo, hbounds, if_pos hzero,
          IrregularBeamState.bottomLeftAnchoredCanonicalOccupiedGeometryKey]
      · have hparent := (hseen.anchoredParentKeys hstored (-bounds.minX, -bounds.minY)).1
        rw [bottomLeftAnchoredCanonicalOccupiedGeometryKey_eq hbounds hzero, hplaced,
          anchoredSortedKeys_append, ← hparent]
        simp only [bottomLeftAnchoredKeyViaParentMemo, hbounds, if_neg hzero, hplaced,
          List.getLast?_concat, Option.bind_some]
        cases anchoredPlacedKey (-bounds.minX, -bounds.minY) placed.piece with
        | none => rfl
        | some newKey =>
            simp only [Option.bind_some, Option.map_map]
            rfl

/-- `Arc::new` gives the moved pieces of a state back. -/
def AllocatesMoved (alloc : IrregularPlacedPiece F → PlacedArc heap)
    (state : IrregularBeamState heap π) : Prop :=
  ∀ bounds ∈ state.translatedCollisionBounds, ∀ arc ∈ state.placedCollisionGeometries,
    ∀ moved ∈ shiftPlaced (-bounds.minX) (-bounds.minY) arc.piece,
      (alloc moved).piece = moved

/-- **The anchored state stores the key of the plain probe.** -/
theorem withBottomLeftAnchored_key {alloc : IrregularPlacedPiece F → PlacedArc heap}
    {state : IrregularBeamState heap π} (halloc : AllocatesMoved alloc state) :
    (state.withBottomLeftAnchored alloc).map (fun anchored =>
        anchored.canonicalOccupiedGeometryKey) =
      state.bottomLeftAnchoredCanonicalOccupiedGeometryKey := by
  cases hbounds : state.translatedCollisionBounds with
  | none =>
      simp only [IrregularBeamState.withBottomLeftAnchored, hbounds, Option.map_some,
        IrregularBeamState.bottomLeftAnchoredCanonicalOccupiedGeometryKey]
  | some bounds =>
      by_cases hzero : bounds.minX = 0 ∧ bounds.minY = 0
      · simp only [IrregularBeamState.withBottomLeftAnchored, hbounds, if_pos hzero,
          Option.map_some, IrregularBeamState.bottomLeftAnchoredCanonicalOccupiedGeometryKey]
      · simp only [IrregularBeamState.withBottomLeftAnchored, hbounds, if_neg hzero,
          option_mapM_map, IrregularBeamState.bottomLeftAnchoredCanonicalOccupiedGeometryKey]
        cases hmoved : state.placedCollisionGeometries.mapM fun arc =>
            shiftPlaced (-bounds.minX) (-bounds.minY) arc.piece with
        | none => rfl
        | some moved =>
            have hpieces : (moved.map alloc).map (fun arc => canonicalPlacedGeometryKey arc.piece) =
                moved.map canonicalPlacedGeometryKey := by
              rw [List.map_map]
              refine List.map_congr_left fun piece hpiece => ?_
              obtain ⟨arc, harc, hshift⟩ := option_mapM_eq_some hmoved piece hpiece
              exact congrArg canonicalPlacedGeometryKey (halloc bounds hbounds arc harc piece hshift)
            show some (canonicalEntryListKey F (((moved.map alloc).map fun arc =>
              canonicalPlacedGeometryKey arc.piece).mergeSort keyLe)) = _
            rw [hpieces]
            rfl

/-- **The anchored key has one value on all paths.**  For every parent, every piece
placed on it and every history of the parent's memo, the call through the memo gives
the plain probe of the child, and the anchored child stores that key. -/
theorem anchoredKey_one_value {alloc : IrregularPlacedPiece F → PlacedArc heap}
    (hseen : ParentMemo parent seen) (hstored : ParentMemo parent stored)
    (remainingPreparedPieces : List π) (placed : PlacedArc heap) (pieceId : PieceId)
    (halloc : AllocatesMoved alloc
      (parent.withPlacement remainingPreparedPieces placed pieceId)) :
    (bottomLeftAnchoredKeyViaParentMemo
        (parent.withPlacement remainingPreparedPieces placed pieceId) parent seen stored).1 =
      (parent.withPlacement remainingPreparedPieces placed
        pieceId).bottomLeftAnchoredCanonicalOccupiedGeometryKey ∧
    (parent.withPlacement remainingPreparedPieces placed
        pieceId).bottomLeftAnchoredCanonicalOccupiedGeometryKey =
      ((parent.withPlacement remainingPreparedPieces placed
        pieceId).withBottomLeftAnchored alloc).map fun anchored =>
          anchored.canonicalOccupiedGeometryKey :=
  ⟨viaParentMemo_withPlacement hseen.renders hstored.renders remainingPreparedPieces placed
    pieceId, (withBottomLeftAnchored_key halloc).symm⟩

/-- One square, one to the right of the origin. -/
def offsetSquare : IrregularBeamState touchingSquares PieceId :=
  (IrregularBeamState.empty ["a", "b", "c"]).withPlacement ["b", "c"] ⟨1⟩ "a"

/-- The memo after a first child: the next call at this anchor is a hit. -/
def warmMemo : AnchoredParentKeysMemo ℚ :=
  (bottomLeftAnchoredKeyViaParentMemo (offsetSquare.withPlacement ["c"] ⟨2⟩ "b")
    offsetSquare ∅ ∅).2

theorem anchoredKey_one_value_warmMemo :
    (warmMemo.lookup (-1, 0)).isSome = true ∧
      (bottomLeftAnchoredKeyViaParentMemo (offsetSquare.withPlacement ["c"] ⟨3⟩ "b")
          offsetSquare warmMemo warmMemo).1 =
        (offsetSquare.withPlacement ["c"] ⟨3⟩
          "b").bottomLeftAnchoredCanonicalOccupiedGeometryKey ∧
      (offsetSquare.withPlacement ["c"] ⟨3⟩
          "b").bottomLeftAnchoredCanonicalOccupiedGeometryKey =
        ((offsetSquare.withPlacement ["c"] ⟨3⟩ "b").withBottomLeftAnchored fun placed =>
          ⟨placed.placement.transform.translateX.num.toNat⟩).map fun anchored =>
            anchored.canonicalOccupiedGeometryKey := by
  have hmemo : ParentMemo offsetSquare warmMemo := .call _ .fresh .fresh
  have halloc : AllocatesMoved
      (fun placed => ⟨placed.placement.transform.translateX.num.toNat⟩)
      (offsetSquare.withPlacement ["c"] ⟨3⟩ "b") := by
    unfold AllocatesMoved
    decide +kernel
  exact ⟨by decide +kernel, anchoredKey_one_value hmemo hmemo ["c"] ⟨3⟩ "b" halloc⟩

end PolygonNesting
