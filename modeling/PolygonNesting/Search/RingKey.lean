import Mathlib.Data.Prod.Lex
import PolygonNesting.Canonical.LayoutIdentity
import PolygonNesting.Lib.CyclicReading
import PolygonNesting.Search.BeamState

set_option linter.unusedSectionVars false

/-!
# When a ring key does not depend on the start

`canonicalRingKey` reads the snapped ring from its first lowest vertex, leftmost
among the lowest, in the direction that comes first.  Where the snapped ring
passes that vertex more than once, the start of the list decides which passage
is taken, so the key is free of start and winding exactly for the rings that
look the same from all of them.
-/

namespace PolygonNesting

open CyclicReading

variable {F : Type} [LinearOrder F] [Zero F] [One F] [Add F] [Sub F] [Neg F]
  [Mul F] [Div F] [JsMath F]

/-! ## §1  The start -/

/-- The order of the start: by `y`, then by `x`. -/
def ringStartKey (coordinates : F × F) : F ×ₗ F := toLex (coordinates.2, coordinates.1)

/-- An index of a lowest vertex, leftmost among the lowest. -/
structure IsLowest (coordinates : List (F × F)) (start : ℕ) : Prop where
  lt : start < coordinates.length
  le : ∀ k (hk : k < coordinates.length),
    ringStartKey coordinates[start] ≤ ringStartKey coordinates[k]

/-- The start is the first lowest vertex. -/
structure IsFirstLowest (coordinates : List (F × F)) (n start : ℕ) : Prop where
  lt : start < coordinates.length
  le : ∀ k (hk : k < coordinates.length), k < n →
    ringStartKey coordinates[start] ≤ ringStartKey coordinates[k]
  first : ∀ k (hk : k < start),
    ringStartKey coordinates[start] < ringStartKey (getElem coordinates k (hk.trans lt))

/-- The search is a fold whose step takes the lower of two vertices. -/
theorem ringStartIndex_eq_foldl (coordinates : List (F × F)) : ∃ step : ℕ → ℕ → ℕ,
    ringStartIndex coordinates = (List.range coordinates.length).foldl step 0 ∧
      ∀ (start index : ℕ) (hstart : start < coordinates.length)
        (hindex : index < coordinates.length),
        step start index =
          if ringStartKey coordinates[index] < ringStartKey coordinates[start] then index
          else start := by
  refine ⟨_, rfl, fun start index hstart hindex => ?_⟩
  simp only [List.getElem?_eq_getElem hindex, List.getElem?_eq_getElem hstart]
  have hless : ringStartKey coordinates[index] < ringStartKey coordinates[start] ↔
      coordinates[index].2 < coordinates[start].2 ∨
        coordinates[index].2 = coordinates[start].2 ∧
          coordinates[index].1 < coordinates[start].1 := Prod.Lex.toLex_lt_toLex
  exact if_congr hless.symm rfl rfl

theorem ringStartIndex_spec {coordinates : List (F × F)} (h : 0 < coordinates.length) :
    IsFirstLowest coordinates coordinates.length (ringStartIndex coordinates) := by
  obtain ⟨step, hfold, hstep⟩ := ringStartIndex_eq_foldl coordinates
  have hrun : ∀ n ≤ coordinates.length,
      IsFirstLowest coordinates n ((List.range n).foldl step 0) := by
    intro n hn
    induction n with
    | zero =>
      exact ⟨h, fun k _ hk => absurd hk k.not_lt_zero, fun k hk => absurd hk k.not_lt_zero⟩
    | succ n ih =>
      rw [List.range_succ, List.foldl_append]
      obtain ⟨hlt, hle, hfirst⟩ := ih (by omega)
      generalize (List.range n).foldl step 0 = start at *
      have hn' : n < coordinates.length := by omega
      rw [List.foldl_cons, List.foldl_nil, hstep start n hlt hn']
      split
      · next hless =>
        refine ⟨hn', fun k hk hkn => ?_, fun k hk => ?_⟩
        · rcases Nat.lt_succ_iff_lt_or_eq.mp hkn with hkn | rfl
          · exact hless.le.trans (hle k hk hkn)
          · exact le_rfl
        · exact hless.trans_le (hle k (by omega) hk)
      · next hnot =>
        refine ⟨hlt, fun k hk hkn => ?_, hfirst⟩
        rcases Nat.lt_succ_iff_lt_or_eq.mp hkn with hkn | rfl
        · exact hle k hk hkn
        · exact not_lt.mp hnot
  rw [hfold]
  exact hrun _ le_rfl

theorem IsFirstLowest.isLowest {coordinates : List (F × F)} {start : ℕ}
    (h : IsFirstLowest coordinates coordinates.length start) : IsLowest coordinates start :=
  ⟨h.lt, fun k hk => h.le k hk hk⟩

/-! ## §2  The readings -/

def ringCoordinates (points : List (IrregularPoint F)) (translateX translateY : F) :
    List (F × F) :=
  points.map fun point =>
    (normalizeCanonicalCoordinate (point.x + translateX),
      normalizeCanonicalCoordinate (point.y + translateY))

def ringPointKeys (points : List (IrregularPoint F)) (translateX translateY : F) :
    List String :=
  (ringCoordinates points translateX translateY).map fun c => canonicalPointKey c.1 c.2

def keyBefore (first second : String) : Bool := cmpJsCodeUnits first second == .lt

theorem keyBefore_swap (a b : String) (h : a ≠ b) : keyBefore a b = !keyBefore b a := by
  have hne : codeUnits a ≠ codeUnits b := fun heq => h (codeUnits_injective heq)
  have hiff : ∀ a b : String, keyBefore a b = decide (codeUnits a < codeUnits b) := by
    intro a b
    rw [Bool.eq_iff_iff, decide_eq_true_iff, ← cmpJsCodeUnits_eq_lt_iff, keyBefore, beq_iff_eq]
  rw [hiff, hiff]
  rcases lt_or_gt_of_ne hne with hlt | hgt
  · rw [decide_eq_true hlt, decide_eq_false hlt.not_gt]
    rfl
  · rw [decide_eq_true hgt, decide_eq_false hgt.not_gt]
    rfl

/-- The record of a reading. -/
def ringRecord (F : Type) [LinearOrder F] [Zero F] [JsMath F] (keys : List String) : String :=
  canonicalToken "point-count" ++
    canonicalToken (canonicalNumber (JsNumber.ofNat keys.length : F)) ++
    String.join (keys.zipIdx.map fun entry =>
      canonicalToken ("point-" ++ toString entry.2) ++ canonicalToken entry.1)

section

variable {keys : List String} {start : ℕ}

theorem getD_forward {k : ℕ} (hk : k < keys.length) :
    keys.getD ((start + k) % keys.length) "" =
      getElem (keys.rotate start) k (by rwa [List.length_rotate]) := by
  rw [List.getD_eq_getElem _ _ (Nat.mod_lt _ (by omega)), List.getElem_rotate]
  simp only [Nat.add_comm]

theorem getD_backward {k : ℕ} (hk : k < keys.length) :
    keys.getD ((start + keys.length * 2 - k) % keys.length) "" =
      getElem (turnBack (keys.rotate start)) k (by rwa [length_turnBack, List.length_rotate]) := by
  rw [List.getD_eq_getElem _ _ (Nat.mod_lt _ (by omega)), getElem_turnBack, List.getElem_rotate]
  simp only [List.length_rotate, Nat.mod_add_mod,
    show start + keys.length * 2 - k = keys.length - k + start + keys.length by omega,
    Nat.add_mod_right]

/-- The two directions differ first where the readings do. -/
theorem forwardWins_eq_drop : ∀ {m j : ℕ}, j + m = keys.length →
    forwardWins keys start (List.range' j m) =
      firstWins keyBefore ((keys.rotate start).drop j) ((turnBack (keys.rotate start)).drop j)
  | 0, j, hsum => by
    rw [List.drop_eq_nil_of_le (by rw [List.length_rotate]; omega), List.range'_zero]
    rfl
  | m + 1, j, hsum => by
    have hj : j < keys.length := by omega
    have hforth : j < (keys.rotate start).length := by rwa [List.length_rotate]
    have hback : j < (turnBack (keys.rotate start)).length := by rwa [length_turnBack]
    rw [List.range'_succ, List.drop_eq_getElem_cons hforth, List.drop_eq_getElem_cons hback,
      forwardWins, firstWins, forwardWins_eq_drop (by omega), getD_forward hj, getD_backward hj]
    rfl

theorem forwardWins_eq (h : 0 < keys.length) :
    forwardWins keys start ((List.range keys.length).drop 1) =
      firstWins keyBefore (keys.rotate start) (turnBack (keys.rotate start)) := by
  have hdrop : (List.range keys.length).drop 1 = List.range' 1 (keys.length - 1) := by
    rw [List.range_eq_range', List.drop_range']
  rw [hdrop, forwardWins_eq_drop (by omega)]
  have hlen : 0 < (keys.rotate start).length := by rwa [List.length_rotate]
  generalize keys.rotate start = reading at hlen
  cases reading with
  | nil => exact absurd hlen (lt_irrefl 0)
  | cons a rest =>
    show _ = if a = a then _ else _
    rw [if_pos rfl]
    rfl

end

/-- **The key is the record of the smaller reading.** -/
theorem canonicalRingKey_eq {points : List (IrregularPoint F)} (hne : points ≠ [])
    (translateX translateY : F) :
    canonicalRingKey points translateX translateY = ringRecord F (smaller keyBefore
      ((ringPointKeys points translateX translateY).rotate
        (ringStartIndex (ringCoordinates points translateX translateY)))) := by
  have hlen : (ringPointKeys points translateX translateY).length = points.length := by
    simp only [ringPointKeys, ringCoordinates, List.length_map]
  have hpos : 0 < points.length := List.length_pos_iff.mpr hne
  unfold canonicalRingKey ringRecord
  rw [if_neg (by simpa using hne)]
  dsimp only
  change _ ++ _ ++ String.join ((List.range points.length).map fun offset =>
    canonicalToken ("point-" ++ toString offset) ++
      canonicalToken ((ringPointKeys points translateX translateY).getD
        (if forwardWins (ringPointKeys points translateX translateY)
            (ringStartIndex (ringCoordinates points translateX translateY))
            ((List.range points.length).drop 1) = true then
          (ringStartIndex (ringCoordinates points translateX translateY) + offset) % points.length
        else (ringStartIndex (ringCoordinates points translateX translateY) + points.length * 2 -
          offset) % points.length) "")) = _
  generalize ringStartIndex (ringCoordinates points translateX translateY) = start
  generalize ringPointKeys points translateX translateY = keys at hlen
  rw [← hlen] at hpos ⊢
  rw [forwardWins_eq hpos]
  unfold smaller
  have hrecord : ∀ reading : List String, (hreading : reading.length = keys.length) →
      ∀ index : ℕ → ℕ, (∀ k (hk : k < keys.length), keys.getD (index k) "" =
        getElem reading k (hreading ▸ hk)) →
      (List.range keys.length).map (fun offset : ℕ =>
        canonicalToken ("point-" ++ toString offset) ++ canonicalToken (keys.getD (index offset) "")) =
      reading.zipIdx.map fun entry =>
        canonicalToken ("point-" ++ toString entry.2) ++ canonicalToken entry.1 := by
    intro reading hreading index hget
    refine List.ext_getElem (by simp [hreading]) fun k hk _ => ?_
    rw [List.length_map, List.length_range] at hk
    simp only [List.getElem_map, List.getElem_range, List.getElem_zipIdx, Nat.zero_add]
    rw [hget k hk]
  split
  · rw [List.length_rotate, hrecord (keys.rotate start) (List.length_rotate _ _)
      (fun offset => (start + offset) % keys.length) fun k hk => getD_forward hk]
  · rw [length_turnBack, List.length_rotate, hrecord (turnBack (keys.rotate start))
      (by rw [length_turnBack, List.length_rotate])
      (fun offset => (start + keys.length * 2 - offset) % keys.length)
      fun k hk => getD_backward hk]

/-- The record of as many keys determines them. -/
theorem ringRecord_injective {keys keys' : List String} (hlen : keys.length = keys'.length)
    (h : ringRecord F keys = ringRecord F keys') : keys = keys' := by
  have hjoin : ∀ (keys keys' : List String) (offset : ℕ), keys.length = keys'.length →
      String.join ((keys.zipIdx offset).map fun entry =>
          canonicalToken ("point-" ++ toString entry.2) ++ canonicalToken entry.1) =
        String.join ((keys'.zipIdx offset).map fun entry =>
          canonicalToken ("point-" ++ toString entry.2) ++ canonicalToken entry.1) →
      keys = keys' := by
    intro keys
    induction keys with
    | nil =>
      intro keys' offset hlen _
      exact (List.length_eq_zero_iff.mp hlen.symm).symm
    | cons key rest ih =>
      intro keys' offset hlen h
      cases keys' with
      | nil => cases hlen
      | cons key' rest' =>
        have htext := congrArg String.toList h
        simp only [List.zipIdx_cons, List.map_cons, String.join_cons, String.toList_append,
          List.append_assoc] at htext
        obtain ⟨-, hentry⟩ := splits_canonicalToken _ _ _ _ htext
        obtain ⟨rfl, hrest⟩ := splits_canonicalToken _ _ _ _ hentry
        rw [ih rest' (offset + 1) (Nat.succ_injective hlen) (String.toList_injective hrest)]
  unfold ringRecord at h
  rw [hlen] at h
  have htext := congrArg String.toList h
  simp only [String.toList_append, List.append_assoc] at htext
  exact hjoin keys keys' 0 hlen
    (String.toList_injective (List.append_cancel_left (List.append_cancel_left htext)))

/-! ## §3  All writings of a ring -/

/-- The snapped ring is the same, forwards or backwards, from every lowest vertex
that is leftmost among the lowest. -/
def SameFromEveryLowest (points : List (IrregularPoint F)) (translateX translateY : F) : Prop :=
  ∀ s s', IsLowest (ringCoordinates points translateX translateY) s →
    IsLowest (ringCoordinates points translateX translateY) s' →
      (ringPointKeys points translateX translateY).rotate s' =
          (ringPointKeys points translateX translateY).rotate s ∨
        (ringPointKeys points translateX translateY).rotate s' =
          turnBack ((ringPointKeys points translateX translateY).rotate s)

/-- Rotation moves the lowest vertices along. -/
theorem isLowest_rotate {coordinates : List (F × F)} {n s : ℕ}
    (h : IsLowest (coordinates.rotate n) s) :
    IsLowest coordinates ((s + n) % coordinates.length) := by
  have hlt := h.lt
  rw [List.length_rotate] at hlt
  refine ⟨Nat.mod_lt _ (by omega), fun k hk => ?_⟩
  obtain ⟨j, hj, hjk⟩ : ∃ j < coordinates.length, (j + n) % coordinates.length = k := by
    refine ⟨(k + (coordinates.length - n % coordinates.length)) % coordinates.length,
      Nat.mod_lt _ (by omega), ?_⟩
    have hmod := Nat.mod_lt n (show 0 < coordinates.length by omega)
    rw [Nat.mod_add_mod, ← Nat.add_mod_mod, show k + (coordinates.length - n % coordinates.length) +
      n % coordinates.length = k + coordinates.length by omega, Nat.add_mod_right,
      Nat.mod_eq_of_lt hk]
  have hle := h.le j (by rwa [List.length_rotate])
  rw [List.getElem_rotate, List.getElem_rotate] at hle
  simpa only [hjk] using hle

theorem isLowest_reverse {coordinates : List (F × F)} {s : ℕ}
    (h : IsLowest coordinates.reverse s) : IsLowest coordinates (coordinates.length - 1 - s) := by
  have hlt := h.lt
  rw [List.length_reverse] at hlt
  refine ⟨by omega, fun k hk => ?_⟩
  have hle := h.le (coordinates.length - 1 - k) (by rw [List.length_reverse]; omega)
  rw [List.getElem_reverse, List.getElem_reverse] at hle
  simpa only [show coordinates.length - 1 - (coordinates.length - 1 - k) = k by omega] using hle

/-- **Every writing of the ring is read from one of its lowest vertices.** -/
theorem exists_lowest_reading {points points' : List (IrregularPoint F)} (hne : points ≠ [])
    (hsame : SameRing points' points) (translateX translateY : F) :
    ∃ t, IsLowest (ringCoordinates points translateX translateY) t ∧
      canonicalRingKey points' translateX translateY = ringRecord F (smaller keyBefore
        ((ringPointKeys points translateX translateY).rotate t)) := by
  have hlen : (ringPointKeys points translateX translateY).length = points.length := by
    simp only [ringPointKeys, ringCoordinates, List.length_map]
  have hlen' : (ringCoordinates points translateX translateY).length = points.length := by
    simp only [ringCoordinates, List.length_map]
  have hpos := List.length_pos_iff.mpr hne
  -- the start of a writing is a lowest vertex of it
  have hstart : ∀ written : List (IrregularPoint F), written.length = points.length →
      IsLowest (ringCoordinates written translateX translateY)
          (ringStartIndex (ringCoordinates written translateX translateY)) ∧
        canonicalRingKey written translateX translateY = ringRecord F (smaller keyBefore
          ((ringPointKeys written translateX translateY).rotate
            (ringStartIndex (ringCoordinates written translateX translateY)))) := by
    intro written hwritten
    refine ⟨(ringStartIndex_spec ?_).isLowest, canonicalRingKey_eq ?_ _ _⟩
    · rw [ringCoordinates, List.length_map, hwritten]
      exact hpos
    · rw [← List.length_pos_iff, hwritten]
      exact hpos
  rcases hsame with hsame | hsame
  · obtain ⟨m, rfl⟩ := hsame.symm
    obtain ⟨hlowest, hkey⟩ := hstart (points.rotate m) (List.length_rotate _ _)
    have hcoordinates : ringCoordinates (points.rotate m) translateX translateY =
        (ringCoordinates points translateX translateY).rotate m := List.map_rotate _ _ _
    have hkeys : ringPointKeys (points.rotate m) translateX translateY =
        (ringPointKeys points translateX translateY).rotate m := by
      rw [ringPointKeys, hcoordinates, List.map_rotate]
      rfl
    rw [hkey, hkeys]
    rw [hcoordinates] at hlowest ⊢
    generalize ringStartIndex ((ringCoordinates points translateX translateY).rotate m) = start
      at hlowest ⊢
    refine ⟨_, isLowest_rotate hlowest, ?_⟩
    rw [List.rotate_rotate, hlen', ← hlen, List.rotate_mod, Nat.add_comm]
  · obtain ⟨m, rfl⟩ := hsame.symm
    obtain ⟨hlowest, hkey⟩ := hstart (points.reverse.rotate m) (by simp)
    have hcoordinates : ringCoordinates (points.reverse.rotate m) translateX translateY =
        (ringCoordinates points translateX translateY).reverse.rotate m := by
      rw [ringCoordinates, List.map_rotate, List.map_reverse]
      rfl
    have hkeys : ringPointKeys (points.reverse.rotate m) translateX translateY =
        (ringPointKeys points translateX translateY).reverse.rotate m := by
      rw [ringPointKeys, hcoordinates, List.map_rotate, List.map_reverse]
      rfl
    rw [hkey, hkeys]
    rw [hcoordinates] at hlowest ⊢
    generalize ringStartIndex
      ((ringCoordinates points translateX translateY).reverse.rotate m) = start at hlowest ⊢
    have hturned := isLowest_rotate hlowest
    rw [List.length_reverse] at hturned
    refine ⟨_, isLowest_reverse hturned, ?_⟩
    have hlt := hturned.lt
    rw [List.length_reverse, hlen'] at hlt
    rw [hlen', ← smaller_turnBack keyBefore_swap ((ringPointKeys points translateX
      translateY).rotate _), ← reverse_rotate_eq (by rw [hlen]; omega), hlen, List.rotate_rotate,
      show points.length - 1 - (points.length - 1 - (start + m) % points.length) =
        (start + m) % points.length by omega]
    have hmod := List.rotate_mod (ringPointKeys points translateX translateY).reverse (start + m)
    rw [List.length_reverse, hlen] at hmod
    rw [hmod, Nat.add_comm]

/-- **A ring key is free of start and winding exactly where the snapped ring looks
the same from all of its lowest vertices.** -/
theorem canonicalRingKey_startFree_iff (points : List (IrregularPoint F))
    (translateX translateY : F) :
    (∀ points' : List (IrregularPoint F), SameRing points' points →
        canonicalRingKey points' translateX translateY =
          canonicalRingKey points translateX translateY) ↔
      SameFromEveryLowest points translateX translateY := by
  have hlen : (ringPointKeys points translateX translateY).length = points.length := by
    simp only [ringPointKeys, ringCoordinates, List.length_map]
  rcases eq_or_ne points [] with rfl | hne
  · refine iff_of_true (fun points' hsame => ?_) fun s _ h => absurd h.lt s.not_lt_zero
    rw [List.perm_nil.mp hsame.perm]
  constructor
  · intro hfree s s' hs hs'
    -- the writing that starts at a lowest vertex is read from it
    have hread : ∀ t, IsLowest (ringCoordinates points translateX translateY) t →
        canonicalRingKey points translateX translateY = ringRecord F (smaller keyBefore
          ((ringPointKeys points translateX translateY).rotate t)) := by
      intro t ht
      rw [← hfree (points.rotate t) (.inl (List.IsRotated.symm ⟨t, rfl⟩))]
      have hcoordinates : ringCoordinates (points.rotate t) translateX translateY =
          (ringCoordinates points translateX translateY).rotate t := List.map_rotate _ _ _
      have hkeys : ringPointKeys (points.rotate t) translateX translateY =
          (ringPointKeys points translateX translateY).rotate t := by
        rw [ringPointKeys, hcoordinates, List.map_rotate]
        rfl
      have hpos := ht.lt
      have hlength : 0 < ((ringCoordinates points translateX translateY).rotate t).length := by
        rw [List.length_rotate]
        omega
      have hspec := ringStartIndex_spec hlength
      have hzero : ringStartIndex ((ringCoordinates points translateX translateY).rotate t) = 0 := by
        by_contra hstart
        have hfirst := hspec.first 0 (Nat.pos_of_ne_zero hstart)
        rw [List.getElem_rotate, List.getElem_rotate] at hfirst
        simp only [Nat.zero_add, Nat.mod_eq_of_lt hpos] at hfirst
        exact absurd (ht.le _ _) (not_le.mpr hfirst)
      rw [canonicalRingKey_eq (by simpa using hne), hkeys, hcoordinates, hzero, List.rotate_zero]
    have hrecord := (hread s hs).symm.trans (hread s' hs')
    have hlength : ∀ l : List String, (smaller keyBefore l).length = l.length := by
      intro l
      unfold smaller
      split
      · rfl
      · exact length_turnBack l
    exact (smaller_eq_iff keyBefore_swap).mp (ringRecord_injective (F := F)
      (by rw [hlength, hlength, List.length_rotate, List.length_rotate]) hrecord)
  · intro hsame points' hring
    obtain ⟨t, ht, hkey⟩ := exists_lowest_reading hne (.inl (List.IsRotated.refl points))
      translateX translateY
    obtain ⟨t', ht', hkey'⟩ := exists_lowest_reading hne hring translateX translateY
    rw [hkey, hkey', (smaller_eq_iff keyBefore_swap).mpr (hsame t t' ht ht')]

/-- A strictly convex ring whose shortest edge, at the bottom left, is lost on the grid. -/
def repeatedLowestRing : List (IrregularPoint ℚ) :=
  [⟨0, 1 / 10000⟩, ⟨1 / 10000, 0⟩, ⟨1, 1 / 2⟩, ⟨1 / 2, 1⟩]

theorem canonicalRingKey_repeatedLowest :
    canonicalRingKey (repeatedLowestRing.rotate 1) 0 0 ≠
      canonicalRingKey repeatedLowestRing 0 0 := by
  decide +kernel

end PolygonNesting
