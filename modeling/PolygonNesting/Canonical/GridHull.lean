import PolygonNesting.Canonical.GridMath
import PolygonNesting.Canonical.LayoutIdentity
import PolygonNesting.Lib.MonotoneChain

/-!
# The convex hull on the canonical grid

The points are made unique by the text of their coordinates, sorted, and pushed
on two monotone chains.  The text of a number comes from a package and is a
parameter; on safe integers it is the decimal one.
-/

namespace PolygonNesting

open Binary64 Plane

/-! ## §1  The hull -/

variable (numberToJsString : Number → String)

/-- The points so far, and the index of each key. -/
structure UniqueGridPoints where
  unique : List NumberGridPoint
  keyIndex : List (String × ℕ)

def gridPointKey (point : NumberGridPoint) : String :=
  numberToJsString point.x ++ "," ++ numberToJsString point.y

/-- A key seen before overwrites its point in place. -/
def UniqueGridPoints.insert (state : UniqueGridPoints) (point : NumberGridPoint) :
    UniqueGridPoints :=
  match state.keyIndex.lookup (gridPointKey numberToJsString point) with
  | some index => { state with unique := state.unique.set index point }
  | none =>
      { unique := state.unique ++ [point]
        keyIndex := (gridPointKey numberToJsString point, state.unique.length) :: state.keyIndex }

def uniqueGridPoints (points : List NumberGridPoint) : List NumberGridPoint :=
  (points.foldl (UniqueGridPoints.insert numberToJsString) ⟨[], []⟩).unique

def hullSortKey (first second : NumberGridPoint) : Number :=
  let dx := first.x.sub second.x
  let dxIsTruthy := !dx.eq (Number.ofInt 0) && !dx.isNan
  if dxIsTruthy then dx else first.y.sub second.y

def hullSortOrdering (first second : NumberGridPoint) : Ordering :=
  let key := hullSortKey first second
  if key.isNan then .eq
  else if key.lt (Number.ofInt 0) then .lt
  else if (Number.ofInt 0).lt key then .gt
  else .eq

/-- Pop while the last two points and the new one do not turn left; the last
point of the half is first in the list. -/
def popGridHalf (point : NumberGridPoint) : List NumberGridPoint → Option (List NumberGridPoint)
  | first :: origin :: rest =>
      match canonicalGridCrossSign origin first point with
      | none => none
      | some turn =>
          if 0 < turn then some (first :: origin :: rest) else popGridHalf point (origin :: rest)
  | half => some half

def buildGridHalf (ordered : List NumberGridPoint) : Option (List NumberGridPoint) :=
  (ordered.foldlM (fun half point => (popGridHalf point half).map (point :: ·)) []).map
    List.reverse

def canonicalGridConvexHull (points : List NumberGridPoint) : Option (List NumberGridPoint) :=
  let unique := (uniqueGridPoints numberToJsString points).mergeSort
    fun first second => hullSortOrdering first second != .gt
  if unique.any fun point => !isCanonicalGridPoint point then none
  else if unique.length ≤ 1 then some unique
  else do
    let lower ← buildGridHalf unique
    let upper ← buildGridHalf unique.reverse
    some (lower.dropLast ++ upper.dropLast)

/-! ## §2  Safe points in the plane -/

namespace SafeGridPoint

def position (point : SafeGridPoint) : ℚ × ℚ := (point.x, point.y)

theorem ext_iff_coordinates {p q : SafeGridPoint} : p = q ↔ p.x = q.x ∧ p.y = q.y := by
  constructor
  · rintro rfl
    exact ⟨rfl, rfl⟩
  · rintro ⟨hx, hy⟩
    obtain ⟨⟨x, y⟩, _, _⟩ := p
    obtain ⟨⟨x', y'⟩, _, _⟩ := q
    obtain rfl : x = x' := hx
    obtain rfl : y = y' := hy
    rfl

theorem position_injective : Function.Injective position := by
  intro p q h
  obtain ⟨hx, hy⟩ := Prod.mk.inj h
  exact ext_iff_coordinates.mpr ⟨by exact_mod_cast hx, by exact_mod_cast hy⟩

/-- Before in the order of the hull. -/
def Before (p q : SafeGridPoint) : Prop := (HalfPlane.right ℚ).mem (q.position - p.position)

theorem before_iff {p q : SafeGridPoint} : Before p q ↔ p.x < q.x ∨ p.x = q.x ∧ p.y < q.y := by
  show (0 : ℚ) < q.x - p.x ∨ (q.x - p.x : ℚ) = 0 ∧ (0 : ℚ) < q.y - p.y ↔ _
  rw [sub_pos, sub_eq_zero, sub_pos]
  norm_cast
  rw [eq_comm]

theorem Before.trans {p q r : SafeGridPoint} (h : Before p q) (h' : Before q r) : Before p r := by
  have := (HalfPlane.right ℚ).add h h'
  rwa [sub_add_sub_comm, add_comm q.position, add_sub_add_right_eq_sub] at this

theorem Before.irrefl (p : SafeGridPoint) : ¬Before p p := by
  intro h
  rw [Before, sub_self] at h
  exact (HalfPlane.right ℚ).zero h

theorem before_total (p q : SafeGridPoint) : p = q ∨ Before p q ∨ Before q p := by
  rw [before_iff, before_iff, ext_iff_coordinates]
  omega

/-- **The order of the sort** on safe points. -/
theorem hullSortOrdering_toNumber (p q : SafeGridPoint) :
    (hullSortOrdering p.toNumber q.toNumber != .gt) = true ↔ p = q ∨ Before p q := by
  have hx : p.toNumber.x.sub q.toNumber.x = Binary64.round ((p.x - q.x : ℤ) : ℚ) := by
    unfold toNumber
    rw [Number.ofInt_eq (abs_le_of_safe p.x_safe), Number.ofInt_eq (abs_le_of_safe q.x_safe),
      Number.sub, Int.cast_sub]
  have hy : p.toNumber.y.sub q.toNumber.y = Binary64.round ((p.y - q.y : ℤ) : ℚ) := by
    unfold toNumber
    rw [Number.ofInt_eq (abs_le_of_safe p.y_safe), Number.ofInt_eq (abs_le_of_safe q.y_safe),
      Number.sub, Int.cast_sub]
  have hkey : hullSortKey p.toNumber q.toNumber =
      Binary64.round ((if p.x - q.x = 0 then p.y - q.y else p.x - q.x : ℤ) : ℚ) := by
    unfold hullSortKey
    dsimp only
    rw [hx, hy, (Number.sign_round (p.x - q.x)).1, isNan_round]
    by_cases h : p.x - q.x = 0 <;> simp [h]
  unfold hullSortOrdering
  dsimp only
  rw [hkey, isNan_round, (Number.sign_round _).2.1, (Number.sign_round _).2.2, before_iff,
    ext_iff_coordinates]
  simp only [Bool.false_eq_true, if_false, decide_eq_true_eq]
  split_ifs <;> simp <;> omega

end SafeGridPoint

/-! ## §3  The unique points in order -/

section

variable {numberToJsString}
  (hText : ∀ n : ℤ, |n| ≤ maxSafeInteger → numberToJsString (Number.ofInt n) = toString n)

include hText

theorem gridPointKey_toNumber (p : SafeGridPoint) :
    gridPointKey numberToJsString p.toNumber = gridPointToken p.toCanonicalGridPoint := by
  unfold gridPointKey SafeGridPoint.toNumber gridPointToken
  rw [hText _ p.x_safe, hText _ p.y_safe]

theorem gridPointKey_inj {p q : SafeGridPoint}
    (h : gridPointKey numberToJsString p.toNumber = gridPointKey numberToJsString q.toNumber) :
    p = q := by
  rw [gridPointKey_toNumber hText, gridPointKey_toNumber hText] at h
  have := gridPointToken_injective h
  exact SafeGridPoint.ext_iff_coordinates.mpr
    ⟨congrArg CanonicalGridPoint.x this, congrArg CanonicalGridPoint.y this⟩

omit hText in
/-- What the loop knows after the points seen. -/
structure UniqueUpTo (numberToJsString : Number → String) (seen unique : List SafeGridPoint)
    (state : UniqueGridPoints) : Prop where
  points : state.unique = unique.map SafeGridPoint.toNumber
  nodup : unique.Nodup
  mem : ∀ p, p ∈ unique ↔ p ∈ seen
  index : ∀ p : SafeGridPoint, state.keyIndex.lookup (gridPointKey numberToJsString p.toNumber) =
    if p ∈ unique then some (unique.idxOf p) else none

theorem UniqueUpTo.insert {seen unique : List SafeGridPoint} {state : UniqueGridPoints}
    (h : UniqueUpTo numberToJsString seen unique state) (p : SafeGridPoint) :
    ∃ unique', UniqueUpTo numberToJsString (seen ++ [p]) unique'
      (state.insert numberToJsString p.toNumber) := by
  have hindex := h.index p
  unfold UniqueGridPoints.insert
  by_cases hp : p ∈ unique
  · -- the point is written over itself
    rw [if_pos hp] at hindex
    rw [hindex]
    have hlt := List.idxOf_lt_length_of_mem hp
    refine ⟨unique, ?_, h.nodup, fun q => ?_, h.index⟩
    · rw [h.points]
      refine (List.ext_getElem (by simp) fun i _ _ => ?_)
      rw [List.getElem_set]
      split
      · next heq =>
        subst heq
        rw [List.getElem_map, List.getElem_idxOf]
      · rfl
    · rw [h.mem, List.mem_append, List.mem_singleton, or_iff_left_of_imp]
      rintro rfl
      exact (h.mem q).mp hp
  · rw [if_neg hp] at hindex
    rw [hindex]
    refine ⟨unique ++ [p], ?_, ?_, fun q => ?_, fun q => ?_⟩
    · rw [List.map_append, h.points]
      rfl
    · exact List.nodup_append.mpr ⟨h.nodup, List.nodup_singleton p, fun a ha b hb heq =>
        hp (List.mem_singleton.mp hb ▸ heq ▸ ha)⟩
    · rw [List.mem_append, List.mem_append, h.mem]
    · rw [h.points, List.length_map]
      dsimp only
      by_cases hq : q = p
      · subst hq
        rw [List.lookup_cons_self, if_pos (by simp), List.idxOf_append_of_notMem hp]
        simp
      · have hkey : (gridPointKey numberToJsString q.toNumber ==
            gridPointKey numberToJsString p.toNumber) = false :=
          beq_eq_false_iff_ne.mpr fun heq => hq (gridPointKey_inj hText heq)
        rw [List.lookup_cons, hkey, h.index]
        by_cases hmem : q ∈ unique
        · rw [if_pos hmem, if_pos (List.mem_append_left _ hmem), List.idxOf_append_of_mem hmem]
        · rw [if_neg hmem, if_neg (by simp [hmem, hq])]

theorem uniqueGridPoints_spec (points : List SafeGridPoint) :
    ∃ unique : List SafeGridPoint, uniqueGridPoints numberToJsString
        (points.map SafeGridPoint.toNumber) = unique.map SafeGridPoint.toNumber ∧
      unique.Nodup ∧ ∀ p, p ∈ unique ↔ p ∈ points := by
  have hrun : ∀ (rest seen unique : List SafeGridPoint) (state : UniqueGridPoints),
      UniqueUpTo numberToJsString seen unique state →
      ∃ unique', UniqueUpTo numberToJsString (seen ++ rest) unique'
        ((rest.map SafeGridPoint.toNumber).foldl (UniqueGridPoints.insert numberToJsString)
          state) := by
    intro rest
    induction rest with
    | nil =>
      intro seen unique state h
      rw [List.append_nil]
      exact ⟨unique, h⟩
    | cons p rest ih =>
      intro seen unique state h
      obtain ⟨unique', h'⟩ := h.insert hText p
      rw [show seen ++ p :: rest = seen ++ [p] ++ rest by simp]
      exact ih _ _ _ h'
  obtain ⟨unique, h⟩ := hrun points [] [] ⟨[], []⟩
    ⟨rfl, List.nodup_nil, fun p => Iff.rfl, fun p => rfl⟩
  exact ⟨unique, h.points, h.nodup, h.mem⟩

end

/-- The same members, in the order of the hull. -/
structure InHullOrder (points sorted : List SafeGridPoint) : Prop where
  before : sorted.Pairwise SafeGridPoint.Before
  mem : ∀ p, p ∈ sorted ↔ p ∈ points

/-- **The sorted points depend on the members only.** -/
theorem InHullOrder.unique {points points' sorted sorted' : List SafeGridPoint}
    (h : InHullOrder points sorted) (h' : InHullOrder points' sorted')
    (hmem : ∀ p, p ∈ points' ↔ p ∈ points) : sorted = sorted' := by
  have : Std.Irrefl SafeGridPoint.Before := ⟨SafeGridPoint.Before.irrefl⟩
  have : Std.Antisymm SafeGridPoint.Before :=
    ⟨fun p q hpq hqp => absurd (hpq.trans hqp) (SafeGridPoint.Before.irrefl p)⟩
  refine h.before.eq_of_mem_iff h'.before fun {p} => ?_
  rw [h.mem, h'.mem, hmem]

theorem exists_inHullOrder {unique : List SafeGridPoint} (hnodup : unique.Nodup) :
    ∃ sorted : List SafeGridPoint, (unique.map SafeGridPoint.toNumber).mergeSort
        (fun first second => hullSortOrdering first second != .gt) =
          sorted.map SafeGridPoint.toNumber ∧ InHullOrder unique sorted := by
  let le : SafeGridPoint → SafeGridPoint → Bool := fun p q =>
    hullSortOrdering p.toNumber q.toNumber != .gt
  have hle : ∀ p q, le p q = true ↔ p = q ∨ SafeGridPoint.Before p q :=
    SafeGridPoint.hullSortOrdering_toNumber
  have hmap : (unique.mergeSort le).map SafeGridPoint.toNumber =
      (unique.map SafeGridPoint.toNumber).mergeSort
        (fun first second => hullSortOrdering first second != .gt) :=
    List.map_mergeSort fun _ _ _ _ => rfl
  refine ⟨unique.mergeSort le, hmap.symm, ?_, fun p => List.mem_mergeSort⟩
  have hsorted : (unique.mergeSort le).Pairwise fun p q => le p q = true := by
    refine List.pairwise_mergeSort ?_ ?_ unique
    · intro p q r hpq hqr
      rw [hle] at hpq hqr ⊢
      rcases hpq with rfl | hpq
      · exact hqr
      · rcases hqr with rfl | hqr
        · exact .inr hpq
        · exact .inr (hpq.trans hqr)
    · intro p q
      rw [Bool.or_eq_true, hle, hle]
      rcases SafeGridPoint.before_total p q with h | h | h
      · exact .inl (.inl h)
      · exact .inl (.inr h)
      · exact .inr (.inr h)
  have hdistinct : (unique.mergeSort le).Pairwise fun p q => p ≠ q :=
    (List.mergeSort_perm unique le).nodup_iff.mpr hnodup
  exact (hsorted.and hdistinct).imp fun {p q} h => ((hle p q).mp h.1).resolve_left h.2

/-! ## §4  The chains -/

theorem cross_position (origin first second : SafeGridPoint) :
    cross origin.position first.position second.position =
      gridCross origin.toCanonicalGridPoint first.toCanonicalGridPoint
        second.toCanonicalGridPoint := by
  unfold cross gridCross SafeGridPoint.position
  push_cast
  ring

theorem popGridHalf_toNumber (point : SafeGridPoint) : ∀ half : List SafeGridPoint,
    ∃ half' : List SafeGridPoint, popGridHalf point.toNumber (half.map SafeGridPoint.toNumber) =
        some (half'.map SafeGridPoint.toNumber) ∧
      half'.map SafeGridPoint.position =
        popTurns point.position (half.map SafeGridPoint.position)
  | [] => ⟨[], rfl, rfl⟩
  | [p] => ⟨[p], rfl, rfl⟩
  | first :: origin :: rest => by
    rw [List.map_cons, List.map_cons, popGridHalf, canonicalGridCrossSign_toNumber,
      List.map_cons, List.map_cons, popTurns, cross_position]
    dsimp only
    by_cases hturn : 0 < gridCross origin.toCanonicalGridPoint first.toCanonicalGridPoint
        point.toCanonicalGridPoint
    · rw [if_pos (Int.sign_pos_iff.mpr hturn), if_pos (Int.cast_pos.mpr hturn)]
      exact ⟨first :: origin :: rest, rfl, rfl⟩
    · rw [if_neg fun h => hturn (Int.sign_pos_iff.mp h), if_neg fun h => hturn (Int.cast_pos.mp h)]
      exact popGridHalf_toNumber point (origin :: rest)

/-- **A half of the hull** is the monotone chain of the points. -/
theorem buildGridHalf_toNumber (ordered : List SafeGridPoint) :
    ∃ half : List SafeGridPoint, buildGridHalf (ordered.map SafeGridPoint.toNumber) =
        some (half.map SafeGridPoint.toNumber) ∧
      half.map SafeGridPoint.position = halfHull (ordered.map SafeGridPoint.position) := by
  have hfold : ∀ (ordered half : List SafeGridPoint), ∃ half' : List SafeGridPoint,
      (ordered.map SafeGridPoint.toNumber).foldlM
          (fun half point => (popGridHalf point half).map (point :: ·))
          (half.map SafeGridPoint.toNumber) = some (half'.map SafeGridPoint.toNumber) ∧
        half'.map SafeGridPoint.position = (ordered.map SafeGridPoint.position).foldl
          (fun stack c => c :: popTurns c stack) (half.map SafeGridPoint.position) := by
    intro ordered
    induction ordered with
    | nil => exact fun half => ⟨half, rfl, rfl⟩
    | cons point rest ih =>
      intro half
      obtain ⟨popped, hpop, hposition⟩ := popGridHalf_toNumber point half
      obtain ⟨half', hrun, hposition'⟩ := ih (point :: popped)
      refine ⟨half', ?_, ?_⟩
      · rw [List.map_cons, List.foldlM_cons, hpop]
        exact hrun
      · rw [hposition', List.map_cons, hposition]
        rfl
  obtain ⟨half, hrun, hposition⟩ := hfold ordered []
  refine ⟨half.reverse, ?_, ?_⟩
  · unfold buildGridHalf
    rw [← List.map_nil (f := SafeGridPoint.toNumber), hrun, Option.map_some, List.map_reverse]
  · rw [List.map_reverse, hposition]
    rfl

/-- The hull of points in order. -/
theorem canonicalGridConvexHull_of_sorted {numberToJsString : Number → String}
    {points : List NumberGridPoint} {sorted : List SafeGridPoint}
    (h : (uniqueGridPoints numberToJsString points).mergeSort
      (fun first second => hullSortOrdering first second != .gt) =
        sorted.map SafeGridPoint.toNumber) :
    ∃ hull : List SafeGridPoint, canonicalGridConvexHull numberToJsString points =
        some (hull.map SafeGridPoint.toNumber) ∧
      hull.map SafeGridPoint.position =
        if sorted.length ≤ 1 then sorted.map SafeGridPoint.position
        else hullPoints (sorted.map SafeGridPoint.position) := by
  have hsafe : ((sorted.map SafeGridPoint.toNumber).any fun point =>
      !isCanonicalGridPoint point) = false := by
    rw [List.any_map, List.any_eq_false]
    intro p _
    simp
  unfold canonicalGridConvexHull
  dsimp only
  rw [h, hsafe, if_neg Bool.false_ne_true, List.length_map]
  split
  · exact ⟨sorted, rfl, rfl⟩
  · obtain ⟨lower, hlower, hlow⟩ := buildGridHalf_toNumber sorted
    obtain ⟨upper, hupper, hup⟩ := buildGridHalf_toNumber sorted.reverse
    rw [List.map_reverse] at hupper
    refine ⟨lower.dropLast ++ upper.dropLast, ?_, ?_⟩
    · rw [hlower, hupper, List.map_append, List.map_dropLast, List.map_dropLast]
      rfl
    · rw [List.map_append, List.map_dropLast, List.map_dropLast, hlow, hup, List.map_reverse]
      rfl

/-! ## §5  Correctness -/

/-- Every vertex is strictly on the left of every edge that does not end in it. -/
def StrictlyConvexGridRing (hull : List SafeGridPoint) : Prop :=
  ∀ (i j : ℕ) (hi : i < hull.length) (hj : j < hull.length), j ≠ i →
    j ≠ (i + 1) % hull.length →
      0 < gridCross hull[i].toCanonicalGridPoint
        (getElem hull ((i + 1) % hull.length) (Nat.mod_lt _ (by omega))).toCanonicalGridPoint
        hull[j].toCanonicalGridPoint

/-- What a hull of points is. -/
structure IsGridHull (points hull : List SafeGridPoint) : Prop where
  mem : ∀ p ∈ hull, p ∈ points
  nodup : hull.Nodup
  strict : 3 ≤ hull.length → StrictlyConvexGridRing hull
  contains : ∀ p ∈ points, p.position ∈ convexHull ℚ {q | ∃ v ∈ hull, v.position = q}

section

variable {points sorted hull : List SafeGridPoint}

/-- One point, or none, is its own hull. -/
theorem isGridHull_of_short (h : InHullOrder points sorted) (hlen : sorted.length ≤ 1) :
    IsGridHull points sorted where
  mem p hp := (h.mem p).mp hp
  nodup := h.before.imp fun {p q} (hpq : SafeGridPoint.Before p q) (heq : p = q) =>
    SafeGridPoint.Before.irrefl q (heq ▸ hpq)
  strict hlt := absurd hlt (by omega)
  contains p hp := subset_convexHull ℚ _ ⟨p, (h.mem p).mpr hp, rfl⟩

/-- The hull of points on a line. -/
theorem isGridHull_of_line (h : InHullOrder points sorted) {first last : ℚ × ℚ}
    (hhull : hull.map SafeGridPoint.position = [first, last])
    (hfirst : first ∈ sorted.map SafeGridPoint.position)
    (hlast : last ∈ sorted.map SafeGridPoint.position) (hne : first ≠ last)
    (hsegment : ∀ q ∈ sorted.map SafeGridPoint.position, q ∈ segment ℚ first last) :
    IsGridHull points hull := by
  obtain ⟨a, rest, rfl, rfl, hrest⟩ := List.map_eq_cons_iff.mp hhull
  obtain ⟨b, rest', rfl, rfl, hrest'⟩ := List.map_eq_cons_iff.mp hrest
  obtain rfl := List.map_eq_nil_iff.mp hrest'
  have hmem : ∀ p : SafeGridPoint, p.position ∈ sorted.map SafeGridPoint.position → p ∈ points := by
    intro p hp
    obtain ⟨q, hq, heq⟩ := List.mem_map.mp hp
    rw [← SafeGridPoint.position_injective heq]
    exact (h.mem q).mp hq
  refine ⟨?_, ?_, fun hlt => absurd hlt (by simp), fun p hp => ?_⟩
  · intro p hp
    simp only [List.mem_cons, List.not_mem_nil, or_false] at hp
    rcases hp with rfl | rfl
    · exact hmem p hfirst
    · exact hmem p hlast
  · simp only [List.nodup_cons, List.mem_singleton, List.not_mem_nil, not_false_eq_true,
      List.nodup_nil, and_true]
    rintro rfl
    exact hne rfl
  · have hp' := hsegment _ (List.mem_map_of_mem ((h.mem p).mpr hp))
    have ha : a.position ∈ {q | ∃ v ∈ [a, b], v.position = q} := ⟨a, by simp, rfl⟩
    have hb : b.position ∈ {q | ∃ v ∈ [a, b], v.position = q} := ⟨b, by simp, rfl⟩
    exact segment_subset_convexHull ha hb hp'

/-- The hull of points in two directions is a strict ring. -/
theorem isGridHull_of_ring (h : InHullOrder points sorted) (R : StrictRing ℚ)
    (hsize : R.size = hull.length)
    (hvertex : ∀ k, R.vertex k = (hull.map SafeGridPoint.position).getD (k % hull.length) 0)
    (hfrom : ∀ k, R.vertex k ∈ sorted.map SafeGridPoint.position)
    (hclosed : ∀ q ∈ sorted.map SafeGridPoint.position, R.toConvexRing.Closed q) :
    IsGridHull points hull := by
  have hpos : 0 < hull.length := hsize ▸ R.toConvexRing.size_pos
  have hget : ∀ (k : ℕ) (hk : k < hull.length), R.vertex k = hull[k].position := by
    intro k hk
    rw [hvertex, Nat.mod_eq_of_lt hk,
      List.getD_eq_getElem _ _ (by rwa [List.length_map]), List.getElem_map]
  refine ⟨?_, ?_, fun _ => ?_, fun p hp => ?_⟩
  · intro p hp
    obtain ⟨k, hk, rfl⟩ := List.getElem_of_mem hp
    obtain ⟨q, hq, heq⟩ := List.mem_map.mp (hfrom k)
    rw [hget k hk] at heq
    rw [← SafeGridPoint.position_injective heq]
    exact (h.mem q).mp hq
  · rw [List.nodup_iff_injective_getElem]
    rintro ⟨i, hi⟩ ⟨j, hj⟩ heq
    have hij : R.vertex i = R.vertex j := by
      rw [hget i hi, hget j hj]
      exact congrArg SafeGridPoint.position heq
    have hmod := R.vertex_eq_iff.mp hij
    rw [Nat.ModEq, hsize, Nat.mod_eq_of_lt hi, Nat.mod_eq_of_lt hj] at hmod
    exact Fin.ext hmod
  · intro i j hi hj hne hne'
    have hleft := R.left i j
      (by rw [Nat.ModEq, hsize, Nat.mod_eq_of_lt hi, Nat.mod_eq_of_lt hj]; exact hne)
      (by rw [Nat.ModEq, hsize, Nat.mod_eq_of_lt hj]; exact hne')
    have hnext : R.vertex (i + 1) = R.vertex ((i + 1) % hull.length) :=
      R.vertex_of_modEq (by rw [hsize]; exact (Nat.mod_modEq _ _).symm)
    rw [hnext, hget i hi, hget j hj, hget _ (Nat.mod_lt _ hpos), cross_position] at hleft
    exact_mod_cast hleft
  · have hmem := (hclosed _ (List.mem_map_of_mem ((h.mem p).mpr hp))).mem_hull
    refine convexHull_mono ?_ hmem
    rintro _ ⟨k, rfl⟩
    have hlt := Nat.mod_lt k hpos
    refine ⟨hull[k % hull.length], List.getElem_mem hlt, ?_⟩
    rw [← hget _ hlt]
    exact R.vertex_of_modEq (by rw [hsize]; exact Nat.mod_modEq _ _)

theorem isGridHull_of_sorted (h : InHullOrder points sorted)
    (hhull : hull.map SafeGridPoint.position =
      if sorted.length ≤ 1 then sorted.map SafeGridPoint.position
      else hullPoints (sorted.map SafeGridPoint.position)) : IsGridHull points hull := by
  by_cases hlen : sorted.length ≤ 1
  · rw [if_pos hlen] at hhull
    rw [List.map_injective_iff.mpr SafeGridPoint.position_injective hhull]
    exact isGridHull_of_short h hlen
  rw [if_neg hlen] at hhull
  have hsorted : (sorted.map SafeGridPoint.position).Pairwise
      fun a b => (HalfPlane.right ℚ).mem (b - a) := List.pairwise_map.mpr h.before
  by_cases hspan : ∀ a d : ℚ × ℚ, d ≠ 0 →
      ∃ q ∈ sorted.map SafeGridPoint.position, det d (q - a) ≠ 0
  · obtain ⟨R, hsize, hvertex, hfrom, hclosed⟩ := exists_hullRing hsorted hspan
    rw [← hhull, List.length_map] at hsize hvertex
    exact isGridHull_of_ring h R hsize hvertex hfrom hclosed
  · obtain ⟨first, last, heq, hfirst, hlast, hne, hsegment⟩ := hullPoints_of_line hsorted
      (line_of_not_spans hspan) (by rw [List.length_map]; omega)
    exact isGridHull_of_line h (hhull.trans heq) hfirst hlast hne hsegment

end

/-- **The convex hull on the grid is correct.**  On any list of safe-integer points
it answers with some of the points, each once, that contain all of them, as a
counter-clockwise strictly convex ring when there are three or more; and with the
same ring on every list of the same points. -/
theorem canonicalGridConvexHull_correct {numberToJsString : Number → String}
    (hText : ∀ n : ℤ, |n| ≤ maxSafeInteger → numberToJsString (Number.ofInt n) = toString n)
    (points : List SafeGridPoint) :
    ∃ hull : List SafeGridPoint,
      canonicalGridConvexHull numberToJsString (points.map SafeGridPoint.toNumber) =
        some (hull.map SafeGridPoint.toNumber) ∧
      IsGridHull points hull ∧
      ∀ points' : List SafeGridPoint, (∀ p, p ∈ points' ↔ p ∈ points) →
        canonicalGridConvexHull numberToJsString (points'.map SafeGridPoint.toNumber) =
          some (hull.map SafeGridPoint.toNumber) := by
  have hrun : ∀ points : List SafeGridPoint, ∃ sorted : List SafeGridPoint,
      (uniqueGridPoints numberToJsString (points.map SafeGridPoint.toNumber)).mergeSort
        (fun first second => hullSortOrdering first second != .gt) =
          sorted.map SafeGridPoint.toNumber ∧ InHullOrder points sorted := by
    intro points
    obtain ⟨unique, hunique, hnodup, hmem⟩ := uniqueGridPoints_spec hText points
    obtain ⟨sorted, hsort, horder⟩ := exists_inHullOrder hnodup
    exact ⟨sorted, hunique ▸ hsort, horder.before, fun p => (horder.mem p).trans (hmem p)⟩
  obtain ⟨sorted, hsort, horder⟩ := hrun points
  obtain ⟨hull, hhull, hposition⟩ := canonicalGridConvexHull_of_sorted hsort
  refine ⟨hull, hhull, isGridHull_of_sorted horder hposition, fun points' hmem => ?_⟩
  obtain ⟨sorted', hsort', horder'⟩ := hrun points'
  obtain ⟨hull', hhull', hposition'⟩ := canonicalGridConvexHull_of_sorted hsort'
  rw [← horder.unique horder' hmem, ← hposition] at hposition'
  rw [hhull', List.map_injective_iff.mpr SafeGridPoint.position_injective hposition']

/-- The text of a number that is an integer. -/
def integerText : Number → String
  | .nan => "NaN"
  | .infinity negative => if negative then "-Infinity" else "Infinity"
  | .finite value _ => toString value.num

/-- Three points on a line, one of them twice. -/
def linePoints : List SafeGridPoint :=
  [⟨⟨1, 1⟩, by decide, by decide⟩, ⟨⟨0, 0⟩, by decide, by decide⟩,
    ⟨⟨2, 2⟩, by decide, by decide⟩, ⟨⟨1, 1⟩, by decide, by decide⟩]

theorem canonicalGridConvexHull_correct_line :
    ∃ hull : List SafeGridPoint,
      canonicalGridConvexHull integerText (linePoints.map SafeGridPoint.toNumber) =
        some (hull.map SafeGridPoint.toNumber) ∧ IsGridHull linePoints hull := by
  have hText : ∀ n : ℤ, |n| ≤ maxSafeInteger → integerText (Number.ofInt n) = toString n := by
    intro n hn
    rw [Number.ofInt_eq (abs_le_of_safe hn), integerText, Rat.num_intCast]
  obtain ⟨hull, hhull, hcorrect, -⟩ := canonicalGridConvexHull_correct hText linePoints
  exact ⟨hull, hhull, hcorrect⟩

end PolygonNesting
