import PolygonNesting.Geometry.StrictBoundary
import PolygonNesting.Lib.SegmentCrossing
import PolygonNesting.NfpIfp.BoundsIndex

/-!
# Segment intersection

A proper crossing is decided by four orientations and solved by Cramer's rule, with a ratio of
signed areas for a denominator that rounds to zero.  All other contacts are ends of one segment
on the other.
-/

namespace PolygonNesting.NfpIfp

open Plane

section Model

variable {F : Type} [LinearOrder F] [Zero F] [One F] [Add F] [Sub F] [Neg F] [Mul F] [Div F]
  [JsNumber F]

structure Segment (F : Type) where
  start : IrregularPoint F
  finish : IrregularPoint F
  bounds : IrregularBounds F

structure SegmentIntersection (F : Type) where
  points : List (IrregularPoint F)

def pointIsWithinSegmentBounds (point : IrregularPoint F) (segment : Segment F) : Bool :=
  decide (min segment.start.x segment.finish.x ≤ point.x) &&
    decide (point.x ≤ max segment.start.x segment.finish.x) &&
      decide (min segment.start.y segment.finish.y ≤ point.y) &&
        decide (point.y ≤ max segment.start.y segment.finish.y)

def arithmeticMessage : String :=
  "segment intersection arithmetic must produce finite coordinates."

/-- The ratio of signed areas, where the denominator is zero. -/
def fallbackIntersection (first second : Segment F) : Except String (SegmentIntersection F) :=
  let firstDirectionX := first.finish.x - first.start.x
  let firstDirectionY := first.finish.y - first.start.y
  let secondDirectionX := second.finish.x - second.start.x
  let secondDirectionY := second.finish.y - second.start.y
  let offsetX := second.start.x - first.start.x
  let offsetY := second.start.y - first.start.y
  let secondEndOffsetX := second.finish.x - first.start.x
  let secondEndOffsetY := second.finish.y - first.start.y
  let startArea := firstDirectionX * offsetY - firstDirectionY * offsetX
  let endArea := firstDirectionX * secondEndOffsetY - firstDirectionY * secondEndOffsetX
  if !JsNumber.isFinite secondEndOffsetX || !JsNumber.isFinite secondEndOffsetY ||
      !JsNumber.isFinite startArea || !JsNumber.isFinite endArea then
    .error arithmeticMessage
  else
    let oppositeSigns := decide (0 < startArea ∧ endArea < 0) ||
      decide (startArea < 0 ∧ 0 < endArea)
    let fallbackParameter := startArea / (startArea - endArea)
    let fallbackPoint : IrregularPoint F :=
      ⟨second.start.x + fallbackParameter * secondDirectionX,
        second.start.y + fallbackParameter * secondDirectionY⟩
    if !oppositeSigns || !JsNumber.isFinite fallbackParameter ||
        decide (fallbackParameter ≤ 0) || decide (1 ≤ fallbackParameter) ||
        !JsNumber.isFinite fallbackPoint.x || !JsNumber.isFinite fallbackPoint.y then .ok ⟨[]⟩
    else if !pointIsWithinSegmentBounds fallbackPoint first ||
        !pointIsWithinSegmentBounds fallbackPoint second then .ok ⟨[]⟩
    else .ok ⟨[fallbackPoint]⟩

/-- The point of a proper crossing. -/
def properIntersection (first second : Segment F) : Except String (SegmentIntersection F) :=
  let firstDirectionX := first.finish.x - first.start.x
  let firstDirectionY := first.finish.y - first.start.y
  let secondDirectionX := second.finish.x - second.start.x
  let secondDirectionY := second.finish.y - second.start.y
  let denominator := firstDirectionX * secondDirectionY - firstDirectionY * secondDirectionX
  let offsetX := second.start.x - first.start.x
  let offsetY := second.start.y - first.start.y
  let numerator := offsetX * secondDirectionY - offsetY * secondDirectionX
  if !JsNumber.isFinite firstDirectionX || !JsNumber.isFinite firstDirectionY ||
      !JsNumber.isFinite secondDirectionX || !JsNumber.isFinite secondDirectionY ||
      !JsNumber.isFinite denominator || !JsNumber.isFinite offsetX ||
      !JsNumber.isFinite offsetY || !JsNumber.isFinite numerator then
    .error arithmeticMessage
  else if denominator ≠ 0 then
    let parameter := numerator / denominator
    let x := first.start.x + parameter * firstDirectionX
    let y := first.start.y + parameter * firstDirectionY
    if !JsNumber.isFinite parameter || !JsNumber.isFinite x || !JsNumber.isFinite y then
      .error arithmeticMessage
    else .ok ⟨[⟨x, y⟩]⟩
  else fallbackIntersection first second

def intersectSegments (first second : Segment F) : Except String (SegmentIntersection F) :=
  let firstStartTurn := orientationOf first.start first.finish second.start
  let firstEndTurn := orientationOf first.start first.finish second.finish
  let secondStartTurn := orientationOf second.start second.finish first.start
  let secondEndTurn := orientationOf second.start second.finish first.finish
  if firstStartTurn ≠ 0 ∧ firstEndTurn ≠ 0 ∧ secondStartTurn ≠ 0 ∧ secondEndTurn ≠ 0 ∧
      firstStartTurn ≠ firstEndTurn ∧ secondStartTurn ≠ secondEndTurn then
    properIntersection first second
  else
    .ok ⟨(if firstStartTurn = 0 ∧ pointIsWithinSegmentBounds second.start first then
        [second.start] else []) ++
      (if firstEndTurn = 0 ∧ pointIsWithinSegmentBounds second.finish first then
        [second.finish] else []) ++
      (if secondStartTurn = 0 ∧ pointIsWithinSegmentBounds first.start second then
        [first.start] else []) ++
      (if secondEndTurn = 0 ∧ pointIsWithinSegmentBounds first.finish second then
        [first.finish] else [])⟩

end Model

/-! ## §1  Orientations and membership -/

variable {K : Type} [Field K] [LinearOrder K] [IsStrictOrderedRing K] [FloorRing K]

/-- The points of a segment. -/
def Segment.points (s : Segment K) : Set (K × K) := segment K (position s.start) (position s.finish)

/-- An end on the line and in the box of a segment is a point of it. -/
theorem mem_points_iff {s : Segment K} {q : IrregularPoint K} :
    position q ∈ s.points ↔
      orientationOf s.start s.finish q = 0 ∧ pointIsWithinSegmentBounds q s = true := by
  unfold Segment.points
  rw [mem_segment_iff_box, orientationOf_eq_zero_iff]
  unfold pointIsWithinSegmentBounds position
  simp only [Bool.and_eq_true, decide_eq_true_eq, and_assoc]

omit [IsStrictOrderedRing K] in
theorem start_mem_points (s : Segment K) : position s.start ∈ s.points := left_mem_segment K _ _

omit [IsStrictOrderedRing K] in
theorem finish_mem_points (s : Segment K) : position s.finish ∈ s.points := right_mem_segment K _ _

theorem mem_kept_iff {α : Type} {p : Prop} [Decidable p] {a b : α} :
    a ∈ (if p then [b] else []) ↔ p ∧ a = b := by
  split <;> simp [*]

/-- Two turns that are not zero and differ. -/
theorem opposite_iff {o f a b : IrregularPoint K} :
    Opposite (position o) (position f) (position a) (position b) ↔
      orientationOf o f a ≠ 0 ∧ orientationOf o f b ≠ 0 ∧
        orientationOf o f a ≠ orientationOf o f b := by
  constructor
  · intro h
    refine ⟨?_, ?_, Accepted.orientationOf_ne_of_opposite h⟩
    · rw [Ne, orientationOf_eq_zero_iff]
      rcases h with h | h
      · exact h.1.ne
      · exact h.1.ne'
    · rw [Ne, orientationOf_eq_zero_iff]
      rcases h with h | h
      · exact h.2.ne'
      · exact h.2.ne
  · rintro ⟨ha, hb, hne⟩
    rw [Ne, orientationOf_eq_zero_iff] at ha hb
    rw [orientationOf_eq, orientationOf_eq] at hne
    rcases lt_or_gt_of_ne ha with ha | ha
    · rcases lt_or_gt_of_ne hb with hb | hb
      · simp [ha, hb] at hne
      · exact .inl ⟨ha, hb⟩
    · rcases lt_or_gt_of_ne hb with hb | hb
      · exact .inr ⟨ha, hb⟩
      · simp [ha, hb, ha.not_gt, hb.not_gt] at hne

/-! ## §2  What is returned -/

/-- The segments cross in an inner point of both. -/
def ProperCrossing (first second : Segment K) : Prop :=
  Opposite (position first.start) (position first.finish) (position second.start)
      (position second.finish) ∧
    Opposite (position second.start) (position second.finish) (position first.start)
      (position first.finish)

theorem intersectSegments_of_proper {first second : Segment K} (h : ProperCrossing first second) :
    ∃ p, intersectSegments first second = .ok ⟨[p]⟩ ∧
      ∀ q, q ∈ first.points ∩ second.points ↔ q = position p := by
  obtain ⟨h1, h2⟩ := h
  obtain ⟨hs, hf, hne⟩ := opposite_iff.1 h1
  obtain ⟨hs', hf', hne'⟩ := opposite_iff.1 h2
  have hden := h1.directionCross_ne_zero
  unfold intersectSegments
  rw [if_pos ⟨hs, hf, hs', hf', hne, hne'⟩]
  unfold properIntersection
  simp only [directionCross, position, Prod.fst_sub, Prod.snd_sub] at hden
  simp only [JsNumber.isFinite, Bool.not_true, Bool.or_self, Bool.false_eq_true, if_false]
  rw [if_pos hden]
  refine ⟨_, rfl, fun q => ?_⟩
  rw [Segment.points, Segment.points, mem_inter_iff_of_opposite h1 h2]
  refine Eq.congr_right (Prod.ext ?_ ?_)
  · rw [lineMap_fst]
    rfl
  · rw [lineMap_snd]
    rfl

theorem intersectSegments_of_not_proper {first second : Segment K}
    (h : ¬ ProperCrossing first second) :
    ∃ found, intersectSegments first second = .ok ⟨found⟩ ∧
      ∀ p, p ∈ found ↔ position p ∈ first.points ∩ second.points ∧
        (p = first.start ∨ p = first.finish ∨ p = second.start ∨ p = second.finish) := by
  unfold intersectSegments
  rw [if_neg fun hcrossing => h ⟨opposite_iff.2 ⟨hcrossing.1, hcrossing.2.1,
      hcrossing.2.2.2.2.1⟩, opposite_iff.2 ⟨hcrossing.2.2.1, hcrossing.2.2.2.1,
        hcrossing.2.2.2.2.2⟩⟩]
  refine ⟨_, rfl, fun p => ?_⟩
  simp only [List.mem_append, mem_kept_iff, ← mem_points_iff, Set.mem_inter_iff]
  constructor
  · rintro (((⟨h, rfl⟩ | ⟨h, rfl⟩) | ⟨h, rfl⟩) | ⟨h, rfl⟩)
    · exact ⟨⟨h, start_mem_points second⟩, .inr (.inr (.inl rfl))⟩
    · exact ⟨⟨h, finish_mem_points second⟩, .inr (.inr (.inr rfl))⟩
    · exact ⟨⟨start_mem_points first, h⟩, .inl rfl⟩
    · exact ⟨⟨finish_mem_points first, h⟩, .inr (.inl rfl)⟩
  · rintro ⟨⟨hfirst, hsecond⟩, rfl | rfl | rfl | rfl⟩
    · exact .inl (.inr ⟨hsecond, rfl⟩)
    · exact .inr ⟨hsecond, rfl⟩
    · exact .inl (.inl (.inl ⟨hfirst, rfl⟩))
    · exact .inl (.inl (.inr ⟨hfirst, rfl⟩))

/-- **Two segments are cut exactly.**  The points found are in both, there is one where the
segments share a point, and for segments on one line they are the ends of what is shared. -/
theorem intersectSegments_exact (first second : Segment K) :
    ∃ found, intersectSegments first second = .ok found ∧
      (found.points ≠ [] ↔ (first.points ∩ second.points).Nonempty) ∧
      (∀ p ∈ found.points, position p ∈ first.points ∩ second.points) ∧
      (cross (position first.start) (position first.finish) (position second.start) = 0 →
        cross (position first.start) (position first.finish) (position second.finish) = 0 →
        ∀ p, p ∈ found.points ↔
          position p ∈ (first.points ∩ second.points).extremePoints K) := by
  by_cases h : ProperCrossing first second
  · obtain ⟨p, hfound, hp⟩ := intersectSegments_of_proper h
    refine ⟨_, hfound, ⟨fun _ => ⟨_, (hp _).2 rfl⟩, fun _ => List.cons_ne_nil _ _⟩, ?_, ?_⟩
    · intro q hq
      rw [List.mem_singleton.1 hq]
      exact (hp _).2 rfl
    · intro hstart
      rcases h.1 with h | h
      · exact absurd hstart h.1.ne
      · exact absurd hstart h.1.ne'
  · obtain ⟨found, hfound, hmem⟩ := intersectSegments_of_not_proper h
    refine ⟨_, hfound, ⟨fun hne => ?_, fun hshared => ?_⟩, fun p hp => ((hmem p).1 hp).1, ?_⟩
    · obtain ⟨p, hp⟩ := List.exists_mem_of_ne_nil _ hne
      exact ⟨_, ((hmem p).1 hp).1⟩
    · obtain ⟨q, hq, hq'⟩ := hshared
      rcases exists_end_or_opposite hq hq' with hend | hend | hend | hend | hcrossing
      · exact List.ne_nil_of_mem ((hmem _).2 ⟨⟨hend, start_mem_points second⟩, by simp⟩)
      · exact List.ne_nil_of_mem ((hmem _).2 ⟨⟨hend, finish_mem_points second⟩, by simp⟩)
      · exact List.ne_nil_of_mem ((hmem _).2 ⟨⟨start_mem_points first, hend⟩, by simp⟩)
      · exact List.ne_nil_of_mem ((hmem _).2 ⟨⟨finish_mem_points first, hend⟩, by simp⟩)
      · exact absurd hcrossing h
    · intro hstart hfinish p
      rw [hmem, Segment.points, Segment.points, mem_extremePoints_inter_iff hstart hfinish]
      simp only [position_injective.eq_iff]

/-! ## §3  Index and segments -/

/-- **The index answers as a scan of all entries and segments are cut exactly.**  No slice is out
of range for bounds with their edges in order. -/
theorem candidateGeometry_exact :
    (∀ (T F : Type) [LinearOrder F] (offset : ℕ) (entries : List (BoundsIndexEntry T F)),
      (∀ entry ∈ entries, ValidBounds entry.bounds) → ∀ bounds : IrregularBounds F,
        ValidBounds bounds →
        ∃ found, (BoundsIndex.newFrom offset entries).query bounds = some found ∧
          found.Perm ((entries.filter fun entry => !areDisjoint entry.bounds bounds).map
            BoundsIndexEntry.value) ∧
          ∀ predicate : T → Bool, (BoundsIndex.newFrom offset entries).anyMatch bounds predicate =
            some (entries.any fun entry =>
              !areDisjoint entry.bounds bounds && predicate entry.value)) ∧
    ∀ first second : Segment K,
      ∃ found, intersectSegments first second = .ok found ∧
        (found.points ≠ [] ↔ (first.points ∩ second.points).Nonempty) ∧
        (∀ p ∈ found.points, position p ∈ first.points ∩ second.points) ∧
        (cross (position first.start) (position first.finish) (position second.start) = 0 →
          cross (position first.start) (position first.finish) (position second.finish) = 0 →
          ∀ p, p ∈ found.points ↔
            position p ∈ (first.points ∩ second.points).extremePoints K) :=
  ⟨fun _ _ _ offset _ hvalid _ hbounds => BoundsIndex.query_newFrom offset hvalid hbounds,
    intersectSegments_exact⟩

def span (left right : ℚ) : Segment ℚ := ⟨⟨left, 0⟩, ⟨right, 0⟩, ⟨left, 0, right, 0⟩⟩

/-- Two spans of one line overlap in a span, whose ends are found. -/
theorem candidateGeometry_exact_spans :
    (∃ found, (BoundsIndex.newFrom 3 [⟨"left", (span 0 2).bounds⟩]).query (span 1 3).bounds =
        some found ∧
      found.Perm ((List.filter (fun entry => !areDisjoint entry.bounds (span 1 3).bounds)
        [(⟨"left", (span 0 2).bounds⟩ : BoundsIndexEntry String ℚ)]).map
          BoundsIndexEntry.value)) ∧
    ∃ found, intersectSegments (span 0 2) (span 1 3) = .ok found ∧
      ∀ p, p ∈ found.points ↔
        position p ∈ ((span 0 2).points ∩ (span 1 3).points).extremePoints ℚ := by
  obtain ⟨hindex, hsegments⟩ := candidateGeometry_exact (K := ℚ)
  obtain ⟨found, hfound, -, -, hends⟩ := hsegments (span 0 2) (span 1 3)
  obtain ⟨answer, hanswer, hperm, -⟩ := hindex String ℚ 3 [⟨"left", (span 0 2).bounds⟩]
    (by simpa using ⟨by decide +kernel, by decide +kernel⟩) (span 1 3).bounds
    ⟨by decide +kernel, by decide +kernel⟩
  exact ⟨⟨answer, hanswer, hperm⟩, found, hfound, hends (by decide +kernel) (by decide +kernel)⟩

end PolygonNesting.NfpIfp
