import Mathlib.Analysis.Convex.Hull
import PolygonNesting.Dxf.ExactBounds

/-!
# Normalized segments

The entities of a drawing are emitted in their order, shifted to the corner of its bounds.  The
curves the segments stand for are the shifted entities, and chords stay in their convex hulls, so
all that is emitted is in the shifted bounds and reaches all four sides.
-/

namespace PolygonNesting.Dxf

open DoubleOps DoubleTrig ArcExtremes

/-! ## §1  What a segment stands for -/

def shift (bounds : Bounds ℝ) (p : ℝ × ℝ) : ℝ × ℝ := (p.1 - bounds.minX, p.2 - bounds.minY)

def sourceEllipse (source : EllipseSource ℝ) : Ellipse ℝ :=
  ⟨⟨source.cx, source.cy⟩, ⟨source.majorAxisX, source.majorAxisY⟩, source.axisRatio,
    source.startAngle, source.endAngle⟩

def sourceArc (arc : SourceArcSegment ℝ) : Arc ℝ :=
  ⟨⟨arc.cx, arc.cy⟩, arc.radius, arc.startAngle, arc.endAngle⟩

/-- The points from end to end, along the arc of an arc segment. -/
noncomputable def segmentPoints : SourceGeometrySegment ℝ → Set (ℝ × ℝ)
  | .line line => segment ℝ (line.x1, line.y1) (line.x2, line.y2)
  | .arc arc => curve (.arc (sourceArc arc))

/-- The curve a segment is from: the source curve of a chord. -/
noncomputable def segmentCurve : SourceGeometrySegment ℝ → Set (ℝ × ℝ)
  | .line line =>
      match line.sourceCurve with
      | none => segment ℝ (line.x1, line.y1) (line.x2, line.y2)
      | some source => curve (.ellipse (sourceEllipse source))
  | .arc arc => curve (.arc (sourceArc arc))

def emittedCurve (segments : List (SourceGeometrySegment ℝ)) : Set (ℝ × ℝ) :=
  {p | ∃ segment ∈ segments, p ∈ segmentCurve segment}

/-- Segments stand for a shifted curve and stay in its convex hull. -/
structure Emits (bounds : Bounds ℝ) (shape : Set (ℝ × ℝ))
    (segments : List (SourceGeometrySegment ℝ)) : Prop where
  emitted : emittedCurve segments = shift bounds '' shape
  hull : ∀ segment ∈ segments, segmentPoints segment ⊆ convexHull ℝ (shift bounds '' shape)

theorem shift_wavePoint (bounds : Bounds ℝ) (center p q : ℝ × ℝ) (t : ℝ) :
    shift bounds (wavePoint center p q t) = wavePoint (shift bounds center) p q t := by
  unfold shift wavePoint
  refine Prod.ext ?_ ?_ <;> dsimp only <;> ring

theorem shift_segment (bounds : Bounds ℝ) (p q : ℝ × ℝ) :
    shift bounds '' segment ℝ p q = segment ℝ (shift bounds p) (shift bounds q) := by
  have hshift : shift bounds = fun p => (-bounds.minX, -bounds.minY) + p := by
    funext p
    refine Prod.ext ?_ ?_ <;> simp [shift] <;> ring
  rw [hshift, segment_translate_image]

theorem emittedCurve_singleton (segment : SourceGeometrySegment ℝ) :
    emittedCurve [segment] = segmentCurve segment := by
  ext p
  simp [emittedCurve]

/-! ## §2  Lines and chains -/

theorem emits_line (bounds : Bounds ℝ) (line : Line ℝ) :
    Emits bounds (curve (.line line)) [chainSegment bounds none line.start line.finish] where
  emitted := by
    rw [emittedCurve_singleton]
    exact (shift_segment bounds (coordinates line.start) (coordinates line.finish)).symm
  hull := by
    intro s hs
    obtain rfl := List.mem_singleton.1 hs
    refine Set.Subset.trans ?_ (subset_convexHull ℝ _)
    exact (shift_segment bounds (coordinates line.start) (coordinates line.finish)).symm.subset

theorem mem_lineChain {bounds : Bounds ℝ} {source : Option (EllipseSource ℝ)}
    {points : List (Point ℝ)} {s : SourceGeometrySegment ℝ} (h : s ∈ lineChain bounds source points) :
    ∃ start ∈ points, ∃ finish ∈ points, s = chainSegment bounds source start finish := by
  unfold lineChain at h
  obtain ⟨i, hi, rfl⟩ := List.getElem_of_mem h
  rw [List.length_zipWith] at hi
  rw [List.getElem_zipWith]
  exact ⟨_, List.getElem_mem _, _, List.mem_of_mem_tail (List.getElem_mem _), rfl⟩

theorem lineChain_ne_nil {bounds : Bounds ℝ} {source : Option (EllipseSource ℝ)}
    {points : List (Point ℝ)} (h : 2 ≤ points.length) : lineChain bounds source points ≠ [] := by
  intro hnil
  have hlength := congrArg List.length hnil
  unfold lineChain at hlength
  rw [List.length_zipWith, List.length_tail, List.length_nil] at hlength
  omega

/-- A chord of a shape stays in its convex hull. -/
theorem chainSegment_subset {bounds : Bounds ℝ} {source : Option (EllipseSource ℝ)}
    {start finish : Point ℝ} {shape : Set (ℝ × ℝ)} (hstart : coordinates start ∈ shape)
    (hfinish : coordinates finish ∈ shape) :
    segmentPoints (chainSegment bounds source start finish) ⊆
      convexHull ℝ (shift bounds '' shape) :=
  (convex_convexHull ℝ _).segment_subset
    (subset_convexHull ℝ _ ⟨_, hstart, rfl⟩) (subset_convexHull ℝ _ ⟨_, hfinish, rfl⟩)

/-! ## §3  Ellipses -/

theorem curve_sourceEllipse (bounds : Bounds ℝ) (index : ℕ) (ellipse : Ellipse ℝ) :
    curve (.ellipse (sourceEllipse (ellipseCurve bounds index ellipse))) =
      shift bounds '' curve (.ellipse ellipse) := by
  unfold curve
  rw [Set.image_image]
  refine congrArg (fun f : ℝ → ℝ × ℝ => f '' _) ?_
  funext t
  rw [coordinates_ellipsePoint, coordinates_ellipsePoint, shift_wavePoint]
  rfl

/-- The sampled points are on the curve. -/
theorem mem_curve_of_mem_sampleEllipse {ellipse : Ellipse ℝ} (h : Accepted (.ellipse ellipse))
    {segments : ℕ} {point : Point ℝ} (hpoint : point ∈ sampleEllipse ellipse segments) :
    coordinates point ∈ curve (.ellipse ellipse) := by
  unfold sampleEllipse at hpoint
  obtain ⟨index, hindex, rfl⟩ := List.mem_map.1 hpoint
  rw [List.mem_range] at hindex
  refine ⟨_, ?_, rfl⟩
  have hcast : ((index : ℕ) : ℝ) ≤ segments := by exact_mod_cast Nat.le_of_lt_succ hindex
  have hindex0 : (0 : ℝ) ≤ index := Nat.cast_nonneg index
  have hpart : 0 ≤ (index : ℝ) / segments ∧ (index : ℝ) / segments ≤ 1 :=
    ⟨by positivity, div_le_one_of_le₀ hcast (Nat.cast_nonneg segments)⟩
  have hmul : ellipseSweep ellipse * (ofInt index : ℝ) / (ofInt segments : ℝ) =
      ellipseSweep ellipse * ((index : ℝ) / segments) := by
    show ellipseSweep ellipse * (((index : ℕ) : ℤ) : ℝ) / (((segments : ℕ) : ℤ) : ℝ) = _
    rw [Int.cast_natCast, Int.cast_natCast, mul_div_assoc]
  rw [hmul]
  have hsweep := h.1
  constructor
  · linarith [mul_nonneg hsweep.le hpart.1]
  · linarith [mul_le_mul_of_nonneg_left hpart.2 hsweep.le]

theorem minEllipseSegments_le_count (majorLength axisRatio : ℝ) :
    minEllipseSegments ≤ ellipseSegmentCount majorLength axisRatio := by
  unfold ellipseSegmentCount
  dsimp only
  split
  · exact le_rfl
  · split
    · exact le_rfl
    · exact Nat.le_max_left _ _

theorem emits_ellipse (bounds : Bounds ℝ) (index : ℕ) {ellipse : Ellipse ℝ}
    (h : Accepted (.ellipse ellipse)) :
    Emits bounds (curve (.ellipse ellipse)) (ellipseSegments bounds index ellipse) where
  emitted := by
    have hne : ellipseSegments bounds index ellipse ≠ [] := by
      refine lineChain_ne_nil ?_
      have hcount := minEllipseSegments_le_count
        (hypot ellipse.majorAxis.x ellipse.majorAxis.y) ellipse.axisRatio
      unfold minEllipseSegments at hcount
      unfold sampleEllipse
      rw [List.length_map, List.length_range]
      omega
    have hcurve : ∀ s ∈ ellipseSegments bounds index ellipse,
        segmentCurve s = shift bounds '' curve (.ellipse ellipse) := by
      intro s hs
      obtain ⟨start, -, finish, -, rfl⟩ := mem_lineChain hs
      exact curve_sourceEllipse bounds index ellipse
    ext p
    constructor
    · rintro ⟨s, hs, hp⟩
      rwa [hcurve s hs] at hp
    · intro hp
      obtain ⟨s, hs⟩ := List.exists_mem_of_ne_nil _ hne
      exact ⟨s, hs, by rwa [hcurve s hs]⟩
  hull := by
    intro s hs
    obtain ⟨start, hstart, finish, hfinish, rfl⟩ := mem_lineChain hs
    exact chainSegment_subset (mem_curve_of_mem_sampleEllipse h hstart)
      (mem_curve_of_mem_sampleEllipse h hfinish)

/-! ## §4  Arcs and circles -/

theorem wavePoint_add_turns (center p q : ℝ × ℝ) (t : ℝ) (n : ℤ) :
    wavePoint center p q (t + n * (2 * Real.pi)) = wavePoint center p q t := by
  unfold wavePoint
  rw [wave_add_int_mul_turn, wave_add_int_mul_turn]

/-- An arc with its angles moved by whole turns is the same arc. -/
theorem curve_arc_turns (bounds : Bounds ℝ) (arc : Arc ℝ) (n : ℤ) :
    curve (.arc ⟨normalize bounds arc.center, arc.radius, arc.startAngle - 360 * n,
      arc.endAngle - 360 * n⟩) = shift bounds '' curve (.arc arc) := by
  have hpoint : ∀ angle : ℝ, coordinates (pointOnArc ⟨normalize bounds arc.center, arc.radius,
      arc.startAngle - 360 * n, arc.endAngle - 360 * n⟩ (angle - 360 * n)) =
        shift bounds (coordinates (pointOnArc arc angle)) := by
    intro angle
    rw [coordinates_pointOnArc, coordinates_pointOnArc, shift_wavePoint]
    dsimp only
    rw [show angle * (Real.pi / 180) =
      (angle - 360 * n) * (Real.pi / 180) + n * (2 * Real.pi) by ring, wavePoint_add_turns]
    rfl
  ext p
  constructor
  · rintro ⟨angle, ⟨hlow, hhigh⟩, rfl⟩
    dsimp only at hlow hhigh
    refine ⟨_, ⟨angle + 360 * n, ⟨by linarith, by linarith⟩, rfl⟩, ?_⟩
    dsimp only
    rw [← hpoint, add_sub_cancel_right]
  · rintro ⟨_, ⟨angle, ⟨hlow, hhigh⟩, rfl⟩, rfl⟩
    dsimp only
    exact ⟨angle - 360 * n, ⟨by dsimp only; linarith, by dsimp only; linarith⟩, hpoint angle⟩

theorem emits_arc (bounds : Bounds ℝ) {arc : Arc ℝ} (h : Accepted (.arc arc)) :
    Emits bounds (curve (.arc arc)) (arcSegments bounds arc) := by
  obtain ⟨-, hpos, hle⟩ := h
  have hturn : (ofInt 360 : ℝ) = 360 := Int.cast_ofNat 360
  have hzero : (ofInt 0 : ℝ) = 0 := Int.cast_zero
  have hspan : samplerSpan arc = arc.endAngle - arc.startAngle := by
    unfold samplerSpan
    rw [if_neg (mt le_iff.1 (by linarith))]
  have hsegments : ∃ x1 y1 x2 y2 : ℝ, arcSegments bounds arc = [.arc ⟨x1, y1, x2, y2,
      (normalize bounds arc.center).x, (normalize bounds arc.center).y, arc.radius,
      arc.startAngle - 360 * ⌊arc.startAngle / 360⌋,
      arc.endAngle - 360 * ⌊arc.startAngle / 360⌋⟩] := by
    unfold arcSegments
    dsimp only
    rw [hspan, hturn, hzero, remEuclid_eq (by norm_num), if_neg]
    · exact ⟨_, _, _, _, by rw [show arc.startAngle - 360 * (⌊arc.startAngle / 360⌋ : ℝ) +
        (arc.endAngle - arc.startAngle) = arc.endAngle - 360 * ⌊arc.startAngle / 360⌋ by ring]⟩
    · rw [Bool.or_eq_true, le_iff, lt_iff, not_or, not_le, not_lt]
      exact ⟨hpos, hle⟩
  obtain ⟨x1, y1, x2, y2, hsegments⟩ := hsegments
  have hcurve := curve_arc_turns bounds arc ⌊arc.startAngle / 360⌋
  rw [hsegments]
  refine ⟨?_, fun s hs => ?_⟩
  · rw [emittedCurve_singleton]
    exact hcurve
  · obtain rfl := List.mem_singleton.1 hs
    exact hcurve.subset.trans (subset_convexHull ℝ _)

/-- A point of a circle has an angle. -/
theorem exists_angle {center p : ℝ × ℝ} {radius : ℝ} (hpos : 0 < radius)
    (h : (p.1 - center.1) ^ 2 + (p.2 - center.2) ^ 2 = radius ^ 2) :
    ∃ angle, 0 ≤ angle ∧ angle ≤ 360 ∧
      p = wavePoint center (radius, 0) (0, radius) (angle * (Real.pi / 180)) := by
  have hturn : 0 < 2 * Real.pi := by positivity
  have hnorm : ‖(⟨p.1 - center.1, p.2 - center.2⟩ : ℂ)‖ = radius := by
    rw [← sq_eq_sq₀ (norm_nonneg _) hpos.le, ← h, Complex.sq_norm, Complex.normSq_apply]
    ring
  have hx := Complex.norm_mul_cos_arg ⟨p.1 - center.1, p.2 - center.2⟩
  have hy := Complex.norm_mul_sin_arg ⟨p.1 - center.1, p.2 - center.2⟩
  rw [hnorm] at hx hy
  generalize Complex.arg ⟨p.1 - center.1, p.2 - center.2⟩ = t at hx hy
  have hfloor := (le_div_iff₀ hturn).1 (Int.floor_le (t / (2 * Real.pi)))
  have hfloor' := (div_lt_iff₀ hturn).1 (Int.lt_floor_add_one (t / (2 * Real.pi)))
  generalize ⌊t / (2 * Real.pi)⌋ = n at hfloor hfloor'
  have hscale : 0 < Real.pi / 180 := by positivity
  refine ⟨(t - n * (2 * Real.pi)) / (Real.pi / 180), ?_, ?_, ?_⟩
  · exact div_nonneg (by linarith) hscale.le
  · rw [div_le_iff₀ hscale]
    linarith
  · rw [div_mul_cancel₀ _ hscale.ne', ← wavePoint_add_turns _ _ _ _ n, sub_add_cancel]
    unfold wavePoint wave
    dsimp only at hx hy ⊢
    rw [zero_mul, add_zero, zero_mul, zero_add, hx, hy]
    exact Prod.ext (by ring) (by ring)

theorem wavePoint_circle (center : ℝ × ℝ) (radius t : ℝ) :
    ((wavePoint center (radius, 0) (0, radius) t).1 - center.1) ^ 2 +
      ((wavePoint center (radius, 0) (0, radius) t).2 - center.2) ^ 2 = radius ^ 2 := by
  unfold wavePoint wave
  linear_combination radius ^ 2 * Real.sin_sq_add_cos_sq t

theorem mem_halfCircle {center : Point ℝ} {radius : ℝ} {first second : ℤ} {p : ℝ × ℝ} :
    p ∈ segmentPoints (halfCircle center radius (ofInt first) (ofInt second)) ↔
      ∃ angle : ℝ, ((first : ℝ) ≤ angle ∧ angle ≤ (second : ℝ)) ∧
        p = wavePoint (coordinates center) (radius, 0) (0, radius) (angle * (Real.pi / 180)) := by
  constructor
  · rintro ⟨angle, hangle, rfl⟩
    exact ⟨angle, hangle, coordinates_pointOnArc _ angle⟩
  · rintro ⟨angle, hangle, rfl⟩
    exact ⟨angle, hangle, coordinates_pointOnArc _ angle⟩

theorem emits_circle (bounds : Bounds ℝ) {circle : Circle ℝ} (h : Accepted (.circle circle)) :
    Emits bounds (curve (.circle circle)) (circleSegments bounds circle) := by
  have hpos : 0 < circle.radius := h
  -- the shifted circle
  have hshift : ∀ p, p ∈ shift bounds '' curve (.circle circle) ↔
      (p.1 - (normalize bounds circle.center).x) ^ 2 +
        (p.2 - (normalize bounds circle.center).y) ^ 2 = circle.radius ^ 2 := by
    intro p
    constructor
    · rintro ⟨q, hq, rfl⟩
      have hq : (q.1 - circle.center.x) ^ 2 + (q.2 - circle.center.y) ^ 2 =
        circle.radius ^ 2 := hq
      rw [← hq]
      unfold shift normalize
      ring
    · intro hp
      refine ⟨(p.1 + bounds.minX, p.2 + bounds.minY), ?_, ?_⟩
      · show (p.1 + bounds.minX - circle.center.x) ^ 2 +
          (p.2 + bounds.minY - circle.center.y) ^ 2 = circle.radius ^ 2
        rw [← hp]
        unfold normalize
        ring
      · exact Prod.ext (add_sub_cancel_right _ _) (add_sub_cancel_right _ _)
  have hsubset : ∀ first second : ℤ, segmentPoints (halfCircle (normalize bounds circle.center)
      circle.radius (ofInt first) (ofInt second)) ⊆ shift bounds '' curve (.circle circle) := by
    intro first second p hp
    obtain ⟨angle, -, rfl⟩ := mem_halfCircle.1 hp
    exact (hshift _).2 (wavePoint_circle (coordinates (normalize bounds circle.center)) _ _)
  refine ⟨?_, fun s hs => ?_⟩
  · ext p
    constructor
    · rintro ⟨s, hs, hp⟩
      rcases List.mem_pair.1 hs with rfl | rfl
      · exact hsubset 0 180 hp
      · exact hsubset 180 360 hp
    · intro hp
      obtain ⟨angle, hlow, hhigh, heq⟩ :=
        @exists_angle (coordinates (normalize bounds circle.center)) p _ hpos ((hshift p).1 hp)
      rcases le_total angle 180 with hle | hle
      · exact ⟨_, List.mem_cons_self,
          mem_halfCircle.2 ⟨angle, ⟨by simpa using hlow, by simpa using hle⟩, heq⟩⟩
      · exact ⟨_, List.mem_cons_of_mem _ List.mem_cons_self,
          mem_halfCircle.2 ⟨angle, ⟨by simpa using hle, by simpa using hhigh⟩, heq⟩⟩
  · refine Set.Subset.trans ?_ (subset_convexHull ℝ _)
    rcases List.mem_pair.1 hs with rfl | rfl
    · exact hsubset 0 180
    · exact hsubset 180 360

/-- **The segments of an entity** stand for its shifted curve. -/
theorem emits_entity (bounds : Bounds ℝ) (index : ℕ) {entity : Entity ℝ} (h : Accepted entity) :
    Emits bounds (curve entity) (entitySegments bounds index entity) := by
  cases entity with
  | line line => exact emits_line bounds line
  | arc arc => exact emits_arc bounds h
  | circle circle => exact emits_circle bounds h
  | ellipse ellipse => exact emits_ellipse bounds index h

/-! ## §5  The emitted drawing -/

/-- The bounds shifted to the corner. -/
def frame (bounds : Bounds ℝ) : Bounds ℝ :=
  ⟨0, 0, bounds.maxX - bounds.minX, bounds.maxY - bounds.minY⟩

theorem exists_parts (bounds : Bounds ℝ) {entities : List (Entity ℝ)}
    (h : ∀ entity ∈ entities, Accepted entity) (index : ℕ) :
    ∃ parts, segmentsFrom bounds index entities = parts.flatten ∧
      List.Forall₂ (fun entity part => Emits bounds (curve entity) part) entities parts := by
  induction entities generalizing index with
  | nil => exact ⟨[], rfl, .nil⟩
  | cons entity rest ih =>
      obtain ⟨parts, hparts, hemits⟩ := ih (fun e he => h e (List.mem_cons_of_mem _ he))
        (nextEllipseIndex index entity)
      refine ⟨entitySegments bounds index entity :: parts, ?_,
        .cons (emits_entity bounds index (h entity List.mem_cons_self)) hemits⟩
      rw [segmentsFrom, hparts, List.flatten_cons]

/-- All parts together stand for the shifted drawing and stay in its convex hull. -/
theorem emits_flatten {bounds : Bounds ℝ} {entities : List (Entity ℝ)}
    {parts : List (List (SourceGeometrySegment ℝ))}
    (h : List.Forall₂ (fun entity part => Emits bounds (curve entity) part) entities parts) :
    Emits bounds (drawing entities) parts.flatten := by
  induction h with
  | nil =>
      refine ⟨?_, fun s hs => absurd hs List.not_mem_nil⟩
      simp [emittedCurve, drawing]
  | @cons entity part entities parts hfirst hrest ih =>
      have hdrawing : shift bounds '' drawing (entity :: entities) =
          shift bounds '' curve entity ∪ shift bounds '' drawing entities := by
        rw [← Set.image_union]
        congr 1
        ext p
        simp [drawing]
      have hparts : emittedCurve (part ++ parts.flatten) =
          emittedCurve part ∪ emittedCurve parts.flatten := by
        ext p
        simp only [emittedCurve, List.mem_append, or_and_right, exists_or]
        exact Iff.rfl
      rw [List.flatten_cons]
      refine ⟨?_, fun s hs => ?_⟩
      · rw [hparts, hdrawing, hfirst.emitted, ih.emitted]
      · rw [hdrawing]
        rcases List.mem_append.1 hs with hs | hs
        · exact (hfirst.hull s hs).trans (convexHull_mono Set.subset_union_left)
        · exact (ih.hull s hs).trans (convexHull_mono Set.subset_union_right)

theorem sourceSegments_eq (entities : List (Entity ℝ)) (bounds : Bounds ℝ) :
    sourceSegments entities bounds = .ok (segmentsFrom bounds 0 entities) := by
  have hfinite : ∀ segment : SourceGeometrySegment ℝ, finiteSegment segment = true := by
    intro segment
    cases segment <;> rfl
  unfold sourceSegments
  dsimp only
  rw [if_neg]
  simp [hfinite]

/-- Tight bounds move to the corner with what they are around. -/
theorem Bounds.Tight.frame {bounds : Bounds ℝ} {shape : Set (ℝ × ℝ)} (h : bounds.Tight shape) :
    (frame bounds).Tight (shift bounds '' shape) where
  contains := by
    rintro _ ⟨p, hp, rfl⟩
    have hp := h.contains p hp
    exact ⟨sub_nonneg.2 hp.left, sub_le_sub_right hp.right _, sub_nonneg.2 hp.bottom,
      sub_le_sub_right hp.top _⟩
  left := by
    obtain ⟨p, hp, heq⟩ := h.left
    exact ⟨_, ⟨p, hp, rfl⟩, sub_eq_zero.2 heq⟩
  right := by
    obtain ⟨p, hp, heq⟩ := h.right
    exact ⟨_, ⟨p, hp, rfl⟩, congrArg (· - bounds.minX) heq⟩
  bottom := by
    obtain ⟨p, hp, heq⟩ := h.bottom
    exact ⟨_, ⟨p, hp, rfl⟩, sub_eq_zero.2 heq⟩
  top := by
    obtain ⟨p, hp, heq⟩ := h.top
    exact ⟨_, ⟨p, hp, rfl⟩, congrArg (· - bounds.minY) heq⟩

/-- Bounds contain the convex hull of what they contain. -/
theorem Bounds.contains_of_mem_convexHull {bounds : Bounds ℝ} {shape : Set (ℝ × ℝ)}
    (h : ∀ p ∈ shape, bounds.Contains p) {p : ℝ × ℝ} (hp : p ∈ convexHull ℝ shape) :
    bounds.Contains p := by
  have hconvex : Convex ℝ (Set.Icc bounds.minX bounds.maxX ×ˢ Set.Icc bounds.minY bounds.maxY) :=
    (convex_Icc _ _).prod (convex_Icc _ _)
  have hsubset : shape ⊆ Set.Icc bounds.minX bounds.maxX ×ˢ Set.Icc bounds.minY bounds.maxY :=
    fun q hq => ⟨⟨(h q hq).left, (h q hq).right⟩, ⟨(h q hq).bottom, (h q hq).top⟩⟩
  have hmem := convexHull_min hsubset hconvex hp
  exact ⟨hmem.1.1, hmem.1.2, hmem.2.1, hmem.2.2⟩

theorem importedPiece_eq {entities : List (Entity ℝ)} {bounds : Bounds ℝ}
    (hne : segmentsFrom bounds 0 entities ≠ []) (id : String) :
    importedPiece id entities bounds = .ok ⟨id, Max.max (⌈bounds.width⌉ : ℝ) 1,
      Max.max (⌈bounds.height⌉ : ℝ) 1, segmentsFrom bounds 0 entities⟩ := by
  have hone : (ofInt 1 : ℝ) = 1 := Int.cast_one
  have hfinite : ([bounds.minX, bounds.minY, bounds.maxX, bounds.maxY, bounds.width,
    bounds.height].all isFinite) = true := rfl
  unfold importedPiece
  rw [sourceSegments_eq, hfinite, if_neg (by simp)]
  show (if (segmentsFrom bounds 0 entities).isEmpty then _ else _) = _
  rw [if_neg (mt List.isEmpty_iff.1 hne), hone]
  exact if_neg Bool.false_ne_true

/-- A drawing that is not empty. -/
theorem drawing_nonempty {entities : List (Entity ℝ)} {bounds : Bounds ℝ}
    (h : bounds.Tight (drawing entities)) : (drawing entities).Nonempty := by
  obtain ⟨p, hp, -⟩ := h.left
  exact ⟨p, hp⟩

/-- Texts of whole numbers. -/
noncomputable def wholeNumber (text : String) : Option ℝ := (parseI32 text).map Int.cast

def lineText : String :=
  "0\nSECTION\n2\nENTITIES\n0\nLINE\n10\n1\n20\n2\n11\n4\n21\n6\n0\nENDSEC\n"

theorem groupPairs_lineText : groupPairs (lines lineText) = .ok [(0, "SECTION"), (2, "ENTITIES"),
    (0, "LINE"), (10, "1"), (20, "2"), (11, "4"), (21, "6"), (0, "ENDSEC")] := rfl

theorem parseEntities_lineText :
    parseEntities wholeNumber lineText = .ok [.line ⟨⟨1, 2⟩, ⟨4, 6⟩⟩] := by
  have h1 : parseI32 "1" = some 1 := by decide +kernel
  have h2 : parseI32 "2" = some 2 := by decide +kernel
  have h4 : parseI32 "4" = some 4 := by decide +kernel
  have h6 : parseI32 "6" = some 6 := by decide +kernel
  unfold parseEntities
  rw [groupPairs_lineText]
  show parsePairs wholeNumber false _ = _
  simp [parsePairs, afterGroup, sectionName, group, entityType, modelSpaceEntity, isPaperSpace,
    numeric, parseEntity, parseLine, requiredPoint, requiredNumeric, wholeNumber, h1, h2, h4, h6,
    isFinite]
  rfl

/-- **The bounds are the smallest**: what else contains the drawing contains them. -/
theorem computeBounds_smallest {parse : String → Option ℝ} {text : String}
    {entities : List (Entity ℝ)} (h : parseEntities parse text = .ok entities)
    (hne : entities ≠ []) {fuel : ℕ} (hfuel : 6 ≤ fuel) :
    ∃ bounds, computeBounds fuel entities = some (some bounds) ∧
      bounds.Tight (drawing entities) ∧
      ∀ other : Bounds ℝ, (∀ p ∈ drawing entities, other.Contains p) →
        ∀ p, bounds.Contains p → other.Contains p := by
  obtain ⟨bounds, hbounds, htight⟩ := exists_computeBounds h hne hfuel
  refine ⟨bounds, hbounds, htight, fun other hother p hp => ⟨?_, ?_, ?_, ?_⟩⟩
  · obtain ⟨q, hq, heq⟩ := htight.left
    exact ((hother q hq).left.trans_eq heq).trans hp.left
  · obtain ⟨q, hq, heq⟩ := htight.right
    exact hp.right.trans (heq.symm.trans_le (hother q hq).right)
  · obtain ⟨q, hq, heq⟩ := htight.bottom
    exact ((hother q hq).bottom.trans_eq heq).trans hp.bottom
  · obtain ⟨q, hq, heq⟩ := htight.top
    exact hp.top.trans (heq.symm.trans_le (hother q hq).top)

theorem computeBounds_smallest_line :
    ∃ bounds, computeBounds 6 [Entity.line ⟨⟨1, 2⟩, ⟨4, 6⟩⟩] = some (some bounds) ∧
      bounds.Tight (drawing [.line ⟨⟨1, 2⟩, ⟨4, 6⟩⟩]) ∧
      ∀ other : Bounds ℝ, (∀ p ∈ drawing [.line ⟨⟨1, 2⟩, ⟨4, 6⟩⟩], other.Contains p) →
        ∀ p, bounds.Contains p → other.Contains p :=
  computeBounds_smallest parseEntities_lineText (List.cons_ne_nil _ _) le_rfl

/-- **What is imported** is the drawing, moved to the corner of its bounds: entity by entity in
their order the segments stand for the moved curves, and all of them, chords of ellipses and
arcs alike, are in the real bounds, which are less than a unit too large. -/
theorem importFile_normalized {parse : String → Option ℝ} {text : String}
    {entities : List (Entity ℝ)} (h : parseEntities parse text = .ok entities)
    (hne : entities ≠ []) {fuel : ℕ} (hfuel : 6 ≤ fuel) (id : String) :
    ∃ bounds piece parts, importFile parse fuel id text = some (.ok piece) ∧
      bounds.Tight (drawing entities) ∧
      piece.segments = parts.flatten ∧
      List.Forall₂ (fun entity part => Emits bounds (curve entity) part) entities parts ∧
      (frame bounds).Tight (emittedCurve piece.segments) ∧
      (∀ segment ∈ piece.segments, ∀ p ∈ segmentPoints segment, (frame bounds).Contains p) ∧
      piece.realWidth = Max.max (⌈bounds.width⌉ : ℝ) 1 ∧
      piece.realHeight = Max.max (⌈bounds.height⌉ : ℝ) 1 := by
  obtain ⟨bounds, hbounds, htight⟩ := exists_computeBounds h hne hfuel
  obtain ⟨parts, hparts, hemits⟩ := exists_parts bounds (accepted_of_parseEntities h) 0
  have hflat := emits_flatten hemits
  have hframe := htight.frame
  have hsegments : segmentsFrom bounds 0 entities ≠ [] := by
    intro hnil
    obtain ⟨p, hp⟩ := drawing_nonempty htight
    have hmem : shift bounds p ∈ emittedCurve parts.flatten := hflat.emitted.symm ▸ ⟨p, hp, rfl⟩
    rw [← hparts, hnil] at hmem
    obtain ⟨s, hs, -⟩ := hmem
    exact List.not_mem_nil hs
  refine ⟨bounds, ⟨id, Max.max (⌈bounds.width⌉ : ℝ) 1, Max.max (⌈bounds.height⌉ : ℝ) 1,
    segmentsFrom bounds 0 entities⟩, parts, ?_, htight, hparts, hemits, ?_, fun s hs p hp => ?_, rfl, rfl⟩
  · unfold importFile
    rw [h]
    dsimp only
    rw [hbounds, Option.map_some]
    exact congrArg some (importedPiece_eq hsegments id)
  · dsimp only
    rw [hparts, hflat.emitted]
    exact hframe
  · dsimp only at hs
    rw [hparts] at hs
    exact Bounds.contains_of_mem_convexHull hframe.contains (hflat.hull s hs hp)

theorem importFile_normalized_line :
    ∃ bounds piece parts, importFile wholeNumber 6 "line" lineText = some (.ok piece) ∧
      bounds.Tight (drawing [.line ⟨⟨1, 2⟩, ⟨4, 6⟩⟩]) ∧
      piece.segments = parts.flatten ∧
      List.Forall₂ (fun entity part => Emits bounds (curve entity) part)
        [.line ⟨⟨1, 2⟩, ⟨4, 6⟩⟩] parts ∧
      (frame bounds).Tight (emittedCurve piece.segments) ∧
      (∀ segment ∈ piece.segments, ∀ p ∈ segmentPoints segment, (frame bounds).Contains p) ∧
      piece.realWidth = Max.max (⌈bounds.width⌉ : ℝ) 1 ∧
      piece.realHeight = Max.max (⌈bounds.height⌉ : ℝ) 1 :=
  importFile_normalized parseEntities_lineText (List.cons_ne_nil _ _) le_rfl "line"

end PolygonNesting.Dxf
