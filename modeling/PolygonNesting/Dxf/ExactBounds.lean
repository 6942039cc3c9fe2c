import Mathlib.Analysis.Convex.Segment
import PolygonNesting.Dxf.Entities
import PolygonNesting.Lib.ArcExtremes

/-!
# Bounds of a drawing

In exact arithmetic the points the bounds are taken from reach as far to every side as the curves
they are from.  So the bounds are the smallest box that contains the curves.
-/

namespace PolygonNesting.Dxf

open DoubleOps DoubleTrig ArcExtremes

/-! ## §1  Exact arithmetic -/

noncomputable instance realOps : DoubleOps ℝ where
  ofInt := fun n => n
  lt := fun a b => decide (a < b)
  le := fun a b => decide (a ≤ b)
  eq := fun a b => decide (a = b)
  min := Min.min
  max := Max.max
  ceil := fun a => ⌈a⌉
  remEuclid := fun a b =>
    let rest := a - b * ((if 0 ≤ a / b then ⌊a / b⌋ else ⌈a / b⌉ : ℤ) : ℝ)
    if rest < 0 then rest + |b| else rest
  isFinite := fun _ => true
  toUsize := fun a => ⌊a⌋.toNat

noncomputable instance realTrig : DoubleTrig ℝ where
  pi := Real.pi
  tau := 2 * Real.pi
  toRadians := fun degrees => degrees * (Real.pi / 180)
  cos := Real.cos
  sin := Real.sin
  atan2 := fun y x => Complex.arg ⟨x, y⟩
  acos := Real.arccos
  hypot := fun x y => √(x ^ 2 + y ^ 2)

theorem le_iff {a b : ℝ} : le a b = true ↔ a ≤ b := decide_eq_true_iff

theorem lt_iff {a b : ℝ} : lt a b = true ↔ a < b := decide_eq_true_iff

theorem eq_iff {a b : ℝ} : eq a b = true ↔ a = b := decide_eq_true_iff

theorem remEuclid_eq {a b : ℝ} (hb : 0 < b) : remEuclid a b = a - b * ⌊a / b⌋ := by
  have hmul : b * (a / b) = a := mul_div_cancel₀ a hb.ne'
  have hfloor := mul_le_mul_of_nonneg_left (Int.floor_le (a / b)) hb.le
  have hceil := mul_le_mul_of_nonneg_left (Int.le_ceil (a / b)) hb.le
  rw [hmul] at hfloor hceil
  show (if a - b * ((if 0 ≤ a / b then ⌊a / b⌋ else ⌈a / b⌉ : ℤ) : ℝ) < 0 then _ else _) = _
  by_cases hnonneg : 0 ≤ a / b
  · rw [if_pos hnonneg, if_neg (by linarith)]
  · rw [if_neg hnonneg]
    rcases eq_or_ne (⌈a / b⌉ : ℝ) (a / b) with hwhole | hne
    · have hsame : ⌊a / b⌋ = ⌈a / b⌉ := by rw [← hwhole, Int.floor_intCast, Int.ceil_intCast]
      rw [if_neg (by rw [hwhole, hmul]; linarith), hsame]
    · have hlt : (⌊a / b⌋ : ℝ) < a / b := by
        refine lt_of_le_of_ne (Int.floor_le _) fun heq => hne ?_
        rw [← heq, Int.ceil_intCast]
      have hsucc : ⌈a / b⌉ = ⌊a / b⌋ + 1 :=
        le_antisymm (Int.ceil_le_floor_add_one _) (Int.add_one_le_of_lt (Int.lt_ceil.2 hlt))
      have hstrict : a < b * ⌈a / b⌉ := by
        have hquotient : a / b < ⌈a / b⌉ := lt_of_le_of_ne (Int.le_ceil _) hne.symm
        have := mul_lt_mul_of_pos_left hquotient hb
        rwa [hmul] at this
      rw [if_pos (by linarith), hsucc, abs_of_pos hb]
      push_cast
      ring

/-! ## §2  Curves -/

def coordinates (point : Point ℝ) : ℝ × ℝ := (point.x, point.y)

/-- The points of an entity. -/
noncomputable def curve : Entity ℝ → Set (ℝ × ℝ)
  | .line line => segment ℝ (coordinates line.start) (coordinates line.finish)
  | .arc arc =>
      (fun angle => coordinates (pointOnArc arc angle)) '' Set.Icc arc.startAngle arc.endAngle
  | .circle circle =>
      {p | (p.1 - circle.center.x) ^ 2 + (p.2 - circle.center.y) ^ 2 = circle.radius ^ 2}
  | .ellipse ellipse =>
      (fun parameter => coordinates (ellipsePoint ellipse parameter)) ''
        Set.Icc ellipse.startParam (ellipse.startParam + ellipseSweep ellipse)

/-- What the importer checks of an entity. -/
def Accepted : Entity ℝ → Prop
  | .line _ => True
  | .arc arc =>
      0 < arc.radius ∧ 0 < arc.endAngle - arc.startAngle ∧ arc.endAngle - arc.startAngle ≤ 360
  | .circle circle => 0 < circle.radius
  | .ellipse ellipse => 0 < ellipseSweep ellipse ∧ ellipseSweep ellipse ≤ 2 * Real.pi

inductive Side where
  | left
  | right
  | bottom
  | top
  deriving DecidableEq

/-- How far a point is to a side. -/
def Side.reach : Side → ℝ × ℝ → ℝ
  | .left, p => -p.1
  | .right, p => p.1
  | .bottom, p => -p.2
  | .top, p => p.2

/-- How far bounds reach to a side. -/
def Bounds.reach (bounds : Bounds ℝ) : Side → ℝ
  | .left => -bounds.minX
  | .right => bounds.maxX
  | .bottom => -bounds.minY
  | .top => bounds.maxY

/-- The points reach as far as the curve, to every side. -/
structure ReachAlike (points : List (Point ℝ)) (curve : Set (ℝ × ℝ)) : Prop where
  curve_le : ∀ side : Side, ∀ p ∈ curve, ∃ q ∈ points, side.reach p ≤ side.reach (coordinates q)
  points_le : ∀ side : Side, ∀ q ∈ points, ∃ p ∈ curve, side.reach (coordinates q) ≤ side.reach p

/-! ## §3  Bounds of points -/

theorem reach_extendBounds (bounds : Bounds ℝ) (point : Point ℝ) (side : Side) :
    (extendBounds bounds point).reach side =
      Max.max (bounds.reach side) (side.reach (coordinates point)) := by
  cases side with
  | left => exact (max_neg_neg _ _).symm
  | right => rfl
  | bottom => exact (max_neg_neg _ _).symm
  | top => rfl

theorem reach_foldl (points : List (Point ℝ)) (bounds : Bounds ℝ) (side : Side) :
    bounds.reach side ≤ (points.foldl extendBounds bounds).reach side ∧
      (∀ q ∈ points, side.reach (coordinates q) ≤ (points.foldl extendBounds bounds).reach side) ∧
        ((points.foldl extendBounds bounds).reach side = bounds.reach side ∨
          ∃ q ∈ points, (points.foldl extendBounds bounds).reach side =
            side.reach (coordinates q)) := by
  induction points generalizing bounds with
  | nil => exact ⟨le_rfl, by simp, .inl rfl⟩
  | cons point rest ih =>
      rw [List.foldl_cons]
      obtain ⟨hstart, hall, hattained⟩ := ih (extendBounds bounds point)
      rw [reach_extendBounds] at hstart hattained
      refine ⟨(le_max_left _ _).trans hstart, fun q hq => ?_, ?_⟩
      · rcases List.mem_cons.1 hq with rfl | hq
        · exact (le_max_right _ _).trans hstart
        · exact hall q hq
      · rcases hattained with heq | ⟨q, hq, heq⟩
        · rcases max_choice (bounds.reach side) (side.reach (coordinates point)) with h | h
          · exact .inl (heq.trans h)
          · exact .inr ⟨point, List.mem_cons_self, heq.trans h⟩
        · exact .inr ⟨q, List.mem_cons_of_mem _ hq, heq⟩

/-- **Bounds reach as far as the points**, to every side. -/
theorem exists_pointsBounds {points : List (Point ℝ)} (hne : points ≠ []) :
    ∃ bounds, pointsBounds points = some bounds ∧ ∀ side : Side,
      (∀ q ∈ points, side.reach (coordinates q) ≤ bounds.reach side) ∧
        ∃ q ∈ points, bounds.reach side = side.reach (coordinates q) := by
  obtain ⟨first, rest, rfl⟩ := List.exists_cons_of_ne_nil hne
  refine ⟨_, rfl, fun side => ?_⟩
  obtain ⟨hstart, hall, hattained⟩ :=
    reach_foldl rest ⟨first.x, first.y, first.x, first.y⟩ side
  have hfirst : Bounds.reach ⟨first.x, first.y, first.x, first.y⟩ side =
      side.reach (coordinates first) := by cases side <;> rfl
  rw [hfirst] at hstart hattained
  constructor
  · intro q hq
    rcases List.mem_cons.1 hq with rfl | hq
    · exact hstart
    · exact hall q hq
  · rcases hattained with heq | ⟨q, hq, heq⟩
    · exact ⟨first, List.mem_cons_self, heq⟩
    · exact ⟨q, List.mem_cons_of_mem _ hq, heq⟩

/-! ## §4  Points of one entity -/

theorem reach_line {p q r : ℝ × ℝ} (side : Side) (h : r ∈ segment ℝ p q) :
    side.reach r ≤ side.reach p ∨ side.reach r ≤ side.reach q := by
  obtain ⟨a, b, ha, hb, hab, rfl⟩ := h
  have hmix : side.reach (a • p + b • q) = a * side.reach p + b * side.reach q := by
    cases side <;> simp [Side.reach] <;> ring
  rw [hmix]
  rcases le_total (side.reach p) (side.reach q) with hle | hle
  · right
    have := mul_le_mul_of_nonneg_left hle ha
    calc a * side.reach p + b * side.reach q ≤ a * side.reach q + b * side.reach q := by linarith
      _ = side.reach q := by rw [← add_mul, hab, one_mul]
  · left
    have := mul_le_mul_of_nonneg_left hle hb
    calc a * side.reach p + b * side.reach q ≤ a * side.reach p + b * side.reach p := by linarith
      _ = side.reach p := by rw [← add_mul, hab, one_mul]

theorem reachAlike_line (line : Line ℝ) :
    ReachAlike [line.start, line.finish] (curve (.line line)) where
  curve_le side p hp := by
    rcases reach_line side hp with h | h
    · exact ⟨line.start, by simp, h⟩
    · exact ⟨line.finish, by simp, h⟩
  points_le side q hq := by
    rcases List.mem_pair.1 hq with rfl | rfl
    · exact ⟨_, left_mem_segment ℝ _ _, le_rfl⟩
    · exact ⟨_, right_mem_segment ℝ _ _, le_rfl⟩

/-- The point of a wave in each coordinate. -/
noncomputable def wavePoint (center p q : ℝ × ℝ) (t : ℝ) : ℝ × ℝ :=
  (center.1 + wave p.1 q.1 t, center.2 + wave p.2 q.2 t)

/-- The phases where a coordinate may be extreme. -/
noncomputable def phases (p q : ℝ × ℝ) : List ℝ :=
  [peak p.1 q.1, peak p.1 q.1 + Real.pi, peak p.2 q.2, peak p.2 q.2 + Real.pi]

/-- Over an interval a wave reaches as far at an end or at the first place of a phase. -/
theorem exists_reach_ge (center p q : ℝ × ℝ) (side : Side) {a b t : ℝ} (ht : t ∈ Set.Icc a b) :
    ∃ c ∈ Set.Icc a b,
      (c = a ∨ c = b ∨ ∃ phase ∈ phases p q, c = firstFrom (2 * Real.pi) a phase) ∧
      side.reach (wavePoint center p q t) ≤ side.reach (wavePoint center p q c) := by
  have hcoordinate : ∀ σ u v : ℝ, peak u v ∈ phases p q → peak u v + Real.pi ∈ phases p q →
      ∃ c ∈ Set.Icc a b,
        (c = a ∨ c = b ∨ ∃ phase ∈ phases p q, c = firstFrom (2 * Real.pi) a phase) ∧
        σ * wave u v t ≤ σ * wave u v c := by
    intro σ u v hpeak hpeak'
    obtain ⟨c, hc, hplace, hle⟩ := exists_place_ge u v σ ht
    refine ⟨c, hc, hplace.imp_right (Or.imp_right ?_), hle⟩
    rintro ⟨phase, rfl | rfl, heq⟩
    · exact ⟨_, hpeak, heq⟩
    · exact ⟨_, hpeak', heq⟩
  have hx := fun σ => hcoordinate σ p.1 q.1 (by simp [phases]) (by simp [phases])
  have hy := fun σ => hcoordinate σ p.2 q.2 (by simp [phases]) (by simp [phases])
  cases side with
  | left =>
      obtain ⟨c, hc, hplace, hle⟩ := hx (-1)
      refine ⟨c, hc, hplace, ?_⟩
      show -(center.1 + _) ≤ -(center.1 + _)
      linarith
  | right =>
      obtain ⟨c, hc, hplace, hle⟩ := hx 1
      refine ⟨c, hc, hplace, ?_⟩
      show center.1 + _ ≤ center.1 + _
      linarith
  | bottom =>
      obtain ⟨c, hc, hplace, hle⟩ := hy (-1)
      refine ⟨c, hc, hplace, ?_⟩
      show -(center.2 + _) ≤ -(center.2 + _)
      linarith
  | top =>
      obtain ⟨c, hc, hplace, hle⟩ := hy 1
      refine ⟨c, hc, hplace, ?_⟩
      show center.2 + _ ≤ center.2 + _
      linarith

theorem coordinates_ellipsePoint (ellipse : Ellipse ℝ) (t : ℝ) :
    coordinates (ellipsePoint ellipse t) =
      wavePoint (coordinates ellipse.center) (coordinates ellipse.majorAxis)
        (coordinates (minorAxis ellipse)) t := Prod.ext (add_assoc _ _ _) (add_assoc _ _ _)

theorem mem_ellipseParameters {ellipse : Ellipse ℝ} {t : ℝ} :
    t ∈ ellipseParameters ellipse ↔
      t = ellipse.startParam ∨ t = ellipse.startParam + ellipseSweep ellipse ∨
        ∃ phase ∈ phases (coordinates ellipse.majorAxis) (coordinates (minorAxis ellipse)),
          t = firstFrom (2 * Real.pi) ellipse.startParam phase ∧
            t ≤ ellipse.startParam + ellipseSweep ellipse := by
  unfold ellipseParameters
  simp only [List.mem_append, List.mem_cons, List.not_mem_nil, or_false, List.mem_filter,
    List.mem_map, or_assoc]
  refine or_congr_right (or_congr_right ?_)
  constructor
  · rintro ⟨⟨phase, hphase, rfl⟩, hle⟩
    exact ⟨phase, hphase, rfl, of_decide_eq_true hle⟩
  · rintro ⟨phase, hphase, rfl, hle⟩
    exact ⟨⟨phase, hphase, rfl⟩, decide_eq_true hle⟩

theorem reachAlike_ellipse {ellipse : Ellipse ℝ} (h : Accepted (.ellipse ellipse)) :
    ReachAlike (ellipseExtremePoints ellipse) (curve (.ellipse ellipse)) where
  curve_le side p hp := by
    obtain ⟨t, ht, rfl⟩ := hp
    obtain ⟨c, hc, hplace, hle⟩ := exists_reach_ge (coordinates ellipse.center)
      (coordinates ellipse.majorAxis) (coordinates (minorAxis ellipse)) side ht
    refine ⟨ellipsePoint ellipse c, List.mem_map.2 ⟨c, mem_ellipseParameters.2 ?_, rfl⟩, ?_⟩
    · refine hplace.imp_right (Or.imp_right ?_)
      rintro ⟨phase, hphase, heq⟩
      exact ⟨phase, hphase, heq, hc.2⟩
    · dsimp only
      rw [coordinates_ellipsePoint, coordinates_ellipsePoint]
      exact hle
  points_le side q hq := by
    obtain ⟨c, hc, rfl⟩ := List.mem_map.1 hq
    have hsweep := h.1
    refine ⟨_, ⟨c, ?_, rfl⟩, le_rfl⟩
    rcases mem_ellipseParameters.1 hc with rfl | rfl | ⟨phase, -, rfl, hle⟩
    · exact ⟨le_rfl, by linarith⟩
    · exact ⟨by linarith, le_rfl⟩
    · exact ⟨start_le_firstFrom Real.two_pi_pos _ _, hle⟩

theorem reachAlike_circle {circle : Circle ℝ} (h : Accepted (.circle circle)) :
    ReachAlike [⟨circle.center.x - circle.radius, circle.center.y - circle.radius⟩,
      ⟨circle.center.x + circle.radius, circle.center.y + circle.radius⟩]
      (curve (.circle circle)) where
  curve_le side p hp := by
    have hradius : 0 < circle.radius := h
    have hp : (p.1 - circle.center.x) ^ 2 + (p.2 - circle.center.y) ^ 2 = circle.radius ^ 2 := hp
    have hx := abs_le.1 (abs_le_of_sq_le_sq (by nlinarith [sq_nonneg (p.2 - circle.center.y)] :
      (p.1 - circle.center.x) ^ 2 ≤ circle.radius ^ 2) hradius.le)
    have hy := abs_le.1 (abs_le_of_sq_le_sq (by nlinarith [sq_nonneg (p.1 - circle.center.x)] :
      (p.2 - circle.center.y) ^ 2 ≤ circle.radius ^ 2) hradius.le)
    cases side with
    | left => exact ⟨_, List.mem_cons_self, by
        show -p.1 ≤ -(circle.center.x - circle.radius)
        linarith⟩
    | right => exact ⟨_, List.mem_cons_of_mem _ List.mem_cons_self, by
        show p.1 ≤ circle.center.x + circle.radius
        linarith⟩
    | bottom => exact ⟨_, List.mem_cons_self, by
        show -p.2 ≤ -(circle.center.y - circle.radius)
        linarith⟩
    | top => exact ⟨_, List.mem_cons_of_mem _ List.mem_cons_self, by
        show p.2 ≤ circle.center.y + circle.radius
        linarith⟩
  points_le side q hq := by
    have hmem : ∀ dx dy : ℝ, dx ^ 2 + dy ^ 2 = circle.radius ^ 2 →
        ((circle.center.x + dx, circle.center.y + dy) : ℝ × ℝ) ∈ curve (.circle circle) := by
      intro dx dy hsum
      show (circle.center.x + dx - circle.center.x) ^ 2 +
        (circle.center.y + dy - circle.center.y) ^ 2 = circle.radius ^ 2
      rw [add_sub_cancel_left, add_sub_cancel_left, hsum]
    have hx : ∀ σ : ℝ, σ ^ 2 = 1 →
        ((circle.center.x + σ * circle.radius, circle.center.y) : ℝ × ℝ) ∈
          curve (.circle circle) := fun σ hσ => by
      simpa using hmem (σ * circle.radius) 0 (by rw [mul_pow, hσ]; ring)
    have hy : ∀ σ : ℝ, σ ^ 2 = 1 →
        ((circle.center.x, circle.center.y + σ * circle.radius) : ℝ × ℝ) ∈
          curve (.circle circle) := fun σ hσ => by
      simpa using hmem 0 (σ * circle.radius) (by rw [mul_pow, hσ]; ring)
    obtain ⟨σ, hσ, hqx, hqy⟩ : ∃ σ : ℝ, σ ^ 2 = 1 ∧ q.x = circle.center.x + σ * circle.radius ∧
        q.y = circle.center.y + σ * circle.radius := by
      rcases List.mem_pair.1 hq with rfl | rfl
      · exact ⟨-1, by norm_num, by ring, by ring⟩
      · exact ⟨1, by norm_num, by ring, by ring⟩
    cases side with
    | left => exact ⟨_, hx σ hσ, by rw [← hqx]; exact le_rfl⟩
    | right => exact ⟨_, hx σ hσ, by rw [← hqx]; exact le_rfl⟩
    | bottom => exact ⟨_, hy σ hσ, by rw [← hqy]; exact le_rfl⟩
    | top => exact ⟨_, hy σ hσ, by rw [← hqy]; exact le_rfl⟩

/-- The loop over extreme angles has all steps up to its limit. -/
theorem exists_extremeAngles {fuel : ℕ} {angle limit : ℝ} (h : limit < angle + 90 * fuel) :
    ∃ angles, extremeAngles (fuel + 1) angle limit = some angles ∧
      ∀ x, x ∈ angles ↔ ∃ i : ℕ, x = angle + 90 * i ∧ x ≤ limit := by
  induction fuel generalizing angle with
  | zero =>
      have hlt : limit < angle := by simpa using h
      refine ⟨[], ?_, fun x => ⟨fun hx => (List.not_mem_nil hx).elim, ?_⟩⟩
      · rw [extremeAngles, if_neg (mt le_iff.1 (not_le.2 hlt))]
      · rintro ⟨i, rfl, hle⟩
        have : (0 : ℝ) ≤ 90 * i := by positivity
        linarith
  | succ fuel ih =>
      rw [extremeAngles]
      rcases le_or_gt angle limit with hle | hlt
      · obtain ⟨angles, hangles, hmem⟩ := @ih (angle + 90) (by push_cast at h; linarith)
        rw [if_pos (le_iff.2 hle)]
        refine ⟨angle :: angles, ?_, fun x => ?_⟩
        · rw [show (ofInt 90 : ℝ) = 90 from Int.cast_ofNat 90, hangles]
          rfl
        · rw [List.mem_cons, hmem]
          constructor
          · rintro (rfl | ⟨i, rfl, hi⟩)
            · exact ⟨0, by simp, hle⟩
            · exact ⟨i + 1, by push_cast; ring, hi⟩
          · rintro ⟨i, rfl, hi⟩
            cases i with
            | zero => exact .inl (by simp)
            | succ i => exact .inr ⟨i, by push_cast; ring, hi⟩
      · refine ⟨[], ?_, fun x => ⟨fun hx => (List.not_mem_nil hx).elim, ?_⟩⟩
        · rw [if_neg (mt le_iff.1 (not_le.2 hlt))]
        · rintro ⟨i, rfl, hi⟩
          have : (0 : ℝ) ≤ 90 * i := by positivity
          linarith

theorem extremeLimit_eq {arc : Arc ℝ} (h : Accepted (.arc arc)) :
    extremeLimit arc = arc.endAngle := by
  obtain ⟨-, hpos, hle⟩ := h
  have hturn : (ofInt 360 : ℝ) = 360 := Int.cast_ofNat 360
  have hzero : (ofInt 0 : ℝ) = 0 := Int.cast_zero
  have hsweep : boundsSweep arc = arc.endAngle - arc.startAngle := by
    unfold boundsSweep
    dsimp only
    rw [hturn, hzero, remEuclid_eq (by norm_num)]
    rcases hle.lt_or_eq with hlt | heq
    · have hfloor : ⌊(arc.endAngle - arc.startAngle) / 360⌋ = 0 := by
        rw [Int.floor_eq_zero_iff, Set.mem_Ico, div_lt_one (by norm_num)]
        exact ⟨by positivity, hlt⟩
      rw [hfloor, Int.cast_zero, mul_zero, sub_zero, if_neg (mt eq_iff.1 hpos.ne')]
    · rw [heq, div_self (by norm_num), Int.floor_one, Int.cast_one, mul_one, sub_self,
        if_pos (eq_iff.2 rfl)]
  unfold extremeLimit
  rw [hsweep]
  ring

/-- The angles of an arc are its ends and the multiples of a quarter turn between them. -/
theorem exists_arcAngles {arc : Arc ℝ} (h : Accepted (.arc arc)) {fuel : ℕ} (hfuel : 6 ≤ fuel) :
    ∃ angles, arcAngles fuel arc = some angles ∧
      ∀ x, x ∈ angles ↔ x = arc.startAngle ∨ x = arc.endAngle ∨
        ((∃ n : ℤ, x = 90 * n) ∧ arc.startAngle ≤ x ∧ x ≤ arc.endAngle) := by
  have hninety : (ofInt 90 : ℝ) = 90 := Int.cast_ofNat 90
  have hfirst : firstExtremeAngle arc = 90 * ⌈arc.startAngle / 90⌉ := by
    unfold firstExtremeAngle
    rw [hninety, mul_comm]
    rfl
  have hceil := Int.le_ceil (arc.startAngle / 90)
  rw [div_le_iff₀ (by norm_num)] at hceil
  obtain ⟨fuel, rfl⟩ : ∃ n, fuel = n + 1 := ⟨fuel - 1, by omega⟩
  have hcast : (5 : ℝ) ≤ fuel := by exact_mod_cast (by omega : 5 ≤ fuel)
  have hlimit : extremeLimit arc < firstExtremeAngle arc + 90 * fuel := by
    rw [hfirst, extremeLimit_eq h]
    have := h.2.2
    linarith
  obtain ⟨angles, hangles, hmem⟩ := exists_extremeAngles hlimit
  unfold arcAngles
  rw [hangles]
  refine ⟨_, rfl, fun x => ?_⟩
  rw [List.mem_append, List.mem_pair, hmem, hfirst, extremeLimit_eq h, or_assoc]
  refine or_congr_right (or_congr_right ?_)
  constructor
  · rintro ⟨i, rfl, hle⟩
    refine ⟨⟨⌈arc.startAngle / 90⌉ + i, by push_cast; ring⟩, ?_, hle⟩
    have : (0 : ℝ) ≤ 90 * i := by positivity
    linarith
  · rintro ⟨⟨n, rfl⟩, hlow, hle⟩
    have hn : ⌈arc.startAngle / 90⌉ ≤ n := by
      rw [Int.ceil_le, div_le_iff₀ (by norm_num)]
      linarith
    refine ⟨(n - ⌈arc.startAngle / 90⌉).toNat, ?_, hle⟩
    have hsub : (((n - ⌈arc.startAngle / 90⌉).toNat : ℤ) : ℝ) = n - ⌈arc.startAngle / 90⌉ := by
      rw [Int.toNat_of_nonneg (by omega)]
      push_cast
      ring
    rw [Int.cast_natCast] at hsub
    rw [hsub]
    ring

theorem coordinates_pointOnArc (arc : Arc ℝ) (angle : ℝ) :
    coordinates (pointOnArc arc angle) =
      wavePoint (coordinates arc.center) (arc.radius, 0) (0, arc.radius)
        (angle * (Real.pi / 180)) := by
  unfold wavePoint wave
  simp only [zero_mul, add_zero, zero_add]
  rfl

/-- The phases of a circle are quarter turns. -/
theorem exists_of_mem_phases {radius phase : ℝ} (hpos : 0 < radius)
    (h : phase ∈ phases (radius, 0) (0, radius)) : ∃ m : ℤ, phase = m * (Real.pi / 2) := by
  have hx : peak radius 0 = 0 := Complex.arg_ofReal_of_nonneg hpos.le
  have hy : peak 0 radius = Real.pi / 2 := by
    unfold peak
    rw [show (⟨0, radius⟩ : ℂ) = (radius : ℂ) * Complex.I by simp [Complex.ext_iff],
      Complex.arg_real_mul _ hpos, Complex.arg_I]
  unfold phases at h
  simp only [hx, hy, List.mem_cons, List.not_mem_nil, or_false] at h
  rcases h with rfl | rfl | rfl | rfl
  · exact ⟨0, by simp⟩
  · exact ⟨2, by push_cast; ring⟩
  · exact ⟨1, by simp⟩
  · exact ⟨3, by push_cast; ring⟩

theorem reachAlike_arc {arc : Arc ℝ} (h : Accepted (.arc arc)) {angles : List ℝ}
    (hangles : ∀ x, x ∈ angles ↔ x = arc.startAngle ∨ x = arc.endAngle ∨
      ((∃ n : ℤ, x = 90 * n) ∧ arc.startAngle ≤ x ∧ x ≤ arc.endAngle)) :
    ReachAlike (angles.map (pointOnArc arc)) (curve (.arc arc)) where
  curve_le side p hp := by
    have hpi := Real.pi_pos
    have hscale : 0 < Real.pi / 180 := by positivity
    obtain ⟨angle, hangle, rfl⟩ := hp
    obtain ⟨c, hc, hplace, hle⟩ := exists_reach_ge (coordinates arc.center) (arc.radius, 0)
      (0, arc.radius) side (t := angle * (Real.pi / 180))
      ⟨mul_le_mul_of_nonneg_right hangle.1 hscale.le,
        mul_le_mul_of_nonneg_right hangle.2 hscale.le⟩
    have hdegrees : c = c / (Real.pi / 180) * (Real.pi / 180) := (div_mul_cancel₀ _ hscale.ne').symm
    refine ⟨pointOnArc arc (c / (Real.pi / 180)),
      List.mem_map.2 ⟨_, (hangles _).2 ?_, rfl⟩, ?_⟩
    · rcases hplace with rfl | rfl | ⟨phase, hphase, heq⟩
      · exact .inl (mul_div_cancel_right₀ _ hscale.ne')
      · exact .inr (.inl (mul_div_cancel_right₀ _ hscale.ne'))
      · refine .inr (.inr ⟨?_, (le_div_iff₀ hscale).2 hc.1, (div_le_iff₀ hscale).2 hc.2⟩)
        obtain ⟨m, rfl⟩ := exists_of_mem_phases h.1 hphase
        rw [heq]
        unfold firstFrom
        generalize ⌈(arc.startAngle * (Real.pi / 180) - m * (Real.pi / 2)) / (2 * Real.pi)⌉ = n
        refine ⟨m + 4 * n, ?_⟩
        push_cast
        field_simp
        ring
    · dsimp only
      rw [coordinates_pointOnArc, coordinates_pointOnArc, ← hdegrees]
      exact hle
  points_le side q hq := by
    obtain ⟨angle, hangle, rfl⟩ := List.mem_map.1 hq
    have hpos := h.2.1
    refine ⟨_, ⟨angle, ?_, rfl⟩, le_rfl⟩
    rcases (hangles angle).1 hangle with rfl | rfl | ⟨-, hlow, hhigh⟩
    · exact ⟨le_rfl, by linarith⟩
    · exact ⟨by linarith, le_rfl⟩
    · exact ⟨hlow, hhigh⟩

/-- **The points of an accepted entity reach as far as its curve.** -/
theorem exists_entityPoints {entity : Entity ℝ} (h : Accepted entity) {fuel : ℕ}
    (hfuel : 6 ≤ fuel) :
    ∃ points, entityPoints fuel entity = some points ∧ points ≠ [] ∧
      ReachAlike points (curve entity) := by
  cases entity with
  | line line => exact ⟨_, rfl, List.cons_ne_nil _ _, reachAlike_line line⟩
  | arc arc =>
      obtain ⟨angles, hangles, hmem⟩ := exists_arcAngles h hfuel
      refine ⟨angles.map (pointOnArc arc), ?_, ?_, reachAlike_arc h hmem⟩
      · rw [entityPoints, hangles, Option.map_some]
      · rw [Ne, List.map_eq_nil_iff]
        exact List.ne_nil_of_mem ((hmem _).2 (.inl rfl))
  | circle circle => exact ⟨_, rfl, List.cons_ne_nil _ _, reachAlike_circle h⟩
  | ellipse ellipse => exact ⟨_, rfl, List.cons_ne_nil _ _, reachAlike_ellipse h⟩

/-! ## §5  Bounds of a drawing -/

theorem not_le_zero {a : ℝ} (h : le a (ofInt 0) = false) : 0 < a := by
  rw [Bool.eq_false_iff, Ne, le_iff, show (ofInt 0 : ℝ) = 0 from Int.cast_zero, not_le] at h
  exact h

/-- What is parsed is accepted. -/
theorem accepted_of_parseEntity {parse : String → Option ℝ} {kind : EntityType}
    {pairs : List (ℤ × String)} {entity : Entity ℝ}
    (h : parseEntity parse kind pairs = .ok entity) : Accepted entity := by
  cases kind with
  | line =>
      obtain ⟨line, -, rfl⟩ := except_map_eq_ok h
      exact trivial
  | arc =>
      obtain ⟨arc, harc, rfl⟩ := except_map_eq_ok h
      obtain ⟨hradius, -, sweep, hpos, hle, hend⟩ := parseArc_spec parse harc
      rw [lt_iff, show (ofInt 0 : ℝ) = 0 from Int.cast_zero] at hpos
      rw [le_iff, show (ofInt 360 : ℝ) = 360 from Int.cast_ofNat 360] at hle
      refine ⟨not_le_zero hradius, ?_, ?_⟩ <;> rw [hend] <;> linarith
  | circle =>
      obtain ⟨circle, hcircle, rfl⟩ := except_map_eq_ok h
      exact not_le_zero (parseCircle_spec parse hcircle)
  | ellipse =>
      obtain ⟨ellipse, hellipse, rfl⟩ := except_map_eq_ok h
      obtain ⟨hpos, hle⟩ := checkedEllipse_spec parse hellipse
      rw [Bool.eq_false_iff, Ne, lt_iff, not_lt] at hle
      exact ⟨not_le_zero hpos, hle⟩

theorem accepted_of_parseEntities {parse : String → Option ℝ} {text : String}
    {entities : List (Entity ℝ)} (h : parseEntities parse text = .ok entities) :
    ∀ entity ∈ entities, Accepted entity := by
  intro entity hmem
  obtain ⟨kind, pairs, hparse⟩ := mem_parseEntities parse h hmem
  exact accepted_of_parseEntity hparse

/-- The points of all entities. -/
def drawing (entities : List (Entity ℝ)) : Set (ℝ × ℝ) :=
  {p | ∃ entity ∈ entities, p ∈ curve entity}

theorem exists_mapM_entityPoints {fuel : ℕ} (hfuel : 6 ≤ fuel) {entities : List (Entity ℝ)}
    (h : ∀ entity ∈ entities, Accepted entity) :
    ∃ points, entities.mapM (entityPoints fuel) = some points ∧
      (entities ≠ [] → points.flatten ≠ []) ∧ ReachAlike points.flatten (drawing entities) := by
  induction entities with
  | nil =>
      refine ⟨[], rfl, fun h => absurd rfl h, fun _ p hp => ?_, fun _ q hq => ?_⟩
      · obtain ⟨entity, hentity, -⟩ := hp
        cases hentity
      · cases hq
  | cons entity rest ih =>
      obtain ⟨first, hfirst, hne, halike⟩ := exists_entityPoints (h entity List.mem_cons_self) hfuel
      obtain ⟨others, hothers, -, hrest⟩ := ih fun e he => h e (List.mem_cons_of_mem _ he)
      refine ⟨first :: others, ?_, fun _ => ?_, fun side p hp => ?_, fun side q hq => ?_⟩
      · rw [List.mapM_cons, hfirst, hothers]
        rfl
      · rw [List.flatten_cons]
        exact List.append_ne_nil_of_left_ne_nil hne _
      · obtain ⟨e, he, hp⟩ := hp
        rw [List.flatten_cons]
        rcases List.mem_cons.1 he with rfl | he
        · obtain ⟨q, hq, hle⟩ := halike.curve_le side p hp
          exact ⟨q, List.mem_append_left _ hq, hle⟩
        · obtain ⟨q, hq, hle⟩ := hrest.curve_le side p ⟨e, he, hp⟩
          exact ⟨q, List.mem_append_right _ hq, hle⟩
      · rw [List.flatten_cons] at hq
        rcases List.mem_append.1 hq with hq | hq
        · obtain ⟨p, hp, hle⟩ := halike.points_le side q hq
          exact ⟨p, ⟨entity, List.mem_cons_self, hp⟩, hle⟩
        · obtain ⟨p, ⟨e, he, hp⟩, hle⟩ := hrest.points_le side q hq
          exact ⟨p, ⟨e, List.mem_cons_of_mem _ he, hp⟩, hle⟩

/-- A point is in bounds. -/
structure Bounds.Contains (bounds : Bounds ℝ) (p : ℝ × ℝ) : Prop where
  left : bounds.minX ≤ p.1
  right : p.1 ≤ bounds.maxX
  bottom : bounds.minY ≤ p.2
  top : p.2 ≤ bounds.maxY

/-- Bounds contain a set and a point of it on each of their sides. -/
structure Bounds.Tight (bounds : Bounds ℝ) (points : Set (ℝ × ℝ)) : Prop where
  contains : ∀ p ∈ points, bounds.Contains p
  left : ∃ p ∈ points, p.1 = bounds.minX
  right : ∃ p ∈ points, p.1 = bounds.maxX
  bottom : ∃ p ∈ points, p.2 = bounds.minY
  top : ∃ p ∈ points, p.2 = bounds.maxY

/-- The bounds of points that reach as far as a set are tight around it. -/
theorem tight_of_reachAlike {points : List (Point ℝ)} {shape : Set (ℝ × ℝ)} {bounds : Bounds ℝ}
    (halike : ReachAlike points shape)
    (hbounds : ∀ side : Side, (∀ q ∈ points, side.reach (coordinates q) ≤ bounds.reach side) ∧
      ∃ q ∈ points, bounds.reach side = side.reach (coordinates q)) : bounds.Tight shape := by
  have hall : ∀ side : Side, ∀ p ∈ shape, side.reach p ≤ bounds.reach side := by
    intro side p hp
    obtain ⟨q, hq, hle⟩ := halike.curve_le side p hp
    exact hle.trans ((hbounds side).1 q hq)
  have hattained : ∀ side : Side, ∃ p ∈ shape, side.reach p = bounds.reach side := by
    intro side
    obtain ⟨q, hq, heq⟩ := (hbounds side).2
    obtain ⟨p, hp, hle⟩ := halike.points_le side q hq
    exact ⟨p, hp, le_antisymm (hall side p hp) (heq.trans_le hle)⟩
  refine ⟨fun p hp => ⟨?_, hall .right p hp, ?_, hall .top p hp⟩, ?_, hattained .right, ?_,
    hattained .top⟩
  · exact neg_le_neg_iff.1 (hall .left p hp)
  · exact neg_le_neg_iff.1 (hall .bottom p hp)
  · obtain ⟨p, hp, heq⟩ := hattained .left
    exact ⟨p, hp, neg_inj.1 heq⟩
  · obtain ⟨p, hp, heq⟩ := hattained .bottom
    exact ⟨p, hp, neg_inj.1 heq⟩

/-- **The bounds of a parsed drawing are tight.** -/
theorem exists_computeBounds {parse : String → Option ℝ} {text : String}
    {entities : List (Entity ℝ)} (h : parseEntities parse text = .ok entities)
    (hne : entities ≠ []) {fuel : ℕ} (hfuel : 6 ≤ fuel) :
    ∃ bounds, computeBounds fuel entities = some (some bounds) ∧
      bounds.Tight (drawing entities) := by
  obtain ⟨points, hpoints, hne', halike⟩ :=
    exists_mapM_entityPoints hfuel (accepted_of_parseEntities h)
  obtain ⟨bounds, hbounds, hreach⟩ := exists_pointsBounds (hne' hne)
  refine ⟨bounds, ?_, tight_of_reachAlike halike hreach⟩
  unfold computeBounds
  rw [hpoints, Option.map_some, hbounds]

end PolygonNesting.Dxf
