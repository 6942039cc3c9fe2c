import Mathlib.Data.List.GetD
import PolygonNesting.Lib.StrictRing

set_option linter.unusedSectionVars false

/-!
# The monotone chain

Half of a convex hull: points in the order of a half-plane are pushed on a
stack, after the points that no longer turn left are popped.  What is left
turns left everywhere and has every point on its left.  The two halves of the
hull, one for each direction through the points, close to a strict ring.
-/

namespace Plane

variable {K : Type} [Field K] [LinearOrder K]

/-! ## §1  One half -/

/-- Pop while the last two points and the new one do not turn left. -/
def popTurns (c : K × K) : List (K × K) → List (K × K)
  | b :: a :: rest => if 0 < cross a b c then b :: a :: rest else popTurns c (a :: rest)
  | stack => stack

/-- The stack after all points, the last one first. -/
def chainStack (points : List (K × K)) : List (K × K) :=
  points.foldl (fun stack c => c :: popTurns c stack) []

/-- Three successive points of a stack turn left. -/
def Turns : List (K × K) → Prop
  | c :: b :: a :: rest => 0 < cross a b c ∧ Turns (b :: a :: rest)
  | _ => True

/-- A stack that is half a hull of the points seen so far. -/
structure ChainOf (H : HalfPlane K) (seen stack : List (K × K)) : Prop where
  mem : ∀ v ∈ stack, v ∈ seen
  sorted : stack.Pairwise fun b a => H.mem (b - a)
  turns : Turns stack
  left : stack.IsChain fun b a => ∀ q ∈ seen, 0 ≤ cross a b q
  last : ∀ b ∈ stack.head?, ∀ q ∈ seen, q = b ∨ H.mem (b - q)
  first : ∀ a ∈ stack.getLast?, ∀ q ∈ seen, q = a ∨ H.mem (q - a)
  nonempty : seen ≠ [] → stack ≠ []

variable [IsStrictOrderedRing K] {H : HalfPlane K} {seen stack : List (K × K)} {c : K × K}

theorem Turns.tail {b : K × K} (h : Turns (b :: stack)) : Turns stack := by
  cases stack with
  | nil => exact trivial
  | cons a rest =>
    cases rest with
    | nil => exact trivial
    | cons _ _ => exact h.2

theorem popTurns_suffix (c : K × K) : ∀ stack : List (K × K), popTurns c stack <:+ stack
  | [] => List.suffix_rfl
  | [_] => List.suffix_rfl
  | b :: a :: rest => by
    unfold popTurns
    split
    · exact List.suffix_rfl
    · exact (popTurns_suffix c (a :: rest)).trans (List.suffix_cons b _)

theorem popTurns_ne_nil (c : K × K) : ∀ {stack : List (K × K)}, stack ≠ [] →
    popTurns c stack ≠ []
  | [_], _ => List.cons_ne_nil _ _
  | b :: a :: rest, _ => by
    unfold popTurns
    split
    · exact List.cons_ne_nil _ _
    · exact popTurns_ne_nil c (List.cons_ne_nil a rest)

theorem turns_push (c : K × K) : ∀ {stack : List (K × K)}, Turns stack →
    Turns (c :: popTurns c stack)
  | [], _ => trivial
  | [_], _ => trivial
  | b :: a :: rest, h => by
    unfold popTurns
    split
    · next hturn => exact ⟨hturn, h⟩
    · exact turns_push c h.tail

/-- **What is popped is not needed**: a seen point after the new top is on the
left of the edge from it to the new point. -/
theorem left_of_popTurns (hafter : ∀ v ∈ seen, H.mem (c - v)) :
    ∀ {stack : List (K × K)}, (∀ v ∈ stack, v ∈ seen) →
      stack.Pairwise (fun b a => H.mem (b - a)) →
      stack.IsChain (fun b a => ∀ q ∈ seen, 0 ≤ cross a b q) →
      (∀ b ∈ stack.head?, ∀ q ∈ seen, H.mem (q - b) → 0 ≤ cross b c q) →
      ∀ a ∈ (popTurns c stack).head?, ∀ q ∈ seen, H.mem (q - a) → 0 ≤ cross a c q
  | [], _, _, _, htop => htop
  | [_], _, _, _, htop => htop
  | b :: a :: rest, hmem, hsorted, hleft, htop => by
    unfold popTurns
    split
    · exact htop
    · next hturn =>
      refine left_of_popTurns hafter (fun v hv => hmem v (List.mem_cons_of_mem b hv))
        hsorted.tail hleft.tail ?_
      intro a' ha' q hq hqa
      obtain rfl := Option.some.inj ha'
      have hab := List.rel_of_pairwise_cons hsorted List.mem_cons_self
      have hq' := (List.isChain_cons_cons.mp hleft).1 q hq
      rw [cross_eq_det] at hq' hturn ⊢
      have hback : 0 ≤ det (c - a) (b - a) := by
        rw [det_swap]
        exact neg_nonneg.mpr (not_lt.mp hturn)
      exact H.det_nonneg_trans (hafter a (hmem a (by simp))) hab hqa hback hq'

/-- Edges before a left turn towards a point have the point on their left. -/
theorem left_of_turns (hafter : ∀ v ∈ stack, H.mem (c - v))
    (hsorted : stack.Pairwise fun b a => H.mem (b - a)) (hturns : Turns (c :: stack))
    (hleft : stack.IsChain fun b a => ∀ q ∈ seen, 0 ≤ cross a b q) :
    stack.IsChain fun b a => ∀ q ∈ seen ++ [c], 0 ≤ cross a b q := by
  induction stack with
  | nil => exact .nil
  | cons b rest ih =>
    cases rest with
    | nil => exact .singleton b
    | cons a rest =>
      refine List.isChain_cons_cons.mpr ⟨fun q hq => ?_, ih (fun v hv => hafter v
        (List.mem_cons_of_mem b hv)) hsorted.tail ?_ hleft.tail⟩
      · rcases List.mem_append.mp hq with hq | hq
        · exact (List.isChain_cons_cons.mp hleft).1 q hq
        · rw [List.mem_singleton.mp hq]
          exact hturns.1.le
      cases rest with
      | nil => exact trivial
      | cons z rest =>
        refine ⟨?_, hturns.2.2⟩
        have hbend := hturns.2.1
        have hnext := hturns.1
        rw [cross_eq_det_finish] at hbend ⊢
        rw [cross_eq_det] at hnext
        exact H.det_pos_trans (List.rel_of_pairwise_cons hsorted.tail List.mem_cons_self)
          (List.rel_of_pairwise_cons hsorted List.mem_cons_self) (hafter a (by simp)) hbend.le
          hnext.le (.inl hnext.ne')

/-- Everything seen is on the left of the new edge. -/
theorem ChainOf.left_new (h : ChainOf H seen stack) (hafter : ∀ q ∈ seen, H.mem (c - q)) :
    ∀ a ∈ (popTurns c stack).head?, ∀ q ∈ seen, 0 ≤ cross a c q := by
  have hsuffix := popTurns_suffix c stack
  have htop := left_of_popTurns hafter h.mem h.sorted h.left (by
    intro b hb q hq hqb
    -- nothing is after the last point
    rcases h.last b hb q hq with rfl | hbq
    · rw [sub_self] at hqb
      exact absurd hqb H.zero
    · rw [← neg_sub] at hqb
      exact absurd hqb (H.not_neg hbq))
  have hturns := turns_push c h.turns
  have hleft := h.left.suffix hsuffix
  have hsorted := h.sorted.sublist hsuffix.sublist
  have hmem : ∀ v ∈ popTurns c stack, v ∈ seen := fun v hv => h.mem v (hsuffix.subset hv)
  intro a ha q hq
  rcases eq_or_ne q a with rfl | hne
  · rw [cross_left]
  rcases H.total (sub_ne_zero.mpr hne) with hqa | hqa
  · exact htop a ha q hq hqa
  rw [neg_sub] at hqa
  generalize popTurns c stack = rest at *
  cases rest with
  | nil => cases ha
  | cons a' rest =>
    obtain rfl := Option.some.inj ha
    cases rest with
    | nil =>
      -- the first point has nothing before it
      have hends : a' ∈ stack.getLast? := by
        obtain ⟨front, rfl⟩ := hsuffix
        rw [List.getLast?_append]
        rfl
      rcases h.first a' hends q hq with rfl | hqa'
      · exact absurd rfl hne
      · rw [← neg_sub] at hqa'
        exact absurd hqa' (H.not_neg hqa)
    | cons p rest =>
      -- a point before the top is on the left of the edge into it
      have hin := (List.isChain_cons_cons.mp hleft).1 q hq
      have hturn := hturns.1
      rw [cross_eq_det_finish] at hin hturn
      have hin' : 0 ≤ det (a' - q) (a' - p) := by
        rw [det_swap, ← det_neg_right, neg_sub]
        exact hin
      have hgo := H.det_nonneg_trans hqa
        (List.rel_of_pairwise_cons hsorted List.mem_cons_self)
        (hafter a' (hmem a' List.mem_cons_self)) hin' hturn.le
      rw [cross_eq_det, det_swap, ← det_neg_left, neg_sub]
      exact hgo

/-- **A push keeps half a hull.** -/
theorem ChainOf.push (h : ChainOf H seen stack) (hafter : ∀ q ∈ seen, H.mem (c - q)) :
    ChainOf H (seen ++ [c]) (c :: popTurns c stack) := by
  have hsuffix := popTurns_suffix c stack
  have hmem : ∀ v ∈ popTurns c stack, v ∈ seen := fun v hv => h.mem v (hsuffix.subset hv)
  have hsorted := h.sorted.sublist hsuffix.sublist
  have hturns := turns_push c h.turns
  have hold := left_of_turns (fun v hv => hafter v (hmem v hv)) hsorted hturns
    (h.left.suffix hsuffix)
  refine ⟨?_, ?_, hturns, ?_, ?_, ?_, fun _ => List.cons_ne_nil _ _⟩
  · intro v hv
    rcases List.mem_cons.mp hv with rfl | hv
    · exact List.mem_append_right _ List.mem_cons_self
    · exact List.mem_append_left _ (hmem v hv)
  · exact List.pairwise_cons.mpr ⟨fun v hv => hafter v (hmem v hv), hsorted⟩
  · have hnew := h.left_new hafter
    cases hrest : popTurns c stack with
    | nil => exact .singleton c
    | cons a rest =>
      rw [hrest] at hold hnew
      refine List.isChain_cons_cons.mpr ⟨fun q hq => ?_, hold⟩
      rcases List.mem_append.mp hq with hq | hq
      · exact hnew a rfl q hq
      · rw [List.mem_singleton.mp hq, cross_right]
  · rintro b hb q hq
    obtain rfl := Option.some.inj hb
    rcases List.mem_append.mp hq with hq | hq
    · exact .inr (hafter q hq)
    · exact .inl (List.mem_singleton.mp hq)
  · intro a ha q hq
    rcases eq_or_ne seen [] with rfl | hseen
    · have hstack : stack = [] := List.eq_nil_iff_forall_not_mem.mpr fun v hv =>
        absurd (h.mem v hv) List.not_mem_nil
      subst hstack
      obtain rfl := Option.some.inj ha
      exact .inl (List.mem_singleton.mp hq)
    · have hne := popTurns_ne_nil c (h.nonempty hseen)
      have hends : a ∈ stack.getLast? := by
        obtain ⟨front, hfront⟩ := hsuffix
        rw [List.getLast?_cons_of_ne_nil hne, Option.mem_def] at ha
        rw [← hfront, List.getLast?_append, ha]
        rfl
      rcases List.mem_append.mp hq with hq | hq
      · exact h.first a hends q hq
      · rw [List.mem_singleton.mp hq]
        exact .inr (hafter a (h.mem a (List.mem_of_getLast? hends)))

/-- **Half a hull of points in order.** -/
theorem chainOf_chainStack {points : List (K × K)}
    (hsorted : points.Pairwise fun a b => H.mem (b - a)) :
    ChainOf H points (chainStack points) := by
  induction points using List.reverseRecOn with
  | nil =>
    exact ⟨fun _ hv => hv, .nil, trivial, .nil, fun _ _ _ hq => absurd hq List.not_mem_nil,
      fun _ _ _ hq => absurd hq List.not_mem_nil, fun hne => absurd rfl hne⟩
  | append_singleton points c ih =>
    obtain ⟨hbefore, -, hafter⟩ := List.pairwise_append.mp hsorted
    unfold chainStack
    rw [List.foldl_append]
    exact (ih hbefore).push fun q hq => hafter q hq c List.mem_cons_self

/-! ## §2  Half a hull by index -/

/-- Half a hull, from its first point to its last. -/
structure HalfHull (H : HalfPlane K) (points hull : List (K × K)) : Prop where
  mem : ∀ k < hull.length, hull.getD k 0 ∈ points
  sorted : ∀ i j, i < j → j < hull.length → H.mem (hull.getD j 0 - hull.getD i 0)
  left : ∀ k, k + 1 < hull.length → ∀ q ∈ points, 0 ≤ cross (hull.getD k 0) (hull.getD (k + 1) 0) q
  turn : ∀ k, k + 2 < hull.length →
    0 < cross (hull.getD k 0) (hull.getD (k + 1) 0) (hull.getD (k + 2) 0)
  first : ∀ q ∈ points, q = hull.getD 0 0 ∨ H.mem (q - hull.getD 0 0)
  last : ∀ q ∈ points,
    q = hull.getD (hull.length - 1) 0 ∨ H.mem (hull.getD (hull.length - 1) 0 - q)
  nonempty : points ≠ [] → hull ≠ []

/-- The chain, from its first point to its last. -/
def halfHull (points : List (K × K)) : List (K × K) := (chainStack points).reverse

theorem Turns.getD : ∀ {stack : List (K × K)}, Turns stack → ∀ k, k + 2 < stack.length →
    0 < cross (stack.getD (k + 2) 0) (stack.getD (k + 1) 0) (stack.getD k 0)
  | _ :: _ :: _ :: _, h, 0, _ => h.1
  | _ :: _ :: _ :: _, h, k + 1, hk => h.2.getD k (Nat.lt_of_succ_lt_succ hk)
  | [_, _], _, _, hk => absurd hk (by simp)
  | [_], _, _, hk => absurd hk (by simp)
  | [], _, _, hk => absurd hk (by simp)

theorem ChainOf.halfHull {points : List (K × K)} (h : ChainOf H points stack) :
    HalfHull H points stack.reverse := by
  have hget : ∀ k, k < stack.length → stack.reverse.getD k 0 = stack.getD (stack.length - 1 - k) 0 :=
    fun k hk => congrFun (List.getD_reverse k hk) 0
  have hlen : stack.reverse.length = stack.length := List.length_reverse
  have hhead : ∀ b, stack.getD 0 0 = b → stack ≠ [] → b ∈ stack.head? := by
    intro b hb hne
    cases stack with
    | nil => exact absurd rfl hne
    | cons a rest => exact congrArg some hb
  have hend : ∀ a, stack.getD (stack.length - 1) 0 = a → stack ≠ [] → a ∈ stack.getLast? := by
    intro a ha hne
    rw [Option.mem_def, List.getLast?_eq_getElem?, ← ha, List.getD_eq_getElem?_getD,
      List.getElem?_eq_getElem (by have := List.length_pos_iff.mpr hne; omega)]
    rfl
  have hne : ∀ q ∈ points, stack ≠ [] := fun q hq => h.nonempty (List.ne_nil_of_mem hq)
  refine ⟨?_, ?_, ?_, ?_, ?_, ?_, ?_⟩
  · intro k hk
    rw [hlen] at hk
    rw [hget k hk, List.getD_eq_getElem _ _ (by omega)]
    exact h.mem _ (List.getElem_mem _)
  · intro i j hij hj
    rw [hlen] at hj
    rw [hget i (by omega), hget j hj, List.getD_eq_getElem _ _ (by omega),
      List.getD_eq_getElem _ _ (by omega)]
    exact List.pairwise_iff_getElem.mp h.sorted _ _ _ _ (by omega)
  · intro k hk q hq
    rw [hlen] at hk
    rw [hget k (by omega), hget (k + 1) hk, List.getD_eq_getElem _ _ (by omega),
      List.getD_eq_getElem _ _ (by omega)]
    have := List.isChain_iff_getElem.mp h.left (stack.length - 1 - (k + 1)) (by omega) q hq
    simpa only [show stack.length - 1 - (k + 1) + 1 = stack.length - 1 - k by omega] using this
  · intro k hk
    rw [hlen] at hk
    rw [hget k (by omega), hget (k + 1) (by omega), hget (k + 2) hk]
    have := h.turns.getD (stack.length - 1 - (k + 2)) (by omega)
    rwa [show stack.length - 1 - (k + 2) + 2 = stack.length - 1 - k by omega,
      show stack.length - 1 - (k + 2) + 1 = stack.length - 1 - (k + 1) by omega] at this
  · intro q hq
    have hpos := List.length_pos_iff.mpr (hne q hq)
    rw [hget 0 hpos]
    exact h.first _ (hend _ rfl (hne q hq)) q hq
  · intro q hq
    have hpos := List.length_pos_iff.mpr (hne q hq)
    rw [hlen, hget _ (by omega), Nat.sub_self]
    exact h.last _ (hhead _ rfl (hne q hq)) q hq
  · intro hpoints hnil
    exact h.nonempty hpoints (List.reverse_eq_nil_iff.mp hnil)

theorem halfHull_halfHull {points : List (K × K)}
    (hsorted : points.Pairwise fun a b => H.mem (b - a)) :
    HalfHull H points (halfHull points) :=
  (chainOf_chainStack hsorted).halfHull

/-- The other half, of the same points. -/
theorem halfHull_reverse {points : List (K × K)}
    (hsorted : points.Pairwise fun a b => H.mem (b - a)) :
    HalfHull H.opposite points (halfHull points.reverse) := by
  have hreverse : points.reverse.Pairwise fun a b => H.opposite.mem (b - a) := by
    rw [List.pairwise_reverse]
    refine hsorted.imp fun {a b} hab => ?_
    show H.mem (-(a - b))
    rw [neg_sub]
    exact hab
  have h := halfHull_halfHull hreverse
  refine ⟨fun k hk => List.mem_reverse.mp (h.mem k hk), h.sorted,
    fun k hk q hq => h.left k hk q (List.mem_reverse.mpr hq), h.turn,
    fun q hq => h.first q (List.mem_reverse.mpr hq),
    fun q hq => h.last q (List.mem_reverse.mpr hq), fun hne => h.nonempty ?_⟩
  rwa [Ne, List.reverse_eq_nil_iff]

/-! ## §3  The two halves close -/

/-- The hull: the two halves, each without its last point. -/
def hullPoints (points : List (K × K)) : List (K × K) :=
  (halfHull points).dropLast ++ (halfHull points.reverse).dropLast

namespace HalfHull

variable {points lower upper : List (K × K)}

theorem exists_mem (hl : HalfHull H points lower) (hne : points ≠ []) :
    lower.getD 0 0 ∈ points ∧ lower.getD (lower.length - 1) 0 ∈ points := by
  have hpos := List.length_pos_iff.mpr (hl.nonempty hne)
  exact ⟨hl.mem 0 hpos, hl.mem _ (by omega)⟩

/-- One half ends where the other starts. -/
theorem last_eq_first (hl : HalfHull H points lower) (hu : HalfHull H.opposite points upper)
    (hne : points ≠ []) : upper.getD 0 0 = lower.getD (lower.length - 1) 0 := by
  rcases hl.last _ (hu.exists_mem hne).1 with h | h
  · exact h
  · rcases hu.first _ (hl.exists_mem hne).2 with h' | h'
    · exact h'.symm
    · exact absurd h' (H.not_neg h)

theorem first_eq_last (hl : HalfHull H points lower) (hu : HalfHull H.opposite points upper)
    (hne : points ≠ []) : upper.getD (upper.length - 1) 0 = lower.getD 0 0 := by
  rcases hl.first _ (hu.exists_mem hne).2 with h | h
  · exact h
  · rcases hu.last _ (hl.exists_mem hne).1 with h' | h'
    · exact h'.symm
    · exact absurd h' (H.not_neg h)

/-- Points that are not all one need two points of each half. -/
theorem two_le (hl : HalfHull H points lower)
    (hspan : ∀ a d : K × K, d ≠ 0 → ∃ q ∈ points, det d (q - a) ≠ 0) : 2 ≤ lower.length := by
  obtain ⟨q, hq, hdet⟩ := hspan (lower.getD 0 0) (1, 0) (by simp)
  have hpos := List.length_pos_iff.mpr (hl.nonempty (List.ne_nil_of_mem hq))
  by_contra hlt
  have hlen : lower.length - 1 = 0 := by omega
  have hlast := hl.last q hq
  rw [hlen] at hlast
  rcases hl.first q hq with rfl | hq1
  · rw [sub_self] at hdet
    simp [det] at hdet
  · rcases hlast with rfl | hq2
    · rw [sub_self] at hdet
      simp [det] at hdet
    · rw [← neg_sub] at hq2
      exact H.not_neg hq1 hq2

/-- The corners of the closed hull: along the one half and then along the other. -/
def corner (lower upper : List (K × K)) (k : ℕ) : K × K :=
  if k < lower.length - 1 then lower.getD k 0 else upper.getD (k - (lower.length - 1)) 0

variable (hl : HalfHull H points lower) (hu : HalfHull H.opposite points upper)
  (hspan : ∀ a d : K × K, d ≠ 0 → ∃ q ∈ points, det d (q - a) ≠ 0)

theorem ne_nil_of_spans {points : List (K × K)}
    (hspan : ∀ a d : K × K, d ≠ 0 → ∃ q ∈ points, det d (q - a) ≠ 0) : points ≠ [] := by
  obtain ⟨q, hq, -⟩ := hspan 0 (1, 0) (by simp)
  exact List.ne_nil_of_mem hq

include hl hu hspan

theorem corner_lower {k : ℕ} (hk : k < lower.length) :
    corner lower upper k = lower.getD k 0 := by
  unfold corner
  split
  · rfl
  · rw [show k = lower.length - 1 by omega, Nat.sub_self,
      hl.last_eq_first hu (ne_nil_of_spans hspan)]

omit hl hu hspan in
theorem corner_upper {k : ℕ} (hk : lower.length - 1 ≤ k) :
    corner lower upper k = upper.getD (k - (lower.length - 1)) 0 := by
  unfold corner
  rw [if_neg (not_lt.mpr hk)]

/-- Back at the start. -/
theorem corner_end :
    corner lower upper (lower.length - 1 + (upper.length - 1)) = corner lower upper 0 := by
  have h2 := hl.two_le hspan
  rw [corner_upper (Nat.le_add_right _ _), Nat.add_sub_cancel_left,
    corner_lower hl hu hspan (by omega), hl.first_eq_last hu (ne_nil_of_spans hspan)]

theorem corner_mem (k : ℕ) (hk : k < lower.length - 1 + (upper.length - 1)) :
    corner lower upper k ∈ points := by
  unfold corner
  split
  · exact hl.mem k (by omega)
  · exact hu.mem _ (by omega)

theorem corner_left {k : ℕ} (hk : k < lower.length - 1 + (upper.length - 1)) {q : K × K}
    (hq : q ∈ points) : 0 ≤ cross (corner lower upper k) (corner lower upper (k + 1)) q := by
  rcases Nat.lt_or_ge k (lower.length - 1) with h | h
  · rw [corner_lower hl hu hspan (by omega), corner_lower hl hu hspan (by omega)]
    exact hl.left k (by omega) q hq
  · rw [corner_upper h, corner_upper (by omega),
      show k + 1 - (lower.length - 1) = k - (lower.length - 1) + 1 by omega]
    exact hu.left _ (by omega) q hq

theorem corner_forth {k : ℕ} (hk : k < lower.length - 1) :
    H.mem (corner lower upper (k + 1) - corner lower upper k) := by
  rw [corner_lower hl hu hspan (by omega), corner_lower hl hu hspan (by omega)]
  exact hl.sorted _ _ (Nat.lt_succ_self k) (by omega)

omit hl hspan in
theorem corner_back {k : ℕ} (hk : lower.length - 1 ≤ k)
    (hk' : k < lower.length - 1 + (upper.length - 1)) :
    H.opposite.mem (corner lower upper (k + 1) - corner lower upper k) := by
  rw [corner_upper hk, corner_upper (by omega)]
  exact hu.sorted _ _ (by omega) (by omega)

/-- The hull never goes straight on. -/
theorem corner_not_straight {k : ℕ} (hk : k + 1 < lower.length - 1 + (upper.length - 1)) {t : K}
    (ht : 0 < t) : corner lower upper (k + 2) - corner lower upper (k + 1) ≠
      t • (corner lower upper (k + 1) - corner lower upper k) := by
  have hbend : ∀ {a b c : K × K}, 0 < cross a b c → c - b ≠ t • (b - a) := by
    intro a b c hturn heq
    rw [cross_eq_det_finish, heq, det_smul_right, det_self, mul_zero] at hturn
    exact lt_irrefl _ hturn
  rcases Nat.lt_or_ge (k + 1) (lower.length - 1) with h | h
  · rw [corner_lower hl hu hspan (by omega), corner_lower hl hu hspan (by omega),
      corner_lower hl hu hspan (by omega)]
    exact hbend (hl.turn k (by omega))
  · rcases Nat.lt_or_ge k (lower.length - 1) with h' | h'
    · -- from the one half to the other
      intro heq
      have hforth := corner_forth hl hu hspan h'
      have hback := corner_back hu h hk
      rw [show k + 1 + 1 = k + 2 from rfl, heq] at hback
      exact H.not_neg (H.smul ht hforth) hback
    · rw [corner_upper h', corner_upper (by omega), corner_upper (by omega),
        show k + 2 - (lower.length - 1) = k - (lower.length - 1) + 2 by omega,
        show k + 1 - (lower.length - 1) = k - (lower.length - 1) + 1 by omega]
      exact hbend (hu.turn _ (by omega))

/-- Only the start is at the first point. -/
theorem corner_ne_start {k : ℕ} (h0 : 0 < k)
    (hk : k < lower.length - 1 + (upper.length - 1)) :
    corner lower upper k ≠ corner lower upper 0 := by
  have h2 := hl.two_le hspan
  rw [corner_lower hl hu hspan (k := 0) (by omega)]
  intro heq
  rcases Nat.lt_or_ge k (lower.length - 1) with h | h
  · rw [corner_lower hl hu hspan (by omega)] at heq
    refine H.ne_zero (hl.sorted 0 k h0 (by omega)) (sub_eq_zero.mpr heq)
  · rw [corner_upper h, ← hl.first_eq_last hu (ne_nil_of_spans hspan)] at heq
    exact H.opposite.ne_zero (hu.sorted (k - (lower.length - 1)) (upper.length - 1) (by omega)
      (by omega)) (sub_eq_zero.mpr heq.symm)

omit hl hu hspan in
/-- The closed hull by index. -/
theorem getD_hull {k : ℕ} (hk : k < lower.length - 1 + (upper.length - 1)) :
    (lower.dropLast ++ upper.dropLast).getD k 0 = corner lower upper k := by
  unfold corner
  split
  · next h =>
    rw [List.getD_append _ _ _ _ (by simpa using h), List.getD_eq_getElem _ _ (by simpa using h),
      List.getElem_dropLast, List.getD_eq_getElem]
  · next h =>
    rw [List.getD_append_right _ _ _ _ (by simpa using h), List.length_dropLast,
      List.getD_eq_getElem _ _ (by simp; omega), List.getElem_dropLast, List.getD_eq_getElem]

/-- **The two halves close to a hull walk.** -/
theorem hullWalk :
    HullWalk (fun k => (lower.dropLast ++ upper.dropLast).getD
      (k % (lower.dropLast ++ upper.dropLast).length) 0)
      (lower.dropLast ++ upper.dropLast).length {q | q ∈ points} := by
  have hl2 := hl.two_le hspan
  have hu2 := hu.two_le hspan
  have hlen : (lower.dropLast ++ upper.dropLast).length =
      lower.length - 1 + (upper.length - 1) := by simp
  rw [hlen]
  generalize hn : lower.length - 1 + (upper.length - 1) = n
  have hpos : 0 < n := by omega
  have hmod : ∀ k, k % n < n := fun k => Nat.mod_lt k hpos
  have hat : ∀ k, (lower.dropLast ++ upper.dropLast).getD (k % n) 0 =
      corner lower upper (k % n) := by
    intro k
    exact getD_hull (by rw [hn]; exact hmod k)
  have hnext : ∀ k, (lower.dropLast ++ upper.dropLast).getD ((k + 1) % n) 0 =
      corner lower upper (k % n + 1) := by
    intro k
    rw [hat, ← Nat.mod_add_mod]
    rcases Nat.lt_or_ge (k % n + 1) n with h | h
    · rw [Nat.mod_eq_of_lt h]
    · have hend := corner_end hl hu hspan
      have := hmod k
      rw [hn] at hend
      rw [show k % n + 1 = n by omega, Nat.mod_self, hend]
  have hforthback : ∀ k, k < n → corner lower upper k ≠ corner lower upper (k + 1) := by
    intro k hk heq
    rcases Nat.lt_or_ge k (lower.length - 1) with h | h
    · exact H.ne_zero (corner_forth hl hu hspan h) (sub_eq_zero.mpr heq.symm)
    · exact H.opposite.ne_zero (corner_back hu h (by omega)) (sub_eq_zero.mpr heq.symm)
  refine ⟨hpos, ?_, ?_, ?_, ?_, ?_, hspan⟩
  · intro k
    simp only [Nat.add_mod_right]
  · intro k
    simp only [hat]
    exact corner_mem hl hu hspan _ (by rw [hn]; exact hmod k)
  · intro k q hq
    simp only [hnext]
    rw [hat k]
    exact corner_left hl hu hspan (by rw [hn]; exact hmod k) hq
  · intro k
    simp only [hnext, hat]
    exact hforthback _ (hmod k)
  · intro k t ht
    simp only [edge, hnext]
    rw [hat k]
    have hk := hmod k
    rcases Nat.lt_or_ge (k % n + 1) n with h | h
    · rw [← Nat.mod_add_mod, Nat.mod_eq_of_lt h]
      exact corner_not_straight hl hu hspan (by omega) ht
    · -- from the end of the second half to the first
      rw [← Nat.mod_add_mod, show k % n + 1 = n by omega, Nat.mod_self]
      have hend := corner_end hl hu hspan
      rw [hn] at hend
      intro heq
      have hforth := corner_forth hl hu hspan (k := 0) (by omega)
      have hback : H.opposite.mem
          (corner lower upper (k % n + 1) - corner lower upper (k % n)) :=
        corner_back hu (by omega) (by omega)
      rw [show k % n + 1 = n by omega] at hback
      rw [← hend, heq] at hforth
      refine H.opposite.not_neg hback ?_
      show H.mem (- -_)
      rw [neg_neg]
      have := H.smul (inv_pos.mpr ht) hforth
      rwa [smul_smul, inv_mul_cancel₀ ht.ne', one_smul] at this

theorem hull_injective (i j : ℕ) (hij : i < j)
    (hj : j < (lower.dropLast ++ upper.dropLast).length) :
    (lower.dropLast ++ upper.dropLast).getD (i % (lower.dropLast ++ upper.dropLast).length) 0 ≠
      (lower.dropLast ++ upper.dropLast).getD (j % (lower.dropLast ++ upper.dropLast).length)
        0 := by
  intro heq
  -- going on from both, the one is at the start before the other
  have hshift := ConvexRing.vertex_shift (R := (hullWalk hl hu hspan).toConvexRing) heq
    ((lower.dropLast ++ upper.dropLast).length - j)
  have hstart : ∀ k, (hullWalk hl hu hspan).toConvexRing.vertex k =
      corner lower upper (k % (lower.dropLast ++ upper.dropLast).length) := by
    intro k
    refine getD_hull ?_
    have hlt := Nat.mod_lt k (hullWalk hl hu hspan).size_pos
    simpa only [List.length_append, List.length_dropLast] using hlt
  rw [hstart, hstart, show j + ((lower.dropLast ++ upper.dropLast).length - j) =
    (lower.dropLast ++ upper.dropLast).length by omega, Nat.mod_self,
    Nat.mod_eq_of_lt (by omega)] at hshift
  refine corner_ne_start hl hu hspan (by omega) ?_ hshift
  rw [List.length_append, List.length_dropLast, List.length_dropLast] at hj ⊢
  omega

end HalfHull

/-- **The hull of points in order is a strict ring.** -/
theorem exists_hullRing {points : List (K × K)}
    (hsorted : points.Pairwise fun a b => H.mem (b - a))
    (hspan : ∀ a d : K × K, d ≠ 0 → ∃ q ∈ points, det d (q - a) ≠ 0) :
    ∃ R : StrictRing K, R.size = (hullPoints points).length ∧
      (∀ k, R.vertex k = (hullPoints points).getD (k % (hullPoints points).length) 0) ∧
      (∀ k, R.vertex k ∈ points) ∧ ∀ q ∈ points, R.toConvexRing.Closed q := by
  have hl := halfHull_halfHull hsorted
  have hu := halfHull_reverse hsorted
  have hwalk := HalfHull.hullWalk hl hu hspan
  exact ⟨hwalk.toStrictRing (HalfHull.hull_injective hl hu hspan), rfl, fun _ => rfl,
    hwalk.vertex_mem, fun q hq => hwalk.closed _ hq⟩

/-! ## §4  Points on a line -/

/-- Between two points of a line, in the order of a half-plane. -/
theorem mem_segment_of_between {a b q : K × K} (hdet : det (q - a) (b - q) = 0)
    (hfirst : q = a ∨ H.mem (q - a)) (hlast : q = b ∨ H.mem (b - q)) : q ∈ segment K a b := by
  rcases hfirst with rfl | hfirst
  · exact left_mem_segment K _ _
  rcases hlast with rfl | hlast
  · exact right_mem_segment K _ _
  obtain ⟨t, ht⟩ := exists_smul_of_det_eq_zero (H.ne_zero hfirst) hdet
  have hpos : 0 < t := by
    rcases lt_trichotomy t 0 with hneg | rfl | hpos
    · have hsum := H.add hlast (H.smul (neg_pos.mpr hneg) hfirst)
      rw [ht, neg_smul, add_neg_cancel] at hsum
      exact absurd hsum H.zero
    · rw [ht, zero_smul] at hlast
      exact absurd hlast H.zero
    · exact hpos
  have hb : b = q + t • (q - a) := by
    rw [← ht]
    abel
  have hne : 1 + t ≠ 0 := by positivity
  refine ⟨t / (1 + t), 1 / (1 + t), by positivity, by positivity, by field_simp; ring, ?_⟩
  rw [hb]
  refine Prod.ext ?_ ?_
  · simp only [Prod.fst_add, Prod.smul_fst, Prod.fst_sub, smul_eq_mul]
    field_simp
    ring
  · simp only [Prod.snd_add, Prod.smul_snd, Prod.snd_sub, smul_eq_mul]
    field_simp
    ring

/-- Half of the hull of points on a line: its two ends. -/
theorem HalfHull.length_of_line {points hull : List (K × K)} (h : HalfHull H points hull)
    (hline : ∀ p ∈ points, ∀ q ∈ points, ∀ r ∈ points, cross p q r = 0) {p q : K × K}
    (hp : p ∈ points) (hq : q ∈ points) (hne : p ≠ q) : hull.length = 2 := by
  have hpos := List.length_pos_iff.mpr (h.nonempty (List.ne_nil_of_mem hp))
  have hle : hull.length ≤ 2 := by
    by_contra hlt
    have hturn := h.turn 0 (by omega)
    rw [hline _ (h.mem 0 (by omega)) _ (h.mem 1 (by omega)) _ (h.mem 2 (by omega))] at hturn
    exact lt_irrefl _ hturn
  have hone : hull.length ≠ 1 := by
    intro hlen
    -- the first point is the last one, so every point is it
    have hsame : ∀ v ∈ points, v = hull.getD 0 0 := by
      intro v hv
      have hlast := h.last v hv
      rw [hlen] at hlast
      rcases h.first v hv with heq | hafter
      · exact heq
      · rcases hlast with heq | hbefore
        · exact heq
        · rw [← neg_sub] at hbefore
          exact absurd hbefore (H.not_neg hafter)
    exact hne ((hsame p hp).trans (hsame q hq).symm)
  omega

/-- **The hull of points on a line is its two ends.** -/
theorem hullPoints_of_line {points : List (K × K)}
    (hsorted : points.Pairwise fun a b => H.mem (b - a))
    (hline : ∀ p ∈ points, ∀ q ∈ points, ∀ r ∈ points, cross p q r = 0)
    (hlen : 2 ≤ points.length) :
    ∃ first last, hullPoints points = [first, last] ∧ first ∈ points ∧ last ∈ points ∧
      first ≠ last ∧ ∀ q ∈ points, q ∈ segment K first last := by
  have hl := halfHull_halfHull hsorted
  have hu := halfHull_reverse hsorted
  have h0 := List.getElem_mem (l := points) (n := 0) (by omega)
  have h1 := List.getElem_mem (l := points) (n := 1) (by omega)
  have hne : points[0] ≠ points[1] := by
    intro heq
    have hmem := List.pairwise_iff_getElem.mp hsorted 0 1 (by omega) (by omega) Nat.one_pos
    rw [heq, sub_self] at hmem
    exact H.zero hmem
  have hlower := hl.length_of_line hline h0 h1 hne
  have hupper := hu.length_of_line hline h0 h1 hne
  have hjoin := hl.last_eq_first hu (List.ne_nil_of_mem h0)
  obtain ⟨a, b, hlow⟩ := List.length_eq_two.mp hlower
  obtain ⟨c, d, hup⟩ := List.length_eq_two.mp hupper
  unfold hullPoints
  rw [hlow] at hl hjoin ⊢
  rw [hup] at hjoin ⊢
  obtain rfl : c = b := hjoin
  have ha : a ∈ points := hl.mem 0 Nat.two_pos
  have hb : c ∈ points := hl.mem 1 Nat.one_lt_two
  refine ⟨a, c, rfl, ha, hb, ?_, fun q hq => ?_⟩
  · rintro rfl
    have := hl.sorted 0 1 Nat.one_pos Nat.one_lt_two
    exact H.ne_zero this (sub_self _)
  · refine mem_segment_of_between ?_ (hl.first q hq) (hl.last q hq)
    have hcross := hline a ha q hq c hb
    rwa [cross_eq_det_finish] at hcross

/-- Points in no two directions are on one line. -/
theorem line_of_not_spans {points : List (K × K)}
    (h : ¬∀ a d : K × K, d ≠ 0 → ∃ q ∈ points, det d (q - a) ≠ 0) :
    ∀ p ∈ points, ∀ q ∈ points, ∀ r ∈ points, cross p q r = 0 := by
  push Not at h
  obtain ⟨a, d, hd, hzero⟩ := h
  have hdet : ∀ p ∈ points, ∀ q ∈ points, det d (q - p) = 0 := by
    intro p hp q hq
    rw [show q - p = (q - a) - (p - a) by abel, det_sub_right, hzero q hq, hzero p hp, sub_zero]
  intro p hp q hq r hr
  obtain ⟨s, hs⟩ := exists_smul_of_det_eq_zero hd (hdet p hp q hq)
  obtain ⟨t, ht⟩ := exists_smul_of_det_eq_zero hd (hdet p hp r hr)
  rw [cross_eq_det, hs, ht, det_smul_left, det_smul_right, det_self, mul_zero, mul_zero]

end Plane
