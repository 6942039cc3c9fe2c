import Mathlib.Algebra.Order.Field.Basic
import Mathlib.Algebra.Order.Ring.Rat
import Mathlib.Data.List.AList
import Mathlib.Data.List.Sort
import Mathlib.Tactic.NormNum.Basic

/-!
# Comparators

A comparator that is antisymmetric in sign and transitive is a total preorder.
Such comparators are closed under projections and chaining, sorting by one puts
a least element first, and the least element of each key can be collected in a
map: the sorted map does not depend on the order in which the map is listed, as
long as elements of different keys never tie.
-/

namespace Comparator

variable {α β κ : Type} {cmp : α → α → Ordering}

/-! ## §1  Chains -/

/-- A comparator of a projection. -/
theorem transCmp_comap (cmp : β → β → Ordering) [Std.TransCmp cmp] (f : α → β) :
    Std.TransCmp fun first second => cmp (f first) (f second) where
  eq_swap := Std.OrientedCmp.eq_swap
  isLE_trans := Std.TransCmp.isLE_trans

theorem transCmp_then {cmp cmp' : α → α → Ordering} (h : Std.TransCmp cmp)
    (h' : Std.TransCmp cmp') :
    Std.TransCmp fun first second => (cmp first second).then (cmp' first second) :=
  inferInstanceAs (Std.TransCmp (compareLex cmp cmp'))

theorem transCmp_swap (h : Std.TransCmp cmp) :
    Std.TransCmp fun first second => (cmp first second).swap where
  eq_swap {first second} := by rw [h.eq_swap (a := first)]
  isLE_trans {first second third} hfirst hsecond := by
    rw [← h.eq_swap] at hfirst hsecond ⊢
    exact h.isLE_trans hsecond hfirst

theorem cmp_eq_swap (cmp : α → α → Ordering) [Std.TransCmp cmp] (a b : α) :
    cmp a b = (cmp b a).swap := Std.OrientedCmp.eq_swap

theorem cmp_self (cmp : α → α → Ordering) [Std.TransCmp cmp] (a : α) : cmp a a = .eq :=
  Std.ReflCmp.compare_self

theorem cmp_self_isLE (cmp : α → α → Ordering) [Std.TransCmp cmp] (a : α) :
    (cmp a a).isLE = true := by
  rw [cmp_self cmp]
  rfl

/-- Values that are ordered alike compare alike. -/
theorem compare_congr {α β : Type} [LinearOrder α] [LinearOrder β] {a b : α} {c d : β}
    (hlt : a < b ↔ c < d) (hgt : b < a ↔ d < c) : compare a b = compare c d := by
  rcases lt_trichotomy a b with h | h | h
  · rw [compare_lt_iff_lt.mpr h, compare_lt_iff_lt.mpr (hlt.mp h)]
  · have hcd : c = d := le_antisymm (not_lt.mp fun hd => (hgt.mpr hd).ne h.symm)
      (not_lt.mp fun hc => (hlt.mpr hc).ne h)
    rw [compare_eq_iff_eq.mpr h, compare_eq_iff_eq.mpr hcd]
  · rw [compare_gt_iff_gt.mpr h, compare_gt_iff_gt.mpr (hgt.mp h)]

/-! ## §2  Sorting -/

theorem ne_gt_iff {order : Ordering} : (order != .gt) = true ↔ order.isLE = true := by
  cases order <;> decide

theorem mergeSort_congr {order : α → α → Ordering} {l : List α}
    (h : ∀ a ∈ l, ∀ b ∈ l, cmp a b = order a b) :
    (l.mergeSort fun a b => cmp a b != .gt) = l.mergeSort fun a b => order a b != .gt := by
  have hmap : (l.mergeSort fun a b => cmp a b != .gt).map id =
      (l.map id).mergeSort fun a b => order a b != .gt :=
    List.map_mergeSort fun a ha b hb => by
      rw [h a ha b hb]
      rfl
  rwa [List.map_id, List.map_id] at hmap

/-- Where some before `b` is not before `a` and all before `a` are before `b`, more
are before `b`. -/
theorem countP_lt_countP {p q : α → Bool} {l : List α} {a : α} (ha : a ∈ l)
    (hpq : ∀ x, p x = true → q x = true) (hp : p a = false) (hq : q a = true) :
    l.countP p < l.countP q := by
  obtain ⟨xs, ys, rfl⟩ := List.append_of_mem ha
  have hxs : xs.countP p ≤ xs.countP q := List.countP_mono_left fun x _ => hpq x
  have hys : ys.countP p ≤ ys.countP q := List.countP_mono_left fun x _ => hpq x
  simp only [List.countP_append, List.countP_cons, hp, hq]
  simp only [Bool.false_eq_true, if_false, if_true]
  omega

section

variable [Std.TransCmp cmp]

theorem pairwise_sort (l : List α) :
    (l.mergeSort fun a b => cmp a b != .gt).Pairwise fun a b => (cmp a b).isLE = true := by
  have htrans : ∀ a b c : α, (cmp a b != .gt) = true → (cmp b c != .gt) = true →
      (cmp a c != .gt) = true := fun a b c hab hbc =>
    ne_gt_iff.mpr (Std.TransCmp.isLE_trans (ne_gt_iff.mp hab) (ne_gt_iff.mp hbc))
  have htotal : ∀ a b : α, (cmp a b != .gt || cmp b a != .gt) = true := by
    intro a b
    rw [cmp_eq_swap cmp a b]
    cases cmp b a <;> rfl
  exact (List.pairwise_mergeSort htrans htotal l).imp ne_gt_iff.mp

/-- The first of a sorted list is not after any of it. -/
theorem isLE_of_head? {l : List α} {a b : α}
    (ha : (l.mergeSort fun a b => cmp a b != .gt).head? = some a) (hb : b ∈ l) :
    (cmp a b).isLE = true := by
  have hsorted : (l.mergeSort fun a b => cmp a b != .gt).Pairwise
      fun a b => (cmp a b).isLE = true := pairwise_sort l
  have hmem : b ∈ l.mergeSort fun a b => cmp a b != .gt := List.mem_mergeSort.mpr hb
  cases hl : l.mergeSort fun a b => cmp a b != .gt with
  | nil => simp [hl] at ha
  | cons first rest =>
      rw [hl] at ha hsorted hmem
      obtain rfl := Option.some.inj ha
      rcases List.mem_cons.mp hmem with rfl | hmem
      · exact cmp_self_isLE cmp _
      · exact (List.pairwise_cons.mp hsorted).1 b hmem

/-- What is strictly before comes first. -/
theorem lt_of_cmp_eq_lt {l : List α} {a b : α} (hlt : cmp a b = .lt) {i j : ℕ}
    (hi : (l.mergeSort fun a b => cmp a b != .gt)[i]? = some a)
    (hj : (l.mergeSort fun a b => cmp a b != .gt)[j]? = some b) : i < j := by
  obtain ⟨hi', hia⟩ := List.getElem?_eq_some_iff.mp hi
  obtain ⟨hj', hjb⟩ := List.getElem?_eq_some_iff.mp hj
  have hsorted : (l.mergeSort fun a b => cmp a b != .gt).Pairwise
      fun a b => (cmp a b).isLE = true := pairwise_sort l
  by_contra hle
  rcases Nat.lt_or_eq_of_le (Nat.not_lt.mp hle) with hji | rfl
  · have hba := List.pairwise_iff_getElem.mp hsorted j i hj' hi' hji
    rw [hia, hjb, cmp_eq_swap cmp, hlt] at hba
    exact absurd hba (by decide)
  · have hab : a = b := hia.symm.trans hjb
    rw [hab, cmp_self cmp] at hlt
    exact absurd hlt (by decide)

/-- Where ties are equal, the sorted list does not depend on the order. -/
theorem sort_eq_of_perm {l l' : List α} (h : l.Perm l')
    (heq : ∀ a ∈ l, ∀ b ∈ l, cmp a b = .eq → a = b) :
    (l.mergeSort fun a b => cmp a b != .gt) = l'.mergeSort fun a b => cmp a b != .gt := by
  have hperm : (l.mergeSort fun a b => cmp a b != .gt).Perm
      (l'.mergeSort fun a b => cmp a b != .gt) :=
    (List.mergeSort_perm l _).trans (h.trans (List.mergeSort_perm l' _).symm)
  refine hperm.eq_of_pairwise (fun a b ha hb hab hba => ?_) (pairwise_sort l) (pairwise_sort l')
  exact heq a (List.mem_mergeSort.mp ha) b (h.mem_iff.mpr (List.mem_mergeSort.mp hb))
    (Std.OrientedCmp.isLE_antisymm hab hba)

/-- **Sorting ranks alike whatever the order**: two sorted lists of the same elements
tie place by place. -/
theorem forall₂_eq_of_perm {l l' : List α} (hperm : l.Perm l')
    (hl : l.Pairwise fun a b => (cmp a b).isLE = true)
    (hl' : l'.Pairwise fun a b => (cmp a b).isLE = true) :
    List.Forall₂ (fun a b => cmp a b = .eq) l l' := by
  -- the number of elements before one
  let rank : α → ℕ := fun a => l.countP fun x => cmp x a == .lt
  have hmono : ∀ {a b : α}, (cmp a b).isLE = true → rank a ≤ rank b := by
    intro a b hab
    refine List.countP_mono_left fun x _ hx => ?_
    rw [beq_iff_eq] at hx ⊢
    exact Std.TransCmp.lt_of_lt_of_isLE hx hab
  have hstrict : ∀ {a b : α}, a ∈ l → cmp a b = .lt → rank a < rank b := by
    intro a b ha hab
    refine countP_lt_countP ha (fun x hx => ?_) ?_ ?_
    · rw [beq_iff_eq] at hx ⊢
      exact Std.TransCmp.lt_trans hx hab
    · rw [cmp_self cmp]
      rfl
    · rw [hab]
      rfl
  have heq : ∀ {a b : α}, a ∈ l → b ∈ l → rank a = rank b → cmp a b = .eq := by
    intro a b ha hb hrank
    cases hab : cmp a b with
    | lt => exact absurd hrank (hstrict ha hab).ne
    | eq => rfl
    | gt =>
        have hba : cmp b a = .lt := by
          rw [cmp_eq_swap cmp, hab]
          rfl
        exact absurd hrank (hstrict hb hba).ne'
  have hranks : l.map rank = l'.map rank := by
    refine (hperm.map rank).eq_of_pairwise (fun a b _ _ => le_antisymm) ?_ ?_
    · exact List.pairwise_map.mpr (hl.imp hmono)
    · exact List.pairwise_map.mpr (hl'.imp hmono)
  refine List.forall₂_iff_get.mpr ⟨hperm.length_eq, fun i hi hi' => ?_⟩
  refine heq (List.get_mem l _) (hperm.mem_iff.mpr (List.get_mem l' _)) ?_
  have hget : (l.map rank)[i]? = (l'.map rank)[i]? := by rw [hranks]
  rw [List.getElem?_map, List.getElem?_map, List.getElem?_eq_getElem hi,
    List.getElem?_eq_getElem hi'] at hget
  exact Option.some.inj hget

end

/-- A scan for the first least element. -/
def keepLeast (cmp : α → α → Ordering) (best a : α) : α := if cmp a best = .lt then a else best

theorem keepLeast_eq_or (cmp : α → α → Ordering) (best a : α) :
    keepLeast cmp best a = best ∨ keepLeast cmp best a = a := by
  unfold keepLeast
  split
  · exact .inr rfl
  · exact .inl rfl

theorem foldl_keepLeast_mem (l : List α) : ∀ best : α,
    l.foldl (keepLeast cmp) best ∈ best :: l := by
  induction l with
  | nil => exact fun best => List.mem_singleton_self best
  | cons a l ih =>
      intro best
      rw [List.foldl_cons]
      rcases List.mem_cons.mp (ih (keepLeast cmp best a)) with h | h
      · rw [h]
        rcases keepLeast_eq_or cmp best a with hkeep | hkeep
        · rw [hkeep]
          exact List.mem_cons_self
        · rw [hkeep]
          exact List.mem_cons_of_mem _ List.mem_cons_self
      · exact List.mem_cons_of_mem _ (List.mem_cons_of_mem _ h)

section

variable [Std.TransCmp cmp]

theorem keepLeast_isLE_left (best a : α) : (cmp (keepLeast cmp best a) best).isLE = true := by
  unfold keepLeast
  split
  · next h =>
    rw [h]
    rfl
  · exact cmp_self_isLE cmp best

theorem keepLeast_isLE_right (best a : α) : (cmp (keepLeast cmp best a) a).isLE = true := by
  unfold keepLeast
  split
  · exact cmp_self_isLE cmp a
  · next h =>
    rw [cmp_eq_swap cmp]
    cases hcmp : cmp a best with
    | lt => exact absurd hcmp h
    | eq => rfl
    | gt => rfl

theorem foldl_keepLeast_isLE (l : List α) : ∀ best : α, ∀ a ∈ best :: l,
    (cmp (l.foldl (keepLeast cmp) best) a).isLE = true := by
  induction l with
  | nil =>
      intro best a ha
      obtain rfl := List.mem_singleton.mp ha
      exact cmp_self_isLE cmp a
  | cons b l ih =>
      intro best a ha
      rw [List.foldl_cons]
      have hkept : (cmp (l.foldl (keepLeast cmp) (keepLeast cmp best b))
          (keepLeast cmp best b)).isLE = true := ih _ _ List.mem_cons_self
      rcases List.mem_cons.mp ha with rfl | ha
      · exact Std.TransCmp.isLE_trans hkept (keepLeast_isLE_left a b)
      · rcases List.mem_cons.mp ha with rfl | ha
        · exact Std.TransCmp.isLE_trans hkept (keepLeast_isLE_right best a)
        · exact ih _ a (List.mem_cons_of_mem _ ha)

end

/-! ## §3  Comparators of some elements -/

/-- On the elements of `S` the comparator is one that is consistent everywhere. -/
def OrderOn (S : α → Prop) (cmp : α → α → Ordering) : Prop :=
  ∃ order : α → α → Ordering, Std.TransCmp order ∧ ∀ a b, S a → S b → cmp a b = order a b

section

variable {S : α → Prop}

theorem OrderOn.of_transCmp (h : Std.TransCmp cmp) : OrderOn S cmp :=
  ⟨cmp, h, fun _ _ _ _ => rfl⟩

theorem OrderOn.congr {cmp' : α → α → Ordering} (h : OrderOn S cmp')
    (heq : ∀ a b, S a → S b → cmp a b = cmp' a b) : OrderOn S cmp := by
  obtain ⟨order, horder, hcmp⟩ := h
  exact ⟨order, horder, fun a b ha hb => (heq a b ha hb).trans (hcmp a b ha hb)⟩

theorem OrderOn.then {cmp' : α → α → Ordering} (h : OrderOn S cmp) (h' : OrderOn S cmp') :
    OrderOn S fun a b => (cmp a b).then (cmp' a b) := by
  obtain ⟨order, horder, hcmp⟩ := h
  obtain ⟨order', horder', hcmp'⟩ := h'
  refine ⟨_, transCmp_then horder horder', fun a b ha hb => ?_⟩
  dsimp only
  rw [hcmp a b ha hb, hcmp' a b ha hb]

theorem OrderOn.flip (h : OrderOn S cmp) : OrderOn S fun a b => cmp b a := by
  obtain ⟨order, horder, hcmp⟩ := h
  exact ⟨fun a b => order b a, inferInstance, fun a b ha hb => hcmp b a hb ha⟩

/-- Along a projection. -/
theorem OrderOn.comap {T : β → Prop} {f : β → α} (h : OrderOn S cmp)
    (hT : ∀ b, T b → S (f b)) : OrderOn T fun a b => cmp (f a) (f b) := by
  obtain ⟨order, horder, hcmp⟩ := h
  exact ⟨_, transCmp_comap order f, fun a b ha hb => hcmp _ _ (hT a ha) (hT b hb)⟩

theorem OrderOn.eq_swap (h : OrderOn S cmp) {a b : α} (ha : S a) (hb : S b) :
    cmp a b = (cmp b a).swap := by
  obtain ⟨order, horder, hcmp⟩ := h
  rw [hcmp a b ha hb, hcmp b a hb ha]
  exact cmp_eq_swap order a b

theorem OrderOn.self_isLE (h : OrderOn S cmp) {a : α} (ha : S a) :
    (cmp a a).isLE = true := by
  obtain ⟨order, horder, hcmp⟩ := h
  rw [hcmp a a ha ha]
  exact cmp_self_isLE order a

theorem OrderOn.isLE_trans (h : OrderOn S cmp) {a b c : α} (ha : S a) (hb : S b) (hc : S c)
    (hab : (cmp a b).isLE = true) (hbc : (cmp b c).isLE = true) :
    (cmp a c).isLE = true := by
  obtain ⟨order, horder, hcmp⟩ := h
  rw [hcmp a b ha hb] at hab
  rw [hcmp b c hb hc] at hbc
  rw [hcmp a c ha hc]
  exact Std.TransCmp.isLE_trans hab hbc

theorem OrderOn.lt_of_lt_of_isLE (h : OrderOn S cmp) {a b c : α} (ha : S a) (hb : S b)
    (hc : S c) (hab : cmp a b = .lt) (hbc : (cmp b c).isLE = true) : cmp a c = .lt := by
  obtain ⟨order, horder, hcmp⟩ := h
  rw [hcmp a b ha hb] at hab
  rw [hcmp b c hb hc] at hbc
  rw [hcmp a c ha hc]
  exact Std.TransCmp.lt_of_lt_of_isLE hab hbc

theorem OrderOn.isLE_of_not_lt (h : OrderOn S cmp) {a b : α} (ha : S a) (hb : S b)
    (hlt : ¬ cmp a b = .lt) : (cmp b a).isLE = true := by
  rw [h.eq_swap hb ha]
  cases hcmp : cmp a b with
  | lt => exact absurd hcmp hlt
  | eq => rfl
  | gt => rfl

theorem OrderOn.eq_of_isLE (h : OrderOn S cmp) {a b : α} (ha : S a) (hb : S b)
    (hab : (cmp a b).isLE = true) (hba : (cmp b a).isLE = true) : cmp a b = .eq := by
  rw [h.eq_swap hb ha] at hba
  cases hcmp : cmp a b with
  | lt => simp [hcmp] at hba
  | eq => rfl
  | gt => simp [hcmp] at hab

/-- Where ties are equal, the sorted list does not depend on the order. -/
theorem OrderOn.sort_eq_of_perm (h : OrderOn S cmp) {l l' : List α} (hS : ∀ a ∈ l, S a)
    (hperm : l.Perm l') (heq : ∀ a ∈ l, ∀ b ∈ l, cmp a b = .eq → a = b) :
    (l.mergeSort fun a b => cmp a b != .gt) = l'.mergeSort fun a b => cmp a b != .gt := by
  obtain ⟨order, horder, hcmp⟩ := h
  have hS' : ∀ a ∈ l', S a := fun a ha => hS a (hperm.mem_iff.mpr ha)
  rw [mergeSort_congr fun a ha b hb => hcmp a b (hS a ha) (hS b hb),
    mergeSort_congr fun a ha b hb => hcmp a b (hS' a ha) (hS' b hb)]
  refine Comparator.sort_eq_of_perm hperm fun a ha b hb hab => heq a ha b hb ?_
  rw [hcmp a b (hS a ha) (hS b hb)]
  exact hab

theorem orderOn_compare [LinearOrder β] (f : α → β) :
    OrderOn S fun a b => compare (f a) (f b) :=
  OrderOn.of_transCmp (transCmp_comap compare f)

theorem orderOn_compare_flip [LinearOrder β] (f : α → β) :
    OrderOn S fun a b => compare (f b) (f a) :=
  (orderOn_compare f).flip

/-- Cross multiplication is the order of the ratios. -/
theorem compare_cross_mul {a b c d : ℤ} (hb : 0 < b) (hd : 0 < d) :
    compare (a * d) (c * b) = compare ((a : ℚ) / b) ((c : ℚ) / d) := by
  have hb' : (0 : ℚ) < b := by exact_mod_cast hb
  have hd' : (0 : ℚ) < d := by exact_mod_cast hd
  refine compare_congr ?_ ?_
  · rw [div_lt_div_iff₀ hb' hd']
    exact_mod_cast Iff.rfl
  · rw [div_lt_div_iff₀ hd' hb']
    exact_mod_cast Iff.rfl

theorem orderOn_cross_mul (numerator denominator : α → ℤ)
    (hpos : ∀ a, S a → 0 < denominator a) :
    OrderOn S fun a b => compare (numerator a * denominator b)
      (numerator b * denominator a) :=
  (orderOn_compare fun a => (numerator a : ℚ) / denominator a).congr
    fun a b ha hb => compare_cross_mul (hpos a ha) (hpos b hb)

/-- Sorting ranks alike whatever the order. -/
theorem OrderOn.forall₂_sort_of_perm (h : OrderOn S cmp) {l l' : List α}
    (hS : ∀ a ∈ l, S a) (hperm : l.Perm l') :
    List.Forall₂ (fun a b => cmp a b = .eq)
      (l.mergeSort fun a b => cmp a b != .gt) (l'.mergeSort fun a b => cmp a b != .gt) := by
  obtain ⟨order, horder, hcmp⟩ := h
  have hS' : ∀ a ∈ l', S a := fun a ha => hS a (hperm.mem_iff.mpr ha)
  rw [mergeSort_congr fun a ha b hb => hcmp a b (hS a ha) (hS b hb),
    mergeSort_congr fun a ha b hb => hcmp a b (hS' a ha) (hS' b hb)]
  have hties : List.Forall₂ (fun a b => order a b = .eq)
      (l.mergeSort fun a b => order a b != .gt) (l'.mergeSort fun a b => order a b != .gt) :=
    forall₂_eq_of_perm
      ((List.mergeSort_perm l _).trans (hperm.trans (List.mergeSort_perm l' _).symm))
      (pairwise_sort l) (pairwise_sort l')
  refine List.forall₂_iff_get.mpr ⟨hties.length_eq, fun i hi hi' => ?_⟩
  rw [hcmp _ _ (hS _ (List.mem_mergeSort.mp (List.get_mem _ _)))
    (hS' _ (List.mem_mergeSort.mp (List.get_mem _ _)))]
  exact hties.get hi hi'

end

/-! ## §4  The least of each key -/

variable [DecidableEq κ]

/-- Keep the better element under each key, the earlier of equals. -/
def insertBest (cmp : α → α → Ordering) (key : α → κ) (best : AList fun _ : κ => α) (a : α) :
    AList fun _ : κ => α :=
  match best.lookup (key a) with
  | none => best.insert (key a) a
  | some existing => if cmp a existing = .lt then best.insert (key a) a else best

/-- The map holds a least element of every key it has seen. -/
structure Best (cmp : α → α → Ordering) (key : α → κ) (seen : List α)
    (best : AList fun _ : κ => α) : Prop where
  key_eq : ∀ k a, best.lookup k = some a → key a = k
  mem : ∀ k a, best.lookup k = some a → a ∈ seen
  least : ∀ a ∈ seen, ∃ b, best.lookup (key a) = some b ∧ (cmp b a).isLE = true

variable {key : α → κ} {seen : List α} {best : AList fun _ : κ => α}

theorem best_empty : Best cmp key [] (∅ : AList fun _ : κ => α) where
  key_eq k a h := by simp at h
  mem k a h := by simp at h
  least a ha := absurd ha List.not_mem_nil

/-- The map with one element stored, where that element is not after the one it
replaces. -/
theorem Best.insert [Std.TransCmp cmp] (h : Best cmp key seen best) {a : α}
    (hle : ∀ b, best.lookup (key a) = some b → (cmp a b).isLE = true) :
    Best cmp key (seen ++ [a]) (best.insert (key a) a) where
  key_eq k b hb := by
    by_cases hk : k = key a
    · subst hk
      rw [AList.lookup_insert] at hb
      rw [← Option.some.inj hb]
    · rw [AList.lookup_insert_ne hk] at hb
      exact h.key_eq k b hb
  mem k b hb := by
    by_cases hk : k = key a
    · subst hk
      rw [AList.lookup_insert] at hb
      simp [← Option.some.inj hb]
    · rw [AList.lookup_insert_ne hk] at hb
      exact List.mem_append_left _ (h.mem k b hb)
  least b hb := by
    rcases List.mem_append.mp hb with hb | hb
    · obtain ⟨c, hc, hcb⟩ := h.least b hb
      by_cases hk : key b = key a
      · rw [hk] at hc ⊢
        exact ⟨a, AList.lookup_insert best, Std.TransCmp.isLE_trans (hle c hc) hcb⟩
      · exact ⟨c, (AList.lookup_insert_ne hk).trans hc, hcb⟩
    · obtain rfl := List.mem_singleton.mp hb
      exact ⟨b, AList.lookup_insert best, cmp_self_isLE cmp b⟩

theorem Best.insertBest [Std.TransCmp cmp] (h : Best cmp key seen best) (a : α) :
    Best cmp key (seen ++ [a]) (insertBest cmp key best a) := by
  unfold Comparator.insertBest
  split
  · next hnone =>
    refine h.insert fun b hb => ?_
    rw [hnone] at hb
    exact absurd hb (by simp)
  · next existing hexisting =>
    split
    · next hlt =>
      refine h.insert fun b hb => ?_
      obtain rfl := Option.some.inj (hexisting.symm.trans hb)
      rw [hlt]
      rfl
    · next hlt =>
      refine ⟨h.key_eq, fun k b hb => List.mem_append_left _ (h.mem k b hb), fun b hb => ?_⟩
      rcases List.mem_append.mp hb with hb | hb
      · exact h.least b hb
      · obtain rfl := List.mem_singleton.mp hb
        refine ⟨existing, hexisting, ?_⟩
        rw [cmp_eq_swap cmp]
        cases hcmp : cmp b existing with
        | lt => exact absurd hcmp hlt
        | eq => rfl
        | gt => rfl

/-- **A run of insertions holds the least of each key.** -/
theorem best_foldl [Std.TransCmp cmp] (as : List α) :
    Best cmp key as (as.foldl (Comparator.insertBest cmp key) ∅) := by
  have hrun : ∀ (as seen : List α) (best : AList fun _ : κ => α), Best cmp key seen best →
      Best cmp key (seen ++ as) (as.foldl (Comparator.insertBest cmp key) best) := by
    intro as
    induction as with
    | nil =>
        intro seen best h
        rwa [List.append_nil]
    | cons a as ih =>
        intro seen best h
        have hnext := ih _ _ (h.insertBest a)
        rwa [List.append_assoc] at hnext
  exact hrun as [] ∅ best_empty

/-- A sorted list of the elements seen, one of each key and that one a least. -/
structure RankedBest (cmp : α → α → Ordering) (key : α → κ) (seen ranked : List α) : Prop where
  sorted : ranked.Pairwise fun a b => (cmp a b).isLE = true
  keys_nodup : (ranked.map key).Nodup
  mem : ∀ a ∈ ranked, a ∈ seen
  exists_key : ∀ a ∈ seen, ∃ b ∈ ranked, key b = key a
  least : ∀ b ∈ ranked, ∀ a ∈ seen, key a = key b → (cmp b a).isLE = true

/-- The elements of the map, in the order it is listed. -/
def values (best : AList fun _ : κ => α) : List α := best.entries.map fun entry => entry.2

theorem mem_values {a : α} : a ∈ values best ↔ ∃ k, best.lookup k = some a := by
  constructor
  · intro ha
    obtain ⟨entry, hentry, rfl⟩ := List.mem_map.mp ha
    exact ⟨entry.1, AList.mem_lookup_iff.mpr hentry⟩
  · rintro ⟨k, hk⟩
    exact List.mem_map.mpr ⟨⟨k, a⟩, AList.mem_lookup_iff.mp hk, rfl⟩

theorem Best.map_key_values (h : Best cmp key seen best) :
    (values best).map key = best.keys := by
  unfold values AList.keys
  rw [List.map_map]
  refine List.map_congr_left fun entry hentry => ?_
  exact h.key_eq entry.1 entry.2 (AList.mem_lookup_iff.mpr hentry)

/-- **In whatever order the map is listed**, sorting it ranks the least of each
key. -/
theorem Best.rankedBest [Std.TransCmp cmp] (h : Best cmp key seen best) {order : List α}
    (horder : order.Perm (values best)) :
    RankedBest cmp key seen (order.mergeSort fun a b => cmp a b != .gt) := by
  have hmem : ∀ a, a ∈ (order.mergeSort fun a b => cmp a b != .gt) ↔
      ∃ k, best.lookup k = some a := fun a =>
    List.mem_mergeSort.trans (horder.mem_iff.trans mem_values)
  refine ⟨pairwise_sort order, ?_, ?_, ?_, ?_⟩
  · have hperm := ((List.mergeSort_perm order fun a b => cmp a b != .gt).trans horder).map key
    rw [h.map_key_values] at hperm
    exact hperm.nodup_iff.mpr best.keys_nodup
  · intro a ha
    obtain ⟨k, hk⟩ := (hmem a).mp ha
    exact h.mem k a hk
  · intro a ha
    obtain ⟨b, hb, -⟩ := h.least a ha
    exact ⟨b, (hmem b).mpr ⟨_, hb⟩, h.key_eq _ b hb⟩
  · intro b hb a ha hkey
    obtain ⟨k, hk⟩ := (hmem b).mp hb
    obtain ⟨c, hc, hca⟩ := h.least a ha
    rw [hkey, h.key_eq k b hk, hk] at hc
    obtain rfl := Option.some.inj hc
    exact hca

/-- **The sorted list does not depend on the order the map is listed in.** -/
theorem Best.sort_eq [Std.TransCmp cmp] (h : Best cmp key seen best)
    (hkey : ∀ a b, cmp a b = .eq → key a = key b) {order : List α}
    (horder : order.Perm (values best)) :
    (order.mergeSort fun a b => cmp a b != .gt) =
      (values best).mergeSort fun a b => cmp a b != .gt := by
  refine sort_eq_of_perm horder fun a ha b hb heq => ?_
  obtain ⟨k, hk⟩ := mem_values.mp (horder.mem_iff.mp ha)
  obtain ⟨k', hk'⟩ := mem_values.mp (horder.mem_iff.mp hb)
  have hkk : k = k' := by
    rw [← h.key_eq k a hk, ← h.key_eq k' b hk', hkey a b heq]
  rw [hkk] at hk
  exact Option.some.inj (hk.symm.trans hk')

end Comparator
