import PolygonNesting.Lib.Comparator

/-!
# Stable sorting

A stable sort keeps elements that tie in their order.  Two lists are sorted into the same
list exactly when every class of ties has the same elements in the same order.
-/

namespace Comparator

variable {α : Type} {cmp : α → α → Ordering}

/-- The elements that tie with one. -/
def ties (cmp : α → α → Ordering) (a : α) (l : List α) : List α :=
  l.filter fun b => cmp a b == .eq

theorem mem_ties {a b : α} {l : List α} : b ∈ ties cmp a l ↔ b ∈ l ∧ cmp a b = .eq := by
  unfold ties
  rw [List.mem_filter, beq_iff_eq]

theorem ties_cons (a b : α) (l : List α) :
    ties cmp a (b :: l) = if cmp a b = .eq then b :: ties cmp a l else ties cmp a l := by
  unfold ties
  rw [List.filter_cons]
  simp only [beq_iff_eq]

variable [Std.TransCmp cmp]

theorem pairwise_ties (a : α) (l : List α) :
    (ties cmp a l).Pairwise fun b c => (cmp b c != .gt) = true := by
  rw [List.pairwise_iff_forall_sublist]
  intro b c hsub
  have hb := (mem_ties.1 (hsub.subset (List.mem_cons_self))).2
  have hc := (mem_ties.1 (hsub.subset (List.mem_cons_of_mem _ List.mem_cons_self))).2
  have htie : cmp b c = .eq := by
    rw [← Std.TransCmp.congr_left hb]
    exact hc
  rw [htie]
  rfl

/-- Sorting keeps the order of ties. -/
theorem ties_mergeSort (a : α) (l : List α) :
    ties cmp a (l.mergeSort fun b c => cmp b c != .gt) = ties cmp a l := by
  have htrans : ∀ b c d : α, (cmp b c != .gt) = true → (cmp c d != .gt) = true →
      (cmp b d != .gt) = true := fun b c d hbc hcd =>
    ne_gt_iff.mpr (Std.TransCmp.isLE_trans (ne_gt_iff.mp hbc) (ne_gt_iff.mp hcd))
  have htotal : ∀ b c : α, (cmp b c != .gt || cmp c b != .gt) = true := by
    intro b c
    rw [cmp_eq_swap cmp b c]
    cases cmp c b <;> rfl
  have hsub : (ties cmp a l).Sublist (l.mergeSort fun b c => cmp b c != .gt) :=
    List.sublist_mergeSort htrans htotal (pairwise_ties a l) List.filter_sublist
  have hkept : ties cmp a (ties cmp a l) = ties cmp a l := by
    unfold ties
    rw [List.filter_filter]
    simp only [Bool.and_self]
  have hties : (ties cmp a l).Sublist (ties cmp a (l.mergeSort fun b c => cmp b c != .gt)) := by
    rw [← hkept]
    exact hsub.filter _
  exact (hties.eq_of_length ((List.mergeSort_perm l _).filter _).length_eq.symm).symm

/-- Sorted lists with the same ties are the same. -/
theorem eq_of_ties_eq {l : List α} : ∀ {l' : List α},
    (l.Pairwise fun b c => (cmp b c).isLE = true) →
    (l'.Pairwise fun b c => (cmp b c).isLE = true) →
    (∀ a, ties cmp a l = ties cmp a l') → l = l' := by
  have hself : ∀ {a : α} {l : List α}, a ∈ l → a ∈ ties cmp a l := fun h =>
    mem_ties.2 ⟨h, cmp_self cmp _⟩
  induction l with
  | nil =>
      intro l' _ _ h
      cases l' with
      | nil => rfl
      | cons b l' =>
          have hb := hself (show b ∈ b :: l' from List.mem_cons_self)
          rw [← h b] at hb
          cases hb
  | cons a l ih =>
      intro l' hl hl' h
      cases l' with
      | nil =>
          have ha := hself (show a ∈ a :: l from List.mem_cons_self)
          rw [h a] at ha
          cases ha
      | cons b l' =>
          -- the heads are least in both lists, so they tie, and the first of their ties are equal
          obtain ⟨ha, hrest⟩ := List.pairwise_cons.1 hl
          obtain ⟨hb, hrest'⟩ := List.pairwise_cons.1 hl'
          have hle : ∀ {c : α} {m : List α}, (∀ d ∈ m, (cmp c d).isLE = true) →
              ∀ d ∈ c :: m, (cmp c d).isLE = true := by
            intro c m hm d hd
            rcases List.mem_cons.1 hd with rfl | hd
            · exact cmp_self_isLE cmp d
            · exact hm d hd
          have hab : (cmp a b).isLE = true := by
            have hmem := hself (show b ∈ b :: l' from List.mem_cons_self)
            rw [← h b] at hmem
            exact hle ha b (mem_ties.1 hmem).1
          have hba : (cmp b a).isLE = true := by
            have hmem := hself (show a ∈ a :: l from List.mem_cons_self)
            rw [h a] at hmem
            exact hle hb a (mem_ties.1 hmem).1
          have htie : cmp a b = .eq := Std.OrientedCmp.isLE_antisymm hab hba
          have hhead := h a
          rw [ties_cons, ties_cons, if_pos (cmp_self cmp a), if_pos htie] at hhead
          obtain ⟨rfl, -⟩ := List.cons.inj hhead
          refine congrArg (a :: ·) (ih hrest hrest' fun c => ?_)
          have hc := h c
          rw [ties_cons, ties_cons] at hc
          split at hc
          · exact (List.cons.inj hc).2
          · exact hc

/-- **A sorted list shows the ties of the list, and nothing else.** -/
theorem mergeSort_eq_iff {l l' : List α} :
    l.mergeSort (fun b c => cmp b c != .gt) = l'.mergeSort (fun b c => cmp b c != .gt) ↔
      ∀ a, ties cmp a l = ties cmp a l' := by
  constructor
  · intro h a
    rw [← ties_mergeSort, h, ties_mergeSort]
  · intro h
    refine eq_of_ties_eq (pairwise_sort l) (pairwise_sort l') fun a => ?_
    rw [ties_mergeSort, ties_mergeSort, h]

end Comparator
