import Mathlib.Data.Finite.Defs
import Mathlib.Data.List.Perm.Basic
import Mathlib.Data.Set.Finite.Basic
import Mathlib.Data.Set.Finite.List
import Mathlib.Logic.Relation
import Mathlib.Order.WellFounded
import PolygonNesting.Lib.Comparator

/-!
# Peeling undominated fronts

A list is ranked by taking off its undominated elements, front after front.  Each front
is put in order by several comparators in turn, each of which takes the least of what is
left.  Where domination has no cycle every round finds a front, and nothing is ranked
before what dominates it.  Where the comparators never tie, the ranking does not depend
on the order of the list.
-/

namespace ParetoPeeling

variable {α : Type}

/-! ## §1  Fronts -/

section Fronts

variable (dominates : α → α → Bool)

/-- The elements that none at another position dominates, with their positions. -/
def frontEntries (remaining : List α) : List (α × ℕ) :=
  remaining.zipIdx.filter fun entry =>
    !remaining.zipIdx.any fun other => other.2 != entry.2 && dominates other.1 entry.1

def front (remaining : List α) : List α := (frontEntries dominates remaining).map Prod.fst

/-- What is left without the front. -/
def rest (remaining : List α) : List α :=
  (remaining.zipIdx.filter fun entry =>
    !((frontEntries dominates remaining).map Prod.snd).contains entry.2).map Prod.fst

/-- Domination along members of the list. -/
def DominatesIn (l : List α) (a b : α) : Prop := a ∈ l ∧ b ∈ l ∧ dominates a b = true

def Acyclic (l : List α) : Prop := ∀ a, ¬ Relation.TransGen (DominatesIn dominates l) a a

variable {dominates}

/-- A position holds one element. -/
theorem eq_of_snd_eq {l : List α} {entry other : α × ℕ} (hentry : entry ∈ l.zipIdx)
    (hother : other ∈ l.zipIdx) (h : other.2 = entry.2) : other = entry := by
  have hget := List.mem_zipIdx_iff_getElem?.mp hentry
  have hget' := List.mem_zipIdx_iff_getElem?.mp hother
  rw [h, hget] at hget'
  exact Prod.ext (Option.some.inj hget').symm h

theorem filter_zipIdx_map_fst (l : List α) (p : α → Bool) :
    (l.zipIdx.filter fun entry => p entry.1).map Prod.fst = l.filter p := by
  conv_rhs => rw [← List.zipIdx_map_fst 0 l]
  rw [List.filter_map]
  rfl

/-- An element does not dominate itself, so positions do not matter. -/
theorem frontEntries_eq (hirrefl : ∀ a, dominates a a = false) (l : List α) :
    frontEntries dominates l =
      l.zipIdx.filter fun entry => !l.any fun other => dominates other entry.1 := by
  refine List.filter_congr fun entry hentry => congrArg _ (Bool.eq_iff_iff.mpr ?_)
  rw [List.any_eq_true, List.any_eq_true]
  constructor
  · rintro ⟨other, hother, h⟩
    exact ⟨other.1, List.fst_mem_of_mem_zipIdx hother, ((Bool.and_eq_true _ _).mp h).2⟩
  · rintro ⟨other, hother, h⟩
    obtain ⟨index, hindex⟩ := List.mem_iff_getElem?.mp hother
    have hmem : (other, index) ∈ l.zipIdx := List.mem_zipIdx_iff_getElem?.mpr hindex
    refine ⟨(other, index), hmem, (Bool.and_eq_true _ _).mpr ⟨bne_iff_ne.mpr fun heq => ?_, h⟩⟩
    rw [← eq_of_snd_eq hentry hmem heq, hirrefl] at h
    cases h

theorem front_eq (hirrefl : ∀ a, dominates a a = false) (l : List α) :
    front dominates l = l.filter fun a => !l.any fun other => dominates other a := by
  unfold front
  rw [frontEntries_eq hirrefl]
  exact filter_zipIdx_map_fst l fun a => !l.any fun other => dominates other a

theorem rest_eq (hirrefl : ∀ a, dominates a a = false) (l : List α) :
    rest dominates l = l.filter fun a => l.any fun other => dominates other a := by
  unfold rest
  rw [← filter_zipIdx_map_fst l fun a => l.any fun other => dominates other a]
  refine congrArg _ (List.filter_congr fun entry hentry => ?_)
  rw [frontEntries_eq hirrefl, ← Bool.not_not (l.any fun other => dominates other entry.1)]
  refine congrArg _ (Bool.eq_iff_iff.mpr ?_)
  rw [List.contains_iff_mem, List.mem_map]
  constructor
  · rintro ⟨other, hother, heq⟩
    obtain ⟨hother, h⟩ := List.mem_filter.mp hother
    rwa [← eq_of_snd_eq hentry hother heq]
  · intro h
    exact ⟨entry, List.mem_filter.mpr ⟨hentry, h⟩, rfl⟩

theorem mem_front (hirrefl : ∀ a, dominates a a = false) {l : List α} {a : α} :
    a ∈ front dominates l ↔ a ∈ l ∧ ∀ other ∈ l, dominates other a = false := by
  rw [front_eq hirrefl]
  simp

theorem front_append_rest (hirrefl : ∀ a, dominates a a = false) (l : List α) :
    (front dominates l ++ rest dominates l).Perm l := by
  rw [front_eq hirrefl, rest_eq hirrefl]
  have h := List.filter_append_perm (fun a => !l.any fun other => dominates other a) l
  simpa only [Bool.not_not] using h

theorem length_rest_lt (hirrefl : ∀ a, dominates a a = false) {l : List α}
    (h : front dominates l ≠ []) : (rest dominates l).length < l.length := by
  rw [← (front_append_rest hirrefl l).length_eq, List.length_append]
  have hpos := List.length_pos_iff.mpr h
  omega

theorem rest_subset (hirrefl : ∀ a, dominates a a = false) (l : List α) :
    rest dominates l ⊆ l := by
  rw [rest_eq hirrefl]
  exact List.filter_subset_self l

theorem Acyclic.subset {l l' : List α} (h : Acyclic dominates l) (hsub : l' ⊆ l) :
    Acyclic dominates l' := fun a hcycle =>
  h a (Relation.TransGen.lift id (fun _ _ hdominates =>
    ⟨hsub hdominates.1, hsub hdominates.2.1, hdominates.2.2⟩) a a hcycle)

/-- A domination that is transitive has no cycle. -/
theorem acyclic_of_trans {l : List α} (hirrefl : ∀ a, dominates a a = false)
    (htrans : ∀ a ∈ l, ∀ b ∈ l, ∀ c ∈ l, dominates a b = true → dominates b c = true →
      dominates a c = true) : Acyclic dominates l := by
  intro a hcycle
  have hstep : ∀ b, Relation.TransGen (DominatesIn dominates l) a b →
      DominatesIn dominates l a b := by
    intro b hpath
    induction hpath with
    | single h => exact h
    | tail _ h ih =>
        exact ⟨ih.1, h.2.1, htrans _ ih.1 _ h.1 _ h.2.1 ih.2.2 h.2.2⟩
  have hself := (hstep a hcycle).2.2
  rw [hirrefl] at hself
  cases hself

/-- **Without a cycle some element is undominated.** -/
theorem front_ne_nil (hirrefl : ∀ a, dominates a a = false) {l : List α}
    (hacyclic : Acyclic dominates l) (hne : l ≠ []) : front dominates l ≠ [] := by
  have hfinite : Finite {a // a ∈ l} := l.finite_toSet
  let before (a b : {a // a ∈ l}) : Prop :=
    Relation.TransGen (DominatesIn dominates l) a.1 b.1
  have htrans : IsTrans _ before := ⟨fun _ _ _ => Relation.TransGen.trans⟩
  have hirr : Std.Irrefl before := ⟨fun a => hacyclic a.1⟩
  have hwf : WellFounded before := Finite.wellFounded_of_trans_of_irrefl before
  obtain ⟨a, ha⟩ := List.exists_mem_of_ne_nil l hne
  obtain ⟨least, -, hleast⟩ := hwf.has_min Set.univ ⟨⟨a, ha⟩, trivial⟩
  refine List.ne_nil_of_mem ((mem_front hirrefl).mpr ⟨least.2, fun other hother => ?_⟩)
  by_contra hdominates
  rw [Bool.not_eq_false] at hdominates
  exact hleast ⟨other, hother⟩ trivial (.single ⟨hother, least.2, hdominates⟩)

/-- The front of a list in another order. -/
theorem front_perm (hirrefl : ∀ a, dominates a a = false) {l l' : List α} (h : l.Perm l') :
    (front dominates l).Perm (front dominates l') := by
  rw [front_eq hirrefl, front_eq hirrefl]
  simp only [h.any_eq]
  exact h.filter _

theorem rest_perm (hirrefl : ∀ a, dominates a a = false) {l l' : List α} (h : l.Perm l') :
    (rest dominates l).Perm (rest dominates l') := by
  rw [rest_eq hirrefl, rest_eq hirrefl]
  simp only [h.any_eq]
  exact h.filter _

end Fronts

/-! ## §2  Peeling -/

section Peeling

variable (dominates : α → α → Bool) (order fallback : List α → List α)

/-- Front after front, each in order; where no front is found, what is left as
`fallback` puts it. -/
def peel : ℕ → List α → List α
  | 0, _ => []
  | fuel + 1, remaining =>
      if remaining.isEmpty then []
      else if (front dominates remaining).isEmpty then fallback remaining
      else order (front dominates remaining) ++ peel fuel (rest dominates remaining)

/-- What is left after some rounds. -/
inductive Peeled (l : List α) : List α → Prop
  | start : Peeled l l
  | round {remaining : List α} : Peeled l remaining → front dominates remaining ≠ [] →
      Peeled l (rest dominates remaining)

variable {dominates order fallback}

theorem Peeled.subset (hirrefl : ∀ a, dominates a a = false) {l remaining : List α}
    (h : Peeled dominates l remaining) : remaining ⊆ l := by
  induction h with
  | start => exact List.Subset.refl l
  | round _ _ ih => exact List.Subset.trans (rest_subset hirrefl _) ih

/-- **Without a cycle every round finds a front.** -/
theorem Peeled.front_ne_nil (hirrefl : ∀ a, dominates a a = false) {l remaining : List α}
    (hacyclic : Acyclic dominates l) (h : Peeled dominates l remaining)
    (hne : remaining ≠ []) : front dominates remaining ≠ [] :=
  ParetoPeeling.front_ne_nil hirrefl (hacyclic.subset (h.subset hirrefl)) hne

/-- **The ranking is a permutation**, whatever dominates what. -/
theorem peel_perm (hirrefl : ∀ a, dominates a a = false)
    (horder : ∀ l, (order l).Perm l) (hfallback : ∀ l, (fallback l).Perm l) :
    ∀ {fuel : ℕ} {l : List α}, l.length ≤ fuel →
      (peel dominates order fallback fuel l).Perm l
  | 0, l, h => by
      rw [List.length_eq_zero_iff.mp (Nat.le_zero.mp h)]
      exact .nil
  | fuel + 1, l, h => by
      unfold peel
      split
      · next hempty =>
        rw [List.isEmpty_iff.mp hempty]
      · split
        · exact hfallback l
        · next hfront =>
          have hlt := length_rest_lt hirrefl (mt List.isEmpty_iff.mpr hfront)
          have hrest := peel_perm hirrefl horder hfallback
            (Nat.le_of_lt_succ (hlt.trans_le h))
          exact ((horder _).append hrest).trans (front_append_rest hirrefl l)

/-- **Nothing is ranked before what dominates it.** -/
theorem peel_pairwise (hirrefl : ∀ a, dominates a a = false)
    (horder : ∀ l, (order l).Perm l) (hfallback : ∀ l, (fallback l).Perm l) :
    ∀ {fuel : ℕ} {l : List α}, l.length ≤ fuel → Acyclic dominates l →
      (peel dominates order fallback fuel l).Pairwise fun a b => dominates b a = false
  | 0, _, _, _ => .nil
  | fuel + 1, l, h, hacyclic => by
      unfold peel
      split
      · exact .nil
      · next hempty =>
        have hfront := front_ne_nil hirrefl hacyclic (mt List.isEmpty_iff.mpr hempty)
        rw [if_neg (mt List.isEmpty_iff.mp hfront)]
        have hrest := Nat.le_of_lt_succ ((length_rest_lt hirrefl hfront).trans_le h)
        have hsub := rest_subset hirrefl l
        refine List.pairwise_append.mpr ⟨?_, peel_pairwise hirrefl horder hfallback hrest
          (hacyclic.subset hsub), ?_⟩
        · refine List.pairwise_of_forall_mem_list fun a ha b hb => ?_
          have ha := (mem_front hirrefl).mp ((horder _).mem_iff.mp ha)
          have hb := (mem_front hirrefl).mp ((horder _).mem_iff.mp hb)
          exact ha.2 b hb.1
        · intro a ha b hb
          have ha := (mem_front hirrefl).mp ((horder _).mem_iff.mp ha)
          exact ha.2 b (hsub ((peel_perm hirrefl horder hfallback hrest).mem_iff.mp hb))

/-- **The ranking does not depend on the order of the list**, as far as putting a front
in order does not. -/
theorem peel_eq_of_perm (hirrefl : ∀ a, dominates a a = false) :
    ∀ {fuel : ℕ} {l l' : List α}, Acyclic dominates l →
      (∀ sub sub' : List α, sub.Subperm l → sub.Perm sub' → order sub = order sub') →
      l.Perm l' →
      peel dominates order fallback fuel l = peel dominates order fallback fuel l'
  | 0, _, _, _, _, _ => rfl
  | fuel + 1, l, l', hacyclic, horder, h => by
      unfold peel
      rw [h.isEmpty_eq]
      split
      · rfl
      · next hempty =>
        have hne : l ≠ [] := by
          rintro rfl
          exact hempty (by rw [← h.isEmpty_eq, List.isEmpty_nil])
        have hfront := front_ne_nil hirrefl hacyclic hne
        have hfront' : front dominates l' ≠ [] := by
          rw [Ne, ← List.isEmpty_iff, ← (front_perm hirrefl h).isEmpty_eq, List.isEmpty_iff]
          exact hfront
        rw [if_neg (mt List.isEmpty_iff.mp hfront), if_neg (mt List.isEmpty_iff.mp hfront')]
        have hparts := (front_append_rest hirrefl l).subperm
        have hfrontPart : (front dominates l).Subperm l :=
          (List.sublist_append_left _ _).subperm.trans hparts
        have hrestPart : (rest dominates l).Subperm l :=
          (List.sublist_append_right _ _).subperm.trans hparts
        rw [horder _ _ hfrontPart (front_perm hirrefl h),
          peel_eq_of_perm hirrefl (hacyclic.subset (rest_subset hirrefl l))
            (fun sub sub' hsub => horder sub sub' (hsub.trans hrestPart))
            (rest_perm hirrefl h)]

end Peeling

/-! ## §3  Selecting in turns -/

section Selecting

/-- The earlier entry, unless the later one is strictly less. -/
def keepLess (cmp : α → α → Ordering) (best entry : α × ℕ) : α × ℕ :=
  if cmp entry.1 best.1 = .lt then entry else best

/-- The least element and its position, by one scan. -/
def leastEntry (cmp : α → α → Ordering) (remaining : List α) : Option (α × ℕ) :=
  match remaining.zipIdx with
  | [] => none
  | first :: entries => some (entries.foldl (keepLess cmp) first)

/-- Each comparator takes its least of what is left, as long as something is left: what
was taken, and what is left. -/
def selectRound : List (α → α → Ordering) → List α → List α × List α
  | [], remaining => ([], remaining)
  | cmp :: cmps, remaining =>
      match leastEntry cmp remaining with
      | none => ([], remaining)
      | some selected =>
          let round := selectRound cmps (remaining.eraseIdx selected.2)
          (selected.1 :: round.1, round.2)

/-- Rounds until nothing is left, or a round takes nothing. -/
def selectInTurns (cmps : List (α → α → Ordering)) : ℕ → List α → List α
  | 0, _ => []
  | fuel + 1, remaining =>
      if remaining.isEmpty then []
      else
        let round := selectRound cmps remaining
        if round.1.isEmpty then [] else round.1 ++ selectInTurns cmps fuel round.2

theorem foldl_keepLess_mem (cmp : α → α → Ordering) :
    ∀ (entries : List (α × ℕ)) (first : α × ℕ),
      entries.foldl (keepLess cmp) first ∈ first :: entries
  | [], first => List.mem_singleton_self first
  | entry :: entries, first => by
      have hkept : keepLess cmp first entry = first ∨ keepLess cmp first entry = entry := by
        unfold keepLess
        split
        · exact .inr rfl
        · exact .inl rfl
      rw [List.foldl_cons]
      rcases List.mem_cons.mp (foldl_keepLess_mem cmp entries (keepLess cmp first entry)) with
        heq | hmem
      · rw [heq]
        rcases hkept with h | h <;> simp [h]
      · exact List.mem_cons_of_mem _ (List.mem_cons_of_mem _ hmem)

theorem leastEntry_eq_none {cmp : α → α → Ordering} {l : List α} :
    leastEntry cmp l = none ↔ l = [] := by
  unfold leastEntry
  cases l <;> simp

/-- The least element stands where it was found. -/
theorem getElem?_of_leastEntry {cmp : α → α → Ordering} {l : List α} {selected : α × ℕ}
    (h : leastEntry cmp l = some selected) : l[selected.2]? = some selected.1 := by
  unfold leastEntry at h
  split at h
  · cases h
  · next first entries heq =>
    have hmem := foldl_keepLess_mem cmp entries first
    rw [Option.some.inj h, ← heq] at hmem
    exact List.mem_zipIdx_iff_getElem?.mp hmem

theorem cons_eraseIdx_perm {l : List α} {a : α} {index : ℕ} (h : l[index]? = some a) :
    (a :: l.eraseIdx index).Perm l := by
  obtain ⟨hlt, rfl⟩ := List.getElem?_eq_some_iff.mp h
  exact List.getElem_cons_eraseIdx_perm hlt

/-- What a round takes and what it leaves. -/
theorem selectRound_perm : ∀ (cmps : List (α → α → Ordering)) (l : List α),
    ((selectRound cmps l).1 ++ (selectRound cmps l).2).Perm l
  | [], l => .refl l
  | cmp :: cmps, l => by
      unfold selectRound
      split
      · exact .refl l
      · next selected h =>
        exact ((selectRound_perm cmps _).cons _).trans
          (cons_eraseIdx_perm (getElem?_of_leastEntry h))

theorem selectRound_fst_ne_nil {cmps : List (α → α → Ordering)} {l : List α}
    (hcmps : cmps ≠ []) (hl : l ≠ []) : (selectRound cmps l).1 ≠ [] := by
  cases cmps with
  | nil => exact absurd rfl hcmps
  | cons cmp cmps =>
      unfold selectRound
      split
      · next h => exact absurd (leastEntry_eq_none.mp h) hl
      · exact List.cons_ne_nil _ _

/-- **Selecting in turns takes everything.** -/
theorem selectInTurns_perm {cmps : List (α → α → Ordering)} (hcmps : cmps ≠ []) :
    ∀ {fuel : ℕ} {l : List α}, l.length ≤ fuel → (selectInTurns cmps fuel l).Perm l
  | 0, l, h => by
      rw [List.length_eq_zero_iff.mp (Nat.le_zero.mp h)]
      exact .nil
  | fuel + 1, l, h => by
      unfold selectInTurns
      split
      · next hempty =>
        rw [List.isEmpty_iff.mp hempty]
      · next hempty =>
        have htaken := selectRound_fst_ne_nil hcmps (mt List.isEmpty_iff.mpr hempty)
        have hround := selectRound_perm cmps l
        have hlength := hround.length_eq
        have hpos := List.length_pos_iff.mpr htaken
        rw [List.length_append] at hlength
        rw [if_neg (mt List.isEmpty_iff.mp htaken)]
        exact ((selectInTurns_perm hcmps (by omega)).append_left _).trans hround

/-- **The least of a consistent comparator.** -/
theorem isLE_of_foldl_keepLess {S : α → Prop} {cmp : α → α → Ordering}
    (hcmp : Comparator.OrderOn S cmp) :
    ∀ {entries : List (α × ℕ)} {first : α × ℕ}, (∀ entry ∈ first :: entries, S entry.1) →
      ∀ entry ∈ first :: entries,
        (cmp (entries.foldl (keepLess cmp) first).1 entry.1).isLE = true
  | [], first, hS, entry, hentry => by
      rw [List.mem_singleton.mp hentry]
      exact hcmp.self_isLE (hS first List.mem_cons_self)
  | next :: entries, first, hS, entry, hentry => by
      have hfirst := hS first List.mem_cons_self
      have hnext := hS next (List.mem_cons_of_mem _ List.mem_cons_self)
      rw [List.foldl_cons]
      -- the kept entry is not after either of the two it was chosen from
      have hkept : S (keepLess cmp first next).1 ∧
          (cmp (keepLess cmp first next).1 first.1).isLE = true ∧
          (cmp (keepLess cmp first next).1 next.1).isLE = true := by
        unfold keepLess
        split
        · next hlt => exact ⟨hnext, by rw [hlt]; rfl, hcmp.self_isLE hnext⟩
        · next hlt =>
          refine ⟨hfirst, hcmp.self_isLE hfirst, ?_⟩
          exact hcmp.isLE_of_not_lt hnext hfirst hlt
      have hS' : ∀ other ∈ keepLess cmp first next :: entries, S other.1 := by
        intro other hother
        rcases List.mem_cons.mp hother with rfl | hother
        · exact hkept.1
        · exact hS other (List.mem_cons_of_mem _ (List.mem_cons_of_mem _ hother))
      have ih := isLE_of_foldl_keepLess hcmp hS'
      have hbest := hS' _ (foldl_keepLess_mem cmp entries (keepLess cmp first next))
      have hhead := ih _ List.mem_cons_self
      rcases List.mem_cons.mp hentry with rfl | hentry
      · exact hcmp.isLE_trans hbest hkept.1 hfirst hhead hkept.2.1
      · rcases List.mem_cons.mp hentry with rfl | hentry
        · exact hcmp.isLE_trans hbest hkept.1 hnext hhead hkept.2.2
        · exact ih _ (List.mem_cons_of_mem _ hentry)

theorem isLE_of_leastEntry {S : α → Prop} {cmp : α → α → Ordering}
    (hcmp : Comparator.OrderOn S cmp) {l : List α} (hS : ∀ a ∈ l, S a) {selected : α × ℕ}
    (h : leastEntry cmp l = some selected) : ∀ a ∈ l, (cmp selected.1 a).isLE = true := by
  intro a ha
  unfold leastEntry at h
  split at h
  · cases h
  · next first entries heq =>
    obtain ⟨index, hindex⟩ := List.mem_iff_getElem?.mp ha
    have hmem : (a, index) ∈ first :: entries := by
      rw [← heq]
      exact List.mem_zipIdx_iff_getElem?.mpr hindex
    rw [← Option.some.inj h]
    refine isLE_of_foldl_keepLess hcmp (fun entry hentry => ?_) (a, index) hmem
    rw [← heq] at hentry
    exact hS _ (List.fst_mem_of_mem_zipIdx hentry)

/-- What a round takes does not depend on the order of the list, what it leaves only in
its order. -/
theorem selectRound_of_perm {S : α → Prop} :
    ∀ {cmps : List (α → α → Ordering)} {l l' : List α},
      (∀ cmp ∈ cmps, Comparator.OrderOn S cmp) → (∀ a ∈ l, S a) →
      (∀ cmp ∈ cmps, ∀ a ∈ l, ∀ b ∈ l, cmp a b = .eq → a = b) → l.Perm l' →
      (selectRound cmps l).1 = (selectRound cmps l').1 ∧
        (selectRound cmps l).2.Perm (selectRound cmps l').2
  | [], _, _, _, _, _, h => ⟨rfl, h⟩
  | cmp :: cmps, l, l', hcmps, hS, heq, h => by
      have hcmp := hcmps cmp List.mem_cons_self
      have hS' : ∀ a ∈ l', S a := fun a ha => hS a (h.mem_iff.mpr ha)
      unfold selectRound
      cases hleast : leastEntry cmp l with
      | none =>
          obtain rfl := leastEntry_eq_none.mp hleast
          rw [List.nil_perm.mp h, leastEntry_eq_none.mpr rfl]
          exact ⟨rfl, .refl _⟩
      | some selected =>
          have hat := getElem?_of_leastEntry hleast
          have hmem := List.mem_of_getElem? hat
          cases hleast' : leastEntry cmp l' with
          | none =>
              rw [leastEntry_eq_none.mp hleast'] at h
              rw [List.perm_nil.mp h] at hmem
              cases hmem
          | some selected' =>
              have hat' := getElem?_of_leastEntry hleast'
              have hmem' := h.mem_iff.mpr (List.mem_of_getElem? hat')
              have hsame : selected.1 = selected'.1 :=
                heq cmp List.mem_cons_self _ hmem _ hmem'
                  (hcmp.eq_of_isLE (hS _ hmem) (hS _ hmem')
                    (isLE_of_leastEntry hcmp hS hleast _ hmem')
                    (isLE_of_leastEntry hcmp hS' hleast' _ (h.mem_iff.mp hmem)))
              have hrest : (l.eraseIdx selected.2).Perm (l'.eraseIdx selected'.2) := by
                refine List.Perm.cons_inv (a := selected.1) ?_
                refine (cons_eraseIdx_perm hat).trans (h.trans ?_)
                rw [hsame]
                exact (cons_eraseIdx_perm hat').symm
              have hsub : ∀ a ∈ l.eraseIdx selected.2, a ∈ l := fun a =>
                List.mem_of_mem_eraseIdx
              have ih := selectRound_of_perm
                (fun other hother => hcmps other (List.mem_cons_of_mem _ hother))
                (fun a ha => hS a (hsub a ha))
                (fun other hother a ha b hb =>
                  heq other (List.mem_cons_of_mem _ hother) a (hsub a ha) b (hsub b hb)) hrest
              dsimp only
              rw [hsame, ih.1]
              exact ⟨rfl, ih.2⟩

/-- **The selection does not depend on the order of the list**, where no two of its
elements tie. -/
theorem selectInTurns_eq_of_perm {S : α → Prop} {cmps : List (α → α → Ordering)}
    (hcmps : ∀ cmp ∈ cmps, Comparator.OrderOn S cmp) :
    ∀ {fuel : ℕ} {l l' : List α}, (∀ a ∈ l, S a) →
      (∀ cmp ∈ cmps, ∀ a ∈ l, ∀ b ∈ l, cmp a b = .eq → a = b) → l.Perm l' →
      selectInTurns cmps fuel l = selectInTurns cmps fuel l'
  | 0, _, _, _, _, _ => rfl
  | fuel + 1, l, l', hS, heq, h => by
      obtain ⟨htaken, hleft⟩ := selectRound_of_perm hcmps hS heq h
      have hsub : ∀ a ∈ (selectRound cmps l).2, a ∈ l := fun a ha =>
        (selectRound_perm cmps l).mem_iff.mp (List.mem_append_right _ ha)
      unfold selectInTurns
      dsimp only
      rw [h.isEmpty_eq, htaken, selectInTurns_eq_of_perm hcmps (fun a ha => hS a (hsub a ha))
        (fun cmp hcmp a ha b hb => heq cmp hcmp a (hsub a ha) b (hsub b hb)) hleft]

end Selecting

end ParetoPeeling
