import Mathlib.Data.List.Destutter
import Mathlib.Data.List.Rotate
import PolygonNesting.Lib.Comparator

/-!
# Where a cyclic list starts

Repeats next to each other are dropped, also around the end, and the list is read from the
first of its least elements.  Dropping repeats does not depend on where the list starts.
The reading does not either, exactly when the list goes on alike from each of its least
elements.
-/

namespace CyclicStart

variable {α : Type}

/-! ## §1  Repeats -/

section Repeats

variable [DecidableEq α]

/-- Without repeats next to each other; of a closed list the last element is next to the
first. -/
def stripDuplicates (path : List α) (isClosedPath : Bool) : List α :=
  let result := path.destutter (· ≠ ·)
  if isClosedPath && result.getLast? == result.head? then result.dropLast else result

theorem head?_destutter' (a : α) (l : List α) :
    (l.destutter' (· ≠ ·) a).head? = some a := by
  induction l generalizing a with
  | nil => rfl
  | cons b l ih =>
      by_cases h : a ≠ b
      · rw [List.destutter'_cons_pos l h]
        rfl
      · rw [List.destutter'_cons_neg l h, ih]

theorem getLast?_destutter' (a : α) (l : List α) :
    (l.destutter' (· ≠ ·) a).getLast? = (a :: l).getLast? := by
  induction l generalizing a with
  | nil => rfl
  | cons b l ih =>
      by_cases h : a ≠ b
      · rw [List.destutter'_cons_pos l h, List.getLast?_cons, ih, List.getLast?_cons_cons,
          List.getLast?_cons]
        rfl
      · rw [List.destutter'_cons_neg l h, ih, List.getLast?_cons_cons, not_not.1 h]

/-- One more element at the end. -/
theorem destutter'_concat (a b : α) (l : List α) :
    (l ++ [b]).destutter' (· ≠ ·) a =
      if (a :: l).getLast? = some b then l.destutter' (· ≠ ·) a
      else l.destutter' (· ≠ ·) a ++ [b] := by
  induction l generalizing a with
  | nil =>
      by_cases h : a = b
      · simp [h]
      · simp [h]
  | cons c l ih =>
      rw [List.cons_append, List.getLast?_cons_cons]
      by_cases h : a ≠ c
      · rw [List.destutter'_cons_pos _ h, ih, List.destutter'_cons_pos _ h]
        split <;> rfl
      · rw [List.destutter'_cons_neg _ h, ih, List.destutter'_cons_neg _ h, not_not.1 h]

theorem stripDuplicates_of_ne {path : List α}
    (h : (path.destutter (· ≠ ·)).getLast? ≠ (path.destutter (· ≠ ·)).head?) :
    stripDuplicates path true = path.destutter (· ≠ ·) := by
  unfold stripDuplicates
  simp [h]

theorem stripDuplicates_of_eq {path : List α}
    (h : (path.destutter (· ≠ ·)).getLast? = (path.destutter (· ≠ ·)).head?) :
    stripDuplicates path true = (path.destutter (· ≠ ·)).dropLast := by
  unfold stripDuplicates
  simp [h]

/-- A repeat may as well stand at the end. -/
theorem stripDuplicates_repeat (a : α) (rest : List α) :
    stripDuplicates (a :: rest ++ [a]) true = stripDuplicates (a :: a :: rest) true := by
  have hhead := head?_destutter' a rest
  have hlast := getLast?_destutter' a rest
  have hrepeat : (a :: a :: rest).destutter (· ≠ ·) = rest.destutter' (· ≠ ·) a :=
    List.destutter'_cons_neg rest (not_not.2 rfl)
  have hend : (a :: rest ++ [a]).destutter (· ≠ ·) = _ := destutter'_concat a a rest
  by_cases h : (a :: rest).getLast? = some a
  · rw [if_pos h] at hend
    have hsame : (rest.destutter' (· ≠ ·) a).getLast? = (rest.destutter' (· ≠ ·) a).head? := by
      rw [hlast, hhead, h]
    rw [stripDuplicates_of_eq (by rwa [hend]), stripDuplicates_of_eq (by rwa [hrepeat]), hend,
      hrepeat]
  · rw [if_neg h] at hend
    have hsame : (rest.destutter' (· ≠ ·) a ++ [a]).getLast? =
        (rest.destutter' (· ≠ ·) a ++ [a]).head? := by
      rw [List.getLast?_concat, List.head?_append, hhead]
      rfl
    rw [stripDuplicates_of_eq (by rwa [hend]), hend, List.dropLast_concat,
      stripDuplicates_of_ne, hrepeat]
    rw [hrepeat, hlast, hhead]
    exact h

/-- Reading on by one element that is not repeated. -/
theorem stripDuplicates_step {a b : α} (h : a ≠ b) (rest : List α) :
    stripDuplicates (b :: rest ++ [a]) true =
      (stripDuplicates (a :: b :: rest) true).rotate 1 := by
  have hhead := head?_destutter' b rest
  have hlast := getLast?_destutter' b rest
  have hfirst : (a :: b :: rest).destutter (· ≠ ·) = a :: rest.destutter' (· ≠ ·) b :=
    List.destutter'_cons_pos rest h
  have hend : (b :: rest ++ [a]).destutter (· ≠ ·) = _ := destutter'_concat b a rest
  have hne : rest.destutter' (· ≠ ·) b ≠ [] := by
    intro hnil
    rw [hnil] at hhead
    cases hhead
  by_cases ha : (b :: rest).getLast? = some a
  · rw [if_pos ha] at hend
    have hclosed : (rest.destutter' (· ≠ ·) b).getLast? = some a := hlast.trans ha
    have hopen : (rest.destutter' (· ≠ ·) b).getLast? ≠ (rest.destutter' (· ≠ ·) b).head? := by
      rw [hclosed, hhead]
      exact fun hsome => h (Option.some.inj hsome)
    have hjoin : (rest.destutter' (· ≠ ·) b).dropLast ++ [a] = rest.destutter' (· ≠ ·) b :=
      List.dropLast_append_getLast? a hclosed
    rw [stripDuplicates_of_ne (by rwa [hend]), hend, stripDuplicates_of_eq, hfirst,
      List.dropLast_cons_of_ne_nil hne, List.rotate_cons_succ, List.rotate_zero, hjoin]
    rw [hfirst, List.head?_cons, List.getLast?_cons, hclosed]
    rfl
  · rw [if_neg ha] at hend
    rw [stripDuplicates_of_ne, hend, stripDuplicates_of_ne, hfirst, List.rotate_cons_succ,
      List.rotate_zero]
    · rw [hfirst, List.head?_cons, List.getLast?_cons, hlast, List.getLast?_cons]
      intro hsome
      apply ha
      rw [List.getLast?_cons]
      simpa using hsome
    · rw [hend, List.getLast?_concat, List.head?_append, hhead]
      exact fun hsome => h (Option.some.inj hsome)

/-- **Dropping repeats commutes with the choice of a start.** -/
theorem stripDuplicates_isRotated {path path' : List α} (h : path ~r path') :
    stripDuplicates path true ~r stripDuplicates path' true := by
  obtain ⟨n, rfl⟩ := h
  induction n with
  | zero =>
      rw [List.rotate_zero]
  | succ n ih =>
      rw [← List.rotate_rotate]
      refine ih.trans ?_
      rcases hpath : path.rotate n with _ | ⟨a, _ | ⟨b, rest⟩⟩
      · rfl
      · rw [List.rotate_singleton]
      · rw [List.rotate_cons_succ, List.rotate_zero]
        by_cases hab : a = b
        · rw [hab, ← stripDuplicates_repeat]
        · rw [stripDuplicates_step hab]
          exact ⟨1, rfl⟩

/-- Past a run of repeats. -/
theorem exists_step_run {a b : α} (h : a ≠ b) (k : ℕ) (rest : List α) :
    ∃ path', List.replicate k a ++ a :: b :: rest ~r path' ∧
      stripDuplicates path' true =
        (stripDuplicates (List.replicate k a ++ a :: b :: rest) true).rotate 1 := by
  induction k generalizing rest with
  | zero => exact ⟨b :: rest ++ [a], ⟨1, rfl⟩, stripDuplicates_step h rest⟩
  | succ k ih =>
      obtain ⟨path', hrot, hstrip⟩ := ih (rest ++ [a])
      have hnext : List.replicate k a ++ a :: b :: (rest ++ [a]) =
          (List.replicate k a ++ a :: b :: rest) ++ [a] := by
        simp
      have hfirst : ∃ tail, List.replicate k a ++ a :: b :: rest = a :: tail := by
        cases k with
        | zero => exact ⟨_, rfl⟩
        | succ k => exact ⟨_, rfl⟩
      obtain ⟨tail, htail⟩ := hfirst
      have hsame : stripDuplicates (List.replicate k a ++ a :: b :: (rest ++ [a])) true =
          stripDuplicates (List.replicate (k + 1) a ++ a :: b :: rest) true := by
        rw [hnext, List.replicate_succ, List.cons_append, htail]
        exact stripDuplicates_repeat a tail
      refine ⟨path', .trans ⟨1, ?_⟩ hrot, ?_⟩
      · rw [List.replicate_succ, List.cons_append, List.rotate_cons_succ, List.rotate_zero, hnext]
      · rw [hstrip, hsame]

theorem destutter'_replicate (a : α) (k : ℕ) :
    (List.replicate k a).destutter' (· ≠ ·) a = [a] := by
  induction k with
  | zero => rfl
  | succ k ih => rw [List.replicate_succ, List.destutter'_cons_neg _ (not_not.2 rfl), ih]

/-- Every start is one of the list with its repeats. -/
theorem exists_stripDuplicates_rotate (path : List α) :
    ∃ path', path ~r path' ∧
      stripDuplicates path' true = (stripDuplicates path true).rotate 1 := by
  rcases path with _ | ⟨a, rest⟩
  · exact ⟨[], .refl _, rfl⟩
  · obtain ⟨k, tail, hrest, htail⟩ : ∃ k tail, rest = List.replicate k a ++ tail ∧
        tail.head? ≠ some a := by
      induction rest with
      | nil => exact ⟨0, [], rfl, by simp⟩
      | cons b rest ih =>
          by_cases hb : b = a
          · obtain ⟨k, tail, hrest, htail⟩ := ih
            exact ⟨k + 1, tail, by rw [hrest, hb, List.replicate_succ, List.cons_append], htail⟩
          · exact ⟨0, b :: rest, rfl, by simpa using hb⟩
    have hpath : a :: rest = List.replicate k a ++ a :: tail := by
      rw [hrest, ← List.cons_append, ← List.replicate_succ, List.replicate_succ',
        List.append_assoc]
      rfl
    rcases tail with _ | ⟨b, tail⟩
    · have hone : (a :: rest).destutter (· ≠ ·) = [a] := by
        rw [hrest, List.append_nil]
        exact destutter'_replicate a k
      have hnil : stripDuplicates (a :: rest) true = [] := by
        rw [stripDuplicates_of_eq (by rw [hone]; rfl), hone]
        rfl
      exact ⟨a :: rest, .refl _, by rw [hnil]; rfl⟩
    · have hab : a ≠ b := by
        rintro rfl
        exact htail rfl
      rw [hpath]
      exact exists_step_run hab k tail

theorem exists_stripDuplicates_eq {path l : List α} (h : stripDuplicates path true ~r l) :
    ∃ path', path ~r path' ∧ stripDuplicates path' true = l := by
  obtain ⟨n, rfl⟩ := h
  induction n with
  | zero => exact ⟨path, .refl _, (List.rotate_zero _).symm⟩
  | succ n ih =>
      obtain ⟨path', hpath, hstrip⟩ := ih
      obtain ⟨path'', hrot, hnext⟩ := exists_stripDuplicates_rotate path'
      refine ⟨path'', hpath.trans hrot, ?_⟩
      rw [hnext, hstrip, List.rotate_rotate]

end Repeats

/-! ## §2  The start -/

section Start

variable (cmp : α → α → Ordering)

/-- The first place of a least element. -/
def startIndex (points : List α) : ℕ :=
  match points.zipIdx with
  | [] => 0
  | first :: rest =>
      (rest.foldl (Comparator.keepLeast fun a b => cmp a.1 b.1) first).2

def fromStart (points : List α) : List α := points.rotate (startIndex cmp points)

/-- The first element is a least one. -/
def LeastFirst (points : List α) : Prop :=
  ∀ first ∈ points.head?, ∀ point ∈ points, (cmp first point).isLE = true

/-- The list goes on alike from each of its least elements. -/
def StartsAlike (points : List α) : Prop :=
  ∀ l l', points ~r l → points ~r l' → LeastFirst cmp l → LeastFirst cmp l' → l = l'

variable {cmp}

theorem fromStart_isRotated (points : List α) : points ~r fromStart cmp points := ⟨_, rfl⟩

variable [Std.TransCmp cmp]

/-- The start is the place of an element not after any other. -/
theorem startIndex_spec {points : List α} (hne : points ≠ []) :
    ∃ least, points[startIndex cmp points]? = some least ∧
      ∀ point ∈ points, (cmp least point).isLE = true := by
  have htrans : Std.TransCmp fun a b : α × ℕ => cmp a.1 b.1 :=
    Comparator.transCmp_comap cmp Prod.fst
  unfold startIndex
  rcases hentries : points.zipIdx with _ | ⟨first, rest⟩
  · exact absurd (List.zipIdx_eq_nil_iff.1 hentries) hne
  · have hmem : rest.foldl (Comparator.keepLeast fun a b : α × ℕ => cmp a.1 b.1) first ∈
        first :: rest := Comparator.foldl_keepLeast_mem rest first
    have hleast := @Comparator.foldl_keepLeast_isLE _ (fun a b : α × ℕ => cmp a.1 b.1) htrans
      rest first
    dsimp only
    generalize rest.foldl (Comparator.keepLeast fun a b : α × ℕ => cmp a.1 b.1) first = entry
      at hmem hleast
    rw [← hentries] at hmem hleast
    refine ⟨entry.1, ?_, fun point hpoint => ?_⟩
    · simpa using List.mem_zipIdx_iff_getElem?.1 hmem
    · obtain ⟨i, hi, rfl⟩ := List.getElem_of_mem hpoint
      exact hleast (points[i], i) (List.mem_zipIdx_iff_getElem?.2 (by simp))

theorem fromStart_leastFirst (points : List α) : LeastFirst cmp (fromStart cmp points) := by
  intro first hfirst point hpoint
  have hmem : point ∈ points := (fromStart_isRotated points).perm.mem_iff.2 hpoint
  obtain ⟨least, hget, hleast⟩ : ∃ least, points[startIndex cmp points]? = some least ∧
      ∀ point ∈ points, (cmp least point).isLE = true := startIndex_spec (List.ne_nil_of_mem hmem)
  have hlt : startIndex cmp points < points.length := (List.getElem?_eq_some_iff.1 hget).1
  have hhead : (fromStart cmp points).head? = some least := by
    unfold fromStart
    rw [List.head?_rotate hlt, hget]
  rw [hhead] at hfirst
  obtain rfl := Option.mem_some_iff.1 hfirst
  exact hleast point hmem

theorem foldl_keepLeast_self {β : Type} {order : β → β → Ordering} {best : β} {l : List β}
    (h : ∀ a ∈ l, order a best ≠ .lt) : l.foldl (Comparator.keepLeast order) best = best := by
  induction l with
  | nil => rfl
  | cons a l ih =>
      rw [List.foldl_cons, Comparator.keepLeast, if_neg (h a List.mem_cons_self)]
      exact ih fun b hb => h b (List.mem_cons_of_mem _ hb)

theorem fromStart_eq_self {points : List α} (h : LeastFirst cmp points) :
    fromStart cmp points = points := by
  have hzero : startIndex cmp points = 0 := by
    rcases points with _ | ⟨first, rest⟩
    · rfl
    · unfold startIndex
      rw [List.zipIdx_cons]
      dsimp only
      rw [foldl_keepLeast_self]
      intro entry hentry
      have hle := h first rfl entry.1
        (List.mem_cons_of_mem _ (List.fst_mem_of_mem_zipIdx hentry))
      intro hlt
      rw [Comparator.cmp_eq_swap cmp, hlt] at hle
      cases hle
  unfold fromStart
  rw [hzero, List.rotate_zero]

/-- **The reading does not depend on the start exactly where the list starts alike.** -/
theorem startsAlike_iff {points : List α} :
    StartsAlike cmp points ↔ ∀ l, points ~r l → fromStart cmp l = fromStart cmp points := by
  constructor
  · intro h l hl
    exact h _ _ (hl.trans (fromStart_isRotated l)) (fromStart_isRotated points)
      (fromStart_leastFirst l) (fromStart_leastFirst points)
  · intro h l l' hl hl' hleast hleast'
    rw [← fromStart_eq_self hleast, ← fromStart_eq_self hleast', h l hl, h l' hl']

end Start

end CyclicStart
