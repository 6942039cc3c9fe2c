import Mathlib.Algebra.BigOperators.Group.Multiset.Basic
import Mathlib.Data.List.GetD
import Mathlib.Data.List.Rotate
import Mathlib.Data.List.Zip

/-!
# Neighbours in a cyclic list

The pairs of a list and what comes next, the last element followed by the
first.  Where the reading starts only permutes them.
-/

namespace CyclicNeighbours

variable {α β : Type*}

/-- What comes next to what, cyclically. -/
def neighbours : List α → List (α × α)
  | [] => []
  | a :: rest => (a :: rest).zip (rest ++ [a])

theorem neighbours_cons (a b : α) (rest : List α) :
    neighbours (a :: b :: rest) = (a, b) :: (b :: rest).zip (rest ++ [a]) := rfl

@[simp] theorem length_neighbours (l : List α) : (neighbours l).length = l.length := by
  cases l with
  | nil => rfl
  | cons a rest => simp [neighbours]

theorem neighbours_perm_append (a : α) (rest : List α) :
    (neighbours (rest ++ [a])).Perm (neighbours (a :: rest)) := by
  cases rest with
  | nil => exact .refl _
  | cons b rest =>
    have hzip : neighbours (b :: rest ++ [a]) = (b :: rest).zip (rest ++ [a]) ++ [(a, b)] := by
      show (b :: rest ++ [a]).zip (rest ++ [a] ++ [b]) = _
      rw [List.zip_append (by simp)]
      rfl
    rw [hzip, neighbours_cons]
    exact List.perm_append_singleton _ _

theorem neighbours_perm_rotate : ∀ (l : List α) (s : ℕ), (neighbours (l.rotate s)).Perm (neighbours l)
  | [], s => by rw [List.rotate_nil]
  | a :: rest, 0 => by rw [List.rotate_zero]
  | a :: rest, s + 1 => by
    rw [List.rotate_cons_succ]
    exact (neighbours_perm_rotate (rest ++ [a]) s).trans (neighbours_perm_append a rest)

/-- **The start does not matter.** -/
theorem neighbours_perm {l l' : List α} (h : l ~r l') : (neighbours l').Perm (neighbours l) := by
  obtain ⟨s, rfl⟩ := h
  exact neighbours_perm_rotate l s

/-- Backwards, every pair the other way round. -/
theorem neighbours_reverse (l : List α) :
    (neighbours l.reverse).Perm ((neighbours l).map Prod.swap) := by
  cases l with
  | nil => exact .refl _
  | cons a rest =>
    have hzip : neighbours (a :: rest.reverse) = ((neighbours (a :: rest)).map Prod.swap).reverse := by
      show (a :: rest.reverse).zip (rest.reverse ++ [a]) =
        (((a :: rest).zip (rest ++ [a])).map Prod.swap).reverse
      rw [List.zip_swap, List.zip, List.reverse_zipWith (by simp), List.reverse_append,
        List.reverse_singleton, List.singleton_append, List.reverse_cons]
    rw [List.reverse_cons]
    refine (neighbours_perm_append a rest.reverse).trans ?_
    rw [hzip]
    exact List.reverse_perm _

theorem mem_of_mem_neighbours {l : List α} {a b : α} (h : (a, b) ∈ neighbours l) :
    a ∈ l ∧ b ∈ l := by
  cases l with
  | nil => simp [neighbours] at h
  | cons first rest =>
    obtain ⟨ha, hb⟩ := List.of_mem_zip h
    exact ⟨ha, (List.perm_append_singleton first rest).mem_iff.1 hb⟩

/-- **The steps around sum to nothing.** -/
theorem sum_neighbours_sub {G : Type*} [AddCommGroup G] (f : α → G) (l : List α) :
    ((neighbours l).map fun pair => f pair.2 - f pair.1).sum = 0 := by
  cases l with
  | nil => rfl
  | cons a rest =>
    have hsub : ((neighbours (a :: rest)).map fun pair => f pair.2 - f pair.1).sum =
        (((neighbours (a :: rest)).map Prod.snd).map f).sum -
          (((neighbours (a :: rest)).map Prod.fst).map f).sum := by
      rw [List.map_map, List.map_map]
      exact Multiset.sum_map_sub (m := (neighbours (a :: rest) : Multiset (α × α)))
    have hsnd : (neighbours (a :: rest)).map Prod.snd = rest ++ [a] :=
      List.map_snd_zip (by simp)
    have hfst : (neighbours (a :: rest)).map Prod.fst = a :: rest :=
      List.map_fst_zip (by simp)
    rw [hsub, hsnd, hfst, ((List.perm_append_singleton a rest).map f).sum_eq, sub_self]

/-- Read so that an element comes first. -/
theorem exists_isRotated_cons {l : List α} {a : α} (h : a ∈ l) : ∃ rest, l ~r a :: rest := by
  obtain ⟨before, after, rfl⟩ := List.append_of_mem h
  exact ⟨after ++ before, before.length, List.rotate_append_length_eq before (a :: after)⟩

/-- Read so that an element comes second. -/
theorem exists_isRotated_middle {l : List α} {b : α} (h : b ∈ l) (hlen : 3 ≤ l.length) :
    ∃ a c rest, l ~r a :: b :: c :: rest := by
  obtain ⟨after, hafter⟩ := exists_isRotated_cons h
  have hsize := hafter.perm.length_eq
  rw [List.length_cons] at hsize
  rcases List.eq_nil_or_concat after with rfl | ⟨inner, a, rfl⟩
  · simp at hsize
    omega
  · cases inner with
    | nil =>
      simp at hsize
      omega
    | cons c rest =>
      refine ⟨a, c, rest, hafter.trans ⟨(b :: c :: rest).length, ?_⟩⟩
      rw [List.concat_eq_append]
      exact List.rotate_append_length_eq (b :: c :: rest) [a]

/-- The pairs by index. -/
theorem neighbours_eq_map (l : List α) (d : α) :
    neighbours l = (List.range l.length).map fun k : ℕ =>
      (l.getD (k % l.length) d, l.getD ((k + 1) % l.length) d) := by
  cases l with
  | nil => rfl
  | cons a rest =>
    refine List.ext_getElem (by simp [neighbours]) fun k hk hk' => ?_
    have hlt : k < (a :: rest).length := by rwa [length_neighbours] at hk
    rw [List.getElem_map, List.getElem_range, Nat.mod_eq_of_lt hlt]
    have hget : (neighbours (a :: rest))[k] = ((a :: rest)[k],
        getElem (rest ++ [a]) k (by simpa using hlt)) := List.getElem_zip
    rw [hget, List.getD_eq_getElem _ _ hlt]
    congr 1
    rw [List.length_cons] at hlt
    rcases Nat.lt_or_ge k rest.length with h | h
    · rw [List.getElem_append_left h, List.length_cons, Nat.mod_eq_of_lt (by omega),
        List.getD_cons_succ, List.getD_eq_getElem _ _ h]
    · obtain rfl : k = rest.length := by omega
      have hmod : (rest.length + 1) % (a :: rest).length = 0 := Nat.mod_self _
      rw [List.getElem_append_right (le_refl _), hmod]
      exact List.getElem_singleton _

end CyclicNeighbours
