import Mathlib.Data.List.Rotate

/-!
# Readings of a cyclic list

A cyclic list is read from a start, forwards or backwards, and of the two
readings the one that comes first is taken: the first place where they differ
decides.  Two readings agree exactly when one is the other, or the other
backwards.
-/

namespace CyclicReading

variable {α : Type*}

/-- Backwards from the same start. -/
def turnBack : List α → List α
  | [] => []
  | a :: rest => a :: rest.reverse

@[simp] theorem turnBack_turnBack (l : List α) : turnBack (turnBack l) = l := by
  cases l with
  | nil => rfl
  | cons a rest => rw [turnBack, turnBack, List.reverse_reverse]

@[simp] theorem length_turnBack (l : List α) : (turnBack l).length = l.length := by
  cases l with
  | nil => rfl
  | cons a rest => rw [turnBack, List.length_cons, List.length_reverse, List.length_cons]

theorem isRotated_turnBack (l : List α) : turnBack l ~r l.reverse := by
  cases l with
  | nil => exact .refl _
  | cons a rest =>
    rw [turnBack, List.reverse_cons]
    exact List.isRotated_append (l := [a])

theorem getElem_turnBack {l : List α} {k : ℕ} (h : k < (turnBack l).length) :
    (turnBack l)[k] = getElem l ((l.length - k) % l.length) (Nat.mod_lt _ (by
      rw [length_turnBack] at h
      omega)) := by
  cases l with
  | nil => exact absurd h (Nat.not_lt_zero k)
  | cons a rest =>
    rw [length_turnBack, List.length_cons] at h
    cases k with
    | zero =>
      simp only [turnBack, List.length_cons, Nat.sub_zero, Nat.mod_self, List.getElem_cons_zero]
    | succ k =>
      have hmod : (rest.length + 1 - (k + 1)) % (rest.length + 1) = rest.length - 1 - k + 1 := by
        rw [Nat.mod_eq_of_lt (by omega)]
        omega
      simp only [turnBack, List.length_cons, hmod, List.getElem_cons_succ, List.getElem_reverse]

/-- The reversed list reads backwards. -/
theorem reverse_rotate_eq {l : List α} {s : ℕ} (h : s < l.length) :
    l.reverse.rotate (l.length - 1 - s) = turnBack (l.rotate s) := by
  refine List.ext_getElem (by simp) fun k hk _ => ?_
  rw [List.length_rotate, List.length_reverse] at hk
  rw [List.getElem_rotate, List.getElem_reverse, getElem_turnBack, List.getElem_rotate]
  simp only [List.length_reverse, List.length_rotate, Nat.mod_add_mod]
  congr 1
  rcases Nat.lt_or_ge s k with hlt | hge
  · rw [show k + (l.length - 1 - s) = k - 1 - s + l.length by omega, Nat.add_mod_right,
      Nat.mod_eq_of_lt (by omega : k - 1 - s < l.length), Nat.mod_eq_of_lt (by omega)]
    omega
  · rw [Nat.mod_eq_of_lt (by omega : k + (l.length - 1 - s) < l.length),
      show l.length - k + s = s - k + l.length by omega, Nat.add_mod_right,
      Nat.mod_eq_of_lt (by omega)]
    omega

/-! ## The reading that comes first -/

section

variable [DecidableEq α] (before : α → α → Bool)

/-- The first place where two lists differ decides; the first list when none does. -/
def firstWins : List α → List α → Bool
  | a :: first, b :: second => if a = b then firstWins first second else before a b
  | _, _ => true

/-- The list or its reading backwards. -/
def smaller (l : List α) : List α := if firstWins before l (turnBack l) then l else turnBack l

variable {before} (hbefore : ∀ a b, a ≠ b → before a b = !before b a)

include hbefore

theorem firstWins_swap : ∀ {first second : List α}, first.length = second.length →
    first ≠ second → firstWins before first second = !firstWins before second first
  | [], [], _, hne => absurd rfl hne
  | a :: first, b :: second, hlen, hne => by
    unfold firstWins
    by_cases hab : a = b
    · subst hab
      rw [if_pos rfl, if_pos rfl]
      exact firstWins_swap (Nat.succ_injective hlen) fun heq => hne (heq ▸ rfl)
    · rw [if_neg hab, if_neg (Ne.symm hab)]
      exact hbefore a b hab

theorem smaller_turnBack (l : List α) : smaller before (turnBack l) = smaller before l := by
  unfold smaller
  rw [turnBack_turnBack]
  by_cases hl : l = turnBack l
  · rw [← hl]
  · rw [firstWins_swap hbefore (length_turnBack l) (Ne.symm hl)]
    cases firstWins before l (turnBack l) <;> rfl

/-- **Two readings agree exactly when they are of one ring.** -/
theorem smaller_eq_iff {l m : List α} :
    smaller before l = smaller before m ↔ m = l ∨ m = turnBack l := by
  have hor : ∀ l : List α, smaller before l = l ∨ smaller before l = turnBack l := by
    intro l
    unfold smaller
    split
    · exact .inl rfl
    · exact .inr rfl
  constructor
  · intro h
    rcases hor l with hl | hl <;> rcases hor m with hm | hm <;> rw [hl, hm] at h
    · exact .inl h.symm
    · exact .inr (by rw [h, turnBack_turnBack])
    · exact .inr h.symm
    · have := congrArg turnBack h
      rw [turnBack_turnBack, turnBack_turnBack] at this
      exact .inl this.symm
  · rintro (rfl | rfl)
    · rfl
    · exact (smaller_turnBack hbefore l).symm

end

end CyclicReading
