import Mathlib.Data.Nat.Notation
import Mathlib.Tactic.Common

/-!
# Binary search for a partition point

Halving a range of indices whose test holds up to a point and nowhere after it finds that
point.
-/

/-- The first index from `start` on, before `finish`, where the test fails; `finish` where there
is none. -/
def partitionPoint (before : ℕ → Bool) (start finish : ℕ) : ℕ :=
  if start < finish then
    let middle := start + (finish - start) / 2
    if before middle then partitionPoint before (middle + 1) finish
    else partitionPoint before start middle
  else start
termination_by finish - start

/-- **The partition point splits the range.** -/
theorem partitionPoint_spec (before : ℕ → Bool) (start finish : ℕ) (hle : start ≤ finish)
    (hdown : ∀ i j, i ≤ j → j < finish → before j = true → before i = true) :
    (start ≤ partitionPoint before start finish ∧ partitionPoint before start finish ≤ finish) ∧
      (∀ i, start ≤ i → i < partitionPoint before start finish → before i = true) ∧
      ∀ i, partitionPoint before start finish ≤ i → i < finish → before i = false := by
  induction start, finish using partitionPoint.induct before with
  | case1 start finish hlt middle hbefore ih =>
      have hmiddle : start ≤ middle ∧ middle < finish := by omega
      have hstep : partitionPoint before start finish = partitionPoint before (middle + 1) finish := by
        rw [partitionPoint, if_pos hlt]
        exact if_pos hbefore
      rw [hstep]
      obtain ⟨⟨hfrom, hto⟩, hyes, hno⟩ := ih (by omega) hdown
      refine ⟨⟨by omega, hto⟩, fun i hi hpoint => ?_, hno⟩
      rcases Nat.lt_or_ge middle i with h | h
      · exact hyes i h hpoint
      · exact hdown i middle h hmiddle.2 hbefore
  | case2 start finish hlt middle hbefore ih =>
      have hmiddle : start ≤ middle ∧ middle < finish := by omega
      have hstep : partitionPoint before start finish = partitionPoint before start middle := by
        rw [partitionPoint, if_pos hlt]
        exact if_neg hbefore
      rw [hstep]
      obtain ⟨⟨hfrom, hto⟩, hyes, hno⟩ := ih (by omega)
        fun i j hij hj => hdown i j hij (by omega)
      refine ⟨⟨hfrom, by omega⟩, hyes, fun i hi hfinish => ?_⟩
      rcases Nat.lt_or_ge i middle with h | h
      · exact hno i hi h
      · refine Bool.eq_false_iff.2 fun hi => hbefore (hdown middle i h hfinish hi)
  | case3 start finish hlt =>
      rw [partitionPoint, if_neg hlt]
      refine ⟨⟨Nat.le_refl _, hle⟩, fun i hi hpoint => absurd hi (by omega), fun i hi hfinish =>
        absurd hfinish (by omega)⟩
