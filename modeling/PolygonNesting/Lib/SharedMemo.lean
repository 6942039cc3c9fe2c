import Mathlib.Data.Fintype.Basic
import Mathlib.Tactic.Common
import PolygonNesting.Lib.Interleaving

/-!
# Calls over a shared memo

A batch of calls shares one memo.  A call takes its lock twice: it looks, and later it stores
what it computed; other calls run in between.  Where a valid memo cannot change the result of a
call, every interleaving gives every call the result it has alone.
-/

namespace SharedMemo

open Interleaving

variable {μ ρ ι : Type} [DecidableEq ι]

/-- Where a call is. -/
inductive Progress (μ ρ : Type) where
  | start
  | looked (seen : μ)
  | done (result : ρ)

/-- The two atomic steps of a call, which is given the memo at its look and at its store. -/
inductive CallStep (call : μ → μ → ρ × μ) : μ → Progress μ ρ → μ → Progress μ ρ → Prop where
  | look (memo : μ) : CallStep call memo .start memo (.looked memo)
  | store (seen memo : μ) :
      CallStep call memo (.looked seen) (call seen memo).2 (.done (call seen memo).1)

/-- The calls of a batch as threads over the memo. -/
abbrev threads (call : ι → μ → μ → ρ × μ) : Threads μ ι where
  Local _ := Progress μ ρ
  step i := CallStep (call i)

/-- Before the first step. -/
def fresh (call : ι → μ → μ → ρ × μ) (memo : μ) : Config (threads call) := ⟨memo, fun _ => .start⟩

/-- After the last. -/
def finished (call : ι → μ → μ → ρ × μ) (memo : μ) (results : ι → ρ) : Config (threads call) :=
  ⟨memo, fun i => .done (results i)⟩

/-- On valid memos a call has its plain result and leaves a valid memo. -/
structure Sound (Valid : μ → Prop) (call : ι → μ → μ → ρ × μ) (plain : ι → ρ) : Prop where
  result : ∀ i {seen stored}, Valid seen → Valid stored → (call i seen stored).1 = plain i
  valid : ∀ i {seen stored}, Valid seen → Valid stored → Valid (call i seen stored).2

variable {Valid : μ → Prop} {call : ι → μ → μ → ρ × μ} {plain : ι → ρ}

/-- What is known of a call at a point of its progress. -/
def Known (Valid : μ → Prop) (plain : ρ) : Progress μ ρ → Prop
  | .start => True
  | .looked seen => Valid seen
  | .done result => result = plain

/-- The memo is valid, and every call knows what it saw. -/
def Sound.assertions (h : Sound Valid call plain) : Assertions (threads call) where
  holds i memo progress := Valid memo ∧ Known Valid (plain i) progress
  own {i} _ _ _ _ hholds hstep := by
    obtain ⟨hmemo, hknown⟩ := hholds
    cases hstep with
    | look => exact ⟨hmemo, hmemo⟩
    | store seen => exact ⟨h.valid i hknown hmemo, h.result i hknown hmemo⟩
  free {_ j} _ _ _ _ _ _ hholds hother hstep := by
    obtain ⟨hmemo, hknown⟩ := hother
    refine ⟨?_, hholds.2⟩
    cases hstep with
    | look => exact hmemo
    | store seen => exact h.valid j hknown hmemo

omit [DecidableEq ι] in
theorem Sound.holds_fresh (h : Sound Valid call plain) {memo : μ} (hmemo : Valid memo) :
    h.assertions.Holds (fresh call memo) := by
  intro i
  show Valid memo ∧ True
  exact ⟨hmemo, trivial⟩

/-- **Every interleaving gives the plain results.** -/
theorem Sound.results_eq (h : Sound Valid call plain) {memo memo' : μ} {results : ι → ρ}
    (hmemo : Valid memo) (run : Steps (fresh call memo) (finished call memo' results)) :
    results = plain :=
  funext fun i => (h.assertions.steps (h.holds_fresh hmemo) run i).2

/-- The memo stays valid, also where there is no call. -/
theorem Sound.valid_of_run (h : Sound Valid call plain) {memo memo' : μ} {results : ι → ρ}
    (hmemo : Valid memo) (run : Steps (fresh call memo) (finished call memo' results)) :
    Valid memo' := by
  have hrun : ∀ c : Config (threads call), Steps (fresh call memo) c →
      Valid c.shared ∧ h.assertions.Holds c := by
    intro c hc
    refine steps_induct (P := fun c => Valid c.shared ∧ h.assertions.Holds c) ?_
      ⟨hmemo, h.holds_fresh hmemo⟩ hc
    rintro a b ⟨-, hholds⟩ hstep
    have hnext := h.assertions.holds_step hholds hstep
    obtain ⟨i, -⟩ := hstep.thread
    exact ⟨(hnext i).1, hnext⟩
  exact (hrun _ run).1

/-- One call from its first step to its last. -/
theorem steps_call {c : Config (threads call)} {i : ι} (hi : c.locals i = Progress.start) :
    Steps c ⟨(call i c.shared c.shared).2,
      Function.update c.locals i (Progress.done (call i c.shared c.shared).1)⟩ := by
  have hlook : Step c ⟨c.shared, Function.update c.locals i (Progress.looked c.shared)⟩ :=
    ⟨i, c.shared, Progress.looked c.shared, hi ▸ CallStep.look c.shared, rfl⟩
  refine .tail (.single hlook) ⟨i, (call i c.shared c.shared).2,
    Progress.done (call i c.shared c.shared).1, ?_, ?_⟩
  · dsimp only
    rw [Function.update_self]
    exact CallStep.store c.shared c.shared
  · rw [Function.update_idem]

/-- **A run exists**: the calls one after another. -/
theorem Sound.exists_run [Fintype ι] (h : Sound Valid call plain) {memo : μ} (hmemo : Valid memo) :
    ∃ memo', Steps (fresh call memo) (finished call memo' plain) := by
  have hsome : ∀ l : List ι, ∃ memo', Valid memo' ∧ Steps (fresh call memo)
      ⟨memo', fun i => if i ∈ l then Progress.done (plain i) else Progress.start⟩ := by
    intro l
    induction l with
    | nil => exact ⟨memo, hmemo, .refl⟩
    | cons i l ih =>
      obtain ⟨memo', hmemo', hrun⟩ := ih
      by_cases hi : i ∈ l
      · refine ⟨memo', hmemo', ?_⟩
        have hsame : ∀ j, j ∈ i :: l ↔ j ∈ l := fun j => by
          rw [List.mem_cons]
          exact ⟨fun hj => hj.elim (fun hj => hj ▸ hi) id, .inr⟩
        simp only [hsame]
        exact hrun
      · refine ⟨(call i memo' memo').2, h.valid i hmemo' hmemo', hrun.trans ?_⟩
        let c : Config (threads call) :=
          ⟨memo', fun j => if j ∈ l then Progress.done (plain j) else Progress.start⟩
        have hcall := steps_call (c := c) (i := i) (if_neg hi)
        have hlocals : (fun j => if j ∈ i :: l then Progress.done (plain j) else Progress.start) =
            Function.update (fun j => if j ∈ l then Progress.done (plain j)
              else (Progress.start : Progress μ ρ)) i
              (Progress.done (call i memo' memo').1) := by
          funext j
          by_cases hj : j = i
          · subst hj
            rw [Function.update_self, if_pos List.mem_cons_self, h.result j hmemo' hmemo']
          · rw [Function.update_of_ne hj]
            simp only [List.mem_cons, hj, false_or]
        rw [hlocals]
        exact hcall
  obtain ⟨memo', -, hrun⟩ := hsome Finset.univ.toList
  refine ⟨memo', ?_⟩
  simpa [finished] using hrun

end SharedMemo
