import Mathlib.Logic.Relation
import Mathlib.Logic.Function.Basic

/-!
# Interleavings of threads over one shared memory

A family of threads is given by the local state of each thread and by what
one atomic step of a thread may do to the shared memory and to its own local
state.  A run interleaves the steps of the threads in any order, so the only
scheduling assumption is that a step is atomic.

Two rules carry every proof about runs: `steps_induct` for a property of
whole configurations, and `Assertions.steps`, the Owicki–Gries rule, for a
family of assertions, one at each thread, that own steps maintain and the
steps of the other threads do not disturb.
-/

namespace Interleaving

universe u v w

/-- Threads over a shared memory `σ`: the local states and the atomic steps. -/
structure Threads (σ : Type u) (ι : Type v) where
  Local : ι → Type w
  step : (i : ι) → σ → Local i → σ → Local i → Prop

variable {σ : Type u} {ι : Type v} [DecidableEq ι]

/-- One moment of a run: the memory and every thread's local state. -/
structure Config (T : Threads.{u, v, w} σ ι) where
  shared : σ
  locals : (i : ι) → T.Local i

variable {T : Threads.{u, v, w} σ ι}

/-- One thread takes one atomic step; the other threads stand still. -/
def Step (c c' : Config T) : Prop :=
  ∃ i s' l', T.step i c.shared (c.locals i) s' l' ∧
    c' = ⟨s', Function.update c.locals i l'⟩

/-- A step of one given thread; the others are where they were. -/
def StepBy (i : ι) (c c' : Config T) : Prop :=
  T.step i c.shared (c.locals i) c'.shared (c'.locals i) ∧
    ∀ j, j ≠ i → c'.locals j = c.locals j

theorem Step.thread {c c' : Config T} (h : Step c c') : ∃ i, StepBy i c c' := by
  obtain ⟨i, s', l', hi, rfl⟩ := h
  refine ⟨i, ?_, fun j hj => Function.update_of_ne hj _ _⟩
  dsimp only
  rw [Function.update_self]
  exact hi

/-- Any number of steps, by any threads, in any order. -/
abbrev Steps (c c' : Config T) : Prop := Relation.ReflTransGen Step c c'

/-- **Invariant rule.** What every step from a configuration satisfying `P`
keeps, every run keeps. -/
theorem steps_induct {P : Config T → Prop} {c c' : Config T}
    (hstep : ∀ a b, P a → Step a b → P b) (hc : P c) (run : Steps c c') :
    P c' := by
  induction run with
  | refl => exact hc
  | tail _ hab ih => exact hstep _ _ ih hab

/-- Assertions at the threads: each thread's own steps maintain its assertion,
and no step of another thread disturbs it. -/
structure Assertions (T : Threads.{u, v, w} σ ι) where
  holds : (i : ι) → σ → T.Local i → Prop
  own : ∀ {i s l s' l'}, holds i s l → T.step i s l s' l' → holds i s' l'
  free : ∀ {i j s li lj s' lj'}, i ≠ j → holds i s li → holds j s lj →
    T.step j s lj s' lj' → holds i s' li

namespace Assertions

variable (A : Assertions T)

/-- Every thread satisfies its assertion. -/
def Holds (c : Config T) : Prop := ∀ i, A.holds i c.shared (c.locals i)

theorem holds_step {c c' : Config T} (h : A.Holds c) (hs : Step c c') :
    A.Holds c' := by
  obtain ⟨j, s', l', hj, rfl⟩ := hs
  intro i
  by_cases hij : i = j
  · subst hij
    simpa using A.own (h i) hj
  · simpa [Function.update_of_ne hij] using A.free hij (h i) (h j) hj

/-- **Owicki–Gries.** An interference-free annotation that holds at the start
of a run holds at its end. -/
theorem steps {c c' : Config T} (h : A.Holds c) (run : Steps c c') :
    A.Holds c' :=
  steps_induct (fun _ _ => A.holds_step) h run

end Assertions

end Interleaving
