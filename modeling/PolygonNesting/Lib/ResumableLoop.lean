import Mathlib.Data.List.Forall2
import Mathlib.Tactic.Common

/-!
# Loops that pause

A loop goes through a list of inputs; each step may fail, gives a new state and
a report, and may stop the loop.  `run` goes to the end; `runUntil` may also
pause after a step.  Pausing and going on is going to the end: the states are
the same, and the reports of the two parts are joined.

`visits` lists the inputs with the states their steps start from, so that facts
about the reports can be read as facts about those states.
-/

namespace ResumableLoop

variable {δ σ ρ ε : Type} (step : δ → σ → Except ε (σ × ρ)) (stop : σ → Bool)

/-- To the end of the inputs, or to the first stop. -/
def run : List δ → σ → Except ε (σ × List ρ)
  | [], state => .ok (state, [])
  | input :: inputs, state =>
      match step input state with
      | .error error => .error error
      | .ok (state, report) =>
          if stop state then .ok (state, [report])
          else (run inputs state).map fun ended => (ended.1, report :: ended.2)

/-- A pause keeps the input of its last step and the inputs left. -/
inductive Ended (δ σ ρ : Type) where
  | finished (state : σ) (reports : List ρ)
  | paused (last : δ) (rest : List δ) (state : σ) (reports : List ρ)

/-- One more report in front. -/
def Ended.prepend (report : ρ) : Ended δ σ ρ → Ended δ σ ρ
  | .finished state reports => .finished state (report :: reports)
  | .paused last rest state reports => .paused last rest state (report :: reports)

/-- The same, pausing after the steps that `pause` selects by their number and
input. -/
def runUntil (pause : ℕ → δ → Bool) : List δ → ℕ → σ → Except ε (Ended δ σ ρ)
  | [], _, state => .ok (.finished state [])
  | input :: inputs, steps, state =>
      match step input state with
      | .error error => .error error
      | .ok (state, report) =>
          if stop state then .ok (.finished state [report])
          else if pause (steps + 1) input then .ok (.paused input inputs state [report])
          else (runUntil pause inputs (steps + 1) state).map (Ended.prepend report)

/-- The inputs that are processed, each with the state before it. -/
def visits : List δ → σ → List (δ × σ)
  | [], _ => []
  | input :: inputs, state =>
      (input, state) ::
        match step input state with
        | .error _ => []
        | .ok (next, _) => if stop next then [] else visits inputs next

variable {step stop}

theorem map_eq_ok {α β : Type} {f : α → β} {result : Except ε α} {b : β}
    (h : result.map f = .ok b) : ∃ a, result = .ok a ∧ f a = b := by
  cases result with
  | error error => cases h
  | ok a => exact ⟨a, rfl, Except.ok.inj h⟩

/-- A pausing loop that finishes is the loop to the end. -/
theorem run_of_finished {pause : ℕ → δ → Bool} {state' : σ} {inputs : List δ} :
    ∀ {steps : ℕ} {state : σ} {reports : List ρ},
      runUntil step stop pause inputs steps state = .ok (.finished state' reports) →
        run step stop inputs state = .ok (state', reports) := by
  induction inputs with
  | nil =>
      intro steps state reports h
      cases h
      rfl
  | cons input inputs ih =>
      intro steps state reports h
      unfold runUntil at h
      unfold run
      split at h
      · cases h
      · next next report hstep =>
        by_cases hstop : stop next = true
        · rw [if_pos hstop] at h
          cases h
          exact if_pos hstop
        · rw [if_neg hstop] at h
          simp only [if_neg hstop]
          split at h
          · cases h
          · obtain ⟨ended, hended, hprepend⟩ := map_eq_ok h
            cases ended with
            | finished last reports' =>
                cases hprepend
                rw [ih hended]
                rfl
            | paused last rest last' reports' => cases hprepend

/-- **Pausing loses nothing**: the inputs left are those after the last one
processed, one report was made for each before, and going on with them gives
what going to the end gives. -/
theorem run_of_paused {pause : ℕ → δ → Bool} {last : δ} {rest : List δ} {state' : σ}
    {inputs : List δ} :
    ∀ {steps : ℕ} {state : σ} {reports : List ρ},
      runUntil step stop pause inputs steps state =
          .ok (.paused last rest state' reports) →
        run step stop inputs state =
            (run step stop rest state').map (fun ended => (ended.1, reports ++ ended.2)) ∧
          ∃ done, inputs = done ++ last :: rest ∧ reports.length = done.length + 1 ∧
            pause (steps + reports.length) last = true ∧ stop state' = false := by
  induction inputs with
  | nil =>
      intro steps state reports h
      cases h
  | cons input inputs ih =>
      intro steps state reports h
      unfold runUntil at h
      rw [run]
      split at h
      · cases h
      · next next report hstep =>
        by_cases hstop : stop next = true
        · rw [if_pos hstop] at h
          cases h
        · rw [if_neg hstop] at h
          simp only [if_neg hstop]
          split at h
          · next hpause =>
            cases h
            exact ⟨rfl, [], rfl, rfl, hpause, Bool.not_eq_true _ ▸ hstop⟩
          · obtain ⟨ended, hended, hprepend⟩ := map_eq_ok h
            cases ended with
            | finished last reports' => cases hprepend
            | paused last' rest' state'' reports' =>
                cases hprepend
                obtain ⟨hrun, done, rfl, hlength, hpause, hend⟩ := ih hended
                refine ⟨?_, input :: done, rfl, congrArg (· + 1) hlength, ?_, hend⟩
                swap
                · rw [List.length_cons, ← Nat.add_assoc, Nat.add_right_comm]
                  exact hpause
                rw [hrun]
                cases run step stop rest state' <;> rfl

/-- A loop that is never told to pause goes to the end. -/
theorem runUntil_of_run {pause : ℕ → δ → Bool} {state' : σ} {inputs : List δ} :
    ∀ {steps : ℕ} {state : σ} {reports : List ρ},
      (∀ done input rest, inputs = done ++ input :: rest →
        pause (steps + done.length + 1) input = false) →
      run step stop inputs state = .ok (state', reports) →
        runUntil step stop pause inputs steps state = .ok (.finished state' reports) := by
  induction inputs with
  | nil =>
      intro steps state reports _ h
      cases h
      rfl
  | cons input inputs ih =>
      intro steps state reports hnever h
      unfold run at h
      unfold runUntil
      split at h
      · cases h
      · next next report hstep =>
        by_cases hstop : stop next = true
        · rw [if_pos hstop] at h
          cases h
          simp only [if_pos hstop]
        · rw [if_neg hstop] at h
          obtain ⟨ended, hended, heq⟩ := map_eq_ok h
          cases heq
          have hgo : pause (steps + 1) input = false := hnever [] input inputs rfl
          have hrest : ∀ done other rest, inputs = done ++ other :: rest →
              pause (steps + 1 + done.length + 1) other = false := by
            intro done other rest heq
            have := hnever (input :: done) other rest (by rw [heq]; rfl)
            rwa [List.length_cons, ← Nat.add_assoc, Nat.add_right_comm steps] at this
          simp only [if_neg hstop, hgo, ih hrest hended]
          rfl

/-- An invariant of the inputs left and the state holds at a pause. -/
theorem inv_of_paused {P : List δ → σ → Prop} {pause : ℕ → δ → Bool} {last : δ}
    {rest : List δ} {state' : σ}
    (hstep : ∀ input inputs state next report, P (input :: inputs) state →
      step input state = .ok (next, report) → P inputs next)
    {inputs : List δ} :
    ∀ {steps : ℕ} {state : σ} {reports : List ρ}, P inputs state →
      runUntil step stop pause inputs steps state =
          .ok (.paused last rest state' reports) → P rest state' := by
  induction inputs with
  | nil =>
      intro steps state reports _ h
      cases h
  | cons input inputs ih =>
      intro steps state reports hinv h
      unfold runUntil at h
      split at h
      · cases h
      · next next report hok =>
        have hnext := hstep _ _ _ _ _ hinv hok
        split at h
        · cases h
        · split at h
          · cases h
            exact hnext
          · obtain ⟨ended, hended, hprepend⟩ := map_eq_ok h
            cases ended with
            | finished last reports' => cases hprepend
            | paused last' rest' state'' reports' =>
                cases hprepend
                exact ih hnext hended

/-- Runs from related states are related, when the steps are and related states
stop together.  The relation may depend on the inputs left. -/
theorem run_related {R : List δ → σ → σ → Prop}
    (hstop : ∀ inputs state other, R inputs state other → stop state = stop other)
    (hstep : ∀ input inputs state other next report, R (input :: inputs) state other →
      step input state = .ok (next, report) →
      ∃ next', step input other = .ok (next', report) ∧ R inputs next next')
    {inputs : List δ} :
    ∀ {state other state' : σ} {reports : List ρ}, R inputs state other →
      run step stop inputs state = .ok (state', reports) →
        ∃ other' rest, run step stop inputs other = .ok (other', reports) ∧
          R rest state' other' := by
  induction inputs with
  | nil =>
      intro state other state' reports hrel h
      cases h
      exact ⟨other, [], rfl, hrel⟩
  | cons input inputs ih =>
      intro state other state' reports hrel h
      unfold run at h ⊢
      split at h
      · cases h
      · next next report hok =>
        obtain ⟨next', hnext', hrel'⟩ := hstep _ _ _ _ _ _ hrel hok
        rw [hnext']
        by_cases hend : stop next = true
        · rw [if_pos hend] at h
          cases h
          exact ⟨next', inputs, if_pos (hstop _ _ _ hrel' ▸ hend), hrel'⟩
        · rw [if_neg hend] at h
          obtain ⟨ended, hended, heq⟩ := map_eq_ok h
          obtain ⟨other', rest, hother, hlast⟩ := ih hrel' hended
          cases heq
          refine ⟨other', rest, ?_, hlast⟩
          simp only [if_neg (hstop _ _ _ hrel' ▸ hend), hother, Except.map]

/-- The inputs of the visits are the first of the inputs. -/
theorem visits_prefix {inputs : List δ} :
    ∀ {state : σ}, (visits step stop inputs state).map Prod.fst <+: inputs := by
  induction inputs with
  | nil =>
      intro state
      exact List.prefix_rfl
  | cons input inputs ih =>
      intro state
      unfold visits
      rw [List.map_cons, List.prefix_cons_inj]
      split
      · exact List.nil_prefix
      · split
        · exact List.nil_prefix
        · exact ih

/-- **Reports read as facts about visits**, along an invariant of the remaining
inputs and the state. -/
theorem forall₂_visits {P : List δ → σ → Prop} {Rel : δ × σ → ρ → Prop}
    (hstep : ∀ input inputs state next report, P (input :: inputs) state →
      step input state = .ok (next, report) →
      P inputs next ∧ Rel (input, state) report)
    {inputs : List δ} :
    ∀ {state state' : σ} {reports : List ρ}, P inputs state →
      run step stop inputs state = .ok (state', reports) →
        List.Forall₂ Rel (visits step stop inputs state) reports := by
  induction inputs with
  | nil =>
      intro state state' reports _ h
      cases h
      exact .nil
  | cons input inputs ih =>
      intro state state' reports hinv h
      unfold run at h
      unfold visits
      split at h
      · cases h
      · next next report hok =>
        obtain ⟨hnext, hrel⟩ := hstep _ _ _ _ _ hinv hok
        by_cases hstop : stop next = true
        · rw [if_pos hstop] at h
          cases h
          simp only [if_pos hstop]
          exact .cons hrel .nil
        · rw [if_neg hstop] at h
          simp only [if_neg hstop]
          obtain ⟨ended, hended, heq⟩ := map_eq_ok h
          cases heq
          exact .cons hrel (ih hnext hended)

end ResumableLoop
