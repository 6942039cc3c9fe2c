import Mathlib.Tactic.Common

/-!
# Calls over a state

A call reads and writes a state and may panic: it is a computation in
`StateT σ Option`.  `Ends` is its total specification under an invariant of the
state.  A fallible call answers like a pure computation when its result is the
pure one, unless a stop kept it from finishing; calls that answer like their pure
counterparts compose like them.
-/

namespace StatefulCall

variable {σ α β ε : Type} {I : σ → Prop}

/-- From every state with the invariant the call ends without a panic, keeps the
invariant, and its result satisfies `post`. -/
def Ends (I : σ → Prop) (call : StateT σ Option α) (post : α → Prop) : Prop :=
  ∀ s, I s → ∃ a s', call.run s = some (a, s') ∧ I s' ∧ post a

namespace Ends

variable {call : StateT σ Option α} {post : α → Prop}

/-- What holds of every answer holds of the answer of a run. -/
theorem of_run (h : Ends I call post) {s s' : σ} {a : α} (hs : I s)
    (hrun : call.run s = some (a, s')) : post a := by
  obtain ⟨b, t, hrun', -, hb⟩ := h s hs
  rw [hrun] at hrun'
  obtain rfl := congrArg Prod.fst (Option.some.inj hrun')
  exact hb

/-- The answer of a call that ends is the answer of a run. -/
theorem to_run (h : Ends I call post) :
    Ends I call fun a => ∃ s s', I s ∧ call.run s = some (a, s') := by
  intro s hs
  obtain ⟨a, s', hrun, hs', -⟩ := h s hs
  exact ⟨a, s', hrun, hs', s, s', hs, hrun⟩

theorem pure {a : α} (h : post a) : Ends I (Pure.pure a) post :=
  fun s hs => ⟨a, s, rfl, hs, h⟩

theorem mono {post' : α → Prop} (h : Ends I call post) (himp : ∀ a, post a → post' a) :
    Ends I call post' := by
  intro s hs
  obtain ⟨a, s', hrun, hs', ha⟩ := h s hs
  exact ⟨a, s', hrun, hs', himp a ha⟩

theorem bind {next : α → StateT σ Option β} {post' : β → Prop} (h : Ends I call post)
    (hnext : ∀ a, post a → Ends I (next a) post') : Ends I (call >>= next) post' := by
  intro s hs
  obtain ⟨a, s', hrun, hs', ha⟩ := h s hs
  obtain ⟨b, s'', hrun', hs'', hb⟩ := hnext a ha s' hs'
  refine ⟨b, s'', ?_, hs'', hb⟩
  rw [StateT.run_bind, hrun]
  exact hrun'

end Ends

/-! ## Calls that may be left -/

/-- The call ends with an answer that satisfies `post` or is left by an exit that satisfies
`exit`. -/
def Runs (I : σ → Prop) (call : ExceptT ε (StateT σ Option) α) (post : α → Prop)
    (exit : ε → Prop) : Prop :=
  Ends I call.run fun result =>
    (∀ a, result = .ok a → post a) ∧ ∀ e, result = .error e → exit e

namespace Runs

variable {call : ExceptT ε (StateT σ Option) α} {post : α → Prop} {exit : ε → Prop}

theorem pure {a : α} (h : post a) : Runs I (Pure.pure a) post exit :=
  Ends.pure ⟨fun _ heq => Except.ok.inj heq ▸ h, fun _ heq => by cases heq⟩

theorem throw {e : ε} (h : exit e) : Runs I (MonadExceptOf.throw e) post exit :=
  Ends.pure (a := (Except.error e : Except ε α))
    ⟨fun _ heq => (by cases heq), fun _ heq => Except.error.inj heq ▸ h⟩

theorem lift_bind {access : StateT σ Option β} {post' : β → Prop} (h : Ends I access post')
    {next : β → ExceptT ε (StateT σ Option) α}
    (hnext : ∀ b, post' b → Runs I (next b) post exit) :
    Runs I (ExceptT.lift access >>= next) post exit := by
  unfold Runs
  rw [ExceptT.run_bind_lift]
  exact Ends.bind h hnext

theorem bind {next : α → ExceptT ε (StateT σ Option) β} {post' : β → Prop}
    (h : Runs I call post exit) (hnext : ∀ a, post a → Runs I (next a) post' exit) :
    Runs I (call >>= next) post' exit := by
  unfold Runs
  rw [ExceptT.run_bind]
  refine Ends.bind h fun result hresult => ?_
  cases result with
  | ok a => exact hnext a (hresult.1 a rfl)
  | error e => exact throw (hresult.2 e rfl)

theorem mono {post' : α → Prop} (h : Runs I call post exit) (himp : ∀ a, post a → post' a) :
    Runs I call post' exit :=
  Ends.mono h fun _ hresult => ⟨fun a heq => himp a (hresult.1 a heq), hresult.2⟩

/-- A loop that keeps a property of its accumulator. -/
theorem foldlM {step : β → α → ExceptT ε (StateT σ Option) β} {post' : β → Prop} {l : List α}
    (hstep : ∀ b, ∀ a ∈ l, post' b → Runs I (step b a) post' exit) :
    ∀ {b : β}, post' b → Runs I (l.foldlM step b) post' exit := by
  induction l with
  | nil => exact fun hb => pure hb
  | cons a l ih =>
      intro b hb
      rw [List.foldlM_cons]
      exact (hstep b a List.mem_cons_self hb).bind fun b' hb' =>
        ih (fun b a ha => hstep b a (List.mem_cons_of_mem _ ha)) hb'

theorem mapM {f : α → ExceptT ε (StateT σ Option) β} {post' : β → Prop} {l : List α}
    (hf : ∀ a ∈ l, Runs I (f a) post' exit) :
    Runs I (l.mapM f) (fun bs => ∀ b ∈ bs, post' b) exit := by
  induction l with
  | nil => exact pure fun _ hb => absurd hb List.not_mem_nil
  | cons a l ih =>
      rw [List.mapM_cons]
      refine (hf a List.mem_cons_self).bind fun b hb => ?_
      refine (ih fun a ha => hf a (List.mem_cons_of_mem _ ha)).bind fun bs hbs => ?_
      exact pure fun c hc => (List.mem_cons.mp hc).elim (fun h => h ▸ hb) (hbs c)

/-- A loop that steps like a pure function folds like it. -/
theorem foldlM_eq {step : β → α → ExceptT ε (StateT σ Option) β} {next : β → α → β} {l : List α}
    (hstep : ∀ b, ∀ a ∈ l, Runs I (step b a) (fun r => r = next b a) exit) :
    ∀ b : β, Runs I (l.foldlM step b) (fun r => r = l.foldl next b) exit := by
  induction l with
  | nil => exact fun b => pure rfl
  | cons a l ih =>
      intro b
      rw [List.foldlM_cons, List.foldl_cons]
      refine (hstep b a List.mem_cons_self).bind fun b' hb' => ?_
      rw [hb']
      exact ih (fun b a ha => hstep b a (List.mem_cons_of_mem _ ha)) (next b a)

/-- The answers of a list of calls, each for its own element. -/
theorem mapM_forall₂ {f : α → ExceptT ε (StateT σ Option) β} {rel : α → β → Prop} {l : List α}
    (hf : ∀ a ∈ l, Runs I (f a) (rel a) exit) :
    Runs I (l.mapM f) (List.Forall₂ rel l) exit := by
  induction l with
  | nil => exact pure .nil
  | cons a l ih =>
      rw [List.mapM_cons]
      refine (hf a List.mem_cons_self).bind fun b hb => ?_
      exact (ih fun a ha => hf a (List.mem_cons_of_mem _ ha)).bind fun bs hbs =>
        pure (.cons hb hbs)

end Runs

/-! ## Fallible calls -/

/-- The pure answer, or an error that stopped the call. -/
def Answers (stop : ε → Prop) (answer result : Except ε α) : Prop :=
  result = answer ∨ ∃ e, stop e ∧ result = .error e

/-- The call answers like a pure computation. -/
def AnswersLike (I : σ → Prop) (stop : ε → Prop) (call : ExceptT ε (StateT σ Option) α)
    (answer : Except ε α) : Prop :=
  Ends I call.run (Answers stop answer)

namespace AnswersLike

variable {stop : ε → Prop} {call : ExceptT ε (StateT σ Option) α} {answer : Except ε α}

theorem pure (a : α) : AnswersLike I stop (Pure.pure a) (Pure.pure a) :=
  Ends.pure (.inl rfl)

theorem throw (e : ε) :
    AnswersLike (α := α) I stop (MonadExceptOf.throw e) (MonadExceptOf.throw e) :=
  Ends.pure (.inl rfl)

/-- An access of the state whose result the answer does not depend on. -/
theorem lift_bind {access : StateT σ Option β} {post : β → Prop} (h : Ends I access post)
    {next : β → ExceptT ε (StateT σ Option) α}
    (hnext : ∀ b, post b → AnswersLike I stop (next b) answer) :
    AnswersLike I stop (ExceptT.lift access >>= next) answer := by
  unfold AnswersLike
  rw [ExceptT.run_bind_lift]
  exact Ends.bind h hnext

theorem bind {next : α → ExceptT ε (StateT σ Option) β} {answer' : α → Except ε β}
    (h : AnswersLike I stop call answer)
    (hnext : ∀ a, answer = .ok a → AnswersLike I stop (next a) (answer' a)) :
    AnswersLike I stop (call >>= next) (answer >>= answer') := by
  unfold AnswersLike
  rw [ExceptT.run_bind]
  refine Ends.bind h fun result hresult => ?_
  rcases hresult with rfl | ⟨e, he, rfl⟩
  · cases result with
    | ok a => exact hnext a rfl
    | error e => exact Ends.pure (.inl rfl)
  · exact Ends.pure (.inr ⟨e, he, rfl⟩)

/-- A call whose errors are renamed. -/
theorem mapError {ε' : Type} {stop' : ε' → Prop} (h : AnswersLike I stop call answer)
    (f : ε → ε') (hstop : ∀ e, stop e → stop' (f e)) :
    AnswersLike I stop' (ExceptT.mk (call.run >>= fun result => Pure.pure (result.mapError f)))
      (answer.mapError f) := by
  refine Ends.bind h fun result hresult => Ends.pure ?_
  rcases hresult with rfl | ⟨e, he, rfl⟩
  · exact .inl rfl
  · exact .inr ⟨f e, hstop e he, rfl⟩

theorem foldlM {step : β → α → ExceptT ε (StateT σ Option) β}
    {answer' : β → α → Except ε β} {l : List α}
    (hstep : ∀ b, ∀ a ∈ l, AnswersLike I stop (step b a) (answer' b a)) :
    ∀ b : β, AnswersLike I stop (l.foldlM step b) (l.foldlM answer' b) := by
  induction l with
  | nil => exact fun b => pure b
  | cons a l ih =>
      intro b
      rw [List.foldlM_cons, List.foldlM_cons]
      exact (hstep b a List.mem_cons_self).bind fun b' _ =>
        ih (fun b a ha => hstep b a (List.mem_cons_of_mem _ ha)) b'

end AnswersLike

/-! ## The same code over two monads -/

/-- A relation between the calls of two monads that sequencing keeps: code written over
any monad is related to itself as soon as its calls are. -/
structure MonadRelation (M N : Type → Type) [Monad M] [Monad N] where
  rel : ∀ {α : Type}, M α → N α → Prop
  pure : ∀ {α : Type} (a : α), rel (Pure.pure a) (Pure.pure a)
  bind : ∀ {α β : Type} {x : M α} {y : N α} {f : α → M β} {g : α → N β},
    rel x y → (∀ a, rel (f a) (g a)) → rel (x >>= f) (y >>= g)

/-- A fallible call answers like a pure one. -/
def answersLike (I : σ → Prop) (stop : ε → Prop) :
    MonadRelation (ExceptT ε (StateT σ Option)) (Except ε) where
  rel := AnswersLike I stop
  pure := AnswersLike.pure
  bind h hnext := h.bind fun a _ => hnext a

/-- The answer is given, or an error stopped the call. -/
def answersWith (I : σ → Prop) (stop : ε → Prop) :
    MonadRelation (ExceptT ε (StateT σ Option)) Id where
  rel call answer := AnswersLike I stop call (.ok answer.run)
  pure a := AnswersLike.pure a
  bind {_ β _ _ _ g} h hnext := by
    let answer : _ → Except ε β := fun a => .ok (g a).run
    exact AnswersLike.bind h (fun a _ => (hnext a : AnswersLike I stop _ (answer a)))

namespace MonadRelation

variable {M N : Type → Type} [Monad M] [Monad N] (R : MonadRelation M N)

theorem foldlM {step : β → α → M β} {step' : β → α → N β} {l : List α}
    (hstep : ∀ b, ∀ a ∈ l, R.rel (step b a) (step' b a)) :
    ∀ b : β, R.rel (l.foldlM step b) (l.foldlM step' b) := by
  induction l with
  | nil => exact fun b => R.pure b
  | cons a l ih =>
      intro b
      rw [List.foldlM_cons, List.foldlM_cons]
      exact R.bind (hstep b a List.mem_cons_self) fun b' =>
        ih (fun b a ha => hstep b a (List.mem_cons_of_mem _ ha)) b'

/-- The same relation of calls that may throw. -/
def exceptT (R : MonadRelation M N) (ε : Type) :
    MonadRelation (ExceptT ε M) (ExceptT ε N) where
  rel x y := R.rel x.run y.run
  pure {α} a := R.pure (Except.ok a : Except ε α)
  bind {_ β _ _ _ _} h hnext := R.bind h fun result => by
    cases result with
    | ok a => exact hnext a
    | error e => exact R.pure (Except.error e : Except ε β)

theorem exceptT_throw (e : ε) :
    (R.exceptT ε).rel (α := α) (MonadExceptOf.throw e) (MonadExceptOf.throw e) :=
  R.pure (Except.error e : Except ε α)

theorem exceptT_lift [LawfulMonad M] [LawfulMonad N] {x : M α} {y : N α} (h : R.rel x y) :
    (R.exceptT ε).rel (ExceptT.lift x) (ExceptT.lift y) := by
  show R.rel (ExceptT.lift x).run (ExceptT.lift y).run
  rw [ExceptT.run_lift, ExceptT.run_lift, map_eq_pure_bind, map_eq_pure_bind]
  exact R.bind h fun a => R.pure (Except.ok a : Except ε α)

end MonadRelation

end StatefulCall
