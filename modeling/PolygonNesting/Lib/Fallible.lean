import Mathlib.Data.List.Basic
import Mathlib.Data.List.Forall2
import Mathlib.Logic.Function.Basic

/-!
# Fallible computations that succeed

What a successful `bind`, `map`, `mapM` or `foldlM` in `Except` went through, and
how `mapM` in `Option` commutes with a map of the results; and what two lists have
from a relation of their elements one by one.
-/

variable {ε α β σ : Type}

theorem except_bind_eq_ok {x : Except ε α} {f : α → Except ε β} {b : β}
    (h : x.bind f = .ok b) : ∃ a, x = .ok a ∧ f a = .ok b := by
  cases x with
  | error error => cases h
  | ok a => exact ⟨a, rfl, h⟩

theorem except_bind_ok (x : Except ε α) (f : α → β) :
    (x.bind fun a => .ok (f a)) = x.map f := by
  cases x <;> rfl

theorem except_map_eq_ok {x : Except ε α} {f : α → β} {b : β} (h : x.map f = .ok b) :
    ∃ a, x = .ok a ∧ f a = b := by
  cases x with
  | error error => cases h
  | ok a => exact ⟨a, rfl, Except.ok.inj h⟩

/-- Every element of a list mapped with success has its image in the result. -/
theorem except_mapM_eq_ok {f : α → Except ε β} :
    ∀ {l : List α} {bs : List β}, l.mapM f = .ok bs → ∀ a ∈ l, ∃ b ∈ bs, f a = .ok b
  | [], _, _ => by simp
  | a :: l, bs, h => by
      rw [List.mapM_cons] at h
      obtain ⟨b, hb, hrest⟩ := except_bind_eq_ok h
      obtain ⟨bs', hbs', hfinal⟩ := except_bind_eq_ok hrest
      obtain rfl := Except.ok.inj hfinal
      intro a' ha'
      rcases List.mem_cons.1 ha' with rfl | ha'
      · exact ⟨b, List.mem_cons_self, hb⟩
      · obtain ⟨b', hmem, hb'⟩ := except_mapM_eq_ok hbs' a' ha'
        exact ⟨b', List.mem_cons_of_mem _ hmem, hb'⟩

/-- Where it is known when a step succeeds and with what, so it is of the whole list. -/
theorem except_mapM_ok_iff {f : α → Except ε β} {P : α → Prop} {g : α → β}
    (hstep : ∀ a b, f a = .ok b ↔ P a ∧ b = g a) :
    ∀ {l : List α} {bs : List β}, l.mapM f = .ok bs ↔ (∀ a ∈ l, P a) ∧ bs = l.map g
  | [], bs => by
      rw [List.mapM_nil, List.map_nil]
      constructor
      · intro h
        exact ⟨by simp, (Except.ok.inj h).symm⟩
      · rintro ⟨-, rfl⟩
        rfl
  | a :: l, bs => by
      rw [List.mapM_cons, List.map_cons, List.forall_mem_cons]
      constructor
      · intro h
        obtain ⟨b, hb, hrest⟩ := except_bind_eq_ok h
        obtain ⟨bs', hbs', hfinal⟩ := except_bind_eq_ok hrest
        obtain rfl := Except.ok.inj hfinal
        obtain ⟨hhead, rfl⟩ := (hstep a b).1 hb
        obtain ⟨htail, rfl⟩ := (except_mapM_ok_iff hstep).1 hbs'
        exact ⟨⟨hhead, htail⟩, rfl⟩
      · rintro ⟨⟨hhead, htail⟩, rfl⟩
        rw [(hstep a (g a)).2 ⟨hhead, rfl⟩, (except_mapM_ok_iff hstep).2 ⟨htail, rfl⟩]
        rfl

/-- An invariant of every step is one of the whole fold. -/
theorem except_foldlM_induct {f : σ → α → Except ε σ} {P : σ → Prop} :
    ∀ {l : List α} {s s' : σ}, (∀ a ∈ l, ∀ s s', P s → f s a = .ok s' → P s') → P s →
      l.foldlM f s = .ok s' → P s'
  | [], _, _, _, hs, h => by
      obtain rfl := Except.ok.inj h
      exact hs
  | a :: l, _, _, hstep, hs, h => by
      rw [List.foldlM_cons] at h
      obtain ⟨next, hnext, hrest⟩ := except_bind_eq_ok h
      exact except_foldlM_induct (fun b hb => hstep b (List.mem_cons_of_mem _ hb))
        (hstep a List.mem_cons_self _ _ hs hnext) hrest

/-- An invariant of the elements a fold has gone through and its state. -/
theorem except_foldlM_prefix {f : σ → α → Except ε σ} {P : List α → σ → Prop}
    (hstep : ∀ done a s s', P done s → f s a = .ok s' → P (done ++ [a]) s') :
    ∀ {l done : List α} {s s' : σ}, P done s → l.foldlM f s = .ok s' → P (done ++ l) s'
  | [], done, _, _, hs, h => by
      obtain rfl := Except.ok.inj h
      rwa [List.append_nil]
  | a :: l, done, _, _, hs, h => by
      rw [List.foldlM_cons] at h
      obtain ⟨next, hnext, hrest⟩ := except_bind_eq_ok h
      have hlast := except_foldlM_prefix hstep (hstep done a _ _ hs hnext) hrest
      rwa [List.append_assoc] at hlast

/-- A fold whose steps all succeed. -/
theorem except_foldlM_ok {f : σ → α → Except ε σ} {g : σ → α → σ} :
    ∀ {l : List α} {s : σ}, (∀ a ∈ l, ∀ s, f s a = .ok (g s a)) →
      l.foldlM f s = .ok (l.foldl g s)
  | [], _, _ => rfl
  | a :: l, s, h => by
      rw [List.foldlM_cons, h a List.mem_cons_self, List.foldl_cons]
      exact except_foldlM_ok fun b hb => h b (List.mem_cons_of_mem _ hb)

/-- A fold with a step that always fails, where every failure is the same. -/
theorem except_foldlM_error {f : σ → α → Except ε σ} {e : ε} :
    ∀ {l : List α} {s : σ}, (∀ a ∈ l, ∀ s, (∃ s', f s a = .ok s') ∨ f s a = .error e) →
      (∃ a ∈ l, ∀ s, f s a = .error e) → l.foldlM f s = .error e
  | [], _, _, h => by
      obtain ⟨a, ha, -⟩ := h
      cases ha
  | a :: l, s, hsteps, h => by
      rw [List.foldlM_cons]
      rcases hsteps a List.mem_cons_self s with ⟨s', hs'⟩ | herror
      · rw [hs']
        obtain ⟨b, hb, hfails⟩ := h
        rcases List.mem_cons.mp hb with rfl | hb
        · rw [hfails s] at hs'
          cases hs'
        · exact except_foldlM_error (fun c hc => hsteps c (List.mem_cons_of_mem _ hc))
            ⟨b, hb, hfails⟩
      · rw [herror]
        rfl

/-- Mapping each result is mapping the list of results. -/
theorem option_mapM_map (f : α → Option β) (g : β → σ) :
    ∀ l : List α, (l.mapM fun a => (f a).map g) = (l.mapM f).map (List.map g)
  | [] => rfl
  | a :: l => by
      rw [List.mapM_cons, List.mapM_cons, option_mapM_map f g l]
      cases f a with
      | none => rfl
      | some b => cases l.mapM f <;> rfl

/-- A property of every result is one of every member of the result list. -/
theorem option_mapM_eq_some {f : α → Option β} :
    ∀ {l : List α} {bs : List β}, l.mapM f = some bs → ∀ b ∈ bs, ∃ a ∈ l, f a = some b
  | [], _, h => by
      obtain rfl := Option.some.inj h
      simp
  | a :: l, bs, h => by
      rw [List.mapM_cons] at h
      obtain ⟨b, hb, hrest⟩ := Option.bind_eq_some_iff.mp h
      obtain ⟨bs', hbs', hfinal⟩ := Option.bind_eq_some_iff.mp hrest
      obtain rfl := Option.some.inj hfinal
      intro b' hb'
      rcases List.mem_cons.1 hb' with rfl | hb'
      · exact ⟨a, List.mem_cons_self, hb⟩
      · obtain ⟨a', hmem, ha'⟩ := option_mapM_eq_some hbs' b' hb'
        exact ⟨a', List.mem_cons_of_mem _ hmem, ha'⟩

/-- A list on which the computation never fails. -/
theorem option_mapM_some {f : α → Option β} {g : α → β} {l : List α}
    (h : ∀ a ∈ l, f a = some (g a)) : l.mapM f = some (l.map g) := by
  induction l with
  | nil => rfl
  | cons a l ih =>
      rw [List.mapM_cons, h a List.mem_cons_self,
        ih fun b hb => h b (List.mem_cons_of_mem _ hb)]
      rfl

/-- The elements and their results, one by one. -/
theorem option_mapM_forall₂ {f : α → Option β} :
    ∀ {l : List α} {bs : List β}, l.mapM f = some bs →
      List.Forall₂ (fun a b => f a = some b) l bs
  | [], _, h => by
      obtain rfl := Option.some.inj h
      exact .nil
  | a :: l, bs, h => by
      rw [List.mapM_cons] at h
      obtain ⟨b, hb, hrest⟩ := Option.bind_eq_some_iff.mp h
      obtain ⟨bs', hbs', hfinal⟩ := Option.bind_eq_some_iff.mp hrest
      obtain rfl := Option.some.inj hfinal
      exact .cons hb (option_mapM_forall₂ hbs')

/-- A fold that never fails, with an invariant of the elements it has gone through. -/
theorem option_foldlM_prefix {f : σ → α → Option σ} {P : List α → σ → Prop} :
    ∀ {l done : List α} {s : σ}, (∀ done, ∀ a ∈ l, ∀ s, P done s →
        ∃ s', f s a = some s' ∧ P (done ++ [a]) s') → P done s →
      ∃ s', l.foldlM f s = some s' ∧ P (done ++ l) s'
  | [], done, s, _, hs => ⟨s, rfl, by rwa [List.append_nil]⟩
  | a :: l, done, s, hstep, hs => by
      obtain ⟨next, hnext, hP⟩ := hstep done a List.mem_cons_self s hs
      obtain ⟨last, hlast, hP'⟩ := option_foldlM_prefix
        (fun done b hb => hstep done b (List.mem_cons_of_mem _ hb)) hP
      refine ⟨last, ?_, by rwa [List.append_assoc] at hP'⟩
      rw [List.foldlM_cons, hnext]
      exact hlast

/-- An invariant of the elements a fold has gone through, when it does not fail. -/
theorem option_foldlM_eq_some {f : σ → α → Option σ} {P : List α → σ → Prop} :
    ∀ {l done : List α} {s s' : σ}, (∀ done, ∀ a ∈ l, ∀ s s', P done s → f s a = some s' →
        P (done ++ [a]) s') → P done s → l.foldlM f s = some s' → P (done ++ l) s'
  | [], done, _, _, _, hs, h => by
      obtain rfl := Option.some.inj h
      rwa [List.append_nil]
  | a :: l, done, _, _, hstep, hs, h => by
      rw [List.foldlM_cons] at h
      obtain ⟨next, hnext, hrest⟩ := Option.bind_eq_some_iff.mp h
      have hlast := option_foldlM_eq_some
        (fun done b hb => hstep done b (List.mem_cons_of_mem _ hb))
        (hstep done a List.mem_cons_self _ _ hs hnext) hrest
      rwa [List.append_assoc] at hlast

/-! ## Lists related one by one -/

theorem forall₂_exists {R : α → β → Prop} :
    ∀ {l : List α} {l' : List β}, List.Forall₂ R l l' → ∀ a ∈ l, ∃ b ∈ l', R a b
  | _, _, .nil => by simp
  | _, _, .cons (a := a) (b := b) hab h => by
      intro a' ha'
      rcases List.mem_cons.1 ha' with rfl | ha'
      · exact ⟨b, List.mem_cons_self, hab⟩
      · obtain ⟨b', hb', hab'⟩ := forall₂_exists h a' ha'
        exact ⟨b', List.mem_cons_of_mem _ hb', hab'⟩

/-- Two lists that are related to a third. -/
theorem forall₂_join {R : α → β → Prop} {S : α → σ → Prop} {T : β → σ → Prop} :
    ∀ {l : List α} {bs : List β} {cs : List σ}, List.Forall₂ R l bs → List.Forall₂ S l cs →
      (∀ a, ∀ b ∈ bs, ∀ c, R a b → S a c → T b c) → List.Forall₂ T bs cs
  | _, _, _, .nil, h, _ => by
      cases h
      exact .nil
  | _, _, _, .cons hab hrest, h, hstep => by
      cases h with
      | cons hac h =>
          refine .cons (hstep _ _ List.mem_cons_self _ hab hac) (forall₂_join hrest h ?_)
          exact fun a b hb => hstep a b (List.mem_cons_of_mem _ hb)

/-- The results of the elements, where each is an image. -/
theorem forall₂_choose {R : α → β → Prop} {f : β → σ} :
    ∀ {l : List α} {cs : List σ}, List.Forall₂ (fun a c => ∃ b, R a b ∧ c = f b) l cs →
      ∃ bs, List.Forall₂ R l bs ∧ cs = bs.map f
  | _, _, .nil => ⟨[], .nil, rfl⟩
  | _, _, .cons hac hrest => by
      obtain ⟨b, hab, rfl⟩ := hac
      obtain ⟨bs, hbs, rfl⟩ := forall₂_choose hrest
      exact ⟨b :: bs, .cons hab hbs, rfl⟩

/-- A relation of every two elements in order is one of their results. -/
theorem forall₂_pairwise {R : α → β → Prop} {S : α → α → Prop} {T : β → β → Prop}
    (hstep : ∀ a a' b b', R a b → R a' b' → S a a' → T b b') :
    ∀ {l : List α} {bs : List β}, List.Forall₂ R l bs → l.Pairwise S → bs.Pairwise T
  | _, _, .nil, _ => .nil
  | _, _, .cons hab hrest, h => by
      obtain ⟨hfirst, hlater⟩ := List.pairwise_cons.mp h
      refine List.pairwise_cons.mpr ⟨fun b' hb' => ?_, forall₂_pairwise hstep hrest hlater⟩
      obtain ⟨a', ha', hab'⟩ := forall₂_exists hrest.flip b' hb'
      exact hstep _ _ _ _ hab hab' (hfirst a' ha')
