import Mathlib.Data.List.Basic
import Mathlib.Data.List.Forall2
import Mathlib.Logic.Function.Basic

/-!
# Codes that can be split off a text

`Splits f` says that a text starting with a code word of `f` determines the
value and the rest.  Injectivity of a format written by concatenation follows
from the rules below, one for each way a format is put together: sequencing,
fixed brackets, and repetition up to a terminator.

A code word that does not show its own end, such as a number, splits off only where
a stop symbol follows: `AtStop`.
-/

namespace PrefixFree

variable {α β γ : Type*}

/-- A text that starts with a code word of `f` determines value and rest. -/
def Splits (f : α → List γ) : Prop :=
  ∀ (a b : α) (r r' : List γ), f a ++ r = f b ++ r' → a = b ∧ r = r'

theorem Splits.injective {f : α → List γ} (h : Splits f) :
    Function.Injective f := fun a b hab =>
  (h a b [] [] (by rw [hab])).1

/-- A decoder that reads one code word back shows that the code splits off. -/
theorem Splits.of_decoder {f : α → List γ}
    {decode : List γ → Option (α × List γ)}
    (h : ∀ a r, decode (f a ++ r) = some (a, r)) : Splits f := by
  intro a b r r' hab
  have hsome : some (a, r) = some (b, r') := by rw [← h a r, hab, h b r']
  exact Prod.mk.inj (Option.some.inj hsome)

/-- Sequencing: the second code word starts where the first one ends. -/
theorem Splits.prod {f : α → List γ} {g : β → List γ} (hf : Splits f)
    (hg : Splits g) : Splits fun p : α × β => f p.1 ++ g p.2 := by
  rintro ⟨a, b⟩ ⟨a', b'⟩ r r' h
  simp only [List.append_assoc] at h
  obtain ⟨rfl, h'⟩ := hf _ _ _ _ h
  obtain ⟨rfl, hr⟩ := hg _ _ _ _ h'
  exact ⟨rfl, hr⟩

/-- A fixed opening text. -/
theorem Splits.opening {f : α → List γ} (hf : Splits f) (pre : List γ) :
    Splits fun a => pre ++ f a := by
  intro a b r r' h
  simp only [List.append_assoc] at h
  exact hf _ _ _ _ (List.append_cancel_left h)

/-- Reading the value through an injective map. -/
theorem Splits.comp {f : β → List γ} (hf : Splits f) {g : α → β}
    (hg : Function.Injective g) : Splits fun a => f (g a) := by
  intro a b r r' h
  obtain ⟨hab, hr⟩ := hf _ _ _ _ h
  exact ⟨hg hab, hr⟩

/-- Repetition up to the end of the text. -/
theorem Splits.flatMap_injective {f : α → List γ} (hf : Splits f) (hne : ∀ a, f a ≠ []) :
    Function.Injective fun l : List α => l.flatMap f := by
  intro l
  induction l with
  | nil =>
      intro l' h
      cases l' with
      | nil => rfl
      | cons b l' =>
          simp only [List.flatMap_nil, List.flatMap_cons] at h
          exact absurd (List.append_eq_nil_iff.mp h.symm).1 (hne b)
  | cons a l ih =>
      intro l' h
      cases l' with
      | nil =>
          simp only [List.flatMap_nil, List.flatMap_cons] at h
          exact absurd (List.append_eq_nil_iff.mp h).1 (hne a)
      | cons b l' =>
          simp only [List.flatMap_cons] at h
          obtain ⟨rfl, hrest⟩ := hf _ _ _ _ h
          rw [ih hrest]

/-- **Repetition up to a terminator** that no code word starts with. -/
theorem Splits.many {f : α → List γ} (hf : Splits f) {stop : γ}
    (hstop : ∀ a r r', f a ++ r ≠ stop :: r') :
    Splits fun l : List α => l.flatMap f ++ [stop] := by
  intro l
  induction l with
  | nil =>
      intro l' r r' h
      cases l' with
      | nil => exact ⟨rfl, by simpa using h⟩
      | cons b l' =>
          simp only [List.flatMap_nil, List.nil_append, List.flatMap_cons,
            List.append_assoc, List.singleton_append] at h
          exact absurd h.symm (hstop b _ _)
  | cons a l ih =>
      intro l' r r' h
      cases l' with
      | nil =>
          simp only [List.flatMap_nil, List.nil_append, List.flatMap_cons,
            List.append_assoc, List.singleton_append] at h
          exact absurd h (hstop a _ _)
      | cons b l' =>
          simp only [List.flatMap_cons, List.append_assoc] at h
          obtain ⟨rfl, h'⟩ := hf _ _ _ _ h
          obtain ⟨rfl, hr⟩ := ih _ _ _ (by simpa only [List.append_assoc] using h')
          exact ⟨rfl, hr⟩

/-! ## Stop symbols and separated lists -/

section Stops

variable {stop : γ → Prop}

/-- The text is at its end, or goes on with a stop symbol. -/
def AtStop (stop : γ → Prop) (text : List γ) : Prop :=
  ∀ symbol rest, text = symbol :: rest → stop symbol

theorem atStop_nil : AtStop stop [] := by
  intro symbol rest h
  cases h

theorem atStop_cons {symbol : γ} (h : stop symbol) (rest : List γ) :
    AtStop stop (symbol :: rest) := by
  intro symbol' rest' h'
  cases h'
  exact h

/-- Two words without a stop symbol that both end at a stop. -/
theorem eq_of_atStop {word : List γ} : ∀ {word' r r' : List γ},
    (∀ symbol ∈ word, ¬ stop symbol) → (∀ symbol ∈ word', ¬ stop symbol) →
    AtStop stop r → AtStop stop r' → word ++ r = word' ++ r' → word = word' ∧ r = r' := by
  induction word with
  | nil =>
      intro word' r r' _ hword' hr _ h
      cases word' with
      | nil => exact ⟨rfl, h⟩
      | cons symbol word' =>
          exact absurd (hr symbol _ h) (hword' symbol List.mem_cons_self)
  | cons symbol word ih =>
      intro word' r r' hword hword' hr hr' h
      cases word' with
      | nil => exact absurd (hr' symbol _ h.symm) (hword symbol List.mem_cons_self)
      | cons symbol' word' =>
          obtain ⟨rfl, h'⟩ := List.cons.inj h
          obtain ⟨rfl, hrest⟩ := ih (fun c hc => hword c (List.mem_cons_of_mem _ hc))
            (fun c hc => hword' c (List.mem_cons_of_mem _ hc)) hr hr' h'
          exact ⟨rfl, hrest⟩

/-- The first word and then the others, each behind a separator. -/
theorem intercalate_cons_flatMap (sep : γ) (f : α → List γ) (l : List α) : ∀ first : α,
    List.intercalate [sep] ((first :: l).map f) =
      f first ++ l.flatMap fun a => sep :: f a := by
  induction l with
  | nil =>
      intro first
      rw [List.map_singleton, List.intercalate_singleton, List.flatMap_nil,
        List.append_nil]
  | cons a l ih =>
      intro first
      rw [List.map_cons, List.map_cons, List.intercalate_cons_cons, ← List.map_cons, ih,
        List.flatMap_cons]
      simp

variable {rel : α → β → Prop} {f : α → List γ} {g : β → List γ} {sep close : γ}

theorem atStop_flatMap (hsep : stop sep) (hclose : stop close) (f : α → List γ)
    (l : List α) (r : List γ) :
    AtStop stop (l.flatMap (fun a => sep :: f a) ++ close :: r) := by
  cases l with
  | nil => exact atStop_cons hclose _
  | cons a l => exact atStop_cons hsep _

/-- **Separated words up to a closing symbol**, where words that end at a stop split
off up to `rel`. -/
theorem forall₂_of_flatMap (hsep : stop sep) (hclose : stop close) (hne : sep ≠ close)
    {l : List α} : ∀ {l' : List β} {r r' : List γ},
    (∀ a ∈ l, ∀ b ∈ l', ∀ r r' : List γ, AtStop stop r → AtStop stop r' →
      f a ++ r = g b ++ r' → rel a b ∧ r = r') →
    l.flatMap (fun a => sep :: f a) ++ close :: r =
      l'.flatMap (fun b => sep :: g b) ++ close :: r' →
    List.Forall₂ rel l l' ∧ r = r' := by
  induction l with
  | nil =>
      intro l' r r' _ h
      cases l' with
      | nil => exact ⟨.nil, (List.cons.inj h).2⟩
      | cons b l' => exact absurd (List.cons.inj h).1 (Ne.symm hne)
  | cons a l ih =>
      intro l' r r' hsplit h
      cases l' with
      | nil => exact absurd (List.cons.inj h).1 hne
      | cons b l' =>
          rw [List.flatMap_cons, List.flatMap_cons, List.cons_append, List.cons_append,
            List.cons_append, List.cons_append, List.append_assoc, List.append_assoc] at h
          obtain ⟨hab, hrest⟩ := hsplit a List.mem_cons_self b List.mem_cons_self _ _
            (atStop_flatMap hsep hclose f l r) (atStop_flatMap hsep hclose g l' r')
            (List.cons.inj h).2
          obtain ⟨hall, hr⟩ := ih (fun a ha b hb =>
            hsplit a (List.mem_cons_of_mem _ ha) b (List.mem_cons_of_mem _ hb)) hrest
          exact ⟨.cons hab hall, hr⟩

theorem forall₂_of_intercalate (stop : γ → Prop) (rel : α → β → Prop) (hsep : stop sep) (hclose : stop close) (hne : sep ≠ close)
    {l : List α} {l' : List β} {r r' : List γ}
    (hsplit : ∀ a ∈ l, ∀ b ∈ l', ∀ r r' : List γ, AtStop stop r → AtStop stop r' →
      f a ++ r = g b ++ r' → rel a b ∧ r = r')
    (hopen : ∀ a ∈ l, ∀ r r' : List γ, f a ++ r ≠ close :: r')
    (hopen' : ∀ b ∈ l', ∀ r r' : List γ, g b ++ r ≠ close :: r')
    (h : List.intercalate [sep] (l.map f) ++ close :: r =
      List.intercalate [sep] (l'.map g) ++ close :: r') :
    List.Forall₂ rel l l' ∧ r = r' := by
  cases l with
  | nil =>
      cases l' with
      | nil => exact ⟨.nil, (List.cons.inj h).2⟩
      | cons b l' =>
          rw [intercalate_cons_flatMap, List.append_assoc] at h
          exact absurd h.symm (hopen' b List.mem_cons_self _ _)
  | cons a l =>
      cases l' with
      | nil =>
          rw [intercalate_cons_flatMap, List.append_assoc] at h
          exact absurd h (hopen a List.mem_cons_self _ _)
      | cons b l' =>
          rw [intercalate_cons_flatMap, intercalate_cons_flatMap, List.append_assoc,
            List.append_assoc] at h
          -- put a separator before the first words, so that all words have one
          have h' : (a :: l).flatMap (fun a => sep :: f a) ++ close :: r =
              (b :: l').flatMap (fun b => sep :: g b) ++ close :: r' := by
            rw [List.flatMap_cons, List.flatMap_cons, List.cons_append, List.cons_append,
              List.cons_append, List.cons_append, List.append_assoc, List.append_assoc, h]
          exact forall₂_of_flatMap hsep hclose hne hsplit h'

end Stops

end PrefixFree
