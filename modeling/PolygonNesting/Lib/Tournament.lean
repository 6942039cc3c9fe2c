import PolygonNesting.Lib.Comparator

/-!
# Tournaments

A selection takes two entrants, of which either may be missing, and keeps an accepted one
that is not after the other.  Played in any bracket such a selection keeps a least of all
accepted entrants, as soon as the comparator is consistent on them; two brackets of the
same entrants end with winners that tie.
-/

namespace Tournament

open Comparator

variable {α : Type} {S A : α → Prop} {cmp : α → α → Ordering}

/-! ## §1  Brackets -/

/-- Who plays whom. -/
inductive Bracket (α : Type) where
  | entrant (entrant : Option α)
  | pairing (first second : Bracket α)

namespace Bracket

def entrants : Bracket α → List α
  | entrant candidate => candidate.toList
  | pairing first second => first.entrants ++ second.entrants

def winner (select : Option α → Option α → Option α) : Bracket α → Option α
  | entrant candidate => candidate
  | pairing first second => select (first.winner select) (second.winner select)

end Bracket

/-! ## §2  Keeping one of several -/

/-- One of some entrants is kept: if any is accepted, a least of the accepted. -/
structure Keeps (A : α → Prop) (cmp : α → α → Ordering) (entrants : List α)
    (kept : Option α) : Prop where
  mem : ∀ winner ∈ kept, winner ∈ entrants
  least : ∀ winner ∈ kept, A winner → ∀ a ∈ entrants, A a → (cmp winner a).isLE = true
  exists_accepted : ∀ a ∈ entrants, A a → ∃ winner ∈ kept, A winner

/-- Only an accepted entrant is kept. -/
structure Optimal (A : α → Prop) (cmp : α → α → Ordering) (entrants : List α)
    (kept : Option α) : Prop extends Keeps A cmp entrants kept where
  accepted : ∀ winner ∈ kept, A winner

variable {entrants entrants' first second : List α} {kept keptFirst keptSecond : Option α}

theorem optimal_some {winner : α} (hmem : winner ∈ entrants) (haccepted : A winner)
    (hleast : ∀ a ∈ entrants, A a → (cmp winner a).isLE = true) :
    Optimal A cmp entrants (some winner) where
  mem _ h := Option.some.inj h ▸ hmem
  least _ h _ := Option.some.inj h ▸ hleast
  exists_accepted _ _ _ := ⟨winner, rfl, haccepted⟩
  accepted _ h := Option.some.inj h ▸ haccepted

theorem optimal_none (h : ∀ a ∈ entrants, ¬A a) : Optimal A cmp entrants none where
  mem _ hmem := nomatch hmem
  least _ hmem := nomatch hmem
  exists_accepted a ha hacc := absurd hacc (h a ha)
  accepted _ hmem := nomatch hmem

/-- A single entrant is kept. -/
theorem keeps_toList (hcmp : OrderOn S cmp) {candidate : Option α}
    (hS : ∀ a ∈ candidate, A a → S a) : Keeps A cmp candidate.toList candidate where
  mem winner hwinner := Option.mem_toList.mpr hwinner
  least winner hwinner hacc a ha _ := by
    rw [Option.mem_toList] at ha
    obtain rfl := Option.mem_unique hwinner ha
    exact hcmp.self_isLE (hS winner hwinner hacc)
  exists_accepted a ha hacc := ⟨a, Option.mem_toList.mp ha, hacc⟩

/-- **A least of the kept is a least of all.** -/
theorem Keeps.trans (hcmp : OrderOn S cmp) (hS : ∀ a ∈ first ++ second, A a → S a)
    (hfirst : Keeps A cmp first keptFirst) (hsecond : Keeps A cmp second keptSecond)
    (h : Optimal A cmp (keptFirst.toList ++ keptSecond.toList) kept) :
    Optimal A cmp (first ++ second) kept := by
  -- nothing accepted is before both of the kept
  have hbelow : ∀ a ∈ first ++ second, A a →
      ∃ b ∈ keptFirst.toList ++ keptSecond.toList, b ∈ first ++ second ∧ A b ∧
        (cmp b a).isLE = true := by
    intro a ha hacc
    rcases List.mem_append.mp ha with ha | ha
    · obtain ⟨b, hb, hbacc⟩ := hfirst.exists_accepted a ha hacc
      exact ⟨b, List.mem_append_left _ (Option.mem_toList.mpr hb),
        List.mem_append_left _ (hfirst.mem b hb), hbacc, hfirst.least b hb hbacc a ha hacc⟩
    · obtain ⟨b, hb, hbacc⟩ := hsecond.exists_accepted a ha hacc
      exact ⟨b, List.mem_append_right _ (Option.mem_toList.mpr hb),
        List.mem_append_right _ (hsecond.mem b hb), hbacc, hsecond.least b hb hbacc a ha hacc⟩
  have hmem : ∀ winner ∈ kept, winner ∈ first ++ second := by
    intro winner hwinner
    rcases List.mem_append.mp (h.mem winner hwinner) with hkept | hkept
    · exact List.mem_append_left _ (hfirst.mem winner (Option.mem_toList.mp hkept))
    · exact List.mem_append_right _ (hsecond.mem winner (Option.mem_toList.mp hkept))
  refine { mem := hmem, accepted := h.accepted, least := ?_, exists_accepted := ?_ }
  · intro winner hwinner hwin a ha hacc
    obtain ⟨b, hb, hball, hbacc, hba⟩ := hbelow a ha hacc
    exact hcmp.isLE_trans (hS winner (hmem winner hwinner) hwin) (hS b hball hbacc)
      (hS a ha hacc) (h.least winner hwinner hwin b hb hbacc) hba
  · intro a ha hacc
    obtain ⟨b, hb, -, hbacc, -⟩ := hbelow a ha hacc
    exact h.exists_accepted b hb hbacc

/-- A least by another comparator that agrees on the accepted entrants. -/
theorem Optimal.congr {order : α → α → Ordering} (h : Optimal A cmp entrants kept)
    (heq : ∀ a ∈ entrants, ∀ b ∈ entrants, A a → A b → cmp a b = order a b) :
    Optimal A order entrants kept where
  mem := h.mem
  least winner hwinner hwin a ha hacc := by
    rw [← heq winner (h.mem winner hwinner) a ha hwin hacc]
    exact h.least winner hwinner hwin a ha hacc
  exists_accepted := h.exists_accepted
  accepted := h.accepted

theorem Optimal.isSome_iff (h : Optimal A cmp entrants kept) :
    kept.isSome = true ↔ ∃ a ∈ entrants, A a := by
  constructor
  · intro hkept
    obtain ⟨winner, rfl⟩ := Option.isSome_iff_exists.mp hkept
    exact ⟨winner, h.mem winner rfl, h.accepted winner rfl⟩
  · rintro ⟨a, ha, hacc⟩
    obtain ⟨winner, hwinner, -⟩ := h.exists_accepted a ha hacc
    exact Option.isSome_iff_exists.mpr ⟨winner, hwinner⟩

/-- Two leasts of the same entrants tie. -/
theorem Optimal.tie (hcmp : OrderOn S cmp) (hS : ∀ a ∈ entrants, A a → S a)
    (hperm : entrants.Perm entrants') {a b : α} (ha : Optimal A cmp entrants (some a))
    (hb : Optimal A cmp entrants' (some b)) : cmp a b = .eq := by
  have hacc : A a := ha.accepted a rfl
  have hacc' : A b := hb.accepted b rfl
  have hmem : a ∈ entrants := ha.mem a rfl
  have hmem' : b ∈ entrants := hperm.mem_iff.mpr (hb.mem b rfl)
  exact hcmp.eq_of_isLE (hS a hmem hacc) (hS b hmem' hacc')
    (ha.least a rfl hacc b hmem' hacc')
    (hb.least b rfl hacc' a (hperm.mem_iff.mp hmem) hacc)

/-! ## §3  The winner -/

/-- The selection keeps an accepted entrant that is not after the other. -/
def Selects (S A : α → Prop) (cmp : α → α → Ordering)
    (select : Option α → Option α → Option α) : Prop :=
  ∀ first second : Option α, (∀ a ∈ first.toList ++ second.toList, A a → S a) →
    Optimal A cmp (first.toList ++ second.toList) (select first second)

section

variable {select : Option α → Option α → Option α}

/-- One more pairing. -/
theorem Selects.pairing (hcmp : OrderOn S cmp) (hselect : Selects S A cmp select)
    (hS : ∀ a ∈ first ++ second, A a → S a) (hfirst : Keeps A cmp first keptFirst)
    (hsecond : Keeps A cmp second keptSecond) :
    Optimal A cmp (first ++ second) (select keptFirst keptSecond) := by
  refine hfirst.trans hcmp hS hsecond (hselect _ _ fun a ha => hS a ?_)
  rcases List.mem_append.mp ha with ha | ha
  · exact List.mem_append_left _ (hfirst.mem a (Option.mem_toList.mp ha))
  · exact List.mem_append_right _ (hsecond.mem a (Option.mem_toList.mp ha))

theorem keeps_winner (hcmp : OrderOn S cmp) (hselect : Selects S A cmp select)
    (bracket : Bracket α) (hS : ∀ a ∈ bracket.entrants, A a → S a) :
    Keeps A cmp bracket.entrants (bracket.winner select) := by
  induction bracket with
  | entrant candidate => exact keeps_toList hcmp fun a ha => hS a (Option.mem_toList.mpr ha)
  | pairing first second ihfirst ihsecond =>
      exact (hselect.pairing hcmp hS
        (ihfirst fun a ha => hS a (List.mem_append_left _ ha))
        (ihsecond fun a ha => hS a (List.mem_append_right _ ha))).toKeeps

/-- **Whatever the bracket, the winner of its last pairing is a least of all accepted
entrants.** -/
theorem winner_optimal (hcmp : OrderOn S cmp) (hselect : Selects S A cmp select)
    (first second : Bracket α) (hS : ∀ a ∈ (first.pairing second).entrants, A a → S a) :
    Optimal A cmp (first.pairing second).entrants ((first.pairing second).winner select) :=
  hselect.pairing hcmp hS
    (keeps_winner hcmp hselect first fun a ha => hS a (List.mem_append_left _ ha))
    (keeps_winner hcmp hselect second fun a ha => hS a (List.mem_append_right _ ha))

end

end Tournament
