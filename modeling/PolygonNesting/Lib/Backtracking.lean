import Mathlib.Algebra.GroupWithZero.Nat
import Mathlib.Data.List.Basic
import Mathlib.Data.Nat.Notation
import Mathlib.Tactic.Common

/-!
# Backtracking with a stack

A tree of decisions ends in complete leaves and dead ones.  A search goes down the first
branches and saves the second ones on a stack; from a dead leaf it goes on with the branch
saved last, as long as a limit allows.  It therefore visits the leaves from the first to
the last, and the number of leaves behind it is the number of times it went back.
-/

namespace Backtracking

variable {ρ : Type}

inductive DecisionTree (ρ : Type) where
  | complete (result : ρ)
  | dead
  | single (child : DecisionTree ρ)
  | choice (first second : DecisionTree ρ)

namespace DecisionTree

/-- From the first to the last; `none` is a dead leaf. -/
def leaves : DecisionTree ρ → List (Option ρ)
  | complete result => [some result]
  | dead => [none]
  | single child => child.leaves
  | choice first second => first.leaves ++ second.leaves

def size : DecisionTree ρ → ℕ
  | complete _ => 1
  | dead => 1
  | single child => child.size + 1
  | choice first second => first.size + second.size + 1

end DecisionTree

/-! ## §1  The search -/

/-- How a search ends; each end has the number of times it went back. -/
inductive Ended (ρ : Type) where
  | complete (result : ρ) (backtracks : ℕ)
  | exhausted (backtracks : ℕ)
  | limited (backtracks : ℕ)

structure Position (ρ : Type) where
  tree : DecisionTree ρ
  saved : List (DecisionTree ρ)
  backtracks : ℕ

section

variable (limited : ℕ → Bool)

def step (position : Position ρ) : Ended ρ ⊕ Position ρ :=
  match position.tree with
  | .complete result => .inl (.complete result position.backtracks)
  | .single child => .inr { position with tree := child }
  | .choice first second => .inr { position with
      tree := first
      saved := second :: position.saved }
  | .dead =>
      match position.saved with
      | [] => .inl (.exhausted position.backtracks)
      | second :: saved =>
          if limited position.backtracks then .inl (.limited position.backtracks)
          else .inr ⟨second, saved, position.backtracks + 1⟩

/-- Leaf by leaf. -/
def scan : List (Option ρ) → ℕ → Ended ρ
  | [], backtracks => .exhausted backtracks
  | some result :: _, backtracks => .complete result backtracks
  | [none], backtracks => .exhausted backtracks
  | none :: leaf :: rest, backtracks =>
      if limited backtracks then .limited backtracks else scan (leaf :: rest) (backtracks + 1)

end

namespace Position

/-- The leaves still ahead. -/
def pending (position : Position ρ) : List (Option ρ) :=
  position.tree.leaves ++ position.saved.flatMap DecisionTree.leaves

def weight (position : Position ρ) : ℕ :=
  position.tree.size + (position.saved.map DecisionTree.size).sum

end Position

variable {limited : ℕ → Bool} {position next : Position ρ}

end Backtracking
