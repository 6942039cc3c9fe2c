import Mathlib.Algebra.GroupWithZero.Nat
import Mathlib.Data.List.Basic
import Mathlib.Data.Nat.Notation
import Mathlib.Tactic.Common

/-!
# Halving under a cap on the output

Intervals are halved until they are accepted, and every accepted interval
yields one output, from left to right.  Once the output has reached a cap,
every interval still open is accepted as it is.  The length of the output then
depends on how many intervals are open when the cap is reached: the right
halves left over on the way down, and the intervals not yet begun.
-/

namespace Bisection

/-- How an interval is halved without the cap. -/
inductive Shape where
  | accepted
  | halved (left right : Shape)

namespace Shape

def leaves : Shape → ℕ
  | accepted => 1
  | halved left right => left.leaves + right.leaves

def depth : Shape → ℕ
  | accepted => 0
  | halved left right => max left.depth right.depth + 1

/-- The right halves not yet begun when leaf `j` is accepted. -/
def pendingAt : Shape → ℕ → ℕ
  | accepted, _ => 0
  | halved left right, j =>
      if j < left.leaves then left.pendingAt j + 1 else right.pendingAt (j - left.leaves)

theorem leaves_pos : ∀ shape : Shape, 0 < shape.leaves
  | accepted => Nat.one_pos
  | halved left _ => Nat.add_pos_left left.leaves_pos _

variable {cap length : ℕ}

end Shape

/-! ## A row of intervals -/

def leaves (shapes : List Shape) : ℕ := (shapes.map Shape.leaves).sum

/-- The intervals open when leaf `j` of the row is accepted: right halves and
whole intervals. -/
def pendingAt : List Shape → ℕ → ℕ
  | [], _ => 0
  | shape :: shapes, j =>
      if j < shape.leaves then shape.pendingAt j + shapes.length
      else pendingAt shapes (j - shape.leaves)

theorem length_le_leaves : ∀ shapes : List Shape, shapes.length ≤ leaves shapes
  | [] => Nat.zero_le _
  | shape :: shapes => by
      have hrest := length_le_leaves shapes
      have hpos := shape.leaves_pos
      unfold leaves at hrest ⊢
      rw [List.map_cons, List.sum_cons, List.length_cons]
      omega

variable {cap : ℕ}

end Bisection
