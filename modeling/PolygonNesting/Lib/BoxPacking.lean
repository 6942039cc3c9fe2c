import Mathlib.Algebra.Order.Group.Defs
import Mathlib.Algebra.Order.Group.Lattice
import Mathlib.Tactic.Common

/-!
# Packed boxes

Boxes are packed in a frame if they are within it and no two of them meet inside.  Packings of
frames that do not meet are a packing of what is around both, so rows and stacks are packed as
soon as their parts are.
-/

namespace BoxPacking

variable {α : Type} [AddCommGroup α] [LinearOrder α]

structure Box (α : Type) where
  left : α
  bottom : α
  width : α
  height : α
  deriving DecidableEq

namespace Box

def right (box : Box α) : α := box.left + box.width

def top (box : Box α) : α := box.bottom + box.height

/-- A box of a frame. -/
structure Within (box frame : Box α) : Prop where
  left : frame.left ≤ box.left
  bottom : frame.bottom ≤ box.bottom
  right : box.right ≤ frame.right
  top : box.top ≤ frame.top

/-- The insides of two boxes do not meet. -/
def Apart (first second : Box α) : Prop :=
  first.right ≤ second.left ∨ second.right ≤ first.left ∨
    first.top ≤ second.bottom ∨ second.top ≤ first.bottom

theorem Within.refl (box : Box α) : box.Within box := ⟨le_rfl, le_rfl, le_rfl, le_rfl⟩

theorem Within.trans {box middle frame : Box α} (h : box.Within middle)
    (h' : middle.Within frame) : box.Within frame :=
  ⟨h'.left.trans h.left, h'.bottom.trans h.bottom, h.right.trans h'.right, h.top.trans h'.top⟩

theorem Apart.mono {first second box other : Box α} (h : Apart first second)
    (hbox : box.Within first) (hother : other.Within second) : Apart box other := by
  rcases h with h | h | h | h
  · exact .inl (hbox.right.trans (h.trans hother.left))
  · exact .inr (.inl (hother.right.trans (h.trans hbox.left)))
  · exact .inr (.inr (.inl (hbox.top.trans (h.trans hother.bottom))))
  · exact .inr (.inr (.inr (hother.top.trans (h.trans hbox.bottom))))

end Box

open Box

/-- Boxes within a frame, no two of which meet inside. -/
structure PackedIn (frame : Box α) (boxes : List (Box α)) : Prop where
  within : ∀ box ∈ boxes, box.Within frame
  apart : boxes.Pairwise Apart

/-- Boxes that reach each side of a frame. -/
structure Spans (frame : Box α) (boxes : List (Box α)) : Prop where
  left : ∃ box ∈ boxes, box.left = frame.left
  bottom : ∃ box ∈ boxes, box.bottom = frame.bottom
  right : ∃ box ∈ boxes, box.right = frame.right
  top : ∃ box ∈ boxes, box.top = frame.top

variable {frame first second : Box α} {boxes others : List (Box α)}

theorem packedIn_nil (frame : Box α) : PackedIn frame [] where
  within _ h := absurd h List.not_mem_nil
  apart := .nil

theorem packedIn_singleton {box : Box α} (h : box.Within frame) : PackedIn frame [box] where
  within other hother := by
    obtain rfl := List.mem_singleton.1 hother
    exact h
  apart := List.pairwise_singleton _ _

theorem PackedIn.mono (h : PackedIn first boxes) (hframe : first.Within frame) :
    PackedIn frame boxes where
  within box hbox := (h.within box hbox).trans hframe
  apart := h.apart

/-- **Packings of frames that do not meet** are a packing of what is around both. -/
theorem PackedIn.append (hfirst : PackedIn first boxes) (hsecond : PackedIn second others)
    (hapart : Apart first second) (hfirst' : first.Within frame)
    (hsecond' : second.Within frame) : PackedIn frame (boxes ++ others) where
  within box hbox := by
    rcases List.mem_append.1 hbox with h | h
    · exact (hfirst.within box h).trans hfirst'
    · exact (hsecond.within box h).trans hsecond'
  apart := by
    refine List.pairwise_append.2 ⟨hfirst.apart, hsecond.apart, fun box hbox other hother => ?_⟩
    exact hapart.mono (hfirst.within box hbox) (hsecond.within other hother)

variable [IsOrderedAddMonoid α]

/-- A frame beside a frame. -/
theorem PackedIn.beside {x y width width' height : α} (hwidth : 0 ≤ width) (hwidth' : 0 ≤ width')
    (hfirst : PackedIn ⟨x, y, width, height⟩ boxes)
    (hsecond : PackedIn ⟨x + width, y, width', height⟩ others) :
    PackedIn ⟨x, y, width + width', height⟩ (boxes ++ others) := by
  refine hfirst.append hsecond (.inl le_rfl) ⟨le_rfl, le_rfl, ?_, le_rfl⟩ ⟨?_, le_rfl, ?_, le_rfl⟩
  · exact add_le_add_right (le_add_of_nonneg_right hwidth') x
  · exact le_add_of_nonneg_right hwidth
  · exact (add_assoc x width width').le

/-- A frame on top of a frame. -/
theorem PackedIn.above {x y width height height' : α} (hheight : 0 ≤ height)
    (hheight' : 0 ≤ height') (hfirst : PackedIn ⟨x, y, width, height⟩ boxes)
    (hsecond : PackedIn ⟨x, y + height, width, height'⟩ others) :
    PackedIn ⟨x, y, width, height + height'⟩ (boxes ++ others) := by
  refine hfirst.append hsecond (.inr (.inr (.inl le_rfl))) ⟨le_rfl, le_rfl, le_rfl, ?_⟩
    ⟨le_rfl, ?_, le_rfl, ?_⟩
  · exact add_le_add_right (le_add_of_nonneg_right hheight') y
  · exact le_add_of_nonneg_right hheight
  · exact (add_assoc y height height').le

end BoxPacking
