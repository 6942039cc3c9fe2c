import Mathlib.Algebra.GroupWithZero.Nat
import Mathlib.Algebra.Order.BigOperators.Group.List
import Mathlib.Data.List.Nodup
import Mathlib.Tactic.Common

/-!
# A byte-bounded least-recently-used list

The specification of a charged cache, as plain list programs: the items in
order of use, least recent first.  Using a key moves its item to the end;
putting an item drops items from the front, as few as needed, until the new
one fits under the cap.  Nothing here knows how the list is stored.
-/

namespace ByteLru

universe u v w

/-- One item: its key, its value and the bytes it is charged. -/
structure Item (κ : Type u) (β : Type v) where
  key : κ
  value : β
  charge : ℕ

variable {κ : Type u} {β : Type v}

/-- The bytes charged to all items. -/
def bytes (l : List (Item κ β)) : ℕ := (l.map Item.charge).sum

@[simp] theorem bytes_nil : bytes ([] : List (Item κ β)) = 0 := rfl

@[simp] theorem bytes_cons (it : Item κ β) (l : List (Item κ β)) :
    bytes (it :: l) = it.charge + bytes l := by simp [bytes]

@[simp] theorem bytes_append (xs ys : List (Item κ β)) :
    bytes (xs ++ ys) = bytes xs + bytes ys := by simp [bytes]

/-- Drop items from the front, as few as needed, to get down to `room`. -/
def evict (room : ℕ) : List (Item κ β) → List (Item κ β)
  | [] => []
  | it :: l => if bytes (it :: l) ≤ room then it :: l else evict room l

theorem bytes_evict_le (room : ℕ) :
    ∀ l : List (Item κ β), bytes (evict room l) ≤ room
  | [] => Nat.zero_le _
  | it :: l => by
      unfold evict
      split
      · assumption
      · exact bytes_evict_le room l

theorem evict_suffix (room : ℕ) :
    ∀ l : List (Item κ β), evict room l <:+ l
  | [] => List.suffix_rfl
  | it :: l => by
      unfold evict
      split
      · exact List.suffix_rfl
      · exact (evict_suffix room l).trans (List.suffix_cons it l)

/-- **Eviction drops the shortest prefix that makes room.** -/
theorem evict_eq_drop (room : ℕ) : ∀ l : List (Item κ β),
    ∃ n, evict room l = l.drop n ∧ ∀ m < n, room < bytes (l.drop m)
  | [] => ⟨0, rfl, by simp⟩
  | it :: l => by
      unfold evict
      split
      · exact ⟨0, rfl, by simp⟩
      · next hlt =>
        obtain ⟨n, hn, hmin⟩ := evict_eq_drop room l
        refine ⟨n + 1, hn, ?_⟩
        rintro (_ | m) hm
        · exact Nat.lt_of_not_le hlt
        · exact hmin m (Nat.lt_of_succ_lt_succ hm)

/-- No key has two items. -/
def Keyed (l : List (Item κ β)) : Prop := (l.map Item.key).Nodup

theorem Keyed.sublist {l l' : List (Item κ β)} (h : Keyed l)
    (hs : List.Sublist l' l) : Keyed l' :=
  List.Nodup.sublist (hs.map _) h

theorem Keyed.not_mem_left {xs ys : List (Item κ β)} {it : Item κ β}
    (h : Keyed (xs ++ it :: ys)) : ∀ a ∈ xs, a.key ≠ it.key := by
  intro a ha heq
  rw [Keyed, List.map_append, List.nodup_append] at h
  exact h.2.2 a.key (List.mem_map_of_mem ha) it.key (by simp) heq

theorem Keyed.not_mem_right {xs ys : List (Item κ β)} {it : Item κ β}
    (h : Keyed (xs ++ it :: ys)) : ∀ a ∈ ys, a.key ≠ it.key := by
  intro a ha heq
  rw [Keyed, List.map_append, List.nodup_append, List.map_cons,
    List.nodup_cons] at h
  exact h.2.1.1 (heq ▸ List.mem_map_of_mem ha)

theorem Keyed.eq_of_mem {l : List (Item κ β)} (h : Keyed l) {a b : Item κ β}
    (ha : a ∈ l) (hb : b ∈ l) (hk : a.key = b.key) : a = b :=
  List.inj_on_of_nodup_map h ha hb hk

theorem Keyed.concat {l : List (Item κ β)} (h : Keyed l) {it : Item κ β}
    (hit : ∀ a ∈ l, a.key ≠ it.key) : Keyed (l ++ [it]) := by
  rw [Keyed, List.map_append, List.nodup_append]
  refine ⟨h, by simp, ?_⟩
  intro k hk k' hk'
  obtain ⟨a, ha, rfl⟩ := List.mem_map.mp hk
  obtain rfl : k' = it.key := by simpa using hk'
  exact hit a ha

section Keyed

variable [DecidableEq κ]

def find (k : κ) (l : List (Item κ β)) : Option (Item κ β) :=
  l.find? fun it => it.key = k

/-- The items of all other keys, in order. -/
def erase (k : κ) (l : List (Item κ β)) : List (Item κ β) :=
  l.filter fun it => it.key ≠ k

/-- Move the item of `k`, if there is one, to the most recent end. -/
def touch (k : κ) (l : List (Item κ β)) : List (Item κ β) :=
  match find k l with
  | some it => erase k l ++ [it]
  | none => l

/-- Look a key up through a view of the values: a value the view accepts is
handed out and its item becomes the most recent one. -/
def useItem {γ : Type w} (view : β → Option γ) (k : κ) (l : List (Item κ β)) :
    List (Item κ β) × Option γ :=
  match (find k l).bind fun it => view it.value with
  | some v => (touch k l, some v)
  | none => (l, none)

/-- Put an item: refuse it if it exceeds the cap alone, otherwise replace the
item of its key, make room and add it as the most recent one. -/
def put (cap : ℕ) (it : Item κ β) (l : List (Item κ β)) :
    List (Item κ β) :=
  if cap < it.charge then l
  else evict (cap - it.charge) (erase it.key l) ++ [it]

theorem find_eq_none {k : κ} {l : List (Item κ β)} :
    find k l = none ↔ ∀ it ∈ l, it.key ≠ k := by
  simp [find]

theorem find_some {k : κ} {l : List (Item κ β)} {it : Item κ β}
    (h : find k l = some it) : it ∈ l ∧ it.key = k :=
  ⟨List.mem_of_find?_eq_some h, by simpa using List.find?_some h⟩

theorem Keyed.find_eq {l : List (Item κ β)} (h : Keyed l) {it : Item κ β}
    (hit : it ∈ l) : find it.key l = some it := by
  cases hf : find it.key l with
  | none => exact absurd rfl (find_eq_none.mp hf it hit)
  | some a =>
      obtain ⟨ha, hk⟩ := find_some hf
      rw [h.eq_of_mem ha hit hk]

theorem erase_eq_self {k : κ} {l : List (Item κ β)}
    (h : ∀ it ∈ l, it.key ≠ k) : erase k l = l :=
  List.filter_eq_self.mpr (by simpa using h)

/-- Erasing splits the list at the one item of the key. -/
theorem Keyed.erase_append {xs ys : List (Item κ β)} {it : Item κ β}
    (h : Keyed (xs ++ it :: ys)) : erase it.key (xs ++ it :: ys) = xs ++ ys := by
  have hx : erase it.key xs = xs := erase_eq_self h.not_mem_left
  have hy : erase it.key ys = ys := erase_eq_self h.not_mem_right
  unfold erase at hx hy ⊢
  rw [List.filter_append, List.filter_cons, hx, hy]
  simp

theorem Keyed.bytes_erase_add {l : List (Item κ β)} (h : Keyed l) {it : Item κ β}
    (hit : it ∈ l) : bytes (erase it.key l) + it.charge = bytes l := by
  obtain ⟨xs, ys, rfl⟩ := List.append_of_mem hit
  rw [h.erase_append, bytes_append, bytes_append, bytes_cons]
  omega

theorem Keyed.touch_append {xs ys : List (Item κ β)} {it : Item κ β}
    (h : Keyed (xs ++ it :: ys)) :
    touch it.key (xs ++ it :: ys) = xs ++ ys ++ [it] := by
  rw [touch, h.find_eq (by simp), h.erase_append]

theorem mem_erase {k : κ} {l : List (Item κ β)} {it : Item κ β} :
    it ∈ erase k l ↔ it ∈ l ∧ it.key ≠ k := by
  simp [erase]

end Keyed

end ByteLru
