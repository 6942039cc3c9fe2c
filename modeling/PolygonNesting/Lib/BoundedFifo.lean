import PolygonNesting.Lib.ByteLru

/-!
# A first-in first-out list under two limits

The specification of a charged queue, oldest item first, that holds at most
`cap` bytes and at most `limit` items.  Putting an item drops items from the
front, as few as needed.  An item whose key is present takes the place of the
old one, and is refused where room could only be made by dropping that very
place.
-/

namespace BoundedFifo

open ByteLru

universe u v

variable {κ : Type u} {β : Type v} [DecidableEq κ] {cap limit charge : ℕ} {key : κ}
  {l : List (Item κ β)} {new : Item κ β}

/-- Room for an item of `key`: the items of other keys leave the bytes for it,
and it takes the place of an item or a free one. -/
def HasRoom (cap limit : ℕ) (key : κ) (charge : ℕ) (l : List (Item κ β)) : Prop :=
  bytes (erase key l) + charge ≤ cap ∧ ((∃ it ∈ l, it.key = key) ∨ l.length < limit)

instance decidableHasRoom : Decidable (HasRoom cap limit key charge l) :=
  inferInstanceAs (Decidable (_ ∧ (_ ∨ _)))

/-- What is left after dropping the fewest items that make room, none of them
of `key`. -/
def makeRoom (cap limit : ℕ) (key : κ) (charge : ℕ) :
    List (Item κ β) → Option (List (Item κ β))
  | [] => if HasRoom cap limit key charge ([] : List (Item κ β)) then some [] else none
  | it :: l =>
      if HasRoom cap limit key charge (it :: l) then some (it :: l)
      else if it.key = key then none
      else makeRoom cap limit key charge l

/-- The item in the place of the one of its key, or at the end. -/
def place (new : Item κ β) (l : List (Item κ β)) : List (Item κ β) :=
  if ∃ it ∈ l, it.key = new.key then
    l.map fun it => if it.key = new.key then new else it
  else l ++ [new]

/-- **Making room** drops the shortest prefix that does. -/
theorem makeRoom_eq_some : ∀ {l kept : List (Item κ β)},
    makeRoom cap limit key charge l = some kept →
      ∃ n, kept = l.drop n ∧ (∀ it ∈ l.take n, it.key ≠ key) ∧
        HasRoom cap limit key charge (l.drop n) ∧
        ∀ m < n, ¬ HasRoom cap limit key charge (l.drop m)
  | [], kept, h => by
      unfold makeRoom at h
      split at h
      · next hroom =>
        obtain rfl := Option.some.inj h
        exact ⟨0, rfl, by simp, hroom, by simp⟩
      · cases h
  | it :: l, kept, h => by
      unfold makeRoom at h
      split at h
      · next hroom =>
        obtain rfl := Option.some.inj h
        exact ⟨0, rfl, by simp, hroom, by simp⟩
      · next hroom =>
        split at h
        · cases h
        · next hkey =>
          obtain ⟨n, hkept, hown, hfits, hleast⟩ := makeRoom_eq_some h
          refine ⟨n + 1, hkept, ?_, hfits, ?_⟩
          · intro a ha
            rcases List.mem_cons.mp ha with rfl | ha
            · exact hkey
            · exact hown a ha
          · rintro (_ | m) hm
            · exact hroom
            · exact hleast m (Nat.lt_of_succ_lt_succ hm)

/-- Room is refused only where no prefix without the key makes it. -/
theorem makeRoom_eq_none : ∀ {l : List (Item κ β)},
    makeRoom cap limit key charge l = none →
      ∀ n, (∀ it ∈ l.take n, it.key ≠ key) → ¬ HasRoom cap limit key charge (l.drop n)
  | [], h, n, _ => by
      unfold makeRoom at h
      split at h
      · cases h
      · next hroom =>
        rw [List.drop_nil]
        exact hroom
  | it :: l, h, n, hown => by
      unfold makeRoom at h
      split at h
      · cases h
      · next hroom =>
        cases n with
        | zero => exact hroom
        | succ n =>
            rw [List.take_succ_cons] at hown
            rw [if_neg (hown it List.mem_cons_self)] at h
            exact makeRoom_eq_none h n fun a ha => hown a (List.mem_cons_of_mem _ ha)

/-- Dropping the oldest items loses their keys and no other. -/
theorem find_drop (h : Keyed l) (n : ℕ) (other : κ) :
    find other (l.drop n) =
      if other ∈ (l.take n).map Item.key then none else find other l := by
  rw [← List.take_append_drop n l, Keyed, List.map_append, List.nodup_append] at h
  split
  · next hmem =>
    refine find_eq_none.mpr fun it hit hkey => ?_
    exact h.2.2 other hmem it.key (List.mem_map_of_mem hit) hkey.symm
  · next hmem =>
    have hnone : find other (l.take n) = none :=
      find_eq_none.mpr fun it hit hkey => hmem (hkey ▸ List.mem_map_of_mem hit)
    conv_rhs => rw [← List.take_append_drop n l]
    unfold find at hnone ⊢
    rw [List.find?_append, hnone, Option.none_or]

/-! ## The limits -/

theorem map_key_place (new : Item κ β) (l : List (Item κ β)) :
    (place new l).map Item.key =
      l.map Item.key ++ if ∃ it ∈ l, it.key = new.key then [] else [new.key] := by
  unfold place
  split
  · rw [List.map_map, List.append_nil]
    refine List.map_congr_left fun it _ => ?_
    by_cases hkey : it.key = new.key
    · simp [hkey]
    · simp [hkey]
  · rw [List.map_append, List.map_singleton]

theorem keyed_place (h : Keyed l) : Keyed (place new l) := by
  rw [Keyed, map_key_place]
  split
  · rw [List.append_nil]
    exact h
  · next habsent =>
    have hkeys : Keyed (l ++ [new]) := h.concat fun a ha heq => habsent ⟨a, ha, heq⟩
    rw [Keyed, List.map_append] at hkeys
    exact hkeys

theorem find_place (h : Keyed l) (other : κ) :
    find other (place new l) = if other = new.key then some new else find other l := by
  by_cases hother : other = new.key
  · rw [if_pos hother, hother]
    refine (keyed_place h).find_eq ?_
    unfold place
    split
    · next hpresent =>
      obtain ⟨it, hit, hkey⟩ := hpresent
      exact List.mem_map.mpr ⟨it, hit, if_pos hkey⟩
    · exact List.mem_append_right _ (List.mem_singleton_self _)
  · rw [if_neg hother]
    unfold place
    split
    · unfold find
      rw [List.find?_map]
      have hsame : ((fun it : Item κ β => decide (it.key = other)) ∘ fun it =>
          if it.key = new.key then new else it) = fun it => decide (it.key = other) := by
        funext it
        by_cases hkey : it.key = new.key
        · simp [hkey]
        · simp [hkey]
      rw [hsame]
      cases hfound : l.find? fun it => decide (it.key = other) with
      | none => rfl
      | some it =>
          have hkey : it.key = other := by simpa using List.find?_some hfound
          rw [Option.map_some, if_neg (hkey ▸ hother)]
    · unfold find
      rw [List.find?_append]
      simp [Ne.symm hother]

theorem replaced_eq_self (h : ∀ it ∈ l, it.key ≠ new.key) :
    l.map (fun it => if it.key = new.key then new else it) = l := by
  conv_rhs => rw [← List.map_id l]
  exact List.map_congr_left fun it hit => if_neg (h it hit)

/-- Only the bytes of other keys stay beside those of the new item. -/
theorem bytes_place (h : Keyed l) :
    bytes (place new l) = bytes (erase new.key l) + new.charge := by
  by_cases hpresent : ∃ it ∈ l, it.key = new.key
  · obtain ⟨it, hit, hkey⟩ := hpresent
    obtain ⟨xs, ys, rfl⟩ := List.append_of_mem hit
    have hplace : place new (xs ++ it :: ys) = xs ++ new :: ys := by
      unfold place
      rw [if_pos ⟨it, hit, hkey⟩, List.map_append, List.map_cons, if_pos hkey]
      rw [replaced_eq_self (hkey ▸ h.not_mem_left), replaced_eq_self (hkey ▸ h.not_mem_right)]
    rw [hplace, ← hkey, h.erase_append, bytes_append, bytes_append, bytes_cons]
    omega
  · have habsent : ∀ it ∈ l, it.key ≠ new.key := fun it hit hkey => hpresent ⟨it, hit, hkey⟩
    unfold place
    rw [if_neg hpresent, erase_eq_self habsent, bytes_append, bytes_cons, bytes_nil,
      Nat.add_zero]

theorem length_place_le (hlimit : (∃ it ∈ l, it.key = new.key) ∨ l.length < limit)
    (hle : l.length ≤ limit) : (place new l).length ≤ limit := by
  unfold place
  split
  · rwa [List.length_map]
  · next habsent =>
    rw [List.length_append, List.length_singleton]
    have := hlimit.resolve_left habsent
    omega

end BoundedFifo
