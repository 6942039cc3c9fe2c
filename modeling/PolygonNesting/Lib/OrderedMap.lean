import Mathlib.Data.List.Basic
import Mathlib.Data.List.Induction
import Mathlib.Data.List.Nodup

/-!
# Maps in the order of their first insertions

Setting a key that is present replaces its value in place.  A map whose values are found
under keys of their own is a list of distinct values.
-/

namespace OrderedMap

variable {κ α : Type*} [DecidableEq κ]

/-- The entries, the earliest inserted first. -/
def set (map : List (κ × α)) (key : κ) (value : α) : List (κ × α) :=
  if key ∈ map.map Prod.fst then
    map.map fun entry => if entry.1 = key then (key, value) else entry
  else map ++ [(key, value)]

/-- The values set one after the other, each under its own key. -/
def fill (key : α → κ) (values : List α) : List (κ × α) :=
  values.foldl (fun map value => set map (key value) value) []

variable {key : α → κ}

/-- A value that is present is found where it was. -/
theorem set_of_mem (hkey : Function.Injective key) {held : List α} {value : α}
    (h : value ∈ held) :
    set (held.map fun v => (key v, v)) (key value) value = held.map fun v => (key v, v) := by
  unfold set
  rw [if_pos (by simpa using ⟨value, h, rfl⟩), List.map_map]
  refine List.map_congr_left fun v _ => ?_
  by_cases hv : key v = key value
  · simp [hkey hv]
  · simp [hv]

theorem set_of_notMem (hkey : Function.Injective key) {held : List α} {value : α}
    (h : value ∉ held) :
    set (held.map fun v => (key v, v)) (key value) value =
      (held ++ [value]).map fun v => (key v, v) := by
  unfold set
  rw [if_neg, List.map_append]
  · rfl
  · simpa [hkey.eq_iff] using h

/-- **The map holds every value once.** -/
theorem fill_spec (hkey : Function.Injective key) (values : List α) :
    ((fill key values).map Prod.snd).Nodup ∧
      ∀ value, value ∈ (fill key values).map Prod.snd ↔ value ∈ values := by
  have hfill : ∃ held : List α, fill key values = held.map (fun v => (key v, v)) ∧
      held.Nodup ∧ ∀ value, value ∈ held ↔ value ∈ values := by
    unfold fill
    induction values using List.reverseRecOn with
    | nil => exact ⟨[], rfl, List.nodup_nil, fun _ => Iff.rfl⟩
    | append_singleton values value ih =>
        obtain ⟨held, hmap, hnodup, hmem⟩ := ih
        rw [List.foldl_concat, hmap]
        by_cases h : value ∈ held
        · refine ⟨held, set_of_mem hkey h, hnodup, fun other => ?_⟩
          rw [hmem, List.mem_append, List.mem_singleton]
          refine ⟨.inl, ?_⟩
          rintro (hother | rfl)
          · exact hother
          · exact (hmem _).1 h
        · refine ⟨held ++ [value], set_of_notMem hkey h, ?_, fun other => ?_⟩
          · exact hnodup.append (List.nodup_singleton value)
              (List.disjoint_singleton.2 h)
          · rw [List.mem_append, List.mem_append, hmem]
  obtain ⟨held, hmap, hnodup, hmem⟩ := hfill
  have hvalues : (fill key values).map Prod.snd = held := by
    rw [hmap, List.map_map]
    exact List.map_id held
  rw [hvalues]
  exact ⟨hnodup, hmem⟩

end OrderedMap
