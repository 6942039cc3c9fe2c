import Mathlib.Data.List.Induction
import Mathlib.Data.List.Nodup
import PolygonNesting.Lib.Comparator

/-!
# Folding the values of each key

A list of keyed values, the values of each key folded into one, the keys in the order of
their first occurrence.  A loop that keeps one value a key and combines it in place with
every later value of the key computes this, one entry at a time.
-/

namespace GroupedFold

variable {κ α : Type} [DecidableEq κ]

/-- The left fold without a first value. -/
def fold (combine : α → α → α) : List α → Option α
  | [] => none
  | first :: rest => some (rest.foldl combine first)

/-- The values of one key, in order. -/
def valuesOf (key : κ) (entries : List (κ × α)) : List α :=
  (entries.filter fun entry => decide (entry.1 = key)).map Prod.snd

/-- The keys, each once, in the order of their first occurrence. -/
def keys (entries : List (κ × α)) : List κ := (entries.map Prod.fst).eraseDups

/-- The folded values in the order of their keys. -/
def grouped (combine : α → α → α) (entries : List (κ × α)) : List (Option α) :=
  (keys entries).map fun key => fold combine (valuesOf key entries)

/-! ## §1  Keys -/

theorem mem_keys {entries : List (κ × α)} {key : κ} :
    key ∈ keys entries ↔ ∃ value, (key, value) ∈ entries := by
  unfold keys
  rw [List.mem_eraseDups, List.mem_map]
  constructor
  · rintro ⟨⟨key, value⟩, h, rfl⟩
    exact ⟨value, h⟩
  · rintro ⟨value, h⟩
    exact ⟨(key, value), h, rfl⟩

theorem keys_concat_of_mem {entries : List (κ × α)} {key : κ} (h : key ∈ keys entries)
    (value : α) : keys (entries ++ [(key, value)]) = keys entries := by
  unfold keys at h ⊢
  rw [List.mem_eraseDups] at h
  rw [List.map_append, List.eraseDups_append]
  simp [List.removeAll, h]

theorem keys_concat_of_notMem {entries : List (κ × α)} {key : κ} (h : key ∉ keys entries)
    (value : α) : keys (entries ++ [(key, value)]) = keys entries ++ [key] := by
  unfold keys at h ⊢
  rw [List.mem_eraseDups] at h
  rw [List.map_append, List.eraseDups_append]
  simp [List.removeAll, h, List.eraseDups_cons]

theorem nodup_keys (entries : List (κ × α)) : (keys entries).Nodup := by
  induction entries using List.reverseRecOn with
  | nil => exact List.nodup_nil
  | append_singleton entries entry ih =>
      by_cases h : entry.1 ∈ keys entries
      · rw [keys_concat_of_mem h]
        exact ih
      · rw [keys_concat_of_notMem h]
        exact List.nodup_append.mpr ⟨ih, List.nodup_singleton _, fun key hkey other hother => by
          rw [List.mem_singleton.mp hother]
          rintro rfl
          exact h hkey⟩

theorem mem_valuesOf {entries : List (κ × α)} {key : κ} {value : α} :
    value ∈ valuesOf key entries ↔ (key, value) ∈ entries := by
  unfold valuesOf
  rw [List.mem_map]
  constructor
  · rintro ⟨⟨key', value⟩, h, rfl⟩
    obtain ⟨hmem, hkey⟩ := List.mem_filter.mp h
    obtain rfl := of_decide_eq_true hkey
    exact hmem
  · intro h
    exact ⟨(key, value), List.mem_filter.mpr ⟨h, decide_eq_true rfl⟩, rfl⟩

theorem exists_fold (combine : α → α → α) {values : List α} (h : values ≠ []) :
    ∃ folded, fold combine values = some folded := by
  cases values with
  | nil => exact absurd rfl h
  | cons first rest => exact ⟨_, rfl⟩

theorem mem_grouped (combine : α → α → α) {entries : List (κ × α)} {folded : α} :
    some folded ∈ grouped combine entries ↔
      ∃ key, fold combine (valuesOf key entries) = some folded := by
  unfold grouped
  rw [List.mem_map]
  constructor
  · rintro ⟨key, -, h⟩
    exact ⟨key, h⟩
  · rintro ⟨key, h⟩
    refine ⟨key, ?_, h⟩
    cases hvalues : valuesOf key entries with
    | nil =>
        rw [hvalues] at h
        cases h
    | cons value values =>
        exact mem_keys.mpr ⟨value, mem_valuesOf.mp (hvalues ▸ List.mem_cons_self)⟩

/-! ## §2  One more entry -/

theorem fold_concat (combine : α → α → α) (values : List α) (value : α) :
    fold combine (values ++ [value]) =
      some ((fold combine values).elim value fun folded => combine folded value) := by
  cases values with
  | nil => rfl
  | cons first rest => simp [fold, List.foldl_append]

theorem valuesOf_concat_self (entries : List (κ × α)) (key : κ) (value : α) :
    valuesOf key (entries ++ [(key, value)]) = valuesOf key entries ++ [value] := by
  simp [valuesOf]

theorem valuesOf_concat_of_ne (entries : List (κ × α)) {key other : κ} (h : other ≠ key)
    (value : α) : valuesOf key (entries ++ [(other, value)]) = valuesOf key entries := by
  simp [valuesOf, h]

theorem valuesOf_of_notMem {entries : List (κ × α)} {key : κ} (h : key ∉ keys entries) :
    valuesOf key entries = [] := by
  unfold valuesOf
  rw [List.map_eq_nil_iff, List.filter_eq_nil_iff]
  intro entry hentry
  rw [decide_eq_true_eq]
  rintro rfl
  exact h (mem_keys.mpr ⟨entry.2, hentry⟩)

/-- A new key stands last, with its value. -/
theorem grouped_concat_of_notMem (combine : α → α → α) {entries : List (κ × α)} {key : κ}
    (h : key ∉ keys entries) (value : α) :
    grouped combine (entries ++ [(key, value)]) = grouped combine entries ++ [some value] := by
  unfold grouped
  rw [keys_concat_of_notMem h, List.map_append, List.map_singleton, valuesOf_concat_self,
    valuesOf_of_notMem h]
  congr 1
  refine List.map_congr_left fun other hother => ?_
  rw [valuesOf_concat_of_ne]
  rintro rfl
  exact h hother

/-- A key that is there keeps its place, and its value is combined with the new one. -/
theorem grouped_concat_of_getElem? (combine : α → α → α) {entries : List (κ × α)} {key : κ}
    {index : ℕ} (h : (keys entries)[index]? = some key) (value : α) :
    grouped combine (entries ++ [(key, value)]) =
      (grouped combine entries).modify index fun folded =>
        some (folded.elim value fun folded => combine folded value) := by
  unfold grouped
  rw [keys_concat_of_mem (List.mem_of_getElem? h)]
  refine List.ext_getElem? fun position => ?_
  rw [List.getElem?_map, List.getElem?_modify, List.getElem?_map]
  by_cases hposition : index = position
  · subst hposition
    rw [h]
    simp only [Option.map_some, if_pos, valuesOf_concat_self, fold_concat]
    rfl
  · cases hother : (keys entries)[position]? with
    | none => rfl
    | some other =>
        have hne : key ≠ other := by
          rintro rfl
          obtain ⟨hlt, hkey⟩ := List.getElem?_eq_some_iff.mp h
          obtain ⟨hlt', hkey'⟩ := List.getElem?_eq_some_iff.mp hother
          exact hposition ((nodup_keys entries).getElem_inj_iff.mp (hkey.trans hkey'.symm))
        simp only [Option.map_some, valuesOf_concat_of_ne entries hne, if_neg hposition]
        rfl

/-! ## §3  A selector that keeps the smaller -/

section

variable (cmp : α → α → Ordering)

/-- One of the two, and none of them beats it. -/
structure KeepsMinimum (select : α → α → α) : Prop where
  one_of : ∀ retained candidate,
    select retained candidate = retained ∨ select retained candidate = candidate
  le_retained : ∀ retained candidate, (cmp (select retained candidate) retained).isLE
  le_candidate : ∀ retained candidate, (cmp (select retained candidate) candidate).isLE

variable {cmp} [Std.TransCmp cmp] {select : α → α → α}

/-- What such a fold keeps is in the list and a minimum of it. -/
theorem KeepsMinimum.foldl (hselect : KeepsMinimum cmp select) :
    ∀ (rest : List α) (first : α),
      rest.foldl select first ∈ first :: rest ∧
        ∀ value ∈ first :: rest, (cmp (rest.foldl select first) value).isLE
  | [], first => by
      refine ⟨List.mem_cons_self, fun value hvalue => ?_⟩
      rw [List.mem_singleton.mp hvalue]
      exact Comparator.cmp_self_isLE cmp first
  | next :: rest, first => by
      obtain ⟨hmem, hmin⟩ := hselect.foldl rest (select first next)
      have hle := hmin (select first next) List.mem_cons_self
      refine ⟨?_, ?_⟩
      · rcases List.mem_cons.mp hmem with h | h
        · rw [List.foldl_cons, h]
          rcases hselect.one_of first next with hone | hone <;> rw [hone]
          · exact List.mem_cons_self
          · exact List.mem_cons_of_mem _ List.mem_cons_self
        · exact List.mem_cons_of_mem _ (List.mem_cons_of_mem _ h)
      · intro value hvalue
        rw [List.foldl_cons]
        rcases List.mem_cons.mp hvalue with rfl | hvalue
        · exact Std.TransCmp.isLE_trans hle (hselect.le_retained value next)
        · rcases List.mem_cons.mp hvalue with rfl | hvalue
          · exact Std.TransCmp.isLE_trans hle (hselect.le_candidate first value)
          · exact hmin value (List.mem_cons_of_mem _ hvalue)

theorem KeepsMinimum.fold (hselect : KeepsMinimum cmp select) {values : List α} {folded : α}
    (h : GroupedFold.fold select values = some folded) :
    folded ∈ values ∧ ∀ value ∈ values, (cmp folded value).isLE := by
  cases values with
  | nil => cases h
  | cons first rest =>
      obtain rfl := Option.some.inj h
      exact hselect.foldl rest first

/-- Two orders of the same values end in a tie. -/
theorem KeepsMinimum.fold_perm (hselect : KeepsMinimum cmp select) {values values' : List α}
    (hperm : values.Perm values') :
    Option.Rel (fun folded folded' => cmp folded folded' = .eq)
      (GroupedFold.fold select values) (GroupedFold.fold select values') := by
  by_cases hnil : values = []
  · subst hnil
    rw [List.nil_perm.mp hperm]
    exact .none
  have hnil' : values' ≠ [] := fun h => hnil (List.perm_nil.mp (h ▸ hperm))
  obtain ⟨folded, h⟩ := exists_fold select hnil
  obtain ⟨folded', h'⟩ := exists_fold select hnil'
  rw [h, h']
  refine .some ?_
  obtain ⟨hmem, hmin⟩ := hselect.fold h
  obtain ⟨hmem', hmin'⟩ := hselect.fold h'
  have hle := hmin folded' (hperm.mem_iff.mpr hmem')
  have hge := hmin' folded (hperm.mem_iff.mp hmem)
  rw [Comparator.cmp_eq_swap cmp folded' folded] at hge
  revert hle hge
  cases cmp folded folded' <;> simp [Ordering.isLE, Ordering.swap]

end

end GroupedFold
