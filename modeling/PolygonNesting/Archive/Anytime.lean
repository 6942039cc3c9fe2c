import Mathlib.Data.List.AList
import PolygonNesting.Lib.GroupedFold

/-!
# The anytime archive

One namespace of the archive: endpoints are validated, those with one identity
become one, and the rest is ranked.  The mechanic takes its policy as functions;
whatever they are, the loop folds the endpoints of each identity and leaves the
result where the identity first occurred.  A policy that keeps the better of two
duplicates and ranks by a comparator returns, first, an endpoint that none of the
admissible ones beats.
-/

namespace PolygonNesting

structure IntrinsicAnytimeArchiveNamespacePolicy (α : Type) where
  endpoints : List α
  identity : α → Option String
  validate : α → Bool
  selectDuplicate : α → α → α
  rank : List α → List α

/-- The unique endpoints in order of first occurrence, and where each identity stands. -/
structure UniqueEndpoints (α : Type) where
  order : List α
  indexByIdentity : AList fun _ : String => ℕ

variable {α : Type}

/-- One endpoint of the loop: a duplicate changes the value in place, not the position. -/
def retainEndpoint (policy : IntrinsicAnytimeArchiveNamespacePolicy α)
    (unique : UniqueEndpoints α) (endpoint : α) : UniqueEndpoints α :=
  if !policy.validate endpoint then unique
  else
    match policy.identity endpoint with
    | none => unique
    | some identityKey =>
        if identityKey = "" then unique
        else
          match unique.indexByIdentity.lookup identityKey with
          | none => ⟨unique.order ++ [endpoint],
              unique.indexByIdentity.insert identityKey unique.order.length⟩
          | some existingIndex => { unique with
              order := unique.order.modify existingIndex fun retained =>
                policy.selectDuplicate retained endpoint }

def retainIntrinsicAnytimeArchiveNamespace
    (policy : IntrinsicAnytimeArchiveNamespacePolicy α) : List α :=
  policy.rank (policy.endpoints.foldl (retainEndpoint policy) ⟨[], ∅⟩).order

/-! ## §1  What is admitted -/

/-- The endpoint passes the filters of the namespace, under this identity. -/
structure Admitted (policy : IntrinsicAnytimeArchiveNamespacePolicy α) (endpoint : α)
    (identityKey : String) : Prop where
  valid : policy.validate endpoint = true
  identified : policy.identity endpoint = some identityKey
  nonempty : identityKey ≠ ""

/-- The entry an endpoint makes in the archive, if it makes one. -/
def admittedEntry (policy : IntrinsicAnytimeArchiveNamespacePolicy α) (endpoint : α) :
    Option (String × α) :=
  if policy.validate endpoint then
    match policy.identity endpoint with
    | none => none
    | some identityKey => if identityKey = "" then none else some (identityKey, endpoint)
  else none

def admittedEntries (policy : IntrinsicAnytimeArchiveNamespacePolicy α) (endpoints : List α) :
    List (String × α) :=
  endpoints.filterMap (admittedEntry policy)

theorem admittedEntry_eq_some_iff {policy : IntrinsicAnytimeArchiveNamespacePolicy α}
    {endpoint : α} {entry : String × α} :
    admittedEntry policy endpoint = some entry ↔
      Admitted policy endpoint entry.1 ∧ entry.2 = endpoint := by
  unfold admittedEntry
  constructor
  · intro h
    split at h
    · next hvalid =>
      cases hidentity : policy.identity endpoint with
      | none => simp [hidentity] at h
      | some identityKey =>
          by_cases hempty : identityKey = ""
          · simp [hidentity, hempty] at h
          · obtain rfl : (identityKey, endpoint) = entry := by simpa [hidentity, hempty] using h
            exact ⟨⟨hvalid, hidentity, hempty⟩, rfl⟩
    · cases h
  · rintro ⟨h, rfl⟩
    rw [if_pos h.valid, h.identified]
    exact if_neg h.nonempty

theorem mem_admittedEntries {policy : IntrinsicAnytimeArchiveNamespacePolicy α}
    {endpoints : List α} {identityKey : String} {endpoint : α} :
    (identityKey, endpoint) ∈ admittedEntries policy endpoints ↔
      endpoint ∈ endpoints ∧ Admitted policy endpoint identityKey := by
  unfold admittedEntries
  rw [List.mem_filterMap]
  constructor
  · rintro ⟨other, hother, h⟩
    obtain ⟨hadmitted, rfl⟩ := admittedEntry_eq_some_iff.mp h
    exact ⟨hother, hadmitted⟩
  · rintro ⟨hmem, h⟩
    exact ⟨endpoint, hmem, admittedEntry_eq_some_iff.mpr ⟨h, rfl⟩⟩

theorem mem_valuesOf_admittedEntries {policy : IntrinsicAnytimeArchiveNamespacePolicy α}
    {endpoints : List α} {identityKey : String} {endpoint : α} :
    endpoint ∈ GroupedFold.valuesOf identityKey (admittedEntries policy endpoints) ↔
      endpoint ∈ endpoints ∧ Admitted policy endpoint identityKey := by
  rw [GroupedFold.mem_valuesOf, mem_admittedEntries]

/-! ## §2  What the loop computes -/

/-- The loop after some entries: the folded value of each identity, where it first
occurred. -/
structure Tracks (policy : IntrinsicAnytimeArchiveNamespacePolicy α)
    (entries : List (String × α)) (unique : UniqueEndpoints α) : Prop where
  values : unique.order.map some = GroupedFold.grouped policy.selectDuplicate entries
  indexed : ∀ identityKey index, unique.indexByIdentity.lookup identityKey = some index ↔
    (GroupedFold.keys entries)[index]? = some identityKey

section

variable {policy : IntrinsicAnytimeArchiveNamespacePolicy α} {entries : List (String × α)}
  {unique : UniqueEndpoints α}

theorem Tracks.initial : Tracks policy [] ⟨[], ∅⟩ where
  values := rfl
  indexed := by simp [GroupedFold.keys]

theorem Tracks.length (h : Tracks policy entries unique) :
    unique.order.length = (GroupedFold.keys entries).length := by
  have hlength := congrArg List.length h.values
  rwa [List.length_map, GroupedFold.grouped, List.length_map] at hlength

/-- An identity not seen before stands last. -/
theorem Tracks.new (h : Tracks policy entries unique) {identityKey : String} {endpoint : α}
    (hlookup : unique.indexByIdentity.lookup identityKey = none) :
    Tracks policy (entries ++ [(identityKey, endpoint)])
      ⟨unique.order ++ [endpoint],
        unique.indexByIdentity.insert identityKey unique.order.length⟩ := by
  have hnew : identityKey ∉ GroupedFold.keys entries := by
    intro hmem
    obtain ⟨index, hindex⟩ := List.mem_iff_getElem?.mp hmem
    rw [(h.indexed identityKey index).mpr hindex] at hlookup
    cases hlookup
  refine ⟨?_, fun other index => ?_⟩
  · rw [List.map_append, h.values, GroupedFold.grouped_concat_of_notMem _ hnew]
    rfl
  · rw [GroupedFold.keys_concat_of_notMem hnew]
    by_cases hother : other = identityKey
    · subst hother
      rw [AList.lookup_insert, Option.some.injEq, h.length]
      constructor
      · rintro rfl
        exact List.getElem?_concat_length
      · intro hindex
        rcases Nat.lt_or_ge index (GroupedFold.keys entries).length with hlt | hge
        · rw [List.getElem?_append_left hlt] at hindex
          exact absurd (List.mem_of_getElem? hindex) hnew
        · have hbound := (List.getElem?_eq_some_iff.mp hindex).1
          rw [List.length_append, List.length_singleton] at hbound
          omega
    · rw [AList.lookup_insert_ne hother, h.indexed]
      rcases Nat.lt_or_ge index (GroupedFold.keys entries).length with hlt | hge
      · rw [List.getElem?_append_left hlt]
      · rw [List.getElem?_eq_none hge, List.getElem?_append_right hge]
        constructor
        · intro hnone
          cases hnone
        · intro hlast
          exact absurd (List.mem_singleton.mp (List.mem_of_getElem? hlast)) hother

/-- A duplicate is combined with what is there, in its place. -/
theorem Tracks.duplicate (h : Tracks policy entries unique) {identityKey : String}
    {endpoint : α} {index : ℕ}
    (hlookup : unique.indexByIdentity.lookup identityKey = some index) :
    Tracks policy (entries ++ [(identityKey, endpoint)])
      { unique with
        order := unique.order.modify index fun retained =>
          policy.selectDuplicate retained endpoint } := by
  have hindex := (h.indexed identityKey index).mp hlookup
  refine ⟨?_, fun other position => ?_⟩
  · rw [GroupedFold.grouped_concat_of_getElem? _ hindex, ← h.values]
    refine List.ext_getElem? fun position => ?_
    rw [List.getElem?_map, List.getElem?_modify, List.getElem?_modify, List.getElem?_map]
    cases unique.order[position]? with
    | none => rfl
    | some retained =>
        by_cases hposition : index = position <;> simp [hposition]
  · rw [GroupedFold.keys_concat_of_mem (List.mem_of_getElem? hindex)]
    exact h.indexed other position

/-- One endpoint of the loop is one more entry, or none. -/
theorem Tracks.step (h : Tracks policy entries unique) (endpoint : α) :
    Tracks policy (entries ++ (admittedEntry policy endpoint).toList)
      (retainEndpoint policy unique endpoint) := by
  unfold retainEndpoint
  by_cases hvalid : policy.validate endpoint = true
  · cases hidentity : policy.identity endpoint with
    | none => simpa [admittedEntry, hvalid, hidentity] using h
    | some identityKey =>
        by_cases hempty : identityKey = ""
        · simpa [admittedEntry, hvalid, hidentity, hempty] using h
        · cases hlookup : unique.indexByIdentity.lookup identityKey with
          | none =>
              simpa [admittedEntry, hvalid, hidentity, hempty, hlookup] using
                Tracks.new h hlookup
          | some index =>
              simpa [admittedEntry, hvalid, hidentity, hempty, hlookup] using
                Tracks.duplicate h hlookup
  · simpa [admittedEntry, hvalid] using h

theorem tracks_foldl :
    ∀ (endpoints : List α) {entries : List (String × α)} {unique : UniqueEndpoints α},
      Tracks policy entries unique →
        Tracks policy (entries ++ admittedEntries policy endpoints)
          (endpoints.foldl (retainEndpoint policy) unique)
  | [], _, _, h => by rwa [admittedEntries, List.filterMap_nil, List.append_nil]
  | endpoint :: endpoints, entries, unique, h => by
      have hall := tracks_foldl endpoints (h.step endpoint)
      rw [List.append_assoc] at hall
      have hcons : (admittedEntry policy endpoint).toList ++ admittedEntries policy endpoints =
          admittedEntries policy (endpoint :: endpoints) := by
        unfold admittedEntries
        rw [List.filterMap_cons]
        cases admittedEntry policy endpoint <;> rfl
      rwa [hcons] at hall

/-- The endpoints the loop hands to the ranking. -/
theorem tracks_endpoints (policy : IntrinsicAnytimeArchiveNamespacePolicy α) :
    Tracks policy (admittedEntries policy policy.endpoints)
      (policy.endpoints.foldl (retainEndpoint policy) ⟨[], ∅⟩) :=
  tracks_foldl policy.endpoints .initial

theorem mem_uniqueEndpoints {endpoint : α} :
    endpoint ∈ (policy.endpoints.foldl (retainEndpoint policy) ⟨[], ∅⟩).order ↔
      ∃ identityKey, GroupedFold.fold policy.selectDuplicate
        (GroupedFold.valuesOf identityKey (admittedEntries policy policy.endpoints)) =
          some endpoint := by
  rw [← List.mem_map_of_injective (Option.some_injective α), (tracks_endpoints policy).values,
    GroupedFold.mem_grouped]

end

/-- The endpoint the archive chooses for an identity: the fold of the duplicate selector
over the admitted endpoints of that identity, in their order. -/
def chosenEndpoint (policy : IntrinsicAnytimeArchiveNamespacePolicy α) (endpoints : List α)
    (identityKey : String) : Option α :=
  GroupedFold.fold policy.selectDuplicate
    (GroupedFold.valuesOf identityKey (admittedEntries policy endpoints))

/-- **One endpoint an identity, where the identity first occurred**, chosen by the fold of
the duplicate selector; a selector that keeps the smaller of two chooses the same, up to
ties, in every order of the endpoints. -/
theorem retainIntrinsicAnytimeArchiveNamespace_chosen
    (policy : IntrinsicAnytimeArchiveNamespacePolicy α) :
    (∃ order : List α, retainIntrinsicAnytimeArchiveNamespace policy = policy.rank order ∧
      order.map some =
        ((admittedEntries policy policy.endpoints).map Prod.fst).eraseDups.map
          (chosenEndpoint policy policy.endpoints)) ∧
    ∀ cmp : α → α → Ordering, Std.TransCmp cmp →
      GroupedFold.KeepsMinimum cmp policy.selectDuplicate →
      ∀ endpoints : List α, policy.endpoints.Perm endpoints → ∀ identityKey,
        Option.Rel (fun chosen chosen' => cmp chosen chosen' = .eq)
          (chosenEndpoint policy policy.endpoints identityKey)
          (chosenEndpoint { policy with endpoints := endpoints } endpoints identityKey) := by
  refine ⟨⟨_, rfl, (tracks_endpoints policy).values⟩, ?_⟩
  intro cmp htrans hselect endpoints hperm identityKey
  have hvalues : (GroupedFold.valuesOf identityKey
      (admittedEntries policy policy.endpoints)).Perm (GroupedFold.valuesOf identityKey
        (admittedEntries { policy with endpoints := endpoints } endpoints)) :=
    ((hperm.filterMap _).filter _).map _
  exact hselect.fold_perm hvalues

/-! ## §3  Keeping the better of two -/

section

variable (cmp : α → α → Ordering)

/-- The policy of an archive that is ordered by a comparator. -/
structure OrderedPolicy (policy : IntrinsicAnytimeArchiveNamespacePolicy α) : Prop where
  select : ∀ retained candidate, policy.selectDuplicate retained candidate =
    if cmp candidate retained = .lt then candidate else retained
  rank : ∀ unique, policy.rank unique = unique.mergeSort fun first second =>
    cmp first second != .gt

variable {cmp} [Std.TransCmp cmp] {policy : IntrinsicAnytimeArchiveNamespacePolicy α}

theorem OrderedPolicy.keepsMinimum (h : OrderedPolicy cmp policy) :
    GroupedFold.KeepsMinimum cmp policy.selectDuplicate := by
  have hcases : ∀ retained candidate,
      (policy.selectDuplicate retained candidate = candidate ∧
        (cmp candidate retained).isLE = true) ∨
      (policy.selectDuplicate retained candidate = retained ∧
        (cmp retained candidate).isLE = true) := by
    intro retained candidate
    rw [h.select, Comparator.cmp_eq_swap cmp retained candidate]
    cases hcmp : cmp candidate retained with
    | lt => exact .inl ⟨if_pos rfl, rfl⟩
    | eq => exact .inr ⟨if_neg (by decide), rfl⟩
    | gt => exact .inr ⟨if_neg (by decide), rfl⟩
  refine ⟨fun retained candidate => ?_, fun retained candidate => ?_,
    fun retained candidate => ?_⟩ <;>
    rcases hcases retained candidate with ⟨hone, hle⟩ | ⟨hone, hle⟩ <;> rw [hone]
  · exact .inr rfl
  · exact .inl rfl
  · exact hle
  · exact Comparator.cmp_self_isLE cmp retained
  · exact Comparator.cmp_self_isLE cmp candidate
  · exact hle

/-- **Nothing is invented**: what is retained was offered and admitted. -/
theorem retained_admitted (hpolicy : OrderedPolicy cmp policy) {endpoint : α}
    (h : endpoint ∈ retainIntrinsicAnytimeArchiveNamespace policy) :
    endpoint ∈ policy.endpoints ∧ ∃ identityKey, Admitted policy endpoint identityKey := by
  unfold retainIntrinsicAnytimeArchiveNamespace at h
  rw [hpolicy.rank, List.mem_mergeSort] at h
  obtain ⟨identityKey, hchosen⟩ := mem_uniqueEndpoints.mp h
  have hmem := (hpolicy.keepsMinimum.fold hchosen).1
  obtain ⟨hoffered, hadmitted⟩ := mem_valuesOf_admittedEntries.mp hmem
  exact ⟨hoffered, identityKey, hadmitted⟩

/-- **The first is the best**: no admitted endpoint beats it. -/
theorem retained_best (hpolicy : OrderedPolicy cmp policy) {endpoint : α}
    {identityKey : String} (hmem : endpoint ∈ policy.endpoints)
    (hadmitted : Admitted policy endpoint identityKey) :
    ∃ best, (retainIntrinsicAnytimeArchiveNamespace policy).head? = some best ∧
      (cmp best endpoint).isLE := by
  have hvalue := mem_valuesOf_admittedEntries.mpr ⟨hmem, hadmitted⟩
  obtain ⟨retained, hretained⟩ :=
    GroupedFold.exists_fold policy.selectDuplicate (List.ne_nil_of_mem hvalue)
  have hle := (hpolicy.keepsMinimum.fold hretained).2 endpoint hvalue
  have hin := mem_uniqueEndpoints.mpr ⟨identityKey, hretained⟩
  unfold retainIntrinsicAnytimeArchiveNamespace
  rw [hpolicy.rank]
  cases hhead : (List.mergeSort
      (policy.endpoints.foldl (retainEndpoint policy) ⟨[], ∅⟩).order
      fun first second => cmp first second != .gt).head? with
  | none =>
      rw [List.head?_eq_none_iff, ← List.length_eq_zero_iff, List.length_mergeSort,
        List.length_eq_zero_iff] at hhead
      rw [hhead] at hin
      cases hin
  | some best =>
      exact ⟨best, rfl, Std.TransCmp.isLE_trans (Comparator.isLE_of_head? hhead hin) hle⟩

end

end PolygonNesting
