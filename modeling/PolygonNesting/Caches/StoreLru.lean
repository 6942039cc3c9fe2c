import PolygonNesting.Lib.ByteLru
import PolygonNesting.Caches.Store

/-!
# The geometry cache store is a byte-bounded LRU list

`Represents s l` relates the store to the plain list `l` of its items, least
recent first: the recency list walks the items in that order, the map holds
exactly them, and the ledgers add them up.  Every operation of the store is
simulated by a list program from the library, and none of them panics.

The relation has two halves that different methods maintain: `Shape` for the
map and the slab, `Books` for the ledgers.  Between removing an old entry of a
key and admitting the new one, a namespace still counts one entry more than is
live; `Books` carries that surplus.
-/

namespace PolygonNesting.Caches

open ByteLru LinkedChain

variable {Ty : Type} {V : Ty → Type}

/-- The items of the cache, under their keys. -/
abbrev CacheItem (V : Ty → Type) := Item GeometryCacheKey (Σ ty, V ty)

/-! ## §1  The map and the slab -/

/-- The entry the store keeps for an item whose key is in the given slot. -/
def entryOf (slot : GeometryCacheKey → ℕ) (it : CacheItem V) :
    GeometryCacheEntry V :=
  ⟨it.value, it.charge, it.key.keyNamespace, slot it.key⟩

/-- The slots and serialized keys of the items, in order. -/
def slots (slot : GeometryCacheKey → ℕ) (l : List (CacheItem V)) :
    List (ℕ × String) :=
  l.map fun it => (slot it.key, serializeGeometryCacheKey it.key)

/-- The map holds exactly the items of `l`, each with its slot. -/
def HoldsEntries (s : GeometryCacheStore V) (slot : GeometryCacheKey → ℕ)
    (l : List (CacheItem V)) : Prop :=
  ∀ key e, s.entries.lookup key = some e ↔
    ∃ it ∈ l, serializeGeometryCacheKey it.key = key ∧ e = entryOf slot it

theorem slots_concat {slot : GeometryCacheKey → ℕ} {l : List (CacheItem V)}
    {it : CacheItem V} (hfresh : ∀ a ∈ l, a.key ≠ it.key) (i : ℕ) :
    slots (Function.update slot it.key i) (l ++ [it]) =
      slots slot l ++ [(i, serializeGeometryCacheKey it.key)] := by
  rw [slots, List.map_append, slots]
  congr 1
  · exact List.map_congr_left fun a ha => by
      rw [Function.update_of_ne (hfresh a ha)]
  · simp

/-- Map and slab hold exactly the items of `l`. -/
structure Shape (s : GeometryCacheStore V) (slot : GeometryCacheKey → ℕ)
    (l : List (CacheItem V)) : Prop where
  keyed : Keyed l
  recency : s.recency.Lists (slots slot l)
  entries : HoldsEntries s slot l

namespace Shape

variable {s : GeometryCacheStore V} {slot : GeometryCacheKey → ℕ}
  {l xs ys : List (CacheItem V)} {it : CacheItem V}

theorem lookup_of_mem (h : Shape s slot l) (hit : it ∈ l) :
    s.entries.lookup (serializeGeometryCacheKey it.key) =
      some (entryOf slot it) :=
  (h.entries _ _).mpr ⟨it, hit, rfl, rfl⟩

theorem lookup_eq (h : Shape s slot l) (key : GeometryCacheKey) :
    s.entries.lookup (serializeGeometryCacheKey key) =
      (find key l).map (entryOf slot) := by
  cases hf : find key l with
  | some it =>
      obtain ⟨hit, rfl⟩ := find_some hf
      rw [h.lookup_of_mem hit]
      rfl
  | none =>
      rw [Option.map_none, Option.eq_none_iff_forall_ne_some]
      intro e he
      obtain ⟨it, hit, hk, -⟩ := (h.entries _ _).mp he
      exact find_eq_none.mp hf it hit (serializeGeometryCacheKey_injective hk)

/-- The list, split at the item of a key that is present. -/
theorem split (h : Shape s slot l) {key : GeometryCacheKey}
    (hf : find key l = some it) : ∃ xs ys, l = xs ++ it :: ys ∧ it.key = key := by
  obtain ⟨hit, hk⟩ := find_some hf
  obtain ⟨xs, ys, rfl⟩ := List.append_of_mem hit
  exact ⟨xs, ys, rfl, hk⟩

/-- Only map and slab matter. -/
theorem of_eq {s' : GeometryCacheStore V} (h : Shape s slot l)
    (he : s'.entries = s.entries) (hr : s'.recency = s.recency) :
    Shape s' slot l :=
  ⟨h.keyed, hr ▸ h.recency, fun key e => by rw [he]; exact h.entries key e⟩

/-- Taking an item out of the map and its node out of the slab. -/
theorem unlink (h : Shape s slot (xs ++ it :: ys)) :
    ∃ r, s.recency.removeRecencyNode (slot it.key) = some r ∧
      ∀ s' : GeometryCacheStore V, s'.recency = r →
        s'.entries = s.entries.erase (serializeGeometryCacheKey it.key) →
        Shape s' slot (xs ++ ys) := by
  have hl : s.recency.Lists (slots slot xs ++
      (slot it.key, serializeGeometryCacheKey it.key) :: slots slot ys) := by
    simpa [slots] using h.recency
  obtain ⟨r, he, hr⟩ := RecencyList.removeRecencyNode_spec hl
  refine ⟨r, he, fun s' hr' he' => ⟨h.keyed.sublist ?_, ?_, ?_⟩⟩
  · exact List.Sublist.append_left (List.sublist_cons_self it ys) xs
  · rw [hr']
    simpa [slots] using hr
  · intro key e
    rw [he']
    by_cases hk : key = serializeGeometryCacheKey it.key
    · subst hk
      rw [AList.lookup_erase]
      refine ⟨fun hn => by simp at hn, ?_⟩
      rintro ⟨a, ha, hka, -⟩
      have hka := serializeGeometryCacheKey_injective hka
      rcases List.mem_append.mp ha with ha | ha
      · exact absurd hka (h.keyed.not_mem_left a ha)
      · exact absurd hka (h.keyed.not_mem_right a ha)
    · rw [AList.lookup_erase_ne hk, h.entries]
      constructor
      · rintro ⟨a, ha, rfl, rfl⟩
        refine ⟨a, ?_, rfl, rfl⟩
        rw [List.mem_append, List.mem_cons] at ha
        rcases ha with ha | rfl | ha
        · exact List.mem_append_left _ ha
        · exact absurd rfl hk
        · exact List.mem_append_right _ ha
      · rintro ⟨a, ha, hka, he⟩
        refine ⟨a, ?_, hka, he⟩
        rcases List.mem_append.mp ha with ha | ha
        · exact List.mem_append_left _ ha
        · exact List.mem_append_right _ (List.mem_cons_of_mem _ ha)

/-- Moving the node of an item to the tail. -/
theorem use (h : Shape s slot (xs ++ it :: ys)) :
    ∃ r, s.recency.touchNode (slot it.key) = some r ∧
      ∀ s' : GeometryCacheStore V, s'.recency = r → s'.entries = s.entries →
        Shape s' slot (xs ++ ys ++ [it]) := by
  have hl : s.recency.Lists (slots slot xs ++
      (slot it.key, serializeGeometryCacheKey it.key) :: slots slot ys) := by
    simpa [slots] using h.recency
  obtain ⟨r, he, hr⟩ := RecencyList.touchNode_spec hl
  have hperm : (xs ++ ys ++ [it]).Perm (xs ++ it :: ys) := by
    rw [List.append_assoc]
    exact (List.perm_append_left_iff xs).mpr (List.perm_append_singleton it ys)
  refine ⟨r, he, fun s' hr' he' => ⟨?_, ?_, ?_⟩⟩
  · exact (hperm.map Item.key).nodup_iff.mpr h.keyed
  · rw [hr']
    simpa [slots] using hr
  · intro key e
    rw [he', h.entries]
    simp only [hperm.mem_iff]

/-- Inserting a fresh item at the tail, in whatever slot the slab gives it. -/
theorem link (h : Shape s slot l) (hfresh : ∀ a ∈ l, a.key ≠ it.key) :
    ∃ r i, s.recency.insertRecencyNode (serializeGeometryCacheKey it.key) =
        some (r, i) ∧
      ∀ s' : GeometryCacheStore V, s'.recency = r →
        s'.entries = s.entries.insert (serializeGeometryCacheKey it.key)
          ⟨it.value, it.charge, it.key.keyNamespace, i⟩ →
        Shape s' (Function.update slot it.key i) (l ++ [it]) := by
  obtain ⟨r, i, he, hr, -⟩ := RecencyList.insertRecencyNode_spec h.recency
    (serializeGeometryCacheKey it.key)
  have hslot : ∀ a ∈ l, Function.update slot it.key i a.key = slot a.key :=
    fun a ha => Function.update_of_ne (hfresh a ha) _ _
  have hentry : ∀ a ∈ l, entryOf (Function.update slot it.key i) a =
      entryOf slot a := fun a ha => by rw [entryOf, hslot a ha]; rfl
  refine ⟨r, i, he, fun s' hr' he' => ⟨h.keyed.concat hfresh, ?_, ?_⟩⟩
  · rw [hr', slots_concat hfresh]
    exact hr
  · intro key e
    rw [he']
    by_cases hk : key = serializeGeometryCacheKey it.key
    · subst hk
      rw [AList.lookup_insert]
      constructor
      · rintro ⟨rfl⟩
        exact ⟨it, by simp, rfl, by simp [entryOf]⟩
      · rintro ⟨a, ha, hka, rfl⟩
        have hka := serializeGeometryCacheKey_injective hka
        rcases List.mem_append.mp ha with ha | ha
        · exact absurd hka (hfresh a ha)
        · obtain rfl : a = it := by simpa using ha
          simp [entryOf]
    · rw [AList.lookup_insert_ne hk, h.entries]
      constructor
      · rintro ⟨a, ha, hka, rfl⟩
        exact ⟨a, List.mem_append_left _ ha, hka, (hentry a ha).symm⟩
      · rintro ⟨a, ha, hka, rfl⟩
        rcases List.mem_append.mp ha with ha | ha
        · exact ⟨a, ha, hka, hentry a ha⟩
        · obtain rfl : a = it := by simpa using ha
          exact absurd hka.symm hk

/-- One step of the renumbering loop. -/
theorem holdsEntries_update (h : HoldsEntries s slot l) (hk : Keyed l)
    (hit : it ∈ l) (i : ℕ) {s' : GeometryCacheStore V}
    (he : s'.entries = s.entries.insert (serializeGeometryCacheKey it.key)
      { entryOf slot it with recencyNode := i }) :
    HoldsEntries s' (Function.update slot it.key i) l := by
  intro key e
  rw [he]
  by_cases hkey : key = serializeGeometryCacheKey it.key
  · subst hkey
    rw [AList.lookup_insert]
    constructor
    · rintro ⟨rfl⟩
      exact ⟨it, hit, rfl, by simp [entryOf]⟩
    · rintro ⟨a, ha, hka, rfl⟩
      rw [hk.eq_of_mem ha hit (serializeGeometryCacheKey_injective hka)]
      simp [entryOf]
  · rw [AList.lookup_insert_ne hkey, h]
    refine exists_congr fun a => and_congr_right fun _ =>
      and_congr_right fun hka => ?_
    have hne : a.key ≠ it.key := by
      rintro heq
      exact hkey (by rw [← hka, heq])
    rw [entryOf, entryOf, Function.update_of_ne hne]

theorem renumber_spec : ∀ (rest done : List (CacheItem V))
    (s : GeometryCacheStore V) (slot : GeometryCacheKey → ℕ),
    Keyed (done ++ rest) → HoldsEntries s slot (done ++ rest) →
    slots slot done = RecencyList.compactedOrder
      (done.map fun it => serializeGeometryCacheKey it.key) →
    ∃ s' slot', s.renumber done.length
        (rest.map fun it => serializeGeometryCacheKey it.key) = some s' ∧
      HoldsEntries s' slot' (done ++ rest) ∧
      slots slot' (done ++ rest) = RecencyList.compactedOrder
        ((done ++ rest).map fun it => serializeGeometryCacheKey it.key) ∧
      s'.telemetry = s.telemetry ∧ s'.byteCap = s.byteCap
  | [], done, s, slot, _, he, hs => by
      rw [List.append_nil] at he ⊢
      exact ⟨s, slot, rfl, he, hs, rfl, rfl⟩
  | it :: rest, done, s, slot, hk, he, hs => by
      have hlookup : s.entries.lookup (serializeGeometryCacheKey it.key) =
          some (entryOf slot it) := (he _ _).mpr ⟨it, by simp, rfl, rfl⟩
      have happ : done ++ it :: rest = done ++ [it] ++ rest := by simp
      let entry := { entryOf slot it with recencyNode := done.length }
      let s₁ : GeometryCacheStore V :=
        { s with entries := s.entries.insert (serializeGeometryCacheKey it.key) entry }
      have he₁ : HoldsEntries s₁ (Function.update slot it.key done.length)
          (done ++ it :: rest) :=
        holdsEntries_update he hk (by simp) done.length rfl
      have hs₁ : slots (Function.update slot it.key done.length)
          (done ++ [it]) = RecencyList.compactedOrder
            ((done ++ [it]).map fun a => serializeGeometryCacheKey a.key) := by
        rw [slots_concat hk.not_mem_left, hs]
        simp [RecencyList.compactedOrder, List.mapIdx_append]
      rw [happ] at hk he₁ ⊢
      obtain ⟨s', slot', hrun, he', hs', ht, hc⟩ :=
        renumber_spec rest (done ++ [it]) s₁ _ hk he₁ hs₁
      refine ⟨s', slot', ?_, he', hs', ht, hc⟩
      rw [List.length_append] at hrun
      simp only [List.map_cons, GeometryCacheStore.renumber, hlookup,
        Option.bind_eq_bind, Option.bind_some]
      exact hrun

/-- **Compaction** changes the slots, and nothing a caller can see. -/
theorem compact (h : Shape s slot l) :
    ∃ s' slot', s.compactRetainedStorage = some s' ∧ Shape s' slot' l ∧
      s'.telemetry = s.telemetry ∧ s'.byteCap = s.byteCap := by
  have hkeys := RecencyList.orderedKeys_spec h.recency.linked
  have hmap : (slots slot l).map Prod.snd =
      l.map fun it => serializeGeometryCacheKey it.key := by
    simp [slots]
  obtain ⟨s', slot', hrun, he, hs, ht, hc⟩ :=
    renumber_spec l [] s slot h.keyed h.entries rfl
  rw [List.nil_append] at he hs
  refine ⟨{ s' with recency := .compacted (l.map fun it =>
      serializeGeometryCacheKey it.key) }, slot', ?_, ⟨h.keyed, ?_, he⟩, ht, hc⟩
  · simp only [List.length_nil] at hrun
    simp only [GeometryCacheStore.compactRetainedStorage, hkeys, hmap, hrun,
      Option.bind_eq_bind, Option.bind_some]
  · rw [hs]
    exact RecencyList.compacted_lists _

end Shape

/-! ## §2  The ledgers -/

/-- The items of one namespace. -/
def inNamespace (ns : String) (l : List (CacheItem V)) : List (CacheItem V) :=
  l.filter fun it => it.key.keyNamespace = ns

/-- The ledgers add up the items of `l`, where namespace `ns` still counts
`surplus ns` entries that are not live. -/
structure Books (t : CacheTelemetrySnapshot) (surplus : String → ℕ)
    (l : List (CacheItem V)) : Prop where
  current : t.currentBytes = bytes l
  entries : ∀ ns,
    (t.ofNamespace ns).entries = (inNamespace ns l).length + surplus ns
  approx : ∀ ns, (t.ofNamespace ns).approxBytes = bytes (inNamespace ns l)

theorem inNamespace_append (ns : String) (xs ys : List (CacheItem V)) :
    inNamespace ns (xs ++ ys) = inNamespace ns xs ++ inNamespace ns ys :=
  List.filter_append xs ys

theorem inNamespace_cons (ns : String) (it : CacheItem V)
    (l : List (CacheItem V)) :
    inNamespace ns (it :: l) = if it.key.keyNamespace = ns
      then it :: inNamespace ns l else inNamespace ns l := by
  simp [inNamespace, List.filter_cons]

theorem bytes_inNamespace_le (ns : String) (l : List (CacheItem V)) :
    bytes (inNamespace ns l) ≤ bytes l :=
  ((List.filter_sublist (l := l)).map Item.charge).sum_le_sum
    fun _ _ => Nat.zero_le _

theorem length_le_bytes {l : List (CacheItem V)}
    (h : ∀ it ∈ l, 0 < it.charge) : l.length ≤ bytes l := by
  induction l with
  | nil => exact Nat.zero_le _
  | cons it l ih =>
      have hit := h it (by simp)
      have := ih fun a ha => h a (by simp [ha])
      rw [List.length_cons, bytes_cons]
      omega

namespace Books

variable {t : CacheTelemetrySnapshot} {surplus : String → ℕ}
  {l xs ys : List (CacheItem V)} {it : CacheItem V}

/-- Permuting the items changes no ledger. -/
theorem perm (h : Books t surplus l) {l' : List (CacheItem V)}
    (hp : l.Perm l') : Books t surplus l' where
  current := h.current.trans (hp.map Item.charge).sum_eq
  entries ns := by
    rw [h.entries, inNamespace, (hp.filter _).length_eq, inNamespace]
  approx ns := (h.approx ns).trans ((hp.filter _).map Item.charge).sum_eq

/-- Counters other than entries and bytes may change freely. -/
theorem countIn (h : Books t surplus l) (ns : String)
    {f : CacheNamespaceTelemetry → CacheNamespaceTelemetry}
    (he : ∀ c, (f c).entries = c.entries)
    (ha : ∀ c, (f c).approxBytes = c.approxBytes) :
    Books (t.namespaceMut ns f) surplus l where
  current := h.current
  entries ns' := by
    rw [CacheTelemetrySnapshot.ofNamespace_namespaceMut]
    split <;> simp only [he, h.entries]
  approx ns' := by
    rw [CacheTelemetrySnapshot.ofNamespace_namespaceMut]
    split <;> simp only [ha, h.approx]

/-- Dropping an item from the ledgers without counting an eviction: its
namespace keeps one entry too many for now. -/
theorem subtract {s : GeometryCacheStore V}
    (h : Books s.telemetry surplus (xs ++ it :: ys)) :
    Books (s.subtractCurrent it.key.keyNamespace it.charge false).telemetry
      (Function.update surplus it.key.keyNamespace
        (surplus it.key.keyNamespace + 1)) (xs ++ ys) where
  current := by
    have := h.current
    simp only [bytes_append, bytes_cons] at this ⊢
    show s.telemetry.currentBytes - it.charge = _
    omega
  entries ns := by
    have hns := h.entries ns
    rw [inNamespace_append, inNamespace_cons, List.length_append] at hns
    rw [(s.ofNamespace_subtractCurrent _ _ _).1, inNamespace_append,
      List.length_append]
    by_cases hn : ns = it.key.keyNamespace
    · rw [if_pos hn.symm, List.length_cons] at hns
      rw [← hn, Function.update_self]
      omega
    · rw [if_neg (Ne.symm hn)] at hns
      rw [Function.update_of_ne hn]
      exact hns
  approx ns := by
    have hns := h.approx ns
    rw [inNamespace_append, inNamespace_cons, bytes_append] at hns
    rw [(s.ofNamespace_subtractCurrent _ _ _).2, inNamespace_append,
      bytes_append]
    by_cases hn : ns = it.key.keyNamespace
    · rw [if_pos hn.symm, bytes_cons] at hns
      rw [if_pos hn]
      omega
    · rw [if_neg (Ne.symm hn)] at hns
      rw [if_neg hn]
      exact hns

/-- Taking the surplus entry of a namespace off its count. -/
theorem settle {ns : String} {n : ℕ}
    (h : Books t (Function.update surplus ns (n + 1)) l)
    {f : CacheNamespaceTelemetry → CacheNamespaceTelemetry}
    (he : ∀ c, (f c).entries = c.entries - 1)
    (ha : ∀ c, (f c).approxBytes = c.approxBytes) :
    Books (t.namespaceMut ns f) (Function.update surplus ns n) l where
  current := h.current
  entries ns' := by
    have hns := h.entries ns'
    rw [CacheTelemetrySnapshot.ofNamespace_namespaceMut]
    split
    · next hn =>
      subst hn
      rw [Function.update_self] at hns ⊢
      rw [he, hns]
      omega
    · next hn =>
      rw [Function.update_of_ne hn] at hns ⊢
      exact hns
  approx ns' := by
    rw [CacheTelemetrySnapshot.ofNamespace_namespaceMut]
    split <;> simp only [ha, h.approx]

/-- Dropping the item of an eviction. -/
theorem subtract_evicted {s : GeometryCacheStore V}
    (h : Books s.telemetry surplus (xs ++ it :: ys)) :
    Books (s.subtractCurrent it.key.keyNamespace it.charge true).telemetry
      surplus (xs ++ ys) := by
  have h₁ := h.subtract.settle (n := surplus it.key.keyNamespace)
    (f := fun c => { c with
      entries := c.entries - 1
      evictions := saturatingAdd c.evictions 1
      evictedBytes := saturatingAdd c.evictedBytes it.charge })
    (fun _ => rfl) (fun _ => rfl)
  rw [Function.update_eq_self] at h₁
  exact ⟨h₁.current, h₁.entries, h₁.approx⟩

/-- Booking a new item, when its namespace has a surplus entry (the key is
being replaced) or gets its entry counted. -/
theorem book {s : GeometryCacheStore V} (it : CacheItem V) (h : Books s.telemetry surplus l)
    (hfit : bytes l + it.charge ≤ u64Max)
    (hlen : l.length < u64Max) (replacing : Bool)
    (hsur : surplus = if replacing then
      Function.update (fun _ => 0) it.key.keyNamespace 1 else fun _ => 0)
    {f : CacheNamespaceTelemetry → CacheNamespaceTelemetry}
    (he : ∀ c, (f c).entries =
      if replacing then c.entries else saturatingAdd c.entries 1)
    (ha : ∀ c, (f c).approxBytes = c.approxBytes) :
    Books ((s.addCurrent it.key.keyNamespace it.charge).telemetry.namespaceMut
      it.key.keyNamespace f) (fun _ => 0) (l ++ [it]) := by
  have hcur : saturatingAdd s.telemetry.currentBytes it.charge =
      bytes (l ++ [it]) := by
    rw [h.current, saturatingAdd_of_le hfit, bytes_append, bytes_cons, bytes_nil,
      Nat.add_zero]
  refine ⟨hcur, fun ns => ?_, fun ns => ?_⟩
  · have hns := h.entries ns
    rw [CacheTelemetrySnapshot.ofNamespace_namespaceMut, inNamespace_append,
      inNamespace_cons]
    have hadd := (s.ofNamespace_addCurrent it.key.keyNamespace ns it.charge).1
    have hle : (inNamespace ns l).length ≤ l.length := List.length_filter_le _ _
    by_cases hn : ns = it.key.keyNamespace
    · rw [if_pos hn, if_pos hn.symm, he, hadd, hns, hsur, List.length_append]
      cases replacing with
      | true => simp [hn, inNamespace]
      | false =>
          simp only [Bool.false_eq_true, if_false, Nat.add_zero]
          rw [saturatingAdd_of_le (by omega)]
          simp [inNamespace]
    · rw [if_neg hn, if_neg (Ne.symm hn), hadd, hns, hsur]
      cases replacing <;> simp [hn, inNamespace]
  · have hns := h.approx ns
    rw [CacheTelemetrySnapshot.ofNamespace_namespaceMut, inNamespace_append,
      inNamespace_cons]
    have hadd := (s.ofNamespace_addCurrent it.key.keyNamespace ns it.charge).2
    have hle := bytes_inNamespace_le ns l
    by_cases hn : ns = it.key.keyNamespace
    · rw [if_pos hn, if_pos hn.symm, ha, hadd, if_pos hn, hns,
        saturatingAdd_of_le (by omega)]
      simp [inNamespace]
    · rw [if_neg hn, if_neg (Ne.symm hn), hadd, if_neg hn, hns]
      simp [inNamespace]

end Books

/-! ## §3  Each operation simulates a list program -/

/-- **The store represents the list `l`**, under the cap. -/
structure Represents (cap : ℕ) (s : GeometryCacheStore V)
    (l : List (CacheItem V)) : Prop where
  shape : ∃ slot, Shape s slot l
  books : Books s.telemetry (fun _ => 0) l
  byteCap : s.byteCap = cap
  fits : bytes l ≤ cap
  charged : ∀ it ∈ l, 0 < it.charge

section Operations

variable {cap : ℕ} {s : GeometryCacheStore V} {l : List (CacheItem V)}

theorem represents_withByteCap (cap : ℕ) :
    Represents cap (GeometryCacheStore.withByteCap V cap) [] where
  shape := ⟨fun _ => 0, List.nodup_nil,
    ⟨⟨List.nodup_nil, trivial, rfl, rfl⟩, List.nodup_nil, by
      simp [GeometryCacheStore.withByteCap, RecencyList.empty]⟩,
    fun key e => by simp [GeometryCacheStore.withByteCap]⟩
  books := ⟨rfl, fun _ => rfl, fun _ => rfl⟩
  byteCap := rfl
  fits := Nat.zero_le _
  charged := by simp

/-- Counting lookups, hits or rejections changes nothing represented. -/
theorem Represents.countIn (h : Represents cap s l) (ns : String)
    {f : CacheNamespaceTelemetry → CacheNamespaceTelemetry}
    (he : ∀ c, (f c).entries = c.entries)
    (ha : ∀ c, (f c).approxBytes = c.approxBytes) :
    Represents cap (s.countIn ns f) l where
  shape := by
    obtain ⟨slot, hs⟩ := h.shape
    exact ⟨slot, hs.of_eq rfl rfl⟩
  books := h.books.countIn ns he ha
  byteCap := h.byteCap
  fits := h.fits
  charged := h.charged

theorem Represents.recordOversizedRejection (h : Represents cap s l)
    (ns : String) : Represents cap (s.recordOversizedRejection ns) l := by
  have h₁ := h.countIn ns (f := fun c => { c with
    capBytes := s.byteCap
    oversizedRejections := saturatingAdd c.oversizedRejections 1 })
    (fun _ => rfl) (fun _ => rfl)
  obtain ⟨slot, hs⟩ := h₁.shape
  exact ⟨⟨slot, hs.of_eq rfl rfl⟩,
    ⟨h₁.books.current, h₁.books.entries, h₁.books.approx⟩, h₁.byteCap, h₁.fits,
    h₁.charged⟩

theorem Represents.compact (h : Represents cap s l) :
    ∃ s', s.compactRetainedStorage = some s' ∧ Represents cap s' l := by
  obtain ⟨slot, hs⟩ := h.shape
  obtain ⟨s', slot', he, hs', ht, hc⟩ := hs.compact
  exact ⟨s', he, ⟨slot', hs'⟩, ht ▸ h.books, hc.trans h.byteCap, h.fits,
    h.charged⟩

theorem represents_clear (h : Represents cap s l) :
    Represents cap s.clear [] where
  shape := ⟨fun _ => 0, List.nodup_nil,
    ⟨⟨List.nodup_nil, trivial, rfl, rfl⟩, List.nodup_nil, by
      simp [GeometryCacheStore.clear, RecencyList.empty]⟩,
    fun key e => by simp [GeometryCacheStore.clear]⟩
  books := by
    refine ⟨rfl, fun ns => ?_, fun ns => ?_⟩ <;>
    · simp only [GeometryCacheStore.clear, CacheTelemetrySnapshot.ofNamespace]
      cases s.telemetry.namespaces ns <;> rfl
  byteCap := h.byteCap
  fits := Nat.zero_le _
  charged := by simp

/-! ### Looking up -/

/-- Permuting the items keeps everything but their order. -/
theorem Represents.reorder (h : Represents cap s l) {slot : GeometryCacheKey → ℕ}
    {s' : GeometryCacheStore V} {l' : List (CacheItem V)}
    (hs : Shape s' slot l') (ht : s'.telemetry = s.telemetry)
    (hc : s'.byteCap = s.byteCap) (hp : l.Perm l') : Represents cap s' l' where
  shape := ⟨slot, hs⟩
  books := ht ▸ h.books.perm hp
  byteCap := hc.trans h.byteCap
  fits := by
    rw [← show bytes l = bytes l' from (hp.map Item.charge).sum_eq]
    exact h.fits
  charged it hit := h.charged it (hp.mem_iff.mpr hit)

theorem Represents.touch (h : Represents cap s l) {key : GeometryCacheKey}
    {it : CacheItem V} (hf : find key l = some it) :
    ∃ s', s.touch (serializeGeometryCacheKey key) = some s' ∧
      Represents cap s' (touch key l) := by
  obtain ⟨slot, hs⟩ := h.shape
  have hlookup := hs.lookup_eq key
  obtain ⟨xs, ys, rfl, rfl⟩ := hs.split hf
  obtain ⟨r, hr, hshape⟩ := hs.use
  refine ⟨{ s with recency := r }, ?_, ?_⟩
  · rw [GeometryCacheStore.touch, hlookup, hf]
    simp [entryOf, hr]
  · rw [hs.keyed.touch_append]
    refine h.reorder (hshape _ rfl rfl) rfl rfl ?_
    rw [List.append_assoc]
    exact (List.perm_append_left_iff xs).mpr
      (List.perm_append_singleton it ys).symm

/-- **A probe** inspects what the list program finds, and reorders likewise. -/
theorem Represents.probe [DecidableEq Ty] (h : Represents cap s l)
    (key : GeometryCacheKey) (ty : Ty) {R : Type}
    (inspect : Option (V ty) → R) :
    ∃ s', s.probe key ty inspect =
        some (s', inspect (useItem (downcastRef ty) key l).2) ∧
      Represents cap s' (useItem (downcastRef ty) key l).1 := by
  obtain ⟨slot, hs⟩ := h.shape
  have hpresent : ((s.entries.lookup (serializeGeometryCacheKey key)).bind
      fun entry => downcastRef ty entry.value) =
        (find key l).bind fun it => downcastRef ty it.value := by
    rw [hs.lookup_eq]
    cases find key l <;> rfl
  have h₁ := h.countIn key.keyNamespace (f := fun c => { c with
    lookups := saturatingAdd c.lookups 1 }) (fun _ => rfl) (fun _ => rfl)
  unfold GeometryCacheStore.probe useItem
  simp only [hpresent]
  cases hv : (find key l).bind fun it => downcastRef ty it.value with
  | some v =>
      obtain ⟨it, hf, -⟩ := Option.bind_eq_some_iff.mp hv
      obtain ⟨s', he, hs'⟩ := h₁.touch hf
      exact ⟨s', by simp [he], hs'⟩
  | none =>
      exact ⟨_, rfl, h₁.countIn key.keyNamespace (fun _ => rfl) (fun _ => rfl)⟩

/-! ### Removing -/

/-- Taking the item of a key out of map, slab and ledgers, as `remove` and
`set` both do it, leaves one surplus entry in its namespace. -/
theorem Represents.takeOut (h : Represents cap s l) {key : GeometryCacheKey}
    {it : CacheItem V} (hf : find key l = some it) :
    ∃ slot r, s.entries.lookup (serializeGeometryCacheKey key) =
        some (entryOf slot it) ∧ it.key = key ∧
      s.recency.removeRecencyNode (slot it.key) = some r ∧
      (∀ s' : GeometryCacheStore V, s'.recency = r →
        s'.entries = s.entries.erase (serializeGeometryCacheKey key) →
        Shape s' slot (erase key l)) ∧
      (∀ s' : GeometryCacheStore V, Books s'.telemetry (fun _ => 0) l →
        Books (s'.subtractCurrent key.keyNamespace it.charge false).telemetry
          (Function.update (fun _ => 0) key.keyNamespace 1) (erase key l)) := by
  obtain ⟨slot, hs⟩ := h.shape
  have hlookup := hs.lookup_eq key
  obtain ⟨xs, ys, rfl, rfl⟩ := hs.split hf
  obtain ⟨r, hr, hshape⟩ := hs.unlink
  rw [hf] at hlookup
  rw [hs.keyed.erase_append]
  exact ⟨slot, r, hlookup, rfl, hr, hshape, fun s' hb => hb.subtract⟩

theorem bytes_erase_le (key : GeometryCacheKey) (l : List (CacheItem V)) :
    bytes (erase key l) ≤ bytes l :=
  ((List.filter_sublist (l := l)).map Item.charge).sum_le_sum
    fun _ _ => Nat.zero_le _

theorem Represents.remove (h : Represents cap s l) (key : GeometryCacheKey) :
    ∃ s', s.remove key = some s' ∧ Represents cap s' (erase key l) := by
  obtain ⟨slot, hs⟩ := h.shape
  cases hf : find key l with
  | none =>
      have hlookup := hs.lookup_eq key
      rw [hf, Option.map_none] at hlookup
      have herase : erase key l = l := erase_eq_self (find_eq_none.mp hf)
      have hentries : s.entries.erase (serializeGeometryCacheKey key) =
          s.entries := by
        refine AList.ext ?_
        exact List.kerase_of_notMem_keys (AList.lookup_eq_none.mp hlookup)
      rw [herase]
      refine ⟨_, by simp only [GeometryCacheStore.remove, hlookup, hentries],
        h.countIn key.keyNamespace (f := fun c => { c with
          staleRemovals := saturatingAdd c.staleRemovals 1 })
          (fun _ => rfl) (fun _ => rfl)⟩
  | some it =>
      obtain ⟨slot, r, hlookup, rfl, hr, hshape, hbooks⟩ := h.takeOut hf
      let s₁ : GeometryCacheStore V :=
        { s.countIn it.key.keyNamespace (fun c => { c with
            staleRemovals := saturatingAdd c.staleRemovals 1 }) with
          entries := s.entries.erase (serializeGeometryCacheKey it.key)
          recency := r }
      have hb₁ : Books s₁.telemetry (fun _ => 0) l :=
        h.books.countIn it.key.keyNamespace (f := fun c => { c with
          staleRemovals := saturatingAdd c.staleRemovals 1 })
          (fun _ => rfl) (fun _ => rfl)
      have hb := (hbooks s₁ hb₁).settle (f := fun c => { c with
        entries := c.entries - 1 }) (fun _ => rfl) (fun _ => rfl)
      rw [Function.update_eq_self] at hb
      have hrep : Represents cap (GeometryCacheStore.countIn
          (s₁.subtractCurrent it.key.keyNamespace it.charge false)
          it.key.keyNamespace fun c => { c with entries := c.entries - 1 })
          (erase it.key l) :=
        ⟨⟨slot, hshape _ rfl rfl⟩, hb, h.byteCap,
          (bytes_erase_le _ _).trans h.fits,
          fun a ha => h.charged a (mem_erase.mp ha).1⟩
      obtain ⟨s', he, hs'⟩ := hrep.compact
      refine ⟨s', ?_, hs'⟩
      simp only [GeometryCacheStore.remove, hlookup, entryOf,
        GeometryCacheStore.removeRecencyNode]
      simp only [GeometryCacheStore.countIn, hr, Option.bind_eq_bind,
        Option.bind_some]
      exact he

/-! ### Setting -/

/-- The surplus a namespace has while one of its keys is being replaced. -/
def surplusOf (replacing : Bool) (ns : String) : String → ℕ :=
  if replacing then Function.update (fun _ => 0) ns 1 else fun _ => 0

theorem Represents.removePrevious (h : Represents cap s l)
    (key : GeometryCacheKey) :
    ∃ s' slot, s.removePrevious (serializeGeometryCacheKey key) = some s' ∧
      Shape s' slot (erase key l) ∧
      Books s'.telemetry (surplusOf (find key l).isSome key.keyNamespace)
        (erase key l) ∧ s'.byteCap = cap := by
  cases hf : find key l with
  | none =>
      obtain ⟨slot, hs⟩ := h.shape
      have hlookup := hs.lookup_eq key
      rw [hf, Option.map_none] at hlookup
      rw [erase_eq_self (find_eq_none.mp hf)]
      exact ⟨s, slot, by rw [GeometryCacheStore.removePrevious, hlookup], hs,
        h.books, h.byteCap⟩
  | some it =>
      obtain ⟨slot, r, hlookup, rfl, hr, hshape, hbooks⟩ := h.takeOut hf
      let s₁ : GeometryCacheStore V :=
        { s with
          entries := s.entries.erase (serializeGeometryCacheKey it.key)
          recency := r }
      refine ⟨s₁.subtractCurrent it.key.keyNamespace it.charge false, slot, ?_,
        hshape _ rfl rfl, hbooks s₁ h.books, h.byteCap⟩
      simp only [GeometryCacheStore.removePrevious, hlookup, entryOf,
        GeometryCacheStore.removeRecencyNode, hr, Option.bind_eq_bind,
        Option.bind_some]
      rfl

/-- The loop's test compares the bytes with the room left by the new entry. -/
theorem saturatingAdd_le_iff {a c : ℕ} (hcap : cap < u64Max) (hc : c ≤ cap) :
    saturatingAdd a c ≤ cap ↔ a ≤ cap - c := by
  unfold saturatingAdd
  omega

/-- **The eviction loop** drops the shortest prefix that makes room. -/
theorem evictUntilFits_spec (entryCharge : ℕ) {slot : GeometryCacheKey → ℕ}
    {surplus : String → ℕ} (hcap : cap < u64Max) (hc : entryCharge ≤ cap) :
    ∀ (l : List (CacheItem V)) (s : GeometryCacheStore V) (fuel : ℕ)
      (evictedAny : Bool), s.byteCap = cap → l.length ≤ fuel →
      Shape s slot l → Books s.telemetry surplus l →
      ∃ s' b, GeometryCacheStore.evictUntilFits entryCharge fuel s evictedAny =
          some (s', b) ∧ Shape s' slot (evict (cap - entryCharge) l) ∧
        Books s'.telemetry surplus (evict (cap - entryCharge) l) ∧
        s'.byteCap = cap := by
  intro l
  induction l with
  | nil =>
      intro s fuel evictedAny hbc _ hs hb
      refine ⟨s, evictedAny, ?_, hs, hb, hbc⟩
      have hle : saturatingAdd s.telemetry.currentBytes entryCharge ≤
          s.byteCap := by
        rw [hbc, saturatingAdd_le_iff hcap hc, hb.current]
        exact Nat.zero_le _
      unfold GeometryCacheStore.evictUntilFits
      rw [if_pos hle]
  | cons it l ih =>
      intro s fuel evictedAny hbc hfuel hs hb
      have htest : saturatingAdd s.telemetry.currentBytes entryCharge ≤
          s.byteCap ↔ bytes (it :: l) ≤ cap - entryCharge := by
        rw [hbc, saturatingAdd_le_iff hcap hc, hb.current]
      by_cases hroom : bytes (it :: l) ≤ cap - entryCharge
      · rw [evict, if_pos hroom]
        refine ⟨s, evictedAny, ?_, hs, hb, hbc⟩
        unfold GeometryCacheStore.evictUntilFits
        rw [if_pos (htest.mpr hroom)]
      · rw [evict, if_neg hroom]
        obtain ⟨fuel, rfl⟩ : ∃ f, fuel = f + 1 :=
          ⟨fuel - 1, by rw [List.length_cons] at hfuel; omega⟩
        have hhead : s.recency.head = some (slot it.key) := hs.recency.linked.head
        have hnode := RecencyList.node_of_cells hs.recency.linked.chain.1
        have hlookup := hs.lookup_of_mem (List.mem_cons_self : it ∈ it :: l)
        obtain ⟨r, hr, hshape⟩ :=
          Shape.unlink (show Shape s slot ([] ++ it :: l) from hs)
        let s₁ : GeometryCacheStore V :=
          { s with
            entries := s.entries.erase (serializeGeometryCacheKey it.key)
            recency := r }
        have hb₁ : Books s₁.telemetry surplus ([] ++ it :: l) := hb
        obtain ⟨s', b, he, hs', hb', hc'⟩ := ih
          (s₁.subtractCurrent it.key.keyNamespace it.charge true) fuel true hbc
          (by simpa using hfuel) (hshape _ rfl rfl) hb₁.subtract_evicted
        refine ⟨s', b, ?_, hs', hb', hc'⟩
        unfold GeometryCacheStore.evictUntilFits
        rw [if_neg (fun hle => hroom (htest.mp hle)), hhead]
        simp only [hnode, GeometryCacheStore.removeRecencyNode, hr, hlookup,
          Option.bind_eq_bind, Option.bind_some]
        exact he

theorem admitEntry_spec (it : CacheItem V) {slot : GeometryCacheKey → ℕ}
    {replacing : Bool} (hs : Shape s slot l)
    (hb : Books s.telemetry (surplusOf replacing it.key.keyNamespace) l)
    (hbc : s.byteCap = cap) (hcap : cap < u64Max)
    (hfit : bytes l + it.charge ≤ cap) (hfresh : ∀ a ∈ l, a.key ≠ it.key)
    (hpos : ∀ a ∈ l ++ [it], 0 < a.charge) :
    ∃ s', s.admitEntry it.key it.value it.charge replacing = some s' ∧
      Represents cap s' (l ++ [it]) := by
  obtain ⟨r, i, hr, hshape⟩ := hs.link hfresh
  have hlen : l.length ≤ bytes l :=
    length_le_bytes fun a ha => hpos a (List.mem_append_left _ ha)
  let s₁ : GeometryCacheStore V :=
    { s with
      recency := r
      entries := s.entries.insert (serializeGeometryCacheKey it.key)
        ⟨it.value, it.charge, it.key.keyNamespace, i⟩ }
  have hb₁ := Books.book (s := s₁) it hb (by omega) (by omega) replacing
    rfl (f := fun c => { c with
      stores := saturatingAdd c.stores 1
      replacements := if replacing then saturatingAdd c.replacements 1
        else c.replacements
      entries := if replacing then c.entries else saturatingAdd c.entries 1
      admissions := saturatingAdd c.admissions 1 }) (fun _ => rfl) (fun _ => rfl)
  refine ⟨(s₁.addCurrent it.key.keyNamespace it.charge).countAdmission
    it.key.keyNamespace replacing, ?_, ⟨⟨_, hshape _ rfl rfl⟩,
    ⟨hb₁.current, hb₁.entries, hb₁.approx⟩, hbc, by simpa using hfit, hpos⟩⟩
  simp only [GeometryCacheStore.admitEntry, hr, Option.bind_eq_bind,
    Option.bind_some]
  rfl

/-- **Setting** simulates putting an item: refused alone if it exceeds the
cap, otherwise admitted after dropping the shortest prefix. -/
theorem Represents.set (h : Represents cap s l) (hcap : cap < u64Max)
    (key : GeometryCacheKey) (value : Σ ty, V ty)
    (valueCharge keyCapacity namespaceCapacity : ℕ) :
    ∃ s', s.set key value valueCharge keyCapacity namespaceCapacity =
        some (s', decide (conservativeEntryCharge keyCapacity namespaceCapacity
          valueCharge ≤ cap)) ∧
      Represents cap s' (put cap ⟨key, value, conservativeEntryCharge
        keyCapacity namespaceCapacity valueCharge⟩ l) := by
  have hpos := conservativeEntryCharge_pos keyCapacity namespaceCapacity valueCharge
  generalize hch : conservativeEntryCharge keyCapacity namespaceCapacity
    valueCharge = charge at hpos
  unfold GeometryCacheStore.set put
  simp only [hch, h.byteCap]
  by_cases hbig : cap < charge
  · rw [if_pos hbig, if_pos hbig, decide_eq_false (by omega)]
    exact ⟨_, rfl, h.recordOversizedRejection _⟩
  · rw [if_neg hbig, if_neg hbig, decide_eq_true (by omega)]
    obtain ⟨s₁, slot, he₁, hs₁, hb₁, hc₁⟩ := h.removePrevious key
    have hlen : (erase key l).length ≤ s₁.recency.nodes.length := by
      simpa [slots] using hs₁.recency.linked.length_le
    obtain ⟨s₂, b, he₂, hs₂, hb₂, hc₂⟩ := evictUntilFits_spec
      charge hcap (by omega) (erase key l) s₁ s₁.recency.nodes.length false hc₁ hlen hs₁ hb₁
    have hle := bytes_evict_le (cap - charge) (erase key l)
    have hmem : ∀ a ∈ evict (cap - charge) (erase key l),
        a ∈ l ∧ a.key ≠ key := fun a ha =>
      mem_erase.mp ((evict_suffix _ _).subset ha)
    obtain ⟨s₃, he₃, hs₃⟩ := admitEntry_spec ⟨key, value, charge⟩ hs₂ hb₂ hc₂
      hcap (by show _ + charge ≤ cap; omega) (fun a ha => (hmem a ha).2) (by
        intro a ha
        rcases List.mem_append.mp ha with ha | ha
        · exact h.charged a (hmem a ha).1
        · obtain rfl : a = ⟨key, value, charge⟩ := by simpa using ha
          exact hpos)
    have hreplacing : (s.entries.lookup (serializeGeometryCacheKey key)).isSome =
        (find key l).isSome := by
      obtain ⟨slot, hs⟩ := h.shape
      rw [hs.lookup_eq, Option.isSome_map]
    cases b with
    | false =>
        refine ⟨s₃, ?_, hs₃⟩
        simp [he₁, he₂, hreplacing, he₃]
    | true =>
        obtain ⟨s₄, he₄, hs₄⟩ := hs₃.compact
        refine ⟨s₄, ?_, hs₄⟩
        simp [he₁, he₂, hreplacing, he₃, he₄]

end Operations

/-! ## §4  Whole runs -/

section Runs

variable [DecidableEq Ty]

/-- The plain list program of an operation, and its reply. -/
def lruApply (cap : ℕ) (l : List (CacheItem V)) :
    CacheOp V → List (CacheItem V) × CacheReply V
  | .set key value valueCharge keyCapacity namespaceCapacity =>
      let charge :=
        conservativeEntryCharge keyCapacity namespaceCapacity valueCharge
      (put cap ⟨key, value, charge⟩ l, .admitted (charge ≤ cap))
  | .get key ty =>
      let r := useItem (downcastRef ty) key l
      (r.1, .found (r.2.map fun v => ⟨ty, v⟩))
  | .probeWith key ty =>
      let r := useItem (downcastRef ty) key l
      (r.1, .found (r.2.map fun v => ⟨ty, v⟩))
  | .probeValid key ty isValid =>
      let r := useItem (downcastRef ty) key l
      match r.2.map isValid with
      | some true => (r.1, .probed .hotValid)
      | some false => (erase key r.1, .probed .staleRemoved)
      | none => (r.1, .probed .cold)
  | .remove key => (erase key l, .done)
  | .clear => ([], .done)
  | .compact => (l, .done)
  | .recordHit _ => (l, .done)
  | .recordStaleDetection _ => (l, .done)
  | .recordCloningHit _ => (l, .done)

def lruRun (cap : ℕ) (l : List (CacheItem V)) :
    List (CacheOp V) → List (CacheItem V) × List (CacheReply V)
  | [] => (l, [])
  | op :: ops =>
      let (l, reply) := lruApply cap l op
      let (l, replies) := lruRun cap l ops
      (l, reply :: replies)

variable {cap : ℕ} {s : GeometryCacheStore V} {l : List (CacheItem V)}

/-- **Simulation.** Each operation runs without a panic, answers as the list
program does, and keeps the representation. -/
theorem Represents.apply (h : Represents cap s l) (hcap : cap < u64Max)
    (op : CacheOp V) :
    ∃ s', op.apply s = some (s', (lruApply cap l op).2) ∧
      Represents cap s' (lruApply cap l op).1 := by
  cases op with
  | set key value valueCharge keyCapacity namespaceCapacity =>
      obtain ⟨s', he, hs⟩ :=
        h.set hcap key value valueCharge keyCapacity namespaceCapacity
      exact ⟨s', by simp [CacheOp.apply, he, lruApply], hs⟩
  | get key ty =>
      obtain ⟨s', he, hs⟩ := h.probe key ty id
      by_cases hv : (useItem (downcastRef ty) key l).2.isSome
      · refine ⟨s'.recordCloningHit key.keyNamespace, ?_,
          hs.countIn _ (fun _ => rfl) (fun _ => rfl)⟩
        simp [CacheOp.apply, GeometryCacheStore.get, he, hv, lruApply]
      · refine ⟨s', ?_, hs⟩
        simp [CacheOp.apply, GeometryCacheStore.get, he, hv, lruApply]
  | probeWith key ty =>
      obtain ⟨s', he, hs⟩ := h.probe key ty id
      exact ⟨s', by simp [CacheOp.apply, he, lruApply], hs⟩
  | probeValid key ty isValid =>
      obtain ⟨s', he, hs⟩ := h.probe key ty fun v => v.map isValid
      simp only [CacheOp.apply, GeometryCacheStore.probeValid, he, lruApply,
        Option.bind_eq_bind, Option.bind_some]
      cases hv : (useItem (downcastRef ty) key l).2.map isValid with
      | none => exact ⟨s', rfl, hs⟩
      | some valid =>
          cases valid with
          | true => exact ⟨s', rfl, hs⟩
          | false =>
              obtain ⟨s₂, he₂, hs₂⟩ := Represents.remove
                (hs.countIn key.keyNamespace (f := fun c => { c with
                  staleDetections := saturatingAdd c.staleDetections 1 })
                  (fun _ => rfl) (fun _ => rfl)) key
              refine ⟨s₂, ?_, hs₂⟩
              simp only [GeometryCacheStore.recordStaleDetection, he₂,
                Option.bind_some]
  | remove key =>
      obtain ⟨s', he, hs⟩ := h.remove key
      exact ⟨s', by simp [CacheOp.apply, he, lruApply], hs⟩
  | clear => exact ⟨s.clear, rfl, represents_clear h⟩
  | compact =>
      obtain ⟨s', he, hs⟩ := h.compact
      exact ⟨s', by simp [CacheOp.apply, he, lruApply], hs⟩
  | recordHit ns =>
      exact ⟨_, rfl, h.countIn ns (fun _ => rfl) (fun _ => rfl)⟩
  | recordStaleDetection ns =>
      exact ⟨_, rfl, h.countIn ns (fun _ => rfl) (fun _ => rfl)⟩
  | recordCloningHit ns =>
      exact ⟨_, rfl, h.countIn ns (fun _ => rfl) (fun _ => rfl)⟩

theorem Represents.run (hcap : cap < u64Max) (ops : List (CacheOp V)) :
    ∀ {s : GeometryCacheStore V} {l : List (CacheItem V)}, Represents cap s l →
      ∃ s', s.run ops = some (s', (lruRun cap l ops).2) ∧
        Represents cap s' (lruRun cap l ops).1 := by
  induction ops with
  | nil => exact fun h => ⟨_, rfl, h⟩
  | cons op ops ih =>
      intro s l h
      obtain ⟨s₁, he₁, hs₁⟩ := h.apply hcap op
      obtain ⟨s₂, he₂, hs₂⟩ := ih hs₁
      refine ⟨s₂, ?_, hs₂⟩
      simp [GeometryCacheStore.run, he₁, he₂, lruRun]

end Runs

/-! ## §5  What the representation says about the store -/

namespace GeometryCacheStore

variable (s : GeometryCacheStore V)

/-- The entries of the map, in no particular order. -/
def liveEntries : List (GeometryCacheEntry V) := s.entries.entries.map Sigma.snd

def liveBytes (live : List (GeometryCacheEntry V)) : ℕ :=
  (live.map GeometryCacheEntry.chargeBytes).sum

/-- The live entries of one namespace. -/
def liveIn (ns : String) : List (GeometryCacheEntry V) :=
  s.liveEntries.filter fun e => e.entryNamespace = ns

/-- Key, value and charge of every entry, in recency order. -/
def contents : Option (List (String × (Σ ty, V ty) × ℕ)) := do
  let keys ← s.recency.orderedKeys s.recency.nodes.length s.recency.head
  keys.mapM fun key =>
    (s.entries.lookup key).map fun e => (key, e.value, e.chargeBytes)

end GeometryCacheStore

/-- What the walk of the recency list shows of the items. -/
def shown (l : List (CacheItem V)) : List (String × (Σ ty, V ty) × ℕ) :=
  l.map fun it => (serializeGeometryCacheKey it.key, it.value, it.charge)

/-- **An exact byte-bounded LRU store** with the given contents. -/
structure ExactLru (cap : ℕ) (s : GeometryCacheStore V)
    (l : List (CacheItem V)) : Prop where
  /-- The current bytes are the live charges, under the cap. -/
  current : s.telemetry.currentBytes =
    GeometryCacheStore.liveBytes s.liveEntries
  withinCap : s.telemetry.currentBytes ≤ cap
  /-- Every namespace counts its live entries and their bytes. -/
  namespaces : ∀ ns,
    (s.telemetry.ofNamespace ns).entries = (s.liveIn ns).length ∧
      (s.telemetry.ofNamespace ns).approxBytes =
        GeometryCacheStore.liveBytes (s.liveIn ns)
  /-- The recency list is doubly linked, and names every live entry once, at
  the slot the entry remembers. -/
  recency : ∃ o, s.recency.Linked o ∧ (o.map Prod.snd).Perm s.entries.keys ∧
    ∀ x ∈ o, ∃ e, s.entries.lookup x.2 = some e ∧ e.recencyNode = x.1
  /-- The contents, in recency order, are those of the plain list. -/
  contents : s.contents = some (shown l)
  /-- A new entry that fits the cap is admitted as the most recent one, after
  its key's old entry and the shortest prefix that makes room. -/
  admits : ∀ key value valueCharge keyCapacity namespaceCapacity charge,
    conservativeEntryCharge keyCapacity namespaceCapacity valueCharge = charge →
    charge ≤ cap →
    ∃ s' n, s.set key value valueCharge keyCapacity namespaceCapacity =
        some (s', true) ∧
      s'.contents = some (shown ((erase key l).drop n ++ [⟨key, value, charge⟩])) ∧
      bytes ((erase key l).drop n) + charge ≤ cap ∧
      ∀ m < n, cap < bytes ((erase key l).drop m) + charge
  /-- An oversized insertion is refused and touches no entry, no recency and
  no byte ledger. -/
  rejects : ∀ key value valueCharge keyCapacity namespaceCapacity,
    cap < conservativeEntryCharge keyCapacity namespaceCapacity valueCharge →
    ∃ s', s.set key value valueCharge keyCapacity namespaceCapacity =
        some (s', false) ∧ s'.entries = s.entries ∧ s'.recency = s.recency ∧
      s'.telemetry.currentBytes = s.telemetry.currentBytes

/-- The entries of the map are those of the items. -/
theorem Shape.entries_perm {s : GeometryCacheStore V}
    {slot : GeometryCacheKey → ℕ} {l : List (CacheItem V)}
    (h : Shape s slot l) : s.entries.entries.Perm (l.map fun it =>
      ⟨serializeGeometryCacheKey it.key, entryOf slot it⟩) := by
  have hnd : (l.map fun it => (⟨serializeGeometryCacheKey it.key,
      entryOf slot it⟩ : Σ _ : String, GeometryCacheEntry V)).Nodup := by
    refine List.Nodup.of_map Sigma.fst ?_
    rw [List.map_map, show (Sigma.fst ∘ fun it : CacheItem V =>
      (⟨serializeGeometryCacheKey it.key, entryOf slot it⟩ :
        Σ _ : String, GeometryCacheEntry V)) =
      serializeGeometryCacheKey ∘ Item.key from rfl, ← List.map_map]
    exact h.keyed.map serializeGeometryCacheKey_injective
  refine (List.perm_ext_iff_of_nodup s.entries.nodupKeys.nodup hnd).mpr ?_
  rintro ⟨key, e⟩
  rw [← AList.mem_lookup_iff, Option.mem_def, h.entries, List.mem_map]
  refine exists_congr fun it => and_congr_right fun _ => ?_
  constructor
  · rintro ⟨rfl, rfl⟩
    rfl
  · intro heq
    cases heq
    exact ⟨rfl, rfl⟩

theorem Represents.contents {cap : ℕ} {s : GeometryCacheStore V}
    {l : List (CacheItem V)} (h : Represents cap s l) :
    s.contents = some (shown l) := by
  obtain ⟨slot, hs⟩ := h.shape
  have hkeys := RecencyList.orderedKeys_spec hs.recency.linked
  have hmapM : ∀ items : List (CacheItem V), (∀ it ∈ items, it ∈ l) →
      (items.map fun it => serializeGeometryCacheKey it.key).mapM (fun key =>
        (s.entries.lookup key).map fun e => (key, e.value, e.chargeBytes)) =
      some (shown items) := by
    intro items
    induction items with
    | nil => exact fun _ => rfl
    | cons it items ih =>
        intro hmem
        rw [List.map_cons, List.mapM_cons, ih fun a ha => hmem a (by simp [ha]),
          hs.lookup_of_mem (hmem it (by simp))]
        rfl
  have hsnd : (slots slot l).map Prod.snd =
      l.map fun it => serializeGeometryCacheKey it.key := by simp [slots]
  simp only [GeometryCacheStore.contents, hkeys, hsnd, Option.bind_eq_bind,
    Option.bind_some]
  exact hmapM l fun _ => id

theorem Represents.exactLru {cap : ℕ} {s : GeometryCacheStore V}
    {l : List (CacheItem V)} (h : Represents cap s l) (hcap : cap < u64Max) :
    ExactLru cap s l := by
  obtain ⟨slot, hs⟩ := h.shape
  have hperm := hs.entries_perm
  have hlive : s.liveEntries.Perm (l.map (entryOf slot)) := by
    have := hperm.map Sigma.snd
    rwa [List.map_map] at this
  have hbytes : ∀ (live : List (GeometryCacheEntry V)) (items : List (CacheItem V)),
      live.Perm (items.map (entryOf slot)) →
      GeometryCacheStore.liveBytes live = bytes items := by
    intro live items hp
    have hsum := (hp.map GeometryCacheEntry.chargeBytes).sum_eq
    rw [List.map_map] at hsum
    exact hsum
  have hin : ∀ ns, (s.liveIn ns).Perm ((inNamespace ns l).map (entryOf slot)) := by
    intro ns
    have := hlive.filter fun e => e.entryNamespace = ns
    rwa [List.filter_map] at this
  refine ⟨?_, ?_, ?_, ?_, h.contents, ?_, ?_⟩
  · rw [h.books.current, hbytes _ _ hlive]
  · rw [h.books.current]
    exact h.fits
  · intro ns
    rw [h.books.entries, h.books.approx, hbytes _ _ (hin ns), (hin ns).length_eq,
      List.length_map]
    exact ⟨rfl, rfl⟩
  · refine ⟨slots slot l, hs.recency.linked, ?_, ?_⟩
    · have := (hperm.map Sigma.fst).symm
      rw [List.map_map] at this
      simpa [slots, AList.keys, List.keys, Function.comp_def] using this
    · intro x hx
      obtain ⟨it, hit, rfl⟩ := List.mem_map.mp hx
      exact ⟨entryOf slot it, hs.lookup_of_mem hit, rfl⟩
  · rintro key value valueCharge keyCapacity namespaceCapacity charge hch hle
    obtain ⟨s', he, hs'⟩ :=
      h.set hcap key value valueCharge keyCapacity namespaceCapacity
    obtain ⟨n, hn, hmin⟩ := evict_eq_drop (cap - charge) (erase key l)
    have hroom := bytes_evict_le (cap - charge) (erase key l)
    rw [hch, decide_eq_true hle] at he
    rw [hch, put, if_neg (by exact Nat.not_lt.mpr hle)] at hs'
    rw [hn] at hs' hroom
    refine ⟨s', n, he, hs'.contents, by omega, fun m hm => ?_⟩
    have := hmin m hm
    omega
  · intro key value valueCharge keyCapacity namespaceCapacity hbig
    refine ⟨s.recordOversizedRejection key.keyNamespace, ?_, rfl, rfl, rfl⟩
    rw [GeometryCacheStore.set, if_pos (by rw [h.byteCap]; exact hbig)]

/-- **`GeometryCacheStore` is an exact byte-bounded LRU.** Every sequence of
operations on a fresh store runs without a panic, answers as the plain LRU list
answers, and leaves a store whose ledgers, recency list and contents are exact.
The cap of production stores is far below `u64::MAX`, where the saturating sum
of the eviction test could no longer exceed it. -/
theorem geometryCacheStore_exactLru [DecidableEq Ty] {byteCap : ℕ}
    (hcap : byteCap < u64Max) (ops : List (CacheOp V)) :
    ∃ s, (GeometryCacheStore.withByteCap V byteCap).run ops =
        some (s, (lruRun byteCap [] ops).2) ∧
      ExactLru byteCap s (lruRun byteCap [] ops).1 := by
  obtain ⟨s, he, hs⟩ :=
    Represents.run hcap ops (represents_withByteCap (V := V) byteCap)
  exact ⟨s, he, hs.exactLru hcap⟩

/-- Two entries of 276 bytes each: under a cap of 400 bytes the second one
evicts the first. -/
def evictingOps : List (CacheOp fun _ : Unit => ℕ) :=
  [.set ⟨"transform-collision-v1", ["a"]⟩ ⟨(), 1⟩ 10 40 10,
   .set ⟨"transform-collision-v1", ["b"]⟩ ⟨(), 2⟩ 10 40 10,
   .get ⟨"transform-collision-v1", ["a"]⟩ (),
   .get ⟨"transform-collision-v1", ["b"]⟩ ()]

theorem geometryCacheStore_exactLru_evicting :
    ∃ s, (GeometryCacheStore.withByteCap (fun _ : Unit => ℕ) 400).run evictingOps =
        some (s, [.admitted true, .admitted true, .found none,
          .found (some ⟨(), 2⟩)]) ∧
      ExactLru 400 s [⟨⟨"transform-collision-v1", ["b"]⟩, ⟨(), 2⟩, 276⟩] :=
  geometryCacheStore_exactLru (by decide) evictingOps

end PolygonNesting.Caches
