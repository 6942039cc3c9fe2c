import PolygonNesting.Lib.BoundedFifo
import PolygonNesting.Search.FreeMaterialCache

/-!
# The free-material cache is a bounded first-in first-out list

The cache refines the list of its live items, oldest first: the queue holds
their keys, the map their values and charges, the ledger their bytes.
-/

namespace PolygonNesting.Search.FreeMaterialCache

open PolygonNesting.Caches (saturatingAdd u64Max saturatingAdd_of_le)
open ByteLru BoundedFifo

variable {β : Type} {cap charge : ℕ} {key : String} {value : β}
  {cache : FreeMaterialCache β} {l kept : List (Item String β)}

/-! ## What the cache shows -/

def chargeOf (cache : FreeMaterialCache β) (key : String) : ℕ :=
  ((cache.entries.lookup key).map Prod.snd).getD 0

/-- The charges of the entries of the map. -/
def liveBytes (cache : FreeMaterialCache β) : ℕ :=
  (cache.entries.entries.map fun entry => entry.2.2).sum

/-- The set would fit once the `n` oldest entries are gone: the other keys
leave the bytes for it, and it takes its own place or a free one. -/
def FitsAfter (cache : FreeMaterialCache β) (key : String) (charge n : ℕ) : Prop :=
  (((cache.insertionOrder.drop n).filter (· ≠ key)).map cache.chargeOf).sum + charge ≤
      cache.byteCap ∧
    (key ∈ cache.insertionOrder ∨
      cache.insertionOrder.length - n < maxFreeMaterialCacheEntries)

/-- The map, the queue and the ledger agree and keep their limits. -/
structure Exact (cap : ℕ) (cache : FreeMaterialCache β) : Prop where
  byteCap : cache.byteCap = cap
  bytes : cache.telemetry.currentBytes = cache.liveBytes
  bounded : cache.telemetry.currentBytes ≤ cap
  count : cache.telemetry.entries = cache.size
  limited : cache.size ≤ maxFreeMaterialCacheEntries
  order : cache.insertionOrder.Perm cache.entries.keys

/-- What a set does.  It is refused where no number of oldest entries before
its own makes room, and then only counts the refusal.  Otherwise the fewest
that do are evicted, and the item takes its old place or the last one. -/
inductive SetOutcome (cache : FreeMaterialCache β) (key : String) (value : β)
    (charge : ℕ) : FreeMaterialCache β → Bool → Prop
  | refused
      (hfull : ∀ n, key ∉ cache.insertionOrder.take n → ¬ cache.FitsAfter key charge n) :
      SetOutcome cache key value charge cache.recordRejection false
  | admitted (n : ℕ) (next : FreeMaterialCache β)
      (hown : key ∉ cache.insertionOrder.take n)
      (hfits : cache.FitsAfter key charge n)
      (hleast : ∀ m < n, ¬ cache.FitsAfter key charge m)
      (horder : next.insertionOrder =
        cache.insertionOrder.drop n ++ if key ∈ cache.insertionOrder then [] else [key])
      (hentries : ∀ other, next.entries.lookup other =
        if other = key then some (value, charge)
        else if other ∈ cache.insertionOrder.take n then none
        else cache.entries.lookup other) :
      SetOutcome cache key value charge next true

/-! ## The refinement -/

structure Represents (cap : ℕ) (cache : FreeMaterialCache β)
    (l : List (Item String β)) : Prop where
  byteCap : cache.byteCap = cap
  order : cache.insertionOrder = l.map Item.key
  keyed : Keyed l
  lookup : ∀ key, cache.entries.lookup key =
    (find key l).map fun it => (it.value, it.charge)
  current : cache.telemetry.currentBytes = bytes l
  counted : cache.telemetry.entries = l.length
  fits : bytes l ≤ cap
  limited : l.length ≤ maxFreeMaterialCacheEntries

theorem represents_withByteCap (cap : ℕ) : Represents cap (withByteCap β cap) [] where
  byteCap := rfl
  order := rfl
  keyed := List.nodup_nil
  lookup _ := rfl
  current := rfl
  counted := rfl
  fits := Nat.zero_le _
  limited := Nat.zero_le _

namespace Represents

/-- Counting leaves the list as it is. -/
theorem counting (h : Represents cap cache l) {telemetry : FreeMaterialCacheTelemetry}
    (hcurrent : telemetry.currentBytes = cache.telemetry.currentBytes)
    (hentries : telemetry.entries = cache.telemetry.entries) :
    Represents cap
      { cache with
        telemetry := telemetry } l :=
  ⟨h.byteCap, h.order, h.keyed, h.lookup, hcurrent.trans h.current,
    hentries.trans h.counted, h.fits, h.limited⟩

theorem get (h : Represents cap cache l) (key : String) :
    Represents cap (cache.get key).1 l := by
  unfold FreeMaterialCache.get
  split
  · exact h.counting rfl rfl
  · exact h.counting rfl rfl

theorem clearAndShrink (h : Represents cap cache l) :
    Represents cap cache.clearAndShrink [] where
  byteCap := h.byteCap
  order := rfl
  keyed := List.nodup_nil
  lookup _ := rfl
  current := rfl
  counted := rfl
  fits := Nat.zero_le _
  limited := Nat.zero_le _

theorem lookup_of_mem (h : Represents cap cache l) {it : Item String β} (hit : it ∈ l) :
    cache.entries.lookup it.key = some (it.value, it.charge) := by
  rw [h.lookup, h.keyed.find_eq hit]
  rfl

theorem chargeOf_of_mem (h : Represents cap cache l) {it : Item String β} (hit : it ∈ l) :
    cache.chargeOf it.key = it.charge := by
  unfold chargeOf
  rw [h.lookup_of_mem hit]
  rfl

theorem mem_entries_iff (h : Represents cap cache l) (key : String) :
    key ∈ cache.entries ↔ ∃ it ∈ l, it.key = key := by
  rw [← AList.lookup_isSome, h.lookup, Option.isSome_map, Option.isSome_iff_ne_none]
  simp only [ne_eq, find_eq_none, not_forall, not_not, exists_prop]

theorem mem_order_iff (h : Represents cap cache l) (key : String) :
    key ∈ cache.insertionOrder ↔ ∃ it ∈ l, it.key = key := by
  rw [h.order]
  exact List.mem_map

theorem order_perm (h : Represents cap cache l) :
    cache.insertionOrder.Perm cache.entries.keys := by
  have hnodup : cache.insertionOrder.Nodup := h.order ▸ h.keyed
  refine (List.perm_ext_iff_of_nodup hnodup (AList.keys_nodup _)).mpr fun key => ?_
  rw [h.mem_order_iff, ← AList.mem_keys, h.mem_entries_iff]

theorem size_eq (h : Represents cap cache l) : cache.size = l.length := by
  unfold size
  rw [← h.order_perm.length_eq, h.order, List.length_map]

theorem liveBytes_eq (h : Represents cap cache l) : cache.liveBytes = bytes l := by
  have hentries : cache.entries.entries.map (fun entry => entry.2.2) =
      cache.entries.keys.map cache.chargeOf := by
    rw [AList.keys, List.keys, List.map_map]
    refine List.map_congr_left fun entry hentry => ?_
    have hlookup : entry.2 ∈ cache.entries.lookup entry.1 := AList.mem_lookup_iff.mpr hentry
    rw [Function.comp_apply, chargeOf, Option.mem_def.mp hlookup]
    rfl
  have hcharges : (l.map Item.key).map cache.chargeOf = l.map Item.charge := by
    rw [List.map_map]
    exact List.map_congr_left fun it hit => h.chargeOf_of_mem hit
  unfold liveBytes bytes
  rw [hentries, ← hcharges, ← h.order]
  exact (h.order_perm.map _).symm.sum_eq

theorem exact (h : Represents cap cache l) : Exact cap cache where
  byteCap := h.byteCap
  bytes := h.current.trans h.liveBytes_eq.symm
  bounded := h.current.symm ▸ h.fits
  count := h.counted.trans h.size_eq.symm
  limited := h.size_eq.symm ▸ h.limited
  order := h.order_perm

/-! ## Planning -/

theorem fitsAfter_iff (h : Represents cap cache l) {n : ℕ}
    (hown : key ∉ cache.insertionOrder.take n) :
    cache.FitsAfter key charge n ↔
      HasRoom cap maxFreeMaterialCacheEntries key charge (l.drop n) := by
  have hbytes : (((cache.insertionOrder.drop n).filter (· ≠ key)).map cache.chargeOf).sum =
      bytes (erase key (l.drop n)) := by
    unfold bytes erase
    rw [h.order, ← List.map_drop, List.filter_map, List.map_map]
    refine congrArg List.sum (List.map_congr_left fun it hit => ?_)
    exact h.chargeOf_of_mem (List.mem_of_mem_drop (List.mem_of_mem_filter hit))
  have hkey : key ∈ cache.insertionOrder ↔ ∃ it ∈ l.drop n, it.key = key := by
    rw [← List.mem_map, List.map_drop, ← h.order]
    constructor
    · intro hmem
      rw [← List.take_append_drop n cache.insertionOrder, List.mem_append] at hmem
      exact hmem.resolve_left hown
    · exact List.mem_of_mem_drop
  unfold FitsAfter HasRoom
  rw [hbytes, hkey, h.byteCap, h.order, List.length_map, List.length_drop]

/-- The loop's test: there is no room yet. -/
theorem test_iff (charge : ℕ) (hcap : cap < u64Max) (hbyteCap : cache.byteCap = cap) {replacing : Bool}
    {rest : List (Item String β)} (hreplacing : replacing = true ↔ ∃ it ∈ rest, it.key = key) :
    (saturatingAdd (bytes (erase key rest)) charge > cache.byteCap ∨
        (!replacing) = true ∧ rest.length ≥ maxFreeMaterialCacheEntries) ↔
      ¬ HasRoom cap maxFreeMaterialCacheEntries key charge rest := by
  have hbytes : saturatingAdd (bytes (erase key rest)) charge > cache.byteCap ↔
      ¬ bytes (erase key rest) + charge ≤ cap := by
    unfold saturatingAdd
    omega
  unfold HasRoom
  rw [hbytes, ← hreplacing]
  cases replacing with
  | true => simp
  | false => simp [imp_iff_not_or]

/-- **The plan** evicts the shortest prefix that makes room. -/
theorem plan (h : Represents cap cache l) (hcap : cap < u64Max) {replacing : Bool} :
    ∀ {rest : List (Item String β)}, rest <:+ l →
      (replacing = true ↔ ∃ it ∈ rest, it.key = key) →
      (makeRoom cap maxFreeMaterialCacheEntries key charge rest = none ∧
        cache.planEvictions key charge replacing (rest.map Item.key)
          (bytes (erase key rest)) rest.length = none) ∨
      ∃ dropped kept, rest = dropped ++ kept ∧
        makeRoom cap maxFreeMaterialCacheEntries key charge rest = some kept ∧
        cache.planEvictions key charge replacing (rest.map Item.key)
          (bytes (erase key rest)) rest.length = some (dropped.map Item.key)
  | [], _, hreplacing => by
      have htest := test_iff charge hcap h.byteCap hreplacing
      unfold makeRoom
      rw [List.map_nil]
      unfold planEvictions
      by_cases hroom : HasRoom cap maxFreeMaterialCacheEntries key charge
          ([] : List (Item String β))
      · rw [if_pos hroom, if_neg (fun hfull => htest.mp hfull hroom)]
        exact .inr ⟨[], [], rfl, rfl, rfl⟩
      · rw [if_neg hroom, if_pos (htest.mpr hroom)]
        exact .inl ⟨rfl, rfl⟩
  | it :: rest, hsuffix, hreplacing => by
      have htest := test_iff charge hcap h.byteCap hreplacing
      unfold makeRoom
      rw [List.map_cons]
      unfold planEvictions
      by_cases hroom : HasRoom cap maxFreeMaterialCacheEntries key charge (it :: rest)
      · rw [if_pos hroom, if_neg (fun hfull => htest.mp hfull hroom)]
        exact .inr ⟨[], it :: rest, rfl, rfl, rfl⟩
      rw [if_neg hroom, if_pos (htest.mpr hroom)]
      by_cases hkey : it.key = key
      · rw [if_pos hkey, if_pos ⟨hreplacing.mpr ⟨it, List.mem_cons_self, hkey⟩, hkey⟩]
        exact .inl ⟨rfl, rfl⟩
      have hmem : it ∈ l := hsuffix.subset List.mem_cons_self
      have hbytes : bytes (erase key (it :: rest)) - it.charge = bytes (erase key rest) := by
        unfold erase
        rw [List.filter_cons_of_pos (by simpa using hkey), bytes_cons]
        omega
      have hlater : replacing = true ↔ ∃ a ∈ rest, a.key = key := by
        rw [hreplacing]
        simp [hkey]
      rw [if_neg hkey, if_neg (fun hown => hkey hown.2), h.lookup_of_mem hmem]
      dsimp only
      rw [hbytes, List.length_cons, Nat.add_sub_cancel]
      rcases h.plan hcap ((List.suffix_cons it rest).trans hsuffix) hlater with
        ⟨hnone, hplan⟩ | ⟨dropped, kept, hrest, hsome, hplan⟩
      · exact .inl ⟨hnone, by rw [hplan]; rfl⟩
      · exact .inr ⟨it :: dropped, kept, by rw [hrest]; rfl, hsome, by rw [hplan]; rfl⟩

/-! ## Committing -/

theorem evictOldest {it : Item String β} (h : Represents cap cache (it :: l)) :
    ∃ next, cache.evictPlanned it.key = some next ∧ Represents cap next l := by
  have hlookup := h.lookup_of_mem List.mem_cons_self
  have hbytes := h.current
  rw [bytes_cons] at hbytes
  refine ⟨evictKey { cache with
    insertionOrder := l.map Item.key } it.key, ?_, ?_⟩
  · unfold evictPlanned
    rw [h.order, List.map_cons]
    exact if_pos rfl
  · unfold evictKey
    dsimp only
    rw [hlookup]
    exact {
      byteCap := h.byteCap
      order := rfl
      keyed := h.keyed.sublist (List.sublist_cons_self it l)
      lookup := by
        intro other
        have hnot : ∀ a ∈ l, a.key ≠ it.key :=
          Keyed.not_mem_right (show Keyed ([] ++ it :: l) from h.keyed)
        dsimp only
        by_cases hother : other = it.key
        · rw [hother, AList.lookup_erase, find_eq_none.mpr hnot]
          rfl
        · rw [AList.lookup_erase_ne hother, h.lookup other]
          unfold find
          rw [List.find?_cons_of_neg (by simpa using Ne.symm hother)]
      current := by
        dsimp only
        omega
      counted := by
        have := h.counted
        rw [List.length_cons] at this
        dsimp only
        omega
      fits := by
        have := h.fits
        rw [bytes_cons] at this
        omega
      limited := by
        have := h.limited
        rw [List.length_cons] at this
        omega }

theorem evictDropped : ∀ {dropped : List (Item String β)} {cache : FreeMaterialCache β},
    Represents cap cache (dropped ++ kept) →
      ∃ next, (dropped.map Item.key).foldlM evictPlanned cache = some next ∧
        Represents cap next kept
  | [], cache, h => ⟨cache, rfl, h⟩
  | it :: dropped, cache, h => by
      obtain ⟨first, hfirst, hrepresents⟩ := h.evictOldest
      obtain ⟨next, hnext, hkept⟩ := hrepresents.evictDropped
      refine ⟨next, ?_, hkept⟩
      rw [List.map_cons, List.foldlM_cons, hfirst]
      exact hnext

theorem store (h : Represents cap cache l) (hcap : cap < u64Max) {replacing : Bool}
    (hreplacing : replacing = true ↔ ∃ it ∈ l, it.key = key)
    (hroom : HasRoom cap maxFreeMaterialCacheEntries key charge l) :
    ∃ next, cache.store key value charge replacing = some next ∧
      Represents cap next (place ⟨key, value, charge⟩ l) := by
  let new : Item String β := ⟨key, value, charge⟩
  have hbytes : bytes (place new l) = bytes (erase key l) + charge := bytes_place h.keyed
  have hlookup : ∀ other, (cache.entries.insert key (value, charge)).lookup other =
      (find other (place new l)).map fun it => (it.value, it.charge) := by
    intro other
    rw [find_place h.keyed]
    by_cases hother : other = key
    · rw [if_pos hother, hother, AList.lookup_insert]
      rfl
    · rw [if_neg hother, AList.lookup_insert_ne hother, h.lookup]
  have hfits : bytes (place new l) ≤ cap := hbytes.symm ▸ hroom.1
  have hlimited : (place new l).length ≤ maxFreeMaterialCacheEntries :=
    length_place_le hroom.2 h.limited
  have horder := map_key_place new l
  cases replacing with
  | true =>
      have hpresent : ∃ it ∈ l, it.key = key := hreplacing.mp rfl
      obtain ⟨it, hit, hkey⟩ := hpresent
      have hstored := h.lookup_of_mem hit
      rw [hkey] at hstored
      have hstoredBytes : bytes (erase key l) + it.charge = bytes l :=
        hkey ▸ h.keyed.bytes_erase_add hit
      refine ⟨_, by
        unfold FreeMaterialCache.store
        rw [if_pos rfl, hstored]
        rfl, ?_⟩
      exact {
        byteCap := h.byteCap
        order := by
          rw [horder, if_pos ⟨it, hit, hkey⟩, List.append_nil]
          exact h.order
        keyed := keyed_place h.keyed
        lookup := hlookup
        current := by
          have hcurrent := h.current
          dsimp only
          rw [saturatingAdd_of_le (by omega), hbytes]
          omega
        counted := by
          have hlength := congrArg List.length horder
          rw [if_pos ⟨it, hit, hkey⟩, List.append_nil, List.length_map, List.length_map]
            at hlength
          exact h.counted.trans hlength.symm
        fits := hfits
        limited := hlimited }
  | false =>
      have habsent : ¬ ∃ it ∈ l, it.key = key := fun hpresent =>
        Bool.false_ne_true (hreplacing.mpr hpresent)
      have hself : erase key l = l :=
        erase_eq_self fun it hit hkey => habsent ⟨it, hit, hkey⟩
      have hlength := congrArg List.length horder
      rw [if_neg habsent, List.length_append, List.length_map, List.length_map,
        List.length_singleton] at hlength
      rw [hself] at hbytes
      refine ⟨_, rfl, ?_⟩
      exact {
        byteCap := h.byteCap
        order := by
          rw [horder, if_neg habsent, ← h.order]
        keyed := keyed_place h.keyed
        lookup := hlookup
        current := by
          have hcurrent := h.current
          dsimp only
          rw [saturatingAdd_of_le (by omega), hbytes, hcurrent]
        counted := by
          have hcounted := h.counted
          have hmax : maxFreeMaterialCacheEntries < u64Max := by decide
          dsimp only
          rw [saturatingAdd_of_le (by omega), hlength, hcounted]
        fits := hfits
        limited := hlimited }

/-! ## Setting -/

/-- **A set** never panics, and does to the list what its outcome says. -/
theorem set (h : Represents cap cache l) (hcap : cap < u64Max) (key : String) (value : β)
    (charge : ℕ) :
    ∃ next admitted kept, cache.set key value charge = some (next, admitted) ∧
      Represents cap next kept ∧ SetOutcome cache key value charge next admitted := by
  unfold FreeMaterialCache.set
  by_cases hover : charge > cache.byteCap
  · rw [if_pos hover]
    refine ⟨_, _, l, rfl, h.counting rfl rfl, .refused fun n _ hfits => ?_⟩
    have := hfits.1
    omega
  rw [if_neg hover]
  have hreplacing : decide (key ∈ cache.entries) = true ↔ ∃ it ∈ l, it.key = key := by
    rw [decide_eq_true_iff, h.mem_entries_iff]
  have hplanned : cache.telemetry.currentBytes -
      ((cache.entries.lookup key).map Prod.snd).getD 0 = bytes (erase key l) := by
    rw [h.current, h.lookup]
    cases hfound : find key l with
    | none => rw [erase_eq_self (find_eq_none.mp hfound)]; rfl
    | some it =>
        obtain ⟨hit, rfl⟩ := find_some hfound
        have := h.keyed.bytes_erase_add hit
        simp only [Option.map_some, Option.getD_some]
        omega
  dsimp only
  rw [hplanned, h.size_eq, h.order]
  have hown : ∀ n, (key ∉ cache.insertionOrder.take n) ↔
      ∀ it ∈ l.take n, it.key ≠ key := by
    intro n
    rw [h.order, ← List.map_take, List.mem_map]
    simp only [not_exists, not_and, ne_eq]
  rcases h.plan hcap List.suffix_rfl hreplacing with
    ⟨hnone, hplan⟩ | ⟨dropped, kept, hsplit, hsome, hplan⟩
  · rw [hplan]
    refine ⟨_, _, l, rfl, h.counting rfl rfl, .refused fun n hn hfits => ?_⟩
    exact makeRoom_eq_none hnone n ((hown n).mp hn) ((h.fitsAfter_iff hn).mp hfits)
  · rw [hplan]
    obtain ⟨n, rfl, hnotOwn, hroom, hleast⟩ := makeRoom_eq_some hsome
    obtain rfl : l.take n = dropped :=
      List.append_cancel_right ((List.take_append_drop n l).trans hsplit)
    obtain ⟨evicted, hevict, hevicted⟩ := (hsplit ▸ h).evictDropped
    have hkeptReplacing : decide (key ∈ cache.entries) = true ↔
        ∃ it ∈ l.drop n, it.key = key := by
      rw [hreplacing]
      constructor
      · rintro ⟨it, hit, hkey⟩
        rw [hsplit, List.mem_append] at hit
        exact ⟨it, hit.resolve_left fun htake => hnotOwn it htake hkey, hkey⟩
      · rintro ⟨it, hit, hkey⟩
        exact ⟨it, List.mem_of_mem_drop hit, hkey⟩
    obtain ⟨next, hstore, hnext⟩ :
        ∃ next, evicted.store key value charge _ = some next ∧
          Represents cap next (place ⟨key, value, charge⟩ (l.drop n)) :=
      hevicted.store hcap hkeptReplacing hroom
    refine ⟨next, true, _, ?_, hnext, ?_⟩
    · dsimp only
      rw [hevict, Option.bind_some, hstore, Option.map_some]
    · have hshorter : ∀ m < n, key ∉ cache.insertionOrder.take m := by
        intro m hm hmem
        exact (hown n).mpr hnotOwn ((List.take_subset_take_left _ hm.le) hmem)
      refine .admitted n next ((hown n).mpr hnotOwn)
        ((h.fitsAfter_iff ((hown n).mpr hnotOwn)).mpr hroom)
        (fun m hm hfits => hleast m hm ((h.fitsAfter_iff (hshorter m hm)).mp hfits)) ?_ ?_
      · rw [hnext.order, map_key_place, List.map_drop, ← h.order]
        congr 1
        exact if_congr (by rw [← hkeptReplacing, hreplacing, h.mem_order_iff]) rfl rfl
      · intro other
        rw [hnext.lookup, find_place hevicted.keyed]
        by_cases hother : other = key
        · rw [if_pos hother, if_pos hother]
          rfl
        · rw [if_neg hother, if_neg hother, find_drop h.keyed, h.order, ← List.map_take]
          split
          · rfl
          · exact (h.lookup other).symm

/-! ## Runs -/

theorem apply (h : Represents cap cache l) (hcap : cap < u64Max) (operation : Operation β) :
    ∃ next kept, cache.apply operation = some next ∧ Represents cap next kept ∧
      next.insertionOrder <:+ cache.insertionOrder ++ cache.insertedBy operation := by
  cases operation with
  | get key =>
      refine ⟨_, l, rfl, h.get key, ?_⟩
      rw [(h.get key).order, ← h.order]
      exact (List.append_nil _).symm ▸ List.suffix_rfl
  | clear => exact ⟨_, [], rfl, h.clearAndShrink, List.nil_suffix⟩
  | set key value charge =>
      obtain ⟨next, admitted, kept, hset, hnext, houtcome⟩ := h.set hcap key value charge
      refine ⟨next, kept, ?_, hnext, ?_⟩
      · unfold FreeMaterialCache.apply
        dsimp only
        rw [hset]
        rfl
      · unfold insertedBy
        dsimp only
        rw [hset]
        cases houtcome with
        | refused _ => exact (List.append_nil _).symm ▸ List.suffix_rfl
        | admitted n _ _ _ _ horder _ =>
            have hpresent : key ∈ cache.entries ↔ key ∈ cache.insertionOrder := by
              rw [h.mem_entries_iff, h.mem_order_iff]
            dsimp only
            rw [horder, if_congr hpresent rfl rfl]
            obtain ⟨front, hfront⟩ := List.drop_suffix n cache.insertionOrder
            exact ⟨front, by rw [← List.append_assoc, hfront]⟩

theorem run (hcap : cap < u64Max) : ∀ (operations : List (Operation β))
    {cache : FreeMaterialCache β} {l : List (Item String β)}, Represents cap cache l →
      ∃ final kept, cache.run operations = some final ∧ Represents cap final kept ∧
        final.insertionOrder <:+ cache.insertionOrder ++ cache.insertions operations
  | [], cache, l, h =>
      ⟨cache, l, rfl, h, (List.append_nil _).symm ▸ List.suffix_rfl⟩
  | operation :: operations, cache, l, h => by
      obtain ⟨next, kept, happly, hnext, hfirst⟩ := h.apply hcap operation
      obtain ⟨final, last, hrun, hfinal, hrest⟩ := hnext.run hcap operations
      refine ⟨final, last, ?_, hfinal, ?_⟩
      · unfold FreeMaterialCache.run
        rw [List.foldlM_cons, happly]
        exact hrun
      · unfold insertions
        rw [happly, ← List.append_assoc]
        obtain ⟨front, hfront⟩ := hfirst
        exact hrest.trans ⟨front, by rw [← List.append_assoc, hfront]⟩

end Represents

/-- **The free-material cache is an exact bounded first-in first-out list.**
After every run the map, the queue and the ledger agree and keep both limits,
the queue is a final stretch of the keys in the order of their insertions, and
a further set does what its outcome says.  No run panics. -/
theorem freeMaterialCache_exactFifo (hcap : cap < u64Max)
    (operations : List (Operation β)) :
    ∃ cache, (withByteCap β cap).run operations = some cache ∧
      Exact cap cache ∧
      cache.insertionOrder <:+ (withByteCap β cap).insertions operations ∧
      ∀ key value charge, ∃ next admitted,
        cache.set key value charge = some (next, admitted) ∧
          SetOutcome cache key value charge next admitted := by
  obtain ⟨cache, l, hrun, hcache, horder⟩ :=
    (represents_withByteCap (β := β) cap).run hcap operations
  refine ⟨cache, hrun, hcache.exact, horder, fun key value charge => ?_⟩
  obtain ⟨next, admitted, _, hset, _, houtcome⟩ := hcache.set hcap key value charge
  exact ⟨next, admitted, hset, houtcome⟩

/-- Two items fill the cap of eleven bytes and the third evicts the first. -/
theorem freeMaterialCache_exactFifo_evicting :
    ∃ cache, (withByteCap ℕ 11).run [.set "a" 1 5, .set "b" 2 5, .set "c" 3 4] = some cache ∧
      Exact 11 cache ∧
      cache.insertionOrder <:+
        (withByteCap ℕ 11).insertions [.set "a" 1 5, .set "b" 2 5, .set "c" 3 4] ∧
      ∀ key value charge, ∃ next admitted,
        cache.set key value charge = some (next, admitted) ∧
          SetOutcome cache key value charge next admitted :=
  freeMaterialCache_exactFifo (by decide) _

end PolygonNesting.Search.FreeMaterialCache
