import Mathlib.Data.List.AList
import PolygonNesting.Caches.Telemetry

/-!
# The free-material cache

A map from keys to charged values beside a queue of its keys, oldest first.
Hits never reorder the queue.  `set` plans the evictions over the queue it
has borrowed and commits them afterwards.  A method returns `none` where the
source would panic: at a failing `expect` and, as a debug build does, at a
failing `debug_assert_eq`.
-/

namespace PolygonNesting.Search

open PolygonNesting.Caches (saturatingAdd u64Max saturatingAdd_of_le)

structure FreeMaterialCacheTelemetry where
  capBytes : ℕ := 0
  currentBytes : ℕ := 0
  peakBytes : ℕ := 0
  entries : ℕ := 0
  admissions : ℕ := 0
  replacements : ℕ := 0
  evictions : ℕ := 0
  evictedBytes : ℕ := 0
  oversizedRejections : ℕ := 0
  hits : ℕ := 0
  misses : ℕ := 0
  deriving DecidableEq

/-- `entries` holds each value with its charge. -/
structure FreeMaterialCache (β : Type) where
  entries : AList fun _ : String => β × ℕ
  insertionOrder : List String
  byteCap : ℕ
  telemetry : FreeMaterialCacheTelemetry

namespace FreeMaterialCache

variable {β : Type}

def maxFreeMaterialCacheEntries : ℕ := 256
def freeMaterialCacheCapBytes : ℕ := 8 * 1024 * 1024

variable (β) in
def withByteCap (byteCap : ℕ) : FreeMaterialCache β where
  entries := ∅
  insertionOrder := []
  byteCap := byteCap
  telemetry := { capBytes := byteCap }

variable (β) in
def new : FreeMaterialCache β := withByteCap β freeMaterialCacheCapBytes

def size (cache : FreeMaterialCache β) : ℕ := cache.entries.keys.length

def get (cache : FreeMaterialCache β) (key : String) : FreeMaterialCache β × Option β :=
  match cache.entries.lookup key with
  | some (value, _) =>
      ({ cache with
        telemetry := { cache.telemetry with
          hits := saturatingAdd cache.telemetry.hits 1 } }, some value)
  | none =>
      ({ cache with
        telemetry := { cache.telemetry with
          misses := saturatingAdd cache.telemetry.misses 1 } }, none)

def recordRejection (cache : FreeMaterialCache β) : FreeMaterialCache β :=
  { cache with
    telemetry := { cache.telemetry with
      oversizedRejections := saturatingAdd cache.telemetry.oversizedRejections 1 } }

/-- The planning loop of `set` over the rest of the queue: the keys to evict,
`none` where the set is refused. -/
def planEvictions (cache : FreeMaterialCache β) (key : String) (charge : ℕ)
    (replacing : Bool) : List String → ℕ → ℕ → Option (List String)
  | [], plannedBytes, plannedEntries =>
      if saturatingAdd plannedBytes charge > cache.byteCap ∨
          (!replacing) = true ∧ plannedEntries ≥ maxFreeMaterialCacheEntries then
        none
      else some []
  | oldest :: ordered, plannedBytes, plannedEntries =>
      if saturatingAdd plannedBytes charge > cache.byteCap ∨
          (!replacing) = true ∧ plannedEntries ≥ maxFreeMaterialCacheEntries then
        if replacing = true ∧ oldest = key then none
        else
          match cache.entries.lookup oldest with
          | none => none
          | some (_, oldestCharge) =>
              (planEvictions cache key charge replacing ordered
                (plannedBytes - oldestCharge) (plannedEntries - 1)).map (oldest :: ·)
      else some []

def evictKey (cache : FreeMaterialCache β) (key : String) : FreeMaterialCache β :=
  match cache.entries.lookup key with
  | none => cache
  | some (_, charge) =>
      { cache with
        entries := cache.entries.erase key
        telemetry := { cache.telemetry with
          currentBytes := cache.telemetry.currentBytes - charge
          entries := cache.telemetry.entries - 1
          evictions := saturatingAdd cache.telemetry.evictions 1
          evictedBytes := saturatingAdd cache.telemetry.evictedBytes charge } }

/-- One turn of the committing loop. -/
def evictPlanned (cache : FreeMaterialCache β) (expectedOldest : String) :
    Option (FreeMaterialCache β) :=
  match cache.insertionOrder with
  | [] => none
  | actualOldest :: rest =>
      if actualOldest = expectedOldest then
        some (evictKey { cache with insertionOrder := rest } actualOldest)
      else none

/-- The end of `set`, after the evictions. -/
def store (cache : FreeMaterialCache β) (key : String) (value : β) (charge : ℕ)
    (replacing : Bool) : Option (FreeMaterialCache β) :=
  (if replacing then
    (cache.entries.lookup key).map fun stored =>
      { cache with
        entries := cache.entries.insert key (value, charge)
        telemetry := { cache.telemetry with
          currentBytes :=
            saturatingAdd (cache.telemetry.currentBytes - stored.2) charge
          replacements := saturatingAdd cache.telemetry.replacements 1 } }
  else
    some { cache with
      entries := cache.entries.insert key (value, charge)
      insertionOrder := cache.insertionOrder ++ [key]
      telemetry := { cache.telemetry with
        currentBytes := saturatingAdd cache.telemetry.currentBytes charge
        entries := saturatingAdd cache.telemetry.entries 1 } }).map fun cache =>
  { cache with
    telemetry := { cache.telemetry with
      peakBytes := max cache.telemetry.peakBytes cache.telemetry.currentBytes
      admissions := saturatingAdd cache.telemetry.admissions 1 } }

/-- `charge` is what `free_material_entry_charge` reads off the capacities of
the key and the value. -/
def set (cache : FreeMaterialCache β) (key : String) (value : β) (charge : ℕ) :
    Option (FreeMaterialCache β × Bool) :=
  if charge > cache.byteCap then some (cache.recordRejection, false)
  else
    let replacing := decide (key ∈ cache.entries)
    let oldCharge := ((cache.entries.lookup key).map Prod.snd).getD 0
    match cache.planEvictions key charge replacing cache.insertionOrder
        (cache.telemetry.currentBytes - oldCharge) cache.size with
    | none => some (cache.recordRejection, false)
    | some plannedEvictions =>
        (plannedEvictions.foldlM evictPlanned cache).bind fun cache =>
          (cache.store key value charge replacing).map fun cache => (cache, true)

def clearAndShrink (cache : FreeMaterialCache β) : FreeMaterialCache β :=
  { cache with
    entries := ∅
    insertionOrder := []
    telemetry := { cache.telemetry with
      currentBytes := 0
      entries := 0 } }

/-! ## Runs -/

variable (β) in
inductive Operation where
  | get (key : String)
  | set (key : String) (value : β) (charge : ℕ)
  | clear

def apply (cache : FreeMaterialCache β) : Operation β → Option (FreeMaterialCache β)
  | .get key => some (cache.get key).1
  | .set key value charge => (cache.set key value charge).map Prod.fst
  | .clear => some cache.clearAndShrink

/-- A run of operations: `none` once one panics. -/
def run (cache : FreeMaterialCache β) (operations : List (Operation β)) :
    Option (FreeMaterialCache β) :=
  operations.foldlM apply cache

/-- The key an operation inserts: that of an admitted set of an absent key. -/
def insertedBy (cache : FreeMaterialCache β) : Operation β → List String
  | .set key value charge =>
      match cache.set key value charge with
      | some (_, true) => if key ∈ cache.entries then [] else [key]
      | _ => []
  | _ => []

/-- The keys a run inserts, in the order of their insertions. -/
def insertions : FreeMaterialCache β → List (Operation β) → List String
  | _, [] => []
  | cache, operation :: operations =>
      cache.insertedBy operation ++
        match cache.apply operation with
        | none => []
        | some next => insertions next operations

end FreeMaterialCache

end PolygonNesting.Search
