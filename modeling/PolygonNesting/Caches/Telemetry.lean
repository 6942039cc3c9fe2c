import Mathlib.Algebra.GroupWithZero.Nat
import Mathlib.Logic.Function.Basic
import Mathlib.Order.Nat

/-!
# Cache telemetry

The counters the geometry cache keeps about itself.  All are `u64` counters
with saturating arithmetic, so that a full counter sticks.  The per-namespace
map creates a zeroed record on first access; the reserved counters that no
method ever writes are left out.
-/

namespace PolygonNesting.Caches

abbrev u64Max : ℕ := 2 ^ 64 - 1

def saturatingAdd (a b : ℕ) : ℕ := min (a + b) u64Max

def checkedAdd (a b : ℕ) : Option ℕ :=
  if a + b ≤ u64Max then some (a + b) else none

theorem saturatingAdd_of_le {a b : ℕ} (h : a + b ≤ u64Max) :
    saturatingAdd a b = a + b := min_eq_left h

structure CacheNamespaceTelemetry where
  lookups : ℕ := 0
  hits : ℕ := 0
  misses : ℕ := 0
  stores : ℕ := 0
  staleDetections : ℕ := 0
  staleRemovals : ℕ := 0
  backingCacheHits : ℕ := 0
  cloningHits : ℕ := 0
  capBytes : ℕ := 0
  admissions : ℕ := 0
  replacements : ℕ := 0
  evictions : ℕ := 0
  evictedBytes : ℕ := 0
  oversizedRejections : ℕ := 0
  entries : ℕ := 0
  approxBytes : ℕ := 0
  peakBytes : ℕ := 0

/-- `namespaces` is the map of the source: `none` before the first access. -/
structure CacheTelemetrySnapshot where
  namespaces : String → Option CacheNamespaceTelemetry := fun _ => none
  capBytes : ℕ := 0
  currentBytes : ℕ := 0
  peakBytes : ℕ := 0
  admissions : ℕ := 0
  replacements : ℕ := 0
  evictions : ℕ := 0
  evictedBytes : ℕ := 0
  oversizedRejections : ℕ := 0
  cacheInstances : ℕ := 0

namespace CacheTelemetrySnapshot

/-- `namespace_mut`, applied to an update of the counters. -/
def namespaceMut (t : CacheTelemetrySnapshot) (ns : String)
    (f : CacheNamespaceTelemetry → CacheNamespaceTelemetry) :
    CacheTelemetrySnapshot :=
  { t with namespaces :=
      Function.update t.namespaces ns (some (f ((t.namespaces ns).getD {}))) }

/-- The read-only accessor: zeroed counters for an untouched namespace. -/
def ofNamespace (t : CacheTelemetrySnapshot) (ns : String) :
    CacheNamespaceTelemetry :=
  (t.namespaces ns).getD {}

theorem ofNamespace_namespaceMut (t : CacheTelemetrySnapshot) (ns ns' : String)
    (f : CacheNamespaceTelemetry → CacheNamespaceTelemetry) :
    (t.namespaceMut ns f).ofNamespace ns' =
      if ns' = ns then f (t.ofNamespace ns') else t.ofNamespace ns' := by
  unfold namespaceMut ofNamespace
  split
  · next h => simp [h]
  · next h => simp [Function.update_of_ne h]

@[simp] theorem currentBytes_namespaceMut (t : CacheTelemetrySnapshot)
    (ns : String) (f : CacheNamespaceTelemetry → CacheNamespaceTelemetry) :
    (t.namespaceMut ns f).currentBytes = t.currentBytes := rfl

end CacheTelemetrySnapshot

end PolygonNesting.Caches
