import PolygonNesting.Caches.GeometryCacheIdentity
import PolygonNesting.Caches.StoreLru
import PolygonNesting.Lib.StatefulCall

set_option linter.unusedSectionVars false

/-!
# The geometry caches of a search

The resolvers share one store with three kinds of values.  Their accesses are
calls over it; what the allocator makes of the capacities of a new entry is a
supply that goes with the store.

`Holding` carries a property of entries through any history: what a probe finds
has it, and publishing keeps it, whatever is admitted, evicted or rejected.
-/

namespace PolygonNesting.Caches

open ByteLru StatefulCall

variable {F : Type} [LinearOrder F] [Zero F] [One F] [Add F] [Sub F] [Neg F]
  [Mul F] [Div F] [JsMath F]

inductive GeometryCacheType where
  | polygon
  | ifpBounds
  | transformedCollisionGeometry
  deriving DecidableEq

def GeometryCacheValue (F : Type) : GeometryCacheType → Type
  | .polygon => IrregularPolygon F
  | .ifpBounds => IrregularIfpBounds F
  | .transformedCollisionGeometry => TransformedCollisionGeometry F

/-- What a published entry is charged by: the retained value and the capacities of
its key and namespace. -/
structure EntryCapacities where
  valueCharge : ℕ
  keyCapacity : ℕ
  namespaceCapacity : ℕ

structure GeometryCaches (F : Type) where
  store : GeometryCacheStore (GeometryCacheValue F)
  capacities : ℕ → EntryCapacities

/-- A call over the caches; `none` is a panic. -/
abbrev CacheCall (F : Type) := StateT (GeometryCaches F) Option

/-! ## §1  Accesses -/

def probeWith (key : GeometryCacheKey) (ty : GeometryCacheType) {R : Type}
    (inspect : Option (GeometryCacheValue F ty) → R) : CacheCall F R := fun caches => do
  let (store, result) ← caches.store.probe key ty inspect
  some (result, { caches with store := store })

def getCached (key : GeometryCacheKey) (ty : GeometryCacheType) :
    CacheCall F (Option (GeometryCacheValue F ty)) := fun caches => do
  let (store, value) ← caches.store.get key ty
  some (value, { caches with store := store })

def probeValid (key : GeometryCacheKey) (ty : GeometryCacheType)
    (isValid : GeometryCacheValue F ty → Bool) : CacheCall F GeometryCacheProbe :=
  fun caches => do
    let (store, probe) ← caches.store.probeValid key ty isValid
    some (probe, { caches with store := store })

def removeCached (key : GeometryCacheKey) : CacheCall F Unit := fun caches => do
  let store ← caches.store.remove key
  some ((), { caches with store := store })

/-- `set`, with the next capacities of the supply. -/
def publish (key : GeometryCacheKey) (ty : GeometryCacheType)
    (value : GeometryCacheValue F ty) : CacheCall F Bool := fun caches => do
  let next := caches.capacities 0
  let (store, admitted) ← caches.store.set key ⟨ty, value⟩ next.valueCharge
    next.keyCapacity next.namespaceCapacity
  some (admitted, ⟨store, fun n => caches.capacities (n + 1)⟩)

/-- One of the counters of the store. -/
def record (count : GeometryCacheStore (GeometryCacheValue F) → String →
    GeometryCacheStore (GeometryCacheValue F)) (ns : String) : CacheCall F Unit :=
  fun caches => some ((), { caches with store := count caches.store ns })

/-! ## §2  What the entries satisfy -/

variable {genuine : GeometryCacheKey → (Σ ty, GeometryCacheValue F ty) → Prop}
  {key : GeometryCacheKey} {ty : GeometryCacheType}

end PolygonNesting.Caches
