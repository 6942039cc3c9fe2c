import Mathlib.Data.List.AList
import PolygonNesting.Caches.Key
import PolygonNesting.Caches.Recency
import PolygonNesting.Caches.Telemetry

/-!
# The geometry cache store

One map from serialized keys to entries, one recency list and one telemetry
record.  Values are type-erased: `V ty` are the values of type `ty`, an entry
holds a value of some type, and a lookup at another type is a miss.

A method returns `none` where the source would panic: at a failing `expect`,
at an index out of range, and (for the two loops, which run on fuel) where the
loop would not end.
-/

namespace PolygonNesting.Caches

variable {Ty : Type} (V : Ty → Type)

structure GeometryCacheEntry where
  value : Σ ty, V ty
  chargeBytes : ℕ
  entryNamespace : String
  recencyNode : ℕ

structure GeometryCacheStore where
  entries : AList fun _ : String => GeometryCacheEntry V
  recency : RecencyList
  byteCap : ℕ
  telemetry : CacheTelemetrySnapshot

/-- Outcome of a validity probe. -/
inductive GeometryCacheProbe where
  | hotValid
  | cold
  | staleRemoved
  deriving DecidableEq

/-! ## §1  Charges -/

def hashmapEntryOverheadBytes : ℕ := 64
def sizeOfGeometryCacheEntry : ℕ := 56
def sizeOfRecencyNode : ℕ := 56

/-- The charge of an entry: the caller's charge for the value, twice the
capacity of the serialized key, the capacity of the namespace and three fixed
overheads; `u64::MAX` on overflow. -/
def conservativeEntryCharge
    (keyCapacity namespaceCapacity retainedValueCharge : ℕ) : ℕ :=
  let keyCapacity := min keyCapacity u64Max
  let namespaceCapacity := min namespaceCapacity u64Max
  ((checkedAdd retainedValueCharge keyCapacity).bind fun charge =>
    (checkedAdd charge keyCapacity).bind fun charge =>
    (checkedAdd charge namespaceCapacity).bind fun charge =>
    (checkedAdd charge hashmapEntryOverheadBytes).bind fun charge =>
    (checkedAdd charge sizeOfGeometryCacheEntry).bind fun charge =>
    checkedAdd charge sizeOfRecencyNode).getD u64Max

theorem conservativeEntryCharge_pos (keyCapacity namespaceCapacity v : ℕ) :
    0 < conservativeEntryCharge keyCapacity namespaceCapacity v := by
  unfold conservativeEntryCharge
  simp only
  cases h : (checkedAdd v (min keyCapacity u64Max)).bind fun charge =>
      (checkedAdd charge (min keyCapacity u64Max)).bind fun charge =>
      (checkedAdd charge (min namespaceCapacity u64Max)).bind fun charge =>
      (checkedAdd charge hashmapEntryOverheadBytes).bind fun charge =>
      (checkedAdd charge sizeOfGeometryCacheEntry).bind fun charge =>
      checkedAdd charge sizeOfRecencyNode with
  | none => decide
  | some charge =>
      simp only [Option.bind_eq_some_iff, checkedAdd, Option.ite_none_right_eq_some,
        Option.some.injEq] at h
      obtain ⟨_, -, _, -, _, -, _, -, _, -, -, rfl⟩ := h
      simp [sizeOfRecencyNode]

variable {V}

/-- `downcast_ref` to the values of type `ty`. -/
def downcastRef [DecidableEq Ty] (ty : Ty) (value : Σ ty, V ty) : Option (V ty) :=
  if h : value.1 = ty then some (h ▸ value.2) else none

namespace GeometryCacheStore

variable (V) in
def withByteCap (byteCap : ℕ) : GeometryCacheStore V where
  entries := ∅
  recency := .empty
  byteCap := byteCap
  telemetry := { cacheInstances := 1, capBytes := byteCap }

def geometryCacheDefaultCapBytes : ℕ := 56 * 1024 * 1024

variable (V) in
def new : GeometryCacheStore V := withByteCap V geometryCacheDefaultCapBytes

/-! ## §2  Ledgers -/

def countIn (s : GeometryCacheStore V) (ns : String)
    (f : CacheNamespaceTelemetry → CacheNamespaceTelemetry) :
    GeometryCacheStore V :=
  { s with telemetry := s.telemetry.namespaceMut ns f }

def recordHit (s : GeometryCacheStore V) (ns : String) : GeometryCacheStore V :=
  s.countIn ns fun c => { c with
    hits := saturatingAdd c.hits 1
    backingCacheHits := saturatingAdd c.backingCacheHits 1 }

def recordStaleDetection (s : GeometryCacheStore V) (ns : String) :
    GeometryCacheStore V :=
  s.countIn ns fun c => { c with
    staleDetections := saturatingAdd c.staleDetections 1 }

def recordCloningHit (s : GeometryCacheStore V) (ns : String) :
    GeometryCacheStore V :=
  s.countIn ns fun c => { c with cloningHits := saturatingAdd c.cloningHits 1 }

def recordOversizedRejection (s : GeometryCacheStore V) (ns : String) :
    GeometryCacheStore V :=
  let s := s.countIn ns fun c => { c with
    capBytes := s.byteCap
    oversizedRejections := saturatingAdd c.oversizedRejections 1 }
  { s with telemetry := { s.telemetry with
      oversizedRejections :=
        saturatingAdd s.telemetry.oversizedRejections 1 } }

def addCurrent (s : GeometryCacheStore V) (ns : String) (chargeBytes : ℕ) :
    GeometryCacheStore V :=
  let current := saturatingAdd s.telemetry.currentBytes chargeBytes
  { s with telemetry := { s.telemetry with
      currentBytes := current
      peakBytes := max s.telemetry.peakBytes current } }
  |>.countIn ns fun c =>
    let approx := saturatingAdd c.approxBytes chargeBytes
    { c with
      capBytes := s.byteCap
      approxBytes := approx
      peakBytes := max c.peakBytes approx }

def subtractCurrent (s : GeometryCacheStore V) (ns : String) (chargeBytes : ℕ)
    (evicted : Bool) : GeometryCacheStore V :=
  let s := { s with telemetry := { s.telemetry with
    currentBytes := s.telemetry.currentBytes - chargeBytes } }
  let s := s.countIn ns fun c => { c with
    approxBytes := c.approxBytes - chargeBytes }
  if evicted then
    let s := s.countIn ns fun c => { c with
      entries := c.entries - 1
      evictions := saturatingAdd c.evictions 1
      evictedBytes := saturatingAdd c.evictedBytes chargeBytes }
    { s with telemetry := { s.telemetry with
      evictions := saturatingAdd s.telemetry.evictions 1
      evictedBytes := saturatingAdd s.telemetry.evictedBytes chargeBytes } }
  else s

/-- What a ledger update does to the bytes and entries of any namespace. -/
theorem ofNamespace_addCurrent (s : GeometryCacheStore V) (ns ns' : String)
    (chargeBytes : ℕ) :
    ((s.addCurrent ns chargeBytes).telemetry.ofNamespace ns').entries =
        (s.telemetry.ofNamespace ns').entries ∧
      ((s.addCurrent ns chargeBytes).telemetry.ofNamespace ns').approxBytes =
        if ns' = ns then
          saturatingAdd (s.telemetry.ofNamespace ns').approxBytes chargeBytes
        else (s.telemetry.ofNamespace ns').approxBytes := by
  simp only [addCurrent, countIn,
    CacheTelemetrySnapshot.ofNamespace_namespaceMut]
  split <;> exact ⟨rfl, rfl⟩

theorem ofNamespace_subtractCurrent (s : GeometryCacheStore V) (ns ns' : String)
    (chargeBytes : ℕ) :
    ((s.subtractCurrent ns chargeBytes false).telemetry.ofNamespace ns').entries =
        (s.telemetry.ofNamespace ns').entries ∧
      ((s.subtractCurrent ns chargeBytes false).telemetry.ofNamespace
          ns').approxBytes =
        if ns' = ns then
          (s.telemetry.ofNamespace ns').approxBytes - chargeBytes
        else (s.telemetry.ofNamespace ns').approxBytes := by
  simp only [subtractCurrent, countIn, Bool.false_eq_true, if_false,
    CacheTelemetrySnapshot.ofNamespace_namespaceMut]
  split <;> exact ⟨rfl, rfl⟩

/-! ## §3  Compaction -/

/-- Renumber the entries by the position of their key. -/
def renumber : GeometryCacheStore V → ℕ → List String →
    Option (GeometryCacheStore V)
  | s, _, [] => some s
  | s, index, key :: keys => do
      let entry ← s.entries.lookup key
      let s := { s with entries :=
        s.entries.insert key { entry with recencyNode := index } }
      s.renumber (index + 1) keys

def compactRetainedStorage (s : GeometryCacheStore V) :
    Option (GeometryCacheStore V) := do
  let orderedKeys ← s.recency.orderedKeys s.recency.nodes.length s.recency.head
  let s ← s.renumber 0 orderedKeys
  some { s with recency := .compacted orderedKeys }

/-! ## §4  Operations -/

def removeRecencyNode (s : GeometryCacheStore V) (i : ℕ) :
    Option (GeometryCacheStore V) := do
  let recency ← s.recency.removeRecencyNode i
  some { s with recency := recency }

def touch (s : GeometryCacheStore V) (serialized : String) :
    Option (GeometryCacheStore V) :=
  match s.entries.lookup serialized with
  | none => some s
  | some entry => do
      let recency ← s.recency.touchNode entry.recencyNode
      some { s with recency := recency }

/-- The eviction loop of `set`, with the flag that something was evicted. -/
def evictUntilFits (entryCharge : ℕ) :
    ℕ → GeometryCacheStore V → Bool → Option (GeometryCacheStore V × Bool)
  | fuel, s, evictedAny =>
    if saturatingAdd s.telemetry.currentBytes entryCharge ≤ s.byteCap then
      some (s, evictedAny)
    else match s.recency.head, fuel with
    | none, _ => some (s, evictedAny)
    | some _, 0 => none
    | some oldest, fuel + 1 => do
        let node ← s.recency.node oldest
        let s ← s.removeRecencyNode oldest
        match s.entries.lookup node.key with
        | none => evictUntilFits entryCharge fuel s evictedAny
        | some evicted =>
            let s := { s with entries := s.entries.erase node.key }
            let s := s.subtractCurrent evicted.entryNamespace
              evicted.chargeBytes true
            evictUntilFits entryCharge fuel s true

/-- Take the previous entry of the key out of the map, the list and the
ledgers. -/
def removePrevious (s : GeometryCacheStore V) (serialized : String) :
    Option (GeometryCacheStore V) :=
  match s.entries.lookup serialized with
  | none => some s
  | some previous => do
      let s := { s with entries := s.entries.erase serialized }
      let s ← s.removeRecencyNode previous.recencyNode
      some (s.subtractCurrent previous.entryNamespace previous.chargeBytes false)

/-- The counters of an admitted entry. -/
def countAdmission (s : GeometryCacheStore V) (ns : String) (replacing : Bool) :
    GeometryCacheStore V :=
  let s := s.countIn ns fun c => { c with
    stores := saturatingAdd c.stores 1
    replacements := if replacing then saturatingAdd c.replacements 1
      else c.replacements
    entries := if replacing then c.entries else saturatingAdd c.entries 1
    admissions := saturatingAdd c.admissions 1 }
  { s with telemetry := { s.telemetry with
    replacements := if replacing then saturatingAdd s.telemetry.replacements 1
      else s.telemetry.replacements
    admissions := saturatingAdd s.telemetry.admissions 1 } }

/-- Insert the new entry at the recent end and book it. -/
def admitEntry (s : GeometryCacheStore V) (key : GeometryCacheKey)
    (value : Σ ty, V ty) (entryCharge : ℕ) (replacing : Bool) :
    Option (GeometryCacheStore V) := do
  let serialized := serializeGeometryCacheKey key
  let (recency, recencyNode) ← s.recency.insertRecencyNode serialized
  let s := { s with
    recency := recency
    entries := s.entries.insert serialized
      ⟨value, entryCharge, key.keyNamespace, recencyNode⟩ }
  some ((s.addCurrent key.keyNamespace entryCharge).countAdmission
    key.keyNamespace replacing)

/-- `set`.  The capacities of the serialized key and of the namespace string
are whatever the allocator made them. -/
def set (s : GeometryCacheStore V) (key : GeometryCacheKey) (value : Σ ty, V ty)
    (valueCharge keyCapacity namespaceCapacity : ℕ) :
    Option (GeometryCacheStore V × Bool) :=
  let serialized := serializeGeometryCacheKey key
  let entryCharge :=
    conservativeEntryCharge keyCapacity namespaceCapacity valueCharge
  if s.byteCap < entryCharge then
    some (s.recordOversizedRejection key.keyNamespace, false)
  else do
    let replacing := (s.entries.lookup serialized).isSome
    let s ← s.removePrevious serialized
    let (s, evictedAny) ←
      evictUntilFits entryCharge s.recency.nodes.length s false
    let s ← s.admitEntry key value entryCharge replacing
    let s ← if evictedAny then s.compactRetainedStorage else some s
    some (s, true)

def remove (s : GeometryCacheStore V) (key : GeometryCacheKey) :
    Option (GeometryCacheStore V) :=
  let serialized := serializeGeometryCacheKey key
  let removed := s.entries.lookup serialized
  let s := { s with entries := s.entries.erase serialized }
  let s := s.countIn key.keyNamespace fun c => { c with
    staleRemovals := saturatingAdd c.staleRemovals 1 }
  match removed with
  | none => some s
  | some removed => do
      let s ← s.removeRecencyNode removed.recencyNode
      let s := s.subtractCurrent removed.entryNamespace removed.chargeBytes false
      let s := s.countIn removed.entryNamespace fun c => { c with
        entries := c.entries - 1 }
      s.compactRetainedStorage

section Typed

variable [DecidableEq Ty]

def probe (s : GeometryCacheStore V) (key : GeometryCacheKey) (ty : Ty)
    {R : Type} (inspect : Option (V ty) → R) :
    Option (GeometryCacheStore V × R) :=
  let serialized := serializeGeometryCacheKey key
  let present := (s.entries.lookup serialized).bind fun entry =>
    downcastRef ty entry.value
  let result := inspect present
  let s := s.countIn key.keyNamespace fun c => { c with
    lookups := saturatingAdd c.lookups 1 }
  if present.isSome then do
    let s ← s.touch serialized
    some (s, result)
  else
    some (s.countIn key.keyNamespace fun c => { c with
      misses := saturatingAdd c.misses 1 }, result)

def probeValid (s : GeometryCacheStore V) (key : GeometryCacheKey) (ty : Ty)
    (isValid : V ty → Bool) :
    Option (GeometryCacheStore V × GeometryCacheProbe) := do
  let (s, valid) ← s.probe key ty fun value => value.map isValid
  match valid with
  | some true => some (s, .hotValid)
  | some false =>
      let s := s.recordStaleDetection key.keyNamespace
      let s ← s.remove key
      some (s, .staleRemoved)
  | none => some (s, .cold)

def get (s : GeometryCacheStore V) (key : GeometryCacheKey) (ty : Ty) :
    Option (GeometryCacheStore V × Option (V ty)) := do
  let (s, value) ← s.probe key ty id
  if value.isSome then some (s.recordCloningHit key.keyNamespace, value)
  else some (s, value)

end Typed

/-- `clear` and `clear_and_shrink`. -/
def clear (s : GeometryCacheStore V) : GeometryCacheStore V :=
  { s with
    entries := ∅
    recency := .empty
    telemetry := { s.telemetry with
      currentBytes := 0
      namespaces := fun ns => (s.telemetry.namespaces ns).map fun c =>
        { c with entries := 0, approxBytes := 0 } } }

end GeometryCacheStore

/-! ## §5  Runs -/

/-- The operations of the store. -/
inductive CacheOp (V : Ty → Type) where
  | set (key : GeometryCacheKey) (value : Σ ty, V ty)
      (valueCharge keyCapacity namespaceCapacity : ℕ)
  | get (key : GeometryCacheKey) (ty : Ty)
  | probeWith (key : GeometryCacheKey) (ty : Ty)
  | probeValid (key : GeometryCacheKey) (ty : Ty) (isValid : V ty → Bool)
  | remove (key : GeometryCacheKey)
  | clear
  | compact
  | recordHit (ns : String)
  | recordStaleDetection (ns : String)
  | recordCloningHit (ns : String)

/-- What an operation returns to its caller; `probeWith` hands the value it
found to the caller's closure. -/
inductive CacheReply (V : Ty → Type) where
  | admitted (admitted : Bool)
  | found (value : Option (Σ ty, V ty))
  | probed (probe : GeometryCacheProbe)
  | done

variable [DecidableEq Ty]

def CacheOp.apply (s : GeometryCacheStore V) :
    CacheOp V → Option (GeometryCacheStore V × CacheReply V)
  | .set key value valueCharge keyCapacity namespaceCapacity => do
      let (s, b) ← s.set key value valueCharge keyCapacity namespaceCapacity
      some (s, .admitted b)
  | .get key ty => do
      let (s, v) ← s.get key ty
      some (s, .found (v.map fun v => ⟨ty, v⟩))
  | .probeWith key ty => do
      let (s, v) ← s.probe key ty id
      some (s, .found (v.map fun v => ⟨ty, v⟩))
  | .probeValid key ty isValid => do
      let (s, p) ← s.probeValid key ty isValid
      some (s, .probed p)
  | .remove key => do
      let s ← s.remove key
      some (s, .done)
  | .clear => some (s.clear, .done)
  | .compact => do
      let s ← s.compactRetainedStorage
      some (s, .done)
  | .recordHit ns => some (s.recordHit ns, .done)
  | .recordStaleDetection ns => some (s.recordStaleDetection ns, .done)
  | .recordCloningHit ns => some (s.recordCloningHit ns, .done)

/-- A sequence of operations, with the replies in order. -/
def GeometryCacheStore.run (s : GeometryCacheStore V) :
    List (CacheOp V) → Option (GeometryCacheStore V × List (CacheReply V))
  | [] => some (s, [])
  | op :: ops => do
      let (s, reply) ← op.apply s
      let (s, replies) ← s.run ops
      some (s, reply :: replies)

end PolygonNesting.Caches
