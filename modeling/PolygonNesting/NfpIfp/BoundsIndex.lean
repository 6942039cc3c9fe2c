import PolygonNesting.Geometry.Convex
import PolygonNesting.Lib.Comparator
import PolygonNesting.Lib.PartitionPoint

/-!
# The bounds index

Bounds sorted by their left edge, with the running maximum of their right edges.  A query scans
the entries between two binary searches, one on the running maximum and one on the left edges,
and keeps those that are not disjoint from the query.
-/

namespace PolygonNesting.NfpIfp

variable {T F : Type} [LinearOrder F]

structure BoundsIndexEntry (T F : Type) where
  value : T
  bounds : IrregularBounds F

structure SortedBoundsIndexEntry (T F : Type) where
  value : T
  bounds : IrregularBounds F
  sourceIndex : ℕ

structure BoundsIndex (T F : Type) where
  entries : List (SortedBoundsIndexEntry T F)
  prefixMaxX : List F

/-- By the left, right, lower and upper edge, then by the index in the source. -/
def compareBoundsIndexEntries (first second : SortedBoundsIndexEntry T F) : Ordering :=
  (compare first.bounds.minX second.bounds.minX).then <|
    (compare first.bounds.maxX second.bounds.maxX).then <|
      (compare first.bounds.minY second.bounds.minY).then <|
        (compare first.bounds.maxY second.bounds.maxY).then
          (compare first.sourceIndex second.sourceIndex)

/-- The larger one; nothing stands for minus infinity. -/
def maxWith : Option F → F → F
  | none, maxX => maxX
  | some currentMaxX, maxX => max currentMaxX maxX

/-- The running maxima. -/
def runningMax : Option F → List F → List F
  | _, [] => []
  | currentMaxX, maxX :: rest =>
      maxWith currentMaxX maxX :: runningMax (some (maxWith currentMaxX maxX)) rest

namespace BoundsIndex

def sortedEntry (entry : BoundsIndexEntry T F × ℕ) : SortedBoundsIndexEntry T F :=
  ⟨entry.1.value, entry.1.bounds, entry.2⟩

/-- The index of entries whose source indices begin at an offset. -/
def newFrom (offset : ℕ) (entries : List (BoundsIndexEntry T F)) : BoundsIndex T F :=
  let sorted := ((entries.zipIdx offset).map sortedEntry).mergeSort fun first second =>
    compareBoundsIndexEntries first second != .gt
  { entries := sorted
    prefixMaxX := runningMax none (sorted.map fun entry => entry.bounds.maxX) }

def new (entries : List (BoundsIndexEntry T F)) : BoundsIndex T F := newFrom 0 entries

def lowerBoundAtLeast (values : List F) (target : F) : ℕ :=
  partitionPoint (fun middle => values[middle]?.any fun value => value < target) 0 values.length

def upperBoundMinX (entries : List (SortedBoundsIndexEntry T F)) (target : F) : ℕ :=
  partitionPoint (fun middle => entries[middle]?.any fun entry => entry.bounds.minX ≤ target) 0
    entries.length

/-- `&entries[first_index..end_index]`: `none` where the source panics. -/
def slice (entries : List (SortedBoundsIndexEntry T F)) (firstIndex endIndex : ℕ) :
    Option (List (SortedBoundsIndexEntry T F)) :=
  if firstIndex ≤ endIndex ∧ endIndex ≤ entries.length then
    some ((entries.take endIndex).drop firstIndex)
  else none

/-- The entries a query scans. -/
def scanned (index : BoundsIndex T F) (bounds : IrregularBounds F) :
    Option (List (SortedBoundsIndexEntry T F)) :=
  slice index.entries (lowerBoundAtLeast index.prefixMaxX bounds.minX)
    (upperBoundMinX index.entries bounds.maxX)

def query (index : BoundsIndex T F) (bounds : IrregularBounds F) : Option (List T) :=
  (index.scanned bounds).map fun entries =>
    (entries.filter fun entry => !areDisjoint entry.bounds bounds).map
      SortedBoundsIndexEntry.value

def anyMatch (index : BoundsIndex T F) (bounds : IrregularBounds F) (predicate : T → Bool) :
    Option Bool :=
  (index.scanned bounds).map fun entries =>
    entries.any fun entry => !areDisjoint entry.bounds bounds && predicate entry.value

end BoundsIndex

/-! ## §1  The order of the index -/

theorem transCmp_compareBoundsIndexEntries :
    Std.TransCmp (compareBoundsIndexEntries (T := T) (F := F)) := by
  unfold compareBoundsIndexEntries
  refine Comparator.transCmp_then (Comparator.transCmp_comap compare
    fun entry : SortedBoundsIndexEntry T F => entry.bounds.minX) ?_
  refine Comparator.transCmp_then (Comparator.transCmp_comap compare
    fun entry : SortedBoundsIndexEntry T F => entry.bounds.maxX) ?_
  refine Comparator.transCmp_then (Comparator.transCmp_comap compare
    fun entry : SortedBoundsIndexEntry T F => entry.bounds.minY) ?_
  exact Comparator.transCmp_then (Comparator.transCmp_comap compare
      fun entry : SortedBoundsIndexEntry T F => entry.bounds.maxY)
    (Comparator.transCmp_comap compare SortedBoundsIndexEntry.sourceIndex)

theorem minX_le_of_isLE {first second : SortedBoundsIndexEntry T F}
    (h : (compareBoundsIndexEntries first second).isLE = true) :
    first.bounds.minX ≤ second.bounds.minX := by
  rw [← not_lt]
  intro hlt
  rw [compareBoundsIndexEntries, compare_gt_iff_gt.2 hlt] at h
  cases h

theorem length_runningMax (values : List F) : ∀ current : Option F,
    (runningMax current values).length = values.length := by
  induction values with
  | nil => exact fun _ => rfl
  | cons value rest ih => exact fun _ => congrArg (· + 1) (ih _)

theorem maxWith_spec (current : Option F) (value : F) :
    value ≤ maxWith current value ∧ (∀ before ∈ current, before ≤ maxWith current value) ∧
      (maxWith current value ∈ current ∨ maxWith current value = value) := by
  cases current with
  | none => exact ⟨le_rfl, by simp, .inr rfl⟩
  | some before =>
      refine ⟨le_max_right _ _, by simp [maxWith], ?_⟩
      rcases max_choice before value with h | h
      · exact .inl (by rw [maxWith, h]; rfl)
      · exact .inr h

/-- A running maximum is over the values so far, and one of them. -/
theorem runningMax_spec (values : List F) : ∀ {current : Option F} {j : ℕ} {m : F},
    (runningMax current values)[j]? = some m →
      (∀ before ∈ current, before ≤ m) ∧ (∀ i ≤ j, ∀ value ∈ values[i]?, value ≤ m) ∧
        (m ∈ current ∨ ∃ i ≤ j, m ∈ values[i]?) := by
  induction values with
  | nil =>
      intro current j m h
      cases h
  | cons value rest ih =>
      intro current j m h
      obtain ⟨hvalue, hcurrent, hone⟩ := maxWith_spec current value
      rw [runningMax] at h
      cases j with
      | zero =>
          obtain rfl := Option.some.inj h
          refine ⟨hcurrent, fun i hi other hother => ?_, hone.imp_right fun h => ⟨0, le_rfl, ?_⟩⟩
          · obtain rfl := Nat.le_zero.1 hi
            obtain rfl := Option.some.inj hother
            exact hvalue
          · exact congrArg some h.symm
      | succ j =>
          obtain ⟨hmax, hvalues, hwhere⟩ := ih h
          have hmax := hmax _ rfl
          refine ⟨fun before hbefore => (hcurrent before hbefore).trans hmax,
            fun i hi other hother => ?_, ?_⟩
          · cases i with
            | zero =>
                obtain rfl := Option.some.inj hother
                exact hvalue.trans hmax
            | succ i => exact hvalues i (Nat.le_of_succ_le_succ hi) other hother
          · rcases hwhere with hwhere | ⟨i, hi, hwhere⟩
            · obtain rfl := Option.some.inj hwhere
              exact hone.imp_right fun h => ⟨0, Nat.zero_le _, congrArg some h.symm⟩
            · exact .inr ⟨i + 1, Nat.succ_le_succ hi, hwhere⟩

/-! ## §2  The scanned range -/

/-- Bounds with their edges in order. -/
structure ValidBounds (bounds : IrregularBounds F) : Prop where
  x : bounds.minX ≤ bounds.maxX
  y : bounds.minY ≤ bounds.maxY

namespace BoundsIndex

/-- The index is over valid bounds in order, with their running maxima. -/
structure Sorted (index : BoundsIndex T F) : Prop where
  valid : ∀ entry ∈ index.entries, ValidBounds entry.bounds
  order : index.entries.Pairwise fun first second => first.bounds.minX ≤ second.bounds.minX
  maxima : index.prefixMaxX = runningMax none (index.entries.map fun entry => entry.bounds.maxX)

theorem newFrom_perm (offset : ℕ) (entries : List (BoundsIndexEntry T F)) :
    ((newFrom offset entries).entries.map fun entry =>
      (⟨entry.value, entry.bounds⟩ : BoundsIndexEntry T F)).Perm entries := by
  refine ((List.mergeSort_perm _ _).map _).trans ?_
  rw [List.map_map]
  have hmap : (entries.zipIdx offset).map ((fun entry : SortedBoundsIndexEntry T F =>
      (⟨entry.value, entry.bounds⟩ : BoundsIndexEntry T F)) ∘ sortedEntry) = entries :=
    List.zipIdx_map_fst offset entries
  rw [hmap]

theorem newFrom_sorted (offset : ℕ) {entries : List (BoundsIndexEntry T F)}
    (hvalid : ∀ entry ∈ entries, ValidBounds entry.bounds) : (newFrom offset entries).Sorted where
  valid entry hentry := by
    have hmem := (newFrom_perm offset entries).mem_iff.1 (List.mem_map.2 ⟨entry, hentry, rfl⟩)
    exact hvalid _ hmem
  order := by
    have htrans := transCmp_compareBoundsIndexEntries (T := T) (F := F)
    exact (Comparator.pairwise_sort _).imp minX_le_of_isLE
  maxima := rfl

namespace Sorted

variable {index : BoundsIndex T F} (h : index.Sorted)

include h

theorem maximum_of_lt {j : ℕ} (hj : j < index.entries.length) :
    ∃ m, index.prefixMaxX[j]? = some m ∧
      (∀ i ≤ j, ∀ entry ∈ index.entries[i]?, entry.bounds.maxX ≤ m) ∧
        ∃ i ≤ j, ∃ entry ∈ index.entries[i]?, entry.bounds.maxX = m := by
  have hlength : j < index.prefixMaxX.length := by
    rw [h.maxima, length_runningMax, List.length_map]
    exact hj
  refine ⟨index.prefixMaxX[j], List.getElem?_eq_getElem hlength, ?_⟩
  have hget := List.getElem?_eq_getElem hlength
  generalize index.prefixMaxX[j] = m at hget
  rw [h.maxima] at hget
  obtain ⟨-, hmax, hwhere⟩ := runningMax_spec _ hget
  refine ⟨fun i hi entry hentry => hmax i hi _ ?_, ?_⟩
  · rw [List.getElem?_map, Option.mem_def.1 hentry]
    rfl
  · obtain ⟨i, hi, hm⟩ := hwhere.resolve_left (by simp)
    rw [List.getElem?_map, Option.mem_def, Option.map_eq_some_iff] at hm
    obtain ⟨entry, hentry, hmax⟩ := hm
    exact ⟨i, hi, entry, hentry, hmax⟩

theorem lowerBound_spec (target : F) :
    lowerBoundAtLeast index.prefixMaxX target ≤ index.entries.length ∧
      (∀ i < lowerBoundAtLeast index.prefixMaxX target, ∀ entry ∈ index.entries[i]?,
        entry.bounds.maxX < target) ∧
      ∀ i, lowerBoundAtLeast index.prefixMaxX target ≤ i → i < index.entries.length →
        ∃ j ≤ i, ∃ entry ∈ index.entries[j]?, target ≤ entry.bounds.maxX := by
  have hlength : index.prefixMaxX.length = index.entries.length := by
    rw [h.maxima, length_runningMax, List.length_map]
  unfold lowerBoundAtLeast
  rw [hlength]
  obtain ⟨⟨-, hle⟩, hbefore, hafter⟩ := partitionPoint_spec
    (fun middle => index.prefixMaxX[middle]?.any fun value => value < target) 0
    index.entries.length (Nat.zero_le _) fun i j hij hj hlt => by
      obtain ⟨m, hm, -, k, hk, entry, hentry, hmax⟩ := h.maximum_of_lt (hij.trans_lt hj)
      obtain ⟨m', hm', hall, -⟩ := h.maximum_of_lt hj
      rw [hm'] at hlt
      rw [hm]
      simp only [Option.any_some, decide_eq_true_eq] at hlt ⊢
      rw [← hmax]
      exact (hall k (hk.trans hij) entry hentry).trans_lt hlt
  refine ⟨hle, fun i hi entry hentry => ?_, fun i hi hi' => ?_⟩
  · obtain ⟨m, hm, hall, -⟩ := h.maximum_of_lt (hi.trans_le hle)
    have hlt := hbefore i (Nat.zero_le _) hi
    rw [hm] at hlt
    simp only [Option.any_some, decide_eq_true_eq] at hlt
    exact (hall i le_rfl entry hentry).trans_lt hlt
  · obtain ⟨m, hm, -, k, hk, entry, hentry, hmax⟩ := h.maximum_of_lt hi'
    have hge := hafter i hi hi'
    rw [hm] at hge
    simp only [Option.any_some, decide_eq_false_iff_not, not_lt] at hge
    exact ⟨k, hk, entry, hentry, hmax ▸ hge⟩

theorem upperBound_spec (target : F) :
    upperBoundMinX index.entries target ≤ index.entries.length ∧
      (∀ i < upperBoundMinX index.entries target, ∀ entry ∈ index.entries[i]?,
        entry.bounds.minX ≤ target) ∧
      ∀ i, upperBoundMinX index.entries target ≤ i → ∀ entry ∈ index.entries[i]?,
        target < entry.bounds.minX := by
  unfold upperBoundMinX
  obtain ⟨⟨-, hle⟩, hbefore, hafter⟩ := partitionPoint_spec
    (fun middle => index.entries[middle]?.any fun entry => entry.bounds.minX ≤ target) 0
    index.entries.length (Nat.zero_le _) fun i j hij hj hlt => by
      rw [List.getElem?_eq_getElem hj] at hlt
      rw [List.getElem?_eq_getElem (hij.trans_lt hj)]
      simp only [Option.any_some, decide_eq_true_eq] at hlt ⊢
      rcases hij.lt_or_eq with hij | rfl
      · exact (List.pairwise_iff_getElem.1 h.order i j _ _ hij).trans hlt
      · exact hlt
  refine ⟨hle, fun i hi entry hentry => ?_, fun i hi entry hentry => ?_⟩
  · have hlt := hbefore i (Nat.zero_le _) hi
    rw [Option.mem_def.1 hentry] at hlt
    simpa using hlt
  · have hge := hafter i hi (List.getElem?_eq_some_iff.1 hentry).1
    rw [Option.mem_def.1 hentry] at hge
    simpa using hge

/-- The range is never empty the wrong way round. -/
theorem lowerBound_le_upperBound {bounds : IrregularBounds F} (hbounds : ValidBounds bounds) :
    lowerBoundAtLeast index.prefixMaxX bounds.minX ≤ upperBoundMinX index.entries bounds.maxX := by
  obtain ⟨hlower, hbefore, -⟩ := h.lowerBound_spec bounds.minX
  obtain ⟨-, -, hafter⟩ := h.upperBound_spec bounds.maxX
  by_contra hlt
  -- the first entry after the range would end left of where it begins
  rw [not_le] at hlt
  have hentry := List.getElem?_eq_getElem (hlt.trans_le hlower)
  have hleft := hbefore _ hlt _ hentry
  have hright := hafter _ le_rfl _ hentry
  have hvalid := (h.valid _ (List.mem_of_getElem? hentry)).x
  exact absurd (hright.trans_le (hvalid.trans hleft.le)) (not_lt.2 hbounds.x)

/-- **A query scans all entries that are not disjoint from it.** -/
theorem scanned_spec {bounds : IrregularBounds F} (hbounds : ValidBounds bounds) :
    ∃ entries, index.scanned bounds = some entries ∧
      (entries.filter fun entry => !areDisjoint entry.bounds bounds) =
        index.entries.filter fun entry => !areDisjoint entry.bounds bounds := by
  obtain ⟨-, hbefore, -⟩ := h.lowerBound_spec bounds.minX
  obtain ⟨hupper, -, hafter⟩ := h.upperBound_spec bounds.maxX
  have hrange := h.lowerBound_le_upperBound hbounds
  unfold scanned slice
  rw [if_pos ⟨hrange, hupper⟩]
  generalize lowerBoundAtLeast index.prefixMaxX bounds.minX = firstIndex at *
  generalize upperBoundMinX index.entries bounds.maxX = endIndex at *
  refine ⟨_, rfl, ?_⟩
  have hsplit : index.entries = (index.entries.take endIndex).take firstIndex ++
      ((index.entries.take endIndex).drop firstIndex ++ index.entries.drop endIndex) := by
    rw [← List.append_assoc, List.take_append_drop, List.take_append_drop]
  have hleft : ((index.entries.take endIndex).take firstIndex).filter
      (fun entry => !areDisjoint entry.bounds bounds) = [] := by
    rw [List.filter_eq_nil_iff, List.take_take, min_eq_left hrange]
    intro entry hentry
    obtain ⟨i, hi, rfl⟩ := List.getElem_of_mem hentry
    rw [List.length_take] at hi
    rw [List.getElem_take]
    have hlt := hbefore i (by omega) _ (List.getElem?_eq_getElem (by omega))
    simp [areDisjoint, hlt]
  have hright : (index.entries.drop endIndex).filter
      (fun entry => !areDisjoint entry.bounds bounds) = [] := by
    rw [List.filter_eq_nil_iff]
    intro entry hentry
    obtain ⟨i, hi, rfl⟩ := List.getElem_of_mem hentry
    rw [List.length_drop] at hi
    rw [List.getElem_drop]
    have hlt := hafter (endIndex + i) (by omega) _ (List.getElem?_eq_getElem (by omega))
    simp [areDisjoint, hlt]
  conv_rhs => rw [hsplit]
  rw [List.filter_append, List.filter_append, hleft, hright, List.nil_append, List.append_nil]

end Sorted

/-- **The index answers as a scan of all entries**, up to their order. -/
theorem query_newFrom (offset : ℕ) {entries : List (BoundsIndexEntry T F)}
    (hvalid : ∀ entry ∈ entries, ValidBounds entry.bounds) {bounds : IrregularBounds F}
    (hbounds : ValidBounds bounds) :
    ∃ found, (newFrom offset entries).query bounds = some found ∧
      found.Perm ((entries.filter fun entry => !areDisjoint entry.bounds bounds).map
        BoundsIndexEntry.value) ∧
      ∀ predicate : T → Bool, (newFrom offset entries).anyMatch bounds predicate =
        some (entries.any fun entry =>
          !areDisjoint entry.bounds bounds && predicate entry.value) := by
  obtain ⟨scan, hscan, hfilter⟩ := (newFrom_sorted offset hvalid).scanned_spec hbounds
  have hperm := newFrom_perm offset entries
  unfold query anyMatch
  rw [hscan]
  refine ⟨_, rfl, ?_, fun predicate => congrArg some ?_⟩
  · dsimp only
    rw [hfilter]
    have hfound := (hperm.filter fun entry => !areDisjoint entry.bounds bounds).map
      BoundsIndexEntry.value
    rw [List.filter_map, List.map_map] at hfound
    exact hfound
  · dsimp only
    rw [← List.any_filter, hfilter, List.any_filter, ← hperm.any_eq, List.any_map]
    rfl

end BoundsIndex

end PolygonNesting.NfpIfp
