import Mathlib.Data.List.Dedup
import Mathlib.Data.List.Perm.Subperm
import PolygonNesting.Capacity.Comparators

set_option linter.unusedSectionVars false

/-!
# The retention law

Four modes fill the beam by reservations: each takes new successor identities
from its own order, and the last one may take as many as are left.  What one
reservation keeps (the entries so far as a prefix, distinct identities) and what
the last one leaves (a full beam, or no identity missing) gives the law.  The two
plain modes take the front of one sorted list and look at no identity.

The second part is about the bucket of the cohesion frontier whose order was
meant to break component ties by hull waste.
-/

namespace PolygonNesting

open Comparator

variable {F : Type} [LinearOrder F] [Zero F] [One F] [Add F] [Sub F] [Neg F]
  [Mul F] [Div F] [JsMath F] {heap : ℕ → IrregularPlacedPiece F} {π : Type}
  {jsonString : String → String} {maximum beamWidth : ℕ}
  {entries retained ordered : List (CapacityBeamEntry heap π)}

/-! ## §1  One reservation -/

/-- The identities of a list of entries. -/
def successorIdentities (jsonString : String → String)
    (entries : List (CapacityBeamEntry heap π)) : List String :=
  entries.map fun entry => entry.successorIdentity jsonString

theorem any_identity_iff {entry : CapacityBeamEntry heap π} :
    (retained.any fun kept =>
        kept.successorIdentity jsonString = entry.successorIdentity jsonString) = true ↔
      entry.successorIdentity jsonString ∈ successorIdentities jsonString retained := by
  simp [successorIdentities]

/-- A reservation appends. -/
theorem prefix_reserveIntoBeam : ∀ {ordered : List (CapacityBeamEntry heap π)} {added : ℕ}
    {retained : List (CapacityBeamEntry heap π)},
    List.IsPrefix retained
      (reserveIntoBeam jsonString maximum beamWidth added retained ordered) := by
  intro ordered
  induction ordered with
  | nil =>
      intro added retained
      exact List.prefix_refl retained
  | cons entry ordered ih =>
      intro added retained
      unfold reserveIntoBeam
      split
      · exact List.prefix_refl retained
      · split
        · exact ih
        · split
          · exact List.prefix_append retained [entry]
          · exact (List.prefix_append retained [entry]).trans ih

/-- A new identity keeps the identities distinct. -/
theorem nodup_append_identity {entry : CapacityBeamEntry heap π}
    (h : (successorIdentities jsonString retained).Nodup)
    (hnew : entry.successorIdentity jsonString ∉ successorIdentities jsonString retained) :
    (successorIdentities jsonString (retained ++ [entry])).Nodup := by
  unfold successorIdentities at *
  rw [List.map_append]
  refine h.append (List.nodup_singleton _) ?_
  simpa using hnew

theorem nodup_reserveIntoBeam : ∀ {ordered : List (CapacityBeamEntry heap π)} {added : ℕ}
    {retained : List (CapacityBeamEntry heap π)},
    (successorIdentities jsonString retained).Nodup →
      (successorIdentities jsonString
        (reserveIntoBeam jsonString maximum beamWidth added retained ordered)).Nodup := by
  intro ordered
  induction ordered with
  | nil =>
      intro added retained h
      exact h
  | cons entry ordered ih =>
      intro added retained h
      unfold reserveIntoBeam
      split
      · exact h
      · split
        · exact ih h
        · next hnew =>
          have hnodup := nodup_append_identity h (mt any_identity_iff.mpr hnew)
          split
          · exact hnodup
          · exact ih hnodup

/-- **A reservation of the whole width fills the beam or misses no identity.** -/
theorem full_reserveIntoBeam : ∀ {ordered : List (CapacityBeamEntry heap π)} {added : ℕ}
    {retained : List (CapacityBeamEntry heap π)}, added ≤ retained.length →
      let filled := reserveIntoBeam jsonString beamWidth beamWidth added retained ordered
      beamWidth ≤ filled.length ∨ ∀ entry ∈ ordered,
        entry.successorIdentity jsonString ∈ successorIdentities jsonString filled := by
  intro ordered
  induction ordered with
  | nil =>
      intro added retained _
      exact .inr (by simp)
  | cons entry ordered ih =>
      intro added retained hadded
      unfold reserveIntoBeam
      split
      · next hfull => exact .inl hfull
      · split
        · next hknown =>
          refine (ih hadded).imp_right fun hall e he => ?_
          rcases List.mem_cons.mp he with rfl | he
          · have hmem := any_identity_iff.mp hknown
            exact (prefix_reserveIntoBeam.map _).subset hmem
          · exact hall e he
        · split
          · next hstop =>
            refine .inl ?_
            rw [List.length_append, List.length_singleton] at hstop ⊢
            omega
          · have hadded' : added + 1 ≤ (retained ++ [entry]).length := by
              rw [List.length_append, List.length_singleton]
              omega
            refine (ih hadded').imp_right fun hall e he => ?_
            rcases List.mem_cons.mp he with rfl | he
            · have hmem : e.successorIdentity jsonString ∈
                  successorIdentities jsonString (retained ++ [e]) := by
                simp [successorIdentities]
              exact (prefix_reserveIntoBeam.map _).subset hmem
            · exact hall e he

/-! ## §2  All reservations -/

variable {reservations : List (ℕ × List (CapacityBeamEntry heap π))}

theorem nodup_reserveAll :
    (successorIdentities jsonString (reserveAll jsonString beamWidth reservations)).Nodup := by
  have hfold : ∀ (rest : List (ℕ × List (CapacityBeamEntry heap π)))
      (retained : List (CapacityBeamEntry heap π)),
      (successorIdentities jsonString retained).Nodup →
      (successorIdentities jsonString (rest.foldl (fun retained reservation =>
        reserveIntoBeam jsonString reservation.1 beamWidth 0 retained reservation.2)
          retained)).Nodup := by
    intro rest
    induction rest with
    | nil => intro retained h; exact h
    | cons reservation rest ih => intro retained h; exact ih _ (nodup_reserveIntoBeam h)
  exact hfold reservations [] List.nodup_nil

/-- The first reservation is a prefix of what is retained. -/
theorem prefix_reserveAll :
    List.IsPrefix (reserveIntoBeam jsonString maximum beamWidth 0 [] ordered)
      (reserveAll jsonString beamWidth ((maximum, ordered) :: reservations)) := by
  have hfold : ∀ (rest : List (ℕ × List (CapacityBeamEntry heap π)))
      (retained : List (CapacityBeamEntry heap π)),
      List.IsPrefix retained (rest.foldl (fun retained reservation =>
        reserveIntoBeam jsonString reservation.1 beamWidth 0 retained reservation.2)
          retained) := by
    intro rest
    induction rest with
    | nil => intro retained; exact List.prefix_refl retained
    | cons reservation rest ih => intro retained; exact prefix_reserveIntoBeam.trans (ih _)
  exact hfold reservations _

/-- The best of the first order is retained first. -/
theorem head?_reserveAll (hwidth : 0 < beamWidth) :
    (reserveAll jsonString beamWidth ((maximum, ordered) :: reservations)).head? =
      ordered.head? ∨ ordered = [] := by
  cases ordered with
  | nil => exact .inr rfl
  | cons entry ordered =>
      left
      have hfirst : ∃ rest, reserveIntoBeam jsonString maximum beamWidth 0 []
          (entry :: ordered) = entry :: rest := by
        unfold reserveIntoBeam
        rw [if_neg (by simpa using hwidth.ne'), if_neg (by simp)]
        split
        · exact ⟨[], rfl⟩
        · have hprefix : List.IsPrefix [entry]
              (reserveIntoBeam jsonString maximum beamWidth 1 [entry] ordered) :=
            prefix_reserveIntoBeam
          obtain ⟨rest, hrest⟩ := hprefix
          exact ⟨rest, by simpa using hrest.symm⟩
      obtain ⟨rest, hrest⟩ := hfirst
      have hprefix : List.IsPrefix (reserveIntoBeam jsonString maximum beamWidth 0 []
          (entry :: ordered)) (reserveAll jsonString beamWidth
            ((maximum, entry :: ordered) :: reservations)) := prefix_reserveAll
      obtain ⟨more, hmore⟩ := hprefix
      rw [← hmore, hrest]
      rfl

/-- Distinct identities of the offered entries, as many as fit. -/
theorem length_of_full (hmem : ∀ e ∈ retained, e ∈ entries)
    (hnodup : (successorIdentities jsonString retained).Nodup)
    (hle : retained.length ≤ beamWidth)
    (hfull : beamWidth ≤ retained.length ∨ ∀ e ∈ entries,
      e.successorIdentity jsonString ∈ successorIdentities jsonString retained) :
    retained.length = min beamWidth (successorIdentities jsonString entries).dedup.length := by
  have hsubset : successorIdentities jsonString retained ⊆
      (successorIdentities jsonString entries).dedup := by
    intro identity hidentity
    obtain ⟨e, he, rfl⟩ := List.mem_map.mp hidentity
    exact List.mem_dedup.mpr (List.mem_map_of_mem (hmem e he))
  have hlength : (successorIdentities jsonString retained).length = retained.length :=
    List.length_map _
  have hdistinct := (List.subperm_of_subset hnodup hsubset).length_le
  rcases hfull with hfull | hall
  · omega
  · have hback : (successorIdentities jsonString entries).dedup ⊆
        successorIdentities jsonString retained := by
      intro identity hidentity
      obtain ⟨e, he, rfl⟩ := List.mem_map.mp (List.mem_dedup.mp hidentity)
      exact hall e he
    have hge := (List.subperm_of_subset (List.nodup_dedup _) hback).length_le
    omega

/-! ## §3  The law -/

variable {measureTopology : List (IrregularPlacedPiece F) → Option CanonicalLayoutTopologyExact}

/-- The modes that fill the beam by successor identity. -/
def IntrinsicCapacityRetentionMode.reservesByIdentity : IntrinsicCapacityRetentionMode → Bool
  | .objective | .areaFirstShadow => false
  | .axisBucketsShadow | .cohesionFrontier | .cohesionFrontierShadow | .qualityFrontier => true

/-- The comparator whose best entry a mode keeps first. -/
def IntrinsicCapacityRetentionMode.leading :
    IntrinsicCapacityRetentionMode → EntryOrder heap π
  | .areaFirstShadow => compareCapacityBeamEntriesAreaFirst
  | _ => compareCapacityBeamEntries

/-- What a retained list is. -/
structure RetentionLaw (jsonString : String → String) (beamWidth : ℕ)
    (mode : IntrinsicCapacityRetentionMode)
    (entries retained : List (CapacityBeamEntry heap π)) : Prop where
  survivors : ∀ entry ∈ retained, entry ∈ entries
  -- the plain modes look at no identity
  distinct : mode.reservesByIdentity = true ∨ (successorIdentities jsonString entries).Nodup →
    (successorIdentities jsonString retained).Nodup ∧
      retained.length = min beamWidth (successorIdentities jsonString entries).dedup.length
  plain : mode.reservesByIdentity = false → retained.length = min beamWidth entries.length
  first : ∀ first, retained.head? = some first → ∀ entry ∈ entries,
    (mode.leading first entry).isLE = true

/-- A front of a sorted list. -/
theorem retentionLaw_take {mode : IntrinsicCapacityRetentionMode}
    (hmode : mode.reservesByIdentity = false)
    {compare : EntryOrder heap π} [Std.TransCmp compare] (hleading : mode.leading = compare) :
    RetentionLaw jsonString beamWidth mode entries
      ((sortedBy compare entries).take beamWidth) := by
  have hperm : (sortedBy compare entries).Perm entries := List.mergeSort_perm _ _
  have hlength : ((sortedBy compare entries).take beamWidth).length =
      min beamWidth entries.length := by
    rw [List.length_take, hperm.length_eq]
  refine ⟨fun entry h => mem_sortedBy.mp (List.mem_of_mem_take h), fun hor => ?_,
    fun _ => hlength, fun first hfirst entry hentry => ?_⟩
  · have hnodup : (successorIdentities jsonString entries).Nodup := by
      simpa [hmode] using hor
    have hsorted : (successorIdentities jsonString (sortedBy compare entries)).Nodup :=
      (hperm.map _).nodup_iff.mpr hnodup
    refine ⟨hsorted.sublist ((List.take_sublist _ _).map _), ?_⟩
    rw [hlength, hnodup.dedup, successorIdentities, List.length_map]
  · rw [hleading]
    refine isLE_of_head? ?_ hentry
    rw [List.head?_take] at hfirst
    split at hfirst
    · exact absurd hfirst (by simp)
    · exact hfirst

theorem leading_of_reserves {mode : IntrinsicCapacityRetentionMode}
    (hmode : mode.reservesByIdentity = true) :
    (mode.leading : EntryOrder heap π) = compareCapacityBeamEntries := by
  cases mode <;> first | rfl | exact absurd hmode (by decide)

/-- Reservations that start with the objective and end with all of it. -/
theorem retentionLaw_reserveAll {mode : IntrinsicCapacityRetentionMode}
    (hmode : mode.reservesByIdentity = true)
    (hfrom : ∀ reservation ∈ reservations, ∀ e ∈ reservation.2, e ∈ entries) :
    RetentionLaw jsonString beamWidth mode entries
      (reserveAll jsonString beamWidth
        ((maximum, sortedBy compareCapacityBeamEntries entries) :: (reservations ++
          [(beamWidth, sortedBy compareCapacityBeamEntries entries)]))) := by
  have hsorted : ∀ e ∈ sortedBy compareCapacityBeamEntries entries, e ∈ entries :=
    fun e he => mem_sortedBy.mp he
  have hmem : ∀ e ∈ reserveAll jsonString beamWidth
      ((maximum, sortedBy compareCapacityBeamEntries entries) :: (reservations ++
        [(beamWidth, sortedBy compareCapacityBeamEntries entries)])), e ∈ entries := by
    refine fun e he => mem_reserveAll (fun reservation hreservation => ?_) he
    rcases List.mem_cons.mp hreservation with rfl | hreservation
    · exact hsorted
    · rcases List.mem_append.mp hreservation with hreservation | hreservation
      · exact hfrom reservation hreservation
      · obtain rfl := List.mem_singleton.mp hreservation
        exact hsorted
  refine ⟨hmem, fun _ => ⟨nodup_reserveAll, ?_⟩, fun hplain => ?_, ?_⟩
  · refine length_of_full hmem nodup_reserveAll (length_reserveAll_le _) ?_
    rw [← List.cons_append, reserveAll, List.foldl_append]
    refine (full_reserveIntoBeam (Nat.zero_le _)).imp_right fun hall e he => ?_
    exact hall e (mem_sortedBy.mpr he)
  · rw [hmode] at hplain
    exact absurd hplain (by decide)
  · intro first hfirst entry hentry
    rw [leading_of_reserves hmode]
    refine isLE_of_head? ?_ hentry
    have hwidth : 0 < beamWidth := by
      refine Nat.pos_of_ne_zero fun hzero => ?_
      have hlength := List.length_pos_of_mem (List.mem_of_head? hfirst)
      have hle := hlength.trans_le (length_reserveAll_le _)
      exact absurd hzero hle.ne'
    have hhead : (reserveAll jsonString beamWidth
        ((maximum, sortedBy compareCapacityBeamEntries entries) :: (reservations ++
          [(beamWidth, sortedBy compareCapacityBeamEntries entries)]))).head? =
        (sortedBy compareCapacityBeamEntries entries).head? ∨
          sortedBy compareCapacityBeamEntries entries = [] := head?_reserveAll hwidth
    rcases hhead with hhead | hnone
    · exact hhead.symm.trans hfirst
    · have hempty : entry ∈ sortedBy compareCapacityBeamEntries entries :=
        mem_sortedBy.mpr hentry
      rw [hnone] at hempty
      exact absurd hempty List.not_mem_nil

theorem retentionLaw_cohesionFrontier {mode : IntrinsicCapacityRetentionMode}
    (hmode : mode.reservesByIdentity = true) (objectiveBucketWidth topologyBucketWidth : ℕ) :
    RetentionLaw jsonString beamWidth mode entries
      (retainCapacityCohesionFrontier jsonString measureTopology beamWidth
        objectiveBucketWidth topologyBucketWidth entries) := by
  have hfrom : ∀ reservation ∈
      [(topologyBucketWidth, sortedBy (compareTopologyMetric measureTopology .isolated) entries),
        (topologyBucketWidth,
          sortedBy (compareTopologyMetric measureTopology .largestComponent) entries),
        (beamWidth, sortedBy (fun first second =>
          (compareTopologyMetric measureTopology .componentCount first second).then
            (compareTopologyMetric measureTopology .hullWaste first second)) entries)],
      ∀ e ∈ reservation.2, e ∈ entries := by
    simp [mem_sortedBy]
  exact retentionLaw_reserveAll hmode hfrom

/-- **The retention law**, for every mode, width and list of survivors. -/
theorem retainCapacityBeamEntries_law (jsonString : String → String)
    (measureTopology : List (IrregularPlacedPiece F) → Option CanonicalLayoutTopologyExact)
    (beamWidth : ℕ) (mode : IntrinsicCapacityRetentionMode)
    (entries : List (CapacityBeamEntry heap π)) :
    RetentionLaw jsonString beamWidth mode entries
      (retainCapacityBeamEntries jsonString measureTopology beamWidth mode entries) := by
  cases mode with
  | objective => exact retentionLaw_take rfl rfl
  | areaFirstShadow => exact retentionLaw_take rfl rfl
  | axisBucketsShadow =>
      have hfrom : ∀ reservation ∈
          [(4, sortedBy compareCapacityBeamEntriesWidthFirst entries),
            (4, sortedBy compareCapacityBeamEntriesHeightFirst entries)],
          ∀ e ∈ reservation.2, e ∈ entries := by
        simp [mem_sortedBy]
      exact retentionLaw_reserveAll rfl hfrom
  | cohesionFrontier => exact retentionLaw_cohesionFrontier rfl _ _
  | cohesionFrontierShadow => exact retentionLaw_cohesionFrontier rfl _ _
  | qualityFrontier => exact retentionLaw_cohesionFrontier rfl _ _

/-! ## §4  Two bars -/

/-- A bar of 10 by 1 at the origin, the same to its right, and one turned above it. -/
def barHeap (n : ℕ) : IrregularPlacedPiece ℚ :=
  let bar : List (IrregularPoint ℚ) := [⟨0, 0⟩, ⟨10, 0⟩, ⟨10, 1⟩, ⟨0, 1⟩]
  let turned : List (IrregularPoint ℚ) := [⟨0, 0⟩, ⟨1, 0⟩, ⟨1, 10⟩, ⟨0, 10⟩]
  if n = 0 then
    ⟨⟨some "a", "bar", none, ⟨0, 0, 0, false⟩⟩,
      ⟨"bar", ⟨0, 0, false, .orthogonal⟩, ⟨bar⟩, ⟨0, 0, 10, 1⟩⟩⟩
  else if n = 1 then
    ⟨⟨some "b", "bar", none, ⟨10, 0, 0, false⟩⟩,
      ⟨"bar", ⟨0, 0, false, .orthogonal⟩, ⟨bar⟩, ⟨0, 0, 10, 1⟩⟩⟩
  else
    ⟨⟨some "b", "bar", none, ⟨0, 1, 90, false⟩⟩,
      ⟨"bar", ⟨1, 90, false, .orthogonal⟩, ⟨turned⟩, ⟨0, 0, 1, 10⟩⟩⟩

/-- The beam entry of the first bar and another. -/
def twoBars (second : PlacedArc barHeap) (span : IntrinsicCapacityGridSpan) :
    CapacityBeamEntry barHeap PieceId :=
  let state := ((IrregularBeamState.empty ["a", "b"]).withPlacement ["b"] ⟨0⟩ "a").withPlacement
    [] second "b"
  ⟨state, 40000000, state.canonicalOccupiedGeometryKey, span, noCavities⟩

/-- End to end: 20 by 1, with no waste. -/
def barRow : CapacityBeamEntry barHeap PieceId := twoBars ⟨1⟩ ⟨20000, 1000⟩

/-- At a right angle: 10 by 11, half of its hull empty. -/
def barAngle : CapacityBeamEntry barHeap PieceId := twoBars ⟨2⟩ ⟨10000, 11000⟩

theorem retainCapacityBeamEntries_plain_modes :
    (∃ first, (retainCapacityBeamEntries id (fun _ => none) 1 .areaFirstShadow
        [barAngle, barRow]).head? = some first ∧
      ∃ entry ∈ [barAngle, barRow], (compareCapacityBeamEntries first entry).isLE = false) ∧
    ¬(successorIdentities id (retainCapacityBeamEntries id (fun _ => none) 2 .objective
        [barRow, barRow])).Nodup := by
  constructor
  · have hlaw : RetentionLaw id 1 .areaFirstShadow [barAngle, barRow]
        (retainCapacityBeamEntries id (fun _ => none) 1 .areaFirstShadow
          [barAngle, barRow]) := retentionLaw_take rfl rfl
    have hlength := hlaw.plain rfl
    cases hretained : retainCapacityBeamEntries id (fun _ => none) 1 .areaFirstShadow
        [barAngle, barRow] with
    | nil =>
        rw [hretained] at hlength
        exact absurd hlength (by decide)
    | cons first rest =>
        rw [hretained] at hlaw
        refine ⟨first, rfl, barAngle, List.mem_cons_self, ?_⟩
        have hfirst := hlaw.first first rfl barRow (by simp)
        rcases List.mem_cons.mp (hlaw.survivors first List.mem_cons_self) with rfl | hrow
        · exact absurd hfirst (by decide +kernel)
        · obtain rfl := List.mem_singleton.mp hrow
          decide +kernel
  · have hlaw : RetentionLaw id 2 .objective [barRow, barRow]
        (retainCapacityBeamEntries id (fun _ => none) 2 .objective [barRow, barRow]) :=
      retentionLaw_take rfl rfl
    have hall : ∀ entry ∈ retainCapacityBeamEntries id (fun _ => none) 2 .objective
        [barRow, barRow], entry = barRow := by
      intro entry hentry
      simpa using hlaw.survivors entry hentry
    have hlength : (retainCapacityBeamEntries id (fun _ => none) 2 .objective
        [barRow, barRow]).length = 2 := hlaw.plain rfl
    rw [List.eq_replicate_of_mem hall, hlength]
    simp [successorIdentities]

/-! ## §5  The component bucket -/

/-- The order of the fourth bucket: component count, then hull waste. -/
def compareComponentHull
    (measureTopology : List (IrregularPlacedPiece F) → Option CanonicalLayoutTopologyExact)
    (first second : CapacityBeamEntry heap π) : Ordering :=
  (compareTopologyMetric measureTopology .componentCount first second).then
    (compareTopologyMetric measureTopology .hullWaste first second)

/-- The entries in the order the fourth bucket reserves them. -/
def cohesionFrontierBucket
    (measureTopology : List (IrregularPlacedPiece F) → Option CanonicalLayoutTopologyExact)
    (entries : List (CapacityBeamEntry heap π)) : List (CapacityBeamEntry heap π) :=
  sortedBy (compareComponentHull measureTopology) entries

theorem transCmp_componentHull (hgaps : MeasuresHullGaps measureTopology) :
    Std.TransCmp (compareComponentHull measureTopology : EntryOrder heap π) :=
  transCmp_then (transCmp_topologyMetric (by simp)) (transCmp_topologyMetric fun _ => hgaps)

variable {a b : CapacityBeamEntry heap π} {topology topology' : CanonicalLayoutTopologyExact}

/-- On a tie of accounting and component count the objective comes next, and the
hull waste is looked at only when the objective ties as well. -/
theorem compareComponentHull_of_tie
    (hacc : compareCapacityBeamEntryAccounting a b = .eq)
    (ha : entryTopology measureTopology a = some topology)
    (hb : entryTopology measureTopology b = some topology')
    (hcount : topology.positiveContactComponentCount =
      topology'.positiveContactComponentCount) :
    compareComponentHull measureTopology a b =
      (compareCapacityBeamEntries a b).then (compareExactHullWaste topology topology') := by
  simp only [compareComponentHull, compareTopologyMetric, hacc, ha, hb, hcount,
    compare_eq_iff_eq.mpr rfl, Ordering.then]
  cases compareCapacityBeamEntries a b <;> cases compareExactHullWaste topology topology' <;> rfl

/-- In the sorted bucket the order of two entries is that of the comparator. -/
theorem cohesionFrontierBucket_lt_iff (hgaps : MeasuresHullGaps measureTopology)
    (haEntries : a ∈ entries) (hbEntries : b ∈ entries)
    (hne : compareComponentHull measureTopology a b ≠ .eq) :
    (∀ i j : ℕ, (cohesionFrontierBucket measureTopology entries)[i]? = some a →
        (cohesionFrontierBucket measureTopology entries)[j]? = some b → i < j) ↔
      compareComponentHull measureTopology a b = .lt := by
  have htrans : Std.TransCmp (compareComponentHull measureTopology : EntryOrder heap π) :=
    transCmp_componentHull hgaps
  constructor
  · intro hfirst
    cases hcmp : compareComponentHull measureTopology a b with
    | lt => rfl
    | eq => exact absurd hcmp hne
    | gt =>
        have hbefore : compareComponentHull measureTopology b a = .lt := by
          rw [cmp_eq_swap (compareComponentHull measureTopology), hcmp]
          rfl
        obtain ⟨i, hi⟩ := List.mem_iff_getElem?.mp
          (mem_sortedBy.mpr haEntries : a ∈ cohesionFrontierBucket measureTopology entries)
        obtain ⟨j, hj⟩ := List.mem_iff_getElem?.mp
          (mem_sortedBy.mpr hbEntries : b ∈ cohesionFrontierBucket measureTopology entries)
        have hji : j < i := lt_of_cmp_eq_lt hbefore hj hi
        exact absurd (hfirst i j hi hj) hji.not_gt
  · exact fun hlt i j hi hj => lt_of_cmp_eq_lt hlt hi hj

/-- **The smaller waste comes first exactly when the objective does not object.**
For two survivors that tie on accounting and on components, the one with the smaller
hull waste is compared, and stands in the bucket, ahead of the other if and only if
the objective does not put it behind. -/
theorem cohesionFrontier_smallerWaste_first_iff
    (haEntries : a ∈ entries) (hbEntries : b ∈ entries)
    (hacc : compareCapacityBeamEntryAccounting a b = .eq)
    (ha : entryTopology measureTopology a = some topology)
    (hb : entryTopology measureTopology b = some topology')
    (hcount : topology.positiveContactComponentCount =
      topology'.positiveContactComponentCount)
    (hwaste : compareExactHullWaste topology topology' = .lt) :
    (compareComponentHull measureTopology a b = .lt ↔ compareCapacityBeamEntries a b ≠ .gt) ∧
      (MeasuresHullGaps measureTopology →
        ((∀ i j : ℕ, (cohesionFrontierBucket measureTopology entries)[i]? = some a →
            (cohesionFrontierBucket measureTopology entries)[j]? = some b → i < j) ↔
          compareCapacityBeamEntries a b ≠ .gt)) := by
  have horder := compareComponentHull_of_tie hacc ha hb hcount
  rw [hwaste] at horder
  have hiff : compareComponentHull measureTopology a b = .lt ↔
      compareCapacityBeamEntries a b ≠ .gt := by
    rw [horder]
    cases compareCapacityBeamEntries a b <;> decide
  refine ⟨hiff, fun hgaps => (cohesionFrontierBucket_lt_iff hgaps haEntries hbEntries ?_).trans
    hiff⟩
  rw [horder]
  cases compareCapacityBeamEntries a b <;> decide

/-- The topology of the two layouts of two bars. -/
def barTopology (placed : List (IrregularPlacedPiece ℚ)) : Option CanonicalLayoutTopologyExact :=
  if placed = [barHeap 0, barHeap 1] then some ⟨1, 0, 2, 0, 40000000⟩
  else if placed = [barHeap 0, barHeap 2] then some ⟨1, 0, 2, 90000000, 130000000⟩
  else none

theorem measuresHullGaps_barTopology : MeasuresHullGaps barTopology := by
  intro placed topology h
  unfold barTopology at h
  split at h
  · obtain rfl := Option.some.inj h
    decide
  · split at h
    · obtain rfl := Option.some.inj h
      decide
    · exact absurd h (by simp)

theorem cohesionFrontier_smallerWaste_first_iff_twoBars :
    (∀ i j : ℕ, (cohesionFrontierBucket barTopology [barRow, barAngle])[i]? = some barRow →
        (cohesionFrontierBucket barTopology [barRow, barAngle])[j]? = some barAngle → i < j) ↔
      compareCapacityBeamEntries barRow barAngle ≠ .gt :=
  (cohesionFrontier_smallerWaste_first_iff (by simp) (by simp)
    (by decide +kernel) (by decide +kernel : entryTopology barTopology barRow =
      some ⟨1, 0, 2, 0, 40000000⟩)
    (by decide +kernel : entryTopology barTopology barAngle =
      some ⟨1, 0, 2, 90000000, 130000000⟩) rfl (by decide)).2 measuresHullGaps_barTopology

/-- The row has no waste, and comes after the angle. -/
theorem cohesionFrontier_row_after_angle :
    compareCapacityBeamEntryAccounting barRow barAngle = .eq ∧
      entryTopology barTopology barRow = some ⟨1, 0, 2, 0, 40000000⟩ ∧
      entryTopology barTopology barAngle = some ⟨1, 0, 2, 90000000, 130000000⟩ ∧
      compareExactHullWaste ⟨1, 0, 2, 0, 40000000⟩ ⟨1, 0, 2, 90000000, 130000000⟩ = .lt ∧
      ∀ i j : ℕ, (cohesionFrontierBucket barTopology [barRow, barAngle])[i]? = some barRow →
        (cohesionFrontierBucket barTopology [barRow, barAngle])[j]? = some barAngle → j < i := by
  have htrans : Std.TransCmp (compareComponentHull barTopology :
      EntryOrder barHeap PieceId) := transCmp_componentHull measuresHullGaps_barTopology
  refine ⟨by decide +kernel, by decide +kernel, by decide +kernel, by decide, ?_⟩
  intro i j hi hj
  exact lt_of_cmp_eq_lt (by decide +kernel : compareComponentHull barTopology barAngle barRow =
    .lt) hj hi

end PolygonNesting
