import PolygonNesting.Capacity.ColdSearch
import PolygonNesting.Search.BeamStateExact

set_option linter.unusedSectionVars false

/-!
# The cavity cache

The cache is the caller's, so two calls that do the same work may see different
caches.  What a search can observe of a cache is the measurement it gives for a
state under that state's anchored key; caches that agree on this are not told
apart, by one measurement or by a whole collection.

A cache passed on from call to call agrees with itself.  Where the measurement
is a function of the anchored key, a search keeps a cache of true measurements
true, and its entries have the cavities of their states.
-/

namespace PolygonNesting

variable {F : Type} [LinearOrder F] [Zero F] [One F] [Add F] [Sub F] [Neg F]
  [Mul F] [Div F] [JsMath F] {heap : ℕ → IrregularPlacedPiece F}

/-! ## §1  Agreement -/

/-- What a cache answers for a key, and the measurement otherwise. -/
def recallCavities (authority : LayoutAuthority heap) (state : CapacityState heap)
    (key : String) (cache : IntrinsicCapacityCavityCache F) :
    Option (IntrinsicCapacityCavityMetrics F) :=
  (cache.lookup key).or
    (authority.measureCanonicalEnclosedCavities
      (toOwnedPlaced state.placedCollisionGeometries))

/-- No state tells the two caches apart. -/
def CavityCachesAgree (authority : LayoutAuthority heap)
    (first second : IntrinsicCapacityCavityCache F) : Prop :=
  ∀ (state : CapacityState heap) (key : String),
    state.placedCollisionGeometries ≠ [] →
    state.bottomLeftAnchoredCanonicalOccupiedGeometryKey = some key →
    recallCavities authority state key first = recallCavities authority state key second

/-- Every entry is the measurement of every state under its key. -/
def HonestCavityCache (authority : LayoutAuthority heap)
    (cache : IntrinsicCapacityCavityCache F) : Prop :=
  ∀ (state : CapacityState heap) (key : String) (metrics), state.Built →
    state.placedCollisionGeometries ≠ [] →
    state.bottomLeftAnchoredCanonicalOccupiedGeometryKey = some key →
    cache.lookup key = some metrics →
    authority.measureCanonicalEnclosedCavities
      (toOwnedPlaced state.placedCollisionGeometries) = some metrics

/-- States with one anchored key have one measurement: the cavities of a layout
do not depend on where it stands or in which order its pieces came. -/
def KeyedCavities (authority : LayoutAuthority heap) : Prop :=
  ∀ state other : CapacityState heap, state.Built → other.Built →
    state.placedCollisionGeometries ≠ [] → other.placedCollisionGeometries ≠ [] →
    state.bottomLeftAnchoredCanonicalOccupiedGeometryKey =
      other.bottomLeftAnchoredCanonicalOccupiedGeometryKey →
    state.bottomLeftAnchoredCanonicalOccupiedGeometryKey ≠ none →
    authority.measureCanonicalEnclosedCavities
        (toOwnedPlaced state.placedCollisionGeometries) =
      authority.measureCanonicalEnclosedCavities
        (toOwnedPlaced other.placedCollisionGeometries)

variable {authority : LayoutAuthority heap}
  {cache first second : IntrinsicCapacityCavityCache F} {state : CapacityState heap}
  {key : String}

theorem CavityCachesAgree.refl : CavityCachesAgree authority cache cache :=
  fun _ _ _ _ => rfl

theorem CavityCachesAgree.symm (h : CavityCachesAgree authority first second) :
    CavityCachesAgree authority second first :=
  fun state key hplaced hkey => (h state key hplaced hkey).symm

theorem CavityCachesAgree.trans {third : IntrinsicCapacityCavityCache F}
    (h : CavityCachesAgree authority first second)
    (h' : CavityCachesAgree authority second third) :
    CavityCachesAgree authority first third :=
  fun state key hplaced hkey =>
    (h state key hplaced hkey).trans (h' state key hplaced hkey)

theorem HonestCavityCache.recall (h : HonestCavityCache authority cache)
    (hbuilt : state.Built) (hplaced : state.placedCollisionGeometries ≠ [])
    (hkey : state.bottomLeftAnchoredCanonicalOccupiedGeometryKey = some key) :
    recallCavities authority state key cache =
      authority.measureCanonicalEnclosedCavities
        (toOwnedPlaced state.placedCollisionGeometries) := by
  unfold recallCavities
  cases hlookup : cache.lookup key with
  | none => rfl
  | some metrics => exact (h state key metrics hbuilt hplaced hkey hlookup).symm

theorem measureCavities_fst (authority : LayoutAuthority heap)
    (state : CapacityState heap) (key : String)
    (cache : IntrinsicCapacityCavityCache F) :
    (measureIntrinsicCapacityCavitiesWithKey authority state key cache).1 =
      if state.placedCollisionGeometries.isEmpty then some noCavities
      else recallCavities authority state key cache := by
  unfold measureIntrinsicCapacityCavitiesWithKey recallCavities
  split
  · rfl
  · split
    · next hlookup => rw [hlookup]; rfl
    · next hlookup =>
      rw [hlookup]
      split
      · next hmeasure => exact hmeasure.symm
      · next hmeasure => exact hmeasure.symm

/-- After a measurement the cache answers its key with the result, and every
other key as before. -/
theorem lookup_measureCavities {metrics : IntrinsicCapacityCavityMetrics F}
    (hplaced : state.placedCollisionGeometries ≠ [])
    (h : recallCavities authority state key cache = some metrics) (other : String) :
    (measureIntrinsicCapacityCavitiesWithKey authority state key cache).2.lookup other =
      if other = key then some metrics else cache.lookup other := by
  have hempty : state.placedCollisionGeometries.isEmpty = false :=
    List.isEmpty_eq_false_iff.mpr hplaced
  unfold recallCavities at h
  unfold measureIntrinsicCapacityCavitiesWithKey
  rw [hempty, if_neg Bool.false_ne_true]
  split
  · next cached hlookup =>
    rw [hlookup, Option.some_or] at h
    by_cases hother : other = key
    · rw [if_pos hother, hother]
      exact hlookup.trans h
    · rw [if_neg hother]
  · next hlookup =>
    rw [hlookup, Option.none_or] at h
    rw [h]
    by_cases hother : other = key
    · rw [if_pos hother, hother]
      exact AList.lookup_insert cache
    · rw [if_neg hother]
      exact AList.lookup_insert_ne hother

/-- A measurement that fails leaves the cache. -/
theorem measureCavities_failed (h : recallCavities authority state key cache = none) :
    (measureIntrinsicCapacityCavitiesWithKey authority state key cache).2 = cache := by
  unfold recallCavities at h
  obtain ⟨hlookup, hmeasure⟩ := Option.or_eq_none_iff.mp h
  unfold measureIntrinsicCapacityCavitiesWithKey
  rw [hlookup, hmeasure]
  split <;> rfl

/-- **Agreeing caches stay in agreement**, and give the same result. -/
theorem CavityCachesAgree.measure (h : CavityCachesAgree authority first second)
    (hkey : state.bottomLeftAnchoredCanonicalOccupiedGeometryKey = some key) :
    (measureIntrinsicCapacityCavitiesWithKey authority state key first).1 =
        (measureIntrinsicCapacityCavitiesWithKey authority state key second).1 ∧
      CavityCachesAgree authority
        (measureIntrinsicCapacityCavitiesWithKey authority state key first).2
        (measureIntrinsicCapacityCavitiesWithKey authority state key second).2 := by
  by_cases hplaced : state.placedCollisionGeometries = []
  · unfold measureIntrinsicCapacityCavitiesWithKey
    rw [hplaced]
    exact ⟨rfl, h⟩
  · have hrecall := h state key hplaced hkey
    rw [measureCavities_fst, measureCavities_fst, hrecall]
    refine ⟨rfl, ?_⟩
    cases hresult : recallCavities authority state key second with
    | none =>
        rw [measureCavities_failed hresult, measureCavities_failed (hrecall.trans hresult)]
        exact h
    | some metrics =>
        intro other otherKey hother hotherKey
        unfold recallCavities
        rw [lookup_measureCavities hplaced (hrecall.trans hresult),
          lookup_measureCavities hplaced hresult]
        by_cases heq : otherKey = key
        · rw [if_pos heq, if_pos heq]
        · rw [if_neg heq, if_neg heq]
          exact h other otherKey hother hotherKey

/-- A measurement under the right key keeps a cache true, where the measurement
is a function of the key. -/
theorem HonestCavityCache.measure (h : HonestCavityCache authority cache)
    (hkeyed : KeyedCavities authority) (hbuilt : state.Built)
    (hkey : state.bottomLeftAnchoredCanonicalOccupiedGeometryKey = some key) :
    HonestCavityCache authority
      (measureIntrinsicCapacityCavitiesWithKey authority state key cache).2 := by
  by_cases hplaced : state.placedCollisionGeometries = []
  · unfold measureIntrinsicCapacityCavitiesWithKey
    rw [hplaced]
    exact h
  · cases hresult : recallCavities authority state key cache with
    | none =>
        rw [measureCavities_failed hresult]
        exact h
    | some metrics =>
        intro other otherKey found hotherBuilt hother hotherKey hlookup
        rw [lookup_measureCavities hplaced hresult] at hlookup
        by_cases heq : otherKey = key
        · rw [if_pos heq] at hlookup
          rw [hkeyed other state hotherBuilt hbuilt hother hplaced
            (by rw [hotherKey, hkey, heq])
            (by rw [hotherKey]; exact Option.some_ne_none _),
            ← h.recall hbuilt hplaced hkey, hresult, hlookup]
        · rw [if_neg heq] at hlookup
          exact h other otherKey found hotherBuilt hother hotherKey hlookup

/-- What a cache knows stays known. -/
theorem isSome_lookup_measureCavities (authority : LayoutAuthority heap)
    (state : CapacityState heap) (key : String) {other : String}
    (h : (cache.lookup other).isSome) :
    ((measureIntrinsicCapacityCavitiesWithKey authority state key cache).2.lookup
      other).isSome := by
  by_cases hplaced : state.placedCollisionGeometries = []
  · unfold measureIntrinsicCapacityCavitiesWithKey
    rw [hplaced]
    exact h
  · cases hresult : recallCavities authority state key cache with
    | none =>
        rw [measureCavities_failed hresult]
        exact h
    | some metrics =>
        rw [lookup_measureCavities hplaced hresult]
        split
        · rfl
        · exact h

/-! ## §3  The survivors of a depth -/

/-- The key of an entry is the key of its state. -/
def CapacityBeamEntry.KeyRight (entry : CapacityEntry heap) : Prop :=
  entry.state.bottomLeftAnchoredCanonicalOccupiedGeometryKey =
    some entry.anchoredOccupiedKey

/-- The cavities of an entry are those of its state. -/
def CapacityBeamEntry.CavitiesRight (authority : LayoutAuthority heap)
    (entry : CapacityEntry heap) : Prop :=
  if entry.state.placedCollisionGeometries = [] then entry.cavities = noCavities
  else authority.measureCanonicalEnclosedCavities
    (toOwnedPlaced entry.state.placedCollisionGeometries) = some entry.cavities

theorem CapacityBeamEntry.cavitiesRight_of_empty {entry : CapacityEntry heap}
    (hplaced : entry.state.placedCollisionGeometries = [])
    (h : entry.cavities = noCavities) : entry.CavitiesRight authority := by
  unfold CavitiesRight
  rwa [if_pos hplaced]

theorem CapacityBeamEntry.cavitiesRight_of_measured {entry : CapacityEntry heap}
    (hplaced : entry.state.placedCollisionGeometries ≠ [])
    (h : authority.measureCanonicalEnclosedCavities
      (toOwnedPlaced entry.state.placedCollisionGeometries) = some entry.cavities) :
    entry.CavitiesRight authority := by
  unfold CavitiesRight
  rwa [if_neg hplaced]

/-- Over a true cache the cavities of an entry are what a measurement gives. -/
theorem CapacityBeamEntry.CavitiesRight.measure {entry : CapacityEntry heap}
    (h : entry.CavitiesRight authority) (hbuilt : entry.state.Built)
    (hkey : entry.KeyRight) (hcache : HonestCavityCache authority cache) :
    (measureIntrinsicCapacityCavitiesWithKey authority entry.state
      entry.anchoredOccupiedKey cache).1 = some entry.cavities := by
  unfold CavitiesRight at h
  rw [measureCavities_fst]
  by_cases hplaced : entry.state.placedCollisionGeometries = []
  · rw [if_pos hplaced] at h
    rw [if_pos (List.isEmpty_iff.mpr hplaced), h]
  · rw [if_neg hplaced] at h
    rw [if_neg (by rwa [List.isEmpty_iff]), hcache.recall hbuilt hplaced hkey, h]

open DepthContext

/-- **Agreeing caches measure the same survivors.** -/
theorem CavityCachesAgree.measureSurvivors {surviving : List (CapacityEntry heap)} :
    ∀ {first second : IntrinsicCapacityCavityCache F}
      (counters : IntrinsicCapacitySearchCounters),
      CavityCachesAgree authority first second →
      (∀ entry ∈ surviving, entry.KeyRight) →
        (measureSurvivors authority surviving counters first).1 =
            (measureSurvivors authority surviving counters second).1 ∧
          (measureSurvivors authority surviving counters first).2.1 =
            (measureSurvivors authority surviving counters second).2.1 ∧
          CavityCachesAgree authority
            (measureSurvivors authority surviving counters first).2.2
            (measureSurvivors authority surviving counters second).2.2 := by
  induction surviving with
  | nil =>
      intro first second counters h _
      exact ⟨rfl, rfl, h⟩
  | cons entry surviving ih =>
      intro first second counters h hkeys
      have hrest : ∀ entry ∈ surviving, entry.KeyRight :=
        fun other hother => hkeys other (List.mem_cons_of_mem _ hother)
      unfold DepthContext.measureSurvivors
      split
      · obtain ⟨hbeam, hcounters, hcaches⟩ := ih counters h hrest
        exact ⟨congrArg (entry :: ·) hbeam, hcounters, hcaches⟩
      · obtain ⟨hresult, hcaches⟩ := h.measure (hkeys entry List.mem_cons_self)
        rcases hfirst : measureIntrinsicCapacityCavitiesWithKey authority entry.state
          entry.anchoredOccupiedKey first with ⟨result, first'⟩
        rcases hsecond : measureIntrinsicCapacityCavitiesWithKey authority entry.state
          entry.anchoredOccupiedKey second with ⟨result', second'⟩
        rw [hfirst, hsecond] at hresult hcaches
        obtain rfl : result = result' := hresult
        cases result with
        | none => exact ih _ hcaches hrest
        | some cavities =>
            obtain ⟨hbeam, hcounters, hcaches⟩ := ih counters hcaches hrest
            exact ⟨congrArg ({ entry with cavities := cavities } :: ·) hbeam, hcounters,
              hcaches⟩

/-- What a cache knows stays known. -/
theorem isSome_lookup_measureSurvivors {other : String}
    {surviving : List (CapacityEntry heap)} :
    ∀ {cache : IntrinsicCapacityCavityCache F}
      {counters : IntrinsicCapacitySearchCounters}, (cache.lookup other).isSome →
        ((measureSurvivors authority surviving counters cache).2.2.lookup other).isSome := by
  induction surviving with
  | nil =>
      intro cache counters h
      exact h
  | cons entry surviving ih =>
      intro cache counters h
      unfold DepthContext.measureSurvivors
      split
      · exact ih h
      · have hknown := isSome_lookup_measureCavities authority entry.state
          entry.anchoredOccupiedKey h
        split
        · next heq =>
          rw [heq] at hknown
          exact ih hknown
        · next heq =>
          rw [heq] at hknown
          exact ih hknown

/-- **A true cache gives true cavities**, and stays true, where the measurement
is a function of the key. -/
theorem HonestCavityCache.measureSurvivors (hkeyed : KeyedCavities authority)
    {surviving : List (CapacityEntry heap)} :
    ∀ {cache : IntrinsicCapacityCavityCache F}
      (counters : IntrinsicCapacitySearchCounters), HonestCavityCache authority cache →
      (∀ entry ∈ surviving, entry.state.Built ∧ entry.KeyRight ∧
        (entry.state.placementOrder = [] → entry.CavitiesRight authority)) →
        (∀ entry ∈ (measureSurvivors authority surviving counters cache).1,
          entry.CavitiesRight authority) ∧
          HonestCavityCache authority
            (measureSurvivors authority surviving counters cache).2.2 := by
  induction surviving with
  | nil =>
      intro cache counters h _
      exact ⟨fun _ hentry => absurd hentry List.not_mem_nil, h⟩
  | cons entry surviving ih =>
      intro cache counters h hentries
      obtain ⟨hbuilt, hkey, hempty⟩ := hentries entry List.mem_cons_self
      have hrest : ∀ entry ∈ surviving, entry.state.Built ∧ entry.KeyRight ∧
          (entry.state.placementOrder = [] → entry.CavitiesRight authority) :=
        fun other hother => hentries other (List.mem_cons_of_mem _ hother)
      unfold DepthContext.measureSurvivors
      split
      · next hnone =>
        obtain ⟨hbeam, hcache⟩ := ih counters h hrest
        refine ⟨?_, hcache⟩
        intro other hother
        rcases List.mem_cons.mp hother with rfl | hother
        · exact hempty (List.isEmpty_iff.mp hnone)
        · exact hbeam other hother
      · have hhonest := h.measure hkeyed hbuilt hkey
        have hresult := measureCavities_fst authority entry.state
          entry.anchoredOccupiedKey cache
        split
        · next cavities cache' heq =>
          rw [heq] at hhonest hresult
          obtain ⟨hbeam, hcache⟩ := ih counters hhonest hrest
          refine ⟨?_, hcache⟩
          intro other hother
          rcases List.mem_cons.mp hother with rfl | hother
          · by_cases hplaced : entry.state.placedCollisionGeometries = []
            · rw [hplaced] at hresult
              exact CapacityBeamEntry.cavitiesRight_of_empty hplaced
                (Option.some.inj hresult)
            · rw [if_neg (by rwa [List.isEmpty_iff]),
                h.recall hbuilt hplaced hkey] at hresult
              exact CapacityBeamEntry.cavitiesRight_of_measured hplaced hresult.symm
          · exact hbeam other hother
        · next cache' heq =>
          rw [heq] at hhonest
          exact ih _ hhonest hrest

end PolygonNesting
