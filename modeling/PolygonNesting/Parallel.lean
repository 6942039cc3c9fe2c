import Mathlib.Data.List.Perm.Basic
import Mathlib.Data.List.Range
import Mathlib.Tactic.Common

/-!
# Evaluation over the job pool

A job may own a pool of worker threads.  A batch dispatched to it is computed item
by item in whatever order the workers finish, every result going to the slot of its
item, and the slots are read in order afterwards.  `for_each_chunked_outcome`
dispatches bounded chunks and replays each completely before the next: the replay
owns every effect.

The effects of the closures act on one state `σ`; `compute` is pure.
-/

namespace PolygonNesting

/-! ## §1  The job pool -/

/-- For each dispatch, the order in which the workers finish the items of a batch of
the given length. -/
structure JobPool where
  completionOrder : ℕ → ℕ → List ℕ
  complete : ∀ dispatch length, (completionOrder dispatch length).Perm (List.range length)

/-- A result arrives: it goes to the slot of its item. -/
def fillSlot {T R : Type} (items : List T) (map : T → R) (slots : List (Option R))
    (index : ℕ) : List (Option R) :=
  slots.set index (items[index]?.map map)

/-- `par_iter().map(map).collect()`. -/
def JobPool.collect {T R : Type} (pool : JobPool) (dispatch : ℕ) (items : List T)
    (map : T → R) : List R :=
  ((pool.completionOrder dispatch items.length).foldl (fillSlot items map)
    (List.replicate items.length none)).filterMap id

/-- `map_slice_with_job_pool`: with no pool installed, the serial map. -/
def mapSliceWithJobPool {T R : Type} (pool : Option JobPool) (dispatch : ℕ)
    (items : List T) (map : T → R) : List R :=
  match pool with
  | some pool => pool.collect dispatch items map
  | none => items.map map

section Slots

variable {T R : Type} (items : List T) (map : T → R)

theorem length_foldl_fillSlot (order : List ℕ) : ∀ slots : List (Option R),
    (order.foldl (fillSlot items map) slots).length = slots.length := by
  induction order with
  | nil => intro slots; rfl
  | cons index order ih =>
      intro slots
      rw [List.foldl_cons, ih]
      exact List.length_set

/-- A slot holds the result of its item once the item is finished. -/
theorem getElem?_foldl_fillSlot (order : List ℕ) : ∀ (slots : List (Option R)) (i : ℕ),
    i < slots.length →
      (order.foldl (fillSlot items map) slots)[i]? =
        if i ∈ order then some (items[i]?.map map) else slots[i]? := by
  induction order with
  | nil => intro slots i _; simp
  | cons index order ih =>
      intro slots i hi
      have hlength : (fillSlot items map slots index).length = slots.length :=
        List.length_set
      rw [List.foldl_cons, ih _ i (hlength ▸ hi)]
      by_cases hmem : i ∈ order
      · simp [hmem]
      · by_cases heq : index = i
        · subst heq
          simp [hmem, fillSlot, hi]
        · simp [hmem, fillSlot, Ne.symm heq, List.getElem?_set_ne heq]

/-- The completion order does not matter. -/
theorem JobPool.collect_eq_map (pool : JobPool) (dispatch : ℕ) :
    pool.collect dispatch items map = items.map map := by
  have hslots : (pool.completionOrder dispatch items.length).foldl (fillSlot items map)
      (List.replicate items.length none) = items.map (some ∘ map) := by
    refine List.ext_getElem? fun i => ?_
    by_cases hi : i < items.length
    · rw [getElem?_foldl_fillSlot items map _ _ i (by simpa using hi)]
      have hmem : i ∈ pool.completionOrder dispatch items.length :=
        (pool.complete dispatch items.length).mem_iff.2 (List.mem_range.2 hi)
      simp [hmem, hi]
    · rw [List.getElem?_eq_none, List.getElem?_eq_none]
      · simpa using hi
      · rw [length_foldl_fillSlot]
        simpa using hi
  unfold JobPool.collect
  rw [hslots, ← List.map_map, List.filterMap_map]
  simp

theorem mapSliceWithJobPool_eq_map (pool : Option JobPool) (dispatch : ℕ) :
    mapSliceWithJobPool pool dispatch items map = items.map map := by
  cases pool with
  | none => rfl
  | some pool => exact pool.collect_eq_map items map dispatch

end Slots

/-! ## §2  Chunked compute, ordered replay -/

/-- The closures of a chunked evaluation over items `S` with values `T` and errors
`E`. -/
structure ChunkClosures (S T E σ : Type) where
  chunkCheckpoint : σ → σ × Except E Unit
  compute : S → Except E (Option T)
  beforeEach : S → σ → σ
  replay : S → T → σ → σ

/-- How an evaluation ended: its effects and result, the items `before_each` was
called on, how often the checkpoint ran and which chunks were dispatched. -/
structure ChunkedRun (S E σ : Type) where
  state : σ
  result : Except E Unit
  visited : List S
  checkpoints : ℕ
  dispatched : List (List S)

/-- `items.chunks(size)`, for a positive size. -/
def chunks {S : Type} (size : ℕ) (items : List S) : List (List S) :=
  (List.range ((items.length + size - 1) / size)).map fun index =>
    (items.drop (index * size)).take size

section Chunked

variable {S T E σ : Type} (closures : ChunkClosures S T E σ)

/-- Replay a computed chunk up to its first error: the state, the result and the
items visited. -/
def replayChunk : List (S × Except E (Option T)) → σ → σ × Except E Unit × List S
  | [], state => (state, .ok (), [])
  | (item, outcome) :: rest, state =>
      let state := closures.beforeEach item state
      match outcome with
      | .error error => (state, .error error, [item])
      | .ok none =>
          let (state, result, visited) := replayChunk rest state
          (state, result, item :: visited)
      | .ok (some value) =>
          let (state, result, visited) := replayChunk rest
            (closures.replay item value state)
          (state, result, item :: visited)

def runChunks (pool : Option JobPool) : ℕ → List (List S) → σ → ChunkedRun S E σ
  | _, [], state => ⟨state, .ok (), [], 0, []⟩
  | dispatch, chunk :: rest, state =>
      match closures.chunkCheckpoint state with
      | (state, .error error) => ⟨state, .error error, [], 1, []⟩
      | (state, .ok ()) =>
          let outcomes := mapSliceWithJobPool pool dispatch chunk closures.compute
          match replayChunk closures (chunk.zip outcomes) state with
          | (state, .error error, visited) => ⟨state, .error error, visited, 1, [chunk]⟩
          | (state, .ok (), visited) =>
              let run := runChunks pool (dispatch + 1) rest state
              { run with
                visited := visited ++ run.visited
                checkpoints := run.checkpoints + 1
                dispatched := chunk :: run.dispatched }

/-- `for_each_chunked_outcome`; `none` is the panic of `chunks(0)`. -/
def forEachChunkedOutcome (pool : Option JobPool) (items : List S) (chunkSize : ℕ)
    (state : σ) : Option (ChunkedRun S E σ) :=
  if chunkSize = 0 then none
  else some (runChunks closures pool 0 (chunks chunkSize items) state)

/-- The serial loop from item number `index`: a checkpoint at every multiple of the
chunk size, then the item.  Nothing is dispatched. -/
def serialLoop (chunkSize : ℕ) : ℕ → List S → σ → ChunkedRun S E σ
  | _, [], state => ⟨state, .ok (), [], 0, []⟩
  | index, item :: rest, state =>
      let (state, checkpoint) :=
        if index % chunkSize = 0 then closures.chunkCheckpoint state else (state, .ok ())
      let checkpoints := if index % chunkSize = 0 then 1 else 0
      match checkpoint with
      | .error error => ⟨state, .error error, [], checkpoints, []⟩
      | .ok () =>
          let state := closures.beforeEach item state
          match closures.compute item with
          | .error error => ⟨state, .error error, [item], checkpoints, []⟩
          | .ok value =>
              let run := serialLoop chunkSize (index + 1) rest
                (value.elim state (closures.replay item · state))
              { run with
                visited := item :: run.visited
                checkpoints := run.checkpoints + checkpoints }

/-! ## §3  The chunks -/

omit closures in
theorem chunks_nil {size : ℕ} (hsize : 0 < size) : chunks size ([] : List S) = [] := by
  unfold chunks
  rw [List.length_nil, Nat.zero_add, Nat.div_eq_of_lt (by omega)]
  rfl

omit closures in
theorem chunks_of_ne_nil {size : ℕ} (hsize : 0 < size) {items : List S} (hitems : items ≠ []) :
    chunks size items = items.take size :: chunks size (items.drop size) := by
  have hpos : 0 < items.length := List.length_pos_of_ne_nil hitems
  have hcount : (items.length + size - 1) / size =
      ((items.drop size).length + size - 1) / size + 1 := by
    rw [List.length_drop]
    rcases Nat.le_total items.length size with hle | hle
    · rw [Nat.sub_eq_zero_of_le hle, Nat.zero_add,
        Nat.div_eq_of_lt (show size - 1 < size by omega)]
      refine Nat.div_eq_of_lt_le ?_ ?_
      · omega
      · rw [Nat.zero_add, Nat.add_mul]
        omega
    · have hsplit : items.length + size - 1 = (items.length - size + size - 1) + size := by
        omega
      rw [hsplit, Nat.add_div_right _ hsize]
  unfold chunks
  rw [hcount, List.range_succ_eq_map, List.map_cons, List.map_map, Nat.zero_mul,
    List.drop_zero]
  congr 1
  refine List.map_congr_left fun index _ => ?_
  simp only [Function.comp_apply, List.drop_drop]
  congr 2
  rw [Nat.succ_mul, Nat.add_comm]

/-! ## §4  The chunked run is the serial loop -/

/-- Go on after a replayed chunk, unless it failed. -/
def afterReplay (replayed : σ × Except E Unit × List S) (next : σ → ChunkedRun S E σ) :
    ChunkedRun S E σ :=
  match replayed with
  | (state, .error error, visited) => ⟨state, .error error, visited, 0, []⟩
  | (state, .ok (), visited) =>
      { next state with visited := visited ++ (next state).visited }

omit closures in
theorem afterReplay_cons (replayed : σ × Except E Unit × List S) (item : S)
    (next : σ → ChunkedRun S E σ) :
    afterReplay (replayed.1, replayed.2.1, item :: replayed.2.2) next =
      { afterReplay replayed next with
        visited := item :: (afterReplay replayed next).visited } := by
  rcases replayed with ⟨state, error | _, visited⟩ <;> rfl

theorem replayChunk_cons_ok {item : S} {value : Option T}
    (rest : List (S × Except E (Option T))) (state : σ) :
    replayChunk closures ((item, .ok value) :: rest) state =
      let replayed := replayChunk closures rest
        (value.elim (closures.beforeEach item state)
          (closures.replay item · (closures.beforeEach item state)))
      (replayed.1, replayed.2.1, item :: replayed.2.2) := by
  cases value <;> rfl

/-- Between two checkpoints the serial loop replays what the chunk computed. -/
theorem serialLoop_append {size : ℕ} (rest : List S) (chunk : List S) :
    ∀ (index : ℕ) (state : σ),
      (∀ i < chunk.length, (index + i) % size ≠ 0) →
      serialLoop closures size index (chunk ++ rest) state =
        afterReplay (replayChunk closures (chunk.zip (chunk.map closures.compute)) state)
          (serialLoop closures size (index + chunk.length) rest) := by
  induction chunk with
  | nil =>
      intro index state _
      rfl
  | cons item chunk ih =>
      intro index state hindex
      have hfirst : index % size ≠ 0 := hindex 0 (Nat.zero_lt_succ _)
      have hrest : ∀ i < chunk.length, (index + 1 + i) % size ≠ 0 := by
        intro i hi
        rw [Nat.add_assoc, Nat.add_comm 1 i]
        exact hindex (i + 1) (Nat.succ_lt_succ hi)
      have hlength : index + (item :: chunk).length = index + 1 + chunk.length := by
        rw [List.length_cons]
        omega
      rw [hlength, List.cons_append, List.map_cons, List.zip_cons_cons]
      unfold serialLoop
      simp only [hfirst, if_false]
      cases hcompute : closures.compute item with
      | error error => rfl
      | ok value =>
          rw [replayChunk_cons_ok, afterReplay_cons, ← ih _ _ hrest]
          rfl

/-- A failing checkpoint ends the serial loop. -/
theorem serialLoop_of_cancelled {size index : ℕ} (hindex : index % size = 0)
    {items : List S} (hitems : items ≠ []) {state state' : σ} {error : E}
    (hcheckpoint : closures.chunkCheckpoint state = (state', .error error)) :
    serialLoop closures size index items state = ⟨state', .error error, [], 1, []⟩ := by
  obtain ⟨item, rest, rfl⟩ := List.exists_cons_of_ne_nil hitems
  unfold serialLoop
  simp [hindex, hcheckpoint]

/-- At a checkpoint the serial loop observes it and then replays the chunk. -/
theorem serialLoop_chunk {size index : ℕ} (hindex : index % size = 0) {chunk : List S}
    (hchunk : chunk ≠ []) (hlength : chunk.length ≤ size) (rest : List S)
    {state state' : σ} (hcheckpoint : closures.chunkCheckpoint state = (state', .ok ())) :
    serialLoop closures size index (chunk ++ rest) state =
      { afterReplay
          (replayChunk closures (chunk.zip (chunk.map closures.compute)) state')
          (serialLoop closures size (index + chunk.length) rest) with
        checkpoints := (afterReplay
          (replayChunk closures (chunk.zip (chunk.map closures.compute)) state')
          (serialLoop closures size (index + chunk.length) rest)).checkpoints + 1 } := by
  obtain ⟨item, chunk, rfl⟩ := List.exists_cons_of_ne_nil hchunk
  rw [List.length_cons] at hlength
  have hrest : ∀ i < chunk.length, (index + 1 + i) % size ≠ 0 := by
    intro i hi
    rw [Nat.add_assoc, Nat.add_mod, hindex, Nat.zero_add, Nat.mod_mod,
      Nat.mod_eq_of_lt (by omega)]
    omega
  have hnext : index + (item :: chunk).length = index + 1 + chunk.length := by
    rw [List.length_cons]
    omega
  rw [hnext, List.cons_append, List.map_cons, List.zip_cons_cons]
  conv_lhs => unfold serialLoop
  simp only [hindex, if_true, hcheckpoint]
  cases hcompute : closures.compute item with
  | error error => rfl
  | ok value =>
      simp only [serialLoop_append closures rest chunk _ _ hrest, replayChunk_cons_ok,
        afterReplay_cons]

theorem runChunks_pool (pool : Option JobPool) (rest : List (List S)) :
    ∀ (dispatch : ℕ) (state : σ),
      runChunks closures pool dispatch rest state =
        runChunks closures none dispatch rest state := by
  induction rest with
  | nil => intro dispatch state; rfl
  | cons chunk rest ih =>
      intro dispatch state
      unfold runChunks
      simp only [mapSliceWithJobPool_eq_map, ih]

/-- The chunked run, with or without a pool, is the serial loop. -/
theorem runChunks_eq_serialLoop (pool : Option JobPool) {size : ℕ} (hsize : 0 < size) :
    ∀ (fuel : ℕ) (items : List S) (dispatch index : ℕ) (state : σ),
      items.length ≤ fuel → index % size = 0 →
      { runChunks closures pool dispatch (chunks size items) state with dispatched := [] } =
        serialLoop closures size index items state := by
  intro fuel
  induction fuel with
  | zero =>
      intro items dispatch index state hfuel _
      rw [List.length_eq_zero_iff.1 (Nat.le_zero.1 hfuel), chunks_nil hsize]
      rfl
  | succ fuel ih =>
      intro items dispatch index state hfuel hindex
      by_cases hitems : items = []
      · rw [hitems, chunks_nil hsize]
        rfl
      have hpos : 0 < items.length := List.length_pos_of_ne_nil hitems
      have htake : items.take size ≠ [] := by
        rw [← List.length_pos_iff, List.length_take]
        omega
      rw [chunks_of_ne_nil hsize hitems]
      unfold runChunks
      rw [mapSliceWithJobPool_eq_map]
      rcases hcheckpoint : closures.chunkCheckpoint state with ⟨state', error | _⟩
      · rw [serialLoop_of_cancelled closures hindex hitems hcheckpoint]
      · have hserial := serialLoop_chunk closures hindex htake (List.length_take_le _ _)
          (items.drop size) hcheckpoint
        rw [List.take_append_drop] at hserial
        rw [hserial]
        dsimp only
        rcases replayChunk closures
          ((items.take size).zip ((items.take size).map closures.compute)) state' with
          ⟨state, error | _, visited⟩
        · rfl
        · -- a full chunk ends at the next multiple; after a short one nothing is left
          have hnext : { runChunks closures pool (dispatch + 1)
                (chunks size (items.drop size)) state with dispatched := [] } =
              serialLoop closures size (index + (items.take size).length)
                (items.drop size) state := by
            rcases Nat.le_total size items.length with hle | hle
            · refine ih _ _ _ _ (by rw [List.length_drop]; omega) ?_
              rw [List.length_take, Nat.min_eq_left hle, Nat.add_mod_right, hindex]
            · rw [List.drop_eq_nil_of_le hle, chunks_nil hsize]
              rfl
          simp only [afterReplay, ← hnext]

/-! ## §5  What is visited and dispatched -/

/-- How a run over `items` may end: after the last item; at a failing checkpoint; or
at the first item whose evaluation fails, which is visited last. -/
inductive EndsInOrder (items : List S) (run : ChunkedRun S E σ) : Prop where
  | completed (result : run.result = .ok ()) (all : run.visited = items)
      (evaluated : ∀ item ∈ run.visited, ∃ value, closures.compute item = .ok value)
      (checkpoints : run.checkpoints = run.dispatched.length)
  | cancelled (state : σ) (error : E)
      (checkpoint : closures.chunkCheckpoint state = (run.state, .error error))
      (result : run.result = .error error)
      (evaluated : ∀ item ∈ run.visited, ∃ value, closures.compute item = .ok value)
      (checkpoints : run.checkpoints = run.dispatched.length + 1)
  | failed (before : List S) (item : S) (error : E)
      (visited : run.visited = before ++ [item])
      (failure : closures.compute item = .error error)
      (result : run.result = .error error)
      (evaluated : ∀ earlier ∈ before, ∃ value, closures.compute earlier = .ok value)
      (checkpoints : run.checkpoints = run.dispatched.length)

/-- The items visited are the first ones; the chunks dispatched are the first ones,
just enough to hold them. -/
structure OrderedReplay (size : ℕ) (items : List S) (run : ChunkedRun S E σ) : Prop where
  visited : run.visited <+: items
  dispatched : run.dispatched = (chunks size items).take run.dispatched.length
  enough : run.dispatched.length = (run.visited.length + size - 1) / size
  ends : EndsInOrder closures items run

/-- A replayed chunk: everything is visited, or all up to the first failure. -/
theorem replayChunk_cases (chunk : List S) : ∀ state : σ,
    (∃ state', replayChunk closures (chunk.zip (chunk.map closures.compute)) state =
        (state', .ok (), chunk) ∧
      ∀ item ∈ chunk, ∃ value, closures.compute item = .ok value) ∨
    (∃ state' error before item after,
      replayChunk closures (chunk.zip (chunk.map closures.compute)) state =
        (state', .error error, before ++ [item]) ∧
      chunk = before ++ item :: after ∧ closures.compute item = .error error ∧
      ∀ earlier ∈ before, ∃ value, closures.compute earlier = .ok value) := by
  induction chunk with
  | nil => exact fun state => .inl ⟨state, rfl, by simp⟩
  | cons item chunk ih =>
      intro state
      rw [List.map_cons, List.zip_cons_cons]
      cases hcompute : closures.compute item with
      | error error =>
          exact .inr ⟨_, error, [], item, chunk, rfl, rfl, hcompute, by simp⟩
      | ok value =>
          rw [replayChunk_cons_ok]
          rcases ih (value.elim (closures.beforeEach item state)
              (closures.replay item · (closures.beforeEach item state))) with
            ⟨state', hreplay, hall⟩ | ⟨state', error, before, bad, after, hreplay, hsplit, hbad,
              hbefore⟩
          · refine .inl ⟨state', by rw [hreplay], ?_⟩
            exact List.forall_mem_cons.2 ⟨⟨value, hcompute⟩, hall⟩
          · refine .inr ⟨state', error, item :: before, bad, after, by rw [hreplay]; rfl,
              by rw [hsplit]; rfl, hbad, ?_⟩
            exact List.forall_mem_cons.2 ⟨⟨value, hcompute⟩, hbefore⟩

omit closures in
/-- A number of items that fills at most one chunk needs one chunk. -/
theorem chunkCount_of_le {size count : ℕ} (hpos : 0 < count) (hle : count ≤ size) :
    (count + size - 1) / size = 1 := by
  refine Nat.div_eq_of_lt_le ?_ ?_ <;> omega

theorem runChunks_orderedReplay (pool : Option JobPool) {size : ℕ} (hsize : 0 < size) :
    ∀ (fuel : ℕ) (items : List S) (dispatch : ℕ) (state : σ), items.length ≤ fuel →
      OrderedReplay closures size items
        (runChunks closures pool dispatch (chunks size items) state) := by
  have hnone : (0 + size - 1) / size = 0 := Nat.div_eq_of_lt (by omega)
  intro fuel
  induction fuel with
  | zero =>
      intro items dispatch state hfuel
      rw [List.length_eq_zero_iff.1 (Nat.le_zero.1 hfuel), chunks_nil hsize]
      exact ⟨List.prefix_refl _, rfl, hnone.symm, .completed rfl rfl (by simp [runChunks]) rfl⟩
  | succ fuel ih =>
      intro items dispatch state hfuel
      by_cases hitems : items = []
      · rw [hitems]
        exact ih [] dispatch state (Nat.zero_le _)
      have hpos : 0 < items.length := List.length_pos_of_ne_nil hitems
      have hchunk : (items.take size).length = min size items.length := List.length_take
      rw [chunks_of_ne_nil hsize hitems]
      unfold runChunks
      rw [mapSliceWithJobPool_eq_map]
      rcases hcheckpoint : closures.chunkCheckpoint state with ⟨state', error | _⟩
      · exact ⟨List.nil_prefix, rfl, hnone.symm,
          .cancelled state error hcheckpoint rfl (by simp) rfl⟩
      · rcases replayChunk_cases closures (items.take size) state' with
          ⟨state'', hreplay, hall⟩ | ⟨state'', error, before, item, after, hreplay, hsplit,
            hfailure, hbefore⟩
        · simp only [hreplay]
          have law := ih (items.drop size) (dispatch + 1) state''
            (by rw [List.length_drop]; omega)
          generalize runChunks closures pool (dispatch + 1) (chunks size (items.drop size))
            state'' = run at law ⊢
          refine ⟨?_, ?_, ?_, ?_⟩
          · conv_rhs => rw [← List.take_append_drop size items]
            exact (List.prefix_append_right_inj _).2 law.visited
          · rw [chunks_of_ne_nil hsize hitems]
            exact congrArg (List.cons _) law.dispatched
          · show run.dispatched.length + 1 = _
            rw [law.enough, List.length_append, hchunk]
            rcases Nat.le_total size items.length with hle | hle
            · rw [Nat.min_eq_left hle, ← Nat.add_div_right _ hsize]
              congr 1
              omega
            · have hvisited := law.visited
              rw [List.drop_eq_nil_of_le hle] at hvisited
              rw [List.prefix_nil.1 hvisited, List.length_nil, Nat.min_eq_right hle, hnone]
              exact (chunkCount_of_le hpos hle).symm
          · cases law.ends with
            | completed hresult hvisited hevaluated hcheckpoints =>
                refine .completed hresult ?_ ?_ ?_
                · show items.take size ++ run.visited = items
                  rw [hvisited, List.take_append_drop]
                · exact List.forall_mem_append.2 ⟨hall, hevaluated⟩
                · exact congrArg Nat.succ hcheckpoints
            | cancelled state error hcancelled hresult hevaluated hcheckpoints =>
                exact .cancelled state error hcancelled hresult
                  (List.forall_mem_append.2 ⟨hall, hevaluated⟩)
                  (congrArg Nat.succ hcheckpoints)
            | failed before item error hvisited hfailure hresult hevaluated hcheckpoints =>
                refine .failed (items.take size ++ before) item error ?_ hfailure hresult
                  (List.forall_mem_append.2 ⟨hall, hevaluated⟩)
                  (congrArg Nat.succ hcheckpoints)
                show items.take size ++ run.visited = _
                rw [hvisited, List.append_assoc]
        · simp only [hreplay]
          have hvisited : before ++ [item] <+: items.take size :=
            ⟨after, by rw [hsplit, List.append_assoc]; rfl⟩
          have hlength := hvisited.length_le
          rw [List.length_append, List.length_singleton] at hlength
          refine ⟨hvisited.trans (List.take_prefix _ _), ?_, ?_,
            .failed before item error rfl hfailure rfl hbefore rfl⟩
          · rw [chunks_of_ne_nil hsize hitems]
            rfl
          · rw [List.length_append]
            have hfits : before.length + 1 ≤ size := by omega
            exact (chunkCount_of_le (Nat.succ_pos _) hfits).symm

end Chunked

-- the third of five items fails: two chunks are dispatched, the last one is not
example :
    let closures : ChunkClosures ℕ ℕ String (List ℕ) :=
      { chunkCheckpoint := fun log => (log, .ok ())
        compute := fun item => if item = 3 then .error "three" else .ok (some (10 * item))
        beforeEach := fun item log => log ++ [item]
        replay := fun _ value log => log ++ [value] }
    (forEachChunkedOutcome closures none [1, 2, 3, 4, 5] 2 []).map
        (fun run => (run.state, run.checkpoints, run.dispatched)) =
      some ([1, 10, 2, 20, 3], 2, [[1, 2], [3, 4]]) := by
  decide

end PolygonNesting
