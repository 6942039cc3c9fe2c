import Mathlib.Data.List.Perm.Subperm
import PolygonNesting.Lib.LinkedChain

/-!
# The recency list of the geometry cache

The store threads its entries on a doubly linked list kept in a slab: a vector
of optional nodes, a head, a tail and a stack of free slots.  The source holds
these as four fields of the store; they form a record of their own here, since
no method of the list touches anything else.

Every `expect` and every index of the source is a place where a method may
return `none`.  `Lists r o` says that `r` holds exactly the list `o` of slots
and keys, and each method has one specification in terms of it; in particular
no `expect` fires on a list that is held.
-/

namespace PolygonNesting.Caches

open LinkedChain

structure RecencyNode where
  key : String
  previous : Option ℕ
  next : Option ℕ
  deriving DecidableEq

/-- The recency fields of the store; `free` has the top of the stack first. -/
structure RecencyList where
  nodes : List (Option RecencyNode)
  head : Option ℕ
  tail : Option ℕ
  free : List ℕ
  deriving DecidableEq

namespace RecencyList

def empty : RecencyList := ⟨[], none, none, []⟩

/-! ## §1  The methods -/

/-- The node in a slot, `none` where the source's `expect` fires. -/
def node (r : RecencyList) (i : ℕ) : Option RecencyNode := (r.nodes[i]?).join

def setNode (r : RecencyList) (i : ℕ) (n : Option RecencyNode) :
    Option RecencyList :=
  if i < r.nodes.length then some { r with nodes := r.nodes.set i n } else none

def modifyNode (r : RecencyList) (i : ℕ) (f : RecencyNode → RecencyNode) :
    Option RecencyList := do
  let n ← r.node i
  r.setNode i (some (f n))

/-- Point the predecessor, or else the head, at `next`. -/
def redirectNext (r : RecencyList) (previous next : Option ℕ) :
    Option RecencyList :=
  match previous with
  | some p => r.modifyNode p fun n => { n with next := next }
  | none => some { r with head := next }

/-- Point the successor, or else the tail, back at `previous`. -/
def redirectPrevious (r : RecencyList) (next previous : Option ℕ) :
    Option RecencyList :=
  match next with
  | some n => r.modifyNode n fun n => { n with previous := previous }
  | none => some { r with tail := previous }

def detachRecencyNode (r : RecencyList) (i : ℕ) : Option RecencyList := do
  let n ← r.node i
  let r ← r.redirectNext n.previous n.next
  let r ← r.redirectPrevious n.next n.previous
  r.modifyNode i fun n => { n with previous := none, next := none }

def appendRecencyNode (r : RecencyList) (i : ℕ) : Option RecencyList := do
  let previousTail := r.tail
  let r ← r.modifyNode i fun n =>
    { n with previous := previousTail, next := none }
  let r ← r.redirectNext previousTail (some i)
  some { r with tail := some i }

def removeRecencyNode (r : RecencyList) (i : ℕ) : Option RecencyList := do
  let r ← r.detachRecencyNode i
  let r ← r.setNode i none
  some { r with free := i :: r.free }

/-- Takes a free slot, or a new one, and appends the key there. -/
def insertRecencyNode (r : RecencyList) (key : String) :
    Option (RecencyList × ℕ) := do
  let n : RecencyNode := ⟨key, none, none⟩
  match r.free with
  | i :: free =>
      let r ← { r with free := free }.setNode i (some n)
      let r ← r.appendRecencyNode i
      some (r, i)
  | [] =>
      let i := r.nodes.length
      let r ← { r with nodes := r.nodes ++ [some n] }.appendRecencyNode i
      some (r, i)

/-- The part of `touch` that moves a node to the tail. -/
def touchNode (r : RecencyList) (i : ℕ) : Option RecencyList :=
  if r.tail = some i then some r
  else do
    let r ← r.detachRecencyNode i
    r.appendRecencyNode i

/-- The loop of `compact_retained_storage` that collects the keys in order,
run for at most `fuel` nodes. -/
def orderedKeys (r : RecencyList) : ℕ → Option ℕ → Option (List String)
  | _, none => some []
  | 0, some _ => none
  | fuel + 1, some i => do
      let n ← r.node i
      let keys ← r.orderedKeys fuel n.next
      some (n.key :: keys)

/-- The slab that compaction builds from the keys in order. -/
def compacted (keys : List String) : RecencyList where
  nodes := keys.mapIdx fun i key =>
    some ⟨key, if i = 0 then none else some (i - 1),
      if i + 1 < keys.length then some (i + 1) else none⟩
  head := if 0 < keys.length then some 0 else none
  tail := if keys.length = 0 then none else some (keys.length - 1)
  free := []

/-! ## §2  What the slab holds -/

/-- The node of a slot as a cell of a linked chain. -/
def cells (r : RecencyList) (i : ℕ) : Option (Cell ℕ String) :=
  (r.node i).map fun n => ⟨n.key, n.previous, n.next⟩

/-- The slab with the given links, apart from which slots are free. -/
structure Linked (r : RecencyList) (o : List (ℕ × String)) : Prop where
  nodup : (o.map Prod.fst).Nodup
  chain : Segment r.cells none o none
  head : r.head = firstPtr o
  tail : r.tail = lastPtr o

/-- The free slots are dead slots of the slab. -/
structure FreeDead (r : RecencyList) : Prop where
  nodup : r.free.Nodup
  dead : ∀ i ∈ r.free, r.nodes[i]? = some none

/-- **The list the slab holds**: the slots in order of use, with their keys. -/
structure Lists (r : RecencyList) (o : List (ℕ × String)) : Prop where
  linked : r.Linked o
  free : r.FreeDead

theorem cells_eq_some {r : RecencyList} {i : ℕ} {c : Cell ℕ String} :
    r.cells i = some c ↔
      r.nodes[i]? = some (some ⟨c.payload, c.previous, c.next⟩) := by
  unfold cells node
  rcases h : r.nodes[i]? with _ | _ | n
  · simp
  · simp
  · cases n
    cases c
    simp

theorem lt_of_cells {r : RecencyList} {i : ℕ} {c : Cell ℕ String}
    (h : r.cells i = some c) : i < r.nodes.length := by
  rw [cells_eq_some] at h
  exact (List.getElem?_eq_some_iff.mp h).1

theorem node_of_cells {r : RecencyList} {i : ℕ} {c : Cell ℕ String}
    (h : r.cells i = some c) : r.node i = some ⟨c.payload, c.previous, c.next⟩ := by
  rw [cells_eq_some] at h
  simp [node, h]

theorem Linked.cell {r : RecencyList} {o : List (ℕ × String)} (h : r.Linked o)
    {i : ℕ} (hi : i ∈ o.map Prod.fst) : ∃ c, r.cells i = some c := by
  obtain ⟨x, hx, rfl⟩ := List.mem_map.mp hi
  obtain ⟨c, hc, -⟩ := h.chain.cell hx
  exact ⟨c, hc⟩

theorem FreeDead.not_mem {r : RecencyList} (h : r.FreeDead) {i : ℕ}
    {c : Cell ℕ String} (hc : r.cells i = some c) : i ∉ r.free := by
  intro hi
  rw [cells_eq_some, h.dead i hi] at hc
  simp at hc

/-! ## §3  One specification for each method -/

/-- What rewriting a live node keeps: everything but the links. -/
structure Relinks (r r' : RecencyList)
    (cells' : ℕ → Option (Cell ℕ String)) : Prop where
  cells : r'.cells = cells'
  free : r'.free = r.free
  dead : ∀ i : ℕ, r.nodes[i]? = some none → r'.nodes[i]? = some none

theorem Relinks.freeDead {r r' : RecencyList}
    {cells' : ℕ → Option (Cell ℕ String)} (h : Relinks r r' cells')
    (hf : r.FreeDead) : r'.FreeDead :=
  ⟨h.free ▸ hf.nodup, fun i hi => h.dead i (hf.dead i (h.free ▸ hi))⟩

theorem modifyNode_spec {r : RecencyList} {i : ℕ} {c : Cell ℕ String}
    (h : r.cells i = some c) (f : RecencyNode → RecencyNode)
    (g : Cell ℕ String → Cell ℕ String)
    (hfg : ∀ n : RecencyNode, (⟨(f n).key, (f n).previous, (f n).next⟩ :
      Cell ℕ String) = g ⟨n.key, n.previous, n.next⟩) :
    ∃ r', r.modifyNode i f = some r' ∧ r'.head = r.head ∧ r'.tail = r.tail ∧
      Relinks r r' (LinkedChain.modify r.cells i g) := by
  have hlt := lt_of_cells h
  have hnode := node_of_cells h
  refine ⟨{ r with nodes := r.nodes.set i (some (f ⟨c.payload, c.previous,
    c.next⟩)) }, ?_, rfl, rfl, ?_, rfl, ?_⟩
  · simp [modifyNode, hnode, setNode, hlt]
  · funext j
    unfold LinkedChain.modify
    by_cases hj : j = i
    · subst hj
      rw [Function.update_self, h]
      simp [cells, node, hlt, hfg]
    · rw [Function.update_of_ne hj]
      simp [cells, node, List.getElem?_set_ne (Ne.symm hj)]
  · intro j hj
    have hne : i ≠ j := by
      rintro rfl
      rw [cells_eq_some, hj] at h
      simp at h
    simpa [List.getElem?_set_ne hne] using hj

theorem redirectNext_spec {r : RecencyList} {p : Option ℕ} (q : Option ℕ)
    (h : ∀ i, p = some i → ∃ c, r.cells i = some c) :
    ∃ r', r.redirectNext p q = some r' ∧
      r'.head = (if p = none then q else r.head) ∧ r'.tail = r.tail ∧
      Relinks r r' (setNext r.cells p q) := by
  cases p with
  | none => exact ⟨{ r with head := q }, rfl, rfl, rfl, rfl, rfl, fun _ => id⟩
  | some i =>
      obtain ⟨c, hc⟩ := h i rfl
      obtain ⟨r', he, hh, ht, hr⟩ := modifyNode_spec hc
        (fun n => { n with next := q }) (fun c => { c with next := q })
        (fun _ => rfl)
      exact ⟨r', he, hh, ht, hr⟩

theorem redirectPrevious_spec {r : RecencyList} {q : Option ℕ} (p : Option ℕ)
    (h : ∀ i, q = some i → ∃ c, r.cells i = some c) :
    ∃ r', r.redirectPrevious q p = some r' ∧ r'.head = r.head ∧
      r'.tail = (if q = none then p else r.tail) ∧
      Relinks r r' (setPrevious r.cells q p) := by
  cases q with
  | none => exact ⟨{ r with tail := p }, rfl, rfl, rfl, rfl, rfl, fun _ => id⟩
  | some i =>
      obtain ⟨c, hc⟩ := h i rfl
      obtain ⟨r', he, hh, ht, hr⟩ := modifyNode_spec hc
        (fun n => { n with previous := p }) (fun c => { c with previous := p })
        (fun _ => rfl)
      exact ⟨r', he, hh, ht, hr⟩

/-- **Detaching** takes one slot out of the order and leaves its node live. -/
theorem detachRecencyNode_spec {r : RecencyList} {xs ys : List (ℕ × String)}
    {x : ℕ × String} (h : r.Lists (xs ++ x :: ys)) :
    ∃ r', r.detachRecencyNode x.1 = some r' ∧ r'.Lists (xs ++ ys) ∧
      r'.cells x.1 = some ⟨x.2, none, none⟩ ∧ r'.free = r.free := by
  have hl := h.linked
  have hsplit := segment_append.mp hl.chain
  have hx : r.cells x.1 = some ⟨x.2, lastPtr xs, firstPtr ys⟩ := by
    simpa using hsplit.2.1
  have hmem : ∀ i, i ∈ xs.map Prod.fst ∨ i ∈ ys.map Prod.fst →
      ∃ c, r.cells i = some c := fun i hi => hl.cell (by
    rw [List.map_append, List.map_cons, List.mem_append, List.mem_cons]
    exact hi.imp_right .inr)
  have hnx := not_mem_left hl.nodup
  have hny := not_mem_right hl.nodup
  have hnd : ((xs ++ ys).map Prod.fst).Nodup := hl.nodup.sublist
    ((List.Sublist.append_left (List.sublist_cons_self x ys) xs).map _)
  -- the two neighbours, or head and tail, are redirected one after the other
  obtain ⟨r₁, he₁, hh₁, ht₁, hr₁⟩ := redirectNext_spec (r := r)
    (p := lastPtr xs) (firstPtr ys)
    fun i hi => hmem i (.inl (mem_of_lastPtr hi))
  have hcell₁ : ∀ i, firstPtr ys = some i → ∃ c, r₁.cells i = some c := by
    intro i hi
    obtain ⟨c, hc⟩ := hmem i (.inr (mem_of_firstPtr hi))
    rw [hr₁.cells]
    by_cases hli : lastPtr xs = some i
    · exact ⟨_, by simp [setNext, hli, LinkedChain.modify, hc]; rfl⟩
    · exact ⟨c, by rw [setNext_of_ne _ hli, hc]⟩
  obtain ⟨r₂, he₂, hh₂, ht₂, hr₂⟩ := redirectPrevious_spec (r := r₁)
    (q := firstPtr ys) (lastPtr xs) hcell₁
  have hx₂ : r₂.cells x.1 = some ⟨x.2, lastPtr xs, firstPtr ys⟩ := by
    rw [hr₂.cells, setPrevious_of_ne _ fun hf => hny (mem_of_firstPtr hf),
      hr₁.cells, setNext_of_ne _ fun hp => hnx (mem_of_lastPtr hp), hx]
  obtain ⟨r₃, he₃, hh₃, ht₃, hr₃⟩ := modifyNode_spec hx₂
    (fun n => { n with previous := none, next := none })
    (fun c => { c with previous := none, next := none }) (fun _ => rfl)
  have hchain₂ : Segment r₂.cells none (xs ++ ys) none := by
    rw [hr₂.cells, hr₁.cells]
    exact hl.chain.unlink hl.nodup
  refine ⟨r₃, ?_, ⟨⟨hnd, hchain₂.congr ?_, ?_, ?_⟩,
    hr₃.freeDead (hr₂.freeDead (hr₁.freeDead h.free))⟩, ?_, ?_⟩
  · simp only [detachRecencyNode, node_of_cells hx, he₁, he₂, he₃,
      Option.bind_eq_bind, Option.bind_some]
  · intro i hi
    rw [hr₃.cells]
    refine Function.update_of_ne ?_ _ _
    rintro rfl
    rw [List.map_append, List.mem_append] at hi
    exact hi.elim hnx hny
  · rw [hh₃, hh₂, hh₁, hl.head, firstPtr_append, firstPtr_append]
    rcases List.eq_nil_or_concat' xs with rfl | ⟨zs, z, rfl⟩
    · simp
    · simp only [lastPtr_concat, reduceCtorEq, if_false, firstPtr_append,
        firstPtr_cons]
      cases firstPtr zs <;> rfl
  · rw [ht₃, ht₂, ht₁, hl.tail, lastPtr_append, lastPtr_append, lastPtr_cons]
    cases ys with
    | nil => simp
    | cons y ys =>
        simp only [firstPtr_cons, reduceCtorEq, if_false, lastPtr_cons]
        cases lastPtr ys <;> rfl
  · rw [hr₃.cells, LinkedChain.modify, Function.update_self, hx₂]
    rfl
  · rw [hr₃.free, hr₂.free, hr₁.free]

/-- **Appending** a live slot that is not in the order puts it last. -/
theorem appendRecencyNode_spec {r : RecencyList} {o : List (ℕ × String)}
    {x : ℕ × String} (h : r.Lists o) (hx : x.1 ∉ o.map Prod.fst)
    {c : Cell ℕ String} (hc : r.cells x.1 = some c) (hk : c.payload = x.2) :
    ∃ r', r.appendRecencyNode x.1 = some r' ∧ r'.Lists (o ++ [x]) := by
  have hl := h.linked
  have hnd : ((o ++ [x]).map Prod.fst).Nodup := by
    rw [List.map_append]
    exact List.nodup_append.mpr ⟨hl.nodup, by simp, by
      rintro i hi j hj rfl
      obtain rfl : i = x.1 := by simpa using hj
      exact hx hi⟩
  obtain ⟨r₁, he₁, hh₁, ht₁, hr₁⟩ := modifyNode_spec hc
    (fun n => { n with previous := r.tail, next := none })
    (fun c => { c with previous := r.tail, next := none }) (fun _ => rfl)
  have hx₁ : r₁.cells x.1 = some ⟨x.2, lastPtr o, none⟩ := by
    rw [hr₁.cells, LinkedChain.modify, Function.update_self, hc, ← hl.tail, ← hk]
    rfl
  have hframe : ∀ i ∈ o.map Prod.fst, r₁.cells i = r.cells i := by
    intro i hi
    rw [hr₁.cells]
    exact Function.update_of_ne (by rintro rfl; exact hx hi) _ _
  have hchain₁ : Segment r₁.cells none o none := hl.chain.congr hframe
  obtain ⟨r₂, he₂, hh₂, ht₂, hr₂⟩ := redirectNext_spec (r := r₁)
    (p := lastPtr o) (some x.1) fun i hi => by
      rw [hframe i (mem_of_lastPtr hi)]
      exact hl.cell (mem_of_lastPtr hi)
  refine ⟨{ r₂ with tail := some x.1 }, ?_, ⟨⟨hnd, ?_, ?_, ?_⟩, ?_⟩⟩
  · rw [hl.tail] at he₁
    simp only [appendRecencyNode, hl.tail, he₁, Option.bind_eq_bind,
      Option.bind_some, he₂]
  · have := hchain₁.link hnd hx₁
    rw [← hr₂.cells] at this
    exact this
  · show r₂.head = _
    rw [hh₂, hh₁, hl.head, firstPtr_append]
    rcases List.eq_nil_or_concat' o with rfl | ⟨zs, z, rfl⟩
    · simp
    · simp only [lastPtr_concat, reduceCtorEq, if_false, firstPtr_append,
        firstPtr_cons]
      cases firstPtr zs <;> rfl
  · simp
  · have hfd := hr₂.freeDead (hr₁.freeDead h.free)
    exact ⟨hfd.nodup, hfd.dead⟩

theorem touchNode_spec {r : RecencyList} {xs ys : List (ℕ × String)}
    {x : ℕ × String} (h : r.Lists (xs ++ x :: ys)) :
    ∃ r', r.touchNode x.1 = some r' ∧ r'.Lists (xs ++ ys ++ [x]) := by
  unfold touchNode
  split
  · next ht =>
    -- the node is the tail already, so nothing follows it
    obtain rfl : ys = [] := by
      rw [h.linked.tail, lastPtr_append, lastPtr_cons] at ht
      rcases List.eq_nil_or_concat' ys with rfl | ⟨zs, z, rfl⟩
      · rfl
      · rw [lastPtr_concat] at ht
        have hz : z.1 = x.1 := by simpa using ht
        exact absurd (by simp [← hz]) (not_mem_right h.linked.nodup)
    exact ⟨r, rfl, by simpa using h⟩
  · obtain ⟨r₁, he, hl, hc, -⟩ := detachRecencyNode_spec h
    have hn : x.1 ∉ (xs ++ ys).map Prod.fst := by
      rw [List.map_append, List.mem_append]
      exact not_or.mpr ⟨not_mem_left h.linked.nodup, not_mem_right h.linked.nodup⟩
    obtain ⟨r₂, he₂, hl₂⟩ := appendRecencyNode_spec hl hn hc rfl
    exact ⟨r₂, by simp only [he, Option.bind_eq_bind, Option.bind_some, he₂], hl₂⟩

theorem removeRecencyNode_spec {r : RecencyList} {xs ys : List (ℕ × String)}
    {x : ℕ × String} (h : r.Lists (xs ++ x :: ys)) :
    ∃ r', r.removeRecencyNode x.1 = some r' ∧ r'.Lists (xs ++ ys) := by
  obtain ⟨r₁, he, hl, hc, hfree⟩ := detachRecencyNode_spec h
  have hlt := lt_of_cells hc
  have hn : ∀ i ∈ (xs ++ ys).map Prod.fst, i ≠ x.1 := by
    rintro i hi rfl
    rw [List.map_append, List.mem_append] at hi
    exact hi.elim (not_mem_left h.linked.nodup) (not_mem_right h.linked.nodup)
  refine ⟨{ r₁ with nodes := r₁.nodes.set x.1 none, free := x.1 :: r₁.free },
    by simp [removeRecencyNode, he, setNode, hlt], ⟨⟨hl.linked.nodup, ?_,
      hl.linked.head, hl.linked.tail⟩, ⟨?_, ?_⟩⟩⟩
  · refine hl.linked.chain.congr fun i hi => ?_
    simp [cells, node, List.getElem?_set_ne (hn i hi).symm]
  · exact List.nodup_cons.mpr ⟨hl.free.not_mem hc, hl.free.nodup⟩
  · intro i hi
    rcases List.mem_cons.mp hi with rfl | hi
    · simp [hlt]
    · have hne : x.1 ≠ i := by
        rintro rfl
        exact hl.free.not_mem hc hi
      simpa [List.getElem?_set_ne hne] using hl.free.dead i hi

theorem insertRecencyNode_spec {r : RecencyList} {o : List (ℕ × String)}
    (h : r.Lists o) (key : String) :
    ∃ r' i, r.insertRecencyNode key = some (r', i) ∧
      r'.Lists (o ++ [(i, key)]) ∧ i ∉ o.map Prod.fst := by
  have hl := h.linked
  unfold insertRecencyNode
  cases hfree : r.free with
  | cons i free =>
      have hdead := h.free.dead i (by simp [hfree])
      have hlt : i < r.nodes.length := (List.getElem?_eq_some_iff.mp hdead).1
      have hi : i ∉ o.map Prod.fst := by
        intro hi
        obtain ⟨c, hc⟩ := hl.cell hi
        rw [cells_eq_some, hdead] at hc
        simp at hc
      have hnd := h.free.nodup
      rw [hfree, List.nodup_cons] at hnd
      have hl₁ : RecencyList.Lists { r with
          nodes := r.nodes.set i (some ⟨key, none, none⟩), free := free } o := by
        refine ⟨⟨hl.nodup, ?_, hl.head, hl.tail⟩, hnd.2, ?_⟩
        · refine hl.chain.congr fun j hj => ?_
          have hne : i ≠ j := by rintro rfl; exact hi hj
          simp [cells, node, List.getElem?_set_ne hne]
        · intro j hj
          have hne : i ≠ j := by rintro rfl; exact hnd.1 hj
          simpa [List.getElem?_set_ne hne] using
            h.free.dead j (by simp [hfree, hj])
      obtain ⟨r₂, he, hl₂⟩ := appendRecencyNode_spec (x := (i, key)) hl₁ hi
        (c := ⟨key, none, none⟩) (by simp [cells_eq_some, hlt]) rfl
      exact ⟨r₂, i, by simp [setNode, hlt, he], hl₂, hi⟩
  | nil =>
      have hi : r.nodes.length ∉ o.map Prod.fst := by
        intro hi
        obtain ⟨c, hc⟩ := hl.cell hi
        exact absurd (lt_of_cells hc) (Nat.lt_irrefl _)
      have hl₁ : RecencyList.Lists { r with
          nodes := r.nodes ++ [some ⟨key, none, none⟩] } o := by
        refine ⟨⟨hl.nodup, ?_, hl.head, hl.tail⟩, h.free.nodup, ?_⟩
        · refine hl.chain.congr fun j hj => ?_
          obtain ⟨c, hc⟩ := hl.cell hj
          have hlt := lt_of_cells hc
          simp [cells, node, List.getElem?_append_left hlt]
        · intro j hj
          rw [hfree] at hj
          simp at hj
      obtain ⟨r₂, he, hl₂⟩ := appendRecencyNode_spec
        (x := (r.nodes.length, key)) hl₁ hi (c := ⟨key, none, none⟩)
        (by simp [cells_eq_some]) rfl
      rw [hfree] at he
      exact ⟨r₂, r.nodes.length, by simp [he], hl₂, hi⟩

theorem orderedKeys_segment {r : RecencyList} :
    ∀ {o : List (ℕ × String)} {p : Option ℕ} {fuel : ℕ},
      Segment r.cells p o none → o.length ≤ fuel →
      r.orderedKeys fuel (firstPtr o) = some (o.map Prod.snd)
  | [], _, fuel, _, _ => by cases fuel <;> rfl
  | x :: o, p, 0, _, h => by simp at h
  | x :: o, p, fuel + 1, hs, h => by
      have hnode := node_of_cells hs.1
      have ih : r.orderedKeys fuel (firstPtr o) = some (o.map Prod.snd) :=
        orderedKeys_segment hs.2 (by simpa using h)
      simp [orderedKeys, hnode, ih]

theorem Linked.length_le {r : RecencyList} {o : List (ℕ × String)}
    (h : r.Linked o) : o.length ≤ r.nodes.length := by
  have hsub : o.map Prod.fst ⊆ List.range r.nodes.length := by
    intro i hi
    obtain ⟨c, hc⟩ := h.cell hi
    exact List.mem_range.mpr (lt_of_cells hc)
  simpa using (h.nodup.subperm hsub).length_le

theorem orderedKeys_spec {r : RecencyList} {o : List (ℕ × String)}
    (h : r.Linked o) :
    r.orderedKeys r.nodes.length r.head = some (o.map Prod.snd) := by
  rw [h.head]
  exact orderedKeys_segment h.chain h.length_le

/-- The order of a compacted slab: slot `i` holds the `i`-th key. -/
def compactedOrder (keys : List String) : List (ℕ × String) :=
  keys.mapIdx fun i key => (i, key)

theorem compacted_cells {keys : List String} {i : ℕ} {key : String}
    (h : keys[i]? = some key) :
    (compacted keys).cells i = some ⟨key, if i = 0 then none else some (i - 1),
      if i + 1 < keys.length then some (i + 1) else none⟩ := by
  rw [cells_eq_some]
  simp [compacted, h]

theorem compacted_segment (keys : List String) :
    ∀ (rest : List String) (i : ℕ), keys.drop i = rest →
      Segment (compacted keys).cells (if i = 0 then none else some (i - 1))
        (rest.mapIdx fun j key => (i + j, key)) none
  | [], _, _ => trivial
  | key :: rest, i, h => by
      have hkey : keys[i]? = some key := by
        rw [← List.head?_drop, h]
        rfl
      have hrest : keys.drop (i + 1) = rest := by
        rw [← List.drop_drop, h]
        rfl
      have hlen : (keys.drop i).length = rest.length + 1 := by rw [h]; rfl
      rw [List.length_drop] at hlen
      have ih := compacted_segment keys rest (i + 1) hrest
      rw [List.mapIdx_cons]
      refine ⟨?_, ?_⟩
      · show (compacted keys).cells (i + 0) = _
        rw [Nat.add_zero, compacted_cells hkey]
        cases rest with
        | nil => simp at hlen ⊢; omega
        | cons k ks => simp at hlen ⊢; omega
      · simpa [Nat.add_assoc, Nat.add_comm, Nat.add_left_comm] using ih

theorem compacted_lists (keys : List String) :
    (compacted keys).Lists (compactedOrder keys) := by
  have hfst : (compactedOrder keys).map Prod.fst = List.range keys.length := by
    apply List.ext_getElem <;> simp [compactedOrder]
  refine ⟨⟨?_, ?_, ?_, ?_⟩, ⟨List.nodup_nil, by simp [compacted]⟩⟩
  · rw [hfst]
    exact List.nodup_range
  · simpa [compactedOrder] using compacted_segment keys keys 0 rfl
  · cases keys <;> simp [compacted, compactedOrder, firstPtr]
  · rcases List.eq_nil_or_concat' keys with rfl | ⟨ks, k, rfl⟩
    · rfl
    · simp [compacted, compactedOrder, List.mapIdx_append]

end RecencyList

end PolygonNesting.Caches
