import Mathlib.Data.List.Induction
import Mathlib.Data.List.Nodup
import Mathlib.Data.List.Perm.Subperm
import Mathlib.Logic.Relation
import PolygonNesting.Lib.Fallible

/-!
# Components of a graph by search from a stack

A search marks a vertex when it pushes it and takes the vertices off a stack until there
are none; searches from every unmarked vertex in turn give the components.  Each vertex is
pushed once, so the number of vertices is fuel enough.  What a search finds does not
depend on the order in which the neighbours of a vertex are read.
-/

namespace GraphSearch

variable {α β : Type} [DecidableEq α]

/-! ## §1  The search -/

/-- The marked vertices and the stack, its top first. -/
structure Search (α : Type) where
  visited : List α
  pending : List α

/-- Mark and push the unmarked ones of a list of neighbours. -/
def Search.pushAll (search : Search α) (neighbors : List α) : Search α :=
  neighbors.foldl (fun search neighbor =>
    if search.visited.contains neighbor then search
    else ⟨neighbor :: search.visited, neighbor :: search.pending⟩) search

/-- Take vertices off the stack until it is empty: the marked vertices, and the labels of
those taken in their order.  Fails on a vertex without a label and at the end of the
fuel. -/
def drain (next : α → List α) (label : α → Option β) :
    ℕ → Search α → List β → Option (List α × List β)
  | fuel, ⟨visited, pending⟩, found =>
      match pending, fuel with
      | [], _ => some (visited, found)
      | _ :: _, 0 => none
      | current :: rest, fuel + 1 =>
          (label current).bind fun name =>
            drain next label fuel ((⟨visited, rest⟩ : Search α).pushAll (next current))
              (found ++ [name])

/-- One start: nothing if it is marked, else the component it starts. -/
def startAt (next : α → List α) (label : α → Option β) (fuel : ℕ)
    (state : List α × List (List β)) (start : α) : Option (List α × List (List β)) :=
  if state.1.contains start then some state
  else
    (drain next label fuel ⟨start :: state.1, [start]⟩ []).map fun result =>
      (result.1, state.2 ++ [result.2])

/-- The components of the starts, in the order of the first start of each. -/
def components (next : α → List α) (label : α → Option β) (fuel : ℕ) (starts : List α) :
    Option (List (List β)) :=
  (starts.foldlM (startAt next label fuel) ([], [])).map Prod.snd

/-! ## §2  What a search finds -/

/-- There is a path. -/
def Reaches (next : α → List α) : α → α → Prop := Relation.ReflTransGen fun a b => b ∈ next a

theorem pushAll_spec (neighbors : List α) : ∀ search : Search α, ∃ added : List α,
    search.pushAll neighbors = ⟨added ++ search.visited, added ++ search.pending⟩ ∧
      ((added ++ search.visited).Nodup ↔ search.visited.Nodup) ∧
      (∀ a ∈ added, a ∈ neighbors) ∧ ∀ a ∈ neighbors, a ∈ added ++ search.visited := by
  induction neighbors with
  | nil => exact fun search => ⟨[], rfl, Iff.rfl, by simp, by simp⟩
  | cons neighbor neighbors ih =>
      intro search
      by_cases hmem : neighbor ∈ search.visited
      · obtain ⟨added, heq, hnodup, hsub, hall⟩ := ih search
        refine ⟨added, ?_, hnodup, fun a ha => List.mem_cons_of_mem _ (hsub a ha), ?_⟩
        · rw [← heq]
          unfold Search.pushAll
          rw [List.foldl_cons, if_pos (List.contains_iff_mem.mpr hmem)]
        · intro a ha
          rcases List.mem_cons.mp ha with rfl | ha
          · exact List.mem_append_right _ hmem
          · exact hall a ha
      · obtain ⟨added, heq, hnodup, hsub, hall⟩ :=
          ih ⟨neighbor :: search.visited, neighbor :: search.pending⟩
        refine ⟨added ++ [neighbor], ?_, ?_, ?_, ?_⟩
        · rw [List.append_assoc, List.append_assoc]
          refine Eq.trans ?_ heq
          unfold Search.pushAll
          rw [List.foldl_cons, if_neg (fun h => hmem (List.contains_iff_mem.mp h))]
        · rw [List.append_assoc]
          refine hnodup.trans ?_
          simp [hmem]
        · intro a ha
          rcases List.mem_append.mp ha with ha | ha
          · exact List.mem_cons_of_mem _ (hsub a ha)
          · exact List.mem_cons.mpr (.inl (List.mem_singleton.mp ha))
        · intro a ha
          rw [List.append_assoc]
          rcases List.mem_cons.mp ha with rfl | ha
          · exact List.mem_append_right _ List.mem_cons_self
          · exact hall a ha

/-- A search from `start`, with what was marked before in `before` and the vertices taken
so far in `done`. -/
structure Running (next : α → List α) (before : List α) (start : α) (search : Search α)
    (done : List α) : Prop where
  nodup : search.visited.Nodup
  marked : ∀ a, a ∈ search.visited ↔ a ∈ done ∨ a ∈ search.pending ∨ a ∈ before
  length : search.visited.length = done.length + search.pending.length + before.length
  started : start ∈ search.visited
  reached : ∀ a, a ∈ done ∨ a ∈ search.pending → Reaches next start a
  expanded : ∀ a ∈ done, ∀ b ∈ next a, b ∈ search.visited

theorem Running.step {next : α → List α} {before : List α} {start current : α}
    {visited rest done : List α}
    (h : Running next before start ⟨visited, current :: rest⟩ done) :
    Running next before start ((⟨visited, rest⟩ : Search α).pushAll (next current))
      (done ++ [current]) := by
  obtain ⟨added, heq, hnodup, hsub, hall⟩ := pushAll_spec (next current) ⟨visited, rest⟩
  rw [heq]
  have hcurrent : Reaches next start current := h.reached current (.inr List.mem_cons_self)
  refine ⟨hnodup.mpr h.nodup, fun a => ?_, ?_, List.mem_append_right _ h.started, ?_, ?_⟩
  · have hmarked := h.marked a
    simp only [List.mem_append, List.mem_cons, List.not_mem_nil, or_false] at hmarked ⊢
    tauto
  · have hlength := h.length
    simp only [List.length_append, List.length_cons, List.length_nil] at hlength ⊢
    omega
  · rintro a (ha | ha)
    · rcases List.mem_append.mp ha with ha | ha
      · exact h.reached a (.inl ha)
      · rwa [List.mem_singleton.mp ha]
    · rcases List.mem_append.mp ha with ha | ha
      · exact hcurrent.tail (hsub a ha)
      · exact h.reached a (.inr (List.mem_cons_of_mem _ ha))
  · intro a ha b hb
    rcases List.mem_append.mp ha with ha | ha
    · exact List.mem_append_right _ (h.expanded a ha b hb)
    · rw [List.mem_singleton.mp ha] at hb
      exact hall b hb

section Spec

variable {next : α → List α} {label : α → Option β} {name : α → β} {vertices : List α}
  {before : List α} {start : α}

/-- **A search ends**, with enough fuel for the vertices that are left. -/
theorem drain_spec (hnext : ∀ a ∈ vertices, ∀ b ∈ next a, b ∈ vertices)
    (hlabel : ∀ a ∈ vertices, label a = some (name a)) (fuel : ℕ) :
    ∀ {search : Search α} {done : List α}, Running next before start search done →
      search.visited ⊆ vertices → vertices.length ≤ fuel + done.length + before.length →
      ∃ visited order, drain next label fuel search (done.map name) =
          some (visited, order.map name) ∧
        Running next before start ⟨visited, []⟩ order ∧ visited ⊆ vertices := by
  induction fuel with
  | zero =>
      rintro ⟨visited, pending⟩ done hrun hsub hfuel
      cases pending with
      | nil =>
          refine ⟨visited, done, ?_, hrun, hsub⟩
          rw [drain]
      | cons current rest =>
          -- every marked vertex is one of the vertices, so there is none left to take
          have hle := (hrun.nodup.subperm hsub).length_le
          have hlength := hrun.length
          simp only [List.length_cons] at hlength hle
          omega
  | succ fuel ih =>
      rintro ⟨visited, pending⟩ done hrun hsub hfuel
      cases pending with
      | nil =>
          refine ⟨visited, done, ?_, hrun, hsub⟩
          rw [drain]
      | cons current rest =>
          have hcurrent : current ∈ vertices :=
            hsub ((hrun.marked current).mpr (.inr (.inl List.mem_cons_self)))
          have hstep := hrun.step
          obtain ⟨added, heq, -, hadded, -⟩ := pushAll_spec (next current) ⟨visited, rest⟩
          have hsub' : ((⟨visited, rest⟩ : Search α).pushAll (next current)).visited ⊆
              vertices := by
            rw [heq]
            intro a ha
            rcases List.mem_append.mp ha with ha | ha
            · exact hnext current hcurrent a (hadded a ha)
            · exact hsub ha
          obtain ⟨visited', order, hdrain, hrun', hsub''⟩ := ih hstep hsub' (by
            rw [List.length_append, List.length_singleton]
            omega)
          refine ⟨visited', order, ?_, hrun', hsub''⟩
          rw [drain, hlabel current hcurrent, Option.bind_some, ← hdrain, List.map_append]
          rfl

/-- **A search from an unmarked vertex takes exactly what the vertex reaches**, where the
neighbours of marked vertices are marked. -/
theorem drain_start (hnext : ∀ a ∈ vertices, ∀ b ∈ next a, b ∈ vertices)
    (hlabel : ∀ a ∈ vertices, label a = some (name a))
    (hsymm : ∀ a ∈ vertices, ∀ b ∈ next a, a ∈ next b) {fuel : ℕ}
    (hfuel : vertices.length ≤ fuel) (hnodup : before.Nodup) (hbefore : before ⊆ vertices)
    (hclosed : ∀ a ∈ before, ∀ b ∈ next a, b ∈ before) (hstart : start ∈ vertices)
    (hnew : start ∉ before) :
    ∃ visited order : List α, drain next label fuel ⟨start :: before, [start]⟩ [] =
        some (visited, order.map name) ∧
      order.Nodup ∧ (∀ a, a ∈ order ↔ Reaches next start a) ∧
      visited.Nodup ∧ visited ⊆ vertices ∧
      ∀ a, a ∈ visited ↔ a ∈ before ∨ Reaches next start a := by
  have hrun : Running next before start ⟨start :: before, [start]⟩ [] := by
    refine ⟨List.nodup_cons.mpr ⟨hnew, hnodup⟩, fun a => ?_, ?_, List.mem_cons_self, ?_, by simp⟩
    · simp
    · simp only [List.length_cons, List.length_nil]
      omega
    · rintro a (ha | ha)
      · cases ha
      · rw [List.mem_singleton.mp ha]
        exact Relation.ReflTransGen.refl
  have hsub : start :: before ⊆ vertices := List.cons_subset.mpr ⟨hstart, hbefore⟩
  obtain ⟨visited, order, hdrain, hdone, hvisited⟩ := drain_spec hnext hlabel fuel hrun hsub
    (by omega)
  -- what was taken is apart from what was marked before
  have hperm : visited.Perm (order ++ before) := by
    have hmem : visited ⊆ order ++ before := by
      intro a ha
      have := (hdone.marked a).mp ha
      simpa using this
    refine (hdone.nodup.subperm hmem).perm_of_length_le ?_
    rw [List.length_append, hdone.length]
    simp
  have happart := hperm.nodup_iff.mp hdone.nodup
  have hstarted : start ∈ order :=
    (List.mem_append.mp (hperm.mem_iff.mp hdone.started)).resolve_right hnew
  have horder : ∀ a, a ∈ order ↔ Reaches next start a := by
    intro a
    refine ⟨fun ha => hdone.reached a (.inl ha), fun ha => ?_⟩
    induction ha with
    | refl => exact hstarted
    | @tail b c _ hbc hb =>
        have hc := hdone.expanded b hb c hbc
        refine (List.mem_append.mp (hperm.mem_iff.mp hc)).resolve_right fun hcbefore => ?_
        have hbvertex : b ∈ vertices :=
          hvisited (hperm.mem_iff.mpr (List.mem_append_left _ hb))
        exact List.disjoint_of_nodup_append happart hb
          (hclosed c hcbefore b (hsymm b hbvertex c hbc))
  refine ⟨visited, order, hdrain, (List.nodup_append.mp happart).1, horder, hdone.nodup, hvisited,
    fun a => ?_⟩
  rw [hperm.mem_iff, List.mem_append, horder, or_comm]

/-! ## §3  The components -/

open Classical in
/-- The starts that no earlier one reaches. -/
noncomputable def leaders (next : α → List α) (starts : List α) : List α :=
  starts.foldl (fun leaders start =>
    if ∃ leader ∈ leaders, Reaches next leader start then leaders else leaders ++ [start]) []

/-- A list of the labels of what a vertex reaches, each once. -/
def IsComponent (next : α → List α) (name : α → β) (start : α) (component : List β) : Prop :=
  ∃ order : List α, order.Nodup ∧ (∀ a, a ∈ order ↔ Reaches next start a) ∧
    component = order.map name

/-- The state after the starts gone through. -/
structure Explored (next : α → List α) (name : α → β) (vertices done : List α)
    (state : List α × List (List β)) : Prop where
  nodup : state.1.Nodup
  subset : state.1 ⊆ vertices
  closed : ∀ a ∈ state.1, ∀ b ∈ next a, b ∈ state.1
  marked : ∀ a, a ∈ state.1 ↔ ∃ leader ∈ leaders next done, Reaches next leader a
  found : List.Forall₂ (IsComponent next name) (leaders next done) state.2

omit [DecidableEq α] in
theorem leaders_append (next : α → List α) (done : List α) (start : α) :
    ((∃ leader ∈ leaders next done, Reaches next leader start) →
      leaders next (done ++ [start]) = leaders next done) ∧
    ((¬∃ leader ∈ leaders next done, Reaches next leader start) →
      leaders next (done ++ [start]) = leaders next done ++ [start]) := by
  unfold leaders
  rw [List.foldl_append]
  exact ⟨fun h => if_pos h, fun h => if_neg h⟩

theorem Explored.step (hnext : ∀ a ∈ vertices, ∀ b ∈ next a, b ∈ vertices)
    (hlabel : ∀ a ∈ vertices, label a = some (name a))
    (hsymm : ∀ a ∈ vertices, ∀ b ∈ next a, a ∈ next b) {fuel : ℕ}
    (hfuel : vertices.length ≤ fuel) (hstart : start ∈ vertices) {done : List α}
    {state : List α × List (List β)} (h : Explored next name vertices done state) :
    ∃ state', startAt next label fuel state start = some state' ∧
      Explored next name vertices (done ++ [start]) state' := by
  obtain ⟨visited, found⟩ := state
  by_cases hmem : start ∈ visited
  · have hleader := (h.marked start).mp hmem
    refine ⟨(visited, found), ?_, h.nodup, h.subset, h.closed, ?_, ?_⟩
    · unfold startAt
      rw [if_pos (List.contains_iff_mem.mpr hmem)]
    · rw [(leaders_append next done start).1 hleader]
      exact h.marked
    · rw [(leaders_append next done start).1 hleader]
      exact h.found
  · have hleader : ¬∃ leader ∈ leaders next done, Reaches next leader start :=
      fun hleader => hmem ((h.marked start).mpr hleader)
    obtain ⟨visited', order, hdrain, horder, hreach, hnodup, hsub, hvisited⟩ :=
      drain_start hnext hlabel hsymm hfuel h.nodup h.subset h.closed hstart hmem
    refine ⟨(visited', found ++ [order.map name]), ?_, hnodup, hsub, ?_, fun a => ?_, ?_⟩
    · unfold startAt
      rw [if_neg (fun hcontains => hmem (List.contains_iff_mem.mp hcontains)), hdrain]
      rfl
    · intro a ha b hb
      rw [hvisited] at ha ⊢
      rcases ha with ha | ha
      · exact .inl (h.closed a ha b hb)
      · exact .inr (ha.tail hb)
    · rw [hvisited, (leaders_append next done start).2 hleader, h.marked]
      simp [or_and_right, exists_or]
    · rw [(leaders_append next done start).2 hleader]
      exact List.rel_append h.found (.cons ⟨order, horder, hreach, rfl⟩ .nil)

/-- **The search finds the component of every start once**, in the order of the first
start of each. -/
theorem components_spec (hnext : ∀ a ∈ vertices, ∀ b ∈ next a, b ∈ vertices)
    (hlabel : ∀ a ∈ vertices, label a = some (name a))
    (hsymm : ∀ a ∈ vertices, ∀ b ∈ next a, a ∈ next b) {fuel : ℕ}
    (hfuel : vertices.length ≤ fuel) {starts : List α} (hstarts : starts ⊆ vertices) :
    ∃ found, components next label fuel starts = some found ∧
      List.Forall₂ (IsComponent next name) (leaders next starts) found := by
  have hempty : Explored next name vertices [] ([], []) :=
    ⟨.nil, by simp, by simp, fun a => by simp [leaders], .nil⟩
  obtain ⟨state, hstate, hexplored⟩ := option_foldlM_prefix
    (f := startAt next label fuel) (P := Explored next name vertices)
    (fun done start hstart state h => h.step hnext hlabel hsymm hfuel (hstarts hstart)) hempty
  refine ⟨state.2, ?_, hexplored.found⟩
  unfold components
  rw [hstate]
  rfl

/-! ## §4  The parts of the graph -/

omit [DecidableEq α] in
theorem leaders_subset (next : α → List α) (starts : List α) : leaders next starts ⊆ starts := by
  induction starts using List.reverseRecOn with
  | nil => exact List.Subset.refl _
  | append_singleton starts start ih =>
      by_cases h : ∃ leader ∈ leaders next starts, Reaches next leader start
      · rw [(leaders_append next starts start).1 h]
        exact List.subset_append_of_subset_left _ ih
      · rw [(leaders_append next starts start).2 h]
        exact List.append_subset.mpr ⟨List.subset_append_of_subset_left _ ih,
          List.subset_append_right _ _⟩

omit [DecidableEq α] in
/-- No leader reaches a later one. -/
theorem leaders_apart (next : α → List α) (starts : List α) :
    (leaders next starts).Pairwise fun a b => ¬Reaches next a b := by
  induction starts using List.reverseRecOn with
  | nil => exact .nil
  | append_singleton starts start ih =>
      by_cases h : ∃ leader ∈ leaders next starts, Reaches next leader start
      · rwa [(leaders_append next starts start).1 h]
      · rw [(leaders_append next starts start).2 h, List.pairwise_append]
        refine ⟨ih, List.pairwise_singleton _ _, fun leader hleader b hb hreach => ?_⟩
        rw [List.mem_singleton.mp hb] at hreach
        exact h ⟨leader, hleader, hreach⟩

omit [DecidableEq α] in
/-- Every start is reached from a leader. -/
theorem exists_leader (next : α → List α) (starts : List α) :
    ∀ start ∈ starts, ∃ leader ∈ leaders next starts, Reaches next leader start := by
  induction starts using List.reverseRecOn with
  | nil => simp
  | append_singleton starts last ih =>
      intro start hstart
      by_cases h : ∃ leader ∈ leaders next starts, Reaches next leader last
      · rw [(leaders_append next starts last).1 h]
        rcases List.mem_append.mp hstart with hstart | hstart
        · exact ih start hstart
        · rwa [List.mem_singleton.mp hstart]
      · rw [(leaders_append next starts last).2 h]
        rcases List.mem_append.mp hstart with hstart | hstart
        · obtain ⟨leader, hleader, hreach⟩ := ih start hstart
          exact ⟨leader, List.mem_append_left _ hleader, hreach⟩
        · exact ⟨start, List.mem_append_right _ hstart, .refl⟩

omit [DecidableEq α] in
/-- Paths stay among the vertices and go both ways. -/
theorem reaches_symm (hnext : ∀ a ∈ vertices, ∀ b ∈ next a, b ∈ vertices)
    (hsymm : ∀ a ∈ vertices, ∀ b ∈ next a, a ∈ next b) {a b : α} (ha : a ∈ vertices)
    (h : Reaches next a b) : b ∈ vertices ∧ Reaches next b a := by
  induction h with
  | refl => exact ⟨ha, .refl⟩
  | @tail b c _ hbc ih =>
      exact ⟨hnext b ih.1 c hbc, .head (hsymm b ih.1 c hbc) ih.2⟩

/-- **The components of all vertices are the parts of the graph.** -/
theorem components_parts (hnext : ∀ a ∈ vertices, ∀ b ∈ next a, b ∈ vertices)
    (hlabel : ∀ a ∈ vertices, label a = some (name a))
    (hsymm : ∀ a ∈ vertices, ∀ b ∈ next a, a ∈ next b) {fuel : ℕ}
    (hfuel : vertices.length ≤ fuel) (hvertices : vertices.Nodup) :
    ∃ parts : List (List α), components next label fuel vertices =
        some (parts.map (List.map name)) ∧
      parts.flatten.Perm vertices ∧
      ∀ part ∈ parts, part ≠ [] ∧ ∀ a ∈ part, ∀ b, b ∈ part ↔ Reaches next a b := by
  obtain ⟨found, hfound, hcomponents⟩ :=
    components_spec hnext hlabel hsymm hfuel (List.Subset.refl vertices)
  obtain ⟨parts, hparts, rfl⟩ := forall₂_choose
    (R := fun leader part : _ => part.Nodup ∧ ∀ a, a ∈ part ↔ Reaches next leader a)
    (f := List.map name) (hcomponents.imp fun leader component hcomponent => by
      obtain ⟨order, hnodup, hreach, heq⟩ := hcomponent
      exact ⟨order, ⟨hnodup, hreach⟩, heq⟩)
  have hleader : ∀ part ∈ parts, ∃ leader ∈ vertices, part.Nodup ∧
      ∀ a, a ∈ part ↔ Reaches next leader a := by
    intro part hpart
    obtain ⟨leader, hleader, h⟩ := forall₂_exists hparts.flip part hpart
    exact ⟨leader, leaders_subset next vertices hleader, h⟩
  refine ⟨parts, hfound, ?_, fun part hpart => ?_⟩
  · have hnodup : parts.flatten.Nodup := by
      rw [List.nodup_flatten]
      refine ⟨fun part hpart => (hleader part hpart).choose_spec.2.1, ?_⟩
      have hmember : List.Forall₂ (fun leader part => leader ∈ vertices ∧
          ∀ a, a ∈ part ↔ Reaches next leader a) (leaders next vertices) parts := by
        refine ((List.forall₂_and_left _ _).mpr ⟨leaders_subset next vertices, hparts⟩).imp ?_
        exact fun leader part h => ⟨h.1, h.2.2⟩
      refine forall₂_pairwise (fun leader leader' part part' h h' happart => ?_) hmember
        (leaders_apart next vertices)
      intro a ha ha'
      have hback := (reaches_symm hnext hsymm h'.1 ((h'.2 a).mp ha')).2
      exact happart (((h.2 a).mp ha).trans hback)
    refine (List.perm_ext_iff_of_nodup hnodup hvertices).mpr fun a => ?_
    rw [List.mem_flatten]
    constructor
    · rintro ⟨part, hpart, ha⟩
      obtain ⟨leader, hleader, -, hreach⟩ := hleader part hpart
      exact (reaches_symm hnext hsymm hleader ((hreach a).mp ha)).1
    · intro ha
      obtain ⟨leader, hmem, hreach⟩ := exists_leader next vertices a ha
      obtain ⟨part, hpart, -, hreaches⟩ := forall₂_exists hparts leader hmem
      exact ⟨part, hpart, (hreaches a).mpr hreach⟩
  · obtain ⟨leader, hleader, -, hreach⟩ := hleader part hpart
    refine ⟨List.ne_nil_of_mem ((hreach leader).mpr .refl), fun a ha b => ?_⟩
    have hback := (reaches_symm hnext hsymm hleader ((hreach a).mp ha)).2
    rw [hreach]
    exact ⟨fun h => hback.trans h, fun h => ((hreach a).mp ha).trans h⟩

/-- **What is found does not depend on the order of the neighbours.** -/
theorem components_congr {next' : α → List α} (hmem : ∀ a b, b ∈ next a ↔ b ∈ next' a)
    (hnext : ∀ a ∈ vertices, ∀ b ∈ next a, b ∈ vertices)
    (hlabel : ∀ a ∈ vertices, label a = some (name a))
    (hsymm : ∀ a ∈ vertices, ∀ b ∈ next a, a ∈ next b) {fuel : ℕ}
    (hfuel : vertices.length ≤ fuel) {starts : List α} (hstarts : starts ⊆ vertices) :
    ∃ found found', components next label fuel starts = some found ∧
      components next' label fuel starts = some found' ∧
      List.Forall₂ List.Perm found found' := by
  have hreaches : Reaches next' = Reaches next := by
    unfold Reaches
    simp only [hmem]
  have hleaders : leaders next' starts = leaders next starts := by
    unfold leaders
    rw [hreaches]
  obtain ⟨found, hfound, hcomponents⟩ := components_spec hnext hlabel hsymm hfuel hstarts
  have hother : ∃ found', components next' label fuel starts = some found' ∧
      List.Forall₂ (IsComponent next' name) (leaders next' starts) found' :=
    components_spec (fun a ha b hb => hnext a ha b ((hmem a b).mpr hb)) hlabel
      (fun a ha b hb => (hmem b a).mp (hsymm a ha b ((hmem a b).mpr hb))) hfuel hstarts
  obtain ⟨found', hfound', hcomponents'⟩ := hother
  rw [hleaders] at hcomponents'
  refine ⟨found, found', hfound, hfound', forall₂_join hcomponents hcomponents' ?_⟩
  rintro leader component - component' ⟨order, hnodup, hreach, rfl⟩ ⟨order', hnodup', hreach', rfl⟩
  refine List.Perm.map name ((List.perm_ext_iff_of_nodup hnodup hnodup').mpr fun a => ?_)
  rw [hreach, hreach', hreaches]

end Spec

end GraphSearch
