import Mathlib.Data.List.Nodup
import Mathlib.Logic.Function.Basic

/-!
# Doubly linked chains in a memory of cells

A cell holds a payload and the pointers to its predecessor and successor.
`Segment cells p o q` says that the cells named in `o`, in that order, are
linked both ways, that the first of them points back to `p` and the last one
on to `q`.  A whole list is a segment between `none` and `none`.

The rules are the ones an intrusive list needs: split a segment at any place
(`segment_append`), change a cell outside it (`Segment.congr`), and redirect
the pointer at either end (`Segment.setNext`, `Segment.setPrevious`); from
these follow `Segment.unlink` and `Segment.link`.
-/

namespace LinkedChain

variable {ι α : Type*}

/-- A cell of the memory: payload and links. -/
structure Cell (ι α : Type*) where
  payload : α
  previous : Option ι
  next : Option ι

/-- The pointer to the first cell of a segment. -/
def firstPtr (o : List (ι × α)) : Option ι := o.head?.map Prod.fst

/-- The pointer to the last cell of a segment. -/
def lastPtr (o : List (ι × α)) : Option ι := o.getLast?.map Prod.fst

@[simp] theorem firstPtr_nil : firstPtr ([] : List (ι × α)) = none := rfl

@[simp] theorem firstPtr_cons (x : ι × α) (o : List (ι × α)) :
    firstPtr (x :: o) = some x.1 := rfl

@[simp] theorem lastPtr_nil : lastPtr ([] : List (ι × α)) = none := rfl

@[simp] theorem lastPtr_concat (o : List (ι × α)) (x : ι × α) :
    lastPtr (o ++ [x]) = some x.1 := by
  simp [lastPtr]

theorem firstPtr_append (xs ys : List (ι × α)) :
    firstPtr (xs ++ ys) = (firstPtr xs).or (firstPtr ys) := by
  cases xs <;> simp

theorem lastPtr_append (xs ys : List (ι × α)) :
    lastPtr (xs ++ ys) = (lastPtr ys).or (lastPtr xs) := by
  rcases List.eq_nil_or_concat' ys with rfl | ⟨zs, z, rfl⟩
  · simp
  · rw [← List.append_assoc, lastPtr_concat, lastPtr_concat]
    rfl

theorem lastPtr_cons (x : ι × α) (o : List (ι × α)) :
    lastPtr (x :: o) = (lastPtr o).or (some x.1) :=
  lastPtr_append [x] o

theorem mem_of_firstPtr {o : List (ι × α)} {i : ι} (h : firstPtr o = some i) :
    i ∈ o.map Prod.fst := by
  cases o with
  | nil => simp at h
  | cons x o => simp_all

theorem mem_of_lastPtr {o : List (ι × α)} {i : ι} (h : lastPtr o = some i) :
    i ∈ o.map Prod.fst := by
  obtain ⟨x, hx, rfl⟩ := Option.map_eq_some_iff.mp h
  exact List.mem_map_of_mem (List.mem_of_getLast? hx)

/-- The cells of `o` are linked both ways, between `p` and `q`. -/
def Segment (cells : ι → Option (Cell ι α)) :
    Option ι → List (ι × α) → Option ι → Prop
  | _, [], _ => True
  | p, x :: o, q =>
      cells x.1 = some ⟨x.2, p, (firstPtr o).or q⟩ ∧
        Segment cells (some x.1) o q

variable {cells cells' : ι → Option (Cell ι α)}

theorem Segment.congr : ∀ {o : List (ι × α)} {p q : Option ι},
    Segment cells p o q → (∀ i ∈ o.map Prod.fst, cells' i = cells i) →
    Segment cells' p o q
  | [], _, _, _, _ => trivial
  | x :: o, p, q, h, heq => by
      refine ⟨?_, h.2.congr fun i hi => heq i (by simp_all)⟩
      rw [heq x.1 (by simp)]
      exact h.1

theorem segment_append : ∀ {xs ys : List (ι × α)} {p q : Option ι},
    Segment cells p (xs ++ ys) q ↔
      Segment cells p xs ((firstPtr ys).or q) ∧
        Segment cells ((lastPtr xs).or p) ys q
  | [], ys, p, q => by simp [Segment]
  | x :: xs, ys, p, q => by
      have hlast : ((lastPtr (x :: xs)).or p) = (lastPtr xs).or (some x.1) := by
        rw [lastPtr_cons]
        cases lastPtr xs <;> rfl
      rw [List.cons_append, Segment, Segment, segment_append, hlast,
        firstPtr_append, Option.or_assoc, and_assoc]

theorem Segment.cell {o : List (ι × α)} {p q : Option ι}
    (h : Segment cells p o q) {x : ι × α} (hx : x ∈ o) :
    ∃ c, cells x.1 = some c ∧ c.payload = x.2 := by
  obtain ⟨xs, ys, rfl⟩ := List.append_of_mem hx
  rw [segment_append] at h
  exact ⟨_, h.2.1, rfl⟩

theorem not_mem_left {xs ys : List (ι × α)} {x : ι × α}
    (hnd : ((xs ++ x :: ys).map Prod.fst).Nodup) : x.1 ∉ xs.map Prod.fst := by
  intro hx
  rw [List.map_append] at hnd
  exact List.disjoint_of_nodup_append hnd hx (by simp)

theorem not_mem_right {xs ys : List (ι × α)} {x : ι × α}
    (hnd : ((xs ++ x :: ys).map Prod.fst).Nodup) : x.1 ∉ ys.map Prod.fst := by
  rw [List.map_append, List.map_cons] at hnd
  exact (List.nodup_cons.mp (List.nodup_append.mp hnd).2.1).1

section Updates

variable [DecidableEq ι]

/-- Change the cell at `i`, if there is one. -/
def modify (cells : ι → Option (Cell ι α)) (i : ι)
    (f : Cell ι α → Cell ι α) : ι → Option (Cell ι α) :=
  Function.update cells i ((cells i).map f)

/-- Redirect the forward pointer of a cell, if a cell is named. -/
def setNext (cells : ι → Option (Cell ι α)) (l q : Option ι) :
    ι → Option (Cell ι α) :=
  match l with
  | some l => modify cells l fun c => { c with next := q }
  | none => cells

/-- Redirect the backward pointer of a cell, if a cell is named. -/
def setPrevious (cells : ι → Option (Cell ι α)) (f p : Option ι) :
    ι → Option (Cell ι α) :=
  match f with
  | some f => modify cells f fun c => { c with previous := p }
  | none => cells

theorem setNext_of_ne {l : Option ι} {i : ι} (q : Option ι) (h : l ≠ some i) :
    setNext cells l q i = cells i := by
  cases l with
  | none => rfl
  | some l => exact Function.update_of_ne (fun hil => h (by rw [hil])) _ _

theorem setPrevious_of_ne {f : Option ι} {i : ι} (p : Option ι)
    (h : f ≠ some i) : setPrevious cells f p i = cells i := by
  cases f with
  | none => rfl
  | some f => exact Function.update_of_ne (fun hif => h (by rw [hif])) _ _

/-- Redirecting the forward pointer of the last cell. -/
theorem Segment.setNext {o : List (ι × α)} {p q : Option ι} (q' : Option ι)
    (h : Segment cells p o q) (hnd : (o.map Prod.fst).Nodup) :
    Segment (LinkedChain.setNext cells (lastPtr o) q') p o q' := by
  rcases List.eq_nil_or_concat' o with rfl | ⟨xs, x, rfl⟩
  · trivial
  · rw [segment_append] at h ⊢
    refine ⟨h.1.congr fun i hi => setNext_of_ne _ ?_, ?_, trivial⟩
    · rw [lastPtr_concat]
      rintro ⟨rfl⟩
      exact not_mem_left hnd hi
    · simp [LinkedChain.setNext, modify, h.2.1]

/-- Redirecting the backward pointer of the first cell. -/
theorem Segment.setPrevious {o : List (ι × α)} {p q : Option ι} (p' : Option ι)
    (h : Segment cells p o q) (hnd : (o.map Prod.fst).Nodup) :
    Segment (LinkedChain.setPrevious cells (firstPtr o) p') p' o q := by
  cases o with
  | nil => trivial
  | cons x o =>
      refine ⟨by simp [LinkedChain.setPrevious, modify, h.1],
        h.2.congr fun i hi => setPrevious_of_ne _ ?_⟩
      rw [firstPtr_cons]
      rintro ⟨rfl⟩
      exact (List.nodup_cons.mp hnd).1 hi

/-- **Unlinking a cell**: point its neighbours at each other. -/
theorem Segment.unlink {xs ys : List (ι × α)} {x : ι × α}
    (h : Segment cells none (xs ++ x :: ys) none)
    (hnd : ((xs ++ x :: ys).map Prod.fst).Nodup) :
    Segment (LinkedChain.setPrevious
        (LinkedChain.setNext cells (lastPtr xs) (firstPtr ys))
        (firstPtr ys) (lastPtr xs)) none (xs ++ ys) none := by
  have hsplit := List.nodup_append.mp (by rwa [List.map_append] at hnd)
  have hndy : (ys.map Prod.fst).Nodup := (List.nodup_cons.mp hsplit.2.1).2
  have hdisj : ∀ i ∈ xs.map Prod.fst, i ∉ ys.map Prod.fst := fun i hi hi' =>
    hsplit.2.2 i hi i (List.mem_cons_of_mem _ hi') rfl
  rw [segment_append] at h
  have hx : Segment (LinkedChain.setNext cells (lastPtr xs) (firstPtr ys))
      none xs (firstPtr ys) := h.1.setNext _ hsplit.1
  have hy : Segment (LinkedChain.setNext cells (lastPtr xs) (firstPtr ys))
      (some x.1) ys none :=
    h.2.2.congr fun i hi => setNext_of_ne _ fun hl =>
      hdisj i (mem_of_lastPtr hl) hi
  rw [segment_append]
  refine ⟨?_, ?_⟩
  · rw [Option.or_none]
    exact hx.congr fun i hi => setPrevious_of_ne _ fun hf =>
      hdisj i hi (mem_of_firstPtr hf)
  · rw [Option.or_none]
    exact hy.setPrevious _ hndy

/-- **Linking a cell at the end**, once it points back at the old last cell. -/
theorem Segment.link {o : List (ι × α)} {x : ι × α}
    (h : Segment cells none o none) (hnd : ((o ++ [x]).map Prod.fst).Nodup)
    (hx : cells x.1 = some ⟨x.2, lastPtr o, none⟩) :
    Segment (LinkedChain.setNext cells (lastPtr o) (some x.1))
      none (o ++ [x]) none := by
  have hndo : (o.map Prod.fst).Nodup := by
    rw [List.map_append] at hnd
    exact (List.nodup_append.mp hnd).1
  rw [segment_append]
  refine ⟨h.setNext _ hndo, ?_, trivial⟩
  rw [setNext_of_ne _ fun hl => not_mem_left hnd (mem_of_lastPtr hl), hx]
  simp

end Updates

end LinkedChain
