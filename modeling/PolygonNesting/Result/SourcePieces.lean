import Mathlib.Data.List.Basic
import Mathlib.Data.List.Nodup
import PolygonNesting.Domain
import PolygonNesting.Lib.Fallible

/-!
# The source of a prepared piece

A request lists prepared pieces and the imported pieces they were made from.  Its validation
asks that the ids in each list are distinct.  A prepared piece is given the first source
whose id is the named one or its own, else the first whose id is one of these without its
copy suffix.

So two sources may answer one lookup, and their order decides.  The named source is found,
in every order, exactly when no lookup has two answers.
-/

namespace PolygonNesting.Protocol

/-! ## §1  Requests -/

inductive ProtocolError where
  | unsupportedVersion (expected received : ℕ)
  | validation (field message : String)
  deriving DecidableEq

/-- A prepared piece; `π` is what no lookup reads. -/
structure PreparedPiece (π : Type) where
  id : PieceId
  sourcePieceId : PieceId
  interchangeabilityKey : Option String
  rest : π

/-- An imported piece; `σ` is its geometry and what else no lookup reads. -/
structure SourcePiece (σ : Type) where
  id : PieceId
  sourceFileId : String
  rest : σ

structure EngineRequest (ρ π σ : Type) where
  pieces : List (PreparedPiece π)
  sourcePieces : List (SourcePiece σ)
  rest : ρ

/-- The checks of the fields that are not ids. -/
structure FieldChecks (ρ π σ : Type) where
  header : ρ → Except ProtocolError Unit
  piece : ℕ → π → Except ProtocolError Unit
  source : ℕ → σ → Except ProtocolError Unit
  settings : ρ → Except ProtocolError Unit

/-- The Unicode property `White_Space`. -/
def isWhitespace (c : Char) : Bool :=
  decide (9 ≤ c.val ∧ c.val ≤ 13) || decide (0x2000 ≤ c.val ∧ c.val ≤ 0x200A) ||
    [0x20, 0x85, 0xA0, 0x1680, 0x2028, 0x2029, 0x202F, 0x205F, 0x3000].contains c.val

def requireNonEmpty (field value : String) : Except ProtocolError Unit :=
  if value.isEmpty then throw (.validation field "must be non-empty") else pure ()

section Validation

variable {ρ π σ : Type} (checks : FieldChecks ρ π σ)

/-- `PreparedPiece::validate`. -/
def PreparedPiece.validate (piece : PreparedPiece π) (index : ℕ) :
    Except ProtocolError Unit := do
  let field := "pieces[" ++ toString index ++ "]"
  if piece.id.toList.all isWhitespace then
    throw (.validation (field ++ ".id") "must be a non-empty string")
  requireNonEmpty (field ++ ".sourcePieceId") piece.sourcePieceId
  match piece.interchangeabilityKey with
  | some key => requireNonEmpty (field ++ ".interchangeabilityKey") key
  | none => pure ()
  checks.piece index piece.rest

/-- `SourcePiece::validate`. -/
def SourcePiece.validate (piece : SourcePiece σ) (index : ℕ) : Except ProtocolError Unit := do
  let field := "sourcePieces[" ++ toString index ++ "]"
  requireNonEmpty (field ++ ".id") piece.id
  requireNonEmpty (field ++ ".sourceFileId") piece.sourceFileId
  checks.source index piece.rest

/-- One entry of a list with its index: its own check, then its id must be new. -/
def validateEntry {α : Type} (list : String) (validate : α → ℕ → Except ProtocolError Unit)
    (id : α → PieceId) (seen : List PieceId) (entry : α × ℕ) :
    Except ProtocolError (List PieceId) := do
  validate entry.1 entry.2
  if seen.contains (id entry.1) then
    throw (.validation (list ++ "[" ++ toString entry.2 ++ "].id") "must be unique")
  pure (seen ++ [id entry.1])

/-- `EngineRequest::validate`. -/
def EngineRequest.validate (request : EngineRequest ρ π σ) : Except ProtocolError Unit := do
  checks.header request.rest
  if request.pieces.isEmpty then
    throw (.validation "pieces" "must contain at least one prepared piece")
  let _ ← request.pieces.zipIdx.foldlM
    (validateEntry "pieces" (PreparedPiece.validate checks) PreparedPiece.id) []
  let _ ← request.sourcePieces.zipIdx.foldlM
    (validateEntry "sourcePieces" (SourcePiece.validate checks) SourcePiece.id) []
  checks.settings request.rest

theorem validateEntry_append {α : Type} {list : String}
    {validate : α → ℕ → Except ProtocolError Unit} {id : α → PieceId} {seen seen' : List PieceId}
    {entry : α × ℕ} (h : validateEntry list validate id seen entry = .ok seen') :
    seen' = seen ++ [id entry.1] ∧ id entry.1 ∉ seen := by
  obtain ⟨_, -, h⟩ := except_bind_eq_ok h
  by_cases hmem : id entry.1 ∈ seen
  · rw [if_pos (List.contains_iff_mem.mpr hmem)] at h
    cases h
  · rw [if_neg fun hcontains => hmem (List.contains_iff_mem.mp hcontains)] at h
    exact ⟨(Except.ok.inj h).symm, hmem⟩

/-- The ids of a list that passes are distinct. -/
theorem nodup_of_validateEntry {α : Type} {list : String}
    {validate : α → ℕ → Except ProtocolError Unit} {id : α → PieceId} {entries : List α}
    {seen : List PieceId}
    (h : entries.zipIdx.foldlM (validateEntry list validate id) [] = .ok seen) :
    (entries.map id).Nodup := by
  have hseen : seen = entries.zipIdx.map (fun entry => id entry.1) ∧ seen.Nodup := by
    refine except_foldlM_prefix
      (P := fun done seen => seen = done.map (fun entry : α × ℕ => id entry.1) ∧ seen.Nodup)
      (fun done entry seen seen' hseen hstep => ?_) ⟨List.map_nil.symm, List.nodup_nil⟩ h
    obtain ⟨rfl, hnew⟩ := validateEntry_append hstep
    refine ⟨by rw [hseen.1, List.map_append, List.map_singleton], ?_⟩
    refine List.nodup_append.mpr ⟨hseen.2, List.nodup_singleton _, fun a ha b hb hab => ?_⟩
    exact hnew (by rwa [← List.mem_singleton.mp hb, ← hab])
  have hids : entries.map id = entries.zipIdx.map fun entry => id entry.1 := by
    conv_lhs => rw [← List.zipIdx_map_fst 0 entries, List.map_map]
    rfl
  rw [hids, ← hseen.1]
  exact hseen.2

/-- **An accepted request has distinct ids in each list.** -/
theorem EngineRequest.nodup_of_validate {request : EngineRequest ρ π σ}
    (h : request.validate checks = .ok ()) :
    (request.pieces.map PreparedPiece.id).Nodup ∧
      (request.sourcePieces.map SourcePiece.id).Nodup := by
  obtain ⟨_, -, h⟩ := except_bind_eq_ok h
  split at h
  · cases h
  · obtain ⟨_, hpieces, h⟩ := except_bind_eq_ok h
    obtain ⟨_, hsources, h⟩ := except_bind_eq_ok h
    exact ⟨nodup_of_validateEntry hpieces, nodup_of_validateEntry hsources⟩

end Validation

/-! ## §2  The lookup -/

/-- The text before the last occurrence of a word, and the text after it. -/
def splitAtLast (word : List Char) : List Char → Option (List Char × List Char)
  | [] => none
  | c :: rest =>
      match splitAtLast word rest with
      | some (front, back) => some (c :: front, back)
      | none =>
          if word.isPrefixOf (c :: rest) then some ([], (c :: rest).drop word.length) else none

/-- `strip_copy_suffix`: the id before `-copy-` and a number. -/
def stripCopySuffix (id : PieceId) : PieceId :=
  match splitAtLast "-copy-".toList id.toList with
  | some (front, suffix) =>
      if !suffix.isEmpty && suffix.all Char.isDigit then String.ofList front else id
  | none => id

variable {σ : Type}

/-- The first source with one of two ids. -/
def firstOf (first second : PieceId) (sourcePieces : List (SourcePiece σ)) :
    Option (SourcePiece σ) :=
  sourcePieces.find? fun source => source.id == first || source.id == second

def findSourcePiece (sourcePieceId preparedPieceId : PieceId)
    (sourcePieces : List (SourcePiece σ)) : Option (SourcePiece σ) :=
  match firstOf sourcePieceId preparedPieceId sourcePieces with
  | some direct => some direct
  | none => firstOf (stripCopySuffix sourcePieceId) (stripCopySuffix preparedPieceId) sourcePieces

/-- An id that belongs to a source. -/
def IsSourceId (sourcePieces : List (SourcePiece σ)) (id : PieceId) : Prop :=
  ∃ source ∈ sourcePieces, source.id = id

/-- Two ids of which at most one is a source's, unless they are the same id. -/
def OneAnswer (sourcePieces : List (SourcePiece σ)) (first second : PieceId) : Prop :=
  first ≠ second → ¬ (IsSourceId sourcePieces first ∧ IsSourceId sourcePieces second)

/-- No lookup of the two ids has two answers. -/
def Unambiguous (sourcePieces : List (SourcePiece σ)) (sourcePieceId preparedPieceId : PieceId) :
    Prop :=
  OneAnswer sourcePieces sourcePieceId preparedPieceId ∧
    (¬ IsSourceId sourcePieces sourcePieceId → ¬ IsSourceId sourcePieces preparedPieceId →
      OneAnswer sourcePieces (stripCopySuffix sourcePieceId) (stripCopySuffix preparedPieceId))

/-- The named source is the answer, and the order of the sources does not matter. -/
structure Resolves (sourcePieces : List (SourcePiece σ))
    (sourcePieceId preparedPieceId : PieceId) : Prop where
  named : ∀ source ∈ sourcePieces, source.id = sourcePieceId →
    findSourcePiece sourcePieceId preparedPieceId sourcePieces = some source
  order : ∀ reordered, reordered.Perm sourcePieces →
    findSourcePiece sourcePieceId preparedPieceId reordered =
      findSourcePiece sourcePieceId preparedPieceId sourcePieces

theorem firstOf_eq_some {first second : PieceId} {sourcePieces : List (SourcePiece σ)}
    {source : SourcePiece σ} (h : firstOf first second sourcePieces = some source) :
    source ∈ sourcePieces ∧ (source.id = first ∨ source.id = second) := by
  refine ⟨List.mem_of_find?_eq_some h, ?_⟩
  have hanswers := List.find?_some h
  simpa using hanswers

theorem firstOf_eq_none_iff {first second : PieceId} {sourcePieces : List (SourcePiece σ)} :
    firstOf first second sourcePieces = none ↔
      ¬ IsSourceId sourcePieces first ∧ ¬ IsSourceId sourcePieces second := by
  unfold firstOf IsSourceId
  rw [List.find?_eq_none]
  constructor
  · intro hnone
    refine ⟨?_, ?_⟩
    · rintro ⟨source, hmem, rfl⟩
      exact hnone source hmem (by simp)
    · rintro ⟨source, hmem, rfl⟩
      exact hnone source hmem (by simp)
  · rintro ⟨hfirst, hsecond⟩ source hmem hanswers
    simp only [Bool.or_eq_true, beq_iff_eq] at hanswers
    rcases hanswers with h | h
    · exact hfirst ⟨source, hmem, h⟩
    · exact hsecond ⟨source, hmem, h⟩

section Lookup

variable {sourcePieces : List (SourcePiece σ)}
  (hids : (sourcePieces.map SourcePiece.id).Nodup)

include hids

/-- A source that answers a lookup with one answer is what the lookup finds. -/
theorem firstOf_of_oneAnswer {first second : PieceId}
    (hone : OneAnswer sourcePieces first second) {reordered : List (SourcePiece σ)}
    (hperm : reordered.Perm sourcePieces) {source : SourcePiece σ} (hmem : source ∈ sourcePieces)
    (hanswers : source.id = first ∨ source.id = second) :
    firstOf first second reordered = some source := by
  cases hfound : firstOf first second reordered with
  | none =>
      obtain ⟨hfirst, hsecond⟩ := firstOf_eq_none_iff.mp hfound
      rcases hanswers with h | h
      · exact absurd ⟨source, hperm.mem_iff.mpr hmem, h⟩ hfirst
      · exact absurd ⟨source, hperm.mem_iff.mpr hmem, h⟩ hsecond
  | some found =>
      obtain ⟨hfoundMem, hfoundAnswers⟩ := firstOf_eq_some hfound
      have hfoundMem := hperm.mem_iff.mp hfoundMem
      have hsame : found.id = source.id := by
        by_cases heq : first = second
        · subst heq
          rw [or_self_iff] at hanswers hfoundAnswers
          rw [hanswers, hfoundAnswers]
        · have hnot := hone heq
          rcases hfoundAnswers with hf | hf <;> rcases hanswers with hs | hs
          · rw [hf, hs]
          · exact absurd ⟨⟨found, hfoundMem, hf⟩, ⟨source, hmem, hs⟩⟩ hnot
          · exact absurd ⟨⟨source, hmem, hs⟩, ⟨found, hfoundMem, hf⟩⟩ hnot
          · rw [hf, hs]
      exact congrArg some (List.inj_on_of_nodup_map hids hfoundMem hmem hsame)

omit hids in
/-- A lookup with two answers finds either of them, in some order of the sources. -/
theorem exists_firstOf_ne {first second : PieceId} (hone : ¬ OneAnswer sourcePieces first second) :
    ∃ reordered, reordered.Perm sourcePieces ∧
      firstOf first second reordered ≠ firstOf first second sourcePieces := by
  obtain ⟨hne, hboth⟩ := Classical.not_imp.mp hone
  obtain ⟨⟨a, ha, hfirst⟩, ⟨b, hb, hsecond⟩⟩ := not_not.mp hboth
  -- the one that is not found now is put first
  have hother : ∃ source ∈ sourcePieces, (source.id = first ∨ source.id = second) ∧
      firstOf first second sourcePieces ≠ some source := by
    by_cases hfound : firstOf first second sourcePieces = some a
    · refine ⟨b, hb, .inr hsecond, fun hfound' => hne ?_⟩
      rw [← hfirst, ← hsecond, Option.some.inj (hfound.symm.trans hfound')]
    · exact ⟨a, ha, .inl hfirst, hfound⟩
  obtain ⟨source, hmem, hanswers, hnot⟩ := hother
  obtain ⟨before, after, rfl⟩ := List.append_of_mem hmem
  refine ⟨source :: (before ++ after), List.perm_middle.symm, fun heq => hnot ?_⟩
  rw [← heq]
  unfold firstOf
  exact List.find?_cons_of_pos (by simpa using hanswers)

/-! ## §3  When the lookup is right -/

omit hids in
theorem findSourcePiece_of_direct {sourcePieceId preparedPieceId : PieceId}
    {source : SourcePiece σ} (h : firstOf sourcePieceId preparedPieceId sourcePieces = some source) :
    findSourcePiece sourcePieceId preparedPieceId sourcePieces = some source := by
  unfold findSourcePiece
  rw [h]

omit hids in
theorem findSourcePiece_of_none {sourcePieceId preparedPieceId : PieceId}
    (h : firstOf sourcePieceId preparedPieceId sourcePieces = none) :
    findSourcePiece sourcePieceId preparedPieceId sourcePieces =
      firstOf (stripCopySuffix sourcePieceId) (stripCopySuffix preparedPieceId) sourcePieces := by
  unfold findSourcePiece
  rw [h]

omit hids in
/-- The ids that belong to sources do not depend on the order. -/
theorem isSourceId_perm {reordered : List (SourcePiece σ)} (hperm : reordered.Perm sourcePieces)
    (id : PieceId) : IsSourceId reordered id ↔ IsSourceId sourcePieces id :=
  exists_congr fun _ => and_congr_left fun _ => hperm.mem_iff

omit hids in
theorem firstOf_none_perm {first second : PieceId} {reordered : List (SourcePiece σ)}
    (hperm : reordered.Perm sourcePieces) :
    firstOf first second reordered = none ↔ firstOf first second sourcePieces = none := by
  rw [firstOf_eq_none_iff, firstOf_eq_none_iff, isSourceId_perm hperm, isSourceId_perm hperm]

/-- One lookup with at most one answer does not read the order of the sources. -/
theorem firstOf_perm {first second : PieceId} (hone : OneAnswer sourcePieces first second)
    {reordered : List (SourcePiece σ)} (hperm : reordered.Perm sourcePieces) :
    firstOf first second reordered = firstOf first second sourcePieces := by
  cases hfound : firstOf first second sourcePieces with
  | none => exact (firstOf_none_perm hperm).mpr hfound
  | some source =>
      obtain ⟨hmem, hanswers⟩ := firstOf_eq_some hfound
      exact firstOf_of_oneAnswer hids hone hperm hmem hanswers

/-- Lookups with at most one answer resolve. -/
theorem resolves_of_unambiguous {sourcePieceId preparedPieceId : PieceId}
    (h : Unambiguous sourcePieces sourcePieceId preparedPieceId) :
    Resolves sourcePieces sourcePieceId preparedPieceId where
  named := by
    intro source hmem hid
    exact findSourcePiece_of_direct
      (firstOf_of_oneAnswer hids h.1 (List.Perm.refl _) hmem (.inl hid))
  order := by
    intro reordered hperm
    cases hdirect : firstOf sourcePieceId preparedPieceId sourcePieces with
    | some source =>
        rw [findSourcePiece_of_direct hdirect,
          findSourcePiece_of_direct ((firstOf_perm hids h.1 hperm).trans hdirect)]
    | none =>
        obtain ⟨hsource, hprepared⟩ := firstOf_eq_none_iff.mp hdirect
        rw [findSourcePiece_of_none hdirect,
          findSourcePiece_of_none ((firstOf_none_perm hperm).mpr hdirect)]
        exact firstOf_perm hids (h.2 hsource hprepared) hperm

omit hids in
/-- A lookup that does not read the order has at most one answer. -/
theorem unambiguous_of_resolves {sourcePieceId preparedPieceId : PieceId}
    (h : Resolves sourcePieces sourcePieceId preparedPieceId) :
    Unambiguous sourcePieces sourcePieceId preparedPieceId := by
  refine ⟨?_, fun hsource hprepared => ?_⟩
  · by_contra hone
    obtain ⟨reordered, hperm, hne⟩ := exists_firstOf_ne hone
    apply hne
    -- two answers: the first lookup finds something in either order
    cases hdirect : firstOf sourcePieceId preparedPieceId sourcePieces with
    | none =>
        rw [(firstOf_none_perm hperm).mpr hdirect]
    | some source =>
        cases hdirect' : firstOf sourcePieceId preparedPieceId reordered with
        | none => rw [(firstOf_none_perm hperm).mp hdirect'] at hdirect; cases hdirect
        | some source' =>
            have horder := h.order reordered hperm
            rw [findSourcePiece_of_direct hdirect, findSourcePiece_of_direct hdirect'] at horder
            exact horder
  · by_contra hone
    obtain ⟨reordered, hperm, hne⟩ := exists_firstOf_ne hone
    have hdirect : firstOf sourcePieceId preparedPieceId sourcePieces = none :=
      firstOf_eq_none_iff.mpr ⟨hsource, hprepared⟩
    have horder := h.order reordered hperm
    rw [findSourcePiece_of_none hdirect,
      findSourcePiece_of_none ((firstOf_none_perm hperm).mpr hdirect)] at horder
    exact hne horder

end Lookup

/-- **The lookup for a piece of an accepted request is right exactly when it is unambiguous.** -/
theorem resolves_iff_unambiguous {ρ π : Type} (checks : FieldChecks ρ π σ)
    (request : EngineRequest ρ π σ) (haccepted : request.validate checks = .ok ())
    (piece : PreparedPiece π) :
    Resolves request.sourcePieces piece.sourcePieceId piece.id ↔
      Unambiguous request.sourcePieces piece.sourcePieceId piece.id :=
  ⟨unambiguous_of_resolves,
    resolves_of_unambiguous (request.nodup_of_validate checks haccepted).2⟩

/-! A request with a piece `a` cut from the source `b`, while another source is called `a`. -/

def acceptAll : FieldChecks Unit Unit Unit where
  header _ := .ok ()
  piece _ _ := .ok ()
  source _ _ := .ok ()
  settings _ := .ok ()

def crossedPiece : PreparedPiece Unit := ⟨"a", "b", none, ()⟩

def crossedRequest : EngineRequest Unit Unit Unit where
  pieces := [crossedPiece]
  sourcePieces := [⟨"a", "file", ()⟩, ⟨"b", "file", ()⟩]
  rest := ()

theorem resolves_iff_unambiguous_crossed :
    crossedRequest.validate acceptAll = .ok () ∧
      (Resolves crossedRequest.sourcePieces "b" "a" ↔
        Unambiguous crossedRequest.sourcePieces "b" "a") := by
  have haccepted : crossedRequest.validate acceptAll = .ok () := by decide
  exact ⟨haccepted, resolves_iff_unambiguous acceptAll crossedRequest haccepted crossedPiece⟩

/-- The accepted request is given source `a` for the piece that names source `b`, and `b` when
the two sources are listed the other way round. -/
theorem findSourcePiece_crossed :
    crossedRequest.validate acceptAll = .ok () ∧ crossedPiece ∈ crossedRequest.pieces ∧
      ¬ Resolves crossedRequest.sourcePieces crossedPiece.sourcePieceId crossedPiece.id ∧
      (findSourcePiece "b" "a" crossedRequest.sourcePieces).map SourcePiece.id = some "a" ∧
      (findSourcePiece "b" "a" crossedRequest.sourcePieces.reverse).map SourcePiece.id =
        some "b" := by
  refine ⟨by decide, List.mem_singleton.mpr rfl, fun h => ?_, by decide, by decide⟩
  have hnamed := h.named ⟨"b", "file", ()⟩ (by simp [crossedRequest]) rfl
  have hid := congrArg (Option.map SourcePiece.id) hnamed
  revert hid
  decide

end PolygonNesting.Protocol
