import Mathlib.Data.List.GetD
import Mathlib.Data.List.Perm.Basic
import Mathlib.Data.List.Rotate
import Mathlib.Algebra.Order.Group.Unbundled.Int
import PolygonNesting.Caches.Key
import PolygonNesting.Canonical.Grid
import PolygonNesting.Canonical.Token
import PolygonNesting.Lib.SeparatedText

set_option linter.unusedSectionVars false

/-!
# The identity of a layout

A text that names a layout up to its position: every ring is written from the start
vertex and in the direction that give the smallest text, the layout is moved to the
origin, the rings are sorted, and of the four quarter turns the smallest text is
taken.  Its hash is the collision identity of an endpoint.
-/

namespace PolygonNesting

open PrefixFree

/-! ## §1  Cyclic keys -/

/-- `cyclic_token_index`. -/
def cyclicTokenIndex (length : ℕ) (reversed : Bool) (offset position : ℕ) : ℕ :=
  let rotated := (offset + position) % length
  if reversed then length - 1 - rotated else rotated

/-- The tokens of one rotation candidate. -/
def cyclicTokens (tokens : List String) (candidate : Bool × ℕ) : List String :=
  (List.range tokens.length).map fun position =>
    tokens.getD (cyclicTokenIndex tokens.length candidate.1 candidate.2 position) ""

/-- `cyclic_key_code_units`: the joined text of a candidate, code unit by code unit. -/
def cyclicKeyCodeUnits (tokens : List String) (candidate : Bool × ℕ) : List ℕ :=
  (List.range tokens.length).flatMap fun position =>
    codeUnits (tokens.getD
      (cyclicTokenIndex tokens.length candidate.1 candidate.2 position) "") ++
      if position + 1 < tokens.length then [';'.toNat] else []

/-- Both directions, every offset. -/
def cyclicCandidates (length : ℕ) : List (Bool × ℕ) :=
  [false, true].flatMap fun reversed =>
    (List.range length).map fun offset => (reversed, offset)

/-- Keep the candidate unless the other one is smaller. -/
def betterCandidate (tokens : List String) (best candidate : Bool × ℕ) : Bool × ℕ :=
  if candidate = (false, 0) then best
  else if cyclicKeyCodeUnits tokens candidate < cyclicKeyCodeUnits tokens best then candidate
  else best

def canonicalBidirectionalCyclicKey (tokens : List String) : String :=
  if tokens = [] then ""
  else
    let best := (cyclicCandidates tokens.length).foldl (betterCandidate tokens) (false, 0)
    ";".intercalate (cyclicTokens tokens best)

/-! ## §2  The identity -/

inductive QuarterTurn where
  | zero
  | ninety
  | oneEighty
  | twoSeventy
  deriving DecidableEq

def quarterTurns : List QuarterTurn := [.zero, .ninety, .oneEighty, .twoSeventy]

def rotateGridPoint (point : CanonicalGridPoint) : QuarterTurn → CanonicalGridPoint
  | .zero => point
  | .ninety => ⟨-point.y, point.x⟩
  | .oneEighty => ⟨-point.x, -point.y⟩
  | .twoSeventy => ⟨point.y, -point.x⟩

/-- The token of a vertex. -/
def gridPointToken (point : CanonicalGridPoint) : String :=
  toString point.x ++ "," ++ toString point.y

def canonicalRing (path : CanonicalGridPath) : String :=
  canonicalBidirectionalCyclicKey (path.map gridPointToken)

/-- `json_stringify_string_array`. -/
def jsonStringifyStringArray (values : List String) : String :=
  String.ofList ('[' :: (Caches.jsonParts values ++ [']']))

def translateGridPoint (dx dy : ℤ) (point : CanonicalGridPoint) : CanonicalGridPoint :=
  ⟨point.x + dx, point.y + dy⟩

def identityAtQuarterTurn (paths : List CanonicalGridPath) (turn : QuarterTurn) : String :=
  let rotated := paths.map fun path => path.map (rotateGridPoint · turn)
  match rotated.flatten with
  | [] => "[]"
  | first :: rest =>
      let minX := rest.foldl (fun least point => min least point.x) first.x
      let minY := rest.foldl (fun least point => min least point.y) first.y
      let ringKeys := rotated.map fun path =>
        canonicalRing (path.map (translateGridPoint (-minX) (-minY)))
      jsonStringifyStringArray (ringKeys.mergeSort keyLe)

/-- The smallest of the four texts. -/
def smallestIdentity (paths : List CanonicalGridPath) : Option String :=
  ((quarterTurns.map (identityAtQuarterTurn paths)).mergeSort keyLe).head?

def canonicalCollisionLayoutIdentity {F : Type} [LinearOrder F] [Zero F] [One F] [Add F]
    [Sub F] [Neg F] [Mul F] [Div F] [JsMath F] (placed : List (IrregularPlacedPiece F)) :
    Option String := do
  let polygons ← canonicalPlacedPolygons placed
  smallestIdentity (polygons.map (·.path))

/-! ## §3  The same layout -/

/-- Two layouts that differ by the order of the pieces, a translation, quarter turns,
and start vertices and windings of rings. -/
inductive SameLayout : List CanonicalGridPath → List CanonicalGridPath → Prop where
  | refl (paths : List CanonicalGridPath) : SameLayout paths paths
  | symm {paths paths' : List CanonicalGridPath} : SameLayout paths paths' →
      SameLayout paths' paths
  | trans {paths paths' paths'' : List CanonicalGridPath} : SameLayout paths paths' →
      SameLayout paths' paths'' → SameLayout paths paths''
  | permute {paths paths' : List CanonicalGridPath} : paths.Perm paths' →
      SameLayout paths paths'
  | translate (dx dy : ℤ) (paths : List CanonicalGridPath) :
      SameLayout paths (paths.map fun path => path.map (translateGridPoint dx dy))
  | turn (turn : QuarterTurn) (paths : List CanonicalGridPath) :
      SameLayout paths (paths.map fun path => path.map (rotateGridPoint · turn))
  | startVertex (before after : List CanonicalGridPath) (path : CanonicalGridPath) (n : ℕ) :
      SameLayout (before ++ path :: after) (before ++ path.rotate n :: after)
  | winding (before after : List CanonicalGridPath) (path : CanonicalGridPath) :
      SameLayout (before ++ path :: after) (before ++ path.reverse :: after)

/-! ## §4  The key of a ring -/

/-- The same cyclic sequence, up to its direction. -/
def SameRing {α : Type} (ring ring' : List α) : Prop :=
  ring ~r ring' ∨ ring ~r ring'.reverse

theorem SameRing.symm {α : Type} {ring ring' : List α} (h : SameRing ring ring') :
    SameRing ring' ring := by
  rcases h with h | h
  · exact .inl h.symm
  · refine .inr ?_
    have hreverse := h.symm.reverse
    rwa [List.reverse_reverse] at hreverse

theorem SameRing.trans {α : Type} {ring ring' ring'' : List α} (h : SameRing ring ring')
    (h' : SameRing ring' ring'') : SameRing ring ring'' := by
  rcases h with h | h <;> rcases h' with h' | h'
  · exact .inl (h.trans h')
  · exact .inr (h.trans h')
  · exact .inr (h.trans h'.reverse)
  · refine .inl (h.trans ?_)
    have hreverse := h'.reverse
    rwa [List.reverse_reverse] at hreverse

theorem SameRing.perm {α : Type} {ring ring' : List α} (h : SameRing ring ring') :
    ring.Perm ring' := by
  rcases h with h | h
  · exact h.perm
  · exact h.perm.trans (List.reverse_perm _)

/-- A candidate is a rotation of the tokens or of their reversal. -/
theorem cyclicTokens_eq_rotate (tokens : List String) (reversed : Bool) (offset : ℕ) :
    cyclicTokens tokens (reversed, offset) =
      (if reversed then tokens.reverse else tokens).rotate offset := by
  refine List.ext_getElem ?_ fun position h h' => ?_
  · cases reversed <;> simp [cyclicTokens]
  · have hposition : position < tokens.length := by simpa [cyclicTokens] using h
    have hpos : 0 < tokens.length := by omega
    have hmod : (offset + position) % tokens.length < tokens.length := Nat.mod_lt _ hpos
    cases reversed with
    | false =>
        simp only [cyclicTokens, cyclicTokenIndex, List.getElem_map, List.getElem_range,
          Bool.false_eq_true, if_false, List.getElem_rotate]
        rw [List.getD_eq_getElem _ _ hmod]
        congr 2
        omega
    | true =>
        simp only [cyclicTokens, cyclicTokenIndex, List.getElem_map, List.getElem_range,
          if_true, List.getElem_rotate, List.getElem_reverse, List.length_reverse]
        rw [List.getD_eq_getElem _ _ (by omega)]
        congr 3
        omega

theorem mem_cyclicCandidates {length : ℕ} {candidate : Bool × ℕ} :
    candidate ∈ cyclicCandidates length ↔ candidate.2 < length := by
  obtain ⟨reversed, offset⟩ := candidate
  cases reversed <;> simp [cyclicCandidates]

/-- The candidates are the writings of the ring. -/
theorem exists_cyclicTokens_iff {tokens tokens' : List String} (hne : tokens ≠ []) :
    (∃ candidate ∈ cyclicCandidates tokens.length, cyclicTokens tokens candidate = tokens') ↔
      SameRing tokens' tokens := by
  have hpos : 0 < tokens.length := List.length_pos_of_ne_nil hne
  have hrotate : ∀ ring : List String, ring.length = tokens.length →
      ((∃ offset < tokens.length, ring.rotate offset = tokens') ↔ tokens' ~r ring) := by
    intro ring hlength
    constructor
    · rintro ⟨offset, _, h⟩
      exact List.IsRotated.symm ⟨offset, h⟩
    · intro h
      obtain ⟨n, hn⟩ := h.symm
      refine ⟨n % ring.length, hlength ▸ Nat.mod_lt _ (hlength ▸ hpos), ?_⟩
      rw [List.rotate_mod, hn]
  constructor
  · rintro ⟨⟨reversed, offset⟩, hmem, h⟩
    rw [cyclicTokens_eq_rotate] at h
    cases reversed with
    | false => exact .inl ((hrotate tokens rfl).1 ⟨offset, mem_cyclicCandidates.1 hmem, h⟩)
    | true =>
        exact .inr ((hrotate tokens.reverse List.length_reverse).1
          ⟨offset, mem_cyclicCandidates.1 hmem, h⟩)
  · rintro (h | h)
    · obtain ⟨offset, hoffset, hrotated⟩ := (hrotate tokens rfl).2 h
      exact ⟨(false, offset), mem_cyclicCandidates.2 hoffset,
        (cyclicTokens_eq_rotate _ _ _).trans hrotated⟩
    · obtain ⟨offset, hoffset, hrotated⟩ := (hrotate tokens.reverse List.length_reverse).2 h
      exact ⟨(true, offset), mem_cyclicCandidates.2 hoffset,
        (cyclicTokens_eq_rotate _ _ _).trans hrotated⟩

/-- Separators after all words but the last are separators before all but the first. -/
theorem flatMap_range_separated (f : ℕ → List ℕ) (separator : ℕ) (n : ℕ) :
    ((List.range n).flatMap fun i => f i ++ [separator]) ++ f n =
      f 0 ++ (List.range n).flatMap fun i => separator :: f (i + 1) := by
  induction n with
  | zero => simp
  | succ n ih =>
      rw [List.range_succ, List.flatMap_append, List.flatMap_append, ← List.append_assoc,
        ← ih]
      simp

theorem codeUnits_append (first second : String) :
    codeUnits (first ++ second) = codeUnits first ++ codeUnits second := by
  simp [codeUnits]

theorem codeUnits_intercalate (words : List String) : ∀ first : String,
    codeUnits (";".intercalate (first :: words)) =
      codeUnits first ++ words.flatMap fun word => ';'.toNat :: codeUnits word := by
  induction words with
  | nil => intro first; simp
  | cons word words ih =>
      intro first
      rw [String.intercalate_cons_cons, codeUnits_append, codeUnits_append, ih,
        List.flatMap_cons, List.append_assoc]
      rfl

/-- The virtual text of a candidate is its joined text. -/
theorem cyclicKeyCodeUnits_eq {tokens : List String} (hne : tokens ≠ [])
    (candidate : Bool × ℕ) :
    cyclicKeyCodeUnits tokens candidate =
      codeUnits (";".intercalate (cyclicTokens tokens candidate)) := by
  obtain ⟨n, hn⟩ : ∃ n, tokens.length = n + 1 :=
    Nat.exists_eq_succ_of_ne_zero (List.length_pos_of_ne_nil hne).ne'
  unfold cyclicKeyCodeUnits cyclicTokens
  rw [hn]
  set word : ℕ → String := fun position =>
    tokens.getD (cyclicTokenIndex (n + 1) candidate.1 candidate.2 position) "" with hword
  have hinner : ((List.range n).flatMap fun position => codeUnits (word position) ++
      if position + 1 < n + 1 then [';'.toNat] else []) =
        (List.range n).flatMap fun position => codeUnits (word position) ++ [';'.toNat] := by
    refine List.flatMap_congr fun position hposition => ?_
    rw [if_pos (Nat.succ_lt_succ (List.mem_range.1 hposition))]
  rw [List.range_succ, List.flatMap_append, hinner, List.flatMap_singleton,
    if_neg (lt_irrefl _), List.append_nil,
    flatMap_range_separated (fun position => codeUnits (word position)), ← List.range_succ,
    List.range_succ_eq_map, List.map_cons, codeUnits_intercalate, List.map_map,
    List.flatMap_map]
  rfl

/-- The fold keeps a candidate that none of the others is smaller than. -/
theorem foldl_betterCandidate (tokens : List String) (candidates : List (Bool × ℕ)) :
    ∀ best : Bool × ℕ,
      cyclicKeyCodeUnits tokens best ≤ cyclicKeyCodeUnits tokens (false, 0) →
      ((candidates.foldl (betterCandidate tokens) best = best ∨
          candidates.foldl (betterCandidate tokens) best ∈ candidates) ∧
        cyclicKeyCodeUnits tokens (candidates.foldl (betterCandidate tokens) best) ≤
          cyclicKeyCodeUnits tokens best ∧
        ∀ candidate ∈ candidates,
          cyclicKeyCodeUnits tokens (candidates.foldl (betterCandidate tokens) best) ≤
            cyclicKeyCodeUnits tokens candidate) := by
  induction candidates with
  | nil => exact fun best _ => ⟨.inl rfl, le_rfl, by simp⟩
  | cons candidate candidates ih =>
      intro best hbest
      have hnext : (betterCandidate tokens best candidate = best ∨
            betterCandidate tokens best candidate = candidate) ∧
          cyclicKeyCodeUnits tokens (betterCandidate tokens best candidate) ≤
            cyclicKeyCodeUnits tokens best ∧
          cyclicKeyCodeUnits tokens (betterCandidate tokens best candidate) ≤
            cyclicKeyCodeUnits tokens candidate := by
        unfold betterCandidate
        split
        · rename_i hfirst
          exact ⟨.inl rfl, le_rfl, hfirst ▸ hbest⟩
        · split
          · rename_i hlt
            exact ⟨.inr rfl, hlt.le, le_rfl⟩
          · rename_i hlt
            exact ⟨.inl rfl, le_rfl, not_lt.1 hlt⟩
      obtain ⟨hwhich, hle, hle'⟩ := hnext
      obtain ⟨hmem, hbest', hall⟩ := ih _ (hle.trans hbest)
      refine ⟨?_, hbest'.trans hle, List.forall_mem_cons.2 ⟨hbest'.trans hle', hall⟩⟩
      rw [List.foldl_cons]
      rcases hmem with hmem | hmem
      · rcases hwhich with hwhich | hwhich
        · exact .inl (hmem.trans hwhich)
        · exact .inr (by rw [hmem, hwhich]; exact List.mem_cons_self)
      · exact .inr (List.mem_cons_of_mem _ hmem)

/-- The key is one of the writings of the ring, and none is smaller. -/
theorem canonicalBidirectionalCyclicKey_spec {tokens : List String} (hne : tokens ≠ []) :
    (∃ tokens', SameRing tokens' tokens ∧
        canonicalBidirectionalCyclicKey tokens = ";".intercalate tokens') ∧
      ∀ tokens', SameRing tokens' tokens →
        codeUnits (canonicalBidirectionalCyclicKey tokens) ≤
          codeUnits (";".intercalate tokens') := by
  have hpos : 0 < tokens.length := List.length_pos_of_ne_nil hne
  obtain ⟨hmem, hfirst, hall⟩ :=
    foldl_betterCandidate tokens (cyclicCandidates tokens.length) (false, 0) le_rfl
  unfold canonicalBidirectionalCyclicKey
  rw [if_neg hne]
  dsimp only
  constructor
  · refine ⟨_, (exists_cyclicTokens_iff hne).1 ⟨_, ?_, rfl⟩, rfl⟩
    rcases hmem with hmem | hmem
    · rw [hmem]
      exact mem_cyclicCandidates.2 hpos
    · exact hmem
  · intro tokens' h
    obtain ⟨candidate, hcandidate, rfl⟩ := (exists_cyclicTokens_iff hne).2 h
    rw [← cyclicKeyCodeUnits_eq hne, ← cyclicKeyCodeUnits_eq hne]
    exact hall candidate hcandidate

/-- Two writings of one ring have one key. -/
theorem canonicalBidirectionalCyclicKey_of_sameRing {tokens tokens' : List String}
    (h : SameRing tokens tokens') :
    canonicalBidirectionalCyclicKey tokens = canonicalBidirectionalCyclicKey tokens' := by
  by_cases hne : tokens = []
  · have hnil := h.perm
    rw [hne] at hnil
    rw [hne, List.nil_perm.1 hnil]
  · have hne' : tokens' ≠ [] := fun hnil => hne (by
      have hperm := h.perm
      rw [hnil] at hperm
      exact List.perm_nil.1 hperm)
    obtain ⟨⟨word, hword, hkey⟩, hle⟩ := canonicalBidirectionalCyclicKey_spec hne
    obtain ⟨⟨word', hword', hkey'⟩, hle'⟩ := canonicalBidirectionalCyclicKey_spec hne'
    apply codeUnits_injective
    apply le_antisymm
    · rw [hkey']
      exact hle word' (hword'.trans h.symm)
    · rw [hkey]
      exact hle' word (hword.trans h)

/-! ## §5  Texts of points -/

theorem toList_toString_natCast (n : ℕ) : (toString (n : ℤ)).toList = Nat.toDigits 10 n :=
  Nat.toList_repr

theorem toList_toString_negSucc (n : ℕ) :
    (toString (Int.negSucc n)).toList = '-' :: Nat.toDigits 10 (n + 1) := by
  have h : toString (Int.negSucc n) = "-" ++ Nat.repr (n + 1) := rfl
  rw [h, String.toList_append, Nat.toList_repr]
  rfl

theorem minus_notMem_toDigits (n : ℕ) : '-' ∉ Nat.toDigits 10 n := by
  intro h
  have hdigit := Nat.isDigit_of_mem_toDigits (by omega) le_rfl h
  revert hdigit
  decide

theorem toDigits_injective : Function.Injective (Nat.toDigits 10) := by
  intro m n h
  rw [← Nat.ofDigitChars_ten_toDigits (n := m), h, Nat.ofDigitChars_ten_toDigits]

/-- An integer text has digits and a minus sign. -/
theorem isDigit_of_mem_toString {value : ℤ} {ch : Char} (h : ch ∈ (toString value).toList) :
    ch.isDigit = true ∨ ch = '-' := by
  cases value with
  | ofNat n =>
      rw [Int.ofNat_eq_natCast, toList_toString_natCast] at h
      exact .inl (Nat.isDigit_of_mem_toDigits (by omega) le_rfl h)
  | negSucc n =>
      rw [toList_toString_negSucc] at h
      rcases List.mem_cons.1 h with h | h
      · exact .inr h
      · exact .inl (Nat.isDigit_of_mem_toDigits (by omega) le_rfl h)

theorem toString_int_injective : Function.Injective (toString : ℤ → String) := by
  have hmixed : ∀ m n : ℕ, toString (m : ℤ) ≠ toString (Int.negSucc n) := by
    intro m n h
    have htext := congrArg String.toList h
    rw [toList_toString_natCast, toList_toString_negSucc] at htext
    exact minus_notMem_toDigits m (htext ▸ List.mem_cons_self)
  intro first second h
  cases first with
  | ofNat m =>
      cases second with
      | ofNat n =>
          have htext := congrArg String.toList h
          rw [Int.ofNat_eq_natCast, Int.ofNat_eq_natCast, toList_toString_natCast,
            toList_toString_natCast] at htext
          rw [toDigits_injective htext]
      | negSucc n => exact absurd h (hmixed m n)
  | negSucc m =>
      cases second with
      | ofNat n => exact absurd h.symm (hmixed n m)
      | negSucc n =>
          have htext := congrArg String.toList h
          rw [toList_toString_negSucc, toList_toString_negSucc] at htext
          have hsucc := toDigits_injective (List.cons.inj htext).2
          rw [Nat.succ_injective hsucc]

theorem ne_of_mem_toString {value : ℤ} {ch symbol : Char} (h : ch ∈ (toString value).toList)
    (hdigit : symbol.isDigit = false) (hminus : symbol ≠ '-') : ch ≠ symbol := by
  rintro rfl
  rcases isDigit_of_mem_toString h with h | h
  · rw [hdigit] at h
    cases h
  · exact hminus h

theorem toList_gridPointToken (point : CanonicalGridPoint) :
    (gridPointToken point).toList =
      (toString point.x).toList ++ ',' :: (toString point.y).toList := by
  simp [gridPointToken]

theorem gridPointToken_injective : Function.Injective gridPointToken := by
  intro first second h
  have htext := congrArg String.toList h
  rw [toList_gridPointToken, toList_gridPointToken] at htext
  have hword : ∀ value : ℤ, ∀ ch ∈ (toString value).toList, ¬ ch = ',' :=
    fun value ch hmem => ne_of_mem_toString hmem (by decide) (by decide)
  have hstop : ∀ rest : List Char, AtStop (fun ch => ch = ',') (',' :: rest) := by
    intro rest
    apply atStop_cons
    rfl
  obtain ⟨hx, hrest⟩ := eq_of_atStop (hword _) (hword _) (hstop _) (hstop _) htext
  have hy := (List.cons.inj hrest).2
  cases first
  cases second
  rw [CanonicalGridPoint.mk.injEq]
  exact ⟨toString_int_injective (String.toList_injective hx),
    toString_int_injective (String.toList_injective hy)⟩

/-- A token has digits, signs and its comma only. -/
theorem notMem_gridPointToken {symbol : Char} (hdigit : symbol.isDigit = false)
    (hminus : symbol ≠ '-') (hcomma : symbol ≠ ',') (point : CanonicalGridPoint) :
    symbol ∉ (gridPointToken point).toList := by
  intro h
  rw [toList_gridPointToken] at h
  rcases List.mem_append.1 h with h | h
  · exact ne_of_mem_toString h hdigit hminus rfl
  · rcases List.mem_cons.1 h with h | h
    · exact hcomma h
    · exact ne_of_mem_toString h hdigit hminus rfl

theorem gridPointToken_ne_empty (point : CanonicalGridPoint) : gridPointToken point ≠ "" := by
  intro h
  have htext := congrArg String.toList h
  rw [toList_gridPointToken] at htext
  simp at htext

/-! ## §6  Rings -/

theorem SameRing.map {α β : Type} {ring ring' : List α} (f : α → β) (h : SameRing ring ring') :
    SameRing (ring.map f) (ring'.map f) := by
  rcases h with h | h
  · exact .inl (h.map f)
  · refine .inr ?_
    rw [← List.map_reverse]
    exact h.map f

theorem sameRing_of_map {α β : Type} {f : α → β} (hf : Function.Injective f)
    {ring ring' : List α} (h : SameRing (ring.map f) (ring'.map f)) : SameRing ring ring' := by
  have hrotated : ∀ other : List α, ring.map f ~r other.map f → ring ~r other := by
    rintro other ⟨n, hn⟩
    rw [← List.map_rotate] at hn
    exact ⟨n, List.map_injective_iff.2 hf hn⟩
  rcases h with h | h
  · exact .inl (hrotated _ h)
  · rw [← List.map_reverse] at h
    exact .inr (hrotated _ h)

/-- A key without semicolons in its tokens gives the ring back. -/
theorem sameRing_of_cyclicKey {tokens tokens' : List String}
    (hclean : ∀ token ∈ tokens, ';' ∉ token.toList)
    (hclean' : ∀ token ∈ tokens', ';' ∉ token.toList) (hne : tokens ≠ []) (hne' : tokens' ≠ [])
    (h : canonicalBidirectionalCyclicKey tokens = canonicalBidirectionalCyclicKey tokens') :
    SameRing tokens tokens' := by
  obtain ⟨⟨words, hwords, hkey⟩, _⟩ := canonicalBidirectionalCyclicKey_spec hne
  obtain ⟨⟨words', hwords', hkey'⟩, _⟩ := canonicalBidirectionalCyclicKey_spec hne'
  have hnonempty : ∀ {ring words : List String}, ring ≠ [] → SameRing words ring →
      words ≠ [] := by
    rintro ring _ hring hsame rfl
    exact hring (List.nil_perm.1 hsame.perm)
  have heq : words = words' := SeparatedText.intercalate_inj (c := ';') rfl
    (fun token htoken => hclean token (hwords.perm.mem_iff.1 htoken))
    (fun token htoken => hclean' token (hwords'.perm.mem_iff.1 htoken))
    (hnonempty hne hwords) (hnonempty hne' hwords') (by rw [← hkey, ← hkey', h])
  exact hwords.symm.trans (heq ▸ hwords')

/-- The tokens of a key: not empty, and without the separator. -/
def SeparatorFree (tokens : List String) : Prop :=
  ∀ token ∈ tokens, token ≠ "" ∧ ';' ∉ token.toList

/-- Only a key without tokens is empty. -/
theorem canonicalBidirectionalCyclicKey_eq_empty_iff {tokens : List String}
    (hfree : SeparatorFree tokens) : canonicalBidirectionalCyclicKey tokens = "" ↔ tokens = [] := by
  constructor
  · intro hkey
    by_contra hne
    obtain ⟨⟨words, hwords, hword⟩, _⟩ := canonicalBidirectionalCyclicKey_spec hne
    rw [hkey, eq_comm, SeparatedText.intercalate_eq_empty_iff fun word hmem =>
      (hfree word (hwords.perm.mem_iff.1 hmem)).1] at hword
    subst hword
    exact hne (List.nil_perm.1 hwords.perm)
  · rintro rfl
    exact if_pos rfl

/-- A key has the characters of its tokens and of the separator. -/
theorem notMem_canonicalBidirectionalCyclicKey {symbol : Char} (hsemicolon : symbol ≠ ';')
    {tokens : List String} (htokens : ∀ token ∈ tokens, symbol ∉ token.toList) :
    symbol ∉ (canonicalBidirectionalCyclicKey tokens).toList := by
  by_cases hne : tokens = []
  · rw [hne]
    exact List.not_mem_nil
  · obtain ⟨⟨words, hwords, hkey⟩, _⟩ := canonicalBidirectionalCyclicKey_spec hne
    rw [hkey]
    exact SeparatedText.not_mem_intercalate (by simpa using hsemicolon) fun word hword =>
      htokens word (hwords.perm.mem_iff.1 hword)

/-- Of separator-free tokens, the key names the ring and nothing else. -/
theorem canonicalBidirectionalCyclicKey_eq_iff {tokens tokens' : List String}
    (hfree : SeparatorFree tokens) (hfree' : SeparatorFree tokens') :
    canonicalBidirectionalCyclicKey tokens = canonicalBidirectionalCyclicKey tokens' ↔
      SameRing tokens tokens' := by
  refine ⟨fun h => ?_, canonicalBidirectionalCyclicKey_of_sameRing⟩
  have hempty := canonicalBidirectionalCyclicKey_eq_empty_iff hfree
  have hempty' := canonicalBidirectionalCyclicKey_eq_empty_iff hfree'
  rw [h, hempty'] at hempty
  by_cases hne : tokens = []
  · rw [hne, hempty.2 hne]
    exact .inl (.refl _)
  · exact sameRing_of_cyclicKey (fun token htoken => (hfree token htoken).2)
      (fun token htoken => (hfree' token htoken).2) hne (fun h' => hne (hempty.1 h')) h

/-- **The cyclic key is the smallest joined text** of the rotations of the tokens and
of their reversal.  It does not depend on start and direction, and of tokens that
are not empty and free of the separator it names nothing else. -/
theorem canonicalBidirectionalCyclicKey_smallest :
    (∀ tokens : List String,
      (∃ n, canonicalBidirectionalCyclicKey tokens = ";".intercalate (tokens.rotate n) ∨
        canonicalBidirectionalCyclicKey tokens = ";".intercalate (tokens.reverse.rotate n)) ∧
      ∀ n, cmpJsCodeUnits (canonicalBidirectionalCyclicKey tokens)
            (";".intercalate (tokens.rotate n)) ≠ .gt ∧
          cmpJsCodeUnits (canonicalBidirectionalCyclicKey tokens)
            (";".intercalate (tokens.reverse.rotate n)) ≠ .gt) ∧
    (∀ (tokens : List String) (n : ℕ),
      canonicalBidirectionalCyclicKey (tokens.rotate n) =
          canonicalBidirectionalCyclicKey tokens ∧
        canonicalBidirectionalCyclicKey tokens.reverse =
          canonicalBidirectionalCyclicKey tokens) ∧
    ∀ tokens tokens' : List String, SeparatorFree tokens → SeparatorFree tokens' →
      (canonicalBidirectionalCyclicKey tokens = canonicalBidirectionalCyclicKey tokens' ↔
        SameRing tokens tokens') := by
  have hnotgt : ∀ {first second : String}, codeUnits first ≤ codeUnits second →
      cmpJsCodeUnits first second ≠ .gt := by
    intro first second h hgt
    unfold cmpJsCodeUnits compareOfLessAndEq at hgt
    split at hgt
    · cases hgt
    · next hlt =>
      split at hgt
      · cases hgt
      · next hne => exact hne (le_antisymm h (not_lt.1 hlt))
  refine ⟨fun tokens => ?_, fun tokens n => ⟨?_, ?_⟩, fun tokens tokens' hfree hfree' => ?_⟩
  · by_cases hne : tokens = []
    · subst hne
      refine ⟨⟨0, .inl String.intercalate_nil.symm⟩, fun n => ?_⟩
      rw [List.reverse_nil, List.rotate_nil]
      exact ⟨hnotgt (by rw [String.intercalate_nil]; exact le_rfl),
        hnotgt (by rw [String.intercalate_nil]; exact le_rfl)⟩
    · obtain ⟨⟨words, hwords, hkey⟩, hleast⟩ := canonicalBidirectionalCyclicKey_spec hne
      refine ⟨?_, fun n => ⟨hnotgt (hleast _ (.inl (List.IsRotated.forall _ _))),
        hnotgt (hleast _ (.inr (List.IsRotated.forall _ _)))⟩⟩
      rcases hwords with hwords | hwords
      · obtain ⟨n, rfl⟩ := hwords.symm
        exact ⟨n, .inl hkey⟩
      · obtain ⟨n, rfl⟩ := hwords.symm
        exact ⟨n, .inr hkey⟩
  · exact canonicalBidirectionalCyclicKey_of_sameRing (.inl (List.IsRotated.forall _ _))
  · exact canonicalBidirectionalCyclicKey_of_sameRing (.inr (.refl _))
  · exact canonicalBidirectionalCyclicKey_eq_iff hfree hfree'

/-- **The key of a ring names it up to start vertex and winding.** -/
theorem canonicalRing_eq_iff {path path' : CanonicalGridPath} :
    canonicalRing path = canonicalRing path' ↔ SameRing path path' := by
  have hclean : ∀ path : CanonicalGridPath, SeparatorFree (path.map gridPointToken) := by
    intro path token htoken
    obtain ⟨point, _, rfl⟩ := List.mem_map.1 htoken
    exact ⟨gridPointToken_ne_empty point,
      notMem_gridPointToken (by decide) (by decide) (by decide) point⟩
  unfold canonicalRing
  rw [canonicalBidirectionalCyclicKey_eq_iff (hclean path) (hclean path')]
  exact ⟨sameRing_of_map gridPointToken_injective, SameRing.map gridPointToken⟩

theorem jsonStringifyStringArray_injective : Function.Injective jsonStringifyStringArray := by
  intro values values' h
  have htext := (List.cons.inj (String.ofList_injective h)).2
  exact Caches.jsonParts_splits.injective htext

/-! ## §7  Layouts in place -/

/-- The same rings in another order. -/
def SameRings (paths paths' : List CanonicalGridPath) : Prop :=
  ∃ others : List CanonicalGridPath, List.Forall₂ SameRing paths others ∧ others.Perm paths'

/-- No ring is empty. -/
def Rings (paths : List CanonicalGridPath) : Prop := ∀ path ∈ paths, path ≠ []

theorem Rings.perm {paths paths' : List CanonicalGridPath} (h : Rings paths)
    (hperm : paths.Perm paths') : Rings paths' :=
  fun path hpath => h path (hperm.mem_iff.2 hpath)

theorem Rings.map {paths : List CanonicalGridPath} (h : Rings paths)
    (f : CanonicalGridPoint → CanonicalGridPoint) :
    Rings (paths.map fun path => path.map f) := by
  intro path hpath
  obtain ⟨original, horiginal, rfl⟩ := List.mem_map.1 hpath
  simpa using h original horiginal

theorem SameLayout.rings_iff {paths paths' : List CanonicalGridPath}
    (h : SameLayout paths paths') : Rings paths ↔ Rings paths' := by
  have hmap : ∀ (f : CanonicalGridPoint → CanonicalGridPoint) (paths : List CanonicalGridPath),
      Rings paths ↔ Rings (paths.map fun path => path.map f) := by
    intro f paths
    simp [Rings]
  have hreplace : ∀ {path path' : CanonicalGridPath} (before after : List CanonicalGridPath),
      (path ≠ [] ↔ path' ≠ []) →
      (Rings (before ++ path :: after) ↔ Rings (before ++ path' :: after)) := by
    intro path path' before after hne
    unfold Rings
    rw [List.forall_mem_append, List.forall_mem_append, List.forall_mem_cons,
      List.forall_mem_cons, hne]
  induction h with
  | refl => exact Iff.rfl
  | symm _ ih => exact ih.symm
  | trans _ _ ih ih' => exact ih.trans ih'
  | permute hperm => exact ⟨fun h => h.perm hperm, fun h => h.perm hperm.symm⟩
  | translate dx dy paths => exact hmap _ _
  | turn turn paths => exact hmap _ _
  | startVertex before after path n =>
      exact hreplace before after (not_congr List.rotate_eq_nil_iff.symm)
  | winding before after path =>
      exact hreplace before after (not_congr List.reverse_eq_nil_iff.symm)

theorem map_canonicalRing_eq_iff {paths : List CanonicalGridPath} :
    ∀ {paths' : List CanonicalGridPath},
      paths.map canonicalRing = paths'.map canonicalRing ↔ List.Forall₂ SameRing paths paths' := by
  induction paths with
  | nil =>
      intro paths'
      rw [List.forall₂_nil_left_iff, List.map_nil, eq_comm, List.map_eq_nil_iff]
  | cons path paths ih =>
      intro paths'
      cases paths' with
      | nil => simp
      | cons path' paths' =>
          rw [List.map_cons, List.map_cons, List.cons.injEq, List.forall₂_cons,
            canonicalRing_eq_iff, ih]

/-- The keys of the rings, sorted, name the rings. -/
theorem map_canonicalRing_perm_iff {paths paths' : List CanonicalGridPath} :
    (paths.map canonicalRing).Perm (paths'.map canonicalRing) ↔ SameRings paths paths' := by
  have hcomp : (paths.map canonicalRing).Perm (paths'.map canonicalRing) ↔
      ∃ others : List CanonicalGridPath,
        paths.map canonicalRing = others.map canonicalRing ∧ others.Perm paths' :=
    iff_of_eq (congrFun (congrFun (List.eq_map_comp_perm canonicalRing) _) paths').symm
  rw [hcomp]
  exact exists_congr fun others => and_congr_left fun _ => map_canonicalRing_eq_iff

/-- The text of a layout that is in place. -/
def layoutText (paths : List CanonicalGridPath) : String :=
  jsonStringifyStringArray ((paths.map canonicalRing).mergeSort keyLe)

theorem layoutText_eq_iff {paths paths' : List CanonicalGridPath} :
    layoutText paths = layoutText paths' ↔ SameRings paths paths' :=
  (jsonStringifyStringArray_injective.eq_iff).trans
    (mergeSort_keyLe_eq_iff.trans map_canonicalRing_perm_iff)

/-- What may be reordered, and read from another start or the other way round ring by ring,
holds of the same rings. -/
theorem SameRings.closure {r : List CanonicalGridPath → List CanonicalGridPath → Prop}
    (hrefl : ∀ paths, r paths paths)
    (htrans : ∀ {paths paths' paths''}, r paths paths' → r paths' paths'' → r paths paths'')
    (hpermute : ∀ {paths paths' : List CanonicalGridPath}, paths.Perm paths' → r paths paths')
    (hstart : ∀ before after (path : CanonicalGridPath) n,
      r (before ++ path :: after) (before ++ path.rotate n :: after))
    (hwinding : ∀ before after (path : CanonicalGridPath),
      r (before ++ path :: after) (before ++ path.reverse :: after))
    {paths paths' : List CanonicalGridPath} (h : SameRings paths paths') : r paths paths' := by
  have hring : ∀ {path path' : CanonicalGridPath} (before after : List CanonicalGridPath),
      SameRing path path' → r (before ++ path :: after) (before ++ path' :: after) := by
    intro path path' before after h
    rcases h with ⟨n, hn⟩ | ⟨n, hn⟩
    · rw [← hn]
      exact hstart before after path n
    · have hturned := hstart before after path n
      rw [hn] at hturned
      have hwound := hwinding before after path'.reverse
      rw [List.reverse_reverse] at hwound
      exact htrans hturned hwound
  have hall : ∀ {paths others : List CanonicalGridPath}, List.Forall₂ SameRing paths others →
      ∀ before : List CanonicalGridPath, r (before ++ paths) (before ++ others) := by
    intro paths others hrings
    induction hrings with
    | nil => exact fun before => hrefl _
    | @cons path path' paths others hsame _ ih =>
        intro before
        have hrest := ih (before ++ [path'])
        rw [List.append_assoc, List.append_assoc, List.singleton_append,
          List.singleton_append] at hrest
        exact htrans (hring before paths hsame) hrest
  obtain ⟨others, hrings, hperm⟩ := h
  exact htrans (hall hrings []) (hpermute hperm)

theorem SameLayout.of_sameRings {paths paths' : List CanonicalGridPath}
    (h : SameRings paths paths') : SameLayout paths paths' :=
  h.closure .refl .trans .permute .startVertex .winding

/-! ## §8  The lower left corner -/

/-- The smallest coordinates of the points, as the code folds them. -/
def lowerLeft : List CanonicalGridPoint → CanonicalGridPoint
  | [] => ⟨0, 0⟩
  | first :: rest =>
      ⟨rest.foldl (fun least point => min least point.x) first.x,
        rest.foldl (fun least point => min least point.y) first.y⟩

/-- The layout moved to the origin. -/
def anchored (paths : List CanonicalGridPath) : List CanonicalGridPath :=
  let corner := lowerLeft paths.flatten
  paths.map fun path => path.map (translateGridPoint (-corner.x) (-corner.y))

def turned (turn : QuarterTurn) (paths : List CanonicalGridPath) : List CanonicalGridPath :=
  paths.map fun path => path.map (rotateGridPoint · turn)

def translated (dx dy : ℤ) (paths : List CanonicalGridPath) : List CanonicalGridPath :=
  paths.map fun path => path.map (translateGridPoint dx dy)

theorem Rings.turned {paths : List CanonicalGridPath} (h : Rings paths) (turn : QuarterTurn) :
    Rings (PolygonNesting.turned turn paths) := h.map _

theorem Rings.translated {paths : List CanonicalGridPath} (h : Rings paths) (dx dy : ℤ) :
    Rings (PolygonNesting.translated dx dy paths) := h.map _

theorem flatten_ne_nil {paths : List CanonicalGridPath} (hpaths : Rings paths)
    (hne : paths ≠ []) : paths.flatten ≠ [] := by
  intro h
  obtain ⟨path, hpath⟩ := List.exists_mem_of_ne_nil _ hne
  exact hpaths path hpath (List.flatten_eq_nil_iff.1 h path hpath)

theorem identityAtQuarterTurn_eq {paths : List CanonicalGridPath} (hpaths : Rings paths)
    (turn : QuarterTurn) :
    identityAtQuarterTurn paths turn = layoutText (anchored (turned turn paths)) := by
  have hturned : Rings (turned turn paths) := hpaths.map _
  unfold identityAtQuarterTurn layoutText anchored
  change (match (turned turn paths).flatten with
    | [] => "[]"
    | first :: rest => _) = _
  cases hflat : (turned turn paths).flatten with
  | nil =>
      have hnil : turned turn paths = [] := by
        by_contra hne
        exact flatten_ne_nil hturned hne hflat
      rw [hnil, List.map_nil, List.map_nil, List.mergeSort_nil]
      rfl
  | cons first rest =>
      dsimp only [lowerLeft, turned]
      simp only [List.map_map]
      rfl

/-- A least value of a coordinate: below all the points, and met by one. -/
def LeastAt (value : ℤ) (f : CanonicalGridPoint → ℤ) (points : List CanonicalGridPoint) : Prop :=
  (∀ point ∈ points, value ≤ f point) ∧ ∃ point ∈ points, f point = value

theorem LeastAt.unique {value value' : ℤ} {f : CanonicalGridPoint → ℤ}
    {points : List CanonicalGridPoint} (h : LeastAt value f points)
    (h' : LeastAt value' f points) : value = value' := by
  obtain ⟨hle, point, hpoint, rfl⟩ := h
  obtain ⟨hle', point', hpoint', rfl⟩ := h'
  exact le_antisymm (hle point' hpoint') (hle' point hpoint)

theorem leastAt_foldl (f : CanonicalGridPoint → ℤ) (rest : List CanonicalGridPoint) :
    ∀ first : CanonicalGridPoint,
      LeastAt (rest.foldl (fun least point => min least (f point)) (f first)) f
        (first :: rest) := by
  induction rest using List.reverseRecOn with
  | nil =>
      intro first
      exact ⟨by simp, first, List.mem_cons_self, rfl⟩
  | append_singleton rest last ih =>
      intro first
      obtain ⟨hle, point, hpoint, hvalue⟩ := ih first
      rw [List.foldl_append, List.foldl_cons, List.foldl_nil, ← List.cons_append]
      constructor
      · intro other hother
        rcases List.mem_append.1 hother with hother | hother
        · exact (min_le_left _ _).trans (hle other hother)
        · rw [List.mem_singleton.1 hother]
          exact min_le_right _ _
      · rcases min_choice (rest.foldl (fun least point => min least (f point)) (f first))
          (f last) with hmin | hmin
        · exact ⟨point, List.mem_append_left _ hpoint, hvalue.trans hmin.symm⟩
        · exact ⟨last, List.mem_append_right _ (List.mem_singleton_self last), hmin.symm⟩

theorem lowerLeft_spec {points : List CanonicalGridPoint} (hne : points ≠ []) :
    LeastAt (lowerLeft points).x (·.x) points ∧ LeastAt (lowerLeft points).y (·.y) points := by
  cases points with
  | nil => exact absurd rfl hne
  | cons first rest => exact ⟨leastAt_foldl (·.x) rest first, leastAt_foldl (·.y) rest first⟩

theorem lowerLeft_eq_of {points : List CanonicalGridPoint} (hne : points ≠ [])
    {corner : CanonicalGridPoint} (hx : LeastAt corner.x (·.x) points)
    (hy : LeastAt corner.y (·.y) points) : lowerLeft points = corner := by
  obtain ⟨hx', hy'⟩ := lowerLeft_spec hne
  have hcornerX := hx'.unique hx
  have hcornerY := hy'.unique hy
  cases hcorner : lowerLeft points
  rw [hcorner] at hcornerX hcornerY
  cases corner
  simp_all

theorem lowerLeft_perm {points points' : List CanonicalGridPoint} (h : points.Perm points') :
    lowerLeft points = lowerLeft points' := by
  by_cases hne : points = []
  · rw [hne] at h ⊢
    rw [List.nil_perm.1 h]
  · have hne' : points' ≠ [] := fun hnil => hne (List.perm_nil.1 (hnil ▸ h))
    obtain ⟨hx, hy⟩ := lowerLeft_spec hne'
    have hleast : ∀ {value : ℤ} {f : CanonicalGridPoint → ℤ}, LeastAt value f points' →
        LeastAt value f points := by
      rintro value f ⟨hle, point, hpoint, hvalue⟩
      exact ⟨fun other hother => hle other (h.mem_iff.1 hother), point,
        h.mem_iff.2 hpoint, hvalue⟩
    exact lowerLeft_eq_of hne (hleast hx) (hleast hy)

theorem lowerLeft_translated {points : List CanonicalGridPoint} (hne : points ≠ [])
    (dx dy : ℤ) :
    lowerLeft (points.map (translateGridPoint dx dy)) =
      translateGridPoint dx dy (lowerLeft points) := by
  obtain ⟨hx, hy⟩ := lowerLeft_spec hne
  have hleast : ∀ {value d : ℤ} {f : CanonicalGridPoint → ℤ},
      (∀ point, f (translateGridPoint dx dy point) = f point + d) → LeastAt value f points →
      LeastAt (value + d) f (points.map (translateGridPoint dx dy)) := by
    rintro value d f hf ⟨hle, point, hpoint, hvalue⟩
    constructor
    · intro other hother
      obtain ⟨original, horiginal, rfl⟩ := List.mem_map.1 hother
      rw [hf]
      have hbelow := hle original horiginal
      omega
    · exact ⟨_, List.mem_map_of_mem hpoint, by rw [hf, hvalue]⟩
  exact lowerLeft_eq_of (by simpa using hne) (hleast (fun _ => rfl) hx)
    (hleast (fun _ => rfl) hy)

/-! ## §9  The identity names the layout -/

theorem anchored_translated (paths : List CanonicalGridPath) (dx dy : ℤ) :
    anchored (translated dx dy paths) = anchored paths := by
  by_cases hne : paths.flatten = []
  · -- without points there is nothing to move
    have hmoved : translated dx dy paths = paths := by
      rw [List.flatten_eq_nil_iff] at hne
      unfold translated
      conv_rhs => rw [← List.map_id paths]
      exact List.map_congr_left fun path hpath => by rw [hne path hpath]; rfl
    rw [hmoved]
  · have hflat : (translated dx dy paths).flatten =
        paths.flatten.map (translateGridPoint dx dy) := by
      rw [translated, List.map_flatten]
    unfold anchored
    rw [hflat, lowerLeft_translated hne, translated, List.map_map]
    refine List.map_congr_left fun path _ => ?_
    rw [Function.comp_apply, List.map_map]
    refine List.map_congr_left fun point _ => ?_
    simp only [Function.comp_apply, translateGridPoint, CanonicalGridPoint.mk.injEq]
    constructor <;> ring

/-- A turn of a moved layout is a moved turned layout. -/
theorem turned_translated (turn : QuarterTurn) (dx dy : ℤ) (paths : List CanonicalGridPath) :
    turned turn (translated dx dy paths) =
      translated (rotateGridPoint ⟨dx, dy⟩ turn).x (rotateGridPoint ⟨dx, dy⟩ turn).y
        (turned turn paths) := by
  unfold turned translated
  rw [List.map_map, List.map_map]
  refine List.map_congr_left fun path _ => ?_
  rw [Function.comp_apply, Function.comp_apply, List.map_map, List.map_map]
  refine List.map_congr_left fun point _ => ?_
  cases turn <;>
    simp only [Function.comp_apply, rotateGridPoint, translateGridPoint, neg_add]

/-- One quarter turn after another. -/
def QuarterTurn.then : QuarterTurn → QuarterTurn → QuarterTurn
  | .zero, turn => turn
  | .ninety, .zero => .ninety
  | .ninety, .ninety => .oneEighty
  | .ninety, .oneEighty => .twoSeventy
  | .ninety, .twoSeventy => .zero
  | .oneEighty, .zero => .oneEighty
  | .oneEighty, .ninety => .twoSeventy
  | .oneEighty, .oneEighty => .zero
  | .oneEighty, .twoSeventy => .ninety
  | .twoSeventy, .zero => .twoSeventy
  | .twoSeventy, .ninety => .zero
  | .twoSeventy, .oneEighty => .ninety
  | .twoSeventy, .twoSeventy => .oneEighty

theorem turned_turned (first second : QuarterTurn) (paths : List CanonicalGridPath) :
    turned second (turned first paths) = turned (first.then second) paths := by
  unfold turned
  rw [List.map_map]
  refine List.map_congr_left fun path _ => ?_
  rw [Function.comp_apply, List.map_map]
  refine List.map_congr_left fun point _ => ?_
  cases first <;> cases second <;>
    simp only [Function.comp_apply, rotateGridPoint, QuarterTurn.then, neg_neg]

theorem quarterTurns_then_perm (turn : QuarterTurn) :
    (quarterTurns.map turn.then).Perm quarterTurns := by
  cases turn <;> decide

theorem SameRings.turned {paths paths' : List CanonicalGridPath} (h : SameRings paths paths')
    (turn : QuarterTurn) :
    SameRings (PolygonNesting.turned turn paths) (PolygonNesting.turned turn paths') := by
  obtain ⟨others, hrings, hperm⟩ := h
  refine ⟨PolygonNesting.turned turn others, ?_, hperm.map _⟩
  unfold PolygonNesting.turned
  rw [List.forall₂_map_left_iff, List.forall₂_map_right_iff]
  exact hrings.imp fun _ _ hring => hring.map _

theorem flatten_perm_of_forall₂ {paths others : List CanonicalGridPath}
    (h : List.Forall₂ SameRing paths others) : paths.flatten.Perm others.flatten := by
  induction h with
  | nil => exact .refl _
  | cons hring _ ih => exact hring.perm.append ih

theorem SameRings.flatten_perm {paths paths' : List CanonicalGridPath}
    (h : SameRings paths paths') : paths.flatten.Perm paths'.flatten := by
  obtain ⟨others, hrings, hperm⟩ := h
  exact (flatten_perm_of_forall₂ hrings).trans hperm.flatten

theorem sameRings_of_perm {paths paths' : List CanonicalGridPath} (h : paths.Perm paths') :
    SameRings paths paths' :=
  ⟨paths, List.forall₂_same.2 fun _ _ => .inl (.refl _), h⟩

theorem sameRings_replace {path path' : CanonicalGridPath} (h : SameRing path path')
    (before after : List CanonicalGridPath) :
    SameRings (before ++ path :: after) (before ++ path' :: after) := by
  have hsame : ∀ paths : List CanonicalGridPath, List.Forall₂ SameRing paths paths :=
    fun paths => List.forall₂_same.2 fun _ _ => .inl (.refl _)
  exact ⟨_, List.rel_append (hsame before) (.cons h (hsame after)), .refl _⟩

theorem SameRings.anchored {paths paths' : List CanonicalGridPath}
    (h : SameRings paths paths') :
    SameRings (PolygonNesting.anchored paths) (PolygonNesting.anchored paths') := by
  have hcorner := lowerLeft_perm h.flatten_perm
  obtain ⟨others, hrings, hperm⟩ := h
  unfold PolygonNesting.anchored
  rw [hcorner]
  refine ⟨_, ?_, hperm.map _⟩
  rw [List.forall₂_map_left_iff, List.forall₂_map_right_iff]
  exact hrings.imp fun _ _ hring => hring.map _

/-- The same four texts. -/
def SameTexts (paths paths' : List CanonicalGridPath) : Prop :=
  (quarterTurns.map (identityAtQuarterTurn paths)).Perm
    (quarterTurns.map (identityAtQuarterTurn paths'))

theorem sameTexts_of_sameRings {paths paths' : List CanonicalGridPath} (hpaths : Rings paths)
    (hpaths' : Rings paths') (h : SameRings paths paths') : SameTexts paths paths' := by
  refine List.Perm.of_eq (List.map_congr_left fun turn _ => ?_)
  rw [identityAtQuarterTurn_eq hpaths, identityAtQuarterTurn_eq hpaths']
  exact layoutText_eq_iff.2 (h.turned turn).anchored

theorem sameTexts_translated {paths : List CanonicalGridPath} (hpaths : Rings paths)
    (dx dy : ℤ) : SameTexts paths (translated dx dy paths) := by
  refine List.Perm.of_eq (List.map_congr_left fun turn _ => ?_)
  rw [identityAtQuarterTurn_eq hpaths, identityAtQuarterTurn_eq (hpaths.translated dx dy),
    turned_translated, anchored_translated]

/-- A turned layout has the texts of the original in another order. -/
theorem sameTexts_turned {paths : List CanonicalGridPath} (hpaths : Rings paths)
    (turn : QuarterTurn) : SameTexts paths (turned turn paths) := by
  have htexts : quarterTurns.map (identityAtQuarterTurn (turned turn paths)) =
      (quarterTurns.map turn.then).map (identityAtQuarterTurn paths) := by
    rw [List.map_map]
    refine List.map_congr_left fun next _ => ?_
    rw [Function.comp_apply, identityAtQuarterTurn_eq (hpaths.turned turn),
      identityAtQuarterTurn_eq hpaths, turned_turned]
  unfold SameTexts
  rw [htexts]
  exact (quarterTurns_then_perm turn).symm.map _

theorem SameLayout.sameTexts {paths paths' : List CanonicalGridPath}
    (h : SameLayout paths paths') : Rings paths → SameTexts paths paths' := by
  induction h with
  | refl => exact fun _ => .refl _
  | symm h ih => exact fun hpaths => (ih (h.rings_iff.2 hpaths)).symm
  | trans h _ ih ih' => exact fun hpaths => (ih hpaths).trans (ih' (h.rings_iff.1 hpaths))
  | permute hperm =>
      exact fun hpaths =>
        sameTexts_of_sameRings hpaths (hpaths.perm hperm) (sameRings_of_perm hperm)
  | translate dx dy paths => exact fun hpaths => sameTexts_translated hpaths dx dy
  | turn turn paths => exact fun hpaths => sameTexts_turned hpaths turn
  | startVertex before after path n =>
      exact fun hpaths => sameTexts_of_sameRings hpaths
        ((SameLayout.startVertex before after path n).rings_iff.1 hpaths)
        (sameRings_replace (.inl ⟨n, rfl⟩) before after)
  | winding before after path =>
      have hreverse : SameRing path path.reverse :=
        .inr (by rw [List.reverse_reverse])
      exact fun hpaths => sameTexts_of_sameRings hpaths
        ((SameLayout.winding before after path).rings_iff.1 hpaths)
        (sameRings_replace hreverse before after)

theorem smallestIdentity_spec (paths : List CanonicalGridPath) :
    ∃ turn, smallestIdentity paths = some (identityAtQuarterTurn paths turn) := by
  obtain ⟨text, hmem, htext, _⟩ := exists_least_key
    (show quarterTurns.map (identityAtQuarterTurn paths) ≠ [] from List.cons_ne_nil _ _)
  obtain ⟨turn, _, rfl⟩ := List.mem_map.1 hmem
  exact ⟨turn, htext⟩

/-- A layout is the same as its text's layout. -/
theorem SameLayout.anchored_turned (turn : QuarterTurn) (paths : List CanonicalGridPath) :
    SameLayout paths (anchored (turned turn paths)) :=
  (SameLayout.turn turn paths).trans (.translate _ _ _)

theorem smallestIdentity_eq_iff {paths paths' : List CanonicalGridPath} (hpaths : Rings paths)
    (hpaths' : Rings paths') :
    smallestIdentity paths = smallestIdentity paths' ↔ SameLayout paths paths' := by
  constructor
  · intro h
    obtain ⟨turn, hturn⟩ := smallestIdentity_spec paths
    obtain ⟨turn', hturn'⟩ := smallestIdentity_spec paths'
    rw [hturn, hturn', Option.some.injEq, identityAtQuarterTurn_eq hpaths,
      identityAtQuarterTurn_eq hpaths'] at h
    have hsame := SameLayout.of_sameRings (layoutText_eq_iff.1 h)
    exact ((SameLayout.anchored_turned turn paths).trans hsame).trans
      (SameLayout.anchored_turned turn' paths').symm
  · intro h
    unfold smallestIdentity
    rw [mergeSort_keyLe_eq_iff.2 (h.sameTexts hpaths)]

section

variable {F : Type} [LinearOrder F] [Zero F] [One F] [Add F] [Sub F] [Neg F] [Mul F] [Div F]
  [JsMath F]

/-- A polygon of a layout has at least three vertices. -/
theorem rings_of_canonicalPlacedPolygons {placed : List (IrregularPlacedPiece F)} :
    ∀ {polygons : List CanonicalPlacedPolygon},
      canonicalPlacedPolygons placed = some polygons → Rings (polygons.map (·.path)) := by
  induction placed with
  | nil =>
      intro polygons h
      cases h
      exact fun path hpath => absurd hpath (List.not_mem_nil)
  | cons entry placed ih =>
      intro polygons h
      unfold canonicalPlacedPolygons at h
      rw [List.mapM_cons, Option.bind_eq_bind, Option.bind_eq_some_iff] at h
      obtain ⟨polygon, hpolygon, h⟩ := h
      rw [Option.bind_eq_bind, Option.bind_eq_some_iff] at h
      obtain ⟨rest, hrest, h⟩ := h
      cases h
      rw [List.map_cons]
      refine List.forall_mem_cons.2 ⟨?_, ih hrest⟩
      rw [Option.bind_eq_bind, Option.bind_eq_some_iff] at hpolygon
      obtain ⟨path, _, hpath⟩ := hpolygon
      split at hpath
      · cases hpath
      · rename_i hproper
        cases hpath
        rintro rfl
        exact hproper (.inl (by decide))

/-- **The identity is a canonical form.**  Two layouts have one identity exactly when
they differ by the order of the pieces, a translation, quarter turns, and the start
vertices and windings of rings. -/
theorem canonicalCollisionLayoutIdentity_eq_iff {placed placed' : List (IrregularPlacedPiece F)}
    {polygons polygons' : List CanonicalPlacedPolygon}
    (h : canonicalPlacedPolygons placed = some polygons)
    (h' : canonicalPlacedPolygons placed' = some polygons') :
    (canonicalCollisionLayoutIdentity placed).isSome = true ∧
      (canonicalCollisionLayoutIdentity placed = canonicalCollisionLayoutIdentity placed' ↔
        SameLayout (polygons.map (·.path)) (polygons'.map (·.path))) := by
  have hidentity : ∀ {placed : List (IrregularPlacedPiece F)}
      {polygons : List CanonicalPlacedPolygon}, canonicalPlacedPolygons placed = some polygons →
      canonicalCollisionLayoutIdentity placed = smallestIdentity (polygons.map (·.path)) := by
    intro placed polygons h
    unfold canonicalCollisionLayoutIdentity
    rw [h]
    rfl
  rw [hidentity h, hidentity h']
  constructor
  · obtain ⟨turn, hturn⟩ := smallestIdentity_spec (polygons.map (·.path))
    rw [hturn]
    rfl
  · exact smallestIdentity_eq_iff (rings_of_canonicalPlacedPolygons h)
      (rings_of_canonicalPlacedPolygons h')

end

/-- A two by one rectangle and, elsewhere, a unit square. -/
def rectangleAndSquare : List (IrregularPlacedPiece ℚ) :=
  [⟨⟨none, "rectangle", none, ⟨3, 0, 0, false⟩⟩, ⟨"rectangle", ⟨0, 0, false, .orthogonal⟩,
      ⟨[⟨0, 0⟩, ⟨2, 0⟩, ⟨2, 1⟩, ⟨0, 1⟩]⟩, ⟨0, 0, 2, 1⟩⟩⟩,
    ⟨⟨none, "square", none, ⟨0, 0, 0, false⟩⟩, ⟨"square", ⟨0, 0, false, .orthogonal⟩,
      ⟨[⟨0, 0⟩, ⟨1, 0⟩, ⟨1, 1⟩, ⟨0, 1⟩]⟩, ⟨0, 0, 1, 1⟩⟩⟩]

/-- The same two, the square first, a quarter turn further and `(1, 0)` away; the ring of
the rectangle starts at another vertex. -/
def squareAndTurnedRectangle : List (IrregularPlacedPiece ℚ) :=
  [⟨⟨none, "square", none, ⟨0, 0, 0, false⟩⟩, ⟨"square", ⟨1, 90, false, .orthogonal⟩,
      ⟨[⟨1, 0⟩, ⟨1, 1⟩, ⟨0, 1⟩, ⟨0, 0⟩]⟩, ⟨0, 0, 1, 1⟩⟩⟩,
    ⟨⟨none, "rectangle", none, ⟨0, 3, 90, false⟩⟩, ⟨"rectangle", ⟨1, 90, false, .orthogonal⟩,
      ⟨[⟨0, 0⟩, ⟨1, 0⟩, ⟨1, 2⟩, ⟨0, 2⟩]⟩, ⟨0, 0, 1, 2⟩⟩⟩]

theorem canonicalCollisionLayoutIdentity_eq_iff_turned :
    canonicalCollisionLayoutIdentity rectangleAndSquare =
      canonicalCollisionLayoutIdentity squareAndTurnedRectangle := by
  have h : canonicalPlacedPolygons rectangleAndSquare =
      some [⟨"rectangle", [⟨3000, 0⟩, ⟨5000, 0⟩, ⟨5000, 1000⟩, ⟨3000, 1000⟩]⟩,
        ⟨"square", [⟨0, 0⟩, ⟨1000, 0⟩, ⟨1000, 1000⟩, ⟨0, 1000⟩]⟩] := by
    decide +kernel
  have h' : canonicalPlacedPolygons squareAndTurnedRectangle =
      some [⟨"square", [⟨1000, 0⟩, ⟨1000, 1000⟩, ⟨0, 1000⟩, ⟨0, 0⟩]⟩,
        ⟨"rectangle", [⟨0, 3000⟩, ⟨1000, 3000⟩, ⟨1000, 5000⟩, ⟨0, 5000⟩]⟩] := by
    decide +kernel
  refine (canonicalCollisionLayoutIdentity_eq_iff h h').2.2 ?_
  have hturn := SameLayout.turn .ninety
    [[⟨3000, 0⟩, ⟨5000, 0⟩, ⟨5000, 1000⟩, ⟨3000, 1000⟩],
      [⟨0, 0⟩, ⟨1000, 0⟩, ⟨1000, 1000⟩, ⟨0, 1000⟩]]
  refine ((hturn.trans (.translate 1000 0 _)).trans (.permute (.swap _ _ []))).trans ?_
  exact .startVertex [[⟨1000, 0⟩, ⟨1000, 1000⟩, ⟨0, 1000⟩, ⟨0, 0⟩]] []
    [⟨1000, 3000⟩, ⟨1000, 5000⟩, ⟨0, 5000⟩, ⟨0, 3000⟩] 3

end PolygonNesting
