import PolygonNesting.Caches.GeometryCacheIdentity

set_option linter.unusedSectionVars false

/-!
# The key of the legal-candidate memo

The memo keeps the legal candidates of one moving ring against one list of placed
rings.  Its key is one JSON array of texts, written by hand; the rings stand in it in
the order of their points, and neither the moving piece nor its transform does.
-/

namespace PolygonNesting.Caches

open PrefixFree

variable {F : Type} [LinearOrder F] [Zero F] [One F] [Add F] [Sub F] [Neg F]
  [Mul F] [Div F] [JsMath F]

/-! ## §1  What the key is made of -/

def legalCandidateMemoNamespace : String := "legal-placement-candidates-v1"

inductive NfpCandidatePruningMode where
  | indexed
  | reference
  deriving DecidableEq

def candidatePruningModeStr : NfpCandidatePruningMode → String
  | .indexed => "indexed"
  | .reference => "reference"

inductive CandidateDomain where
  | sheet
  | contactOnly
  | sheetlessNfp
  deriving DecidableEq

def candidateDomainStr : CandidateDomain → String
  | .sheet => "sheet"
  | .contactOnly => "contact-only"
  | .sheetlessNfp => "sheetless-nfp"

structure PlacedPieceKeyInput (F : Type) where
  collisionPolygonPoints : List (IrregularPoint F)
  translateX : F
  translateY : F
  deriving DecidableEq

/-- The dimensions of a sheet, without its label. -/
structure SheetDimensions (F : Type) where
  width : F
  height : F
  deriving DecidableEq

structure LegalPlacementCandidateMemoKeyInput (F : Type) where
  sheet : Option (SheetDimensions F)
  placed : List (PlacedPieceKeyInput F)
  movingPolygonPoints : List (IrregularPoint F)
  movingBounds : IrregularBounds F
  settings : IrregularGeometrySettings F
  candidateDomain : CandidateDomain
  deriving DecidableEq

/-! ## §2  The text of a key -/

def pointTranslationDigest (translateX translateY : F) : String :=
  pointDigest ⟨translateX, translateY⟩

def placedMemoPart (placed : PlacedPieceKeyInput F) : String :=
  polygonDigest placed.collisionPolygonPoints ++ "@" ++
    pointTranslationDigest placed.translateX placed.translateY

def joinPlacedMemoParts (placed : List (PlacedPieceKeyInput F)) : String :=
  "|".intercalate (placed.map placedMemoPart)

structure PreparedPlacedMemoParts where
  joined : String

def preparePlacedMemoParts (placed : List (PlacedPieceKeyInput F)) :
    PreparedPlacedMemoParts where
  joined := joinPlacedMemoParts placed

def sheetIdentity : Option (SheetDimensions F) → String
  | none => "sheet=deferred"
  | some dimensions =>
      "sheet=" ++ foldNegativeZeroKey dimensions.width ++ "," ++
        foldNegativeZeroKey dimensions.height

def legalPlacementCandidateMemoKeyWithPreparedPlaced
    (input : LegalPlacementCandidateMemoKeyInput F)
    (preparedPlaced : Option PreparedPlacedMemoParts)
    (constructionAlgorithm : NfpConstructionAlgorithm)
    (candidatePruningMode : NfpCandidatePruningMode) : String :=
  let placedJoined :=
    match preparedPlaced with
    | some prepared => prepared.joined
    | none => joinPlacedMemoParts input.placed
  let arrayElements :=
    [legalCandidateMemoNamespace, sheetIdentity input.sheet, "placed=" ++ placedJoined,
      "moving=" ++ polygonDigest input.movingPolygonPoints,
      "moving-bounds=" ++ boundsDigest input.movingBounds] ++
    geometrySettingsParts input.settings ++
    ["nfp-construction=" ++ constructionAlgorithmStr constructionAlgorithm,
      "candidate-pruning=" ++ candidatePruningModeStr candidatePruningMode,
      "candidate-domain=" ++ candidateDomainStr input.candidateDomain]
  String.ofList ('[' :: (jsonParts arrayElements ++ [']']))

def legalPlacementCandidateMemoKey (input : LegalPlacementCandidateMemoKeyInput F)
    (constructionAlgorithm : NfpConstructionAlgorithm)
    (candidatePruningMode : NfpCandidatePruningMode) : String :=
  legalPlacementCandidateMemoKeyWithPreparedPlaced input none constructionAlgorithm
    candidatePruningMode

/-! ## §3  What a key gives back -/

theorem candidatePruningModeStr_inj {mode mode' : NfpCandidatePruningMode}
    (h : candidatePruningModeStr mode = candidatePruningModeStr mode') : mode = mode' := by
  revert h
  cases mode <;> cases mode' <;> decide

theorem candidateDomainStr_inj {domain domain' : CandidateDomain}
    (h : candidateDomainStr domain = candidateDomainStr domain') : domain = domain' := by
  revert h
  cases domain <;> cases domain' <;> decide

/-- A JSON array of strings gives back the strings. -/
theorem jsonArray_inj {elements elements' : List String}
    (h : String.ofList ('[' :: (jsonParts elements ++ [']'])) =
      String.ofList ('[' :: (jsonParts elements' ++ [']']))) : elements = elements' := by
  have htext := (List.cons.inj (String.ofList_injective h)).2
  exact (jsonParts_splits elements elements' [] [] (by simpa using htext)).1

/-- The key with prepared placed parts is the key of the pieces they were prepared
from, whatever pieces the input names. -/
theorem memoKey_withPrepared (input : LegalPlacementCandidateMemoKeyInput F)
    (placed : List (PlacedPieceKeyInput F)) (constructionAlgorithm : NfpConstructionAlgorithm)
    (candidatePruningMode : NfpCandidatePruningMode) :
    legalPlacementCandidateMemoKeyWithPreparedPlaced input
        (some (preparePlacedMemoParts placed)) constructionAlgorithm candidatePruningMode =
      legalPlacementCandidateMemoKey { input with placed := placed } constructionAlgorithm
        candidatePruningMode := rfl

section Texts

variable (numbers : KeyNumberText F)

include numbers

theorem sheetIdentity_inj {sheet sheet' : Option (SheetDimensions F)}
    (h : sheetIdentity sheet = sheetIdentity sheet') : sheet = sheet' := by
  -- the deferred sheet is the one without a comma
  have hdeferred : ∀ dimensions : SheetDimensions F,
      sheetIdentity (some dimensions) ≠ sheetIdentity (F := F) none := by
    intro dimensions h
    have hcomma : ',' ∈ (sheetIdentity (some dimensions)).toList := by
      simp [sheetIdentity, String.toList_append]
    rw [h] at hcomma
    exact absurd hcomma (by decide : ',' ∉ ("sheet=deferred").toList)
  rcases sheet with _ | dimensions
  · rcases sheet' with _ | dimensions'
    · rfl
    · exact absurd h.symm (hdeferred dimensions')
  · rcases sheet' with _ | dimensions'
    · exact absurd h (hdeferred dimensions)
    · unfold sheetIdentity at h
      simp only [String.append_assoc, String.append_right_inj] at h
      obtain ⟨hwidth, hrest⟩ := number_and_rest_inj numbers h
      have hheight := numbers.injective _ _ hrest
      cases dimensions
      cases dimensions'
      rw [Option.some.injEq, SheetDimensions.mk.injEq]
      exact ⟨hwidth, hheight⟩

theorem placedMemoPart_inj {placed placed' : PlacedPieceKeyInput F}
    (h : placedMemoPart placed = placedMemoPart placed') : placed = placed' := by
  unfold placedMemoPart pointTranslationDigest at h
  rw [String.append_assoc, String.append_assoc] at h
  obtain ⟨hpolygon, htranslation⟩ := SeparatedText.append_inj (c := '@') rfl
    (not_mem_polygonDigest numbers _ rfl (by decide))
    (not_mem_polygonDigest numbers _ rfl (by decide)) h
  have hpoints := polygonDigest_inj numbers hpolygon
  have hpoint := pointDigest_inj numbers htranslation
  rw [IrregularPoint.mk.injEq] at hpoint
  cases placed
  cases placed'
  rw [PlacedPieceKeyInput.mk.injEq]
  exact ⟨hpoints, hpoint.1, hpoint.2⟩

theorem joinPlacedMemoParts_inj {placed placed' : List (PlacedPieceKeyInput F)}
    (h : joinPlacedMemoParts placed = joinPlacedMemoParts placed') : placed = placed' := by
  have hwords : ∀ placed : List (PlacedPieceKeyInput F),
      ∀ word ∈ placed.map placedMemoPart, '|' ∉ word.toList ∧ word ≠ "" := by
    intro placed word hword
    obtain ⟨piece, -, rfl⟩ := List.mem_map.mp hword
    constructor
    · unfold placedMemoPart
      simp only [String.toList_append, List.mem_append, not_or]
      exact ⟨⟨not_mem_polygonDigest numbers _ rfl (by decide), by decide⟩,
        not_mem_pointDigest numbers _ rfl (by decide) (by decide)⟩
    · intro h
      have htext := congrArg String.toList h
      unfold placedMemoPart at htext
      simp [String.toList_append] at htext
  have hmap := SeparatedText.intercalate_inj_of_ne_empty rfl (hwords placed)
    (hwords placed') h
  exact List.map_injective_iff.2 (fun _ _ => placedMemoPart_inj numbers) hmap

end Texts

/-- **Two calls share a memo key exactly when they agree in everything the candidates
depend on**, and prepared placed parts make the key of the pieces they were prepared
from. -/
theorem legalPlacementCandidateMemoKey_sound (numbers : KeyNumberText F) :
    (∀ (input input' : LegalPlacementCandidateMemoKeyInput F)
        (constructionAlgorithm constructionAlgorithm' : NfpConstructionAlgorithm)
        (candidatePruningMode candidatePruningMode' : NfpCandidatePruningMode),
      legalPlacementCandidateMemoKey input constructionAlgorithm candidatePruningMode =
          legalPlacementCandidateMemoKey input' constructionAlgorithm'
            candidatePruningMode' ↔
        (input.sheet = input'.sheet ∧ input.placed = input'.placed ∧
          input.movingPolygonPoints = input'.movingPolygonPoints ∧
          input.movingBounds = input'.movingBounds ∧ input.settings = input'.settings ∧
          input.candidateDomain = input'.candidateDomain) ∧
        constructionAlgorithm = constructionAlgorithm' ∧
        candidatePruningMode = candidatePruningMode') ∧
      ∀ (input : LegalPlacementCandidateMemoKeyInput F)
        (placed : List (PlacedPieceKeyInput F))
        (constructionAlgorithm : NfpConstructionAlgorithm)
        (candidatePruningMode : NfpCandidatePruningMode),
      legalPlacementCandidateMemoKeyWithPreparedPlaced { input with placed := placed }
          (some (preparePlacedMemoParts input.placed)) constructionAlgorithm
          candidatePruningMode =
        legalPlacementCandidateMemoKey input constructionAlgorithm candidatePruningMode := by
  refine ⟨?_, fun input placed algorithm mode =>
    memoKey_withPrepared { input with placed := placed } input.placed algorithm mode⟩
  intro input input' algorithm algorithm' mode mode'
  constructor
  · intro h
    have helements := jsonArray_inj h
    simp only [List.append_assoc] at helements
    obtain ⟨hhead, htail⟩ := List.append_inj helements rfl
    obtain ⟨hsettings, hlast⟩ := List.append_inj htail rfl
    simp only [List.cons.injEq, String.append_right_inj, and_true, true_and] at hhead hlast
    obtain ⟨hsheet, hplaced, hmoving, hbounds⟩ := hhead
    obtain ⟨halgorithm, hmode, hdomain⟩ := hlast
    exact ⟨⟨sheetIdentity_inj numbers hsheet, joinPlacedMemoParts_inj numbers hplaced,
        polygonDigest_inj numbers hmoving, boundsDigest_inj numbers hbounds,
        geometrySettingsParts_inj numbers hsettings, candidateDomainStr_inj hdomain⟩,
      constructionAlgorithmStr_inj halgorithm, candidatePruningModeStr_inj hmode⟩
  · rintro ⟨hinput, rfl, rfl⟩
    have hsame : input = input' := by
      cases input
      cases input'
      rw [LegalPlacementCandidateMemoKeyInput.mk.injEq]
      exact hinput
    rw [hsame]

/-- Two calls that differ in the translation of a placed triangle have different keys. -/
theorem legalPlacementCandidateMemoKey_sound_digits :
    KeyNumberText (Fin 10) ∧
      legalPlacementCandidateMemoKey (F := Fin 10)
          ⟨some ⟨9, 9⟩, [⟨[⟨0, 0⟩, ⟨1, 0⟩, ⟨0, 1⟩], 5, 0⟩], [⟨0, 0⟩, ⟨1, 0⟩, ⟨0, 1⟩],
            ⟨0, 0, 1, 1⟩, ⟨1, 1, "a", "0"⟩, .sheet⟩ .vertexPairHull .indexed ≠
        legalPlacementCandidateMemoKey (F := Fin 10)
          ⟨some ⟨9, 9⟩, [⟨[⟨0, 0⟩, ⟨1, 0⟩, ⟨0, 1⟩], 0, 5⟩], [⟨0, 0⟩, ⟨1, 0⟩, ⟨0, 1⟩],
            ⟨0, 0, 1, 1⟩, ⟨1, 1, "a", "0"⟩, .sheet⟩ .vertexPairHull .indexed := by
  have numbers : KeyNumberText (Fin 10) :=
    ⟨fun value ch hch => .inl (by
      have hdigit := (digitText value).2 ch hch
      simp only [Char.isAlphanum, hdigit, Bool.or_true]), fun _ _ h => digitText_injective h⟩
  refine ⟨numbers, fun h => ?_⟩
  have hplaced := (((legalPlacementCandidateMemoKey_sound numbers).1 _ _ _ _ _ _).mp h).1.2.1
  rw [List.cons.injEq, PlacedPieceKeyInput.mk.injEq] at hplaced
  exact absurd hplaced.1.2.1 (by decide)

end PolygonNesting.Caches
