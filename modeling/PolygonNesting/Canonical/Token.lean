import Mathlib.Data.List.Lex
import PolygonNesting.Lib.PrefixFree
import PolygonNesting.Number

/-!
# Code units and canonical tokens

Strings are compared by UTF-16 code units, as JavaScript compares them, and
canonical records are runs of length-prefixed tokens.
-/

namespace PolygonNesting

/-! ## §1  Code units -/

/-- The UTF-16 code units of one character. -/
def charCodeUnits (ch : Char) : List ℕ :=
  if ch.toNat < 0x10000 then [ch.toNat]
  else [0xD800 + (ch.toNat - 0x10000) / 0x400,
    0xDC00 + (ch.toNat - 0x10000) % 0x400]

/-- `encode_utf16`. -/
def codeUnits (value : String) : List ℕ := value.toList.flatMap charCodeUnits

/-- `cmp_js_code_units`. -/
def cmpJsCodeUnits (first second : String) : Ordering :=
  compareOfLessAndEq (codeUnits first) (codeUnits second)

/-- A character is not half of a surrogate pair. -/
theorem char_not_surrogate (ch : Char) :
    ch.toNat < 0xD800 ∨ 0xE000 ≤ ch.toNat ∧ ch.toNat < 0x110000 := by
  rcases ch.valid with h | ⟨h, h'⟩
  · exact .inl h
  · exact .inr ⟨by simp only [Char.toNat]; omega, h'⟩

/-- A text of code units that starts with a character determines it. -/
theorem splits_charCodeUnits : PrefixFree.Splits charCodeUnits := by
  intro a b r r' h
  have ha := char_not_surrogate a
  have hb := char_not_surrogate b
  unfold charCodeUnits at h
  split at h <;> split at h
  · simp only [List.singleton_append, List.cons.injEq] at h
    exact ⟨Char.toNat_inj.mp h.1, h.2⟩
  · simp only [List.cons_append, List.cons.injEq] at h
    omega
  · simp only [List.cons_append, List.cons.injEq] at h
    omega
  · simp only [List.cons_append, List.nil_append, List.cons.injEq] at h
    obtain ⟨h1, h2, h3⟩ := h
    exact ⟨Char.toNat_inj.mp (by omega), h3⟩

theorem charCodeUnits_ne_nil (ch : Char) : charCodeUnits ch ≠ [] := by
  unfold charCodeUnits
  split <;> simp

theorem codeUnits_injective : Function.Injective codeUnits := fun _ _ h =>
  String.toList_injective (splits_charCodeUnits.flatMap_injective charCodeUnits_ne_nil h)

/-- Not after, in code-unit order. -/
def keyLe (first second : String) : Bool := cmpJsCodeUnits first second != .gt

theorem keyLe_iff {first second : String} :
    keyLe first second = true ↔ codeUnits first ≤ codeUnits second := by
  unfold keyLe cmpJsCodeUnits compareOfLessAndEq
  split
  · next h => simp [le_of_lt h]
  · next h =>
    split
    · next h' => simp [h']
    · next h' =>
      have hgt := lt_of_le_of_ne (not_lt.mp h) (Ne.symm h')
      simp [hgt]

theorem cmpJsCodeUnits_eq_lt_iff {first second : String} :
    cmpJsCodeUnits first second = .lt ↔ codeUnits first < codeUnits second := by
  unfold cmpJsCodeUnits compareOfLessAndEq
  split
  · next h => simp [h]
  · next h =>
    split <;> simp [h]

theorem keyLe_antisymm {first second : String} (h : keyLe first second = true)
    (h' : keyLe second first = true) : first = second :=
  codeUnits_injective (le_antisymm (keyLe_iff.mp h) (keyLe_iff.mp h'))

theorem keyLe_trans (a b c : String) (hab : keyLe a b = true)
    (hbc : keyLe b c = true) : keyLe a c = true :=
  keyLe_iff.mpr ((keyLe_iff.mp hab).trans (keyLe_iff.mp hbc))

theorem keyLe_total (a b : String) : (keyLe a b || keyLe b a) = true := by
  rw [Bool.or_eq_true, keyLe_iff, keyLe_iff]
  exact le_total _ _

/-- Sorted keys are equal where the keys are, up to their order. -/
theorem mergeSort_keyLe_eq_iff {keys keys' : List String} :
    keys.mergeSort keyLe = keys'.mergeSort keyLe ↔ keys.Perm keys' := by
  constructor
  · intro h
    exact (List.mergeSort_perm keys keyLe).symm.trans (h ▸ List.mergeSort_perm keys' keyLe)
  · intro h
    have hsorted := ((List.mergeSort_perm keys keyLe).trans h).trans
      (List.mergeSort_perm keys' keyLe).symm
    exact hsorted.eq_of_pairwise (fun _ _ _ _ => keyLe_antisymm)
      (List.pairwise_mergeSort keyLe_trans keyLe_total _)
      (List.pairwise_mergeSort keyLe_trans keyLe_total _)

/-- The first of the sorted keys is the least. -/
theorem exists_least_key {keys : List String} (hne : keys ≠ []) :
    ∃ least ∈ keys, (keys.mergeSort keyLe).head? = some least ∧
      ∀ key ∈ keys, codeUnits least ≤ codeUnits key := by
  have hperm := List.mergeSort_perm keys keyLe
  have hsorted := List.pairwise_mergeSort keyLe_trans keyLe_total keys
  cases hkeys : keys.mergeSort keyLe with
  | nil => exact absurd (List.nil_perm.1 (hkeys ▸ hperm)) hne
  | cons least rest =>
      rw [hkeys] at hperm hsorted
      refine ⟨least, hperm.mem_iff.1 List.mem_cons_self, rfl, fun key hkey => ?_⟩
      rcases List.mem_cons.1 (hperm.mem_iff.2 hkey) with rfl | hkey
      · exact le_rfl
      · exact keyLe_iff.1 ((List.pairwise_cons.1 hsorted).1 key hkey)

/-! ## §2  Canonical records -/

/-- `canonical_token`: the length in code units, a colon, the text. -/
def canonicalToken (value : String) : String :=
  toString (codeUnits value).length ++ ":" ++ value

theorem toList_canonicalToken (value : String) :
    (canonicalToken value).toList =
      Nat.toDigits 10 (codeUnits value).length ++ ':' :: value.toList := by
  unfold canonicalToken
  rw [String.toList_append, String.toList_append, List.append_assoc]
  exact congrArg₂ (· ++ ·) Nat.toList_repr rfl

/-- **A token shows its own end.** -/
theorem splits_canonicalToken : PrefixFree.Splits fun value => (canonicalToken value).toList := by
  intro a b r r' h
  simp only [toList_canonicalToken, List.append_assoc, List.cons_append] at h
  have hdigits : ∀ n : ℕ, ∀ ch ∈ Nat.toDigits 10 n, ¬ch = ':' := by
    rintro n ch hmem rfl
    have hdigit := Nat.isDigit_of_mem_toDigits (by omega) le_rfl hmem
    revert hdigit
    decide
  have hstop : ∀ rest : List Char, PrefixFree.AtStop (fun ch => ch = ':') (':' :: rest) :=
    fun rest => PrefixFree.atStop_cons (by rfl) rest
  obtain ⟨hlen, hrest⟩ :=
    PrefixFree.eq_of_atStop (hdigits _) (hdigits _) (hstop _) (hstop _) h
  have hlen : (codeUnits a).length = (codeUnits b).length := by
    rw [← Nat.ofDigitChars_ten_toDigits (n := (codeUnits a).length), hlen,
      Nat.ofDigitChars_ten_toDigits]
  have htext := (List.cons.inj hrest).2
  have hunits := congrArg (List.flatMap charCodeUnits) htext
  rw [List.flatMap_append, List.flatMap_append] at hunits
  obtain rfl := codeUnits_injective (List.append_inj_left hunits hlen)
  exact ⟨rfl, List.append_cancel_left htext⟩

/-- `canonical_number`; not-a-number has no counterpart here, and the text of
either zero is `"0"`. -/
def canonicalNumber {F : Type} [LinearOrder F] [Zero F] [JsMath F] (value : F) :
    String :=
  if JsNumber.isFinite value then JsMath.numberToJsString value
  else if 0 < value then "+Infinity" else "-Infinity"

/-- `canonical_entry_list_key`. -/
def canonicalEntryListKey (F : Type) [LinearOrder F] [Zero F] [JsMath F]
    (entryKeys : List String) : String :=
  canonicalToken "version" ++ canonicalToken "irregular-occupied-geometry-v2" ++
    canonicalToken "entry-count" ++
    canonicalToken (canonicalNumber (JsNumber.ofNat entryKeys.length : F)) ++
    String.join (entryKeys.zipIdx.map fun (entryKey, index) =>
      canonicalToken ("entry-" ++ toString index) ++ canonicalToken entryKey)

end PolygonNesting
