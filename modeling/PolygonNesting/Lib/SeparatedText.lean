import Mathlib.Tactic.Common
import PolygonNesting.Lib.PrefixFree

/-!
# Texts with separators

A separator character that does not occur in a word marks its end: two words
around a separator, and a list of words joined by one, can be read back.
-/

namespace SeparatedText

variable {sep : String} {c : Char}

/-- The word before the first separator. -/
theorem append_inj (hsep : sep.toList = [c]) {first first' rest rest' : String}
    (hfirst : c ∉ first.toList) (hfirst' : c ∉ first'.toList)
    (h : first ++ (sep ++ rest) = first' ++ (sep ++ rest')) :
    first = first' ∧ rest = rest' := by
  have htext := congrArg String.toList h
  simp only [String.toList_append, hsep, List.singleton_append] at htext
  have hclean : ∀ {word : String}, c ∉ word.toList → ∀ ch ∈ word.toList, ¬ ch = c := by
    rintro word hword ch hch rfl
    exact hword hch
  have hstop : ∀ text : List Char, PrefixFree.AtStop (· = c) (c :: text) :=
    PrefixFree.atStop_cons rfl
  obtain ⟨hword, hrest⟩ := PrefixFree.eq_of_atStop (hclean hfirst) (hclean hfirst')
    (hstop _) (hstop _) htext
  exact ⟨String.toList_injective hword, String.toList_injective (List.cons.inj hrest).2⟩

/-- The words of a joined text, when there are any. -/
theorem intercalate_inj (hsep : sep.toList = [c]) {words words' : List String}
    (hwords : ∀ word ∈ words, c ∉ word.toList) (hwords' : ∀ word ∈ words', c ∉ word.toList)
    (hne : words ≠ []) (hne' : words' ≠ [])
    (h : sep.intercalate words = sep.intercalate words') : words = words' := by
  have hsplit : ∀ words : List String, (∀ word ∈ words, c ∉ word.toList) → words ≠ [] →
      (sep.intercalate words).toList.splitOn c = words.map String.toList := by
    intro words hwords hne
    rw [String.toList_intercalate, hsep]
    refine List.splitOn_intercalate c ?_ (by simpa using hne)
    intro text htext
    obtain ⟨word, hword, rfl⟩ := List.mem_map.1 htext
    exact hwords word hword
  refine List.map_injective_iff.2 (fun _ _ => String.toList_injective) ?_
  rw [← hsplit words hwords hne, ← hsplit words' hwords' hne', h]

/-- A joined text has the characters of its words and of the separator only. -/
theorem not_mem_intercalate {ch : Char} (hsep : ch ∉ sep.toList) {words : List String}
    (hwords : ∀ word ∈ words, ch ∉ word.toList) : ch ∉ (sep.intercalate words).toList := by
  induction words with
  | nil => simp
  | cons word words ih =>
      have hrest := ih fun w hw => hwords w (List.mem_cons_of_mem _ hw)
      have hword := hwords word List.mem_cons_self
      by_cases hne : words = []
      · rw [hne, String.intercalate_singleton]
        exact hword
      · rw [String.intercalate_cons_of_ne_nil hne]
        simp only [String.toList_append, List.mem_append, not_or]
        exact ⟨⟨hword, hsep⟩, hrest⟩

/-- A joined text of words that are not empty is empty only without words. -/
theorem intercalate_eq_empty_iff {words : List String} (hne : ∀ word ∈ words, word ≠ "") :
    sep.intercalate words = "" ↔ words = [] := by
  constructor
  · intro h
    rcases words with _ | ⟨word, words⟩
    · rfl
    · have htext := congrArg String.toList h
      rw [String.toList_intercalate, List.map_cons] at htext
      have hword : word.toList = [] := by
        rcases words with _ | ⟨next, words⟩
        · simpa using htext
        · rw [List.map_cons, List.intercalate_cons_cons] at htext
          exact (List.append_eq_nil_iff.mp (List.append_eq_nil_iff.mp htext).1).1
      exact absurd (String.toList_injective hword) (hne word List.mem_cons_self)
  · rintro rfl
    exact String.intercalate_nil

/-- The words of a joined text without empty words. -/
theorem intercalate_inj_of_ne_empty (hsep : sep.toList = [c]) {words words' : List String}
    (hwords : ∀ word ∈ words, c ∉ word.toList ∧ word ≠ "")
    (hwords' : ∀ word ∈ words', c ∉ word.toList ∧ word ≠ "")
    (h : sep.intercalate words = sep.intercalate words') : words = words' := by
  have hempty : sep.intercalate words = "" ↔ words = [] :=
    intercalate_eq_empty_iff fun word hword => (hwords word hword).2
  have hempty' : sep.intercalate words' = "" ↔ words' = [] :=
    intercalate_eq_empty_iff fun word hword => (hwords' word hword).2
  by_cases hne : words = []
  · rw [hne, eq_comm, ← hempty', ← h, hempty, hne]
  · have hne' : words' ≠ [] := by
      rw [Ne, ← hempty', ← h, hempty]
      exact hne
    exact intercalate_inj hsep (fun word hword => (hwords word hword).1)
      (fun word hword => (hwords' word hword).1) hne hne' h

end SeparatedText
