import Mathlib.Data.Nat.Digits.Defs
import Mathlib.Data.Nat.Digits.Lemmas
import PolygonNesting.Lib.Comparator

/-!
# The natural order of texts

A text is cut into tokens: every maximal run of decimal digits is one, every other byte
is one.  Numbers are ordered by their value, among equals the shorter run first, and
stand where digits stand among the bytes; texts are ordered by their tokens.
-/

namespace NaturalOrder

def isDigit (byte : UInt8) : Bool := decide (48 ≤ byte.toNat) && decide (byte.toNat ≤ 57)

theorem isDigit_iff {byte : UInt8} :
    isDigit byte = true ↔ 48 ≤ byte.toNat ∧ byte.toNat ≤ 57 := by
  rw [isDigit, Bool.and_eq_true, decide_eq_true_iff, decide_eq_true_iff]

theorem compare_byte (first second : UInt8) :
    compare first second = compare first.toNat second.toNat := by
  change compareOfLessAndEq first second = compareOfLessAndEq first.toNat second.toNat
  simp only [compareOfLessAndEq, UInt8.lt_iff_toNat_lt, UInt8.toNat_inj]

/-! ## §1  Tokens -/

inductive Token where
  | text (byte : UInt8)
  | number (digits : List UInt8)

namespace Token

def bytes : Token → List UInt8
  | text byte => [byte]
  | number digits => digits

/-- What a token of a text is. -/
def Valid : Token → Prop
  | text byte => isDigit byte = false
  | number digits => digits ≠ [] ∧ ∀ digit ∈ digits, isDigit digit = true

end Token

def tokens : List UInt8 → List Token
  | [] => []
  | byte :: rest =>
      if isDigit byte then
        match tokens rest with
        | .number digits :: more => .number (byte :: digits) :: more
        | more => .number [byte] :: more
      else .text byte :: tokens rest

theorem tokens_text {byte : UInt8} (h : isDigit byte = false) (rest : List UInt8) :
    tokens (byte :: rest) = .text byte :: tokens rest := by
  simp [tokens, h]

/-- A maximal run of digits is one token. -/
theorem tokens_run {run rest : List UInt8} (hne : run ≠ [])
    (hrun : ∀ digit ∈ run, isDigit digit = true)
    (hrest : ∀ byte ∈ rest.head?, isDigit byte = false) :
    tokens (run ++ rest) = .number run :: tokens rest := by
  induction run with
  | nil => exact absurd rfl hne
  | cons digit run ih =>
      have hdigit := hrun digit List.mem_cons_self
      by_cases hrun' : run = []
      · subst hrun'
        cases rest with
        | nil => simp [tokens, hdigit]
        | cons byte rest =>
            have hbyte := hrest byte rfl
            simp [tokens, hdigit, hbyte]
      · have hmore := ih hrun' fun d hd => hrun d (List.mem_cons_of_mem _ hd)
        rw [List.cons_append, tokens, if_pos hdigit, hmore]

/-- The tokens spell the text. -/
theorem flatMap_bytes_tokens : ∀ text : List UInt8, (tokens text).flatMap Token.bytes = text
  | [] => rfl
  | byte :: rest => by
      have ih := flatMap_bytes_tokens rest
      unfold tokens
      split
      · split
        · next digits more hrest =>
          rw [hrest] at ih
          simpa [Token.bytes] using ih
        · next more hmore =>
          simpa [Token.bytes] using ih
      · simpa [Token.bytes] using ih

theorem exists_tokens_cons {text : List UInt8} (h : text ≠ []) :
    ∃ token more, tokens text = token :: more := by
  cases htokens : tokens text with
  | nil =>
      have hspell := flatMap_bytes_tokens text
      rw [htokens] at hspell
      exact absurd hspell.symm h
  | cons token more => exact ⟨token, more, rfl⟩

theorem valid_of_mem_tokens : ∀ {text : List UInt8} {token : Token},
    token ∈ tokens text → token.Valid
  | [], _, h => absurd h List.not_mem_nil
  | byte :: rest, token, h => by
      have ih : ∀ token ∈ tokens rest, token.Valid := fun _ => valid_of_mem_tokens
      unfold tokens at h
      split at h
      · next hdigit =>
        split at h
        · next digits more hrest =>
          rw [hrest] at ih
          rcases List.mem_cons.mp h with rfl | h
          · have hdigits := (ih _ List.mem_cons_self).2
            refine ⟨List.cons_ne_nil _ _, fun d hd => ?_⟩
            rcases List.mem_cons.mp hd with rfl | hd
            · exact hdigit
            · exact hdigits d hd
          · exact ih token (List.mem_cons_of_mem _ h)
        · rcases List.mem_cons.mp h with rfl | h
          · refine ⟨List.cons_ne_nil _ _, fun d hd => ?_⟩
            rw [List.mem_singleton.mp hd]
            exact hdigit
          · exact ih token h
      · next hdigit =>
        rcases List.mem_cons.mp h with rfl | h
        · exact (Bool.not_eq_true _).mp hdigit
        · exact ih token h

/-! ## §2  Values -/

/-- The number a run of decimal digits writes. -/
def value (digits : List UInt8) : ℕ :=
  Nat.ofDigits 10 (digits.map fun digit => digit.toNat - 48).reverse

theorem value_cons (digit : UInt8) (digits : List UInt8) :
    value (digit :: digits) =
      value digits + 10 ^ digits.length * (digit.toNat - 48) := by
  unfold value
  rw [List.map_cons, List.reverse_cons, Nat.ofDigits_append, Nat.ofDigits_singleton,
    List.length_reverse, List.length_map]

theorem value_lt {digits : List UInt8} (h : ∀ digit ∈ digits, isDigit digit = true) :
    value digits < 10 ^ digits.length := by
  have hlt : ∀ n ∈ (digits.map fun digit => digit.toNat - 48).reverse, n < 10 := by
    intro n hn
    obtain ⟨digit, hdigit, rfl⟩ := List.mem_map.mp (List.mem_reverse.mp hn)
    have := isDigit_iff.mp (h digit hdigit)
    omega
  have hbound := Nat.ofDigits_lt_base_pow_length (by norm_num) hlt
  rwa [List.length_reverse, List.length_map] at hbound

/-- A smaller leading digit makes the smaller number. -/
theorem value_lt_of_leading {digit digit' : UInt8} {digits digits' : List UInt8}
    (h : ∀ d ∈ digits, isDigit d = true) (hlength : digits.length = digits'.length)
    (hleading : digit.toNat - 48 < digit'.toNat - 48) :
    value (digit :: digits) < value (digit' :: digits') := by
  have hlt := value_lt h
  have hpower := Nat.mul_le_mul_left (10 ^ digits.length) (Nat.succ_le_of_lt hleading)
  rw [Nat.mul_succ] at hpower
  rw [value_cons, value_cons, ← hlength]
  omega

/-- Runs of one length are ordered by value as they are digit by digit. -/
theorem compare_of_length_eq : ∀ {digits digits' : List UInt8},
    (∀ digit ∈ digits, isDigit digit = true) → (∀ digit ∈ digits', isDigit digit = true) →
      digits.length = digits'.length →
        compare digits digits' = compare (value digits) (value digits')
  | [], [], _, _, _ => rfl
  | digit :: digits, digit' :: digits', h, h', hlength => by
      have hlength' : digits.length = digits'.length := Nat.succ.inj hlength
      have htail : ∀ d ∈ digits, isDigit d = true := fun d hd => h d (List.mem_cons_of_mem _ hd)
      have htail' : ∀ d ∈ digits', isDigit d = true :=
        fun d hd => h' d (List.mem_cons_of_mem _ hd)
      have hd := isDigit_iff.mp (h digit List.mem_cons_self)
      have hd' := isDigit_iff.mp (h' digit' List.mem_cons_self)
      rw [List.compare_cons_cons, compare_byte]
      -- the leading digit decides unless the leading digits agree
      rcases lt_trichotomy digit.toNat digit'.toNat with hdigit | hdigit | hdigit
      · have hlt := value_lt_of_leading htail hlength' 
          (by omega : digit.toNat - 48 < digit'.toNat - 48)
        rw [compare_lt_iff_lt.mpr hdigit, compare_lt_iff_lt.mpr hlt]
        rfl
      · rw [hdigit, compare_eq_iff_eq.mpr rfl, compare_of_length_eq htail htail' hlength',
          value_cons, value_cons, hdigit, ← hlength']
        exact Comparator.compare_congr (by omega) (by omega)
      · have hlt := value_lt_of_leading htail' hlength'.symm
          (by omega : digit'.toNat - 48 < digit.toNat - 48)
        rw [compare_gt_iff_gt.mpr hdigit, compare_gt_iff_gt.mpr hlt]
        rfl

theorem eq_of_value_eq {digits digits' : List UInt8}
    (h : ∀ digit ∈ digits, isDigit digit = true) (h' : ∀ digit ∈ digits', isDigit digit = true)
    (hlength : digits.length = digits'.length) (hvalue : value digits = value digits') :
    digits = digits' := by
  have hcompare := compare_of_length_eq h h' hlength
  rw [hvalue, compare_eq_iff_eq.mpr rfl] at hcompare
  exact Std.LawfulEqOrd.eq_of_compare hcompare

/-- The digits from the first that is not a zero, and always the last one. -/
def significantDigits : List UInt8 → List UInt8
  | digit :: next :: rest =>
      if digit = 48 then significantDigits (next :: rest) else digit :: next :: rest
  | digits => digits

theorem significantDigits_ne_nil {digits : List UInt8} (h : digits ≠ []) :
    significantDigits digits ≠ [] := by
  fun_induction significantDigits digits with
  | case1 next rest ih => exact ih (List.cons_ne_nil _ _)
  | case2 => exact List.cons_ne_nil _ _
  | case3 => exact h

theorem value_significantDigits (digits : List UInt8) :
    value (significantDigits digits) = value digits := by
  fun_induction significantDigits digits with
  | case1 next rest ih =>
      have hzero : (48 : UInt8).toNat - 48 = 0 := rfl
      rw [ih, value_cons 48, hzero, Nat.mul_zero, Nat.add_zero]
  | case2 => rfl
  | case3 => rfl

theorem significantDigits_suffix (digits : List UInt8) : significantDigits digits <:+ digits := by
  fun_induction significantDigits digits with
  | case1 next rest ih => exact ih.trans (List.suffix_cons _ _)
  | case2 => exact List.suffix_refl _
  | case3 => exact List.suffix_refl _

/-- Of several significant digits the first is not a zero. -/
theorem pow_le_value_significantDigits {digits : List UInt8}
    (h : ∀ digit ∈ digits, isDigit digit = true)
    (hlength : 2 ≤ (significantDigits digits).length) :
    10 ^ ((significantDigits digits).length - 1) ≤ value (significantDigits digits) := by
  fun_induction significantDigits digits with
  | case1 next rest ih =>
      exact ih (fun digit hdigit => h digit (List.mem_cons_of_mem _ hdigit)) hlength
  | case2 digit next rest hzero =>
      have hdigit := isDigit_iff.mp (h digit List.mem_cons_self)
      have hne : digit.toNat ≠ 48 := fun heq => hzero (UInt8.toNat_inj.mp heq)
      have hstep : 1 ≤ digit.toNat - 48 := by omega
      have hpower := Nat.mul_le_mul_left (10 ^ (next :: rest).length) hstep
      rw [value_cons, List.length_cons (a := digit), Nat.add_sub_cancel]
      omega
  | case3 digits hshort =>
      rcases digits with _ | ⟨digit, _ | ⟨next, rest⟩⟩
      · simp at hlength
      · simp at hlength
      · exact absurd rfl (hshort digit next rest)

/-- Comparing the significant digits, by length and then digit by digit, compares the
values. -/
theorem compare_significantDigits {digits digits' : List UInt8}
    (h : ∀ digit ∈ digits, isDigit digit = true) (h' : ∀ digit ∈ digits', isDigit digit = true)
    (hne : digits ≠ []) (hne' : digits' ≠ []) :
    (compare (significantDigits digits).length (significantDigits digits').length).then
        (compare (significantDigits digits) (significantDigits digits')) =
      compare (value digits) (value digits') := by
  have hsignificant : ∀ d ∈ significantDigits digits, isDigit d = true :=
    fun d hd => h d ((significantDigits_suffix digits).subset hd)
  have hsignificant' : ∀ d ∈ significantDigits digits', isDigit d = true :=
    fun d hd => h' d ((significantDigits_suffix digits').subset hd)
  have hshorter : ∀ {digits digits' : List UInt8}, digits ≠ [] →
      (∀ d ∈ significantDigits digits, isDigit d = true) →
      (∀ d ∈ digits', isDigit d = true) →
      (significantDigits digits).length < (significantDigits digits').length →
      value digits < value digits' := by
    intro digits digits' hne hdigits hdigits' hlt
    have hpos : 1 ≤ (significantDigits digits).length := by
      rw [Nat.one_le_iff_ne_zero, Ne, List.length_eq_zero_iff]
      exact significantDigits_ne_nil hne
    rw [← value_significantDigits digits, ← value_significantDigits digits']
    calc value (significantDigits digits)
        < 10 ^ (significantDigits digits).length := value_lt hdigits
      _ ≤ 10 ^ ((significantDigits digits').length - 1) :=
          Nat.pow_le_pow_right (by norm_num) (by omega)
      _ ≤ value (significantDigits digits') :=
          pow_le_value_significantDigits hdigits' (by omega)
  rcases lt_trichotomy (significantDigits digits).length (significantDigits digits').length
    with hlt | heq | hlt
  · rw [compare_lt_iff_lt.mpr hlt, compare_lt_iff_lt.mpr (hshorter hne hsignificant h' hlt)]
    rfl
  · rw [compare_eq_iff_eq.mpr heq, compare_of_length_eq hsignificant hsignificant' heq,
      value_significantDigits, value_significantDigits]
    rfl
  · rw [compare_gt_iff_gt.mpr hlt, compare_gt_iff_gt.mpr (hshorter hne' hsignificant' h hlt)]
    rfl

/-! ## §3  The order of texts -/

namespace Token

/-- Where a token stands among the bytes: all numbers stand at the digit zero. -/
def leading : Token → ℕ
  | text byte => byte.toNat
  | number _ => 48

def value : Token → ℕ
  | text _ => 0
  | number digits => NaturalOrder.value digits

def cmp (first second : Token) : Ordering :=
  (compare first.leading second.leading).then
    ((compare first.value second.value).then
      (compare first.bytes.length second.bytes.length))

instance : Std.TransCmp cmp :=
  Comparator.transCmp_then (Comparator.transCmp_comap compare leading)
    (Comparator.transCmp_then (Comparator.transCmp_comap compare value)
      (Comparator.transCmp_comap compare fun token : Token => token.bytes.length))

/-- A byte that is no digit stands before all numbers or after them. -/
theorem leading_ne {byte : UInt8} (h : isDigit byte = false) : byte.toNat ≠ 48 := by
  intro heq
  rw [Bool.eq_false_iff, Ne, isDigit_iff] at h
  omega

/-- Tokens of texts tie only when they are equal. -/
theorem eq_of_cmp_eq {first second : Token} (hfirst : first.Valid) (hsecond : second.Valid)
    (h : cmp first second = .eq) : first = second := by
  unfold cmp at h
  simp only [Ordering.then_eq_eq, compare_eq_iff_eq] at h
  obtain ⟨hleading, hvalue, hlength⟩ := h
  cases first with
  | text byte =>
      cases second with
      | text byte' => rw [UInt8.toNat_inj.mp hleading]
      | number digits => exact absurd hleading (leading_ne hfirst)
  | number digits =>
      cases second with
      | text byte => exact absurd hleading.symm (leading_ne hsecond)
      | number digits' => rw [eq_of_value_eq hfirst.2 hsecond.2 hlength hvalue]

end Token

/-- The natural order. -/
def cmp (first second : List UInt8) : Ordering :=
  List.compareLex Token.cmp (tokens first) (tokens second)

instance : Std.TransCmp cmp :=
  Comparator.transCmp_comap (List.compareLex Token.cmp) tokens

theorem eq_of_compareLex_eq : ∀ {first second : List Token},
    (∀ token ∈ first, token.Valid) → (∀ token ∈ second, token.Valid) →
      List.compareLex Token.cmp first second = .eq → first = second
  | [], [], _, _, _ => rfl
  | [], _ :: _, _, _, h => by cases h
  | _ :: _, [], _, _, h => by cases h
  | token :: first, token' :: second, hfirst, hsecond, h => by
      rw [List.compareLex_cons_cons, Ordering.then_eq_eq] at h
      rw [Token.eq_of_cmp_eq (hfirst _ List.mem_cons_self) (hsecond _ List.mem_cons_self) h.1,
        eq_of_compareLex_eq (fun t ht => hfirst t (List.mem_cons_of_mem _ ht))
          (fun t ht => hsecond t (List.mem_cons_of_mem _ ht)) h.2]

theorem cmp_nil_left {text : List UInt8} (h : text ≠ []) : cmp [] text = .lt := by
  obtain ⟨token, more, htokens⟩ := exists_tokens_cons h
  unfold cmp
  rw [htokens]
  rfl

/-- **Only equal texts tie.** -/
theorem eq_of_cmp_eq {first second : List UInt8} (h : cmp first second = .eq) :
    first = second := by
  have htokens : tokens first = tokens second :=
    eq_of_compareLex_eq (fun _ => valid_of_mem_tokens) (fun _ => valid_of_mem_tokens) h
  rw [← flatMap_bytes_tokens first, htokens, flatMap_bytes_tokens]

/-- Equal beginnings that end a token do not matter. -/
theorem tokens_append {front back : List UInt8}
    (hfront : ∀ byte ∈ front.getLast?, isDigit byte = false) :
    tokens (front ++ back) = tokens front ++ tokens back := by
  induction front with
  | nil => rfl
  | cons byte front ih =>
      by_cases hempty : front = []
      · subst hempty
        have hbyte := hfront byte rfl
        rw [List.singleton_append, tokens_text hbyte, tokens_text hbyte]
        rfl
      · have hrest := ih (by rwa [List.getLast?_cons_of_ne_nil hempty] at hfront)
        rw [List.cons_append]
        by_cases hbyte : isDigit byte = true
        · obtain ⟨token, more, htokens⟩ := exists_tokens_cons hempty
          rw [htokens] at hrest
          cases token <;> simp [tokens, hbyte, hrest, htokens]
        · rw [tokens_text ((Bool.not_eq_true _).mp hbyte), hrest,
            tokens_text ((Bool.not_eq_true _).mp hbyte)]
          rfl

/-- **Numbers are ordered by their values.** -/
theorem cmp_eq_lt_of_value_lt {front digits digits' back back' : List UInt8}
    (hfront : ∀ byte ∈ front.getLast?, isDigit byte = false)
    (hdigits : digits ≠ [] ∧ ∀ digit ∈ digits, isDigit digit = true)
    (hdigits' : digits' ≠ [] ∧ ∀ digit ∈ digits', isDigit digit = true)
    (hback : ∀ byte ∈ back.head?, isDigit byte = false)
    (hback' : ∀ byte ∈ back'.head?, isDigit byte = false)
    (h : value digits < value digits') :
    cmp (front ++ (digits ++ back)) (front ++ (digits' ++ back')) = .lt := by
  have hprefix : ∀ common first second : List Token,
      List.compareLex Token.cmp (common ++ first) (common ++ second) =
        List.compareLex Token.cmp first second := by
    intro common first second
    induction common with
    | nil => rfl
    | cons token common ih =>
        rw [List.cons_append, List.cons_append, List.compareLex_cons_cons,
          Comparator.cmp_self Token.cmp, ih]
        rfl
  unfold cmp
  rw [tokens_append hfront, tokens_append hfront, hprefix,
    tokens_run hdigits.1 hdigits.2 hback, tokens_run hdigits'.1 hdigits'.2 hback',
    List.compareLex_cons_cons]
  have htoken : Token.cmp (.number digits) (.number digits') = .lt := by
    have hvalue : compare (Token.number digits).value (Token.number digits').value = .lt :=
      compare_lt_iff_lt.mpr h
    unfold Token.cmp
    rw [hvalue]
    rfl
  rw [htoken]
  rfl

end NaturalOrder
