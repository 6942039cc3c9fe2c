import PolygonNesting.Checkpoints.CanonicalJson

/-!
# Canonical records and the paths for ASCII texts

A canonical record is a run of tokens, a name and a value for each row.  Comparing texts
and writing tokens have a path of their own for ASCII texts, which takes bytes for code
units; a label with a number is written without making its text first.
-/

namespace PolygonNesting

/-! ## §1  Bytes -/

/-- `str::is_ascii`. -/
def isAscii (value : String) : Bool := value.toList.all fun ch => decide (ch.toNat < 128)

/-- The UTF-8 bytes of one character. -/
def charBytes (ch : Char) : List ℕ := (String.utf8EncodeChar ch).map UInt8.toNat

/-- `str::as_bytes`; their number is the length of the text. -/
def utf8Bytes (value : String) : List ℕ := value.toList.flatMap charBytes

theorem utf8Size_eq_one_iff {ch : Char} : ch.utf8Size = 1 ↔ ch.toNat < 128 := by
  rw [Char.utf8Size_eq_one_iff, UInt32.le_iff_toNat_le]
  exact Nat.lt_succ_iff.symm

theorem charBytes_of_ascii {ch : Char} (h : ch.toNat < 128) :
    charBytes ch = charCodeUnits ch := by
  have hsize := utf8Size_eq_one_iff.2 h
  unfold charBytes charCodeUnits
  rw [String.utf8EncodeChar_eq_singleton hsize, if_pos (by omega)]
  simp only [List.map_cons, List.map_nil, List.cons.injEq, and_true]
  show ch.val.toUInt8.toNat = ch.val.toNat
  rw [UInt32.toNat_toUInt8]
  exact Nat.mod_eq_of_lt (show ch.toNat < 2 ^ 8 by omega)

theorem length_charCodeUnits_lt {ch : Char} (h : ¬ ch.toNat < 128) :
    (charCodeUnits ch).length < (charBytes ch).length := by
  have hone := mt utf8Size_eq_one_iff.1 h
  have hpos := ch.utf8Size_pos
  unfold charBytes charCodeUnits
  rw [List.length_map, String.length_utf8EncodeChar]
  split
  · rw [List.length_singleton]
    omega
  · rename_i hlarge
    have hval : ∀ bound : UInt32, bound.toNat ≤ 65535 → ¬ ch.val ≤ bound := by
      intro bound hbound hle
      have hle := UInt32.le_iff_toNat_le.1 hle
      exact hlarge (show ch.val.toNat < 65536 by omega)
    simp [Char.utf8Size, hval]

theorem utf8Bytes_of_ascii {value : String} (h : isAscii value = true) :
    utf8Bytes value = codeUnits value := by
  unfold isAscii at h
  unfold utf8Bytes codeUnits
  rw [List.all_eq_true] at h
  refine List.flatMap_congr fun ch hch => charBytes_of_ascii ?_
  simpa using h ch hch

theorem length_codeUnits_append (first second : String) :
    (codeUnits (first ++ second)).length =
      (codeUnits first).length + (codeUnits second).length := by
  unfold codeUnits
  rw [String.toList_append, List.flatMap_append, List.length_append]

/-- No text has more code units than bytes, and only ASCII texts have as many. -/
theorem length_codeUnits_eq_iff {value : String} :
    (utf8Bytes value).length = (codeUnits value).length ↔ isAscii value = true := by
  unfold utf8Bytes codeUnits isAscii
  have hle : ∀ ch : Char, (charCodeUnits ch).length ≤ (charBytes ch).length := by
    intro ch
    by_cases h : ch.toNat < 128
    · rw [charBytes_of_ascii h]
    · exact (length_charCodeUnits_lt h).le
  have hles : ∀ chars : List Char,
      (chars.flatMap charCodeUnits).length ≤ (chars.flatMap charBytes).length := by
    intro chars
    induction chars with
    | nil => exact le_rfl
    | cons ch chars ih =>
        simp only [List.flatMap_cons, List.length_append]
        exact Nat.add_le_add (hle ch) ih
  induction value.toList with
  | nil => simp
  | cons ch chars ih =>
      simp only [List.flatMap_cons, List.length_append, List.all_cons, Bool.and_eq_true,
        decide_eq_true_eq]
      have hchars := hles chars
      by_cases h : ch.toNat < 128
      · simp only [h, true_and]
        rw [charBytes_of_ascii h]
        exact Nat.add_left_cancel_iff.trans ih
      · have hlt := length_charCodeUnits_lt h
        simp only [h, false_and, iff_false]
        omega

/-! ## §2  Comparing texts -/

/-- `cmp_js_code_units` with its path for ASCII texts. -/
def cmpJsCodeUnitsByPath (first second : String) : Ordering :=
  if isAscii first && isAscii second then compareOfLessAndEq (utf8Bytes first) (utf8Bytes second)
  else compareOfLessAndEq (codeUnits first) (codeUnits second)

theorem cmpJsCodeUnitsByPath_eq (first second : String) :
    cmpJsCodeUnitsByPath first second = cmpJsCodeUnits first second := by
  unfold cmpJsCodeUnitsByPath cmpJsCodeUnits
  split
  · rename_i h
    rw [Bool.and_eq_true] at h
    rw [utf8Bytes_of_ascii h.1, utf8Bytes_of_ascii h.2]
  · rfl

/-- A strict total order given by a comparison. -/
structure IsStrictTotalOrder (cmp : String → String → Ordering) : Prop where
  eq_iff : ∀ first second, cmp first second = .eq ↔ first = second
  antisymm : ∀ first second, cmp first second = .lt ↔ cmp second first = .gt
  trans : ∀ first second third, cmp first second = .lt → cmp second third = .lt →
    cmp first third = .lt

theorem IsStrictTotalOrder.of_transCmp {cmp : String → String → Ordering} [Std.TransCmp cmp]
    (heq : ∀ {first second : String}, cmp first second = .eq → first = second) :
    IsStrictTotalOrder cmp where
  eq_iff first second := by
    refine ⟨heq, ?_⟩
    rintro rfl
    exact Std.ReflCmp.compare_self
  antisymm first second := Std.OrientedCmp.gt_iff_lt.symm
  trans first second third := Std.TransCmp.lt_trans

/-- **The order of keys is strict and total on all texts**, and so is the order of code
units, whichever path compares them. -/
theorem localeCompareKeys_isStrictTotalOrder :
    IsStrictTotalOrder localeCompareKeys ∧
    IsStrictTotalOrder cmpJsCodeUnitsByPath ∧
    ∀ first second, cmpJsCodeUnitsByPath first second = cmpJsCodeUnits first second := by
  have hpath : cmpJsCodeUnitsByPath = cmpJsCodeUnits :=
    funext fun first => funext fun second => cmpJsCodeUnitsByPath_eq first second
  refine ⟨.of_transCmp eq_of_localeCompareKeys, ?_, cmpJsCodeUnitsByPath_eq⟩
  rw [hpath]
  exact .of_transCmp eq_of_cmpJsCodeUnits

/-! ## §3  Tokens -/

/-- `write_canonical_token`. -/
def writeCanonicalToken (buf value : String) : String :=
  let units := if isAscii value then (utf8Bytes value).length else (codeUnits value).length
  buf ++ (toString units ++ ":" ++ value)

theorem writeCanonicalToken_eq (buf value : String) :
    writeCanonicalToken buf value = buf ++ canonicalToken value := by
  unfold writeCanonicalToken canonicalToken
  split
  · rename_i h
    rw [utf8Bytes_of_ascii h]
  · rfl

def countDigits (value digits : ℕ) : ℕ :=
  if 0 < value then countDigits (value / 10) (digits + 1) else digits
termination_by value

def decimalDigitCount (value : ℕ) : ℕ := if value = 0 then 1 else countDigits value 0

/-- `write_indexed_canonical_token`: the token of a label with a number. -/
def writeIndexedCanonicalToken (buf label : String) (index : ℕ) : String :=
  let units := (utf8Bytes label).length + decimalDigitCount index
  buf ++ (toString units ++ ":" ++ label ++ toString index)

theorem countDigits_add (value digits : ℕ) :
    countDigits value digits = countDigits value 0 + digits := by
  induction value using Nat.strongRecOn generalizing digits with
  | ind value ih =>
      unfold countDigits
      split
      · rename_i h
        have hlt : value / 10 < value := Nat.div_lt_self h (by decide)
        rw [ih _ hlt (digits + 1), ih _ hlt (0 + 1)]
        omega
      · omega

theorem countDigits_eq {value : ℕ} (h : 0 < value) :
    countDigits value 0 = (Nat.toDigits 10 value).length := by
  induction value using Nat.strongRecOn with
  | ind value ih =>
      rw [countDigits, if_pos h, countDigits_add, Nat.toDigits_eq_if (by decide)]
      split
      · rename_i hsmall
        rw [Nat.div_eq_of_lt hsmall, countDigits]
        rfl
      · rename_i hlarge
        have hpos : 0 < value / 10 := Nat.div_pos (not_lt.1 hlarge) (by decide)
        rw [ih _ (Nat.div_lt_self h (by decide)) hpos, List.length_append]
        rfl

theorem decimalDigitCount_eq (value : ℕ) :
    decimalDigitCount value = (Nat.toDigits 10 value).length := by
  unfold decimalDigitCount
  split
  · rename_i h
    rw [h]
    rfl
  · rename_i h
    exact countDigits_eq (Nat.pos_of_ne_zero h)

/-- A number is as long in code units as it has digits. -/
theorem length_codeUnits_number (index : ℕ) :
    (codeUnits (toString index)).length = (Nat.toDigits 10 index).length := by
  have htext : (toString index).toList = Nat.toDigits 10 index := Nat.toList_repr
  have hunit : ∀ ch ∈ Nat.toDigits 10 index, charCodeUnits ch = [ch.toNat] := by
    intro ch hch
    have hdigit := Nat.isDigit_of_mem_toDigits (by decide) le_rfl hch
    unfold charCodeUnits
    rw [if_pos]
    have hle := (Char.isDigit_iff_toNat.1 hdigit).2
    have hnine : '9'.toNat = 57 := by decide
    omega
  unfold codeUnits
  rw [htext]
  rw [List.flatMap_congr hunit, List.length_flatMap]
  simp

/-- **A label with a number is written as its token exactly where the label is ASCII.** -/
theorem writeIndexedCanonicalToken_eq_iff (buf label : String) (index : ℕ) :
    writeIndexedCanonicalToken buf label index =
        buf ++ canonicalToken (label ++ toString index) ↔
      isAscii label = true := by
  rw [← length_codeUnits_eq_iff]
  unfold writeIndexedCanonicalToken canonicalToken
  rw [length_codeUnits_append, length_codeUnits_number, decimalDigitCount_eq]
  have hnumber : ∀ n : ℕ, (toString n).toList = Nat.toDigits 10 n := fun n => Nat.toList_repr
  constructor
  · intro h
    have htext := congrArg String.toList h
    simp only [String.toList_append, List.append_assoc, List.append_cancel_left_eq,
      hnumber] at htext
    have hdigits := List.append_cancel_right htext
    have hvalue := congrArg (Nat.ofDigitChars 10 · 0) hdigits
    simp only [Nat.ofDigitChars_ten_toDigits] at hvalue
    omega
  · intro h
    rw [h]
    simp only [String.append_assoc]

/-! ## §4  Records -/

/-- A row without a name and a value writes nothing. -/
def writeRow (buf : String) : List String → String
  | name :: value :: _ => writeCanonicalToken (writeCanonicalToken buf name) value
  | _ => buf

/-- `canonical_record`. -/
def canonicalRecord (fields : List (List String)) : String := fields.foldl writeRow ""

/-- The name and the value of a row. -/
def recordRow : List String → Option (String × String)
  | name :: value :: _ => some (name, value)
  | _ => none

theorem foldl_writeRow (fields : List (List String)) (buf : String) :
    (fields.foldl writeRow buf).toList = buf.toList ++
      (fields.filterMap recordRow).flatMap fun row =>
        (canonicalToken row.1).toList ++ (canonicalToken row.2).toList := by
  induction fields generalizing buf with
  | nil => simp
  | cons field fields ih =>
      rw [List.foldl_cons, ih]
      rcases field with _ | ⟨name, _ | ⟨value, rest⟩⟩
      · rw [List.filterMap_cons_none rfl]
        rfl
      · rw [List.filterMap_cons_none rfl]
        rfl
      · rw [List.filterMap_cons_some (show recordRow _ = some (name, value) from rfl)]
        simp [writeRow, writeCanonicalToken_eq]

theorem toList_canonicalRecord (fields : List (List String)) :
    (canonicalRecord fields).toList =
      (fields.filterMap recordRow).flatMap fun row =>
        (canonicalToken row.1).toList ++ (canonicalToken row.2).toList := by
  unfold canonicalRecord
  rw [foldl_writeRow]
  rfl

theorem toList_canonicalToken_ne_nil (value : String) : (canonicalToken value).toList ≠ [] := by
  rw [toList_canonicalToken]
  exact List.append_ne_nil_of_right_ne_nil _ (List.cons_ne_nil _ _)

/-- Records with one text have the same names and values, row by row. -/
theorem canonicalRecord_eq_iff {fields fields' : List (List String)} :
    canonicalRecord fields = canonicalRecord fields' ↔
      fields.filterMap recordRow = fields'.filterMap recordRow := by
  constructor
  · intro h
    have htext := congrArg String.toList h
    rw [toList_canonicalRecord, toList_canonicalRecord] at htext
    refine (splits_canonicalToken.prod splits_canonicalToken).flatMap_injective ?_ htext
    exact fun row => List.append_ne_nil_of_left_ne_nil (toList_canonicalToken_ne_nil row.1) _
  · intro h
    apply String.toList_injective
    rw [toList_canonicalRecord, toList_canonicalRecord, h]

theorem filterMap_recordRow {fields : List (List String)}
    (h : ∀ field ∈ fields, field.length = 2) :
    (fields.filterMap recordRow).map (fun row => [row.1, row.2]) = fields := by
  induction fields with
  | nil => rfl
  | cons field fields ih =>
      have hfield := h field List.mem_cons_self
      have hrest := ih fun field' hfield' => h field' (List.mem_cons_of_mem _ hfield')
      obtain ⟨name, value, rfl⟩ := List.length_eq_two.1 hfield
      rw [List.filterMap_cons_some (show recordRow _ = some (name, value) from rfl),
        List.map_cons, hrest]

/-- **Records of names and values are decodable, and every path writes the same text.**
The label of a number has to be ASCII. -/
theorem canonicalRecord_decodable :
    (∀ fields fields' : List (List String), canonicalRecord fields = canonicalRecord fields' ↔
      fields.filterMap recordRow = fields'.filterMap recordRow) ∧
    (∀ fields fields' : List (List String), (∀ field ∈ fields, field.length = 2) →
      (∀ field ∈ fields', field.length = 2) →
      canonicalRecord fields = canonicalRecord fields' → fields = fields') ∧
    (∀ buf value, writeCanonicalToken buf value = buf ++ canonicalToken value) ∧
    (∀ buf label index, writeIndexedCanonicalToken buf label index =
        buf ++ canonicalToken (label ++ toString index) ↔ isAscii label = true) := by
  refine ⟨fun _ _ => canonicalRecord_eq_iff, ?_, writeCanonicalToken_eq,
    writeIndexedCanonicalToken_eq_iff⟩
  intro fields fields' hfields hfields' h
  rw [← filterMap_recordRow hfields, ← filterMap_recordRow hfields',
    canonicalRecord_eq_iff.1 h]

/-- A row without a value is lost, and a label that is not ASCII gets the wrong length. -/
theorem canonicalRecord_lossy :
    canonicalRecord [["name"]] = canonicalRecord [] ∧ [["name"]] ≠ ([] : List (List String)) ∧
    writeIndexedCanonicalToken "" "é" 0 ≠ canonicalToken ("é" ++ toString 0) := by
  refine ⟨rfl, List.cons_ne_nil _ _, ?_⟩
  decide +kernel

/-- `canonical_entry_list_key_parts`. -/
def canonicalEntryListKeyParts (F : Type) [LinearOrder F] [Zero F] [JsMath F]
    (entryKeys : List String) : String :=
  let buf := writeCanonicalToken "" "version"
  let buf := writeCanonicalToken buf "irregular-occupied-geometry-v2"
  let buf := writeCanonicalToken buf "entry-count"
  let buf := writeCanonicalToken buf (canonicalNumber (JsNumber.ofNat entryKeys.length : F))
  entryKeys.zipIdx.foldl (fun buf entry =>
    writeCanonicalToken (writeIndexedCanonicalToken buf "entry-" entry.2) entry.1) buf

/-- The key of an entry list is a record of its tokens. -/
theorem canonicalEntryListKeyParts_eq (F : Type) [LinearOrder F] [Zero F] [JsMath F]
    (entryKeys : List String) :
    canonicalEntryListKeyParts F entryKeys = canonicalEntryListKey F entryKeys := by
  have hentry : ∀ index, ∀ buf : String, writeIndexedCanonicalToken buf "entry-" index =
      buf ++ canonicalToken ("entry-" ++ toString index) :=
    fun index buf => (writeIndexedCanonicalToken_eq_iff buf "entry-" index).2 (by decide +kernel)
  have hentries : ∀ (entries : List (String × ℕ)) (buf : String),
      entries.foldl (fun buf entry =>
        writeCanonicalToken (writeIndexedCanonicalToken buf "entry-" entry.2) entry.1) buf =
      buf ++ String.join (entries.map fun entry =>
        canonicalToken ("entry-" ++ toString entry.2) ++ canonicalToken entry.1) := by
    intro entries
    induction entries with
    | nil =>
        intro buf
        simp
    | cons entry entries ih =>
        intro buf
        rw [List.foldl_cons, ih, writeCanonicalToken_eq, hentry, List.map_cons,
          String.join_cons, String.append_assoc, String.append_assoc, String.append_assoc]
  unfold canonicalEntryListKeyParts canonicalEntryListKey
  dsimp only
  rw [hentries]
  simp only [writeCanonicalToken_eq, String.empty_append]

end PolygonNesting
