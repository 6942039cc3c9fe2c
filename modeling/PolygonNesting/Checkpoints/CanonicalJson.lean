import Mathlib.Data.List.Sort
import Mathlib.Data.Prod.Lex
import PolygonNesting.Caches.Key
import PolygonNesting.Canonical.Token
import PolygonNesting.Lib.Comparator
import PolygonNesting.Lib.Fallible

/-!
# Canonical JSON

Three encoders write a value tree as JSON with the fields of every object in the
order of their keys; hashes and identities are taken of the text.  They differ in the
key order, in what they do with a `Map` and in what they do with a `BigInt`: an
`EncoderRules` says which.

A panic is `none`.  An encoding is `some none` for `undefined`, which has no text.
The debug assertion that keys are ASCII is not modelled: the order is that of a
release build.
-/

namespace PolygonNesting

/-! ## §1  Values -/

inductive JsValue (F : Type) where
  | undefined
  | null
  | bool (value : Bool)
  | num (value : F)
  | bigInt (value : ℤ)
  | str (value : String)
  | arr (items : List (JsValue F))
  | obj (fields : List (String × JsValue F))
  | map (entries : List (JsValue F × JsValue F))

section Encoders

variable {F : Type} [JsMath F]

/-- `json_string_literal`: the escapes are those of the cache keys. -/
def jsonStringLiteral (value : String) : String := String.ofList (Caches.jsonString value)

/-- `json_number_token`. -/
def jsonNumberToken (value : F) : String :=
  if JsNumber.isFinite value then JsMath.numberToJsString value else "null"

mutual

/-- `String(value)`. -/
def jsToString : JsValue F → String
  | .undefined => "undefined"
  | .null => "null"
  | .bool true => "true"
  | .bool false => "false"
  | .num value => JsMath.numberToJsString value
  | .bigInt value => toString value
  | .str value => value
  | .arr items => ",".intercalate (jsToStringItems items)
  | .obj _ => "[object Object]"
  | .map _ => "[object Map]"

/-- The items of an array, `undefined` and `null` as empty texts. -/
def jsToStringItems : List (JsValue F) → List String
  | [] => []
  | .undefined :: items => "" :: jsToStringItems items
  | .null :: items => "" :: jsToStringItems items
  | item :: items => jsToString item :: jsToStringItems items

end

def joinArrayElements (elements : List (Option String)) : String :=
  ",".intercalate (elements.map (·.getD ""))

/-! ## §2  Key order -/

def localePrimaryWeights : List ℕ :=
  [0, 6, 10, 22, 32, 23, 21, 9, 11, 12, 18, 26, 3, 2, 8, 19, 33, 34, 35, 36, 37, 38, 39,
    40, 41, 42, 5, 4, 27, 28, 29, 7, 17, 43, 44, 45, 46, 47, 48, 49, 50, 51, 52, 53, 54,
    55, 56, 57, 58, 59, 60, 61, 62, 63, 64, 65, 66, 67, 68, 13, 20, 14, 25, 1, 24, 43, 44,
    45, 46, 47, 48, 49, 50, 51, 52, 53, 54, 55, 56, 57, 58, 59, 60, 61, 62, 63, 64, 65, 66,
    67, 68, 15, 30, 16, 31]

/-- Characters outside the table come after it, in the order of their code points. -/
def localePrimaryWeight (ch : Char) : ℕ :=
  if 0x20 ≤ ch.toNat ∧ ch.toNat ≤ 0x7e then
    localePrimaryWeights.getD (ch.toNat - 0x20) 0
  else 0x110000 + ch.toNat

/-- `char::is_ascii_uppercase`. -/
def isAsciiUppercase (ch : Char) : Bool := decide (0x41 ≤ ch.toNat ∧ ch.toNat ≤ 0x5a)

/-- The primary pass: weights, then length. -/
def comparePrimary : List Char → List Char → Ordering
  | first :: firsts, second :: seconds =>
      if localePrimaryWeight first ≠ localePrimaryWeight second then
        compare (localePrimaryWeight first) (localePrimaryWeight second)
      else comparePrimary firsts seconds
  | _ :: _, [] => .gt
  | [], _ :: _ => .lt
  | [], [] => .eq

/-- The tertiary pass: lower case first. -/
def compareCase : List Char → List Char → Ordering
  | first :: firsts, second :: seconds =>
      if first = second then compareCase firsts seconds
      else if isAsciiUppercase first ≠ isAsciiUppercase second then
        if isAsciiUppercase first then .gt else .lt
      else compareCase firsts seconds
  | _, _ => .eq

def localeCompareKeys (first second : String) : Ordering :=
  if comparePrimary first.toList second.toList = .eq then
    compareCase first.toList second.toList
  else comparePrimary first.toList second.toList

/-- A linear order of the keys. -/
structure KeyOrder (compareKeys : String → String → Ordering) : Prop where
  total : ∀ first second,
    (compareKeys first second).isLE || (compareKeys second first).isLE
  trans : ∀ first second third, (compareKeys first second).isLE →
    (compareKeys second third).isLE → (compareKeys first third).isLE
  antisymm : ∀ first second, (compareKeys first second).isLE →
    (compareKeys second first).isLE → first = second

/-- An order read off an injective measure. -/
theorem KeyOrder.of_measure {β : Type} [LinearOrder β] (measure : String → β)
    (hmeasure : Function.Injective measure) {compareKeys : String → String → Ordering}
    (hle : ∀ first second,
      (compareKeys first second).isLE = true ↔ measure first ≤ measure second) :
    KeyOrder compareKeys where
  total first second := by
    rw [Bool.or_eq_true, hle, hle]
    exact le_total _ _
  trans first second third := by
    rw [hle, hle, hle]
    exact le_trans
  antisymm first second := by
    rw [hle, hle]
    exact fun h h' => hmeasure (le_antisymm h h')

theorem keyOrder_cmpJsCodeUnits : KeyOrder cmpJsCodeUnits :=
  .of_measure codeUnits codeUnits_injective fun first second => by
    rw [← keyLe_iff]
    unfold keyLe
    cases cmpJsCodeUnits first second <;> simp

/-- The table gives one weight to the two cases of a letter and to nothing else. -/
theorem localePrimaryWeights_inj : ∀ i < 95, ∀ j < 95,
    localePrimaryWeights.getD i 0 = localePrimaryWeights.getD j 0 →
      (decide (0x41 ≤ i + 0x20 ∧ i + 0x20 ≤ 0x5a) =
        decide (0x41 ≤ j + 0x20 ∧ j + 0x20 ≤ 0x5a)) → i = j := by
  decide +kernel

theorem localePrimaryWeights_lt : ∀ i < 95, localePrimaryWeights.getD i 0 < 0x110000 := by
  decide +kernel

/-- Weight and case determine the character. -/
theorem char_eq_of_weight {a b : Char}
    (hweight : localePrimaryWeight a = localePrimaryWeight b)
    (hcase : isAsciiUppercase a = isAsciiUppercase b) : a = b := by
  have htable : ∀ c : Char, 0x20 ≤ c.toNat ∧ c.toNat ≤ 0x7e → c.toNat - 0x20 < 95 := by
    intro c hc
    omega
  apply Char.toNat_inj.mp
  unfold localePrimaryWeight at hweight
  unfold isAsciiUppercase at hcase
  split at hweight
  · rename_i ha
    split at hweight
    · rename_i hb
      have h := localePrimaryWeights_inj _ (htable a ha) _ (htable b hb) hweight
        (by rwa [Nat.sub_add_cancel ha.1, Nat.sub_add_cancel hb.1])
      omega
    · have h := localePrimaryWeights_lt _ (htable a ha)
      omega
  · split at hweight
    · rename_i hb
      have h := localePrimaryWeights_lt _ (htable b hb)
      omega
    · omega

theorem comparePrimary_eq_iff {firsts : List Char} : ∀ {seconds : List Char},
    comparePrimary firsts seconds = .eq ↔
      firsts.map localePrimaryWeight = seconds.map localePrimaryWeight := by
  induction firsts with
  | nil =>
      intro seconds
      cases seconds <;> simp [comparePrimary]
  | cons first firsts ih =>
      intro seconds
      cases seconds with
      | nil => simp [comparePrimary]
      | cons second seconds =>
          by_cases h : localePrimaryWeight first = localePrimaryWeight second
          · simp [comparePrimary, h, ih]
          · simp [comparePrimary, h]

theorem comparePrimary_lt_iff {firsts : List Char} : ∀ {seconds : List Char},
    comparePrimary firsts seconds = .lt ↔
      firsts.map localePrimaryWeight < seconds.map localePrimaryWeight := by
  induction firsts with
  | nil =>
      intro seconds
      cases seconds <;> simp [comparePrimary]
  | cons first firsts ih =>
      intro seconds
      cases seconds with
      | nil => simp [comparePrimary]
      | cons second seconds =>
          by_cases h : localePrimaryWeight first = localePrimaryWeight second
          · simp [comparePrimary, h, ih]
          · rw [List.map_cons, List.map_cons, List.cons_lt_cons_iff]
            simp [comparePrimary, h, Nat.compare_eq_lt]

/-- Where the weights agree, the tertiary pass compares the cases. -/
theorem compareCase_isLE_iff {firsts : List Char} : ∀ {seconds : List Char},
    firsts.map localePrimaryWeight = seconds.map localePrimaryWeight →
      ((compareCase firsts seconds).isLE = true ↔
        ¬ seconds.map isAsciiUppercase < firsts.map isAsciiUppercase) := by
  induction firsts with
  | nil =>
      intro seconds h
      cases seconds with
      | nil => simp [compareCase]
      | cons second seconds => simp at h
  | cons first firsts ih =>
      intro seconds h
      cases seconds with
      | nil => simp at h
      | cons second seconds =>
          rw [List.map_cons, List.map_cons, List.cons.injEq] at h
          obtain ⟨hweight, hrest⟩ := h
          by_cases heq : first = second
          · simp [compareCase, heq, ih hrest]
          · have hcase : isAsciiUppercase first ≠ isAsciiUppercase second :=
              fun hcase => heq (char_eq_of_weight hweight hcase)
            rw [List.map_cons, List.map_cons, List.cons_lt_cons_iff]
            simp only [Ne.symm hcase, false_and, or_false]
            cases hfirst : isAsciiUppercase first <;>
              cases hsecond : isAsciiUppercase second <;>
              simp_all [compareCase]

theorem keyOrder_localeCompareKeys : KeyOrder localeCompareKeys := by
  refine .of_measure
    (fun key => toLex (key.toList.map localePrimaryWeight,
      key.toList.map isAsciiUppercase)) ?_ ?_
  · intro first second h
    have hpair := Prod.mk.inj (toLex.injective h)
    have hchars : ∀ firsts seconds : List Char,
        firsts.map localePrimaryWeight = seconds.map localePrimaryWeight →
        firsts.map isAsciiUppercase = seconds.map isAsciiUppercase → firsts = seconds := by
      intro firsts
      induction firsts with
      | nil => intro seconds hweights _; simpa using hweights
      | cons first firsts ih =>
          intro seconds hweights hcases
          cases seconds with
          | nil => simp at hweights
          | cons second seconds =>
              rw [List.map_cons, List.map_cons, List.cons.injEq] at hweights hcases
              rw [char_eq_of_weight hweights.1 hcases.1, ih _ hweights.2 hcases.2]
    exact String.toList_injective (hchars _ _ hpair.1 hpair.2)
  · intro first second
    rw [Prod.Lex.toLex_le_toLex]
    unfold localeCompareKeys
    split
    · rename_i h
      have hweights := comparePrimary_eq_iff.1 h
      rw [compareCase_isLE_iff hweights, not_lt]
      simp [hweights]
    · rename_i h
      have hweights := mt comparePrimary_eq_iff.2 h
      rw [← comparePrimary_lt_iff]
      simp only [hweights, false_and, or_false]
      cases hcompare : comparePrimary first.toList second.toList <;> simp_all

theorem comparePrimary_swap : ∀ firsts seconds : List Char,
    comparePrimary firsts seconds = (comparePrimary seconds firsts).swap
  | [], [] => rfl
  | [], _ :: _ => rfl
  | _ :: _, [] => rfl
  | first :: firsts, second :: seconds => by
      unfold comparePrimary
      by_cases h : localePrimaryWeight first = localePrimaryWeight second
      · rw [if_neg (not_not.2 h), if_neg (not_not.2 h.symm)]
        exact comparePrimary_swap firsts seconds
      · rw [if_pos h, if_pos (Ne.symm h)]
        exact Std.OrientedOrd.eq_swap

theorem compareCase_swap : ∀ firsts seconds : List Char,
    compareCase firsts seconds = (compareCase seconds firsts).swap
  | [], [] => rfl
  | [], _ :: _ => rfl
  | _ :: _, [] => rfl
  | first :: firsts, second :: seconds => by
      unfold compareCase
      by_cases h : first = second
      · rw [if_pos h, if_pos h.symm]
        exact compareCase_swap firsts seconds
      · rw [if_neg h, if_neg (Ne.symm h), compareCase_swap firsts seconds]
        cases isAsciiUppercase first <;> cases isAsciiUppercase second <;> rfl

instance : Std.TransCmp localeCompareKeys where
  eq_swap {first second} := by
    unfold localeCompareKeys
    rw [comparePrimary_swap first.toList second.toList,
      compareCase_swap first.toList second.toList]
    cases comparePrimary second.toList first.toList <;> rfl
  isLE_trans := keyOrder_localeCompareKeys.trans _ _ _

theorem eq_of_localeCompareKeys {first second : String}
    (h : localeCompareKeys first second = .eq) : first = second := by
  refine keyOrder_localeCompareKeys.antisymm first second ?_ ?_
  · rw [h]
    rfl
  · rw [Comparator.cmp_eq_swap localeCompareKeys, h]
    rfl

theorem eq_of_cmpJsCodeUnits {first second : String}
    (h : cmpJsCodeUnits first second = .eq) : first = second := by
  unfold cmpJsCodeUnits compareOfLessAndEq at h
  split at h
  · exact absurd h (by decide)
  · split at h
    · next heq => exact codeUnits_injective heq
    · exact absurd h (by decide)

instance : Std.TransCmp cmpJsCodeUnits where
  eq_swap {first second} := by
    unfold cmpJsCodeUnits compareOfLessAndEq
    rcases lt_trichotomy (codeUnits first) (codeUnits second) with h | h | h
    · simp [h, h.not_gt, h.ne']
    · simp [h]
    · simp [h, h.not_gt, h.ne']
  isLE_trans := keyOrder_cmpJsCodeUnits.trans _ _ _

/-! ## §3  The encoders -/

/-- What an encoder does that the others do not. -/
structure EncoderRules where
  compareKeys : String → String → Ordering
  keyOrder : KeyOrder compareKeys
  encodesMap : Bool
  encodesBigInt : Bool

/-- The fields that have a text, by key. -/
def sortFields (rules : EncoderRules) (fields : List (String × Option String)) :
    List (String × String) :=
  (fields.filterMap fun field => field.2.map (field.1, ·)).mergeSort
    fun first second => (rules.compareKeys first.1 second.1).isLE

/-- The text of an object, from the texts of its field values.  Sorting the texts is
sorting the fields: only the keys are compared. -/
def encodeObject (rules : EncoderRules) (fields : List (String × Option String)) :
    String :=
  "\x7b" ++ ",".intercalate ((sortFields rules fields).map fun field =>
    jsonStringLiteral field.1 ++ ":" ++ field.2) ++ "\x7d"

def encodeArray (elements : List (Option String)) : String :=
  "[" ++ joinArrayElements elements ++ "]"

/-- The text of a `Map`, from the string of each key and the texts of key and value:
an array of pairs, sorted by the string. -/
def encodeMap (rules : EncoderRules)
    (entries : List (String × Option String × Option String)) : String :=
  encodeArray ((entries.mergeSort fun first second =>
    (rules.compareKeys first.1 second.1).isLE).map fun entry =>
      some (encodeArray [entry.2.1, entry.2.2]))

mutual

def canonicalJson (rules : EncoderRules) : JsValue F → Option (Option String)
  | .undefined => some none
  | .null => some (some "null")
  | .bool true => some (some "true")
  | .bool false => some (some "false")
  | .num value => some (some (jsonNumberToken value))
  | .bigInt value =>
      if rules.encodesBigInt then some (some (jsonStringLiteral (toString value)))
      else none
  | .str value => some (some (jsonStringLiteral value))
  | .arr items => (canonicalItems rules items).map fun elements =>
      some (encodeArray elements)
  | .obj fields => (canonicalFields rules fields).map fun fields =>
      some (encodeObject rules fields)
  | .map entries =>
      if rules.encodesMap then (canonicalEntries rules entries).map fun entries =>
        some (encodeMap rules entries)
      else none

def canonicalItems (rules : EncoderRules) : List (JsValue F) →
    Option (List (Option String))
  | [] => some []
  | item :: items => do
      let element ← canonicalJson rules item
      let elements ← canonicalItems rules items
      some (element :: elements)

def canonicalFields (rules : EncoderRules) : List (String × JsValue F) →
    Option (List (String × Option String))
  | [] => some []
  | (key, value) :: fields => do
      let encoded ← canonicalJson rules value
      let fields ← canonicalFields rules fields
      some ((key, encoded) :: fields)

def canonicalEntries (rules : EncoderRules) : List (JsValue F × JsValue F) →
    Option (List (String × Option String × Option String))
  | [] => some []
  | (key, value) :: entries => do
      let encodedKey ← canonicalJson rules key
      let encodedValue ← canonicalJson rules value
      let entries ← canonicalEntries rules entries
      some ((jsToString key, encodedKey, encodedValue) :: entries)

end

def intrinsicCapacityRules : EncoderRules :=
  ⟨cmpJsCodeUnits, keyOrder_cmpJsCodeUnits, false, true⟩
def intrinsicStrictRules : EncoderRules :=
  ⟨localeCompareKeys, keyOrder_localeCompareKeys, true, true⟩
def intrinsicPeriodicRules : EncoderRules :=
  ⟨localeCompareKeys, keyOrder_localeCompareKeys, false, false⟩

/-- Encoder A. -/
def intrinsicCapacityCanonicalJson : JsValue F → Option (Option String) :=
  canonicalJson intrinsicCapacityRules

/-- Encoder B. -/
def intrinsicStrictCanonicalJson : JsValue F → Option (Option String) :=
  canonicalJson intrinsicStrictRules

/-- Encoder C. -/
def intrinsicPeriodicCanonicalJson : JsValue F → Option (Option String) :=
  canonicalJson intrinsicPeriodicRules

/-! ## §4  Field order -/

/-- The same tree up to the order of object fields.  If `distinct` holds, only the
fields of objects with distinct keys change places. -/
inductive FieldOrder (distinct : Prop) : JsValue F → JsValue F → Prop where
  | refl (value : JsValue F) : FieldOrder distinct value value
  | symm {value value' : JsValue F} : FieldOrder distinct value value' →
      FieldOrder distinct value' value
  | trans {value value' value'' : JsValue F} : FieldOrder distinct value value' →
      FieldOrder distinct value' value'' → FieldOrder distinct value value''
  | fields {fields fields' : List (String × JsValue F)}
      (keys : distinct → (fields.map Prod.fst).Nodup) (perm : fields.Perm fields') :
      FieldOrder distinct (.obj fields) (.obj fields')
  | item (before after : List (JsValue F)) {value value' : JsValue F} :
      FieldOrder distinct value value' →
      FieldOrder distinct (.arr (before ++ value :: after))
        (.arr (before ++ value' :: after))
  | field (before after : List (String × JsValue F)) (key : String)
      {value value' : JsValue F} : FieldOrder distinct value value' →
      FieldOrder distinct (.obj (before ++ (key, value) :: after))
        (.obj (before ++ (key, value') :: after))
  | mapKey (before after : List (JsValue F × JsValue F)) (entry : JsValue F)
      {key key' : JsValue F} : FieldOrder distinct key key' →
      FieldOrder distinct (.map (before ++ (key, entry) :: after))
        (.map (before ++ (key', entry) :: after))
  | mapValue (before after : List (JsValue F × JsValue F)) (key : JsValue F)
      {value value' : JsValue F} : FieldOrder distinct value value' →
      FieldOrder distinct (.map (before ++ (key, value) :: after))
        (.map (before ++ (key, value') :: after))

/-! ## §5  The order of fields does not matter -/

theorem canonicalItems_eq_mapM (rules : EncoderRules) (items : List (JsValue F)) :
    canonicalItems rules items = items.mapM (canonicalJson rules) := by
  induction items with
  | nil => rfl
  | cons item items ih =>
      rw [canonicalItems, ih, List.mapM_cons]
      rfl

theorem canonicalFields_eq_mapM (rules : EncoderRules)
    (fields : List (String × JsValue F)) :
    canonicalFields rules fields =
      fields.mapM fun field => (canonicalJson rules field.2).map (field.1, ·) := by
  induction fields with
  | nil => rfl
  | cons field fields ih =>
      rw [canonicalFields, ih, List.mapM_cons]
      cases canonicalJson rules field.2 <;> rfl

theorem canonicalEntries_eq_mapM (rules : EncoderRules)
    (entries : List (JsValue F × JsValue F)) :
    canonicalEntries rules entries = entries.mapM fun entry =>
      (canonicalJson rules entry.1).bind fun encodedKey =>
        (canonicalJson rules entry.2).map fun encodedValue =>
          (jsToString entry.1, encodedKey, encodedValue) := by
  induction entries with
  | nil => rfl
  | cons entry entries ih =>
      rw [canonicalEntries, ih, List.mapM_cons]
      cases canonicalJson rules entry.1 with
      | none => rfl
      | some encodedKey => cases canonicalJson rules entry.2 <;> rfl

/-- Over a permuted list a partial map fails on both, or gives permuted results. -/
theorem mapM_perm {α β : Type} {f : α → Option β} {l l' : List α} (h : l.Perm l') :
    (l.mapM f = none ∧ l'.mapM f = none) ∨
      ∃ m m', l.mapM f = some m ∧ l'.mapM f = some m' ∧ m.Perm m' := by
  induction h with
  | nil => exact .inr ⟨[], [], rfl, rfl, .nil⟩
  | cons a _ ih =>
      rw [List.mapM_cons, List.mapM_cons]
      cases f a with
      | none => exact .inl ⟨rfl, rfl⟩
      | some b =>
          rcases ih with ⟨h, h'⟩ | ⟨m, m', h, h', hperm⟩
          · exact .inl ⟨by rw [h]; rfl, by rw [h']; rfl⟩
          · exact .inr ⟨b :: m, b :: m', by rw [h]; rfl, by rw [h']; rfl, hperm.cons b⟩
  | swap a b l =>
      simp only [List.mapM_cons]
      cases f a with
      | none => cases f b <;> exact .inl ⟨rfl, rfl⟩
      | some a' =>
          cases f b with
          | none => exact .inl ⟨rfl, rfl⟩
          | some b' =>
              cases l.mapM f with
              | none => exact .inl ⟨rfl, rfl⟩
              | some m => exact .inr ⟨b' :: a' :: m, a' :: b' :: m, rfl, rfl, .swap a' b' m⟩
  | trans _ _ ih ih' =>
      rcases ih with ⟨h, h'⟩ | ⟨m, m', h, h', hperm⟩
      · rcases ih' with ⟨_, h''⟩ | ⟨_, _, h'', _⟩
        · exact .inl ⟨h, h''⟩
        · rw [h'] at h''
          cases h''
      · rcases ih' with ⟨h'', _⟩ | ⟨n, n', h'', hlast, hperm'⟩
        · rw [h'] at h''
          cases h''
        · rw [h'] at h''
          cases h''
          exact .inr ⟨m, n', h, hlast, hperm.trans hperm'⟩

theorem keys_canonicalFields {rules : EncoderRules} {fields : List (String × JsValue F)} :
    ∀ {encoded : List (String × Option String)},
      canonicalFields rules fields = some encoded →
        encoded.map Prod.fst = fields.map Prod.fst := by
  induction fields with
  | nil =>
      intro encoded h
      cases h
      rfl
  | cons field fields ih =>
      intro encoded h
      obtain ⟨key, value⟩ := field
      rw [canonicalFields] at h
      cases hvalue : canonicalJson rules value with
      | none => simp [hvalue] at h
      | some text =>
          cases hfields : canonicalFields rules fields with
          | none => simp [hvalue, hfields] at h
          | some rest =>
              simp only [hvalue, hfields, Option.bind_eq_bind, Option.bind_some,
                Option.some.injEq] at h
              rw [← h, List.map_cons, List.map_cons, ih hfields]

/-- Fields with distinct keys have one sorted order. -/
theorem sortFields_perm (rules : EncoderRules) {fields fields' : List (String × Option String)}
    (hperm : fields.Perm fields') (hkeys : (fields.map Prod.fst).Nodup) :
    sortFields rules fields = sortFields rules fields' := by
  have hfiltered := hperm.filterMap fun field => field.2.map (field.1, ·)
  have hsublist : ((fields.filterMap fun field => field.2.map (field.1, ·)).map
      Prod.fst).Sublist (fields.map Prod.fst) := by
    clear hperm hkeys hfiltered
    induction fields with
    | nil => exact List.Sublist.refl _
    | cons field fields ih =>
        obtain ⟨key, text⟩ := field
        cases text with
        | none => exact ih.trans (List.sublist_cons_self _ _)
        | some text => exact ih.cons_cons key
  have hnodup := hkeys.sublist hsublist
  unfold sortFields
  refine List.Perm.eq_of_pairwise ?_ (List.pairwise_mergeSort ?_ ?_ _)
    (List.pairwise_mergeSort ?_ ?_ _)
    ((List.mergeSort_perm _ _).trans (hfiltered.trans (List.mergeSort_perm _ _).symm))
  · intro first second hfirst hsecond hle hle'
    have hfirst' := (List.mergeSort_perm _ _).mem_iff.1 hfirst
    have hsecond' := hfiltered.mem_iff.2 ((List.mergeSort_perm _ _).mem_iff.1 hsecond)
    exact List.inj_on_of_nodup_map hnodup hfirst' hsecond'
      (rules.keyOrder.antisymm _ _ hle hle')
  · exact fun _ _ _ => rules.keyOrder.trans _ _ _
  · exact fun _ _ => rules.keyOrder.total _ _
  · exact fun _ _ _ => rules.keyOrder.trans _ _ _
  · exact fun _ _ => rules.keyOrder.total _ _

/-- `String(value)` does not look into objects. -/
theorem FieldOrder.jsToString_eq {distinct : Prop} {value value' : JsValue F}
    (h : FieldOrder distinct value value') :
    jsToString value = jsToString value' ∧
      ∀ items : List (JsValue F),
        jsToStringItems (value :: items) = jsToStringItems (value' :: items) := by
  induction h with
  | refl value => exact ⟨rfl, fun _ => rfl⟩
  | symm _ ih => exact ⟨ih.1.symm, fun items => (ih.2 items).symm⟩
  | trans _ _ ih ih' => exact ⟨ih.1.trans ih'.1, fun items => (ih.2 items).trans (ih'.2 items)⟩
  | fields _ _ => exact ⟨by simp [jsToString], fun _ => by simp [jsToStringItems, jsToString]⟩
  | field _ _ _ _ _ =>
      exact ⟨by simp [jsToString], fun _ => by simp [jsToStringItems, jsToString]⟩
  | mapKey _ _ _ _ _ =>
      exact ⟨by simp [jsToString], fun _ => by simp [jsToStringItems, jsToString]⟩
  | mapValue _ _ _ _ _ =>
      exact ⟨by simp [jsToString], fun _ => by simp [jsToStringItems, jsToString]⟩
  | @item before after value value' _ ih =>
      have hitems : jsToStringItems (before ++ value :: after) =
          jsToStringItems (before ++ value' :: after) := by
        induction before with
        | nil => exact ih.2 after
        | cons first before ih' =>
            rw [List.cons_append, List.cons_append]
            cases first <;> simp [jsToStringItems, ih']
      exact ⟨by simp [jsToString, hitems],
        fun _ => by simp [jsToStringItems, jsToString, hitems]⟩

/-- Every encoder gives the same result on trees that differ in the order of fields of
objects with distinct keys. -/
theorem FieldOrder.canonicalJson_eq (rules : EncoderRules) {value value' : JsValue F}
    (h : FieldOrder True value value') :
    canonicalJson rules value = canonicalJson rules value' := by
  induction h with
  | refl value => rfl
  | symm _ ih => exact ih.symm
  | trans _ _ ih ih' => exact ih.trans ih'
  | @fields fields fields' keys perm =>
      rw [canonicalJson, canonicalJson]
      have hmapM := mapM_perm perm
        (f := fun field => (canonicalJson rules field.2).map (field.1, ·))
      rw [← canonicalFields_eq_mapM, ← canonicalFields_eq_mapM] at hmapM
      rcases hmapM with ⟨h, h'⟩ | ⟨encoded, encoded', h, h', hperm⟩
      · rw [h, h']
      · have hkeys : (encoded.map Prod.fst).Nodup := by
          rw [keys_canonicalFields h]
          exact keys trivial
        rw [h, h', Option.map_some, Option.map_some, encodeObject, encodeObject,
          sortFields_perm rules hperm hkeys]
  | item before after _ ih =>
      rw [canonicalJson, canonicalJson, canonicalItems_eq_mapM, canonicalItems_eq_mapM,
        List.mapM_append, List.mapM_append, List.mapM_cons, List.mapM_cons, ih]
  | field before after key _ ih =>
      rw [canonicalJson, canonicalJson, canonicalFields_eq_mapM, canonicalFields_eq_mapM,
        List.mapM_append, List.mapM_append, List.mapM_cons, List.mapM_cons, ih]
  | mapKey before after entry h ih =>
      rw [canonicalJson, canonicalJson, canonicalEntries_eq_mapM, canonicalEntries_eq_mapM,
        List.mapM_append, List.mapM_append, List.mapM_cons, List.mapM_cons, ih,
        h.jsToString_eq.1]
  | mapValue before after key h ih =>
      rw [canonicalJson, canonicalJson, canonicalEntries_eq_mapM, canonicalEntries_eq_mapM,
        List.mapM_append, List.mapM_append, List.mapM_cons, List.mapM_cons, ih]

/-! ## §6  Equal texts are equal trees -/

/-- No `undefined`, number that is not finite, or `BigInt` in the tree; a `Map` only
if `maps` holds. -/
inductive Plain (maps : Prop) : JsValue F → Prop where
  | null : Plain maps .null
  | bool (value : Bool) : Plain maps (.bool value)
  | num {value : F} (finite : JsNumber.isFinite value = true) : Plain maps (.num value)
  | str (value : String) : Plain maps (.str value)
  | arr {items : List (JsValue F)} (plain : ∀ item ∈ items, Plain maps item) :
      Plain maps (.arr items)
  | obj {fields : List (String × JsValue F)} (plain : ∀ field ∈ fields, Plain maps field.2) :
      Plain maps (.obj fields)
  | map {entries : List (JsValue F × JsValue F)} (allowed : maps)
      (keys : ∀ entry ∈ entries, Plain maps entry.1)
      (values : ∀ entry ∈ entries, Plain maps entry.2) : Plain maps (.map entries)

/-- The text of a value that has one. -/
def plainText (rules : EncoderRules) (value : JsValue F) : String :=
  ((canonicalJson rules value).getD none).getD ""

omit [JsMath F] in
theorem ne_none_of_mapM {α β : Type} {f : α → Option β} {l : List α} {m : List β}
    (h : l.mapM f = some m) : ∀ a ∈ l, f a ≠ none := by
  induction l generalizing m with
  | nil => simp
  | cons a l ih =>
      rw [List.mapM_cons] at h
      cases hfirst : f a with
      | none =>
          rw [hfirst] at h
          cases h
      | some b =>
          cases hrest : l.mapM f with
          | none =>
              rw [hfirst, hrest] at h
              cases h
          | some n => exact List.forall_mem_cons.2 ⟨by simp [hfirst], ih hrest⟩

/-- An encoder without an encoding for `Map` has met none where it gave a text. -/
theorem Plain.of_encoded (rules : EncoderRules) {value : JsValue F}
    (plain : Plain (rules.encodesMap = false) value) :
    canonicalJson rules value ≠ none → Plain False value := by
  induction plain with
  | null => exact fun _ => .null
  | bool value => exact fun _ => .bool value
  | num finite => exact fun _ => .num finite
  | str value => exact fun _ => .str value
  | @arr items _ ih =>
      intro h
      refine .arr fun item hitem => ih item hitem ?_
      rw [canonicalJson, canonicalItems_eq_mapM, Ne, Option.map_eq_none_iff] at h
      obtain ⟨elements, helements⟩ := Option.ne_none_iff_exists'.1 h
      exact ne_none_of_mapM helements item hitem
  | @obj fields _ ih =>
      intro h
      refine .obj fun field hfield => ih field hfield ?_
      rw [canonicalJson, canonicalFields_eq_mapM, Ne, Option.map_eq_none_iff] at h
      obtain ⟨encoded, hencoded⟩ := Option.ne_none_iff_exists'.1 h
      have hfirst := ne_none_of_mapM hencoded field hfield
      rwa [Ne, Option.map_eq_none_iff] at hfirst
  | map allowed _ _ _ _ =>
      intro h
      rw [canonicalJson, allowed] at h
      exact absurd rfl h

theorem canonicalJson_plain (rules : EncoderRules) {value : JsValue F}
    (plain : Plain False value) :
    canonicalJson rules value = some (some (plainText rules value)) := by
  suffices h : ∃ text, canonicalJson rules value = some (some text) by
    obtain ⟨text, htext⟩ := h
    rw [plainText, htext]
    rfl
  induction plain with
  | null => exact ⟨_, by rw [canonicalJson]⟩
  | bool value => cases value <;> exact ⟨_, by rw [canonicalJson]⟩
  | num _ => exact ⟨_, by rw [canonicalJson]⟩
  | str value => exact ⟨_, by rw [canonicalJson]⟩
  | @arr items _ ih =>
      choose! text htext using ih
      rw [canonicalJson, canonicalItems_eq_mapM, option_mapM_some htext]
      exact ⟨_, rfl⟩
  | @obj fields _ ih =>
      choose! text htext using ih
      have hfields : ∀ field ∈ fields, (canonicalJson rules field.2).map (field.1, ·) =
          some (field.1, some (text field)) := by
        intro field hfield
        rw [htext field hfield]
        rfl
      rw [canonicalJson, canonicalFields_eq_mapM, option_mapM_some hfields]
      exact ⟨_, rfl⟩
  | map allowed => exact allowed.elim

/-- The fields of an object by key. -/
def fieldsByKey (rules : EncoderRules) (fields : List (String × JsValue F)) :
    List (String × JsValue F) :=
  fields.mergeSort fun first second => (rules.compareKeys first.1 second.1).isLE

def fieldText (rules : EncoderRules) (field : String × JsValue F) : List Char :=
  Caches.jsonString field.1 ++ ':' :: (plainText rules field.2).toList

theorem plainText_null (rules : EncoderRules) :
    (plainText rules (.null : JsValue F)).toList = ['n', 'u', 'l', 'l'] := by
  rw [plainText, canonicalJson]
  rfl

theorem plainText_bool (rules : EncoderRules) (value : Bool) :
    (plainText rules (.bool value : JsValue F)).toList =
      if value then ['t', 'r', 'u', 'e'] else ['f', 'a', 'l', 's', 'e'] := by
  cases value <;> rw [plainText, canonicalJson] <;> rfl

theorem plainText_num (rules : EncoderRules) {value : F}
    (finite : JsNumber.isFinite value = true) :
    plainText rules (.num value) = JsMath.numberToJsString value := by
  rw [plainText, canonicalJson, jsonNumberToken, if_pos finite]
  rfl

theorem plainText_str (rules : EncoderRules) (value : String) :
    (plainText rules (.str value : JsValue F)).toList = Caches.jsonString value := by
  rw [plainText, canonicalJson]
  exact String.toList_ofList

theorem plainText_arr (rules : EncoderRules) {items : List (JsValue F)}
    (plain : ∀ item ∈ items, Plain False item) :
    (plainText rules (.arr items)).toList =
      '[' :: (List.intercalate [','] (items.map fun item =>
        (plainText rules item).toList) ++ [']']) := by
  have hitems := option_mapM_some fun item hitem => canonicalJson_plain rules (plain item hitem)
  conv_lhs => rw [plainText, canonicalJson, canonicalItems_eq_mapM, hitems]
  simp [encodeArray, joinArrayElements, Function.comp_def]

theorem plainText_obj (rules : EncoderRules) {fields : List (String × JsValue F)}
    (plain : ∀ field ∈ fields, Plain False field.2) :
    (plainText rules (.obj fields)).toList =
      '{' :: (List.intercalate [','] ((fieldsByKey rules fields).map (fieldText rules)) ++
        ['}']) := by
  have hfields : ∀ field ∈ fields, (canonicalJson rules field.2).map (field.1, ·) =
      some (field.1, some (plainText rules field.2)) := by
    intro field hfield
    rw [canonicalJson_plain rules (plain field hfield)]
    rfl
  have hsorted : sortFields rules (fields.map fun field =>
      (field.1, some (plainText rules field.2))) =
        (fieldsByKey rules fields).map fun field => (field.1, plainText rules field.2) := by
    have hmap : (fieldsByKey rules fields).map
        (fun field => (field.1, plainText rules field.2)) =
          (fields.map fun field => (field.1, plainText rules field.2)).mergeSort
            fun first second => (rules.compareKeys first.1 second.1).isLE :=
      List.map_mergeSort fun _ _ _ _ => rfl
    rw [hmap]
    unfold sortFields
    rw [List.filterMap_map]
    congr 1
    exact congrFun List.filterMap_eq_map fields
  conv_lhs => rw [plainText, canonicalJson, canonicalFields_eq_mapM,
    option_mapM_some hfields, Option.map_some, Option.getD_some, Option.getD_some,
    encodeObject, hsorted]
  simp [jsonStringLiteral, Function.comp_def]
  rfl

/-- What the first symbol of a text says about the value. -/
inductive TextKind where
  | null | bool | num | str | arr | obj | other
  deriving DecidableEq

def symbolKind (ch : Char) : TextKind :=
  if ch = 'n' then .null
  else if ch = 't' ∨ ch = 'f' then .bool
  else if ch = '"' then .str
  else if ch = '[' then .arr
  else if ch = '\x7b' then .obj
  else .num

def isNumberSymbol (ch : Char) : Prop := ch.isDigit = true ∨ ch ∈ ['.', '-', '+', 'e']

/-- The symbols behind a value inside a container. -/
def isStopSymbol (ch : Char) : Prop := ch = ',' ∨ ch = ']' ∨ ch = '\x7d'

omit [JsMath F] in
theorem isNumberSymbol.ne {ch other : Char} (h : isNumberSymbol ch)
    (hother : ¬ isNumberSymbol other) : ch ≠ other := by
  rintro rfl
  exact hother h

omit [JsMath F] in
theorem isNumberSymbol.not_stop {ch : Char} (h : isNumberSymbol ch) : ¬ isStopSymbol ch := by
  rintro (rfl | rfl | rfl) <;> revert h <;> unfold isNumberSymbol <;> decide

omit [JsMath F] in
theorem isNumberSymbol.kind {ch : Char} (h : isNumberSymbol ch) : symbolKind ch = .num := by
  unfold symbolKind
  rw [if_neg (h.ne (by unfold isNumberSymbol; decide)), if_neg, if_neg (h.ne (by
    unfold isNumberSymbol; decide)), if_neg (h.ne (by unfold isNumberSymbol; decide)),
    if_neg (h.ne (by unfold isNumberSymbol; decide))]
  rintro (rfl | rfl) <;> revert h <;> unfold isNumberSymbol <;> decide

/-- The kind of a value with a text. -/
def JsValue.kind : JsValue F → TextKind
  | .null => .null
  | .bool _ => .bool
  | .num _ => .num
  | .str _ => .str
  | .arr _ => .arr
  | .obj _ => .obj
  | _ => .other

/-- A text starts with a symbol of its kind, which closes nothing. -/
theorem plainText_first (numbers : NumberText F) (rules : EncoderRules) {value : JsValue F}
    (plain : Plain False value) :
    ∃ ch rest, (plainText rules value).toList = ch :: rest ∧
      symbolKind ch = value.kind ∧ ¬ isStopSymbol ch := by
  have hstop : ∀ ch, ¬ (ch = ',' ∨ ch = ']' ∨ ch = '\x7d') → ¬ isStopSymbol ch :=
    fun _ h => h
  cases plain with
  | null => exact ⟨'n', _, plainText_null rules, rfl, hstop _ (by decide)⟩
  | bool value =>
      cases value with
      | true => exact ⟨'t', _, plainText_bool rules true, rfl, hstop _ (by decide)⟩
      | false => exact ⟨'f', _, plainText_bool rules false, rfl, hstop _ (by decide)⟩
  | @num value finite =>
      obtain ⟨ch, rest, htext⟩ := List.exists_cons_of_ne_nil (numbers.nonempty value finite)
      have hsymbol : isNumberSymbol ch :=
        numbers.symbols value finite ch (by rw [htext]; exact List.mem_cons_self)
      exact ⟨ch, rest, by rw [plainText_num rules finite, htext], hsymbol.kind,
        hsymbol.not_stop⟩
  | str value => exact ⟨'"', _, plainText_str rules value, rfl, hstop _ (by decide)⟩
  | arr plain => exact ⟨'[', _, plainText_arr rules plain, rfl, hstop _ (by decide)⟩
  | obj plain => exact ⟨'\x7b', _, plainText_obj rules plain, rfl, hstop _ (by decide)⟩
  | map allowed => exact allowed.elim

theorem plainText_ne_stop (numbers : NumberText F) (rules : EncoderRules)
    {value : JsValue F} (plain : Plain False value) {ch : Char} (hch : isStopSymbol ch)
    (r r' : List Char) : (plainText rules value).toList ++ r ≠ ch :: r' := by
  obtain ⟨first, rest, htext, _, hstop⟩ := plainText_first numbers rules plain
  intro h
  rw [htext, List.cons_append, List.cons.injEq] at h
  exact hstop (h.1 ▸ hch)

omit [JsMath F] in
theorem FieldOrder.arr_of_forall₂ {distinct : Prop} {items items' : List (JsValue F)}
    (h : List.Forall₂ (FieldOrder distinct) items items') :
    ∀ before : List (JsValue F),
      FieldOrder distinct (.arr (before ++ items)) (.arr (before ++ items')) := by
  induction h with
  | nil => exact fun _ => .refl _
  | @cons item item' items items' hitem _ ih =>
      intro before
      have hrest := ih (before ++ [item'])
      rw [List.append_assoc, List.append_assoc] at hrest
      exact (FieldOrder.item before items hitem).trans hrest

omit [JsMath F] in
theorem FieldOrder.obj_of_forall₂ {distinct : Prop}
    {fields fields' : List (String × JsValue F)}
    (h : List.Forall₂ (fun field field' =>
      field.1 = field'.1 ∧ FieldOrder distinct field.2 field'.2) fields fields') :
    ∀ before : List (String × JsValue F),
      FieldOrder distinct (.obj (before ++ fields)) (.obj (before ++ fields')) := by
  induction h with
  | nil => exact fun _ => .refl _
  | @cons field field' fields fields' hfield _ ih =>
      intro before
      obtain ⟨key, value⟩ := field
      obtain ⟨key', value'⟩ := field'
      obtain ⟨rfl, hvalue⟩ := hfield
      have hrest := ih (before ++ [(key, value')])
      rw [List.append_assoc, List.append_assoc] at hrest
      exact (FieldOrder.field before fields key hvalue).trans hrest

/-- Every object of the tree has distinct keys. -/
inductive DistinctKeys : JsValue F → Prop where
  | undefined : DistinctKeys .undefined
  | null : DistinctKeys .null
  | bool (value : Bool) : DistinctKeys (.bool value)
  | num (value : F) : DistinctKeys (.num value)
  | bigInt (value : ℤ) : DistinctKeys (.bigInt value)
  | str (value : String) : DistinctKeys (.str value)
  | arr {items : List (JsValue F)} (all : ∀ item ∈ items, DistinctKeys item) :
      DistinctKeys (.arr items)
  | obj {fields : List (String × JsValue F)} (keys : (fields.map Prod.fst).Nodup)
      (all : ∀ field ∈ fields, DistinctKeys field.2) : DistinctKeys (.obj fields)
  | map {entries : List (JsValue F × JsValue F)}
      (keys : ∀ entry ∈ entries, DistinctKeys entry.1)
      (values : ∀ entry ∈ entries, DistinctKeys entry.2) : DistinctKeys (.map entries)

/-- Equal beginnings are of one kind. -/
theorem kind_eq_of_text (numbers : NumberText F) (rules : EncoderRules)
    {value value' : JsValue F} (plain : Plain False value) (plain' : Plain False value')
    {r r' : List Char}
    (h : (plainText rules value).toList ++ r = (plainText rules value').toList ++ r') :
    value.kind = value'.kind := by
  obtain ⟨ch, rest, htext, hkind, _⟩ := plainText_first numbers rules plain
  obtain ⟨ch', rest', htext', hkind', _⟩ := plainText_first numbers rules plain'
  rw [htext, htext', List.cons_append, List.cons_append, List.cons.injEq] at h
  rw [← hkind, ← hkind', h.1]

omit [JsMath F] in
theorem mem_fieldsByKey {rules : EncoderRules} {fields : List (String × JsValue F)}
    {field : String × JsValue F} :
    field ∈ fieldsByKey rules fields ↔ field ∈ fields :=
  (List.mergeSort_perm _ _).mem_iff

omit [JsMath F] in
/-- A tree is the same up to field order as with sorted fields. -/
theorem fieldOrder_fieldsByKey (rules : EncoderRules) {distinct : Prop}
    {fields : List (String × JsValue F)}
    (hdistinct : distinct → DistinctKeys (.obj fields)) :
    FieldOrder distinct (.obj fields) (.obj (fieldsByKey rules fields)) := by
  refine .fields (fun h => ?_) (List.mergeSort_perm _ _).symm
  cases hdistinct h with
  | obj keys _ => exact keys

/-- Texts with the same beginning up to a stop are texts of the same tree up to field
order. -/
theorem fieldOrder_of_text (numbers : NumberText F) (rules : EncoderRules)
    {distinct : Prop} {value : JsValue F} (plain : Plain False value) :
    ∀ {value' : JsValue F}, Plain False value' →
      (distinct → DistinctKeys value) → (distinct → DistinctKeys value') →
      ∀ r r' : List Char, PrefixFree.AtStop isStopSymbol r →
        PrefixFree.AtStop isStopSymbol r' →
        (plainText rules value).toList ++ r = (plainText rules value').toList ++ r' →
        FieldOrder distinct value value' ∧ r = r' := by
  induction plain with
  | null =>
      intro value' plain' _ _ r r' _ _ h
      have hkind := kind_eq_of_text numbers rules .null plain' h
      cases plain' with
      | null => exact ⟨.refl _, List.append_cancel_left h⟩
      | _ => cases hkind
  | bool value =>
      intro value' plain' _ _ r r' _ _ h
      have hkind := kind_eq_of_text numbers rules (.bool value) plain' h
      cases plain' with
      | bool value' =>
          rw [plainText_bool, plainText_bool] at h
          cases value <;> cases value'
          · exact ⟨.refl _, List.append_cancel_left h⟩
          · cases h
          · cases h
          · exact ⟨.refl _, List.append_cancel_left h⟩
      | _ => cases hkind
  | @num value finite =>
      intro value' plain' _ _ r r' hr hr' h
      have hkind := kind_eq_of_text numbers rules (.num finite) plain' h
      cases plain' with
      | @num value' finite' =>
          rw [plainText_num rules finite, plainText_num rules finite'] at h
          obtain ⟨htext, hrest⟩ := PrefixFree.eq_of_atStop
            (fun ch hch => isNumberSymbol.not_stop (numbers.symbols value finite ch hch))
            (fun ch hch => isNumberSymbol.not_stop (numbers.symbols value' finite' ch hch))
            hr hr' h
          rw [numbers.injective value value' finite finite' (String.toList_injective htext)]
          exact ⟨.refl _, hrest⟩
      | _ => cases hkind
  | str value =>
      intro value' plain' _ _ r r' _ _ h
      have hkind := kind_eq_of_text numbers rules (.str value) plain' h
      cases plain' with
      | str value' =>
          rw [plainText_str, plainText_str] at h
          obtain ⟨rfl, hrest⟩ := Caches.jsonString_splits _ _ _ _ h
          exact ⟨.refl _, hrest⟩
      | _ => cases hkind
  | @arr items plain ih =>
      intro value' plain' hdistinct hdistinct' r r' _ _ h
      have hkind := kind_eq_of_text numbers rules (.arr plain) plain' h
      cases plain' with
      | @arr items' plain' =>
          rw [plainText_arr rules plain, plainText_arr rules plain', List.cons_append,
            List.cons_append, List.append_assoc, List.append_assoc] at h
          have hall : ∀ {items : List (JsValue F)}, (distinct → DistinctKeys (.arr items)) →
              ∀ item ∈ items, distinct → DistinctKeys item := by
            intro items hitems item hitem hd
            cases hitems hd with
            | arr all => exact all item hitem
          obtain ⟨hitems, hrest⟩ := PrefixFree.forall₂_of_intercalate isStopSymbol
            (FieldOrder distinct) (.inl rfl) (.inr (.inl rfl)) (by decide)
            (fun item hitem item' hitem' r r' hr hr' htext =>
              ih item hitem (plain' item' hitem') (hall hdistinct item hitem)
                (hall hdistinct' item' hitem') r r' hr hr' htext)
            (fun item hitem => plainText_ne_stop numbers rules (plain item hitem) (.inr (.inl rfl)))
            (fun item hitem => plainText_ne_stop numbers rules (plain' item hitem)
              (.inr (.inl rfl)))
            (List.cons.inj h).2
          exact ⟨FieldOrder.arr_of_forall₂ hitems [], hrest⟩
      | _ => cases hkind
  | @obj fields plain ih =>
      intro value' plain' hdistinct hdistinct' r r' _ _ h
      have hkind := kind_eq_of_text numbers rules (.obj plain) plain' h
      cases plain' with
      | @obj fields' plain' =>
          rw [plainText_obj rules plain, plainText_obj rules plain', List.cons_append,
            List.cons_append, List.append_assoc, List.append_assoc] at h
          have hall : ∀ {fields : List (String × JsValue F)},
              (distinct → DistinctKeys (.obj fields)) →
                ∀ field ∈ fieldsByKey rules fields, distinct → DistinctKeys field.2 := by
            intro fields hfields field hfield hd
            cases hfields hd with
            | obj _ all => exact all field (mem_fieldsByKey.1 hfield)
          have hne : ∀ (field : String × JsValue F) (r r' : List Char),
              fieldText rules field ++ r ≠ '\x7d' :: r' := by
            intro field r r' h
            rw [fieldText, List.append_assoc] at h
            exact Caches.jsonString_append_ne (by decide) _ _ h
          obtain ⟨hfields, hrest⟩ := PrefixFree.forall₂_of_intercalate isStopSymbol
            (fun field field' : String × JsValue F =>
              field.1 = field'.1 ∧ FieldOrder distinct field.2 field'.2)
            (.inl rfl) (.inr (.inr rfl)) (by decide)
            (fun field hfield field' hfield' r r' hr hr' htext => by
              rw [fieldText, fieldText, List.append_assoc, List.append_assoc] at htext
              obtain ⟨hkey, hvalue⟩ := Caches.jsonString_splits _ _ _ _ htext
              obtain ⟨horder, hrest⟩ := ih field (mem_fieldsByKey.1 hfield)
                (plain' field' (mem_fieldsByKey.1 hfield')) (hall hdistinct field hfield)
                (hall hdistinct' field' hfield') r r' hr hr' (List.cons.inj hvalue).2
              exact ⟨⟨hkey, horder⟩, hrest⟩)
            (fun field _ => hne field) (fun field _ => hne field) (List.cons.inj h).2
          exact ⟨(fieldOrder_fieldsByKey rules hdistinct).trans
            ((FieldOrder.obj_of_forall₂ hfields []).trans
              (fieldOrder_fieldsByKey rules hdistinct').symm), hrest⟩
      | _ => cases hkind
  | map allowed => exact allowed.elim

/-! ## §7  The canonical form -/

/-- The encoding does not depend on the order of fields with distinct keys. -/
def OrderFree (encode : JsValue F → Option (Option String)) : Prop :=
  ∀ value value' : JsValue F, FieldOrder True value value' → encode value = encode value'

/-- A text has one tree up to field order, and up to moving the fields of objects with
distinct keys only, if all objects have distinct keys. -/
def TextDetermines (encode : JsValue F → Option (Option String)) (maps : Prop) : Prop :=
  ∀ (value value' : JsValue F) (text : String), Plain maps value → Plain maps value' →
    encode value = some (some text) → encode value' = some (some text) →
      FieldOrder False value value' ∧
        (DistinctKeys value → DistinctKeys value' → FieldOrder True value value')

theorem textDetermines_canonicalJson (numbers : NumberText F) (rules : EncoderRules) :
    TextDetermines (F := F) (canonicalJson rules) (rules.encodesMap = false) := by
  intro value value' text plain plain' hvalue hvalue'
  have plain := plain.of_encoded rules (by rw [hvalue]; simp)
  have plain' := plain'.of_encoded rules (by rw [hvalue']; simp)
  have htext : plainText rules value = plainText rules value' := by
    rw [plainText, plainText, hvalue, hvalue']
  have horder : ∀ {distinct : Prop}, (distinct → DistinctKeys value) →
      (distinct → DistinctKeys value') → FieldOrder distinct value value' :=
    fun hdistinct hdistinct' => (fieldOrder_of_text numbers rules plain plain' hdistinct
      hdistinct' [] [] PrefixFree.atStop_nil PrefixFree.atStop_nil (by rw [htext])).1
  exact ⟨horder False.elim False.elim, fun keys keys' => horder (fun _ => keys) fun _ => keys'⟩

/-- Every encoder gives a canonical form up to the order of fields; where a `Map` has an
encoding, for trees without one. -/
theorem canonicalJson_canonicalForm (numbers : NumberText F) :
    (OrderFree (F := F) intrinsicCapacityCanonicalJson ∧
        TextDetermines (F := F) intrinsicCapacityCanonicalJson True) ∧
      (OrderFree (F := F) intrinsicStrictCanonicalJson ∧
        TextDetermines (F := F) intrinsicStrictCanonicalJson False) ∧
      (OrderFree (F := F) intrinsicPeriodicCanonicalJson ∧
        TextDetermines (F := F) intrinsicPeriodicCanonicalJson True) := by
  have horder : ∀ rules : EncoderRules, OrderFree (F := F) (canonicalJson rules) :=
    fun rules _ _ h => h.canonicalJson_eq rules
  have htext := textDetermines_canonicalJson numbers
  refine ⟨⟨horder _, ?_⟩, ⟨horder _, ?_⟩, horder _, ?_⟩
  · exact (eq_true (rfl : intrinsicCapacityRules.encodesMap = false)) ▸
      htext intrinsicCapacityRules
  · exact (eq_false (by decide : ¬ intrinsicStrictRules.encodesMap = false)) ▸
      htext intrinsicStrictRules
  · exact (eq_true (rfl : intrinsicPeriodicRules.encodesMap = false)) ▸
      htext intrinsicPeriodicRules

end Encoders

theorem canonicalJson_canonicalForm_digits :
    NumberText (Fin 10) ∧
      (OrderFree (F := Fin 10) intrinsicCapacityCanonicalJson ∧
        TextDetermines (F := Fin 10) intrinsicCapacityCanonicalJson True) ∧
      (OrderFree (F := Fin 10) intrinsicStrictCanonicalJson ∧
        TextDetermines (F := Fin 10) intrinsicStrictCanonicalJson False) ∧
      (OrderFree (F := Fin 10) intrinsicPeriodicCanonicalJson ∧
        TextDetermines (F := Fin 10) intrinsicPeriodicCanonicalJson True) := by
  have numbers : NumberText (Fin 10) :=
    ⟨fun value _ => (digitText value).1, fun value _ ch hch => .inl ((digitText value).2 ch hch),
      fun _ _ _ _ h => digitText_injective h⟩
  exact ⟨numbers, canonicalJson_canonicalForm numbers⟩

/-- A `Map` has the text of the array of its pairs. -/
theorem intrinsicStrictCanonicalJson_map_collides :
    ¬ TextDetermines (F := Fin 10) intrinsicStrictCanonicalJson True := by
  intro h
  have horder := (h (.map [(.str "a", .null)]) (.arr [.arr [.str "a", .null]])
    "[[\"a\",null]]" (.map trivial (by simp [Plain.str]) (by simp [Plain.null]))
    (.arr (by simp [Plain.arr, Plain.str, Plain.null])) (by decide +kernel)
    (by decide +kernel)).1
  have hkind : ∀ value value' : JsValue (Fin 10), FieldOrder False value value' →
      value.kind = value'.kind := by
    intro value value' horder
    induction horder with
    | symm _ ih => exact ih.symm
    | trans _ _ ih ih' => exact ih.trans ih'
    | _ => rfl
  cases hkind _ _ horder

end PolygonNesting
