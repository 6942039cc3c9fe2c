import Mathlib.Tactic.IntervalCases
import Mathlib.Tactic.SplitIfs
import PolygonNesting.Lib.PrefixFree

/-!
# Geometry cache keys

The store addresses its entries by `JSON.stringify([namespace, parts])`,
written by hand.  The text determines the key: every string literal ends at
its closing quote, because quotes and backslashes inside are escaped.
-/

namespace PolygonNesting.Caches

open PrefixFree

structure GeometryCacheKey where
  keyNamespace : String
  parts : List String
  deriving DecidableEq

/-! ## §1  The text of a key -/

def hexDigit (n : ℕ) : Char := Nat.digitChar n

/-- One character of a string literal: short escapes where ECMA-262 has them,
`\\u00xx` in lower case for the other control characters. -/
def escapeChar (ch : Char) : List Char :=
  if ch = '"' then ['\\', '"']
  else if ch = '\\' then ['\\', '\\']
  else if ch = Char.ofNat 8 then ['\\', 'b']
  else if ch = Char.ofNat 12 then ['\\', 'f']
  else if ch = '\n' then ['\\', 'n']
  else if ch = '\r' then ['\\', 'r']
  else if ch = '\t' then ['\\', 't']
  else if ch.toNat < 32 then
    ['\\', 'u', '0', '0', hexDigit (ch.toNat / 16), hexDigit (ch.toNat % 16)]
  else [ch]

/-- What `push_json_string` appends. -/
def jsonString (value : String) : List Char :=
  '"' :: (value.toList.flatMap escapeChar ++ ['"'])

/-- The parts with their separating commas. -/
def jsonParts : List String → List Char
  | [] => []
  | part :: parts =>
      jsonString part ++ parts.flatMap fun p => ',' :: jsonString p

def serializeGeometryCacheKey (key : GeometryCacheKey) : String :=
  String.ofList ('[' :: (jsonString key.keyNamespace ++
    (',' :: '[' :: (jsonParts key.parts ++ [']', ']']))))

/-! ## §2  The text determines the key -/

def hexValue (ch : Char) : ℕ :=
  if ch.toNat < 58 then ch.toNat - 48 else ch.toNat - 87

/-- Reads one escaped character back. -/
def unescapeChar : List Char → Option (Char × List Char)
  | '\\' :: 'u' :: '0' :: '0' :: hi :: lo :: rest =>
      some (Char.ofNat (16 * hexValue hi + hexValue lo), rest)
  | '\\' :: 'b' :: rest => some (Char.ofNat 8, rest)
  | '\\' :: 'f' :: rest => some (Char.ofNat 12, rest)
  | '\\' :: 'n' :: rest => some ('\n', rest)
  | '\\' :: 'r' :: rest => some ('\r', rest)
  | '\\' :: 't' :: rest => some ('\t', rest)
  | '\\' :: ch :: rest => some (ch, rest)
  | ch :: rest => some (ch, rest)
  | [] => none

theorem unescapeChar_control {n : ℕ} (hn : n < 32) (rest : List Char) :
    unescapeChar (escapeChar (Char.ofNat n) ++ rest) =
      some (Char.ofNat n, rest) := by
  interval_cases n <;> rfl

/-- A character that needs no escape is written as itself. -/
theorem escapeChar_of_plain {ch : Char} (hq : ch ≠ '"') (hb : ch ≠ '\\')
    (h : 32 ≤ ch.toNat) : escapeChar ch = [ch] := by
  have hc : ∀ d : Char, d.toNat < 32 → ch ≠ d := by
    rintro d hd rfl
    omega
  unfold escapeChar
  rw [if_neg hq, if_neg hb, if_neg (hc _ (by decide)), if_neg (hc _ (by decide)),
    if_neg (hc _ (by decide)), if_neg (hc _ (by decide)),
    if_neg (hc _ (by decide)), if_neg (by omega)]

theorem unescapeChar_escapeChar (ch : Char) (rest : List Char) :
    unescapeChar (escapeChar ch ++ rest) = some (ch, rest) := by
  by_cases hq : ch = '"'
  · subst hq; rfl
  · by_cases hb : ch = '\\'
    · subst hb; rfl
    · by_cases hc : ch.toNat < 32
      · rw [← Char.ofNat_toNat ch]
        exact unescapeChar_control hc rest
      · rw [escapeChar_of_plain hq hb (by omega), List.singleton_append]
        unfold unescapeChar
        split <;> simp_all

/-- No escaped character begins with a quote. -/
theorem escapeChar_ne_quote (ch : Char) (r r' : List Char) :
    escapeChar ch ++ r ≠ '"' :: r' := by
  unfold escapeChar
  split_ifs <;> simp_all

theorem jsonString_splits : Splits jsonString := by
  have hbody : Splits fun l : List Char => l.flatMap escapeChar ++ ['"'] :=
    (Splits.of_decoder unescapeChar_escapeChar).many escapeChar_ne_quote
  exact (hbody.comp fun _ _ => String.toList_injective).opening ['"']

theorem jsonString_append_ne {value : String} {ch : Char} (h : ch ≠ '"')
    (r r' : List Char) : jsonString value ++ r ≠ ch :: r' := by
  intro heq
  exact h (List.cons.inj heq).1.symm

/-- The parts with their closing bracket. -/
theorem jsonParts_splits : Splits fun parts => jsonParts parts ++ [']'] := by
  have hmore : Splits fun parts : List String =>
      parts.flatMap (fun p => ',' :: jsonString p) ++ [']'] :=
    (jsonString_splits.opening [',']).many fun _ _ _ => by simp
  have hcons : Splits fun p : String × List String =>
      jsonString p.1 ++ (p.2.flatMap (fun q => ',' :: jsonString q) ++ [']']) :=
    jsonString_splits.prod hmore
  have hnil : ∀ (p : String) (ps : List String) (r r' : List Char),
      jsonParts (p :: ps) ++ [']'] ++ r ≠ jsonParts [] ++ [']'] ++ r' := by
    intro p ps r r' h
    simp only [jsonParts, List.append_assoc] at h
    exact jsonString_append_ne (by decide) _ _ h
  intro parts parts' r r' h
  cases parts with
  | nil =>
      cases parts' with
      | nil => exact ⟨rfl, List.append_cancel_left h⟩
      | cons p' ps' => exact absurd h.symm (hnil p' ps' r' r)
  | cons p ps =>
      cases parts' with
      | nil => exact absurd h (hnil p ps r r')
      | cons p' ps' =>
          have h' : (p, ps) = (p', ps') ∧ r = r' :=
            hcons (p, ps) (p', ps') _ _ (by simpa only [jsonParts, List.append_assoc] using h)
          obtain ⟨⟨rfl, rfl⟩, hr⟩ := Prod.mk.injEq .. ▸ h'
          exact ⟨rfl, hr⟩

/-- **The serialized key determines the key.** -/
theorem serializeGeometryCacheKey_injective :
    Function.Injective serializeGeometryCacheKey := by
  have h : Splits fun p : String × List String =>
      ['['] ++ (jsonString p.1 ++ ([',', '['] ++ (jsonParts p.2 ++ [']']))) :=
    (jsonString_splits.prod (jsonParts_splits.opening [',', '['])).opening ['[']
  intro k k' hk
  have htext := String.ofList_injective hk
  have hpair : (k.keyNamespace, k.parts) = (k'.keyNamespace, k'.parts) ∧
      ([']'] : List Char) = [']'] :=
    h _ _ _ _ (by simpa using htext)
  cases k
  cases k'
  simp_all

/-- **Two keys have one text exactly when their namespaces and their parts agree.** -/
theorem serializeGeometryCacheKey_eq_iff (key key' : GeometryCacheKey) :
    serializeGeometryCacheKey key = serializeGeometryCacheKey key' ↔
      key.keyNamespace = key'.keyNamespace ∧ key.parts = key'.parts := by
  rw [serializeGeometryCacheKey_injective.eq_iff]
  cases key
  cases key'
  rw [GeometryCacheKey.mk.injEq]

end PolygonNesting.Caches
