import Mathlib.Algebra.Order.Floor.Ring
import Mathlib.Algebra.Order.Floor.Semiring
import Mathlib.Algebra.Order.Ring.Rat
import Mathlib.Data.Rat.Floor
import Mathlib.Order.Fin.Basic

/-!
# Numbers

Every coordinate of the engine is an `f64`.  The model keeps the number type
`F` abstract: a linear order with the usual operations and the few functions
of `JsNumber`, and no laws.  What a result needs beyond that it assumes by
name, or it is stated over an ordered field, where `exactJsNumber` makes every
number finite and every predicate exact.  Not-a-number and the sign of zero
have no counterpart here.
-/

namespace PolygonNesting

/-- What the source takes from `f64` and from the `robust` crate beyond order
and arithmetic.  `floor` is `none` where the rounded value is not finite. -/
class JsNumber (F : Type) where
  isFinite : F → Bool
  ofNat : ℕ → F
  floor : F → Option ℤ
  robustOrient2d : F → F → F → F → F → F → F

/-- What the scoring and key code takes beyond that: the semantic distance, the
remainder with the sign of the dividend, the ECMAScript text of a number, and
the integers as numbers. -/
class JsMath (F : Type) extends JsNumber F where
  hypot : F → F → F
  remainder : F → F → F
  numberToJsString : F → String
  ofInt : ℤ → F

/-- What is known of the texts of finite numbers: they are not empty, they consist of
digits, signs, point and exponent mark, and different numbers have different texts. -/
structure NumberText (F : Type) [JsMath F] : Prop where
  nonempty : ∀ value : F, JsNumber.isFinite value = true →
    (JsMath.numberToJsString value).toList ≠ []
  symbols : ∀ value : F, JsNumber.isFinite value = true →
    ∀ ch ∈ (JsMath.numberToJsString value).toList,
      ch.isDigit = true ∨ ch ∈ ['.', '-', '+', 'e']
  injective : ∀ first second : F, JsNumber.isFinite first = true →
    JsNumber.isFinite second = true →
    JsMath.numberToJsString first = JsMath.numberToJsString second → first = second

/-- `f64::abs`. -/
def absolute {F : Type} [LinearOrder F] [Neg F] (x : F) : F := max x (-x)

section Derived

variable {F : Type} [LinearOrder F] [Zero F] [One F] [Add F] [Sub F] [Neg F]
  [Mul F] [Div F] [JsMath F]

def maxSafeInteger : ℤ := 9007199254740991

/-- `Number.isSafeInteger`. -/
def isSafeInteger (value : F) : Bool :=
  match JsNumber.floor value with
  | none => false
  | some n => decide (JsMath.ofInt n = value) && decide (|n| ≤ maxSafeInteger)

/-- `Math.floor`, on every value. -/
def floorValue (value : F) : F :=
  match JsNumber.floor value with
  | none => value
  | some n => JsMath.ofInt n

/-- `Math.sign`. -/
def sign (value : F) : F :=
  if value = 0 then value else if 0 < value then 1 else -1

/-- One half, exact. -/
def half : F := 1 / JsNumber.ofNat 2

/-- `Math.round`: halves towards positive infinity. -/
def round (value : F) : F :=
  if value = 0 || !JsNumber.isFinite value then value
  else if 0 < value && value < half then 0
  else if -half ≤ value && value < 0 then 0
  else
    let floor := floorValue value
    if value - floor < half then floor else floor + 1

end Derived

/-- Exact arithmetic in an ordered field with a floor. -/
instance exactJsNumber (K : Type) [Field K] [LinearOrder K] [FloorRing K] :
    JsNumber K where
  isFinite _ := true
  ofNat n := n
  floor x := some ⌊x⌋
  robustOrient2d ax ay bx bY cx cy := (ax - cx) * (bY - cy) - (ay - cy) * (bx - cx)

/-- The ECMAScript texts of the numbers of a type. -/
class NumberTexts (K : Type) where
  numberToJsString : K → String

/-- Exact arithmetic with a text for every number.  Distances are exact along the
axes. -/
instance exactJsMath (K : Type) [Field K] [LinearOrder K] [FloorRing K] [NumberTexts K] :
    JsMath K :=
  { exactJsNumber K with
    hypot := fun dx dy => max (absolute dx) (absolute dy)
    remainder := fun a b => a - b * ((if 0 ≤ a / b then ⌊a / b⌋ else ⌈a / b⌉ : ℤ) : K)
    numberToJsString := NumberTexts.numberToJsString
    ofInt := fun n => n }

/-- Exact rational arithmetic.  Distances are exact along the axes, texts are
those of the integers. -/
instance axisJsMath : JsMath ℚ :=
  { exactJsNumber ℚ with
    hypot := fun dx dy => max (absolute dx) (absolute dy)
    remainder := fun a b => a - b * (if 0 ≤ a / b then ⌊a / b⌋ else ⌈a / b⌉)
    numberToJsString := fun value => toString value.num
    ofInt := fun n => n }

/-- The numbers of one digit. -/
instance digitJsMath : JsMath (Fin 10) where
  isFinite _ := true
  ofNat n := Fin.ofNat 10 n
  floor x := some x.val
  robustOrient2d ax ay bx bY cx cy := (ax - cx) * (bY - cy) - (ay - cy) * (bx - cx)
  hypot dx dy := max dx dy
  remainder a b := a % b
  numberToJsString value := toString value.val
  ofInt n := Fin.ofNat 10 n.toNat

theorem digitText (value : Fin 10) :
    (JsMath.numberToJsString value).toList ≠ [] ∧
      ∀ ch ∈ (JsMath.numberToJsString value).toList, ch.isDigit = true := by
  have htext : ∀ n < 10, (toString n).toList ≠ [] ∧
      (toString n).toList.all Char.isDigit = true := by
    decide +kernel
  exact ⟨(htext value.val value.isLt).1,
    List.all_eq_true.1 (htext value.val value.isLt).2⟩

theorem digitText_injective :
    Function.Injective (JsMath.numberToJsString : Fin 10 → String) := by
  have htext : ∀ m < 10, ∀ n < 10, toString m = toString n → m = n := by
    decide +kernel
  intro first second h
  exact Fin.ext (htext first.val first.isLt second.val second.isLt h)

end PolygonNesting
