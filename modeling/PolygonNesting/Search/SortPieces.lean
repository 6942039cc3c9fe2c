import Mathlib.Data.List.TakeWhile
import PolygonNesting.Domain
import PolygonNesting.Lib.NaturalOrder

/-!
# The initial order of the pieces

A request is put into a canonical order before anything else: by descending width, by
descending height, and by the natural order of the piece ids.  The priority sort of the
search is stable, so its ties fall back on that order.

The comparator of the ids walks over the bytes of both texts at once.  It is the natural
order of `NaturalOrder`, hence a strict total order, and the canonical order does not
depend on the order in which the pieces were listed.
-/

namespace PolygonNesting

/-! ## §1  Pieces -/

structure Rect (F : Type) where
  x : F
  y : F
  width : F
  height : F
  deriving DecidableEq

/-- A rectangle with the keys of the priority sort. -/
structure RectWith (F : Type) where
  rect : Rect F
  longestEdge : F
  area : F
  imbalance : F
  deriving DecidableEq

structure CutRowRef where
  reference : String
  customerName : String
  csvRowId : String
  deriving DecidableEq

structure PreparedPiece (F : Type) where
  id : PieceId
  sourcePieceId : PieceId
  interchangeabilityKey : Option String
  realBounds : Rect F
  paddedBounds : RectWith F
  padding : F
  allowRotation : Bool
  allowMirror : Bool
  cutRowRef : Option CutRowRef
  deriving DecidableEq

/-! ## §2  The comparators -/

def isAsciiDigit (byte : UInt8) : Bool := decide (48 ≤ byte.toNat) && decide (byte.toNat ≤ 57)

/-- The digits from the first significant one, the last one at the latest. -/
def significantFrom : List UInt8 → List UInt8
  | digit :: next :: rest =>
      if digit = 48 then significantFrom (next :: rest) else digit :: next :: rest
  | digits => digits

/-- The loop of `compare_natural_piece_ids` on what is left of the two texts. -/
def compareNaturalFrom (firstLength secondLength : ℕ) :
    List UInt8 → List UInt8 → Ordering
  | firstByte :: first, secondByte :: second =>
      if isAsciiDigit firstByte && isAsciiDigit secondByte then
        let firstRun := firstByte :: first.takeWhile isAsciiDigit
        let secondRun := secondByte :: second.takeWhile isAsciiDigit
        let firstNumber := significantFrom firstRun
        let secondNumber := significantFrom secondRun
        let numberOrder := (compare firstNumber.length secondNumber.length).then
          (compare firstNumber secondNumber)
        if numberOrder ≠ .eq then numberOrder
        else
          let runLengthOrder := compare firstRun.length secondRun.length
          if runLengthOrder ≠ .eq then runLengthOrder
          else
            compareNaturalFrom firstLength secondLength (first.dropWhile isAsciiDigit)
              (second.dropWhile isAsciiDigit)
      else
        let byteOrder := compare firstByte secondByte
        if byteOrder ≠ .eq then byteOrder
        else compareNaturalFrom firstLength secondLength first second
  | _, _ => compare firstLength secondLength
  termination_by first => first.length
  decreasing_by
  · exact Nat.lt_succ_of_le (List.dropWhile_suffix _).length_le
  · exact Nat.lt_succ_self _

/-- `str::as_bytes`. -/
def asBytes (text : String) : List UInt8 := text.toByteArray.data.toList

def compareNaturalPieceIds (first second : PieceId) : Ordering :=
  compareNaturalFrom (asBytes first).length (asBytes second).length (asBytes first)
    (asBytes second)

section

variable {F : Type} [LinearOrder F]

def descending (a b : F) : Ordering := if a < b then .gt else if b < a then .lt else .eq

def compareCanonicalRequestTies (first second : PreparedPiece F) : Ordering :=
  (descending first.realBounds.width second.realBounds.width).then
    ((descending first.realBounds.height second.realBounds.height).then
      (compareNaturalPieceIds first.id second.id))

/-- The pieces of `prepare_nesting_request`. -/
def prepareRequestPieces (pieces : List (PreparedPiece F)) : List (PreparedPiece F) :=
  pieces.mergeSort fun first second => compareCanonicalRequestTies first second != .gt

/-- The priority sort of the search: stable, so ties keep the canonical order. -/
def sortPiecesForNesting (pieces : List (PreparedPiece F)) : List (PreparedPiece F) :=
  pieces.mergeSort fun first second =>
    (descending first.paddedBounds.longestEdge second.paddedBounds.longestEdge).then
      ((descending first.paddedBounds.area second.paddedBounds.area).then
        (descending first.paddedBounds.imbalance second.paddedBounds.imbalance)) != .gt

end

/-! ## §3  The loop computes the natural order -/

theorem isAsciiDigit_eq : isAsciiDigit = NaturalOrder.isDigit := rfl

theorem significantFrom_eq (digits : List UInt8) :
    significantFrom digits = NaturalOrder.significantDigits digits := by
  fun_induction significantFrom digits with
  | case1 next rest ih => rw [ih, NaturalOrder.significantDigits, if_pos rfl]
  | case2 digit next rest h => rw [NaturalOrder.significantDigits, if_neg h]
  | case3 digits h =>
      rcases digits with _ | ⟨digit, _ | ⟨next, rest⟩⟩
      · rfl
      · rfl
      · exact absurd rfl (h digit next rest)

theorem digits_run {byte : UInt8} (h : isAsciiDigit byte = true) (rest : List UInt8) :
    ∀ digit ∈ byte :: rest.takeWhile isAsciiDigit, NaturalOrder.isDigit digit = true := by
  intro digit hdigit
  rcases List.mem_cons.mp hdigit with rfl | hdigit
  · exact h
  · exact List.mem_takeWhile_imp hdigit

/-- A digit with the digits that follow it, and what follows them. -/
theorem tokens_cons_digit {byte : UInt8} (h : isAsciiDigit byte = true) (rest : List UInt8) :
    NaturalOrder.tokens (byte :: rest) =
      .number (byte :: rest.takeWhile isAsciiDigit) ::
        NaturalOrder.tokens (rest.dropWhile isAsciiDigit) := by
  have hrest : ∀ b ∈ (rest.dropWhile isAsciiDigit).head?, NaturalOrder.isDigit b = false := by
    intro b hb
    have hhead := List.head?_dropWhile_not isAsciiDigit rest
    rw [Option.mem_def.mp hb] at hhead
    simpa [isAsciiDigit_eq] using hhead
  have htokens := NaturalOrder.tokens_run (List.cons_ne_nil _ _) (digits_run h rest) hrest
  rwa [List.cons_append, List.takeWhile_append_dropWhile] at htokens

/-- Tokens that begin at different places among the bytes compare as those places do. -/
theorem cmp_of_leading_ne {first second : NaturalOrder.Token}
    (h : first.leading ≠ second.leading) :
    first.cmp second = compare first.leading second.leading := by
  unfold NaturalOrder.Token.cmp
  cases hcompare : compare first.leading second.leading with
  | lt => rfl
  | gt => rfl
  | eq => exact absurd (compare_eq_iff_eq.mp hcompare) h

/-- Two bytes of which one is no digit decide as their tokens do. -/
theorem cmp_of_not_digits {firstByte secondByte : UInt8} {first second : List UInt8}
    (h : (isAsciiDigit firstByte && isAsciiDigit secondByte) = false) :
    NaturalOrder.cmp (firstByte :: first) (secondByte :: second) =
      (compare firstByte secondByte).then (NaturalOrder.cmp first second) := by
  have hdigit : ∀ {byte : UInt8}, isAsciiDigit byte = true → 48 ≤ byte.toNat ∧ byte.toNat ≤ 57 :=
    NaturalOrder.isDigit_iff.mp
  have hother : ∀ {byte : UInt8}, isAsciiDigit byte = false →
      byte.toNat < 48 ∨ 57 < byte.toNat := by
    intro byte hbyte
    have hnot := mt NaturalOrder.isDigit_iff.mpr (Bool.eq_false_iff.mp hbyte)
    omega
  unfold NaturalOrder.cmp
  rw [NaturalOrder.compare_byte]
  cases hfirst : isAsciiDigit firstByte with
  | false =>
      rw [NaturalOrder.tokens_text hfirst]
      cases hsecond : isAsciiDigit secondByte with
      | false =>
          rw [NaturalOrder.tokens_text hsecond, List.compareLex_cons_cons]
          congr 1
          by_cases heq : firstByte.toNat = secondByte.toNat
          · rw [UInt8.toNat_inj.mp heq, Comparator.cmp_self NaturalOrder.Token.cmp,
              compare_eq_iff_eq.mpr rfl]
          · exact cmp_of_leading_ne heq
      | true =>
          have hbyte := hother hfirst
          have hbyte' := hdigit hsecond
          rw [tokens_cons_digit hsecond, List.compareLex_cons_cons, cmp_of_leading_ne]
          · have hsame : compare firstByte.toNat 48 = compare firstByte.toNat secondByte.toNat :=
              Comparator.compare_congr (by omega) (by omega)
            have hne : compare firstByte.toNat secondByte.toNat ≠ .eq := by
              rw [Ne, compare_eq_iff_eq]
              omega
            rw [NaturalOrder.Token.leading, NaturalOrder.Token.leading, hsame]
            revert hne
            cases compare firstByte.toNat secondByte.toNat <;> simp
          · exact NaturalOrder.Token.leading_ne hfirst
  | true =>
      rw [hfirst, Bool.true_and] at h
      have hbyte := hdigit hfirst
      have hbyte' := hother h
      rw [tokens_cons_digit hfirst, NaturalOrder.tokens_text h, List.compareLex_cons_cons,
        cmp_of_leading_ne]
      · have hsame : compare 48 secondByte.toNat = compare firstByte.toNat secondByte.toNat :=
          Comparator.compare_congr (by omega) (by omega)
        have hne : compare firstByte.toNat secondByte.toNat ≠ .eq := by
          rw [Ne, compare_eq_iff_eq]
          omega
        rw [NaturalOrder.Token.leading, NaturalOrder.Token.leading, hsame]
        revert hne
        cases compare firstByte.toNat secondByte.toNat <;> simp
      · exact fun heq => NaturalOrder.Token.leading_ne h heq.symm

/-- Two runs of digits decide by the numbers they write, then by their lengths. -/
theorem cmp_of_digits {firstByte secondByte : UInt8} {first second : List UInt8}
    (h : (isAsciiDigit firstByte && isAsciiDigit secondByte) = true) :
    NaturalOrder.cmp (firstByte :: first) (secondByte :: second) =
      ((compare (significantFrom (firstByte :: first.takeWhile isAsciiDigit)).length
            (significantFrom (secondByte :: second.takeWhile isAsciiDigit)).length).then
          (compare (significantFrom (firstByte :: first.takeWhile isAsciiDigit))
            (significantFrom (secondByte :: second.takeWhile isAsciiDigit)))).then
        ((compare (firstByte :: first.takeWhile isAsciiDigit).length
            (secondByte :: second.takeWhile isAsciiDigit).length).then
          (NaturalOrder.cmp (first.dropWhile isAsciiDigit) (second.dropWhile isAsciiDigit))) := by
  obtain ⟨hfirst, hsecond⟩ := Bool.and_eq_true_iff.mp h
  have hrun := (digits_run hfirst first)
  have hrun' := (digits_run hsecond second)
  unfold NaturalOrder.cmp
  rw [tokens_cons_digit hfirst, tokens_cons_digit hsecond, List.compareLex_cons_cons,
    significantFrom_eq, significantFrom_eq,
    NaturalOrder.compare_significantDigits hrun hrun' (List.cons_ne_nil _ _)
      (List.cons_ne_nil _ _), ← Ordering.then_assoc]
  rfl

theorem then_of_ne_eq {order order' : Ordering} (h : order ≠ .eq) : order.then order' = order := by
  cases order with
  | eq => exact absurd rfl h
  | lt => rfl
  | gt => rfl

/-- **The loop computes the natural order.**  Both texts have lost equally many bytes. -/
theorem compareNaturalFrom_eq (firstLength secondLength : ℕ) (first second : List UInt8)
    (hlength : firstLength + second.length = secondLength + first.length) :
    compareNaturalFrom firstLength secondLength first second =
      NaturalOrder.cmp first second := by
  fun_induction compareNaturalFrom firstLength secondLength first second with
  | case1 firstByte first secondByte second hdigits firstRun secondRun firstNumber secondNumber
      numberOrder hnumber => rw [cmp_of_digits hdigits, then_of_ne_eq hnumber]
  | case2 firstByte first secondByte second hdigits firstRun secondRun firstNumber secondNumber
      numberOrder hnumber runLengthOrder hrun =>
      rw [cmp_of_digits hdigits]
      change _ = numberOrder.then (runLengthOrder.then _)
      rw [not_not.mp hnumber, then_of_ne_eq hrun]
      rfl
  | case3 firstByte first secondByte second hdigits firstRun secondRun firstNumber secondNumber
      numberOrder hnumber runLengthOrder hrun ih =>
      rw [cmp_of_digits hdigits]
      change _ = numberOrder.then (runLengthOrder.then _)
      rw [not_not.mp hnumber, not_not.mp hrun]
      refine ih ?_
      have hruns : firstRun.length = secondRun.length := compare_eq_iff_eq.mp (not_not.mp hrun)
      simp only [firstRun, secondRun, List.length_cons] at hruns hlength
      have hsplit := congrArg List.length (List.takeWhile_append_dropWhile (p := isAsciiDigit) (l := first))
      have hsplit' := congrArg List.length (List.takeWhile_append_dropWhile (p := isAsciiDigit) (l := second))
      rw [List.length_append] at hsplit hsplit'
      omega
  | case4 firstByte first secondByte second hdigits byteOrder hbyte =>
      rw [cmp_of_not_digits ((Bool.not_eq_true _).mp hdigits), then_of_ne_eq hbyte]
  | case5 firstByte first secondByte second hdigits byteOrder hbyte ih =>
      rw [cmp_of_not_digits ((Bool.not_eq_true _).mp hdigits)]
      change _ = byteOrder.then _
      rw [not_not.mp hbyte]
      simp only [List.length_cons] at hlength
      exact ih (by omega)
  | case6 first second hend =>
      rcases first with _ | ⟨firstByte, first⟩
      · rcases second with _ | ⟨secondByte, second⟩
        · exact compare_eq_iff_eq.mpr (by simpa using hlength)
        · rw [NaturalOrder.cmp_nil_left (List.cons_ne_nil _ _)]
          simp only [List.length_cons, List.length_nil] at hlength
          exact compare_lt_iff_lt.mpr (by omega)
      · rcases second with _ | ⟨secondByte, second⟩
        · rw [Comparator.cmp_eq_swap NaturalOrder.cmp,
            NaturalOrder.cmp_nil_left (List.cons_ne_nil _ _)]
          simp only [List.length_cons, List.length_nil] at hlength
          exact compare_gt_iff_gt.mpr (by omega)
        · exact absurd rfl (fun h => hend firstByte first secondByte second rfl h)

theorem compareNaturalPieceIds_eq (first second : PieceId) :
    compareNaturalPieceIds first second = NaturalOrder.cmp (asBytes first) (asBytes second) :=
  compareNaturalFrom_eq _ _ _ _ (Nat.add_comm _ _)

instance : Std.TransCmp compareNaturalPieceIds := by
  have h : compareNaturalPieceIds =
      fun first second => NaturalOrder.cmp (asBytes first) (asBytes second) :=
    funext fun first => funext fun second => compareNaturalPieceIds_eq first second
  rw [h]
  exact Comparator.transCmp_comap NaturalOrder.cmp asBytes

theorem asBytes_injective : Function.Injective asBytes := by
  intro first second h
  refine String.toByteArray_inj.mp (ByteArray.ext ?_)
  exact Array.toList_inj.mp h

theorem eq_of_compareNaturalPieceIds {first second : PieceId}
    (h : compareNaturalPieceIds first second = .eq) : first = second := by
  rw [compareNaturalPieceIds_eq] at h
  exact asBytes_injective (NaturalOrder.eq_of_cmp_eq h)

/-! ## §4  The canonical order -/

section

variable {F : Type} [LinearOrder F]

theorem descending_eq (a b : F) : descending a b = compare b a := by
  unfold descending
  rcases lt_trichotomy a b with h | rfl | h
  · rw [if_pos h, compare_gt_iff_gt.mpr h]
  · rw [if_neg (lt_irrefl a), if_neg (lt_irrefl a), compare_eq_iff_eq.mpr rfl]
  · rw [if_neg (lt_asymm h), if_pos h, compare_lt_iff_lt.mpr h]

instance : Std.TransCmp (descending (F := F)) := by
  have h : (descending : F → F → Ordering) = fun a b => compare b a :=
    funext fun a => funext fun b => descending_eq a b
  rw [h]
  exact inferInstanceAs (Std.TransCmp (flip (compare : F → F → Ordering)))

instance : Std.TransCmp (compareCanonicalRequestTies (F := F)) :=
  Comparator.transCmp_then
    (Comparator.transCmp_comap descending fun piece : PreparedPiece F => piece.realBounds.width)
    (Comparator.transCmp_then
      (Comparator.transCmp_comap descending fun piece : PreparedPiece F =>
        piece.realBounds.height)
      (Comparator.transCmp_comap compareNaturalPieceIds fun piece : PreparedPiece F => piece.id))

theorem id_eq_of_compareCanonicalRequestTies {first second : PreparedPiece F}
    (h : compareCanonicalRequestTies first second = .eq) : first.id = second.id := by
  unfold compareCanonicalRequestTies at h
  rw [Ordering.then_eq_eq, Ordering.then_eq_eq] at h
  exact eq_of_compareNaturalPieceIds h.2.2

/-- The canonical order of pieces with different ids does not depend on how they were
listed. -/
theorem prepareRequestPieces_perm {pieces pieces' : List (PreparedPiece F)}
    (hperm : pieces.Perm pieces') (hids : (pieces.map PreparedPiece.id).Nodup) :
    prepareRequestPieces pieces = prepareRequestPieces pieces' :=
  Comparator.sort_eq_of_perm hperm fun _ ha _ hb h =>
    List.inj_on_of_nodup_map hids ha hb (id_eq_of_compareCanonicalRequestTies h)

end

/-- **The natural order of ids is a strict total order** that puts numbers in the order
of their values; the canonical order of a request with unique ids, and with it the
priority order of the search, is the same for every listing of the pieces. -/
theorem compareNaturalPieceIds_total :
    (∀ first second, compareNaturalPieceIds second first =
      (compareNaturalPieceIds first second).swap) ∧
    (∀ first second third, compareNaturalPieceIds first second = .lt →
      compareNaturalPieceIds second third = .lt → compareNaturalPieceIds first third = .lt) ∧
    (∀ first second, compareNaturalPieceIds first second = .eq ↔ first = second) ∧
    (∀ first second front digits digits' back back',
      asBytes first = front ++ (digits ++ back) → asBytes second = front ++ (digits' ++ back') →
      (∀ byte ∈ front.getLast?, isAsciiDigit byte = false) →
      (digits ≠ [] ∧ ∀ digit ∈ digits, isAsciiDigit digit = true) →
      (digits' ≠ [] ∧ ∀ digit ∈ digits', isAsciiDigit digit = true) →
      (∀ byte ∈ back.head?, isAsciiDigit byte = false) →
      (∀ byte ∈ back'.head?, isAsciiDigit byte = false) →
      NaturalOrder.value digits < NaturalOrder.value digits' →
      compareNaturalPieceIds first second = .lt) ∧
    ∀ (F : Type) [LinearOrder F] (pieces pieces' : List (PreparedPiece F)),
      pieces.Perm pieces' → (pieces.map PreparedPiece.id).Nodup →
      prepareRequestPieces pieces = prepareRequestPieces pieces' ∧
        sortPiecesForNesting (prepareRequestPieces pieces) =
          sortPiecesForNesting (prepareRequestPieces pieces') := by
  refine ⟨fun first second => Comparator.cmp_eq_swap _ _ _,
    fun first second third => Std.TransCmp.lt_trans, fun first second => ?_, ?_, ?_⟩
  · constructor
    · exact eq_of_compareNaturalPieceIds
    · rintro rfl
      exact Comparator.cmp_self _ _
  · intro first second front digits digits' back back' hfirst hsecond hfront hdigits hdigits'
      hback hback' hvalue
    rw [compareNaturalPieceIds_eq, hfirst, hsecond]
    exact NaturalOrder.cmp_eq_lt_of_value_lt hfront hdigits hdigits' hback hback' hvalue
  · intro F _ pieces pieces' hperm hids
    have hsame := prepareRequestPieces_perm hperm hids
    exact ⟨hsame, congrArg sortPiecesForNesting hsame⟩

end PolygonNesting
