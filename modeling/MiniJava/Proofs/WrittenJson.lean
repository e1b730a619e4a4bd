import MiniJava.Proofs.JsonText

namespace MiniJava

/-!
# Written JSON values

A JSON value is written as one spelling of it. An integer of 64 bits is read back
from its decimal digits, and the text of a value is the text of its spelling.
-/

namespace Numeral

/-- Appending digits to a significand does not make it smaller. -/
theorem le_foldl_digits
    (digits : List Char)
    (significand : Nat) :
    significand ≤
      digits.foldl (fun value digit => 10 * value + Decimal.digitValue digit)
        significand := by
  induction digits generalizing significand with
  | nil => exact Nat.le_refl significand
  | cons digit rest hypothesis =>
      calc
        significand ≤ 10 * significand + Decimal.digitValue digit := by omega
        _ ≤ _ := hypothesis _

/-- Digits that fit are all appended. -/
theorem absorb_of_fits
    (digits : List Char)
    {significand : Nat}
    (fits :
      digits.foldl (fun value digit => 10 * value + Decimal.digitValue digit)
        significand <
        wordLimit) :
    absorb significand digits =
      (digits.foldl (fun value digit => 10 * value + Decimal.digitValue digit)
        significand, []) := by
  induction digits generalizing significand with
  | nil => rfl
  | cons digit rest hypothesis =>
      have fitsDigit := Nat.lt_of_le_of_lt (le_foldl_digits rest _) fits
      rw [absorb, if_pos fitsDigit, hypothesis fits, List.foldl_cons]

end Numeral

namespace Json

namespace Spelling

/-- A string as it is written. -/
def ofText (content : String) : Spelling :=
  .string (.ofString content)

/-- An object with its keys as they are written. -/
def record (members : List (String × Spelling)) : Spelling :=
  .object (members.map fun member => (.ofString member.1, member.2))

end Spelling

/-- The decimal digits of a number. -/
def Digits.ofNat (value : Nat) : Digits where
  list := Nat.toDigits 10 value
  nonempty := Nat.toDigits_ne_nil
  areDigits :=
    fun _ isDigit => Nat.isDigit_of_mem_toDigits (by decide) (by decide) isDigit

/-- The first digit of a positive number is not zero. -/
theorem head?_toDigits_ne_zero
    {value : Nat}
    (positive : 0 < value) :
    (Nat.toDigits 10 value).head? ≠ some '0' := by
  induction value using Nat.strongRecOn with
  | ind value hypothesis =>
      rcases Nat.lt_or_ge value 10 with isDigit | isLong
      · rw [Nat.toDigits_of_lt_base isDigit, List.head?_cons, ne_eq,
          Option.some.injEq, Nat.digitChar_eq_zero]
        exact Nat.ne_of_gt positive
      · have notZero := hypothesis (value / 10) (by omega) (by omega)
        obtain ⟨first, others, isList⟩ :=
          List.exists_cons_of_ne_nil (@Nat.toDigits_ne_nil (value / 10) 10)
        rw [isList] at notZero
        rw [Nat.toDigits_of_base_le (by decide) isLong, isList]
        exact notZero

/-- The digits of a number have no needless zeros. -/
theorem Digits.ofNat_leading
    (value : Nat) :
    (Digits.ofNat value).list = ['0'] ∨
      (Digits.ofNat value).list.head? ≠ some '0' := by
  rcases Nat.eq_zero_or_pos value with rfl | positive
  · exact .inl rfl
  · exact .inr (head?_toDigits_ne_zero positive)

/-- The decimal spelling of an integer. -/
def NumberText.ofInt (value : Int) : NumberText where
  isNegative := decide (value < 0)
  whole := .ofNat value.natAbs
  leading := Digits.ofNat_leading value.natAbs
  fraction? := none
  exponent? := none

/-- An integer is written as its spelling. -/
theorem NumberText.text_ofInt
    (value : Int) :
    (NumberText.ofInt value).text = (Decimal.ofInt value).toList := by
  have digits :
      ∀ magnitude, (Decimal.ofNat magnitude).toList = Nat.toDigits 10 magnitude :=
    fun magnitude => Nat.toList_repr
  cases value with
  | ofNat magnitude =>
      simp [ofInt, text, fractionText, exponentText, Digits.ofNat,
        Decimal.ofInt, digits]
  | negSucc predecessor =>
      simp [ofInt, text, fractionText, exponentText, Digits.ofNat,
        Decimal.ofInt, digits]

/-- An integer of 64 bits is what its decimal spelling stands for. -/
theorem NumberText.value_ofInt
    {value : Int}
    (notLess : -9223372036854775808 ≤ value)
    (notGreater : value ≤ 18446744073709551615) :
    (NumberText.ofInt value).numeral.value = .integer value := by
  have magnitude :
      (Digits.ofNat value.natAbs).list.foldl
          (fun value digit => 10 * value + Decimal.digitValue digit) 0 =
        value.natAbs := Nat.ofDigitChars_ten_toDigits
  have absorbed :
      Numeral.absorb 0 (Digits.ofNat value.natAbs).list = (value.natAbs, []) := by
    rw [Numeral.absorb_of_fits _ (by rw [magnitude, Numeral.wordLimit]; omega),
      magnitude]
  simp only [Numeral.value, numeral, ofInt, Option.map_none, absorbed]
  by_cases isNegative : value < 0
  · simp only [isNegative, decide_true, Bool.not_true, Bool.false_eq_true, if_false]
    rw [if_pos ⟨by omega, by rw [Numeral.wordLimit]; omega⟩]
    congr 1
    omega
  · simp only [isNegative, decide_false, Bool.not_false, if_true]
    congr 1
    omega

/-- An integer of 32 bits is what its decimal spelling stands for. -/
theorem NumberText.value_int32
    (value : Int32) :
    (NumberText.ofInt value.toInt).numeral.value = .integer value.toInt := by
  have notLess := value.le_toInt
  have isLess := value.toInt_lt
  exact value_ofInt (by omega) (by omega)

mutual

/-- How a value is written. -/
def spelling : Json → Spelling
  | .null => .null
  | .bool value => .bool value
  | .int value => .number (.ofInt value)
  | .string value => .ofText value
  | .array items => .array (itemSpellings items)
  | .object members => .record (memberSpellings members)

/-- How the items of an array are written. -/
def itemSpellings : List Json → List Spelling
  | [] => []
  | item :: rest => item.spelling :: itemSpellings rest

/-- How the members of an object are written. -/
def memberSpellings : List (String × Json) → List (String × Spelling)
  | [] => []
  | (key, content) :: rest => (key, content.spelling) :: memberSpellings rest

end

mutual

/-- The compact text of a value is that of its spelling. -/
theorem toList_render :
    ∀ value : Json, (render value).toList = value.spelling.text
  | .null => rfl
  | .bool true => rfl
  | .bool false => rfl
  | .int value => (NumberText.text_ofInt value).symm
  | .string value => (StringText.text_ofString value).symm
  | .array [] => rfl
  | .array (first :: rest) => by
      simp [render, spelling, itemSpellings, Spelling.text, toList_render first,
        toList_renderItems rest]
  | .object [] => rfl
  | .object ((key, content) :: rest) => by
      simp [render, spelling, memberSpellings, Spelling.record, Spelling.text,
        StringText.text_ofString, toList_render content, toList_renderMembers rest]

/-- The items of an array are written as they are spelled. -/
theorem toList_renderItems :
    ∀ items : List Json,
      (renderItems items).toList = Spelling.itemsText (itemSpellings items)
  | [] => rfl
  | item :: rest => by
      simp [renderItems, itemSpellings, Spelling.itemsText, toList_render item,
        toList_renderItems rest]

/-- The members of an object are written as they are spelled. -/
theorem toList_renderMembers :
    ∀ members : List (String × Json),
      (renderMembers members).toList =
        Spelling.membersText
          ((memberSpellings members).map fun member =>
            (.ofString member.1, member.2))
  | [] => rfl
  | (key, content) :: rest => by
      simp [renderMembers, memberSpellings, Spelling.membersText,
        StringText.text_ofString, toList_render content, toList_renderMembers rest]

end

end Json

end MiniJava
