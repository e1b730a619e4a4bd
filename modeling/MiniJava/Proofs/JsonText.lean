import MiniJava.Json.Reader
import MiniJava.Json.Writer

namespace MiniJava.Json

/-!
# JSON values in a text

A JSON value as it is spelled in a text: its numbers keep their digits, its strings
their escapes and its objects the order of their members. From its compact text the
reader takes the value apart as it is, whatever follows, as long as that cannot be
taken for more digits of a number.

A string may be spelled with halves of surrogate pairs that stand alone. It is then
a literal by the grammar, but holds no text.
-/

open Node.Reader

/-- A step that succeeds hands its value on. -/
@[simp]
theorem ok_bind
    {ε α β : Type}
    (value : α)
    (next : α → Except ε β) :
    (Except.ok value >>= next) = next value := rfl

/-- Digits, and at least one of them. -/
structure Digits where
  list : List Char
  nonempty : list ≠ []
  areDigits : ∀ digit ∈ list, digit.isDigit = true

/-- How the exponent of a number is spelled. -/
structure ExponentText where
  isUpper : Bool
  /-- Whether there is a sign, and whether it is a minus. -/
  isNegative? : Option Bool
  digits : Digits

/-- How a number is spelled. Its integer part has no needless zeros. -/
structure NumberText where
  isNegative : Bool
  whole : Digits
  leading : whole.list = ['0'] ∨ whole.list.head? ≠ some '0'
  fraction? : Option Digits
  exponent? : Option ExponentText

/-- A part of a string as it is spelled. -/
inductive StringPart where
  /-- A character that stands for itself. -/
  | plain
      (character : Char)
      (isPlain : 32 ≤ character.toNat ∧ character ≠ '"' ∧ character ≠ '\\')
  /-- An escape of one letter. -/
  | short
      (letter character : Char)
      (isEscape : escaped? letter = some character)
  /-- An escape by a code of four hexadecimal digits. -/
  | code
      (first second third fourth : Char)
      (unit : Nat)
      (isUnit : hexUnit? first second third fourth = some unit)

/-- How a string is spelled. -/
structure StringText where
  parts : List StringPart

/-- A JSON value with its spelling. -/
inductive Spelling where
  | null
  | bool (value : Bool)
  | number (text : NumberText)
  | string (text : StringText)
  | array (items : List Spelling)
  | object (members : List (StringText × Spelling))

namespace ExponentText

/-- The characters of an exponent. -/
def text (exponent : ExponentText) : List Char :=
  (if exponent.isUpper then 'E' else 'e') ::
    (match exponent.isNegative? with
      | none => []
      | some true => ['-']
      | some false => ['+']) ++
    exponent.digits.list

/-- The value of an exponent. -/
def value (exponent : ExponentText) : Int :=
  let magnitude := (Decimal.valueOfDigits exponent.digits.list : Int)
  if exponent.isNegative? = some true then -magnitude else magnitude

end ExponentText

namespace NumberText

/-- The characters of the fraction of a number. -/
def fractionText (number : NumberText) : List Char :=
  match number.fraction? with
  | none => []
  | some digits => '.' :: digits.list

/-- The characters of the exponent of a number. -/
def exponentText (number : NumberText) : List Char :=
  match number.exponent? with
  | none => []
  | some exponent => exponent.text

/-- The characters of a number. -/
def text (number : NumberText) : List Char :=
  (if number.isNegative then ['-'] else []) ++
    number.whole.list ++ number.fractionText ++ number.exponentText

/-- The parts of a number. -/
def numeral (number : NumberText) : Numeral where
  negative := number.isNegative
  whole := number.whole.list
  fraction? := number.fraction?.map Digits.list
  exponent? := number.exponent?.map ExponentText.value

end NumberText

namespace StringPart

/-- The characters of a part. -/
def text : StringPart → List Char
  | .plain character _ => [character]
  | .short letter _ _ => ['\\', letter]
  | .code first second third fourth _ _ => ['\\', 'u', first, second, third, fourth]

/-- What a part is read as. -/
def piece : StringPart → Piece
  | .plain character _ => .character character
  | .short _ character _ => .character character
  | .code _ _ _ _ unit _ => .unit unit

end StringPart

namespace StringText

/-- The characters of a string, with its quotes. -/
def text (string : StringText) : List Char :=
  '"' :: (string.parts.flatMap StringPart.text ++ ['"'])

/-- The text that a string holds, if all its surrogates are paired. -/
def content (string : StringText) : Except Fault String :=
  (assemble none (string.parts.map StringPart.piece)).map String.ofList

/-- What stands in a text that holds the string. -/
def node (string : StringText) : Node :=
  .string ⟨string.content, none⟩

end StringText

/-- What a string literal stands for that holds the text. -/
def quotedNode (content : String) : Node :=
  .string ⟨.ok content, none⟩

namespace Spelling

mutual

/-- What stands in a text that holds the value. -/
def node : Spelling → Node
  | .null => .null
  | .bool value => .bool value
  | .number text => .number text.numeral.value
  | .string text => text.node
  | .array items => .array (itemNodes items) none
  | .object members => .object (memberNodes members) none

/-- What stands for the items of an array. -/
def itemNodes : List Spelling → List Node
  | [] => []
  | item :: rest => item.node :: itemNodes rest

/-- What stands for the members of an object. -/
def memberNodes : List (StringText × Spelling) → List (Node × Node)
  | [] => []
  | (key, content) :: rest => (key.node, content.node) :: memberNodes rest

end

mutual

/-- The compact text of the value. -/
def text : Spelling → List Char
  | .null => ['n', 'u', 'l', 'l']
  | .bool true => ['t', 'r', 'u', 'e']
  | .bool false => ['f', 'a', 'l', 's', 'e']
  | .number text => text.text
  | .string text => text.text
  | .array [] => ['[', ']']
  | .array (first :: rest) => '[' :: (first.text ++ itemsText rest)
  | .object [] => ['{', '}']
  | .object ((key, content) :: rest) =>
      '{' :: (key.text ++ ':' :: (content.text ++ membersText rest))

/-- The items of an array after its first one, with the closing bracket. -/
def itemsText : List Spelling → List Char
  | [] => [']']
  | item :: rest => ',' :: (item.text ++ itemsText rest)

/-- The members of an object after its first one, with the closing brace. -/
def membersText : List (StringText × Spelling) → List Char
  | [] => ['}']
  | (key, content) :: rest =>
      ',' :: (key.text ++ ':' :: (content.text ++ membersText rest))

end

section

variable {motive : Spelling → Prop}
  (null : motive .null)
  (bool : ∀ value, motive (.bool value))
  (number : ∀ text, motive (.number text))
  (string : ∀ text, motive (.string text))
  (array : ∀ items, (∀ item ∈ items, motive item) → motive (.array items))
  (object :
    ∀ members, (∀ member ∈ members, motive member.2) → motive (.object members))

include null bool number string array object

/-- Induction over values, with the parts of a value as members of a list. -/
@[elab_as_elim, induction_eliminator]
theorem induction : ∀ spelling, motive spelling
  | .null => null
  | .bool value => bool value
  | .number text => number text
  | .string text => string text
  | .array items => array items fun item _ => induction item
  | .object members =>
      object members fun member isMember =>
        have smaller : sizeOf member.2 < sizeOf members := by
          have inside := List.sizeOf_lt_of_mem isMember
          have parts : sizeOf member = 1 + sizeOf member.1 + sizeOf member.2 :=
            Prod.mk.sizeOf_spec member.1 member.2
          omega
        induction member.2

end

end Spelling

/-- Nothing is skipped before what is not blank. -/
theorem skipBlanks_cons
    {character : Char}
    (notBlank : isBlank character = false)
    (rest : List Char) :
    skipBlanks (character :: rest) = character :: rest :=
  List.dropWhile_cons_of_neg (by simp [notBlank])

/-! ## Numbers -/

/-- What cannot be taken for more characters of a number. -/
def EndsNumber (rest : List Char) : Prop :=
  ∀ character ∈ rest.head?,
    character.isDigit = false ∧ character ≠ '.' ∧ character ≠ 'e' ∧ character ≠ 'E'

namespace Digits

/-- Digits start with a digit. -/
theorem exists_cons
    (run : Digits) :
    ∃ first others, run.list = first :: others ∧ first.isDigit = true := by
  cases isList : run.list with
  | nil => exact absurd isList run.nonempty
  | cons first others =>
      exact ⟨first, others, rfl, run.areDigits first (isList ▸ List.mem_cons_self)⟩

/-- Digits are read up to what is no digit. -/
theorem digits_append
    (run : Digits)
    {rest : List Char}
    (ends : ∀ character ∈ rest.head?, character.isDigit = false) :
    digits (run.list ++ rest) = .ok (run.list, rest) := by
  have taken : (run.list ++ rest).takeWhile Char.isDigit = run.list := by
    rw [List.takeWhile_append_of_pos run.areDigits]
    cases rest with
    | nil => simp
    | cons first others => simp [ends first rfl]
  have dropped : (run.list ++ rest).dropWhile Char.isDigit = rest := by
    rw [List.dropWhile_append_of_pos run.areDigits]
    cases rest with
    | nil => rfl
    | cons first others => simp [ends first rfl]
  obtain ⟨first, others, isList, isDigit⟩ := run.exists_cons
  rw [isList] at taken dropped
  rw [isList, List.cons_append] at *
  rw [digits, if_pos isDigit, taken, dropped]

end Digits

/-- An exponent is read up to what is no digit. -/
theorem ExponentText.exponentPart?_append
    (exponent : ExponentText)
    {rest : List Char}
    (ends : ∀ character ∈ rest.head?, character.isDigit = false) :
    exponentPart? (exponent.text ++ rest) = .ok (some exponent.value, rest) := by
  have read := exponent.digits.digits_append ends
  obtain ⟨first, others, isList, isDigit⟩ := exponent.digits.exists_cons
  have signed :
      exponentDigits
          ((match exponent.isNegative? with
            | none => []
            | some true => ['-']
            | some false => ['+']) ++ exponent.digits.list ++ rest) =
        .ok (exponent.value, rest) := by
    unfold value
    cases exponent.isNegative? with
    | none =>
        have notSign : first ≠ '-' ∧ first ≠ '+' := by
          constructor <;>
          · rintro rfl
            cases isDigit
        rw [isList] at read ⊢
        rw [List.nil_append, List.cons_append] at *
        unfold exponentDigits
        split
        next isText => exact absurd (List.cons.inj isText).1 notSign.1
        next isText => exact absurd (List.cons.inj isText).1 notSign.2
        next => rw [read]; rfl
    | some isNegative =>
        cases isNegative <;>
        · simp only [List.cons_append, List.nil_append, exponentDigits, read]
          rfl
  unfold text
  cases exponent.isUpper <;>
  · simp only [List.cons_append, exponentPart?, if_true, if_false,
      Bool.false_eq_true, signed]
    rfl

/-- What starts a number is not blank. -/
theorem notBlank_of_start
    {first : Char}
    (isStart : first = '-' ∨ first.isDigit = true) :
    isBlank first = false := by
  rw [Bool.eq_false_iff]
  intro blank
  simp only [isBlank, Bool.or_eq_true, decide_eq_true_eq] at blank
  rcases blank with ((rfl | rfl) | rfl) | rfl <;> exact absurd isStart (by decide)

namespace NumberText

variable (number : NumberText)
  {rest : List Char}

/-- The exponent of a number is read, if there is one. -/
theorem exponentPart?_exponentText
    (ends : EndsNumber rest) :
    exponentPart? (number.exponentText ++ rest) =
      .ok (number.exponent?.map ExponentText.value, rest) := by
  unfold exponentText
  cases number.exponent? with
  | none =>
      rw [List.nil_append]
      unfold exponentPart?
      split
      next => exact absurd rfl (ends 'e' rfl).2.2.1
      next => exact absurd rfl (ends 'E' rfl).2.2.2
      next => rfl
  | some exponent =>
      exact exponent.exponentPart?_append fun character isHead =>
        (ends character isHead).1

/-- What follows a fraction is neither a digit nor another point. -/
theorem exponentText_ends
    (ends : EndsNumber rest) :
    ∀ character ∈ (number.exponentText ++ rest).head?,
      character.isDigit = false ∧ character ≠ '.' := by
  intro character isHead
  unfold exponentText at isHead
  cases isExponent : number.exponent? with
  | none =>
      rw [isExponent] at isHead
      exact ⟨(ends character isHead).1, (ends character isHead).2.1⟩
  | some exponent =>
      simp only [isExponent, ExponentText.text, List.cons_append, List.head?_cons,
        Option.mem_some_iff] at isHead
      subst isHead
      cases exponent.isUpper <;> decide

/-- The fraction of a number is read, if there is one. -/
theorem fractionPart?_fractionText
    (ends : ∀ character ∈ rest.head?, character.isDigit = false ∧ character ≠ '.') :
    fractionPart? (number.fractionText ++ rest) =
      .ok (number.fraction?.map Digits.list, rest) := by
  unfold fractionText
  cases number.fraction? with
  | none =>
      rw [List.nil_append]
      unfold fractionPart?
      split
      next => exact absurd rfl (ends '.' rfl).2
      next => rfl
  | some fraction =>
      rw [List.cons_append, fractionPart?,
        fraction.digits_append fun character isHead => (ends character isHead).1]
      rfl

/-- What follows the integer part is no digit. -/
theorem fractionText_ends
    (ends : ∀ character ∈ rest.head?, character.isDigit = false ∧ character ≠ '.') :
    ∀ character ∈ (number.fractionText ++ rest).head?,
      character.isDigit = false := by
  intro character isHead
  unfold fractionText at isHead
  cases isFraction : number.fraction? with
  | none =>
      rw [isFraction] at isHead
      exact (ends character isHead).1
  | some fraction =>
      simp only [isFraction, List.cons_append, List.head?_cons, Option.mem_some_iff]
        at isHead
      subst isHead
      decide

/-- The integer part of a number is read. -/
theorem wholePart_whole
    (ends : ∀ character ∈ rest.head?, character.isDigit = false) :
    wholePart (number.whole.list ++ rest) = .ok (number.whole.list, rest) := by
  rcases number.leading with isZero | notZero
  · rw [isZero]
    cases rest with
    | nil => rfl
    | cons next others => simp [wholePart, ends next rfl]
  · obtain ⟨first, others, isList, -⟩ := number.whole.exists_cons
    have read := number.whole.digits_append ends
    rw [isList] at notZero
    rw [isList, List.cons_append] at read ⊢
    unfold wholePart
    split
    next isText =>
      rw [List.head?_cons, (List.cons.inj isText).1] at notZero
      exact absurd rfl notZero
    next => exact read

/-- A number is read as it is spelled. -/
theorem numeral_text
    (ends : EndsNumber rest) :
    Node.Reader.numeral (number.text ++ rest) = .ok (number.numeral, rest) := by
  have afterFraction := number.exponentText_ends ends
  have afterWhole := number.fractionText_ends afterFraction
  have isUnsigned :
      unsigned number.isNegative
          (number.whole.list ++
            (number.fractionText ++ (number.exponentText ++ rest))) =
        .ok (number.numeral, rest) := by
    simp only [unsigned, number.wholePart_whole afterWhole, ok_bind,
      number.fractionPart?_fractionText afterFraction,
      number.exponentPart?_exponentText ends]
    rfl
  obtain ⟨first, others, isList, isDigit⟩ := number.whole.exists_cons
  unfold text
  simp only [List.append_assoc]
  cases isSigned : number.isNegative with
  | true =>
      rw [isSigned] at isUnsigned
      exact isUnsigned
  | false =>
      rw [isSigned] at isUnsigned
      rw [if_neg Bool.false_ne_true, List.nil_append]
      rw [isList, List.cons_append] at isUnsigned ⊢
      unfold Node.Reader.numeral
      split
      next isText =>
        rw [(List.cons.inj isText).1] at isDigit
        cases isDigit
      next => exact isUnsigned

/-- A number starts with its sign or with a digit. -/
theorem text_start :
    ∃ first others,
      number.text = first :: others ∧ (first = '-' ∨ first.isDigit = true) := by
  unfold text
  cases number.isNegative with
  | true => exact ⟨'-', _, rfl, .inl rfl⟩
  | false =>
      obtain ⟨first, others, isList, isDigit⟩ := number.whole.exists_cons
      exact ⟨first, _, by rw [isList]; rfl, .inr isDigit⟩

/-- Where a number starts, a number is read. -/
theorem value_text
    (bound : Nat)
    (ends : EndsNumber rest) :
    value (bound + 1) (number.text ++ rest) =
      (.number number.numeral.value, rest) := by
  have read := number.numeral_text ends
  obtain ⟨first, others, isText, isStart⟩ := number.text_start
  rw [isText, List.cons_append] at read ⊢
  rw [value, skipBlanks_cons (notBlank_of_start isStart)]
  split
  case h_1 isEmpty => cases isEmpty
  case h_8 isStarted =>
    obtain ⟨rfl, rfl⟩ := List.cons.inj isStarted
    rw [if_pos (by simpa using isStart), Node.Reader.number, read]
  all_goals
    next isOther =>
      obtain rfl := (List.cons.inj isOther).1
      exact absurd isStart (by decide)

end NumberText

/-! ## Strings -/

namespace StringPart

/-- A part is read as its piece. -/
theorem run_text
    (part : StringPart)
    (rest : List Char) :
    run (part.text ++ rest) = (run rest).after part.piece := by
  cases part with
  | plain character isPlain =>
      obtain ⟨notControl, notQuote, notBackslash⟩ := isPlain
      rw [text, List.cons_append, List.nil_append, run.eq_def (character :: rest)]
      split
      next isText => cases isText
      next isText => exact absurd (List.cons.inj isText).1 notQuote
      next isText => exact absurd (List.cons.inj isText).1 notBackslash
      next isText => exact absurd (List.cons.inj isText).1 notBackslash
      next isText => exact absurd (List.cons.inj isText).1 notBackslash
      next isText => exact absurd (List.cons.inj isText).1 notBackslash
      next isText =>
        obtain ⟨rfl, rfl⟩ := List.cons.inj isText
        exact if_neg (Nat.not_lt.mpr notControl)
  | short letter character isEscape =>
      have notUnit : letter ≠ 'u' := by
        rintro rfl
        cases isEscape
      rw [text, List.cons_append, List.cons_append, List.nil_append,
        run.eq_def ('\\' :: letter :: rest)]
      split
      next isText => cases isText
      next isText => cases isText
      next isText => exact absurd (List.cons.inj (List.cons.inj isText).2).1 notUnit
      next isText => exact absurd (List.cons.inj (List.cons.inj isText).2).1 notUnit
      next isText =>
        obtain ⟨rfl, rfl⟩ := List.cons.inj (List.cons.inj isText).2
        simp only [isEscape, piece]
      next isText => cases isText
      next notEscape _ isText =>
        obtain ⟨rfl, rfl⟩ := List.cons.inj isText
        exact (notEscape letter rest rfl rfl).elim
  | code first second third fourth unit isUnit =>
      simp only [text, List.cons_append, List.nil_append, run, isUnit, piece]

/-- The letter of the escape with which a character is written, if there is one. -/
def escapeLetter? : Char → Option Char
  | '"' => some '"'
  | '\\' => some '\\'
  | '\x08' => some 'b'
  | '\x0c' => some 'f'
  | '\n' => some 'n'
  | '\r' => some 'r'
  | '\t' => some 't'
  | _ => none

/-- The letter stands for the character. -/
theorem escaped?_of_escapeLetter?
    {character letter : Char}
    (isLetter : escapeLetter? character = some letter) :
    escaped? letter = some character := by
  unfold escapeLetter? at isLetter
  split at isLetter
  all_goals cases isLetter
  all_goals rfl

/-- A character without a letter is neither a quote nor a backslash. -/
theorem ne_of_escapeLetter?_eq_none
    {character : Char}
    (noLetter : escapeLetter? character = none) :
    character ≠ '"' ∧ character ≠ '\\' := by
  constructor
  all_goals
    rintro rfl
    cases noLetter

/-- The codes of control characters are read back. -/
theorem hexUnit?_hexDigit :
    ∀ code < 32, hexUnit? '0' '0' (hexDigit (code / 16)) (hexDigit (code % 16)) =
      some code := by
  decide

/-- The part as which a character is written. -/
def ofChar (character : Char) : StringPart :=
  match isLetter : escapeLetter? character with
  | some letter => .short letter character (escaped?_of_escapeLetter? isLetter)
  | none =>
      if isControl : character.toNat < 32 then
        .code '0' '0' (hexDigit (character.toNat / 16))
          (hexDigit (character.toNat % 16))
          character.toNat (hexUnit?_hexDigit character.toNat isControl)
      else
        .plain character
          ⟨Nat.le_of_not_lt isControl, ne_of_escapeLetter?_eq_none isLetter⟩

/-- A part is written as its character is. -/
theorem text_ofChar
    (character : Char) :
    (ofChar character).text = escape character := by
  unfold ofChar
  split
  case h_1 letter isLetter =>
    unfold escapeLetter? at isLetter
    split at isLetter
    all_goals cases isLetter
    all_goals rfl
  case h_2 isLetter =>
    unfold escapeLetter? at isLetter
    split at isLetter
    case h_8 =>
      by_cases isControl : character.toNat < 32
      · rw [dif_pos isControl]
        unfold escape
        split
        case h_8 => exact (if_pos isControl).symm
        all_goals contradiction
      · rw [dif_neg isControl]
        unfold escape
        split
        case h_8 => exact (if_neg isControl).symm
        all_goals contradiction
    all_goals cases isLetter

/--
Whether a piece of a string is the character, spelled out or given by its code.
-/
def StandsFor (character : Char) (piece : Piece) : Prop :=
  piece = .character character ∨
    piece = .unit character.toNat ∧ character.toNat < 32

/-- A part stands for its character. -/
theorem standsFor_ofChar
    (character : Char) :
    StandsFor character (ofChar character).piece := by
  unfold ofChar
  split
  case h_1 => exact .inl rfl
  case h_2 =>
    split
    case isTrue isControl => exact .inr ⟨rfl, isControl⟩
    case isFalse => exact .inl rfl

end StringPart

/-- Codes of control characters are no surrogates. -/
theorem assemble_control
    {code : Nat}
    (isControl : code < 32)
    (rest : List Piece) :
    assemble none (.unit code :: rest) =
      (assemble none rest).map (Char.ofNat code :: ·) := by
  have notTrailing : isTrailing code = false := by
    simp only [isTrailing]
    grind
  have notLeading : isLeading code = false := by
    simp only [isLeading]
    grind
  cases rest with
  | nil => simp [assemble, notTrailing, notLeading, Except.map]
  | cons next others =>
      cases next <;> simp [assemble, notTrailing, notLeading]

namespace StringText

/-- The parts of a string are read up to its closing quote. -/
theorem run_parts
    (parts : List StringPart)
    (rest : List Char) :
    run (parts.flatMap StringPart.text ++ '"' :: rest) =
      ⟨parts.map StringPart.piece, none, rest⟩ := by
  induction parts with
  | nil => rfl
  | cons part others hypothesis =>
      rw [List.flatMap_cons, List.append_assoc, part.run_text, hypothesis]
      rfl

/-- A string is read as it is spelled. -/
theorem value_text
    (string : StringText)
    (bound : Nat)
    (rest : List Char) :
    value (bound + 1) (string.text ++ rest) = (string.node, rest) := by
  have isText :
      string.text ++ rest =
        '"' :: (string.parts.flatMap StringPart.text ++ '"' :: rest) := by
    simp [text]
  rw [isText, value, skipBlanks_cons (by decide)]
  simp only [run_parts]
  rfl

/-- The spelling with which a text is written. -/
def ofString (content : String) : StringText :=
  ⟨content.toList.map StringPart.ofChar⟩

/-- A text is written as its spelling. -/
theorem text_ofString
    (content : String) :
    (ofString content).text = (quoted content).toList := by
  simp [text, ofString, quoted, List.flatMap_map, StringPart.text_ofChar]

/-- A spelling holds the text that is written with it. -/
theorem content_ofString
    (content : String) :
    (ofString content).content = .ok content := by
  have assembled :
      ∀ characters : List Char,
        assemble none ((characters.map StringPart.ofChar).map StringPart.piece) =
          .ok characters := by
    intro characters
    induction characters with
    | nil => rfl
    | cons character others hypothesis =>
        rw [List.map_cons, List.map_cons]
        rcases StringPart.standsFor_ofChar character with
          isPlain | ⟨isUnit, isControl⟩
        · rw [isPlain, assemble, hypothesis]
          rfl
        · rw [isUnit, assemble_control isControl, hypothesis, Char.ofNat_toNat]
          rfl
  rw [StringText.content, ofString, assembled content.toList]
  exact congrArg Except.ok String.ofList_toList

/-- A string that holds a text stands for it. -/
theorem node_of_content
    {string : StringText}
    {content : String}
    (holds : string.content = .ok content) :
    string.node = quotedNode content := by
  rw [node, holds]
  rfl

end StringText

/-! ## Arrays and objects -/

/-- What separates or ends values ends a number. -/
theorem endsNumber_cons
    {character : Char}
    (isMark : character = ',' ∨ character = ':' ∨ character = ']' ∨ character = '}')
    (rest : List Char) :
    EndsNumber (character :: rest) := by
  intro other isHead
  obtain rfl := Option.some.inj isHead
  rcases isMark with rfl | rfl | rfl | rfl <;> decide

/-- Whether a reader takes a value off the front of a text. -/
def Reads (read : List Char → Node × List Char) (spelling : Spelling) : Prop :=
  ∀ rest, EndsNumber rest → read (spelling.text ++ rest) = (spelling.node, rest)

namespace Spelling

/-- A value starts neither with a blank nor with a bracket or brace that closes. -/
theorem text_start
    (spelling : Spelling) :
    ∃ first others,
      spelling.text = first :: others ∧
        isBlank first = false ∧ first ≠ ']' ∧ first ≠ '}' := by
  cases spelling with
  | null => exact ⟨_, _, rfl, by decide⟩
  | bool value => cases value <;> exact ⟨_, _, rfl, by decide⟩
  | number number =>
      obtain ⟨first, others, isText, isStart⟩ := number.text_start
      refine ⟨first, others, isText, notBlank_of_start isStart, ?_, ?_⟩ <;>
      · rintro rfl
        exact absurd isStart (by decide)
  | string text => exact ⟨_, _, rfl, by decide⟩
  | array items => cases items <;> exact ⟨_, _, rfl, by decide⟩
  | object members => cases members <;> exact ⟨_, _, rfl, by decide⟩

/-- What follows an item is no part of a number. -/
theorem itemsText_ends
    (items : List Spelling)
    (rest : List Char) :
    EndsNumber (itemsText items ++ rest) := by
  cases items <;> exact endsNumber_cons (by simp) _

/-- What follows a member is no part of a number. -/
theorem membersText_ends
    (members : List (StringText × Spelling))
    (rest : List Char) :
    EndsNumber (membersText members ++ rest) := by
  cases members <;> exact endsNumber_cons (by simp) _

section

variable {read : List Char → Node × List Char}

/-- The items of an array after its first one are read as they are spelled. -/
theorem itemsAfter_itemsText
    {items : List Spelling}
    (reads : ∀ item ∈ items, Reads read item)
    {bound : Nat}
    (bounded : items.length < bound)
    (rest : List Char) :
    itemsAfter read bound (itemsText items ++ rest) =
      (itemNodes items, none, rest) := by
  induction items generalizing bound with
  | nil =>
      obtain ⟨bound, rfl⟩ := Nat.exists_eq_add_one.mpr bounded
      rfl
  | cons item others hypothesis =>
      obtain ⟨bound, rfl⟩ :=
        Nat.exists_eq_add_one_of_ne_zero (Nat.ne_zero_of_lt bounded)
      have readItem :=
        reads item List.mem_cons_self (itemsText others ++ rest)
          (itemsText_ends others rest)
      have readOthers :=
        hypothesis (fun item isItem => reads item (List.mem_cons_of_mem _ isItem))
          (Nat.lt_of_succ_lt_succ bounded)
      rw [itemsText, List.cons_append, List.append_assoc, itemsAfter,
        skipBlanks_cons (by decide)]
      simp only [readItem, readOthers, itemNodes]

/-- The items of an array are read as they are spelled. -/
theorem items_text
    {first : Spelling}
    {others : List Spelling}
    (reads : ∀ item ∈ first :: others, Reads read item)
    {bound : Nat}
    (bounded : others.length < bound)
    (rest : List Char) :
    items read bound (first.text ++ (itemsText others ++ rest)) =
      (itemNodes (first :: others), none, rest) := by
  have readFirst :=
    reads first List.mem_cons_self (itemsText others ++ rest)
      (itemsText_ends others rest)
  have readOthers :=
    itemsAfter_itemsText
      (fun item isItem => reads item (List.mem_cons_of_mem _ isItem)) bounded rest
  obtain ⟨start, more, isText, notBlank, notBracket, -⟩ := first.text_start
  rw [isText, List.cons_append] at readFirst
  rw [isText, List.cons_append, items, skipBlanks_cons notBlank]
  split
  next isEmpty => cases isEmpty
  next isClosed => exact absurd (List.cons.inj isClosed).1 notBracket
  next => simp only [readFirst, readOthers, itemNodes]

/-- A member is read as it is spelled. -/
theorem member_text
    {key : StringText}
    {content : Spelling}
    (readsKey : Reads read (.string key))
    (readsContent : Reads read content)
    {rest : List Char}
    (ends : EndsNumber rest) :
    member read (key.text ++ ':' :: (content.text ++ rest)) =
      ((key.node, content.node), rest) := by
  have readKey :=
    readsKey (':' :: (content.text ++ rest)) (endsNumber_cons (by simp) _)
  rw [text, node] at readKey
  simp only [member, readKey, skipBlanks_cons (show isBlank ':' = false by decide),
    readsContent rest ends]

/-- The members of an object after its first one are read as they are spelled. -/
theorem membersAfter_membersText
    (readsKeys : ∀ key, Reads read (.string key))
    {members : List (StringText × Spelling)}
    (reads : ∀ member ∈ members, Reads read member.2)
    {bound : Nat}
    (bounded : members.length < bound)
    (rest : List Char) :
    membersAfter read bound (membersText members ++ rest) =
      (memberNodes members, none, rest) := by
  induction members generalizing bound with
  | nil =>
      obtain ⟨bound, rfl⟩ := Nat.exists_eq_add_one.mpr bounded
      rfl
  | cons first others hypothesis =>
      obtain ⟨bound, rfl⟩ :=
        Nat.exists_eq_add_one_of_ne_zero (Nat.ne_zero_of_lt bounded)
      have readMember :=
        member_text (readsKeys first.1) (reads first List.mem_cons_self)
          (membersText_ends others rest)
      have readOthers :=
        hypothesis (fun item isItem => reads item (List.mem_cons_of_mem _ isItem))
          (Nat.lt_of_succ_lt_succ bounded)
      rw [membersText, List.cons_append, List.append_assoc, List.cons_append,
        List.append_assoc, membersAfter, skipBlanks_cons (by decide)]
      simp only [readMember, readOthers, memberNodes]

/-- The members of an object are read as they are spelled. -/
theorem members_text
    (readsKeys : ∀ key, Reads read (.string key))
    {key : StringText}
    {content : Spelling}
    {others : List (StringText × Spelling)}
    (reads : ∀ member ∈ (key, content) :: others, Reads read member.2)
    {bound : Nat}
    (bounded : others.length < bound)
    (rest : List Char) :
    members read bound
        (key.text ++ ':' :: (content.text ++ (membersText others ++ rest))) =
      (memberNodes ((key, content) :: others), none, rest) := by
  have readFirst :=
    member_text (readsKeys key) (reads (key, content) List.mem_cons_self)
      (membersText_ends others rest)
  have readOthers :=
    membersAfter_membersText readsKeys
      (fun item isItem => reads item (List.mem_cons_of_mem _ isItem)) bounded rest
  rw [StringText.text, List.cons_append] at readFirst
  rw [StringText.text, List.cons_append, members, skipBlanks_cons (by decide)]
  split
  next isEmpty => cases isEmpty
  next isClosed => exact absurd (List.cons.inj isClosed).1 (by decide)
  next => simp only [readFirst, readOthers, memberNodes]

end

/--
Every item is shorter than the text of all items, and there are fewer of them.
-/
theorem length_itemsText
    (items : List Spelling) :
    items.length < (itemsText items).length ∧
      ∀ item ∈ items, item.text.length < (itemsText items).length := by
  induction items with
  | nil => simp [itemsText]
  | cons first others hypothesis =>
      obtain ⟨count, lengths⟩ := hypothesis
      simp only [itemsText, List.length_cons, List.length_append,
        List.forall_mem_cons]
      refine ⟨by omega, by omega, fun item isItem => ?_⟩
      have := lengths item isItem
      omega

/--
Every member is shorter than the text of all members, and there are fewer of them.
-/
theorem length_membersText
    (members : List (StringText × Spelling)) :
    members.length < (membersText members).length ∧
      ∀ member ∈ members, member.2.text.length < (membersText members).length := by
  induction members with
  | nil => simp [membersText]
  | cons first others hypothesis =>
      obtain ⟨count, lengths⟩ := hypothesis
      simp only [membersText, List.length_cons, List.length_append,
        List.forall_mem_cons]
      refine ⟨by omega, by omega, fun item isItem => ?_⟩
      have := lengths item isItem
      omega

/-- A string is read as it is spelled, with any number of steps. -/
theorem reads_string
    (bound : Nat)
    (string : StringText) :
    Reads (value (bound + 1)) (.string string) := by
  intro rest _
  rw [text, node]
  exact string.value_text bound rest

/-- A value is read as it is spelled, given as many steps as it has characters. -/
theorem reads_value
    (spelling : Spelling)
    {bound : Nat}
    (bounded : spelling.text.length ≤ bound) :
    Reads (value (bound + 1)) spelling := by
  induction spelling generalizing bound with
  | null => exact fun rest _ => rfl
  | bool content => cases content <;> exact fun rest _ => rfl
  | number number => exact fun rest ends => number.value_text bound ends
  | string string => exact reads_string bound string
  | array items hypothesis =>
      intro rest _
      cases items with
      | nil => rfl
      | cons first others =>
          obtain ⟨count, lengths⟩ := length_itemsText others
          simp only [text, List.length_cons, List.length_append] at bounded
          obtain ⟨bound, rfl⟩ :=
            Nat.exists_eq_add_one_of_ne_zero (show bound ≠ 0 by omega)
          have reads : ∀ item ∈ first :: others,
            Reads (value (bound + 1)) item := by
            intro item isItem
            apply hypothesis item isItem
            rcases List.mem_cons.mp isItem with rfl | isOther
            · omega
            · have := lengths item isOther
              omega
          have read :=
            items_text reads (show others.length < bound + 1 by omega) rest
          rw [text, List.cons_append, List.append_assoc, value,
            skipBlanks_cons (by decide)]
          simp only [read, node]
  | object members hypothesis =>
      intro rest _
      cases members with
      | nil => rfl
      | cons first others =>
          obtain ⟨key, content⟩ := first
          obtain ⟨count, lengths⟩ := length_membersText others
          simp only [text, List.length_cons, List.length_append] at bounded
          obtain ⟨bound, rfl⟩ :=
            Nat.exists_eq_add_one_of_ne_zero (show bound ≠ 0 by omega)
          have reads :
              ∀ member ∈ (key, content) :: others,
                Reads (value (bound + 1)) member.2 := by
            intro member isMember
            apply hypothesis member isMember
            rcases List.mem_cons.mp isMember with rfl | isOther
            · simp only
              omega
            · have := lengths member isOther
              omega
          have read :=
            members_text (reads_string bound) reads
              (show others.length < bound + 1 by omega) rest
          rw [text, List.cons_append, List.append_assoc, List.cons_append,
            List.append_assoc, value, skipBlanks_cons (by decide)]
          simp only [read, node]

/-- A text that spells a value is taken apart into that value, with nothing left. -/
theorem ofText_text
    (spelling : Spelling) :
    Node.Document.ofText (String.ofList spelling.text) = ⟨spelling.node, true⟩ := by
  have read :=
    spelling.reads_value (Nat.le_refl spelling.text.length) []
      (by simp [EndsNumber])
  rw [List.append_nil] at read
  simp only [Node.Document.ofText, String.toList_ofList, read]
  rfl

end Spelling

end MiniJava.Json
