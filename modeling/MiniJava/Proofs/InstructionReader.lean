import Mathlib.Tactic.IntervalCases
import MiniJava.Jvm.Instr

namespace MiniJava.Jvm

/-!
# Reading instructions back

A reader of assembly sees words. The first word is a mnemonic, a small number
may be joined to it, and operands follow. The class and the name of a member
are separated at the last slash, and a method descriptor begins at the first
parenthesis; it tells how many arguments a call takes and whether it returns a
value. Descriptors are read by their grammar, and a slot has at most 16 bits. An
instruction whose operands are free of the separators is read back as it was
written.
-/

open Code (CallKind)

/-- The words of a text, which whitespace separates. -/
def words (text : String) : List String :=
  ((text.toList.splitOnP Char.isWhitespace).filter (!·.isEmpty)).map String.ofList

/-- The parts of a text before and after the first occurrence of a mark. -/
def cut (mark : Char) (text : List Char) : Option (List Char × List Char) :=
  match text.dropWhile (· ≠ mark) with
  | [] => none
  | _ :: rest => some (text.takeWhile (· ≠ mark), rest)

/-- The class and the name of a member, which the last slash separates. -/
def member? (text : List Char) : Option (String × String) :=
  match cut '/' text.reverse with
  | some (name, owner) =>
      if name.isEmpty || owner.isEmpty then
        none
      else
        some (String.ofList owner.reverse, String.ofList name.reverse)
  | none => none

namespace Descriptor

/-- What may come next in the parameters of a method descriptor. -/
inductive Expected where
  /-- A parameter, or the end. -/
  | parameter
  /-- The items of an array. -/
  | item
  /-- More of the path of a class. -/
  | path
  deriving DecidableEq

/-- Whether a letter stands for a type without references. -/
def isBaseType (letter : Char) : Bool :=
  "BCDFIJSZ".toList.contains letter

/-- One more parameter than has been counted. -/
def oneMore (counted : Nat × List Char) : Nat × List Char :=
  (counted.1 + 1, counted.2)

/--
How many parameters there are up to a closing parenthesis, and what follows it.
-/
def parameters : Expected → List Char → Option (Nat × List Char)
  | _, [] => none
  | .path, letter :: rest =>
      if letter = ';' then
        (parameters .parameter rest).map oneMore
      else
        parameters .path rest
  | expected, letter :: rest =>
      if letter = '[' then
        parameters .item rest
      else if letter = 'L' then
        if rest.head? = some ';' then none else parameters .path rest
      else if isBaseType letter then
        (parameters .parameter rest).map oneMore
      else if letter = ')' ∧ expected = .parameter then
        some (0, rest)
      else
        none

/-- Whether a text is the descriptor of a field: it could be one parameter. -/
def isField (text : List Char) : Bool :=
  parameters .parameter (text ++ [')']) = some (1, [])

/-- Whether a text is the descriptor of a result. -/
def isResult (text : List Char) : Bool :=
  text = ['V'] || isField text

/-- How many arguments a method takes and whether it returns a value. -/
def shape? : List Char → Option (Nat × Bool)
  | '(' :: rest =>
      match parameters .parameter rest with
      | some (count, result) =>
          if isResult result then some (count, result != ['V']) else none
      | none => none
  | _ => none

end Descriptor

/-- The kind of call that a mnemonic makes. -/
def callKind? : String → Option CallKind
  | "invokestatic" => some .static
  | "invokevirtual" => some .virtual
  | "invokespecial" => some .special
  | _ => none

/-- The instruction of a mnemonic that takes a slot. -/
def slotInstr? : String → Option (Nat → Instr)
  | "iload" => some (.load .int)
  | "aload" => some (.load .reference)
  | "istore" => some (.store .int)
  | "astore" => some (.store .reference)
  | _ => none

/-- The instruction of a mnemonic that takes nothing. -/
def plainInstr? : String → Option Instr
  | "iadd" => some (.arith .add)
  | "isub" => some (.arith .sub)
  | "imul" => some (.arith .mul)
  | "idiv" => some (.arith .div)
  | "iand" => some (.arith .and)
  | "ior" => some (.arith .or)
  | "pop" => some .pop
  | "ireturn" => some (.ret (some .int))
  | "areturn" => some (.ret (some .reference))
  | "return" => some (.ret none)
  | _ => none

/-- The greatest slot that an instruction can name. -/
def slotBound : Nat := 65535

/-- A slot that an instruction can name. -/
def readSlot (digits : String) : Option Nat :=
  match Decimal.nat? digits.toList with
  | some slot => if slot ≤ slotBound then some slot else none
  | none => none

/-- A constant within bounds. -/
def constant? (low high : Int) (digits : String) : Option Instr :=
  match Decimal.int? digits with
  | some number =>
      if low ≤ number ∧ number ≤ high then some (.const (Int32.ofInt number))
        else none
  | none => none

/-- Reads a mnemonic to which a number is joined. -/
def readJoined (mnemonic number : String) : Option Instr :=
  match slotInstr? mnemonic, Decimal.nat? number.toList with
  | some instr, some slot => if slot ≤ 3 then some (instr slot) else none
  | _, _ =>
      if mnemonic = "iconst" then
        if number = "m1" then some (.const (-1)) else constant? 0 5 number
      else
        none

/--
Reads a line of one word: a label, a mnemonic with a number, or a mnemonic alone.
-/
def readWord (word : String) : Option Instr :=
  -- The colon comes first, since labels have underscores too.
  if word.toList.getLast? = some ':' then
    some (.label (String.ofList word.toList.dropLast))
  else
    match cut '_' word.toList with
    | some (mnemonic, number) =>
        readJoined (String.ofList mnemonic) (String.ofList number)
    | none => plainInstr? word

/-- Reads the operand of a call. -/
def readCall (kind : CallKind) (operand : String) : Option Instr :=
  match cut '(' operand.toList with
  | some (path, rest) =>
      match member? path, Descriptor.shape? ('(' :: rest) with
      | some (owner, name), some (count, returnsValue) =>
          some
            (.invoke kind owner name (String.ofList ('(' :: rest)) count
              returnsValue)
      | _, _ => none
  | none => none

/-- Reads the operand of a mnemonic that makes no call and takes no slot. -/
def readOther (mnemonic operand : String) : Option Instr :=
  match mnemonic with
  | "bipush" => constant? (-128) 127 operand
  | "sipush" => constant? (-32768) 32767 operand
  | "ldc" => constant? (-2147483648) 2147483647 operand
  | "if_icmplt" => some (.jumpIfLess operand)
  | "goto" => some (.jump operand)
  | "new" => some (.newObject operand)
  | "anewarray" => some (.newReferences operand)
  | "newarray" =>
      match operand with
      | "int" => some (.newPrimitives .int)
      | "boolean" => some (.newPrimitives .boolean)
      | _ => none
  | _ => none

/-- Reads a mnemonic with one operand. -/
def readOperand (mnemonic operand : String) : Option Instr :=
  match callKind? mnemonic, slotInstr? mnemonic with
  | some kind, _ => readCall kind operand
  | none, some instr => (readSlot operand).map instr
  | none, none => readOther mnemonic operand

/-- Reads a mnemonic with a field and its descriptor. -/
def readField (mnemonic field descriptor : String) : Option Instr :=
  if Descriptor.isField descriptor.toList then
    match mnemonic, member? field.toList with
    | "getfield", some (owner, name) => some (.getField owner name descriptor)
    | "putfield", some (owner, name) => some (.putField owner name descriptor)
    | _, _ => none
  else
    none

/-- The instruction in the words of a line. -/
def readWords : List String → Option Instr
  | [word] => readWord word
  | [mnemonic, operand] => readOperand mnemonic operand
  | [mnemonic, field, descriptor] => readField mnemonic field descriptor
  | _ => none

/-- The instruction in a line of assembly. -/
def readLine (line : String) : Option Instr :=
  readWords (words line)

/--
The change of the stack's depth by a mnemonic without a call, up to an underscore.
-/
def mnemonicEffect? : String → Option Int32
  | "iload" | "aload" | "iconst" | "bipush" | "sipush" | "ldc" | "new" => some 1
  | "istore" | "astore" | "pop" | "ireturn" | "areturn" => some (-1)
  | "iadd" | "isub" | "imul" | "idiv" | "iand" | "ior" => some (-1)
  | "return" | "goto" | "getfield" | "newarray" | "anewarray" => some 0
  | "putfield" | "if" => some (-2)
  | _ => none

/-- The change of the stack's depth by a call with the operand. -/
def operandEffect? (kind : CallKind) (operand : String) : Option Int32 :=
  (Descriptor.shape? (operand.toList.dropWhile (· ≠ '('))).map fun shape =>
    (if shape.2 then 1 else 0) -
      (Int32.ofNat shape.1 + if kind = .static then 0 else 1)

/-- The change of the stack's depth by a line with the words. -/
def wordsEffect? : List String → Option Int32
  | [] => none
  | mnemonic :: operands =>
      if mnemonic.toList.getLast? = some ':' then
        some 0
      else
        match callKind? mnemonic, operands with
        | some kind, [operand] => operandEffect? kind operand
        | some _, _ => none
        | none, _ =>
            mnemonicEffect? (String.ofList (mnemonic.toList.takeWhile (· ≠ '_')))

/-- The change of the stack's depth by a line of assembly, from its words. -/
def lineEffect? (line : String) : Option Int32 :=
  wordsEffect? (words line)

/-- The ways to push a constant. -/
inductive Push where
  | short
  | byte
  | halfWord
  | word
  deriving DecidableEq

namespace Push

/-- The least constant that can be pushed. -/
def low : Push → Int
  | .short => -1
  | .byte => -128
  | .halfWord => -32768
  | .word => -2147483648

/-- The greatest constant that can be pushed. -/
def high : Push → Int
  | .short => 5
  | .byte => 127
  | .halfWord => 32767
  | .word => 2147483647

/-- How a constant is pushed in each of the ways. -/
def text (number : Int) : Push → String
  | .short => if number = -1 then "iconst_m1" else "iconst_" ++ Decimal.ofInt number
  | .byte => "bipush " ++ Decimal.ofInt number
  | .halfWord => "sipush " ++ Decimal.ofInt number
  | .word => "ldc " ++ Decimal.ofInt number

end Push

/-- Whether a text has no whitespace. -/
def isSolid (text : String) : Bool :=
  text.toList.all fun character => !character.isWhitespace

/-- A text that is one word. -/
structure IsWord (text : String) : Prop where
  nonempty : text ≠ ""
  solid : isSolid text = true

instance (text : String) : Decidable (IsWord text) :=
  decidable_of_iff (text ≠ "" ∧ isSolid text = true)
    ⟨fun both => ⟨both.1, both.2⟩, fun isWord => ⟨isWord.nonempty, isWord.solid⟩⟩

/-- A class and a name that a slash can separate. -/
structure IsMember (owner name : String) : Prop where
  ownerWord : IsWord owner
  nameWord : IsWord name
  noSlash : '/' ∉ name.toList

/-- The operands of an instruction are free of what separates them. -/
def Instr.Separable : Instr → Prop
  | .jumpIfLess target => IsWord target
  | .jump target => IsWord target
  | .label name => IsWord name
  | .newObject path => IsWord path
  | .newReferences path => IsWord path
  | .getField owner name descriptor =>
      IsMember owner name ∧
        IsWord descriptor ∧ Descriptor.isField descriptor.toList = true
  | .putField owner name descriptor =>
      IsMember owner name ∧
        IsWord descriptor ∧ Descriptor.isField descriptor.toList = true
  | .invoke _ owner name descriptor arguments returnsValue =>
      IsMember owner name ∧
        '(' ∉ owner.toList ∧
          '(' ∉ name.toList ∧
            IsWord descriptor ∧
              Descriptor.shape? descriptor.toList = some (arguments, returnsValue)
  | _ => True

section

variable {first second : String}

/-- A text is solid if none of its characters is whitespace. -/
theorem isSolid_iff :
    isSolid first = true ↔ ∀ character ∈ first.toList,
      character.isWhitespace = false := by
  simp [isSolid]

/-- A blank separates the words on both of its sides. -/
theorem words_append_blank
    (first second : String) :
    words (first ++ " " ++ second) = words first ++ words second := by
  have isList :
      (first ++ " " ++ second).toList = first.toList ++ ' ' :: second.toList := by
    simp
  rw [words, isList, List.splitOnP_append_cons _ _ (by decide), List.filter_append,
    List.map_append]
  rfl

/-- A word is the only one of its words. -/
theorem IsWord.words
    (isWord : IsWord first) :
    words first = [first] := by
  have nonempty : first.toList.isEmpty = false := by
    simpa using isWord.nonempty
  rw [Jvm.words, List.splitOnP_eq_singleton (isSolid_iff.mp isWord.solid)]
  simp [nonempty]

/-- Two words with a blank between them are two words. -/
theorem words_two
    (isFirst : IsWord first)
    (isSecond : IsWord second) :
    words (first ++ " " ++ second) = [first, second] := by
  rw [words_append_blank, isFirst.words, isSecond.words]
  rfl

/-- Solid text behind a word makes a longer word. -/
theorem IsWord.append
    (isFirst : IsWord first)
    (solid : isSolid second = true) :
    IsWord (first ++ second) := by
  refine
    ⟨fun isEmpty => isFirst.nonempty (String.append_eq_empty_iff.mp isEmpty).1, ?_⟩
  rw [isSolid, String.toList_append, List.all_append, Bool.and_eq_true]
  exact ⟨isFirst.solid, solid⟩

end

/--
What stands before the first mark is what comes before a mark in a text without it.
-/
theorem cut_append
    {mark : Char}
    {first : List Char}
    (second : List Char)
    (unmarked : mark ∉ first) :
    cut mark (first ++ mark :: second) = some (first, second) := by
  have passes : ∀ character ∈ first, decide (character ≠ mark) = true := by
    intro character member
    rw [decide_eq_true_eq]
    rintro rfl
    exact unmarked member
  have taken : (first ++ mark :: second).takeWhile (· ≠ mark) = first := by
    rw [List.takeWhile_append_of_pos passes]
    simp
  have dropped :
      (first ++ mark :: second).dropWhile (· ≠ mark) = mark :: second := by
    rw [List.dropWhile_append_of_pos passes]
    simp
  rw [cut, dropped, taken]

/-- The class and the name of a member are read back. -/
theorem IsMember.member?
    {owner name : String}
    (isMember : IsMember owner name) :
    member? (owner ++ "/" ++ name).toList = some (owner, name) := by
  have isList :
      (owner ++ "/" ++ name).toList.reverse =
        name.toList.reverse ++ '/' :: owner.toList.reverse := by
    simp
  have isCut :
      cut '/' (owner ++ "/" ++ name).toList.reverse =
        some (name.toList.reverse, owner.toList.reverse) := by
    rw [isList]
    exact cut_append _ fun member => isMember.noSlash (List.mem_reverse.mp member)
  have hasName : name.toList ≠ [] := by
    simpa using isMember.nameWord.nonempty
  have hasOwner : owner.toList ≠ [] := by
    simpa using isMember.ownerWord.nonempty
  rw [Jvm.member?, isCut]
  simp [hasName, hasOwner]

/-- The path of a member is a word. -/
theorem IsMember.isWord
    {owner name : String}
    (isMember : IsMember owner name) :
    IsWord (owner ++ "/" ++ name) :=
  (isMember.ownerWord.append (by decide)).append isMember.nameWord.solid

section

variable (value : Nat)

/-- The characters of a number are its digits. -/
theorem toList_ofNat :
    (Decimal.ofNat value).toList = Nat.toDigits 10 value :=
  Nat.toList_repr

/-- A number is written with digits only. -/
theorem isDigit_ofNat :
    ∀ digit ∈ (Decimal.ofNat value).toList, digit.isDigit = true := by
  rw [toList_ofNat]
  exact fun _ member => Nat.isDigit_of_mem_toDigits (by decide) (by decide) member

/-- A number is read back. -/
theorem nat?_ofNat :
    Decimal.nat? (Decimal.ofNat value).toList = some value := by
  have areDigits : (Decimal.ofNat value).toList.all Char.isDigit = true :=
    List.all_eq_true.mpr (isDigit_ofNat value)
  have nonempty : (Decimal.ofNat value).toList.isEmpty = false := by
    rw [toList_ofNat]
    simp [Nat.toDigits_ne_nil]
  have isValue : Decimal.valueOfDigits (Decimal.ofNat value).toList = value := by
    rw [toList_ofNat]
    exact Nat.ofDigitChars_ten_toDigits
  simp only [Decimal.nat?, areDigits, nonempty, isValue, Bool.not_false,
    Bool.and_self, if_true]

/-- A number is a word. -/
theorem isWord_ofNat :
    IsWord (Decimal.ofNat value) := by
  constructor
  · intro isEmpty
    have found := nat?_ofNat value
    rw [isEmpty] at found
    cases found
  · refine isSolid_iff.mpr fun digit member => ?_
    have isDigit := isDigit_ofNat value digit member
    rw [Bool.eq_false_iff]
    intro isBlank
    simp only [Char.isWhitespace, Bool.or_eq_true, decide_eq_true_eq] at isBlank
    rcases isBlank with ((rfl | rfl) | rfl) | rfl
    all_goals cases isDigit

end

/-- A number with a sign is read back. -/
theorem int?_ofInt
    (value : Int) :
    Decimal.int? (Decimal.ofInt value) = some value := by
  cases value with
  | ofNat magnitude =>
      rw [Decimal.ofInt, Decimal.int?]
      split
      case h_1 digits isList =>
        cases isDigit_ofNat magnitude '-' (by simp [isList])
      case h_2 digits isList =>
        cases isDigit_ofNat magnitude '+' (by simp [isList])
      case h_3 =>
        rw [nat?_ofNat]
        rfl
  | negSucc predecessor =>
      have isList :
          (Decimal.ofInt (.negSucc predecessor)).toList =
            '-' :: (Decimal.ofNat (predecessor + 1)).toList := by
        simp [Decimal.ofInt]
      simp only [Decimal.int?, isList, nat?_ofNat]
      rfl

/-- A number with a sign is a word. -/
theorem isWord_ofInt
    (value : Int) :
    IsWord (Decimal.ofInt value) := by
  cases value with
  | ofNat magnitude => exact isWord_ofNat magnitude
  | negSucc predecessor =>
      have sign : IsWord "-" := by decide
      exact sign.append (isWord_ofNat _).solid

/-- A constant within the bounds is read as it is. -/
theorem constant?_ofInt
    {low high number : Int}
    (within : low ≤ number ∧ number ≤ high) :
    constant? low high (Decimal.ofInt number) =
      some (.const (Int32.ofInt number)) := by
  rw [constant?, int?_ofInt]
  exact if_pos within

/-- Words that are read as an instruction and have its effect on the stack. -/
structure Spells (list : List String) (instr : Instr) : Prop where
  read : readWords list = some instr
  effect : wordsEffect? list = some instr.stackEffect

/-- A mnemonic and its operand spell what they are read as. -/
theorem spells_operand
    {mnemonic operand text : String}
    {instr : Instr}
    (isMnemonic : IsWord mnemonic)
    (isOperand : IsWord operand)
    (isText : text = mnemonic ++ " " ++ operand)
    (read : readOperand mnemonic operand = some instr)
    (effect : wordsEffect? [mnemonic, operand] = some instr.stackEffect) :
    Spells (words text) instr := by
  rw [isText, words_two isMnemonic isOperand]
  exact ⟨read, effect⟩

namespace Push

/-- Each way to push a constant can push all constants within its bounds. -/
theorem spells
    (push : Push)
    {number : Int}
    (within : push.low ≤ number ∧ number ≤ push.high) :
    Spells (words (push.text number)) (.const (Int32.ofInt number)) := by
  have isWord := isWord_ofInt number
  cases push with
  | short =>
      obtain ⟨above, below⟩ := within
      simp only [low, high] at above below
      interval_cases number
      all_goals exact ⟨by decide, by decide⟩
  | byte =>
      have isPushed : IsWord "bipush" := by decide
      exact spells_operand isPushed isWord rfl (constant?_ofInt within) rfl
  | halfWord =>
      have isPushed : IsWord "sipush" := by decide
      exact spells_operand isPushed isWord rfl (constant?_ofInt within) rfl
  | word =>
      have isPushed : IsWord "ldc" := by decide
      exact spells_operand isPushed isWord rfl (constant?_ofInt within) rfl

/-- Every constant is pushed in a way that has it within its bounds. -/
theorem exists_constText_eq
    (value : Int32) :
    ∃ push : Push,
      (push.low ≤ value.toInt ∧ value.toInt ≤ push.high) ∧
        Instr.constText value = push.text value.toInt := by
  have above := value.le_toInt
  have below := value.toInt_lt
  simp only [Instr.constText]
  split
  case isTrue isMinusOne =>
    refine ⟨.short, ?_, by simp [text, isMinusOne]⟩
    simp only [low, high]
    omega
  case isFalse notMinusOne =>
    split
    case isTrue small =>
      refine ⟨.short, ?_, by simp [text, notMinusOne]⟩
      simp only [low, high]
      omega
    case isFalse =>
      split
      case isTrue fits => exact ⟨.byte, fits, rfl⟩
      case isFalse =>
        split
        case isTrue fits => exact ⟨.halfWord, fits, rfl⟩
        case isFalse =>
          refine ⟨.word, ?_, rfl⟩
          simp only [low, high]
          omega

end Push

/-- A slot is read in both of its forms. -/
theorem slot_spells
    {mnemonic : String}
    {instr : Nat → Instr}
    (isMnemonic : slotInstr? mnemonic = some instr)
    {slot : Nat}
    (inBound : slot ≤ slotBound) :
    Spells (words (mnemonic ++ Instr.slotText slot)) (instr slot) := by
  unfold slotInstr? at isMnemonic
  split at isMnemonic
  all_goals cases isMnemonic
  all_goals
    by_cases isShort : slot ≤ 3
    · interval_cases slot
      all_goals exact ⟨by decide, by decide⟩
    · have isText : Instr.slotText slot = " " ++ Decimal.ofNat slot := by
        simp [Instr.slotText, isShort]
      rw [isText, ← String.append_assoc]
      refine spells_operand (by decide) (isWord_ofNat slot) rfl ?_ rfl
      simp [readOperand, callKind?, slotInstr?, readSlot, nat?_ofNat, inBound]

/-- A label is read from its name and a colon. -/
theorem label_spells
    {name : String}
    (isWord : IsWord name) :
    Spells (words (name ++ ":")) (.label name) := by
  have isLast : (name ++ ":").toList.getLast? = some ':' := by
    simp
  rw [(isWord.append (by decide)).words]
  constructor
  · simp [readWords, readWord]
  · simp only [wordsEffect?, isLast, if_true]
    rfl

namespace Descriptor

/-- What has the shape of a method begins with a parenthesis. -/
theorem exists_of_shape?
    {descriptor : List Char}
    {shape : Nat × Bool}
    (isShape : shape? descriptor = some shape) :
    ∃ rest, descriptor = '(' :: rest := by
  unfold shape? at isShape
  split at isShape
  case h_1 rest => exact ⟨rest, rfl⟩
  case h_2 => cases isShape

end Descriptor

/-- A call is read from its mnemonic, its member and its descriptor. -/
theorem call_spells
    (kind : CallKind)
    {owner name descriptor : String}
    {arguments : Nat}
    {returnsValue : Bool}
    (isMember : IsMember owner name)
    (ownerOpen : '(' ∉ owner.toList)
    (nameOpen : '(' ∉ name.toList)
    (isWord : IsWord descriptor)
    (isShape :
      Descriptor.shape? descriptor.toList = some (arguments, returnsValue)) :
    Spells (words (kind.mnemonic ++ " " ++ owner ++ "/" ++ name ++ descriptor))
      (.invoke kind owner name descriptor arguments returnsValue) := by
  obtain ⟨rest, isList⟩ := Descriptor.exists_of_shape? isShape
  have isDescriptor : String.ofList ('(' :: rest) = descriptor := by
    rw [← isList, String.ofList_toList]
  have pathOpen : '(' ∉ (owner ++ "/" ++ name).toList := by
    simp [ownerOpen, nameOpen]
  have isOperand :
      (owner ++ "/" ++ name ++ descriptor).toList =
        (owner ++ "/" ++ name).toList ++ '(' :: rest := by
    rw [String.toList_append, isList]
  rw [isList] at isShape
  have isMnemonic : IsWord kind.mnemonic := by
    cases kind <;> decide
  refine spells_operand isMnemonic (isMember.isWord.append isWord.solid) ?_ ?_ ?_
  · simp only [String.append_assoc]
  · have isRead :
        readCall kind (owner ++ "/" ++ name ++ descriptor) =
          some (.invoke kind owner name descriptor arguments returnsValue) := by
      rw [readCall, isOperand, cut_append rest pathOpen]
      simp only [isMember.member?, isShape, isDescriptor]
    cases kind <;> exact isRead
  · have passes :
        ∀ character ∈ (owner ++ "/" ++ name).toList,
          decide (character ≠ '(') = true := by
      intro character member
      rw [decide_eq_true_eq]
      rintro rfl
      exact pathOpen member
    have isEffect :
        operandEffect? kind (owner ++ "/" ++ name ++ descriptor) =
          some
            (Instr.invoke kind owner name descriptor arguments
              returnsValue).stackEffect := by
      rw [operandEffect?, isOperand, List.dropWhile_append_of_pos passes]
      simp [isShape, Instr.stackEffect, Instr.callEffect]
    cases kind <;> exact isEffect

/-- A use of a field is read from its mnemonic, its member and its descriptor. -/
theorem field_spells
    {mnemonic owner name descriptor text : String}
    {instr : Instr}
    (isMnemonic : IsWord mnemonic)
    (isMember : IsMember owner name)
    (isDescriptor : IsWord descriptor)
    (isText : text = mnemonic ++ " " ++ owner ++ "/" ++ name ++ " " ++ descriptor)
    (read : readField mnemonic (owner ++ "/" ++ name) descriptor = some instr)
    (effect :
      wordsEffect? [mnemonic, owner ++ "/" ++ name, descriptor] =
        some instr.stackEffect) :
    Spells (words text) instr := by
  have isField :
      mnemonic ++ " " ++ owner ++ "/" ++ name =
        mnemonic ++ " " ++ (owner ++ "/" ++ name) := by
    simp only [String.append_assoc]
  rw [isText, isField, words_append_blank, words_two isMnemonic isMember.isWord,
    isDescriptor.words]
  exact ⟨read, effect⟩

/--
An instruction is read back from its words, and they tell its effect on the stack.
-/
theorem Instr.Separable.spells
    {instr : Instr}
    (separable : instr.Separable)
    (inBound : ∀ slot, instr.slot? = some slot → slot ≤ slotBound) :
    Spells (words instr.text) instr := by
  cases instr with
  | load kind slot => cases kind <;> exact slot_spells rfl (inBound slot rfl)
  | store kind slot => cases kind <;> exact slot_spells rfl (inBound slot rfl)
  | const value =>
      obtain ⟨push, within, isText⟩ := Push.exists_constText_eq value
      have pushes := push.spells within
      rw [Int32.ofInt_toInt, ← isText] at pushes
      exact pushes
  | arith operation => cases operation <;> exact ⟨by decide, by decide⟩
  | jumpIfLess target =>
      have isMnemonic : IsWord "if_icmplt" := by decide
      exact spells_operand isMnemonic separable rfl rfl rfl
  | jump target =>
      have isMnemonic : IsWord "goto" := by decide
      exact spells_operand isMnemonic separable rfl rfl rfl
  | label name => exact label_spells separable
  | newObject path =>
      have isMnemonic : IsWord "new" := by decide
      exact spells_operand isMnemonic separable rfl rfl rfl
  | newPrimitives item => cases item <;> exact ⟨by decide, by decide⟩
  | newReferences path =>
      have isMnemonic : IsWord "anewarray" := by decide
      exact spells_operand isMnemonic separable rfl rfl rfl
  | getField owner name descriptor =>
      obtain ⟨isMember, isDescriptor, isField⟩ := separable
      have isMnemonic : IsWord "getfield" := by decide
      refine field_spells isMnemonic isMember isDescriptor rfl ?_ rfl
      simp only [readField, isField, isMember.member?, if_true]
  | putField owner name descriptor =>
      obtain ⟨isMember, isDescriptor, isField⟩ := separable
      have isMnemonic : IsWord "putfield" := by decide
      refine field_spells isMnemonic isMember isDescriptor rfl ?_ rfl
      simp only [readField, isField, isMember.member?, if_true]
  | invoke kind owner name descriptor arguments returnsValue =>
      obtain ⟨isMember, ownerOpen, nameOpen, isDescriptor, isShape⟩ := separable
      exact call_spells kind isMember ownerOpen nameOpen isDescriptor isShape
  | pop => exact ⟨by decide, by decide⟩
  | ret kind =>
      rcases kind with _ | (_ | _)
      all_goals exact ⟨by decide, by decide⟩

end MiniJava.Jvm
