import MiniJava.Json.Node

namespace MiniJava.Node

/-!
# Taking JSON text apart

A recursive descent over the characters of a text. Each step returns what it
found together with the text that follows, and the loops are bounded by the
length of the text: every step consumes at least one character. Where the text
goes wrong there is no telling what follows, so a broken part is given no text
after it.
-/

namespace Reader

/-- The four characters that may stand between tokens. -/
def isBlank (character : Char) : Bool :=
  character = ' ' || character = '\n' || character = '\t' || character = '\r'

/-- The text from its first character that is not blank. -/
def skipBlanks (text : List Char) : List Char :=
  text.dropWhile isBlank

/-- The value of a hexadecimal digit of either case. -/
def hexValue? (digit : Char) : Option Nat :=
  if digit.isDigit then
    some (digit.toNat - '0'.toNat)
  else if 'a' ≤ digit && digit ≤ 'f' then
    some (digit.toNat - 'a'.toNat + 10)
  else if 'A' ≤ digit && digit ≤ 'F' then
    some (digit.toNat - 'A'.toNat + 10)
  else
    none

/-- The value of four hexadecimal digits. -/
def hexUnit? (first second third fourth : Char) : Option Nat := do
  let a ← hexValue? first
  let b ← hexValue? second
  let c ← hexValue? third
  let d ← hexValue? fourth
  return ((a * 16 + b) * 16 + c) * 16 + d

/-- A part of a string literal: a character, or a unit given by its code. -/
inductive Piece where
  | character (value : Char)
  | unit (code : Nat)
  deriving DecidableEq

/-- The character of a one-letter escape. -/
def escaped? : Char → Option Char
  | '"' => some '"'
  | '\\' => some '\\'
  | '/' => some '/'
  | 'b' => some '\x08'
  | 'f' => some '\x0c'
  | 'n' => some '\n'
  | 'r' => some '\r'
  | 't' => some '\t'
  | _ => none

/-- The pieces of a string literal, what cuts it short, and the text after it. -/
structure Run where
  pieces : List Piece
  fault? : Option Fault
  rest : List Char
  deriving DecidableEq

/-- A run that goes wrong at once. -/
def Run.broken (fault : Fault) : Run :=
  ⟨[], some fault, []⟩

/-- Puts a piece in front of a run. -/
def Run.after (piece : Piece) (run : Run) : Run :=
  { run with pieces := piece :: run.pieces }

/--
The run of a string literal, from after its opening quote to its closing one.

An escape by code needs four digits. With fewer than four bytes left it counts
as cut short, and otherwise as wrong.
-/
def run : List Char → Run
  | [] => .broken .truncated
  | '"' :: text => ⟨[], none, text⟩
  | '\\' :: 'u' :: a :: b :: c :: d :: text =>
      match hexUnit? a b c d with
      | some code => (run text).after (.unit code)
      | none => .broken .malformed
  | '\\' :: 'u' :: text =>
      if (String.ofList text).utf8ByteSize < 4 then
        .broken .truncated
      else
        .broken .malformed
  | '\\' :: letter :: text =>
      match escaped? letter with
      | some value => (run text).after (.character value)
      | none => .broken .malformed
  | ['\\'] => .broken .truncated
  | value :: text =>
      if value.toNat < 32 then
        .broken .malformed
      else
        (run text).after (.character value)

/-- Whether a unit is the first half of a surrogate pair. -/
def isLeading (code : Nat) : Bool :=
  decide (0xD800 ≤ code) && decide (code < 0xDC00)

/-- Whether a unit is the second half of a surrogate pair. -/
def isTrailing (code : Nat) : Bool :=
  decide (0xDC00 ≤ code) && decide (code < 0xE000)

/--
The characters that the pieces stand for.

Surrogates have to be paired. One that is not is wrong where it stands, unless
the literal is cut short right after it: then that comes first.
-/
def assemble (fault? : Option Fault) : List Piece → Except Fault (List Char)
  | [] =>
      match fault? with
      | some fault => .error fault
      | none => .ok []
  | .character value :: rest => (assemble fault? rest).map (value :: ·)
  | [.unit code] =>
      if isTrailing code then
        .error .malformed
      else if isLeading code then
        .error (fault?.getD .malformed)
      else
        match fault? with
        | some fault => .error fault
        | none => .ok [Char.ofNat code]
  | .unit code :: .character value :: rest =>
      if isTrailing code || isLeading code then
        .error .malformed
      else
        (assemble fault? (.character value :: rest)).map (Char.ofNat code :: ·)
  | .unit code :: .unit next :: rest =>
      if isTrailing code then
        .error .malformed
      else if isLeading code then
        if isTrailing next then
          let value := 0x10000 + (code - 0xD800) * 0x400 + (next - 0xDC00)
          (assemble fault? rest).map (Char.ofNat value :: ·)
        else
          .error .malformed
      else
        (assemble fault? (.unit next :: rest)).map (Char.ofNat code :: ·)

/-- What a run holds. -/
def Run.quoted (run : Run) : Quoted where
  text := (assemble run.fault? run.pieces).map String.ofList
  fault? := run.fault?

/-- A nonempty run of digits. -/
def digits (text : List Char) : Except Fault (List Char × List Char) :=
  match text with
  | [] => .error .truncated
  | first :: _ =>
      if first.isDigit then
        .ok (text.takeWhile Char.isDigit, text.dropWhile Char.isDigit)
      else
        .error .malformed

/-- The integer part of a number: zero, or digits that do not start with it. -/
def wholePart : List Char → Except Fault (List Char × List Char)
  | '0' :: text =>
      match text with
      | next :: _ => if next.isDigit then .error .malformed else .ok (['0'], text)
      | [] => .ok (['0'], [])
  | text => digits text

/-- The digits after a decimal point, if there is one. -/
def fractionPart? : List Char → Except Fault (Option (List Char) × List Char)
  | '.' :: text => (digits text).map fun (run, rest) => (some run, rest)
  | text => .ok (none, text)

/-- The signed digits of an exponent, after its letter. -/
def exponentDigits : List Char → Except Fault (Int × List Char)
  | '-' :: text =>
      (digits text).map fun (run, rest) =>
        (-(Decimal.valueOfDigits run : Int), rest)
  | '+' :: text =>
      (digits text).map fun (run, rest) => ((Decimal.valueOfDigits run : Int), rest)
  | text =>
      (digits text).map fun (run, rest) => ((Decimal.valueOfDigits run : Int), rest)

/-- The exponent of a number, if there is one. -/
def exponentPart? : List Char → Except Fault (Option Int × List Char)
  | 'e' :: text => (exponentDigits text).map fun (value, rest) => (some value, rest)
  | 'E' :: text => (exponentDigits text).map fun (value, rest) => (some value, rest)
  | text => .ok (none, text)

/-- A number after its sign. -/
def unsigned
    (negative : Bool)
    (text : List Char) : Except Fault (Numeral × List Char) := do
  let (whole, text) ← wholePart text
  let (fraction?, text) ← fractionPart? text
  let (exponent?, text) ← exponentPart? text
  return ({ negative, whole, fraction?, exponent? }, text)

/-- A number with its sign. -/
def numeral : List Char → Except Fault (Numeral × List Char)
  | '-' :: text => unsigned true text
  | text => unsigned false text

/-- A number. -/
def number (text : List Char) : Node × List Char :=
  match numeral text with
  | .ok (content, rest) => (.number content.value, rest)
  | .error fault => (.badNumber fault, [])

/-- A word, by the letters after its first one. -/
def word (meaning : Node) : (letters text : List Char) → Node × List Char
  | [], text => (meaning, text)
  | _ :: _, [] => (.broken .truncated, [])
  | expected :: more, found :: text =>
      if expected = found then word meaning more text else (.broken .malformed, [])

/--
The items of an array after its first one, what is wrong after them,
and the text after it.
-/
def itemsAfter
    (item : List Char → Node × List Char) :
    Nat → List Char → List Node × Option Fault × List Char
  | 0, _ => ([], some .truncated, [])
  | bound + 1, text =>
      match skipBlanks text with
      | [] => ([], some .truncated, [])
      | ']' :: rest => ([], none, rest)
      | ',' :: rest =>
          let (first, rest) := item rest
          let (others, fault?, rest) := itemsAfter item bound rest
          (first :: others, fault?, rest)
      | _ => ([], some .malformed, [])

/-- The items of an array after its opening bracket. -/
def items
    (item : List Char → Node × List Char)
    (bound : Nat)
    (text : List Char) :
    List Node × Option Fault × List Char :=
  match skipBlanks text with
  | [] => ([], some .truncated, [])
  | ']' :: rest => ([], none, rest)
  | start =>
      let (first, rest) := item start
      let (others, fault?, rest) := itemsAfter item bound rest
      (first :: others, fault?, rest)

/-- One member of an object: a key, a colon and a value. -/
def member (item : List Char → Node × List Char) (text : List Char) :
    (Node × Node) × List Char :=
  let (key, rest) := item text
  match skipBlanks rest with
  | [] => ((key, .missing), [])
  | ':' :: rest =>
      let (value, rest) := item rest
      ((key, value), rest)
  | _ => ((key, .broken .malformed), [])

/-- The members of an object after its first one, up to the closing brace. -/
def membersAfter
    (item : List Char → Node × List Char) :
    Nat → List Char → List (Node × Node) × Option Fault × List Char
  | 0, _ => ([], some .truncated, [])
  | bound + 1, text =>
      match skipBlanks text with
      | [] => ([], some .truncated, [])
      | '}' :: rest => ([], none, rest)
      | ',' :: rest =>
          let (first, rest) := member item rest
          let (others, fault?, rest) := membersAfter item bound rest
          (first :: others, fault?, rest)
      | _ => ([], some .malformed, [])

/-- The members of an object after its opening brace. -/
def members
    (item : List Char → Node × List Char)
    (bound : Nat)
    (text : List Char) :
    List (Node × Node) × Option Fault × List Char :=
  match skipBlanks text with
  | [] => ([], some .truncated, [])
  | '}' :: rest => ([], none, rest)
  | start =>
      let (first, rest) := member item start
      let (others, fault?, rest) := membersAfter item bound rest
      (first :: others, fault?, rest)

/--
What stands where a value is expected, with a bound on the characters that are left.
-/
def value : Nat → List Char → Node × List Char
  | 0, _ => (.missing, [])
  | bound + 1, text =>
      match skipBlanks text with
      | [] => (.missing, [])
      | 'n' :: rest => word .null ['u', 'l', 'l'] rest
      | 't' :: rest => word (.bool true) ['r', 'u', 'e'] rest
      | 'f' :: rest => word (.bool false) ['a', 'l', 's', 'e'] rest
      | '"' :: rest =>
          let content := run rest
          (.string content.quoted, content.rest)
      | '[' :: rest =>
          let (content, fault?, rest) := items (value bound) bound rest
          (.array content fault?, rest)
      | '{' :: rest =>
          let (content, fault?, rest) := members (value bound) bound rest
          (.object content fault?, rest)
      | start@(first :: _) =>
          if first = '-' || first.isDigit then
            number start
          else
            (.broken .malformed, [])

end Reader

/-- A text taken apart: what it holds, and whether only blanks follow. -/
structure Document where
  content : Node
  complete : Bool

/-- Takes a text apart. -/
def Document.ofText (text : String) : Document :=
  let characters := text.toList
  let (content, rest) := Reader.value (characters.length + 1) characters
  { content, complete := (Reader.skipBlanks rest).isEmpty }

end MiniJava.Node
