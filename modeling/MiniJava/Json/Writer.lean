import MiniJava.Decimal
import MiniJava.Json.Value

namespace MiniJava.Json

/-!
# Writing JSON text

The compact form: no blanks, members in the order of the value. A string
escapes its quotes, backslashes and control characters and nothing else.
-/

/-- The lower-case hexadecimal digit of a number below sixteen. -/
def hexDigit (value : Nat) : Char :=
  if value < 10 then
    Char.ofNat ('0'.toNat + value)
  else
    Char.ofNat ('a'.toNat + (value - 10))

/-- How one character of a string is written. -/
def escape (character : Char) : List Char :=
  match character with
  | '"' => ['\\', '"']
  | '\\' => ['\\', '\\']
  | '\x08' => ['\\', 'b']
  | '\x0c' => ['\\', 'f']
  | '\n' => ['\\', 'n']
  | '\r' => ['\\', 'r']
  | '\t' => ['\\', 't']
  | _ =>
      if character.toNat < 32 then
        ['\\', 'u', '0', '0', hexDigit (character.toNat / 16),
          hexDigit (character.toNat % 16)]
      else
        [character]

/-- A string literal with its quotes. -/
def quoted (text : String) : String :=
  "\"" ++ String.ofList (text.toList.flatMap escape) ++ "\""

mutual

/-- The compact text of a value. -/
def render : Json → String
  | .null => "null"
  | .bool true => "true"
  | .bool false => "false"
  | .int content => Decimal.ofInt content
  | .string content => quoted content
  | .array [] => "[]"
  | .array (first :: rest) => "[" ++ render first ++ renderItems rest
  | .object [] => "\x7b\x7d"
  | .object ((key, content) :: rest) =>
      "\x7b" ++ quoted key ++ ":" ++ render content ++ renderMembers rest

/-- The items of an array after its first one, with the closing bracket. -/
def renderItems : List Json → String
  | [] => "]"
  | item :: rest => "," ++ render item ++ renderItems rest

/-- The members of an object after its first one, with the closing brace. -/
def renderMembers : List (String × Json) → String
  | [] => "\x7d"
  | (key, content) :: rest =>
      "," ++ quoted key ++ ":" ++ render content ++ renderMembers rest

end

end MiniJava.Json
