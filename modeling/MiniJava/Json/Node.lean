import MiniJava.Json.Number

namespace MiniJava

/-!
# What a JSON text holds

A text is taken apart into a tree before anyone asks whether it is right. Where
it goes wrong the tree says so in place, and everything before that point stands
as usual; nothing stands after it.

There are two ways to go over a part of the tree. A value that is wanted is
*read*. A value that is not wanted is *skipped*, which is more lenient: its
numbers and strings only have to follow the grammar, and it may nest as deep as
it likes. In both ways the first fault in the order of the text is the one that
counts.
-/

/-- Why a JSON text is not read. -/
inductive Fault where
  /-- The text ends before the value does. -/
  | truncated
  /-- The text is not JSON, or nests too deep. -/
  | malformed
  /-- The value is not of the expected shape. -/
  | mismatched
  deriving DecidableEq

/-- Stops at a fault, if there is one. -/
def Fault.stop : Option Fault → Except Fault Unit
  | some fault => .error fault
  | none => .ok ()

/-- What a string literal holds. -/
structure Quoted where
  /-- Its text, or the fault met when it is read. -/
  text : Except Fault String
  /-- The fault met when it is skipped. -/
  fault? : Option Fault

/-- What stands in a text where a value is expected. -/
inductive Node where
  /-- The text ends here. -/
  | missing
  /-- No value starts like this, or a word is misspelt. -/
  | broken (fault : Fault)
  | null
  | bool (value : Bool)
  | number (value : Number)
  /-- A number that lacks digits, with the fault met when it is read. -/
  | badNumber (fault : Fault)
  | string (content : Quoted)
  /-- The items of an array, and what is wrong after the last one. -/
  | array (items : List Node) (fault? : Option Fault)
  /-- The members of an object, and what is wrong after the last one. -/
  | object (members : List (Node × Node)) (fault? : Option Fault)
  deriving Inhabited

namespace Node

/--
The fault of something that is not of the expected shape.

A number, a string or a word is read before it is refused, so its own fault
comes first. An array or an object is refused at its first character.
-/
def refusal : Node → Fault
  | .missing => .truncated
  | .broken fault => fault
  | .number .infinite => .malformed
  | .badNumber fault => fault
  | .string content =>
      match content.text with
      | .error fault => fault
      | .ok _ => .mismatched
  | _ => .mismatched

/-- The text of a key. -/
def key : Node → Except Fault String
  | .string content => content.text
  | .missing => .error .truncated
  | _ => .error .malformed

/-- Skips a key. -/
def skipKey : Node → Except Fault Unit
  | .string content => Fault.stop content.fault?
  | .missing => .error .truncated
  | _ => .error .malformed

mutual

/-- Skips a value. -/
def skip : Node → Except Fault Unit
  | .missing => .error .truncated
  | .broken fault => .error fault
  | .null => .ok ()
  | .bool _ => .ok ()
  | .number _ => .ok ()
  | .badNumber _ => .error .malformed
  | .string content => Fault.stop content.fault?
  | .array items fault? => do
      skipItems items
      Fault.stop fault?
  | .object members fault? => do
      skipMembers members
      Fault.stop fault?

/-- Skips the items of an array. -/
def skipItems : List Node → Except Fault Unit
  | [] => .ok ()
  | item :: rest => do
      skip item
      skipItems rest

/-- Skips the members of an object. -/
def skipMembers : List (Node × Node) → Except Fault Unit
  | [] => .ok ()
  | (key, value) :: rest => do
      skipKey key
      skip value
      skipMembers rest

end

mutual

/--
Reads a value of any shape that opens at most `room` levels of arrays and objects.
-/
def hold (room : Nat) : Node → Except Fault Unit
  | .missing => .error .truncated
  | .broken fault => .error fault
  | .null => .ok ()
  | .bool _ => .ok ()
  | .number value => if value = .infinite then .error .malformed else .ok ()
  | .badNumber fault => .error fault
  | .string content => content.text.map fun _ => ()
  | .array items fault? =>
      match room with
      | 0 => .error .malformed
      | inner + 1 => do
          holdItems inner items
          Fault.stop fault?
  | .object members fault? =>
      match room with
      | 0 => .error .malformed
      | inner + 1 => do
          holdMembers inner members
          Fault.stop fault?

/-- Reads the items of an array. -/
def holdItems (room : Nat) : List Node → Except Fault Unit
  | [] => .ok ()
  | item :: rest => do
      hold room item
      holdItems room rest

/-- Reads the members of an object. -/
def holdMembers (room : Nat) : List (Node × Node) → Except Fault Unit
  | [] => .ok ()
  | (key, value) :: rest => do
      let _ ← key.key
      hold room value
      holdMembers room rest

end

end Node

end MiniJava
