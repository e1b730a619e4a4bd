import Std.Data.ExtTreeMap
import MiniJava.Json.Reader

namespace MiniJava.Json

/-!
# Shapes of JSON values

How values of known types are read. Two rules of the format are decided here,
once for all types.

*Records.* A record is an object whose members may stand in any order, or an
array of its fields in their order. Members that are not fields are skipped; a
field may not be given twice.

*Choices.* A choice is a record with a member that names one of several kinds.
Its kind may come last, so all of it is held before its fields are read, and
what stands inside it is read under the rules for held values: whatever does
not fit is of the wrong shape, and the text plays no part any more.
-/

/-- The number of nested arrays and objects that a text may open. -/
def nestingLimit : Nat :=
  127

/-- Where a value stands while it is read. -/
structure Place where
  /-- How many levels of arrays and objects may still be opened. -/
  room : Nat
  /-- Whether the value is part of one that is held as a whole. -/
  held : Bool
  deriving DecidableEq

namespace Place

/-- The place of a whole text. -/
def top : Place :=
  ⟨nestingLimit, false⟩

/-- The place of a value that is held as a whole. -/
def inside : Place :=
  ⟨nestingLimit, true⟩

/-- The place inside an array or object; a held value has been measured already. -/
def enter (place : Place) : Except Fault Place :=
  if place.held then
    .ok place
  else
    match place.room with
    | 0 => .error .malformed
    | room + 1 => .ok ⟨room, false⟩

end Place

/-- A way to read values of one type. -/
abbrev Shape (α : Type) := Place → Node → Except Fault α

namespace Shape

variable {α : Type}

/-- A string. -/
def text : Shape String
  | _, .string content => content.text
  | _, node => .error node.refusal

/-- A truth value. -/
def bool : Shape Bool
  | _, .bool content => .ok content
  | _, node => .error node.refusal

/-- An integer between two bounds, in integer notation. -/
def intBetween (low high : Int) : Shape Int
  | _, .number (.integer value) =>
      if low ≤ value ∧ value ≤ high then .ok value else .error .mismatched
  | _, node => .error node.refusal

/-- A signed integer of 32 bits. -/
def int32 : Shape Int32 :=
  fun place node =>
    (intBetween (-2147483648) 2147483647 place node).map Int32.ofInt

/-- A natural number of 64 bits. -/
def nat64 : Shape UInt64 :=
  fun place node =>
    (intBetween 0 18446744073709551615 place node).map fun value =>
      .ofNat value.toNat

/-- A value that may be null. -/
def optional (shape : Shape α) : Shape (Option α)
  | _, .null => .ok none
  | place, node => (shape place node).map some

/-- An array of values of one shape. -/
def list (shape : Shape α) : Shape (List α)
  | place, .array items fault? => do
      let inner ← place.enter
      let contents ← items.mapM (shape inner)
      Fault.stop fault?
      return contents
  | _, node => .error node.refusal

/--
An object that maps names to values of one shape; the last of two equal names holds.
-/
def map (shape : Shape α) : Shape (Std.ExtTreeMap String α)
  | place, .object members fault? => do
      let inner ← place.enter
      let entries ← members.mapM fun (key, node) => do
        return (← key.key, ← shape inner node)
      Fault.stop fault?
      return entries.foldl
        (fun table (name, content) => table.insert name content) ∅
  | _, node => .error node.refusal

end Shape

/-- The value of a shape that a whole text holds. -/
def parse {α : Type} (shape : Shape α) (text : String) : Except Fault α := do
  let document := Node.Document.ofText text
  let content ← shape .top document.content
  if document.complete then return content else .error .malformed

/-- How a record is given. -/
inductive Form where
  | members (given : List (Node × Node))
  | items (given : List Node)

/-- A record before its fields are read. -/
structure Fields where
  names : List String
  /-- The place inside the record. -/
  place : Place
  form : Form
  /-- What is wrong after the last member or item. -/
  fault? : Option Fault

/-- What is given for one field: a value, a fault, or nothing. -/
abbrev Given (α : Type) := Option (Except Fault α)

namespace Given

variable {α : Type}

/-- The fault of what is given. -/
def fault? : Given α → Option Fault
  | some (.error fault) => some fault
  | _ => none

/-- A field that has to be given. -/
def required (given : Given α) : Except Fault α :=
  given.getD (.error .mismatched)

/-- A field with a value to take when it is not given. -/
def withDefault (given : Given α) (default : α) : Except Fault α :=
  given.getD (.ok default)

end Given

namespace Fields

variable {α : Type}

/-- The record with the given names that a node holds. -/
def ofNode (names : List String) (place : Place) : Node → Except Fault Fields
  | .object members fault? => do
      return { names, place := ← place.enter, form := .members members, fault? }
  | .array items fault? => do
      return { names, place := ← place.enter, form := .items items, fault? }
  | node => .error node.refusal

/-- The first value among members with the name. -/
def firstNamed (name : String) : List (Node × Node) → Option Node
  | [] => none
  | (key, node) :: rest =>
      match key.key with
      | .ok found => if found = name then some node else firstNamed name rest
      | .error _ => firstNamed name rest

/-- The node that stands for a field. -/
def node? (fields : Fields) (name : String) : Option Node :=
  match fields.form with
  | .members given => firstNamed name given
  | .items given => (fields.names.zip given).lookup name

/-- What is given for a field. -/
def get (fields : Fields) (name : String) (shape : Shape α) : Given α :=
  (fields.node? name).map (shape fields.place)

/--
Goes over the members of a record in the order of the text.

`faults` tells for each field what is wrong with its value. A field that was
`seen` before is refused at its name.
-/
def settleMembers (faults : List (String × Option Fault)) :
    (seen : List String) → List (Node × Node) → Except Fault Unit
  | _, [] => .ok ()
  | seen, (key, node) :: rest => do
      let name ← key.key
      match faults.lookup name with
      | none =>
          node.skip
          settleMembers faults seen rest
      | some fault? =>
          if name ∈ seen then
            .error .mismatched
          else
            Fault.stop fault?
            settleMembers faults (name :: seen) rest

/-- Goes over the faults of as many fields as there are items. -/
def settleItems : List (Option Fault) → (count : Nat) → Except Fault Unit
  | fault? :: rest, count + 1 => do
      Fault.stop fault?
      settleItems rest count
  | _, _ => .ok ()

/--
Stops at the first fault of a record in the order of the text, given the faults
of its fields in the order of their names.

An array with more items than the record has fields leaves text behind that no
one reads; in a held value it is of the wrong shape instead.
-/
def settle (fields : Fields) (faults : List (Option Fault)) : Except Fault Unit :=
  match fields.form with
  | .members given => do
      settleMembers (fields.names.zip faults) [] given
      Fault.stop fields.fault?
  | .items given => do
      settleItems faults given.length
      if fields.names.length < given.length then
        .error (if fields.place.held then .mismatched else .malformed)
      else
        Fault.stop fields.fault?

/-- The record that a held value holds. -/
def ofHeld (names : List String) (node : Node) : Except Fault Fields := do
  let fields ← ofNode names .inside node
  fields.settle (names.map fun _ => none)
  return fields

/-- A field of a held record that has to be given. -/
def required (fields : Fields) (name : String) (shape : Shape α) : Except Fault α :=
  (fields.get name shape).required

/-- A field of a held record with a value to take when it is not given. -/
def withDefault
    (fields : Fields)
    (name : String)
    (default : α)
    (shape : Shape α) :
    Except Fault α :=
  (fields.get name shape).withDefault default

/--
A field of a held record that may be null. An object may leave it
out, an array may not.
-/
def nullable
    (fields : Fields)
    (name : String)
    (shape : Shape α) : Except Fault (Option α) :=
  let given := fields.get name (.optional shape)
  match fields.form with
  | .members _ => given.withDefault none
  | .items _ => given.required

end Fields

namespace Shape

variable {α : Type}

/-- The word of a name. -/
def wordNamed (words : List (String × α)) (name : String) : Except Fault α :=
  match words.lookup name with
  | some content => .ok content
  | none => .error .mismatched

/--
One of several words in a held value. A word may also be the only
member of an object.
-/
def heldWord (words : List (String × α)) : Node → Except Fault α
  | .string content => do wordNamed words (← content.text)
  | .object [(key, .null)] _ => do wordNamed words (← key.key)
  | .object [(key, .object [] _)] _ => do wordNamed words (← key.key)
  | _ => .error .mismatched

/--
One of several words. A word may also be the only member of an object, with null
as its value.

A value that is neither a string nor an object is not even looked at: the text
is wrong where it starts.
-/
def word (words : List (String × α)) : Shape α := fun place node =>
  if place.held then
    heldWord words node
  else
    match node with
    | .string content => do wordNamed words (← content.text)
    | .object [] fault? => do
        let _ ← place.enter
        .error (fault?.getD .malformed)
    | .object ((key, value) :: rest) fault? => do
        let _ ← place.enter
        let content ← wordNamed words (← key.key)
        match value with
        | .null =>
            if rest.isEmpty then
              Fault.stop fault?
              return content
            else
              .error .malformed
        | _ => .error value.refusal
    | .missing => .error .truncated
    | _ => .error .malformed

end Shape

/-- A choice taken apart: its kind, and the record without its kind. -/
structure Choice where
  kind : String
  content : Node

namespace Choice

/-- The name of the member that holds the kind. -/
def tag : String :=
  "kind"

/-- The kind that a node names; in a held value it may be given by its position. -/
def kindOf (kinds : List String) (place : Place) : Node → Except Fault String
  | .number (.integer position) =>
      if place.held ∧ 0 ≤ position then
        match kinds[position.toNat]? with
        | some kind => .ok kind
        | none => .error .mismatched
      else
        .error .mismatched
  | node => do
      let name ← Shape.text place node
      if name ∈ kinds then return name else .error .mismatched

/-- Holds a node, unless it is part of a held value already. -/
def hold (place : Place) (node : Node) : Except Fault Unit :=
  if place.held then .ok () else node.hold place.room

/--
Goes over the members of a choice in order; gives the kind and the other members.
-/
def members (kinds : List String) (place : Place) :
    (kind? : Option String) → List (Node × Node) →
      Except Fault (Option String × List (Node × Node))
  | kind?, [] => .ok (kind?, [])
  | kind?, (key, node) :: rest => do
      let name ← key.key
      if name = tag then
        if kind?.isSome then
          .error .mismatched
        else
          members kinds place (some (← kindOf kinds place node)) rest
      else
        hold place node
        let (kind?, others) ← members kinds place kind? rest
        return (kind?, (key, node) :: others)

/-- Takes a choice apart. The kind is one member, or the first item. -/
def ofNode (kinds : List String) (place : Place) : Node → Except Fault Choice
  | .object given fault? => do
      let inner ← place.enter
      let (kind?, others) ← members kinds inner none given
      Fault.stop fault?
      match kind? with
      | some kind => return ⟨kind, .object others none⟩
      | none => .error .mismatched
  | .array [] fault? => do
      let _ ← place.enter
      .error (fault?.getD .mismatched)
  | .array (first :: items) fault? => do
      let inner ← place.enter
      let kind ← kindOf kinds inner first
      items.forM (hold inner)
      Fault.stop fault?
      return ⟨kind, .array items none⟩
  | node => .error node.refusal

/-- The fields of a choice, by their names. -/
def fields (choice : Choice) (names : List String) : Except Fault Fields :=
  Fields.ofHeld names choice.content

end Choice

end MiniJava.Json
