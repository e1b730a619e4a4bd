namespace MiniJava

/-!
# JSON values

What is written: values as they stand, with the members of an object in order.
All numbers that are written are integers.
-/

/-- A JSON value. -/
inductive Json where
  | null
  | bool (value : Bool)
  | int (value : Int)
  | string (value : String)
  | array (items : List Json)
  | object (members : List (String × Json))
  deriving Inhabited

namespace Json

/-- The value of a natural number. -/
def nat (value : Nat) : Json :=
  .int value

/-- The value of something that may be missing. -/
def ofOption {α : Type} (toJson : α → Json) : Option α → Json
  | some content => toJson content
  | none => .null

/-- The value of a list. -/
def ofList {α : Type} (toJson : α → Json) (contents : List α) : Json :=
  .array (contents.map toJson)

end Json

end MiniJava
