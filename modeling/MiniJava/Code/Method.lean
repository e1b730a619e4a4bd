import Std.Data.ExtTreeMap
import MiniJava.Code.Flow

namespace MiniJava.Code

/-!
# Methods and classes in code

A method keeps a table of its variables with the slot of each. The receiver and
the parameters come first; a new variable takes the slot after all those in use.
-/

/-- Who may use a member. -/
inductive Visibility where
  | everyone
  | ownClass
  | subclasses
  | samePackage
  deriving DecidableEq

/-- The modifier of a visibility with the blank after it. -/
def Visibility.modifier : Visibility → String
  | .everyone => "public "
  | .ownClass => "private "
  | .subclasses => "protected "
  | .samePackage => ""

/-- What kind of variable a name is. -/
inductive Scope where
  | param
  | localVar
  | receiver
  | field
  deriving DecidableEq

/-- What is known of a variable. -/
structure Variable where
  type : ValueType
  scope : Scope
  slot : Nat
  deriving DecidableEq

/-- The variables of a method, in the order of their names. -/
abbrev VariableTable := Std.ExtTreeMap String Variable

/-- The word that starts the name of a temporary. -/
def temporaryPrefix : String :=
  "tmp"

/-- The temporary of a number. -/
def temporaryName (number : Nat) : String :=
  temporaryPrefix ++ Decimal.ofNat number

/-- Whether a name has the form of a temporary: the word and then digits. -/
def isTemporaryName (name : String) : Bool :=
  match name.toList with
  | 't' :: 'm' :: 'p' :: digits => !digits.isEmpty && digits.all Char.isDigit
  | _ => false

/-- A method in code. -/
structure Method where
  name : String
  visibility : Visibility := .everyone
  isStatic : Bool
  params : List Operand := []
  returnType : ValueType
  instrs : List Instr := []
  flow : Flow := ⟨[]⟩
  table : VariableTable := ∅

namespace Method

/-- The method with the flow of its instructions in a straight line. -/
def withStraightFlow (method : Method) : Method :=
  { method with flow := .straight method.instrs }

/-- Whether a name is that of a parameter. -/
def isParam (method : Method) (name : String) : Bool :=
  method.params.any (·.name? == some name)

/-- The first slot of locals, after the receiver and the parameters. -/
def baseSlot (method : Method) : Nat :=
  (if method.isStatic then 0 else 1) + method.params.length

/-- The slot of the next new variable. -/
def nextFreeSlot (method : Method) : Nat :=
  method.table.toList.foldl (fun slot entry => max slot (entry.2.slot + 1))
    method.baseSlot

/-- Declares a variable, unless its name is taken. -/
def declare
    (method : Method)
    (name : String)
    (type : ValueType)
    (scope : Scope) : Method :=
  if name ∈ method.table then
    method
  else
    { method with
      table := method.table.insert name ⟨type, scope, method.nextFreeSlot⟩ }

/-- The slot of a variable in the table. -/
def slot? (method : Method) (name : String) : Option Nat :=
  method.table[name]?.map (·.slot)

end Method

/-- A field of a class. -/
structure Field where
  name : String
  type : ValueType
  visibility : Visibility := .everyone
  deriving DecidableEq

/-- A class in code. -/
structure ClassCode where
  name : String
  superClass : Option String := none
  imports : List String := []
  fields : List Field := []
  methods : List Method := []

namespace ClassCode

/-- The first method of a name. -/
def method? (unit : ClassCode) (name : String) : Option Method :=
  unit.methods.find? (·.name == name)

end ClassCode

end MiniJava.Code
