import MiniJava.Decimal
import MiniJava.Tree.Basic

namespace MiniJava.Code

/-!
# Three-address code

Instructions over named variables. An instruction reads operands, which are
variables or literals, and an assignment stores the value of another
instruction in a variable. Code has a text of its own, in which every operand
carries its type.
-/

/-- The type of a value in code. -/
inductive ValueType where
  | int
  | boolean
  | void
  | string
  | array (item : ValueType)
  | object (className : String)
  deriving DecidableEq

namespace ValueType

/-- The type that a written type stands for. -/
def ofTypeName (type : TypeName) : ValueType :=
  let base :=
    match type.name with
    | "int" => .int
    | "boolean" => .boolean
    | "void" => .void
    | "String" => .string
    | name => .object name
  if type.isArray then .array base else base

/-- Whether values of the type are references. -/
def isReference : ValueType → Bool
  | .string => true
  | .array _ => true
  | .object _ => true
  | _ => false

/-- Whether the type is that of no value. -/
def isVoid : ValueType → Bool
  | .void => true
  | _ => false

/-- The text of a type in code. -/
def text : ValueType → String
  | .int => "i32"
  | .boolean => "bool"
  | .void => "V"
  | .string => "String"
  | .array item => "array." ++ item.text
  | .object className => className

end ValueType

/-- What an instruction reads or writes. -/
inductive Operand where
  | var (name : String) (type : ValueType)
  | literal (value : Int32) (type : ValueType)
  deriving DecidableEq

namespace Operand

/-- An integer literal. -/
def int (value : Int32) : Operand :=
  .literal value .int

/-- A truth value, which is the literal one or zero. -/
def boolean (value : Bool) : Operand :=
  .literal (if value then 1 else 0) .boolean

/-- The name of the receiver. -/
def receiverName : String :=
  "this"

/-- The receiver of a method of the class. -/
def receiver (className : String) : Operand :=
  .var receiverName (.object className)

/-- A class itself, as the target of a static call. -/
def classRef (name : String) : Operand :=
  .var name (.object name)

/-- The type of an operand. -/
def type : Operand → ValueType
  | .var _ type => type
  | .literal _ type => type

/-- The name of a variable. -/
def name? : Operand → Option String
  | .var name _ => some name
  | .literal _ _ => none

/-- Whether the operand is a literal. -/
def isLiteral : Operand → Bool
  | .var _ _ => false
  | .literal _ _ => true

/-- The text of an operand: the receiver and classes stand without their type. -/
def text : Operand → String
  | .var name type =>
      if name = receiverName ∨ type = .object name then
        name
      else
        name ++ "." ++ type.text
  | .literal value type => Decimal.ofInt value.toInt ++ "." ++ type.text

end Operand

/-- A field of the class with its type. -/
structure FieldRef where
  name : String
  type : ValueType
  deriving DecidableEq

/-- The text of a field. -/
def FieldRef.text (field : FieldRef) : String :=
  field.name ++ "." ++ field.type.text

/-- How a call finds its method. -/
inductive CallKind where
  | static
  | virtual
  | special
  deriving DecidableEq

/-- The mnemonic of a call. -/
def CallKind.mnemonic : CallKind → String
  | .static => "invokestatic"
  | .virtual => "invokevirtual"
  | .special => "invokespecial"

/-- The name that constructors have. -/
def constructorName : String :=
  "<init>"

/-- An instruction. -/
inductive Instr where
  /-- Stores the value of another instruction. -/
  | assign (dest : Operand) (type : ValueType) (value : Instr)
  /-- An operand as the value of an assignment. -/
  | single (operand : Operand)
  | binary (operator : Operator) (left right : Operand) (type : ValueType)
  | ret (type : ValueType) (value : Option Operand)
  | call
      (kind : CallKind)
      (target : Operand)
      (method : String)
      (arguments : List Operand)
      (result : ValueType)
  | newObject (className : String) (type : ValueType)
  | newArray (size : Operand) (type : ValueType)
  | element (array index : Operand) (type : ValueType)
  | length (array : Operand) (type : ValueType)
  | getField (object : Operand) (field : FieldRef)
  | putField (object : Operand) (field : FieldRef) (value : Operand)
  deriving DecidableEq

namespace Instr

/-- Stores a value in a destination, with the destination's type. -/
def store (dest : Operand) (value : Instr) : Instr :=
  .assign dest dest.type value

/-- Stores an operand in a destination. -/
def copy (dest source : Operand) : Instr :=
  store dest (.single source)

/-- The constructor call that follows an allocation. -/
def construct (object : Operand) : Instr :=
  .call .special object constructorName [] .void

/-- Whether the instruction ends the method. -/
def isReturn : Instr → Bool
  | .ret _ _ => true
  | _ => false

/-- Whether the instruction allocates an object. -/
def isNewObject : Instr → Bool
  | .newObject _ _ => true
  | _ => false

/-- The text of an instruction. -/
def text : Instr → String
  | .assign dest type value => dest.text ++ " :=." ++ type.text ++ " " ++ value.text
  | .single operand => operand.text
  | .binary operator left right type =>
      left.text ++ " " ++ operator.sign ++ "." ++ type.text ++ " " ++ right.text
  | .ret type (some value) => "ret." ++ type.text ++ " " ++ value.text
  | .ret type none => "ret." ++ type.text
  | .call kind target method arguments result =>
      kind.mnemonic ++ "(" ++ target.text ++ ", \"" ++ method ++ "\"" ++
        String.join (arguments.map fun argument => ", " ++ argument.text) ++
        ")." ++ result.text
  | .newObject className type => "new(" ++ className ++ ")." ++ type.text
  | .newArray size type => "new(array, " ++ size.text ++ ")." ++ type.text
  | .element array index type =>
      array.text ++ "[" ++ index.text ++ "]." ++ type.text
  | .length array type => "arraylength(" ++ array.text ++ ")." ++ type.text
  | .getField object field =>
      "getfield(" ++ object.text ++ ", " ++ field.text ++ ")." ++ field.type.text
  | .putField object field value =>
      "putfield(" ++ object.text ++ ", " ++ field.text ++ ", " ++
        value.text ++ ").V"

end Instr

end MiniJava.Code
