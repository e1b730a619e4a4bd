import MiniJava.Code.Basic

namespace MiniJava

/-!
# Compile errors

Each constructor is one cause. The causes fall into four kinds, and the wording
of all of them is in one place.
-/

open Code (Operand ValueType Instr)

/-- Why a unit does not compile. -/
inductive CompileError where
  /--
  The front end reported errors; the position and message are those of the first.
  -/
  | frontEnd (count line column : Nat) (message : String)
  /-- A call without a result is used as a value. -/
  | voidValue (called method : String)
  /-- The locals of a method do not fit into the registers. -/
  | budgetExceeded (method name : String) (budget : Nat)
  /-- An instruction that only makes sense inside an assignment. -/
  | standalone (instr : Instr)
  /-- An instruction that is not the value of an assignment. -/
  | notAValue (instr : Instr)
  | arrayOf (item : ValueType)
  | elementOf (array : Operand)
  | lengthOf (array : Operand)
  /-- An array is created with a type that is not an array. -/
  | notAnArray (type : ValueType)
  /-- A call without a result is assigned. -/
  | voidAssigned (called : String)
  | staticOnLiteral (target : Operand)
  /-- The receiver of a call is not an object. -/
  | notAnObject (receiver : Operand)
  /-- A literal is assigned to. -/
  | notAssignable (dest : Operand)
  /-- A literal stands where a variable is needed. -/
  | notAVariable (operand : Operand)
  | unknownVariable (name method : String)
  | outsideMethod
  deriving DecidableEq

namespace CompileError

/-- The four kinds of errors. -/
inductive Kind where
  | unimplemented
  | budgetExceeded
  | malformedCode
  | frontEnd
  deriving DecidableEq

/-- The kind of an error. -/
def kind : CompileError → Kind
  | .frontEnd .. => .frontEnd
  | .budgetExceeded .. => .budgetExceeded
  | .standalone _ => .unimplemented
  | .arrayOf _ => .unimplemented
  | .elementOf _ => .unimplemented
  | .lengthOf _ => .unimplemented
  | .voidValue .. => .malformedCode
  | .notAValue _ => .malformedCode
  | .notAnArray _ => .malformedCode
  | .voidAssigned _ => .malformedCode
  | .staticOnLiteral _ => .malformedCode
  | .notAnObject _ => .malformedCode
  | .notAssignable _ => .malformedCode
  | .notAVariable _ => .malformedCode
  | .unknownVariable .. => .malformedCode
  | .outsideMethod => .malformedCode

/-- What is wrong, without the kind. -/
def detail : CompileError → String
  | .frontEnd count line column message =>
      Decimal.ofNat count ++ " error(s), first at " ++ Decimal.ofNat line ++ ":" ++
        Decimal.ofNat column ++ ": " ++ message
  | .voidValue called method =>
      "void call to '" ++ called ++ "' used as a value in '" ++ method ++ "'"
  | .budgetExceeded method name budget =>
      "in '" ++ method ++ "': '" ++ name ++ "' needs more than " ++
        Decimal.ofNat budget ++ " register(s)"
  | .standalone instr => "standalone instruction '" ++ instr.text ++ "'"
  | .notAValue instr =>
      "'" ++ instr.text ++ "' cannot be the right-hand side of an assignment"
  | .arrayOf item => "array of " ++ item.text
  | .elementOf array => "array access on " ++ array.text
  | .lengthOf array => "array length of " ++ array.text
  | .notAnArray type => "new(array) with non-array type " ++ type.text
  | .voidAssigned called => "void call to '" ++ called ++ "' assigned to a variable"
  | .staticOnLiteral target => "static call on literal " ++ target.text
  | .notAnObject receiver =>
      "call receiver " ++ receiver.text ++ " has non-class type " ++
        receiver.type.text
  | .notAssignable dest =>
      "assignment destination " ++ dest.text ++ " is not a simple variable"
  | .notAVariable operand => "expected a variable, found literal " ++ operand.text
  | .unknownVariable name method =>
      "variable '" ++ name ++ "' missing from the variable table of '" ++
        method ++ "'"
  | .outsideMethod => "instruction outside of a method"

/-- How messages of a kind begin. -/
def Kind.lead : Kind → String
  | .unimplemented => "Unimplemented construct: "
  | .budgetExceeded => "Register budget exceeded "
  | .malformedCode => "Malformed IR: "
  | .frontEnd => "Front end reported "

/-- The whole message of an error. -/
def message (error : CompileError) : String :=
  error.kind.lead ++ error.detail

end CompileError

end MiniJava
