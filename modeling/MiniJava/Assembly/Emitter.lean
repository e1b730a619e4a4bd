import MiniJava.Assembly.Line
import MiniJava.CompileError
import MiniJava.Jvm.Descriptor
import MiniJava.Jvm.Limits

namespace MiniJava.Assembly

/-!
# Emission of instructions

Each instruction of three-address code becomes a run of stack instructions that
pushes what it reads, works on the stack and stores or drops the result. While
a method is emitted, its stack instructions and limits are kept apart from the
lines written so far.

A step that fails still leaves the state it has reached.
-/

open Code (Operand ValueType CallKind FieldRef Method ClassCode)

/-- The state of emission. -/
structure Emitter where
  /-- The lines written so far. -/
  lines : List Line := []
  /-- The method being emitted. -/
  current? : Option Method := none
  /-- Its instructions so far. -/
  body : List Jvm.Instr := []
  /-- Its limits so far. -/
  limits : Jvm.Limits := {}
  /-- How many labels have been made in the class. -/
  labels : Nat := 0
  /-- Whether the limits of a method before this one have left their range. -/
  overflowed : Bool := false

/-- A step of emission. -/
abbrev Emit (α : Type) := EStateM CompileError Emitter α

/-- The kind of slot that holds values of a type. -/
def slotKind (type : ValueType) : Jvm.Kind :=
  if type.isReference then .reference else .int

namespace Emit

/-- Appends an instruction to the body and keeps the limits. -/
def instr (added : Jvm.Instr) : Emit Unit :=
  modify fun state =>
    { state with
      body := state.body ++ [added]
      limits := state.limits.extend added }

/-- Corrects the depth where two paths of the body meet. -/
def adjust (delta : Int32) : Emit Unit :=
  modify fun state => { state with limits := state.limits.apply delta }

/-- A label that no other has in the class. -/
def newLabel (stem : String) : Emit String := do
  let number := (← get).labels
  modify fun state => { state with labels := number + 1 }
  return stem ++ "_" ++ Decimal.ofNat number

/-- The slot of a variable of the current method. -/
def slotOf (operand : Operand) : Emit Nat := do
  match (← get).current? with
  | none => throw .outsideMethod
  | some method =>
      match operand.name? with
      | none => throw (.notAVariable operand)
      | some name =>
          match method.slot? name with
          | none => throw (.unknownVariable name method.name)
          | some slot => return slot

/-- Pushes a variable. -/
def load (operand : Operand) : Emit Unit := do
  let slot ← slotOf operand
  instr (.load (slotKind operand.type) slot)

/-- Pops into a variable. -/
def store (dest : Operand) : Emit Unit := do
  if dest.isLiteral then
    throw (.notAssignable dest)
  let slot ← slotOf dest
  instr (.store (slotKind dest.type) slot)

/-- Pushes an operand. -/
def push : Operand → Emit Unit
  | .literal value _ => instr (.const value)
  | .var name type => load (.var name type)

/-- Pushes operands in order. -/
def pushAll : List Operand → Emit Unit
  | [] => return
  | first :: rest => do
      push first
      pushAll rest

/--
Pushes one if the lower of two integers is less than the upper one, and else zero.
-/
def compareLess : Emit Unit := do
  let onTrue ← newLabel "cmp_true"
  let done ← newLabel "cmp_end"
  instr (.jumpIfLess onTrue)
  instr (.const 0)
  instr (.jump done)
  adjust (-1)
  instr (.label onTrue)
  instr (.const 1)
  instr (.label done)

/-- Works an operator on the two values on the stack. -/
def operate : Operator → Emit Unit
  | .add => instr (.arith .add)
  | .sub => instr (.arith .sub)
  | .mul => instr (.arith .mul)
  | .div => instr (.arith .div)
  | .and => instr (.arith .and)
  | .or => instr (.arith .or)
  | .less => compareLess

/-- The path of the class whose method is called. -/
def callOwner
    (unit : ClassCode)
    (kind : CallKind)
    (target : Operand) : Emit String :=
  if kind = .static then
    match target.name? with
    | some name => return unit.classPath name
    | none => throw (.staticOnLiteral target)
  else
    match target.type with
    | .object name => return unit.classPath name
    | .string => return Code.stringPath
    | _ => throw (.notAnObject target)

/-- Calls a method and leaves its result on the stack. -/
def call
    (unit : ClassCode)
    (kind : CallKind)
    (target : Operand)
    (method : String)
    (arguments : List Operand)
    (result : ValueType) :
    Emit Unit := do
  let owner ← callOwner unit kind target
  if kind ≠ .static then
    load target
  pushAll arguments
  let descriptor := unit.methodDescriptor (arguments.map Operand.type) result
  instr (.invoke kind owner method descriptor arguments.length (!result.isVoid))

/-- The instruction that creates an array whose size is on the stack. -/
def arrayCreation (unit : ClassCode) : ValueType → Except CompileError Jvm.Instr
  | .array .int => .ok (.newPrimitives .int)
  | .array .boolean => .ok (.newPrimitives .boolean)
  | .array .string => .ok (.newReferences Code.stringPath)
  | .array (.object name) => .ok (.newReferences (unit.classPath name))
  | .array item => .error (.arrayOf item)
  | type => .error (.notAnArray type)

/-- Pushes the value of an assignment. -/
def value (unit : ClassCode) : Code.Instr → Emit Unit
  | .single operand => push operand
  | .binary operator left right _ => do
      push left
      push right
      operate operator
  | .call kind target method arguments result => do
      if result.isVoid then
        throw (.voidAssigned method)
      call unit kind target method arguments result
  | .newObject className _ => instr (.newObject (unit.classPath className))
  | .newArray size type => do
      push size
      match arrayCreation unit type with
      | .ok creation => instr creation
      | .error error => throw error
  | .element array _ _ => throw (.elementOf array)
  | .length array _ => throw (.lengthOf array)
  | .getField object field => do
      load object
      instr (.getField unit.name field.name (unit.descriptor field.type))
  | other => throw (.notAValue other)

/-- Emits an instruction. -/
def code (unit : ClassCode) : Code.Instr → Emit Unit
  | .assign dest _ source => do
      value unit source
      store dest
  | .call kind target method arguments result => do
      call unit kind target method arguments result
      if !result.isVoid then
        instr .pop
  | .putField object field stored => do
      load object
      push stored
      instr (.putField unit.name field.name (unit.descriptor field.type))
  | .ret type (some result) => do
      push result
      instr (.ret (some (slotKind type)))
  | .ret _ none => instr (.ret none)
  | other => throw (.standalone other)

/-- Emits instructions in order. -/
def codes (unit : ClassCode) : List Code.Instr → Emit Unit
  | [] => return
  | first :: rest => do
      code unit first
      codes unit rest

end Emit

end MiniJava.Assembly
