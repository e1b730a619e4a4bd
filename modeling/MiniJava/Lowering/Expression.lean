import MiniJava.Lowering.State

namespace MiniJava

open Code (Operand ValueType Instr CallKind FieldRef)

/-!
# Lowering of expressions

Every operation inside an expression is stored in a new temporary, operands
first and from left to right. Literals, variables and the receiver are operands
as they stand; a field is read into a temporary where it occurs.
-/

/--
How a call finds its method, where the shadowed names mean variables or fields.

Constructors are special. A call on the name of an imported class is static. A
call of the class's own method on an object of the class is special, and every
other call is virtual.
-/
def Symbols.callKind
    (symbols : Symbols)
    (shadowed : String → Bool)
    (target : Expr)
    (method : String) :
    CallKind :=
  let onImport :=
    match target with
    | .var name type =>
        type.isImported || (!shadowed name && symbols.isImported name)
    | _ => false
  if method = Code.constructorName then
    .special
  else if onImport then
    .static
  else if !target.type.isArray && target.type.name == symbols.className &&
      symbols.hasMethod method then
    .special
  else
    .virtual

/--
The result type of a call, inside an assignment of a type.

A result that is only known through an import has the type of the assignment
around it. Without one it is an integer if it is used, and otherwise nothing.
-/
def TypeName.callResult
    (type : TypeName)
    (assigned? : Option TypeName)
    (used : Bool) :
    ValueType :=
  if !type.isImported then
    .ofTypeName type
  else
    match assigned? with
    | some assigned => .ofTypeName assigned
    | none => if used then .int else .void

namespace Lowering

/-- Whether a name means a variable or field, so that it cannot mean a class. -/
def shadows (symbols : Symbols) (state : Lowering) (name : String) : Bool :=
  state.isField symbols name ||
    state.hasVariable name ||
    symbols.isLocal state.methodName name

/-- How a call finds its method, with the variables declared so far. -/
def callKind
    (symbols : Symbols)
    (state : Lowering)
    (target : Expr)
    (method : String) :
    CallKind :=
  symbols.callKind (state.shadows symbols) target method

/-- The result type of a call, inside the assignment in progress. -/
def callResult (state : Lowering) (type : TypeName) (used : Bool) : ValueType :=
  type.callResult state.assigned? used

end Lowering

/-- The type of a field: as declared, or as annotated where it is not declared. -/
def Symbols.fieldType
    (symbols : Symbols)
    (name : String)
    (annotated : TypeName) : ValueType :=
  match symbols.field? name with
  | some field => .ofTypeName field.type
  | none => .ofTypeName annotated

namespace Lower

/-- Lowers a variable or field. -/
def nameRead
    (symbols : Symbols)
    (name : String)
    (type : TypeName) : Lower Operand := do
  let state ← get
  if state.isField symbols name then
    let fieldType := symbols.fieldType name type
    intoTemporary symbols fieldType
      (.getField (.receiver symbols.className) ⟨name, fieldType⟩)
  else if type.isImported then
    return .classRef name
  else
    let type := ValueType.ofTypeName type
    if !state.isParam name then
      declare name type .localVar
    return .var name type

/-- Builds a call from the steps that lower its target and arguments. -/
def callWith
    (symbols : Symbols)
    (target : Expr)
    (method : String)
    (type : TypeName)
    (used : Bool)
    (lowerTarget : Lower Operand)
    (lowerArguments : Lower (List Operand)) :
    Lower Instr := do
  let kind := (← get).callKind symbols target method
  let receiver ←
    match kind, target with
    | .static, .var name _ => pure (Operand.classRef name)
    | _, _ => lowerTarget
  let arguments ← lowerArguments
  let result := (← get).callResult type used
  return .call kind receiver method arguments result

/-- Stores the result of a call in a new temporary. -/
def callValue
    (symbols : Symbols)
    (method : String)
    (call : Instr) : Lower Operand := do
  let result :=
    match call with
    | .call _ _ _ _ result => result
    | _ => .void
  if result.isVoid then
    throw (.voidValue method (← get).methodName)
  else
    intoTemporary symbols result call

mutual

/-- Lowers an expression to an operand. -/
def expr (symbols : Symbols) : Expr → Lower Operand
  | .literal (.int value) => return .int value
  | .literal (.bool value) => return .boolean value
  | .receiver _ => return .receiver symbols.className
  | .var name type => nameRead symbols name type
  | .binary operator left right type => do
      let left ← expr symbols left
      let right ← expr symbols right
      let type := ValueType.ofTypeName type
      intoTemporary symbols type (.binary operator left right type)
  | .call target method arguments type => do
      let call ← callWith symbols target method type true
        (expr symbols target) (exprs symbols arguments)
      callValue symbols method call
  | .newObject className _ => do
      let type := ValueType.object className
      let object ← intoTemporary symbols type (.newObject className type)
      emit (.construct object)
      return object
  | .newArray size type => do
      let size ← expr symbols size
      let type := ValueType.ofTypeName type
      intoTemporary symbols type (.newArray size type)
  | .element array index type => do
      let array ← expr symbols array
      let index ← expr symbols index
      let type := ValueType.ofTypeName type
      intoTemporary symbols type (.element array index type)
  | .length array type => do
      let array ← expr symbols array
      let type := ValueType.ofTypeName type
      intoTemporary symbols type (.length array type)

/-- Lowers a list of expressions from left to right. -/
def exprs (symbols : Symbols) : List Expr → Lower (List Operand)
  | [] => return []
  | first :: rest => do
      let operand ← expr symbols first
      let operands ← exprs symbols rest
      return operand :: operands

end

/-- Builds a call, without storing or appending it. -/
def call
    (symbols : Symbols)
    (target : Expr)
    (method : String)
    (arguments : List Expr)
    (type : TypeName)
    (used : Bool) :
    Lower Instr :=
  callWith symbols target method type used (expr symbols target)
    (exprs symbols arguments)

/--
Lowers the value of an assignment: its outermost operation needs no temporary.
-/
def value (symbols : Symbols) : Expr → Lower Instr
  | .binary operator left right type => do
      let left ← expr symbols left
      let right ← expr symbols right
      return .binary operator left right (.ofTypeName type)
  | .call target method arguments type =>
      call symbols target method arguments type true
  | .newObject className _ => return .newObject className (.object className)
  | .newArray size type => do
      let size ← expr symbols size
      return .newArray size (.ofTypeName type)
  | other => do
      let operand ← expr symbols other
      return .single operand

end Lower

end MiniJava
