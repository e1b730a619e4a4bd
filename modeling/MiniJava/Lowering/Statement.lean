import MiniJava.Lowering.Expression

namespace MiniJava

open Code (Operand ValueType Instr Method ClassCode VariableTable)

/-!
# Lowering of statements, methods and classes

A method starts with its receiver and parameters in its variable table. A
method without result whose body does not end in a return gets one at its end.
-/

namespace Lower

/-- Lowers an assignment to a field. -/
def assignField
    (symbols : Symbols)
    (name : String)
    (type : TypeName)
    (source : Expr) :
    Lower Unit := do
  let stored ← underAssignment type (expr symbols source)
  emit
    (.putField (.receiver symbols.className)
      ⟨name, symbols.fieldType name type⟩ stored)

/--
Lowers an assignment to a variable; a new object is constructed once it is stored.
-/
def assignVariable
    (symbols : Symbols)
    (name : String)
    (type : TypeName)
    (source : Expr) :
    Lower Unit := do
  let stored ← underAssignment type (value symbols source)
  let type := ValueType.ofTypeName type
  declare name type (if (← get).isParam name then .param else .localVar)
  let dest := Operand.var name type
  emit (.store dest stored)
  if stored.isNewObject then
    emit (.construct dest)

/-- Lowers a statement. The result of a call that is a statement is not stored. -/
def stmt (symbols : Symbols) : Stmt → Lower Unit
  | .assign name type source => do
      if (← get).isField symbols name then
        assignField symbols name type source
      else
        assignVariable symbols name type source
  | .evaluate (.call target method arguments type) => do
      let instr ← call symbols target method arguments type false
      emit instr
  | .evaluate other => do
      let _ ← expr symbols other
  | .ret none => do
      emit (.ret (← get).returnType none)
  | .ret (some result) => do
      let type := (← get).returnType
      let operand ← expr symbols result
      emit (.ret type (some operand))

/-- Lowers statements in order. -/
def stmts (symbols : Symbols) : List Stmt → Lower Unit
  | [] => return
  | first :: rest => do
      stmt symbols first
      stmts symbols rest

end Lower

namespace MethodDef

/--
The variables of a method before its body: the receiver, then the
parameters in order.
-/
def firstVariables (className : String) (method : MethodDef) : VariableTable :=
  let receiver : VariableTable :=
    if method.isStatic then
      ∅
    else
      (∅ :
        VariableTable).insert Operand.receiverName ⟨.object className, .receiver, 0⟩
  let offset := if method.isStatic then 0 else 1
  method.params.zipIdx.foldl
    (fun table (param, index) =>
      table.insert param.name ⟨.ofTypeName param.type, .param, offset + index⟩)
    receiver

/-- The method in code before its body. -/
def begin (className : String) (method : MethodDef) : Method where
  name := method.name
  visibility := if method.isPublic then .everyone else .samePackage
  isStatic := method.isStatic
  params := method.params.map fun param => .var param.name (.ofTypeName param.type)
  returnType := .ofTypeName method.returnType
  table := method.firstVariables className

end MethodDef

/--
The method in code after its body, with a return at its end where it needs one.
-/
def Code.Method.finish (method : Method) : Method :=
  let endsInReturn := method.instrs.getLast?.any Instr.isReturn
  let instrs :=
    if method.returnType.isVoid && !endsInReturn then
      method.instrs ++ [.ret .void none]
    else
      method.instrs
  { method with instrs }.withStraightFlow

namespace Lower

/-- Makes a method the one in progress and lowers its body. -/
def body (symbols : Symbols) (method : MethodDef) : Lower Unit := do
  modify fun state =>
    { state with current? := some (method.begin symbols.className) }
  stmts symbols method.body

/-- Lowers a method. No method is in progress afterwards, also after an error. -/
def method (symbols : Symbols) (source : MethodDef) : Lower Method := fun state =>
  match body symbols source state with
  | .ok _ after =>
      let lowered := after.current?.getD (source.begin symbols.className)
      .ok lowered.finish { after with current? := none }
  | .error error after => .error error { after with current? := none }

/-- Lowers methods in order and adds them to the class. -/
def methods (symbols : Symbols) : List MethodDef → Lower Unit
  | [] => return
  | first :: rest => do
      let lowered ← method symbols first
      modify fun state =>
        { state with
          output :=
            { state.output with methods := state.output.methods ++ [lowered] } }
      methods symbols rest

end Lower

/-- The code of a program. -/
def Program.lower
    (symbols : Symbols)
    (program : Program) : Except CompileError ClassCode :=
  match Lower.methods symbols program.mainClass.methods (.start symbols) with
  | .ok _ state => .ok state.output
  | .error error _ => .error error

end MiniJava
