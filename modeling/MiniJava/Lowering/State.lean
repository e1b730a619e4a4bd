import MiniJava.Code.Method
import MiniJava.CompileError
import MiniJava.Tree.Symbols

namespace MiniJava

open Code (Operand ValueType Instr Method ClassCode Scope)

/-!
# The state of lowering

Lowering walks a method body and appends instructions to the method in
progress. Its state holds that method, the class so far, and the number of the
next temporary, which keeps growing from method to method.

A step that fails still leaves the state it has reached. Without a method in
progress, declarations and instructions have nowhere to go and are dropped.

Temporaries are counted without a bound. A counter of 64 bits gives the same
numbers as long as it is not asked for one behind the last of them.
-/

/-- The state of lowering. -/
structure Lowering where
  /-- The class with the methods lowered so far. -/
  output : ClassCode
  /-- The number that the next temporary tries first. -/
  nextTemporary : Nat := 0
  /-- The method in progress. -/
  current? : Option Method := none
  /-- The declared type of the assignment in progress. -/
  assigned? : Option TypeName := none

/-- A step of lowering. -/
abbrev Lower (α : Type) := EStateM CompileError Lowering α

namespace Lowering

/-- The state before the first method of a class. -/
def start (symbols : Symbols) : Lowering where
  output :=
    { name := symbols.className
      superClass := symbols.superClass
      imports := symbols.imports
      fields := symbols.fields.map fun field =>
        { name := field.name, type := .ofTypeName field.type } }

/-- The name of the method in progress. -/
def methodName (state : Lowering) : String :=
  match state.current? with
  | some method => method.name
  | none => ""

/-- The return type of the method in progress. -/
def returnType (state : Lowering) : ValueType :=
  match state.current? with
  | some method => method.returnType
  | none => .void

/-- Whether a name is in the variable table of the method in progress. -/
def hasVariable (state : Lowering) (name : String) : Bool :=
  match state.current? with
  | some method => decide (name ∈ method.table)
  | none => false

/-- Whether a name is a parameter of the method in progress. -/
def isParam (state : Lowering) (name : String) : Bool :=
  match state.current? with
  | some method => method.isParam name
  | none => false

/-- Changes the method in progress. -/
def changeMethod (state : Lowering) (change : Method → Method) : Lowering :=
  { state with current? := state.current?.map change }

/-- Whether a name means a field in the method in progress. -/
def isField (symbols : Symbols) (state : Lowering) (name : String) : Bool :=
  symbols.isField state.methodName name

/-- Whether a temporary may not take a name: the method or the class declares it. -/
def isTaken (symbols : Symbols) (state : Lowering) (name : String) : Bool :=
  symbols.isLocal state.methodName name ||
    symbols.isParam state.methodName name ||
    (symbols.field? name).isSome ||
    state.hasVariable name

/-- How many names may be taken at most. -/
def takenBound (symbols : Symbols) (state : Lowering) : Nat :=
  (symbols.localsOf state.methodName).length +
    (symbols.paramsOf state.methodName).length +
    symbols.fields.length +
    match state.current? with
    | some method => method.table.size
    | none => 0

/--
The first number from `start` on, of at most `bound`, whose temporary is not taken.
-/
def firstFree (symbols : Symbols) (state : Lowering) : (bound start : Nat) → Nat
  | 0, start => start
  | bound + 1, start =>
      if state.isTaken symbols (Code.temporaryName start) then
        firstFree symbols state bound (start + 1)
      else
        start

/--
The number of the next temporary; one number more than names are
taken is enough to find it.
-/
def freshNumber (symbols : Symbols) (state : Lowering) : Nat :=
  state.firstFree symbols (state.takenBound symbols) state.nextTemporary

end Lowering

namespace Lower

/-- Declares a variable in the method in progress, unless its name is taken. -/
def declare (name : String) (type : ValueType) (scope : Scope) : Lower Unit :=
  modify fun state => state.changeMethod fun method =>
    method.declare name type scope

/-- Appends an instruction to the method in progress. -/
def emit (instr : Instr) : Lower Unit :=
  modify fun state => state.changeMethod fun method =>
    { method with instrs := method.instrs ++ [instr] }

/-- A new temporary of the type. -/
def temporary (symbols : Symbols) (type : ValueType) : Lower Operand := do
  let state ← get
  let number := state.freshNumber symbols
  set { state with nextTemporary := number + 1 }
  declare (Code.temporaryName number) type .localVar
  return .var (Code.temporaryName number) type

/-- Stores a value in a new temporary of the type. -/
def intoTemporary
    (symbols : Symbols)
    (type : ValueType)
    (value : Instr) : Lower Operand := do
  let dest ← temporary symbols type
  emit (.store dest value)
  return dest

/--
Runs a step with the declared type of the assignment around it, and
restores the type.
-/
def underAssignment
    {α : Type}
    (type : TypeName)
    (step : Lower α) : Lower α := fun state =>
  match step { state with assigned? := some type } with
  | .ok result after => .ok result { after with assigned? := state.assigned? }
  | .error error after => .error error { after with assigned? := state.assigned? }

end Lower

end MiniJava
