import Mathlib.Logic.Function.Basic
import Mathlib.Logic.Relation
import MiniJava.Jvm.Descriptor
import MiniJava.Jvm.Instr
import MiniJava.Proofs.Semantics.Run

namespace MiniJava.Jvm

/-!
# The stack machine

The machine runs the body of one method. It has the slots of the method and an
operand stack, and it keeps the position of the next instruction; a jump goes
to the first label of its name. Loads and stores check the kind of the value,
and arithmetic is that of 32-bit integers.
-/

open Code (CallKind ClassCode ValueType)

/-- What a run of the machine asks of the world or tells it. -/
inductive Event where
  | invoke
      (kind : CallKind)
      (owner name descriptor : String)
      (receiver : Option Nat)
      (arguments : List Value)
  | newObject (path : String)
  | newPrimitives (item : Primitive) (size : Int32)
  | newReferences (path : String) (size : Int32)
  | getField (owner name descriptor : String) (object : Nat)
  | putField (owner name descriptor : String) (object : Nat) (value : Value)
  /-- Reads of arrays, for which the machine has no instructions. -/
  | element (array : Nat) (index : Int32)
  | length (array : Nat)
  deriving DecidableEq

/-- The path of the class that a type of receivers stands for. -/
def ownerPath (unit : ClassCode) : ValueType → String
  | .object name => unit.classPath name
  | .string => Code.stringPath
  | other => unit.descriptor other

/-- The creation of an array of a type. -/
def arrayEvent (unit : ClassCode) (size : Int32) : ValueType → Event
  | .array .int => .newPrimitives .int size
  | .array .boolean => .newPrimitives .boolean size
  | .array item => .newReferences (ownerPath unit item) size
  | other => .newReferences (unit.descriptor other) size

/-- An event of three-address code as the machine spells it in a class. -/
def spelled (unit : ClassCode) : Code.Event → Event
  | .call kind owner receiver method types arguments result =>
      .invoke kind (ownerPath unit owner) method
        (unit.methodDescriptor types result) receiver arguments
  | .newObject className => .newObject (unit.classPath className)
  | .newArray type size => arrayEvent unit size type
  | .element array index => .element array index
  | .length array => .length array
  | .getField object field =>
      .getField unit.name field.name (unit.descriptor field.type) object
  | .putField object field value =>
      .putField unit.name field.name (unit.descriptor field.type) object value

/--
The environment of three-address code whose events the machine spells in a class.
-/
def environment (world : World Event) (unit : ClassCode) : Environment Event :=
  { world with record := spelled unit }

/-- The kind of a value. -/
def kindOf : Value → Kind
  | .int _ => .int
  | .reference _ => .reference

/-- The state of the machine. -/
structure State where
  position : Nat
  stack : List Value
  slots : Nat → Option Value

namespace State

/-- The state after the instruction at the position, with a new stack. -/
def next (state : State) (stack : List Value) : State :=
  { state with position := state.position + 1, stack }

end State

/-- The result of an operation on two integers. -/
def Arithmetic.run : Arithmetic → Int32 → Int32 → Run Event Value
  | .add, left, right => pure (.int (left + right))
  | .sub, left, right => pure (.int (left - right))
  | .mul, left, right => pure (.int (left * right))
  | .div, left, right =>
      if right = 0 then throw .divisionByZero else pure (.int (left / right))
  | .and, left, right => pure (.int (left &&& right))
  | .or, left, right => pure (.int (left ||| right))

/-- The position of the label of a name. -/
def target? (body : List Instr) (name : String) : Option Nat :=
  body.findIdx? (· = .label name)

/-- The values that a call takes from the stack, the last argument being on top. -/
def popArguments
    (count : Nat)
    (stack : List Value) : Option (List Value × List Value) :=
  if count ≤ stack.length then
    some ((stack.take count).reverse, stack.drop count)
  else
    none

/-- The receiver that a call takes from the stack below its arguments. -/
def popReceiver
    (kind : CallKind)
    (stack : List Value) : Option (Option Nat × List Value) :=
  if kind = .static then
    some (none, stack)
  else
    match stack with
    | .reference address :: rest => some (some address, rest)
    | _ => none

/-- Runs one instruction. -/
def execute
    (world : World Event)
    (body : List Instr)
    (state : State) : Instr → Run Event State
  | .load kind slot =>
      match state.slots slot with
      | some value =>
          if kindOf value = kind then
            return state.next (value :: state.stack)
          else
            throw .illTyped
      | none => throw .illTyped
  | .store kind slot =>
      match state.stack with
      | value :: rest =>
          if kindOf value = kind then
            return { state.next rest
              with slots := Function.update state.slots slot (some value) }
          else
            throw .illTyped
      | [] => throw .illTyped
  | .const value => return state.next (.int value :: state.stack)
  | .arith operation =>
      match state.stack with
      | .int right :: .int left :: rest => do
          let value ← operation.run left right
          return state.next (value :: rest)
      | _ => throw .illTyped
  | .jumpIfLess name =>
      match state.stack with
      | .int right :: .int left :: rest =>
          if left < right then do
            let position ← Run.require (target? body name)
            return { state with position, stack := rest }
          else
            return state.next rest
      | _ => throw .illTyped
  | .jump name => do
      let position ← Run.require (target? body name)
      return { state with position }
  | .label _ => return state.next state.stack
  | .newObject path => do
      let object ← world.allocate (.newObject path)
      return state.next (object :: state.stack)
  | .newPrimitives item =>
      match state.stack with
      | .int size :: rest => do
          let array ← world.allocate (.newPrimitives item size)
          return state.next (array :: rest)
      | _ => throw .illTyped
  | .newReferences path =>
      match state.stack with
      | .int size :: rest => do
          let array ← world.allocate (.newReferences path size)
          return state.next (array :: rest)
      | _ => throw .illTyped
  | .getField owner name descriptor =>
      match state.stack with
      | .reference object :: rest => do
          let value ← world.ask (.getField owner name descriptor object)
          return state.next (value :: rest)
      | _ => throw .illTyped
  | .putField owner name descriptor =>
      match state.stack with
      | value :: .reference object :: rest => do
          let _ ← world.ask (.putField owner name descriptor object value)
          return state.next rest
      | _ => throw .illTyped
  | .invoke kind owner name descriptor count returnsValue => do
      let (arguments, rest) ← Run.require (popArguments count state.stack)
      let (receiver, rest) ← Run.require (popReceiver kind rest)
      let value ← world.ask (.invoke kind owner name descriptor receiver arguments)
      return state.next (if returnsValue then value :: rest else rest)
  | .pop =>
      match state.stack with
      | _ :: rest => return state.next rest
      | [] => throw .illTyped
  | .ret (some kind) =>
      match state.stack with
      | value :: _ =>
          if kindOf value = kind then
            throw (.returned (some value))
          else
            throw .illTyped
      | [] => throw .illTyped
  | .ret none => throw (.returned none)

/-- One step of the machine: it runs the instruction at its position. -/
def step
    (world : World Event)
    (body : List Instr)
    (state : State) : Run Event State :=
  match body[state.position]? with
  | some instr => execute world body state instr
  | none => throw .endOfBody

/-- A state of the machine together with the events so far. -/
abbrev Configuration := State × List Event

/-- Some steps lead from one configuration to another. -/
def Reaches
    (world : World Event)
    (body : List Instr) : Configuration → Configuration → Prop :=
  Relation.ReflTransGen fun first second =>
    step world body first.1 first.2 = .ok second.1 second.2

/--
The run from a configuration ends with an outcome and with these events in all.
-/
def Ends
    (world : World Event)
    (body : List Instr)
    (start : Configuration)
    (outcome : Outcome)
    (events : List Event) : Prop :=
  ∃ last, Reaches world body start last ∧
    step world body last.1 last.2 = .error outcome events

/-- The whole run of a body on given slots ends with an outcome and these events. -/
def Behaves
    (world : World Event)
    (body : List Instr)
    (slots : Nat → Option Value)
    (outcome : Outcome)
    (events : List Event) : Prop :=
  Ends world body (⟨0, [], slots⟩, []) outcome events

end MiniJava.Jvm
