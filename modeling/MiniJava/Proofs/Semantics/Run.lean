import MiniJava.Code.Basic

namespace MiniJava

/-!
# Runs and what is seen of them

A run of a method is seen from outside through its events: the calls it makes,
the objects and arrays it creates, and the fields and items it reads and
writes. What comes back is not part of the method. It is answered by a world,
which may decide on all events so far and may also end the run by throwing.

Values are integers or references. An operation that finds a value of the wrong
kind, or no value at all, ends the run as ill typed.
-/

open Code (ValueType CallKind FieldRef Operand)

/-- A value; truth values are the integers one and zero. -/
inductive Value where
  | int (number : Int32)
  | reference (address : Nat)
  deriving DecidableEq

namespace Value

/-- Whether a value is of the kind that a type stands for. -/
def fits : Value → ValueType → Bool
  | .int _, type => !type.isReference
  | .reference _, type => type.isReference

/-- The number that a value is. -/
def number? : Value → Option Int32
  | .int number => some number
  | .reference _ => none

/-- The address that a value is. -/
def address? : Value → Option Nat
  | .int _ => none
  | .reference address => some address

end Value

/-- How a run ends. -/
inductive Outcome where
  | returned (value : Option Value)
  | divisionByZero
  /-- The world throws instead of answering. -/
  | thrown
  /-- A value is missing or of the wrong kind. -/
  | illTyped
  /-- The last instruction is done and was not a return. -/
  | endOfBody
  deriving DecidableEq

/-- What a run asks of the world or tells it, in the terms of three-address code. -/
inductive Code.Event where
  /-- A call on a receiver, or on a class if there is none. -/
  | call
      (kind : CallKind)
      (owner : ValueType)
      (receiver : Option Nat)
      (method : String)
      (types : List ValueType)
      (arguments : List Value)
      (result : ValueType)
  | newObject (className : String)
  | newArray (type : ValueType) (size : Int32)
  | element (array : Nat) (index : Int32)
  | length (array : Nat)
  | getField (object : Nat) (field : FieldRef)
  | putField (object : Nat) (field : FieldRef) (value : Value)
  deriving DecidableEq

/-- A world: its answers depend on all events so far, the last one included. -/
structure World (Event : Type) where
  /-- The answer to a call or a read. -/
  answer : List Event → Option Value
  /-- The address of a new object or array. -/
  address : List Event → Option Nat

/-- A world, and how it sees the events of three-address code. -/
structure Environment (Event : Type) extends World Event where
  record : Code.Event → Event

/--
A run: it goes on with a value or ends with an outcome, and adds to
the events so far.
-/
abbrev Run (Event α : Type) := EStateM Outcome (List Event) α

namespace Run

variable {Event α β : Type}

/-- Goes on with a value if there is one. -/
def require : Option α → Run Event α
  | some value => pure value
  | none => throw .illTyped

@[simp] theorem require_some (value : α) :
    (require (some value) : Run Event α) = pure value :=
  rfl

@[simp] theorem require_none :
    (require none : Run Event α) = throw .illTyped :=
  rfl

@[simp] theorem throw_bind (outcome : Outcome) (next : α → Run Event β) :
    (throw outcome : Run Event α) >>= next = throw outcome :=
  rfl

@[simp] theorem map_throw (outcome : Outcome) (change : α → β) :
    change <$> (throw outcome : Run Event α) = throw outcome :=
  rfl

/--
The outcome and events of a run from the start; `finished` is the
outcome if it does not end itself.
-/
def behaviour (finished : Outcome) (run : Run Event α) : Outcome × List Event :=
  match run [] with
  | .ok _ events => (finished, events)
  | .error outcome events => (outcome, events)

end Run

namespace World

variable {Event : Type}

/-- Adds an event and goes on with the answer to it. -/
def ask (world : World Event) (event : Event) : Run Event Value := fun events =>
  match world.answer (events ++ [event]) with
  | some value => .ok value (events ++ [event])
  | none => .error .thrown (events ++ [event])

/-- Adds an event and goes on with a reference to what is new. -/
def allocate
    (world : World Event)
    (event : Event) : Run Event Value := fun events =>
  match world.address (events ++ [event]) with
  | some address => .ok (.reference address) (events ++ [event])
  | none => .error .thrown (events ++ [event])

end World

/-- The value of an operator on integers. -/
def Operator.run {Event : Type} : Operator → Int32 → Int32 → Run Event Value
  | .add, left, right => pure (.int (left + right))
  | .sub, left, right => pure (.int (left - right))
  | .mul, left, right => pure (.int (left * right))
  | .div, left, right =>
      if right = 0 then throw .divisionByZero else pure (.int (left / right))
  | .less, left, right => pure (.int (if left < right then 1 else 0))
  | .and, left, right => pure (.int (left &&& right))
  | .or, left, right => pure (.int (left ||| right))

/-- An operand as an operation finds it: its type, and its value if it has one. -/
structure Held where
  type : ValueType
  value? : Option Value
  deriving DecidableEq

namespace Held

/-- What a variable of a type holds, if its content is of the type's kind. -/
def ofContent (type : ValueType) (content : Option Value) : Held :=
  ⟨type, content.filter (·.fits type)⟩

/-- The number that is held. -/
def number? (held : Held) : Option Int32 :=
  held.value?.bind Value.number?

/-- The address that is held. -/
def address? (held : Held) : Option Nat :=
  held.value?.bind Value.address?

/-- The values of operands, if all of them have one. -/
def values? : List Held → Option (List Value)
  | [] => some []
  | first :: rest => do
      let value ← first.value?
      let values ← values? rest
      return value :: values

end Held

/-- The value of an operator on two operands. -/
def Operator.operate {Event : Type} (operator : Operator) (left right : Held) :
    Run Event Value := do
  let left ← Run.require left.number?
  let right ← Run.require right.number?
  operator.run left right

/-- What a call is made on. -/
inductive Callee where
  | ofClass (name : String)
  | object (held : Held)
  deriving DecidableEq

namespace Callee

/-- The class whose method is called. -/
def owner : Callee → ValueType
  | .ofClass name => .object name
  | .object held => held.type

/-- The receiver of the call, if it has one. -/
def receiver {Event : Type} : Callee → Run Event (Option Nat)
  | .ofClass _ => pure none
  | .object held => some <$> Run.require held.address?

end Callee

namespace Environment

variable {Event : Type} (environment : Environment Event)

/-- Asks the world about an event of three-address code. -/
def perform (event : Code.Event) : Run Event Value :=
  environment.ask (environment.record event)

/-- Calls a method. -/
def invoke
    (kind : CallKind)
    (callee : Callee)
    (method : String)
    (arguments : List Held)
    (result : ValueType) :
    Run Event Value := do
  let receiver ← callee.receiver
  let values ← Run.require (Held.values? arguments)
  environment.perform
    (.call kind callee.owner receiver method (arguments.map Held.type)
      values result)

/-- The value of a call; a call without result has none. -/
def callValue
    (kind : CallKind)
    (callee : Callee)
    (method : String)
    (arguments : List Held)
    (result : ValueType) :
    Run Event Value := do
  let value ← environment.invoke kind callee method arguments result
  if result.isVoid then throw .illTyped else return value

/-- Creates an object that is not constructed yet. -/
def newObject (className : String) : Run Event Value :=
  environment.allocate (environment.record (.newObject className))

/-- Creates an array. -/
def newArray (type : ValueType) (size : Held) : Run Event Value := do
  let size ← Run.require size.number?
  environment.allocate (environment.record (.newArray type size))

/-- Reads an item of an array. -/
def element (array index : Held) : Run Event Value := do
  let array ← Run.require array.address?
  let index ← Run.require index.number?
  environment.perform (.element array index)

/-- Reads the length of an array. -/
def length (array : Held) : Run Event Value := do
  let array ← Run.require array.address?
  environment.perform (.length array)

/-- Reads a field. -/
def getField (object : Held) (field : FieldRef) : Run Event Value := do
  let object ← Run.require object.address?
  environment.perform (.getField object field)

/-- Writes a field. -/
def putField
    (object : Held)
    (field : FieldRef)
    (stored : Held) : Run Event Unit := do
  let object ← Run.require object.address?
  let value ← Run.require stored.value?
  let _ ← environment.perform (.putField object field value)

/-- Calls the constructor of a new object. -/
def construct (object : Held) : Run Event Unit := do
  let _ ← environment.invoke .special (.object object) Code.constructorName [] .void

end Environment

end MiniJava
