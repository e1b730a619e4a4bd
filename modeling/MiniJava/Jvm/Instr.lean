import MiniJava.Code.Basic

namespace MiniJava.Jvm

/-!
# Instructions of the stack machine

Each instruction has a text and a net effect on the depth of the operand stack.
Constants and slots have shorter spellings for small numbers.
-/

open Code (CallKind)

/-- What a slot or a returned value holds; truth values count as integers. -/
inductive Kind where
  | int
  | reference
  deriving DecidableEq

/-- The letter that starts a mnemonic of the kind. -/
def Kind.letter : Kind → String
  | .int => "i"
  | .reference => "a"

/-- An operation on two integers. -/
inductive Arithmetic where
  | add
  | sub
  | mul
  | div
  | and
  | or
  deriving DecidableEq

/-- The mnemonic of an operation. -/
def Arithmetic.mnemonic : Arithmetic → String
  | .add => "iadd"
  | .sub => "isub"
  | .mul => "imul"
  | .div => "idiv"
  | .and => "iand"
  | .or => "ior"

/-- The items of an array that holds no references. -/
inductive Primitive where
  | int
  | boolean
  deriving DecidableEq

/-- The name of a primitive type. -/
def Primitive.text : Primitive → String
  | .int => "int"
  | .boolean => "boolean"

/-- An instruction of the stack machine. -/
inductive Instr where
  | load (kind : Kind) (slot : Nat)
  | store (kind : Kind) (slot : Nat)
  | const (value : Int32)
  | arith (operation : Arithmetic)
  /-- Jumps if the lower of two integers on the stack is less than the upper one. -/
  | jumpIfLess (target : String)
  | jump (target : String)
  | label (name : String)
  | newObject (path : String)
  | newPrimitives (item : Primitive)
  | newReferences (path : String)
  | getField (owner name descriptor : String)
  | putField (owner name descriptor : String)
  /-- Calls a method; the arguments do not count the receiver. -/
  | invoke
      (kind : CallKind)
      (owner name descriptor : String)
      (arguments : Nat)
      (returnsValue : Bool)
  | pop
  | ret (kind : Option Kind)
  deriving DecidableEq

namespace Instr

/--
The change of the stack's depth by a call, in 32 bits with a sign. A longer
number of arguments is cut to them.
-/
def callEffect (kind : CallKind) (arguments : Nat) (returnsValue : Bool) : Int32 :=
  let receiver : Int32 := if kind = .static then 0 else 1
  (if returnsValue then 1 else 0) - (Int32.ofNat arguments + receiver)

/-- The change of the stack's depth. -/
def stackEffect : Instr → Int32
  | .load _ _ => 1
  | .store _ _ => -1
  | .const _ => 1
  | .arith _ => -1
  | .jumpIfLess _ => -2
  | .jump _ => 0
  | .label _ => 0
  | .newObject _ => 1
  | .newPrimitives _ => 0
  | .newReferences _ => 0
  | .getField _ _ _ => 0
  | .putField _ _ _ => -2
  | .invoke kind _ _ _ arguments returnsValue =>
      callEffect kind arguments returnsValue
  | .pop => -1
  | .ret (some _) => -1
  | .ret none => 0

/-- The slot that an instruction loads or stores. -/
def slot? : Instr → Option Nat
  | .load _ slot => some slot
  | .store _ slot => some slot
  | _ => none

/-- Whether the instruction is a label, which does no work. -/
def isLabel : Instr → Bool
  | .label _ => true
  | _ => false

/-- How a slot is written after a mnemonic: joined to it up to three. -/
def slotText (slot : Nat) : String :=
  (if slot ≤ 3 then "_" else " ") ++ Decimal.ofNat slot

/-- How a constant is pushed: the shortest instruction whose range holds it. -/
def constText (value : Int32) : String :=
  let number := value.toInt
  if number = -1 then
    "iconst_m1"
  else if 0 ≤ number ∧ number ≤ 5 then
    "iconst_" ++ Decimal.ofInt number
  else if -128 ≤ number ∧ number ≤ 127 then
    "bipush " ++ Decimal.ofInt number
  else if -32768 ≤ number ∧ number ≤ 32767 then
    "sipush " ++ Decimal.ofInt number
  else
    "ldc " ++ Decimal.ofInt number

/-- The text of an instruction. -/
def text : Instr → String
  | .load kind slot => kind.letter ++ "load" ++ slotText slot
  | .store kind slot => kind.letter ++ "store" ++ slotText slot
  | .const value => constText value
  | .arith operation => operation.mnemonic
  | .jumpIfLess target => "if_icmplt " ++ target
  | .jump target => "goto " ++ target
  | .label name => name ++ ":"
  | .newObject path => "new " ++ path
  | .newPrimitives item => "newarray " ++ item.text
  | .newReferences path => "anewarray " ++ path
  | .getField owner name descriptor =>
      "getfield " ++ owner ++ "/" ++ name ++ " " ++ descriptor
  | .putField owner name descriptor =>
      "putfield " ++ owner ++ "/" ++ name ++ " " ++ descriptor
  | .invoke kind owner name descriptor _ _ =>
      kind.mnemonic ++ " " ++ owner ++ "/" ++ name ++ descriptor
  | .pop => "pop"
  | .ret (some kind) => kind.letter ++ "return"
  | .ret none => "return"

end Instr

end MiniJava.Jvm
