import MiniJava.Assembly.Emitter

namespace MiniJava.Assembly

/-!
# The assembly of a class

A class is its header, its fields, a constructor that only calls that of the
parent class, and its methods.
-/

open Code (Operand Method ClassCode)

/-- The lines of a method, from its instructions and limits. -/
def methodLines
    (unit : ClassCode)
    (method : Method)
    (limits : Jvm.Limits)
    (body : List Jvm.Instr) :
    List Line :=
  let descriptor :=
    unit.methodDescriptor (method.params.map Operand.type) method.returnType
  [.methodStart method.visibility method.isStatic method.name descriptor,
    .stackLimit limits.maxDepth.toInt,
    .localsLimit (limits.maxLocals method.baseSlot)] ++
    body.map .code ++
    [.methodEnd]

/-- The lines before the methods of a class. -/
def classLines (unit : ClassCode) : List Line :=
  [.classHeader unit.name, .superHeader unit.superPath, .blank] ++
    unit.fields.map (fun field =>
      .field field.visibility field.name (unit.descriptor field.type)) ++
    [.comment "default constructor",
      .methodStart .everyone false Code.constructorName "()V",
      .code (.load .reference 0),
      .code (.invoke .special unit.superPath Code.constructorName "()V" 0 false),
      .code (.ret none),
      .methodEnd]

namespace Emit

/-- Writes lines. -/
def lines (added : List Line) : Emit Unit :=
  modify fun state => { state with lines := state.lines ++ added }

/-- Starts a method with an empty body. -/
def enter (method : Method) : Emit Unit :=
  modify fun state =>
    { state with current? := some method, body := [], limits := {} }

/-- Writes the current method with its body and leaves it. -/
def leave (unit : ClassCode) (method : Method) : Emit Unit :=
  modify fun state =>
    { state with
      lines := state.lines ++ methodLines unit method state.limits state.body
      body := []
      current? := none
      overflowed := state.overflowed || state.limits.overflowed }

/-- Emits a method. -/
def method (unit : ClassCode) (source : Method) : Emit Unit := do
  enter source
  codes unit source.instrs
  leave unit source

/-- Emits methods in order, each after a blank line. -/
def methods (unit : ClassCode) : List Method → Emit Unit
  | [] => return
  | first :: rest => do
      lines [.blank]
      method unit first
      methods unit rest

/-- Emits a whole class. -/
def wholeClass (unit : ClassCode) : Emit Unit := do
  lines (classLines unit)
  methods unit unit.methods

end Emit

/-- The lines of a class. Limits that leave their range wrap around. -/
def generate (unit : ClassCode) : Except CompileError (List Line) :=
  match Emit.wholeClass unit {} with
  | .ok _ state => .ok state.lines
  | .error error _ => .error error

/-- How emission with checked arithmetic stops. -/
inductive Stop where
  | failed (error : CompileError)
  | overflow
  deriving DecidableEq

/-- The lines of a class, if no limits leave their range. -/
def generateChecked (unit : ClassCode) : Except Stop (List Line) :=
  match Emit.wholeClass unit {} with
  | .ok _ state => if state.overflowed then .error .overflow else .ok state.lines
  | .error error state =>
      if state.overflowed || state.limits.depthOverflowed then
        .error .overflow
      else
        .error (.failed error)

end MiniJava.Assembly
