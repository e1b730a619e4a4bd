import MiniJava.Proofs.Semantics.Code
import MiniJava.Proofs.Semantics.Declared
import MiniJava.Proofs.Steps

namespace MiniJava

/-!
# The meaning of a method body

Statements are evaluated in order on a store over names, and the children of an
expression from left to right; both operands of `&&` and `||` are always
evaluated. A field is read where it occurs, and the receiver is what the name
`this` holds.

The result of an operation is held under the type of its expression, so it has
to be of that kind. A variable, a literal or the receiver takes no evaluation:
it is only looked at once the operation around it takes its operands. The
outermost operation of an assignment to a variable is held by the variable.

A call finds its method by the names that are declared where it is evaluated.
-/

open Code (ValueType CallKind Operand Store)

/-- The value of a literal. -/
def Literal.value : Literal → Value
  | .int value => .int value
  | .bool value => .int (if value then 1 else 0)

/-- The value of a literal is of the kind of its type. -/
theorem Literal.value_fits
    (literal : Literal) :
    literal.value.fits (.ofTypeName (Expr.literal literal).type) = true := by
  cases literal <;> rfl

/-- What the meaning of a method body depends on. -/
structure Scene (Event : Type) extends Environment Event where
  symbols : Symbols
  method : MethodDef
  /--
  The class whose constructor is called when a new object of a class is assigned to
  a variable of a type.
  -/
  constructed : TypeName → String → ValueType

namespace Scene

variable {Event : Type} (scene : Scene Event)

/-- Whether a name means a field. -/
def isField (name : String) : Bool :=
  scene.symbols.isField scene.method.name name

/-- How a call finds its method where the given names are declared. -/
def callKind
    (declared : List String)
    (target : Expr)
    (method : String) : CallKind :=
  scene.method.callKind scene.symbols declared target method

/-- The names that are declared once an expression is evaluated. -/
def after (declared : List String) (expr : Expr) : List String :=
  scene.method.afterExpr scene.symbols declared expr

/-- The names that are declared once what a call is made on is evaluated. -/
def afterTarget
    (declared : List String)
    (target : Expr)
    (method : String) : List String :=
  scene.method.afterTarget scene.symbols declared target method

/--
The names that are declared once expressions are evaluated, from left to right.
-/
def afterAll (declared : List String) (exprs : List Expr) : List String :=
  scene.method.afterExprs scene.symbols declared exprs

/-- The names that are declared after a statement. -/
def afterStmt (declared : List String) (stmt : Stmt) : List String :=
  scene.method.afterStmt scene.symbols declared stmt

section

variable (declared : List String)

theorem after_binary
    (operator : Operator)
    (left right : Expr)
    (type : TypeName) :
    scene.after declared (.binary operator left right type) =
      scene.after (scene.after declared left) right := by
  rw [after, MethodDef.afterExpr]
  rfl

theorem after_call
    (target : Expr)
    (method : String)
    (arguments : List Expr)
    (type : TypeName) :
    scene.after declared (.call target method arguments type) =
      scene.afterAll (scene.afterTarget declared target method) arguments :=
  MethodDef.afterExpr_call target method arguments type

theorem after_newArray
    (size : Expr)
    (type : TypeName) :
    scene.after declared (.newArray size type) = scene.after declared size := by
  rw [after, MethodDef.afterExpr, after]

theorem after_element
    (array index : Expr)
    (type : TypeName) :
    scene.after declared (.element array index type) =
      scene.after (scene.after declared array) index := by
  rw [after, MethodDef.afterExpr]
  rfl

theorem after_length
    (array : Expr)
    (type : TypeName) :
    scene.after declared (.length array type) = scene.after declared array := by
  rw [after, MethodDef.afterExpr, after]

theorem afterStmt_evaluate
    (expr : Expr) :
    scene.afterStmt declared (.evaluate expr) = scene.after declared expr :=
  rfl

theorem afterAll_cons
    (first : Expr)
    (rest : List Expr) :
    scene.afterAll declared (first :: rest) =
      scene.afterAll (scene.after declared first) rest := by
  rw [afterAll, MethodDef.afterExprs]
  rfl

end

/-- The type of a variable where it is read. -/
def variableType (name : String) (type : TypeName) : ValueType :=
  if type.isImported then .object name else .ofTypeName type

/-- The type under which the result of an expression is held. -/
def typeOf (assigned? : Option TypeName) : Expr → ValueType
  | .literal (.int _) => .int
  | .literal (.bool _) => .boolean
  | .var name type =>
      if scene.isField name then scene.symbols.fieldType name type
        else variableType name type
  | .receiver _ => .object scene.symbols.className
  | .binary _ _ _ type => .ofTypeName type
  | .call _ _ _ type => type.callResult assigned? true
  | .newObject className _ => .object className
  | .newArray _ type => .ofTypeName type
  | .element _ _ type => .ofTypeName type
  | .length _ type => .ofTypeName type

/-- The receiver of the method. -/
def receiver (store : Store String) : Held :=
  .ofContent (.object scene.symbols.className) (store Operand.receiverName)

/-- What an expression that is no operation stands for. -/
def atom? (store : Store String) : Expr → Option Held
  | .literal (.int value) => some ⟨.int, some (.int value)⟩
  | .literal (.bool value) => some ⟨.boolean, some (.int (if value then 1 else 0))⟩
  | .var name type =>
      if scene.isField name then
        none
      else
        some (.ofContent (variableType name type) (store name))
  | .receiver _ => some (scene.receiver store)
  | _ => none

/-- Holds the result of an expression under its type. -/
def hold
    (store : Store String)
    (assigned? : Option TypeName)
    (expr : Expr)
    (result : Run Event Value) :
    Run Event Held :=
  match scene.atom? store expr with
  | some held => pure held
  | none => do
      let value ← result
      if value.fits (scene.typeOf assigned? expr) then
        return ⟨scene.typeOf assigned? expr, some value⟩
      else
        throw .illTyped

/--
What a call is made on: the class that a static call names, or else the target.
-/
def callee
    (declared : List String)
    (target : Expr)
    (method : String)
    (held : Run Event Held) :
    Run Event Callee :=
  match scene.callKind declared target method, target with
  | .static, .var name _ => pure (.ofClass name)
  | _, _ => Callee.object <$> held

mutual

/--
The result of the outermost operation of an expression, inside an assignment of a
type and where the given names are declared.
-/
def result
    (store : Store String)
    (declared : List String)
    (assigned? : Option TypeName) :
    Expr → Run Event Value
  | .literal value =>
      Run.require ((scene.atom? store (.literal value)).bind Held.value?)
  | .var name type =>
      if scene.isField name then
        scene.getField (scene.receiver store)
          ⟨name, scene.symbols.fieldType name type⟩
      else
        Run.require ((scene.atom? store (.var name type)).bind Held.value?)
  | .receiver _ => Run.require (scene.receiver store).value?
  | .binary operator left right _ => do
      let leftHeld ←
        scene.hold store assigned? left (result store declared assigned? left)
      let rightHeld ← scene.hold store assigned? right
        (result store (scene.after declared left) assigned? right)
      operator.operate leftHeld rightHeld
  | .call target method arguments type => do
      let callee ← scene.callee declared target method
        (scene.hold store assigned? target (result store declared assigned? target))
      let arguments ←
        results store (scene.afterTarget declared target method) assigned? arguments
      scene.callValue (scene.callKind declared target method) callee method
        arguments (type.callResult assigned? true)
  | .newObject className _ => do
      let object ← scene.newObject className
      scene.construct ⟨.object className, some object⟩
      return object
  | .newArray size type => do
      let size ←
        scene.hold store assigned? size (result store declared assigned? size)
      scene.newArray (.ofTypeName type) size
  | .element array index _ => do
      let arrayHeld ←
        scene.hold store assigned? array (result store declared assigned? array)
      let indexHeld ← scene.hold store assigned? index
        (result store (scene.after declared array) assigned? index)
      scene.element arrayHeld indexHeld
  | .length array _ => do
      let array ←
        scene.hold store assigned? array (result store declared assigned? array)
      scene.length array

/-- Holds the results of expressions, from left to right. -/
def results
    (store : Store String)
    (declared : List String)
    (assigned? : Option TypeName) :
    List Expr → Run Event (List Held)
  | [] => return []
  | first :: rest => do
      let firstHeld ←
        scene.hold store assigned? first (result store declared assigned? first)
      let restHeld ← results store (scene.after declared first) assigned? rest
      return firstHeld :: restHeld

end

/-- Evaluates an expression and holds its result. -/
def operand
    (store : Store String)
    (declared : List String)
    (assigned? : Option TypeName)
    (expr : Expr) :
    Run Event Held :=
  scene.hold store assigned? expr (scene.result store declared assigned? expr)

section

variable (store : Store String) (declared : List String)
  (assigned? : Option TypeName)

variable {store declared assigned?} in
/-- An expression that is no operation takes no evaluation. -/
theorem operand_of_atom
    {expr : Expr}
    {held : Held}
    (isAtom : scene.atom? store expr = some held) :
    scene.operand store declared assigned? expr = pure held := by
  simp only [operand, hold, isAtom]

variable {store declared assigned?} in
/-- The result of an operation is held under its type. -/
theorem operand_of_operation
    {expr : Expr}
    (isOperation : scene.atom? store expr = none) :
    scene.operand store declared assigned? expr =
      (do
        let value ← scene.result store declared assigned? expr
        if value.fits (scene.typeOf assigned? expr) then
          return ⟨scene.typeOf assigned? expr, some value⟩
        else
          throw .illTyped) := by
  simp only [operand, hold, isOperation]

/-- A literal stands for its value. -/
theorem atom?_literal
    (literal : Literal) :
    scene.atom? store (.literal literal) =
      some ⟨.ofTypeName (Expr.literal literal).type, some literal.value⟩ := by
  cases literal <;> rfl

theorem result_literal
    (literal : Literal) :
    scene.result store declared assigned? (.literal literal) =
      pure literal.value := by
  rw [result, atom?_literal]
  rfl

theorem operand_literal
    (literal : Literal) :
    scene.operand store declared assigned? (.literal literal) =
      pure ⟨.ofTypeName (Expr.literal literal).type, some literal.value⟩ :=
  scene.operand_of_atom (scene.atom?_literal store literal)

/-- The result of a variable is what it holds. -/
theorem result_of_not_field
    {name : String}
    (notField : scene.isField name = false)
    (type : TypeName) :
    scene.result store declared assigned? (.var name type) =
      Run.require ((scene.atom? store (.var name type)).bind Held.value?) := by
  simp only [result, notField, Bool.false_eq_true, if_false]

/-- Both operands of an operator are evaluated, the left one first. -/
theorem result_binary
    (operator : Operator)
    (left right : Expr)
    (type : TypeName) :
    scene.result store declared assigned? (.binary operator left right type) =
      (do
        let leftHeld ← scene.operand store declared assigned? left
        let rightHeld ←
          scene.operand store (scene.after declared left) assigned? right
        operator.operate leftHeld rightHeld) := by
  rw [result]
  rfl

/-- What is called is evaluated before the arguments. -/
theorem result_call
    (target : Expr)
    (method : String)
    (arguments : List Expr)
    (type : TypeName) :
    scene.result store declared assigned? (.call target method arguments type) =
      (do
        let callee ← scene.callee declared target method
          (scene.operand store declared assigned? target)
        let arguments ←
          scene.results store (scene.afterTarget declared target method) assigned?
            arguments
        scene.callValue (scene.callKind declared target method) callee method
          arguments (type.callResult assigned? true)) := by
  rw [result]
  rfl

theorem result_newArray
    (size : Expr)
    (type : TypeName) :
    scene.result store declared assigned? (.newArray size type) =
      (do
        let size ← scene.operand store declared assigned? size
        scene.newArray (.ofTypeName type) size) := by
  rw [result]
  rfl

/-- The array is evaluated before the index. -/
theorem result_element
    (array index : Expr)
    (type : TypeName) :
    scene.result store declared assigned? (.element array index type) =
      (do
        let arrayHeld ← scene.operand store declared assigned? array
        let indexHeld ←
          scene.operand store (scene.after declared array) assigned? index
        scene.element arrayHeld indexHeld) := by
  rw [result]
  rfl

theorem result_length
    (array : Expr)
    (type : TypeName) :
    scene.result store declared assigned? (.length array type) =
      (do
        let array ← scene.operand store declared assigned? array
        scene.length array) := by
  rw [result]
  rfl

/-- Expressions are evaluated from left to right. -/
theorem results_cons
    (first : Expr)
    (rest : List Expr) :
    scene.results store declared assigned? (first :: rest) =
      (do
        let firstHeld ← scene.operand store declared assigned? first
        let restHeld ←
          scene.results store (scene.after declared first) assigned? rest
        return firstHeld :: restHeld) := by
  rw [results]
  rfl

end

/-- A static call is made on its class. -/
theorem callee_of_static
    {declared : List String}
    {name method : String}
    {annotated : TypeName}
    (static : scene.callKind declared (.var name annotated) method = .static)
    (held : Run Event Held) :
    scene.callee declared (.var name annotated) method held =
      pure (.ofClass name) := by
  simp only [callee, static]

/-- Any other call is made on its target. -/
theorem callee_of_not_static
    {declared : List String}
    {target : Expr}
    {method : String}
    (notStatic : scene.callKind declared target method ≠ .static)
    (held : Run Event Held) :
    scene.callee declared target method held = Callee.object <$> held := by
  unfold callee
  split
  · contradiction
  · rfl

/--
The value that is assigned to a variable of a type; a new object is
not constructed yet.
-/
def assigned (store : Store String) (declared : List String) (type : TypeName) :
    Expr → Run Event Value
  | .binary operator left right annotated =>
      scene.result store declared (some type)
        (.binary operator left right annotated)
  | .call target method arguments annotated =>
      scene.result store declared (some type)
        (.call target method arguments annotated)
  | .newObject className _ => scene.newObject className
  | .newArray size annotated =>
      scene.result store declared (some type) (.newArray size annotated)
  | other => do
      let held ← scene.operand store declared (some type) other
      Run.require held.value?

theorem assigned_literal
    (store : Store String)
    (declared : List String)
    (type : TypeName)
    (literal : Literal) :
    scene.assigned store declared type (.literal literal) = pure literal.value := by
  show (scene.operand store declared (some type) (.literal literal) >>= fun held =>
    Run.require held.value?) = _
  rw [operand_literal]
  rfl

/-- The store after a value is assigned to a variable of a type. -/
def write (store : Store String) (name : String) (type : TypeName) (value : Value) :
    Run Event (Store String) :=
  if value.fits (.ofTypeName type) then
    return Function.update store name (some value)
  else
    throw .illTyped

/-- Constructs a new object once it is assigned to a variable of a type. -/
def constructAssigned (type : TypeName) (value : Value) : Expr → Run Event Unit
  | .newObject className _ =>
      scene.construct ⟨scene.constructed type className, some value⟩
  | _ => return

/--
Evaluates a statement where the given names are declared: a return ends the run.
-/
def exec
    (store : Store String)
    (declared : List String) : Stmt → Run Event (Store String)
  | .assign name type source =>
      if scene.isField name then do
        let stored ← scene.operand store declared (some type) source
        scene.putField (scene.receiver store)
          ⟨name, scene.symbols.fieldType name type⟩ stored
        return store
      else do
        let value ← scene.assigned store declared type source
        let store ← write store name type value
        scene.constructAssigned type value source
        return store
  | .evaluate (.call target method arguments type) => do
      let callee ← scene.callee declared target method
        (scene.operand store declared none target)
      let arguments ←
        scene.results store (scene.afterTarget declared target method) none
          arguments
      let _ ←
        scene.invoke (scene.callKind declared target method) callee method arguments
        (type.callResult none false)
      return store
  | .evaluate other => do
      let _ ← scene.operand store declared none other
      return store
  | .ret none => throw (.returned none)
  | .ret (some expr) => do
      let held ← scene.operand store declared none expr
      let value ← Run.require held.value?
      if value.fits (.ofTypeName scene.method.returnType) then
        throw (.returned (some value))
      else
        throw .illTyped

/-- A return ends every run of a body. -/
theorem exec_ret
    (store : Store String)
    (declared : List String)
    (result : Option Expr)
    (events : List Event) :
    ∃ outcome later,
      scene.exec store declared (.ret result) events = .error outcome later := by
  cases ran : scene.exec store declared (.ret result) events with
  | error outcome later =>
      exact ⟨outcome, later, rfl⟩
  | ok after later =>
      cases result with
      | none =>
          cases ran
      | some expr =>
          obtain ⟨_, _, _, ran⟩ := bind_ok_iff.mp ran
          obtain ⟨_, _, _, ran⟩ := bind_ok_iff.mp ran
          split at ran
          · cases ran
          · cases ran

/--
Evaluates statements in order; what one declares is declared for those after it.
-/
def execAll (store : Store String) (declared : List String) :
    List Stmt → Run Event (Store String)
  | [] => return store
  | first :: rest => do
      let store ← exec scene store declared first
      execAll store (scene.afterStmt declared first) rest

/-- How a body ends that has no return at its end. -/
def finished : Outcome :=
  if (ValueType.ofTypeName scene.method.returnType).isVoid then
    .returned none else .endOfBody

/-- The outcome and events of the method's body. -/
def behaviour (store : Store String) : Outcome × List Event :=
  (scene.execAll store (scene.method.firstNames scene.symbols)
    scene.method.body).behaviour scene.finished

end Scene

/-- A method in a world that never answers. -/
def MethodDef.unanswered (symbols : Symbols) (source : MethodDef) : Scene Unit where
  answer _ := none
  address _ := none
  record _ := ()
  symbols := symbols
  method := source
  constructed type _ := .ofTypeName type

end MiniJava
