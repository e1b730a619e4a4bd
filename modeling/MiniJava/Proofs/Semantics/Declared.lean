import Mathlib.Data.List.Infix
import MiniJava.Lowering.Statement

namespace MiniJava

/-!
# The names that are declared so far

How a call finds its method depends on the names that stand for variables where
the call is made. A body starts with its receiver and its parameters. From there
on, in the order of evaluation, a name that is read or assigned to becomes a
variable unless it is a field.
-/

open Code (CallKind ValueType)

section

variable {motive : Expr → Prop}
  (literal : ∀ value, motive (.literal value))
  (var : ∀ name type, motive (.var name type))
  (receiver : ∀ type, motive (.receiver type))
  (binary :
    ∀ operator left right type,
      motive left → motive right → motive (.binary operator left right type))
  (call :
    ∀ target method arguments type,
      motive target →
      (∀ argument ∈ arguments, motive argument) →
      motive (.call target method arguments type))
  (newObject : ∀ className type, motive (.newObject className type))
  (newArray : ∀ size type, motive size → motive (.newArray size type))
  (element :
    ∀ array index type,
      motive array → motive index → motive (.element array index type))
  (length : ∀ array type, motive array → motive (.length array type))

include literal var receiver binary call newObject newArray element length

/--
Induction over expressions, with the arguments of a call as members of a list.
-/
@[elab_as_elim, induction_eliminator]
theorem Expr.induction : ∀ expr, motive expr
  | .literal value => literal value
  | .var name type => var name type
  | .receiver type => receiver type
  | .binary operator left right type =>
      binary operator left right type (induction left) (induction right)
  | .call target method arguments type =>
      call target method arguments type (induction target)
        fun argument _ => induction argument
  | .newObject className type => newObject className type
  | .newArray size type => newArray size type (induction size)
  | .element array index type =>
      element array index type (induction array) (induction index)
  | .length array type => length array type (induction array)

end

namespace Symbols

variable {symbols : Symbols} {target : Expr} {method : String}

/-- How a call on an object of a type finds its method. -/
def objectCallKind
    (symbols : Symbols)
    (type : TypeName)
    (method : String) : CallKind :=
  if method = Code.constructorName then
    .special
  else if !type.isArray && type.name == symbols.className &&
    symbols.hasMethod method then
    .special
  else
    .virtual

/-- Only a call on a name is static. -/
theorem target_of_static
    {shadowed : String → Bool}
    (static : symbols.callKind shadowed target method = .static) :
    ∃ name type, target = .var name type := by
  cases target with
  | var name type =>
      exact ⟨name, type, rfl⟩
  | _ =>
      simp only [callKind] at static
      grind

/-- A call that is not static finds its method by the type of its target. -/
theorem callKind_of_not_static
    {shadowed : String → Bool}
    (notStatic : symbols.callKind shadowed target method ≠ .static) :
    symbols.callKind shadowed target method =
      symbols.objectCallKind target.type method := by
  simp only [callKind] at notStatic ⊢
  grind [objectCallKind]

/-- Of the shadowed names, a call depends on the name it is made on only. -/
theorem callKind_congr
    {first second : String → Bool}
    (same : ∀ name type, target = .var name type → first name = second name) :
    symbols.callKind first target method =
      symbols.callKind second target method := by
  cases target with
  | var name type =>
      simp only [callKind, same name type rfl]
  | _ =>
      rfl

/-- A call that is not static is not made static by more names that are shadowed. -/
theorem not_static_mono
    {first second : String → Bool}
    (more : ∀ name, first name = true → second name = true)
    (notStatic : symbols.callKind first target method ≠ .static) :
    symbols.callKind second target method ≠ .static := by
  cases target with
  | var name type =>
      have more := more name
      simp only [callKind] at notStatic ⊢
      grind
  | _ =>
      exact notStatic

end Symbols

/-- Only a call on a name is static. -/
theorem Lowering.target_of_static
    {state : Lowering}
    {symbols : Symbols}
    {target : Expr}
    {method : String}
    (static : state.callKind symbols target method = .static) :
    ∃ name type, target = .var name type :=
  Symbols.target_of_static static

namespace MethodDef

variable (symbols : Symbols) (method : MethodDef)

/-- The names that are declared before the body: the receiver and the parameters. -/
def firstNames : List String :=
  (method.begin symbols.className).table.keys

/-- Whether a name means a variable or field where the given names are declared. -/
def shadows (declared : List String) (name : String) : Bool :=
  symbols.isField method.name name ||
    decide (name ∈ declared) ||
    symbols.isLocal method.name name

/-- How a call finds its method where the given names are declared. -/
def callKind (declared : List String) (target : Expr) (name : String) : CallKind :=
  symbols.callKind (method.shadows symbols declared) target name

/--
Whether a name becomes a variable where it is read: no field, class
or parameter does.
-/
def declaresOnRead (name : String) (type : TypeName) : Bool :=
  !symbols.isField method.name name &&
    !type.isImported &&
    !(method.begin symbols.className).isParam name

mutual

/-- The names that are declared once an expression is evaluated. -/
def afterExpr (declared : List String) : Expr → List String
  | .literal _ => declared
  | .var name type =>
      if method.declaresOnRead symbols name type then
        declared.insert name else declared
  | .receiver _ => declared
  | .binary _ left right _ => afterExpr (afterExpr declared left) right
  | .call target name arguments _ =>
      -- The class that a static call names is not evaluated.
      if method.callKind symbols declared target name = .static then
        afterExprs declared arguments
      else
        afterExprs (afterExpr declared target) arguments
  | .newObject _ _ => declared
  | .newArray size _ => afterExpr declared size
  | .element array index _ => afterExpr (afterExpr declared array) index
  | .length array _ => afterExpr declared array

/--
The names that are declared once expressions are evaluated, from left to right.
-/
def afterExprs (declared : List String) : List Expr → List String
  | [] => declared
  | first :: rest => afterExprs (afterExpr declared first) rest

end

/-- The names that are declared once what a call is made on is evaluated. -/
def afterTarget
    (declared : List String)
    (target : Expr)
    (name : String) : List String :=
  if method.callKind symbols declared target name = .static then
    declared
  else
    method.afterExpr symbols declared target

/-- The names that are declared after a statement. -/
def afterStmt (declared : List String) : Stmt → List String
  | .assign name _ source =>
      let evaluated := method.afterExpr symbols declared source
      if symbols.isField method.name name then evaluated else evaluated.insert name
  | .evaluate expr => method.afterExpr symbols declared expr
  | .ret none => declared
  | .ret (some expr) => method.afterExpr symbols declared expr

/-- A statement with the names that are declared before it. -/
structure Point where
  declared : List String
  stmt : Stmt

/-- Statements with the names that are declared before each. -/
def pointsFrom (declared : List String) : List Stmt → List Point
  | [] => []
  | first :: rest =>
      ⟨declared, first⟩ :: pointsFrom (method.afterStmt symbols declared first) rest

/-- The statements of the body with the names that are declared before each. -/
def points : List Point :=
  method.pointsFrom symbols (method.firstNames symbols) method.body

variable {symbols method} {declared : List String}

theorem mem_firstNames
    {name : String} :
    name ∈ method.firstNames symbols ↔
      name ∈ (method.begin symbols.className).table :=
  Std.ExtTreeMap.mem_keys

/-- The arguments of a call are evaluated after what it is made on. -/
theorem afterExpr_call
    (target : Expr)
    (name : String)
    (arguments : List Expr)
    (type : TypeName) :
    method.afterExpr symbols declared (.call target name arguments type) =
      method.afterExprs symbols (method.afterTarget symbols declared target name)
        arguments := by
  rw [afterExpr, afterTarget]
  split
  · rfl
  · rfl

/-- The class of a static call takes no evaluation. -/
theorem afterTarget_of_static
    {target : Expr}
    {name : String}
    (static : method.callKind symbols declared target name = .static) :
    method.afterTarget symbols declared target name = declared :=
  if_pos static

/-- The target of any other call is evaluated. -/
theorem afterTarget_of_not_static
    {target : Expr}
    {name : String}
    (notStatic : method.callKind symbols declared target name ≠ .static) :
    method.afterTarget symbols declared target name =
      method.afterExpr symbols declared target :=
  if_neg notStatic

/-- Expressions that keep declared names keep them one after another. -/
theorem subset_afterExprs_of_each
    {exprs : List Expr}
    (each :
      ∀ expr ∈ exprs, ∀ declared,
        declared ⊆ method.afterExpr symbols declared expr) :
    declared ⊆ method.afterExprs symbols declared exprs := by
  induction exprs generalizing declared with
  | nil =>
      exact List.Subset.refl _
  | cons first rest inductionHypothesis =>
      rw [afterExprs]
      exact List.Subset.trans (each first List.mem_cons_self declared)
        (inductionHypothesis fun expr member =>
          each expr (List.mem_cons_of_mem _ member))

/-- What is declared stays declared. -/
theorem subset_afterExpr
    (expr : Expr) :
    declared ⊆ method.afterExpr symbols declared expr := by
  induction expr generalizing declared with
  | var name type =>
      rw [afterExpr]
      split
      · exact List.subset_insert name declared
      · exact List.Subset.refl _
  | binary operator left right type leftHypothesis rightHypothesis =>
      rw [afterExpr]
      exact List.Subset.trans leftHypothesis rightHypothesis
  | call target name arguments type targetHypothesis argumentsHypothesis =>
      have ofArguments {declared : List String} :
          declared ⊆ method.afterExprs symbols declared arguments :=
        subset_afterExprs_of_each fun argument member _ =>
          argumentsHypothesis argument member
      rw [afterExpr]
      split
      · exact ofArguments
      · exact List.Subset.trans targetHypothesis ofArguments
  | newArray size type sizeHypothesis =>
      rw [afterExpr]
      exact sizeHypothesis
  | element array index type arrayHypothesis indexHypothesis =>
      rw [afterExpr]
      exact List.Subset.trans arrayHypothesis indexHypothesis
  | length array type arrayHypothesis =>
      rw [afterExpr]
      exact arrayHypothesis
  | _ =>
      rw [afterExpr]
      exact List.Subset.refl _

theorem subset_afterStmt
    (stmt : Stmt) :
    declared ⊆ method.afterStmt symbols declared stmt := by
  cases stmt with
  | assign name type source =>
      rw [afterStmt]
      split
      · exact subset_afterExpr source
      · exact List.Subset.trans (subset_afterExpr source)
          (List.subset_insert name _)
  | evaluate expr =>
      exact subset_afterExpr expr
  | ret result =>
      cases result with
      | none =>
          exact List.Subset.refl _
      | some expr =>
          exact subset_afterExpr expr

end MethodDef

end MiniJava
