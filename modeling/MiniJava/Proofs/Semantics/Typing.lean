import MiniJava.Proofs.Semantics.Names

namespace MiniJava

/-!
# Annotations that fit together

What the annotations of a typed body promise about constants: a variable has one
type wherever it occurs, an operator has its own result type, and a number or
truth value is only assigned where its type is declared.
-/

/-- The type of the results of an operator. -/
def Operator.resultType : Operator → TypeName
  | .add | .sub | .mul | .div => .int
  | .less | .and | .or => .boolean

namespace Expr

mutual

/--
The operators of an expression, with the types that their results
are annotated with.
-/
def operators : Expr → List (Operator × TypeName)
  | .literal _ => []
  | .var _ _ => []
  | .receiver _ => []
  | .binary operator left right type =>
      (operator, type) :: (operators left ++ operators right)
  | .call target _ arguments _ => operators target ++ listOperators arguments
  | .newObject _ _ => []
  | .newArray size _ => operators size
  | .element array index _ => operators array ++ operators index
  | .length array _ => operators array

/-- The operators of expressions. -/
def listOperators : List Expr → List (Operator × TypeName)
  | [] => []
  | first :: rest => operators first ++ listOperators rest

end

/-- The operators of expressions are those of each. -/
theorem mem_listOperators
    {exprs : List Expr}
    {annotated : Operator × TypeName} :
    annotated ∈ listOperators exprs ↔ ∃ expr ∈ exprs,
      annotated ∈ expr.operators := by
  induction exprs with
  | nil =>
      simp [listOperators]
  | cons first rest inductionHypothesis =>
      simp [listOperators, inductionHypothesis]

/-- Whether an expression is annotated as a number or a truth value. -/
def isPrimitive (expr : Expr) : Bool :=
  expr.type = .int || expr.type = .boolean

mutual

/-- An expression and all expressions inside it. -/
def parts : Expr → List Expr
  | .literal value => [.literal value]
  | .var name type => [.var name type]
  | .receiver type => [.receiver type]
  | .binary operator left right type =>
      .binary operator left right type :: (parts left ++ parts right)
  | .call target method arguments type =>
      .call target method arguments type :: (parts target ++ listParts arguments)
  | .newObject className type => [.newObject className type]
  | .newArray size type => .newArray size type :: parts size
  | .element array index type =>
      .element array index type :: (parts array ++ parts index)
  | .length array type => .length array type :: parts array

/-- The parts of expressions. -/
def listParts : List Expr → List Expr
  | [] => []
  | first :: rest => parts first ++ listParts rest

end

/-- The parts of expressions are those of each. -/
theorem mem_listParts
    {exprs : List Expr}
    {part : Expr} :
    part ∈ listParts exprs ↔ ∃ expr ∈ exprs, part ∈ expr.parts := by
  induction exprs with
  | nil =>
      simp [listParts]
  | cons first rest inductionHypothesis =>
      simp [listParts, inductionHypothesis]

/-- The name that an expression is, with its annotation. -/
def annotatedName? : Expr → Option (String × TypeName)
  | .var name type => some (name, type)
  | _ => none

/-- What a call is made on. -/
def target? : Expr → Option Expr
  | .call target _ _ _ => some target
  | _ => none

end Expr

namespace Stmt

/-- The operators of a statement. -/
def operators : Stmt → List (Operator × TypeName)
  | .assign _ _ source => source.operators
  | .evaluate expr => expr.operators
  | .ret none => []
  | .ret (some expr) => expr.operators

/-- The expressions of a statement. -/
def parts : Stmt → List Expr
  | .assign _ _ source => source.parts
  | .evaluate expr => expr.parts
  | .ret none => []
  | .ret (some expr) => expr.parts

/--
The names that a statement assigns to and reads or calls, with their annotations.
-/
def annotatedNames (stmt : Stmt) : List (String × TypeName) :=
  match stmt with
  | .assign name type _ => (name, type) :: stmt.parts.filterMap Expr.annotatedName?
  | _ => stmt.parts.filterMap Expr.annotatedName?

/--
Whether a number or truth value that is assigned is assigned to a name of its type.
-/
def assignsPrimitive : Stmt → Bool
  | .assign _ type source => !source.isPrimitive || type = source.type
  | _ => true

end Stmt

/-- The annotations of a method fit together. -/
structure MethodDef.Annotated (symbols : Symbols) (method : MethodDef) : Prop where
  /-- A variable that is no field has one type at all its uses. -/
  oneType :
    ∀ first ∈ method.uses symbols, ∀ second ∈ method.uses symbols,
      first.isVariable = true → second.isVariable = true →
      first.name = second.name →
        symbols.isField method.name first.name = false → first = second
  /-- An operator has its result type. -/
  operators :
    ∀ stmt ∈ method.body, ∀ annotated ∈ stmt.operators,
      annotated.2 = annotated.1.resultType
  /-- Numbers and truth values are assigned to names of their type. -/
  assignments : ∀ stmt ∈ method.body, stmt.assignsPrimitive = true

instance
    (symbols : Symbols)
    (method : MethodDef) : Decidable (method.Annotated symbols) :=
  decidable_of_iff
    ((∀ first ∈ method.uses symbols, ∀ second ∈ method.uses symbols,
        first.isVariable = true → second.isVariable = true →
        first.name = second.name →
          symbols.isField method.name first.name = false → first = second) ∧
      (∀ stmt ∈ method.body, ∀ annotated ∈ stmt.operators,
        annotated.2 = annotated.1.resultType) ∧
        ∀ stmt ∈ method.body, stmt.assignsPrimitive = true)
    ⟨fun all => ⟨all.1, all.2.1, all.2.2⟩,
      fun annotated =>
        ⟨annotated.oneType, annotated.operators, annotated.assignments⟩⟩

/--
The annotations of a method fit together also where a name stands for a class:
every name that is no field has one annotation, and nothing that is annotated as
a number or truth value is called.
-/
structure MethodDef.AnnotatedThroughout
    (symbols : Symbols)
    (method : MethodDef) : Prop where
  oneType :
    ∀ first ∈ method.body.flatMap Stmt.annotatedNames,
      ∀ second ∈ method.body.flatMap Stmt.annotatedNames,
        first.1 = second.1 → symbols.isField method.name first.1 = false →
        first.2 = second.2
  operators :
    ∀ stmt ∈ method.body, ∀ annotated ∈ stmt.operators,
      annotated.2 = annotated.1.resultType
  assignments : ∀ stmt ∈ method.body, stmt.assignsPrimitive = true
  targets :
    ∀ stmt ∈ method.body, ∀ target ∈ stmt.parts.filterMap Expr.target?,
      target.isPrimitive = false

instance (symbols : Symbols) (method : MethodDef) :
    Decidable (method.AnnotatedThroughout symbols) :=
  decidable_of_iff
    ((∀ first ∈ method.body.flatMap Stmt.annotatedNames,
        ∀ second ∈ method.body.flatMap Stmt.annotatedNames,
          first.1 = second.1 → symbols.isField method.name first.1 = false →
            first.2 = second.2) ∧
      (∀ stmt ∈ method.body, ∀ annotated ∈ stmt.operators,
        annotated.2 = annotated.1.resultType) ∧
        (∀ stmt ∈ method.body, stmt.assignsPrimitive = true) ∧
          ∀ stmt ∈ method.body, ∀ target ∈ stmt.parts.filterMap Expr.target?,
            target.isPrimitive = false)
    ⟨fun all => ⟨all.1, all.2.1, all.2.2.1, all.2.2.2⟩,
      fun annotated =>
        ⟨annotated.oneType, annotated.operators, annotated.assignments,
          annotated.targets⟩⟩

end MiniJava
