import MiniJava.Lowering.Expression
import MiniJava.Proofs.Semantics.Typing

namespace MiniJava

/-!
# Supported bodies

What a body may do so that the machine has instructions for all of it: arrays
are created and passed on only, methods are called on classes and objects only,
a name that is only known through an import stands for a class that is called,
nothing that gives no value is used as one, and static methods have no receiver.
-/

namespace TypeName

/-- Whether the type is that of objects. -/
def isObject (type : TypeName) : Bool :=
  !type.isArray && type ≠ .int && type ≠ .boolean && type ≠ .void

/-- Whether the type is that of objects of a known class. -/
def isClass (type : TypeName) : Bool :=
  type.isObject && !type.isImported

end TypeName

namespace Expr

/-- Whether an expression names an imported class that a method is called on. -/
def namesClass (method : String) : Expr → Bool
  | .var _ type => type.isImported && method ≠ Code.constructorName
  | _ => false

/--
Whether an expression is annotated with a known class, a field as it is declared.
-/
def isObject (symbols : Symbols) (method : String) : Expr → Bool
  | .var name type =>
      type.isClass &&
        (!symbols.isField method name ||
          symbols.fieldType name type = .ofTypeName type)
  | other => other.type.isClass

mutual

/-- Whether an expression is supported, where its value is used or not. -/
def isSupported (symbols : Symbols) (source : MethodDef) (used : Bool) : Expr → Bool
  | .literal _ => true
  | .var name type =>
      !type.isImported && !(source.isStatic && symbols.isField source.name name)
  | .receiver _ => !source.isStatic
  | .binary _ left right _ =>
      isSupported symbols source true left && isSupported symbols source true right
  | .call target method arguments type =>
      !(used && type.isVoid) && areSupported symbols source arguments &&
        (target.namesClass method ||
          isSupported symbols source true target &&
            target.isObject symbols source.name)
  | .newObject _ _ => true
  | .newArray size type =>
      type.isArray && type.name ≠ TypeName.void.name &&
        isSupported symbols source true size
  | .element _ _ _ => false
  | .length _ _ => false

/-- Whether expressions are supported whose values are used. -/
def areSupported (symbols : Symbols) (source : MethodDef) : List Expr → Bool
  | [] => true
  | first :: rest =>
      isSupported symbols source true first && areSupported symbols source rest

end

/-- Expressions are supported if each of them is. -/
theorem areSupported_iff
    {symbols : Symbols}
    {source : MethodDef}
    {exprs : List Expr} :
    areSupported symbols source exprs = true ↔
      ∀ expr ∈ exprs, expr.isSupported symbols source true = true := by
  induction exprs with
  | nil => simp [areSupported]
  | cons first rest inductionHypothesis => simp [areSupported, inductionHypothesis]

/-- Only for a call it matters whether the value is used. -/
theorem isSupported_of_no_call
    {symbols : Symbols}
    {source : MethodDef}
    {expr : Expr}
    (noCall : expr.target? = none)
    (first second : Bool) :
    expr.isSupported symbols source first =
      expr.isSupported symbols source second := by
  cases expr with
  | call target method arguments type => cases noCall
  | _ => simp only [isSupported]

end Expr

namespace Stmt

/-- Whether a statement is supported. -/
def isSupported (symbols : Symbols) (source : MethodDef) : Stmt → Bool
  | .assign name type value =>
      !type.isVoid && !(source.isStatic && symbols.isField source.name name) &&
        value.isSupported symbols source true
  | .evaluate expr => expr.isSupported symbols source false
  | .ret none => true
  | .ret (some expr) => expr.isSupported symbols source true

/-- Whether a new object that is assigned to a variable is declared as an object. -/
def assignsObject (symbols : Symbols) (method : String) : Stmt → Bool
  | .assign name type (.newObject _ _) =>
      symbols.isField method name || type.isObject
  | _ => true

end Stmt

/-- A method is supported: its statements are, and its annotations fit together. -/
structure MethodDef.Supported (symbols : Symbols) (source : MethodDef) : Prop where
  body : ∀ stmt ∈ source.body, stmt.isSupported symbols source = true
  objects : ∀ stmt ∈ source.body, stmt.assignsObject symbols source.name = true
  annotated : source.AnnotatedThroughout symbols

instance
    (symbols : Symbols)
    (source : MethodDef) : Decidable (source.Supported symbols) :=
  decidable_of_iff
    ((∀ stmt ∈ source.body, stmt.isSupported symbols source = true) ∧
      (∀ stmt ∈ source.body, stmt.assignsObject symbols source.name = true) ∧
        source.AnnotatedThroughout symbols)
    ⟨fun all => ⟨all.1, all.2.1, all.2.2⟩,
      fun supported => ⟨supported.body, supported.objects, supported.annotated⟩⟩

end MiniJava
