import MiniJava.Proofs.Collections
import MiniJava.Proofs.Semantics.Declared

namespace MiniJava

/-!
# The calls of a body

The places of a body at which a method or a constructor is called, in the order
in which the calls are made. A place has the expressions of the call and the way
in which it finds its method, which depends on the names declared there.
-/

open Code (CallKind ValueType)

/-- A place in a body at which a method or a constructor is called. -/
inductive Site where
  | call
      (kind : CallKind)
      (target : Expr)
      (method : String)
      (arguments : List Expr)
      (type : TypeName)
  /-- The constructor of a new object of a class, on a variable of a type. -/
  | creation (className : String) (type : ValueType)

/-- The class of which an expression creates an object. -/
def Expr.created? : Expr → Option String
  | .newObject className _ => some className
  | _ => none

namespace MethodDef

variable (symbols : Symbols) (method : MethodDef)

mutual

/-- The calls of an expression where the given names are declared. -/
def exprSites (declared : List String) : Expr → List Site
  | .literal _ => []
  | .var _ _ => []
  | .receiver _ => []
  | .binary _ left right _ =>
      exprSites declared left ++
        exprSites (method.afterExpr symbols declared left) right
  | .call target name arguments type =>
      exprSites declared target ++
        exprsSites (method.afterTarget symbols declared target name) arguments ++
          [.call (method.callKind symbols declared target name) target name
            arguments type]
  | .newObject className _ => [.creation className (.object className)]
  | .newArray size _ => exprSites declared size
  | .element array index _ =>
      exprSites declared array ++
        exprSites (method.afterExpr symbols declared array) index
  | .length array _ => exprSites declared array

/-- The calls of expressions, from left to right. -/
def exprsSites (declared : List String) : List Expr → List Site
  | [] => []
  | first :: rest =>
      exprSites declared first ++
        exprsSites (method.afterExpr symbols declared first) rest

end

/-- The calls of a value that is assigned to a name. -/
def assignedSites
    (declared : List String)
    (name : String)
    (type : TypeName)
    (source : Expr) :
    List Site :=
  match source.created? with
  -- A new object is constructed on the variable that it is assigned to.
  | some className =>
      [.creation className
        (if symbols.isField method.name name then
          .object className else .ofTypeName type)]
  | none => method.exprSites symbols declared source

/-- The calls of a statement where the given names are declared. -/
def stmtSites (declared : List String) : Stmt → List Site
  | .assign name type source =>
      method.assignedSites symbols declared name type source
  | .evaluate expr => method.exprSites symbols declared expr
  | .ret none => []
  | .ret (some expr) => method.exprSites symbols declared expr

/-- The calls of a statement of a body. -/
def pointSites (point : Point) : List Site :=
  method.stmtSites symbols point.declared point.stmt

/-- The calls of the body. -/
def sites : List Site :=
  (method.points symbols).flatMap (method.pointSites symbols)

end MethodDef

/--
Whether the value of an expression is held under the type that it is annotated with.
-/
def Symbols.keepsType (symbols : Symbols) (method : String) : Expr → Bool
  | .var name type =>
      if symbols.isField method name then
        symbols.fieldType name type = .ofTypeName type
      else
        !type.isImported
  | .receiver type => ValueType.ofTypeName type = .object symbols.className
  | .call _ _ _ type => !type.isImported
  | .newObject className type => ValueType.ofTypeName type = .object className
  | _ => true

/--
An expression is annotated as another, and is held under its annotation if that is.
-/
structure Expr.TypedLike
    (symbols : Symbols)
    (method : String)
    (source other : Expr) : Prop where
  type : other.type = source.type
  keepsType :
    symbols.keepsType method source = true → symbols.keepsType method other = true

namespace Expr.TypedLike

variable {symbols : Symbols} {method : String}

theorem refl
    (expr : Expr) :
    TypedLike symbols method expr expr :=
  ⟨rfl, id⟩

theorem trans
    {first second third : Expr}
    (former : TypedLike symbols method first second)
    (latter : TypedLike symbols method second third) :
    TypedLike symbols method first third :=
  ⟨latter.type.trans former.type, fun keeps =>
    latter.keepsType (former.keepsType keeps)⟩

theorem types_eq
    {exprs others : List Expr}
    (like : List.Forall₂ (TypedLike symbols method) exprs others) :
    others.map (fun expr => ValueType.ofTypeName expr.type) =
      exprs.map fun expr => ValueType.ofTypeName expr.type := by
  rw [← List.forall₂_eq_eq_eq, List.forall₂_map_left_iff,
    List.forall₂_map_right_iff]
  exact like.flip.imp fun _ _ same => congrArg ValueType.ofTypeName same.type

end Expr.TypedLike

namespace Site

variable {symbols : Symbols} {method : String}

/-- A place makes the call of another, on expressions that are annotated alike. -/
inductive Like (symbols : Symbols) (method : String) : Site → Site → Prop where
  | call
      {kind : CallKind}
      {target other : Expr}
      {name : String}
      {arguments others : List Expr}
      {type : TypeName}
      (onTarget : Expr.TypedLike symbols method target other)
      (onArguments :
        List.Forall₂ (Expr.TypedLike symbols method) arguments others) :
      Like symbols method (.call kind target name arguments type)
        (.call kind other name others type)
  | creation
      {className : String}
      {type : ValueType} :
      Like symbols method (.creation className type) (.creation className type)

theorem Like.refl
    (site : Site) :
    Like symbols method site site := by
  cases site with
  | call kind target name arguments type =>
      exact .call (.refl target)
        (List.forall₂_same.mpr fun argument _ => .refl argument)
  | creation className type =>
      exact .creation

theorem Like.trans
    {first second third : Site}
    (former : Like symbols method first second)
    (latter : Like symbols method second third) :
    Like symbols method first third := by
  cases former with
  | call onTarget onArguments =>
      cases latter with
      | call onOther onOthers =>
          exact .call (onTarget.trans onOther)
            (forall₂_trans onArguments onOthers Expr.TypedLike.trans)
  | creation =>
      exact latter

end Site

end MiniJava
