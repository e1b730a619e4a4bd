import MiniJava.Proofs.Semantics.Declared

namespace MiniJava

/-!
# What a body reads

The names whose contents a body looks at. A field is read through the receiver,
and the class of a static call is not read. A statement that is only a variable,
a literal or the receiver looks at nothing.
-/

open Code (Operand)

namespace MethodDef

variable (symbols : Symbols) (method : MethodDef)

mutual

/-- The names that an expression reads where the given names are declared. -/
def exprReads (declared : List String) : Expr → List String
  | .literal _ => []
  | .var name _ =>
      [if symbols.isField method.name name then Operand.receiverName else name]
  | .receiver _ => [Operand.receiverName]
  | .binary _ left right _ =>
      exprReads declared left ++
        exprReads (method.afterExpr symbols declared left) right
  | .call target name arguments _ =>
      (match method.callKind symbols declared target name, target with
        | .static, .var _ _ => []
        | _, _ => exprReads declared target) ++
        exprsReads (method.afterTarget symbols declared target name) arguments
  | .newObject _ _ => []
  | .newArray size _ => exprReads declared size
  | .element array index _ =>
      exprReads declared array ++
        exprReads (method.afterExpr symbols declared array) index
  | .length array _ => exprReads declared array

/-- The names that expressions read, from left to right. -/
def exprsReads (declared : List String) : List Expr → List String
  | [] => []
  | first :: rest =>
      exprReads declared first ++
        exprsReads (method.afterExpr symbols declared first) rest

end

/-- Whether an expression stands for what it is, without any evaluation. -/
def isAtom : Expr → Bool
  | .literal _ => true
  | .var name _ => !symbols.isField method.name name
  | .receiver _ => true
  | _ => false

/-- The names that a statement reads where the given names are declared. -/
def stmtReads (declared : List String) : Stmt → List String
  | .assign name _ source =>
      if symbols.isField method.name name then
        Operand.receiverName :: method.exprReads symbols declared source
      else
        method.exprReads symbols declared source
  | .evaluate expr =>
      if method.isAtom symbols expr then
        [] else method.exprReads symbols declared expr
  | .ret none => []
  | .ret (some expr) => method.exprReads symbols declared expr

/-- The names that a statement of a body reads. -/
def pointReads (point : Point) : List String :=
  method.stmtReads symbols point.declared point.stmt

/-- The variable that a statement assigns to. -/
def assigned? : Stmt → Option String
  | .assign name _ _ => if symbols.isField method.name name then none else some name
  | _ => none

/--
Whether statements read only names that are assigned before: the given ones and
those that earlier statements assign to. Nothing is read after a return.
-/
def readsAssigned (assigned : List String) : List Point → Bool
  | [] => true
  | ⟨declared, .ret result⟩ :: _ =>
      (method.stmtReads symbols declared (.ret result)).all (· ∈ assigned)
  | point :: rest =>
      (method.pointReads symbols point).all (· ∈ assigned) &&
        readsAssigned ((method.assigned? symbols point.stmt).toList ++ assigned)
          rest

/-- Whether no local is read before it is assigned. -/
def readsInOrder : Bool :=
  method.readsAssigned symbols (method.firstNames symbols) (method.points symbols)

variable {symbols method} {declared : List String}

section

variable {called : String} {type : TypeName} {arguments : List Expr}

/-- A static call reads its arguments only. -/
theorem exprReads_call_of_static
    {name : String}
    {annotated : TypeName}
    (static :
      method.callKind symbols declared (.var name annotated) called = .static) :
    method.exprReads symbols declared
      (.call (.var name annotated) called arguments type) =
      method.exprsReads symbols declared arguments := by
  simp only [exprReads, static, afterTarget_of_static static]
  rfl

/-- Any other call reads what its target reads. -/
theorem exprReads_call_of_not_static
    {target : Expr}
    (notStatic : method.callKind symbols declared target called ≠ .static) :
    method.exprReads symbols declared (.call target called arguments type) =
      method.exprReads symbols declared target ++
        method.exprsReads symbols (method.afterExpr symbols declared target)
          arguments := by
  rw [exprReads, afterTarget_of_not_static notStatic]
  intro _ _ isStatic
  exact absurd isStatic notStatic

end

end MethodDef

end MiniJava
