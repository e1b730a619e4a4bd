import MiniJava.Tree.Symbols

namespace MiniJava

/-!
# Constant propagation

A body is a straight line, so one walk from its start knows which names hold a
literal at each statement: an assignment of a literal makes its name known, and
any other assignment makes it unknown. Reads of known names are replaced by
their literal. Fields are never known, since a call may write them.

`propagate` gives the changed body and `propagationSteps` lists what the walk
does, in order. A body changes exactly when some step is a replacement.
-/

/-- The names that hold a literal, with their literals. -/
abbrev Known := Std.ExtTreeMap String Literal

/-- One step of propagation. -/
inductive PropagationStep where
  /-- A read of a known name is replaced by its literal. -/
  | replaced (name : String) (value : Literal)
  /-- An assignment makes a name known. -/
  | learned (name : String) (value : Literal)
  deriving DecidableEq

/-- Whether a step changes the program. -/
def PropagationStep.isReplacement : PropagationStep → Bool
  | .replaced _ _ => true
  | .learned _ _ => false

namespace Expr

mutual

/-- The expression with known names replaced by their literals. -/
def substitute (known : Known) : Expr → Expr
  | .literal value => .literal value
  | .var name type =>
      match known[name]? with
      | some value => .literal value
      | none => .var name type
  | .receiver type => .receiver type
  | .binary operator left right type =>
      .binary operator (substitute known left) (substitute known right) type
  | .call target method arguments type =>
      .call (substitute known target) method (substituteList known arguments) type
  | .newObject className type => .newObject className type
  | .newArray size type => .newArray (substitute known size) type
  | .element array index type =>
      .element (substitute known array) (substitute known index) type
  | .length array type => .length (substitute known array) type

/-- Substitutes in every expression of a list. -/
def substituteList (known : Known) : List Expr → List Expr
  | [] => []
  | expr :: rest => substitute known expr :: substituteList known rest

end

mutual

/-- The replacements made by a substitution, from left to right. -/
def substitutions (known : Known) : Expr → List PropagationStep
  | .literal _ => []
  | .var name _ =>
      match known[name]? with
      | some value => [.replaced name value]
      | none => []
  | .receiver _ => []
  | .binary _ left right _ => substitutions known left ++ substitutions known right
  | .call target _ arguments _ =>
      substitutions known target ++ listSubstitutions known arguments
  | .newObject _ _ => []
  | .newArray size _ => substitutions known size
  | .element array index _ => substitutions known array ++ substitutions known index
  | .length array _ => substitutions known array

/-- The replacements made in a list of expressions, from left to right. -/
def listSubstitutions (known : Known) : List Expr → List PropagationStep
  | [] => []
  | expr :: rest => substitutions known expr ++ listSubstitutions known rest

end

/-- The literal that an expression is. -/
def literal? : Expr → Option Literal
  | .literal value => some value
  | _ => none

end Expr

namespace Stmt

/-- The statement with known names replaced in its expression. -/
def substitute (known : Known) : Stmt → Stmt
  | .assign name type value => .assign name type (value.substitute known)
  | .evaluate value => .evaluate (value.substitute known)
  | .ret value => .ret (value.map (Expr.substitute known))

/-- The replacements made in a statement. -/
def substitutions (known : Known) : Stmt → List PropagationStep
  | .assign _ _ value => value.substitutions known
  | .evaluate value => value.substitutions known
  | .ret (some value) => value.substitutions known
  | .ret none => []

/-- The name that a statement makes known, with its literal. -/
def learned?
    (symbols : Symbols)
    (method : String) : Stmt → Option (String × Literal)
  | .assign name _ value =>
      if symbols.isField method name then none else value.literal?.map (name, ·)
  | _ => none

/-- What is known after a statement. -/
def knownAfter
    (symbols : Symbols)
    (method : String)
    (known : Known)
    (stmt : Stmt) : Known :=
  match stmt with
  | .assign name _ _ =>
      match stmt.learned? symbols method with
      | some (_, value) => known.insert name value
      | none => known.erase name
  | _ => known

end Stmt

/-- The body with every known name replaced, walking from its start. -/
def propagateBody
    (symbols : Symbols)
    (method : String) : Known → List Stmt → List Stmt
  | _, [] => []
  | known, stmt :: rest =>
      let stmt := stmt.substitute known
      stmt :: propagateBody symbols method
        (stmt.knownAfter symbols method known) rest

/-- What the walk over a body does, in order. -/
def bodySteps (symbols : Symbols) (method : String) :
    Known → List Stmt → List PropagationStep
  | _, [] => []
  | known, stmt :: rest =>
      let changed := stmt.substitute known
      stmt.substitutions known ++
        ((changed.learned? symbols method).map fun (name, value) =>
          .learned name value).toList ++
        bodySteps symbols method (changed.knownAfter symbols method known) rest

namespace MethodDef

/-- The method's body with its constants propagated. -/
def propagate (symbols : Symbols) (method : MethodDef) : List Stmt :=
  propagateBody symbols method.name ∅ method.body

/-- What propagation does in a method, in order. -/
def propagationSteps
    (symbols : Symbols)
    (method : MethodDef) : List PropagationStep :=
  bodySteps symbols method.name ∅ method.body

end MethodDef

namespace Program

/-- The program with the constants of each method propagated. -/
def propagate (symbols : Symbols) (program : Program) : Program :=
  program.mapBodies (MethodDef.propagate symbols)

/-- Whether propagation replaces a read in some method. -/
def propagates (symbols : Symbols) (program : Program) : Bool :=
  program.mainClass.methods.any fun method =>
    (method.propagationSteps symbols).any PropagationStep.isReplacement

end Program

end MiniJava
