import MiniJava.Tree.Basic

namespace MiniJava

/-!
# Constant folding

An operator on two literals is replaced by its value, innermost operators
first. Integers wrap around at 32 bits and division goes toward zero; a
division by zero is left in place, and so is an operator whose operands are not
of its kind.

`Expr.fold` is the folded expression and `Expr.foldings` lists the replacements
in the order they are made. An expression changes exactly when the list is not
empty.
-/

/-- The value of an operator on two literals, where it has one. -/
def Operator.eval? : Operator → Literal → Literal → Option Literal
  | .add, .int left, .int right => some (.int (left + right))
  | .sub, .int left, .int right => some (.int (left - right))
  | .mul, .int left, .int right => some (.int (left * right))
  | .div, .int left, .int right =>
      if right = 0 then none else some (.int (left / right))
  | .less, .int left, .int right => some (.bool (decide (left < right)))
  | .and, .bool left, .bool right => some (.bool (left && right))
  | .or, .bool left, .bool right => some (.bool (left || right))
  | _, _, _ => none

/-- One replacement of an operator on literals by its value. -/
structure Folding where
  operator : Operator
  left : Literal
  right : Literal
  result : Literal
  deriving DecidableEq

/-- The replacement that an operator on two expressions allows. -/
def Folding.of? (operator : Operator) : Expr → Expr → Option Folding
  | .literal left, .literal right =>
      (operator.eval? left right).map fun result =>
        { operator, left, right, result }
  | _, _ => none

namespace Expr

mutual

/-- The expression with every operator on literals replaced by its value. -/
def fold : Expr → Expr
  | .literal value => .literal value
  | .var name type => .var name type
  | .receiver type => .receiver type
  | .binary operator left right type =>
      let left := fold left
      let right := fold right
      match Folding.of? operator left right with
      | some folding => .literal folding.result
      | none => .binary operator left right type
  | .call target method arguments type =>
      .call (fold target) method (foldList arguments) type
  | .newObject className type => .newObject className type
  | .newArray size type => .newArray (fold size) type
  | .element array index type => .element (fold array) (fold index) type
  | .length array type => .length (fold array) type

/-- Folds every expression of a list. -/
def foldList : List Expr → List Expr
  | [] => []
  | expr :: rest => fold expr :: foldList rest

end

mutual

/-- The replacements made when an expression is folded, in order. -/
def foldings : Expr → List Folding
  | .literal _ => []
  | .var _ _ => []
  | .receiver _ => []
  | .binary operator left right _ =>
      foldings left ++ foldings right ++
        (Folding.of? operator (fold left) (fold right)).toList
  | .call target _ arguments _ => foldings target ++ listFoldings arguments
  | .newObject _ _ => []
  | .newArray size _ => foldings size
  | .element array index _ => foldings array ++ foldings index
  | .length array _ => foldings array

/-- The replacements made when a list of expressions is folded, in order. -/
def listFoldings : List Expr → List Folding
  | [] => []
  | expr :: rest => foldings expr ++ listFoldings rest

end

end Expr

namespace Stmt

/-- The statement with its expression folded. -/
def fold : Stmt → Stmt
  | .assign name type value => .assign name type value.fold
  | .evaluate value => .evaluate value.fold
  | .ret value => .ret (value.map Expr.fold)

/-- The replacements made when a statement is folded. -/
def foldings : Stmt → List Folding
  | .assign _ _ value => value.foldings
  | .evaluate value => value.foldings
  | .ret (some value) => value.foldings
  | .ret none => []

end Stmt

namespace Program

/-- The program with its method bodies folded. -/
def fold (program : Program) : Program :=
  program.mapBodies fun method => method.body.map Stmt.fold

/-- The replacements made when a program is folded, in order. -/
def foldings (program : Program) : List Folding :=
  program.mainClass.methods.flatMap fun method => method.body.flatMap Stmt.foldings

end Program

end MiniJava
