import Mathlib.Data.List.Forall2
import MiniJava.Proofs.ConstantRounds

namespace MiniJava

/-!
# What the constant passes report

A pass does all it can do in one walk: propagation learns from statements in
which it has replaced what it knew, and folding goes from the inside to the
outside. So a second walk finds nothing to do, and a pass reports a change
exactly if it has made one. Passes change expressions in bodies and nothing else.
-/

namespace Stmt

/-- Two statements of one kind, which differ in their expressions at most. -/
inductive SameKind : Stmt → Stmt → Prop
  | assign (name : String) (type : TypeName) (value other : Expr) :
      SameKind (.assign name type value) (.assign name type other)
  | evaluate (value other : Expr) : SameKind (.evaluate value) (.evaluate other)
  | ret (value other : Expr) : SameKind (.ret (some value)) (.ret (some other))
  | retNone : SameKind (.ret none) (.ret none)

theorem sameKind_substitute
    (known : Known)
    (stmt : Stmt) :
    stmt.SameKind (stmt.substitute known) := by
  cases stmt with
  | assign name type value => exact .assign name type value _
  | evaluate value => exact .evaluate value _
  | ret value =>
      cases value with
      | none => exact .retNone
      | some value => exact .ret value _

theorem sameKind_fold
    (stmt : Stmt) :
    stmt.SameKind stmt.fold := by
  cases stmt with
  | assign name type value => exact .assign name type value _
  | evaluate value => exact .evaluate value _
  | ret value =>
      cases value with
      | none => exact .retNone
      | some value => exact .ret value _

/-- Replacing leaves nothing to replace in a statement. -/
theorem substitute_substitute
    (known : Known)
    (stmt : Stmt) :
    (stmt.substitute known).substitute known = stmt.substitute known := by
  cases stmt with
  | assign name type value => simp [substitute, Expr.substitute_substitute]
  | evaluate value => simp [substitute, Expr.substitute_substitute]
  | ret value => cases value <;> simp [substitute, Expr.substitute_substitute]

/-- Folding leaves nothing to fold in a statement. -/
theorem fold_fold
    (stmt : Stmt) :
    stmt.fold.fold = stmt.fold := by
  cases stmt with
  | assign name type value => simp [fold, Expr.fold_fold]
  | evaluate value => simp [fold, Expr.fold_fold]
  | ret value => cases value <;> simp [fold, Expr.fold_fold]

end Stmt

section

variable {symbols : Symbols} {method : String} {known : Known}

/--
A second walk over a body knows the same as the first one, and finds
nothing to replace.
-/
theorem propagateBody_propagateBody
    (body : List Stmt) :
    propagateBody symbols method known (propagateBody symbols method known body) =
      propagateBody symbols method known body := by
  induction body generalizing known with
  | nil =>
      rfl
  | cons first rest inductionHypothesis =>
      simp only [propagateBody, Stmt.substitute_substitute, inductionHypothesis]

theorem forall₂_sameKind_propagateBody
    (body : List Stmt) :
    List.Forall₂ Stmt.SameKind body (propagateBody symbols method known body) := by
  induction body generalizing known with
  | nil =>
      exact .nil
  | cons first rest inductionHypothesis =>
      exact .cons (first.sameKind_substitute known) inductionHypothesis

end

/--
A method with another body, of which the statements are of the same
kinds in the same order.
-/
structure MethodDef.SameFrame (method other : MethodDef) : Prop where
  name : other.name = method.name
  isPublic : other.isPublic = method.isPublic
  isStatic : other.isStatic = method.isStatic
  returnType : other.returnType = method.returnType
  params : other.params = method.params
  locals : other.locals = method.locals
  body : List.Forall₂ Stmt.SameKind method.body other.body

/--
A program with other bodies for its methods, of which nothing but
the expressions differ.
-/
structure Program.SameFrame (program other : Program) : Prop where
  imports : other.imports = program.imports
  className : other.mainClass.name = program.mainClass.name
  superClass : other.mainClass.superClass = program.mainClass.superClass
  fields : other.mainClass.fields = program.mainClass.fields
  methods :
    List.Forall₂ MethodDef.SameFrame program.mainClass.methods
      other.mainClass.methods

namespace Program

/-- Bodies are replaced without effect exactly if each is replaced by itself. -/
theorem mapBodies_eq_self_iff
    {program : Program}
    {change : MethodDef → List Stmt} :
    program.mapBodies change = program ↔
      ∀ method ∈ program.mainClass.methods, change method = method.body := by
  have ofMethod (method : MethodDef) :
      { method with body := change method } = method ↔
        change method = method.body := by
    cases method
    simp
  rcases program with ⟨imports, name, superClass, fields, methods⟩
  simp only [mapBodies, mk.injEq, ClassDef.mk.injEq, true_and]
  rw [map_eq_self_iff]
  exact forall₂_congr fun method _ => ofMethod method

/-- Bodies of the same kinds of statements leave the rest of the program. -/
theorem sameFrame_mapBodies
    (program : Program)
    {change : MethodDef → List Stmt}
    (sameKinds : ∀ method, List.Forall₂ Stmt.SameKind method.body (change method)) :
    program.SameFrame (program.mapBodies change) where
  imports := rfl
  className := rfl
  superClass := rfl
  fields := rfl
  methods :=
    List.forall₂_map_right_iff.mpr
      (List.forall₂_same.mpr fun method _ =>
        ⟨rfl, rfl, rfl, rfl, rfl, rfl, sameKinds method⟩)

end Program

namespace Pass

variable {symbols : Symbols} {program : Program}

/-- A pass over a body that it has gone over changes nothing. -/
theorem body_body
    (pass : Pass)
    (method : MethodDef) :
    pass.body symbols { method with body := pass.body symbols method } =
      pass.body symbols method := by
  cases pass with
  | propagation =>
      exact propagateBody_propagateBody method.body
  | folding =>
      simp only [body, List.map_map]
      exact List.map_congr_left fun stmt _ => stmt.fold_fold

theorem sameKinds_body
    (pass : Pass)
    (method : MethodDef) :
    List.Forall₂ Stmt.SameKind method.body (pass.body symbols method) := by
  cases pass with
  | propagation =>
      exact forall₂_sameKind_propagateBody method.body
  | folding =>
      exact List.forall₂_map_right_iff.mpr
        (List.forall₂_same.mpr fun stmt _ => stmt.sameKind_fold)

/-- A pass reports no change exactly if the program stays the same. -/
theorem changes_eq_false_iff
    (pass : Pass) :
    pass.changes symbols program = false ↔
      pass.apply symbols program = program := by
  rw [apply_eq_mapBodies, Program.mapBodies_eq_self_iff]
  cases pass with
  | propagation =>
      rw [changes, Program.propagates, List.any_eq_false]
      refine forall₂_congr fun method _ => ?_
      rw [Bool.not_eq_true]
      exact (propagateBody_eq_self_iff method.body).symm
  | folding =>
      rw [changes, Bool.not_eq_false', List.isEmpty_iff, Program.foldings,
        List.flatMap_eq_nil_iff]
      refine forall₂_congr fun method _ => ?_
      rw [List.flatMap_eq_nil_iff, body, map_eq_self_iff]
      exact forall₂_congr fun stmt _ => stmt.foldings_eq_nil_iff

/-- A pass over a program that it has gone over changes nothing. -/
theorem apply_apply
    (pass : Pass) :
    pass.apply symbols (pass.apply symbols program) =
      pass.apply symbols program := by
  rw [apply_eq_mapBodies, apply_eq_mapBodies, Program.mapBodies_mapBodies]
  exact congrArg program.mapBodies (funext fun method => pass.body_body method)

/--
Each pass does all its work in one walk and reports it truthfully. It reports a
change exactly if its result is another program. On its own result it gives the
same program and reports no change. It leaves all but the expressions in the
bodies: imports, class header, fields, signatures, locals, and the number and
kinds of statements.
-/
theorem reports_work_of_walk
    (symbols : Symbols)
    (program : Program)
    (pass : Pass) :
    (pass.changes symbols program = true ↔ pass.apply symbols program ≠ program) ∧
      pass.apply symbols (pass.apply symbols program) = pass.apply symbols program ∧
        pass.changes symbols (pass.apply symbols program) = false ∧
          program.SameFrame (pass.apply symbols program) := by
  refine ⟨?_, pass.apply_apply, pass.changes_eq_false_iff.mpr pass.apply_apply, ?_⟩
  · rw [← Bool.not_eq_false, ne_eq, not_iff_not]
    exact pass.changes_eq_false_iff
  · rw [apply_eq_mapBodies]
    exact program.sameFrame_mapBodies pass.sameKinds_body

end Pass

end MiniJava
