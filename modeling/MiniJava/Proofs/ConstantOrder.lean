import Mathlib.Algebra.Order.BigOperators.Group.List
import Mathlib.Algebra.Order.Group.Nat
import MiniJava.Proofs.ConstantRounds

namespace MiniJava

/-!
# The order of the constant passes

A single walk over a body can do all that the passes do together: it replaces
and folds each statement before it learns from it. Whichever pass runs first,
the outcome of the walk stays the same, and the walk leaves a settled body as it
is. So passes in any order end at the outcome of the walk once none of them
changes anything, and rounds of both passes do get there.
-/

namespace Known

/-- Everything that is known is known to someone who knows more. -/
def Below (known more : Known) : Prop :=
  ∀ (name : String) (literal : Literal), known[name]? = some literal →
  more[name]? = some literal

variable {known more : Known}

theorem Below.insert
    (below : known.Below more)
    (name : String)
    (literal : Literal) :
    Below (Std.ExtTreeMap.insert known name literal)
      (Std.ExtTreeMap.insert more name literal) := by
  intro other found isFound
  rw [Std.ExtTreeMap.getElem?_insert] at isFound ⊢
  split at isFound
  case isTrue same =>
    rw [if_pos same, isFound]
  case isFalse different =>
    rw [if_neg different]
    exact below other found isFound

theorem Below.erase
    (below : known.Below more)
    (name : String) :
    Below (Std.ExtTreeMap.erase known name) (Std.ExtTreeMap.erase more name) := by
  intro other found isFound
  rw [Std.ExtTreeMap.getElem?_erase] at isFound ⊢
  split at isFound
  case isTrue =>
    cases isFound
  case isFalse different =>
    rw [if_neg different]
    exact below other found isFound

/-- Who forgets a name still knows less than someone who learns it. -/
theorem Below.erase_insert
    (below : known.Below more)
    (name : String)
    (literal : Literal) :
    Below (Std.ExtTreeMap.erase known name)
      (Std.ExtTreeMap.insert more name literal) := by
  intro other found isFound
  rw [Std.ExtTreeMap.getElem?_erase] at isFound
  rw [Std.ExtTreeMap.getElem?_insert]
  split at isFound
  case isTrue =>
    cases isFound
  case isFalse different =>
    rw [if_neg different]
    exact below other found isFound

end Known

namespace Expr

variable {known more : Known}

/-- An operator on literals is folded, whatever its operands were before. -/
theorem fold_binary_of_folding
    {operator : Operator}
    {left right : Expr}
    {type : TypeName}
    {folding : Folding}
    (folds : Folding.of? operator left.fold right.fold = some folding) :
    (Expr.binary operator left right type).fold = .literal folding.result := by
  rw [fold, folds]

/-- Folding before a replacement makes no difference to folding after it. -/
theorem fold_substitute_fold
    (known : Known)
    (expr : Expr) :
    (expr.fold.substitute known).fold = (expr.substitute known).fold := by
  induction expr with
  | binary operator left right type leftHypothesis rightHypothesis =>
      cases folds : Folding.of? operator left.fold right.fold with
      | none =>
          rw [fold, folds]
          simp only [substitute, fold, leftHypothesis, rightHypothesis]
      | some folding =>
          -- Both operands fold to literals, in which there is nothing to replace.
          obtain ⟨leftLiteral, rightLiteral⟩ :
              (∃ value, left.fold = .literal value) ∧ ∃ value,
                right.fold = .literal value := by
            unfold Folding.of? at folds
            split at folds
            case h_1 leftValue rightValue isLeft isRight =>
              exact ⟨⟨leftValue, isLeft⟩, rightValue, isRight⟩
            case h_2 =>
              cases folds
          obtain ⟨leftValue, isLeft⟩ := leftLiteral
          obtain ⟨rightValue, isRight⟩ := rightLiteral
          have leftAfter : (left.substitute known).fold = left.fold := by
            rw [← leftHypothesis, isLeft]
            rfl
          have rightAfter : (right.substitute known).fold = right.fold := by
            rw [← rightHypothesis, isRight]
            rfl
          have foldsAfter :
              Folding.of? operator (left.substitute known).fold
                (right.substitute known).fold =
                some folding := by
            rw [leftAfter, rightAfter, folds]
          rw [fold_binary_of_folding folds, substitute, substitute,
            fold_binary_of_folding foldsAfter]
          rfl
  | call target method arguments type targetHypothesis argumentsHypothesis =>
      simpa [fold, substitute, foldList_eq_map, substituteList_eq_map,
        targetHypothesis] using argumentsHypothesis
  | _ =>
      simp_all [fold, substitute]

/--
A replacement by some of what is known makes no difference to the one that follows.
-/
theorem substitute_of_below
    (below : known.Below more)
    (expr : Expr) :
    (expr.substitute known).substitute more = expr.substitute more := by
  induction expr with
  | var name type =>
      rw [substitute]
      cases isKnown : known[name]? with
      | none => rfl
      | some literal => simp [substitute, below name literal isKnown]
  | call target method arguments type targetHypothesis argumentsHypothesis =>
      simpa [substitute, substituteList_eq_map, targetHypothesis]
        using argumentsHypothesis
  | _ =>
      simp_all [substitute]

end Expr

namespace Stmt

variable {symbols : Symbols} {method : String} {known more : Known}

theorem settle_fold
    (known : Known)
    (stmt : Stmt) :
    stmt.fold.settle known = stmt.settle known := by
  cases stmt with
  | assign name type value =>
      simp [settle, substitute, fold, Expr.fold_substitute_fold]
  | evaluate value =>
      simp [settle, substitute, fold, Expr.fold_substitute_fold]
  | ret value =>
      cases value <;> simp [settle, substitute, fold, Expr.fold_substitute_fold]

theorem settle_substitute
    (below : known.Below more)
    (stmt : Stmt) :
    (stmt.substitute known).settle more = stmt.settle more := by
  cases stmt with
  | assign name type value =>
      simp [settle, substitute, Expr.substitute_of_below below]
  | evaluate value =>
      simp [settle, substitute, Expr.substitute_of_below below]
  | ret value =>
      cases value <;> simp [settle, substitute, Expr.substitute_of_below below]

/-- Who knows more and also folds learns whatever is learned without. -/
theorem knownAfter_below
    (below : known.Below more)
    (stmt : Stmt) :
    ((stmt.substitute known).knownAfter symbols method known).Below
      ((stmt.settle more).knownAfter symbols method more) := by
  cases stmt with
  | assign name type value =>
      cases isField : symbols.isField method name with
      | true =>
          simpa [settle, substitute, fold, knownAfter, learned?, isField]
            using below.erase name
      | false =>
          cases isLiteral : (value.substitute known).literal? with
          | none =>
              cases isFolded : (value.substitute more).fold.literal? with
              | none =>
                  simpa [settle, substitute, fold, knownAfter, learned?, isField,
                    isLiteral, isFolded] using below.erase name
              | some literal =>
                  simpa [settle, substitute, fold, knownAfter, learned?, isField,
                    isLiteral, isFolded] using below.erase_insert name literal
          | some literal =>
              have value_eq : value.substitute known = .literal literal := by
                cases substituted : value.substitute known with
                | literal found =>
                    rw [substituted] at isLiteral
                    rw [Option.some.inj isLiteral]
                | _ =>
                    rw [substituted] at isLiteral
                    cases isLiteral
              have settled_eq :
                  (value.substitute more).fold = .literal literal := by
                rw [← Expr.substitute_of_below below value, value_eq]
                rfl
              simpa [settle, substitute, fold, knownAfter, learned?, isField,
                value_eq, settled_eq, Expr.literal?] using below.insert name literal
  | evaluate value =>
      exact below
  | ret value =>
      exact below

end Stmt

section

variable {symbols : Symbols} {method : String} {known more : Known}

/--
The body after a single walk: each statement has its known names replaced and is
folded, and only then its name is known or forgotten.
-/
def walkBody (symbols : Symbols) (method : String) : Known → List Stmt → List Stmt
  | _, [] => []
  | known, stmt :: rest =>
      let settled := (stmt.substitute known).fold
      settled :: walkBody symbols method
        (settled.knownAfter symbols method known) rest

theorem walkBody_cons
    (first : Stmt)
    (rest : List Stmt) :
    walkBody symbols method known (first :: rest) =
      first.settle known ::
        walkBody symbols method
          ((first.settle known).knownAfter symbols method known) rest :=
  rfl

/-- Folding leaves the outcome of the walk. -/
theorem walkBody_fold
    (body : List Stmt) :
    walkBody symbols method known (body.map Stmt.fold) =
      walkBody symbols method known body := by
  induction body generalizing known with
  | nil =>
      rfl
  | cons first rest inductionHypothesis =>
      rw [List.map_cons, walkBody_cons, walkBody_cons, Stmt.settle_fold,
        inductionHypothesis]

/-- Propagation leaves the outcome of a walk that knows at least as much. -/
theorem walkBody_propagateBody
    (below : known.Below more)
    (body : List Stmt) :
    walkBody symbols method more (propagateBody symbols method known body) =
      walkBody symbols method more body := by
  induction body generalizing known more with
  | nil =>
      rfl
  | cons first rest inductionHypothesis =>
      rw [propagateBody, walkBody_cons, walkBody_cons, Stmt.settle_substitute below,
        inductionHypothesis (Stmt.knownAfter_below below first)]

/-- The walk leaves a settled body as it is. -/
theorem SettledBody.walkBody_eq
    {body : List Stmt}
    (settled : SettledBody symbols method known body) :
    walkBody symbols method known body = body := by
  induction body generalizing known with
  | nil =>
      rfl
  | cons first rest inductionHypothesis =>
      obtain ⟨⟨substitutes, folds⟩, restSettled⟩ := settled
      have stays : first.settle known = first := by
        rw [Stmt.settle, substitutes, folds]
      rw [walkBody_cons, stays, inductionHypothesis restSettled]

end

namespace Program

variable {symbols : Symbols} {program : Program}

/-- The program after a single walk over each of its bodies. -/
def walk (symbols : Symbols) (program : Program) : Program :=
  program.mapBodies fun method => walkBody symbols method.name ∅ method.body

/-- A pass leaves the outcome of the walk. -/
theorem walk_apply
    (pass : Pass)
    (program : Program) :
    (pass.apply symbols program).walk symbols = program.walk symbols := by
  rw [pass.apply_eq_mapBodies, walk, mapBodies_mapBodies, walk]
  congr 1
  funext method
  cases pass with
  | propagation =>
      exact walkBody_propagateBody (fun _ _ isKnown => isKnown) method.body
  | folding => exact walkBody_fold method.body

/-- Passes in any order leave the outcome of the walk. -/
theorem walk_runPasses
    (passes : List Pass)
    (program : Program) :
    (program.runPasses symbols passes).1.walk symbols = program.walk symbols := by
  induction passes generalizing program with
  | nil =>
      rfl
  | cons first rest inductionHypothesis =>
      rw [← walk_apply first program]
      exact inductionHypothesis _

theorem propagates_eq_false_iff :
    program.propagates symbols = false ↔
      ∀ method ∈ program.mainClass.methods,
        propagateBody symbols method.name ∅ method.body = method.body := by
  rw [propagates, List.any_eq_false]
  refine forall₂_congr fun method _ => ?_
  rw [propagateBody_eq_self_iff, Bool.not_eq_true]
  rfl

theorem foldings_eq_nil_iff :
    program.foldings = [] ↔
      ∀ method ∈ program.mainClass.methods, ∀ stmt ∈ method.body,
        stmt.fold = stmt := by
  simp only [foldings, List.flatMap_eq_nil_iff, Stmt.foldings_eq_nil_iff]

/-- No pass reports a change exactly if all bodies are settled. -/
theorem changes_eq_false_iff :
    (∀ pass : Pass, pass.changes symbols program = false) ↔
      ∀ method ∈ program.mainClass.methods,
        SettledBody symbols method.name ∅ method.body := by
  have flags :
      (∀ pass : Pass, pass.changes symbols program = false) ↔
        program.propagates symbols = false ∧ program.foldings = [] := by
    constructor
    · intro unchanged
      exact ⟨unchanged .propagation,
        by simpa [Pass.changes] using unchanged .folding⟩
    · rintro ⟨notPropagated, notFolded⟩ pass
      cases pass with
      | propagation => exact notPropagated
      | folding => simp [Pass.changes, notFolded]
  rw [flags, propagates_eq_false_iff, foldings_eq_nil_iff, ← forall₂_and]
  exact forall₂_congr fun method _ => (settledBody_iff method.body).symm

theorem isSettled_iff_changes :
    program.IsSettled symbols ↔
      ∀ pass : Pass, pass.changes symbols program = false := by
  rw [isSettled_iff, roundChanges_eq_false_iff, changes_eq_false_iff]

/-- The walk leaves a settled program as it is. -/
theorem IsSettled.walk_eq
    (settled : program.IsSettled symbols) :
    program.walk symbols = program := by
  rw [isSettled_iff, roundChanges_eq_false_iff] at settled
  have stays :
      ∀ method ∈ program.mainClass.methods,
        { method with body := walkBody symbols method.name ∅ method.body } =
          method := by
    intro method member
    rw [(settled method member).walkBody_eq]
  rw [walk, mapBodies, map_eq_self_iff.mpr stays]

/-- Enough rounds settle a program. -/
theorem exists_isSettled_iterate
    (symbols : Symbols)
    (program : Program) :
    ∃ count, ((round symbols)^[count] program).IsSettled symbols := by
  let counts :=
    program.mainClass.methods.map (MethodDef.variableAssignments symbols)
  refine ⟨counts.sum + 1, isSettled_iterate fun method member => ?_⟩
  have isCount : method.variableAssignments symbols ∈ counts :=
    List.mem_map_of_mem member
  exact Nat.lt_succ_of_le (List.le_sum_of_mem isCount)

/-- A pass leaves a settled program as it is. -/
theorem IsSettled.apply_eq
    (settled : program.IsSettled symbols)
    (pass : Pass) :
    pass.apply symbols program = program := by
  rw [isSettled_iff, roundChanges_eq_false_iff] at settled
  have stays :
      ∀ method ∈ program.mainClass.methods,
        { method with body := pass.body symbols method } = method := by
    intro method member
    obtain ⟨propagated, folded⟩ :=
      (settledBody_iff method.body).mp (settled method member)
    cases pass with
    | propagation => rw [Pass.body, MethodDef.propagate, propagated]
    | folding => rw [Pass.body, map_eq_self_iff.mpr folded]
  rw [pass.apply_eq_mapBodies, mapBodies, map_eq_self_iff.mpr stays]

/-- The program after a round of two passes in the given order. -/
def roundOf
    (symbols : Symbols)
    (first second : Pass)
    (program : Program) : Program :=
  (program.runPasses symbols [first, second]).1

/--
Rounds that fold first are rounds that propagate first, between a
folding and a propagation.
-/
theorem iterate_roundOf_folding
    (symbols : Symbols)
    (program : Program)
    (count : Nat) :
    (roundOf symbols .folding .propagation)^[count + 1] program =
      ((round symbols)^[count] program.fold).propagate symbols := by
  have commutes :
      Function.Semiconj (propagate symbols) (round symbols)
        (roundOf symbols .folding .propagation) :=
    fun _ => rfl
  exact ((commutes.iterate_right count).eq program.fold).symm

/-- Enough rounds of both passes settle a program, whichever comes first. -/
theorem exists_isSettled_roundOf
    (symbols : Symbols)
    (program : Program)
    {first second : Pass}
    (different : first ≠ second) :
    ∃ count,
      ((roundOf symbols first second)^[count] program).IsSettled symbols := by
  cases first with
  | propagation =>
      cases second with
      | propagation => exact absurd rfl different
      | folding => exact exists_isSettled_iterate symbols program
  | folding =>
      cases second with
      | propagation =>
          obtain ⟨count, settled⟩ := exists_isSettled_iterate symbols program.fold
          have stays :
              ((round symbols)^[count] program.fold).propagate symbols =
                (round symbols)^[count] program.fold :=
            settled.apply_eq .propagation
          exact ⟨count + 1, by rwa [iterate_roundOf_folding, stays]⟩
      | folding => exact absurd rfl different

theorem walk_iterate_roundOf
    (first second : Pass)
    (count : Nat) :
    ((roundOf symbols first second)^[count] program).walk symbols =
      program.walk symbols := by
  induction count generalizing program with
  | zero =>
      rfl
  | succ count inductionHypothesis =>
      rw [Function.iterate_succ_apply, inductionHypothesis]
      exact walk_runPasses [first, second] program

/--
Whatever passes reach from a program, in any order and number, is the outcome of
the single walk once no pass reports a change. Rounds of both passes reach it and
stay there, whichever pass comes first.
-/
theorem passes_end_at_walk
    (symbols : Symbols)
    (program : Program) :
    (∀ passes : List Pass,
      (∀ pass : Pass,
        pass.changes symbols (program.runPasses symbols passes).1 = false) →
      (program.runPasses symbols passes).1 = program.walk symbols) ∧
    ∀ first second : Pass, first ≠ second →
      ∃ count, ∀ more ≥ count,
        (roundOf symbols first second)^[more] program = program.walk symbols ∧
          ∀ pass : Pass,
            pass.changes symbols
              ((roundOf symbols first second)^[more] program) = false := by
  constructor
  · intro passes unchanged
    rw [← (isSettled_iff_changes.mpr unchanged).walk_eq, walk_runPasses]
  · intro first second different
    obtain ⟨count, settled⟩ := exists_isSettled_roundOf symbols program different
    have stays :
        roundOf symbols first second
          ((roundOf symbols first second)^[count] program) =
          (roundOf symbols first second)^[count] program := by
      rw [roundOf, runPasses, runPasses, runPasses]
      simp only [settled.apply_eq]
    refine ⟨count, fun more later => ?_⟩
    obtain ⟨rest, rfl⟩ := Nat.exists_eq_add_of_le' later
    rw [Function.iterate_add_apply, Function.iterate_fixed stays]
    refine ⟨?_, isSettled_iff_changes.mp settled⟩
    rw [← settled.walk_eq, walk_iterate_roundOf]

end Program

/-- A program that makes a number, reads it twice and assigns it again. -/
private def squaringProgram : Program where
  mainClass :=
    { name := "A"
      methods :=
        [{ name := "square"
           isStatic := true
           returnType := .int
           body :=
            [.assign "x" .int
              (.binary .add (.literal (.int 1)) (.literal (.int 2)) .int),
              .assign "x" .int (.binary .mul (.var "x" .int) (.var "x" .int) .int),
              .assign "y" .int (.binary .sub (.var "x" .int) (.var "z" .int) .int),
              .ret (some (.binary .add (.var "x" .int) (.var "y" .int) .int))] }] }

/-- Passes in no regular order that settle the program. -/
private def squaringPasses : List Pass :=
  [.folding, .folding, .propagation, .folding, .propagation, .propagation]

theorem passes_end_at_walk_squaring :
    (∀ pass : Pass,
      pass.changes (.ofProgram squaringProgram)
        (squaringProgram.runPasses (.ofProgram squaringProgram) squaringPasses).1 =
          false) ∧
    (squaringProgram.runPasses (.ofProgram squaringProgram) squaringPasses).1 =
      squaringProgram.walk (.ofProgram squaringProgram) ∧
    (squaringProgram.walk (.ofProgram squaringProgram)).mainClass.methods.map
      MethodDef.body =
      [[.assign "x" .int (.literal (.int 3)), .assign "x" .int (.literal (.int 9)),
        .assign "y" .int (.binary .sub (.literal (.int 9)) (.var "z" .int) .int),
        .ret (some (.binary .add (.literal (.int 9)) (.var "y" .int) .int))]] := by
  have unchanged :
      ∀ pass : Pass,
        pass.changes (.ofProgram squaringProgram)
          (squaringProgram.runPasses (.ofProgram squaringProgram)
            squaringPasses).1 = false := by
    intro pass
    cases pass <;> decide +kernel
  refine ⟨unchanged, (Program.passes_end_at_walk _ _).1 squaringPasses
    unchanged, ?_⟩
  rfl

end MiniJava
