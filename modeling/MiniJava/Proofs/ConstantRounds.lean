import Mathlib.Data.List.MinMax
import Mathlib.Logic.Function.Iterate
import MiniJava.Proofs.ConstantPasses

namespace MiniJava

/-!
# How many rounds the constant passes take

A round leaves a statement with nothing to do once what is known before the
statement does not change any more. Only assignments to variables make names
known, and each of them needs one round after those before it. So a body is
settled after one round more than it has such assignments, and in general no
sooner. An optimization may run out of rounds before that.
-/

namespace Expr

theorem listSubstitutions_eq_flatMap
    (known : Known)
    (exprs : List Expr) :
    listSubstitutions known exprs = exprs.flatMap (substitutions known) := by
  induction exprs with
  | nil =>
      rfl
  | cons first rest inductionHypothesis =>
      rw [listSubstitutions, inductionHypothesis, List.flatMap_cons]

theorem listFoldings_eq_flatMap
    (exprs : List Expr) :
    listFoldings exprs = exprs.flatMap foldings := by
  induction exprs with
  | nil =>
      rfl
  | cons first rest inductionHypothesis =>
      rw [listFoldings, inductionHypothesis, List.flatMap_cons]

/-- Nothing is replaced exactly if the expression stays the same. -/
theorem substitutions_eq_nil_iff
    (known : Known)
    (expr : Expr) :
    expr.substitutions known = [] ↔ expr.substitute known = expr := by
  induction expr with
  | var name type =>
      rw [substitutions, substitute]
      cases known[name]? with
      | none => simp
      | some literal => simp
  | call target method arguments type targetHypothesis argumentsHypothesis =>
      simp only [substitutions, substitute, List.append_eq_nil_iff,
        listSubstitutions_eq_flatMap, List.flatMap_eq_nil_iff, call.injEq,
        substituteList_eq_map, map_eq_self_iff, true_and,
        and_true]
      exact and_congr targetHypothesis (forall₂_congr argumentsHypothesis)
  | _ =>
      simp_all [substitutions, substitute]

/-- The steps of a substitution are replacements. -/
theorem isReplacement_of_mem_substitutions
    {known : Known}
    {expr : Expr}
    {step : PropagationStep}
    (member : step ∈ expr.substitutions known) :
    step.isReplacement = true := by
  induction expr with
  | var name type =>
      rw [substitutions] at member
      cases isKnown : known[name]? with
      | none =>
          rw [isKnown] at member
          cases member
      | some literal =>
          rw [isKnown] at member
          rw [List.mem_singleton.mp member]
          rfl
  | call target method arguments type targetHypothesis argumentsHypothesis =>
      rw [substitutions, listSubstitutions_eq_flatMap, List.mem_append] at member
      rcases member with inTarget | inArguments
      · exact targetHypothesis inTarget
      · obtain ⟨argument, isArgument, inArgument⟩ := List.mem_flatMap.mp inArguments
        exact argumentsHypothesis argument isArgument inArgument
  | binary operator left right type leftHypothesis rightHypothesis =>
      rcases List.mem_append.mp member with inLeft | inRight
      · exact leftHypothesis inLeft
      · exact rightHypothesis inRight
  | element array index type arrayHypothesis indexHypothesis =>
      rcases List.mem_append.mp member with inArray | inIndex
      · exact arrayHypothesis inArray
      · exact indexHypothesis inIndex
  | _ =>
      simp_all [substitutions]

/-- Nothing is folded exactly if the expression stays the same. -/
theorem foldings_eq_nil_iff
    (expr : Expr) :
    expr.foldings = [] ↔ expr.fold = expr := by
  induction expr with
  | binary operator left right type leftHypothesis rightHypothesis =>
      rw [foldings, fold]
      cases Folding.of? operator left.fold right.fold with
      | none => simp [leftHypothesis, rightHypothesis]
      | some folding => simp
  | call target method arguments type targetHypothesis argumentsHypothesis =>
      simp only [foldings, fold, List.append_eq_nil_iff, listFoldings_eq_flatMap,
        List.flatMap_eq_nil_iff, call.injEq, foldList_eq_map, map_eq_self_iff,
        true_and, and_true]
      exact and_congr targetHypothesis (forall₂_congr argumentsHypothesis)
  | _ =>
      simp_all [foldings, fold]

/-- Replacing leaves nothing to replace. -/
theorem substitute_substitute
    (known : Known)
    (expr : Expr) :
    (expr.substitute known).substitute known = expr.substitute known := by
  induction expr with
  | var name type =>
      rw [substitute]
      cases isKnown : known[name]? with
      | none => simp [substitute, isKnown]
      | some literal => rfl
  | call target method arguments type targetHypothesis argumentsHypothesis =>
      simpa [substitute, substituteList_eq_map, targetHypothesis]
        using argumentsHypothesis
  | _ =>
      simp_all [substitute]

/-- Folding leaves nothing to fold. -/
theorem fold_fold
    (expr : Expr) :
    expr.fold.fold = expr.fold := by
  induction expr with
  | binary operator left right type leftHypothesis rightHypothesis =>
      rw [fold]
      cases folds : Folding.of? operator left.fold right.fold with
      | none => simp [fold, leftHypothesis, rightHypothesis, folds]
      | some folding => rfl
  | call target method arguments type targetHypothesis argumentsHypothesis =>
      simpa [fold, foldList_eq_map, targetHypothesis] using argumentsHypothesis
  | _ =>
      simp_all [fold]

/-- Folding brings no name back that could be replaced. -/
theorem substitute_fold
    {known : Known}
    {expr : Expr}
    (unchanged : expr.substitute known = expr) :
    expr.fold.substitute known = expr.fold := by
  induction expr with
  | binary operator left right type leftHypothesis rightHypothesis =>
      simp only [substitute, binary.injEq, true_and, and_true] at unchanged
      rw [fold]
      cases Folding.of? operator left.fold right.fold with
      | none =>
          simp [substitute, leftHypothesis unchanged.1, rightHypothesis unchanged.2]
      | some folding => rfl
  | call target method arguments type targetHypothesis argumentsHypothesis =>
      simp only [substitute, call.injEq, substituteList_eq_map, map_eq_self_iff,
        true_and, and_true] at unchanged
      have onArguments :
          ∀ argument ∈ arguments, argument.fold.substitute known = argument.fold :=
        fun argument member =>
          argumentsHypothesis argument member (unchanged.2 argument member)
      simpa [fold, substitute, foldList_eq_map, substituteList_eq_map,
        targetHypothesis unchanged.1] using onArguments
  | _ =>
      simp_all [fold, substitute]

end Expr

namespace Stmt

/-- The statement after a round, where names are known before it. -/
def settle (known : Known) (stmt : Stmt) : Stmt :=
  (stmt.substitute known).fold

/-- No substitution is made in a statement exactly if it stays as it is. -/
theorem substitutions_eq_nil_iff
    (known : Known)
    (stmt : Stmt) :
    stmt.substitutions known = [] ↔ stmt.substitute known = stmt := by
  cases stmt with
  | assign name type value =>
      simpa [substitutions, substitute] using value.substitutions_eq_nil_iff known
  | evaluate value =>
      simpa [substitutions, substitute] using value.substitutions_eq_nil_iff known
  | ret value =>
      cases value with
      | none => simp [substitutions, substitute]
      | some value =>
          simpa [substitutions, substitute]
            using value.substitutions_eq_nil_iff known

/-- A statement has steps that are replacements unless it stays the same. -/
theorem any_isReplacement_eq_false_iff
    (known : Known)
    (stmt : Stmt) :
    (stmt.substitutions known).any PropagationStep.isReplacement = false ↔
      stmt.substitute known = stmt := by
  have replaces : ∀ step ∈ stmt.substitutions known, step.isReplacement = true := by
    intro step member
    cases stmt with
    | assign name type value =>
        exact Expr.isReplacement_of_mem_substitutions member
    | evaluate value =>
        exact Expr.isReplacement_of_mem_substitutions member
    | ret value =>
        cases value with
        | none => cases member
        | some value => exact Expr.isReplacement_of_mem_substitutions member
  rw [← substitutions_eq_nil_iff, List.any_eq_false, List.eq_nil_iff_forall_not_mem]
  constructor
  · exact fun none step member => none step member (replaces step member)
  · exact fun empty step member => absurd member (empty step)

/-- Nothing is folded in a statement exactly if it stays as it is. -/
theorem foldings_eq_nil_iff
    (stmt : Stmt) :
    stmt.foldings = [] ↔ stmt.fold = stmt := by
  cases stmt with
  | assign name type value =>
      simpa [foldings, fold] using value.foldings_eq_nil_iff
  | evaluate value =>
      simpa [foldings, fold] using value.foldings_eq_nil_iff
  | ret value =>
      cases value with
      | none => simp [foldings, fold]
      | some value => simpa [foldings, fold] using value.foldings_eq_nil_iff

/-- A statement has nothing to replace or fold, where names are known before it. -/
structure Settled (known : Known) (stmt : Stmt) : Prop where
  substitute : stmt.substitute known = stmt
  fold : stmt.fold = stmt

/-- A round leaves a statement with nothing to replace or fold. -/
theorem settled_settle
    (known : Known)
    (stmt : Stmt) :
    (stmt.settle known).Settled known := by
  have onExpr (expr : Expr) :
      (expr.substitute known).fold.substitute known =
        (expr.substitute known).fold :=
    Expr.substitute_fold (expr.substitute_substitute known)
  cases stmt with
  | assign name type value =>
      constructor <;> simp [settle, substitute, fold, onExpr, Expr.fold_fold]
  | evaluate value =>
      constructor <;> simp [settle, substitute, fold, onExpr, Expr.fold_fold]
  | ret value =>
      cases value <;> constructor <;>
        simp [settle, substitute, fold, onExpr, Expr.fold_fold]

/-- Whether a statement assigns to a name that is no field. -/
def assignsVariable (symbols : Symbols) (method : String) : Stmt → Bool
  | .assign name _ _ => !symbols.isField method name
  | _ => false

variable {symbols : Symbols} {method : String}

/-- A round leaves alone which statements assign to variables. -/
theorem assignsVariable_settle
    (known : Known)
    (stmt : Stmt) :
    (stmt.settle known).assignsVariable symbols method =
      stmt.assignsVariable symbols method := by
  cases stmt <;> rfl

/--
Folding makes a difference to what is known only where a variable is assigned.
-/
theorem knownAfter_settle
    {stmt : Stmt}
    (notAssigned : stmt.assignsVariable symbols method = false)
    (known : Known) :
    (stmt.settle known).knownAfter symbols method known =
      (stmt.substitute known).knownAfter symbols method known := by
  cases stmt with
  | assign name type value =>
      have isField : symbols.isField method name = true := by
        simpa [assignsVariable] using notAssigned
      simp [settle, substitute, fold, knownAfter, learned?, isField]
  | evaluate value =>
      rfl
  | ret value =>
      rfl

end Stmt

section

variable {symbols : Symbols} {method : String} {known : Known}

/-- The body after a round, where names are known before it. -/
def roundBody
    (symbols : Symbols)
    (method : String)
    (known : Known)
    (body : List Stmt) :
    List Stmt :=
  (propagateBody symbols method known body).map Stmt.fold

/-- A round settles the first statement and goes on with what is known after it. -/
theorem roundBody_cons
    (first : Stmt)
    (rest : List Stmt) :
    roundBody symbols method known (first :: rest) =
      first.settle known ::
        roundBody symbols method
          ((first.substitute known).knownAfter symbols method known) rest :=
  rfl

/--
The statements of a body have nothing to replace or fold, one after the other.
-/
def SettledBody (symbols : Symbols) (method : String) : Known → List Stmt → Prop
  | _, [] => True
  | known, first :: rest =>
      first.Settled known ∧
        SettledBody symbols method (first.knownAfter symbols method known) rest

theorem length_roundBody
    (body : List Stmt) :
    (roundBody symbols method known body).length = body.length := by
  induction body generalizing known with
  | nil =>
      rfl
  | cons first rest inductionHypothesis =>
      rw [roundBody_cons, List.length_cons, List.length_cons, inductionHypothesis]

/-- The number of assignments to variables is the same after a round. -/
theorem countP_roundBody
    (body : List Stmt) :
    (roundBody symbols method known body).countP
      (Stmt.assignsVariable symbols method) =
      body.countP (Stmt.assignsVariable symbols method) := by
  induction body generalizing known with
  | nil =>
      rfl
  | cons first rest inductionHypothesis =>
      rw [roundBody_cons, List.countP_cons, List.countP_cons, inductionHypothesis,
        Stmt.assignsVariable_settle]

/--
Rounds leave a settled statement and go on behind it with what is known there.
-/
theorem iterate_roundBody_cons
    {first : Stmt}
    (settled : first.Settled known)
    (rest : List Stmt)
    (count : Nat) :
    (roundBody symbols method known)^[count] (first :: rest) =
      first ::
        (roundBody symbols method (first.knownAfter symbols method known))^[count]
          rest := by
  induction count generalizing rest with
  | zero =>
      rfl
  | succ count inductionHypothesis =>
      have stays : first.settle known = first := by
        rw [Stmt.settle, settled.substitute, settled.fold]
      rw [Function.iterate_succ_apply, roundBody_cons, stays, settled.substitute,
        inductionHypothesis, Function.iterate_succ_apply]

/-- A body is settled after one round more than it has assignments to variables. -/
theorem settledBody_iterate
    (known : Known)
    (body : List Stmt) :
    SettledBody symbols method known
      ((roundBody symbols method known)^[body.countP
        (Stmt.assignsVariable symbols method) + 1] body) := by
  -- The first round changes the rest of the body, so the induction is on its
  -- length.
  induction isLength : body.length generalizing known body with
  | zero =>
      rw [List.length_eq_zero_iff.mp isLength]
      trivial
  | succ length inductionHypothesis =>
      obtain ⟨first, rest, rfl⟩ := List.exists_cons_of_length_eq_add_one isLength
      rw [Function.iterate_succ_apply, roundBody_cons,
        iterate_roundBody_cons (first.settled_settle known)]
      refine ⟨first.settled_settle known, ?_⟩
      cases assigned : first.assignsVariable symbols method with
      | true =>
          -- What the first statement makes known may still change in the first
          -- round.
          have settled :=
            inductionHypothesis
              ((first.settle known).knownAfter symbols method known)
              (roundBody symbols method
                ((first.substitute known).knownAfter symbols method known) rest)
              ((length_roundBody rest).trans (Nat.succ.inj isLength))
          rw [countP_roundBody] at settled
          simpa [List.countP_cons, assigned] using settled
      | false =>
          rw [Stmt.knownAfter_settle assigned, ← Function.iterate_succ_apply]
          simpa [List.countP_cons, assigned] using
            inductionHypothesis _ rest (Nat.succ.inj isLength)

/-- Propagation replaces nothing in a body exactly if the body stays the same. -/
theorem propagateBody_eq_self_iff
    (body : List Stmt) :
    propagateBody symbols method known body = body ↔
      (bodySteps symbols method known body).any
        PropagationStep.isReplacement = false := by
  induction body generalizing known with
  | nil =>
      simp [propagateBody, bodySteps]
  | cons first rest inductionHypothesis =>
      have noneReplaced
          (learned? : Option (String × Literal))
          (step : String × Literal → PropagationStep)
          (learns : ∀ learned, (step learned).isReplacement = false) :
          (learned?.map step).toList.any PropagationStep.isReplacement = false := by
        cases learned? with
        | none => rfl
        | some learned => simp [learns]
      rw [propagateBody, bodySteps, List.cons.injEq, List.any_append,
        List.any_append, noneReplaced _ _ fun _ => rfl, Bool.or_false,
        Bool.or_eq_false_iff, inductionHypothesis,
        Stmt.any_isReplacement_eq_false_iff]

/-- A round changes nothing in a body exactly if the body is settled. -/
theorem settledBody_iff
    (body : List Stmt) :
    SettledBody symbols method known body ↔
      propagateBody symbols method known body = body ∧ ∀ stmt ∈ body,
        stmt.fold = stmt := by
  induction body generalizing known with
  | nil =>
      simp [SettledBody, propagateBody]
  | cons first rest inductionHypothesis =>
      rw [SettledBody, propagateBody, List.cons.injEq, List.forall_mem_cons,
        inductionHypothesis]
      constructor
      · rintro ⟨⟨substitutes, folds⟩, restPropagated, restFolds⟩
        rw [substitutes]
        exact ⟨⟨rfl, restPropagated⟩, folds, restFolds⟩
      · rintro ⟨⟨substitutes, restPropagated⟩, folds, restFolds⟩
        rw [substitutes] at restPropagated
        exact ⟨⟨substitutes, folds⟩, restPropagated, restFolds⟩

/-- A round leaves a settled body as it is. -/
theorem SettledBody.roundBody_eq
    {body : List Stmt}
    (settled : SettledBody symbols method known body) :
    roundBody symbols method known body = body := by
  obtain ⟨propagated, folded⟩ := (settledBody_iff body).mp settled
  rw [roundBody, propagated, map_eq_self_iff.mpr folded]

/-- A body is settled after any more rounds than it has assignments to variables. -/
theorem settledBody_iterate_of_lt
    {body : List Stmt}
    {count : Nat}
    (few : body.countP (Stmt.assignsVariable symbols method) < count) :
    SettledBody symbols method known
      ((roundBody symbols method known)^[count] body) := by
  obtain ⟨more, rfl⟩ := Nat.exists_eq_add_of_le' few
  have settled :
      SettledBody symbols method known
        ((roundBody symbols method known)^[body.countP
          (Stmt.assignsVariable symbols method) + 1] body) :=
    settledBody_iterate known body
  rw [Function.iterate_add_apply, Function.iterate_fixed settled.roundBody_eq]
  exact settled

end

namespace Program

variable {symbols : Symbols} {program : Program}

/-- The program after a round. -/
def round (symbols : Symbols) (program : Program) : Program :=
  (program.runPasses symbols Pass.round).1

/-- Whether a round changes the program. -/
def roundChanges (symbols : Symbols) (program : Program) : Bool :=
  (program.runPasses symbols Pass.round).2

/-- A round of a program is a round of each body. -/
theorem round_eq_mapBodies
    (symbols : Symbols)
    (program : Program) :
    program.round symbols =
      program.mapBodies fun method => roundBody symbols method.name ∅ method.body :=
  mapBodies_mapBodies program (MethodDef.propagate symbols) fun method =>
    method.body.map Stmt.fold

/-- Rounds of a program are rounds of each body. -/
theorem iterate_round
    (symbols : Symbols)
    (program : Program)
    (count : Nat) :
    (round symbols)^[count] program =
      program.mapBodies fun method =>
        (roundBody symbols method.name ∅)^[count] method.body := by
  induction count generalizing program with
  | zero =>
      simp [mapBodies]
  | succ count inductionHypothesis =>
      rw [Function.iterate_succ_apply, round_eq_mapBodies, inductionHypothesis,
        mapBodies_mapBodies]
      rfl

/-- A round reports no change exactly if all bodies are settled. -/
theorem roundChanges_eq_false_iff :
    program.roundChanges symbols = false ↔
      ∀ method ∈ program.mainClass.methods,
        SettledBody symbols method.name ∅ method.body := by
  have flags :
      program.roundChanges symbols = false ↔
        program.propagates symbols = false ∧
          (program.propagate symbols).foldings = [] := by
    simp [roundChanges, runPasses, Pass.round, Pass.changes, Pass.apply]
  have folds (method : MethodDef) :
      (method.propagate symbols).flatMap Stmt.foldings = [] ↔
        ∀ stmt ∈ method.propagate symbols, stmt.fold = stmt := by
    rw [List.flatMap_eq_nil_iff]
    exact forall₂_congr fun stmt _ => stmt.foldings_eq_nil_iff
  rw [flags, propagates, List.any_eq_false, foldings, propagate, mapBodies,
    List.flatMap_map, List.flatMap_eq_nil_iff, ← forall₂_and]
  refine forall₂_congr fun method _ => ?_
  rw [settledBody_iff, Bool.not_eq_true, folds]
  have stays :
      propagateBody symbols method.name ∅ method.body = method.body ↔
        (method.propagationSteps symbols).any
          PropagationStep.isReplacement = false :=
    propagateBody_eq_self_iff method.body
  rw [← stays]
  exact and_congr_right fun same => by rw [MethodDef.propagate, same]

/-- A round that reports no change leaves the program as it is. -/
theorem round_eq_self
    (settled : program.roundChanges symbols = false) :
    program.round symbols = program := by
  have stays :
      ∀ method ∈ program.mainClass.methods,
        { method with body := roundBody symbols method.name ∅ method.body } =
          method := by
    intro method member
    rw [(roundChanges_eq_false_iff.mp settled method member).roundBody_eq]
  rw [round_eq_mapBodies, mapBodies, map_eq_self_iff.mpr stays]

/--
An optimization runs all its rounds, as rounds that change nothing
make no difference.
-/
theorem runRounds_eq_iterate
    (bound : Nat) :
    program.runRounds symbols bound = (round symbols)^[bound] program := by
  induction bound generalizing program with
  | zero =>
      rfl
  | succ bound inductionHypothesis =>
      rw [runRounds, Function.iterate_succ_apply]
      split
      case h_1 result isRound =>
        rw [round, isRound, inductionHypothesis]
      case h_2 result isRound =>
        have unchanged : program.roundChanges symbols = false :=
          congrArg Prod.snd isRound
        have isResult : program.round symbols = result := congrArg Prod.fst isRound
        have stays : program.round symbols = program := round_eq_self unchanged
        rw [← isResult, stays, Function.iterate_fixed stays]

/-- The program is a joint fixed point of the passes, and a round reports so. -/
def IsSettled (symbols : Symbols) (program : Program) : Prop :=
  program.runPasses symbols Pass.round = (program, false)

/-- A program is settled exactly if a round reports no change. -/
theorem isSettled_iff :
    program.IsSettled symbols ↔ program.roundChanges symbols = false :=
  ⟨congrArg Prod.snd, fun unchanged => Prod.ext (round_eq_self unchanged) unchanged⟩

end Program

/-- How many assignments to variables a method has. -/
def MethodDef.variableAssignments (symbols : Symbols) (method : MethodDef) : Nat :=
  method.body.countP (Stmt.assignsVariable symbols method.name)

namespace Program

variable {symbols : Symbols} {program : Program}

/-- Further rounds leave a settled program. -/
theorem IsSettled.iterate
    {count more : Nat}
    (settled : ((round symbols)^[count] program).IsSettled symbols)
    (later : count ≤ more) :
    ((round symbols)^[more] program).IsSettled symbols := by
  obtain ⟨rest, rfl⟩ := Nat.exists_eq_add_of_le' later
  rw [Function.iterate_add_apply,
    Function.iterate_fixed (congrArg Prod.fst settled)]
  exact settled

/--
A program is settled after one round more than any of its methods
assigns to variables.
-/
theorem isSettled_iterate
    {count : Nat}
    (few :
      ∀ method ∈ program.mainClass.methods,
        method.variableAssignments symbols < count) :
    ((round symbols)^[count] program).IsSettled symbols := by
  rw [isSettled_iff, roundChanges_eq_false_iff, iterate_round, mapBodies]
  intro method member
  obtain ⟨source, isSource, rfl⟩ := List.mem_map.mp member
  exact settledBody_iterate_of_lt (few source isSource)

/--
Optimization ends at a joint fixed point of the passes exactly if one of the
rounds up to the one behind its last changes nothing. That is so wherever each
method assigns to variables less often than there are rounds.
-/
theorem optimize_settled_iff
    (symbols : Symbols)
    (program : Program) :
    ((program.optimize symbols).IsSettled symbols ↔
      ∃ count ≤ maxRounds,
        ((round symbols)^[count] program).roundChanges symbols = false) ∧
    ((∀ method ∈ program.mainClass.methods,
      method.variableAssignments symbols < maxRounds) →
      (program.optimize symbols).IsSettled symbols) := by
  rw [optimize, runRounds_eq_iterate]
  refine ⟨⟨fun settled => ⟨maxRounds, Nat.le_refl _, isSettled_iff.mp settled⟩, ?_⟩,
    isSettled_iterate⟩
  rintro ⟨count, inTime, unchanged⟩
  exact (isSettled_iff.mpr unchanged).iterate inTime

/-- The most assignments to variables that a method of the program has. -/
def mostAssignments (symbols : Symbols) (program : Program) : Nat :=
  (program.mainClass.methods.map (MethodDef.variableAssignments symbols)).foldr max
    0

/-- No method has more assignments than the most. -/
theorem variableAssignments_le
    {method : MethodDef}
    (member : method ∈ program.mainClass.methods) :
    method.variableAssignments symbols ≤ program.mostAssignments symbols :=
  List.le_max_of_le' 0 (List.mem_map_of_mem member) (Nat.le_refl _)

/--
Without a cap, rounds end as soon as the program allows. Of the first rounds, two
more than the most assignments to variables in a method, one reports no change.
Once a round reports no change, every later round returns the same program and
reports no change either.
-/
theorem rounds_end_with_assignments
    (symbols : Symbols)
    (program : Program) :
    (∃ count < program.mostAssignments symbols + 2,
      ((round symbols)^[count] program).roundChanges symbols = false) ∧
    ∀ count,
      ((round symbols)^[count] program).roundChanges symbols = false →
      ∀ later ≥ count,
        ((round symbols)^[later] program).runPasses symbols Pass.round =
          ((round symbols)^[count] program, false) := by
  constructor
  · have few :
        ∀ method ∈ program.mainClass.methods,
          method.variableAssignments symbols <
            program.mostAssignments symbols + 1 :=
      fun method member => Nat.lt_succ_of_le (variableAssignments_le member)
    exact ⟨program.mostAssignments symbols + 1, Nat.lt_succ_self _,
      isSettled_iff.mp (isSettled_iterate few)⟩
  · intro count unchanged later isLater
    obtain ⟨more, rfl⟩ := Nat.exists_eq_add_of_le' isLater
    have stays :
        round symbols ((round symbols)^[count] program) =
          (round symbols)^[count] program :=
      round_eq_self unchanged
    rw [Function.iterate_add_apply, Function.iterate_fixed stays]
    exact isSettled_iff.mpr unchanged

end Program

section

variable {symbols : Symbols} {method : String} {known : Known}

/-- A statement that adds one to a number. -/
private def increment : Stmt :=
  .assign "x" .int (.binary .add (.var "x" .int) (.literal (.int 1)) .int)

/-- Counts on from a number and returns it. -/
private def countingOn (count : Nat) : List Stmt :=
  List.replicate count increment ++ [.ret (some (.var "x" .int))]

/-- Nothing happens to the count where its start is not known. -/
private theorem settledBody_countingOn
    (unknown : known["x"]? = none)
    (count : Nat) :
    SettledBody symbols method known (countingOn count) := by
  induction count generalizing known with
  | zero =>
      refine ⟨⟨?_, rfl⟩, trivial⟩
      simp [Stmt.substitute, Expr.substitute, unknown]
  | succ count inductionHypothesis =>
      refine ⟨⟨?_, rfl⟩, inductionHypothesis ?_⟩
      · simp [increment, Stmt.substitute, Expr.substitute, unknown]
      · simp [increment, Stmt.knownAfter, Stmt.learned?, Expr.literal?]

/-- A round does one step of the count where its start is known. -/
private theorem roundBody_countingOn
    {start : Int32}
    (isKnown : known["x"]? = some (.int start))
    (count : Nat) :
    roundBody symbols method known (countingOn (count + 1)) =
      .assign "x" .int (.literal (.int (start + 1))) :: countingOn count := by
  have unknownAfter :
      (((increment.substitute known).knownAfter symbols method known)["x"]?) =
        none := by
    simp [increment, Stmt.substitute, Expr.substitute, isKnown, Stmt.knownAfter,
      Stmt.learned?, Expr.literal?]
  have folds :
      increment.settle known = .assign "x" .int (.literal (.int (start + 1))) := by
    simp [increment, Stmt.settle, Stmt.substitute, Expr.substitute, isKnown,
      Stmt.fold, Expr.fold, Folding.of?, Operator.eval?]
  calc roundBody symbols method known (increment :: countingOn count)
      = increment.settle known :: countingOn count := by
        rw [roundBody_cons,
          (settledBody_countingOn unknownAfter count).roundBody_eq]
    _ = .assign "x" .int (.literal (.int (start + 1))) :: countingOn count := by
        rw [folds]

/-- After an assignment of a number to a variable, the number is known. -/
private theorem knownAfter_number
    (notField : symbols.isField method "x" = false)
    (known : Known)
    (start : Int32) :
    ((Stmt.assign "x" .int (.literal (.int start))).knownAfter symbols method
      known)["x"]? =
      some (.int start) := by
  simp [Stmt.knownAfter, Stmt.learned?, notField, Expr.literal?]

/-- A count takes one round more than it has steps. -/
private theorem not_settledBody_countingOn
    (notField : symbols.isField method "x" = false)
    {start : Int32}
    (isKnown : known["x"]? = some (.int start))
    (count : Nat) :
    ¬SettledBody symbols method known
      ((roundBody symbols method known)^[count] (countingOn count)) := by
  induction count generalizing known start with
  | zero =>
      rintro ⟨⟨substitutes, _⟩, _⟩
      simp [Stmt.substitute, Expr.substitute, isKnown] at substitutes
  | succ count inductionHypothesis =>
      have settled :
          (Stmt.assign "x" .int (.literal (.int (start + 1)))).Settled known :=
        ⟨rfl, rfl⟩
      rw [Function.iterate_succ_apply, roundBody_countingOn isKnown,
        iterate_roundBody_cons settled]
      rintro ⟨_, restSettled⟩
      exact inductionHypothesis (knownAfter_number notField _ _) restSettled

/-- Makes a number, counts on from it and returns it. -/
private def counting (count : Nat) : List Stmt :=
  .assign "x" .int
    (.binary .add (.literal (.int 1)) (.literal (.int 1)) .int) :: countingOn count

/-- A count is not settled after as many rounds as it has assignments. -/
private theorem not_settledBody_counting
    (notField : symbols.isField method "x" = false)
    (count : Nat) :
    ¬SettledBody symbols method ∅
      ((roundBody symbols method ∅)^[count + 1] (counting count)) := by
  have firstRound :
      roundBody symbols method ∅ (counting count) =
        .assign "x" .int (.literal (.int 2)) :: countingOn count := by
    rw [counting, roundBody_cons, (settledBody_countingOn _ count).roundBody_eq]
    · rfl
    · simp [Stmt.substitute, Expr.substitute, Stmt.knownAfter, Stmt.learned?,
        Expr.literal?]
  rw [Function.iterate_succ_apply, firstRound, iterate_roundBody_cons ⟨rfl, rfl⟩]
  rintro ⟨_, restSettled⟩
  exact not_settledBody_countingOn notField (knownAfter_number notField _ _) count
    restSettled

end

/-- A program with a method that counts. -/
private def countingProgram (count : Nat) : Program where
  mainClass :=
    { name := "A"
      methods :=
        [{ name := "count"
           isStatic := true
           returnType := .int
           body := counting count }] }

/-- The variable that counts is no field. -/
private theorem isField_counting
    (count : Nat) :
    (Symbols.ofProgram (countingProgram count)).isField "count" "x" = false := by
  simp [Symbols.isField, Symbols.ofProgram, Symbols.addMethod, countingProgram]

/-- The program that counts is not settled before its last round. -/
private theorem not_isSettled_counting
    (count : Nat) :
    ¬((Program.round (.ofProgram (countingProgram count)))^[count + 1]
      (countingProgram count)).IsSettled (.ofProgram (countingProgram count)) := by
  rw [Program.isSettled_iff, Program.roundChanges_eq_false_iff,
    Program.iterate_round]
  intro settled
  exact not_settledBody_counting (isField_counting count) count
    (settled _ List.mem_cons_self)

/--
A method that assigns to variables as often as there are rounds is
left with work to do.
-/
theorem optimize_leaves_counting :
    (∀ method ∈ (countingProgram 63).mainClass.methods,
        method.variableAssignments
          (.ofProgram (countingProgram 63)) = Program.maxRounds) ∧
      ¬((countingProgram 63).optimize (.ofProgram (countingProgram 63))).IsSettled
        (.ofProgram (countingProgram 63)) := by
  constructor
  · decide +kernel
  · rw [Program.optimize, Program.runRounds_eq_iterate]
    exact not_isSettled_counting 63

/-- A program that counts to 62 is settled within the bound. -/
theorem optimize_settles_counting :
    (∀ method ∈ (countingProgram 62).mainClass.methods,
        method.variableAssignments
          (.ofProgram (countingProgram 62)) < Program.maxRounds) ∧
      ((countingProgram 62).optimize (.ofProgram (countingProgram 62))).IsSettled
        (.ofProgram (countingProgram 62)) := by
  have few :
      ∀ method ∈ (countingProgram 62).mainClass.methods,
        method.variableAssignments
          (.ofProgram (countingProgram 62)) < Program.maxRounds := by
    decide +kernel
  exact ⟨few, (Program.optimize_settled_iff _ _).2 few⟩

/--
No fewer rounds are enough in general: a count changes in all rounds
but the last of them.
-/
theorem counting_changes
    (count : Nat) :
    (countingProgram count).mostAssignments
      (.ofProgram (countingProgram count)) = count + 1 ∧
      ∀ earlier < count + 2,
        ((Program.round (.ofProgram (countingProgram count)))^[earlier]
          (countingProgram count)).roundChanges
          (.ofProgram (countingProgram count)) = true := by
  constructor
  · have assigns :
        (counting count).countP
            (Stmt.assignsVariable (.ofProgram (countingProgram count)) "count") =
          count + 1 := by
      simp [counting, countingOn, increment, Stmt.assignsVariable, isField_counting,
        List.countP_replicate]
    exact (Nat.max_zero _).trans assigns
  · intro earlier inTime
    by_contra unchanged
    have settled :=
      Program.isSettled_iff.mpr (Bool.eq_false_of_not_eq_true unchanged)
    exact not_isSettled_counting count (settled.iterate (Nat.le_of_lt_succ inTime))

/--
A count with three assignments reports no change in the last of five
rounds and from then on.
-/
theorem rounds_end_with_counting :
    (countingProgram 2).mostAssignments (.ofProgram (countingProgram 2)) = 3 ∧
      ((Program.round (.ofProgram (countingProgram 2)))^[3]
        (countingProgram 2)).roundChanges
          (.ofProgram (countingProgram 2)) = true ∧
        ((Program.round (.ofProgram (countingProgram 2)))^[4]
          (countingProgram 2)).roundChanges
            (.ofProgram (countingProgram 2)) = false ∧
          ∀ later ≥ 4,
            ((Program.round (.ofProgram (countingProgram 2)))^[later]
                (countingProgram 2)).runPasses (.ofProgram (countingProgram 2))
                Pass.round =
              ((Program.round (.ofProgram (countingProgram 2)))^[4]
                (countingProgram 2), false) := by
  have unchanged :
      ((Program.round (.ofProgram (countingProgram 2)))^[4]
        (countingProgram 2)).roundChanges
        (.ofProgram (countingProgram 2)) = false := by
    decide
  exact ⟨by decide, by decide, unchanged,
    (Program.rounds_end_with_assignments _ _).2 4 unchanged⟩

end MiniJava
