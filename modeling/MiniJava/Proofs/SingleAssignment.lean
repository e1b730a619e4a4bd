import Mathlib.Order.Bounds.Basic
import MiniJava.Proofs.DrawnTemporaries

namespace MiniJava

/-!
# Temporaries are fresh and assigned once

A new temporary takes the least number from the counter on whose name is free.
The counter goes on behind that number and is never set back, also not between
methods. So each temporary of a class belongs to one method, and one instruction
of that method writes to it.
-/

open Code (Operand ValueType Instr Method ClassCode temporaryName)
open Register (operandsOf Reads)

namespace Lowering

variable {symbols : Symbols} {state : Lowering}

/--
A number from the counter on whose temporary has a name that nothing else has.
-/
structure FreeNumber
    (symbols : Symbols)
    (state : Lowering)
    (number : Nat) : Prop where
  counted : state.nextTemporary ≤ number
  notLocal : symbols.isLocal state.methodName (temporaryName number) = false
  notParam : symbols.isParam state.methodName (temporaryName number) = false
  notField : symbols.field? (temporaryName number) = none
  notVariable : state.hasVariable (temporaryName number) = false

theorem freeNumber_iff
    {number : Nat} :
    state.FreeNumber symbols number ↔
      state.nextTemporary ≤ number ∧
        state.isTaken symbols (temporaryName number) = false := by
  simp only [isTaken, Bool.or_eq_false_iff, Option.isSome_eq_false_iff,
    Option.isNone_iff_eq_none]
  constructor
  · rintro ⟨counted, notLocal, notParam, notField, notVariable⟩
    exact ⟨counted, ⟨⟨notLocal, notParam⟩, notField⟩, notVariable⟩
  · rintro ⟨counted, ⟨⟨notLocal, notParam⟩, notField⟩, notVariable⟩
    exact ⟨counted, notLocal, notParam, notField, notVariable⟩

/-- The search for a free number passes no free number. -/
theorem firstFree_le
    {bound start number : Nat}
    (behind : start ≤ number)
    (free : state.isTaken symbols (temporaryName number) = false) :
    state.firstFree symbols bound start ≤ number := by
  induction bound generalizing start with
  | zero =>
      exact behind
  | succ bound inductionHypothesis =>
      unfold firstFree
      split
      case isTrue taken =>
        refine inductionHypothesis (Nat.lt_of_le_of_ne behind ?_)
        rintro rfl
        rw [free] at taken
        cases taken
      case isFalse =>
        exact behind

/-- A new temporary takes the least free number. -/
theorem isLeast_freshNumber
    (symbols : Symbols)
    (state : Lowering) :
    IsLeast { number | state.FreeNumber symbols number }
      (state.freshNumber symbols) := by
  refine ⟨freeNumber_iff.mpr
    ⟨le_freshNumber symbols state, freshNumber_free symbols state⟩, ?_⟩
  intro number free
  obtain ⟨behind, notTaken⟩ := freeNumber_iff.mp free
  exact firstFree_le behind notTaken

end Lowering

namespace Lower

variable {symbols : Symbols} {source : MethodDef} {first : Nat}
  {operands : List Operand} {state after : Lowering}

theorem nameRead_supplies
    {name : String}
    {type : TypeName}
    {operand : Operand}
    (declared : source.TemporariesDeclared symbols)
    (named : name ∈ source.names)
    (supplies : source.Supplies symbols first operands state)
    (ran : nameRead symbols name type state = .ok operand after) :
    source.Supplies symbols first (operand :: operands) after := by
  obtain ⟨_, _, gotten, rest⟩ := bind_ok_iff.mp ran
  obtain ⟨rfl, rfl⟩ := get_ok_iff.mp gotten
  split at rest
  · exact .intoTemporary rest declared supplies.receiver
  · split at rest
    · obtain ⟨rfl, rfl⟩ := pure_ok_iff.mp rest
      exact supplies.var named _
    · split at rest
      · obtain ⟨_, _, ranDeclare, returned⟩ := bind_ok_iff.mp rest
        obtain rfl := modify_ok_iff.mp ranDeclare
        obtain ⟨rfl, rfl⟩ := pure_ok_iff.mp returned
        exact (supplies.declare named _ _).var named _
      · obtain ⟨rfl, rfl⟩ := pure_ok_iff.mp rest
        exact supplies.var named _

/-- Expressions that are lowered one by one are all there afterwards. -/
theorem exprs_supply
    {exprs : List Expr}
    {lowered : List Operand}
    (each :
      ∀ expr ∈ exprs, ∀ {operands state after operand},
        source.Supplies symbols first operands state →
        Lower.expr symbols expr state = .ok operand after →
        source.Supplies symbols first (operand :: operands) after)
    (supplies : source.Supplies symbols first operands state)
    (ran : Lower.exprs symbols exprs state = .ok lowered after) :
    source.Supplies symbols first (lowered ++ operands) after := by
  induction exprs generalizing state operands lowered with
  | nil =>
      rw [Lower.exprs] at ran
      obtain ⟨rfl, rfl⟩ := pure_ok_iff.mp ran
      exact supplies
  | cons head rest inductionHypothesis =>
      rw [Lower.exprs] at ran
      obtain ⟨_, _, headRan, ran⟩ := bind_ok_iff.mp ran
      obtain ⟨_, _, restRan, returned⟩ := bind_ok_iff.mp ran
      obtain ⟨rfl, rfl⟩ := pure_ok_iff.mp returned
      have headSupplies := each head List.mem_cons_self supplies headRan
      refine (inductionHypothesis
        (fun expr member => each expr (List.mem_cons_of_mem _ member))
        headSupplies restRan).mono ?_
      simp

/-- The operands of a call are there once its target and arguments are lowered. -/
theorem call_supplies
    {target : Expr}
    {method : String}
    {arguments : List Expr}
    {type : TypeName}
    {used : Bool}
    {instr : Instr}
    (onTarget :
      ∀ {operands state after operand},
        source.Supplies symbols first operands state →
        Lower.expr symbols target state = .ok operand after →
        source.Supplies symbols first (operand :: operands) after)
    (onArguments :
      ∀ argument ∈ arguments, ∀ {operands state after operand},
        source.Supplies symbols first operands state →
        Lower.expr symbols argument state = .ok operand after →
        source.Supplies symbols first (operand :: operands) after)
    (named : ∀ name type, target = .var name type → name ∈ source.names)
    (supplies : source.Supplies symbols first operands state)
    (ran :
      Lower.call symbols target method arguments type used state =
        .ok instr after) :
    ∃ kind receiver lowered result,
      instr = .call kind receiver method lowered result ∧
        source.Supplies symbols first (receiver :: lowered ++ operands) after := by
  obtain ⟨receiver, between, lowered, rfl, argumentsRan, targetRan⟩ :=
    callWith_ok ran
  have receiverSupplies :
      source.Supplies symbols first (receiver :: operands) between := by
    rcases targetRan with ⟨name, annotated, isTarget, _, rfl, rfl⟩ | ⟨_, targetRan⟩
    · exact supplies.var (named name annotated isTarget) _
    · exact onTarget supplies targetRan
  have both := exprs_supply onArguments receiverSupplies argumentsRan
  exact ⟨_, receiver, lowered, _, rfl, both.mono List.perm_middle.symm.subset⟩

/-- Lowering an expression adds its operand to those that are there. -/
theorem expr_supplies
    {expr : Expr}
    {operand : Operand}
    (declared : source.TemporariesDeclared symbols)
    (named : expr.names ⊆ source.names)
    (supplies : source.Supplies symbols first operands state)
    (ran : Lower.expr symbols expr state = .ok operand after) :
    source.Supplies symbols first (operand :: operands) after := by
  induction expr generalizing operands state after operand with
  | literal value =>
      cases value <;>
      · rw [Lower.expr] at ran
        obtain ⟨rfl, rfl⟩ := pure_ok_iff.mp ran
        exact supplies.literal _ _
  | var name type =>
      rw [Lower.expr] at ran
      exact nameRead_supplies declared (named List.mem_cons_self) supplies ran
  | receiver type =>
      rw [Lower.expr] at ran
      obtain ⟨rfl, rfl⟩ := pure_ok_iff.mp ran
      exact supplies.receiver
  | binary operator left right type leftHypothesis rightHypothesis =>
      rw [Expr.names, List.append_subset] at named
      rw [Lower.expr] at ran
      obtain ⟨_, _, leftRan, ran⟩ := bind_ok_iff.mp ran
      obtain ⟨_, _, rightRan, stored⟩ := bind_ok_iff.mp ran
      have both :=
        rightHypothesis named.2 (leftHypothesis named.1 supplies leftRan) rightRan
      exact .intoTemporary stored declared both.swap
  | call target method arguments type targetHypothesis argumentsHypothesis =>
      rw [Lower.expr] at ran
      obtain ⟨_, _, callRan, valueRan⟩ := bind_ok_iff.mp ran
      obtain ⟨_, _, _, _, rfl, parts⟩ :=
        call_supplies
          (targetHypothesis (List.Subset.trans Expr.names_target_subset named))
          (fun argument member =>
            argumentsHypothesis argument member
              (List.Subset.trans (Expr.names_argument_subset member) named))
          (fun _ _ isTarget => named (Expr.mem_names_of_target isTarget))
            supplies callRan
      exact .intoTemporary (callValue_ok valueRan) declared parts
  | newObject className type =>
      rw [Lower.expr] at ran
      obtain ⟨dest, _, stored, ran⟩ := bind_ok_iff.mp ran
      obtain ⟨_, _, emitted, returned⟩ := bind_ok_iff.mp ran
      obtain rfl := modify_ok_iff.mp emitted
      obtain ⟨rfl, rfl⟩ := pure_ok_iff.mp returned
      have created := MethodDef.Supplies.intoTemporary stored declared supplies
      have twice :=
        created.mono (List.cons_subset.mpr ⟨List.mem_cons_self, List.Subset.refl _⟩)
      exact twice.emit rfl
  | newArray size type sizeHypothesis =>
      rw [Expr.names] at named
      rw [Lower.expr] at ran
      obtain ⟨_, _, sizeRan, stored⟩ := bind_ok_iff.mp ran
      exact .intoTemporary stored declared (sizeHypothesis named supplies sizeRan)
  | element array index type arrayHypothesis indexHypothesis =>
      rw [Expr.names, List.append_subset] at named
      rw [Lower.expr] at ran
      obtain ⟨_, _, arrayRan, ran⟩ := bind_ok_iff.mp ran
      obtain ⟨_, _, indexRan, stored⟩ := bind_ok_iff.mp ran
      have both :=
        indexHypothesis named.2 (arrayHypothesis named.1 supplies arrayRan) indexRan
      exact .intoTemporary stored declared both.swap
  | length array type arrayHypothesis =>
      rw [Expr.names] at named
      rw [Lower.expr] at ran
      obtain ⟨_, _, arrayRan, stored⟩ := bind_ok_iff.mp ran
      exact .intoTemporary stored declared (arrayHypothesis named supplies arrayRan)

/-- The operands of a call of the body are there once it is lowered. -/
theorem callExpr_supplies
    {target : Expr}
    {method : String}
    {arguments : List Expr}
    {type : TypeName}
    {used : Bool}
    {instr : Instr}
    (declared : source.TemporariesDeclared symbols)
    (named : (Expr.call target method arguments type).names ⊆ source.names)
    (supplies : source.Supplies symbols first operands state)
    (ran :
      Lower.call symbols target method arguments type used state =
        .ok instr after) :
    ∃ kind receiver lowered result,
      instr = .call kind receiver method lowered result ∧
        source.Supplies symbols first (receiver :: lowered ++ operands) after :=
  call_supplies
    (expr_supplies declared (List.Subset.trans Expr.names_target_subset named))
    (fun _ member =>
      expr_supplies declared
        (List.Subset.trans (Expr.names_argument_subset member) named))
    (fun _ _ isTarget => named (Expr.mem_names_of_target isTarget)) supplies ran

/--
The operands of the value of an assignment are there, and the value
is not yet stored.
-/
theorem value_supplies
    {expr : Expr}
    {instr : Instr}
    (declared : source.TemporariesDeclared symbols)
    (named : expr.names ⊆ source.names)
    (supplies : source.Supplies symbols first operands state)
    (ran : Lower.value symbols expr state = .ok instr after) :
    source.Supplies symbols first (operandsOf instr ++ operands) after := by
  cases expr with
  | binary operator left right type =>
      rw [Expr.names, List.append_subset] at named
      obtain ⟨_, _, leftRan, ran⟩ := bind_ok_iff.mp ran
      obtain ⟨_, _, rightRan, returned⟩ := bind_ok_iff.mp ran
      obtain ⟨rfl, rfl⟩ := pure_ok_iff.mp returned
      have both :=
        expr_supplies declared named.2
          (expr_supplies declared named.1 supplies leftRan) rightRan
      exact both.swap
  | call target method arguments type =>
      obtain ⟨_, _, _, _, rfl, parts⟩ :=
        callExpr_supplies declared named supplies ran
      exact parts
  | newObject className annotated =>
      obtain ⟨rfl, rfl⟩ := pure_ok_iff.mp ran
      exact supplies
  | newArray size type =>
      rw [Expr.names] at named
      obtain ⟨_, _, sizeRan, returned⟩ := bind_ok_iff.mp ran
      obtain ⟨rfl, rfl⟩ := pure_ok_iff.mp returned
      exact expr_supplies declared named supplies sizeRan
  | _ =>
      obtain ⟨_, _, exprRan, returned⟩ := bind_ok_iff.mp ran
      obtain ⟨rfl, rfl⟩ := pure_ok_iff.mp returned
      exact expr_supplies declared named supplies exprRan

/-- An assignment to a variable stores its value under a name of the body. -/
theorem assignVariable_supplies
    {name : String}
    {type : TypeName}
    {expr : Expr}
    {value : Unit}
    (declared : source.TemporariesDeclared symbols)
    (named : name ∈ source.names)
    (namedValue : expr.names ⊆ source.names)
    (supplies : source.Supplies symbols first [] state)
    (ran : Lower.assignVariable symbols name type expr state = .ok value after) :
    source.Supplies symbols first [] after := by
  obtain ⟨stored, inner, valueRan, constructRan⟩ := Lower.assignVariable_ok ran
  have valueSupplies :=
    (value_supplies declared namedValue (supplies.withAssigned (some type))
      valueRan).withAssigned state.assigned?
  have storedSupplies :=
    (valueSupplies.declare named (.ofTypeName type)
      (if Lowering.isParam { inner with assigned? := state.assigned? } name =
        true then .param else .localVar)).store named (.ofTypeName type)
  by_cases new : stored.isNewObject = true
  · rw [if_pos new] at constructRan
    obtain rfl := modify_ok_iff.mp constructRan
    exact (storedSupplies.var named (.ofTypeName type)).emit rfl
  · rw [if_neg new] at constructRan
    obtain ⟨_, rfl⟩ := pure_ok_iff.mp constructRan
    exact storedSupplies

/-- A statement adds temporaries that are each assigned once. -/
theorem stmt_supplies
    {stmt : Stmt}
    {value : Unit}
    (declared : source.TemporariesDeclared symbols)
    (named : stmt.names ⊆ source.names)
    (supplies : source.Supplies symbols first [] state)
    (ran : Lower.stmt symbols stmt state = .ok value after) :
    source.Supplies symbols first [] after := by
  cases stmt with
  | assign name type expr =>
      rw [Stmt.names, List.cons_subset] at named
      obtain ⟨_, _, gotten, ran⟩ := bind_ok_iff.mp ran
      obtain ⟨rfl, rfl⟩ := get_ok_iff.mp gotten
      split at ran
      · obtain ⟨stored, _, storedRan, emitted⟩ := bind_ok_iff.mp ran
        obtain ⟨inner, exprRan, rfl⟩ := Lower.underAssignment_ok storedRan
        obtain rfl := modify_ok_iff.mp emitted
        have storedSupplies :=
          (expr_supplies declared named.2 (supplies.withAssigned (some type))
            exprRan).withAssigned state.assigned?
        exact storedSupplies.receiver.emit rfl
      · exact assignVariable_supplies declared named.1 named.2 supplies ran
  | evaluate expr =>
      have namedExpr : expr.names ⊆ source.names := named
      cases expr with
      | call target method arguments type =>
          obtain ⟨_, _, callRan, emitted⟩ := bind_ok_iff.mp ran
          obtain rfl := modify_ok_iff.mp emitted
          obtain ⟨_, _, _, _, rfl, parts⟩ :=
            callExpr_supplies declared namedExpr supplies callRan
          exact parts.emit rfl
      | _ =>
          obtain ⟨_, _, exprRan, returned⟩ := bind_ok_iff.mp ran
          obtain ⟨_, rfl⟩ := pure_ok_iff.mp returned
          exact (expr_supplies declared namedExpr supplies exprRan).mono
            (List.nil_subset _)
  | ret result =>
      cases result with
      | none =>
          obtain ⟨_, _, gotten, emitted⟩ := bind_ok_iff.mp ran
          obtain ⟨rfl, rfl⟩ := get_ok_iff.mp gotten
          obtain rfl := modify_ok_iff.mp emitted
          exact supplies.emit rfl
      | some expr =>
          obtain ⟨_, _, gotten, ran⟩ := bind_ok_iff.mp ran
          obtain ⟨rfl, rfl⟩ := get_ok_iff.mp gotten
          obtain ⟨_, _, exprRan, emitted⟩ := bind_ok_iff.mp ran
          obtain rfl := modify_ok_iff.mp emitted
          exact (expr_supplies declared named supplies exprRan).emit rfl

theorem stmts_supply
    {stmts : List Stmt}
    {value : Unit}
    (declared : source.TemporariesDeclared symbols)
    (members : ∀ stmt ∈ stmts, stmt ∈ source.body)
    (supplies : source.Supplies symbols first [] state)
    (ran : Lower.stmts symbols stmts state = .ok value after) :
    source.Supplies symbols first [] after := by
  induction stmts generalizing state with
  | nil =>
      obtain ⟨_, rfl⟩ := pure_ok_iff.mp ran
      exact supplies
  | cons head rest inductionHypothesis =>
      obtain ⟨_, _, headRan, restRan⟩ := bind_ok_iff.mp ran
      have named : head.names ⊆ source.names :=
        MethodDef.stmt_names_subset (members head List.mem_cons_self)
      exact inductionHypothesis
        (fun stmt member => members stmt (List.mem_cons_of_mem _ member))
        (stmt_supplies declared named supplies headRan) restRan

/--
A method takes its temporaries from the numbers that are counted
while it is lowered.
-/
theorem method_draws
    {lowered : Method}
    (declared : source.TemporariesDeclared symbols)
    (ran : Lower.method symbols source state = .ok lowered after) :
    ∃ temporaries,
      source.Draws symbols state.nextTemporary after.nextTemporary lowered
        temporaries := by
  obtain ⟨inner, stmtsRan, rfl, rfl⟩ := Lower.method_ok ran
  have starts :
      source.Supplies symbols state.nextTemporary []
        { state with current? := some (source.begin symbols.className) } :=
    ⟨.begin rfl, _, [], rfl,
      ⟨le_rfl, .nothing, by simp, by simp, fun _ => .inl⟩, by simp⟩
  obtain ⟨_, method, temporaries, isCurrent, draws, _⟩ :=
    stmts_supply declared (fun _ member => member) starts stmtsRan
  rw [isCurrent, Option.getD_some]
  refine ⟨temporaries, draws.order, ?_, draws.numbered, draws.added, draws.known⟩
  rcases method.finish_instrs with isFinished | isFinished
  · rw [isFinished]
    exact draws.once
  · rw [isFinished]
    exact .plain draws.once (by simp [Reads, operandsOf])
      (by simp [Instr.destination?])

end Lower

/-- Methods take their temporaries from ranges of numbers that follow each other. -/
def DrawInOrder
    (symbols : Symbols)
    (starts : Nat → Nat)
    (sources : List MethodDef)
    (methods : List Method) : Prop :=
  Monotone starts ∧
    ∀ (index : Nat) (source : MethodDef) (method : Method),
      sources[index]? = some source →
      methods[index]? = some method →
        ∃ temporaries,
          source.Draws symbols (starts index) (starts (index + 1)) method
            temporaries

/-- The starts of one more method, which comes first. -/
def startFirst (first : Nat) (starts : Nat → Nat) : Nat → Nat
  | 0 => first
  | index + 1 => starts index

namespace Lower

variable {symbols : Symbols} {state after : Lowering}

/-- Methods take temporaries from numbers that go on from method to method. -/
theorem methods_draw
    {sources : List MethodDef}
    {value : Unit}
    (declared : ∀ source ∈ sources, source.TemporariesDeclared symbols)
    (ran : Lower.methods symbols sources state = .ok value after) :
    ∃ added starts,
      after.output.methods = state.output.methods ++ added ∧
        starts 0 = state.nextTemporary ∧
          DrawInOrder symbols starts sources added := by
  induction sources generalizing state with
  | nil =>
      obtain ⟨_, rfl⟩ := pure_ok_iff.mp ran
      exact ⟨[], fun _ => state.nextTemporary, by simp, rfl, monotone_const,
        by simp⟩
  | cons source rest inductionHypothesis =>
      rw [List.forall_mem_cons] at declared
      obtain ⟨lowered, between, firstRan, ran⟩ := bind_ok_iff.mp ran
      obtain ⟨_, _, stored, restRan⟩ := bind_ok_iff.mp ran
      obtain rfl := modify_ok_iff.mp stored
      obtain ⟨temporaries, draws⟩ := method_draws declared.1 firstRan
      obtain ⟨added, starts, isOutput, isNext, ordered, drawn⟩ :=
        inductionHypothesis declared.2 restRan
      have isBetween : between.nextTemporary = starts 0 := isNext.symm
      rw [isBetween] at draws
      have sameOutput : between.output = state.output := by
        obtain ⟨inner, stmtsRan, _, rfl⟩ := Lower.method_ok firstRan
        exact (Lowering.closed_output_assigned.stmts stmtsRan).1
      refine ⟨lowered :: added, startFirst state.nextTemporary starts,
        by simp [isOutput, sameOutput], rfl, monotone_nat_of_le_succ ?_, ?_⟩
      · rintro (_ | index)
        · exact draws.order
        · exact ordered (Nat.le_succ index)
      · rintro (_ | index) other method isSource isMethod
        · cases isSource
          cases isMethod
          exact ⟨temporaries, draws⟩
        · exact drawn index other method isSource isMethod

end Lower

theorem Program.lower_draws
    {symbols : Symbols}
    {program : Program}
    {unit : ClassCode}
    (declared :
      ∀ source ∈ program.mainClass.methods, source.TemporariesDeclared symbols)
    (ran : program.lower symbols = .ok unit) :
    ∃ starts,
      DrawInOrder symbols starts program.mainClass.methods unit.methods := by
  unfold Program.lower at ran
  cases methodsRan : Lower.methods symbols program.mainClass.methods
    (.start symbols) with
  | error error state =>
      rw [methodsRan] at ran
      cases ran
  | ok value state =>
      rw [methodsRan] at ran
      cases ran
      obtain ⟨added, starts, isOutput, _, inOrder⟩ :=
        Lower.methods_draw declared methodsRan
      rw [isOutput]
      exact ⟨starts, inOrder⟩

namespace MethodDef.Draws

variable {symbols : Symbols} {source : MethodDef} {first last : Nat}
  {method : Method} {temporaries : List String}

/-- What a method generates are the temporaries that it takes. -/
theorem generates_iff
    (declared : source.TemporariesDeclared symbols)
    (draws : source.Draws symbols first last method temporaries)
    {name : String} :
    source.Generates symbols method name ↔ name ∈ temporaries := by
  constructor
  · rintro ⟨inTable, notFirst, unnamed⟩
    rcases draws.known name inTable with inBegin | isName | isDrawn
    · exact absurd inBegin notFirst
    · exact absurd isName unnamed
    · exact isDrawn
  · intro isDrawn
    obtain ⟨number, _, _, rfl, undeclared⟩ := draws.numbered name isDrawn
    have ungiven := not_gives_temporaryName declared undeclared
    obtain ⟨inTable, notFirst⟩ := draws.added _ isDrawn
    exact ⟨inTable, notFirst, fun isName => ungiven (.inr isName)⟩

end MethodDef.Draws

/-- The numbers of two methods are apart. -/
theorem DrawInOrder.apart
    {symbols : Symbols}
    {starts : Nat → Nat}
    {sources : List MethodDef}
    {methods : List Method}
    (inOrder : DrawInOrder symbols starts sources methods)
    {index other number : Nat}
    (inside : starts index ≤ number ∧ number < starts (index + 1))
    (insideOther : starts other ≤ number ∧ number < starts (other + 1)) :
    index = other := by
  rcases Nat.lt_trichotomy index other with before | same | behind
  · have isBefore : starts (index + 1) ≤ starts other := inOrder.1 before
    omega
  · exact same
  · have isBehind : starts (other + 1) ≤ starts index := inOrder.1 behind
    omega

/--
A new temporary has the least number whose name is free, and leaves the counter
behind it within 64 bits if a free number allows it. If every name of a body with
the form of a temporary is declared, the code of a method reads and writes names of
the source and temporaries that it generates. Each temporary is named unlike the
locals and parameters of the method and the fields. One instruction of the method
writes to it, and all that read it come later. No other method generates it, and
other methods use its name only for variables of their own.
-/
theorem Program.temporaries_assigned_once
    (symbols : Symbols) :
    (∀ state type free,
      state.FreeNumber symbols free →
      free + 1 < 2 ^ 64 →
      ∃ number after,
        Lower.temporary symbols type state =
            .ok (.var (temporaryName number) type) after ∧
          IsLeast { free | state.FreeNumber symbols free } number ∧
            after.nextTemporary = number + 1 ∧ number + 1 < 2 ^ 64) ∧
    ∀ (program : Program) (unit : ClassCode),
      program.lower symbols = .ok unit →
      (∀ source ∈ program.mainClass.methods, source.TemporariesDeclared symbols) →
      ∀ (index : Nat) (source : MethodDef) (lowered : Method),
        program.mainClass.methods[index]? = some source →
        unit.methods[index]? = some lowered →
        (∀ instr ∈ lowered.instrs, ∀ name,
          Reads name instr ∨ instr.destination? = some name →
            source.Gives name ∨ source.Generates symbols lowered name) ∧
        ∀ name, source.Generates symbols lowered name →
          (∃ number, name = temporaryName number) ∧
          symbols.isLocal source.name name = false ∧
          symbols.isParam source.name name = false ∧
          symbols.field? name = none ∧
          WrittenOnce name lowered.instrs ∧
          ∀ (other : Nat) (otherSource : MethodDef) (otherLowered : Method),
            other ≠ index →
            program.mainClass.methods[other]? = some otherSource →
            unit.methods[other]? = some otherLowered →
            ¬otherSource.Generates symbols otherLowered name ∧
              ∀ instr ∈ otherLowered.instrs,
                Reads name instr ∨ instr.destination? = some name →
                  symbols.isLocal otherSource.name name = true ∨
                    symbols.isParam otherSource.name name = true := by
  refine ⟨?_, ?_⟩
  · intro state type free isFree inBound
    have isLeast := Lowering.isLeast_freshNumber symbols state
    have atMost := isLeast.2 isFree
    exact ⟨state.freshNumber symbols, _, rfl, isLeast, rfl, by omega⟩
  intro program unit ran declared index source lowered isSource isLowered
  obtain ⟨starts, inOrder⟩ := Program.lower_draws declared ran
  have isDeclared := declared source (List.mem_of_getElem? isSource)
  obtain ⟨temporaries, draws⟩ := inOrder.2 index source lowered isSource isLowered
  refine ⟨fun instr member name mentioned => ?_, fun name generates => ?_⟩
  · rw [draws.generates_iff isDeclared]
    exact draws.once.known_of_mentioned member mentioned
  have isDrawn := (draws.generates_iff isDeclared).mp generates
  obtain ⟨number, above, below, rfl, undeclared⟩ := draws.numbered name isDrawn
  have ungiven := MethodDef.not_gives_temporaryName isDeclared undeclared
  simp only [Symbols.declares, Bool.or_eq_false_iff, Option.isSome_eq_false_iff,
    Option.isNone_iff_eq_none] at undeclared
  obtain ⟨⟨notLocal, notParam⟩, notField⟩ := undeclared
  refine ⟨⟨number, rfl⟩, notLocal, notParam, notField,
    draws.once.writtenOnce isDrawn ungiven, ?_⟩
  intro other otherSource otherLowered apart isOther isOtherLowered
  have otherDeclared := declared otherSource (List.mem_of_getElem? isOther)
  obtain ⟨others, otherDraws⟩ :=
    inOrder.2 other otherSource otherLowered isOther isOtherLowered
  -- The numbers that the other method draws are apart from those of this one.
  have notDrawnThere : temporaryName number ∉ others := by
    intro isDrawnThere
    obtain ⟨own, ownAbove, ownBelow, sameName, _⟩ :=
      otherDraws.numbered _ isDrawnThere
    obtain rfl := Code.temporaryName_injective sameName
    exact apart (inOrder.apart ⟨ownAbove, ownBelow⟩ ⟨above, below⟩)
  refine ⟨(otherDraws.generates_iff otherDeclared).not.mpr notDrawnThere, ?_⟩
  intro instr member mentioned
  have given :=
    (otherDraws.once.known_of_mentioned member mentioned).resolve_right
      notDrawnThere
  by_contra neither
  rw [not_or, Bool.not_eq_true, Bool.not_eq_true] at neither
  refine MethodDef.not_gives_temporaryName otherDeclared ?_ given
  simp [Symbols.declares, neither, notField]

/-- A method with a local that is named like a temporary. -/
private def naming : MethodDef where
  name := "name"
  returnType := .int
  locals := [⟨"tmp0", .int⟩]
  body := [.assign "tmp0" .int (.literal (.int 7)), .ret (some (.var "tmp0" .int))]

/-- A method that needs three temporaries. -/
private def chaining : MethodDef where
  name := "chain"
  returnType := .int
  params := [⟨"n", .int⟩]
  body :=
    [.ret (some
      (.binary .mul (.binary .add (.var "n" .int) (.literal (.int 1)) .int)
        (.binary .sub (.var "n" .int) (.literal (.int 1)) .int) .int))]

/-- A class with both methods. -/
private def chainingProgram : Program where
  mainClass := { name := "A", methods := [naming, chaining] }

/-- The code of the first method. -/
private def namingCode : Method where
  name := "name"
  isStatic := false
  returnType := .int
  instrs :=
    [.store (.var "tmp0" .int) (.single (.int 7)),
      .ret .int (some (.var "tmp0" .int))]
  flow := ⟨[[1], []]⟩
  table :=
    ((∅ : Code.VariableTable).insert "this" ⟨.object "A", .receiver, 0⟩).insert
      "tmp0" ⟨.int, .localVar, 1⟩

/-- The code of the second method. -/
private def chainingCode : Method where
  name := "chain"
  isStatic := false
  params := [.var "n" .int]
  returnType := .int
  instrs :=
    [.store (.var "tmp0" .int) (.binary .add (.var "n" .int) (.int 1) .int),
      .store (.var "tmp1" .int) (.binary .sub (.var "n" .int) (.int 1) .int),
      .store (.var "tmp2" .int)
        (.binary .mul (.var "tmp0" .int) (.var "tmp1" .int) .int),
      .ret .int (some (.var "tmp2" .int))]
  flow := ⟨[[1], [2], [3], []]⟩
  table :=
    (((((∅ : Code.VariableTable).insert "this" ⟨.object "A", .receiver, 0⟩).insert
      "n" ⟨.int, .param, 1⟩).insert "tmp0" ⟨.int, .localVar, 2⟩).insert
      "tmp1" ⟨.int, .localVar, 3⟩).insert "tmp2" ⟨.int, .localVar, 4⟩

/--
The second method has a temporary with the name that the first one
declares as its own.
-/
theorem temporaries_chaining :
    chainingProgram.lower (.ofProgram chainingProgram) =
        .ok { name := "A", methods := [namingCode, chainingCode] } ∧
      (∀ source ∈ chainingProgram.mainClass.methods,
        source.TemporariesDeclared (.ofProgram chainingProgram)) ∧
        chaining.Generates (.ofProgram chainingProgram) chainingCode "tmp0" ∧
          WrittenOnce "tmp0" chainingCode.instrs ∧
            ¬naming.Generates (.ofProgram chainingProgram) namingCode "tmp0" ∧
              ((Symbols.ofProgram chainingProgram).isLocal "name" "tmp0" = true ∨
                (Symbols.ofProgram chainingProgram).isParam "name" "tmp0" =
                  true) := by
  have isLowered :
      chainingProgram.lower (.ofProgram chainingProgram) =
        .ok { name := "A", methods := [namingCode, chainingCode] } := by
    rfl
  have declared :
      ∀ source ∈ chainingProgram.mainClass.methods,
        source.TemporariesDeclared (.ofProgram chainingProgram) := by
    decide
  have generates :
      chaining.Generates (.ofProgram chainingProgram) chainingCode "tmp0" :=
    ⟨by decide, by decide, by decide⟩
  obtain ⟨_, assigned⟩ :=
    (Program.temporaries_assigned_once (.ofProgram chainingProgram)).2 _ _ isLowered
      declared 1 chaining chainingCode rfl rfl
  obtain ⟨_, _, _, _, once, elsewhere⟩ := assigned "tmp0" generates
  obtain ⟨notGenerated, ofItsOwn⟩ :=
    elsewhere 0 naming namingCode (by decide) rfl rfl
  exact ⟨isLowered, declared, generates, once, notGenerated,
    ofItsOwn _ List.mem_cons_self (.inr rfl)⟩

/--
The class writes twice to the temporary, once as to the local of the first method.
-/
theorem temporary_written_twice_in_class :
    chainingProgram.lower (.ofProgram chainingProgram) =
        .ok { name := "A", methods := [namingCode, chainingCode] } ∧
      (∀ source ∈ chainingProgram.mainClass.methods,
        source.TemporariesDeclared (.ofProgram chainingProgram)) ∧
        chaining.Generates (.ofProgram chainingProgram) chainingCode "tmp0" ∧
          ([namingCode, chainingCode].flatMap Method.instrs).countP
              (·.destination? = some "tmp0") = 2 :=
  ⟨rfl, by decide, ⟨by decide, by decide, by decide⟩, by decide⟩

end MiniJava
