import Mathlib.Data.List.Forall2
import MiniJava.Proofs.LoweredExpressions

namespace MiniJava.Scene

/-!
# Lowered methods

Statement by statement, the code of a method and its body come to stores that
agree on all variables of the body, so the code does what the body does.
-/

open Code (Operand ValueType CallKind Instr Store)

variable {Event : Type} {scene : Scene Event} {declared : List String}
  {assigned? : Option TypeName} {state between after : Lowering}

/--
A new object that is assigned to a variable is constructed as one of
the variable's type.
-/
def ConstructsDeclared (scene : Scene Event) : Prop :=
  ∀ name type className annotated,
    Stmt.assign name type (.newObject className annotated) ∈ scene.method.body →
      scene.isField name = false →
      scene.constructed type className = .ofTypeName type

/--
A part of lowering adds instructions that change the variables of the body as a
statement does. The given names are declared after it.
-/
structure Carries
    (scene : Scene Event)
    (declared : List String)
    (state after : Lowering)
    (meaning : Store String → Run Event (Store String)) : Prop where
  ready : scene.Ready declared none after
  output : after.output = state.output
  yields :
    ∃ added,
      after.instrs = state.instrs ++ added ∧
        ∀ store source, scene.Unchanged 0 source store →
          Run.Related (fun after result => scene.Unchanged 0 result after)
            (scene.names.execAll store added) (meaning source)

/--
What is computed under an assignment is computed with the type of the assignment.
-/
theorem Lowers.underAssignment
    {α : Type}
    {type : TypeName}
    {read : Store String → α}
    {meaning : Store String → Run Event α}
    {before : List String}
    (ready : scene.Ready before assigned? state)
    (inner :
      scene.Lowers declared (some type) { state with assigned? := some type }
        after read meaning) :
    scene.Lowers declared assigned? state
      { after with assigned? := state.assigned? } read meaning where
  ready := ⟨ready.assigned, inner.ready.current⟩
  number := inner.number
  output := inner.output
  settled := inner.settled
  yields := inner.yields

/--
The value of an assignment is computed by one instruction after
those for its operands.
-/
theorem value_lowers
    {type : TypeName}
    {source : Expr}
    {instr : Instr}
    (named : scene.method.TemporariesDeclared scene.symbols)
    (inside : source.names ⊆ scene.method.names)
    (ready : scene.Ready declared (some type) state)
    (ran : Lower.value scene.symbols source state = .ok instr after) :
    ∃ meaning,
      scene.Lowers (scene.after declared source) (some type) state after
          (scene.names.compute · instr) meaning ∧
        ∀ store, scene.assigned store declared type source =
          meaning store >>= id := by
  cases source with
  | binary operator left right annotated =>
      rw [Expr.names, List.append_subset] at inside
      rw [Lower.value] at ran
      obtain ⟨leftOperand, _, leftRan, ran⟩ := bind_ok_iff.mp ran
      obtain ⟨rightOperand, _, rightRan, returned⟩ := bind_ok_iff.mp ran
      obtain ⟨rfl, rfl⟩ := pure_ok_iff.mp returned
      have leftLowers := expr_lowers named inside.1 ready leftRan
      have rightLowers := expr_lowers named inside.2 leftLowers.ready rightRan
      rw [scene.after_binary]
      refine ⟨_,
        (leftLowers.pair rightLowers).map fun pair =>
          operator.operate pair.1 pair.2,
        fun store => ?_⟩
      simp [assigned, result_binary]
  | call target method arguments annotated =>
      rw [Lower.value] at ran
      obtain ⟨receiver, operands, callee, rfl, calls⟩ :=
        call_lowers named (expr_lowers named) (fun _ _ => expr_lowers named) inside
          ready ran
      rw [scene.after_call]
      refine ⟨_, (calls.lowers.map fun operands =>
        scene.callValue (scene.callKind declared target method) operands.1 method
          operands.2
          (annotated.callResult (some type) true)).congr (fun store => ?_)
          fun _ => rfl,
        fun store => ?_⟩
      · rw [Code.Setting.compute, calls.isCallee, pure_bind]
        rfl
      · simp [assigned, result_call]
  | newObject className annotated =>
      rw [Lower.value] at ran
      obtain ⟨rfl, rfl⟩ := pure_ok_iff.mp ran
      rw [Scene.after, MethodDef.afterExpr]
      exact ⟨_, Lowers.nothing ready fun _ _ _ => rfl, fun store => rfl⟩
  | newArray size annotated =>
      rw [Expr.names] at inside
      rw [Lower.value] at ran
      obtain ⟨sizeOperand, _, sizeRan, returned⟩ := bind_ok_iff.mp ran
      obtain ⟨rfl, rfl⟩ := pure_ok_iff.mp returned
      rw [scene.after_newArray]
      refine ⟨_, (expr_lowers named inside ready sizeRan).map
        (scene.newArray (.ofTypeName annotated)), fun store => ?_⟩
      simp [assigned, result_newArray]
  | _ =>
      obtain ⟨operand, _, operandRan, returned⟩ := bind_ok_iff.mp ran
      obtain ⟨rfl, rfl⟩ := pure_ok_iff.mp returned
      refine ⟨_,
        (expr_lowers named inside ready operandRan).map fun held =>
          Run.require held.value?,
        fun store => ?_⟩
      simp [assigned]

/-- The value of an assignment is a new object exactly if its expression is one. -/
theorem value_isNewObject
    {symbols : Symbols}
    {source : Expr}
    {instr : Instr}
    (ran : Lower.value symbols source state = .ok instr after) :
    instr.isNewObject = true ↔ ∃ className annotated,
      source = .newObject className annotated := by
  cases source with
  | binary operator left right annotated =>
      obtain ⟨_, _, _, ran⟩ := bind_ok_iff.mp ran
      obtain ⟨_, _, _, returned⟩ := bind_ok_iff.mp ran
      obtain ⟨rfl, rfl⟩ := pure_ok_iff.mp returned
      simp [Instr.isNewObject]
  | call target method arguments annotated =>
      obtain ⟨_, _, _, rfl, _⟩ := Lower.callWith_ok ran
      simp [Instr.isNewObject]
  | newObject className annotated =>
      obtain ⟨rfl, rfl⟩ := pure_ok_iff.mp ran
      simp [Instr.isNewObject]
  | _ =>
      obtain ⟨_, _, _, returned⟩ := bind_ok_iff.mp ran
      obtain ⟨rfl, rfl⟩ := pure_ok_iff.mp returned
      simp [Instr.isNewObject]

/-- Stores that agree still agree after the same write to a variable of the body. -/
theorem Unchanged.write_both
    {source store : Store String}
    (agree : scene.Unchanged 0 source store)
    (name : String)
    (content : Option Value) :
    scene.Unchanged 0 (Function.update source name content)
      (Function.update store name content) := by
  intro other notFresh
  by_cases same : other = name
  · rw [same, Function.update_self, Function.update_self]
  · rw [Function.update_of_ne same, Function.update_of_ne same,
      agree other notFresh]

/-- A computed value is written to a variable as in the body. -/
theorem store_related
    {instr : Instr}
    {meaning : Store String → Run Event (Run Event Value)}
    {type : TypeName}
    {name : String}
    {added : List Instr}
    {number : Nat}
    (yields : scene.Yields number added (scene.names.compute · instr) meaning)
    {store source : Store String}
    (agree : scene.Unchanged 0 source store) :
    Run.Related
      (fun after (result : Value × Store String) =>
        scene.Unchanged 0 result.2 after ∧ result.1.fits (.ofTypeName type) = true ∧
          after name = some result.1)
      (scene.names.execAll store
        (added ++ [.store (.var name (.ofTypeName type)) instr]))
      (do
        let value ← meaning source >>= id
        let source ← write source name type value
        return (value, source)) := by
  rw [Code.Setting.execAll_append, bind_assoc]
  refine (yields store source agree).bind ?_
  rintro middle compute ⟨rfl, unchanged⟩
  have agreeMiddle : scene.Unchanged 0 source middle :=
    agree.trans (unchanged.mono (Nat.zero_le _))
  simp only [Code.Setting.execAll, Code.Setting.exec, Instr.store, bind_pure]
  refine (Run.Related.self _).bind ?_
  rintro value _ rfl
  by_cases fits : value.fits (.ofTypeName type) = true
  · simp only [Code.Setting.write, names, Code.Setting.overNames, Run.require_some,
      pure_bind, Scene.write, fits, if_true]
    exact .pure ⟨agreeMiddle.write_both name _, fits, Function.update_self ..⟩
  · simp only [Code.Setting.write, names, Code.Setting.overNames, Run.require_some,
      pure_bind, Scene.write, fits, Bool.false_eq_true, if_false]
    exact .throw _ _

/-- An assignment to a variable changes it, and constructs what is new. -/
theorem assignVariable_carries
    {name : String}
    {type : TypeName}
    {source : Expr}
    {value : Unit}
    (named : scene.method.TemporariesDeclared scene.symbols)
    (inside : source.names ⊆ scene.method.names)
    (constructs :
      ∀ className annotated, source = .newObject className annotated →
        scene.constructed type className = .ofTypeName type)
    (notField : scene.isField name = false)
    (ready : scene.Ready declared none state)
    (ran :
      Lower.assignVariable scene.symbols name type source state = .ok value after) :
    scene.Carries (scene.afterStmt declared (.assign name type source)) state after
      (scene.exec · declared (.assign name type source)) := by
  have isAfter :
      scene.afterStmt declared (.assign name type source) =
        (scene.after declared source).insert name := by
    rw [isField] at notField
    simp [Scene.afterStmt, MethodDef.afterStmt, notField, Scene.after]
  rw [isAfter]
  obtain ⟨stored, inner, valueRan, constructRan⟩ := Lower.assignVariable_ok ran
  have isNew := value_isNewObject valueRan
  have readyInner :
      scene.Ready declared (some type) { state with assigned? := some type } :=
    ⟨rfl, ready.current⟩
  obtain ⟨meaning, innerLowers, isAssigned⟩ :=
    value_lowers named inside readyInner valueRan
  -- In the body too, the value is written first and constructed then.
  have isExec (before : Store String) :
      scene.exec before declared (.assign name type source) =
        (do
          let written ← (do
            let value ← meaning before >>= id
            let after ← write before name type value
            return (value, after))
          scene.constructAssigned type written.1 source
          return written.2) := by
    simp [exec, notField, isAssigned]
  have lowers :=
    (innerLowers.underAssignment ready).declare name (.ofTypeName type)
      (if Lowering.isParam { inner with assigned? := state.assigned? } name =
        true then .param else .localVar)
  have readyStored :=
    lowers.ready.emit (.store (.var name (.ofTypeName type)) stored)
  obtain ⟨added, isAdded, yields⟩ := lowers.yields
  by_cases new : stored.isNewObject = true
  · obtain ⟨className, annotated, rfl⟩ := isNew.mp new
    rw [if_pos new] at constructRan
    obtain rfl := modify_ok_iff.mp constructRan
    refine ⟨readyStored.emit _, lowers.output,
      (added ++ [.store (.var name (.ofTypeName type)) stored]) ++
        [.construct (.var name (.ofTypeName type))], ?_, ?_⟩
    · rw [instrs_emit readyStored, instrs_emit lowers.ready, isAdded]
      simp
    · intro store before agree
      rw [isExec, Code.Setting.execAll_append]
      refine (store_related yields agree).bind ?_
      rintro written ⟨value, result⟩ ⟨agreeWritten, fits, isWritten⟩
      have isHeld :
          scene.names.held written (.var name (.ofTypeName type)) =
            ⟨.ofTypeName type, some value⟩ := by
        simp [Code.Setting.held, names, Code.Setting.overNames, Held.ofContent,
          isWritten, fits]
      simp only [Code.Setting.execAll, Code.Setting.exec, Instr.construct,
        Code.Setting.callee, isHeld, constructAssigned, Environment.construct,
        constructs className annotated rfl,
        reduceCtorEq, if_false, pure_bind, bind_pure, bind_assoc, List.map_nil]
      exact (Run.Related.self _).bind fun _ _ _ => .pure agreeWritten
  · rw [if_neg new] at constructRan
    obtain ⟨_, rfl⟩ := pure_ok_iff.mp constructRan
    refine ⟨readyStored, lowers.output,
      added ++ [.store (.var name (.ofTypeName type)) stored], ?_, ?_⟩
    · rw [instrs_emit lowers.ready, isAdded]
      simp
    · intro store before agree
      have nothingNew (value : Value) :
          scene.constructAssigned type value source = pure () := by
        unfold constructAssigned
        split
        · exact absurd (isNew.mpr ⟨_, _, rfl⟩) new
        · rfl
      rw [isExec, ← bind_pure (scene.names.execAll _ _)]
      refine (store_related yields agree).bind ?_
      rintro written ⟨value, result⟩ ⟨agreeWritten, _, _⟩
      rw [nothingNew, pure_bind]
      exact .pure agreeWritten

/-- What is computed for its effects only leaves the variables of the body. -/
theorem Lowers.carries
    {α : Type}
    {read : Store String → α}
    {meaning : Store String → Run Event α}
    {whole : Store String → Run Event (Store String)}
    (lowers : scene.Lowers declared none state after read meaning)
    (isWhole :
      ∀ source,
        whole source =
          (do
            let _ ← meaning source
            return source)) :
    scene.Carries declared state after whole := by
  obtain ⟨added, isAdded, yields⟩ := lowers.yields
  refine ⟨lowers.ready, lowers.output, added, isAdded, ?_⟩
  intro store source agree
  rw [isWhole, ← bind_pure (scene.names.execAll store added)]
  refine (yields store source agree).bind ?_
  rintro last result ⟨_, unchanged⟩
  exact .pure (agree.trans (unchanged.mono (Nat.zero_le _)))

/-- An assignment to a field writes what its expression holds. -/
theorem assignField_carries
    {name : String}
    {type : TypeName}
    {source : Expr}
    {value : Unit}
    (named : scene.method.TemporariesDeclared scene.symbols)
    (inside : source.names ⊆ scene.method.names)
    (field : scene.isField name = true)
    (ready : scene.Ready declared none state)
    (ran :
      Lower.assignField scene.symbols name type source state = .ok value after) :
    scene.Carries (scene.afterStmt declared (.assign name type source)) state after
      (scene.exec · declared (.assign name type source)) := by
  have isAfter :
      scene.afterStmt declared (.assign name type source) =
        scene.after declared source := by
    rw [isField] at field
    simp [Scene.afterStmt, MethodDef.afterStmt, field, Scene.after]
  rw [isAfter]
  obtain ⟨stored, _, storedRan, emitted⟩ := bind_ok_iff.mp ran
  obtain ⟨inner, exprRan, rfl⟩ := Lower.underAssignment_ok storedRan
  have readyInner :
      scene.Ready declared (some type) { state with assigned? := some type } :=
    ⟨rfl, ready.current⟩
  have lowers := (expr_lowers named inside readyInner exprRan).underAssignment ready
  have lowersBoth := lowers.pair (Lowers.nothing lowers.ready settled_receiver)
  refine (lowersBoth.effect
    (fun pair =>
      scene.putField pair.2 ⟨name, scene.symbols.fieldType name type⟩ pair.1)
    (fun _ => rfl) emitted).carries fun before => ?_
  simp [exec, field, held_receiver]

/-- Every statement is lowered to instructions that do what it does. -/
theorem stmt_carries
    {stmt : Stmt}
    {value : Unit}
    (named : scene.method.TemporariesDeclared scene.symbols)
    (constructs : scene.ConstructsDeclared)
    (member : stmt ∈ scene.method.body)
    (ready : scene.Ready declared none state)
    (ran : Lower.stmt scene.symbols stmt state = .ok value after) :
    scene.Carries (scene.afterStmt declared stmt) state after
      (scene.exec · declared stmt) := by
  have inside : stmt.names ⊆ scene.method.names :=
    MethodDef.stmt_names_subset member
  cases stmt with
  | assign name type source =>
      rw [Stmt.names, List.cons_subset] at inside
      obtain ⟨_, _, gotten, ran⟩ := bind_ok_iff.mp ran
      obtain ⟨rfl, rfl⟩ := get_ok_iff.mp gotten
      rw [ready.isField] at ran
      cases field : scene.isField name with
      | true =>
          rw [if_pos field] at ran
          exact assignField_carries named inside.2 field ready ran
      | false =>
          rw [if_neg (by simp [field])] at ran
          refine assignVariable_carries named inside.2 ?_ field ready ran
          rintro className annotated rfl
          exact constructs name type className annotated member field
  | evaluate expr =>
      rw [Stmt.names] at inside
      cases expr with
      | call target method arguments type =>
          obtain ⟨instr, _, callRan, emitted⟩ := bind_ok_iff.mp ran
          obtain ⟨receiver, operands, callee, rfl, calls⟩ :=
            call_lowers named (expr_lowers named) (fun _ _ => expr_lowers named)
              inside ready callRan
          rw [scene.afterStmt_evaluate, scene.after_call]
          refine (calls.lowers.effect
            (fun operands => do
              let _ ← scene.invoke (scene.callKind declared target method)
                operands.1 method operands.2 (type.callResult none false))
            (fun store => ?_) emitted).carries fun before => ?_
          · simp only [Code.Setting.exec, calls.isCallee, pure_bind, bind_assoc]
            rfl
          · simp [exec]
      | _ =>
          obtain ⟨_, _, exprRan, returned⟩ := bind_ok_iff.mp ran
          obtain ⟨_, rfl⟩ := pure_ok_iff.mp returned
          exact (expr_lowers named inside ready exprRan).carries fun _ => rfl
  | ret result =>
      cases result with
      | none =>
          obtain ⟨_, _, gotten, emitted⟩ := bind_ok_iff.mp ran
          obtain ⟨rfl, rfl⟩ := get_ok_iff.mp gotten
          have readsNothing : scene.Settled 0 fun _ => () := fun _ _ _ => rfl
          exact ((Lowers.nothing ready readsNothing).effect
            (fun _ => throw (.returned none)) (fun _ => rfl) emitted).carries
            fun _ => rfl
      | some expr =>
          rw [Stmt.names] at inside
          obtain ⟨_, _, gotten, ran⟩ := bind_ok_iff.mp ran
          obtain ⟨rfl, rfl⟩ := get_ok_iff.mp gotten
          obtain ⟨lowered, _, exprRan, emitted⟩ := bind_ok_iff.mp ran
          rw [ready.returnType] at emitted
          refine ((expr_lowers named inside ready exprRan).effect
            (fun held => do
              let value ← Run.require held.value?
              if value.fits (.ofTypeName scene.method.returnType) then
                throw (.returned (some value))
              else
                throw .illTyped)
            (fun store => ?_) emitted).carries fun before => ?_
          · simp only [Code.Setting.exec, bind_assoc]
            congr 1
            funext value
            split <;> rfl
          · simp only [exec, bind_assoc]
            congr 1
            funext held
            congr 1
            funext value
            split <;> rfl

/-- Statements are lowered to instructions that do in order what they do. -/
theorem stmts_carry
    {stmts : List Stmt}
    {value : Unit}
    (named : scene.method.TemporariesDeclared scene.symbols)
    (constructs : scene.ConstructsDeclared)
    (members : ∀ stmt ∈ stmts, stmt ∈ scene.method.body)
    (ready : scene.Ready declared none state)
    (ran : Lower.stmts scene.symbols stmts state = .ok value after) :
    ∃ later, scene.Carries later state after (scene.execAll · declared stmts) := by
  induction stmts generalizing declared state with
  | nil =>
      obtain ⟨_, rfl⟩ := pure_ok_iff.mp ran
      exact ⟨declared, ready, rfl, [], by simp, fun _ _ agree => .pure agree⟩
  | cons first rest inductionHypothesis =>
      obtain ⟨_, between, firstRan, restRan⟩ := bind_ok_iff.mp ran
      have firstCarries :=
        stmt_carries named constructs (members first List.mem_cons_self) ready
          firstRan
      obtain ⟨later, restCarries⟩ :=
        inductionHypothesis
          (fun stmt member => members stmt (List.mem_cons_of_mem _ member))
          firstCarries.ready restRan
      obtain ⟨addedFirst, isFirst, yieldsFirst⟩ := firstCarries.yields
      obtain ⟨addedRest, isRest, yieldsRest⟩ := restCarries.yields
      refine ⟨later, restCarries.ready,
        restCarries.output.trans firstCarries.output, addedFirst ++ addedRest, by
          rw [isRest, isFirst, List.append_assoc], ?_⟩
      intro store source agree
      rw [Code.Setting.execAll_append]
      exact (yieldsFirst store source agree).bind fun _ _ agreeAfter =>
        yieldsRest _ _ agreeAfter

end MiniJava.Scene

namespace MiniJava.Code

variable {Event Place : Type} [DecidableEq Place]

namespace Setting

theorem exec_of_isReturn
    (setting : Setting Event Place)
    (store : Store Place)
    {instr : Instr}
    (isReturn : instr.isReturn = true)
    (events : List Event) :
    ∃ outcome later, setting.exec store instr events = .error outcome later := by
  cases instr with
  | ret type value =>
      cases value with
      | none =>
          exact ⟨_, _, rfl⟩
      | some operand =>
          rw [exec]
          cases (setting.held store operand).value? with
          | none =>
              exact ⟨_, _, rfl⟩
          | some value =>
              rw [Run.require_some, pure_bind]
              split
              · exact ⟨_, _, rfl⟩
              · exact ⟨_, _, rfl⟩
  | _ =>
      cases isReturn

/-- Instructions with a return at their end end every run. -/
theorem execAll_of_getLast?_isReturn
    (setting : Setting Event Place)
    (store : Store Place)
    {instrs : List Instr}
    (endsInReturn : instrs.getLast?.any Instr.isReturn = true)
    (events : List Event) :
    ∃ outcome later, setting.execAll store instrs events =
      .error outcome later := by
  obtain ⟨last, isLast, isReturn⟩ := (Option.any_eq_true _ _).mp endsInReturn
  obtain ⟨before, rfl⟩ := List.getLast?_eq_some_iff.mp isLast
  rw [execAll_append]
  cases ran : setting.execAll store before events with
  | error outcome later =>
      exact ⟨outcome, later, bind_of_error ran⟩
  | ok middle later =>
      obtain ⟨outcome, last, ended⟩ :=
        setting.exec_of_isReturn middle isReturn later
      refine ⟨outcome, last, ?_⟩
      rw [bind_of_ok ran]
      exact bind_of_error ended

/--
The return at the end of a finished method without result is all
that is added to it.
-/
theorem behaviour_finish
    (setting : Setting Event Place)
    (store : Store Place)
    (method : Method) :
    setting.behaviour store method.finish.instrs =
      (setting.execAll store method.instrs).behaviour
        (if method.returnType.isVoid then .returned none else .endOfBody) := by
  unfold behaviour Run.behaviour Method.finish Method.withStraightFlow
  cases void : method.returnType.isVoid with
  | false =>
      simp
  | true =>
      cases endsInReturn : method.instrs.getLast?.any Instr.isReturn with
      | true =>
          -- A body that ends in a return gets no other one, and never comes to its
          -- end.
          obtain ⟨outcome, later, ended⟩ :=
            setting.execAll_of_getLast?_isReturn store endsInReturn []
          simp [ended]
      | false =>
          simp only [Bool.not_false, Bool.and_self, if_true, execAll_append]
          cases ran : setting.execAll store method.instrs [] with
          | ok last events =>
              rw [bind_of_ok ran]
              rfl
          | error outcome events =>
              rw [bind_of_error ran]

end Setting

end MiniJava.Code

namespace MiniJava

open Code (ClassCode Store)

/-- Lowering a body leaves the class and the type of the assignment around it. -/
theorem Lowering.closed_output_assigned :
    Lowering.Closed fun state after =>
      after.output = state.output ∧ after.assigned? = state.assigned? where
  refl _ := ⟨rfl, rfl⟩
  trans first second := ⟨second.1.trans first.1, second.2.trans first.2⟩
  declare _ _ _ := ⟨rfl, rfl⟩
  declareParam _ _ _ _ := ⟨rfl, rfl⟩
  emit _ _ := ⟨rfl, rfl⟩
  count _ _ _ := ⟨rfl, rfl⟩
  assigned _ inner := ⟨inner.1, rfl⟩

/-- A lowered method is the finished method in progress after its body. -/
theorem Lower.method_ok
    {symbols : Symbols}
    {source : MethodDef}
    {state after : Lowering}
    {lowered : Code.Method}
    (ran : Lower.method symbols source state = .ok lowered after) :
    ∃ inner,
      Lower.stmts symbols source.body
          { state with current? := some (source.begin symbols.className) } =
            .ok () inner ∧
        lowered = (inner.current?.getD (source.begin symbols.className)).finish ∧
          after = { inner with current? := none } := by
  unfold Lower.method at ran
  cases bodyRan : Lower.body symbols source state with
  | error error inner =>
      rw [bodyRan] at ran
      cases ran
  | ok value inner =>
      rw [bodyRan] at ran
      cases ran
      obtain ⟨_, _, begun, stmtsRan⟩ := bind_ok_iff.mp bodyRan
      obtain rfl := modify_ok_iff.mp begun
      exact ⟨inner, stmtsRan, rfl, rfl⟩

/-- Methods are lowered one by one and added to the class in order. -/
theorem Lower.methods_forall₂
    {symbols : Symbols}
    {relation : MethodDef → Code.Method → Prop}
    {methods : List MethodDef}
    {state after : Lowering}
    {value : Unit}
    (each :
      ∀ source ∈ methods, ∀ state after lowered,
        state.assigned? = none →
        Lower.method symbols source state = .ok lowered after →
        relation source lowered)
    (ran : Lower.methods symbols methods state = .ok value after)
    (unassigned : state.assigned? = none) :
    ∃ added,
      after.output =
        { state.output with methods := state.output.methods ++ added } ∧
        List.Forall₂ relation methods added := by
  induction methods generalizing state with
  | nil =>
      obtain ⟨_, rfl⟩ := pure_ok_iff.mp ran
      exact ⟨[], by simp, .nil⟩
  | cons first rest inductionHypothesis =>
      obtain ⟨lowered, _, firstRan, ran⟩ := bind_ok_iff.mp ran
      obtain ⟨_, _, added, restRan⟩ := bind_ok_iff.mp ran
      obtain rfl := modify_ok_iff.mp added
      have related := each first List.mem_cons_self _ _ _ unassigned firstRan
      obtain ⟨inner, stmtsRan, _, rfl⟩ := Lower.method_ok firstRan
      obtain ⟨sameOutput, sameAssigned⟩ :=
        Lowering.closed_output_assigned.stmts stmtsRan
      obtain ⟨later, isOutput, relatedRest⟩ :=
        inductionHypothesis
          (fun source member => each source (List.mem_cons_of_mem _ member))
          restRan (sameAssigned.trans unassigned)
      refine ⟨lowered :: later, ?_, .cons related relatedRest⟩
      rw [isOutput]
      simp [sameOutput]

/--
The methods of a lowered program are those of the program, lowered one by one.
-/
theorem Program.lower_forall₂
    {symbols : Symbols}
    {program : Program}
    {unit : ClassCode}
    {relation : MethodDef → Code.Method → Prop}
    (each :
      ∀ source ∈ program.mainClass.methods, ∀ state after lowered,
        state.assigned? = none →
        Lower.method symbols source state = .ok lowered after →
        relation source lowered)
    (ran : program.lower symbols = .ok unit) :
    List.Forall₂ relation program.mainClass.methods unit.methods ∧
      unit = { (Lowering.start symbols).output with methods := unit.methods } := by
  unfold Program.lower at ran
  cases methodsRan : Lower.methods symbols program.mainClass.methods
    (.start symbols) with
  | error error state =>
      rw [methodsRan] at ran
      cases ran
  | ok value state =>
      rw [methodsRan] at ran
      cases ran
      obtain ⟨added, isOutput, related⟩ := Lower.methods_forall₂ each methodsRan rfl
      rw [isOutput]
      exact ⟨related, rfl⟩

/-- The code of a method over names behaves like its body. -/
theorem Scene.method_behaves
    {Event : Type}
    (scene : Scene Event)
    {state after : Lowering}
    {lowered : Code.Method}
    (named : scene.method.TemporariesDeclared scene.symbols)
    (constructs : scene.ConstructsDeclared)
    (unassigned : state.assigned? = none)
    (ran : Lower.method scene.symbols scene.method state = .ok lowered after)
    (store : Store String) :
    scene.names.behaviour store lowered.instrs = scene.behaviour store := by
  obtain ⟨inner, stmtsRan, rfl, rfl⟩ := Lower.method_ok ran
  have ready :
      scene.Ready (scene.method.firstNames scene.symbols) none
        { state
          with current? := some (scene.method.begin scene.symbols.className) } :=
    ⟨unassigned, _, rfl, .begin⟩
  obtain ⟨_, carries⟩ := stmts_carry named constructs (fun _ member => member) ready
    stmtsRan
  obtain ⟨added, isAdded, yields⟩ := carries.yields
  obtain ⟨_, method, isCurrent, inProgress⟩ := carries.ready
  have isInstrs : method.instrs = added := by
    simpa [Lowering.instrs, isCurrent, MethodDef.begin] using isAdded
  have isReturnType : method.returnType = .ofTypeName scene.method.returnType := by
    rw [inProgress.begun]
    rfl
  rw [isCurrent, Option.getD_some, Code.Setting.behaviour_finish, isInstrs,
    isReturnType]
  exact (yields store store (.refl 0 store)).behaviour _

/-- Whether a statement assigns new objects to locals of their own type only. -/
def Stmt.assignsOwnType (symbols : Symbols) (method : String) : Stmt → Bool
  | .assign name type (.newObject className _) =>
      symbols.isField method name || type = .ofClass className
  | _ => true

/--
Lowering preserves meaning: the code of every method, run over names, has the
events and the outcome of the method's body, for all contents of the names. In
the body, a call finds its method by the names that are declared where it is
made, so a name may stand for a class first and for a variable later.
-/
theorem lowering_preserves_behaviour
    {symbols : Symbols}
    {program : Program}
    {unit : ClassCode}
    (named :
      ∀ source ∈ program.mainClass.methods, source.TemporariesDeclared symbols)
    (ownType :
      ∀ source ∈ program.mainClass.methods, ∀ stmt ∈ source.body,
        stmt.assignsOwnType symbols source.name = true)
    (lowered : program.lower symbols = .ok unit) :
    List.Forall₂
      (fun source method =>
        ∀ (Event : Type) (environment : Environment Event) (store : Store String),
          (Code.Setting.overNames environment).behaviour store method.instrs =
            Scene.behaviour
              { environment with
                symbols
                method := source
                constructed := fun _ className => .ofTypeName (.ofClass className) }
              store)
      program.mainClass.methods unit.methods := by
  refine (Program.lower_forall₂ ?_ lowered).1
  intro source member state after method unassigned ran Event environment store
  refine Scene.method_behaves
    { environment with
      symbols
      method := source
      constructed := fun _ className => .ofTypeName (.ofClass className) }
    (named source member) ?_ unassigned ran store
  intro name type className annotated assigned notField
  have isOwn := ownType source member _ assigned
  have notField : symbols.isField source.name name = false := notField
  simp only [Stmt.assignsOwnType, notField, Bool.false_or, decide_eq_true_eq]
    at isOwn
  rw [isOwn]

/--
A method that makes an object, calculates with a field and with a local that is
named like a temporary, and calls a static method for an argument of a call. At
its end it assigns to a name that an import has too and calls a method on it.
-/
private def mixing : MethodDef where
  name := "mix"
  returnType := .int
  params := [⟨"n", .int⟩]
  locals := [⟨"b", .ofClass "B"⟩, ⟨"tmp0", .int⟩]
  body :=
    [.assign "b" (.ofClass "B") (.newObject "B" (.ofClass "B")),
      .assign "tmp0" .int
        (.binary .add (.var "n" .int)
          (.binary .mul (.var "f" .int) (.literal (.int 2)) .int) .int),
      .evaluate
        (.call (.receiver (.ofClass "A")) "put"
          [.var "tmp0" .int, .call (.var "io" .imported) "read" [] .imported]
            .void),
      .assign "f" .int (.binary .sub (.var "tmp0" .int) (.literal (.int 1)) .int),
      .assign "log" (.ofClass "B") (.newObject "B" (.ofClass "B")),
      .evaluate (.call (.var "log" (.ofClass "B")) "flush" [] .void),
      .ret (some (.var "tmp0" .int))]

/-- A program of one class with one method. -/
private def mixingProgram : Program where
  imports := ["util.io", "util.log"]
  mainClass := { name := "A", fields := [⟨"f", .int⟩], methods := [mixing] }

/--
A program with fields, objects, calls and names of several uses is
lowered as it means.
-/
theorem lowering_preserves_mixing :
    ∃ unit,
      mixingProgram.lower (.ofProgram mixingProgram) = .ok unit ∧
        ∃ method,
          unit.methods = [method] ∧
            ∀ (Event : Type) (environment : Environment Event)
              (store : Store String),
              (Code.Setting.overNames environment).behaviour store method.instrs =
                Scene.behaviour
                  { environment with
                    symbols := .ofProgram mixingProgram
                    method := mixing
                    constructed :=
                      fun _ className => .ofTypeName (.ofClass className) }
                  store := by
  have named :
      ∀ source ∈ mixingProgram.mainClass.methods,
        source.TemporariesDeclared (.ofProgram mixingProgram) := by
    decide +kernel
  have ownType :
      ∀ source ∈ mixingProgram.mainClass.methods, ∀ stmt ∈ source.body,
        stmt.assignsOwnType (.ofProgram mixingProgram) source.name = true := by
    decide +kernel
  have succeeds :
      (mixingProgram.lower (.ofProgram mixingProgram)).toOption.isSome = true := by
    decide +kernel
  obtain ⟨unit, lowered⟩ := exists_ok_of_isSome succeeds
  have preserved := lowering_preserves_behaviour named ownType lowered
  obtain ⟨method, rest, behaves, none, isMethods⟩ :=
    List.forall₂_cons_left_iff.mp preserved
  rw [List.forall₂_nil_left_iff.mp none] at isMethods
  exact ⟨unit, lowered, method, isMethods, behaves⟩

end MiniJava
