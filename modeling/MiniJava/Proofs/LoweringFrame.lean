import MiniJava.Proofs.Semantics.Declared
import MiniJava.Proofs.Steps
import MiniJava.Proofs.Temporaries

namespace MiniJava

/-!
# What lowering does to its state

Lowering changes its state in few ways: it declares variables, appends
instructions, counts temporaries, and sets the type of the assignment in
progress for a while. What all of these do, every part of lowering does.
-/

open Code (Operand ValueType Instr Method)

namespace Lower

/--
A call is built from what is called and the arguments; a static call has no target.
-/
theorem callWith_ok
    {state after : Lowering}
    {symbols : Symbols}
    {target : Expr}
    {method : String}
    {type : TypeName}
    {used : Bool}
    {lowerTarget : Lower Operand}
    {lowerArguments : Lower (List Operand)}
    {instr : Instr}
    (ran :
      Lower.callWith symbols target method type used lowerTarget
        lowerArguments state =
        .ok instr after) :
    ∃ receiver between lowered,
      instr =
          .call (state.callKind symbols target method) receiver method lowered
            (after.callResult type used) ∧
        lowerArguments between = .ok lowered after ∧
          ((∃ name annotated,
              target = .var name annotated ∧
                state.callKind symbols target method = .static ∧
                receiver = .classRef name ∧ between = state) ∨
            state.callKind symbols target method ≠ .static ∧
              lowerTarget state = .ok receiver between) := by
  obtain ⟨_, _, gotten, ran⟩ := bind_ok_iff.mp ran
  obtain ⟨rfl, rfl⟩ := get_ok_iff.mp gotten
  by_cases static : state.callKind symbols target method = .static
  · obtain ⟨name, annotated, rfl⟩ := Lowering.target_of_static static
    simp only [static, pure_bind] at ran
    obtain ⟨lowered, _, argumentsRan, ran⟩ := bind_ok_iff.mp ran
    obtain ⟨_, _, gotten, returned⟩ := bind_ok_iff.mp ran
    obtain ⟨rfl, rfl⟩ := get_ok_iff.mp gotten
    obtain ⟨rfl, rfl⟩ := pure_ok_iff.mp returned
    exact ⟨_, state, lowered, by rw [static], argumentsRan,
      .inl ⟨name, annotated, rfl, static, rfl, rfl⟩⟩
  · have ran :
        (do
          let receiver ← lowerTarget
          let arguments ← lowerArguments
          let result := (← get).callResult type used
          return .call (state.callKind symbols target method) receiver method
            arguments result :
            Lower Instr)
          state = .ok instr after := by
      revert ran static
      cases state.callKind symbols target method with
      | static =>
          exact fun _ notStatic => absurd rfl notStatic
      | virtual =>
          exact fun ran _ => ran
      | special =>
          exact fun ran _ => ran
    obtain ⟨receiver, between, receiverRan, ran⟩ := bind_ok_iff.mp ran
    obtain ⟨lowered, _, argumentsRan, ran⟩ := bind_ok_iff.mp ran
    obtain ⟨_, _, gotten, returned⟩ := bind_ok_iff.mp ran
    obtain ⟨rfl, rfl⟩ := get_ok_iff.mp gotten
    obtain ⟨rfl, rfl⟩ := pure_ok_iff.mp returned
    exact ⟨receiver, between, lowered, rfl, argumentsRan,
      .inr ⟨static, receiverRan⟩⟩

/-- The result of a call is stored in a temporary, if there is one. -/
theorem callValue_ok
    {state after : Lowering}
    {symbols : Symbols}
    {kind : Code.CallKind}
    {target operand : Operand}
    {name method : String}
    {arguments : List Operand}
    {result : ValueType}
    (ran :
      callValue symbols method (.call kind target name arguments result) state =
        .ok operand after) :
    intoTemporary symbols result (.call kind target name arguments result) state =
      .ok operand after := by
  unfold callValue at ran
  by_cases void : result.isVoid = true
  · simp only [void, if_true] at ran
    obtain ⟨_, _, _, impossible⟩ := bind_ok_iff.mp ran
    exact (throw_ok_iff.mp impossible).elim
  · simpa only [void, Bool.false_eq_true, if_false] using ran

/-- A step under an assignment runs with the type of the assignment. -/
theorem underAssignment_ok
    {α : Type}
    {state after : Lowering}
    {type : TypeName}
    {step : Lower α}
    {result : α}
    (ran : Lower.underAssignment type step state = .ok result after) :
    ∃ inner,
      step { state with assigned? := some type } = .ok result inner ∧
        after = { inner with assigned? := state.assigned? } := by
  unfold Lower.underAssignment at ran
  cases stepRan : step { state with assigned? := some type } with
  | ok value inner =>
      rw [stepRan] at ran
      cases ran
      exact ⟨inner, rfl, rfl⟩
  | error error inner =>
      rw [stepRan] at ran
      cases ran

/--
An assignment to a variable computes the value, declares the variable
and stores the value there; a new object is constructed last.
-/
theorem assignVariable_ok
    {state after : Lowering}
    {name : String}
    {type : TypeName}
    {source : Expr}
    {result : Unit}
    (ran : assignVariable symbols name type source state = .ok result after) :
    ∃ stored inner,
      value symbols source { state with assigned? := some type } =
          .ok stored inner ∧
        (if stored.isNewObject then
            emit (.construct (.var name (.ofTypeName type)))
          else
            pure ())
          ((({ inner with assigned? := state.assigned? } :
              Lowering).changeMethod fun method =>
                method.declare name (.ofTypeName type)
                  (if Lowering.isParam
                      { inner with assigned? := state.assigned? } name = true then
                    .param
                  else
                    .localVar)).changeMethod fun method =>
            { method with
              instrs :=
                method.instrs ++ [.store (.var name (.ofTypeName type)) stored] }) =
          .ok result after := by
  obtain ⟨stored, _, storedRan, ran⟩ := bind_ok_iff.mp ran
  obtain ⟨inner, valueRan, rfl⟩ := underAssignment_ok storedRan
  obtain ⟨_, _, gotten, ran⟩ := bind_ok_iff.mp ran
  obtain ⟨rfl, rfl⟩ := get_ok_iff.mp gotten
  obtain ⟨_, _, declared, ran⟩ := bind_ok_iff.mp ran
  obtain rfl := modify_ok_iff.mp declared
  obtain ⟨_, _, emitted, constructed⟩ := bind_ok_iff.mp ran
  obtain rfl := modify_ok_iff.mp emitted
  exact ⟨stored, inner, valueRan, constructed⟩

end Lower

namespace Lowering

/--
A relation between states that holds across each change of lowering,
and so across any number.
-/
structure Closed (relation : Lowering → Lowering → Prop) : Prop where
  refl : ∀ state, relation state state
  trans : ∀ {first second third},
    relation first second → relation second third → relation first third
  declare : ∀ state name type,
    relation state
      (state.changeMethod fun method => method.declare name type .localVar)
  declareParam : ∀ state name type,
    state.isParam name = true →
      relation state
        (state.changeMethod fun method => method.declare name type .param)
  emit : ∀ state instr,
    relation state
      (state.changeMethod fun method =>
        { method with instrs := method.instrs ++ [instr] })
  count : ∀ state number,
    state.nextTemporary ≤ number →
    relation state { state with nextTemporary := number }
  assigned : ∀ {state after} type,
    relation { state with assigned? := some type } after →
      relation state { after with assigned? := state.assigned? }

namespace Closed

variable {relation : Lowering → Lowering → Prop} {symbols : Symbols}
  {state after : Lowering}

theorem intoTemporary
    (closed : Closed relation)
    {type : ValueType}
    {instr : Instr}
    {dest : Operand}
    (ran : Lower.intoTemporary symbols type instr state = .ok dest after) :
    relation state after := by
  obtain ⟨_, temporaryRan, rfl⟩ := Lower.intoTemporary_ok ran
  obtain ⟨rfl, rfl⟩ := Lower.temporary_ok temporaryRan
  have above : state.nextTemporary ≤ state.freshNumber symbols + 1 :=
    Nat.le_succ_of_le (le_freshNumber symbols state)
  exact closed.trans (closed.count state _ above)
    (closed.trans (closed.declare _ _ _) (closed.emit _ _))

theorem nameRead
    (closed : Closed relation)
    {name : String}
    {type : TypeName}
    {operand : Operand}
    (ran : Lower.nameRead symbols name type state = .ok operand after) :
    relation state after := by
  obtain ⟨_, _, gotten, rest⟩ := bind_ok_iff.mp ran
  obtain ⟨rfl, rfl⟩ := get_ok_iff.mp gotten
  split at rest
  · exact closed.intoTemporary rest
  · split at rest
    · obtain ⟨_, rfl⟩ := pure_ok_iff.mp rest
      exact closed.refl _
    · split at rest
      · obtain ⟨_, _, declared, returned⟩ := bind_ok_iff.mp rest
        obtain rfl := modify_ok_iff.mp declared
        obtain ⟨_, rfl⟩ := pure_ok_iff.mp returned
        exact closed.declare _ _ _
      · obtain ⟨_, rfl⟩ := pure_ok_iff.mp rest
        exact closed.refl _

theorem exprs
    (closed : Closed relation)
    {exprs : List Expr}
    {operands : List Operand}
    (each :
      ∀ expr ∈ exprs, ∀ {state after operand},
        Lower.expr symbols expr state = .ok operand after → relation state after)
    (ran : Lower.exprs symbols exprs state = .ok operands after) :
    relation state after := by
  induction exprs generalizing state operands with
  | nil =>
      rw [Lower.exprs] at ran
      obtain ⟨_, rfl⟩ := pure_ok_iff.mp ran
      exact closed.refl _
  | cons first rest inductionHypothesis =>
      rw [Lower.exprs] at ran
      obtain ⟨_, _, firstRan, ran⟩ := bind_ok_iff.mp ran
      obtain ⟨_, _, restRan, returned⟩ := bind_ok_iff.mp ran
      obtain ⟨_, rfl⟩ := pure_ok_iff.mp returned
      exact closed.trans (each first List.mem_cons_self firstRan)
        (inductionHypothesis
          (fun expr member => each expr (List.mem_cons_of_mem _ member)) restRan)

theorem callWith
    (closed : Closed relation)
    {target : Expr}
    {method : String}
    {type : TypeName}
    {used : Bool}
    {lowerTarget : Lower Operand}
    {lowerArguments : Lower (List Operand)}
    {instr : Instr}
    (targetChanges :
      ∀ {state after operand}, lowerTarget state = .ok operand after →
      relation state after)
    (argumentsChange :
      ∀ {state after operands}, lowerArguments state = .ok operands after →
      relation state after)
    (ran :
      Lower.callWith symbols target method type used lowerTarget
        lowerArguments state =
        .ok instr after) :
    relation state after := by
  obtain ⟨_, between, _, _, argumentsRan, targetRan⟩ := Lower.callWith_ok ran
  refine closed.trans ?_ (argumentsChange argumentsRan)
  rcases targetRan with ⟨_, _, _, _, _, rfl⟩ | ⟨_, targetRan⟩
  · exact closed.refl _
  · exact targetChanges targetRan

/-- Lowering an expression changes the state as lowering does. -/
theorem expr
    (closed : Closed relation)
    {expr : Expr}
    {operand : Operand}
    (ran : Lower.expr symbols expr state = .ok operand after) :
    relation state after := by
  induction expr generalizing state after operand with
  | literal value =>
      cases value <;>
      · rw [Lower.expr] at ran
        obtain ⟨_, rfl⟩ := pure_ok_iff.mp ran
        exact closed.refl _
  | var name type =>
      rw [Lower.expr] at ran
      exact closed.nameRead ran
  | receiver type =>
      rw [Lower.expr] at ran
      obtain ⟨_, rfl⟩ := pure_ok_iff.mp ran
      exact closed.refl _
  | binary operator left right type leftHypothesis rightHypothesis =>
      rw [Lower.expr] at ran
      obtain ⟨_, _, leftRan, ran⟩ := bind_ok_iff.mp ran
      obtain ⟨_, _, rightRan, stored⟩ := bind_ok_iff.mp ran
      exact closed.trans (leftHypothesis leftRan)
        (closed.trans (rightHypothesis rightRan) (closed.intoTemporary stored))
  | call target method arguments type targetHypothesis argumentsHypothesis =>
      rw [Lower.expr] at ran
      obtain ⟨_, _, callRan, valueRan⟩ := bind_ok_iff.mp ran
      have argumentsChange :
          ∀ {state after operands},
            Lower.exprs symbols arguments state = .ok operands after →
            relation state after :=
        fun argumentsRan => closed.exprs argumentsHypothesis argumentsRan
      refine closed.trans
        (closed.callWith targetHypothesis argumentsChange callRan) ?_
      -- Only an instruction that is seen to be a call can be stored as the value of
      -- one.
      obtain ⟨_, _, _, rfl, _⟩ := Lower.callWith_ok callRan
      exact closed.intoTemporary (Lower.callValue_ok valueRan)
  | newObject className type =>
      rw [Lower.expr] at ran
      obtain ⟨_, _, stored, ran⟩ := bind_ok_iff.mp ran
      obtain ⟨_, _, emitted, returned⟩ := bind_ok_iff.mp ran
      obtain rfl := modify_ok_iff.mp emitted
      obtain ⟨_, rfl⟩ := pure_ok_iff.mp returned
      exact closed.trans (closed.intoTemporary stored) (closed.emit _ _)
  | newArray size type sizeHypothesis =>
      rw [Lower.expr] at ran
      obtain ⟨_, _, sizeRan, stored⟩ := bind_ok_iff.mp ran
      exact closed.trans (sizeHypothesis sizeRan) (closed.intoTemporary stored)
  | element array index type arrayHypothesis indexHypothesis =>
      rw [Lower.expr] at ran
      obtain ⟨_, _, arrayRan, ran⟩ := bind_ok_iff.mp ran
      obtain ⟨_, _, indexRan, stored⟩ := bind_ok_iff.mp ran
      exact closed.trans (arrayHypothesis arrayRan)
        (closed.trans (indexHypothesis indexRan) (closed.intoTemporary stored))
  | length array type arrayHypothesis =>
      rw [Lower.expr] at ran
      obtain ⟨_, _, arrayRan, stored⟩ := bind_ok_iff.mp ran
      exact closed.trans (arrayHypothesis arrayRan) (closed.intoTemporary stored)

theorem call
    (closed : Closed relation)
    {target : Expr}
    {method : String}
    {arguments : List Expr}
    {type : TypeName}
    {used : Bool}
    {instr : Instr}
    (ran :
      Lower.call symbols target method arguments type used state =
        .ok instr after) :
    relation state after :=
  closed.callWith closed.expr
    (fun argumentsRan => closed.exprs (fun _ _ => closed.expr) argumentsRan) ran

theorem value
    (closed : Closed relation)
    {source : Expr}
    {instr : Instr}
    (ran : Lower.value symbols source state = .ok instr after) :
    relation state after := by
  cases source with
  | binary operator left right type =>
      obtain ⟨_, _, leftRan, ran⟩ := bind_ok_iff.mp ran
      obtain ⟨_, _, rightRan, returned⟩ := bind_ok_iff.mp ran
      obtain ⟨_, rfl⟩ := pure_ok_iff.mp returned
      exact closed.trans (closed.expr leftRan) (closed.expr rightRan)
  | call target method arguments type =>
      exact closed.call ran
  | newObject className type =>
      obtain ⟨_, rfl⟩ := pure_ok_iff.mp ran
      exact closed.refl _
  | _ =>
      obtain ⟨_, _, exprRan, returned⟩ := bind_ok_iff.mp ran
      obtain ⟨_, rfl⟩ := pure_ok_iff.mp returned
      exact closed.expr exprRan

theorem assignVariable
    (closed : Closed relation)
    {name : String}
    {type : TypeName}
    {source : Expr}
    {value : Unit}
    (ran : Lower.assignVariable symbols name type source state = .ok value after) :
    relation state after := by
  obtain ⟨stored, inner, valueRan, constructed⟩ := Lower.assignVariable_ok ran
  refine closed.trans (closed.assigned type (closed.value valueRan)) ?_
  generalize { inner with assigned? := state.assigned? } = before at constructed
  have declares :
      relation before
        (before.changeMethod fun method => method.declare name (.ofTypeName type)
        (if before.isParam name = true then .param else .localVar)) := by
    split
    case isTrue param =>
      exact closed.declareParam before name _ param
    case isFalse =>
      exact closed.declare before name _
  refine closed.trans declares
    (closed.trans (closed.emit _ (.store (.var name (.ofTypeName type)) stored)) ?_)
  split at constructed
  · obtain rfl := modify_ok_iff.mp constructed
    exact closed.emit _ _
  · obtain ⟨_, rfl⟩ := pure_ok_iff.mp constructed
    exact closed.refl _

theorem stmt
    (closed : Closed relation)
    {stmt : Stmt}
    {value : Unit}
    (ran : Lower.stmt symbols stmt state = .ok value after) :
    relation state after := by
  cases stmt with
  | assign name type source =>
      obtain ⟨_, _, gotten, ran⟩ := bind_ok_iff.mp ran
      obtain ⟨rfl, rfl⟩ := get_ok_iff.mp gotten
      split at ran
      · obtain ⟨_, _, storedRan, emitted⟩ := bind_ok_iff.mp ran
        obtain ⟨_, exprRan, rfl⟩ := Lower.underAssignment_ok storedRan
        obtain rfl := modify_ok_iff.mp emitted
        exact closed.trans (closed.assigned type (closed.expr exprRan))
          (closed.emit _ _)
      · exact closed.assignVariable ran
  | evaluate expr =>
      cases expr with
      | call target method arguments type =>
          obtain ⟨_, _, callRan, emitted⟩ := bind_ok_iff.mp ran
          obtain rfl := modify_ok_iff.mp emitted
          exact closed.trans (closed.call callRan) (closed.emit _ _)
      | _ =>
          obtain ⟨_, _, exprRan, returned⟩ := bind_ok_iff.mp ran
          obtain ⟨_, rfl⟩ := pure_ok_iff.mp returned
          exact closed.expr exprRan
  | ret result =>
      cases result with
      | none =>
          obtain ⟨_, _, gotten, emitted⟩ := bind_ok_iff.mp ran
          obtain ⟨rfl, rfl⟩ := get_ok_iff.mp gotten
          obtain rfl := modify_ok_iff.mp emitted
          exact closed.emit _ _
      | some expr =>
          obtain ⟨_, _, gotten, ran⟩ := bind_ok_iff.mp ran
          obtain ⟨rfl, rfl⟩ := get_ok_iff.mp gotten
          obtain ⟨_, _, exprRan, emitted⟩ := bind_ok_iff.mp ran
          obtain rfl := modify_ok_iff.mp emitted
          exact closed.trans (closed.expr exprRan) (closed.emit _ _)

/-- Lowering statements changes the state as lowering does. -/
theorem stmts
    (closed : Closed relation)
    {stmts : List Stmt}
    {value : Unit}
    (ran : Lower.stmts symbols stmts state = .ok value after) :
    relation state after := by
  induction stmts generalizing state with
  | nil =>
      obtain ⟨_, rfl⟩ := pure_ok_iff.mp ran
      exact closed.refl _
  | cons first rest inductionHypothesis =>
      obtain ⟨_, _, firstRan, restRan⟩ := bind_ok_iff.mp ran
      exact closed.trans (closed.stmt firstRan) (inductionHypothesis restRan)

end Closed

end Lowering

end MiniJava
