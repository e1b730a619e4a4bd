import MiniJava.Proofs.CallSites
import MiniJava.Proofs.KeptVariables
import MiniJava.Proofs.Semantics.Support

namespace MiniJava

/-!
# Supported methods are lowered to code that can be emitted

Lowering stops only where a value is used that a call does not give. A supported
body has no such value. While it is lowered, every instruction so far can be
emitted, and the table of the method has all variables that the instructions
need: it only grows, so what it has for one instruction it has for good.
-/

open Code (Operand ValueType Instr)
open Assembly (hasMethods isCallable isCreatable isEmittable isEmittableValue)

namespace TypeName

variable {type : TypeName}

/-- In code, only the type of no value is that of no value. -/
theorem isVoid_ofTypeName
    (type : TypeName) :
    (ValueType.ofTypeName type).isVoid = type.isVoid := by
  rcases type with ⟨name, isArray⟩
  unfold ValueType.ofTypeName isVoid
  cases isArray <;> grind [ValueType.isVoid, TypeName.void]

/-- Objects have methods. -/
theorem hasMethods_of_isObject
    (isObject : type.isObject = true) :
    hasMethods (.ofTypeName type) = true := by
  rcases type with ⟨name, isArray⟩
  unfold ValueType.ofTypeName
  cases isArray <;>
    grind [TypeName.isObject, TypeName.int, TypeName.boolean, TypeName.void,
      hasMethods]

/-- Arrays of anything but no value can be created. -/
theorem isCreatable_of_isArray
    (isArray : type.isArray = true)
    (notVoid : type.name ≠ TypeName.void.name) :
    isCreatable (.ofTypeName type) = true := by
  rcases type with ⟨name, _⟩
  unfold ValueType.ofTypeName
  grind [TypeName.void, isCreatable]

end TypeName

/-- The table of the method in progress has the variable that an operand names. -/
def Lowering.Has (state : Lowering) (operand : Operand) : Prop :=
  ∀ name, operand.name? = some name → state.hasVariable name = true

theorem Lowering.Has.mono
    {state after : Lowering}
    {operand : Operand}
    (has : state.Has operand)
    (keeps :
      ∀ name, state.hasVariable name = true → after.hasVariable name = true) :
    after.Has operand :=
  fun name isName => keeps name (has name isName)

theorem Lowering.hasVariable_mono_declare
    (state : Lowering)
    (name : String)
    (type : ValueType)
    (scope : Code.Scope)
    (other : String)
    (has : state.hasVariable other = true) :
    (state.changeMethod fun method => method.declare name type scope).hasVariable
      other = true := by
  grind [Lowering.hasVariable, Lowering.changeMethod, Code.Method.declare]

/-- Lowering keeps the variables of the method in progress. -/
theorem Lowering.closed_hasVariable :
    Lowering.Closed fun state after =>
      ∀ name, state.hasVariable name = true → after.hasVariable name = true where
  refl _ _ has := has
  trans first second name has := second name (first name has)
  declare state name type := state.hasVariable_mono_declare name type .localVar
  declareParam state name type _ := state.hasVariable_mono_declare name type .param
  emit state instr other has := by
    grind [Lowering.hasVariable, Lowering.changeMethod]
  count _ _ _ _ has := has
  assigned _ inner := inner

namespace MethodDef

/-- The method is in progress, and all of its code so far can be emitted. -/
structure Emittable
    (symbols : Symbols)
    (source : MethodDef)
    (state : Lowering) : Prop where
  running : source.Running symbols (source.firstNames symbols) state
  each :
    ∀ instr ∈ state.instrs,
      isEmittable instr = true ∧ ∀ name, instr.Needs name →
      state.hasVariable name = true
  /-- An assignment in progress has a value. -/
  assigned : ∀ type, state.assigned? = some type → type.isVoid = false

namespace Emittable

variable {symbols : Symbols} {source : MethodDef} {state : Lowering}

theorem declare
    (emittable : source.Emittable symbols state)
    (name : String)
    (type : ValueType)
    (scope : Code.Scope) :
    source.Emittable symbols
      (state.changeMethod fun method => method.declare name type scope) where
  running :=
    (emittable.running.declare name type scope).mono (List.subset_insert _ _)
  each instr member := by
    rw [Scene.instrs_declare] at member
    rcases emittable.each instr member with ⟨isEmittable, has⟩
    exact ⟨isEmittable, fun needed needs =>
      state.hasVariable_mono_declare name type scope needed (has needed needs)⟩
  assigned := emittable.assigned

/-- A variable is in the table once it is declared. -/
theorem hasVariable_declare
    (emittable : source.Emittable symbols state)
    (name : String)
    (type : ValueType)
    (scope : Code.Scope) :
    (state.changeMethod fun method => method.declare name type scope).hasVariable
      name = true := by
  rcases emittable.running with ⟨method, isCurrent, _⟩
  simp only [Lowering.hasVariable, Lowering.changeMethod, isCurrent,
    Option.map_some, Code.Method.declare]
  grind

theorem emit
    (emittable : source.Emittable symbols state)
    (instr : Instr)
    (isEmittable : Assembly.isEmittable instr = true)
    (used : ∀ operand ∈ instr.used, state.Has operand)
    (destination :
      ∀ name, instr.destination? = some name → state.hasVariable name = true) :
    source.Emittable symbols
      (state.changeMethod fun method =>
        { method with instrs := method.instrs ++ [instr] }) where
  running := emittable.running.emit instr
  each other member := by
    have keeps := Lowering.closed_hasVariable.emit state instr
    rw [emittable.running.instrs_emit] at member
    rcases List.mem_append.mp member with before | isLast
    · rcases emittable.each other before with ⟨isEmittable, has⟩
      exact ⟨isEmittable, fun name needs => keeps name (has name needs)⟩
    · rcases List.mem_singleton.mp isLast with rfl
      refine ⟨isEmittable, fun name needs => keeps name ?_⟩
      rcases needs with ⟨operand, isUsed, isName⟩ | isDestination
      · exact used operand isUsed name isName
      · exact destination name isDestination
  assigned := emittable.assigned

/-- Another assignment may be in progress, as long as it has a value. -/
theorem withAssigned
    (emittable : source.Emittable symbols state)
    {assigned? : Option TypeName}
    (assigned : ∀ type, assigned? = some type → type.isVoid = false) :
    source.Emittable symbols { state with assigned? } :=
  ⟨emittable.running, emittable.each, assigned⟩

/-- A method that is not static has its receiver. -/
theorem has_receiver
    (emittable : source.Emittable symbols state)
    (notStatic : source.isStatic = false) :
    state.Has (.receiver symbols.className) := by
  rintro _ ⟨⟩
  rcases emittable.running with ⟨method, isCurrent, _, keeps⟩
  have inBegin := (source.mem_begin symbols.className).mpr (.inl ⟨notStatic, rfl⟩)
  have member := keeps Operand.receiverName (mem_firstNames.mpr inBegin)
  simp [Lowering.hasVariable, isCurrent, member]

theorem hasVariable_of_isParam
    (emittable : source.Emittable symbols state)
    {name : String}
    (isParam : state.isParam name = true) :
    state.hasVariable name = true := by
  rcases emittable.running with ⟨method, isCurrent, begun, keeps⟩
  simp only [Lowering.isParam, isCurrent] at isParam
  rw [begun] at isParam
  have inBegin := (source.mem_begin symbols.className).mpr (.inr isParam)
  have member := keeps name (mem_firstNames.mpr inBegin)
  simp [Lowering.hasVariable, isCurrent, member]

end Emittable

/-- From a state, a step goes on to one in which the code can be emitted still. -/
def GoesOn
    {α : Type}
    (symbols : Symbols)
    (source : MethodDef)
    (step : Lower α)
    (state : Lowering)
    (result : α → Lowering → Prop) : Prop :=
  ∃ value after,
    step state = .ok value after ∧ source.Emittable symbols after ∧
      result value after

namespace GoesOn

variable {α β : Type} {symbols : Symbols} {source : MethodDef} {state : Lowering}
  {step : Lower α} {rest : α → Lower β} {middle : α → Lowering → Prop}
  {result : β → Lowering → Prop}

/-- A step that is known to go on is followed by the rest. -/
theorem after
    {value : α}
    {between : Lowering}
    (ran : step state = .ok value between)
    (goesOn : source.GoesOn symbols (rest value) between result) :
    source.GoesOn symbols (step >>= rest) state result := by
  rcases goesOn with ⟨final, after, restRan, met⟩
  exact ⟨final, after, bind_ok_iff.mpr ⟨value, between, ran, restRan⟩, met⟩

theorem bind
    (first : source.GoesOn symbols step state middle)
    (second :
      ∀ value between,
        step state = .ok value between →
        source.Emittable symbols between →
        middle value between →
        source.GoesOn symbols (rest value) between result) :
    source.GoesOn symbols (step >>= rest) state result := by
  rcases first with ⟨value, between, ran, emittable, met⟩
  exact .after ran (second value between ran emittable met)

theorem pure
    {value : β}
    (emittable : source.Emittable symbols state)
    (met : result value state) :
    source.GoesOn symbols (Pure.pure value) state result :=
  ⟨value, state, rfl, emittable, met⟩

end GoesOn

end MethodDef

namespace Lower

variable {symbols : Symbols} {source : MethodDef} {state : Lowering}

theorem temporary_goesOn
    (emittable : source.Emittable symbols state)
    (type : ValueType) :
    source.GoesOn symbols (temporary symbols type) state fun dest after =>
      dest.isLiteral = false ∧ after.Has dest := by
  have counted :
      source.Emittable symbols
        { state with nextTemporary := state.freshNumber symbols + 1 } :=
    ⟨emittable.running, emittable.each, emittable.assigned⟩
  refine ⟨_, _, rfl, counted.declare _ _ _, rfl, ?_⟩
  rintro _ ⟨⟩
  exact counted.hasVariable_declare _ _ _

/-- A value that can be emitted can be stored in a temporary. -/
theorem intoTemporary_goesOn
    {type : ValueType}
    {value : Instr}
    (emittable : source.Emittable symbols state)
    (isValue : isEmittableValue value = true)
    (used : ∀ operand ∈ value.used, state.Has operand) :
    source.GoesOn symbols (intoTemporary symbols type value) state fun dest after =>
      after.Has dest := by
  refine (temporary_goesOn emittable type).bind ?_
  rintro dest named temporaryRan namedEmittable ⟨notLiteral, hasDest⟩
  have keeps : ∀ name, state.hasVariable name = true →
    named.hasVariable name = true := by
    rcases temporary_ok temporaryRan with ⟨_, rfl⟩
    exact Lowering.closed_hasVariable.declare _ _ _
  refine ⟨dest, _, rfl, namedEmittable.emit _ ?_ ?_ hasDest, ?_⟩
  · simp [isEmittable, Instr.store, isValue, notLiteral]
  · exact fun operand isUsed => (used operand isUsed).mono keeps
  · exact hasDest.mono (Lowering.closed_hasVariable.emit _ _)

/-- A name is read, unless it is a field that the method has no receiver for. -/
theorem nameRead_goesOn
    {name : String}
    {type : TypeName}
    (emittable : source.Emittable symbols state)
    (notImported : type.isImported = false)
    (reachable :
      source.isStatic = false ∨ symbols.isField source.name name = false) :
    source.GoesOn symbols (nameRead symbols name type) state fun operand after =>
      after.Has operand := by
  refine .after rfl ?_
  rw [emittable.running.isField, notImported]
  cases isField : symbols.isField source.name name with
  | true =>
      have notStatic : source.isStatic = false :=
        reachable.resolve_right (by simp [isField])
      refine intoTemporary_goesOn emittable rfl ?_
      simpa [Instr.used, Register.operandsOf] using emittable.has_receiver notStatic
  | false =>
      simp only [Bool.false_eq_true, if_false]
      cases isParam : state.isParam name with
      | true =>
          refine .pure emittable ?_
          rintro _ ⟨⟩
          exact emittable.hasVariable_of_isParam isParam
      | false =>
          refine .after rfl (.pure (emittable.declare _ _ _) ?_)
          rintro _ ⟨⟩
          exact emittable.hasVariable_declare _ _ _

/-- Expressions go on one after the other, and the variables of all of them stay. -/
theorem exprs_goesOn
    {exprs : List Expr}
    (each :
      ∀ expr ∈ exprs, ∀ {state},
        source.Emittable symbols state →
        source.GoesOn symbols (Lower.expr symbols expr) state fun operand after =>
          after.Has operand)
    (emittable : source.Emittable symbols state) :
    source.GoesOn symbols (Lower.exprs symbols exprs) state fun operands after =>
      ∀ operand ∈ operands, after.Has operand := by
  induction exprs generalizing state with
  | nil =>
      rw [Lower.exprs]
      exact .pure emittable (by simp)
  | cons first rest inductionHypothesis =>
      rw [Lower.exprs]
      refine (each first List.mem_cons_self emittable).bind ?_
      intro operand between _ firstEmittable hasFirst
      refine (inductionHypothesis
        (fun expr member => each expr (List.mem_cons_of_mem _ member))
        firstEmittable).bind ?_
      intro operands after restRan restEmittable hasRest
      refine .pure restEmittable (List.forall_mem_cons.mpr ⟨?_, hasRest⟩)
      exact hasFirst.mono
        (Lowering.closed_hasVariable.exprs
          (fun _ _ => Lowering.closed_hasVariable.expr) restRan)

theorem intoTemporary_isLiteral
    {after : Lowering}
    {type : ValueType}
    {value : Instr}
    {dest : Operand}
    (ran : intoTemporary symbols type value state = .ok dest after) :
    dest.isLiteral = false := by
  rcases intoTemporary_ok ran with ⟨_, temporaryRan, _⟩
  rcases temporary_ok temporaryRan with ⟨rfl, _⟩
  rfl

/-- Two operands are there once both are lowered. -/
theorem operands_goesOn
    {α : Type}
    {left right : Expr}
    {rest : Operand → Operand → Lower α}
    {result : α → Lowering → Prop}
    (onLeft :
      source.GoesOn symbols (Lower.expr symbols left) state fun operand after =>
        after.Has operand)
    (onRight :
      ∀ {between},
        source.Emittable symbols between →
        source.GoesOn symbols (Lower.expr symbols right) between
          fun operand after =>
          after.Has operand)
    (onRest :
      ∀ first second after,
        source.Emittable symbols after →
        (∀ operand ∈ [first, second], after.Has operand) →
        source.GoesOn symbols (rest first second) after result) :
    source.GoesOn symbols
      (do
        let first ← Lower.expr symbols left
        let second ← Lower.expr symbols right
        rest first second)
      state result := by
  refine onLeft.bind fun first between _ leftEmittable hasLeft => ?_
  refine (onRight leftEmittable).bind
    fun second after rightRan rightEmittable hasRight => ?_
  have stillLeft := hasLeft.mono (Lowering.closed_hasVariable.expr rightRan)
  exact onRest first second after rightEmittable (by simp [stillLeft, hasRight])

/-- Only literals have literals for operands. -/
theorem expr_isLiteral
    {after : Lowering}
    {expr : Expr}
    {operand : Operand}
    (ran : Lower.expr symbols expr state = .ok operand after) :
    operand.isLiteral = expr.isLiteral := by
  cases expr with
  | literal value =>
      cases value <;>
      · rw [Lower.expr] at ran
        rcases pure_ok_iff.mp ran with ⟨rfl, _⟩
        rfl
  | var name type =>
      rw [Lower.expr] at ran
      rcases bind_ok_iff.mp ran with ⟨_, _, gotten, ran⟩
      split at ran
      · exact intoTemporary_isLiteral ran
      · split at ran
        · rcases pure_ok_iff.mp ran with ⟨rfl, _⟩
          rfl
        · split at ran
          · rcases bind_ok_iff.mp ran with ⟨_, _, _, returned⟩
            rcases pure_ok_iff.mp returned with ⟨rfl, _⟩
            rfl
          · rcases pure_ok_iff.mp ran with ⟨rfl, _⟩
            rfl
  | receiver type =>
      rw [Lower.expr] at ran
      rcases pure_ok_iff.mp ran with ⟨rfl, _⟩
      rfl
  | binary operator left right type =>
      rw [Lower.expr] at ran
      rcases bind_ok_iff.mp ran with ⟨_, _, _, ran⟩
      rcases bind_ok_iff.mp ran with ⟨_, _, _, stored⟩
      exact intoTemporary_isLiteral stored
  | call target method arguments type =>
      rw [Lower.expr] at ran
      rcases bind_ok_iff.mp ran with ⟨_, _, callRan, valueRan⟩
      rcases callWith_ok callRan with ⟨_, _, _, rfl, _⟩
      exact intoTemporary_isLiteral (callValue_ok valueRan)
  | newObject className type =>
      rw [Lower.expr] at ran
      rcases bind_ok_iff.mp ran with ⟨_, _, stored, ran⟩
      rcases bind_ok_iff.mp ran with ⟨_, _, _, returned⟩
      rcases pure_ok_iff.mp returned with ⟨rfl, _⟩
      exact intoTemporary_isLiteral stored
  | newArray size type =>
      rw [Lower.expr] at ran
      rcases bind_ok_iff.mp ran with ⟨_, _, _, stored⟩
      exact intoTemporary_isLiteral stored
  | element array index type =>
      rw [Lower.expr] at ran
      rcases bind_ok_iff.mp ran with ⟨_, _, _, ran⟩
      rcases bind_ok_iff.mp ran with ⟨_, _, _, stored⟩
      exact intoTemporary_isLiteral stored
  | length array type =>
      rw [Lower.expr] at ran
      rcases bind_ok_iff.mp ran with ⟨_, _, _, stored⟩
      exact intoTemporary_isLiteral stored

/--
Methods can be called on the value of an expression that is annotated with a class.
-/
theorem expr_callable
    {after : Lowering}
    {expr : Expr}
    {operand : Operand}
    (running : source.Running symbols (source.firstNames symbols) state)
    (isObject : expr.isObject symbols source.name = true)
    (ran : Lower.expr symbols expr state = .ok operand after) :
    operand.isLiteral = false ∧ hasMethods operand.type = true := by
  have isClass : expr.type.isClass = true := by
    cases expr with
    | var name type => exact (Bool.and_eq_true_iff.mp isObject).1
    | _ => exact isObject
  rcases Bool.and_eq_true_iff.mp isClass with ⟨isObjectType, notImported⟩
  have ofKept (keepsType : symbols.keepsType source.name expr = true) :
      hasMethods operand.type = true := by
    rw [expr_type running keepsType ran]
    exact TypeName.hasMethods_of_isObject isObjectType
  refine ⟨?_, ?_⟩
  · rw [expr_isLiteral ran]
    cases expr with
    | literal value => cases value <;> cases isClass
    | _ => rfl
  · cases expr with
    | var name type =>
        apply ofKept
        rcases Bool.and_eq_true_iff.mp isObject with ⟨_, isDeclared⟩
        simp only [Symbols.keepsType]
        split
        case isTrue isField => simpa [isField] using isDeclared
        case isFalse => exact notImported
    | receiver type =>
        rw [Lower.expr] at ran
        rcases pure_ok_iff.mp ran with ⟨rfl, _⟩
        rfl
    | call target method arguments type => exact ofKept notImported
    | newObject className type =>
        rw [Lower.expr] at ran
        rcases bind_ok_iff.mp ran with ⟨_, _, stored, ran⟩
        rcases bind_ok_iff.mp ran with ⟨_, _, _, returned⟩
        rcases pure_ok_iff.mp returned with ⟨rfl, _⟩
        rw [intoTemporary_type stored]
        rfl
    | _ => exact ofKept rfl

/-- A call that is built from steps that go on goes on. -/
theorem callWith_of_ok
    {target : Expr}
    {method : String}
    {type : TypeName}
    {used : Bool}
    {lowerTarget : Lower Operand}
    {lowerArguments : Lower (List Operand)}
    {receiver : Operand}
    {lowered : List Operand}
    {between after : Lowering}
    (targetRan :
      (∃ name annotated,
          target = .var name annotated ∧
            state.callKind symbols target method = .static ∧
            receiver = .classRef name ∧ between = state) ∨
        state.callKind symbols target method ≠ .static ∧
          lowerTarget state = .ok receiver between)
    (argumentsRan : lowerArguments between = .ok lowered after) :
    callWith symbols target method type used lowerTarget lowerArguments state =
      .ok
        (.call (state.callKind symbols target method) receiver method lowered
          (after.callResult type used))
        after := by
  refine bind_ok_iff.mpr ⟨state, state, rfl, ?_⟩
  rcases targetRan with
    ⟨name, annotated, rfl, static, rfl, rfl⟩ | ⟨notStatic, targetRan⟩
  · simp only [static, pure_bind]
    exact bind_ok_iff.mpr ⟨lowered, after, argumentsRan, rfl⟩
  · have isRan :
        (do
          let receiver ← lowerTarget
          let arguments ← lowerArguments
          let result := (← get).callResult type used
          return .call (state.callKind symbols target method) receiver method
            arguments result :
            Lower Instr)
          state =
            .ok
              (.call (state.callKind symbols target method) receiver method lowered
                (after.callResult type used))
              after :=
      bind_ok_iff.mpr ⟨receiver, between, targetRan,
        bind_ok_iff.mpr ⟨lowered, after, argumentsRan, rfl⟩⟩
    revert isRan notStatic
    cases state.callKind symbols target method with
    | static => exact fun notStatic => absurd rfl notStatic
    | virtual => exact fun _ isRan => isRan
    | special => exact fun _ isRan => isRan

/-- A call in code that can be emitted, with a result where one is used. -/
structure EmitsCall (used : Bool) (instr : Instr) (after : Lowering) : Prop where
  isCall :
    ∃ kind target method arguments result,
      instr = .call kind target method arguments result ∧
        isCallable kind target = true ∧ (used = true → result.isVoid = false)
  has : ∀ operand ∈ instr.used, after.Has operand

/-- A call that is used has a result. -/
theorem callResult_isVoid
    (emittable : source.Emittable symbols state)
    {type : TypeName}
    (notVoid : type.isVoid = false) :
    (state.callResult type true).isVoid = false := by
  unfold Lowering.callResult TypeName.callResult
  split
  · rw [TypeName.isVoid_ofTypeName, notVoid]
  · cases assigning : state.assigned? with
    | none => rfl
    | some assigned =>
        simp only [TypeName.isVoid_ofTypeName]
        exact emittable.assigned assigned assigning

/-- A supported call goes on. -/
theorem call_goesOn
    {target : Expr}
    {method : String}
    {arguments : List Expr}
    {type : TypeName}
    {used : Bool}
    (onTarget :
      ∀ {state},
        target.isSupported symbols source true = true →
        source.Emittable symbols state →
        source.GoesOn symbols (Lower.expr symbols target) state fun operand after =>
          after.Has operand)
    (onArguments :
      ∀ argument ∈ arguments, ∀ {state},
        argument.isSupported symbols source true = true →
        source.Emittable symbols state →
        source.GoesOn symbols (Lower.expr symbols argument) state
          fun operand after =>
          after.Has operand)
    (supported :
      (Expr.call target method arguments type).isSupported symbols source
        used = true)
    (emittable : source.Emittable symbols state) :
    source.GoesOn symbols
      (Lower.call symbols target method arguments type used) state
      (EmitsCall used) := by
  rw [Expr.isSupported, Bool.and_eq_true, Bool.and_eq_true, Expr.areSupported_iff]
    at supported
  rcases supported with ⟨⟨hasResult, argumentsSupported⟩, targetSupported⟩
  have argumentsGoOn {between : Lowering}
      (emittable : source.Emittable symbols between) :=
    exprs_goesOn
      (fun argument member _ =>
        onArguments argument member (argumentsSupported argument member))
      emittable
  have isResult {after : Lowering} (emittable : source.Emittable symbols after) :
      used = true → (after.callResult type used).isVoid = false := by
    rintro rfl
    exact callResult_isVoid emittable (by simpa using hasResult)
  by_cases static : state.callKind symbols target method = .static
  · -- The target is a class: no variable stands for it and nothing is emitted.
    rcases Lowering.target_of_static static with ⟨name, annotated, rfl⟩
    rcases argumentsGoOn emittable with
      ⟨lowered, after, argumentsRan, afterEmittable, has⟩
    refine ⟨_, after,
      callWith_of_ok (.inl ⟨name, annotated, rfl, static, rfl, rfl⟩) argumentsRan,
      afterEmittable, ⟨_, _, _, _, _, rfl, ?_, isResult afterEmittable⟩, ?_⟩
    · rw [static]
      rfl
    · rw [static]
      exact has
  · -- A name that is only known through an import would have made the call static.
    have notClass : target.namesClass method = false := by
      cases target with
      | var name annotated =>
          simp only [Lowering.callKind, Symbols.callKind] at static
          grind [Expr.namesClass]
      | _ => rfl
    rw [notClass, Bool.false_or, Bool.and_eq_true] at targetSupported
    rcases onTarget targetSupported.1 emittable with
      ⟨receiver, between, targetRan, betweenEmittable, hasReceiver⟩
    rcases argumentsGoOn betweenEmittable with
      ⟨lowered, after, argumentsRan, afterEmittable, hasArguments⟩
    rcases expr_callable emittable.running targetSupported.2 targetRan with
      ⟨notLiteral, hasMethods⟩
    refine ⟨_, after, callWith_of_ok (.inr ⟨static, targetRan⟩) argumentsRan,
      afterEmittable,
      ⟨_, _, _, _, _, rfl, by simp [isCallable, notLiteral, hasMethods],
        isResult afterEmittable⟩, ?_⟩
    intro operand isUsed
    rcases List.mem_cons.mp (Instr.used_subset_operandsOf _ isUsed) with
      rfl | isArgument
    · exact hasReceiver.mono
        (Lowering.closed_hasVariable.exprs
          (fun _ _ => Lowering.closed_hasVariable.expr) argumentsRan)
    · exact hasArguments operand isArgument

/--
A supported expression goes on, and the variable that it is held in is in the table.
-/
theorem expr_goesOn
    {expr : Expr}
    (supported : expr.isSupported symbols source true = true)
    (emittable : source.Emittable symbols state) :
    source.GoesOn symbols (Lower.expr symbols expr) state fun operand after =>
      after.Has operand := by
  induction expr generalizing state with
  | literal value =>
      cases value <;>
      · rw [Lower.expr]
        refine .pure emittable ?_
        rintro _ ⟨⟩
  | var name type =>
      rw [Expr.isSupported, Bool.and_eq_true] at supported
      rw [Lower.expr]
      apply nameRead_goesOn emittable (by simpa using supported.1)
      simpa only [Bool.not_eq_true', Bool.and_eq_false_iff] using supported.2
  | receiver type =>
      rw [Lower.expr]
      exact .pure emittable
        (emittable.has_receiver (by simpa [Expr.isSupported] using supported))
  | binary operator left right type leftHypothesis rightHypothesis =>
      rw [Expr.isSupported, Bool.and_eq_true] at supported
      rw [Lower.expr]
      refine operands_goesOn (leftHypothesis supported.1 emittable)
        (rightHypothesis supported.2) ?_
      exact fun _ _ _ operandsEmittable has =>
        intoTemporary_goesOn operandsEmittable rfl has
  | call target method arguments type targetHypothesis argumentsHypothesis =>
      rw [Lower.expr]
      refine (call_goesOn targetHypothesis argumentsHypothesis supported
        emittable).bind ?_
      rintro _ after _ callEmittable
        ⟨⟨kind, receiver, name, lowered, result, rfl, isCallable, hasResult⟩, has⟩
      have notVoid : result.isVoid = false := hasResult rfl
      unfold callValue
      simp only [notVoid, Bool.false_eq_true, if_false]
      exact intoTemporary_goesOn callEmittable
        (by simp [isEmittableValue, notVoid, isCallable]) has
  | newObject className type =>
      rw [Lower.expr]
      refine (intoTemporary_goesOn emittable rfl
        (by simp [Instr.used, Register.operandsOf])).bind ?_
      intro dest after ran storedEmittable hasDest
      have isType := intoTemporary_type ran
      have notLiteral := intoTemporary_isLiteral ran
      refine .after rfl (.pure (storedEmittable.emit _ ?_ ?_ ?_) ?_)
      · simp [Instr.construct, isEmittable, isCallable, notLiteral, isType,
          hasMethods]
      · simpa [Instr.construct, Instr.used, Register.operandsOf] using hasDest
      · rintro _ ⟨⟩
      · exact hasDest.mono (Lowering.closed_hasVariable.emit _ _)
  | newArray size type sizeHypothesis =>
      rw [Expr.isSupported, Bool.and_eq_true, Bool.and_eq_true, decide_eq_true_eq]
        at supported
      rcases supported with ⟨⟨isArray, notVoid⟩, sizeSupported⟩
      rw [Lower.expr]
      refine (sizeHypothesis sizeSupported emittable).bind ?_
      intro operand after _ sizeEmittable hasSize
      apply intoTemporary_goesOn sizeEmittable
      · exact TypeName.isCreatable_of_isArray isArray notVoid
      · simpa [Instr.used, Register.operandsOf] using hasSize
  | element array index type => cases supported
  | length array type => cases supported

/-- The value of an assignment goes on to an instruction that can be stored. -/
theorem value_goesOn
    {expr : Expr}
    (supported : expr.isSupported symbols source true = true)
    (emittable : source.Emittable symbols state) :
    source.GoesOn symbols (Lower.value symbols expr) state fun instr after =>
      isEmittableValue instr = true ∧ ∀ operand ∈ instr.used,
        after.Has operand := by
  cases expr with
  | binary operator left right type =>
      rw [Expr.isSupported, Bool.and_eq_true] at supported
      refine operands_goesOn (expr_goesOn supported.1 emittable)
        (expr_goesOn supported.2) ?_
      exact fun _ _ _ operandsEmittable has => .pure operandsEmittable ⟨rfl, has⟩
  | call target method arguments type =>
      rcases call_goesOn expr_goesOn (fun _ _ => expr_goesOn) supported
        emittable with
        ⟨_, after, ran, callEmittable,
          ⟨kind, receiver, name, lowered, result, rfl, isCallable, hasResult⟩, has⟩
      exact ⟨_, after, ran, callEmittable,
        by simp [isEmittableValue, hasResult, isCallable], has⟩
  | newObject className type =>
      exact .pure emittable ⟨rfl, by simp [Instr.used, Register.operandsOf]⟩
  | newArray size type =>
      rw [Expr.isSupported, Bool.and_eq_true, Bool.and_eq_true, decide_eq_true_eq]
        at supported
      rcases supported with ⟨⟨isArray, notVoid⟩, sizeSupported⟩
      refine (expr_goesOn sizeSupported emittable).bind ?_
      intro operand after _ sizeEmittable hasSize
      refine .pure sizeEmittable
        ⟨TypeName.isCreatable_of_isArray isArray notVoid, ?_⟩
      simpa [Instr.used, Register.operandsOf] using hasSize
  | _ =>
      refine (expr_goesOn supported emittable).bind ?_
      intro operand after _ exprEmittable has
      refine .pure exprEmittable ⟨rfl, ?_⟩
      simpa [Instr.used, Register.operandsOf] using has

/-- What goes on under an assignment that has a value goes on. -/
theorem underAssignment_goesOn
    {α : Type}
    {step : Lower α}
    {type : TypeName}
    {result : α → Lowering → Prop}
    (emittable : source.Emittable symbols state)
    (notVoid : type.isVoid = false)
    (stays : ∀ {value inner}, result value inner →
      result value { inner with assigned? := state.assigned? })
    (goesOn :
      source.Emittable symbols { state with assigned? := some type } →
        source.GoesOn symbols step { state with assigned? := some type } result) :
    source.GoesOn symbols (underAssignment type step) state result := by
  have under : source.Emittable symbols { state with assigned? := some type } := by
    refine emittable.withAssigned ?_
    rintro _ ⟨⟩
    exact notVoid
  rcases goesOn under with ⟨value, inner, ran, innerEmittable, met⟩
  refine ⟨value, { inner with assigned? := state.assigned? }, ?_,
    innerEmittable.withAssigned emittable.assigned, stays met⟩
  rw [underAssignment, ran]

/--
An assignment to a variable goes on; a new object needs a declared
type that has methods.
-/
theorem assignVariable_goesOn
    {name : String}
    {type : TypeName}
    {expr : Expr}
    (notField : symbols.isField source.name name = false)
    (notVoid : type.isVoid = false)
    (supported : expr.isSupported symbols source true = true)
    (assignsObject :
      (Stmt.assign name type expr).assignsObject symbols source.name = true)
    (emittable : source.Emittable symbols state) :
    source.GoesOn symbols (assignVariable symbols name type expr) state fun _ _ =>
      True := by
  refine (underAssignment_goesOn emittable notVoid id (value_goesOn supported)).bind
    ?_
  rintro stored inner storedRan innerEmittable ⟨isValue, has⟩
  refine .after rfl (.after rfl ?_)
  generalize (if inner.isParam name = true then Code.Scope.param else .localVar) =
    scope
  have declared := innerEmittable.declare name (.ofTypeName type) scope
  have hasName := innerEmittable.hasVariable_declare name (.ofTypeName type) scope
  have hasDest :
      (inner.changeMethod fun method =>
        method.declare name (.ofTypeName type) scope).Has
        (.var name (.ofTypeName type)) := by
    rintro _ ⟨⟩
    exact hasName
  have emitted :=
    declared.emit (.store (.var name (.ofTypeName type)) stored)
      (by simp [Instr.store, isEmittable, isValue, Operand.isLiteral])
      (fun operand isUsed =>
        (has operand isUsed).mono (inner.hasVariable_mono_declare _ _ _))
      hasDest
  refine .after rfl ?_
  cases isNew : stored.isNewObject with
  | false => exact .pure emitted trivial
  | true =>
      -- The constructor is called on the variable, so its declared type has to have
      -- methods.
      rcases underAssignment_ok storedRan with ⟨_, valueRan, _⟩
      rcases (Scene.value_isNewObject valueRan).mp isNew with
        ⟨className, annotated, rfl⟩
      have isObject : type.isObject = true := by
        simpa [Stmt.assignsObject, notField] using assignsObject
      refine ⟨(), _, rfl,
        emitted.emit (.construct (.var name (.ofTypeName type))) ?_ ?_ ?_, trivial⟩
      · simp [Instr.construct, isEmittable, isCallable, Operand.isLiteral,
          Operand.type, TypeName.hasMethods_of_isObject isObject]
      · simpa [Instr.construct, Instr.used, Register.operandsOf] using
          hasDest.mono (Lowering.closed_hasVariable.emit _ _)
      · rintro _ ⟨⟩

/-- A supported statement goes on. -/
theorem stmt_goesOn
    {stmt : Stmt}
    (supported : stmt.isSupported symbols source = true)
    (assignsObject : stmt.assignsObject symbols source.name = true)
    (emittable : source.Emittable symbols state) :
    source.GoesOn symbols (Lower.stmt symbols stmt) state fun _ _ => True := by
  cases stmt with
  | assign name type expr =>
      rw [Stmt.isSupported, Bool.and_eq_true, Bool.and_eq_true, Bool.not_eq_true']
        at supported
      rcases supported with ⟨⟨notVoid, reachable⟩, exprSupported⟩
      refine .after rfl ?_
      rw [emittable.running.isField]
      cases isField : symbols.isField source.name name with
      | false =>
          exact assignVariable_goesOn isField notVoid exprSupported assignsObject
            emittable
      | true =>
          have notStatic : source.isStatic = false := by
            simpa [isField] using reachable
          refine (underAssignment_goesOn emittable notVoid id
            (expr_goesOn exprSupported)).bind ?_
          intro stored inner _ innerEmittable has
          refine ⟨(), _, rfl, innerEmittable.emit _ rfl ?_ ?_, trivial⟩
          · simpa [Instr.used, Register.operandsOf] using
              And.intro (innerEmittable.has_receiver notStatic) has
          · rintro _ ⟨⟩
  | evaluate expr =>
      cases expr with
      | call target method arguments type =>
          refine (call_goesOn expr_goesOn (fun _ _ => expr_goesOn) supported
            emittable).bind ?_
          rintro _ after _ callEmittable
            ⟨⟨kind, receiver, name, lowered, result, rfl, isCallable, _⟩, has⟩
          refine ⟨(), _, rfl, callEmittable.emit _ isCallable has ?_, trivial⟩
          rintro _ ⟨⟩
      | _ =>
          rw [Stmt.isSupported, Expr.isSupported_of_no_call rfl false true]
            at supported
          refine (expr_goesOn supported emittable).bind ?_
          intro operand after _ exprEmittable _
          exact .pure exprEmittable trivial
  | ret result =>
      cases result with
      | none =>
          refine .after rfl ⟨(), _, rfl, emittable.emit _ rfl ?_ ?_, trivial⟩
          · simp [Instr.used, Register.operandsOf]
          · rintro _ ⟨⟩
      | some expr =>
          refine .after rfl ((expr_goesOn supported emittable).bind ?_)
          intro operand after _ exprEmittable has
          refine ⟨(), _, rfl, exprEmittable.emit _ rfl ?_ ?_, trivial⟩
          · simpa [Instr.used, Register.operandsOf] using has
          · rintro _ ⟨⟩

theorem stmts_goesOn
    {stmts : List Stmt}
    (supported : ∀ stmt ∈ stmts, stmt.isSupported symbols source = true)
    (objects : ∀ stmt ∈ stmts, stmt.assignsObject symbols source.name = true)
    (emittable : source.Emittable symbols state) :
    source.GoesOn symbols (Lower.stmts symbols stmts) state fun _ _ => True := by
  induction stmts generalizing state with
  | nil => exact .pure emittable trivial
  | cons first rest inductionHypothesis =>
      rw [List.forall_mem_cons] at supported objects
      refine (stmt_goesOn supported.1 objects.1 emittable).bind ?_
      intro _ between _ firstEmittable _
      exact inductionHypothesis supported.2 objects.2 firstEmittable

/-- A supported method is lowered, and all of its code can be emitted. -/
theorem method_emits
    (supported : ∀ stmt ∈ source.body, stmt.isSupported symbols source = true)
    (objects : ∀ stmt ∈ source.body, stmt.assignsObject symbols source.name = true)
    (unassigned : state.assigned? = none) :
    ∃ lowered after,
      Lower.method symbols source state = .ok lowered after ∧
        ∀ instr ∈ lowered.instrs,
          isEmittable instr = true ∧ Assembly.HasVariablesOf instr lowered := by
  have begun :
      source.Emittable symbols
        { state with current? := some (source.begin symbols.className) } := by
    refine ⟨.begin rfl, ?_, ?_⟩
    · rintro _ ⟨⟩
    · simp [unassigned]
  rcases stmts_goesOn supported objects begun with
    ⟨_, inner, stmtsRan, emittable, _⟩
  rcases emittable.running with ⟨method, isCurrent, _⟩
  have bodyRan : Lower.body symbols source state = .ok () inner :=
    bind_ok_iff.mpr ⟨(), _, rfl, stmtsRan⟩
  refine ⟨method.finish, { inner with current? := none }, ?_, ?_⟩
  · simp only [Lower.method, bodyRan, isCurrent, Option.getD_some]
  · have each : ∀ instr ∈ method.instrs,
        isEmittable instr = true ∧ Assembly.HasVariablesOf instr method.finish := by
      intro instr member
      have isInstrs : inner.instrs = method.instrs := by
        simp [Lowering.instrs, isCurrent]
      rcases emittable.each instr (isInstrs ▸ member) with ⟨isEmittable, has⟩
      refine ⟨isEmittable, hasVariablesOf_iff.mpr fun name needs => ?_⟩
      have member : name ∈ method.table := by
        simpa [Lowering.hasVariable, isCurrent] using has name needs
      exact member
    rcases method.finish_instrs with isFinished | isFinished
    · rw [isFinished]
      exact each
    · rw [isFinished, List.forall_mem_append, List.forall_mem_singleton]
      refine ⟨each, rfl, ?_, ?_⟩
      · simp [Instr.used, Register.operandsOf]
      · rintro _ ⟨⟩

/-- Supported methods are lowered one after the other. -/
theorem methods_ok
    {methods : List MethodDef}
    (each :
      ∀ source ∈ methods, ∀ {state},
        state.assigned? = none →
        ∃ lowered after, Lower.method symbols source state = .ok lowered after)
    (unassigned : state.assigned? = none) :
    ∃ after, Lower.methods symbols methods state = .ok () after := by
  induction methods generalizing state with
  | nil => exact ⟨state, rfl⟩
  | cons first rest inductionHypothesis =>
      rcases each first List.mem_cons_self unassigned with ⟨lowered, between, ran⟩
      have stillUnassigned : between.assigned? = none := by
        rcases Lower.method_ok ran with ⟨inner, stmtsRan, _, rfl⟩
        exact (Lowering.closed_output_assigned.stmts stmtsRan).2.trans unassigned
      have restOk :=
        @inductionHypothesis
          { between with
            output :=
              { between.output with
                methods := between.output.methods ++ [lowered] } }
          (fun source member => each source (List.mem_cons_of_mem _ member))
            stillUnassigned
      rcases restOk with ⟨after, restRan⟩
      exact ⟨after,
        bind_ok_iff.mpr
          ⟨lowered, between, ran, bind_ok_iff.mpr ⟨(), _, rfl, restRan⟩⟩⟩

end Lower

/--
A program of supported methods is lowered, and all of its code can be emitted.
-/
theorem Program.lower_emits
    {symbols : Symbols}
    {program : Program}
    (supported :
      ∀ source ∈ program.mainClass.methods, ∀ stmt ∈ source.body,
        stmt.isSupported symbols source = true)
    (objects :
      ∀ source ∈ program.mainClass.methods, ∀ stmt ∈ source.body,
        stmt.assignsObject symbols source.name = true) :
    ∃ code,
      program.lower symbols = .ok code ∧
        ∀ method ∈ code.methods, ∀ instr ∈ method.instrs,
          isEmittable instr = true ∧ Assembly.HasVariablesOf instr method := by
  have methodsRan :=
    @Lower.methods_ok symbols (.start symbols) program.mainClass.methods
      (fun source member _ unassigned => by
        rcases Lower.method_emits (supported source member) (objects source member)
          unassigned with
          ⟨lowered, after, ran, _⟩
        exact ⟨lowered, after, ran⟩)
      rfl
  rcases methodsRan with ⟨final, ran⟩
  have lowered : program.lower symbols = .ok final.output := by
    rw [Program.lower, ran]
  refine ⟨final.output, lowered, ?_⟩
  have related :
      List.Forall₂
        (fun _ method =>
          ∀ instr ∈ method.instrs,
            isEmittable instr = true ∧ Assembly.HasVariablesOf instr method)
        program.mainClass.methods final.output.methods := by
    refine (Program.lower_forall₂ ?_ lowered).1
    intro source member state after method unassigned methodRan
    rcases Lower.method_emits (supported source member) (objects source member)
      unassigned with
      ⟨_, _, sameRan, emits⟩
    cases methodRan.symm.trans sameRan
    exact emits
  intro method isMethod
  rcases forall₂_mem_right related isMethod with ⟨_, _, emits⟩
  exact emits

end MiniJava
