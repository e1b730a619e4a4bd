import MiniJava.Proofs.LoweredMethods
import MiniJava.Proofs.Semantics.Sites

namespace MiniJava

/-!
# Calls of a body and of its code

The code of a method makes the calls of its body, in the order in which the
body makes them. A new object counts as a call of its constructor, and the code
that creates it is followed by that call at once.
-/

open Code (Operand ValueType CallKind Instr)

namespace Code

/-- A call in code. -/
structure Call where
  kind : CallKind
  target : Operand
  method : String
  arguments : List Operand
  result : ValueType

/-- The call that an instruction makes. -/
def Instr.call? : Instr → Option Call
  | .call kind target method arguments result =>
      some ⟨kind, target, method, arguments, result⟩
  | .assign _ _ (.call kind target method arguments result) =>
      some ⟨kind, target, method, arguments, result⟩
  | _ => none

/-- Whether an instruction makes no call and creates no object. -/
def Instr.isPlain : Instr → Bool
  | .call _ _ _ _ _ => false
  | .assign _ _ (.call _ _ _ _ _) => false
  | .assign _ _ (.newObject _ _) => false
  | _ => true

end Code

/--
What callers see of a method: its name and the types of its parameters and result.
-/
def Code.Method.header
    (method : Code.Method) : String × List ValueType × ValueType :=
  (method.name, method.params.map Operand.type, method.returnType)

/-- At most a return is added at the end of a method. -/
theorem Code.Method.finish_instrs
    (method : Code.Method) :
    method.finish.instrs = method.instrs ∨
      method.finish.instrs = method.instrs ++ [.ret .void none] := by
  simp only [Code.Method.finish, Code.Method.withStraightFlow]
  split
  · exact .inr rfl
  · exact .inl rfl

namespace MethodDef

variable (symbols : Symbols) (source : MethodDef)

/-- A call in code is that of a call in the body. -/
structure Makes
    (found : CallKind)
    (target : Expr)
    (method : String)
    (arguments : List Expr)
    (type : TypeName)
    (call : Code.Call) : Prop where
  kind : found ≠ .static → call.kind = symbols.objectCallKind target.type method
  target :
    found ≠ .static →
      symbols.keepsType source.name target = true →
        call.target.type = .ofTypeName target.type
  arguments :
    List.Forall₂
      (fun argument operand =>
        symbols.keepsType source.name argument = true →
          operand.type = .ofTypeName argument.type)
      arguments call.arguments
  result : type.isImported = false → call.result = .ofTypeName type
  method : call.method = method

/-- Instructions make calls one after the other, and construct what they create. -/
inductive Links : List Site → List Instr → Prop where
  | nothing : Links [] []
  | plain
      {sites : List Site}
      {instrs : List Instr}
      {instr : Instr}
      (isPlain : instr.isPlain = true)
      (rest : Links sites instrs) :
      Links sites (instr :: instrs)
  | call
      {sites : List Site}
      {instrs : List Instr}
      {instr : Instr}
      {call : Code.Call}
      {kind : CallKind}
      {target : Expr}
      {method : String}
      {arguments : List Expr}
      {type : TypeName}
      (isCall : instr.call? = some call)
      (makes : source.Makes symbols kind target method arguments type call)
      (rest : Links sites instrs) :
      Links (.call kind target method arguments type :: sites) (instr :: instrs)
  | creation
      {sites : List Site}
      {instrs : List Instr}
      {className : String}
      (dest : Operand)
      (rest : Links sites instrs) :
      Links (.creation className dest.type :: sites)
        (.store dest (.newObject className (.object className)) :: .construct
          dest :: instrs)

variable {symbols source}

namespace Links

theorem append
    {first second : List Site}
    {instrs others : List Instr}
    (former : source.Links symbols first instrs)
    (latter : source.Links symbols second others) :
    source.Links symbols (first ++ second) (instrs ++ others) := by
  induction former with
  | nothing => exact latter
  | plain isPlain _ inductionHypothesis => exact .plain isPlain inductionHypothesis
  | call isCall makes _ inductionHypothesis =>
      exact .call isCall makes inductionHypothesis
  | creation dest _ inductionHypothesis => exact .creation dest inductionHypothesis

end Links

/--
The method is in progress, as it began but for its code and more variables, the
given names among them.
-/
def Running
    (symbols : Symbols)
    (source : MethodDef)
    (declared : List String)
    (state : Lowering) : Prop :=
  ∃ method,
    state.current? = some method ∧
      method =
          { source.begin symbols.className with
            instrs := method.instrs
            table := method.table } ∧
        ∀ name ∈ declared, name ∈ method.table

namespace Running

variable {declared : List String} {state : Lowering}

theorem mono
    {fewer : List String}
    (running : source.Running symbols declared state)
    (subset : fewer ⊆ declared) :
    source.Running symbols fewer state := by
  rcases running with ⟨method, isCurrent, begun, keeps⟩
  exact ⟨method, isCurrent, begun, fun name member => keeps name (subset member)⟩

/-- A method begins with its receiver and its parameters. -/
theorem begin
    (isCurrent : state.current? = some (source.begin symbols.className)) :
    source.Running symbols (source.firstNames symbols) state :=
  ⟨_, isCurrent, rfl, fun _ => mem_firstNames.mp⟩

theorem declare
    (running : source.Running symbols declared state)
    (name : String)
    (type : ValueType)
    (scope : Code.Scope) :
    source.Running symbols (declared.insert name)
      (state.changeMethod fun method => method.declare name type scope) := by
  rcases running with ⟨method, isCurrent, begun, keeps⟩
  refine ⟨method.declare name type scope,
    by simp [Lowering.changeMethod, isCurrent], ?_, ?_⟩
  · unfold Code.Method.declare
    split
    · exact begun
    · rw [begun]
  · intro other member
    rw [List.mem_insert_iff] at member
    unfold Code.Method.declare
    split
    case isTrue isDeclared =>
      rcases member with rfl | member
      · exact isDeclared
      · exact keeps other member
    case isFalse =>
      rcases member with rfl | member
      · exact Std.ExtTreeMap.mem_insert_self
      · exact Std.ExtTreeMap.mem_insert.mpr (.inr (keeps other member))

theorem emit
    (running : source.Running symbols declared state)
    (instr : Instr) :
    source.Running symbols declared
      (state.changeMethod fun method =>
        { method with instrs := method.instrs ++ [instr] }) := by
  rcases running with ⟨method, isCurrent, begun, keeps⟩
  refine ⟨{ method with instrs := method.instrs ++ [instr] },
    by simp [Lowering.changeMethod, isCurrent], ?_, keeps⟩
  rw [begun]

theorem instrs_emit
    (running : source.Running symbols declared state)
    (instr : Instr) :
    (state.changeMethod fun method =>
        { method with instrs := method.instrs ++ [instr] }).instrs =
      state.instrs ++ [instr] := by
  rcases running with ⟨method, isCurrent, _⟩
  simp [Lowering.instrs, Lowering.changeMethod, isCurrent]

theorem methodName
    (running : source.Running symbols declared state) :
    state.methodName = source.name := by
  rcases running with ⟨method, isCurrent, begun, _⟩
  have isName : method.name = source.name := by
    rw [begun]
    rfl
  simp [Lowering.methodName, isCurrent, isName]

theorem isField
    (running : source.Running symbols declared state)
    (name : String) :
    state.isField symbols name = symbols.isField source.name name := by
  rw [Lowering.isField, running.methodName]

/-- The parameters of a method in progress are those that it began with. -/
theorem isParam
    (running : source.Running symbols declared state)
    (name : String) :
    state.isParam name = (source.begin symbols.className).isParam name := by
  rcases running with ⟨method, isCurrent, begun, _⟩
  rw [Lowering.isParam, isCurrent, begun]
  rfl

/--
A call that is not static by the names declared so far is not static in the code.
-/
theorem notStatic
    (running : source.Running symbols declared state)
    {target : Expr}
    {name : String}
    (notStatic : source.callKind symbols declared target name ≠ .static) :
    state.callKind symbols target name ≠ .static := by
  refine Symbols.not_static_mono (fun called isShadowed => ?_) notStatic
  have isName := running.methodName
  rcases running with ⟨method, isCurrent, _, keeps⟩
  have isKept := keeps called
  simp only [MethodDef.shadows, Bool.or_eq_true, decide_eq_true_eq] at isShadowed
  simp only [Lowering.shadows, Lowering.isField, isName, Lowering.hasVariable,
    isCurrent, Bool.or_eq_true]
  grind

end Running

/--
Across a part of lowering, instructions are added that make the calls, and the given
names are declared after it.
-/
def Adds
    (symbols : Symbols)
    (source : MethodDef)
    (declared : List String)
    (state after : Lowering)
    (sites : List Site) : Prop :=
  source.Running symbols declared after ∧
    ∃ added,
      after.instrs = state.instrs ++ added ∧ source.Links symbols sites added

namespace Adds

variable {declared : List String} {state between after : Lowering}
  {sites : List Site}

theorem nothing
    (running : source.Running symbols declared state) :
    source.Adds symbols declared state state [] :=
  ⟨running, [], by simp, .nothing⟩

theorem trans
    {earlier : List String}
    {first second : List Site}
    (former : source.Adds symbols earlier state between first)
    (latter : source.Adds symbols declared between after second) :
    source.Adds symbols declared state after (first ++ second) := by
  obtain ⟨_, added, isBetween, links⟩ := former
  obtain ⟨running, others, isAfter, linksOthers⟩ := latter
  exact ⟨running, added ++ others, by simp [isAfter, isBetween],
    links.append linksOthers⟩

theorem mono
    {fewer : List String}
    (adds : source.Adds symbols declared state after sites)
    (subset : fewer ⊆ declared) :
    source.Adds symbols fewer state after sites :=
  ⟨adds.1.mono subset, adds.2⟩

theorem declare
    (running : source.Running symbols declared state)
    (name : String)
    (type : ValueType)
    (scope : Code.Scope) :
    source.Adds symbols (declared.insert name) state
      (state.changeMethod fun method => method.declare name type scope) [] :=
  ⟨running.declare name type scope, [], by simp [Scene.instrs_declare], .nothing⟩

theorem emit
    {instr : Instr}
    (running : source.Running symbols declared state)
    (links : source.Links symbols sites [instr]) :
    source.Adds symbols declared state
      (state.changeMethod fun method =>
        { method with instrs := method.instrs ++ [instr] })
      sites :=
  ⟨running.emit instr, [instr], running.instrs_emit instr, links⟩

/-- A new object is stored and then constructed. -/
theorem creation
    (running : source.Running symbols declared state)
    (className : String)
    (dest : Operand) :
    source.Adds symbols declared state
      ((state.changeMethod fun method =>
          { method with
            instrs :=
              method.instrs ++
                [.store dest
                  (.newObject className (.object className))] }).changeMethod
        fun method => { method with instrs := method.instrs ++ [.construct dest] })
      [.creation className dest.type] := by
  have stored :=
    running.emit (.store dest (.newObject className (.object className)))
  refine ⟨stored.emit (.construct dest), _, ?_, .creation dest .nothing⟩
  rw [stored.instrs_emit, running.instrs_emit, List.append_assoc]
  rfl

end Adds

end MethodDef

/--
The result of a call has the type of its annotation, unless that is
only known by an import.
-/
theorem Lowering.callResult_of_not_imported
    (state : Lowering)
    {type : TypeName}
    (used : Bool)
    (notImported : type.isImported = false) :
    state.callResult type used = .ofTypeName type := by
  simp [Lowering.callResult, TypeName.callResult, notImported]

namespace Lower

variable {symbols : Symbols} {source : MethodDef} {declared : List String}
  {state after : Lowering}

/-- A new temporary adds no site. -/
theorem temporary_adds
    {type : ValueType}
    {dest : Operand}
    (running : source.Running symbols declared state)
    (ran : temporary symbols type state = .ok dest after) :
    source.Adds symbols declared state after [] := by
  obtain ⟨rfl, rfl⟩ := temporary_ok ran
  have counted :
      source.Running symbols declared
        { state with nextTemporary := state.freshNumber symbols + 1 } :=
    running
  exact (MethodDef.Adds.declare counted _ _ _).mono (List.subset_insert _ _)

/-- A value goes into a temporary of its type. -/
theorem intoTemporary_type
    {type : ValueType}
    {value : Instr}
    {dest : Operand}
    (ran : intoTemporary symbols type value state = .ok dest after) :
    dest.type = type := by
  obtain ⟨_, temporaryRan, _⟩ := intoTemporary_ok ran
  obtain ⟨rfl, _⟩ := temporary_ok temporaryRan
  rfl

/--
A value that is stored in a temporary makes the calls that its instruction makes.
-/
theorem intoTemporary_adds
    {type : ValueType}
    {value : Instr}
    {dest : Operand}
    {sites : List Site}
    (running : source.Running symbols declared state)
    (links : ∀ dest, source.Links symbols sites [.store dest value])
    (ran : intoTemporary symbols type value state = .ok dest after) :
    source.Adds symbols declared state after sites := by
  obtain ⟨named, temporaryRan, rfl⟩ := intoTemporary_ok ran
  have temporaryAdds := temporary_adds running temporaryRan
  exact temporaryAdds.trans (.emit temporaryAdds.1 (links dest))

/--
A name that is read is declared, unless it is a field, a class or a parameter.
-/
theorem nameRead_adds
    {name : String}
    {type : TypeName}
    {operand : Operand}
    (running : source.Running symbols declared state)
    (ran : nameRead symbols name type state = .ok operand after) :
    source.Adds symbols (source.afterExpr symbols declared (.var name type))
      state after [] := by
  obtain ⟨_, _, gotten, rest⟩ := bind_ok_iff.mp ran
  obtain ⟨rfl, rfl⟩ := get_ok_iff.mp gotten
  rw [running.isField, running.isParam] at rest
  rw [MethodDef.afterExpr]
  split at rest
  case isTrue isField =>
    rw [if_neg (by simp [MethodDef.declaresOnRead, isField])]
    exact intoTemporary_adds running (fun _ => .plain rfl .nothing) rest
  case isFalse notField =>
    split at rest
    case isTrue isImported =>
      obtain ⟨_, rfl⟩ := pure_ok_iff.mp rest
      rw [if_neg (by simp [MethodDef.declaresOnRead, isImported])]
      exact .nothing running
    case isFalse notImported =>
      split at rest
      case isTrue notParam =>
        obtain ⟨_, _, declares, returned⟩ := bind_ok_iff.mp rest
        obtain rfl := modify_ok_iff.mp declares
        obtain ⟨_, rfl⟩ := pure_ok_iff.mp returned
        rw [if_pos (by simp_all [MethodDef.declaresOnRead])]
        exact .declare running _ _ _
      case isFalse isParam =>
        obtain ⟨_, rfl⟩ := pure_ok_iff.mp rest
        rw [if_neg (by simp_all [MethodDef.declaresOnRead])]
        exact .nothing running

/-- The operand of an expression has the type of its annotation, if that is kept. -/
theorem expr_type
    {expr : Expr}
    {operand : Operand}
    (running : source.Running symbols declared state)
    (keepsType : symbols.keepsType source.name expr = true)
    (ran : Lower.expr symbols expr state = .ok operand after) :
    operand.type = .ofTypeName expr.type := by
  cases expr with
  | literal value =>
      cases value <;>
      · rw [Lower.expr] at ran
        obtain ⟨rfl, _⟩ := pure_ok_iff.mp ran
        rfl
  | var name type =>
      rw [Lower.expr] at ran
      obtain ⟨_, _, gotten, ran⟩ := bind_ok_iff.mp ran
      obtain ⟨rfl, rfl⟩ := get_ok_iff.mp gotten
      rw [running.isField] at ran
      cases isField : symbols.isField source.name name with
      | true =>
          simp only [isField, if_true] at ran
          simp only [Symbols.keepsType, isField, if_true, decide_eq_true_eq]
            at keepsType
          rw [intoTemporary_type ran, keepsType]
          rfl
      | false =>
          simp only [Symbols.keepsType, isField, Bool.false_eq_true, if_false,
            Bool.not_eq_true'] at keepsType
          simp only [isField, keepsType, Bool.false_eq_true, if_false] at ran
          split at ran
          · obtain ⟨_, _, _, returned⟩ := bind_ok_iff.mp ran
            obtain ⟨rfl, _⟩ := pure_ok_iff.mp returned
            rfl
          · obtain ⟨rfl, _⟩ := pure_ok_iff.mp ran
            rfl
  | receiver type =>
      rw [Lower.expr] at ran
      obtain ⟨rfl, _⟩ := pure_ok_iff.mp ran
      exact (of_decide_eq_true keepsType).symm
  | binary operator left right type =>
      rw [Lower.expr] at ran
      obtain ⟨_, _, _, ran⟩ := bind_ok_iff.mp ran
      obtain ⟨_, _, _, stored⟩ := bind_ok_iff.mp ran
      exact intoTemporary_type stored
  | call target method arguments type =>
      rw [Lower.expr] at ran
      obtain ⟨_, _, callRan, valueRan⟩ := bind_ok_iff.mp ran
      obtain ⟨_, _, _, rfl, _⟩ := callWith_ok callRan
      rw [intoTemporary_type (callValue_ok valueRan)]
      exact Lowering.callResult_of_not_imported _ true
        (by simpa [Symbols.keepsType] using keepsType)
  | newObject className type =>
      rw [Lower.expr] at ran
      obtain ⟨_, _, stored, ran⟩ := bind_ok_iff.mp ran
      obtain ⟨_, _, _, returned⟩ := bind_ok_iff.mp ran
      obtain ⟨rfl, _⟩ := pure_ok_iff.mp returned
      rw [intoTemporary_type stored]
      exact (of_decide_eq_true keepsType).symm
  | newArray size type =>
      rw [Lower.expr] at ran
      obtain ⟨_, _, _, stored⟩ := bind_ok_iff.mp ran
      exact intoTemporary_type stored
  | element array index type =>
      rw [Lower.expr] at ran
      obtain ⟨_, _, _, ran⟩ := bind_ok_iff.mp ran
      obtain ⟨_, _, _, stored⟩ := bind_ok_iff.mp ran
      exact intoTemporary_type stored
  | length array type =>
      rw [Lower.expr] at ran
      obtain ⟨_, _, _, stored⟩ := bind_ok_iff.mp ran
      exact intoTemporary_type stored

/-- Lowering an expression adds instructions that make its calls. -/
def ExprAdds (symbols : Symbols) (source : MethodDef) (expr : Expr) : Prop :=
  ∀ {declared state after operand},
    source.Running symbols declared state →
    Lower.expr symbols expr state = .ok operand after →
    source.Adds symbols (source.afterExpr symbols declared expr) state after
      (source.exprSites symbols declared expr)

/-- Expressions that are lowered one by one make their calls one by one. -/
theorem exprs_adds
    {exprs : List Expr}
    {operands : List Operand}
    (each : ∀ expr ∈ exprs, ExprAdds symbols source expr)
    (running : source.Running symbols declared state)
    (ran : Lower.exprs symbols exprs state = .ok operands after) :
    source.Adds symbols (source.afterExprs symbols declared exprs) state after
        (source.exprsSites symbols declared exprs) ∧
      List.Forall₂
        (fun expr operand =>
          symbols.keepsType source.name expr = true →
            operand.type = .ofTypeName expr.type)
        exprs operands := by
  induction exprs generalizing declared state operands with
  | nil =>
      rw [Lower.exprs] at ran
      obtain ⟨rfl, rfl⟩ := pure_ok_iff.mp ran
      rw [MethodDef.afterExprs, MethodDef.exprsSites]
      exact ⟨.nothing running, .nil⟩
  | cons first rest inductionHypothesis =>
      rw [Lower.exprs] at ran
      obtain ⟨_, _, firstRan, ran⟩ := bind_ok_iff.mp ran
      obtain ⟨_, _, restRan, returned⟩ := bind_ok_iff.mp ran
      obtain ⟨rfl, rfl⟩ := pure_ok_iff.mp returned
      have firstAdds := each first List.mem_cons_self running firstRan
      obtain ⟨restAdds, restTypes⟩ :=
        inductionHypothesis
          (fun expr member => each expr (List.mem_cons_of_mem _ member))
          firstAdds.1 restRan
      rw [MethodDef.afterExprs, MethodDef.exprsSites]
      exact ⟨firstAdds.trans restAdds,
        .cons (fun keepsType => expr_type running keepsType firstRan) restTypes⟩

section

variable {target : Expr} {method : String}

/-- The target of a call is lowered, unless it is the class of a static call. -/
theorem target_adds
    {receiver : Operand}
    (onTarget : ExprAdds symbols source target)
    (running : source.Running symbols declared state)
    (ran :
      (∃ name annotated,
          target = .var name annotated ∧
            state.callKind symbols target method = .static ∧
            receiver = .classRef name ∧ after = state) ∨
        state.callKind symbols target method ≠ .static ∧
          Lower.expr symbols target state = .ok receiver after) :
    source.Adds symbols (source.afterTarget symbols declared target method)
      state after (source.exprSites symbols declared target) := by
  by_cases static : source.callKind symbols declared target method = .static
  · obtain ⟨name, annotated, rfl⟩ := Symbols.target_of_static static
    rw [MethodDef.afterTarget_of_static static]
    rcases ran with ⟨_, _, _, _, _, rfl⟩ | ⟨_, targetRan⟩
    · rw [MethodDef.exprSites]
      exact .nothing running
    · -- The code has more variables than the body declares, so the name may be one.
      exact (onTarget running targetRan).mono (MethodDef.subset_afterExpr _)
  · rw [MethodDef.afterTarget_of_not_static static]
    rcases ran with ⟨_, _, _, isStatic, _⟩ | ⟨_, targetRan⟩
    · exact absurd isStatic (running.notStatic static)
    · exact onTarget running targetRan

/-- The target and the arguments of a call are lowered, and then it is made. -/
theorem call_adds
    {arguments : List Expr}
    {type : TypeName}
    {used : Bool}
    {instr : Instr}
    (onTarget : ExprAdds symbols source target)
    (onArguments : ∀ argument ∈ arguments, ExprAdds symbols source argument)
    (running : source.Running symbols declared state)
    (ran :
      Lower.call symbols target method arguments type used state =
        .ok instr after) :
    source.Adds symbols
        (source.afterExpr symbols declared (.call target method arguments type))
          state after
        (source.exprSites symbols declared target ++
          source.exprsSites symbols
            (source.afterTarget symbols declared target method) arguments) ∧
      ∃ call,
        instr = .call call.kind call.target call.method call.arguments call.result ∧
          source.Makes symbols
            (source.callKind symbols declared target method) target
            method arguments type call := by
  obtain ⟨receiver, between, lowered, rfl, argumentsRan, targetRan⟩ :=
    callWith_ok ran
  have targetAdds := target_adds onTarget running targetRan
  obtain ⟨argumentsAdd, types⟩ := exprs_adds onArguments targetAdds.1 argumentsRan
  rw [MethodDef.afterExpr_call]
  refine ⟨targetAdds.trans argumentsAdd,
    ⟨state.callKind symbols target method, receiver, method, lowered,
      after.callResult type used⟩,
    rfl, ?_, ?_, types, Lowering.callResult_of_not_imported after used, rfl⟩
  · intro notStatic
    exact Symbols.callKind_of_not_static (running.notStatic notStatic)
  · intro notStatic keepsType
    rcases targetRan with ⟨_, _, _, static, _⟩ | ⟨_, targetRan⟩
    · exact absurd static (running.notStatic notStatic)
    · exact expr_type running keepsType targetRan

end

/-- Every expression adds instructions that make its calls. -/
theorem expr_adds
    (expr : Expr) :
    ExprAdds symbols source expr := by
  induction expr with
  | literal value =>
      intro declared state after operand running ran
      rw [MethodDef.afterExpr, MethodDef.exprSites]
      cases value <;>
      · rw [Lower.expr] at ran
        obtain ⟨_, rfl⟩ := pure_ok_iff.mp ran
        exact .nothing running
  | var name type =>
      intro declared state after operand running ran
      rw [Lower.expr] at ran
      rw [MethodDef.exprSites]
      exact nameRead_adds running ran
  | receiver type =>
      intro declared state after operand running ran
      rw [Lower.expr] at ran
      obtain ⟨_, rfl⟩ := pure_ok_iff.mp ran
      rw [MethodDef.afterExpr, MethodDef.exprSites]
      exact .nothing running
  | binary operator left right type leftHypothesis rightHypothesis =>
      intro declared state after operand running ran
      rw [Lower.expr] at ran
      obtain ⟨_, _, leftRan, ran⟩ := bind_ok_iff.mp ran
      obtain ⟨_, _, rightRan, stored⟩ := bind_ok_iff.mp ran
      have leftAdds := leftHypothesis running leftRan
      have rightAdds := rightHypothesis leftAdds.1 rightRan
      have storedAdds :=
        intoTemporary_adds rightAdds.1 (fun _ => .plain rfl .nothing) stored
      rw [MethodDef.afterExpr, MethodDef.exprSites]
      simpa using leftAdds.trans (rightAdds.trans storedAdds)
  | call target method arguments type targetHypothesis argumentsHypothesis =>
      intro declared state after operand running ran
      rw [Lower.expr] at ran
      obtain ⟨_, _, callRan, valueRan⟩ := bind_ok_iff.mp ran
      obtain ⟨partsAdd, call, rfl, makes⟩ :=
        call_adds targetHypothesis argumentsHypothesis running callRan
      rw [MethodDef.exprSites]
      exact partsAdd.trans
        (intoTemporary_adds partsAdd.1 (fun _ => .call rfl makes .nothing)
          (callValue_ok valueRan))
  | newObject className type =>
      intro declared state after operand running ran
      rw [Lower.expr] at ran
      obtain ⟨dest, _, stored, ran⟩ := bind_ok_iff.mp ran
      obtain ⟨_, _, emitted, returned⟩ := bind_ok_iff.mp ran
      obtain rfl := modify_ok_iff.mp emitted
      obtain ⟨_, rfl⟩ := pure_ok_iff.mp returned
      have isType := intoTemporary_type stored
      obtain ⟨_, temporaryRan, rfl⟩ := intoTemporary_ok stored
      have temporaryAdds := temporary_adds running temporaryRan
      have adds := temporaryAdds.trans (.creation temporaryAdds.1 className dest)
      rw [MethodDef.afterExpr, MethodDef.exprSites]
      rwa [isType] at adds
  | newArray size type sizeHypothesis =>
      intro declared state after operand running ran
      rw [Lower.expr] at ran
      obtain ⟨_, _, sizeRan, stored⟩ := bind_ok_iff.mp ran
      have sizeAdds := sizeHypothesis running sizeRan
      have storedAdds :=
        intoTemporary_adds sizeAdds.1 (fun _ => .plain rfl .nothing) stored
      rw [MethodDef.afterExpr, MethodDef.exprSites]
      simpa using sizeAdds.trans storedAdds
  | element array index type arrayHypothesis indexHypothesis =>
      intro declared state after operand running ran
      rw [Lower.expr] at ran
      obtain ⟨_, _, arrayRan, ran⟩ := bind_ok_iff.mp ran
      obtain ⟨_, _, indexRan, stored⟩ := bind_ok_iff.mp ran
      have arrayAdds := arrayHypothesis running arrayRan
      have indexAdds := indexHypothesis arrayAdds.1 indexRan
      have storedAdds :=
        intoTemporary_adds indexAdds.1 (fun _ => .plain rfl .nothing) stored
      rw [MethodDef.afterExpr, MethodDef.exprSites]
      simpa using arrayAdds.trans (indexAdds.trans storedAdds)
  | length array type arrayHypothesis =>
      intro declared state after operand running ran
      rw [Lower.expr] at ran
      obtain ⟨_, _, arrayRan, stored⟩ := bind_ok_iff.mp ran
      have arrayAdds := arrayHypothesis running arrayRan
      have storedAdds :=
        intoTemporary_adds arrayAdds.1 (fun _ => .plain rfl .nothing) stored
      rw [MethodDef.afterExpr, MethodDef.exprSites]
      simpa using arrayAdds.trans storedAdds

/--
The value of an assignment makes its calls, the outermost one where it is stored.
-/
theorem value_adds
    {expr : Expr}
    {instr : Instr}
    (running : source.Running symbols declared state)
    (ran : Lower.value symbols expr state = .ok instr after) :
    (∃ className annotated,
        expr = .newObject className annotated ∧
          instr = .newObject className (.object className) ∧
            source.Adds symbols declared state after []) ∨
      expr.created? = none ∧
        ∃ first last,
          source.exprSites symbols declared expr = first ++ last ∧
            source.Adds symbols (source.afterExpr symbols declared expr) state
              after first ∧
              ∀ dest, source.Links symbols last [.store dest instr] := by
  cases expr with
  | binary operator left right type =>
      obtain ⟨_, _, leftRan, ran⟩ := bind_ok_iff.mp ran
      obtain ⟨_, _, rightRan, returned⟩ := bind_ok_iff.mp ran
      obtain ⟨rfl, rfl⟩ := pure_ok_iff.mp returned
      have leftAdds := expr_adds left running leftRan
      have rightAdds := expr_adds right leftAdds.1 rightRan
      rw [MethodDef.afterExpr, MethodDef.exprSites]
      exact .inr ⟨rfl, _, [], (List.append_nil _).symm, leftAdds.trans rightAdds,
        fun _ => .plain rfl .nothing⟩
  | call target method arguments type =>
      obtain ⟨partsAdd, call, rfl, makes⟩ :=
        call_adds (expr_adds target) (fun argument _ => expr_adds argument)
          running ran
      rw [MethodDef.exprSites]
      exact .inr ⟨rfl, _, _, rfl, partsAdd, fun _ => .call rfl makes .nothing⟩
  | newObject className annotated =>
      obtain ⟨rfl, rfl⟩ := pure_ok_iff.mp ran
      exact .inl ⟨className, annotated, rfl, rfl, .nothing running⟩
  | newArray size type =>
      obtain ⟨_, _, sizeRan, returned⟩ := bind_ok_iff.mp ran
      obtain ⟨rfl, rfl⟩ := pure_ok_iff.mp returned
      rw [MethodDef.afterExpr, MethodDef.exprSites]
      exact .inr
        ⟨rfl, _, [], (List.append_nil _).symm, expr_adds size running sizeRan,
        fun _ => .plain rfl .nothing⟩
  | _ =>
      obtain ⟨_, _, exprRan, returned⟩ := bind_ok_iff.mp ran
      obtain ⟨rfl, rfl⟩ := pure_ok_iff.mp returned
      exact .inr ⟨rfl, _, [], (List.append_nil _).symm, expr_adds _ running exprRan,
        fun _ => .plain rfl .nothing⟩

/--
An assignment to a variable makes the calls of its value, and
constructs a new object.
-/
theorem assignVariable_adds
    {name : String}
    {type : TypeName}
    {expr : Expr}
    {value : Unit}
    (notField : symbols.isField source.name name = false)
    (running : source.Running symbols declared state)
    (ran : Lower.assignVariable symbols name type expr state = .ok value after) :
    source.Adds symbols
      (source.afterStmt symbols declared (.assign name type expr)) state
      after (source.stmtSites symbols declared (.assign name type expr)) := by
  obtain ⟨stored, inner, valueRan, constructRan⟩ := Lower.assignVariable_ok ran
  have runningInner :
      source.Running symbols declared { state with assigned? := some type } :=
    running
  rw [MethodDef.afterStmt, if_neg (by simp [notField])]
  rcases value_adds runningInner valueRan with
    ⟨className, annotated, rfl, rfl, valueAdds⟩ | ⟨notNew, first, last, isSites,
      valueAdds, links⟩
  · have before :
        source.Adds symbols declared state
          { inner with assigned? := state.assigned? } [] :=
      valueAdds
    obtain rfl := modify_ok_iff.mp constructRan
    have isSites :
        source.stmtSites symbols declared
            (.assign name type (.newObject className annotated)) =
          [] ++ ([] ++ [.creation className (.ofTypeName type)]) := by
      simp [MethodDef.stmtSites, MethodDef.assignedSites, Expr.created?, notField]
    rw [isSites, MethodDef.afterExpr]
    exact before.trans ((MethodDef.Adds.declare before.1 _ _ _).trans
      (.creation (before.1.declare _ _ _) className _))
  · have before :
        source.Adds symbols (source.afterExpr symbols declared expr) state
          { inner with assigned? := state.assigned? } first :=
      valueAdds
    have isSites :
        source.stmtSites symbols declared (.assign name type expr) =
          first ++ ([] ++ last) := by
      rw [MethodDef.stmtSites, MethodDef.assignedSites, notNew]
      exact isSites
    have isStored : stored.isNewObject = false := by
      rw [Bool.eq_false_iff, ne_eq, Scene.value_isNewObject valueRan]
      rintro ⟨className, annotated, rfl⟩
      cases notNew
    simp only [isStored, Bool.false_eq_true, if_false] at constructRan
    obtain ⟨_, rfl⟩ := pure_ok_iff.mp constructRan
    rw [isSites]
    exact before.trans ((MethodDef.Adds.declare before.1 _ _ _).trans
      (.emit (before.1.declare _ _ _) (links _)))

/-- A statement adds instructions that make its calls. -/
theorem stmt_adds
    {stmt : Stmt}
    {value : Unit}
    (running : source.Running symbols declared state)
    (ran : Lower.stmt symbols stmt state = .ok value after) :
    source.Adds symbols (source.afterStmt symbols declared stmt) state after
      (source.stmtSites symbols declared stmt) := by
  cases stmt with
  | assign name type expr =>
      obtain ⟨_, _, gotten, ran⟩ := bind_ok_iff.mp ran
      obtain ⟨rfl, rfl⟩ := get_ok_iff.mp gotten
      rw [running.isField] at ran
      cases isField : symbols.isField source.name name with
      | false =>
          simp only [isField, Bool.false_eq_true, if_false] at ran
          exact assignVariable_adds isField running ran
      | true =>
          simp only [isField, if_true] at ran
          obtain ⟨_, _, storedRan, emitted⟩ := bind_ok_iff.mp ran
          obtain ⟨inner, exprRan, rfl⟩ := Lower.underAssignment_ok storedRan
          obtain rfl := modify_ok_iff.mp emitted
          have runningInner :
              source.Running symbols declared
                { state with assigned? := some type } :=
            running
          have innerAdds := expr_adds expr runningInner exprRan
          have before :
              source.Adds symbols (source.afterExpr symbols declared expr) state
                { inner with assigned? := state.assigned? }
                (source.exprSites symbols declared expr) :=
            innerAdds
          have isSites :
              source.stmtSites symbols declared (.assign name type expr) =
                source.exprSites symbols declared expr ++ [] := by
            rw [List.append_nil, MethodDef.stmtSites, MethodDef.assignedSites]
            cases expr with
            | newObject className annotated =>
                simp [MethodDef.exprSites, Expr.created?, isField]
            | _ =>
                rfl
          rw [isSites, MethodDef.afterStmt, if_pos isField]
          exact before.trans (.emit before.1 (.plain rfl .nothing))
  | evaluate expr =>
      cases expr with
      | call target method arguments type =>
          obtain ⟨_, _, callRan, emitted⟩ := bind_ok_iff.mp ran
          obtain rfl := modify_ok_iff.mp emitted
          obtain ⟨partsAdd, call, rfl, makes⟩ :=
            call_adds (expr_adds target)
              (fun argument _ => expr_adds argument) running callRan
          rw [MethodDef.stmtSites, MethodDef.exprSites]
          exact partsAdd.trans (.emit partsAdd.1 (.call rfl makes .nothing))
      | _ =>
          obtain ⟨_, _, exprRan, returned⟩ := bind_ok_iff.mp ran
          obtain ⟨_, rfl⟩ := pure_ok_iff.mp returned
          exact expr_adds _ running exprRan
  | ret result =>
      cases result with
      | none =>
          obtain ⟨_, _, gotten, emitted⟩ := bind_ok_iff.mp ran
          obtain ⟨rfl, rfl⟩ := get_ok_iff.mp gotten
          obtain rfl := modify_ok_iff.mp emitted
          exact .emit running (.plain rfl .nothing)
      | some expr =>
          obtain ⟨_, _, gotten, ran⟩ := bind_ok_iff.mp ran
          obtain ⟨rfl, rfl⟩ := get_ok_iff.mp gotten
          obtain ⟨_, _, exprRan, emitted⟩ := bind_ok_iff.mp ran
          obtain rfl := modify_ok_iff.mp emitted
          have exprAdds := expr_adds expr running exprRan
          rw [MethodDef.stmtSites,
            ← List.append_nil (source.exprSites symbols declared expr)]
          exact exprAdds.trans (.emit exprAdds.1 (.plain rfl .nothing))

/-- Statements add instructions that make their calls, one after the other. -/
theorem stmts_adds
    {stmts : List Stmt}
    {value : Unit}
    (running : source.Running symbols declared state)
    (ran : Lower.stmts symbols stmts state = .ok value after) :
    ∃ later,
      source.Adds symbols later state after
        ((source.pointsFrom symbols declared stmts).flatMap
          (source.pointSites symbols)) := by
  induction stmts generalizing declared state with
  | nil =>
      obtain ⟨_, rfl⟩ := pure_ok_iff.mp ran
      exact ⟨declared, .nothing running⟩
  | cons first rest inductionHypothesis =>
      obtain ⟨_, _, firstRan, restRan⟩ := bind_ok_iff.mp ran
      have firstAdds := stmt_adds running firstRan
      obtain ⟨later, restAdds⟩ := inductionHypothesis firstAdds.1 restRan
      rw [MethodDef.pointsFrom, List.flatMap_cons]
      exact ⟨later, firstAdds.trans restAdds⟩

/--
The code of a method makes the calls of its body, under the header of the method.
-/
theorem method_links
    {lowered : Code.Method}
    (ran : Lower.method symbols source state = .ok lowered after) :
    source.Links symbols (source.sites symbols) lowered.instrs ∧
      lowered.header = (source.begin symbols.className).header := by
  rcases Lower.method_ok ran with ⟨inner, stmtsRan, rfl, _⟩
  have running :
      source.Running symbols (source.firstNames symbols)
        { state with current? := some (source.begin symbols.className) } :=
    .begin rfl
  rcases stmts_adds running stmtsRan with
    ⟨_, ⟨method, isCurrent, begun, _⟩, added, isAdded, links⟩
  have isInstrs : method.instrs = added := by
    simpa [Lowering.instrs, isCurrent, MethodDef.begin] using isAdded
  have sameHeader :
      method.finish.header = (source.begin symbols.className).header := by
    rw [begun]
    rfl
  rw [isCurrent, Option.getD_some]
  refine ⟨?_, sameHeader⟩
  rcases method.finish_instrs with isFinished | isFinished
  · rw [isFinished, isInstrs]
    exact links
  · rw [isFinished, isInstrs, ← List.append_nil (source.sites symbols)]
    exact links.append (.plain rfl .nothing)

end Lower

end MiniJava
