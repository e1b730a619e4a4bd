import MiniJava.Proofs.CallSites
import MiniJava.Proofs.EmissionVariables
import MiniJava.Proofs.MethodLimits

namespace MiniJava.Assembly

/-!
# Calls of emitted code

Of all that is emitted for an instruction, a call in code is one call of the
machine and a new object is one creation. Everything around them loads, stores
and computes, so the calls of an emitted body are those of its source.
-/

open Code (Operand ValueType CallKind Method ClassCode)

/--
The names and descriptors of the methods in an assembly text, the constructor first.
-/
def headers : List Line → List (String × String)
  | [] => []
  | .methodStart _ _ name descriptor :: rest => (name, descriptor) :: headers rest
  | _ :: rest => headers rest

theorem headers_append
    (first second : List Line) :
    headers (first ++ second) = headers first ++ headers second := by
  induction first with
  | nil => rfl
  | cons line rest inductionHypothesis =>
      cases line <;> simp [headers, inductionHypothesis]

theorem length_headers
    (lines : List Line) :
    (headers lines).length = (bodies lines).length := by
  induction lines with
  | nil => rfl
  | cons line rest inductionHypothesis =>
      cases line <;> simp [headers, bodies, inductionHypothesis]

/-- Bodies behind other lines are counted from the bodies of those lines on. -/
private theorem getElem?_bodies_append
    (first second : List Line)
    (index : Nat) :
    (bodies (first ++ second))[(bodies first).length + index]? =
      (bodies second)[index]? := by
  induction first with
  | nil => simp [bodies]
  | cons line rest inductionHypothesis =>
      cases line with
      | methodStart visibility isStatic name descriptor =>
          simpa [bodies, Nat.add_right_comm] using inductionHypothesis
      | _ => simpa [bodies] using inductionHypothesis

/--
Each method of an emitted class has a header, and its body is
emitted by instruction.
-/
theorem generate_segments
    {unit : ClassCode}
    {lines : List Line}
    {index : Nat}
    {method : Method}
    (generated : generate unit = .ok lines)
    (methodAt : unit.methods[index]? = some method) :
    (headers lines)[index + 1]? =
        some (method.name,
          unit.methodDescriptor (method.params.map Operand.type)
            method.returnType) ∧
      ∃ segments,
        (bodies lines)[index + 1]? = some segments.flatten ∧
          List.Forall₂ (EmittedFor unit method) method.instrs segments := by
  obtain ⟨state, methodsRan, rfl⟩ := generate_ok generated
  obtain ⟨_, _, _, _, each⟩ := methods_verified (.ofClass unit) methodsRan
  obtain ⟨before, after, limits, segments, isLines, isIndex, emitted, _⟩ :=
    each index method methodAt
  have isPlace : index + 1 = (bodies before).length := by
    rw [isIndex, length_bodies_classLines, Nat.add_comm]
  rw [isLines, List.append_assoc]
  refine ⟨?_, segments, ?_, emitted⟩
  · rw [headers_append, isPlace, ← length_headers,
      List.getElem?_append_right (Nat.le_refl _), Nat.sub_self, headers_append]
    rfl
  · rw [isPlace, ← Nat.add_zero (bodies before).length, getElem?_bodies_append,
      bodies_methodLines]
    rfl

/-- The class whose method a call calls. -/
def callee (unit : ClassCode) (call : Code.Call) : String :=
  match call.kind, call.target with
  | .static, .var name _ => unit.classPath name
  | _, target => Jvm.ownerPath unit target.type

/-- A method that is not static is called on the class of its target. -/
theorem callee_of_not_static
    (unit : ClassCode)
    {call : Code.Call}
    (notStatic : call.kind ≠ .static) :
    callee unit call = Jvm.ownerPath unit call.target.type := by
  rcases call with ⟨kind, target, method, arguments, result⟩
  cases kind with
  | static => exact absurd rfl notStatic
  | virtual => rfl
  | special => rfl

/-- A call in code as the machine makes it. -/
def invocation (unit : ClassCode) (call : Code.Call) : Jvm.Instr :=
  .invoke call.kind (callee unit call) call.method
    (unit.methodDescriptor (call.arguments.map Operand.type) call.result)
    call.arguments.length (!call.result.isVoid)

/-- The calls and the creations that are made for an instruction. -/
def notable (unit : ClassCode) : Code.Instr → List Jvm.Instr
  | .assign _ _ (.newObject className _) => [.newObject (unit.classPath className)]
  | other => other.call?.toList.map (invocation unit)

/-- Plain instructions are not notable. -/
theorem notable_of_isPlain
    (unit : ClassCode)
    {instr : Code.Instr}
    (isPlain : instr.isPlain = true) :
    notable unit instr = [] := by
  unfold Code.Instr.isPlain at isPlain
  unfold notable Code.Instr.call?
  grind

/-- A call is notable as its invocation. -/
theorem notable_of_call
    (unit : ClassCode)
    {instr : Code.Instr}
    {call : Code.Call}
    (isCall : instr.call? = some call) :
    notable unit instr = [invocation unit call] := by
  have isOther : notable unit instr = instr.call?.toList.map (invocation unit) := by
    unfold notable
    split
    · cases isCall
    · rfl
  rw [isOther, isCall]
  rfl

/-- Whether an instruction calls a method or creates an object. -/
def isNotable : Jvm.Instr → Bool
  | .invoke _ _ _ _ _ _ => true
  | .newObject _ => true
  | _ => false

/-- Whether an instruction calls a method. -/
def isInvoke : Jvm.Instr → Bool
  | .invoke _ _ _ _ _ _ => true
  | _ => false

/--
Whenever the step succeeds, these are the notable instructions among
those it appends.
-/
def Notes {α : Type} (step : Emit α) (notable : List Jvm.Instr) : Prop :=
  ∀ ⦃state after : Emitter⦄ ⦃value : α⦄,
    step state = .ok value after →
    ∃ code, after.body = state.body ++ code ∧ code.filter isNotable = notable

namespace Notes

variable {α β : Type} {first second : List Jvm.Instr}

theorem bind
    {step : Emit α}
    {rest : α → Emit β}
    (former : Notes step first)
    (latter : ∀ value, Notes (rest value) second) :
    Notes (step >>= rest) (first ++ second) := by
  intro state after result ran
  rcases bind_ok_iff.mp ran with ⟨value, between, stepRan, restRan⟩
  rcases former stepRan with ⟨code, isBetween, isFirst⟩
  rcases latter value restRan with ⟨others, isAfter, isSecond⟩
  refine ⟨code ++ others, ?_, ?_⟩
  · rw [isAfter, isBetween, List.append_assoc]
  · rw [List.filter_append, isFirst, isSecond]

theorem pure
    (value : α) :
    Notes (Pure.pure value) [] := by
  intro state after result ran
  rcases pure_ok_iff.mp ran with ⟨_, rfl⟩
  exact ⟨[], by simp, rfl⟩

theorem throw
    (error : CompileError) :
    Notes (MonadExcept.throw error : Emit α) first := by
  intro state after result ran
  exact (throw_ok_iff.mp ran).elim

theorem instr
    (added : Jvm.Instr) :
    Notes (Emit.instr added) ([added].filter isNotable) := by
  intro state after value ran
  obtain rfl := modify_ok_iff.mp ran
  exact ⟨[added], rfl, rfl⟩

end Notes

namespace Emit

theorem slotOf_notes
    (operand : Operand) :
    Notes (slotOf operand) [] := by
  intro state after slot ran
  cases current : state.current? with
  | none =>
      rcases bind_ok_iff.mp ran with ⟨_, _, gotten, rest⟩
      rcases get_ok_iff.mp gotten with ⟨rfl, rfl⟩
      rw [current] at rest
      exact (throw_ok_iff.mp rest).elim
  | some method =>
      rcases slotOf_ok current ran with ⟨rfl, _⟩
      exact ⟨[], by simp, rfl⟩

theorem load_notes
    (operand : Operand) :
    Notes (load operand) [] :=
  (slotOf_notes operand).bind fun _ => .instr _

theorem store_notes
    (dest : Operand) :
    Notes (store dest) [] := by
  cases dest with
  | literal value type => exact .throw _
  | var name type => exact (slotOf_notes _).bind fun _ => .instr _

theorem push_notes
    (operand : Operand) :
    Notes (push operand) [] := by
  cases operand with
  | literal value type => exact .instr _
  | var name type => exact load_notes _

theorem pushAll_notes
    (operands : List Operand) :
    Notes (pushAll operands) [] := by
  induction operands with
  | nil => exact .pure ()
  | cons first rest inductionHypothesis =>
      exact (push_notes first).bind fun _ => inductionHypothesis

theorem operate_notes
    (operator : Operator) :
    Notes (operate operator) [] := by
  cases operator with
  | less =>
      intro state after value ran
      rcases compareLess_extends ran with ⟨onTrue, done, _, extended⟩
      exact ⟨_, extended.body, rfl⟩
  | _ => exact .instr _

/-- A call is made on the class or the object that it is made on in code. -/
theorem callOwner_ok
    {unit : ClassCode}
    {call : Code.Call}
    {state after : Emitter}
    {owner : String}
    (ran : callOwner unit call.kind call.target state = .ok owner after) :
    owner = callee unit call ∧ after = state := by
  rcases call with ⟨kind, target, method, arguments, result⟩
  unfold callOwner at ran
  by_cases isStatic : kind = .static
  · subst kind
    cases target with
    | literal value type => exact (throw_ok_iff.mp ran).elim
    | var name type =>
        rcases pure_ok_iff.mp ran with ⟨rfl, rfl⟩
        exact ⟨rfl, rfl⟩
  · simp only [isStatic, if_false] at ran
    rw [callee_of_not_static unit isStatic]
    cases typed : target.type with
    | object name =>
        rw [typed] at ran
        rcases pure_ok_iff.mp ran with ⟨rfl, rfl⟩
        exact ⟨rfl, rfl⟩
    | string =>
        rw [typed] at ran
        rcases pure_ok_iff.mp ran with ⟨rfl, rfl⟩
        exact ⟨rfl, rfl⟩
    | _ =>
        rw [typed] at ran
        exact (throw_ok_iff.mp ran).elim

/-- A call notes its invocation. -/
theorem call_notes
    (unit : ClassCode)
    (call : Code.Call) :
    Notes
      (Emit.call unit call.kind call.target call.method call.arguments call.result)
      [invocation unit call] := by
  have made (owner descriptor : String) :
      Notes (do
          pushAll call.arguments
          instr
            (.invoke call.kind owner call.method descriptor call.arguments.length
            (!call.result.isVoid)))
        [.invoke call.kind owner call.method descriptor call.arguments.length
          (!call.result.isVoid)] := by
    refine (pushAll_notes call.arguments).bind fun _ => ?_
    intro state after value ran
    obtain rfl := modify_ok_iff.mp ran
    exact ⟨_, rfl, rfl⟩
  intro state after value ran
  rcases bind_ok_iff.mp ran with ⟨owner, _, ownerRan, rest⟩
  rcases callOwner_ok ownerRan with ⟨rfl, rfl⟩
  split at rest
  · exact (load_notes _).bind (fun _ => made _ _) rest
  · exact made _ _ rest

/-- The creation of an array is not notable. -/
theorem isNotable_arrayCreation
    {unit : ClassCode}
    {type : ValueType}
    {creation : Jvm.Instr}
    (created : arrayCreation unit type = .ok creation) :
    isNotable creation = false := by
  unfold arrayCreation at created
  split at created
  all_goals cases created
  all_goals rfl

/-- The value of an assignment notes what the assignment does. -/
theorem value_notes
    (unit : ClassCode)
    (dest : Operand)
    (type : ValueType)
    (source : Code.Instr) :
    Notes (value unit source) (notable unit (.assign dest type source)) := by
  cases source with
  | single operand => exact push_notes operand
  | binary operator left right type =>
      exact (push_notes left).bind fun _ => (push_notes right).bind fun _ =>
        operate_notes operator
  | call kind target method arguments result =>
      simp only [value]
      split
      · exact .throw _
      · exact call_notes unit ⟨kind, target, method, arguments, result⟩
  | newObject className type => exact .instr _
  | newArray size type =>
      refine (push_notes size).bind fun _ => ?_
      cases created : arrayCreation unit type with
      | error error => exact .throw error
      | ok creation =>
          have notes := Notes.instr creation
          rwa [List.filter_singleton, isNotable_arrayCreation created] at notes
  | getField object field => exact (load_notes object).bind fun _ => .instr _
  | _ => exact .throw _

/-- The notable instructions that are emitted for an instruction are its own. -/
theorem code_notes
    (unit : ClassCode)
    (source : Code.Instr) :
    Notes (code unit source) (notable unit source) := by
  cases source with
  | assign dest type source =>
      rw [← List.append_nil (notable unit _)]
      exact (value_notes unit dest type source).bind fun _ => store_notes dest
  | call kind target method arguments result =>
      rw [← List.append_nil (notable unit _)]
      refine (call_notes unit ⟨kind, target, method, arguments, result⟩).bind
        fun _ => ?_
      cases result.isVoid with
      | true => exact .pure ()
      | false => exact .instr _
  | putField object field stored =>
      exact (load_notes object).bind fun _ => (push_notes stored).bind fun _ =>
        .instr _
  | ret type result =>
      cases result with
      | none => exact .instr _
      | some operand => exact (push_notes operand).bind fun _ => .instr _
  | _ => exact .throw _

end Emit

namespace EmittedFor

variable {unit : ClassCode} {method : Method} {segment : List Jvm.Instr}

/-- The calls and the creations of a segment are those of its instruction. -/
theorem filter_isNotable
    {instr : Code.Instr}
    (emitted : EmittedFor unit method instr segment) :
    segment.filter isNotable = notable unit instr := by
  rcases emitted with ⟨state, after, _, ran, isSegment⟩
  rcases Emit.code_notes unit instr ran with ⟨code, isCode, isNotable⟩
  rw [isSegment] at isCode
  rw [List.append_cancel_left isCode, isNotable]

/-- The invocations of a segment are those that are notable in its instruction. -/
theorem filter_isInvoke
    {instr : Code.Instr}
    (emitted : EmittedFor unit method instr segment) :
    segment.filter isInvoke = (notable unit instr).filter isInvoke := by
  rw [← emitted.filter_isNotable, List.filter_filter]
  apply List.filter_congr
  intro made _
  cases made <;> rfl

/-- An instruction with a segment can be emitted. -/
theorem isEmittable
    {instr : Code.Instr}
    (emitted : EmittedFor unit method instr segment) :
    isEmittable instr = true := by
  rcases emitted with ⟨state, after, isCurrent, ran, _⟩
  exact (((Emit.code_demands unit instr).ok_iff isCurrent).mp ⟨(), after, ran⟩).1

/-- The target of a call that is emitted has methods. -/
theorem isCallable
    {instr : Code.Instr}
    {call : Code.Call}
    (emitted : EmittedFor unit method instr segment)
    (isCall : instr.call? = some call) :
    isCallable call.kind call.target = true := by
  have canEmit := emitted.isEmittable
  unfold Code.Instr.call? at isCall
  split at isCall
  · cases isCall
    exact canEmit
  · cases isCall
    simp only [Assembly.isEmittable, isEmittableValue, Bool.and_eq_true] at canEmit
    exact canEmit.1.2
  · cases isCall

/-- A new object is stored in the slot of its variable. -/
theorem creation
    {dest : Operand}
    {type : ValueType}
    {className : String}
    {annotated : ValueType}
    (emitted :
      EmittedFor unit method (.assign dest type (.newObject className annotated))
        segment) :
    ∃ name slot,
      dest.name? = some name ∧
        method.slot? name = some slot ∧
          segment =
            [.newObject (unit.classPath className),
              .store (slotKind dest.type) slot] := by
  rcases emitted with ⟨state, after, isCurrent, ran, isSegment⟩
  rcases bind_ok_iff.mp ran with ⟨_, created, createdRan, storeRan⟩
  obtain rfl := modify_ok_iff.mp createdRan
  cases dest with
  | literal value type => exact (throw_ok_iff.mp storeRan).elim
  | var name type =>
      rcases bind_ok_iff.mp storeRan with ⟨slot, _, slotRan, stored⟩
      rcases slotOf_ok (by exact isCurrent) slotRan with ⟨rfl, _, _, same, isSlot⟩
      cases same
      obtain rfl := modify_ok_iff.mp stored
      have isBody :
          state.body ++ [.newObject (unit.classPath className)] ++
            [.store (slotKind type) slot] =
            state.body ++ segment :=
        isSegment
      rw [List.append_assoc] at isBody
      exact ⟨name, slot, rfl, isSlot, (List.append_cancel_left isBody).symm⟩

/-- A constructor is called on the object in the slot of a variable. -/
theorem construct
    {dest : Operand}
    (emitted : EmittedFor unit method (.construct dest) segment) :
    ∃ name slot,
      dest.name? = some name ∧
        method.slot? name = some slot ∧
          segment =
            [.load (slotKind dest.type) slot,
              .invoke .special (Jvm.ownerPath unit dest.type)
                Code.constructorName "()V" 0 false] := by
  rcases emitted with ⟨state, after, isCurrent, ran, isSegment⟩
  rcases bind_ok_iff.mp ran with ⟨_, called, callRan, returned⟩
  rcases pure_ok_iff.mp returned with ⟨_, rfl⟩
  rcases bind_ok_iff.mp callRan with ⟨owner, asked, ownerRan, rest⟩
  have isOwner :=
    @Emit.callOwner_ok unit ⟨.special, dest, Code.constructorName, [], .void⟩
    _ _ _ ownerRan
  rcases isOwner with ⟨rfl, isAsked⟩
  rw [isAsked] at rest
  rcases bind_ok_iff.mp rest with ⟨_, loaded, loadRan, invoked⟩
  rcases bind_ok_iff.mp loadRan with ⟨slot, located, slotRan, pushed⟩
  rcases slotOf_ok isCurrent slotRan with ⟨isLocated, name, type, rfl, isSlot⟩
  rw [isLocated] at pushed
  obtain rfl := modify_ok_iff.mp pushed
  obtain rfl := modify_ok_iff.mp invoked
  have isBody :
      state.body ++ [.load (slotKind type) slot] ++
          [.invoke .special (Jvm.ownerPath unit type) Code.constructorName "()V" 0
            false] =
        state.body ++ segment :=
    isSegment
  rw [List.append_assoc] at isBody
  exact ⟨name, slot, rfl, isSlot, (List.append_cancel_left isBody).symm⟩

end EmittedFor

end MiniJava.Assembly

namespace MiniJava

open Code (ClassCode)
open Assembly (EmittedFor invocation isCallable isInvoke)

/-- An instruction of the machine makes a call of a body. -/
def Site.MadeBy
    (symbols : Symbols)
    (source : MethodDef)
    (unit : ClassCode) : Site → Jvm.Instr → Prop
  | .call found target method arguments type, instr =>
      ∃ call,
        source.Makes symbols found target method arguments type call ∧
          isCallable call.kind call.target = true ∧ instr = invocation unit call
  | .creation _ type, instr =>
      instr = .invoke .special (Jvm.ownerPath unit type) Code.constructorName
        "()V" 0 false

/-- The calls of an emitted body are those of its source, in order. -/
theorem MethodDef.Links.invocations
    {symbols : Symbols}
    {source : MethodDef}
    {unit : ClassCode}
    {method : Code.Method}
    {sites : List Site}
    {instrs : List Code.Instr}
    {segments : List (List Jvm.Instr)}
    (links : source.Links symbols sites instrs)
    (emitted : List.Forall₂ (EmittedFor unit method) instrs segments) :
    List.Forall₂ (Site.MadeBy symbols source unit) sites
      (segments.flatten.filter isInvoke) := by
  induction links generalizing segments with
  | nothing =>
      cases emitted
      exact .nil
  | plain isPlain rest inductionHypothesis =>
      cases emitted with
      | cons first others =>
          rw [List.flatten_cons, List.filter_append, first.filter_isInvoke,
            Assembly.notable_of_isPlain unit isPlain]
          exact inductionHypothesis others
  | call isCall makes rest inductionHypothesis =>
      cases emitted with
      | cons first others =>
          rw [List.flatten_cons, List.filter_append, first.filter_isInvoke,
            Assembly.notable_of_call unit isCall]
          exact .cons ⟨_, makes, first.isCallable isCall, rfl⟩
            (inductionHypothesis others)
  | creation dest rest inductionHypothesis =>
      cases emitted with
      | cons stored others =>
          cases others with
          | cons constructed others =>
              rcases stored.creation with ⟨_, _, _, _, rfl⟩
              rcases constructed.construct with ⟨_, _, _, _, rfl⟩
              exact .cons rfl (inductionHypothesis others)

end MiniJava
