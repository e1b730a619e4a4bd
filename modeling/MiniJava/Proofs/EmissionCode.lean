import MiniJava.Proofs.EmissionSimulation

namespace MiniJava.Assembly

/-!
# What the code of an instruction does

A call pushes its receiver and its arguments, and the machine takes as many
values from the stack as were pushed. Assignments store what their value
leaves, and a call that is not assigned drops its result. So every instruction
leaves the stack as it found it, and it does on the slots what it means there.
-/

open Code (Operand ValueType CallKind Method ClassCode Store)

/-- An operand is held under its own type. -/
@[simp] theorem held_type
    {Event Place : Type}
    (setting : Code.Setting Event Place)
    (store : Store Place)
    (operand : Operand) :
    (setting.held store operand).type = operand.type := by
  cases operand <;> rfl

/-- Operands are held with their types. -/
theorem held_types
    {Event Place : Type}
    (setting : Code.Setting Event Place)
    (store : Store Place)
    (operands : List Operand) :
    (operands.map (setting.held store)).map Held.type =
      operands.map Operand.type := by
  simp

/-- There are as many values as are held. -/
theorem values?_length
    {helds : List Held}
    {values : List Value}
    (taken : Held.values? helds = some values) :
    values.length = helds.length := by
  induction helds generalizing values with
  | nil =>
      cases taken
      rfl
  | cons first rest inductionHypothesis =>
      simp only [Held.values?, Option.bind_eq_bind, Option.bind_eq_some_iff]
        at taken
      obtain ⟨value, _, others, takenRest, shape⟩ := taken
      cases shape
      simp [inductionHypothesis takenRest]

/-- Values that were pushed are popped in their order. -/
private theorem popArguments_pushed
    {count : Nat}
    {values : List Value}
    (stack : List Value)
    (sameLength : values.length = count) :
    Jvm.popArguments count (values.reverse ++ stack) = some (values, stack) := by
  subst sameLength
  have enough : values.length ≤ (values.reverse ++ stack).length := by
    simp
  have taken : (values.reverse ++ stack).take values.length = values.reverse := by
    simp
  have dropped : (values.reverse ++ stack).drop values.length = stack := by
    simp
  simp only [Jvm.popArguments, enough, ↓reduceIte, taken, dropped,
    List.reverse_reverse]

section

variable {world : World Jvm.Event} {method : Method}

/-- What follows the owner of a call is realized if it is for each owner. -/
private theorem Realizes.ofOwner
    {α : Type}
    {unit : ClassCode}
    {kind : CallKind}
    {target : Operand}
    {next : String → Emit α}
    {effect : Effect}
    (onClass :
      ∀ name,
        kind = .static →
        target.name? = some name →
        Realizes world method (next (unit.classPath name)) effect)
    (onReceiver :
      kind ≠ .static →
      Realizes world method (next (Jvm.ownerPath unit target.type)) effect) :
    Realizes world method (Emit.callOwner unit kind target >>= next) effect := by
  by_cases isStatic : kind = .static
  · simp only [Emit.callOwner, isStatic, ↓reduceIte]
    cases named : target.name? with
    | none => exact Realizes.ofFailure
    | some name => exact onClass name isStatic named
  · simp only [Emit.callOwner, isStatic, ↓reduceIte]
    have realizes := onReceiver isStatic
    cases typed : target.type with
    | object name =>
        rw [typed] at realizes
        exact realizes
    | string =>
        rw [typed] at realizes
        exact realizes
    | int => exact Realizes.ofFailure
    | boolean => exact Realizes.ofFailure
    | void => exact Realizes.ofFailure
    | array item => exact Realizes.ofFailure

/-- Makes a call with what is on the stack. -/
def invoking
    (world : World Jvm.Event)
    (kind : CallKind)
    (owner name descriptor : String)
    (count : Nat)
    (returnsValue : Bool) : Effect := fun stack slots => do
  let (arguments, rest) ← Run.require (Jvm.popArguments count stack)
  let (receiver, rest) ← Run.require (Jvm.popReceiver kind rest)
  let value ← world.ask (.invoke kind owner name descriptor receiver arguments)
  return (if returnsValue then value :: rest else rest, slots)

/-- The machine's call takes its values from the stack. -/
private theorem invoke_realizes
    (kind : CallKind)
    (owner name descriptor : String)
    (count : Nat)
    (returnsValue : Bool) :
    Realizes world method
      (Emit.instr (.invoke kind owner name descriptor count returnsValue))
      (invoking world kind owner name descriptor count returnsValue) := by
  refine Realizes.instruction rfl ?_
  intro body state
  simp only [Jvm.execute, invoking, bind_assoc, pure_bind, Jvm.State.next]

/-- Makes a call and leaves its result if it has one. -/
def calling
    (setting : Code.Setting Jvm.Event Nat)
    (kind : CallKind)
    (target : Operand)
    (name : String)
    (arguments : List Operand)
    (result : ValueType) : Effect := fun stack slots => do
  let callee ← setting.callee slots kind target
  let value ←
    setting.invoke kind callee name (arguments.map (setting.held slots)) result
  return (if result.isVoid then stack else value :: stack, slots)

/-- Pushing arguments and invoking a static method is a static call. -/
private theorem staticCall_effect
    {unit : ClassCode}
    {target : Operand}
    {className : String}
    (named : target.name? = some className)
    (name : String)
    (arguments : List Operand)
    (result : ValueType)
    (stack : List Value)
    (slots : Store Nat) :
    (pushingAll (slotSetting world unit method) arguments).andThen
        (invoking world .static (unit.classPath className) name
          (unit.methodDescriptor (arguments.map Operand.type) result)
            arguments.length
          (!result.isVoid)) stack slots =
      calling (slotSetting world unit method) .static target name arguments result
        stack slots := by
  simp only [Effect.andThen, pushingAll, calling, Code.Setting.callee,
    ↓reduceIte, named, Run.require_some, map_pure, pure_bind, Environment.invoke,
    Callee.receiver, bind_assoc]
  cases taken : Held.values?
    (arguments.map ((slotSetting world unit method).held slots)) with
  | none =>
      rfl
  | some values =>
      have sameLength : values.length = arguments.length := by
        simpa using values?_length taken
      simp only [Run.require_some, pure_bind, invoking,
        popArguments_pushed stack sameLength, Jvm.popReceiver, ↓reduceIte,
        held_types]
      cases result.isVoid <;> rfl

/-- Pushing the target, then the arguments, and invoking is a call on the target. -/
private theorem receiverCall_effect
    {unit : ClassCode}
    {kind : CallKind}
    {target : Operand}
    (notStatic : kind ≠ .static)
    (name : String)
    (arguments : List Operand)
    (result : ValueType)
    (stack : List Value)
    (slots : Store Nat) :
    (pushing fun slots =>
        Run.require
          ((slotSetting world unit method).held slots target).value?).andThen
        ((pushingAll (slotSetting world unit method) arguments).andThen
          (invoking world kind (Jvm.ownerPath unit target.type) name
            (unit.methodDescriptor (arguments.map Operand.type) result)
              arguments.length
            (!result.isVoid))) stack slots =
      calling (slotSetting world unit method) kind target name arguments result
        stack slots := by
  simp only [Effect.andThen, pushing, pushingAll, calling, Code.Setting.callee,
    notStatic, ↓reduceIte, pure_bind, Environment.invoke, Callee.receiver,
    Callee.owner, bind_assoc,
    Held.address?, held_type, held_types]
  cases ((slotSetting world unit method).held slots target).value? with
  | none =>
      rfl
  | some receiver =>
      simp only [Run.require_some, pure_bind, Option.bind_some]
      cases taken : Held.values?
        (arguments.map ((slotSetting world unit method).held slots)) with
      | none =>
          cases receiver <;> rfl
      | some values =>
          have sameLength : values.length = arguments.length := by
            simpa using values?_length taken
          simp only [Run.require_some, pure_bind, invoking,
            popArguments_pushed (receiver :: stack) sameLength]
          -- A number as receiver is found out only now, but nothing was asked of
          -- the world so far.
          cases receiver with
          | int number =>
              simp only [Jvm.popReceiver, notStatic, ↓reduceIte]
              rfl
          | reference address =>
              simp only [Jvm.popReceiver, notStatic, ↓reduceIte]
              cases result.isVoid <;> rfl

/-- Emitting a call makes it. -/
theorem call_realizes
    (unit : ClassCode)
    (kind : CallKind)
    (target : Operand)
    (name : String)
    (arguments : List Operand)
    (result : ValueType) :
    Realizes world method (Emit.call unit kind target name arguments result)
      (calling (slotSetting world unit method) kind target name arguments
        result) := by
  refine Realizes.ofOwner ?_ ?_
  · rintro className rfl named
    simp only [ne_eq, not_true_eq_false, ↓reduceIte]
    exact
      ((pushAll_realizes unit arguments).follow (invoke_realizes _ _ _ _ _ _)).congr
        (staticCall_effect named name arguments result)
  · intro notStatic
    simp only [ne_eq, notStatic, not_false_eq_true, ↓reduceIte]
    exact
      ((load_realizes unit target).follow
        ((pushAll_realizes unit arguments).follow
          (invoke_realizes _ _ _ _ _ _))).congr
        (receiverCall_effect notStatic name arguments result)

/-- Takes a size from the stack and leaves a new array. -/
def creating (world : World Jvm.Event) (event : Int32 → Jvm.Event) : Effect :=
  fun stack slots =>
    match stack with
    | .int size :: rest => do
        let array ← world.allocate (event size)
        return (array :: rest, slots)
    | _ => throw .illTyped

/-- Pushing a size and creating an array is the creation of the array. -/
private theorem creation_effect
    {unit : ClassCode}
    {type : ValueType}
    {event : Int32 → Jvm.Event}
    (spelled : ∀ size, Jvm.arrayEvent unit size type = event size)
    (size : Operand)
    (stack : List Value)
    (slots : Store Nat) :
    (pushing fun slots =>
        Run.require
          ((slotSetting world unit method).held slots size).value?).andThen
        (creating world event) stack slots =
      pushing
        (fun slots =>
          (slotSetting world unit method).compute slots (.newArray size type))
        stack slots := by
  simp only [Effect.andThen, pushing, Code.Setting.compute, Environment.newArray,
    Held.number?, bind_assoc, pure_bind]
  cases ((slotSetting world unit method).held slots size).value? with
  | none =>
      rfl
  | some value =>
      cases value with
      | reference address =>
          rfl
      | int number =>
          simp only [Run.require_some, pure_bind, Option.bind_some, Value.number?,
            creating]
          rw [← spelled number]
          rfl

/-- A creation that means its event realizes the creation of an array. -/
private theorem creation_realizes
    {unit : ClassCode}
    {type : ValueType}
    {creation : Jvm.Instr}
    {event : Int32 → Jvm.Event}
    (size : Operand)
    (noLabel : creation.isLabel = false)
    (meaning :
      ∀ body state,
        Jvm.execute world body state creation =
          (do
            let (stack, slots) ← creating world event state.stack state.slots
            return ⟨state.position + 1, stack, slots⟩ : Run Jvm.Event Jvm.State))
    (spelled : ∀ size, Jvm.arrayEvent unit size type = event size) :
    Realizes world method
      (do Emit.push size; Emit.instr creation)
      (pushing fun slots =>
        (slotSetting world unit method).compute slots (.newArray size type)) :=
  ((push_realizes unit size).follow (Realizes.instruction noLabel meaning)).congr
    (creation_effect spelled size)

/-- The instruction for numbers and truth values creates such arrays. -/
private theorem newPrimitives_meaning
    (item : Jvm.Primitive)
    (body : List Jvm.Instr)
    (state : Jvm.State) :
    Jvm.execute world body state (.newPrimitives item) =
      (do
        let (stack, slots) ←
          creating world (.newPrimitives item) state.stack state.slots
        return ⟨state.position + 1, stack, slots⟩ : Run Jvm.Event Jvm.State) := by
  rcases state with ⟨position, _ | ⟨_ | _, rest⟩, slots⟩
  · rfl
  · simp only [Jvm.execute, creating, bind_assoc, pure_bind, Jvm.State.next]
  · rfl

/-- The instruction for references creates such arrays. -/
private theorem newReferences_meaning
    (path : String)
    (body : List Jvm.Instr)
    (state : Jvm.State) :
    Jvm.execute world body state (.newReferences path) =
      (do
        let (stack, slots) ←
          creating world (.newReferences path) state.stack state.slots
        return ⟨state.position + 1, stack, slots⟩ : Run Jvm.Event Jvm.State) := by
  rcases state with ⟨position, _ | ⟨_ | _, rest⟩, slots⟩
  · rfl
  · simp only [Jvm.execute, creating, bind_assoc, pure_bind, Jvm.State.next]
  · rfl

/-- What fails in the end realizes whatever one likes. -/
private theorem Realizes.ofLaterFailure
    {α : Type}
    {first : Emit Unit}
    {error : CompileError}
    {effect : Effect} :
    Realizes world method (do first; (throw error : Emit α)) effect := by
  intro state value after _ _ ran
  obtain ⟨_, _, _, failed⟩ := bind_ok_iff.mp ran
  exact (throw_ok_iff.mp failed).elim

/-- The creation of an array is realized. -/
private theorem newArray_realizes
    (unit : ClassCode)
    (size : Operand)
    (type : ValueType) :
    Realizes world method (Emit.value unit (.newArray size type))
      (pushing fun slots =>
        (slotSetting world unit method).compute slots (.newArray size type)) := by
  cases type with
  | array item =>
      cases item with
      | int =>
          exact creation_realizes size rfl (newPrimitives_meaning .int) fun _ => rfl
      | boolean =>
          exact creation_realizes size rfl (newPrimitives_meaning .boolean)
            fun _ => rfl
      | string =>
          exact creation_realizes size rfl (newReferences_meaning Code.stringPath)
            fun _ => rfl
      | object name =>
          exact creation_realizes size rfl
            (newReferences_meaning (unit.classPath name)) fun _ => rfl
      | void => exact Realizes.ofLaterFailure
      | array inner => exact Realizes.ofLaterFailure
  | int => exact Realizes.ofLaterFailure
  | boolean => exact Realizes.ofLaterFailure
  | void => exact Realizes.ofLaterFailure
  | string => exact Realizes.ofLaterFailure
  | object name => exact Realizes.ofLaterFailure

/-- Reads a field of the object on the stack. -/
def gettingField
    (world : World Jvm.Event)
    (owner name descriptor : String) : Effect :=
  fun stack slots =>
    match stack with
    | .reference object :: rest => do
        let value ← world.ask (.getField owner name descriptor object)
        return (value :: rest, slots)
    | _ => throw .illTyped

/-- Reading a field is realized. -/
private theorem getField_realizes
    (unit : ClassCode)
    (object : Operand)
    (field : Code.FieldRef) :
    Realizes world method (Emit.value unit (.getField object field))
      (pushing fun slots =>
        (slotSetting world unit method).compute slots
          (.getField object field)) := by
  have read :
      Realizes world method
        (Emit.instr (.getField unit.name field.name (unit.descriptor field.type)))
        (gettingField world unit.name field.name (unit.descriptor field.type)) := by
    refine Realizes.instruction rfl ?_
    rintro body ⟨position, _ | ⟨_ | _, rest⟩, slots⟩
    · rfl
    · rfl
    · simp only [Jvm.execute, gettingField, bind_assoc, pure_bind, Jvm.State.next]
  refine ((load_realizes unit object).follow read).congr ?_
  intro stack slots
  simp only [Effect.andThen, pushing, Code.Setting.compute, Environment.getField,
    Held.address?, bind_assoc, pure_bind]
  cases ((slotSetting world unit method).held slots object).value? with
  | none =>
      rfl
  | some value =>
      cases value <;> rfl

/-- Emitting the value of an assignment leaves it on the stack. -/
theorem value_realizes
    (unit : ClassCode)
    (source : Code.Instr) :
    Realizes world method (Emit.value unit source)
      (pushing fun slots =>
        (slotSetting world unit method).compute slots source) := by
  cases source with
  | single operand =>
      exact push_realizes unit operand
  | binary operator left right type =>
      refine ((push_realizes unit left).follow
        ((push_realizes unit right).follow (operate_realizes operator))).congr ?_
      intro stack slots
      simp only [Effect.andThen, pushing, Code.Setting.compute, Operator.operate,
        Held.number?, bind_assoc, pure_bind]
      cases ((slotSetting world unit method).held slots left).value? with
      | none =>
          rfl
      | some leftValue =>
          -- The machine checks both kinds at the operator, after both values are
          -- pushed.
          cases ((slotSetting world unit method).held slots right).value? with
          | none =>
              cases leftValue <;> rfl
          | some rightValue =>
              cases leftValue <;> cases rightValue <;> rfl
  | call kind target name arguments result =>
      cases isVoid : result.isVoid with
      | true =>
          simp only [Emit.value, isVoid, ↓reduceIte]
          exact Realizes.ofFailure
      | false =>
          simp only [Emit.value, isVoid, Bool.false_eq_true, ↓reduceIte]
          refine (call_realizes unit kind target name arguments result).congr ?_
          intro stack slots
          simp [calling, pushing, Code.Setting.compute,
            Environment.callValue, isVoid]
  | newObject className type =>
      refine Realizes.instruction rfl ?_
      intro body state
      simp only [Jvm.execute, pushing, Code.Setting.compute, Environment.newObject,
        bind_assoc, pure_bind, Jvm.State.next]
      rfl
  | newArray size type =>
      exact newArray_realizes unit size type
  | element array index type =>
      exact Realizes.ofFailure
  | length array type =>
      exact Realizes.ofFailure
  | getField object field =>
      exact getField_realizes unit object field
  | assign dest type value =>
      exact Realizes.ofFailure
  | ret type value =>
      exact Realizes.ofFailure
  | putField object field value =>
      exact Realizes.ofFailure

/-- Takes a value from the stack and writes it to a destination. -/
def storing (setting : Code.Setting Jvm.Event Nat) (dest : Operand) : Effect :=
  fun stack slots =>
    match stack with
    | value :: rest => do
        let slots ← setting.write slots value dest
        return (rest, slots)
    | [] => throw .illTyped

/-- Emitting a store writes the value to the slot of the destination. -/
theorem store_realizes
    (unit : ClassCode)
    (dest : Operand) :
    Realizes world method (Emit.store dest)
      (storing (slotSetting world unit method) dest) := by
  cases dest with
  | literal value type =>
      simp only [Emit.store, Operand.isLiteral, ↓reduceIte]
      exact Realizes.ofFailure
  | var name type =>
      simp only [Emit.store, Operand.isLiteral, Bool.false_eq_true, ↓reduceIte]
      refine Realizes.ofSlot ?_
      rintro _ _ slot ⟨⟩ located
      refine Realizes.instruction rfl ?_
      rintro body ⟨position, _ | ⟨value, rest⟩, slots⟩
      · rfl
      · have isLocated : (slotSetting world unit method).locate name = some slot :=
          located
        simp only [Jvm.execute, storing, Code.Setting.write, isLocated,
          Run.require_some, pure_bind, Operand.type, kindOf_eq_slotKind_iff,
          Jvm.State.next]
        cases value.fits type <;> rfl

/--
Runs an instruction of three-address code on the slots and leaves
the stack as it is.
-/
def leaving (setting : Code.Setting Jvm.Event Nat) (instr : Code.Instr) : Effect :=
  fun stack slots => do
    let slots ← setting.exec slots instr
    return (stack, slots)

/-- Drops the top of the stack. -/
def dropping : Effect := fun stack slots =>
  match stack with
  | _ :: rest => pure (rest, slots)
  | [] => throw .illTyped

/-- A call whose result is dropped is realized. -/
private theorem callStatement_realizes
    (unit : ClassCode)
    (kind : CallKind)
    (target : Operand)
    (name : String)
    (arguments : List Operand)
    (result : ValueType) :
    Realizes world method (Emit.code unit (.call kind target name arguments result))
      (leaving (slotSetting world unit method)
        (.call kind target name arguments result)) := by
  have called :
      Realizes world method (Emit.call unit kind target name arguments result)
        (calling (slotSetting world unit method) kind target name arguments
          result) :=
    call_realizes unit kind target name arguments result
  cases isVoid : result.isVoid with
  | true =>
      simp only [Emit.code, isVoid, Bool.not_true, Bool.false_eq_true, ↓reduceIte]
      refine (called.follow Realizes.nothing).congr ?_
      intro stack slots
      simp [Effect.andThen, calling, leaving, Code.Setting.exec, isVoid]
  | false =>
      have popped : Realizes world method (Emit.instr .pop) dropping := by
        refine Realizes.instruction rfl ?_
        rintro body ⟨position, _ | ⟨value, rest⟩, slots⟩ <;> rfl
      simp only [Emit.code, isVoid, Bool.not_false, ↓reduceIte]
      refine (called.follow popped).congr ?_
      intro stack slots
      simp [Effect.andThen, calling, leaving, dropping, Code.Setting.exec, isVoid]

/-- Writes the value on the stack to a field of the object below it. -/
def puttingField
    (world : World Jvm.Event)
    (owner name descriptor : String) : Effect :=
  fun stack slots =>
    match stack with
    | value :: .reference object :: rest => do
        let _ ← world.ask (.putField owner name descriptor object value)
        return (rest, slots)
    | _ => throw .illTyped

/-- Writing a field is realized. -/
private theorem putField_realizes
    (unit : ClassCode)
    (object : Operand)
    (field : Code.FieldRef)
    (stored : Operand) :
    Realizes world method (Emit.code unit (.putField object field stored))
      (leaving (slotSetting world unit method)
        (.putField object field stored)) := by
  have written :
      Realizes world method
        (Emit.instr (.putField unit.name field.name (unit.descriptor field.type)))
        (puttingField world unit.name field.name (unit.descriptor field.type)) := by
    refine Realizes.instruction rfl ?_
    rintro body ⟨position, _ | ⟨value, _ | ⟨_ | _, rest⟩⟩, slots⟩
    · rfl
    · rfl
    · rfl
    · simp only [Jvm.execute, puttingField, bind_assoc, pure_bind, Jvm.State.next]
  refine ((load_realizes unit object).follow
    ((push_realizes unit stored).follow written)).congr ?_
  intro stack slots
  simp only [Effect.andThen, pushing, leaving, Code.Setting.exec,
    Environment.putField, Held.address?, bind_assoc, pure_bind]
  cases ((slotSetting world unit method).held slots object).value? with
  | none =>
      rfl
  | some objectValue =>
      cases ((slotSetting world unit method).held slots stored).value? with
      | none =>
          cases objectValue <;> rfl
      | some value =>
          cases objectValue <;> rfl

/-- Ends the run with the value on the stack, if it is of the kind of a type. -/
def returning (type : ValueType) : Effect := fun stack _ =>
  match stack with
  | value :: _ =>
      if value.fits type then throw (.returned (some value)) else throw .illTyped
  | [] => throw .illTyped

/-- Returning a value is realized. -/
private theorem return_realizes
    (unit : ClassCode)
    (type : ValueType)
    (operand : Operand) :
    Realizes world method (Emit.code unit (.ret type (some operand)))
      (leaving (slotSetting world unit method) (.ret type (some operand))) := by
  have returned :
      Realizes world method (Emit.instr (.ret (some (slotKind type))))
        (returning type) := by
    refine Realizes.instruction rfl ?_
    rintro body ⟨position, _ | ⟨value, rest⟩, slots⟩
    · rfl
    · simp only [Jvm.execute, returning, kindOf_eq_slotKind_iff]
      cases value.fits type <;> rfl
  refine ((push_realizes unit operand).follow returned).congr ?_
  intro stack slots
  simp only [Effect.andThen, pushing, leaving, Code.Setting.exec, bind_assoc,
    pure_bind]
  cases ((slotSetting world unit method).held slots operand).value? with
  | none =>
      rfl
  | some value =>
      simp only [Run.require_some, pure_bind, returning]
      cases value.fits type <;> rfl

/--
Emitting an instruction of three-address code does what it means on the slots.
-/
theorem code_realizes
    (unit : ClassCode)
    (instr : Code.Instr) :
    Realizes world method (Emit.code unit instr)
      (leaving (slotSetting world unit method) instr) := by
  cases instr with
  | assign dest type source =>
      refine ((value_realizes unit source).follow (store_realizes unit dest)).congr
        ?_
      intro stack slots
      simp only [Effect.andThen, pushing, storing, leaving, Code.Setting.exec,
        bind_assoc, pure_bind]
  | call kind target name arguments result =>
      exact callStatement_realizes unit kind target name arguments result
  | putField object field stored =>
      exact putField_realizes unit object field stored
  | ret type value =>
      cases value with
      | none =>
          refine Realizes.instruction rfl ?_
          intro body state
          rfl
      | some operand => exact return_realizes unit type operand
  | single operand => exact Realizes.ofFailure
  | binary operator left right type => exact Realizes.ofFailure
  | newObject className type => exact Realizes.ofFailure
  | newArray size type => exact Realizes.ofFailure
  | element array index type => exact Realizes.ofFailure
  | length array type => exact Realizes.ofFailure
  | getField object field => exact Realizes.ofFailure

end

end MiniJava.Assembly
