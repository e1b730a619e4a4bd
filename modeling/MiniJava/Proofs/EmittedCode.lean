import MiniJava.Proofs.EmittedCalls

namespace MiniJava.Assembly

/-!
# The code that is emitted

What emission appends to a body is determined by the class, the instruction, the
slots of its variables and the number of the next label. The limits count what
is appended. So an emitted class is known line by line, and what holds of its
lines can be read off from the instructions.
-/

open Code (Operand ValueType CallKind Method ClassCode)

/--
The limits after one more instruction of emitted code. A jump is
followed by a correction.
-/
def count (limits : Jvm.Limits) : Jvm.Instr → Jvm.Limits
  | .jump target => (limits.extend (.jump target)).apply (-1)
  | other => limits.extend other

/-- A state with more code in its body, after so many labels have been made. -/
def Emitter.append
    (state : Emitter)
    (code : List Jvm.Instr)
    (labels : Nat) : Emitter :=
  { state with
    body := state.body ++ code
    limits := code.foldl count state.limits
    labels := state.labels + labels }

theorem Emitter.append_nothing
    (state : Emitter) :
    state.append [] 0 = state := by
  simp [append]

/-- Code is appended part by part. -/
theorem Emitter.append_append
    (state : Emitter)
    (first second : List Jvm.Instr)
    (labels more : Nat) :
    (state.append first labels).append second more =
      state.append (first ++ second) (labels + more) := by
  simp [append, List.append_assoc, Nat.add_assoc]

/--
While the method is emitted, a step that succeeds appends the code for the number
of the next label, and makes so many labels.
-/
def Emits {α : Type} (method : Method) (step : Emit α) (code : Nat → List Jvm.Instr)
    (labels : Nat) : Prop :=
  ∀ ⦃state after : Emitter⦄ ⦃value : α⦄,
    state.current? = some method →
    step state = .ok value after →
    after = state.append (code state.labels) labels

namespace Emits

variable {α β : Type} {method : Method} {code others : Nat → List Jvm.Instr}
  {labels more : Nat}

theorem bind
    {step : Emit α}
    {rest : α → Emit β}
    (first : Emits method step code labels)
    (second : ∀ value, Emits method (rest value) others more) :
    Emits method (step >>= rest)
      (fun number => code number ++ others (number + labels)) (labels + more) := by
  intro state after value isCurrent ran
  obtain ⟨result, between, stepRan, restRan⟩ := bind_ok_iff.mp ran
  obtain rfl := first isCurrent stepRan
  have stillCurrent :
      (state.append (code state.labels) labels).current? = some method :=
    isCurrent
  rw [second result stillCurrent restRan, Emitter.append_append]
  rfl

/-- A step that makes no labels before another. -/
theorem follow
    {step : Emit α}
    {rest : α → Emit β}
    {segment : List Jvm.Instr}
    (first : Emits method step (fun _ => segment) 0)
    (second : ∀ value, Emits method (rest value) others more) :
    Emits method (step >>= rest) (fun number => segment ++ others number) more := by
  have both := first.bind second
  rwa [Nat.zero_add] at both

theorem pure
    (value : α) :
    Emits method (Pure.pure value) (fun _ => []) 0 := by
  intro state after result _ ran
  obtain ⟨_, rfl⟩ := pure_ok_iff.mp ran
  exact state.append_nothing.symm

theorem throw
    (error : CompileError) :
    Emits method (MonadExcept.throw error : Emit α) code labels := by
  intro state after result _ ran
  exact (throw_ok_iff.mp ran).elim

/-- An instruction that is no jump counts as itself. -/
theorem instr
    {added : Jvm.Instr}
    (counted : ∀ limits, count limits added = limits.extend added) :
    Emits method (Emit.instr added) (fun _ => [added]) 0 := by
  intro state after value _ ran
  obtain rfl := modify_ok_iff.mp ran
  simp [Emitter.append, counted]

end Emits

/-- How an operand is pushed, with the slots of variables. -/
def pushed (slot : String → Nat) : Operand → Jvm.Instr
  | .literal value _ => .const value
  | .var name type => .load (slotKind type) (slot name)

/-- How the top of the stack is stored in a variable. -/
def stored (slot : String → Nat) : Operand → List Jvm.Instr
  | .literal _ _ => []
  | .var name type => [.store (slotKind type) (slot name)]

/-- The label of a stem and a number. -/
def labelOf (stem : String) (number : Nat) : String :=
  stem ++ "_" ++ Decimal.ofNat number

/-- The code of an operator, with the number of the next label. -/
def operation (number : Nat) : Operator → List Jvm.Instr
  | .add => [.arith .add]
  | .sub => [.arith .sub]
  | .mul => [.arith .mul]
  | .div => [.arith .div]
  | .and => [.arith .and]
  | .or => [.arith .or]
  | .less => comparison (labelOf "cmp_true" number) (labelOf "cmp_end" (number + 1))

/-- The code of a call. -/
def callCode
    (unit : ClassCode)
    (slot : String → Nat)
    (call : Code.Call) : List Jvm.Instr :=
  (if call.kind = .static then [] else [pushed slot call.target]) ++
    call.arguments.map (pushed slot) ++ [invocation unit call]

/-- The code of the value of an assignment. -/
def valueCode (unit : ClassCode) (slot : String → Nat) (number : Nat) :
    Code.Instr → List Jvm.Instr
  | .single operand => [pushed slot operand]
  | .binary operator left right _ =>
      [pushed slot left, pushed slot right] ++ operation number operator
  | .call kind target method arguments result =>
      callCode unit slot ⟨kind, target, method, arguments, result⟩
  | .newObject className _ => [.newObject (unit.classPath className)]
  | .newArray size type =>
      pushed slot size :: (Emit.arrayCreation unit type).toOption.toList
  | .getField object field =>
      [pushed slot object,
        .getField unit.name field.name (unit.descriptor field.type)]
  | _ => []

/--
The code of an instruction, with the slots of variables and the
number of the next label.
-/
def instrCode (unit : ClassCode) (slot : String → Nat) (number : Nat) :
    Code.Instr → List Jvm.Instr
  | .assign dest _ source => valueCode unit slot number source ++ stored slot dest
  | .call kind target method arguments result =>
      callCode unit slot ⟨kind, target, method, arguments, result⟩ ++
        if result.isVoid then [] else [.pop]
  | .putField object field value =>
      [pushed slot object, pushed slot value,
        .putField unit.name field.name (unit.descriptor field.type)]
  | .ret type (some result) => [pushed slot result, .ret (some (slotKind type))]
  | .ret _ none => [.ret none]
  | _ => []

/-- How many labels the code of an instruction has: two for a comparison. -/
def labelCount : Code.Instr → Nat
  | .assign _ _ (.binary .less _ _ _) => 2
  | _ => 0

/-- How many labels the code of a body has. -/
def bodyLabels : List Code.Instr → Nat
  | [] => 0
  | first :: rest => labelCount first + bodyLabels rest

/-- The code of a body, with the number of the next label. -/
def bodyCode
    (unit : ClassCode)
    (slot : String → Nat) : Nat → List Code.Instr → List Jvm.Instr
  | _, [] => []
  | number, first :: rest =>
      instrCode unit slot number first ++
        bodyCode unit slot (number + labelCount first) rest

/-- The slots of the variables of a method; every other name counts as zero. -/
def slotIn (method : Method) (name : String) : Nat :=
  (method.slot? name).getD 0

namespace Emit

variable {method : Method}

theorem load_emits
    (operand : Operand) :
    Emits method (load operand) (fun _ => [pushed (slotIn method) operand]) 0 := by
  intro state after value isCurrent ran
  obtain ⟨slot, _, slotRan, instrRan⟩ := bind_ok_iff.mp ran
  obtain ⟨rfl, name, type, rfl, isSlot⟩ := slotOf_ok isCurrent slotRan
  have isSlot : slotIn method name = slot := by
    rw [slotIn, isSlot, Option.getD_some]
  rw [pushed, isSlot]
  exact Emits.instr (fun _ => rfl) isCurrent instrRan

theorem store_emits
    (dest : Operand) :
    Emits method (store dest) (fun _ => stored (slotIn method) dest) 0 := by
  cases dest with
  | literal value type =>
      exact .throw _
  | var name type =>
      intro state after value isCurrent ran
      obtain ⟨slot, _, slotRan, instrRan⟩ := bind_ok_iff.mp ran
      obtain ⟨rfl, _, _, ⟨rfl, rfl⟩, isSlot⟩ := slotOf_ok isCurrent slotRan
      have isSlot : slotIn method name = slot := by
        rw [slotIn, isSlot, Option.getD_some]
      rw [stored, isSlot]
      exact Emits.instr (fun _ => rfl) isCurrent instrRan

theorem push_emits
    (operand : Operand) :
    Emits method (push operand) (fun _ => [pushed (slotIn method) operand]) 0 := by
  cases operand with
  | literal value type => exact .instr fun _ => rfl
  | var name type => exact load_emits _

theorem pushAll_emits
    (operands : List Operand) :
    Emits method (pushAll operands)
      (fun _ => operands.map (pushed (slotIn method))) 0 := by
  induction operands with
  | nil => exact .pure ()
  | cons first rest inductionHypothesis =>
      exact (push_emits first).follow fun _ => inductionHypothesis

/-- An operator emits its operation, with two labels if it compares. -/
theorem operate_emits
    (operator : Operator) :
    Emits method (operate operator) (fun number => operation number operator)
      (if operator = .less then 2 else 0) := by
  cases operator with
  | less =>
      intro state after value _ ran
      cases ran
      simp [Emitter.append, operation, comparison, labelOf, count]
  | _ => exact .instr fun _ => rfl

/-- A call emits its target, its arguments and its invocation. -/
theorem call_emits
    (unit : ClassCode)
    (call : Code.Call) :
    Emits method
      (Emit.call unit call.kind call.target call.method call.arguments call.result)
      (fun _ => callCode unit (slotIn method) call) 0 := by
  have made (descriptor : String) :
      Emits method
        (do
          pushAll call.arguments
          instr (.invoke call.kind (callee unit call) call.method descriptor
            call.arguments.length (!call.result.isVoid)))
        (fun _ =>
          call.arguments.map (pushed (slotIn method)) ++
            [.invoke call.kind (callee unit call) call.method descriptor
              call.arguments.length (!call.result.isVoid)])
        0 :=
    (pushAll_emits call.arguments).follow fun _ => .instr fun _ => rfl
  intro state after value isCurrent ran
  obtain ⟨owner, _, ownerRan, rest⟩ := bind_ok_iff.mp ran
  obtain ⟨rfl, rfl⟩ := callOwner_ok ownerRan
  unfold callCode
  split at rest
  case isTrue notStatic =>
    rw [if_neg notStatic, List.append_assoc]
    exact ((load_emits _).follow fun _ => made _) isCurrent rest
  case isFalse isStatic =>
    rw [if_pos (not_not.mp isStatic)]
    exact made _ isCurrent rest

/-- The value of an assignment emits its code. -/
theorem value_emits
    (unit : ClassCode)
    (dest : Operand)
    (type : ValueType)
    (source : Code.Instr) :
    Emits method (value unit source)
      (fun number => valueCode unit (slotIn method) number source)
      (labelCount (.assign dest type source)) := by
  cases source with
  | single operand => exact push_emits operand
  | binary operator left right type =>
      have both :=
        (push_emits left).follow fun _ =>
          (push_emits right).follow fun _ => @operate_emits method operator
      cases operator <;> exact both
  | call kind target name arguments result =>
      simp only [value]
      split
      · exact .throw _
      · exact call_emits unit ⟨kind, target, name, arguments, result⟩
  | newObject className type => exact .instr fun _ => rfl
  | newArray size type =>
      refine (push_emits size).follow fun _ => ?_
      cases created : arrayCreation unit type with
      | error error => exact .throw error
      | ok creation =>
          refine .instr fun _ => ?_
          unfold arrayCreation at created
          split at created
          all_goals cases created
          all_goals rfl
  | getField object field =>
      exact (load_emits object).follow fun _ => .instr fun _ => rfl
  | _ => exact .throw _

/-- What is emitted for an instruction. -/
theorem code_emits
    (unit : ClassCode)
    (source : Code.Instr) :
    Emits method (code unit source)
      (fun number => instrCode unit (slotIn method) number source)
      (labelCount source) := by
  cases source with
  | assign dest type source =>
      exact (value_emits unit dest type source).bind fun _ => store_emits dest
  | call kind target name arguments result =>
      refine (call_emits unit ⟨kind, target, name, arguments, result⟩).follow
        fun _ => ?_
      cases result.isVoid with
      | true => exact .pure ()
      | false => exact .instr fun _ => rfl
  | putField object field value =>
      exact (load_emits object).follow fun _ =>
        (push_emits value).follow fun _ => .instr fun _ => rfl
  | ret type result =>
      cases result with
      | none => exact .instr fun _ => rfl
      | some operand =>
          exact (push_emits operand).follow fun _ => .instr fun _ => rfl
  | _ => exact .throw _

/-- What is emitted for a body. -/
theorem codes_emits
    (unit : ClassCode)
    (instrs : List Code.Instr) :
    Emits method (codes unit instrs)
      (fun number => bodyCode unit (slotIn method) number instrs)
      (bodyLabels instrs) := by
  induction instrs with
  | nil => exact .pure ()
  | cons first rest inductionHypothesis =>
      exact (code_emits unit first).bind fun _ => inductionHypothesis

end Emit

/-- The lines that are emitted for a method, with the number of the next label. -/
def methodBlock (unit : ClassCode) (method : Method) (number : Nat) : List Line :=
  let body := bodyCode unit (slotIn method) number method.instrs
  methodLines unit method (body.foldl count {}) body

/-- How many labels the body of a method has. -/
def methodLabels (method : Method) : Nat :=
  bodyLabels method.instrs

/-- The lines that are emitted for methods, with the number of the next label. -/
def methodBlocks (unit : ClassCode) : Nat → List Method → List Line
  | _, [] => []
  | number, first :: rest =>
      .blank :: methodBlock unit first number ++
        methodBlocks unit (number + methodLabels first) rest

namespace Emit

/-- A method is emitted as its block. -/
theorem method_emits
    {unit : ClassCode}
    {method : Method}
    {state after : Emitter}
    {value : Unit}
    (ran : Emit.method unit method state = .ok value after) :
    after.lines = state.lines ++ methodBlock unit method state.labels ∧
      after.labels = state.labels + methodLabels method := by
  obtain ⟨_, _, enterRan, rest⟩ := bind_ok_iff.mp ran
  obtain rfl := modify_ok_iff.mp enterRan
  obtain ⟨_, emitted, codesRan, leaveRan⟩ := bind_ok_iff.mp rest
  obtain rfl := modify_ok_iff.mp leaveRan
  obtain rfl := codes_emits unit method.instrs rfl codesRan
  exact ⟨rfl, rfl⟩

/-- Methods are emitted as their blocks. -/
theorem methods_emits
    {unit : ClassCode}
    {methods : List Method}
    {state after : Emitter}
    {value : Unit}
    (ran : Emit.methods unit methods state = .ok value after) :
    after.lines = state.lines ++ methodBlocks unit state.labels methods := by
  induction methods generalizing state with
  | nil =>
      obtain ⟨_, rfl⟩ := pure_ok_iff.mp ran
      exact (List.append_nil _).symm
  | cons first rest inductionHypothesis =>
      obtain ⟨_, _, blankRan, afterBlank⟩ := bind_ok_iff.mp ran
      obtain rfl := modify_ok_iff.mp blankRan
      obtain ⟨_, between, firstRan, restRan⟩ := bind_ok_iff.mp afterBlank
      obtain ⟨isLines, isLabels⟩ := method_emits firstRan
      rw [inductionHypothesis restRan, isLines, isLabels]
      simp [methodBlocks, List.append_assoc]

end Emit

/-- An emitted class is known line by line. -/
theorem generate_emits
    {unit : ClassCode}
    {lines : List Line}
    (generated : generate unit = .ok lines) :
    lines = classLines unit ++ methodBlocks unit 0 unit.methods := by
  obtain ⟨state, methodsRan, rfl⟩ := generate_ok generated
  exact Emit.methods_emits methodsRan

/-- The lines up to the end of a method. -/
def untilEnd : List Line → List Line
  | [] => []
  | .methodEnd :: _ => [.methodEnd]
  | line :: rest => line :: untilEnd rest

/--
The methods in an assembly text, each from its header to its end,
the constructor first.
-/
def blocks : List Line → List (List Line)
  | [] => []
  | .methodStart visibility isStatic name descriptor :: rest =>
      (.methodStart visibility isStatic name descriptor :: untilEnd rest) :: blocks
        rest
  | _ :: rest => blocks rest

/-- The lines up to the end of a body are its code. -/
private theorem untilEnd_code
    (body : List Jvm.Instr)
    (rest : List Line) :
    untilEnd (body.map .code ++ .methodEnd :: rest) =
      body.map .code ++ [.methodEnd] := by
  induction body with
  | nil => rfl
  | cons first others inductionHypothesis => simp [untilEnd, inductionHypothesis]

/-- No block starts in the code of a body. -/
private theorem blocks_code
    (body : List Jvm.Instr)
    (rest : List Line) :
    blocks (body.map .code ++ .methodEnd :: rest) = blocks rest := by
  induction body with
  | nil => rfl
  | cons first others inductionHypothesis =>
      simpa [blocks] using inductionHypothesis

/-- The lines of a method are one block. -/
private theorem blocks_methodLines
    (unit : ClassCode)
    (method : Method)
    (limits : Jvm.Limits)
    (body : List Jvm.Instr)
    (rest : List Line) :
    blocks (methodLines unit method limits body ++ rest) =
      methodLines unit method limits body :: blocks rest := by
  simp [methodLines, blocks, untilEnd, untilEnd_code, blocks_code]

/-- The lines before the methods have one block, that of the constructor. -/
private theorem blocks_classLines
    (unit : ClassCode)
    (rest : List Line) :
    ∃ constructor, blocks (classLines unit ++ rest) =
      constructor :: blocks rest := by
  have skipped (fields : List Code.Field) (others : List Line) :
      blocks
          (fields.map (fun field =>
            .field field.visibility field.name (unit.descriptor field.type)) ++
            others) =
        blocks others := by
    induction fields with
    | nil => rfl
    | cons first fields inductionHypothesis =>
        simpa [blocks] using inductionHypothesis
  simp only [classLines, List.append_assoc, List.cons_append, List.nil_append,
    blocks, skipped]
  exact ⟨_, rfl⟩

/-- The blocks of methods are found in their order. -/
private theorem blocks_methodBlocks
    {unit : ClassCode}
    {methods : List Method}
    {number index : Nat}
    {method : Method}
    (methodAt : methods[index]? = some method) :
    ∃ first, (blocks (methodBlocks unit number methods))[index]? =
      some (methodBlock unit method first) := by
  induction methods generalizing number index with
  | nil => cases methodAt
  | cons head rest inductionHypothesis =>
      have isBlocks :
          blocks (methodBlocks unit number (head :: rest)) =
            methodBlock unit head number ::
              blocks (methodBlocks unit (number + methodLabels head) rest) := by
        simp only [methodBlocks, List.cons_append, blocks]
        exact blocks_methodLines _ _ _ _ _
      rw [isBlocks]
      cases index with
      | zero =>
          cases methodAt
          exact ⟨number, rfl⟩
      | succ index => exact inductionHypothesis (by simpa using methodAt)

/--
The block of a method of an emitted class, which depends on the
other methods by a number.
-/
theorem generate_blocks
    {unit : ClassCode}
    {lines : List Line}
    {index : Nat}
    {method : Method}
    (generated : generate unit = .ok lines)
    (methodAt : unit.methods[index]? = some method) :
    ∃ number, (blocks lines)[index + 1]? =
      some (methodBlock unit method number) := by
  obtain ⟨_, isBlocks⟩ := blocks_classLines unit (methodBlocks unit 0 unit.methods)
  rw [generate_emits generated, isBlocks]
  exact blocks_methodBlocks methodAt

end MiniJava.Assembly
