import MiniJava.Proofs.EmittedCode
import MiniJava.Proofs.OwnCalls
import MiniJava.Proofs.SupportedPrograms
import MiniJava.Proofs.TwinLowering

namespace MiniJava

/-!
# Methods compile independently

What is emitted for a method depends on the other methods of its class by the
names of temporaries and the numbers of labels only. Temporaries are emitted by
their slots. So wherever a method stands, its block is the same but for the names
of its labels.
-/

open Code (ClassCode Instr Method Operand ValueType)

namespace Jvm.Instr

/-- The label that an instruction is or jumps to. -/
def label? : Jvm.Instr → Option String
  | .jumpIfLess target => some target
  | .jump target => some target
  | .label name => some name
  | _ => none

/-- An instruction with another name for its label. -/
def relabel (rename : String → String) : Jvm.Instr → Jvm.Instr
  | .jumpIfLess target => .jumpIfLess (rename target)
  | .jump target => .jump (rename target)
  | .label name => .label (rename name)
  | other => other

theorem label?_relabel
    (rename : String → String)
    (instr : Jvm.Instr) :
    (instr.relabel rename).label? = instr.label?.map rename := by
  cases instr <;> rfl

/-- Renaming leaves an instruction without a label as it is. -/
theorem relabel_of_label?
    {instr : Jvm.Instr}
    (rename : String → String)
    (noLabel : instr.label? = none) :
    instr.relabel rename = instr := by
  cases instr with
  | jumpIfLess target => cases noLabel
  | jump target => cases noLabel
  | label name => cases noLabel
  | _ => rfl

end Jvm.Instr

namespace Assembly

namespace Line

/-- The label in a line. -/
def label? : Line → Option String
  | .code instr => instr.label?
  | _ => none

/-- A line with another name for its label. -/
def relabel (rename : String → String) : Line → Line
  | .code instr => .code (instr.relabel rename)
  | other => other

theorem label?_relabel
    (rename : String → String)
    (line : Line) :
    (line.relabel rename).label? = line.label?.map rename := by
  cases line with
  | code instr => exact instr.label?_relabel rename
  | _ => rfl

end Line

/-- Labels of comparisons that differ by their numbers at most. -/
def SameStem (first second : String) : Prop :=
  ∃ stem ∈ ["cmp_true", "cmp_end"], ∃ number other,
    first = labelOf stem number ∧ second = labelOf stem other

/--
Lines that become others by a one-to-one renaming of the labels of comparisons.
-/
def SameUpToLabels (first second : List Line) : Prop :=
  ∃ rename : String → String,
    Set.InjOn rename {label | label ∈ first.filterMap Line.label?} ∧
      (∀ label ∈ first.filterMap Line.label?, SameStem label (rename label)) ∧
        second = first.map (Line.relabel rename)

/-- The label of a stem, with a number so far from a start. -/
def labelAt (start : Nat) (place : Bool × Nat) : String :=
  labelOf (if place.1 then "cmp_true" else "cmp_end") (start + place.2)

/-- Labels of different numbers or stems differ. -/
theorem labelAt_injective
    (start : Nat) :
    Function.Injective (labelAt start) := by
  rintro ⟨isTrue, left⟩ ⟨isOther, right⟩ same
  have numbered (isTrue : Bool) (offset : Nat) :
      Numbered (start + offset) (labelAt start (isTrue, offset)) := by
    cases isTrue
    · exact .inr rfl
    · exact .inl rfl
  have sameNumber := (numbered isTrue left).unique (same ▸ numbered isOther right)
  obtain rfl := Nat.add_left_cancel sameNumber
  cases isTrue <;> cases isOther
  · rfl
  · exact (Numbered.stems_differ _ _ same.symm).elim
  · exact (Numbered.stems_differ _ _ same).elim
  · rfl

/-- Labels at one place have the same stem, whatever their numbers. -/
theorem sameStem_labelAt
    (first second : Nat)
    (place : Bool × Nat) :
    SameStem (labelAt first place) (labelAt second place) := by
  refine ⟨if place.1 then "cmp_true" else "cmp_end", ?_, _, _, rfl, rfl⟩
  cases place.1 <;> decide

/-- A renaming of labels that moves their numbers, from one on to another on. -/
def Shifts (rename : String → String) (first second : Nat) : Prop :=
  ∀ place, rename (labelAt first place) = labelAt second place

/-- The numbers of labels can be moved, whatever becomes of all other texts. -/
theorem shifts_extend
    (first second : Nat)
    (others : String → String) :
    Shifts (Function.extend (labelAt first) (labelAt second) others) first second :=
  fun place => (labelAt_injective first).extend_apply (labelAt second) others place

section

variable {unit : ClassCode} {slot : String → Nat} {rename : String → String}
  {first second : Nat}

/-- An operation with shifted labels is renamed to the same operation. -/
theorem operation_relabel
    (shifts : Shifts rename first second)
    (offset : Nat)
    (operator : Operator) :
    (operation (first + offset) operator).map (Jvm.Instr.relabel rename) =
      operation (second + offset) operator := by
  cases operator with
  | less =>
      have onTrue :
          rename (labelOf "cmp_true" (first + offset)) =
            labelOf "cmp_true" (second + offset) :=
        shifts (true, offset)
      have done :
          rename (labelOf "cmp_end" (first + offset + 1)) =
            labelOf "cmp_end" (second + offset + 1) :=
        shifts (false, offset + 1)
      simp [operation, comparison, Jvm.Instr.relabel, onTrue, done]
  | _ => rfl

/-- Code without labels has nothing to rename. -/
theorem map_relabel_of_label?
    {code : List Jvm.Instr}
    (rename : String → String)
    (noLabel : ∀ instr ∈ code, instr.label? = none) :
    code.map (Jvm.Instr.relabel rename) = code :=
  map_eq_self_iff.mpr fun instr member =>
    instr.relabel_of_label? rename (noLabel instr member)

theorem label?_pushed
    (operand : Operand) :
    (pushed slot operand).label? = none := by
  cases operand <;> rfl

theorem label?_stored
    (dest : Operand) :
    ∀ instr ∈ stored slot dest, instr.label? = none := by
  cases dest <;> simp [stored, Jvm.Instr.label?]

/-- The code of a call has no labels. -/
theorem label?_callCode
    (call : Code.Call) :
    ∀ instr ∈ callCode unit slot call, instr.label? = none := by
  intro instr member
  simp only [callCode, List.mem_append, List.mem_map, List.mem_singleton] at member
  rcases member with (isTarget | ⟨argument, _, rfl⟩) | rfl
  · split at isTarget
    · cases isTarget
    · rw [List.mem_singleton.mp isTarget, label?_pushed]
  · exact label?_pushed argument
  · rfl

/--
Only comparisons have labels, so the code of a value depends on the
next label by names.
-/
theorem valueCode_relabel
    (shifts : Shifts rename first second)
    (offset : Nat)
    (source : Instr) :
    (valueCode unit slot (first + offset) source).map (Jvm.Instr.relabel rename) =
      valueCode unit slot (second + offset) source := by
  cases source with
  | binary operator left right type =>
      simp only [valueCode, List.map_append, operation_relabel shifts]
      congr 1
      exact map_relabel_of_label? rename (by simp [label?_pushed])
  | single operand =>
      exact map_relabel_of_label? rename
        (List.forall_mem_singleton.mpr (label?_pushed operand))
  | call kind target method arguments result =>
      exact map_relabel_of_label? rename (label?_callCode _)
  | newArray size type =>
      refine map_relabel_of_label? rename
        (List.forall_mem_cons.mpr ⟨label?_pushed size, ?_⟩)
      unfold Emit.arrayCreation
      split <;> simp [Except.toOption, Jvm.Instr.label?]
  | getField object field =>
      exact map_relabel_of_label? rename
        (List.forall_mem_cons.mpr
          ⟨label?_pushed object, List.forall_mem_singleton.mpr rfl⟩)
  | _ => rfl

/-- The code of an instruction with shifted labels is renamed to the same code. -/
theorem instrCode_relabel
    (shifts : Shifts rename first second)
    (offset : Nat)
    (source : Instr) :
    (instrCode unit slot (first + offset) source).map (Jvm.Instr.relabel rename) =
      instrCode unit slot (second + offset) source := by
  cases source with
  | assign dest type value =>
      simp only [instrCode, List.map_append, valueCode_relabel shifts]
      congr 1
      exact map_relabel_of_label? rename (label?_stored dest)
  | call kind target method arguments result =>
      simp only [instrCode, List.map_append]
      rw [map_relabel_of_label? rename (label?_callCode _)]
      congr 1
      split <;> rfl
  | putField object field value =>
      exact map_relabel_of_label? rename
        (List.forall_mem_cons.mpr ⟨label?_pushed object,
          List.forall_mem_cons.mpr
            ⟨label?_pushed value, List.forall_mem_singleton.mpr rfl⟩⟩)
  | ret type value =>
      cases value with
      | none => rfl
      | some result =>
          exact map_relabel_of_label? rename
            (List.forall_mem_cons.mpr
              ⟨label?_pushed result, List.forall_mem_singleton.mpr rfl⟩)
  | _ => rfl

/--
A body whose labels start at another number is the body with its labels renamed.
-/
theorem bodyCode_relabel
    (shifts : Shifts rename first second)
    (offset : Nat)
    (instrs : List Instr) :
    (bodyCode unit slot (first + offset) instrs).map (Jvm.Instr.relabel rename) =
      bodyCode unit slot (second + offset) instrs := by
  induction instrs generalizing offset with
  | nil => rfl
  | cons head rest inductionHypothesis =>
      simp only [bodyCode, List.map_append, instrCode_relabel shifts, Nat.add_assoc,
        inductionHypothesis]

/-- Limits do not count the names of labels. -/
theorem count_relabel
    (limits : Jvm.Limits)
    (code : List Jvm.Instr) :
    (code.map (Jvm.Instr.relabel rename)).foldl count limits =
      code.foldl count limits := by
  induction code generalizing limits with
  | nil => rfl
  | cons head rest inductionHypothesis =>
      rw [List.map_cons, List.foldl_cons, List.foldl_cons, inductionHypothesis]
      cases head <;> rfl

/--
A block whose labels start at another number is the block with its labels renamed.
-/
theorem methodBlock_relabel
    (shifts : Shifts rename first second)
    (method : Method) :
    (methodBlock unit method first).map (Line.relabel rename) =
      methodBlock unit method second := by
  have isBody := @bodyCode_relabel unit (slotIn method) _ _ _ shifts 0 method.instrs
  rw [Nat.add_zero, Nat.add_zero] at isBody
  rw [methodBlock, methodBlock, ← isBody, count_relabel]
  simp [methodLines, Line.relabel, Function.comp_def]

/-- All labels of a block are numbered from a start on. -/
theorem exists_labelAt
    {method : Method}
    {start : Nat}
    {label : String}
    (member : label ∈ (methodBlock unit method start).filterMap Line.label?) :
    ∃ place, labelAt start place = label := by
  by_contra noPlace
  -- A renaming of all other texts leaves the block as it is, so it has no other
  -- label.
  have unchanged :=
    @methodBlock_relabel unit _ _ _ (shifts_extend start start (· ++ "_")) method
  obtain ⟨line, isLine, isLabel⟩ := List.mem_filterMap.mp member
  have sameLabel := congrArg Line.label? (map_eq_self_iff.mp unchanged line isLine)
  rw [Line.label?_relabel, isLabel, Option.map_some,
    Function.extend_apply' _ _ _ noPlace] at sameLabel
  have sameLength := congrArg String.length (Option.some.inj sameLabel)
  simp at sameLength

/--
Blocks whose labels start at different numbers are the same up to their labels.
-/
theorem methodBlock_sameUpToLabels
    (unit : ClassCode)
    (method : Method)
    (first second : Nat) :
    SameUpToLabels (methodBlock unit method first)
      (methodBlock unit method second) := by
  have shifts := shifts_extend first second id
  refine ⟨_, ?_, ?_, (methodBlock_relabel shifts method).symm⟩
  · intro label member other otherMember same
    obtain ⟨place, rfl⟩ := exists_labelAt member
    obtain ⟨otherPlace, rfl⟩ := exists_labelAt otherMember
    rw [shifts place, shifts otherPlace] at same
    rw [labelAt_injective second same]
  · intro label member
    obtain ⟨place, rfl⟩ := exists_labelAt member
    rw [shifts place]
    exact sameStem_labelAt first second place

end

section

variable {symbols : Symbols} {name : String} {twins : Twins symbols name}

/-- Operands alike are pushed by the same instruction. -/
theorem pushed_alike
    {left right : Operand}
    (alike : twins.Operands left right) :
    pushed (slotIn twins.first) left = pushed (slotIn twins.second) right := by
  cases alike with
  | literal value type => rfl
  | steady type isSteady =>
      simp only [pushed, slotIn, Method.slot?, twins.table _ isSteady]
  | placed type isFirst isSecond =>
      simp only [pushed, slotIn, isFirst, isSecond]

/-- Operands alike are stored by the same code. -/
theorem stored_alike
    {left right : Operand}
    (alike : twins.Operands left right) :
    stored (slotIn twins.first) left = stored (slotIn twins.second) right := by
  cases alike with
  | literal value type => rfl
  | steady type isSteady =>
      simp only [stored, slotIn, Method.slot?, twins.table _ isSteady]
  | placed type isFirst isSecond =>
      simp only [stored, slotIn, isFirst, isSecond]

/-- Calls alike have the same code. -/
theorem callCode_alike
    (unit : ClassCode)
    {kind : Code.CallKind}
    {firstTarget secondTarget : Operand}
    {firstArguments secondArguments : List Operand}
    (method : String)
    (result : ValueType)
    (target : twins.Operands firstTarget secondTarget)
    (static : kind = .static → firstTarget = secondTarget)
    (arguments : List.Forall₂ twins.Operands firstArguments secondArguments) :
    callCode unit (slotIn twins.first)
      ⟨kind, firstTarget, method, firstArguments, result⟩ =
      callCode unit (slotIn twins.second)
        ⟨kind, secondTarget, method, secondArguments, result⟩ := by
  have samePushed :
      firstArguments.map (pushed (slotIn twins.first)) =
        secondArguments.map (pushed (slotIn twins.second)) := by
    rw [← List.forall₂_eq_eq_eq, List.forall₂_map_left_iff,
      List.forall₂_map_right_iff]
    exact arguments.imp fun _ _ => pushed_alike
  have sameTypes :
      firstArguments.map Operand.type = secondArguments.map Operand.type := by
    rw [← List.forall₂_eq_eq_eq, List.forall₂_map_left_iff,
      List.forall₂_map_right_iff]
    exact arguments.imp fun _ _ alike => alike.type_eq
  have sameCallee :
      callee unit ⟨kind, firstTarget, method, firstArguments, result⟩ =
        callee unit ⟨kind, secondTarget, method, secondArguments, result⟩ := by
    by_cases isStatic : kind = .static
    · rw [static isStatic]
      rfl
    · rw [callee_of_not_static unit isStatic, callee_of_not_static unit isStatic]
      exact congrArg _ target.type_eq
  simp only [callCode, invocation, pushed_alike target, samePushed, sameTypes,
    sameCallee, arguments.length_eq]

/-- Values that are alike have the same code. -/
theorem valueCode_alike
    (unit : ClassCode)
    (number : Nat)
    {left right : Instr}
    (alike : twins.Instrs left right) :
    valueCode unit (slotIn twins.first) number left =
      valueCode unit (slotIn twins.second) number right := by
  cases alike with
  | single operand => simp only [valueCode, pushed_alike operand]
  | binary operator type left right =>
      simp only [valueCode, pushed_alike left, pushed_alike right]
  | call method result target static arguments =>
      exact callCode_alike unit method result target static arguments
  | newArray type size => simp only [valueCode, pushed_alike size]
  | getField field object => simp only [valueCode, pushed_alike object]
  | _ => rfl

/-- Instructions that are alike have the same code and as many labels. -/
theorem instrCode_alike
    (unit : ClassCode)
    (number : Nat)
    {left right : Instr}
    (alike : twins.Instrs left right) :
    instrCode unit (slotIn twins.first) number left =
        instrCode unit (slotIn twins.second) number right ∧
      labelCount left = labelCount right := by
  cases alike with
  | assign type dest value =>
      refine ⟨?_, ?_⟩
      · simp only [instrCode, valueCode_alike unit number value, stored_alike dest]
      · cases value with
        | binary operator type left right => cases operator <;> rfl
        | _ => rfl
  | call method result target static arguments =>
      simp only [instrCode,
        callCode_alike unit method result target static arguments, labelCount,
        and_self]
  | putField field object value =>
      simp only [instrCode, pushed_alike object, pushed_alike value, labelCount,
        and_self]
  | ret type operand =>
      simp only [instrCode, pushed_alike operand, labelCount, and_self]
  | _ => exact ⟨rfl, rfl⟩

/--
Methods that are alike have the same block, where their labels start
at the same number.
-/
theorem methodBlock_alike
    (unit : ClassCode)
    (number : Nat)
    (twins : Twins symbols name) :
    methodBlock unit twins.first number = methodBlock unit twins.second number := by
  have sameCode {first second : List Instr}
      (alike : List.Forall₂ twins.Instrs first second) (number : Nat) :
      bodyCode unit (slotIn twins.first) number first =
        bodyCode unit (slotIn twins.second) number second := by
    induction alike generalizing number with
    | nil => rfl
    | cons head _ inductionHypothesis =>
        obtain ⟨sameHead, sameCount⟩ := instrCode_alike unit number head
        rw [bodyCode, bodyCode, sameHead, sameCount, inductionHypothesis]
  simp only [methodBlock, methodLines, sameCode twins.instrs number,
    twins.visibility, twins.isStatic, twins.isFirst, twins.isSecond, twins.params,
    twins.returnType,
    Method.baseSlot]

end

/--
The code of an instruction depends on the name and the imports of its class only.
-/
theorem instrCode_withMethods
    (unit : ClassCode)
    (methods : List Method)
    (slot : String → Nat)
    (number : Nat)
    (instr : Instr) :
    instrCode { unit with methods } slot number instr =
      instrCode unit slot number instr := by
  have sameOwner (type : ValueType) :
      Jvm.ownerPath { unit with methods } type = Jvm.ownerPath unit type := by
    cases type with
    | object name => rfl
    | string => rfl
    | _ => simp only [Jvm.ownerPath, ClassCode.descriptor_withMethods]
  have sameInvocation (call : Code.Call) :
      invocation { unit with methods } call = invocation unit call := by
    have sameCallee : callee { unit with methods } call = callee unit call := by
      unfold callee
      split
      · rfl
      · exact sameOwner _
    simp only [invocation, sameCallee, ClassCode.methodDescriptor,
      ClassCode.descriptor_withMethods]
  have sameCall (call : Code.Call) :
      callCode { unit with methods } slot call = callCode unit slot call := by
    simp only [callCode, sameInvocation]
  cases instr with
  | assign dest type value =>
      cases value with
      | call kind target method arguments result =>
          simp only [instrCode, valueCode, sameCall]
      | getField object field =>
          simp only [instrCode, valueCode, ClassCode.descriptor_withMethods]
      | _ => rfl
  | call kind target method arguments result => simp only [instrCode, sameCall]
  | putField object field value =>
      simp only [instrCode, ClassCode.descriptor_withMethods]
  | ret type value => cases value <;> rfl
  | _ => rfl

/-- A block depends on the name and the imports of its class only. -/
theorem methodBlock_withMethods
    (unit : ClassCode)
    (methods : List Method)
    (method : Method)
    (number : Nat) :
    methodBlock { unit with methods } method number =
      methodBlock unit method number := by
  have sameCode (slot : String → Nat) (number : Nat) (instrs : List Instr) :
      bodyCode { unit with methods } slot number instrs =
        bodyCode unit slot number instrs := by
    induction instrs generalizing number with
    | nil => rfl
    | cons first rest inductionHypothesis =>
        rw [bodyCode, bodyCode, instrCode_withMethods, inductionHypothesis]
  simp only [methodBlock, methodLines, sameCode, ClassCode.methodDescriptor,
    ClassCode.descriptor_withMethods]

end Assembly

/--
Without a budget, the lines of a class are emitted for its methods
as they were lowered.
-/
theorem generate_of_assemble_zero
    {code : ClassCode}
    {text : String}
    (assembled : (assemble 0 code).2 = .ok text) :
    ∃ lines, Assembly.generate code = .ok lines ∧ Assembly.render lines = text := by
  have isGenerated : assembledLines 0 code = Assembly.generate code := by
    rw [assembledLines, Register.allocateClass, Register.allocateMethods_zero]
  rw [assemble_eq_render, isGenerated] at assembled
  cases generated : Assembly.generate code with
  | error error =>
      rw [generated] at assembled
      cases assembled
  | ok lines =>
      rw [generated] at assembled
      cases assembled
      exact ⟨lines, rfl, rfl⟩

/--
A method of a lowered program has its block among the lines, numbered in some way.
-/
theorem Program.lower_block
    {symbols : Symbols}
    {program : Program}
    {code : ClassCode}
    {lines : List Assembly.Line}
    {index : Nat}
    {source : MethodDef}
    (lowered : program.lower symbols = .ok code)
    (generated : Assembly.generate code = .ok lines)
    (sourceAt : program.mainClass.methods[index]? = some source) :
    ∃ method state after number,
      state.assigned? = none ∧
        Lower.method symbols source state = .ok method after ∧
          (Assembly.blocks lines)[index + 1]? =
            some
              (Assembly.methodBlock (Lowering.start symbols).output method
                number) := by
  have related :=
    Program.lower_forall₂
      (fun source _ state after method unassigned ran =>
        (⟨state, after, unassigned, ran⟩ :
          ∃ state after, state.assigned? = none ∧
            Lower.method symbols source state = .ok method after))
      lowered
  obtain ⟨loweredAll, isClass⟩ := related
  obtain ⟨method, methodAt, state, after, unassigned, ran⟩ :=
    forall₂_getElem? loweredAll sourceAt
  obtain ⟨number, blockAt⟩ := Assembly.generate_blocks generated methodAt
  refine ⟨method, state, after, number, unassigned, ran, ?_⟩
  rw [blockAt, isClass, Assembly.methodBlock_withMethods]

/--
Methods compile independently. Where a method occurs in two programs that are
lowered with the same symbols, and each name of its body with the form of a
temporary is declared, the blocks that are emitted for it without a budget are
the same up to a one-to-one renaming of the labels of comparisons.
-/
theorem methods_compile_independently
    {symbols : Symbols}
    {first second : Program}
    {firstCode secondCode : ClassCode}
    {firstText secondText : String}
    {firstIndex secondIndex : Nat}
    {source : MethodDef}
    (firstLowered : first.lower symbols = .ok firstCode)
    (secondLowered : second.lower symbols = .ok secondCode)
    (firstAssembled : (assemble 0 firstCode).2 = .ok firstText)
    (secondAssembled : (assemble 0 secondCode).2 = .ok secondText)
    (firstAt : first.mainClass.methods[firstIndex]? = some source)
    (secondAt : second.mainClass.methods[secondIndex]? = some source)
    (declared : source.TemporariesDeclared symbols) :
    ∃ firstLines secondLines firstBlock secondBlock,
      Assembly.generate firstCode = .ok firstLines ∧
        Assembly.render firstLines = firstText ∧
          Assembly.generate secondCode = .ok secondLines ∧
            Assembly.render secondLines = secondText ∧
              (Assembly.blocks firstLines)[firstIndex + 1]? = some firstBlock ∧
                (Assembly.blocks secondLines)[secondIndex + 1]? = some secondBlock ∧
                  Assembly.SameUpToLabels firstBlock secondBlock := by
  obtain ⟨firstLines, firstGenerated, isFirst⟩ :=
    generate_of_assemble_zero firstAssembled
  obtain ⟨secondLines, secondGenerated, isSecond⟩ :=
    generate_of_assemble_zero secondAssembled
  obtain ⟨_, firstState, _, firstNumber, firstUnassigned, firstRan, firstBlock⟩ :=
    Program.lower_block firstLowered firstGenerated firstAt
  obtain ⟨_, secondState, _, secondNumber, secondUnassigned, secondRan,
    secondBlock⟩ :=
    Program.lower_block secondLowered secondGenerated secondAt
  -- A name of the body that is not declared has no form of a temporary.
  obtain ⟨twins, rfl, rfl⟩ :=
    Lower.method_twins declared (firstUnassigned.trans secondUnassigned.symm)
      firstRan secondRan
  refine ⟨firstLines, secondLines, _, _, firstGenerated, isFirst, secondGenerated,
    isSecond, firstBlock, secondBlock, ?_⟩
  rw [← Assembly.methodBlock_alike]
  exact Assembly.methodBlock_sameUpToLabels _ _ firstNumber secondNumber

/--
A method that compares the value of a call, with a local that is
named like a temporary.
-/
private def comparing : MethodDef where
  name := "compare"
  returnType := .boolean
  params := [⟨"n", .int⟩]
  locals := [⟨"tmp0", .int⟩, ⟨"b", .boolean⟩]
  body :=
    [.assign "tmp0" .int
        (.binary .mul (.var "n" .int)
          (.call (.var "io" .imported) "read" [] .imported) .int),
      .assign "b" .boolean
        (.binary .less (.var "tmp0" .int) (.var "n" .int) .boolean),
      .ret (some (.binary .and (.var "b" .boolean)
        (.binary .less (.literal (.int 0)) (.var "n" .int) .boolean) .boolean))]

/-- A method with labels and temporaries of its own. -/
private def preceding : MethodDef where
  name := "precede"
  returnType := .boolean
  params := [⟨"n", .int⟩]
  body :=
    [.ret
      (some (.binary .less (.binary .add (.var "n" .int) (.literal (.int 1)) .int)
      (.binary .sub (.var "n" .int) (.literal (.int 1)) .int) .boolean))]

private def aloneProgram : Program where
  imports := ["io"]
  mainClass := { name := "A", methods := [comparing] }

private def behindProgram : Program where
  imports := ["io"]
  mainClass := { name := "A", methods := [preceding, comparing] }

/--
Alone and behind another method, the method has the same block up to its labels.
-/
theorem methods_compile_independently_comparing :
    ∃ aloneCode behindCode aloneLines behindLines aloneBlock behindBlock,
      aloneProgram.lower (.ofProgram behindProgram) = .ok aloneCode ∧
        behindProgram.lower (.ofProgram behindProgram) = .ok behindCode ∧
          Assembly.generate aloneCode = .ok aloneLines ∧
            Assembly.generate behindCode = .ok behindLines ∧
              (Assembly.blocks aloneLines)[1]? = some aloneBlock ∧
                (Assembly.blocks behindLines)[2]? = some behindBlock ∧
                  Assembly.SameUpToLabels aloneBlock behindBlock := by
  have aloneSucceeds :
      (aloneProgram.lower (.ofProgram behindProgram)).toOption.map
          (fun code => (assemble 0 code).2.toOption.isSome) =
        some true := by
    decide +kernel
  have behindSucceeds :
      (behindProgram.lower (.ofProgram behindProgram)).toOption.map
          (fun code => (assemble 0 code).2.toOption.isSome) =
        some true := by
    decide +kernel
  obtain ⟨aloneCode, aloneLowered, aloneAssembles⟩ := exists_ok_of_map aloneSucceeds
  obtain ⟨behindCode, behindLowered, behindAssembles⟩ :=
    exists_ok_of_map behindSucceeds
  obtain ⟨_, aloneAssembled⟩ := exists_ok_of_isSome aloneAssembles
  obtain ⟨_, behindAssembled⟩ := exists_ok_of_isSome behindAssembles
  obtain ⟨aloneLines, behindLines, aloneBlock, behindBlock, aloneGenerated, _,
      behindGenerated, _, alike⟩ :=
    @methods_compile_independently _ _ _ _ _ _ _ 0 1 comparing aloneLowered
      behindLowered aloneAssembled behindAssembled rfl rfl (by decide +kernel)
  exact ⟨aloneCode, behindCode, aloneLines, behindLines, aloneBlock, behindBlock,
    aloneLowered, behindLowered, aloneGenerated, behindGenerated, alike⟩

end MiniJava
