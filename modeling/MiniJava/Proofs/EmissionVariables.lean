import MiniJava.Assembly.Generation
import MiniJava.Proofs.CodeAgreement
import MiniJava.Proofs.Collections
import MiniJava.Proofs.EmissionSimulation

namespace MiniJava.Assembly

/-!
# What can be emitted

A class can be emitted exactly if each instruction has a shape that the machine
has instructions for, and the table of its method has every variable that it
uses or writes to. The target of a static call is no variable, so the table need
not have it.
-/

open Code (Operand Method ClassCode CallKind ValueType)

/-- The table of a method has the variable that an operand names. -/
def HasVariable (operand : Operand) (method : Method) : Prop :=
  ∀ name, operand.name? = some name → name ∈ method.table

/-- The table of a method has what an instruction uses and writes to. -/
structure HasVariablesOf (instr : Code.Instr) (method : Method) : Prop where
  used : ∀ operand ∈ instr.used, HasVariable operand method
  destination : ∀ name, instr.destination? = some name → name ∈ method.table

/-- Whether objects of a type have methods. -/
def hasMethods : ValueType → Bool
  | .object _ | .string => true
  | _ => false

/-- Whether a target is a class or an object whose methods can be called. -/
def isCallable (kind : CallKind) (target : Operand) : Bool :=
  !target.isLiteral && (kind = .static || hasMethods target.type)

/-- Whether the machine can create arrays of a type. -/
def isCreatable : ValueType → Bool
  | .array .int | .array .boolean | .array .string | .array (.object _) => true
  | _ => false

/-- Whether an instruction has a value that can be assigned. -/
def isEmittableValue : Code.Instr → Bool
  | .single _ | .binary _ _ _ _ | .newObject _ _ => true
  | .call kind target _ _ result => !result.isVoid && isCallable kind target
  | .newArray _ type => isCreatable type
  | .getField object _ => !object.isLiteral
  | _ => false

/-- Whether the machine has instructions for an instruction. -/
def isEmittable : Code.Instr → Bool
  | .assign dest _ source => isEmittableValue source && !dest.isLiteral
  | .call kind target _ _ _ => isCallable kind target
  | .putField object _ _ => !object.isLiteral
  | .ret _ _ => true
  | _ => false

/--
A step of emission stays in its method and succeeds exactly if a
demand on the method is met.
-/
def Demands {α : Type} (step : Emit α) (demand : Method → Prop) : Prop :=
  ∀ ⦃state : Emitter⦄ ⦃method : Method⦄,
    state.current? = some method →
      (∃ value after,
          step state = .ok value after ∧ after.current? = some method ∧
            demand method) ∨
        ∃ error after, step state = .error error after ∧ ¬demand method

namespace Demands

variable {α β : Type} {step : Emit α} {rest : α → Emit β}
  {demand later : Method → Prop}

/-- A step followed by others demands what all of them demand. -/
theorem bind
    (first : Demands step demand)
    (second : ∀ value, Demands (rest value) later) :
    Demands (step >>= rest) fun method => demand method ∧ later method := by
  intro state method current
  rcases first current with
    ⟨value, between, ran, stillCurrent, met⟩ | ⟨error, after, stopped, unmet⟩
  · rw [bind_of_ok ran]
    rcases second value stillCurrent with
      ⟨result, after, restRan, finallyCurrent, laterMet⟩ | ⟨error, after,
        stopped, unmet⟩
    · exact .inl ⟨result, after, restRan, finallyCurrent, met, laterMet⟩
    · exact .inr ⟨error, after, stopped, fun both => unmet both.2⟩
  · rw [bind_of_error stopped]
    exact .inr ⟨error, after, rfl, fun both => unmet both.1⟩

theorem congr
    (demands : Demands step demand)
    (same : ∀ method, demand method ↔ later method) :
    Demands step later := by
  intro state method current
  have alike := same method
  simpa only [alike] using demands current

theorem pure
    (value : α) :
    Demands (Pure.pure value) fun _ => True := by
  intro state method current
  exact .inl ⟨value, state, rfl, current, trivial⟩

theorem throw
    (error : CompileError)
    (impossible : ∀ method, ¬demand method) :
    Demands (MonadExcept.throw error : Emit α) demand := by
  intro state method _
  exact .inr ⟨error, state, rfl, impossible method⟩

/-- What a step demands is met exactly if it succeeds. -/
theorem ok_iff
    (demands : Demands step demand)
    {state : Emitter}
    {method : Method}
    (current : state.current? = some method) :
    (∃ value after, step state = .ok value after) ↔ demand method := by
  rcases demands current with
    ⟨value, after, ran, _, met⟩ | ⟨error, after, stopped, unmet⟩
  · exact iff_of_true ⟨value, after, ran⟩ met
  · refine iff_of_false ?_ unmet
    rintro ⟨value, other, ran⟩
    cases stopped.symm.trans ran

end Demands

namespace Emit

/-- The slot of an operand demands that the operand is a variable of the method. -/
theorem slotOf_demands
    (operand : Operand) :
    Demands (slotOf operand) fun method =>
      operand.isLiteral = false ∧ HasVariable operand method := by
  intro state method current
  unfold slotOf
  rw [bind_of_ok (get_ok_iff.mpr ⟨rfl, rfl⟩)]
  simp only [current]
  cases operand with
  | literal value type =>
      exact .inr ⟨_, state, rfl, fun met => Bool.noConfusion met.1⟩
  | var name type =>
      simp only [Operand.name?]
      cases located : method.slot? name with
      | none =>
          refine .inr ⟨_, state, rfl, ?_⟩
          rintro ⟨_, hasVariable⟩
          obtain ⟨entry, isEntry⟩ :=
            mem_iff_exists_getElem?.mp (hasVariable name rfl)
          simp [Method.slot?, isEntry] at located
      | some slot =>
          refine .inl ⟨slot, state, rfl, current, rfl, ?_⟩
          rintro _ ⟨rfl⟩
          obtain ⟨entry, isEntry, _⟩ := Option.map_eq_some_iff.mp located
          exact mem_iff_exists_getElem?.mpr ⟨entry, isEntry⟩

theorem instr_demands
    (added : Jvm.Instr) :
    Demands (instr added) fun _ => True := by
  intro state method current
  exact .inl ⟨(), _, rfl, current, trivial⟩

theorem load_demands
    (operand : Operand) :
    Demands (load operand) fun method =>
      operand.isLiteral = false ∧ HasVariable operand method :=
  ((slotOf_demands operand).bind fun _ => instr_demands _).congr fun _ =>
    and_iff_left trivial

theorem store_demands
    (dest : Operand) :
    Demands (store dest) fun method => dest.isLiteral = false ∧
      HasVariable dest method := by
  cases dest with
  | literal value type =>
      exact .throw _ fun _ met => Bool.noConfusion met.1
  | var name type =>
      exact ((slotOf_demands _).bind fun _ => instr_demands _).congr fun _ =>
        and_iff_left trivial

theorem push_demands
    (operand : Operand) :
    Demands (push operand) (HasVariable operand) := by
  cases operand with
  | var name type =>
      exact (load_demands (.var name type)).congr fun _ => and_iff_right rfl
  | literal value type =>
      exact (instr_demands _).congr fun _ => iff_of_true trivial nofun

theorem pushAll_demands
    (operands : List Operand) :
    Demands (pushAll operands) fun method => ∀ operand ∈ operands,
      HasVariable operand method := by
  induction operands with
  | nil =>
      exact (Demands.pure ()).congr fun _ => iff_of_true trivial nofun
  | cons first rest inductionHypothesis =>
      refine ((push_demands first).bind fun _ => inductionHypothesis).congr
        fun method => ?_
      rw [List.forall_mem_cons]

theorem operate_demands
    (operator : Operator) :
    Demands (operate operator) fun _ => True := by
  intro state method current
  cases operator <;> exact .inl ⟨(), _, rfl, current, trivial⟩

/-- A call demands a target that has methods, or the name of a class. -/
theorem callOwner_demands
    (unit : ClassCode)
    (kind : CallKind)
    (target : Operand) :
    Demands (callOwner unit kind target) fun _ =>
      if kind = .static then target.isLiteral = false
        else hasMethods target.type = true := by
  unfold callOwner
  by_cases isStatic : kind = .static
  · simp only [isStatic, ↓reduceIte]
    cases target with
    | literal value type => exact .throw _ fun _ => nofun
    | var name type => exact (Demands.pure _).congr fun _ => iff_of_true trivial rfl
  · simp only [isStatic, ↓reduceIte]
    cases target.type with
    | object name => exact (Demands.pure _).congr fun _ => iff_of_true trivial rfl
    | string => exact (Demands.pure _).congr fun _ => iff_of_true trivial rfl
    | _ => exact .throw _ fun _ => nofun

/-- A call demands its arguments and, unless it is static, its target. -/
theorem call_demands
    (unit : ClassCode)
    (kind : CallKind)
    (target : Operand)
    (name : String)
    (arguments : List Operand)
    (result : ValueType) :
    Demands (call unit kind target name arguments result) fun method =>
      isCallable kind target = true ∧
        ∀ operand ∈ (Code.Instr.call kind target name arguments result).used,
          HasVariable operand method := by
  have pushed (owner descriptor : String) :
      Demands (do
          pushAll arguments
          instr (.invoke kind owner name descriptor arguments.length
            (!result.isVoid))) fun method =>
        ∀ operand ∈ arguments, HasVariable operand method :=
    ((pushAll_demands arguments).bind fun _ => instr_demands _).congr fun _ =>
      and_iff_left trivial
  have onTarget (owner descriptor : String) :
      Demands (do
          load target
          pushAll arguments
          instr (.invoke kind owner name descriptor arguments.length
            (!result.isVoid))) fun method =>
        target.isLiteral = false ∧ ∀ operand ∈ target :: arguments,
          HasVariable operand method := by
    refine ((load_demands target).bind fun _ => pushed owner descriptor).congr
      fun method => ?_
    rw [List.forall_mem_cons, and_assoc]
  have sameDemand (method : Method) :
      hasMethods target.type = true ∧
          target.isLiteral = false ∧
            (∀ operand ∈ target :: arguments, HasVariable operand method) ↔
        (target.isLiteral = false ∧ hasMethods target.type = true) ∧
          ∀ operand ∈ target :: arguments, HasVariable operand method :=
    and_left_comm.trans and_assoc.symm
  cases kind with
  | static =>
      refine ((callOwner_demands unit .static target).bind fun _ =>
        pushed _ _).congr fun method => ?_
      simp [isCallable, Code.Instr.used]
  | virtual =>
      refine ((callOwner_demands unit .virtual target).bind fun _ =>
        onTarget _ _).congr fun method => (sameDemand method).trans ?_
      simp [isCallable, Code.Instr.used, Register.operandsOf]
  | special =>
      refine ((callOwner_demands unit .special target).bind fun _ =>
        onTarget _ _).congr fun method => (sameDemand method).trans ?_
      simp [isCallable, Code.Instr.used, Register.operandsOf]

/-- The creation of an array demands a type that can be created. -/
theorem arrayCreation_demands
    (unit : ClassCode)
    (type : ValueType) :
    Demands (match arrayCreation unit type with
        | .ok creation => instr creation
        | .error error => throw error) fun _ => isCreatable type = true := by
  cases type with
  | array item =>
      cases item with
      | int => exact (instr_demands _).congr fun _ => iff_of_true trivial rfl
      | boolean => exact (instr_demands _).congr fun _ => iff_of_true trivial rfl
      | string => exact (instr_demands _).congr fun _ => iff_of_true trivial rfl
      | object name =>
          exact (instr_demands _).congr fun _ => iff_of_true trivial rfl
      | _ => exact .throw _ fun _ => nofun
  | _ => exact .throw _ fun _ => nofun

/-- The value of an assignment demands its shape and the variables it uses. -/
theorem value_demands
    (unit : ClassCode)
    (source : Code.Instr) :
    Demands (value unit source) fun method =>
      isEmittableValue source = true ∧ ∀ operand ∈ source.used,
        HasVariable operand method := by
  cases source with
  | single operand =>
      refine (push_demands operand).congr fun method => ?_
      simp [isEmittableValue, Code.Instr.used, Register.operandsOf]
  | binary operator left right type =>
      refine ((push_demands left).bind fun _ =>
        (push_demands right).bind fun _ => operate_demands operator).congr
        fun method => ?_
      simp [isEmittableValue, Code.Instr.used, Register.operandsOf]
  | call kind target name arguments result =>
      have called := call_demands unit kind target name arguments result
      cases isVoid : result.isVoid with
      | true =>
          simp only [value, isVoid, ↓reduceIte]
          refine .throw _ fun method met => ?_
          simp [isEmittableValue, isVoid] at met
      | false =>
          simp only [value, isVoid, Bool.false_eq_true, ↓reduceIte]
          refine called.congr fun method => ?_
          simp [isEmittableValue, isVoid]
  | newObject className type =>
      refine (instr_demands _).congr fun method => ?_
      simp [isEmittableValue, Code.Instr.used, Register.operandsOf]
  | newArray size type =>
      refine ((push_demands size).bind fun _ =>
        arrayCreation_demands unit type).congr fun method => ?_
      simp [isEmittableValue, Code.Instr.used, Register.operandsOf, and_comm]
  | getField object field =>
      refine ((load_demands object).bind fun _ => instr_demands _).congr
        fun method => ?_
      simp [isEmittableValue, Code.Instr.used, Register.operandsOf]
  | _ =>
      exact .throw _ fun _ met => Bool.noConfusion met.1

/-- An instruction demands its shape and its variables. -/
theorem code_demands
    (unit : ClassCode)
    (source : Code.Instr) :
    Demands (code unit source) fun method =>
      isEmittable source = true ∧ HasVariablesOf source method := by
  have split (method : Method) :
      HasVariablesOf source method ↔
        (∀ operand ∈ source.used, HasVariable operand method) ∧
          ∀ name, source.destination? = some name → name ∈ method.table :=
    ⟨fun has => ⟨has.used, has.destination⟩, fun has => ⟨has.1, has.2⟩⟩
  cases source with
  | assign dest type source =>
      refine ((value_demands unit source).bind fun _ => store_demands dest).congr
        fun method => ?_
      rw [split]
      simp only [isEmittable, HasVariable, Code.Instr.used, Code.Instr.destination?,
        Bool.and_eq_true, Bool.not_eq_true']
      exact and_and_and_comm
  | call kind target name arguments result =>
      have dropped :
          Demands (if !result.isVoid then instr .pop else Pure.pure ()) fun _ =>
            True := by
        cases result.isVoid with
        | true => exact .pure ()
        | false => exact instr_demands _
      refine ((call_demands unit kind target name arguments result).bind fun _ =>
        dropped).congr fun method => ?_
      rw [split]
      simp [isEmittable, Code.Instr.destination?]
  | putField object field stored =>
      refine ((load_demands object).bind fun _ =>
        (push_demands stored).bind fun _ => instr_demands _).congr fun method => ?_
      rw [split]
      simp [isEmittable, Code.Instr.used, Register.operandsOf,
        Code.Instr.destination?, and_assoc]
  | ret type result =>
      cases result with
      | none =>
          refine (instr_demands _).congr fun method => ?_
          rw [split]
          simp [isEmittable, Code.Instr.used, Register.operandsOf,
            Code.Instr.destination?]
      | some operand =>
          refine ((push_demands operand).bind fun _ => instr_demands _).congr
            fun method => ?_
          rw [split]
          simp [isEmittable, Code.Instr.used, Register.operandsOf,
            Code.Instr.destination?]
  | _ =>
      exact .throw _ fun _ met => Bool.noConfusion met.1

/-- Instructions demand what each of them does. -/
theorem codes_demands
    (unit : ClassCode)
    (instrs : List Code.Instr) :
    Demands (codes unit instrs) fun method =>
      ∀ instr ∈ instrs, isEmittable instr = true ∧ HasVariablesOf instr method := by
  induction instrs with
  | nil =>
      exact (Demands.pure ()).congr fun _ => iff_of_true trivial nofun
  | cons first rest inductionHypothesis =>
      refine ((code_demands unit first).bind fun _ => inductionHypothesis).congr
        fun method => ?_
      rw [List.forall_mem_cons]

/-- A method is emitted exactly if all its instructions can be. -/
theorem method_ok_iff
    {unit : ClassCode}
    {method : Method}
    (state : Emitter) :
    (∃ value after, Emit.method unit method state = .ok value after) ↔
      ∀ instr ∈ method.instrs, isEmittable instr = true ∧
        HasVariablesOf instr method := by
  have entered :
      (∃ value after, Emit.method unit method state = .ok value after) ↔
        ∃ value after,
          codes unit method.instrs
            { state with current? := some method, body := [], limits := {} } =
            .ok value after := by
    constructor
    · rintro ⟨value, after, ran⟩
      obtain ⟨_, _, enterRan, rest⟩ := bind_ok_iff.mp ran
      obtain rfl := modify_ok_iff.mp enterRan
      obtain ⟨value, emitted, codesRan, _⟩ := bind_ok_iff.mp rest
      exact ⟨value, emitted, codesRan⟩
    · rintro ⟨value, emitted, codesRan⟩
      exact ⟨(), _,
        bind_ok_iff.mpr
          ⟨(), _, rfl, bind_ok_iff.mpr ⟨value, emitted, codesRan, rfl⟩⟩⟩
  rw [entered]
  exact (codes_demands unit method.instrs).ok_iff rfl

/-- Methods are emitted exactly if each of them is. -/
theorem methods_ok_iff
    {unit : ClassCode}
    {methods : List Method}
    (state : Emitter) :
    (∃ value after, Emit.methods unit methods state = .ok value after) ↔
      ∀ method ∈ methods, ∀ instr ∈ method.instrs,
        isEmittable instr = true ∧ HasVariablesOf instr method := by
  induction methods generalizing state with
  | nil =>
      exact iff_of_true ⟨(), state, rfl⟩ nofun
  | cons first rest inductionHypothesis =>
      rw [List.forall_mem_cons]
      constructor
      · rintro ⟨value, after, ran⟩
        obtain ⟨_, spaced, _, afterBlank⟩ := bind_ok_iff.mp ran
        obtain ⟨_, between, firstRan, restRan⟩ := bind_ok_iff.mp afterBlank
        exact ⟨(method_ok_iff spaced).mp ⟨_, _, firstRan⟩,
          (inductionHypothesis between).mp ⟨_, _, restRan⟩⟩
      · rintro ⟨firstMet, restMet⟩
        obtain ⟨_, between, firstRan⟩ :=
          (method_ok_iff { state with lines := state.lines ++ [.blank] }).mpr
            firstMet
        obtain ⟨value, after, restRan⟩ := (inductionHypothesis between).mpr restMet
        exact ⟨value, after,
          bind_ok_iff.mpr
            ⟨(), _, rfl, bind_ok_iff.mpr ⟨_, between, firstRan, restRan⟩⟩⟩

end Emit

/-- A class can be emitted exactly if all instructions of its methods can be. -/
theorem generate_ok_iff
    {unit : ClassCode} :
    (∃ lines, generate unit = .ok lines) ↔
      ∀ method ∈ unit.methods, ∀ instr ∈ method.instrs,
        isEmittable instr = true ∧ HasVariablesOf instr method := by
  rw [← Emit.methods_ok_iff { ({} : Emitter) with lines := classLines unit }]
  constructor
  · rintro ⟨lines, generated⟩
    obtain ⟨state, methodsRan, _⟩ := generate_ok generated
    exact ⟨(), state, methodsRan⟩
  · rintro ⟨value, state, methodsRan⟩
    exact ⟨state.lines, by rw [generate, wholeClass_ok_iff.mpr methodsRan]⟩

/-- The methods of an emitted class have the variables of their instructions. -/
theorem generate_hasVariables
    {unit : ClassCode}
    {lines : List Line}
    (generated : generate unit = .ok lines) :
    ∀ method ∈ unit.methods, ∀ instr ∈ method.instrs, HasVariablesOf instr method :=
  fun method isMethod instr isInstr =>
    (generate_ok_iff.mp ⟨lines, generated⟩ method isMethod instr isInstr).2

end MiniJava.Assembly
