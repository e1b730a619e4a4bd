import MiniJava.Proofs.Configurations
import MiniJava.Proofs.SupportedLowering
import MiniJava.Proofs.SupportedRounds

namespace MiniJava

/-!
# Supported programs compile

The code of a supported program can be emitted with the slots that it is lowered
with, optimized or not. Allocation may run out of registers, but apart from
parameters that are named like temporaries it leaves every variable that the code
needs.
-/

open Code (Method ClassCode)

namespace Program

variable {symbols : Symbols} {program : Program}

/-- The parameters of a lowered method are those of a method of the program. -/
theorem exists_param
    {code : ClassCode}
    {method : Method}
    {name : String}
    (lowered : program.lower symbols = .ok code)
    (isMethod : method ∈ code.methods)
    (isParam : method.isParam name = true) :
    ∃ source ∈ program.mainClass.methods, ∃ param ∈ source.params,
      param.name = name := by
  have related :
      List.Forall₂
        (fun source method => method.params =
          (source.begin symbols.className).params)
        program.mainClass.methods code.methods := by
    refine (Program.lower_forall₂ ?_ lowered).1
    intro source member state after method _ ran
    exact (Lower.method_grown ran).1.params
  rcases forall₂_mem_right related isMethod with ⟨source, isSource, sameParams⟩
  rw [Method.isParam, sameParams] at isParam
  refine ⟨source, isSource, ?_⟩
  simpa [MethodDef.begin, Code.Operand.name?] using isParam

end Program

namespace Register

variable {budget : Nat}

/-- Allocation only fails because there are too few registers. -/
theorem kind_of_allocate_error
    {method : Method}
    {error : CompileError}
    (failed : allocate budget method = .error error) :
    error.kind = .budgetExceeded := by
  rcases Nat.eq_zero_or_pos budget with rfl | positive
  · cases failed
  · rw [allocate_eq positive] at failed
    cases colored : color budget method (.ofLiveness (analyze method)) with
    | ok colors =>
        rw [colored] at failed
        cases failed
    | error other =>
        rw [colored] at failed
        cases failed
        obtain ⟨name, _, rfl⟩ := color_eq_error_iff.mp colored
        rfl

theorem kind_of_allocateMethods_error
    {methods results : List Method}
    {error : CompileError}
    (ran : allocateMethods budget methods = (results, some error)) :
    error.kind = .budgetExceeded := by
  induction methods generalizing results with
  | nil => cases ran
  | cons first rest inductionHypothesis =>
      unfold allocateMethods at ran
      cases firstRan : allocate budget first with
      | error other =>
          simp only [firstRan, Prod.mk.injEq, Option.some.injEq] at ran
          rw [← ran.2]
          exact kind_of_allocate_error firstRan
      | ok allocation? =>
          simp only [firstRan, Prod.mk.injEq] at ran
          exact inductionHypothesis (Prod.ext rfl ran.2)

/-- Without a budget nothing is allocated. -/
theorem allocateMethods_zero
    (methods : List Method) :
    allocateMethods 0 methods = (methods, none) := by
  induction methods with
  | nil => rfl
  | cons first rest inductionHypothesis =>
      simp [allocateMethods, allocate, inductionHypothesis]

end Register

/--
A method that can be emitted can be with allocated slots, unless a
parameter is dropped.
-/
theorem Placed.emits
    {symbols : Symbols}
    {program : Program}
    {code : ClassCode}
    {method placed : Method}
    (lowered : program.lower symbols = .ok code)
    (isMethod : method ∈ code.methods)
    (emits :
      ∀ instr ∈ method.instrs,
        Assembly.isEmittable instr = true ∧ Assembly.HasVariablesOf instr method)
    (params :
      ∀ name, method.isParam name = true → Code.isTemporaryName name = false)
    (isPlaced : Placed method placed) :
    ∀ instr ∈ placed.instrs,
      Assembly.isEmittable instr = true ∧ Assembly.HasVariablesOf instr placed := by
  rw [isPlaced.instrs_eq]
  intro instr member
  rcases emits instr member with ⟨isEmittable, has⟩
  refine ⟨isEmittable, ?_⟩
  cases isPlaced with
  | asLowered => exact has
  | allocated allocated =>
      refine hasVariablesOf_iff.mpr fun name needs => ?_
      have isAccessed := needs.accessed (hasVariablesOf_iff.mp has name needs)
      apply (accessed_stays_of_lowered lowered isMethod allocated member
        isAccessed).mpr
      rintro ⟨isTemporary, isParam⟩
      rw [params name isParam] at isTemporary
      cases isTemporary

section

variable {symbols : Symbols} {program : Program} {code : ClassCode}

/-- Without a budget, code that can be emitted is assembled. -/
theorem assembledLines_zero
    (emits :
      ∀ method ∈ code.methods, ∀ instr ∈ method.instrs,
        Assembly.isEmittable instr = true ∧ Assembly.HasVariablesOf instr method) :
    ∃ lines, assembledLines 0 code = .ok lines := by
  rcases Assembly.generate_ok_iff.mpr emits with ⟨lines, generated⟩
  refine ⟨lines, ?_⟩
  rw [assembledLines, Register.allocateClass, Register.allocateMethods_zero]
  exact generated

/-- With a budget, code that can be emitted is assembled or exceeds the budget. -/
theorem assembledLines_of_emits
    (lowered : program.lower symbols = .ok code)
    (emits :
      ∀ method ∈ code.methods, ∀ instr ∈ method.instrs,
        Assembly.isEmittable instr = true ∧ Assembly.HasVariablesOf instr method)
    (params :
      ∀ source ∈ program.mainClass.methods, ∀ param ∈ source.params,
        Code.isTemporaryName param.name = false)
    (budget : Nat) :
    (∃ lines, assembledLines budget code = .ok lines) ∨
      ∃ error, assembledLines budget code = .error error ∧
        error.kind = .budgetExceeded := by
  cases allocated : Register.allocateMethods budget code.methods with
  | mk placed error? =>
      cases error? with
      | some error =>
          refine .inr ⟨error, ?_, Register.kind_of_allocateMethods_error allocated⟩
          rw [assembledLines, Register.allocateClass, allocated]
      | none =>
          have placedEmits :
              ∃ lines, Assembly.generate { code with methods := placed } =
                .ok lines := by
            refine Assembly.generate_ok_iff.mpr fun method isMethod => ?_
            rcases forall₂_mem_right (Register.allocateMethods_placed allocated)
              isMethod with
              ⟨original, isOriginal, isPlaced⟩
            refine isPlaced.emits lowered isOriginal (emits original isOriginal) ?_
            intro name isParam
            rcases Program.exists_param lowered isOriginal isParam with
              ⟨source, isSource, param, member, rfl⟩
            exact params source isSource param member
          rcases placedEmits with ⟨lines, generated⟩
          refine .inl ⟨lines, ?_⟩
          rw [assembledLines, Register.allocateClass, allocated]
          exact generated

end

/-- Reports without an error are not refused. -/
theorem checkReports_ok
    {reports : List Report}
    (noErrors : ∀ report ∈ reports, report.severity ≠ .error) :
    checkReports reports = .ok () := by
  have none : reports.filter (·.severity = .error) = [] := by
    simpa [List.filter_eq_nil_iff] using noErrors
  simp [checkReports, none]

/-- A unit without errors is compiled as its code is assembled. -/
theorem TypedUnit.compile_of_lower
    {unit : TypedUnit}
    {options : Options}
    {code : ClassCode}
    (noErrors : ∀ report ∈ unit.reports, report.severity ≠ .error)
    (lowered : (unit.prepared options).lower unit.symbols = .ok code) :
    unit.compile options = (assembledLines options.budget code).map
      Assembly.render := by
  have isLowered : unit.lower options = .ok code := by
    rw [TypedUnit.lower, checkReports_ok noErrors]
    exact lowered
  rw [TypedUnit.compile, isLowered, ← assemble_eq_render]
  rfl

/-- The program that is lowered has the parameters of the program of the unit. -/
theorem TypedUnit.prepared_params
    {unit : TypedUnit}
    {source : MethodDef}
    (options : Options)
    (isSource : source ∈ (unit.prepared options).mainClass.methods) :
    ∃ declared ∈ unit.program.mainClass.methods,
      source.params = declared.params := by
  rcases unit.prepared_improves options with ⟨change, isPrepared, _⟩
  rw [isPrepared] at isSource
  rcases List.mem_map.mp isSource with ⟨declared, isDeclared, rfl⟩
  exact ⟨declared, isDeclared, rfl⟩

theorem TypedUnit.prepared_supported
    {unit : TypedUnit}
    (options : Options)
    (supported :
      ∀ source ∈ unit.program.mainClass.methods, source.Supported unit.symbols) :
    ∀ source ∈ (unit.prepared options).mainClass.methods, ∀ stmt ∈ source.body,
      stmt.isSupported unit.symbols source = true ∧
        stmt.assignsObject unit.symbols source.name = true := by
  unfold TypedUnit.prepared
  split
  · exact Program.optimize_supported supported
  · intro source isSource stmt member
    exact ⟨(supported source isSource).body stmt member,
      (supported source isSource).objects stmt member⟩

/--
Supported units compile. Without errors in the reports, whatever the options, a
unit of supported methods compiles if there is no budget. If there is one, and
no parameter is named like a temporary, it compiles or exceeds the budget.
-/
theorem supported_units_compile
    {unit : TypedUnit}
    (noErrors : ∀ report ∈ unit.reports, report.severity ≠ .error)
    (supported :
      ∀ source ∈ unit.program.mainClass.methods, source.Supported unit.symbols)
    (options : Options) :
    (options.budget = 0 → ∃ text, unit.compile options = .ok text) ∧
      ((∀ source ∈ unit.program.mainClass.methods, ∀ param ∈ source.params,
          Code.isTemporaryName param.name = false) →
        (∃ text, unit.compile options = .ok text) ∨
          ∃ error, unit.compile options = .error error ∧
            error.kind = .budgetExceeded) := by
  have prepared := unit.prepared_supported options supported
  rcases Program.lower_emits
      (fun source isSource stmt member => (prepared source isSource stmt member).1)
      (fun source isSource stmt member => (prepared source isSource stmt member).2)
        with
    ⟨code, lowered, emits⟩
  rw [TypedUnit.compile_of_lower noErrors lowered]
  constructor
  · intro noBudget
    rcases assembledLines_zero emits with ⟨lines, assembled⟩
    refine ⟨Assembly.render lines, ?_⟩
    rw [noBudget, assembled]
    rfl
  · intro params
    have preparedParams :
        ∀ source ∈ (unit.prepared options).mainClass.methods,
          ∀ param ∈ source.params, Code.isTemporaryName param.name = false := by
      intro source isSource
      rcases TypedUnit.prepared_params options isSource with
        ⟨declared, isDeclared, sameParams⟩
      rw [sameParams]
      exact params declared isDeclared
    rcases assembledLines_of_emits lowered emits preparedParams options.budget with
      ⟨lines, assembled⟩ | ⟨error, failed, isKind⟩
    · left
      refine ⟨Assembly.render lines, ?_⟩
      rw [assembled]
      rfl
    · right
      refine ⟨error, ?_, isKind⟩
      rw [failed]
      rfl

/--
A method with constants, a field, a new object, a new array, a call of a static
method of an imported class and one of itself.
-/
private def working : MethodDef where
  name := "work"
  returnType := .int
  params := [⟨"n", .int⟩]
  locals := [⟨"x", .int⟩, ⟨"a", .ofClass "A"⟩, ⟨"s", .intArray⟩]
  body :=
    [.assign "x" .int (.binary .add (.literal (.int 2)) (.literal (.int 3)) .int),
      .assign "a" (.ofClass "A") (.newObject "A" (.ofClass "A")),
      .assign "f" .int (.binary .mul (.var "x" .int) (.var "n" .int) .int),
      .assign "s" .intArray (.newArray (.var "x" .int) .intArray),
      .evaluate (.call (.var "io" .imported) "print" [.var "f" .int] .imported),
      .ret (some (.call (.var "a" (.ofClass "A")) "work" [.var "x" .int] .int))]

/-- A static method that works on a new object. -/
private def starting : MethodDef where
  name := "main"
  isStatic := true
  returnType := .void
  params := [⟨"args", .stringArray⟩]
  body :=
    [.evaluate
      (.call (.newObject "A" (.ofClass "A")) "work" [.literal (.int 1)] .int)]

private def workingUnit : TypedUnit where
  program :=
    { imports := ["io"]
      mainClass :=
        { name := "A"
          fields := [⟨"f", .int⟩]
          methods := [working, starting] } }

/-- The unit compiles optimized or not, and one register is too few for it. -/
theorem supported_units_compile_working :
    (∀ optimize, ∃ text, workingUnit.compile { optimize } = .ok text) ∧
      (∀ optimize count,
        (∃ text, workingUnit.compile { optimize, registers := some count } =
          .ok text) ∨
          ∃ error,
            workingUnit.compile { optimize, registers := some count } =
              .error error ∧
              error.kind = .budgetExceeded) ∧
        workingUnit.compile { registers := some 1 } =
          .error (.budgetExceeded "work" "tmp1" 1) := by
  have noErrors : ∀ report ∈ workingUnit.reports, report.severity ≠ .error := by
    rintro _ ⟨⟩
  have supported :
      ∀ source ∈ workingUnit.program.mainClass.methods,
        source.Supported workingUnit.symbols := by
    decide +kernel
  refine ⟨fun optimize => ?_, fun optimize count => ?_, ?_⟩
  · exact (supported_units_compile noErrors supported { optimize }).1 rfl
  · exact (supported_units_compile noErrors supported
      { optimize, registers := some count }).2 (by decide +kernel)
  · decide +kernel

/-- A method that assigns a new object to a variable of numbers. -/
private def boxing : MethodDef where
  name := "box"
  isStatic := true
  returnType := .void
  locals := [⟨"x", .int⟩]
  body := [.assign "x" .int (.newObject "A" (.ofClass "A"))]

private def boxingUnit : TypedUnit where
  program := { mainClass := { name := "A", methods := [boxing] } }

/-- The constructor is called on a number, and nothing is emitted. -/
theorem new_object_in_number_fails :
    (∀ stmt ∈ boxing.body, stmt.isSupported boxingUnit.symbols boxing = true) ∧
      boxing.AnnotatedThroughout boxingUnit.symbols ∧
        boxingUnit.compile {} = .error (.notAnObject (.var "x" .int)) := by
  refine ⟨?_, ?_, ?_⟩
  · decide +kernel
  · decide +kernel
  · decide +kernel

end MiniJava
