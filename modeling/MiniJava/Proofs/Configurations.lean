import MiniJava.Compile
import MiniJava.Proofs.ConstantPasses
import MiniJava.Proofs.EmissionClasses
import MiniJava.Proofs.PlacedVariables
import MiniJava.Proofs.ReadVariables

namespace MiniJava

/-!
# All configurations behave alike

Whatever the options, the emitted body of a method does what the method's own
body does, from names that hold what the slots of the receiver and the
parameters hold.
-/

open Code (ClassCode Method Store)

/-- The lines of a class in assembly, with the slots that are allocated for it. -/
def assembledLines
    (budget : Nat)
    (code : ClassCode) : Except CompileError (List Assembly.Line) :=
  match Register.allocateClass budget code with
  | (_, some error) => .error error
  | (allocated, none) => Assembly.generate allocated

/-- The lines of a unit in assembly. -/
def TypedUnit.lines (unit : TypedUnit) (options : Options) :
    Except CompileError (List Assembly.Line) := do
  let code ← unit.lower options
  assembledLines options.budget code

theorem assemble_eq_render
    (budget : Nat)
    (code : ClassCode) :
    (assemble budget code).2 =
      (assembledLines budget code).map Assembly.render := by
  unfold assemble assembledLines
  rcases Register.allocateClass budget code with ⟨allocated, _ | error⟩
  · rfl
  · rfl

/-- Lines are assembled from methods whose slots are placed. -/
theorem assembledLines_ok
    {budget : Nat}
    {code : ClassCode}
    {lines : List Assembly.Line}
    (assembled : assembledLines budget code = .ok lines) :
    ∃ placed,
      List.Forall₂ Placed code.methods placed ∧
        Assembly.generate { code with methods := placed } = .ok lines := by
  unfold assembledLines Register.allocateClass at assembled
  cases allocated : Register.allocateMethods budget code.methods with
  | mk placed error? =>
      rw [allocated] at assembled
      cases error? with
      | some error =>
          cases assembled
      | none =>
          exact ⟨placed, Register.allocateMethods_placed allocated, assembled⟩

namespace TypedUnit

variable {unit : TypedUnit} {options : Options}

/-- The assembly of a unit is its lines. -/
theorem compile_ok
    {text : String}
    (compiled : unit.compile options = .ok text) :
    ∃ lines, unit.lines options = .ok lines ∧ Assembly.render lines = text := by
  unfold compile at compiled
  unfold lines
  cases lowered : unit.lower options with
  | error error =>
      rw [lowered] at compiled
      cases compiled
  | ok code =>
      rw [lowered] at compiled
      have assembled : (assemble options.budget code).2 = .ok text := compiled
      rw [assemble_eq_render] at assembled
      cases isLines : assembledLines options.budget code with
      | error error =>
          rw [isLines] at assembled
          cases assembled
      | ok lines =>
          rw [isLines] at assembled
          cases assembled
          exact ⟨lines, isLines, rfl⟩

/-- The lines of a unit are those of the code of its prepared program. -/
theorem lines_ok
    {lines : List Assembly.Line}
    (isLines : unit.lines options = .ok lines) :
    ∃ code,
      (unit.prepared options).lower unit.symbols = .ok code ∧
        assembledLines options.budget code = .ok lines := by
  unfold TypedUnit.lines TypedUnit.lower at isLines
  cases checked : checkReports unit.reports with
  | error error =>
      rw [checked] at isLines
      cases isLines
  | ok _ =>
      cases lowered : (unit.prepared options).lower unit.symbols with
      | error error =>
          rw [checked, lowered] at isLines
          cases isLines
      | ok code =>
          rw [checked, lowered] at isLines
          exact ⟨code, rfl, isLines⟩

/--
Whatever the options, the program that is lowered is as good as that of the unit.
-/
theorem prepared_improves
    (unit : TypedUnit)
    (options : Options) :
    Program.Improves unit.symbols unit.program (unit.prepared options) := by
  unfold prepared
  split
  · exact Program.optimize_improves unit.symbols unit.program
  · exact .refl unit.program

end TypedUnit

/--
The scene of a method, as the machine spells its events in the class of the symbols.
-/
def machineScene
    (world : World Jvm.Event)
    (symbols : Symbols)
    (method : MethodDef) :
    Scene Jvm.Event :=
  { Jvm.environment world (Lowering.start symbols).output with
    symbols
    method
    constructed := fun declared _ => .ofTypeName declared }

/--
Events are spelled by the name and the imports of a class, not by its methods.
-/
theorem Jvm.environment_withMethods
    (world : World Jvm.Event)
    (unit : ClassCode)
    (methods : List Method) :
    Jvm.environment world { unit with methods } = Jvm.environment world unit := by
  have sameDescriptor :
      ({ unit with methods } : ClassCode).descriptor = unit.descriptor := by
    delta ClassCode.descriptor
    rfl
  have sameSpelled : Jvm.spelled { unit with methods } = Jvm.spelled unit := by
    funext event
    cases event <;>
      simp only [Jvm.spelled, Jvm.ownerPath, Jvm.arrayEvent,
        ClassCode.methodDescriptor, sameDescriptor] <;>
      rfl
  unfold Jvm.environment
  rw [sameSpelled]

/--
A lowered method has grown from its beginning, and over names it
behaves like its source.
-/
structure LoweredFrom
    (symbols : Symbols)
    (source : MethodDef)
    (lowered : Method) : Prop where
  grown : Grown (source.begin symbols.className) lowered
  straight : lowered.flow = .straight lowered.instrs
  behaviour :
    source.NamesApart symbols → ∀ world store,
      (Code.Setting.overNames
        (Jvm.environment world (Lowering.start symbols).output)).behaviour
          store lowered.instrs =
        (machineScene world symbols source).behaviour store

/-- The methods of a lowered program come from those of the program. -/
theorem Program.lower_loweredFrom
    {symbols : Symbols}
    {program : Program}
    {code : ClassCode}
    (lowered : program.lower symbols = .ok code) :
    List.Forall₂ (LoweredFrom symbols) program.mainClass.methods code.methods ∧
      code = { (Lowering.start symbols).output with methods := code.methods } := by
  refine Program.lower_forall₂ ?_ lowered
  intro source _ state after method unassigned ran
  obtain ⟨grown, straight⟩ := Lower.method_grown ran
  refine ⟨grown, straight, fun apart world store => ?_⟩
  exact Scene.method_behaves (machineScene world symbols source) apart.declared
    (fun _ _ _ _ _ _ => rfl) unassigned ran store

/--
The emitted body of a method does what the method's own body does,
whatever the options.
-/
theorem TypedUnit.lines_behave
    {unit : TypedUnit}
    {options : Options}
    {lines : List Assembly.Line}
    {index : Nat}
    {method : MethodDef}
    (isLines : unit.lines options = .ok lines)
    (methodAt : unit.program.mainClass.methods[index]? = some method)
    (apart : method.NamesApart unit.symbols)
    (annotated : method.Annotated unit.symbols) :
    ∃ body placed,
      (Assembly.bodies lines)[index + 1]? = some body ∧
        ∀ world slots outcome events,
          (machineScene world unit.symbols method).behaviour
              (entryStore (method.begin unit.symbols.className) placed slots) =
            (outcome, events) →
          Jvm.Behaves world body slots outcome events := by
  obtain ⟨code, lowered, assembled⟩ := lines_ok isLines
  obtain ⟨change, isPrepared, optimizes⟩ := unit.prepared_improves options
  rw [isPrepared] at lowered
  have preparedAt := Program.getElem?_mapBodies methodAt change
  obtain ⟨loweredAll, isClass⟩ := Program.lower_loweredFrom lowered
  obtain ⟨loweredMethod, loweredAt, comesFrom⟩ :=
    forall₂_getElem? loweredAll preparedAt
  obtain ⟨placedAll, arePlaced, generated⟩ := assembledLines_ok assembled
  obtain ⟨placed, placedAt, isPlaced⟩ := forall₂_getElem? arePlaced loweredAt
  obtain ⟨emitted, isBodies, simulate⟩ := Assembly.generate_bodies generated
  obtain ⟨body, bodyAt, segments, rfl, simulates⟩ :=
    forall₂_getElem? simulate placedAt
  refine ⟨segments.flatten, placed, by rw [isBodies]; exact bodyAt, ?_⟩
  intro world slots outcome events isSource
  -- From the machine back to the source: emission, allocation, lowering,
  -- optimization.
  have optimized :
      (machineScene world unit.symbols method).Optimizes (change method) :=
    optimizes rfl apart.constantsApart annotated
  have hasVariables :=
    Assembly.generate_hasVariables generated placed (List.mem_of_getElem? placedAt)
  have sameEnvironment :
      Jvm.environment world { code with methods := placedAll } =
        Jvm.environment world (Lowering.start unit.symbols).output := by
    rw [Jvm.environment_withMethods, isClass]
    exact Jvm.environment_withMethods world (Lowering.start unit.symbols).output
      code.methods
  have ran := simulates.whole world slots
  have sameBehaviour :
      (Assembly.slotSetting world { code with methods := placedAll }
        placed).behaviour slots
          placed.instrs =
        (outcome, events) := by
    calc _ =
      (Code.Setting.overSlots
        (Jvm.environment world (Lowering.start unit.symbols).output)
          placed).behaviour slots placed.instrs := by
          rw [Assembly.slotSetting, sameEnvironment]
      _ = (Code.Setting.overNames (Jvm.environment world
          (Lowering.start unit.symbols).output)).behaviour
          (entryStore (method.begin unit.symbols.className) placed slots)
          loweredMethod.instrs :=
          isPlaced.behaviour_eq comesFrom.grown
            (method.begin_fixed unit.symbols.className)
            comesFrom.straight hasVariables
      _ =
        (machineScene world unit.symbols
          { method with body := change method }).behaviour
          (entryStore (method.begin unit.symbols.className) placed slots) :=
          comesFrom.behaviour (optimized.narrows.namesApart apart) world _
      _ = (machineScene world unit.symbols method).behaviour
          (entryStore (method.begin unit.symbols.className) placed slots) :=
          optimized.behaviour _
      _ = (outcome, events) := isSource
  rw [sameBehaviour] at ran
  exact ran

/--
The names on entry that hold the receiver and the parameters depend
on their slots only.
-/
theorem entryStore_agree
    {symbols : Symbols}
    {method : MethodDef}
    {firstPlaced secondPlaced : Method}
    {firstSlots secondSlots : Store Nat}
    (agree :
      ∀ slot < (method.begin symbols.className).baseSlot,
        firstSlots slot = secondSlots slot)
    {name : String}
    (member : name ∈ (method.begin symbols.className).table) :
    entryStore (method.begin symbols.className) firstPlaced firstSlots name =
      entryStore (method.begin symbols.className) secondPlaced secondSlots
        name := by
  obtain ⟨entry, isEntry⟩ := mem_iff_exists_getElem?.mp member
  simp only [entryStore, isEntry]
  exact agree entry.slot ((method.begin_fixed symbols.className).below isEntry)

/--
All configurations compile to the same behaviour. Where names and annotations
are in order and no local is read before it is assigned, the bodies that are
emitted for a method under any two options end with the same outcome after the
same events, from slots that hold the same receiver and arguments.
-/
theorem configurations_behave_alike
    {unit : TypedUnit}
    {first second : Options}
    {firstText secondText : String}
    (annotated :
      ∀ method ∈ unit.program.mainClass.methods, method.Annotated unit.symbols)
    (inOrder :
      ∀ method ∈ unit.program.mainClass.methods,
        method.readsInOrder unit.symbols = true)
    (apart :
      ∀ method ∈ unit.program.mainClass.methods, method.NamesApart unit.symbols)
    (firstCompiled : unit.compile first = .ok firstText)
    (secondCompiled : unit.compile second = .ok secondText) :
    ∃ firstLines secondLines,
      unit.lines first = .ok firstLines ∧
        Assembly.render firstLines = firstText ∧
          unit.lines second = .ok secondLines ∧
            Assembly.render secondLines = secondText ∧
              ∀ (index : Nat) (method : MethodDef),
                unit.program.mainClass.methods[index]? = some method →
                ∃ firstBody secondBody,
                  (Assembly.bodies firstLines)[index + 1]? = some firstBody ∧
                    (Assembly.bodies secondLines)[index + 1]? = some secondBody ∧
                      ∀ (world : World Jvm.Event)
                        (firstSlots secondSlots : Store Nat),
                        (∀ slot < (method.begin unit.symbols.className).baseSlot,
                          firstSlots slot = secondSlots slot) →
                        (∃ outcome events,
                          Jvm.Behaves world firstBody firstSlots outcome events) ∧
                          ∀ outcome events,
                            Jvm.Behaves world firstBody firstSlots outcome events ↔
                              Jvm.Behaves world secondBody secondSlots outcome
                                events := by
  obtain ⟨firstLines, isFirst, firstRendered⟩ := TypedUnit.compile_ok firstCompiled
  obtain ⟨secondLines, isSecond, secondRendered⟩ :=
    TypedUnit.compile_ok secondCompiled
  refine ⟨firstLines, secondLines, isFirst, firstRendered, isSecond,
    secondRendered, ?_⟩
  intro index method methodAt
  have member := List.mem_of_getElem? methodAt
  obtain ⟨firstBody, firstPlaced, firstAt, firstBehaves⟩ :=
    TypedUnit.lines_behave isFirst methodAt (apart method member)
      (annotated method member)
  obtain ⟨secondBody, secondPlaced, secondAt, secondBehaves⟩ :=
    TypedUnit.lines_behave isSecond methodAt (apart method member)
      (annotated method member)
  refine ⟨firstBody, secondBody, firstAt, secondAt,
    fun world firstSlots secondSlots agree => ?_⟩
  have sameSource :
      (machineScene world unit.symbols method).behaviour
          (entryStore (method.begin unit.symbols.className) firstPlaced
            firstSlots) =
        (machineScene world unit.symbols method).behaviour
          (entryStore (method.begin unit.symbols.className) secondPlaced
            secondSlots) :=
    Scene.behaviour_agreeOn (inOrder method member) fun _ isEntry =>
      entryStore_agree agree isEntry
  have firstEnds := firstBehaves world firstSlots _ _ rfl
  have secondEnds := secondBehaves world secondSlots _ _ sameSource.symm
  refine ⟨⟨_, _, firstEnds⟩, fun outcome events =>
    ⟨fun behaves => ?_, fun behaves => ?_⟩⟩
  · obtain ⟨rfl, rfl⟩ := Jvm.Ends.unique behaves firstEnds
    exact secondEnds
  · obtain ⟨rfl, rfl⟩ := Jvm.Ends.unique behaves secondEnds
    exact firstEnds

/--
A method that sums up constants, a field and the results of calls. One call is on
a class, the other on a variable with the name of a class.
-/
private def summing : MethodDef where
  name := "sum"
  returnType := .int
  params := [⟨"n", .int⟩]
  locals := [⟨"x", .int⟩, ⟨"y", .int⟩]
  body :=
    [.assign "x" .int (.binary .add (.literal (.int 2)) (.literal (.int 3)) .int),
      .assign "y" .int (.binary .mul (.var "x" .int) (.var "n" .int) .int),
      .evaluate
        (.call (.var "io" .imported) "print" [.var "x" .int, .var "f" .int]
          .imported),
      .assign "log" (.ofClass "B") (.newObject "B" (.ofClass "B")),
      .evaluate (.call (.var "log" (.ofClass "B")) "flush" [] .void),
      .assign "x" .int
        (.call (.receiver (.ofClass "A")) "sum" [.var "y" .int] .int),
      .ret (some (.binary .sub (.var "x" .int) (.var "y" .int) .int))]

/-- A class with the method and a field. -/
private def summingUnit : TypedUnit where
  program :=
    { imports := ["io", "log"]
      mainClass := { name := "A", fields := [⟨"f", .int⟩], methods := [summing] } }

/-- Constants are propagated and folded, and all locals share two registers. -/
private def tight : Options :=
  { optimize := true, registers := some 2 }

/--
Without options and with constants folded and registers allocated, the bodies of
the method are different code and still behave alike.
-/
theorem configurations_behave_alike_summing :
    ∃ plainLines tightLines plainBody tightBody,
      summingUnit.lines {} = .ok plainLines ∧
        summingUnit.lines tight = .ok tightLines ∧
          (Assembly.bodies plainLines)[1]? = some plainBody ∧
            (Assembly.bodies tightLines)[1]? = some tightBody ∧
              plainBody.length = 30 ∧
                tightBody.length = 28 ∧
                  ∀ (world : World Jvm.Event) (plainSlots tightSlots : Store Nat),
                    (∀ slot < 2, plainSlots slot = tightSlots slot) →
                    (∃ outcome events,
                      Jvm.Behaves world plainBody plainSlots outcome events) ∧
                      ∀ outcome events,
                        Jvm.Behaves world plainBody plainSlots outcome events ↔
                          Jvm.Behaves world tightBody tightSlots outcome
                            events := by
  have plainMeasured :
      (summingUnit.lines {}).toOption.map
          (fun lines => (Assembly.bodies lines)[0 + 1]?.map List.length) =
        some (some 30) := by
    decide +kernel
  have tightMeasured :
      (summingUnit.lines tight).toOption.map
          (fun lines => (Assembly.bodies lines)[0 + 1]?.map List.length) =
        some (some 28) := by
    decide +kernel
  have plainCompiles : (summingUnit.compile {}).toOption.isSome = true := by
    decide +kernel
  have tightCompiles : (summingUnit.compile tight).toOption.isSome = true := by
    decide +kernel
  obtain ⟨plainText, plainCompiled⟩ := exists_ok_of_isSome plainCompiles
  obtain ⟨tightText, tightCompiled⟩ := exists_ok_of_isSome tightCompiles
  obtain ⟨plainLines, isPlain, plainLength⟩ := exists_ok_of_map plainMeasured
  obtain ⟨tightLines, isTight, tightLength⟩ := exists_ok_of_map tightMeasured
  obtain ⟨_, _, plainAgain, _, tightAgain, _, alike⟩ :=
    configurations_behave_alike (by decide +kernel) (by decide +kernel)
      (by decide +kernel) plainCompiled tightCompiled
  cases isPlain.symm.trans plainAgain
  cases isTight.symm.trans tightAgain
  obtain ⟨plainBody, tightBody, plainAt, tightAt, behaveAlike⟩ :=
    alike 0 summing rfl
  rw [plainAt] at plainLength
  rw [tightAt] at tightLength
  exact ⟨plainLines, tightLines, plainBody, tightBody, isPlain, isTight, plainAt,
    tightAt, Option.some.inj plainLength, Option.some.inj tightLength, behaveAlike⟩

end MiniJava
