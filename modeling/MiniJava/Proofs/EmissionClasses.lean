import MiniJava.Assembly.Generation
import MiniJava.Proofs.Collections
import MiniJava.Proofs.EmissionCode

namespace MiniJava.Assembly

/-!
# Emitted classes run like their code

The body that is emitted for a method is one segment after the other, one for
each instruction of the method. From the start of a segment and an empty stack,
the machine does what the instruction means on the slots, and comes to the
start of the next segment with an empty stack again.
-/

open Code (Method ClassCode Store)

/-- The code before the end of a method. -/
def codeOf : List Line → List Jvm.Instr
  | [] => []
  | .methodEnd :: _ => []
  | .code instr :: rest => instr :: codeOf rest
  | _ :: rest => codeOf rest

/-- The bodies of the methods in an assembly text, that of the constructor first. -/
def bodies : List Line → List (List Jvm.Instr)
  | [] => []
  | .methodStart _ _ _ _ :: rest => codeOf rest :: bodies rest
  | _ :: rest => bodies rest

/-- The position of a segment in the body that the segments make up. -/
def segmentStart (segments : List (List Jvm.Instr)) (index : Nat) : Nat :=
  (segments.take index).flatten.length

/--
The segments of a body do, one by one, what the instructions of a method mean on
its slots, and the whole body does what all of them mean.
-/
structure Simulates
    (unit : ClassCode)
    (method : Method)
    (segments : List (List Jvm.Instr)) : Prop where
  count : segments.length = method.instrs.length
  each :
    ∀ (world : World Jvm.Event) (index : Nat) (instr : Code.Instr),
      method.instrs[index]? = some instr →
      ∀ (slots : Store Nat) (events : List Jvm.Event),
        Jvm.Runs world segments.flatten
          (⟨segmentStart segments index, [], slots⟩, events) ((do
            let slots ← (slotSetting world unit method).exec slots instr
            return ⟨segmentStart segments (index + 1), [], slots⟩ : Run Jvm.Event
              Jvm.State)
            events)
  whole :
    ∀ (world : World Jvm.Event) (slots : Store Nat),
      Jvm.Behaves world segments.flatten slots
        ((slotSetting world unit method).behaviour slots method.instrs).1
        ((slotSetting world unit method).behaviour slots method.instrs).2

/-- A segment starts where the one before it ends. -/
private theorem segmentStart_succ
    {segments : List (List Jvm.Instr)}
    {index : Nat}
    {segment : List Jvm.Instr}
    (found : segments[index]? = some segment) :
    segmentStart segments (index + 1) =
      segmentStart segments index + segment.length := by
  simp [segmentStart, List.take_add_one, found]

/-- Instructions are emitted as segments, each of which performs its instruction. -/
private theorem codes_segments
    {unit : ClassCode}
    {method : Method}
    {instrs : List Code.Instr}
    {state after : Emitter}
    {value : Unit}
    (current : state.current? = some method)
    (below : state.LabelsBelow)
    (ran : Emit.codes unit instrs state = .ok value after) :
    ∃ segments : List (List Jvm.Instr),
      segments.length = instrs.length ∧
        state.Extends after segments.flatten ∧
          ∀ (index : Nat) (instr : Code.Instr) (segment : List Jvm.Instr),
            instrs[index]? = some instr →
            segments[index]? = some segment →
            ∀ world,
              Performs world (state.body ++ (segments.take index).flatten) segment
                (leaving (slotSetting world unit method) instr) := by
  induction instrs generalizing state with
  | nil =>
      obtain ⟨_, rfl⟩ := pure_ok_iff.mp ran
      exact ⟨[], rfl, .refl state, by simp⟩
  | cons first rest inductionHypothesis =>
      obtain ⟨_, between, firstRan, restRan⟩ := bind_ok_iff.mp ran
      obtain ⟨segment, firstExtended, firstPerforms⟩ :=
        Realizes.inEveryWorld (fun world => code_realizes unit first) current below
          firstRan
      obtain ⟨segments, sameLength, restExtended, restPerforms⟩ :=
        inductionHypothesis (firstExtended.current.trans current)
          (firstExtended.labelsBelow below) restRan
      -- The first segment stands before all others, which are placed behind it.
      refine ⟨segment :: segments, by simp [sameLength], ?_, ?_⟩
      · simpa using firstExtended.trans restExtended
      · intro index instr found instrAt segmentAt world
        cases index with
        | zero =>
            cases instrAt
            cases segmentAt
            simpa using firstPerforms world
        | succ index =>
            have performs :=
              restPerforms index instr found (by simpa using instrAt)
                (by simpa using segmentAt) world
            rw [firstExtended.body] at performs
            simpa [List.append_assoc] using performs

/-- Segments are those before one of them, itself, and those behind it. -/
private theorem flatten_split
    {segments : List (List Jvm.Instr)}
    {index : Nat}
    {segment : List Jvm.Instr}
    (found : segments[index]? = some segment) :
    (segments.take index).flatten ++ segment ++
      (segments.drop (index + 1)).flatten =
      segments.flatten := by
  have inside : index < segments.length := (List.getElem?_eq_some_iff.mp found).1
  have isHere : segments[index] = segment := (List.getElem?_eq_some_iff.mp found).2
  calc (segments.take index).flatten ++ segment ++
    (segments.drop (index + 1)).flatten
      = (segments.take index ++ segment :: segments.drop (index + 1)).flatten := by
        simp [List.append_assoc]
    _ = (segments.take index ++ segments.drop index).flatten := by
        rw [List.drop_eq_getElem_cons inside, isHere]
    _ = segments.flatten := by
        rw [List.take_append_drop]

/--
Segments that do one by one what instructions mean do together what
all of them mean.
-/
private theorem ends_of_each
    {unit : ClassCode}
    {method : Method}
    {segments : List (List Jvm.Instr)}
    {world : World Jvm.Event}
    (count : segments.length = method.instrs.length)
    (each :
      ∀ (index : Nat) (instr : Code.Instr),
        method.instrs[index]? = some instr →
        ∀ (slots : Store Nat) (events : List Jvm.Event),
          Jvm.Runs world segments.flatten
            (⟨segmentStart segments index, [], slots⟩, events) ((do
              let slots ← (slotSetting world unit method).exec slots instr
              return ⟨segmentStart segments (index + 1), [], slots⟩ : Run Jvm.Event
                Jvm.State)
              events))
    (rest : List Code.Instr)
    (index : Nat)
    (isRest : method.instrs.drop index = rest)
    (slots : Store Nat)
    (events : List Jvm.Event) :
    match (slotSetting world unit method).execAll slots rest events with
    | .ok _ later =>
        Jvm.Ends world segments.flatten
          (⟨segmentStart segments index, [], slots⟩, events) .endOfBody later
    | .error outcome later =>
        Jvm.Ends world segments.flatten
          (⟨segmentStart segments index, [], slots⟩, events) outcome later := by
  -- The machine stands at the segment of the first instruction that is left, with
  -- an empty stack.
  induction rest generalizing index slots events with
  | nil =>
      have behind : segments.length ≤ index := by
        rw [count]
        exact List.drop_eq_nil_iff.mp isRest
      refine Jvm.Runs.behindBody ?_ events
      simp [segmentStart, List.take_of_length_le behind]
  | cons instr rest inductionHypothesis =>
      have instrAt : method.instrs[index]? = some instr := by
        rw [← List.head?_drop, isRest]
        rfl
      have isLater : method.instrs.drop (index + 1) = rest := by
        rw [← List.tail_drop, isRest]
        rfl
      have ran := each index instr instrAt slots events
      cases executed : (slotSetting world unit method).exec slots instr events with
      | error outcome later =>
          rw [bind_of_error executed] at ran
          have stopped :
              (slotSetting world unit method).execAll slots (instr :: rest) events =
                .error outcome later :=
            bind_of_error executed
          rw [stopped]
          exact ran
      | ok after later =>
          rw [bind_of_ok executed] at ran
          have goesOn :
              (slotSetting world unit method).execAll slots (instr :: rest) events =
                (slotSetting world unit method).execAll after rest later :=
            bind_of_ok executed
          rw [goesOn]
          have continued := inductionHypothesis (index + 1) isLater after later
          cases finished : (slotSetting world unit method).execAll after rest
            later with
          | ok final last =>
              rw [finished] at continued
              exact continued.after ran
          | error outcome last =>
              rw [finished] at continued
              exact continued.after ran

/-- The segments emitted for the instructions of a method simulate it. -/
private theorem codes_simulates
    {unit : ClassCode}
    {method : Method}
    {state after : Emitter}
    {value : Unit}
    (current : state.current? = some method)
    (empty : state.body = [])
    (ran : Emit.codes unit method.instrs state = .ok value after) :
    ∃ segments,
      after.body = segments.flatten ∧ after.lines = state.lines ∧
        Simulates unit method segments := by
  -- A new body has no labels, whatever number the labels of the class have come to.
  have below : state.LabelsBelow := by
    intro name member
    rw [empty] at member
    cases member
  obtain ⟨segments, sameLength, extended, performs⟩ :=
    codes_segments current below ran
  have each
      (world : World Jvm.Event)
      (index : Nat)
      (instr : Code.Instr)
      (instrAt : method.instrs[index]? = some instr)
      (slots : Store Nat)
      (events : List Jvm.Event) :
      Jvm.Runs world segments.flatten
        (⟨segmentStart segments index, [], slots⟩, events) ((do
          let slots ← (slotSetting world unit method).exec slots instr
          return ⟨segmentStart segments (index + 1), [], slots⟩ : Run Jvm.Event
            Jvm.State)
          events) := by
    have inside : index < segments.length := by
      rw [sameLength]
      exact (List.getElem?_eq_some_iff.mp instrAt).1
    have segmentAt : segments[index]? = some segments[index] :=
      List.getElem?_eq_getElem inside
    have ranSegment :=
      performs index instr segments[index] instrAt segmentAt world
        (segments.drop (index + 1)).flatten [] slots events
    rw [empty, List.nil_append, flatten_split segmentAt] at ranSegment
    rw [segmentStart_succ segmentAt]
    simp only [leaving, bind_assoc, pure_bind] at ranSegment
    exact ranSegment
  refine ⟨segments, ?_, extended.lines, sameLength, each, ?_⟩
  · rw [extended.body, empty, List.nil_append]
  · intro world slots
    have ends := ends_of_each sameLength (each world) method.instrs 0 rfl slots []
    unfold Jvm.Behaves Code.Setting.behaviour Run.behaviour
    cases finished : (slotSetting world unit method).execAll slots
      method.instrs [] with
    | ok final events =>
        rw [finished] at ends
        simpa [segmentStart] using ends
    | error outcome events =>
        rw [finished] at ends
        simpa [segmentStart] using ends

/-- The code of a body ends at the end of its method. -/
private theorem codeOf_body
    (body : List Jvm.Instr)
    (rest : List Line) :
    codeOf (body.map .code ++ .methodEnd :: rest) = body := by
  induction body with
  | nil =>
      rfl
  | cons instr body inductionHypothesis =>
      simp [codeOf, inductionHypothesis]

/-- Lines in which no method starts have no body. -/
private theorem bodies_append
    {lines : List Line}
    (noStart :
      ∀ visibility isStatic name descriptor,
        Line.methodStart visibility isStatic name descriptor ∉ lines)
    (rest : List Line) :
    bodies (lines ++ rest) = bodies rest := by
  induction lines with
  | nil =>
      rfl
  | cons line lines inductionHypothesis =>
      have restIs : bodies (lines ++ rest) = bodies rest :=
        inductionHypothesis fun visibility isStatic name descriptor member =>
          noStart visibility isStatic name descriptor
            (List.mem_cons_of_mem _ member)
      cases line with
      | methodStart visibility isStatic name descriptor =>
          exact absurd List.mem_cons_self
            (noStart visibility isStatic name descriptor)
      | _ =>
          simpa [bodies] using restIs

/-- The lines of a method have its body. -/
theorem bodies_methodLines
    (unit : ClassCode)
    (method : Method)
    (limits : Jvm.Limits)
    (body : List Jvm.Instr)
    (rest : List Line) :
    bodies (methodLines unit method limits body ++ rest) = body :: bodies rest := by
  have isCode :
      codeOf (methodLines unit method limits body ++ rest).tail = body := by
    simp [methodLines, codeOf, codeOf_body]
  have isRest :
      bodies (methodLines unit method limits body ++ rest).tail = bodies rest := by
    have noStart :
        ∀ visibility isStatic name descriptor,
          Line.methodStart visibility isStatic name descriptor ∉
            (methodLines unit method limits body).tail := by
      simp [methodLines]
    rw [← bodies_append noStart rest]
    simp [methodLines]
  calc bodies (methodLines unit method limits body ++ rest)
      = codeOf (methodLines unit method limits body ++ rest).tail ::
          bodies (methodLines unit method limits body ++ rest).tail := by
        simp [methodLines, bodies]
    _ = body :: bodies rest := by
        rw [isCode, isRest]

/-- The body of the constructor. -/
def constructorBody (unit : ClassCode) : List Jvm.Instr :=
  [.load .reference 0, .invoke .special unit.superPath Code.constructorName "()V"
    0 false, .ret none]

/-- The lines before the methods have the body of the constructor only. -/
theorem bodies_classLines
    (unit : ClassCode)
    (rest : List Line) :
    bodies (classLines unit ++ rest) = constructorBody unit :: bodies rest := by
  have noStart :
      ∀ visibility isStatic name descriptor,
        Line.methodStart visibility isStatic name descriptor ∉
          [Line.classHeader unit.name, .superHeader unit.superPath, .blank] ++
            unit.fields.map (fun field =>
              .field field.visibility field.name (unit.descriptor field.type)) ++
            [.comment "default constructor"] := by
    simp
  have split := bodies_append noStart
    ([.methodStart .everyone false Code.constructorName "()V"] ++
      (constructorBody unit).map .code ++ .methodEnd :: rest)
  simp only [constructorBody, List.map_cons, List.map_nil, List.append_assoc,
    List.cons_append, List.nil_append, bodies, codeOf] at split
  simpa [classLines, constructorBody, bodies] using split

/-- Emitting a method writes lines with a body that simulates it. -/
private theorem method_simulates
    {unit : ClassCode}
    {method : Method}
    {state after : Emitter}
    {value : Unit}
    (ran : Emit.method unit method state = .ok value after) :
    ∃ limits segments,
      after.lines = state.lines ++ methodLines unit method limits segments.flatten ∧
        Simulates unit method segments := by
  obtain ⟨_, entered, enterRan, rest⟩ := bind_ok_iff.mp ran
  obtain rfl := modify_ok_iff.mp enterRan
  obtain ⟨_, emitted, codesRan, leaveRan⟩ := bind_ok_iff.mp rest
  obtain rfl := modify_ok_iff.mp leaveRan
  obtain ⟨segments, isBody, sameLines, simulates⟩ :=
    codes_simulates rfl rfl codesRan
  refine ⟨emitted.limits, segments, ?_, simulates⟩
  simp only [isBody, sameLines]

/-- Methods are emitted as bodies that simulate them. -/
private theorem methods_simulate
    {unit : ClassCode}
    {methods : List Method}
    {state after : Emitter}
    {value : Unit}
    (ran : Emit.methods unit methods state = .ok value after) :
    ∃ added,
      after.lines = state.lines ++ added ∧
        List.Forall₂
          (fun method body => ∃ segments, body = segments.flatten ∧
            Simulates unit method segments)
          methods (bodies added) := by
  induction methods generalizing state with
  | nil =>
      obtain ⟨_, rfl⟩ := pure_ok_iff.mp ran
      exact ⟨[], by simp, .nil⟩
  | cons first rest inductionHypothesis =>
      obtain ⟨_, spaced, blankRan, afterBlank⟩ := bind_ok_iff.mp ran
      obtain rfl := modify_ok_iff.mp blankRan
      obtain ⟨_, between, firstRan, restRan⟩ := bind_ok_iff.mp afterBlank
      obtain ⟨limits, segments, firstLines, simulates⟩ := method_simulates firstRan
      obtain ⟨added, restLines, restSimulate⟩ := inductionHypothesis restRan
      refine ⟨.blank :: (methodLines unit first limits segments.flatten ++ added),
        ?_, ?_⟩
      · rw [restLines, firstLines]
        simp
      · simp only [bodies, bodies_methodLines]
        exact .cons ⟨segments, rfl, simulates⟩ restSimulate

/--
The bodies of an emitted class: that of the constructor, then one for each method.
-/
theorem generate_bodies
    {unit : ClassCode}
    {lines : List Line}
    (generated : generate unit = .ok lines) :
    ∃ emitted,
      bodies lines = constructorBody unit :: emitted ∧
        List.Forall₂
          (fun method body => ∃ segments, body = segments.flatten ∧
            Simulates unit method segments)
          unit.methods emitted := by
  obtain ⟨state, methodsRan, rfl⟩ := generate_ok generated
  obtain ⟨added, isAdded, simulate⟩ := methods_simulate methodsRan
  refine ⟨bodies added, ?_, simulate⟩
  rw [isAdded]
  exact bodies_classLines unit added

/--
Every method of an emitted class has a body in the class, and the body simulates it.
-/
theorem emitted_bodies_simulate_methods
    {unit : ClassCode}
    {lines : List Line}
    (generated : generate unit = .ok lines) :
    (bodies lines).length = unit.methods.length + 1 ∧
      ∀ (index : Nat) (method : Method),
        unit.methods[index]? = some method →
        ∃ segments : List (List Jvm.Instr),
          (bodies lines)[index + 1]? = some segments.flatten ∧
            Simulates unit method segments := by
  obtain ⟨emitted, isBodies, simulate⟩ := generate_bodies generated
  rw [isBodies]
  refine ⟨by simp [simulate.length_eq], ?_⟩
  intro index method methodAt
  obtain ⟨body, isBody, segments, rfl, simulates⟩ :=
    forall₂_getElem? simulate methodAt
  exact ⟨segments, isBody, simulates⟩

/--
A method that asks an object for a number, once in vain, and
compares a quotient with it.
-/
private def comparing : Method where
  name := "compare"
  isStatic := false
  params := [.var "d" .int]
  returnType := .boolean
  instrs :=
    [.call .virtual (.receiver "A") "next" [] .int,
      .store (.var "n" .int) (.call .virtual (.receiver "A") "next" [] .int),
      .store (.var "q" .int) (.binary .div (.int 7) (.var "d" .int) .int),
      .store (.var "b" .boolean)
        (.binary .less (.var "q" .int) (.var "n" .int) .boolean),
      .ret .boolean (some (.var "b" .boolean))]
  table :=
    (((((∅ : Code.VariableTable).insert "this" ⟨.object "A", .receiver, 0⟩).insert
      "d" ⟨.int, .param, 1⟩).insert
      "n" ⟨.int, .localVar, 2⟩).insert
      "q" ⟨.int, .localVar, 3⟩).insert
      "b" ⟨.boolean, .localVar, 4⟩

/-- A class with one method is emitted, and its second body simulates the method. -/
theorem emitted_bodies_simulate_comparing :
    ∃ lines,
      generate { name := "A", methods := [comparing] } = .ok lines ∧
        ∃ segments,
          (bodies lines)[1]? = some segments.flatten ∧
            Simulates { name := "A", methods := [comparing] } comparing segments :=
  ⟨_, rfl, (emitted_bodies_simulate_methods rfl).2 0 comparing rfl⟩

end MiniJava.Assembly
