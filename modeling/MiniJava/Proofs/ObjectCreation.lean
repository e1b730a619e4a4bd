import MiniJava.Proofs.EmittedCalls

namespace MiniJava

/-!
# New objects and their constructors

Every new object is constructed at once. The constructor is that of the type of
the variable that holds the object: a temporary has the type of the object, but
a variable of the body has the type that it was declared with. So an object that
is assigned to a variable of another class is constructed as one of that class.
-/

open Code (Operand ValueType Instr ClassCode)
open Assembly (EmittedFor bodies generate notable)

/--
The class of a new object, and the type of the variable on which it is constructed.
-/
def Site.creation? : Site → Option (String × ValueType)
  | .call _ _ _ _ _ => none
  | .creation className type => some (className, type)

/-- The new objects of a method, in order. -/
def MethodDef.creations
    (symbols : Symbols)
    (source : MethodDef) : List (String × ValueType) :=
  (source.sites symbols).filterMap Site.creation?

/--
A property of the declared type and the class of each new object
assigned to a variable.
-/
def MethodDef.EachAssignedObject
    (symbols : Symbols)
    (source : MethodDef)
    (property : TypeName → String → Prop) : Prop :=
  ∀ name type className annotated,
    Stmt.assign name type (.newObject className annotated) ∈ source.body →
    symbols.isField source.name name = false →
    property type className

namespace Assembly

/--
The class whose constructor is called on the object on the stack, through its slot.
-/
def constructor? : List Jvm.Instr → Option String
  | .store kind slot :: .load other place :: .invoke .special owner name descriptor
    0 false :: _ =>
      if kind = other ∧ slot = place ∧ name = Code.constructorName ∧
        descriptor = "()V" then
        some owner
      else
        none
  | _ => none

/--
The classes of the objects that a body creates, each with the class
that constructs it next.
-/
def constructions : List Jvm.Instr → List (String × Option String)
  | [] => []
  | .newObject path :: rest => (path, constructor? rest) :: constructions rest
  | _ :: rest => constructions rest

theorem constructions_append
    {first : List Jvm.Instr}
    (noObject : ∀ path, .newObject path ∉ first)
    (second : List Jvm.Instr) :
    constructions (first ++ second) = constructions second := by
  induction first with
  | nil => rfl
  | cons instr rest inductionHypothesis =>
      have restIs : constructions (rest ++ second) = constructions second :=
        inductionHypothesis fun path member =>
          noObject path (List.mem_cons_of_mem _ member)
      cases instr with
      | newObject path => exact absurd List.mem_cons_self (noObject path)
      | _ => exact restIs

end Assembly

namespace MethodDef.Links

variable {symbols : Symbols} {source : MethodDef} {sites : List Site}
  {instrs : List Instr}

/-- A new object is constructed by the next instruction. -/
theorem constructed
    (links : source.Links symbols sites instrs)
    {position : Nat}
    {dest : Operand}
    {type annotated : ValueType}
    {className : String}
    (found :
      instrs[position]? =
        some (.assign dest type (.newObject className annotated))) :
    instrs[position + 1]? = some (.construct dest) ∧
      .creation className dest.type ∈ sites := by
  induction links generalizing position with
  | nothing => cases found
  | plain isPlain rest inductionHypothesis =>
      cases position with
      | zero =>
          cases found
          cases isPlain
      | succ position => exact inductionHypothesis found
  | call isCall makes rest inductionHypothesis =>
      cases position with
      | zero =>
          cases found
          cases isCall
      | succ position =>
          rcases inductionHypothesis found with ⟨isNext, member⟩
          exact ⟨isNext, List.mem_cons_of_mem _ member⟩
  | creation dest rest inductionHypothesis =>
      match position with
      | 0 =>
          cases found
          exact ⟨rfl, List.mem_cons_self⟩
      | 1 => cases found
      | position + 2 =>
          rcases inductionHypothesis found with ⟨isNext, member⟩
          exact ⟨isNext, List.mem_cons_of_mem _ member⟩

/-- Every new object of the body is created in the code. -/
theorem exists_creation
    (links : source.Links symbols sites instrs)
    {className : String}
    {type : ValueType}
    (member : .creation className type ∈ sites) :
    ∃ (position : Nat) (dest : Operand),
      dest.type = type ∧
        instrs[position]? =
          some (.store dest (.newObject className (.object className))) := by
  induction links with
  | nothing => cases member
  | plain isPlain rest inductionHypothesis =>
      rcases inductionHypothesis member with ⟨position, found⟩
      exact ⟨position + 1, found⟩
  | call isCall makes rest inductionHypothesis =>
      rcases List.mem_cons.mp member with impossible | member
      · cases impossible
      · rcases inductionHypothesis member with ⟨position, found⟩
        exact ⟨position + 1, found⟩
  | creation dest rest inductionHypothesis =>
      rcases List.mem_cons.mp member with same | member
      · cases same
        exact ⟨0, dest, rfl, rfl⟩
      · rcases inductionHypothesis member with ⟨position, found⟩
        exact ⟨position + 2, found⟩

/--
The emitted code creates the new objects of the body, and constructs
each on its variable.
-/
theorem constructions_eq
    {unit : ClassCode}
    {method : Code.Method}
    {segments : List (List Jvm.Instr)}
    (links : source.Links symbols sites instrs)
    (emitted : List.Forall₂ (EmittedFor unit method) instrs segments) :
    Assembly.constructions segments.flatten =
      (sites.filterMap Site.creation?).map fun made =>
        (unit.classPath made.1, some (Jvm.ownerPath unit made.2)) := by
  have noObject
      {instr : Instr}
      {segment : List Jvm.Instr}
      (emitted : EmittedFor unit method instr segment)
      (none : ∀ path, .newObject path ∉ notable unit instr)
      (path : String) :
      .newObject path ∉ segment := by
    intro member
    apply none path
    rw [← emitted.filter_isNotable]
    exact List.mem_filter.mpr ⟨member, rfl⟩
  induction links generalizing segments with
  | nothing =>
      cases emitted
      rfl
  | plain isPlain rest inductionHypothesis =>
      cases emitted with
      | cons first others =>
          rw [List.flatten_cons, Assembly.constructions_append,
            inductionHypothesis others]
          apply noObject first
          simp [Assembly.notable_of_isPlain unit isPlain]
  | call isCall makes rest inductionHypothesis =>
      cases emitted with
      | cons first others =>
          rw [List.flatten_cons, Assembly.constructions_append,
            inductionHypothesis others]
          · rfl
          · apply noObject first
            simp [Assembly.notable_of_call unit isCall, Assembly.invocation]
  | creation dest rest inductionHypothesis =>
      cases emitted with
      | cons stored others =>
          cases others with
          | cons constructed others =>
              rcases stored.creation with ⟨name, slot, isName, isSlot, rfl⟩
              rcases constructed.construct with ⟨_, _, sameName, sameSlot, rfl⟩
              -- Both segments look up the slot of the same variable.
              cases isName.symm.trans sameName
              cases isSlot.symm.trans sameSlot
              have restIs := inductionHypothesis others
              simp [Assembly.constructions, Assembly.constructor?,
                Site.creation?, restIs]

end MethodDef.Links

open Assembly (constructions)

namespace MethodDef

variable {symbols : Symbols} {source : MethodDef} {declared : List String}
  {className : String} {type : ValueType}

/-- The calls of expressions in a row are those of each, where it is evaluated. -/
theorem exists_mem_exprSites
    {exprs : List Expr}
    {site : Site}
    (member : site ∈ source.exprsSites symbols declared exprs) :
    ∃ expr ∈ exprs, ∃ declared, site ∈ source.exprSites symbols declared expr := by
  induction exprs generalizing declared with
  | nil =>
      simp [exprsSites] at member
  | cons first rest inductionHypothesis =>
      rw [exprsSites] at member
      rcases List.mem_append.mp member with inFirst | inRest
      · exact ⟨first, List.mem_cons_self, declared, inFirst⟩
      · obtain ⟨expr, isExpr, inExpr⟩ := inductionHypothesis inRest
        exact ⟨expr, List.mem_cons_of_mem _ isExpr, inExpr⟩

/-- A new object inside an expression is constructed as one of its class. -/
theorem type_of_mem_exprSites
    {expr : Expr}
    (member : .creation className type ∈ source.exprSites symbols declared expr) :
    type = .object className := by
  induction expr generalizing declared with
  | binary operator left right annotated leftHypothesis rightHypothesis =>
      rw [exprSites] at member
      rcases List.mem_append.mp member with inLeft | inRight
      · exact leftHypothesis inLeft
      · exact rightHypothesis inRight
  | call target method arguments annotated targetHypothesis argumentsHypothesis =>
      rw [exprSites] at member
      rcases List.mem_append.mp member with inParts | isCall
      · rcases List.mem_append.mp inParts with inTarget | inArguments
        · exact targetHypothesis inTarget
        · rcases exists_mem_exprSites inArguments with
            ⟨argument, isArgument, _, inArgument⟩
          exact argumentsHypothesis argument isArgument inArgument
      · cases List.mem_singleton.mp isCall
  | newObject created annotated =>
      rw [exprSites] at member
      cases List.mem_singleton.mp member
      rfl
  | newArray size annotated sizeHypothesis =>
      rw [exprSites] at member
      exact sizeHypothesis member
  | element array index annotated arrayHypothesis indexHypothesis =>
      rw [exprSites] at member
      rcases List.mem_append.mp member with inArray | inIndex
      · exact arrayHypothesis inArray
      · exact indexHypothesis inIndex
  | length array annotated arrayHypothesis =>
      rw [exprSites] at member
      exact arrayHypothesis member
  | _ =>
      simp [exprSites] at member

/--
Only a new object that is assigned to a variable is constructed as of another type.
-/
theorem type_of_mem_stmtSites
    {stmt : Stmt}
    (member : .creation className type ∈ source.stmtSites symbols declared stmt) :
    type = .object className ∨
      ∃ name written annotated,
        stmt = .assign name written (.newObject className annotated) ∧
          symbols.isField source.name name = false ∧
            type = .ofTypeName written := by
  cases stmt with
  | assign name written value =>
      cases value with
      | newObject created annotated =>
          cases List.mem_singleton.mp member
          cases isField : symbols.isField source.name name with
          | true =>
              exact .inl rfl
          | false =>
              exact .inr ⟨name, written, annotated, rfl, isField, rfl⟩
      | _ =>
          exact .inl (type_of_mem_exprSites member)
  | evaluate expr =>
      exact .inl (type_of_mem_exprSites member)
  | ret result =>
      cases result with
      | none =>
          cases member
      | some expr =>
          exact .inl (type_of_mem_exprSites member)

theorem mem_creations :
    (className, type) ∈ source.creations symbols ↔
      .creation className type ∈ source.sites symbols := by
  constructor
  · intro member
    rcases List.mem_filterMap.mp member with ⟨site, inSites, isCreation⟩
    cases site with
    | call found target method arguments annotated => cases isCreation
    | creation created annotated =>
        cases isCreation
        exact inSites
  · intro member
    exact List.mem_filterMap.mpr ⟨_, member, rfl⟩

/--
What holds of every object constructed as its own holds of all once
it holds on variables.
-/
theorem forall_creations_iff
    (property : String → ValueType → Prop)
    (ofOwn : ∀ className, property className (.object className)) :
    (∀ made ∈ source.creations symbols, property made.1 made.2) ↔
      source.EachAssignedObject symbols fun type className =>
        property className (.ofTypeName type) := by
  constructor
  · intro each name type className annotated member notField
    obtain ⟨before, isPoint⟩ := exists_mem_pointsFrom member
    refine each (className, .ofTypeName type) (mem_creations.mpr ?_)
    refine List.mem_flatMap.mpr ⟨_, isPoint, ?_⟩
    simp [pointSites, stmtSites, assignedSites, Expr.created?, notField]
  · rintro each ⟨className, type⟩ member
    rcases List.mem_flatMap.mp (mem_creations.mp member) with
      ⟨⟨_, stmt⟩, isPoint, inStmt⟩
    rcases type_of_mem_stmtSites inStmt with
      rfl | ⟨name, written, annotated, rfl, notField, rfl⟩
    · exact ofOwn className
    · exact each name written className annotated
        (stmt_mem_of_mem_pointsFrom isPoint) notField

end MethodDef

/--
Every new object is constructed at once, in code by the next instruction and in
assembly through the slot that it is stored in. All objects of a method are
constructed as what they are exactly if those are that the body assigns to
variables, which are constructed as objects of the declared type.
-/
theorem new_objects_are_constructed
    {symbols : Symbols}
    {program : Program}
    {code : ClassCode}
    {index : Nat}
    {source : MethodDef}
    {method : Code.Method}
    (lowered : program.lower symbols = .ok code)
    (sourceAt : program.mainClass.methods[index]? = some source)
    (methodAt : code.methods[index]? = some method) :
    (∀ (position : Nat) (dest : Operand) (type annotated : ValueType)
        (className : String),
        method.instrs[position]? =
          some (.assign dest type (.newObject className annotated)) →
        method.instrs[position + 1]? = some (.construct dest)) ∧
      ((∀ (position : Nat) (dest : Operand) (type annotated : ValueType)
          (className : String),
          method.instrs[position]? =
            some (.assign dest type (.newObject className annotated)) →
          dest.type = .object className) ↔
        source.EachAssignedObject symbols fun type className =>
          .ofTypeName type = ValueType.object className) ∧
        ∀ lines,
          generate code = .ok lines →
          ∃ body,
            (bodies lines)[index + 1]? = some body ∧
              constructions body =
                  (source.creations symbols).map (fun made =>
                    (code.classPath made.1, some (Jvm.ownerPath code made.2))) ∧
                ((∀ made ∈ constructions body, made.2 = some made.1) ↔
                  source.EachAssignedObject symbols fun type className =>
                    Jvm.ownerPath code (.ofTypeName type) =
                      code.classPath className) := by
  have links : source.Links symbols (source.sites symbols) method.instrs := by
    have related :=
      (Program.lower_forall₂
        (fun source _ _ _ _ _ ran => (Lower.method_links ran).1) lowered).1
    rcases forall₂_getElem? related sourceAt with ⟨_, sameAt, links⟩
    cases methodAt.symm.trans sameAt
    exact links
  refine ⟨?_, ?_, ?_⟩
  · intro position dest type annotated className found
    exact (links.constructed found).1
  · refine Iff.trans ?_
      (MethodDef.forall_creations_iff
        (fun className type => type = .object className) fun _ => rfl)
    constructor
    · rintro each ⟨className, type⟩ member
      rcases links.exists_creation (MethodDef.mem_creations.mp member) with
        ⟨position, dest, rfl, found⟩
      exact each position dest _ _ className found
    · intro each position dest type annotated className found
      exact each (className, dest.type)
        (MethodDef.mem_creations.mpr (links.constructed found).2)
  · intro lines generated
    rcases (Assembly.generate_segments generated methodAt).2 with
      ⟨segments, isBody, emitted⟩
    have isMade := links.constructions_eq emitted
    refine ⟨segments.flatten, isBody, isMade, ?_⟩
    refine Iff.trans ?_
      (MethodDef.forall_creations_iff
        (fun className type => Jvm.ownerPath code type = code.classPath className)
          fun _ => rfl)
    rw [isMade, List.forall_mem_map]
    simp only [Option.some.injEq]
    exact Iff.rfl

/--
A method with new objects in a field, in a variable, and as target
and argument of a call.
-/
private def building : MethodDef where
  name := "build"
  returnType := .void
  locals := [⟨"a", .ofClass "A"⟩]
  body :=
    [.assign "f" (.ofClass "Base") (.newObject "A" (.ofClass "A")),
      .assign "a" (.ofClass "A") (.newObject "A" (.ofClass "A")),
      .evaluate
        (.call (.newObject "List" (.ofClass "List")) "add"
          [.newObject "A" (.ofClass "A")] .void)]

private def buildingProgram : Program where
  imports := ["util.List"]
  mainClass :=
    { name := "A"
      superClass := some "Base"
      fields := [⟨"f", .ofClass "Base"⟩]
      methods := [building] }

/-- The four objects of the method are constructed as what they are. -/
theorem new_objects_are_constructed_building :
    ∃ code lines body,
      buildingProgram.lower (.ofProgram buildingProgram) = .ok code ∧
        generate code = .ok lines ∧
          (bodies lines)[1]? = some body ∧
            (constructions body).length = 4 ∧
              ∀ made ∈ constructions body, made.2 = some made.1 := by
  have succeeds :
      (buildingProgram.lower (.ofProgram buildingProgram)).toOption.map
          (fun code => (code.methods.length, (generate code).toOption.isSome)) =
        some (1, true) := by
    decide +kernel
  obtain ⟨code, lowered, isMeasured⟩ := exists_ok_of_map succeeds
  obtain ⟨isOne, emits⟩ := Prod.mk.inj isMeasured
  obtain ⟨lines, generated⟩ := exists_ok_of_isSome emits
  have methodAt : code.methods[0]? = some (code.methods.get ⟨0, by omega⟩) :=
    List.getElem?_eq_getElem (by omega)
  rcases new_objects_are_constructed lowered rfl methodAt with ⟨_, _, emitted⟩
  rcases emitted lines generated with ⟨body, isBody, isMade, own⟩
  refine ⟨code, lines, body, lowered, generated, isBody, ?_, own.mpr ?_⟩
  · rw [isMade, List.length_map]
    decide +kernel
  · intro name type className annotated member notField
    simp only [building, List.mem_cons, Stmt.assign.injEq, Expr.newObject.injEq,
      reduceCtorEq, List.not_mem_nil, or_false] at member
    rcases member with ⟨rfl, rfl, rfl, rfl⟩ | ⟨rfl, rfl, rfl, rfl⟩
    · exact absurd notField (by decide +kernel)
    · rfl

/--
A method that assigns a new object of its class to a variable of the parent class.
-/
private def raising : MethodDef where
  name := "raise"
  isStatic := true
  returnType := .void
  locals := [⟨"b", .ofClass "Base"⟩]
  body := [.assign "b" (.ofClass "Base") (.newObject "A" (.ofClass "A"))]

private def raisingProgram : Program where
  mainClass := { name := "A", superClass := some "Base", methods := [raising] }

/-- The new object is constructed as one of the parent class only. -/
theorem new_object_constructed_as_parent :
    ∃ code lines,
      raisingProgram.lower (.ofProgram raisingProgram) = .ok code ∧
        code.methods.map Code.Method.instrs =
            [[.store (.var "b" (.object "Base")) (.newObject "A" (.object "A")),
              .construct (.var "b" (.object "Base")),
              .ret .void none]] ∧
          generate code = .ok lines ∧
            (bodies lines)[1]? =
              some
                [.newObject "A",
                  .store .reference 0,
                  .load .reference 0,
                  .invoke .special "Base" "<init>" "()V" 0 false,
                  .ret none] :=
  ⟨_, _, rfl, rfl, rfl, rfl⟩

end MiniJava
