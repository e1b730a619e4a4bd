import MiniJava.Proofs.Configurations
import MiniJava.Proofs.EmittedCalls
import MiniJava.Proofs.OptimizedPrograms

namespace MiniJava

/-!
# Calls of the methods of the class

A call on an object of the class is made on the class, under the name of the
method. It is linked by its descriptor, which has the types of the arguments,
while the header of the method has the types of the parameters. The two are the
same as long as no argument is of the class where the parent class is declared.
Constants that are propagated and folded leave the calls and their types, if the
annotations fit together.
-/

open Code (ClassCode CallKind Method Operand ValueType)
open Assembly (bodies headers isInvoke)

namespace Symbols

theorem ofProgram_className
    (program : Program) :
    (ofProgram program).className = program.mainClass.name := by
  have kept (methods : List MethodDef) (symbols : Symbols) :
      (methods.foldl addMethod symbols).className = symbols.className := by
    induction methods generalizing symbols with
    | nil => rfl
    | cons first rest inductionHypothesis =>
        exact inductionHypothesis (symbols.addMethod first)
  exact kept _ _

/-- The methods of a program are listed by their names. -/
theorem ofProgram_methods
    (program : Program) :
    (ofProgram program).methods = program.mainClass.methods.map MethodDef.name := by
  have added (methods : List MethodDef) (symbols : Symbols) :
      (methods.foldl addMethod symbols).methods =
        symbols.methods ++ methods.map MethodDef.name := by
    induction methods generalizing symbols with
    | nil => simp
    | cons first rest inductionHypothesis =>
        rw [List.foldl_cons, inductionHypothesis]
        simp [addMethod]
  exact added _ _

theorem hasMethod_of_mem
    {program : Program}
    {method : MethodDef}
    (member : method ∈ program.mainClass.methods) :
    (ofProgram program).hasMethod method.name = true := by
  rw [hasMethod, ofProgram_methods]
  simpa using ⟨method, member, rfl⟩

/-- The descriptor of a written type in the class of the symbols. -/
def descriptor (symbols : Symbols) (type : TypeName) : String :=
  (Lowering.start symbols).output.descriptor (.ofTypeName type)

end Symbols

/--
A call on an object of the class, of a method that the class declares. The
arguments and the result are annotated as declared, but an argument may be of
the class where the parent class is declared, and no annotation is only known
through an import or other than the value.
-/
structure OwnCall
    (symbols : Symbols)
    (source declared : MethodDef)
    (found : CallKind)
    (target : Expr)
    (method : String)
    (arguments : List Expr)
    (type : TypeName) : Prop where
  onObject : found ≠ .static
  ownType : target.type = .ofClass symbols.className
  isNamed : method = declared.name
  areTaken :
    List.Forall₂
      (fun argument param =>
        argument.type = param.type ∨
          argument.type = .ofClass symbols.className ∧
            ∃ parent, symbols.superClass = some parent ∧
              param.type = .ofClass parent)
      arguments declared.params
  isResult : type = declared.returnType
  keepTypes : ∀ part ∈ target :: arguments,
    symbols.keepsType source.name part = true
  isKnown : type.isImported = false

/-- Longer texts in a row make a longer text. -/
private theorem length_join_le
    {relation : String → String → Prop}
    {first second : List String}
    (related : List.Forall₂ relation first second)
    (atMost : ∀ {left right}, relation left right → left.length ≤ right.length) :
    (String.join first).length ≤ (String.join second).length := by
  induction related with
  | nil => exact Nat.le_refl _
  | cons here _ inductionHypothesis =>
      rw [String.join_cons, String.join_cons, String.length_append,
        String.length_append]
      exact Nat.add_le_add (atMost here) inductionHypothesis

/--
Where two lists differ by one text in place of another, so do the texts in a row.
-/
private theorem eq_of_join_eq
    {first second : List String}
    {old new : String}
    (related :
      List.Forall₂ (fun left right => left = right ∨ left = old ∧ right = new)
        first second)
    (same : String.join first = String.join second) :
    first = second := by
  induction related with
  | nil => rfl
  | @cons left right others more here rest inductionHypothesis =>
      rw [String.join_cons, String.join_cons] at same
      have equal : left = right := by
        rcases here with equal | ⟨isOld, isNew⟩
        · exact equal
        · -- All differences that follow shift the rest the same way as this one.
          have sameLength := congrArg String.length same
          rw [String.length_append, String.length_append] at sameLength
          have isLength : left.length = right.length := by
            rcases Nat.le_total left.length right.length with atMost | atLeast
            · have restAtMost := length_join_le rest (by grind)
              omega
            · have restAtLeast := length_join_le rest.flip (by grind)
              omega
          have sameLists := congrArg String.toList same
          rw [String.toList_append, String.toList_append] at sameLists
          have isListLength : left.toList.length = right.toList.length := by
            rw [String.length_toList, String.length_toList, isLength]
          exact String.ext (List.append_inj sameLists isListLength).1
      rw [equal, String.append_right_inj] at same
      rw [equal, inductionHypothesis same]

/-- The descriptors of methods agree exactly if those of all parameters do. -/
theorem Code.ClassCode.methodDescriptor_eq_iff
    {unit : ClassCode}
    {first second : List ValueType}
    {own parent : ValueType}
    (result : ValueType)
    (related :
      List.Forall₂ (fun left right => left = right ∨ left = own ∧ right = parent)
        first second) :
    unit.methodDescriptor first result = unit.methodDescriptor second result ↔
      List.Forall₂ (fun left right => unit.descriptor left = unit.descriptor right)
        first second := by
  have relatedTexts :
      List.Forall₂
        (fun left right =>
          left = right ∨
            left = unit.descriptor own ∧ right = unit.descriptor parent)
        (first.map unit.descriptor) (second.map unit.descriptor) := by
    rw [List.forall₂_map_left_iff, List.forall₂_map_right_iff]
    refine related.imp fun left right here => ?_
    rcases here with rfl | ⟨rfl, rfl⟩
    · exact .inl rfl
    · exact .inr ⟨rfl, rfl⟩
  have sameTexts :
      unit.methodDescriptor first result = unit.methodDescriptor second result ↔
        first.map unit.descriptor = second.map unit.descriptor := by
    unfold Code.ClassCode.methodDescriptor
    constructor
    · intro same
      simp only [String.append_left_inj, String.append_right_inj] at same
      exact eq_of_join_eq relatedTexts same
    · intro same
      rw [same]
  rw [sameTexts, ← List.forall₂_eq_eq_eq, List.forall₂_map_left_iff,
    List.forall₂_map_right_iff]

/--
A class that methods are called on is an object, unless it is that of strings.
-/
private theorem ofTypeName_ofClass
    {name : String}
    (notString : name ≠ "String")
    (isCallable : Assembly.hasMethods (.ofTypeName (.ofClass name)) = true) :
    ValueType.ofTypeName (.ofClass name) = .object name := by
  unfold ValueType.ofTypeName TypeName.ofClass at isCallable ⊢
  split
  all_goals simp_all [Assembly.hasMethods]

/-- Operands of expressions that keep their types have these types. -/
private theorem types_of_keepTypes
    {symbols : Symbols}
    {method : String}
    {exprs : List Expr}
    {operands : List Operand}
    (typed :
      List.Forall₂
        (fun expr operand =>
          symbols.keepsType method expr = true →
          operand.type = .ofTypeName expr.type)
        exprs operands)
    (keepTypes : ∀ expr ∈ exprs, symbols.keepsType method expr = true) :
    operands.map Operand.type = exprs.map fun expr => .ofTypeName expr.type := by
  induction typed with
  | nil => rfl
  | cons here _ inductionHypothesis =>
      rw [List.forall_mem_cons] at keepTypes
      rw [List.map_cons, List.map_cons, here keepTypes.1,
        inductionHypothesis keepTypes.2]

namespace OwnCall

variable {symbols : Symbols} {source declared : MethodDef} {found : CallKind}
  {target : Expr}
  {method : String} {arguments : List Expr} {type : TypeName} {call : Code.Call}
  {code : ClassCode}

/-- A call on parts that are annotated alike is a call of the same method. -/
theorem like
    {other : Expr}
    {others : List Expr}
    {body : List Stmt}
    (own : OwnCall symbols source declared found target method arguments type)
    (onTarget : Expr.TypedLike symbols source.name target other)
    (onArguments :
      List.Forall₂ (Expr.TypedLike symbols source.name) arguments others) :
    OwnCall symbols { source with body } declared found other method others
      type where
  onObject := own.onObject
  ownType := onTarget.type.trans own.ownType
  isNamed := own.isNamed
  areTaken := by
    refine forall₂_trans onArguments.flip own.areTaken fun like taken => ?_
    rw [like.type]
    exact taken
  isResult := own.isResult
  keepTypes := by
    rw [List.forall_mem_cons]
    refine ⟨onTarget.keepsType (own.keepTypes target List.mem_cons_self), ?_⟩
    intro part member
    obtain ⟨argument, isArgument, like⟩ := forall₂_mem_right onArguments member
    exact like.keepsType
      (own.keepTypes argument (List.mem_cons_of_mem _ isArgument))
  isKnown := own.isKnown

/--
A call of an own method is made on the class, with the types of the arguments.
-/
theorem invocation_eq
    (own : OwnCall symbols source declared found target method arguments type)
    (makes : source.Makes symbols found target method arguments type call)
    (notString : symbols.className ≠ "String")
    (hasMethod : symbols.hasMethod method = true)
    (isCallable : Assembly.isCallable call.kind call.target = true)
    (isClass : code.name = symbols.className) :
    Assembly.invocation code call =
      .invoke .special symbols.className method
        (code.methodDescriptor
          (arguments.map fun argument => .ofTypeName argument.type)
          (.ofTypeName type))
        arguments.length (!(ValueType.ofTypeName type).isVoid) := by
  have isKind : call.kind = .special := by
    rw [makes.kind own.onObject, own.ownType]
    simp [Symbols.objectCallKind, TypeName.ofClass, hasMethod]
  have isTarget : call.target.type = .ofTypeName (.ofClass symbols.className) := by
    rw [makes.target own.onObject (own.keepTypes target List.mem_cons_self),
      own.ownType]
  have isObject : call.target.type = .object symbols.className := by
    rw [isTarget]
    apply ofTypeName_ofClass notString
    rw [← isTarget]
    simp only [Assembly.isCallable, isKind, reduceCtorEq, decide_false,
      Bool.false_or, Bool.and_eq_true] at isCallable
    exact isCallable.2
  have isOwner : Assembly.callee code call = symbols.className := by
    rw [Assembly.callee_of_not_static code (by rw [isKind]; decide), isObject]
    simp [Jvm.ownerPath, Code.ClassCode.classPath, isClass]
  have areTypes :
      call.arguments.map Operand.type =
        arguments.map fun argument => .ofTypeName argument.type :=
    types_of_keepTypes makes.arguments fun argument member =>
      own.keepTypes argument (List.mem_cons_of_mem _ member)
  have isLength : call.arguments.length = arguments.length :=
    makes.arguments.length_eq.symm
  rw [Assembly.invocation, isKind, isOwner, areTypes, isLength, makes.method,
    makes.result own.isKnown]

/--
In code too, arguments are of the class at most where the parent class is declared.
-/
theorem related_types
    (own : OwnCall symbols source declared found target method arguments type) :
    List.Forall₂
      (fun left right =>
        left = right ∨
          left = .ofTypeName (.ofClass symbols.className) ∧
            right = .ofTypeName (.ofClass (symbols.superClass.getD "")))
      (arguments.map fun argument => ValueType.ofTypeName argument.type)
      (declared.params.map fun param => ValueType.ofTypeName param.type) := by
  rw [List.forall₂_map_left_iff, List.forall₂_map_right_iff]
  refine own.areTaken.imp fun argument param taken => ?_
  rcases taken with same | ⟨isOwn, parent, isParent, isDeclared⟩
  · exact .inl (by rw [same])
  · exact .inr ⟨by rw [isOwn], by rw [isDeclared, isParent]; rfl⟩

end OwnCall

/--
Descriptors depend on the name and the imports of a class, not on its methods.
-/
theorem Code.ClassCode.descriptor_withMethods
    (unit : ClassCode)
    (methods : List Method) :
    ({ unit with methods } : ClassCode).descriptor = unit.descriptor := by
  delta Code.ClassCode.descriptor
  rfl

/-- A method begins with the header of its source. -/
theorem MethodDef.header_begin
    (className : String)
    (source : MethodDef) :
    (source.begin className).header =
      (source.name, source.params.map (fun param => .ofTypeName param.type),
        .ofTypeName source.returnType) := by
  simp [Code.Method.header, MethodDef.begin, Operand.type]

/-- Allocation leaves the header of a method. -/
theorem Placed.header_eq
    {method placed : Method}
    (isPlaced : Placed method placed) :
    placed.header = method.header := by
  cases isPlaced with
  | asLowered => rfl
  | allocated allocated =>
      rw [(Register.allocate_ok allocated).2]
      rfl

/--
Constants that are propagated and folded give narrower bodies, if annotations fit
together. Without them, the bodies are those of the program.
-/
theorem TypedUnit.prepared_narrows
    {unit : TypedUnit}
    {options : Options}
    (annotated :
      options.optimize = true →
        ∀ source ∈ unit.program.mainClass.methods,
          source.AnnotatedThroughout unit.symbols) :
    ∃ change,
      unit.prepared options = unit.program.mapBodies change ∧
        ∀ source ∈ unit.program.mainClass.methods,
          source.NarrowsOwn unit.symbols (change source) := by
  unfold TypedUnit.prepared
  split
  case isTrue optimize =>
    obtain ⟨change, isOptimized, optimizes⟩ :=
      Program.optimize_improves unit.symbols unit.program
    refine ⟨change, isOptimized, fun source member => ?_⟩
    have throughout := annotated optimize source member
    have optimized : (source.unanswered unit.symbols).Optimizes (change source) :=
      optimizes rfl throughout.constantsApart throughout.annotated
    exact optimized.narrows
  case isFalse =>
    exact ⟨MethodDef.body, by simp [Program.mapBodies], fun source _ =>
      .refl source.body⟩

/--
The lines of a unit are those of a class that has, for each method of the program,
one with its header and with calls that link to the sites of a narrower body.
-/
theorem TypedUnit.lines_links
    {unit : TypedUnit}
    {options : Options}
    {lines : List Assembly.Line}
    (annotated :
      options.optimize = true →
        ∀ source ∈ unit.program.mainClass.methods,
          source.AnnotatedThroughout unit.symbols)
    (isLines : unit.lines options = .ok lines) :
    ∃ code : ClassCode,
      Assembly.generate code = .ok lines ∧
        code.name = unit.symbols.className ∧
          code.descriptor = (Lowering.start unit.symbols).output.descriptor ∧
            ∀ (index : Nat) (source : MethodDef),
              unit.program.mainClass.methods[index]? = some source →
              ∃ body method,
                code.methods[index]? = some method ∧
                  source.NarrowsOwn unit.symbols body ∧
                    method.header =
                        (source.begin unit.symbols.className).header ∧
                      ({ source with body } : MethodDef).Links unit.symbols
                        (({ source with body } : MethodDef).sites unit.symbols)
                        method.instrs := by
  obtain ⟨code, lowered, assembled⟩ := TypedUnit.lines_ok isLines
  obtain ⟨placedAll, arePlaced, generated⟩ := assembledLines_ok assembled
  obtain ⟨change, isPrepared, narrows⟩ := TypedUnit.prepared_narrows annotated
  obtain ⟨linkedAll, isClass⟩ :=
    Program.lower_forall₂ (fun source _ _ _ _ _ ran => Lower.method_links ran)
      lowered
  refine ⟨{ code with methods := placedAll }, generated, ?_, ?_, ?_⟩
  · rw [isClass]
    rfl
  · -- The lines see the class by its name and imports only.
    rw [Code.ClassCode.descriptor_withMethods, isClass,
      Code.ClassCode.descriptor_withMethods]
  · intro index source sourceAt
    have preparedAt := Program.getElem?_mapBodies sourceAt change
    rw [← isPrepared] at preparedAt
    obtain ⟨method, methodAt, links, isHeader⟩ :=
      forall₂_getElem? linkedAll preparedAt
    obtain ⟨placed, placedAt, isPlaced⟩ := forall₂_getElem? arePlaced methodAt
    refine ⟨change source, placed, placedAt,
      narrows source (List.mem_of_getElem? sourceAt),
      isPlaced.header_eq.trans isHeader, ?_⟩
    rw [isPlaced.instrs_eq]
    exact links

/--
A call of an own method is made on the class and under the name of the method,
and it has the descriptor of the method exactly if each argument has that of its
parameter.
-/
def Site.LinksIn
    (unit : TypedUnit)
    (lines : List Assembly.Line)
    (source : MethodDef)
    (site : Site)
    (instr : Jvm.Instr) : Prop :=
  ∀ found target method arguments type (place : Nat) declared,
    site = .call found target method arguments type →
    unit.program.mainClass.methods[place]? = some declared →
    OwnCall unit.symbols source declared found target method arguments type →
    ∃ header descriptor,
      (headers lines)[place + 1]? = some (method, header) ∧
        instr =
            .invoke .special unit.program.mainClass.name method descriptor
              arguments.length (!(ValueType.ofTypeName type).isVoid) ∧
          (descriptor = header ↔
            List.Forall₂
              (fun argument param =>
                unit.symbols.descriptor argument.type =
                  unit.symbols.descriptor param.type)
              arguments declared.params)

/--
A method that calls itself with a constant, and with the result of such a call.
-/
private def nesting : MethodDef where
  name := "nest"
  returnType := .int
  params := [⟨"b", .ofClass "Base"⟩, ⟨"n", .int⟩]
  body :=
    [.assign "n" .int (.literal (.int 7)),
      .ret (some
        (.call (.receiver (.ofClass "A")) "nest"
          [.var "b" (.ofClass "Base"),
            .call (.receiver (.ofClass "A")) "nest"
              [.var "b" (.ofClass "Base"), .var "n" .int] .int]
          .int))]

private def nestingUnit : TypedUnit where
  program :=
    { mainClass :=
        { name := "A", superClass := some "Base", methods := [nesting] } }

/-- The arguments of the inner call, which is made first. -/
private def innerCall : List Expr :=
  [.var "b" (.ofClass "Base"), .var "n" .int]

/-- The arguments of the outer call. -/
private def outerCall : List Expr :=
  [.var "b" (.ofClass "Base"),
    .call (.receiver (.ofClass "A")) "nest"
      [.var "b" (.ofClass "Base"), .var "n" .int] .int]

/--
A method that calls itself on the receiver, where it takes an object
of the parent class.
-/
private def passing : MethodDef where
  name := "pass"
  returnType := .void
  params := [⟨"b", .ofClass "Base"⟩]
  body :=
    [.evaluate
      (.call (.receiver (.ofClass "A")) "pass" [.receiver (.ofClass "A")] .void)]

private def passingUnit : TypedUnit where
  program :=
    { mainClass :=
        { name := "A", superClass := some "Base", methods := [passing] } }

end MiniJava
