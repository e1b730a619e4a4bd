import MiniJava.Proofs.ConstantPasses

namespace MiniJava

/-!
# Optimized programs behave like their source

Where every name has one annotation and nothing annotated as a number or truth
value is called, a name that is known to hold a literal is never the class of a
static call, and each of its reads is annotated with the type of the literal. So
the passes may replace all of them, and the calls of the body keep their targets
and the types of their arguments.
-/

/--
A use of a name is seen among expressions; a class is seen where it is called.
-/
def Use.SeenIn (exprs : List Expr) : Use → Prop
  | .var name type => .var name type ∈ exprs
  | .className name =>
      ∃ type, .var name type ∈ exprs ∧ .var name type ∈ exprs.filterMap Expr.target?

theorem Use.SeenIn.mono
    {exprs more : List Expr}
    {use : Use}
    (seen : use.SeenIn exprs)
    (subset : exprs ⊆ more) :
    use.SeenIn more := by
  cases use with
  | var name type =>
      exact subset seen
  | className name =>
      obtain ⟨type, isPart, isTarget⟩ := seen
      exact ⟨type, subset isPart, List.filterMap_subset _ subset isTarget⟩

/--
A use of a name is annotated in a statement; a class is annotated
where it is called.
-/
def Use.AnnotatedIn (stmt : Stmt) : Use → Prop
  | .var name type => (name, type) ∈ stmt.annotatedNames
  | .className name =>
      ∃ type,
        (name, type) ∈ stmt.annotatedNames ∧
          .var name type ∈ stmt.parts.filterMap Expr.target?

theorem Stmt.mem_annotatedNames
    {stmt : Stmt}
    {name : String}
    {type : TypeName}
    (isPart : .var name type ∈ stmt.parts) :
    (name, type) ∈ stmt.annotatedNames := by
  have isName : (name, type) ∈ stmt.parts.filterMap Expr.annotatedName? :=
    List.mem_filterMap.mpr ⟨_, isPart, rfl⟩
  cases stmt with
  | assign _ _ _ => exact List.mem_cons_of_mem _ isName
  | evaluate _ => exact isName
  | ret _ => exact isName

theorem Use.SeenIn.annotatedIn
    {stmt : Stmt}
    {use : Use}
    (seen : use.SeenIn stmt.parts) :
    use.AnnotatedIn stmt := by
  cases use with
  | var name type =>
      exact Stmt.mem_annotatedNames seen
  | className name =>
      obtain ⟨type, isPart, isTarget⟩ := seen
      exact ⟨type, Stmt.mem_annotatedNames isPart, isTarget⟩

namespace MethodDef

variable {symbols : Symbols} {method : MethodDef} {use : Use}
  {declared : List String}

/-- The uses of names in an expression are seen among its parts. -/
theorem seenIn_parts
    {expr : Expr}
    (isUse : use ∈ method.exprUses symbols declared expr) :
    use.SeenIn expr.parts := by
  induction expr generalizing declared use with
  | literal value =>
      simp [exprUses] at isUse
  | var name type =>
      rw [exprUses] at isUse
      obtain rfl := List.mem_singleton.mp isUse
      exact List.mem_singleton_self _
  | receiver type =>
      simp [exprUses] at isUse
  | binary operator left right type leftHypothesis rightHypothesis =>
      rw [exprUses] at isUse
      rcases List.mem_append.mp isUse with inLeft | inRight
      · apply (leftHypothesis inLeft).mono
        simp [Expr.parts]
      · apply (rightHypothesis inRight).mono
        simp [Expr.parts]
  | call target name arguments type targetHypothesis argumentsHypothesis =>
      have inArguments {declared : List String}
          (used : use ∈ method.exprsUses symbols declared arguments) :
          use.SeenIn (Expr.call target name arguments type).parts := by
        refine forall_mem_exprsUses (fun argument member _ use isUse => ?_) use used
        apply (argumentsHypothesis argument member isUse).mono
        intro part isPart
        have inList : part ∈ Expr.listParts arguments :=
          Expr.mem_listParts.mpr ⟨argument, member, isPart⟩
        simp [Expr.parts, inList]
      by_cases static : method.callKind symbols declared target name = .static
      · obtain ⟨className, annotated, rfl⟩ := Symbols.target_of_static static
        rw [exprUses_call_of_static static] at isUse
        rcases List.mem_cons.mp isUse with rfl | used
        · exact ⟨annotated, by simp [Expr.parts],
            by simp [Expr.parts, Expr.target?]⟩
        · exact inArguments used
      · rw [exprUses_call_of_not_static static] at isUse
        rcases List.mem_append.mp isUse with inTarget | used
        · apply (targetHypothesis inTarget).mono
          simp [Expr.parts]
        · exact inArguments used
  | newObject className type =>
      simp [exprUses] at isUse
  | newArray size type sizeHypothesis =>
      rw [exprUses] at isUse
      apply (sizeHypothesis isUse).mono
      simp [Expr.parts]
  | element array index type arrayHypothesis indexHypothesis =>
      rw [exprUses] at isUse
      rcases List.mem_append.mp isUse with inArray | inIndex
      · apply (arrayHypothesis inArray).mono
        simp [Expr.parts]
      · apply (indexHypothesis inIndex).mono
        simp [Expr.parts]
  | length array type arrayHypothesis =>
      rw [exprUses] at isUse
      apply (arrayHypothesis isUse).mono
      simp [Expr.parts]

/--
A use in a statement is among its annotated names; a class is also called in it.
-/
theorem annotatedIn_of_mem_stmtUses
    {stmt : Stmt}
    (isUse : use ∈ method.stmtUses symbols declared stmt) :
    use.AnnotatedIn stmt := by
  cases stmt with
  | assign name type source =>
      rcases List.mem_cons.mp isUse with rfl | inSource
      · exact List.mem_cons_self
      · apply Use.SeenIn.annotatedIn
        exact seenIn_parts inSource
  | evaluate expr =>
      apply Use.SeenIn.annotatedIn
      exact seenIn_parts isUse
  | ret result =>
      cases result with
      | none =>
          cases isUse
      | some expr =>
          apply Use.SeenIn.annotatedIn
          exact seenIn_parts isUse

/-- A use in a body is annotated in one of its statements. -/
theorem annotatedIn_of_mem_uses
    (isUse : use ∈ method.uses symbols) :
    ∃ stmt ∈ method.body, use.AnnotatedIn stmt := by
  obtain ⟨point, member, inStmt⟩ := List.mem_flatMap.mp isUse
  exact ⟨point.stmt, stmt_mem_of_mem_pointsFrom member,
    annotatedIn_of_mem_stmtUses inStmt⟩

/-- A variable that a body uses is among its annotated names. -/
theorem annotated_of_var
    {name : String}
    {type : TypeName}
    (isUse : .var name type ∈ method.uses symbols) :
    (name, type) ∈ method.body.flatMap Stmt.annotatedNames := by
  obtain ⟨stmt, member, isAnnotated⟩ := annotatedIn_of_mem_uses isUse
  exact List.mem_flatMap.mpr ⟨stmt, member, isAnnotated⟩

namespace AnnotatedThroughout

/--
Annotations that fit together throughout fit together where names are variables.
-/
theorem annotated
    (throughout : method.AnnotatedThroughout symbols) :
    method.Annotated symbols where
  oneType first isFirst second isSecond firstVariable secondVariable sameName
    notField := by
    cases first with
    | className name =>
        cases firstVariable
    | var name firstType =>
        cases second with
        | className other =>
            cases secondVariable
        | var other secondType =>
            have sameType : firstType = secondType :=
              throughout.oneType _ (annotated_of_var isFirst)
                _ (annotated_of_var isSecond) sameName notField
            have sameName : name = other := sameName
            rw [sameName, sameType]
  operators := throughout.operators
  assignments := throughout.assignments

/-- A class that is called is annotated, and not as a number or truth value. -/
theorem constantsApart
    (throughout : method.AnnotatedThroughout symbols) :
    method.ConstantsApart symbols := by
  intro name type isClass isVariable notField
  obtain ⟨stmt, member, annotated, isName, isTarget⟩ :=
    annotatedIn_of_mem_uses isClass
  have sameType : type = annotated :=
    throughout.oneType _ (annotated_of_var isVariable) _
      (List.mem_flatMap.mpr ⟨stmt, member, isName⟩) rfl notField
  have notPrimitive := throughout.targets stmt member _ isTarget
  simpa [Expr.isPrimitive, Expr.type, ← sameType] using notPrimitive

end AnnotatedThroughout

end MethodDef

/--
The optimizer preserves meaning. Where annotations fit together throughout, each
method of the optimized program is the method of the source with another body,
which has the same events with the same values and types and the same outcome,
in every environment and for all contents of the names.
-/
theorem optimizing_preserves_behaviour
    {symbols : Symbols}
    {program : Program}
    (annotated :
      ∀ source ∈ program.mainClass.methods, source.AnnotatedThroughout symbols) :
    List.Forall₂
      (fun source optimized =>
        optimized = { source with body := optimized.body } ∧
          ∀ (Event : Type) (environment : Environment Event)
            (constructed : TypeName → String → Code.ValueType) (store :
              Code.Store String),
            Scene.behaviour
              { environment with symbols, method := optimized, constructed } store =
              Scene.behaviour
                { environment with symbols, method := source, constructed } store)
      program.mainClass.methods (program.optimize symbols).mainClass.methods := by
  obtain ⟨change, isOptimized, optimizes⟩ :=
    Program.optimize_improves symbols program
  rw [isOptimized]
  simp only [Program.mapBodies, List.forall₂_map_right_iff, List.forall₂_same]
  intro source member
  refine ⟨trivial, fun Event environment constructed store => ?_⟩
  have throughout := annotated source member
  have optimized :
      Scene.Optimizes { environment with symbols, method := source, constructed }
        (change source) :=
    optimizes rfl throughout.constantsApart throughout.annotated
  exact optimized.behaviour store

/--
A method in which a constant overflows, a parameter and a truth value become
known, a field is written and read back, and the divisor turns out to be zero.
-/
private def overflowing : MethodDef where
  name := "overflow"
  returnType := .int
  params := [⟨"p", .int⟩]
  locals := [⟨"x", .int⟩, ⟨"b", .boolean⟩]
  body :=
    [.assign "x" .int
        (.binary .add (.literal (.int 2147483647)) (.literal (.int 1)) .int),
      .assign "p" .int (.literal (.int 3)),
      .assign "b" .boolean (.binary .less (.var "p" .int) (.var "x" .int) .boolean),
      .assign "f" .int (.var "x" .int),
      .evaluate
        (.call (.var "io" .imported) "print"
          [.var "x" .int, .var "f" .int, .var "b" .boolean] .imported),
      .assign "x" .int (.var "f" .int),
      .ret (some (.binary .div (.var "x" .int)
        (.binary .sub (.var "p" .int) (.literal (.int 3)) .int) .int))]

/-- A class with the method and a field. -/
private def overflowingProgram : Program where
  imports := ["io"]
  mainClass := { name := "A", fields := [⟨"f", .int⟩], methods := [overflowing] }

/--
The body after constants are propagated and folded; the division by zero stays.
-/
private def overflowed : List Stmt :=
  [.assign "x" .int (.literal (.int (-2147483648))),
    .assign "p" .int (.literal (.int 3)),
    .assign "b" .boolean (.literal (.bool false)),
    .assign "f" .int (.literal (.int (-2147483648))),
    .evaluate
      (.call (.var "io" .imported) "print"
        [.literal (.int (-2147483648)), .var "f" .int, .literal (.bool false)]
          .imported),
    .assign "x" .int (.var "f" .int),
    .ret (some (.binary .div (.var "x" .int) (.literal (.int 0)) .int))]

/-- The shorter body of the method behaves like its source. -/
theorem optimizing_preserves_overflowing :
    (overflowingProgram.optimize
      (.ofProgram overflowingProgram)).mainClass.methods =
        [{ overflowing with body := overflowed }] ∧
      ∀ (Event : Type) (environment : Environment Event)
        (constructed : TypeName → String → Code.ValueType) (store :
          Code.Store String),
        Scene.behaviour
            { environment with
              symbols := .ofProgram overflowingProgram
              method := { overflowing with body := overflowed }
              constructed } store =
          Scene.behaviour
            { environment with
              symbols := .ofProgram overflowingProgram
              method := overflowing
              constructed } store := by
  have isOptimized :
      (overflowingProgram.optimize
        (.ofProgram overflowingProgram)).mainClass.methods =
        [{ overflowing with body := overflowed }] := by
    rfl
  refine ⟨isOptimized, fun Event environment constructed store => ?_⟩
  have preserved :=
    @optimizing_preserves_behaviour (.ofProgram overflowingProgram)
      overflowingProgram (by decide +kernel)
  rw [isOptimized] at preserved
  exact (List.forall₂_cons.mp preserved).1.2 Event environment constructed store

end MiniJava
