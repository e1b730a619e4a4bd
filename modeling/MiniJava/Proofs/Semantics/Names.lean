import MiniJava.Proofs.Semantics.Declared

namespace MiniJava

/-!
# What names are used for

A name in a body is a variable, with the type it is annotated with, or a class
on which a static method is called. Which of them it is depends on the names
that are declared before it.
-/

/-- A use of a name. -/
inductive Use where
  | var (name : String) (type : TypeName)
  | className (name : String)
  deriving DecidableEq

/-- The name that is used. -/
def Use.name : Use → String
  | .var name _ => name
  | .className name => name

/-- Whether the name is used as a variable. -/
def Use.isVariable : Use → Bool
  | .var _ _ => true
  | .className _ => false

/-- Whether the class or the method of the given name declares a name. -/
def Symbols.declares (symbols : Symbols) (method name : String) : Bool :=
  symbols.isLocal method name || symbols.isParam method name ||
    (symbols.field? name).isSome

namespace Expr

mutual

/-- The names that occur in an expression, whatever they are used for. -/
def names : Expr → List String
  | .literal _ => []
  | .var name _ => [name]
  | .receiver _ => []
  | .binary _ left right _ => left.names ++ right.names
  | .call target _ arguments _ => target.names ++ namesOfAll arguments
  | .newObject _ _ => []
  | .newArray size _ => size.names
  | .element array index _ => array.names ++ index.names
  | .length array _ => array.names

/-- The names that occur in expressions. -/
def namesOfAll : List Expr → List String
  | [] => []
  | first :: rest => first.names ++ namesOfAll rest

end

theorem mem_namesOfAll
    {exprs : List Expr}
    {name : String} :
    name ∈ namesOfAll exprs ↔ ∃ expr ∈ exprs, name ∈ expr.names := by
  induction exprs with
  | nil =>
      simp [namesOfAll]
  | cons first rest inductionHypothesis =>
      simp [namesOfAll, inductionHypothesis]

variable {target : Expr} {method : String} {arguments : List Expr} {type : TypeName}

/-- What a call is made on is named in the call. -/
theorem names_target_subset :
    target.names ⊆ (call target method arguments type).names := by
  rw [names]
  exact List.subset_append_left _ _

/-- The name that a call is made on is a name of the call. -/
theorem mem_names_of_target
    {name : String}
    {annotated : TypeName}
    (isTarget : target = .var name annotated) :
    name ∈ (call target method arguments type).names := by
  subst isTarget
  exact names_target_subset List.mem_cons_self

/-- An argument is named in the call. -/
theorem names_argument_subset
    {argument : Expr}
    (member : argument ∈ arguments) :
    argument.names ⊆ (call target method arguments type).names := by
  rw [names]
  exact fun name isName =>
    List.mem_append_right _ (mem_namesOfAll.mpr ⟨argument, member, isName⟩)

end Expr

/-- The names that occur in a statement. -/
def Stmt.names : Stmt → List String
  | .assign name _ source => name :: source.names
  | .evaluate expr => expr.names
  | .ret none => []
  | .ret (some expr) => expr.names

namespace MethodDef

/-- The names that occur in the body. -/
def names (method : MethodDef) : List String :=
  method.body.flatMap Stmt.names

theorem stmt_names_subset
    {method : MethodDef}
    {stmt : Stmt}
    (member : stmt ∈ method.body) :
    stmt.names ⊆ method.names :=
  fun _ isName => List.mem_flatMap.mpr ⟨stmt, member, isName⟩

variable (symbols : Symbols) (method : MethodDef)

mutual

/-- The uses of names in an expression where the given names are declared. -/
def exprUses (declared : List String) : Expr → List Use
  | .literal _ => []
  | .var name type => [.var name type]
  | .receiver _ => []
  | .binary _ left right _ =>
      exprUses declared left ++
        exprUses (method.afterExpr symbols declared left) right
  | .call target name arguments _ =>
      (match method.callKind symbols declared target name, target with
        | .static, .var className _ => [.className className]
        | _, _ => exprUses declared target) ++
        exprsUses (method.afterTarget symbols declared target name) arguments
  | .newObject _ _ => []
  | .newArray size _ => exprUses declared size
  | .element array index _ =>
      exprUses declared array ++
        exprUses (method.afterExpr symbols declared array) index
  | .length array _ => exprUses declared array

/-- The uses of names in expressions, from left to right. -/
def exprsUses (declared : List String) : List Expr → List Use
  | [] => []
  | first :: rest =>
      exprUses declared first ++
        exprsUses (method.afterExpr symbols declared first) rest

end

/-- The uses of names in a statement where the given names are declared. -/
def stmtUses (declared : List String) : Stmt → List Use
  | .assign name type source =>
      .var name type :: method.exprUses symbols declared source
  | .evaluate expr => method.exprUses symbols declared expr
  | .ret none => []
  | .ret (some expr) => method.exprUses symbols declared expr

/-- The uses of names in a statement of a body. -/
def pointUses (point : Point) : List Use :=
  method.stmtUses symbols point.declared point.stmt

/-- The uses of names in the body. -/
def uses : List Use :=
  (method.points symbols).flatMap (method.pointUses symbols)

/--
Every name of the body with the form of a temporary is declared for the method.
-/
def TemporariesDeclared : Prop :=
  ∀ name ∈ method.names,
    Code.isTemporaryName name = true → symbols.declares method.name name = true

instance : Decidable (method.TemporariesDeclared symbols) :=
  inferInstanceAs (Decidable (∀ name ∈ method.names, _))

/--
The names of a body keep apart from new temporaries, and variables from classes.
-/
structure NamesApart : Prop where
  /-- A name with the form of a temporary is declared. -/
  declared : method.TemporariesDeclared symbols
  /-- No name is both a variable and a class that a static call names. -/
  separate :
    ∀ first ∈ method.uses symbols, ∀ second ∈ method.uses symbols,
      first.name = second.name → first.isVariable = second.isVariable

instance : Decidable (method.NamesApart symbols) :=
  decidable_of_iff
    (method.TemporariesDeclared symbols ∧
      ∀ first ∈ method.uses symbols, ∀ second ∈ method.uses symbols,
        first.name = second.name → first.isVariable = second.isVariable)
    ⟨fun both => ⟨both.1, both.2⟩, fun apart => ⟨apart.declared, apart.separate⟩⟩

variable {symbols method} {declared : List String}

theorem pointUses_subset
    {point : Point}
    (member : point ∈ method.points symbols) :
    method.pointUses symbols point ⊆ method.uses symbols :=
  fun _ isUse => List.mem_flatMap.mpr ⟨point, member, isUse⟩

section

variable {called : String} {type : TypeName} {arguments : List Expr}

/-- A static call uses the name of its class. -/
theorem exprUses_call_of_static
    {name : String}
    {annotated : TypeName}
    (static :
      method.callKind symbols declared (.var name annotated) called = .static) :
    method.exprUses symbols declared
      (.call (.var name annotated) called arguments type) =
      .className name :: method.exprsUses symbols declared arguments := by
  simp only [exprUses, static, afterTarget_of_static static]
  rfl

/-- Any other call uses what its target uses. -/
theorem exprUses_call_of_not_static
    {target : Expr}
    (notStatic : method.callKind symbols declared target called ≠ .static) :
    method.exprUses symbols declared (.call target called arguments type) =
      method.exprUses symbols declared target ++
        method.exprsUses symbols (method.afterExpr symbols declared target)
          arguments := by
  rw [exprUses, afterTarget_of_not_static notStatic]
  intro _ _ isStatic
  exact absurd isStatic notStatic

end

/-- What each expression satisfies for its uses, expressions in a row satisfy. -/
theorem forall_mem_exprsUses
    {property : Use → Prop}
    {exprs : List Expr}
    (each :
      ∀ expr ∈ exprs, ∀ declared, ∀ use ∈ method.exprUses symbols declared expr,
        property use) :
    ∀ use ∈ method.exprsUses symbols declared exprs, property use := by
  induction exprs generalizing declared with
  | nil =>
      simp [exprsUses]
  | cons first rest inductionHypothesis =>
      rw [exprsUses, List.forall_mem_append]
      exact ⟨each first List.mem_cons_self declared,
        inductionHypothesis fun expr member =>
          each expr (List.mem_cons_of_mem _ member)⟩

/-- What is used in an expression is named in it. -/
theorem name_mem_names_of_mem_exprUses
    (expr : Expr) :
    ∀ use ∈ method.exprUses symbols declared expr, use.name ∈ expr.names := by
  induction expr generalizing declared with
  | var name type =>
      simp [exprUses, Expr.names, Use.name]
  | binary operator left right type leftHypothesis rightHypothesis =>
      rw [exprUses, Expr.names, List.forall_mem_append]
      exact ⟨fun use isUse => List.mem_append_left _ (leftHypothesis use isUse),
        fun use isUse => List.mem_append_right _ (rightHypothesis use isUse)⟩
  | call target name arguments type targetHypothesis argumentsHypothesis =>
      have ofArguments (declared : List String) :
          ∀ use ∈ method.exprsUses symbols declared arguments,
            use.name ∈ (Expr.call target name arguments type).names :=
        forall_mem_exprsUses fun argument member _ use isUse =>
          Expr.names_argument_subset member
            (argumentsHypothesis argument member use isUse)
      by_cases static : method.callKind symbols declared target name = .static
      · obtain ⟨className, annotated, rfl⟩ := Symbols.target_of_static static
        rw [exprUses_call_of_static static, List.forall_mem_cons]
        exact ⟨Expr.names_target_subset List.mem_cons_self, ofArguments _⟩
      · rw [exprUses_call_of_not_static static, List.forall_mem_append]
        exact ⟨fun use isUse =>
          Expr.names_target_subset (targetHypothesis use isUse), ofArguments _⟩
  | newArray size type sizeHypothesis =>
      rw [exprUses, Expr.names]
      exact sizeHypothesis
  | element array index type arrayHypothesis indexHypothesis =>
      rw [exprUses, Expr.names, List.forall_mem_append]
      exact ⟨fun use isUse => List.mem_append_left _ (arrayHypothesis use isUse),
        fun use isUse => List.mem_append_right _ (indexHypothesis use isUse)⟩
  | length array type arrayHypothesis =>
      rw [exprUses, Expr.names]
      exact arrayHypothesis
  | _ =>
      simp [exprUses]

/-- What is used in a statement is named in it. -/
theorem name_mem_names_of_mem_stmtUses
    {stmt : Stmt}
    {use : Use}
    (isUse : use ∈ method.stmtUses symbols declared stmt) :
    use.name ∈ stmt.names := by
  cases stmt with
  | assign name type source =>
      rcases List.mem_cons.mp isUse with rfl | isUse
      · exact List.mem_cons_self
      · exact List.mem_cons_of_mem
          _ (name_mem_names_of_mem_exprUses source use isUse)
  | evaluate expr =>
      exact name_mem_names_of_mem_exprUses expr use isUse
  | ret result =>
      cases result with
      | none =>
          cases isUse
      | some expr =>
          exact name_mem_names_of_mem_exprUses expr use isUse

/-- A statement with the names before it is a statement of the body. -/
theorem stmt_mem_of_mem_pointsFrom
    {stmts : List Stmt}
    {point : Point}
    (member : point ∈ method.pointsFrom symbols declared stmts) :
    point.stmt ∈ stmts := by
  induction stmts generalizing declared with
  | nil =>
      cases member
  | cons first rest inductionHypothesis =>
      rcases List.mem_cons.mp member with rfl | member
      · exact List.mem_cons_self
      · exact List.mem_cons_of_mem _ (inductionHypothesis member)

/-- A statement of the body stands at one of its points. -/
theorem exists_mem_pointsFrom
    {stmts : List Stmt}
    {stmt : Stmt}
    (member : stmt ∈ stmts) :
    ∃ before, ⟨before, stmt⟩ ∈ method.pointsFrom symbols declared stmts := by
  induction stmts generalizing declared with
  | nil =>
      cases member
  | cons first rest inductionHypothesis =>
      rcases List.mem_cons.mp member with rfl | member
      · exact ⟨declared, List.mem_cons_self⟩
      · obtain ⟨before, isPoint⟩ := inductionHypothesis member
        exact ⟨before, List.mem_cons_of_mem _ isPoint⟩

/-- What is used in the body is named in it. -/
theorem name_mem_names
    {use : Use}
    (isUse : use ∈ method.uses symbols) :
    use.name ∈ method.names := by
  obtain ⟨point, member, isUse⟩ := List.mem_flatMap.mp isUse
  exact stmt_names_subset (stmt_mem_of_mem_pointsFrom member)
    (name_mem_names_of_mem_stmtUses isUse)

/-- The name that a call of the body is made on is named in the body. -/
theorem target_name_mem_names
    {name called : String}
    {annotated type : TypeName}
    {arguments : List Expr}
    (inside :
      method.exprUses symbols declared
        (.call (.var name annotated) called arguments type) ⊆ method.uses symbols) :
    name ∈ method.names := by
  by_cases static : method.callKind symbols declared (.var name annotated)
    called = .static
  · rw [exprUses_call_of_static static, List.cons_subset] at inside
    exact name_mem_names inside.1
  · rw [exprUses_call_of_not_static static, exprUses, List.append_subset,
      List.cons_subset] at inside
    exact name_mem_names inside.1.1

section

/-- A name is declared or is used as a variable. -/
def DeclaredOrUsed
    (declared : List String)
    (uses : List Use)
    (name : String) : Prop :=
  name ∈ declared ∨ ∃ type, Use.var name type ∈ uses

namespace DeclaredOrUsed

variable {later : List String} {uses laterUses : List Use} {name : String}

/--
What one part declares may be used in it and stays declared for the part after it.
-/
theorem trans
    (declares : ∀ name ∈ later, DeclaredOrUsed declared uses name)
    (laterDeclares : DeclaredOrUsed later laterUses name) :
    DeclaredOrUsed declared (uses ++ laterUses) name := by
  rcases laterDeclares with isDeclared | ⟨type, isUse⟩
  · rcases declares name isDeclared with isDeclared | ⟨type, isUse⟩
    · exact .inl isDeclared
    · exact .inr ⟨type, List.mem_append_left _ isUse⟩
  · exact .inr ⟨type, List.mem_append_right _ isUse⟩

end DeclaredOrUsed

/-- Expressions in a row declare names that they use. -/
theorem declaredOrUsed_of_mem_afterExprs
    {exprs : List Expr}
    (each :
      ∀ expr ∈ exprs, ∀ declared, ∀ name ∈ method.afterExpr symbols declared expr,
        DeclaredOrUsed declared (method.exprUses symbols declared expr) name) :
    ∀ name ∈ method.afterExprs symbols declared exprs,
      DeclaredOrUsed declared (method.exprsUses symbols declared exprs) name := by
  induction exprs generalizing declared with
  | nil =>
      exact fun name isDeclared => .inl isDeclared
  | cons first rest inductionHypothesis =>
      intro name isDeclared
      rw [afterExprs] at isDeclared
      rw [exprsUses]
      exact .trans (each first List.mem_cons_self declared)
        (inductionHypothesis
          (fun expr member => each expr (List.mem_cons_of_mem _ member))
          name isDeclared)

/-- An expression declares names that it uses. -/
theorem declaredOrUsed_of_mem_afterExpr
    (expr : Expr) :
    ∀ name ∈ method.afterExpr symbols declared expr,
      DeclaredOrUsed declared (method.exprUses symbols declared expr) name := by
  induction expr generalizing declared with
  | var own type =>
      intro name isDeclared
      rw [afterExpr] at isDeclared
      split at isDeclared
      · rcases List.mem_insert_iff.mp isDeclared with rfl | isDeclared
        · exact .inr ⟨type, by simp [exprUses]⟩
        · exact .inl isDeclared
      · exact .inl isDeclared
  | binary operator left right type leftHypothesis rightHypothesis =>
      intro name isDeclared
      rw [afterExpr] at isDeclared
      rw [exprUses]
      exact .trans leftHypothesis (rightHypothesis name isDeclared)
  | call target called arguments type targetHypothesis argumentsHypothesis =>
      have ofArguments {declared : List String} :=
        @declaredOrUsed_of_mem_afterExprs symbols method declared arguments
          fun argument member _ => argumentsHypothesis argument member
      intro name isDeclared
      rw [afterExpr] at isDeclared
      split at isDeclared
      case isTrue static =>
        obtain ⟨className, annotated, rfl⟩ := Symbols.target_of_static static
        rw [exprUses_call_of_static static]
        exact (ofArguments name isDeclared).imp id
          fun used => used.imp fun _ => List.mem_cons_of_mem _
      case isFalse notStatic =>
        rw [exprUses_call_of_not_static notStatic]
        exact .trans targetHypothesis (ofArguments name isDeclared)
  | newArray size type sizeHypothesis =>
      rw [afterExpr, exprUses]
      exact sizeHypothesis
  | element array index type arrayHypothesis indexHypothesis =>
      intro name isDeclared
      rw [afterExpr] at isDeclared
      rw [exprUses]
      exact .trans arrayHypothesis (indexHypothesis name isDeclared)
  | length array type arrayHypothesis =>
      rw [afterExpr, exprUses]
      exact arrayHypothesis
  | _ =>
      rw [afterExpr]
      exact fun name isDeclared => .inl isDeclared

/-- A statement declares names that it uses. -/
theorem declaredOrUsed_of_mem_afterStmt
    {stmt : Stmt}
    {name : String}
    (isDeclared : name ∈ method.afterStmt symbols declared stmt) :
    DeclaredOrUsed declared (method.stmtUses symbols declared stmt) name := by
  cases stmt with
  | assign own type source =>
      have ofSource (isDeclared : name ∈ method.afterExpr symbols declared source) :
          DeclaredOrUsed declared
            (method.stmtUses symbols declared (.assign own type source)) name :=
        (declaredOrUsed_of_mem_afterExpr source name isDeclared).imp id
          fun used => used.imp fun _ => List.mem_cons_of_mem _
      rw [afterStmt] at isDeclared
      split at isDeclared
      · exact ofSource isDeclared
      · rcases List.mem_insert_iff.mp isDeclared with rfl | isDeclared
        · exact .inr ⟨type, List.mem_cons_self⟩
        · exact ofSource isDeclared
  | evaluate expr =>
      exact declaredOrUsed_of_mem_afterExpr expr name isDeclared
  | ret result =>
      cases result with
      | none =>
          exact .inl isDeclared
      | some expr =>
          exact declaredOrUsed_of_mem_afterExpr expr name isDeclared

end

end MethodDef

end MiniJava
