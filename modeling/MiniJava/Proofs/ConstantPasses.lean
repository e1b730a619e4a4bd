import MiniJava.Constant.Rounds
import MiniJava.Proofs.Simplification
import MiniJava.Proofs.Steps

namespace MiniJava

/-!
# Constant passes keep the behaviour

Propagation walks over a body with the literals that names are known to hold,
and the store of every run holds them. Folding needs no such knowledge. Both
leave a body whose names and annotations are as good as before, so the passes
can be repeated.
-/

open Code (Store ValueType)

namespace Known.Holds

variable {known : Known} {store : Store String}

/-- After a literal is assigned, the store holds it. -/
theorem insert
    (holds : known.Holds store)
    (name : String)
    (literal : Literal) :
    Known.Holds (Std.ExtTreeMap.insert known name literal)
      (Function.update store name (some literal.value)) := by
  intro other found isFound
  rw [Std.ExtTreeMap.getElem?_insert] at isFound
  by_cases same : name = other
  · subst same
    rw [if_pos Std.ReflCmp.compare_self] at isFound
    rw [Function.update_self, Option.some.inj isFound]
  · rw [if_neg (by simpa using same)] at isFound
    rw [Function.update_of_ne (Ne.symm same)]
    exact holds other found isFound

/-- After any assignment, the store holds what is known of other names. -/
theorem erase
    (holds : known.Holds store)
    (name : String)
    {after : Store String}
    (unchanged : ∀ other, other ≠ name → after other = store other) :
    Known.Holds (Std.ExtTreeMap.erase known name) after := by
  intro other found isFound
  rw [Std.ExtTreeMap.getElem?_erase] at isFound
  by_cases same : name = other
  · subst same
    rw [if_pos Std.ReflCmp.compare_self] at isFound
    cases isFound
  · rw [if_neg (by simpa using same)] at isFound
    rw [unchanged other (Ne.symm same)]
    exact holds other found isFound

end Known.Holds

/--
A name is known after an assignment of a literal of its type, or was known before.
-/
theorem Stmt.known_of_knownAfter
    {symbols : Symbols}
    {method name other : String}
    {type : TypeName}
    {value : Expr}
    {known : Known}
    {literal : Literal}
    (assigns : (Stmt.assign name type value).assignsPrimitive = true)
    (isKnown :
      ((Stmt.assign name type value).knownAfter symbols method known)[other]? =
        some literal) :
    (name = other ∧ symbols.isField method name = false ∧
      (Expr.literal literal).type = type) ∨
      known[other]? = some literal := by
  simp only [Stmt.knownAfter] at isKnown
  split at isKnown
  case h_1 learnedName found isLearned =>
    simp only [Stmt.learned?, Option.ite_none_left_eq_some, Option.map_eq_some_iff]
      at isLearned
    rcases isLearned with ⟨notField, found, isLiteral, isPair⟩
    cases isPair
    rw [Std.ExtTreeMap.getElem?_insert] at isKnown
    by_cases same : name = other
    · rw [if_pos (by simpa using same)] at isKnown
      cases isKnown
      cases value with
      | literal value =>
          cases isLiteral
          refine .inl ⟨same, by simpa using notField, ?_⟩
          have primitive : (Expr.literal literal).isPrimitive = true := by
            cases literal <;> rfl
          rw [Stmt.assignsPrimitive, primitive, Bool.not_true, Bool.false_or]
            at assigns
          exact (of_decide_eq_true assigns).symm
      | _ => cases isLiteral
    · rw [if_neg (by simpa using same)] at isKnown
      exact .inr isKnown
  case h_2 =>
    rw [Std.ExtTreeMap.getElem?_erase] at isKnown
    exact .inr (Option.ite_none_left_eq_some.mp isKnown).2

/--
No variable that holds a number or truth value has the name of a
class in a static call.
-/
def MethodDef.ConstantsApart (symbols : Symbols) (method : MethodDef) : Prop :=
  ∀ {name type},
    Use.className name ∈ method.uses symbols →
    Use.var name type ∈ method.uses symbols →
    symbols.isField method.name name = false →
    type ≠ .int ∧ type ≠ .boolean

/--
Where no name is both a variable and a class, no constant has the name of a class.
-/
theorem MethodDef.NamesApart.constantsApart
    {symbols : Symbols}
    {method : MethodDef}
    (apart : method.NamesApart symbols) :
    method.ConstantsApart symbols := by
  intro name type isClass isVariable _
  have clash := apart.separate _ isClass _ isVariable rfl
  cases clash

/-- Constants stay apart from classes in a narrower body. -/
theorem MethodDef.NarrowsOwn.constantsApart
    {symbols : Symbols}
    {method : MethodDef}
    {body : List Stmt}
    (narrows : method.NarrowsOwn symbols body)
    (apart : method.ConstantsApart symbols) :
    ({ method with body } : MethodDef).ConstantsApart symbols :=
  fun isClass isVariable notField =>
    apart (narrows.uses_subset isClass) (narrows.uses_subset isVariable) notField

namespace Scene

variable {Event : Type} {scene : Scene Event} {known : Known} {store : Store String}
  {declared : List String}

/--
A statement may take the place of another where the store holds what is known.
-/
structure SimplifiesStmt
    (scene : Scene Event)
    (known : Known)
    (declared : List String)
    (source simplified : Stmt) : Prop
    extends scene.method.Narrows scene.symbols declared source simplified where
  exec :
    ∀ {store}, known.Holds store →
      scene.exec store declared simplified = scene.exec store declared source

namespace SimplifiesStmt

/-- What is assigned may be simplified. -/
theorem assign
    {name : String}
    {type : TypeName}
    {source simplified : Expr}
    (onSource : scene.Simplifies known declared source simplified) :
    scene.SimplifiesStmt known declared (.assign name type source)
      (.assign name type simplified) where
  toNarrows := .assign onSource.toNarrowsExpr
  exec holds := by
    simp only [Scene.exec, onSource.operand holds, onSource.assigned holds,
      scene.constructAssigned_congr onSource.created]

theorem evaluate
    {source simplified : Expr}
    (onSource : scene.Simplifies known declared source simplified) :
    scene.SimplifiesStmt known declared (.evaluate source)
      (.evaluate simplified) where
  toNarrows := .evaluate onSource.toNarrowsExpr
  exec holds := onSource.evaluated holds

theorem ret
    {source simplified : Expr}
    (onSource : scene.Simplifies known declared source simplified) :
    scene.SimplifiesStmt known declared (.ret (some source))
      (.ret (some simplified)) where
  toNarrows := .ret onSource.toNarrowsExpr
  exec holds := by simp only [Scene.exec, onSource.operand holds]

theorem retNone :
    scene.SimplifiesStmt known declared (.ret none) (.ret none) where
  toNarrows := .refl _
  exec _ := rfl

end SimplifiesStmt

/-- Known names may be replaced in a statement. -/
theorem substitute_simplifiesStmt
    {stmt : Stmt}
    (areDeclared : KnownDeclared known declared)
    (fits : scene.Fits known (scene.method.stmtUses scene.symbols declared stmt)) :
    scene.SimplifiesStmt known declared stmt (stmt.substitute known) := by
  cases stmt with
  | assign name type source =>
      exact .assign
        (substitute_simplifies areDeclared (fits.mono (List.subset_cons_self _ _)))
  | evaluate expr =>
      exact .evaluate (substitute_simplifies areDeclared fits)
  | ret result =>
      cases result with
      | none =>
          exact .retNone
      | some expr =>
          exact .ret (substitute_simplifies areDeclared fits)

/-- Operators on literals may be replaced in a statement. -/
theorem fold_simplifiesStmt
    {stmt : Stmt}
    (typed : ∀ annotated ∈ stmt.operators, annotated.2 = annotated.1.resultType) :
    scene.SimplifiesStmt known declared stmt stmt.fold := by
  cases stmt with
  | assign name type source =>
      exact .assign (fold_simplifies typed)
  | evaluate expr =>
      exact .evaluate (fold_simplifies typed)
  | ret result =>
      cases result with
      | none =>
          exact .retNone
      | some expr =>
          exact .ret (fold_simplifies typed)

/-- Statements that are not assignments leave the store. -/
theorem exec_unchanged
    {stmt : Stmt}
    {after : Store String}
    {events later : List Event}
    (notAssigned : ∀ name type source, stmt ≠ .assign name type source)
    (ran : scene.exec store declared stmt events = .ok after later) :
    after = store := by
  cases stmt with
  | assign name type source =>
      exact absurd rfl (notAssigned name type source)
  | evaluate expr =>
      cases expr with
      | call target method arguments type =>
          obtain ⟨_, _, _, ran⟩ := bind_ok_iff.mp ran
          obtain ⟨_, _, _, ran⟩ := bind_ok_iff.mp ran
          obtain ⟨_, _, _, ran⟩ := bind_ok_iff.mp ran
          exact (pure_ok_iff.mp ran).1.symm
      | _ =>
          obtain ⟨_, _, _, ran⟩ := bind_ok_iff.mp ran
          exact (pure_ok_iff.mp ran).1.symm
  | ret result =>
      obtain ⟨outcome, _, ended⟩ := scene.exec_ret store declared result events
      rw [ended] at ran
      cases ran

/--
An assignment to a variable changes only the variable, to the value
that is assigned.
-/
theorem exec_assign
    {name : String}
    {type : TypeName}
    {source : Expr}
    {after : Store String}
    {events later : List Event}
    (notField : scene.isField name = false)
    (ran :
      scene.exec store declared (.assign name type source) events =
        .ok after later) :
    ∃ value between,
      scene.assigned store declared type source events = .ok value between ∧
        after = Function.update store name (some value) := by
  simp only [exec, notField, Bool.false_eq_true, if_false] at ran
  obtain ⟨value, between, assignedRan, ran⟩ := bind_ok_iff.mp ran
  obtain ⟨_, _, written, ran⟩ := bind_ok_iff.mp ran
  obtain ⟨_, _, _, ran⟩ := bind_ok_iff.mp ran
  obtain ⟨rfl, _⟩ := pure_ok_iff.mp ran
  unfold write at written
  split at written
  · exact ⟨value, between, assignedRan, (pure_ok_iff.mp written).1.symm⟩
  · cases written

/-- An assignment to a field leaves all variables as they are. -/
theorem exec_assignField
    {name : String}
    {type : TypeName}
    {source : Expr}
    {after : Store String}
    {events later : List Event}
    (isField : scene.isField name = true)
    (ran :
      scene.exec store declared (.assign name type source) events =
        .ok after later) :
    after = store := by
  simp only [exec, isField, if_true] at ran
  obtain ⟨_, _, _, ran⟩ := bind_ok_iff.mp ran
  obtain ⟨_, _, _, ran⟩ := bind_ok_iff.mp ran
  exact (pure_ok_iff.mp ran).1.symm

/-- After a statement the store holds what is known then. -/
theorem exec_holds
    {stmt : Stmt}
    {after : Store String}
    {events later : List Event}
    (holds : known.Holds store)
    (ran : scene.exec store declared stmt events = .ok after later) :
    (stmt.knownAfter scene.symbols scene.method.name known).Holds after := by
  cases stmt with
  | assign name type source =>
      cases field : scene.isField name with
      | true =>
          have notLearned :
              (Stmt.assign name type source).learned? scene.symbols
                scene.method.name = none :=
            if_pos field
          obtain rfl := exec_assignField field ran
          simp only [Stmt.knownAfter, notLearned]
          exact holds.erase name fun _ _ => rfl
      | false =>
          have notField : scene.symbols.isField scene.method.name name = false :=
            field
          have learned :
              (Stmt.assign name type source).learned? scene.symbols
                scene.method.name =
                source.literal?.map (name, ·) := by
            simp [Stmt.learned?, notField]
          obtain ⟨value, between, assignedRan, rfl⟩ := exec_assign field ran
          simp only [Stmt.knownAfter, learned]
          cases source with
          | literal literal =>
              have isValue : value = literal.value := by
                rw [assigned_literal] at assignedRan
                exact (pure_ok_iff.mp assignedRan).1.symm
              rw [isValue]
              exact holds.insert name literal
          | _ =>
              exact holds.erase name fun _ different =>
                Function.update_of_ne different _ _
  | evaluate expr =>
      obtain rfl := exec_unchanged (by simp) ran
      exact holds
  | ret result =>
      obtain rfl := exec_unchanged (by simp) ran
      exact holds

/--
Every name that is known is a declared variable that the method uses
with the type of its literal.
-/
structure Justified
    (scene : Scene Event)
    (known : Known)
    (declared : List String) : Prop where
  areDeclared : KnownDeclared known declared
  areUsed :
    ∀ name literal, known[name]? = some literal →
      scene.isField name = false ∧
        Use.var name (Expr.literal literal).type ∈ scene.method.uses scene.symbols

namespace Justified

/-- Nothing that is known needs a reason. -/
theorem empty :
    scene.Justified ∅ declared where
  areDeclared name literal isKnown := by
    simp at isKnown
  areUsed name literal isKnown := by
    simp at isKnown

/-- Where names and annotations are in order, what is known fits all uses. -/
theorem fits
    (apart : scene.method.ConstantsApart scene.symbols)
    (annotated : scene.method.Annotated scene.symbols)
    (justified : scene.Justified known declared) :
    scene.Fits known (scene.method.uses scene.symbols) where
  types isUse isKnown := by
    obtain ⟨notField, isVariable⟩ := justified.areUsed _ _ isKnown
    refine ⟨notField, ?_⟩
    have same := annotated.oneType _ isUse _ isVariable rfl rfl rfl notField
    exact (Use.var.inj same).2
  classes {name} isUse := by
    cases isKnown : known[name]? with
    | none =>
        rfl
    | some literal =>
        obtain ⟨notField, isVariable⟩ := justified.areUsed name literal isKnown
        obtain ⟨notInt, notBoolean⟩ := apart isUse isVariable notField
        cases literal with
        | int value => exact absurd rfl notInt
        | bool value => exact absurd rfl notBoolean

/-- What is known after a statement is justified again. -/
theorem after
    {stmt : Stmt}
    (justified : scene.Justified known declared)
    (inside :
      scene.method.stmtUses scene.symbols declared stmt ⊆
        scene.method.uses scene.symbols)
    (assigns : stmt.assignsPrimitive = true) :
    scene.Justified (stmt.knownAfter scene.symbols scene.method.name known)
      (scene.afterStmt declared stmt) := by
  have staysDeclared : KnownDeclared known (scene.afterStmt declared stmt) :=
    justified.areDeclared.mono (MethodDef.subset_afterStmt stmt)
  cases stmt with
  | assign name type source =>
      constructor
      · intro other literal isKnown
        rcases Stmt.known_of_knownAfter assigns isKnown with
          ⟨rfl, notField, rfl⟩ | before
        · rw [Scene.afterStmt, MethodDef.afterStmt, if_neg (by simp [notField])]
          exact List.mem_insert_self
        · exact staysDeclared other literal before
      · intro other literal isKnown
        rcases Stmt.known_of_knownAfter assigns isKnown with
          ⟨rfl, notField, rfl⟩ | before
        · exact ⟨notField, inside List.mem_cons_self⟩
        · exact justified.areUsed other literal before
  | evaluate expr =>
      exact ⟨staysDeclared, justified.areUsed⟩
  | ret result =>
      exact ⟨staysDeclared, justified.areUsed⟩

end Justified

/-- Propagation gives a body that may take the place of the other. -/
theorem propagateBody_simplifies
    (apart : scene.method.ConstantsApart scene.symbols)
    (annotated : scene.method.Annotated scene.symbols)
    {body : List Stmt}
    (inside :
      scene.method.pointsFrom scene.symbols declared body ⊆
        scene.method.points scene.symbols)
    (justified : scene.Justified known declared) :
    scene.method.NarrowsBody scene.symbols declared body
        (propagateBody scene.symbols scene.method.name known body) ∧
      ∀ store, known.Holds store →
        scene.execAll store declared
            (propagateBody scene.symbols scene.method.name known body) =
          scene.execAll store declared body := by
  induction body generalizing known declared with
  | nil =>
      exact ⟨.nil, fun _ _ => rfl⟩
  | cons first rest inductionHypothesis =>
      rw [MethodDef.pointsFrom, List.cons_subset] at inside
      have usesInside :
          scene.method.stmtUses scene.symbols declared first ⊆
            scene.method.uses scene.symbols :=
        MethodDef.pointUses_subset inside.1
      have isStmt : first ∈ scene.method.body :=
        MethodDef.stmt_mem_of_mem_pointsFrom inside.1
      have simplifies :=
        substitute_simplifiesStmt justified.areDeclared
          ((justified.fits apart annotated).mono usesInside)
      have sameAfter :
          scene.afterStmt declared (first.substitute known) =
            scene.afterStmt declared first :=
        simplifies.after
      -- The walk learns from the statement as it is after the replacement.
      have justifiedAfter :=
        justified.after (List.Subset.trans simplifies.uses usesInside)
          (simplifies.assigns.trans (annotated.assignments first isStmt))
      rw [sameAfter] at justifiedAfter
      obtain ⟨restNarrows, restRuns⟩ := inductionHypothesis inside.2 justifiedAfter
      rw [propagateBody]
      refine ⟨.cons simplifies.toNarrows restNarrows, fun store holds => ?_⟩
      rw [execAll, execAll, ← simplifies.exec holds, sameAfter]
      exact bind_congr_of_ok fun ran => restRuns _ (exec_holds holds ran)

/-- Folding gives a body that may take the place of the other. -/
theorem foldBody_simplifies
    {body : List Stmt}
    (typed :
      ∀ stmt ∈ body, ∀ annotated ∈ stmt.operators,
        annotated.2 = annotated.1.resultType) :
    scene.method.NarrowsBody scene.symbols declared body (body.map Stmt.fold) ∧
      ∀ store,
        scene.execAll store declared (body.map Stmt.fold) =
          scene.execAll store declared body := by
  have nothingKnown (store : Store String) : Known.Holds ∅ store := by
    intro name literal isKnown
    simp at isKnown
  induction body generalizing declared with
  | nil =>
      exact ⟨.nil, fun _ => rfl⟩
  | cons first rest inductionHypothesis =>
      rw [List.forall_mem_cons] at typed
      have simplifies : scene.SimplifiesStmt ∅ declared first first.fold :=
        fold_simplifiesStmt typed.1
      have sameAfter :
          scene.afterStmt declared first.fold = scene.afterStmt declared first :=
        simplifies.after
      obtain ⟨restNarrows, restRuns⟩ :=
        @inductionHypothesis (scene.afterStmt declared first) typed.2
      rw [List.map_cons]
      refine ⟨.cons simplifies.toNarrows restNarrows, fun store => ?_⟩
      rw [execAll, execAll, simplifies.exec (nothingKnown store), sameAfter]
      exact bind_congr_of_ok fun _ => restRuns _

end Scene

namespace Scene

variable {Event : Type}

/-- The scene of a method with another body. -/
def withBody (scene : Scene Event) (body : List Stmt) : Scene Event :=
  { scene with method := { scene.method with body } }

section

variable (scene : Scene Event) (body : List Stmt)

theorem after_withBody :
    (scene.withBody body).after = scene.after :=
  MethodDef.afterExpr_withBody scene.symbols scene.method body

theorem afterTarget_withBody :
    (scene.withBody body).afterTarget = scene.afterTarget := by
  funext declared target method
  exact MethodDef.afterTarget_withBody scene.symbols scene.method body declared
    target method

mutual

/-- An expression has the same result in another body. -/
theorem result_withBody
    (store : Store String)
    (declared : List String)
    (assigned? : Option TypeName) :
    ∀ expr,
      (scene.withBody body).result store declared assigned? expr =
        scene.result store declared assigned? expr
  | .literal _ => by rw [result, result]; rfl
  | .var _ _ => by rw [result, result]; rfl
  | .receiver _ => by rw [result, result]; rfl
  | .binary _ left right _ => by
      rw [result, result, result_withBody store declared assigned? left,
        after_withBody, result_withBody store _ assigned? right]
      rfl
  | .call target _ arguments _ => by
      rw [result, result, result_withBody store declared assigned? target,
        afterTarget_withBody, results_withBody store _ assigned? arguments]
      rfl
  | .newObject _ _ => by rw [result, result]; rfl
  | .newArray size _ => by
      rw [result, result, result_withBody store declared assigned? size]
      rfl
  | .element array index _ => by
      rw [result, result, result_withBody store declared assigned? array,
        after_withBody, result_withBody store _ assigned? index]
      rfl
  | .length array _ => by
      rw [result, result, result_withBody store declared assigned? array]
      rfl

theorem results_withBody
    (store : Store String)
    (declared : List String)
    (assigned? : Option TypeName) :
    ∀ exprs,
      (scene.withBody body).results store declared assigned? exprs =
        scene.results store declared assigned? exprs
  | [] => by rw [results, results]
  | first :: rest => by
      rw [results, results, result_withBody store declared assigned? first,
        after_withBody, results_withBody store _ assigned? rest]
      rfl

end

/-- Statements mean the same in another body. -/
theorem exec_withBody :
    (scene.withBody body).exec = scene.exec := by
  funext store declared stmt
  unfold exec assigned operand
  simp only [result_withBody, results_withBody, afterTarget_withBody]
  rfl

/-- The body of the method says nothing of what statements do. -/
theorem execAll_withBody
    (store : Store String)
    (declared : List String)
    (stmts : List Stmt) :
    (scene.withBody body).execAll store declared stmts =
      scene.execAll store declared stmts := by
  have sameAfter : (scene.withBody body).afterStmt = scene.afterStmt :=
    MethodDef.afterStmt_withBody scene.symbols scene.method body
  induction stmts generalizing store declared with
  | nil =>
      rfl
  | cons first rest inductionHypothesis =>
      rw [execAll, execAll, exec_withBody, sameAfter]
      exact bind_congr_of_ok fun _ => inductionHypothesis _ _

end

/-- Another body for a method, as good as its own. -/
structure Optimizes (scene : Scene Event) (body : List Stmt) : Prop where
  narrows : scene.method.NarrowsOwn scene.symbols body
  behaviour : ∀ store, (scene.withBody body).behaviour store = scene.behaviour store

namespace Optimizes

variable {scene : Scene Event} {body later : List Stmt}

theorem trans
    (first : scene.Optimizes body)
    (second : (scene.withBody body).Optimizes later) :
    scene.Optimizes later where
  narrows := first.narrows.trans (MethodDef.NarrowsBody.ofWithBody second.narrows)
  behaviour store := (second.behaviour store).trans (first.behaviour store)

theorem refl
    (scene : Scene Event) :
    scene.Optimizes scene.method.body where
  narrows := .refl _
  behaviour _ := rfl

/-- A narrower body that runs alike is as good. -/
theorem ofNarrower
    (narrows : scene.method.NarrowsOwn scene.symbols body)
    (runs :
      ∀ store,
        scene.execAll store (scene.method.firstNames scene.symbols) body =
          scene.execAll store (scene.method.firstNames scene.symbols)
            scene.method.body) :
    scene.Optimizes body where
  narrows := narrows
  behaviour store := by
    show ((scene.withBody body).execAll store
      (scene.method.firstNames scene.symbols) body).behaviour scene.finished = _
    rw [execAll_withBody, runs]
    rfl

end Optimizes

end Scene

/-- The body of a method after a pass. -/
def Pass.body (symbols : Symbols) : Pass → MethodDef → List Stmt
  | .propagation, method => method.propagate symbols
  | .folding, method => method.body.map Stmt.fold

/-- A pass changes the bodies of the methods. -/
theorem Pass.apply_eq_mapBodies
    (symbols : Symbols)
    (program : Program)
    (pass : Pass) :
    pass.apply symbols program = program.mapBodies (pass.body symbols) := by
  cases pass <;> rfl

/-- A pass keeps the behaviour of a method. -/
theorem Pass.optimizes
    {Event : Type}
    (pass : Pass)
    {scene : Scene Event}
    (apart : scene.method.ConstantsApart scene.symbols)
    (annotated : scene.method.Annotated scene.symbols) :
    scene.Optimizes (pass.body scene.symbols scene.method) := by
  cases pass with
  | propagation =>
      obtain ⟨narrows, runs⟩ :=
        Scene.propagateBody_simplifies apart annotated (List.Subset.refl _) .empty
      refine .ofNarrower narrows fun store => runs store ?_
      intro name literal isKnown
      simp at isKnown
  | folding =>
      obtain ⟨narrows, runs⟩ := Scene.foldBody_simplifies annotated.operators
      exact .ofNarrower narrows runs

namespace Program

/-- A method with another body is where the method was. -/
theorem getElem?_mapBodies
    {program : Program}
    {index : Nat}
    {method : MethodDef}
    (methodAt : program.mainClass.methods[index]? = some method)
    (change : MethodDef → List Stmt) :
    (program.mapBodies change).mainClass.methods[index]? =
      some { method with body := change method } := by
  simp [mapBodies, methodAt]

/-- Bodies may be changed twice at once. -/
theorem mapBodies_mapBodies
    (program : Program)
    (first second : MethodDef → List Stmt) :
    (program.mapBodies first).mapBodies second =
      program.mapBodies fun method =>
        second { method with body := first method } := by
  simp [mapBodies]

/--
A program with other bodies for its methods, each as good as that of the method.
-/
def Improves (symbols : Symbols) (program improved : Program) : Prop :=
  ∃ change, improved = program.mapBodies change ∧
    ∀ {Event : Type} {scene : Scene Event},
      scene.symbols = symbols →
      scene.method.ConstantsApart scene.symbols →
      scene.method.Annotated scene.symbols →
      scene.Optimizes (change scene.method)

namespace Improves

variable {symbols : Symbols} {program improved further : Program}

theorem refl
    (program : Program) :
    Improves symbols program program := by
  refine ⟨MethodDef.body, ?_, fun _ _ _ => .refl _⟩
  simp [mapBodies]

theorem trans
    (first : Improves symbols program improved)
    (second : Improves symbols improved further) :
    Improves symbols program further := by
  obtain ⟨change, rfl, optimizes⟩ := first
  obtain ⟨again, rfl, optimizesAgain⟩ := second
  refine ⟨_, mapBodies_mapBodies program change again, ?_⟩
  intro Event scene sameSymbols apart annotated
  have once := optimizes sameSymbols apart annotated
  exact once.trans
    (optimizesAgain sameSymbols (once.narrows.constantsApart apart)
      (once.narrows.annotated annotated))

/-- A pass keeps the behaviour of a program. -/
theorem pass
    (pass : Pass)
    (program : Program) :
    Improves symbols program (pass.apply symbols program) := by
  refine ⟨pass.body symbols, pass.apply_eq_mapBodies symbols program, ?_⟩
  rintro Event scene rfl apart annotated
  exact pass.optimizes apart annotated

/-- Passes in a row leave a program as good as it was. -/
theorem runPasses
    (passes : List Pass)
    (program : Program) :
    Improves symbols program (program.runPasses symbols passes).1 := by
  induction passes generalizing program with
  | nil =>
      exact .refl program
  | cons first rest inductionHypothesis =>
      exact (Improves.pass first program).trans (inductionHypothesis _)

/-- Rounds leave a program as good as it was. -/
theorem runRounds
    (bound : Nat)
    (program : Program) :
    Improves symbols program (program.runRounds symbols bound) := by
  induction bound generalizing program with
  | zero =>
      exact .refl program
  | succ bound inductionHypothesis =>
      have round :
          Improves symbols program (program.runPasses symbols Pass.round).1 :=
        .runPasses Pass.round program
      rw [Program.runRounds]
      split
      case h_1 result isRound =>
        rw [isRound] at round
        exact round.trans (inductionHypothesis result)
      case h_2 result isRound =>
        rw [isRound] at round
        exact round

end Improves

/-- Optimization keeps the behaviour of a program. -/
theorem optimize_improves
    (symbols : Symbols)
    (program : Program) :
    Improves symbols program (program.optimize symbols) :=
  .runRounds maxRounds program

end Program

end MiniJava
