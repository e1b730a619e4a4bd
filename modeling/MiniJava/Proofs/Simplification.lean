import MiniJava.Constant.Folding
import MiniJava.Constant.Propagation
import MiniJava.Proofs.Narrowing
import MiniJava.Proofs.Semantics.Tree

namespace MiniJava

/-!
# Simplified expressions

An expression is simplified where a variable is replaced by the literal that it
holds, or an operator on literals by its value. Both are the same for whoever
evaluates the expression, and so is every expression around them.
-/

open Code (ValueType Store CallKind)

/-- The value of an operator on literals has the operator's result type. -/
theorem Operator.type_of_eval?
    {operator : Operator}
    {left right result : Literal}
    (evaluates : operator.eval? left right = some result) :
    (Expr.literal result).type = operator.resultType := by
  cases operator <;> cases left <;> cases right <;>
    simp only [Operator.eval?, Option.ite_none_left_eq_some, Option.some.injEq,
      reduceCtorEq] at evaluates
  case div.int.int =>
    rw [← evaluates.2]
    rfl
  all_goals
    rw [← evaluates]
    rfl

/-- An operator on two literals gives its value on them. -/
theorem Operator.operate_of_eval?
    {Event : Type}
    {operator : Operator}
    {left right result : Literal}
    {leftType rightType : ValueType}
    (evaluates : operator.eval? left right = some result) :
    (operator.operate ⟨leftType, some left.value⟩ ⟨rightType, some right.value⟩ :
      Run Event Value) = pure result.value := by
  cases operator <;> cases left <;> cases right <;>
    simp only [Operator.eval?, Option.ite_none_left_eq_some, Option.some.injEq,
      reduceCtorEq] at evaluates
  case div.int.int =>
    obtain ⟨notZero, rfl⟩ := evaluates
    simp [Operator.operate, Held.number?, Literal.value, Value.number?,
      Operator.run, notZero]
  case and.bool.bool first second =>
    subst evaluates
    cases first <;> cases second <;> rfl
  case or.bool.bool first second =>
    subst evaluates
    cases first <;> cases second <;> rfl
  all_goals
    subst evaluates
    simp [Operator.operate, Held.number?, Literal.value, Value.number?,
      Operator.run]

/-- An operator folds exactly on two literals on which it has a value. -/
theorem Folding.of?_eq_some
    {operator : Operator}
    {left right : Expr}
    {folding : Folding}
    (folds : Folding.of? operator left right = some folding) :
    ∃ leftLiteral rightLiteral,
      left = .literal leftLiteral ∧ right = .literal rightLiteral ∧
        operator.eval? leftLiteral rightLiteral = some folding.result := by
  unfold Folding.of? at folds
  split at folds
  · obtain ⟨result, evaluates, rfl⟩ := Option.map_eq_some_iff.mp folds
    exact ⟨_, _, rfl, rfl, evaluates⟩
  · cases folds

theorem Expr.substituteList_eq_map
    (known : Known)
    (exprs : List Expr) :
    substituteList known exprs = exprs.map (substitute known) := by
  induction exprs with
  | nil =>
      rfl
  | cons first rest inductionHypothesis =>
      rw [substituteList, inductionHypothesis, List.map_cons]

theorem Expr.foldList_eq_map
    (exprs : List Expr) :
    foldList exprs = exprs.map fold := by
  induction exprs with
  | nil =>
      rfl
  | cons first rest inductionHypothesis =>
      rw [foldList, inductionHypothesis, List.map_cons]

/-- A store holds what is known. -/
def Known.Holds (known : Known) (store : Store String) : Prop :=
  ∀ name literal, known[name]? = some literal → store name = some literal.value

namespace Scene

variable {Event : Type} (scene : Scene Event)

/--
An expression may take the place of another where the store holds what is known.
-/
structure Simplifies
    (known : Known)
    (declared : List String)
    (source simplified : Expr) : Prop
    extends scene.method.NarrowsExpr scene.symbols declared source simplified where
  result :
    ∀ {store}, known.Holds store → ∀ assigned?,
      scene.result store declared assigned? simplified =
        scene.result store declared assigned? source
  operand :
    ∀ {store}, known.Holds store → ∀ assigned?,
      scene.operand store declared assigned? simplified =
        scene.operand store declared assigned? source
  assigned :
    ∀ {store}, known.Holds store → ∀ type,
      scene.assigned store declared type simplified =
        scene.assigned store declared type source
  evaluated :
    ∀ {store}, known.Holds store →
      scene.exec store declared (.evaluate simplified) =
        scene.exec store declared (.evaluate source)

/-- Expressions in a row may take the place of others. -/
structure SimplifiesAll
    (known : Known)
    (declared : List String)
    (sources simplified : List Expr) : Prop
    extends scene.method.NarrowsExprs scene.symbols declared sources
      simplified where
  results :
    ∀ {store}, known.Holds store → ∀ assigned?,
      scene.results store declared assigned? simplified =
        scene.results store declared assigned? sources

/--
Only the class of a new object decides what is constructed once it is assigned.
-/
theorem constructAssigned_congr
    {source other : Expr}
    (sameClass : other.created? = source.created?)
    (type : TypeName)
    (value : Value) :
    scene.constructAssigned type value other =
      scene.constructAssigned type value source := by
  have ofClass (expr : Expr) :
      scene.constructAssigned type value expr =
        expr.created?.elim (pure ()) fun className =>
          scene.construct ⟨scene.constructed type className, some value⟩ := by
    cases expr <;> rfl
  rw [ofClass, ofClass, sameClass]

variable {scene} {known : Known} {declared : List String}

namespace SimplifiesAll

theorem nil :
    scene.SimplifiesAll known declared [] [] where
  toNarrowsExprs := .nil
  results _ _ := rfl

theorem cons
    {source simplified : Expr}
    {sources others : List Expr}
    (onFirst : scene.Simplifies known declared source simplified)
    (onRest :
      scene.SimplifiesAll known (scene.after declared source) sources others) :
    scene.SimplifiesAll known declared (source :: sources)
      (simplified :: others) where
  toNarrowsExprs := .cons onFirst.toNarrowsExpr onRest.toNarrowsExprs
  results holds assigned? := by
    have sameAfter :
        scene.after declared simplified = scene.after declared source :=
      onFirst.after
    rw [results_cons, results_cons, onFirst.operand holds, sameAfter,
      onRest.results holds]

end SimplifiesAll

namespace Simplifies

theorem refl
    (expr : Expr) :
    scene.Simplifies known declared expr expr where
  toNarrowsExpr := .refl expr
  result _ _ := rfl
  operand _ _ := rfl
  assigned _ _ := rfl
  evaluated _ := rfl

/-- A variable may be replaced by the literal that it holds. -/
theorem replaced
    {name : String}
    {literal : Literal}
    (isKnown : known[name]? = some literal)
    (isDeclared : name ∈ declared)
    (notField : scene.isField name = false) :
    scene.Simplifies known declared (.var name (Expr.literal literal).type)
      (.literal literal) := by
  have sameAtom {store : Store String} (holds : known.Holds store) :
      scene.atom? store (.var name (Expr.literal literal).type) =
        scene.atom? store (.literal literal) := by
    rw [atom?_literal]
    have notImported : (Expr.literal literal).type.isImported = false := by
      cases literal <;> rfl
    simp [atom?, notField, variableType, notImported, holds name literal isKnown,
      Held.ofContent, Option.filter, literal.value_fits]
  have sameOperand {store : Store String} (holds : known.Holds store)
      (assigned? : Option TypeName) :
      scene.operand store declared assigned? (.literal literal) =
        scene.operand store declared assigned?
          (.var name (Expr.literal literal).type) := by
    rw [operand_literal,
      operand_of_atom scene
        ((sameAtom holds).trans (scene.atom?_literal store literal))]
  have sameResult {store : Store String} (holds : known.Holds store)
      (assigned? : Option TypeName) :
      scene.result store declared assigned? (.literal literal) =
        scene.result store declared assigned?
          (.var name (Expr.literal literal).type) := by
    rw [result_literal, result_of_not_field scene store declared assigned? notField,
      sameAtom holds, atom?_literal]
    rfl
  exact
    { toNarrowsExpr := .replaced isDeclared
      result := sameResult
      operand := sameOperand
      assigned := fun holds type => by simp only [Scene.assigned, sameOperand holds]
      evaluated := fun holds => by simp only [exec, sameOperand holds] }

/--
An operation may take the place of another with the same result under the same type.
-/
theorem ofResult
    {source simplified : Expr}
    (narrows : scene.method.NarrowsExpr scene.symbols declared source simplified)
    (isOperation : ∀ store, scene.atom? store source = none)
    (stillOperation : ∀ store, scene.atom? store simplified = none)
    (sameType :
      ∀ assigned?, scene.typeOf assigned? simplified =
        scene.typeOf assigned? source)
    (result :
      ∀ {store}, known.Holds store → ∀ assigned?,
        scene.result store declared assigned? simplified =
          scene.result store declared assigned? source)
    (assigned :
      ∀ {store}, known.Holds store → ∀ type,
        scene.operand store declared (some type) simplified =
            scene.operand store declared (some type) source →
          scene.assigned store declared type simplified =
            scene.assigned store declared type source)
    (evaluated :
      ∀ {store}, known.Holds store →
        scene.operand store declared none simplified =
            scene.operand store declared none source →
          scene.exec store declared (.evaluate simplified) =
            scene.exec store declared (.evaluate source)) :
    scene.Simplifies known declared source simplified := by
  have operand {store : Store String} (holds : known.Holds store)
      (assigned? : Option TypeName) :
      scene.operand store declared assigned? simplified =
        scene.operand store declared assigned? source := by
    rw [operand_of_operation scene (isOperation store),
      operand_of_operation scene (stillOperation store), sameType, result holds]
  exact
    { toNarrowsExpr := narrows
      result, operand
      assigned := fun holds type => assigned holds type (operand holds (some type))
      evaluated := fun holds => evaluated holds (operand holds none) }

/-- The operands of an operator may be simplified. -/
theorem binary
    {operator : Operator}
    {left right simplerLeft simplerRight : Expr}
    {type : TypeName}
    (onLeft : scene.Simplifies known declared left simplerLeft)
    (onRight :
      scene.Simplifies known (scene.after declared left) right simplerRight) :
    scene.Simplifies known declared (.binary operator left right type)
      (.binary operator simplerLeft simplerRight type) := by
  have sameAfter : scene.after declared simplerLeft = scene.after declared left :=
    onLeft.after
  have sameResult {store : Store String} (holds : known.Holds store)
      (assigned? : Option TypeName) :
      scene.result store declared assigned?
          (.binary operator simplerLeft simplerRight type) =
        scene.result store declared assigned?
          (.binary operator left right type) := by
    rw [result_binary, result_binary, onLeft.operand holds, sameAfter,
      onRight.operand holds]
  exact ofResult (.binary onLeft.toNarrowsExpr onRight.toNarrowsExpr)
    (fun _ => rfl) (fun _ => rfl) (fun _ => rfl) sameResult
    (fun holds type _ => sameResult holds (some type))
    (fun _ same => by simp only [exec, same])

theorem newArray
    {size simpler : Expr}
    {type : TypeName}
    (onSize : scene.Simplifies known declared size simpler) :
    scene.Simplifies known declared (.newArray size type)
      (.newArray simpler type) := by
  have sameResult {store : Store String} (holds : known.Holds store)
      (assigned? : Option TypeName) :
      scene.result store declared assigned? (.newArray simpler type) =
        scene.result store declared assigned? (.newArray size type) := by
    rw [result_newArray, result_newArray, onSize.operand holds]
  exact ofResult (.newArray onSize.toNarrowsExpr) (fun _ => rfl) (fun _ => rfl)
    (fun _ => rfl) sameResult (fun holds type _ => sameResult holds (some type))
    (fun _ same => by simp only [exec, same])

theorem element
    {array index simplerArray simplerIndex : Expr}
    {type : TypeName}
    (onArray : scene.Simplifies known declared array simplerArray)
    (onIndex :
      scene.Simplifies known (scene.after declared array) index simplerIndex) :
    scene.Simplifies known declared (.element array index type)
      (.element simplerArray simplerIndex type) := by
  have sameAfter : scene.after declared simplerArray = scene.after declared array :=
    onArray.after
  have sameResult {store : Store String} (holds : known.Holds store)
      (assigned? : Option TypeName) :
      scene.result store declared assigned?
        (.element simplerArray simplerIndex type) =
        scene.result store declared assigned? (.element array index type) := by
    rw [result_element, result_element, onArray.operand holds, sameAfter,
      onIndex.operand holds]
  exact ofResult (.element onArray.toNarrowsExpr onIndex.toNarrowsExpr)
    (fun _ => rfl) (fun _ => rfl) (fun _ => rfl) sameResult
    (fun _ _ same => by simp only [Scene.assigned, same])
    (fun _ same => by simp only [exec, same])

theorem length
    {array simpler : Expr}
    {type : TypeName}
    (onArray : scene.Simplifies known declared array simpler) :
    scene.Simplifies known declared (.length array type)
      (.length simpler type) := by
  have sameResult {store : Store String} (holds : known.Holds store)
      (assigned? : Option TypeName) :
      scene.result store declared assigned? (.length simpler type) =
        scene.result store declared assigned? (.length array type) := by
    rw [result_length, result_length, onArray.operand holds]
  exact ofResult (.length onArray.toNarrowsExpr) (fun _ => rfl) (fun _ => rfl)
    (fun _ => rfl) sameResult (fun _ _ same => by simp only [Scene.assigned, same])
    (fun _ same => by simp only [exec, same])

/-- An operator on literals may be replaced by its value. -/
theorem folded
    {operator : Operator}
    {left right : Expr}
    {leftLiteral rightLiteral literal : Literal}
    (onLeft : scene.Simplifies known declared left (.literal leftLiteral))
    (onRight :
      scene.Simplifies known (scene.after declared left)
        right (.literal rightLiteral))
    (evaluates : operator.eval? leftLiteral rightLiteral = some literal) :
    scene.Simplifies known declared
      (.binary operator left right operator.resultType) (.literal literal) := by
  have isType := Operator.type_of_eval? evaluates
  have sameResult {store : Store String} (holds : known.Holds store)
      (assigned? : Option TypeName) :
      scene.result store declared assigned? (.literal literal) =
        scene.result store declared assigned?
          (.binary operator left right operator.resultType) := by
    rw [result_literal, result_binary, ← onLeft.operand holds,
      ← onRight.operand holds, operand_literal, operand_literal, pure_bind,
      pure_bind,
      Operator.operate_of_eval? evaluates]
  have sameOperand {store : Store String} (holds : known.Holds store)
      (assigned? : Option TypeName) :
      scene.operand store declared assigned? (.literal literal) =
        scene.operand store declared assigned?
          (.binary operator left right operator.resultType) := by
    have fits := literal.value_fits
    rw [isType] at fits
    rw [operand_literal, operand_of_operation scene rfl, ← sameResult holds,
      result_literal, pure_bind, typeOf, if_pos fits, isType]
  have sameAssigned {store : Store String} (holds : known.Holds store)
      (type : TypeName) :
      scene.assigned store declared type (.literal literal) =
        scene.result store declared (some type)
          (.binary operator left right operator.resultType) := by
    rw [assigned_literal, ← sameResult holds, result_literal]
  exact
    { toNarrowsExpr := .folded onLeft.toNarrowsExpr onRight.toNarrowsExpr isType
      result := sameResult
      operand := sameOperand
      assigned := sameAssigned
      evaluated := fun holds => by simp only [exec, sameOperand holds] }

/--
The target and the arguments of a call may be simplified, but not
the class of a static call.
-/
theorem call
    {target simplerTarget : Expr}
    {method : String}
    {arguments simplerArguments : List Expr}
    {type : TypeName}
    (onTarget : scene.Simplifies known declared target simplerTarget)
    (keepsClass :
      scene.callKind declared target method = .static → simplerTarget = target)
    (onArguments :
      scene.SimplifiesAll known (scene.afterTarget declared target method) arguments
        simplerArguments) :
    scene.Simplifies known declared (.call target method arguments type)
      (.call simplerTarget method simplerArguments type) := by
  have sameKind :
      scene.callKind declared simplerTarget method =
        scene.callKind declared target method :=
    onTarget.callKind keepsClass
  have sameAfter :
      scene.afterTarget declared simplerTarget method =
        scene.afterTarget declared target method :=
    onTarget.afterTarget keepsClass
  have sameCallee {store : Store String} (holds : known.Holds store)
      (assigned? : Option TypeName) :
      scene.callee declared simplerTarget method
          (scene.operand store declared assigned? simplerTarget) =
        scene.callee declared target method
          (scene.operand store declared assigned? target) := by
    by_cases static : scene.callKind declared target method = .static
    · rw [keepsClass static]
    · rw [callee_of_not_static scene static,
        callee_of_not_static scene (sameKind ▸ static), onTarget.operand holds]
  have sameResult {store : Store String} (holds : known.Holds store)
      (assigned? : Option TypeName) :
      scene.result store declared assigned?
          (.call simplerTarget method simplerArguments type) =
        scene.result store declared assigned?
          (.call target method arguments type) := by
    rw [result_call, result_call, sameCallee holds, sameAfter,
      onArguments.results holds, sameKind]
  exact ofResult
    (.call onTarget.toNarrowsExpr keepsClass onArguments.toNarrowsExprs)
    (fun _ => rfl) (fun _ => rfl) (fun _ => rfl) sameResult
    (fun holds type _ => sameResult holds (some type))
    (fun holds _ => by
      simp only [exec, sameCallee holds, sameAfter, onArguments.results holds,
        sameKind])

end Simplifies

variable (scene)

/--
What is known fits the uses of names: known names are variables of
the type of their literal.
-/
structure Fits (known : Known) (uses : List Use) : Prop where
  types :
    ∀ {name type literal}, Use.var name type ∈ uses → known[name]? = some literal →
      scene.isField name = false ∧ type = (Expr.literal literal).type
  classes : ∀ {name}, Use.className name ∈ uses → known[name]? = none

variable {scene}

theorem Fits.mono
    {uses fewer : List Use}
    (fits : scene.Fits known uses)
    (subset : fewer ⊆ uses) :
    scene.Fits known fewer :=
  ⟨fun isUse => fits.types (subset isUse), fun isUse => fits.classes (subset isUse)⟩

/-- All names that are known are declared. -/
def KnownDeclared (known : Known) (declared : List String) : Prop :=
  ∀ name literal, known[name]? = some literal → name ∈ declared

theorem KnownDeclared.mono
    {more : List String}
    (areDeclared : KnownDeclared known declared)
    (subset : declared ⊆ more) :
    KnownDeclared known more :=
  fun name literal isKnown => subset (areDeclared name literal isKnown)

/-- Known names may be replaced in expressions in a row. -/
theorem substituteList_simplifies
    {exprs : List Expr}
    (each :
      ∀ expr ∈ exprs, ∀ {declared},
        KnownDeclared known declared →
        scene.Fits known (scene.method.exprUses scene.symbols declared expr) →
        scene.Simplifies known declared expr (expr.substitute known))
    (areDeclared : KnownDeclared known declared)
    (fits :
      scene.Fits known (scene.method.exprsUses scene.symbols declared exprs)) :
    scene.SimplifiesAll known declared exprs (Expr.substituteList known exprs) := by
  induction exprs generalizing declared with
  | nil =>
      exact .nil
  | cons first rest inductionHypothesis =>
      rw [MethodDef.exprsUses] at fits
      rw [Expr.substituteList]
      exact .cons
        (each first List.mem_cons_self areDeclared
          (fits.mono (List.subset_append_left _ _)))
        (inductionHypothesis
          (fun expr member => each expr (List.mem_cons_of_mem _ member))
          (areDeclared.mono (MethodDef.subset_afterExpr first))
          (fits.mono (List.subset_append_right _ _)))

/-- Known names may be replaced by their literals. -/
theorem substitute_simplifies
    {expr : Expr}
    (areDeclared : KnownDeclared known declared)
    (fits : scene.Fits known (scene.method.exprUses scene.symbols declared expr)) :
    scene.Simplifies known declared expr (expr.substitute known) := by
  induction expr generalizing declared with
  | literal value =>
      exact .refl _
  | var name type =>
      rw [Expr.substitute]
      cases isKnown : known[name]? with
      | none =>
          exact .refl _
      | some literal =>
          -- The use is annotated with the type of the literal, so the operand keeps
          -- its type.
          rw [MethodDef.exprUses] at fits
          obtain ⟨notField, rfl⟩ := fits.types List.mem_cons_self isKnown
          exact .replaced isKnown (areDeclared name literal isKnown) notField
  | receiver type =>
      exact .refl _
  | binary operator left right type leftHypothesis rightHypothesis =>
      rw [MethodDef.exprUses] at fits
      exact .binary
        (leftHypothesis areDeclared (fits.mono (List.subset_append_left _ _)))
        (rightHypothesis (areDeclared.mono (MethodDef.subset_afterExpr left))
          (fits.mono (List.subset_append_right _ _)))
  | call target method arguments type targetHypothesis argumentsHypothesis =>
      have onArguments {declared : List String} :=
        @substituteList_simplifies _ scene known declared arguments
          fun argument member _ => argumentsHypothesis argument member
      by_cases static : scene.callKind declared target method = .static
      · obtain ⟨name, annotated, rfl⟩ := Symbols.target_of_static static
        rw [MethodDef.exprUses_call_of_static static] at fits
        have sameTarget :
            (Expr.var name annotated).substitute known = .var name annotated := by
          rw [Expr.substitute, fits.classes List.mem_cons_self]
        have sameAfter :
            scene.afterTarget declared (.var name annotated) method = declared :=
          MethodDef.afterTarget_of_static static
        rw [Expr.substitute, sameTarget]
        refine .call (.refl _) (fun _ => rfl) ?_
        rw [sameAfter]
        exact onArguments areDeclared (fits.mono (List.subset_cons_self _ _))
      · rw [MethodDef.exprUses_call_of_not_static static] at fits
        have sameAfter :
            scene.afterTarget declared target method =
              scene.after declared target :=
          MethodDef.afterTarget_of_not_static static
        refine .call
          (targetHypothesis areDeclared (fits.mono (List.subset_append_left _ _)))
          (fun isStatic => absurd isStatic static) ?_
        rw [sameAfter]
        exact onArguments (areDeclared.mono (MethodDef.subset_afterExpr target))
          (fits.mono (List.subset_append_right _ _))
  | newObject className type =>
      exact .refl _
  | newArray size type sizeHypothesis =>
      rw [MethodDef.exprUses] at fits
      exact .newArray (sizeHypothesis areDeclared fits)
  | element array index type arrayHypothesis indexHypothesis =>
      rw [MethodDef.exprUses] at fits
      exact .element
        (arrayHypothesis areDeclared (fits.mono (List.subset_append_left _ _)))
        (indexHypothesis (areDeclared.mono (MethodDef.subset_afterExpr array))
          (fits.mono (List.subset_append_right _ _)))
  | length array type arrayHypothesis =>
      rw [MethodDef.exprUses] at fits
      exact .length (arrayHypothesis areDeclared fits)

/-- Operators on literals may be replaced in expressions in a row. -/
theorem foldList_simplifies
    {exprs : List Expr}
    (each :
      ∀ expr ∈ exprs, ∀ declared, scene.Simplifies known declared expr expr.fold) :
    scene.SimplifiesAll known declared exprs (Expr.foldList exprs) := by
  induction exprs generalizing declared with
  | nil =>
      exact .nil
  | cons first rest inductionHypothesis =>
      rw [Expr.foldList]
      exact .cons (each first List.mem_cons_self declared)
        (inductionHypothesis fun expr member =>
          each expr (List.mem_cons_of_mem _ member))

/-- Operators on literals may be replaced by their values. -/
theorem fold_simplifies
    {expr : Expr}
    (typed : ∀ annotated ∈ expr.operators, annotated.2 = annotated.1.resultType) :
    scene.Simplifies known declared expr expr.fold := by
  induction expr generalizing declared with
  | binary operator left right type leftHypothesis rightHypothesis =>
      rw [Expr.operators, List.forall_mem_cons, List.forall_mem_append] at typed
      obtain ⟨isType, leftTyped, rightTyped⟩ := typed
      have isType : type = operator.resultType := isType
      have onLeft : scene.Simplifies known declared left left.fold :=
        leftHypothesis leftTyped
      have onRight :
          scene.Simplifies known (scene.after declared left) right right.fold :=
        rightHypothesis rightTyped
      rw [Expr.fold]
      cases folds : Folding.of? operator left.fold right.fold with
      | none =>
          exact .binary onLeft onRight
      | some folding =>
          obtain ⟨leftLiteral, rightLiteral, isLeft, isRight, evaluates⟩ :=
            Folding.of?_eq_some folds
          rw [isLeft] at onLeft
          rw [isRight] at onRight
          rw [isType]
          exact .folded onLeft onRight evaluates
  | call target method arguments type targetHypothesis argumentsHypothesis =>
      rw [Expr.operators, List.forall_mem_append] at typed
      have keepsClass :
          scene.callKind declared target method = .static →
          target.fold = target := by
        intro static
        obtain ⟨name, annotated, rfl⟩ := Symbols.target_of_static static
        rfl
      exact .call (targetHypothesis typed.1) keepsClass
        (foldList_simplifies fun argument member _ =>
          argumentsHypothesis argument member fun annotated isOperator =>
            typed.2 annotated
              (Expr.mem_listOperators.mpr ⟨argument, member, isOperator⟩))
  | newArray size type sizeHypothesis =>
      exact .newArray (sizeHypothesis typed)
  | element array index type arrayHypothesis indexHypothesis =>
      rw [Expr.operators, List.forall_mem_append] at typed
      exact .element (arrayHypothesis typed.1) (indexHypothesis typed.2)
  | length array type arrayHypothesis =>
      exact .length (arrayHypothesis typed)
  | literal value =>
      exact .refl _
  | var name type =>
      exact .refl _
  | receiver type =>
      exact .refl _
  | newObject className type =>
      exact .refl _

end Scene

end MiniJava
