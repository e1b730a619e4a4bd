import MiniJava.Proofs.ConstantRounds
import MiniJava.Proofs.OptimizedPrograms
import MiniJava.Proofs.Semantics.Support

namespace MiniJava

/-!
# Rounds keep supported bodies supported

The constant passes put literals in the place of names and operators of their
type. What is called is neither of these, so it stays, and so do the annotations
of the names that are left. A supported body is therefore supported after any
number of rounds.
-/

/-- Names with their annotations. -/
abbrev Annotations := List (String × TypeName)

theorem Literal.isClass_type
    (value : Literal) :
    (Expr.literal value).type.isClass = false := by
  cases value <;> rfl

theorem Literal.isImported_type
    (value : Literal) :
    (Expr.literal value).type.isImported = false := by
  cases value <;> rfl

theorem Operator.isClass_resultType
    (operator : Operator) :
    operator.resultType.isClass = false := by
  cases operator <;> rfl

namespace Expr

/--
An expression is supported, its operators have their types, and its
names are given ones.
-/
structure Fitting
    (symbols : Symbols)
    (source : MethodDef)
    (names : Annotations)
    (used : Bool)
    (expr : Expr) : Prop where
  supported : expr.isSupported symbols source used = true
  operators : ∀ annotated ∈ expr.operators, annotated.2 = annotated.1.resultType
  names : ∀ name type, .var name type ∈ expr.parts → (name, type) ∈ names

namespace Fitting

variable {symbols : Symbols} {source : MethodDef} {names : Annotations}
  {used : Bool}

theorem literal
    (value : Literal) :
    (Expr.literal value).Fitting symbols source names used := by
  refine ⟨rfl, ?_, ?_⟩
  · simp [Expr.operators]
  · simp [Expr.parts]

theorem binary_iff
    {operator : Operator}
    {left right : Expr}
    {type : TypeName} :
    (Expr.binary operator left right type).Fitting symbols source names used ↔
      type = operator.resultType ∧
        left.Fitting symbols source names true ∧
          right.Fitting symbols source names true := by
  constructor
  · rintro ⟨supported, operators, areNames⟩
    simp only [Expr.isSupported, Bool.and_eq_true] at supported
    simp only [Expr.operators, List.forall_mem_cons, List.forall_mem_append]
      at operators
    refine ⟨operators.1, ⟨supported.1, operators.2.1, ?_⟩,
      ⟨supported.2, operators.2.2, ?_⟩⟩
    · exact fun name type isPart =>
        areNames name type (by simp [Expr.parts, isPart])
    · exact fun name type isPart =>
        areNames name type (by simp [Expr.parts, isPart])
  · rintro ⟨isType, left, right⟩
    refine ⟨?_, ?_, ?_⟩
    · simp [Expr.isSupported, left.supported, right.supported]
    · simpa only [Expr.operators, List.forall_mem_cons, List.forall_mem_append]
        using ⟨isType, left.operators, right.operators⟩
    · intro name type isPart
      simp only [Expr.parts, List.mem_cons, reduceCtorEq, List.mem_append, false_or]
        at isPart
      exact isPart.elim (left.names name type) (right.names name type)

theorem newArray_iff
    {size : Expr}
    {type : TypeName} :
    (Expr.newArray size type).Fitting symbols source names used ↔
      (type.isArray = true ∧ type.name ≠ TypeName.void.name) ∧
        size.Fitting symbols source names true := by
  constructor
  · rintro ⟨supported, operators, areNames⟩
    simp only [Expr.isSupported, Bool.and_eq_true, decide_eq_true_eq] at supported
    exact ⟨supported.1, supported.2, operators,
      fun name type isPart => areNames name type (by simp [Expr.parts, isPart])⟩
  · rintro ⟨isCreatable, size⟩
    refine ⟨?_, size.operators, ?_⟩
    · simp [Expr.isSupported, isCreatable, size.supported]
    · intro name type isPart
      exact size.names name type (by simpa [Expr.parts] using isPart)

/--
A call fits if its arguments do, and its target names a class, or
fits and is an object.
-/
theorem call_iff
    {target : Expr}
    {method : String}
    {arguments : List Expr}
    {type : TypeName} :
    (Expr.call target method arguments type).Fitting symbols source names used ↔
      (used && type.isVoid) = false ∧
        (∀ argument ∈ arguments, argument.Fitting symbols source names true) ∧
          ((∃ name annotated,
              target = .var name annotated ∧ target.namesClass method = true ∧
                (name, annotated) ∈ names) ∨
            target.Fitting symbols source names true ∧
              target.isObject symbols source.name = true) := by
  constructor
  · rintro ⟨supported, operators, areNames⟩
    simp only [Expr.isSupported, Bool.and_eq_true, Bool.not_eq_true',
      Expr.areSupported_iff, Bool.or_eq_true] at supported
    rcases supported with ⟨⟨hasResult, argumentsSupported⟩, targetSupported⟩
    simp only [Expr.operators, List.forall_mem_append] at operators
    refine ⟨hasResult, fun argument member => ?_, ?_⟩
    · refine ⟨argumentsSupported argument member,
        fun annotated isOperator => ?_, ?_⟩
      · exact operators.2 annotated
          (mem_listOperators.mpr ⟨argument, member, isOperator⟩)
      · intro name type isPart
        have inList := mem_listParts.mpr ⟨argument, member, isPart⟩
        exact areNames name type (by simp [Expr.parts, inList])
    · rcases targetSupported with namesClass | ⟨isSupported, isObject⟩
      · left
        cases target with
        | var name annotated =>
            exact ⟨name, annotated, rfl, namesClass,
              areNames name annotated (by simp [Expr.parts])⟩
        | _ => cases namesClass
      · refine .inr
          ⟨⟨isSupported, operators.1, fun name type isPart => ?_⟩, isObject⟩
        exact areNames name type (by simp [Expr.parts, isPart])
  · rintro ⟨hasResult, arguments, target⟩
    refine ⟨?_, ?_, ?_⟩
    · simp only [Expr.isSupported, Bool.and_eq_true, Bool.not_eq_true',
        Expr.areSupported_iff, Bool.or_eq_true]
      refine
        ⟨⟨hasResult, fun argument member =>
          (arguments argument member).supported⟩, ?_⟩
      rcases target with ⟨_, _, _, namesClass, _⟩ | ⟨target, isObject⟩
      · exact .inl namesClass
      · exact .inr ⟨target.supported, isObject⟩
    · simp only [Expr.operators, List.forall_mem_append]
      refine ⟨?_, fun annotated isOperator => ?_⟩
      · rcases target with ⟨_, _, rfl, _, _⟩ | ⟨target, _⟩
        · simp [Expr.operators]
        · exact target.operators
      · rcases mem_listOperators.mp isOperator with ⟨argument, member, isOperator⟩
        exact (arguments argument member).operators annotated isOperator
    · intro name type isPart
      simp only [Expr.parts, List.mem_cons, reduceCtorEq, List.mem_append, false_or]
        at isPart
      rcases isPart with inTarget | inArguments
      · rcases target with ⟨_, _, rfl, _, isName⟩ | ⟨target, _⟩
        · simp only [Expr.parts, List.mem_singleton, Expr.var.injEq] at inTarget
          rcases inTarget with ⟨rfl, rfl⟩
          exact isName
        · exact target.names name type inTarget
      · rcases mem_listParts.mp inArguments with ⟨argument, member, isPart⟩
        exact (arguments argument member).names name type isPart

end Fitting

end Expr

/-- What is known of a name is of the type that it is annotated with. -/
def Known.Agrees (known : Known) (names : Annotations) : Prop :=
  ∀ name value type,
    known[name]? = some value → (name, type) ∈ names →
    type = (Expr.literal value).type

namespace Expr

variable {symbols : Symbols} {source : MethodDef} {names : Annotations}
  {used : Bool} {known : Known} {expr : Expr}

/-- A known name is replaced by a literal of its type. -/
theorem substitute_type
    (agrees : known.Agrees names)
    (fitting : expr.Fitting symbols source names used) :
    (expr.substitute known).type = expr.type := by
  cases expr with
  | var name type =>
      unfold Expr.substitute
      split
      case h_1 value isKnown =>
        exact (agrees name value type isKnown
          (fitting.names name type (by simp [Expr.parts]))).symm
      case h_2 => rfl
  | _ => rfl

/-- Objects are no literals, so what is called on stays as it is annotated. -/
theorem substitute_isObject
    (agrees : known.Agrees names)
    (fitting : expr.Fitting symbols source names used)
    (isObject : expr.isObject symbols source.name = true) :
    (expr.substitute known).isObject symbols source.name = true := by
  cases expr with
  | var name type =>
      unfold Expr.substitute
      split
      case h_1 value isKnown =>
        have isType :=
          agrees name value type isKnown
            (fitting.names name type (by simp [Expr.parts]))
        simp [Expr.isObject, isType, value.isClass_type] at isObject
      case h_2 => exact isObject
  | _ => exact isObject

/-- An expression still fits after its known names are replaced. -/
theorem Fitting.substitute
    (agrees : known.Agrees names)
    (fitting : expr.Fitting symbols source names used) :
    (expr.substitute known).Fitting symbols source names used := by
  induction expr generalizing used with
  | literal value => exact fitting
  | var name type =>
      unfold Expr.substitute
      split
      · exact .literal _
      · exact fitting
  | receiver type => exact fitting
  | binary operator left right type leftHypothesis rightHypothesis =>
      rcases Fitting.binary_iff.mp fitting with ⟨isType, leftFits, rightFits⟩
      exact Fitting.binary_iff.mpr
        ⟨isType, leftHypothesis leftFits, rightHypothesis rightFits⟩
  | call target method arguments type targetHypothesis argumentsHypothesis =>
      rcases Fitting.call_iff.mp fitting with ⟨hasResult, argumentsFit, targetFits⟩
      rw [Expr.substitute, substituteList_eq_map]
      refine Fitting.call_iff.mpr ⟨hasResult, ?_, ?_⟩
      · rw [List.forall_mem_map]
        exact fun argument member =>
          argumentsHypothesis argument member (argumentsFit argument member)
      · rcases targetFits with
          ⟨name, annotated, rfl, namesClass, isName⟩ | ⟨targetFits, isObject⟩
        · -- A class is annotated as imported, and a name that is known is not.
          have isUnknown : known[name]? = none := by
            cases isKnown : known[name]? with
            | none => rfl
            | some value =>
                have isType := agrees name value annotated isKnown isName
                simp [Expr.namesClass, isType, value.isImported_type] at namesClass
          exact .inl ⟨name, annotated, by simp [Expr.substitute, isUnknown],
            by simpa [Expr.substitute, isUnknown] using namesClass, isName⟩
        · exact .inr
            ⟨targetHypothesis targetFits,
              substitute_isObject agrees targetFits isObject⟩
  | newObject className type => exact fitting
  | newArray size type sizeHypothesis =>
      rcases Fitting.newArray_iff.mp fitting with ⟨isCreatable, sizeFits⟩
      exact Fitting.newArray_iff.mpr ⟨isCreatable, sizeHypothesis sizeFits⟩
  | element array index type => cases fitting.supported
  | length array type => cases fitting.supported

/-- An operator is replaced by a literal of its type. -/
theorem fold_type
    (fitting : expr.Fitting symbols source names used) :
    expr.fold.type = expr.type := by
  cases expr with
  | binary operator left right type =>
      unfold Expr.fold
      dsimp only
      split
      case h_1 folding folds =>
        rcases Folding.of?_eq_some folds with ⟨_, _, _, _, evaluates⟩
        rw [Operator.type_of_eval? evaluates]
        exact (Fitting.binary_iff.mp fitting).1.symm
      case h_2 => rfl
  | _ => rfl

/-- Folding keeps what has a class. -/
theorem fold_isObject
    (fitting : expr.Fitting symbols source names used)
    (isObject : expr.isObject symbols source.name = true) :
    expr.fold.isObject symbols source.name = true := by
  cases expr with
  | binary operator left right type =>
      rw [Expr.isObject, (Fitting.binary_iff.mp fitting).1] at isObject
      · simp [Expr.type, operator.isClass_resultType] at isObject
      · simp
  | _ => exact isObject

/-- An expression still fits after it is folded. -/
theorem Fitting.fold
    (fitting : expr.Fitting symbols source names used) :
    expr.fold.Fitting symbols source names used := by
  induction expr generalizing used with
  | literal value => exact fitting
  | var name type => exact fitting
  | receiver type => exact fitting
  | binary operator left right type leftHypothesis rightHypothesis =>
      rcases Fitting.binary_iff.mp fitting with ⟨isType, leftFits, rightFits⟩
      unfold Expr.fold
      dsimp only
      split
      · exact .literal _
      · exact Fitting.binary_iff.mpr
          ⟨isType, leftHypothesis leftFits, rightHypothesis rightFits⟩
  | call target method arguments type targetHypothesis argumentsHypothesis =>
      rcases Fitting.call_iff.mp fitting with ⟨hasResult, argumentsFit, targetFits⟩
      rw [Expr.fold, foldList_eq_map]
      refine Fitting.call_iff.mpr ⟨hasResult, ?_, ?_⟩
      · rw [List.forall_mem_map]
        exact fun argument member =>
          argumentsHypothesis argument member (argumentsFit argument member)
      · rcases targetFits with
          ⟨name, annotated, rfl, namesClass, isName⟩ | ⟨targetFits, isObject⟩
        · exact .inl ⟨name, annotated, rfl, namesClass, isName⟩
        · exact .inr
            ⟨targetHypothesis targetFits, fold_isObject targetFits isObject⟩
  | newObject className type => exact fitting
  | newArray size type sizeHypothesis =>
      rcases Fitting.newArray_iff.mp fitting with ⟨isCreatable, sizeFits⟩
      exact Fitting.newArray_iff.mpr ⟨isCreatable, sizeHypothesis sizeFits⟩
  | element array index type => cases fitting.supported
  | length array type => cases fitting.supported

/-- Whether an expression is supported does not depend on the body around it. -/
theorem isSupported_withBody
    (expr : Expr)
    (body : List Stmt) :
    expr.isSupported symbols { source with body } used =
      expr.isSupported symbols source used := by
  induction expr generalizing used with
  | call target method arguments type targetHypothesis argumentsHypothesis =>
      have sameArguments :
          areSupported symbols { source with body } arguments =
            areSupported symbols source arguments := by
        rw [Bool.eq_iff_iff, areSupported_iff, areSupported_iff]
        exact forall₂_congr fun argument member => by
          rw [argumentsHypothesis argument member]
      simp only [isSupported, sameArguments, targetHypothesis]
  | binary operator left right type leftHypothesis rightHypothesis =>
      simp only [isSupported, leftHypothesis, rightHypothesis]
  | newArray size type sizeHypothesis => simp only [isSupported, sizeHypothesis]
  | _ => rfl

end Expr

namespace Stmt

/-- The value of an assignment fits, and so does the name that it is assigned to. -/
structure AssignFitting
    (symbols : Symbols)
    (source : MethodDef)
    (names : Annotations)
    (name : String)
    (type : TypeName)
    (value : Expr) : Prop where
  fits : value.Fitting symbols source names true
  isName : (name, type) ∈ names
  notVoid : type.isVoid = false
  reachable : (source.isStatic && symbols.isField source.name name) = false
  object : (Stmt.assign name type value).assignsObject symbols source.name = true
  primitive : (Stmt.assign name type value).assignsPrimitive = true

/--
A statement is supported and its expression fits, with names that are given ones.
-/
def Fitting
    (symbols : Symbols)
    (source : MethodDef)
    (names : Annotations) : Stmt → Prop
  | .assign name type value => AssignFitting symbols source names name type value
  | .evaluate expr => expr.Fitting symbols source names false
  | .ret none => True
  | .ret (some expr) => expr.Fitting symbols source names true

variable {symbols : Symbols} {source : MethodDef} {names : Annotations}
  {known : Known} {stmt : Stmt}

/--
An assignment still fits if its value does, and is an object or a number as before.
-/
theorem AssignFitting.withValue
    {name : String}
    {type : TypeName}
    {value other : Expr}
    (fitting : AssignFitting symbols source names name type value)
    (otherFits : other.Fitting symbols source names true)
    (sameType : other.type = value.type)
    (sameObject :
      (Stmt.assign name type other).assignsObject symbols source.name =
        (Stmt.assign name type value).assignsObject symbols source.name) :
    AssignFitting symbols source names name type other where
  fits := otherFits
  isName := fitting.isName
  notVoid := fitting.notVoid
  reachable := fitting.reachable
  object := sameObject.trans fitting.object
  primitive := by
    simpa only [Stmt.assignsPrimitive, Expr.isPrimitive, sameType]
      using fitting.primitive

namespace Fitting

/-- A fitting statement is supported. -/
theorem isSupported
    (fitting : stmt.Fitting symbols source names) :
    stmt.isSupported symbols source = true := by
  cases stmt with
  | assign name type value =>
      rcases fitting with ⟨valueFits, _, notVoid, reachable, _, _⟩
      simp [Stmt.isSupported, valueFits.supported, notVoid, reachable]
  | evaluate expr => exact Expr.Fitting.supported fitting
  | ret result =>
      cases result with
      | none => rfl
      | some expr => exact Expr.Fitting.supported fitting

/-- A fitting statement assigns objects to names of objects. -/
theorem assignsObject
    (fitting : stmt.Fitting symbols source names) :
    stmt.assignsObject symbols source.name = true := by
  cases stmt with
  | assign name type value => exact AssignFitting.object fitting
  | evaluate expr => rfl
  | ret result => rfl

theorem substitute
    (agrees : known.Agrees names)
    (fitting : stmt.Fitting symbols source names) :
    (stmt.substitute known).Fitting symbols source names := by
  cases stmt with
  | assign name type value =>
      have valueFits := AssignFitting.fits fitting
      refine AssignFitting.withValue fitting (valueFits.substitute agrees)
        (Expr.substitute_type agrees valueFits) ?_
      cases value with
      | var other annotated =>
          unfold Expr.substitute
          split <;> rfl
      | _ => rfl
  | evaluate expr => exact Expr.Fitting.substitute agrees fitting
  | ret result =>
      cases result with
      | none => exact fitting
      | some expr => exact Expr.Fitting.substitute agrees fitting

theorem fold
    (fitting : stmt.Fitting symbols source names) :
    stmt.fold.Fitting symbols source names := by
  cases stmt with
  | assign name type value =>
      have valueFits := AssignFitting.fits fitting
      refine AssignFitting.withValue fitting valueFits.fold
        (Expr.fold_type valueFits) ?_
      cases value with
      | binary operator left right annotated =>
          unfold Expr.fold
          dsimp only
          split <;> rfl
      | _ => rfl
  | evaluate expr => exact Expr.Fitting.fold fitting
  | ret result =>
      cases result with
      | none => exact fitting
      | some expr => exact Expr.Fitting.fold fitting

end Fitting

end Stmt

/-- Whether a statement is supported does not depend on the body around it. -/
theorem Stmt.isSupported_withBody
    {symbols : Symbols}
    {source : MethodDef}
    (stmt : Stmt)
    (body : List Stmt) :
    stmt.isSupported symbols { source with body } =
      stmt.isSupported symbols source := by
  cases stmt with
  | assign name type value =>
      simp only [Stmt.isSupported, value.isSupported_withBody body]
  | evaluate expr => exact expr.isSupported_withBody body
  | ret result =>
      cases result with
      | none => rfl
      | some expr => exact expr.isSupported_withBody body

/-- Every name that is no field has one annotation. -/
def Annotations.OneType
    (symbols : Symbols)
    (method : String)
    (names : Annotations) : Prop :=
  ∀ first ∈ names, ∀ second ∈ names,
    first.1 = second.1 → symbols.isField method first.1 = false → first.2 = second.2

section

variable {symbols : Symbols} {source : MethodDef} {names : Annotations}
  {known : Known}

/-- A name becomes known by an assignment of its type only. -/
theorem Known.Agrees.knownAfter
    {stmt : Stmt}
    (oneType : names.OneType symbols source.name)
    (agrees : known.Agrees names)
    (fitting : stmt.Fitting symbols source names) :
    (stmt.knownAfter symbols source.name known).Agrees names := by
  cases stmt with
  | assign name type value =>
      intro other literal annotated isKnown isName
      rcases fitting with ⟨_, isAssigned, _, _, _, primitive⟩
      rcases Stmt.known_of_knownAfter primitive isKnown with
        ⟨rfl, notField, rfl⟩ | before
      · exact oneType _ isName _ isAssigned rfl notField
      · exact agrees other literal annotated before isName
  | evaluate expr => exact agrees
  | ret result => exact agrees

/-- A round keeps every statement fitting. -/
theorem roundBody_fitting
    {body : List Stmt}
    (oneType : names.OneType symbols source.name)
    (agrees : known.Agrees names)
    (fitting : ∀ stmt ∈ body, stmt.Fitting symbols source names) :
    ∀ stmt ∈ roundBody symbols source.name known body,
      stmt.Fitting symbols source names := by
  induction body generalizing known with
  | nil =>
      rintro _ ⟨⟩
  | cons first rest inductionHypothesis =>
      rw [List.forall_mem_cons] at fitting
      have substituted := fitting.1.substitute agrees
      rw [roundBody_cons, List.forall_mem_cons]
      exact ⟨substituted.fold,
        inductionHypothesis (agrees.knownAfter oneType substituted) fitting.2⟩

/-- Fitting statements stay fitting in all rounds. -/
theorem iterate_roundBody_fitting
    {body : List Stmt}
    (oneType : names.OneType symbols source.name)
    (fitting : ∀ stmt ∈ body, stmt.Fitting symbols source names)
    (count : Nat) :
    ∀ stmt ∈ (roundBody symbols source.name ∅)^[count] body,
      stmt.Fitting symbols source names := by
  induction count with
  | zero => exact fitting
  | succ count inductionHypothesis =>
      rw [Function.iterate_succ_apply']
      refine roundBody_fitting oneType ?_ inductionHypothesis
      simp [Known.Agrees]

/-- The statements of a supported method fit with the names of its body. -/
theorem MethodDef.Supported.fitting
    (supported : source.Supported symbols) :
    ∀ stmt ∈ source.body,
      stmt.Fitting symbols source (source.body.flatMap Stmt.annotatedNames) := by
  intro stmt member
  have isSupported := supported.body stmt member
  have operators := supported.annotated.operators stmt member
  have isName {name : String} {type : TypeName}
      (isPart : .var name type ∈ stmt.parts) :
      (name, type) ∈ source.body.flatMap Stmt.annotatedNames :=
    List.mem_flatMap.mpr ⟨stmt, member, Stmt.mem_annotatedNames isPart⟩
  cases stmt with
  | assign name type value =>
      simp only [Stmt.isSupported, Bool.and_eq_true, Bool.not_eq_true']
        at isSupported
      refine ⟨⟨isSupported.2, operators, fun _ _ isPart => isName isPart⟩, ?_,
        isSupported.1.1, isSupported.1.2, supported.objects _ member,
        supported.annotated.assignments _ member⟩
      exact List.mem_flatMap.mpr ⟨_, member, List.mem_cons_self⟩
  | evaluate expr => exact ⟨isSupported, operators, fun _ _ isPart => isName isPart⟩
  | ret result =>
      cases result with
      | none => trivial
      | some expr => exact ⟨isSupported, operators, fun _ _ isPart => isName isPart⟩

end

namespace Program

variable {symbols : Symbols} {program : Program}

/-- To optimize a program is to go through all rounds with each body. -/
theorem optimize_eq_mapBodies
    (symbols : Symbols)
    (program : Program) :
    program.optimize symbols =
      program.mapBodies fun method =>
        (roundBody symbols method.name ∅)^[maxRounds] method.body := by
  rw [optimize, runRounds_eq_iterate, iterate_round]

/-- The statements of an optimized program are supported. -/
theorem optimize_supported
    (supported : ∀ source ∈ program.mainClass.methods, source.Supported symbols) :
    ∀ source ∈ (program.optimize symbols).mainClass.methods, ∀ stmt ∈ source.body,
      stmt.isSupported symbols source = true ∧
        stmt.assignsObject symbols source.name = true := by
  rw [optimize_eq_mapBodies]
  generalize maxRounds = count
  intro optimized isOptimized stmt member
  rcases List.mem_map.mp isOptimized with ⟨source, isSource, rfl⟩
  have sourceSupported := supported source isSource
  have fitting :=
    iterate_roundBody_fitting sourceSupported.annotated.oneType
      sourceSupported.fitting count stmt member
  refine ⟨?_, fitting.assignsObject⟩
  rw [Stmt.isSupported_withBody]
  exact fitting.isSupported

end Program

end MiniJava
