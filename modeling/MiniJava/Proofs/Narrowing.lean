import MiniJava.Proofs.Semantics.Sites
import MiniJava.Proofs.Semantics.Typing

namespace MiniJava

/-!
# Narrower expressions and bodies

A part of a body is narrower than another if it can stand in its place as far as
names, annotations and calls go: it brings no new ones, declares the same names
and makes the same calls on parts that are annotated alike. What was in order
before is then in order after.
-/

open Code (CallKind)

namespace MethodDef

variable (symbols : Symbols) (method : MethodDef)

/-- An expression is narrower than another where the given names are declared. -/
structure NarrowsExpr (declared : List String) (source narrower : Expr) : Prop
    extends Expr.TypedLike symbols method.name source narrower where
  isVariable : ∀ {name type}, narrower = .var name type → source = narrower
  created : narrower.created? = source.created?
  after :
    method.afterExpr symbols declared narrower =
      method.afterExpr symbols declared source
  uses : method.exprUses symbols declared narrower ⊆
    method.exprUses symbols declared source
  names : narrower.names ⊆ source.names
  operators : narrower.operators ⊆ source.operators
  sites :
    List.Forall₂ (Site.Like symbols method.name)
      (method.exprSites symbols declared source)
      (method.exprSites symbols declared narrower)

/-- Expressions in a row are narrower than others. -/
structure NarrowsExprs
    (declared : List String)
    (sources narrowers : List Expr) : Prop where
  typed : List.Forall₂ (Expr.TypedLike symbols method.name) sources narrowers
  after :
    method.afterExprs symbols declared narrowers =
      method.afterExprs symbols declared sources
  uses :
    method.exprsUses symbols declared narrowers ⊆
      method.exprsUses symbols declared sources
  names : Expr.namesOfAll narrowers ⊆ Expr.namesOfAll sources
  operators : Expr.listOperators narrowers ⊆ Expr.listOperators sources
  sites :
    List.Forall₂ (Site.Like symbols method.name)
      (method.exprsSites symbols declared sources)
      (method.exprsSites symbols declared narrowers)

variable {symbols method} {declared : List String}

namespace NarrowsExprs

theorem nil :
    method.NarrowsExprs symbols declared [] [] where
  typed := .nil
  after := rfl
  uses := List.Subset.refl _
  names := List.Subset.refl _
  operators := List.Subset.refl _
  sites := by
    rw [exprsSites]
    exact .nil

/-- The expressions after the first see the names that it declares. -/
theorem cons
    {source narrower : Expr}
    {sources narrowers : List Expr}
    (onFirst : method.NarrowsExpr symbols declared source narrower)
    (onRest :
      method.NarrowsExprs symbols (method.afterExpr symbols declared source) sources
        narrowers) :
    method.NarrowsExprs symbols declared (source :: sources)
      (narrower :: narrowers) where
  typed := .cons onFirst.toTypedLike onRest.typed
  after := by
    rw [afterExprs, afterExprs, onFirst.after, onRest.after]
  uses := by
    rw [exprsUses, exprsUses, onFirst.after]
    exact append_subset_append onFirst.uses onRest.uses
  names := append_subset_append onFirst.names onRest.names
  operators := append_subset_append onFirst.operators onRest.operators
  sites := by
    rw [exprsSites, exprsSites, onFirst.after]
    exact List.rel_append onFirst.sites onRest.sites

end NarrowsExprs

namespace NarrowsExpr

theorem refl
    (expr : Expr) :
    method.NarrowsExpr symbols declared expr expr where
  toTypedLike := .refl expr
  isVariable _ := rfl
  created := rfl
  after := rfl
  uses := List.Subset.refl _
  names := List.Subset.refl _
  operators := List.Subset.refl _
  sites := List.forall₂_same.mpr fun site _ => .refl site

/-- A literal is narrower than a variable of its type that is declared already. -/
theorem replaced
    {name : String}
    {literal : Literal}
    (isDeclared : name ∈ declared) :
    method.NarrowsExpr symbols declared (.var name (Expr.literal literal).type)
      (.literal literal) where
  type := rfl
  keepsType _ := rfl
  isVariable := nofun
  created := rfl
  after := by
    rw [afterExpr, afterExpr]
    split
    · rw [List.insert_of_mem isDeclared]
    · rfl
  uses := List.nil_subset _
  names := List.nil_subset _
  operators := List.nil_subset _
  sites := by
    rw [exprSites, exprSites]
    exact .nil

theorem binary
    {operator : Operator}
    {left right narrowerLeft narrowerRight : Expr}
    {type : TypeName}
    (onLeft : method.NarrowsExpr symbols declared left narrowerLeft)
    (onRight :
      method.NarrowsExpr symbols (method.afterExpr symbols declared left) right
        narrowerRight) :
    method.NarrowsExpr symbols declared (.binary operator left right type)
      (.binary operator narrowerLeft narrowerRight type) where
  type := rfl
  keepsType _ := rfl
  isVariable := nofun
  created := rfl
  after := by
    rw [afterExpr, afterExpr, onLeft.after, onRight.after]
  uses := by
    rw [exprUses, exprUses, onLeft.after]
    exact append_subset_append onLeft.uses onRight.uses
  names := append_subset_append onLeft.names onRight.names
  operators :=
    List.cons_subset_cons
      _ (append_subset_append onLeft.operators onRight.operators)
  sites := by
    rw [exprSites, exprSites, onLeft.after]
    exact List.rel_append onLeft.sites onRight.sites

/--
A literal is narrower than an operator of its type on operands that
narrow to literals.
-/
theorem folded
    {operator : Operator}
    {left right : Expr}
    {leftLiteral rightLiteral literal : Literal}
    (onLeft : method.NarrowsExpr symbols declared left (.literal leftLiteral))
    (onRight :
      method.NarrowsExpr symbols (method.afterExpr symbols declared left) right
        (.literal rightLiteral))
    (isType : (Expr.literal literal).type = operator.resultType) :
    method.NarrowsExpr symbols declared
      (.binary operator left right operator.resultType) (.literal literal) where
  type := isType
  keepsType _ := rfl
  isVariable := nofun
  created := rfl
  after := by
    have afterLeft : declared = method.afterExpr symbols declared left :=
      onLeft.after
    have afterRight := onRight.after
    rw [← afterLeft] at afterRight
    rw [afterExpr, afterExpr, ← afterLeft, ← afterRight, afterExpr]
  uses := List.nil_subset _
  names := List.nil_subset _
  operators := List.nil_subset _
  sites := by
    -- What narrows to a literal makes no call.
    have ofLeft := onLeft.sites
    have ofRight := onRight.sites
    rw [exprSites.eq_def _ _ _ (.literal _), List.forall₂_nil_right_iff]
      at ofLeft ofRight
    rw [exprSites, exprSites, ofLeft, ofRight]
    exact .nil

theorem newArray
    {size narrower : Expr}
    {type : TypeName}
    (onSize : method.NarrowsExpr symbols declared size narrower) :
    method.NarrowsExpr symbols declared (.newArray size type)
      (.newArray narrower type) where
  type := rfl
  keepsType _ := rfl
  isVariable := nofun
  created := rfl
  after := by
    rw [afterExpr, afterExpr, onSize.after]
  uses := by
    rw [exprUses, exprUses]
    exact onSize.uses
  names := onSize.names
  operators := onSize.operators
  sites := by
    rw [exprSites, exprSites]
    exact onSize.sites

theorem element
    {array index narrowerArray narrowerIndex : Expr}
    {type : TypeName}
    (onArray : method.NarrowsExpr symbols declared array narrowerArray)
    (onIndex :
      method.NarrowsExpr symbols (method.afterExpr symbols declared array) index
        narrowerIndex) :
    method.NarrowsExpr symbols declared (.element array index type)
      (.element narrowerArray narrowerIndex type) where
  type := rfl
  keepsType _ := rfl
  isVariable := nofun
  created := rfl
  after := by
    rw [afterExpr, afterExpr, onArray.after, onIndex.after]
  uses := by
    rw [exprUses, exprUses, onArray.after]
    exact append_subset_append onArray.uses onIndex.uses
  names := append_subset_append onArray.names onIndex.names
  operators := append_subset_append onArray.operators onIndex.operators
  sites := by
    rw [exprSites, exprSites, onArray.after]
    exact List.rel_append onArray.sites onIndex.sites

theorem length
    {array narrower : Expr}
    {type : TypeName}
    (onArray : method.NarrowsExpr symbols declared array narrower) :
    method.NarrowsExpr symbols declared (.length array type)
      (.length narrower type) where
  type := rfl
  keepsType _ := rfl
  isVariable := nofun
  created := rfl
  after := by
    rw [afterExpr, afterExpr, onArray.after]
  uses := by
    rw [exprUses, exprUses]
    exact onArray.uses
  names := onArray.names
  operators := onArray.operators
  sites := by
    rw [exprSites, exprSites]
    exact onArray.sites

section

variable {target narrower : Expr} {name : String}

/--
A call on a narrower target that is no class finds its method in the same way.
-/
theorem callKind_of_not_static
    (onTarget : method.NarrowsExpr symbols declared target narrower)
    (notStatic : method.callKind symbols declared target name ≠ .static) :
    method.callKind symbols declared narrower name =
      method.callKind symbols declared target name := by
  have stillNotStatic :
      method.callKind symbols declared narrower name ≠ .static := by
    intro static
    obtain ⟨own, type, isVariable⟩ := Symbols.target_of_static static
    rw [← onTarget.isVariable isVariable] at static
    exact notStatic static
  calc method.callKind symbols declared narrower name
      = symbols.objectCallKind narrower.type name :=
        Symbols.callKind_of_not_static stillNotStatic
    _ = symbols.objectCallKind target.type name := by
        rw [onTarget.type]
    _ = method.callKind symbols declared target name :=
        (Symbols.callKind_of_not_static notStatic).symm

/--
The class of a static call is not evaluated, so only the same class
stands in its place.
-/
theorem callKind
    (onTarget : method.NarrowsExpr symbols declared target narrower)
    (keepsClass :
      method.callKind symbols declared target name = .static → narrower = target) :
    method.callKind symbols declared narrower name =
      method.callKind symbols declared target name := by
  by_cases static : method.callKind symbols declared target name = .static
  · rw [keepsClass static]
  · exact onTarget.callKind_of_not_static static

/-- A narrower target declares the same names in the place of a class. -/
theorem afterTarget
    (onTarget : method.NarrowsExpr symbols declared target narrower)
    (keepsClass :
      method.callKind symbols declared target name = .static → narrower = target) :
    method.afterTarget symbols declared narrower name =
      method.afterTarget symbols declared target name := by
  rw [MethodDef.afterTarget, MethodDef.afterTarget, onTarget.callKind keepsClass,
    onTarget.after]

/-- A call with a narrower target and narrower arguments is narrower. -/
theorem call
    {arguments narrowers : List Expr}
    {type : TypeName}
    (onTarget : method.NarrowsExpr symbols declared target narrower)
    (keepsClass :
      method.callKind symbols declared target name = .static → narrower = target)
    (onArguments :
      method.NarrowsExprs symbols (method.afterTarget symbols declared target name)
        arguments narrowers) :
    method.NarrowsExpr symbols declared (.call target name arguments type)
      (.call narrower name narrowers type) where
  type := rfl
  keepsType := id
  isVariable := nofun
  created := rfl
  after := by
    rw [afterExpr_call, afterExpr_call, onTarget.afterTarget keepsClass,
      onArguments.after]
  uses := by
    have ofArguments := onArguments.uses
    have sameKind := onTarget.callKind keepsClass
    by_cases static : method.callKind symbols declared target name = .static
    · obtain ⟨className, annotated, rfl⟩ := Symbols.target_of_static static
      rw [afterTarget_of_static static] at ofArguments
      rw [keepsClass static, exprUses_call_of_static static,
        exprUses_call_of_static static]
      exact List.cons_subset_cons _ ofArguments
    · rw [afterTarget_of_not_static static] at ofArguments
      rw [exprUses_call_of_not_static static,
        exprUses_call_of_not_static (sameKind ▸ static), onTarget.after]
      exact append_subset_append onTarget.uses ofArguments
  names := append_subset_append onTarget.names onArguments.names
  operators := append_subset_append onTarget.operators onArguments.operators
  sites := by
    rw [exprSites, exprSites, onTarget.callKind keepsClass,
      onTarget.afterTarget keepsClass]
    exact List.rel_append (List.rel_append onTarget.sites onArguments.sites)
      (.cons (.call onTarget.toTypedLike onArguments.typed) .nil)

end

end NarrowsExpr

/-- A statement is narrower than another where the given names are declared. -/
structure Narrows
    (symbols : Symbols)
    (method : MethodDef)
    (declared : List String)
    (source narrower : Stmt) : Prop where
  after :
    method.afterStmt symbols declared narrower =
      method.afterStmt symbols declared source
  uses : method.stmtUses symbols declared narrower ⊆
    method.stmtUses symbols declared source
  names : narrower.names ⊆ source.names
  operators : narrower.operators ⊆ source.operators
  assigns : narrower.assignsPrimitive = source.assignsPrimitive
  sites :
    List.Forall₂ (Site.Like symbols method.name)
      (method.stmtSites symbols declared source)
      (method.stmtSites symbols declared narrower)

namespace Narrows

theorem refl
    (stmt : Stmt) :
    method.Narrows symbols declared stmt stmt where
  after := rfl
  uses := List.Subset.refl _
  names := List.Subset.refl _
  operators := List.Subset.refl _
  assigns := rfl
  sites := List.forall₂_same.mpr fun site _ => .refl site

theorem trans
    {first second third : Stmt}
    (former : method.Narrows symbols declared first second)
    (latter : method.Narrows symbols declared second third) :
    method.Narrows symbols declared first third where
  after := latter.after.trans former.after
  uses := List.Subset.trans latter.uses former.uses
  names := List.Subset.trans latter.names former.names
  operators := List.Subset.trans latter.operators former.operators
  assigns := latter.assigns.trans former.assigns
  sites := forall₂_trans former.sites latter.sites Site.Like.trans

theorem assign
    {name : String}
    {type : TypeName}
    {source narrower : Expr}
    (onSource : method.NarrowsExpr symbols declared source narrower) :
    method.Narrows symbols declared (.assign name type source)
      (.assign name type narrower) where
  after := by
    simp only [afterStmt, onSource.after]
  uses := List.cons_subset_cons _ onSource.uses
  names := List.cons_subset_cons _ onSource.names
  operators := onSource.operators
  assigns := by
    simp only [Stmt.assignsPrimitive, Expr.isPrimitive, onSource.type]
  sites := by
    simp only [stmtSites, assignedSites, onSource.created]
    split
    · exact List.forall₂_same.mpr fun site _ => .refl site
    · exact onSource.sites

theorem evaluate
    {source narrower : Expr}
    (onSource : method.NarrowsExpr symbols declared source narrower) :
    method.Narrows symbols declared (.evaluate source) (.evaluate narrower) where
  after := onSource.after
  uses := onSource.uses
  names := onSource.names
  operators := onSource.operators
  assigns := rfl
  sites := onSource.sites

theorem ret
    {source narrower : Expr}
    (onSource : method.NarrowsExpr symbols declared source narrower) :
    method.Narrows symbols declared (.ret (some source))
      (.ret (some narrower)) where
  after := onSource.after
  uses := onSource.uses
  names := onSource.names
  operators := onSource.operators
  assigns := rfl
  sites := onSource.sites

end Narrows

/-- Statements are narrower than others, one by one. -/
inductive NarrowsBody
    (symbols : Symbols)
    (method : MethodDef) :
    List String → List Stmt → List Stmt → Prop where
  | nil
      {declared : List String} :
      NarrowsBody symbols method declared [] []
  | cons
      {declared : List String}
      {source narrower : Stmt}
      {sources narrowers : List Stmt}
      (here : method.Narrows symbols declared source narrower)
      (rest :
        NarrowsBody symbols method
          (method.afterStmt symbols declared source) sources narrowers) :
      NarrowsBody symbols method declared (source :: sources)
        (narrower :: narrowers)

namespace NarrowsBody

variable {sources narrowers : List Stmt}

theorem refl
    (stmts : List Stmt) :
    method.NarrowsBody symbols declared stmts stmts := by
  induction stmts generalizing declared with
  | nil =>
      exact .nil
  | cons first rest inductionHypothesis =>
      exact .cons (.refl first) inductionHypothesis

theorem trans
    {further : List Stmt}
    (former : method.NarrowsBody symbols declared sources narrowers)
    (latter : method.NarrowsBody symbols declared narrowers further) :
    method.NarrowsBody symbols declared sources further := by
  induction former generalizing further with
  | nil =>
      exact latter
  | cons here _ inductionHypothesis =>
      cases latter with
      | cons next rest =>
          rw [here.after] at rest
          exact .cons (here.trans next) (inductionHypothesis rest)

/-- Each statement is narrower than one of the others. -/
theorem exists_source
    (narrows : method.NarrowsBody symbols declared sources narrowers)
    {stmt : Stmt}
    (member : stmt ∈ narrowers) :
    ∃ source ∈ sources, ∃ declared,
      method.Narrows symbols declared source stmt := by
  induction narrows with
  | nil =>
      cases member
  | cons here _ inductionHypothesis =>
      rcases List.mem_cons.mp member with rfl | member
      · exact ⟨_, List.mem_cons_self, _, here⟩
      · obtain ⟨source, isSource, narrows⟩ := inductionHypothesis member
        exact ⟨source, List.mem_cons_of_mem _ isSource, narrows⟩

/-- A narrower body uses no more names. -/
theorem uses_subset
    (narrows : method.NarrowsBody symbols declared sources narrowers) :
    (method.pointsFrom symbols declared narrowers).flatMap
      (method.pointUses symbols) ⊆
      (method.pointsFrom symbols declared sources).flatMap
        (method.pointUses symbols) := by
  induction narrows with
  | nil =>
      exact List.Subset.refl _
  | cons here _ inductionHypothesis =>
      rw [pointsFrom, pointsFrom, List.flatMap_cons, List.flatMap_cons, here.after]
      exact append_subset_append here.uses inductionHypothesis

/-- The calls of narrower statements are those of the others. -/
theorem sites
    (narrows : method.NarrowsBody symbols declared sources narrowers) :
    List.Forall₂ (Site.Like symbols method.name)
      ((method.pointsFrom symbols declared sources).flatMap
        (method.pointSites symbols))
      ((method.pointsFrom symbols declared narrowers).flatMap
        (method.pointSites symbols)) := by
  induction narrows with
  | nil =>
      exact .nil
  | cons here _ inductionHypothesis =>
      rw [pointsFrom, pointsFrom, List.flatMap_cons, List.flatMap_cons, here.after]
      exact List.rel_append here.sites inductionHypothesis

end NarrowsBody

section

variable (symbols method) (body : List Stmt)

/-- What an expression declares does not depend on the body that it is in. -/
theorem afterExpr_withBody :
    ({ method with body } : MethodDef).afterExpr symbols =
      method.afterExpr symbols := by
  delta MethodDef.afterExpr
  rfl

theorem afterTarget_withBody
    (declared : List String)
    (target : Expr)
    (name : String) :
    ({ method with body } : MethodDef).afterTarget symbols declared target name =
      method.afterTarget symbols declared target name := by
  rw [afterTarget, afterTarget, afterExpr_withBody]
  rfl

theorem afterStmt_withBody :
    ({ method with body } : MethodDef).afterStmt symbols =
      method.afterStmt symbols := by
  funext declared stmt
  unfold afterStmt
  rw [afterExpr_withBody]

mutual

/-- What an expression uses names for does not depend on the body that it is in. -/
theorem exprUses_withBody
    (declared : List String) :
    ∀ expr,
      ({ method with body } : MethodDef).exprUses symbols declared expr =
        method.exprUses symbols declared expr
  | .literal _ => by rw [exprUses, exprUses]
  | .var _ _ => by rw [exprUses, exprUses]
  | .receiver _ => by rw [exprUses, exprUses]
  | .binary _ left right _ => by
      rw [exprUses, exprUses, exprUses_withBody declared left, afterExpr_withBody,
        exprUses_withBody _ right]
  | .call target name arguments _ => by
      by_cases static : method.callKind symbols declared target name = .static
      · obtain ⟨className, annotated, rfl⟩ := Symbols.target_of_static static
        have stillStatic :
            ({ method with body } : MethodDef).callKind symbols declared
              (.var className annotated) name = .static :=
          static
        rw [exprUses_call_of_static static, exprUses_call_of_static stillStatic,
          exprsUses_withBody _ arguments]
      · have stillNotStatic :
            ({ method with body } : MethodDef).callKind symbols declared
              target name ≠ .static :=
          static
        rw [exprUses_call_of_not_static static,
          exprUses_call_of_not_static stillNotStatic,
          exprUses_withBody declared target, afterExpr_withBody,
          exprsUses_withBody _ arguments]
  | .newObject _ _ => by rw [exprUses, exprUses]
  | .newArray size _ => by rw [exprUses, exprUses, exprUses_withBody declared size]
  | .element array index _ => by
      rw [exprUses, exprUses, exprUses_withBody declared array, afterExpr_withBody,
        exprUses_withBody _ index]
  | .length array _ => by rw [exprUses, exprUses, exprUses_withBody declared array]

theorem exprsUses_withBody
    (declared : List String) :
    ∀ exprs,
      ({ method with body } : MethodDef).exprsUses symbols declared exprs =
        method.exprsUses symbols declared exprs
  | [] => by rw [exprsUses, exprsUses]
  | first :: rest => by
      rw [exprsUses, exprsUses, exprUses_withBody declared first,
        afterExpr_withBody, exprsUses_withBody _ rest]

end

theorem stmtUses_withBody :
    ({ method with body } : MethodDef).stmtUses symbols =
      method.stmtUses symbols := by
  funext declared stmt
  unfold stmtUses
  simp only [exprUses_withBody]

mutual

/-- What an expression calls does not depend on the body that it is in. -/
theorem exprSites_withBody
    (declared : List String) :
    ∀ expr,
      ({ method with body } : MethodDef).exprSites symbols declared expr =
        method.exprSites symbols declared expr
  | .literal _ => by rw [exprSites, exprSites]
  | .var _ _ => by rw [exprSites, exprSites]
  | .receiver _ => by rw [exprSites, exprSites]
  | .binary _ left right _ => by
      rw [exprSites, exprSites, exprSites_withBody declared left,
        afterExpr_withBody, exprSites_withBody _ right]
  | .call target _ arguments _ => by
      rw [exprSites, exprSites, exprSites_withBody declared target,
        afterTarget_withBody, exprsSites_withBody _ arguments]
      rfl
  | .newObject _ _ => by rw [exprSites, exprSites]
  | .newArray size _ =>
      by rw [exprSites, exprSites, exprSites_withBody declared size]
  | .element array index _ => by
      rw [exprSites, exprSites, exprSites_withBody declared array,
        afterExpr_withBody, exprSites_withBody _ index]
  | .length array _ =>
      by rw [exprSites, exprSites, exprSites_withBody declared array]

theorem exprsSites_withBody
    (declared : List String) :
    ∀ exprs,
      ({ method with body } : MethodDef).exprsSites symbols declared exprs =
        method.exprsSites symbols declared exprs
  | [] => by rw [exprsSites, exprsSites]
  | first :: rest => by
      rw [exprsSites, exprsSites, exprSites_withBody declared first,
        afterExpr_withBody, exprsSites_withBody _ rest]

end

theorem stmtSites_withBody :
    ({ method with body } : MethodDef).stmtSites symbols =
      method.stmtSites symbols := by
  funext declared stmt
  unfold stmtSites assignedSites
  simp only [exprSites_withBody]

/-- Statements stand at the same points in every body. -/
theorem pointsFrom_withBody
    (declared : List String)
    (stmts : List Stmt) :
    ({ method with body } : MethodDef).pointsFrom symbols declared stmts =
      method.pointsFrom symbols declared stmts := by
  induction stmts generalizing declared with
  | nil =>
      rfl
  | cons first rest inductionHypothesis =>
      rw [pointsFrom, pointsFrom, inductionHypothesis, afterStmt_withBody]

/-- The uses of names in another body. -/
theorem uses_withBody :
    ({ method with body } : MethodDef).uses symbols =
      (method.pointsFrom symbols (method.firstNames symbols) body).flatMap
        (method.pointUses symbols) := by
  have samePoint :
      ({ method with body } : MethodDef).pointUses symbols =
        method.pointUses symbols := by
    funext point
    rw [pointUses, stmtUses_withBody]
    rfl
  rw [uses, points, pointsFrom_withBody, samePoint]
  rfl

/-- The calls of another body. -/
theorem sites_withBody :
    ({ method with body } : MethodDef).sites symbols =
      (method.pointsFrom symbols (method.firstNames symbols) body).flatMap
        (method.pointSites symbols) := by
  have samePoint :
      ({ method with body } : MethodDef).pointSites symbols =
        method.pointSites symbols := by
    funext point
    rw [pointSites, stmtSites_withBody]
    rfl
  rw [sites, points, pointsFrom_withBody, samePoint]
  rfl

variable {symbols method body}

/-- Narrower statements are so in every body. -/
theorem Narrows.ofWithBody
    {source narrower : Stmt}
    (narrows :
      ({ method with body } : MethodDef).Narrows symbols declared source narrower) :
    method.Narrows symbols declared source narrower where
  after := by
    rw [← afterStmt_withBody symbols method body]
    exact narrows.after
  uses := by
    rw [← stmtUses_withBody symbols method body]
    exact narrows.uses
  names := narrows.names
  operators := narrows.operators
  assigns := narrows.assigns
  sites := by
    rw [← stmtSites_withBody symbols method body]
    exact narrows.sites

/-- Which body a method has says nothing of what narrows. -/
theorem NarrowsBody.ofWithBody
    {sources narrowers : List Stmt}
    (narrows :
      ({ method with body } : MethodDef).NarrowsBody symbols declared sources
        narrowers) :
    method.NarrowsBody symbols declared sources narrowers := by
  induction narrows with
  | nil =>
      exact .nil
  | cons here _ inductionHypothesis =>
      rw [afterStmt_withBody] at inductionHypothesis
      exact .cons here.ofWithBody inductionHypothesis

end

/-- A body is narrower than that of the method. -/
def NarrowsOwn (symbols : Symbols) (method : MethodDef) (body : List Stmt) : Prop :=
  method.NarrowsBody symbols (method.firstNames symbols) method.body body

namespace NarrowsOwn

variable {body : List Stmt}

/-- A method with a narrower body uses no more names. -/
theorem uses_subset
    (narrows : method.NarrowsOwn symbols body) :
    ({ method with body } : MethodDef).uses symbols ⊆ method.uses symbols := by
  rw [uses_withBody]
  exact NarrowsBody.uses_subset narrows

/-- A method with a narrower body has no more names. -/
theorem names_subset
    (narrows : method.NarrowsOwn symbols body) :
    ({ method with body } : MethodDef).names ⊆ method.names := by
  intro name isName
  obtain ⟨stmt, member, inStmt⟩ := List.mem_flatMap.mp isName
  obtain ⟨source, isSource, _, narrower⟩ := NarrowsBody.exists_source narrows member
  exact stmt_names_subset isSource (narrower.names inStmt)

/-- The calls of a narrower body are those of the method. -/
theorem sites
    (narrows : method.NarrowsOwn symbols body) :
    List.Forall₂ (Site.Like symbols method.name) (method.sites symbols)
      (({ method with body } : MethodDef).sites symbols) := by
  rw [sites_withBody symbols method body]
  exact NarrowsBody.sites narrows

/-- Names stay apart in a narrower body. -/
theorem namesApart
    (narrows : method.NarrowsOwn symbols body)
    (apart : method.NamesApart symbols) :
    ({ method with body } : MethodDef).NamesApart symbols where
  declared name isName := apart.declared name (narrows.names_subset isName)
  separate first isFirst second isSecond :=
    apart.separate first (narrows.uses_subset isFirst) second
      (narrows.uses_subset isSecond)

/-- Annotations still fit together in a narrower body. -/
theorem annotated
    (narrows : method.NarrowsOwn symbols body)
    (annotated : method.Annotated symbols) :
    ({ method with body } : MethodDef).Annotated symbols where
  oneType first isFirst second isSecond :=
    annotated.oneType first (narrows.uses_subset isFirst) second
      (narrows.uses_subset isSecond)
  operators stmt member operator isOperator := by
    obtain ⟨source, isSource, _, narrower⟩ :=
      NarrowsBody.exists_source narrows member
    exact annotated.operators source isSource operator
      (narrower.operators isOperator)
  assignments stmt member := by
    obtain ⟨source, isSource, _, narrower⟩ :=
      NarrowsBody.exists_source narrows member
    rw [narrower.assigns]
    exact annotated.assignments source isSource

end NarrowsOwn

end MethodDef

end MiniJava
