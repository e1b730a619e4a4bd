import MiniJava.Proofs.ExposedReads
import MiniJava.Proofs.LoweredExpressions
import MiniJava.Proofs.Semantics.Reads

namespace MiniJava.Scene

/-!
# Reads of lowered expressions

The instructions for an expression read what the expression reads, and write to
new temporaries only. Each temporary is written before it is read. An operand
that is a variable is not read yet; it is read by the instruction that takes it.
So what an expression reads shows in its instructions and its operand together.
-/

open Code (Operand ValueType Instr)
open Register (operandsOf Reads LetsPass ReadsFirst)

variable {Event : Type} (scene : Scene Event)

/-- A name that stands for no class. -/
def IsVariable (name : String) : Prop :=
  Use.className name ∉ scene.method.uses scene.symbols

/--
Instructions read a name first, or let it pass to operands that are read after them.
-/
def Shows (name : String) (added : List Instr) (operands : List Operand) : Prop :=
  ReadsFirst name added ∨
    (∀ instr ∈ added, LetsPass name instr) ∧ ∃ operand ∈ operands,
      operand.name? = some name

/--
A part of lowering gives operands and adds instructions that write to new
temporaries only. With the operands, they read some names of the body first. The
given names are declared afterwards.
-/
structure Surfaces
    (declared : List String)
    (assigned? : Option TypeName)
    (state after : Lowering)
    (operands : List Operand)
    (reads : List String) : Prop where
  ready : scene.Ready declared assigned? after
  named : ∀ name ∈ reads, ¬scene.Fresh 0 name
  adds :
    ∃ added,
      after.instrs = state.instrs ++ added ∧
        (∀ name, ¬scene.Fresh 0 name → ∀ instr ∈ added, LetsPass name instr) ∧
          ∀ name, scene.IsVariable name → (Shows name added operands ↔ name ∈ reads)

variable {scene} {declared : List String} {assigned? : Option TypeName}
  {state between after : Lowering}

theorem shows_append_iff
    {name : String}
    {first second : List Instr}
    {operands : List Operand} :
    Shows name (first ++ second) operands ↔
      ReadsFirst name first ∨
        (∀ instr ∈ first, LetsPass name instr) ∧ Shows name second operands := by
  simp only [Shows, ReadsFirst, Exposed.append_iff, List.forall_mem_append]
  tauto

theorem shows_singleton_iff
    {name : String}
    {instr : Instr}
    {operands : List Operand} :
    Shows name [instr] operands ↔
      Reads name instr ∨
        LetsPass name instr ∧ ∃ operand ∈ operands, operand.name? = some name := by
  simp [Shows, ReadsFirst]

namespace Surfaces

variable {operands others : List Operand} {reads otherReads : List String}

/-- Operands that take no instruction are read as they stand. -/
theorem nothing
    (ready : scene.Ready declared assigned? state)
    (named : ∀ name ∈ reads, ¬scene.Fresh 0 name)
    (same :
      ∀ name, scene.IsVariable name →
        ((∃ operand ∈ operands, operand.name? = some name) ↔ name ∈ reads)) :
    scene.Surfaces declared assigned? state state operands reads := by
  refine ⟨ready, named, [], by simp, by simp, fun name isVariable => ?_⟩
  rw [← same name isVariable]
  simp [Shows, ReadsFirst]

theorem receiver
    (ready : scene.Ready declared assigned? state) :
    scene.Surfaces declared assigned? state state
      [.receiver scene.symbols.className] [Operand.receiverName] := by
  refine nothing ready ?_ fun name _ => ?_
  · rintro name member
    obtain rfl := List.mem_singleton.mp member
    exact not_fresh_receiverName 0
  · simp [Operand.receiver, Operand.name?, eq_comm]

/-- Two parts in sequence read what one of them reads. -/
theorem trans
    {before : List String}
    (first : scene.Surfaces before assigned? state between operands reads)
    (second : scene.Surfaces declared assigned? between after others otherReads) :
    scene.Surfaces declared assigned? state after (operands ++ others)
      (reads ++ otherReads) := by
  obtain ⟨_, firstNamed, added, isBetween, firstPass, firstShows⟩ := first
  obtain ⟨ready, secondNamed, later, isAfter, secondPass, secondShows⟩ := second
  have named : ∀ name ∈ reads ++ otherReads, ¬scene.Fresh 0 name :=
    List.forall_mem_append.mpr ⟨firstNamed, secondNamed⟩
  refine ⟨ready, named, added ++ later, by simp [isAfter, isBetween], ?_, ?_⟩
  · intro name notFresh
    exact List.forall_mem_append.mpr
      ⟨firstPass name notFresh, secondPass name notFresh⟩
  · intro name isVariable
    have inFirst := firstShows name isVariable
    have inSecond := secondShows name isVariable
    rw [shows_append_iff, List.mem_append]
    simp only [Shows, List.mem_append, or_and_right, exists_or]
      at inFirst inSecond ⊢
    -- A name of the body passes both parts; a temporary is read first by neither of
    -- them.
    by_cases fresh : scene.Fresh 0 name
    · have notFirst : name ∉ reads := fun isRead => firstNamed name isRead fresh
      have notSecond : name ∉ otherReads :=
        fun isRead => secondNamed name isRead fresh
      grind
    · have passesFirst := firstPass name fresh
      have passesSecond := secondPass name fresh
      grind

/--
What an instruction reads is read with it, and its operands can be used again.
-/
theorem emit
    (instr : Instr)
    (surfaces :
      scene.Surfaces declared assigned? state between (operandsOf instr) reads)
    (notReturn : instr.isReturn = false)
    (intoFresh : ∀ name, instr.destination? = some name → scene.Fresh 0 name)
    (kept :
      ∀ operand ∈ operands, operand ∈ operandsOf instr ∨
        operand.name? = instr.destination?) :
    scene.Surfaces declared assigned? state
      (between.changeMethod fun method =>
        { method with instrs := method.instrs ++ [instr] })
      operands reads := by
  obtain ⟨ready, named, added, isBetween, passes, shows⟩ := surfaces
  refine ⟨ready.emit instr, named, added ++ [instr], ?_, ?_, ?_⟩
  · rw [instrs_emit ready, isBetween, List.append_assoc]
  · intro name notFresh
    refine List.forall_mem_append.mpr
      ⟨passes name notFresh, List.forall_mem_singleton.mpr ?_⟩
    exact ⟨fun isWritten => notFresh (intoFresh name isWritten), notReturn⟩
  · intro name isVariable
    rw [← shows name isVariable, shows_append_iff, shows_singleton_iff, Shows]
    refine or_congr_right (and_congr_right fun _ => or_iff_left_of_imp ?_)
    rintro ⟨⟨unwritten, _⟩, operand, isKept, isName⟩
    rcases kept operand isKept with isOperand | isDestination
    · exact ⟨operand, isOperand, isName⟩
    · exact absurd (isDestination.symm.trans isName) unwritten

/-- A variable that is declared changes nothing of what is read. -/
theorem declare
    (surfaces : scene.Surfaces declared assigned? state after operands reads)
    (name : String)
    (type : ValueType)
    (scope : Code.Scope) :
    scene.Surfaces (declared.insert name) assigned? state
      (after.changeMethod fun method => method.declare name type scope) operands
        reads where
  ready := surfaces.ready.declare name type scope
  named := surfaces.named
  adds := by
    rw [instrs_declare]
    exact surfaces.adds

/--
What is stored in a new temporary is read, whether the temporary is used or not.
-/
theorem intoTemporary
    {type : ValueType}
    {instr : Instr}
    {dest : Operand}
    (surfaces :
      scene.Surfaces declared assigned? state between (operandsOf instr) reads)
    (ran : Lower.intoTemporary scene.symbols type instr between = .ok dest after)
    (kept : ∀ operand ∈ operands, operand = dest) :
    scene.Surfaces declared assigned? state after operands reads := by
  obtain ⟨named, temporaryRan, rfl⟩ := Lower.intoTemporary_ok ran
  obtain ⟨number, rfl, fresh, _, _, sameInstrs, _, ready⟩ :=
    temporary_ok surfaces.ready temporaryRan
  have surfacesNamed :
      scene.Surfaces declared assigned? state named (operandsOf instr) reads :=
    ⟨ready, surfaces.named, by simpa only [sameInstrs] using surfaces.adds⟩
  refine surfacesNamed.emit (.store _ instr) rfl ?_ ?_
  · rintro name isWritten
    cases isWritten
    exact fresh.mono (Nat.zero_le _)
  · intro operand isKept
    rw [kept operand isKept]
    exact .inr rfl

theorem underAssignment
    {before : List String}
    {type : TypeName}
    (ready : scene.Ready before assigned? state)
    (inner :
      scene.Surfaces declared (some type) { state with assigned? := some type }
        after operands reads) :
    scene.Surfaces declared assigned? state
      { after with assigned? := state.assigned? } operands reads where
  ready := ⟨ready.assigned, inner.ready.current⟩
  named := inner.named
  adds := inner.adds

end Surfaces

/--
What lowering an expression of the body reads, with its operand and without it.
-/
def ExprSurfaces (scene : Scene Event) (expr : Expr) : Prop :=
  ∀ {declared : List String} {assigned? : Option TypeName} {state after : Lowering}
    {lowered : Operand},
    scene.method.exprUses scene.symbols declared expr ⊆
      scene.method.uses scene.symbols →
    scene.Ready declared assigned? state →
    Lower.expr scene.symbols expr state = .ok lowered after →
    scene.Surfaces (scene.after declared expr) assigned? state after [lowered]
        (scene.method.exprReads scene.symbols declared expr) ∧
      scene.Surfaces (scene.after declared expr) assigned? state after []
        (scene.method.stmtReads scene.symbols declared (.evaluate expr))

/-- An operation reads what its operands read, also if its result is not used. -/
theorem Surfaces.operation
    {before : List String}
    {expr : Expr}
    {type : ValueType}
    {instr : Instr}
    {dest : Operand}
    (surfaces :
      scene.Surfaces declared assigned? state between (operandsOf instr)
        (scene.method.exprReads scene.symbols before expr))
    (isOperation : scene.method.isAtom scene.symbols expr = false)
    (ran : Lower.intoTemporary scene.symbols type instr between = .ok dest after) :
    scene.Surfaces declared assigned? state after [dest]
        (scene.method.exprReads scene.symbols before expr) ∧
      scene.Surfaces declared assigned? state after []
        (scene.method.stmtReads scene.symbols before (.evaluate expr)) := by
  simp only [MethodDef.stmtReads, isOperation, Bool.false_eq_true, if_false]
  exact ⟨surfaces.intoTemporary ran (by simp), surfaces.intoTemporary ran (by simp)⟩

/--
A variable is read where its operand is, and a field is read from
the receiver at once.
-/
theorem nameRead_surfaces
    {name : String}
    {type : TypeName}
    {lowered : Operand}
    (notFresh : ¬scene.Fresh 0 name)
    (ready : scene.Ready declared assigned? state)
    (ran : Lower.nameRead scene.symbols name type state = .ok lowered after) :
    scene.Surfaces (scene.after declared (.var name type)) assigned? state after
      [lowered]
        (scene.method.exprReads scene.symbols declared (.var name type)) ∧
      scene.Surfaces (scene.after declared (.var name type)) assigned? state
        after []
        (scene.method.stmtReads scene.symbols declared
          (.evaluate (.var name type))) := by
  obtain ⟨_, _, gotten, rest⟩ := bind_ok_iff.mp ran
  obtain ⟨rfl, rfl⟩ := get_ok_iff.mp gotten
  rw [ready.isField] at rest
  cases field : scene.isField name with
  | true =>
      have fieldOfMethod : scene.symbols.isField scene.method.name name = true :=
        field
      have isRead :
          scene.method.exprReads scene.symbols declared (.var name type) =
            [Operand.receiverName] := by
        simp [MethodDef.exprReads, fieldOfMethod]
      have isOperation :
          scene.method.isAtom scene.symbols (.var name type) = false := by
        simp [MethodDef.isAtom, fieldOfMethod]
      have isAfter : scene.after declared (.var name type) = declared := by
        simp [Scene.after, MethodDef.afterExpr, MethodDef.declaresOnRead,
          fieldOfMethod]
      rw [if_pos field] at rest
      rw [isAfter]
      refine Surfaces.operation ?_ isOperation rest
      rw [isRead]
      exact .receiver ready
  | false =>
      have notField : scene.symbols.isField scene.method.name name = false := field
      have isRead : scene.method.exprReads scene.symbols declared (.var name type) =
        [name] := by
        simp [MethodDef.exprReads, notField]
      have isUnread :
          scene.method.stmtReads scene.symbols declared
            (.evaluate (.var name type)) = [] := by
        simp [MethodDef.stmtReads, MethodDef.isAtom, notField]
      have variableRead (annotated : ValueType) :
          scene.Surfaces declared assigned? state state [.var name annotated]
            [name] := by
        refine .nothing ready ?_ fun other _ => by simp [Operand.name?, eq_comm]
        intro other member
        obtain rfl := List.mem_singleton.mp member
        exact notFresh
      have unread : scene.Surfaces declared assigned? state state [] [] :=
        .nothing ready (by simp) (by simp)
      rw [ready.isParam, if_neg (by simp [field])] at rest
      rw [isRead, isUnread]
      simp only [Scene.after, MethodDef.afterExpr, MethodDef.declaresOnRead,
        notField, Bool.not_false, Bool.true_and, Bool.and_eq_true,
        Bool.not_eq_true']
      by_cases imported : type.isImported = true
      · rw [if_pos imported] at rest
        obtain ⟨rfl, rfl⟩ := pure_ok_iff.mp rest
        simp only [imported, Bool.true_eq_false, false_and, if_false]
        exact ⟨variableRead _, unread⟩
      · rw [if_neg imported] at rest
        simp only [imported, true_and]
        split at rest
        case isTrue notParam =>
          obtain ⟨_, _, declared, returned⟩ := bind_ok_iff.mp rest
          obtain rfl := modify_ok_iff.mp declared
          obtain ⟨rfl, rfl⟩ := pure_ok_iff.mp returned
          rw [if_pos (by simpa using notParam)]
          exact ⟨(variableRead _).declare name _ _, unread.declare name _ _⟩
        case isFalse param =>
          obtain ⟨rfl, rfl⟩ := pure_ok_iff.mp rest
          rw [if_neg (by simpa using param)]
          exact ⟨variableRead _, unread⟩

/-- Expressions are read from left to right. -/
theorem exprs_surface
    {exprs : List Expr}
    {lowered : List Operand}
    (each : ∀ expr ∈ exprs, scene.ExprSurfaces expr)
    (inside :
      scene.method.exprsUses scene.symbols declared exprs ⊆
        scene.method.uses scene.symbols)
    (ready : scene.Ready declared assigned? state)
    (ran : Lower.exprs scene.symbols exprs state = .ok lowered after) :
    scene.Surfaces (scene.afterAll declared exprs) assigned? state after lowered
      (scene.method.exprsReads scene.symbols declared exprs) := by
  induction exprs generalizing declared state lowered with
  | nil =>
      rw [Lower.exprs] at ran
      obtain ⟨rfl, rfl⟩ := pure_ok_iff.mp ran
      exact .nothing ready (by simp [MethodDef.exprsReads])
        (by simp [MethodDef.exprsReads])
  | cons first rest inductionHypothesis =>
      rw [MethodDef.exprsUses, List.append_subset] at inside
      rw [Lower.exprs] at ran
      obtain ⟨operand, between, firstRan, ran⟩ := bind_ok_iff.mp ran
      obtain ⟨operands, _, restRan, returned⟩ := bind_ok_iff.mp ran
      obtain ⟨rfl, rfl⟩ := pure_ok_iff.mp returned
      have firstSurfaces :=
        (each first List.mem_cons_self inside.1 ready firstRan).1
      have restSurfaces :=
        inductionHypothesis
          (fun expr member => each expr (List.mem_cons_of_mem _ member))
          inside.2 firstSurfaces.ready restRan
      rw [MethodDef.exprsReads, scene.afterAll_cons]
      exact firstSurfaces.trans restSurfaces

/--
The target of a call is read first and then the arguments; a class is not read.
-/
theorem call_surfaces
    {target : Expr}
    {method : String}
    {arguments : List Expr}
    {type : TypeName}
    {used : Bool}
    {instr : Instr}
    (named : scene.method.TemporariesDeclared scene.symbols)
    (targetSurfaces : scene.ExprSurfaces target)
    (argumentsSurface : ∀ argument ∈ arguments, scene.ExprSurfaces argument)
    (inside :
      scene.method.exprUses scene.symbols declared
        (.call target method arguments type) ⊆ scene.method.uses scene.symbols)
    (ready : scene.Ready declared assigned? state)
    (ran :
      Lower.call scene.symbols target method arguments type used state =
        .ok instr after) :
    ∃ kind receiver lowered result,
      instr = .call kind receiver method lowered result ∧
        scene.Surfaces (scene.after declared (.call target method arguments type))
          assigned? state after (receiver :: lowered)
          (scene.method.exprReads scene.symbols declared
            (.call target method arguments type)) := by
  have sameKind :
      state.callKind scene.symbols target method =
        scene.callKind declared target method := by
    refine ready.callKind ?_
    rintro name annotated rfl
    exact not_fresh_of_named named
      (MethodDef.target_name_mem_names inside) 0
  obtain ⟨receiver, between, lowered, rfl, argumentsRan, targetRan⟩ :=
    Lower.callWith_ok ran
  refine ⟨_, receiver, lowered, _, rfl, ?_⟩
  rw [sameKind] at targetRan
  rw [scene.after_call]
  rcases targetRan with
    ⟨name, annotated, rfl, static, rfl, rfl⟩ | ⟨notStatic, targetRan⟩
  · have isAfter :
        scene.afterTarget declared (.var name annotated) method = declared :=
      MethodDef.afterTarget_of_static static
    rw [MethodDef.exprUses_call_of_static static, List.cons_subset] at inside
    have isClass :
        scene.Surfaces declared assigned? between between [.classRef name] [] := by
      refine .nothing ready (by simp) fun other isVariable => ?_
      have different : name ≠ other := by
        rintro rfl
        exact isVariable inside.1
      simp [Operand.classRef, Operand.name?, different]
    rw [MethodDef.exprReads_call_of_static static, isAfter]
    exact isClass.trans (exprs_surface argumentsSurface inside.2 ready argumentsRan)
  · have isAfter :
        scene.afterTarget declared target method = scene.after declared target :=
      MethodDef.afterTarget_of_not_static notStatic
    rw [MethodDef.exprUses_call_of_not_static notStatic, List.append_subset]
      at inside
    have targetReads := (targetSurfaces inside.1 ready targetRan).1
    rw [MethodDef.exprReads_call_of_not_static notStatic, isAfter]
    exact targetReads.trans
      (exprs_surface argumentsSurface inside.2 targetReads.ready argumentsRan)

/-- The code of an expression reads first what the expression reads. -/
theorem expr_surfaces
    (named : scene.method.TemporariesDeclared scene.symbols)
    (expr : Expr) :
    scene.ExprSurfaces expr := by
  induction expr with
  | literal value =>
      intro declared assigned? state after lowered inside ready ran
      cases value <;>
      · rw [Lower.expr] at ran
        obtain ⟨rfl, rfl⟩ := pure_ok_iff.mp ran
        rw [Scene.after, MethodDef.afterExpr]
        constructor
        · exact .nothing ready (by simp [MethodDef.exprReads])
            (by
              simp [MethodDef.exprReads, Operand.name?, Operand.int,
                Operand.boolean])
        · exact .nothing ready (by simp [MethodDef.stmtReads, MethodDef.isAtom])
            (by simp [MethodDef.stmtReads, MethodDef.isAtom])
  | var name type =>
      intro declared assigned? state after lowered inside ready ran
      rw [Lower.expr] at ran
      rw [MethodDef.exprUses, List.cons_subset] at inside
      have isName : name ∈ scene.method.names := MethodDef.name_mem_names inside.1
      exact nameRead_surfaces (not_fresh_of_named named isName 0) ready ran
  | receiver type =>
      intro declared assigned? state after lowered inside ready ran
      rw [Lower.expr] at ran
      obtain ⟨rfl, rfl⟩ := pure_ok_iff.mp ran
      rw [MethodDef.exprReads, Scene.after, MethodDef.afterExpr]
      exact ⟨.receiver ready,
        .nothing ready (by simp [MethodDef.stmtReads, MethodDef.isAtom])
        (by simp [MethodDef.stmtReads, MethodDef.isAtom])⟩
  | binary operator left right type leftHypothesis rightHypothesis =>
      intro declared assigned? state after lowered inside ready ran
      rw [MethodDef.exprUses, List.append_subset] at inside
      rw [Lower.expr] at ran
      obtain ⟨leftOperand, _, leftRan, ran⟩ := bind_ok_iff.mp ran
      obtain ⟨rightOperand, _, rightRan, storeRan⟩ := bind_ok_iff.mp ran
      have leftSurfaces := (leftHypothesis inside.1 ready leftRan).1
      have rightSurfaces := (rightHypothesis inside.2 leftSurfaces.ready rightRan).1
      refine Surfaces.operation ?_ rfl storeRan
      rw [MethodDef.exprReads, scene.after_binary]
      exact leftSurfaces.trans rightSurfaces
  | call target method arguments type targetHypothesis argumentsHypothesis =>
      intro declared assigned? state after lowered inside ready ran
      rw [Lower.expr] at ran
      obtain ⟨call, _, callRan, valueRan⟩ := bind_ok_iff.mp ran
      obtain ⟨kind, receiver, operands, result, rfl, surfaces⟩ :=
        call_surfaces named targetHypothesis argumentsHypothesis inside
          ready callRan
      exact Surfaces.operation surfaces rfl (Lower.callValue_ok valueRan)
  | newObject className type =>
      intro declared assigned? state after lowered inside ready ran
      rw [Lower.expr] at ran
      obtain ⟨object, _, storeRan, ran⟩ := bind_ok_iff.mp ran
      obtain ⟨_, _, constructRan, returned⟩ := bind_ok_iff.mp ran
      obtain rfl := modify_ok_iff.mp constructRan
      obtain ⟨rfl, rfl⟩ := pure_ok_iff.mp returned
      have readsNothing :
          scene.Surfaces declared assigned? state state
            (operandsOf (.newObject className (.object className))) [] :=
        .nothing ready (by simp) (by simp [operandsOf])
      -- The constructor reads the temporary, which has just been written.
      have created : scene.Surfaces declared assigned? state _ [object] [] :=
        readsNothing.intoTemporary storeRan (by simp)
      have constructed {kept : List Operand} (among : kept ⊆ [object]) :
          scene.Surfaces declared assigned? state _ kept [] :=
        created.emit (.construct object) rfl
          (by simp [Instr.construct, Instr.destination?])
          (fun operand isKept => .inl (among isKept))
      simp only [Scene.after, MethodDef.afterExpr, MethodDef.exprReads,
        MethodDef.stmtReads, MethodDef.isAtom, Bool.false_eq_true, if_false]
      exact ⟨constructed (List.Subset.refl _), constructed (List.nil_subset _)⟩
  | newArray size type sizeHypothesis =>
      intro declared assigned? state after lowered inside ready ran
      rw [MethodDef.exprUses] at inside
      rw [Lower.expr] at ran
      obtain ⟨sizeOperand, _, sizeRan, storeRan⟩ := bind_ok_iff.mp ran
      refine Surfaces.operation ?_ rfl storeRan
      rw [MethodDef.exprReads, scene.after_newArray]
      exact (sizeHypothesis inside ready sizeRan).1
  | element array index type arrayHypothesis indexHypothesis =>
      intro declared assigned? state after lowered inside ready ran
      rw [MethodDef.exprUses, List.append_subset] at inside
      rw [Lower.expr] at ran
      obtain ⟨arrayOperand, _, arrayRan, ran⟩ := bind_ok_iff.mp ran
      obtain ⟨indexOperand, _, indexRan, storeRan⟩ := bind_ok_iff.mp ran
      have arraySurfaces := (arrayHypothesis inside.1 ready arrayRan).1
      have indexSurfaces :=
        (indexHypothesis inside.2 arraySurfaces.ready indexRan).1
      refine Surfaces.operation ?_ rfl storeRan
      rw [MethodDef.exprReads, scene.after_element]
      exact arraySurfaces.trans indexSurfaces
  | length array type arrayHypothesis =>
      intro declared assigned? state after lowered inside ready ran
      rw [MethodDef.exprUses] at inside
      rw [Lower.expr] at ran
      obtain ⟨arrayOperand, _, arrayRan, storeRan⟩ := bind_ok_iff.mp ran
      refine Surfaces.operation ?_ rfl storeRan
      rw [MethodDef.exprReads, scene.after_length]
      exact (arrayHypothesis inside ready arrayRan).1

/-- The value of an assignment reads with its operands what its expression reads. -/
theorem value_surfaces
    {source : Expr}
    {instr : Instr}
    (named : scene.method.TemporariesDeclared scene.symbols)
    (inside :
      scene.method.exprUses scene.symbols declared source ⊆
        scene.method.uses scene.symbols)
    (ready : scene.Ready declared assigned? state)
    (ran : Lower.value scene.symbols source state = .ok instr after) :
    scene.Surfaces (scene.after declared source) assigned? state after
      (operandsOf instr)
      (scene.method.exprReads scene.symbols declared source) := by
  cases source with
  | binary operator left right annotated =>
      rw [MethodDef.exprUses, List.append_subset] at inside
      rw [Lower.value] at ran
      obtain ⟨leftOperand, _, leftRan, ran⟩ := bind_ok_iff.mp ran
      obtain ⟨rightOperand, _, rightRan, returned⟩ := bind_ok_iff.mp ran
      obtain ⟨rfl, rfl⟩ := pure_ok_iff.mp returned
      have leftSurfaces := (expr_surfaces named left inside.1 ready leftRan).1
      have rightSurfaces :=
        (expr_surfaces named right inside.2 leftSurfaces.ready rightRan).1
      rw [MethodDef.exprReads, scene.after_binary]
      exact leftSurfaces.trans rightSurfaces
  | call target method arguments annotated =>
      rw [Lower.value] at ran
      obtain ⟨_, _, _, _, rfl, surfaces⟩ :=
        call_surfaces named (expr_surfaces named target)
          (fun argument _ => expr_surfaces named argument) inside ready ran
      exact surfaces
  | newObject className annotated =>
      rw [Lower.value] at ran
      obtain ⟨rfl, rfl⟩ := pure_ok_iff.mp ran
      rw [Scene.after, MethodDef.afterExpr]
      exact .nothing ready (by simp [MethodDef.exprReads])
        (by simp [MethodDef.exprReads, operandsOf])
  | newArray size annotated =>
      rw [MethodDef.exprUses] at inside
      rw [Lower.value] at ran
      obtain ⟨sizeOperand, _, sizeRan, returned⟩ := bind_ok_iff.mp ran
      obtain ⟨rfl, rfl⟩ := pure_ok_iff.mp returned
      rw [MethodDef.exprReads, scene.after_newArray]
      exact (expr_surfaces named size inside ready sizeRan).1
  | _ =>
      obtain ⟨operand, _, operandRan, returned⟩ := bind_ok_iff.mp ran
      obtain ⟨rfl, rfl⟩ := pure_ok_iff.mp returned
      exact (expr_surfaces named _ inside ready operandRan).1

end MiniJava.Scene
