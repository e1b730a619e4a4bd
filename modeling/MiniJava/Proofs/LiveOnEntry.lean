import MiniJava.Proofs.CallSites
import MiniJava.Proofs.GreedyColors
import MiniJava.Proofs.LoweredTables
import MiniJava.Proofs.SurfacingReads

namespace MiniJava

/-!
# Variables that are live on entry

The code of a statement reads what the statement reads before it assigns to a
variable or returns. So a local is live on entry of a method exactly if some
statement of the body reads it before it is assigned.
-/

open Code (Operand ValueType Instr Method ClassCode)
open Register (operandsOf Reads LetsPass ReadsFirst LiveBefore IsLocal)

/-- Whether a statement returns. -/
def Stmt.isReturn : Stmt → Bool
  | .ret _ => true
  | _ => false

namespace MethodDef

variable (symbols : Symbols) (source : MethodDef)

/-- A statement neither assigns to a name nor returns. -/
def StmtLetsPass (name : String) (stmt : Stmt) : Prop :=
  source.assigned? symbols stmt ≠ some name ∧ stmt.isReturn = false

/-- Statements read a name before they assign to it and before they return. -/
def StmtsReadFirst (name : String) (points : List Point) : Prop :=
  Exposed (fun point => name ∈ source.pointReads symbols point)
    (fun point => source.StmtLetsPass symbols name point.stmt) points

instance (name : String) :
    DecidablePred (source.StmtLetsPass symbols name) :=
  fun _ => inferInstanceAs (Decidable (_ ∧ _))

instance (name : String) (points : List Point) :
    Decidable (source.StmtsReadFirst symbols name points) :=
  Exposed.decidable points

/-- The body reads a name before it assigns to it and before it returns. -/
def ReadsFirst (name : String) : Prop :=
  source.StmtsReadFirst symbols name (source.points symbols)

instance (name : String) : Decidable (source.ReadsFirst symbols name) :=
  inferInstanceAs (Decidable (source.StmtsReadFirst symbols name _))

/--
A variable of the code that the method does not begin with and that
its body does not name.
-/
def Generates (lowered : Method) (name : String) : Prop :=
  name ∈ lowered.table ∧
    name ∉ (source.begin symbols.className).table ∧ name ∉ source.names

end MethodDef

namespace Scene

variable {Event : Type}

/--
A part of lowering adds instructions that read first what statements read first.
The given names are declared afterwards.
-/
structure Exposes
    (scene : Scene Event)
    (declared : List String)
    (state after : Lowering)
    (points : List MethodDef.Point) : Prop where
  ready : scene.Ready declared none after
  named :
    ∀ point ∈ points, ∀ name ∈ scene.method.pointReads scene.symbols point,
      ¬scene.Fresh 0 name
  adds :
    ∃ added,
      after.instrs = state.instrs ++ added ∧
        (∀ name, ¬scene.Fresh 0 name →
          ((∀ instr ∈ added, LetsPass name instr) ↔
            ∀ point ∈ points,
              scene.method.StmtLetsPass scene.symbols name point.stmt)) ∧
          ∀ name, scene.IsVariable name →
            (ReadsFirst name added ↔
              scene.method.StmtsReadFirst scene.symbols name points)

variable {scene : Scene Event} {declared : List String}
  {state between after : Lowering}

namespace Exposes

variable {point : MethodDef.Point}

/-- An expression that is only evaluated is read without its result. -/
theorem of_surfaces
    (surfaces :
      scene.Surfaces declared none state after []
        (scene.method.pointReads scene.symbols point))
    (passes : ∀ name, scene.method.StmtLetsPass scene.symbols name point.stmt) :
    scene.Exposes declared state after [point] := by
  obtain ⟨ready, named, added, isAfter, addedPass, shows⟩ := surfaces
  refine ⟨ready, by simpa using named, added, isAfter, ?_, ?_⟩
  · intro name notFresh
    simpa [passes name] using addedPass name notFresh
  · intro name isVariable
    simpa [MethodDef.StmtsReadFirst, Shows] using shows name isVariable

/--
A statement ends in an instruction that takes its operands and
assigns or returns as it does.
-/
theorem of_last
    (instr : Instr)
    (surfaces :
      scene.Surfaces declared none state between (operandsOf instr)
        (scene.method.pointReads scene.symbols point))
    (samePass :
      ∀ name,
        LetsPass name instr ↔
          scene.method.StmtLetsPass scene.symbols name point.stmt) :
    scene.Exposes declared state
      (between.changeMethod fun method =>
        { method with instrs := method.instrs ++ [instr] })
      [point] := by
  obtain ⟨ready, named, added, isBetween, addedPass, shows⟩ := surfaces
  refine ⟨ready.emit instr, by simpa using named, added ++ [instr], ?_, ?_, ?_⟩
  · rw [instrs_emit ready, isBetween, List.append_assoc]
  · intro name notFresh
    rw [List.forall_mem_append, List.forall_mem_singleton,
      List.forall_mem_singleton, samePass]
    exact and_iff_right (addedPass name notFresh)
  · intro name isVariable
    have sameReads := shows name isVariable
    simpa [MethodDef.StmtsReadFirst, Shows, ReadsFirst, Exposed.append_iff, Reads]
      using sameReads

/-- A constructor call on a variable that has been assigned reads nothing first. -/
theorem construct
    {name : String}
    (exposes : scene.Exposes declared state between [point])
    (assigns : scene.method.assigned? scene.symbols point.stmt = some name)
    (notFresh : ¬scene.Fresh 0 name)
    (type : ValueType) :
    scene.Exposes declared state
      (between.changeMethod fun method =>
        { method with instrs := method.instrs ++ [.construct (.var name type)] })
      [point] := by
  obtain ⟨ready, named, added, isBetween, samePass, sameReads⟩ := exposes
  refine ⟨ready.emit _, named, added ++ [.construct (.var name type)], ?_, ?_, ?_⟩
  · rw [instrs_emit ready, isBetween, List.append_assoc]
  · intro other otherNotFresh
    rw [List.forall_mem_append, samePass other otherNotFresh]
    exact and_iff_left
      (by simp [LetsPass, Instr.construct, Instr.destination?, Instr.isReturn])
  · intro other isVariable
    rw [← sameReads other isVariable, ReadsFirst, Exposed.append_iff]
    refine or_iff_left ?_
    rintro ⟨passes, isRead⟩
    obtain rfl : name = other := by
      simpa [Reads, Instr.construct, operandsOf, Operand.name?] using isRead
    have stmtPasses := (samePass name notFresh).mp passes point List.mem_cons_self
    exact stmtPasses.1 assigns

/-- Statements in sequence expose what the first one lets pass. -/
theorem trans
    {before : List String}
    {first second : List MethodDef.Point}
    (former : scene.Exposes before state between first)
    (latter : scene.Exposes declared between after second) :
    scene.Exposes declared state after (first ++ second) := by
  obtain ⟨_, firstNamed, added, isBetween, firstPass, firstReads⟩ := former
  obtain ⟨ready, secondNamed, later, isAfter, secondPass, secondReads⟩ := latter
  refine ⟨ready, List.forall_mem_append.mpr ⟨firstNamed, secondNamed⟩,
    added ++ later, by simp [isAfter, isBetween], ?_, ?_⟩
  · intro name notFresh
    rw [List.forall_mem_append, List.forall_mem_append, firstPass name notFresh,
      secondPass name notFresh]
  · intro name isVariable
    rw [ReadsFirst, Exposed.append_iff, MethodDef.StmtsReadFirst,
      Exposed.append_iff]
    by_cases fresh : scene.Fresh 0 name
    · -- No statement reads a temporary, so nothing is exposed in the second part.
      have notSecond : ¬scene.method.StmtsReadFirst scene.symbols name second := by
        rintro ⟨before, point, rest, rfl, isRead, _⟩
        exact secondNamed point (by simp) name isRead fresh
      have notLater := (secondReads name isVariable).not.mpr notSecond
      rw [or_iff_left fun both => notLater both.2, or_iff_left fun both =>
        notSecond both.2]
      exact firstReads name isVariable
    · rw [firstPass name fresh]
      exact or_congr (firstReads name isVariable)
        (and_congr_right fun _ => secondReads name isVariable)

end Exposes

/-- A variable is assigned after its value has been read. -/
theorem assignVariable_exposes
    {name : String}
    {type : TypeName}
    {source : Expr}
    {value : Unit}
    (tempsDeclared : scene.method.TemporariesDeclared scene.symbols)
    (inside :
      scene.method.stmtUses scene.symbols declared (.assign name type source) ⊆
        scene.method.uses scene.symbols)
    (notField : scene.isField name = false)
    (ready : scene.Ready declared none state)
    (ran :
      Lower.assignVariable scene.symbols name type source state = .ok value after) :
    scene.Exposes (scene.afterStmt declared (.assign name type source)) state after
      [⟨declared, .assign name type source⟩] := by
  rw [MethodDef.stmtUses, List.cons_subset] at inside
  rw [isField] at notField
  obtain ⟨stored, inner, valueRan, constructRan⟩ := Lower.assignVariable_ok ran
  have readyInner :
      scene.Ready declared (some type) { state with assigned? := some type } :=
    ⟨rfl, ready.current⟩
  have isRead :
      scene.method.pointReads scene.symbols ⟨declared, .assign name type source⟩ =
        scene.method.exprReads scene.symbols declared source := by
    simp [MethodDef.pointReads, MethodDef.stmtReads, notField]
  have isAfter :
      scene.afterStmt declared (.assign name type source) =
        (scene.after declared source).insert name := by
    simp [Scene.afterStmt, MethodDef.afterStmt, notField, Scene.after]
  have assigns :
      scene.method.assigned? scene.symbols (.assign name type source) =
        some name := by
    simp [MethodDef.assigned?, notField]
  have surfaces :=
    ((value_surfaces tempsDeclared inside.2 readyInner valueRan).underAssignment
      ready).declare name (.ofTypeName type)
      (if Lowering.isParam { inner with assigned? := state.assigned? } name =
        true then .param else .localVar)
  rw [← isRead, ← isAfter] at surfaces
  have exposes :=
    Exposes.of_last (.store (.var name (.ofTypeName type)) stored) surfaces
    fun other => by
      simp [LetsPass, MethodDef.StmtLetsPass, assigns, Instr.store,
        Instr.destination?, Operand.name?, Instr.isReturn, Stmt.isReturn]
  have isName : name ∈ scene.method.names := MethodDef.name_mem_names inside.1
  by_cases new : stored.isNewObject = true
  · rw [if_pos new] at constructRan
    obtain rfl := modify_ok_iff.mp constructRan
    exact exposes.construct assigns (not_fresh_of_named tempsDeclared isName 0) _
  · rw [if_neg new] at constructRan
    obtain ⟨_, rfl⟩ := pure_ok_iff.mp constructRan
    exact exposes

/-- A field is assigned through the receiver after its value has been read. -/
theorem assignField_exposes
    {name : String}
    {type : TypeName}
    {source : Expr}
    {value : Unit}
    (tempsDeclared : scene.method.TemporariesDeclared scene.symbols)
    (inside :
      scene.method.exprUses scene.symbols declared source ⊆
        scene.method.uses scene.symbols)
    (field : scene.isField name = true)
    (ready : scene.Ready declared none state)
    (ran :
      Lower.assignField scene.symbols name type source state = .ok value after) :
    scene.Exposes (scene.afterStmt declared (.assign name type source)) state after
      [⟨declared, .assign name type source⟩] := by
  rw [isField] at field
  obtain ⟨stored, _, storedRan, emitted⟩ := bind_ok_iff.mp ran
  obtain ⟨inner, exprRan, rfl⟩ := Lower.underAssignment_ok storedRan
  obtain rfl := modify_ok_iff.mp emitted
  have readyInner :
      scene.Ready declared (some type) { state with assigned? := some type } :=
    ⟨rfl, ready.current⟩
  have surfaces :=
    (expr_surfaces tempsDeclared source inside readyInner exprRan).1.underAssignment
      ready
  have isRead :
      scene.method.pointReads scene.symbols ⟨declared, .assign name type source⟩ =
        [Operand.receiverName] ++ scene.method.exprReads scene.symbols declared
          source := by
    simp [MethodDef.pointReads, MethodDef.stmtReads, field]
  have isAfter :
      scene.afterStmt declared (.assign name type source) =
        scene.after declared source := by
    simp [Scene.afterStmt, MethodDef.afterStmt, field, Scene.after]
  have both := (Surfaces.receiver ready).trans surfaces
  rw [← isRead, ← isAfter] at both
  refine Exposes.of_last _ both fun other => ?_
  simp [LetsPass, MethodDef.StmtLetsPass, MethodDef.assigned?, field,
    Instr.destination?, Instr.isReturn, Stmt.isReturn]

/-- Every statement is lowered to instructions that read first what it reads. -/
theorem stmt_exposes
    {stmt : Stmt}
    {value : Unit}
    (tempsDeclared : scene.method.TemporariesDeclared scene.symbols)
    (inside :
      scene.method.stmtUses scene.symbols declared stmt ⊆
        scene.method.uses scene.symbols)
    (ready : scene.Ready declared none state)
    (ran : Lower.stmt scene.symbols stmt state = .ok value after) :
    scene.Exposes (scene.afterStmt declared stmt) state after
      [⟨declared, stmt⟩] := by
  cases stmt with
  | assign name type source =>
      obtain ⟨_, _, gotten, ran⟩ := bind_ok_iff.mp ran
      obtain ⟨rfl, rfl⟩ := get_ok_iff.mp gotten
      rw [ready.isField] at ran
      cases field : scene.isField name with
      | true =>
          rw [if_pos field] at ran
          rw [MethodDef.stmtUses, List.cons_subset] at inside
          exact assignField_exposes tempsDeclared inside.2 field ready ran
      | false =>
          rw [if_neg (by simp [field])] at ran
          exact assignVariable_exposes tempsDeclared inside field ready ran
  | evaluate expr =>
      rw [MethodDef.stmtUses] at inside
      have passes (name : String) :
          scene.method.StmtLetsPass scene.symbols name (.evaluate expr) := by
        simp [MethodDef.StmtLetsPass, MethodDef.assigned?, Stmt.isReturn]
      cases expr with
      | call target method arguments type =>
          obtain ⟨instr, _, callRan, emitted⟩ := bind_ok_iff.mp ran
          obtain rfl := modify_ok_iff.mp emitted
          obtain ⟨kind, receiver, operands, result, rfl, surfaces⟩ :=
            call_surfaces tempsDeclared (expr_surfaces tempsDeclared target)
              (fun argument _ => expr_surfaces tempsDeclared argument) inside
                ready callRan
          refine Exposes.of_last _ surfaces fun name => ?_
          simp [passes name, LetsPass, Instr.destination?, Instr.isReturn]
      | _ =>
          obtain ⟨_, _, exprRan, returned⟩ := bind_ok_iff.mp ran
          obtain ⟨_, rfl⟩ := pure_ok_iff.mp returned
          exact .of_surfaces
            (expr_surfaces tempsDeclared _ inside ready exprRan).2 passes
  | ret result =>
      have returns (type : ValueType) (operand? : Option Operand) (name : String) :
          LetsPass name (.ret type operand?) ↔
            scene.method.StmtLetsPass scene.symbols name (.ret result) := by
        simp [LetsPass, MethodDef.StmtLetsPass, Instr.isReturn, Stmt.isReturn]
      cases result with
      | none =>
          obtain ⟨_, _, gotten, emitted⟩ := bind_ok_iff.mp ran
          obtain ⟨rfl, rfl⟩ := get_ok_iff.mp gotten
          obtain rfl := modify_ok_iff.mp emitted
          refine Exposes.of_last _ (.nothing ready ?_ ?_) (returns _ _)
          · simp [MethodDef.pointReads, MethodDef.stmtReads]
          · simp [MethodDef.pointReads, MethodDef.stmtReads, operandsOf]
      | some expr =>
          rw [MethodDef.stmtUses] at inside
          obtain ⟨_, _, gotten, ran⟩ := bind_ok_iff.mp ran
          obtain ⟨rfl, rfl⟩ := get_ok_iff.mp gotten
          obtain ⟨lowered, _, exprRan, emitted⟩ := bind_ok_iff.mp ran
          obtain rfl := modify_ok_iff.mp emitted
          exact .of_last _ (expr_surfaces tempsDeclared expr inside ready exprRan).1
            (returns _ _)

/-- A name is in the table at the start, or the body uses it as a variable. -/
def FirstOrUsed (scene : Scene Event) (name : String) : Prop :=
  MethodDef.DeclaredOrUsed (scene.method.firstNames scene.symbols)
    (scene.method.uses scene.symbols) name

/-- What a statement of the body declares, the body uses. -/
theorem firstOrUsed_of_mem_afterStmt
    {stmt : Stmt}
    (inside :
      scene.method.stmtUses scene.symbols declared stmt ⊆
        scene.method.uses scene.symbols)
    (before : ∀ name ∈ declared, scene.FirstOrUsed name) :
    ∀ name ∈ scene.afterStmt declared stmt, scene.FirstOrUsed name := by
  intro name isDeclared
  rcases MethodDef.declaredOrUsed_of_mem_afterStmt isDeclared with
    former | ⟨type, isUse⟩
  · exact before name former
  · exact .inr ⟨type, inside isUse⟩

/-- Statements are lowered to instructions that read first what they read first. -/
theorem stmts_expose
    {stmts : List Stmt}
    {value : Unit}
    (tempsDeclared : scene.method.TemporariesDeclared scene.symbols)
    (members :
      ∀ point ∈ scene.method.pointsFrom scene.symbols declared stmts,
        point ∈ scene.method.points scene.symbols)
    (before : ∀ name ∈ declared, scene.FirstOrUsed name)
    (ready : scene.Ready declared none state)
    (ran : Lower.stmts scene.symbols stmts state = .ok value after) :
    ∃ later,
      (∀ name ∈ later, scene.FirstOrUsed name) ∧
        scene.Exposes later state after
          (scene.method.pointsFrom scene.symbols declared stmts) := by
  induction stmts generalizing declared state with
  | nil =>
      obtain ⟨_, rfl⟩ := pure_ok_iff.mp ran
      exact ⟨declared, before, ready, by simp [MethodDef.pointsFrom], [], by simp,
        by simp [MethodDef.pointsFrom],
        by simp [ReadsFirst, MethodDef.StmtsReadFirst, MethodDef.pointsFrom]⟩
  | cons first rest inductionHypothesis =>
      obtain ⟨_, between, firstRan, restRan⟩ := bind_ok_iff.mp ran
      have inside :
          scene.method.stmtUses scene.symbols declared first ⊆
            scene.method.uses scene.symbols :=
        MethodDef.pointUses_subset (members ⟨declared, first⟩ List.mem_cons_self)
      have firstExposes := stmt_exposes tempsDeclared inside ready firstRan
      obtain ⟨later, isLater, restExposes⟩ :=
        inductionHypothesis
          (fun point member => members point (List.mem_cons_of_mem _ member))
          (firstOrUsed_of_mem_afterStmt inside before) firstExposes.ready restRan
      exact ⟨later, isLater, firstExposes.trans restExposes⟩

/--
A lowered method is finished from one whose instructions read first
what its body does.
-/
theorem method_exposes
    {lowered : Method}
    (tempsDeclared : scene.method.TemporariesDeclared scene.symbols)
    (unassigned : state.assigned? = none)
    (ran : Lower.method scene.symbols scene.method state = .ok lowered after) :
    ∃ declared begun inner method,
      begun.instrs = [] ∧
        inner.current? = some method ∧
          lowered = method.finish ∧
            (∀ name ∈ method.table, scene.FirstOrUsed name ∨ scene.Fresh 0 name) ∧
              scene.Exposes declared begun
                inner (scene.method.points scene.symbols) := by
  obtain ⟨inner, stmtsRan, rfl, rfl⟩ := Lower.method_ok ran
  have ready :
      scene.Ready (scene.method.firstNames scene.symbols) none
        { state
          with current? := some (scene.method.begin scene.symbols.className) } :=
    ⟨unassigned, _, rfl, .begin⟩
  obtain ⟨declared, isDeclared, exposes⟩ :=
    stmts_expose tempsDeclared
      (fun _ member => member) (fun _ first => .inl first) ready stmtsRan
  obtain ⟨_, method, isCurrent, inProgress⟩ := exposes.ready
  exact ⟨declared, _, inner, method, rfl, isCurrent,
    by
      rw [isCurrent, Option.getD_some],
      fun name member => (inProgress.known name member).imp (isDeclared name) id,
      exposes⟩

/-- The return that is added to a method reads nothing. -/
theorem readsFirst_finish_iff
    {method : Method}
    {name : String} :
    ReadsFirst name method.finish.instrs ↔ ReadsFirst name method.instrs := by
  rcases method.finish_instrs with same | added
  · rw [same]
  · rw [added, ReadsFirst, Exposed.append_iff]
    refine or_iff_left ?_
    simp [Reads, operandsOf]

variable {lowered : Method} {name : String}

/-- The code of a method reads first what its body reads first. -/
theorem readsFirst_lowered_iff
    (tempsDeclared : scene.method.TemporariesDeclared scene.symbols)
    (unassigned : state.assigned? = none)
    (ran : Lower.method scene.symbols scene.method state = .ok lowered after)
    (isVariable : scene.IsVariable name) :
    ReadsFirst name lowered.instrs ↔
      scene.method.ReadsFirst scene.symbols name := by
  obtain ⟨_, begun, inner, method, isBegun, isCurrent, rfl, _, exposes⟩ :=
    method_exposes tempsDeclared unassigned ran
  obtain ⟨_, _, added, isInner, _, sameReads⟩ := exposes
  have isInstrs : method.instrs = added := by
    rw [isBegun, List.nil_append] at isInner
    simpa [Lowering.instrs, isCurrent] using isInner
  rw [readsFirst_finish_iff, isInstrs]
  exact sameReads name isVariable

/--
A variable that a method does not begin with is used by its body or is a temporary.
-/
theorem used_or_fresh
    (tempsDeclared : scene.method.TemporariesDeclared scene.symbols)
    (unassigned : state.assigned? = none)
    (ran : Lower.method scene.symbols scene.method state = .ok lowered after)
    (inTable : name ∈ lowered.table)
    (notFirst : name ∉ (scene.method.begin scene.symbols.className).table) :
    (∃ type, Use.var name type ∈ scene.method.uses scene.symbols) ∨
      scene.Fresh 0 name := by
  obtain ⟨_, _, _, method, _, _, rfl, known, _⟩ :=
    method_exposes tempsDeclared unassigned ran
  rcases known name inTable with (first | isUse) | fresh
  · exact absurd (MethodDef.mem_firstNames.mp first) notFirst
  · exact .inl isUse
  · exact .inr fresh

/-- A variable that a method does not begin with stands for no class. -/
theorem isVariable_of_not_first
    (apart : scene.method.NamesApart scene.symbols)
    (unassigned : state.assigned? = none)
    (ran : Lower.method scene.symbols scene.method state = .ok lowered after)
    (inTable : name ∈ lowered.table)
    (notFirst : name ∉ (scene.method.begin scene.symbols.className).table) :
    scene.IsVariable name := by
  intro isClass
  have isName : name ∈ scene.method.names := MethodDef.name_mem_names isClass
  rcases used_or_fresh apart.declared unassigned ran inTable notFirst with
    ⟨type, isVariable⟩ | fresh
  · cases apart.separate _ isClass _ isVariable rfl
  · exact not_fresh_of_named apart.declared isName 0 fresh

/-- No temporary is read first. -/
theorem not_readsFirst_of_generates
    (tempsDeclared : scene.method.TemporariesDeclared scene.symbols)
    (unassigned : state.assigned? = none)
    (ran : Lower.method scene.symbols scene.method state = .ok lowered after)
    (generates : scene.method.Generates scene.symbols lowered name) :
    ¬scene.method.ReadsFirst scene.symbols name := by
  obtain ⟨inTable, notFirst, unnamed⟩ := generates
  obtain ⟨_, _, _, _, _, _, _, _, exposes⟩ :=
    method_exposes tempsDeclared unassigned ran
  rintro ⟨before, point, rest, isBody, isRead, _⟩
  rcases used_or_fresh tempsDeclared unassigned ran inTable notFirst with
    ⟨type, isVariable⟩ | fresh
  · exact unnamed (MethodDef.name_mem_names isVariable)
  · exact exposes.named point (by simp [isBody]) name isRead fresh

end Scene

section

variable {symbols : Symbols} {source : MethodDef} {state after : Lowering}
  {lowered : Method} {name : String}

/--
A variable that a method does not begin with is live on entry if its
body reads it first.
-/
theorem Lower.liveBefore_iff
    (apart : source.NamesApart symbols)
    (unassigned : state.assigned? = none)
    (ran : Lower.method symbols source state = .ok lowered after)
    (inTable : name ∈ lowered.table)
    (notFirst : name ∉ (source.begin symbols.className).table) :
    LiveBefore lowered 0 name ↔ source.ReadsFirst symbols name := by
  have isVariable : (source.unanswered symbols).IsVariable name :=
    Scene.isVariable_of_not_first apart unassigned ran inTable notFirst
  have sameReads :=
    Scene.readsFirst_lowered_iff apart.declared unassigned ran isVariable
  rw [Register.liveBefore_straight_iff (Lower.method_grown ran).2, List.drop_zero]
  exact (and_iff_right inTable).trans sameReads

/-- A local is no variable that the method begins with. -/
theorem Lower.not_mem_begin_of_isLocal
    (ran : Lower.method symbols source state = .ok lowered after)
    (isLocal : IsLocal lowered name) :
    name ∉ (source.begin symbols.className).table := by
  intro first
  obtain ⟨entry, isEntry, localEntry⟩ := isLocal
  obtain ⟨begun, isBegun⟩ := mem_iff_exists_getElem?.mp first
  have sameEntry :=
    Option.some.inj (((Lower.method_grown ran).1.keeps isBegun).symm.trans isEntry)
  exact (source.begin_fixed symbols.className).scope isBegun
    (sameEntry ▸ localEntry)

end

/--
Liveness on entry is use before assignment. In a method whose names keep apart,
no generated temporary is live on entry. A local is live there exactly if some
statement reads it, and no statement before that assigns to it or returns. So if
every local is assigned before it is read, only the receiver and parameters are
live on entry.
-/
theorem Program.live_on_entry
    {symbols : Symbols}
    {program : Program}
    {unit : ClassCode}
    (isLowered : program.lower symbols = .ok unit) :
    List.Forall₂
      (fun source lowered =>
        source.NamesApart symbols →
          (∀ name, source.Generates symbols lowered name →
            ¬LiveBefore lowered 0 name) ∧
            (∀ name, IsLocal lowered name →
              (LiveBefore lowered 0 name ↔ source.ReadsFirst symbols name)) ∧
              ((∀ name, IsLocal lowered name →
                  ¬source.ReadsFirst symbols name) →
                ∀ name, LiveBefore lowered 0 name →
                  (source.isStatic = false ∧ name = Operand.receiverName) ∨
                    lowered.isParam name = true))
      program.mainClass.methods unit.methods := by
  refine (Program.lower_forall₂ ?_ isLowered).1
  intro source _ state after lowered unassigned ran apart
  have inTable {name : String} (live : LiveBefore lowered 0 name) :
      name ∈ lowered.table :=
    ((Register.liveBefore_straight_iff (Lower.method_grown ran).2).mp live).1
  have ofLocal (name : String) (isLocal : IsLocal lowered name) :
      LiveBefore lowered 0 name ↔ source.ReadsFirst symbols name :=
    Lower.liveBefore_iff apart unassigned ran isLocal.mem_table
      (Lower.not_mem_begin_of_isLocal ran isLocal)
  refine ⟨fun name generates live => ?_, ofLocal, fun assignedFirst name live => ?_⟩
  · have unread :=
      @Scene.not_readsFirst_of_generates _ (source.unanswered symbols)
        _ _ _ _ apart.declared unassigned ran generates
    exact unread
      ((Lower.liveBefore_iff apart unassigned ran generates.1 generates.2.1).mp
        live)
  · have grown := (Lower.method_grown ran).1
    obtain ⟨entry, isEntry⟩ := mem_iff_exists_getElem?.mp (inTable live)
    rcases grown.added isEntry with isBegun | ⟨isLocal, _⟩
    · have first := (source.mem_begin symbols.className).mp
        (mem_iff_exists_getElem?.mpr ⟨entry, isBegun⟩)
      rwa [Method.isParam, ← grown.params] at first
    · have localName : IsLocal lowered name := ⟨entry, isEntry, isLocal⟩
      exact absurd ((ofLocal name localName).mp live) (assignedFirst name localName)

/--
A method that reads a local before it is assigned, and another only after a
return. A name that is also imported becomes a variable and is then called on.
-/
private def probing : MethodDef where
  name := "probe"
  returnType := .int
  params := [⟨"n", .int⟩]
  locals := [⟨"x", .int⟩, ⟨"y", .int⟩, ⟨"z", .int⟩]
  body :=
    [.evaluate (.var "y" .int),
      .evaluate (.var "io" (.ofClass "Bar")),
      .evaluate (.call (.var "io" (.ofClass "Bar")) "open" [] .void),
      .assign "y" .int
        (.binary .add (.binary .add (.var "n" .int) (.var "x" .int) .int)
          (.literal (.int 1)) .int),
      .ret (some (.var "y" .int)),
      .ret (some (.var "z" .int))]

private def probingProgram : Program where
  imports := ["io"]
  mainClass := { name := "A", methods := [probing] }

/-- The code of the method, with one temporary. -/
private def probingCode : Method where
  name := "probe"
  isStatic := false
  params := [.var "n" .int]
  returnType := .int
  instrs :=
    [.call .virtual (.var "io" (.object "Bar")) "open" [] .void,
      .store (.var "tmp0" .int) (.binary .add (.var "n" .int) (.var "x" .int) .int),
      .store (.var "y" .int) (.binary .add (.var "tmp0" .int) (.int 1) .int),
      .ret .int (some (.var "y" .int)),
      .ret .int (some (.var "z" .int))]
  flow := ⟨[[1], [2], [3], [], []]⟩
  table :=
    (((((((∅ : Code.VariableTable).insert "this" ⟨.object "A", .receiver, 0⟩).insert
      "n" ⟨.int, .param, 1⟩).insert "y" ⟨.int, .localVar, 2⟩).insert
      "io" ⟨.object "Bar", .localVar, 3⟩).insert "x" ⟨.int, .localVar, 4⟩).insert
      "tmp0" ⟨.int, .localVar, 5⟩).insert "z" ⟨.int, .localVar, 6⟩

/-- The code of the class with the method. -/
private def probingUnit : ClassCode where
  name := "A"
  imports := ["io"]
  methods := [probingCode]

theorem live_on_entry_probing :
    probingProgram.lower (.ofProgram probingProgram) = .ok probingUnit ∧
      LiveBefore probingCode 0 "x" ∧
        LiveBefore probingCode 0 "io" ∧
          ¬LiveBefore probingCode 0 "y" ∧
            ¬LiveBefore probingCode 0 "z" ∧ ¬LiveBefore probingCode 0 "tmp0" := by
  have isLowered :
      probingProgram.lower (.ofProgram probingProgram) = .ok probingUnit := by
    rfl
  have apart : probing.NamesApart (.ofProgram probingProgram) := by
    decide
  have related := Program.live_on_entry isLowered
  obtain ⟨generated, locals, _⟩ := (List.forall₂_cons.mp related).1 apart
  refine ⟨isLowered, ?_, ?_, ?_, ?_, ?_⟩
  · rw [locals "x" ⟨_, rfl, rfl⟩]
    decide
  · rw [locals "io" ⟨_, rfl, rfl⟩]
    decide
  · rw [locals "y" ⟨_, rfl, rfl⟩]
    decide
  · rw [locals "z" ⟨_, rfl, rfl⟩]
    decide
  · refine generated "tmp0" ⟨?_, ?_, ?_⟩
    · decide
    · decide
    · decide

end MiniJava
