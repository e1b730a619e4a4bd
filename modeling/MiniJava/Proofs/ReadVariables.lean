import MiniJava.Proofs.RunRelation
import MiniJava.Proofs.Semantics.Reads
import MiniJava.Proofs.Semantics.Tree

namespace MiniJava

/-!
# Bodies depend on what they read

Two runs of a body that start with the same contents in all variables it reads
do the same. If no local is read before it is assigned, the contents of locals
at the start do not matter.
-/

open Code (Operand Store CallKind)

/-- Two stores have the same contents under some names. -/
def AgreeOn (names : List String) (first second : Store String) : Prop :=
  ∀ name ∈ names, first name = second name

theorem AgreeOn.mono
    {names fewer : List String}
    {first second : Store String}
    (agree : AgreeOn names first second)
    (subset : fewer ⊆ names) :
    AgreeOn fewer first second :=
  fun name member => agree name (subset member)

namespace Scene

variable {Event : Type} {scene : Scene Event} {declared : List String}
  {first second : Store String}

theorem receiver_agree
    (agree : first Operand.receiverName = second Operand.receiverName) :
    scene.receiver first = scene.receiver second := by
  rw [receiver, receiver, agree]

/-- An expression has the same result in two stores, and the same is held. -/
structure EvaluatesAlike
    (scene : Scene Event)
    (declared : List String)
    (first second : Store String)
    (assigned? : Option TypeName)
    (expr : Expr) : Prop where
  result :
    scene.result first declared assigned? expr =
      scene.result second declared assigned? expr
  operand :
    scene.operand first declared assigned? expr =
      scene.operand second declared assigned? expr

/--
Where what an expression stands for and its result are the same, so is what is held.
-/
theorem EvaluatesAlike.of_result
    {assigned? : Option TypeName}
    {expr : Expr}
    (sameAtom : scene.atom? first expr = scene.atom? second expr)
    (sameResult :
      scene.result first declared assigned? expr =
        scene.result second declared assigned? expr) :
    scene.EvaluatesAlike declared first second assigned? expr := by
  refine ⟨sameResult, ?_⟩
  rw [Scene.operand, Scene.operand, hold, hold, sameAtom, sameResult]

/-- Expressions are evaluated alike if each is, from left to right. -/
theorem results_agree
    {assigned? : Option TypeName}
    {exprs : List Expr}
    (each :
      ∀ expr ∈ exprs, ∀ {declared},
        AgreeOn (scene.method.exprReads scene.symbols declared expr) first second →
          scene.EvaluatesAlike declared first second assigned? expr)
    (agree :
      AgreeOn (scene.method.exprsReads scene.symbols declared exprs) first second) :
    scene.results first declared assigned? exprs =
      scene.results second declared assigned? exprs := by
  induction exprs generalizing declared with
  | nil =>
      simp only [results]
  | cons expr rest inductionHypothesis =>
      rw [MethodDef.exprsReads] at agree
      have exprAlike :=
        each expr List.mem_cons_self (agree.mono (List.subset_append_left _ _))
      have restAlike :
          scene.results first (scene.after declared expr) assigned? rest =
            scene.results second (scene.after declared expr) assigned? rest :=
        inductionHypothesis
          (fun expr member => each expr (List.mem_cons_of_mem _ member))
          (agree.mono (List.subset_append_right _ _))
      rw [results_cons, results_cons, exprAlike.operand, restAlike]

/-- What a call is made on and what it is given are the same in two stores. -/
structure CallsAlike
    (scene : Scene Event)
    (declared : List String)
    (first second : Store String)
    (assigned? : Option TypeName)
    (target : Expr)
    (method : String)
    (arguments : List Expr) : Prop where
  callee :
    scene.callee declared target method
      (scene.operand first declared assigned? target) =
      scene.callee declared target method
        (scene.operand second declared assigned? target)
  arguments :
    scene.results first (scene.afterTarget declared target method) assigned?
      arguments =
      scene.results second (scene.afterTarget declared target method) assigned?
        arguments

/--
A call is made alike if its target is evaluated alike, where it has
one, and its arguments.
-/
theorem calls_agree
    {assigned? : Option TypeName}
    {target : Expr}
    {method : String}
    {arguments : List Expr}
    {type : TypeName}
    (onTarget :
      AgreeOn (scene.method.exprReads scene.symbols declared target) first second →
        scene.EvaluatesAlike declared first second assigned? target)
    (onArguments :
      ∀ argument ∈ arguments, ∀ {declared},
        AgreeOn (scene.method.exprReads scene.symbols declared argument) first
          second →
          scene.EvaluatesAlike declared first second assigned? argument)
    (agree :
      AgreeOn
        (scene.method.exprReads scene.symbols declared
          (.call target method arguments type))
        first second) :
    scene.CallsAlike declared first second assigned? target method arguments := by
  by_cases static : scene.callKind declared target method = .static
  · obtain ⟨name, annotated, rfl⟩ := Symbols.target_of_static static
    have isAfter :
        scene.afterTarget declared (.var name annotated) method = declared :=
      MethodDef.afterTarget_of_static static
    rw [MethodDef.exprReads_call_of_static static] at agree
    refine ⟨?_, ?_⟩
    · rw [scene.callee_of_static static, scene.callee_of_static static]
    · rw [isAfter]
      exact results_agree onArguments agree
  · have isAfter :
        scene.afterTarget declared target method = scene.after declared target :=
      MethodDef.afterTarget_of_not_static static
    rw [MethodDef.exprReads_call_of_not_static static] at agree
    refine ⟨?_, ?_⟩
    · rw [(onTarget (agree.mono (List.subset_append_left _ _))).operand]
    · rw [isAfter]
      exact results_agree onArguments (agree.mono (List.subset_append_right _ _))

/-- An expression is evaluated alike where all that it reads is the same. -/
theorem evaluates_alike
    {expr : Expr}
    (agree :
      AgreeOn (scene.method.exprReads scene.symbols declared expr) first second)
    (assigned? : Option TypeName) :
    scene.EvaluatesAlike declared first second assigned? expr := by
  induction expr generalizing declared with
  | literal literal =>
      refine .of_result ?_ ?_
      · rw [atom?_literal, atom?_literal]
      · rw [result_literal, result_literal]
  | var name type =>
      have agreeOnRead := agree _ List.mem_cons_self
      cases field : scene.isField name with
      | true =>
          -- A field is read through the receiver.
          have isField : scene.symbols.isField scene.method.name name = true :=
            field
          rw [if_pos isField] at agreeOnRead
          refine .of_result ?_ ?_
          · simp only [atom?, field, if_true]
          · simp only [result, field, if_true, receiver_agree agreeOnRead]
      | false =>
          have notField : ¬scene.symbols.isField scene.method.name name = true := by
            simpa [isField] using field
          rw [if_neg notField] at agreeOnRead
          have sameAtom :
              scene.atom? first (.var name type) =
                scene.atom? second (.var name type) := by
            simp only [atom?, agreeOnRead]
          refine .of_result sameAtom ?_
          rw [scene.result_of_not_field _ _ _ field,
            scene.result_of_not_field _ _ _ field, sameAtom]
  | receiver type =>
      have sameReceiver : scene.receiver first = scene.receiver second :=
        receiver_agree (agree _ List.mem_cons_self)
      refine .of_result ?_ ?_
      · simp only [atom?, sameReceiver]
      · simp only [result, sameReceiver]
  | binary operator left right type leftHypothesis rightHypothesis =>
      rw [MethodDef.exprReads] at agree
      have leftAlike := leftHypothesis (agree.mono (List.subset_append_left _ _))
      have rightAlike :
          scene.EvaluatesAlike (scene.after declared left) first second assigned?
            right :=
        rightHypothesis (agree.mono (List.subset_append_right _ _))
      refine .of_result rfl ?_
      rw [result_binary, result_binary, leftAlike.operand, rightAlike.operand]
  | call target method arguments type targetHypothesis argumentsHypothesis =>
      have alike := calls_agree targetHypothesis argumentsHypothesis agree
      refine .of_result rfl ?_
      rw [result_call, result_call, alike.callee, alike.arguments]
  | newObject className type =>
      refine .of_result rfl ?_
      simp only [result]
  | newArray size type sizeHypothesis =>
      rw [MethodDef.exprReads] at agree
      refine .of_result rfl ?_
      rw [result_newArray, result_newArray, (sizeHypothesis agree).operand]
  | element array index type arrayHypothesis indexHypothesis =>
      rw [MethodDef.exprReads] at agree
      have arrayAlike := arrayHypothesis (agree.mono (List.subset_append_left _ _))
      have indexAlike :
          scene.EvaluatesAlike (scene.after declared array) first second assigned?
            index :=
        indexHypothesis (agree.mono (List.subset_append_right _ _))
      refine .of_result rfl ?_
      rw [result_element, result_element, arrayAlike.operand, indexAlike.operand]
  | length array type arrayHypothesis =>
      rw [MethodDef.exprReads] at agree
      refine .of_result rfl ?_
      rw [result_length, result_length, (arrayHypothesis agree).operand]

/-- What is assigned is the same where all that is read is the same. -/
theorem assigned_agree
    {source : Expr}
    (agree :
      AgreeOn (scene.method.exprReads scene.symbols declared source) first second)
    (type : TypeName) :
    scene.assigned first declared type source =
      scene.assigned second declared type source := by
  obtain ⟨sameResult, sameOperand⟩ := evaluates_alike agree (some type)
  cases source with
  | binary operator left right annotated => exact sameResult
  | call target method arguments annotated => exact sameResult
  | newArray size annotated => exact sameResult
  | newObject className annotated => rfl
  | _ => simp only [assigned, sameOperand]

/-- What is no operation stands for something. -/
theorem exists_atom
    {expr : Expr}
    (isAtom : scene.method.isAtom scene.symbols expr = true)
    (store : Store String) :
    ∃ held, scene.atom? store expr = some held := by
  cases expr with
  | literal literal =>
      exact ⟨_, scene.atom?_literal store literal⟩
  | var name type =>
      have notField : scene.isField name = false := by
        simpa [MethodDef.isAtom, isField] using isAtom
      exact ⟨.ofContent (variableType name type) (store name),
        by simp only [atom?, notField, Bool.false_eq_true, if_false]⟩
  | receiver type =>
      exact ⟨_, rfl⟩
  | _ =>
      cases isAtom

/-- What is no operation has no effects. -/
theorem exec_evaluate_of_isAtom
    {expr : Expr}
    (isAtom : scene.method.isAtom scene.symbols expr = true)
    (store : Store String) :
    scene.exec store declared (.evaluate expr) = pure store := by
  obtain ⟨held, isHeld⟩ := exists_atom isAtom store
  have evaluated :
      (do
        let _ ← scene.operand store declared none expr
        return store : Run Event (Store String)) = pure store := by
    rw [scene.operand_of_atom isHeld, pure_bind]
  cases expr with
  | call target method arguments type => cases isAtom
  | _ => exact evaluated

/--
An expression that is no atom has the same effects where all that it
reads is the same.
-/
theorem exec_evaluate_agree
    {names : List String}
    {expr : Expr}
    (reads : scene.method.exprReads scene.symbols declared expr ⊆ names)
    (agree : AgreeOn names first second) :
    Run.Related (AgreeOn names) (scene.exec first declared (.evaluate expr))
      (scene.exec second declared (.evaluate expr)) := by
  have sameOperand := (evaluates_alike (agree.mono reads) none).operand
  cases expr with
  | call target method arguments type =>
      have alike :
          scene.CallsAlike declared first second none target method arguments :=
        calls_agree (evaluates_alike · none) (fun _ _ _ => (evaluates_alike · none))
          (agree.mono reads)
      simp only [exec, alike.callee, alike.arguments]
      refine (Run.Related.self _).bind ?_
      rintro callee _ rfl
      refine (Run.Related.self _).bind ?_
      rintro values _ rfl
      exact (Run.Related.self _).bind fun _ _ _ => .pure agree
  | _ =>
      simp only [exec, sameOperand]
      exact (Run.Related.self _).bind fun _ _ _ => .pure agree

/--
A statement does the same where all that it reads is the same, and assigns the same.
-/
theorem exec_agreeOn
    {names : List String}
    {stmt : Stmt}
    (reads : scene.method.stmtReads scene.symbols declared stmt ⊆ names)
    (agree : AgreeOn names first second) :
    Run.Related
      (AgreeOn ((scene.method.assigned? scene.symbols stmt).toList ++ names))
      (scene.exec first declared stmt) (scene.exec second declared stmt) := by
  cases stmt with
  | assign name type source =>
      cases field : scene.isField name with
      | true =>
          have isField : scene.symbols.isField scene.method.name name = true :=
            field
          simp only [MethodDef.stmtReads, isField, if_true, List.cons_subset]
            at reads
          have sameReceiver : scene.receiver first = scene.receiver second :=
            receiver_agree (agree _ reads.1)
          have sameStored :=
            (evaluates_alike (agree.mono reads.2) (some type)).operand
          simp only [exec, MethodDef.assigned?, field, isField, if_true,
            sameReceiver, sameStored]
          refine (Run.Related.self _).bind ?_
          rintro stored _ rfl
          exact (Run.Related.self _).bind fun _ _ _ => .pure agree
      | false =>
          have notField : scene.symbols.isField scene.method.name name = false :=
            field
          simp only [MethodDef.stmtReads, notField, Bool.false_eq_true, if_false]
            at reads
          simp only [exec, MethodDef.assigned?, field, notField, Bool.false_eq_true,
            if_false, assigned_agree (agree.mono reads) type, write]
          refine (Run.Related.self _).bind ?_
          rintro value _ rfl
          -- The same value is written to both stores, so they agree on the variable
          -- from now on.
          split
          · rw [pure_bind, pure_bind]
            refine (Run.Related.self _).bind fun _ _ _ => .pure ?_
            intro other member
            by_cases same : other = name
            · rw [same, Function.update_self, Function.update_self]
            · rw [Function.update_of_ne same, Function.update_of_ne same]
              exact agree other ((List.mem_cons.mp member).resolve_left same)
          · exact .throw _ _
  | evaluate expr =>
      cases isAtom : scene.method.isAtom scene.symbols expr with
      | true =>
          rw [exec_evaluate_of_isAtom isAtom, exec_evaluate_of_isAtom isAtom]
          exact .pure agree
      | false =>
          simp only [MethodDef.stmtReads, isAtom, Bool.false_eq_true, if_false]
            at reads
          exact exec_evaluate_agree reads agree
  | ret result =>
      cases result with
      | none =>
          exact .throw _ _
      | some expr =>
          simp only [exec, (evaluates_alike (agree.mono reads) none).operand]
          refine (Run.Related.self _).bind ?_
          rintro held _ rfl
          refine (Run.Related.self _).bind ?_
          rintro value _ rfl
          split
          · exact .throw _ _
          · exact .throw _ _

/--
Statements that read only what is assigned before do the same where
that is the same.
-/
theorem execAll_agreeOn
    {names : List String}
    {stmts : List Stmt}
    (inOrder :
      scene.method.readsAssigned scene.symbols names
        (scene.method.pointsFrom scene.symbols declared stmts) = true)
    (agree : AgreeOn names first second) :
    Run.Related (fun _ _ => True) (scene.execAll first declared stmts)
      (scene.execAll second declared stmts) := by
  induction stmts generalizing declared names first second with
  | nil =>
      exact .pure trivial
  | cons stmt rest inductionHypothesis =>
      rw [execAll, execAll]
      have goesOn
          (inOrder :
            ((scene.method.stmtReads scene.symbols declared stmt).all (· ∈ names) &&
              scene.method.readsAssigned scene.symbols
                ((scene.method.assigned? scene.symbols stmt).toList ++ names)
                (scene.method.pointsFrom scene.symbols
                  (scene.afterStmt declared stmt) rest)) = true) :
          Run.Related (fun _ _ => True)
            (scene.exec first declared stmt >>=
              (scene.execAll · (scene.afterStmt declared stmt) rest))
            (scene.exec second declared stmt >>=
              (scene.execAll · (scene.afterStmt declared stmt) rest)) := by
        rw [Bool.and_eq_true, List.all_eq_true] at inOrder
        have reads : scene.method.stmtReads scene.symbols declared stmt ⊆ names :=
          fun name isRead => of_decide_eq_true (inOrder.1 name isRead)
        exact (exec_agreeOn reads agree).bind fun _ _ agreeAfter =>
          inductionHypothesis inOrder.2 agreeAfter
      cases stmt with
      | assign name type source =>
          exact goesOn inOrder
      | evaluate expr =>
          exact goesOn inOrder
      | ret result =>
          -- Nothing behind a return is run, so nothing is asked of it.
          rw [MethodDef.pointsFrom, MethodDef.readsAssigned, List.all_eq_true]
            at inOrder
          have reads :
              scene.method.stmtReads scene.symbols declared (.ret result) ⊆ names :=
            fun name isRead => of_decide_eq_true (inOrder name isRead)
          have ended :
              Run.Related (fun _ _ => False)
                (scene.exec first declared (.ret result))
                (scene.exec second declared (.ret result)) :=
            Run.Related.ofError (exec_agreeOn reads agree)
              (scene.exec_ret first declared result)
          exact ended.bind fun _ _ impossible => impossible.elim

/--
Where no local is read before it is assigned, only the receiver and
the parameters matter.
-/
theorem behaviour_agreeOn
    (inOrder : scene.method.readsInOrder scene.symbols = true)
    (agree :
      ∀ name ∈ (scene.method.begin scene.symbols.className).table,
        first name = second name) :
    scene.behaviour first = scene.behaviour second :=
  (execAll_agreeOn inOrder fun name member =>
    agree name (MethodDef.mem_firstNames.mp member)).behaviour scene.finished

end Scene

end MiniJava
