import MiniJava.Proofs.LoweringFrame
import MiniJava.Proofs.LoweringSimulation

namespace MiniJava.Scene

/-!
# Lowered expressions

By induction over the expression, with one case for each form: the operands of
an operation are lowered in order and the operation is stored in a temporary.
-/

open Code (Operand ValueType CallKind Instr FieldRef Store)

variable {Event : Type} {scene : Scene Event} {declared : List String}
  {assigned? : Option TypeName} {state between after : Lowering}

theorem held_receiver
    (store : Store String) :
    scene.names.held store (.receiver scene.symbols.className) =
      scene.receiver store :=
  rfl

theorem settled_receiver :
    scene.Settled 0 (scene.names.held · (.receiver scene.symbols.className)) :=
  settled_held_var (not_fresh_receiverName 0) _

/-- A new object is a reference, whatever is done with it. -/
theorem newObject_bind_congr
    {α : Type}
    {environment : Environment Event}
    {className : String}
    {first second : Value → Run Event α}
    (same : ∀ address, first (.reference address) = second (.reference address)) :
    environment.newObject className >>= first =
      environment.newObject className >>= second := by
  funext events
  show EStateM.bind _ first events = EStateM.bind _ second events
  unfold EStateM.bind Environment.newObject World.allocate
  cases environment.address (events ++ [environment.record (.newObject className)])
    with
  | none =>
      rfl
  | some address =>
      simp only [same]

/-- An operation on what is computed is stored in a temporary of its type. -/
theorem Lowers.operation
    {α : Type}
    {read : Store String → α}
    {meaning : Store String → Run Event α}
    {expr : Expr}
    {instr : Instr}
    {dest : Operand}
    (lowers :
      scene.Lowers (scene.after declared expr) assigned? state between read meaning)
    (compute : α → Run Event Value)
    (computes : ∀ store, scene.names.compute store instr = compute (read store))
    (isOperation : ∀ source, scene.atom? source expr = none)
    (isResult :
      ∀ source, scene.result source declared assigned? expr =
        meaning source >>= compute)
    (ran :
      Lower.intoTemporary scene.symbols (scene.typeOf assigned? expr) instr
        between =
        .ok dest after) :
    scene.Lowers (scene.after declared expr) assigned? state after
      (scene.names.held · dest) (scene.operand · declared assigned? expr) := by
  refine (lowers.intoTemporary compute computes ran).congr (fun _ => rfl)
    fun source => ?_
  rw [operand_of_operation scene (isOperation source), isResult, bind_assoc]

/-- A variable is an operand as it stands, and a field is read into a temporary. -/
theorem nameRead_lowers
    {name : String}
    {type : TypeName}
    {lowered : Operand}
    (notFresh : ¬scene.Fresh 0 name)
    (ready : scene.Ready declared assigned? state)
    (ran : Lower.nameRead scene.symbols name type state = .ok lowered after) :
    scene.Lowers (scene.after declared (.var name type)) assigned? state after
      (scene.names.held · lowered)
        (scene.operand · declared assigned? (.var name type)) := by
  obtain ⟨_, _, gotten, rest⟩ := bind_ok_iff.mp ran
  obtain ⟨rfl, rfl⟩ := get_ok_iff.mp gotten
  rw [ready.isField] at rest
  by_cases field : scene.isField name = true
  · rw [if_pos field] at rest
    have isType :
        scene.typeOf assigned? (.var name type) =
          scene.symbols.fieldType name type := by
      simp only [typeOf, field, if_true]
    have isAfter : scene.after declared (.var name type) = declared := by
      rw [isField] at field
      simp [Scene.after, MethodDef.afterExpr, MethodDef.declaresOnRead, field]
    refine Lowers.operation (isAfter.symm ▸ Lowers.nothing ready settled_receiver)
      (fun object =>
        scene.getField object ⟨name, scene.symbols.fieldType name type⟩)
      (fun _ => rfl) (fun source => ?_) (fun source => ?_) (by rwa [isType])
    · simp only [atom?, field, if_true]
    · simp only [result, field, if_true, pure_bind, held_receiver]
  · have variableRead :
        scene.Lowers declared assigned? state state
          (scene.names.held · (.var name (variableType name type)))
          (scene.operand · declared assigned? (.var name type)) := by
      refine (Lowers.nothing ready (settled_held_var notFresh _)).congr
        (fun _ => rfl) ?_
      intro source
      simp only [operand, hold, atom?, field]
      rfl
    have notField : scene.symbols.isField scene.method.name name = false := by
      simpa [isField] using field
    rw [ready.isParam, if_neg field] at rest
    simp only [Scene.after, MethodDef.afterExpr, MethodDef.declaresOnRead, notField,
      Bool.not_false, Bool.true_and, Bool.and_eq_true, Bool.not_eq_true']
    by_cases imported : type.isImported = true
    · rw [if_pos imported] at rest
      obtain ⟨rfl, rfl⟩ := pure_ok_iff.mp rest
      rw [variableType, if_pos imported] at variableRead
      simp only [imported, Bool.true_eq_false, false_and, if_false]
      exact variableRead
    · rw [variableType, if_neg imported] at variableRead
      rw [if_neg imported] at rest
      simp only [imported, true_and]
      split at rest
      case isTrue notParam =>
        obtain ⟨_, _, declared, returned⟩ := bind_ok_iff.mp rest
        obtain rfl := modify_ok_iff.mp declared
        obtain ⟨rfl, rfl⟩ := pure_ok_iff.mp returned
        rw [if_pos (by simpa using notParam)]
        exact variableRead.declare name _ _
      case isFalse param =>
        obtain ⟨rfl, rfl⟩ := pure_ok_iff.mp rest
        rw [if_neg (by simpa using param)]
        exact variableRead

/-- What lowering an expression gives in any state with names that are declared. -/
def ExprLowers (scene : Scene Event) (expr : Expr) : Prop :=
  ∀ {declared : List String} {assigned? : Option TypeName} {state after : Lowering}
    {lowered : Operand},
    scene.Ready declared assigned? state →
    Lower.expr scene.symbols expr state = .ok lowered after →
    scene.Lowers (scene.after declared expr) assigned? state after
      (scene.names.held · lowered) (scene.operand · declared assigned? expr)

/-- Expressions are lowered from left to right. -/
theorem exprs_lowers
    {exprs : List Expr}
    {lowered : List Operand}
    (each : ∀ expr ∈ exprs, scene.ExprLowers expr)
    (ready : scene.Ready declared assigned? state)
    (ran : Lower.exprs scene.symbols exprs state = .ok lowered after) :
    scene.Lowers (scene.afterAll declared exprs) assigned? state after
      (fun store => lowered.map (scene.names.held store))
      (scene.results · declared assigned? exprs) := by
  induction exprs generalizing declared state lowered with
  | nil =>
      rw [Lower.exprs] at ran
      obtain ⟨rfl, rfl⟩ := pure_ok_iff.mp ran
      refine (Lowers.nothing ready fun _ _ _ => rfl).congr (fun _ => rfl)
        fun _ => ?_
      rw [results]
      rfl
  | cons first rest inductionHypothesis =>
      rw [Lower.exprs] at ran
      obtain ⟨operand, between, firstRan, ran⟩ := bind_ok_iff.mp ran
      obtain ⟨operands, _, restRan, returned⟩ := bind_ok_iff.mp ran
      obtain ⟨rfl, rfl⟩ := pure_ok_iff.mp returned
      have firstLowers := each first List.mem_cons_self ready firstRan
      have restLowers :=
        inductionHypothesis
          (fun expr member => each expr (List.mem_cons_of_mem _ member))
          firstLowers.ready restRan
      rw [scene.afterAll_cons]
      refine ((firstLowers.pair restLowers).map fun pair => pair.1 :: pair.2).congr
        (fun _ => rfl) fun source => ?_
      rw [results_cons]
      simp

/-- What a call does with what is called and the arguments. -/
structure CallLowers
    (scene : Scene Event)
    (declared : List String)
    (assigned? : Option TypeName)
    (state after : Lowering)
    (target : Expr)
    (method : String)
    (arguments : List Expr)
    (receiver : Operand)
    (lowered : List Operand)
    (callee : Store String → Callee) : Prop where
  isCallee :
    ∀ store,
      scene.names.callee store (scene.callKind declared target method) receiver =
        pure (callee store)
  lowers :
    scene.Lowers
      (scene.afterAll (scene.afterTarget declared target method) arguments)
      assigned? state after
      (fun store => (callee store, lowered.map (scene.names.held store)))
      (fun source => do
        let callee ← scene.callee declared target method
          (scene.operand source declared assigned? target)
        let arguments ←
          scene.results source (scene.afterTarget declared target method)
          assigned? arguments
        return (callee, arguments))

/-- What is called is evaluated first and then the arguments. -/
theorem call_lowers
    {target : Expr}
    {method : String}
    {arguments : List Expr}
    {type : TypeName}
    {used : Bool}
    {instr : Instr}
    (apart : scene.method.TemporariesDeclared scene.symbols)
    (targetLowers : target.names ⊆ scene.method.names → scene.ExprLowers target)
    (argumentsLower :
      ∀ argument ∈ arguments,
        argument.names ⊆ scene.method.names → scene.ExprLowers argument)
    (inside : (Expr.call target method arguments type).names ⊆ scene.method.names)
    (ready : scene.Ready declared assigned? state)
    (ran :
      Lower.call scene.symbols target method arguments type used state =
        .ok instr after) :
    ∃ receiver lowered callee,
      instr =
          .call (scene.callKind declared target method) receiver method lowered
            (type.callResult assigned? used) ∧
        scene.CallLowers declared assigned? state after target method arguments
          receiver lowered callee := by
  have targetInside : target.names ⊆ scene.method.names :=
    List.Subset.trans Expr.names_target_subset inside
  have sameKind :
      state.callKind scene.symbols target method =
        scene.callKind declared target method := by
    refine ready.callKind ?_
    rintro name annotated rfl
    exact not_fresh_of_named apart (targetInside List.mem_cons_self) 0
  have eachLowers : ∀ argument ∈ arguments, scene.ExprLowers argument :=
    fun argument member => argumentsLower argument member
      (List.Subset.trans (Expr.names_argument_subset member) inside)
  obtain ⟨receiver, between, lowered, rfl, argumentsRan, targetRan⟩ :=
    Lower.callWith_ok ran
  rw [sameKind] at targetRan ⊢
  -- The target of a static call is a class and takes no evaluation.
  rcases targetRan with
    ⟨name, annotated, rfl, static, rfl, rfl⟩ | ⟨notStatic, targetRan⟩
  · have isAfter :
        scene.afterTarget declared (.var name annotated) method = declared :=
      MethodDef.afterTarget_of_static static
    have lowersArguments := exprs_lowers eachLowers ready argumentsRan
    have lowersCallee :
        scene.Lowers declared assigned? between between
          (fun _ => Callee.ofClass name) fun source =>
            scene.callee declared (.var name annotated) method
              (scene.operand source declared assigned? (.var name annotated)) :=
      (Lowers.nothing ready fun _ _ _ => rfl).congr (fun _ => rfl) fun _ =>
        (scene.callee_of_static static _).symm
    refine ⟨.classRef name, lowered, fun _ => .ofClass name, ?_, ?_, ?_⟩
    · rw [lowersArguments.ready.callResult]
    · intro store
      rw [static]
      rfl
    · rw [isAfter]
      exact lowersCallee.pair lowersArguments
  · have isAfter :
        scene.afterTarget declared target method = scene.after declared target :=
      MethodDef.afterTarget_of_not_static notStatic
    have lowersTarget := targetLowers targetInside ready targetRan
    have lowersArguments := exprs_lowers eachLowers lowersTarget.ready argumentsRan
    have lowersCallee :
        scene.Lowers (scene.after declared target) assigned? state between
          (fun store => Callee.object (scene.names.held store receiver))
            fun source =>
          scene.callee declared target method
            (scene.operand source declared assigned? target) :=
      (lowersTarget.map Callee.object).congr (fun _ => rfl) fun _ =>
        (scene.callee_of_not_static notStatic _).symm
    refine
      ⟨receiver, lowered, fun store => .object (scene.names.held store receiver),
        ?_, ?_, ?_⟩
    · rw [lowersArguments.ready.callResult]
    · intro store
      rw [Code.Setting.callee, if_neg notStatic]
    · rw [isAfter]
      exact lowersCallee.pair lowersArguments

/-- Every expression is lowered to instructions that compute it. -/
theorem expr_lowers
    (apart : scene.method.TemporariesDeclared scene.symbols)
    {expr : Expr}
    (inside : expr.names ⊆ scene.method.names) :
    scene.ExprLowers expr := by
  induction expr with
  | literal value =>
      intro declared assigned? state after lowered ready ran
      cases value <;>
      · rw [Lower.expr] at ran
        obtain ⟨rfl, rfl⟩ := pure_ok_iff.mp ran
        rw [Scene.after, MethodDef.afterExpr]
        exact Lowers.nothing ready fun _ _ _ => rfl
  | var name type =>
      intro declared assigned? state after lowered ready ran
      rw [Lower.expr] at ran
      exact nameRead_lowers (not_fresh_of_named apart (inside List.mem_cons_self) 0)
        ready ran
  | receiver type =>
      intro declared assigned? state after lowered ready ran
      rw [Lower.expr] at ran
      obtain ⟨rfl, rfl⟩ := pure_ok_iff.mp ran
      rw [Scene.after, MethodDef.afterExpr]
      exact Lowers.nothing ready settled_receiver
  | binary operator left right type leftHypothesis rightHypothesis =>
      intro declared assigned? state after lowered ready ran
      rw [Expr.names, List.append_subset] at inside
      rw [Lower.expr] at ran
      obtain ⟨leftOperand, _, leftRan, ran⟩ := bind_ok_iff.mp ran
      obtain ⟨rightOperand, _, rightRan, storeRan⟩ := bind_ok_iff.mp ran
      have leftLowers := leftHypothesis inside.1 ready leftRan
      have rightLowers := rightHypothesis inside.2 leftLowers.ready rightRan
      have both := leftLowers.pair rightLowers
      rw [← scene.after_binary _ operator left right type] at both
      exact both.operation
        (fun pair => operator.operate pair.1 pair.2) (fun _ => rfl) (fun _ => rfl)
        (fun _ => by simp [result_binary]) storeRan
  | call target method arguments type targetHypothesis argumentsHypothesis =>
      intro declared assigned? state after lowered ready ran
      rw [Lower.expr] at ran
      obtain ⟨call, _, callRan, valueRan⟩ := bind_ok_iff.mp ran
      obtain ⟨receiver, operands, callee, rfl, calls⟩ :=
        call_lowers apart targetHypothesis argumentsHypothesis inside ready callRan
      have operandsLower := calls.lowers
      rw [← scene.after_call _ target method arguments type] at operandsLower
      refine operandsLower.operation
        (fun operands =>
          scene.callValue (scene.callKind declared target method) operands.1 method
            operands.2 (type.callResult assigned? true))
        (fun store => ?_) (fun _ => rfl) (fun _ => by simp [result_call])
        (Lower.callValue_ok valueRan)
      rw [Code.Setting.compute, calls.isCallee, pure_bind]
      rfl
  | newObject className type =>
      intro declared assigned? state after lowered ready ran
      rw [Lower.expr] at ran
      obtain ⟨object, _, storeRan, ran⟩ := bind_ok_iff.mp ran
      obtain ⟨_, _, constructRan, returned⟩ := bind_ok_iff.mp ran
      obtain ⟨rfl, rfl⟩ := pure_ok_iff.mp returned
      have readsNothing : scene.Settled 0 fun _ => () := fun _ _ _ => rfl
      have created :=
        (Lowers.nothing ready readsNothing).intoTemporary
          (fun _ => scene.newObject className) (fun _ => rfl) storeRan
      rw [Scene.after, MethodDef.afterExpr]
      -- The constructor is called on the temporary, which stays the operand.
      refine (created.effect scene.construct ?_ constructRan).congr (fun _ => rfl)
        fun source => ?_
      · intro store
        simp [Instr.construct, Code.Setting.exec, Code.Setting.callee,
          Environment.construct, names, Code.Setting.overNames]
      · simp only [operand, hold, atom?, result, typeOf, pure_bind, bind_assoc]
        refine newObject_bind_congr fun address => ?_
        simp [Value.fits, ValueType.isReference]
  | newArray size type sizeHypothesis =>
      intro declared assigned? state after lowered ready ran
      rw [Expr.names] at inside
      rw [Lower.expr] at ran
      obtain ⟨sizeOperand, _, sizeRan, storeRan⟩ := bind_ok_iff.mp ran
      have sizeLowers := sizeHypothesis inside ready sizeRan
      rw [← scene.after_newArray _ size type] at sizeLowers
      exact sizeLowers.operation
        (scene.newArray (.ofTypeName type)) (fun _ => rfl) (fun _ => rfl)
        (fun _ => scene.result_newArray _ _ _ size type) storeRan
  | element array index type arrayHypothesis indexHypothesis =>
      intro declared assigned? state after lowered ready ran
      rw [Expr.names, List.append_subset] at inside
      rw [Lower.expr] at ran
      obtain ⟨arrayOperand, _, arrayRan, ran⟩ := bind_ok_iff.mp ran
      obtain ⟨indexOperand, _, indexRan, storeRan⟩ := bind_ok_iff.mp ran
      have arrayLowers := arrayHypothesis inside.1 ready arrayRan
      have indexLowers := indexHypothesis inside.2 arrayLowers.ready indexRan
      have both := arrayLowers.pair indexLowers
      rw [← scene.after_element _ array index type] at both
      exact both.operation
        (fun pair => scene.element pair.1 pair.2) (fun _ => rfl) (fun _ => rfl)
        (fun _ => by simp [result_element]) storeRan
  | length array type arrayHypothesis =>
      intro declared assigned? state after lowered ready ran
      rw [Expr.names] at inside
      rw [Lower.expr] at ran
      obtain ⟨arrayOperand, _, arrayRan, storeRan⟩ := bind_ok_iff.mp ran
      have arrayLowers := arrayHypothesis inside ready arrayRan
      rw [← scene.after_length _ array type] at arrayLowers
      exact arrayLowers.operation
        scene.length (fun _ => rfl) (fun _ => rfl)
        (fun _ => scene.result_length _ _ _ array type) storeRan

end MiniJava.Scene
