import MiniJava.Proofs.RunRelation
import MiniJava.Proofs.Semantics.Names
import MiniJava.Proofs.Semantics.Tree
import MiniJava.Proofs.Temporaries

namespace MiniJava

/-!
# Lowered expressions compute their values

The instructions that are added for an expression write to new temporaries
only. What a finished operand holds is not changed by the temporaries that are
made after it, so operands keep their values until the operation around them
takes them.
-/

open Code (Operand ValueType CallKind Instr Store temporaryName isTemporaryName)

/-- The instructions of the method in progress. -/
def Lowering.instrs (state : Lowering) : List Instr :=
  match state.current? with
  | some method => method.instrs
  | none => []

namespace Scene

variable {Event α β : Type} (scene : Scene Event)

/-- The names that temporaries from a number on may take. -/
def Fresh (number : Nat) (name : String) : Prop :=
  ∃ later, number ≤ later ∧ name = temporaryName later ∧
    scene.symbols.declares scene.method.name name = false

/-- The contents of two stores differ in temporaries from a number on at most. -/
def Unchanged (number : Nat) (before after : Store String) : Prop :=
  ∀ name, ¬scene.Fresh number name → after name = before name

/-- Something that temporaries from a number on do not change. -/
def Settled (number : Nat) (read : Store String → α) : Prop :=
  ∀ before after, scene.Unchanged number before after → read after = read before

/-- Variables under their own names, with the events of the scene. -/
def names : Code.Setting Event String :=
  .overNames scene.toEnvironment

/-- Instructions lead to what an evaluation on the same variables gives. -/
def Yields
    (number : Nat)
    (added : List Instr)
    (read : Store String → α)
    (meaning : Store String → Run Event α) : Prop :=
  ∀ store source, scene.Unchanged 0 source store →
    Run.Related
      (fun after result => read after = result ∧ scene.Unchanged number store after)
      (scene.names.execAll store added) (meaning source)

/--
A method in code that differs from its begin in instructions and variables only,
and whose variables are the declared names and temporaries.
-/
structure InProgress (declared : List String) (method : Code.Method) : Prop where
  begun :
    method =
      { scene.method.begin scene.symbols.className with
        instrs := method.instrs
        table := method.table }
  keeps : ∀ name ∈ declared, name ∈ method.table
  known : ∀ name ∈ method.table, name ∈ declared ∨ scene.Fresh 0 name

/-- The method of the scene is in progress, with names that are declared so far. -/
structure Ready
    (declared : List String)
    (assigned? : Option TypeName)
    (state : Lowering) : Prop where
  assigned : state.assigned? = assigned?
  current : ∃ method, state.current? = some method ∧
    scene.InProgress declared method

/--
A part of lowering adds instructions that compute what is then read from the
store. The given names are declared after it.
-/
structure Lowers
    (declared : List String)
    (assigned? : Option TypeName)
    (state after : Lowering)
    (read : Store String → α)
    (meaning : Store String → Run Event α) : Prop where
  ready : scene.Ready declared assigned? after
  number : state.nextTemporary ≤ after.nextTemporary
  output : after.output = state.output
  settled : scene.Settled after.nextTemporary read
  yields :
    ∃ added,
      after.instrs = state.instrs ++ added ∧
        scene.Yields state.nextTemporary added read meaning

variable {scene}

theorem Fresh.mono
    {number later : Nat}
    {name : String}
    (fresh : scene.Fresh later name)
    (before : number ≤ later) :
    scene.Fresh number name := by
  obtain ⟨own, after, isName, undeclared⟩ := fresh
  exact ⟨own, before.trans after, isName, undeclared⟩

/-- Fresh names have the form of a temporary. -/
theorem Fresh.isTemporaryName
    {number : Nat}
    {name : String}
    (fresh : scene.Fresh number name) :
    isTemporaryName name = true := by
  obtain ⟨own, _, rfl, _⟩ := fresh
  exact Code.isTemporaryName_temporaryName own

/-- The name of a temporary is not fresh from a later number on. -/
theorem not_fresh_temporaryName
    {number own : Nat}
    (before : own < number) :
    ¬scene.Fresh number (temporaryName own) := by
  rintro ⟨later, after, same, _⟩
  have := Code.temporaryName_injective same
  omega

/-- The receiver is no temporary. -/
theorem not_fresh_receiverName
    (number : Nat) :
    ¬scene.Fresh number Operand.receiverName := by
  intro fresh
  have impossible := fresh.isTemporaryName
  revert impossible
  decide

/-- A name of the body is no temporary. -/
theorem not_fresh_of_named
    (apart : scene.method.TemporariesDeclared scene.symbols)
    {name : String}
    (named : name ∈ scene.method.names)
    (number : Nat) :
    ¬scene.Fresh number name := by
  intro fresh
  have declared := apart name named fresh.isTemporaryName
  obtain ⟨_, _, _, undeclared⟩ := fresh
  rw [undeclared] at declared
  cases declared

namespace Unchanged

theorem refl
    (number : Nat)
    (store : Store String) :
    scene.Unchanged number store store :=
  fun _ _ => rfl

theorem trans
    {number : Nat}
    {first second third : Store String}
    (before : scene.Unchanged number first second)
    (after : scene.Unchanged number second third) :
    scene.Unchanged number first third :=
  fun name notFresh => (after name notFresh).trans (before name notFresh)

theorem mono
    {number later : Nat}
    {before after : Store String}
    (unchanged : scene.Unchanged later before after)
    (earlier : number ≤ later) :
    scene.Unchanged number before after :=
  fun name notFresh => unchanged name fun fresh => notFresh (fresh.mono earlier)

/-- A write to a fresh name changes nothing else. -/
theorem update
    {number : Nat}
    {name : String}
    (fresh : scene.Fresh number name)
    (store : Store String)
    (content : Option Value) :
    scene.Unchanged number store (Function.update store name content) := by
  intro other notFresh
  apply Function.update_of_ne
  rintro rfl
  exact notFresh fresh

end Unchanged

theorem Settled.mono
    {number later : Nat}
    {read : Store String → α}
    (settled : scene.Settled number read)
    (after : number ≤ later) :
    scene.Settled later read :=
  fun _ _ unchanged => settled _ _ (unchanged.mono after)

/-- The content of a name that is not fresh is settled. -/
theorem settled_held_var
    {number : Nat}
    {name : String}
    (notFresh : ¬scene.Fresh number name)
    (type : ValueType) :
    scene.Settled number (scene.names.held · (.var name type)) := by
  intro before after unchanged
  show Held.ofContent type (after name) = Held.ofContent type (before name)
  rw [unchanged name notFresh]

namespace InProgress

variable {declared : List String} {method : Code.Method}

/-- A method is in progress with the variables that it begins with. -/
theorem begin :
    scene.InProgress (scene.method.firstNames scene.symbols)
      (scene.method.begin scene.symbols.className) where
  begun := rfl
  keeps _ member := MethodDef.mem_firstNames.mp member
  known _ member := .inl (MethodDef.mem_firstNames.mpr member)

/-- A variable that is declared counts among the declared names from then on. -/
theorem declare
    (inProgress : scene.InProgress declared method)
    (name : String)
    (type : ValueType)
    (scope : Code.Scope) :
    scene.InProgress (declared.insert name) (method.declare name type scope) := by
  have isBegun := inProgress.begun
  unfold Code.Method.declare
  split
  case isTrue member =>
    refine ⟨isBegun, fun other isDeclared => ?_, fun other isVariable => ?_⟩
    · rcases List.mem_insert_iff.mp isDeclared with rfl | isDeclared
      · exact member
      · exact inProgress.keeps other isDeclared
    · exact (inProgress.known other isVariable).imp (List.mem_insert_of_mem) id
  case isFalse =>
    refine ⟨by rw [isBegun], fun other isDeclared => ?_, fun other isVariable => ?_⟩
    · rw [Std.ExtTreeMap.mem_insert, Std.LawfulEqCmp.compare_eq_iff_eq]
      exact (List.mem_insert_iff.mp isDeclared).imp Eq.symm (inProgress.keeps other)
    · rw [Std.ExtTreeMap.mem_insert, Std.LawfulEqCmp.compare_eq_iff_eq]
        at isVariable
      rcases isVariable with rfl | isVariable
      · exact .inl List.mem_insert_self
      · exact (inProgress.known other isVariable).imp (List.mem_insert_of_mem) id

/-- A temporary that is declared does not count among the declared names. -/
theorem declareFresh
    (inProgress : scene.InProgress declared method)
    {name : String}
    (fresh : scene.Fresh 0 name)
    (type : ValueType)
    (scope : Code.Scope) :
    scene.InProgress declared (method.declare name type scope) := by
  obtain ⟨isBegun, keeps, known⟩ := inProgress.declare name type scope
  refine ⟨isBegun,
    fun other isDeclared => keeps other (List.mem_insert_of_mem isDeclared), ?_⟩
  intro other isVariable
  rcases known other isVariable with isDeclared | otherFresh
  · rcases List.mem_insert_iff.mp isDeclared with rfl | isDeclared
    · exact .inr fresh
    · exact .inl isDeclared
  · exact .inr otherFresh

end InProgress

namespace Ready

variable {declared : List String} {assigned? : Option TypeName}
  {state after : Lowering}

/-- The same is in progress after a change that keeps a method in progress. -/
theorem changeMethod
    {later : List String}
    (ready : scene.Ready declared assigned? state)
    {change : Code.Method → Code.Method}
    (kept :
      ∀ method, scene.InProgress declared method →
      scene.InProgress later (change method)) :
    scene.Ready later assigned? (state.changeMethod change) := by
  obtain ⟨assigned, method, isCurrent, inProgress⟩ := ready
  refine ⟨assigned, change method, ?_, kept method inProgress⟩
  simp [Lowering.changeMethod, isCurrent]

/-- A variable may be declared. -/
theorem declare
    (ready : scene.Ready declared assigned? state)
    (name : String)
    (type : ValueType)
    (scope : Code.Scope) :
    scene.Ready (declared.insert name) assigned?
      (state.changeMethod fun method => method.declare name type scope) :=
  ready.changeMethod fun _ inProgress => inProgress.declare name type scope

theorem emit
    (ready : scene.Ready declared assigned? state)
    (instr : Instr) :
    scene.Ready declared assigned?
      (state.changeMethod fun method =>
        { method with instrs := method.instrs ++ [instr] }) :=
  ready.changeMethod fun method inProgress =>
    ⟨by rw [inProgress.begun], inProgress.keeps, inProgress.known⟩

theorem methodName
    (ready : scene.Ready declared assigned? state) :
    state.methodName = scene.method.name := by
  obtain ⟨_, method, isCurrent, inProgress⟩ := ready
  rw [Lowering.methodName, isCurrent, inProgress.begun]
  rfl

theorem returnType
    (ready : scene.Ready declared assigned? state) :
    state.returnType = .ofTypeName scene.method.returnType := by
  obtain ⟨_, method, isCurrent, inProgress⟩ := ready
  rw [Lowering.returnType, isCurrent, inProgress.begun]
  rfl

/-- What a parameter is does not change while the method is in progress. -/
theorem isParam
    (ready : scene.Ready declared assigned? state)
    (name : String) :
    state.isParam name = (scene.method.begin scene.symbols.className).isParam
      name := by
  obtain ⟨_, method, isCurrent, inProgress⟩ := ready
  rw [Lowering.isParam, isCurrent, inProgress.begun]
  rfl

/-- What a field is does not change while the method is in progress. -/
theorem isField
    (ready : scene.Ready declared assigned? state)
    (name : String) :
    state.isField scene.symbols name = scene.isField name := by
  rw [Lowering.isField, ready.methodName, Scene.isField]

/-- The result of a call is that of its type under the assignment. -/
theorem callResult
    (ready : scene.Ready declared assigned? state)
    (type : TypeName)
    (used : Bool) :
    state.callResult type used = type.callResult assigned? used := by
  rw [Lowering.callResult, ready.assigned]

/-- A name that is no temporary is a variable once it is declared. -/
theorem hasVariable
    (ready : scene.Ready declared assigned? state)
    {name : String}
    (notFresh : ¬scene.Fresh 0 name) :
    state.hasVariable name = decide (name ∈ declared) := by
  obtain ⟨_, method, isCurrent, inProgress⟩ := ready
  have sameMember : name ∈ method.table ↔ name ∈ declared :=
    ⟨fun member => (inProgress.known name member).resolve_right notFresh,
      inProgress.keeps name⟩
  simp only [Lowering.hasVariable, isCurrent, sameMember]

/-- A call on a name that is no temporary finds its method by the declared names. -/
theorem callKind
    (ready : scene.Ready declared assigned? state)
    {target : Expr}
    {method : String}
    (notFresh : ∀ name type, target = .var name type → ¬scene.Fresh 0 name) :
    state.callKind scene.symbols target method =
      scene.callKind declared target method := by
  refine Symbols.callKind_congr fun name type isTarget => ?_
  rw [Lowering.shadows, MethodDef.shadows, ready.isField, Scene.isField,
    ready.methodName, ready.hasVariable (notFresh name type isTarget)]

end Ready

theorem instrs_declare
    (state : Lowering)
    (name : String)
    (type : ValueType)
    (scope : Code.Scope) :
    (state.changeMethod fun method => method.declare name type scope).instrs =
      state.instrs := by
  unfold Lowering.instrs Lowering.changeMethod Code.Method.declare
  cases state.current? with
  | none =>
      rfl
  | some method =>
      by_cases member : name ∈ method.table <;> simp [member]

theorem instrs_emit
    {declared : List String}
    {assigned? : Option TypeName}
    {state : Lowering}
    (ready : scene.Ready declared assigned? state)
    (instr : Instr) :
    (state.changeMethod fun method =>
      { method with instrs := method.instrs ++ [instr] }).instrs =
      state.instrs ++ [instr] := by
  obtain ⟨_, method, isCurrent, _⟩ := ready
  simp [Lowering.instrs, Lowering.changeMethod, isCurrent]

/-- A new temporary is fresh and declared, and nothing else changes. -/
theorem temporary_ok
    {declared : List String}
    {assigned? : Option TypeName}
    {state after : Lowering}
    {type : ValueType}
    {dest : Operand}
    (ready : scene.Ready declared assigned? state)
    (ran : Lower.temporary scene.symbols type state = .ok dest after) :
    ∃ number,
      dest = .var (temporaryName number) type ∧
        scene.Fresh state.nextTemporary (temporaryName number) ∧
          after.nextTemporary = number + 1 ∧
            state.nextTemporary ≤ number ∧
              after.instrs = state.instrs ∧
                after.output = state.output ∧
                  scene.Ready declared assigned? after := by
  obtain ⟨rfl, rfl⟩ := Lower.temporary_ok ran
  have free := Lowering.freshNumber_free scene.symbols state
  have fresh :
      scene.Fresh state.nextTemporary
        (temporaryName (state.freshNumber scene.symbols)) := by
    refine ⟨_, Lowering.le_freshNumber scene.symbols state, rfl, ?_⟩
    rw [Lowering.isTaken, ready.methodName, Bool.or_eq_false_iff] at free
    exact free.1
  have counted :
      scene.Ready declared assigned?
        { state with nextTemporary := state.freshNumber scene.symbols + 1 } :=
    ⟨ready.assigned, ready.current⟩
  exact ⟨_, rfl, fresh, rfl, Lowering.le_freshNumber scene.symbols state,
    instrs_declare _ _ _ _, rfl, counted.changeMethod fun _ inProgress =>
      inProgress.declareFresh (fresh.mono (Nat.zero_le _)) _ _⟩

namespace Lowers

variable {declared : List String} {assigned? : Option TypeName}
  {state between after : Lowering}

/-- What is settled from the start on is read without an instruction. -/
theorem nothing
    {read : Store String → α}
    (ready : scene.Ready declared assigned? state)
    (settled : scene.Settled 0 read) :
    scene.Lowers declared assigned? state state read
      (fun source => pure (read source)) where
  ready := ready
  number := Nat.le_refl _
  output := rfl
  settled := settled.mono (Nat.zero_le _)
  yields :=
    ⟨[], by simp, fun store source agree =>
      Run.Related.pure ⟨settled source store agree, .refl _ store⟩⟩

/-- Two parts in sequence compute a pair. -/
theorem pair
    {readFirst : Store String → α}
    {readSecond : Store String → β}
    {meaningFirst : Store String → Run Event α}
    {meaningSecond : Store String → Run Event β}
    {before : List String}
    (first : scene.Lowers before assigned? state between readFirst meaningFirst)
    (second :
      scene.Lowers declared assigned? between after readSecond meaningSecond) :
    scene.Lowers declared assigned? state after
      (fun store => (readFirst store, readSecond store))
      (fun source => do
        let left ← meaningFirst source
        let right ← meaningSecond source
        return (left, right)) := by
  obtain ⟨addedFirst, isFirst, yieldsFirst⟩ := first.yields
  obtain ⟨addedSecond, isSecond, yieldsSecond⟩ := second.yields
  refine ⟨second.ready, first.number.trans second.number,
    second.output.trans first.output, ?_, addedFirst ++ addedSecond, by
      rw [isSecond, isFirst, List.append_assoc], ?_⟩
  · intro before later unchanged
    exact Prod.ext (first.settled.mono second.number before later unchanged)
      (second.settled before later unchanged)
  · intro store source agree
    rw [Code.Setting.execAll_append]
    refine (yieldsFirst store source agree).bind ?_
    rintro middle left ⟨isLeft, unchangedFirst⟩
    have agreeMiddle : scene.Unchanged 0 source middle :=
      agree.trans (unchangedFirst.mono (Nat.zero_le _))
    -- Nothing is run behind the second part, so that its store is the last one.
    rw [← bind_pure (scene.names.execAll middle addedSecond)]
    refine (yieldsSecond middle source agreeMiddle).bind ?_
    rintro last right ⟨isRight, unchangedSecond⟩
    -- The second part writes to later temporaries only, so the first operand still
    -- holds its value.
    have leftKept : readFirst last = readFirst middle :=
      first.settled middle last unchangedSecond
    exact .pure ⟨Prod.ext (leftKept.trans isLeft) isRight,
      unchangedFirst.trans (unchangedSecond.mono first.number)⟩

/-- Something is made of what is computed. -/
theorem map
    {read : Store String → α}
    {meaning : Store String → Run Event α}
    (lowers : scene.Lowers declared assigned? state after read meaning)
    (change : α → β) :
    scene.Lowers declared assigned? state after
      (fun store => change (read store))
      (fun source => change <$> meaning source) := by
  obtain ⟨added, isAdded, yields⟩ := lowers.yields
  refine ⟨lowers.ready, lowers.number, lowers.output, ?_, added, isAdded, ?_⟩
  · intro before later unchanged
    exact congrArg change (lowers.settled before later unchanged)
  · intro store source agree
    rw [← id_map (scene.names.execAll store added)]
    refine (yields store source agree).map ?_
    rintro last result ⟨isResult, unchanged⟩
    exact ⟨congrArg change isResult, unchanged⟩

/-- A variable that is declared changes nothing of what is computed. -/
theorem declare
    {read : Store String → α}
    {meaning : Store String → Run Event α}
    (lowers : scene.Lowers declared assigned? state after read meaning)
    (name : String)
    (type : ValueType)
    (scope : Code.Scope) :
    scene.Lowers (declared.insert name) assigned? state
      (after.changeMethod fun method => method.declare name type scope) read
        meaning where
  ready := lowers.ready.declare name type scope
  number := lowers.number
  output := lowers.output
  settled := lowers.settled
  yields := by
    rw [instrs_declare]
    exact lowers.yields

theorem congr
    {read readOther : Store String → α}
    {meaning meaningOther : Store String → Run Event α}
    (lowers : scene.Lowers declared assigned? state after read meaning)
    (sameRead : ∀ store, read store = readOther store)
    (same : ∀ source, meaning source = meaningOther source) :
    scene.Lowers declared assigned? state after readOther meaningOther := by
  rw [← funext sameRead, ← funext same]
  exact lowers

/--
A value that is stored in a new temporary is held there under the temporary's type.
-/
theorem intoTemporary
    {read : Store String → α}
    {meaning : Store String → Run Event α}
    {type : ValueType}
    {instr : Instr}
    {dest : Operand}
    (lowers : scene.Lowers declared assigned? state between read meaning)
    (compute : α → Run Event Value)
    (computes : ∀ store, scene.names.compute store instr = compute (read store))
    (ran : Lower.intoTemporary scene.symbols type instr between = .ok dest after) :
    scene.Lowers declared assigned? state after (scene.names.held · dest)
      (fun source => do
      let operands ← meaning source
      let value ← compute operands
      if value.fits type then return ⟨type, some value⟩ else throw .illTyped) := by
  obtain ⟨named, temporaryRan, rfl⟩ := Lower.intoTemporary_ok ran
  obtain ⟨number, rfl, fresh, isNext, above, sameInstrs, sameOutput, readyNamed⟩ :=
    temporary_ok lowers.ready temporaryRan
  obtain ⟨added, isAdded, yields⟩ := lowers.yields
  have before := lowers.number
  refine ⟨readyNamed.emit _, ?_, sameOutput.trans lowers.output, ?_,
    added ++ [.store (.var (temporaryName number) type) instr], ?_, ?_⟩
  · show state.nextTemporary ≤ named.nextTemporary
    omega
  · refine settled_held_var (not_fresh_temporaryName ?_) type
    show number < named.nextTemporary
    omega
  · rw [instrs_emit readyNamed, sameInstrs, isAdded, List.append_assoc]
  · intro store source agree
    rw [Code.Setting.execAll_append]
    refine (yields store source agree).bind ?_
    rintro middle operands ⟨rfl, unchanged⟩
    simp only [Code.Setting.execAll, Code.Setting.exec, Instr.store, computes,
      bind_pure]
    refine (Run.Related.self _).bind ?_
    rintro value _ rfl
    -- A temporary takes a value of its kind only; on both sides the run is ill
    -- typed otherwise.
    by_cases fits : value.fits type = true
    · simp only [Code.Setting.write, names, Code.Setting.overNames,
        Run.require_some, pure_bind, fits, if_true]
      refine .pure ⟨?_, unchanged.trans (.update (fresh.mono before) middle _)⟩
      simp [Code.Setting.held, Held.ofContent, fits]
    · simp only [Code.Setting.write, names, Code.Setting.overNames,
        Run.require_some, pure_bind, fits, Bool.false_eq_true, if_false]
      exact .throw _ _

/-- An instruction that is emitted for its effect leaves what is computed. -/
theorem effect
    {read : Store String → α}
    {meaning : Store String → Run Event α}
    {instr : Instr}
    {value : Unit}
    (lowers : scene.Lowers declared assigned? state between read meaning)
    (act : α → Run Event Unit)
    (acts :
      ∀ store,
        scene.names.exec store instr =
          (do
            act (read store)
            return store))
    (ran : Lower.emit instr between = .ok value after) :
    scene.Lowers declared assigned? state after read (fun source => do
      let result ← meaning source
      act result
      return result) := by
  obtain rfl := modify_ok_iff.mp ran
  obtain ⟨added, isAdded, yields⟩ := lowers.yields
  refine ⟨lowers.ready.emit instr, lowers.number, lowers.output, lowers.settled,
    added ++ [instr], ?_, ?_⟩
  · rw [instrs_emit lowers.ready, isAdded, List.append_assoc]
  · intro store source agree
    rw [Code.Setting.execAll_append]
    refine (yields store source agree).bind ?_
    rintro middle result ⟨rfl, unchanged⟩
    simp only [Code.Setting.execAll, acts, bind_pure]
    refine (Run.Related.self _).bind ?_
    rintro _ _ _
    exact .pure ⟨rfl, unchanged⟩

end Lowers

end Scene

end MiniJava
