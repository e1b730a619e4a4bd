import MiniJava.Proofs.LoweredTables

namespace MiniJava

/-!
# A method that is lowered twice

The names of temporaries depend on the methods that were lowered before. Their
slots do not: a new variable takes the next slot, whatever its name. So two
lowerings of a method go side by side. They have the same variables but for the
temporaries, and the temporaries of the one have the slots and the types of those
of the other.
-/

open Code (Instr Method Operand Scope ValueType Variable)

/--
A name of a method that no temporary takes: one that is declared, or
has another form.
-/
def Symbols.Steady (symbols : Symbols) (method name : String) : Prop :=
  Code.isTemporaryName name = true → symbols.declares method name = true

theorem Symbols.steady_this
    (symbols : Symbols)
    (method : String) :
    symbols.Steady method "this" :=
  fun isTemporary => absurd isTemporary (by decide)

namespace Code

/--
Operands that are the same, or variables of one type that have the same slot each.
-/
inductive Operand.Alike
    (steady : String → Prop)
    (first second : String → Option Nat) :
    Operand → Operand → Prop where
  | literal (value : Int32) (type : ValueType) :
      Alike steady first second (.literal value type) (.literal value type)
  | steady {name : String} (type : ValueType) :
      steady name → Alike steady first second (.var name type) (.var name type)
  | placed {firstName secondName : String} {slot : Nat} (type : ValueType) :
      first firstName = some slot →
      second secondName = some slot →
      Alike steady first second (.var firstName type) (.var secondName type)

/--
Instructions that differ in related operands only; a static call names its class.
-/
inductive Instr.Alike
    (related : Operand → Operand → Prop) : Instr → Instr → Prop where
  | assign {firstDest secondDest : Operand} {first second : Instr}
    (type : ValueType) :
      related firstDest secondDest →
      Alike related first second →
      Alike related (.assign firstDest type first) (.assign secondDest type second)
  | single {first second : Operand} :
      related first second → Alike related (.single first) (.single second)
  | binary {firstLeft secondLeft firstRight secondRight : Operand}
      (operator : Operator) (type : ValueType) :
      related firstLeft secondLeft →
      related firstRight secondRight →
      Alike related (.binary operator firstLeft firstRight type)
        (.binary operator secondLeft secondRight type)
  | ret {first second : Operand} (type : ValueType) :
      related first second →
      Alike related (.ret type (some first)) (.ret type (some second))
  | retNone (type : ValueType) : Alike related (.ret type none) (.ret type none)
  | call {kind : CallKind} {firstTarget secondTarget : Operand}
      {firstArguments secondArguments : List Operand} (method : String) (result :
        ValueType) :
      related firstTarget secondTarget →
      (kind = .static → firstTarget = secondTarget) →
      List.Forall₂ related firstArguments secondArguments →
      Alike related (.call kind firstTarget method firstArguments result)
        (.call kind secondTarget method secondArguments result)
  | newObject (className : String) (type : ValueType) :
      Alike related (.newObject className type) (.newObject className type)
  | newArray {first second : Operand} (type : ValueType) :
      related first second →
      Alike related (.newArray first type) (.newArray second type)
  | element {firstArray secondArray firstIndex secondIndex : Operand}
    (type : ValueType) :
      related firstArray secondArray →
      related firstIndex secondIndex →
      Alike related (.element firstArray firstIndex type)
        (.element secondArray secondIndex type)
  | length {first second : Operand} (type : ValueType) :
      related first second →
      Alike related (.length first type) (.length second type)
  | getField {first second : Operand} (field : FieldRef) :
      related first second →
      Alike related (.getField first field) (.getField second field)
  | putField {firstObject secondObject first second : Operand} (field : FieldRef) :
      related firstObject secondObject →
      related first second →
      Alike related (.putField firstObject field first)
        (.putField secondObject field second)

theorem Operand.Alike.type_eq
    {steady : String → Prop}
    {first second : String → Option Nat}
    {left right : Operand}
    (alike : Operand.Alike steady first second left right) :
    left.type = right.type := by
  cases alike <;> rfl

namespace Instr.Alike

variable {related wider : Operand → Operand → Prop} {first second : Instr}

theorem mono
    (alike : Alike related first second)
    (widens : ∀ {left right}, related left right → wider left right) :
    Alike wider first second := by
  induction alike with
  | assign type dest _ value => exact .assign type (widens dest) value
  | single operand => exact .single (widens operand)
  | binary operator type left right =>
      exact .binary operator type (widens left) (widens right)
  | ret type operand => exact .ret type (widens operand)
  | retNone type => exact .retNone type
  | call method result target static arguments =>
      exact .call method result (widens target) static
        (arguments.imp fun _ _ => widens)
  | newObject className type => exact .newObject className type
  | newArray type size => exact .newArray type (widens size)
  | element type array index => exact .element type (widens array) (widens index)
  | length type array => exact .length type (widens array)
  | getField field object => exact .getField field (widens object)
  | putField field object value =>
      exact .putField field (widens object) (widens value)

theorem isReturn_eq
    (alike : Alike related first second) :
    first.isReturn = second.isReturn := by
  cases alike <;> rfl

theorem isNewObject_eq
    (alike : Alike related first second) :
    first.isNewObject = second.isNewObject := by
  cases alike <;> rfl

end Instr.Alike

namespace Method

/-- A bound holds for the next free slot if it is above all slots in use. -/
theorem nextFreeSlot_le_iff
    {method : Method}
    {bound : Nat} :
    method.nextFreeSlot ≤ bound ↔
      method.baseSlot ≤ bound ∧
        ∀ (name : String) (entry : Variable),
          method.table[name]? = some entry → entry.slot < bound := by
  have folded (rows : List (String × Variable)) (start : Nat) :
      rows.foldl (fun slot row => max slot (row.2.slot + 1)) start ≤ bound ↔
        start ≤ bound ∧ ∀ row ∈ rows, row.2.slot < bound := by
    induction rows generalizing start with
    | nil => simp
    | cons first rest inductionHypothesis =>
        rw [List.foldl_cons, inductionHypothesis, Nat.max_le, List.forall_mem_cons]
        exact and_assoc
  rw [nextFreeSlot, folded]
  refine and_congr_right fun _ => ⟨fun below name entry isEntry => ?_, ?_⟩
  · exact below (name, entry)
      (Std.ExtTreeMap.mem_toList_iff_getElem?_eq_some.mpr isEntry)
  · rintro below ⟨name, entry⟩ member
    exact below name entry
      (Std.ExtTreeMap.mem_toList_iff_getElem?_eq_some.mp member)

variable {method : Method} {name : String}

/-- A new variable gets the next free slot, and all other entries stay. -/
theorem getElem?_declare
    (absent : name ∉ method.table)
    (type : ValueType)
    (scope : Scope)
    (other : String) :
    (method.declare name type scope).table[other]? =
      if name = other then some ⟨type, scope, method.nextFreeSlot⟩
      else method.table[other]? := by
  simp [declare, absent, Std.ExtTreeMap.getElem?_insert]

/-- A new variable takes one slot, whatever its name. -/
theorem nextFreeSlot_declare
    (absent : name ∉ method.table)
    (type : ValueType)
    (scope : Scope) :
    (method.declare name type scope).nextFreeSlot = method.nextFreeSlot + 1 := by
  apply Nat.le_antisymm
  · apply nextFreeSlot_le_iff.mpr
    constructor
    · have sameBase :
          (method.declare name type scope).baseSlot = method.baseSlot := by
        simp [declare, absent, baseSlot]
      rw [sameBase]
      exact Nat.le_succ_of_le method.baseSlot_le_nextFreeSlot
    · intro other entry isEntry
      rw [getElem?_declare absent] at isEntry
      split at isEntry
      · cases isEntry
        exact Nat.lt_succ_self _
      · exact Nat.lt_succ_of_lt (slot_lt_nextFreeSlot isEntry)
  · have isNew :
        (method.declare name type scope).table[name]? =
          some ⟨type, scope, method.nextFreeSlot⟩ := by
      rw [getElem?_declare absent, if_pos rfl]
    exact slot_lt_nextFreeSlot isNew

/-- A new variable leaves the slots of the others. -/
theorem slot?_declare
    (name : String)
    (type : ValueType)
    (scope : Scope)
    {other : String}
    {slot : Nat}
    (isSlot : method.slot? other = some slot) :
    (method.declare name type scope).slot? other = some slot := by
  by_cases member : name ∈ method.table
  · rwa [declare, if_pos member]
  · obtain ⟨entry, isEntry, _⟩ := Option.map_eq_some_iff.mp isSlot
    have different : name ≠ other := by
      rintro rfl
      exact member (mem_iff_exists_getElem?.mpr ⟨entry, isEntry⟩)
    rwa [slot?, getElem?_declare member, if_neg different]

end Method

end Code

/--
A new temporary has a name that is not steady and that the method does not have yet.
-/
theorem Lowering.freshNumber_not_steady
    {symbols : Symbols}
    {state : Lowering}
    {method : Method}
    (isCurrent : state.current? = some method) :
    ¬symbols.Steady method.name (Code.temporaryName (state.freshNumber symbols)) ∧
      Code.temporaryName (state.freshNumber symbols) ∉ method.table := by
  have free := state.freshNumber_free symbols
  simp only [Lowering.isTaken, Lowering.methodName, Lowering.hasVariable, isCurrent,
    Bool.or_eq_false_iff, decide_eq_false_iff_not] at free
  refine ⟨fun steady => ?_, free.2⟩
  have declared := steady (Code.isTemporaryName_temporaryName _)
  rw [Symbols.declares, free.1.1.1, free.1.1.2, free.1.2] at declared
  cases declared

/-- Two methods in progress that are lowered from one. -/
structure Twins (symbols : Symbols) (name : String) where
  first : Method
  second : Method
  isFirst : first.name = name
  isSecond : second.name = name
  visibility : first.visibility = second.visibility
  isStatic : first.isStatic = second.isStatic
  params : first.params = second.params
  returnType : first.returnType = second.returnType
  /-- They have the same variables, temporaries apart. -/
  table :
    ∀ other, symbols.Steady name other → first.table[other]? = second.table[other]?
  nextFreeSlot : first.nextFreeSlot = second.nextFreeSlot
  instrs :
    List.Forall₂
      (Instr.Alike (Operand.Alike (symbols.Steady name) first.slot? second.slot?))
      first.instrs second.instrs

namespace Twins

variable {symbols : Symbols} {name : String} {twins later last : Twins symbols name}

/-- Operands that are alike in the two methods. -/
abbrev Operands (twins : Twins symbols name) : Operand → Operand → Prop :=
  Operand.Alike (symbols.Steady name) twins.first.slot? twins.second.slot?

/-- Instructions that are alike in the two methods. -/
abbrev Instrs (twins : Twins symbols name) : Instr → Instr → Prop :=
  Instr.Alike twins.Operands

/-- Both methods still have the slots they had. -/
structure Extends (twins later : Twins symbols name) : Prop where
  first :
    ∀ {other : String} {slot : Nat},
      twins.first.slot? other = some slot → later.first.slot? other = some slot
  second :
    ∀ {other : String} {slot : Nat},
      twins.second.slot? other = some slot → later.second.slot? other = some slot

namespace Extends

theorem refl (twins : Twins symbols name) : twins.Extends twins :=
  ⟨id, id⟩

theorem trans
    (former : twins.Extends later)
    (latter : later.Extends last) :
    twins.Extends last :=
  ⟨fun isSlot => latter.first (former.first isSlot),
    fun isSlot => latter.second (former.second isSlot)⟩

/-- Operands stay alike. -/
theorem operand
    (extended : twins.Extends later)
    {left right : Operand}
    (alike : twins.Operands left right) :
    later.Operands left right := by
  cases alike with
  | literal value type => exact .literal value type
  | steady type isSteady => exact .steady type isSteady
  | placed type isFirst isSecond =>
      exact .placed type (extended.first isFirst) (extended.second isSecond)

end Extends

/--
One more variable for each, of the same name or with names that only
temporaries have.
-/
def declare
    (twins : Twins symbols name)
    {firstName secondName : String}
    (type : ValueType)
    (scope : Scope)
    (firstAbsent : firstName ∉ twins.first.table)
    (secondAbsent : secondName ∉ twins.second.table)
    (named :
      firstName = secondName ∨
        ¬symbols.Steady name firstName ∧ ¬symbols.Steady name secondName) :
    Twins symbols name where
  first := twins.first.declare firstName type scope
  second := twins.second.declare secondName type scope
  isFirst := by simpa [Method.declare, firstAbsent] using twins.isFirst
  isSecond := by simpa [Method.declare, secondAbsent] using twins.isSecond
  visibility := by
    simpa [Method.declare, firstAbsent, secondAbsent] using twins.visibility
  isStatic := by
    simpa [Method.declare, firstAbsent, secondAbsent] using twins.isStatic
  params := by simpa [Method.declare, firstAbsent, secondAbsent] using twins.params
  returnType := by
    simpa [Method.declare, firstAbsent, secondAbsent] using twins.returnType
  table := by
    intro other steady
    rw [Method.getElem?_declare firstAbsent, Method.getElem?_declare secondAbsent,
      twins.nextFreeSlot, twins.table other steady]
    rcases named with rfl | ⟨firstTemporary, secondTemporary⟩
    · rfl
    · have firstOther : firstName ≠ other :=
        fun same => firstTemporary (same ▸ steady)
      have secondOther : secondName ≠ other :=
        fun same => secondTemporary (same ▸ steady)
      rw [if_neg firstOther, if_neg secondOther]
  nextFreeSlot := by
    rw [Method.nextFreeSlot_declare firstAbsent,
      Method.nextFreeSlot_declare secondAbsent, twins.nextFreeSlot]
  instrs := by
    have sameInstrs (method : Method) (other : String) :
        (method.declare other type scope).instrs = method.instrs := by
      unfold Method.declare
      split <;> rfl
    rw [sameInstrs, sameInstrs]
    refine twins.instrs.imp fun _ _ alike => alike.mono fun operands => ?_
    cases operands with
    | literal value type => exact .literal value type
    | steady type isSteady => exact .steady type isSteady
    | placed type isFirst isSecond =>
        exact .placed type (Method.slot?_declare _ _ _ isFirst)
          (Method.slot?_declare _ _ _ isSecond)

/-- One more instruction for each. -/
def emit
    (twins : Twins symbols name)
    {left right : Instr}
    (alike : twins.Instrs left right) :
    Twins symbols name :=
  { twins with
    first := { twins.first with instrs := twins.first.instrs ++ [left] }
    second := { twins.second with instrs := twins.second.instrs ++ [right] }
    instrs := List.rel_append twins.instrs (.cons alike .nil) }

/--
Two states of lowering with the methods in progress, under the same assignment.
-/
structure At
    (twins : Twins symbols name)
    (firstState secondState : Lowering) : Prop where
  first : firstState.current? = some twins.first
  second : secondState.current? = some twins.second
  assigned : firstState.assigned? = secondState.assigned?

namespace At

variable {first second : Lowering}

theorem methodName_first
    (are : twins.At first second) :
    first.methodName = name := by
  rw [Lowering.methodName, are.first]
  exact twins.isFirst

theorem methodName_second
    (are : twins.At first second) :
    second.methodName = name := by
  rw [Lowering.methodName, are.second]
  exact twins.isSecond

theorem isField_eq
    (are : twins.At first second) :
    first.isField symbols = second.isField symbols := by
  funext other
  rw [Lowering.isField, Lowering.isField, are.methodName_first,
    are.methodName_second]

theorem isParam_eq
    (are : twins.At first second) :
    first.isParam = second.isParam := by
  funext other
  rw [Lowering.isParam, Lowering.isParam, are.first, are.second]
  simp only [Method.isParam, twins.params]

theorem returnType_eq
    (are : twins.At first second) :
    first.returnType = second.returnType := by
  rw [Lowering.returnType, Lowering.returnType, are.first, are.second]
  exact twins.returnType

theorem hasVariable_eq
    (are : twins.At first second)
    {other : String}
    (steady : symbols.Steady name other) :
    first.hasVariable other = second.hasVariable other := by
  rw [Lowering.hasVariable, Lowering.hasVariable, are.first, are.second]
  simp only [Std.ExtTreeMap.mem_iff_isSome_getElem?, twins.table other steady]

theorem callResult_eq
    (are : twins.At first second) :
    first.callResult = second.callResult := by
  funext type used
  rw [Lowering.callResult, Lowering.callResult, are.assigned]

/-- A call finds its method alike if the name that it may be made on is steady. -/
theorem callKind_eq
    (are : twins.At first second)
    {target : Expr}
    (steady : ∀ other type, target = .var other type → symbols.Steady name other)
    (method : String) :
    first.callKind symbols target method =
      second.callKind symbols target method := by
  refine Symbols.callKind_congr fun other type isTarget => ?_
  rw [Lowering.shadows, Lowering.shadows, are.isField_eq,
    are.hasVariable_eq (steady other type isTarget), are.methodName_first,
    are.methodName_second]

end At

/--
Where two steps succeed from states with the methods in progress, they lead to
such states, in which the methods have grown alike and the results are related.
-/
def Steps {α : Type} (twins : Twins symbols name) (first second : Lower α)
    (related : Twins symbols name → α → α → Prop) : Prop :=
  ∀ ⦃firstState secondState firstAfter secondAfter : Lowering⦄ ⦃left right : α⦄,
    twins.At firstState secondState →
    first firstState = .ok left firstAfter →
    second secondState = .ok right secondAfter →
    ∃ later : Twins symbols name,
      twins.Extends later ∧ later.At firstAfter secondAfter ∧
        related later left right

namespace Steps

variable {α β : Type} {first second : Lower α}
  {related : Twins symbols name → α → α → Prop}

theorem bind
    {firstRest secondRest : α → Lower β}
    {final : Twins symbols name → β → β → Prop}
    (former : twins.Steps first second related)
    (latter :
      ∀ later left right, twins.Extends later → related later left right →
        later.Steps (firstRest left) (secondRest right) final) :
    twins.Steps (first >>= firstRest) (second >>= secondRest) final := by
  intro firstState secondState firstAfter secondAfter _ _ are firstRan secondRan
  obtain ⟨left, _, firstRan, firstRestRan⟩ := bind_ok_iff.mp firstRan
  obtain ⟨right, _, secondRan, secondRestRan⟩ := bind_ok_iff.mp secondRan
  obtain ⟨later, extended, areLater, isRelated⟩ := former are firstRan secondRan
  obtain ⟨last, extendedLater, areLast, isFinal⟩ :=
    latter later left right extended isRelated areLater firstRestRan secondRestRan
  exact ⟨last, extended.trans extendedLater, areLast, isFinal⟩

theorem pure
    {left right : α}
    (isRelated : related twins left right) :
    twins.Steps (Pure.pure left) (Pure.pure right) related := by
  intro firstState secondState _ _ _ _ are firstRan secondRan
  obtain ⟨rfl, rfl⟩ := pure_ok_iff.mp firstRan
  obtain ⟨rfl, rfl⟩ := pure_ok_iff.mp secondRan
  exact ⟨twins, .refl twins, are, isRelated⟩

/-- What is read off from the state is alike. -/
theorem read
    {firstRest secondRest : Lowering → Lower α}
    (rest :
      ∀ firstState secondState, twins.At firstState secondState →
        twins.Steps (firstRest firstState) (secondRest secondState) related) :
    twins.Steps (MonadState.get >>= firstRest) (MonadState.get >>= secondRest)
      related := by
  intro firstState secondState _ _ _ _ are firstRan secondRan
  obtain ⟨_, _, firstGotten, firstRan⟩ := bind_ok_iff.mp firstRan
  obtain ⟨_, _, secondGotten, secondRan⟩ := bind_ok_iff.mp secondRan
  obtain ⟨rfl, rfl⟩ := get_ok_iff.mp firstGotten
  obtain ⟨rfl, rfl⟩ := get_ok_iff.mp secondGotten
  exact rest _ _ are are firstRan secondRan

/-- A declared variable is declared in both methods. -/
theorem declare
    {other : String}
    (steady : symbols.Steady name other)
    (type : ValueType)
    (scope : Scope) :
    twins.Steps (Lower.declare other type scope) (Lower.declare other type scope)
      (fun _ _ _ => True) := by
  intro firstState secondState _ _ _ _ are firstRan secondRan
  obtain rfl := modify_ok_iff.mp firstRan
  obtain rfl := modify_ok_iff.mp secondRan
  have sameMember : other ∈ twins.first.table ↔ other ∈ twins.second.table := by
    simp only [Std.ExtTreeMap.mem_iff_isSome_getElem?, twins.table other steady]
  by_cases member : other ∈ twins.first.table
  · have unchanged :
        twins.At
          (firstState.changeMethod fun method => method.declare other type scope)
          (secondState.changeMethod fun method =>
            method.declare other type scope) := by
      constructor
      · simp [Lowering.changeMethod, are.first, Method.declare, member]
      · simp [Lowering.changeMethod, are.second, Method.declare,
          sameMember.mp member]
      · exact are.assigned
    exact ⟨twins, .refl twins, unchanged, trivial⟩
  · refine ⟨twins.declare type scope member (sameMember.not.mp member) (.inl rfl),
      ⟨Method.slot?_declare _ _ _, Method.slot?_declare _ _ _⟩,
      ⟨?_, ?_, are.assigned⟩, trivial⟩
    · rw [Lowering.changeMethod, are.first]
      rfl
    · rw [Lowering.changeMethod, are.second]
      rfl

theorem emit
    {left right : Instr}
    (alike : twins.Instrs left right) :
    twins.Steps (Lower.emit left) (Lower.emit right) (fun _ _ _ => True) := by
  intro firstState secondState _ _ _ _ are firstRan secondRan
  obtain rfl := modify_ok_iff.mp firstRan
  obtain rfl := modify_ok_iff.mp secondRan
  refine ⟨twins.emit alike, ⟨id, id⟩, ⟨?_, ?_, are.assigned⟩, trivial⟩
  · rw [Lowering.changeMethod, are.first]
    rfl
  · rw [Lowering.changeMethod, are.second]
    rfl

/-- New temporaries have different names and the same slot. -/
theorem temporary
    (type : ValueType) :
    twins.Steps (Lower.temporary symbols type) (Lower.temporary symbols type)
      (fun later => later.Operands) := by
  intro firstState secondState _ _ _ _ are firstRan secondRan
  obtain ⟨rfl, rfl⟩ := Lower.temporary_ok firstRan
  obtain ⟨rfl, rfl⟩ := Lower.temporary_ok secondRan
  obtain ⟨firstTemporary, firstAbsent⟩ :=
    @Lowering.freshNumber_not_steady symbols _ _ are.first
  obtain ⟨secondTemporary, secondAbsent⟩ :=
    @Lowering.freshNumber_not_steady symbols _ _ are.second
  rw [twins.isFirst] at firstTemporary
  rw [twins.isSecond] at secondTemporary
  refine ⟨twins.declare type .localVar firstAbsent secondAbsent
      (.inr ⟨firstTemporary, secondTemporary⟩),
    ⟨Method.slot?_declare _ _ _, Method.slot?_declare _ _ _⟩,
    ⟨?_, ?_, are.assigned⟩, ?_⟩
  · rw [Lowering.changeMethod, are.first]
    rfl
  · rw [Lowering.changeMethod, are.second]
    rfl
  · have isSlot {method : Method} {other : String} (absent : other ∉ method.table) :
        (method.declare other type .localVar).slot? other =
          some method.nextFreeSlot := by
      rw [Method.slot?, Method.getElem?_declare absent, if_pos rfl]
      rfl
    exact .placed type (isSlot firstAbsent)
      (by rw [twins.nextFreeSlot]; exact isSlot secondAbsent)

/-- Values that are alike go into temporaries that are alike. -/
theorem intoTemporary
    {left right : Instr}
    (type : ValueType)
    (alike : twins.Instrs left right) :
    twins.Steps (Lower.intoTemporary symbols type left)
      (Lower.intoTemporary symbols type right) (fun later => later.Operands) := by
  refine (temporary type).bind fun later firstDest secondDest extended dest => ?_
  have stored : later.Instrs (.store firstDest left) (.store secondDest right) := by
    rw [Instr.store, Instr.store, dest.type_eq]
    exact .assign _ dest (alike.mono extended.operand)
  exact (emit stored).bind fun last _ _ extendedLater _ =>
    .pure (extendedLater.operand dest)

/-- Twins stay twins under an assignment of one type. -/
theorem underAssignment
    (type : TypeName)
    (steps : twins.Steps first second related) :
    twins.Steps (Lower.underAssignment type first)
      (Lower.underAssignment type second) related := by
  intro firstState secondState _ _ _ _ are firstRan secondRan
  obtain ⟨_, firstInner, rfl⟩ := Lower.underAssignment_ok firstRan
  obtain ⟨_, secondInner, rfl⟩ := Lower.underAssignment_ok secondRan
  have areInside :
      twins.At { firstState with assigned? := some type }
        { secondState with assigned? := some type } :=
    ⟨are.first, are.second, rfl⟩
  obtain ⟨later, extended, areLater, isRelated⟩ :=
    steps areInside firstInner secondInner
  exact ⟨later, extended, ⟨areLater.first, areLater.second, are.assigned⟩,
    isRelated⟩

/-- A name is read alike. -/
theorem nameRead
    {other : String}
    (steady : symbols.Steady name other)
    (type : TypeName) :
    twins.Steps (Lower.nameRead symbols other type)
      (Lower.nameRead symbols other type) (fun later => later.Operands) := by
  refine read fun firstState secondState are => ?_
  rw [are.isField_eq, are.isParam_eq]
  split
  · exact intoTemporary _ (.getField _ (.steady _ (symbols.steady_this _)))
  · split
    · exact .pure (.steady _ steady)
    · split
      · exact (declare steady _ _).bind fun _ _ _ _ _ => .pure (.steady _ steady)
      · exact .pure (.steady _ steady)

/-- Twins lower arguments alike if they do so with each. -/
theorem exprs
    {items : List Expr}
    (each :
      ∀ expr ∈ items, ∀ twins : Twins symbols name,
        twins.Steps (Lower.expr symbols expr) (Lower.expr symbols expr)
          (fun later => later.Operands)) :
    twins.Steps (Lower.exprs symbols items) (Lower.exprs symbols items)
      (fun later => List.Forall₂ later.Operands) := by
  induction items generalizing twins with
  | nil =>
      rw [Lower.exprs]
      exact .pure .nil
  | cons first rest inductionHypothesis =>
      rw [Lower.exprs]
      obtain ⟨firstSteps, restSteps⟩ := List.forall_mem_cons.mp each
      refine (firstSteps twins).bind fun later left right extended alike => ?_
      refine (inductionHypothesis restSteps).bind
        fun last _ _ extendedLater others => ?_
      exact .pure (.cons (extendedLater.operand alike) others)

/-- Calls are built alike, if the name that they may be made on is steady. -/
theorem callWith
    {target : Expr}
    {lowerTarget : Lower Operand}
    {lowerArguments : Lower (List Operand)}
    (method : String)
    (type : TypeName)
    (used : Bool)
    (steady :
      ∀ other annotated, target = .var other annotated → symbols.Steady name other)
    (targetSteps :
      ∀ twins : Twins symbols name,
        twins.Steps lowerTarget lowerTarget (fun later => later.Operands))
    (argumentsSteps :
      ∀ twins : Twins symbols name,
        twins.Steps lowerArguments lowerArguments
          (fun later => List.Forall₂ later.Operands)) :
    twins.Steps
      (Lower.callWith symbols target method type used lowerTarget lowerArguments)
      (Lower.callWith symbols target method type used lowerTarget lowerArguments)
      (fun later => later.Instrs) := by
  intro firstState secondState firstAfter secondAfter _ _ are firstRan secondRan
  obtain ⟨left, firstBetween, _, rfl, firstArguments, firstTarget⟩ :=
    Lower.callWith_ok firstRan
  obtain ⟨right, secondBetween, _, rfl, secondArguments, secondTarget⟩ :=
    Lower.callWith_ok secondRan
  have sameKind := are.callKind_eq steady method
  -- A static call has the name of a class for its target, any other call has an
  -- operand.
  have targets :
      ∃ later : Twins symbols name,
        twins.Extends later ∧
          later.At firstBetween secondBetween ∧
            later.Operands left right ∧
              (firstState.callKind symbols target method = .static →
                left = right) := by
    rcases firstTarget with
      ⟨other, annotated, rfl, isStatic, rfl, rfl⟩ | ⟨notStatic, firstRan⟩
    · rcases secondTarget with ⟨_, _, ⟨rfl, rfl⟩, _, rfl, rfl⟩ | ⟨notStatic, _⟩
      · exact ⟨twins, .refl twins, are, .steady _ (steady other annotated rfl),
          fun _ => rfl⟩
      · exact absurd (sameKind.symm.trans isStatic) notStatic
    · rcases secondTarget with ⟨_, _, _, isStatic, _, _⟩ | ⟨_, secondRan⟩
      · exact absurd (sameKind.trans isStatic) notStatic
      · obtain ⟨later, extended, areLater, alike⟩ :=
          targetSteps twins are firstRan secondRan
        exact ⟨later, extended, areLater, alike, fun isStatic =>
          absurd isStatic notStatic⟩
  obtain ⟨later, extended, areLater, targetAlike, static⟩ := targets
  obtain ⟨last, extendedLater, areLast, argumentsAlike⟩ :=
    argumentsSteps later areLater firstArguments secondArguments
  refine ⟨last, extended.trans extendedLater, areLast, ?_⟩
  rw [← sameKind, areLast.callResult_eq]
  exact .call _ _ (extendedLater.operand targetAlike) static argumentsAlike

/-- The results of calls that are alike go into temporaries that are alike. -/
theorem callValue
    {left right : Instr}
    (method : String)
    (alike : twins.Instrs left right) :
    twins.Steps (Lower.callValue symbols method left)
      (Lower.callValue symbols method right) (fun later => later.Operands) := by
  intro firstState secondState _ _ _ _ are firstRan secondRan
  cases alike with
  | call name result target static arguments =>
      exact intoTemporary result (.call name result target static arguments) are
        (Lower.callValue_ok firstRan) (Lower.callValue_ok secondRan)
  | _ =>
      obtain ⟨_, _, _, impossible⟩ := bind_ok_iff.mp firstRan
      exact (throw_ok_iff.mp impossible).elim

end Steps

end Twins

section

variable {symbols : Symbols} {source : MethodDef}

/-- All of the names are steady in a method. -/
def Symbols.SteadyNames
    (symbols : Symbols)
    (source : MethodDef)
    (names : List String) : Prop :=
  ∀ name ∈ names, symbols.Steady source.name name

namespace Symbols.SteadyNames

theorem left
    {first second : List String}
    (steady : symbols.SteadyNames source (first ++ second)) :
    symbols.SteadyNames source first :=
  (List.forall_mem_append.mp steady).1

theorem right
    {first second : List String}
    (steady : symbols.SteadyNames source (first ++ second)) :
    symbols.SteadyNames source second :=
  (List.forall_mem_append.mp steady).2

variable {receiver : Expr} {method : String} {arguments : List Expr}
  {type : TypeName}

theorem target
    (steady :
      symbols.SteadyNames source (Expr.call receiver method arguments type).names) :
    symbols.SteadyNames source receiver.names :=
  fun name isName => steady name (Expr.names_target_subset isName)

theorem argument
    {argument : Expr}
    (steady :
      symbols.SteadyNames source (Expr.call receiver method arguments type).names)
    (member : argument ∈ arguments) :
    symbols.SteadyNames source argument.names :=
  fun name isName => steady name (Expr.names_argument_subset member isName)

end Symbols.SteadyNames

namespace Twins.Steps

/-- Expressions are lowered alike. -/
theorem expr
    {expr : Expr}
    (steady : symbols.SteadyNames source expr.names)
    (twins : Twins symbols source.name) :
    twins.Steps (Lower.expr symbols expr) (Lower.expr symbols expr)
      (fun later => later.Operands) := by
  induction expr generalizing twins with
  | literal value =>
      cases value <;>
      · rw [Lower.expr]
        exact .pure (.literal _ _)
  | var name type =>
      rw [Lower.expr]
      exact nameRead (steady name List.mem_cons_self) type
  | receiver type =>
      rw [Lower.expr]
      exact .pure (.steady _ (symbols.steady_this _))
  | binary operator left right type leftHypothesis rightHypothesis =>
      rw [Lower.expr]
      refine (leftHypothesis steady.left twins).bind fun later _ _ _ leftAlike => ?_
      refine (rightHypothesis steady.right later).bind
        fun last _ _ extended rightAlike => ?_
      exact intoTemporary
        _ (.binary operator _ (extended.operand leftAlike) rightAlike)
  | call target method arguments type targetHypothesis argumentsHypothesis =>
      rw [Lower.expr]
      refine (callWith method type true ?_ (targetHypothesis steady.target)
        fun twins =>
        exprs fun argument member =>
          argumentsHypothesis argument member (steady.argument member)).bind
        fun later _ _ _ callAlike => callValue method callAlike
      rintro name annotated rfl
      exact steady.target name List.mem_cons_self
  | newObject className type =>
      rw [Lower.expr]
      refine (intoTemporary _ (.newObject className _)).bind
        fun later _ _ _ alike => ?_
      refine (emit ?_).bind fun last _ _ extended _ =>
        .pure (extended.operand alike)
      exact .call _ _ alike (fun isStatic => by cases isStatic) .nil
  | newArray size type sizeHypothesis =>
      rw [Lower.expr]
      exact (sizeHypothesis steady twins).bind fun later _ _ _ alike =>
        intoTemporary _ (.newArray _ alike)
  | element array index type arrayHypothesis indexHypothesis =>
      rw [Lower.expr]
      refine (arrayHypothesis steady.left twins).bind fun later _ _ _ arrayAlike =>
        ?_
      refine (indexHypothesis steady.right later).bind
        fun last _ _ extended indexAlike => ?_
      exact intoTemporary _ (.element _ (extended.operand arrayAlike) indexAlike)
  | length array type arrayHypothesis =>
      rw [Lower.expr]
      exact (arrayHypothesis steady twins).bind fun later _ _ _ alike =>
        intoTemporary _ (.length _ alike)

/-- Twins lower calls with steady names alike. -/
theorem call
    {target : Expr}
    {method : String}
    {arguments : List Expr}
    {type : TypeName}
    (steady :
      symbols.SteadyNames source (Expr.call target method arguments type).names)
    (used : Bool)
    (twins : Twins symbols source.name) :
    twins.Steps (Lower.call symbols target method arguments type used)
      (Lower.call symbols target method arguments type used)
        (fun later => later.Instrs) := by
  refine callWith method type used ?_ (expr steady.target) fun twins =>
    exprs fun argument member => expr (steady.argument member)
  rintro name annotated rfl
  exact steady.target name List.mem_cons_self

/-- The values of assignments are lowered alike. -/
theorem value
    {value : Expr}
    (steady : symbols.SteadyNames source value.names)
    (twins : Twins symbols source.name) :
    twins.Steps (Lower.value symbols value) (Lower.value symbols value)
      (fun later => later.Instrs) := by
  cases value with
  | binary operator left right type =>
      refine (expr steady.left twins).bind fun later _ _ _ leftAlike => ?_
      refine (expr steady.right later).bind fun last _ _ extended rightAlike => ?_
      exact .pure (.binary operator _ (extended.operand leftAlike) rightAlike)
  | call target method arguments type => exact call steady true twins
  | newObject className type => exact .pure (.newObject className _)
  | newArray size type =>
      exact (@expr _ _ size steady twins).bind fun later _ _ _ alike =>
        .pure (.newArray _ alike)
  | _ =>
      exact (expr steady twins).bind fun later _ _ _ alike => .pure (.single alike)

/-- Twins lower assignments to variables alike, as long as names are steady. -/
theorem assignVariable
    {name : String}
    {type : TypeName}
    {value : Expr}
    (steady : symbols.SteadyNames source (Stmt.assign name type value).names)
    (twins : Twins symbols source.name) :
    twins.Steps (Lower.assignVariable symbols name type value)
      (Lower.assignVariable symbols name type value) (fun _ _ _ => True) := by
  obtain ⟨nameSteady, valueSteady⟩ := List.forall_mem_cons.mp steady
  refine (underAssignment type (Steps.value valueSteady twins)).bind
    fun later left right _ alike => ?_
  refine read fun firstState secondState are => ?_
  rw [are.isParam_eq, alike.isNewObject_eq]
  refine (declare nameSteady _ _).bind fun last _ _ extended _ => ?_
  have dest :
      last.Operands (.var name (.ofTypeName type)) (.var name (.ofTypeName type)) :=
    .steady _ nameSteady
  refine (emit (.assign _ dest (alike.mono extended.operand))).bind
    fun final _ _ extendedLast _ => ?_
  split
  · exact emit
      (.call _ _ (extendedLast.operand dest)
        (fun isStatic => by cases isStatic) .nil)
  · exact .pure trivial

/-- Statements are lowered alike. -/
theorem stmt
    {stmt : Stmt}
    (steady : symbols.SteadyNames source stmt.names)
    (twins : Twins symbols source.name) :
    twins.Steps (Lower.stmt symbols stmt) (Lower.stmt symbols stmt)
      (fun _ _ _ => True) := by
  cases stmt with
  | assign name type value =>
      refine read fun firstState secondState are => ?_
      rw [are.isField_eq]
      split
      · have valueSteady := (List.forall_mem_cons.mp steady).2
        exact (underAssignment type (expr valueSteady twins)).bind
          fun later _ _ _ alike =>
          emit (.putField _ (.steady _ (symbols.steady_this _)) alike)
      · exact assignVariable steady twins
  | evaluate value =>
      cases value with
      | call target method arguments type =>
          exact (@call _ _ target _ _ _ steady false twins).bind
            fun later _ _ _ alike => emit alike
      | _ => exact (expr steady twins).bind fun later _ _ _ _ => .pure trivial
  | ret value =>
      cases value with
      | none =>
          refine read fun firstState secondState are => ?_
          rw [are.returnType_eq]
          exact emit (.retNone _)
      | some result =>
          refine read fun firstState secondState are => ?_
          rw [are.returnType_eq]
          exact (@expr _ _ result steady twins).bind fun later _ _ _ alike =>
            emit (.ret _ alike)

/-- Twins lower statements with steady names alike. -/
theorem stmts
    {body : List Stmt}
    (steady : symbols.SteadyNames source (body.flatMap Stmt.names))
    (twins : Twins symbols source.name) :
    twins.Steps (Lower.stmts symbols body) (Lower.stmts symbols body)
      (fun _ _ _ => True) := by
  induction body generalizing twins with
  | nil => exact .pure trivial
  | cons first rest inductionHypothesis =>
      exact (stmt steady.left twins).bind fun later _ _ _ _ =>
        inductionHypothesis steady.right later

end Twins.Steps

namespace Twins

/-- A method before its body, twice. -/
def begin (symbols : Symbols) (source : MethodDef) : Twins symbols source.name where
  first := source.begin symbols.className
  second := source.begin symbols.className
  isFirst := rfl
  isSecond := rfl
  visibility := rfl
  isStatic := rfl
  params := rfl
  returnType := rfl
  table _ _ := rfl
  nextFreeSlot := rfl
  instrs := .nil

/-- Either both methods end in a return or none of them. -/
theorem endsInReturn_eq
    {name : String}
    (twins : Twins symbols name) :
    twins.first.instrs.getLast?.any Instr.isReturn =
      twins.second.instrs.getLast?.any Instr.isReturn := by
  have sameReturns :
      twins.first.instrs.map Instr.isReturn =
        twins.second.instrs.map Instr.isReturn := by
    rw [← List.forall₂_eq_eq_eq, List.forall₂_map_left_iff,
      List.forall₂_map_right_iff]
    exact twins.instrs.imp fun _ _ alike => alike.isReturn_eq
  have sameLast := congrArg (fun returns => returns.getLast?.any id) sameReturns
  simpa only [List.getLast?_map, Option.any_map, id] using sameLast

/-- Both methods are finished alike. -/
def finish {name : String} (twins : Twins symbols name) : Twins symbols name :=
  { twins with
    first := twins.first.finish
    second := twins.second.finish
    instrs := by
      show List.Forall₂ _
        (if twins.first.returnType.isVoid &&
          !twins.first.instrs.getLast?.any Instr.isReturn then
          twins.first.instrs ++ [.ret .void none]
        else
          twins.first.instrs)
        (if twins.second.returnType.isVoid &&
          !twins.second.instrs.getLast?.any Instr.isReturn then
          twins.second.instrs ++ [.ret .void none]
        else
          twins.second.instrs)
      rw [twins.returnType, twins.endsInReturn_eq]
      split
      · exact List.rel_append twins.instrs (.cons (.retNone _) .nil)
      · exact twins.instrs }

end Twins

/--
A method that is lowered twice, whatever was lowered before, becomes
two methods that are alike.
-/
theorem Lower.method_twins
    {firstState secondState firstAfter secondAfter : Lowering}
    {first second : Method}
    (steady : symbols.SteadyNames source source.names)
    (assigned : firstState.assigned? = secondState.assigned?)
    (firstRan : Lower.method symbols source firstState = .ok first firstAfter)
    (secondRan : Lower.method symbols source secondState = .ok second secondAfter) :
    ∃ twins : Twins symbols source.name, twins.first = first ∧
      twins.second = second := by
  obtain ⟨_, firstStmts, rfl, _⟩ := Lower.method_ok firstRan
  obtain ⟨_, secondStmts, rfl, _⟩ := Lower.method_ok secondRan
  have begun :
      (Twins.begin symbols source).At
        { firstState with current? := some (source.begin symbols.className) }
        { secondState with current? := some (source.begin symbols.className) } :=
    ⟨rfl, rfl, assigned⟩
  obtain ⟨twins, _, are, _⟩ :=
    Twins.Steps.stmts steady (.begin symbols source) begun firstStmts secondStmts
  refine ⟨twins.finish, ?_, ?_⟩
  · rw [are.first, Option.getD_some]
    rfl
  · rw [are.second, Option.getD_some]
    rfl

end

end MiniJava
