import MiniJava.Proofs.Collections
import MiniJava.Proofs.EmissionSegments

namespace MiniJava.Assembly

/-!
# What emitted instructions do

Each step of emission realizes the meaning of what it emits: an operand is
pushed, an operator takes two values from the stack and leaves one, and an
instruction of three-address code does on the slots what it means there and
leaves the stack as it was.
-/

open Code (Operand ValueType CallKind Method ClassCode Store)

/-- Leaves the value of a run on the stack. -/
def pushing
    (value : Store Nat → Run Jvm.Event Value) : Effect := fun stack slots => do
  let value ← value slots
  return (value :: stack, slots)

/-- The setting in which the code of a method runs on its slots. -/
abbrev slotSetting (world : World Jvm.Event) (unit : ClassCode) (method : Method) :
    Code.Setting Jvm.Event Nat :=
  .overSlots (Jvm.environment world unit) method

section

variable {world : World Jvm.Event} {method : Method}

/--
A value has the kind of a slot exactly if it fits the type that the slot is for.
-/
theorem kindOf_eq_slotKind_iff
    (value : Value)
    (type : ValueType) :
    Jvm.kindOf value = slotKind type ↔ value.fits type = true := by
  cases value <;> cases isReference : type.isReference <;>
    simp [Jvm.kindOf, slotKind, Value.fits, isReference]

/-- The slot of an operand is found where the method has a variable of its name. -/
theorem slotOf_ok
    {operand : Operand}
    {state after : Emitter}
    {slot : Nat}
    (current : state.current? = some method)
    (ran : Emit.slotOf operand state = .ok slot after) :
    after = state ∧
      ∃ name type, operand = .var name type ∧ method.slot? name = some slot := by
  obtain ⟨found, between, got, rest⟩ := bind_ok_iff.mp ran
  obtain ⟨rfl, rfl⟩ := get_ok_iff.mp got
  simp only [current] at rest
  cases operand with
  | literal value type =>
      exact (throw_ok_iff.mp rest).elim
  | var name type =>
      simp only [Operand.name?] at rest
      cases located : method.slot? name with
      | none =>
          rw [located] at rest
          exact (throw_ok_iff.mp rest).elim
      | some found =>
          rw [located] at rest
          obtain ⟨rfl, rfl⟩ := pure_ok_iff.mp rest
          exact ⟨rfl, name, type, rfl, located⟩

/--
A step that looks up a slot first realizes what it realizes for every slot found.
-/
theorem Realizes.ofSlot
    {α : Type}
    {operand : Operand}
    {next : Nat → Emit α}
    {effect : Effect}
    (realizes :
      ∀ name type slot,
        operand = .var name type →
        method.slot? name = some slot →
        Realizes world method (next slot) effect) :
    Realizes world method (Emit.slotOf operand >>= next) effect := by
  intro state value after current below ran
  obtain ⟨slot, between, found, rest⟩ := bind_ok_iff.mp ran
  obtain ⟨rfl, name, type, isVariable, located⟩ := slotOf_ok current found
  exact realizes name type slot isVariable located between value after current
    below rest

/-- Loading an operand pushes what it holds. -/
theorem load_realizes (unit : ClassCode) (operand : Operand) :
    Realizes world method (Emit.load operand)
      (pushing fun slots =>
        Run.require
          ((slotSetting world unit method).held slots operand).value?) := by
  refine Realizes.ofSlot ?_
  rintro name type slot rfl located
  refine Realizes.instruction rfl ?_
  intro body state
  have isLocated : (slotSetting world unit method).locate name = some slot :=
    located
  simp only [Jvm.execute, pushing, Code.Setting.held, isLocated, Option.bind_some,
    Operand.type, Held.ofContent]
  cases content : state.slots slot with
  | none =>
      rfl
  | some value =>
      cases fits : value.fits type with
      | true =>
          have sameKind := (kindOf_eq_slotKind_iff value type).mpr fits
          simp [sameKind, Option.filter, fits, Jvm.State.next]
      | false =>
          have otherKind : Jvm.kindOf value ≠ slotKind type := by
            rw [Ne, kindOf_eq_slotKind_iff, fits]
            exact Bool.false_ne_true
          simp [otherKind, Option.filter, fits]

theorem push_realizes (unit : ClassCode) (operand : Operand) :
    Realizes world method (Emit.push operand)
      (pushing fun slots =>
        Run.require
          ((slotSetting world unit method).held slots operand).value?) := by
  cases operand with
  | var name type =>
      exact load_realizes unit (.var name type)
  | literal value type =>
      refine Realizes.instruction rfl ?_
      intro body state
      simp [Jvm.execute, pushing, Code.Setting.held, Jvm.State.next]

/-- Leaves the values of operands on the stack, the last one on top. -/
def pushingAll
    (setting : Code.Setting Jvm.Event Nat)
    (operands : List Operand) : Effect :=
  fun stack slots => do
    let values ← Run.require (Held.values? (operands.map (setting.held slots)))
    return (values.reverse ++ stack, slots)

/-- Pushing operands leaves their values on the stack. -/
theorem pushAll_realizes (unit : ClassCode) (operands : List Operand) :
    Realizes world method (Emit.pushAll operands)
      (pushingAll (slotSetting world unit method) operands) := by
  induction operands with
  | nil =>
      refine Realizes.nothing.congr ?_
      intro stack slots
      rfl
  | cons first rest inductionHypothesis =>
      refine ((push_realizes unit first).follow inductionHypothesis).congr ?_
      intro stack slots
      simp only [Effect.andThen, pushing, pushingAll, List.map_cons, Held.values?,
        bind_assoc, pure_bind]
      cases ((slotSetting world unit method).held slots first).value? with
      | none =>
          rfl
      | some value =>
          simp only [Run.require_some, pure_bind, Option.bind_eq_bind,
            Option.bind_some]
          cases Held.values? (rest.map ((slotSetting world unit method).held slots))
            with
          | none =>
              rfl
          | some values =>
              simp

/--
Takes two integers from the stack and leaves the value of an operator on them.
-/
def operating (operator : Operator) : Effect := fun stack slots =>
  match stack with
  | .int right :: .int left :: rest => do
      let value ← operator.run left right
      return (value :: rest, slots)
  | _ => throw .illTyped

/-- An operation of the machine works like the operator it stands for. -/
theorem arith_realizes
    {operation : Jvm.Arithmetic}
    {operator : Operator}
    (same : ∀ left right, operation.run left right = operator.run left right) :
    Realizes world method (Emit.instr (.arith operation)) (operating operator) := by
  refine Realizes.instruction rfl ?_
  intro body state
  rcases state with ⟨position, stack, slots⟩
  match stack with
  | [] => rfl
  | [.int _] => rfl
  | [.reference _] => rfl
  | .reference _ :: _ :: _ => rfl
  | .int _ :: .reference _ :: _ => rfl
  | .int right :: .int left :: rest =>
      simp only [Jvm.execute, operating, same, bind_assoc, pure_bind,
        Jvm.State.next]

/-- A label of a segment that nothing before it has is found in the segment. -/
private theorem target?_placed
    {before code after : List Jvm.Instr}
    {name : String}
    {index : Nat}
    (absent : .label name ∉ before)
    (found : Jvm.target? code name = some index) :
    Jvm.target? (before ++ code ++ after) name = some (before.length + index) := by
  have noneBefore :
      before.findIdx? (fun instr => decide (instr = .label name)) = none := by
    rw [List.findIdx?_eq_none_iff]
    intro instr member
    simp only [decide_eq_false_iff_not]
    intro same
    exact absent (same ▸ member)
  have foundInside :
      code.findIdx? (fun instr => decide (instr = .label name)) = some index :=
    found
  simp only [Jvm.target?, List.append_assoc, List.findIdx?_append, noneBefore,
    foundInside, Option.none_or, Option.some_or, Option.map_some, Nat.add_comm]

/-- The code of a comparison. -/
def comparison (onTrue done : String) : List Jvm.Instr :=
  [.jumpIfLess onTrue, .const 0, .jump done, .label onTrue, .const 1, .label done]

/-- Both ways through a comparison leave one integer and meet behind it. -/
theorem comparison_performs
    {before : List Jvm.Instr}
    {onTrue done : String}
    (different : onTrue ≠ done)
    (trueAbsent : .label onTrue ∉ before)
    (doneAbsent : .label done ∉ before) :
    Performs world before (comparison onTrue done) (operating .less) := by
  intro after stack slots events
  have placed (index : Nat) (inside : index < 6) :
      (before ++ comparison onTrue done ++ after)[before.length + index]? =
        (comparison onTrue done)[index]? :=
    getElem?_placed before _ after inside
  have trueTarget :
      Jvm.target? (before ++ comparison onTrue done ++ after) onTrue =
        some (before.length + 3) :=
    target?_placed trueAbsent
      (by simp [Jvm.target?, comparison, List.findIdx?_cons])
  have doneTarget :
      Jvm.target? (before ++ comparison onTrue done ++ after) done =
        some (before.length + 5) :=
    target?_placed doneAbsent
      (by simp [Jvm.target?, comparison, List.findIdx?_cons, different])
  have first :
      Jvm.Runs world (before ++ comparison onTrue done ++ after)
        (⟨before.length, stack, slots⟩, events)
        (Jvm.execute world (before ++ comparison onTrue done ++ after)
          ⟨before.length, stack, slots⟩ (.jumpIfLess onTrue) events) :=
    Jvm.Runs.instruction (placed 0 (by decide)) events
  -- Without two integers on the stack, the first instruction already ends the run.
  match stack with
  | [] => exact first
  | [.int _] => exact first
  | [.reference _] => exact first
  | .reference _ :: _ :: _ => exact first
  | .int _ :: .reference _ :: _ => exact first
  | .int right :: .int left :: rest =>
      by_cases less : left < right
      · simp only [Jvm.execute, less, ↓reduceIte, trueTarget, Run.require_some,
          pure_bind] at first
        simp only [operating, Operator.run, less, ↓reduceIte, pure_bind]
        have atLabel :
            Jvm.Reaches world (before ++ comparison onTrue done ++ after)
              (⟨before.length + 3, rest, slots⟩, events)
              (⟨before.length + 4, rest, slots⟩, events) :=
          .instruction (placed 3 (by decide)) rfl
        have pushed :
            Jvm.Reaches world (before ++ comparison onTrue done ++ after)
              (⟨before.length + 4, rest, slots⟩, events)
              (⟨before.length + 5, .int 1 :: rest, slots⟩, events) :=
          .instruction (placed 4 (by decide)) rfl
        have atEnd :
            Jvm.Reaches world (before ++ comparison onTrue done ++ after)
              (⟨before.length + 5, .int 1 :: rest, slots⟩, events)
              (⟨before.length + 6, .int 1 :: rest, slots⟩, events) :=
          .instruction (placed 5 (by decide)) rfl
        exact Jvm.Reaches.trans first (atLabel.trans (pushed.trans atEnd))
      · simp only [Jvm.execute, less, ↓reduceIte] at first
        simp only [operating, Operator.run, less, ↓reduceIte, pure_bind]
        have pushed :
            Jvm.Reaches world (before ++ comparison onTrue done ++ after)
              (⟨before.length + 1, rest, slots⟩, events)
              (⟨before.length + 2, .int 0 :: rest, slots⟩, events) :=
          .instruction (placed 1 (by decide)) rfl
        have jumped :
            Jvm.Reaches world (before ++ comparison onTrue done ++ after)
              (⟨before.length + 2, .int 0 :: rest, slots⟩, events)
              (⟨before.length + 5, .int 0 :: rest, slots⟩, events) := by
          refine .instruction (placed 2 (by decide)) ?_
          simp only [Jvm.execute, doneTarget, Run.require_some, pure_bind]
          rfl
        have atEnd :
            Jvm.Reaches world (before ++ comparison onTrue done ++ after)
              (⟨before.length + 5, .int 0 :: rest, slots⟩, events)
              (⟨before.length + 6, .int 0 :: rest, slots⟩, events) :=
          .instruction (placed 5 (by decide)) rfl
        exact Jvm.Reaches.trans first (pushed.trans (jumped.trans atEnd))

/-- Comparing appends a comparison with two new labels. -/
theorem compareLess_extends
    {state after : Emitter}
    {value : Unit}
    (ran : Emit.compareLess state = .ok value after) :
    ∃ onTrue done, onTrue ≠ done ∧
      state.Extends after (comparison onTrue done) := by
  cases ran
  refine ⟨"cmp_true" ++ "_" ++ Decimal.ofNat state.labels,
    "cmp_end" ++ "_" ++ Decimal.ofNat (state.labels + 1), Numbered.stems_differ _ _,
    rfl, rfl, rfl, ?_, ?_, ?_⟩
  · simp [comparison]
  · exact Nat.le_add_right _ 2
  · intro name member
    simp only [comparison, List.mem_cons, Jvm.Instr.label.injEq, reduceCtorEq,
      List.not_mem_nil, false_or, or_false] at member
    rcases member with rfl | rfl
    · exact ⟨state.labels, Nat.le_refl _, Nat.lt_succ_of_lt (Nat.lt_succ_self _),
        .inl rfl⟩
    · exact ⟨state.labels + 1, Nat.le_succ _, Nat.lt_succ_self _, .inr rfl⟩

/-- Comparing leaves whether the lower integer is less than the upper one. -/
theorem compareLess_realizes :
    Realizes world method Emit.compareLess (operating .less) := by
  intro state value after _ below ran
  obtain ⟨onTrue, done, different, extended⟩ := compareLess_extends ran
  refine ⟨comparison onTrue done, extended, ?_⟩
  have absent (name : String) (isNew : .label name ∈ comparison onTrue done) :
      .label name ∉ state.body := by
    intro isOld
    obtain ⟨number, atLeast, _, numbered⟩ := extended.numbered name isNew
    obtain ⟨other, isBelow, otherNumbered⟩ := below name isOld
    have same := numbered.unique otherNumbered
    omega
  apply comparison_performs different
  · exact absent onTrue (by simp [comparison])
  · exact absent done (by simp [comparison])

theorem operate_realizes (operator : Operator) :
    Realizes world method (Emit.operate operator) (operating operator) := by
  cases operator with
  | add => exact arith_realizes fun _ _ => rfl
  | sub => exact arith_realizes fun _ _ => rfl
  | mul => exact arith_realizes fun _ _ => rfl
  | div => exact arith_realizes fun _ _ => rfl
  | and => exact arith_realizes fun _ _ => rfl
  | or => exact arith_realizes fun _ _ => rfl
  | less => exact compareLess_realizes

end

end MiniJava.Assembly
