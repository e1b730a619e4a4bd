import MiniJava.Assembly.Generation
import MiniJava.Proofs.MachineRuns
import MiniJava.Proofs.Semantics.Code

namespace MiniJava.Assembly

/-!
# Segments of emitted code

Emission appends instructions to the body of a method. A step of emission
realizes an effect on the stack and the slots if the segment it appends, placed
anywhere in a body after what was emitted before, makes the machine do just
that and go on behind the segment. Effects of consecutive segments compose.

Jumps go to the first label of a name in the whole body. The labels of a
segment have numbers that no label before it has, so what comes before a
segment never catches its jumps.
-/

open Code (Operand Method ClassCode Store)

/-- What a segment does with the stack and the slots. -/
abbrev Effect := List Value → Store Nat → Run Jvm.Event (List Value × Store Nat)

/-- One effect after the other. -/
def Effect.andThen (first second : Effect) : Effect := fun stack slots => do
  let (stack, slots) ← first stack slots
  second stack slots

/--
Placed after `before`, the code has the effect and the machine goes on behind it.
-/
def Performs
    (world : World Jvm.Event)
    (before code : List Jvm.Instr)
    (effect : Effect) : Prop :=
  ∀ (after : List Jvm.Instr) (stack : List Value) (slots : Store Nat)
    (events : List Jvm.Event),
    Jvm.Runs world (before ++ code ++ after) (⟨before.length, stack, slots⟩, events)
      ((do
        let (stack, slots) ← effect stack slots
        return ⟨before.length + code.length, stack, slots⟩ :
          Run Jvm.Event Jvm.State) events)

namespace Performs

variable {world : World Jvm.Event} {before : List Jvm.Instr}

theorem nothing :
    Performs world before [] fun stack slots => pure (stack, slots) := by
  intro after stack slots events
  exact Relation.ReflTransGen.refl

/-- An instruction that does not jump has the effect of running it. -/
theorem single
    {instr : Jvm.Instr}
    {effect : Effect}
    (meaning :
      ∀ body state,
        Jvm.execute world body state instr =
          (do
            let (stack, slots) ← effect state.stack state.slots
            return ⟨state.position + 1, stack, slots⟩ : Run Jvm.Event Jvm.State)) :
    Performs world before [instr] effect := by
  intro after stack slots events
  have found : (before ++ [instr] ++ after)[before.length]? = some instr := by
    simp
  have ran :
      Jvm.Runs world (before ++ [instr] ++ after)
        (⟨before.length, stack, slots⟩, events)
        (Jvm.execute world (before ++ [instr] ++ after)
          ⟨before.length, stack, slots⟩ instr events) :=
    Jvm.Runs.instruction found events
  rw [meaning] at ran
  exact ran

/-- Consecutive segments have their effects one after the other. -/
theorem append
    {first second : List Jvm.Instr}
    {former latter : Effect}
    (firstPerforms : Performs world before first former)
    (secondPerforms : Performs world (before ++ first) second latter) :
    Performs world before (first ++ second) (former.andThen latter) := by
  intro after stack slots events
  have firstRun := firstPerforms (second ++ after) stack slots events
  have placed :
      before ++ first ++ (second ++ after) =
        before ++ (first ++ second) ++ after := by
    simp only [List.append_assoc]
  rw [placed] at firstRun
  simp only [Effect.andThen, bind_assoc]
  refine Jvm.Runs.andThen firstRun ?_
  rintro ⟨stack, slots⟩ later _
  have secondRun := secondPerforms after stack slots later
  have samePlace :
      before ++ first ++ second ++ after =
        before ++ (first ++ second) ++ after := by
    simp only [List.append_assoc]
  rw [samePlace] at secondRun
  simpa only [List.length_append, Nat.add_assoc] using secondRun

end Performs

/-- A label is made from a number. -/
def Numbered (number : Nat) (name : String) : Prop :=
  name = "cmp_true" ++ "_" ++ Decimal.ofNat number ∨
    name = "cmp_end" ++ "_" ++ Decimal.ofNat number

namespace Numbered

/-- A label that jumps on true is never one that ends a comparison. -/
theorem stems_differ (first second : Nat) :
    "cmp_true" ++ "_" ++ Decimal.ofNat first ≠
      "cmp_end" ++ "_" ++ Decimal.ofNat second := by
  intro same
  have sameList := congrArg (fun text => text.toList[4]?) same
  simp [String.toList_append] at sameList

/-- The number of a label can be read off. -/
theorem unique
    {first second : Nat}
    {name : String}
    (numberedFirst : Numbered first name)
    (numberedSecond : Numbered second name) :
    first = second := by
  rcases numberedFirst with rfl | rfl
  · rcases numberedSecond with same | same
    · exact Decimal.ofNat_injective (String.append_right_inj _ |>.mp same)
    · exact (stems_differ _ _ same).elim
  · rcases numberedSecond with same | same
    · exact (stems_differ _ _ same.symm).elim
    · exact Decimal.ofNat_injective (String.append_right_inj _ |>.mp same)

end Numbered

namespace Emitter

/-- The labels of the body have numbers that were given out. -/
def LabelsBelow (state : Emitter) : Prop :=
  ∀ name, .label name ∈ state.body → ∃ number < state.labels, Numbered number name

/--
A state that differs from an earlier one by a segment of code with new labels.
-/
structure Extends (state after : Emitter) (code : List Jvm.Instr) : Prop where
  lines : after.lines = state.lines
  current : after.current? = state.current?
  overflowed : after.overflowed = state.overflowed
  body : after.body = state.body ++ code
  labels : state.labels ≤ after.labels
  numbered :
    ∀ name,
      .label name ∈ code →
      ∃ number, state.labels ≤ number ∧ number < after.labels ∧ Numbered number name

namespace Extends

/-- A state extends itself by no code. -/
theorem refl (state : Emitter) : state.Extends state [] where
  lines := rfl
  current := rfl
  overflowed := rfl
  body := by simp
  labels := Nat.le_refl _
  numbered := by simp

/-- Segments are appended one after the other. -/
theorem trans
    {first second third : Emitter}
    {former latter : List Jvm.Instr}
    (firstExtends : first.Extends second former)
    (secondExtends : second.Extends third latter) :
    first.Extends third (former ++ latter) where
  lines := secondExtends.lines.trans firstExtends.lines
  current := secondExtends.current.trans firstExtends.current
  overflowed := secondExtends.overflowed.trans firstExtends.overflowed
  body := by
    rw [secondExtends.body, firstExtends.body, List.append_assoc]
  labels := Nat.le_trans firstExtends.labels secondExtends.labels
  numbered := by
    intro name member
    rcases List.mem_append.mp member with inFormer | inLatter
    · obtain ⟨number, atLeast, below, numbered⟩ :=
        firstExtends.numbered name inFormer
      exact ⟨number, atLeast, Nat.lt_of_lt_of_le below secondExtends.labels,
        numbered⟩
    · obtain ⟨number, atLeast, below, numbered⟩ :=
        secondExtends.numbered name inLatter
      exact ⟨number, Nat.le_trans firstExtends.labels atLeast, below, numbered⟩

/-- Code that is appended later has other labels. -/
theorem apart
    {first second third : Emitter}
    {former latter : List Jvm.Instr}
    (firstExtends : first.Extends second former)
    (secondExtends : second.Extends third latter) :
    ∀ name, .label name ∈ former → .label name ∉ latter := by
  intro name inFormer inLatter
  obtain ⟨number, _, isBelow, numbered⟩ := firstExtends.numbered name inFormer
  obtain ⟨later, atLeast, _, laterNumbered⟩ := secondExtends.numbered name inLatter
  have same := numbered.unique laterNumbered
  omega

/-- The numbers of all labels stay below the count of labels. -/
theorem labelsBelow
    {state after : Emitter}
    {code : List Jvm.Instr}
    (extended : state.Extends after code)
    (below : state.LabelsBelow) :
    after.LabelsBelow := by
  intro name member
  rw [extended.body] at member
  rcases List.mem_append.mp member with inBody | inCode
  · obtain ⟨number, isBelow, numbered⟩ := below name inBody
    exact ⟨number, Nat.lt_of_lt_of_le isBelow extended.labels, numbered⟩
  · obtain ⟨number, _, isBelow, numbered⟩ := extended.numbered name inCode
    exact ⟨number, isBelow, numbered⟩

end Extends

end Emitter

/--
Whenever the step succeeds while a method is emitted, its segment has the effect.
-/
def Realizes
    (world : World Jvm.Event)
    (method : Method)
    {α : Type}
    (action : Emit α)
    (effect : Effect) : Prop :=
  ∀ (state : Emitter) (value : α) (after : Emitter),
    state.current? = some method →
    state.LabelsBelow →
    action state = .ok value after →
    ∃ code, state.Extends after code ∧ Performs world state.body code effect

namespace Realizes

variable {world : World Jvm.Event} {method : Method}

/-- Steps in sequence have their effects in sequence. -/
theorem andThen
    {α β : Type}
    {first : Emit α}
    {second : α → Emit β}
    {former latter : Effect}
    (firstRealizes : Realizes world method first former)
    (secondRealizes : ∀ value, Realizes world method (second value) latter) :
    Realizes world method (first >>= second) (former.andThen latter) := by
  intro state result after current below ran
  obtain ⟨value, between, firstRan, secondRan⟩ := bind_ok_iff.mp ran
  obtain ⟨firstCode, firstExtends, firstPerforms⟩ :=
    firstRealizes state value between current below firstRan
  obtain ⟨secondCode, secondExtends, secondPerforms⟩ :=
    secondRealizes value between result after
      (firstExtends.current.trans current) (firstExtends.labelsBelow below)
        secondRan
  rw [firstExtends.body] at secondPerforms
  exact ⟨firstCode ++ secondCode, firstExtends.trans secondExtends,
    firstPerforms.append secondPerforms⟩

theorem follow
    {α : Type}
    {first : Emit Unit}
    {second : Emit α}
    {former latter : Effect}
    (firstRealizes : Realizes world method first former)
    (secondRealizes : Realizes world method second latter) :
    Realizes world method (do first; second) (former.andThen latter) :=
  firstRealizes.andThen fun _ => secondRealizes

theorem congr
    {α : Type}
    {action : Emit α}
    {effect other : Effect}
    (realizes : Realizes world method action effect)
    (same : ∀ stack slots, effect stack slots = other stack slots) :
    Realizes world method action other := by
  have equal : effect = other :=
    funext fun stack => funext fun slots => same stack slots
  exact equal ▸ realizes

/-- A step that fails realizes everything. -/
theorem ofFailure
    {α : Type}
    {error : CompileError}
    {effect : Effect} :
    Realizes world method (throw error : Emit α) effect := by
  intro state value after _ _ ran
  exact (throw_ok_iff.mp ran).elim

theorem nothing :
    Realizes world method (pure () : Emit Unit) fun stack slots =>
      pure (stack, slots) := by
  intro state value after _ _ ran
  obtain ⟨_, rfl⟩ := pure_ok_iff.mp ran
  exact ⟨[], .refl state, .nothing⟩

/--
The segment of a step that realizes an effect in every world is the
same in all of them.
-/
theorem inEveryWorld
    {α : Type}
    {action : Emit α}
    {effect : World Jvm.Event → Effect}
    (realizes : ∀ world, Realizes world method action (effect world))
    {state after : Emitter}
    {value : α}
    (current : state.current? = some method)
    (below : state.LabelsBelow)
    (ran : action state = .ok value after) :
    ∃ code,
      state.Extends after code ∧
        ∀ world, Performs world state.body code (effect world) := by
  obtain ⟨code, extended, _⟩ :=
    realizes ⟨fun _ => none, fun _ => none⟩ state value after current below ran
  refine ⟨code, extended, ?_⟩
  intro world
  obtain ⟨other, otherExtended, performs⟩ :=
    realizes world state value after current below ran
  have same : other = code :=
    List.append_cancel_left (otherExtended.body.symm.trans extended.body)
  exact same ▸ performs

/--
Appending an instruction that is no label and does not jump has the
effect of running it.
-/
theorem instruction
    {instr : Jvm.Instr}
    {effect : Effect}
    (noLabel : instr.isLabel = false)
    (meaning :
      ∀ body state,
        Jvm.execute world body state instr =
          (do
            let (stack, slots) ← effect state.stack state.slots
            return ⟨state.position + 1, stack, slots⟩ : Run Jvm.Event Jvm.State)) :
    Realizes world method (Emit.instr instr) effect := by
  intro state value after _ _ ran
  have changed := modify_ok_iff.mp ran
  subst changed
  refine ⟨[instr], ⟨rfl, rfl, rfl, rfl, Nat.le_refl _, ?_⟩, .single meaning⟩
  intro name member
  rw [List.mem_singleton] at member
  subst member
  cases noLabel

end Realizes

/-- A class is emitted by emitting its methods behind its first lines. -/
theorem wholeClass_ok_iff
    {unit : ClassCode}
    {value : Unit}
    {state : Emitter} :
    Emit.wholeClass unit {} = .ok value state ↔
      Emit.methods unit unit.methods { lines := classLines unit } =
        .ok value state := by
  refine ⟨fun ran => ?_, fun methodsRan => bind_ok_iff.mpr ⟨(), _, rfl, methodsRan⟩⟩
  obtain ⟨_, headed, headRan, methodsRan⟩ := bind_ok_iff.mp ran
  obtain rfl := modify_ok_iff.mp headRan
  exact methodsRan

/-- The lines of a class are those that emitting its methods leaves. -/
theorem generate_ok
    {unit : ClassCode}
    {lines : List Line}
    (generated : generate unit = .ok lines) :
    ∃ state,
      Emit.methods unit unit.methods { lines := classLines unit } = .ok () state ∧
        state.lines = lines := by
  unfold generate at generated
  cases ran : Emit.wholeClass unit {} with
  | error error state =>
      rw [ran] at generated
      cases generated
  | ok value state =>
      rw [ran] at generated
      exact ⟨state, wholeClass_ok_iff.mp ran, Except.ok.inj generated⟩

end MiniJava.Assembly
