import Mathlib.Data.List.Nodup
import MiniJava.Proofs.EmissionSimulation
import MiniJava.Proofs.StackLevels

namespace MiniJava.Assembly

/-!
# Levels of emitted code

The limits of a method are counted along its text while it is emitted. Each step
of emission appends leveled code, takes as many values from the stack as it
should, and counts what the levels of its code are. Behind a jump the counter
differs from the level until it is corrected.
-/

open Code (Operand ValueType CallKind ClassCode)

/-- A state differs from an earlier one by leveled code that its limits take in. -/
structure Emitter.Appends
    (state after : Emitter)
    (first : Nat)
    (code : List Jvm.Instr)
    (levels : List Nat)
    (last : Nat) : Prop extends state.Extends after code where
  leveled : Jvm.Leveled first code levels last
  covered : state.limits.Covers after.limits code levels
  depth : after.limits.At last
  once : ∀ name, code.count (.label name) ≤ 1

namespace Emitter.Appends

variable {state between after : Emitter} {first middle last : Nat}
  {code other : List Jvm.Instr} {levels others : List Nat}

/-- A state that stays as it is has no code appended. -/
theorem nothing
    (state : Emitter)
    (isDepth : state.limits.At first) :
    state.Appends state first [] [] first where
  toExtends := .refl state
  leveled := .nothing first
  covered := .refl _
  depth := isDepth
  once := by simp

/-- Code is appended behind code. -/
theorem trans
    (former : state.Appends between first code levels middle)
    (latter : between.Appends after middle other others last) :
    state.Appends after first (code ++ other) (levels ++ others) last where
  toExtends := former.toExtends.trans latter.toExtends
  leveled := former.leveled.append latter.leveled (former.apart latter.toExtends)
  covered := former.covered.trans latter.covered
  depth := latter.depth
  once := by
    intro name
    rw [List.count_append]
    by_cases inCode : .label name ∈ code
    · have notLater := List.count_eq_zero.mpr
        (former.apart latter.toExtends name inCode)
      rw [notLater]
      exact former.once name
    · rw [List.count_eq_zero.mpr inCode, Nat.zero_add]
      exact latter.once name

/-- Appending an instruction that is no label and no jump. -/
theorem instr
    {added : Jvm.Instr}
    {value : Unit}
    (rest : Nat)
    (noJump : added.jumpTarget? = none)
    (noLabel : added.isLabel = false)
    (isDepth : state.limits.At (rest + added.pops))
    (ran : Emit.instr added state = .ok value after) :
    state.Appends after (rest + added.pops) [added] [rest + added.pushes]
      (rest + added.pushes) := by
  obtain rfl := modify_ok_iff.mp ran
  have isLevel := Jvm.Limits.extend_at isDepth
  exact
    { lines := rfl
      current := rfl
      overflowed := rfl
      body := rfl
      labels := Nat.le_refl _
      numbered := by
        intro name member
        obtain rfl := List.mem_singleton.mp member
        cases noLabel
      leveled := .single rest noJump
      covered := Jvm.Limits.extend_covers isDepth
      depth := isLevel
      once := fun name => List.count_le_length }

end Emitter.Appends

/--
Whenever the step succeeds, its code takes so many values from the stack and
leaves so many, whatever is below them, and it does not return.
-/
def Balances {α : Type} (action : Emit α) (taken left : Nat) : Prop :=
  ∀ ⦃state after : Emitter⦄ ⦃value : α⦄ (rest : Nat),
    state.limits.At (rest + taken) →
    action state = .ok value after →
    ∃ code levels,
      state.Appends after (rest + taken) code levels (rest + left) ∧
        ∀ instr ∈ code, instr.isReturn = false

namespace Balances

variable {α β : Type} {taken middle left : Nat}

/-- Steps in sequence take what the first takes and leave what the second leaves. -/
theorem bind
    {first : Emit α}
    {second : α → Emit β}
    (firstBalances : Balances first taken middle)
    (secondBalances : ∀ value, Balances (second value) middle left) :
    Balances (first >>= second) taken left := by
  intro state after value rest isDepth ran
  obtain ⟨result, between, firstRan, secondRan⟩ := bind_ok_iff.mp ran
  obtain ⟨code, levels, former, noReturn⟩ := firstBalances rest isDepth firstRan
  obtain ⟨other, others, latter, noLaterReturn⟩ :=
    secondBalances result rest former.depth secondRan
  exact ⟨code ++ other, levels ++ others, former.trans latter,
    List.forall_mem_append.mpr ⟨noReturn, noLaterReturn⟩⟩

/-- Values below those that a step takes stay where they are. -/
theorem above
    {action : Emit α}
    (balances : Balances action taken left)
    (below : Nat) :
    Balances action (below + taken) (below + left) := by
  intro state after value rest isDepth ran
  rw [← Nat.add_assoc] at isDepth ⊢
  rw [← Nat.add_assoc]
  exact balances (rest + below) isDepth ran

theorem throw
    {error : CompileError} :
    Balances (MonadExcept.throw error : Emit α) taken left := by
  intro state after value rest _ ran
  exact (throw_ok_iff.mp ran).elim

theorem pure
    (value : α) :
    Balances (Pure.pure value : Emit α) left left := by
  intro state after result rest isDepth ran
  obtain ⟨_, rfl⟩ := pure_ok_iff.mp ran
  exact ⟨[], [], .nothing state isDepth, nofun⟩

/-- Appending an instruction takes and leaves what the instruction does. -/
theorem instr
    {added : Jvm.Instr}
    (noJump : added.jumpTarget? = none)
    (noLabel : added.isLabel = false)
    (noReturn : added.isReturn = false) :
    Balances (Emit.instr added) added.pops added.pushes := by
  intro state after value rest isDepth ran
  exact ⟨[added], [rest + added.pushes], .instr rest noJump noLabel isDepth ran,
    List.forall_mem_singleton.mpr noReturn⟩

end Balances

/-- A comparison has its labels at the fourth and the sixth place. -/
private theorem label_of_comparison
    {onTrue done name : String}
    {position : Nat}
    (isLabel : (comparison onTrue done)[position]? = some (.label name)) :
    (name = onTrue ∧ position = 3) ∨ (name = done ∧ position = 5) := by
  match position with
  | 0 | 1 | 2 | 4 => cases isLabel
  | 3 =>
      cases isLabel
      exact .inl ⟨rfl, rfl⟩
  | 5 =>
      cases isLabel
      exact .inr ⟨rfl, rfl⟩
  | position + 6 => cases isLabel

/-- Both ways through a comparison have one more value where they meet. -/
theorem comparison_leveled
    {onTrue done : String}
    (different : onTrue ≠ done)
    (rest : Nat) :
    Jvm.Leveled (rest + 2) (comparison onTrue done)
      [rest, rest + 1, rest, rest, rest + 1, rest + 1] (rest + 1) where
  count := rfl
  behind := rfl
  each := by
    intro position instr found
    match position with
    | 0 =>
        cases found
        refine ⟨rest, rfl, fun leads => ?_⟩
        rcases leads with ⟨_, rfl⟩ | ⟨name, ⟨⟩, isLabel⟩
        · rfl
        · rcases label_of_comparison isLabel with ⟨_, rfl⟩ | ⟨same, _⟩
          · rfl
          · exact absurd same different
    | 2 =>
        cases found
        refine ⟨rest + 1, rfl, fun leads => ?_⟩
        rcases leads with ⟨⟨⟩, _⟩ | ⟨name, ⟨⟩, isLabel⟩
        rcases label_of_comparison isLabel with ⟨same, _⟩ | ⟨_, rfl⟩
        · exact absurd same.symm different
        · rfl
    | 1 | 3 | 4 =>
        cases found
        refine ⟨rest, rfl, fun leads => ?_⟩
        rcases leads with ⟨_, rfl⟩ | ⟨name, ⟨⟩, _⟩
        rfl
    | 5 =>
        cases found
        refine ⟨rest + 1, rfl, fun leads => ?_⟩
        rcases leads with ⟨_, rfl⟩ | ⟨name, ⟨⟩, _⟩
        rfl
    | position + 6 => cases found
  forward := by
    intro position instr name found isTarget
    match position with
    | 0 =>
        cases found
        cases isTarget
        exact ⟨3, by decide, rfl⟩
    | 2 =>
        cases found
        cases isTarget
        exact ⟨5, by decide, rfl⟩
    | 1 | 3 | 4 | 5 =>
        cases found
        cases isTarget
    | position + 6 => cases found
  reached := by
    intro position level isLevel _
    have goes (position : Nat) (instr : Jvm.Instr) (below : Nat) {next : Nat}
        (found : (comparison onTrue done)[position]? = some instr)
        (leads : instr.LeadsTo (comparison onTrue done) position next) :
        Jvm.Path (comparison onTrue done) (position, below + instr.pops)
          (next, below + instr.pushes) :=
      .single (.intro below found leads)
    have onFalse : Jvm.Path (comparison onTrue done) (0, rest + 2) (1, rest) :=
      goes 0 (.jumpIfLess onTrue) rest rfl (.inl ⟨rfl, rfl⟩)
    have jumps : Jvm.Path (comparison onTrue done) (0, rest + 2) (3, rest) :=
      goes 0 (.jumpIfLess onTrue) rest rfl (.inr ⟨onTrue, rfl, rfl⟩)
    have behindLabel : Jvm.Path (comparison onTrue done) (0, rest + 2) (4, rest) :=
      jumps.trans (goes 3 (.label onTrue) rest rfl (.inl ⟨rfl, rfl⟩))
    have meets : Jvm.Path (comparison onTrue done) (0, rest + 2) (5, rest + 1) :=
      behindLabel.trans (goes 4 (.const 1) rest rfl (.inl ⟨rfl, rfl⟩))
    match position with
    | 0 =>
        cases isLevel
        exact .refl
    | 1 =>
        cases isLevel
        exact onFalse
    | 2 =>
        cases isLevel
        exact onFalse.trans (goes 1 (.const 0) rest rfl (.inl ⟨rfl, rfl⟩))
    | 3 =>
        cases isLevel
        exact jumps
    | 4 =>
        cases isLevel
        exact behindLabel
    | 5 =>
        cases isLevel
        exact meets
    | 6 =>
        cases isLevel
        exact meets.trans (goes 5 (.label done) (rest + 1) rfl (.inl ⟨rfl, rfl⟩))
    | position + 7 => cases isLevel
  shallow := by
    have isLength : (comparison onTrue done).length = 6 := rfl
    simp only [isLength, List.forall_mem_cons, List.not_mem_nil, false_implies,
      implies_true, and_true]
    omega

/--
Comparing changes the depth by these effects, with the correction behind the jump.
-/
private theorem compareLess_limits
    {state after : Emitter}
    {value : Unit}
    (ran : Emit.compareLess state = .ok value after) :
    after.limits =
      ((((((state.limits.apply (-2)).apply 1).apply 0).apply (-1)).apply 0).apply
        1).apply 0 := by
  cases ran
  simp only [Jvm.Limits.extend, Jvm.Instr.slot?, Jvm.Instr.stackEffect]

/-- Comparing counts one value less, and no more than that value at any time. -/
private theorem compareLess_exact
    {state after : Emitter}
    {value : Unit}
    (ran : Emit.compareLess state = .ok value after)
    (inRange : after.limits.depthOverflowed = false) :
    state.limits.depthOverflowed = false ∧
      after.limits.depth.toInt = state.limits.depth.toInt - 1 ∧
        after.limits.maxDepth.toInt =
          max state.limits.maxDepth.toInt (state.limits.depth.toInt - 1) := by
  rw [compareLess_limits ran] at inRange ⊢
  obtain ⟨inRange₆, depth₇, max₇⟩ := Jvm.Limits.apply_exact inRange
  obtain ⟨inRange₅, depth₆, max₆⟩ := Jvm.Limits.apply_exact inRange₆
  obtain ⟨inRange₄, depth₅, max₅⟩ := Jvm.Limits.apply_exact inRange₅
  obtain ⟨inRange₃, depth₄, max₄⟩ := Jvm.Limits.apply_exact inRange₄
  obtain ⟨inRange₂, depth₃, max₃⟩ := Jvm.Limits.apply_exact inRange₃
  obtain ⟨inRange₁, depth₂, max₂⟩ := Jvm.Limits.apply_exact inRange₂
  obtain ⟨wasInRange, depth₁, max₁⟩ := Jvm.Limits.apply_exact inRange₁
  refine ⟨wasInRange, ?_⟩
  have lessTwo : (-2 : Int32).toInt = -2 := by decide
  have lessOne : (-1 : Int32).toInt = -1 := by decide
  have none : (0 : Int32).toInt = 0 := by decide
  have one : (1 : Int32).toInt = 1 := by decide
  rw [depth₇, max₇, depth₆, max₆, depth₅, max₅, depth₄, max₄, depth₃, max₃, depth₂,
    max₂, depth₁, max₁, lessTwo, lessOne, none, one]
  generalize state.limits.depth.toInt = depth
  generalize state.limits.maxDepth.toInt = maxDepth
  omega

/-- Comparing stays in range where two values are on the stack. -/
private theorem compareLess_inRange
    {state after : Emitter}
    {value : Unit}
    (ran : Emit.compareLess state = .ok value after)
    (wasInRange : state.limits.depthOverflowed = false)
    (enough : 2 ≤ state.limits.depth.toInt) :
    after.limits.depthOverflowed = false := by
  rw [compareLess_limits ran]
  have small := state.limits.depth.toInt_lt
  generalize state.limits = limits at wasInRange enough small ⊢
  have step {before : Jvm.Limits} {change : Int} (effect : Int32) (next : Int)
      (isBefore :
        before.depthOverflowed = false ∧
          before.depth.toInt = limits.depth.toInt + change)
      (isNext : change + effect.toInt = next)
      (isBetween : -2 ≤ next ∧ next ≤ 0) :
      (before.apply effect).depthOverflowed = false ∧
        (before.apply effect).depth.toInt = limits.depth.toInt + next := by
    obtain ⟨beforeInRange, isDepth⟩ := isBefore
    have isSum : before.depth.toInt + effect.toInt = limits.depth.toInt + next := by
      rw [isDepth, Int.add_assoc, isNext]
    have inRange : (before.apply effect).depthOverflowed = false :=
      Jvm.Limits.apply_inRange beforeInRange (by omega) (by omega)
    exact ⟨inRange, (Jvm.Limits.apply_exact inRange).2.1.trans isSum⟩
  have depth₀ :
      limits.depthOverflowed = false ∧
        limits.depth.toInt = limits.depth.toInt + 0 :=
    ⟨wasInRange, (Int.add_zero _).symm⟩
  have depth₁ := step (-2) (-2) depth₀ (by decide) (by decide)
  have depth₂ := step 1 (-1) depth₁ (by decide) (by decide)
  have depth₃ := step 0 (-1) depth₂ (by decide) (by decide)
  have depth₄ := step (-1) (-2) depth₃ (by decide) (by decide)
  have depth₅ := step 0 (-2) depth₄ (by decide) (by decide)
  have depth₆ := step 1 (-1) depth₅ (by decide) (by decide)
  have depth₇ := step 0 (-1) depth₆ (by decide) (by decide)
  exact depth₇.1

/--
A comparison takes two values and leaves one; the correction makes
the counter agree.
-/
theorem compareLess_balances :
    Balances Emit.compareLess 2 1 := by
  intro state after value rest isDepth ran
  obtain ⟨onTrue, done, different, extended⟩ := compareLess_extends ran
  have noSlot : ∀ instr ∈ comparison onTrue done, instr.slot? = none := by
    simp [comparison, Jvm.Instr.slot?]
  have labels (name : String) :
      (comparison onTrue done).count (.label name) = [onTrue, done].count name := by
    simp [comparison, List.count_cons]
  have sameSlots : after.limits.highestSlot = state.limits.highestSlot := by
    simp only [compareLess_limits ran, Jvm.Limits.highestSlot_apply]
  refine ⟨comparison onTrue done, [rest, rest + 1, rest, rest, rest + 1, rest + 1],
    ⟨extended, comparison_leveled different rest, ⟨?_, ?_, ?_, ?_⟩, ?_, ?_⟩, ?_⟩
  · intro inRange
    exact (compareLess_exact ran inRange).1
  · intro inRange bound
    obtain ⟨wasInRange, _, isMax⟩ := compareLess_exact ran inRange
    rw [isMax, isDepth wasInRange, Int.max_le]
    simp only [List.mem_cons, forall_eq_or_imp, List.not_mem_nil, false_implies,
      implies_true, and_true]
    omega
  · intro bound
    rw [Jvm.Limits.SlotsBelow, sameSlots]
    refine (and_iff_left ?_).symm
    intro instr member slot isSlot
    rw [noSlot instr member] at isSlot
    cases isSlot
  · intro wasInRange _
    have enough := isDepth wasInRange
    exact compareLess_inRange ran wasInRange (by omega)
  · intro inRange
    obtain ⟨wasInRange, depth, _⟩ := compareLess_exact ran inRange
    rw [depth, isDepth wasInRange]
    omega
  · intro name
    rw [labels]
    apply List.nodup_iff_count_le_one.mp
    simpa using different
  · simp [comparison, Jvm.Instr.isReturn]

/-- An operator takes two values and leaves one. -/
theorem operate_balances
    (operator : Operator) :
    Balances (Emit.operate operator) 2 1 := by
  cases operator with
  | less => exact compareLess_balances
  | _ => exact .instr rfl rfl rfl

/-- Finding a slot does nothing on the stack. -/
theorem slotOf_balances
    (operand : Operand) :
    Balances (Emit.slotOf operand) 0 0 := by
  intro state after slot rest isDepth ran
  cases current : state.current? with
  | none =>
      obtain ⟨_, _, got, stopped⟩ := bind_ok_iff.mp ran
      obtain ⟨rfl, rfl⟩ := get_ok_iff.mp got
      rw [current] at stopped
      exact (throw_ok_iff.mp stopped).elim
  | some method =>
      obtain ⟨rfl, _⟩ := slotOf_ok current ran
      exact ⟨[], [], .nothing after isDepth, nofun⟩

/-- Loading leaves one value. -/
theorem load_balances
    (operand : Operand) :
    Balances (Emit.load operand) 0 1 :=
  (slotOf_balances operand).bind fun _ => .instr rfl rfl rfl

/-- Storing takes one value. -/
theorem store_balances
    (dest : Operand) :
    Balances (Emit.store dest) 1 0 := by
  cases dest with
  | literal value type => exact .throw
  | var name type =>
      exact ((slotOf_balances _).above 1).bind fun _ => .instr rfl rfl rfl

/-- Pushing an operand leaves one value. -/
theorem push_balances
    (operand : Operand) :
    Balances (Emit.push operand) 0 1 := by
  cases operand with
  | literal value type => exact .instr rfl rfl rfl
  | var name type => exact load_balances (.var name type)

/-- Pushing operands leaves as many values. -/
theorem pushAll_balances
    (operands : List Operand) :
    Balances (Emit.pushAll operands) 0 operands.length := by
  induction operands with
  | nil => exact .pure ()
  | cons first rest inductionHypothesis =>
      rw [List.length_cons, Nat.add_comm]
      exact (push_balances first).bind fun _ => inductionHypothesis.above 1

/-- Finding the class of a call does nothing on the stack. -/
theorem callOwner_balances
    (unit : ClassCode)
    (kind : CallKind)
    (target : Operand) :
    Balances (Emit.callOwner unit kind target) 0 0 := by
  unfold Emit.callOwner
  split
  · split
    · exact .pure _
    · exact .throw
  · split
    · exact .pure _
    · exact .pure _
    · exact .throw

/-- A call leaves its result and nothing else. -/
theorem call_balances
    (unit : ClassCode)
    (kind : CallKind)
    (target : Operand)
    (name : String)
    (arguments : List Operand)
    (result : ValueType) :
    Balances (Emit.call unit kind target name arguments result) 0
      (if !result.isVoid then 1 else 0) := by
  refine (callOwner_balances unit kind target).bind fun owner => ?_
  have invoked :
      Balances
        (Emit.instr (.invoke kind owner name
          (unit.methodDescriptor (arguments.map Operand.type) result)
            arguments.length
          (!result.isVoid)))
        ((if kind = .static then 0 else 1) + arguments.length)
        (if !result.isVoid then 1 else 0) :=
    .instr rfl rfl rfl
  by_cases isStatic : kind = .static
  · subst isStatic
    rw [if_pos rfl, Nat.zero_add] at invoked
    exact (pushAll_balances arguments).bind fun _ => invoked
  · simp only [isStatic, ne_eq, not_false_eq_true, ↓reduceIte]
    rw [if_neg isStatic] at invoked
    refine (load_balances target).bind fun _ => ?_
    exact ((pushAll_balances arguments).above 1).bind fun _ => invoked

/-- The value of an assignment is left on the stack. -/
theorem value_balances
    (unit : ClassCode)
    (source : Code.Instr) :
    Balances (Emit.value unit source) 0 1 := by
  cases source with
  | single operand =>
      exact push_balances operand
  | binary operator left right type =>
      refine (push_balances left).bind fun _ => ?_
      refine ((push_balances right).above 1).bind fun _ => ?_
      exact operate_balances operator
  | call kind target name arguments result =>
      have called := call_balances unit kind target name arguments result
      cases isVoid : result.isVoid with
      | true =>
          simp only [Emit.value, isVoid, ↓reduceIte]
          exact .throw
      | false =>
          rw [isVoid] at called
          simp only [Emit.value, isVoid, Bool.false_eq_true, ↓reduceIte]
          exact called
  | newObject className type =>
      exact .instr rfl rfl rfl
  | newArray size type =>
      refine (push_balances size).bind fun _ => ?_
      cases type with
      | array item =>
          cases item with
          | int => exact .instr rfl rfl rfl
          | boolean => exact .instr rfl rfl rfl
          | string => exact .instr rfl rfl rfl
          | object name => exact .instr rfl rfl rfl
          | _ => exact .throw
      | _ => exact .throw
  | getField object field =>
      exact (load_balances object).bind fun _ => .instr rfl rfl rfl
  | _ =>
      exact .throw

/--
The code of an instruction keeps an empty stack empty, and returns only at its end.
-/
theorem code_appends
    {unit : ClassCode}
    {instr : Code.Instr}
    {state after : Emitter}
    {value : Unit}
    (empty : state.limits.At 0)
    (ran : Emit.code unit instr state = .ok value after) :
    ∃ code levels,
      state.Appends after 0 code levels 0 ∧
        ∀ instr ∈ code.dropLast, instr.isReturn = false := by
  have ofBalances (balances : Balances (Emit.code unit instr) 0 0) :
      ∃ code levels,
        state.Appends after 0 code levels 0 ∧
          ∀ instr ∈ code.dropLast, instr.isReturn = false := by
    obtain ⟨code, levels, appended, noReturn⟩ := balances 0 empty ran
    exact ⟨code, levels, appended,
      fun instr member => noReturn instr (List.dropLast_subset _ member)⟩
  cases instr with
  | assign dest type source =>
      exact ofBalances
        ((value_balances unit source).bind fun _ => store_balances dest)
  | call kind target name arguments result =>
      apply ofBalances
      refine (call_balances unit kind target name arguments result).bind fun _ => ?_
      cases result.isVoid with
      | true => exact .pure ()
      | false => exact .instr rfl rfl rfl
  | putField object field stored =>
      apply ofBalances
      refine (load_balances object).bind fun _ => ?_
      refine ((push_balances stored).above 1).bind fun _ => ?_
      exact .instr rfl rfl rfl
  | ret type result =>
      cases result with
      | none =>
          exact ⟨[.ret none], [0], .instr 0 rfl rfl empty ran, nofun⟩
      | some operand =>
          obtain ⟨_, between, pushed, returned⟩ := bind_ok_iff.mp ran
          obtain ⟨code, levels, former, noReturn⟩ :=
            push_balances operand 0 empty pushed
          have latter :
              between.Appends after 1 [.ret (some (slotKind type))] [0] 0 :=
            .instr 0 rfl rfl former.depth returned
          refine ⟨_, _, former.trans latter, ?_⟩
          rwa [List.dropLast_concat]
  | _ =>
      exact (throw_ok_iff.mp ran).elim

end MiniJava.Assembly
