import MiniJava.Proofs.Semantics.Machine
import MiniJava.Proofs.Steps

namespace MiniJava.Jvm

/-!
# Paths and depths

A path through a body forgets the values on the stack and keeps their number. It
may go on wherever an instruction can lead, whatever a condition turns out to
be, and to every label of the name that is jumped to.
-/

namespace Instr

/-- How many values an instruction takes from the stack. -/
def pops : Instr → Nat
  | .load _ _ | .const _ | .newObject _ => 0
  | .store _ _ | .pop => 1
  | .arith _ | .jumpIfLess _ | .putField _ _ _ => 2
  | .jump _ | .label _ => 0
  | .newPrimitives _ | .newReferences _ | .getField _ _ _ => 1
  | .invoke kind _ _ _ arguments _ => (if kind = .static then 0 else 1) + arguments
  | .ret (some _) => 1
  | .ret none => 0

/-- How many values an instruction leaves on the stack. -/
def pushes : Instr → Nat
  | .load _ _ | .const _ | .newObject _ | .arith _ => 1
  | .newPrimitives _ | .newReferences _ | .getField _ _ _ => 1
  | .store _ _ | .pop | .jumpIfLess _ | .putField _ _ _ => 0
  | .jump _ | .label _ | .ret _ => 0
  | .invoke _ _ _ _ _ returnsValue => if returnsValue then 1 else 0

/-- Whether the instruction behind can be next. -/
def fallsThrough : Instr → Bool
  | .jump _ | .ret _ => false
  | _ => true

/-- The label that an instruction can jump to. -/
def jumpTarget? : Instr → Option String
  | .jumpIfLess name => some name
  | .jump name => some name
  | _ => none

/-- Whether an instruction ends the run. -/
def isReturn : Instr → Bool
  | .ret _ => true
  | _ => false

/--
An instruction at a position of a body can be followed by the one at
another position.
-/
def LeadsTo (body : List Instr) (position next : Nat) (instr : Instr) : Prop :=
  (instr.fallsThrough = true ∧ next = position + 1) ∨
    ∃ name, instr.jumpTarget? = some name ∧ body[next]? = some (.label name)

end Instr

/-- One step of a path, from a position and depth to others. -/
inductive PathStep (body : List Instr) : Nat × Nat → Nat × Nat → Prop where
  | intro
      {position next : Nat}
      {instr : Instr}
      (rest : Nat)
      (found : body[position]? = some instr)
      (leads : instr.LeadsTo body position next) :
      PathStep body (position, rest + instr.pops) (next, rest + instr.pushes)

/-- A path leads from a position and depth to others. -/
def Path (body : List Instr) : Nat × Nat → Nat × Nat → Prop :=
  Relation.ReflTransGen (PathStep body)

/-- The machine jumps to a label of the name. -/
theorem label_of_target?
    {body : List Instr}
    {name : String}
    {position : Nat}
    (found : target? body name = some position) :
    body[position]? = some (.label name) := by
  obtain ⟨inside, isLabel, _⟩ := List.findIdx?_eq_some_iff_getElem.mp found
  rw [List.getElem?_eq_getElem inside]
  exact congrArg some (of_decide_eq_true isLabel)

theorem popArguments_some
    {count : Nat}
    {stack arguments rest : List Value}
    (popped : popArguments count stack = some (arguments, rest)) :
    ∃ taken, stack = taken ++ rest ∧ taken.length = count := by
  unfold popArguments at popped
  split at popped
  case isTrue enough =>
    cases popped
    exact ⟨stack.take count, (List.take_append_drop _ _).symm,
      List.length_take_of_le enough⟩
  case isFalse =>
    cases popped

theorem popReceiver_some
    {kind : Code.CallKind}
    {stack rest : List Value}
    {receiver : Option Nat}
    (popped : popReceiver kind stack = some (receiver, rest)) :
    ∃ taken, stack = taken ++ rest ∧ taken.length = if kind = .static then
      0 else 1 := by
  unfold popReceiver at popped
  split at popped
  case isTrue isStatic =>
    cases popped
    exact ⟨[], rfl, (if_pos isStatic).symm⟩
  case isFalse notStatic =>
    match stack with
    | [] | .int _ :: _ =>
        cases popped
    | .reference address :: below =>
        cases popped
        exact ⟨[.reference address], rfl, (if_neg notStatic).symm⟩

/--
An instruction takes values from the stack, leaves others and leads
to the next position.
-/
inductive Instr.Passes
    (body : List Instr)
    (instr : Instr) : State → State → Prop where
  | intro
      {position next : Nat}
      {slots newSlots : Nat → Option Value}
      (taken left rest : List Value)
      (popped : taken.length = instr.pops)
      (pushed : left.length = instr.pushes)
      (leads : instr.LeadsTo body position next) :
      Instr.Passes body instr ⟨position, taken ++ rest, slots⟩
        ⟨next, left ++ rest, newSlots⟩

/-- An instruction that passes is a step of a path. -/
theorem Instr.Passes.pathStep
    {body : List Instr}
    {instr : Instr}
    {state next : State}
    (passes : instr.Passes body state next)
    (found : body[state.position]? = some instr) :
    PathStep body (state.position, state.stack.length)
      (next.position, next.stack.length) := by
  cases passes with
  | intro taken left rest popped pushed leads =>
      simp only [List.length_append, popped, pushed, Nat.add_comm _ rest.length]
      exact .intro rest.length found leads

theorem require_ok
    {α : Type}
    {value? : Option α}
    {value : α}
    {events later : List Event}
    (ran : (Run.require value? : Run Event α) events = .ok value later) :
    value? = some value := by
  cases value? with
  | none => cases ran
  | some found =>
      cases ran
      rfl

/-- An instruction that does not end the run passes. -/
theorem execute_passes
    {world : World Event}
    {body : List Instr}
    {state next : State}
    {instr : Instr}
    {events later : List Event}
    (ran : execute world body state instr events = .ok next later) :
    instr.Passes body state next := by
  rcases state with ⟨position, stack, slots⟩
  cases instr with
  | load kind slot =>
      simp only [execute] at ran
      cases content : slots slot with
      | none =>
          rw [content] at ran
          cases ran
      | some value =>
          simp only [content] at ran
          by_cases sameKind : kindOf value = kind
          · rw [if_pos sameKind] at ran
            cases ran
            exact .intro [] [value] stack rfl rfl (.inl ⟨rfl, rfl⟩)
          · rw [if_neg sameKind] at ran
            cases ran
  | store kind slot =>
      cases stack with
      | nil => cases ran
      | cons value rest =>
          simp only [execute] at ran
          by_cases sameKind : kindOf value = kind
          · rw [if_pos sameKind] at ran
            cases ran
            exact .intro [value] [] rest rfl rfl (.inl ⟨rfl, rfl⟩)
          · rw [if_neg sameKind] at ran
            cases ran
  | const value =>
      cases ran
      exact .intro [] [.int value] stack rfl rfl (.inl ⟨rfl, rfl⟩)
  | arith operation =>
      match stack with
      | [] | [.int _] | [.reference _] | .reference _ :: _ :: _ | .int _ ::
        .reference _ :: _ =>
          cases ran
      | .int right :: .int left :: rest =>
          obtain ⟨value, _, _, isNext⟩ := bind_ok_iff.mp ran
          cases isNext
          exact .intro [.int right, .int left] [value] rest rfl rfl
            (.inl ⟨rfl, rfl⟩)
  | jumpIfLess name =>
      match stack with
      | [] | [.int _] | [.reference _] | .reference _ :: _ :: _ | .int _ ::
        .reference _ :: _ =>
          cases ran
      | .int right :: .int left :: rest =>
          simp only [execute] at ran
          by_cases less : left < right
          · rw [if_pos less] at ran
            obtain ⟨target, _, found, isNext⟩ := bind_ok_iff.mp ran
            cases isNext
            have isLabel := label_of_target? (require_ok found)
            exact .intro [.int right, .int left] [] rest rfl rfl
              (.inr ⟨name, rfl, isLabel⟩)
          · rw [if_neg less] at ran
            cases ran
            exact .intro [.int right, .int left] [] rest rfl rfl (.inl ⟨rfl, rfl⟩)
  | jump name =>
      obtain ⟨target, _, found, isNext⟩ := bind_ok_iff.mp ran
      cases isNext
      exact .intro [] [] stack rfl rfl
        (.inr ⟨name, rfl, label_of_target? (require_ok found)⟩)
  | label name =>
      cases ran
      exact .intro [] [] stack rfl rfl (.inl ⟨rfl, rfl⟩)
  | newObject path =>
      obtain ⟨object, _, _, isNext⟩ := bind_ok_iff.mp ran
      cases isNext
      exact .intro [] [object] stack rfl rfl (.inl ⟨rfl, rfl⟩)
  | newPrimitives item =>
      match stack with
      | [] | .reference _ :: _ =>
          cases ran
      | .int size :: rest =>
          obtain ⟨array, _, _, isNext⟩ := bind_ok_iff.mp ran
          cases isNext
          exact .intro [.int size] [array] rest rfl rfl (.inl ⟨rfl, rfl⟩)
  | newReferences path =>
      match stack with
      | [] | .reference _ :: _ =>
          cases ran
      | .int size :: rest =>
          obtain ⟨array, _, _, isNext⟩ := bind_ok_iff.mp ran
          cases isNext
          exact .intro [.int size] [array] rest rfl rfl (.inl ⟨rfl, rfl⟩)
  | getField owner name descriptor =>
      match stack with
      | [] | .int _ :: _ =>
          cases ran
      | .reference object :: rest =>
          obtain ⟨value, _, _, isNext⟩ := bind_ok_iff.mp ran
          cases isNext
          exact .intro [.reference object] [value] rest rfl rfl (.inl ⟨rfl, rfl⟩)
  | putField owner name descriptor =>
      match stack with
      | [] | [_] | _ :: .int _ :: _ =>
          cases ran
      | value :: .reference object :: rest =>
          obtain ⟨_, _, _, isNext⟩ := bind_ok_iff.mp ran
          cases isNext
          exact .intro [value, .reference object] [] rest rfl rfl (.inl ⟨rfl, rfl⟩)
  | invoke kind owner name descriptor count returnsValue =>
      obtain ⟨⟨arguments, below⟩, _, argumentsTaken, ran⟩ := bind_ok_iff.mp ran
      obtain ⟨⟨receiver, rest⟩, _, receiverTaken, ran⟩ := bind_ok_iff.mp ran
      obtain ⟨value, _, _, isNext⟩ := bind_ok_iff.mp ran
      cases isNext
      obtain ⟨first, isFirst, firstCount⟩ :=
        popArguments_some (require_ok argumentsTaken)
      obtain ⟨second, isSecond, secondCount⟩ :=
        popReceiver_some (require_ok receiverTaken)
      have taken :
          (first ++ second).length = (if kind = .static then 0 else 1) + count := by
        rw [List.length_append, firstCount, secondCount, Nat.add_comm]
      have isStack : stack = first ++ second ++ rest := by
        rw [List.append_assoc, ← isSecond]
        exact isFirst
      rw [isStack]
      cases returnsValue with
      | true =>
          exact .intro (first ++ second) [value] rest taken rfl (.inl ⟨rfl, rfl⟩)
      | false => exact .intro (first ++ second) [] rest taken rfl (.inl ⟨rfl, rfl⟩)
  | pop =>
      cases stack with
      | nil => cases ran
      | cons value rest =>
          cases ran
          exact .intro [value] [] rest rfl rfl (.inl ⟨rfl, rfl⟩)
  | ret kind =>
      cases kind with
      | none => cases ran
      | some kind =>
          cases stack with
          | nil => cases ran
          | cons value rest =>
              simp only [execute] at ran
              by_cases sameKind : kindOf value = kind
              · rw [if_pos sameKind] at ran
                cases ran
              · rw [if_neg sameKind] at ran
                cases ran

/-- Where the machine gets, a path leads with the depth of the machine's stack. -/
theorem Reaches.path
    {world : World Event}
    {body : List Instr}
    {start last : Configuration}
    (reaches : Reaches world body start last) :
    Path body (start.1.position, start.1.stack.length)
      (last.1.position, last.1.stack.length) := by
  induction reaches with
  | refl =>
      exact .refl
  | @tail between last _ ran inductionHypothesis =>
      apply inductionHypothesis.tail
      cases found : body[between.1.position]? with
      | none =>
          simp only [step, found] at ran
          cases ran
      | some instr =>
          simp only [step, found] at ran
          exact (execute_passes ran).pathStep found

end MiniJava.Jvm
