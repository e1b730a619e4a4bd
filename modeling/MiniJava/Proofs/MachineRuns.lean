import MiniJava.Proofs.Semantics.Machine
import MiniJava.Proofs.Steps

namespace MiniJava.Jvm

/-!
# Runs of the stack machine

A run of the machine is a chain of single steps. This module relates it to a
result that is computed elsewhere: the machine goes on to a state, or ends with
an outcome, as the result says. Parts of a run are put together in the order of
the parts of the computation.

The machine has no choices, so a run has one end.
-/

/-- The machine does from a configuration what a result says. -/
def Runs
    (world : World Event)
    (body : List Instr)
    (start : Configuration) :
    EStateM.Result Outcome (List Event) State → Prop
  | .ok state events => Reaches world body start (state, events)
  | .error outcome events => Ends world body start outcome events

namespace Reaches

theorem single
    {world : World Event}
    {body : List Instr}
    {state next : State}
    {events later : List Event}
    (stepped : step world body state events = .ok next later) :
    Reaches world body (state, events) (next, later) :=
  Relation.ReflTransGen.single stepped

theorem instruction
    {world : World Event}
    {body : List Instr}
    {state next : State}
    {events later : List Event}
    {instr : Instr}
    (found : body[state.position]? = some instr)
    (ran : execute world body state instr events = .ok next later) :
    Reaches world body (state, events) (next, later) := by
  refine single ?_
  simp only [step, found, ran]

theorem trans
    {world : World Event}
    {body : List Instr}
    {first second third : Configuration}
    (former : Reaches world body first second)
    (latter : Reaches world body second third) :
    Reaches world body first third :=
  Relation.ReflTransGen.trans former latter

/-- A run that starts where the machine stops goes nowhere. -/
theorem eq_of_stopped
    {world : World Event}
    {body : List Instr}
    {first second : Configuration}
    {outcome : Outcome}
    {events : List Event}
    (stopped : step world body first.1 first.2 = .error outcome events)
    (run : Reaches world body first second) :
    second = first := by
  rcases Relation.ReflTransGen.cases_head run with same | ⟨between, stepped, _⟩
  · exact same.symm
  · rw [stopped] at stepped
    cases stepped

end Reaches

namespace Ends

/-- An end that is reached after some steps is the end of the whole run. -/
theorem after
    {world : World Event}
    {body : List Instr}
    {first second : Configuration}
    {outcome : Outcome}
    {events : List Event}
    (former : Reaches world body first second)
    (latter : Ends world body second outcome events) :
    Ends world body first outcome events := by
  obtain ⟨last, reached, stopped⟩ := latter
  exact ⟨last, former.trans reached, stopped⟩

/-- A run has one outcome and one list of events. -/
theorem unique
    {world : World Event}
    {body : List Instr}
    {start : Configuration}
    {firstOutcome secondOutcome : Outcome}
    {firstEvents secondEvents : List Event}
    (first : Ends world body start firstOutcome firstEvents)
    (second : Ends world body start secondOutcome secondEvents) :
    firstOutcome = secondOutcome ∧ firstEvents = secondEvents := by
  obtain ⟨last, reached, stopped⟩ := first
  induction reached using Relation.ReflTransGen.head_induction_on with
  | refl =>
      obtain ⟨other, otherReached, otherStopped⟩ := second
      rw [Reaches.eq_of_stopped stopped otherReached, stopped] at otherStopped
      cases otherStopped
      exact ⟨rfl, rfl⟩
  | @head current next stepped _ inductionHypothesis =>
      obtain ⟨other, otherReached, otherStopped⟩ := second
      apply inductionHypothesis
      rcases Relation.ReflTransGen.cases_head otherReached with
        same | ⟨between, otherStep, rest⟩
      · rw [← same, stepped] at otherStopped
        cases otherStopped
      · rw [stepped] at otherStep
        injection otherStep with sameState sameEvents
        have sameNext : next = between := Prod.ext sameState sameEvents
        subst sameNext
        exact ⟨other, rest, otherStopped⟩

end Ends

namespace Runs

variable {world : World Event} {body : List Instr}

theorem instruction
    {state : State}
    {instr : Instr}
    (found : body[state.position]? = some instr)
    (events : List Event) :
    Runs world body (state, events) (execute world body state instr events) := by
  have stepped :
      step world body state events = execute world body state instr events := by
    simp only [step, found]
  cases ran : execute world body state instr events with
  | ok next later =>
      exact Reaches.single (stepped.trans ran)
  | error outcome later =>
      exact ⟨(state, events), .refl, stepped.trans ran⟩

/-- The machine stops behind the last instruction. -/
theorem behindBody
    {state : State}
    (outside : body[state.position]? = none)
    (events : List Event) :
    Ends world body (state, events) .endOfBody events :=
  ⟨(state, events), .refl, by simp [step, outside]; rfl⟩

/-- A run is continued by a run from the state that it leads to. -/
theorem andThen
    {α : Type}
    {start : State}
    {events : List Event}
    {first : Run Event α}
    {between : α → State}
    {second : α → Run Event State}
    (former :
      Runs world body (start, events)
        ((do let value ← first; pure (between value) : Run Event State) events))
    (latter :
      ∀ value later,
        first events = .ok value later →
        Runs world body (between value, later) (second value later)) :
    Runs world body (start, events) ((first >>= second) events) := by
  cases ran : first events with
  | ok value later =>
      rw [bind_of_ok ran] at former ⊢
      have continued := latter value later ran
      cases rest : second value later with
      | ok state final =>
          rw [rest] at continued
          exact former.trans continued
      | error outcome final =>
          rw [rest] at continued
          exact continued.after former
  | error outcome later =>
      rw [bind_of_error ran] at former ⊢
      exact former

end Runs

end MiniJava.Jvm
