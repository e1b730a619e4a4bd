import MiniJava.Proofs.Semantics.Run
import MiniJava.Proofs.Steps

namespace MiniJava.Run

/-!
# Runs that cannot be told apart

Two runs are related if they see the same events and either stop alike or go on
with related results. Related steps in sequence are related, so what two
programs do is compared step by step.
-/

variable {Event α β γ δ : Type}

/--
Where two runs have come to: they have stopped alike, or go on with related results.
-/
inductive Alike (relation : α → β → Prop) :
    EStateM.Result Outcome (List Event) α →
    EStateM.Result Outcome (List Event) β →
    Prop where
  | ok {left : α} {right : β} {events : List Event} :
      relation left right → Alike relation (.ok left events) (.ok right events)
  | error (outcome : Outcome) (events : List Event) :
      Alike relation (.error outcome events) (.error outcome events)

namespace Alike

theorem mono
    {strong weak : α → β → Prop}
    {left : EStateM.Result Outcome (List Event) α}
    {right : EStateM.Result Outcome (List Event) β}
    (alike : Alike strong left right)
    (weaker : ∀ left right, strong left right → weak left right) :
    Alike weak left right := by
  cases alike with
  | ok results =>
      exact .ok (weaker _ _ results)
  | error outcome later =>
      exact .error outcome later

end Alike

/-- Two runs see the same events and come to the same from the same events on. -/
def Related
    (relation : α → β → Prop)
    (first : Run Event α)
    (second : Run Event β) : Prop :=
  ∀ events, Alike relation (first events) (second events)

namespace Related

theorem pure
    {relation : α → β → Prop}
    {left : α}
    {right : β}
    (related : relation left right) :
    Related relation (Pure.pure left : Run Event α) (Pure.pure right) :=
  fun _ => .ok related

theorem throw
    (relation : α → β → Prop)
    (outcome : Outcome) :
    Related relation (MonadExcept.throw outcome : Run Event α)
      (MonadExcept.throw outcome) :=
  fun events => .error outcome events

/-- A run is related to itself if its results are. -/
theorem refl
    {relation : α → α → Prop}
    (reflexive : ∀ result, relation result result)
    (run : Run Event α) :
    Related relation run run := by
  intro events
  cases run events with
  | ok result later =>
      exact .ok (reflexive result)
  | error outcome later =>
      exact .error outcome later

theorem self
    (run : Run Event α) :
    Related Eq run run :=
  refl (fun _ => rfl) run

theorem mono
    {strong weak : α → β → Prop}
    {first : Run Event α}
    {second : Run Event β}
    (related : Related strong first second)
    (weaker : ∀ left right, strong left right → weak left right) :
    Related weak first second :=
  fun events => (related events).mono weaker

/-- Related runs that always stop are related in every way. -/
theorem ofError
    {relation other : α → β → Prop}
    {first : Run Event α}
    {second : Run Event β}
    (related : Related relation first second)
    (stops : ∀ events, ∃ outcome later, first events = .error outcome later) :
    Related other first second := by
  intro events
  have alike := related events
  obtain ⟨outcome, later, stopped⟩ := stops events
  rw [stopped] at alike ⊢
  generalize second events = right at alike ⊢
  cases alike with
  | error _ _ =>
      exact .error outcome later

/-- Related runs that go on in related ways are related. -/
theorem bind
    {relation : α → β → Prop}
    {next : γ → δ → Prop}
    {first : Run Event α}
    {second : Run Event β}
    {afterFirst : α → Run Event γ}
    {afterSecond : β → Run Event δ}
    (related : Related relation first second)
    (continued :
      ∀ left right, relation left right →
      Related next (afterFirst left) (afterSecond right)) :
    Related next (first >>= afterFirst) (second >>= afterSecond) := by
  intro events
  have alike := related events
  show Alike next (EStateM.bind first afterFirst events)
    (EStateM.bind second afterSecond events)
  unfold EStateM.bind
  revert alike
  generalize first events = left
  generalize second events = right
  intro alike
  cases alike with
  | ok results =>
      exact continued _ _ results _
  | error outcome later =>
      exact .error outcome later

theorem map
    {relation : α → β → Prop}
    {next : γ → δ → Prop}
    {first : Run Event α}
    {second : Run Event β}
    {changeFirst : α → γ}
    {changeSecond : β → δ}
    (related : Related relation first second)
    (changed :
      ∀ left right, relation left right →
      next (changeFirst left) (changeSecond right)) :
    Related next (changeFirst <$> first) (changeSecond <$> second) := by
  rw [← bind_pure_comp, ← bind_pure_comp]
  exact related.bind fun left right results => pure (changed left right results)

/-- Related runs have the same outcome and events. -/
theorem behaviour
    {relation : α → β → Prop}
    {first : Run Event α}
    {second : Run Event β}
    (related : Related relation first second)
    (finished : Outcome) :
    first.behaviour finished = second.behaviour finished := by
  unfold Run.behaviour
  have alike := related []
  revert alike
  generalize first [] = left
  generalize second [] = right
  intro alike
  cases alike with
  | ok results =>
      rfl
  | error outcome later =>
      rfl

end Related

end MiniJava.Run
