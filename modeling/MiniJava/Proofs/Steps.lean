import MiniJava.Decimal
import Std.Data.String.ToNat

namespace MiniJava

/-!
# Steps with a state

Lowering, emission and runs are all steps that change a state and may stop.
What a sequence of steps does is read off from what its parts do.
-/

section

variable {ε σ α β : Type}

/-- A sequence of two steps goes on exactly if both of them do. -/
theorem bind_ok_iff
    {first : EStateM ε σ α}
    {second : α → EStateM ε σ β}
    {state after : σ}
    {result : β} :
    (first >>= second) state = .ok result after ↔
      ∃ value between,
        first state = .ok value between ∧
          second value between = .ok result after := by
  show (EStateM.bind first second) state = .ok result after ↔ _
  unfold EStateM.bind
  cases ran : first state with
  | ok value between =>
      constructor
      · intro rest
        exact ⟨value, between, rfl, rest⟩
      · rintro ⟨_, _, same, rest⟩
        cases same
        exact rest
  | error error between =>
      constructor
      · intro impossible
        cases impossible
      · rintro ⟨_, _, impossible, _⟩
        cases impossible

theorem bind_of_ok
    {first : EStateM ε σ α}
    {second : α → EStateM ε σ β}
    {state between : σ}
    {value : α}
    (ran : first state = .ok value between) :
    (first >>= second) state = second value between := by
  show (EStateM.bind first second) state = _
  simp only [EStateM.bind, ran]

theorem bind_of_error
    {first : EStateM ε σ α}
    {second : α → EStateM ε σ β}
    {state between : σ}
    {error : ε}
    (stopped : first state = .error error between) :
    (first >>= second) state = .error error between := by
  show (EStateM.bind first second) state = _
  simp only [EStateM.bind, stopped]

/-- Sequences are equal that go on alike from wherever their first step leads. -/
theorem bind_congr_of_ok
    {first : EStateM ε σ α}
    {second other : α → EStateM ε σ β}
    (alike :
      ∀ {state value between}, first state = .ok value between →
      second value = other value) :
    first >>= second = first >>= other := by
  funext state
  cases ran : first state with
  | ok value between =>
      rw [bind_of_ok ran, bind_of_ok ran, alike ran]
  | error error between =>
      rw [bind_of_error ran, bind_of_error ran]

/-- A step that only gives a value changes nothing. -/
theorem pure_ok_iff
    {value result : α}
    {state after : σ} :
    (pure value : EStateM ε σ α) state = .ok result after ↔
      value = result ∧ state = after := by
  constructor
  · intro same
    cases same
    exact ⟨rfl, rfl⟩
  · rintro ⟨rfl, rfl⟩
    rfl

theorem modify_ok_iff
    {change : σ → σ}
    {state after : σ}
    {result : PUnit} :
    (modify change : EStateM ε σ PUnit) state = .ok result after ↔
      change state = after := by
  constructor
  · intro same
    cases same
    rfl
  · rintro rfl
    rfl

theorem get_ok_iff
    {state result after : σ} :
    (get : EStateM ε σ σ) state = .ok result after ↔
      state = result ∧ state = after := by
  constructor
  · intro same
    cases same
    exact ⟨rfl, rfl⟩
  · rintro ⟨rfl, rfl⟩
    rfl

theorem set_ok_iff
    {state given after : σ}
    {result : PUnit} :
    (set given : EStateM ε σ PUnit) state = .ok result after ↔
      given = after := by
  constructor
  · intro same
    cases same
    rfl
  · rintro rfl
    rfl

theorem throw_ok_iff
    {error : ε}
    {state after : σ}
    {result : α} :
    (throw error : EStateM ε σ α) state = .ok result after ↔ False := by
  constructor
  · intro impossible
    cases impossible
  · exact False.elim

/-- A result is there exactly if nothing went wrong. -/
theorem toOption_eq_some_iff
    {result : Except ε α}
    {value : α} :
    result.toOption = some value ↔ result = .ok value := by
  cases result with
  | error error =>
      simp [Except.toOption]
  | ok other =>
      simp [Except.toOption]

/-- What has a result went well. -/
theorem exists_ok_of_isSome
    {result : Except ε α}
    (hasResult : result.toOption.isSome = true) :
    ∃ value, result = .ok value := by
  obtain ⟨value, isResult⟩ := Option.isSome_iff_exists.mp hasResult
  exact ⟨value, toOption_eq_some_iff.mp isResult⟩

/-- What has a result of some measure went well. -/
theorem exists_ok_of_map
    {β : Type}
    {result : Except ε α}
    {measure : α → β}
    {measured : β}
    (isMeasured : result.toOption.map measure = some measured) :
    ∃ value, result = .ok value ∧ measure value = measured := by
  obtain ⟨value, isResult, isMeasure⟩ := Option.map_eq_some_iff.mp isMeasured
  exact ⟨value, toOption_eq_some_iff.mp isResult, isMeasure⟩

end

/-- Different numbers have different decimal texts. -/
theorem Decimal.ofNat_injective
    {first second : Nat}
    (same : Decimal.ofNat first = Decimal.ofNat second) :
    first = second :=
  Nat.repr_injective same

end MiniJava
