import Mathlib.Data.Finset.Card
import MiniJava.Lowering.State
import MiniJava.Proofs.Steps

namespace MiniJava

/-!
# Names of temporaries

Temporaries of different numbers have different names, and a new temporary has
a name that neither the class nor the method declares and no variable has.
-/

open Code (Operand ValueType Instr temporaryName isTemporaryName)

namespace Code

theorem temporaryName_injective :
    Function.Injective temporaryName := by
  intro first second same
  have sameText : (Decimal.ofNat first).toList = (Decimal.ofNat second).toList := by
    have sameList := congrArg String.toList same
    rw [temporaryName, temporaryName, String.toList_append, String.toList_append]
      at sameList
    exact List.append_cancel_left sameList
  exact Decimal.ofNat_injective (String.ext sameText)

/-- The name of a temporary has the form of one. -/
theorem isTemporaryName_temporaryName
    (number : Nat) :
    isTemporaryName (temporaryName number) = true := by
  have digits : (Decimal.ofNat number).toList = Nat.toDigits 10 number :=
    String.toList_ofList
  have spelled :
      (temporaryName number).toList =
        't' :: 'm' :: 'p' :: Nat.toDigits 10 number := by
    rw [temporaryName, String.toList_append, digits]
    rfl
  have allDigits : (Nat.toDigits 10 number).all Char.isDigit = true :=
    List.all_eq_true.mpr fun digit member =>
      Nat.isDigit_of_mem_toDigits (by decide) (by decide) member
  simp [isTemporaryName, spelled, allDigits, Nat.toDigits_ne_nil]

end Code

namespace Lowering

/-- All names that a temporary may not take, each as often as it is declared. -/
def takenNames (symbols : Symbols) (state : Lowering) : List String :=
  (symbols.localsOf state.methodName).map Declaration.name ++
    (symbols.paramsOf state.methodName).map Declaration.name ++
    symbols.fields.map Declaration.name ++
    match state.current? with
    | some method => method.table.keys
    | none => []

theorem takenNames_length
    (symbols : Symbols)
    (state : Lowering) :
    (state.takenNames symbols).length = state.takenBound symbols := by
  unfold takenNames takenBound
  cases state.current? with
  | none =>
      simp [Nat.add_assoc]
  | some method =>
      simp [Nat.add_assoc]

/-- A taken name is listed. -/
theorem mem_takenNames_of_isTaken
    {symbols : Symbols}
    {state : Lowering}
    {name : String}
    (taken : state.isTaken symbols name = true) :
    name ∈ state.takenNames symbols := by
  unfold isTaken Symbols.isLocal Symbols.isParam Symbols.field? hasVariable at taken
  unfold takenNames
  cases current : state.current? with
  | none =>
      simp [current] at taken ⊢
      grind
  | some method =>
      simp [current] at taken ⊢
      grind

/-- The search for a free number goes upwards. -/
theorem le_firstFree
    (symbols : Symbols)
    (state : Lowering)
    (bound start : Nat) :
    start ≤ state.firstFree symbols bound start := by
  induction bound generalizing start with
  | zero =>
      exact Nat.le_refl start
  | succ bound inductionHypothesis =>
      unfold firstFree
      split
      · exact Nat.le_of_succ_le (inductionHypothesis (start + 1))
      · exact Nat.le_refl start

/-- The search ends at a taken name only if it has found all names taken. -/
theorem all_taken_of_firstFree
    {symbols : Symbols}
    {state : Lowering}
    {bound start : Nat}
    (taken :
      state.isTaken symbols (temporaryName (state.firstFree symbols bound start)) =
        true)
    {offset : Nat}
    (inside : offset ≤ bound) :
    state.isTaken symbols (temporaryName (start + offset)) = true := by
  induction bound generalizing start offset with
  | zero =>
      obtain rfl : offset = 0 := Nat.le_zero.mp inside
      exact taken
  | succ bound inductionHypothesis =>
      unfold firstFree at taken
      split at taken
      case isTrue firstTaken =>
        cases offset with
        | zero =>
            exact firstTaken
        | succ offset =>
            have later := inductionHypothesis taken (Nat.le_of_succ_le_succ inside)
            rwa [Nat.add_right_comm, Nat.add_assoc] at later
      case isFalse free =>
        exact absurd taken free

/-- The number of a new temporary gives a name that is not taken. -/
theorem freshNumber_free
    (symbols : Symbols)
    (state : Lowering) :
    state.isTaken symbols (temporaryName (state.freshNumber symbols)) = false := by
  by_contra taken
  rw [Bool.not_eq_false] at taken
  -- All names that the search has looked at are taken, and they are one more than
  -- there can be.
  let candidates :=
    (Finset.range (state.takenBound symbols + 1)).image fun offset =>
      temporaryName (state.nextTemporary + offset)
  have different : candidates.card = state.takenBound symbols + 1 := by
    rw [Finset.card_image_of_injective, Finset.card_range]
    intro first second same
    exact Nat.add_left_cancel (Code.temporaryName_injective same)
  have listed : candidates ⊆ (state.takenNames symbols).toFinset := by
    intro name member
    obtain ⟨offset, inside, rfl⟩ := Finset.mem_image.mp member
    rw [List.mem_toFinset]
    exact mem_takenNames_of_isTaken
      (all_taken_of_firstFree taken
        (Nat.lt_succ_iff.mp (Finset.mem_range.mp inside)))
  have few : candidates.card ≤ state.takenBound symbols := by
    rw [← takenNames_length symbols state]
    exact (Finset.card_le_card listed).trans (List.toFinset_card_le _)
  omega

theorem le_freshNumber
    (symbols : Symbols)
    (state : Lowering) :
    state.nextTemporary ≤ state.freshNumber symbols :=
  le_firstFree symbols state _ _

end Lowering

namespace Lower

/-- A new temporary takes the next free number and is declared as a local. -/
theorem temporary_ok
    {symbols : Symbols}
    {type : ValueType}
    {state after : Lowering}
    {dest : Operand}
    (ran : temporary symbols type state = .ok dest after) :
    dest = .var (temporaryName (state.freshNumber symbols)) type ∧
      after =
        Lowering.changeMethod
          { state with nextTemporary := state.freshNumber symbols + 1 }
          fun method =>
            method.declare (temporaryName (state.freshNumber symbols)) type
              .localVar := by
  obtain ⟨_, _, gotten, rest⟩ := bind_ok_iff.mp ran
  obtain ⟨rfl, rfl⟩ := get_ok_iff.mp gotten
  obtain ⟨_, _, counted, rest⟩ := bind_ok_iff.mp rest
  obtain rfl := set_ok_iff.mp counted
  obtain ⟨_, _, declared, returned⟩ := bind_ok_iff.mp rest
  obtain rfl := modify_ok_iff.mp declared
  obtain ⟨rfl, rfl⟩ := pure_ok_iff.mp returned
  exact ⟨rfl, rfl⟩

/-- A value is stored in a new temporary by one more instruction. -/
theorem intoTemporary_ok
    {symbols : Symbols}
    {type : ValueType}
    {instr : Instr}
    {state after : Lowering}
    {dest : Operand}
    (ran : intoTemporary symbols type instr state = .ok dest after) :
    ∃ named,
      temporary symbols type state = .ok dest named ∧
        after =
          named.changeMethod fun method =>
            { method with instrs := method.instrs ++ [.store dest instr] } := by
  obtain ⟨_, named, temporaryRan, rest⟩ := bind_ok_iff.mp ran
  obtain ⟨_, _, emitted, returned⟩ := bind_ok_iff.mp rest
  obtain rfl := modify_ok_iff.mp emitted
  obtain ⟨rfl, rfl⟩ := pure_ok_iff.mp returned
  exact ⟨named, temporaryRan, rfl⟩

end Lower

end MiniJava
