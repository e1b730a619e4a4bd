import MiniJava.Proofs.LivePaths

namespace MiniJava

/-!
# Reads that are exposed to the start

A read in a sequence is exposed if everything before it lets it pass. For
statements and for instructions alike, what lets a read of a variable pass is
what neither assigns to the variable nor returns. In straight code, the
variables that are live before an instruction are those with an exposed read
from there on.
-/

/-- Some item hits, and all items before it let it pass. -/
def Exposed {α : Type} (hits passes : α → Prop) (items : List α) : Prop :=
  ∃ before item after,
    items = before ++ item :: after ∧ hits item ∧ ∀ earlier ∈ before, passes earlier

namespace Exposed

variable {α : Type} {hits passes : α → Prop}

@[simp] theorem not_nil :
    ¬Exposed hits passes [] := by
  rintro ⟨before, item, after, isNil, _⟩
  exact List.append_ne_nil_of_right_ne_nil before (List.cons_ne_nil item after)
    isNil.symm

@[simp] theorem cons_iff
    {first : α}
    {rest : List α} :
    Exposed hits passes (first :: rest) ↔
      hits first ∨ passes first ∧ Exposed hits passes rest := by
  constructor
  · rintro ⟨before, item, after, isItems, hit, passed⟩
    cases before with
    | nil =>
        cases isItems
        exact .inl hit
    | cons head tail =>
        cases isItems
        rw [List.forall_mem_cons] at passed
        exact .inr ⟨passed.1, tail, item, after, rfl, hit, passed.2⟩
  · rintro (hit | ⟨passesFirst, before, item, after, rfl, hit, passed⟩)
    · exact ⟨[], first, rest, rfl, hit, by simp⟩
    · exact ⟨first :: before, item, after, rfl, hit,
        List.forall_mem_cons.mpr ⟨passesFirst, passed⟩⟩

/--
What is exposed in the second part is so in the whole if the first
part lets it pass.
-/
theorem append_iff
    {first second : List α} :
    Exposed hits passes (first ++ second) ↔
      Exposed hits passes first ∨
        (∀ item ∈ first, passes item) ∧ Exposed hits passes second := by
  induction first with
  | nil =>
      simp
  | cons head tail inductionHypothesis =>
      rw [List.cons_append, cons_iff, cons_iff, inductionHypothesis,
        List.forall_mem_cons]
      tauto

instance decidable [DecidablePred hits] [DecidablePred passes] :
    (items : List α) → Decidable (Exposed hits passes items)
  | [] => isFalse not_nil
  | first :: rest =>
      have := decidable rest
      decidable_of_iff' (hits first ∨ passes first ∧ Exposed hits passes rest)
        cons_iff

end Exposed

namespace Register

open Code (Instr Operand Method)

/-- An instruction reads a name. -/
def Reads (name : String) (instr : Instr) : Prop :=
  ∃ operand ∈ operandsOf instr, operand.name? = some name

/-- An instruction neither writes to a name nor returns. -/
def LetsPass (name : String) (instr : Instr) : Prop :=
  instr.destination? ≠ some name ∧ instr.isReturn = false

/-- Instructions read a name before they write to it and before they return. -/
def ReadsFirst (name : String) (instrs : List Instr) : Prop :=
  Exposed (Reads name) (LetsPass name) instrs

variable {method : Method} {index : Nat} {name : String}

/--
A path in straight code runs through the code as it stands, up to the first return.
-/
theorem path_straight_iff
    (isStraight : method.flow = .straight method.instrs)
    {earlier : List Instr}
    {last : Instr} :
    Path method index (earlier ++ [last]) ↔
      ∃ later,
        method.instrs.drop index = earlier ++ last :: later ∧
          ∀ instr ∈ earlier, instr.isReturn = false := by
  induction earlier generalizing index with
  | nil =>
      constructor
      · intro path
        obtain ⟨inside, isInstr⟩ := List.getElem?_eq_some_iff.mp path.head
        refine ⟨method.instrs.drop (index + 1), ?_, by simp⟩
        rw [List.drop_eq_getElem_cons inside, isInstr]
        rfl
      · rintro ⟨later, isDrop, _⟩
        refine .last ?_
        rw [← List.head?_drop, isDrop]
        rfl
  | cons first rest inductionHypothesis =>
      constructor
      · intro path
        obtain ⟨next, follows, restPath⟩ := path.tail (by simp)
        rw [isStraight, Code.Flow.mem_next_straight] at follows
        obtain ⟨rfl, _, instr, instrAt, goesOn⟩ := follows
        obtain rfl : first = instr := Option.some.inj (path.head.symm.trans instrAt)
        obtain ⟨later, isDrop, noReturn⟩ := inductionHypothesis.mp restPath
        obtain ⟨inside, isInstr⟩ := List.getElem?_eq_some_iff.mp instrAt
        refine ⟨later, ?_, List.forall_mem_cons.mpr ⟨goesOn, noReturn⟩⟩
        rw [List.drop_eq_getElem_cons inside, isInstr, isDrop]
        rfl
      · rintro ⟨later, isDrop, noReturn⟩
        rw [List.forall_mem_cons] at noReturn
        have instrAt : method.instrs[index]? = some first := by
          rw [← List.head?_drop, isDrop]
          rfl
        have restDrop : method.instrs.drop (index + 1) = rest ++ last :: later := by
          rw [← List.tail_drop, isDrop]
          rfl
        have inside : index + 1 < method.instrs.length := by
          rw [← List.drop_eq_nil_iff.not.trans Nat.not_le, restDrop]
          simp
        refine .step instrAt ?_
          (inductionHypothesis.mpr ⟨later, restDrop, noReturn.2⟩)
        rw [isStraight, Code.Flow.mem_next_straight]
        exact ⟨rfl, inside, first, instrAt, noReturn.1⟩

/-- In straight code the variables are live that are read first from there on. -/
theorem liveBefore_straight_iff
    (isStraight : method.flow = .straight method.instrs) :
    LiveBefore method index name ↔
      name ∈ method.table ∧ ReadsFirst name (method.instrs.drop index) := by
  rw [liveBefore_iff_needed]
  refine and_congr_right fun _ => ?_
  constructor
  · rintro ⟨earlier, reader, path, isRead, unwritten⟩
    obtain ⟨later, isDrop, noReturn⟩ := (path_straight_iff isStraight).mp path
    exact ⟨earlier, reader, later, isDrop, isRead,
      fun instr member => ⟨unwritten instr member, noReturn instr member⟩⟩
  · rintro ⟨earlier, reader, later, isDrop, isRead, passed⟩
    have path := (path_straight_iff isStraight).mpr
      ⟨later, isDrop, fun instr member => (passed instr member).2⟩
    exact ⟨earlier, reader, path, isRead, fun instr member =>
      (passed instr member).1⟩

end Register

end MiniJava
