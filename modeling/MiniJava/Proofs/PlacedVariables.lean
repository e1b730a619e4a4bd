import MiniJava.Proofs.EmissionVariables
import MiniJava.Proofs.LoweredTables

namespace MiniJava

/-!
# Lowered methods over their slots

A lowered method is emitted with the slots of its own table or with allocated
ones. Either way, a run over the slots does what a run over names does, if the
table has every variable that the instructions need.
-/

open Code (Instr Method Store Setting Variable)
open Register (Allocation allocate)

/-- Runs in order keep what each instruction keeps. -/
theorem Code.Setting.execAll_related
    {Event First Second : Type}
    [DecidableEq First]
    [DecidableEq Second]
    {first : Setting Event First}
    {second : Setting Event Second}
    {instrs : List Instr}
    (invariant : Nat → Store First → Store Second → Prop)
    (step :
      ∀ index instr, instrs[index]? = some instr →
        ∀ firstStore secondStore, invariant index firstStore secondStore →
          Run.Related (invariant (index + 1))
            (first.exec firstStore instr) (second.exec secondStore instr))
    {firstStore : Store First}
    {secondStore : Store Second}
    (start : invariant 0 firstStore secondStore) :
    Run.Related (invariant instrs.length)
      (first.execAll firstStore instrs) (second.execAll secondStore instrs) := by
  -- For the rest of the instructions, the invariant is the one that is shifted by
  -- one position.
  induction instrs generalizing invariant firstStore secondStore with
  | nil =>
      exact .pure start
  | cons instr rest inductionHypothesis =>
      refine (step 0 instr rfl firstStore secondStore start).bind ?_
      intro firstAfter secondAfter kept
      exact inductionHypothesis (fun index => invariant (index + 1))
        (fun index _ instrAt => step (index + 1) _ instrAt) kept

section

variable {Event : Type} {environment : Environment Event} {method placed : Method}
  {budget : Nat} {allocation : Allocation} {store : Store String} {slots :
    Store Nat}

/-- Places hold what the names that are located there hold. -/
def Code.Setting.Holds
    {Place : Type}
    (setting : Setting Event Place)
    (store : Store String)
    (places : Store Place) : Prop :=
  ∀ name place, setting.locate name = some place → places place = store name

/--
Where different variables have different places, a run does what a
run over names does.
-/
theorem Code.Setting.behaviour_overNames
    {Place : Type}
    [DecidableEq Place]
    {setting : Setting Event Place}
    {places : Store Place}
    (apart :
      ∀ {first second place}, setting.locate first = some place →
        setting.locate second = some place → first = second)
    (located : ∀ name ∈ method.table, ∃ place, setting.locate name = some place)
    (hasVariables : ∀ instr ∈ method.instrs, Assembly.HasVariablesOf instr method)
    (holds : setting.Holds store places) :
    setting.behaviour places method.instrs =
      (Setting.overNames setting.toEnvironment).behaviour store method.instrs := by
  have sameEnvironment :
      setting.toEnvironment =
        (Setting.overNames setting.toEnvironment).toEnvironment :=
    rfl
  have related :
      Run.Related (fun places store => setting.Holds store places)
        (setting.execAll places method.instrs)
        ((Setting.overNames setting.toEnvironment).execAll store
          method.instrs) := by
    refine Setting.execAll_related
      (fun _ places store => setting.Holds store places) ?_ holds
    intro index instr instrAt places store holds
    have has := hasVariables instr (List.mem_of_getElem? instrAt)
    have sameHeld :
        ∀ operand ∈ instr.used,
          setting.held places operand =
            (Setting.overNames setting.toEnvironment).held store operand := by
      intro operand isUsed
      cases operand with
      | literal value type =>
          rfl
      | var name type =>
          obtain ⟨place, isPlace⟩ := located name (has.used _ isUsed name rfl)
          simp [Setting.held, Setting.overNames, isPlace, holds name place isPlace]
    have sameLocated :
        ∀ name, instr.destination? = some name →
          (setting.locate name).isSome =
            ((Setting.overNames setting.toEnvironment).locate name).isSome := by
      intro name isWritten
      obtain ⟨place, isPlace⟩ := located name (has.destination name isWritten)
      simp [Setting.overNames, isPlace]
    refine (Setting.exec_related sameEnvironment sameHeld sameLocated).mono ?_
    intro placesAfter storeAfter changed
    cases changed with
    | unchanged _ =>
        exact holds
    | @written writtenName writtenPlace _ value _ atPlace atName =>
        cases Option.some.inj atName
        intro name place isPlace
        by_cases same : writtenName = name
        · subst same
          rw [Option.some.inj (atPlace.symm.trans isPlace), Function.update_self,
            Function.update_self]
        · have placeDiffers : place ≠ writtenPlace := by
            rintro rfl
            exact same (apart atPlace isPlace)
          rw [Function.update_of_ne placeDiffers,
            Function.update_of_ne (Ne.symm same)]
          exact holds name place isPlace
  exact related.behaviour .endOfBody

/-- A table that has every variable of the instructions is as good as no table. -/
theorem behaviour_overTable
    (hasVariables : ∀ instr ∈ method.instrs, Assembly.HasVariablesOf instr method) :
    (Setting.overTable environment method).behaviour store method.instrs =
      (Setting.overNames environment).behaviour store method.instrs := by
  refine Setting.behaviour_overNames ?_ ?_ hasVariables ?_
  · intro first second place isFirst isSecond
    obtain ⟨_, ⟨rfl⟩⟩ := Option.ite_none_right_eq_some.mp isFirst
    obtain ⟨_, ⟨rfl⟩⟩ := Option.ite_none_right_eq_some.mp isSecond
    rfl
  · exact fun name member => ⟨name, if_pos member⟩
  · intro name place isPlace
    obtain ⟨_, ⟨rfl⟩⟩ := Option.ite_none_right_eq_some.mp isPlace
    rfl

/-- Slots hold what the variables hold that are live before an instruction. -/
def AgreeBefore
    (method placed : Method)
    (index : Nat)
    (store : Store String)
    (slots : Store Nat) : Prop :=
  ∀ live, (Register.analyze method).rows[index]? = some live →
    Register.Agree placed live.before store slots

/-- An instruction of a straight line keeps the agreement on live variables. -/
theorem exec_agreeBefore
    (anchored : Register.Anchored method)
    (allocated : allocate budget method = .ok (some allocation))
    (straight : method.flow = .straight method.instrs)
    {index : Nat}
    {instr : Instr}
    (instrAt : method.instrs[index]? = some instr)
    (kept : Register.KeepsUsed method allocation instr)
    (agree : AgreeBefore method allocation.method index store slots) :
    Run.Related (AgreeBefore method allocation.method (index + 1))
      ((Setting.overTable environment method).exec store instr)
      ((Setting.overSlots environment allocation.method).exec slots instr) := by
  obtain ⟨live, liveAt⟩ := Register.exists_liveAt instrAt
  have related :
      Run.Related (Register.Agree allocation.method live.after)
        ((Setting.overTable environment method).exec store instr)
        ((Setting.overSlots environment allocation.method).exec slots instr) :=
    Register.exec_agree anchored allocated instrAt kept liveAt
      (agree live liveAt.row)
  cases isReturn : instr.isReturn with
  | true =>
      -- A return has no successor, but no run goes on behind it either.
      exact related.ofError (Setting.exec_of_isReturn _ store isReturn)
  | false =>
      refine related.mono ?_
      intro storeAfter slotsAfter agreeAfter next nextRow name isLive
      have inside : index + 1 < method.instrs.length := by
        rw [← Register.analyze_rows_length]
        exact (List.getElem?_eq_some_iff.mp nextRow).1
      have follows : index + 1 ∈ method.flow.next index := by
        rw [straight]
        exact Code.Flow.mem_next_straight.mpr
          ⟨rfl, inside, instr, instrAt, isReturn⟩
      exact agreeAfter name
        ((liveAt.after name).mpr ⟨_, follows, next, nextRow, isLive⟩)

/-- Over allocated slots, a straight line does what it does over names. -/
theorem behaviour_allocated
    (anchored : Register.Anchored method)
    (allocated : allocate budget method = .ok (some allocation))
    (straight : method.flow = .straight method.instrs)
    (kept : ∀ instr ∈ method.instrs, Register.KeepsUsed method allocation instr)
    (holds : (Setting.overSlots environment allocation.method).Holds store slots) :
    (Setting.overTable environment method).behaviour store method.instrs =
      (Setting.overSlots environment allocation.method).behaviour slots
        method.instrs := by
  have start : AgreeBefore method allocation.method 0 store slots :=
    fun _ _ name _ slot isSlot => holds name slot isSlot
  refine Run.Related.behaviour (Setting.execAll_related _ ?_ start) .endOfBody
  intro index instr instrAt store slots agree
  exact exec_agreeBefore anchored allocated straight instrAt
    (kept instr (List.mem_of_getElem? instrAt)) agree

/-- A method with the slots it was lowered with, or with allocated ones. -/
inductive Placed (method : Method) : Method → Prop where
  | asLowered : Placed method method
  | allocated {budget : Nat} {allocation : Allocation} :
      allocate budget method = .ok (some allocation) →
      Placed method allocation.method

/-- Allocation without an error places every method of a class. -/
theorem Register.allocateMethods_placed
    {methods results : List Method}
    (ran : Register.allocateMethods budget methods = (results, none)) :
    List.Forall₂ Placed methods results := by
  induction methods generalizing results with
  | nil =>
      cases ran
      exact .nil
  | cons first rest inductionHypothesis =>
      unfold Register.allocateMethods at ran
      cases firstRan : allocate budget first with
      | error error =>
          simp [firstRan] at ran
      | ok allocation? =>
          simp only [firstRan, Prod.mk.injEq] at ran
          obtain ⟨rfl, noError⟩ := ran
          refine .cons ?_ (inductionHypothesis (Prod.ext rfl noError))
          cases allocation? with
          | none =>
              exact .asLowered
          | some allocation =>
              exact .allocated firstRan

/--
The names on entry: the receiver and the parameters from their
slots, the locals from theirs.
-/
def entryStore
    (begun placed : Method)
    (slots : Store Nat) : Store String := fun name =>
  match begun.table[name]? with
  | some entry => slots entry.slot
  | none => (placed.slot? name).bind slots

namespace Placed

variable {begun : Method}

theorem instrs_eq
    (isPlaced : Placed method placed) :
    placed.instrs = method.instrs := by
  cases isPlaced with
  | asLowered =>
      rfl
  | allocated allocated =>
      rw [(Register.allocate_ok allocated).2]
      rfl

/-- The receiver and the parameters keep their slots. -/
theorem slot?_of_begun
    (grown : Grown begun method)
    (fixed : FixedBelow begun.baseSlot begun.table)
    (isPlaced : Placed method placed)
    {name : String}
    {entry : Variable}
    {slot : Nat}
    (isEntry : begun.table[name]? = some entry)
    (hasSlot : placed.slot? name = some slot) :
    slot = entry.slot := by
  have isKept := grown.keeps isEntry
  cases isPlaced with
  | asLowered =>
      rw [Method.slot?, isKept] at hasSlot
      exact (Option.some.inj hasSlot).symm
  | allocated allocated =>
      obtain ⟨found, isFound, _, rfl⟩ :=
        (Register.slot?_eq_some_iff allocated).mp hasSlot
      cases Option.some.inj (isKept.symm.trans isFound)
      exact Register.allocatedSlot_of_not_local (fixed.scope isEntry)

/-- On entry the slots hold what the names hold. -/
theorem holds_entryStore
    (grown : Grown begun method)
    (fixed : FixedBelow begun.baseSlot begun.table)
    (isPlaced : Placed method placed) :
    (Setting.overSlots environment placed).Holds (entryStore begun placed slots)
      slots := by
  intro name slot hasSlot
  have hasSlot : placed.slot? name = some slot := hasSlot
  unfold entryStore
  cases isEntry : begun.table[name]? with
  | none =>
      rw [hasSlot, Option.bind_some]
  | some entry =>
      rw [slot?_of_begun grown fixed isPlaced isEntry hasSlot]

/-- A placed method over its slots behaves like the lowered method over names. -/
theorem behaviour_eq
    (grown : Grown begun method)
    (fixed : FixedBelow begun.baseSlot begun.table)
    (straight : method.flow = .straight method.instrs)
    (isPlaced : Placed method placed)
    (hasVariables : ∀ instr ∈ placed.instrs, Assembly.HasVariablesOf instr placed) :
    (Setting.overSlots environment placed).behaviour slots placed.instrs =
      (Setting.overNames environment).behaviour (entryStore begun placed slots)
        method.instrs := by
  have holds :
      (Setting.overSlots environment placed).Holds (entryStore begun placed slots)
        slots :=
    holds_entryStore grown fixed isPlaced
  cases isPlaced with
  | asLowered =>
      refine Setting.behaviour_overNames ?_ (fun _ => Register.exists_slot?)
        hasVariables holds
      intro first second slot isFirst isSecond
      obtain ⟨firstEntry, firstFound, rfl⟩ := Option.map_eq_some_iff.mp isFirst
      obtain ⟨secondEntry, secondFound, same⟩ := Option.map_eq_some_iff.mp isSecond
      exact grown.apart firstFound secondFound same.symm
  | @allocated _ allocation allocated =>
      have isMember {name : String} (member : name ∈ allocation.method.table) :
          name ∈ method.table := by
        obtain ⟨slot, hasSlot⟩ := Register.exists_slot? member
        exact Register.mem_table_of_slot? allocated hasSlot
      rw [(Placed.allocated allocated).instrs_eq] at hasVariables ⊢
      have kept : ∀ instr ∈ method.instrs,
        Register.KeepsUsed method allocation instr :=
        fun instr isInstr =>
          ⟨fun operand isUsed name isName _ =>
            (hasVariables instr isInstr).used operand isUsed name isName,
            fun name isWritten _ =>
              (hasVariables instr isInstr).destination name isWritten⟩
      have lowered :
          ∀ instr ∈ method.instrs, Assembly.HasVariablesOf instr method :=
        fun instr isInstr =>
          ⟨fun operand isUsed name isName =>
            isMember ((hasVariables instr isInstr).used operand isUsed name isName),
            fun name isWritten =>
              isMember ((hasVariables instr isInstr).destination name isWritten)⟩
      -- The lowered table has more variables than the allocated one, so it has all
      -- that are needed.
      rw [← behaviour_overTable lowered]
      exact (behaviour_allocated (grown.anchored fixed) allocated straight kept
        holds).symm

end Placed

end

end MiniJava
