import MiniJava.Proofs.Configurations
import MiniJava.Proofs.EmittedCode
import MiniJava.Proofs.KeptVariables

namespace MiniJava

/-!
# The register budget

No colour is as high as the budget, and every local that the emitted code loads
or stores has a colour. So the slots of a body are those of its receiver, its
parameters and at most as many more as the budget allows.
-/

open Code (Method ClassCode Operand Variable)
open Register (Allocation Assignment Graph allocate registersUsed)
open Assembly (Line bodyCode callCode count instrCode methodBlock operation pushed
  slotIn stored valueCode)

namespace Register

/--
Where there is a budget, allocation without an error allocates the
slots of every method.
-/
theorem allocateMethods_allocated
    {budget : Nat}
    (positive : 0 < budget)
    {methods results : List Method}
    (ran : allocateMethods budget methods = (results, none)) :
    List.Forall₂
      (fun method placed =>
        ∃ allocation, allocate budget method = .ok (some allocation) ∧
          placed = allocation.method)
      methods results := by
  induction methods generalizing results with
  | nil =>
      cases ran
      exact .nil
  | cons first rest inductionHypothesis =>
      unfold allocateMethods at ran
      cases firstRan : allocate budget first with
      | error error => simp [firstRan] at ran
      | ok allocation? =>
          simp only [firstRan, Prod.mk.injEq] at ran
          obtain ⟨rfl, noError⟩ := ran
          refine .cons ?_ (inductionHypothesis (Prod.ext rfl noError))
          cases allocation? with
          | some allocation => exact ⟨allocation, firstRan, rfl⟩
          | none =>
              rw [allocate_eq positive] at firstRan
              cases colored : color budget first (.ofLiveness (analyze first)) <;>
                rw [colored] at firstRan <;>
                cases firstRan

end Register

/--
Where there is a budget, lines are assembled from methods with allocated slots.
-/
theorem assembledLines_allocated
    {budget : Nat}
    (positive : 0 < budget)
    {code : ClassCode}
    {lines : List Line}
    (assembled : assembledLines budget code = .ok lines) :
    ∃ placed,
      List.Forall₂
          (fun method placed =>
            ∃ allocation, allocate budget method = .ok (some allocation) ∧
              placed = allocation.method)
          code.methods placed ∧
        Assembly.generate { code with methods := placed } = .ok lines := by
  unfold assembledLines Register.allocateClass at assembled
  cases allocated : Register.allocateMethods budget code.methods with
  | mk placed error? =>
      rw [allocated] at assembled
      cases error? with
      | some error => cases assembled
      | none =>
          exact ⟨placed, Register.allocateMethods_allocated positive allocated,
            assembled⟩

namespace Assembly

variable {unit : ClassCode} {slot : String → Nat} {names : String → Prop}

/-- Code that loads and stores only the slots of names. -/
def Touches
    (slot : String → Nat)
    (names : String → Prop)
    (code : List Jvm.Instr) : Prop :=
  ∀ instr ∈ code, ∀ found, instr.slot? = some found → ∃ name, names name ∧
    slot name = found

namespace Touches

theorem nil : Touches slot names [] := by
  intro instr member
  cases member

theorem append
    {first second : List Jvm.Instr}
    (former : Touches slot names first)
    (latter : Touches slot names second) :
    Touches slot names (first ++ second) :=
  List.forall_mem_append.mpr ⟨former, latter⟩

theorem cons
    {first : Jvm.Instr}
    {rest : List Jvm.Instr}
    (former :
      ∀ found, first.slot? = some found → ∃ name, names name ∧ slot name = found)
    (latter : Touches slot names rest) :
    Touches slot names (first :: rest) :=
  List.forall_mem_cons.mpr ⟨former, latter⟩

/-- Instructions that have no slot. -/
theorem none
    {code : List Jvm.Instr}
    (noSlot : ∀ instr ∈ code, instr.slot? = none) :
    Touches slot names code := by
  intro instr member found isSlot
  rw [noSlot instr member] at isSlot
  cases isSlot

theorem pushed
    {operand : Operand}
    (named : ∀ name, operand.name? = some name → names name)
    {rest : List Jvm.Instr}
    (latter : Touches slot names rest) :
    Touches slot names (pushed slot operand :: rest) := by
  refine cons ?_ latter
  intro found isSlot
  cases operand with
  | literal value type => cases isSlot
  | var name type =>
      cases isSlot
      exact ⟨name, named name rfl, rfl⟩

theorem map_pushed
    {operands : List Operand}
    (named : ∀ operand ∈ operands, ∀ name, operand.name? = some name → names name) :
    Touches slot names (operands.map (Assembly.pushed slot)) := by
  induction operands with
  | nil => exact nil
  | cons first rest inductionHypothesis =>
      obtain ⟨firstNamed, restNamed⟩ := List.forall_mem_cons.mp named
      exact pushed firstNamed (inductionHypothesis restNamed)

theorem operation
    (number : Nat)
    (operator : Operator) :
    Touches slot names (operation number operator) := by
  apply none
  cases operator <;> simp [Assembly.operation, comparison, Jvm.Instr.slot?]

theorem callCode
    {call : Code.Call}
    (named :
      ∀ operand ∈ (Code.Instr.call call.kind call.target call.method call.arguments
        call.result).used, ∀ name, operand.name? = some name → names name) :
    Touches slot names (callCode unit slot call) := by
  have invoked : Touches slot names [invocation unit call] :=
    none (by simp [invocation, Jvm.Instr.slot?])
  rcases call with ⟨kind, target, method, arguments, result⟩
  cases kind with
  | static => exact (nil.append (map_pushed named)).append invoked
  | _ =>
      obtain ⟨targetNamed, argumentsNamed⟩ := List.forall_mem_cons.mp named
      exact ((pushed targetNamed nil).append (map_pushed argumentsNamed)).append
        invoked

theorem valueCode
    {number : Nat}
    {source : Code.Instr}
    (named :
      ∀ operand ∈ source.used, ∀ name, operand.name? = some name → names name) :
    Touches slot names (valueCode unit slot number source) := by
  cases source with
  | single operand => exact pushed (named operand List.mem_cons_self) nil
  | binary operator left right type =>
      obtain ⟨leftNamed, rightNamed⟩ := List.forall_mem_cons.mp named
      exact pushed leftNamed
        (pushed (List.forall_mem_singleton.mp rightNamed)
          (operation number operator))
  | call kind target method arguments result => exact callCode named
  | newObject className type =>
      exact none (by simp [Assembly.valueCode, Jvm.Instr.slot?])
  | newArray size type =>
      refine pushed (named size List.mem_cons_self) (none ?_)
      unfold Emit.arrayCreation
      split <;> simp [Except.toOption, Jvm.Instr.slot?]
  | getField object field =>
      exact pushed (named object List.mem_cons_self)
        (none (by simp [Jvm.Instr.slot?]))
  | _ => exact nil

/--
The code of an instruction touches only the slots of the variables that it needs.
-/
theorem instrCode
    (unit : ClassCode)
    (slot : String → Nat)
    (number : Nat)
    (source : Code.Instr) :
    Touches slot source.Needs (instrCode unit slot number source) := by
  have used :
      ∀ operand ∈ source.used, ∀ name, operand.name? = some name →
      source.Needs name :=
    fun operand member name isName => .inl ⟨operand, member, isName⟩
  cases source with
  | assign dest type value =>
      have valueUsed :
          ∀ operand ∈ value.used, ∀ name, operand.name? = some name →
            (Code.Instr.assign dest type value).Needs name :=
        used
      refine (valueCode valueUsed).append ?_
      cases dest with
      | literal _ _ => exact nil
      | var name _ =>
          refine cons ?_ nil
          intro found isSlot
          cases isSlot
          exact ⟨name, .inr rfl, rfl⟩
  | call kind target method arguments result =>
      refine (callCode used).append (none ?_)
      split <;> simp [Jvm.Instr.slot?]
  | putField object field value =>
      obtain ⟨objectUsed, valueUsed⟩ := List.forall_mem_cons.mp used
      exact pushed objectUsed
        (pushed (List.forall_mem_singleton.mp valueUsed)
          (none (by simp [Jvm.Instr.slot?])))
  | ret type value =>
      cases value with
      | none => exact none (by simp [Assembly.instrCode, Jvm.Instr.slot?])
      | some result =>
          exact pushed (used result List.mem_cons_self)
            (none (by simp [Jvm.Instr.slot?]))
  | _ => exact nil

/--
The code of a body touches only the slots of the variables that some
instruction needs.
-/
theorem bodyCode
    (unit : ClassCode)
    (slot : String → Nat)
    (number : Nat)
    (instrs : List Code.Instr) :
    Touches slot (fun name => ∃ instr ∈ instrs, instr.Needs name)
      (bodyCode unit slot number instrs) := by
  induction instrs generalizing number with
  | nil => exact nil
  | cons first rest inductionHypothesis =>
      refine append ?_ ?_
      · intro instr member found isSlot
        obtain ⟨name, needs, isName⟩ :=
          instrCode unit slot number first instr member found isSlot
        exact ⟨name, ⟨first, List.mem_cons_self, needs⟩, isName⟩
      · intro instr member found isSlot
        obtain ⟨name, ⟨source, isSource, needs⟩, isName⟩ :=
          inductionHypothesis (number + labelCount first) instr member found isSlot
        exact ⟨name, ⟨source, List.mem_cons_of_mem first isSource, needs⟩, isName⟩

end Touches

/--
Counted code needs no more locals than a bound above its slots and what is reserved.
-/
theorem maxLocals_count_le
    {code : List Jvm.Instr}
    {reserved bound : Nat}
    (isReserved : reserved ≤ bound)
    (below : ∀ instr ∈ code, ∀ slot, instr.slot? = some slot → slot < bound) :
    (code.foldl count {}).maxLocals reserved ≤ bound := by
  have counted
      {limits : Jvm.Limits}
      (isBelow : limits.SlotsBelow bound)
      (instr : Jvm.Instr)
      (slots : ∀ slot, instr.slot? = some slot → slot < bound) :
      (count limits instr).SlotsBelow bound := by
    have extended : (limits.extend instr).SlotsBelow bound :=
      Jvm.Limits.slotsBelow_extend_iff.mpr ⟨isBelow, slots⟩
    cases instr with
    | jump target =>
        rw [count, Jvm.Limits.SlotsBelow, Jvm.Limits.highestSlot_apply]
        exact extended
    | _ => exact extended
  have folded {limits : Jvm.Limits} (isBelow : limits.SlotsBelow bound) :
      (code.foldl count limits).SlotsBelow bound := by
    induction code generalizing limits with
    | nil => exact isBelow
    | cons first rest inductionHypothesis =>
        obtain ⟨firstBelow, restBelow⟩ := List.forall_mem_cons.mp below
        exact inductionHypothesis restBelow (counted isBelow first firstBelow)
  exact Jvm.Limits.maxLocals_le isReserved (folded (Jvm.Limits.slotsBelow_start _))

end Assembly

/--
The slots that a body touches and its limit keep to the variables on
entry and registers.
-/
structure KeepsRegisters
    (begun : Method)
    (registers locals : Nat)
    (body : List Jvm.Instr) : Prop where
  /--
  A slot is that of the receiver or a parameter, or one of the
  registers behind them.
  -/
  slots :
    ∀ instr ∈ body, ∀ slot, instr.slot? = some slot →
      (∃ name, begun.slot? name = some slot) ∨
        begun.baseSlot ≤ slot ∧ slot < begun.baseSlot + registers
  limit : locals ≤ begun.baseSlot + registers

/-- The block of a method whose slots are allocated keeps to its registers. -/
theorem Grown.keepsRegisters
    {begun method : Method}
    {budget number : Nat}
    {allocation : Allocation}
    {unit : ClassCode}
    (grown : Grown begun method)
    (fixed : FixedBelow begun.baseSlot begun.table)
    (allocated : allocate budget method = .ok (some allocation))
    (hasVariables :
      ∀ instr ∈ allocation.method.instrs,
        Assembly.HasVariablesOf instr allocation.method) :
    let body :=
      bodyCode unit (slotIn allocation.method) number allocation.method.instrs
    KeepsRegisters begun (registersUsed allocation.colors)
      ((body.foldl count {}).maxLocals allocation.method.baseSlot) body := by
  intro body
  have isAllocated := (Register.allocate_ok allocated).2
  have sameInstrs : allocation.method.instrs = method.instrs := by
    rw [isAllocated]
    rfl
  have sameBase : allocation.method.baseSlot = begun.baseSlot := by
    rw [isAllocated, ← grown.baseSlot]
    rfl
  have slots :
      ∀ instr ∈ body, ∀ slot, instr.slot? = some slot →
        (∃ name, begun.slot? name = some slot) ∨
          begun.baseSlot ≤ slot ∧
            slot < begun.baseSlot + registersUsed allocation.colors := by
    intro instr member slot isSlot
    obtain ⟨name, ⟨source, isSource, needs⟩, rfl⟩ :=
      Assembly.Touches.bodyCode _ _ _ _ instr member slot isSlot
    have inTable : name ∈ allocation.method.table :=
      hasVariablesOf_iff.mp (hasVariables source isSource) name needs
    obtain ⟨placed, isPlaced⟩ := mem_iff_exists_getElem?.mp inTable
    have hasSlot :
        allocation.method.slot? name = some (slotIn allocation.method name) := by
      simp [slotIn, Method.slot?, isPlaced]
    obtain ⟨entry, isEntry, _, isAllocatedSlot⟩ :=
      (Register.slot?_eq_some_iff allocated).mp hasSlot
    rw [← isAllocatedSlot]
    by_cases isLocal : entry.scope = .localVar
    · right
      obtain ⟨index, instrAt⟩ := List.mem_iff_getElem?.mp (sameInstrs ▸ isSource)
      obtain ⟨live, liveAt⟩ := Register.exists_liveAt instrAt
      have accessed := needs.accessed (mem_iff_exists_getElem?.mpr ⟨entry, isEntry⟩)
      have isNode :=
        liveAt.contains instrAt
          (accessed.imp (fun isRead => (liveAt.before name).mpr (.inl isRead)) .inr)
      obtain ⟨color, isColor, isSlot⟩ :=
        Register.allocatedSlot_of_local allocated isNode isEntry isLocal
      have inUse :=
        Register.registersUsed_le_iff.mp (Nat.le_refl _) name color isColor
      have sameBase := grown.baseSlot
      omega
    · left
      rw [Register.allocatedSlot_of_not_local isLocal]
      rcases grown.added isEntry with isBegun | ⟨isAdded, _⟩
      · exact ⟨name, by simp [Method.slot?, isBegun]⟩
      · exact absurd isAdded isLocal
  refine ⟨slots, ?_⟩
  rw [sameBase]
  refine Assembly.maxLocals_count_le (Nat.le_add_right _ _)
    fun instr member slot isSlot => ?_
  rcases slots instr member slot isSlot with ⟨name, isBegun⟩ | ⟨_, below⟩
  · obtain ⟨entry, isEntry, rfl⟩ := Option.map_eq_some_iff.mp isBegun
    exact Nat.lt_add_right _ (fixed.below isEntry)
  · exact below

/--
The emitted code keeps to its register budget. Every slot that a method loads or
stores is that of its receiver or of a parameter, or one of the registers that
follow them, and its limit of locals counts no more than these. There are at most
as many registers as the budget allows.
-/
theorem slots_within_budget
    {unit : TypedUnit}
    {options : Options}
    {text : String}
    (positive : 0 < options.budget)
    (compiled : unit.compile options = .ok text) :
    ∃ code lines,
      (unit.prepared options).lower unit.symbols = .ok code ∧
        unit.lines options = .ok lines ∧
          Assembly.render lines = text ∧
            ∀ (index : Nat) (source : MethodDef),
              unit.program.mainClass.methods[index]? = some source →
              ∃ method allocation header stack locals body,
                code.methods[index]? = some method ∧
                  allocate options.budget method = .ok (some allocation) ∧
                    (Assembly.blocks lines)[index + 1]? =
                        some ([header, .stackLimit stack, .localsLimit locals] ++
                          body.map .code ++ [.methodEnd]) ∧
                      registersUsed allocation.colors ≤ options.budget ∧
                        (source.begin unit.symbols.className).baseSlot =
                            (if source.isStatic then 0 else 1) +
                              source.params.length ∧
                          KeepsRegisters (source.begin unit.symbols.className)
                            (registersUsed allocation.colors) locals body := by
  obtain ⟨lines, isLines, isText⟩ := TypedUnit.compile_ok compiled
  obtain ⟨code, lowered, assembled⟩ := TypedUnit.lines_ok isLines
  refine ⟨code, lines, lowered, isLines, isText, ?_⟩
  intro index source sourceAt
  obtain ⟨change, isPrepared, _⟩ := unit.prepared_improves options
  rw [isPrepared] at lowered
  have preparedAt := Program.getElem?_mapBodies sourceAt change
  obtain ⟨loweredAll, _⟩ := Program.lower_loweredFrom lowered
  obtain ⟨method, methodAt, comesFrom⟩ := forall₂_getElem? loweredAll preparedAt
  obtain ⟨placed, allocatedAll, generated⟩ :=
    assembledLines_allocated positive assembled
  obtain ⟨_, placedAt, allocation, allocated, rfl⟩ :=
    forall₂_getElem? allocatedAll methodAt
  obtain ⟨number, blockAt⟩ := Assembly.generate_blocks generated placedAt
  have hasVariables :=
    Assembly.generate_hasVariables generated allocation.method
      (List.mem_of_getElem? placedAt)
  refine ⟨method, allocation, _, _, _, _, methodAt, allocated, blockAt, ?_, ?_, ?_⟩
  · exact Register.registersUsed_le_iff.mpr fun name color isColor =>
      Register.color_lt (Register.allocate_ok allocated).1 isColor
  · exact congrArg (_ + ·) (List.length_map _)
  · exact comesFrom.grown.keepsRegisters (source.begin_fixed unit.symbols.className)
      allocated hasVariables

/-- A method with a store that nothing reads and code that is never reached. -/
private def sharing : MethodDef where
  name := "share"
  returnType := .int
  params := [⟨"n", .int⟩]
  locals := [⟨"a", .int⟩, ⟨"b", .int⟩, ⟨"c", .int⟩]
  body :=
    [.assign "a" .int (.binary .add (.var "n" .int) (.literal (.int 1)) .int),
      .assign "b" .int
        (.binary .mul (.var "a" .int)
          (.binary .sub (.var "a" .int) (.var "n" .int) .int) .int),
      .assign "c" .int (.var "b" .int),
      .ret (some (.var "b" .int)),
      .assign "a" .int (.binary .add (.var "a" .int) (.var "b" .int) .int),
      .ret (some (.var "a" .int))]

private def sharingUnit : TypedUnit where
  program := { mainClass := { name := "A", methods := [sharing] } }

/--
The three locals and a temporary share two registers behind the
receiver and a parameter.
-/
theorem slots_within_budget_sharing :
    0 < ({ registers := some 2 } : Options).budget ∧
      ∃ text lines used header stack locals body,
        sharingUnit.compile { registers := some 2 } = .ok text ∧
          Assembly.render lines = text ∧
            (Assembly.blocks lines)[1]? =
                some
                  ([header, .stackLimit stack, .localsLimit locals] ++
                    body.map .code ++
                  [.methodEnd]) ∧
              used ≤ 2 ∧
                locals ≤ 4 ∧
                  KeepsRegisters (sharing.begin sharingUnit.symbols.className)
                    used locals body := by
  have positive : 0 < ({ registers := some 2 } : Options).budget := by decide
  have compiles :
      (sharingUnit.compile { registers := some 2 }).toOption.isSome = true := by
    decide +kernel
  obtain ⟨text, compiled⟩ := exists_ok_of_isSome compiles
  obtain ⟨_, lines, _, _, isText, each⟩ := slots_within_budget positive compiled
  obtain ⟨_, allocation, header, stack, locals, body, _, _, blockAt, fits, isBase,
    keeps⟩ :=
    each 0 sharing rfl
  have fits : registersUsed allocation.colors ≤ 2 := fits
  refine ⟨positive, text, lines, _, header, stack, locals, body, compiled, isText,
    blockAt, fits, ?_, keeps⟩
  calc locals
      ≤ (sharing.begin sharingUnit.symbols.className).baseSlot +
          registersUsed allocation.colors := keeps.limit
    _ = 2 + registersUsed allocation.colors := by rw [isBase]; rfl
    _ ≤ 2 + 2 := Nat.add_le_add_left fits 2

end MiniJava
