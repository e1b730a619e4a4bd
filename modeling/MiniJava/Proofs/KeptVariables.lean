import MiniJava.Proofs.EmissionVariables
import MiniJava.Proofs.LoweredTables

namespace MiniJava

/-!
# Variables that are left after allocation

Allocation drops the variables that are named like temporaries and have no
colour. Every local that an instruction reads or writes has a colour. A parameter
never has one, so a parameter that is named like a temporary is dropped even if
the code needs it, and then the method cannot be emitted any more.
-/

open Code (Method ClassCode Variable)
open Register (Allocation allocate reads writes?)
open Assembly (generate HasVariable HasVariablesOf)

/-- An instruction needs a name if it uses or writes to the variable. -/
def Code.Instr.Needs (instr : Code.Instr) (name : String) : Prop :=
  (∃ operand ∈ instr.used, operand.name? = some name) ∨
    instr.destination? = some name

/--
A method has the variables of an instruction if it has all names that are needed.
-/
theorem hasVariablesOf_iff
    {instr : Code.Instr}
    {method : Method} :
    HasVariablesOf instr method ↔ ∀ name, instr.Needs name →
    name ∈ method.table := by
  constructor
  · rintro has name (⟨operand, isUsed, isName⟩ | isDestination)
    · exact has.used operand isUsed name isName
    · exact has.destination name isDestination
  · intro has
    exact ⟨fun operand isUsed name isName =>
      has name (.inl ⟨operand, isUsed, isName⟩),
      fun name isDestination => has name (.inr isDestination)⟩

/-- What an instruction needs of the table is seen to be read or written. -/
theorem Code.Instr.Needs.accessed
    {instr : Code.Instr}
    {table : Code.VariableTable}
    {name : String}
    (needs : instr.Needs name)
    (member : name ∈ table) :
    name ∈ reads table instr ∨ writes? table instr = some name := by
  rcases needs with ⟨operand, isUsed, isName⟩ | isDestination
  · exact .inl (Register.mem_reads.mpr
      ⟨member, operand, instr.used_subset_operandsOf isUsed, isName⟩)
  · right
    rw [Code.writes?_eq, isDestination]
    simp [member]

/--
A variable of a lowered method that is named like a temporary is a
local or a parameter.
-/
theorem Lower.isLocal_iff
    {symbols : Symbols}
    {source : MethodDef}
    {state after : Lowering}
    {lowered : Method}
    {name : String}
    {entry : Variable}
    (ran : Lower.method symbols source state = .ok lowered after)
    (isEntry : lowered.table[name]? = some entry)
    (isTemporary : Code.isTemporaryName name = true) :
    entry.scope = .localVar ↔ lowered.isParam name = false := by
  have grown := (Lower.method_grown ran).1
  have fixed := source.begin_fixed symbols.className
  have sameParams :
      lowered.isParam name = (source.begin symbols.className).isParam name := by
    rw [Method.isParam, Method.isParam, grown.params]
  rw [sameParams]
  constructor
  · intro isLocal
    by_contra isParam
    have begun :=
      (source.mem_begin symbols.className).mpr (.inr (Bool.of_not_eq_false isParam))
    obtain ⟨beginning, isBeginning⟩ := mem_iff_exists_getElem?.mp begun
    have sameEntry := Option.some.inj ((grown.keeps isBeginning).symm.trans isEntry)
    exact fixed.scope isBeginning (sameEntry ▸ isLocal)
  · intro noParam
    rcases grown.added isEntry with isBeginning | ⟨isLocal, _⟩
    · have begun := (source.mem_begin symbols.className).mp
        (mem_iff_exists_getElem?.mpr ⟨entry, isBeginning⟩)
      rcases begun with ⟨_, rfl⟩ | isParam
      · cases isTemporary
      · rw [isParam] at noParam
        cases noParam
    · exact isLocal

/-- A method of a lowered program comes from a method of the program. -/
theorem Program.exists_source
    {symbols : Symbols}
    {program : Program}
    {unit : ClassCode}
    {method : Method}
    (lowered : program.lower symbols = .ok unit)
    (isMethod : method ∈ unit.methods) :
    ∃ source state after, Lower.method symbols source state = .ok method after := by
  have related :=
    (Program.lower_forall₂
      (fun source _ state after method _ ran =>
        (⟨source, state, after, ran⟩ :
          ∃ source state after,
            Lower.method symbols source state = .ok method after))
      lowered).1
  obtain ⟨_, _, comes⟩ := forall₂_mem_right related isMethod
  exact comes

section

variable {symbols : Symbols} {program : Program} {unit : ClassCode}
  {method : Method} {budget : Nat} {allocation : Allocation}

/--
What is read or written stays in the table, unless it is a parameter
named like a temporary.
-/
theorem accessed_stays_of_lowered
    (lowered : program.lower symbols = .ok unit)
    (isMethod : method ∈ unit.methods)
    (allocated : allocate budget method = .ok (some allocation))
    {instr : Code.Instr}
    {name : String}
    (member : instr ∈ method.instrs)
    (isUsed :
      name ∈ reads method.table instr ∨ writes? method.table instr = some name) :
    name ∈ allocation.method.table ↔
      ¬(Code.isTemporaryName name = true ∧ method.isParam name = true) := by
  obtain ⟨source, state, after, ran⟩ := Program.exists_source lowered isMethod
  obtain ⟨entry, isEntry⟩ :=
    mem_iff_exists_getElem?.mp (Register.mem_table_of_accessed isUsed)
  rw [Register.accessed_stays_iff allocated member isUsed isEntry]
  cases isTemporary : Code.isTemporaryName name with
  | false => simp
  | true => simp [Lower.isLocal_iff ran isEntry isTemporary]

/--
After allocation the table of a lowered method still has each variable that is
read or written, except parameters that are named like temporaries. So a method
that could be emitted before can be emitted after it, among whatever other
methods, exactly if it needs no such parameter.
-/
theorem allocation_keeps_accessed
    (lowered : program.lower symbols = .ok unit)
    (isMethod : method ∈ unit.methods)
    (allocated : allocate budget method = .ok (some allocation)) :
    (∀ instr ∈ method.instrs, ∀ name,
        (name ∈ reads method.table instr ∨ writes? method.table instr = some name) →
        (name ∈ allocation.method.table ↔
          ¬(Code.isTemporaryName name = true ∧ method.isParam name = true))) ∧
      ∀ (emitted : ClassCode) (before after : List Method),
        (∃ lines,
          generate { emitted with methods := before ++ method :: after } = .ok
            lines) →
        ((∃ lines,
            generate
              { emitted with methods := before ++ allocation.method :: after } =
              .ok lines) ↔
          ∀ instr ∈ method.instrs, ∀ name,
            instr.Needs name →
            ¬(Code.isTemporaryName name = true ∧ method.isParam name = true)) := by
  have stays {instr : Code.Instr} {name : String} :=
    @accessed_stays_of_lowered _ _ _ _ _ _ lowered isMethod allocated instr name
  refine ⟨fun instr member name isUsed => stays member isUsed, ?_⟩
  intro emitted before after canEmit
  have sameInstrs : allocation.method.instrs = method.instrs := by
    rw [(Register.allocate_ok allocated).2]
    rfl
  rw [Assembly.generate_ok_iff] at canEmit ⊢
  obtain ⟨emitsBefore, emitsRest⟩ := List.forall_mem_append.mp canEmit
  obtain ⟨emitsMethod, emitsAfter⟩ := List.forall_mem_cons.mp emitsRest
  have needed {instr : Code.Instr} (member : instr ∈ method.instrs) {name : String}
      (needs : instr.Needs name) :
      name ∈ allocation.method.table ↔
        ¬(Code.isTemporaryName name = true ∧ method.isParam name = true) :=
    stays member
      (needs.accessed
        (hasVariablesOf_iff.mp (emitsMethod instr member).2 name needs))
  constructor
  · intro emits instr member name needs
    have has := emits allocation.method (by simp) instr (sameInstrs ▸ member)
    exact (needed member needs).mp (hasVariablesOf_iff.mp has.2 name needs)
  · intro apart
    refine List.forall_mem_append.mpr
      ⟨emitsBefore, List.forall_mem_cons.mpr ⟨?_, emitsAfter⟩⟩
    rw [sameInstrs]
    intro instr member
    refine ⟨(emitsMethod instr member).1,
      hasVariablesOf_iff.mpr fun name needs => ?_⟩
    exact (needed member needs).mpr (apart instr member name needs)

end

/-- A method with a local that is named like a temporary. -/
private def doubling : MethodDef where
  name := "double"
  isStatic := true
  returnType := .int
  params := [⟨"n", .int⟩]
  locals := [⟨"tmp0", .int⟩]
  body :=
    [.assign "tmp0" .int
        (.binary .add (.binary .add (.var "n" .int) (.literal (.int 1)) .int)
          (.var "n" .int) .int),
      .ret (some (.var "tmp0" .int))]

private def doublingProgram : Program where
  mainClass := { name := "A", methods := [doubling] }

/-- The code of the method, with one more temporary. -/
private def doublingCode : Method where
  name := "double"
  isStatic := true
  params := [.var "n" .int]
  returnType := .int
  instrs :=
    [.store (.var "tmp1" .int) (.binary .add (.var "n" .int) (.int 1) .int),
      .store (.var "tmp0" .int)
        (.binary .add (.var "tmp1" .int) (.var "n" .int) .int),
      .ret .int (some (.var "tmp0" .int))]
  flow := ⟨[[1], [2], []]⟩
  table :=
    (((∅ : Code.VariableTable).insert "n" ⟨.int, .param, 0⟩).insert
      "tmp1" ⟨.int, .localVar, 1⟩).insert
      "tmp0" ⟨.int, .localVar, 2⟩

/--
The local and the temporary share a slot, and the method can still be emitted.
-/
theorem allocation_keeps_doubling :
    ∃ allocation,
      doublingProgram.lower (.ofProgram doublingProgram) =
          .ok { name := "A", methods := [doublingCode] } ∧
        allocate 1 doublingCode = .ok (some allocation) ∧
          "tmp0" ∈ allocation.method.table ∧
            ∃ lines, generate { name := "A", methods := [allocation.method] } = .ok
              lines := by
  have lowered :
      doublingProgram.lower (.ofProgram doublingProgram) =
        .ok { name := "A", methods := [doublingCode] } := by
    rfl
  refine ⟨_, lowered, rfl, ?_⟩
  obtain ⟨stays, emits⟩ :=
    @allocation_keeps_accessed _ _ _ doublingCode 1 _ lowered List.mem_cons_self rfl
  have notTemporary (name : String) (isParam : doublingCode.isParam name = true) :
      Code.isTemporaryName name = false := by
    obtain rfl : "n" = name := by
      simpa [Method.isParam, doublingCode, Code.Operand.name?] using isParam
    decide
  constructor
  · apply (stays (.ret .int (some (.var "tmp0" .int))) (by simp [doublingCode])
      "tmp0" ?_).mpr
    · decide
    · decide +kernel
  · apply (emits { name := "A" } [] [] ⟨_, rfl⟩).mpr
    rintro instr _ name _ ⟨isTemporary, isParam⟩
    rw [notTemporary name isParam] at isTemporary
    cases isTemporary

/-- A method that returns a parameter that is named like a temporary. -/
private def giving : MethodDef where
  name := "give"
  isStatic := true
  returnType := .int
  params := [⟨"tmp0", .int⟩]
  body := [.ret (some (.var "tmp0" .int))]

private def givingProgram : Program where
  mainClass := { name := "A", methods := [giving] }

/-- The code of the method. -/
private def givingCode : Method where
  name := "give"
  isStatic := true
  params := [.var "tmp0" .int]
  returnType := .int
  instrs := [.ret .int (some (.var "tmp0" .int))]
  flow := .straight [.ret .int (some (.var "tmp0" .int))]
  table := (∅ : Code.VariableTable).insert "tmp0" ⟨.int, .param, 0⟩

/--
A parameter that is returned is dropped, and the method cannot be emitted any more.
-/
theorem allocation_drops_parameter :
    ∃ allocation,
      givingProgram.lower (.ofProgram givingProgram) =
          .ok { name := "A", methods := [givingCode] } ∧
        allocate 1 givingCode = .ok (some allocation) ∧
          "tmp0" ∈ reads givingCode.table (.ret .int (some (.var "tmp0" .int))) ∧
            "tmp0" ∉ allocation.method.table ∧
              (∃ lines,
                generate { name := "A", methods := [givingCode] } = .ok lines) ∧
                generate { name := "A", methods := [allocation.method] } =
                  .error (.unknownVariable "tmp0" "give") := by
  refine ⟨_, rfl, rfl, ?_, ?_, ⟨_, rfl⟩, ?_⟩
  · decide +kernel
  · decide +kernel
  · decide +kernel

end MiniJava
