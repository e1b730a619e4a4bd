import MiniJava.Proofs.CodeAgreement
import MiniJava.Proofs.Coloring
import MiniJava.Register.Allocation

namespace MiniJava.Register

/-!
# Allocated slots keep live values

A variable that is written gets a slot that no other variable has which is live
after the write. So on every path a slot still holds the last value of each live
variable, and a run over slots sees what a run over names sees.
-/

open Code (Instr Operand Method Store Variable)

/--
The variables that are not locals have different slots, below those of the locals.
-/
structure Anchored (method : Method) : Prop where
  below :
    ∀ {name : String} {entry : Variable},
      method.table[name]? = some entry → entry.scope ≠ .localVar →
        entry.slot < method.baseSlot
  apart :
    ∀ {first second : String} {firstEntry secondEntry : Variable},
      method.table[first]? = some firstEntry →
      method.table[second]? = some secondEntry →
        firstEntry.scope ≠ .localVar → secondEntry.scope ≠ .localVar →
          firstEntry.slot = secondEntry.slot → first = second

instance (method : Method) : Decidable (Anchored method) :=
  decidable_of_iff
    ((∀ row ∈ method.table.toList, row.2.scope ≠ .localVar →
      row.2.slot < method.baseSlot) ∧
      ∀ first ∈ method.table.toList, ∀ second ∈ method.table.toList,
        first.2.scope ≠ .localVar → second.2.scope ≠ .localVar →
          first.2.slot = second.2.slot → first.1 = second.1)
    ⟨fun both =>
      { below := fun isEntry =>
          both.1 _ (Std.ExtTreeMap.mem_toList_iff_getElem?_eq_some.mpr isEntry)
        apart := fun isFirst isSecond =>
          both.2 _ (Std.ExtTreeMap.mem_toList_iff_getElem?_eq_some.mpr isFirst)
            _ (Std.ExtTreeMap.mem_toList_iff_getElem?_eq_some.mpr isSecond) },
      fun anchored =>
        ⟨fun _ member =>
          anchored.below (Std.ExtTreeMap.mem_toList_iff_getElem?_eq_some.mp member),
          fun _ isFirst _ isSecond =>
            anchored.apart
              (Std.ExtTreeMap.mem_toList_iff_getElem?_eq_some.mp isFirst)
              (Std.ExtTreeMap.mem_toList_iff_getElem?_eq_some.mp isSecond)⟩⟩

variable {method : Method} {budget : Nat} {allocation : Allocation}

/--
With a budget, allocation colours the method and gives it the slots of the colours.
-/
theorem allocate_eq
    (positive : 0 < budget) :
    allocate budget method =
      (color budget method (.ofLiveness (analyze method))).map fun colors =>
        some ⟨dropUnused (applySlots method colors) colors, colors⟩ := by
  unfold allocate
  rw [if_neg (Nat.ne_of_gt positive)]
  cases color budget method (.ofLiveness (analyze method)) with
  | error error => rfl
  | ok colors => rfl

theorem allocate_ok
    (allocated : allocate budget method = .ok (some allocation)) :
    color budget method (.ofLiveness (analyze method)) = .ok allocation.colors ∧
      allocation.method =
        dropUnused (applySlots method allocation.colors) allocation.colors := by
  rcases Nat.eq_zero_or_pos budget with rfl | positive
  · cases allocated
  · rw [allocate_eq positive] at allocated
    cases colored : color budget method (.ofLiveness (analyze method)) with
    | error error =>
        rw [colored] at allocated
        cases allocated
    | ok colors =>
        rw [colored] at allocated
        cases allocated
        exact ⟨rfl, rfl⟩

/-- The slot of a variable after allocation. -/
def allocatedSlot
    (method : Method)
    (colors : Assignment)
    (name : String)
    (entry : Variable) :
    Nat :=
  match colors[name]? with
  | some color =>
      if entry.scope = .localVar then color + method.baseSlot else entry.slot
  | none => entry.slot

/-- A variable has a slot after allocation if it is in the table and stays there. -/
theorem slot?_eq_some_iff
    (allocated : allocate budget method = .ok (some allocation))
    {name : String}
    {slot : Nat} :
    allocation.method.slot? name = some slot ↔
      ∃ entry,
        method.table[name]? = some entry ∧ keeps allocation.colors name = true ∧
          allocatedSlot method allocation.colors name entry = slot := by
  rw [(allocate_ok allocated).2]
  unfold Method.slot? dropUnused applySlots
  simp only [Std.ExtTreeMap.getElem?_filter', Std.ExtTreeMap.getElem?_map]
  cases method.table[name]? with
  | none =>
      simp
  | some entry =>
      simp only [Option.map_some, Option.filter_some, allocatedSlot,
        Option.some.injEq, exists_eq_left']
      cases keeps allocation.colors name with
      | false =>
          simp
      | true =>
          cases allocation.colors[name]? with
          | none =>
              simp
          | some color =>
              by_cases isLocal : entry.scope = .localVar <;> simp [isLocal]

/-- A local that is a node of the graph gets the slot of a colour. -/
theorem allocatedSlot_of_local
    (allocated : allocate budget method = .ok (some allocation))
    {name : String}
    {entry : Variable}
    (isNode : (Graph.ofLiveness (analyze method)).contains name = true)
    (isEntry : method.table[name]? = some entry)
    (isLocal : entry.scope = .localVar) :
    ∃ color,
      allocation.colors[name]? = some color ∧
        allocatedSlot method allocation.colors name entry =
          color + method.baseSlot := by
  obtain ⟨_, complete⟩ :=
    color_ok (fun _ _ => Graph.interferes_ofLiveness_comm) (allocate_ok allocated).1
  have colored :=
    (complete name).mpr (mem_candidates.mpr ⟨isNode, entry, isEntry, isLocal⟩)
  obtain ⟨color, isColor⟩ := mem_iff_exists_getElem?.mp colored
  exact ⟨color, isColor, by simp [allocatedSlot, isColor, isLocal]⟩

/-- A variable that is not a local keeps its slot. -/
theorem allocatedSlot_of_not_local
    {colors : Assignment}
    {name : String}
    {entry : Variable}
    (notLocal : entry.scope ≠ .localVar) :
    allocatedSlot method colors name entry = entry.slot := by
  unfold allocatedSlot
  split
  · rw [if_neg notLocal]
  · rfl

/-- Interfering variables have different slots. -/
theorem slots_differ
    (anchored : Anchored method)
    (allocated : allocate budget method = .ok (some allocation))
    {first second : String}
    {firstSlot secondSlot : Nat}
    (interfere : (Graph.ofLiveness (analyze method)).interferes first second = true)
    (different : first ≠ second)
    (firstNode : (Graph.ofLiveness (analyze method)).contains first = true)
    (secondNode : (Graph.ofLiveness (analyze method)).contains second = true)
    (isFirst : allocation.method.slot? first = some firstSlot)
    (isSecond : allocation.method.slot? second = some secondSlot) :
    firstSlot ≠ secondSlot := by
  obtain ⟨firstEntry, firstIn, _, rfl⟩ := (slot?_eq_some_iff allocated).mp isFirst
  obtain ⟨secondEntry, secondIn, _, rfl⟩ :=
    (slot?_eq_some_iff allocated).mp isSecond
  -- Only locals are coloured; their slots start where those of the other variables
  -- end.
  by_cases firstLocal : firstEntry.scope = .localVar
  · obtain ⟨firstColor, isFirstColor, firstIs⟩ :=
      allocatedSlot_of_local allocated firstNode firstIn firstLocal
    by_cases secondLocal : secondEntry.scope = .localVar
    · obtain ⟨secondColor, isSecondColor, secondIs⟩ :=
        allocatedSlot_of_local allocated secondNode secondIn secondLocal
      have proper := (color_ok (fun _ _ => Graph.interferes_ofLiveness_comm)
        (allocate_ok allocated).1).1
      have colorsDiffer :=
        proper first second firstColor secondColor interfere different isFirstColor
          isSecondColor
      omega
    · have below := anchored.below secondIn secondLocal
      rw [allocatedSlot_of_not_local secondLocal]
      omega
  · rw [allocatedSlot_of_not_local firstLocal]
    by_cases secondLocal : secondEntry.scope = .localVar
    · obtain ⟨secondColor, _, secondIs⟩ :=
        allocatedSlot_of_local allocated secondNode secondIn secondLocal
      have below := anchored.below firstIn firstLocal
      omega
    · rw [allocatedSlot_of_not_local secondLocal]
      exact fun same =>
        different (anchored.apart firstIn secondIn firstLocal secondLocal same)

/--
A path along the flow of a method from an instruction on, as the
instructions it passes.
-/
inductive Path (method : Method) : Nat → List Instr → Prop where
  | last {index : Nat} {instr : Instr} :
      method.instrs[index]? = some instr → Path method index [instr]
  | step {index next : Nat} {instr : Instr} {rest : List Instr} :
      method.instrs[index]? = some instr →
      next ∈ method.flow.next index →
      Path method next rest →
      Path method index (instr :: rest)

theorem Path.head
    {index : Nat}
    {instr : Instr}
    {rest : List Instr}
    (path : Path method index (instr :: rest)) :
    method.instrs[index]? = some instr := by
  cases path with
  | last instrAt => exact instrAt
  | step instrAt _ _ => exact instrAt

theorem Path.exists_head
    {index : Nat}
    {instrs : List Instr}
    (path : Path method index instrs) :
    ∃ instr, method.instrs[index]? = some instr := by
  cases path with
  | last instrAt => exact ⟨_, instrAt⟩
  | step instrAt _ _ => exact ⟨_, instrAt⟩

/-- A path that does not end at its first instruction goes on at a successor. -/
theorem Path.tail
    {index : Nat}
    {instr : Instr}
    {rest : List Instr}
    (path : Path method index (instr :: rest))
    (goesOn : rest ≠ []) :
    ∃ next ∈ method.flow.next index, Path method next rest := by
  cases path with
  | last _ => exact absurd rfl goesOn
  | step _ follows path => exact ⟨_, follows, path⟩

theorem Path.drop
    {index : Nat}
    {before : List Instr}
    {instr : Instr}
    {rest : List Instr}
    (path : Path method index (before ++ instr :: rest)) :
    ∃ later, Path method later (instr :: rest) := by
  induction before generalizing index with
  | nil =>
      exact ⟨index, path⟩
  | cons first before inductionHypothesis =>
      rw [List.cons_append] at path
      obtain ⟨_, _, path⟩ := path.tail (by simp)
      exact inductionHypothesis path

/--
A variable that is read at the end of a path and not written before
is live at its start.
-/
theorem Path.live
    {index : Nat}
    {earlier : List Instr}
    {reader : Instr}
    {name : String}
    (path : Path method index (earlier ++ [reader]))
    (isRead : name ∈ reads method.table reader)
    (unwritten : ∀ instr ∈ earlier, writes? method.table instr ≠ some name) :
    ∃ live, (analyze method).rows[index]? = some live ∧ name ∈ live.before := by
  induction earlier generalizing index with
  | nil =>
      obtain ⟨live, liveAt⟩ := exists_liveAt path.head
      exact ⟨live, liveAt.row, (liveAt.before name).mpr (.inl isRead)⟩
  | cons first earlier inductionHypothesis =>
      obtain ⟨live, liveAt⟩ := exists_liveAt path.head
      rw [List.cons_append] at path
      obtain ⟨_, follows, path⟩ := path.tail (by simp)
      obtain ⟨next, nextRow, isLive⟩ :=
        inductionHypothesis path fun instr member =>
          unwritten instr (List.mem_cons_of_mem _ member)
      have isAfter := (liveAt.after name).mpr ⟨_, follows, next, nextRow, isLive⟩
      exact ⟨live, liveAt.row,
        (liveAt.before name).mpr
          (.inr ⟨isAfter, unwritten first List.mem_cons_self⟩)⟩

/-- Whether an instruction writes to a slot of a method. -/
def WritesSlot (method : Method) (slot : Nat) (instr : Instr) : Prop :=
  ∃ name, instr.destination? = some name ∧ method.slot? name = some slot

/-- A variable with a slot after allocation is in the table. -/
theorem mem_table_of_slot?
    (allocated : allocate budget method = .ok (some allocation))
    {name : String}
    {slot : Nat}
    (hasSlot : allocation.method.slot? name = some slot) :
    name ∈ method.table := by
  obtain ⟨entry, isEntry, _⟩ := (slot?_eq_some_iff allocated).mp hasSlot
  exact mem_iff_exists_getElem?.mpr ⟨entry, isEntry⟩

/-- A written variable with a slot after allocation is seen by the analysis. -/
theorem writes?_of_slot?
    (allocated : allocate budget method = .ok (some allocation))
    {instr : Instr}
    {name : String}
    {slot : Nat}
    (isWritten : instr.destination? = some name)
    (hasSlot : allocation.method.slot? name = some slot) :
    writes? method.table instr = some name := by
  rw [Code.writes?_eq, isWritten]
  simp [mem_table_of_slot? allocated hasSlot]

/-- A write leaves the slots of all other variables that are live after it. -/
theorem written_slot_differs
    (anchored : Anchored method)
    (allocated : allocate budget method = .ok (some allocation))
    {index : Nat}
    {instr : Instr}
    {live : Live}
    {written name : String}
    {writtenSlot slot : Nat}
    (instrAt : method.instrs[index]? = some instr)
    (liveAt : LiveAt method index instr live)
    (isWritten : instr.destination? = some written)
    (isLive : name ∈ live.after)
    (different : written ≠ name)
    (hasWrittenSlot : allocation.method.slot? written = some writtenSlot)
    (hasSlot : allocation.method.slot? name = some slot) :
    writtenSlot ≠ slot := by
  have seen := writes?_of_slot? allocated isWritten hasWrittenSlot
  exact slots_differ anchored allocated
    (liveAt.interferes instrAt seen isLive different)
    different (liveAt.contains instrAt (.inr (.inr seen)))
    (liveAt.contains instrAt (.inr (.inl isLive))) hasWrittenSlot hasSlot

/--
The last write to the slot of a variable before it is read is a
write to the variable.
-/
theorem last_writer_defines
    (anchored : Anchored method)
    (allocated : allocate budget method = .ok (some allocation))
    {index slot : Nat}
    {before between : List Instr}
    {writer reader : Instr}
    {name : String}
    (path : Path method index (before ++ writer :: (between ++ [reader])))
    (isRead : name ∈ reads method.table reader)
    (hasSlot : allocation.method.slot? name = some slot)
    (writes : WritesSlot allocation.method slot writer)
    (untouched : ∀ instr ∈ between, ¬WritesSlot allocation.method slot instr) :
    writer.destination? = some name := by
  obtain ⟨written, isWritten, hasWrittenSlot⟩ := writes
  obtain ⟨position, path⟩ := path.drop
  have writerAt := path.head
  obtain ⟨live, liveAt⟩ := exists_liveAt writerAt
  obtain ⟨_, follows, path⟩ := path.tail (by simp)
  -- A write to the variable is one to its slot, so the variable is live from the
  -- writer on.
  have unwritten : ∀ instr ∈ between, writes? method.table instr ≠ some name := by
    intro instr member isWrite
    rw [Code.writes?_eq, Option.filter_eq_some_iff] at isWrite
    exact untouched instr member ⟨name, isWrite.1, hasSlot⟩
  obtain ⟨next, nextRow, isLive⟩ := path.live isRead unwritten
  have isAfter := (liveAt.after name).mpr ⟨_, follows, next, nextRow, isLive⟩
  by_cases same : written = name
  · rw [isWritten, same]
  · exact absurd rfl
      (written_slot_differs anchored allocated writerAt liveAt isWritten isAfter
      same hasWrittenSlot hasSlot)

/-- A variable that was in the table before allocation is still there. -/
def Stays (method : Method) (allocation : Allocation) (name : String) : Prop :=
  name ∈ method.table → name ∈ allocation.method.table

/-- What an instruction uses or writes to is still in the table after allocation. -/
structure KeepsUsed
    (method : Method)
    (allocation : Allocation)
    (instr : Instr) : Prop where
  used :
    ∀ operand ∈ instr.used, ∀ name, operand.name? = some name →
    Stays method allocation name
  destination :
    ∀ name, instr.destination? = some name → Stays method allocation name

/-- Slots hold what the names of a set hold. -/
def Agree
    (method : Method)
    (names : NameSet)
    (store : Store String)
    (slots : Store Nat) : Prop :=
  ∀ name ∈ names, ∀ slot, method.slot? name = some slot → slots slot = store name

section

variable {Event : Type} {environment : Environment Event} {index : Nat}
  {instr : Instr} {live : Live} {store : Store String} {slots : Store Nat}

theorem exists_slot?
    {method : Method}
    {name : String}
    (member : name ∈ method.table) :
    ∃ slot, method.slot? name = some slot := by
  obtain ⟨entry, isEntry⟩ := mem_iff_exists_getElem?.mp member
  exact ⟨entry.slot, by rw [Method.slot?, isEntry]; rfl⟩

theorem slot?_eq_none
    (allocated : allocate budget method = .ok (some allocation))
    {name : String}
    (absent : name ∉ method.table) :
    allocation.method.slot? name = none := by
  cases hasSlot : allocation.method.slot? name with
  | none =>
      rfl
  | some slot =>
      exact absurd (mem_table_of_slot? allocated hasSlot) absent

/-- Operands hold the same in the slots as under their names. -/
theorem held_eq
    (allocated : allocate budget method = .ok (some allocation))
    (liveAt : LiveAt method index instr live)
    (agree : Agree allocation.method live.before store slots)
    {operand : Operand}
    (isUsed : operand ∈ operandsOf instr)
    (stays : ∀ name, operand.name? = some name → Stays method allocation name) :
    (Code.Setting.overTable environment method).held store operand =
      (Code.Setting.overSlots environment allocation.method).held slots
        operand := by
  cases operand with
  | literal value type =>
      rfl
  | var name type =>
      unfold Code.Setting.held Code.Setting.overTable Code.Setting.overSlots
      by_cases member : name ∈ method.table
      · have isRead : name ∈ reads method.table instr :=
          mem_reads.mpr ⟨member, _, isUsed, rfl⟩
        obtain ⟨slot, hasSlot⟩ := exists_slot? (stays name rfl member)
        have sameContent :=
          agree name ((liveAt.before name).mpr (.inl isRead)) slot hasSlot
        simp [member, hasSlot, sameContent]
      · simp [member, slot?_eq_none allocated member]

/-- Running an instruction keeps the agreement on live variables. -/
theorem exec_agree
    (anchored : Anchored method)
    (allocated : allocate budget method = .ok (some allocation))
    (instrAt : method.instrs[index]? = some instr)
    (kept : KeepsUsed method allocation instr)
    (liveAt : LiveAt method index instr live)
    (agree : Agree allocation.method live.before store slots) :
    Run.Related (Agree allocation.method live.after)
      ((Code.Setting.overTable environment method).exec store instr)
      ((Code.Setting.overSlots environment allocation.method).exec slots
        instr) := by
  have sameHeld :
      ∀ operand ∈ instr.used,
        (Code.Setting.overTable environment method).held store operand =
          (Code.Setting.overSlots environment allocation.method).held slots
            operand :=
    fun operand member =>
      held_eq allocated liveAt agree (instr.used_subset_operandsOf member)
        (kept.used operand member)
  have sameLocated :
      ∀ name, instr.destination? = some name →
        ((Code.Setting.overTable environment method).locate name).isSome =
          ((Code.Setting.overSlots environment allocation.method).locate
            name).isSome := by
    intro name isWritten
    unfold Code.Setting.overTable Code.Setting.overSlots
    by_cases member : name ∈ method.table
    · obtain ⟨slot, hasSlot⟩ :=
        exists_slot? (kept.destination name isWritten member)
      simp [member, hasSlot]
    · simp [member, slot?_eq_none allocated member]
  have sameEnvironment :
      (Code.Setting.overTable environment method).toEnvironment =
        (Code.Setting.overSlots environment allocation.method).toEnvironment :=
    rfl
  refine (Code.Setting.exec_related sameEnvironment sameHeld sameLocated).mono ?_
  intro storeAfter slotsAfter changed name isLive slot hasSlot
  -- A name that is live afterwards was live before, or the instruction has just
  -- written it.
  cases changed with
  | unchanged nothingWritten =>
      have unwritten : writes? method.table instr ≠ some name := by
        simp [Code.writes?_eq, nothingWritten]
      exact agree name ((liveAt.before name).mpr (.inr ⟨isLive, unwritten⟩))
        slot hasSlot
  | @written writtenName _ writtenSlot value isWritten atName atSlot =>
      obtain ⟨_, isPlace⟩ := Option.ite_none_right_eq_some.mp atName
      cases Option.some.inj isPlace
      by_cases same : writtenName = name
      · subst same
        have sameSlot : writtenSlot = slot :=
          Option.some.inj (atSlot.symm.trans hasSlot)
        rw [sameSlot, Function.update_self, Function.update_self]
      · have slotDiffers :=
          written_slot_differs anchored allocated instrAt liveAt isWritten isLive
            same atSlot hasSlot
        have unwritten : writes? method.table instr ≠ some name := by
          rw [Code.writes?_eq, isWritten]
          simp [same]
        rw [Function.update_of_ne (Ne.symm slotDiffers),
          Function.update_of_ne (Ne.symm same)]
        exact agree name ((liveAt.before name).mpr (.inr ⟨isLive, unwritten⟩))
          slot hasSlot

/--
Along every path a run over slots keeps what a run over names keeps,
up to its last instruction.
-/
theorem execAll_agree
    (anchored : Anchored method)
    (allocated : allocate budget method = .ok (some allocation))
    (kept : ∀ instr ∈ method.instrs, KeepsUsed method allocation instr)
    {earlier : List Instr}
    {reader : Instr}
    (path : Path method index (earlier ++ [reader]))
    (row : (analyze method).rows[index]? = some live)
    (agree : Agree allocation.method live.before store slots) :
    Run.Related
      (fun storeAfter slotsAfter =>
        ∃ position liveAfter,
          method.instrs[position]? = some reader ∧
            LiveAt method position reader liveAfter ∧
              Agree allocation.method liveAfter.before storeAfter slotsAfter)
      ((Code.Setting.overTable environment method).execAll store earlier)
      ((Code.Setting.overSlots environment allocation.method).execAll slots
        earlier) := by
  induction earlier generalizing index live store slots with
  | nil =>
      obtain ⟨_, liveAt⟩ := exists_liveAt path.head
      cases Option.some.inj (row.symm.trans liveAt.row)
      exact .pure ⟨index, live, path.head, liveAt, agree⟩
  | cons first earlier inductionHypothesis =>
      have firstAt := path.head
      obtain ⟨_, liveAt⟩ := exists_liveAt firstAt
      cases Option.some.inj (row.symm.trans liveAt.row)
      have firstKept := kept first (List.mem_of_getElem? firstAt)
      refine (exec_agree anchored allocated firstAt firstKept liveAt agree).bind ?_
      intro storeAfter slotsAfter agreeAfter
      rw [List.cons_append] at path
      obtain ⟨next, follows, path⟩ := path.tail (by simp)
      obtain ⟨head, headAt⟩ := path.exists_head
      obtain ⟨nextLive, nextLiveAt⟩ := exists_liveAt headAt
      -- What is live before the next instruction is live after this one.
      refine inductionHypothesis path nextLiveAt.row fun name isLive => ?_
      exact agreeAfter name
        ((liveAt.after name).mpr ⟨next, follows, nextLive, nextLiveAt.row, isLive⟩)

/-- Along every path a run over slots does what a run over names does. -/
theorem behaviour_agree
    (anchored : Anchored method)
    (allocated : allocate budget method = .ok (some allocation))
    (kept : ∀ instr ∈ method.instrs, KeepsUsed method allocation instr)
    {earlier : List Instr}
    {reader : Instr}
    (path : Path method index (earlier ++ [reader]))
    (row : (analyze method).rows[index]? = some live)
    (agree : Agree allocation.method live.before store slots) :
    (Code.Setting.overTable environment method).behaviour store
      (earlier ++ [reader]) =
      (Code.Setting.overSlots environment allocation.method).behaviour slots
        (earlier ++ [reader]) := by
  have whole :
      Run.Related (Agree allocation.method ∅)
        ((Code.Setting.overTable environment method).execAll store
          (earlier ++ [reader]))
        ((Code.Setting.overSlots environment allocation.method).execAll slots
          (earlier ++ [reader])) := by
    rw [Code.Setting.execAll_append, Code.Setting.execAll_append]
    refine (execAll_agree anchored allocated kept path row agree).bind ?_
    rintro storeAfter slotsAfter ⟨position, liveAfter, readerAt, liveAt, agreeAfter⟩
    have readerKept := kept reader (List.mem_of_getElem? readerAt)
    refine (exec_agree anchored allocated readerAt readerKept liveAt
      agreeAfter).bind ?_
    exact fun _ _ _ => .pure fun _ member =>
      absurd member Std.ExtTreeSet.not_mem_empty
  exact whole.behaviour .endOfBody

end

/-- What is in the table after allocation. -/
theorem mem_allocated_table
    (allocated : allocate budget method = .ok (some allocation))
    {name : String} :
    name ∈ allocation.method.table ↔
      name ∈ method.table ∧ keeps allocation.colors name = true := by
  rw [(allocate_ok allocated).2]
  unfold dropUnused applySlots
  simp [Std.ExtTreeMap.mem_filter]

/--
A variable that is read or written stays in the table, unless its name is that of
a temporary and it is no local.
-/
theorem accessed_stays_iff
    (allocated : allocate budget method = .ok (some allocation))
    {instr : Instr}
    {name : String}
    {entry : Variable}
    (member : instr ∈ method.instrs)
    (isUsed :
      name ∈ reads method.table instr ∨ writes? method.table instr = some name)
    (isEntry : method.table[name]? = some entry) :
    name ∈ allocation.method.table ↔
      entry.scope = .localVar ∨ Code.isTemporaryName name = false := by
  obtain ⟨index, instrAt⟩ := List.mem_iff_getElem?.mp member
  obtain ⟨live, liveAt⟩ := exists_liveAt instrAt
  have isNode : (Graph.ofLiveness (analyze method)).contains name = true :=
    liveAt.contains instrAt
      (isUsed.imp (fun isRead => (liveAt.before name).mpr (.inl isRead)) .inr)
  have inTable : name ∈ method.table :=
    mem_iff_exists_getElem?.mpr ⟨entry, isEntry⟩
  have colored : name ∈ allocation.colors ↔ entry.scope = .localVar := by
    rw [(color_ok (fun _ _ => Graph.interferes_ofLiveness_comm)
      (allocate_ok allocated).1).2, mem_candidates, isEntry]
    simp [isNode]
  rw [mem_allocated_table allocated, keeps]
  simp [inTable, colored, or_comm]

/-- The table has what is seen of an instruction. -/
theorem mem_table_of_accessed
    {instr : Instr}
    {name : String}
    (isUsed :
      name ∈ reads method.table instr ∨ writes? method.table instr = some name) :
    name ∈ method.table := by
  rcases isUsed with isRead | isWritten
  · exact (mem_reads.mp isRead).1
  · rw [Code.writes?_eq, Option.filter_eq_some_iff] at isWritten
    simpa using isWritten.2

/--
A local that is read or written keeps its place in the table, like
every name of no temporary.
-/
theorem accessed_stays
    (notTemporary :
      ∀ row ∈ method.table.toList, row.2.scope ≠ .localVar →
        Code.isTemporaryName row.1 = false)
    (allocated : allocate budget method = .ok (some allocation))
    {instr : Instr}
    {name : String}
    (member : instr ∈ method.instrs)
    (isUsed :
      name ∈ reads method.table instr ∨ writes? method.table instr = some name) :
    name ∈ allocation.method.table := by
  obtain ⟨entry, isEntry⟩ :=
    mem_iff_exists_getElem?.mp (mem_table_of_accessed isUsed)
  apply (accessed_stays_iff allocated member isUsed isEntry).mpr
  by_cases isLocal : entry.scope = .localVar
  · exact .inl isLocal
  · exact .inr
      (notTemporary _ (Std.ExtTreeMap.mem_toList_iff_getElem?_eq_some.mpr isEntry)
        isLocal)

/--
Allocated slots hold the values that are still needed. On every path from the
first instruction, the last write to the slot of a variable that is read is a
write to that variable, and without such a write the variable is live at the
first instruction. A run over slots reads the same values as a run over names,
and does the same.
-/
theorem allocated_slots_hold_values
    (anchored : Anchored method)
    (notTemporary :
      ∀ row ∈ method.table.toList, row.2.scope ≠ .localVar →
        Code.isTemporaryName row.1 = false)
    (allocated : allocate budget method = .ok (some allocation)) :
    (∀ (earlier : List Instr) (reader : Instr) (name : String),
      Path method 0 (earlier ++ [reader]) →
      name ∈ reads method.table reader →
      ∃ slot,
        allocation.method.slot? name = some slot ∧
          (∀ before writer between,
            earlier = before ++ writer :: between →
            WritesSlot allocation.method slot writer →
            (∀ instr ∈ between, ¬WritesSlot allocation.method slot instr) →
            writer.destination? = some name) ∧
            ((∀ instr ∈ earlier, ¬WritesSlot allocation.method slot instr) →
              ∃ live, (analyze method).rows[0]? = some live ∧ name ∈ live.before)) ∧
      ∀ (Event : Type) (environment : Environment Event) (earlier : List Instr)
        (reader : Instr) (live : Live) (store : Store String) (slots : Store Nat),
        Path method 0 (earlier ++ [reader]) →
        (analyze method).rows[0]? = some live →
        Agree allocation.method live.before store slots →
        Run.Related
            (fun storeAfter slotsAfter =>
              ∀ operand ∈ operandsOf reader,
                (Code.Setting.overTable environment method).held storeAfter
                  operand =
                  (Code.Setting.overSlots environment allocation.method).held
                    slotsAfter operand)
            ((Code.Setting.overTable environment method).execAll store earlier)
            ((Code.Setting.overSlots environment allocation.method).execAll slots
              earlier) ∧
          (Code.Setting.overTable environment method).behaviour store
            (earlier ++ [reader]) =
            (Code.Setting.overSlots environment allocation.method).behaviour slots
              (earlier ++ [reader]) := by
  have readStays {reader : Instr} (isInstr : reader ∈ method.instrs)
      {operand : Operand} (isRead : operand ∈ operandsOf reader)
      (name : String) (isName : operand.name? = some name) :
      Stays method allocation name :=
    fun member => accessed_stays notTemporary allocated isInstr
      (.inl (mem_reads.mpr ⟨member, operand, isRead, isName⟩))
  have kept : ∀ instr ∈ method.instrs, KeepsUsed method allocation instr := by
    refine fun instr isInstr =>
      ⟨fun _ isUsed => readStays isInstr (instr.used_subset_operandsOf isUsed), ?_⟩
    intro name isWritten member
    refine accessed_stays notTemporary allocated isInstr (.inr ?_)
    rw [Code.writes?_eq, isWritten]
    simp [member]
  constructor
  · intro earlier reader name path isRead
    obtain ⟨_, readerPath⟩ := path.drop
    have isInstr := List.mem_of_getElem? readerPath.head
    obtain ⟨slot, hasSlot⟩ :=
      exists_slot? (accessed_stays notTemporary allocated isInstr (.inl isRead))
    refine ⟨slot, hasSlot, ?_, ?_⟩
    · rintro before writer between rfl writes untouched
      rw [List.append_assoc, List.cons_append] at path
      exact last_writer_defines anchored allocated path isRead hasSlot writes
        untouched
    · intro untouched
      refine path.live isRead fun instr member isWritten =>
        untouched instr member ⟨name, ?_, hasSlot⟩
      rw [Code.writes?_eq, Option.filter_eq_some_iff] at isWritten
      exact isWritten.1
  · intro Event environment earlier reader live store slots path row agree
    refine ⟨(execAll_agree anchored allocated kept path row agree).mono ?_,
      behaviour_agree anchored allocated kept path row agree⟩
    rintro storeAfter slotsAfter ⟨position, liveAfter, readerAt, liveAt, agreeAfter⟩
      operand isUsed
    exact held_eq allocated liveAt agreeAfter isUsed
      (readStays (List.mem_of_getElem? readerAt) isUsed)

/-- A method with a loop, in which two locals take turns. -/
private def looping : Method where
  name := "loop"
  isStatic := true
  params := [.var "n" .int]
  returnType := .int
  instrs :=
    [.copy (.var "x" .int) (.var "n" .int),
      .store (.var "y" .int) (.binary .add (.var "x" .int) (.var "n" .int) .int),
      .store (.var "x" .int) (.binary .sub (.var "y" .int) (.int 1) .int),
      .ret .int (some (.var "x" .int))]
  flow := ⟨[[1], [2], [1, 3], []]⟩
  table :=
    ((((∅ : Code.VariableTable).insert "n" ⟨.int, .param, 0⟩).insert
      "x" ⟨.int, .localVar, 1⟩).insert
      "y" ⟨.int, .localVar, 2⟩)

/--
Two locals of a loop share one slot, and once around the loop the value that is
read there is the one that was last written to the variable that is read.
-/
theorem allocated_slots_hold_looping :
    ∃ allocation,
      allocate 1 looping = .ok (some allocation) ∧
        allocation.method.slot? "x" = some 1 ∧
          allocation.method.slot? "y" = some 1 ∧
            Path looping 0
              ([looping.instrs[0], looping.instrs[1], looping.instrs[2]] ++
                [looping.instrs[1]]) ∧
              ∀ before writer between,
                [looping.instrs[0], looping.instrs[1], looping.instrs[2]] =
                  before ++ writer :: between →
                WritesSlot allocation.method 1 writer →
                (∀ instr ∈ between, ¬WritesSlot allocation.method 1 instr) →
                writer.destination? = some "x" := by
  have slots :
      (allocate 1 looping).toOption.map
          (·.map fun allocation =>
            (allocation.method.slot? "x", allocation.method.slot? "y")) =
        some (some (some 1, some 1)) := by
    decide +kernel
  have intoLoop : 1 ∈ looping.flow.next 0 := by decide
  have onward : 2 ∈ looping.flow.next 1 := by decide
  have back : 1 ∈ looping.flow.next 2 := by decide
  have path :
      Path looping 0
        ([looping.instrs[0], looping.instrs[1], looping.instrs[2]] ++
          [looping.instrs[1]]) :=
    .step rfl intoLoop (.step rfl onward (.step rfl back (.last rfl)))
  obtain ⟨result, allocated, isSlots⟩ := exists_ok_of_map slots
  obtain ⟨allocation, rfl, bothSlots⟩ := Option.map_eq_some_iff.mp isSlots
  obtain ⟨isX, isY⟩ := Prod.mk.inj bothSlots
  obtain ⟨slot, hasSlot, lastWriter, _⟩ :=
    (allocated_slots_hold_values (by decide +kernel) (by decide +kernel)
      allocated).1 _ _ "x" path (by decide +kernel)
  cases Option.some.inj (hasSlot.symm.trans isX)
  exact ⟨allocation, allocated, isX, isY, path, lastWriter⟩

end MiniJava.Register
