import Mathlib.Data.List.Find
import MiniJava.Proofs.InterferenceRelation
import MiniJava.Proofs.SparseGraphs

namespace MiniJava.Register

/-!
# Allocation does not depend on earlier slots

The order in which locals are taken away and the colours that they get depend
only on which locals are nodes and on the edges between them. An edge between
two locals depends only on the instructions and the flow, as long as the table
has both of them. So other slots make no difference to the colours, and neither
do variables that have been dropped: no local that is a node is dropped.
-/

open Code (Instr Method Variable)

namespace Graph

/-- Two graphs have the same edges between some names. -/
def AgreeOn (names : List String) (first second : Graph) : Prop :=
  ∀ name ∈ names, ∀ other ∈ names, first.interferes name other =
    second.interferes name other

end Graph

section Colors

variable {budget : Nat} {names : List String} {firstGraph secondGraph : Graph}

/-- Graphs that agree give names the same degrees. -/
theorem degreeAmong_congr
    (agree : Graph.AgreeOn names firstGraph secondGraph)
    {remaining : List String}
    (within : remaining ⊆ names)
    {name : String}
    (member : name ∈ names) :
    degreeAmong firstGraph remaining name =
      degreeAmong secondGraph remaining name := by
  rw [degreeAmong_eq, degreeAmong_eq, neighborsIn, neighborsIn]
  refine congrArg Finset.card (Finset.filter_congr fun other isOther => ?_)
  rw [agree name member other (within (List.mem_toFinset.mp isOther))]

/-- Graphs that agree lead to the same picks. -/
theorem pick?_congr
    (agree : Graph.AgreeOn names firstGraph secondGraph)
    {remaining : List String}
    (within : remaining ⊆ names) :
    pick? budget firstGraph remaining = pick? budget secondGraph remaining := by
  have sameFound :
      (remaining.find? fun name => degreeAmong firstGraph remaining name < budget) =
        remaining.find? fun name => degreeAmong secondGraph remaining name <
          budget :=
    List.find?_congr fun name member => by
      rw [degreeAmong_congr agree within (within member)]
  rw [pick?, pick?, sameFound]

/--
Names are taken away in the same order where the edges between them are the same.
-/
theorem takeAway_congr
    (agree : Graph.AgreeOn names firstGraph secondGraph)
    {remaining : List String}
    (within : remaining ⊆ names)
    (count : Nat) :
    takeAway budget firstGraph count remaining =
      takeAway budget secondGraph count remaining := by
  induction count generalizing remaining with
  | zero =>
      rfl
  | succ count inductionHypothesis =>
      rw [takeAway, takeAway, pick?_congr agree within]
      cases pick? budget secondGraph remaining with
      | none =>
          rfl
      | some pick =>
          have fewer : remaining.erase pick.name ⊆ names :=
            List.Subset.trans List.erase_subset within
          simp only [inductionHypothesis fewer]

/-- The least number outside depends on what is inside only. -/
theorem leastOutside_congr
    {first second : List Nat}
    (same : ∀ number, number ∈ first ↔ number ∈ second) :
    leastOutside first = leastOutside second := by
  have notLess {first second : List Nat}
      (within : ∀ number ∈ second, number ∈ first) :
      ¬leastOutside first < leastOutside second :=
    fun less => leastOutside_not_mem first (within _ (mem_of_lt_leastOutside less))
  have firstNotLess := notLess fun number => (same number).mpr
  have secondNotLess := notLess fun number => (same number).mp
  omega

/--
The lowest free colour of a name depends on its edges to names with colours only.
-/
theorem freeColor_congr
    (agree : Graph.AgreeOn names firstGraph secondGraph)
    {colors : Assignment}
    (colored : ∀ name ∈ colors, name ∈ names)
    {name : String}
    (member : name ∈ names) :
    freeColor firstGraph colors name = freeColor secondGraph colors name := by
  refine leastOutside_congr fun number => ?_
  rw [mem_neighborColors, mem_neighborColors]
  refine exists_congr fun neighbor => and_congr_left fun isColor => ?_
  have isNeighbor :=
    colored neighbor (mem_iff_exists_getElem?.mpr ⟨number, isColor⟩)
  rw [agree name member neighbor isNeighbor]

/-- Names get the same colours where the edges between them are the same. -/
theorem select_congr
    (agree : Graph.AgreeOn names firstGraph secondGraph)
    {colors : Assignment}
    (colored : ∀ name ∈ colors, name ∈ names)
    {order : List String}
    (within : order ⊆ names) :
    select budget firstGraph colors order =
      select budget secondGraph colors order := by
  induction order generalizing colors with
  | nil =>
      rfl
  | cons name rest inductionHypothesis =>
      rw [List.cons_subset] at within
      have sameColor :
          freeColor firstGraph colors name = freeColor secondGraph colors name :=
        freeColor_congr agree colored within.1
      have coloredAfter :
          ∀ other ∈ colors.insert name (freeColor secondGraph colors name),
            other ∈ names := by
        intro other isColored
        rw [Std.ExtTreeMap.mem_insert, Std.LawfulEqCmp.compare_eq_iff_eq]
          at isColored
        rcases isColored with rfl | before
        · exact within.1
        · exact colored other before
      unfold freeColor at sameColor coloredAfter
      simp only [select, sameColor, inductionHypothesis coloredAfter within.2]

/--
A colouring depends on the locals that are nodes and the edges between them only.
-/
theorem color_congr
    {first second : Method}
    (sameName : first.name = second.name)
    (sameCandidates : candidates first firstGraph = candidates second secondGraph)
    (agree : Graph.AgreeOn (candidates first firstGraph) firstGraph secondGraph) :
    color budget first firstGraph = color budget second secondGraph := by
  have sameOrder :
      simplify budget first firstGraph = simplify budget second secondGraph := by
    rw [simplify, simplify, ← sameCandidates]
    exact takeAway_congr agree (List.Subset.refl _) _
  have within :
      coloringOrder budget first firstGraph ⊆ candidates first firstGraph :=
    coloringOrder_perm.subset
  have sameSelection :
      selection budget first firstGraph = selection budget second secondGraph := by
    rw [selection, selection, ← sameOrder]
    exact select_congr agree (by simp) within
  rw [color, color, sameSelection, sameName]

end Colors

section Code

variable {first second : Method} {index : Nat} {name : String}

/-- Two methods have the same name, instructions and flow. -/
structure SameCode (first second : Method) : Prop where
  name : first.name = second.name
  instrs : first.instrs = second.instrs
  flow : first.flow = second.flow

theorem SameCode.symm
    (same : SameCode first second) :
    SameCode second first :=
  ⟨same.name.symm, same.instrs.symm, same.flow.symm⟩

/-- Methods with the same code have the same paths. -/
theorem SameCode.path
    (same : SameCode first second)
    {instrs : List Instr}
    (path : Path first index instrs) :
    Path second index instrs := by
  induction path with
  | last instrAt =>
      exact .last (same.instrs ▸ instrAt)
  | step instrAt follows _ inductionHypothesis =>
      exact .step (same.instrs ▸ instrAt) (same.flow ▸ follows) inductionHypothesis

/-- What the code needs of a variable is the same in all tables that have it. -/
theorem SameCode.needed_iff
    (same : SameCode first second)
    (bothHave : name ∈ first.table ↔ name ∈ second.table) :
    Needed first index name ↔ Needed second index name := by
  refine and_congr bothHave
    (exists_congr fun earlier => exists_congr fun reader => ?_)
  exact and_congr_left fun _ => ⟨same.path, same.symm.path⟩

/-- Methods with the same code write the same names where both have them. -/
theorem SameCode.writesAt_iff
    (same : SameCode first second)
    (bothHave : name ∈ first.table ↔ name ∈ second.table) :
    WritesAt first index name ↔ WritesAt second index name := by
  rw [WritesAt, WritesAt, same.instrs]
  refine exists_congr fun instr => and_congr_right fun _ => ?_
  simp only [Code.writes?_eq, Option.filter_eq_some_iff, decide_eq_true_eq,
    bothHave]

/-- Methods with the same code have the same live names behind a write. -/
theorem SameCode.liveAfter_iff
    (same : SameCode first second)
    (bothHave : name ∈ first.table ↔ name ∈ second.table)
    {other : String}
    (written : WritesAt first index other) :
    LiveAfter first index name ↔ LiveAfter second index name := by
  obtain ⟨instr, instrAt, _⟩ := written
  rw [liveAfter_iff_needed instrAt, liveAfter_iff_needed (same.instrs ▸ instrAt),
    same.flow]
  exact exists_congr fun successor => and_congr_right fun _ =>
    same.needed_iff bothHave

/-- The edge between two variables is the same for all tables that have them. -/
theorem SameCode.interferes_eq
    (same : SameCode first second)
    {other : String}
    (bothHave : name ∈ first.table ↔ name ∈ second.table)
    (bothHaveOther : other ∈ first.table ↔ other ∈ second.table) :
    (Graph.ofLiveness (analyze first)).interferes name other =
      (Graph.ofLiveness (analyze second)).interferes name other := by
  rw [Bool.eq_iff_iff, interferes_analyze, interferes_analyze]
  refine and_congr_right fun _ => exists_congr fun index => or_congr ?_ ?_
  · rw [← same.writesAt_iff bothHave]
    exact and_congr_right fun written => same.liveAfter_iff bothHaveOther written
  · rw [← same.writesAt_iff bothHaveOther]
    exact and_congr_right fun written => same.liveAfter_iff bothHave written

/-- The locals to colour are those that instructions read or write. -/
theorem mem_candidates_iff_mentions :
    name ∈ candidates first (.ofLiveness (analyze first)) ↔
      IsLocal first name ∧ ∃ instr ∈ first.instrs, Mentions instr name := by
  rw [mem_candidates, contains_iff_mentions]
  constructor
  · rintro ⟨⟨_, mentioned⟩, isLocal⟩
    exact ⟨isLocal, mentioned⟩
  · rintro ⟨isLocal, mentioned⟩
    exact ⟨⟨isLocal.mem_table, mentioned⟩, isLocal⟩

/-- Candidates are in the order of their names. -/
theorem ordered_candidates
    (method : Method)
    (graph : Graph) :
    (candidates method graph).Pairwise fun first second =>
      compare first second = .lt :=
  Std.ExtTreeMap.ordered_keys.filter _

/-- Candidates are listed in the order of their names. -/
theorem candidates_eq
    {firstGraph secondGraph : Graph}
    (same :
      ∀ name, name ∈ candidates first firstGraph ↔
        name ∈ candidates second secondGraph) :
    candidates first firstGraph = candidates second secondGraph := by
  have reordered :
      (candidates first firstGraph).Perm (candidates second secondGraph) :=
    (List.perm_ext_iff_of_nodup (nodup_candidates _ _) (nodup_candidates _ _)).mpr
      same
  refine reordered.eq_of_pairwise ?_ (ordered_candidates _ _)
    (ordered_candidates _ _)
  intro name other _ _ less greater
  exact absurd greater (Std.OrientedCmp.not_lt_of_lt less)

/--
Methods with the same code get the same colours if they have the same locals there.
-/
theorem SameCode.color_eq
    (same : SameCode first second)
    (sameLocals :
      ∀ instr ∈ first.instrs, ∀ name, Mentions instr name →
        (IsLocal first name ↔ IsLocal second name))
    (budget : Nat) :
    color budget first (.ofLiveness (analyze first)) =
      color budget second (.ofLiveness (analyze second)) := by
  have sameCandidates :
      ∀ name,
        name ∈ candidates first (.ofLiveness (analyze first)) ↔
          name ∈ candidates second (.ofLiveness (analyze second)) := by
    intro name
    rw [mem_candidates_iff_mentions, mem_candidates_iff_mentions, ← same.instrs]
    refine and_congr_left fun mentioned => ?_
    obtain ⟨instr, isInstr, isMentioned⟩ := mentioned
    exact sameLocals instr isInstr name isMentioned
  have bothHave :
      ∀ name ∈ candidates first (.ofLiveness (analyze first)),
        (name ∈ first.table ↔ name ∈ second.table) := by
    intro name member
    have inFirst := (mem_candidates_iff_mentions.mp member).1.mem_table
    have inSecond :=
      (mem_candidates_iff_mentions.mp ((sameCandidates name).mp member)).1.mem_table
    exact iff_of_true inFirst inSecond
  refine color_congr same.name (candidates_eq sameCandidates) ?_
  intro name member other otherMember
  exact same.interferes_eq (bothHave name member) (bothHave other otherMember)

end Code

/--
The entry of a variable after allocation: none for a temporary without a colour.
-/
def allocatedVariable?
    (method : Method)
    (colors : Assignment)
    (name : String)
    (entry : Variable) :
    Option Variable :=
  match colors[name]? with
  | some color =>
      if entry.scope = .localVar then
        some { entry with slot := color + method.baseSlot }
      else
        some entry
  | none => if Code.isTemporaryName name then none else some entry

/-- The method with other slots for its locals. -/
def withLocalSlots (slots : String → Nat) (method : Method) : Method :=
  { method with
    table := method.table.map fun name entry =>
      if entry.scope = .localVar then { entry with slot := slots name } else entry }

section Tables

variable {method : Method} {budget : Nat} {allocation : Allocation}
  {colors : Assignment} {name : String} {entry allocated : Variable}

/-- The table after allocation has the entries that are kept, with their slots. -/
theorem getElem?_allocated_table :
    (dropUnused (applySlots method colors) colors).table[name]? =
      method.table[name]?.bind (allocatedVariable? method colors name) := by
  unfold dropUnused applySlots
  rw [Std.ExtTreeMap.getElem?_filter', Std.ExtTreeMap.getElem?_map]
  cases method.table[name]? with
  | none =>
      rfl
  | some entry =>
      simp only [Option.map_some, Option.filter_some, Option.bind_some,
        allocatedVariable?, keeps, Std.ExtTreeMap.mem_iff_isSome_getElem?]
      cases colors[name]? with
      | none =>
          cases Code.isTemporaryName name <;> rfl
      | some color =>
          by_cases isLocal : entry.scope = .localVar <;> simp [isLocal]

/-- Allocation keeps the scopes of variables. -/
theorem scope_allocatedVariable?
    (isAllocated : allocatedVariable? method colors name entry = some allocated) :
    allocated.scope = entry.scope := by
  unfold allocatedVariable? at isAllocated
  split at isAllocated <;> split at isAllocated <;> cases isAllocated <;> rfl

/-- Colours that have been applied to an entry do not change it again. -/
theorem allocatedVariable?_idempotent
    (isAllocated : allocatedVariable? method colors name entry = some allocated) :
    allocatedVariable? method colors name allocated = some allocated := by
  unfold allocatedVariable? at isAllocated ⊢
  cases isColor : colors[name]? with
  | none =>
      rw [isColor] at isAllocated
      by_cases isTemporary : Code.isTemporaryName name = true
      · simp [isTemporary] at isAllocated
      · simp [isTemporary]
  | some color =>
      rw [isColor] at isAllocated
      by_cases isLocal : entry.scope = .localVar
      · simp only [isLocal, if_true, Option.some.injEq] at isAllocated
        simp [← isAllocated]
      · simp only [isLocal, if_false, Option.some.injEq] at isAllocated
        simp [← isAllocated, isLocal]

/-- Other slots leave the locals as they are. -/
theorem isLocal_withLocalSlots
    {slots : String → Nat} :
    IsLocal (withLocalSlots slots method) name ↔ IsLocal method name := by
  unfold IsLocal withLocalSlots
  rw [Std.ExtTreeMap.getElem?_map]
  cases method.table[name]? with
  | none =>
      simp
  | some entry =>
      by_cases isLocal : entry.scope = .localVar <;> simp [isLocal]

/-- Allocation keeps the locals that instructions read or write. -/
theorem isLocal_allocated_iff
    (isAllocation : allocate budget method = .ok (some allocation))
    {instr : Instr}
    (isInstr : instr ∈ method.instrs)
    (mentioned : Mentions instr name) :
    IsLocal method name ↔ IsLocal allocation.method name := by
  obtain ⟨isColoring, isMethod⟩ := allocate_ok isAllocation
  rw [isMethod]
  unfold IsLocal
  rw [getElem?_allocated_table]
  constructor
  · rintro ⟨entry, isEntry, isLocal⟩
    have isCandidate := mem_candidates_iff_mentions.mpr
      ⟨⟨entry, isEntry, isLocal⟩, instr, isInstr, mentioned⟩
    obtain ⟨_, complete⟩ :=
      color_ok (fun _ _ => Graph.interferes_ofLiveness_comm) isColoring
    obtain ⟨color, isColor⟩ :=
      mem_iff_exists_getElem?.mp ((complete name).mpr isCandidate)
    refine ⟨{ entry with slot := color + method.baseSlot }, ?_, isLocal⟩
    simp [isEntry, allocatedVariable?, isColor, isLocal]
  · rintro ⟨allocated, isAllocated, isLocal⟩
    obtain ⟨entry, isEntry, fromEntry⟩ := Option.bind_eq_some_iff.mp isAllocated
    exact ⟨entry, isEntry, scope_allocatedVariable? fromEntry ▸ isLocal⟩

end Tables

/-- Slots and drops are the same the second time. -/
theorem dropUnused_applySlots_idempotent
    (method : Method)
    (colors : Assignment) :
    dropUnused (applySlots (dropUnused (applySlots method colors) colors) colors)
      colors =
      dropUnused (applySlots method colors) colors := by
  have sameTable :
      (dropUnused (applySlots (dropUnused (applySlots method colors) colors) colors)
          colors).table =
        (dropUnused (applySlots method colors) colors).table := by
    refine Std.ExtTreeMap.ext_getElem? fun name => ?_
    rw [getElem?_allocated_table]
    cases isEntry : (dropUnused (applySlots method colors) colors).table[name]? with
    | none =>
        rfl
    | some allocated =>
        rw [getElem?_allocated_table] at isEntry
        obtain ⟨entry, _, fromEntry⟩ := Option.bind_eq_some_iff.mp isEntry
        exact allocatedVariable?_idempotent fromEntry
  exact congrArg (fun table => { method with table := table }) sameTable

/-- Allocation changes the table only. -/
theorem sameCode_allocated
    {budget : Nat}
    {method : Method}
    {allocation : Allocation}
    (isAllocation : allocate budget method = .ok (some allocation)) :
    SameCode method allocation.method := by
  rw [(allocate_ok isAllocation).2]
  exact ⟨rfl, rfl, rfl⟩

/-- What is allocated is allocated again in the same way. -/
theorem allocate_allocated
    {budget : Nat}
    {method : Method}
    {allocation : Allocation}
    (isAllocation : allocate budget method = .ok (some allocation)) :
    allocate budget allocation.method = .ok (some allocation) := by
  have positive : 0 < budget := by
    refine Nat.pos_of_ne_zero fun isZero => ?_
    subst isZero
    cases isAllocation
  obtain ⟨isColoring, isMethod⟩ := allocate_ok isAllocation
  have sameColors := (sameCode_allocated isAllocation).color_eq
    (fun _ isInstr _ => isLocal_allocated_iff isAllocation isInstr) budget
  have again :
      dropUnused (applySlots allocation.method allocation.colors)
        allocation.colors =
        allocation.method := by
    rw [isMethod]
    exact dropUnused_applySlots_idempotent method allocation.colors
  rw [allocate_eq positive, ← sameColors, isColoring, Except.map, again]

/--
The colours of a method, or its error, do not depend on the slots of its locals.
-/
theorem colors_withLocalSlots
    (budget : Nat)
    (slots : String → Nat)
    (method : Method) :
    (allocate budget (withLocalSlots slots method)).map
      (Option.map Allocation.colors) =
      (allocate budget method).map (Option.map Allocation.colors) := by
  have same : SameCode (withLocalSlots slots method) method := ⟨rfl, rfl, rfl⟩
  have sameColors := same.color_eq (fun _ _ _ _ => isLocal_withLocalSlots) budget
  rcases Nat.eq_zero_or_pos budget with rfl | positive
  · rfl
  · rw [allocate_eq positive, allocate_eq positive, sameColors]
    cases color budget method (.ofLiveness (analyze method)) with
    | error error => rfl
    | ok colors => rfl

/--
Allocation only moves coloured locals and drops temporaries without a colour. The
result is allocated as it is, and the slots that locals had before make no
difference to the colours.
-/
theorem allocate_idempotent
    (budget : Nat)
    (method : Method) :
    (∀ allocation,
      allocate budget method = .ok (some allocation) →
        allocation.method = { method with table := allocation.method.table } ∧
          (∀ name : String,
            allocation.method.table[name]? =
              method.table[name]?.bind
                (allocatedVariable? method allocation.colors name)) ∧
          allocate budget allocation.method = .ok (some allocation)) ∧
      ∀ slots,
        (allocate budget (withLocalSlots slots method)).map
          (Option.map Allocation.colors) =
          (allocate budget method).map (Option.map Allocation.colors) := by
  refine ⟨fun allocation isAllocation => ⟨?_, fun name => ?_, ?_⟩, fun slots => ?_⟩
  · rw [(allocate_ok isAllocation).2]
    rfl
  · rw [(allocate_ok isAllocation).2]
    exact getElem?_allocated_table
  · exact allocate_allocated isAllocation
  · exact colors_withLocalSlots budget slots method

/-- A method with a loop, where a parameter has the name of a temporary. -/
private def spinning : Method where
  name := "spin"
  isStatic := true
  params := [.var "tmp7" .int]
  returnType := .int
  instrs :=
    [.copy (.var "x" .int) (.var "tmp7" .int),
      .store (.var "y" .int) (.binary .add (.var "x" .int) (.var "tmp7" .int) .int),
      .store (.var "x" .int) (.binary .sub (.var "y" .int) (.var "x" .int) .int),
      .ret .int (some (.var "x" .int))]
  flow := ⟨[[1], [2], [1, 3], []]⟩
  table :=
    ((((∅ : Code.VariableTable).insert "tmp7" ⟨.int, .param, 0⟩).insert
      "x" ⟨.int, .localVar, 5⟩).insert "y" ⟨.int, .localVar, 5⟩).insert
      "tmp1" ⟨.int, .localVar, 8⟩

/--
The two locals of the loop get slots of their own. The unused temporary is
dropped, and so is the parameter, which instructions still read; the second
allocation gives the same nonetheless.
-/
theorem allocate_idempotent_spinning :
    ∃ allocation,
      allocate 2 spinning = .ok (some allocation) ∧
        allocation.method.table["x"]? = some ⟨.int, .localVar, 2⟩ ∧
          allocation.method.table["y"]? = some ⟨.int, .localVar, 1⟩ ∧
            allocation.method.table["tmp1"]? = none ∧
              allocation.method.table["tmp7"]? = none ∧
                allocate 2 allocation.method = .ok (some allocation) ∧
                  (allocate 2 (withLocalSlots (fun _ => 9) spinning)).map
                      (Option.map Allocation.colors) =
                    .ok (some allocation.colors) := by
  have computed :
      (allocate 2 spinning).toOption.map
          (·.map fun allocation =>
            (allocation.colors["x"]?, allocation.colors["y"]?,
              allocation.colors["tmp1"]?, allocation.colors["tmp7"]?)) =
        some (some (some 1, some 0, none, none)) := by
    decide
  have before :
      (spinning.table["x"]?, spinning.table["y"]?) =
        (some ⟨.int, .localVar, 5⟩, some ⟨.int, .localVar, 5⟩) := by
    decide
  obtain ⟨result, isAllocation, isComputed⟩ := exists_ok_of_map computed
  obtain ⟨allocation, rfl, isColors⟩ := Option.map_eq_some_iff.mp isComputed
  simp only [Prod.mk.injEq] at isColors before
  obtain ⟨xColor, yColor, unusedColor, paramColor⟩ := isColors
  obtain ⟨idempotent, anySlots⟩ := allocate_idempotent 2 spinning
  obtain ⟨_, entries, again⟩ := idempotent allocation isAllocation
  have dropped {name : String}
      (isTemporary : Code.isTemporaryName name = true)
      (noColor : allocation.colors[name]? = none) :
      allocation.method.table[name]? = none := by
    rw [entries]
    cases spinning.table[name]? with
    | none => rfl
    | some entry => simp [allocatedVariable?, isTemporary, noColor]
  refine ⟨allocation, isAllocation, ?_, ?_, dropped (by decide) unusedColor,
    dropped (by decide) paramColor, again, ?_⟩
  · rw [entries, before.1, Option.bind_some, allocatedVariable?, xColor]
    rfl
  · rw [entries, before.2, Option.bind_some, allocatedVariable?, yColor]
    rfl
  · rw [anySlots, isAllocation]
    rfl

end MiniJava.Register
