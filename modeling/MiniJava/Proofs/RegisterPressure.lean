import Mathlib.Data.Finset.Max
import MiniJava.Proofs.SlotAllocation
import MiniJava.Proofs.SparseGraphs

namespace MiniJava.Register

/-!
# Register pressure of a straight line

In a straight line that assigns each local at most once, with none live at its
start, a local is live from its assignment to its last read. So of any locals,
the one that is assigned last interferes only with those that are live after its
assignment. In turn, all locals that are live after an assignment interfere with
each other. Allocation succeeds just if at each assignment they are no more than
the budget.
-/

open Code (Method)

variable {method : Method} {budget : Nat} {index : Nat} {name : String}

instance (method : Method) (name : String) : Decidable (IsLocal method name) :=
  decidable_of_iff
    (method.table[name]?.any fun entry => decide (entry.scope = .localVar)) (by
    simp [IsLocal, Option.any_eq_true])

/--
A straight line of single assignments to locals that are not live at the start.
-/
structure SingleLine (method : Method) : Prop where
  straight : method.flow = .straight method.instrs
  returnsLast :
    ∀ index instr,
      method.instrs[index]? = some instr → instr.isReturn = true →
        index + 1 = method.instrs.length
  assignedOnce :
    ∀ name, IsLocal method name →
      method.instrs.countP (fun instr => writes? method.table instr = some name) ≤ 1
  entry : ∀ name, IsLocal method name → ¬LiveBefore method 0 name

/--
The locals that need registers after the assignment of one: it and
those live afterwards.
-/
def heldAfter (method : Method) (assigned : String) (live : Live) : Finset String :=
  insert assigned
    (live.after.toList.toFinset.filter fun name => IsLocal method name)

/-- At each assignment to a local, no more locals need registers than there are. -/
def FitsBudget (budget : Nat) (method : Method) : Prop :=
  ∀ (index : Nat) instr live assigned,
    method.instrs[index]? = some instr →
    (analyze method).rows[index]? = some live →
    writes? method.table instr = some assigned →
    IsLocal method assigned →
    (heldAfter method assigned live).card ≤ budget

/-- What is held after a write is the written name and the live locals. -/
theorem mem_heldAfter
    {assigned : String}
    {live : Live} :
    name ∈ heldAfter method assigned live ↔
      name = assigned ∨ (name ∈ live.after ∧ IsLocal method name) := by
  simp [heldAfter, Std.ExtTreeSet.mem_toList]

/-- An instruction writes to one name only. -/
theorem WritesAt.eq
    {other : String}
    (written : WritesAt method index name)
    (alsoWritten : WritesAt method index other) :
    name = other := by
  obtain ⟨instr, instrAt, isWritten⟩ := written
  obtain ⟨found, foundAt, isFound⟩ := alsoWritten
  cases Option.some.inj (instrAt.symm.trans foundAt)
  exact Option.some.inj (isWritten.symm.trans isFound)

/-- What is live after an instruction and not written by it is live before. -/
theorem LiveAfter.liveBefore
    (isLive : LiveAfter method index name)
    (unwritten : ¬WritesAt method index name) :
    LiveBefore method index name := by
  obtain ⟨live, isRow, isAfter⟩ := isLive
  obtain ⟨instr, instrAt, liveAt⟩ := exists_liveAt_of_row isRow
  refine ⟨live, isRow,
    (liveAt.before name).mpr (.inr ⟨isAfter, fun isWritten => ?_⟩)⟩
  exact unwritten ⟨instr, instrAt, isWritten⟩

namespace SingleLine

/-- What is live after an instruction is what is live before the next. -/
theorem liveAfter_iff
    (line : SingleLine method) :
    LiveAfter method index name ↔ LiveBefore method (index + 1) name := by
  constructor
  · rintro ⟨live, isRow, isAfter⟩
    obtain ⟨instr, instrAt, liveAt⟩ := exists_liveAt_of_row isRow
    obtain ⟨successor, follows, next, nextRow, isBefore⟩ :=
      (liveAt.after name).mp isAfter
    rw [line.straight, Code.Flow.mem_next_straight] at follows
    rw [follows.1] at nextRow
    exact ⟨next, nextRow, isBefore⟩
  · rintro ⟨next, nextRow, isBefore⟩
    obtain ⟨nextInstr, nextAt, _⟩ := exists_liveAt_of_row nextRow
    have inside := (List.getElem?_eq_some_iff.mp nextAt).1
    have instrAt := List.getElem?_eq_getElem (Nat.lt_of_succ_lt inside)
    obtain ⟨live, liveAt⟩ := exists_liveAt instrAt
    have goesOn : method.instrs[index].isReturn = false := by
      cases isReturn : method.instrs[index].isReturn with
      | false => rfl
      | true =>
          exact absurd (line.returnsLast index _ instrAt isReturn)
            (Nat.ne_of_lt inside)
    have follows : index + 1 ∈ method.flow.next index := by
      rw [line.straight]
      exact Code.Flow.mem_next_straight.mpr ⟨rfl, inside, _, instrAt, goesOn⟩
    exact ⟨live, liveAt.row,
      (liveAt.after name).mpr ⟨_, follows, next, nextRow, isBefore⟩⟩

/-- In code of a single line, a local is written by one instruction. -/
theorem index_eq
    (line : SingleLine method)
    (isLocal : IsLocal method name)
    {first second : Nat}
    (firstWritten : WritesAt method first name)
    (secondWritten : WritesAt method second name) :
    first = second := by
  obtain ⟨firstInstr, firstAt, isFirst⟩ := firstWritten
  obtain ⟨secondInstr, secondAt, isSecond⟩ := secondWritten
  exact eq_of_countP_le_one (line.assignedOnce name isLocal) firstAt secondAt
    (decide_eq_true isFirst) (decide_eq_true isSecond)

/-- A local that is live before an instruction was assigned earlier. -/
theorem written_of_liveBefore
    (line : SingleLine method)
    (isLocal : IsLocal method name)
    (isLive : LiveBefore method index name) :
    ∃ earlier < index, WritesAt method earlier name := by
  induction index with
  | zero =>
      exact absurd isLive (line.entry name isLocal)
  | succ index inductionHypothesis =>
      have isAfter := line.liveAfter_iff.mpr isLive
      by_cases written : WritesAt method index name
      · exact ⟨index, Nat.lt_succ_self index, written⟩
      · obtain ⟨earlier, isEarlier, written⟩ :=
          inductionHypothesis (isAfter.liveBefore written)
        exact ⟨earlier, Nat.lt_succ_of_lt isEarlier, written⟩

/-- In code of a single line, a local that is live was written before. -/
theorem written_of_liveAfter
    (line : SingleLine method)
    (isLocal : IsLocal method name)
    (isLive : LiveAfter method index name) :
    ∃ earlier ≤ index, WritesAt method earlier name := by
  obtain ⟨earlier, isEarlier, written⟩ :=
    line.written_of_liveBefore isLocal (line.liveAfter_iff.mp isLive)
  exact ⟨earlier, Nat.le_of_lt_succ isEarlier, written⟩

/-- The locals of the graph are assigned. -/
theorem written_of_localNode
    (line : SingleLine method)
    (isNode : LocalNode method (.ofLiveness (analyze method)) name) :
    ∃ index, WritesAt method index name := by
  obtain ⟨contained, isLocal⟩ := isNode
  obtain ⟨index, isBefore | isAfter | written⟩ := contains_analyze.mp contained
  · obtain ⟨earlier, _, written⟩ := line.written_of_liveBefore isLocal isBefore
    exact ⟨earlier, written⟩
  · obtain ⟨earlier, _, written⟩ := line.written_of_liveAfter isLocal isAfter
    exact ⟨earlier, written⟩
  · exact ⟨index, written⟩

/-- A local is live all the way from its assignment to where it is live. -/
theorem liveAfter_between
    (line : SingleLine method)
    (isLocal : IsLocal method name)
    {start middle : Nat}
    (written : WritesAt method start name)
    (isLater : start ≤ middle)
    (isBetween : middle ≤ index)
    (isLive : LiveAfter method index name) :
    LiveAfter method middle name := by
  induction index, isBetween using Nat.le_induction with
  | base =>
      exact isLive
  | succ index isBetween inductionHypothesis =>
      have unwritten : ¬WritesAt method (index + 1) name := by
        intro writtenAgain
        have same := line.index_eq isLocal written writtenAgain
        omega
      exact inductionHypothesis
        (line.liveAfter_iff.mpr (isLive.liveBefore unwritten))

/--
Where the pressure fits the budget, the local that is assigned last
has few neighbours.
-/
theorem sparse
    (line : SingleLine method)
    (fits : FitsBudget budget method) :
    Sparse budget method (.ofLiveness (analyze method)) := by
  intro names nonempty locals
  have written : ∀ name ∈ names, ∃ index, WritesAt method index name :=
    fun name member => line.written_of_localNode (locals name member)
  choose! position isWritten using written
  obtain ⟨last, member, isLast⟩ := names.exists_max_image position nonempty
  have lastWritten := isWritten last member
  have lastLocal := (locals last member).2
  obtain ⟨instr, instrAt, assigned⟩ := isWritten last member
  obtain ⟨live, liveAt⟩ := exists_liveAt instrAt
  have within :
      (names.filter fun other =>
          (Graph.ofLiveness (analyze method)).interferes last other = true) ⊆
        (heldAfter method last live).erase last := by
    intro other isNeighbor
    obtain ⟨otherMember, interfere⟩ := Finset.mem_filter.mp isNeighbor
    have otherLocal := (locals other otherMember).2
    obtain ⟨different, index, ⟨written, isLive⟩ | ⟨written, isLive⟩⟩ :=
      interferes_analyze.mp interfere
    · cases line.index_eq lastLocal lastWritten written
      obtain ⟨found, isRow, isAfter⟩ := isLive
      cases Option.some.inj (liveAt.row.symm.trans isRow)
      exact Finset.mem_erase.mpr
        ⟨different.symm, mem_heldAfter.mpr (.inr ⟨isAfter, otherLocal⟩)⟩
    · -- The last one is not live where another one is assigned, which is earlier.
      obtain ⟨earlier, isEarlier, lastEarlier⟩ :=
        line.written_of_liveAfter lastLocal isLive
      have sameLast := line.index_eq lastLocal lastWritten lastEarlier
      have sameOther :=
        line.index_eq otherLocal (isWritten other otherMember) written
      have notLater := isLast other otherMember
      have sameIndex : position last = index := by omega
      rw [sameIndex] at lastWritten
      exact absurd (lastWritten.eq written) different
  refine ⟨last, member, ?_⟩
  calc neighborsIn _ names last ≤ ((heldAfter method last live).erase last).card :=
        Finset.card_le_card within
    _ < (heldAfter method last live).card :=
        Finset.card_erase_lt_of_mem (mem_heldAfter.mpr (.inl rfl))
    _ ≤ budget := fits _ instr live last instrAt liveAt.row assigned lastLocal

/-- A local interferes with those assigned later, up to where it is live. -/
theorem interferes_of_earlier
    (line : SingleLine method)
    {first second : String}
    (isLocal : IsLocal method first)
    {firstIndex secondIndex : Nat}
    (firstWritten : WritesAt method firstIndex first)
    (secondWritten : WritesAt method secondIndex second)
    (isEarlier : firstIndex < secondIndex)
    (inside : secondIndex ≤ index)
    (held : WritesAt method index first ∨ LiveAfter method index first) :
    (Graph.ofLiveness (analyze method)).interferes first second = true := by
  have onlyThere : ∀ other, WritesAt method other first → firstIndex = other :=
    fun other => line.index_eq isLocal firstWritten
  have isLive : LiveAfter method index first := by
    rcases held with written | isLive
    · have same := onlyThere index written
      omega
    · exact isLive
  have different : first ≠ second := by
    rintro rfl
    exact absurd (onlyThere secondIndex secondWritten) (Nat.ne_of_lt isEarlier)
  have liveThere :=
    line.liveAfter_between isLocal firstWritten (Nat.le_of_lt isEarlier)
      inside isLive
  exact interferes_analyze.mpr
    ⟨different, secondIndex, .inr ⟨secondWritten, liveThere⟩⟩

/--
Locals that are assigned by an instruction or live after it
interfere with each other.
-/
theorem interferes_of_held
    (line : SingleLine method)
    {first second : String}
    (firstLocal : IsLocal method first)
    (secondLocal : IsLocal method second)
    (different : first ≠ second)
    (firstHeld : WritesAt method index first ∨ LiveAfter method index first)
    (secondHeld : WritesAt method index second ∨ LiveAfter method index second) :
    (Graph.ofLiveness (analyze method)).interferes first second = true := by
  have assigned {held : String} (isLocal : IsLocal method held)
      (isHeld : WritesAt method index held ∨ LiveAfter method index held) :
      ∃ position ≤ index, WritesAt method position held := by
    rcases isHeld with written | isLive
    · exact ⟨index, Nat.le_refl index, written⟩
    · exact line.written_of_liveAfter isLocal isLive
  obtain ⟨firstIndex, firstInside, firstWritten⟩ := assigned firstLocal firstHeld
  obtain ⟨secondIndex, secondInside, secondWritten⟩ :=
    assigned secondLocal secondHeld
  rcases Nat.lt_trichotomy firstIndex secondIndex with isEarlier | rfl | isLater
  · exact line.interferes_of_earlier firstLocal firstWritten secondWritten isEarlier
      secondInside firstHeld
  · exact absurd (firstWritten.eq secondWritten) different
  · exact Graph.interferes_ofLiveness_comm
      (line.interferes_of_earlier secondLocal secondWritten firstWritten isLater
        firstInside secondHeld)

/-- Where there is a colouring, the pressure fits the budget. -/
theorem fits_of_color
    (line : SingleLine method)
    {colors : Assignment}
    (colored : color budget method (.ofLiveness (analyze method)) = .ok colors) :
    FitsBudget budget method := by
  intro index instr live assigned instrAt isRow isAssigned isLocal
  have held :
      ∀ name ∈ heldAfter method assigned live,
        IsLocal method name ∧
          (WritesAt method index name ∨ LiveAfter method index name) := by
    intro name member
    rcases mem_heldAfter.mp member with rfl | ⟨isAfter, otherLocal⟩
    · exact ⟨isLocal, .inl ⟨instr, instrAt, isAssigned⟩⟩
    · exact ⟨otherLocal, .inr ⟨live, isRow, isAfter⟩⟩
  obtain ⟨proper, complete⟩ :=
    color_ok (Graph.built_ofLiveness _).interferes_comm colored
  have hasColor : ∀ name ∈ heldAfter method assigned live, ∃ color,
    colors[name]? = some color := by
    intro name member
    obtain ⟨nameLocal, isHeld⟩ := held name member
    have isNode := contains_analyze.mpr ⟨index, .inr isHeld.symm⟩
    exact mem_iff_exists_getElem?.mp
      ((complete name).mpr (mem_candidates.mpr ⟨isNode, nameLocal⟩))
  choose! number isNumber using hasColor
  calc (heldAfter method assigned live).card ≤ (Finset.range budget).card := by
        apply Finset.card_le_card_of_injOn number
        · intro name member
          exact Finset.mem_coe.mpr
            (Finset.mem_range.mpr (color_lt colored (isNumber name member)))
        · intro first isFirst second isSecond sameNumber
          by_contra different
          obtain ⟨firstLocal, firstHeld⟩ := held first isFirst
          obtain ⟨secondLocal, secondHeld⟩ := held second isSecond
          have interfere :=
            line.interferes_of_held firstLocal secondLocal different firstHeld
              secondHeld
          exact proper first second _ _ interfere different (isNumber first isFirst)
            (isNumber second isSecond) sameNumber
    _ = budget := Finset.card_range budget

end SingleLine

/--
Allocation is exact on a straight line of single assignments. It succeeds just if
at each assignment to a local, this local and those that are live afterwards are
no more than the budget; otherwise it fails because the budget is exceeded.
-/
theorem allocation_exact_on_line
    (line : SingleLine method)
    (positive : 0 < budget) :
    ((∃ allocation, allocate budget method = .ok (some allocation)) ↔
        FitsBudget budget method) ∧
      (¬FitsBudget budget method →
        ∃ name, allocate budget method =
          .error (.budgetExceeded method.name name budget)) := by
  rw [allocate_eq positive]
  cases colored : color budget method (.ofLiveness (analyze method)) with
  | ok colors =>
      have fits := line.fits_of_color colored
      exact ⟨⟨fun _ => fits, fun _ => ⟨_, rfl⟩⟩, fun unfit => absurd fits unfit⟩
  | error error =>
      obtain ⟨name, _, _, rfl, _⟩ := color_error colored
      have unfit : ¬FitsBudget budget method := by
        intro fits
        obtain ⟨colors, succeeded⟩ := (line.sparse fits).color_ok
        cases colored.symm.trans succeeded
      refine ⟨⟨fun succeeded => ?_, fun fits => absurd fits unfit⟩, fun _ =>
        ⟨name, rfl⟩⟩
      obtain ⟨_, isOk⟩ := succeeded
      cases isOk

/-- Three locals, two of which are live at the same time, and a parameter. -/
private def pressing : Method where
  name := "press"
  isStatic := true
  params := [.var "n" .int]
  returnType := .int
  instrs :=
    [.copy (.var "a" .int) (.var "n" .int),
      .store (.var "b" .int) (.binary .add (.var "a" .int) (.var "n" .int) .int),
      .store (.var "c" .int) (.binary .mul (.var "a" .int) (.var "b" .int) .int),
      .ret .int (some (.var "c" .int))]
  flow := ⟨[[1], [2], [3], []]⟩
  table :=
    (((((∅ : Code.VariableTable).insert "n" ⟨.int, .param, 0⟩).insert
      "a" ⟨.int, .localVar, 1⟩).insert "b" ⟨.int, .localVar, 2⟩).insert
      "c" ⟨.int, .localVar, 3⟩)

/-- The method is code of a single line. -/
private theorem pressing_line :
    SingleLine pressing where
  straight := by decide
  returnsLast := by
    intro index instr instrAt isReturn
    match index with
    | 0 | 1 | 2 =>
        cases instrAt
        cases isReturn
    | 3 => rfl
    | index + 4 => cases instrAt
  assignedOnce := by
    intro name isLocal
    obtain ⟨entry, isEntry, _⟩ := isLocal
    have keys : pressing.table.keys = ["a", "b", "c", "n"] := by decide +kernel
    have isKey : name ∈ pressing.table.keys :=
      Std.ExtTreeMap.mem_keys.mpr (mem_iff_exists_getElem?.mpr ⟨entry, isEntry⟩)
    rw [keys] at isKey
    simp only [List.mem_cons, List.not_mem_nil, or_false] at isKey
    rcases isKey with rfl | rfl | rfl | rfl <;> decide +kernel
  entry := by
    rintro name isLocal ⟨live, isRow, isLive⟩
    have onEntry :
        (analyze pressing).rows[0]?.map (·.before.toList) = some ["n"] := by
      decide +kernel
    rw [isRow, Option.map_some, Option.some.injEq] at onEntry
    rw [← Std.ExtTreeSet.mem_toList, onEntry, List.mem_singleton] at isLive
    rw [isLive] at isLocal
    exact absurd isLocal (by decide +kernel)

/-- Two registers are enough for the three locals, and one is not. -/
theorem allocation_exact_on_pressing :
    SingleLine pressing ∧
      FitsBudget 2 pressing ∧
        (∃ allocation, allocate 2 pressing = .ok (some allocation)) ∧
          ¬FitsBudget 1 pressing ∧
            ∃ name,
              allocate 1 pressing = .error (.budgetExceeded "press" name 1) := by
  have withTwo : (allocate 2 pressing).toOption.map Option.isSome = some true := by
    decide +kernel
  have withOne : (allocate 1 pressing).isOk = false := by decide +kernel
  have allocated : ∃ allocation, allocate 2 pressing = .ok (some allocation) := by
    obtain ⟨allocation?, ran, isSome⟩ := exists_ok_of_map withTwo
    obtain ⟨allocation, rfl⟩ := Option.isSome_iff_exists.mp isSome
    exact ⟨allocation, ran⟩
  have unfit : ¬FitsBudget 1 pressing := by
    intro fits
    obtain ⟨allocation, isOk⟩ :=
      (allocation_exact_on_line pressing_line (by decide)).1.mpr fits
    rw [isOk] at withOne
    cases withOne
  exact ⟨pressing_line,
    (allocation_exact_on_line pressing_line (by decide)).1.mp allocated,
    allocated, unfit,
    (allocation_exact_on_line pressing_line (by decide)).2 unfit⟩

end MiniJava.Register
