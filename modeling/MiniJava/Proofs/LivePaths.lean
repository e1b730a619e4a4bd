import MiniJava.Proofs.SlotAllocation

namespace MiniJava.Register

/-!
# Live variables are those that a path needs

A variable is needed at an instruction if some path from there comes to a read
of it without a write on the way. The sets that the analysis ends with hold
every needed variable, since they satisfy the equations of liveness, and no
other one: the sets start empty, and a sweep only adds names for which it has a
path, over the sets of the same sweep or of the one before.

Successors that are no instructions lead nowhere, and a flow may have cycles and
be shorter or longer than the instructions.
-/

open Code (Instr Method)

/--
Some path from an instruction reads a variable of the table before it is written.
-/
def Needed (method : Method) (index : Nat) (name : String) : Prop :=
  name ∈ method.table ∧
    ∃ earlier reader,
      Path method index (earlier ++ [reader]) ∧
        (∃ operand ∈ operandsOf reader, operand.name? = some name) ∧
          ∀ instr ∈ earlier, instr.destination? ≠ some name

variable {method : Method} {index : Nat} {instr : Instr} {name : String}

/-- What an instruction reads is needed there. -/
theorem Needed.of_read
    (instrAt : method.instrs[index]? = some instr)
    (isRead : name ∈ reads method.table instr) :
    Needed method index name := by
  obtain ⟨inTable, isOperand⟩ := mem_reads.mp isRead
  exact ⟨inTable, [], instr, .last instrAt, isOperand, by simp⟩

/--
What is needed at a successor is needed before, unless the instruction writes it.
-/
theorem Needed.of_successor
    {successor : Nat}
    (instrAt : method.instrs[index]? = some instr)
    (follows : successor ∈ method.flow.next index)
    (needed : Needed method successor name)
    (unwritten : writes? method.table instr ≠ some name) :
    Needed method index name := by
  obtain ⟨inTable, earlier, reader, path, isRead, untouched⟩ := needed
  have notDestination : instr.destination? ≠ some name := by
    intro isDestination
    apply unwritten
    rw [Code.writes?_eq, isDestination]
    simp [inTable]
  refine ⟨inTable, instr :: earlier, reader, .step instrAt follows path, isRead, ?_⟩
  exact List.forall_mem_cons.mpr ⟨notDestination, untouched⟩

/--
A variable that is needed at an instruction is in the set of the analysis there.
-/
theorem Needed.mem_before
    (needed : Needed method index name) :
    ∃ live, (analyze method).rows[index]? = some live ∧ name ∈ live.before := by
  obtain ⟨inTable, earlier, reader, path, isRead, untouched⟩ := needed
  apply path.live (mem_reads.mpr ⟨inTable, isRead⟩)
  intro instr member isWritten
  rw [Code.writes?_eq, Option.filter_eq_some_iff] at isWritten
  exact untouched instr member isWritten.1

/--
The names of rows, the first of which is at an offset, are needed
where they are live.
-/
def AllNeeded (method : Method) (offset : Nat) (rows : List Live) : Prop :=
  ∀ position live,
    rows[position]? = some live →
      (∀ name ∈ live.before, Needed method (offset + position) name) ∧
        ∀ name ∈ live.after,
          ∃ successor ∈ method.flow.next (offset + position),
            Needed method successor name

/-- A row that is looked up for a successor has names that are needed there. -/
theorem AllNeeded.rowAt?
    {previous later : List Live}
    {successor : Nat}
    {live : Live}
    (neededBefore : AllNeeded method 0 previous)
    (neededLater : AllNeeded method (index + 1) later)
    (isRow : Register.rowAt? previous later index successor = some live)
    (isLive : name ∈ live.before) :
    Needed method successor name := by
  unfold Register.rowAt? at isRow
  split at isRow
  · have needed := (neededBefore _ _ isRow).1 name isLive
    rwa [Nat.zero_add] at needed
  case isFalse later =>
    have needed := (neededLater _ _ isRow).1 name isLive
    rwa [Nat.add_sub_cancel' (by omega)] at needed

/-- A sweep over needed names finds needed names. -/
theorem sweep_allNeeded
    {previous : List Live}
    {rest : List Instr}
    (neededBefore : AllNeeded method 0 previous)
    (isRest : method.instrs.drop index = rest) :
    AllNeeded method index
      (sweep method.flow previous index (rest.map (Access.of method.table))) := by
  induction rest generalizing index with
  | nil =>
      intro position live isRow
      cases isRow
  | cons instr rest inductionHypothesis =>
      have instrAt : method.instrs[index]? = some instr := by
        rw [← List.head?_drop, isRest]
        rfl
      have isLater : method.instrs.drop (index + 1) = rest := by
        rw [← List.tail_drop, isRest]
        rfl
      have neededLater := inductionHypothesis isLater
      have neededAfter :
          ∀ name ∈ liveAfter method.flow previous
              (sweep method.flow previous (index + 1)
                (rest.map (Access.of method.table))) index,
            ∃ successor ∈ method.flow.next index, Needed method successor name := by
        intro name isLive
        obtain ⟨successor, follows, live, isRow, member⟩ := mem_liveAfter.mp isLive
        exact ⟨successor, follows, neededBefore.rowAt? neededLater isRow member⟩
      intro position live isRow
      cases position with
      | zero =>
          cases isRow
          refine ⟨fun name isLive => ?_, neededAfter⟩
          rcases Access.mem_liveBefore.mp isLive with isRead | ⟨isAfter, unwritten⟩
          · exact .of_read instrAt isRead
          · obtain ⟨successor, follows, needed⟩ := neededAfter name isAfter
            exact .of_successor instrAt follows needed unwritten
      | succ position =>
          have needed := neededLater position live isRow
          rwa [show index + 1 + position = index + (position + 1) by omega]
            at needed

/--
However many sweeps are made over needed names, all names that they find are needed.
-/
theorem sweepAll_allNeeded
    {bound : Nat}
    {rows : List Live}
    (needed : AllNeeded method 0 rows) :
    AllNeeded method 0
      (sweepAll method.flow (method.instrs.map (Access.of method.table)) bound
        rows).1 := by
  induction bound generalizing rows with
  | zero =>
      exact needed
  | succ bound inductionHypothesis =>
      unfold sweepAll
      by_cases fixed : sweep method.flow rows 0
        (method.instrs.map (Access.of method.table)) = rows
      · rw [if_pos fixed]
        exact needed
      · rw [if_neg fixed]
        exact inductionHypothesis (sweep_allNeeded needed rfl)

theorem allNeeded_empty
    (method : Method)
    (accesses : List Access) :
    AllNeeded method 0 (accesses.map fun _ => ⟨∅, ∅⟩) := by
  intro position live isRow
  simp only [List.getElem?_map, Option.map_eq_some_iff] at isRow
  obtain ⟨_, _, rfl⟩ := isRow
  exact ⟨fun _ member => absurd member Std.ExtTreeSet.not_mem_empty,
    fun _ member => absurd member Std.ExtTreeSet.not_mem_empty⟩

/-- The analysis finds no name that is not needed. -/
theorem analyze_allNeeded
    (method : Method) :
    AllNeeded method 0 (analyze method).rows := by
  rw [analyze_rows, analyze_accesses]
  exact sweepAll_allNeeded (allNeeded_empty method _)

theorem liveBefore_iff_needed :
    LiveBefore method index name ↔ Needed method index name := by
  constructor
  · rintro ⟨live, isRow, isLive⟩
    have needed := (analyze_allNeeded method index live isRow).1 name isLive
    rwa [Nat.zero_add] at needed
  · exact Needed.mem_before

theorem liveAfter_iff_needed
    (instrAt : method.instrs[index]? = some instr) :
    LiveAfter method index name ↔
      ∃ successor ∈ method.flow.next index, Needed method successor name := by
  obtain ⟨live, liveAt⟩ := exists_liveAt instrAt
  constructor
  · rintro ⟨found, isRow, isLive⟩
    have needed := (analyze_allNeeded method index found isRow).2 name isLive
    rwa [Nat.zero_add] at needed
  · rintro ⟨successor, follows, needed⟩
    obtain ⟨next, nextRow, isLive⟩ := needed.mem_before
    exact ⟨live, liveAt.row,
      (liveAt.after name).mpr ⟨successor, follows, next, nextRow, isLive⟩⟩

/--
Liveness is exact. There is a pair of sets for each instruction; a name is live
before an instruction exactly if it is a variable of the table that some path
from there reads before writing it, and live after it exactly if it is live
before a successor that is an instruction.
-/
theorem live_iff_needed
    (method : Method) :
    (analyze method).rows.length = method.instrs.length ∧
      ∀ (index : Nat) (live : Live),
        (analyze method).rows[index]? = some live →
        (∀ name, name ∈ live.before ↔ Needed method index name) ∧
          ∀ name,
            name ∈ live.after ↔
              ∃ successor ∈ method.flow.next index, ∃ next,
                (analyze method).rows[successor]? = some next ∧
                  name ∈ next.before := by
  refine ⟨analyze_rows_length method, fun index live isRow => ?_⟩
  have inside : index < method.instrs.length := by
    rw [← analyze_rows_length]
    exact (List.getElem?_eq_some_iff.mp isRow).1
  obtain ⟨found, liveAt⟩ := exists_liveAt (List.getElem?_eq_getElem inside)
  cases Option.some.inj (liveAt.row.symm.trans isRow)
  refine ⟨fun name => ⟨fun isLive => ?_, fun needed => ?_⟩, liveAt.after⟩
  · have needed := (analyze_allNeeded method index live isRow).1 name isLive
    rwa [Nat.zero_add] at needed
  · obtain ⟨found, isFound, isLive⟩ := needed.mem_before
    cases Option.some.inj (isFound.symm.trans isRow)
    exact isLive

/--
A method with two loops, one of them from an instruction to itself, and with
successors that do not exist.
-/
private def circling : Method where
  name := "circle"
  isStatic := true
  params := [.var "n" .int]
  returnType := .int
  instrs :=
    [.copy (.var "x" .int) (.int 1),
      .store (.var "y" .int)
        (.binary .add (.var "x" .int) (.var "ghost" .int) .int),
      .store (.var "x" .int) (.binary .sub (.var "n" .int) (.var "x" .int) .int)]
  flow := ⟨[[1, 9], [2], [2, 0, 3], [0]]⟩
  table :=
    ((((∅ : Code.VariableTable).insert "n" ⟨.int, .param, 0⟩).insert
      "x" ⟨.int, .localVar, 1⟩).insert
      "y" ⟨.int, .localVar, 2⟩)

/--
Around both loops the parameter stays live, the first local is live before the
loop reads it and not where it is about to be written, and names outside the
table are never live.
-/
theorem live_iff_needed_circling :
    ∃ first second third,
      (analyze circling).rows = [first, second, third] ∧
        first.before.toList = ["n"] ∧
          second.before.toList = ["n", "x"] ∧
            third.after.toList = ["n", "x"] ∧
              Needed circling 0 "n" ∧
                ¬Needed circling 0 "x" ∧
                  Needed circling 1 "x" ∧ ¬Needed circling 1 "ghost" := by
  obtain ⟨sameLength, exactly⟩ := live_iff_needed circling
  have sets :
      (analyze circling).rows.map
        (fun live => (live.before.toList, live.after.toList)) =
        [(["n"], ["n", "x"]), (["n", "x"], ["n", "x"]),
          (["n", "x"], ["n", "x"])] := by
    decide +kernel
  obtain ⟨first, second, third, isRows⟩ := List.length_eq_three.mp sameLength
  rw [isRows] at sets exactly
  simp only [List.map_cons, List.map_nil, List.cons.injEq, Prod.mk.injEq, and_true]
    at sets
  obtain ⟨⟨firstBefore, _⟩, ⟨secondBefore, _⟩, _, thirdAfter⟩ := sets
  have atFirst (name : String) : name ∈ ["n"] ↔ Needed circling 0 name := by
    rw [← firstBefore, Std.ExtTreeSet.mem_toList]
    exact (exactly 0 first rfl).1 name
  have atSecond (name : String) : name ∈ ["n", "x"] ↔ Needed circling 1 name := by
    rw [← secondBefore, Std.ExtTreeSet.mem_toList]
    exact (exactly 1 second rfl).1 name
  exact ⟨first, second, third, isRows, firstBefore, secondBefore, thirdAfter,
    (atFirst "n").mp (by simp),
    fun needed => absurd ((atFirst "x").mpr needed) (by simp),
    (atSecond "x").mp (by simp), fun needed =>
      absurd ((atSecond "ghost").mpr needed) (by simp)⟩

end MiniJava.Register
