import Mathlib.Logic.Function.Iterate
import Mathlib.Order.Monotone.Basic
import MiniJava.Proofs.LivePaths

namespace MiniJava.Register

/-!
# How many sweeps the analysis takes

Sweeps only add names. After a number of sweeps, a name is live before an
instruction at least if a path of so many instructions reads it before writing
it. A path need not be longer than the method, so after as many sweeps as there
are instructions the names live before them do not change any more, and after one
more those live after them do not. In a straight line a sweep goes against the
flow, so the first one finds everything.
-/

open Code (Instr Flow Method)

variable {method : Method} {count index : Nat} {name : String}

/-- One sweep over the instructions of a method. -/
def sweepOnce (method : Method) (rows : List Live) : List Live :=
  sweep method.flow rows 0 (method.instrs.map (Access.of method.table))

/-- The live sets of a method after a number of sweeps. -/
def rowsAfter (method : Method) (count : Nat) : List Live :=
  (sweepOnce method)^[count]
    ((method.instrs.map (Access.of method.table)).map fun _ => ⟨∅, ∅⟩)

theorem rowsAfter_succ
    (method : Method)
    (count : Nat) :
    rowsAfter method (count + 1) = sweepOnce method (rowsAfter method count) :=
  Function.iterate_succ_apply' _ _ _

theorem length_rowsAfter
    (method : Method)
    (count : Nat) :
    (rowsAfter method count).length = method.instrs.length := by
  cases count with
  | zero =>
      simp [rowsAfter]
  | succ count =>
      rw [rowsAfter_succ, sweepOnce, sweep_length, List.length_map]

/-- Every sweep only adds names. -/
theorem rowsAfter_within
    (method : Method)
    (count : Nat) :
    List.Forall₂ Live.Within (rowsAfter method count)
      (rowsAfter method (count + 1)) := by
  induction count with
  | zero =>
      exact empty_within_sweep method.flow _ 0 _
  | succ count inductionHypothesis =>
      rw [rowsAfter_succ, rowsAfter_succ]
      exact sweep_mono inductionHypothesis 0 _

/-- A name is in the set before the instruction at an index. -/
def InBefore (rows : List Live) (index : Nat) (name : String) : Prop :=
  ∃ live, rows[index]? = some live ∧ name ∈ live.before

/-- A name is in the set after the instruction at an index. -/
def InAfter (rows : List Live) (index : Nat) (name : String) : Prop :=
  ∃ live, rows[index]? = some live ∧ name ∈ live.after

theorem rows_ext
    {rows more : List Live}
    (sameLength : rows.length = more.length)
    (sameBefore : ∀ index name, InBefore rows index name ↔ InBefore more index name)
    (sameAfter : ∀ index name, InAfter rows index name ↔ InAfter more index name) :
    rows = more := by
  refine List.ext_getElem sameLength fun index inside insideMore => ?_
  have found := List.getElem?_eq_getElem inside
  have foundMore := List.getElem?_eq_getElem insideMore
  have before : rows[index].before = more[index].before := by
    apply Std.ExtTreeSet.ext_mem
    intro name
    simpa [InBefore, found, foundMore] using sameBefore index name
  have after : rows[index].after = more[index].after := by
    apply Std.ExtTreeSet.ext_mem
    intro name
    simpa [InAfter, found, foundMore] using sameAfter index name
  cases isRow : rows[index]
  cases isMore : more[index]
  simp_all

theorem InBefore.mono
    {rows more : List Live}
    (within : List.Forall₂ Live.Within rows more)
    (isLive : InBefore rows index name) :
    InBefore more index name := by
  obtain ⟨live, isRow, isBefore⟩ := isLive
  obtain ⟨moreLive, isMore, rowWithin⟩ := forall₂_getElem? within isRow
  exact ⟨moreLive, isMore, rowWithin.before name isBefore⟩

theorem sweepOnce_getElem?
    (method : Method)
    (rows : List Live)
    (index : Nat) :
    (sweepOnce method rows)[index]? =
      method.instrs[index]?.map fun instr =>
        let later := (sweepOnce method rows).drop (index + 1)
        let after := liveAfter method.flow rows later index
        ⟨(Access.of method.table instr).liveBefore after, after⟩ := by
  have isRow :=
    sweep_getElem? method.flow rows 0
      (method.instrs.map (Access.of method.table)) index
  rw [List.getElem?_map, Option.map_map, Nat.zero_add] at isRow
  exact isRow

/-- A sweep recomputes the names live after an instruction from old and new sets. -/
theorem inAfter_sweepOnce
    {rows : List Live} :
    InAfter (sweepOnce method rows) index name ↔
      index < method.instrs.length ∧
        ∃ successor ∈ method.flow.next index,
          InBefore (if successor ≤ index then rows else sweepOnce method rows)
            successor name := by
  have lookup (successor : Nat) :
      (if successor ≤ index then rows else sweepOnce method rows)[successor]? =
        rowAt? rows ((sweepOnce method rows).drop (index + 1)) index successor := by
    rw [rowAt?_drop]
    split <;> rfl
  unfold InAfter InBefore
  rw [sweepOnce_getElem?]
  by_cases inside : index < method.instrs.length
  · simp [inside, lookup, mem_liveAfter]
  · simp [inside]

/--
A sweep recomputes the names live before an instruction from those live after it.
-/
theorem inBefore_sweepOnce
    {rows : List Live} :
    InBefore (sweepOnce method rows) index name ↔
      ∃ instr,
        method.instrs[index]? = some instr ∧
          (name ∈ reads method.table instr ∨
            (InAfter (sweepOnce method rows) index name ∧
              writes? method.table instr ≠ some name)) := by
  unfold InAfter InBefore
  rw [sweepOnce_getElem?]
  cases method.instrs[index]? with
  | none => simp
  | some instr => simp [Access.mem_liveBefore, Access.of]

/-- A path of at most so many instructions reads a variable before it is written. -/
def NeededWithin
    (method : Method) : (bound : Nat) → (index : Nat) → (name : String) → Prop
  | 0, _, _ => False
  | bound + 1, index, name =>
      ∃ instr ∈ method.instrs[index]?,
        name ∈ reads method.table instr ∨
          (writes? method.table instr ≠ some name ∧
            ∃ successor ∈ method.flow.next index,
              NeededWithin method bound successor name)

instance NeededWithin.decidable (method : Method) :
    (bound index : Nat) → (name :
      String) → Decidable (NeededWithin method bound index name)
  | 0, _, _ => inferInstanceAs (Decidable False)
  | bound + 1, index, name =>
      have (successor : Nat) := NeededWithin.decidable method bound successor name
      inferInstanceAs (Decidable (∃ instr ∈ method.instrs[index]?,
        name ∈ reads method.table instr ∨
          (writes? method.table instr ≠ some name ∧
            ∃ successor ∈ method.flow.next index,
              NeededWithin method bound successor name)))

/-- Each sweep follows the paths by one more instruction. -/
theorem NeededWithin.inBefore
    (needed : NeededWithin method count index name) :
    InBefore (rowsAfter method count) index name := by
  induction count generalizing index with
  | zero =>
      cases needed
  | succ count inductionHypothesis =>
      obtain ⟨instr, instrAt, found⟩ := needed
      rw [rowsAfter_succ]
      refine inBefore_sweepOnce.mpr ⟨instr, instrAt, ?_⟩
      rcases found with isRead | ⟨unwritten, successor, follows, needed⟩
      · exact .inl isRead
      · have before := inductionHypothesis needed
        have inside := (List.getElem?_eq_some_iff.mp instrAt).1
        refine .inr
          ⟨inAfter_sweepOnce.mpr ⟨inside, successor, follows, ?_⟩, unwritten⟩
        split
        · exact before
        · rw [← rowsAfter_succ]
          exact before.mono (rowsAfter_within method count)

theorem NeededWithin.mono
    {bound more : Nat}
    (needed : NeededWithin method bound index name)
    (isMore : bound ≤ more) :
    NeededWithin method more index name := by
  induction bound generalizing index more with
  | zero =>
      cases needed
  | succ bound inductionHypothesis =>
      obtain ⟨more, rfl⟩ := Nat.exists_eq_add_of_le' isMore
      obtain ⟨instr, instrAt, found⟩ := needed
      refine ⟨instr, instrAt,
        found.imp_right fun ⟨unwritten, successor, follows, needed⟩ => ?_⟩
      exact ⟨unwritten, successor, follows,
        inductionHypothesis needed (Nat.le_add_left bound more)⟩

/-- What is needed is needed within the length of some path. -/
theorem Needed.within
    (needed : Needed method index name) :
    ∃ bound, NeededWithin method bound index name := by
  obtain ⟨inTable, earlier, reader, path, isRead, untouched⟩ := needed
  induction earlier generalizing index with
  | nil =>
      exact ⟨1, reader, path.head, .inl (mem_reads.mpr ⟨inTable, isRead⟩)⟩
  | cons first earlier inductionHypothesis =>
      rw [List.cons_append] at path
      have instrAt := path.head
      obtain ⟨successor, follows, path⟩ := path.tail (by simp)
      obtain ⟨bound, within⟩ :=
        inductionHypothesis path fun instr member =>
          untouched instr (List.mem_cons_of_mem _ member)
      have unwritten : writes? method.table first ≠ some name := by
        intro isWritten
        rw [Code.writes?_eq, Option.filter_eq_some_iff] at isWritten
        exact untouched first List.mem_cons_self isWritten.1
      exact ⟨bound + 1, first, instrAt,
        .inr ⟨unwritten, successor, follows, within⟩⟩

/--
The instructions from which a path of at most so many instructions reads a variable.
-/
def startsWithin (method : Method) (name : String) (bound : Nat) : Finset Nat :=
  (Finset.range method.instrs.length).filter fun index =>
    NeededWithin method bound index name

theorem mem_startsWithin
    {bound : Nat} :
    index ∈ startsWithin method name bound ↔
      NeededWithin method bound index name := by
  unfold startsWithin
  rw [Finset.mem_filter, Finset.mem_range, and_iff_right_iff_imp]
  cases bound with
  | zero =>
      intro needed
      cases needed
  | succ bound =>
      rintro ⟨instr, instrAt, _⟩
      exact (List.getElem?_eq_some_iff.mp instrAt).1

theorem startsWithin_subset
    {bound more : Nat}
    (isMore : bound ≤ more) :
    startsWithin method name bound ⊆ startsWithin method name more :=
  fun _ member => mem_startsWithin.mpr ((mem_startsWithin.mp member).mono isMore)

/-- Longer paths add starts only if they did so before. -/
theorem startsWithin_stable
    {bound : Nat}
    (stable :
      startsWithin method name bound = startsWithin method name (bound + 1)) :
    startsWithin method name (bound + 1) =
      startsWithin method name (bound + 2) := by
  refine (startsWithin_subset (Nat.le_succ _)).antisymm fun index member => ?_
  obtain ⟨instr, instrAt, found⟩ := mem_startsWithin.mp member
  refine mem_startsWithin.mpr ⟨instr, instrAt, found.imp_right fun found => ?_⟩
  obtain ⟨unwritten, successor, follows, needed⟩ := found
  have already := mem_startsWithin.mpr needed
  rw [← stable] at already
  exact ⟨unwritten, successor, follows, mem_startsWithin.mp already⟩

/-- Paths need not be longer than the method. -/
theorem NeededWithin.of_length
    {bound : Nat}
    (needed : NeededWithin method bound index name) :
    NeededWithin method method.instrs.length index name := by
  have sameCard :
      (startsWithin method name (bound + method.instrs.length)).card =
        (startsWithin method name method.instrs.length).card := by
    apply Nat.stabilises_of_monotone
      (f := fun bound => (startsWithin method name bound).card)
    · exact fun _ _ isMore => Finset.card_le_card (startsWithin_subset isMore)
    · intro bound
      exact (Finset.card_filter_le _ _).trans_eq (Finset.card_range _)
    · intro bound same
      rw [startsWithin_stable (Finset.eq_of_subset_of_card_le
        (startsWithin_subset (Nat.le_succ bound)) same.ge)]
    · exact Nat.le_add_left _ _
  have sameStarts :=
    Finset.eq_of_subset_of_card_le (startsWithin_subset (Nat.le_add_left _ _))
      sameCard.le
  rw [← mem_startsWithin, sameStarts]
  exact mem_startsWithin.mpr (needed.mono (Nat.le_add_right _ _))

/-- The sweeps find only names that are needed. -/
theorem rowsAfter_allNeeded
    (method : Method)
    (count : Nat) :
    AllNeeded method 0 (rowsAfter method count) := by
  induction count with
  | zero =>
      exact allNeeded_empty method _
  | succ count inductionHypothesis =>
      rw [rowsAfter_succ]
      exact sweep_allNeeded inductionHypothesis rfl

/--
After as many sweeps as instructions, all names are found that are live before them.
-/
theorem inBefore_rowsAfter_iff
    (enough : method.instrs.length ≤ count) :
    InBefore (rowsAfter method count) index name ↔
      NeededWithin method method.instrs.length index name := by
  constructor
  · rintro ⟨live, isRow, isBefore⟩
    have needed :=
      (rowsAfter_allNeeded method count index live isRow).1 name isBefore
    rw [Nat.zero_add] at needed
    obtain ⟨bound, within⟩ := needed.within
    exact within.of_length
  · exact fun needed => (needed.mono enough).inBefore

/-- One sweep later all names are found that are live after them. -/
theorem inAfter_rowsAfter_iff
    (enough : method.instrs.length ≤ count) :
    InAfter (rowsAfter method (count + 1)) index name ↔
      index < method.instrs.length ∧
        ∃ successor ∈ method.flow.next index,
          NeededWithin method method.instrs.length successor name := by
  have sameBefore (successor : Nat) :
      InBefore (if successor ≤ index then rowsAfter method count
        else rowsAfter method (count + 1))
          successor name ↔
        NeededWithin method method.instrs.length successor name := by
    split
    · exact inBefore_rowsAfter_iff enough
    · exact inBefore_rowsAfter_iff (Nat.le_succ_of_le enough)
  rw [rowsAfter_succ] at sameBefore ⊢
  simp only [inAfter_sweepOnce, sameBefore]

theorem rowsAfter_settled
    (method : Method) :
    rowsAfter method (method.instrs.length + 2) =
      rowsAfter method (method.instrs.length + 1) := by
  refine rows_ext (by simp [length_rowsAfter]) (fun index name => ?_)
    fun index name => ?_
  · rw [inBefore_rowsAfter_iff (Nat.le_add_right _ 2),
      inBefore_rowsAfter_iff (Nat.le_succ _)]
  · rw [inAfter_rowsAfter_iff (Nat.le_succ _),
      inAfter_rowsAfter_iff (Nat.le_refl _)]

/-- If no variable of the table is read, none is needed anywhere. -/
theorem not_neededWithin
    (unread : ∀ instr ∈ method.instrs, ∀ name, name ∉ reads method.table instr)
    (bound : Nat) :
    ¬NeededWithin method bound index name := by
  induction bound generalizing index with
  | zero =>
      exact id
  | succ bound inductionHypothesis =>
      rintro ⟨instr, instrAt, isRead | ⟨_, successor, _, needed⟩⟩
      · exact unread instr (List.mem_of_getElem? instrAt) name isRead
      · exact inductionHypothesis needed

/-- The first sweep changes nothing just if no variable of the table is read. -/
theorem rowsAfter_one_iff
    (method : Method) :
    rowsAfter method 1 = rowsAfter method 0 ↔
      ∀ instr ∈ method.instrs, ∀ name, name ∉ reads method.table instr := by
  have emptyBefore (index : Nat) (name : String) :
      ¬InBefore (rowsAfter method 0) index name := by
    simp [InBefore, rowsAfter]
  have emptyAfter (index : Nat) (name : String) :
      ¬InAfter (rowsAfter method 0) index name := by
    simp [InAfter, rowsAfter]
  constructor
  · intro same instr member name isRead
    obtain ⟨index, instrAt⟩ := List.mem_iff_getElem?.mp member
    have needed : NeededWithin method 1 index name := ⟨instr, instrAt, .inl isRead⟩
    have isLive := needed.inBefore
    rw [same] at isLive
    exact emptyBefore index name isLive
  · intro unread
    have unneeded (index : Nat) (name : String) : ¬Needed method index name := by
      intro needed
      obtain ⟨bound, within⟩ := needed.within
      exact not_neededWithin unread bound within
    refine rows_ext (by simp [length_rowsAfter]) (fun index name => ?_)
      fun index name => ?_
    · refine iff_of_false ?_ (emptyBefore index name)
      rintro ⟨live, isRow, isBefore⟩
      exact unneeded _ name
        ((rowsAfter_allNeeded method 1 index live isRow).1 name isBefore)
    · refine iff_of_false ?_ (emptyAfter index name)
      rintro ⟨live, isRow, isAfter⟩
      obtain ⟨successor, _, needed⟩ :=
        (rowsAfter_allNeeded method 1 index live isRow).2 name isAfter
      exact unneeded successor name needed

/--
Sweeps that are made until one changes nothing, if the bound leaves
room for them all.
-/
theorem sweepAll_eq
    {flow : Flow}
    {accesses : List Access}
    {bound stop : Nat}
    {rows : List Live}
    (inside : stop < bound)
    (fixed :
      (fun rows => sweep flow rows 0 accesses)^[stop + 1] rows =
        (fun rows => sweep flow rows 0 accesses)^[stop] rows)
    (moves :
      ∀ earlier < stop,
        (fun rows => sweep flow rows 0 accesses)^[earlier + 1] rows ≠
          (fun rows => sweep flow rows 0 accesses)^[earlier] rows) :
    sweepAll flow accesses bound rows =
      ((fun rows => sweep flow rows 0 accesses)^[stop] rows, stop + 1) := by
  induction bound generalizing stop rows with
  | zero =>
      exact absurd inside (Nat.not_lt_zero stop)
  | succ bound inductionHypothesis =>
      unfold sweepAll
      cases stop with
      | zero =>
          exact if_pos fixed
      | succ stop =>
          have changed : sweep flow rows 0 accesses ≠ rows :=
            moves 0 (Nat.succ_pos stop)
          have rest :=
            inductionHypothesis (Nat.lt_of_succ_lt_succ inside) fixed
              fun earlier isEarlier =>
              moves (earlier + 1) (Nat.succ_lt_succ isEarlier)
          rw [if_neg changed, rest]
          rfl

/--
The bound of the analysis leaves room for the sweeps until one changes nothing.
-/
theorem lt_bound
    {stop : Nat}
    (few : stop ≤ method.instrs.length + 1)
    (moves :
      ∀ earlier < stop, rowsAfter method (earlier + 1) ≠ rowsAfter method earlier) :
    stop < 2 * method.instrs.length * method.table.size + 1 := by
  by_cases unread : ∀ instr ∈ method.instrs, ∀ name, name ∉ reads method.table instr
  · have atOnce : stop = 0 := by
      by_contra later
      exact moves 0 (Nat.pos_of_ne_zero later)
        ((rowsAfter_one_iff method).mpr unread)
    omega
  · push Not at unread
    obtain ⟨instr, member, name, isRead⟩ := unread
    have someInstr := List.length_pos_of_mem member
    have someName : 0 < method.table.size := by
      rw [← Std.ExtTreeMap.length_keys]
      exact List.length_pos_of_mem
        (Std.ExtTreeMap.mem_keys.mpr (mem_reads.mp isRead).1)
    have room := Nat.mul_le_mul_left (2 * method.instrs.length) someName
    omega

/-- The analysis stops after the first sweep that changes nothing. -/
theorem analyze_stops
    (method : Method) :
    ∃ stop ≤ method.instrs.length + 1,
      (analyze method).passes = stop + 1 ∧
        (analyze method).rows = rowsAfter method stop ∧
          rowsAfter method (stop + 1) = rowsAfter method stop ∧
            ∀ earlier < stop, rowsAfter method (earlier + 1) ≠
              rowsAfter method earlier := by
  have settles : ∃ count, rowsAfter method (count + 1) = rowsAfter method count :=
    ⟨_, rowsAfter_settled method⟩
  have few := Nat.find_min' settles (rowsAfter_settled method)
  have fixed := Nat.find_spec settles
  have moves (earlier : Nat) (isEarlier : earlier < Nat.find settles) :=
    Nat.find_min settles isEarlier
  have ran := sweepAll_eq (lt_bound few moves) fixed moves
  exact ⟨Nat.find settles, few, congrArg Prod.snd ran, congrArg Prod.fst ran,
    fixed, moves⟩

/--
If all instructions lead forward, a sweep looks up no sets of the sweep before.
-/
theorem sweep_of_forward
    {flow : Flow}
    (forward : ∀ index, ∀ successor ∈ flow.next index, index < successor)
    (previous other : List Live)
    (index : Nat)
    (accesses : List Access) :
    sweep flow previous index accesses = sweep flow other index accesses := by
  induction accesses generalizing index with
  | nil =>
      rfl
  | cons access rest inductionHypothesis =>
      have sameAfter (later : List Live) :
          liveAfter flow previous later index =
            liveAfter flow other later index := by
        unfold liveAfter
        congr 1
        refine List.filterMap_congr fun successor follows => ?_
        have isForward := Nat.not_le_of_lt (forward index successor follows)
        rw [rowAt?, rowAt?, if_neg isForward, if_neg isForward]
      simp only [sweep, inductionHypothesis (index + 1), sameAfter]

theorem rowsAfter_straight
    (straight : method.flow = .straight method.instrs) :
    rowsAfter method 2 = rowsAfter method 1 := by
  apply sweep_of_forward
  intro index successor follows
  rw [straight, Code.Flow.mem_next_straight] at follows
  omega

/--
The analysis always ends, and quickly. It makes sweeps until the first that
changes nothing, and each sweep only adds names to the sets. There are at most two
sweeps more than instructions, at most two in a straight line, and just one if no
instruction reads a variable of the table.
-/
theorem analysis_ends_soon
    (method : Method) :
    (∃ stop,
      (analyze method).passes = stop + 1 ∧
        (analyze method).rows = rowsAfter method stop ∧
          rowsAfter method (stop + 1) = rowsAfter method stop ∧
            ∀ earlier < stop, rowsAfter method (earlier + 1) ≠
              rowsAfter method earlier) ∧
      (∀ count,
        List.Forall₂ Live.Within (rowsAfter method count)
          (rowsAfter method (count + 1))) ∧
      (analyze method).passes ≤ method.instrs.length + 2 ∧
      (method.flow = .straight method.instrs → (analyze method).passes ≤ 2) ∧
      ((analyze method).passes = 1 ↔
        ∀ instr ∈ method.instrs, ∀ name, name ∉ reads method.table instr) := by
  obtain ⟨stop, few, isCount, isRows, fixed, moves⟩ := analyze_stops method
  refine ⟨⟨stop, isCount, isRows, fixed, moves⟩, rowsAfter_within method,
    by omega, ?_, ?_⟩
  · intro straight
    have early : stop ≤ 1 := by
      by_contra later
      exact moves 1 (by omega) (rowsAfter_straight straight)
    omega
  · rw [isCount, ← rowsAfter_one_iff]
    constructor
    · intro once
      cases Nat.succ.inj once
      exact fixed
    · intro same
      by_contra more
      exact moves 0 (by omega) same

/-- One instruction that reads a variable and leads back to itself. -/
private def turning : Method where
  name := "turn"
  isStatic := true
  params := [.var "n" .int]
  returnType := .int
  instrs := [.copy (.var "x" .int) (.var "n" .int)]
  flow := ⟨[[0, 7]]⟩
  table :=
    ((∅ : Code.VariableTable).insert "n" ⟨.int, .param, 0⟩).insert "x"
      ⟨.int, .localVar, 1⟩

/--
The loop takes as many sweeps as the bound allows: the name that the first one
finds before the instruction is found after it by the second. In a straight line
the second sweep finds nothing.
-/
theorem analysis_ends_soon_turning :
    (analyze turning).passes = turning.instrs.length + 2 ∧
      rowsAfter turning 2 ≠ rowsAfter turning 1 ∧
        (analyze turning.withStraightFlow).passes = 2 := by
  have loopPasses : (analyze turning).passes = 3 := by decide +kernel
  obtain ⟨⟨stop, isCount, _, _, moves⟩, _⟩ := analysis_ends_soon turning
  obtain ⟨⟨lineStop, isLineCount, _⟩, _, _, atMostTwo, once_iff⟩ :=
    analysis_ends_soon turning.withStraightFlow
  have isRead :
      "n" ∈ reads turning.table (.copy (.var "x" .int) (.var "n" .int)) := by
    decide +kernel
  have notOnce : (analyze turning.withStraightFlow).passes ≠ 1 :=
    fun once => once_iff.mp once _ List.mem_cons_self "n" isRead
  have few := atMostTwo rfl
  exact ⟨loopPasses, moves 1 (by omega), by omega⟩

end MiniJava.Register
