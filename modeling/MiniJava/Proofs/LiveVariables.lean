import Mathlib.Algebra.Order.BigOperators.Group.List
import Mathlib.Data.Finset.Card
import Mathlib.Tactic.Ring
import MiniJava.Proofs.Collections
import MiniJava.Register.Liveness

namespace MiniJava.Code.Flow

/--
In a straight line only the next instruction follows, and only on
one that is no return.
-/
theorem mem_next_straight
    {instrs : List Instr}
    {index successor : Nat} :
    successor ∈ (straight instrs).next index ↔
      successor = index + 1 ∧ index + 1 < instrs.length ∧
        ∃ instr, instrs[index]? = some instr ∧ instr.isReturn = false := by
  simp only [next, straight, List.getElem?_mapIdx]
  cases instrs[index]? with
  | none =>
      simp
  | some instr =>
      by_cases isReturn : instr.isReturn = true
      · simp [isReturn]
      · by_cases inside : index + 1 < instrs.length <;> simp [isReturn, inside]

end MiniJava.Code.Flow

namespace MiniJava.Register

/-!
# Sweeps end at the equations of liveness

A sweep keeps the order of live sets, so from empty sets on every sweep only
adds names. There are no more names to add than the variable table has for each
set, so the analysis ends with sets that a further sweep does not change. Such
sets satisfy the equations of liveness at every instruction.
-/

open Code (Instr Flow Method)

/-- A name is in the union exactly if it is in one of the sets. -/
theorem mem_unionAll
    {sets : List NameSet}
    {name : String} :
    name ∈ unionAll sets ↔ ∃ set ∈ sets, name ∈ set := by
  have fromAny (start : NameSet) :
      name ∈ sets.foldl (· ∪ ·) start ↔ name ∈ start ∨ ∃ set ∈ sets,
        name ∈ set := by
    induction sets generalizing start with
    | nil =>
        simp
    | cons first rest inductionHypothesis =>
        simp [inductionHypothesis, Std.ExtTreeSet.mem_union_iff, or_assoc]
  simp [unionAll, fromAny, Std.ExtTreeSet.not_mem_empty]

/--
The names live before an instruction are read by it, or live after
it and not written.
-/
theorem Access.mem_liveBefore
    {access : Access}
    {after : NameSet}
    {name : String} :
    name ∈ access.liveBefore after ↔
      name ∈ access.read ∨ (name ∈ after ∧ access.written? ≠ some name) := by
  unfold Access.liveBefore
  cases access.written? with
  | none =>
      simp [Std.ExtTreeSet.mem_union_iff]
  | some written =>
      simp [Std.ExtTreeSet.mem_union_iff, Std.ExtTreeSet.mem_erase, and_comm]

/-- The live sets of one row are contained in those of another. -/
structure Live.Within (first second : Live) : Prop where
  before : ∀ name ∈ first.before, name ∈ second.before
  after : ∀ name ∈ first.after, name ∈ second.after

/-- A name is live after an instruction exactly if it is live before a successor. -/
theorem mem_liveAfter
    {flow : Flow}
    {previous later : List Live}
    {index : Nat}
    {name : String} :
    name ∈ liveAfter flow previous later index ↔
      ∃ successor ∈ flow.next index, ∃ live,
        rowAt? previous later index successor = some live ∧ name ∈ live.before := by
  simp [liveAfter, mem_unionAll, and_assoc]

/--
A set of names live after an instruction, from sets for its
successors, grows with them.
-/
theorem liveAfter_mono
    {flow : Flow}
    {previous previousMore later laterMore : List Live}
    (morePrevious : List.Forall₂ Live.Within previous previousMore)
    (moreLater : List.Forall₂ Live.Within later laterMore)
    (index : Nat)
    {name : String}
    (member : name ∈ liveAfter flow previous later index) :
    name ∈ liveAfter flow previousMore laterMore index := by
  obtain ⟨successor, follows, live, isRow, isMember⟩ := mem_liveAfter.mp member
  have moreRow :
      ∃ more, rowAt? previousMore laterMore index successor = some more ∧
        live.Within more := by
    unfold rowAt? at isRow ⊢
    by_cases earlier : successor ≤ index
    · rw [if_pos earlier] at isRow ⊢
      exact forall₂_getElem? morePrevious isRow
    · rw [if_neg earlier] at isRow ⊢
      exact forall₂_getElem? moreLater isRow
  obtain ⟨more, isMore, within⟩ := moreRow
  exact mem_liveAfter.mpr
    ⟨successor, follows, more, isMore, within.before name isMember⟩

/-- Sweeps keep the order of live sets. -/
theorem sweep_mono
    {flow : Flow}
    {previous previousMore : List Live}
    (more : List.Forall₂ Live.Within previous previousMore)
    (index : Nat)
    (accesses : List Access) :
    List.Forall₂ Live.Within (sweep flow previous index accesses)
      (sweep flow previousMore index accesses) := by
  induction accesses generalizing index with
  | nil =>
      exact .nil
  | cons access rest inductionHypothesis =>
      have moreAfter :
          ∀ name,
            name ∈ liveAfter flow previous
              (sweep flow previous (index + 1) rest) index →
            name ∈ liveAfter flow previousMore
              (sweep flow previousMore (index + 1) rest) index :=
        fun _ member =>
          liveAfter_mono more (inductionHypothesis (index + 1)) index member
      refine .cons ⟨fun name member => ?_, moreAfter⟩
        (inductionHypothesis (index + 1))
      rw [Access.mem_liveBefore] at member ⊢
      exact member.imp_right fun both => ⟨moreAfter name both.1, both.2⟩

theorem sweep_length
    (flow : Flow)
    (previous : List Live)
    (index : Nat)
    (accesses : List Access) :
    (sweep flow previous index accesses).length = accesses.length := by
  induction accesses generalizing index with
  | nil =>
      rfl
  | cons access rest inductionHypothesis =>
      simp [sweep, inductionHypothesis]

/-- Empty sets are contained in what a sweep leaves. -/
theorem empty_within_sweep
    (flow : Flow)
    (previous : List Live)
    (index : Nat)
    (accesses : List Access) :
    List.Forall₂ Live.Within (accesses.map fun _ => ⟨∅, ∅⟩)
      (sweep flow previous index accesses) := by
  rw [List.forall₂_iff_get]
  refine ⟨by simp [sweep_length], fun position inside _ => ?_⟩
  simp only [List.get_eq_getElem, List.getElem_map]
  exact ⟨fun _ member => absurd member Std.ExtTreeSet.not_mem_empty,
    fun _ member => absurd member Std.ExtTreeSet.not_mem_empty⟩

/-- The names of live sets are those of a table. -/
def Known (names : Finset String) (rows : List Live) : Prop :=
  ∀ live ∈ rows, ∀ name, name ∈ live.before ∨ name ∈ live.after → name ∈ names

/--
The sets of a row that is looked up are known if those it is looked up in are.
-/
theorem known_liveAfter
    {names : Finset String}
    {flow : Flow}
    {previous later : List Live}
    {index : Nat}
    {name : String}
    (knownPrevious : Known names previous)
    (knownLater : Known names later)
    (member : name ∈ liveAfter flow previous later index) :
    name ∈ names := by
  obtain ⟨successor, _, live, isRow, isMember⟩ := mem_liveAfter.mp member
  unfold rowAt? at isRow
  split at isRow
  · exact knownPrevious live (List.mem_of_getElem? isRow) name (.inl isMember)
  · exact knownLater live (List.mem_of_getElem? isRow) name (.inl isMember)

/-- Sweeps over instructions that read known names find known names only. -/
theorem known_sweep
    (flow : Flow)
    {names : Finset String}
    {previous : List Live}
    {accesses : List Access}
    (reads : ∀ access ∈ accesses, ∀ name ∈ access.read, name ∈ names)
    (known : Known names previous)
    (index : Nat) :
    Known names (sweep flow previous index accesses) := by
  induction accesses generalizing index with
  | nil =>
      intro live member
      cases member
  | cons access rest inductionHypothesis =>
      have knownLater :=
        inductionHypothesis
          (fun access member => reads access (List.mem_cons_of_mem _ member))
          (index + 1)
      intro live member name isMember
      rcases List.mem_cons.mp member with rfl | member
      · rw [Access.mem_liveBefore] at isMember
        rcases isMember with (isRead | ⟨isAfter, _⟩) | isAfter
        · exact reads access List.mem_cons_self name isRead
        · exact known_liveAfter known knownLater isAfter
        · exact known_liveAfter known knownLater isAfter
      · exact knownLater live member name isMember

/-- How many names the sets of a row have. -/
def Live.weight (names : Finset String) (live : Live) : Nat :=
  (names.filter (· ∈ live.before)).card + (names.filter (· ∈ live.after)).card

/-- How many names the sets of all rows have. -/
def weight (names : Finset String) (rows : List Live) : Nat :=
  (rows.map (Live.weight names)).sum

/-- The weight of rows is bounded by their number and that of the names. -/
theorem weight_le
    (names : Finset String)
    (rows : List Live) :
    weight names rows ≤ 2 * rows.length * names.card := by
  have each : ∀ count ∈ rows.map (Live.weight names), count ≤ 2 * names.card := by
    intro count member
    obtain ⟨live, _, rfl⟩ := List.mem_map.mp member
    have before := Finset.card_filter_le names (· ∈ live.before)
    have after := Finset.card_filter_le names (· ∈ live.after)
    unfold Live.weight
    omega
  have total := List.sum_le_card_nsmul _ _ each
  rw [List.length_map, nsmul_eq_mul, Nat.cast_id] at total
  calc weight names rows ≤ rows.length * (2 * names.card) := total
    _ = 2 * rows.length * names.card := by ring

/-- More names have no smaller share of others. -/
private theorem card_filter_mono
    {first second : NameSet}
    (names : Finset String)
    (within : ∀ name ∈ first, name ∈ second) :
    (names.filter (· ∈ first)).card ≤ (names.filter (· ∈ second)).card :=
  Finset.card_le_card (Finset.monotone_filter_right names fun name _ => within name)

/-- More names, all of them known, have a greater share of the known ones. -/
private theorem card_filter_lt
    {names : Finset String}
    {first second : NameSet}
    (within : ∀ name ∈ first, name ∈ second)
    (known : ∀ name ∈ second, name ∈ names)
    (different : first ≠ second) :
    (names.filter (· ∈ first)).card < (names.filter (· ∈ second)).card := by
  have added : ∃ name ∈ second, name ∉ first := by
    by_contra none
    push Not at none
    exact different (Std.ExtTreeSet.ext_mem fun name => ⟨within name, none name⟩)
  obtain ⟨name, isMember, isNew⟩ := added
  refine Finset.card_lt_card (Finset.ssubset_iff_subset_ne.mpr
    ⟨Finset.monotone_filter_right names fun name _ => within name, fun same =>
      isNew ?_⟩)
  have inSecond : name ∈ names.filter (· ∈ second) :=
    Finset.mem_filter.mpr ⟨known name isMember, isMember⟩
  rw [← same] at inSecond
  exact (Finset.mem_filter.mp inSecond).2

theorem Live.Within.weight_le
    {first second : Live}
    (within : first.Within second)
    (names : Finset String) :
    first.weight names ≤ second.weight names :=
  Nat.add_le_add (card_filter_mono names within.before)
    (card_filter_mono names within.after)

/-- A larger row of known names has more of them. -/
theorem Live.Within.weight_lt
    {names : Finset String}
    {first second : Live}
    (within : first.Within second)
    (known : ∀ name, name ∈ second.before ∨ name ∈ second.after → name ∈ names)
    (different : first ≠ second) :
    first.weight names < second.weight names := by
  by_cases sameBefore : first.before = second.before
  · have differentAfter : first.after ≠ second.after := by
      intro sameAfter
      cases first
      cases second
      exact different (by simp_all)
    exact Nat.add_lt_add_of_le_of_lt (card_filter_mono names within.before)
      (card_filter_lt within.after (fun name member => known name (.inr member))
        differentAfter)
  · exact Nat.add_lt_add_of_lt_of_le
      (card_filter_lt within.before (fun name member => known name (.inl member))
        sameBefore)
      (card_filter_mono names within.after)

theorem weight_mono
    {rows more : List Live}
    (within : List.Forall₂ Live.Within rows more)
    (names : Finset String) :
    weight names rows ≤ weight names more := by
  induction within with
  | nil =>
      exact Nat.le_refl _
  | cons head tail inductionHypothesis =>
      simp only [weight, List.map_cons, List.sum_cons] at inductionHypothesis ⊢
      exact Nat.add_le_add (head.weight_le names) inductionHypothesis

/-- Larger rows of known names have more of them. -/
theorem weight_lt
    {names : Finset String}
    {rows more : List Live}
    (within : List.Forall₂ Live.Within rows more)
    (known : Known names more)
    (different : rows ≠ more) :
    weight names rows < weight names more := by
  induction within with
  | nil =>
      exact absurd rfl different
  | @cons first second rest restMore head tail inductionHypothesis =>
      have knownRest : Known names restMore :=
        fun live member => known live (List.mem_cons_of_mem _ member)
      by_cases sameHead : first = second
      · have smaller := inductionHypothesis knownRest fun sameRest =>
          different (by rw [sameHead, sameRest])
        simp only [weight, List.map_cons, List.sum_cons] at smaller ⊢
        exact Nat.add_lt_add_of_le_of_lt (head.weight_le names) smaller
      · have smaller := head.weight_lt (known second List.mem_cons_self) sameHead
        have restLe := weight_mono tail names
        simp only [weight, List.map_cons, List.sum_cons] at restLe ⊢
        exact Nat.add_lt_add_of_lt_of_le smaller restLe

/--
Sweeps from sets that a sweep only adds to end with sets that a
sweep does not change.
-/
theorem sweepAll_fixed
    {names : Finset String}
    {flow : Flow}
    {accesses : List Access}
    {bound : Nat}
    {rows : List Live}
    (reads : ∀ access ∈ accesses, ∀ name ∈ access.read, name ∈ names)
    (grows : List.Forall₂ Live.Within rows (sweep flow rows 0 accesses))
    (known : Known names rows)
    (enough : 2 * accesses.length * names.card < weight names rows + bound) :
    sweep flow (sweepAll flow accesses bound rows).1 0 accesses =
        (sweepAll flow accesses bound rows).1 ∧
      Known names (sweepAll flow accesses bound rows).1 := by
  -- Every sweep that changes something adds a name, and there are no more names
  -- than the bound.
  induction bound generalizing rows with
  | zero =>
      have sameLength : rows.length = accesses.length :=
        grows.length_eq.trans (sweep_length flow rows 0 accesses)
      have few := weight_le names rows
      rw [sameLength] at few
      omega
  | succ bound inductionHypothesis =>
      unfold sweepAll
      by_cases fixed : sweep flow rows 0 accesses = rows
      · rw [if_pos fixed]
        exact ⟨fixed, known⟩
      · rw [if_neg fixed]
        have knownNext := known_sweep flow reads known 0
        have more := weight_lt grows knownNext (Ne.symm fixed)
        exact inductionHypothesis (sweep_mono grows 0 accesses) knownNext (by omega)

/-- The variables that an instruction reads are the operands that the table has. -/
theorem mem_reads
    {table : Code.VariableTable}
    {instr : Instr}
    {name : String} :
    name ∈ reads table instr ↔
      name ∈ table ∧ ∃ operand ∈ operandsOf instr, operand.name? = some name := by
  simp [reads, Std.ExtTreeSet.mem_ofList, and_comm]

theorem analyze_accesses
    (method : Method) :
    (analyze method).accesses = method.instrs.map (Access.of method.table) :=
  rfl

theorem analyze_rows
    (method : Method) :
    (analyze method).rows =
      (sweepAll method.flow (analyze method).accesses
        (2 * method.instrs.length * method.table.size + 1)
        ((analyze method).accesses.map fun _ => ⟨∅, ∅⟩)).1 :=
  rfl

/--
The analysis of a method ends with sets of table names that a sweep does not change.
-/
theorem analyze_fixed
    (method : Method) :
    sweep method.flow (analyze method).rows 0 (analyze method).accesses =
        (analyze method).rows ∧
      Known method.table.keys.toFinset (analyze method).rows := by
  have readsKnown :
      ∀ access ∈ (analyze method).accesses, ∀ name ∈ access.read,
        name ∈ method.table.keys.toFinset := by
    intro access member name isRead
    rw [analyze_accesses] at member
    obtain ⟨instr, _, rfl⟩ := List.mem_map.mp member
    rw [List.mem_toFinset, Std.ExtTreeMap.mem_keys]
    exact (mem_reads.mp isRead).1
  rw [analyze_rows]
  refine sweepAll_fixed readsKnown ?_ ?_ ?_
  · exact empty_within_sweep method.flow _ 0 _
  · intro live member name isMember
    obtain ⟨_, _, rfl⟩ := List.mem_map.mp member
    exact (isMember.elim Std.ExtTreeSet.not_mem_empty
      Std.ExtTreeSet.not_mem_empty).elim
  · have few : method.table.keys.toFinset.card ≤ method.table.size :=
      (List.toFinset_card_le _).trans_eq Std.ExtTreeMap.length_keys
    have fewer := Nat.mul_le_mul_left (2 * method.instrs.length) few
    rw [analyze_accesses, List.length_map]
    omega

/-- The analysis has one row for each instruction. -/
theorem analyze_rows_length
    (method : Method) :
    (analyze method).rows.length = method.instrs.length := by
  rw [← (analyze_fixed method).1, sweep_length, analyze_accesses, List.length_map]

theorem sweep_getElem?
    (flow : Flow)
    (previous : List Live)
    (start : Nat)
    (accesses : List Access)
    (offset : Nat) :
    (sweep flow previous start accesses)[offset]? =
      accesses[offset]?.map fun access =>
        let later := (sweep flow previous start accesses).drop (offset + 1)
        let after := liveAfter flow previous later (start + offset)
        ⟨access.liveBefore after, after⟩ := by
  induction accesses generalizing start offset with
  | nil =>
      rfl
  | cons access rest inductionHypothesis =>
      cases offset with
      | zero =>
          rfl
      | succ offset =>
          have shifted : start + 1 + offset = start + (offset + 1) := by omega
          simpa only [sweep, List.getElem?_cons_succ, List.drop_succ_cons, shifted]
            using inductionHypothesis (start + 1) offset

/-- Sets of later instructions are looked up in the rest of the new rows. -/
theorem rowAt?_drop
    (previous rows : List Live)
    (index successor : Nat) :
    rowAt? previous (rows.drop (index + 1)) index successor =
      if successor ≤ index then previous[successor]? else rows[successor]? := by
  unfold rowAt?
  split
  · rfl
  · rw [List.getElem?_drop]
    congr 1
    omega

/-- The live sets of an instruction satisfy the equations of liveness. -/
structure LiveAt
    (method : Method)
    (index : Nat)
    (instr : Instr)
    (live : Live) : Prop where
  row : (analyze method).rows[index]? = some live
  before :
    ∀ name,
      name ∈ live.before ↔
        name ∈ reads method.table instr ∨
          (name ∈ live.after ∧ writes? method.table instr ≠ some name)
  after :
    ∀ name,
      name ∈ live.after ↔
        ∃ successor ∈ method.flow.next index, ∃ next,
          (analyze method).rows[successor]? = some next ∧ name ∈ next.before

/-- Every instruction has live sets. -/
theorem exists_liveAt
    {method : Method}
    {index : Nat}
    {instr : Instr}
    (instrAt : method.instrs[index]? = some instr) :
    ∃ live, LiveAt method index instr live := by
  have fixed := (analyze_fixed method).1
  have accessAt :
      (analyze method).accesses[index]? = some (Access.of method.table instr) := by
    rw [analyze_accesses, List.getElem?_map, instrAt]
    rfl
  have isRow :=
    sweep_getElem? method.flow (analyze method).rows 0
      (analyze method).accesses index
  rw [fixed, accessAt, Option.map_some, Nat.zero_add] at isRow
  refine ⟨_, isRow, fun name => Access.mem_liveBefore, fun name => ?_⟩
  simp [mem_liveAfter, rowAt?_drop]

end MiniJava.Register
