import Std.Data.ExtTreeSet
import MiniJava.Code.Method

namespace MiniJava.Register

/-!
# Live variables

A variable is live before an instruction if some path from there reads it
before writing it. The live sets are found by sweeps: each goes from the last
instruction to the first and recomputes

* the names live after an instruction, from those live before its successors;
* the names live before it: those it reads, and those live after it that it
  does not write.

A sweep uses the sets it has just recomputed for later instructions and the
sets of the sweep before for the others. Sweeps start from empty sets and are
repeated until one changes nothing. Only names in the variable table count.
-/

open Code (Instr Operand Flow Method VariableTable)

/-- A set of names, in order. -/
abbrev NameSet := Std.ExtTreeSet String

/-- The operands that an instruction reads, those of an assigned value included. -/
def operandsOf : Instr → List Operand
  | .assign _ _ value => operandsOf value
  | .single operand => [operand]
  | .binary _ left right _ => [left, right]
  | .ret _ value => value.toList
  | .call _ target _ arguments _ => target :: arguments
  | .newObject _ _ => []
  | .newArray size _ => [size]
  | .element array index _ => [array, index]
  | .length array _ => [array]
  | .getField object _ => [object]
  | .putField object _ value => [object, value]

/-- The variables that an instruction reads. -/
def reads (table : VariableTable) (instr : Instr) : NameSet :=
  .ofList (((operandsOf instr).filterMap Operand.name?).filter (· ∈ table))

/-- The variable that an instruction writes. -/
def writes? (table : VariableTable) : Instr → Option String
  | .assign dest _ _ => dest.name?.filter (· ∈ table)
  | _ => none

/-- The variables that an instruction reads and writes. -/
structure Access where
  written? : Option String
  read : NameSet
  deriving DecidableEq

/-- The access of an instruction. -/
def Access.of (table : VariableTable) (instr : Instr) : Access :=
  ⟨writes? table instr, reads table instr⟩

/-- The names live before and after an instruction. -/
structure Live where
  before : NameSet
  after : NameSet
  deriving DecidableEq

/-- The names live before an instruction, from those live after it. -/
def Access.liveBefore (access : Access) (after : NameSet) : NameSet :=
  access.read ∪
    match access.written? with
    | some name => after.erase name
    | none => after

/-- The union of sets. -/
def unionAll (sets : List NameSet) : NameSet :=
  sets.foldl (· ∪ ·) ∅

/--
The sets of a successor of the instruction at `index`: `later` holds the new
sets of the instructions after it, and `previous` those of the sweep before for
all instructions.
-/
def rowAt? (previous later : List Live) (index successor : Nat) : Option Live :=
  if successor ≤ index then previous[successor]?
    else later[successor - (index + 1)]?

/--
The names live after the instruction at `index`, from the sets of its successors.
-/
def liveAfter (flow : Flow) (previous later : List Live) (index : Nat) : NameSet :=
  unionAll ((flow.next index).filterMap fun successor =>
    (rowAt? previous later index successor).map Live.before)

/-- One sweep over the instructions from `index` on. -/
def sweep
    (flow : Flow)
    (previous : List Live) : (index : Nat) → List Access → List Live
  | _, [] => []
  | index, access :: rest =>
      let later := sweep flow previous (index + 1) rest
      let after := liveAfter flow previous later index
      ⟨access.liveBefore after, after⟩ :: later

/--
Sweeps until one changes nothing, at most `bound` times; tells how
many sweeps were made.
-/
def sweepAll
    (flow : Flow)
    (accesses : List Access) : (bound : Nat) → List Live → List Live × Nat
  | 0, rows => (rows, 0)
  | bound + 1, rows =>
      let next := sweep flow rows 0 accesses
      if next = rows then
        (rows, 1)
      else
        let (final, count) := sweepAll flow accesses bound next
        (final, count + 1)

/-- The result of the analysis of a method. -/
structure Liveness where
  accesses : List Access
  rows : List Live
  /-- How many sweeps were made; the last one changed nothing. -/
  passes : Nat
  deriving DecidableEq

/--
The live sets of a method.

Every sweep but the last adds a name to one of the two sets of an instruction,
which bounds their number.
-/
def analyze (method : Method) : Liveness :=
  let accesses := method.instrs.map (Access.of method.table)
  let bound := 2 * method.instrs.length * method.table.size + 1
  let (rows, passes) :=
    sweepAll method.flow accesses bound (accesses.map fun _ => ⟨∅, ∅⟩)
  { accesses, rows, passes }

end MiniJava.Register
