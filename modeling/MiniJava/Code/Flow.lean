import MiniJava.Code.Basic

namespace MiniJava.Code

/-!
# Flow between instructions

For each instruction of a method, by its index, the indices of the instructions
that may run next. A table may be given by hand, so it can be shorter or longer
than the instructions, and can name indices that do not exist.
-/

/-- The successors of instructions, by index. -/
structure Flow where
  successors : List (List Nat)
  deriving DecidableEq

namespace Flow

/-- The instructions that may follow; none beyond the end of the table. -/
def next (flow : Flow) (index : Nat) : List Nat :=
  flow.successors[index]?.getD []

/--
The flow of a straight line: each instruction leads to the next one,
and returns end it.
-/
def straight (instrs : List Instr) : Flow where
  successors := instrs.mapIdx fun index instr =>
    if instr.isReturn then
      []
    else if index + 1 < instrs.length then
      [index + 1]
    else
      []

end Flow

end MiniJava.Code
