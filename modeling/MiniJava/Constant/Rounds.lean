import MiniJava.Constant.Folding
import MiniJava.Constant.Propagation

namespace MiniJava

/-!
# Rounds of constant passes

Folding makes literals that propagation can carry on, and propagation brings
literals together for folding. A round runs both once, and rounds are repeated
until one changes nothing or their number reaches a cap.
-/

/-- A pass over the program. -/
inductive Pass where
  | propagation
  | folding
  deriving DecidableEq

namespace Pass

/-- The name of a pass in messages. -/
def name : Pass → String
  | .propagation => "constant-propagation"
  | .folding => "constant-folding"

/-- The program after a pass. -/
def apply (symbols : Symbols) (program : Program) : Pass → Program
  | .propagation => program.propagate symbols
  | .folding => program.fold

/-- Whether a pass changes the program. -/
def changes (symbols : Symbols) (program : Program) : Pass → Bool
  | .propagation => program.propagates symbols
  | .folding => !program.foldings.isEmpty

/-- The passes of a round, in order. -/
def round : List Pass :=
  [.propagation, .folding]

end Pass

namespace Program

/--
Runs passes one after the other; tells whether any of them changes the program.
-/
def runPasses (symbols : Symbols) : List Pass → Program → Program × Bool
  | [], program => (program, false)
  | pass :: rest, program =>
      let (result, changed) := runPasses symbols rest (pass.apply symbols program)
      (result, pass.changes symbols program || changed)

/-- How many rounds are run at most. -/
def maxRounds : Nat :=
  64

/-- Runs rounds until one changes nothing, at most as many as given. -/
def runRounds (symbols : Symbols) : Nat → Program → Program
  | 0, program => program
  | bound + 1, program =>
      match program.runPasses symbols Pass.round with
      | (result, true) => runRounds symbols bound result
      | (result, false) => result

/-- The program with its constants propagated and folded. -/
def optimize (symbols : Symbols) (program : Program) : Program :=
  runRounds symbols maxRounds program

end Program

end MiniJava
