import MiniJava.Tree.Symbols

namespace MiniJava

/-!
# Units of compilation

What the front end hands over: a program, the symbols of its class if it kept
them, and its reports.
-/

/-- How grave a report is. -/
inductive Severity where
  | error
  | warning
  | log
  deriving DecidableEq

/-- A report of the front end. -/
structure Report where
  severity : Severity
  line : UInt64 := 0
  column : UInt64 := 0
  message : String
  deriving DecidableEq

/-- A typed program with its symbols and reports. -/
structure TypedUnit where
  program : Program
  symbols? : Option Symbols := none
  reports : List Report := []

namespace TypedUnit

/-- The symbols that came with the unit, or else those of its program. -/
def symbols (unit : TypedUnit) : Symbols :=
  unit.symbols?.getD (Symbols.ofProgram unit.program)

end TypedUnit

/-- The options of a compilation. -/
structure Options where
  /-- Whether constants are propagated and folded first. -/
  optimize : Bool := false
  /-- How many registers the locals of a method may share. -/
  registers : Option Int32 := none
  deriving DecidableEq

namespace Options

/-- The register budget; zero when registers are not allocated. -/
def budget (options : Options) : Nat :=
  match options.registers with
  | some count => count.toInt.toNat
  | none => 0

end Options

end MiniJava
