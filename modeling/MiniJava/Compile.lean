import MiniJava.Assembly.Generation
import MiniJava.Constant.Rounds
import MiniJava.Lowering.Statement
import MiniJava.Register.Allocation
import MiniJava.Tree.Unit

namespace MiniJava

open Code (ClassCode)

/-!
# Compilation

The way from a typed unit to assembly: a unit with errors is refused, constants
are propagated and folded if asked for, the program is lowered, slots are
allocated if there is a budget, and the class is emitted.
-/

/--
Refuses reports with errors. The first of them gives the position and the message.
-/
def checkReports (reports : List Report) : Except CompileError Unit :=
  let errors := reports.filter (·.severity = .error)
  match errors with
  | [] => .ok ()
  | first :: _ =>
      .error
        (.frontEnd errors.length first.line.toNat first.column.toNat first.message)

/-- The program that is lowered. -/
def TypedUnit.prepared (unit : TypedUnit) (options : Options) : Program :=
  if options.optimize then unit.program.optimize unit.symbols else unit.program

/-- The three-address code of a unit. -/
def TypedUnit.lower
    (unit : TypedUnit)
    (options : Options) : Except CompileError ClassCode := do
  checkReports unit.reports
  (unit.prepared options).lower unit.symbols

/--
The assembly of a class, and the class with the slots that were allocated for it.
-/
def assemble
    (budget : Nat)
    (unit : ClassCode) : ClassCode × Except CompileError String :=
  match Register.allocateClass budget unit with
  | (allocated, some error) => (allocated, .error error)
  | (allocated, none) =>
      (allocated, (Assembly.generate allocated).map Assembly.render)

/-- The assembly of a unit. -/
def TypedUnit.compile
    (unit : TypedUnit)
    (options : Options) : Except CompileError String := do
  let code ← unit.lower options
  (assemble options.budget code).2

end MiniJava
