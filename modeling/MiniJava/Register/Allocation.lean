import MiniJava.Register.Coloring

namespace MiniJava.Register

/-!
# Allocation of slots

The colours of a method's locals become slots after its receiver and
parameters. A temporary that no instruction uses gets no colour and is dropped
from the variable table. A budget of zero leaves everything as it is.
-/

open Code (Method ClassCode Scope Variable)

/-- Gives each coloured local the slot of its colour. -/
def applySlots (method : Method) (colors : Assignment) : Method :=
  { method with
    table := method.table.map fun name entry =>
      match colors[name]? with
      | some color =>
          if entry.scope = .localVar then
            { entry with slot := color + method.baseSlot }
          else
            entry
      | none => entry }

/--
Whether a variable stays in the table: only temporaries without a colour do not.
-/
def keeps (colors : Assignment) (name : String) : Bool :=
  !Code.isTemporaryName name || decide (name ∈ colors)

/-- Drops temporaries without a colour. -/
def dropUnused (method : Method) (colors : Assignment) : Method :=
  { method with table := method.table.filter fun name _ => keeps colors name }

/-- A method with its slots allocated. -/
structure Allocation where
  method : Method
  colors : Assignment

/-- Allocates the slots of a method, unless the budget is zero. -/
def allocate
    (budget : Nat)
    (method : Method) : Except CompileError (Option Allocation) :=
  if budget = 0 then
    .ok none
  else do
    let colors ← color budget method (.ofLiveness (analyze method))
    return some { method := dropUnused (applySlots method colors) colors, colors }

/--
The methods after allocation: those before the first that fails, and
the rest as they were.
-/
def allocateMethods (budget : Nat) : List Method → List Method × Option CompileError
  | [] => ([], none)
  | method :: rest =>
      match allocate budget method with
      | .error error => (method :: rest, some error)
      | .ok allocation? =>
          let allocated := (allocation?.map Allocation.method).getD method
          let (others, error?) := allocateMethods budget rest
          (allocated :: others, error?)

/-- The class after allocation, as far as it came, and the error that stopped it. -/
def allocateClass
    (budget : Nat)
    (unit : ClassCode) : ClassCode × Option CompileError :=
  let (methods, error?) := allocateMethods budget unit.methods
  ({ unit with methods }, error?)

end MiniJava.Register
