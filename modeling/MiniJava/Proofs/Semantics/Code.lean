import Mathlib.Logic.Function.Basic
import MiniJava.Code.Method
import MiniJava.Proofs.Semantics.Run

namespace MiniJava.Code

/-!
# The meaning of three-address code

Instructions run one after the other on a store. Where a variable is kept is
left open: a store over names keeps each variable under its own name, and a
store over slots keeps it in the slot that the variable table gives it.
-/

/-- The contents of places; a place that was never written may be empty. -/
abbrev Store (Place : Type) := Place → Option Value

/-- An environment, and the places where variables are kept. -/
structure Setting (Event Place : Type) extends Environment Event where
  locate : String → Option Place

namespace Setting

variable {Event Place : Type} [DecidableEq Place]

/-- Variables under their own names. -/
def overNames (environment : Environment Event) : Setting Event String :=
  { environment with locate := some }

/-- Variables under their own names, as far as they are in the table of a method. -/
def overTable
    (environment : Environment Event)
    (method : Method) : Setting Event String :=
  { environment with locate := fun name => if name ∈ method.table then some name
    else none }

/-- Variables in the slots that the table of a method gives them. -/
def overSlots
    (environment : Environment Event)
    (method : Method) : Setting Event Nat :=
  { environment with locate := method.slot? }

/-- What an operand holds. -/
def held (setting : Setting Event Place) (store : Store Place) : Operand → Held
  | .var name type => .ofContent type ((setting.locate name).bind store)
  | .literal value type => ⟨type, some (.int value)⟩

/--
What a call is made on: static calls name a class, all others have a receiver.
-/
def callee
    (setting : Setting Event Place)
    (store : Store Place)
    (kind : CallKind)
    (target : Operand) :
    Run Event Callee :=
  if kind = .static then
    Callee.ofClass <$> Run.require target.name?
  else
    pure (.object (setting.held store target))

/-- The value of an instruction. -/
def compute
    (setting : Setting Event Place)
    (store : Store Place) : Instr → Run Event Value
  | .single operand => Run.require (setting.held store operand).value?
  | .binary operator left right _ =>
      operator.operate (setting.held store left) (setting.held store right)
  | .call kind target method arguments result => do
      let callee ← setting.callee store kind target
      setting.callValue kind callee method
        (arguments.map (setting.held store)) result
  | .newObject className _ => setting.newObject className
  | .newArray size type => setting.newArray type (setting.held store size)
  | .element array index _ =>
      setting.element (setting.held store array) (setting.held store index)
  | .length array _ => setting.length (setting.held store array)
  | .getField object field => setting.getField (setting.held store object) field
  | .assign _ _ _ => throw .illTyped
  | .ret _ _ => throw .illTyped
  | .putField _ _ _ => throw .illTyped

/-- The store after a value is written to a destination of its kind. -/
def write
    (setting : Setting Event Place)
    (store : Store Place)
    (value : Value) :
    Operand → Run Event (Store Place)
  | .var name type => do
      let place ← Run.require (setting.locate name)
      if value.fits type then
        return Function.update store place (some value)
      else
        throw .illTyped
  | .literal _ _ => throw .illTyped

/--
Runs an instruction: a return ends the run, and a value that is not
assigned is dropped.
-/
def exec (setting : Setting Event Place) (store : Store Place) :
    Instr → Run Event (Store Place)
  | .assign dest _ source => do
      let value ← setting.compute store source
      setting.write store value dest
  | .call kind target method arguments result => do
      let callee ← setting.callee store kind target
      let _ ← setting.invoke kind callee method
        (arguments.map (setting.held store)) result
      return store
  | .putField object field stored => do
      setting.putField (setting.held store object) field (setting.held store stored)
      return store
  | .ret type (some operand) => do
      let value ← Run.require (setting.held store operand).value?
      if value.fits type then throw (.returned (some value)) else throw .illTyped
  | .ret _ none => throw (.returned none)
  | other => do
      let _ ← setting.compute store other
      return store

/-- Runs instructions in order. -/
def execAll (setting : Setting Event Place) (store : Store Place) :
    List Instr → Run Event (Store Place)
  | [] => return store
  | first :: rest => do
      let store ← setting.exec store first
      setting.execAll store rest

/-- Instructions run one part after the other. -/
theorem execAll_append
    (setting : Setting Event Place)
    (store : Store Place)
    (first second : List Instr) :
    setting.execAll store (first ++ second) =
      (do
        let store ← setting.execAll store first
        setting.execAll store second) := by
  induction first generalizing store with
  | nil =>
      rfl
  | cons instr rest inductionHypothesis =>
      simp [execAll, inductionHypothesis]

/-- The outcome and events of instructions that are run in order. -/
def behaviour
    (setting : Setting Event Place)
    (store : Store Place)
    (instrs : List Instr) :
    Outcome × List Event :=
  (setting.execAll store instrs).behaviour .endOfBody

end Setting

end MiniJava.Code
