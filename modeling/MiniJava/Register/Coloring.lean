import MiniJava.CompileError
import MiniJava.Register.Interference

namespace MiniJava.Register

/-!
# Colouring

The locals of a method share colours: interfering locals get different ones. The
receiver and the parameters keep their slots and do not count.

Locals are first put in order. One with fewer remaining neighbours than there
are colours is taken away, since a colour will be left for it whatever the
others get; where none is left, the first one is taken and may turn out not to
fit. Then they get their colours in the opposite order, each the lowest that no
neighbour has.
-/

open Code (Method)

/-- The colours of variables. -/
abbrev Assignment := Std.ExtTreeMap String Nat

/-- How many colours are in use: one more than the highest. -/
def registersUsed (colors : Assignment) : Nat :=
  colors.toList.foldl (fun count entry => max count (entry.2 + 1)) 0

/-- The nodes to colour: the locals of the method, in order. -/
def candidates (method : Method) (graph : Graph) : List String :=
  graph.nodes.filter fun name =>
    match method.table[name]? with
    | some entry => entry.scope = .localVar
    | none => false

/-- How many neighbours of a name remain. -/
def degreeAmong (graph : Graph) (remaining : List String) (name : String) : Nat :=
  (graph.neighbors name).countP (· ∈ remaining)

/-- A local taken away, and whether it may turn out not to fit. -/
structure Pick where
  name : String
  isSpillCandidate : Bool
  deriving DecidableEq

/-- The local to take away next. -/
def pick? (budget : Nat) (graph : Graph) (remaining : List String) : Option Pick :=
  match remaining.find? fun name => degreeAmong graph remaining name < budget with
  | some name => some ⟨name, false⟩
  | none => remaining.head?.map (⟨·, true⟩)

/-- Takes away as many locals as given, in order. -/
def takeAway
    (budget : Nat)
    (graph : Graph) : (count : Nat) → List String → List Pick
  | 0, _ => []
  | count + 1, remaining =>
      match pick? budget graph remaining with
      | some pick => pick :: takeAway budget graph count (remaining.erase pick.name)
      | none => []

/-- The locals in the order they are taken away. -/
def simplify (budget : Nat) (method : Method) (graph : Graph) : List Pick :=
  let names := candidates method graph
  takeAway budget graph names.length names

/-- The least number that is not in a list. -/
def leastOutside (taken : List Nat) : Nat :=
  ((List.range (taken.length + 1)).find? (· ∉ taken)).getD 0

/--
How far colouring came: the colours in the order they were given,
and where it got stuck.
-/
structure Selection where
  steps : List (String × Nat)
  colors : Assignment
  stuck? : Option String
  deriving DecidableEq

/--
Gives each name in turn the lowest colour that no neighbour has, while there is one.
-/
def select (budget : Nat) (graph : Graph) : Assignment → List String → Selection
  | colors, [] => ⟨[], colors, none⟩
  | colors, name :: rest =>
      let color := leastOutside ((graph.neighbors name).filterMap (colors[·]?))
      if color < budget then
        let selection := select budget graph (colors.insert name color) rest
        { selection with steps := (name, color) :: selection.steps }
      else
        ⟨[], colors, some name⟩

/-- The colouring of a method's locals, with how far it came. -/
def selection (budget : Nat) (method : Method) (graph : Graph) : Selection :=
  select budget graph ∅ ((simplify budget method graph).map Pick.name).reverse

/-- Colours the locals of a method. -/
def color
    (budget : Nat)
    (method : Method)
    (graph : Graph) : Except CompileError Assignment :=
  let selection := selection budget method graph
  match selection.stuck? with
  | none => .ok selection.colors
  | some name => .error (.budgetExceeded method.name name budget)

end MiniJava.Register
