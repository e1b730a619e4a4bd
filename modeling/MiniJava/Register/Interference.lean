import MiniJava.Register.Liveness

namespace MiniJava.Register

/-!
# Interference

Two variables interfere if one is written where the other is live afterwards,
so that they cannot share a slot. Edges are only added in both directions, and
never from a variable to itself.
-/

/-- An interference graph: the neighbours of each node. -/
structure Graph where
  adjacency : Std.ExtTreeMap String NameSet := ∅
  deriving DecidableEq

namespace Graph

/-- Adds a node, unless it is there. -/
def addNode (graph : Graph) (name : String) : Graph :=
  ⟨graph.adjacency.insertIfNew name ∅⟩

/-- Adds one name to the neighbours of a node. -/
def link (graph : Graph) (source target : String) : Graph :=
  ⟨graph.adjacency.modify source (·.insert target)⟩

/-- Adds an edge between two different names, with their nodes. -/
def addEdge (graph : Graph) (first second : String) : Graph :=
  if first = second then
    graph
  else
    (((graph.addNode first).addNode second).link first second).link second first

/-- Whether a name is a node. -/
def contains (graph : Graph) (name : String) : Bool :=
  decide (name ∈ graph.adjacency)

/-- Whether two names interfere. -/
def interferes (graph : Graph) (first second : String) : Bool :=
  match graph.adjacency[first]? with
  | some neighbors => decide (second ∈ neighbors)
  | none => false

/-- The nodes in order. -/
def nodes (graph : Graph) : List String :=
  graph.adjacency.keys

/-- The neighbours of a name in order. -/
def neighbors (graph : Graph) (name : String) : List String :=
  match graph.adjacency[name]? with
  | some neighbors => neighbors.toList
  | none => []

/-- The number of neighbours of a name. -/
def degree (graph : Graph) (name : String) : Nat :=
  (graph.neighbors name).length

/-- The graph with what one instruction adds to it. -/
def addRow (graph : Graph) (access : Access) (live : Live) : Graph :=
  let graph := (live.before.toList ++ live.after.toList).foldl addNode graph
  match access.written? with
  | some name => live.after.toList.foldl (addEdge · name) (graph.addNode name)
  | none => graph

/-- The graph of a method's live sets. -/
def ofLiveness (liveness : Liveness) : Graph :=
  (liveness.accesses.zip liveness.rows).foldl
    (fun graph (access, live) => graph.addRow access live)
    {}

/-- The text of a graph, with a line for each node. -/
def text (graph : Graph) : String :=
  String.join (graph.adjacency.toList.map fun (name, neighbors) =>
    name ++ ": \x7b" ++ ", ".intercalate neighbors.toList ++ "\x7d\n")

end Graph

end MiniJava.Register
