import MiniJava.Proofs.LiveVariables
import MiniJava.Register.Interference

namespace MiniJava.Register

/-!
# Nodes and edges of the interference graph

The nodes are the names that are live or written at some instruction. Two
different names interfere exactly if an instruction writes one of them while the
other is live after it.
-/

open Code (Instr Method)

namespace Graph

/-- The neighbours of a name are the names it interferes with. -/
theorem mem_neighbors
    {graph : Graph}
    {first second : String} :
    second ∈ graph.neighbors first ↔ graph.interferes first second = true := by
  unfold neighbors interferes
  cases graph.adjacency[first]? with
  | none =>
      simp
  | some set =>
      simp [Std.ExtTreeSet.mem_toList]

theorem mem_nodes
    {graph : Graph}
    {name : String} :
    name ∈ graph.nodes ↔ graph.contains name = true := by
  simp [nodes, contains, Std.ExtTreeMap.mem_keys]

theorem contains_addNode
    {graph : Graph}
    {added name : String} :
    (graph.addNode added).contains name = true ↔
      added = name ∨ graph.contains name = true := by
  simp [contains, addNode, Std.ExtTreeMap.mem_insertIfNew]

theorem interferes_addNode
    {graph : Graph}
    {added first second : String} :
    (graph.addNode added).interferes first second =
      graph.interferes first second := by
  unfold interferes addNode
  simp only [Std.ExtTreeMap.getElem?_insertIfNew]
  by_cases new : compare added first = .eq ∧ added ∉ graph.adjacency
  · obtain ⟨same, absent⟩ := new
    rw [Std.LawfulEqCmp.compare_eq_iff_eq] at same
    subst same
    simp [absent]
  · rw [if_neg new]

theorem contains_link
    {graph : Graph}
    {source target name : String} :
    (graph.link source target).contains name = graph.contains name := by
  simp [contains, link, Std.ExtTreeMap.mem_modify]

/-- A link from a node adds one neighbour. -/
theorem interferes_link
    {graph : Graph}
    {source target first second : String}
    (isNode : graph.contains source = true) :
    (graph.link source target).interferes first second = true ↔
      graph.interferes first second = true ∨
        (source = first ∧ target = second) := by
  unfold interferes link
  simp only [Std.ExtTreeMap.getElem?_modify]
  by_cases same : source = first
  · subst same
    have inside : source ∈ graph.adjacency := by simpa [contains] using isNode
    obtain ⟨set, isSet⟩ := mem_iff_exists_getElem?.mp inside
    simp [isSet, Std.ExtTreeSet.mem_insert, or_comm]
  · simp [same]

/-- An edge adds its two ends. -/
theorem contains_addEdge
    {graph : Graph}
    {source target name : String} :
    (graph.addEdge source target).contains name = true ↔
      graph.contains name = true ∨
        (source ≠ target ∧ (source = name ∨ target = name)) := by
  unfold addEdge
  by_cases same : source = target
  · simp [same]
  · simp only [same, if_false, contains_link, contains_addNode, ne_eq,
      not_false_eq_true, true_and]
    grind

/--
An edge makes its two ends interfere with each other, unless they are one name.
-/
theorem interferes_addEdge
    {graph : Graph}
    {source target first second : String} :
    (graph.addEdge source target).interferes first second = true ↔
      graph.interferes first second = true ∨
        (first ≠ second ∧
          ((source = first ∧ target = second) ∨
            (source = second ∧ target = first))) := by
  unfold addEdge
  by_cases same : source = target
  · rw [if_pos same]
    grind
  · have sourceAdded :
        ((graph.addNode source).addNode target).contains source = true :=
      contains_addNode.mpr (.inr (contains_addNode.mpr (.inl rfl)))
    have targetAdded :
        (((graph.addNode source).addNode target).link source target).contains
          target = true := by
      rw [contains_link]
      exact contains_addNode.mpr (.inl rfl)
    rw [if_neg same, interferes_link targetAdded, interferes_link sourceAdded,
      interferes_addNode, interferes_addNode]
    grind

/--
Two different names conflict where one is written and the other is live afterwards.
-/
def Conflict (access : Access) (live : Live) (first second : String) : Prop :=
  first ≠ second ∧
    ((access.written? = some first ∧ second ∈ live.after) ∨
      (access.written? = some second ∧ first ∈ live.after))

theorem contains_foldl_addNode
    {graph : Graph}
    {names : List String}
    {name : String} :
    (names.foldl addNode graph).contains name = true ↔
      name ∈ names ∨ graph.contains name = true := by
  induction names generalizing graph with
  | nil =>
      simp
  | cons first rest inductionHypothesis =>
      rw [List.foldl_cons, inductionHypothesis, contains_addNode, List.mem_cons]
      grind

theorem interferes_foldl_addNode
    {graph : Graph}
    {names : List String}
    {first second : String} :
    (names.foldl addNode graph).interferes first second =
      graph.interferes first second := by
  induction names generalizing graph with
  | nil =>
      rfl
  | cons head rest inductionHypothesis =>
      rw [List.foldl_cons, inductionHypothesis, interferes_addNode]

theorem contains_foldl_addEdge
    {graph : Graph}
    {source : String}
    {names : List String}
    {name : String}
    (isNode : graph.contains source = true) :
    (names.foldl (addEdge · source) graph).contains name = true ↔
      name ∈ names ∨ graph.contains name = true := by
  induction names generalizing graph with
  | nil =>
      simp
  | cons first rest inductionHypothesis =>
      rw [List.foldl_cons, inductionHypothesis (contains_addEdge.mpr (.inl isNode)),
        contains_addEdge, List.mem_cons]
      grind

theorem interferes_foldl_addEdge
    {graph : Graph}
    {source : String}
    {names : List String}
    {first second : String} :
    (names.foldl (addEdge · source) graph).interferes first second = true ↔
      graph.interferes first second = true ∨
        (first ≠ second ∧
          ((source = first ∧ second ∈ names) ∨
            (source = second ∧ first ∈ names))) := by
  induction names generalizing graph with
  | nil =>
      simp
  | cons head rest inductionHypothesis =>
      rw [List.foldl_cons, inductionHypothesis, interferes_addEdge, List.mem_cons,
        List.mem_cons]
      grind

/-- An instruction adds the names that are live at it or written by it. -/
theorem contains_addRow
    {graph : Graph}
    {access : Access}
    {live : Live}
    {name : String} :
    (graph.addRow access live).contains name = true ↔
      graph.contains name = true ∨
        name ∈ live.before ∨ name ∈ live.after ∨ access.written? = some name := by
  unfold addRow
  cases access.written? with
  | none =>
      simp only [contains_foldl_addNode, List.mem_append, Std.ExtTreeSet.mem_toList]
      grind
  | some written =>
      dsimp only
      rw [contains_foldl_addEdge (contains_addNode.mpr (.inl rfl)),
        contains_addNode, contains_foldl_addNode, List.mem_append,
        Std.ExtTreeSet.mem_toList,
        Std.ExtTreeSet.mem_toList]
      grind

/-- An instruction adds an edge for each conflict at it. -/
theorem interferes_addRow
    {graph : Graph}
    {access : Access}
    {live : Live}
    {first second : String} :
    (graph.addRow access live).interferes first second = true ↔
      graph.interferes first second = true ∨ Conflict access live first second := by
  unfold addRow Conflict
  cases access.written? with
  | none =>
      simp [interferes_foldl_addNode]
  | some written =>
      dsimp only
      rw [interferes_foldl_addEdge, interferes_addNode, interferes_foldl_addNode,
        Std.ExtTreeSet.mem_toList, Std.ExtTreeSet.mem_toList]
      simp

/--
What instructions add to a property of the graph one by one, they add together.
-/
private theorem foldl_addRow
    (property : Graph → Prop)
    (adds : Access → Live → Prop)
    (addRow :
      ∀ graph access live, property (graph.addRow access live) ↔
        property graph ∨ adds access live)
    (rows : List (Access × Live))
    (graph : Graph) :
    property
      (rows.foldl (fun graph (access, live) => graph.addRow access live) graph) ↔
      property graph ∨ ∃ access live, (access, live) ∈ rows ∧ adds access live := by
  induction rows generalizing graph with
  | nil =>
      simp
  | cons row rest inductionHypothesis =>
      rw [List.foldl_cons, inductionHypothesis, addRow]
      grind

/-- The nodes of the graph are the names that are live or written somewhere. -/
theorem contains_ofLiveness
    {liveness : Liveness}
    {name : String} :
    (ofLiveness liveness).contains name = true ↔
      ∃ access live,
        (access, live) ∈ liveness.accesses.zip liveness.rows ∧
          (name ∈ live.before ∨ name ∈ live.after ∨
            access.written? = some name) := by
  have nodes :=
    foldl_addRow (fun graph => graph.contains name = true)
      (fun access live =>
        name ∈ live.before ∨ name ∈ live.after ∨ access.written? = some name)
      (fun _ _ _ => contains_addRow) (liveness.accesses.zip liveness.rows) {}
  rw [ofLiveness, nodes]
  simp [contains]

/-- The edges of the graph are the conflicts at all instructions. -/
theorem interferes_ofLiveness
    {liveness : Liveness}
    {first second : String} :
    (ofLiveness liveness).interferes first second = true ↔
      ∃ access live,
        (access, live) ∈ liveness.accesses.zip liveness.rows ∧
          Conflict access live first second := by
  have edges :=
    foldl_addRow (fun graph => graph.interferes first second = true)
      (fun access live => Conflict access live first second)
      (fun _ _ _ => interferes_addRow) (liveness.accesses.zip liveness.rows) {}
  rw [ofLiveness, edges]
  simp [interferes]

/-- Interference goes both ways. -/
theorem interferes_ofLiveness_comm
    {liveness : Liveness}
    {first second : String}
    (interfere : (ofLiveness liveness).interferes first second = true) :
    (ofLiveness liveness).interferes second first = true := by
  obtain ⟨access, live, isRow, different, conflict⟩ :=
    interferes_ofLiveness.mp interfere
  exact interferes_ofLiveness.mpr
    ⟨access, live, isRow, different.symm, conflict.symm⟩

end Graph

theorem LiveAt.mem_zip
    {method : Method}
    {index : Nat}
    {instr : Instr}
    {live : Live}
    (instrAt : method.instrs[index]? = some instr)
    (liveAt : LiveAt method index instr live) :
    (Access.of method.table instr, live) ∈
      (analyze method).accesses.zip (analyze method).rows := by
  refine List.mem_of_getElem? (List.getElem?_zip_eq_some.mpr ⟨?_, liveAt.row⟩)
  rw [analyze_accesses, List.getElem?_map, instrAt]
  rfl

/-- A name that is live at an instruction or written by it is a node. -/
theorem LiveAt.contains
    {method : Method}
    {index : Nat}
    {instr : Instr}
    {live : Live}
    (instrAt : method.instrs[index]? = some instr)
    (liveAt : LiveAt method index instr live)
    {name : String}
    (used :
      name ∈ live.before ∨ name ∈ live.after ∨
        writes? method.table instr = some name) :
    (Graph.ofLiveness (analyze method)).contains name = true :=
  Graph.contains_ofLiveness.mpr ⟨_, _, liveAt.mem_zip instrAt, used⟩

/--
A name that is written interferes with every other name that is live afterwards.
-/
theorem LiveAt.interferes
    {method : Method}
    {index : Nat}
    {instr : Instr}
    {live : Live}
    (instrAt : method.instrs[index]? = some instr)
    (liveAt : LiveAt method index instr live)
    {written name : String}
    (isWritten : writes? method.table instr = some written)
    (isLive : name ∈ live.after)
    (different : written ≠ name) :
    (Graph.ofLiveness (analyze method)).interferes written name = true :=
  Graph.interferes_ofLiveness.mpr
    ⟨_, _, liveAt.mem_zip instrAt, different, .inl ⟨isWritten, isLive⟩⟩

/-- The rows of the analysis are those of the instructions. -/
theorem exists_liveAt_of_row
    {method : Method}
    {index : Nat}
    {live : Live}
    (isRow : (analyze method).rows[index]? = some live) :
    ∃ instr, method.instrs[index]? = some instr ∧
      LiveAt method index instr live := by
  have inside : index < method.instrs.length := by
    rw [← analyze_rows_length]
    exact (List.getElem?_eq_some_iff.mp isRow).1
  obtain ⟨found, liveAt⟩ := exists_liveAt (List.getElem?_eq_getElem inside)
  cases Option.some.inj (liveAt.row.symm.trans isRow)
  exact ⟨_, List.getElem?_eq_getElem inside, liveAt⟩

theorem exists_liveAt_of_mem_zip
    {method : Method}
    {access : Access}
    {live : Live}
    (member :
      (access, live) ∈ (analyze method).accesses.zip (analyze method).rows) :
    ∃ index instr,
      method.instrs[index]? = some instr ∧ access = Access.of method.table instr ∧
        LiveAt method index instr live := by
  obtain ⟨index, found⟩ := List.mem_iff_getElem?.mp member
  obtain ⟨accessAt, isRow⟩ := List.getElem?_zip_eq_some.mp found
  obtain ⟨instr, instrAt, liveAt⟩ := exists_liveAt_of_row isRow
  rw [analyze_accesses, List.getElem?_map, instrAt] at accessAt
  cases accessAt
  exact ⟨index, instr, instrAt, rfl, liveAt⟩

/-- The instruction at an index writes a variable. -/
def WritesAt (method : Method) (index : Nat) (name : String) : Prop :=
  ∃ instr, method.instrs[index]? = some instr ∧
    writes? method.table instr = some name

/-- A variable is live before the instruction at an index. -/
def LiveBefore (method : Method) (index : Nat) (name : String) : Prop :=
  ∃ live, (analyze method).rows[index]? = some live ∧ name ∈ live.before

/-- A variable is live after the instruction at an index. -/
def LiveAfter (method : Method) (index : Nat) (name : String) : Prop :=
  ∃ live, (analyze method).rows[index]? = some live ∧ name ∈ live.after

/--
The nodes of a method's graph are the names that are live or written somewhere.
-/
theorem contains_analyze
    {method : Method}
    {name : String} :
    (Graph.ofLiveness (analyze method)).contains name = true ↔
      ∃ index,
        LiveBefore method index name ∨ LiveAfter method index name ∨
          WritesAt method index name := by
  constructor
  · intro isNode
    obtain ⟨access, live, isRow, used⟩ := Graph.contains_ofLiveness.mp isNode
    obtain ⟨index, instr, instrAt, rfl, liveAt⟩ := exists_liveAt_of_mem_zip isRow
    refine ⟨index, ?_⟩
    rcases used with isBefore | isAfter | isWritten
    · exact .inl ⟨live, liveAt.row, isBefore⟩
    · exact .inr (.inl ⟨live, liveAt.row, isAfter⟩)
    · exact .inr (.inr ⟨instr, instrAt, isWritten⟩)
  · rintro ⟨index, ⟨live, isRow, isBefore⟩ | ⟨live, isRow, isAfter⟩
      | ⟨instr, instrAt, isWritten⟩⟩
    · obtain ⟨instr, instrAt, liveAt⟩ := exists_liveAt_of_row isRow
      exact liveAt.contains instrAt (.inl isBefore)
    · obtain ⟨instr, instrAt, liveAt⟩ := exists_liveAt_of_row isRow
      exact liveAt.contains instrAt (.inr (.inl isAfter))
    · obtain ⟨live, liveAt⟩ := exists_liveAt instrAt
      exact liveAt.contains instrAt (.inr (.inr isWritten))

/--
Names interfere in a method's graph if one is written where the
other is live afterwards.
-/
theorem interferes_analyze
    {method : Method}
    {first second : String} :
    (Graph.ofLiveness (analyze method)).interferes first second = true ↔
      first ≠ second ∧
        ∃ index,
          (WritesAt method index first ∧ LiveAfter method index second) ∨
            (WritesAt method index second ∧ LiveAfter method index first) := by
  constructor
  · intro interfere
    obtain ⟨access, live, isRow, different, conflict⟩ :=
      Graph.interferes_ofLiveness.mp interfere
    obtain ⟨index, instr, instrAt, rfl, liveAt⟩ := exists_liveAt_of_mem_zip isRow
    refine ⟨different, index, conflict.imp ?_ ?_⟩
    · exact fun both => ⟨⟨instr, instrAt, both.1⟩, live, liveAt.row, both.2⟩
    · exact fun both => ⟨⟨instr, instrAt, both.1⟩, live, liveAt.row, both.2⟩
  · have oneWay {written name : String} {index : Nat}
        (different : written ≠ name)
        (writes : WritesAt method index written)
        (isLive : LiveAfter method index name) :
        (Graph.ofLiveness (analyze method)).interferes written name = true := by
      obtain ⟨instr, instrAt, isWritten⟩ := writes
      obtain ⟨live, isRow, isAfter⟩ := isLive
      obtain ⟨found, foundAt, liveAt⟩ := exists_liveAt_of_row isRow
      cases Option.some.inj (foundAt.symm.trans instrAt)
      exact liveAt.interferes instrAt isWritten isAfter different
    rintro ⟨different, index, ⟨writes, isLive⟩ | ⟨writes, isLive⟩⟩
    · exact oneWay different writes isLive
    · exact Graph.interferes_ofLiveness_comm (oneWay different.symm writes isLive)

end MiniJava.Register
