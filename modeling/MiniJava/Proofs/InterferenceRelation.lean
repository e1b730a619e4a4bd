import MiniJava.Proofs.GreedyColors
import MiniJava.Proofs.LivePaths

namespace MiniJava.Register

/-!
# The interference graph as a relation

The graph is built from nodes and edges that are added one after the other, and
much is added more than once. What comes out is determined by its nodes and
edges alone, and each row of the analysis decides for itself which of them it
adds. So the graph does not depend on the order of the rows.

A name is live only where a later instruction reads it, so the live sets bring no
other nodes than the variables that are read.
-/

open Code (Instr Method)

namespace Graph

/-- A graph is determined by its nodes and edges. -/
theorem ext_of_interferes
    {first second : Graph}
    (sameNodes : ∀ name, first.contains name = true ↔ second.contains name = true)
    (sameEdges :
      ∀ name other, first.interferes name other = true ↔
        second.interferes name other = true) :
    first = second := by
  obtain ⟨firstAdjacency⟩ := first
  obtain ⟨secondAdjacency⟩ := second
  congr 1
  refine Std.ExtTreeMap.ext_getElem? fun name => ?_
  have sameNode := sameNodes name
  have sameNeighbors := sameEdges name
  simp only [contains, decide_eq_true_eq, Std.ExtTreeMap.mem_iff_isSome_getElem?]
    at sameNode
  simp only [interferes] at sameNeighbors
  cases firstFound : firstAdjacency[name]? with
  | none =>
      cases secondFound : secondAdjacency[name]? with
      | none => rfl
      | some set => simp [firstFound, secondFound] at sameNode
  | some firstSet =>
      cases secondFound : secondAdjacency[name]? with
      | none => simp [firstFound, secondFound] at sameNode
      | some secondSet =>
          simp only [firstFound, secondFound, decide_eq_true_eq] at sameNeighbors
          rw [Std.ExtTreeSet.ext_mem fun other => sameNeighbors other]

/--
Live sets with the same rows have the same graph, in whatever order
and number the rows come.
-/
theorem ofLiveness_congr
    {first second : Liveness}
    (sameRows :
      ∀ row, row ∈ first.accesses.zip first.rows ↔
        row ∈ second.accesses.zip second.rows) :
    ofLiveness first = ofLiveness second := by
  apply ext_of_interferes
  · intro name
    simp only [contains_ofLiveness, sameRows]
  · intro name other
    simp only [interferes_ofLiveness, sameRows]

end Graph

variable {method : Method} {name : String}

/-- A variable that an instruction needs is read by some instruction. -/
theorem Needed.exists_reader
    {index : Nat}
    (needed : Needed method index name) :
    name ∈ method.table ∧
      ∃ instr ∈ method.instrs, ∃ operand ∈ operandsOf instr,
        operand.name? = some name := by
  obtain ⟨inTable, earlier, reader, path, isRead, _⟩ := needed
  obtain ⟨_, readerPath⟩ := path.drop
  exact ⟨inTable, reader, List.mem_of_getElem? readerPath.head, isRead⟩

/-- An instruction reads or writes a name. -/
def Mentions (instr : Instr) (name : String) : Prop :=
  (∃ operand ∈ operandsOf instr, operand.name? = some name) ∨
    instr.destination? = some name

/--
The nodes of a method's graph are the variables that its instructions read or write.
-/
theorem contains_iff_mentions :
    (Graph.ofLiveness (analyze method)).contains name = true ↔
      name ∈ method.table ∧ ∃ instr ∈ method.instrs, Mentions instr name := by
  constructor
  · intro isNode
    have ofNeeded {index : Nat} (needed : Needed method index name) :
        name ∈ method.table ∧ ∃ instr ∈ method.instrs, Mentions instr name := by
      obtain ⟨inTable, reader, isInstr, isRead⟩ := needed.exists_reader
      exact ⟨inTable, reader, isInstr, .inl isRead⟩
    obtain ⟨index, isBefore | isAfter | ⟨instr, instrAt, isWritten⟩⟩ :=
      contains_analyze.mp isNode
    · exact ofNeeded (liveBefore_iff_needed.mp isBefore)
    · obtain ⟨live, isRow, _⟩ := id isAfter
      obtain ⟨instr, instrAt, _⟩ := exists_liveAt_of_row isRow
      obtain ⟨_, _, needed⟩ := (liveAfter_iff_needed instrAt).mp isAfter
      exact ofNeeded needed
    · rw [Code.writes?_eq, Option.filter_eq_some_iff] at isWritten
      exact ⟨of_decide_eq_true isWritten.2, instr, List.mem_of_getElem? instrAt,
        .inr isWritten.1⟩
  · rintro ⟨inTable, instr, isInstr, mentioned⟩
    obtain ⟨index, instrAt⟩ := List.mem_iff_getElem?.mp isInstr
    obtain ⟨live, liveAt⟩ := exists_liveAt instrAt
    refine liveAt.contains instrAt ?_
    rcases mentioned with isRead | isWritten
    · exact .inl ((liveAt.before name).mpr (.inl (mem_reads.mpr ⟨inTable, isRead⟩)))
    · rw [Code.writes?_eq, isWritten]
      exact .inr (.inr (by simp [inTable]))

/--
The interference graph of a method is the relation between what is written and
what is live afterwards. Its nodes are the variables of the table that some
instruction reads or writes, and two different names interfere exactly if some
instruction writes one of them while the other is live after it. So interference
goes both ways and never from a name to itself, and the instructions may be
visited in any order.
-/
theorem interference_exact
    (method : Method) :
    (∀ name,
      (Graph.ofLiveness (analyze method)).contains name = true ↔
        name ∈ method.table ∧ ∃ instr ∈ method.instrs, Mentions instr name) ∧
    (∀ first second,
      (Graph.ofLiveness (analyze method)).interferes first second = true ↔
        first ≠ second ∧
          ∃ index,
            (WritesAt method index first ∧ LiveAfter method index second) ∨
              (WritesAt method index second ∧ LiveAfter method index first)) ∧
    (∀ first second,
      (Graph.ofLiveness (analyze method)).interferes first second =
        (Graph.ofLiveness (analyze method)).interferes second first) ∧
    (∀ name, (Graph.ofLiveness (analyze method)).interferes name name = false) ∧
    ∀ visited : Liveness,
      (visited.accesses.zip visited.rows).Perm
        ((analyze method).accesses.zip (analyze method).rows) →
      Graph.ofLiveness visited = Graph.ofLiveness (analyze method) := by
  have built := Graph.built_ofLiveness (analyze method)
  refine ⟨fun name => contains_iff_mentions, fun first second => interferes_analyze,
    ?_, ?_, ?_⟩
  · intro first second
    exact Bool.eq_iff_iff.mpr
      ⟨built.interferes_comm first second, built.interferes_comm second first⟩
  · intro name
    by_contra interferes
    exact built.ne_of_interferes (Bool.eq_true_of_not_eq_false interferes) rfl
  · intro visited reordered
    exact Graph.ofLiveness_congr fun row => reordered.mem_iff

/--
A method with a loop, a name outside its table and a local that no instruction uses.
-/
private def revolving : Method where
  name := "revolve"
  isStatic := true
  params := [.var "n" .int]
  returnType := .int
  instrs :=
    [.copy (.var "x" .int) (.var "n" .int),
      .store (.var "y" .int)
        (.binary .add (.var "x" .int) (.var "ghost" .int) .int),
      .store (.var "x" .int) (.binary .sub (.var "y" .int) (.var "n" .int) .int),
      .ret .int (some (.var "x" .int))]
  flow := ⟨[[1], [2], [1, 3], []]⟩
  table :=
    ((((∅ : Code.VariableTable).insert "n" ⟨.int, .param, 0⟩).insert
      "x" ⟨.int, .localVar, 1⟩).insert "y" ⟨.int, .localVar, 2⟩).insert
      "z" ⟨.int, .localVar, 3⟩

/-- The live sets of the method from its last instruction to its first. -/
private def revolvingBackwards : Liveness where
  accesses := (analyze revolving).accesses.reverse
  rows := (analyze revolving).rows.reverse
  passes := 0

/--
The locals of the loop do not interfere with each other though both are live in
it, the unused local is no node, and the graph is the same if it is built from
the last instruction on.
-/
theorem interference_exact_revolving :
    (Graph.ofLiveness (analyze revolving)).interferes "y" "n" = true ∧
      ¬(∃ index, WritesAt revolving index "y" ∧ LiveAfter revolving index "x") ∧
        (¬∃ instr ∈ revolving.instrs, Mentions instr "z") ∧
          (revolvingBackwards.accesses.zip revolvingBackwards.rows).Perm
              ((analyze revolving).accesses.zip (analyze revolving).rows) ∧
            Graph.ofLiveness revolvingBackwards =
              Graph.ofLiveness (analyze revolving) := by
  obtain ⟨nodes, edges, _, _, anyOrder⟩ := interference_exact revolving
  have backwards :
      (revolvingBackwards.accesses.zip revolvingBackwards.rows).Perm
        ((analyze revolving).accesses.zip (analyze revolving).rows) := by
    have sameLength :
        (analyze revolving).accesses.length = (analyze revolving).rows.length := by
      rw [analyze_rows_length, analyze_accesses, List.length_map]
    have reversed :
        revolvingBackwards.accesses.zip revolvingBackwards.rows =
          ((analyze revolving).accesses.zip (analyze revolving).rows).reverse :=
      (List.reverse_zipWith sameLength).symm
    rw [reversed]
    exact List.reverse_perm _
  have computed :
      ((Graph.ofLiveness (analyze revolving)).nodes,
          (Graph.ofLiveness (analyze revolving)).neighbors "y") =
        (["n", "x", "y"], ["n"]) := by
    decide
  obtain ⟨isNodes, isNeighbors⟩ := Prod.mk.inj computed
  refine ⟨?_, ?_, ?_, backwards, anyOrder _ backwards⟩
  · rw [← Graph.mem_neighbors, isNeighbors]
    exact List.mem_singleton_self _
  · rintro ⟨index, both⟩
    have isNeighbor :=
      Graph.mem_neighbors.mpr ((edges "y" "x").mpr ⟨by decide, index, .inl both⟩)
    rw [isNeighbors] at isNeighbor
    exact absurd isNeighbor (by decide)
  · intro mentioned
    have inTable : "z" ∈ revolving.table := by
      decide
    have isNode := Graph.mem_nodes.mpr ((nodes "z").mpr ⟨inTable, mentioned⟩)
    rw [isNodes] at isNode
    exact absurd isNode (by decide)

end MiniJava.Register
