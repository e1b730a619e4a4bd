import MiniJava.Proofs.Coloring

namespace MiniJava.Register

/-!
# Colours are given greedily

Names get their colours one after the other, each the lowest that no neighbour
has so far. A colour is never taken back, so in the end every name still has a
neighbour of each lower colour, and no colour below the highest is left out.
Where no colour is left for a name, those that were coloured before it account
for all of them.
-/

open Code (Method)

namespace Graph

/-- A graph to which nodes and edges were added one by one. -/
inductive Built : Graph → Prop where
  | empty : Built {}
  | addNode {graph : Graph} (name : String) (built : Built graph) :
      Built (graph.addNode name)
  | addEdge {graph : Graph} (first second : String) (built : Built graph) :
      Built (graph.addEdge first second)

namespace Built

variable {graph : Graph}

/-- In a graph that was built, interference goes both ways. -/
theorem interferes_comm
    (built : graph.Built)
    (first second : String)
    (interfere : graph.interferes first second = true) :
    graph.interferes second first = true := by
  induction built with
  | empty =>
      simp [interferes] at interfere
  | addNode name built inductionHypothesis =>
      rw [interferes_addNode] at interfere ⊢
      exact inductionHypothesis interfere
  | addEdge source target built inductionHypothesis =>
      rw [interferes_addEdge] at interfere ⊢
      rcases interfere with interfere | ⟨different, isEdge⟩
      · exact .inl (inductionHypothesis interfere)
      · exact .inr ⟨different.symm, isEdge.symm⟩

theorem ne_of_interferes
    (built : graph.Built)
    {first second : String}
    (interfere : graph.interferes first second = true) :
    first ≠ second := by
  induction built with
  | empty =>
      simp [interferes] at interfere
  | addNode name built inductionHypothesis =>
      rw [interferes_addNode] at interfere
      exact inductionHypothesis interfere
  | addEdge source target built inductionHypothesis =>
      rw [interferes_addEdge] at interfere
      rcases interfere with interfere | ⟨different, _⟩
      · exact inductionHypothesis interfere
      · exact different

/-- What builds on a built graph item by item ends with a built graph. -/
theorem foldl
    {α : Type}
    {add : Graph → α → Graph}
    (adds : ∀ graph item, graph.Built → (add graph item).Built)
    (built : graph.Built)
    (items : List α) :
    (items.foldl add graph).Built := by
  induction items generalizing graph with
  | nil =>
      exact built
  | cons item rest inductionHypothesis =>
      exact inductionHypothesis (adds graph item built)

theorem addRow
    (built : graph.Built)
    (access : Access)
    (live : Live) :
    (graph.addRow access live).Built := by
  have withLive := built.foldl (fun _ name built => built.addNode name)
    (live.before.toList ++ live.after.toList)
  unfold Graph.addRow
  cases access.written? with
  | none =>
      exact withLive
  | some written =>
      exact (withLive.addNode written).foldl
        (fun _ name built => built.addEdge written name) _

end Built

/-- The graph of a method's live sets is built from nodes and edges. -/
theorem built_ofLiveness
    (liveness : Liveness) :
    (ofLiveness liveness).Built :=
  Built.empty.foldl (fun _ row built => built.addRow row.1 row.2) _

end Graph

variable {budget : Nat} {method : Method} {graph : Graph} {colors : Assignment}

/-- A variable of the table that is a local. -/
def IsLocal (method : Method) (name : String) : Prop :=
  ∃ entry, method.table[name]? = some entry ∧ entry.scope = .localVar

theorem IsLocal.mem_table
    {method : Method}
    {name : String}
    (isLocal : IsLocal method name) :
    name ∈ method.table := by
  obtain ⟨entry, isEntry, _⟩ := isLocal
  exact mem_iff_exists_getElem?.mpr ⟨entry, isEntry⟩

/-- A node of the graph that is a local of the method. -/
def LocalNode (method : Method) (graph : Graph) (name : String) : Prop :=
  graph.contains name = true ∧ IsLocal method name

/-- A neighbour of the name has the colour. -/
def NeighborHas
    (graph : Graph)
    (colors : Assignment)
    (name : String)
    (color : Nat) : Prop :=
  ∃ neighbor, graph.interferes name neighbor = true ∧ colors[neighbor]? = some color

theorem mem_neighborColors
    {name : String}
    {color : Nat} :
    color ∈ (graph.neighbors name).filterMap (colors[·]?) ↔
      NeighborHas graph colors name color := by
  simp [NeighborHas, Graph.mem_neighbors]

/-- Below the lowest free colour of a name, its neighbours have all colours. -/
theorem neighborHas_of_lt
    {name : String}
    {number : Nat}
    (lower : number < freeColor graph colors name) :
    NeighborHas graph colors name number :=
  mem_neighborColors.mp (mem_of_lt_leastOutside lower)

/-- Every coloured name has a neighbour of each lower colour. -/
def Greedy (graph : Graph) (colors : Assignment) : Prop :=
  ∀ name color, colors[name]? = some color → ∀ lower < color,
    NeighborHas graph colors name lower

/-- A name that gets its first colour leaves all colours that others have. -/
theorem NeighborHas.insert
    {name other : String}
    {color number : Nat}
    (has : NeighborHas graph colors other number)
    (new : name ∉ colors) :
    NeighborHas graph (colors.insert name color) other number := by
  obtain ⟨neighbor, interfere, isColor⟩ := has
  have different : name ≠ neighbor := by
    rintro rfl
    exact new (mem_iff_exists_getElem?.mpr ⟨number, isColor⟩)
  exact ⟨neighbor, interfere,
    by simp [Std.ExtTreeMap.getElem?_insert, different, isColor]⟩

/-- A new name may get the lowest colour that no neighbour has. -/
theorem Greedy.insert
    {name : String}
    (greedy : Greedy graph colors)
    (new : name ∉ colors) :
    Greedy graph (colors.insert name (freeColor graph colors name)) := by
  intro other color isColor lower isLower
  simp only [Std.ExtTreeMap.getElem?_insert, Std.LawfulEqCmp.compare_eq_iff_eq]
    at isColor
  split at isColor
  case isTrue same =>
    subst same
    cases isColor
    exact (neighborHas_of_lt isLower).insert new
  case isFalse =>
    exact (greedy other color isColor lower isLower).insert new

/-- The colours that are found are greedy. -/
theorem color_greedy
    (colored : color budget method graph = .ok colors) :
    Greedy graph colors := by
  obtain ⟨_, rfl⟩ := color_eq_ok_iff.mp colored
  apply selection_induction
  · intro name color isColor
    simp at isColor
  · intro colors name greedy new _
    exact greedy.insert new

theorem mem_coloringOrder
    {name : String} :
    name ∈ coloringOrder budget method graph ↔ LocalNode method graph name :=
  coloringOrder_perm.mem_iff.trans mem_candidates

/--
A colouring fails at a name for which no colour is left: the locals that come
before it in the order are coloured, and its neighbours among them have just the
colours of the budget.
-/
theorem color_error
    {error : CompileError}
    (failed : color budget method graph = .error error) :
    ∃ name done rest,
      error = .budgetExceeded method.name name budget ∧
        coloringOrder budget method graph = done ++ name :: rest ∧
          (∀ other, other ∈ (selection budget method graph).colors ↔ other ∈ done) ∧
            ∀ number,
              NeighborHas graph (selection budget method graph).colors name number ↔
                number < budget := by
  obtain ⟨name, isStuck, isError⟩ := color_eq_error_iff.mp failed
  obtain ⟨rest, ⟨done, isOrder, isDone⟩, isNext, full⟩ :=
    selection_ends budget method graph
  have isFirst : rest.head? = some name := isNext.symm.trans isStuck
  obtain ⟨later, rfl⟩ := List.head?_eq_some_iff.mp isFirst
  refine ⟨name, done, later, isError, isOrder, isDone, fun number =>
    ⟨?_, fun lower => ?_⟩⟩
  · rintro ⟨neighbor, _, isColor⟩
    exact selection_lt isColor
  · exact neighborHas_of_lt (Nat.lt_of_lt_of_le lower (full name isFirst))

/--
Greedy colours leave none out: those in use are the numbers below
the registers in use.
-/
theorem Greedy.registersUsed_eq
    (greedy : Greedy graph colors) :
    registersUsed colors = (colors.toList.map Prod.snd).toFinset.card := by
  have isRange :
      (colors.toList.map Prod.snd).toFinset =
        Finset.range (registersUsed colors) := by
    ext number
    have inUse :
        number ∈ (colors.toList.map Prod.snd).toFinset ↔
          ∃ name : String, colors[name]? = some number := by
      simp [Std.ExtTreeMap.mem_toList_iff_getElem?_eq_some]
    rw [inUse, Finset.mem_range]
    constructor
    · rintro ⟨name, isColor⟩
      exact registersUsed_le_iff.mp (Nat.le_refl _) name number isColor
    · -- Some colour is at least as high, and below it none is left out.
      intro lower
      have higher :
          ∃ (name : String) (color : Nat), colors[name]? = some color ∧
            number ≤ color := by
        by_contra none
        push Not at none
        exact absurd (registersUsed_le_iff.mpr none) (Nat.not_le_of_lt lower)
      obtain ⟨name, color, isColor, isHigher⟩ := higher
      rcases Nat.eq_or_lt_of_le isHigher with rfl | isLower
      · exact ⟨name, isColor⟩
      · obtain ⟨neighbor, _, hasNumber⟩ := greedy name color isColor number isLower
        exact ⟨neighbor, hasNumber⟩
  rw [isRange, Finset.card_range]

/--
Colouring is proper, complete and greedy. If it succeeds, just the locals that
are nodes have colours, all below the budget; interfering names have different
colours, every name has a neighbour of each lower colour, and so the registers in
use are as many as the colours in use. If it fails, the budget is exceeded by a
local, and its neighbours among those coloured before it use all colours.
-/
theorem colors_proper_greedy
    (built : graph.Built)
    (budget : Nat)
    (method : Method) :
    (∀ colors, color budget method graph = .ok colors →
      (∀ name, name ∈ colors ↔ graph.contains name = true ∧ IsLocal method name) ∧
        (∀ (name : String) (number : Nat), colors[name]? = some number →
          number < budget) ∧
        (∀ (first second : String) (firstColor secondColor : Nat),
          graph.interferes first second = true →
          colors[first]? = some firstColor →
          colors[second]? = some secondColor →
          firstColor ≠ secondColor) ∧
        (∀ (name : String) (number : Nat), colors[name]? = some number →
          ∀ lower < number,
            ∃ neighbor,
              graph.interferes name neighbor = true ∧
                colors[neighbor]? = some lower) ∧
        registersUsed colors = (colors.toList.map Prod.snd).toFinset.card) ∧
      ∀ error, color budget method graph = .error error →
        ∃ name done rest,
          error = .budgetExceeded method.name name budget ∧
            (graph.contains name = true ∧ IsLocal method name) ∧
            coloringOrder budget method graph = done ++ name :: rest ∧
            (∀ other, other ∈ (selection budget method graph).colors ↔
              other ∈ done) ∧
            ∀ number,
              (∃ neighbor,
                graph.interferes name neighbor = true ∧
                  (selection budget method graph).colors[neighbor]? = some number) ↔
                number < budget := by
  constructor
  · intro colors colored
    obtain ⟨proper, complete⟩ := color_ok built.interferes_comm colored
    have greedy := color_greedy colored
    refine ⟨fun name => (complete name).trans mem_candidates,
      fun _ _ => color_lt colored, ?_, greedy, greedy.registersUsed_eq⟩
    intro first second firstColor secondColor interfere
    exact proper first second firstColor secondColor interfere
      (built.ne_of_interferes interfere)
  · intro error failed
    obtain ⟨name, done, rest, isError, isOrder, colored, full⟩ := color_error failed
    have isLocal : LocalNode method graph name :=
      mem_coloringOrder.mp (by rw [isOrder]; simp)
    exact ⟨name, done, rest, isError, isLocal, isOrder, colored, full⟩

/-- Four locals in a ring, all of them live together with a parameter. -/
private def ring : Graph :=
  ["a", "b", "c", "d"].foldl (fun graph name => graph.addEdge name "p")
    (((((({} : Graph).addEdge "a" "b").addEdge "b" "c").addEdge "c" "d").addEdge "d"
      "a").addNode "p")

/-- The graph is built by adding its edges. -/
private theorem ring_built :
    ring.Built :=
  (((((Graph.Built.empty.addEdge "a" "b").addEdge "b" "c").addEdge "c" "d").addEdge
    "d" "a").addNode "p").foldl (fun _ name built => built.addEdge name "p") _

private def ringMethod : Method where
  name := "ring"
  isStatic := true
  params := [.var "p" .int]
  returnType := .int
  table :=
    ((((((∅ : Code.VariableTable).insert "p" ⟨.int, .param, 0⟩).insert
      "a" ⟨.int, .localVar, 1⟩).insert "b" ⟨.int, .localVar, 2⟩).insert
      "c" ⟨.int, .localVar, 3⟩).insert "d" ⟨.int, .localVar, 4⟩)

/--
Two colours are enough for the ring, though each local has two neighbours, and
the parameter gets none. One colour is not enough.
-/
theorem colors_proper_greedy_ring :
    ring.Built ∧
      (∃ colors,
        color 2 ringMethod ring = .ok colors ∧
          colors.toList = [("a", 1), ("b", 0), ("c", 1), ("d", 0)] ∧
            ¬(ring.contains "p" = true ∧ IsLocal ringMethod "p") ∧
              registersUsed colors = 2) ∧
        color 1 ringMethod ring = .error (.budgetExceeded "ring" "c" 1) ∧
          ∃ neighbor,
            ring.interferes "c" neighbor = true ∧
              (selection 1 ringMethod ring).colors[neighbor]? = some 0 := by
  have withTwo :
      color 2 ringMethod ring =
        .ok
          (((((∅ : Assignment).insert "d" 0).insert "c" 1).insert "b" 0).insert "a"
            1) := by
    decide +kernel
  have withOne :
      color 1 ringMethod ring = .error (.budgetExceeded "ring" "c" 1) := by
    decide +kernel
  obtain ⟨complete, _, _, _, inUse⟩ :=
    (colors_proper_greedy ring_built 2 ringMethod).1 _ withTwo
  obtain ⟨name, _, _, isError, _, _, _, full⟩ :=
    (colors_proper_greedy ring_built 1 ringMethod).2 _ withOne
  cases isError
  refine ⟨ring_built, ⟨_, withTwo, by decide +kernel, ?_, ?_⟩, withOne,
    (full 0).mpr (by decide)⟩
  · rw [← complete]
    decide +kernel
  · rw [inUse]
    decide +kernel

end MiniJava.Register
