import MiniJava.Proofs.GreedyColors

namespace MiniJava.Register

/-!
# Sparse graphs can be coloured

A graph is sparse for a number of colours if every set of its locals has one with
fewer neighbours in the set. Just then a local can always be taken away that is
sure to fit. The neighbours that such a local will find coloured are those that
remained when it was taken away, so one of the colours is left for it.
-/

open Code (Method)

variable {budget : Nat} {method : Method} {graph : Graph}

/-- How many of some names interfere with a name. -/
def neighborsIn (graph : Graph) (names : Finset String) (name : String) : Nat :=
  (names.filter fun other => graph.interferes name other = true).card

/--
Every set of locals has one with fewer neighbours in the set than there are colours.
-/
def Sparse (budget : Nat) (method : Method) (graph : Graph) : Prop :=
  ∀ names : Finset String,
    names.Nonempty →
    (∀ name ∈ names, LocalNode method graph name) →
    ∃ name ∈ names, neighborsIn graph names name < budget

/-- Among more names there are no fewer neighbours. -/
theorem neighborsIn_mono
    {names more : Finset String}
    (within : names ⊆ more)
    (name : String) :
    neighborsIn graph names name ≤ neighborsIn graph more name :=
  Finset.card_le_card (Finset.filter_subset_filter _ within)

/--
In a built graph a member of a set has fewer neighbours in it than
the set has members.
-/
theorem neighborsIn_lt_card
    (built : graph.Built)
    {names : Finset String}
    {name : String}
    (member : name ∈ names) :
    neighborsIn graph names name < names.card := by
  apply Finset.card_lt_card
  rw [Finset.filter_ssubset]
  exact ⟨name, member, fun interfere => built.ne_of_interferes interfere rfl⟩

theorem Graph.nodup_neighbors
    (graph : Graph)
    (name : String) :
    (graph.neighbors name).Nodup := by
  unfold Graph.neighbors
  split
  · exact Std.ExtTreeSet.distinct_toList.imp fun different same =>
      different (by simp [same])
  · exact List.nodup_nil

/-- The degree of a name is the number of its neighbours. -/
theorem degreeAmong_eq
    (remaining : List String)
    (name : String) :
    degreeAmong graph remaining name =
      neighborsIn graph remaining.toFinset name := by
  have sameNames :
      ((graph.neighbors name).filter (· ∈ remaining)).toFinset =
        remaining.toFinset.filter fun other => graph.interferes name other =
          true := by
    ext other
    simp [Graph.mem_neighbors, and_comm]
  have distinct := (graph.nodup_neighbors name).filter (· ∈ remaining)
  rw [degreeAmong, neighborsIn, List.countP_eq_length_filter, ← sameNames,
    List.toFinset_card_of_nodup distinct]

/--
A local is taken from some names because it has few neighbours, or because none has.
-/
def Pick.From
    (budget : Nat)
    (graph : Graph)
    (names : Finset String)
    (pick : Pick) : Prop :=
  (pick.isSpillCandidate = false ∧ neighborsIn graph names pick.name < budget) ∨
    (pick.isSpillCandidate = true ∧ ∀ name ∈ names,
      budget ≤ neighborsIn graph names name)

/-- A pick is made from the names that remain. -/
theorem pick?_from
    {remaining : List String}
    {pick : Pick}
    (picked : pick? budget graph remaining = some pick) :
    pick.From budget graph remaining.toFinset := by
  unfold pick? at picked
  split at picked
  case h_1 name found =>
    cases picked
    have few := List.find?_some found
    simp only [degreeAmong_eq, decide_eq_true_eq] at few
    exact .inl ⟨rfl, few⟩
  case h_2 notFound =>
    obtain ⟨name, _, rfl⟩ := Option.map_eq_some_iff.mp picked
    refine .inr ⟨rfl, fun other member => ?_⟩
    have many := List.find?_eq_none.mp notFound other (List.mem_toFinset.mp member)
    simpa [degreeAmong_eq] using many

/-- The names of picks. -/
def pickedNames (picks : List Pick) : Finset String :=
  (picks.map Pick.name).toFinset

/-- Each local is taken from itself and those that are taken away after it. -/
theorem takeAway_from
    {count : Nat}
    {remaining : List String}
    (isCount : remaining.length = count)
    {before after : List Pick}
    {pick : Pick}
    (isSplit : takeAway budget graph count remaining = before ++ pick :: after) :
    pick.From budget graph (pickedNames (pick :: after)) := by
  induction count generalizing remaining before with
  | zero =>
      simp [takeAway] at isSplit
  | succ count inductionHypothesis =>
      have allTaken :
          ((takeAway budget graph (count + 1) remaining).map Pick.name).Perm
            remaining :=
        takeAway_perm isCount
      unfold takeAway at isSplit allTaken
      cases picked : pick? budget graph remaining with
      | none =>
          simp [picked] at isSplit
      | some first =>
          simp only [picked] at isSplit allTaken
          cases before with
          | nil =>
              obtain ⟨rfl, rfl⟩ := List.cons.inj isSplit
              rw [pickedNames, List.toFinset_eq_of_perm _ _ allTaken]
              exact pick?_from picked
          | cons _ before =>
              have fewer : (remaining.erase first.name).length = count := by
                rw [List.length_erase_of_mem (pick?_mem picked), isCount]
                rfl
              exact inductionHypothesis fewer (List.cons.inj isSplit).2

theorem simplify_from
    {before after : List Pick}
    {pick : Pick}
    (isSplit : simplify budget method graph = before ++ pick :: after) :
    pick.From budget graph (pickedNames (pick :: after)) :=
  takeAway_from rfl isSplit

theorem mem_pickedNames_simplify
    (budget : Nat)
    {name : String} :
    name ∈ pickedNames (simplify budget method graph) ↔
      LocalNode method graph name := by
  rw [pickedNames, List.mem_toFinset, ← List.mem_reverse]
  exact mem_coloringOrder

/-- In a sparse graph every local is taken away because it has few neighbours. -/
theorem Sparse.taken
    (sparse : Sparse budget method graph)
    {before after : List Pick}
    {pick : Pick}
    (isSplit : simplify budget method graph = before ++ pick :: after) :
    pick.isSpillCandidate = false ∧
      neighborsIn graph (pickedNames (pick :: after)) pick.name < budget := by
  rcases simplify_from isSplit with few | ⟨_, many⟩
  · exact few
  · have nonempty : (pickedNames (pick :: after)).Nonempty :=
      ⟨pick.name, by simp [pickedNames]⟩
    have locals :
        ∀ name ∈ pickedNames (pick :: after), LocalNode method graph name := by
      intro name member
      rw [← mem_pickedNames_simplify budget, isSplit]
      simp only [pickedNames, List.map_append, List.mem_toFinset] at member ⊢
      exact List.mem_append_right _ member
    obtain ⟨name, member, few⟩ := sparse _ nonempty locals
    exact absurd few (Nat.not_lt_of_le (many name member))

/--
If every local is taken away because it has few neighbours, the graph is sparse.
-/
theorem sparse_of_not_spill
    (unspilled :
      ∀ pick ∈ simplify budget method graph, pick.isSpillCandidate = false) :
    Sparse budget method graph := by
  intro names nonempty locals
  have allTaken :
      ∀ name ∈ names, ∃ pick ∈ simplify budget method graph, pick.name = name := by
    intro name member
    have taken := (mem_pickedNames_simplify budget).mpr (locals name member)
    simpa [pickedNames] using taken
  -- Of the names, the one that is taken away first: the others still remain then.
  have someTaken :
      ((simplify budget method graph).find? fun pick =>
        decide (pick.name ∈ names)).isSome := by
    obtain ⟨name, member⟩ := nonempty
    obtain ⟨pick, taken, rfl⟩ := allTaken name member
    exact List.find?_isSome.mpr ⟨pick, taken, decide_eq_true member⟩
  obtain ⟨first, isFirst⟩ := Option.isSome_iff_exists.mp someTaken
  obtain ⟨firstMember, before, after, isSplit, notBefore⟩ :=
    List.find?_eq_some_iff_append.mp isFirst
  have remain : names ⊆ pickedNames (first :: after) := by
    intro name member
    obtain ⟨pick, taken, rfl⟩ := allTaken name member
    rw [isSplit] at taken
    rcases List.mem_append.mp taken with isBefore | isAfter
    · simpa [member] using notBefore pick isBefore
    · exact List.mem_toFinset.mpr (List.mem_map_of_mem isAfter)
  have firstTaken : first ∈ simplify budget method graph := by simp [isSplit]
  rcases simplify_from isSplit with ⟨_, few⟩ | ⟨spilled, _⟩
  · exact ⟨first.name, of_decide_eq_true firstMember,
      Nat.lt_of_le_of_lt (neighborsIn_mono remain first.name) few⟩
  · exact absurd (unspilled first firstTaken) (by simp [spilled])

/-- A name of whose neighbours some have all colours has as many neighbours. -/
theorem le_neighborsIn
    {colors : Assignment}
    {names : Finset String}
    {name : String}
    (colored : ∀ other ∈ colors, other ∈ names)
    (full : ∀ number < budget, NeighborHas graph colors name number) :
    budget ≤ neighborsIn graph names name := by
  have inUse :
      Finset.range budget ⊆
        (names.filter fun other => graph.interferes name other = true).image
          fun other =>
          colors[other]?.getD 0 := by
    intro number lower
    obtain ⟨neighbor, interfere, isColor⟩ := full number (Finset.mem_range.mp lower)
    have isName := colored neighbor (mem_iff_exists_getElem?.mpr ⟨number, isColor⟩)
    exact Finset.mem_image.mpr
      ⟨neighbor, Finset.mem_filter.mpr ⟨isName, interfere⟩, by simp [isColor]⟩
  calc budget = (Finset.range budget).card := (Finset.card_range budget).symm
    _ ≤ _ := Finset.card_le_card inUse
    _ ≤ neighborsIn graph names name := Finset.card_image_le

/-- In a sparse graph all locals get colours. -/
theorem Sparse.color_ok
    (sparse : Sparse budget method graph) :
    ∃ colors, color budget method graph = .ok colors := by
  cases colored : color budget method graph with
  | ok colors =>
      exact ⟨colors, rfl⟩
  | error error =>
      exfalso
      obtain ⟨name, done, rest, _, isOrder, isColored, full⟩ := color_error colored
      -- The names that are coloured before are those that were taken away after.
      have isNames :
          (simplify budget method graph).map Pick.name =
            rest.reverse ++ name :: done.reverse := by
        simpa using List.reverse_eq_iff.mp isOrder
      obtain ⟨before, later, isSplit, _, isLater⟩ :=
        List.map_eq_append_iff.mp isNames
      obtain ⟨pick, after, rfl, rfl, isAfter⟩ := List.map_eq_cons_iff.mp isLater
      have many :
          budget ≤ neighborsIn graph (pickedNames (pick :: after)) pick.name := by
        refine le_neighborsIn (fun other hasColor => ?_) fun number =>
          (full number).mpr
        have isDone : other ∈ done.reverse :=
          List.mem_reverse.mpr ((isColored other).mp hasColor)
        rw [← isAfter] at isDone
        exact List.mem_toFinset.mpr (List.mem_cons_of_mem _ isDone)
      exact Nat.not_lt_of_le many (sparse.taken isSplit).2

/--
Sparse graphs are coloured. A graph is sparse for a budget just if no local is
taken away that may turn out not to fit, and then all locals get colours. It is
sparse if every local has fewer neighbours among the locals than the budget, and
if there are no more locals than the budget.
-/
theorem sparse_graphs_colored
    (built : graph.Built)
    (budget : Nat)
    (method : Method) :
    (Sparse budget method graph ↔
        ∀ pick ∈ simplify budget method graph, pick.isSpillCandidate = false) ∧
      (Sparse budget method graph → ∃ colors, color budget method graph =
        .ok colors) ∧
      ((∀ name ∈ candidates method graph,
          neighborsIn graph (candidates method graph).toFinset name < budget) →
        Sparse budget method graph) ∧
      ((candidates method graph).length ≤ budget → Sparse budget method graph) := by
  have within {names : Finset String}
      (locals : ∀ name ∈ names, LocalNode method graph name) :
      names ⊆ (candidates method graph).toFinset :=
    fun name member =>
      List.mem_toFinset.mpr (mem_candidates.mpr (locals name member))
  refine ⟨⟨fun sparse pick taken => ?_, sparse_of_not_spill⟩, Sparse.color_ok,
    fun few names nonempty locals => ?_, fun few names nonempty locals => ?_⟩
  · obtain ⟨before, after, isSplit⟩ := List.append_of_mem taken
    exact (sparse.taken isSplit).1
  · obtain ⟨name, member⟩ := nonempty
    have fewAmong := few name (mem_candidates.mpr (locals name member))
    exact ⟨name, member,
      Nat.lt_of_le_of_lt (neighborsIn_mono (within locals) name) fewAmong⟩
  · obtain ⟨name, member⟩ := nonempty
    refine ⟨name, member, ?_⟩
    calc neighborsIn graph names name < names.card :=
      neighborsIn_lt_card built member
      _ ≤ (candidates method graph).toFinset.card :=
        Finset.card_le_card (within locals)
      _ ≤ (candidates method graph).length := List.toFinset_card_le _
      _ ≤ budget := few

/--
Four locals in a row, of which the inner ones have two neighbours,
beside a parameter.
-/
private def row : Graph :=
  (((({} : Graph).addEdge "a" "b").addEdge "b" "c").addEdge "c" "d").addEdge "b" "p"

/-- The graph is built by adding its edges. -/
private theorem row_built :
    row.Built :=
  (((Graph.Built.empty.addEdge "a" "b").addEdge "b" "c").addEdge "c" "d").addEdge
    "b" "p"

private def rowMethod : Method where
  name := "row"
  isStatic := true
  params := [.var "p" .int]
  returnType := .int
  table :=
    ((((((∅ : Code.VariableTable).insert "p" ⟨.int, .param, 0⟩).insert
      "a" ⟨.int, .localVar, 1⟩).insert "b" ⟨.int, .localVar, 2⟩).insert
      "c" ⟨.int, .localVar, 3⟩).insert "d" ⟨.int, .localVar, 4⟩)

/-- The row is sparse for two colours, though two locals have two neighbours. -/
theorem sparse_graphs_colored_row :
    row.Built ∧
      Sparse 2 rowMethod row ∧
        neighborsIn row (candidates rowMethod row).toFinset "b" = 2 ∧
          (∃ colors, color 2 rowMethod row = .ok colors) ∧
            ∀ pick ∈ simplify 2 rowMethod row, pick.isSpillCandidate = false := by
  have unspilled :
      ∀ pick ∈ simplify 2 rowMethod row, pick.isSpillCandidate = false := by
    decide +kernel
  obtain ⟨sparse_iff, colored, _⟩ := sparse_graphs_colored row_built 2 rowMethod
  have sparse := sparse_iff.mpr unspilled
  exact ⟨row_built, sparse, by decide +kernel, colored sparse, sparse_iff.mp sparse⟩

end MiniJava.Register
