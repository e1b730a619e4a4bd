import Mathlib.Data.Finset.Card
import MiniJava.Proofs.InterferenceGraph
import MiniJava.Register.Coloring

namespace MiniJava.Register

/-!
# Colours are proper and complete

All locals that are nodes of the graph are taken away once and then coloured,
each with a colour that no neighbour has so far.
-/

open Code (Method)

theorem leastOutside_not_mem
    (taken : List Nat) :
    leastOutside taken ∉ taken := by
  -- Among one number more than are taken, one is free.
  have free : ∃ number ∈ List.range (taken.length + 1), number ∉ taken := by
    by_contra none
    push Not at none
    have inside : Finset.range (taken.length + 1) ⊆ taken.toFinset := by
      intro number member
      exact List.mem_toFinset.mpr
        (none number (List.mem_range.mpr (Finset.mem_range.mp member)))
    have few := (Finset.card_le_card inside).trans (List.toFinset_card_le taken)
    rw [Finset.card_range] at few
    omega
  have found :
      ((List.range (taken.length + 1)).find? fun number =>
        decide (number ∉ taken)).isSome := by
    rw [List.find?_isSome]
    simpa using free
  obtain ⟨number, isNumber⟩ := Option.isSome_iff_exists.mp found
  rw [leastOutside, isNumber, Option.getD_some]
  simpa using List.find?_some isNumber

theorem mem_of_lt_leastOutside
    {taken : List Nat}
    {number : Nat}
    (lower : number < leastOutside taken) :
    number ∈ taken := by
  unfold leastOutside at lower
  cases found : (List.range (taken.length + 1)).find? fun number =>
    decide (number ∉ taken) with
  | none =>
      rw [found] at lower
      exact absurd lower (Nat.not_lt_zero number)
  | some least =>
      rw [found] at lower
      have earlier := (List.find?_range_eq_some.mp found).2.2 number lower
      simpa using earlier

theorem pick?_mem
    {budget : Nat}
    {graph : Graph}
    {remaining : List String}
    {pick : Pick}
    (picked : pick? budget graph remaining = some pick) :
    pick.name ∈ remaining := by
  unfold pick? at picked
  split at picked
  case h_1 name found =>
    cases picked
    exact List.mem_of_find?_eq_some found
  case h_2 =>
    obtain ⟨name, isHead, rfl⟩ := Option.map_eq_some_iff.mp picked
    exact List.mem_of_mem_head? isHead

/-- One is taken away as long as some remain. -/
theorem pick?_isSome
    (budget : Nat)
    (graph : Graph)
    {remaining : List String}
    (some : remaining ≠ []) :
    (pick? budget graph remaining).isSome = true := by
  unfold pick?
  split
  · rfl
  · cases remaining with
    | nil =>
        exact absurd rfl some
    | cons first rest =>
        rfl

/-- All that remain are taken away, each once. -/
theorem takeAway_perm
    {budget : Nat}
    {graph : Graph}
    {count : Nat}
    {remaining : List String}
    (isCount : remaining.length = count) :
    ((takeAway budget graph count remaining).map Pick.name).Perm remaining := by
  induction count generalizing remaining with
  | zero =>
      rw [List.eq_nil_of_length_eq_zero isCount]
      exact .nil
  | succ count inductionHypothesis =>
      have nonempty : remaining ≠ [] := by
        rintro rfl
        cases isCount
      obtain ⟨pick, picked⟩ := Option.isSome_iff_exists.mp
        (pick?_isSome budget graph nonempty)
      have member := pick?_mem picked
      have fewer : (remaining.erase pick.name).length = count := by
        rw [List.length_erase_of_mem member, isCount]
        rfl
      simp only [takeAway, picked, List.map_cons]
      exact ((inductionHypothesis fewer).cons pick.name).trans
        (List.perm_cons_erase member).symm

/-- Interfering names have different colours. -/
def Proper (graph : Graph) (colors : Assignment) : Prop :=
  ∀ first second firstColor secondColor,
    graph.interferes first second = true →
    first ≠ second →
    colors[first]? = some firstColor →
    colors[second]? = some secondColor →
    firstColor ≠ secondColor

/-- A name may get a colour that no neighbour has. -/
theorem Proper.insert
    {graph : Graph}
    {colors : Assignment}
    {name : String}
    {color : Nat}
    (proper : Proper graph colors)
    (symmetric :
      ∀ first second, graph.interferes first second = true →
      graph.interferes second first = true)
    (free : color ∉ (graph.neighbors name).filterMap (colors[·]?)) :
    Proper graph (colors.insert name color) := by
  have neighborDiffers :
      ∀ other otherColor,
        graph.interferes name other = true → colors[other]? = some otherColor →
          otherColor ≠ color := by
    rintro other otherColor interfere isColor rfl
    exact free
      (List.mem_filterMap.mpr ⟨other, Graph.mem_neighbors.mpr interfere, isColor⟩)
  intro first second firstColor secondColor interfere different isFirst isSecond
  simp only [Std.ExtTreeMap.getElem?_insert, Std.LawfulEqCmp.compare_eq_iff_eq]
    at isFirst isSecond
  by_cases firstNew : name = first
  · rw [if_pos firstNew] at isFirst
    cases isFirst
    rw [if_neg fun secondNew => different (firstNew.symm.trans secondNew)]
      at isSecond
    subst firstNew
    exact (neighborDiffers second secondColor interfere isSecond).symm
  · rw [if_neg firstNew] at isFirst
    by_cases secondNew : name = second
    · rw [if_pos secondNew] at isSecond
      cases isSecond
      subst secondNew
      exact neighborDiffers first firstColor
        (symmetric first name interfere) isFirst
    · rw [if_neg secondNew] at isSecond
      exact proper first second firstColor secondColor interfere different isFirst
        isSecond

/-- The lowest colour that no neighbour of a name has. -/
def freeColor (graph : Graph) (colors : Assignment) (name : String) : Nat :=
  leastOutside ((graph.neighbors name).filterMap (colors[·]?))

/--
What one more colour keeps of the colours and the names that are left, a selection
keeps until it ends: at the end of the names, or before one without a free colour.
-/
theorem select_induction
    {budget : Nat}
    {graph : Graph}
    (holds : Assignment → List String → Prop)
    (keeps :
      ∀ colors name rest,
        holds colors (name :: rest) → freeColor graph colors name < budget →
          holds (colors.insert name (freeColor graph colors name)) rest)
    {colors : Assignment}
    {names : List String}
    (start : holds colors names) :
    ∃ rest,
      holds (select budget graph colors names).colors rest ∧
        (select budget graph colors names).stuck? = rest.head? ∧
          ∀ name ∈ rest.head?,
            budget ≤ freeColor graph (select budget graph colors names).colors
              name := by
  induction names generalizing colors with
  | nil =>
      exact ⟨[], start, rfl, by simp⟩
  | cons first rest inductionHypothesis =>
      unfold select
      dsimp only
      split
      case isTrue fits =>
        exact inductionHypothesis (keeps colors first rest start fits)
      case isFalse full =>
        refine ⟨first :: rest, start, rfl, fun name isFirst => ?_⟩
        cases isFirst
        exact Nat.le_of_not_lt full

/-- The nodes to colour are the locals of the table. -/
theorem mem_candidates
    {method : Method}
    {graph : Graph}
    {name : String} :
    name ∈ candidates method graph ↔
      graph.contains name = true ∧
        ∃ entry, method.table[name]? = some entry ∧ entry.scope = .localVar := by
  unfold candidates
  rw [List.mem_filter, Graph.mem_nodes]
  cases method.table[name]? with
  | none =>
      simp
  | some entry =>
      simp

theorem nodup_candidates
    (method : Method)
    (graph : Graph) :
    (candidates method graph).Nodup :=
  Std.ExtTreeMap.nodup_keys.filter _

section Selection

variable {budget : Nat} {method : Method} {graph : Graph} {colors : Assignment}

/-- The locals of a method in the order in which they are coloured. -/
def coloringOrder (budget : Nat) (method : Method) (graph : Graph) : List String :=
  ((simplify budget method graph).map Pick.name).reverse

theorem coloringOrder_perm :
    (coloringOrder budget method graph).Perm (candidates method graph) :=
  (List.reverse_perm _).trans (takeAway_perm rfl)

theorem color_eq_ok_iff :
    color budget method graph = .ok colors ↔
      (selection budget method graph).stuck? = none ∧
        (selection budget method graph).colors = colors := by
  unfold color
  dsimp only
  split
  case h_1 finished => simp [finished]
  case h_2 name stuck => simp [stuck]

theorem color_eq_error_iff
    {error : CompileError} :
    color budget method graph = .error error ↔
      ∃ name,
        (selection budget method graph).stuck? = some name ∧
          error = .budgetExceeded method.name name budget := by
  unfold color
  dsimp only
  split
  case h_1 finished => simp [finished]
  case h_2 name stuck => simp [stuck, eq_comm]

/-- Of an order of names, those before the rest are just the ones with colours. -/
def Covers
    (order : List String)
    (colors : Assignment)
    (rest : List String) : Prop :=
  ∃ done, order = done ++ rest ∧ ∀ name, name ∈ colors ↔ name ∈ done

theorem Covers.insert
    {order rest : List String}
    {name : String}
    (covers : Covers order colors (name :: rest))
    (color : Nat) :
    Covers order (colors.insert name color) rest := by
  obtain ⟨done, rfl, isDone⟩ := covers
  refine ⟨done ++ [name], by simp, fun other => ?_⟩
  rw [Std.ExtTreeMap.mem_insert, Std.LawfulEqCmp.compare_eq_iff_eq, isDone,
    List.mem_append, List.mem_singleton]
  grind

theorem Covers.not_mem
    {order rest : List String}
    {name : String}
    (covers : Covers order colors (name :: rest))
    (distinct : order.Nodup) :
    name ∉ colors := by
  obtain ⟨done, rfl, isDone⟩ := covers
  rw [isDone]
  exact fun member =>
    List.disjoint_of_nodup_append distinct member List.mem_cons_self

/--
A colouring comes to the end of its order, or to a name without a free colour.
-/
theorem selection_ends
    (budget : Nat)
    (method : Method)
    (graph : Graph) :
    ∃ rest,
      Covers (coloringOrder budget method graph)
        (selection budget method graph).colors rest ∧
        (selection budget method graph).stuck? = rest.head? ∧
          ∀ name ∈ rest.head?,
            budget ≤ freeColor graph (selection budget method graph).colors name :=
  select_induction (Covers (coloringOrder budget method graph))
    (fun _ _ _ covers _ => covers.insert _) ⟨[], rfl, by simp⟩

/--
What the first colour of a name keeps holds of a whole colouring, as
far as it comes.
-/
theorem selection_induction
    (holds : Assignment → Prop)
    (start : holds ∅)
    (keeps :
      ∀ colors name,
        holds colors → name ∉ colors → freeColor graph colors name < budget →
          holds (colors.insert name (freeColor graph colors name))) :
    holds (selection budget method graph).colors := by
  have distinct : (coloringOrder budget method graph).Nodup :=
    coloringOrder_perm.nodup_iff.mpr (nodup_candidates method graph)
  obtain ⟨_, ⟨_, held⟩, _⟩ :=
    select_induction
      (fun colors rest => Covers (coloringOrder budget method graph) colors rest ∧
        holds colors)
      (fun colors name _ both fits =>
        ⟨both.1.insert _, keeps colors name both.2 (both.1.not_mem distinct) fits⟩)
      ⟨⟨[], rfl, by simp⟩, start⟩
  exact held

/--
A colouring of a method is proper, and just its locals in the graph have colours.
-/
theorem color_ok
    (symmetric :
      ∀ first second, graph.interferes first second = true →
      graph.interferes second first = true)
    (colored : color budget method graph = .ok colors) :
    Proper graph colors ∧ ∀ name, name ∈ colors ↔
      name ∈ candidates method graph := by
  obtain ⟨finished, rfl⟩ := color_eq_ok_iff.mp colored
  constructor
  · apply selection_induction
    · intro first second _ _ _ _ isFirst
      simp at isFirst
    · intro colors name proper _ _
      exact proper.insert symmetric (leastOutside_not_mem _)
  · intro name
    obtain ⟨rest, ⟨done, isOrder, isDone⟩, isNext, _⟩ :=
      selection_ends budget method graph
    have noneLeft : rest = [] :=
      List.head?_eq_none_iff.mp (isNext.symm.trans finished)
    rw [isDone, ← coloringOrder_perm.mem_iff, isOrder, noneLeft, List.append_nil]

theorem selection_lt
    {name : String}
    {number : Nat}
    (isColor : (selection budget method graph).colors[name]? = some number) :
    number < budget := by
  refine selection_induction (fun colors => ∀ (name : String) (number : Nat),
    colors[name]? = some number → number < budget) (by simp) ?_ name number isColor
  intro colors name below _ fits other number isColor
  simp only [Std.ExtTreeMap.getElem?_insert, Std.LawfulEqCmp.compare_eq_iff_eq]
    at isColor
  split at isColor
  · cases isColor
    exact fits
  · exact below other number isColor

theorem color_lt
    (colored : color budget method graph = .ok colors)
    {name : String}
    {number : Nat}
    (isColor : colors[name]? = some number) :
    number < budget := by
  obtain ⟨_, rfl⟩ := color_eq_ok_iff.mp colored
  exact selection_lt isColor

end Selection

/-- The registers in use are just enough for all colours. -/
theorem registersUsed_le_iff
    {colors : Assignment}
    {bound : Nat} :
    registersUsed colors ≤ bound ↔
      ∀ (name : String) (color : Nat), colors[name]? = some color →
      color < bound := by
  have folded (rows : List (String × Nat)) (start : Nat) :
      rows.foldl (fun count row => max count (row.2 + 1)) start ≤ bound ↔
        start ≤ bound ∧ ∀ row ∈ rows, row.2 < bound := by
    induction rows generalizing start with
    | nil => simp
    | cons first rest inductionHypothesis =>
        rw [List.foldl_cons, inductionHypothesis, Nat.max_le, List.forall_mem_cons]
        exact and_assoc
  rw [registersUsed, folded, and_iff_right (Nat.zero_le _)]
  constructor
  · intro below name color isColor
    exact below (name, color)
      (Std.ExtTreeMap.mem_toList_iff_getElem?_eq_some.mpr isColor)
  · rintro below ⟨name, color⟩ member
    exact below name color
      (Std.ExtTreeMap.mem_toList_iff_getElem?_eq_some.mp member)

end MiniJava.Register
