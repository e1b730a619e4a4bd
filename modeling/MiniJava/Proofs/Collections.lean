import Mathlib.Data.List.Forall2
import Std.Data.ExtTreeMap

namespace MiniJava

/-!
# Lists that go side by side, and keys of maps
-/

/--
What is at a position of a list is related to what is there in the other list.
-/
theorem forall₂_getElem?
    {α β : Type}
    {relation : α → β → Prop}
    {first : List α}
    {second : List β}
    (related : List.Forall₂ relation first second)
    {index : Nat}
    {left : α}
    (found : first[index]? = some left) :
    ∃ right, second[index]? = some right ∧ relation left right := by
  obtain ⟨inside, rfl⟩ := List.getElem?_eq_some_iff.mp found
  have insideSecond : index < second.length := related.length_eq ▸ inside
  exact ⟨second[index], List.getElem?_eq_getElem insideSecond,
    related.get inside insideSecond⟩

/-- What is in a list is related to something in the other list. -/
theorem forall₂_mem_right
    {α β : Type}
    {relation : α → β → Prop}
    {first : List α}
    {second : List β}
    (related : List.Forall₂ relation first second)
    {right : β}
    (member : right ∈ second) :
    ∃ left ∈ first, relation left right := by
  rcases List.mem_iff_getElem?.mp member with ⟨index, found⟩
  rcases forall₂_getElem? related.flip found with ⟨left, leftAt, isRelated⟩
  exact ⟨left, List.mem_of_getElem? leftAt, isRelated⟩

/-- Lists are related through a list between them where their items are. -/
theorem forall₂_trans
    {α β γ : Type}
    {former : α → β → Prop}
    {latter : β → γ → Prop}
    {whole : α → γ → Prop}
    {first : List α}
    {second : List β}
    {third : List γ}
    (onFirst : List.Forall₂ former first second)
    (onSecond : List.Forall₂ latter second third)
    (chain :
      ∀ {left between right},
        former left between → latter between right → whole left right) :
    List.Forall₂ whole first third := by
  induction onFirst generalizing third with
  | nil =>
      cases onSecond
      exact .nil
  | cons here _ inductionHypothesis =>
      cases onSecond with
      | cons next rest =>
          exact .cons (chain here next) (inductionHypothesis rest)

theorem append_subset_append
    {α : Type}
    {first second firstWhole secondWhole : List α}
    (firstPart : first ⊆ firstWhole)
    (secondPart : second ⊆ secondWhole) :
    first ++ second ⊆ firstWhole ++ secondWhole :=
  List.append_subset.mpr
    ⟨List.subset_append_of_subset_left _ firstPart,
      List.subset_append_of_subset_right _ secondPart⟩

/-- A function leaves a list as it is exactly if it leaves each of its items. -/
theorem map_eq_self_iff
    {α : Type}
    {items : List α}
    {change : α → α} :
    items.map change = items ↔ ∀ item ∈ items, change item = item := by
  have sameMap := List.map_inj_left (l := items) (f := change) (g := id)
  rwa [List.map_id] at sameMap

/-- What holds of at most one item of a list holds at one position. -/
theorem eq_of_countP_le_one
    {α : Type}
    {holds : α → Bool}
    {items : List α}
    (atMostOne : items.countP holds ≤ 1)
    {first second : Nat}
    {firstItem secondItem : α}
    (firstAt : items[first]? = some firstItem)
    (secondAt : items[second]? = some secondItem)
    (firstHolds : holds firstItem = true)
    (secondHolds : holds secondItem = true) :
    first = second := by
  have counted {position : Nat} {item : α} {rest : List α}
      (itemAt : rest[position]? = some item)
      (itemHolds : holds item = true) :
      0 < rest.countP holds :=
    List.countP_pos_iff.mpr ⟨item, List.mem_of_getElem? itemAt, itemHolds⟩
  induction items generalizing first second with
  | nil =>
      cases firstAt
  | cons head rest inductionHypothesis =>
      rw [List.countP_cons] at atMostOne
      match first, second with
      | 0, 0 =>
          rfl
      | 0, _ + 1 =>
          cases firstAt
          rw [List.getElem?_cons_succ] at secondAt
          have later := counted secondAt secondHolds
          rw [if_pos firstHolds] at atMostOne
          omega
      | _ + 1, 0 =>
          cases secondAt
          rw [List.getElem?_cons_succ] at firstAt
          have later := counted firstAt firstHolds
          rw [if_pos secondHolds] at atMostOne
          omega
      | _ + 1, _ + 1 =>
          exact congrArg Nat.succ (inductionHypothesis (by omega) firstAt secondAt)

/-- A key is in a map exactly if something is found there. -/
theorem mem_iff_exists_getElem?
    {α : Type}
    {map : Std.ExtTreeMap String α}
    {key : String} :
    key ∈ map ↔ ∃ value, map[key]? = some value := by
  rw [Std.ExtTreeMap.mem_iff_isSome_getElem?, Option.isSome_iff_exists]

/--
What is found in two lists together is found in the first of them or behind it.
-/
theorem getElem?_append_cases
    {α : Type}
    {first second : List α}
    {index : Nat}
    {item : α}
    (found : (first ++ second)[index]? = some item) :
    (index < first.length ∧ first[index]? = some item) ∨
      ∃ inner, index = first.length + inner ∧ second[inner]? = some item := by
  by_cases inside : index < first.length
  · rw [List.getElem?_append_left inside] at found
    exact .inl ⟨inside, found⟩
  · obtain ⟨inner, rfl⟩ := Nat.exists_eq_add_of_le (Nat.le_of_not_lt inside)
    rw [List.getElem?_append_right (Nat.le_add_right _ _), Nat.add_sub_cancel_left]
      at found
    exact .inr ⟨inner, rfl, found⟩

/-- A list that stands between others is found behind the first of them. -/
theorem getElem?_placed
    {α : Type}
    (before items after : List α)
    {index : Nat}
    (inside : index < items.length) :
    (before ++ items ++ after)[before.length + index]? = items[index]? := by
  rw [List.append_assoc, List.getElem?_append_right (Nat.le_add_right _ _),
    Nat.add_sub_cancel_left, List.getElem?_append_left inside]

end MiniJava
