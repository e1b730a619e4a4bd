import Mathlib.Data.List.Forall2
import Mathlib.Data.List.Nodup
import Mathlib.Data.List.Perm.Basic
import MiniJava.Json.Shape
import MiniJava.Proofs.WrittenJson

namespace MiniJava.Json

/-!
# Records and choices in JSON

The rules of the format for objects, independent of how they are read. A record
gives each field once, or leaves it out where it may, and has any members beside
its fields, all of them in any order; but every key has to hold a text. A choice is
a record with one more field for its kind.

An object that follows these rules is read back field by field, as long as it does
not nest too deep. Where a choice is held before it is read, its numbers must have
finite approximations and its strings must hold texts besides.
-/

namespace Spelling

/-! ## Nesting and holding -/

mutual

/-- How many levels of arrays and objects the value opens. -/
def depth : Spelling → Nat
  | .array items => itemsDepth items + 1
  | .object members => membersDepth members + 1
  | _ => 0

/-- The greatest depth of the items of an array. -/
def itemsDepth : List Spelling → Nat
  | [] => 0
  | item :: rest => max item.depth (itemsDepth rest)

/-- The greatest depth of the members of an object. -/
def membersDepth : List (StringText × Spelling) → Nat
  | [] => 0
  | (_, content) :: rest => max content.depth (membersDepth rest)

end

mutual

/--
Whether every number of the value has a finite approximation, and every string and
key of it holds a text.
-/
def IsReadable : Spelling → Prop
  | .number text => text.numeral.value ≠ .infinite
  | .string text => ∃ content, text.content = .ok content
  | .array items => ItemsReadable items
  | .object members => MembersReadable members
  | _ => True

/-- Whether all items are readable. -/
def ItemsReadable : List Spelling → Prop
  | [] => True
  | item :: rest => item.IsReadable ∧ ItemsReadable rest

/-- Whether all members are readable. -/
def MembersReadable : List (StringText × Spelling) → Prop
  | [] => True
  | (key, content) :: rest =>
      (∃ name, key.content = .ok name) ∧ content.IsReadable ∧ MembersReadable rest

end

/-- Items are as deep as the deepest of them. -/
theorem itemsDepth_le_iff
    {items : List Spelling}
    {limit : Nat} :
    itemsDepth items ≤ limit ↔ ∀ item ∈ items, item.depth ≤ limit := by
  induction items with
  | nil => simp [itemsDepth]
  | cons item rest hypothesis =>
      rw [itemsDepth, Nat.max_le, hypothesis, List.forall_mem_cons]

/-- Members are as deep as the deepest of them. -/
theorem membersDepth_le_iff
    {members : List (StringText × Spelling)}
    {limit : Nat} :
    membersDepth members ≤ limit ↔ ∀ member ∈ members, member.2.depth ≤ limit := by
  induction members with
  | nil => simp [membersDepth]
  | cons member rest hypothesis =>
      rw [membersDepth, Nat.max_le, hypothesis, List.forall_mem_cons]

/-- Items are readable one by one. -/
theorem itemsReadable_iff
    {items : List Spelling} :
    ItemsReadable items ↔ ∀ item ∈ items, item.IsReadable := by
  induction items with
  | nil => simp [ItemsReadable]
  | cons item rest hypothesis =>
      rw [ItemsReadable, hypothesis, List.forall_mem_cons]

/-- Members are readable one by one. -/
theorem membersReadable_iff
    {members : List (StringText × Spelling)} :
    MembersReadable members ↔
      ∀ member ∈ members,
        (∃ name, member.1.content = .ok name) ∧ member.2.IsReadable := by
  induction members with
  | nil => simp [MembersReadable]
  | cons member rest hypothesis =>
      rw [MembersReadable, hypothesis, List.forall_mem_cons, and_assoc]

/-- A value that is spelled out can be skipped. -/
theorem skip_node
    (spelling : Spelling) :
    spelling.node.skip = .ok () := by
  induction spelling with
  | null => rfl
  | bool value => rfl
  | number text => rfl
  | string text => rfl
  | array items hypothesis =>
      have skipped : Node.skipItems (itemNodes items) = .ok () := by
        induction items with
        | nil => rfl
        | cons item rest skipRest =>
            obtain ⟨skipItem, skipOthers⟩ := List.forall_mem_cons.mp hypothesis
            simp only [itemNodes, Node.skipItems, skipItem, skipRest skipOthers,
              ok_bind]
      simp only [node, Node.skip, skipped, ok_bind]
      rfl
  | object members hypothesis =>
      have skipped : Node.skipMembers (memberNodes members) = .ok () := by
        induction members with
        | nil => rfl
        | cons member rest skipRest =>
            obtain ⟨skipMember, skipOthers⟩ := List.forall_mem_cons.mp hypothesis
            simp only [memberNodes, Node.skipMembers, StringText.node, Node.skipKey,
              Fault.stop, skipMember, skipRest skipOthers, ok_bind]
      simp only [node, Node.skip, skipped, ok_bind]
      rfl

/-- A readable value that fits can be held. -/
theorem hold_node
    {spelling : Spelling}
    {room : Nat}
    (fits : spelling.depth ≤ room)
    (isReadable : spelling.IsReadable) :
    spelling.node.hold room = .ok () := by
  induction spelling generalizing room with
  | null => rfl
  | bool value => rfl
  | number text => exact if_neg isReadable
  | string text =>
      obtain ⟨content, holds⟩ := isReadable
      rw [node, StringText.node_of_content holds]
      rfl
  | array items hypothesis =>
      rw [depth] at fits
      rw [IsReadable, itemsReadable_iff] at isReadable
      obtain ⟨inner, rfl⟩ :=
        Nat.exists_eq_add_one_of_ne_zero (Nat.ne_zero_of_lt fits)
      rw [Nat.add_le_add_iff_right, itemsDepth_le_iff] at fits
      have held : Node.holdItems inner (itemNodes items) = .ok () := by
        induction items with
        | nil => rfl
        | cons item rest holdRest =>
            simp only [List.forall_mem_cons] at hypothesis fits isReadable
            simp only [itemNodes, Node.holdItems, hypothesis.1 fits.1 isReadable.1,
              holdRest hypothesis.2 isReadable.2 fits.2, ok_bind]
      simp only [node, Node.hold, held, ok_bind]
      rfl
  | object members hypothesis =>
      rw [depth] at fits
      rw [IsReadable, membersReadable_iff] at isReadable
      obtain ⟨inner, rfl⟩ :=
        Nat.exists_eq_add_one_of_ne_zero (Nat.ne_zero_of_lt fits)
      rw [Nat.add_le_add_iff_right, membersDepth_le_iff] at fits
      have held : Node.holdMembers inner (memberNodes members) = .ok () := by
        induction members with
        | nil => rfl
        | cons member rest holdRest =>
            rw [List.forall_mem_cons] at hypothesis fits isReadable
            obtain ⟨⟨⟨name, holds⟩, isReadableHere⟩, areReadable⟩ := isReadable
            simp only [memberNodes, Node.holdMembers, StringText.node, holds,
              Node.key, hypothesis.1 fits.1 isReadableHere,
              holdRest hypothesis.2 areReadable fits.2, ok_bind]
      simp only [node, Node.hold, held, ok_bind]
      rfl

end Spelling

/-! ## Keys -/

/-- Members whose keys hold texts, with these texts. -/
def Named
    (members : List (StringText × Spelling))
    (named : List (String × Spelling)) :
    Prop :=
  List.Forall₂ (fun member entry => member.1.content = .ok entry.1 ∧
    member.2 = entry.2) members named

/-- What stands for members whose keys hold the names. -/
def namedNodes (named : List (String × Spelling)) : List (Node × Node) :=
  named.map fun entry => (quotedNode entry.1, entry.2.node)

/-- What stands for a member and those after it. -/
theorem namedNodes_cons
    (entry : String × Spelling)
    (rest : List (String × Spelling)) :
    namedNodes (entry :: rest) =
      (quotedNode entry.1, entry.2.node) :: namedNodes rest := rfl

namespace Named

variable {members : List (StringText × Spelling)}
  {named : List (String × Spelling)}

/-- Only the texts of the keys matter for what stands in a text. -/
theorem memberNodes_eq
    (isNamed : Named members named) :
    Spelling.memberNodes members = namedNodes named := by
  induction isNamed with
  | nil => rfl
  | cons same _ hypothesis =>
      rw [Spelling.memberNodes, StringText.node_of_content same.1, same.2,
        hypothesis]
      rfl

/-- What holds of the contents of all members holds by their names. -/
theorem forall_content
    {property : Spelling → Prop}
    (isNamed : Named members named)
    (each : ∀ member ∈ members, property member.2) :
    ∀ entry ∈ named, property entry.2 := by
  induction isNamed with
  | nil => exact List.forall_mem_nil _
  | cons same _ hypothesis =>
      rw [List.forall_mem_cons] at each ⊢
      exact ⟨same.2 ▸ each.1, hypothesis each.2⟩

/-- Keys as they are written hold what they are written for. -/
theorem ofString
    (named : List (String × Spelling)) :
    Named (named.map fun entry => (.ofString entry.1, entry.2)) named := by
  induction named with
  | nil => exact .nil
  | cons entry rest hypothesis =>
      exact .cons ⟨StringText.content_ofString entry.1, rfl⟩ hypothesis

end Named

/-! ## Records -/

/-- One field of a record, for a value of the record. -/
structure FieldFormat where
  name : String
  /-- How the field may be spelled. -/
  isSpelled : Spelling → Prop
  /-- Whether the field may be left out. -/
  isOptional : Prop

namespace FieldFormat

/-- A field that has to be given. -/
def required (name : String) (isSpelled : Spelling → Prop) : FieldFormat :=
  ⟨name, isSpelled, False⟩

/-- A field that may be left out where it holds its default. -/
def withDefault
    (name : String)
    (isSpelled : Spelling → Prop)
    (isDefault : Prop) : FieldFormat :=
  ⟨name, isSpelled, isDefault⟩

end FieldFormat

/-- The members that give the fields, in order, without those that are left out. -/
inductive GivesFields : List FieldFormat → List (String × Spelling) → Prop where
  | nil : GivesFields [] []
  | given
      {field : FieldFormat}
      {spelling : Spelling}
      {fields : List FieldFormat}
      {members : List (String × Spelling)} :
      field.isSpelled spelling →
      GivesFields fields members →
      GivesFields (field :: fields) ((field.name, spelling) :: members)
  | leftOut
      {field : FieldFormat}
      {fields : List FieldFormat}
      {members : List (String × Spelling)} :
      field.isOptional →
      GivesFields fields members →
      GivesFields (field :: fields) members

/-- Members of a record: its fields and unknown members, in any order. -/
def RecordMembers
    (fields : List FieldFormat)
    (members : List (String × Spelling)) : Prop :=
  ∃ given unknown,
    GivesFields fields given ∧
      (∀ member ∈ unknown, member.1 ∉ fields.map FieldFormat.name) ∧
      members.Perm (given ++ unknown)

/-- An object with the fields of a record, whose keys hold texts. -/
def IsRecord (fields : List FieldFormat) (spelling : Spelling) : Prop :=
  ∃ members named,
    spelling = .object members ∧ Named members named ∧ RecordMembers fields named

/-- How a text is spelled. -/
def IsText (value : String) (spelling : Spelling) : Prop :=
  ∃ text, spelling = .string text ∧ text.content = .ok value

/-- An object with the fields of a choice of one kind. -/
def IsChoice
    (kind : String)
    (fields : List FieldFormat)
    (spelling : Spelling) : Prop :=
  IsRecord (.required Choice.tag (IsText kind) :: fields) spelling

namespace GivesFields

/-- The given members have the names of fields, in order. -/
theorem names_sublist
    {fields : List FieldFormat}
    {members : List (String × Spelling)}
    (gives : GivesFields fields members) :
    (members.map Prod.fst).Sublist (fields.map FieldFormat.name) := by
  induction gives with
  | nil => exact .slnil
  | given _ _ hypothesis => exact hypothesis.cons_cons _
  | leftOut _ _ hypothesis => exact hypothesis.cons _

/-- Each field is given as it may be spelled, or left out where it may be. -/
theorem cases_of_mem
    {fields : List FieldFormat}
    {members : List (String × Spelling)}
    (gives : GivesFields fields members)
    (distinct : (fields.map FieldFormat.name).Nodup)
    {field : FieldFormat}
    (isField : field ∈ fields) :
    (∃ spelling, field.isSpelled spelling ∧ (field.name, spelling) ∈ members) ∨
      (field.isOptional ∧ field.name ∉ members.map Prod.fst) := by
  induction gives with
  | nil => cases isField
  | given isSpelled gives hypothesis =>
      rw [List.map_cons, List.nodup_cons] at distinct
      rcases List.mem_cons.mp isField with rfl | isOther
      · exact .inl ⟨_, isSpelled, List.mem_cons_self⟩
      · have isOtherName := List.mem_map_of_mem (f := FieldFormat.name) isOther
        rcases hypothesis distinct.2 isOther with
          ⟨spelling, isOtherSpelled, isMember⟩ | ⟨isOptional, notGiven⟩
        · exact .inl ⟨spelling, isOtherSpelled, List.mem_cons_of_mem _ isMember⟩
        · refine .inr ⟨isOptional, ?_⟩
          rw [List.map_cons, List.mem_cons, not_or]
          refine ⟨fun sameName => distinct.1 ?_, notGiven⟩
          rwa [sameName] at isOtherName
  | leftOut isOptional gives hypothesis =>
      rw [List.map_cons, List.nodup_cons] at distinct
      rcases List.mem_cons.mp isField with rfl | isOther
      · exact .inr
          ⟨isOptional, fun isGiven =>
            distinct.1 (gives.names_sublist.subset isGiven)⟩
      · exact hypothesis distinct.2 isOther

end GivesFields

namespace RecordMembers

variable {fields : List FieldFormat}
  {members : List (String × Spelling)}

/-- No field is given twice. -/
theorem count_le_one
    (isRecord : RecordMembers fields members)
    (distinct : (fields.map FieldFormat.name).Nodup)
    {name : String}
    (isName : name ∈ fields.map FieldFormat.name) :
    (members.map Prod.fst).count name ≤ 1 := by
  obtain ⟨given, unknown, gives, isUnknown, isPerm⟩ := isRecord
  have givenOnce : (given.map Prod.fst).count name ≤ 1 :=
    List.nodup_iff_count_le_one.mp (distinct.sublist gives.names_sublist) name
  have notUnknown : (unknown.map Prod.fst).count name = 0 := by
    rw [List.count_eq_zero]
    intro isUnknownName
    obtain ⟨member, isMember, rfl⟩ := List.mem_map.mp isUnknownName
    exact isUnknown member isMember isName
  have counts := (isPerm.map Prod.fst).count_eq name
  rw [List.map_append, List.count_append] at counts
  omega

/--
Each field of a record is given as it may be spelled, or left out where it may be.
-/
theorem cases_of_mem
    (isRecord : RecordMembers fields members)
    (distinct : (fields.map FieldFormat.name).Nodup)
    {field : FieldFormat}
    (isField : field ∈ fields) :
    (∃ spelling, field.isSpelled spelling ∧ (field.name, spelling) ∈ members) ∨
      (field.isOptional ∧ field.name ∉ members.map Prod.fst) := by
  obtain ⟨given, unknown, gives, isUnknown, isPerm⟩ := isRecord
  rcases gives.cases_of_mem distinct isField with
    ⟨spelling, isSpelled, isMember⟩ | ⟨isOptional, notGiven⟩
  · exact .inl
      ⟨spelling, isSpelled, isPerm.mem_iff.mpr (List.mem_append_left _ isMember)⟩
  · refine .inr ⟨isOptional, ?_⟩
    rw [(isPerm.map Prod.fst).mem_iff, List.map_append, List.mem_append, not_or]
    refine ⟨notGiven, fun isMember => ?_⟩
    obtain ⟨member, isMember, sameName⟩ := List.mem_map.mp isMember
    exact isUnknown member isMember (sameName ▸ List.mem_map_of_mem isField)

/--
A field that has to be given stands somewhere, and the other members
are a record without it.
-/
theorem split_required
    {name : String}
    {isSpelled : Spelling → Prop}
    (isRecord : RecordMembers (.required name isSpelled :: fields) members)
    (isNew : name ∉ fields.map FieldFormat.name) :
    ∃ before spelling after,
      members = before ++ (name, spelling) :: after ∧
        isSpelled spelling ∧
        RecordMembers fields (before ++ after) ∧
        ∀ member ∈ before ++ after, member.1 ≠ name := by
  obtain ⟨given, unknown, gives, isUnknown, isPerm⟩ := isRecord
  cases gives with
  | leftOut isOptional => exact isOptional.elim
  | @given _ spelling _ others isGiven gives =>
      have isMember : (name, spelling) ∈ members :=
        isPerm.mem_iff.mpr (List.mem_append_left _ List.mem_cons_self)
      obtain ⟨before, after, rfl⟩ := List.append_of_mem isMember
      have othersPerm : (before ++ after).Perm (others ++ unknown) :=
        (List.perm_middle.symm.trans isPerm).cons_inv
      refine ⟨before, spelling, after, rfl, isGiven,
        ⟨others, unknown, gives, ?_, othersPerm⟩, ?_⟩
      · intro member isOther isName
        exact isUnknown member isOther (List.mem_cons_of_mem _ isName)
      · intro member isOther sameName
        rcases List.mem_append.mp (othersPerm.mem_iff.mp isOther) with
          isGiven | isUnknownMember
        · apply isNew
          exact gives.names_sublist.subset (sameName ▸ List.mem_map_of_mem isGiven)
        · exact isUnknown member isUnknownMember (sameName ▸ List.mem_cons_self)

end RecordMembers

/-! ## Reading what a shape describes -/

/-- Whether a value of some depth fits at a place. -/
def Place.Fits (place : Place) (depth : Nat) : Prop :=
  depth ≤ place.room ∧ place.room ≤ nestingLimit

/-- What fits at a place and opens a level fits inside. -/
theorem Place.Fits.enter
    {place : Place}
    {depth : Nat}
    (fits : place.Fits (depth + 1)) :
    ∃ inner, place.enter = .ok inner ∧ inner.Fits depth ∧
      inner.held = place.held := by
  obtain ⟨enough, limited⟩ := fits
  obtain ⟨room, held⟩ := place
  cases held with
  | true => exact ⟨_, rfl, ⟨Nat.le_of_succ_le enough, limited⟩, rfl⟩
  | false =>
      obtain ⟨inner, rfl⟩ :=
        Nat.exists_eq_add_one_of_ne_zero (Nat.ne_zero_of_lt enough)
      exact ⟨_, rfl,
        ⟨Nat.le_of_succ_le_succ enough, Nat.le_of_succ_le limited⟩, rfl⟩

/--
Whether a shape reads every spelling of a value that is not too deep as that value.
-/
def Shape.Reads
    {α : Type}
    (shape : Shape α)
    (isSpelled : α → Spelling → Prop)
    (place : Place)
    (limit : Nat) :
    Prop :=
  ∀ value spelling,
    isSpelled value spelling → spelling.depth ≤ limit →
    shape place spelling.node = .ok value

/-- How a truth value is spelled. -/
def IsBool (value : Bool) (spelling : Spelling) : Prop :=
  spelling = .bool value

/-- How an integer is spelled. -/
def IsInt (value : Int) (spelling : Spelling) : Prop :=
  spelling = .number (.ofInt value)

/-- How a value that may be missing is spelled. -/
def IsOptional
    {α : Type}
    (isSpelled : α → Spelling → Prop) :
    Option α → Spelling → Prop
  | none, spelling => spelling = .null
  | some value, spelling => isSpelled value spelling

/-- How a list of values is spelled. -/
def IsList
    {α : Type}
    (isSpelled : α → Spelling → Prop)
    (values : List α)
    (spelling : Spelling) :
    Prop :=
  ∃ items, spelling = .array items ∧ List.Forall₂ isSpelled values items

/-- How a table is spelled: its entries, in any order. -/
def IsMap
    {α : Type}
    (isSpelled : α → Spelling → Prop)
    (table : Std.ExtTreeMap String α)
    (spelling : Spelling) :
    Prop :=
  ∃ entries members,
    spelling = .object members ∧
      entries.Perm table.toList ∧
      List.Forall₂
        (fun entry member =>
          member.1.content = .ok entry.1 ∧ isSpelled entry.2 member.2)
        entries members

namespace Shape

variable {α : Type}
  {shape : Shape α}
  {isSpelled : α → Spelling → Prop}
  {place : Place}
  {limit : Nat}

/-- What stands in a text that spells a string. -/
theorem node_of_isText
    {value : String}
    {spelling : Spelling}
    (spelled : IsText value spelling) :
    spelling.node = quotedNode value := by
  obtain ⟨text, rfl, holds⟩ := spelled
  exact StringText.node_of_content holds

/-- A text is read from its spellings. -/
theorem reads_text : Reads text IsText place limit := by
  intro value spelling spelled _
  rw [node_of_isText spelled]
  rfl

/-- A truth value is read from its spelling. -/
theorem reads_bool : Reads bool IsBool place limit := by
  rintro value _ rfl _
  rfl

/-- An integer of 32 bits is read from its spelling. -/
theorem reads_int32 :
    Reads int32 (fun value => IsInt value.toInt) place limit := by
  rintro value _ rfl _
  have notLess := value.le_toInt
  have isLess := value.toInt_lt
  simp only [Spelling.node, NumberText.value_int32, int32, intBetween]
  rw [if_pos ⟨by omega, by omega⟩]
  simp [Except.map]

/-- A number of 64 bits is read from its spelling. -/
theorem reads_nat64 :
    Reads nat64 (fun value => IsInt value.toNat) place limit := by
  rintro value _ rfl _
  have notGreater := value.toNat_lt
  have isInteger :
      (NumberText.ofInt value.toNat).numeral.value = .integer value.toNat :=
    NumberText.value_ofInt (by omega) (by omega)
  simp only [Spelling.node, isInteger, nat64, intBetween]
  rw [if_pos ⟨by omega, by omega⟩]
  simp [Except.map]

/-- A shape that reads what is deep reads what is less deep. -/
theorem Reads.mono
    (reads : Reads shape isSpelled place limit)
    {less : Nat}
    (isLess : less ≤ limit) :
    Reads shape isSpelled place less :=
  fun value spelling spelled fits =>
    reads value spelling spelled (Nat.le_trans fits isLess)

/-- A value that may be missing is read from its spellings. -/
theorem reads_optional
    (reads : Reads shape isSpelled place limit)
    (notNull : ∀ value, ¬ isSpelled value .null) :
    Reads (optional shape) (IsOptional isSpelled) place limit := by
  intro value spelling spelled fits
  cases value with
  | none =>
      obtain rfl : spelling = .null := spelled
      rfl
  | some value =>
      have read := reads value spelling spelled fits
      cases spelling with
      | null => exact absurd spelled (notNull value)
      | _ =>
          simp only [Spelling.node, StringText.node] at read ⊢
          rw [optional, read]
          · rfl
          · rintro ⟨⟩

/-- A list is read item by item. -/
theorem reads_list
    (fits : place.Fits limit)
    (reads :
      ∀ inner less,
        place.enter = .ok inner → less < limit → inner.Fits less →
          Reads shape isSpelled inner less) :
    Reads (list shape) (IsList isSpelled) place limit := by
  rintro values _ ⟨items, rfl, spelled⟩ isDeep
  rw [Spelling.depth] at isDeep
  obtain ⟨less, rfl⟩ := Nat.exists_eq_add_one_of_ne_zero (Nat.ne_zero_of_lt isDeep)
  obtain ⟨inner, entered, fitsInner, -⟩ := fits.enter
  have readsItems := reads inner less entered (Nat.lt_succ_self less) fitsInner
  rw [Nat.add_le_add_iff_right, Spelling.itemsDepth_le_iff] at isDeep
  have read : (Spelling.itemNodes items).mapM (shape inner) = .ok values := by
    induction spelled with
    | nil => rfl
    | cons spelledItem _ hypothesis =>
        rw [List.forall_mem_cons] at isDeep
        rw [Spelling.itemNodes, List.mapM_cons, readsItems _ _ spelledItem isDeep.1,
          ok_bind, hypothesis isDeep.2, ok_bind]
        rfl
  simp only [Spelling.node, list, entered, read, ok_bind]
  rfl

/-- A table is what comes of putting in its entries, in any order. -/
theorem foldl_insert_of_perm
    {entries : List (String × α)}
    {table : Std.ExtTreeMap String α}
    (isPerm : entries.Perm table.toList) :
    entries.foldl (fun table (name, content) => table.insert name content)
      ∅ = table := by
  have isOfList :
      entries.foldl (fun table (name, content) => table.insert name content) ∅ =
        Std.ExtTreeMap.ofList entries compare := by
    rw [Std.ExtTreeMap.ofList_eq_insertMany_empty,
      Std.ExtTreeMap.insertMany_list_eq_foldl]
  have distinct :
      entries.Pairwise fun first second => ¬ compare first.1 second.1 = .eq := by
    rw [isPerm.pairwise_iff fun {first second} different same =>
      different (Std.OrientedCmp.eq_symm same)]
    exact Std.ExtTreeMap.distinct_keys_toList
  rw [isOfList]
  apply Std.ExtTreeMap.ext_getElem?
  intro name
  cases found : table[name]? with
  | some content =>
      have isEntry : (name, content) ∈ entries :=
        isPerm.mem_iff.mpr
          (Std.ExtTreeMap.mem_toList_iff_getElem?_eq_some.mpr found)
      exact Std.ExtTreeMap.getElem?_ofList_of_mem Std.ReflCmp.compare_self
        distinct isEntry
  | none =>
      apply Std.ExtTreeMap.getElem?_ofList_of_contains_eq_false
      rw [List.contains_eq_mem, decide_eq_false_iff_not]
      intro isName
      obtain ⟨⟨_, content⟩, isEntry, rfl⟩ := List.mem_map.mp isName
      have isFound :=
        Std.ExtTreeMap.mem_toList_iff_getElem?_eq_some.mp
          (isPerm.mem_iff.mp isEntry)
      rw [found] at isFound
      cases isFound

/-- A table is read entry by entry, in any order. -/
theorem reads_map
    (fits : place.Fits limit)
    (reads :
      ∀ inner less, inner.Fits less → Reads shape isSpelled inner less) :
    Reads (map shape) (IsMap isSpelled) place limit := by
  rintro table _ ⟨entries, members, rfl, isPerm, spelled⟩ isDeep
  rw [Spelling.depth] at isDeep
  obtain ⟨less, rfl⟩ := Nat.exists_eq_add_one_of_ne_zero (Nat.ne_zero_of_lt isDeep)
  obtain ⟨inner, entered, fitsInner, -⟩ := fits.enter
  rw [Nat.add_le_add_iff_right, Spelling.membersDepth_le_iff] at isDeep
  have read :
      ((Spelling.memberNodes members).mapM fun member => do
        return (← member.1.key, ← shape inner member.2)) = Except.ok entries := by
    clear isPerm
    induction spelled with
    | nil => rfl
    | cons spelledMember _ hypothesis =>
        rw [List.forall_mem_cons] at isDeep
        rw [Spelling.memberNodes, List.mapM_cons, hypothesis isDeep.2]
        simp only [StringText.node, spelledMember.1, Node.key, ok_bind,
          reads inner less fitsInner _ _ spelledMember.2 isDeep.1]
        rfl
  simp only [Spelling.node, map, entered, ok_bind]
  refine (congrArg (· >>= _) read).trans ?_
  rw [ok_bind, ← foldl_insert_of_perm isPerm]
  rfl

end Shape

/-! ## Reading records -/

/-- Whether a field that has to be given is given with a value. -/
structure Given.IsRequired {α : Type} (given : Given α) (value : α) : Prop where
  noFault : given.fault? = none
  isValue : given.required = .ok value

/-- Whether a field has a value, be it given or its default. -/
structure Given.IsDefaulted
    {α : Type}
    (given : Given α)
    (default value : α) : Prop where
  noFault : given.fault? = none
  isValue : given.withDefault default = .ok value

namespace Fields

/-- A name that occurs once is found. -/
theorem firstNamed_of_mem
    {members : List (String × Spelling)}
    {name : String}
    (once : (members.map Prod.fst).count name ≤ 1)
    {spelling : Spelling}
    (isMember : (name, spelling) ∈ members) :
    firstNamed name (namedNodes members) = some spelling.node := by
  induction members with
  | nil => cases isMember
  | cons member rest hypothesis =>
      obtain ⟨key, content⟩ := member
      rw [List.map_cons, List.count_cons] at once
      simp only [namedNodes_cons, firstNamed, quotedNode, Node.key]
      rcases List.mem_cons.mp isMember with isFirst | isOther
      · cases isFirst
        exact if_pos rfl
      · have isCounted : 0 < (rest.map Prod.fst).count name :=
          List.count_pos_iff.mpr (List.mem_map_of_mem isOther)
        have otherName : key ≠ name := by
          rintro rfl
          simp only [beq_self_eq_true, if_true] at once
          omega
        rw [if_neg otherName]
        exact hypothesis (by omega) isOther

/-- A name that does not occur is not found. -/
theorem firstNamed_of_not_mem
    {members : List (String × Spelling)}
    {name : String}
    (notMember : name ∉ members.map Prod.fst) :
    firstNamed name (namedNodes members) = none := by
  induction members with
  | nil => rfl
  | cons member rest hypothesis =>
      rw [List.map_cons, List.mem_cons, not_or] at notMember
      simp only [namedNodes_cons, firstNamed, quotedNode, Node.key,
        if_neg (Ne.symm notMember.1), hypothesis notMember.2]

/-- Members without faults are settled if none of the fields is given twice. -/
theorem settleMembers_ok
    {faults : List (String × Option Fault)}
    (noFaults : ∀ fault ∈ faults, fault.2 = none)
    {seen : List String}
    {members : List (String × Spelling)}
    (once :
      ∀ name, faults.lookup name ≠ none →
        (members.map Prod.fst).count name ≤ 1 ∧
          (name ∈ seen → name ∉ members.map Prod.fst)) :
    settleMembers faults seen (namedNodes members) = .ok () := by
  induction members generalizing seen with
  | nil => rfl
  | cons member rest hypothesis =>
      obtain ⟨key, content⟩ := member
      simp only [namedNodes_cons, settleMembers, quotedNode, Node.key, ok_bind]
      cases found : faults.lookup key with
      | none =>
          simp only [content.skip_node, ok_bind]
          apply hypothesis
          intro name isKnown
          obtain ⟨atMostOnce, notAgain⟩ := once name isKnown
          rw [List.map_cons, List.count_cons] at atMostOnce
          exact ⟨by omega, fun isSeen isRest =>
            notAgain isSeen (List.mem_cons_of_mem _ isRest)⟩
      | some fault? =>
          obtain ⟨before, after, rfl, -⟩ := List.lookup_eq_some_iff.mp found
          obtain rfl : fault? = none := noFaults (key, fault?) (by simp)
          obtain ⟨keyOnce, keyNotAgain⟩ := once key (by simp [found])
          rw [List.map_cons, List.count_cons_self] at keyOnce
          have notSeen : key ∉ seen :=
            fun isSeen => keyNotAgain isSeen List.mem_cons_self
          simp only [if_neg notSeen, Fault.stop, ok_bind]
          apply hypothesis
          intro name isKnown
          obtain ⟨atMostOnce, notAgain⟩ := once name isKnown
          rw [List.map_cons, List.count_cons] at atMostOnce
          -- The key itself is seen from now on, and was the only one of its name.
          refine ⟨by omega, fun isSeen isRest => ?_⟩
          rcases List.mem_cons.mp isSeen with rfl | isSeenBefore
          · have isCounted := List.count_pos_iff.mpr isRest
            omega
          · exact notAgain isSeenBefore (List.mem_cons_of_mem _ isRest)

/-- What a record of the format is before its fields are read. -/
structure Holds
    (record : Fields)
    (fields : List FieldFormat)
    (limit : Nat) : Prop where
  isRecord :
    ∃ members,
      record.form = .members (namedNodes members) ∧
        RecordMembers fields members ∧
        ∀ member ∈ members, member.2.depth ≤ limit
  named : record.names = fields.map FieldFormat.name
  distinct : record.names.Nodup
  noFault : record.fault? = none
  fits : record.place.Fits limit

namespace Holds

variable {α : Type}
  {record : Fields}
  {fields : List FieldFormat}
  {limit : Nat}
  {name : String}
  {isSpelled : Spelling → Prop}
  {shape : Shape α}
  {value default : α}

/-- What is given for a field is its value, unless it is left out. -/
theorem get_cases
    (holds : record.Holds fields limit)
    {isOptional : Prop}
    (isField : ⟨name, isSpelled, isOptional⟩ ∈ fields)
    (reads :
      ∀ spelling, isSpelled spelling → spelling.depth ≤ limit →
        shape record.place spelling.node = .ok value) :
    record.get name shape = some (.ok value) ∨
      record.get name shape = none ∧ isOptional := by
  obtain ⟨members, isForm, isRecord, depths⟩ := holds.isRecord
  have distinct : (fields.map FieldFormat.name).Nodup :=
    holds.named ▸ holds.distinct
  have once := isRecord.count_le_one distinct (List.mem_map_of_mem isField)
  rcases isRecord.cases_of_mem distinct isField with
    ⟨spelling, spelled, isMember⟩ | ⟨isLeftOut, notMember⟩
  · have read := reads spelling spelled (depths _ isMember)
    left
    rw [get, node?, isForm]
    simp only [firstNamed_of_mem once isMember, Option.map_some, read]
  · refine .inr ⟨?_, isLeftOut⟩
    rw [get, node?, isForm]
    simp only [firstNamed_of_not_mem notMember, Option.map_none]

/-- A field that has to be given is given. -/
theorem required
    (holds : record.Holds fields limit)
    (isField : .required name isSpelled ∈ fields)
    (reads :
      ∀ spelling, isSpelled spelling → spelling.depth ≤ limit →
        shape record.place spelling.node = .ok value) :
    (record.get name shape).IsRequired value := by
  rcases holds.get_cases isField reads with isGiven | ⟨_, isOptional⟩
  · rw [isGiven]
    exact ⟨rfl, rfl⟩
  · exact isOptional.elim

/-- A field with a default has its value. -/
theorem withDefault
    (holds : record.Holds fields limit)
    (isField : .withDefault name isSpelled (value = default) ∈ fields)
    (reads :
      ∀ spelling, isSpelled spelling → spelling.depth ≤ limit →
        shape record.place spelling.node = .ok value) :
    (record.get name shape).IsDefaulted default value := by
  rcases holds.get_cases isField reads with isGiven | ⟨isLeftOut, rfl⟩
  · rw [isGiven]
    exact ⟨rfl, rfl⟩
  · rw [isLeftOut]
    exact ⟨rfl, rfl⟩

/-- A field that may be null may also be left out. -/
theorem nullable
    (holds : record.Holds fields limit)
    {value : Option α}
    (isField : .withDefault name isSpelled (value = none) ∈ fields)
    (reads :
      ∀ spelling, isSpelled spelling → spelling.depth ≤ limit →
        shape.optional record.place spelling.node = .ok value) :
    record.nullable name shape = .ok value := by
  obtain ⟨members, isForm, -⟩ := holds.isRecord
  simp only [Fields.nullable, isForm, (holds.withDefault isField reads).isValue]

/-- A record without faulty fields is settled. -/
theorem settle
    (holds : record.Holds fields limit)
    {faults : List (Option Fault)}
    (noFaults : ∀ fault ∈ faults, fault = none) :
    record.settle faults = .ok () := by
  obtain ⟨members, isForm, isRecord, -⟩ := holds.isRecord
  have distinct : (fields.map FieldFormat.name).Nodup :=
    holds.named ▸ holds.distinct
  have settled :
      settleMembers (record.names.zip faults) [] (namedNodes members) = .ok () := by
    apply settleMembers_ok
    · rintro ⟨name, fault⟩ isFault
      exact noFaults fault (List.of_mem_zip isFault).2
    · intro name isKnown
      obtain ⟨fault, found⟩ := Option.ne_none_iff_exists'.mp isKnown
      obtain ⟨before, after, isZip, -⟩ := List.lookup_eq_some_iff.mp found
      have isPair : (name, fault) ∈ record.names.zip faults := by
        rw [isZip]
        simp
      have isName : name ∈ fields.map FieldFormat.name :=
        holds.named ▸ (List.of_mem_zip isPair).1
      exact ⟨isRecord.count_le_one distinct isName, fun isSeen => by cases isSeen⟩
  rw [Fields.settle, isForm]
  simp only [settled, ok_bind, holds.noFault, Fault.stop]

end Holds

/-- An object with the fields of a record is taken for one. -/
theorem ofNode_of_isRecord
    (names : List String)
    {fields : List FieldFormat}
    (named : names = fields.map FieldFormat.name)
    (distinct : names.Nodup)
    {spelling : Spelling}
    (isRecord : IsRecord fields spelling)
    {place : Place}
    {limit : Nat}
    (fits : place.Fits limit)
    (isDeep : spelling.depth ≤ limit) :
    ∃ record,
      ofNode names place spelling.node = .ok record ∧
        place.enter = .ok record.place ∧
        ∃ less, limit = less + 1 ∧ record.Holds fields less := by
  obtain ⟨members, entries, rfl, isNamed, isRecord⟩ := isRecord
  rw [Spelling.depth] at isDeep
  obtain ⟨less, rfl⟩ := Nat.exists_eq_add_one_of_ne_zero (Nat.ne_zero_of_lt isDeep)
  obtain ⟨inner, entered, fitsInner, -⟩ := fits.enter
  rw [Nat.add_le_add_iff_right, Spelling.membersDepth_le_iff] at isDeep
  have depths : ∀ entry ∈ entries, entry.2.depth ≤ less :=
    @Named.forall_content _ _ (·.depth ≤ less) isNamed isDeep
  refine ⟨⟨names, inner, .members (namedNodes entries), none⟩, ?_, entered, less,
    rfl, ⟨entries, rfl, isRecord, depths⟩, named, distinct, rfl, fitsInner⟩
  simp only [Spelling.node, isNamed.memberNodes_eq, ofNode, entered, ok_bind]
  rfl

end Fields

/-! ## Reading choices -/

namespace Choice

variable {kinds : List String}
  {place : Place}

/-- Members other than the kind are kept as they are. -/
theorem members_append
    {others : List (String × Spelling)}
    (areOthers : ∀ member ∈ others, member.1 ≠ tag)
    (held : ∀ member ∈ others, hold place member.2.node = .ok ())
    (kind? : Option String)
    (rest : List (Node × Node)) :
    members kinds place kind? (namedNodes others ++ rest) =
      (members kinds place kind? rest).map fun (kind?, more) =>
        (kind?, namedNodes others ++ more) := by
  induction others with
  | nil =>
      cases isResult : members kinds place kind? rest <;>
        simp [namedNodes, isResult, Except.map]
  | cons member more hypothesis =>
      obtain ⟨isOther, areMore⟩ := List.forall_mem_cons.mp areOthers
      obtain ⟨isHeld, heldMore⟩ := List.forall_mem_cons.mp held
      rw [namedNodes_cons, List.cons_append, members]
      simp only [quotedNode, Node.key, ok_bind, if_neg isOther, isHeld,
        hypothesis areMore heldMore]
      cases members kinds place kind? rest <;> rfl

/--
An object with the fields of a choice is taken apart into its kind and a record.
-/
theorem ofNode_of_isChoice
    {kind : String}
    (isKind : kind ∈ kinds)
    {fields : List FieldFormat}
    (notTag : tag ∉ fields.map FieldFormat.name)
    {spelling : Spelling}
    (isChoice : IsChoice kind fields spelling)
    {limit : Nat}
    (fits : place.Fits limit)
    (isDeep : spelling.depth ≤ limit)
    (isHeld : place.held = true ∨ spelling.IsReadable) :
    ∃ content,
      ofNode kinds place spelling.node = .ok ⟨kind, content.node⟩ ∧
        IsRecord fields content ∧
        content.depth ≤ limit := by
  obtain ⟨given, entries, rfl, isNamed, isRecord⟩ := isChoice
  obtain ⟨before, ofKind, after, rfl, isKindText, isRecord, areOthers⟩ :=
    isRecord.split_required notTag
  rw [Spelling.depth] at isDeep
  obtain ⟨less, rfl⟩ := Nat.exists_eq_add_one_of_ne_zero (Nat.ne_zero_of_lt isDeep)
  obtain ⟨inner, entered, fitsInner, sameHeld⟩ := fits.enter
  rw [Nat.add_le_add_iff_right, Spelling.membersDepth_le_iff] at isDeep
  have depths : ∀ entry ∈ before ++ (tag, ofKind) :: after, entry.2.depth ≤ less :=
    @Named.forall_content _ _ (·.depth ≤ less) isNamed isDeep
  have isMember :
      ∀ member ∈ before ++ after, member ∈ before ++ (tag, ofKind) :: after := by
    intro member isOther
    rw [List.mem_append] at isOther ⊢
    exact isOther.imp_right (List.mem_cons_of_mem _)
  have held : ∀ member ∈ before ++ after, hold inner member.2.node = .ok () := by
    intro member isOther
    have isGiven := isMember member isOther
    rw [hold, sameHeld]
    rcases isHeld with isHeld | isReadable
    · rw [isHeld, if_pos rfl]
    · rw [Spelling.IsReadable, Spelling.membersReadable_iff] at isReadable
      have areReadable :
          ∀ entry ∈ before ++ (tag, ofKind) :: after, entry.2.IsReadable :=
        isNamed.forall_content fun member isMember => (isReadable member isMember).2
      split
      · rfl
      · exact Spelling.hold_node (Nat.le_trans (depths member isGiven) fitsInner.1)
          (areReadable member isGiven)
  rw [List.forall_mem_append] at areOthers held
  have named : kindOf kinds inner (quotedNode kind) = .ok kind := by
    simp only [kindOf, quotedNode, Shape.text, ok_bind, if_pos isKind]
    rfl
  have afterKind :
      members kinds inner (some kind) (namedNodes after) =
        .ok (some kind, namedNodes after) := by
    have kept := @members_append kinds inner after areOthers.2 held.2 (some kind) []
    rw [List.append_nil] at kept
    rw [kept]
    simp only [members, Except.map, List.append_nil]
  have fromKind :
      members kinds inner none
          ((quotedNode tag, ofKind.node) :: namedNodes after) =
        .ok (some kind, namedNodes after) := by
    rw [members, Shape.node_of_isText isKindText]
    simp only [quotedNode, Node.key, ok_bind, if_true, Option.isSome_none,
      Bool.false_eq_true, if_false]
    rw [← quotedNode, named, ok_bind, afterKind]
  have isContent :
      namedNodes (before ++ (tag, ofKind) :: after) =
        namedNodes before ++ (quotedNode tag, ofKind.node) :: namedNodes after := by
    simp [namedNodes]
  refine ⟨.record (before ++ after), ?_, ⟨_, _, rfl, .ofString _, isRecord⟩, ?_⟩
  · have isRest : (Spelling.record (before ++ after)).node =
        .object (namedNodes before ++ namedNodes after) none := by
      rw [Spelling.record, Spelling.node, (Named.ofString _).memberNodes_eq]
      simp [namedNodes]
    simp only [Spelling.node, isNamed.memberNodes_eq, isContent, ofNode, entered,
      ok_bind, members_append areOthers.1 held.1, fromKind, Except.map,
      Fault.stop, isRest]
    rfl
  · rw [Spelling.record, Spelling.depth, Nat.add_le_add_iff_right,
      Spelling.membersDepth_le_iff, List.forall_mem_map]
    exact fun member isOther => depths member (isMember member isOther)

/--
An object with the fields of a choice is read as a held record of these fields.
-/
theorem fields_of_isChoice
    {kind : String}
    (isKind : kind ∈ kinds)
    (names : List String)
    {fields : List FieldFormat}
    (named : names = fields.map FieldFormat.name)
    (distinct : (tag :: names).Nodup)
    {spelling : Spelling}
    (isChoice : IsChoice kind fields spelling)
    {limit : Nat}
    (fits : place.Fits limit)
    (isDeep : spelling.depth ≤ limit)
    (isHeld : place.held = true ∨ spelling.IsReadable) :
    ∃ choice record,
      ofNode kinds place spelling.node = .ok choice ∧
        choice.kind = kind ∧
        choice.fields names = .ok record ∧
        record.place = .inside ∧
        ∃ less, limit = less + 1 ∧ record.Holds fields less := by
  rw [List.nodup_cons] at distinct
  obtain ⟨content, isOfNode, isRecord, isDeepContent⟩ :=
    ofNode_of_isChoice isKind (named ▸ distinct.1) isChoice fits isDeep isHeld
  obtain ⟨record, isRecordOf, entered, less, isLess, holds⟩ :=
    Fields.ofNode_of_isRecord names named distinct.2 isRecord
      (show Place.inside.Fits limit from
        ⟨Nat.le_trans fits.1 fits.2, Nat.le_refl nestingLimit⟩)
      isDeepContent
  have settled : record.settle (names.map fun _ => none) = .ok () :=
    holds.settle fun fault isFault => (List.mem_map.mp isFault).elim fun _ same =>
      same.2.symm
  refine ⟨⟨kind, content.node⟩, record, isOfNode, rfl, ?_,
    (Except.ok.inj entered).symm, less, isLess, holds⟩
  simp only [Choice.fields, Fields.ofHeld, isRecordOf, ok_bind, settled]
  rfl

end Choice

end MiniJava.Json
