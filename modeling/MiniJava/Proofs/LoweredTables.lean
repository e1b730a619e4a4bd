import MiniJava.Proofs.LoweredMethods
import MiniJava.Proofs.SlotAllocation

namespace MiniJava

/-!
# Variable tables of lowered methods

The receiver and the parameters come first and keep their slots. Every variable
that lowering declares is a local with a slot of its own behind all others.
-/

open Code (Method Variable VariableTable Operand)

/-- The greatest slot is behind all slots and the start. -/
private theorem le_foldl_slots
    (rows : List (String × Variable))
    (start : Nat) :
    start ≤ rows.foldl (fun slot row => max slot (row.2.slot + 1)) start ∧
      ∀ row ∈ rows,
        row.2.slot < rows.foldl (fun slot row => max slot (row.2.slot + 1))
          start := by
  induction rows generalizing start with
  | nil =>
      simp
  | cons row rest inductionHypothesis =>
      obtain ⟨startLe, restLt⟩ := inductionHypothesis (max start (row.2.slot + 1))
      rw [List.foldl_cons]
      refine ⟨by omega, fun other member => ?_⟩
      rcases List.mem_cons.mp member with rfl | member
      · omega
      · exact restLt other member

/-- A new variable comes behind the receiver and the parameters. -/
theorem Code.Method.baseSlot_le_nextFreeSlot
    (method : Method) :
    method.baseSlot ≤ method.nextFreeSlot :=
  (le_foldl_slots method.table.toList method.baseSlot).1

/-- A new variable comes behind all variables of the table. -/
theorem Code.Method.slot_lt_nextFreeSlot
    {method : Method}
    {name : String}
    {entry : Variable}
    (isEntry : method.table[name]? = some entry) :
    entry.slot < method.nextFreeSlot :=
  (le_foldl_slots method.table.toList method.baseSlot).2 _
    (Std.ExtTreeMap.mem_toList_iff_getElem?_eq_some.mpr isEntry)

/-- A table of variables that are no locals, with different slots below a bound. -/
structure FixedBelow (bound : Nat) (table : VariableTable) : Prop where
  scope :
    ∀ {name : String} {entry : Variable},
      table[name]? = some entry → entry.scope ≠ .localVar
  below :
    ∀ {name : String} {entry : Variable}, table[name]? = some entry →
    entry.slot < bound
  apart :
    ∀ {first second : String} {firstEntry secondEntry : Variable},
      table[first]? = some firstEntry → table[second]? = some secondEntry →
        firstEntry.slot = secondEntry.slot → first = second

/-- One more variable takes the slot at the bound. -/
theorem FixedBelow.insert
    {bound : Nat}
    {table : VariableTable}
    (fixed : FixedBelow bound table)
    (name : String)
    {entry : Variable}
    (notLocal : entry.scope ≠ .localVar)
    (isBound : entry.slot = bound) :
    FixedBelow (bound + 1) (table.insert name entry) := by
  have lookup {other : String} {found : Variable}
      (isFound : (table.insert name entry)[other]? = some found) :
      (name = other ∧ found = entry) ∨
        (name ≠ other ∧ table[other]? = some found) := by
    simp only [Std.ExtTreeMap.getElem?_insert, Std.LawfulEqCmp.compare_eq_iff_eq]
      at isFound
    grind
  refine ⟨fun isFound => ?_, fun isFound => ?_, fun isFirst isSecond same => ?_⟩
  · rcases lookup isFound with ⟨_, rfl⟩ | ⟨_, before⟩
    · exact notLocal
    · exact fixed.scope before
  · rcases lookup isFound with ⟨_, rfl⟩ | ⟨_, before⟩
    · omega
    · exact Nat.lt_succ_of_lt (fixed.below before)
  · rcases lookup isFirst with ⟨rfl, rfl⟩ | ⟨_, firstBefore⟩
    · rcases lookup isSecond with ⟨rfl, _⟩ | ⟨_, secondBefore⟩
      · rfl
      · have := fixed.below secondBefore
        omega
    · rcases lookup isSecond with ⟨rfl, rfl⟩ | ⟨_, secondBefore⟩
      · have := fixed.below firstBefore
        omega
      · exact fixed.apart firstBefore secondBefore same

/-- Adding parameters fixes as many slots more. -/
private theorem fixedBelow_foldl_params
    (params : List Declaration)
    (offset start : Nat)
    {table : VariableTable}
    (fixed : FixedBelow (offset + start) table) :
    FixedBelow (offset + start + params.length)
      ((params.zipIdx start).foldl
        (fun table (param, index) =>
          table.insert param.name ⟨.ofTypeName param.type, .param, offset + index⟩)
        table) := by
  induction params generalizing start table with
  | nil =>
      exact fixed
  | cons param rest inductionHypothesis =>
      have inserted :
          FixedBelow (offset + (start + 1))
            (table.insert param.name
              ⟨.ofTypeName param.type, .param, offset + start⟩) :=
        fixed.insert param.name (by simp) rfl
      have restFixed := inductionHypothesis (start + 1) inserted
      rw [List.zipIdx_cons, List.foldl_cons, List.length_cons]
      have sameBound : offset + (start + 1) + rest.length =
        offset + start + (rest.length + 1) := by
        omega
      rwa [sameBound] at restFixed

/-- Adding parameters adds their names. -/
private theorem mem_foldl_params
    (params : List Declaration)
    (offset start : Nat)
    (table : VariableTable)
    (name : String) :
    name ∈
        (params.zipIdx start).foldl
          (fun table (param, index) =>
            table.insert param.name
              ⟨.ofTypeName param.type, .param, offset + index⟩)
          table ↔
      name ∈ table ∨ ∃ param ∈ params, param.name = name := by
  induction params generalizing start table with
  | nil =>
      simp
  | cons param rest inductionHypothesis =>
      rw [List.zipIdx_cons, List.foldl_cons, inductionHypothesis]
      simp only [Std.ExtTreeMap.mem_insert, Std.LawfulEqCmp.compare_eq_iff_eq,
        List.mem_cons, exists_eq_or_imp]
      tauto

namespace MethodDef

variable (className : String) (source : MethodDef)

/--
The receiver and the parameters have different slots below those of the locals.
-/
theorem begin_fixed :
    FixedBelow (source.begin className).baseSlot
      (source.begin className).table := by
  have receiverFixed :
      FixedBelow ((if source.isStatic then 0 else 1) + 0)
        (if source.isStatic then
          ∅
        else
          (∅ : VariableTable).insert Operand.receiverName
            ⟨.object className, .receiver, 0⟩) := by
    have nothing : FixedBelow 0 ∅ := ⟨by simp, by simp, by simp⟩
    cases source.isStatic with
    | true =>
        exact nothing
    | false =>
        exact nothing.insert Operand.receiverName (by simp) rfl
  have fixed := fixedBelow_foldl_params source.params _ 0 receiverFixed
  rw [Nat.add_zero, ← List.length_map fun param : Declaration =>
    Operand.var param.name (.ofTypeName param.type)] at fixed
  exact fixed

/-- The receiver and the parameters are in the table from the start on. -/
theorem mem_begin
    {name : String} :
    name ∈ (source.begin className).table ↔
      (source.isStatic = false ∧ name = Operand.receiverName) ∨
        (source.begin className).isParam name = true := by
  have isParam :
      (source.begin className).isParam name = true ↔ ∃ param ∈ source.params,
        param.name = name := by
    simp [Method.isParam, begin, Operand.name?]
  have isReceiver :
      name ∈
          (if source.isStatic then
            ∅
          else
            (∅ : VariableTable).insert Operand.receiverName
              ⟨.object className, .receiver, 0⟩) ↔
        source.isStatic = false ∧ name = Operand.receiverName := by
    cases source.isStatic with
    | true => simp
    | false =>
        simp only [Bool.false_eq_true, ↓reduceIte, Std.ExtTreeMap.mem_insert,
          Std.LawfulEqCmp.compare_eq_iff_eq, Std.ExtTreeMap.not_mem_empty, or_false,
          true_and]
        exact eq_comm
  rw [isParam, ← isReceiver]
  exact mem_foldl_params source.params _ 0 _ name

end MethodDef

/--
A method in progress has grown from how it began: it has more
locals, behind all others.
-/
structure Grown (begun method : Method) : Prop where
  params : method.params = begun.params
  baseSlot : method.baseSlot = begun.baseSlot
  keeps :
    ∀ {name : String} {entry : Variable},
      begun.table[name]? = some entry → method.table[name]? = some entry
  added :
    ∀ {name : String} {entry : Variable},
      method.table[name]? = some entry →
        begun.table[name]? = some entry ∨
          entry.scope = .localVar ∧ begun.baseSlot ≤ entry.slot
  apart :
    ∀ {first second : String} {firstEntry secondEntry : Variable},
      method.table[first]? = some firstEntry →
      method.table[second]? = some secondEntry →
        firstEntry.slot = secondEntry.slot → first = second

namespace Grown

variable {begun method : Method}

/-- A new local keeps a method grown. -/
theorem declare
    (grown : Grown begun method)
    (name : String)
    (type : Code.ValueType) :
    Grown begun (method.declare name type .localVar) := by
  unfold Method.declare
  split
  case isTrue =>
    exact grown
  case isFalse absent =>
    have lookup {other : String} {found : Variable}
        (isFound :
          (method.table.insert name
            ⟨type, .localVar, method.nextFreeSlot⟩)[other]? =
            some found) :
        (name = other ∧ found = ⟨type, .localVar, method.nextFreeSlot⟩) ∨
          method.table[other]? = some found := by
      simp only [Std.ExtTreeMap.getElem?_insert, Std.LawfulEqCmp.compare_eq_iff_eq]
        at isFound
      grind
    refine ⟨grown.params, grown.baseSlot, fun {other entry} isEntry => ?_,
      fun isFound => ?_, fun isFirst isSecond same => ?_⟩
    · have kept := grown.keeps isEntry
      have different : name ≠ other := by
        rintro rfl
        exact absent (mem_iff_exists_getElem?.mpr ⟨entry, kept⟩)
      simpa [Std.ExtTreeMap.getElem?_insert, different] using kept
    · rcases lookup isFound with ⟨_, rfl⟩ | before
      · exact .inr ⟨rfl, grown.baseSlot ▸ method.baseSlot_le_nextFreeSlot⟩
      · exact grown.added before
    · rcases lookup isFirst with ⟨rfl, rfl⟩ | firstBefore
      · rcases lookup isSecond with ⟨rfl, _⟩ | secondBefore
        · rfl
        · exact absurd same
            (Nat.ne_of_gt (Method.slot_lt_nextFreeSlot secondBefore))
      · rcases lookup isSecond with ⟨rfl, rfl⟩ | secondBefore
        · exact absurd same (Nat.ne_of_lt (Method.slot_lt_nextFreeSlot firstBefore))
        · exact grown.apart firstBefore secondBefore same

/-- A method that has grown from fixed variables can have its slots allocated. -/
theorem anchored
    (grown : Grown begun method)
    (fixed : FixedBelow begun.baseSlot begun.table) :
    Register.Anchored method where
  below isEntry notLocal := by
    rcases grown.added isEntry with before | ⟨isLocal, _⟩
    · exact grown.baseSlot ▸ fixed.below before
    · exact absurd isLocal notLocal
  apart isFirst isSecond _ _ same := grown.apart isFirst isSecond same

end Grown

/-- A method in progress stays grown across lowering. -/
theorem Lowering.closed_grown
    {begun : Method}
    (hasParams : ∀ name, begun.isParam name = true → name ∈ begun.table) :
    Lowering.Closed fun state after =>
      ∀ method, state.current? = some method → Grown begun method →
        ∃ grown, after.current? = some grown ∧ Grown begun grown where
  refl _ method isCurrent grown := ⟨method, isCurrent, grown⟩
  trans first second method isCurrent grown := by
    obtain ⟨between, isBetween, grownBetween⟩ := first method isCurrent grown
    exact second between isBetween grownBetween
  declare state name type method isCurrent grown :=
    ⟨_, by rw [Lowering.changeMethod, isCurrent]; rfl, grown.declare name type⟩
  declareParam state name type isParam method isCurrent grown := by
    -- A parameter has been in the table from the start on, so nothing is declared.
    refine ⟨method, ?_, grown⟩
    simp only [Lowering.isParam, isCurrent, Method.isParam, grown.params] at isParam
    obtain ⟨entry, isEntry⟩ := mem_iff_exists_getElem?.mp (hasParams name isParam)
    have member : name ∈ method.table :=
      mem_iff_exists_getElem?.mpr ⟨entry, grown.keeps isEntry⟩
    simp [Lowering.changeMethod, isCurrent, Method.declare, member]
  emit state instr method isCurrent grown :=
    ⟨{ method with instrs := method.instrs ++ [instr] },
      by rw [Lowering.changeMethod, isCurrent]; rfl,
      ⟨grown.params, grown.baseSlot, grown.keeps, grown.added, grown.apart⟩⟩
  count state number _ method isCurrent grown := ⟨method, isCurrent, grown⟩
  assigned type inner := inner

/-- A lowered method has grown from how it began, and runs in a straight line. -/
theorem Lower.method_grown
    {symbols : Symbols}
    {source : MethodDef}
    {state after : Lowering}
    {lowered : Method}
    (ran : Lower.method symbols source state = .ok lowered after) :
    Grown (source.begin symbols.className) lowered ∧
      lowered.flow = .straight lowered.instrs := by
  obtain ⟨inner, stmtsRan, rfl, _⟩ := Lower.method_ok ran
  have fixed := source.begin_fixed symbols.className
  have begun :
      Grown (source.begin symbols.className) (source.begin symbols.className) :=
    ⟨rfl, rfl, id, .inl, fixed.apart⟩
  obtain ⟨method, isCurrent, grown⟩ :=
    (Lowering.closed_grown fun _ isParam =>
      (source.mem_begin symbols.className).mpr (.inr isParam)).stmts stmtsRan
      _ rfl begun
  rw [isCurrent, Option.getD_some]
  exact ⟨⟨grown.params, grown.baseSlot, grown.keeps, grown.added, grown.apart⟩, rfl⟩

end MiniJava
