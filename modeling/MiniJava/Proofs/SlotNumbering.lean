import Mathlib.Logic.Relation
import MiniJava.Proofs.TwinLowering

namespace MiniJava

/-!
# Slots before allocation

Without allocation every variable has a slot of its own, and no slot is left
out. The receiver and the parameters take the first slots in order. Each name
that lowering meets for the first time takes the next slot, whether it is read,
assigned or made as a temporary, and keeps it from then on.
-/

open Code (Method Variable VariableTable Operand ValueType Scope ClassCode)

namespace Code.Method

/--
The slots in use are those below the number of variables, and the
next one comes after them.
-/
structure Filled (method : Method) : Prop where
  next : method.nextFreeSlot = method.table.size
  used :
    ∀ slot < method.table.size,
      ∃ (name : String) (entry : Variable), method.table[name]? = some entry ∧
        entry.slot = slot

/-- A declaration changes no entry. -/
theorem declare_keeps
    {method : Method}
    {other : String}
    {entry : Variable}
    (isEntry : method.table[other]? = some entry)
    (name : String)
    (type : ValueType)
    (scope : Scope) :
    (method.declare name type scope).table[other]? = some entry := by
  by_cases member : name ∈ method.table
  · rwa [declare, if_pos member]
  · have different : name ≠ other := by
      rintro rfl
      exact member (mem_iff_exists_getElem?.mpr ⟨entry, isEntry⟩)
    rwa [getElem?_declare member, if_neg different]

/-- A new variable takes the one slot that is missing. -/
theorem Filled.declare
    {method : Method}
    (filled : method.Filled)
    (name : String)
    (type : ValueType)
    (scope : Scope) :
    (method.declare name type scope).Filled := by
  by_cases member : name ∈ method.table
  · rwa [Method.declare, if_pos member]
  · have oneMore :
        (method.declare name type scope).table.size = method.table.size + 1 := by
      simp [Method.declare, member, Std.ExtTreeMap.size_insert]
    refine ⟨?_, fun slot below => ?_⟩
    · rw [nextFreeSlot_declare member, filled.next, oneMore]
    · rw [oneMore] at below
      rcases Nat.lt_succ_iff_lt_or_eq.mp below with before | rfl
      · obtain ⟨other, entry, isEntry, isSlot⟩ := filled.used slot before
        exact ⟨other, entry, declare_keeps isEntry name type scope, isSlot⟩
      · exact ⟨name, _, by rw [getElem?_declare member, if_pos rfl], filled.next⟩

end Code.Method

section

variable {params : List Declaration} {offset start : Nat} {table : VariableTable}

/-- The table with parameters in slots one after the other. -/
private def withParams
    (offset start : Nat)
    (params : List Declaration)
    (table : VariableTable) :
    VariableTable :=
  (params.zipIdx start).foldl
    (fun table row =>
      table.insert row.1.name ⟨.ofTypeName row.1.type, .param, offset + row.2⟩)
    table

/-- The first parameter gets the first slot. -/
private theorem withParams_cons
    (param : Declaration)
    (rest : List Declaration) :
    withParams offset start (param :: rest) table =
      withParams offset (start + 1) rest
        (table.insert param.name
          ⟨.ofTypeName param.type, .param, offset + start⟩) :=
  rfl

/-- Names that are no parameters keep their entries. -/
private theorem getElem?_withParams_of_not_mem
    {name : String}
    (notParam : name ∉ params.map Declaration.name) :
    (withParams offset start params table)[name]? = table[name]? := by
  induction params generalizing start table with
  | nil =>
      rfl
  | cons param rest inductionHypothesis =>
      rw [List.map_cons, List.mem_cons, not_or] at notParam
      rw [withParams_cons, inductionHypothesis notParam.2,
        Std.ExtTreeMap.getElem?_insert, if_neg (by simpa using Ne.symm notParam.1)]

/-- Where names are distinct, no parameter takes the entry of another. -/
private theorem getElem?_withParams
    (distinct : (params.map Declaration.name).Nodup)
    {index : Nat}
    {param : Declaration}
    (paramAt : params[index]? = some param) :
    (withParams offset start params table)[param.name]? =
      some ⟨.ofTypeName param.type, .param, offset + (start + index)⟩ := by
  induction params generalizing start table index with
  | nil =>
      cases paramAt
  | cons first rest inductionHypothesis =>
      rw [List.map_cons, List.nodup_cons] at distinct
      rw [withParams_cons]
      cases index with
      | zero =>
          cases paramAt
          rw [getElem?_withParams_of_not_mem distinct.1,
            Std.ExtTreeMap.getElem?_insert_self]
          rfl
      | succ index =>
          rw [inductionHypothesis distinct.2 paramAt, Nat.add_right_comm,
            Nat.add_assoc]

/-- Parameters with new names are all added to the table. -/
private theorem size_withParams
    (distinct : (params.map Declaration.name).Nodup)
    (new : ∀ param ∈ params, param.name ∉ table) :
    (withParams offset start params table).size = table.size + params.length := by
  induction params generalizing start table with
  | nil =>
      rfl
  | cons param rest inductionHypothesis =>
      rw [List.map_cons, List.nodup_cons] at distinct
      rw [List.forall_mem_cons] at new
      have newInRest :
          ∀ other ∈ rest,
            other.name ∉
              table.insert param.name
                ⟨.ofTypeName param.type, .param, offset + start⟩ := by
        intro other member inTable
        rw [Std.ExtTreeMap.mem_insert, Std.LawfulEqCmp.compare_eq_iff_eq] at inTable
        rcases inTable with same | before
        · exact distinct.1 (same ▸ List.mem_map_of_mem member)
        · exact new.2 other member before
      rw [withParams_cons, inductionHypothesis distinct.2 newInRest,
        Std.ExtTreeMap.size_insert,
        if_neg (Std.ExtTreeMap.mem_iff_contains.not.mp new.1), List.length_cons,
        Nat.add_assoc,
        Nat.add_comm 1]

end

namespace MethodDef

/--
Parameters have different names, none of them that of the receiver of the method.
-/
structure DistinctParams (source : MethodDef) : Prop where
  distinct : (source.params.map Declaration.name).Nodup
  notReceiver :
    source.isStatic = false →
    Operand.receiverName ∉ source.params.map Declaration.name

/-- The slots that the receiver takes. -/
def receiverSlots (source : MethodDef) : Nat :=
  if source.isStatic then 0 else 1

/--
The slots of a method in code number its variables. They are distinct and go
from zero on without a gap; the receiver comes first, then the parameters in
order, and all other variables are locals behind them.
-/
structure Numbers
    (source : MethodDef)
    (className : String)
    (method : Method) : Prop where
  distinct :
    ∀ {first second : String} {firstEntry secondEntry : Variable},
      method.table[first]? = some firstEntry →
      method.table[second]? = some secondEntry →
        firstEntry.slot = secondEntry.slot → first = second
  gapless :
    ∀ slot,
      (∃ (name : String) (entry : Variable),
          method.table[name]? = some entry ∧ entry.slot = slot) ↔
        slot < method.table.size
  receiver :
    source.isStatic = false →
      method.table[Operand.receiverName]? = some ⟨.object className, .receiver, 0⟩
  params :
    ∀ {index : Nat} {param : Declaration},
      source.params[index]? = some param →
        method.table[param.name]? =
          some ⟨.ofTypeName param.type, .param, source.receiverSlots + index⟩
  locals :
    ∀ {name : String} {entry : Variable},
      method.table[name]? = some entry →
        (source.isStatic = false → name ≠ Operand.receiverName) →
        name ∉ source.params.map Declaration.name →
          entry.scope = .localVar ∧ method.baseSlot ≤ entry.slot

/-- The variables of a method before its parameters. -/
private def receiverVariable
    (source : MethodDef)
    (className : String) : VariableTable :=
  if source.isStatic then
    ∅
  else
    (∅ :
      VariableTable).insert Operand.receiverName ⟨.object className, .receiver, 0⟩

variable {source : MethodDef}

/-- A method begins with its receiver, if it has one, and its parameters. -/
private theorem table_begin
    (className : String) :
    (source.begin className).table =
      withParams source.receiverSlots 0 source.params
        (source.receiverVariable className) :=
  rfl

/-- The first free slot is behind the receiver and the parameters. -/
theorem baseSlot_begin
    (className : String) :
    (source.begin className).baseSlot =
      source.receiverSlots + source.params.length :=
  congrArg (source.receiverSlots + ·) (List.length_map _)

namespace DistinctParams

theorem getElem?_receiver
    (distinctParams : source.DistinctParams)
    (notStatic : source.isStatic = false)
    (className : String) :
    (source.begin className).table[Operand.receiverName]? =
      some ⟨.object className, .receiver, 0⟩ := by
  rw [table_begin,
    getElem?_withParams_of_not_mem (distinctParams.notReceiver notStatic),
    receiverVariable, notStatic, if_neg Bool.false_ne_true,
    Std.ExtTreeMap.getElem?_insert_self]

/-- Parameters have the slots behind the receiver in their order. -/
theorem getElem?_param
    (distinctParams : source.DistinctParams)
    (className : String)
    {index : Nat}
    {param : Declaration}
    (paramAt : source.params[index]? = some param) :
    (source.begin className).table[param.name]? =
      some ⟨.ofTypeName param.type, .param, source.receiverSlots + index⟩ := by
  rw [table_begin, getElem?_withParams distinctParams.distinct paramAt,
    Nat.zero_add]

theorem size_begin
    (distinctParams : source.DistinctParams)
    (className : String) :
    (source.begin className).table.size = (source.begin className).baseSlot := by
  have isReceiver :
      (source.receiverVariable className).size = source.receiverSlots := by
    unfold receiverVariable receiverSlots
    cases source.isStatic <;> rfl
  have new : ∀ param ∈ source.params,
    param.name ∉ source.receiverVariable className := by
    intro param member inTable
    unfold receiverVariable at inTable
    cases isStatic : source.isStatic with
    | true => simp [isStatic] at inTable
    | false =>
        have isName : Operand.receiverName = param.name := by
          simpa [isStatic] using inTable
        exact distinctParams.notReceiver isStatic
          (isName ▸ List.mem_map_of_mem member)
  rw [table_begin, size_withParams distinctParams.distinct new, isReceiver,
    baseSlot_begin]

/-- The receiver and the parameters fill the first slots. -/
theorem begin_filled
    (distinctParams : source.DistinctParams)
    (className : String) :
    (source.begin className).Filled := by
  have isSize := distinctParams.size_begin className
  refine ⟨?_, fun slot below => ?_⟩
  · rw [isSize]
    refine Nat.le_antisymm (Method.nextFreeSlot_le_iff.mpr ⟨Nat.le_refl _, ?_⟩)
      (Method.baseSlot_le_nextFreeSlot _)
    exact fun name entry isEntry => (source.begin_fixed className).below isEntry
  · rcases Nat.lt_or_ge slot source.receiverSlots with isReceiver | behind
    · cases isStatic : source.isStatic with
      | true => simp [receiverSlots, isStatic] at isReceiver
      | false =>
          have isZero : slot = 0 := by
            simpa [receiverSlots, isStatic] using isReceiver
          exact ⟨_, _, distinctParams.getElem?_receiver isStatic className,
            isZero.symm⟩
    · obtain ⟨index, rfl⟩ := Nat.exists_eq_add_of_le behind
      have inside : index < source.params.length := by
        rw [isSize, baseSlot_begin] at below
        exact Nat.lt_of_add_lt_add_left below
      exact ⟨_, _, distinctParams.getElem?_param className
        (List.getElem?_eq_getElem inside), rfl⟩

/--
A method that has grown without gaps from its first variables has
its variables numbered.
-/
theorem numbers
    (distinctParams : source.DistinctParams)
    {className : String}
    {method : Method}
    (grown : Grown (source.begin className) method)
    (filled : method.Filled) :
    source.Numbers className method where
  distinct := grown.apart
  gapless slot := by
    refine ⟨?_, filled.used slot⟩
    rintro ⟨name, entry, isEntry, rfl⟩
    rw [← filled.next]
    exact Method.slot_lt_nextFreeSlot isEntry
  receiver notStatic :=
    grown.keeps (distinctParams.getElem?_receiver notStatic className)
  params paramAt := grown.keeps (distinctParams.getElem?_param className paramAt)
  locals {name entry} isEntry notReceiver notParam := by
    rcases grown.added isEntry with isBegun | ⟨isLocal, behind⟩
    · have first := (source.mem_begin className).mp
        (mem_iff_exists_getElem?.mpr ⟨entry, isBegun⟩)
      rcases first with ⟨notStatic, isReceiver⟩ | isParam
      · exact absurd isReceiver (notReceiver notStatic)
      · have isName : ∃ param ∈ source.params, param.name = name := by
          simpa [Method.isParam, begin, Operand.name?] using isParam
        exact absurd (List.mem_map.mpr isName) notParam
    · exact ⟨isLocal, grown.baseSlot ▸ behind⟩

end DistinctParams

end MethodDef

namespace Lowering

/--
A step of lowering: an expression is read, a temporary is made, or a
statement is lowered.
-/
inductive Step (symbols : Symbols) (state after : Lowering) : Prop
  | expr {expr : Expr} {operand : Operand}
      (ran : Lower.expr symbols expr state = .ok operand after)
  | temporary {type : ValueType} {dest : Operand}
      (ran : Lower.temporary symbols type state = .ok dest after)
  | stmt {stmt : Stmt} {value : Unit}
      (ran : Lower.stmt symbols stmt state = .ok value after)

/-- Any number of steps of lowering, one after the other. -/
def Steps (symbols : Symbols) : Lowering → Lowering → Prop :=
  Relation.ReflTransGen (Step symbols)

/-- What holds across each change of lowering holds across steps of lowering. -/
theorem Closed.steps
    {relation : Lowering → Lowering → Prop}
    (closed : Closed relation)
    {symbols : Symbols}
    {state after : Lowering}
    (steps : Steps symbols state after) :
    relation state after := by
  induction steps with
  | refl =>
      exact closed.refl state
  | tail _ step inductionHypothesis =>
      refine closed.trans inductionHypothesis ?_
      cases step with
      | expr ran => exact closed.expr ran
      | stmt ran => exact closed.stmt ran
      | temporary ran =>
          obtain ⟨rfl, rfl⟩ := Lower.temporary_ok ran
          exact closed.trans
            (closed.count _ _ (Nat.le_succ_of_le (le_freshNumber symbols _)))
            (closed.declare _ _ _)

/-- A method in progress stays without gaps, and no entry of its table changes. -/
theorem closed_filled :
    Closed fun state after =>
      ∀ method, state.current? = some method → method.Filled →
        ∃ later, after.current? = some later ∧ later.Filled ∧
          ∀ {name : String} {entry : Variable},
            method.table[name]? = some entry → later.table[name]? = some entry where
  refl _ method isCurrent filled := ⟨method, isCurrent, filled, id⟩
  trans first second method isCurrent filled := by
    obtain ⟨between, isBetween, betweenFilled, keeps⟩ :=
      first method isCurrent filled
    obtain ⟨later, isLater, laterFilled, keepsOn⟩ :=
      second between isBetween betweenFilled
    exact ⟨later, isLater, laterFilled, fun isEntry => keepsOn (keeps isEntry)⟩
  declare state name type method isCurrent filled :=
    ⟨_, by rw [changeMethod, isCurrent]; rfl, filled.declare name type _,
      fun isEntry => Method.declare_keeps isEntry name type _⟩
  declareParam state name type _ method isCurrent filled :=
    ⟨_, by rw [changeMethod, isCurrent]; rfl, filled.declare name type _,
      fun isEntry => Method.declare_keeps isEntry name type _⟩
  emit state instr method isCurrent filled :=
    ⟨{ method with instrs := method.instrs ++ [instr] },
      by rw [changeMethod, isCurrent]; rfl, ⟨filled.next, filled.used⟩, id⟩
  count _ _ _ method isCurrent filled := ⟨method, isCurrent, filled, id⟩
  assigned _ inner := inner

end Lowering

/-- The statements of a body are steps of lowering. -/
theorem Lower.stmts_steps
    {symbols : Symbols}
    {stmts : List Stmt}
    {state after : Lowering}
    {value : Unit}
    (ran : Lower.stmts symbols stmts state = .ok value after) :
    Lowering.Steps symbols state after := by
  induction stmts generalizing state with
  | nil =>
      obtain ⟨_, rfl⟩ := pure_ok_iff.mp ran
      exact .refl
  | cons first rest inductionHypothesis =>
      obtain ⟨_, _, firstRan, restRan⟩ := bind_ok_iff.mp ran
      exact .head (.stmt firstRan) (inductionHypothesis restRan)

/-- After any steps from its start, a method has its variables numbered. -/
theorem MethodDef.DistinctParams.steps_numbers
    {source : MethodDef}
    (distinctParams : source.DistinctParams)
    {symbols : Symbols}
    {start state : Lowering}
    (isStart : start.current? = some (source.begin symbols.className))
    (steps : Lowering.Steps symbols start state) :
    ∃ method, state.current? = some method ∧ method.Filled ∧
      source.Numbers symbols.className method := by
  have fixed := source.begin_fixed symbols.className
  obtain ⟨method, isCurrent, grown⟩ :=
    (Lowering.closed_grown fun _ isParam =>
      (source.mem_begin symbols.className).mpr (.inr isParam)).steps steps _ isStart
        ⟨rfl, rfl, id, .inl, fixed.apart⟩
  obtain ⟨same, isSame, filled, _⟩ :=
    Lowering.closed_filled.steps steps _ isStart
      (distinctParams.begin_filled symbols.className)
  obtain rfl := Option.some.inj (isCurrent.symm.trans isSame)
  exact ⟨method, isCurrent, filled, distinctParams.numbers grown filled⟩

/--
Slots are an injective numbering without gaps. This holds of the table of every
lowered method whose parameters have different names. It holds as well after any
reads, assignments and temporaries on the way, and no step changes an entry that
is there.
-/
theorem Program.slots_number_variables
    {symbols : Symbols}
    {program : Program}
    {unit : ClassCode}
    (isLowered : program.lower symbols = .ok unit) :
    List.Forall₂
      (fun source lowered =>
        source.DistinctParams →
          source.Numbers symbols.className lowered ∧
            ∀ {start state after : Lowering},
              start.current? = some (source.begin symbols.className) →
              Lowering.Steps symbols start state →
              Lowering.Steps symbols state after →
              ∃ method later,
                state.current? = some method ∧
                  after.current? = some later ∧
                    source.Numbers symbols.className method ∧
                      ∀ {name : String} {entry : Variable},
                        method.table[name]? = some entry →
                        later.table[name]? = some entry)
      program.mainClass.methods unit.methods := by
  refine (Program.lower_forall₂ ?_ isLowered).1
  intro source _ state after lowered _ ran distinctParams
  constructor
  · obtain ⟨inner, stmtsRan, rfl, _⟩ := Lower.method_ok ran
    obtain ⟨method, isCurrent, _, numbers⟩ :=
      distinctParams.steps_numbers rfl (Lower.stmts_steps stmtsRan)
    rw [isCurrent, Option.getD_some]
    exact ⟨numbers.distinct, numbers.gapless, numbers.receiver, numbers.params,
      numbers.locals⟩
  · intro start between later isStart former latter
    obtain ⟨method, isCurrent, filled, numbers⟩ :=
      distinctParams.steps_numbers isStart former
    obtain ⟨grown, isGrown, _, keeps⟩ :=
      Lowering.closed_filled.steps latter method isCurrent filled
    exact ⟨method, grown, isCurrent, isGrown, numbers, keeps⟩

/--
A method that reads a local named like a temporary and needs a temporary itself.
-/
private def tallying : MethodDef where
  name := "tally"
  returnType := .int
  params := [⟨"a", .int⟩, ⟨"b", .int⟩]
  locals := [⟨"x", .int⟩, ⟨"tmp0", .int⟩]
  body :=
    [.assign "x" .int
        (.binary .add (.binary .mul (.var "a" .int) (.var "b" .int) .int)
          (.var "tmp0" .int) .int),
      .ret (some (.var "x" .int))]

private def tallyingProgram : Program where
  mainClass := { name := "A", methods := [tallying] }

/-- The code of the method, with its six variables in six slots. -/
private def tallyingCode : Method where
  name := "tally"
  isStatic := false
  params := [.var "a" .int, .var "b" .int]
  returnType := .int
  instrs :=
    [.store (.var "tmp1" .int) (.binary .mul (.var "a" .int) (.var "b" .int) .int),
      .store (.var "x" .int)
        (.binary .add (.var "tmp1" .int) (.var "tmp0" .int) .int),
      .ret .int (some (.var "x" .int))]
  flow := ⟨[[1], [2], []]⟩
  table :=
    ((((((∅ : VariableTable).insert "this" ⟨.object "A", .receiver, 0⟩).insert
      "a" ⟨.int, .param, 1⟩).insert "b" ⟨.int, .param, 2⟩).insert
      "tmp1" ⟨.int, .localVar, 3⟩).insert "tmp0" ⟨.int, .localVar, 4⟩).insert
      "x" ⟨.int, .localVar, 5⟩

/-- The state in which the body of the method is lowered. -/
private def tallyingStart : Lowering where
  output := { name := "A" }
  current? := some (tallying.begin "A")

/--
The method has six slots; a local that is read first of all keeps
the first slot after those.
-/
theorem slots_number_tallying :
    tallyingProgram.lower (.ofProgram tallyingProgram) =
        .ok { name := "A", methods := [tallyingCode] } ∧
      tallying.DistinctParams ∧
        tallying.Numbers "A" tallyingCode ∧
          ∀ after,
            Lowering.Steps (.ofProgram tallyingProgram)
              (tallyingStart.changeMethod fun method =>
                method.declare "x" .int .localVar) after →
            ∃ later : Method,
              after.current? = some later ∧
                later.table["x"]? = some ⟨.int, .localVar, 3⟩ := by
  have isLowered :
      tallyingProgram.lower (.ofProgram tallyingProgram) =
        .ok { name := "A", methods := [tallyingCode] } := by
    rfl
  have distinctParams : tallying.DistinctParams := ⟨by decide, by decide⟩
  have related := Program.slots_number_variables isLowered
  obtain ⟨numbers, during⟩ := (List.forall₂_cons.mp related).1 distinctParams
  refine ⟨isLowered, distinctParams, numbers, fun after steps => ?_⟩
  have read :
      Lower.expr (.ofProgram tallyingProgram) (.var "x" .int) tallyingStart =
        .ok (.var "x" .int)
          (tallyingStart.changeMethod fun method =>
            method.declare "x" .int .localVar) := by
    rfl
  obtain ⟨method, later, isMethod, isLater, _, keeps⟩ :=
    during rfl (.single (.expr read)) steps
  obtain rfl := Option.some.inj isMethod
  exact ⟨later, isLater, keeps rfl⟩

end MiniJava
