import MiniJava.Proofs.LiveOnEntry

namespace MiniJava

/-!
# Temporaries that a method takes

While a method is lowered, every temporary is declared by the step that takes
it, and the instruction that follows writes to it. No other instruction does:
what else is written has a name of the body. All that reads the temporary comes
later, since its operand is handed out only then.
-/

open Code (Operand ValueType Instr Method temporaryName isTemporaryName)
open Register (operandsOf Reads)

/-- One instruction writes to a name, and all that read the name come after it. -/
def WrittenOnce (name : String) (instrs : List Instr) : Prop :=
  ∃ before writer after,
    instrs = before ++ writer :: after ∧
      writer.destination? = some name ∧
        (∀ instr ∈ before ++ after, instr.destination? ≠ some name) ∧
          ∀ instr ∈ before ++ [writer], ¬Reads name instr

/--
An instruction that comes later and does not write to the name makes no difference.
-/
theorem WrittenOnce.append
    {name : String}
    {instrs : List Instr}
    {instr : Instr}
    (written : WrittenOnce name instrs)
    (unwritten : instr.destination? ≠ some name) :
    WrittenOnce name (instrs ++ [instr]) := by
  obtain ⟨before, writer, after, rfl, writes, others, unread⟩ := written
  refine ⟨before, writer, after ++ [instr], by simp, writes, ?_, unread⟩
  rw [← List.append_assoc, List.forall_mem_append, List.forall_mem_singleton]
  exact ⟨others, unwritten⟩

/--
Instructions that write to each of the temporaries once, in order, and else to
names of the source. They read names of the source and temporaries that have been
written to.
-/
inductive AssignsOnce (named : String → Prop) : List String → List Instr → Prop
  | nothing : AssignsOnce named [] []
  | plain {temporaries : List String} {instrs : List Instr} {instr : Instr}
      (once : AssignsOnce named temporaries instrs)
      (reads : ∀ name, Reads name instr → named name ∨ name ∈ temporaries)
      (writes : ∀ name, instr.destination? = some name → named name) :
      AssignsOnce named temporaries (instrs ++ [instr])
  | draw {temporaries : List String} {instrs : List Instr} {instr : Instr}
    {name : String}
      (once : AssignsOnce named temporaries instrs)
      (reads : ∀ name, Reads name instr → named name ∨ name ∈ temporaries)
      (writes : instr.destination? = some name)
      (unnamed : ¬named name)
      (new : name ∉ temporaries) :
      AssignsOnce named (temporaries ++ [name]) (instrs ++ [instr])

namespace AssignsOnce

variable {named : String → Prop} {temporaries : List String} {instrs : List Instr}

/-- What is read or written is a name of the source or a temporary. -/
theorem known_of_mentioned
    (once : AssignsOnce named temporaries instrs)
    {instr : Instr}
    (member : instr ∈ instrs)
    {name : String}
    (mentioned : Reads name instr ∨ instr.destination? = some name) :
    named name ∨ name ∈ temporaries := by
  induction once with
  | nothing =>
      cases member
  | plain _ reads writes inductionHypothesis =>
      rcases List.mem_append.mp member with before | last
      · exact inductionHypothesis before
      · obtain rfl := List.mem_singleton.mp last
        exact mentioned.elim (reads name) fun isWritten =>
          .inl (writes name isWritten)
  | draw _ reads writes _ _ inductionHypothesis =>
      rw [List.mem_append, List.mem_singleton, ← or_assoc]
      rcases List.mem_append.mp member with before | last
      · exact .inl (inductionHypothesis before)
      · obtain rfl := List.mem_singleton.mp last
        rcases mentioned with isRead | isWritten
        · exact .inl (reads name isRead)
        · exact .inr (Option.some.inj (isWritten.symm.trans writes))

/-- Each temporary is written to once, before it is read. -/
theorem writtenOnce
    (once : AssignsOnce named temporaries instrs)
    {name : String}
    (drawn : name ∈ temporaries)
    (unnamed : ¬named name) :
    WrittenOnce name instrs := by
  induction once with
  | nothing =>
      cases drawn
  | plain _ _ writes inductionHypothesis =>
      exact (inductionHypothesis drawn).append fun isWritten =>
        unnamed (writes name isWritten)
  | @draw temporaries instrs instr fresh once reads writes _ new
    inductionHypothesis =>
      rcases List.mem_append.mp drawn with before | isLast
      · refine (inductionHypothesis before).append fun isWritten => new ?_
        rwa [Option.some.inj (writes.symm.trans isWritten)]
      · obtain rfl := List.mem_singleton.mp isLast
        refine ⟨instrs, instr, [], rfl, writes,
          fun other member isWritten => ?_, ?_⟩
        · rw [List.append_nil] at member
          exact (once.known_of_mentioned member (.inr isWritten)).elim unnamed new
        · intro other member isRead
          rcases List.mem_append.mp member with before | isLast
          · exact (once.known_of_mentioned before (.inl isRead)).elim unnamed new
          · obtain rfl := List.mem_singleton.mp isLast
            exact (reads name isRead).elim unnamed new

end AssignsOnce

namespace Code.Method

variable {method : Method} {name other : String}

theorem mem_declare_iff
    (type : ValueType)
    (scope : Code.Scope) :
    other ∈ (method.declare name type scope).table ↔
      name = other ∨ other ∈ method.table := by
  unfold declare
  split
  case isTrue member =>
    refine ⟨.inr, ?_⟩
    rintro (rfl | before)
    · exact member
    · exact before
  case isFalse =>
    rw [Std.ExtTreeMap.mem_insert, Std.LawfulEqCmp.compare_eq_iff_eq]

theorem instrs_declare
    (type : ValueType)
    (scope : Code.Scope) :
    (method.declare name type scope).instrs = method.instrs := by
  unfold declare
  split <;> rfl

end Code.Method

namespace MethodDef

section

variable (symbols : Symbols) (source : MethodDef)

/-- A name that code takes from the source: the receiver, or a name of the body. -/
def Gives (name : String) : Prop :=
  name = Operand.receiverName ∨ name ∈ source.names

/--
The code of a method has temporaries with numbers in a range, and
assigns to each once.
-/
structure Draws
    (first last : Nat)
    (method : Method)
    (temporaries : List String) : Prop where
  order : first ≤ last
  once : AssignsOnce (source.Gives) temporaries method.instrs
  numbered :
    ∀ name ∈ temporaries, ∃ number,
      first ≤ number ∧ number < last ∧ name = temporaryName number ∧
        symbols.declares source.name name = false
  added :
    ∀ name ∈ temporaries,
      name ∈ method.table ∧ name ∉ (source.begin symbols.className).table
  known :
    ∀ name ∈ method.table,
      name ∈ (source.begin symbols.className).table ∨
        name ∈ source.names ∨ name ∈ temporaries

/--
The method is in progress with temporaries from a number on. Operands are names
of the source, temporaries that have been written to, or literals.
-/
def Supplies (first : Nat) (operands : List Operand) (state : Lowering) : Prop :=
  source.Running symbols (source.firstNames symbols) state ∧
    ∃ method temporaries,
      state.current? = some method ∧
        source.Draws symbols first state.nextTemporary method temporaries ∧
          ∀ operand ∈ operands, ∀ name, operand.name? = some name →
            source.Gives name ∨ name ∈ temporaries

end

variable {symbols : Symbols} {source : MethodDef} {first last : Nat}

/-- A name of the source is no name of a new temporary. -/
theorem not_gives_temporaryName
    (declared : source.TemporariesDeclared symbols)
    {number : Nat}
    (undeclared : symbols.declares source.name (temporaryName number) = false) :
    ¬source.Gives (temporaryName number) := by
  have isTemporary := Code.isTemporaryName_temporaryName number
  rintro (isReceiver | isName)
  · rw [isReceiver] at isTemporary
    revert isTemporary
    decide
  · rw [declared _ isName isTemporary] at undeclared
    cases undeclared

namespace Draws

variable {method : Method} {temporaries : List String}

theorem declare
    (draws : source.Draws symbols first last method temporaries)
    {name : String}
    (named : name ∈ source.names)
    (type : ValueType)
    (scope : Code.Scope) :
    source.Draws symbols first last (method.declare name type scope)
      temporaries where
  order := draws.order
  once := by
    rw [Method.instrs_declare]
    exact draws.once
  numbered := draws.numbered
  added other isDrawn :=
    ⟨(Method.mem_declare_iff type scope).mpr (.inr (draws.added other isDrawn).1),
      (draws.added other isDrawn).2⟩
  known other member := by
    rcases (Method.mem_declare_iff type scope).mp member with rfl | before
    · exact .inr (.inl named)
    · exact draws.known other before

theorem emit
    (draws : source.Draws symbols first last method temporaries)
    {instr : Instr}
    (reads : ∀ name, Reads name instr → source.Gives name ∨ name ∈ temporaries)
    (writes : ∀ name, instr.destination? = some name → source.Gives name) :
    source.Draws symbols first last
      { method with instrs := method.instrs ++ [instr] } temporaries :=
  ⟨draws.order, .plain draws.once reads writes, draws.numbered, draws.added,
    draws.known⟩

/-- A new temporary is declared and written to by the instruction that follows. -/
theorem draw
    (declared : source.TemporariesDeclared symbols)
    (draws : source.Draws symbols first last method temporaries)
    {number : Nat}
    (behind : last ≤ number)
    (undeclared : symbols.declares source.name (temporaryName number) = false)
    (notFirst : temporaryName number ∉ (source.begin symbols.className).table)
    {value : Instr}
    (reads : ∀ name, Reads name value → source.Gives name ∨ name ∈ temporaries)
    (type : ValueType) :
    source.Draws symbols first (number + 1)
      { method.declare (temporaryName number) type .localVar with
        instrs :=
          (method.declare (temporaryName number) type .localVar).instrs ++
            [.store (.var (temporaryName number) type) value] }
      (temporaries ++ [temporaryName number]) where
  order := Nat.le_succ_of_le (draws.order.trans behind)
  once := by
    rw [Method.instrs_declare]
    have ungiven := not_gives_temporaryName declared undeclared
    refine .draw draws.once reads rfl ungiven fun isDrawn => ?_
    -- The temporaries so far have numbers before the new one.
    obtain ⟨own, _, before, same, _⟩ := draws.numbered _ isDrawn
    have := Code.temporaryName_injective same
    omega
  numbered := by
    rw [List.forall_mem_append, List.forall_mem_singleton]
    refine ⟨fun name isDrawn => ?_,
      number, draws.order.trans behind, Nat.lt_succ_self number, rfl, undeclared⟩
    obtain ⟨own, above, before, isName, ownUndeclared⟩ :=
      draws.numbered name isDrawn
    exact ⟨own, above, by omega, isName, ownUndeclared⟩
  added := by
    rw [List.forall_mem_append, List.forall_mem_singleton]
    refine ⟨fun name isDrawn => ?_,
      (Method.mem_declare_iff type .localVar).mpr (.inl rfl), notFirst⟩
    exact ⟨(Method.mem_declare_iff type .localVar).mpr
      (.inr (draws.added name isDrawn).1), (draws.added name isDrawn).2⟩
  known other member := by
    rw [List.mem_append, List.mem_singleton]
    rcases (Method.mem_declare_iff type .localVar).mp member with rfl | before
    · exact .inr (.inr (.inr rfl))
    · exact (draws.known other before).imp_right (.imp_right .inl)

end Draws

namespace Supplies

variable {operands others : List Operand} {state after : Lowering}

theorem mono
    (supplies : source.Supplies symbols first operands state)
    (among : others ⊆ operands) :
    source.Supplies symbols first others state := by
  obtain ⟨running, method, temporaries, isCurrent, draws, available⟩ := supplies
  exact ⟨running, method, temporaries, isCurrent, draws,
    fun operand member => available operand (among member)⟩

/-- Operands that name nothing but the source are always there. -/
theorem cons
    (supplies : source.Supplies symbols first operands state)
    {operand : Operand}
    (given : ∀ name, operand.name? = some name → source.Gives name) :
    source.Supplies symbols first (operand :: operands) state := by
  obtain ⟨running, method, temporaries, isCurrent, draws, available⟩ := supplies
  refine ⟨running, method, temporaries, isCurrent, draws, ?_⟩
  rw [List.forall_mem_cons]
  exact ⟨fun name isName => .inl (given name isName), available⟩

theorem literal
    (supplies : source.Supplies symbols first operands state)
    (value : Int32)
    (type : ValueType) :
    source.Supplies symbols first (.literal value type :: operands) state := by
  refine supplies.cons fun name isName => ?_
  cases isName

theorem receiver
    (supplies : source.Supplies symbols first operands state) :
    source.Supplies symbols first (.receiver symbols.className :: operands) state :=
  supplies.cons fun _ isName => .inl (Option.some.inj isName).symm

theorem var
    (supplies : source.Supplies symbols first operands state)
    {name : String}
    (named : name ∈ source.names)
    (type : ValueType) :
    source.Supplies symbols first (.var name type :: operands) state := by
  refine supplies.cons fun other isName => ?_
  obtain rfl := Option.some.inj isName
  exact .inr named

theorem declare
    (supplies : source.Supplies symbols first operands state)
    {name : String}
    (named : name ∈ source.names)
    (type : ValueType)
    (scope : Code.Scope) :
    source.Supplies symbols first operands
      (state.changeMethod fun method => method.declare name type scope) := by
  obtain ⟨running, method, temporaries, isCurrent, draws, available⟩ := supplies
  exact ⟨(running.declare name type scope).mono (List.subset_insert _ _), _,
    temporaries, by
      rw [Lowering.changeMethod, isCurrent]; rfl, draws.declare named type scope,
        available⟩

theorem swap
    {left right : Operand}
    (supplies : source.Supplies symbols first (right :: left :: operands) state) :
    source.Supplies symbols first (left :: right :: operands) state :=
  supplies.mono (List.Perm.swap right left operands).subset

theorem withAssigned
    (supplies : source.Supplies symbols first operands state)
    (assigned? : Option TypeName) :
    source.Supplies symbols first operands { state with assigned? } :=
  supplies

/--
An instruction takes operands that are there and writes to a name of the source.
-/
theorem append
    {instr : Instr}
    (supplies : source.Supplies symbols first (operandsOf instr ++ operands) state)
    (writes : ∀ name, instr.destination? = some name → source.Gives name) :
    source.Supplies symbols first operands
      (state.changeMethod fun method =>
        { method with instrs := method.instrs ++ [instr] }) := by
  obtain ⟨running, method, temporaries, isCurrent, draws, available⟩ := supplies
  rw [List.forall_mem_append] at available
  refine ⟨running.emit instr, _, temporaries,
    by
      rw [Lowering.changeMethod, isCurrent]; rfl, draws.emit ?_ writes, available.2⟩
  rintro name ⟨operand, isOperand, isName⟩
  exact available.1 operand isOperand name isName

theorem emit
    {instr : Instr}
    (supplies : source.Supplies symbols first (operandsOf instr ++ operands) state)
    (noDestination : instr.destination? = none) :
    source.Supplies symbols first operands
      (state.changeMethod fun method =>
        { method with instrs := method.instrs ++ [instr] }) :=
  supplies.append fun _ isDestination => by simp [noDestination] at isDestination

/-- An instruction that writes to a name of the source uses its operands up. -/
theorem store
    {value : Instr}
    {name : String}
    (supplies : source.Supplies symbols first (operandsOf value ++ operands) state)
    (named : name ∈ source.names)
    (type : ValueType) :
    source.Supplies symbols first operands
      (state.changeMethod fun method =>
        { method with instrs :=
            method.instrs ++ [.store (.var name type) value] }) := by
  have operandsThere :
      source.Supplies symbols first
        (operandsOf (.store (.var name type) value) ++ operands) state :=
    supplies
  refine operandsThere.append fun other isDestination => ?_
  obtain rfl := Option.some.inj isDestination
  exact .inr named

/-- A value is stored in a new temporary, which is there from then on. -/
theorem intoTemporary
    {type : ValueType}
    {value : Instr}
    {dest : Operand}
    (ran : Lower.intoTemporary symbols type value state = .ok dest after)
    (declared : source.TemporariesDeclared symbols)
    (supplies :
      source.Supplies symbols first (operandsOf value ++ operands) state) :
    source.Supplies symbols first (dest :: operands) after := by
  obtain ⟨_, temporaryRan, rfl⟩ := Lower.intoTemporary_ok ran
  obtain ⟨rfl, rfl⟩ := Lower.temporary_ok temporaryRan
  obtain ⟨running, method, temporaries, isCurrent, draws, available⟩ := supplies
  rw [List.forall_mem_append] at available
  have free := Lowering.freshNumber_free symbols state
  have undeclared :
      symbols.declares source.name
        (temporaryName (state.freshNumber symbols)) = false := by
    rw [Lowering.isTaken, running.methodName, Bool.or_eq_false_iff] at free
    exact free.1
  have notFirst :
      temporaryName (state.freshNumber symbols) ∉
        (source.begin symbols.className).table := by
    obtain ⟨_, isMethod, _, keeps⟩ := running
    obtain rfl := Option.some.inj (isCurrent.symm.trans isMethod)
    intro inBegin
    rw [Lowering.isTaken, Bool.or_eq_false_iff, Lowering.hasVariable, isCurrent]
      at free
    simp [keeps _ (mem_firstNames.mpr inBegin)] at free
  have reads :
      ∀ name, Reads name value → source.Gives name ∨ name ∈ temporaries := by
    rintro name ⟨operand, isOperand, isName⟩
    exact available.1 operand isOperand name isName
  have counted :
      source.Running symbols (source.firstNames symbols)
        { state with nextTemporary := state.freshNumber symbols + 1 } :=
    running
  refine ⟨((counted.declare _ _ _).mono (List.subset_insert _ _)).emit _, _, _, ?_,
    draws.draw declared (Lowering.le_freshNumber symbols state) undeclared
      notFirst reads type, ?_⟩
  · simp only [Lowering.changeMethod, isCurrent, Option.map_some]
  · rw [List.forall_mem_cons]
    refine ⟨fun name isDest => .inr ?_, fun operand member name isOperand => ?_⟩
    · rw [← Option.some.inj isDest]
      exact List.mem_append_right _ List.mem_cons_self
    · exact (available.2 operand member name isOperand).imp_right
        (List.mem_append_left _)

end Supplies

end MethodDef

end MiniJava
