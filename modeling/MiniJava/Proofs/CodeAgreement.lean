import MiniJava.Proofs.RunRelation
import MiniJava.Proofs.Semantics.Code
import MiniJava.Register.Liveness

namespace MiniJava.Code

/-!
# Code on stores of two kinds

An instruction sees its store through the operands it uses and changes it at its
destination only. Where two stores hold the same for the operands, the
instruction does the same on both.
-/

namespace Instr

/--
The operands whose contents an instruction uses; the target of a
static call has none.
-/
def used : Instr → List Operand
  | .assign _ _ value => value.used
  | .call .static _ _ arguments _ => arguments
  | other => Register.operandsOf other

/-- The name that an instruction writes to. -/
def destination? : Instr → Option String
  | .assign dest _ _ => dest.name?
  | _ => none

/-- The operands that an instruction uses are among those it reads. -/
theorem used_subset_operandsOf
    (instr : Instr) :
    instr.used ⊆ Register.operandsOf instr := by
  induction instr with
  | assign dest type value inductionHypothesis =>
      exact inductionHypothesis
  | call kind target method arguments result =>
      cases kind with
      | static =>
          exact List.subset_cons_self target arguments
      | virtual =>
          exact List.Subset.refl _
      | special =>
          exact List.Subset.refl _
  | _ =>
      exact List.Subset.refl _

end Instr

/--
The variable that the analysis sees written is the destination, if the table has it.
-/
theorem writes?_eq
    (table : VariableTable)
    (instr : Instr) :
    Register.writes? table instr = instr.destination?.filter (· ∈ table) := by
  cases instr with
  | assign dest type value =>
      rfl
  | _ =>
      rfl

namespace Setting

variable {Event First Second : Type}
  {first : Setting Event First} {second : Setting Event Second}
  {firstStore : Store First} {secondStore : Store Second} {instr : Instr}

theorem arguments_congr
    {kind : CallKind}
    {target : Operand}
    {method : String}
    {arguments : List Operand}
    {result : ValueType}
    (agree :
      ∀ operand ∈ (Instr.call kind target method arguments result).used,
        first.held firstStore operand = second.held secondStore operand) :
    arguments.map (first.held firstStore) =
      arguments.map (second.held secondStore) := by
  refine List.map_congr_left fun argument member => agree argument ?_
  cases kind <;> simp [Instr.used, Register.operandsOf, member]

theorem callee_congr
    {kind : CallKind}
    {target : Operand}
    {method : String}
    {arguments : List Operand}
    {result : ValueType}
    (agree :
      ∀ operand ∈ (Instr.call kind target method arguments result).used,
        first.held firstStore operand = second.held secondStore operand) :
    first.callee firstStore kind target =
      second.callee secondStore kind target := by
  cases kind with
  | static =>
      rfl
  | virtual =>
      simp only [callee, agree target (by simp [Instr.used, Register.operandsOf])]
  | special =>
      simp only [callee, agree target (by simp [Instr.used, Register.operandsOf])]

/-- An instruction computes the same where its operands hold the same. -/
theorem compute_congr
    (sameEnvironment : first.toEnvironment = second.toEnvironment)
    (agree :
      ∀ operand ∈ instr.used, first.held firstStore operand =
        second.held secondStore operand) :
    first.compute firstStore instr = second.compute secondStore instr := by
  cases instr with
  | assign dest type value =>
      rfl
  | ret type value =>
      rfl
  | putField object field value =>
      rfl
  | newObject className type =>
      simp only [compute, sameEnvironment]
  | call kind target method arguments result =>
      simp only [compute, callee_congr agree, arguments_congr agree,
        sameEnvironment]
  | single operand =>
      simp only [compute, agree operand (by simp [Instr.used, Register.operandsOf])]
  | binary operator left right type =>
      simp only [compute, agree left (by simp [Instr.used, Register.operandsOf]),
        agree right (by simp [Instr.used, Register.operandsOf])]
  | newArray size type =>
      simp only [compute, agree size (by simp [Instr.used, Register.operandsOf]),
        sameEnvironment]
  | element array index type =>
      simp only [compute, agree array (by simp [Instr.used, Register.operandsOf]),
        agree index (by simp [Instr.used, Register.operandsOf]), sameEnvironment]
  | length array type =>
      simp only [compute, agree array (by simp [Instr.used, Register.operandsOf]),
        sameEnvironment]
  | getField object field =>
      simp only [compute, agree object (by simp [Instr.used, Register.operandsOf]),
        sameEnvironment]

variable [DecidableEq First] [DecidableEq Second]

/--
An instruction has changed two stores alike: not at all, or at its destination.
-/
inductive ChangedAlike
    (first : Setting Event First)
    (second : Setting Event Second)
    (instr : Instr)
    (firstStore : Store First)
    (secondStore : Store Second) :
    Store First → Store Second → Prop where
  | unchanged :
      instr.destination? = none →
      ChangedAlike first second instr firstStore secondStore firstStore secondStore
  | written {name : String} {firstPlace : First} {secondPlace : Second}
    (value : Value) :
      instr.destination? = some name →
      first.locate name = some firstPlace →
      second.locate name = some secondPlace →
      ChangedAlike first second instr firstStore secondStore
        (Function.update firstStore firstPlace (some value))
        (Function.update secondStore secondPlace (some value))

/-- An instruction does the same on two stores where its operands hold the same. -/
theorem exec_related
    (sameEnvironment : first.toEnvironment = second.toEnvironment)
    (agree :
      ∀ operand ∈ instr.used, first.held firstStore operand =
        second.held secondStore operand)
    (located :
      ∀ name, instr.destination? = some name →
        (first.locate name).isSome = (second.locate name).isSome) :
    Run.Related (ChangedAlike first second instr firstStore secondStore)
      (first.exec firstStore instr) (second.exec secondStore instr) := by
  cases instr with
  | assign dest type value =>
      have sameValue :
          first.compute firstStore value = second.compute secondStore value :=
        compute_congr sameEnvironment agree
      simp only [exec, sameValue]
      refine (Run.Related.self _).bind ?_
      rintro result _ rfl
      cases dest with
      | literal number literalType =>
          exact .throw _ _
      | var name destType =>
          have sameLocated := located name rfl
          simp only [write]
          cases firstAt : first.locate name with
          | none =>
              rw [firstAt, Option.isSome_none, eq_comm, Option.isSome_eq_false_iff,
                Option.isNone_iff_eq_none] at sameLocated
              rw [sameLocated]
              exact .throw _ _
          | some firstPlace =>
              rw [firstAt, Option.isSome_some, eq_comm] at sameLocated
              obtain ⟨secondPlace, secondAt⟩ :=
                Option.isSome_iff_exists.mp sameLocated
              simp only [secondAt, Run.require_some, pure_bind]
              split
              · exact .pure (.written result rfl firstAt secondAt)
              · exact .throw _ _
  | call kind target method arguments result =>
      simp only [exec, callee_congr agree, arguments_congr agree, sameEnvironment]
      refine (Run.Related.self _).bind ?_
      rintro callee _ rfl
      exact (Run.Related.self _).bind fun _ _ _ => .pure (.unchanged rfl)
  | ret type value =>
      cases value with
      | none =>
          exact .throw _ _
      | some operand =>
          have sameHeld := agree operand (by simp [Instr.used, Register.operandsOf])
          simp only [exec, sameHeld]
          refine (Run.Related.self _).bind ?_
          rintro result _ rfl
          split
          · exact .throw _ _
          · exact .throw _ _
  | putField object field stored =>
      have sameObject := agree object (by simp [Instr.used, Register.operandsOf])
      have sameStored := agree stored (by simp [Instr.used, Register.operandsOf])
      simp only [exec, sameObject, sameStored, sameEnvironment]
      exact (Run.Related.self _).bind fun _ _ _ => .pure (.unchanged rfl)
  | _ =>
      simp only [exec, compute_congr sameEnvironment agree]
      exact (Run.Related.self _).bind fun _ _ _ => .pure (.unchanged rfl)

end Setting

end MiniJava.Code
