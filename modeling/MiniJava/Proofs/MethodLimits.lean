import Mathlib.Data.List.Count
import Mathlib.Order.Bounds.Defs
import MiniJava.Proofs.EmissionClasses
import MiniJava.Proofs.EmissionLevels

namespace MiniJava.Assembly

/-!
# Limits of emitted methods

A method declares how deep its stack gets and how many slots it has. The body of
a method is one leveled segment after the other, one for each instruction, and
the stack is empty between them. So the declared depth is the greatest that any
path has, and every jump stays in its segment.

A path may start at any segment: the code behind a return is not reached from
the start of the body, but the limits take it in.

All this is of emission with checked arithmetic. Where it is not checked, limits
that leave their range wrap around, and a body needs more than they declare. An
instruction leaves at most one value more on the stack, so that takes 2 ^ 31 lines,
or the last slot that can be counted.
-/

open Code (Method ClassCode Operand)

/--
A path from the start of a segment, where the stack is empty, comes to a position.
-/
def Arrives (segments : List (List Jvm.Instr)) (position depth : Nat) : Prop :=
  ∃ index ≤ segments.length,
    Jvm.Path segments.flatten (segmentStart segments index, 0) (position, depth)

/--
A segment is what emission appends to the body of a method for an instruction.
-/
def EmittedFor
    (unit : ClassCode)
    (method : Method)
    (instr : Code.Instr)
    (segment : List Jvm.Instr) : Prop :=
  ∃ state after,
    state.current? = some method ∧
      Emit.code unit instr state = .ok () after ∧
        after.body = state.body ++ segment

/--
The body that segments make up keeps to its limits, and its control
flow is well formed.
-/
structure Verified
    (segments : List (List Jvm.Instr))
    (reserved stack locals : Nat) : Prop where
  /-- An instruction never takes more than is on the stack. -/
  enough :
    ∀ {position depth : Nat} {instr : Jvm.Instr},
      Arrives segments position depth →
      segments.flatten[position]? = some instr →
      instr.pops ≤ depth
  /-- Some path comes to every position. -/
  reached :
    ∀ {position : Nat},
      position ≤ segments.flatten.length →
      ∃ depth, Arrives segments position depth
  /-- All paths to a position have the same depth. -/
  agree :
    ∀ {position first second : Nat},
      Arrives segments position first →
      Arrives segments position second →
      first = second
  /-- The stack is empty between the code of two instructions. -/
  between :
    ∀ {index depth : Nat},
      index ≤ segments.length →
      Arrives segments (segmentStart segments index) depth →
      depth = 0
  /-- The limit of the stack is the greatest depth that a path has. -/
  greatestDepth :
    IsGreatest {depth | ∃ position, Arrives segments position depth} stack
  /-- The stack of the machine never has more values. -/
  running :
    ∀ {world : World Jvm.Event} {index : Nat} {slots : Nat → Option Value}
      {events later : List Jvm.Event} {state : Jvm.State},
      index ≤ segments.length →
      Jvm.Reaches world segments.flatten
        (⟨segmentStart segments index, [], slots⟩, events) (state, later) →
      state.stack.length ≤ stack
  /--
  The limit of the slots is the least that is above all used and reserved slots.
  -/
  leastLocals :
    IsLeast
      {bound |
        reserved ≤ bound ∧
          ∀ instr ∈ segments.flatten, ∀ slot, instr.slot? = some slot →
          slot < bound}
      locals
  /-- A jump leads to a label behind it. -/
  forward :
    ∀ {position : Nat} {instr : Jvm.Instr} {name : String},
      segments.flatten[position]? = some instr →
      instr.jumpTarget? = some name →
      ∃ next, position < next ∧ segments.flatten[next]? = some (.label name)

/--
The levels of a body of segments, which are zero at the start of each segment.
-/
structure Segmented
    (segments : List (List Jvm.Instr))
    (levels : List Nat) : Prop where
  leveled : Jvm.Leveled 0 segments.flatten levels 0
  starts :
    ∀ {index : Nat},
      index ≤ segments.length →
      (0 :: levels)[segmentStart segments index]? = some 0
  arrives :
    ∀ {position level : Nat},
      (0 :: levels)[position]? = some level →
      Arrives segments position level

namespace Segmented

variable {segments : List (List Jvm.Instr)} {levels others : List Nat}

/-- A body without segments has one position, with an empty stack. -/
theorem nil : Segmented [] [] where
  leveled := .nothing 0
  starts := by
    intro index inside
    obtain rfl := Nat.le_zero.mp inside
    rfl
  arrives := by
    intro position level isLevel
    cases position with
    | zero =>
        cases isLevel
        exact ⟨0, Nat.le_refl _, .refl⟩
    | succ position => cases isLevel

/-- A segment that returns only at its end is passed through from its start. -/
theorem cons
    {segment : List Jvm.Instr}
    (leveled : Jvm.Leveled 0 segment levels 0)
    (returns : ∀ instr ∈ segment.dropLast, instr.isReturn = false)
    (apart : ∀ name, .label name ∈ segment → .label name ∉ segments.flatten)
    (rest : Segmented segments others) :
    Segmented (segment :: segments) (levels ++ others) where
  leveled := leveled.append rest.leveled apart
  starts := by
    intro index inside
    cases index with
    | zero => rfl
    | succ index =>
        have isBehind :
            segmentStart (segment :: segments) (index + 1) =
              segment.length + segmentStart segments index := by
          simp [segmentStart]
        rw [isBehind, leveled.level_right others]
        exact rest.starts (Nat.le_of_succ_le_succ inside)
  arrives := by
    intro position level isLevel
    by_cases inside : position < segment.length
    · rw [leveled.level_left others (Nat.le_of_lt inside)] at isLevel
      refine ⟨0, Nat.zero_le _, ?_⟩
      have reached : Jvm.Path segment (0, 0) (position, level) := by
        apply leveled.reached isLevel
        intro instr member
        apply returns
        rw [List.dropLast_eq_take]
        exact List.take_subset_take_left _ (Nat.le_sub_one_of_lt inside) member
      simpa [segmentStart] using reached.placed [] segments.flatten
    · obtain ⟨inner, rfl⟩ := Nat.exists_eq_add_of_le (Nat.le_of_not_lt inside)
      rw [leveled.level_right others] at isLevel
      obtain ⟨index, isIndex, path⟩ := rest.arrives isLevel
      refine ⟨index + 1, Nat.succ_le_succ isIndex, ?_⟩
      simpa [segmentStart] using path.placed segment []

/-- A path arrives with the level of the position. -/
theorem level_of_arrives
    (segmented : Segmented segments levels)
    {position depth : Nat}
    (arrived : Arrives segments position depth) :
    (0 :: levels)[position]? = some depth := by
  obtain ⟨index, isIndex, path⟩ := arrived
  exact segmented.leveled.level_of_path path (segmented.starts isIndex)

/--
The greatest level is that of a position, since limits take in nothing but levels.
-/
theorem isGreatest
    (segmented : Segmented segments levels)
    {limits : Jvm.Limits}
    (covered : Jvm.Limits.Covers {} limits segments.flatten levels)
    (inRange : limits.depthOverflowed = false) :
    IsGreatest {depth | ∃ position, Arrives segments position depth}
        limits.maxDepth.toInt.toNat ∧
      limits.maxDepth.toInt = limits.maxDepth.toInt.toNat := by
  have covers (bound : Int) :
      limits.maxDepth.toInt ≤ bound ↔ ∀ level ∈ 0 :: levels,
        (level : Int) ≤ bound := by
    rw [covered.stack inRange, List.forall_mem_cons]
    rfl
  generalize limits.maxDepth.toInt = deepest at covers ⊢
  have isNatural : deepest = deepest.toNat := by
    have isZero := (covers deepest).mp (Int.le_refl _) 0 List.mem_cons_self
    omega
  refine ⟨⟨?_, ?_⟩, isNatural⟩
  · by_contra unreached
    have smaller : deepest ≤ deepest - 1 := by
      apply (covers _).mpr
      intro level member
      have atMost := (covers deepest).mp (Int.le_refl _) level member
      obtain ⟨position, isLevel⟩ := List.mem_iff_getElem?.mp member
      have different : level ≠ deepest.toNat := by
        rintro rfl
        exact unreached ⟨position, segmented.arrives isLevel⟩
      omega
    omega
  · rintro depth ⟨position, arrived⟩
    have member := List.mem_of_getElem? (segmented.level_of_arrives arrived)
    have atMost := (covers deepest).mp (Int.le_refl _) depth member
    omega

/-- A body keeps to limits that take it in and stay in their range. -/
theorem verified
    (segmented : Segmented segments levels)
    {limits : Jvm.Limits}
    (covered : Jvm.Limits.Covers {} limits segments.flatten levels)
    (inRange : limits.overflowed = false)
    (reserved : Nat) :
    Verified segments reserved limits.maxDepth.toInt.toNat
      (limits.maxLocals reserved) where
  enough := by
    intro position depth instr arrived found
    obtain ⟨rest, isLevel, _⟩ := segmented.leveled.each found
    have sameLevel := isLevel.symm.trans (segmented.level_of_arrives arrived)
    rw [← Option.some.inj sameLevel]
    exact Nat.le_add_left _ _
  reached := by
    intro position inside
    have isLevel : position < (0 :: levels).length := by
      rw [List.length_cons, segmented.leveled.count]
      exact Nat.lt_succ_of_le inside
    exact ⟨_, segmented.arrives (List.getElem?_eq_getElem isLevel)⟩
  agree := by
    intro position first second firstArrived secondArrived
    exact Option.some.inj
      ((segmented.level_of_arrives firstArrived).symm.trans
        (segmented.level_of_arrives secondArrived))
  between := by
    intro index depth isIndex arrived
    exact Option.some.inj
      ((segmented.level_of_arrives arrived).symm.trans (segmented.starts isIndex))
  greatestDepth :=
    (segmented.isGreatest covered (Bool.or_eq_false_iff.mp inRange).1).1
  running := by
    intro world index slots events later state isIndex reaches
    have greatest :=
      segmented.isGreatest covered (Bool.or_eq_false_iff.mp inRange).1
    exact greatest.1.2 ⟨state.position, index, isIndex, reaches.path⟩
  leastLocals := by
    have isBound (bound : Nat) :
        limits.maxLocals reserved ≤ bound ↔
          reserved ≤ bound ∧
            ∀ instr ∈ segments.flatten, ∀ slot, instr.slot? = some slot →
            slot < bound := by
      rw [Jvm.Limits.maxLocals_le_iff inRange, covered.slots]
      exact and_congr_right fun _ => and_iff_right (Jvm.Limits.slotsBelow_start _)
    exact ⟨(isBound _).mp (Nat.le_refl _), fun bound isEnough =>
      (isBound bound).mpr isEnough⟩
  forward := segmented.leveled.forward

end Segmented

/-- The code of instructions is one leveled segment after the other. -/
theorem codes_segmented
    {unit : ClassCode}
    {method : Method}
    {instrs : List Code.Instr}
    {state after : Emitter}
    {value : Unit}
    (current : state.current? = some method)
    (empty : state.limits.At 0)
    (ran : Emit.codes unit instrs state = .ok value after) :
    ∃ segments levels,
      List.Forall₂ (EmittedFor unit method) instrs segments ∧
        state.Appends after 0 segments.flatten levels 0 ∧
          Segmented segments levels := by
  induction instrs generalizing state with
  | nil =>
      obtain ⟨_, rfl⟩ := pure_ok_iff.mp ran
      exact ⟨[], [], .nil, .nothing state empty, .nil⟩
  | cons first rest inductionHypothesis =>
      obtain ⟨_, between, firstRan, restRan⟩ := bind_ok_iff.mp ran
      obtain ⟨segment, levels, former, returns⟩ := code_appends empty firstRan
      obtain ⟨segments, others, emitted, latter, segmented⟩ :=
        inductionHypothesis (former.current.trans current) former.depth restRan
      have apart := former.apart latter.toExtends
      exact ⟨segment :: segments, levels ++ others,
        .cons ⟨state, between, current, firstRan, former.body⟩ emitted,
        former.trans latter, segmented.cons former.leveled returns apart⟩

/-- The labels in the lines have numbers that were given out, each label once. -/
structure Emitter.LabelsOnce (state : Emitter) : Prop where
  below :
    ∀ name, .code (.label name) ∈ state.lines → ∃ number < state.labels,
      Numbered number name
  once : ∀ name, state.lines.count (.code (.label name)) ≤ 1

/-- An instruction occurs as often in the lines of a method as in its body. -/
private theorem count_methodLines
    (unit : ClassCode)
    (method : Method)
    (limits : Jvm.Limits)
    (body : List Jvm.Instr)
    (instr : Jvm.Instr) :
    (methodLines unit method limits body).count (.code instr) =
      body.count instr := by
  have injective : Function.Injective Line.code :=
    fun _ _ same => Line.code.inj same
  rw [← List.count_map_of_injective body Line.code injective instr]
  simp [methodLines]

namespace Emitter.LabelsOnce

/-- Lines without labels change nothing. -/
theorem unlabeled
    {state : Emitter}
    (labels : state.LabelsOnce)
    (added : List Line)
    (none : ∀ name, .code (.label name) ∉ added) :
    ({ state with lines := state.lines ++ added } : Emitter).LabelsOnce where
  below := by
    intro name member
    rcases List.mem_append.mp member with isOld | isNew
    · exact labels.below name isOld
    · exact absurd isNew (none name)
  once := by
    intro name
    rw [List.count_append, List.count_eq_zero.mpr (none name)]
    exact labels.once name

/-- The lines before the methods of a class have no labels. -/
theorem ofClass
    (unit : ClassCode) :
    ({ lines := classLines unit } : Emitter).LabelsOnce := by
  have startLabels : ({} : Emitter).LabelsOnce := ⟨nofun, fun _ => Nat.zero_le _⟩
  exact startLabels.unlabeled (classLines unit) (by simp [classLines])

end Emitter.LabelsOnce

/-- Limits that a method declares are kept by the segments of its body. -/
def KeepsLimits
    (method : Method)
    (limits : Jvm.Limits)
    (segments : List (List Jvm.Instr)) :
    Prop :=
  ∃ stack : Nat,
    limits.maxDepth.toInt = stack ∧
      Verified segments method.baseSlot stack (limits.maxLocals method.baseSlot)

/--
Lines are few enough, and their slots low enough, to be counted in machine words.
-/
structure InBounds (lines : List Line) : Prop where
  few : lines.length < 2147483648
  low :
    ∀ instr slot,
      .code instr ∈ lines →
      instr.slot? = some slot →
      slot + 1 < UInt64.size

/-- What comes first in lines is in bounds with them. -/
theorem InBounds.left
    {first second : List Line}
    (bounded : InBounds (first ++ second)) :
    InBounds first where
  few := by
    have few := bounded.few
    rw [List.length_append] at few
    omega
  low := by
    intro instr slot member
    exact bounded.low instr slot (List.mem_append_left _ member)

/-- The limits of a method whose lines are in bounds do not leave their range. -/
theorem InBounds.not_overflowed
    {before : List Line}
    {unit : ClassCode}
    {method : Method}
    {limits : Jvm.Limits}
    {body : List Jvm.Instr}
    {levels : List Nat}
    (bounded : InBounds (before ++ methodLines unit method limits body))
    (leveled : Jvm.Leveled 0 body levels 0)
    (covered : Jvm.Limits.Covers {} limits body levels) :
    limits.overflowed = false := by
  have few : body.length < 2147483648 := by
    have few := bounded.few
    simp only [methodLines, List.length_append, List.length_map] at few
    omega
  have isLine (instr : Jvm.Instr) (member : instr ∈ body) :
      .code instr ∈ before ++ methodLines unit method limits body := by
    simp [methodLines, member]
  have depthInRange : limits.depthOverflowed = false := by
    apply covered.stays rfl
    intro level member
    have atMost := leveled.shallow level member
    omega
  have slotsBelow : limits.SlotsBelow (UInt64.size - 1) := by
    refine (covered.slots _).mpr ⟨Jvm.Limits.slotsBelow_start _, ?_⟩
    intro instr member slot isSlot
    have isLow := bounded.low instr slot (isLine instr member) isSlot
    omega
  refine Bool.or_eq_false_iff.mpr ⟨depthInRange, ?_⟩
  rw [Option.any_eq_false]
  intro highest isHighest
  have isBelow := slotsBelow highest isHighest
  exact decide_eq_false (by omega)

/--
A method is emitted as segments with labels that no line before has, and they are
verified unless its limits have left their range. They do not if its lines are in
bounds.
-/
theorem method_verified
    {unit : ClassCode}
    {method : Method}
    {state after : Emitter}
    {value : Unit}
    (labels : state.LabelsOnce)
    (ran : Emit.method unit method state = .ok value after) :
    after.LabelsOnce ∧
      ∃ (limits : Jvm.Limits) (segments : List (List Jvm.Instr)),
        after.lines = state.lines ++ methodLines unit method limits
          segments.flatten ∧
          List.Forall₂ (EmittedFor unit method) method.instrs segments ∧
            (after.overflowed = false →
              state.overflowed = false ∧ KeepsLimits method limits segments) ∧
              (state.overflowed = false → InBounds after.lines →
                after.overflowed = false) := by
  obtain ⟨_, entered, enterRan, rest⟩ := bind_ok_iff.mp ran
  obtain rfl := modify_ok_iff.mp enterRan
  obtain ⟨_, emitted, codesRan, leaveRan⟩ := bind_ok_iff.mp rest
  obtain rfl := modify_ok_iff.mp leaveRan
  obtain ⟨segments, levels, emittedFor, appended, segmented⟩ :=
    codes_segmented rfl (fun _ => rfl) codesRan
  have sameLines : emitted.lines = state.lines := appended.lines
  have isBody : emitted.body = segments.flatten := appended.body
  have sameBefore : emitted.overflowed = state.overflowed := appended.overflowed
  refine ⟨⟨?_, ?_⟩, emitted.limits, segments, ?_, emittedFor, ?_, ?_⟩
  · intro name member
    rw [sameLines, isBody] at member
    rcases List.mem_append.mp member with isOld | isNew
    · obtain ⟨number, isBelow, numbered⟩ := labels.below name isOld
      exact ⟨number, Nat.lt_of_lt_of_le isBelow appended.labels, numbered⟩
    · have inBody : .label name ∈ segments.flatten := by
        rwa [← List.count_pos_iff, count_methodLines, List.count_pos_iff] at isNew
      obtain ⟨number, _, isBelow, numbered⟩ := appended.numbered name inBody
      exact ⟨number, isBelow, numbered⟩
  · intro name
    rw [sameLines, isBody, List.count_append, count_methodLines]
    by_cases isOld : .code (.label name) ∈ state.lines
    · have notNew : .label name ∉ segments.flatten := by
        intro isNew
        obtain ⟨number, isBelow, numbered⟩ := labels.below name isOld
        obtain ⟨later, atLeast, _, laterNumbered⟩ := appended.numbered name isNew
        have same := numbered.unique laterNumbered
        have atLeast : state.labels ≤ later := atLeast
        omega
      rw [List.count_eq_zero.mpr notNew]
      exact labels.once name
    · rw [List.count_eq_zero.mpr isOld, Nat.zero_add]
      exact appended.once name
  · rw [sameLines, isBody]
  · intro inRange
    obtain ⟨before, ofMethod⟩ := Bool.or_eq_false_iff.mp inRange
    have isGreatest :=
      segmented.isGreatest appended.covered (Bool.or_eq_false_iff.mp ofMethod).1
    exact ⟨sameBefore ▸ before, _, isGreatest.2,
      segmented.verified appended.covered ofMethod method.baseSlot⟩
  · intro wasInRange bounded
    rw [isBody] at bounded
    exact Bool.or_eq_false_iff.mpr ⟨sameBefore.trans wasInRange,
      bounded.not_overflowed segmented.leveled appended.covered⟩

/-- Bodies are counted part by part. -/
private theorem length_bodies_append
    (first second : List Line) :
    (bodies (first ++ second)).length =
      (bodies first).length + (bodies second).length := by
  induction first with
  | nil => simp [bodies]
  | cons line rest inductionHypothesis =>
      cases line with
      | methodStart visibility isStatic name descriptor =>
          simp [bodies, inductionHypothesis, Nat.add_right_comm]
      | _ => simpa [bodies] using inductionHypothesis

/-- The lines of a method have one body. -/
private theorem length_bodies_methodLines
    (unit : ClassCode)
    (method : Method)
    (limits : Jvm.Limits)
    (body : List Jvm.Instr) :
    (bodies (methodLines unit method limits body)).length = 1 := by
  have isBody := bodies_methodLines unit method limits body []
  rw [List.append_nil] at isBody
  rw [isBody]
  rfl

/-- The lines before the methods of a class have the body of the constructor. -/
theorem length_bodies_classLines
    (unit : ClassCode) :
    (bodies (classLines unit)).length = 1 := by
  have isConstructor := bodies_classLines unit []
  rw [List.append_nil] at isConstructor
  rw [isConstructor]
  rfl

/--
Every method is found among the emitted lines behind those of the methods before it.
-/
theorem methods_verified
    {unit : ClassCode}
    {methods : List Method}
    {state after : Emitter}
    {value : Unit}
    (labels : state.LabelsOnce)
    (ran : Emit.methods unit methods state = .ok value after) :
    after.LabelsOnce ∧
      (∃ added, after.lines = state.lines ++ added) ∧
        (after.overflowed = false → state.overflowed = false) ∧
          (state.overflowed = false → InBounds after.lines →
            after.overflowed = false) ∧
            ∀ (index : Nat) (method : Method),
              methods[index]? = some method →
              ∃ (before rest : List Line) (limits : Jvm.Limits)
                (segments : List (List Jvm.Instr)),
                after.lines =
                    before ++ methodLines unit method limits
                      segments.flatten ++ rest ∧
                  (bodies before).length = (bodies state.lines).length + index ∧
                    List.Forall₂ (EmittedFor unit method) method.instrs segments ∧
                      (after.overflowed = false →
                        KeepsLimits method limits segments) := by
  induction methods generalizing state with
  | nil =>
      obtain ⟨_, rfl⟩ := pure_ok_iff.mp ran
      exact ⟨labels, ⟨[], (List.append_nil _).symm⟩, id,
        fun inRange _ => inRange, nofun⟩
  | cons first rest inductionHypothesis =>
      obtain ⟨_, spaced, blankRan, afterBlank⟩ := bind_ok_iff.mp ran
      obtain rfl := modify_ok_iff.mp blankRan
      obtain ⟨_, between, firstRan, restRan⟩ := bind_ok_iff.mp afterBlank
      obtain ⟨betweenLabels, limits, segments, firstLines, emitted, verified,
        stays⟩ :=
        method_verified (labels.unlabeled [.blank] (by simp)) firstRan
      obtain ⟨afterLabels, ⟨added, restLines⟩, wasInRange, restStays, each⟩ :=
        inductionHypothesis betweenLabels restRan
      refine ⟨afterLabels, ?_, fun inRange => (verified (wasInRange inRange)).1,
        ?_, ?_⟩
      · rw [restLines, firstLines]
        exact ⟨_, by simp only [List.append_assoc]; rfl⟩
      · intro inRange bounded
        exact restStays (stays inRange (restLines ▸ bounded).left) bounded
      · intro index method methodAt
        cases index with
        | zero =>
            cases methodAt
            refine ⟨state.lines ++ [.blank], added, limits, segments, ?_, ?_,
              emitted, fun inRange => (verified (wasInRange inRange)).2⟩
            · rw [restLines, firstLines]
            · rw [length_bodies_append]
              rfl
        | succ index =>
            obtain ⟨before, rest, limits, segments, isLines, isIndex, found⟩ :=
              each index method (by simpa using methodAt)
            refine ⟨before, rest, limits, segments, isLines, ?_, found⟩
            rw [isIndex, firstLines, length_bodies_append, length_bodies_append,
              length_bodies_methodLines]
            simp only [bodies, List.length_nil]
            omega

/--
The lines of checked emission are written by a run whose limits stay in their range.
-/
theorem generateChecked_ok
    {unit : ClassCode}
    {lines : List Line}
    (generated : generateChecked unit = .ok lines) :
    ∃ state,
      Emit.methods unit unit.methods { lines := classLines unit } = .ok () state ∧
        state.overflowed = false ∧ state.lines = lines := by
  unfold generateChecked at generated
  cases ran : Emit.wholeClass unit {} with
  | error error state =>
      simp only [ran] at generated
      split at generated <;> cases generated
  | ok value state =>
      simp only [ran] at generated
      split at generated
      case isTrue => cases generated
      case isFalse inRange =>
        exact ⟨state, wholeClass_ok_iff.mp ran, Bool.eq_false_iff.mpr inRange,
          Except.ok.inj generated⟩

/--
Emission succeeds with checked arithmetic if it does without and its
lines are in bounds.
-/
theorem generateChecked_of_generate
    {unit : ClassCode}
    {lines : List Line}
    (generated : generate unit = .ok lines)
    (bounded : InBounds lines) :
    generateChecked unit = .ok lines := by
  obtain ⟨state, methodsRan, rfl⟩ := generate_ok generated
  obtain ⟨_, _, _, stays, _⟩ := methods_verified (.ofClass unit) methodsRan
  have inRange : state.overflowed = false := stays rfl bounded
  simp [generateChecked, wholeClass_ok_iff.mpr methodsRan, inRange]

/--
A method that compares two numbers and returns, with a deeper call
behind the return.
-/
private def early : Method where
  name := "early"
  isStatic := true
  params := [.var "a" .int, .var "b" .int]
  returnType := .boolean
  instrs :=
    [.store (.var "t" .boolean)
      (.binary .less (.var "a" .int) (.var "b" .int) .boolean),
      .ret .boolean (some (.var "t" .boolean)),
      .call .static (.var "io" (.object "io")) "print"
        [.var "a" .int, .var "b" .int, .int 7, .int 8] .void]
  table :=
    (((∅ : Code.VariableTable).insert "a" ⟨.int, .param, 0⟩).insert
      "b" ⟨.int, .param, 1⟩).insert
      "t" ⟨.boolean, .localVar, 2⟩

/-- A class with the method. -/
private def earlyUnit : ClassCode where
  name := "A"
  methods := [early]

/-- The lines of the class. -/
private def earlyLines : List Line :=
  classLines earlyUnit ++
    [.blank,
      .methodStart .everyone true "early" "(II)Z",
      .stackLimit 4,
      .localsLimit 3,
      .code (.load .int 0),
      .code (.load .int 1),
      .code (.jumpIfLess "cmp_true_0"),
      .code (.const 0),
      .code (.jump "cmp_end_1"),
      .code (.label "cmp_true_0"),
      .code (.const 1),
      .code (.label "cmp_end_1"),
      .code (.store .int 2),
      .code (.load .int 2),
      .code (.ret (some .int)),
      .code (.load .int 0),
      .code (.load .int 1),
      .code (.const 7),
      .code (.const 8),
      .code (.invoke .static "io" "print" "(IIII)V" 4 false),
      .methodEnd]

end MiniJava.Assembly
