import MiniJava.Jvm.Limits
import MiniJava.Proofs.Collections
import MiniJava.Proofs.Semantics.Paths

namespace MiniJava.Jvm

/-!
# Levels of the stack

Code is leveled if one depth can be given to each position, so that an
instruction always finds what it takes, and every way on keeps to the depths.
Then all paths from the start have the depth of the position they come to.
Leveled code can be put together as long as no label occurs in both parts, since
a jump could otherwise lead out of its part.

The limits of a method take in the levels and slots of its code. They are counted in
machine words, and say nothing of levels once the depth has left its range.
-/

open Code (CallKind)

/-- The levels of code: one before it, and one behind each instruction. -/
structure Leveled
    (first : Nat)
    (code : List Instr)
    (levels : List Nat)
    (last : Nat) :
    Prop where
  count : levels.length = code.length
  behind : (first :: levels)[code.length]? = some last
  /--
  An instruction finds what it takes, and every way on has the level
  of where it leads.
  -/
  each :
    ∀ {position : Nat} {instr : Instr},
      code[position]? = some instr →
      ∃ rest,
        (first :: levels)[position]? = some (rest + instr.pops) ∧
          ∀ {next : Nat},
            instr.LeadsTo code position next →
            (first :: levels)[next]? = some (rest + instr.pushes)
  /-- Jumps lead forward. -/
  forward :
    ∀ {position : Nat} {instr : Instr} {name : String},
      code[position]? = some instr →
      instr.jumpTarget? = some name →
      ∃ next, position < next ∧ code[next]? = some (.label name)
  /-- A path leads to every position that has no return before it. -/
  reached :
    ∀ {position level : Nat},
      (first :: levels)[position]? = some level →
      (∀ instr ∈ code.take position, instr.isReturn = false) →
      Path code (0, first) (position, level)
  /-- An instruction leaves at most one value more. -/
  shallow : ∀ level ∈ levels, level ≤ first + code.length

/-- No instruction leaves more than one value. -/
theorem Instr.pushes_le_one
    (instr : Instr) :
    instr.pushes ≤ 1 := by
  cases instr with
  | invoke kind owner name descriptor arguments returnsValue =>
      cases returnsValue <;> simp [pushes]
  | _ => simp [pushes]

/-- A path through code is a path through every body that has the code in it. -/
theorem Path.placed
    {code : List Instr}
    {start last : Nat × Nat}
    (before after : List Instr)
    (path : Path code start last) :
    Path (before ++ code ++ after) (before.length + start.1, start.2)
      (before.length + last.1, last.2) := by
  have inside {position : Nat} {instr : Instr}
      (found : code[position]? = some instr) :
      (before ++ code ++ after)[before.length + position]? = some instr := by
    rw [getElem?_placed before code after (List.getElem?_eq_some_iff.mp found).1,
      found]
  induction path with
  | refl =>
      exact .refl
  | tail _ taken inductionHypothesis =>
      refine Relation.ReflTransGen.tail inductionHypothesis ?_
      cases taken with
      | intro rest found leads =>
          rcases leads with ⟨falls, rfl⟩ | ⟨name, isTarget, isLabel⟩
          · exact .intro rest (inside found) (.inl ⟨falls, rfl⟩)
          · exact .intro rest (inside found) (.inr ⟨name, isTarget, inside isLabel⟩)

namespace Instr.LeadsTo

variable {instr : Instr} {code other : List Instr} {position next : Nat}

/--
What leads on in the first part of code stays there if its label is
not in the second.
-/
theorem of_left
    (leads : instr.LeadsTo (code ++ other) position next)
    (inside : position < code.length)
    (apart : ∀ {name}, instr.jumpTarget? = some name → .label name ∉ other) :
    instr.LeadsTo code position next ∧ next ≤ code.length := by
  rcases leads with ⟨falls, rfl⟩ | ⟨name, isTarget, isLabel⟩
  · exact ⟨.inl ⟨falls, rfl⟩, inside⟩
  · rcases getElem?_append_cases isLabel with ⟨isBefore, isLabel⟩ | ⟨_, _, isLabel⟩
    · exact ⟨.inr ⟨name, isTarget, isLabel⟩, Nat.le_of_lt isBefore⟩
    · exact absurd (List.mem_of_getElem? isLabel) (apart isTarget)

/--
What leads on in the second part of code stays there if its label is
not in the first.
-/
theorem of_right
    (leads : instr.LeadsTo (code ++ other) (code.length + position) next)
    (apart : ∀ {name}, instr.jumpTarget? = some name → .label name ∉ code) :
    ∃ inner, next = code.length + inner ∧ instr.LeadsTo other position inner := by
  rcases leads with ⟨falls, rfl⟩ | ⟨name, isTarget, isLabel⟩
  · exact ⟨position + 1, Nat.add_assoc _ _ _, .inl ⟨falls, rfl⟩⟩
  · rcases getElem?_append_cases isLabel with
      ⟨_, isLabel⟩ | ⟨inner, isBehind, isLabel⟩
    · exact absurd (List.mem_of_getElem? isLabel) (apart isTarget)
    · exact ⟨inner, isBehind, .inr ⟨name, isTarget, isLabel⟩⟩

end Instr.LeadsTo

namespace Leveled

variable {first middle last : Nat} {code other : List Instr}
  {levels others : List Nat}

theorem nothing
    (first : Nat) :
    Leveled first [] [] first where
  count := rfl
  behind := rfl
  each := nofun
  forward := nofun
  reached := by
    intro position level found _
    cases position with
    | zero =>
        cases found
        exact .refl
    | succ position => cases found
  shallow := nofun

/-- An instruction that does not jump is leveled by what it takes and leaves. -/
theorem single
    {instr : Instr}
    (rest : Nat)
    (noJump : instr.jumpTarget? = none) :
    Leveled (rest + instr.pops) [instr] [rest + instr.pushes]
      (rest + instr.pushes) where
  count := rfl
  behind := rfl
  each := by
    intro position found isFound
    cases position with
    | zero =>
        cases isFound
        refine ⟨rest, rfl, fun leads => ?_⟩
        rcases leads with ⟨_, rfl⟩ | ⟨name, isTarget, _⟩
        · rfl
        · rw [noJump] at isTarget
          cases isTarget
    | succ position => cases isFound
  forward := by
    intro position found name isFound isTarget
    cases position with
    | zero =>
        cases isFound
        rw [noJump] at isTarget
        cases isTarget
    | succ position => cases isFound
  reached := by
    intro position level found noReturn
    match position with
    | 0 =>
        cases found
        exact .refl
    | 1 =>
        cases found
        have goesOn : instr.isReturn = false := noReturn instr List.mem_cons_self
        have falls : instr.fallsThrough = true := by
          cases instr with
          | jump name => cases noJump
          | ret kind => cases goesOn
          | _ => rfl
        exact .single (.intro rest rfl (.inl ⟨falls, rfl⟩))
    | position + 2 => cases found
  shallow := by
    have atMostOne := instr.pushes_le_one
    simp only [List.forall_mem_singleton, List.length_singleton]
    omega

/-- The level at a position of the first part of code. -/
theorem level_left
    (leveled : Leveled first code levels last)
    (others : List Nat)
    {position : Nat}
    (inside : position ≤ code.length) :
    (first :: (levels ++ others))[position]? = (first :: levels)[position]? := by
  rw [← List.cons_append]
  apply List.getElem?_append_left
  rw [List.length_cons, leveled.count]
  exact Nat.lt_succ_of_le inside

/-- The level at a position behind the first part of code. -/
theorem level_right
    (leveled : Leveled first code levels last)
    (others : List Nat)
    (position : Nat) :
    (first :: (levels ++ others))[code.length + position]? =
      (last :: others)[position]? := by
  cases position with
  | zero =>
      rw [Nat.add_zero, leveled.level_left others (Nat.le_refl _), leveled.behind]
      rfl
  | succ position =>
      rw [← Nat.add_assoc, List.getElem?_cons_succ, ← leveled.count,
        List.getElem?_append_right (Nat.le_add_right _ _), Nat.add_sub_cancel_left]
      rfl

/-- The label that an instruction jumps to is in the code. -/
theorem label_mem
    (leveled : Leveled first code levels last)
    {position : Nat}
    {instr : Instr}
    {name : String}
    (found : code[position]? = some instr)
    (isTarget : instr.jumpTarget? = some name) :
    .label name ∈ code := by
  obtain ⟨next, _, isLabel⟩ := leveled.forward found isTarget
  exact List.mem_of_getElem? isLabel

/-- Leveled parts without a common label are leveled together. -/
theorem append
    (former : Leveled first code levels middle)
    (latter : Leveled middle other others last)
    (apart : ∀ name, .label name ∈ code → .label name ∉ other) :
    Leveled first (code ++ other) (levels ++ others) last where
  count := by
    rw [List.length_append, List.length_append, former.count, latter.count]
  behind := by
    rw [List.length_append, former.level_right others]
    exact latter.behind
  each := by
    intro position instr found
    rcases getElem?_append_cases found with ⟨inside, found⟩ | ⟨inner, rfl, inOther⟩
    · obtain ⟨rest, isLevel, leadsOn⟩ := former.each found
      rw [former.level_left others (Nat.le_of_lt inside)]
      refine ⟨rest, isLevel, fun leads => ?_⟩
      obtain ⟨leadsInside, nextInside⟩ :=
        leads.of_left inside fun isTarget =>
          apart _ (former.label_mem found isTarget)
      rw [former.level_left others nextInside]
      exact leadsOn leadsInside
    · obtain ⟨rest, isLevel, leadsOn⟩ := latter.each inOther
      rw [former.level_right others]
      refine ⟨rest, isLevel, fun leads => ?_⟩
      obtain ⟨next, rfl, leadsInside⟩ :=
        leads.of_right fun isTarget inCode =>
          apart _ inCode (latter.label_mem inOther isTarget)
      rw [former.level_right others]
      exact leadsOn leadsInside
  forward := by
    intro position instr name found isTarget
    rcases getElem?_append_cases found with ⟨_, found⟩ | ⟨inner, rfl, inOther⟩
    · obtain ⟨next, isLater, isLabel⟩ := former.forward found isTarget
      refine ⟨next, isLater, ?_⟩
      rw [List.getElem?_append_left (List.getElem?_eq_some_iff.mp isLabel).1,
        isLabel]
    · obtain ⟨next, isLater, isLabel⟩ := latter.forward inOther isTarget
      refine ⟨code.length + next, Nat.add_lt_add_left isLater _, ?_⟩
      rw [List.getElem?_append_right (Nat.le_add_right _ _),
        Nat.add_sub_cancel_left, isLabel]
  reached := by
    intro position level isLevel noReturn
    by_cases inside : position ≤ code.length
    · rw [former.level_left others inside] at isLevel
      rw [List.take_append_of_le_length inside] at noReturn
      simpa using (former.reached isLevel noReturn).placed [] other
    · obtain ⟨inner, rfl⟩ := Nat.exists_eq_add_of_le (Nat.le_of_not_le inside)
      rw [former.level_right others] at isLevel
      rw [List.take_append, List.take_of_length_le (Nat.le_add_right _ _),
        Nat.add_sub_cancel_left] at noReturn
      -- No return is in the first part, so it is passed to its end.
      have through : Path code (0, first) (code.length, middle) := by
        apply former.reached former.behind
        intro instr member
        exact noReturn instr (List.mem_append_left _ (List.mem_of_mem_take member))
      have onward : Path other (0, middle) (inner, level) :=
        latter.reached isLevel fun instr member =>
          noReturn instr (List.mem_append_right _ member)
      have throughBoth := through.placed [] other
      have onwardBoth := onward.placed code []
      simp only [List.nil_append, List.length_nil, Nat.zero_add] at throughBoth
      simp only [List.append_nil, Nat.add_zero] at onwardBoth
      exact throughBoth.trans onwardBoth
  shallow := by
    have inMiddle : middle ≤ first + code.length := by
      rcases List.mem_cons.mp (List.mem_of_getElem? former.behind) with rfl | member
      · exact Nat.le_add_right _ _
      · exact former.shallow middle member
    rw [List.length_append]
    intro level member
    rcases List.mem_append.mp member with inFormer | inLatter
    · have atMost := former.shallow level inFormer
      omega
    · have atMost := latter.shallow level inLatter
      omega

/-- A path that starts at the level of its position keeps to the levels. -/
theorem level_of_path
    (leveled : Leveled first code levels last)
    {start stop : Nat × Nat}
    (path : Path code start stop)
    (starts : (first :: levels)[start.1]? = some start.2) :
    (first :: levels)[stop.1]? = some stop.2 := by
  induction path with
  | refl =>
      exact starts
  | tail _ taken inductionHypothesis =>
      cases taken with
      | intro rest found leads =>
          obtain ⟨others, isLevel, leadsOn⟩ := leveled.each found
          have sameLevel := Option.some.inj (isLevel.symm.trans inductionHypothesis)
          have sameRest : others = rest := Nat.add_right_cancel sameLevel
          rw [← sameRest]
          exact leadsOn leads

end Leveled

/--
The effect of a call is exact if what it takes can be counted in 32
bits with a sign.
-/
theorem Instr.callEffect_exact
    (kind : CallKind)
    (arguments : Nat)
    (returnsValue : Bool)
    (small : (if kind = .static then 0 else 1) + arguments < 2147483648) :
    (callEffect kind arguments returnsValue).toInt =
      (if returnsValue then 1 else 0 : Nat) -
        ((if kind = .static then 0 else 1) + arguments : Nat) := by
  have isArguments : (Int32.ofNat arguments).toInt = arguments :=
    Int32.toInt_ofNat_of_lt (by omega)
  have none : (0 : Int32).toInt = 0 := rfl
  have one : (1 : Int32).toInt = 1 := rfl
  unfold callEffect
  cases returnsValue <;> by_cases isStatic : kind = .static <;>
    simp only [isStatic, ↓reduceIte, Bool.false_eq_true, Int32.toInt_sub,
      Int32.toInt_add, isArguments, none, one] at small ⊢ <;>
    rw [Int.bmod_eq_of_le] <;> rw [Int.bmod_eq_of_le] <;> omega

/-- The effect of an instruction is what it leaves less what it takes. -/
theorem Instr.stackEffect_exact
    (instr : Instr)
    (small : instr.pops < 2147483648) :
    instr.stackEffect.toInt = instr.pushes - instr.pops := by
  cases instr with
  | invoke kind owner name descriptor arguments returnsValue =>
      exact callEffect_exact kind arguments returnsValue small
  | ret kind => cases kind <;> rfl
  | _ => rfl

namespace Limits

/-- Limits have counted to a level, unless the depth has left its range. -/
def At (limits : Limits) (level : Nat) : Prop :=
  limits.depthOverflowed = false → limits.depth.toInt = level

/-- All slots that were used are below a bound. -/
def SlotsBelow (limits : Limits) (bound : Nat) : Prop :=
  ∀ highest ∈ limits.highestSlot, highest < bound

/-- Limits start with no slot in use. -/
theorem slotsBelow_start (bound : Nat) : ({} : Limits).SlotsBelow bound := by
  intro highest isHighest
  cases isHighest

/--
Limits after code take in the slots of the code and, unless the depth has left
its range, the levels of the code, and nothing else.
-/
structure Covers
    (limits after : Limits)
    (code : List Instr)
    (levels : List Nat) : Prop where
  kept : after.depthOverflowed = false → limits.depthOverflowed = false
  stack :
    after.depthOverflowed = false →
      ∀ bound : Int,
        after.maxDepth.toInt ≤ bound ↔
          limits.maxDepth.toInt ≤ bound ∧ ∀ level ∈ levels, (level : Int) ≤ bound
  slots :
    ∀ bound : Nat,
      after.SlotsBelow bound ↔
        limits.SlotsBelow bound ∧
          ∀ instr ∈ code, ∀ slot, instr.slot? = some slot → slot < bound
  /-- A depth leaves its range only at a level that is out of it. -/
  stays :
    limits.depthOverflowed = false →
    (∀ level ∈ levels, level < 2147483648) →
    after.depthOverflowed = false

namespace Covers

variable {limits between after : Limits} {code other : List Instr}
  {levels others : List Nat}

/-- Limits take in no code when they stay as they are. -/
theorem refl (limits : Limits) : limits.Covers limits [] [] where
  kept := id
  stack := by simp
  slots := by simp
  stays := fun inRange _ => inRange

/-- Limits take in one part of code after the other. -/
theorem trans
    (former : limits.Covers between code levels)
    (latter : between.Covers after other others) :
    limits.Covers after (code ++ other) (levels ++ others) where
  kept := former.kept ∘ latter.kept
  stack := by
    intro inRange bound
    rw [latter.stack inRange, former.stack (latter.kept inRange),
      List.forall_mem_append, and_assoc]
  slots := by
    intro bound
    rw [latter.slots, former.slots, List.forall_mem_append, and_assoc]
  stays := by
    intro inRange small
    obtain ⟨smallBefore, smallAfter⟩ := List.forall_mem_append.mp small
    exact latter.stays (former.stays inRange smallBefore) smallAfter

end Covers

/-- The greater of two depths is the greater number. -/
theorem toInt_max
    (first second : Int32) :
    (max first second).toInt = max first.toInt second.toInt := by
  show (if first ≤ second then second else first).toInt =
    max first.toInt second.toInt
  by_cases order : first ≤ second
  · rw [if_pos order]
    rw [Int32.le_iff_toInt_le] at order
    exact (Int.max_eq_right order).symm
  · rw [if_neg order]
    rw [Int32.le_iff_toInt_le, Int.not_le] at order
    exact (Int.max_eq_left (Int.le_of_lt order)).symm

/-- A change of the depth that stays in range is exact. -/
theorem apply_exact
    {limits : Limits}
    {effect : Int32}
    (inRange : (limits.apply effect).depthOverflowed = false) :
    limits.depthOverflowed = false ∧
      (limits.apply effect).depth.toInt = limits.depth.toInt + effect.toInt ∧
        (limits.apply effect).maxDepth.toInt =
          max limits.maxDepth.toInt (limits.depth.toInt + effect.toInt) := by
  obtain ⟨wasInRange, isSum⟩ := Bool.or_eq_false_iff.mp inRange
  have isExact :
      (limits.depth + effect).toInt = limits.depth.toInt + effect.toInt :=
    bne_eq_false_iff_eq.mp isSum
  refine ⟨wasInRange, isExact, ?_⟩
  rw [← isExact]
  exact toInt_max limits.maxDepth (limits.depth + effect)

/-- A change of the depth to a number of its range stays in range. -/
theorem apply_inRange
    {limits : Limits}
    {effect : Int32}
    (wasInRange : limits.depthOverflowed = false)
    (notNegative : 0 ≤ limits.depth.toInt + effect.toInt)
    (small : limits.depth.toInt + effect.toInt < 2147483648) :
    (limits.apply effect).depthOverflowed = false := by
  refine Bool.or_eq_false_iff.mpr ⟨wasInRange, bne_eq_false_iff_eq.mpr ?_⟩
  show (limits.depth + effect).toInt = limits.depth.toInt + effect.toInt
  rw [Int32.toInt_add]
  exact Int.bmod_eq_of_le (by omega) (by omega)

/-- A change of the depth uses no slot. -/
theorem highestSlot_apply
    (limits : Limits)
    (effect : Int32) :
    (limits.apply effect).highestSlot = limits.highestSlot := by
  rw [apply]

/-- An instruction changes the depth as its effect does. -/
theorem extend_depth
    (limits : Limits)
    (instr : Instr) :
    (limits.extend instr).depth = (limits.apply instr.stackEffect).depth ∧
      (limits.extend instr).maxDepth = (limits.apply instr.stackEffect).maxDepth ∧
        (limits.extend instr).depthOverflowed =
          (limits.apply instr.stackEffect).depthOverflowed := by
  unfold extend
  cases instr.slot? <;> exact ⟨rfl, rfl, rfl⟩

/-- An instruction takes in its slot. -/
theorem slotsBelow_extend_iff
    {limits : Limits}
    {instr : Instr}
    {bound : Nat} :
    (limits.extend instr).SlotsBelow bound ↔
      limits.SlotsBelow bound ∧ ∀ slot, instr.slot? = some slot → slot < bound := by
  unfold extend SlotsBelow
  cases instr.slot? with
  | none => simp [apply]
  | some slot =>
      cases isHighest : limits.highestSlot with
      | none => simp [apply, touch, isHighest]
      | some highest =>
          simp only [apply, touch, isHighest, Option.mem_def, Option.some.injEq,
            forall_eq', Nat.max_lt]

/-- Slots and what is reserved below a bound need no more locals than the bound. -/
theorem maxLocals_le
    {limits : Limits}
    {reserved bound : Nat}
    (isReserved : reserved ≤ bound)
    (below : limits.SlotsBelow bound) :
    limits.maxLocals reserved ≤ bound := by
  unfold maxLocals
  cases isHighest : limits.highestSlot with
  | none => exact isReserved
  | some highest =>
      have isBelow := below highest isHighest
      have cut := Nat.mod_le (highest + 1) UInt64.size
      exact Nat.max_le.mpr ⟨by omega, isReserved⟩

/-- Locals that stay in range are enough exactly if no slot is above them. -/
theorem maxLocals_le_iff
    {limits : Limits}
    {reserved bound : Nat}
    (inRange : limits.overflowed = false) :
    limits.maxLocals reserved ≤ bound ↔
      reserved ≤ bound ∧ limits.SlotsBelow bound := by
  refine ⟨fun enough => ?_, fun both => maxLocals_le both.1 both.2⟩
  have small : ∀ highest ∈ limits.highestSlot, highest + 1 < UInt64.size := by
    have notAbove := (Bool.or_eq_false_iff.mp inRange).2
    intro highest isHighest
    rw [isHighest] at notAbove
    exact Nat.lt_of_not_le (of_decide_eq_false notAbove)
  unfold maxLocals at enough
  unfold SlotsBelow
  cases isHighest : limits.highestSlot with
  | none =>
      rw [isHighest] at enough
      exact ⟨enough, nofun⟩
  | some highest =>
      have uncut : (highest + 1) % UInt64.size = highest + 1 :=
        Nat.mod_eq_of_lt (small highest isHighest)
      simp only [isHighest, uncut] at enough
      refine ⟨by omega, fun found isFound => ?_⟩
      obtain rfl := Option.some.inj isFound
      omega

/-- An instruction leads from one level to the next. -/
theorem extend_at
    {limits : Limits}
    {instr : Instr}
    {rest : Nat}
    (isLevel : limits.At (rest + instr.pops)) :
    (limits.extend instr).At (rest + instr.pushes) := by
  intro inRange
  obtain ⟨sameDepth, _, sameRange⟩ := limits.extend_depth instr
  rw [sameRange] at inRange
  obtain ⟨wasInRange, isExact, _⟩ := apply_exact inRange
  have depth := isLevel wasInRange
  have small := limits.depth.toInt_lt
  -- All that the instruction takes is on a stack whose depth is in range.
  have effect := instr.stackEffect_exact (by omega)
  rw [sameDepth]
  omega

/-- An instruction takes in the depth behind it and its slot. -/
theorem extend_covers
    {limits : Limits}
    {instr : Instr}
    {rest : Nat}
    (wasLevel : limits.At (rest + instr.pops)) :
    limits.Covers (limits.extend instr) [instr] [rest + instr.pushes] := by
  obtain ⟨sameDepth, sameMax, sameRange⟩ := limits.extend_depth instr
  have isLevel := extend_at wasLevel
  refine ⟨?_, ?_, ?_, ?_⟩
  · intro inRange
    rw [sameRange] at inRange
    exact (apply_exact inRange).1
  · intro inRange bound
    have depth := isLevel inRange
    rw [sameDepth] at depth
    rw [sameRange] at inRange
    obtain ⟨_, isExact, isMax⟩ := apply_exact inRange
    rw [sameMax, isMax, ← isExact, depth, Int.max_le, List.forall_mem_singleton]
  · intro bound
    rw [slotsBelow_extend_iff, List.forall_mem_singleton]
  · intro wasInRange small
    have depth := wasLevel wasInRange
    have inRange := limits.depth.toInt_lt
    have effect := instr.stackEffect_exact (by omega)
    have isSmall := List.forall_mem_singleton.mp small
    rw [sameRange]
    exact apply_inRange wasInRange (by omega) (by omega)

end Limits

end MiniJava.Jvm
