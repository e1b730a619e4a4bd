import MiniJava.Jvm.Instr

namespace MiniJava.Jvm

/-!
# Limits of a method

The depth of the operand stack while instructions are appended, the greatest
depth so far, and the highest slot that was used.

The depths are numbers of 32 bits with a sign, and slots are counted in 64 bits.
A number that leaves its range wraps around, and that it has done so is kept.
-/

/-- The running limits of a method. -/
structure Limits where
  depth : Int32 := 0
  maxDepth : Int32 := 0
  highestSlot : Option Nat := none
  /-- Whether the depth has left its range. -/
  depthOverflowed : Bool := false
  deriving DecidableEq

namespace Limits

/-- Changes the depth of the stack. -/
def apply (limits : Limits) (effect : Int32) : Limits :=
  let depth := limits.depth + effect
  { limits with
    depth
    maxDepth := max limits.maxDepth depth
    depthOverflowed :=
      limits.depthOverflowed || depth.toInt != limits.depth.toInt + effect.toInt }

/-- Notes that a slot is used. -/
def touch (limits : Limits) (slot : Nat) : Limits :=
  { limits with
    highestSlot :=
      match limits.highestSlot with
      | some highest => some (max highest slot)
      | none => some slot }

/-- The limits after one more instruction. -/
def extend (limits : Limits) (instr : Instr) : Limits :=
  match instr.slot? with
  | some slot => (limits.apply instr.stackEffect).touch slot
  | none => limits.apply instr.stackEffect

/-- How many slots are needed; never fewer than are reserved. -/
def maxLocals (limits : Limits) (reserved : Nat) : Nat :=
  match limits.highestSlot with
  | some highest => max ((highest + 1) % UInt64.size) reserved
  | none => reserved

/-- Whether the depth has left its range, or the number of slots leaves it. -/
def overflowed (limits : Limits) : Bool :=
  limits.depthOverflowed || limits.highestSlot.any (UInt64.size ≤ · + 1)

end Limits

end MiniJava.Jvm
