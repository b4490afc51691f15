/-
How an instruction moves control and the stack.

Each instruction falls into exactly one `Flow`. Whoever follows a program
looks at the flow and not at the instruction, so instructions that merely
fall through need no rule of their own.
-/
import AvrFirmware.Instruction

namespace AvrFirmware

/-- The destination of a jump or call. -/
inductive Target where
  /-- Word offset from the following instruction. -/
  | relative (offset : Int)
  /-- Word address. -/
  | absolute (address : Nat)
  /-- Known only when the program runs. -/
  | unresolved
  deriving DecidableEq, Repr

namespace Target

/-- The number of word addresses a program counter can hold. -/
def addressLimit : Nat :=
  0x100000000

/-- The destination as a word address, given the address of the following
instruction. There is none for an unresolved target, nor where the offset
leaves the address range. -/
def resolve (next : Nat) : Target → Option Nat
  | relative offset =>
      if 0 ≤ next + offset ∧ next + offset < addressLimit then
        some (next + offset).toNat
      else none
  | absolute address => some address
  | unresolved => none

/-- Whether the destination is given by an offset. -/
def isRelative : Target → Bool
  | relative _ => true
  | _ => false

end Target

/-- The effect of an instruction on control and on the stack. -/
inductive Flow where
  /-- Goes on, or branches by an offset. -/
  | branch (offset : Int)
  /-- Goes on, or leaves out the next instruction. -/
  | skip
  /-- Goes to the target. -/
  | jump (target : Target)
  /-- Pushes a return address and goes to the target. -/
  | call (target : Target)
  /-- Goes back to the caller. -/
  | ret
  /-- Goes back from an interrupt. -/
  | interruptReturn
  /-- Pushes one byte and goes on. -/
  | push
  /-- Pops one byte and goes on. -/
  | pop
  /-- Store to a data address, charged with two bytes. -/
  | wideStore
  /-- Goes on. -/
  | straight
  deriving DecidableEq, Repr

namespace Instruction

/-- The effect of an instruction on control and on the stack. -/
def flow : Instruction → Flow
  | branch _ _ k => .branch k.toInt
  | binary .cpse _ _ => .skip
  | registerBit .sbrc _ _ => .skip
  | registerBit .sbrs _ _ => .skip
  | ioBit .sbic _ _ => .skip
  | ioBit .sbis _ _ => .skip
  | relative .rjmp k => .jump (.relative k.toInt)
  | relative .rcall k => .call (.relative k.toInt)
  | absolute .jmp k => .jump (.absolute k.toNat)
  | absolute .call k => .call (.absolute k.toNat)
  | bare .ijmp => .jump .unresolved
  | bare .eijmp => .jump .unresolved
  | bare .icall => .call .unresolved
  | bare .eicall => .call .unresolved
  | bare .ret => .ret
  | bare .reti => .interruptReturn
  | push _ => .push
  | pop _ => .pop
  | sts _ _ => .wideStore
  | _ => .straight

end Instruction

end AvrFirmware
