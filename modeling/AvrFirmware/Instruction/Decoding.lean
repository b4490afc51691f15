/-
Machine words as instructions.

# Groups

The top four bits of a word choose the group; each group below reads its
own operand fields with `field`. A word that no instruction has is
`none`, and `decode` turns that into the error a reader sees.

# Long forms

`Word.isLong` tells from the first word alone whether a second one
belongs to the instruction. Only then does `decode?` look at `next`.
-/
import AvrFirmware.Instruction.Encoding

namespace AvrFirmware

/-- What can go wrong when an instruction is read from an image. -/
inductive DecodeError where
  | unknownOpcode (word : Word)
  | truncated (pc : Nat)
  | outOfRange (pc : Nat)
  deriving DecidableEq, Repr

namespace DecodeError

/-- The wording of the error. -/
def message : DecodeError → String
  | unknownOpcode word => "Unknown opcode: 0x" ++ Numeral.upperHex 4 word.toNat
  | truncated pc =>
      "Truncated instruction at PC 0x" ++ Numeral.upperHex 4 pc
        ++ ": second word past end of image"
  | outOfRange pc =>
      "PC 0x" ++ Numeral.upperHex 4 pc ++ " is past end of image"

end DecodeError

/-- Whether a first word starts an instruction of two words. -/
def Word.isLong (w : Word) : Bool :=
  w &&& 0xFE0F == 0x9000 || w &&& 0xFE0F == 0x9200
    || w &&& 0xFE0E == 0x940C || w &&& 0xFE0E == 0x940E

namespace Decoding

-- =============================================================== fields

/-- The `width` bits of a word from bit `low` up. -/
def field (w low width : Nat) : Nat :=
  (w >>> low) % (1 <<< width)

/-- The register in bits 8 to 4. -/
def register (w : Nat) : Register :=
  .ofNat (field w 4 5)

/-- The second register of a two-register operation, bits 9 and 3 to 0. -/
def source (w : Nat) : Register :=
  .ofNat (field w 9 1 * 16 + field w 0 4)

/-- The upper register in bits 7 to 4. -/
def upperRegister (w : Nat) : Register :=
  .ofNat (16 + field w 4 4)

/-- A field of `width` bits read as two's complement. -/
def signExtend (width n : Nat) : Int :=
  if n < 1 <<< (width - 1) then n else n - (1 <<< width : Nat)

/-- A long address from the two words. -/
def longAddress (w : Nat) (next : Word) : UInt32 :=
  UInt32.ofNat ((field w 4 5 * 2 + field w 0 1) * 65536 + next.toNat)

-- =============================================================== groups

/-- An operation on two registers out of all. -/
def binary? (w : Nat) : Option Instruction :=
  (BinaryOp.ofCode? (field w 10 6)).map fun op =>
    .binary op (register w) (source w)

/-- Words 0000 00xx: no operation, pair moves and the upper multiplications. -/
def low? (w : Nat) : Option Instruction :=
  match field w 8 2 with
  | 0 => if w = 0 then some (.bare .nop) else none
  | 1 => some (.movw (.ofNat (field w 4 4 * 2)) (.ofNat (field w 0 4 * 2)))
  | 2 => some (.muls (upperRegister w) (.ofNat (16 + field w 0 4)))
  | _ =>
      some (.multiply (MultiplyOp.ofCode (field w 7 1 * 2 + field w 3 1))
        (.ofNat (16 + field w 4 3)) (.ofNat (16 + field w 0 3)))

/-- An operation on an upper register and a constant. -/
def immediate (op : ImmediateOp) (w : Nat) : Instruction :=
  .immediate op (upperRegister w)
    (UInt8.ofNat (field w 8 4 * 16 + field w 0 4))

/-- Words 10q0: an access at a displacement. -/
def displaced (w : Nat) : Instruction :=
  let q := UInt8.ofNat (field w 13 1 * 32 + field w 10 2 * 8 + field w 0 3)
  let ptr := if field w 3 1 = 1 then Pointer.y else Pointer.z
  if field w 9 1 = 0 then .ldd (register w) ptr q else .std ptr q (register w)

/-- Words 1001 000x: loads. -/
def load? (w : Nat) (next : Word) : Option Instruction :=
  let d := register w
  match field w 0 4 with
  | 0x0 => some (.lds d next)
  | 0x1 => some (.ld d .z .postIncrement)
  | 0x2 => some (.ld d .z .preDecrement)
  | 0x4 => some (.programLoad .lpm d false)
  | 0x5 => some (.programLoad .lpm d true)
  | 0x6 => some (.programLoad .elpm d false)
  | 0x7 => some (.programLoad .elpm d true)
  | 0x9 => some (.ld d .y .postIncrement)
  | 0xA => some (.ld d .y .preDecrement)
  | 0xC => some (.ld d .x .plain)
  | 0xD => some (.ld d .x .postIncrement)
  | 0xE => some (.ld d .x .preDecrement)
  | 0xF => some (.pop d)
  | _ => none

/-- Words 1001 001x: stores. -/
def store? (w : Nat) (next : Word) : Option Instruction :=
  let r := register w
  match field w 0 4 with
  | 0x0 => some (.sts next r)
  | 0x1 => some (.st .z .postIncrement r)
  | 0x2 => some (.st .z .preDecrement r)
  | 0x4 => some (.exchange .xch r)
  | 0x5 => some (.exchange .las r)
  | 0x6 => some (.exchange .lac r)
  | 0x7 => some (.exchange .lat r)
  | 0x9 => some (.st .y .postIncrement r)
  | 0xA => some (.st .y .preDecrement r)
  | 0xC => some (.st .x .plain r)
  | 0xD => some (.st .x .postIncrement r)
  | 0xE => some (.st .x .preDecrement r)
  | 0xF => some (.push r)
  | _ => none

/-- Words 1001 0100 xxxx 1000: flag operations. -/
def flag (w : Nat) : Instruction :=
  .flag (FlagOp.ofCode (field w 7 1)) (UInt8.ofNat (field w 4 3))

/-- Words 1001 0101 xxxx 1000: returns, control of the core, accesses to
program memory. -/
def control? (w : Nat) : Option Instruction :=
  match field w 4 4 with
  | 0x0 => some (.bare .ret)
  | 0x1 => some (.bare .reti)
  | 0x8 => some (.bare .sleep)
  | 0x9 => some (.bare .brk)
  | 0xA => some (.bare .wdr)
  | 0xC => some (.programLoad .lpm (.ofNat 0) false)
  | 0xD => some (.programLoad .elpm (.ofNat 0) false)
  | 0xE => some (.spm false)
  | 0xF => some (.spm true)
  | _ => none

/-- Words 1001 010x xxxx 1001: indirect transfers. -/
def indirect? (w : Nat) : Option Instruction :=
  match field w 4 5 with
  | 0x00 => some (.bare .ijmp)
  | 0x01 => some (.bare .eijmp)
  | 0x10 => some (.bare .icall)
  | 0x11 => some (.bare .eicall)
  | _ => none

/-- Words 1001 010x: one register, flags, control and long transfers. -/
def single? (w : Nat) (next : Word) : Option Instruction :=
  let d := register w
  match field w 0 4 with
  | 0x0 => some (.unary .com d)
  | 0x1 => some (.unary .neg d)
  | 0x2 => some (.unary .swap d)
  | 0x3 => some (.unary .inc d)
  | 0x5 => some (.unary .asr d)
  | 0x6 => some (.unary .lsr d)
  | 0x7 => some (.unary .ror d)
  | 0x8 => if field w 8 1 = 0 then some (flag w) else control? w
  | 0x9 => indirect? w
  | 0xA => some (.unary .dec d)
  | 0xB =>
      if field w 8 1 = 0 then some (.des (UInt8.ofNat (field w 4 4))) else none
  | 0xC => some (.absolute .jmp (longAddress w next))
  | 0xD => some (.absolute .jmp (longAddress w next))
  | 0xE => some (.absolute .call (longAddress w next))
  | 0xF => some (.absolute .call (longAddress w next))
  | _ => none

/-- Words 1001 011x: operations on a register pair. -/
def pair (w : Nat) : Instruction :=
  .pair (PairOp.ofCode (field w 8 1)) (.ofNat (24 + field w 4 2 * 2))
    (UInt8.ofNat (field w 6 2 * 16 + field w 0 4))

/-- Words 1001 10xx: operations on an I/O bit. -/
def ioBit (w : Nat) : Instruction :=
  .ioBit (IoBitOp.ofCode (field w 8 2)) (UInt8.ofNat (field w 3 5))
    (UInt8.ofNat (field w 0 3))

/-- Words 1001: everything else that needs few operand bits. -/
def mixed? (w : Nat) (next : Word) : Option Instruction :=
  match field w 9 3 with
  | 0 => load? w next
  | 1 => store? w next
  | 2 => single? w next
  | 3 => some (pair w)
  | 4 => some (ioBit w)
  | 5 => some (ioBit w)
  | _ => binary? w

/-- Words 1011: I/O register accesses. -/
def io (w : Nat) : Instruction :=
  let a := UInt8.ofNat (field w 9 2 * 16 + field w 0 4)
  if field w 11 1 = 0 then .input (register w) a else .output a (register w)

/-- The offset of a transfer, bits 11 to 0. -/
def offset (w : Nat) : Int16 :=
  Int16.ofInt (signExtend 12 (field w 0 12))

/-- Words 1111: branches and operations on a register bit. -/
def high? (w : Nat) : Option Instruction :=
  let b := UInt8.ofNat (field w 0 3)
  match field w 11 1 with
  | 0 =>
      some (.branch (BranchOp.ofCode (field w 10 1)) b
        (Int8.ofInt (signExtend 7 (field w 3 7))))
  | _ =>
      if field w 3 1 = 0 then
        some (.registerBit (RegisterBitOp.ofCode (field w 9 2)) (register w) b)
      else none

end Decoding

open Decoding in
/-- The instruction that starts with a word, and in the long forms goes on with
`next`. -/
def decode? (word next : Word) : Option Instruction :=
  let w := word.toNat
  match field w 12 4 with
  | 0x0 => if field w 10 2 = 0 then low? w else binary? w
  | 0x1 => binary? w
  | 0x2 => binary? w
  | 0x3 => some (immediate .cpi w)
  | 0x4 => some (immediate .sbci w)
  | 0x5 => some (immediate .subi w)
  | 0x6 => some (immediate .ori w)
  | 0x7 => some (immediate .andi w)
  | 0x8 => some (displaced w)
  | 0x9 => mixed? w next
  | 0xA => some (displaced w)
  | 0xB => some (io w)
  | 0xC => some (.relative .rjmp (offset w))
  | 0xD => some (.relative .rcall (offset w))
  | 0xE => some (immediate .ldi w)
  | _ => high? w

/-- Like `decode?`, with the unknown word as the error. -/
def decode (word next : Word) : Except DecodeError Instruction :=
  match decode? word next with
  | some i => .ok i
  | none => .error (.unknownOpcode word)

example : decode? 0x940E 0x0034 = some (.absolute .call 0x34) := by decide

example : decode? 0xCFFF 0 = some (.relative .rjmp (-1)) := by decide

end AvrFirmware
