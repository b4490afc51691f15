/-
Instructions as machine words.

# Layout

A first word is the sum of the operation's code and the operand fields,
each moved to its place; no two of these overlap. Every field is cut to
the bits the word has for it, so an operand too wide for its field still
gives a word. The long forms carry the low sixteen bits of their address
in a second word.

# Codes

The numbers that tell the operations of a family apart are the `code`
functions, and each has an inverse `ofCode?` for the way back.
-/
import AvrFirmware.Instruction

namespace AvrFirmware

/-- A machine word. -/
abbrev Word := UInt16

/-- A machine word as it lies in program memory: low byte first. -/
def Word.bytes (w : Word) : List UInt8 :=
  [UInt8.ofNat (w.toNat % 256), UInt8.ofNat (w.toNat / 256)]

/-- The machine word of two bytes, low byte first. -/
def Word.ofBytes (low high : UInt8) : Word :=
  UInt16.ofNat (low.toNat + 256 * high.toNat)

-- ================================================================ codes

/-- The top six bits of a two-register operation. -/
def BinaryOp.code : BinaryOp → Nat
  | cpc => 1
  | sbc => 2
  | add => 3
  | cpse => 4
  | cp => 5
  | sub => 6
  | adc => 7
  | and => 8
  | eor => 9
  | or => 10
  | mov => 11
  | mul => 39

/-- The operation of a code. -/
def BinaryOp.ofCode? : Nat → Option BinaryOp
  | 1 => some cpc
  | 2 => some sbc
  | 3 => some add
  | 4 => some cpse
  | 5 => some cp
  | 6 => some sub
  | 7 => some adc
  | 8 => some and
  | 9 => some eor
  | 10 => some or
  | 11 => some mov
  | 39 => some mul
  | _ => none

/-- Bits 7 and 3 of a short multiplication, as a two-bit number. -/
def MultiplyOp.code : MultiplyOp → Nat
  | mulsu => 0
  | fmul => 1
  | fmuls => 2
  | fmulsu => 3

/-- The operation of a code. -/
def MultiplyOp.ofCode : Nat → MultiplyOp
  | 0 => mulsu
  | 1 => fmul
  | 2 => fmuls
  | _ => fmulsu

/-- The top four bits of an operation with a constant. -/
def ImmediateOp.code : ImmediateOp → Nat
  | cpi => 3
  | sbci => 4
  | subi => 5
  | ori => 6
  | andi => 7
  | ldi => 14

/-- Bit 8 of an operation on a pair. -/
def PairOp.code : PairOp → Nat
  | adiw => 0
  | sbiw => 1

/-- The operation of a code. -/
def PairOp.ofCode : Nat → PairOp
  | 0 => adiw
  | _ => sbiw

/-- The low four bits of an operation on one register. -/
def UnaryOp.code : UnaryOp → Nat
  | com => 0
  | neg => 1
  | swap => 2
  | inc => 3
  | asr => 5
  | lsr => 6
  | ror => 7
  | dec => 10

/-- The low four bits, less the post-increment bit, of a load from program
memory. -/
def ProgramLoadOp.code : ProgramLoadOp → Nat
  | lpm => 4
  | elpm => 6

/-- The low four bits of an exchange. -/
def ExchangeOp.code : ExchangeOp → Nat
  | xch => 4
  | las => 5
  | lac => 6
  | lat => 7

/-- Bit 7 of a flag operation. -/
def FlagOp.code : FlagOp → Nat
  | bset => 0
  | bclr => 1

/-- The operation of a code. -/
def FlagOp.ofCode : Nat → FlagOp
  | 0 => bset
  | _ => bclr

/-- Bits 10 and 9 of an operation on a register bit. -/
def RegisterBitOp.code : RegisterBitOp → Nat
  | bld => 0
  | bst => 1
  | sbrc => 2
  | sbrs => 3

/-- The operation of a code. -/
def RegisterBitOp.ofCode : Nat → RegisterBitOp
  | 0 => bld
  | 1 => bst
  | 2 => sbrc
  | _ => sbrs

/-- Bits 9 and 8 of an operation on an I/O bit. -/
def IoBitOp.code : IoBitOp → Nat
  | cbi => 0
  | sbic => 1
  | sbi => 2
  | sbis => 3

/-- The operation of a code. -/
def IoBitOp.ofCode : Nat → IoBitOp
  | 0 => cbi
  | 1 => sbic
  | 2 => sbi
  | _ => sbis

/-- Bit 10 of a branch. -/
def BranchOp.code : BranchOp → Nat
  | brbs => 0
  | brbc => 1

/-- The operation of a code. -/
def BranchOp.ofCode : Nat → BranchOp
  | 0 => brbs
  | _ => brbc

/-- Bit 12 of a transfer by offset. -/
def RelativeOp.code : RelativeOp → Nat
  | rjmp => 0
  | rcall => 1

/-- Bit 1 of a transfer to an address. -/
def AbsoluteOp.code : AbsoluteOp → Nat
  | jmp => 0
  | call => 1

/-- The operation of a code. -/
def AbsoluteOp.ofCode : Nat → AbsoluteOp
  | 0 => jmp
  | _ => call

/-- The whole word of an instruction without operands. -/
def BareOp.code : BareOp → Nat
  | nop => 0x0000
  | ijmp => 0x9409
  | eijmp => 0x9419
  | icall => 0x9509
  | eicall => 0x9519
  | ret => 0x9508
  | reti => 0x9518
  | sleep => 0x9588
  | brk => 0x9598
  | wdr => 0x95A8

-- =============================================================== fields

namespace Encoding

/-- The register field of most instructions, bits 8 to 4. -/
def register (r : Register) : Nat :=
  r.toNat * 16

/-- A load at a displacement: bits 13, 11, 10 and 2 to 0 hold `q`, bit 3 tells
Y from Z. -/
def displaced (r : Register) (ptr : Pointer) (q : Nat) : Nat :=
  0x8000 + q / 32 % 2 * 8192 + q / 8 % 4 * 1024 + register r
    + (if ptr = .y then 8 else 0) + q % 8

/-- A load through a pointer. Y and Z without a step are a displacement of
zero. -/
def indirect (r : Register) : Pointer → PointerStep → Nat
  | .x, .plain => 0x900C + register r
  | .x, .postIncrement => 0x900D + register r
  | .x, .preDecrement => 0x900E + register r
  | ptr, .plain => displaced r ptr 0
  | .y, .postIncrement => 0x9009 + register r
  | .y, .preDecrement => 0x900A + register r
  | .z, .postIncrement => 0x9001 + register r
  | .z, .preDecrement => 0x9002 + register r

/-- What turns a load into the store of the same form. -/
def storeBit : Nat :=
  0x0200

/-- The I/O address field, bits 10, 9 and 3 to 0. -/
def ioAddress (a : Nat) : Nat :=
  a / 16 % 4 * 512 + a % 16

/-- The six high bits of a long address, bits 8 to 4 and 0. -/
def longHigh (k : Nat) : Nat :=
  k / 65536 % 64 / 2 * 16 + k / 65536 % 2

end Encoding

-- ================================================================ words

namespace Instruction

open Encoding in
/-- The first word of an instruction, as a number. -/
def firstWord : Instruction → Nat
  | bare op => op.code
  | binary op d r =>
      op.code * 1024 + r.toNat / 16 * 512 + register d + r.toNat % 16
  | movw d r => 0x0100 + d.toNat / 2 * 16 + r.toNat / 2
  | muls d r => 0x0200 + d.toNat % 16 * 16 + r.toNat % 16
  | multiply op d r =>
      0x0300 + op.code / 2 * 128 + d.toNat % 8 * 16 + op.code % 2 * 8
        + r.toNat % 8
  | immediate op d k =>
      op.code * 4096 + k.toNat / 16 * 256 + d.toNat % 16 * 16 + k.toNat % 16
  | pair op d k =>
      0x9600 + op.code * 256 + k.toNat / 16 % 4 * 64 + d.toNat / 2 % 4 * 16
        + k.toNat % 16
  | unary op d => 0x9400 + register d + op.code
  | ld d ptr step => indirect d ptr step
  | st ptr step r => storeBit + indirect r ptr step
  | ldd d ptr q => displaced d ptr q.toNat
  | std ptr q r => storeBit + displaced r ptr q.toNat
  | lds d _ => 0x9000 + register d
  | sts _ r => 0x9200 + register r
  | programLoad op d postIncrement =>
      if d.toNat = 0 ∧ postIncrement = false then
        match op with
        | .lpm => 0x95C8
        | .elpm => 0x95D8
      else 0x9000 + register d + op.code + postIncrement.toNat
  | spm postIncrement => 0x95E8 + postIncrement.toNat * 16
  | exchange op d => 0x9200 + register d + op.code
  | input d a => 0xB000 + register d + ioAddress a.toNat
  | output a r => 0xB800 + register r + ioAddress a.toNat
  | push r => 0x920F + register r
  | pop d => 0x900F + register d
  | flag op s => 0x9408 + op.code * 128 + s.toNat % 8 * 16
  | registerBit op r b => 0xF800 + op.code * 512 + register r + b.toNat % 8
  | ioBit op a b => 0x9800 + op.code * 256 + a.toNat % 32 * 8 + b.toNat % 8
  | branch op s k =>
      0xF000 + op.code * 1024 + (k.toInt % 128).toNat * 8 + s.toNat % 8
  | relative op k => 0xC000 + op.code * 4096 + (k.toInt % 4096).toNat
  | absolute op k => 0x940C + op.code * 2 + longHigh k.toNat
  | des k => 0x940B + k.toNat % 16 * 16

/-- The second word of a long instruction. -/
def secondWord? : Instruction → Option Word
  | lds _ k => some k
  | sts k _ => some k
  | absolute _ k => some (UInt16.ofNat (k.toNat % 65536))
  | _ => none

/-- The machine words of an instruction. -/
def words (i : Instruction) : List Word :=
  UInt16.ofNat i.firstWord :: i.secondWord?.toList

/-- The instruction as it lies in program memory. -/
def bytes (i : Instruction) : List UInt8 :=
  i.words.flatMap Word.bytes

theorem length_words (i : Instruction) : i.words.length = i.width := by
  cases i <;> rfl

end Instruction

end AvrFirmware
