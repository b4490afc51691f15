/-
The AVR core instruction set.

# Families

Instructions that share an operand layout form one family: a constructor
of `Instruction` that takes the operation and the operands. The operation
types below list the members of each family. An operand field is as wide
as its storage, which can be wider than the bits a machine word has for
it; `Encodable` (Instruction/Encodable.lean) says which values fit.

# Width and mnemonic

`width` is the number of machine words an instruction takes, and
`mnemonic` its name in the instruction set manual.
-/
import AvrFirmware.Register

namespace AvrFirmware

-- =========================================================== operations

/-- Operations on any two registers. -/
inductive BinaryOp where
  | add
  | adc
  | sub
  | sbc
  | and
  | or
  | eor
  | cp
  | cpc
  | cpse
  | mov
  | mul
  deriving DecidableEq, Hashable, Repr

/-- Multiplications of two registers out of r16 to r23. -/
inductive MultiplyOp where
  | mulsu
  | fmul
  | fmuls
  | fmulsu
  deriving DecidableEq, Hashable, Repr

/-- Operations on one of r16 to r31 and an eight-bit constant. -/
inductive ImmediateOp where
  | cpi
  | sbci
  | subi
  | ori
  | andi
  | ldi
  deriving DecidableEq, Hashable, Repr

/-- Operations on one of the upper register pairs and a six-bit constant. -/
inductive PairOp where
  | adiw
  | sbiw
  deriving DecidableEq, Hashable, Repr

/-- Operations on one register. -/
inductive UnaryOp where
  | com
  | neg
  | swap
  | inc
  | dec
  | asr
  | lsr
  | ror
  deriving DecidableEq, Hashable, Repr

/-- Loads from program memory, without and with the bank register. -/
inductive ProgramLoadOp where
  | lpm
  | elpm
  deriving DecidableEq, Hashable, Repr

/-- Exchanges of a register with the memory byte at Z. -/
inductive ExchangeOp where
  | xch
  | las
  | lac
  | lat
  deriving DecidableEq, Hashable, Repr

/-- Changes of one status flag. -/
inductive FlagOp where
  | bset
  | bclr
  deriving DecidableEq, Hashable, Repr

/-- Operations on one bit of a register. -/
inductive RegisterBitOp where
  | bld
  | bst
  | sbrc
  | sbrs
  deriving DecidableEq, Hashable, Repr

/-- Operations on one bit of an I/O register. -/
inductive IoBitOp where
  | cbi
  | sbic
  | sbi
  | sbis
  deriving DecidableEq, Hashable, Repr

/-- Branches on one status flag. -/
inductive BranchOp where
  | brbs
  | brbc
  deriving DecidableEq, Hashable, Repr

/-- Transfers by a word offset. -/
inductive RelativeOp where
  | rjmp
  | rcall
  deriving DecidableEq, Hashable, Repr

/-- Transfers to a word address. -/
inductive AbsoluteOp where
  | jmp
  | call
  deriving DecidableEq, Hashable, Repr

/-- Instructions without operands. -/
inductive BareOp where
  | nop
  | ijmp
  | eijmp
  | icall
  | eicall
  | ret
  | reti
  | sleep
  | brk
  | wdr
  deriving DecidableEq, Hashable, Repr

-- ========================================================= instructions

/-- A decoded instruction. -/
inductive Instruction where
  /-- No operands. -/
  | bare (op : BareOp)
  /-- Two registers out of all. -/
  | binary (op : BinaryOp) (d r : Register)
  /-- Copy of a register pair; the registers name the low halves. -/
  | movw (d r : Register)
  /-- Signed product of two upper registers. -/
  | muls (d r : Register)
  /-- Product of two registers out of r16 to r23. -/
  | multiply (op : MultiplyOp) (d r : Register)
  /-- Upper register and constant. -/
  | immediate (op : ImmediateOp) (d : Register) (k : UInt8)
  /-- Register pair and constant. -/
  | pair (op : PairOp) (d : Register) (k : UInt8)
  /-- One register. -/
  | unary (op : UnaryOp) (d : Register)
  /-- Load through a pointer. -/
  | ld (d : Register) (ptr : Pointer) (step : PointerStep)
  /-- Store through a pointer. -/
  | st (ptr : Pointer) (step : PointerStep) (r : Register)
  /-- Load at a displacement from a pointer. -/
  | ldd (d : Register) (ptr : Pointer) (q : UInt8)
  /-- Store at a displacement from a pointer. -/
  | std (ptr : Pointer) (q : UInt8) (r : Register)
  /-- Load from a data address. -/
  | lds (d : Register) (k : UInt16)
  /-- Store to a data address. -/
  | sts (k : UInt16) (r : Register)
  /-- Load from program memory at Z, with or without post-increment. -/
  | programLoad (op : ProgramLoadOp) (d : Register) (postIncrement : Bool)
  /-- Store to program memory at Z, with or without post-increment. -/
  | spm (postIncrement : Bool)
  /-- Exchange with the byte at Z. -/
  | exchange (op : ExchangeOp) (d : Register)
  /-- Read of an I/O register. -/
  | input (d : Register) (a : UInt8)
  /-- Write of an I/O register. -/
  | output (a : UInt8) (r : Register)
  /-- Register onto the stack. -/
  | push (r : Register)
  /-- Register off the stack. -/
  | pop (d : Register)
  /-- Status flag `s` set or cleared. -/
  | flag (op : FlagOp) (s : UInt8)
  /-- Bit `b` of a register. -/
  | registerBit (op : RegisterBitOp) (r : Register) (b : UInt8)
  /-- Bit `b` of I/O register `a`. -/
  | ioBit (op : IoBitOp) (a b : UInt8)
  /-- Branch by `k` words on status flag `s`. -/
  | branch (op : BranchOp) (s : UInt8) (k : Int8)
  /-- Transfer by `k` words. -/
  | relative (op : RelativeOp) (k : Int16)
  /-- Transfer to word address `k`. -/
  | absolute (op : AbsoluteOp) (k : UInt32)
  /-- One round of the block cipher. -/
  | des (k : UInt8)
  deriving DecidableEq, Hashable, Repr

-- ============================================================ mnemonics

/-- The operation's mnemonic. -/
def BinaryOp.mnemonic : BinaryOp → String
  | add => "add"
  | adc => "adc"
  | sub => "sub"
  | sbc => "sbc"
  | and => "and"
  | or => "or"
  | eor => "eor"
  | cp => "cp"
  | cpc => "cpc"
  | cpse => "cpse"
  | mov => "mov"
  | mul => "mul"

/-- All operations of the family. -/
def BinaryOp.all : List BinaryOp :=
  [add, adc, sub, sbc, and, or, eor, cp, cpc, cpse, mov, mul]

/-- The operation's mnemonic. -/
def MultiplyOp.mnemonic : MultiplyOp → String
  | mulsu => "mulsu"
  | fmul => "fmul"
  | fmuls => "fmuls"
  | fmulsu => "fmulsu"

/-- All operations of the family. -/
def MultiplyOp.all : List MultiplyOp :=
  [mulsu, fmul, fmuls, fmulsu]

/-- The operation's mnemonic. -/
def ImmediateOp.mnemonic : ImmediateOp → String
  | cpi => "cpi"
  | sbci => "sbci"
  | subi => "subi"
  | ori => "ori"
  | andi => "andi"
  | ldi => "ldi"

/-- All operations of the family. -/
def ImmediateOp.all : List ImmediateOp :=
  [cpi, sbci, subi, ori, andi, ldi]

/-- The operation's mnemonic. -/
def PairOp.mnemonic : PairOp → String
  | adiw => "adiw"
  | sbiw => "sbiw"

/-- All operations of the family. -/
def PairOp.all : List PairOp :=
  [adiw, sbiw]

/-- The operation's mnemonic. -/
def UnaryOp.mnemonic : UnaryOp → String
  | com => "com"
  | neg => "neg"
  | swap => "swap"
  | inc => "inc"
  | dec => "dec"
  | asr => "asr"
  | lsr => "lsr"
  | ror => "ror"

/-- All operations of the family. -/
def UnaryOp.all : List UnaryOp :=
  [com, neg, swap, inc, dec, asr, lsr, ror]

/-- The operation's mnemonic. -/
def ProgramLoadOp.mnemonic : ProgramLoadOp → String
  | lpm => "lpm"
  | elpm => "elpm"

/-- All operations of the family. -/
def ProgramLoadOp.all : List ProgramLoadOp :=
  [lpm, elpm]

/-- The operation's mnemonic. -/
def ExchangeOp.mnemonic : ExchangeOp → String
  | xch => "xch"
  | las => "las"
  | lac => "lac"
  | lat => "lat"

/-- All operations of the family. -/
def ExchangeOp.all : List ExchangeOp :=
  [xch, las, lac, lat]

/-- The operation's mnemonic. -/
def FlagOp.mnemonic : FlagOp → String
  | bset => "bset"
  | bclr => "bclr"

/-- All operations of the family. -/
def FlagOp.all : List FlagOp :=
  [bset, bclr]

/-- The operation's mnemonic. -/
def RegisterBitOp.mnemonic : RegisterBitOp → String
  | bld => "bld"
  | bst => "bst"
  | sbrc => "sbrc"
  | sbrs => "sbrs"

/-- All operations of the family. -/
def RegisterBitOp.all : List RegisterBitOp :=
  [bld, bst, sbrc, sbrs]

/-- The operation's mnemonic. -/
def IoBitOp.mnemonic : IoBitOp → String
  | cbi => "cbi"
  | sbic => "sbic"
  | sbi => "sbi"
  | sbis => "sbis"

/-- All operations of the family. -/
def IoBitOp.all : List IoBitOp :=
  [cbi, sbic, sbi, sbis]

/-- The operation's mnemonic. -/
def BranchOp.mnemonic : BranchOp → String
  | brbs => "brbs"
  | brbc => "brbc"

/-- All operations of the family. -/
def BranchOp.all : List BranchOp :=
  [brbs, brbc]

/-- The operation's mnemonic. -/
def RelativeOp.mnemonic : RelativeOp → String
  | rjmp => "rjmp"
  | rcall => "rcall"

/-- All operations of the family. -/
def RelativeOp.all : List RelativeOp :=
  [rjmp, rcall]

/-- The operation's mnemonic. -/
def AbsoluteOp.mnemonic : AbsoluteOp → String
  | jmp => "jmp"
  | call => "call"

/-- All operations of the family. -/
def AbsoluteOp.all : List AbsoluteOp :=
  [jmp, call]

/-- The operation's mnemonic. -/
def BareOp.mnemonic : BareOp → String
  | nop => "nop"
  | ijmp => "ijmp"
  | eijmp => "eijmp"
  | icall => "icall"
  | eicall => "eicall"
  | ret => "ret"
  | reti => "reti"
  | sleep => "sleep"
  | brk => "break"
  | wdr => "wdr"

/-- All operations of the family. -/
def BareOp.all : List BareOp :=
  [nop, ijmp, eijmp, icall, eicall, ret, reti, sleep, brk, wdr]

namespace Instruction

/-- The instruction's name in the instruction set manual. -/
def mnemonic : Instruction → String
  | bare op => op.mnemonic
  | binary op _ _ => op.mnemonic
  | movw _ _ => "movw"
  | muls _ _ => "muls"
  | multiply op _ _ => op.mnemonic
  | immediate op _ _ => op.mnemonic
  | pair op _ _ => op.mnemonic
  | unary op _ => op.mnemonic
  | ld _ _ _ => "ld"
  | st _ _ _ => "st"
  | ldd _ _ _ => "ldd"
  | std _ _ _ => "std"
  | lds _ _ => "lds"
  | sts _ _ => "sts"
  | programLoad op _ _ => op.mnemonic
  | spm _ => "spm"
  | exchange op _ => op.mnemonic
  | input _ _ => "in"
  | output _ _ => "out"
  | push _ => "push"
  | pop _ => "pop"
  | flag op _ => op.mnemonic
  | registerBit op _ _ => op.mnemonic
  | ioBit op _ _ => op.mnemonic
  | branch op _ _ => op.mnemonic
  | relative op _ => op.mnemonic
  | absolute op _ => op.mnemonic
  | des _ => "des"

/-- The number of machine words the instruction takes. -/
def width : Instruction → Nat
  | lds _ _ => 2
  | sts _ _ => 2
  | absolute _ _ => 2
  | _ => 1

/-- Whether the instruction takes two machine words. -/
def isLong (i : Instruction) : Bool :=
  i.width == 2

theorem one_le_width (i : Instruction) : 1 ≤ i.width := by
  cases i <;> simp [width]

theorem width_le_two (i : Instruction) : i.width ≤ 2 := by
  cases i <;> simp [width]

end Instruction

end AvrFirmware
