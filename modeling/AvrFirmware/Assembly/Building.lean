/-
Instructions from mnemonics and operands.

# Readings of an operand

Each reading accepts some kinds of operand and says what it expected when
it meets another: a register, a number within bounds, a pointer, a
displacement, a target. Offsets and addresses are written in bytes and
kept in words, so an odd one is refused before its range is looked at.
A label stands for a word address. As an offset it is measured from the
following instruction and has to be within reach; as an absolute address
it is taken as it is.

# Forms

`Form.build` asks for the number of operands first and then reads them,
in most forms from left to right; a store reads its register before its
pointer.
-/
import AvrFirmware.Assembly.Form
import AvrFirmware.Assembly.Error
import Std.Data.TreeMap

namespace AvrFirmware

namespace Assembly

/-- Labels and their word addresses. -/
abbrev Labels := Std.TreeMap String Nat

/-- Where an instruction is placed, and the labels in its scope. -/
structure Site where
  pc : Nat
  labels : Labels

namespace Site

/-- The address of a label. -/
def address (site : Site) (name : String) : Except Cause Nat :=
  match site.labels.get? name with
  | some pc => .ok pc
  | none => .error (.undefinedLabel name)

end Site

-- ============================================================== readings

/-- A value within bounds. -/
def within (low high n : Int) : Except Cause Int :=
  if low ≤ n ∧ n ≤ high then .ok n else .error (.outOfRange n low high)

/-- A register in a range of registers. -/
def registerWithin (low high : Nat) (r : Register) : Except Cause Register :=
  if low ≤ r.toNat ∧ r.toNat ≤ high then .ok r
  else .error (.badOperand (.registerClass r low high))

/-- A register with an even number. -/
def evenRegister (r : Register) : Except Cause Register :=
  if r.toNat % 2 = 0 then .ok r else .error (.badOperand (.oddRegister r))

/-- The low register of one of the pairs that take word constants. -/
def pairRegister (mnemonic : String) (r : Register) : Except Cause Register :=
  if r.toNat = 24 ∨ r.toNat = 26 ∨ r.toNat = 28 ∨ r.toNat = 30 then .ok r
  else .error (.badOperand (.pairClass mnemonic r))

namespace Operand

/-- The operand as a register. -/
def asRegister : Operand → Except Cause Register
  | register r => .ok r
  | label name => .error (.invalidRegister name)
  | o => .error (.badOperand (.expectedRegister o))

/-- The operand as a number within bounds. -/
def asNumber (low high : Int) : Operand → Except Cause Int
  | number n => within low high n
  | o => .error (.badOperand (.expectedNumber o))

/-- The operand as a byte, from a number within bounds; negative numbers
wrap. -/
def asByte (low high : Int) (o : Operand) : Except Cause UInt8 :=
  (fun n => UInt8.ofNat (n % 256).toNat) <$> o.asNumber low high

/-- The operand as a data address. -/
def asDataAddress (o : Operand) : Except Cause UInt16 :=
  (fun n => UInt16.ofNat n.toNat) <$> o.asNumber 0 0xFFFF

/-- The operand as a pointer with its step; a displacement of zero is none. -/
def asPointer : Operand → Except Cause (Pointer × PointerStep)
  | pointer ptr step => .ok (ptr, step)
  | displacement ptr 0 => .ok (ptr, .plain)
  | o => .error (.badOperand (.expectedPointer o))

/-- The operand as a displacement from Y or Z. -/
def asDisplacement : Operand → Except Cause (Pointer × UInt8)
  | displacement .x _ => .error (.badOperand .displacedX)
  | displacement ptr q =>
      (fun n => (ptr, UInt8.ofNat n.toNat)) <$> within 0 63 q
  | o => .error (.badOperand (.expectedDisplacement o))

/-- The operand as Z, with whether it is incremented. -/
def asZ : Operand → Except Cause Bool
  | pointer .z .plain => .ok false
  | pointer .z .postIncrement => .ok true
  | o => .error (.badOperand (.expectedZ o))

/-- The operand as an offset in words from the following instruction. -/
def asOffset (site : Site) : Operand → Except Cause Int
  | relative bytes =>
      if bytes % 2 = 0 then .ok (bytes / 2)
      else .error (.badOperand (.oddOffset bytes))
  | label name => (fun pc => (pc : Int) - (site.pc + 1)) <$> site.address name
  | o => .error (.badOperand (.expectedTarget o))

/-- The operand as the offset of a branch. -/
def asShortOffset (site : Site) (o : Operand) : Except Cause Int8 :=
  Int8.ofInt <$> (o.asOffset site >>= within (-64) 63)

/-- The operand as the offset of a jump or call. -/
def asLongOffset (site : Site) (o : Operand) : Except Cause Int16 :=
  Int16.ofInt <$> (o.asOffset site >>= within (-2048) 2047)

/-- The operand as an address of the program memory. -/
def asAddress (site : Site) : Operand → Except Cause UInt32
  | label name => UInt32.ofNat <$> site.address name
  | number n =>
      if n % 2 = 0 then
        (fun n => UInt32.ofNat (n / 2).toNat) <$> within 0 0x7FFFFE n
      else .error (.badOperand (.oddAddress n))
  | o => .error (.badOperand (.expectedAddress o))

end Operand

-- ================================================================ counts

/-- No operands. -/
def noOperand : List Operand → Except Cause Unit
  | [] => .ok ()
  | os => .error (.badOperand (.wrongCount 0 os.length))

/-- The only operand. -/
def oneOperand : List Operand → Except Cause Operand
  | [a] => .ok a
  | os => .error (.badOperand (.wrongCount 1 os.length))

/-- The two operands. -/
def twoOperands : List Operand → Except Cause (Operand × Operand)
  | [a, b] => .ok (a, b)
  | os => .error (.badOperand (.wrongCount 2 os.length))

/-- The only operand, a register. -/
def oneRegister (os : List Operand) : Except Cause Register :=
  oneOperand os >>= Operand.asRegister

/-- The two operands, registers. -/
def twoRegisters (os : List Operand) : Except Cause (Register × Register) := do
  let (a, b) ← twoOperands os
  let d ← a.asRegister
  let r ← b.asRegister
  return (d, r)

/-- The two operands, one of r16 to r31 and a constant of eight bits. -/
def upperImmediate (os : List Operand) : Except Cause (Register × UInt8) := do
  let (a, b) ← twoOperands os
  let d ← a.asRegister >>= registerWithin 16 31
  let k ← b.asByte (-128) 255
  return (d, k)

-- ================================================================= forms

/-- A load through a pointer; Y and Z without a step are displacements of
zero. -/
def loadThrough (d : Register) : Pointer × PointerStep → Instruction
  | (.y, .plain) => .ldd d .y 0
  | (.z, .plain) => .ldd d .z 0
  | (ptr, step) => .ld d ptr step

/-- A store through a pointer; Y and Z without a step are displacements of
zero. -/
def storeThrough (r : Register) : Pointer × PointerStep → Instruction
  | (.y, .plain) => .std .y 0 r
  | (.z, .plain) => .std .z 0 r
  | (ptr, step) => .st ptr step r

namespace Form

/-- The instruction of a form with its operands, placed at a site. -/
def build (site : Site) (os : List Operand) : Form → Except Cause Instruction
  | bare op => do
      noOperand os
      return .bare op
  | binary op => do
      let (d, r) ← twoRegisters os
      return .binary op d r
  | doubled op => do
      let d ← oneRegister os
      return .binary op d d
  | movw => do
      let (d, r) ← twoRegisters os
      let d ← evenRegister d
      let r ← evenRegister r
      return .movw d r
  | muls => do
      let (d, r) ← twoRegisters os
      let d ← registerWithin 16 31 d
      let r ← registerWithin 16 31 r
      return .muls d r
  | multiply op => do
      let (d, r) ← twoRegisters os
      let d ← registerWithin 16 23 d
      let r ← registerWithin 16 23 r
      return .multiply op d r
  | immediate op => do
      let (d, k) ← upperImmediate os
      return .immediate op d k
  | clearBits => do
      let (d, k) ← upperImmediate os
      return .immediate .andi d (255 - k)
  | setAll => do
      let d ← oneRegister os >>= registerWithin 16 31
      return .immediate .ldi d 255
  | pair op => do
      let (a, b) ← twoOperands os
      let d ← a.asRegister >>= pairRegister op.mnemonic
      let k ← b.asByte 0 63
      return .pair op d k
  | unary op => do
      let d ← oneRegister os
      return .unary op d
  | ld => do
      let (a, b) ← twoOperands os
      let d ← a.asRegister
      let p ← b.asPointer
      return loadThrough d p
  | st => do
      let (a, b) ← twoOperands os
      let r ← b.asRegister
      let p ← a.asPointer
      return storeThrough r p
  | ldd => do
      let (a, b) ← twoOperands os
      let d ← a.asRegister
      let (ptr, q) ← b.asDisplacement
      return .ldd d ptr q
  | std => do
      let (a, b) ← twoOperands os
      let (ptr, q) ← a.asDisplacement
      let r ← b.asRegister
      return .std ptr q r
  | lds => do
      let (a, b) ← twoOperands os
      let d ← a.asRegister
      let k ← b.asDataAddress
      return .lds d k
  | sts => do
      let (a, b) ← twoOperands os
      let k ← a.asDataAddress
      let r ← b.asRegister
      return .sts k r
  | programLoad op =>
      match os with
      | [] => .ok (.programLoad op (.ofNat 0) false)
      | os => do
          let (a, b) ← twoOperands os
          let d ← a.asRegister
          let postIncrement ← b.asZ
          return .programLoad op d postIncrement
  | spm =>
      match os with
      | [] => .ok (.spm false)
      | os => do
          let a ← oneOperand os
          let postIncrement ← a.asZ
          return .spm postIncrement
  | exchange op => do
      let (a, b) ← twoOperands os
      let postIncrement ← a.asZ
      if postIncrement then throw (.badOperand (.steppedZ op.mnemonic))
      let d ← b.asRegister
      return .exchange op d
  | input => do
      let (a, b) ← twoOperands os
      let d ← a.asRegister
      let k ← b.asByte 0 63
      return .input d k
  | output => do
      let (a, b) ← twoOperands os
      let k ← a.asByte 0 63
      let r ← b.asRegister
      return .output k r
  | push => do
      let r ← oneRegister os
      return .push r
  | pop => do
      let d ← oneRegister os
      return .pop d
  | flag op => do
      let a ← oneOperand os
      let s ← a.asByte 0 7
      return .flag op s
  | namedFlag op s => do
      noOperand os
      return .flag op s
  | registerBit op => do
      let (a, b) ← twoOperands os
      let r ← a.asRegister
      let bit ← b.asByte 0 7
      return .registerBit op r bit
  | ioBit op => do
      let (a, b) ← twoOperands os
      let k ← a.asByte 0 31
      let bit ← b.asByte 0 7
      return .ioBit op k bit
  | branch op => do
      let (a, b) ← twoOperands os
      let s ← a.asByte 0 7
      let k ← b.asShortOffset site
      return .branch op s k
  | namedBranch op s => do
      let a ← oneOperand os
      let k ← a.asShortOffset site
      return .branch op s k
  | relative op => do
      let a ← oneOperand os
      let k ← a.asLongOffset site
      return .relative op k
  | absolute op => do
      let a ← oneOperand os
      let k ← a.asAddress site
      return .absolute op k
  | des => do
      let a ← oneOperand os
      let k ← a.asByte 0 15
      return .des k

end Form

/-- The instruction of a mnemonic in lower case with its operands, placed at a
site. -/
def build (site : Site) (mnemonic : String) (os : List Operand) :
    Except Cause Instruction :=
  match Form.ofMnemonic? mnemonic with
  | some form => form.build site os
  | none => .error (.unknownInstruction mnemonic)

end Assembly

end AvrFirmware
