/-
Instructions as assembly text.

Offsets are written in bytes from the following instruction, so `rjmp
.-2` goes to itself, and long addresses as byte addresses. Flag and
branch operations go by the names that say their flag.
-/
import AvrFirmware.Instruction.Flow

namespace AvrFirmware

-- ===================================================== names with a flag

/-- The names of a flag operation, by flag. -/
def FlagOp.names : FlagOp → List String
  | bset => ["sec", "sez", "sen", "sev", "ses", "seh", "set", "sei"]
  | bclr => ["clc", "clz", "cln", "clv", "cls", "clh", "clt", "cli"]

/-- The names of a branch, by flag. -/
def BranchOp.names : BranchOp → List String
  | brbs => ["brcs", "breq", "brmi", "brvs", "brlt", "brhs", "brts", "brie"]
  | brbc => ["brcc", "brne", "brpl", "brvc", "brge", "brhc", "brtc", "brid"]

/-- The name for flag `s`; only its low three bits matter. -/
def FlagOp.name (op : FlagOp) (s : Nat) : String :=
  op.names.getD (s % 8) ""

/-- The name for flag `s`; only its low three bits matter. -/
def BranchOp.name (op : BranchOp) (s : Nat) : String :=
  op.names.getD (s % 8) ""

namespace Instruction

-- ============================================================= operands

/-- A word offset, in bytes from the following instruction. -/
def offsetText (words : Int) : String :=
  if words < 0 then ".-" ++ Numeral.decimal (words * 2).natAbs
  else ".+" ++ Numeral.decimal (words * 2).natAbs

/-- A constant in hexadecimal with at least `width` digits. -/
def hexText (width n : Nat) : String :=
  "0x" ++ Numeral.upperHex width n

/-- The program memory operand. -/
def zText (postIncrement : Bool) : String :=
  if postIncrement then "Z+" else "Z"

-- ================================================================= text

/-- A mnemonic and its operands. -/
def line (mnemonic : String) (operands : List String) : String :=
  mnemonic ++ " " ++ ", ".intercalate operands

/-- The instruction as assembly text. -/
def text : Instruction → String
  | bare op => op.mnemonic
  | binary op d r => line op.mnemonic [d.text, r.text]
  | movw d r => line "movw" [d.text, r.text]
  | muls d r => line "muls" [d.text, r.text]
  | multiply op d r => line op.mnemonic [d.text, r.text]
  | immediate op d k => line op.mnemonic [d.text, hexText 2 k.toNat]
  | pair op d k => line op.mnemonic [d.text, Numeral.decimal k.toNat]
  | unary op d => line op.mnemonic [d.text]
  | ld d ptr step => line "ld" [d.text, step.text ptr]
  | st ptr step r => line "st" [step.text ptr, r.text]
  | ldd d ptr q =>
      if q.toNat = 0 then line "ld" [d.text, ptr.name]
      else line "ldd" [d.text, ptr.name ++ "+" ++ Numeral.decimal q.toNat]
  | std ptr q r =>
      if q.toNat = 0 then line "st" [ptr.name, r.text]
      else line "std" [ptr.name ++ "+" ++ Numeral.decimal q.toNat, r.text]
  | lds d k => line "lds" [d.text, hexText 4 k.toNat]
  | sts k r => line "sts" [hexText 4 k.toNat, r.text]
  | programLoad op d postIncrement =>
      if d.toNat = 0 ∧ postIncrement = false then op.mnemonic
      else line op.mnemonic [d.text, zText postIncrement]
  | spm postIncrement => if postIncrement then "spm Z+" else "spm"
  | exchange op d => line op.mnemonic ["Z", d.text]
  | input d a => line "in" [d.text, hexText 2 a.toNat]
  | output a r => line "out" [hexText 2 a.toNat, r.text]
  | push r => line "push" [r.text]
  | pop d => line "pop" [d.text]
  | flag op s => op.name s.toNat
  | registerBit op r b => line op.mnemonic [r.text, Numeral.decimal b.toNat]
  | ioBit op a b =>
      line op.mnemonic [hexText 2 a.toNat, Numeral.decimal b.toNat]
  | branch op s k => line (op.name s.toNat) [offsetText k.toInt]
  | relative op k => line op.mnemonic [offsetText k.toInt]
  | absolute op k => line op.mnemonic [hexText 1 (k.toNat * 2)]
  | des k => line "des" [Numeral.decimal k.toNat]

example : (relative .rjmp (-1)).text = "rjmp .-2" := by decide +kernel

end Instruction

end AvrFirmware
