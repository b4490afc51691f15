/-
Operands of assembly statements, and the names among them.

A name is a register, a pointer pair, or else a label. Offsets are
written in bytes from the following instruction.
-/
import AvrFirmware.Assembly.Token
import AvrFirmware.Register

namespace AvrFirmware

namespace Assembly

-- ================================================================ names

/-- The register of a name: r or R and its number, without leading zeros. -/
def registerOfChars? : List Char → Option Register
  | c :: d :: ds =>
      if (c = 'r' ∨ c = 'R') ∧ (ds = [] ∨ d ≠ '0') then
        match Numeral.readFrom .decimal 31 0 (d :: ds) with
        | .ok n => some (.ofNat n)
        | .error _ => none
      else none
  | _ => none

/-- The register that a name stands for. -/
def registerName? (name : String) : Option Register :=
  registerOfChars? name.toList

/-- The pointer pair that a name stands for. -/
def pointerName? (name : String) : Option Pointer :=
  match name with
  | "X" => some .x
  | "x" => some .x
  | "Y" => some .y
  | "y" => some .y
  | "Z" => some .z
  | "z" => some .z
  | _ => none

-- ============================================================= operands

/-- An operand of a statement. -/
inductive Operand where
  | register (r : Register)
  /-- A pointer pair, with or without a step. -/
  | pointer (ptr : Pointer) (step : PointerStep)
  /-- A displacement from a pointer pair. -/
  | displacement (ptr : Pointer) (q : Int)
  | number (n : Int)
  | label (name : String)
  /-- An offset in bytes. -/
  | relative (bytes : Int)
  deriving DecidableEq, Repr

namespace Operand

/-- The operand as messages show it. -/
def describe : Operand → String
  | register r => "Register(" ++ r.name ++ ")"
  | pointer ptr step => "Pointer(" ++ ptr.name ++ ", " ++ step.name ++ ")"
  | displacement ptr q =>
      "Displacement(" ++ ptr.name ++ ", " ++ Numeral.signed q ++ ")"
  | number n => "Number(" ++ Numeral.signed n ++ ")"
  | label name => "Label(" ++ Text.quoted name ++ ")"
  | relative bytes => "Relative(" ++ Numeral.signed bytes ++ ")"

end Operand

end Assembly

end AvrFirmware
