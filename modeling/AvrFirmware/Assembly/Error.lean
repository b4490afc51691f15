/-
What can be wrong with assembly text.

A cause says what was found and what was expected; `Error` adds the line.
The wording of each is one function.
-/
import AvrFirmware.Assembly.Operand

namespace AvrFirmware

namespace Assembly

/-- Why the tokens of a line are not a statement. -/
inductive SyntaxFault where
  | unexpectedInput (text : String)
  | notOneInstruction
  | foundData
  | expectedInstruction (found : Token)
  | expectedComma (found : Token)
  | expectedOperand (found : Option Token)
  | expectedPointer (found : String)
  | expectedNumberOrPointer
  | endAfterMinus
  | expectedOffsetSign
  | expectedOffset
  | expectedWord (found : Operand)
  deriving DecidableEq, Repr

namespace SyntaxFault

/-- The wording of the fault. -/
def message : SyntaxFault → String
  | unexpectedInput text => "unexpected input '" ++ text ++ "'"
  | notOneInstruction => "expected a single instruction"
  | foundData => "expected an instruction, found data"
  | expectedInstruction found =>
      "expected instruction, found " ++ found.describe
  | expectedComma found => "expected ',', found " ++ found.describe
  | expectedOperand none => "expected operand"
  | expectedOperand (some found) =>
      "expected operand, found " ++ found.describe
  | expectedPointer found => "expected pointer after '-', found " ++ found
  | expectedNumberOrPointer => "expected number or pointer after '-'"
  | endAfterMinus => "unexpected end of line after '-'"
  | expectedOffsetSign => "expected '.+N' or '.-N'"
  | expectedOffset => "expected byte offset after '.'"
  | expectedWord found => ".word expects numbers, found " ++ found.describe

end SyntaxFault

/-- Why operands do not suit their mnemonic. -/
inductive OperandFault where
  | wrongCount (expected found : Nat)
  | expectedRegister (found : Operand)
  | registerClass (r : Register) (low high : Nat)
  | oddRegister (r : Register)
  | pairClass (mnemonic : String) (r : Register)
  | expectedNumber (found : Operand)
  | expectedPointer (found : Operand)
  | displacedX
  | expectedDisplacement (found : Operand)
  | expectedZ (found : Operand)
  | steppedZ (mnemonic : String)
  | oddOffset (bytes : Int)
  | expectedTarget (found : Operand)
  | oddAddress (address : Int)
  | expectedAddress (found : Operand)
  deriving DecidableEq, Repr

namespace OperandFault

/-- The wording of the fault. -/
def message : OperandFault → String
  | wrongCount expected found =>
      "expected " ++ Numeral.decimal expected ++ " operand(s), found "
        ++ Numeral.decimal found
  | expectedRegister found => "expected register, found " ++ found.describe
  | registerClass r low high =>
      r.text ++ " not allowed, expected r" ++ Numeral.decimal low ++ "-r"
        ++ Numeral.decimal high
  | oddRegister r => r.text ++ " is not an even register"
  | pairClass mnemonic r =>
      mnemonic ++ " expects r24, r26, r28 or r30, found " ++ r.text
  | expectedNumber found => "expected number, found " ++ found.describe
  | expectedPointer found =>
      "expected X, Y or Z pointer, found " ++ found.describe
  | displacedX => "X has no displacement form"
  | expectedDisplacement found =>
      "expected Y+q or Z+q, found " ++ found.describe
  | expectedZ found => "expected Z or Z+, found " ++ found.describe
  | steppedZ mnemonic => mnemonic ++ " expects Z, found Z+"
  | oddOffset bytes => "odd byte offset " ++ Numeral.signed bytes
  | expectedTarget found => "expected label or .+N, found " ++ found.describe
  | oddAddress address => "odd byte address " ++ Numeral.signed address
  | expectedAddress found =>
      "expected label or address, found " ++ found.describe

end OperandFault

/-- What can be wrong on one line. -/
inductive Cause where
  | badSyntax (fault : SyntaxFault)
  | unknownInstruction (mnemonic : String)
  | invalidRegister (name : String)
  | badOperand (fault : OperandFault)
  | outOfRange (value low high : Int)
  | undefinedLabel (label : String)
  | duplicateLabel (label : String)
  | invalidDirective (name : String)
  deriving DecidableEq, Repr

/-- A cause and the line it was found on. -/
structure Error where
  line : Nat
  cause : Cause
  deriving DecidableEq, Repr

namespace Error

/-- The wording of the error. -/
def message (e : Error) : String :=
  let site := " at line " ++ Numeral.decimal e.line
  match e.cause with
  | .badSyntax fault => "Syntax error" ++ site ++ ": " ++ fault.message
  | .unknownInstruction mnemonic =>
      "Unknown instruction" ++ site ++ ": " ++ mnemonic
  | .invalidRegister name => "Invalid register" ++ site ++ ": " ++ name
  | .badOperand fault => "Invalid operand" ++ site ++ ": " ++ fault.message
  | .outOfRange value low high =>
      "Value " ++ Numeral.signed value ++ " out of range ["
        ++ Numeral.signed low ++ ", "
        ++ Numeral.signed high ++ "]" ++ site
  | .undefinedLabel label => "Undefined label" ++ site ++ ": " ++ label
  | .duplicateLabel label => "Duplicate label" ++ site ++ ": " ++ label
  | .invalidDirective name => "Invalid directive" ++ site ++ ": ." ++ name

end Error

end Assembly

end AvrFirmware
