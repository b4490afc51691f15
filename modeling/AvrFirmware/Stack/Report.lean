/-
What an analysis finds out, and how it is worded.
-/
import AvrFirmware.Hex.File
import AvrFirmware.Instruction.Printer
import AvrFirmware.Stack.Config
import AvrFirmware.Stack.Usage

namespace AvrFirmware

namespace Stack

-- =============================================================== reasons

/-- Why a bound is given up. -/
inductive Reason where
  /-- The stack grows on a cycle through this address. -/
  | growingCycle (pc : Nat)
  /-- A state at this address is reached above its height and not explored
  again. -/
  | higherRevisit (pc : Nat)
  | stepBudget (limit : Nat)
  | depthBudget (limit : Nat)
  deriving DecidableEq, Repr

namespace Reason

/-- The wording of the reason. -/
def message : Reason → String
  | growingCycle pc =>
      "stack grows on every pass through " ++ Numeral.address pc
  | higherRevisit pc =>
      Numeral.address pc ++ " reached again above its explored height"
  | stepBudget limit =>
      "step budget of " ++ Numeral.decimal limit ++ " exhausted"
  | depthBudget limit =>
      "depth budget of " ++ Numeral.decimal limit ++ " exceeded"

end Reason

-- =============================================================== reports

/-- The result of an analysis. -/
structure Report where
  usage : Usage
  /-- The number of arrivals. -/
  steps : Nat
  /-- The number of states met. -/
  states : Nat
  /-- Transfers of control whose destination is not known, by address. -/
  gaps : List (Nat × Instruction)
  /-- The addresses of pops that leave the stack below its start, ascending. -/
  underflows : List Nat
  /-- Why the bound was given up, if it was. -/
  unbounded : Option Reason
  deriving DecidableEq, Repr

namespace Report

/-- Every transfer of control that was met has a known destination. -/
def isComplete (r : Report) : Bool :=
  r.gaps.isEmpty

/-- The first line of a report. -/
def verdictLine (r : Report) : String :=
  match r.unbounded with
  | some reason => "max stack: unbounded (" ++ reason.message ++ ")"
  | none => "max stack: " ++ r.usage.text

/-- A heading and the lines below it, or nothing. -/
def block (heading : String) (lines : List String) : List String :=
  if lines.isEmpty then [] else heading :: lines.map ("  " ++ ·)

/-- The lines of a report. -/
def lines (r : Report) : List String :=
  r.verdictLine
    :: ("explored: " ++ Numeral.decimal r.steps ++ " steps, "
      ++ Numeral.decimal r.states ++ " states")
    :: (block "unresolved control transfers:"
        (r.gaps.map fun gap => Numeral.address gap.1 ++ ": " ++ gap.2.text)
      ++ block "stack underflows:" (r.underflows.map Numeral.address))

/-- The text of a report. -/
def text (r : Report) : String :=
  r.lines.foldl (fun acc line => acc ++ line ++ "\n") ""

end Report

-- ================================================================ errors

/-- Why there is no report. -/
inductive Error where
  /-- An instruction that no path can be followed through. -/
  | unsupported (pc : Nat) (instruction : Instruction)
  | malformed (pc : Nat) (cause : DecodeError)
  | badImage (cause : Hex.Error)
  | badConfig (cause : ConfigError)
  deriving DecidableEq, Repr

namespace Error

/-- The address an error is about. -/
def pc? : Error → Option Nat
  | unsupported pc _ => some pc
  | malformed pc _ => some pc
  | badImage _ => none
  | badConfig _ => none

/-- The wording of what lies behind an error. -/
def causeMessage? : Error → Option String
  | unsupported _ _ => none
  | malformed _ cause => some cause.message
  | badImage cause => some cause.message
  | badConfig cause => some cause.message

/-- The wording of the error. -/
def message : Error → String
  | unsupported pc i =>
      "Unsupported instruction at PC " ++ Numeral.address pc ++ ": " ++ i.text
  | malformed pc cause =>
      "Malformed image at PC " ++ Numeral.address pc ++ ": " ++ cause.message
  | badImage cause => "Image error: " ++ cause.message
  | badConfig cause => "Invalid configuration: " ++ cause.message

end Error

end Stack

end AvrFirmware
