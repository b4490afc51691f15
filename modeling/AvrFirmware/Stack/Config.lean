/-
What an analysis is asked for: where to start, how far to go, how many
bytes a call leaves on the stack, and what to do with a place that is
reached again on a higher stack.
-/
import AvrFirmware.Numeral

namespace AvrFirmware

namespace Stack

/-- What becomes of a state that is reached again above the height it was
explored at. -/
inductive Revisit where
  /-- Each state is explored once, and a higher arrival gives up the bound. -/
  | firstVisit
  /-- The state is explored again. -/
  | higherHeight
  deriving DecidableEq, Repr

namespace Revisit

/-- The policy's name. -/
def name : Revisit → String
  | firstVisit => "first-visit"
  | higherHeight => "higher-height"

/-- All policies. -/
def all : List Revisit :=
  [firstVisit, higherHeight]

/-- The policy of a name. -/
def ofName? (name : String) : Option Revisit :=
  all.find? fun p => p.name == name

end Revisit

/-- What an analysis is asked for. -/
structure Config where
  /-- The word address to start from. -/
  entryPoint : Nat := 0
  /-- The number of arrivals after which the bound is given up. -/
  maxSteps : Nat := 1000000
  /-- The number of states on one path above which the bound is given up. -/
  maxDepth : Nat := 100000
  /-- The bytes that a call pushes. -/
  returnAddressBytes : Nat := 2
  revisit : Revisit := .higherHeight
  deriving DecidableEq, Repr

/-- Why a configuration makes no sense. -/
inductive ConfigError where
  | returnAddress
  | noSteps
  | noDepth
  deriving DecidableEq, Repr

namespace ConfigError

/-- The wording of the error. -/
def message : ConfigError → String
  | returnAddress => "return_address_bytes must be 2 or 3"
  | noSteps => "max_steps must be non-zero"
  | noDepth => "max_depth must be non-zero"

end ConfigError

namespace Config

/-- A return address takes two bytes or three, and both budgets leave room for
something. -/
def Valid (c : Config) : Prop :=
  (c.returnAddressBytes = 2 ∨ c.returnAddressBytes = 3) ∧ 0 < c.maxSteps
    ∧ 0 < c.maxDepth

instance (c : Config) : Decidable c.Valid :=
  inferInstanceAs (Decidable (_ ∧ _ ∧ _))

/-- What is wrong with a configuration, if anything. -/
def fault? (c : Config) : Option ConfigError :=
  if c.returnAddressBytes ≠ 2 ∧ c.returnAddressBytes ≠ 3 then
    some .returnAddress
  else if c.maxSteps = 0 then some .noSteps
  else if c.maxDepth = 0 then some .noDepth
  else none

theorem fault?_eq_none_iff (c : Config) : c.fault? = none ↔ c.Valid := by
  unfold fault? Valid
  split
  · simp only [reduceCtorEq, false_iff]
    omega
  · split
    · simp only [reduceCtorEq, false_iff]
      omega
    · split
      · simp only [reduceCtorEq, false_iff]
        omega
      · simp only [true_iff]
        omega

/-- The configuration as messages show it. -/
def text (c : Config) : String :=
  "AnalysisConfig \x7b entry: " ++ Numeral.address c.entryPoint
    ++ ", max_steps: " ++ Numeral.decimal c.maxSteps
    ++ ", max_depth: " ++ Numeral.decimal c.maxDepth
    ++ ", return address: " ++ Numeral.decimal c.returnAddressBytes
    ++ " bytes, revisit: " ++ c.revisit.name ++ " \x7d"

end Config

end Stack

end AvrFirmware
