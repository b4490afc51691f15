/-
What happens during an analysis, one event at a time.

Every arrival is an event of its own, so the log of a finished analysis
shows the whole walk.
-/
import AvrFirmware.Stack.Report

namespace AvrFirmware

namespace Stack

/-- How much attention an event asks for. -/
inductive Level where
  | trace
  | debug
  | warn
  deriving DecidableEq, Repr

namespace Level

/-- The level's name. -/
def name : Level → String
  | trace => "TRACE"
  | debug => "DEBUG"
  | warn => "WARN"

end Level

/-- Something that happens during an analysis. -/
inductive Event where
  | started (size : Nat) (config : Config)
  /-- An arrival at an instruction. -/
  | arrived (step pc : Nat) (height : Int) (instruction : Instruction)
  /-- An arrival past the end of the image. -/
  | leftImage (step pc : Nat) (height : Int)
  | reentered (pc : Nat) (now entered : Int)
  | rearrived (pc : Nat) (now explored : Int)
  | unresolved (pc : Nat) (instruction : Instruction)
  | underflow (pc : Nat)
  | gaveUp (peak : Nat) (reason : Reason)
  | finished (usage : Usage) (steps states : Nat)
  deriving DecidableEq, Repr

namespace Event

/-- The event's level. -/
def level : Event → Level
  | started .. => .debug
  | arrived .. => .trace
  | leftImage .. => .trace
  | reentered .. => .debug
  | rearrived .. => .debug
  | unresolved .. => .warn
  | underflow .. => .warn
  | gaveUp .. => .debug
  | finished .. => .debug

/-- The front of the line for an arrival. -/
def arrivalText (step pc : Nat) (height : Int) : String :=
  "[" ++ Numeral.decimalColumn 6 step ++ "] PC=" ++ Numeral.address pc
    ++ " h=" ++ Numeral.signed height ++ " "

/-- The wording of the event. -/
def message : Event → String
  | started size config =>
      "Analyzing " ++ Numeral.decimal size ++ " bytes from PC "
        ++ Numeral.address config.entryPoint
        ++ " (" ++ config.text ++ ")"
  | arrived step pc height i => arrivalText step pc height ++ i.text
  | leftImage step pc height =>
      arrivalText step pc height ++ "past end of image"
  | reentered pc now entered =>
      "PC " ++ Numeral.address pc ++ " re-entered at height "
        ++ Numeral.signed now
        ++ " (entered at " ++ Numeral.signed entered ++ ")"
  | rearrived pc now explored =>
      "PC " ++ Numeral.address pc ++ " reached at height "
        ++ Numeral.signed now
        ++ " (explored at " ++ Numeral.signed explored ++ ")"
  | unresolved pc i =>
      "Unresolved control transfer at PC " ++ Numeral.address pc ++ ": "
        ++ i.text
  | underflow pc => "Stack underflow at PC " ++ Numeral.address pc
  | gaveUp peak reason =>
      "Stack usage unbounded after a peak of " ++ Numeral.decimal peak
        ++ " bytes: " ++ reason.message
  | finished usage steps states =>
      "Analysis finished: " ++ usage.text ++ " after " ++ Numeral.decimal steps
        ++ " steps, " ++ Numeral.decimal states ++ " states"

/-- The event as a line of a log. -/
def text (e : Event) : String :=
  e.level.name ++ " " ++ e.message

end Event

end Stack

end AvrFirmware
