/-
The analysis of a program's stack.

`analyze` checks the configuration, walks the program from its entry point
and reports. What happened on the way comes with the result, also when
there is no report. The answer depends on the image and the configuration
alone.
-/
import AvrFirmware.Stack.Session

namespace AvrFirmware

namespace Stack

/-- The end of an analysis. -/
structure Outcome where
  /-- What happened, in order. -/
  log : List Event
  result : Except Error Report

/-- Analyzes a program. -/
def analyze (m : Image) (c : Config) : Outcome :=
  match c.fault? with
  | some e => ⟨[], .error (.badConfig e)⟩
  | none =>
      match (Session.start c [.started m.size c]).run m c with
      | .error failure => ⟨failure.log.reverse, .error failure.error⟩
      | .ok s =>
          let report := s.report
          ⟨(Event.finished report.usage report.steps report.states
              :: s.log).reverse, .ok report⟩

/-- The stack usage of a program. -/
def usage (m : Image) (c : Config) : Except Error Usage :=
  Report.usage <$> (analyze m c).result

/-- The program of a load file. -/
def readImage (text : String) : Except Error Image :=
  match Hex.readImage text with
  | .ok m => .ok m
  | .error cause => .error (.badImage cause)

/-- Analyzes the program of a load file. The text is read before the
configuration is looked at. -/
def analyzeText (text : String) (c : Config) : Outcome :=
  match readImage text with
  | .error e => ⟨[], .error e⟩
  | .ok m => analyze m c

end Stack

end AvrFirmware
