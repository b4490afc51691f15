/-
What the command does, up to reading the file and writing the answer.

The configuration is looked at first, then the file, then its records,
then the program. An error is shown with what led to it, from the outside
in.
-/
import AvrFirmware.Command.Options
import AvrFirmware.Exchange.Analysis
import AvrFirmware.Stack.Analysis

namespace AvrFirmware

namespace Command

/-- Why the text of a file cannot be had. -/
inductive ReadFault where
  | notFound
  | notText
  | refused (message : String)
  deriving DecidableEq, Repr

namespace ReadFault

/-- The wording of the fault. -/
def message : ReadFault → String
  | notFound => "No such file or directory (os error 2)"
  | notText => "stream did not contain valid UTF-8"
  | refused message => message

end ReadFault

/-- The text that some bytes hold. -/
def textOfBytes (bytes : ByteArray) : Except ReadFault String :=
  match String.fromUTF8? bytes with
  | some text => .ok text
  | none => .error .notText

/-- Why there is no answer. -/
inductive Failure where
  | badOptions (cause : Stack.ConfigError)
  | unreadable (file : String) (cause : ReadFault)
  | unloadable (file : String) (cause : Stack.Error)
  | notAnalyzed (file : String) (cause : Stack.Error)
  deriving DecidableEq, Repr

namespace Failure

/-- An error and what lies behind it. -/
def chain (e : Stack.Error) : String :=
  match e.causeMessage? with
  | some cause => e.message ++ ": " ++ cause
  | none => e.message

/-- The wording of the failure. -/
def message : Failure → String
  | badOptions cause => "invalid analysis options: " ++ cause.message
  | unreadable file cause => "failed to read " ++ file ++ ": " ++ cause.message
  | unloadable file cause => "failed to load " ++ file ++ ": " ++ chain cause
  | notAnalyzed file cause =>
      "failed to analyze " ++ file ++ ": " ++ chain cause

end Failure

/-- The answer of the command. -/
structure Outcome where
  /-- What happened during the analysis. -/
  log : List Stack.Event
  result : Except Failure String

/-- The text of a report. -/
def Options.render (o : Options) (r : Stack.Report) : String :=
  if o.json then r.toJson.pretty ++ "\n" else r.text

/-- Analyzes the text of a file. -/
def Options.execute (o : Options) (content : Except ReadFault String) :
    Outcome :=
  match o.config.fault? with
  | some cause => ⟨[], .error (.badOptions cause)⟩
  | none =>
      match content with
      | .error cause => ⟨[], .error (.unreadable o.file cause)⟩
      | .ok text =>
          match Stack.readImage text with
          | .error cause => ⟨[], .error (.unloadable o.file cause)⟩
          | .ok image =>
              let outcome := Stack.analyze image o.config
              match outcome.result with
              | .error cause =>
                  ⟨outcome.log, .error (.notAnalyzed o.file cause)⟩
              | .ok report => ⟨outcome.log, .ok (o.render report)⟩

/-- Whether an event is shown; the more often it is asked for, the more is
shown. -/
def Options.shows (o : Options) (e : Stack.Event) : Bool :=
  match e.level with
  | .warn => true
  | .debug => 1 ≤ o.verbosity
  | .trace => 2 ≤ o.verbosity

/-- The line that says which version this is. -/
def versionText : String :=
  "avr-stack 0.1.0\n"

/-- How the command is used. -/
def helpText : String :=
  "\n".intercalate [
    "Static worst-case stack usage of AVR firmware",
    "",
    "Usage: avr-stack [OPTIONS] <FILE>",
    "",
    "Arguments:",
    "  <FILE>  Intel HEX firmware image",
    "",
    "Options:",
    "      --max-steps <MAX_STEPS>",
    "          Explored steps before the result is declared unbounded"
      ++ " [default: 1000000]",
    "      --max-depth <MAX_DEPTH>",
    "          States on one path before the result is declared unbounded"
      ++ " [default: 100000]",
    "      --return-address-bytes <RETURN_ADDRESS_BYTES>",
    "          Bytes pushed by CALL/RCALL (3 on devices with a 22-bit PC)"
      ++ " [default: 2]",
    "      --revisit <REVISIT>",
    "          How states reached again are treated [default: higher-height]",
    "          [possible values: first-visit, higher-height]",
    "      --entry <ENTRY>",
    "          Entry point word address (decimal or 0x-prefixed) [default: 0]",
    "      --json",
    "          Print the report as JSON",
    "  -v, --verbose...",
    "          Increase log verbosity (-v debug, -vv trace)",
    "  -h, --help",
    "          Print help",
    "  -V, --version",
    "          Print version",
    ""]

end Command

end AvrFirmware
