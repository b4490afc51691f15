/-
The arguments of the command.

# Grammar

There is one file. A setting takes a value, as the next argument or behind
an equals sign in its own; a value never starts with a dash, unless it is
written behind an equals sign. Flags have a long name, and some a letter;
letters can share one dash. Two dashes alone make files of all arguments
behind them.

# Which fault is reported

Arguments are read from left to right. A value waits until the next
argument that is known, or the end, and is looked at then: so a fault in a
value is reported before any fault further on, except that an argument
that is unknown, one file too many, or a value that a flag does not take
is reported at once.
-/
import AvrFirmware.Stack.Config

namespace AvrFirmware

namespace Command

-- ============================================================== settings

/-- The options that take a value. -/
inductive Setting where
  | maxSteps
  | maxDepth
  | returnAddressBytes
  | revisit
  | entry
  deriving DecidableEq, Repr

namespace Setting

/-- The setting's long name. -/
def name : Setting → String
  | maxSteps => "max-steps"
  | maxDepth => "max-depth"
  | returnAddressBytes => "return-address-bytes"
  | revisit => "revisit"
  | entry => "entry"

/-- All settings. -/
def all : List Setting :=
  [maxSteps, maxDepth, returnAddressBytes, revisit, entry]

/-- The setting of a long name. -/
def ofName? (name : String) : Option Setting :=
  all.find? fun s => s.name == name

end Setting

/-- The options that take none. -/
inductive Flag where
  | json
  | verbose
  | help
  | version
  deriving DecidableEq, Repr

namespace Flag

/-- The flag of a long name. -/
def ofName? : String → Option Flag
  | "json" => some json
  | "verbose" => some verbose
  | "help" => some help
  | "version" => some version
  | _ => none

/-- The flag of a letter. -/
def ofLetter? : Char → Option Flag
  | 'v' => some verbose
  | 'h' => some help
  | 'V' => some version
  | _ => none

end Flag

-- ================================================================ faults

/-- What is wrong with the arguments. -/
inductive UsageFault where
  | badAddress (text : String) (fault : Numeral.Fault)
  | badValue (setting : Setting) (text : String)
  | missingValue (setting : Setting)
  | repeated (name : String)
  | unknown (argument : String)
  | unneededValue (argument : String)
  | emptyFile
  | noFile
  deriving DecidableEq, Repr

namespace UsageFault

/-- The wording of the fault. -/
def message : UsageFault → String
  | badAddress text fault =>
      "invalid address '" ++ text ++ "': " ++ fault.message
  | badValue setting text =>
      "invalid value '" ++ text ++ "' for --" ++ setting.name
  | missingValue setting => "--" ++ setting.name ++ " needs a value"
  | repeated name => "--" ++ name ++ " is given twice"
  | unknown argument => "unexpected argument '" ++ argument ++ "'"
  | unneededValue argument => "'" ++ argument ++ "' takes no value"
  | emptyFile => "the file name is empty"
  | noFile => "no file is given"

end UsageFault

-- ================================================================ values

/-- An address: hexadecimal behind 0x or 0X, or else decimal. -/
def readAddress (text : String) : Except UsageFault Nat :=
  let result := match text.toList with
    | '0' :: 'x' :: digits => Numeral.read .hexadecimal 0xFFFFFFFF digits
    | '0' :: 'X' :: digits => Numeral.read .hexadecimal 0xFFFFFFFF digits
    | digits => Numeral.read .decimal 0xFFFFFFFF digits
  match result with
  | .ok n => .ok n
  | .error fault => .error (.badAddress text fault)

/-- A number of sixty-four bits. -/
def readCount? (text : String) : Option Nat :=
  (Numeral.read .decimal 0xFFFFFFFFFFFFFFFF text.toList).toOption

/-- A number of eight bits; zero may have a minus sign. -/
def readByte? (text : String) : Option Nat :=
  match text.toList with
  | '-' :: d :: ds => (Numeral.readFrom .decimal 0 0 (d :: ds)).toOption
  | cs => (Numeral.read .decimal 255 cs).toOption

/-- A configuration with a setting given as text. -/
def configure (c : Stack.Config) (setting : Setting) (text : String) :
    Except UsageFault Stack.Config :=
  let orBad {α : Type} (value : Option α) (build : α → Stack.Config) :=
    match value with
    | some a => .ok (build a)
    | none => .error (.badValue setting text)
  match setting with
  | .maxSteps => orBad (readCount? text) fun n => { c with maxSteps := n }
  | .maxDepth => orBad (readCount? text) fun n => { c with maxDepth := n }
  | .returnAddressBytes =>
      orBad (readByte? text) fun n => { c with returnAddressBytes := n }
  | .revisit =>
      orBad (Stack.Revisit.ofName? text) fun p => { c with revisit := p }
  | .entry =>
      match readAddress text with
      | .ok n => .ok { c with entryPoint := n }
      | .error fault => .error fault

-- =============================================================== options

/-- What the command is asked to analyze, and how. -/
structure Options where
  file : String
  config : Stack.Config
  /-- The report is written as JSON. -/
  json : Bool
  /-- How many times more events are asked for. -/
  verbosity : Nat
  deriving DecidableEq, Repr

/-- What the command is asked for. -/
inductive Request where
  | analyze (options : Options)
  | showHelp
  | showVersion
  deriving DecidableEq, Repr

/-- A value that waits to be looked at. -/
inductive Pending where
  | setting (setting : Setting) (value : Option String)
  | file (name : String)
  deriving DecidableEq, Repr

/-- The arguments read so far. -/
structure Reading where
  config : Stack.Config := {}
  /-- The settings that have their value. -/
  given : List Setting := []
  json : Bool := false
  verbosity : Nat := 0
  file : Option String := none
  /-- The place of the file is taken. -/
  placed : Bool := false
  pending : Option Pending := none
  /-- Only files follow. -/
  onlyFiles : Bool := false
  deriving DecidableEq, Repr

namespace Reading

/-- Gives a setting its value. -/
def give (r : Reading) (setting : Setting) (text : String) :
    Except UsageFault Reading :=
  if setting ∈ r.given then .error (.repeated setting.name)
  else
    match configure r.config setting text with
    | .ok config =>
        .ok { r with config := config, given := setting :: r.given }
    | .error fault => .error fault

/-- Looks at the value that waits. -/
def settle (r : Reading) : Except UsageFault Reading :=
  match r.pending with
  | none => .ok r
  | some (.setting setting none) => .error (.missingValue setting)
  | some (.setting setting (some text)) =>
      { r with pending := none }.give setting text
  | some (.file name) =>
      if name = "" then .error .emptyFile
      else .ok { r with file := some name, pending := none }

/-- Goes on with further arguments, or ends with a request. -/
inductive Step where
  | more (r : Reading)
  | done (request : Request)

/-- Takes a flag. -/
def flag (r : Reading) (f : Flag) : Except UsageFault Step :=
  match r.settle with
  | .error fault => .error fault
  | .ok r =>
      match f with
      | .json =>
          if r.json then .error (.repeated "json")
          else .ok (.more { r with json := true })
      | .verbose => .ok (.more { r with verbosity := r.verbosity + 1 })
      | .help => .ok (.done .showHelp)
      | .version => .ok (.done .showVersion)

/-- Takes the letters behind a dash. -/
def letters (r : Reading) (argument : String) :
    List Char → Except UsageFault Step
  | [] => .ok (.more r)
  | c :: cs =>
      match Flag.ofLetter? c with
      | none => .error (.unknown argument)
      | some f =>
          match r.flag f with
          | .ok (.more r) => r.letters argument cs
          | outcome => outcome

/-- Takes a setting, with the value behind its equals sign if there is one. -/
def setting (r : Reading) (s : Setting) (value : Option String) :
    Except UsageFault Step :=
  match r.settle with
  | .error fault => .error fault
  | .ok r =>
      match value with
      | none => .ok (.more { r with pending := some (.setting s none) })
      | some text =>
          match r.give s text with
          | .ok r => .ok (.more r)
          | .error fault => .error fault

/-- Takes the name behind two dashes, with the value behind its equals sign if
there is one. -/
def long (r : Reading) (argument name : String) (value : Option String) :
    Except UsageFault Step :=
  match Setting.ofName? name with
  | some s => r.setting s value
  | none =>
      match Flag.ofName? name, value with
      | none, _ => .error (.unknown argument)
      | some _, some _ => .error (.unneededValue argument)
      | some f, none => r.flag f

/-- Takes a file. -/
def place (r : Reading) (name : String) : Except UsageFault Step :=
  if r.placed then .error (.unknown name)
  else
    match r.settle with
    | .error fault => .error fault
    | .ok r =>
        .ok (.more { r with placed := true, pending := some (.file name) })

/-- Takes an argument that is no option. -/
def plain (r : Reading) (argument : String) : Except UsageFault Step :=
  match r.pending with
  | some (.setting s none) =>
      .ok (.more { r with pending := some (.setting s (some argument)) })
  | _ => r.place argument

/-- The name in front of the first equals sign, and the value behind it if
there is one. -/
def splitValue (cs : List Char) : String × Option String :=
  match cs.dropWhile (· != '=') with
  | [] => (String.ofList cs, none)
  | _ :: value =>
      (String.ofList (cs.takeWhile (· != '=')), some (String.ofList value))

/-- Takes an argument. -/
def step (r : Reading) (argument : String) : Except UsageFault Step :=
  if r.onlyFiles then r.place argument
  else
    match argument.toList with
    | ['-', '-'] => .ok (.more { r with onlyFiles := true })
    | '-' :: '-' :: cs => r.long argument (splitValue cs).1 (splitValue cs).2
    | '-' :: c :: cs => r.letters argument (c :: cs)
    | _ => r.plain argument

/-- The request when no argument is left. -/
def finish (r : Reading) : Except UsageFault Request :=
  match r.settle with
  | .error fault => .error fault
  | .ok r =>
      match r.file with
      | none => .error .noFile
      | some file => .ok (.analyze ⟨file, r.config, r.json, r.verbosity⟩)

/-- Takes all arguments. -/
def run (r : Reading) : List String → Except UsageFault Request
  | [] => r.finish
  | argument :: rest =>
      match r.step argument with
      | .error fault => .error fault
      | .ok (.done request) => .ok request
      | .ok (.more r) => r.run rest

end Reading

/-- The request that some arguments make. -/
def Request.parse (arguments : List String) : Except UsageFault Request :=
  Reading.run {} arguments

end Command

end AvrFirmware
