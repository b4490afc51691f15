/-
Assembled programs.

# Two passes

The first pass walks the lines and gives every label the number of words
before it; a label given twice ends it. The second pass builds the
statements, each at the address where the words before it end. A line
takes the same number of words in both, so a label's address is where the
statement behind it starts.
-/
import AvrFirmware.Assembly.Building
import AvrFirmware.Assembly.Line
import AvrFirmware.Text.Blank
import AvrFirmware.Image

namespace AvrFirmware

namespace Assembly

-- =============================================================== layout

namespace Line

/-- The number of words the line takes. -/
def width (line : Line) : Nat :=
  match line.statement with
  | none => 0
  | some s => s.width

end Line

/-- The labels of a line at address `pc`, added to those before it. -/
def define (number pc : Nat) (labels : Labels) :
    List String → Except Error Labels
  | [] => .ok labels
  | name :: rest =>
      if labels.contains name then .error ⟨number, .duplicateLabel name⟩
      else define number pc (labels.insert name pc) rest

/-- The labels of some lines that start at address `pc`, added to those before
them. -/
def layoutFrom (labels : Labels) (pc : Nat) : List Line → Except Error Labels
  | [] => .ok labels
  | line :: rest =>
      match define line.number pc labels line.labels with
      | .error e => .error e
      | .ok labels => layoutFrom labels (pc + line.width) rest

/-- The labels of a source and their addresses. -/
def layout (lines : List Line) : Except Error Labels :=
  layoutFrom ∅ 0 lines

-- ============================================================= emission

/-- The words of a statement at a site. -/
def Statement.emit (site : Site) : Statement → Except Cause (List Word)
  | instruction mnemonic os => Instruction.words <$> build site mnemonic os
  | words data => .ok data

/-- The words of some lines, behind those already emitted. -/
def emitFrom (labels : Labels) (done : Array Word) :
    List Line → Except Error (Array Word)
  | [] => .ok done
  | line :: rest =>
      match line.statement with
      | none => emitFrom labels done rest
      | some s =>
          match s.emit ⟨done.size, labels⟩ with
          | .error cause => .error ⟨line.number, cause⟩
          | .ok ws => emitFrom labels (done ++ ws) rest

-- ============================================================= programs

/-- An assembled program. -/
structure Program where
  words : Array Word
  labels : Labels

namespace Program

/-- The program of some lines. -/
def ofLines (lines : List Line) : Except Error Program :=
  match layout lines with
  | .error e => .error e
  | .ok labels =>
      match emitFrom labels #[] lines with
      | .error e => .error e
      | .ok words => .ok ⟨words, labels⟩

/-- The program of a source. -/
def assemble (source : String) : Except Error Program :=
  match Line.parseAll source with
  | .error e => .error e
  | .ok lines => ofLines lines

/-- The program in memory. -/
def image (p : Program) : Image :=
  Image.ofWords p.words.toList

end Program

-- ================================================== single instructions

/-- The instruction of a text that holds one instruction without labels. It
stands at address zero. -/
def readInstruction (text : String) : Except Error Instruction :=
  match Line.parseAll text with
  | .error e => .error e
  | .ok [⟨_, [], some (.instruction mnemonic os)⟩] =>
      match build ⟨0, ∅⟩ mnemonic os with
      | .error cause => .error ⟨1, cause⟩
      | .ok i => .ok i
  | .ok [⟨_, [], some (.words _)⟩] => .error ⟨1, .badSyntax .foundData⟩
  | .ok _ => .error ⟨1, .badSyntax .notOneInstruction⟩

/-- The register of a text, with blanks around it. -/
def readRegister (text : String) : Except Error Register :=
  let name := Text.trim text.toList
  match registerOfChars? name with
  | some r => .ok r
  | none => .error ⟨0, .invalidRegister (String.ofList name)⟩

end Assembly

end AvrFirmware
