/-
Instructions in exchange form.

A case without operands is its name, one with operands an object whose
one field is that name. Names are the mnemonics with a capital letter,
and operand fields go by the letters of the instruction set manual. On
reading, further fields are passed over, and a number has to fit the
storage of its field.
-/
import AvrFirmware.Instruction.Flow
import AvrFirmware.Json

namespace AvrFirmware

-- ============================================================ registers

namespace Register

/-- The register in exchange form. -/
def toJson (r : Register) : Json :=
  .str r.name

/-- The register that an exchange form names. -/
def ofJson? (j : Json) : Option Register :=
  j.plainCase?.bind fun tag => all.find? (·.name == tag)

end Register

namespace Pointer

/-- The pointer in exchange form. -/
def toJson (p : Pointer) : Json :=
  .str p.name

/-- The pointer that an exchange form names. -/
def ofJson? (j : Json) : Option Pointer :=
  j.plainCase?.bind fun tag => all.find? (·.name == tag)

end Pointer

namespace PointerStep

/-- The step in exchange form. -/
def toJson (s : PointerStep) : Json :=
  .str s.name

/-- The step that an exchange form names. -/
def ofJson? (j : Json) : Option PointerStep :=
  j.plainCase?.bind fun tag => all.find? (·.name == tag)

end PointerStep

-- ========================================================= instructions

namespace Instruction

/-- The name of an instruction's case. -/
def caseName (mnemonic : String) : String :=
  mnemonic.capitalize

/-- The operand fields in exchange form. -/
def fields : Instruction → List (String × Json)
  | bare _ => []
  | binary _ d r => [("d", d.toJson), ("r", r.toJson)]
  | movw d r => [("d", d.toJson), ("r", r.toJson)]
  | muls d r => [("d", d.toJson), ("r", r.toJson)]
  | multiply _ d r => [("d", d.toJson), ("r", r.toJson)]
  | immediate _ d k => [("d", d.toJson), ("k", .nat k.toNat)]
  | pair _ d k => [("d", d.toJson), ("k", .nat k.toNat)]
  | unary _ d => [("d", d.toJson)]
  | ld d ptr step =>
      [("d", d.toJson), ("ptr", ptr.toJson), ("mode", step.toJson)]
  | st ptr step r =>
      [("ptr", ptr.toJson), ("mode", step.toJson), ("r", r.toJson)]
  | ldd d ptr q => [("d", d.toJson), ("ptr", ptr.toJson), ("q", .nat q.toNat)]
  | std ptr q r => [("ptr", ptr.toJson), ("q", .nat q.toNat), ("r", r.toJson)]
  | lds d k => [("d", d.toJson), ("k", .nat k.toNat)]
  | sts k r => [("k", .nat k.toNat), ("r", r.toJson)]
  | programLoad _ d postIncrement =>
      [("d", d.toJson), ("post_increment", .bool postIncrement)]
  | spm postIncrement => [("post_increment", .bool postIncrement)]
  | exchange _ d => [("d", d.toJson)]
  | input d a => [("d", d.toJson), ("a", .nat a.toNat)]
  | output a r => [("a", .nat a.toNat), ("r", r.toJson)]
  | push r => [("r", r.toJson)]
  | pop d => [("d", d.toJson)]
  | flag _ s => [("s", .nat s.toNat)]
  | registerBit .bld r b => [("d", r.toJson), ("b", .nat b.toNat)]
  | registerBit .bst r b => [("d", r.toJson), ("b", .nat b.toNat)]
  | registerBit _ r b => [("r", r.toJson), ("b", .nat b.toNat)]
  | ioBit _ a b => [("a", .nat a.toNat), ("b", .nat b.toNat)]
  | branch _ s k => [("s", .nat s.toNat), ("k", .int k.toInt)]
  | relative _ k => [("k", .int k.toInt)]
  | absolute _ k => [("k", .nat k.toNat)]
  | des k => [("k", .nat k.toNat)]

/-- The instruction in exchange form. -/
def toJson (i : Instruction) : Json :=
  match i.fields with
  | [] => .str (caseName i.mnemonic)
  | fields => .tagged (caseName i.mnemonic) (.obj fields)

-- ============================================================== reading

/-- The operand fields of a case. -/
abbrev Fields := List (String × Json)

namespace Fields

/-- A register field. -/
def register? (fs : Fields) (name : String) : Option Register :=
  (fs.lookup name).bind Register.ofJson?

/-- A pointer field. -/
def pointer? (fs : Fields) : Option Pointer :=
  (fs.lookup "ptr").bind Pointer.ofJson?

/-- The pointer step field. -/
def step? (fs : Fields) : Option PointerStep :=
  (fs.lookup "mode").bind PointerStep.ofJson?

/-- A field of eight bits. -/
def byte? (fs : Fields) (name : String) : Option UInt8 :=
  (fs.lookup name).bind fun j => (j.nat? 0xFF).map UInt8.ofNat

/-- A field of sixteen bits. -/
def half? (fs : Fields) (name : String) : Option UInt16 :=
  (fs.lookup name).bind fun j => (j.nat? 0xFFFF).map UInt16.ofNat

/-- A field of thirty-two bits. -/
def long? (fs : Fields) (name : String) : Option UInt32 :=
  (fs.lookup name).bind fun j => (j.nat? 0xFFFFFFFF).map UInt32.ofNat

/-- A signed field of eight bits. -/
def shortOffset? (fs : Fields) (name : String) : Option Int8 :=
  (fs.lookup name).bind fun j => (j.int? (-0x80) 0x7F).map Int8.ofInt

/-- A signed field of sixteen bits. -/
def offset? (fs : Fields) (name : String) : Option Int16 :=
  (fs.lookup name).bind fun j => (j.int? (-0x8000) 0x7FFF).map Int16.ofInt

/-- The post-increment field. -/
def postIncrement? (fs : Fields) : Option Bool :=
  (fs.lookup "post_increment").bind Json.bool?

/-- Two register fields. -/
def registers? (fs : Fields) (build : Register → Register → Instruction) :
    Option Instruction :=
  build <$> fs.register? "d" <*> fs.register? "r"

end Fields

/-- What reads the operands of a case. -/
abbrev Reader := Fields → Option Instruction

/-- The readers of a family of operations, by mnemonic. -/
def family {α : Type} (ops : List α) (mnemonic : α → String)
    (reader : α → Reader) : List (String × Reader) :=
  ops.map fun op => (mnemonic op, reader op)

/-- The readers of the instructions that stand alone, by mnemonic. -/
def loneReaders : List (String × Reader) :=
  [("movw", fun fs => fs.registers? movw),
    ("muls", fun fs => fs.registers? muls),
    ("ld", fun fs => ld <$> fs.register? "d" <*> fs.pointer? <*> fs.step?),
    ("st", fun fs => st <$> fs.pointer? <*> fs.step? <*> fs.register? "r"),
    ("ldd",
      fun fs => ldd <$> fs.register? "d" <*> fs.pointer? <*> fs.byte? "q"),
    ("std",
      fun fs => std <$> fs.pointer? <*> fs.byte? "q" <*> fs.register? "r"),
    ("lds", fun fs => lds <$> fs.register? "d" <*> fs.half? "k"),
    ("sts", fun fs => sts <$> fs.half? "k" <*> fs.register? "r"),
    ("spm", fun fs => spm <$> fs.postIncrement?),
    ("in", fun fs => input <$> fs.register? "d" <*> fs.byte? "a"),
    ("out", fun fs => output <$> fs.byte? "a" <*> fs.register? "r"),
    ("push", fun fs => push <$> fs.register? "r"),
    ("pop", fun fs => pop <$> fs.register? "d"),
    ("des", fun fs => des <$> fs.byte? "k")]

/-- What reads the operands of each case, by mnemonic. -/
def readers : List (String × Reader) :=
  List.flatten [
    family BinaryOp.all (·.mnemonic) fun op fs => fs.registers? (binary op),
    family MultiplyOp.all (·.mnemonic) fun op fs =>
      fs.registers? (multiply op),
    family ImmediateOp.all (·.mnemonic) fun op fs =>
      immediate op <$> fs.register? "d" <*> fs.byte? "k",
    family PairOp.all (·.mnemonic) fun op fs =>
      pair op <$> fs.register? "d" <*> fs.byte? "k",
    family UnaryOp.all (·.mnemonic) fun op fs => unary op <$> fs.register? "d",
    family ProgramLoadOp.all (·.mnemonic) fun op fs =>
      programLoad op <$> fs.register? "d" <*> fs.postIncrement?,
    family ExchangeOp.all (·.mnemonic) fun op fs =>
      exchange op <$> fs.register? "d",
    family FlagOp.all (·.mnemonic) fun op fs => flag op <$> fs.byte? "s",
    family [RegisterBitOp.bld, .bst] (·.mnemonic) fun op fs =>
      registerBit op <$> fs.register? "d" <*> fs.byte? "b",
    family [RegisterBitOp.sbrc, .sbrs] (·.mnemonic) fun op fs =>
      registerBit op <$> fs.register? "r" <*> fs.byte? "b",
    family IoBitOp.all (·.mnemonic) fun op fs =>
      ioBit op <$> fs.byte? "a" <*> fs.byte? "b",
    family BranchOp.all (·.mnemonic) fun op fs =>
      branch op <$> fs.byte? "s" <*> fs.shortOffset? "k",
    family RelativeOp.all (·.mnemonic) fun op fs =>
      relative op <$> fs.offset? "k",
    family AbsoluteOp.all (·.mnemonic) fun op fs =>
      absolute op <$> fs.long? "k",
    loneReaders]

/-- The instruction of an exchange form. -/
def ofJson? (j : Json) : Option Instruction :=
  match j.plainCase? with
  | some tag => (BareOp.all.find? (caseName ·.mnemonic == tag)).map .bare
  | none =>
      match j.fieldsCase? with
      | some (tag, fs) => (readers.find? (caseName ·.1 == tag)).bind (·.2 fs)
      | none => none

end Instruction

-- ================================================================= flow

namespace Target

/-- The target in exchange form. -/
def toJson : Target → Json
  | relative offset => .tagged "Relative" (.int offset)
  | absolute address => .tagged "Absolute" (.nat address)
  | unresolved => .str "Unresolved"

/-- The target of an exchange form. -/
def ofJson? (j : Json) : Option Target :=
  match j.plainCase?, j.valueCase? with
  | some "Unresolved", _ => some unresolved
  | _, some ("Relative", v) => (v.int? (-0x80000000) 0x7FFFFFFF).map relative
  | _, some ("Absolute", v) => (v.nat? 0xFFFFFFFF).map absolute
  | _, _ => none

end Target

namespace Flow

/-- The flow in exchange form. -/
def toJson : Flow → Json
  | branch offset => .tagged "Branch" (.obj [("offset", .int offset)])
  | skip => .str "Skip"
  | jump target => .tagged "Jump" target.toJson
  | call target => .tagged "Call" target.toJson
  | ret => .str "Return"
  | interruptReturn => .str "ReturnFromInterrupt"
  | push => .str "Push"
  | pop => .str "Pop"
  | wideStore => .str "WideStore"
  | straight => .str "Straight"

/-- The flow of a case without a value. -/
def ofCase? : String → Option Flow
  | "Skip" => some skip
  | "Return" => some ret
  | "ReturnFromInterrupt" => some interruptReturn
  | "Push" => some push
  | "Pop" => some pop
  | "WideStore" => some wideStore
  | "Straight" => some straight
  | _ => none

/-- The flow of an exchange form. -/
def ofJson? (j : Json) : Option Flow :=
  match j.plainCase? with
  | some tag => ofCase? tag
  | none =>
      match j.valueCase? with
      | some ("Jump", v) => (Target.ofJson? v).map jump
      | some ("Call", v) => (Target.ofJson? v).map call
      | some ("Branch", .obj fs) =>
          (fs.lookup "offset").bind fun v =>
            (v.int? (-0x80000000) 0x7FFFFFFF).map branch
      | _ => none

end Flow

end AvrFirmware
