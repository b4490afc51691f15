/-
Mnemonics and what they stand for.

A form is a mnemonic's meaning before its operands are known. Several
mnemonics can share a form: some name an instruction with one register in
both places, some fix the flag of a more general instruction. `Form.table`
lists every mnemonic once.
-/
import AvrFirmware.Instruction.Printer

namespace AvrFirmware

namespace Assembly

/-- What a mnemonic stands for. -/
inductive Form where
  | bare (op : BareOp)
  | binary (op : BinaryOp)
  /-- One register in both places. -/
  | doubled (op : BinaryOp)
  | movw
  | muls
  | multiply (op : MultiplyOp)
  | immediate (op : ImmediateOp)
  /-- An `andi` with the constant complemented. -/
  | clearBits
  /-- An `ldi` with all bits set. -/
  | setAll
  | pair (op : PairOp)
  | unary (op : UnaryOp)
  | ld
  | st
  | ldd
  | std
  | lds
  | sts
  | programLoad (op : ProgramLoadOp)
  | spm
  | exchange (op : ExchangeOp)
  | input
  | output
  | push
  | pop
  | flag (op : FlagOp)
  /-- A flag operation whose name says the flag. -/
  | namedFlag (op : FlagOp) (s : UInt8)
  | registerBit (op : RegisterBitOp)
  | ioBit (op : IoBitOp)
  | branch (op : BranchOp)
  /-- A branch whose name says the flag. -/
  | namedBranch (op : BranchOp) (s : UInt8)
  | relative (op : RelativeOp)
  | absolute (op : AbsoluteOp)
  | des
  deriving DecidableEq, Repr

namespace Form

/-- The mnemonics of a family of operations. -/
def ofOps {α : Type} (ops : List α) (mnemonic : α → String) (form : α → Form) :
    List (String × Form) :=
  ops.map fun op => (mnemonic op, form op)

/-- The mnemonics of an operation that has one name per flag. -/
def ofFlags (names : List String) (form : UInt8 → Form) :
    List (String × Form) :=
  names.zipIdx.map fun entry => (entry.1, form (UInt8.ofNat entry.2))

/-- Every mnemonic and its form. -/
def table : List (String × Form) :=
  List.flatten [
    ofOps BinaryOp.all BinaryOp.mnemonic binary,
    [("movw", movw), ("muls", muls)],
    ofOps MultiplyOp.all MultiplyOp.mnemonic multiply,
    [("clr", doubled .eor), ("lsl", doubled .add), ("rol", doubled .adc),
      ("tst", doubled .and)],
    ofOps ImmediateOp.all ImmediateOp.mnemonic immediate,
    [("sbr", immediate .ori), ("cbr", clearBits), ("ser", setAll)],
    ofOps PairOp.all PairOp.mnemonic pair,
    ofOps UnaryOp.all UnaryOp.mnemonic unary,
    [("ld", ld), ("st", st), ("ldd", ldd), ("std", std), ("lds", lds),
      ("sts", sts)],
    ofOps ProgramLoadOp.all ProgramLoadOp.mnemonic programLoad,
    [("spm", spm)],
    ofOps ExchangeOp.all ExchangeOp.mnemonic exchange,
    [("in", input), ("out", output), ("push", push), ("pop", pop)],
    ofOps FlagOp.all FlagOp.mnemonic flag,
    ofFlags (FlagOp.names .bset) (namedFlag .bset),
    ofFlags (FlagOp.names .bclr) (namedFlag .bclr),
    ofOps RegisterBitOp.all RegisterBitOp.mnemonic registerBit,
    ofOps IoBitOp.all IoBitOp.mnemonic ioBit,
    ofOps BranchOp.all BranchOp.mnemonic branch,
    ofFlags (BranchOp.names .brbs) (namedBranch .brbs),
    ofFlags (BranchOp.names .brbc) (namedBranch .brbc),
    [("brlo", namedBranch .brbs 0), ("brsh", namedBranch .brbc 0)],
    ofOps RelativeOp.all RelativeOp.mnemonic relative,
    ofOps AbsoluteOp.all AbsoluteOp.mnemonic absolute,
    ofOps BareOp.all BareOp.mnemonic bare,
    [("des", des)]]

/-- The form of a mnemonic in lower case. -/
def ofMnemonic? (mnemonic : String) : Option Form :=
  table.lookup mnemonic

example : ofMnemonic? "brlo" = some (namedBranch .brbs 0) ∧
    ofMnemonic? "sei" = some (namedFlag .bset 7) := by
  decide

end Form

end Assembly

end AvrFirmware
