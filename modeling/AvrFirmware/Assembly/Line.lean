/-
Source lines.

# Grammar

A line is any number of labels, each a name and a colon, then at most one
statement: a mnemonic with operands, or the directive `.word` with
numbers. Operands stand between commas. `Line.parse` reads the tokens of
one line from left to right, and the first token that does not fit is the
one reported.

# Sources

`Line.parseAll` groups the lexemes of a source by line feeds and numbers
the lines from one. Lines without tokens leave no trace but keep their
number. Characters that are no token are reported before the line they
stand on is parsed, and after all lines before it.
-/
import AvrFirmware.Assembly.Error
import AvrFirmware.Instruction.Encoding

namespace AvrFirmware

namespace Assembly

/-- What a line asks for. -/
inductive Statement where
  /-- A mnemonic in lower case and its operands. -/
  | instruction (mnemonic : String) (operands : List Operand)
  /-- Data. -/
  | words (data : List Word)
  deriving DecidableEq, Repr

namespace Statement

/-- The mnemonics of the instructions of two words. -/
def longMnemonics : List String :=
  ["lds", "sts", "jmp", "call"]

/-- The number of words the statement takes. -/
def width : Statement → Nat
  | instruction mnemonic _ => if mnemonic ∈ longMnemonics then 2 else 1
  | words data => data.length

end Statement

/-- A source line that holds at least one token. -/
structure Line where
  /-- The line's number, from one. -/
  number : Nat
  labels : List String
  statement : Option Statement
  deriving DecidableEq, Repr

-- ============================================================= operands

/-- A displacement, or a post-increment, or the pointer alone, and the tokens
behind it. -/
def pointerOperand (ptr : Pointer) : List Token → Operand × List Token
  | .plus :: .number _ q :: rest => (.displacement ptr q, rest)
  | .plus :: rest => (.pointer ptr .postIncrement, rest)
  | rest => (.pointer ptr .plain, rest)

/-- The operand of a name, and the tokens behind it. -/
def nameOperand (name : String) (rest : List Token) : Operand × List Token :=
  match registerName? name with
  | some r => (.register r, rest)
  | none =>
      match pointerName? name with
      | some ptr => pointerOperand ptr rest
      | none => (.label name, rest)

/-- The operand behind a minus sign. -/
def minusOperand : List Token → Except SyntaxFault (Operand × List Token)
  | .identifier name :: rest =>
      match pointerName? name with
      | some ptr => .ok (.pointer ptr .preDecrement, rest)
      | none => .error (.expectedPointer name)
  | .number _ n :: rest => .ok (.number (-n), rest)
  | [] => .error .endAfterMinus
  | _ => .error .expectedNumberOrPointer

/-- The number of bytes behind a dot and a sign. -/
def offsetOperand (sign : Int) :
    List Token → Except SyntaxFault (Operand × List Token)
  | .number _ n :: rest => .ok (.relative (sign * n), rest)
  | _ => .error .expectedOffset

/-- The operand behind a dot. -/
def dotOperand : List Token → Except SyntaxFault (Operand × List Token)
  | .plus :: rest => offsetOperand 1 rest
  | .minus :: rest => offsetOperand (-1) rest
  | _ => .error .expectedOffsetSign

/-- The operand at the front of some tokens, and the tokens behind it. -/
def operand : List Token → Except SyntaxFault (Operand × List Token)
  | .identifier name :: rest => .ok (nameOperand name rest)
  | .minus :: rest => minusOperand rest
  | .dot :: rest => dotOperand rest
  | .number _ n :: rest => .ok (.number n, rest)
  | t :: _ => .error (.expectedOperand (some t))
  | [] => .error (.expectedOperand none)

theorem length_pointerOperand (ptr : Pointer) (ts : List Token) :
    (pointerOperand ptr ts).2.length ≤ ts.length := by
  unfold pointerOperand
  split <;> simp only [List.length_cons] <;> omega

theorem length_nameOperand (name : String) (ts : List Token) :
    (nameOperand name ts).2.length ≤ ts.length := by
  unfold nameOperand
  split
  · exact Nat.le_refl _
  · split
    · exact length_pointerOperand ..
    · exact Nat.le_refl _

/-- An operand takes at least one token. -/
theorem length_lt_of_operand {ts rest : List Token} {o : Operand}
    (h : operand ts = .ok (o, rest)) : rest.length < ts.length := by
  unfold operand at h
  split at h
  · rename_i name ts
    have hlen := length_nameOperand name ts
    rw [Except.ok.inj h] at hlen
    dsimp only at hlen
    simp only [List.length_cons]
    omega
  · unfold minusOperand at h
    split at h
    · split at h <;> cases h
      simp only [List.length_cons]
      omega
    · cases h
      simp only [List.length_cons]
      omega
    · cases h
    · cases h
  · unfold dotOperand offsetOperand at h
    split at h
    · split at h <;> cases h
      simp only [List.length_cons]
      omega
    · split at h <;> cases h
      simp only [List.length_cons]
      omega
    · cases h
  · cases h
    simp only [List.length_cons]
    omega
  · cases h
  · cases h

/-- Operands up to the end of the line, behind those already read, which come
backwards. -/
def operandsFrom (done : List Operand) (ts : List Token) :
    Except SyntaxFault (List Operand) :=
  match _h : operand ts with
  | .error fault => .error fault
  | .ok (o, []) => .ok (o :: done).reverse
  | .ok (o, .comma :: rest) => operandsFrom (o :: done) rest
  | .ok (_, t :: _) => .error (.expectedComma t)
termination_by ts.length
decreasing_by
  have := length_lt_of_operand _h
  simp only [List.length_cons] at this
  omega

/-- The operands of a statement. -/
def operands : List Token → Except SyntaxFault (List Operand)
  | [] => .ok []
  | ts => operandsFrom [] ts

-- =========================================================== statements

/-- The data words of some operands. -/
def dataWords (done : List Word) : List Operand → Except Cause (List Word)
  | [] => .ok done.reverse
  | .number n :: rest =>
      if -0x8000 ≤ n ∧ n ≤ 0xFFFF then
        dataWords (UInt16.ofNat (n % 65536).toNat :: done) rest
      else .error (.outOfRange n (-0x8000) 0xFFFF)
  | o :: _ => .error (.badSyntax (.expectedWord o))

/-- The statement of a directive. -/
def directive (name : String) (ts : List Token) : Except Cause Statement :=
  if name = "word" then
    match operands ts with
    | .error fault => .error (.badSyntax fault)
    | .ok os =>
        match dataWords [] os with
        | .error cause => .error cause
        | .ok data => .ok (.words data)
  else .error (.invalidDirective name)

/-- The statement behind the labels of a line. -/
def statement : List Token → Except Cause (Option Statement)
  | [] => .ok none
  | .identifier mnemonic :: rest =>
      match operands rest with
      | .error fault => .error (.badSyntax fault)
      | .ok os => .ok (some (.instruction mnemonic.toLower os))
  | .directive name :: rest =>
      match directive name rest with
      | .error cause => .error cause
      | .ok s => .ok (some s)
  | t :: _ => .error (.badSyntax (.expectedInstruction t))

/-- The labels at the front of a line, behind those already read, which come
backwards, and the tokens that follow. -/
def labelsFrom (done : List String) : List Token → List String × List Token
  | .identifier name :: .colon :: rest => labelsFrom (name :: done) rest
  | ts => (done.reverse, ts)

/-- The labels at the front of a line, and the tokens that follow. -/
def labelled (ts : List Token) : List String × List Token :=
  labelsFrom [] ts

namespace Line

/-- The line of some tokens. -/
def parse (number : Nat) (ts : List Token) : Except Error Line :=
  match Assembly.statement (labelled ts).2 with
  | .error cause => .error ⟨number, cause⟩
  | .ok s => .ok ⟨number, (labelled ts).1, s⟩

/-- Lines behind those already read: `pending` holds the tokens of the current
line and `done` the lines before it, both backwards. -/
def parseFrom (done : List Line) (number : Nat) (pending : List Token) :
    List Lexeme → Except Error (List Line)
  | [] =>
      match pending with
      | [] => .ok done.reverse
      | t :: ts =>
          match parse number (t :: ts).reverse with
          | .error e => .error e
          | .ok line => .ok (line :: done).reverse
  | lexeme :: rest =>
      match lexeme.token with
      | none =>
          .error ⟨number,
            .badSyntax (.unexpectedInput (String.ofList lexeme.chars))⟩
      | some .newline =>
          match pending with
          | [] => parseFrom done (number + 1) [] rest
          | t :: ts =>
              match parse number (t :: ts).reverse with
              | .error e => .error e
              | .ok line => parseFrom (line :: done) (number + 1) [] rest
      | some t => parseFrom done number (t :: pending) rest

/-- The lines of a source that hold tokens. -/
def parseAll (source : String) : Except Error (List Line) :=
  parseFrom [] 1 [] (lexemes source)

end Line

end Assembly

end AvrFirmware
