/-
Tokens of assembly text, and the lexemes that hold them.

# Longest match

`munch` looks at the front of a text and says what stands there and how
many further characters belong to it, always as many as possible. Blanks
and comments are passed over. A character that starts nothing is unmatched
by itself; a numeral too large to be held is unmatched as a whole. The
patterns behind `munch` are those of `Matches`, and it takes the longest
match among them (`munch_longest`).

# Names

A token of any text may hold any name. Those that the lexer makes hold
letters, digits and underscores of ASCII only (`lexical_of_mem_scan`,
`ascii_of_isName`), so to lower the case of ASCII letters is to lower the
case of a name.

# Lexemes

`lexemes` takes a text apart from left to right. Each lexeme keeps its
characters and its place, counted in bytes of UTF-8. Nothing is lost: the
characters of the lexemes and what is passed over make up the text.
-/
import AvrFirmware.Text.Quoted

namespace AvrFirmware

namespace Assembly

-- =============================================================== tokens

/-- A token of assembly text. -/
inductive Token where
  /-- Mnemonics, registers, pointers and labels. -/
  | identifier (name : String)
  /-- A numeral in one of the three bases. -/
  | number (radix : Radix) (value : Nat)
  /-- A dot and a name. -/
  | directive (name : String)
  | dot
  | plus
  | minus
  | comma
  | colon
  | newline
  deriving DecidableEq, Repr

namespace Token

/-- The token as messages show it. -/
def describe : Token → String
  | identifier name => "Identifier(" ++ Text.quoted name ++ ")"
  | number .decimal n => "Number(" ++ Numeral.decimal n ++ ")"
  | number .hexadecimal n => "Hex(" ++ Numeral.decimal n ++ ")"
  | number .binary n => "Binary(" ++ Numeral.decimal n ++ ")"
  | directive name => "Directive(" ++ Text.quoted name ++ ")"
  | dot => "Dot"
  | plus => "Plus"
  | minus => "Minus"
  | comma => "Comma"
  | colon => "Colon"
  | newline => "Newline"

/-- The value of a numeral. -/
def number? : Token → Option Nat
  | number _ n => some n
  | _ => none

end Token

-- =========================================================== characters

/-- Characters between tokens; the line feed is a token of its own. -/
def isSpace (c : Char) : Bool :=
  c == ' ' || c == '\t' || c == '\r'

/-- Characters that a name starts with. -/
def isNameStart (c : Char) : Bool :=
  ('a' ≤ c && c ≤ 'z') || ('A' ≤ c && c ≤ 'Z') || c == '_'

/-- Characters that a name goes on with. -/
def isNameChar (c : Char) : Bool :=
  isNameStart c || ('0' ≤ c && c ≤ '9')

/-- Characters that a comment goes on with. -/
def isCommentChar (c : Char) : Bool :=
  c != '\n'

-- ======================================================== longest match

/-- What stands at the front of a text. -/
inductive Piece where
  | skipped
  | token (t : Token)
  | unmatched
  deriving DecidableEq, Repr

/-- The largest value of a numeral. -/
def numeralLimit : Nat :=
  0x7FFFFFFFFFFFFFFF

/-- The numeral of some digits, with the number of characters behind its
first. -/
def numeralPiece (r : Radix) (digits : List Char) (more : Nat) : Piece × Nat :=
  match Numeral.readFrom r numeralLimit 0 digits with
  | .ok n => (.token (.number r n), more)
  | .error _ => (.unmatched, more)

/-- The base that a letter behind a zero announces. -/
def announced? : Char → Option Radix
  | 'x' => some .hexadecimal
  | 'X' => some .hexadecimal
  | 'b' => some .binary
  | 'B' => some .binary
  | _ => none

/-- The base and the digits behind a zero, if a letter announces them and there
are any. -/
def basedDigits? : List Char → Option (Radix × List Char)
  | [] => none
  | c :: cs =>
      match announced? c with
      | none => none
      | some r =>
          match cs.takeWhile (Numeral.isDigit r) with
          | [] => none
          | d :: ds => some (r, d :: ds)

/-- A numeral, given its first digit. -/
def munchNumeral (c : Char) (cs : List Char) : Piece × Nat :=
  match if c = '0' then basedDigits? cs else none with
  | some (r, digits) => numeralPiece r digits (digits.length + 1)
  | none =>
      let more := cs.takeWhile (Numeral.isDigit .decimal)
      numeralPiece .decimal (c :: more) more.length

/-- A dot, with the name behind it if there is one. -/
def munchDot : List Char → Piece × Nat
  | [] => (.token .dot, 0)
  | c :: cs =>
      if isNameStart c then
        let more := cs.takeWhile isNameChar
        (.token (.directive (String.ofList (c :: more))), more.length + 1)
      else (.token .dot, 0)

/-- A slash: a comment if a second one follows. -/
def munchSlash : List Char → Piece × Nat
  | '/' :: cs => (.skipped, (cs.takeWhile isCommentChar).length + 1)
  | _ => (.unmatched, 0)

/-- What a text starts with, and how many characters behind the first belong to
it. -/
def munch (c : Char) (cs : List Char) : Piece × Nat :=
  if isSpace c then (.skipped, (cs.takeWhile isSpace).length)
  else if isNameStart c then
    let more := cs.takeWhile isNameChar
    (.token (.identifier (String.ofList (c :: more))), more.length)
  else if Numeral.isDigit .decimal c then munchNumeral c cs
  else
    match c with
    | ';' => (.skipped, (cs.takeWhile isCommentChar).length)
    | '/' => munchSlash cs
    | '.' => munchDot cs
    | '+' => (.token .plus, 0)
    | '-' => (.token .minus, 0)
    | ',' => (.token .comma, 0)
    | ':' => (.token .colon, 0)
    | '\n' => (.token .newline, 0)
    | _ => (.unmatched, 0)

-- ============================================================== lexemes

/-- A token with its characters and its place, or characters that are none. -/
structure Lexeme where
  token : Option Token
  chars : List Char
  start : Nat
  stop : Nat
  deriving DecidableEq, Repr

/-- The size of some characters in UTF-8. -/
def byteSize (cs : List Char) : Nat :=
  cs.foldl (fun n c => n + c.utf8Size) 0

/-- The lexemes behind those already found, which come backwards; `start` is
the place of the text that is left. -/
def lexemesFrom (done : List Lexeme) (start : Nat) (text : List Char) :
    List Lexeme :=
  match text with
  | [] => done.reverse
  | c :: cs =>
      let more := (munch c cs).2
      let chars := c :: cs.take more
      let stop := start + byteSize chars
      match (munch c cs).1 with
      | .skipped => lexemesFrom done stop (cs.drop more)
      | .token t =>
          lexemesFrom (⟨some t, chars, start, stop⟩ :: done) stop
            (cs.drop more)
      | .unmatched =>
          lexemesFrom (⟨none, chars, start, stop⟩ :: done) stop (cs.drop more)
termination_by text.length
decreasing_by
  all_goals
    simp only [List.length_drop, List.length_cons]
    omega

/-- The lexemes of a text. -/
def lexemes (text : String) : List Lexeme :=
  lexemesFrom [] 0 text.toList

example : (lexemes "rjmp .-0x2").map (·.token) =
    [some (.identifier "rjmp"), some .dot, some .minus,
      some (.number .hexadecimal 2)] := by
  decide +kernel

end Assembly

end AvrFirmware
