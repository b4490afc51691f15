/-
Blank characters at the ends of a text, and the lines of a text.

# Blanks

A blank is a character with the Unicode property White_Space. `trim`
takes blanks off both ends and leaves those in between.

# Lines

`lines` cuts a text at its line feeds. A text of n line feeds has n + 1
lines, of which the last may be empty.
-/
namespace AvrFirmware

namespace Text

-- =============================================================== blanks

/-- The Unicode property White_Space. -/
def isBlank (c : Char) : Bool :=
  let n := c.toNat
  (9 ≤ n && n ≤ 13) || n == 0x20 || n == 0x85 || n == 0xA0 || n == 0x1680
    || (0x2000 ≤ n && n ≤ 0x200A) || n == 0x2028 || n == 0x2029 || n == 0x202F
    || n == 0x205F || n == 0x3000

/-- The text without the blanks at its ends. -/
def trim (cs : List Char) : List Char :=
  ((cs.dropWhile isBlank).reverse.dropWhile isBlank).reverse

-- ================================================================ lines

/-- The lines behind a part already read: `line` is the current line and `done`
the lines before it, both backwards. -/
def linesFrom (done : List (List Char)) (line : List Char) :
    List Char → List (List Char)
  | [] => (line.reverse :: done).reverse
  | c :: cs =>
      if c = '\n' then linesFrom (line.reverse :: done) [] cs
      else linesFrom done (c :: line) cs

/-- The lines of a text, without their line feeds. -/
def lines (cs : List Char) : List (List Char) :=
  linesFrom [] [] cs

/-- Lines already read stand in front. -/
theorem linesFrom_eq (done : List (List Char)) (line cs : List Char) :
    linesFrom done line cs = done.reverse ++ linesFrom [] line cs := by
  induction cs generalizing done line with
  | nil => simp [linesFrom]
  | cons c cs ih =>
      simp only [linesFrom]
      split
      · rw [ih, ih [line.reverse]]
        simp
      · exact ih ..

end Text

end AvrFirmware
