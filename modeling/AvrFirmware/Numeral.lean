/-
Numerals in the three bases the library reads and writes.

# Writing

`digits` is the positional expansion of a number, most significant digit
first, with one digit for zero. `decimal`, `lowerHex` and `upperHex` turn
it into text; the hexadecimal forms take a least number of digits and
fill up with zeros. `value` reads an expansion back: `value_digits`.

# Reading

`read` takes a base and a largest admissible value. A numeral may start
with a plus sign, needs at least one digit, and is read from the left, so
of two faults the one further left is the one reported.
-/
namespace AvrFirmware

/-- The bases in which numbers are written. -/
inductive Radix where
  | binary
  | decimal
  | hexadecimal
  deriving DecidableEq, Repr

namespace Radix

/-- The number of digits of a base. -/
def base : Radix → Nat
  | binary => 2
  | decimal => 10
  | hexadecimal => 16

theorem two_le_base (r : Radix) : 2 ≤ r.base := by
  cases r <;> decide

end Radix

namespace Numeral

-- ============================================================== writing

/-- The digits of a number, most significant first. Zero has one digit. -/
def digits (r : Radix) (n : Nat) : List Nat :=
  if n < r.base then [n] else digits r (n / r.base) ++ [n % r.base]
termination_by n
decreasing_by
  have := r.two_le_base
  exact Nat.div_lt_self (by omega) (by omega)

/-- The number that a digit sequence stands for. -/
def value (r : Radix) (ds : List Nat) : Nat :=
  ds.foldl (fun n d => n * r.base + d) 0

@[simp]
theorem value_concat (r : Radix) (ds : List Nat) (d : Nat) :
    value r (ds ++ [d]) = value r ds * r.base + d := by
  simp [value]

/-- Reading the digits of a number gives the number back. -/
theorem value_digits (r : Radix) (n : Nat) : value r (digits r n) = n := by
  fun_induction digits r n with
  | case1 n _ => simp [value]
  | case2 n _ ih => rw [value_concat, ih, Nat.div_add_mod']

/-- Every digit is below the base. -/
theorem lt_base_of_mem_digits (r : Radix) (n : Nat) :
    ∀ d ∈ digits r n, d < r.base := by
  have := r.two_le_base
  fun_induction digits r n with
  | case1 n h => simpa using h
  | case2 n _ ih =>
      intro d hd
      rcases List.mem_append.1 hd with hd | hd
      · exact ih d hd
      · simp only [List.mem_singleton] at hd
        exact hd ▸ Nat.mod_lt _ (by omega)

/-- A digit as a character; letters in lower case. -/
def lowerDigit (d : Nat) : Char :=
  if d < 10 then Char.ofNat (48 + d) else Char.ofNat (87 + d)

/-- A digit as a character; letters in upper case. -/
def upperDigit (d : Nat) : Char :=
  if d < 10 then Char.ofNat (48 + d) else Char.ofNat (55 + d)

/-- Fills a text up on the left to a least width. -/
def padLeft (width : Nat) (fill : Char) (cs : List Char) : List Char :=
  List.replicate (width - cs.length) fill ++ cs

/-- A number in decimal. -/
def decimal (n : Nat) : String :=
  String.ofList ((digits .decimal n).map lowerDigit)

/-- A whole number in decimal, with a minus sign below zero. -/
def signed : Int → String
  | .ofNat n => decimal n
  | .negSucc n => "-" ++ decimal (n + 1)

/-- A number in decimal, set right in at least `width` columns. -/
def decimalColumn (width n : Nat) : String :=
  String.ofList (padLeft width ' ' ((digits .decimal n).map lowerDigit))

/-- A number in hexadecimal with lower-case letters and at least `width`
digits. -/
def lowerHex (width n : Nat) : String :=
  String.ofList (padLeft width '0' ((digits .hexadecimal n).map lowerDigit))

/-- A number in hexadecimal with upper-case letters and at least `width`
digits. -/
def upperHex (width n : Nat) : String :=
  String.ofList (padLeft width '0' ((digits .hexadecimal n).map upperDigit))

/-- A word address as reports and log lines show it. -/
def address (pc : Nat) : String :=
  "0x" ++ lowerHex 4 pc

-- ============================================================== reading

/-- The value of a digit character in a base. -/
def digitValue? (r : Radix) (c : Char) : Option Nat :=
  let d :=
    if '0' ≤ c ∧ c ≤ '9' then c.toNat - 48
    else if 'a' ≤ c ∧ c ≤ 'f' then c.toNat - 87
    else if 'A' ≤ c ∧ c ≤ 'F' then c.toNat - 55
    else r.base
  if d < r.base then some d else none

/-- Whether a character is a digit of a base. -/
def isDigit (r : Radix) (c : Char) : Bool :=
  (digitValue? r c).isSome

/-- What can be wrong with a numeral. -/
inductive Fault where
  | empty
  | badDigit
  | tooLarge
  deriving DecidableEq, Repr

namespace Fault

/-- The wording of a fault. -/
def message : Fault → String
  | empty => "cannot parse integer from empty string"
  | badDigit => "invalid digit found in string"
  | tooLarge => "number too large to fit in target type"

end Fault

/-- Reads further digits behind a value already read. -/
def readFrom (r : Radix) (limit : Nat) (n : Nat) : List Char → Except Fault Nat
  | [] => .ok n
  | c :: cs =>
      match digitValue? r c with
      | none => .error .badDigit
      | some d =>
          if n * r.base + d ≤ limit then readFrom r limit (n * r.base + d) cs
          else .error .tooLarge

/-- Reads a numeral of values up to `limit`. -/
def read (r : Radix) (limit : Nat) : List Char → Except Fault Nat
  | [] => .error .empty
  | ['+'] => .error .badDigit
  | '+' :: cs => readFrom r limit 0 cs
  | cs => readFrom r limit 0 cs

example :
    lowerHex 4 0x2a = "002a" ∧ upperHex 2 0xBD = "BD"
      ∧ signed (-40) = "-40" := by
  decide +kernel

end Numeral

end AvrFirmware
