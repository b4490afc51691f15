/-
JSON values and their indented text.

The values are those the library's exchange forms are made of: numbers
are whole, and the fields of an object keep their order. `Json.pretty`
writes one item a line, two blanks further in at each level, and an empty
list or object as its two brackets.
-/
import AvrFirmware.Numeral

namespace AvrFirmware

/-- A JSON value with whole numbers. -/
inductive Json where
  | null
  | bool (value : Bool)
  | int (value : Int)
  | str (value : String)
  | arr (items : List Json)
  | obj (fields : List (String × Json))
  deriving Inhabited

namespace Json

-- ============================================================== writing

/-- A character inside a quoted string. -/
def escape (c : Char) : List Char :=
  match c with
  | '"' => ['\\', '"']
  | '\\' => ['\\', '\\']
  | '\n' => ['\\', 'n']
  | '\r' => ['\\', 'r']
  | '\t' => ['\\', 't']
  | '\x08' => ['\\', 'b']
  | '\x0c' => ['\\', 'f']
  | c =>
      if c.toNat < 32 then '\\' :: 'u' :: (Numeral.lowerHex 4 c.toNat).toList
      else [c]

/-- A quoted string. -/
def quote (s : String) : String :=
  String.ofList ('"' :: s.toList.flatMap escape ++ ['"'])

/-- A line break and the blanks that start a line at some depth. -/
def lineBreak (depth : Nat) : String :=
  String.ofList ('\n' :: List.replicate (2 * depth) ' ')

mutual

/-- The indented text of a value at some depth. -/
def prettyAt (depth : Nat) : Json → String
  | null => "null"
  | bool b => if b then "true" else "false"
  | int n => Numeral.signed n
  | str s => quote s
  | arr [] => "[]"
  | arr (x :: xs) =>
      "[" ++ lineBreak (depth + 1) ++ prettyAt (depth + 1) x
        ++ prettyItems (depth + 1) xs
        ++ lineBreak depth ++ "]"
  | obj [] => "\x7b\x7d"
  | obj ((name, x) :: xs) =>
      "\x7b" ++ lineBreak (depth + 1) ++ quote name ++ ": "
        ++ prettyAt (depth + 1) x
        ++ prettyFields (depth + 1) xs ++ lineBreak depth ++ "\x7d"

/-- The further items of a list. -/
def prettyItems (depth : Nat) : List Json → String
  | [] => ""
  | x :: xs =>
      "," ++ lineBreak depth ++ prettyAt depth x ++ prettyItems depth xs

/-- The further fields of an object. -/
def prettyFields (depth : Nat) : List (String × Json) → String
  | [] => ""
  | (name, x) :: xs =>
      "," ++ lineBreak depth ++ quote name ++ ": " ++ prettyAt depth x
        ++ prettyFields depth xs

end

/-- The indented text of a value. -/
def pretty (j : Json) : String :=
  prettyAt 0 j

/-- A number that is not negative. -/
def nat (n : Nat) : Json :=
  int n

/-- A case with one value inside. -/
def tagged (tag : String) (value : Json) : Json :=
  obj [(tag, value)]

-- ============================================================== reading

/-- The number, if it lies in a range. -/
def int? (low high : Int) : Json → Option Int
  | int n => if low ≤ n ∧ n ≤ high then some n else none
  | _ => none

/-- The number, if it is not negative and at most `limit`. -/
def nat? (limit : Nat) (j : Json) : Option Nat :=
  (j.int? 0 limit).map Int.toNat

/-- The truth value. -/
def bool? : Json → Option Bool
  | bool b => some b
  | _ => none

/-- The name of a case that holds nothing: the bare name, or the name with a
null inside. -/
def plainCase? : Json → Option String
  | str tag => some tag
  | obj [(tag, null)] => some tag
  | _ => none

/-- The name and the value of a case that holds one. -/
def valueCase? : Json → Option (String × Json)
  | obj [(tag, value)] => some (tag, value)
  | _ => none

/-- The name and the fields of a case that holds fields. -/
def fieldsCase? : Json → Option (String × List (String × Json))
  | obj [(tag, obj fields)] => some (tag, fields)
  | _ => none

end Json

end AvrFirmware
