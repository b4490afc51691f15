/-
Texts inside messages: between double quotes, with whatever cannot stand
there spelled out by a backslash.
-/
import AvrFirmware.Numeral
import AvrFirmware.Text.Printable

namespace AvrFirmware

namespace Text

/-- A character inside quotes. -/
def quoteChar (c : Char) : List Char :=
  match c with
  | '"' => ['\\', '"']
  | '\\' => ['\\', '\\']
  | '\n' => ['\\', 'n']
  | '\r' => ['\\', 'r']
  | '\t' => ['\\', 't']
  | '\x00' => ['\\', '0']
  | c =>
      if isPrintable c then [c]
      else ['\\', 'u', '\x7b'] ++ (Numeral.lowerHex 1 c.toNat).toList
        ++ ['\x7d']

/-- A text between quotes. -/
def quoted (s : String) : String :=
  String.ofList ('"' :: s.toList.flatMap quoteChar ++ ['"'])

end Text

end AvrFirmware
