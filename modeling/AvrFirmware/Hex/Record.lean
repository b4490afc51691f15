/-
Records of Intel HEX text.

# The line of a record

A colon, then pairs of hexadecimal digits: the number of data bytes, a
load offset of two bytes with the high one first, the record type, the
data, and a checksum that brings the sum of all bytes to zero.

# Reading

`Record.parse` checks a line from the outside in: start code, digits,
length, checksum, and last the type with the data it calls for. The first
check that fails is the cause reported.
-/
import AvrFirmware.Instruction.Encoding

namespace AvrFirmware

namespace Hex

/-- A record of a load file. -/
inductive Record where
  /-- Bytes to load at an offset from the current base. -/
  | data (offset : UInt16) (bytes : List UInt8)
  /-- End of the file. -/
  | endOfFile
  /-- Sets the base to sixteen times a segment. -/
  | extendedSegment (segment : UInt16)
  /-- Start address as segment and offset. -/
  | startSegment (cs ip : UInt16)
  /-- Sets the upper half of the base. -/
  | extendedLinear (upper : UInt16)
  /-- Start address as one number. -/
  | startLinear (address : UInt32)
  deriving DecidableEq, Repr

-- =============================================================== faults

/-- Why a line is not the text of a record. -/
inductive Malformation where
  | missingStartCode
  | nonAscii
  | oddDigits
  | badDigits (pair : String)
  | tooShort
  | wrongPayload (kind : UInt8) (expected found : Nat)
  deriving DecidableEq, Repr

namespace Malformation

/-- The wording of the reason. -/
def message : Malformation → String
  | missingStartCode => "missing ':' start code"
  | nonAscii => "non-ASCII characters"
  | oddDigits => "odd number of hex digits"
  | badDigits pair => "invalid hex digits '" ++ pair ++ "'"
  | tooShort => "record too short"
  | wrongPayload kind expected found =>
      "record type 0x" ++ Numeral.lowerHex 2 kind.toNat ++ " needs "
        ++ Numeral.decimal expected
        ++ " data bytes, found " ++ Numeral.decimal found

end Malformation

/-- What can be wrong with one line of a load file. -/
inductive Cause where
  | malformed (reason : Malformation)
  | badChecksum (expected found : UInt8)
  | lengthMismatch (declared found : Nat)
  | unsupportedType (kind : UInt8)
  | afterEndOfFile
  | tooLarge (stop : Nat)
  deriving DecidableEq, Repr

-- ================================================================ bytes

/-- A number of sixteen bits, high byte first. -/
def halfBytes (n : UInt16) : List UInt8 :=
  [UInt8.ofNat (n.toNat / 256), UInt8.ofNat (n.toNat % 256)]

/-- A number of thirty-two bits, high byte first. -/
def longBytes (n : UInt32) : List UInt8 :=
  halfBytes (UInt16.ofNat (n.toNat / 65536))
    ++ halfBytes (UInt16.ofNat (n.toNat % 65536))

/-- The number of two bytes, high one first. -/
def half (high low : UInt8) : UInt16 :=
  UInt16.ofNat (high.toNat * 256 + low.toNat)

/-- The number of four bytes, high one first. -/
def long (a b c d : UInt8) : UInt32 :=
  UInt32.ofNat ((half a b).toNat * 65536 + (half c d).toNat)

/-- The byte that brings the sum of all bytes to zero. -/
def checksum (bytes : List UInt8) : UInt8 :=
  -(bytes.foldl (· + ·) 0)

/-- A byte as two digits. -/
def pairOf (b : UInt8) : List Char :=
  [Numeral.upperDigit (b.toNat / 16), Numeral.upperDigit (b.toNat % 16)]

namespace Record

-- ============================================================== writing

/-- The type byte. -/
def kind : Record → UInt8
  | data _ _ => 0
  | endOfFile => 1
  | extendedSegment _ => 2
  | startSegment _ _ => 3
  | extendedLinear _ => 4
  | startLinear _ => 5

/-- The load offset; zero where the record has none. -/
def offset : Record → UInt16
  | data offset _ => offset
  | _ => 0

/-- The data bytes. -/
def payload : Record → List UInt8
  | data _ bytes => bytes
  | endOfFile => []
  | extendedSegment segment => halfBytes segment
  | startSegment cs ip => halfBytes cs ++ halfBytes ip
  | extendedLinear upper => halfBytes upper
  | startLinear address => longBytes address

/-- The base that the record sets for the data behind it. -/
def base? : Record → Option Nat
  | extendedSegment segment => some (segment.toNat * 16)
  | extendedLinear upper => some (upper.toNat * 65536)
  | _ => none

/-- The bytes of the record before its checksum. The length byte counts modulo
256. -/
def body (r : Record) : List UInt8 :=
  UInt8.ofNat r.payload.length :: halfBytes r.offset ++ r.kind :: r.payload

/-- All bytes of the record. -/
def bytes (r : Record) : List UInt8 :=
  r.body ++ [checksum r.body]

/-- The record's line, without a line feed. -/
def line (r : Record) : String :=
  String.ofList (':' :: r.bytes.flatMap pairOf)

-- ============================================================== reading

/-- Reads pairs of digits behind the bytes already read, which come
backwards. -/
def readPairs (done : List UInt8) : List Char → Except Cause (List UInt8)
  | a :: b :: rest =>
      match Numeral.read .hexadecimal 255 [a, b] with
      | .ok n => readPairs (UInt8.ofNat n :: done) rest
      | .error _ => .error (.malformed (.badDigits (String.ofList [a, b])))
  | _ => .ok done.reverse

/-- The record of a type and its data. -/
def ofParts (kind : UInt8) (offset : UInt16) (data : List UInt8) :
    Except Cause Record :=
  let wrong (expected : Nat) : Except Cause Record :=
    .error (.malformed (.wrongPayload kind expected data.length))
  match kind.toNat with
  | 0 => .ok (.data offset data)
  | 1 =>
      match data with
      | [] => .ok .endOfFile
      | _ => wrong 0
  | 2 =>
      match data with
      | [a, b] => .ok (.extendedSegment (half a b))
      | _ => wrong 2
  | 3 =>
      match data with
      | [a, b, c, d] => .ok (.startSegment (half a b) (half c d))
      | _ => wrong 4
  | 4 =>
      match data with
      | [a, b] => .ok (.extendedLinear (half a b))
      | _ => wrong 2
  | 5 =>
      match data with
      | [a, b, c, d] => .ok (.startLinear (long a b c d))
      | _ => wrong 4
  | _ => .error (.unsupportedType kind)

/-- The record of a line's bytes: length and checksum are checked before the
type. -/
def ofBytes (bytes : List UInt8) : Except Cause Record :=
  match bytes with
  | declared :: high :: low :: kind :: c :: cs =>
      let data := (c :: cs).dropLast
      let stored := (c :: cs).getLast (List.cons_ne_nil c cs)
      let expected := checksum (declared :: high :: low :: kind :: data)
      if declared.toNat ≠ data.length then
        .error (.lengthMismatch declared.toNat data.length)
      else if expected ≠ stored then .error (.badChecksum expected stored)
      else ofParts kind (half high low) data
  | _ => .error (.malformed .tooShort)

/-- The record of a line without blanks at its ends. -/
def parse (cs : List Char) : Except Cause Record :=
  match cs with
  | ':' :: digits =>
      if digits.any (128 ≤ ·.toNat) then .error (.malformed .nonAscii)
      else if digits.length % 2 ≠ 0 then .error (.malformed .oddDigits)
      else
        match readPairs [] digits with
        | .ok bytes => ofBytes bytes
        | .error cause => .error cause
  | _ => .error (.malformed .missingStartCode)

example : (data 0 [0x0F, 0x93, 0x08, 0x95]).line = ":040000000F930895BD" := by
  decide +kernel

end Record

end Hex

end AvrFirmware
