/-
Load files: Intel HEX text as a list of records.

# Reading

`File.parse` skips blank lines and trims the others. The end-of-file
record has to be there and nothing may follow it. Data may not reach past
the largest program memory, so loading a file that was read needs at most
that much.

# Loading

An extended address record sets the base for all data behind it.
`segments` resolves each data record to its address, and `load` writes
them in the order of the file, so that the last writer of an address
wins.
-/
import AvrFirmware.Hex.Record
import AvrFirmware.Image
import AvrFirmware.Text.Blank

namespace AvrFirmware

namespace Hex

-- =============================================================== errors

/-- Why a text is not a load file. -/
inductive Error where
  /-- A fault of one line, counted from one. -/
  | onLine (line : Nat) (cause : Cause)
  | missingEndOfFile
  deriving DecidableEq, Repr

namespace Error

/-- The line of the fault, if it has one. -/
def line? : Error → Option Nat
  | onLine line _ => some line
  | missingEndOfFile => none

/-- The wording of the error. -/
def message : Error → String
  | missingEndOfFile => "Missing end-of-file record"
  | onLine line cause =>
      let site := " at line " ++ Numeral.decimal line
      match cause with
      | .malformed reason =>
          "Invalid HEX record" ++ site ++ ": " ++ reason.message
      | .badChecksum expected found =>
          "Checksum mismatch" ++ site ++ ": expected 0x"
            ++ Numeral.lowerHex 2 expected.toNat
            ++ ", found 0x" ++ Numeral.lowerHex 2 found.toNat
      | .lengthMismatch declared found =>
          "Record length mismatch" ++ site ++ ": header says "
            ++ Numeral.decimal declared
            ++ " bytes, found " ++ Numeral.decimal found
      | .unsupportedType kind =>
          "Unsupported record type 0x" ++ Numeral.lowerHex 2 kind.toNat ++ site
      | .afterEndOfFile => "Record after end-of-file" ++ site
      | .tooLarge stop =>
          "Data" ++ site ++ " ends at byte 0x" ++ Numeral.lowerHex 1 stop
            ++ ", past the 8 MiB program memory"

end Error

-- ================================================================ files

/-- A load file. -/
structure File where
  records : List Record
  deriving DecidableEq, Repr

namespace File

/-- The file of some records, closed by an end-of-file record if it does not
end with one. -/
def ofRecords (records : List Record) : File :=
  if records.getLast? = some .endOfFile then ⟨records⟩
  else ⟨records ++ [.endOfFile]⟩

/-- The number of data bytes in one record of a written image. -/
def recordSize : Nat :=
  16

/-- The records of the bytes from an address up. `upper` is the base in force
and `done` holds the records before, backwards. -/
def dataRecords (done : List Record) (upper address : Nat)
    (bytes : List UInt8) :
    List Record :=
  match bytes with
  | [] => done.reverse
  | byte :: rest =>
      let here := address / 65536 % 65536
      let based :=
        if here = upper then done
        else .extendedLinear (UInt16.ofNat here) :: done
      let chunk := Record.data (UInt16.ofNat (address % 65536))
        (byte :: rest.take (recordSize - 1))
      dataRecords (chunk :: based) here (address + recordSize)
        (rest.drop (recordSize - 1))
termination_by bytes.length
decreasing_by
  simp only [List.length_drop, List.length_cons]
  omega

/-- The file that loads an image at address zero. -/
def ofImage (m : Image) : File :=
  ofRecords (dataRecords [] 0 0 m.bytes.toList)

/-- The text of the file: a line for each record. -/
def text (f : File) : String :=
  f.records.foldl (fun s r => s ++ r.line ++ "\n") ""

-- ============================================================== reading

/-- The end of a data record's bytes at a base. -/
def stop (base : Nat) : Record → Nat
  | .data offset bytes => base + offset.toNat + bytes.length
  | _ => 0

/-- Reads lines behind those already read: `ended` says whether the end-of-file
record was there, `done` holds the records backwards, and `line` numbers the
next line. -/
def readLines (base : Nat) (ended : Bool) (done : List Record) (line : Nat) :
    List (List Char) → Except Error (List Record)
  | [] => if ended then .ok done.reverse else .error .missingEndOfFile
  | raw :: rest =>
      match Text.trim raw with
      | [] => readLines base ended done (line + 1) rest
      | c :: cs =>
          if ended then .error (.onLine line .afterEndOfFile)
          else
            match Record.parse (c :: cs) with
            | .error cause => .error (.onLine line cause)
            | .ok r =>
                let based := r.base?.getD base
                if Image.capacity < stop based r then
                  .error (.onLine line (.tooLarge (stop based r)))
                else
                  readLines based (r = .endOfFile) (r :: done) (line + 1) rest

/-- The file of a text. -/
def parse (text : String) : Except Error File :=
  match readLines 0 false [] 1 (Text.lines text.toList) with
  | .ok records => .ok ⟨records⟩
  | .error e => .error e

-- ============================================================== loading

/-- One record's part in loading: the base in force and the segments so far,
backwards. -/
def place (acc : Nat × List (Nat × List UInt8)) :
    Record → Nat × List (Nat × List UInt8)
  | .data offset bytes => (acc.1, (acc.1 + offset.toNat, bytes) :: acc.2)
  | r => (r.base?.getD acc.1, acc.2)

/-- The data of the file with the address of each run of bytes. -/
def segments (f : File) : List (Nat × List UInt8) :=
  (f.records.foldl place (0, [])).2.reverse

/-- The number of data bytes. -/
def dataSize (f : File) : Nat :=
  f.segments.foldl (fun n s => n + s.2.length) 0

/-- Writes the data of the file into an image. -/
def load (f : File) (m : Image) : Image :=
  f.segments.foldl (fun m s => m.writeAll s.1 s.2) m

/-- The image of the file alone. -/
def image (f : File) : Image :=
  f.load .empty

end File

/-- The image that a load file's text describes. -/
def readImage (text : String) : Except Error Image :=
  match File.parse text with
  | .ok f => .ok f.image
  | .error e => .error e

end Hex

end AvrFirmware
