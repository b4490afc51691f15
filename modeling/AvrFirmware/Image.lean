/-
Program images: the bytes of a program memory from address zero.

An image grows when a byte is written past its end, and what lies between
the old end and the new byte reads as zero. Machine words lie low byte
first, and a program counter counts words.
-/
import AvrFirmware.Instruction.Decoding

namespace AvrFirmware

/-- The contents of a program memory. -/
structure Image where
  bytes : Array UInt8
  deriving DecidableEq, Repr

namespace Image

/-- The largest program memory that a word counter of 22 bits reaches, in
bytes. -/
def capacity : Nat :=
  0x400000 * 2

/-- The image without bytes. -/
def empty : Image :=
  ⟨#[]⟩

/-- The image of some bytes. -/
def ofBytes (bytes : List UInt8) : Image :=
  ⟨bytes.toArray⟩

/-- The image of some machine words. -/
def ofWords (words : List Word) : Image :=
  ofBytes (words.flatMap Word.bytes)

/-- The number of bytes. -/
def size (m : Image) : Nat :=
  m.bytes.size

-- ============================================================== reading

/-- The byte at an address, if it lies in the image. -/
def read? (m : Image) (address : Nat) : Option UInt8 :=
  m.bytes[address]?

/-- The machine word at a program counter, if both its bytes lie in the
image. -/
def word? (m : Image) (pc : Nat) : Option Word :=
  match m.read? (2 * pc), m.read? (2 * pc + 1) with
  | some low, some high => some (Word.ofBytes low high)
  | _, _ => none

/-- Whether a program counter lies at or behind the end of the image. -/
def isPastEnd (m : Image) (pc : Nat) : Bool :=
  m.size ≤ 2 * pc

/-- The instruction at a program counter. -/
def decodeAt (m : Image) (pc : Nat) : Except DecodeError Instruction :=
  if m.isPastEnd pc then .error (.outOfRange pc)
  else
    match m.word? pc with
    | none => .error (.truncated pc)
    | some word =>
        if Word.isLong word then
          match m.word? (pc + 1) with
          | none => .error (.truncated pc)
          | some next => decode word next
        else decode word 0

/-- The linear sweep from a program counter to the end of the image: each
instruction in turn, and one word further wherever none can be read. -/
def sweep (m : Image) (pc : Nat) :
    List (Nat × Except DecodeError Instruction) :=
  if m.size ≤ 2 * pc then []
  else
    match m.decodeAt pc with
    | .ok i => (pc, .ok i) :: sweep m (pc + i.width)
    | .error e => (pc, .error e) :: sweep m (pc + 1)
termination_by m.size - 2 * pc
decreasing_by
  · have := i.one_le_width
    omega
  · omega

/-- Where the linear sweep from a program counter ends. -/
def sweepEnd (m : Image) (pc : Nat) : Nat :=
  match (m.sweep pc).getLast? with
  | none => pc
  | some (last, .ok i) => last + i.width
  | some (last, .error _) => last + 1

-- ============================================================== writing

/-- The image with one byte changed, grown with zeros if the address lies
behind its end. -/
def write (m : Image) (address : Nat) (byte : UInt8) : Image :=
  if address < m.size then ⟨m.bytes.setIfInBounds address byte⟩
  else ⟨(m.bytes ++ Array.replicate (address - m.size) 0).push byte⟩

/-- The image with a run of bytes written from an address up. -/
def writeAll (m : Image) (address : Nat) : List UInt8 → Image
  | [] => m
  | byte :: rest => writeAll (m.write address byte) (address + 1) rest

@[simp]
theorem size_write (m : Image) (address : Nat) (byte : UInt8) :
    (m.write address byte).size = max m.size (address + 1) := by
  unfold write
  split
  · simp only [size, Array.size_setIfInBounds] at *
    omega
  · simp only [size, Array.size_push, Array.size_append,
      Array.size_replicate] at *
    omega

/-- The byte written is there, bytes grown over are zero, and the others are
kept. -/
theorem read?_write (m : Image) (address a : Nat) (byte : UInt8) :
    (m.write address byte).read? a =
      if a = address then some byte
      else if m.size ≤ a ∧ a < address then some 0
      else m.read? a := by
  unfold write
  split
  · rename_i h
    simp only [read?, size] at *
    rw [Array.getElem?_setIfInBounds]
    grind
  · rename_i h
    simp only [read?, size] at *
    grind

end Image

end AvrFirmware
