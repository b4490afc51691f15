/-
The register file: thirty-two general registers, the three pointer pairs
at its top, and the ways an access can step its pointer.
-/
import AvrFirmware.Numeral

namespace AvrFirmware

/-- One of the general registers r0 to r31. -/
structure Register where
  index : Fin 32
  deriving DecidableEq, Hashable, Repr

namespace Register

/-- The register's number. -/
def toNat (r : Register) : Nat :=
  r.index.val

theorem toNat_lt (r : Register) : r.toNat < 32 :=
  r.index.isLt

/-- The register named by an operand field; bits above the low five do not
matter. -/
def ofNat (n : Nat) : Register :=
  ⟨⟨n % 32, Nat.mod_lt n (by decide)⟩⟩

/-- The register of a number, if there is one. -/
def ofIndex? (n : Nat) : Option Register :=
  if n < 32 then some (ofNat n) else none

@[simp]
theorem toNat_ofNat (n : Nat) : (ofNat n).toNat = n % 32 :=
  rfl

@[simp]
theorem ofNat_toNat (r : Register) : ofNat r.toNat = r := by
  cases r with
  | mk i => exact congrArg mk (Fin.ext (Nat.mod_eq_of_lt i.isLt))

theorem toNat_inj {r s : Register} (h : r.toNat = s.toNat) : r = s := by
  rw [← ofNat_toNat r, ← ofNat_toNat s, h]

/-- Registers r16 to r31 take eight-bit constants. -/
def isUpper (r : Register) : Bool :=
  16 ≤ r.toNat

/-- The register as assembly text, such as `r5`. -/
def text (r : Register) : String :=
  "r" ++ Numeral.decimal r.toNat

/-- The register's name in messages and in exchange form, such as `R5`. -/
def name (r : Register) : String :=
  "R" ++ Numeral.decimal r.toNat

/-- All registers in order. -/
def all : List Register :=
  (List.range 32).map ofNat

end Register

/-- The pointer pairs r27:r26, r29:r28 and r31:r30. -/
inductive Pointer where
  | x
  | y
  | z
  deriving DecidableEq, Hashable, Repr

namespace Pointer

/-- The pair's name. -/
def name : Pointer → String
  | x => "X"
  | y => "Y"
  | z => "Z"

/-- All pointer pairs. -/
def all : List Pointer :=
  [x, y, z]

end Pointer

/-- What an indirect access does to its pointer. -/
inductive PointerStep where
  | plain
  | postIncrement
  | preDecrement
  deriving DecidableEq, Hashable, Repr

namespace PointerStep

/-- The step's name in messages and in exchange form. -/
def name : PointerStep → String
  | plain => "Plain"
  | postIncrement => "PostIncrement"
  | preDecrement => "PreDecrement"

/-- All pointer steps. -/
def all : List PointerStep :=
  [plain, postIncrement, preDecrement]

/-- A pointer operand as assembly text: `X`, `X+` or `-X`. -/
def text (p : Pointer) : PointerStep → String
  | plain => p.name
  | postIncrement => p.name ++ "+"
  | preDecrement => "-" ++ p.name

end PointerStep

end AvrFirmware
