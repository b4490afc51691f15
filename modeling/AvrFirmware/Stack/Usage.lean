/-
How much stack a program needs.

`Usage` is a verdict: a number of bytes, or no bound at all. `Peak` is what
an analysis keeps on the way to it: the greatest height seen so far, and
whether the bound has been given up.
-/
import AvrFirmware.Numeral

namespace AvrFirmware

namespace Stack

-- ================================================================ usage

/-- The greatest stack height of a program. -/
inductive Usage where
  /-- A number of bytes. -/
  | bounded (bytes : Nat)
  /-- No finite bound is known. -/
  | unbounded
  deriving DecidableEq, Repr

namespace Usage

/-- The bytes of a bounded usage. -/
def bytes? : Usage → Option Nat
  | bounded n => some n
  | unbounded => none

/-- No finite bound is known. -/
def isUnbounded : Usage → Bool
  | bounded _ => false
  | unbounded => true

/-- The wording of a usage. -/
def text : Usage → String
  | bounded n => Numeral.decimal n ++ " bytes"
  | unbounded => "unbounded"

/-- No bound lies above every bound. -/
instance : Ord Usage where
  compare
    | bounded a, bounded b => compare a b
    | bounded _, unbounded => .lt
    | unbounded, bounded _ => .gt
    | unbounded, unbounded => .eq

/-- One usage is at most another. -/
instance : LE Usage :=
  leOfOrd

/-- The greater of two usages. -/
instance : Max Usage where
  max a b := if compare a b = .gt then a else b

theorem le_unbounded (u : Usage) : u ≤ unbounded := by
  cases u with
  | bounded n => rfl
  | unbounded => rfl

theorem bounded_le_bounded {a b : Nat} : bounded a ≤ bounded b ↔ a ≤ b := by
  show (compare a b).isLE = true ↔ a ≤ b
  rw [Nat.isLE_compare]

theorem le_refl (u : Usage) : u ≤ u := by
  cases u with
  | bounded n => exact bounded_le_bounded.mpr (Nat.le_refl n)
  | unbounded => rfl

end Usage

-- ================================================================= peak

/-- The greatest height seen, and whether the bound has been given up. -/
structure Peak where
  bytes : Nat := 0
  unbounded : Bool := false
  deriving DecidableEq, Repr

namespace Peak

/-- A height seen; those below zero never count. -/
def observe (p : Peak) (height : Int) : Peak :=
  { p with bytes := max p.bytes height.toNat }

/-- The bound is given up for good. -/
def promote (p : Peak) : Peak :=
  { p with unbounded := true }

/-- The verdict. -/
def usage (p : Peak) : Usage :=
  if p.unbounded then .unbounded else .bounded p.bytes

end Peak

end Stack

end AvrFirmware
