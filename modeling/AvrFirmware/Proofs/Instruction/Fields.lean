/-
Words as rows of fields.

A machine word is read field by field and written as a sum of fields, and
the two have to agree bit for bit. `pack` is the number that a row of
fields makes up, the lowest field first, and `Holds` says that a word has
a row of fields from some bit up. They are two views of one thing: a word
that holds a row is what the row packs to (`eq_pack_of_holds`), and the
pack of a row holds it (`holds_of_eq_pack`). What is left to do for a
format of the instruction set is to name its row.
-/
import AvrFirmware.Instruction.Decoding
import Mathlib

namespace AvrFirmware

namespace Decoding

-- ============================================================ one field

theorem field_eq (w low width : Nat) :
    field w low width = w / 2 ^ low % 2 ^ width := by
  rw [field, Nat.shiftRight_eq_div_pow, Nat.one_shiftLeft]

theorem field_lt (w low width : Nat) : field w low width < 2 ^ width := by
  rw [field_eq]
  exact Nat.mod_lt _ (Nat.two_pow_pos width)

/-- A field of `a + b` bits is its upper `b` bits and its lower `a` bits. -/
theorem field_cut (w low a b : Nat) :
    field w low (a + b) = field w (low + a) b * 2 ^ a + field w low a := by
  simp only [field_eq]
  rw [Nat.pow_add, Nat.mod_mul, Nat.div_div_eq_div_mul, ← Nat.pow_add]
  ring

-- ================================================================= rows

/-- The number that a row of fields makes up, the lowest field first. A field
is given by its width and its value. -/
def pack : List (Nat × Nat) → Nat
  | [] => 0
  | (width, value) :: row => pack row * 2 ^ width + value

/-- The number of bits that a row takes. -/
def bits (row : List (Nat × Nat)) : Nat :=
  (row.map (·.1)).sum

/-- From bit `low` up, a word holds a row of fields. -/
def Holds (w : Nat) : Nat → List (Nat × Nat) → Prop
  | _, [] => True
  | low, (width, value) :: row =>
      field w low width = value ∧ Holds w (low + width) row

variable {w low : Nat} {row : List (Nat × Nat)}

theorem Holds.lt (h : Holds w low row) : ∀ f ∈ row, f.2 < 2 ^ f.1 := by
  induction row generalizing low with
  | nil => exact fun f hf => absurd hf List.not_mem_nil
  | cons f row ih =>
      obtain ⟨hf, hrow⟩ := h
      exact List.forall_mem_cons.mpr ⟨hf ▸ field_lt w low f.1, ih hrow⟩

/-- A row that a word holds is one wide field of it. -/
theorem Holds.field_bits (h : Holds w low row) :
    field w low (bits row) = pack row := by
  induction row generalizing low with
  | nil => simp [field_eq, pack, bits, Nat.mod_one]
  | cons f row ih =>
      obtain ⟨hf, hrow⟩ := h
      show field w low (f.1 + bits row) = _
      rw [field_cut, ih hrow, hf, pack]

/-- The pack of a row holds it, wherever it is moved to and whatever stands
below. -/
theorem holds_pack (hrow : ∀ f ∈ row, f.2 < 2 ^ f.1) {below : Nat}
    (hbelow : below < 2 ^ low) :
    Holds (pack row * 2 ^ low + below) low row := by
  induction row generalizing low below with
  | nil => trivial
  | cons f row ih =>
      obtain ⟨hf, hrow⟩ := List.forall_mem_cons.mp hrow
      constructor
      · show field ((pack row * 2 ^ f.1 + f.2) * 2 ^ low + below) low f.1 = f.2
        rw [field_eq, Nat.add_comm _ below,
          Nat.add_mul_div_right _ _ (Nat.two_pow_pos low),
          Nat.div_eq_of_lt hbelow, Nat.zero_add, Nat.mul_add_mod_self_right,
          Nat.mod_eq_of_lt hf]
      · -- for the rest of the row, this field is part of what stands below
        have hsum : (pack row * 2 ^ f.1 + f.2) * 2 ^ low + below
            = pack row * 2 ^ (low + f.1) + (f.2 * 2 ^ low + below) := by
          rw [Nat.pow_add]
          ring
        show Holds ((pack row * 2 ^ f.1 + f.2) * 2 ^ low + below) (low + f.1)
          row
        rw [hsum]
        refine ih hrow ?_
        calc f.2 * 2 ^ low + below
            < (f.2 + 1) * 2 ^ low := by rw [Nat.succ_mul]; omega
          _ ≤ 2 ^ f.1 * 2 ^ low := Nat.mul_le_mul_right _ hf
          _ = 2 ^ (low + f.1) := by rw [Nat.pow_add, Nat.mul_comm]

/-- A word is what the row it holds packs to. -/
theorem eq_pack_of_holds (row : List (Nat × Nat)) (hw : w < 2 ^ bits row)
    (h : Holds w 0 row) :
    w = pack row ∧ ∀ f ∈ row, f.2 < 2 ^ f.1 := by
  refine ⟨?_, h.lt⟩
  rw [← h.field_bits, field_eq, Nat.pow_zero, Nat.div_one, Nat.mod_eq_of_lt hw]

theorem pack_lt (hrow : ∀ f ∈ row, f.2 < 2 ^ f.1) :
    pack row < 2 ^ bits row := by
  have h : Holds (pack row * 2 ^ 0 + 0) 0 row :=
    holds_pack hrow Nat.zero_lt_one
  rw [← h.field_bits]
  exact field_lt ..

/-- A machine word written as a row of sixteen bits holds it. -/
theorem holds_of_eq_pack {word : Word} {n : Nat} (row : List (Nat × Nat))
    (hword : word = UInt16.ofNat n) (hn : n = pack row) (hbits : bits row = 16)
    (hrow : ∀ f ∈ row, f.2 < 2 ^ f.1) : Holds word.toNat 0 row := by
  have hlt : pack row < 2 ^ 16 := hbits ▸ pack_lt hrow
  have h : Holds (pack row * 2 ^ 0 + 0) 0 row :=
    holds_pack hrow Nat.zero_lt_one
  rwa [Nat.pow_zero, Nat.mul_one, Nat.add_zero,
    ← UInt16.toNat_ofNat_of_lt' hlt, ← hn, ← hword] at h

-- ======================================================= signed numbers

/-- A field read as two's complement lies in the signed range, and modulo the
unsigned range it is the field. -/
theorem signExtend_bounds (width : Nat) {n : Nat} (h : n < 2 ^ (width + 1)) :
    -2 ^ width ≤ signExtend (width + 1) n
      ∧ signExtend (width + 1) n < 2 ^ width
      ∧ (signExtend (width + 1) n % 2 ^ (width + 1)).toNat = n := by
  have hpow : (2 : Int) ^ (width + 1) = 2 * 2 ^ width := by ring
  have hn : (n : Int) < 2 ^ (width + 1) := by exact_mod_cast h
  unfold signExtend
  rw [Nat.add_sub_cancel, Nat.one_shiftLeft, Nat.one_shiftLeft]
  split
  · next hlt =>
      have hlt : (n : Int) < 2 ^ width := by exact_mod_cast hlt
      refine ⟨by omega, hlt, ?_⟩
      rw [Int.emod_eq_of_lt (by omega) hn, Int.toNat_natCast]
  · next hge =>
      have hge : (2 : Int) ^ width ≤ n := by
        exact_mod_cast Nat.le_of_not_lt hge
      push_cast
      refine ⟨by omega, by omega, ?_⟩
      rw [Int.sub_emod_right, Int.emod_eq_of_lt (by omega) hn,
        Int.toNat_natCast]

/-- A number in the signed range is what its remainder modulo the unsigned
range reads as. -/
theorem signExtend_emod (width : Nat) {k : Int} (hlow : -2 ^ width ≤ k)
    (hhigh : k < 2 ^ width) :
    signExtend (width + 1) (k % 2 ^ (width + 1)).toNat = k := by
  have hpow : (2 : Int) ^ (width + 1) = 2 * 2 ^ width := by ring
  have hpos : (0 : Int) < 2 ^ width := by positivity
  unfold signExtend
  rw [Nat.add_sub_cancel, Nat.one_shiftLeft, Nat.one_shiftLeft]
  rcases lt_or_ge k 0 with hneg | hnonneg
  · have hmod : k % 2 ^ (width + 1) = k + 2 ^ (width + 1) := by
      rw [← Int.add_emod_right, Int.emod_eq_of_lt (by omega) (by omega)]
    have hge : ¬ (k % 2 ^ (width + 1)).toNat < 2 ^ width := by
      intro hlt
      have : (k % 2 ^ (width + 1)).toNat < (2 : Int) ^ width := by
        exact_mod_cast hlt
      omega
    rw [if_neg hge, hmod, Int.toNat_of_nonneg (by omega)]
    push_cast
    omega
  · have hmod : k % 2 ^ (width + 1) = k := Int.emod_eq_of_lt hnonneg (by omega)
    have hlt : (k % 2 ^ (width + 1)).toNat < 2 ^ width := by
      rw [hmod]
      zify
      rw [Int.toNat_of_nonneg hnonneg]
      exact hhigh
    rw [if_pos hlt, hmod, Int.toNat_of_nonneg hnonneg]

end Decoding

end AvrFirmware
