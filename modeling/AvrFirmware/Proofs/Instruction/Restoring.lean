/-
Writing gives back what was read.

Each group of the decoder reads some words; `Restores` says of an
instruction that it fits into a word and that its words are the ones it
was read from. Every group is treated alone, against the row of fields of
its format: the top of the word, which the decoder has looked at on its
way to the group, is a hypothesis, and the operands are the fields left.
`restores_decode?` puts the groups together.

# Two words for one load

The plain load from program memory into r0 can be written in two ways.
Both are read, and the short form without operand fields is the one that
is written, so for these two words alone `Restores` is not an equality of
words.
-/
import AvrFirmware.Proofs.Instruction.Fields
import AvrFirmware.Instruction.Encodable

namespace AvrFirmware

namespace Decoding

-- ================================================================ codes

/-- A two-register operation is read from its own code only. -/
theorem code_of_binaryOfCode? {n : Nat} {op : BinaryOp}
    (h : BinaryOp.ofCode? n = some op) :
    op.code = n := by
  unfold BinaryOp.ofCode? at h
  split at h <;> cases h <;> rfl

/-- Two bits tell the multiplications apart, and a multiplication is written as
its two bits. -/
theorem code_multiplyOfCode {n : Nat} (h : n < 4) :
    (MultiplyOp.ofCode n).code = n := by
  decide +revert

theorem code_pairOfCode {n : Nat} (h : n < 2) :
    (PairOp.ofCode n).code = n := by
  decide +revert

theorem code_flagOfCode {n : Nat} (h : n < 2) :
    (FlagOp.ofCode n).code = n := by
  decide +revert

/-- Two bits tell the operations on a bit of a register apart. -/
theorem code_registerBitOfCode {n : Nat} (h : n < 4) :
    (RegisterBitOp.ofCode n).code = n := by
  decide +revert

theorem code_ioBitOfCode {n : Nat} (h : n < 4) :
    (IoBitOp.ofCode n).code = n := by
  decide +revert

theorem code_branchOfCode {n : Nat} (h : n < 2) :
    (BranchOp.ofCode n).code = n := by
  decide +revert

-- ============================================================ restoring

/-- The instruction has words, and they are the word it was read from and the
word behind it. -/
structure Restores (w : Nat) (next : Word) (i : Instruction) : Prop where
  encodable : i.Encodable
  first : i.firstWord = w ∨ w = 0x9004 ∧ i = .programLoad .lpm (.ofNat 0) false
    ∨ w = 0x9006 ∧ i = .programLoad .elpm (.ofNat 0) false
  second : ∀ k ∈ i.secondWord?, k = next

variable {w : Nat} {next : Word} {i : Instruction}

/-- An instruction of one word says nothing about the word behind it. -/
theorem second_of_none (h : i.secondWord? = none) :
    ∀ k ∈ i.secondWord?, k = next := by
  intro k hk
  rw [h] at hk
  cases hk

/-- The register in bits 8 to 4 can be any. -/
theorem toNat_register (w : Nat) : (register w).toNat = field w 4 5 :=
  Nat.mod_eq_of_lt (field_lt w 4 5)

/-- The register in bits 7 to 4 is one of the upper half. -/
theorem toNat_upperRegister (w : Nat) :
    (upperRegister w).toNat = 16 + field w 4 4 := by
  have := field_lt w 4 4
  exact Nat.mod_eq_of_lt (by omega)

/-- A field of at most eight bits is a byte without loss. -/
theorem toNat_byteField (w low : Nat) {width : Nat} (h : width ≤ 8) :
    (UInt8.ofNat (field w low width)).toNat = field w low width := by
  refine UInt8.toNat_ofNat_of_lt' ((field_lt w low width).trans_le ?_)
  exact Nat.pow_le_pow_right (by decide) h

/-- Two registers of five bits each around the code of the operation. -/
theorem restores_binary? (hw : w < 2 ^ 16) (h : binary? w = some i) :
    Restores w next i := by
  obtain ⟨op, hop, rfl⟩ := Option.map_eq_some_iff.mp h
  have hfields := eq_pack_of_holds [(4, _), (5, _), (1, _), (6, _)] hw
    ⟨rfl, rfl, rfl, rfl, trivial⟩
  simp only [pack, Nat.reduceAdd, List.forall_mem_cons] at hfields
  refine ⟨trivial, .inl ?_, (second_of_none rfl)⟩
  simp only [Instruction.firstWord, Encoding.register,
    code_of_binaryOfCode? hop, toNat_register, source, Register.toNat_ofNat]
  omega

/-- A register of the upper half, and a constant in two halves around it. -/
theorem restores_immediate {op : ImmediateOp} (hw : w < 2 ^ 16)
    (h : field w 12 4 = op.code) :
    Restores w next (immediate op w) := by
  have hfields := eq_pack_of_holds [(4, _), (4, _), (4, _), (4, _)] hw
    ⟨rfl, rfl, rfl, rfl, trivial⟩
  simp only [pack, Nat.reduceAdd, List.forall_mem_cons] at hfields
  refine ⟨?_, .inl ?_, (second_of_none rfl)⟩
  · simp only [immediate, Instruction.Encodable, toNat_upperRegister]
    omega
  · simp only [immediate, Instruction.firstWord, ← h, toNat_upperRegister,
      UInt8.toNat_ofNat']
    omega

/-- The words that start with six zeros: no operation, pairs moved,
products. -/
theorem restores_low? (hw : w < 2 ^ 16) (hg : field w 10 6 = 0)
    (h : low? w = some i) :
    Restores w next i := by
  have hfields := eq_pack_of_holds [(4, _), (4, _), (2, _), (6, _)] hw
    ⟨rfl, rfl, rfl, rfl, trivial⟩
  simp only [pack, Nat.reduceAdd, List.forall_mem_cons] at hfields
  unfold low? at h
  split at h
  · split at h
    · next hz =>
        cases h
        exact ⟨trivial, .inl hz.symm, (second_of_none rfl)⟩
    · cases h
  · next hf =>
      cases h
      refine ⟨?_, .inl ?_, (second_of_none rfl)⟩
      · simp only [Instruction.Encodable, Register.toNat_ofNat]
        omega
      · simp only [Instruction.firstWord, Register.toNat_ofNat]
        omega
  · next hf =>
      cases h
      refine ⟨?_, .inl ?_, (second_of_none rfl)⟩
      · simp only [Instruction.Encodable, toNat_upperRegister,
          Register.toNat_ofNat]
        omega
      · simp only [Instruction.firstWord, toNat_upperRegister,
          Register.toNat_ofNat]
        omega
  · next hnop hmovw hmuls =>
      cases h
      have htwo : field w 8 2 ≠ 2 := hmuls
      have hone : field w 8 2 ≠ 1 := hmovw
      have hzero : field w 8 2 ≠ 0 := hnop
      have hfields' := eq_pack_of_holds
        [(3, _), (1, _), (3, _), (1, _), (2, _), (6, _)] hw
        ⟨rfl, rfl, rfl, rfl, rfl, rfl, trivial⟩
      simp only [pack, Nat.reduceAdd, List.forall_mem_cons] at hfields'
      refine ⟨?_, .inl ?_, (second_of_none rfl)⟩
      · simp only [Instruction.Encodable, Register.toNat_ofNat]
        omega
      · have hd : (16 + field w 4 3) % 32 % 8 = field w 4 3 := by omega
        have hr : (16 + field w 0 3) % 32 % 8 = field w 0 3 := by omega
        have hhigh : (field w 7 1 * 2 + field w 3 1) / 2 = field w 7 1 := by
          omega
        have hlow : (field w 7 1 * 2 + field w 3 1) % 2 = field w 3 1 := by
          omega
        rw [Instruction.firstWord, code_multiplyOfCode (by omega)]
        simp only [Register.toNat_ofNat, hd, hr, hhigh, hlow]
        omega

/-- The three parts of a displacement. -/
theorem parts_displacement {a b c : Nat} (ha : a < 2 ^ 1) (hb : b < 2 ^ 2)
    (hc : c < 2 ^ 3) :
    (a * 32 + b * 8 + c) / 32 % 2 = a ∧ (a * 32 + b * 8 + c) / 8 % 4 = b
      ∧ (a * 32 + b * 8 + c) % 8 = c := by
  omega

/-- A load or store at a displacement, which is kept in three parts. -/
theorem restores_displaced (hw : w < 2 ^ 16)
    (htop : field w 12 4 = 0x8 ∨ field w 12 4 = 0xA) :
    Restores w next (displaced w) := by
  have hfields := eq_pack_of_holds
    [(3, _), (1, _), (5, _), (1, _), (2, _), (1, _), (1, _), (2, _)] hw
    ⟨rfl, rfl, rfl, rfl, rfl, rfl, rfl, rfl, trivial⟩
  have hcut := field_cut w 12 1 3
  have hcut' := field_cut w 13 1 2
  simp only [pack, Nat.reduceAdd, List.forall_mem_cons] at hfields hcut hcut'
  have hq : (UInt8.ofNat
      (field w 13 1 * 32 + field w 10 2 * 8 + field w 0 3)).toNat
      = field w 13 1 * 32 + field w 10 2 * 8 + field w 0 3 :=
    UInt8.toNat_ofNat_of_lt' (show _ < 256 by omega)
  have hptr : (if field w 3 1 = 1 then Pointer.y else Pointer.z) ≠ .x := by
    split <;> decide
  have hfirst : Encoding.displaced (register w)
      (if field w 3 1 = 1 then Pointer.y else Pointer.z)
      (field w 13 1 * 32 + field w 10 2 * 8 + field w 0 3)
      + field w 9 1 * 512 = w := by
    have hbit :
        (if (if field w 3 1 = 1 then Pointer.y else Pointer.z) = .y
          then 8 else 0)
        = field w 3 1 * 8 := by
      split
      · next hy =>
          rw [hy]
          rfl
      · rw [if_neg (by decide)]
        omega
    obtain ⟨hhigh, hmid, hlow⟩ :=
      parts_displacement (field_lt w 13 1) (field_lt w 10 2) (field_lt w 0 3)
    rw [Encoding.displaced, Encoding.register, toNat_register, hbit, hhigh,
      hmid, hlow]
    omega
  simp only [displaced]
  split
  · refine ⟨⟨hptr, ?_⟩, .inl ?_, (second_of_none rfl)⟩
    · rw [hq]
      omega
    · simp only [Instruction.firstWord, hq]
      omega
  · refine ⟨⟨hptr, ?_⟩, .inl ?_, (second_of_none rfl)⟩
    · rw [hq]
      omega
    · simp only [Instruction.firstWord, hq, Encoding.storeBit]
      omega

/-- A word with its register in bits 8 to 4, given what is left without that
register. -/
theorem Restores.ofRegister (hw : w < 2 ^ 16) (hi : i.Encodable)
    (hsecond : ∀ k ∈ i.secondWord?, k = next)
    (hfirst : i.firstWord
      = field w 9 7 * 512 + field w 0 4 + Encoding.register (register w)) :
    Restores w next i := by
  have hfields := eq_pack_of_holds [(4, _), (5, _), (7, _)] hw
    ⟨rfl, rfl, rfl, trivial⟩
  simp only [pack, Nat.reduceAdd] at hfields
  refine ⟨hi, .inl ?_, hsecond⟩
  rw [hfirst, Encoding.register, toNat_register]
  omega

/-- A load from program memory; the plain one into r0 has two words. -/
theorem restores_programLoad {op : ProgramLoadOp} {postIncrement : Bool}
    (hw : w < 2 ^ 16) (hg : field w 9 7 = 0x48)
    (h0 : field w 0 4 = op.code + postIncrement.toNat) :
    Restores w next (.programLoad op (register w) postIncrement) := by
  by_cases hplain : (register w).toNat = 0 ∧ postIncrement = false
  · obtain ⟨hd, rfl⟩ := hplain
    have hfields := eq_pack_of_holds [(4, _), (5, _), (7, _)] hw
      ⟨rfl, rfl, rfl, trivial⟩
    simp only [pack, Nat.reduceAdd, ← toNat_register, hd, hg, h0] at hfields
    have hzero : register w = .ofNat 0 := by
      rw [← Register.ofNat_toNat (register w), hd]
    refine ⟨trivial, .inr ?_, (second_of_none rfl)⟩
    cases op with
    | lpm => exact .inl ⟨hfields.1, by rw [hzero]⟩
    | elpm => exact .inr ⟨hfields.1, by rw [hzero]⟩
  · refine .ofRegister hw trivial (second_of_none rfl) ?_
    simp only [Instruction.firstWord, if_neg hplain, hg, h0]
    omega

/-- Loads into a register, told apart by the low four bits; one of them has its
address in the word behind. -/
theorem restores_load? (hw : w < 2 ^ 16) (hg : field w 9 7 = 0x48)
    (h : load? w next = some i) :
    Restores w next i := by
  unfold load? at h
  split at h
  case h_4 h0 | h_5 h0 | h_6 h0 | h_7 h0 =>
    cases h
    exact restores_programLoad hw hg h0
  case h_14 => cases h
  all_goals
    next h0 =>
    cases h
    refine .ofRegister hw (by simp [Instruction.Encodable])
      (by simp [Instruction.secondWord?]) ?_
    rw [hg, h0]
    rfl

/-- Stores of a register, told apart by the low four bits as the loads are. -/
theorem restores_store? (hw : w < 2 ^ 16) (hg : field w 9 7 = 0x49)
    (h : store? w next = some i) :
    Restores w next i := by
  unfold store? at h
  split at h
  case h_14 => cases h
  all_goals
    next h0 =>
    cases h
    refine .ofRegister hw (by simp [Instruction.Encodable])
      (by simp [Instruction.secondWord?]) ?_
    simp +arith
      only [hg, h0, Instruction.firstWord, Encoding.indirect,
        Encoding.storeBit, ExchangeOp.code]

/-- A flag set or cleared: the flag in three bits and a bit for which of the
two. -/
theorem restores_flag (hw : w < 2 ^ 16) (hg : field w 8 8 = 0x94)
    (h0 : field w 0 4 = 8) :
    Restores w next (flag w) := by
  have hfields := eq_pack_of_holds [(4, _), (3, _), (1, _), (8, _)] hw
    ⟨rfl, rfl, rfl, rfl, trivial⟩
  simp only [pack, Nat.reduceAdd, List.forall_mem_cons] at hfields
  have hs := toNat_byteField w 4 (show 3 ≤ 8 by decide)
  refine ⟨?_, .inl ?_, (second_of_none rfl)⟩
  · simp only [flag, Instruction.Encodable, hs]
    omega
  · rw [flag, Instruction.firstWord, code_flagOfCode (by omega), hs]
    omega

/-- Returns and the other instructions without operand fields. -/
theorem restores_control? (hw : w < 2 ^ 16) (hg : field w 8 8 = 0x95)
    (h0 : field w 0 4 = 8) (h : control? w = some i) : Restores w next i := by
  have hfields := eq_pack_of_holds [(4, _), (4, _), (8, _)] hw
    ⟨rfl, rfl, rfl, trivial⟩
  simp only [pack, Nat.reduceAdd, hg, h0] at hfields
  unfold control? at h
  split at h
  case h_10 => cases h
  all_goals
    next h4 =>
    cases h
    refine ⟨trivial, .inl ?_, (second_of_none rfl)⟩
    rw [hfields.1, h4]
    rfl

/-- Jumps and calls through a pointer. -/
theorem restores_indirect? (hw : w < 2 ^ 16) (hg : field w 9 7 = 0x4A)
    (h0 : field w 0 4 = 9) (h : indirect? w = some i) : Restores w next i := by
  have hfields := eq_pack_of_holds [(4, _), (5, _), (7, _)] hw
    ⟨rfl, rfl, rfl, trivial⟩
  simp only [pack, Nat.reduceAdd, hg, h0] at hfields
  unfold indirect? at h
  split at h
  case h_5 => cases h
  all_goals
    next h4 =>
    cases h
    refine ⟨trivial, .inl ?_, (second_of_none rfl)⟩
    rw [hfields.1, h4]
    rfl

/-- A long jump or call: six bits of the address here and sixteen in the word
behind. -/
theorem restores_absolute {op : AbsoluteOp} (hw : w < 2 ^ 16)
    (hg : field w 9 7 = 0x4A) (h1 : field w 1 3 = 6 + op.code) :
    Restores w next (.absolute op (longAddress w next)) := by
  have hfields := eq_pack_of_holds [(1, _), (3, _), (5, _), (7, _)] hw
    ⟨rfl, rfl, rfl, rfl, trivial⟩
  simp only [pack, Nat.reduceAdd, List.forall_mem_cons, hg, h1] at hfields
  have hnext := next.toNat_lt
  have hk : (longAddress w next).toNat
      = (field w 4 5 * 2 + field w 0 1) * 65536 + next.toNat :=
    UInt32.toNat_ofNat_of_lt' (show _ < 4294967296 by omega)
  refine ⟨?_, .inl ?_, ?_⟩
  · simp only [Instruction.Encodable, hk]
    omega
  · have hhigh : (longAddress w next).toNat / 65536
        = field w 4 5 * 2 + field w 0 1 := by omega
    simp only [Instruction.firstWord, Encoding.longHigh, hhigh]
    omega
  · intro k hmem
    cases hmem
    rw [hk, Nat.mul_add_mod_self_right, Nat.mod_eq_of_lt hnext,
      UInt16.ofNat_toNat]

/-- The group of one-register operations, with the flags, returns and jumps
that share its top bits. -/
theorem restores_single? (hw : w < 2 ^ 16) (hg : field w 9 7 = 0x4A)
    (h : single? w next = some i) : Restores w next i := by
  have hcut := field_cut w 8 1 7
  have hcut0 := field_cut w 0 1 3
  have h8 := field_lt w 8 1
  have h0 := field_lt w 0 1
  simp only [Nat.reduceAdd, hg] at hcut hcut0
  unfold single? at h
  split at h
  case h_8 h0 =>
    split at h
    · cases h
      exact restores_flag hw (by omega) h0
    · exact restores_control? hw (by omega) h0 h
  case h_9 h0 => exact restores_indirect? hw hg h0 h
  case h_11 h0 =>
    split at h
    · next hz =>
        cases h
        have hfields := eq_pack_of_holds [(4, _), (4, _), (8, _)] hw
          ⟨rfl, rfl, rfl, trivial⟩
        simp only [pack, Nat.reduceAdd, List.forall_mem_cons, h0] at hfields
        have hk := toNat_byteField w 4 (show 4 ≤ 8 by decide)
        refine ⟨?_, .inl ?_, (second_of_none rfl)⟩
        · simp only [Instruction.Encodable, hk]
          omega
        · simp only [Instruction.firstWord, hk]
          omega
    · cases h
  case h_12 h0 =>
    cases h
    exact restores_absolute hw hg (by simp only [AbsoluteOp.code]; omega)
  case h_13 h0 =>
    cases h
    exact restores_absolute hw hg (by simp only [AbsoluteOp.code]; omega)
  case h_14 h0 =>
    cases h
    exact restores_absolute hw hg (by simp only [AbsoluteOp.code]; omega)
  case h_15 h0 =>
    cases h
    exact restores_absolute hw hg (by simp only [AbsoluteOp.code]; omega)
  case h_16 => cases h
  all_goals
    next h0 =>
    cases h
    refine .ofRegister hw trivial (second_of_none rfl) ?_
    rw [hg, h0]
    simp only [Instruction.firstWord, UnaryOp.code]
    omega

/-- A constant added to a register pair or taken from it, with two bits for the
pair. -/
theorem restores_pair (hw : w < 2 ^ 16) (hg : field w 9 7 = 0x4B) :
    Restores w next (pair w) := by
  have hfields := eq_pack_of_holds [(4, _), (2, _), (2, _), (1, _), (7, _)] hw
    ⟨rfl, rfl, rfl, rfl, rfl, trivial⟩
  simp only [pack, Nat.reduceAdd, List.forall_mem_cons] at hfields
  have hk : (UInt8.ofNat (field w 6 2 * 16 + field w 0 4)).toNat
      = field w 6 2 * 16 + field w 0 4 :=
    UInt8.toNat_ofNat_of_lt' (show _ < 256 by omega)
  refine ⟨?_, .inl ?_, (second_of_none rfl)⟩
  · simp only [pair, Instruction.Encodable, Register.toNat_ofNat, hk]
    omega
  · rw [pair, Instruction.firstWord, code_pairOfCode (by omega), hk,
      Register.toNat_ofNat]
    omega

/-- A bit of one of the low I/O registers. -/
theorem restores_ioBit (hw : w < 2 ^ 16) (hg : field w 10 6 = 0x26) :
    Restores w next (ioBit w) := by
  have hfields := eq_pack_of_holds [(3, _), (5, _), (2, _), (6, _)] hw
    ⟨rfl, rfl, rfl, rfl, trivial⟩
  simp only [pack, Nat.reduceAdd, List.forall_mem_cons] at hfields
  have ha := toNat_byteField w 3 (show 5 ≤ 8 by decide)
  have hb := toNat_byteField w 0 (show 3 ≤ 8 by decide)
  refine ⟨?_, .inl ?_, (second_of_none rfl)⟩
  · simp only [ioBit, Instruction.Encodable, ha, hb]
    omega
  · rw [ioBit, Instruction.firstWord, code_ioBitOfCode (by omega), ha, hb]
    omega

/-- The words with nine on top, parted further by the three bits below. -/
theorem restores_mixed? (hw : w < 2 ^ 16) (hg : field w 12 4 = 9)
    (h : mixed? w next = some i) :
    Restores w next i := by
  have hcut := field_cut w 9 3 4
  have hcut' := field_cut w 9 1 6
  have h9 := field_lt w 9 1
  simp only [Nat.reduceAdd, hg] at hcut hcut'
  unfold mixed? at h
  split at h
  case h_1 h9 => exact restores_load? hw (by omega) h
  case h_2 h9 => exact restores_store? hw (by omega) h
  case h_3 h9 => exact restores_single? hw (by omega) h
  case h_4 h9 =>
    cases h
    exact restores_pair hw (by omega)
  case h_5 h9 =>
    cases h
    exact restores_ioBit hw (by omega)
  case h_6 h9 =>
    cases h
    exact restores_ioBit hw (by omega)
  case h_7 => exact restores_binary? hw h

/-- An I/O register of six bits in two parts around a register. -/
theorem restores_io (hw : w < 2 ^ 16) (hg : field w 12 4 = 0xB) :
    Restores w next (io w) := by
  have hfields := eq_pack_of_holds [(4, _), (5, _), (2, _), (1, _), (4, _)] hw
    ⟨rfl, rfl, rfl, rfl, rfl, trivial⟩
  simp only [pack, Nat.reduceAdd, List.forall_mem_cons] at hfields
  have ha : (UInt8.ofNat (field w 9 2 * 16 + field w 0 4)).toNat
      = field w 9 2 * 16 + field w 0 4 :=
    UInt8.toNat_ofNat_of_lt' (show _ < 256 by omega)
  simp only [io]
  split
  · refine ⟨?_, .inl ?_, (second_of_none rfl)⟩
    · simp only [Instruction.Encodable, ha]
      omega
    · simp only [Instruction.firstWord, Encoding.register, Encoding.ioAddress,
        toNat_register, ha]
      omega
  · refine ⟨?_, .inl ?_, (second_of_none rfl)⟩
    · simp only [Instruction.Encodable, ha]
      omega
    · simp only [Instruction.firstWord, Encoding.register, Encoding.ioAddress,
        toNat_register, ha]
      omega

/-- A jump or call by an offset of twelve bits with a sign. -/
theorem restores_relative {op : RelativeOp} (hw : w < 2 ^ 16)
    (hg : field w 12 4 = 12 + op.code) :
    Restores w next (.relative op (offset w)) := by
  have hfields := eq_pack_of_holds [(12, _), (4, _)] hw ⟨rfl, rfl, trivial⟩
  simp only [pack, Nat.reduceAdd] at hfields
  have hext := signExtend_bounds 11 (field_lt w 0 12)
  simp only [Nat.reduceAdd] at hext
  have hk : (offset w).toInt = signExtend 12 (field w 0 12) :=
    Int16.toInt_ofInt_of_le (by omega) (by omega)
  refine ⟨?_, .inl ?_, (second_of_none rfl)⟩
  · simp only [Instruction.Encodable, hk]
    omega
  · simp only [Instruction.firstWord, hk]
    omega

/-- A branch by an offset of seven bits with a sign, on a flag. -/
theorem restores_branch (hw : w < 2 ^ 16) (hg : field w 11 5 = 0x1E) :
    Restores w next
      (.branch (BranchOp.ofCode (field w 10 1)) (UInt8.ofNat (field w 0 3))
        (Int8.ofInt (signExtend 7 (field w 3 7)))) := by
  have hfields := eq_pack_of_holds [(3, _), (7, _), (1, _), (5, _)] hw
    ⟨rfl, rfl, rfl, rfl, trivial⟩
  simp only [pack, Nat.reduceAdd, List.forall_mem_cons] at hfields
  have hext := signExtend_bounds 6 (field_lt w 3 7)
  simp only [Nat.reduceAdd] at hext
  have hk : (Int8.ofInt (signExtend 7 (field w 3 7))).toInt
      = signExtend 7 (field w 3 7) :=
    Int8.toInt_ofInt_of_le (by omega) (by omega)
  have hs := toNat_byteField w 0 (show 3 ≤ 8 by decide)
  refine ⟨?_, .inl ?_, (second_of_none rfl)⟩
  · simp only [Instruction.Encodable, hk, hs]
    omega
  · rw [Instruction.firstWord, code_branchOfCode (field_lt w 10 1), hk, hs]
    omega

/-- The words with fifteen on top: branches, and bits of registers. -/
theorem restores_high? (hw : w < 2 ^ 16) (hg : field w 12 4 = 0xF)
    (h : high? w = some i) :
    Restores w next i := by
  have hcut := field_cut w 11 1 4
  have h11 := field_lt w 11 1
  simp only [Nat.reduceAdd, hg] at hcut
  simp only [high?] at h
  split at h
  · cases h
    exact restores_branch hw (by omega)
  · next hbranch =>
      have hne : field w 11 1 ≠ 0 := hbranch
      split at h
      · cases h
        have hfields := eq_pack_of_holds
          [(3, _), (1, _), (5, _), (2, _), (1, _), (4, _)] hw
          ⟨rfl, rfl, rfl, rfl, rfl, rfl, trivial⟩
        simp only [pack, Nat.reduceAdd, List.forall_mem_cons] at hfields
        have hb := toNat_byteField w 0 (show 3 ≤ 8 by decide)
        refine ⟨?_, .inl ?_, (second_of_none rfl)⟩
        · simp only [Instruction.Encodable, hb]
          omega
        · rw [Instruction.firstWord, code_registerBitOfCode (field_lt w 9 2),
            hb, Encoding.register, toNat_register]
          omega
      · cases h

/-- What is read from a word is written as that word, or as the other of the
two for one load. The top four bits of the word choose the group. -/
theorem restores_decode? {word : Word} (h : decode? word next = some i) :
    Restores word.toNat next i := by
  have hw : word.toNat < 2 ^ 16 := word.toNat_lt
  have hcut := field_cut word.toNat 10 2 4
  simp only [Nat.reduceAdd] at hcut
  simp only [decode?] at h
  split at h
  case h_1 hg =>
    split at h
    · exact restores_low? hw (by omega) h
    · exact restores_binary? hw h
  case h_2 | h_3 => exact restores_binary? hw h
  case h_4 hg | h_5 hg | h_6 hg | h_7 hg | h_8 hg | h_15 hg =>
    cases h
    exact restores_immediate hw hg
  case h_9 hg =>
    cases h
    exact restores_displaced hw (.inl hg)
  case h_10 hg => exact restores_mixed? hw hg h
  case h_11 hg =>
    cases h
    exact restores_displaced hw (.inr hg)
  case h_12 hg =>
    cases h
    exact restores_io hw hg
  case h_13 hg | h_14 hg =>
    cases h
    exact restores_relative hw hg
  case h_16 =>
    have hlt := field_lt word.toNat 12 4
    exact restores_high? hw (by grind) h

end Decoding
end AvrFirmware
