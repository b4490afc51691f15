/-
Machine words and instructions, each read as the other.

# From the instruction

For every format there is a lemma that starts from the word an
instruction is written as, names the row of fields in it and follows the
decoder down to the instruction. The operands have to fit their fields,
and this is all that `Encodable` asks for: `reread_of_encodable`.

# From the word

`Restoring` has the other way: what is read can be written, and comes out
as the words it was read from. So the instructions that some word is read
as are the encodable ones, and on them reading and writing are inverse,
but for the two words that have a preferred spelling.
-/
import AvrFirmware.Proofs.Instruction.Restoring

namespace AvrFirmware

namespace Decoding

-- ============================================================= operands

/-- Five bits that hold the number of a register are read as the register. -/
theorem ofNat_eq_register {n : Nat} {r : Register} (h : n % 32 = r.toNat) :
    Register.ofNat n = r :=
  Register.toNat_inj h

theorem register_eq {w : Nat} {r : Register} (h : field w 4 5 = r.toNat) :
    register w = r := by
  rw [register, h, Register.ofNat_toNat]

theorem ofNat_eq_byte {n : Nat} {k : UInt8} (h : n = k.toNat) :
    UInt8.ofNat n = k := by
  rw [h, UInt8.ofNat_toNat]

-- ============================================================== formats

variable {word : Word} (next : Word)

/-- Two registers and the code of the operation between them. -/
theorem decode?_binary {op : BinaryOp} {d r : Register}
    (hw : word = UInt16.ofNat (Instruction.binary op d r).firstWord) :
    decode? word next = some (.binary op d r) := by
  have hd := d.toNat_lt
  have hr := r.toNat_lt
  have hop : op.code < 64 := by cases op <;> decide
  have hcode : BinaryOp.ofCode? op.code = some op := by cases op <;> rfl
  rw [Instruction.firstWord, Encoding.register] at hw
  obtain ⟨h0, h4, h9, h10, -⟩ := holds_of_eq_pack
    [(4, r.toNat % 16), (5, d.toNat), (1, r.toNat / 16), (6, op.code)] hw
    (by simp only [pack]; omega) rfl (by simp; omega)
  simp only [Nat.reduceAdd] at h4 h9 h10
  have hread : binary? word.toNat = some (.binary op d r) := by
    rw [binary?, h10, hcode, Option.map_some, register_eq h4, source, h9, h0,
      ofNat_eq_register (r := r) (by omega)]
  -- the decoder looks at the upper four bits of the code and at the lower two
  -- apart
  have hcut := field_cut word.toNat 10 2 4
  have hcut' := field_cut word.toNat 9 1 2
  have hlt := field_lt word.toNat 10 2
  have hlt' := field_lt word.toNat 9 1
  simp only [Nat.reduceAdd, h10] at hcut hcut'
  have h12 : field word.toNat 12 4 = op.code / 4 := by omega
  have h10' : field word.toNat 10 2 = op.code % 4 := by omega
  cases op with
  | mul =>
      have h93 : field word.toNat 9 3 = 6 ∨ field word.toNat 9 3 = 7 := by
        rw [BinaryOp.code] at h10'
        omega
      rcases h93 with h93 | h93 <;>
        simp only [decode?, h12, BinaryOp.code, Nat.reduceDiv, mixed?, h93,
          hread]
  | _ => simp [decode?, h12, BinaryOp.code, h10', hread]

/-- A move of pairs; the pairs are even, so a bit of each is left out. -/
theorem decode?_movw {d r : Register} (hd : d.toNat % 2 = 0)
    (hr : r.toNat % 2 = 0)
    (hw : word = UInt16.ofNat (Instruction.movw d r).firstWord) :
    decode? word next = some (.movw d r) := by
  have := d.toNat_lt
  have := r.toNat_lt
  rw [Instruction.firstWord] at hw
  obtain ⟨h0, h4, h8, h10, h12, -⟩ := holds_of_eq_pack
    [(4, r.toNat / 2), (4, d.toNat / 2), (2, 1), (2, 0), (4, 0)] hw
    (by simp only [pack]; omega) rfl (by simp; omega)
  simp only [Nat.reduceAdd] at h4 h8 h10 h12
  simp only [decode?, h12, h10, low?, h8, h4, h0, reduceIte]
  rw [ofNat_eq_register (r := d) (by omega),
    ofNat_eq_register (r := r) (by omega)]

/-- A signed product, of two registers of the upper half. -/
theorem decode?_muls {d r : Register} (hd : 16 ≤ d.toNat) (hr : 16 ≤ r.toNat)
    (hw : word = UInt16.ofNat (Instruction.muls d r).firstWord) :
    decode? word next = some (.muls d r) := by
  have := d.toNat_lt
  have := r.toNat_lt
  rw [Instruction.firstWord] at hw
  obtain ⟨h0, h4, h8, h10, h12, -⟩ := holds_of_eq_pack
    [(4, r.toNat % 16), (4, d.toNat % 16), (2, 2), (2, 0), (4, 0)] hw
    (by simp only [pack]; omega) rfl (by simp; omega)
  simp only [Nat.reduceAdd] at h4 h8 h10 h12
  simp only [decode?, h12, h10, low?, h8, upperRegister, h4, h0, reduceIte]
  rw [ofNat_eq_register (r := d) (by omega),
    ofNat_eq_register (r := r) (by omega)]

/-- The other products, of two registers from 16 to 23. -/
theorem decode?_multiply {op : MultiplyOp} {d r : Register}
    (hd : 16 ≤ d.toNat ∧ d.toNat ≤ 23) (hr : 16 ≤ r.toNat ∧ r.toNat ≤ 23)
    (hw : word = UInt16.ofNat (Instruction.multiply op d r).firstWord) :
    decode? word next = some (.multiply op d r) := by
  have hop : op.code < 4 := by cases op <;> decide
  have hcode : MultiplyOp.ofCode op.code = op := by cases op <;> rfl
  rw [Instruction.firstWord] at hw
  obtain ⟨h0, h3, h4, h7, h8, h10, h12, -⟩ := holds_of_eq_pack
    [(3, r.toNat % 8), (1, op.code % 2), (3, d.toNat % 8), (1, op.code / 2),
      (2, 3), (2, 0),
      (4, 0)] hw (by simp only [pack]; omega) rfl (by simp; omega)
  simp only [Nat.reduceAdd] at h3 h4 h7 h8 h10 h12
  simp only [decode?, h12, h10, low?, h8, h7, h4, h3, h0, reduceIte]
  rw [ofNat_eq_register (r := d) (by omega),
    ofNat_eq_register (r := r) (by omega), Nat.div_add_mod', hcode]

/-- A constant, with a register of the upper half. -/
theorem decode?_immediate {op : ImmediateOp} {d : Register} {k : UInt8}
    (hd : 16 ≤ d.toNat)
    (hw : word = UInt16.ofNat (Instruction.immediate op d k).firstWord) :
    decode? word next = some (.immediate op d k) := by
  have := d.toNat_lt
  have hk := k.toNat_lt
  have hop : op.code < 16 := by cases op <;> decide
  rw [Instruction.firstWord] at hw
  obtain ⟨h0, h4, h8, h12, -⟩ := holds_of_eq_pack
    [(4, k.toNat % 16), (4, d.toNat % 16), (4, k.toNat / 16), (4, op.code)] hw
    (by simp only [pack]; omega) rfl (by simp; omega)
  simp only [Nat.reduceAdd] at h4 h8 h12
  have hread : immediate op word.toNat = .immediate op d k := by
    rw [immediate, upperRegister, h8, h4, h0,
      ofNat_eq_register (r := d) (by omega),
      ofNat_eq_byte (Nat.div_add_mod' ..)]
  cases op <;> simp only [decode?, h12, ImmediateOp.code, hread]

/-- A constant of six bits, with one of the four upper pairs. -/
theorem decode?_pair {op : PairOp} {d : Register} {k : UInt8}
    (hd : 24 ≤ d.toNat ∧ d.toNat % 2 = 0) (hk : k.toNat ≤ 63)
    (hw : word = UInt16.ofNat (Instruction.pair op d k).firstWord) :
    decode? word next = some (.pair op d k) := by
  have := d.toNat_lt
  have hop : op.code < 2 := by cases op <;> decide
  have hcode : PairOp.ofCode op.code = op := by cases op <;> rfl
  rw [Instruction.firstWord] at hw
  obtain ⟨h0, h4, h6, h8, h9, h12, -⟩ := holds_of_eq_pack
    [(4, k.toNat % 16), (2, d.toNat / 2 % 4), (2, k.toNat / 16 % 4),
      (1, op.code), (3, 3),
      (4, 9)] hw (by simp only [pack]; omega) rfl (by simp; omega)
  simp only [Nat.reduceAdd] at h4 h6 h8 h9 h12
  simp only [decode?, h12, mixed?, h9, pair, h8, h6, h4, h0, hcode]
  rw [ofNat_eq_register (r := d) (by omega), ofNat_eq_byte (k := k) (by omega)]

/-- The format with a register in bits 8 to 4; `c` is the word without the
register. -/
theorem decode?_register {r : Register} (c : Nat)
    (hw : word = UInt16.ofNat (c + Encoding.register r)) (htop : c / 4096 = 9)
    (hfree : c % 512 < 16) :
    decode? word next = mixed? word.toNat next
      ∧ field word.toNat 9 3 = c / 512 % 8
      ∧ register word.toNat = r ∧ field word.toNat 0 4 = c % 16 := by
  have hr := r.toNat_lt
  rw [Encoding.register] at hw
  obtain ⟨h0, h4, h9, h12, -⟩ := holds_of_eq_pack
    [(4, c % 16), (5, r.toNat), (3, c / 512 % 8), (4, 9)] hw
    (by simp only [pack]; omega) rfl (by simp; omega)
  simp only [Nat.reduceAdd] at h4 h9 h12
  exact ⟨by simp only [decode?, h12], h9, register_eq h4, h0⟩

/-- One register; the operation is in the low four bits. -/
theorem decode?_unary {op : UnaryOp} {d : Register}
    (hw : word = UInt16.ofNat (Instruction.unary op d).firstWord) :
    decode? word next = some (.unary op d) := by
  rw [Instruction.firstWord, Nat.add_right_comm] at hw
  cases op <;>
  · obtain ⟨hmixed, h9, hd, h0⟩ := decode?_register next _ hw rfl (by decide)
    simp only [hmixed, mixed?, h9, single?, h0, hd, UnaryOp.code,
      Nat.reduceAdd, Nat.reduceDiv, Nat.reduceMod]

/-- A load through a pointer. The plain ones through Y and Z are loads at
displacement zero, and are left out. -/
theorem decode?_ld {d : Register} {ptr : Pointer} {step : PointerStep}
    (hstep : ptr = .x ∨ step ≠ .plain)
    (hw : word = UInt16.ofNat (Instruction.ld d ptr step).firstWord) :
    decode? word next = some (.ld d ptr step) := by
  rw [Instruction.firstWord] at hw
  cases ptr <;> cases step <;> simp only [Encoding.indirect] at hw
  case y.plain | z.plain => simp at hstep
  all_goals
    obtain ⟨hmixed, h9, hd, h0⟩ := decode?_register next _ hw rfl (by decide)
    simp only [hmixed, mixed?, h9, load?, h0, hd, Nat.reduceDiv, Nat.reduceMod]

theorem decode?_st {r : Register} {ptr : Pointer} {step : PointerStep}
    (hstep : ptr = .x ∨ step ≠ .plain)
    (hw : word = UInt16.ofNat (Instruction.st ptr step r).firstWord) :
    decode? word next = some (.st ptr step r) := by
  rw [Instruction.firstWord] at hw
  cases ptr <;> cases step <;>
        simp only [Encoding.indirect, ← Nat.add_assoc] at hw
  case y.plain | z.plain => simp at hstep
  all_goals
    obtain ⟨hmixed, h9, hr, h0⟩ := decode?_register next _ hw rfl (by decide)
    simp only [hmixed, mixed?, h9, store?, h0, hr, Encoding.storeBit,
      Nat.reduceAdd, Nat.reduceDiv, Nat.reduceMod]

/-- A load from the address in the word behind. -/
theorem decode?_lds {d : Register} {k : UInt16}
    (hw : word = UInt16.ofNat (Instruction.lds d k).firstWord) :
    decode? word k = some (.lds d k) := by
  obtain ⟨hmixed, h9, hd, h0⟩ := decode?_register k _ hw rfl (by decide)
  simp only [hmixed, mixed?, h9, load?, h0, hd, Nat.reduceDiv, Nat.reduceMod]

theorem decode?_sts {r : Register} {k : UInt16}
    (hw : word = UInt16.ofNat (Instruction.sts k r).firstWord) :
    decode? word k = some (.sts k r) := by
  obtain ⟨hmixed, h9, hr, h0⟩ := decode?_register k _ hw rfl (by decide)
  simp only [hmixed, mixed?, h9, store?, h0, hr, Nat.reduceDiv, Nat.reduceMod]

/-- A load from program memory, by the word that is written for it. -/
theorem decode?_programLoad {op : ProgramLoadOp} {d : Register}
    {postIncrement : Bool}
    (hw : word
      = UInt16.ofNat (Instruction.programLoad op d postIncrement).firstWord) :
    decode? word next = some (.programLoad op d postIncrement) := by
  simp only [Instruction.firstWord] at hw
  split at hw
  · next hplain =>
      have hd : d = .ofNat 0 := Register.toNat_inj hplain.1
      rw [hd, hplain.2, hw]
      cases op <;> rfl
  · rw [Nat.add_assoc, Nat.add_right_comm] at hw
    cases op <;> cases postIncrement <;>
    · obtain ⟨hmixed, h9, hd, h0⟩ := decode?_register next _ hw rfl (by decide)
      simp only [hmixed, mixed?, h9, load?, h0, hd, ProgramLoadOp.code,
        Bool.toNat_false, Bool.toNat_true, Nat.reduceAdd, Nat.reduceDiv,
        Nat.reduceMod]

/-- A register exchanged with memory. -/
theorem decode?_exchange {op : ExchangeOp} {d : Register}
    (hw : word = UInt16.ofNat (Instruction.exchange op d).firstWord) :
    decode? word next = some (.exchange op d) := by
  rw [Instruction.firstWord, Nat.add_right_comm] at hw
  cases op <;>
  · obtain ⟨hmixed, h9, hd, h0⟩ := decode?_register next _ hw rfl (by decide)
    simp only [hmixed, mixed?, h9, store?, h0, hd, ExchangeOp.code,
      Nat.reduceAdd, Nat.reduceDiv, Nat.reduceMod]

theorem decode?_push {r : Register}
    (hw : word = UInt16.ofNat (Instruction.push r).firstWord) :
    decode? word next = some (.push r) := by
  obtain ⟨hmixed, h9, hr, h0⟩ := decode?_register next _ hw rfl (by decide)
  simp only [hmixed, mixed?, h9, store?, h0, hr, Nat.reduceDiv, Nat.reduceMod]

theorem decode?_pop {d : Register}
    (hw : word = UInt16.ofNat (Instruction.pop d).firstWord) :
    decode? word next = some (.pop d) := by
  obtain ⟨hmixed, h9, hd, h0⟩ := decode?_register next _ hw rfl (by decide)
  simp only [hmixed, mixed?, h9, load?, h0, hd, Nat.reduceDiv, Nat.reduceMod]

/-- An access at a displacement; `store` is the bit that makes it a store. -/
theorem decode?_displaced (store : Nat) {r : Register} {ptr : Pointer}
    {q : UInt8} (hptr : ptr ≠ .x) (hq : q.toNat ≤ 63) (hstore : store < 2)
    (hw : word
      = UInt16.ofNat (store * 512 + Encoding.displaced r ptr q.toNat)) :
    decode? word next
      = some (if store = 0 then .ldd r ptr q else .std ptr q r) := by
  have hr := r.toNat_lt
  have hy : (if ptr = .y then 8 else 0) = (if ptr = .y then 1 else 0) * 8 := by
    split <;> rfl
  have hy' : (if ptr = .y then 1 else 0) < 2 := by split <;> decide
  rw [Encoding.displaced, Encoding.register, hy] at hw
  obtain ⟨h0, h3, h4, h9, h10, h12, h13, h14, -⟩ := holds_of_eq_pack
    [(3, q.toNat % 8), (1, if ptr = .y then 1 else 0), (5, r.toNat),
      (1, store), (2, q.toNat / 8 % 4), (1, 0), (1, q.toNat / 32 % 2), (2, 2)]
    hw (by simp only [pack]; omega) rfl (by simp; omega)
  simp only [Nat.reduceAdd] at h3 h4 h9 h10 h12 h13 h14
  have hread : displaced word.toNat
      = if store = 0 then .ldd r ptr q else .std ptr q r := by
    have hq' : UInt8.ofNat (field word.toNat 13 1 * 32
        + field word.toNat 10 2 * 8 + field word.toNat 0 3) = q :=
      ofNat_eq_byte (by omega)
    have hptr' : (if field word.toNat 3 1 = 1 then Pointer.y else .z)
        = ptr := by
      rw [h3]
      cases ptr <;> simp at hptr ⊢
    simp only [displaced, hq', hptr', h9, register_eq h4]
  -- bit 13 belongs to the displacement, so the top four bits have two values
  have hcut := field_cut word.toNat 12 1 3
  have hcut' := field_cut word.toNat 13 1 2
  simp only [Nat.reduceAdd, h12, h13, h14] at hcut hcut'
  have htop : field word.toNat 12 4 = 8 ∨ field word.toNat 12 4 = 10 := by
    omega
  rcases htop with htop | htop <;> simp only [decode?, htop, hread]

/-- An access to an I/O register; `out` is the bit that makes it a write. -/
theorem decode?_io (out : Nat) {r : Register} {a : UInt8} (ha : a.toNat ≤ 63)
    (hout : out < 2)
    (hw : word = UInt16.ofNat (0xB000 + out * 2048 + Encoding.register r
      + Encoding.ioAddress a.toNat)) :
    decode? word next
      = some (if out = 0 then .input r a else .output a r) := by
  have hr := r.toNat_lt
  rw [Encoding.register, Encoding.ioAddress] at hw
  obtain ⟨h0, h4, h9, h11, h12, -⟩ := holds_of_eq_pack
    [(4, a.toNat % 16), (5, r.toNat), (2, a.toNat / 16 % 4), (1, out),
      (4, 0xB)]
    hw (by simp only [pack]; omega) rfl (by simp; omega)
  simp only [Nat.reduceAdd] at h4 h9 h11 h12
  have ha' : UInt8.ofNat (field word.toNat 9 2 * 16 + field word.toNat 0 4)
      = a :=
    ofNat_eq_byte (by omega)
  simp only [decode?, h12, io, ha', h11, register_eq h4]

/-- A flag set or cleared. -/
theorem decode?_flag {op : FlagOp} {s : UInt8} (hs : s.toNat ≤ 7)
    (hw : word = UInt16.ofNat (Instruction.flag op s).firstWord) :
    decode? word next = some (.flag op s) := by
  have hop : op.code < 2 := by cases op <;> decide
  have hcode : FlagOp.ofCode op.code = op := by cases op <;> rfl
  rw [Instruction.firstWord] at hw
  obtain ⟨h0, h4, h7, h8, h9, h12, -⟩ := holds_of_eq_pack
    [(4, 8), (3, s.toNat % 8), (1, op.code), (1, 0), (3, 2), (4, 9)] hw
    (by simp only [pack]; omega) rfl (by simp; omega)
  simp only [Nat.reduceAdd] at h4 h7 h8 h9 h12
  simp only [decode?, h12, mixed?, h9, single?, h0, h8, flag, h7, hcode,
    reduceIte]
  rw [h4, ofNat_eq_byte (k := s) (by omega)]

/-- A bit of a register, stored, loaded or tested. -/
theorem decode?_registerBit {op : RegisterBitOp} {r : Register} {b : UInt8}
    (hb : b.toNat ≤ 7)
    (hw : word = UInt16.ofNat (Instruction.registerBit op r b).firstWord) :
    decode? word next = some (.registerBit op r b) := by
  have hr := r.toNat_lt
  have hop : op.code < 4 := by cases op <;> decide
  have hcode : RegisterBitOp.ofCode op.code = op := by cases op <;> rfl
  rw [Instruction.firstWord, Encoding.register] at hw
  obtain ⟨h0, h3, h4, h9, h11, h12, -⟩ := holds_of_eq_pack
    [(3, b.toNat % 8), (1, 0), (5, r.toNat), (2, op.code), (1, 1), (4, 0xF)] hw
    (by simp only [pack]; omega) rfl (by simp; omega)
  simp only [Nat.reduceAdd] at h3 h4 h9 h11 h12
  simp only [decode?, h12, high?, h11, h3, h9, hcode, register_eq h4,
    reduceIte]
  rw [h0, ofNat_eq_byte (k := b) (by omega)]

/-- A bit of a low I/O register, set, cleared or tested. -/
theorem decode?_ioBit {op : IoBitOp} {a b : UInt8} (ha : a.toNat ≤ 31)
    (hb : b.toNat ≤ 7)
    (hw : word = UInt16.ofNat (Instruction.ioBit op a b).firstWord) :
    decode? word next = some (.ioBit op a b) := by
  have hop : op.code < 4 := by cases op <;> decide
  have hcode : IoBitOp.ofCode op.code = op := by cases op <;> rfl
  rw [Instruction.firstWord] at hw
  obtain ⟨h0, h3, h8, h10, h12, -⟩ := holds_of_eq_pack
    [(3, b.toNat % 8), (5, a.toNat % 32), (2, op.code), (2, 2), (4, 9)] hw
    (by simp only [pack]; omega) rfl (by simp; omega)
  simp only [Nat.reduceAdd] at h3 h8 h10 h12
  have hread : ioBit word.toNat = .ioBit op a b := by
    rw [ioBit, h8, hcode, h3, h0, ofNat_eq_byte (k := a) (by omega),
      ofNat_eq_byte (k := b) (by omega)]
  have hcut := field_cut word.toNat 9 1 2
  have hlt := field_lt word.toNat 9 1
  simp only [Nat.reduceAdd, h10] at hcut
  have h9 : field word.toNat 9 3 = 4 ∨ field word.toNat 9 3 = 5 := by omega
  rcases h9 with h9 | h9 <;> simp only [decode?, h12, mixed?, h9, hread]

/-- A branch on a flag, within its seven bits. -/
theorem decode?_branch {op : BranchOp} {s : UInt8} {k : Int8}
    (hs : s.toNat ≤ 7) (hk : -64 ≤ k.toInt ∧ k.toInt ≤ 63)
    (hw : word = UInt16.ofNat (Instruction.branch op s k).firstWord) :
    decode? word next = some (.branch op s k) := by
  have hop : op.code < 2 := by cases op <;> decide
  have hcode : BranchOp.ofCode op.code = op := by cases op <;> rfl
  rw [Instruction.firstWord] at hw
  obtain ⟨h0, h3, h10, h11, h12, -⟩ := holds_of_eq_pack
    [(3, s.toNat % 8), (7, (k.toInt % 128).toNat), (1, op.code), (1, 0),
      (4, 0xF)] hw
    (by simp only [pack]; omega) rfl (by simp; omega)
  simp only [Nat.reduceAdd] at h3 h10 h11 h12
  have hread : signExtend 7 (k.toInt % 128).toNat = k.toInt :=
    signExtend_emod 6 (by omega) (by omega)
  simp only [decode?, h12, high?, h11, h10, hcode, h3, hread, Int8.ofInt_toInt]
  rw [h0, ofNat_eq_byte (k := s) (by omega)]

/-- A relative jump or call, within its twelve bits. -/
theorem decode?_relative {op : RelativeOp} {k : Int16}
    (hk : -2048 ≤ k.toInt ∧ k.toInt ≤ 2047)
    (hw : word = UInt16.ofNat (Instruction.relative op k).firstWord) :
    decode? word next = some (.relative op k) := by
  have hop : op.code < 2 := by cases op <;> decide
  rw [Instruction.firstWord] at hw
  obtain ⟨h0, h12, -⟩ := holds_of_eq_pack
    [(12, (k.toInt % 4096).toNat), (4, 12 + op.code)] hw
    (by simp only [pack]; omega) rfl (by simp; omega)
  simp only [Nat.reduceAdd] at h12
  have hext : signExtend 12 (k.toInt % 4096).toNat = k.toInt :=
    signExtend_emod 11 (by omega) (by omega)
  have hread : offset word.toNat = k := by
    rw [offset, h0, hext, Int16.ofInt_toInt]
  cases op <;> simp only [decode?, h12, RelativeOp.code, Nat.reduceAdd, hread]

/-- A long jump or call: the low sixteen bits of the address are the word
behind. -/
theorem decode?_absolute {op : AbsoluteOp} {k : UInt32}
    (hk : k.toNat < 0x400000)
    (hw : word = UInt16.ofNat (Instruction.absolute op k).firstWord) :
    decode? word (UInt16.ofNat (k.toNat % 65536)) = some (.absolute op k) := by
  have hop : op.code < 2 := by cases op <;> decide
  rw [Instruction.firstWord, Encoding.longHigh] at hw
  obtain ⟨h0, h1, h4, h9, h12, -⟩ := holds_of_eq_pack
    [(1, k.toNat / 65536 % 2), (3, 6 + op.code), (5, k.toNat / 65536 % 64 / 2),
      (3, 2), (4, 9)] hw
    (by simp only [pack]; omega) rfl (by simp; omega)
  simp only [Nat.reduceAdd] at h1 h4 h9 h12
  have hread : longAddress word.toNat (UInt16.ofNat (k.toNat % 65536))
      = k := by
    have hsum : (k.toNat / 65536 % 64 / 2 * 2 + k.toNat / 65536 % 2) * 65536
        + k.toNat % 65536
        = k.toNat := by omega
    rw [longAddress, h4, h0,
      UInt16.toNat_ofNat_of_lt' (Nat.mod_lt _ (by decide)), hsum,
      UInt32.ofNat_toNat]
  have hcut := field_cut word.toNat 0 1 3
  simp only [Nat.reduceAdd, h1, h0] at hcut
  -- bit 0 belongs to the address, so the low four bits of each operation have
  -- two values
  cases op with
  | jmp =>
      have hlow : field word.toNat 0 4 = 0xC ∨ field word.toNat 0 4 = 0xD := by
        rw [AbsoluteOp.code] at hcut
        omega
      rcases hlow with hlow
          | hlow <;> simp only [decode?, h12, mixed?, h9, single?, hlow, hread]
  | call =>
      have hlow : field word.toNat 0 4 = 0xE ∨ field word.toNat 0 4 = 0xF := by
        rw [AbsoluteOp.code] at hcut
        omega
      rcases hlow with hlow
          | hlow <;> simp only [decode?, h12, mixed?, h9, single?, hlow, hread]

/-- A round of the cipher, by its number. -/
theorem decode?_des {k : UInt8} (hk : k.toNat ≤ 15)
    (hw : word = UInt16.ofNat (Instruction.des k).firstWord) :
    decode? word next = some (.des k) := by
  rw [Instruction.firstWord] at hw
  obtain ⟨h0, h4, h8, h9, h12, -⟩ := holds_of_eq_pack
    [(4, 0xB), (4, k.toNat % 16), (1, 0), (3, 2), (4, 9)] hw
    (by simp only [pack]; omega) rfl (by simp; omega)
  simp only [Nat.reduceAdd] at h4 h8 h9 h12
  simp only [decode?, h12, mixed?, h9, single?, h0, h8, reduceIte]
  rw [h4, ofNat_eq_byte (k := k) (by omega)]

end Decoding

-- ============================================================ both ways

/-- A word that is no instruction is the only error. -/
theorem decode_eq_ok_iff {word next : Word} {i : Instruction} :
    decode word next = .ok i ↔ decode? word next = some i := by
  unfold decode
  cases decode? word next <;> simp

/-- The word that is written for what a word says. Two words are read but never
written. -/
def Word.preferred (word : Word) : Word :=
  if word = 0x9004 then 0x95C8 else if word = 0x9006 then 0x95D8 else word

namespace Instruction

/-- What the words of an instruction are read as. -/
def reread (i : Instruction) : Except DecodeError Instruction :=
  decode (i.words.getD 0 0) (i.words.getD 1 0)

open Decoding in
/-- The words of an encodable instruction are read as the instruction. -/
theorem reread_of_encodable {i : Instruction} (h : i.Encodable) :
    i.reread = .ok i := by
  refine decode_eq_ok_iff.mpr ?_
  cases i with
  | bare op => cases op <;> rfl
  | binary op d r => exact decode?_binary _ rfl
  | movw d r => exact decode?_movw _ h.1 h.2 rfl
  | muls d r => exact decode?_muls _ h.1 h.2 rfl
  | multiply op d r => exact decode?_multiply _ h.1 h.2 rfl
  | immediate op d k => exact decode?_immediate _ h rfl
  | pair op d k => exact decode?_pair _ h.1 h.2 rfl
  | unary op d => exact decode?_unary _ rfl
  | ld d ptr step => exact decode?_ld _ h rfl
  | st ptr step r => exact decode?_st _ h rfl
  | ldd d ptr q =>
      exact decode?_displaced _ 0 h.1 h.2 (by decide)
        (by simp [words, firstWord])
  | std ptr q r => exact decode?_displaced _ 1 h.1 h.2 (by decide) rfl
  | lds d k => exact decode?_lds rfl
  | sts k r => exact decode?_sts rfl
  | programLoad op d postIncrement => exact decode?_programLoad _ rfl
  | spm postIncrement => cases postIncrement <;> rfl
  | exchange op d => exact decode?_exchange _ rfl
  | input d a => exact decode?_io _ 0 h (by decide) rfl
  | output a r => exact decode?_io _ 1 h (by decide) rfl
  | push r => exact decode?_push _ rfl
  | pop d => exact decode?_pop _ rfl
  | flag op s => exact decode?_flag _ h rfl
  | registerBit op r b => exact decode?_registerBit _ h rfl
  | ioBit op a b => exact decode?_ioBit _ h.1 h.2 rfl
  | branch op s k => exact decode?_branch _ h.1 h.2 rfl
  | relative op k => exact decode?_relative _ h rfl
  | absolute op k => exact decode?_absolute h rfl
  | des k => exact decode?_des _ h rfl

/-- What is read can be written. -/
theorem encodable_of_decode {word next : Word} {i : Instruction}
    (h : decode word next = .ok i) :
    i.Encodable :=
  (Decoding.restores_decode? (decode_eq_ok_iff.mp h)).encodable

/-- An instruction comes back from its words exactly if it is encodable. -/
theorem reread_eq_ok_iff (i : Instruction) : i.reread = .ok i ↔ i.Encodable :=
  ⟨encodable_of_decode, reread_of_encodable⟩

/-- What is read is written as the words it was read from, in their preferred
spelling. -/
theorem words_of_decode {word next : Word} {i : Instruction}
    (h : decode word next = .ok i) :
    i.words = if i.width = 1 then [word.preferred] else [word, next] := by
  by_cases hlpm : word = 0x9004
  · subst hlpm
    cases h
    rfl
  by_cases helpm : word = 0x9006
  · subst helpm
    cases h
    rfl
  obtain ⟨-, hfirst, hsecond⟩ :=
    Decoding.restores_decode? (decode_eq_ok_iff.mp h)
  have hword : UInt16.ofNat i.firstWord = word := by
    rcases hfirst with hfirst | ⟨hw, -⟩ | ⟨hw, -⟩
    · rw [hfirst, UInt16.ofNat_toNat]
    · exact absurd (UInt16.toNat_inj.mp hw) hlpm
    · exact absurd (UInt16.toNat_inj.mp hw) helpm
  have hlength := i.length_words
  rw [Word.preferred, if_neg hlpm, if_neg helpm]
  rw [words, hword] at hlength ⊢
  cases hs : i.secondWord? with
  | none =>
      have hwidth : 1 = i.width := by rwa [hs] at hlength
      rw [if_pos hwidth.symm]
      rfl
  | some k =>
      have hwidth : 2 = i.width := by rwa [hs] at hlength
      rw [if_neg (by omega), hsecond k hs]
      rfl

end Instruction

-- =============================================================== inverse

/-- Reading and writing are inverse to each other on the encodable
instructions, which are the ones that can be read. -/
theorem encoding_and_decoding_inverse :
    (∀ i : Instruction, (∃ word next, decode word next = .ok i) ↔ i.Encodable)
      ∧ (∀ i : Instruction, i.Encodable →
        i.words.length = i.width ∧ i.reread = .ok i)
      ∧ ∀ (word next : Word) (i : Instruction), decode word next = .ok i →
        i.words = if i.width = 1 then [word.preferred] else [word, next] := by
  refine ⟨fun i => ⟨?_, ?_⟩, ?_, ?_⟩
  · rintro ⟨word, next, h⟩
    exact Instruction.encodable_of_decode h
  · intro h
    exact ⟨_, _, Instruction.reread_of_encodable h⟩
  · intro i h
    exact ⟨i.length_words, Instruction.reread_of_encodable h⟩
  · intro word next i h
    exact Instruction.words_of_decode h

/-- A load that is read from the word it is not written as, and a call at the
end of the memory. -/
theorem encoding_and_decoding_inverse_programLoad :
    (decode 0x9004 0 = .ok (.programLoad .lpm (.ofNat 0) false)
        ∧ (Instruction.programLoad .lpm (.ofNat 0) false).words = [0x95C8])
      ∧ (Instruction.absolute .call 0x3FFFFF).Encodable
      ∧ (Instruction.absolute .call 0x3FFFFF).reread
        = .ok (.absolute .call 0x3FFFFF) :=
  ⟨⟨rfl, encoding_and_decoding_inverse.2.2 0x9004 0 _ rfl⟩, by decide,
    (encoding_and_decoding_inverse.2.1 (.absolute .call 0x3FFFFF)
      (by decide)).2⟩

end AvrFirmware
