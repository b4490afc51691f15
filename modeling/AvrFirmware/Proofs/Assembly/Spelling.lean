/-
Printed instructions are statements.

# Operands

`Denotes text o` says that the text is read as the operand `o` when a
comma or the end of the line follows. Every way the printer has to write
an operand is looked at once: registers, pointers, displacements,
constants in both bases, offsets.

# Statements

`States text mnemonic os` says the same of a line without labels. An
instruction that fits into its words is printed as such a line, and what
the line asks for is built as that instruction again
(`restates_text`). Where it is placed and which labels there are makes no
difference, since printed operands name none.
-/
import AvrFirmware.Proofs.Assembly.Lexing
import AvrFirmware.Proofs.Assembly.Range
import AvrFirmware.Assembly.Line

namespace AvrFirmware

namespace Assembly

-- ============================================================== operands

/-- Tokens that neither end a line nor close a label. -/
def Token.isInner : Token → Bool
  | newline => false
  | colon => false
  | _ => true

/-- A text is read as some tokens, and none of them ends a line or closes a
label. -/
structure Inner (text : List Char) (ts : List Token) : Prop where
  reads : Reads text ts
  inner : ∀ t ∈ ts, t.isInner = true

/-- A text is read as an operand before a comma and at the end of a line. -/
def Denotes (text : String) (o : Operand) : Prop :=
  ∃ ts, Inner text.toList ts
    ∧ ∀ rest, (∀ t ∈ rest.head?, t = .comma) →
      operand (ts ++ rest) = .ok (o, rest)

/-- The numbers that are printed are far from the largest numeral. -/
theorem le_numeralLimit {n : Nat} (h : n < 2 ^ 40) : n ≤ numeralLimit :=
  (Nat.le_of_lt h).trans (by decide)

/-- A register is read from its name. -/
theorem denotes_register (r : Register) : Denotes r.text (.register r) := by
  have hnames : ∀ n : Fin 32, isName (Register.text ⟨n⟩) = true
      ∧ registerName? (Register.text ⟨n⟩) = some ⟨n⟩ := by decide +kernel
  obtain ⟨hname, hregister⟩ := hnames r.index
  refine ⟨[.identifier r.text], ⟨reads_name hname, by simp [Token.isInner]⟩,
    ?_⟩
  intro rest _
  rw [List.singleton_append, operand, nameOperand, hregister]

/-- The letters of the pointers are names to the lexer. -/
theorem isName_pointer (ptr : Pointer) : isName ptr.name = true := by
  cases ptr <;> decide

/-- The letter of a pointer is not taken for a register or a label. -/
theorem nameOperand_pointer (ptr : Pointer) (rest : List Token) :
    nameOperand ptr.name rest = pointerOperand ptr rest := by
  cases ptr <;> rfl

/-- A pointer before a comma or the end of a line has no step. -/
theorem pointerOperand_plain {ptr : Pointer} {rest : List Token}
    (hrest : ∀ t ∈ rest.head?, t = .comma) :
    pointerOperand ptr rest = (.pointer ptr .plain, rest) := by
  unfold pointerOperand
  split
  · cases hrest _ rfl
  · cases hrest _ rfl
  · rfl

/-- A plus sign before a comma or the end of a line is a post-increment, not a
displacement. -/
theorem pointerOperand_plus {ptr : Pointer} {rest : List Token}
    (hrest : ∀ t ∈ rest.head?, t = .comma) :
    pointerOperand ptr (.plus :: rest)
      = (.pointer ptr .postIncrement, rest) := by
  unfold pointerOperand
  split
  · next h =>
      cases h
      cases hrest _ rfl
  · next h =>
      cases h
      rfl
  · next h => exact absurd rfl (h rest)

/-- A pointer with its step before or behind it. -/
theorem denotes_pointer (ptr : Pointer) (step : PointerStep) :
    Denotes (step.text ptr) (.pointer ptr step) := by
  have hname := reads_name (isName_pointer ptr)
  cases step with
  | plain =>
      refine ⟨[.identifier ptr.name], ⟨hname, by simp [Token.isInner]⟩, ?_⟩
      intro rest hrest
      rw [List.singleton_append, operand, nameOperand_pointer,
        pointerOperand_plain hrest]
  | postIncrement =>
      have hplus : Reads ['+'] [.plus] := Reads.cons rfl reads_nil
      refine ⟨[.identifier ptr.name, .plus], ⟨?_, by simp [Token.isInner]⟩, ?_⟩
      · rw [PointerStep.text, String.toList_append]
        exact hname.append hplus (detached_cons rfl)
      · intro rest hrest
        rw [List.cons_append, List.singleton_append, operand,
          nameOperand_pointer, pointerOperand_plus hrest]
  | preDecrement =>
      refine ⟨[.minus, .identifier ptr.name], ⟨?_, by simp [Token.isInner]⟩,
        ?_⟩
      · rw [PointerStep.text, String.toList_append]
        exact Reads.cons rfl hname
      · intro rest _
        cases ptr <;> rfl

/-- A pointer, a plus sign and a number of bytes. -/
theorem denotes_displacement (ptr : Pointer) {q : Nat}
    (hq : q ≤ numeralLimit) :
    Denotes (ptr.name ++ "+" ++ Numeral.decimal q) (.displacement ptr q) := by
  have hplus : Reads ('+' :: (Numeral.decimal q).toList)
      [.plus, .number .decimal q] :=
    Reads.cons rfl (reads_decimal hq)
  refine ⟨[.identifier ptr.name, .plus, .number .decimal q],
    ⟨?_, by simp [Token.isInner]⟩, ?_⟩
  · rw [String.append_assoc, String.toList_append, String.toList_append]
    exact (reads_name (isName_pointer ptr)).append hplus (detached_cons rfl)
  · intro rest _
    rw [List.cons_append, operand, nameOperand_pointer]
    rfl

theorem denotes_decimal {n : Nat} (hn : n ≤ numeralLimit) :
    Denotes (Numeral.decimal n) (.number n) :=
  ⟨[.number .decimal n], ⟨reads_decimal hn, by simp [Token.isInner]⟩,
    fun _ _ => rfl⟩

/-- A constant in hexadecimal, whatever its width. -/
theorem denotes_hexText (width : Nat) {n : Nat} (hn : n ≤ numeralLimit) :
    Denotes (Instruction.hexText width n) (.number n) := by
  refine ⟨[.number .hexadecimal n], ⟨?_, by simp [Token.isInner]⟩,
    fun _ _ => rfl⟩
  rw [Instruction.hexText, String.toList_append]
  exact reads_hex width hn

/-- An offset is printed in bytes, with its sign behind a dot. -/
theorem denotes_offsetText {k : Int} (hk : (k * 2).natAbs ≤ numeralLimit) :
    Denotes (Instruction.offsetText k) (.relative (k * 2)) := by
  have hnumber := reads_decimal hk
  rw [Instruction.offsetText]
  split
  · next hneg =>
      have hoffset : (-1) * ((k * 2).natAbs : Int) = k * 2 := by omega
      refine ⟨[.dot, .minus, .number .decimal (k * 2).natAbs],
        ⟨?_, by simp [Token.isInner]⟩, ?_⟩
      · rw [String.toList_append]
        exact Reads.dot rfl (Reads.cons rfl hnumber)
      · intro rest _
        exact congrArg (fun bytes => Except.ok (Operand.relative bytes, rest))
          hoffset
  · next hpos =>
      have hoffset : 1 * ((k * 2).natAbs : Int) = k * 2 := by omega
      refine ⟨[.dot, .plus, .number .decimal (k * 2).natAbs],
        ⟨?_, by simp [Token.isInner]⟩, ?_⟩
      · rw [String.toList_append]
        exact Reads.dot rfl (Reads.cons rfl hnumber)
      · intro rest _
        exact congrArg (fun bytes => Except.ok (Operand.relative bytes, rest))
          hoffset

-- ============================================================ statements

/-- A text is read as a mnemonic with operands. -/
def States (text mnemonic : String) (os : List Operand) : Prop :=
  ∃ ts, Reads text.toList (.identifier mnemonic :: ts)
    ∧ (∀ t ∈ ts, t.isInner = true)
    ∧ operands ts = .ok os

/-- An operand at the end of the line is the last. -/
theorem operandsFrom_last {ts : List Token} {o : Operand} (done : List Operand)
    (h : operand ts = .ok (o, [])) :
    operandsFrom done ts = .ok (o :: done).reverse := by
  rw [operandsFrom]
  split <;> simp_all

/-- Behind a comma the next operand is read. -/
theorem operandsFrom_comma {ts rest : List Token} {o : Operand}
    (done : List Operand) (h : operand ts = .ok (o, .comma :: rest)) :
    operandsFrom done ts = operandsFrom (o :: done) rest := by
  rw [operandsFrom]
  split <;> simp_all

/-- Operands with commas between them are read one after the other. -/
theorem operandsFrom_intercalate {texts : List String} {os : List Operand}
    (h : List.Forall₂ Denotes texts os) (hne : texts ≠ []) :
    ∃ ts, Inner (", ".intercalate texts).toList ts
      ∧ ∀ done, operandsFrom done ts = .ok (done.reverse ++ os) := by
  induction h with
  | nil => exact absurd rfl hne
  | @cons text o texts os htext htexts ih =>
      obtain ⟨ts, ⟨hreads, hinner⟩, hoperand⟩ := htext
      by_cases hlast : texts = []
      · subst hlast
        cases htexts
        refine ⟨ts, ?_, ?_⟩
        · rw [String.intercalate_singleton]
          exact ⟨hreads, hinner⟩
        · intro done
          have h := hoperand [] (by simp)
          rw [List.append_nil] at h
          rw [operandsFrom_last done h, List.reverse_cons]
      · obtain ⟨ts', ⟨hreads', hinner'⟩, hoperands⟩ := ih hlast
        refine ⟨ts ++ .comma :: ts', ⟨?_, ?_⟩, ?_⟩
        · rw [String.intercalate_cons_of_ne_nil hlast, String.append_assoc,
            String.toList_append, String.toList_append]
          exact hreads.append (Reads.cons rfl hreads'.space)
            (detached_cons rfl)
        · intro t ht
          rcases List.mem_append.mp ht with ht | ht
          · exact hinner t ht
          · rcases List.mem_cons.mp ht with rfl | ht
            · rfl
            · exact hinner' t ht
        · intro done
          rw [operandsFrom_comma done (hoperand (.comma :: ts') (by simp)),
            hoperands, List.reverse_cons, List.append_assoc,
            List.singleton_append]

/-- Every mnemonic is a name in lower case. -/
theorem Form.lower_name_of_mem_table :
    ∀ e ∈ table, isName e.1 = true ∧ e.1.toLower = e.1 := by
  decide +kernel

/-- A mnemonic with the texts of its operands states those operands. -/
theorem states_line {mnemonic : String} {form : Form} {texts : List String}
    {os : List Operand} (hform : Form.ofMnemonic? mnemonic = some form)
    (h : List.Forall₂ Denotes texts os) (hne : texts ≠ []) :
    States (Instruction.line mnemonic texts) mnemonic os := by
  obtain ⟨hname, -⟩ :=
    Form.lower_name_of_mem_table _ (Form.mem_table_of_ofMnemonic? hform)
  obtain ⟨ts, ⟨hreads, hinner⟩, hoperands⟩ := operandsFrom_intercalate h hne
  refine ⟨ts, ?_, hinner, ?_⟩
  · rw [Instruction.line, String.append_assoc, String.toList_append,
      String.toList_append]
    exact (reads_name hname).append hreads.space (detached_cons rfl)
  · have hos := hoperands []
    unfold operands
    split
    · rw [operandsFrom] at hos
      cases hos
    · exact hos

/-- A mnemonic alone states no operands. -/
theorem states_mnemonic {mnemonic : String} {form : Form}
    (hform : Form.ofMnemonic? mnemonic = some form) :
    States mnemonic mnemonic [] := by
  obtain ⟨hname, -⟩ :=
    Form.lower_name_of_mem_table _ (Form.mem_table_of_ofMnemonic? hform)
  exact ⟨[], reads_name hname, by simp, rfl⟩

-- ============================================================= rebuilding

namespace Operand

/-- A byte within its bounds is accepted as itself. -/
theorem asByte_number (low high : Int) {k : UInt8} (hlow : low ≤ 0)
    (hk : (k.toNat : Int) ≤ high) :
    asByte low high (.number k.toNat) = .ok k := by
  have hlt := k.toNat_lt
  have hbyte : UInt8.ofNat ((k.toNat : Int) % 256).toNat = k := by
    have hmod : ((k.toNat : Int) % 256).toNat = k.toNat := by omega
    rw [hmod, UInt8.ofNat_toNat]
  rw [asByte, asNumber, map_eq_ok]
  exact ⟨k.toNat, within_eq_ok.mpr ⟨⟨by omega, hk⟩, rfl⟩, hbyte⟩

/-- Every address of sixteen bits is accepted. -/
theorem asDataAddress_number (k : UInt16) :
    asDataAddress (.number k.toNat) = .ok k := by
  have hlt := k.toNat_lt
  rw [asDataAddress, asNumber, map_eq_ok]
  exact ⟨k.toNat, within_eq_ok.mpr ⟨⟨by omega, by omega⟩, rfl⟩,
    UInt16.ofNat_toNat⟩

/-- A displacement is accepted behind Y or Z, up to 63. -/
theorem asDisplacement_displacement {ptr : Pointer} {q : UInt8}
    (hptr : ptr ≠ .x) (hq : q.toNat ≤ 63) :
    asDisplacement (.displacement ptr q.toNat) = .ok (ptr, q) := by
  have hwithin : within 0 63 q.toNat = .ok q.toNat :=
    within_eq_ok.mpr ⟨⟨by omega, by omega⟩, rfl⟩
  cases ptr with
  | x => exact absurd rfl hptr
  | y | z =>
      rw [asDisplacement, hwithin]
      · exact congrArg (fun n => Except.ok (_, n)) UInt8.ofNat_toNat
      · simp

/-- An offset in bytes is one of half as many words, at whatever site. -/
theorem asOffset_relative (site : Site) (k : Int) :
    asOffset site (.relative (k * 2)) = .ok k := by
  rw [asOffset, if_pos (by omega)]
  exact congrArg _ (Int.mul_ediv_cancel k (by decide))

/-- A branch accepts what its seven bits hold. -/
theorem asShortOffset_relative (site : Site) {k : Int8}
    (hk : -64 ≤ k.toInt ∧ k.toInt ≤ 63) :
    asShortOffset site (.relative (k.toInt * 2)) = .ok k := by
  have hoffset := asOffset_relative site k.toInt
  have hwithin := within_eq_ok.mpr ⟨hk, rfl⟩
  rw [asShortOffset, map_eq_ok]
  exact ⟨k.toInt, bind_eq_ok.mpr ⟨k.toInt, hoffset, hwithin⟩,
    Int8.ofInt_toInt k⟩

/-- A relative jump or call accepts what its twelve bits hold. -/
theorem asLongOffset_relative (site : Site) {k : Int16}
    (hk : -2048 ≤ k.toInt ∧ k.toInt ≤ 2047) :
    asLongOffset site (.relative (k.toInt * 2)) = .ok k := by
  have hoffset := asOffset_relative site k.toInt
  have hwithin := within_eq_ok.mpr ⟨hk, rfl⟩
  rw [asLongOffset, map_eq_ok]
  exact ⟨k.toInt, bind_eq_ok.mpr ⟨k.toInt, hoffset, hwithin⟩,
    Int16.ofInt_toInt k⟩

/-- A long jump or call accepts a byte address within the program memory. -/
theorem asAddress_number (site : Site) {k : UInt32} (hk : k.toNat < 0x400000) :
    asAddress site (.number (k.toNat * 2 : Nat)) = .ok k := by
  rw [asAddress, if_pos (by omega), map_eq_ok]
  have hhalf : (((k.toNat * 2 : Nat) : Int) / 2).toNat = k.toNat := by omega
  refine ⟨(k.toNat * 2 : Nat), within_eq_ok.mpr ⟨⟨by omega, by omega⟩, rfl⟩,
    ?_⟩
  rw [hhalf, UInt32.ofNat_toNat]

end Operand

/-- A text is a statement that builds an instruction, wherever it is placed. -/
def Restates (text : String) (i : Instruction) : Prop :=
  ∃ mnemonic os, States text mnemonic os ∧ mnemonic.toLower = mnemonic
    ∧ ∀ site, build site mnemonic os = .ok i

/-- A line restates an instruction if its form builds the instruction from what
the line states. -/
theorem restates_line {mnemonic : String} {form : Form} {texts : List String}
    {os : List Operand} {i : Instruction}
    (hform : Form.ofMnemonic? mnemonic = some form)
    (h : List.Forall₂ Denotes texts os) (hne : texts ≠ [])
    (hbuild : ∀ site, form.build site os = .ok i) :
    Restates (Instruction.line mnemonic texts) i := by
  obtain ⟨-, hlower⟩ :=
    Form.lower_name_of_mem_table _ (Form.mem_table_of_ofMnemonic? hform)
  refine ⟨mnemonic, os, states_line hform h hne, hlower, ?_⟩
  intro site
  rw [build, hform]
  exact hbuild site

theorem restates_mnemonic {mnemonic : String} {form : Form} {i : Instruction}
    (hform : Form.ofMnemonic? mnemonic = some form)
    (hbuild : ∀ site, form.build site [] = .ok i) :
    Restates mnemonic i := by
  obtain ⟨-, hlower⟩ :=
    Form.lower_name_of_mem_table _ (Form.mem_table_of_ofMnemonic? hform)
  refine ⟨mnemonic, [], states_mnemonic hform, hlower, ?_⟩
  intro site
  rw [build, hform]
  exact hbuild site

theorem restates_one {mnemonic text : String} {form : Form} {o : Operand}
    {i : Instruction} (hform : Form.ofMnemonic? mnemonic = some form)
    (ho : Denotes text o) (hbuild : ∀ site, form.build site [o] = .ok i) :
    Restates (Instruction.line mnemonic [text]) i :=
  restates_line hform (.cons ho .nil) (List.cons_ne_nil _ _) hbuild

theorem restates_two {mnemonic text text' : String} {form : Form}
    {o o' : Operand} {i : Instruction}
    (hform : Form.ofMnemonic? mnemonic = some form) (ho : Denotes text o)
    (ho' : Denotes text' o')
    (hbuild : ∀ site, form.build site [o, o'] = .ok i) :
    Restates (Instruction.line mnemonic [text, text']) i :=
  restates_line hform (.cons ho (.cons ho' .nil)) (List.cons_ne_nil _ _) hbuild

/-- A constant of eight bits in hexadecimal. -/
theorem denotes_hexText_byte (k : UInt8) :
    Denotes (Instruction.hexText 2 k.toNat) (.number k.toNat) :=
  denotes_hexText 2 (le_numeralLimit (k.toNat_lt.trans (by decide)))

/-- A constant of eight bits in decimal. -/
theorem denotes_decimal_byte (k : UInt8) :
    Denotes (Numeral.decimal k.toNat) (.number k.toNat) :=
  denotes_decimal (le_numeralLimit (k.toNat_lt.trans (by decide)))

/-- The pointer of the accesses to program memory. -/
theorem denotes_zText (postIncrement : Bool) :
    Denotes (Instruction.zText postIncrement)
      (.pointer .z (if postIncrement then .postIncrement else .plain)) := by
  cases postIncrement with
  | false => exact denotes_pointer .z .plain
  | true => exact denotes_pointer .z .postIncrement

/-- A pair is written as its lower register, which is even. -/
theorem restates_movw {d r : Register} (h : (Instruction.movw d r).Encodable) :
    Restates (Instruction.movw d r).text (.movw d r) := by
  refine restates_two (rfl : Form.ofMnemonic? "movw" = some .movw)
    (denotes_register d)
    (denotes_register r) fun site => ?_
  have hd := evenRegister_eq_ok.mpr ⟨h.1, rfl⟩
  have hr := evenRegister_eq_ok.mpr ⟨h.2, rfl⟩
  simp only [Form.build, bind_eq_ok, pure_eq_ok]
  exact ⟨(d, r), rfl, d, hd, r, hr, rfl⟩

/-- Registers of the upper half pass the bounds of a signed product. -/
theorem restates_muls {d r : Register} (h : (Instruction.muls d r).Encodable) :
    Restates (Instruction.muls d r).text (.muls d r) := by
  refine restates_two (rfl : Form.ofMnemonic? "muls" = some .muls)
    (denotes_register d)
    (denotes_register r) fun site => ?_
  have hd := registerWithin_eq_ok.mpr
    ⟨⟨h.1, Nat.le_of_lt_succ d.toNat_lt⟩, rfl⟩
  have hr := registerWithin_eq_ok.mpr
    ⟨⟨h.2, Nat.le_of_lt_succ r.toNat_lt⟩, rfl⟩
  simp only [Form.build, bind_eq_ok, pure_eq_ok]
  exact ⟨(d, r), rfl, d, hd, r, hr, rfl⟩

/-- Registers from 16 to 23 pass the bounds of the other products. -/
theorem restates_multiply {op : MultiplyOp} {d r : Register}
    (h : (Instruction.multiply op d r).Encodable) :
    Restates (Instruction.multiply op d r).text (.multiply op d r) := by
  have hform : Form.ofMnemonic? op.mnemonic = some (.multiply op) := by
    cases op <;> rfl
  refine restates_two hform (denotes_register d) (denotes_register r)
    fun site => ?_
  have hd := registerWithin_eq_ok.mpr ⟨h.1, rfl⟩
  have hr := registerWithin_eq_ok.mpr ⟨h.2, rfl⟩
  simp only [Form.build, bind_eq_ok, pure_eq_ok]
  exact ⟨(d, r), rfl, d, hd, r, hr, rfl⟩

/-- A register of the upper half and any byte. -/
theorem restates_immediate {op : ImmediateOp} {d : Register} {k : UInt8}
    (h : (Instruction.immediate op d k).Encodable) :
    Restates (Instruction.immediate op d k).text (.immediate op d k) := by
  have hform : Form.ofMnemonic? op.mnemonic = some (.immediate op) := by
    cases op <;> rfl
  refine restates_two hform (denotes_register d) (denotes_hexText_byte k)
    fun site => ?_
  have hlt := k.toNat_lt
  have hd := registerWithin_eq_ok.mpr ⟨⟨h, Nat.le_of_lt_succ d.toNat_lt⟩, rfl⟩
  have hk := Operand.asByte_number (-128) 255 (k := k) (by decide) (by omega)
  simp only [Form.build, upperImmediate, bind_eq_ok, pure_eq_ok]
  exact ⟨(d, k), ⟨_, rfl, d, ⟨d, rfl, hd⟩, k, hk, rfl⟩, rfl⟩

/-- One of the four upper pairs and a constant up to 63. -/
theorem restates_pair {op : PairOp} {d : Register} {k : UInt8}
    (h : (Instruction.pair op d k).Encodable) :
    Restates (Instruction.pair op d k).text (.pair op d k) := by
  have hform : Form.ofMnemonic? op.mnemonic = some (.pair op) := by
    cases op <;> rfl
  obtain ⟨⟨hlow, heven⟩, hk⟩ := h
  refine restates_two hform (denotes_register d) (denotes_decimal_byte k)
    fun site => ?_
  have hlt := d.toNat_lt
  have hd : pairRegister op.mnemonic d = .ok d :=
    pairRegister_eq_ok.mpr ⟨by omega, rfl⟩
  have hk := Operand.asByte_number 0 63 (k := k) (by decide) (by omega)
  simp only [Form.build, bind_eq_ok, pure_eq_ok]
  exact ⟨_, rfl, d, ⟨d, rfl, hd⟩, k, hk, rfl⟩

/-- The forms of a load that are printed with a step, or through X. -/
theorem restates_ld {d : Register} {ptr : Pointer} {step : PointerStep}
    (h : (Instruction.ld d ptr step).Encodable) :
    Restates (Instruction.ld d ptr step).text (.ld d ptr step) := by
  refine restates_two (rfl : Form.ofMnemonic? "ld" = some .ld)
    (denotes_register d)
    (denotes_pointer ptr step) fun site => ?_
  have hload : loadThrough d (ptr, step) = .ld d ptr step := by
    cases ptr <;> cases step <;> simp_all [Instruction.Encodable, loadThrough]
  exact congrArg Except.ok hload

/-- The forms of a store that are printed with a step, or through X. -/
theorem restates_st {r : Register} {ptr : Pointer} {step : PointerStep}
    (h : (Instruction.st ptr step r).Encodable) :
    Restates (Instruction.st ptr step r).text (.st ptr step r) := by
  refine restates_two (rfl : Form.ofMnemonic? "st" = some .st)
    (denotes_pointer ptr step)
    (denotes_register r) fun site => ?_
  have hstore : storeThrough r (ptr, step) = .st ptr step r := by
    cases ptr <;> cases step <;> simp_all [Instruction.Encodable, storeThrough]
  exact congrArg Except.ok hstore

/-- A load at a displacement; at displacement zero it is printed as a plain
load. -/
theorem restates_ldd {d : Register} {ptr : Pointer} {q : UInt8}
    (h : (Instruction.ldd d ptr q).Encodable) :
    Restates (Instruction.ldd d ptr q).text (.ldd d ptr q) := by
  obtain ⟨hptr, hq⟩ := h
  rw [Instruction.text]
  split
  · next hzero =>
      -- without a displacement the text is that of a load through the pointer
      -- alone
      have hq0 : q = 0 := UInt8.toNat_inj.mp hzero
      subst hq0
      refine restates_two (rfl : Form.ofMnemonic? "ld" = some .ld)
        (denotes_register d)
        (denotes_pointer ptr .plain) fun site => ?_
      cases ptr with
      | x => exact absurd rfl hptr
      | y | z => rfl
  · refine restates_two (rfl : Form.ofMnemonic? "ldd" = some .ldd)
      (denotes_register d)
      (denotes_displacement ptr
        (le_numeralLimit (q.toNat_lt.trans (by decide)))) fun site => ?_
    simp only [Form.build, bind_eq_ok, pure_eq_ok]
    exact ⟨_, rfl, d, rfl, (ptr, q),
      Operand.asDisplacement_displacement hptr hq, rfl⟩

/-- A store at a displacement; at displacement zero it is printed as a plain
store. -/
theorem restates_std {r : Register} {ptr : Pointer} {q : UInt8}
    (h : (Instruction.std ptr q r).Encodable) :
    Restates (Instruction.std ptr q r).text (.std ptr q r) := by
  obtain ⟨hptr, hq⟩ := h
  rw [Instruction.text]
  split
  · next hzero =>
      have hq0 : q = 0 := UInt8.toNat_inj.mp hzero
      subst hq0
      refine restates_two (rfl : Form.ofMnemonic? "st" = some .st)
        (denotes_pointer ptr .plain)
        (denotes_register r) fun site => ?_
      cases ptr with
      | x => exact absurd rfl hptr
      | y | z => rfl
  · refine restates_two (rfl : Form.ofMnemonic? "std" = some .std)
      (denotes_displacement ptr
        (le_numeralLimit (q.toNat_lt.trans (by decide))))
      (denotes_register r) fun site => ?_
    simp only [Form.build, bind_eq_ok, pure_eq_ok]
    exact ⟨_, rfl, (ptr, q), Operand.asDisplacement_displacement hptr hq, r,
      rfl, rfl⟩

/-- An address of sixteen bits in hexadecimal. -/
theorem denotes_hexText_address (k : UInt16) :
    Denotes (Instruction.hexText 4 k.toNat) (.number k.toNat) :=
  denotes_hexText 4 (le_numeralLimit (k.toNat_lt.trans (by decide)))

theorem restates_lds (d : Register) (k : UInt16) :
    Restates (Instruction.lds d k).text (.lds d k) := by
  refine restates_two (rfl : Form.ofMnemonic? "lds" = some .lds)
    (denotes_register d)
    (denotes_hexText_address k) fun site => ?_
  simp only [Form.build, bind_eq_ok, pure_eq_ok]
  exact ⟨_, rfl, d, rfl, k, Operand.asDataAddress_number k, rfl⟩

theorem restates_sts (k : UInt16) (r : Register) :
    Restates (Instruction.sts k r).text (.sts k r) := by
  refine restates_two (rfl : Form.ofMnemonic? "sts" = some .sts)
    (denotes_hexText_address k)
    (denotes_register r) fun site => ?_
  simp only [Form.build, bind_eq_ok, pure_eq_ok]
  exact ⟨_, rfl, k, Operand.asDataAddress_number k, r, rfl, rfl⟩

/-- The plain load into r0 is printed without operands, every other load with
them. -/
theorem restates_programLoad (op : ProgramLoadOp) (d : Register)
    (postIncrement : Bool) :
    Restates (Instruction.programLoad op d postIncrement).text
      (.programLoad op d postIncrement) := by
  have hform : Form.ofMnemonic? op.mnemonic = some (.programLoad op) := by
    cases op <;> rfl
  rw [Instruction.text]
  split
  · next hdefault =>
      obtain ⟨hd, rfl⟩ := hdefault
      have hd0 : Register.ofNat 0 = d := by rw [← hd, Register.ofNat_toNat]
      subst hd0
      exact restates_mnemonic hform fun _ => rfl
  · refine restates_two hform (denotes_register d)
      (denotes_zText postIncrement) fun site => ?_
    cases postIncrement <;> rfl

/-- A store to program memory has its pointer printed only if it moves. -/
theorem restates_spm (postIncrement : Bool) :
    Restates (Instruction.spm postIncrement).text (.spm postIncrement) := by
  have hform : Form.ofMnemonic? "spm" = some .spm := rfl
  cases postIncrement with
  | false => exact restates_mnemonic hform fun _ => rfl
  | true =>
      have htext : (Instruction.spm true).text
          = Instruction.line "spm" ["Z+"] := by decide +kernel
      rw [htext]
      exact restates_one hform (denotes_pointer .z .postIncrement) fun _ => rfl

/-- An I/O address is printed in hexadecimal and is at most 63. -/
theorem restates_input {d : Register} {a : UInt8}
    (h : (Instruction.input d a).Encodable) :
    Restates (Instruction.input d a).text (.input d a) := by
  refine restates_two (rfl : Form.ofMnemonic? "in" = some .input)
    (denotes_register d)
    (denotes_hexText_byte a) fun site => ?_
  simp only [Form.build, bind_eq_ok, pure_eq_ok]
  exact ⟨_, rfl, d, rfl, a,
    Operand.asByte_number 0 63 (by decide) (Int.ofNat_le.mpr h), rfl⟩

theorem restates_output {a : UInt8} {r : Register}
    (h : (Instruction.output a r).Encodable) :
    Restates (Instruction.output a r).text (.output a r) := by
  refine restates_two (rfl : Form.ofMnemonic? "out" = some .output)
    (denotes_hexText_byte a)
    (denotes_register r) fun site => ?_
  simp only [Form.build, bind_eq_ok, pure_eq_ok]
  exact ⟨_, rfl, a,
    Operand.asByte_number 0 63 (by decide) (Int.ofNat_le.mpr h), r, rfl, rfl⟩

/-- A flag has mnemonics of its own, set and cleared, and no operand. -/
theorem restates_flag {op : FlagOp} {s : UInt8}
    (h : (Instruction.flag op s).Encodable) :
    Restates (Instruction.flag op s).text (.flag op s) := by
  have hforms : ∀ n < 8,
      Form.ofMnemonic? (op.name n) = some (.namedFlag op (UInt8.ofNat n)) := by
    cases op <;> decide
  have hform := hforms s.toNat (Nat.lt_succ_of_le h)
  rw [UInt8.ofNat_toNat] at hform
  exact restates_mnemonic hform fun _ => rfl

/-- A register and the number of a bit. -/
theorem restates_registerBit {op : RegisterBitOp} {r : Register} {b : UInt8}
    (h : (Instruction.registerBit op r b).Encodable) :
    Restates (Instruction.registerBit op r b).text (.registerBit op r b) := by
  have hform : Form.ofMnemonic? op.mnemonic = some (.registerBit op) := by
    cases op <;> rfl
  refine restates_two hform (denotes_register r) (denotes_decimal_byte b)
    fun site => ?_
  simp only [Form.build, bind_eq_ok, pure_eq_ok]
  exact ⟨_, rfl, r, rfl, b,
    Operand.asByte_number 0 7 (by decide) (Int.ofNat_le.mpr h), rfl⟩

/-- A low I/O address and the number of a bit. -/
theorem restates_ioBit {op : IoBitOp} {a b : UInt8}
    (h : (Instruction.ioBit op a b).Encodable) :
    Restates (Instruction.ioBit op a b).text (.ioBit op a b) := by
  have hform : Form.ofMnemonic? op.mnemonic = some (.ioBit op) := by
    cases op <;> rfl
  refine restates_two hform (denotes_hexText_byte a) (denotes_decimal_byte b)
    fun site => ?_
  have ha := Operand.asByte_number 0 31 (by decide) (Int.ofNat_le.mpr h.1)
  have hb := Operand.asByte_number 0 7 (by decide) (Int.ofNat_le.mpr h.2)
  simp only [Form.build, bind_eq_ok, pure_eq_ok]
  exact ⟨_, rfl, a, ha, b, hb, rfl⟩

/-- A branch has a mnemonic for each flag and state, and an offset in bytes. -/
theorem restates_branch {op : BranchOp} {s : UInt8} {k : Int8}
    (h : (Instruction.branch op s k).Encodable) :
    Restates (Instruction.branch op s k).text (.branch op s k) := by
  obtain ⟨hs, hk⟩ := h
  have hforms : ∀ n < 8, Form.ofMnemonic? (op.name n)
      = some (.namedBranch op (UInt8.ofNat n)) := by
    cases op <;> decide
  have hform := hforms s.toNat (Nat.lt_succ_of_le hs)
  rw [UInt8.ofNat_toNat] at hform
  refine restates_one hform (denotes_offsetText (le_numeralLimit (by omega)))
    fun site => ?_
  simp only [Form.build, bind_eq_ok, pure_eq_ok]
  exact ⟨_, rfl, k, Operand.asShortOffset_relative site hk, rfl⟩

/-- A relative jump or call has its offset in bytes. -/
theorem restates_relative {op : RelativeOp} {k : Int16}
    (h : (Instruction.relative op k).Encodable) :
    Restates (Instruction.relative op k).text (.relative op k) := by
  have hform : Form.ofMnemonic? op.mnemonic = some (.relative op) := by
    cases op <;> rfl
  have hk : -2048 ≤ k.toInt ∧ k.toInt ≤ 2047 := h
  refine restates_one hform (denotes_offsetText (le_numeralLimit (by omega)))
    fun site => ?_
  simp only [Form.build, bind_eq_ok, pure_eq_ok]
  exact ⟨_, rfl, k, Operand.asLongOffset_relative site hk, rfl⟩

/-- A long jump or call has its address in bytes, which is twice the address in
words. -/
theorem restates_absolute {op : AbsoluteOp} {k : UInt32}
    (h : (Instruction.absolute op k).Encodable) :
    Restates (Instruction.absolute op k).text (.absolute op k) := by
  have hform : Form.ofMnemonic? op.mnemonic = some (.absolute op) := by
    cases op <;> rfl
  have hk : k.toNat < 0x400000 := h
  refine restates_one hform (denotes_hexText 1 (le_numeralLimit (by omega)))
    fun site => ?_
  simp only [Form.build, bind_eq_ok, pure_eq_ok]
  exact ⟨_, rfl, k, Operand.asAddress_number site hk, rfl⟩

theorem restates_des {k : UInt8} (h : (Instruction.des k).Encodable) :
    Restates (Instruction.des k).text (.des k) := by
  refine restates_one (rfl : Form.ofMnemonic? "des" = some .des)
    (denotes_decimal_byte k)
    fun site => ?_
  simp only [Form.build, bind_eq_ok, pure_eq_ok]
  exact ⟨_, rfl, k,
    Operand.asByte_number 0 15 (by decide) (Int.ofNat_le.mpr h), rfl⟩

/-- An instruction that fits into its words is printed as a statement that
builds it. -/
theorem restates_text {i : Instruction} (h : i.Encodable) :
    Restates i.text i := by
  cases i with
  | bare op =>
      have hform : Form.ofMnemonic? op.mnemonic = some (.bare op) := by
        cases op <;> rfl
      exact restates_mnemonic hform fun _ => rfl
  | binary op d r =>
      have hform : Form.ofMnemonic? op.mnemonic = some (.binary op) := by
        cases op <;> rfl
      exact restates_two hform (denotes_register d) (denotes_register r)
        fun _ => rfl
  | unary op d =>
      have hform : Form.ofMnemonic? op.mnemonic = some (.unary op) := by
        cases op <;> rfl
      exact restates_one hform (denotes_register d) fun _ => rfl
  | exchange op d =>
      have hform : Form.ofMnemonic? op.mnemonic = some (.exchange op) := by
        cases op <;> rfl
      exact restates_two hform (denotes_pointer .z .plain) (denotes_register d)
        fun _ => rfl
  | push r =>
      exact restates_one (rfl : Form.ofMnemonic? "push" = some .push)
        (denotes_register r)
        fun _ => rfl
  | pop d =>
      exact restates_one (rfl : Form.ofMnemonic? "pop" = some .pop)
        (denotes_register d)
        fun _ => rfl
  | movw d r => exact restates_movw h
  | muls d r => exact restates_muls h
  | multiply op d r => exact restates_multiply h
  | immediate op d k => exact restates_immediate h
  | pair op d k => exact restates_pair h
  | ld d ptr step => exact restates_ld h
  | st ptr step r => exact restates_st h
  | ldd d ptr q => exact restates_ldd h
  | std ptr q r => exact restates_std h
  | lds d k => exact restates_lds d k
  | sts k r => exact restates_sts k r
  | programLoad op d postIncrement =>
      exact restates_programLoad op d postIncrement
  | spm postIncrement => exact restates_spm postIncrement
  | input d a => exact restates_input h
  | output a r => exact restates_output h
  | flag op s => exact restates_flag h
  | registerBit op r b => exact restates_registerBit h
  | ioBit op a b => exact restates_ioBit h
  | branch op s k => exact restates_branch h
  | relative op k => exact restates_relative h
  | absolute op k => exact restates_absolute h
  | des k => exact restates_des h

end Assembly

end AvrFirmware
