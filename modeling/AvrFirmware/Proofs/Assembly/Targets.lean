/-
What a label means to those who run the program.

# From the operand to the flow

A branch, jump or call to a label is built from the label's address, as
an offset from the following instruction or as it is. Whichever it is,
the flow of the instruction resolves to that address again
(`Form.destination_of_build`): the range checks keep the offset from
being cut, and the size of the program keeps the address from it.

# From the definition to the statement

The instruction is read where the second pass has put its words
(`Laid.exists_decodeAt`), and the label's address is where the first
statement behind its definition has been put (`Laid.marks`). Lines that
hold labels only take no words, so nothing comes in between.
-/
import AvrFirmware.Proofs.Assembly.Layout
import AvrFirmware.Proofs.Image.Placement

namespace AvrFirmware

namespace Assembly

-- ============================================================ transfers

/-- The ways of going somewhere else. -/
inductive Transfer where
  | branch
  | jump
  | call
  deriving DecidableEq

namespace Transfer

/-- The mnemonics of the statements that take a destination. -/
def mnemonics : Transfer → List String
  | branch =>
      ["brbs", "brbc"] ++ BranchOp.names .brbs ++ BranchOp.names .brbc
        ++ ["brlo", "brsh"]
  | jump => ["rjmp", "jmp"]
  | call => ["rcall", "call"]

/-- The target in a flow of this kind. -/
def target? : Transfer → Flow → Option Target
  | branch, .branch offset => some (.relative offset)
  | jump, .jump target => some target
  | call, .call target => some target
  | _, _ => none

end Transfer

namespace Form

/-- The way a form goes somewhere else, if it does and takes a destination. -/
def transfer? : Form → Option Transfer
  | branch _ => some .branch
  | namedBranch _ _ => some .branch
  | relative .rjmp => some .jump
  | relative .rcall => some .call
  | absolute .jmp => some .jump
  | absolute .call => some .call
  | _ => none

end Form

/-- Every mnemonic of a transfer has a form that transfers. -/
theorem Transfer.exists_form {t : Transfer} {mnemonic : String}
    (h : mnemonic ∈ t.mnemonics) :
    ∃ form, Form.ofMnemonic? mnemonic = some form
      ∧ form.transfer? = some t := by
  have hall : ∀ m ∈ t.mnemonics,
      (Form.ofMnemonic? m).bind Form.transfer? = some t := by
    cases t <;> decide +kernel
  exact Option.bind_eq_some_iff.mp (hall mnemonic h)

-- =============================================================== labels

namespace Operand

variable {site : Site} {name : String}

/-- A label has the address it was laid out at, or none. -/
theorem address_eq_ok_iff {a : Nat} :
    site.address name = .ok a ↔ site.labels[name]? = some a := by
  rw [Site.address, Std.TreeMap.get?_eq_getElem?]
  cases site.labels[name]? <;> simp

/-- An offset to a label is counted from behind the instruction. -/
theorem asOffset_label_eq_ok {n : Int}
    (h : (label name).asOffset site = .ok n) :
    ∃ a : Nat, site.labels[name]? = some a ∧ n = a - (site.pc + 1) := by
  obtain ⟨n, hn, rfl⟩ := map_eq_ok.mp h
  obtain ⟨a, ha, hcast⟩ := bind_eq_ok.mp hn
  rw [← pure_eq_ok.mp hcast]
  exact ⟨a, address_eq_ok_iff.mp ha, rfl⟩

/-- Bounds leave that offset as it is. -/
theorem within_offset_label {low high n : Int}
    (h : (label name).asOffset site >>= within low high = .ok n) :
    (low ≤ n ∧ n ≤ high)
      ∧ ∃ a : Nat, site.labels[name]? = some a ∧ n = a - (site.pc + 1) := by
  obtain ⟨words, hwords, hwithin⟩ := bind_eq_ok.mp h
  obtain ⟨hbounds, rfl⟩ := within_eq_ok.mp hwithin
  exact ⟨hbounds, asOffset_label_eq_ok hwords⟩

/-- The offset of a branch to a label is not cut. -/
theorem asShortOffset_label_eq_ok {k : Int8}
    (h : (label name).asShortOffset site = .ok k) :
    ∃ a : Nat, site.labels[name]? = some a ∧ k.toInt = a - (site.pc + 1) := by
  obtain ⟨n, hn, rfl⟩ := map_eq_ok.mp h
  obtain ⟨hbounds, hlabel⟩ := within_offset_label hn
  rwa [Int8.toInt_ofInt_of_le (by omega) (by omega)]

/-- Nor is the one of a relative jump or call. -/
theorem asLongOffset_label_eq_ok {k : Int16}
    (h : (label name).asLongOffset site = .ok k) :
    ∃ a : Nat, site.labels[name]? = some a ∧ k.toInt = a - (site.pc + 1) := by
  obtain ⟨n, hn, rfl⟩ := map_eq_ok.mp h
  obtain ⟨hbounds, hlabel⟩ := within_offset_label hn
  rwa [Int16.toInt_ofInt_of_le (by omega) (by omega)]

/-- A long jump or call takes the address of the label, in thirty-two bits. -/
theorem asAddress_label_eq_ok {k : UInt32}
    (h : (label name).asAddress site = .ok k) :
    ∃ a : Nat, site.labels[name]? = some a ∧ k = UInt32.ofNat a := by
  obtain ⟨a, ha, rfl⟩ := map_eq_ok.mp h
  exact ⟨a, address_eq_ok_iff.mp ha, rfl⟩

end Operand

/-- An offset from the following instruction leads to the address it was
measured to. -/
theorem resolve_offset {pc a : Nat} {offset : Int}
    (ha : a < Target.addressLimit) (hoffset : offset = a - (pc + 1)) :
    (Target.relative offset).resolve (pc + 1) = some a := by
  have hsum : ((pc + 1 : Nat) : Int) + offset = a := by
    push_cast
    omega
  rw [Target.resolve, hsum, if_pos ⟨by omega, by omega⟩, Int.toNat_natCast]

namespace Form

variable {site : Site} {os : List Operand} {i : Instruction} {form : Form}

theorem twoOperands_eq_ok {p : Operand × Operand}
    (h : twoOperands os = .ok p) :
    os = [p.1, p.2] := by
  unfold twoOperands at h
  split at h
  · cases h
    rfl
  · cases h

/-- A label among the operands of a one-operand form is that operand. -/
theorem oneOperand_eq_label {o : Operand} {name : String}
    (h : oneOperand os = .ok o) (hname : .label name ∈ os) :
    o = .label name := by
  rw [oneOperand_eq_ok.mp h, List.mem_singleton] at hname
  exact hname.symm

/-- A transfer to a label goes to the label's address. -/
theorem destination_of_build {t : Transfer} {name : String}
    (hlabels : ∀ (name : String) (a : Nat), site.labels[name]? = some a →
      a < Target.addressLimit)
    (hform : form.transfer? = some t)
    (h : form.build site os = .ok i) (hname : .label name ∈ os) :
    ∃ a, site.labels[name]? = some a
      ∧ (t.target? i.flow).bind (Target.resolve (site.pc + i.width))
        = some a := by
  cases form with
  | branch op =>
      cases hform
      simp only [build, bind_eq_ok, pure_eq_ok] at h
      obtain ⟨⟨x, y⟩, hxy, s, hs, k, hk, rfl⟩ := h
      rw [twoOperands_eq_ok hxy, List.mem_pair] at hname
      rcases hname with rfl | rfl
      · -- the flag of a branch is a number
        cases hs
      · obtain ⟨a, ha, hoffset⟩ := Operand.asShortOffset_label_eq_ok hk
        exact ⟨a, ha, resolve_offset (hlabels name a ha) hoffset⟩
  | namedBranch op s =>
      cases hform
      simp only [build, bind_eq_ok, pure_eq_ok] at h
      obtain ⟨o, ho, k, hk, rfl⟩ := h
      rw [oneOperand_eq_label ho hname] at hk
      obtain ⟨a, ha, hoffset⟩ := Operand.asShortOffset_label_eq_ok hk
      exact ⟨a, ha, resolve_offset (hlabels name a ha) hoffset⟩
  | relative op =>
      simp only [build, bind_eq_ok, pure_eq_ok] at h
      obtain ⟨o, ho, k, hk, rfl⟩ := h
      rw [oneOperand_eq_label ho hname] at hk
      obtain ⟨a, ha, hoffset⟩ := Operand.asLongOffset_label_eq_ok hk
      have hresolve := resolve_offset (hlabels name a ha) hoffset
      refine ⟨a, ha, ?_⟩
      cases op <;> cases hform <;> exact hresolve
  | absolute op =>
      simp only [build, bind_eq_ok, pure_eq_ok] at h
      obtain ⟨o, ho, k, hk, rfl⟩ := h
      rw [oneOperand_eq_label ho hname] at hk
      obtain ⟨a, ha, rfl⟩ := Operand.asAddress_label_eq_ok hk
      have haddress : (UInt32.ofNat a).toNat = a :=
        UInt32.toNat_ofNat_of_lt' (hlabels name a ha)
      refine ⟨a, ha, ?_⟩
      cases op <;> cases hform <;> exact congrArg some haddress
  | _ => cases hform

end Form

/-- With all labels in the program memory, what is built is encodable. -/
theorem encodable_of_build {site : Site} {mnemonic : String}
    {os : List Operand} {i : Instruction}
    (hlabels : ∀ (name : String) (a : Nat), site.labels[name]? = some a →
      a < 0x400000)
    (h : build site mnemonic os = .ok i) : i.Encodable := by
  unfold build at h
  split at h
  · next form hform =>
      have hlisted := Form.listed_of_mem_table _
        (Form.mem_table_of_ofMnemonic? hform)
      rcases Form.encodable_of_build hlisted h with hi
          | ⟨op, name, a, rfl, rfl, ha, rfl⟩
      · exact hi
      · rw [Std.TreeMap.get?_eq_getElem?] at ha
        have hlt := hlabels name a ha
        rw [Instruction.Encodable,
          UInt32.toNat_ofNat_of_lt' (Nat.lt_trans hlt (by decide))]
        exact hlt
  · cases h

-- =========================================================== statements

/-- Where a label points: to the start of the first statement behind its
definition, which can be on the same line, or to the end of the program if no
statement follows. -/
inductive Marks (lines : List Line) (chunks : List (List Word)) (p : Program)
    (name : String) :
    Nat → Prop where
  | statement {k n : Nat} {line first : Line} (hline : lines[k]? = some line)
      (hname : name ∈ line.labels) (hle : k ≤ n)
      (hfirst : lines[n]? = some first) (hsome : first.statement ≠ none)
      (hbetween : ∀ (m : Nat) (other : Line), k ≤ m → m < n →
        lines[m]? = some other → other.statement = none) :
      Marks lines chunks p name (startOf chunks n)
  | programEnd {k : Nat} {line : Line} (hline : lines[k]? = some line)
      (hname : name ∈ line.labels)
      (hbehind : ∀ (m : Nat) (other : Line), k ≤ m → lines[m]? = some other →
        other.statement = none) : Marks lines chunks p name p.words.size

namespace Laid

variable {lines : List Line} {chunks : List (List Word)} {p : Program}

/-- The instruction of a statement is read where the statement was put. -/
theorem exists_decodeAt (h : Laid lines chunks p)
    (hsize : p.words.size < 0x400000) {k : Nat} {line : Line}
    {mnemonic : String} {os : List Operand} (hline : lines[k]? = some line)
    (hstatement : line.statement = some (.instruction mnemonic os)) :
    ∃ i, build ⟨startOf chunks k, p.labels⟩ mnemonic os = .ok i
      ∧ p.image.decodeAt (startOf chunks k) = .ok i := by
  obtain ⟨ws, hws⟩ := h.exists_chunk hline
  have hyields := h.yields k line ws hline hws
  cases hyields with
  | nothing hnone => cases hstatement.symm.trans hnone
  | data hdata => cases hstatement.symm.trans hdata
  | @instruction mnemonic' os' i hsome hbuild =>
      cases hstatement.symm.trans hsome
      refine ⟨i, hbuild, Image.decodeAt_of_words ?_ ?_⟩
      · refine encodable_of_build (fun name a ha => ?_) hbuild
        exact Nat.lt_of_le_of_lt (h.label_le ha) hsize
      · intro n w hw
        rw [Program.image, Image.word?_ofWords, h.words_eq]
        exact getElem?_flatten_startOf hws hw

/-- Lines without statements take no words. -/
theorem startOf_eq_of_none (h : Laid lines chunks p) {k n : Nat} (hle : k ≤ n)
    (hn : n ≤ lines.length)
    (hnone : ∀ (m : Nat) (other : Line), k ≤ m → m < n →
      lines[m]? = some other → other.statement = none) :
    startOf chunks n = startOf chunks k := by
  induction n, hle using Nat.le_induction with
  | base => rfl
  | succ n hle ih =>
      have hbefore := ih (by omega) fun m other hkm hmn =>
        hnone m other hkm (by omega)
      have hline := List.getElem?_eq_getElem (show n < lines.length by omega)
      obtain ⟨ws, hws⟩ := h.exists_chunk hline
      have hlength := (h.yields n _ ws hline hws).length_eq
      rw [Line.width, hnone n _ hle (Nat.lt_succ_self n) hline] at hlength
      rw [startOf_succ hws, hlength, Nat.add_zero, hbefore]

/-- A label stands for the address of what follows its definition. -/
theorem marks (h : Laid lines chunks p) {k : Nat} {line : Line} {name : String}
    (hline : lines[k]? = some line) (hname : name ∈ line.labels) :
    Marks lines chunks p name (startOf chunks k) := by
  classical
  by_cases hfollow : ∃ n, k ≤ n ∧ ∃ first, lines[n]? = some first
    ∧ first.statement ≠ none
  · obtain ⟨hle, first, hfirst, hsome⟩ := Nat.find_spec hfollow
    have hbetween : ∀ (m : Nat) (other : Line), k ≤ m → m < Nat.find hfollow →
        lines[m]? = some other → other.statement = none := by
      intro m other hkm hmn hother
      by_contra hstatement
      exact Nat.find_min hfollow hmn ⟨hkm, other, hother, hstatement⟩
    have hlt := (List.getElem?_eq_some_iff.mp hfirst).1
    rw [← h.startOf_eq_of_none hle hlt.le hbetween]
    exact .statement hline hname hle hfirst hsome hbetween
  · have hbehind : ∀ (m : Nat) (other : Line), k ≤ m → lines[m]? = some other →
        other.statement = none := by
      intro m other hkm hother
      by_contra hstatement
      exact hfollow ⟨m, hkm, other, hother, hstatement⟩
    have hlt := (List.getElem?_eq_some_iff.mp hline).1
    have hend : p.words.size = startOf chunks lines.length := by
      rw [h.size_words, startOf, ← h.length_eq, List.take_length]
    rw [← h.startOf_eq_of_none hlt.le (Nat.le_refl _) fun m other hkm _ =>
      hbehind m other hkm, ← hend]
    exact .programEnd hline hname hbehind

/-- A label marks the place of the line it stands on. -/
theorem marks_of_label (h : Laid lines chunks p) {name : String} {a : Nat}
    (ha : p.labels[name]? = some a) : Marks lines chunks p name a := by
  obtain ⟨k, line, hline, hname⟩ := h.exists_definition ha
  cases ha.symm.trans (h.placed k line hline name hname)
  exact h.marks hline hname

end Laid

/-- A label operand means the same to the assembler and to whoever follows the
program. The statement is read as a branch, jump or call, as its mnemonic says,
and goes to the address of the first statement behind the label's
definition. -/
theorem labels_resolve_to_statements {source : String} {p : Program}
    (h : Program.assemble source = .ok p) (hsize : p.words.size < 0x400000) :
    ∃ lines chunks, Line.parseAll source = .ok lines ∧ Laid lines chunks p
      ∧ ∀ (k : Nat) (line : Line) (mnemonic : String) (os : List Operand)
          (t : Transfer) (name : String), lines[k]? = some line →
        line.statement = some (.instruction mnemonic os) →
        mnemonic ∈ t.mnemonics →
        .label name ∈ os →
          ∃ i a, p.image.decodeAt (startOf chunks k) = .ok i
            ∧ (t.target? i.flow).bind
                (Target.resolve (startOf chunks k + i.width)) = some a
            ∧ Marks lines chunks p name a := by
  obtain ⟨lines, chunks, hlines, hlaid⟩ := laid_of_assemble h
  refine ⟨lines, chunks, hlines, hlaid, ?_⟩
  intro k line mnemonic os t name hline hstatement hmnemonic hname
  obtain ⟨i, hbuild, hdecode⟩ := hlaid.exists_decodeAt hsize hline hstatement
  obtain ⟨form, hform, htransfer⟩ := Transfer.exists_form hmnemonic
  have hlabels : ∀ (name : String) (a : Nat), p.labels[name]? = some a →
      a < Target.addressLimit := by
    intro name a ha
    exact Nat.lt_of_le_of_lt (hlaid.label_le ha) (hsize.trans (by decide))
  rw [build, hform] at hbuild
  obtain ⟨a, ha, hresolve⟩ :=
    Form.destination_of_build hlabels htransfer hbuild hname
  exact ⟨i, a, hdecode, hresolve, hlaid.marks_of_label ha⟩

/-- A loop with a branch to its end, where no statement follows, and a jump
back. -/
theorem labels_resolve_to_statements_loop :
    ∃ p, Program.assemble "loop: brne done\ncall loop\nRJMP loop\ndone:"
        = .ok p
      ∧ p.words = #[0xF419, 0x940E, 0, 0xCFFC]
      ∧ ∃ lines chunks, Laid lines chunks p
        ∧ (∃ i a, p.image.decodeAt (startOf chunks 0) = .ok i
          ∧ (Transfer.branch.target? i.flow).bind
              (Target.resolve (startOf chunks 0 + i.width)) = some a
          ∧ Marks lines chunks p "done" a)
        ∧ ∃ i a, p.image.decodeAt (startOf chunks 2) = .ok i
          ∧ (Transfer.jump.target? i.flow).bind
              (Target.resolve (startOf chunks 2 + i.width)) = some a
          ∧ Marks lines chunks p "loop" a := by
  have hwords : Program.words
      <$> Program.assemble "loop: brne done\ncall loop\nRJMP loop\ndone:"
      = .ok #[0xF419, 0x940E, 0, 0xCFFC] := by decide +kernel
  have hlines : Line.parseAll "loop: brne done\ncall loop\nRJMP loop\ndone:"
      = .ok [⟨1, ["loop"], some (.instruction "brne" [.label "done"])⟩,
        ⟨2, [], some (.instruction "call" [.label "loop"])⟩,
        ⟨3, [], some (.instruction "rjmp" [.label "loop"])⟩,
        ⟨4, ["done"], none⟩] := by
    decide +kernel
  obtain ⟨p, hp, hwords⟩ := map_eq_ok.mp hwords
  have hsize : p.words.size < 0x400000 := by
    rw [hwords]
    decide
  obtain ⟨lines, chunks, hparse, hlaid, htargets⟩ :=
    labels_resolve_to_statements hp hsize
  cases hlines.symm.trans hparse
  exact ⟨p, hp, hwords, _, chunks, hlaid,
    htargets 0 _ "brne" [.label "done"] .branch "done" rfl rfl (by decide)
      (by decide),
    htargets 2 _ "rjmp" [.label "loop"] .jump "loop" rfl rfl (by decide)
      (by decide)⟩

end Assembly

end AvrFirmware
