/-
What the readings of operands let through.

Writing an instruction cuts every operand to the bits its word has, so an
operand that does not fit has to be refused before. Each reading is
summed up by one lemma that says what a value it accepts is like, and a
form is then looked at through these lemmas alone: what it builds is
encodable (`Form.encodable_of_build`).

# Labels as addresses

One way into a field is not looked at. A jump or call to a number is
checked against the program memory and a branch to a label against its
reach, but a jump or call to a label takes the address as it is. From the
end of the program memory on the upper bits are lost, and the words go to
the address without them (`reread_absolute`).
-/
import AvrFirmware.Proofs.Instruction.Codec
import AvrFirmware.Assembly.Building

namespace AvrFirmware

namespace Assembly

/-- A chain of readings succeeds if each of them does. -/
theorem bind_eq_ok {ε α β : Type} {x : Except ε α} {f : α → Except ε β}
    {b : β} :
    x >>= f = .ok b ↔ ∃ a, x = .ok a ∧ f a = .ok b := by
  cases x <;> simp [bind, Except.bind]

theorem map_eq_ok {ε α β : Type} {x : Except ε α} {f : α → β} {b : β} :
    f <$> x = .ok b ↔ ∃ a, x = .ok a ∧ f a = b := by
  cases x <;> simp [Functor.map, Except.map]

theorem pure_eq_ok {ε α : Type} {a b : α} :
    (pure a : Except ε α) = .ok b ↔ a = b := by
  simp [pure, Except.pure]

-- ============================================================= readings

/-- A number between its bounds is let through as it is. -/
theorem within_eq_ok {low high n m : Int} :
    within low high n = .ok m ↔ (low ≤ n ∧ n ≤ high) ∧ n = m := by
  unfold within
  split <;> simp_all

/-- A register between its bounds is let through as it is. -/
theorem registerWithin_eq_ok {low high : Nat} {r s : Register} :
    registerWithin low high r = .ok s
      ↔ (low ≤ r.toNat ∧ r.toNat ≤ high) ∧ r = s := by
  unfold registerWithin
  split <;> simp_all

/-- A pair is named by its even register. -/
theorem evenRegister_eq_ok {r s : Register} :
    evenRegister r = .ok s ↔ r.toNat % 2 = 0 ∧ r = s := by
  unfold evenRegister
  split <;> simp_all

/-- The four upper pairs are let through, and no other register. -/
theorem pairRegister_eq_ok {mnemonic : String} {r s : Register} :
    pairRegister mnemonic r = .ok s ↔
      (r.toNat = 24 ∨ r.toNat = 26 ∨ r.toNat = 28 ∨ r.toNat = 30) ∧ r = s := by
  unfold pairRegister
  split <;> simp_all

/-- A list of exactly one operand is let through. -/
theorem oneOperand_eq_ok {os : List Operand} {o : Operand} :
    oneOperand os = .ok o ↔ os = [o] := by
  unfold oneOperand
  split <;> simp_all

namespace Operand

variable {o : Operand} {site : Site}

/-- A number that is read lies between its bounds. -/
theorem asNumber_bounds {low high n : Int} (h : o.asNumber low high = .ok n) :
    low ≤ n ∧ n ≤ high := by
  cases o with
  | number m =>
      obtain ⟨hm, rfl⟩ := within_eq_ok.mp h
      exact hm
  | _ => cases h

/-- A byte that is read is at most its bound, without wrapping. -/
theorem asByte_le {high : Nat} {b : UInt8} (hhigh : high ≤ 255)
    (h : o.asByte 0 high = .ok b) :
    b.toNat ≤ high := by
  obtain ⟨n, hn, rfl⟩ := map_eq_ok.mp h
  have := asNumber_bounds hn
  rw [UInt8.toNat_ofNat']
  omega

/-- A displacement has six bits, and X takes none. -/
theorem asDisplacement_bounds {ptr : Pointer} {q : UInt8}
    (h : o.asDisplacement = .ok (ptr, q)) :
    ptr ≠ .x ∧ q.toNat ≤ 63 := by
  cases o with
  | displacement ptr' n =>
      cases ptr' with
      | x => cases h
      | y | z =>
          obtain ⟨m, hm, heq⟩ := map_eq_ok.mp h
          obtain ⟨hbounds, rfl⟩ := within_eq_ok.mp hm
          cases heq
          refine ⟨by decide, ?_⟩
          rw [UInt8.toNat_ofNat']
          omega
  | _ => cases h

/-- A branch reaches as far as its seven bits, to a label or by an offset. -/
theorem asShortOffset_bounds {k : Int8} (h : o.asShortOffset site = .ok k) :
    -64 ≤ k.toInt ∧ k.toInt ≤ 63 := by
  obtain ⟨n, hn, rfl⟩ := map_eq_ok.mp h
  obtain ⟨words, -, hwords⟩ := bind_eq_ok.mp hn
  obtain ⟨hbounds, rfl⟩ := within_eq_ok.mp hwords
  rwa [Int8.toInt_ofInt_of_le (by omega) (by omega)]

/-- A relative jump or call reaches as far as its twelve bits. -/
theorem asLongOffset_bounds {k : Int16} (h : o.asLongOffset site = .ok k) :
    -2048 ≤ k.toInt ∧ k.toInt ≤ 2047 := by
  obtain ⟨n, hn, rfl⟩ := map_eq_ok.mp h
  obtain ⟨words, -, hwords⟩ := bind_eq_ok.mp hn
  obtain ⟨hbounds, rfl⟩ := within_eq_ok.mp hwords
  rwa [Int16.toInt_ofInt_of_le (by omega) (by omega)]

/-- An address is in the program memory, unless it is taken from a label. -/
theorem asAddress_cases {k : UInt32} (h : o.asAddress site = .ok k) :
    k.toNat < 0x400000
      ∨ ∃ name a, o = .label name ∧ site.labels.get? name = some a
        ∧ k = UInt32.ofNat a := by
  cases o with
  | label name =>
      obtain ⟨a, ha, rfl⟩ := map_eq_ok.mp h
      unfold Site.address at ha
      split at ha
      · next pc hpc =>
          cases ha
          exact .inr ⟨name, a, rfl, hpc, rfl⟩
      · cases ha
  | number n =>
      simp only [asAddress] at h
      split at h
      · obtain ⟨m, hm, rfl⟩ := map_eq_ok.mp h
        obtain ⟨hbounds, rfl⟩ := within_eq_ok.mp hm
        left
        rw [UInt32.toNat_ofNat']
        omega
      · cases h
  | _ => cases h

end Operand

-- ================================================================ forms

namespace Form

/-- What the table of mnemonics sees to: a flag that a name stands for is one
there is, and a long transfer goes by its own name. -/
def Listed (mnemonic : String) : Form → Prop
  | namedFlag _ s => s.toNat ≤ 7
  | namedBranch _ s => s.toNat ≤ 7
  | absolute op => mnemonic = op.mnemonic
  | _ => True

instance (mnemonic : String) (form : Form) :
    Decidable (form.Listed mnemonic) := by
  unfold Listed
  split <;> infer_instance

/-- Every row of the table has a mnemonic that its form goes with. -/
theorem listed_of_mem_table : ∀ e ∈ table, e.2.Listed e.1 := by
  decide

/-- A form that is found is one of the table. -/
theorem mem_table_of_ofMnemonic? {mnemonic : String} {form : Form}
    (h : ofMnemonic? mnemonic = some form) : (mnemonic, form) ∈ table := by
  obtain ⟨before, after, htable, -⟩ := List.lookup_eq_some_iff.mp h
  rw [htable]
  exact List.mem_append_right before List.mem_cons_self

variable {site : Site} {mnemonic : String} {os : List Operand}
  {i : Instruction} {form : Form}

/-- A plain load through Y or Z is built as a load at displacement zero, which
has a word. -/
theorem encodable_loadThrough (d : Register) (p : Pointer × PointerStep) :
    (loadThrough d p).Encodable := by
  obtain ⟨ptr, step⟩ := p
  cases ptr <;> cases step <;> simp [loadThrough, Instruction.Encodable]

theorem encodable_storeThrough (r : Register) (p : Pointer × PointerStep) :
    (storeThrough r p).Encodable := by
  obtain ⟨ptr, step⟩ := p
  cases ptr <;> cases step <;> simp [storeThrough, Instruction.Encodable]

/-- Constants go with a register of the upper half. -/
theorem upperImmediate_bounds {d : Register} {k : UInt8}
    (h : upperImmediate os = .ok (d, k)) :
    16 ≤ d.toNat := by
  simp only [upperImmediate, bind_eq_ok, pure_eq_ok] at h
  obtain ⟨ab, -, d', ⟨d'', -, hd⟩, k', -, heq⟩ := h
  obtain ⟨hbounds, rfl⟩ := registerWithin_eq_ok.mp hd
  cases heq
  exact hbounds.1

/-- What a form builds is encodable, unless it takes an address from a
label. -/
theorem encodable_of_build (hform : form.Listed mnemonic)
    (h : form.build site os = .ok i) :
    i.Encodable ∨ ∃ op name a, form = .absolute op ∧ os = [.label name]
      ∧ site.labels.get? name = some a
      ∧ i = .absolute op (UInt32.ofNat a) := by
  cases form <;> simp only [build, bind_eq_ok, pure_eq_ok] at h
  case absolute op =>
    obtain ⟨o, ho, k, hk, rfl⟩ := h
    rcases Operand.asAddress_cases hk with hlt | ⟨name, a, rfl, ha, rfl⟩
    · exact .inl hlt
    · exact .inr ⟨op, name, a, rfl, oneOperand_eq_ok.mp ho, ha, rfl⟩
  all_goals left
  case bare | namedFlag =>
    obtain ⟨-, -, rfl⟩ := h
    exact hform
  case binary | doubled | unary | push | pop =>
    obtain ⟨-, -, rfl⟩ := h
    trivial
  case movw =>
    obtain ⟨p, -, d, hd, r, hr, rfl⟩ := h
    obtain ⟨hd', rfl⟩ := evenRegister_eq_ok.mp hd
    obtain ⟨hr', rfl⟩ := evenRegister_eq_ok.mp hr
    exact ⟨hd', hr'⟩
  case muls =>
    obtain ⟨p, -, d, hd, r, hr, rfl⟩ := h
    obtain ⟨hd', rfl⟩ := registerWithin_eq_ok.mp hd
    obtain ⟨hr', rfl⟩ := registerWithin_eq_ok.mp hr
    exact ⟨hd'.1, hr'.1⟩
  case multiply =>
    obtain ⟨p, -, d, hd, r, hr, rfl⟩ := h
    obtain ⟨hd', rfl⟩ := registerWithin_eq_ok.mp hd
    obtain ⟨hr', rfl⟩ := registerWithin_eq_ok.mp hr
    exact ⟨hd', hr'⟩
  case immediate | clearBits =>
    obtain ⟨⟨d, k⟩, hdk, rfl⟩ := h
    exact upperImmediate_bounds hdk
  case setAll =>
    obtain ⟨d, ⟨d', -, hd⟩, rfl⟩ := h
    obtain ⟨hd', rfl⟩ := registerWithin_eq_ok.mp hd
    exact hd'.1
  case pair =>
    obtain ⟨p, -, d, ⟨d', -, hd⟩, k, hk, rfl⟩ := h
    obtain ⟨hd', rfl⟩ := pairRegister_eq_ok.mp hd
    exact ⟨by omega, Operand.asByte_le (by decide) hk⟩
  case ld =>
    obtain ⟨p, -, d, -, q, -, rfl⟩ := h
    exact encodable_loadThrough ..
  case st =>
    obtain ⟨p, -, r, -, q, -, rfl⟩ := h
    exact encodable_storeThrough ..
  case ldd =>
    obtain ⟨p, -, d, -, ⟨ptr, q⟩, hq, rfl⟩ := h
    exact Operand.asDisplacement_bounds hq
  case std =>
    obtain ⟨p, -, ⟨ptr, q⟩, hq, r, -, rfl⟩ := h
    exact Operand.asDisplacement_bounds hq
  case lds | sts =>
    obtain ⟨p, -, x, -, y, -, rfl⟩ := h
    trivial
  case programLoad =>
    split at h
    · cases h
      trivial
    · simp only [bind_eq_ok, pure_eq_ok] at h
      obtain ⟨p, -, d, -, inc, -, rfl⟩ := h
      trivial
  case spm =>
    split at h
    · cases h
      trivial
    · simp only [bind_eq_ok, pure_eq_ok] at h
      obtain ⟨a, -, inc, -, rfl⟩ := h
      trivial
  case exchange =>
    obtain ⟨p, -, inc, -, h⟩ := h
    split at h
    · cases h
    · simp only [bind_eq_ok, pure_eq_ok] at h
      obtain ⟨d, -, rfl⟩ := h
      trivial
  case input =>
    obtain ⟨p, -, d, -, k, hk, rfl⟩ := h
    exact Operand.asByte_le (by decide) hk
  case output =>
    obtain ⟨p, -, k, hk, r, -, rfl⟩ := h
    exact Operand.asByte_le (by decide) hk
  case flag | des =>
    obtain ⟨a, -, s, hs, rfl⟩ := h
    exact Operand.asByte_le (by decide) hs
  case registerBit =>
    obtain ⟨p, -, r, -, b, hb, rfl⟩ := h
    exact Operand.asByte_le (by decide) hb
  case ioBit =>
    obtain ⟨p, -, k, hk, b, hb, rfl⟩ := h
    exact ⟨Operand.asByte_le (by decide) hk, Operand.asByte_le (by decide) hb⟩
  case branch =>
    obtain ⟨p, -, s, hs, k, hk, rfl⟩ := h
    exact ⟨Operand.asByte_le (by decide) hs, Operand.asShortOffset_bounds hk⟩
  case namedBranch =>
    obtain ⟨a, -, k, hk, rfl⟩ := h
    exact ⟨hform, Operand.asShortOffset_bounds hk⟩
  case relative =>
    obtain ⟨a, -, k, hk, rfl⟩ := h
    exact Operand.asLongOffset_bounds hk

end Form

-- =========================================================== far labels

/-- A jump or call to a label whose address `a` lies behind the program
memory. -/
def FarLabel (site : Site) (mnemonic : String) (os : List Operand)
    (op : AbsoluteOp) (a : Nat) : Prop :=
  mnemonic = op.mnemonic ∧ 0x400000 ≤ a
    ∧ ∃ name, os = [.label name] ∧ site.labels.get? name = some a

/-- The words of a long transfer hold the low 22 bits of its address. -/
theorem reread_absolute (op : AbsoluteOp) (k : UInt32) :
    (Instruction.absolute op k).reread
      = .ok (.absolute op (UInt32.ofNat (k.toNat % 0x400000))) := by
  have hcut : (UInt32.ofNat (k.toNat % 0x400000)).toNat = k.toNat % 0x400000 :=
    UInt32.toNat_ofNat_of_lt'
      (Nat.lt_trans (Nat.mod_lt _ (by decide)) (by decide))
  have hwords : (Instruction.absolute op k).words
      = (Instruction.absolute op
        (UInt32.ofNat (k.toNat % 0x400000))).words := by
    simp only [Instruction.words, Instruction.firstWord,
      Instruction.secondWord?, Encoding.longHigh, hcut]
    congr 4 <;> omega
  rw [Instruction.reread, hwords]
  refine Instruction.reread_of_encodable ?_
  rw [Instruction.Encodable, hcut]
  omega

/-- A label is taken for its address without a look at the program memory. -/
theorem build_label {site : Site} {name : String} {a : Nat} (op : AbsoluteOp)
    (ha : site.labels.get? name = some a) :
    build site op.mnemonic [.label name]
      = .ok (.absolute op (UInt32.ofNat a)) := by
  have hform : Form.ofMnemonic? op.mnemonic = some (.absolute op) := by
    cases op <;> rfl
  have hk : Operand.asAddress site (.label name) = .ok (UInt32.ofNat a) := by
    rw [Operand.asAddress, Site.address, ha]
    rfl
  simp only [build, hform, Form.build, bind_eq_ok, pure_eq_ok]
  exact ⟨.label name, rfl, UInt32.ofNat a, hk, rfl⟩

/-- The operands of an instruction that is built are kept by its words, but for
a jump or call to a label behind the program memory. Of that address the words
keep the low 22 bits. -/
theorem operands_kept_unless_far_label {site : Site} {mnemonic : String}
    {os : List Operand} {i : Instruction}
    (hlabels : ∀ name a, site.labels.get? name = some a →
      a < Target.addressLimit)
    (h : build site mnemonic os = .ok i) :
    (i.reread = .ok i ↔ ∀ op a, ¬ FarLabel site mnemonic os op a)
      ∧ ∀ op a, FarLabel site mnemonic os op a →
        i = .absolute op (UInt32.ofNat a)
        ∧ i.reread = .ok (.absolute op (UInt32.ofNat (a % 0x400000))) := by
  rw [Instruction.reread_eq_ok_iff]
  refine ⟨⟨?_, ?_⟩, ?_⟩
  · rintro hi op a ⟨rfl, hfar, name, rfl, ha⟩
    cases h.symm.trans (build_label op ha)
    rw [Instruction.Encodable,
      UInt32.toNat_ofNat_of_lt' (hlabels name a ha)] at hi
    omega
  · intro hnear
    unfold build at h
    split at h
    · next form hform =>
        have hlisted := Form.listed_of_mem_table _
          (Form.mem_table_of_ofMnemonic? hform)
        rcases Form.encodable_of_build hlisted h with hi
            | ⟨op, name, a, rfl, rfl, ha, rfl⟩
        · exact hi
        · rw [Instruction.Encodable,
            UInt32.toNat_ofNat_of_lt' (hlabels name a ha)]
          by_contra hfar
          exact hnear op a ⟨hlisted, by omega, name, rfl, ha⟩
    · cases h
  · rintro op a ⟨rfl, -, name, rfl, ha⟩
    cases h.symm.trans (build_label op ha)
    rw [reread_absolute, UInt32.toNat_ofNat_of_lt' (hlabels name a ha)]
    exact ⟨rfl, rfl⟩

/-- Labels on the last word of the program memory and right behind it. -/
def memoryEnd : Site :=
  ⟨0, ((∅ : Labels).insert "last" 0x3FFFFF).insert "behind" 0x400000⟩

/-- The last word of the program memory can be jumped to by its label. -/
theorem operands_kept_unless_far_label_memoryEnd :
    build memoryEnd "jmp" [.label "last"] = .ok (.absolute .jmp 0x3FFFFF)
      ∧ (Instruction.absolute .jmp 0x3FFFFF).reread
        = .ok (.absolute .jmp 0x3FFFFF) := by
  have hlast : memoryEnd.labels.get? "last" = some 0x3FFFFF := by cbv
  have hlabels (name : String) (a : Nat)
      (h : memoryEnd.labels.get? name = some a) :
      a < Target.addressLimit := by
    rw [memoryEnd, Std.TreeMap.get?_eq_getElem?, Std.TreeMap.getElem?_insert,
      Std.TreeMap.getElem?_insert, Std.TreeMap.getElem?_emptyc] at h
    split at h
    · cases h
      decide
    · split at h
      · cases h
        decide
      · cases h
  have hbuild : build memoryEnd "jmp" [.label "last"]
      = .ok (.absolute .jmp 0x3FFFFF) := by cbv
  refine ⟨hbuild, (operands_kept_unless_far_label hlabels hbuild).1.mpr ?_⟩
  rintro op a ⟨-, hfar, name, hos, ha⟩
  cases hos
  cases hlast.symm.trans ha
  revert hfar
  decide

/-- A call behind the program memory is built without complaint, and its words
call address 0. -/
theorem far_label_truncated :
    build memoryEnd "call" [.label "behind"] = .ok (.absolute .call 0x400000)
      ∧ (Instruction.absolute .call 0x400000).reread
        = .ok (.absolute .call 0) := by
  refine ⟨by cbv, ?_⟩
  rw [reread_absolute]
  rfl

end Assembly

end AvrFirmware
