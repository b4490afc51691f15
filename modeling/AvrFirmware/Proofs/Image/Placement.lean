/-
Instructions read where their words were put.

An image made of words has them at their addresses (`word?_ofWords`). An
instruction whose words lie at an address is read there, if it is
encodable: the first word tells how many there are, and it does not
mislead (`isLong_firstWord_iff`), so that the reader takes exactly the words
that were put (`decodeAt_of_words`).
-/
import AvrFirmware.Proofs.Image.Sweep

namespace AvrFirmware

-- ========================================================== first words

/-- A mask that lets a field through does not change it. -/
theorem field_of_mask {w mask masked low width : Nat} (h : w &&& mask = masked)
    (hmask : mask / 2 ^ low % 2 ^ width = 2 ^ width - 1) :
    Decoding.field w low width = Decoding.field masked low width := by
  rw [← h, Decoding.field_eq, Decoding.field_eq, Nat.and_div_two_pow,
    Nat.and_mod_two_pow, hmask, Nat.and_two_pow_sub_one_eq_mod, Nat.mod_mod]

/-- A first word that calls for a second is that of an access to a data address
or of a long transfer: bits 15 to 9 and the low four bits say so. -/
theorem fields_of_isLong {word : Word} (h : word.isLong = true) :
    (Decoding.field word.toNat 9 7 = 72 ∧ Decoding.field word.toNat 0 4 = 0)
      ∨ (Decoding.field word.toNat 9 7 = 73
        ∧ Decoding.field word.toNat 0 4 = 0)
      ∨ Decoding.field word.toNat 9 7 = 74
        ∧ 12 ≤ Decoding.field word.toNat 0 4 := by
  simp only [Word.isLong, Bool.or_eq_true, beq_iff_eq, ← UInt16.toNat_inj,
    UInt16.toNat_and] at h
  have hlow := Decoding.field_cut word.toNat 0 1 3
  simp only [Nat.reduceAdd, Nat.reducePow] at hlow
  rcases h with ((hload | hstore) | hjump) | hcall
  · exact .inl ⟨field_of_mask hload rfl, field_of_mask hload rfl⟩
  · exact .inr (.inl ⟨field_of_mask hstore rfl, field_of_mask hstore rfl⟩)
  · have hbits : Decoding.field word.toNat 1 3 = 6 := field_of_mask hjump rfl
    exact .inr (.inr ⟨field_of_mask hjump rfl, by omega⟩)
  · have hbits : Decoding.field word.toNat 1 3 = 7 := field_of_mask hcall rfl
    exact .inr (.inr ⟨field_of_mask hcall rfl, by omega⟩)

theorem width_of_isLong {word next : Word} {i : Instruction}
    (h : decode word next = .ok i) (hlong : word.isLong = true) :
    i.width = 2 := by
  rw [decode_eq_ok_iff] at h
  have hcut := Decoding.field_cut word.toNat 9 3 4
  have hlow := Decoding.field_lt word.toNat 9 3
  have hnibble := Decoding.field_lt word.toNat 0 4
  simp only [Nat.reduceAdd, Nat.reducePow] at hcut hlow hnibble
  rcases fields_of_isLong hlong with ⟨hhigh, hzero⟩ | ⟨hhigh, hzero⟩
      | ⟨hhigh, htop⟩
  · have h12 : Decoding.field word.toNat 12 4 = 9 := by omega
    have h9 : Decoding.field word.toNat 9 3 = 0 := by omega
    simp only [decode?, h12, Decoding.mixed?, h9, Decoding.load?, hzero] at h
    cases h
    rfl
  · have h12 : Decoding.field word.toNat 12 4 = 9 := by omega
    have h9 : Decoding.field word.toNat 9 3 = 1 := by omega
    simp only [decode?, h12, Decoding.mixed?, h9, Decoding.store?, hzero] at h
    cases h
    rfl
  · have h12 : Decoding.field word.toNat 12 4 = 9 := by omega
    have h9 : Decoding.field word.toNat 9 3 = 2 := by omega
    have h0 : Decoding.field word.toNat 0 4 = 12
        ∨ Decoding.field word.toNat 0 4 = 13
        ∨ Decoding.field word.toNat 0 4 = 14
        ∨ Decoding.field word.toNat 0 4 = 15 := by omega
    rcases h0 with h0 | h0 | h0 | h0 <;>
      simp only [decode?, h12, Decoding.mixed?, h9, Decoding.single?, h0] at h
        <;> cases h <;> rfl

/-- The first word of an instruction calls for a second exactly if there is
one. -/
theorem isLong_firstWord_iff {i : Instruction} (h : i.Encodable) :
    Word.isLong (UInt16.ofNat i.firstWord) = true ↔ i.width = 2 :=
  ⟨width_of_isLong (Instruction.reread_of_encodable h), isLong_of_firstWord⟩

-- ================================================================ words

theorem Word.ofBytes_bytes (w : Word) :
    Word.ofBytes (UInt8.ofNat (w.toNat % 256)) (UInt8.ofNat (w.toNat / 256))
      = w := by
  have hw := w.toNat_lt
  rw [Word.ofBytes, UInt8.toNat_ofNat_of_lt' (Nat.mod_lt _ (by decide)),
    UInt8.toNat_ofNat_of_lt' (Nat.div_lt_of_lt_mul hw), Nat.mod_add_div,
    UInt16.ofNat_toNat]

namespace Image

/-- The two bytes of a word lie at twice its address. -/
theorem getElem?_bytes (ws : List Word) (pc : Nat) :
    (ws.flatMap Word.bytes)[2 * pc]?
      = ws[pc]?.map (fun w => UInt8.ofNat (w.toNat % 256))
      ∧ (ws.flatMap Word.bytes)[2 * pc + 1]?
        = ws[pc]?.map (fun w => UInt8.ofNat (w.toNat / 256)) := by
  induction ws generalizing pc with
  | nil => simp
  | cons w ws ih =>
      cases pc with
      | zero => simp [Word.bytes]
      | succ pc =>
          have hnext := ih pc
          rw [Nat.mul_succ, List.flatMap_cons, Word.bytes]
          simpa using hnext

theorem word?_ofWords (ws : List Word) (pc : Nat) :
    (ofWords ws).word? pc = ws[pc]? := by
  obtain ⟨hlow, hhigh⟩ := getElem?_bytes ws pc
  have hread (a : Nat) : (ofWords ws).read? a
      = (ws.flatMap Word.bytes)[a]? := by
    rw [read?, ofWords, ofBytes, List.getElem?_toArray]
  rw [word?, hread, hread, hlow, hhigh]
  cases ws[pc]? with
  | none => rfl
  | some w => exact congrArg some (Word.ofBytes_bytes w)

/-- A word takes two bytes. -/
theorem size_ofWords (ws : List Word) : (ofWords ws).size = 2 * ws.length := by
  show (ws.flatMap Word.bytes).toArray.size = 2 * ws.length
  rw [List.size_toArray]
  induction ws with
  | nil => rfl
  | cons w ws ih =>
      rw [List.flatMap_cons, List.length_append, ih, List.length_cons,
        Word.bytes]
      simp only [List.length_cons, List.length_nil]
      omega

-- ========================================================= instructions

/-- Where a first word can be read, it tells whether a second one is looked
at. -/
theorem decodeAt_of_word {m : Image} {pc : Nat} {word : Word}
    (hword : m.word? pc = some word) :
    m.decodeAt pc
      = if word.isLong then
          match m.word? (pc + 1) with
          | none => .error (.truncated pc)
          | some next => decode word next
        else decode word 0 := by
  have hinside : m.isPastEnd pc = false := by
    have hlt := lt_size_of_word? hword
    rw [isPastEnd, decide_eq_false_iff_not]
    omega
  rw [decodeAt, hinside, hword]
  rfl

/-- An encodable instruction is read where its words lie. -/
theorem decodeAt_of_words {m : Image} {pc : Nat} {i : Instruction}
    (hi : i.Encodable)
    (hwords : ∀ (k : Nat) (w : Word), i.words[k]? = some w →
      m.word? (pc + k) = some w) :
    m.decodeAt pc = .ok i := by
  have hfirst : m.word? pc = some (UInt16.ofNat i.firstWord) := hwords 0 _ rfl
  have hreread : decode (UInt16.ofNat i.firstWord) (i.words.getD 1 0)
      = .ok i :=
    Instruction.reread_of_encodable hi
  have hlength := i.length_words
  rw [decodeAt_of_word hfirst]
  by_cases hwidth : i.width = 2
  · have hsecond : i.words[1]? = some (i.words.getD 1 0) := by
      rw [List.getD_eq_getElem?_getD, List.getElem?_eq_getElem (by omega),
        Option.getD_some]
    rw [if_pos ((isLong_firstWord_iff hi).mpr hwidth), hwords 1 _ hsecond]
    exact hreread
  · have hone := i.one_le_width
    have htwo := i.width_le_two
    have hsecond : i.words.getD 1 0 = 0 := by
      rw [List.getD_eq_getElem?_getD, List.getElem?_eq_none (by omega),
        Option.getD_none]
    rw [if_neg (mt (isLong_firstWord_iff hi).mp hwidth), ← hsecond]
    exact hreread

end Image

end AvrFirmware
