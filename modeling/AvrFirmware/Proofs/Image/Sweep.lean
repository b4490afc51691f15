/-
The linear sweep against the words of an image.

# One instruction

An instruction that is read at an address has the words that lie there
(`words_of_decodeAt`). A second word is only looked at where the first
one calls for it, so an instruction of two words has to come from such a
first word (`isLong_of_decode`).

# The sweep

A sweep without errors covers the image: put one behind the other, the
words of its instructions are the words of the image from where it
started (`getElem?_words_of_sweep`), up to the end (`length_words_of_sweep`),
and there the sweep ends (`sweepEnd_of_swept`).
Only first words can differ, where one is read that is never written.
-/
import AvrFirmware.Proofs.Instruction.Codec
import AvrFirmware.Image

namespace AvrFirmware

-- ======================================================= one instruction

/-- A skip sees from the first word that an instruction has two. -/
theorem isLong_of_firstWord {i : Instruction} (hwidth : i.width = 2) :
    Word.isLong (UInt16.ofNat i.firstWord) = true := by
  have hdata : ∀ n < 32, Word.isLong (UInt16.ofNat (0x9000 + n * 16)) = true
      ∧ Word.isLong (UInt16.ofNat (0x9200 + n * 16)) = true := by decide
  have haddress : ∀ code < 2, ∀ high < 32, ∀ low < 2,
      Word.isLong (UInt16.ofNat (0x940C + code * 2 + (high * 16 + low)))
        = true := by decide
  cases i with
  | lds d k => exact (hdata d.toNat d.toNat_lt).1
  | sts k r => exact (hdata r.toNat r.toNat_lt).2
  | absolute op k =>
      have hcode : op.code < 2 := by cases op <;> decide
      have hhigh : k.toNat / 65536 % 64 / 2 < 32 := by omega
      have hlow : k.toNat / 65536 % 2 < 2 := by omega
      exact haddress op.code hcode _ hhigh _ hlow
  | _ => cases hwidth

/-- An instruction of two words is read from a first word that calls for a
second. -/
theorem isLong_of_decode {word next : Word} {i : Instruction}
    (h : decode word next = .ok i) (hwidth : i.width = 2) :
    word.isLong = true := by
  obtain ⟨-, hfirst, -⟩ := Decoding.restores_decode? (decode_eq_ok_iff.mp h)
  rcases hfirst with hfirst | ⟨-, rfl⟩ | ⟨-, rfl⟩
  · rw [← UInt16.ofNat_toNat (x := word), ← hfirst]
    exact isLong_of_firstWord hwidth
  · cases hwidth
  · cases hwidth

/-- Words of long instructions have one spelling. -/
theorem preferred_of_isLong {word : Word} (h : word.isLong = true) :
    word.preferred = word := by
  unfold Word.preferred
  split_ifs with hlpm helpm
  · subst hlpm
    exact absurd h (by decide)
  · subst helpm
    exact absurd h (by decide)
  · rfl

namespace Image

variable {m : Image} {pc : Nat} {i : Instruction}

/-- A word of the image lies in it with both bytes. -/
theorem lt_size_of_word? {word : Word} (h : m.word? pc = some word) :
    2 * pc + 1 < m.size := by
  unfold word? at h
  split at h
  · next low high hlow hhigh => exact (Array.getElem?_eq_some_iff.mp hhigh).1
  · cases h

theorem word?_eq_none (h : m.size ≤ 2 * pc) : m.word? pc = none := by
  unfold word?
  split
  · next low high hlow hhigh =>
      have hlt : 2 * pc < m.size := (Array.getElem?_eq_some_iff.mp hlow).1
      omega
  · rfl

/-- The words of an instruction lie where it is read. -/
theorem words_of_decodeAt (h : m.decodeAt pc = .ok i) :
    i.Encodable ∧ ∃ word, m.word? pc = some word
      ∧ (i.words = [word.preferred]
        ∨ ∃ next, m.word? (pc + 1) = some next
          ∧ i.words = [word.preferred, next]) := by
  unfold decodeAt at h
  split at h
  · cases h
  · split at h
    · cases h
    · next word hword =>
        split at h
        · next hlong =>
            split at h
            · cases h
            · next next hnext =>
                refine ⟨Instruction.encodable_of_decode h, word, hword, ?_⟩
                rw [Instruction.words_of_decode h, preferred_of_isLong hlong]
                split
                · exact .inl rfl
                · exact .inr ⟨next, hnext, rfl⟩
        · next hshort =>
            refine ⟨Instruction.encodable_of_decode h, word, hword, .inl ?_⟩
            have hwidth : i.width = 1 := by
              have hone := i.one_le_width
              have htwo := i.width_le_two
              have hne : i.width ≠ 2 :=
                fun hwidth => hshort (isLong_of_decode h hwidth)
              omega
            rw [Instruction.words_of_decode h, if_pos hwidth]

-- ============================================================= the sweep

/-- The entries of a sweep that met no error. -/
def Swept (m : Image) (pc : Nat) (listing : List (Nat × Instruction)) : Prop :=
  m.sweep pc = listing.map fun e => (e.1, .ok e.2)

theorem swept_nil_iff : m.Swept pc [] ↔ m.size ≤ 2 * pc := by
  unfold Swept
  rw [sweep]
  split_ifs with hend
  · simp [hend]
  · simp only [List.map_nil, hend, iff_false]
    split <;> simp

/-- A sweep decodes one instruction and goes on behind it. -/
theorem swept_cons_iff {e : Nat × Instruction}
    {listing : List (Nat × Instruction)} :
    m.Swept pc (e :: listing)
      ↔ 2 * pc < m.size ∧ e.1 = pc ∧ m.decodeAt pc = .ok e.2
        ∧ m.Swept (pc + e.2.width) listing := by
  obtain ⟨a, i⟩ := e
  unfold Swept
  rw [sweep, List.map_cons]
  split_ifs with hend
  · simp only [false_iff]
    omega
  · rw [and_iff_right (by omega)]
    split
    · next j hj =>
        rw [hj]
        constructor
        · intro h
          obtain ⟨hhead, htail⟩ := List.cons_eq_cons.mp h
          cases hhead
          exact ⟨rfl, rfl, htail⟩
        · rintro ⟨rfl, hji, htail⟩
          cases hji
          rw [htail]
    · next error herror => simp [herror]

/-- A sweep only goes forwards. -/
theorem le_of_mem_swept {listing : List (Nat × Instruction)}
    (h : m.Swept pc listing) :
    ∀ a ∈ listing.map Prod.fst, pc ≤ a := by
  induction listing generalizing pc with
  | nil => simp
  | cons e listing ih =>
      obtain ⟨-, rfl, -, htail⟩ := swept_cons_iff.mp h
      intro a ha
      rw [List.map_cons, List.mem_cons] at ha
      rcases ha with rfl | ha
      · exact Nat.le_refl _
      · exact (Nat.le_add_right _ _).trans (ih htail a ha)

/-- Everything a sweep lists can be written. -/
theorem encodable_of_mem_swept {listing : List (Nat × Instruction)}
    (h : m.Swept pc listing) :
    ∀ e ∈ listing, e.2.Encodable := by
  induction listing generalizing pc with
  | nil => simp
  | cons e listing ih =>
      obtain ⟨-, -, hdecode, htail⟩ := swept_cons_iff.mp h
      intro e' he'
      rcases List.mem_cons.mp he' with rfl | he'
      · exact (words_of_decodeAt hdecode).1
      · exact ih htail e' he'

/-- What a sweep lists has as many words as the image from there on. -/
theorem length_words_of_sweep {listing : List (Nat × Instruction)}
    (h : m.Swept pc listing) (hpc : 2 * pc ≤ m.size) :
    2 * (pc + (listing.flatMap (·.2.words)).length) = m.size := by
  induction listing generalizing pc with
  | nil =>
      have hend := swept_nil_iff.mp h
      simp only [List.flatMap_nil, List.length_nil]
      omega
  | cons e listing ih =>
      obtain ⟨-, -, hdecode, htail⟩ := swept_cons_iff.mp h
      have hlength := e.2.length_words
      have hinside : 2 * (pc + e.2.width) ≤ m.size := by
        obtain ⟨-, word, hword, hwords | ⟨next, hnext, hwords⟩⟩ :=
          words_of_decodeAt hdecode
        · have hlt := lt_size_of_word? hword
          rw [hwords, List.length_singleton] at hlength
          omega
        · have hlt := lt_size_of_word? hnext
          rw [hwords, List.length_cons, List.length_singleton] at hlength
          omega
      have hrest := ih htail hinside
      rw [List.flatMap_cons, List.length_append, hlength]
      omega

/-- A sweep goes on behind its first instruction and ends where the rest of it
does. -/
theorem sweepEnd_eq_of_swept {e : Nat × Instruction}
    {listing : List (Nat × Instruction)} (h : m.Swept pc (e :: listing)) :
    m.sweepEnd pc = m.sweepEnd (pc + e.2.width) := by
  obtain ⟨-, rfl, -, htail⟩ := swept_cons_iff.mp h
  have hcons : m.sweep e.1 = (e.1, .ok e.2) :: m.sweep (e.1 + e.2.width) := by
    rw [h, htail, List.map_cons]
  unfold sweepEnd
  rw [hcons, List.getLast?_cons]
  cases (m.sweep (e.1 + e.2.width)).getLast? with
  | none => rfl
  | some last =>
      obtain ⟨a, reading⟩ := last
      cases reading <;> rfl

/-- A sweep without errors ends behind the words of its instructions. -/
theorem sweepEnd_of_swept {listing : List (Nat × Instruction)}
    (h : m.Swept pc listing) :
    m.sweepEnd pc = pc + (listing.flatMap (·.2.words)).length := by
  induction listing generalizing pc with
  | nil =>
      unfold sweepEnd
      rw [h]
      rfl
  | cons e listing ih =>
      have htail := (swept_cons_iff.mp h).2.2.2
      rw [sweepEnd_eq_of_swept h, ih htail, List.flatMap_cons,
        List.length_append, e.2.length_words, Nat.add_assoc]

/-- What a sweep lists is written as the words it was read from: each first
word in its preferred spelling, each second word as it is. -/
theorem getElem?_words_of_sweep {listing : List (Nat × Instruction)}
    (h : m.Swept pc listing) (k : Nat) :
    (listing.flatMap (·.2.words))[k]?
      = if pc + k ∈ listing.map Prod.fst then
        (m.word? (pc + k)).map Word.preferred
        else m.word? (pc + k) := by
  induction listing generalizing pc k with
  | nil =>
      have hend := swept_nil_iff.mp h
      rw [List.map_nil, if_neg List.not_mem_nil, word?_eq_none (by omega)]
      rfl
  | cons e listing ih =>
      obtain ⟨-, rfl, hdecode, htail⟩ := swept_cons_iff.mp h
      have hlength := e.2.length_words
      have hone := e.2.one_le_width
      rw [List.flatMap_cons, List.map_cons]
      by_cases hk : k < e.2.width
      · rw [List.getElem?_append_left (by omega)]
        obtain ⟨-, word, hword, hwords⟩ := words_of_decodeAt hdecode
        cases k with
        | zero =>
            rw [Nat.add_zero, if_pos List.mem_cons_self, hword]
            rcases hwords with hwords
                | ⟨next, -, hwords⟩ <;> rw [hwords] <;> rfl
        | succ k =>
            rcases hwords with hwords | ⟨next, hnext, hwords⟩
            · rw [hwords, List.length_singleton] at hlength
              omega
            · rw [hwords, List.length_cons, List.length_singleton] at hlength
              obtain rfl : k = 0 := by omega
              -- the second word of an instruction is not where another one
              -- starts
              have hinside : e.1 + 1 ∉ e.1 :: listing.map Prod.fst := by
                intro hmem
                rcases List.mem_cons.mp hmem with hmem | hmem
                · omega
                · have hle := le_of_mem_swept htail _ hmem
                  omega
              rw [if_neg hinside, hnext, hwords]
              rfl
      · have hbehind : e.1 + k ∈ e.1 :: listing.map Prod.fst
            ↔ e.1 + k ∈ listing.map Prod.fst := by
          rw [List.mem_cons, or_iff_right (by omega)]
        have haddress : e.1 + e.2.width + (k - e.2.width) = e.1 + k := by omega
        have hrest := ih htail (k - e.2.width)
        rw [haddress] at hrest
        simp only [hbehind]
        rw [List.getElem?_append_right (by omega), hlength, hrest]

end Image

end AvrFirmware
