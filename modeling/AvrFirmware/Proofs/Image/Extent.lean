/-
Which bytes an instruction is read from.

# What can come out

`ReadsAt` lists the five ways to read an instruction at an address: the
address lies behind the end, the image ends inside the first word or
inside the second, or the words are there, one or two, and are decoded.
No case is missing (`readsAt_decodeAt`), and decoding words never gives an
error that speaks of the image (`decode_eq_error_iff`), so the sizes alone
tell the cases apart.

# How many words

A first word that calls for a second, an instruction that is decoded from
two words and an instruction of width two are the same
(`width_eq_two_iff`). So an instruction ends where its words do, inside the
image, and any image with the same bytes there reads the same instruction
(`decodeAt_congr`).
-/
import AvrFirmware.Proofs.Image.Placement

namespace AvrFirmware

variable {word next : Word} {i : Instruction}

-- ================================================================ decoding

/-- Words that are no instruction are reported by the first of them. -/
theorem decode_eq_error_iff {e : DecodeError} :
    decode word next = .error e
      ↔ decode? word next = none ∧ e = .unknownOpcode word := by
  unfold decode
  split
  · next i hi => simp [hi]
  · next hnone =>
      constructor
      · intro h
        cases h
        exact ⟨hnone, rfl⟩
      · intro ⟨_, he⟩
        rw [he]

/-- The width tells of an instruction what its first word has told before. -/
theorem width_eq_two_iff (h : decode word next = .ok i) :
    i.width = 2 ↔ word.isLong = true :=
  ⟨isLong_of_decode h, width_of_isLong h⟩

theorem width_eq_one_of_short (h : decode word next = .ok i)
    (hshort : word.isLong = false) :
    i.width = 1 := by
  have hone := i.one_le_width
  have htwo := i.width_le_two
  have hne : i.width ≠ 2 := by
    intro hwidth
    rw [(width_eq_two_iff h).mp hwidth] at hshort
    cases hshort
  omega

namespace Image

variable {m m' : Image} {pc : Nat}

-- =================================================================== words

/-- A word is missing where the image ends before its second byte. -/
theorem word?_eq_none_iff : m.word? pc = none ↔ m.size < 2 * pc + 2 := by
  constructor
  · intro h
    by_contra hsize
    have hlow : 2 * pc < m.bytes.size := by
      show 2 * pc < m.size
      omega
    have hhigh : 2 * pc + 1 < m.bytes.size := by
      show 2 * pc + 1 < m.size
      omega
    rw [word?, read?, read?, Array.getElem?_eq_getElem hlow,
      Array.getElem?_eq_getElem hhigh] at h
    cases h
  · intro hsize
    cases hword : m.word? pc with
    | none => rfl
    | some word =>
        have hlt := lt_size_of_word? hword
        omega

theorem word?_congr (hlow : m'.read? (2 * pc) = m.read? (2 * pc))
    (hhigh : m'.read? (2 * pc + 1) = m.read? (2 * pc + 1)) :
    m'.word? pc = m.word? pc := by
  rw [word?, word?, hlow, hhigh]

-- ================================================================= reading

/-- The ways to read an instruction at an address, and what comes out. -/
inductive ReadsAt (m : Image) (pc : Nat) :
    Except DecodeError Instruction → Prop
  | behind (hsize : m.size ≤ 2 * pc) : ReadsAt m pc (.error (.outOfRange pc))
  | cutFirst (hpc : 2 * pc < m.size) (hsize : m.size < 2 * pc + 2) :
      ReadsAt m pc (.error (.truncated pc))
  | cutSecond {word : Word} (hword : m.word? pc = some word)
      (hlong : word.isLong = true) (hsize : m.size < 2 * pc + 4) :
      ReadsAt m pc (.error (.truncated pc))
  | short {word : Word} (hword : m.word? pc = some word)
      (hshort : word.isLong = false) :
      ReadsAt m pc (decode word 0)
  | long {word next : Word} (hword : m.word? pc = some word)
      (hlong : word.isLong = true) (hnext : m.word? (pc + 1) = some next) :
      ReadsAt m pc (decode word next)

theorem readsAt_decodeAt (m : Image) (pc : Nat) :
    ReadsAt m pc (m.decodeAt pc) := by
  cases hword : m.word? pc with
  | none =>
      have hsize := word?_eq_none_iff.mp hword
      unfold decodeAt isPastEnd
      rw [hword]
      by_cases hpc : m.size ≤ 2 * pc
      · rw [decide_eq_true hpc]
        exact .behind hpc
      · rw [decide_eq_false hpc]
        exact .cutFirst (Nat.lt_of_not_le hpc) hsize
  | some word =>
      rw [decodeAt_of_word hword]
      cases hlong : word.isLong with
      | false => exact .short hword hlong
      | true =>
          rw [if_pos rfl]
          cases hnext : m.word? (pc + 1) with
          | none =>
              have hsize := word?_eq_none_iff.mp hnext
              exact .cutSecond hword hlong (by omega)
          | some next => exact .long hword hlong hnext

theorem decodeAt_eq_outOfRange_iff :
    m.decodeAt pc = .error (.outOfRange pc) ↔ m.size ≤ 2 * pc := by
  constructor
  · intro h
    have hreads := m.readsAt_decodeAt pc
    generalize m.decodeAt pc = reading at h hreads
    cases hreads with
    | behind hsize => exact hsize
    | cutFirst | cutSecond => cases h
    | short | long => cases (decode_eq_error_iff.mp h).2
  · intro hsize
    rw [decodeAt, isPastEnd, decide_eq_true hsize]
    rfl

/-- The image ends inside the instruction. -/
theorem decodeAt_eq_truncated_iff :
    m.decodeAt pc = .error (.truncated pc)
      ↔ 2 * pc < m.size ∧ (m.size < 2 * pc + 2
        ∨ ∃ word, m.word? pc = some word ∧ word.isLong = true
          ∧ m.size < 2 * pc + 4) := by
  have hreads := m.readsAt_decodeAt pc
  generalize m.decodeAt pc = reading at hreads
  cases hreads with
  | behind hsize =>
      have hbehind : ¬ 2 * pc < m.size := Nat.not_lt.mpr hsize
      simp [hbehind]
  | cutFirst hpc hsize => simp [hpc, hsize]
  | @cutSecond word hword hlong hsize =>
      have hinside := lt_size_of_word? hword
      have hpc : 2 * pc < m.size := by omega
      simp [hpc, hword, hlong, hsize]
  | @short word hword hshort =>
      have hinside := lt_size_of_word? hword
      have hfirst : ¬ m.size < 2 * pc + 2 := by omega
      simp [decode_eq_error_iff, hword, hshort, hfirst]
  | @long word next hword hlong hnext =>
      have hinside := lt_size_of_word? hnext
      have hfirst : ¬ m.size < 2 * pc + 2 := by omega
      have hsecond : ¬ m.size < 2 * pc + 4 := by omega
      simp [decode_eq_error_iff, hword, hfirst, hsecond]

/-- An instruction that is read, the words it is decoded from, and its
width. -/
theorem exists_words_of_decodeAt (h : m.decodeAt pc = .ok i) :
    ∃ word, m.word? pc = some word ∧ (i.width = 2 ↔ word.isLong = true)
      ∧ (word.isLong = false ∧ decode word 0 = .ok i
        ∨ word.isLong = true
          ∧ ∃ next, m.word? (pc + 1) = some next
          ∧ decode word next = .ok i) := by
  have hreads := m.readsAt_decodeAt pc
  generalize m.decodeAt pc = reading at h hreads
  cases hreads with
  | behind | cutFirst | cutSecond => cases h
  | @short word hword hshort =>
      exact ⟨word, hword, width_eq_two_iff h, .inl ⟨hshort, h⟩⟩
  | @long word next hword hlong hnext =>
      exact ⟨word, hword, width_eq_two_iff h, .inr ⟨hlong, next, hnext, h⟩⟩

/-- An instruction ends inside the image. -/
theorem width_le_of_decodeAt (h : m.decodeAt pc = .ok i) :
    2 * (pc + i.width) ≤ m.size := by
  obtain ⟨word, hword, hwidth, ⟨hshort, hdecode⟩ | ⟨hlong, next, hnext, -⟩⟩ :=
    exists_words_of_decodeAt h
  · have hinside := lt_size_of_word? hword
    have hone := width_eq_one_of_short hdecode hshort
    omega
  · have hinside := lt_size_of_word? hnext
    have htwo := hwidth.mpr hlong
    omega

/-- The bytes of an instruction are all that it is read from. -/
theorem decodeAt_congr (h : m.decodeAt pc = .ok i)
    (hsame : ∀ a, 2 * pc ≤ a → a < 2 * pc + 2 * i.width →
      m'.read? a = m.read? a) :
    m'.decodeAt pc = .ok i := by
  have hone := i.one_le_width
  obtain ⟨word, hword, hwidth, hwords⟩ := exists_words_of_decodeAt h
  have hfirst : m'.word? pc = some word := by
    rw [← hword]
    apply word?_congr
    · exact hsame _ (by omega) (by omega)
    · exact hsame _ (by omega) (by omega)
  rw [decodeAt_of_word hfirst]
  rcases hwords with ⟨hshort, hdecode⟩ | ⟨hlong, next, hnext, hdecode⟩
  · rw [hshort]
    exact hdecode
  · have htwo := hwidth.mpr hlong
    have hsecond : m'.word? (pc + 1) = some next := by
      rw [← hnext]
      apply word?_congr
      · exact hsame _ (by omega) (by omega)
      · exact hsame _ (by omega) (by omega)
    rw [hlong, hsecond]
    exact hdecode

-- ============================================================== the result

/-- Reading an instruction keeps inside the image. It fails for the address
exactly if that lies behind the end, and for the length exactly if the image
ends inside the words that are called for; otherwise these words are decoded.
An instruction that is read ends inside the image, its width is two exactly if
its first word calls for a second, and it is the same in every image that has
the same bytes from its address to its end. -/
theorem decoding_keeps_inside (m : Image) (pc : Nat) :
    (m.decodeAt pc = .error (.outOfRange pc) ↔ m.size ≤ 2 * pc)
      ∧ (m.decodeAt pc = .error (.truncated pc)
        ↔ 2 * pc < m.size ∧ (m.size < 2 * pc + 2
          ∨ ∃ word, m.word? pc = some word ∧ word.isLong = true
            ∧ m.size < 2 * pc + 4))
      ∧ (m.decodeAt pc ≠ .error (.outOfRange pc) →
        m.decodeAt pc ≠ .error (.truncated pc) →
        ∃ word, m.word? pc = some word
          ∧ (word.isLong = false ∧ m.decodeAt pc = decode word 0
            ∨ word.isLong = true ∧ ∃ next, m.word? (pc + 1) = some next
              ∧ m.decodeAt pc = decode word next))
      ∧ ∀ i, m.decodeAt pc = .ok i →
        2 * (pc + i.width) ≤ m.size
          ∧ (∃ word, m.word? pc = some word
            ∧ (i.width = 2 ↔ word.isLong = true))
          ∧ ∀ m' : Image,
            (∀ a, 2 * pc ≤ a → a < 2 * pc + 2 * i.width →
              m'.read? a = m.read? a) →
              m'.decodeAt pc = .ok i := by
  refine ⟨decodeAt_eq_outOfRange_iff, decodeAt_eq_truncated_iff, ?_, ?_⟩
  · intro hrange hwhole
    have hreads := m.readsAt_decodeAt pc
    generalize m.decodeAt pc = reading at hrange hwhole hreads
    cases hreads with
    | behind => exact absurd rfl hrange
    | cutFirst | cutSecond => exact absurd rfl hwhole
    | @short word hword hshort => exact ⟨word, hword, .inl ⟨hshort, rfl⟩⟩
    | @long word next hword hlong hnext =>
        exact ⟨word, hword, .inr ⟨hlong, next, hnext, rfl⟩⟩
  · intro i h
    obtain ⟨word, hword, hwidth, -⟩ := exists_words_of_decodeAt h
    refine ⟨width_le_of_decodeAt h, ⟨word, hword, hwidth⟩, ?_⟩
    intro m' hsame
    exact decodeAt_congr h hsame

/-- A call that an image of odd size ends with, the same image one byte
shorter, and one that only has the bytes of the call in common with it. -/
theorem decoding_keeps_inside_oddCall :
    (ofBytes [0x00, 0x00, 0x0E, 0x94, 0x34, 0x00, 0xFF]).decodeAt 1
      = .ok (.absolute .call 0x34)
      ∧ (ofBytes [0x00, 0x00, 0x0E, 0x94, 0x34]).decodeAt 1
        = .error (.truncated 1)
      ∧ (ofBytes [0x00, 0x00, 0x0E, 0x94, 0x34, 0x00, 0xFF]).decodeAt 3
        = .error (.truncated 3)
      ∧ (ofBytes [0x00, 0x00, 0x0E, 0x94, 0x34, 0x00, 0xFF]).decodeAt 4
        = .error (.outOfRange 4)
      ∧ (ofBytes [0xFF, 0xFF, 0x0E, 0x94, 0x34, 0x00]).decodeAt 1
        = .ok (.absolute .call 0x34) := by
  have hcall : (ofBytes [0x00, 0x00, 0x0E, 0x94, 0x34, 0x00, 0xFF]).decodeAt 1
      = .ok (.absolute .call 0x34) := by
    decide
  refine ⟨hcall, ?_, ?_, ?_, ?_⟩
  · exact (decoding_keeps_inside _ _).2.1.mpr
      ⟨by decide, .inr ⟨0x940E, by decide⟩⟩
  · exact (decoding_keeps_inside _ _).2.1.mpr ⟨by decide, .inl (by decide)⟩
  · exact (decoding_keeps_inside _ _).1.mpr (by decide)
  · refine ((decoding_keeps_inside _ _).2.2.2 _ hcall).2.2 _ ?_
    intro a hlow hhigh
    have hcases : a = 2 ∨ a = 3 ∨ a = 4 ∨ a = 5 := by
      simp only [Instruction.width] at hhigh
      omega
    rcases hcases with rfl | rfl | rfl | rfl
    all_goals rfl

end Image

end AvrFirmware
