/-
Load files written out and read again.

# One line

A record is written as its bytes, two digits to each, so its line is read
as whatever these bytes are read as (`parse_pairs`). They are read as the
record itself, provided that the length byte has counted the data: a
record of more than 255 bytes has a length byte that disagrees with the
bytes behind it and is refused (`ofBytes_bytes_iff`).

# A whole file

No line holds a blank, so cutting the text at its line feeds gives the
lines back as they were written (`lines_text`). What is read is then
either the records that were written or nothing (`parse_text_iff`), and
`Representable` says of a list of records which of the two it is.
-/
import AvrFirmware.Proofs.Hex.Grammar

namespace AvrFirmware

namespace Hex

-- ============================================================== one line

/-- A digit that is written is a digit of the grammar. -/
theorem digit_upperDigit {d : Nat} (h : d < 16) :
    Digit (Numeral.upperDigit d) d := by
  have hread : ∀ d < 16,
      Numeral.digitValue? .hexadecimal (Numeral.upperDigit d)
        = some d := by decide
  exact digitValue?_eq_some_iff.mp (hread d h)

/-- The two digits of a byte stand for the byte. -/
theorem digitPair_pairOf (b : UInt8) :
    DigitPair (Numeral.upperDigit (b.toNat / 16))
      (Numeral.upperDigit (b.toNat % 16)) b := by
  have hb := b.toNat_lt
  refine ⟨b.toNat / 16, b.toNat % 16, digit_upperDigit (by omega),
    digit_upperDigit (by omega), ?_⟩
  rw [Nat.div_add_mod', UInt8.ofNat_toNat]

/-- Bytes that are written out are spelled by what is written. -/
theorem spelled_pairs (bytes : List UInt8) :
    Spelled DigitPair (bytes.flatMap pairOf) bytes := by
  induction bytes with
  | nil => exact .nil
  | cons b bs ih => exact .cons (digitPair_pairOf b) ih

/-- A line of written bytes is read as its bytes are. -/
theorem parse_pairs (bytes : List UInt8) :
    Record.parse (':' :: bytes.flatMap pairOf) = Record.ofBytes bytes :=
  parse_of_spelled (spelled_digitPair_iff.mp (spelled_pairs bytes)).1

/-- The bytes of a record are read as the record if the length byte can count
its data, and are refused otherwise. -/
theorem ofBytes_bytes_iff {r r' : Record} :
    Record.ofBytes r.bytes = .ok r' ↔ r.payload.length ≤ 255 ∧ r = r' := by
  have hparts : Record.ofParts r.kind
      (half (UInt8.ofNat (r.offset.toNat / 256))
        (UInt8.ofNat (r.offset.toNat % 256))) r.payload
        = .ok r := by
    refine ofParts_kind ?_
    intro offset bytes hr
    rw [hr, Record.offset]
    exact halfBytes_eq_iff.mp (rfl : halfBytes offset = _)
  have hcount : (UInt8.ofNat r.payload.length).toNat = r.payload.length
      ↔ r.payload.length ≤ 255 := by
    rw [UInt8.toNat_ofNat']
    omega
  have hbytes : Record.ofBytes r.bytes = .ok r' ↔ _ := ofBytes_concat
  rw [hbytes, hcount, hparts, Except.ok.injEq]
  constructor
  · intro h
    exact ⟨h.1, h.2.2⟩
  · intro h
    exact ⟨h.1, rfl, h.2⟩

theorem toList_line (r : Record) :
    r.line.toList = ':' :: r.bytes.flatMap pairOf :=
  String.toList_ofList

/-- The line of a record is read as the record, unless it has too many data. -/
theorem record_parse_line_iff {r r' : Record} :
    Record.parse r.line.toList = .ok r' ↔ r.payload.length ≤ 255 ∧ r = r' := by
  rw [toList_line, parse_pairs, ofBytes_bytes_iff]

-- ========================================================== cutting lines

/-- No visible character of ASCII is a blank. -/
theorem not_isBlank_of_bounds {c : Char} (hlow : 33 ≤ c.toNat)
    (hhigh : c.toNat < 128) :
    Text.isBlank c = false := by
  simp [Text.isBlank]
  omega

theorem Digit.not_isBlank {c : Char} {d : Nat} (h : Digit c d) :
    Text.isBlank c = false := by
  refine not_isBlank_of_bounds ?_ h.ascii
  cases h with
  | decimal h => exact le_trans (by decide) (show 48 ≤ c.toNat from h.1)
  | upper h => exact le_trans (by decide) (show 65 ≤ c.toNat from h.1)
  | lower h => exact le_trans (by decide) (show 97 ≤ c.toNat from h.1)

theorem Spelled.not_isBlank {cs : List Char} {bytes : List UInt8}
    (h : Spelled DigitPair cs bytes) : ∀ c ∈ cs, Text.isBlank c = false := by
  induction h with
  | nil => exact List.forall_mem_nil _
  | cons hpair _ ih =>
      obtain ⟨d, e, hd, he, -⟩ := hpair
      exact List.forall_mem_cons.mpr
        ⟨hd.not_isBlank, List.forall_mem_cons.mpr ⟨he.not_isBlank, ih⟩⟩

/-- A colon and pairs of digits hold no blank. -/
theorem not_isBlank_of_spelled {digits : List Char} {bytes : List UInt8}
    (h : Spelled DigitPair digits bytes) :
    ∀ c ∈ ':' :: digits, Text.isBlank c = false :=
  List.forall_mem_cons.mpr ⟨by decide, h.not_isBlank⟩

/-- No line of a record holds a blank. -/
theorem not_isBlank_of_mem_line {r : Record} {c : Char}
    (h : c ∈ r.line.toList) :
    Text.isBlank c = false := by
  rw [toList_line] at h
  exact not_isBlank_of_spelled (spelled_pairs r.bytes) c h

/-- Without blanks there is nothing to trim. -/
theorem trim_of_not_isBlank {cs : List Char}
    (h : ∀ c ∈ cs, Text.isBlank c = false) :
    Text.trim cs = cs := by
  have hdrop (ds : List Char) (hds : ∀ c ∈ ds, Text.isBlank c = false) :
      ds.dropWhile Text.isBlank = ds := by
    cases ds with
    | nil => rfl
    | cons d ds =>
        rw [List.dropWhile_cons_of_neg (by simp [hds d List.mem_cons_self])]
  rw [Text.trim, hdrop cs h, hdrop cs.reverse (by simpa using h),
    List.reverse_reverse]

/-- A first line that ends with a line feed. -/
theorem lines_append_newline {line : List Char} (hline : '\n' ∉ line)
    (cs : List Char) :
    Text.lines (line ++ '\n' :: cs) = line :: Text.lines cs := by
  have hfrom (before : List Char) : Text.linesFrom [] before
      (line ++ '\n' :: cs)
      = (before.reverse ++ line) :: Text.lines cs := by
    induction line generalizing before with
    | nil =>
        rw [List.nil_append, Text.linesFrom, if_pos rfl, Text.linesFrom_eq,
          Text.lines]
        simp
    | cons c line ih =>
        rw [List.mem_cons, not_or] at hline
        rw [List.cons_append, Text.linesFrom, if_neg (Ne.symm hline.1),
          ih hline.2]
        simp
  exact hfrom []

/-- The text of a file, line by line and each with its line feed. -/
theorem toList_text (f : File) :
    f.text.toList = f.records.flatMap fun r => r.line.toList ++ ['\n'] := by
  have hfold (s : String) (rs : List Record) :
      (rs.foldl (fun s r => s ++ r.line ++ "\n") s).toList
        = s.toList ++ rs.flatMap fun r => r.line.toList ++ ['\n'] := by
    induction rs generalizing s with
    | nil => simp
    | cons r rs ih =>
        rw [List.foldl_cons, ih, String.toList_append, String.toList_append,
          List.flatMap_cons]
        simp
  exact hfold "" f.records

/-- A text without blanks is on one line. -/
theorem newline_not_mem_of_not_isBlank {cs : List Char}
    (h : ∀ c ∈ cs, Text.isBlank c = false) : '\n' ∉ cs := by
  intro hmem
  exact absurd (h '\n' hmem) (by decide)

/-- The lines of written records stand in front of the lines of what
follows. -/
theorem lines_text_append (f : File) (cs : List Char) :
    Text.lines (f.text.toList ++ cs)
      = f.records.map (·.line.toList) ++ Text.lines cs := by
  rw [toList_text]
  induction f.records with
  | nil => rfl
  | cons r rs ih =>
      have hline : '\n' ∉ r.line.toList :=
        newline_not_mem_of_not_isBlank fun _ => not_isBlank_of_mem_line
      rw [List.flatMap_cons, List.append_assoc, List.append_assoc,
        List.singleton_append, lines_append_newline hline, ih, List.map_cons,
        List.cons_append]

/-- The lines of the text are those of the records, and an empty one behind the
last line feed. -/
theorem lines_text (f : File) :
    Text.lines f.text.toList = f.records.map (·.line.toList) ++ [[]] := by
  have happend := lines_text_append f []
  rwa [List.append_nil] at happend

theorem trim_line (r : Record) : Text.trim r.line.toList = r.line.toList :=
  trim_of_not_isBlank fun _ => not_isBlank_of_mem_line

theorem line_ne_nil (r : Record) : r.line.toList ≠ [] := by
  rw [toList_line]
  exact List.cons_ne_nil _ _

/-- The lines that count are those of the records, in order. -/
theorem entries_text (f : File) :
    entries (Text.lines f.text.toList) = f.records.map (·.line.toList) := by
  have htrim : (f.records.map (·.line.toList)).map Text.trim
      = f.records.map (·.line.toList) := by
    simp only [List.map_map, Function.comp_def, trim_line]
  have hkept : (f.records.map (·.line.toList)).filter (· ≠ [])
      = f.records.map (·.line.toList) := by
    apply List.filter_eq_self.mpr
    intro line hline
    obtain ⟨r, -, rfl⟩ := List.mem_map.mp hline
    exact decide_eq_true (line_ne_nil r)
  rw [lines_text, entries, List.map_append, htrim, List.filter_append, hkept]
  exact List.append_nil _

-- ========================================================== whole files

/-- A list is related to another record by record exactly if it is the same
list and all its records fit. -/
theorem forall₂_lineOf_iff {rs rs' : List Record} :
    List.Forall₂ (LineOf SignedPair) (rs.map (·.line.toList)) rs'
      ↔ (∀ r ∈ rs, r.payload.length ≤ 255) ∧ rs = rs' := by
  simp only [List.forall₂_map_left_iff, ← record_parse_eq_ok_iff,
    record_parse_line_iff]
  induction rs generalizing rs' with
  | nil => simp [eq_comm]
  | cons r rs ih =>
      simp only [List.forall₂_cons_left_iff, ih, List.forall_mem_cons]
      constructor
      · rintro ⟨r', rs'', ⟨hr, rfl⟩, ⟨hrs, rfl⟩, rfl⟩
        exact ⟨⟨hr, hrs⟩, rfl⟩
      · rintro ⟨⟨hr, hrs⟩, rfl⟩
        exact ⟨r, rs, ⟨hr, rfl⟩, ⟨hrs, rfl⟩, rfl⟩

/-- A text that was written is read as the file it was written from, or not at
all. -/
theorem parse_text_iff {f f' : File} :
    File.parse f.text = .ok f'
      ↔ (∀ r ∈ f.records, r.payload.length ≤ 255) ∧ Bounded 0 f.records
        ∧ Closed f.records
        ∧ f = f' := by
  obtain ⟨rs⟩ := f
  obtain ⟨rs'⟩ := f'
  rw [parse_eq_ok_iff, File.mk.injEq]
  constructor
  · rintro ⟨hlines, hbounded, hclosed⟩
    rw [entries_text, forall₂_lineOf_iff] at hlines
    obtain ⟨hpayload, rfl⟩ := hlines
    exact ⟨hpayload, hbounded, hclosed, rfl⟩
  · rintro ⟨hpayload, hbounded, hclosed, rfl⟩
    refine ⟨?_, hbounded, hclosed⟩
    rw [entries_text, forall₂_lineOf_iff]
    exact ⟨hpayload, rfl⟩

-- ======================================================== representable

/-- The lists of records that a text can carry: a length byte counts the data
of each record, the end of the file comes last if at all, and all data lie
within the program memory. -/
structure Representable (records : List Record) : Prop where
  counted : ∀ offset bytes, .data offset bytes ∈ records → bytes.length ≤ 255
  ended : .endOfFile ∉ records.dropLast
  bounded : Bounded 0 records

/-- Only data can be too long for the length byte. -/
theorem length_payload_le_iff {r : Record} :
    r.payload.length ≤ 255
      ↔ ∀ offset bytes, r = .data offset bytes → bytes.length ≤ 255 := by
  cases r with
  | data offset bytes => simp [Record.payload]
  | _ => simp [Record.payload, halfBytes, longBytes]

/-- With an end at the end there must be none before. -/
theorem closed_concat_iff {body : List Record} :
    Closed (body ++ [.endOfFile]) ↔ .endOfFile ∉ body := by
  constructor
  · rintro ⟨body', heq, hbody⟩
    rwa [List.append_cancel_right heq]
  · intro hbody
    exact ⟨body, rfl, hbody⟩

/-- The end of a file takes no place in memory. -/
theorem bounded_concat_endOfFile_iff {base : Nat} {rs : List Record} :
    Bounded base (rs ++ [.endOfFile]) ↔ Bounded base rs := by
  induction rs generalizing base with
  | nil =>
      rw [List.nil_append, bounded_cons]
      simp [File.stop, bounded_nil]
  | cons r rs ih => rw [List.cons_append, bounded_cons, bounded_cons, ih]

/-- Closing a list adds what text needs and takes nothing away. -/
theorem records_ofRecords (rs : List Record) :
    ∃ body, (File.ofRecords rs).records = body ++ [.endOfFile]
      ∧ (rs = body ++ [.endOfFile]
        ∨ rs = body ∧ rs.getLast? ≠ some .endOfFile) := by
  unfold File.ofRecords
  split
  · next hlast =>
      obtain ⟨body, rfl⟩ := List.getLast?_eq_some_iff.mp hlast
      exact ⟨body, rfl, .inl rfl⟩
  · next hlast => exact ⟨rs, rfl, .inr ⟨rfl, hlast⟩⟩

/-- If the last record is no end, then an end among the others is an end at
all. -/
theorem not_mem_dropLast_iff {rs : List Record}
    (hlast : rs.getLast? ≠ some .endOfFile) :
    .endOfFile ∉ rs.dropLast ↔ .endOfFile ∉ rs := by
  rcases List.eq_nil_or_concat rs with rfl | ⟨init, r, rfl⟩
  · rfl
  · have hr : Record.endOfFile ≠ r := by
      intro hr
      simp [hr] at hlast
    simp [hr]

/-- Records are representable if the file they make keeps the three rules of
text: lengths, bounds and the end. -/
theorem representable_iff {rs : List Record} :
    Representable rs
      ↔ (∀ r ∈ (File.ofRecords rs).records, r.payload.length ≤ 255)
        ∧ Bounded 0 (File.ofRecords rs).records
        ∧ Closed (File.ofRecords rs).records := by
  have hend : Record.endOfFile.payload.length ≤ 255 := by decide
  have hcounted (body : List Record) : (∀ r ∈ body, r.payload.length ≤ 255)
      ↔ ∀ offset bytes, .data offset bytes ∈ body → bytes.length ≤ 255 := by
    simp only [length_payload_le_iff]
    constructor
    · intro h offset bytes hmem
      exact h _ hmem offset bytes rfl
    · rintro h r hmem offset bytes rfl
      exact h offset bytes hmem
  have hmk : Representable rs
      ↔ (∀ r ∈ rs, r.payload.length ≤ 255) ∧ Bounded 0 rs
      ∧ .endOfFile ∉ rs.dropLast := by
    rw [hcounted]
    constructor
    · intro h
      exact ⟨h.counted, h.bounded, h.ended⟩
    · intro h
      exact ⟨h.1, h.2.2, h.2.1⟩
  obtain ⟨body, hrecords, rfl | ⟨rfl, hlast⟩⟩ := records_ofRecords rs
  · rw [hmk, hrecords, closed_concat_iff, List.dropLast_concat]
  · rw [hmk, hrecords, closed_concat_iff, bounded_concat_endOfFile_iff,
      not_mem_dropLast_iff hlast, List.forall_mem_append,
      List.forall_mem_singleton, and_iff_left hend]

/-- The file of some records is read back exactly if they are representable. -/
theorem parse_ofRecords_iff {rs : List Record} {f : File} :
    File.parse (File.ofRecords rs).text = .ok f
      ↔ Representable rs ∧ File.ofRecords rs = f := by
  rw [parse_text_iff, representable_iff, and_assoc, and_assoc]

/-- Otherwise reading it is an error. -/
theorem exists_error_iff {rs : List Record} :
    (∃ e, File.parse (File.ofRecords rs).text = .error e)
      ↔ ¬ Representable rs := by
  cases hparse : File.parse (File.ofRecords rs).text with
  | error e =>
      simp only [Except.error.injEq, exists_eq', true_iff]
      intro h
      cases hparse.symm.trans (parse_ofRecords_iff.mpr ⟨h, rfl⟩)
  | ok f =>
      simp only [reduceCtorEq, exists_false, false_iff, not_not]
      exact (parse_ofRecords_iff.mp hparse).1

/-- A record that has a line has at most 255 bytes of data. -/
theorem LineOf.length_payload_le {pair : Char → Char → UInt8 → Prop}
    {line : List Char} {r : Record} (h : LineOf pair line r) :
    r.payload.length ≤ 255 := by
  obtain ⟨digits, bytes, -, -, count, high, low, sum, -, hcount, -⟩ := h
  have hlt := count.toNat_lt
  omega

/-- So has every record of a file that was read. -/
theorem length_payload_le_of_lines {pair : Char → Char → UInt8 → Prop}
    {lines : List (List Char)} {rs : List Record}
    (h : List.Forall₂ (LineOf pair) lines rs) :
    ∀ r ∈ rs, r.payload.length ≤ 255 := by
  induction h with
  | nil => simp
  | cons hline _ ih =>
      exact List.forall_mem_cons.mpr ⟨hline.length_payload_le, ih⟩

/-- A file that was read is written as a text that is read as the file. -/
theorem parse_text_of_parse {text : String} {f : File}
    (h : File.parse text = .ok f) :
    File.parse f.text = .ok f := by
  obtain ⟨hlines, hbounded, hclosed⟩ := parse_eq_ok_iff.mp h
  exact parse_text_iff.mpr
    ⟨length_payload_le_of_lines hlines, hbounded, hclosed, rfl⟩

/-- Records survive their text exactly if they are representable, and otherwise
the text is refused. So whatever has been read survives. -/
theorem records_survive_iff_representable (rs : List Record) :
    (File.parse (File.ofRecords rs).text = .ok (File.ofRecords rs)
      ↔ Representable rs)
      ∧ ((∃ e, File.parse (File.ofRecords rs).text = .error e)
        ↔ ¬ Representable rs)
      ∧ ∀ text f, File.parse text = .ok f → File.parse f.text = .ok f := by
  refine ⟨?_, exists_error_iff, fun text f => parse_text_of_parse⟩
  rw [parse_ofRecords_iff, and_iff_left rfl]

/-- A text with blanks, an empty line and small letters, and the text that its
records are written as. -/
theorem records_survive_iff_representable_segment :
    File.parse "\n :020000021000ec\r\n:020004000f9358\n:00000001ff"
        = .ok (.ofRecords [.extendedSegment 0x1000, .data 4 [0x0F, 0x93]])
      ∧ File.parse ":020000021000EC\n:020004000F9358\n:00000001FF\n"
        = .ok (.ofRecords [.extendedSegment 0x1000, .data 4 [0x0F, 0x93]])
      ∧ Representable [.extendedSegment 0x1000, .data 4 [0x0F, 0x93]] := by
  obtain ⟨hsurvive, -, hagain⟩ :=
    records_survive_iff_representable
      [.extendedSegment 0x1000, .data 4 [0x0F, 0x93]]
  have hread : File.parse "\n :020000021000ec\r\n:020004000f9358\n:00000001ff"
      = .ok (.ofRecords
        [.extendedSegment 0x1000, .data 4 [0x0F, 0x93]]) := by decide +kernel
  have htext : (File.ofRecords
      [.extendedSegment 0x1000, .data 4 [0x0F, 0x93]]).text
      = ":020000021000EC\n:020004000F9358\n:00000001FF\n" := by decide +kernel
  have hreread := hagain _ _ hread
  refine ⟨hread, ?_, hsurvive.mp hreread⟩
  rw [← htext]
  exact hreread

end Hex

end AvrFirmware
