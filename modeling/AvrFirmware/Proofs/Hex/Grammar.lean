/-
The texts that are load files.

# The grammar

`Conforms` says what a load file is without reading one. Of its lines the
blank ones are dropped and the others trimmed. What is left spells a
record each (`LineOf`): a colon, then pairs of characters that stand for
bytes, of which the first counts the data bytes and the last brings the
sum to zero. All data stay below the largest program memory, and the
end-of-file record comes once, at the end.

# Digits and signs

The grammar has the pairs as a parameter, because the reader does not
keep to two digits: a numeral may start with a plus sign, and so may a
pair (`SignedPair`). `parse_eq_ok_iff` says that the reader accepts the
grammar over these pairs, and `conforms_digitPair_iff` that a plus sign
is all they have in excess.
-/
import AvrFirmware.Hex.File
import Mathlib

namespace AvrFirmware

namespace Hex

-- ======================================================= digits and pairs

/-- A hexadecimal digit and its value. -/
inductive Digit : Char → Nat → Prop where
  | decimal {c : Char} (h : '0' ≤ c ∧ c ≤ '9') : Digit c (c.toNat - 48)
  | upper {c : Char} (h : 'A' ≤ c ∧ c ≤ 'F') : Digit c (c.toNat - 55)
  | lower {c : Char} (h : 'a' ≤ c ∧ c ≤ 'f') : Digit c (c.toNat - 87)

/-- Two digits stand for a byte. -/
def DigitPair (a b : Char) (n : UInt8) : Prop :=
  ∃ d e, Digit a d ∧ Digit b e ∧ n = UInt8.ofNat (d * 16 + e)

/-- Two digits stand for a byte, and so does a plus sign with one digit. -/
def SignedPair (a b : Char) (n : UInt8) : Prop :=
  DigitPair a b n ∨ a = '+' ∧ ∃ e, Digit b e ∧ n = UInt8.ofNat e

/-- Pairs of characters, and the bytes they stand for. -/
inductive Spelled (pair : Char → Char → UInt8 → Prop) :
    List Char → List UInt8 → Prop where
  | nil : Spelled pair [] []
  | cons {a b : Char} {n : UInt8} {cs : List Char} {bs : List UInt8}
      (h : pair a b n) (rest : Spelled pair cs bs) :
      Spelled pair (a :: b :: cs) (n :: bs)

-- ======================================================== lines and files

/-- The bytes of a record's line. The offset counts for data records only. -/
def Framed (bytes : List UInt8) (r : Record) : Prop :=
  ∃ count high low sum,
    bytes = count :: high :: low :: r.kind :: r.payload ++ [sum]
      ∧ count.toNat = r.payload.length
      ∧ (bytes.map UInt8.toNat).sum % 256 = 0
      ∧ ∀ offset data, r = .data offset data → offset = half high low

/-- A line, without blanks at its ends, and its record. -/
def LineOf (pair : Char → Char → UInt8 → Prop) (line : List Char)
    (r : Record) :
    Prop :=
  ∃ digits bytes, line = ':' :: digits ∧ Spelled pair digits bytes
    ∧ Framed bytes r

/-- The lines that are not blank, without the blanks at their ends. -/
def entries (lines : List (List Char)) : List (List Char) :=
  (lines.map Text.trim).filter (· ≠ [])

/-- The base behind some records: the last one set. -/
def baseAfter (base : Nat) (before : List Record) : Nat :=
  (before.filterMap Record.base?).getLast?.getD base

/-- Data end within the largest program memory. -/
def Bounded (base : Nat) (records : List Record) : Prop :=
  ∀ before offset bytes after,
    records = before ++ .data offset bytes :: after →
    baseAfter base before + offset.toNat + bytes.length ≤ Image.capacity

/-- The end-of-file record comes last and nowhere else. -/
def Closed (records : List Record) : Prop :=
  ∃ body, records = body ++ [.endOfFile] ∧ Record.endOfFile ∉ body

/-- A text is a load file of some records. -/
structure Conforms (pair : Char → Char → UInt8 → Prop) (text : String)
    (records : List Record) :
    Prop where
  lines : List.Forall₂ (LineOf pair) (entries (Text.lines text.toList)) records
  bounded : Bounded 0 records
  closed : Closed records

-- ========================================================== reading pairs

/-- A digit has four bits. -/
theorem Digit.lt {c : Char} {d : Nat} (h : Digit c d) : d < 16 := by
  cases h with
  | decimal h =>
      have hle : c.toNat ≤ 57 := h.2
      omega
  | upper h =>
      have hle : c.toNat ≤ 70 := h.2
      omega
  | lower h =>
      have hle : c.toNat ≤ 102 := h.2
      omega

theorem Digit.ne_plus {c : Char} {d : Nat} (h : Digit c d) : c ≠ '+' := by
  rintro rfl
  cases h with
  | decimal h | upper h | lower h => exact absurd h (by decide)

/-- The digits that are read are those of the grammar. -/
theorem digitValue?_eq_some_iff {c : Char} {d : Nat} :
    Numeral.digitValue? .hexadecimal c = some d ↔ Digit c d := by
  constructor
  · intro h
    simp only [Numeral.digitValue?] at h
    split_ifs at h with hdecimal hlt hlower hlt hupper hlt hnone
    · cases h
      exact .decimal hdecimal
    · cases h
      exact .lower hlower
    · cases h
      exact .upper hupper
    · exact absurd hnone (lt_irrefl _)
  · intro h
    have hlt : d < Radix.hexadecimal.base := h.lt
    simp only [Numeral.digitValue?]
    cases h with
    | decimal h => simp only [h, and_self, if_true, if_pos hlt]
    | upper h =>
        have hdecimal : ¬ ('0' ≤ c ∧ c ≤ '9') :=
          fun h' => absurd (h.1.trans h'.2) (by decide)
        have hlower : ¬ ('a' ≤ c ∧ c ≤ 'f') :=
          fun h' => absurd (h'.1.trans h.2) (by decide)
        rw [if_neg hdecimal, if_neg hlower, if_pos h, if_pos hlt]
    | lower h =>
        have hdecimal : ¬ ('0' ≤ c ∧ c ≤ '9') :=
          fun h' => absurd (h.1.trans h'.2) (by decide)
        rw [if_neg hdecimal, if_pos h, if_pos hlt]

/-- A numeral goes on with a digit while the limit admits it. -/
theorem readFrom_digit_eq_ok_iff {c : Char} {cs : List Char}
    {limit n m : Nat} :
    Numeral.readFrom .hexadecimal limit n (c :: cs) = .ok m
      ↔ ∃ d, Digit c d ∧ n * 16 + d ≤ limit
        ∧ Numeral.readFrom .hexadecimal limit (n * 16 + d) cs = .ok m := by
  simp only [← digitValue?_eq_some_iff]
  rw [Numeral.readFrom]
  split
  · next hc => simp [hc]
  · next d hc =>
      have hbase : Radix.hexadecimal.base = 16 := rfl
      rw [hbase]
      simp only [hc, Option.some.injEq, exists_eq_left']
      split
      · next hle => rw [and_iff_right hle]
      · next hlt => simp [hlt]

/-- The numerals of two characters are two digits, or a plus sign and one. -/
theorem read_pair_eq_ok_iff {a b : Char} {n : UInt8} :
    (∃ m, Numeral.read .hexadecimal 255 [a, b] = .ok m ∧ n = UInt8.ofNat m)
      ↔ SignedPair a b n := by
  by_cases ha : a = '+'
  · subst ha
    constructor
    · rintro ⟨m, hm, rfl⟩
      obtain ⟨e, he, -, hm⟩ := readFrom_digit_eq_ok_iff.mp hm
      cases hm
      exact .inr ⟨rfl, e, he, by simp⟩
    · rintro (⟨d, e, hd, -⟩ | ⟨-, e, he, rfl⟩)
      · exact absurd rfl hd.ne_plus
      · refine ⟨e, readFrom_digit_eq_ok_iff.mpr ⟨e, he, ?_, ?_⟩, rfl⟩
        · have := he.lt
          omega
        · simp [Numeral.readFrom]
  · have hread : Numeral.read .hexadecimal 255 [a, b]
        = Numeral.readFrom .hexadecimal 255 0 [a, b] := by
      unfold Numeral.read
      split <;> simp_all
    rw [hread]
    constructor
    · rintro ⟨m, hm, rfl⟩
      obtain ⟨d, hd, -, hm⟩ := readFrom_digit_eq_ok_iff.mp hm
      obtain ⟨e, he, -, hm⟩ := readFrom_digit_eq_ok_iff.mp hm
      cases hm
      exact .inl ⟨d, e, hd, he, by simp⟩
    · rintro (⟨d, e, hd, he, rfl⟩ | ⟨ha', -⟩)
      · have hdlt := hd.lt
        have helt := he.lt
        refine ⟨d * 16 + e, ?_, rfl⟩
        refine readFrom_digit_eq_ok_iff.mpr ⟨d, hd, by omega, ?_⟩
        refine readFrom_digit_eq_ok_iff.mpr ⟨e, he, by omega, ?_⟩
        simp [Numeral.readFrom]
      · exact absurd ha' ha

/-- Bytes are spelled pair by pair. -/
theorem spelled_cons_iff {pair : Char → Char → UInt8 → Prop} {a b : Char}
    {cs : List Char} {bytes : List UInt8} :
    Spelled pair (a :: b :: cs) bytes
      ↔ ∃ n rest, bytes = n :: rest ∧ pair a b n ∧ Spelled pair cs rest := by
  constructor
  · rintro (_ | ⟨hn, hrest⟩)
    exact ⟨_, _, rfl, hn, hrest⟩
  · rintro ⟨n, rest, rfl, hn, hrest⟩
    exact .cons hn hrest

/-- An even number of characters is read as the bytes it spells. -/
theorem readPairs_eq_ok_iff {cs : List Char} {done bytes : List UInt8}
    (heven : cs.length % 2 = 0) :
    Record.readPairs done cs = .ok bytes
      ↔ ∃ new, bytes = done.reverse ++ new ∧ Spelled SignedPair cs new := by
  fun_induction Record.readPairs done cs with
  | case1 done a b rest n hn ih =>
      have hpair : SignedPair a b (UInt8.ofNat n) :=
        read_pair_eq_ok_iff.mp ⟨n, hn, rfl⟩
      have heven' : rest.length % 2 = 0 := by
        simp only [List.length_cons] at heven
        omega
      rw [ih heven']
      constructor
      · rintro ⟨new, rfl, hnew⟩
        exact ⟨UInt8.ofNat n :: new, by simp, .cons hpair hnew⟩
      · rintro ⟨new, rfl, hnew⟩
        obtain ⟨m, tail, rfl, hm, htail⟩ := spelled_cons_iff.mp hnew
        obtain ⟨k, hk, rfl⟩ := read_pair_eq_ok_iff.mpr hm
        cases hn.symm.trans hk
        exact ⟨tail, by simp, htail⟩
  | case2 done a b rest fault hfault =>
      constructor
      · intro h
        cases h
      · rintro ⟨new, -, hnew⟩
        obtain ⟨m, tail, -, hm, -⟩ := spelled_cons_iff.mp hnew
        obtain ⟨k, hk, -⟩ := read_pair_eq_ok_iff.mpr hm
        cases hfault.symm.trans hk
  | case3 cs done hshort =>
      cases cs with
      | nil =>
          constructor
          · intro h
            cases h
            exact ⟨[], by simp, .nil⟩
          · rintro ⟨new, rfl, hnew⟩
            cases hnew
            simp
      | cons a rest =>
          cases rest with
          | nil => simp at heven
          | cons b rest => exact (hshort a b rest rfl).elim

/-- Whatever spells bytes has an even number of characters. -/
theorem Spelled.even {pair : Char → Char → UInt8 → Prop} {cs : List Char}
    {bytes : List UInt8} (h : Spelled pair cs bytes) : cs.length % 2 = 0 := by
  induction h with
  | nil => rfl
  | cons hn hrest ih =>
      simp only [List.length_cons]
      omega

-- ========================================================= reading records

/-- Two bytes are those of the number they make. -/
theorem halfBytes_eq_iff {n : UInt16} {a b : UInt8} :
    halfBytes n = [a, b] ↔ n = half a b := by
  have ha := a.toNat_lt
  have hb := b.toNat_lt
  have hn := n.toNat_lt
  simp only [halfBytes, half, List.cons.injEq, and_true, ← UInt8.toNat_inj,
    ← UInt16.toNat_inj, UInt8.toNat_ofNat', UInt16.toNat_ofNat']
  omega

/-- Four bytes are those of the number they make. -/
theorem longBytes_eq_iff {n : UInt32} {a b c d : UInt8} :
    longBytes n = [a, b, c, d] ↔ n = long a b c d := by
  have hhigh := (half a b).toNat_lt
  have hlow := (half c d).toNat_lt
  have hn := n.toNat_lt
  have hsplit : longBytes n = [a, b, c, d]
      ↔ halfBytes (UInt16.ofNat (n.toNat / 65536)) = [a, b]
        ∧ halfBytes (UInt16.ofNat (n.toNat % 65536)) = [c, d] := by
    simp [longBytes, halfBytes, and_assoc]
  rw [hsplit, halfBytes_eq_iff, halfBytes_eq_iff, long]
  simp only [← UInt16.toNat_inj, ← UInt32.toNat_inj, UInt16.toNat_ofNat',
    UInt32.toNat_ofNat']
  omega

/-- A record comes back from its type, its offset and its bytes. -/
theorem ofParts_kind {r : Record} {offset : UInt16}
    (h : ∀ o bytes, r = .data o bytes → o = offset) :
    Record.ofParts r.kind offset r.payload = .ok r := by
  cases r with
  | data o bytes =>
      cases h o bytes rfl
      rfl
  | endOfFile => rfl
  | extendedSegment s =>
      have hs := halfBytes_eq_iff.mp (rfl : halfBytes s = _)
      exact congrArg (fun x => Except.ok (Record.extendedSegment x)) hs.symm
  | startSegment cs ip =>
      have hcs := halfBytes_eq_iff.mp (rfl : halfBytes cs = _)
      have hip := halfBytes_eq_iff.mp (rfl : halfBytes ip = _)
      exact congrArg₂ (fun x y => Except.ok (Record.startSegment x y)) hcs.symm
        hip.symm
  | extendedLinear u =>
      have hu := halfBytes_eq_iff.mp (rfl : halfBytes u = _)
      exact congrArg (fun x => Except.ok (Record.extendedLinear x)) hu.symm
  | startLinear a =>
      have ha := longBytes_eq_iff.mp (rfl : longBytes a = _)
      exact congrArg (fun x => Except.ok (Record.startLinear x)) ha.symm

/-- What is made of a type, an offset and some bytes has that type and those
bytes; the offset is kept for data only. -/
theorem ofParts_eq_ok_iff {kind : UInt8} {offset : UInt16} {data : List UInt8}
    {r : Record} :
    Record.ofParts kind offset data = .ok r
      ↔ kind = r.kind ∧ data = r.payload
        ∧ ∀ o bytes, r = .data o bytes → o = offset := by
  constructor
  · intro h
    unfold Record.ofParts at h
    split at h
    · next hk =>
        cases h
        refine ⟨UInt8.toNat_inj.mp hk, rfl, ?_⟩
        rintro o bytes ⟨⟩
        rfl
    all_goals try (split at h)
    all_goals cases h
    all_goals
      refine ⟨UInt8.toNat_inj.mp (by assumption), ?_, by rintro o bytes ⟨⟩⟩
    · rfl
    · exact (halfBytes_eq_iff.mpr rfl).symm
    · exact (congrArg₂ (· ++ ·) (halfBytes_eq_iff.mpr rfl)
        (halfBytes_eq_iff.mpr rfl)).symm
    · exact (halfBytes_eq_iff.mpr rfl).symm
    · exact (longBytes_eq_iff.mpr rfl).symm
  · rintro ⟨rfl, rfl, h⟩
    exact ofParts_kind h

/-- The last byte brings the sum of all bytes to zero. -/
theorem checksum_eq_iff {bytes : List UInt8} {sum : UInt8} :
    checksum bytes = sum
      ↔ ((bytes ++ [sum]).map UInt8.toNat).sum % 256 = 0 := by
  have hfold (s : UInt8) : (bytes.foldl (· + ·) s).toNat
      = (s.toNat + (bytes.map UInt8.toNat).sum) % 256 := by
    induction bytes generalizing s with
    | nil => simp
    | cons b bs ih =>
        rw [List.foldl_cons, ih, UInt8.toNat_add, List.map_cons, List.sum_cons]
        omega
  have hsum := sum.toNat_lt
  have hsize : UInt8.size = 256 := rfl
  rw [checksum, ← UInt8.toNat_inj, UInt8.toNat_neg, hfold, hsize,
    List.map_append, List.sum_append]
  simp only [UInt8.toNat_zero, List.map_cons, List.map_nil, List.sum_cons,
    List.sum_nil]
  omega

/-- The checks on a line of at least five bytes: the length, then the sum, then
the type. -/
theorem ofBytes_frame (count high low kind sum : UInt8) (data : List UInt8) :
    Record.ofBytes (count :: high :: low :: kind :: data ++ [sum])
      = if count.toNat ≠ data.length then
        .error (.lengthMismatch count.toNat data.length)
        else if checksum (count :: high :: low :: kind :: data) ≠ sum then
          .error (.badChecksum
            (checksum (count :: high :: low :: kind :: data)) sum)
        else Record.ofParts kind (half high low) data := by
  cases data with
  | nil => rfl
  | cons c cs =>
      have hdata : (c :: (cs ++ [sum])).dropLast = c :: cs := by
        rw [← List.cons_append, List.dropLast_concat]
      have hlast : (c :: (cs ++ [sum])).getLast (List.cons_ne_nil _ _) = sum :=
        List.getLast_concat (l := c :: cs)
      simp only [Record.ofBytes, List.cons_append, hdata, hlast]

/-- The three checks of a line, with the length and the sum taken apart. -/
theorem ofBytes_concat {count high low kind sum : UInt8} {data : List UInt8}
    {r : Record} :
    Record.ofBytes (count :: high :: low :: kind :: data ++ [sum]) = .ok r
      ↔ count.toNat = data.length
        ∧ checksum (count :: high :: low :: kind :: data) = sum
        ∧ Record.ofParts kind (half high low) data = .ok r := by
  rw [ofBytes_frame]
  split_ifs with hcount hsum
  · simp [hcount]
  · simp [hsum]
  · simp_all

/-- The bytes that are accepted are the frames of the grammar. -/
theorem ofBytes_eq_ok_iff {bytes : List UInt8} {r : Record} :
    Record.ofBytes bytes = .ok r ↔ Framed bytes r := by
  constructor
  · intro h
    have hlong : ∃ count high low kind c cs,
        bytes = count :: high :: low :: kind :: c :: cs := by
      unfold Record.ofBytes at h
      split at h
      · exact ⟨_, _, _, _, _, _, rfl⟩
      · cases h
    obtain ⟨count, high, low, kind, c, cs, rfl⟩ := hlong
    rw [← List.dropLast_append_getLast (List.cons_ne_nil c cs)] at h ⊢
    obtain ⟨hcount, hsum, hparts⟩ := ofBytes_concat.mp h
    obtain ⟨rfl, hdata, hoffset⟩ := ofParts_eq_ok_iff.mp hparts
    rw [hdata] at hcount hsum ⊢
    exact ⟨count, high, low, _, rfl, hcount, checksum_eq_iff.mp hsum, hoffset⟩
  · rintro ⟨count, high, low, sum, rfl, hcount, hsum, hoffset⟩
    exact ofBytes_concat.mpr
      ⟨hcount, checksum_eq_iff.mpr hsum, ofParts_kind hoffset⟩

/-- Pairs of ASCII characters make a line of ASCII characters. -/
theorem Spelled.ascii {pair : Char → Char → UInt8 → Prop} {cs : List Char}
    {bytes : List UInt8}
    (hpair : ∀ a b n, pair a b n → a.toNat < 128 ∧ b.toNat < 128)
    (h : Spelled pair cs bytes) :
    cs.any (128 ≤ ·.toNat) = false := by
  induction h with
  | nil => rfl
  | cons hn hrest ih =>
      obtain ⟨ha, hb⟩ := hpair _ _ _ hn
      simp [ih, ha, hb]

theorem Digit.ascii {c : Char} {d : Nat} (h : Digit c d) : c.toNat < 128 := by
  cases h with
  | decimal h => exact lt_of_le_of_lt (h.2 : c.toNat ≤ 57) (by decide)
  | upper h => exact lt_of_le_of_lt (h.2 : c.toNat ≤ 70) (by decide)
  | lower h => exact lt_of_le_of_lt (h.2 : c.toNat ≤ 102) (by decide)

/-- So is a plus sign with a digit. -/
theorem SignedPair.ascii (a b : Char) (n : UInt8) (h : SignedPair a b n) :
    a.toNat < 128 ∧ b.toNat < 128 := by
  rcases h with ⟨d, e, hd, he, -⟩ | ⟨rfl, e, he, -⟩
  · exact ⟨hd.ascii, he.ascii⟩
  · exact ⟨by decide, he.ascii⟩

/-- A line of pairs is read as the bytes that the pairs stand for. -/
theorem parse_of_spelled {digits : List Char} {bytes : List UInt8}
    (h : Spelled SignedPair digits bytes) :
    Record.parse (':' :: digits) = Record.ofBytes bytes := by
  have hread : Record.readPairs [] digits = .ok bytes :=
    (readPairs_eq_ok_iff h.even).mpr ⟨bytes, rfl, h⟩
  simp only [Record.parse, h.ascii SignedPair.ascii, h.even, hread]
  rfl

/-- The lines that are accepted are those of the grammar over signed pairs. -/
theorem record_parse_eq_ok_iff {cs : List Char} {r : Record} :
    Record.parse cs = .ok r ↔ LineOf SignedPair cs r := by
  constructor
  · intro h
    unfold Record.parse at h
    split at h
    · next digits =>
        split_ifs at h with hascii heven
        split at h
        · next bytes hbytes =>
            obtain ⟨new, rfl, hnew⟩ :=
              (readPairs_eq_ok_iff (not_ne_iff.mp heven)).mp hbytes
            exact ⟨digits, bytes, rfl, hnew, ofBytes_eq_ok_iff.mp h⟩
        · cases h
    · cases h
  · rintro ⟨digits, bytes, rfl, hdigits, hframed⟩
    rw [parse_of_spelled hdigits]
    exact ofBytes_eq_ok_iff.mpr hframed

-- =========================================================== reading files

theorem baseAfter_cons (base : Nat) (r : Record) (rs : List Record) :
    baseAfter base (r :: rs) = baseAfter (r.base?.getD base) rs := by
  unfold baseAfter
  cases h : r.base? with
  | none => rw [List.filterMap_cons_none h, Option.getD_none]
  | some b =>
      rw [List.filterMap_cons_some h, List.getLast?_cons, Option.getD_some,
        Option.getD_some]

/-- Bounds hold of a list if they hold of its first record and, with the base
behind it, of the others. -/
theorem bounded_cons {base : Nat} {r : Record} {rs : List Record} :
    Bounded base (r :: rs)
      ↔ File.stop (r.base?.getD base) r ≤ Image.capacity
        ∧ Bounded (r.base?.getD base) rs := by
  constructor
  · intro h
    refine ⟨?_, ?_⟩
    · cases r with
      | data offset bytes => exact h [] offset bytes rs rfl
      | _ => exact Nat.zero_le _
    · rintro before offset bytes after rfl
      rw [← baseAfter_cons]
      exact h (r :: before) offset bytes after rfl
  · rintro ⟨hstop, hrs⟩ before offset bytes after heq
    cases before with
    | nil =>
        cases heq
        exact hstop
    | cons r' before =>
        cases heq
        rw [baseAfter_cons]
        exact hrs before offset bytes after rfl

/-- An end closes a list only if nothing follows. -/
theorem closed_cons {r : Record} {rs : List Record} :
    Closed (r :: rs) ↔ if r = .endOfFile then rs = [] else Closed rs := by
  constructor
  · rintro ⟨body, heq, hbody⟩
    cases body with
    | nil =>
        cases heq
        simp
    | cons r' body =>
        cases heq
        rw [List.mem_cons, not_or] at hbody
        rw [if_neg (Ne.symm hbody.1)]
        exact ⟨body, rfl, hbody.2⟩
  · split
    · next hr =>
        rintro rfl
        exact ⟨[], by simp [hr], by simp⟩
    · next hr =>
        rintro ⟨body, rfl, hbody⟩
        exact ⟨r :: body, rfl, by simp [hbody, Ne.symm hr]⟩

theorem not_closed_nil : ¬ Closed [] := by
  rintro ⟨body, heq, -⟩
  simp at heq

theorem bounded_nil (base : Nat) : Bounded base [] := by
  rintro before offset bytes after heq
  simp at heq

/-- A blank line is not an entry. -/
theorem entries_cons_of_blank {raw : List Char} {rest : List (List Char)}
    (h : Text.trim raw = []) : entries (raw :: rest) = entries rest := by
  simp [entries, h]

/-- Any other line is one, trimmed. -/
theorem entries_cons {raw : List Char} {rest : List (List Char)} {c : Char}
    {cs : List Char} (h : Text.trim raw = c :: cs) :
    entries (raw :: rest) = (c :: cs) :: entries rest := by
  simp [entries, h]

/-- A blank line is passed over and counted. -/
theorem readLines_blank {base line : Nat} {ended : Bool} {done : List Record}
    {raw : List Char} {rest : List (List Char)} (htrim : Text.trim raw = []) :
    File.readLines base ended done line (raw :: rest)
      = File.readLines base ended done (line + 1) rest := by
  simp only [File.readLines, htrim]

/-- A line before the end that is not one of a record is refused for its own
fault. -/
theorem readLines_refused {base line : Nat} {done : List Record}
    {raw : List Char} {rest : List (List Char)} {c : Char} {cs : List Char}
    {cause : Cause} (htrim : Text.trim raw = c :: cs)
    (hparse : Record.parse (c :: cs) = .error cause) :
    File.readLines base false done line (raw :: rest)
      = .error (.onLine line cause) := by
  simp only [File.readLines, htrim, hparse, Bool.false_eq_true, if_false]

/-- The line of a record before the end: the record is taken unless it goes
past the memory. -/
theorem readLines_record {base line : Nat} {done : List Record}
    {raw : List Char} {rest : List (List Char)} {c : Char} {cs : List Char}
    {r : Record} (htrim : Text.trim raw = c :: cs)
    (hparse : Record.parse (c :: cs) = .ok r) :
    File.readLines base false done line (raw :: rest)
      = if Image.capacity < File.stop (r.base?.getD base) r then
          .error (.onLine line (.tooLarge (File.stop (r.base?.getD base) r)))
        else File.readLines (r.base?.getD base) (r = .endOfFile) (r :: done)
          (line + 1) rest := by
  simp only [File.readLines, htrim, hparse, Bool.false_eq_true, if_false]

/-- One line that is not blank: it has to stand before the end and to be the
line of a record that lies within the memory. -/
theorem readLines_entry_iff {base line : Nat} {ended : Bool}
    {done records : List Record} {raw : List Char} {rest : List (List Char)}
    {c : Char} {cs : List Char} (htrim : Text.trim raw = c :: cs) :
    File.readLines base ended done line (raw :: rest) = .ok records
      ↔ ended = false ∧ ∃ r, LineOf SignedPair (c :: cs) r
        ∧ File.stop (r.base?.getD base) r ≤ Image.capacity
        ∧ File.readLines (r.base?.getD base) (r = .endOfFile) (r :: done)
          (line + 1) rest
          = .ok records := by
  rw [← exists_congr fun r => and_congr_left' record_parse_eq_ok_iff]
  cases ended with
  | true => simp [File.readLines, htrim]
  | false =>
      cases hparse : Record.parse (c :: cs) with
      | error cause => simp [readLines_refused htrim hparse]
      | ok r =>
          rw [readLines_record htrim hparse]
          simp only [true_and, Except.ok.injEq, exists_eq_left']
          split_ifs with hstop
          · simp only [false_iff, not_and]
            intro hle
            omega
          · rw [and_iff_right (not_lt.mp hstop)]

/-- Reading lines behind `done`: behind the end nothing may follow, and before
it the records that follow have to be closed. -/
theorem readLines_eq_ok_iff {base line : Nat} {ended : Bool}
    {done records : List Record} {lines : List (List Char)} :
    File.readLines base ended done line lines = .ok records
      ↔ ∃ new, records = done.reverse ++ new
        ∧ List.Forall₂ (LineOf SignedPair) (entries lines) new
        ∧ Bounded base new ∧ if ended then new = [] else Closed new := by
  induction lines generalizing base line ended done with
  | nil =>
      have hentries : entries [] = [] := rfl
      simp only [File.readLines, hentries, List.forall₂_nil_left_iff]
      cases ended with
      | false => simp [not_closed_nil]
      | true => simp [bounded_nil, eq_comm]
  | cons raw rest ih =>
      cases htrim : Text.trim raw with
      | nil =>
          rw [readLines_blank htrim, ih, entries_cons_of_blank htrim]
      | cons c cs =>
          simp only [readLines_entry_iff htrim, ih, entries_cons htrim,
            List.forall₂_cons_left_iff, decide_eq_true_eq, ← closed_cons]
          constructor
          · rintro ⟨rfl, r, hr, hstop, rs, rfl, hrs, hbounded, hclosed⟩
            refine ⟨r :: rs, by simp, ⟨r, rs, hr, hrs, rfl⟩, ?_, hclosed⟩
            exact bounded_cons.mpr ⟨hstop, hbounded⟩
          · rintro ⟨-, rfl, ⟨r, rs, hr, hrs, rfl⟩, hbounded, hclosed⟩
            cases ended with
            | true => cases hclosed
            | false =>
                obtain ⟨hstop, hbounded⟩ := bounded_cons.mp hbounded
                exact ⟨rfl, r, hr, hstop, rs, by simp, hrs, hbounded, hclosed⟩

/-- The reader accepts the grammar over signed pairs, and returns the records
it names. -/
theorem parse_eq_ok_iff {text : String} {f : File} :
    File.parse text = .ok f ↔ Conforms SignedPair text f.records := by
  obtain ⟨records⟩ := f
  have hread : File.parse text = .ok ⟨records⟩
      ↔ File.readLines 0 false [] 1 (Text.lines text.toList)
        = .ok records := by
    unfold File.parse
    split
    · next new hnew => simp [hnew]
    · next e he => simp [he]
  rw [hread, readLines_eq_ok_iff]
  constructor
  · rintro ⟨new, rfl, hlines, hbounded, hclosed⟩
    exact ⟨hlines, hbounded, hclosed⟩
  · rintro ⟨hlines, hbounded, hclosed⟩
    exact ⟨records, rfl, hlines, hbounded, hclosed⟩

-- ============================================================== plus signs

/-- Two digits are a signed pair without a plus sign. -/
theorem spelled_digitPair_iff {cs : List Char} {bytes : List UInt8} :
    Spelled DigitPair cs bytes ↔ Spelled SignedPair cs bytes ∧ '+' ∉ cs := by
  constructor
  · intro h
    induction h with
    | nil => exact ⟨.nil, List.not_mem_nil⟩
    | cons hn hrest ih =>
        refine ⟨.cons (.inl hn) ih.1, ?_⟩
        obtain ⟨d, e, hd, he, -⟩ := hn
        simp [hd.ne_plus.symm, he.ne_plus.symm, ih.2]
  · rintro ⟨h, hplus⟩
    induction h with
    | nil => exact .nil
    | cons hn hrest ih =>
        simp only [List.mem_cons, not_or] at hplus
        rcases hn with hn | ⟨rfl, -⟩
        · exact .cons hn (ih hplus.2.2)
        · exact absurd rfl hplus.1

/-- The same of lines. -/
theorem lineOf_digitPair_iff {line : List Char} {r : Record} :
    LineOf DigitPair line r ↔ '+' ∉ line ∧ LineOf SignedPair line r := by
  constructor
  · rintro ⟨digits, bytes, rfl, hdigits, hframed⟩
    obtain ⟨hdigits, hplus⟩ := spelled_digitPair_iff.mp hdigits
    exact ⟨by simp [hplus], digits, bytes, rfl, hdigits, hframed⟩
  · rintro ⟨hplus, digits, bytes, rfl, hdigits, hframed⟩
    rw [List.mem_cons, not_or] at hplus
    exact ⟨digits, bytes, rfl, spelled_digitPair_iff.mpr ⟨hdigits, hplus.2⟩,
      hframed⟩

/-- Dropping blanks loses no other character. -/
theorem mem_dropWhile_isBlank {c : Char} (hc : Text.isBlank c = false)
    {cs : List Char} :
    c ∈ cs.dropWhile Text.isBlank ↔ c ∈ cs := by
  induction cs with
  | nil => simp
  | cons x xs ih =>
      rw [List.dropWhile_cons]
      split
      · next hx =>
          have hne : c ≠ x := by
            rintro rfl
            rw [hc] at hx
            cases hx
          rw [ih, List.mem_cons, or_iff_right hne]
      · rfl

theorem mem_trim {c : Char} (hc : Text.isBlank c = false) {cs : List Char} :
    c ∈ Text.trim cs ↔ c ∈ cs := by
  rw [Text.trim, List.mem_reverse, mem_dropWhile_isBlank hc, List.mem_reverse,
    mem_dropWhile_isBlank hc]

/-- Cutting a text into lines loses its line feeds only. -/
theorem mem_flatten_linesFrom {c : Char} (hc : c ≠ '\n')
    {done : List (List Char)} {line cs : List Char} :
    c ∈ (Text.linesFrom done line cs).flatten
      ↔ c ∈ done.flatten ∨ c ∈ line ∨ c ∈ cs := by
  induction cs generalizing done line with
  | nil => simp [Text.linesFrom, or_comm]
  | cons x xs ih =>
      rw [Text.linesFrom]
      split
      · next hx =>
          have hne : c ≠ x := hx ▸ hc
          rw [ih, List.flatten_cons, List.mem_append, List.mem_reverse,
            List.mem_cons, or_iff_right hne]
          simp only [List.not_mem_nil, false_or, or_assoc, or_left_comm]
      · rw [ih, List.mem_cons, List.mem_cons]
        simp only [or_assoc, or_left_comm]

/-- The lines of a file hold every character of its text but blanks. -/
theorem mem_flatten_entries {c : Char} (hc : Text.isBlank c = false)
    {cs : List Char} :
    c ∈ (entries (Text.lines cs)).flatten ↔ c ∈ cs := by
  have hentries (ls : List (List Char)) : c ∈ (entries ls).flatten
      ↔ c ∈ ls.flatten := by
    simp only [List.mem_flatten, entries, List.mem_filter, List.mem_map,
      decide_eq_true_eq]
    constructor
    · rintro ⟨-, ⟨⟨l, hl, rfl⟩, -⟩, hmem⟩
      exact ⟨l, hl, (mem_trim hc).mp hmem⟩
    · rintro ⟨l, hl, hmem⟩
      have htrim := (mem_trim hc).mpr hmem
      exact ⟨Text.trim l, ⟨⟨l, hl, rfl⟩, List.ne_nil_of_mem htrim⟩, htrim⟩
  have hnewline : c ≠ '\n' := by
    rintro rfl
    exact absurd hc (by decide)
  rw [hentries, Text.lines, mem_flatten_linesFrom hnewline]
  simp

/-- The plus sign is all that the reader accepts in excess. -/
theorem conforms_digitPair_iff {text : String} {records : List Record} :
    Conforms DigitPair text records
      ↔ Conforms SignedPair text records ∧ '+' ∉ text.toList := by
  have hlines : List.Forall₂ (LineOf DigitPair)
      (entries (Text.lines text.toList)) records
      ↔ '+' ∉ text.toList
        ∧ List.Forall₂ (LineOf SignedPair) (entries (Text.lines text.toList))
          records := by
    have hline : LineOf DigitPair
        = fun line r => '+' ∉ line ∧ LineOf SignedPair line r := by
      funext line r
      exact propext lineOf_digitPair_iff
    rw [hline, List.forall₂_and_left,
      ← mem_flatten_entries (c := '+') (by decide), List.mem_flatten]
    simp
  constructor
  · rintro ⟨h, hbounded, hclosed⟩
    obtain ⟨hplus, h⟩ := hlines.mp h
    exact ⟨⟨h, hbounded, hclosed⟩, hplus⟩
  · rintro ⟨⟨h, hbounded, hclosed⟩, hplus⟩
    exact ⟨hlines.mpr ⟨hplus, h⟩, hbounded, hclosed⟩

/-- The reader accepts the load files and, with them, texts in which a plus
sign takes the place of a pair's first digit. -/
theorem load_files_accepted (text : String) (f : File) :
    (File.parse text = .ok f ↔ Conforms SignedPair text f.records)
      ∧ (Conforms DigitPair text f.records
        ↔ File.parse text = .ok f ∧ '+' ∉ text.toList) := by
  rw [conforms_digitPair_iff, parse_eq_ok_iff]
  exact ⟨Iff.rfl, Iff.rfl⟩

/-- A record with `+F` for a byte is accepted. -/
theorem plus_sign_accepted :
    File.parse ":04000000+F930895BD\n:00000001FF\n"
        = .ok ⟨[.data 0 [0x0F, 0x93, 0x08, 0x95], .endOfFile]⟩
      ∧ ∀ records,
        ¬ Conforms DigitPair ":04000000+F930895BD\n:00000001FF\n" records := by
  refine ⟨by decide +kernel, ?_⟩
  intro records h
  exact absurd (conforms_digitPair_iff.mp h).2 (by decide +kernel)

end Hex

end AvrFirmware
