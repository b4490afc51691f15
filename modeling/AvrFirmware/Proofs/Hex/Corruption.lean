/-
A byte that was changed is found, and found in its line.

# One record

The first byte counts the data, so another first byte disagrees with the
line it stands in. Any other byte changes the sum of the line by less than
256 and not by zero, so the sum is no longer a multiple of 256. Both are
checked before the type is looked at: `ofBytes_set` holds whatever type the
changed bytes name.

# One file

A file that was read is written without blanks, so each byte has two
characters of the text to itself (`toList_text_eq`), and putting two other
digits there changes one line and none of the others (`lines_withPair`). The
lines before it are read as they were (`readLines_records`), and reading
ends where the fault is.
-/
import AvrFirmware.Proofs.Hex.Transfer

namespace AvrFirmware

namespace Hex

variable {bytes : List UInt8} {i k : Nat} {old byte : UInt8} {r : Record}
  {f : File}

-- ============================================================ one record

/-- What is wrong with the line of a record when one of its bytes is another:
the length if that is the byte, and the checksum wherever else it stands. -/
def Record.faultAt (r : Record) (i : Nat) (byte : UInt8) : Cause :=
  if i = 0 then .lengthMismatch byte.toNat r.payload.length
  else .badChecksum (checksum (r.bytes.set i byte).dropLast)
    ((r.bytes.set i byte).getLastD 0)

/-- The sum goes along with the byte that is changed. -/
theorem sum_set (hold : bytes[i]? = some old) (byte : UInt8) :
    ((bytes.set i byte).map UInt8.toNat).sum + old.toNat
      = (bytes.map UInt8.toNat).sum + byte.toNat := by
  induction bytes generalizing i with
  | nil => cases hold
  | cons b bytes ih =>
      cases i with
      | zero =>
          cases hold
          simp only [List.set_cons_zero, List.map_cons, List.sum_cons]
          omega
      | succ i =>
          have hrest := ih hold
          simp only [List.set_cons_succ, List.map_cons, List.sum_cons]
          omega

/-- Five bytes or more have the parts of a record. -/
theorem exists_frame (h : 5 ≤ bytes.length) :
    ∃ count high low kind data sum,
      bytes = count :: high :: low :: kind :: data ++ [sum] := by
  obtain ⟨count, high, low, kind, tail, rfl⟩ : ∃ count high low kind tail,
      bytes = count :: high :: low :: kind :: tail := by
    rcases bytes with _ | ⟨count, _ | ⟨high, _ | ⟨low, _ | ⟨kind, tail⟩⟩⟩⟩
    · simp at h
    · simp at h
    · simp at h
    · simp at h
    · exact ⟨count, high, low, kind, tail, rfl⟩
  rcases tail.eq_nil_or_concat' with rfl | ⟨data, sum, rfl⟩
  · simp at h
  · exact ⟨count, high, low, kind, data, sum, rfl⟩

/-- A line that is as long as it says but has a sum other than zero. -/
theorem ofBytes_eq_badChecksum {count : UInt8}
    (hcount : bytes.head? = some count)
    (hlength : bytes.length = count.toNat + 5)
    (hsum : (bytes.map UInt8.toNat).sum % 256 ≠ 0) :
    Record.ofBytes bytes
      = .error (.badChecksum (checksum bytes.dropLast)
        (bytes.getLastD 0)) := by
  have hfive : 5 ≤ bytes.length := by omega
  obtain ⟨_, high, low, kind, data, sum, rfl⟩ := exists_frame hfive
  cases hcount
  have hdata : count.toNat = data.length := by
    simp only [List.length_append, List.length_cons,
      List.length_nil] at hlength
    omega
  rw [ofBytes_frame, if_neg (not_not_intro hdata),
    if_pos (mt checksum_eq_iff.mp hsum), List.dropLast_concat,
    List.getLastD_concat]

theorem length_bytes (r : Record) : r.bytes.length = r.payload.length + 5 := by
  simp [Record.bytes, Record.body, halfBytes]

theorem sum_bytes (r : Record) : (r.bytes.map UInt8.toNat).sum % 256 = 0 :=
  checksum_eq_iff.mp rfl

/-- A record with another byte in one place is refused for that byte. -/
theorem ofBytes_set (hr : r.payload.length ≤ 255)
    (hold : r.bytes[i]? = some old) (hne : byte ≠ old) :
    Record.ofBytes (r.bytes.set i byte) = .error (r.faultAt i byte) := by
  have hcount : (UInt8.ofNat r.payload.length).toNat = r.payload.length :=
    UInt8.toNat_ofNat_of_lt' (show _ < 256 by omega)
  have hdiffer : byte.toNat ≠ old.toNat := fun h => hne (UInt8.toNat_inj.mp h)
  cases i with
  | zero =>
      cases hold
      rw [hcount] at hdiffer
      have hfirst : r.bytes.set 0 byte
          = byte :: UInt8.ofNat (r.offset.toNat / 256)
          :: UInt8.ofNat (r.offset.toNat % 256) :: r.kind :: r.payload
            ++ [checksum r.body] := rfl
      rw [hfirst, ofBytes_frame, if_pos hdiffer]
      rfl
  | succ i =>
      have hsum := sum_set hold byte
      have hzero := sum_bytes r
      have hbyte := byte.toNat_lt
      have hlt := old.toNat_lt
      have hhead : (r.bytes.set (i + 1) byte).head?
          = some (UInt8.ofNat r.payload.length) := rfl
      refine ofBytes_eq_badChecksum hhead ?_ ?_
      · rw [List.length_set, length_bytes, hcount]
      · omega

-- ============================================================== one file

/-- Where the two digits of a byte stand in the text of a file: behind the
lines of the records before, the colon, and the bytes before. -/
def File.pairStart (f : File) (k i : Nat) : Nat :=
  (⟨f.records.take k⟩ : File).text.toList.length + 1 + 2 * i

/-- The text of a file with two other characters for a byte of a record. -/
def File.withPair (f : File) (k i : Nat) (a b : Char) : String :=
  String.ofList
    ((f.text.toList.set (f.pairStart k i) a).set (f.pairStart k i + 1) b)

theorem Spelled.append {pair : Char → Char → UInt8 → Prop} {cs ds : List Char}
    {front back : List UInt8} (hfront : Spelled pair cs front)
    (hback : Spelled pair ds back) :
    Spelled pair (cs ++ ds) (front ++ back) := by
  induction hfront with
  | nil => exact hback
  | cons hpair _ ih => exact .cons hpair ih

theorem length_flatMap_pairOf (bytes : List UInt8) :
    (bytes.flatMap pairOf).length = 2 * bytes.length := by
  induction bytes with
  | nil => rfl
  | cons b bytes ih =>
      rw [List.flatMap_cons, List.length_append, ih, List.length_cons, pairOf,
        List.length_cons, List.length_singleton]
      omega

/-- A list is what stands before, at and after one of its places. -/
theorem eq_take_append_cons_drop {α : Type} {l : List α} {x : α}
    (h : l[k]? = some x) :
    l = l.take k ++ x :: l.drop (k + 1) := by
  obtain ⟨hk, hx⟩ := List.getElem?_eq_some_iff.mp h
  rw [← hx, List.getElem_cons_drop, List.take_append_drop]

/-- The text in front of the digits of a byte. -/
def File.textFront (f : File) (k : Nat) (r : Record) (i : Nat) : List Char :=
  (⟨f.records.take k⟩ : File).text.toList
    ++ ':' :: (r.bytes.take i).flatMap pairOf

/-- The text behind the digits of a byte. -/
def File.textBack (f : File) (k : Nat) (r : Record) (i : Nat) : List Char :=
  (r.bytes.drop (i + 1)).flatMap pairOf
    ++ '\n' :: (⟨f.records.drop (k + 1)⟩ : File).text.toList

theorem length_textFront (hold : r.bytes[i]? = some old) :
    (f.textFront k r i).length = f.pairStart k i := by
  obtain ⟨hi, -⟩ := List.getElem?_eq_some_iff.mp hold
  rw [File.textFront, File.pairStart, List.length_append, List.length_cons,
    length_flatMap_pairOf, List.length_take_of_le (Nat.le_of_lt hi)]
  omega

/-- A byte of a record has two characters of the text to itself. -/
theorem toList_text_eq (hr : f.records[k]? = some r)
    (hold : r.bytes[i]? = some old) :
    f.text.toList = f.textFront k r i ++ pairOf old ++ f.textBack k r i := by
  have hrecords := eq_take_append_cons_drop hr
  have hbytes := eq_take_append_cons_drop hold
  have htext : f.text.toList = (⟨f.records.take k⟩ : File).text.toList
      ++ (r.line.toList
        ++ '\n' :: (⟨f.records.drop (k + 1)⟩ : File).text.toList) := by
    conv_lhs => rw [toList_text, hrecords]
    rw [toList_text, toList_text, List.flatMap_append, List.flatMap_cons,
      List.append_assoc, List.singleton_append]
  have hline : r.line.toList
      = ':' :: ((r.bytes.take i).flatMap pairOf ++ (pairOf old
      ++ (r.bytes.drop (i + 1)).flatMap pairOf)) := by
    rw [toList_line, ← List.flatMap_cons, ← List.flatMap_append, ← hbytes]
  rw [htext, hline, File.textFront, File.textBack]
  simp only [List.append_assoc, List.cons_append]

/-- Two characters put in the place of two others. -/
theorem set_pair (front back : List Char) (x y a b : Char) :
    ((front ++ [x, y] ++ back).set front.length a).set (front.length + 1) b
      = front ++ [a, b] ++ back := by
  rw [List.append_assoc, List.append_assoc,
    List.set_append_right _ _ (Nat.le_refl _), Nat.sub_self,
    List.set_append_right _ _ (Nat.le_add_right _ _), Nat.add_sub_cancel_left]
  rfl

theorem toList_withPair (hr : f.records[k]? = some r)
    (hold : r.bytes[i]? = some old) (a b : Char) :
    (f.withPair k i a b).toList
      = f.textFront k r i ++ [a, b] ++ f.textBack k r i := by
  rw [File.withPair, String.toList_ofList, toList_text_eq hr hold,
    ← length_textFront hold, pairOf, set_pair]

/-- The line of a record with two other characters for a byte. -/
def Record.lineWithPair (r : Record) (i : Nat) (a b : Char) : List Char :=
  ':'
    :: ((r.bytes.take i).flatMap pairOf
      ++ a :: b :: (r.bytes.drop (i + 1)).flatMap pairOf)

/-- Two other digits for a byte spell the bytes with that one changed. -/
theorem spelled_lineWithPair {a b : Char} (hold : r.bytes[i]? = some old)
    (hpair : DigitPair a b byte) :
    ∃ digits, r.lineWithPair i a b = ':' :: digits
      ∧ Spelled DigitPair digits (r.bytes.set i byte) := by
  obtain ⟨hi, -⟩ := List.getElem?_eq_some_iff.mp hold
  refine ⟨_, rfl, ?_⟩
  rw [List.set_eq_take_append_cons_drop, if_pos hi]
  exact (spelled_pairs _).append (.cons hpair (spelled_pairs _))

/-- Other digits for a byte change one line. -/
theorem lines_withPair {a b : Char} (hr : f.records[k]? = some r)
    (hold : r.bytes[i]? = some old) (hpair : DigitPair a b byte) :
    Text.lines (f.withPair k i a b).toList
      = (f.records.take k).map (·.line.toList) ++ r.lineWithPair i a b
        :: ((f.records.drop (k + 1)).map (·.line.toList) ++ [[]]) := by
  obtain ⟨digits, hline, hspelled⟩ := spelled_lineWithPair hold hpair
  have hblank : '\n' ∉ r.lineWithPair i a b := by
    rw [hline]
    exact newline_not_mem_of_not_isBlank (not_isBlank_of_spelled hspelled)
  have htext : (f.withPair k i a b).toList
      = (⟨f.records.take k⟩ : File).text.toList
      ++ (r.lineWithPair i a b
        ++ '\n' :: (⟨f.records.drop (k + 1)⟩ : File).text.toList) := by
    rw [toList_withPair hr hold, File.textFront, File.textBack,
      Record.lineWithPair]
    simp only [List.append_assoc, List.cons_append, List.nil_append]
  rw [htext, lines_text_append, lines_append_newline hblank, lines_text]

-- ============================================================ reading it

theorem Bounded.of_append {base : Nat} {before after : List Record}
    (h : Bounded base (before ++ after)) : Bounded base before := by
  intro front offset bytes back hbefore
  refine h front offset bytes (back ++ after) ?_
  rw [hbefore, List.append_assoc, List.cons_append]

theorem Closed.not_mem_before {before after : List Record}
    (h : Closed (before ++ r :: after)) : .endOfFile ∉ before := by
  induction before with
  | nil => exact List.not_mem_nil
  | cons r' before ih =>
      rw [List.cons_append, closed_cons] at h
      split at h
      · simp at h
      · next hr' =>
          rw [List.mem_cons, not_or]
          exact ⟨Ne.symm hr', ih h⟩

/-- Written records that stay within the memory and do not end the file are
read one by one. -/
theorem readLines_records {base : Nat} {rs : List Record}
    (hpayload : ∀ r ∈ rs, r.payload.length ≤ 255) (hend : .endOfFile ∉ rs)
    (hbounded : Bounded base rs) (done : List Record) (line : Nat)
    (rest : List (List Char)) :
    File.readLines base false done line (rs.map (·.line.toList) ++ rest)
      = File.readLines (baseAfter base rs) false (rs.reverse ++ done)
        (line + rs.length) rest := by
  induction rs generalizing base done line with
  | nil => rfl
  | cons r rs ih =>
      obtain ⟨hr, hrs⟩ := List.forall_mem_cons.mp hpayload
      obtain ⟨hstop, hbounded⟩ := bounded_cons.mp hbounded
      rw [List.mem_cons, not_or] at hend
      rw [List.map_cons, List.cons_append, readLines_line hr,
        if_neg (Nat.not_lt.mpr hstop), decide_eq_false (Ne.symm hend.1),
        ih hrs hend.2 hbounded, baseAfter_cons, List.reverse_cons,
        List.append_assoc, List.length_cons, Nat.add_assoc, Nat.add_comm 1]
      rfl

/-- A line of pairs that stand for a faulty record ends the reading. -/
theorem readLines_fault {base line : Nat} {done : List Record}
    {digits : List Char} {rest : List (List Char)} {cause : Cause}
    (hspelled : Spelled DigitPair digits bytes)
    (hfault : Record.ofBytes bytes = .error cause) :
    File.readLines base false done line ((':' :: digits) :: rest)
      = .error (.onLine line cause) := by
  have htrim := trim_of_not_isBlank (not_isBlank_of_spelled hspelled)
  apply readLines_refused htrim
  rw [parse_of_spelled (spelled_digitPair_iff.mp hspelled).1, hfault]

/-- Every change of one byte is found, and found in its line. In the text of a
file that was read, each byte of each record has two digits. Put the digits of
any other byte there, and the text is refused at the line of that record: for
its length if the byte is the length, and for its checksum wherever else it
stands. -/
theorem changed_byte_located {text : String} {a b : Char}
    (hparse : File.parse text = .ok f) (hr : f.records[k]? = some r)
    (hold : r.bytes[i]? = some old) (hne : byte ≠ old)
    (hpair : DigitPair a b byte) :
    (f.text.toList.drop (f.pairStart k i)).take 2 = pairOf old
      ∧ File.parse (f.withPair k i a b)
        = .error (.onLine (k + 1) (r.faultAt i byte)) := by
  obtain ⟨hlines, hbounded, hclosed⟩ := parse_eq_ok_iff.mp hparse
  obtain ⟨hk, -⟩ := List.getElem?_eq_some_iff.mp hr
  have hpayload := length_payload_le_of_lines hlines
  refine ⟨?_, ?_⟩
  · rw [toList_text_eq hr hold, List.append_assoc,
      List.drop_left' (length_textFront hold)]
    rfl
  · obtain ⟨digits, hline, hspelled⟩ := spelled_lineWithPair hold hpair
    have hfault := ofBytes_set (hpayload r (List.mem_of_getElem? hr)) hold hne
    have hbefore : ∀ r ∈ f.records.take k, r.payload.length ≤ 255 := by
      intro r' hr'
      exact hpayload r' (List.mem_of_mem_take hr')
    rw [eq_take_append_cons_drop hr] at hbounded hclosed
    rw [File.parse, lines_withPair hr hold hpair, hline,
      readLines_records hbefore hclosed.not_mem_before hbounded.of_append,
      readLines_fault hspelled hfault,
      List.length_take_of_le (Nat.le_of_lt hk), Nat.add_comm 1]

/-- A record with another length, a type that there is not, and small digits
for another byte. -/
theorem changed_byte_located_push :
    File.parse ":050000000F930895BD\n:00000001FF\n"
      = .error (.onLine 1 (.lengthMismatch 5 4))
      ∧ File.parse ":040000060F930895BD\n:00000001FF\n"
        = .error (.onLine 1 (.badChecksum 0xB7 0xBD))
      ∧ File.parse ":040000000F930895BD\n:00000001fe\n"
        = .error (.onLine 2 (.badChecksum 0xFF 0xFE)) := by
  have hread : File.parse ":040000000F930895BD\n:00000001FF\n"
      = .ok ⟨[.data 0 [0x0F, 0x93, 0x08, 0x95], .endOfFile]⟩ := by
    decide +kernel
  have hlength : DigitPair '0' '5' 5 :=
    ⟨0, 5, .decimal (by decide), .decimal (by decide), rfl⟩
  have hkind : DigitPair '0' '6' 6 :=
    ⟨0, 6, .decimal (by decide), .decimal (by decide), rfl⟩
  have hsum : DigitPair 'f' 'e' 0xFE :=
    ⟨15, 14, .lower (by decide), .lower (by decide), rfl⟩
  exact ⟨(changed_byte_located (k := 0) (i := 0) hread rfl rfl (by decide)
    hlength).2,
    (changed_byte_located (k := 0) (i := 3) hread rfl rfl (by decide) hkind).2,
    (changed_byte_located (k := 1) (i := 4) hread rfl rfl (by decide) hsum).2⟩

end Hex

end AvrFirmware
