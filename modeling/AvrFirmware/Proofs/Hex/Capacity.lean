/-
What loading a file can take up.

# Two trackers of one base

The reader checks every data record against the program memory on a base
of its own, while `File.segments` works the bases out again from the
records that were read. `Bounded` is what the reader's check comes to, and
`bounded_iff_segments` says that it is a statement about the segments. An
image grows to the end of what is written and no further, so loading a
file that was read stays within the program memory (`size_image_le`).

# The record that is too much

No line is too large by itself (`parse_ne_tooLarge`), it is so behind the
records in front of it. `Overrun` is a line of data past the memory with
all lines in front of it in order, and a text is refused for its size if
and only if it has such a line (`parse_eq_tooLarge_iff`).
-/
import AvrFirmware.Proofs.Hex.Loading
import AvrFirmware.Stack.Analysis

namespace AvrFirmware

namespace Hex

-- ============================================================== segments

/-- A run of bytes ends within the largest program memory. -/
def Fits (s : Nat × List UInt8) : Prop :=
  s.1 + s.2.length ≤ Image.capacity

/-- Placing records puts data within the memory exactly if the records are
bounded. -/
theorem forall_fits_foldl_place (rs : List Record) (base : Nat)
    (done : List (Nat × List UInt8)) :
    (∀ s ∈ (rs.foldl File.place (base, done)).2, Fits s)
      ↔ Bounded base rs ∧ ∀ s ∈ done, Fits s := by
  induction rs generalizing base done with
  | nil =>
      rw [List.foldl_nil, and_iff_right (bounded_nil base)]
  | cons r rs ih =>
      rw [List.foldl_cons, bounded_cons]
      cases r with
      | data offset bytes =>
          have hbase : (Record.data offset bytes).base?.getD base = base := rfl
          have hfits : Fits (base + offset.toNat, bytes)
              ↔ File.stop base (.data offset bytes) ≤ Image.capacity := Iff.rfl
          rw [File.place, ih, List.forall_mem_cons, hbase, hfits, and_assoc,
            and_left_comm]
      | _ =>
          refine (ih _ _).trans (and_congr_left fun _ => ?_)
          exact (and_iff_right (Nat.zero_le _)).symm

/-- The reader's check is a statement about the segments. -/
theorem bounded_iff_segments {rs : List Record} :
    Bounded 0 rs ↔ ∀ s ∈ (⟨rs⟩ : File).segments, Fits s := by
  have hplace := forall_fits_foldl_place rs 0 []
  rw [and_iff_left (List.forall_mem_nil _)] at hplace
  simp only [File.segments, List.mem_reverse]
  exact hplace.symm

/-- Runs that fit leave an image that fits. -/
theorem size_foldl_writeAll_le {segments : List (Nat × List UInt8)} {m : Image}
    (hm : m.size ≤ Image.capacity) (hfits : ∀ s ∈ segments, Fits s) :
    (segments.foldl (fun m s => m.writeAll s.1 s.2) m).size
      ≤ Image.capacity := by
  induction segments generalizing m with
  | nil => exact hm
  | cons s segments ih =>
      obtain ⟨hs, hrest⟩ := List.forall_mem_cons.mp hfits
      rw [List.foldl_cons]
      apply ih _ hrest
      rw [Image.size_writeAll]
      split
      · exact hm
      · exact Nat.max_le.mpr ⟨hm, hs⟩

/-- An image of such data is within the memory. -/
theorem File.size_image_le {f : File} (hfits : ∀ s ∈ f.segments, Fits s) :
    f.image.size ≤ Image.capacity :=
  size_foldl_writeAll_le (Nat.zero_le _) hfits

-- ============================================================= one line

/-- Reading pairs, making records and checking frames never complain about
size. -/
theorem readPairs_ne_tooLarge (done : List UInt8) (cs : List Char)
    (stop : Nat) :
    Record.readPairs done cs ≠ .error (.tooLarge stop) := by
  fun_induction Record.readPairs done cs with
  | case1 done a b rest n hn ih => exact ih
  | case2 done a b rest fault hfault => simp
  | case3 cs done hshort => simp

theorem ofParts_ne_tooLarge (kind : UInt8) (offset : UInt16)
    (data : List UInt8) (stop : Nat) :
    Record.ofParts kind offset data ≠ .error (.tooLarge stop) := by
  unfold Record.ofParts
  dsimp only
  repeat' split
  all_goals simp

theorem ofBytes_ne_tooLarge (bytes : List UInt8) (stop : Nat) :
    Record.ofBytes bytes ≠ .error (.tooLarge stop) := by
  unfold Record.ofBytes
  split
  · dsimp only
    split
    · simp
    · split
      · simp
      · exact ofParts_ne_tooLarge _ _ _ stop
  · simp

/-- No line is too large by itself. -/
theorem parse_ne_tooLarge (cs : List Char) (stop : Nat) :
    Record.parse cs ≠ .error (.tooLarge stop) := by
  unfold Record.parse
  split
  · next digits =>
      split
      · simp
      · split
        · simp
        · split
          · exact ofBytes_ne_tooLarge _ stop
          · next cause hcause =>
              intro h
              cases h
              exact readPairs_ne_tooLarge [] digits stop hcause
  · simp

-- ============================================================ the limit

/-- A line with the first data past the program memory. The lines in front of
it are those of records that stay within the memory and do not end the file. -/
structure Overrun (base : Nat) (front : List (List Char)) (raw : List Char)
    (before : List Record) (offset : UInt16) (bytes : List UInt8) : Prop where
  earlier : List.Forall₂ (fun line r => Record.parse line = .ok r)
    (entries front) before
  unended : .endOfFile ∉ before
  bounded : Bounded base before
  data : Record.parse (Text.trim raw) = .ok (.data offset bytes)
  past : Image.capacity < baseAfter base before + offset.toNat + bytes.length

variable {base : Nat} {ended : Bool} {done before : List Record}
  {line n stop : Nat} {front back lines : List (List Char)}
  {raw first : List Char} {offset : UInt16} {bytes : List UInt8} {c : Char}
  {cs : List Char}

/-- Nothing stands in front of a first line that is too much. -/
theorem overrun_nil_iff :
    Overrun base [] raw before offset bytes
      ↔ before = [] ∧ Record.parse (Text.trim raw) = .ok (.data offset bytes)
        ∧ Image.capacity < base + offset.toNat + bytes.length := by
  constructor
  · intro h
    obtain rfl := List.forall₂_nil_left_iff.mp h.earlier
    exact ⟨rfl, h.data, h.past⟩
  · intro ⟨hbefore, hdata, hpast⟩
    subst hbefore
    exact ⟨.nil, List.not_mem_nil, bounded_nil base, hdata, hpast⟩

/-- A blank line in front changes nothing. -/
theorem overrun_blank_iff (htrim : Text.trim first = []) :
    Overrun base (first :: front) raw before offset bytes
      ↔ Overrun base front raw before offset bytes := by
  have hentries : entries (first :: front) = entries front :=
    entries_cons_of_blank htrim
  constructor
  · intro h
    exact ⟨hentries ▸ h.earlier, h.unended, h.bounded, h.data, h.past⟩
  · intro h
    exact ⟨hentries ▸ h.earlier, h.unended, h.bounded, h.data, h.past⟩

/-- A record in front stays within the memory, is not the end, and may set the
base. -/
theorem overrun_cons_iff (htrim : Text.trim first = c :: cs) :
    Overrun base (first :: front) raw before offset bytes
      ↔ ∃ r rest, before = r :: rest ∧ Record.parse (c :: cs) = .ok r
        ∧ r ≠ .endOfFile
        ∧ File.stop (r.base?.getD base) r ≤ Image.capacity
        ∧ Overrun (r.base?.getD base) front raw rest offset bytes := by
  constructor
  · intro ⟨hearlier, hunended, hbounded, hdata, hpast⟩
    rw [entries_cons htrim] at hearlier
    obtain ⟨r, rest, hparse, hrest, rfl⟩ :=
      List.forall₂_cons_left_iff.mp hearlier
    rw [List.mem_cons, not_or] at hunended
    obtain ⟨hstop, hbounded⟩ := bounded_cons.mp hbounded
    rw [baseAfter_cons] at hpast
    exact ⟨r, rest, rfl, hparse, Ne.symm hunended.1, hstop,
      hrest, hunended.2, hbounded, hdata, hpast⟩
  · intro ⟨r, rest, hbefore, hparse, hend, hstop, h⟩
    subst hbefore
    refine ⟨?_, ?_, bounded_cons.mpr ⟨hstop, h.bounded⟩, h.data, ?_⟩
    · rw [entries_cons htrim]
      exact .cons hparse h.earlier
    · rw [List.mem_cons, not_or]
      exact ⟨Ne.symm hend, h.unended⟩
    · rw [baseAfter_cons]
      exact h.past

/-- A text that is refused for its size has a line that is too much. -/
theorem exists_overrun_of_readLines
    (h : File.readLines base ended done line lines
      = .error (.onLine n (.tooLarge stop))) :
    ended = false
      ∧ ∃ front raw back before offset bytes, lines = front ++ raw :: back
      ∧ n = line + front.length
      ∧ stop = baseAfter base before + offset.toNat + bytes.length
      ∧ Overrun base front raw before offset bytes := by
  induction lines generalizing base ended done line with
  | nil =>
      rw [File.readLines] at h
      split at h <;> cases h
  | cons first rest ih =>
      cases htrim : Text.trim first with
      | nil =>
          rw [readLines_blank htrim] at h
          obtain ⟨hended, front, raw, back, before, offset, bytes, rfl, rfl,
              hstop, hover⟩ := ih h
          refine ⟨hended, first :: front, raw, back, before, offset, bytes,
            rfl, ?_, hstop, ?_⟩
          · rw [List.length_cons]
            omega
          · exact (overrun_blank_iff htrim).mpr hover
      | cons c cs =>
          cases ended with
          | true =>
              simp only [File.readLines, htrim] at h
              cases h
          | false =>
              cases hparse : Record.parse (c :: cs) with
              | error cause =>
                  rw [readLines_refused htrim hparse] at h
                  cases h
                  exact absurd hparse (parse_ne_tooLarge _ stop)
              | ok r =>
                  rw [readLines_record htrim hparse] at h
                  split at h
                  · next hpast =>
                      cases h
                      cases r with
                      | data offset bytes =>
                          refine ⟨rfl, [], first, rest, [], offset, bytes, rfl,
                            rfl, rfl, ?_⟩
                          exact overrun_nil_iff.mpr
                            ⟨rfl, htrim ▸ hparse, hpast⟩
                      | _ => exact absurd hpast (Nat.not_lt_zero _)
                  · next hstop =>
                      obtain ⟨hend, front, raw, back, before, offset, bytes,
                          rfl, rfl, hn, hover⟩ := ih h
                      refine ⟨rfl, first :: front, raw, back, r :: before,
                        offset, bytes, rfl, ?_, ?_, ?_⟩
                      · rw [List.length_cons]
                        omega
                      · rw [baseAfter_cons]
                        exact hn
                      · refine (overrun_cons_iff htrim).mpr
                          ⟨r, before, rfl, hparse, ?_, ?_, hover⟩
                        · exact of_decide_eq_false hend
                        · exact Nat.le_of_not_lt hstop

/-- A text with a line that is too much is refused for it. -/
theorem readLines_of_overrun (h : Overrun base front raw before offset bytes) :
    File.readLines base false done line (front ++ raw :: back)
      = .error (.onLine (line + front.length)
          (.tooLarge (baseAfter base before + offset.toNat
            + bytes.length))) := by
  induction front generalizing base done line before with
  | nil =>
      obtain ⟨rfl, hdata, hpast⟩ := overrun_nil_iff.mp h
      cases htrim : Text.trim raw with
      | nil =>
          rw [htrim] at hdata
          cases hdata
      | cons c cs =>
          rw [htrim] at hdata
          rw [List.nil_append, readLines_record htrim hdata]
          exact if_pos hpast
  | cons first front ih =>
      have hline : line + (first :: front).length
          = line + 1 + front.length := by
        rw [List.length_cons]
        omega
      rw [List.cons_append, hline]
      cases htrim : Text.trim first with
      | nil =>
          rw [readLines_blank htrim]
          exact ih ((overrun_blank_iff htrim).mp h)
      | cons c cs =>
          obtain ⟨r, rest, rfl, hparse, hend, hstop, hover⟩ :=
            (overrun_cons_iff htrim).mp h
          rw [readLines_record htrim hparse, baseAfter_cons,
            if_neg (Nat.not_lt.mpr hstop), decide_eq_false hend]
          exact ih hover

/-- A file is refused for its size at the first data that go past the
memory. -/
theorem parse_eq_tooLarge_iff {text : String} :
    File.parse text = .error (.onLine n (.tooLarge stop))
      ↔ ∃ front raw back before offset bytes,
        Text.lines text.toList = front ++ raw :: back
        ∧ n = front.length + 1
        ∧ stop = baseAfter 0 before + offset.toNat + bytes.length
        ∧ Overrun 0 front raw before offset bytes := by
  have hread : File.parse text = .error (.onLine n (.tooLarge stop))
      ↔ File.readLines 0 false [] 1 (Text.lines text.toList)
        = .error (.onLine n (.tooLarge stop)) := by
    unfold File.parse
    split
    · next records hrecords => simp [hrecords]
    · next e he => simp [he]
  rw [hread]
  constructor
  · intro h
    obtain ⟨-, front, raw, back, before, offset, bytes, hlines, hn, hstop,
        hover⟩ :=
      exists_overrun_of_readLines h
    exact ⟨front, raw, back, before, offset, bytes, hlines, by omega, hstop,
      hover⟩
  · intro ⟨front, raw, back, before, offset, bytes, hlines, hn, hstop, hover⟩
    rw [hlines, hn, hstop, Nat.add_comm]
    exact readLines_of_overrun hover

/-- The address of a data record at the end is that of its segment. -/
theorem getLast?_segments_concat (before : List Record) (offset : UInt16)
    (bytes : List UInt8) :
    (⟨before ++ [.data offset bytes]⟩ : File).segments.getLast?
      = some (baseAfter 0 before + offset.toNat, bytes) := by
  rw [File.segments_concat, List.getLast?_concat]

-- =========================================================== the result

/-- Reading caps what loading takes up. The segments of a file that was read
end within the program memory, so the image that is loaded from its text does
too. A text is refused for its size exactly if some line has a data record
whose segment, behind the records of the lines in front of it, ends past the
program memory; that line is reported with that end. The records in front of it
do not end the file, and all their segments fit. -/
theorem reading_caps_loading (text : String) :
    (∀ f, File.parse text = .ok f →
        (∀ s ∈ f.segments, s.1 + s.2.length ≤ Image.capacity)
          ∧ Stack.readImage text = .ok f.image ∧ f.image.size ≤ Image.capacity)
      ∧ ∀ line stop, File.parse text = .error (.onLine line (.tooLarge stop))
        ↔ ∃ front raw back before offset bytes address,
          Text.lines text.toList = front ++ raw :: back
            ∧ line = front.length + 1
            ∧ List.Forall₂ (fun line r => Record.parse line = .ok r)
              (entries front) before
            ∧ .endOfFile ∉ before
            ∧ (∀ s ∈ (⟨before⟩ : File).segments,
              s.1 + s.2.length ≤ Image.capacity)
            ∧ Record.parse (Text.trim raw) = .ok (.data offset bytes)
            ∧ (⟨before ++ [.data offset bytes]⟩ : File).segments.getLast?
              = some (address, bytes)
            ∧ address + bytes.length = stop ∧ Image.capacity < stop := by
  constructor
  · intro f hparse
    have hfits := bounded_iff_segments.mp (parse_eq_ok_iff.mp hparse).bounded
    refine ⟨hfits, ?_, File.size_image_le hfits⟩
    rw [Stack.readImage, readImage, hparse]
  · intro line stop
    rw [parse_eq_tooLarge_iff]
    constructor
    · intro ⟨front, raw, back, before, offset, bytes, hlines, hline, hstop,
        hover⟩
      refine ⟨front, raw, back, before, offset, bytes, _, hlines, hline,
        hover.earlier, hover.unended, bounded_iff_segments.mp hover.bounded,
        hover.data, getLast?_segments_concat before offset bytes, hstop.symm,
        ?_⟩
      rw [hstop]
      exact hover.past
    · intro ⟨front, raw, back, before, offset, bytes, address, hlines, hline,
        hearlier, hunended, hfits, hdata, haddress, hstop, hpast⟩
      rw [getLast?_segments_concat] at haddress
      cases haddress
      subst hstop
      exact ⟨front, raw, back, before, offset, bytes, hlines, hline, rfl,
        hearlier, hunended, bounded_iff_segments.mpr hfits, hdata, hpast⟩

/-- A byte at the last address of the program memory, and one far behind it. -/
theorem reading_caps_loading_lastByte :
    (∃ f m, File.parse ":02000004007F7B\n:01FFFF000001\n:00000001FF\n" = .ok f
        ∧ f.segments = [(Image.capacity - 1, [0])]
        ∧ Stack.readImage ":02000004007F7B\n:01FFFF000001\n:00000001FF\n"
          = .ok m
        ∧ m.size ≤ Image.capacity)
      ∧ ∃ front raw back before offset bytes address,
        Text.lines ":020000040100F9\n:0100000000FF\n:00000001FF\n".toList
          = front ++ raw :: back
          ∧ 2 = front.length + 1
          ∧ Record.parse (Text.trim raw) = .ok (.data offset bytes)
          ∧ (⟨before ++ [.data offset bytes]⟩ : File).segments.getLast?
            = some (address, bytes)
          ∧ address + bytes.length = 0x1000001 := by
  have hread : File.parse ":02000004007F7B\n:01FFFF000001\n:00000001FF\n"
        = .ok ⟨[.extendedLinear 0x7F, .data 0xFFFF [0], .endOfFile]⟩
      ∧ File.parse ":020000040100F9\n:0100000000FF\n:00000001FF\n"
        = .error (.onLine 2 (.tooLarge 0x1000001)) := by
    decide +kernel
  obtain ⟨-, himage, hsize⟩ := (reading_caps_loading _).1 _ hread.1
  obtain ⟨front, raw, back, before, offset, bytes, address, hlines, hline, -,
      -, -, hdata, haddress, hstop, -⟩ :=
    ((reading_caps_loading _).2 _ _).mp hread.2
  exact ⟨⟨_, _, hread.1, rfl, himage, hsize⟩, front, raw, back, before, offset,
    bytes, address, hlines, hline, hdata, haddress, hstop⟩

end Hex

end AvrFirmware
