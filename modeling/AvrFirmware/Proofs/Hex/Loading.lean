/-
Loading, record by record.

# What a record gives

A data record gives bytes to the addresses from its own up, and with them
a size that the image has to have. Its own address is the offset from the
base that is in effect at its place in the file: `File.given?` asks the
record at a position on that base.

# The last writer wins

Writing a run of bytes changes the contents where the run lies and
nowhere else, if what lies behind the end of an image counts as zero
(`getD_read?_writeAll`): growing fills up with zeros, so it changes
nothing in that reading. One more record at the end of a file is one more
run written (`load_concat`). By induction from the end of the file, the
byte at an address is the one of the last record that gives one.
-/
import AvrFirmware.Proofs.Hex.Grammar

namespace AvrFirmware

-- =============================================================== writing

namespace Image

theorem size_writeAll (m : Image) (address : Nat) (bytes : List UInt8) :
    (m.writeAll address bytes).size
      = if bytes = [] then m.size
        else max m.size (address + bytes.length) := by
  induction bytes generalizing m address with
  | nil => rfl
  | cons byte rest ih =>
      rw [writeAll, ih, size_write, if_neg (List.cons_ne_nil byte rest),
        List.length_cons]
      split
      · next hnil =>
          rw [hnil, List.length_nil]
      · omega

/-- A write changes the contents at one address, if bytes behind the end count
as zero. -/
theorem getD_read?_write (m : Image) (address a : Nat) (byte : UInt8) :
    ((m.write address byte).read? a).getD 0
      = if a = address then byte else (m.read? a).getD 0 := by
  rw [read?_write]
  split
  · rfl
  · split
    · next hgrown =>
        have hnone : m.read? a = none := Array.getElem?_eq_none hgrown.1
        rw [hnone, Option.getD_none, Option.getD_some]
    · rfl

/-- The byte that a run from an address up has at another. -/
def runByte? (start : Nat) (bytes : List UInt8) (a : Nat) : Option UInt8 :=
  if start ≤ a then bytes[a - start]? else none

/-- A run of bytes changes the contents where it lies. -/
theorem getD_read?_writeAll (m : Image) (start a : Nat) (bytes : List UInt8) :
    ((m.writeAll start bytes).read? a).getD 0
      = (runByte? start bytes a).getD ((m.read? a).getD 0) := by
  induction bytes generalizing m start with
  | nil =>
      rw [writeAll, runByte?, List.getElem?_nil, ite_self, Option.getD_none]
  | cons byte rest ih =>
      rw [writeAll, ih, getD_read?_write, runByte?, runByte?]
      rcases Nat.lt_trichotomy a start with hlt | rfl | hgt
      · rw [if_neg (by omega), if_neg (by omega), if_neg (by omega)]
      · rw [if_neg (by omega), if_pos rfl, if_pos (Nat.le_refl a),
          Nat.sub_self]
        rfl
      · have hstep : a - start = a - (start + 1) + 1 := by omega
        rw [if_pos (by omega), if_neg (by omega), if_pos (by omega), hstep,
          List.getElem?_cons_succ]

/-- Inside an image no byte is missing. -/
theorem read?_eq_some_getD {m : Image} {a : Nat} (h : a < m.size) :
    m.read? a = some ((m.read? a).getD 0) := by
  obtain ⟨byte, hbyte⟩ : ∃ byte, m.read? a = some byte :=
    Option.isSome_iff_exists.mp (isSome_getElem? m.bytes a |>.mpr h)
  rw [hbyte, Option.getD_some]

end Image

namespace Hex

-- =============================================================== records

/-- The byte that a record gives to an address. -/
def Record.byteAt? (a base : Nat) : Record → Option UInt8
  | .data offset bytes => Image.runByte? (base + offset.toNat) bytes a
  | _ => none

/-- The size that a record asks for: the end of its bytes, if it has any. -/
def Record.reach? (base : Nat) : Record → Option Nat
  | .data offset bytes =>
      if bytes = [] then none else some (base + offset.toNat + bytes.length)
  | _ => none

namespace File

/-- What the record at a position gives on the base that is in effect there. -/
def given? {α : Type} (f : File) (g : Nat → Record → Option α) (k : Nat) :
    Option α :=
  f.records[k]?.bind (g (baseAfter 0 (f.records.take k)))

theorem given?_eq_none {α : Type} {f : File} (g : Nat → Record → Option α)
    {k : Nat} (h : f.records.length ≤ k) : f.given? g k = none := by
  rw [given?, List.getElem?_eq_none h, Option.bind_none]

/-- A record at the end gives on the base behind all others, which give as
before. -/
theorem given?_concat {α : Type} (g : Nat → Record → Option α)
    (rs : List Record) (r : Record) (k : Nat) :
    (⟨rs ++ [r]⟩ : File).given? g k
      = if k = rs.length then g (baseAfter 0 rs) r
        else (⟨rs⟩ : File).given? g k := by
  rcases Nat.lt_trichotomy k rs.length with hlt | rfl | hgt
  · rw [if_neg hlt.ne, given?, given?, List.getElem?_append_left hlt,
      List.take_append_of_le_length hlt.le]
  · rw [if_pos rfl, given?, List.getElem?_concat_length, List.take_left]
    rfl
  · have hbehind : (rs ++ [r]).length ≤ k := by
      rwa [List.length_append, List.length_singleton]
    rw [if_neg hgt.ne', given?_eq_none _ hbehind, given?_eq_none _ hgt.le]

theorem lt_length_of_given? {α : Type} {f : File} {g : Nat → Record → Option α}
    {k : Nat} {x : α} (h : f.given? g k = some x) : k < f.records.length := by
  by_contra hge
  rw [given?_eq_none g (Nat.le_of_not_lt hge)] at h
  cases h

theorem fst_foldl_place (rs : List Record) (base : Nat)
    (segments : List (Nat × List UInt8)) :
    (rs.foldl place (base, segments)).1 = baseAfter base rs := by
  induction rs generalizing base segments with
  | nil => rfl
  | cons r rs ih =>
      rw [List.foldl_cons, baseAfter_cons]
      cases r with
      | _ => exact ih _ _

/-- A data record at the end adds its segment on the base behind all others,
and no other record adds one. -/
theorem segments_concat (rs : List Record) (r : Record) :
    (⟨rs ++ [r]⟩ : File).segments
      = match r with
        | .data offset bytes =>
            (⟨rs⟩ : File).segments ++ [(baseAfter 0 rs + offset.toNat, bytes)]
        | _ => (⟨rs⟩ : File).segments := by
  have hbase := fst_foldl_place rs 0 []
  unfold segments
  rw [List.foldl_append, List.foldl_cons, List.foldl_nil]
  cases r with
  | data offset bytes => rw [place, List.reverse_cons, hbase]
  | _ => rfl

/-- A record at the end is written last. -/
theorem load_concat (rs : List Record) (r : Record) (m : Image) :
    (⟨rs ++ [r]⟩ : File).load m
      = match r with
        | .data offset bytes =>
            ((⟨rs⟩ : File).load m).writeAll (baseAfter 0 rs + offset.toNat)
              bytes
        | _ => (⟨rs⟩ : File).load m := by
  unfold load
  rw [segments_concat]
  cases r with
  | data offset bytes => exact List.foldl_concat ..
  | _ => rfl

theorem getD_read?_load_concat (rs : List Record) (r : Record) (m : Image)
    (a : Nat) :
    (((⟨rs ++ [r]⟩ : File).load m).read? a).getD 0
      = (r.byteAt? a (baseAfter 0 rs)).getD
        ((((⟨rs⟩ : File).load m).read? a).getD 0) := by
  rw [load_concat]
  cases r with
  | data offset bytes => exact Image.getD_read?_writeAll ..
  | _ => rfl

theorem size_load_concat (rs : List Record) (r : Record) (m : Image) :
    ((⟨rs ++ [r]⟩ : File).load m).size
      = max ((⟨rs⟩ : File).load m).size
        ((r.reach? (baseAfter 0 rs)).getD 0) := by
  rw [load_concat]
  cases r with
  | data offset bytes =>
      show (Image.writeAll _ _ _).size = _
      rw [Image.size_writeAll, Record.reach?]
      split
      · exact (Nat.max_zero _).symm
      · rfl
  | _ => exact (Nat.max_zero _).symm

-- ============================================================== contents

/-- The contents at an address come from the last record that gives it a byte,
or from the image that was there before. -/
theorem byte_of_load (f : File) (m : Image) (a : Nat) :
    (∃ k byte, f.given? (Record.byteAt? a) k = some byte
        ∧ (∀ j > k, f.given? (Record.byteAt? a) j = none)
        ∧ ((f.load m).read? a).getD 0 = byte)
      ∨ (∀ k, f.given? (Record.byteAt? a) k = none)
        ∧ ((f.load m).read? a).getD 0 = (m.read? a).getD 0 := by
  obtain ⟨rs⟩ := f
  induction rs using List.reverseRecOn with
  | nil => exact .inr ⟨fun _ => rfl, rfl⟩
  | append_singleton rs r ih =>
      simp only [given?_concat, getD_read?_load_concat]
      cases hr : r.byteAt? a (baseAfter 0 rs) with
      | some byte =>
          refine .inl ⟨rs.length, byte, if_pos rfl, ?_, rfl⟩
          intro j hj
          rw [if_neg (Nat.ne_of_gt hj), given?_eq_none _ (Nat.le_of_lt hj)]
      | none =>
          rcases ih with ⟨k, byte, hk, hlast, hbyte⟩ | ⟨hnone, hbyte⟩
          · refine .inl ⟨k, byte, ?_, ?_, hbyte⟩
            · rw [if_neg (lt_length_of_given? hk).ne, hk]
            · intro j hj
              rw [hlast j hj, ite_self]
          · refine .inr ⟨?_, hbyte⟩
            intro k
            rw [hnone k, ite_self]

/-- The size is the least that holds the image that was there before and all
that the records ask for. -/
theorem isGreatest_size_load (f : File) (m : Image) :
    IsGreatest
      (insert m.size {stop | ∃ k, f.given? Record.reach? k = some stop})
      (f.load m).size := by
  obtain ⟨rs⟩ := f
  induction rs using List.reverseRecOn with
  | nil =>
      refine ⟨.inl rfl, ?_⟩
      rintro n (rfl | ⟨k, hk⟩)
      · exact Nat.le_refl _
      · cases hk
  | append_singleton rs r ih =>
      obtain ⟨hmem, hupper⟩ := ih
      simp only [given?_concat, size_load_concat]
      constructor
      · -- the greater of the two is one that some record asks for
        have hold : ((⟨rs⟩ : File).load m).size ∈ insert m.size {stop | ∃ k,
            (if k = rs.length then r.reach? (baseAfter 0 rs)
              else (⟨rs⟩ : File).given? Record.reach? k) = some stop} := by
          refine hmem.imp_right ?_
          rintro ⟨k, hk⟩
          exact ⟨k, by rw [if_neg (lt_length_of_given? hk).ne, hk]⟩
        cases hr : r.reach? (baseAfter 0 rs) with
        | none =>
            rw [hr] at hold
            rwa [Option.getD_none, Nat.max_zero]
        | some stop =>
            rw [hr] at hold
            rw [Option.getD_some]
            rcases Nat.le_total ((⟨rs⟩ : File).load m).size stop with hle | hle
            · rw [Nat.max_eq_right hle]
              exact .inr ⟨rs.length, if_pos rfl⟩
            · rwa [Nat.max_eq_left hle]
      · rintro n (rfl | ⟨k, hk⟩)
        · exact (hupper (.inl rfl)).trans (Nat.le_max_left _ _)
        · split at hk
          · rw [hk, Option.getD_some]
            exact Nat.le_max_right _ _
          · exact (hupper (.inr ⟨k, hk⟩)).trans (Nat.le_max_left _ _)

end File

/-- Loading a file is last writer wins, whatever the image holds before. The
size is the greatest of the old size and of the ends of all data records that
are not empty, each on the base in effect at its place. Below it, a byte is
that of the last record in the order of the file that gives one; if none does,
it is the old byte, or zero where there was none. -/
theorem last_writer_wins (f : File) (m : Image) :
    IsGreatest
      (insert m.size {stop | ∃ k, f.given? Record.reach? k = some stop})
      (f.load m).size
      ∧ ∀ a < (f.load m).size,
        (∃ k byte, f.given? (Record.byteAt? a) k = some byte
            ∧ (∀ j > k, f.given? (Record.byteAt? a) j = none)
            ∧ (f.load m).read? a = some byte)
          ∨ (∀ k, f.given? (Record.byteAt? a) k = none)
            ∧ (f.load m).read? a = some ((m.read? a).getD 0) := by
  refine ⟨f.isGreatest_size_load m, ?_⟩
  intro a ha
  rw [Image.read?_eq_some_getD ha]
  rcases f.byte_of_load m a with ⟨k, byte, hk, hlast, hbyte⟩ | ⟨hnone, hbyte⟩
  · exact .inl ⟨k, byte, hk, hlast, congrArg some hbyte⟩
  · exact .inr ⟨hnone, congrArg some hbyte⟩

/-- A file whose last record goes back to the base zero and writes over its
first. -/
def overlappingFile : File :=
  ⟨[.data 4 [1, 2], .extendedSegment 1, .data 0 [3], .extendedLinear 0,
    .data 5 [9]]⟩

/-- Of two bytes for one address the last is there, and between the runs the
image reads as zero. -/
theorem last_writer_wins_overlappingFile :
    (overlappingFile.load (.ofBytes [7, 7])).size = 17
      ∧ overlappingFile.given? (Record.byteAt? 5) 0 = some 2
      ∧ (overlappingFile.load (.ofBytes [7, 7])).read? 5 = some 9
      ∧ (overlappingFile.load (.ofBytes [7, 7])).read? 10 = some 0 := by
  have hsize : (overlappingFile.load (.ofBytes [7, 7])).size = 17 := by decide
  have hfirst : overlappingFile.given? (Record.byteAt? 5) 0 = some 2 := by
    decide
  have hlatest : overlappingFile.given? (Record.byteAt? 5) 4 = some 9 := by
    decide
  have hhole : ∀ k < 5,
      overlappingFile.given? (Record.byteAt? 10) k = none := by decide
  obtain ⟨-, hbytes⟩ := last_writer_wins overlappingFile (.ofBytes [7, 7])
  refine ⟨hsize, hfirst, ?_, ?_⟩
  · rcases hbytes 5 (by omega) with ⟨k, byte, hk, hlast, hread⟩ | ⟨hnone, -⟩
    · have hlt : k < 5 := File.lt_length_of_given? hk
      have hge : 4 ≤ k := by
        by_contra hbefore
        cases hlatest.symm.trans (hlast 4 (by omega))
      obtain rfl : k = 4 := by omega
      cases hlatest.symm.trans hk
      exact hread
    · cases hlatest.symm.trans (hnone 4)
  · rcases hbytes 10 (by omega) with ⟨k, byte, hk, -, -⟩ | ⟨-, hread⟩
    · cases (hhole k (File.lt_length_of_given? hk)).symm.trans hk
    · exact hread

end Hex

end AvrFirmware
