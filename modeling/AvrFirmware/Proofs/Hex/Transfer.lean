/-
Images carried by load files.

# The records of an image

`Carries` says what it takes for records to hold a run of bytes: chunks
that follow each other without a gap, each at its offset from the base in
force. The records that an image is written as are such records
(`carries_dataRecords`): wherever the upper half of the address changes,
a record sets it. All else is read off `Carries`: loading the records
puts the bytes one behind the other (`load_carries`), and they stay
within the program memory if and only if the last byte does
(`Carries.bounded_iff`).

# The limit

A file that goes past the program memory is refused at the first record
that does, since all records before it are in order
(`readLines_tooLarge`). So one byte too many is reported as such and not
as any other fault.
-/
import AvrFirmware.Proofs.Hex.Writing
import AvrFirmware.Stack.Analysis

namespace AvrFirmware

namespace Image

theorem write_size (m : Image) (byte : UInt8) :
    m.write m.size byte = ⟨m.bytes.push byte⟩ := by
  rw [write, if_neg (Nat.lt_irrefl _), Nat.sub_self]
  simp

/-- Bytes written at the end are appended. -/
theorem writeAll_size (m : Image) (bytes : List UInt8) :
    m.writeAll m.size bytes = ⟨m.bytes ++ bytes.toArray⟩ := by
  induction bytes generalizing m with
  | nil => simp [writeAll]
  | cons byte rest ih =>
      have hsize : m.size + 1 = (⟨m.bytes.push byte⟩ : Image).size := by
        rw [size, size, Array.size_push]
      rw [writeAll, write_size, hsize, ih]
      simp

end Image

namespace Hex

-- ===================================================== carrying records

/-- Records that hold a run of bytes from an address up, chunk behind chunk.
`base` is the base in force before them. -/
inductive Carries : Nat → Nat → List UInt8 → List Record → Prop where
  | nil {base address : Nat} : Carries base address [] []
  | rebase {base address : Nat} {upper : UInt16} {bytes : List UInt8}
      {rs : List Record}
      (rest : Carries (upper.toNat * 65536) address bytes rs) :
      Carries base address bytes (.extendedLinear upper :: rs)
  | chunk {base address : Nat} {offset : UInt16} {chunk bytes : List UInt8}
      {rs : List Record} (hplace : base + offset.toNat = address)
      (hsome : chunk ≠ []) (hlength : chunk.length ≤ 16)
      (rest : Carries base (address + chunk.length) bytes rs) :
      Carries base address (chunk ++ bytes) (.data offset chunk :: rs)

namespace Carries

variable {base address : Nat} {bytes : List UInt8} {rs : List Record}

/-- Records that carry bytes are short enough for their length byte. -/
theorem length_payload_le (h : Carries base address bytes rs) :
    ∀ r ∈ rs, r.payload.length ≤ 255 := by
  induction h with
  | nil => simp
  | rebase _ ih =>
      exact List.forall_mem_cons.mpr ⟨by simp [Record.payload, halfBytes], ih⟩
  | chunk _ _ hlength _ ih =>
      refine List.forall_mem_cons.mpr ⟨?_, ih⟩
      exact hlength.trans (by decide)

/-- There is no end among them. -/
theorem endOfFile_not_mem (h : Carries base address bytes rs) :
    .endOfFile ∉ rs := by
  induction h with
  | nil => exact List.not_mem_nil
  | rebase _ ih => simp [ih]
  | chunk _ _ _ _ ih => simp [ih]

/-- They stay within the memory exactly if the bytes do. -/
theorem bounded_iff (h : Carries base address bytes rs) :
    Bounded base rs
      ↔ bytes = [] ∨ address + bytes.length ≤ Image.capacity := by
  induction h with
  | nil => simp [bounded_nil]
  | rebase _ ih =>
      rw [bounded_cons, ← ih]
      simp [Record.base?, File.stop]
  | @chunk base address offset chunk bytes rs hplace hsome hlength rest ih =>
      have hpositive := List.length_pos_iff.mpr hsome
      have hstop : File.stop base (.data offset chunk)
          = address + chunk.length := by
        rw [File.stop, hplace]
      have hbase : (Record.data offset chunk).base?.getD base = base := rfl
      rw [bounded_cons, hbase, hstop, ih, List.append_eq_nil_iff,
        List.length_append, ← List.length_eq_zero_iff,
        ← List.length_eq_zero_iff]
      omega

end Carries

/-- The image after some segments, which come backwards. -/
def loaded (m : Image) (segments : List (Nat × List UInt8)) : Image :=
  segments.reverse.foldl (fun m s => m.writeAll s.1 s.2) m

/-- Loading records that carry on where the image ends appends the bytes. -/
theorem load_carries {base address : Nat} {bytes : List UInt8}
    {rs : List Record} (m : Image) (segments : List (Nat × List UInt8))
    (h : Carries base address bytes rs)
    (hend : (loaded m segments).size = address) :
    loaded m (rs.foldl File.place (base, segments)).2
      = ⟨(loaded m segments).bytes ++ bytes.toArray⟩ := by
  induction h generalizing segments with
  | nil => simp
  | rebase _ ih => exact ih segments hend
  | @chunk base address offset chunk bytes rs hplace hsome hlength rest ih =>
      have hchunk : loaded m ((base + offset.toNat, chunk) :: segments)
          = ⟨(loaded m segments).bytes ++ chunk.toArray⟩ := by
        rw [loaded, List.reverse_cons, List.foldl_append, ← loaded, hplace,
          ← hend]
        exact Image.writeAll_size ..
      have hsize : (loaded m ((base + offset.toNat, chunk) :: segments)).size
          = address + chunk.length := by
        rw [hchunk, ← hend]
        simp [Image.size]
      rw [List.foldl_cons, File.place, ih _ hsize, hchunk]
      simp

-- ================================================= the records of an image

/-- The records of a run of bytes carry it where it belongs. -/
theorem carries_dataRecords (done : List Record) (upper address : Nat)
    (bytes : List UInt8)
    (hlimit : bytes = [] ∨ address + bytes.length ≤ 2 ^ 32) :
    ∃ rs, File.dataRecords done upper address bytes = done.reverse ++ rs
      ∧ Carries (upper * 65536) address bytes rs := by
  fun_induction File.dataRecords done upper address bytes with
  | case1 done => exact ⟨[], by simp, .nil⟩
  | case2 done upper address byte rest here based chunk ih =>
      have hless : File.recordSize - 1 = 15 := rfl
      have hbytes : address + (rest.length + 1) ≤ 2 ^ 32 := by
        simpa using hlimit
      have hhere : here < 65536 := Nat.mod_lt _ (by decide)
      have hplace : here * 65536 + (UInt16.ofNat (address % 65536)).toNat
          = address := by
        have hoffset : (UInt16.ofNat (address % 65536)).toNat
            = address % 65536 :=
          UInt16.toNat_ofNat_of_lt' (Nat.mod_lt _ (by decide))
        omega
      rw [hless] at ih ⊢
      -- the last chunk can be short, but then no record follows it
      have hrest : rest.drop 15 = [] ∨ 15 < rest.length := by
        rw [List.drop_eq_nil_iff]
        omega
      have hlimit' : rest.drop 15 = []
          ∨ address + 16 + (rest.drop 15).length ≤ 2 ^ 32 := by
        refine hrest.imp_right ?_
        rw [List.length_drop]
        omega
      obtain ⟨rs, hrs, hcarries⟩ := ih hlimit'
      have hnext : Carries (here * 65536)
          (address + (byte :: rest.take 15).length)
          (rest.drop 15) rs := by
        rcases hrest with hdrop | hlong
        · rw [hdrop, File.dataRecords] at hrs
          rw [hdrop, List.append_right_eq_self.mp hrs.symm]
          exact .nil
        · have hfull : (byte :: rest.take 15).length = 16 := by
            rw [List.length_cons, List.length_take]
            omega
          rwa [hfull]
      have hchunk : Carries (here * 65536) address (byte :: rest)
          (chunk :: rs) := by
        have hsplit : byte :: rest
            = (byte :: rest.take 15) ++ rest.drop 15 := by simp
        have hshort : (byte :: rest.take 15).length ≤ 16 := by
          rw [List.length_cons, List.length_take]
          omega
        rw [hsplit]
        exact .chunk hplace (List.cons_ne_nil _ _) hshort hnext
      by_cases hbank : here = upper
      · refine ⟨chunk :: rs, ?_, ?_⟩
        · rw [hrs, show based = done from if_pos hbank]
          simp
        · rw [← hbank]
          exact hchunk
      · refine ⟨.extendedLinear (UInt16.ofNat here) :: chunk :: rs, ?_,
          .rebase ?_⟩
        · rw [hrs, show based = .extendedLinear (UInt16.ofNat here) :: done
            from if_neg hbank]
          simp
        · rw [UInt16.toNat_ofNat_of_lt' hhere]
          exact hchunk

-- ============================================================ the limit

/-- One written line: its record is taken unless it goes past the program
memory. -/
theorem readLines_line {r : Record} (hr : r.payload.length ≤ 255) (base : Nat)
    (done : List Record) (line : Nat) (rest : List (List Char)) :
    File.readLines base false done line (r.line.toList :: rest)
      = if Image.capacity < File.stop (r.base?.getD base) r then
          .error (.onLine line (.tooLarge (File.stop (r.base?.getD base) r)))
        else File.readLines (r.base?.getD base) (r = .endOfFile) (r :: done)
          (line + 1) rest := by
  have hparse := record_parse_line_iff.mpr ⟨hr, rfl⟩
  obtain ⟨c, cs, hline⟩ := List.exists_cons_of_ne_nil (line_ne_nil r)
  have htrim := trim_line r
  rw [hline] at hparse htrim ⊢
  exact readLines_record htrim hparse

/-- Records of which one goes past the program memory are refused for that
reason, if nothing else is wrong with them. -/
theorem readLines_tooLarge {base : Nat} {rs : List Record}
    (hpayload : ∀ r ∈ rs, r.payload.length ≤ 255) (hend : .endOfFile ∉ rs)
    (hlarge : ¬ Bounded base rs) (done : List Record) (line : Nat)
    (rest : List (List Char)) :
    ∃ n stop, Image.capacity < stop
      ∧ File.readLines base false done line (rs.map (·.line.toList) ++ rest)
        = .error (.onLine n (.tooLarge stop)) := by
  induction rs generalizing base done line with
  | nil => exact absurd (bounded_nil base) hlarge
  | cons r rs ih =>
      rw [List.forall_mem_cons] at hpayload
      rw [List.mem_cons, not_or] at hend
      rw [List.map_cons, List.cons_append, readLines_line hpayload.1]
      by_cases hstop : Image.capacity < File.stop (r.base?.getD base) r
      · exact ⟨line, _, hstop, if_pos hstop⟩
      · have hrest : ¬ Bounded (r.base?.getD base) rs := by
          intro hrest
          exact hlarge (bounded_cons.mpr ⟨not_lt.mp hstop, hrest⟩)
        rw [if_neg hstop, decide_eq_false (Ne.symm hend.1)]
        exact ih hpayload.2 hend.2 hrest (r :: done) (line + 1)

-- ============================================================== images

/-- The file of an image: records that carry its bytes from address zero, and
the end. -/
theorem records_ofImage {img : List UInt8} (hlimit : img.length ≤ 2 ^ 32) :
    ∃ rs, File.ofImage (.ofBytes img) = File.ofRecords rs
      ∧ (File.ofRecords rs).records = rs ++ [.endOfFile]
      ∧ Carries 0 0 img rs := by
  obtain ⟨rs, hrs, hcarries⟩ :=
    carries_dataRecords [] 0 0 img (.inr (by omega))
  rw [Nat.zero_mul] at hcarries
  have hfile : File.ofImage (.ofBytes img) = File.ofRecords rs := by
    rw [File.ofImage, Image.ofBytes, hrs]
    rfl
  have hlast : rs.getLast? ≠ some .endOfFile := by
    intro hlast
    exact hcarries.endOfFile_not_mem (List.mem_of_getLast? hlast)
  refine ⟨rs, hfile, ?_, hcarries⟩
  rw [File.ofRecords, if_neg hlast]

/-- An image has a text that is read exactly if it fits into the memory. -/
theorem Carries.representable_iff {bytes : List UInt8} {rs : List Record}
    (h : Carries 0 0 bytes rs) :
    Representable rs ↔ bytes.length ≤ Image.capacity := by
  have hbounded : Bounded 0 rs ↔ bytes.length ≤ Image.capacity := by
    rw [h.bounded_iff, Nat.zero_add, ← List.length_eq_zero_iff]
    omega
  constructor
  · intro hrs
    exact hbounded.mp hrs.bounded
  · intro hlength
    refine ⟨?_, ?_, hbounded.mpr hlength⟩
    · intro offset bytes hmem
      exact h.length_payload_le _ hmem
    · intro hmem
      exact h.endOfFile_not_mem (List.mem_of_mem_dropLast hmem)

/-- Loading the file of an image into an empty memory gives the image. -/
theorem load_ofImage {img : List UInt8} (hlimit : img.length ≤ 2 ^ 32) :
    (File.ofImage (.ofBytes img)).load .empty = .ofBytes img := by
  obtain ⟨rs, hfile, hrecords, hcarries⟩ := records_ofImage hlimit
  have hend (acc : Nat × List (Nat × List UInt8)) : (File.place acc
        .endOfFile).2 = acc.2 := rfl
  have hload := load_carries .empty [] hcarries rfl
  rw [hfile, File.load, File.segments, hrecords, List.foldl_append,
    List.foldl_cons, List.foldl_nil, hend]
  rw [loaded] at hload
  rw [hload]
  simp [loaded, Image.empty, Image.ofBytes]

/-- The file of an image that does not fit is refused for its size. -/
theorem parse_ofImage_tooLarge {img : List UInt8}
    (hlimit : img.length ≤ 2 ^ 32) (hlarge : Image.capacity < img.length) :
    ∃ line stop, Image.capacity < stop
      ∧ File.parse (File.ofImage (.ofBytes img)).text
        = .error (.onLine line (.tooLarge stop)) := by
  obtain ⟨rs, hfile, hrecords, hcarries⟩ := records_ofImage hlimit
  have hbounded : ¬ Bounded 0 rs := by
    rw [hcarries.bounded_iff, ← List.length_eq_zero_iff]
    omega
  obtain ⟨line, stop, hstop, hread⟩ :=
    readLines_tooLarge hcarries.length_payload_le
    hcarries.endOfFile_not_mem hbounded [] 1
      ([Record.endOfFile.line.toList] ++ [[]])
  refine ⟨line, stop, hstop, ?_⟩
  rw [File.parse, lines_text, hfile, hrecords, List.map_append,
    List.append_assoc, List.map_singleton, hread]

/-- The file of an image is read back exactly if the image fits. -/
theorem parse_ofImage_iff {img : List UInt8} (hlimit : img.length ≤ 2 ^ 32)
    {f : File} :
    File.parse (File.ofImage (.ofBytes img)).text = .ok f
      ↔ img.length ≤ Image.capacity ∧ File.ofImage (.ofBytes img) = f := by
  obtain ⟨rs, hfile, -, hcarries⟩ := records_ofImage hlimit
  rw [hfile, parse_ofRecords_iff, hcarries.representable_iff]

/-- The text of an image is read as the image. -/
theorem readImage_ofImage {img : List UInt8}
    (hsize : img.length ≤ Image.capacity) :
    readImage (File.ofImage (.ofBytes img)).text = .ok (.ofBytes img) := by
  have hlimit : img.length ≤ 2 ^ 32 := hsize.trans (by decide)
  rw [readImage, (parse_ofImage_iff hlimit).mpr ⟨hsize, rfl⟩]
  exact congrArg Except.ok (load_ofImage hlimit)

/-- An image survives its text exactly if it fits into the largest program
memory. It is then loaded as it was, so that an analysis of the text is one of
the image. Beyond that size the text is refused for its size. -/
theorem images_survive_up_to_capacity {img : List UInt8}
    (hlimit : img.length ≤ 2 ^ 32) :
    ((∃ f, File.parse (File.ofImage (.ofBytes img)).text = .ok f)
        ↔ img.length ≤ Image.capacity)
      ∧ (img.length ≤ Image.capacity →
        File.parse (File.ofImage (.ofBytes img)).text
          = .ok (File.ofImage (.ofBytes img))
          ∧ (File.ofImage (.ofBytes img)).load .empty = .ofBytes img
          ∧ ∀ c, Stack.analyzeText (File.ofImage (.ofBytes img)).text c
            = Stack.analyze (.ofBytes img) c)
      ∧ (Image.capacity < img.length →
        ∃ line stop, Image.capacity < stop
          ∧ File.parse (File.ofImage (.ofBytes img)).text
            = .error (.onLine line (.tooLarge stop))) := by
  refine ⟨?_, ?_, parse_ofImage_tooLarge hlimit⟩
  · simp only [parse_ofImage_iff hlimit, exists_and_left, exists_eq', and_true]
  · intro hsize
    refine ⟨(parse_ofImage_iff hlimit).mpr ⟨hsize, rfl⟩, load_ofImage hlimit,
      ?_⟩
    intro c
    rw [Stack.analyzeText, Stack.readImage, readImage_ofImage hsize]

/-- An image as large as the program memory, and one with a byte more. -/
theorem images_survive_up_to_capacity_full :
    ((List.replicate Image.capacity (0xFF : UInt8)).length = Image.capacity
        ∧ (File.ofImage
            (.ofBytes (List.replicate Image.capacity 0xFF))).load .empty
          = .ofBytes (List.replicate Image.capacity 0xFF)
        ∧ File.parse (File.ofImage
            (.ofBytes (List.replicate Image.capacity 0xFF))).text
          = .ok (File.ofImage (.ofBytes (List.replicate Image.capacity 0xFF))))
      ∧ ∃ line stop, File.parse (File.ofImage
            (.ofBytes (List.replicate (Image.capacity + 1) 0xFF))).text
          = .error (.onLine line (.tooLarge stop)) := by
  have hfull : (List.replicate Image.capacity (0xFF : UInt8)).length
      = Image.capacity :=
    List.length_replicate
  have hmore : (List.replicate (Image.capacity + 1) (0xFF : UInt8)).length
      = Image.capacity + 1 :=
    List.length_replicate
  obtain ⟨-, hsurvives, -⟩ :=
    images_survive_up_to_capacity (hfull.trans_le (by decide))
  obtain ⟨-, -, hrefused⟩ :=
    images_survive_up_to_capacity (hmore.trans_le (by decide))
  obtain ⟨hparse, hload, -⟩ := hsurvives hfull.le
  obtain ⟨line, stop, -, herror⟩ := hrefused (by omega)
  exact ⟨⟨hfull, hload, hparse⟩, line, stop, herror⟩

end Hex

end AvrFirmware
