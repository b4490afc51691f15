/-
Disassembling and assembling again.

# Sources made of printed instructions

A printed instruction is a line that asks for it (`parseAll_of_restates`)
and is read back as itself (`readInstruction_text`). Sources are read line
by line, so such lines can be put one behind the other
(`parseAll_texts`). They define no labels, and the second pass puts the
words of the instructions one behind the other (`assemble_texts`).

# Images

The instructions of a sweep without errors are such lines. Their words
are those of the image but for the two that are read and never written,
so assembling the listing gives the image back.
-/
import AvrFirmware.Proofs.Assembly.Locality
import AvrFirmware.Proofs.Assembly.Spelling
import AvrFirmware.Proofs.Image.Sweep
import AvrFirmware.Assembly.Program

namespace AvrFirmware

namespace Assembly

-- =============================================================== reading

/-- A line that asks for one instruction and names nothing. -/
def Line.Asks (line : Line) (i : Instruction) : Prop :=
  line.labels = []
    ∧ ∃ mnemonic os, line.statement = some (.instruction mnemonic os)
    ∧ ∀ site, build site mnemonic os = .ok i

theorem labelled_of_isInner {name : String} {ts : List Token}
    (h : ∀ t ∈ ts, t.isInner = true) :
    labelled (.identifier name :: ts) = ([], .identifier name :: ts) := by
  unfold labelled labelsFrom
  split
  · next heq =>
      cases heq
      cases h .colon List.mem_cons_self
  · rfl

/-- A text that states an instruction has no line feed, and by itself it is a
line that asks for the instruction. -/
theorem parseAll_of_restates {text : String} {i : Instruction}
    (h : Restates text i) :
    '\n' ∉ text.toList
      ∧ ∃ line, Line.parseAll text = .ok [line] ∧ line.Asks i := by
  obtain ⟨mnemonic, os, ⟨ts, hreads, hinner, hoperands⟩, hlower, hbuild⟩ := h
  have hscan : scan text.toList
      = (Token.identifier mnemonic :: ts).map .ok := by
    have hfront := hreads [] detached_nil
    rwa [scan_nil, List.append_nil, List.append_nil] at hfront
  have hnewline : Token.newline ∉ Token.identifier mnemonic :: ts := by
    intro hmem
    rcases List.mem_cons.mp hmem with hmem | hmem
    · cases hmem
    · cases hinner _ hmem
  constructor
  · rw [← newline_mem_scan_iff, hscan]
    intro hmem
    obtain ⟨t, ht, heq⟩ := List.mem_map.mp hmem
    cases heq
    exact hnewline ht
  · refine ⟨⟨1, [], some (.instruction mnemonic os)⟩, ?_, rfl, mnemonic, os,
      rfl, hbuild⟩
    rw [(gathers_of_scan hscan hnewline).parseAll_eq, linesOfTokens,
      Line.parse, labelled_of_isInner hinner]
    simp only [statement, hoperands, hlower]
    rfl

/-- Printed instructions, one on a line, are read as lines that ask for
them. -/
theorem readEach_texts {is : List Instruction} (h : ∀ i ∈ is, i.Encodable)
    (number : Nat) :
    ∃ lines, readEach number (is.map Instruction.text) = .ok lines
      ∧ List.Forall₂ Line.Asks lines is := by
  induction is generalizing number with
  | nil => exact ⟨[], rfl, .nil⟩
  | cons i is ih =>
      obtain ⟨-, line, hline, hasks⟩ :=
        parseAll_of_restates (restates_text (h i List.mem_cons_self))
      obtain ⟨lines, hlines, hall⟩ :=
        ih (fun j hj => h j (List.mem_cons_of_mem i hj)) (number + 1)
      refine ⟨{ line with number := number } :: lines, ?_, .cons hasks hall⟩
      rw [List.map_cons, readEach, hline, hlines]
      rfl

theorem parseAll_texts {is : List Instruction} (h : ∀ i ∈ is, i.Encodable) :
    ∃ lines,
      Line.parseAll ("\n".intercalate (is.map Instruction.text)) = .ok lines
      ∧ List.Forall₂ Line.Asks lines is := by
  rw [parseAll_intercalate]
  · exact readEach_texts h 1
  · intro text htext
    obtain ⟨i, hi, rfl⟩ := List.mem_map.mp htext
    exact (parseAll_of_restates (restates_text (h i hi))).1

-- =================================================== single instructions

/-- The text of an instruction that fits into its words is read as that
instruction. -/
theorem readInstruction_text {i : Instruction} (h : i.Encodable) :
    readInstruction i.text = .ok i := by
  obtain ⟨-, ⟨number, labels, statement⟩, hparse, hasks⟩ :=
    parseAll_of_restates (restates_text h)
  obtain ⟨rfl, mnemonic, os, rfl, hbuild⟩ := hasks
  simp only [readInstruction, hparse, hbuild]

/-- Whatever a pair of words is read as, its text is read as the same
instruction. -/
theorem printed_instruction_reads_back {word next : Word} {i : Instruction}
    (h : decode word next = .ok i) : readInstruction i.text = .ok i :=
  readInstruction_text (Instruction.encodable_of_decode h)

/-- A load that is printed without its displacement, a branch back that is
printed by the name of its flag, and a call by its address in bytes. -/
theorem printed_instruction_reads_back_forms :
    (decode 0x8008 0 = .ok (.ldd (.ofNat 0) .y 0)
      ∧ readInstruction "ld r0, Y" = .ok (.ldd (.ofNat 0) .y 0))
    ∧ (decode 0xF7F1 0 = .ok (.branch .brbc 1 (-2))
      ∧ readInstruction "brne .-4" = .ok (.branch .brbc 1 (-2)))
    ∧ decode 0x95FF 0xFFFF = .ok (.absolute .call 0x3FFFFF)
      ∧ readInstruction "call 0x7FFFFE" = .ok (.absolute .call 0x3FFFFF) := by
  have hload : decode 0x8008 0 = .ok (.ldd (.ofNat 0) .y 0) := by decide
  have hbranch : decode 0xF7F1 0 = .ok (.branch .brbc 1 (-2)) := by decide
  have hcall : decode 0x95FF 0xFFFF = .ok (.absolute .call 0x3FFFFF) := by
    decide
  have hloadText : (Instruction.ldd (.ofNat 0) .y 0).text = "ld r0, Y" := by
    decide +kernel
  have hbranchText : (Instruction.branch .brbc 1 (-2)).text = "brne .-4" := by
    decide +kernel
  have hcallText : (Instruction.absolute .call 0x3FFFFF).text
      = "call 0x7FFFFE" := by
    decide +kernel
  have hload' := printed_instruction_reads_back hload
  have hbranch' := printed_instruction_reads_back hbranch
  have hcall' := printed_instruction_reads_back hcall
  rw [hloadText] at hload'
  rw [hbranchText] at hbranch'
  rw [hcallText] at hcall'
  exact ⟨⟨hload, hload'⟩, ⟨hbranch, hbranch'⟩, hcall, hcall'⟩

-- ============================================================== emitting

theorem layoutFrom_of_asks {lines : List Line} {is : List Instruction}
    (h : List.Forall₂ Line.Asks lines is) (labels : Labels) (pc : Nat) :
    layoutFrom labels pc lines = .ok labels := by
  induction h generalizing pc with
  | nil => rfl
  | cons hline hlines ih =>
      rw [layoutFrom, hline.1]
      exact ih _

theorem emitFrom_of_asks {lines : List Line} {is : List Instruction}
    (h : List.Forall₂ Line.Asks lines is) (labels : Labels)
    (done : Array Word) :
    emitFrom labels done lines
      = .ok (done ++ is.flatMap Instruction.words) := by
  induction h generalizing done with
  | nil => simp [emitFrom]
  | @cons line i lines is hline hlines ih =>
      obtain ⟨-, mnemonic, os, hstatement, hbuild⟩ := hline
      have hemit : Statement.emit ⟨done.size, labels⟩
            (.instruction mnemonic os) = .ok i.words := by
        rw [Statement.emit, hbuild]
        rfl
      have happend : done ++ i.words ++ is.flatMap Instruction.words
          = done ++ (i.words ++ is.flatMap Instruction.words) := by
        simp [← Array.toList_inj]
      simp only [emitFrom, hstatement, hemit, ih, List.flatMap_cons, happend]

/-- Printed instructions, one on a line, assemble to their words. -/
theorem assemble_texts {is : List Instruction} (h : ∀ i ∈ is, i.Encodable) :
    Program.assemble ("\n".intercalate (is.map Instruction.text))
      = .ok ⟨(is.flatMap Instruction.words).toArray, ∅⟩ := by
  obtain ⟨lines, hparse, hasks⟩ := parseAll_texts h
  have hemit := emitFrom_of_asks hasks ∅ #[]
  simp only [Program.assemble, hparse, Program.ofLines, layout,
    layoutFrom_of_asks hasks, hemit]
  simp

-- ================================================================ images

/-- Assembling the listing of an image gives its words, but for the two that
are read and never written. -/
theorem listing_assembles_to_image {m : Image}
    {listing : List (Nat × Instruction)} (h : m.Swept 0 listing) :
    ∃ p, Program.assemble ("\n".intercalate (listing.map (·.2.text))) = .ok p
      ∧ p.labels = ∅ ∧ 2 * p.words.size = m.size
      ∧ ∀ pc, p.words[pc]?
        = if pc ∈ listing.map Prod.fst then (m.word? pc).map Word.preferred
        else m.word? pc := by
  have htexts : listing.map (·.2.text)
      = (listing.map Prod.snd).map Instruction.text := by
    rw [List.map_map]
    rfl
  have hwords : (listing.map Prod.snd).flatMap Instruction.words
      = listing.flatMap (·.2.words) := by
    rw [List.flatMap_map]
  have hencodable : ∀ i ∈ listing.map Prod.snd, i.Encodable := by
    intro i hi
    obtain ⟨e, he, rfl⟩ := List.mem_map.mp hi
    exact Image.encodable_of_mem_swept h e he
  have hassemble := assemble_texts hencodable
  rw [hwords, ← htexts] at hassemble
  refine ⟨_, hassemble, rfl, ?_, ?_⟩
  · have hlength := Image.length_words_of_sweep h (Nat.zero_le _)
    rwa [Nat.zero_add] at hlength
  · intro pc
    have hword := Image.getElem?_words_of_sweep h pc
    rwa [Nat.zero_add, ← List.getElem?_toArray] at hword

/-- A program of a load, a call, a return and another load, with both loads in
the form that is never written. -/
theorem listing_assembles_to_image_loads :
    (Image.ofWords [0x9004, 0x940E, 4, 0x9508, 0x9006]).Swept 0
        [(0, .programLoad .lpm (.ofNat 0) false), (1, .absolute .call 4),
          (3, .bare .ret),
          (4, .programLoad .elpm (.ofNat 0) false)]
      ∧ ∃ p, Program.assemble "lpm\ncall 0x8\nret\nelpm" = .ok p
        ∧ p.words.size = 5 ∧ p.words[0]? = some 0x95C8
        ∧ p.words[1]? = some 0x940E
        ∧ p.words[4]? = some 0x95D8 := by
  have hswept : (Image.ofWords [0x9004, 0x940E, 4, 0x9508, 0x9006]).Swept 0
      [(0, .programLoad .lpm (.ofNat 0) false), (1, .absolute .call 4),
        (3, .bare .ret),
        (4, .programLoad .elpm (.ofNat 0) false)] := by
    refine Image.swept_cons_iff.mpr ⟨by decide, rfl, by decide, ?_⟩
    refine Image.swept_cons_iff.mpr ⟨by decide, rfl, by decide, ?_⟩
    refine Image.swept_cons_iff.mpr ⟨by decide, rfl, by decide, ?_⟩
    refine Image.swept_cons_iff.mpr ⟨by decide, rfl, by decide, ?_⟩
    exact Image.swept_nil_iff.mpr (by decide)
  obtain ⟨p, hassemble, -, hsize, hwords⟩ := listing_assembles_to_image hswept
  have htext : "\n".intercalate
      (List.map (fun e : Nat × Instruction => e.2.text)
      [(0, .programLoad .lpm (.ofNat 0) false), (1, .absolute .call 4),
        (3, .bare .ret),
        (4, .programLoad .elpm (.ofNat 0) false)])
          = "lpm\ncall 0x8\nret\nelpm" := by
    decide +kernel
  rw [htext] at hassemble
  refine ⟨hswept, p, hassemble, ?_, ?_, ?_, ?_⟩
  · have himage : 2 * p.words.size = 2 * 5 := hsize
    omega
  · rw [hwords]
    decide
  · rw [hwords]
    decide
  · rw [hwords]
    decide

end Assembly

end AvrFirmware
