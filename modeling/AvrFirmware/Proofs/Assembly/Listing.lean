/-
The linear sweep reads an assembled program back.

# Statements in their order

`statementsFrom` lists the statements of a source with the addresses that
the first pass gives them. Lines that hold labels only take no words and
are left out.

# Line by line

The sweep stands where a line begins. A line without a statement begins
where the next one does, and the instruction of a statement is read there
and leads to the beginning of the next line, because the first pass counts
as many words for the statement as its instruction has. So from the last
line back, the sweep over the rest of the program lists the rest of the
statements (`Laid.exists_swept`). Data would break this: it is read as
whatever it happens to spell.
-/
import AvrFirmware.Proofs.Assembly.Boundaries

namespace AvrFirmware

namespace Assembly

/-- The statements of some lines that start at an address, each with the
address it stands at. -/
def statementsFrom (pc : Nat) : List Line → List (Nat × Statement)
  | [] => []
  | line :: rest =>
      match line.statement with
      | none => statementsFrom pc rest
      | some s => (pc, s) :: statementsFrom (pc + s.width) rest

/-- An entry of a listing is the instruction that the statement at its address
was built as. -/
def BuiltAs (labels : Labels) (a : Nat × Statement) (e : Nat × Instruction) :
    Prop :=
  e.1 = a.1 ∧ ∃ mnemonic os, a.2 = .instruction mnemonic os
    ∧ build ⟨a.1, labels⟩ mnemonic os = .ok e.2

/-- A line without a statement takes no place. -/
theorem statementsFrom_of_none {line : Line} (h : line.statement = none)
    (pc : Nat) (rest : List Line) :
    statementsFrom pc (line :: rest) = statementsFrom pc rest := by
  rw [statementsFrom, h]

/-- A statement stands where the ones before it end. -/
theorem statementsFrom_of_some {line : Line} {s : Statement}
    (h : line.statement = some s) (pc : Nat) (rest : List Line) :
    statementsFrom pc (line :: rest)
      = (pc, s) :: statementsFrom (pc + s.width) rest := by
  rw [statementsFrom, h]

namespace Laid

variable {lines : List Line} {chunks : List (List Word)} {p : Program}

/-- From the beginning of every line the sweep lists the statements that
follow. -/
theorem exists_swept (h : Laid lines chunks p)
    (hsize : p.words.size < 0x400000)
    (hcode : ∀ line ∈ lines, ∀ data, line.statement ≠ some (.words data))
    {k : Nat} (hk : k ≤ lines.length) :
    ∃ listing, p.image.Swept (widthBefore lines k) listing
      ∧ List.Forall₂ (BuiltAs p.labels)
        (statementsFrom (widthBefore lines k) (lines.drop k))
        listing := by
  induction hk using Nat.decreasingInduction with
  | self =>
      refine ⟨[], ?_, ?_⟩
      · rw [Image.swept_nil_iff, p.size_image, h.size_eq]
      · rw [List.drop_length]
        exact .nil
  | of_succ k hk ih =>
      obtain ⟨listing, hswept, hbuilt⟩ := ih
      have hline := List.getElem?_eq_getElem hk
      have hnext := widthBefore_succ hline
      rw [List.drop_eq_getElem_cons hk]
      rw [Line.width] at hnext
      cases hs : lines[k].statement with
      | none =>
          rw [hs, Nat.add_zero] at hnext
          rw [hnext] at hswept hbuilt
          rw [statementsFrom_of_none hs]
          exact ⟨listing, hswept, hbuilt⟩
      | some s =>
          rw [hs] at hnext
          rw [statementsFrom_of_some hs]
          cases s with
          | words data => exact absurd hs (hcode _ (List.getElem_mem hk) data)
          | instruction mnemonic os =>
              obtain ⟨i, hbuild, hdecode⟩ := h.exists_decodeAt hsize hline hs
              rw [h.startOf_eq] at hbuild hdecode
              have hwidth := width_of_build hbuild
              have hinside := Image.lt_wordSlots_of_decodeAt hdecode
              refine ⟨(widthBefore lines k, i) :: listing, ?_, .cons ?_ ?_⟩
              · refine Image.swept_cons_iff.mpr ⟨?_, rfl, hdecode, ?_⟩
                · unfold Image.wordSlots at hinside
                  omega
                · rw [hwidth, ← hnext]
                  exact hswept
              · exact ⟨rfl, mnemonic, os, rfl, hbuild⟩
              · rw [← hnext]
                exact hbuilt

end Laid

/-- The linear sweep inverts the assembly of a source without data. It meets no
error, comes to the statements of the source in their order and to nothing
else, reads at each of them the instruction that it was built as, and ends
where the program does. -/
theorem sweep_inverts_assembly {source : String} {lines : List Line}
    {p : Program} (hlines : Line.parseAll source = .ok lines)
    (hassemble : Program.assemble source = .ok p)
    (hsize : p.words.size < 0x400000)
    (hcode : ∀ line ∈ lines, ∀ data, line.statement ≠ some (.words data)) :
    ∃ listing, p.image.Swept 0 listing
      ∧ List.Forall₂ (BuiltAs p.labels) (statementsFrom 0 lines) listing
      ∧ p.image.sweepEnd 0 = p.words.size := by
  obtain ⟨lines', chunks, hlines', hlaid⟩ := laid_of_assemble hassemble
  cases hlines.symm.trans hlines'
  obtain ⟨listing, hswept, hbuilt⟩ :=
    hlaid.exists_swept hsize hcode (Nat.zero_le _)
  refine ⟨listing, hswept, hbuilt, ?_⟩
  have hend : p.image.sweepEnd 0 = 0 + (listing.flatMap (·.2.words)).length :=
    Image.sweepEnd_of_swept hswept
  have hlength : 2 * (0 + (listing.flatMap (·.2.words)).length)
      = p.image.size :=
    Image.length_words_of_sweep hswept (Nat.zero_le _)
  rw [p.size_image] at hlength
  omega

/-- A program with a long call over a jump, a load through a pointer alone and
one without operands, a branch back, and a label at its end. -/
def mixedProgram : String :=
  "main: LDI r24, 0x10\ncall sub\nhalt: rjmp halt ; stay\n"
    ++ "sub: ld r0, Z\nlpm\nbrne sub\nret\ndone:"

/-- The lines of that program. -/
def mixedProgramLines : List Line :=
  [⟨1, ["main"],
    some (.instruction "ldi" [.register (.ofNat 24), .number 16])⟩,
    ⟨2, [], some (.instruction "call" [.label "sub"])⟩,
    ⟨3, ["halt"], some (.instruction "rjmp" [.label "halt"])⟩,
    ⟨4, ["sub"],
      some (.instruction "ld" [.register (.ofNat 0), .pointer .z .plain])⟩,
    ⟨5, [], some (.instruction "lpm" [])⟩,
    ⟨6, [], some (.instruction "brne" [.label "sub"])⟩,
    ⟨7, [], some (.instruction "ret" [])⟩,
    ⟨8, ["done"], none⟩]

theorem sweep_inverts_assembly_mixedProgram :
    ∃ p, Program.assemble mixedProgram = .ok p
      ∧ Line.parseAll mixedProgram = .ok mixedProgramLines
      ∧ p.image.Swept 0
        [(0, .immediate .ldi (.ofNat 24) 16), (1, .absolute .call 4),
          (3, .relative .rjmp (-1)), (4, .ldd (.ofNat 0) .z 0),
          (5, .programLoad .lpm (.ofNat 0) false), (6, .branch .brbc 1 (-3)),
          (7, .bare .ret)]
      ∧ ∃ listing, p.image.Swept 0 listing
        ∧ List.Forall₂ (BuiltAs p.labels) (statementsFrom 0 mixedProgramLines)
          listing
        ∧ p.image.sweepEnd 0 = p.words.size := by
  have hwords : Program.words <$> Program.assemble mixedProgram
      = .ok #[0xE180, 0x940E, 4, 0xCFFF, 0x8000, 0x95C8, 0xF7E9, 0x9508] := by
    decide +kernel
  have hlines : Line.parseAll mixedProgram = .ok mixedProgramLines := by
    decide +kernel
  obtain ⟨p, hp, hwords⟩ := map_eq_ok.mp hwords
  have hsize : p.words.size < 0x400000 := by
    rw [hwords]
    decide
  have hcode : ∀ line ∈ mixedProgramLines, ∀ data,
      line.statement ≠ some (.words data) := by
    intro line hline data
    fin_cases hline <;> simp
  have hswept : p.image.Swept 0
      [(0, .immediate .ldi (.ofNat 24) 16), (1, .absolute .call 4),
        (3, .relative .rjmp (-1)), (4, .ldd (.ofNat 0) .z 0),
        (5, .programLoad .lpm (.ofNat 0) false), (6, .branch .brbc 1 (-3)),
        (7, .bare .ret)] := by
    unfold Image.Swept Program.image
    rw [hwords]
    cbv
  exact ⟨p, hp, hlines, hswept, sweep_inverts_assembly hlines hp hsize hcode⟩

end Assembly

end AvrFirmware
