/-
Control in an assembled program stays on its statements.

# Boundaries

A boundary is an address where a line begins, or one behind the program.
Lines without statements take no words, so a boundary inside the program
is the address of a statement (`Laid.exists_statement`), and what is read
there is the statement's instruction.

# One step

A step of control goes on behind its instruction, to the destination of a
transfer, or behind what a skip leaves out (`Leads.destination_cases`).
Behind the instruction of a statement the next line begins, and this
settles the first way and, applied twice, the third. For the second, a
source has to keep to labels: an offset or an address in numbers can lead
into the middle of an instruction, and data can be read as one.

# The walk

By induction every address that control reaches is a boundary. So an
analysis meets nothing that cannot be read. What it cannot follow or
resolve has been written as such: a return from an interrupt, or a jump
or call through a register.
-/
import AvrFirmware.Proofs.Assembly.Targets
import AvrFirmware.Proofs.Stack.Alarms

namespace AvrFirmware

-- ============================================================ destinations

/-- The jumps and calls through a register. -/
def BareOp.indirect : List BareOp :=
  [.ijmp, .eijmp, .icall, .eicall]

/-- Of the instructions without operands only the jumps and calls through a
register have a destination, and it is not known. -/
theorem indirect_of_target {op : BareOp} {target : Target}
    (h : (Instruction.bare op).flow.target? = some target) :
    target = .unresolved ∧ op ∈ BareOp.indirect := by
  cases op <;> cases h <;> exact ⟨rfl, by decide⟩

/-- A step of control goes on behind its instruction, to the destination of a
transfer, or behind what a skip leaves out. -/
theorem Stack.Leads.destination_cases {m : Image} {bytes next pc : Nat}
    {rise : Int} {flow : Flow} (h : Leads m bytes next pc rise flow) :
    pc = next
      ∨ (∃ target, flow.target? = some target ∧ target.resolve next = some pc)
      ∨ (m.isPastEnd next = true ∧ pc = next + 1)
      ∨ ∃ skipped, m.decodeAt next = .ok skipped
        ∧ pc = next + skipped.width := by
  cases flow with
  | branch offset =>
      obtain ⟨htarget | hnext, -⟩ := h
      · exact .inr (.inl ⟨_, rfl, htarget⟩)
      · exact .inl hnext
  | skip =>
      obtain ⟨hnext | hpast | hskipped, -⟩ := h
      · exact .inl hnext
      · exact .inr (.inr (.inl hpast))
      · exact .inr (.inr (.inr hskipped))
  | jump target => exact .inr (.inl ⟨target, rfl, h.1⟩)
  | call target =>
      cases target with
      | relative offset => exact .inr (.inl ⟨_, rfl, h.1⟩)
      | absolute address =>
          rcases h with ⟨hnext, -⟩ | ⟨hpc, -⟩
          · exact .inl hnext
          · exact .inr (.inl ⟨_, rfl, congrArg some hpc.symm⟩)
      | unresolved => cases h
  | ret => cases h
  | interruptReturn => cases h
  | push => exact .inl h.1
  | pop => exact .inl h.1
  | wideStore => exact .inl h.1
  | straight => exact .inl h.1

namespace Assembly

-- ================================================================= forms

/-- The target of a transfer is the target of its flow. -/
theorem Transfer.target?_eq_some {t : Transfer} {flow : Flow} {target : Target}
    (h : t.target? flow = some target) : flow.target? = some target := by
  cases t <;> cases flow <;> cases h <;> rfl

namespace Form

variable {site : Site} {os : List Operand} {i : Instruction} {form : Form}

/-- The operation of a form without operands. -/
def bareOp? : Form → Option BareOp
  | bare op => some op
  | _ => none

/-- A load through a pointer goes nowhere else, however it is built. -/
theorem target?_loadThrough (d : Register) (p : Pointer × PointerStep) :
    (loadThrough d p).flow.target? = none
      ∧ ∀ op, loadThrough d p ≠ .bare op := by
  obtain ⟨ptr, step⟩ := p
  cases ptr <;> cases step <;> exact ⟨rfl, by simp [loadThrough]⟩

theorem target?_storeThrough (r : Register) (p : Pointer × PointerStep) :
    (storeThrough r p).flow.target? = none
      ∧ ∀ op, storeThrough r p ≠ .bare op := by
  obtain ⟨ptr, step⟩ := p
  cases ptr <;> cases step <;> exact ⟨rfl, by simp [storeThrough]⟩

/-- A form takes a destination, or it is an instruction without operands, or
its instructions transfer control nowhere. -/
theorem cases_of_build (h : form.build site os = .ok i) :
    (∃ t, form.transfer? = some t)
      ∨ (∃ op, form.bareOp? = some op ∧ os = [] ∧ i = .bare op)
      ∨ (i.flow.target? = none ∧ ∀ op, i ≠ .bare op) := by
  cases form <;> simp only [build, bind_eq_ok, pure_eq_ok] at h
  case branch | namedBranch => exact .inl ⟨.branch, rfl⟩
  case relative op | absolute op =>
    cases op
    · exact .inl ⟨.jump, rfl⟩
    · exact .inl ⟨.call, rfl⟩
  case bare op =>
    obtain ⟨u, hnone, rfl⟩ := h
    cases os with
    | nil => exact .inr (.inl ⟨op, rfl, rfl, rfl⟩)
    | cons o os => cases hnone
  all_goals right; right
  case ld =>
    obtain ⟨-, -, d, -, p, -, rfl⟩ := h
    exact target?_loadThrough d p
  case st =>
    obtain ⟨-, -, r, -, p, -, rfl⟩ := h
    exact target?_storeThrough r p
  case programLoad =>
    split at h
    · cases h
      exact ⟨rfl, by simp⟩
    · simp only [bind_eq_ok, pure_eq_ok] at h
      obtain ⟨-, -, -, -, -, -, rfl⟩ := h
      exact ⟨rfl, by simp⟩
  case spm =>
    split at h
    · cases h
      exact ⟨rfl, by simp⟩
    · simp only [bind_eq_ok, pure_eq_ok] at h
      obtain ⟨-, -, -, -, rfl⟩ := h
      exact ⟨rfl, by simp⟩
  case exchange =>
    obtain ⟨p, -, stepped, -, h⟩ := h
    split at h
    · cases h
    · simp only [bind_eq_ok, pure_eq_ok] at h
      obtain ⟨-, -, rfl⟩ := h
      exact ⟨rfl, by simp⟩
  case binary op | doubled op =>
    obtain ⟨-, -, rfl⟩ := h
    cases op <;> exact ⟨rfl, by simp⟩
  case registerBit op | ioBit op =>
    obtain ⟨-, -, -, -, -, -, rfl⟩ := h
    cases op <;> exact ⟨rfl, by simp⟩
  case immediate | clearBits | setAll | unary | push | pop | namedFlag =>
    obtain ⟨-, -, rfl⟩ := h
    exact ⟨rfl, by simp⟩
  case flag | des =>
    obtain ⟨-, -, -, -, rfl⟩ := h
    exact ⟨rfl, by simp⟩
  all_goals
    obtain ⟨-, -, -, -, -, -, rfl⟩ := h
    exact ⟨rfl, by simp⟩

/-- The forms that take a destination are listed under their mnemonics. -/
theorem transfer_of_mem_table :
    ∀ e ∈ table, ∀ t ∈ e.2.transfer?, e.1 ∈ t.mnemonics := by
  decide +kernel

/-- The forms without operands are listed under their operations' mnemonics. -/
theorem bareOp_of_mem_table :
    ∀ e ∈ table, ∀ op ∈ e.2.bareOp?, e.1 = op.mnemonic := by
  decide +kernel

end Form

-- ============================================================ statements

/-- The statement is an instruction, and if it takes a destination, that is a
label. -/
def Statement.TakesLabels : Statement → Prop
  | .instruction mnemonic os =>
      (∃ t : Transfer, mnemonic ∈ t.mnemonics) → ∃ name, .label name ∈ os
  | .words _ => False

/-- A statement of a source stands at an address: the lines before it take so
many words. -/
def StandsAt (lines : List Line) (s : Statement) (pc : Nat) : Prop :=
  ∃ (k : Nat) (line : Line), lines[k]? = some line ∧ line.statement = some s
    ∧ widthBefore lines k = pc

/-- An address where a line begins, or one behind the program. -/
def Boundary (lines : List Line) (p : Program) (pc : Nat) : Prop :=
  (∃ k ≤ lines.length, widthBefore lines k = pc) ∨ p.words.size ≤ pc

theorem widthBefore_succ {lines : List Line} {k : Nat} {line : Line}
    (h : lines[k]? = some line) :
    widthBefore lines (k + 1) = widthBefore lines k + line.width := by
  rw [widthBefore, widthBefore, List.take_add_one, h]
  simp

/-- A word has two bytes. -/
theorem Program.size_image (p : Program) :
    p.image.size = 2 * p.words.size := by
  rw [Program.image, Image.size_ofWords, Array.length_toList]

/-- The image of a program ends behind its words. -/
theorem Program.isPastEnd_image (p : Program) (pc : Nat) :
    p.image.isPastEnd pc = true ↔ p.words.size ≤ pc := by
  unfold Image.isPastEnd
  rw [decide_eq_true_iff, p.size_image]
  omega

theorem Program.size_image_le {p : Program} (h : p.words.size < 0x400000) :
    p.image.size ≤ Image.capacity := by
  rw [p.size_image]
  unfold Image.capacity
  omega

variable {lines : List Line} {chunks : List (List Word)} {p : Program}
  {pc : Nat} {s : Statement} {mnemonic : String} {os : List Operand}
  {i : Instruction}

/-- A statement stands on a boundary. -/
theorem StandsAt.boundary (h : StandsAt lines s pc) : Boundary lines p pc := by
  obtain ⟨k, line, hline, -, hpc⟩ := h
  have hlt := (List.getElem?_eq_some_iff.mp hline).1
  exact .inl ⟨k, hlt.le, hpc⟩

namespace Laid

theorem startOf_eq (h : Laid lines chunks p) (k : Nat) :
    startOf chunks k = widthBefore lines k :=
  startOf_eq_widthBefore h.length_eq
    (fun k line ws hline hws => (h.yields k line ws hline hws).length_eq) k

theorem size_eq (h : Laid lines chunks p) :
    p.words.size = widthBefore lines lines.length := by
  rw [← h.startOf_eq, h.size_words, startOf, ← h.length_eq, List.take_length]

/-- Where a line begins inside the program, a statement stands: its own, or the
first one behind. -/
theorem exists_statement (h : Laid lines chunks p) {k : Nat}
    (hk : k ≤ lines.length) (hinside : widthBefore lines k < p.words.size) :
    ∃ s, StandsAt lines s (widthBefore lines k) := by
  -- from the last line back: a line without a statement begins where the next
  -- one does
  induction hk using Nat.decreasingInduction with
  | self =>
      rw [h.size_eq] at hinside
      exact absurd hinside (Nat.lt_irrefl _)
  | of_succ k hk ih =>
      have hline := List.getElem?_eq_getElem hk
      cases hs : lines[k].statement with
      | some s => exact ⟨s, k, _, hline, hs, rfl⟩
      | none =>
          have hsame : widthBefore lines (k + 1) = widthBefore lines k := by
            rw [widthBefore_succ hline, Line.width, hs, Nat.add_zero]
          rw [hsame] at ih
          exact ih hinside

/-- A label stands for a boundary. -/
theorem boundary_of_label (h : Laid lines chunks p) {name : String} {a : Nat}
    (ha : p.labels[name]? = some a) : Boundary lines p a := by
  obtain ⟨k, line, hline, hname⟩ := h.exists_definition ha
  have hlt := (List.getElem?_eq_some_iff.mp hline).1
  refine .inl ⟨k, hlt.le, ?_⟩
  rw [← h.startOf_eq]
  exact Option.some.inj ((h.placed k line hline name hname).symm.trans ha)

end Laid

-- ============================================================== one step

/-- The instruction of a statement is read at an address. -/
structure ReadAt (lines : List Line) (p : Program) (pc : Nat)
    (mnemonic : String) (os : List Operand) (i : Instruction) : Prop where
  stands : StandsAt lines (.instruction mnemonic os) pc
  built : build ⟨pc, p.labels⟩ mnemonic os = .ok i
  decoded : p.image.decodeAt pc = .ok i

/-- What the instruction of a statement does to control. -/
inductive Guided (p : Program) (pc : Nat) (mnemonic : String)
    (os : List Operand) (i : Instruction) : Prop where
  /-- It goes to a label. -/
  | transfer {target : Target} {name : String} {a : Nat}
      (htarget : i.flow.target? = some target)
      (hlabel : p.labels[name]? = some a)
      (hresolve : target.resolve (pc + i.width) = some a)
  /-- It has no operands. -/
  | bare {op : BareOp} (hmnemonic : mnemonic = op.mnemonic)
      (hoperands : os = []) (hinstruction : i = .bare op)
  /-- It transfers control nowhere. -/
  | onward (htarget : i.flow.target? = none)
      (hinstruction : ∀ op, i ≠ .bare op)

section Labelled

variable (hlaid : Laid lines chunks p) (hsize : p.words.size < 0x400000)
  (hlabels : ∀ line ∈ lines, ∀ s, line.statement = some s → s.TakesLabels)

include hlaid hsize hlabels

/-- Inside the program the instruction of a statement is read at every
boundary. -/
theorem exists_readAt (hpc : Boundary lines p pc)
    (hinside : ¬ p.image.isPastEnd pc = true) :
    ∃ mnemonic os i, ReadAt lines p pc mnemonic os i := by
  rw [p.isPastEnd_image] at hinside
  rcases hpc with ⟨k, hk, rfl⟩ | hbehind
  · obtain ⟨s, hstands⟩ := hlaid.exists_statement hk (Nat.lt_of_not_le hinside)
    have ⟨n, line, hline, hs, hstart⟩ := hstands
    cases s with
    | words data => cases hlabels line (List.mem_of_getElem? hline) _ hs
    | instruction mnemonic os =>
        obtain ⟨i, hbuild, hdecode⟩ := hlaid.exists_decodeAt hsize hline hs
        rw [hlaid.startOf_eq, hstart] at hbuild hdecode
        exact ⟨mnemonic, os, i, hstands, hbuild, hdecode⟩
  · exact absurd hbehind hinside

/-- An instruction that is read on a boundary is the one of a statement
there. -/
theorem readAt_of_decodeAt (hpc : Boundary lines p pc)
    (hd : p.image.decodeAt pc = .ok i) :
    ∃ mnemonic os, ReadAt lines p pc mnemonic os i := by
  have hinside := Image.not_isPastEnd_of_decodeAt hd
  obtain ⟨mnemonic, os, j, hread⟩ :=
    exists_readAt hlaid hsize hlabels hpc hinside
  cases hread.decoded.symm.trans hd
  exact ⟨mnemonic, os, hread⟩

/-- Behind what is read at a boundary comes the next one. -/
theorem boundary_behind (hpc : Boundary lines p pc)
    (hd : p.image.decodeAt pc = .ok i) :
    Boundary lines p (pc + i.width) := by
  obtain ⟨mnemonic, os, hread⟩ := readAt_of_decodeAt hlaid hsize hlabels hpc hd
  obtain ⟨k, line, hline, hs, hstart⟩ := hread.stands
  have hlt := (List.getElem?_eq_some_iff.mp hline).1
  refine .inl ⟨k + 1, hlt, ?_⟩
  rw [widthBefore_succ hline, hstart, Line.width, hs,
    width_of_build hread.built]

/-- A statement that takes a destination goes to a label, and no other one has
a destination, unless it has no operands. -/
theorem ReadAt.guided {mnemonic : String} {os : List Operand}
    (hread : ReadAt lines p pc mnemonic os i) : Guided p pc mnemonic os i := by
  obtain ⟨⟨k, line, hline, hs, hstart⟩, hbuild, -⟩ := hread
  unfold build at hbuild
  split at hbuild
  · next form hform =>
      have hlisted := Form.mem_table_of_ofMnemonic? hform
      rcases Form.cases_of_build hbuild with ⟨t, ht⟩ | ⟨op, hop, hos, hi⟩
          | ⟨htarget, hi⟩
      · have hmnemonic := Form.transfer_of_mem_table _ hlisted t ht
        obtain ⟨name, hname⟩ :=
          hlabels line (List.mem_of_getElem? hline) _ hs ⟨t, hmnemonic⟩
        have hlimit : ∀ (name : String) (a : Nat), p.labels[name]? = some a →
            a < Target.addressLimit := by
          intro name a ha
          exact Nat.lt_of_le_of_lt (hlaid.label_le ha)
            (hsize.trans (by decide))
        obtain ⟨a, ha, hresolve⟩ :=
          Form.destination_of_build hlimit ht hbuild hname
        obtain ⟨target, htarget, hresolve⟩ :=
          Option.bind_eq_some_iff.mp hresolve
        exact .transfer (Transfer.target?_eq_some htarget) ha hresolve
      · exact .bare (Form.bareOp_of_mem_table _ hlisted op hop) hos hi
      · exact .onward htarget hi
  · cases hbuild

/-- A destination that resolves is a boundary. -/
theorem boundary_of_target {target : Target} {dest : Nat}
    (hpc : Boundary lines p pc) (hd : p.image.decodeAt pc = .ok i)
    (htarget : i.flow.target? = some target)
    (hresolve : target.resolve (pc + i.width) = some dest) :
    Boundary lines p dest := by
  obtain ⟨mnemonic, os, hread⟩ := readAt_of_decodeAt hlaid hsize hlabels hpc hd
  cases hread.guided hlaid hsize hlabels with
  | transfer htarget' hlabel hresolve' =>
      cases htarget'.symm.trans htarget
      cases hresolve'.symm.trans hresolve
      exact hlaid.boundary_of_label hlabel
  | bare _ _ hi =>
      rw [hi] at htarget
      rw [(indirect_of_target htarget).1] at hresolve
      cases hresolve
  | onward hnone => cases hnone.symm.trans htarget

/-- A step of control leads from boundary to boundary. -/
theorem boundary_of_flowStep {bytes : Nat} {q r : Stack.Point}
    (hq : Boundary lines p q.1) (hstep : Stack.FlowStep p.image bytes q r) :
    Boundary lines p r.1 := by
  obtain ⟨i, hd, hleads⟩ := hstep
  have hnext := boundary_behind hlaid hsize hlabels hq hd
  rcases hleads.destination_cases with hpc | ⟨target, htarget, hresolve⟩
      | ⟨hpast, hpc⟩ |
    ⟨skipped, hskipped, hpc⟩
  · rw [hpc]
    exact hnext
  · exact boundary_of_target hlaid hsize hlabels hq hd htarget hresolve
  · rw [p.isPastEnd_image] at hpast
    exact .inr (by omega)
  · -- what a skip leaves out is read at a boundary itself
    rw [hpc]
    exact boundary_behind hlaid hsize hlabels hnext hskipped

-- ============================================================== all steps

variable {c : Stack.Config} (hentry : ∃ s, StandsAt lines s c.entryPoint)

include hentry

/-- From a statement control reaches boundaries only. -/
theorem boundary_of_reachable {q : Stack.Point}
    (hq : Stack.Reachable p.image c q) :
    Boundary lines p q.1 := by
  induction hq with
  | refl =>
      obtain ⟨s, hs⟩ := hentry
      exact hs.boundary
  | tail _ hstep ih => exact boundary_of_flowStep hlaid hsize hlabels ih hstep

/-- An error is about a return from an interrupt that the source states. -/
theorem reti_of_witnessed {e : Stack.Error} (he : e.Witnessed p.image c) :
    ∃ pc, e = .unsupported pc (.bare .reti)
      ∧ StandsAt lines (.instruction "reti" []) pc := by
  cases e with
  | malformed pc cause =>
      obtain ⟨⟨height, hreach⟩, hinside, hd, -⟩ := he
      have hpc := boundary_of_reachable hlaid hsize hlabels hentry hreach
      obtain ⟨mnemonic, os, i, hread⟩ :=
        exists_readAt hlaid hsize hlabels hpc hinside
      cases hread.decoded.symm.trans hd
  | unsupported pc i =>
      obtain ⟨⟨height, hreach⟩, hd, rfl⟩ := he
      have hpc := boundary_of_reachable hlaid hsize hlabels hentry hreach
      obtain ⟨mnemonic, os, hread⟩ :=
        readAt_of_decodeAt hlaid hsize hlabels hpc hd
      cases hread.guided hlaid hsize hlabels with
      | transfer htarget => cases htarget
      | bare hmnemonic hos hi =>
          have hstands := hread.stands
          cases hi
          rw [hmnemonic, hos] at hstands
          exact ⟨pc, rfl, hstands⟩
      | onward _ hi => exact absurd rfl (hi .reti)
  | badImage cause => cases he
  | badConfig cause => cases he

/-- A transfer that strays is a jump or call through a register that the source
states. -/
theorem indirect_of_straysAt {height : Int}
    (hreach : Stack.Reachable p.image c (pc, height))
    (hd : p.image.decodeAt pc = .ok i) (hstrays : i.StraysAt pc) :
    ∃ op ∈ BareOp.indirect, i = .bare op
      ∧ StandsAt lines (.instruction op.mnemonic []) pc := by
  obtain ⟨target, htarget, hstrays⟩ := hstrays
  have hpc := boundary_of_reachable hlaid hsize hlabels hentry hreach
  obtain ⟨mnemonic, os, hread⟩ := readAt_of_decodeAt hlaid hsize hlabels hpc hd
  cases hread.guided hlaid hsize hlabels with
  | transfer htarget' _ hresolve =>
      -- a destination that resolves does not stray
      cases htarget'.symm.trans htarget
      have hnone :=
        (resolve_eq_none_iff (Program.size_image_le hsize) hd htarget).mpr
        hstrays
      cases hnone.symm.trans hresolve
  | @bare op hmnemonic hos hi =>
      have hstands := hread.stands
      rw [hi] at htarget
      rw [hmnemonic, hos] at hstands
      exact ⟨op, (indirect_of_target htarget).2, hi, hstands⟩
  | onward hnone => cases hnone.symm.trans htarget

end Labelled

-- ============================================================== the walk

/-- An analysis of a program that keeps to labels stays on its statements.
Every arrival is at a statement, whose instruction is read there, or behind the
program. So there is no instruction that cannot be read: an error names a
return from an interrupt that is stated in the source, and a gap a jump or call
through a register. -/
theorem analysis_stays_on_statements {source : String} {c : Stack.Config}
    (hlines : Line.parseAll source = .ok lines)
    (hassemble : Program.assemble source = .ok p)
    (hsize : p.words.size < 0x400000)
    (hlabels : ∀ line ∈ lines, ∀ s, line.statement = some s → s.TakesLabels)
    (hc : c.Valid) (hentry : ∃ s, StandsAt lines s c.entryPoint) :
    (∀ (session : Stack.Session) (pc : Nat) (height : Int)
      (rest : List Stack.Task),
        session.Reached p.image c → session.work = .visit pc height :: rest →
          (∃ mnemonic os i, ReadAt lines p pc mnemonic os i)
            ∨ p.image.isPastEnd pc = true)
      ∧ (∀ e, (Stack.analyze p.image c).result = .error e →
          ∃ pc, e = .unsupported pc (.bare .reti)
            ∧ StandsAt lines (.instruction "reti" []) pc)
      ∧ ∀ r, (Stack.analyze p.image c).result = .ok r →
        ∀ pc i, (pc, i) ∈ r.gaps →
          ∃ op ∈ BareOp.indirect, i = .bare op
            ∧ StandsAt lines (.instruction op.mnemonic []) pc := by
  obtain ⟨lines', chunks, hlines', hlaid⟩ := laid_of_assemble hassemble
  cases hlines.symm.trans hlines'
  have hm := Program.size_image_le hsize
  refine ⟨?_, ?_, ?_⟩
  · intro session pc height rest hsession hwork
    have hreach := hsession.reachable_of_visit hm hc.bytes_le hwork
    by_cases hpast : p.image.isPastEnd pc = true
    · exact .inr hpast
    · have hpc := boundary_of_reachable hlaid hsize hlabels hentry hreach
      exact .inl (exists_readAt hlaid hsize hlabels hpc hpast)
  · intro e he
    obtain ⟨session, task, rest, hsession, hwork, hbreaks⟩ :=
      Stack.Session.exists_breaks_of_analyze hc he
    have hwitnessed := hbreaks.witnessed hsession hm hc.bytes_le hwork
    exact reti_of_witnessed hlaid hsize hlabels hentry hwitnessed
  · intro r hr pc i hgap
    obtain ⟨session, hsession, -, rfl, -⟩ :=
      Stack.Session.exists_reached_of_analyze hr
    obtain ⟨⟨height, hreach⟩, hd, hstrays⟩ :=
      (hsession.witnessed hm hc.bytes_le).gap pc i hgap
    exact indirect_of_straysAt hlaid hsize hlabels hentry hreach hd hstrays

/-- A skip over a long call, a jump through a register behind it, and a branch
to the end. -/
def skippedCall : String :=
  "main: sbrs r24, 0\ncall sub\nijmp\nsub: breq done\nret\ndone:"

/-- The lines of that program. -/
def skippedCallLines : List Line :=
  [⟨1, ["main"], some (.instruction "sbrs" [.register ⟨24⟩, .number 0])⟩,
    ⟨2, [], some (.instruction "call" [.label "sub"])⟩,
    ⟨3, [], some (.instruction "ijmp" [])⟩,
    ⟨4, ["sub"], some (.instruction "breq" [.label "done"])⟩,
    ⟨5, [], some (.instruction "ret" [])⟩,
    ⟨6, ["done"], none⟩]

theorem takesLabels_skippedCall :
    ∀ line ∈ skippedCallLines, ∀ s, line.statement = some s →
      s.TakesLabels := by
  intro line hline s hs
  have hother : ∀ mnemonic ∈ ["sbrs", "ijmp", "ret"],
      ¬ ∃ t : Transfer, mnemonic ∈ t.mnemonics := by
    rintro mnemonic hmnemonic ⟨t, ht⟩
    revert mnemonic
    cases t <;> decide
  fin_cases hline <;> cases hs
  · exact fun ht => absurd ht (hother "sbrs" (by decide))
  · exact fun _ => ⟨"sub", by decide⟩
  · exact fun ht => absurd ht (hother "ijmp" (by decide))
  · exact fun _ => ⟨"done", by decide⟩
  · exact fun ht => absurd ht (hother "ret" (by decide))

theorem analysis_stays_on_statements_skippedCall :
    ∃ p, Program.assemble skippedCall = .ok p
      ∧ Line.parseAll skippedCall = .ok skippedCallLines
      ∧ StandsAt skippedCallLines
        (.instruction "sbrs" [.register ⟨24⟩, .number 0]) 0
      ∧ (Stack.analyze p.image {}).result
        = .ok ⟨.bounded 2, 7, 5, [(3, .bare .ijmp)], [], none⟩
      ∧ (∀ (session : Stack.Session) (pc : Nat) (height : Int)
        (rest : List Stack.Task),
        session.Reached p.image {} → session.work = .visit pc height :: rest →
          (∃ mnemonic os i, ReadAt skippedCallLines p pc mnemonic os i)
            ∨ p.image.isPastEnd pc = true)
      ∧ ∃ op ∈ BareOp.indirect, .bare .ijmp = Instruction.bare op
        ∧ StandsAt skippedCallLines (.instruction op.mnemonic []) 3 := by
  have hwords : Program.words <$> Program.assemble skippedCall
      = .ok #[0xFF80, 0x940E, 4, 0x9409, 0xF009, 0x9508] := by
    decide +kernel
  have hlines : Line.parseAll skippedCall = .ok skippedCallLines := by
    decide +kernel
  obtain ⟨p, hp, hwords⟩ := map_eq_ok.mp hwords
  have himage : p.image
      = .ofWords [0xFF80, 0x940E, 4, 0x9409, 0xF009, 0x9508] := by
    rw [Program.image, hwords]
  have hreport : (Stack.analyze p.image {}).result
      = .ok ⟨.bounded 2, 7, 5, [(3, .bare .ijmp)], [], none⟩ := by
    rw [himage]
    cbv
  have hsize : p.words.size < 0x400000 := by
    rw [hwords]
    decide
  have hentry : StandsAt skippedCallLines
      (.instruction "sbrs" [.register ⟨24⟩, .number 0]) 0 :=
    ⟨0, _, rfl, rfl, rfl⟩
  obtain ⟨hvisits, -, hgaps⟩ :=
    analysis_stays_on_statements (c := {}) hlines hp hsize
    takesLabels_skippedCall (by decide) ⟨_, hentry⟩
  exact ⟨p, hp, hlines, hentry, hreport, hvisits,
    hgaps _ hreport 3 _ (by decide)⟩

end Assembly

end AvrFirmware
