/-
The two passes of the assembler against each other.

# Widths

The first pass knows a statement's mnemonic and nothing else of it, and
takes its width from there. The second pass has the instruction and its
words. A mnemonic's form decides how many words the instruction takes
(`Form.width_of_build`), and the table lists the long forms under the
long mnemonics and nowhere else, so the passes agree statement by
statement (`Line.Yields.length_eq`).

# Addresses

The first pass adds up widths (`layoutFrom_spec`), the second puts words
one behind the other (`emitFrom_spec`). Both are runs over the lines from
any address, so by the agreement of widths a label is given the number
of words that stand before the line it is defined on.
-/
import AvrFirmware.Proofs.Assembly.Range
import AvrFirmware.Assembly.Program

namespace AvrFirmware

namespace Assembly

-- =============================================================== widths

namespace Form

/-- The number of words of the instructions of a form. -/
def width : Form → Nat
  | lds => 2
  | sts => 2
  | absolute _ => 2
  | _ => 1

variable {site : Site} {os : List Operand} {i : Instruction} {form : Form}

/-- However a load through a pointer is built, it has one word. -/
theorem width_loadThrough (d : Register) (p : Pointer × PointerStep) :
    (loadThrough d p).width = 1 := by
  obtain ⟨ptr, step⟩ := p
  cases ptr <;> cases step <;> rfl

theorem width_storeThrough (r : Register) (p : Pointer × PointerStep) :
    (storeThrough r p).width = 1 := by
  obtain ⟨ptr, step⟩ := p
  cases ptr <;> cases step <;> rfl

/-- A form's instructions have its width, whatever their operands. -/
theorem width_of_build (h : form.build site os = .ok i) :
    i.width = form.width := by
  cases form <;> simp only [build, bind_eq_ok, pure_eq_ok] at h
  case bare | binary | doubled | immediate | clearBits | setAll | unary | push
    | pop | namedFlag =>
    obtain ⟨-, -, rfl⟩ := h
    rfl
  case flag | namedBranch | relative | absolute | des =>
    obtain ⟨-, -, -, -, rfl⟩ := h
    rfl
  case ld =>
    obtain ⟨-, -, d, -, p, -, rfl⟩ := h
    exact width_loadThrough d p
  case st =>
    obtain ⟨-, -, r, -, p, -, rfl⟩ := h
    exact width_storeThrough r p
  case programLoad =>
    split at h
    · cases h
      rfl
    · simp only [bind_eq_ok, pure_eq_ok] at h
      obtain ⟨-, -, -, -, -, -, rfl⟩ := h
      rfl
  case spm =>
    split at h
    · cases h
      rfl
    · simp only [bind_eq_ok, pure_eq_ok] at h
      obtain ⟨-, -, -, -, rfl⟩ := h
      rfl
  case exchange =>
    obtain ⟨p, -, stepped, -, h⟩ := h
    split at h
    · cases h
    · simp only [bind_eq_ok, pure_eq_ok] at h
      obtain ⟨-, -, rfl⟩ := h
      rfl
  all_goals
    obtain ⟨-, -, -, -, -, -, rfl⟩ := h
    rfl

/-- The long forms are listed under the long mnemonics. -/
theorem width_of_mem_table :
    ∀ e ∈ table,
      e.2.width = if e.1 ∈ Statement.longMnemonics then 2 else 1 := by
  decide +kernel

end Form

/-- The words of a line that stands at a site: those of its instruction, or its
data. -/
inductive Line.Yields (line : Line) (site : Site) : List Word → Prop where
  | nothing (hline : line.statement = none) : Yields line site []
  | instruction {mnemonic : String} {os : List Operand} {i : Instruction}
      (hline : line.statement = some (.instruction mnemonic os))
      (hbuild : build site mnemonic os = .ok i) : Yields line site i.words
  | data {ws : List Word} (hline : line.statement = some (.words ws)) :
      Yields line site ws

/-- The width that the mnemonic promises is the one of what is built. -/
theorem width_of_build {site : Site} {mnemonic : String} {os : List Operand}
    {i : Instruction} (h : build site mnemonic os = .ok i) :
    i.width = (Statement.instruction mnemonic os).width := by
  unfold build at h
  split at h
  · next form hform =>
      rw [Form.width_of_build h]
      exact Form.width_of_mem_table _ (Form.mem_table_of_ofMnemonic? hform)
  · cases h

/-- Both passes count the same number of words. -/
theorem Line.Yields.length_eq {line : Line} {site : Site} {ws : List Word}
    (h : line.Yields site ws) : ws.length = line.width := by
  cases h with
  | nothing hline => rw [Line.width, hline, List.length_nil]
  | instruction hline hbuild =>
      rw [Line.width, hline, Instruction.length_words]
      exact width_of_build hbuild
  | data hline =>
      rw [Line.width, hline]
      rfl

-- ========================================================== second pass

/-- A line with a statement yields the words of the statement. -/
theorem yields_of_emit {line : Line} {s : Statement} {site : Site}
    {ws : List Word} (hline : line.statement = some s)
    (h : s.emit site = .ok ws) : line.Yields site ws := by
  cases s with
  | instruction mnemonic os =>
      obtain ⟨i, hi, rfl⟩ := map_eq_ok.mp h
      exact .instruction hline hi
  | words data =>
      cases h
      exact .data hline

/-- The number of words before the chunk of number `k`. -/
def startOf (chunks : List (List Word)) (k : Nat) : Nat :=
  (chunks.take k).flatten.length

theorem startOf_zero (chunks : List (List Word)) : startOf chunks 0 = 0 :=
  rfl

/-- One chunk in front moves every start by its length. -/
theorem startOf_cons (ws : List Word) (chunks : List (List Word)) (k : Nat) :
    startOf (ws :: chunks) (k + 1) = ws.length + startOf chunks k := by
  simp [startOf]

/-- A chunk starts where the one before it ends. -/
theorem startOf_succ {chunks : List (List Word)} {k : Nat} {ws : List Word}
    (h : chunks[k]? = some ws) :
    startOf chunks (k + 1) = startOf chunks k + ws.length := by
  rw [startOf, startOf, List.take_add_one, h]
  simp

/-- Every start lies within the words of all chunks. -/
theorem startOf_le (chunks : List (List Word)) (k : Nat) :
    startOf chunks k ≤ chunks.flatten.length := by
  have hsplit := congrArg List.length
    (congrArg List.flatten (List.take_append_drop k chunks))
  rw [List.flatten_append, List.length_append] at hsplit
  rw [startOf]
  omega

/-- The words of a chunk lie behind its start. -/
theorem getElem?_flatten_startOf {chunks : List (List Word)} {k n : Nat}
    {ws : List Word} {w : Word} (hws : chunks[k]? = some ws)
    (hw : ws[n]? = some w) :
    chunks.flatten[startOf chunks k + n]? = some w := by
  induction chunks generalizing k with
  | nil => cases hws
  | cons first chunks ih =>
      cases k with
      | zero =>
          cases hws
          have hlt := (List.getElem?_eq_some_iff.mp hw).1
          rw [startOf_zero, Nat.zero_add, List.flatten_cons,
            List.getElem?_append_left hlt, hw]
      | succ k =>
          rw [startOf_cons, List.flatten_cons,
            List.getElem?_append_right (by omega)]
          have hnext := ih hws
          rwa [show first.length + startOf chunks k + n - first.length
            = startOf chunks k + n by omega]

/-- The second pass over some lines: a chunk of words for each line, which
stands where the chunks before it end. -/
theorem emitFrom_spec {labels : Labels} {done words : Array Word}
    {lines : List Line} (h : emitFrom labels done lines = .ok words) :
    ∃ chunks : List (List Word), words.toList = done.toList ++ chunks.flatten
      ∧ chunks.length = lines.length
      ∧ ∀ (k : Nat) (line : Line) (ws : List Word),
        lines[k]? = some line → chunks[k]? = some ws →
        line.Yields ⟨done.size + startOf chunks k, labels⟩ ws := by
  induction lines generalizing done with
  | nil =>
      cases h
      exact ⟨[], by simp, rfl, by simp⟩
  | cons line lines ih =>
      -- one line puts a chunk behind what is done, and the rest goes on behind
      -- it
      have hstep : ∃ ws, line.Yields ⟨done.size, labels⟩ ws
          ∧ emitFrom labels (done ++ ws) lines = .ok words := by
        rw [emitFrom] at h
        split at h
        · next hline => exact ⟨[], .nothing hline, by simpa using h⟩
        · next s hline =>
            split at h
            · cases h
            · next ws hws => exact ⟨ws, yields_of_emit hline hws, h⟩
      obtain ⟨ws, hyields, hrest⟩ := hstep
      obtain ⟨chunks, hwords, hlength, hchunks⟩ := ih hrest
      refine ⟨ws :: chunks, ?_,
        by rw [List.length_cons, hlength, List.length_cons], ?_⟩
      · rw [hwords, List.flatten_cons]
        simp
      · intro k line' ws' hline' hws'
        cases k with
        | zero =>
            cases hline'
            cases hws'
            exact hyields
        | succ k =>
            have hsize : (done ++ ws).size = done.size + ws.length := by
              rw [← Array.length_toList, Array.toList_appendList,
                List.length_append, Array.length_toList]
            have hnext := hchunks k line' ws' hline' hws'
            rwa [hsize, Nat.add_assoc, ← startOf_cons] at hnext

-- =========================================================== first pass

/-- A label that is defined has its address; the others keep theirs. -/
theorem getElem?_insert (labels : Labels) (first name : String) (pc : Nat) :
    (labels.insert first pc)[name]?
      = if name = first then some pc else labels[name]? := by
  rw [Std.TreeMap.getElem?_insert]
  by_cases hname : name = first
  · rw [if_pos hname, if_pos (Std.compare_eq_iff_eq.mpr hname.symm)]
  · rw [if_neg hname, if_neg (mt Std.compare_eq_iff_eq.mp (Ne.symm hname))]

/-- The labels of one line: each is new, and all are given the line's
address. -/
theorem define_spec {number pc : Nat} {labels labels' : Labels}
    {names : List String} (h : define number pc labels names = .ok labels') :
    names.Nodup ∧ (∀ name ∈ names, labels[name]? = none)
      ∧ ∀ name,
        labels'[name]? = if name ∈ names then some pc else labels[name]? := by
  induction names generalizing labels with
  | nil =>
      cases h
      simp
  | cons first rest ih =>
      rw [define] at h
      split at h
      · cases h
      · next hfirst =>
          rw [Std.TreeMap.contains_iff_mem] at hfirst
          obtain ⟨hnodup, hfresh, hget⟩ := ih h
          have hrest : first ∉ rest ∧ ∀ name ∈ rest, labels[name]? = none := by
            constructor
            · intro hmem
              have hnone := hfresh first hmem
              rw [getElem?_insert, if_pos rfl] at hnone
              cases hnone
            · intro name hmem
              have hnone := hfresh name hmem
              rw [getElem?_insert] at hnone
              split at hnone
              · cases hnone
              · exact hnone
          refine ⟨List.nodup_cons.mpr ⟨hrest.1, hnodup⟩, ?_, ?_⟩
          · exact List.forall_mem_cons.mpr
              ⟨Std.TreeMap.getElem?_eq_none hfirst, hrest.2⟩
          · intro name
            rw [hget, getElem?_insert]
            by_cases hname : name ∈ rest
            · rw [if_pos hname, if_pos (List.mem_cons_of_mem _ hname)]
            · simp [hname]

/-- The number of words that the first pass counts before the line of number
`k`. -/
def widthBefore (lines : List Line) (k : Nat) : Nat :=
  ((lines.take k).map Line.width).sum

theorem widthBefore_cons (line : Line) (lines : List Line) (k : Nat) :
    widthBefore (line :: lines) (k + 1)
      = line.width + widthBefore lines k := by
  simp [widthBefore]

/-- The first pass over some lines from address `pc`, with `labels` defined
before and `labels'` behind them. -/
structure Addressed (labels : Labels) (pc : Nat) (lines : List Line)
    (labels' : Labels) : Prop where
  once : (lines.flatMap Line.labels).Nodup
  fresh : ∀ name ∈ lines.flatMap Line.labels, labels[name]? = none
  kept : ∀ name ∉ lines.flatMap Line.labels, labels'[name]? = labels[name]?
  placed : ∀ (k : Nat) (line : Line), lines[k]? = some line →
    ∀ name ∈ line.labels,
    labels'[name]? = some (pc + widthBefore lines k)

/-- The addresses that a layout gives out are those the lines stand at. -/
theorem layoutFrom_spec {labels labels' : Labels} {pc : Nat}
    {lines : List Line} (h : layoutFrom labels pc lines = .ok labels') :
    Addressed labels pc lines labels' := by
  induction lines generalizing labels pc with
  | nil =>
      cases h
      exact ⟨List.nodup_nil, by simp, by simp, by simp⟩
  | cons line lines ih =>
      rw [layoutFrom] at h
      split at h
      · cases h
      · next mid hmid =>
          obtain ⟨hnodup, hfresh, hget⟩ := define_spec hmid
          have hrest := ih h
          have hapart : ∀ name ∈ line.labels,
              name ∉ lines.flatMap Line.labels := by
            intro name hname hmem
            have hnone := hrest.fresh name hmem
            rw [hget, if_pos hname] at hnone
            cases hnone
          refine ⟨?_, ?_, ?_, ?_⟩
          · rw [List.flatMap_cons, List.nodup_append']
            exact ⟨hnodup, hrest.once, hapart⟩
          · intro name hname
            rw [List.flatMap_cons, List.mem_append] at hname
            rcases hname with hname | hname
            · exact hfresh name hname
            · have hnone := hrest.fresh name hname
              rwa [hget,
                if_neg (fun hline => hapart name hline hname)] at hnone
          · intro name hname
            rw [List.flatMap_cons, List.mem_append, not_or] at hname
            rw [hrest.kept name hname.2, hget, if_neg hname.1]
          · intro k line' hline' name hname
            cases k with
            | zero =>
                cases hline'
                rw [hrest.kept name (hapart name hname), hget, if_pos hname]
                rfl
            | succ k =>
                rw [hrest.placed k line' hline' name hname, widthBefore_cons,
                  Nat.add_assoc]

-- ============================================================= programs

/-- How a program lies in memory: a chunk of words for each line, one behind
the other, and each label at the start of the chunk of its line. -/
structure Laid (lines : List Line) (chunks : List (List Word)) (p : Program) :
    Prop where
  words_eq : p.words.toList = chunks.flatten
  length_eq : chunks.length = lines.length
  yields : ∀ (k : Nat) (line : Line) (ws : List Word), lines[k]? = some line →
    chunks[k]? = some ws → line.Yields ⟨startOf chunks k, p.labels⟩ ws
  once : (lines.flatMap Line.labels).Nodup
  defined : ∀ name, name ∈ p.labels ↔ name ∈ lines.flatMap Line.labels
  placed : ∀ (k : Nat) (line : Line), lines[k]? = some line →
    ∀ name ∈ line.labels,
    p.labels[name]? = some (startOf chunks k)

namespace Laid

variable {lines : List Line} {chunks : List (List Word)} {p : Program}

theorem size_words (h : Laid lines chunks p) :
    p.words.size = chunks.flatten.length := by
  rw [← Array.length_toList, h.words_eq]

/-- Every label with an address stands on some line. -/
theorem exists_definition (h : Laid lines chunks p) {name : String} {a : Nat}
    (ha : p.labels[name]? = some a) :
    ∃ (k : Nat) (line : Line), lines[k]? = some line ∧ name ∈ line.labels := by
  have hmem : name ∈ p.labels := by
    rw [Std.TreeMap.mem_iff_isSome_getElem?, ha]
    rfl
  obtain ⟨line, hline, hname⟩ := List.mem_flatMap.mp ((h.defined name).mp hmem)
  obtain ⟨k, hk⟩ := List.getElem?_of_mem hline
  exact ⟨k, line, hk, hname⟩

/-- No label lies behind the end of the program. -/
theorem label_le (h : Laid lines chunks p) {name : String} {a : Nat}
    (ha : p.labels[name]? = some a) : a ≤ p.words.size := by
  obtain ⟨k, line, hline, hname⟩ := h.exists_definition ha
  cases ha.symm.trans (h.placed k line hline name hname)
  rw [h.size_words]
  exact startOf_le chunks k

/-- Every line has its words. -/
theorem exists_chunk (h : Laid lines chunks p) {k : Nat} {line : Line}
    (hline : lines[k]? = some line) : ∃ ws, chunks[k]? = some ws := by
  have hlt := (List.getElem?_eq_some_iff.mp hline).1
  rw [← h.length_eq] at hlt
  exact ⟨chunks[k], List.getElem?_eq_getElem hlt⟩

end Laid

/-- If every line has as many words as it announces, then it starts at the sum
of what was announced before it. -/
theorem startOf_eq_widthBefore {lines : List Line} {chunks : List (List Word)}
    (hlength : chunks.length = lines.length)
    (h : ∀ (k : Nat) (line : Line) (ws : List Word), lines[k]? = some line →
      chunks[k]? = some ws → ws.length = line.width)
    (k : Nat) :
    startOf chunks k = widthBefore lines k := by
  have hwidths : chunks.map List.length = lines.map Line.width := by
    apply List.ext_getElem
    · rw [List.length_map, List.length_map, hlength]
    · intro n hchunk hline
      rw [List.length_map] at hchunk hline
      rw [List.getElem_map, List.getElem_map]
      exact h n _ _ (List.getElem?_eq_getElem hline)
        (List.getElem?_eq_getElem hchunk)
  rw [startOf, widthBefore, List.length_flatten, List.map_take, List.map_take,
    hwidths]

/-- Whatever is assembled is laid out. -/
theorem laid_of_ofLines {lines : List Line} {p : Program}
    (h : Program.ofLines lines = .ok p) :
    ∃ chunks, Laid lines chunks p := by
  unfold Program.ofLines at h
  split at h
  · cases h
  · next labels hlabels =>
      split at h
      · cases h
      · next words hwords =>
          cases h
          obtain ⟨chunks, hflatten, hlength, hyields⟩ := emitFrom_spec hwords
          simp only [Array.size_empty, Nat.zero_add,
            List.nil_append] at hflatten hyields
          have haddressed := layoutFrom_spec hlabels
          have hstart := startOf_eq_widthBefore hlength
            fun k line ws hline hws => (hyields k line ws hline hws).length_eq
          have hplaced : ∀ (k : Nat) (line : Line), lines[k]? = some line →
              ∀ name ∈ line.labels,
              labels[name]? = some (startOf chunks k) := by
            intro k line hline name hname
            rw [haddressed.placed k line hline name hname, Nat.zero_add,
              hstart]
          refine ⟨chunks, hflatten, hlength, hyields, haddressed.once, ?_,
            hplaced⟩
          intro name
          rw [Std.TreeMap.mem_iff_isSome_getElem?]
          constructor
          · intro hsome
            by_contra hname
            rw [haddressed.kept name hname,
              Std.TreeMap.getElem?_emptyc] at hsome
            cases hsome
          · intro hname
            obtain ⟨line, hline, hname⟩ := List.mem_flatMap.mp hname
            obtain ⟨k, hk⟩ := List.getElem?_of_mem hline
            rw [hplaced k line hk name hname]
            rfl

theorem laid_of_assemble {source : String} {p : Program}
    (h : Program.assemble source = .ok p) :
    ∃ lines chunks, Line.parseAll source = .ok lines
      ∧ Laid lines chunks p := by
  unfold Program.assemble at h
  split at h
  · cases h
  · next lines hlines =>
      obtain ⟨chunks, hlaid⟩ := laid_of_ofLines h
      exact ⟨lines, chunks, hlines, hlaid⟩

/-- The two passes agree. The words of a program are those its lines yield, in
their order and in the number that the first pass has counted. Each label is
defined on one line, and it stands for the number of words that the lines
before that one yield. -/
theorem passes_agree {source : String} {p : Program}
    (h : Program.assemble source = .ok p) :
    ∃ (lines : List Line) (chunks : List (List Word)),
      Line.parseAll source = .ok lines
      ∧ p.words.toList = chunks.flatten
      ∧ chunks.length = lines.length
      ∧ (∀ (k : Nat) (line : Line) (ws : List Word), lines[k]? = some line →
        chunks[k]? = some ws →
          line.Yields ⟨startOf chunks k, p.labels⟩ ws ∧ ws.length = line.width)
      ∧ (lines.flatMap Line.labels).Nodup
      ∧ (∀ name, name ∈ p.labels ↔ name ∈ lines.flatMap Line.labels)
      ∧ ∀ (k : Nat) (line : Line), lines[k]? = some line →
        ∀ name ∈ line.labels,
        p.labels[name]? = some (startOf chunks k) := by
  obtain ⟨lines, chunks, hlines, hlaid⟩ := laid_of_assemble h
  refine ⟨lines, chunks, hlines, hlaid.words_eq, hlaid.length_eq, ?_,
    hlaid.once, hlaid.defined, hlaid.placed⟩
  intro k line ws hline hws
  have hyields := hlaid.yields k line ws hline hws
  exact ⟨hyields, hyields.length_eq⟩

/-- A program with a long call, data and a label behind them. -/
theorem passes_agree_dataBetween :
    ∃ p, Program.assemble
        "main: call sub\nspin: RJMP spin ; stay\n.word 1, 2\nsub:\nret"
        = .ok p
      ∧ p.words = #[0x940E, 5, 0xCFFF, 1, 2, 0x9508]
      ∧ ∃ chunks : List (List Word), p.words.toList = chunks.flatten
        ∧ chunks.length = 5
        ∧ p.labels["spin"]? = some (startOf chunks 1)
        ∧ p.labels["sub"]? = some (startOf chunks 3) := by
  have hwords : Program.words <$> Program.assemble
      "main: call sub\nspin: RJMP spin ; stay\n.word 1, 2\nsub:\nret"
      = .ok #[0x940E, 5, 0xCFFF, 1, 2, 0x9508] := by decide +kernel
  have hlines : Line.parseAll
      "main: call sub\nspin: RJMP spin ; stay\n.word 1, 2\nsub:\nret"
      = .ok [⟨1, ["main"], some (.instruction "call" [.label "sub"])⟩,
        ⟨2, ["spin"], some (.instruction "rjmp" [.label "spin"])⟩,
        ⟨3, [], some (.words [1, 2])⟩,
        ⟨4, ["sub"], none⟩, ⟨5, [], some (.instruction "ret" [])⟩] := by
    decide +kernel
  obtain ⟨p, hp, hwords⟩ := map_eq_ok.mp hwords
  obtain ⟨lines, chunks, hparse, hflatten, hlength, -, -, -, hplaced⟩ :=
    passes_agree hp
  cases hlines.symm.trans hparse
  exact ⟨p, hp, hwords, chunks, hflatten, hlength,
    hplaced 1 _ rfl "spin" (by decide),
    hplaced 3 _ rfl "sub" (by decide)⟩

end Assembly

end AvrFirmware
