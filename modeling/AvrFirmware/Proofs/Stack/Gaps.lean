/-
Which transfers of control a report lists.

# Stray transfers

A destination strays when only the run of the program decides it, or when
its offset leads below address zero. Inside an image these are all the
destinations that do not resolve (`resolve_eq_none_iff`), because no offset
is long enough to leave the address range at its upper end.

# The chart of a walk

An instruction says what it has to say about control whenever its state is
entered, at whatever height. So everything that has been explored can be
followed, and the gaps are the explored transfers that stray (`Charted`).
A walk that has not given up keeps such a chart, and when nothing is left
to do it has explored all that control reaches inside the image.
-/
import AvrFirmware.Proofs.Stack.Bound

namespace AvrFirmware

-- ============================================================= transfers

/-- A destination that is known only when the program runs, or that lies below
address zero. -/
def Target.Strays (next : Nat) : Target → Prop
  | relative offset => next + offset < 0
  | absolute _ => False
  | unresolved => True

/-- Where a branch, a jump or a call goes. -/
def Flow.target? : Flow → Option Target
  | branch offset => some (.relative offset)
  | jump target => some target
  | call target => some target
  | _ => none

namespace Instruction

/-- The instruction, at this address, transfers control to a destination that
strays. -/
def StraysAt (i : Instruction) (pc : Nat) : Prop :=
  ∃ target, i.flow.target? = some target ∧ target.Strays (pc + i.width)

-- The flow of a family depends on its operation only where members of the
-- family differ; the other families are settled by their constructor.

/-- There is one return from an interrupt. -/
theorem flow_eq_interruptReturn_iff (i : Instruction) :
    i.flow = .interruptReturn ↔ i = .bare .reti := by
  constructor
  · intro h
    cases i with
    | bare op =>
        cases op with
        | reti => rfl
        | _ => cases h
    | binary op => cases op <;> cases h
    | registerBit op => cases op <;> cases h
    | ioBit op => cases op <;> cases h
    | relative op => cases op <;> cases h
    | absolute op => cases op <;> cases h
    | _ => cases h
  · rintro rfl
    rfl

/-- Offsets are those of short words, so sums with them stay exact. -/
theorem offset_lt {i : Instruction} {offset : Int}
    (h : i.flow.target? = some (.relative offset)) : offset < 2 ^ 15 := by
  cases i with
  | branch op s k =>
      cases h
      have := k.toInt_lt
      omega
  | relative op k =>
      cases op with
      | rjmp =>
          cases h
          exact k.toInt_lt
      | rcall =>
          cases h
          exact k.toInt_lt
  | bare op => cases op <;> cases h
  | binary op => cases op <;> cases h
  | registerBit op => cases op <;> cases h
  | ioBit op => cases op <;> cases h
  | absolute op => cases op <;> cases h
  | _ => cases h

end Instruction

/-- Inside an image only a destination that strays does not resolve. -/
theorem resolve_eq_none_iff {m : Image} {pc : Nat} {i : Instruction}
    {target : Target} (hm : m.size ≤ Image.capacity)
    (hd : m.decodeAt pc = .ok i) (ht : i.flow.target? = some target) :
    target.resolve (pc + i.width) = none ↔ target.Strays (pc + i.width) := by
  cases target with
  | absolute address => simp [Target.resolve, Target.Strays]
  | unresolved => simp [Target.resolve, Target.Strays]
  | relative offset =>
      have hoffset := Instruction.offset_lt ht
      have hpc := Image.lt_wordSlots_of_decodeAt hd
      have hslots := Image.wordSlots_le hm
      have hwidth := i.width_le_two
      unfold Target.resolve Target.Strays Target.addressLimit
      simp only [ite_eq_right_iff, reduceCtorEq, imp_false]
      omega

namespace Stack

variable {m : Image} {c : Config} {pc : Nat} {i : Instruction} {height : Int}

/-- An effect has a gap if the instruction has a destination that does not
resolve. -/
theorem isGap_iff {bytes : Nat} {e : Effect}
    (he : effect m bytes pc i height = .ok e) :
    e.isGap = true ↔
      ∃ target, i.flow.target? = some target
        ∧ target.resolve (pc + i.width) = none := by
  unfold effect at he
  dsimp only at he
  cases hflow : i.flow with
  | branch _ | jump _ =>
      rw [hflow] at he
      dsimp only at he
      split at he
      all_goals
        next hr =>
        cases he
        simp [Flow.target?, hr]
  | call _ =>
      rw [hflow] at he
      dsimp only at he
      split at he
      · next hr =>
          cases he
          simp [Flow.target?, hr]
      · next hr =>
          split at he
          all_goals
            cases he
            simp [Flow.target?, hr]
  | skip =>
      rw [hflow] at he
      dsimp only at he
      split at he
      · cases he
        simp [Flow.target?]
      · cases he
  | interruptReturn =>
      rw [hflow] at he
      cases he
  | _ =>
      rw [hflow] at he
      cases he
      simp [Flow.target?]

/-- An effect is a gap if and only if the instruction goes to no address. -/
theorem isGap_iff_straysAt {bytes : Nat} {e : Effect}
    (hm : m.size ≤ Image.capacity) (hd : m.decodeAt pc = .ok i)
    (he : effect m bytes pc i height = .ok e) :
    e.isGap = true ↔ i.StraysAt pc := by
  rw [isGap_iff he]
  unfold Instruction.StraysAt
  constructor
  · rintro ⟨target, ht, hr⟩
    exact ⟨target, ht, (resolve_eq_none_iff hm hd ht).mp hr⟩
  · rintro ⟨target, ht, hr⟩
    exact ⟨target, ht, (resolve_eq_none_iff hm hd ht).mpr hr⟩

/-- No walk goes on through a return from an interrupt. -/
theorem ne_reti_of_effect {bytes : Nat} {e : Effect}
    (he : effect m bytes pc i height = .ok e) : i ≠ .bare .reti := by
  rintro rfl
  cases he

namespace Session

variable {s t : Session}

-- ============================================================= the chart

/-- Everything that has been explored can be followed, and the gaps are those
of its transfers that stray. -/
structure Charted (m : Image) (s : Session) : Prop where
  followed : ∀ {pc explored}, s.memo.heightAt? m pc = some explored →
    ∃ i, m.decodeAt pc = .ok i ∧ i ≠ .bare .reti
  listed : ∀ {pc i}, s.gaps[pc]? = some i ↔
    (∃ explored, s.memo.heightAt? m pc = some explored) ∧ m.decodeAt pc = .ok i
      ∧ i.StraysAt pc

theorem Charted.of_same (hs : Charted m s)
    (hheight : ∀ pc, t.memo.heightAt? m pc = s.memo.heightAt? m pc)
    (hgaps : t.gaps = s.gaps) :
    Charted m t := by
  refine ⟨?_, ?_⟩
  · intro pc explored he
    exact hs.followed ((hheight pc).symm.trans he)
  · intro pc i
    rw [hgaps, hheight]
    exact hs.listed

/-- Entering an instruction adds it to the gaps if it strays, and charts it
either way. -/
theorem Charted.entered {bytes : Nat} {e : Effect} (hs : Charted m s)
    (hm : m.size ≤ Image.capacity) (hd : m.decodeAt pc = .ok i)
    (ha : s.memo.Admits ⟨i, pc + i.width⟩ height)
    (he : effect m bytes pc i height = .ok e) :
    Charted m ((s.explore pc height i).apply pc i e) := by
  have hnew := Memo.heightAt?_explore (Image.stateAt?_of_decodeAt hd) ha
  have hgap := isGap_iff_straysAt hm hd he
  rw [apply_eq]
  refine ⟨?_, ?_⟩
  · intro pc' explored hexplored
    have hexplored := (hnew pc').symm.trans hexplored
    by_cases hpc : pc' = pc
    · subst hpc
      exact ⟨i, hd, ne_reti_of_effect he⟩
    · rw [if_neg hpc] at hexplored
      exact hs.followed hexplored
  · intro pc' j
    show (if e.isGap then s.gaps.insert pc i else s.gaps)[pc']? = some j ↔
      (∃ explored, (s.memo.explore ⟨i, pc + i.width⟩ height).heightAt? m pc'
          = some explored) ∧ _
    rw [hnew]
    by_cases hpc : pc' = pc
    · -- the entered address is listed now or never: its instruction
      -- strays at every height
      subst hpc
      rw [if_pos rfl]
      by_cases hstrays : i.StraysAt pc'
      · rw [if_pos (hgap.mpr hstrays), Std.TreeMap.getElem?_insert_self,
          Option.some.injEq, hd]
        constructor
        · rintro rfl
          exact ⟨⟨height, rfl⟩, rfl, hstrays⟩
        · rintro ⟨-, hj, -⟩
          cases hj
          rfl
      · rw [if_neg (mt hgap.mp hstrays), hs.listed, hd]
        constructor
        · rintro ⟨-, hj, hstrays'⟩
          cases hj
          exact absurd hstrays' hstrays
        · rintro ⟨-, hj, hstrays'⟩
          cases hj
          exact absurd hstrays' hstrays
    · rw [if_neg hpc, ← hs.listed]
      split
      · rw [Std.TreeMap.getElem?_insert, if_neg]
        rw [Nat.compare_eq_eq]
        exact Ne.symm hpc
      · rfl

/-- Every step of a walk keeps the chart. -/
theorem Charted.proceeds {task : Task} (hs : Charted m s)
    (hm : m.size ≤ Image.capacity) (h : Proceeds m c s task t) :
    Charted m t := by
  cases h with
  | left k => exact hs.of_same (Memo.heightAt?_leave s.memo k) rfl
  | leftImage => exact hs.of_same (fun _ => rfl) rfl
  | passed => exact hs.of_same (fun _ => rfl) rfl
  | entered _ hd ha _ he => exact hs.entered hm hd ha he

/-- So the gaps are charted wherever a walk has come without giving up. -/
theorem Reached.charted (hs : Reached m c s) (hm : m.size ≤ Image.capacity)
    (hu : s.unbounded = none) : Charted m s := by
  refine hs.invariant (P := Charted m) ?_ ?_ hu
  · have hempty := Memo.heightAt?_empty (m := m) c.revisit
    refine ⟨?_, ?_⟩
    · intro pc explored he
      cases (hempty pc).symm.trans he
    · intro pc i
      refine iff_of_false ?_ ?_
      · intro hgap
        cases Std.TreeMap.getElem?_emptyc.symm.trans hgap
      · rintro ⟨⟨explored, he⟩, -⟩
        cases (hempty pc).symm.trans he
  · intro s t task rest _ _ _ hs ht
    have hrest : Charted m { s with work := rest } := ⟨hs.followed, hs.listed⟩
    exact hrest.proceeds hm ht

theorem mem_gaps_report : (pc, i) ∈ s.report.gaps ↔ s.gaps[pc]? = some i :=
  Std.TreeMap.mem_toList_iff_getElem?_eq_some

/-- A report lists its gaps by address. -/
theorem pairwise_gaps_report (s : Session) :
    s.report.gaps.Pairwise fun a b => a.1 < b.1 := by
  refine List.Pairwise.imp ?_ s.gaps.ordered_keys_toList
  intro a b hlt
  exact Nat.compare_eq_lt.mp hlt

end Session

-- ============================================================ the report

/-- The gaps of a bounded report are, in ascending order and once each, the
transfers of control that control reaches and that stray. All that control
reaches inside the image can be read and followed, so a report without gaps is
one in which every transfer resolves. -/
theorem bounded_gaps_exact {r : Report} {n : Nat}
    (hm : m.size ≤ Image.capacity) (hanalyze : (analyze m c).result = .ok r)
    (hn : r.usage = .bounded n) :
    r.gaps.Pairwise (fun a b => a.1 < b.1)
      ∧ (∀ pc i, (pc, i) ∈ r.gaps ↔
          (∃ height, Reachable m c (pc, height)) ∧ m.decodeAt pc = .ok i
            ∧ i.StraysAt pc)
      ∧ (∀ pc height, Reachable m c (pc, height) → ¬ m.isPastEnd pc = true →
          ∃ i, m.decodeAt pc = .ok i ∧ i ≠ .bare .reti)
      ∧ (r.isComplete = true ↔
          ∀ pc height i target, Reachable m c (pc, height) →
            m.decodeAt pc = .ok i →
            i.flow.target? = some target →
              ∃ dest, target.resolve (pc + i.width) = some dest) := by
  have hbytes := (valid_of_analyze hanalyze).bytes_le
  obtain ⟨s, hs, hw, rfl, -⟩ := Session.exists_reached_of_analyze hanalyze
  have hu := (hs.of_bounded hn).1
  have hcharted := hs.charted hm hu
  have hsettled : ∀ {pc height}, Reachable m c (pc, height) →
      s.Settled m (pc, height) :=
    fun hreach => (hs.covers hm hbytes hu).settled_of_reachable hw hreach
  have hlisted : ∀ pc i, (pc, i) ∈ s.report.gaps ↔
      (∃ height, Reachable m c (pc, height)) ∧ m.decodeAt pc = .ok i
        ∧ i.StraysAt pc := by
    intro pc i
    rw [Session.mem_gaps_report, hcharted.listed]
    constructor
    · rintro ⟨⟨explored, he⟩, hd, hstrays⟩
      exact ⟨⟨explored, hs.reachable_of_heightAt? hm hbytes hu he⟩, hd,
        hstrays⟩
    · rintro ⟨⟨height, hreach⟩, hd, hstrays⟩
      obtain ⟨explored, he, -⟩ := (hsettled hreach).explored hd
      exact ⟨⟨explored, he⟩, hd, hstrays⟩
  refine ⟨s.pairwise_gaps_report, hlisted, ?_, ?_⟩
  · intro pc height hreach hinside
    rcases hsettled hreach with ⟨hpast, -⟩ | ⟨explored, he, -⟩
    · exact absurd hpast hinside
    · exact hcharted.followed he
  · unfold Report.isComplete
    rw [List.isEmpty_iff, List.eq_nil_iff_forall_not_mem]
    constructor
    · intro hnone pc height i target hreach hd ht
      rw [← Option.ne_none_iff_exists', ne_eq, resolve_eq_none_iff hm hd ht]
      intro hstrays
      exact hnone (pc, i)
        ((hlisted pc i).mpr ⟨⟨height, hreach⟩, hd, target, ht, hstrays⟩)
    · rintro hall ⟨pc, i⟩ hgap
      obtain ⟨⟨height, hreach⟩, hd, target, ht, hstrays⟩ :=
        (hlisted pc i).mp hgap
      obtain ⟨dest, hdest⟩ := hall pc height i target hreach hd ht
      rw [(resolve_eq_none_iff hm hd ht).mpr hstrays] at hdest
      cases hdest

/-- A branch to below address zero, a call, and a jump through a register
behind it. The subroutine calls below address zero and does not come back, so
the call behind that is no gap. -/
def strayingProgram : Image :=
  .ofWords [0xF3F1, 0x940E, 0x0004, 0x9409, 0xDFF6, 0x9509]

theorem bounded_gaps_exact_strayingProgram :
    ∃ r, (analyze strayingProgram {}).result = .ok r ∧ r.usage = .bounded 2
      ∧ r.gaps = [(0, .branch .brbs 1 (-2)), (3, .bare .ijmp),
          (4, .relative .rcall (-10))]
      ∧ r.gaps.Pairwise (fun a b => a.1 < b.1)
      ∧ (∀ pc i, (pc, i) ∈ r.gaps
        ↔ (∃ height, Reachable strayingProgram {} (pc, height))
          ∧ strayingProgram.decodeAt pc = .ok i ∧ i.StraysAt pc)
      ∧ (∀ pc height, Reachable strayingProgram {} (pc, height) →
          ¬ strayingProgram.isPastEnd pc = true →
          ∃ i, strayingProgram.decodeAt pc = .ok i ∧ i ≠ .bare .reti)
      ∧ (r.isComplete = true ↔
          ∀ pc height i target, Reachable strayingProgram {} (pc, height) →
            strayingProgram.decodeAt pc = .ok i →
            i.flow.target? = some target →
            ∃ dest, target.resolve (pc + i.width) = some dest) := by
  have hreport : (analyze strayingProgram {}).result
      = .ok ⟨.bounded 2, 4, 4,
          [(0, .branch .brbs 1 (-2)), (3, .bare .ijmp),
            (4, .relative .rcall (-10))], [], none⟩ := by
    cbv
  exact ⟨_, hreport, rfl, rfl, bounded_gaps_exact (by decide) hreport rfl⟩

end Stack

end AvrFirmware
