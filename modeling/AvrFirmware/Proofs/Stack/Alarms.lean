/-
Every alarm has a witness.

# Reports

What a walk lists, it has met: a gap is a transfer that was explored, and
an underflow a pop that was entered with nothing on the stack. Giving up
lists nothing, so the listings of a walk that gave up are those of its last
session before (`Reached.exists_live`). The reason names the task that gave
it, and the path and the memo at that task show what it is about: a state
explored at one height and met at another, or a path with one address more
than the depth allows.

# Errors

A walk is broken off where an instruction cannot be read or followed. The
one case in which the error is not about the arrival itself is a skip, which
reads what it would leave out; but control also goes there, so that address
is reachable all the same (`Breaks.witnessed`).
-/
import AvrFirmware.Proofs.Stack.Departures
import AvrFirmware.Proofs.Stack.Gaps
import AvrFirmware.Proofs.Stack.Underflow

namespace AvrFirmware

/-- Inside the image no address is out of range. -/
theorem Image.decodeAt_ne_outOfRange {m : Image} {pc : Nat}
    (h : ¬ m.isPastEnd pc = true) (pc' : Nat) :
    m.decodeAt pc ≠ .error (.outOfRange pc') := by
  have hdecode : ∀ word next, decode word next ≠ .error (.outOfRange pc') := by
    intro word next
    unfold decode
    split <;> simp
  unfold decodeAt
  rw [if_neg h]
  split
  · simp
  · split
    · split
      · simp
      · exact hdecode _ _
    · exact hdecode _ _

namespace Stack

variable {m : Image} {c : Config} {pc : Nat} {i : Instruction} {height : Int}

-- ============================================================= witnesses

/-- What is listed in a report, and why its bound was given up, is found in the
program. -/
structure Report.Witnessed (m : Image) (c : Config) (r : Report) : Prop where
  gap : ∀ pc i, (pc, i) ∈ r.gaps →
    (∃ height, Reachable m c (pc, height)) ∧ m.decodeAt pc = .ok i
      ∧ i.StraysAt pc
  underflow : ∀ pc ∈ r.underflows, ∃ i height, m.decodeAt pc = .ok i
    ∧ i.flow = .pop
    ∧ height ≤ 0 ∧ Reachable m c (pc, height)
  higherRevisit : ∀ pc, r.unbounded = some (.higherRevisit pc) →
    ∃ low high, low < high ∧ Reachable m c (pc, low) ∧ Reachable m c (pc, high)
  depthBudget : ∀ limit, r.unbounded = some (.depthBudget limit) →
    ∃ path, IsPath m c path ∧ (path.map Prod.fst).Nodup
      ∧ path.length = limit + 1

/-- What an error is about is found in the program. -/
def Error.Witnessed (m : Image) (c : Config) : Error → Prop
  | .malformed pc cause =>
      (∃ height, Reachable m c (pc, height)) ∧ ¬ m.isPastEnd pc = true
        ∧ m.decodeAt pc = .error cause ∧ ∀ pc', cause ≠ .outOfRange pc'
  | .unsupported pc i =>
      (∃ height, Reachable m c (pc, height)) ∧ m.decodeAt pc = .ok i
        ∧ i = .bare .reti
  | .badImage _ => False
  | .badConfig _ => False

/-- Two instructions have no effect: a return from an interrupt, and a skip
that cannot read what it would leave out. -/
theorem effect_error_cases {bytes : Nat} {e : Error}
    (he : effect m bytes pc i height = .error e) :
    e = .unsupported pc i ∧ i = .bare .reti
      ∨ i.flow = .skip ∧ ¬ m.isPastEnd (pc + i.width) = true
        ∧ ∃ cause, m.decodeAt (pc + i.width) = .error cause
          ∧ e = .malformed (pc + i.width) cause := by
  unfold effect at he
  dsimp only at he
  cases hflow : i.flow with
  | interruptReturn =>
      rw [hflow] at he
      cases he
      exact .inl ⟨rfl, i.flow_eq_interruptReturn_iff.mp hflow⟩
  | skip =>
      rw [hflow] at he
      dsimp only at he
      unfold skippedWidth at he
      by_cases hpast : m.isPastEnd (pc + i.width) = true
      · rw [if_pos hpast] at he
        cases he
      · rw [if_neg hpast] at he
        cases hd : m.decodeAt (pc + i.width) with
        | ok skipped =>
            rw [hd] at he
            cases he
        | error cause =>
            rw [hd] at he
            cases he
            exact .inr ⟨rfl, hpast, cause, rfl, rfl⟩
  | _ =>
      rw [hflow] at he
      dsimp only at he
      repeat' split at he
      all_goals cases he

namespace Session

variable {s t : Session} {task : Task} {rest : List Task}

-- ============================================================== listings

/-- Giving up lists nothing. -/
theorem Fails.listings_eq {r : Reason} {u : Session}
    (h : Fails m c s task r u) :
    (u.giveUp r).gaps = s.gaps ∧ (u.giveUp r).underflows = s.underflows := by
  have hgiveUp : (u.giveUp r).gaps = u.gaps
      ∧ (u.giveUp r).underflows = u.underflows := by
    unfold giveUp
    split <;> exact ⟨rfl, rfl⟩
  rw [hgiveUp.1, hgiveUp.2]
  cases h <;> exact ⟨rfl, rfl⟩

/-- A walk that has given up was alive just before, with the gaps and
underflows it has now. -/
theorem Reached.exists_live (hs : Reached m c t) :
    ∃ s, Reached m c s ∧ s.unbounded = none ∧ t.gaps = s.gaps
      ∧ t.underflows = s.underflows := by
  cases hu : t.unbounded with
  | none => exact ⟨t, hs, hu, rfl, rfl⟩
  | some r =>
      obtain ⟨s, task, rest, u, hs', hu', hw, hfails, rfl⟩ := hs.fails hu
      exact ⟨s, hs', hu', hfails.listings_eq⟩

/-- An underflow was there before, or is the pop of the task at hand. -/
theorem Proceeds.mem_underflows_cases (h : Proceeds m c s task t)
    (hpc : pc ∈ t.underflows) :
    pc ∈ s.underflows
      ∨ ∃ i height, task = .visit pc height ∧ m.decodeAt pc = .ok i
        ∧ i.flow = .pop
        ∧ height ≤ 0 := by
  cases h with
  | entered _ hd _ _ he =>
      rcases (mem_underflows_apply he).mp hpc with ⟨rfl, hpop, hle⟩ | hold
      · exact .inr ⟨_, _, rfl, hd, hpop, hle⟩
      · exact .inl hold
  | _ => exact .inl hpc

/-- Every underflow is a pop that a path reaches with nothing pushed. -/
theorem Reached.reachable_of_mem_underflows (hs : Reached m c s)
    (hm : m.size ≤ Image.capacity) (hbytes : c.returnAddressBytes ≤ 3)
    (hu : s.unbounded = none) (hpc : pc ∈ s.underflows) :
    ∃ i height, m.decodeAt pc = .ok i ∧ i.flow = .pop ∧ height ≤ 0
      ∧ Reachable m c (pc, height) := by
  refine hs.invariant
    (P := fun s => pc ∈ s.underflows → ∃ i height, m.decodeAt pc = .ok i
    ∧ i.flow = .pop ∧ height ≤ 0 ∧ Reachable m c (pc, height)) ?_ ?_ hu hpc
  · intro hpc
    exact absurd hpc Std.TreeSet.not_mem_emptyc
  · intro s t task rest hs _ hw ih ht hpc
    rcases ht.mem_underflows_cases hpc with hold
        | ⟨i, height, rfl, hd, hpop, hle⟩
    · exact ih hold
    · exact ⟨i, height, hd, hpop, hle, hs.reachable_of_visit hm hbytes hw⟩

-- =============================================================== reasons

/-- A state met again from higher is one that two paths reach at different
heights. -/
theorem Reached.two_heights (hs : Reached m c s) (hm : m.size ≤ Image.capacity)
    (hbytes : c.returnAddressBytes ≤ 3)
    (hr : s.unbounded = some (.higherRevisit pc)) :
    ∃ low high, low < high ∧ Reachable m c (pc, low)
      ∧ Reachable m c (pc, high) := by
  obtain ⟨s', task, rest, u, hs', hu, hw, hfails, -⟩ := hs.fails hr
  cases hfails with
  | @higher _ height explored i _ hd he hlt _ =>
      have hlow := hs'.reachable_of_heightAt? hm hbytes hu
        (Memo.heightAt?_of_entryAt? he)
      exact ⟨explored, height, hlt, hlow, hs'.reachable_of_visit hm hbytes hw⟩

/-- Where the depth ran out a path of that depth goes. -/
theorem Reached.deep_path {limit : Nat} (hs : Reached m c s)
    (hm : m.size ≤ Image.capacity) (hbytes : c.returnAddressBytes ≤ 3)
    (hr : s.unbounded = some (.depthBudget limit)) :
    ∃ path, IsPath m c path ∧ (path.map Prod.fst).Nodup
      ∧ path.length = limit + 1 := by
  obtain ⟨s', task, rest, u, hs', hu, hw, hfails, -⟩ := hs.fails hr
  obtain ⟨path, hpath⟩ := hs'.onPath hm hbytes hu
  cases hfails with
  | @tooDeep pc height i _ hd ha hdepth =>
      -- the path takes up the whole budget, and the arrival is not on it
      have hfull : s'.depth = c.maxDepth :=
        Nat.le_antisymm (hs'.depth_le hu) hdepth
      have hoff := hpath.off_of_admits hd ha
      refine ⟨(pc, height) :: path,
        ⟨(hpath.of_visit hw).1, hpath.pending.isPath⟩, ?_, ?_⟩
      · rw [List.map_cons, List.nodup_cons]
        exact ⟨hoff, hpath.distinct⟩
      · rw [List.length_cons, ← hpath.depth, hfull]

/-- Whatever is reported along a walk has its path. -/
theorem Reached.witnessed (hs : Reached m c s) (hm : m.size ≤ Image.capacity)
    (hbytes : c.returnAddressBytes ≤ 3) : s.report.Witnessed m c := by
  obtain ⟨s', hs', hu, hgaps, hunderflows⟩ := hs.exists_live
  refine ⟨?_, ?_,
    fun _ => hs.two_heights hm hbytes, fun _ => hs.deep_path hm hbytes⟩
  · intro pc i hgap
    rw [mem_gaps_report, hgaps, (hs'.charted hm hu).listed] at hgap
    obtain ⟨⟨explored, he⟩, hd, hstrays⟩ := hgap
    exact ⟨⟨explored, hs'.reachable_of_heightAt? hm hbytes hu he⟩, hd, hstrays⟩
  · intro pc hpc
    have hpc : pc ∈ s.underflows.toList := hpc
    rw [Std.TreeSet.mem_toList, hunderflows] at hpc
    exact hs'.reachable_of_mem_underflows hm hbytes hu hpc

-- ================================================================ errors

/-- So has the error that breaks it off. -/
theorem Breaks.witnessed {e : Error}
    (h : Breaks m c { s with work := rest } task e)
    (hs : Reached m c s) (hm : m.size ≤ Image.capacity)
      (hbytes : c.returnAddressBytes ≤ 3)
    (hw : s.work = task :: rest) : e.Witnessed m c := by
  cases h with
  | @unreadable pc height cause _ hpast hd =>
      refine ⟨⟨height, hs.reachable_of_visit hm hbytes hw⟩, hpast, hd, ?_⟩
      rintro pc' rfl
      exact Image.decodeAt_ne_outOfRange hpast pc' hd
  | @noEffect pc height i _ _ hd _ _ he =>
      have hreach := hs.reachable_of_visit hm hbytes hw
      rcases effect_error_cases he with ⟨rfl, hreti⟩
          | ⟨hskip, hpast, cause, hnext, rfl⟩
      · exact ⟨⟨height, hreach⟩, hd, hreti⟩
      · -- control also goes to what the skip would leave out
        refine ⟨⟨height, hreach.step (.of_skip hd hskip height)⟩, hpast, hnext,
          ?_⟩
        rintro pc' rfl
        exact Image.decodeAt_ne_outOfRange hpast pc' hnext

end Session

-- =========================================================== the outcome

/-- Whatever an analysis ends with, what it complains about is there: control
reaches it, in the way that the complaint says. -/
theorem alarms_have_witnesses (hm : m.size ≤ Image.capacity) (hc : c.Valid) :
    match (analyze m c).result with
    | .ok r => r.Witnessed m c
    | .error e => e.Witnessed m c := by
  cases hresult : (analyze m c).result with
  | ok r =>
      obtain ⟨s, hs, -, rfl, -⟩ := Session.exists_reached_of_analyze hresult
      exact hs.witnessed hm hc.bytes_le
  | error e =>
      obtain ⟨s, task, rest, hs, hw, hbreaks⟩ :=
        Session.exists_breaks_of_analyze hc hresult
      exact hbreaks.witnessed hs hm hc.bytes_le hw

/-- A pop with nothing to take, a branch to below address zero, and one state
more than a depth of two allows. -/
def troubledProgram : Image :=
  .ofWords [0x900F, 0xF3E1, 0x0000, 0x9508]

/-- A skip that cannot read what it would leave out. -/
def blindSkip : Image :=
  .ofWords [0xFC00, 0xFFFF]

theorem alarms_have_witnesses_troubledProgram :
    (∃ r, (analyze troubledProgram { maxDepth := 2 }).result = .ok r
      ∧ r.gaps = [(1, .branch .brbs 1 (-4))] ∧ r.underflows = [0]
      ∧ r.unbounded = some (.depthBudget 2)
      ∧ r.Witnessed troubledProgram { maxDepth := 2 })
    ∧ (∃ r, (analyze skippedPush { revisit := .firstVisit }).result = .ok r
      ∧ r.unbounded = some (.higherRevisit 2)
      ∧ r.Witnessed skippedPush { revisit := .firstVisit })
    ∧ (analyze blindSkip {}).result
      = .error (.malformed 1 (.unknownOpcode 0xFFFF))
    ∧ Error.Witnessed blindSkip {} (.malformed 1 (.unknownOpcode 0xFFFF)) := by
  have hdeep : (analyze troubledProgram { maxDepth := 2 }).result
      = .ok ⟨.unbounded, 3, 3, [(1, .branch .brbs 1 (-4))], [0],
        some (.depthBudget 2)⟩ := by
    cbv
  have hhigher : (analyze skippedPush { revisit := .firstVisit }).result
      = .ok ⟨.unbounded, 5, 4, [], [2], some (.higherRevisit 2)⟩ := by
    cbv
  have herror : (analyze blindSkip {}).result
      = .error (.malformed 1 (.unknownOpcode 0xFFFF)) := by
    cbv
  have hdeep' := alarms_have_witnesses (m := troubledProgram)
    (c := { maxDepth := 2 })
    (by decide) (by decide)
  have hhigher' := alarms_have_witnesses (m := skippedPush)
    (c := { revisit := .firstVisit })
    (by decide) (by decide)
  have herror' := alarms_have_witnesses (m := blindSkip) (c := {}) (by decide)
    (by decide)
  rw [hdeep] at hdeep'
  rw [hhigher] at hhigher'
  rw [herror] at herror'
  exact ⟨⟨_, hdeep, rfl, rfl, rfl, hdeep'⟩, ⟨_, hhigher, rfl, hhigher'⟩,
    herror, herror'⟩

end Stack

end AvrFirmware
