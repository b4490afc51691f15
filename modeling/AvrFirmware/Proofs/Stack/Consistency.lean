/-
The fields of a report agree with each other.

# Counters

A task counts one step or none, and only a counted arrival can add a state
to the memo (`Takes.tally`). So the states never outnumber the steps, and
the steps never pass their budget. Until the first step is counted, the
arrival at the entry point is all there is to do (`Tallied.begun`), so a
walk that has nothing left to do has counted one.

# Budgets

A budget that runs out shows in the counters. The steps stop at theirs.
For the depth, the path and the arrival that is one too many are different
addresses, and the memo has a state for each of them
(`Memo.length_le_total`).

# Listings

Gaps and underflows are listed by address. A gap is a transfer of control
and an underflow a pop, so no address is listed as both.
-/
import AvrFirmware.Proofs.Stack.Alarms
import AvrFirmware.Proofs.Stack.Budget
import AvrFirmware.Proofs.Stack.Comparison

namespace AvrFirmware

/-- A transfer of control is no pop. -/
theorem Instruction.StraysAt.flow_ne_pop {i : Instruction} {pc : Nat}
    (h : i.StraysAt pc) :
    i.flow ≠ .pop := by
  obtain ⟨target, htarget, -⟩ := h
  intro hpop
  rw [hpop] at htarget
  cases htarget

namespace Stack

variable {m : Image} {c : Config}

/-- The fields of a report agree with each other, with the program and with
what was asked for. -/
structure Report.Consistent (m : Image) (c : Config) (r : Report) : Prop where
  verdict : r.usage = .unbounded ↔ r.unbounded.isSome = true
  one_le_steps : 1 ≤ r.steps
  steps_le : r.steps ≤ c.maxSteps
  states_le : r.states ≤ r.steps
  gaps_ascend : r.gaps.Pairwise fun a b => a.1 < b.1
  underflows_ascend : r.underflows.Pairwise (· < ·)
  gap_read : ∀ pc i, (pc, i) ∈ r.gaps → m.decodeAt pc = .ok i
  apart : ∀ pc i, (pc, i) ∈ r.gaps → pc ∉ r.underflows
  higherRevisit : ∀ pc, r.unbounded = some (.higherRevisit pc) →
    c.revisit = .firstVisit
  stepBudget : ∀ limit, r.unbounded = some (.stepBudget limit) →
    limit = c.maxSteps ∧ r.steps = c.maxSteps
  depthBudget : ∀ limit, r.unbounded = some (.depthBudget limit) →
    limit = c.maxDepth ∧ c.maxDepth < r.states

/-- Different addresses with a height are no more than the states that were
explored. -/
theorem Memo.length_le_total {memo : Memo} {pcs : List Nat}
    (hdistinct : pcs.Nodup)
    (hmet : ∀ pc ∈ pcs, ∃ height, memo.heightAt? m pc = some height) :
    pcs.length ≤ memo.total .firstVisit m := by
  have hsub : pcs.toFinset ⊆ Finset.range m.wordSlots := by
    intro pc hpc
    obtain ⟨height, hheight⟩ := hmet pc (List.mem_toFinset.mp hpc)
    obtain ⟨e, he, -⟩ := Option.map_eq_some_iff.mp hheight
    exact Finset.mem_range.mpr (lt_wordSlots_of_entryAt? he)
  have hone : ∀ pc ∈ pcs.toFinset,
      1 = rank .firstVisit m.wordSlots (memo.heightAt? m pc) := by
    intro pc hpc
    obtain ⟨height, hheight⟩ := hmet pc (List.mem_toFinset.mp hpc)
    rw [hheight]
    rfl
  calc pcs.length
      = pcs.toFinset.card := (List.toFinset_card_of_nodup hdistinct).symm
    _ = ∑ pc ∈ pcs.toFinset, 1 := Finset.card_eq_sum_ones _
    _ = ∑ pc ∈ pcs.toFinset,
          rank .firstVisit m.wordSlots (memo.heightAt? m pc) :=
        Finset.sum_congr rfl hone
    _ ≤ memo.total .firstVisit m := Finset.sum_le_sum_of_subset hsub

namespace Session

variable {s t : Session} {task : Task} {pc : Nat} {i : Instruction}
  {height : Int}

-- ============================================================== counters

/-- An exploration adds one state at most. -/
theorem size_explore_le (ha : s.memo.Admits ⟨i, pc + i.width⟩ height) :
    (s.explore pc height i).memo.size ≤ s.memo.size + 1 := by
  show (s.memo.explore ⟨i, pc + i.width⟩ height).size ≤ s.memo.size + 1
  rw [Memo.size_explore ha]
  split <;> omega

/-- What a task does to the counters: it counts a step, which the budget
allows, and at most one state, or it counts neither, being a departure or an
arrival that comes too late. -/
theorem Takes.tally (h : Takes m c s task t) :
    (t.steps = s.steps + 1 ∧ s.steps < c.maxSteps
      ∧ t.memo.size ≤ s.memo.size + 1)
      ∨ t.steps = s.steps ∧ t.memo.size = s.memo.size
        ∧ ((∃ k, task = .leave k) ∨ c.maxSteps ≤ s.steps) := by
  cases h with
  | proceeds h =>
      cases h with
      | left k => exact .inr ⟨rfl, Memo.size_leave s.memo k, .inl ⟨k, rfl⟩⟩
      | leftImage hsteps => exact .inl ⟨rfl, hsteps, Nat.le_succ _⟩
      | passed hsteps => exact .inl ⟨rfl, hsteps, Nat.le_succ _⟩
      | entered hsteps _ ha =>
          rw [apply_eq]
          exact .inl ⟨rfl, hsteps, size_explore_le ha⟩
  | @givesUp r u h =>
      rw [steps_giveUp, memo_giveUp]
      cases h with
      | outOfSteps hsteps => exact .inr ⟨rfl, rfl, .inr hsteps⟩
      | cycle hsteps => exact .inl ⟨rfl, hsteps, Nat.le_succ _⟩
      | higher hsteps => exact .inl ⟨rfl, hsteps, Nat.le_succ _⟩
      | tooDeep hsteps _ ha => exact .inl ⟨rfl, hsteps, size_explore_le ha⟩

/-- The counters of a walk, which begins with the arrival at the entry
point. -/
structure Tallied (c : Config) (s : Session) : Prop where
  steps_le : s.steps ≤ c.maxSteps
  states_le : s.memo.size ≤ s.steps
  begun : s.steps = 0 → s.work = [.visit c.entryPoint 0]

theorem Reached.tallied (hs : Reached m c s) (hc : c.Valid) : Tallied c s := by
  induction hs with
  | start => exact ⟨Nat.zero_le _, Nat.le_refl 0, fun _ => rfl⟩
  | @next s t task rest _ hw ht ih =>
      obtain ⟨hsteps, hstates, hbegun⟩ := ih
      rcases (takes_of_perform ht).tally with ⟨hstep, hlt, hsize⟩
          | ⟨hsame, hsize, hidle⟩
      · dsimp only at hstep hlt hsize
        refine ⟨by omega, by omega, ?_⟩
        intro hzero
        omega
      · dsimp only at hsame hsize hidle
        refine ⟨by omega, by omega, ?_⟩
        -- the first task is an arrival, and no budget has run out by then
        intro hzero
        have hfirst := hbegun (hsame.symm.trans hzero)
        rw [hw] at hfirst
        obtain ⟨rfl, -⟩ := List.cons_eq_cons.mp hfirst
        rcases hidle with ⟨k, hk⟩ | hlate
        · cases hk
        · have hsome : 0 < c.maxSteps := hc.2.1
          omega

-- =============================================================== budgets

/-- The steps are used up when their budget is the reason to give up. -/
theorem Reached.steps_of_stepBudget {limit : Nat} (hs : Reached m c s)
    (hc : c.Valid) (hr : s.unbounded = some (.stepBudget limit)) :
    limit = c.maxSteps ∧ s.steps = c.maxSteps := by
  have hle := (hs.tallied hc).steps_le
  obtain ⟨s', task, rest, u, -, -, -, hfails, rfl⟩ := hs.fails hr
  cases hfails with
  | outOfSteps hsteps =>
      rw [steps_giveUp] at hle ⊢
      exact ⟨rfl, Nat.le_antisymm hle hsteps⟩

/-- More states have been met than the depth allows on one path when the depth
is the reason to give up. -/
theorem Reached.states_of_depthBudget {limit : Nat} (hs : Reached m c s)
    (hm : m.size ≤ Image.capacity) (hbytes : c.returnAddressBytes ≤ 3)
    (hr : s.unbounded = some (.depthBudget limit)) :
    limit = c.maxDepth ∧ c.maxDepth < s.memo.size := by
  have hcounted := (hs.frugal hm hbytes).counted
  obtain ⟨s', task, rest, u, hs', hu, hw, hfails, rfl⟩ := hs.fails hr
  obtain ⟨path, hpath⟩ := hs'.onPath hm hbytes hu
  cases hfails with
  | @tooDeep pc height i _ hd ha hdepth =>
      refine ⟨rfl, ?_⟩
      have hnew := Memo.heightAt?_explore (Image.stateAt?_of_decodeAt hd) ha
      have hoff : pc ∉ path.map Prod.fst := hpath.off_of_admits hd ha
      -- the arrival has just been recorded, and the path was before
      have hmet : ∀ pc' ∈ pc :: path.map Prod.fst, ∃ explored,
          (s'.memo.explore ⟨i, pc + i.width⟩ height).heightAt? m pc'
            = some explored := by
        intro pc' hpc'
        rw [hnew]
        by_cases hpc : pc' = pc
        · exact ⟨height, if_pos hpc⟩
        · rw [if_neg hpc]
          obtain ⟨q, hq, rfl⟩ :=
            List.mem_map.mp (List.mem_of_ne_of_mem hpc hpc')
          exact ⟨q.2, Memo.heightAt?_of_entryAt? ((hpath.marked q).mp hq)⟩
      have hlength := Memo.length_le_total
        (List.nodup_cons.mpr ⟨hoff, hpath.distinct⟩) hmet
      rw [List.length_cons, List.length_map, ← hpath.depth] at hlength
      have hdepth : c.maxDepth ≤ s'.depth := hdepth
      rw [memo_giveUp] at hcounted ⊢
      have hcounted : (s'.memo.explore ⟨i, pc + i.width⟩ height).size
          = (s'.memo.explore ⟨i, pc + i.width⟩ height).total .firstVisit m :=
            hcounted
      show c.maxDepth < (s'.memo.explore ⟨i, pc + i.width⟩ height).size
      omega

-- ============================================================== listings

theorem pairwise_underflows_report (s : Session) :
    s.report.underflows.Pairwise (· < ·) := by
  refine List.Pairwise.imp ?_ s.underflows.ordered_toList
  intro a b hlt
  exact Nat.compare_eq_lt.mp hlt

/-- The bound is given up exactly if there is a reason to. -/
theorem Reached.usage_eq_unbounded_iff (hs : Reached m c s) :
    s.report.usage = .unbounded ↔ s.report.unbounded.isSome = true := by
  show s.peak.usage = .unbounded ↔ s.unbounded.isSome = true
  unfold Peak.usage
  rw [hs.coherent.verdict]
  cases s.unbounded.isSome <;> simp

end Session

-- ============================================================ the report

/-- Whatever way a walk has ended, the fields of its report agree. -/
theorem reports_are_consistent {r : Report} (hm : m.size ≤ Image.capacity)
    (hanalyze : (analyze m c).result = .ok r) : r.Consistent m c := by
  have hc := valid_of_analyze hanalyze
  obtain ⟨s, hs, hw, rfl, -⟩ := Session.exists_reached_of_analyze hanalyze
  have htallied := hs.tallied hc
  have hwitnessed := hs.witnessed hm hc.bytes_le
  have hsome : 1 ≤ s.steps := by
    apply Nat.one_le_iff_ne_zero.mpr
    intro hzero
    have hfirst := htallied.begun hzero
    rw [hw] at hfirst
    cases hfirst
  refine ⟨hs.usage_eq_unbounded_iff, hsome, htallied.steps_le,
    htallied.states_le, s.pairwise_gaps_report, s.pairwise_underflows_report,
    ?_, ?_, ?_, ?_, ?_⟩
  · intro pc i hgap
    exact (hwitnessed.gap pc i hgap).2.1
  · intro pc i hgap hunder
    obtain ⟨-, hd, hstrays⟩ := hwitnessed.gap pc i hgap
    obtain ⟨j, -, hj, hpop, -⟩ := hwitnessed.underflow pc hunder
    cases hd.symm.trans hj
    exact hstrays.flow_ne_pop hpop
  · intro pc hr
    exact hs.revisit_of_higherRevisit hr
  · intro limit hr
    exact hs.steps_of_stepBudget hc hr
  · intro limit hr
    exact hs.states_of_depthBudget hm hc.bytes_le hr

/-- A walk that ends early on each of the budgets, one that meets a higher
arrival, and one with a bound. -/
theorem reports_are_consistent_troubledProgram :
    (∃ r, (analyze troubledProgram { maxDepth := 2 }).result = .ok r
      ∧ r.unbounded = some (.depthBudget 2) ∧ r.gaps ≠ [] ∧ r.underflows ≠ []
      ∧ r.Consistent troubledProgram { maxDepth := 2 })
    ∧ (∃ r, (analyze troubledProgram { maxSteps := 3 }).result = .ok r
      ∧ r.unbounded = some (.stepBudget 3)
      ∧ r.Consistent troubledProgram { maxSteps := 3 })
    ∧ (∃ r, (analyze skippedPush { revisit := .firstVisit }).result = .ok r
      ∧ r.unbounded = some (.higherRevisit 2)
      ∧ r.Consistent skippedPush { revisit := .firstVisit })
    ∧ ∃ r, (analyze skippedPush {}).result = .ok r ∧ r.usage = .bounded 1
      ∧ r.Consistent skippedPush {} := by
  have hdeep : (analyze troubledProgram { maxDepth := 2 }).result
      = .ok ⟨.unbounded, 3, 3, [(1, .branch .brbs 1 (-4))], [0],
        some (.depthBudget 2)⟩ := by
    cbv
  have hlong : (analyze troubledProgram { maxSteps := 3 }).result
      = .ok ⟨.unbounded, 3, 3, [(1, .branch .brbs 1 (-4))], [0],
        some (.stepBudget 3)⟩ := by
    cbv
  have hhigher : (analyze skippedPush { revisit := .firstVisit }).result
      = .ok ⟨.unbounded, 5, 4, [], [2], some (.higherRevisit 2)⟩ := by
    cbv
  have hbounded : (analyze skippedPush {}).result
      = .ok ⟨.bounded 1, 6, 4, [], [2], none⟩ := by
    cbv
  exact ⟨⟨_, hdeep, rfl, List.cons_ne_nil _ _, List.cons_ne_nil _ _,
      reports_are_consistent (by decide) hdeep⟩,
    ⟨_, hlong, rfl, reports_are_consistent (by decide) hlong⟩,
    ⟨_, hhigher, rfl, reports_are_consistent (by decide) hhigher⟩,
    _, hbounded, rfl, reports_are_consistent (by decide) hbounded⟩

end Stack

end AvrFirmware
