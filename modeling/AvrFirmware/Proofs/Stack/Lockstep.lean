/-
Two walks over one program, side by side.

# The wider configuration

`Config.Widens` compares two configurations that start at the same place
and count calls alike: the second has budgets that are at least as large,
and explores again wherever the first does. Under it a walk can do whatever
it does under the first.

# One session under another configuration

A session holds two things that depend on the configuration without being
part of the answer: the policy of its memo, and the log, which opens with
the configuration. `Session.recast` puts others in their place. What a task
does to a session it does to the recast one, whether the walk goes on
(`Proceeds.recast`), is broken off (`Breaks.recast`), or gives up for a
reason that the wider configuration shares (`Fails.recast`). So two walks
come to the same conclusion unless the first gives up on a limit that the
second has moved (`conclude_run_recast`).
-/
import AvrFirmware.Proofs.Stack.Budget

namespace AvrFirmware

namespace Stack

variable {m : Image} {c c' : Config}

-- ======================================================== configurations

/-- The second configuration starts at the same place, counts calls alike, and
goes at least as far. -/
structure Config.Widens (c c' : Config) : Prop where
  entry : c'.entryPoint = c.entryPoint
  bytes : c'.returnAddressBytes = c.returnAddressBytes
  steps : c.maxSteps ≤ c'.maxSteps
  depth : c.maxDepth ≤ c'.maxDepth
  policy : c.revisit = .higherHeight → c'.revisit = .higherHeight

/-- Larger budgets are valid if the smaller ones are. -/
theorem Config.Widens.valid (h : c.Widens c') (hc : c.Valid) : c'.Valid := by
  obtain ⟨hbytes, hsteps, hdepth⟩ := hc
  refine ⟨?_, Nat.lt_of_lt_of_le hsteps h.steps,
    Nat.lt_of_lt_of_le hdepth h.depth⟩
  rw [h.bytes]
  exact hbytes

/-- The limit that the reason is about is the same in both configurations. -/
def Reason.SharedBy (c c' : Config) : Reason → Prop
  | growingCycle _ => True
  | higherRevisit _ => c'.revisit = c.revisit
  | stepBudget _ => c'.maxSteps = c.maxSteps
  | depthBudget _ => c'.maxDepth = c.maxDepth

-- ============================================================== policies

namespace Memo

variable {memo : Memo} {k : State} {height : Int}

/-- The same memo under another policy. -/
def withPolicy (memo : Memo) (policy : Revisit) : Memo :=
  { memo with policy := policy }

/-- Leaving a state has nothing to do with the policy. -/
theorem leave_withPolicy (memo : Memo) (policy : Revisit) (k : State) :
    (memo.withPolicy policy).leave k = (memo.leave k).withPolicy policy := by
  have hget : (memo.withPolicy policy).get? k = memo.get? k := rfl
  unfold leave
  rw [hget]
  cases memo.get? k with
  | none => rfl
  | some e => rfl

/-- What may be explored under the first policy may be explored under the
second. -/
theorem Admits.withPolicy (ha : memo.Admits k height)
    (hp : memo.policy = c.revisit) (hc : c.Widens c') :
    (memo.withPolicy c'.revisit).Admits k height := by
  rcases ha with hnone | ⟨explored, hsome, hlt, hagain⟩
  · exact .inl hnone
  · exact .inr ⟨explored, hsome, hlt, hc.policy (hp.symm.trans hagain)⟩

/-- Exploring it marks the same state at the same height. -/
theorem explore_withPolicy (ha : memo.Admits k height)
    (hp : memo.policy = c.revisit) (hc : c.Widens c') :
    (memo.withPolicy c'.revisit).explore k height
      = (memo.explore k height).withPolicy c'.revisit := by
  rw [explore_eq ha, explore_eq (ha.withPolicy hp hc)]
  rfl

end Memo

namespace Session

variable {s t u : Session} {task : Task} {rest : List Task} {pc : Nat}
  {height : Int} {i : Instruction}

-- =============================================================== recasts

/-- The same session under another policy, with another log. -/
def recast (s : Session) (policy : Revisit) (log : List Event) : Session :=
  { s with memo := s.memo.withPolicy policy, log := log }

/-- A report on giving up shows neither the policy nor the log. -/
theorem report_giveUp_recast (s : Session) (policy : Revisit)
    (log : List Event) (r : Reason) :
    ((s.recast policy log).giveUp r).report = (s.giveUp r).report := by
  have hsame : (s.recast policy log).unbounded = s.unbounded := rfl
  unfold giveUp
  rw [hsame]
  cases s.unbounded with
  | none => rfl
  | some first => rfl

/-- The effect of an instruction does not depend on the policy. -/
theorem apply_recast (s : Session) (policy : Revisit) (log : List Event)
    (pc : Nat) (i : Instruction) (e : Effect) :
    (s.recast policy log).apply pc i e
      = (s.apply pc i e).recast policy (s.remarks pc i e ++ log) := by
  rw [apply_eq, apply_eq]
  rfl

theorem explore_recast (log : List Event)
    (ha : s.memo.Admits ⟨i, pc + i.width⟩ height)
    (hp : s.memo.policy = c.revisit) (hc : c.Widens c') :
    (s.recast c'.revisit log).explore pc height i
      = (s.explore pc height i).recast c'.revisit
          (.arrived (s.steps + 1) pc height i :: log) := by
  have hmemo : (s.recast c'.revisit log).memo.explore ⟨i, pc + i.width⟩ height
      = (s.memo.explore ⟨i, pc + i.width⟩ height).withPolicy c'.revisit :=
    Memo.explore_withPolicy ha hp hc
  unfold explore
  rw [hmemo]
  rfl

-- ============================================================== one task

/-- A walk that goes on under the first configuration goes on under the wider
one, to the same session. -/
theorem Proceeds.recast (h : Proceeds m c s task t) (hc : c.Widens c')
    (hp : s.memo.policy = c.revisit) (log : List Event) :
    ∃ log',
      Proceeds m c' (s.recast c'.revisit log) task
        (t.recast c'.revisit log') := by
  cases h with
  | left k =>
      refine ⟨log, ?_⟩
      have hleft := Proceeds.left (m := m) (c := c')
        (s := s.recast c'.revisit log) k
      rw [show (s.recast c'.revisit log).memo.leave k
          = (s.memo.leave k).withPolicy c'.revisit
        from Memo.leave_withPolicy ..] at hleft
      exact hleft
  | @leftImage pc height hsteps hpast =>
      exact ⟨_, .leftImage (Nat.lt_of_lt_of_le hsteps hc.steps) hpast⟩
  | @passed pc height i e hsteps hd he hle =>
      exact ⟨_, .passed (Nat.lt_of_lt_of_le hsteps hc.steps) hd he hle⟩
  | @entered pc height i e hsteps hd ha hdepth he =>
      refine ⟨(s.explore pc height i).remarks pc i e
        ++ .arrived (s.steps + 1) pc height i :: log, ?_⟩
      rw [← apply_recast, ← explore_recast log ha hp hc]
      rw [← hc.bytes] at he
      exact .entered (Nat.lt_of_lt_of_le hsteps hc.steps) hd
        (ha.withPolicy hp hc)
        (Nat.lt_of_lt_of_le hdepth hc.depth) he

/-- A walk that is broken off is broken off under the wider configuration for
the same error. -/
theorem Breaks.recast {e : Error} (h : Breaks m c s task e) (hc : c.Widens c')
    (hp : s.memo.policy = c.revisit) (log : List Event) :
    Breaks m c' (s.recast c'.revisit log) task e := by
  cases h with
  | unreadable hsteps hpast hd =>
      exact .unreadable (Nat.lt_of_lt_of_le hsteps hc.steps) hpast hd
  | noEffect hsteps hd ha hdepth he =>
      rw [← hc.bytes] at he
      exact .noEffect (Nat.lt_of_lt_of_le hsteps hc.steps) hd
        (ha.withPolicy hp hc)
        (Nat.lt_of_lt_of_le hdepth hc.depth) he

/-- A walk that gives up for a shared reason gives up under the wider
configuration for the same one. -/
theorem Fails.recast {r : Reason} (h : Fails m c s task r u) (hc : c.Widens c')
    (hp : s.memo.policy = c.revisit) (hr : r.SharedBy c c')
    (log : List Event) :
    ∃ log',
      Fails m c' (s.recast c'.revisit log) task r
        (u.recast c'.revisit log') := by
  cases h with
  | outOfSteps hsteps =>
      have hr : c'.maxSteps = c.maxSteps := hr
      rw [← hr] at hsteps ⊢
      exact ⟨log, .outOfSteps hsteps⟩
  | cycle hsteps hd he hlt =>
      exact ⟨_, .cycle (Nat.lt_of_lt_of_le hsteps hc.steps) hd he hlt⟩
  | higher hsteps hd he hlt hfirst =>
      have hr : c'.revisit = c.revisit := hr
      exact ⟨_, .higher (Nat.lt_of_lt_of_le hsteps hc.steps) hd he hlt
        (hr.trans (hp.symm.trans hfirst))⟩
  | @tooDeep pc height i hsteps hd ha hdepth =>
      have hr : c'.maxDepth = c.maxDepth := hr
      refine ⟨.arrived (s.steps + 1) pc height i :: log, ?_⟩
      rw [← explore_recast log ha hp hc]
      rw [← hr] at hdepth ⊢
      exact .tooDeep (Nat.lt_of_lt_of_le hsteps hc.steps) hd
        (ha.withPolicy hp hc) hdepth

-- ============================================================= all tasks

theorem run_of_done (hw : s.work = []) : s.run m c = .ok s := by
  unfold run
  split
  · rfl
  · next hcons => cases hw.symm.trans hcons

/-- A run goes on from what the next task leaves. -/
theorem run_of_perform (hw : s.work = task :: rest)
    (hp : ({ s with work := rest } : Session).perform m c task = .ok t) :
    s.run m c = t.run m c := by
  rw [run]
  split
  · next hnil => cases hw.symm.trans hnil
  · next task' rest' hcons =>
      cases hw.symm.trans hcons
      split
      · next hp' => cases hp.symm.trans hp'
      · next t' hp' =>
          cases hp.symm.trans hp'
          rfl

/-- A task that fails ends the run. -/
theorem run_of_perform_error {failure : Failure} (hw : s.work = task :: rest)
    (hp : ({ s with work := rest } : Session).perform m c task
      = .error failure) :
    s.run m c = .error failure := by
  rw [run]
  split
  · next hnil => cases hw.symm.trans hnil
  · next task' rest' hcons =>
      cases hw.symm.trans hcons
      split
      · next hp' =>
          cases hp.symm.trans hp'
          rfl
      · next t' hp' => cases hp.symm.trans hp'

/-- The two walks come to the same conclusion, unless the first gives up on a
limit that the second has moved. -/
theorem conclude_run_recast (hc : c.Widens c') (hs : Reached m c s)
    (log : List Event)
    (hshared : ∀ r reason, conclude (s.run m c) = .ok r →
      r.unbounded = some reason → reason.SharedBy c c') :
    conclude ((s.recast c'.revisit log).run m c') = conclude (s.run m c) := by
  fun_induction run m c s generalizing log with
  | case1 s hw =>
      rw [run_of_done (s := s.recast c'.revisit log) hw]
      rfl
  | case2 s task rest hw failure hp =>
      have hbreaks := (breaks_of_perform hp).recast hc hs.coherent.policy log
      obtain ⟨log', hp'⟩ := perform_of_breaks hbreaks
      rw [run_of_perform_error (s := s.recast c'.revisit log) hw hp']
      rfl
  | case3 s task rest hw t hp ih =>
      have hpolicy : ({ s with work := rest } : Session).memo.policy
          = c.revisit :=
        hs.coherent.policy
      cases takes_of_perform hp with
      | proceeds h =>
          obtain ⟨log', hproceeds⟩ := h.recast hc hpolicy log
          rw [run_of_perform (s := s.recast c'.revisit log) hw
            (perform_of_proceeds hproceeds)]
          exact ih (.next hs hw hp) log' hshared
      | @givesUp r u h =>
          -- nothing is left to do, so the reason of this task is the one that
          -- is reported
          rw [run_of_done (work_giveUp u r)] at hshared ⊢
          have hunbounded : (u.giveUp r).report.unbounded = some r := by
            show (u.giveUp r).unbounded = some r
            rw [unbounded_giveUp, h.same.1.trans (hs.unbounded_eq_none hw)]
            rfl
          have hr := hshared _ r rfl hunbounded
          obtain ⟨log', hfails⟩ := h.recast hc hpolicy hr log
          rw [run_of_perform (s := s.recast c'.revisit log) hw
              (perform_of_fails hfails), run_of_done (work_giveUp _ r)]
          exact congrArg Except.ok (u.report_giveUp_recast c'.revisit log' r)

end Session

/-- A wider configuration gets the same result, unless the bound was given up
on a limit that it has moved. -/
theorem result_eq_of_widens (m : Image) (hc : c.Valid) (hwidens : c.Widens c')
    (hshared : ∀ r reason, (analyze m c).result = .ok r →
      r.unbounded = some reason → reason.SharedBy c c') :
    (analyze m c').result = (analyze m c).result := by
  rw [Session.result_analyze m hc] at hshared ⊢
  rw [Session.result_analyze m (hwidens.valid hc)]
  have hstart : Session.start c' [.started m.size c']
      = (Session.start c [.started m.size c]).recast c'.revisit
        [.started m.size c'] := by
    unfold Session.start
    rw [hwidens.entry]
    rfl
  rw [hstart]
  exact Session.conclude_run_recast hwidens .start _ hshared

-- =========================================================== the results

/-- If no state is met again from higher, then exploring again makes no
difference. -/
theorem higher_height_result_eq (m : Image) (hc : c.Valid)
    (hnever : ∀ r pc,
      (analyze m { c with revisit := .firstVisit }).result = .ok r →
      r.unbounded ≠ some (.higherRevisit pc)) :
    (analyze m { c with revisit := .higherHeight }).result
      = (analyze m { c with revisit := .firstVisit }).result := by
  refine result_eq_of_widens m hc
    ⟨rfl, rfl, Nat.le_refl _, Nat.le_refl _, fun _ => rfl⟩ ?_
  intro r reason hr hreason
  cases reason with
  | growingCycle pc => trivial
  | higherRevisit pc => exact absurd hreason (hnever r pc hr)
  | stepBudget limit => rfl
  | depthBudget limit => rfl

/-- Where each state is explored once, either the bound is given up on a state
that is reached again from higher, or the result is the one of exploring again.
So it never promises less stack. -/
theorem first_visit_refined_by_higher_height (m : Image) (hc : c.Valid) :
    ((∀ r pc, (analyze m { c with revisit := .firstVisit }).result = .ok r →
        r.unbounded ≠ some (.higherRevisit pc)) →
      (analyze m { c with revisit := .higherHeight }).result
        = (analyze m { c with revisit := .firstVisit }).result)
      ∧ ∀ once again,
        (analyze m { c with revisit := .firstVisit }).result = .ok once →
          (analyze m { c with revisit := .higherHeight }).result = .ok again →
          again.usage ≤ once.usage := by
  refine ⟨higher_height_result_eq m hc, ?_⟩
  intro once again honce hagain
  by_cases hgaveUp : ∃ pc, once.unbounded = some (.higherRevisit pc)
  · obtain ⟨pc, hpc⟩ := hgaveUp
    obtain ⟨s, hs, -, rfl, -⟩ := Session.exists_reached_of_analyze honce
    rw [hs.of_unbounded hpc]
    exact again.usage.le_unbounded
  · have hnever : ∀ r pc,
        (analyze m { c with revisit := .firstVisit }).result = .ok r →
        r.unbounded ≠ some (.higherRevisit pc) := by
      intro r pc hr hpc
      cases honce.symm.trans hr
      exact hgaveUp ⟨pc, hpc⟩
    have hsame := higher_height_result_eq m hc hnever
    rw [honce, hagain] at hsame
    cases hsame
    exact Usage.le_refl _

/-- A push, and a jump back to it. -/
def pushForever : Image :=
  .ofWords [0x930F, 0xCFFE]

/-- A growing cycle that both policies find, and a join that only the first
gives up on. -/
theorem first_visit_refined_by_higher_height_pushForever :
    ((∃ r, (analyze pushForever { revisit := .firstVisit }).result = .ok r
        ∧ r.unbounded = some (.growingCycle 0))
      ∧ (analyze pushForever { revisit := .higherHeight }).result
        = (analyze pushForever { revisit := .firstVisit }).result)
    ∧ ∃ once again,
      (analyze raisedJoin { revisit := .firstVisit }).result = .ok once
      ∧ (analyze raisedJoin { revisit := .higherHeight }).result = .ok again
      ∧ once.unbounded = some (.higherRevisit 2) ∧ again.usage = .bounded 1
      ∧ again.usage ≤ once.usage := by
  have hcycle : (analyze pushForever { revisit := .firstVisit }).result
      = .ok ⟨.unbounded, 3, 2, [], [], some (.growingCycle 0)⟩ := by
    cbv
  have honce : (analyze raisedJoin { revisit := .firstVisit }).result
      = .ok ⟨.unbounded, 4, 3, [], [], some (.higherRevisit 2)⟩ := by
    cbv
  have hagain : (analyze raisedJoin { revisit := .higherHeight }).result
      = .ok ⟨.bounded 1, 4, 3, [], [], none⟩ := by
    cbv
  have hsame :=
    (first_visit_refined_by_higher_height (c := {}) pushForever (by decide)).1
  have hle :=
    (first_visit_refined_by_higher_height (c := {}) raisedJoin (by decide)).2
  refine ⟨⟨⟨_, hcycle, rfl⟩, hsame ?_⟩, _, _, honce, hagain, rfl, rfl,
    hle _ _ honce hagain⟩
  intro r pc hr
  cases hcycle.symm.trans hr
  simp

/-- Larger budgets change no result that was not due to a budget. -/
theorem larger_budgets_keep_result {steps depth : Nat} (m : Image)
    (hc : c.Valid) (hsteps : c.maxSteps ≤ steps) (hdepth : c.maxDepth ≤ depth)
    (hsettled : ∀ r limit, (analyze m c).result = .ok r →
      r.unbounded ≠ some (.stepBudget limit)
        ∧ r.unbounded ≠ some (.depthBudget limit)) :
    (analyze m { c with maxSteps := steps, maxDepth := depth }).result
      = (analyze m c).result := by
  refine result_eq_of_widens m hc ⟨rfl, rfl, hsteps, hdepth, id⟩ ?_
  intro r reason hr hreason
  cases reason with
  | growingCycle pc => trivial
  | higherRevisit pc => rfl
  | stepBudget limit => exact absurd hreason (hsettled r limit hr).1
  | depthBudget limit => exact absurd hreason (hsettled r limit hr).2

/-- An instruction, and a return from an interrupt. -/
def interruptHandler : Image :=
  .ofWords [0x0000, 0x9518]

/-- A growing cycle and an instruction that is not supported, both found within
small budgets. -/
theorem larger_budgets_keep_result_pushForever :
    ((∃ r, (analyze pushForever { maxSteps := 3, maxDepth := 2 }).result
            = .ok r
          ∧ r.unbounded = some (.growingCycle 0))
        ∧ (analyze pushForever {}).result
          = (analyze pushForever { maxSteps := 3, maxDepth := 2 }).result)
      ∧ (analyze interruptHandler { maxSteps := 2, maxDepth := 2 }).result
        = .error (.unsupported 1 (.bare .reti))
      ∧ (analyze interruptHandler {}).result
        = (analyze interruptHandler
          { maxSteps := 2, maxDepth := 2 }).result := by
  have hcycle : (analyze pushForever { maxSteps := 3, maxDepth := 2 }).result
      = .ok ⟨.unbounded, 3, 2, [], [], some (.growingCycle 0)⟩ := by
    cbv
  have herror : (analyze interruptHandler
      { maxSteps := 2, maxDepth := 2 }).result
      = .error (.unsupported 1 (.bare .reti)) := by
    cbv
  have hloop : (analyze pushForever {}).result
      = (analyze pushForever { maxSteps := 3, maxDepth := 2 }).result := by
    refine larger_budgets_keep_result (c := { maxSteps := 3, maxDepth := 2 })
      pushForever (by decide) ?_ ?_ ?_
    · decide
    · decide
    · intro r limit hr
      cases hcycle.symm.trans hr
      simp
  have hhandler : (analyze interruptHandler {}).result
      = (analyze interruptHandler
        { maxSteps := 2, maxDepth := 2 }).result := by
    refine larger_budgets_keep_result (c := { maxSteps := 2, maxDepth := 2 })
      interruptHandler
      (by decide) ?_ ?_ ?_
    · decide
    · decide
    · intro r limit hr
      cases herror.symm.trans hr
  exact ⟨⟨⟨_, hcycle, rfl⟩, hloop⟩, herror, hhandler⟩

end Stack

end AvrFirmware
