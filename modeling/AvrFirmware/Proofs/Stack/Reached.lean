/-
The sessions a walk passes through.

# One task

`Proceeds` lists everything a task can do to a walk that goes on, guards
included: a departure, an arrival past the end, a cut-off, an exploration.
`Fails` lists the four ways to give up, and `Breaks` the two ways to end
without a report. Each case is what the definitions compute
(`perform_of_proceeds` and the two after it), and no case is missing
(`cases_of_task`), so every proof after this file is a case analysis over
the three.

# All tasks

`Reached` holds of the sessions that a walk passes through, the first and
the last included. Giving up is the last thing a walk does, so there are
two ways to use it: `Reached.invariant` is the induction over the tasks of
a walk that has not given up, and `Reached.fails` turns a reason into the
task that gave it. `exists_reached_of_analyze` comes from a report, and
`exists_breaks_of_analyze` from an error.
-/
import AvrFirmware.Proofs.Stack.Memo
import AvrFirmware.Stack.Analysis

namespace AvrFirmware

namespace Stack

/-- A return address has at most three bytes. -/
theorem Config.Valid.bytes_le {c : Config} (h : c.Valid) :
    c.returnAddressBytes ≤ 3 := by
  obtain ⟨hbytes, -, -⟩ := h
  omega

/-- Only a valid configuration gets a report. -/
theorem valid_of_analyze {m : Image} {c : Config} {r : Report}
    (h : (analyze m c).result = .ok r) : c.Valid := by
  unfold analyze at h
  split at h
  · cases h
  · next hvalid => exact c.fault?_eq_none_iff.mp hvalid

namespace Session

variable {m : Image} {c : Config} {s t : Session} {pc : Nat} {i : Instruction}
  {height : Int}

-- ================================================ what giving up changes

@[simp]
theorem memo_giveUp (s : Session) (r : Reason) :
    (s.giveUp r).memo = s.memo := by
  unfold giveUp
  split <;> rfl

/-- The first reason is the one that is kept. -/
theorem unbounded_giveUp (s : Session) (r : Reason) :
    (s.giveUp r).unbounded = some (s.unbounded.getD r) := by
  unfold giveUp
  split
  · next first h => rw [h]; rfl
  · next h => rw [h]; rfl

/-- Giving up shows in the peak as in the reason. -/
theorem peak_unbounded_giveUp (r : Reason)
    (h : s.peak.unbounded = s.unbounded.isSome) :
    (s.giveUp r).peak.unbounded = true := by
  unfold giveUp
  split
  · next first hu => rw [h, hu]; rfl
  · rfl

-- ================================================= what entering changes

/-- What is said about a state when it is entered, the latest first. -/
def remarks (s : Session) (pc : Nat) (i : Instruction) (e : Effect) :
    List Event :=
  (if e.isUnderflow && !s.underflows.contains pc then [.underflow pc] else [])
    ++ if e.isGap && !s.gaps.contains pc then [.unresolved pc i] else []

/-- All that entering a state changes. -/
theorem apply_eq (s : Session) (pc : Nat) (i : Instruction) (e : Effect) :
    s.apply pc i e =
      { s with
        depth := s.depth + 1
        work :=
          e.successors.map (fun a => .visit a.1 a.2)
            ++ .leave ⟨i, pc + i.width⟩ :: s.work
        gaps := if e.isGap then s.gaps.insert pc i else s.gaps
        underflows :=
          if e.isUnderflow then s.underflows.insert pc else s.underflows
        log := s.remarks pc i e ++ s.log } := by
  unfold apply addGap addUnderflow remarks note
  cases e.isGap <;> cases e.isUnderflow <;> cases s.gaps.contains pc <;>
    cases hu : s.underflows.contains pc <;> simp [hu]

-- ============================================================== one task

/-- A session in which an arrival at an instruction has been counted. -/
def arrive (s : Session) (pc : Nat) (height : Int) (i : Instruction) :
    Session :=
  { s with
    steps := s.steps + 1
    peak := s.peak.observe height
    log := .arrived (s.steps + 1) pc height i :: s.log }

/-- A session that has taken an arrival to be explored. -/
def explore (s : Session) (pc : Nat) (height : Int) (i : Instruction) :
    Session :=
  { s.arrive pc height i with memo := s.memo.explore ⟨i, pc + i.width⟩ height }

theorem depth_explore (s : Session) (pc : Nat) (height : Int)
    (i : Instruction) :
    (s.explore pc height i).depth = s.depth :=
  rfl

/-- What a task does to a session that goes on after it. -/
inductive Proceeds (m : Image) (c : Config) (s : Session) :
    Task → Session → Prop
  | left (k : State) :
      Proceeds m c s (.leave k)
        { s with memo := s.memo.leave k, depth := s.depth - 1 }
  | leftImage {pc : Nat} {height : Int} (hsteps : s.steps < c.maxSteps)
      (hpast : m.isPastEnd pc = true) :
      Proceeds m c s (.visit pc height)
        { s with
          steps := s.steps + 1
          peak := s.peak.observe height
          log := .leftImage (s.steps + 1) pc height :: s.log }
  /-- The state has been explored from at least as high. -/
  | passed {pc : Nat} {height : Int} {i : Instruction} {e : Entry}
      (hsteps : s.steps < c.maxSteps) (hd : m.decodeAt pc = .ok i)
      (he : s.memo.entryAt? m pc = some e) (hle : height ≤ e.height) :
      Proceeds m c s (.visit pc height) (s.arrive pc height i)
  | entered {pc : Nat} {height : Int} {i : Instruction} {e : Effect}
      (hsteps : s.steps < c.maxSteps) (hd : m.decodeAt pc = .ok i)
      (ha : s.memo.Admits ⟨i, pc + i.width⟩ height)
      (hdepth : s.depth < c.maxDepth)
      (he : effect m c.returnAddressBytes pc i height = .ok e) :
      Proceeds m c s (.visit pc height) ((s.explore pc height i).apply pc i e)

/-- Why a task makes a session give up, and how far it has come by then. -/
inductive Fails (m : Image) (c : Config) (s : Session) :
    Task → Reason → Session → Prop
  | outOfSteps {pc : Nat} {height : Int} (hsteps : c.maxSteps ≤ s.steps) :
      Fails m c s (.visit pc height) (.stepBudget c.maxSteps) s
  | cycle {pc : Nat} {height entered : Int} {i : Instruction}
      (hsteps : s.steps < c.maxSteps) (hd : m.decodeAt pc = .ok i)
      (he : s.memo.entryAt? m pc = some ⟨entered, true⟩)
      (hlt : entered < height) :
      Fails m c s (.visit pc height) (.growingCycle pc)
        ((s.arrive pc height i).note (.reentered pc height entered))
  | higher {pc : Nat} {height explored : Int} {i : Instruction}
      (hsteps : s.steps < c.maxSteps) (hd : m.decodeAt pc = .ok i)
      (he : s.memo.entryAt? m pc = some ⟨explored, false⟩)
      (hlt : explored < height) (hp : s.memo.policy = .firstVisit) :
      Fails m c s (.visit pc height) (.higherRevisit pc)
        ((s.arrive pc height i).note (.rearrived pc height explored))
  | tooDeep {pc : Nat} {height : Int} {i : Instruction}
      (hsteps : s.steps < c.maxSteps) (hd : m.decodeAt pc = .ok i)
      (ha : s.memo.Admits ⟨i, pc + i.width⟩ height)
      (hdepth : c.maxDepth ≤ s.depth) :
      Fails m c s (.visit pc height) (.depthBudget c.maxDepth)
        (s.explore pc height i)

/-- What taking a task does to a session. -/
inductive Takes (m : Image) (c : Config) (s : Session) (task : Task) :
    Session → Prop
  | proceeds {t : Session} (h : Proceeds m c s task t) : Takes m c s task t
  | givesUp {r : Reason} {u : Session} (h : Fails m c s task r u) :
      Takes m c s task (u.giveUp r)

/-- Why a task breaks a walk off, and the error it ends with. -/
inductive Breaks (m : Image) (c : Config) (s : Session) : Task → Error → Prop
  | unreadable {pc : Nat} {height : Int} {cause : DecodeError}
      (hsteps : s.steps < c.maxSteps) (hpast : ¬ m.isPastEnd pc = true)
      (hd : m.decodeAt pc = .error cause) :
      Breaks m c s (.visit pc height) (.malformed pc cause)
  | noEffect {pc : Nat} {height : Int} {i : Instruction} {e : Error}
      (hsteps : s.steps < c.maxSteps) (hd : m.decodeAt pc = .ok i)
      (ha : s.memo.Admits ⟨i, pc + i.width⟩ height)
      (hdepth : s.depth < c.maxDepth)
      (he : effect m c.returnAddressBytes pc i height = .error e) :
      Breaks m c s (.visit pc height) e

-- ================================================== the cases are computed

/-- Within the budget and on an instruction, a visit arrives there and meets
its state. -/
theorem visit_eq_meet (hsteps : s.steps < c.maxSteps)
    (hd : m.decodeAt pc = .ok i) :
    s.visit m c pc height = (s.arrive pc height i).meet m c pc i height := by
  unfold visit
  dsimp only
  rw [if_neg (Nat.not_le_of_lt hsteps),
    if_neg (Image.not_isPastEnd_of_decodeAt hd), hd]
  rfl

/-- If the state may be explored, the instruction is entered. -/
theorem visit_of_admits (hsteps : s.steps < c.maxSteps)
    (hd : m.decodeAt pc = .ok i)
    (ha : s.memo.Admits ⟨i, pc + i.width⟩ height) :
    s.visit m c pc height = (s.explore pc height i).enter m c pc i height := by
  rw [visit_eq_meet hsteps hd]
  unfold meet
  dsimp only [arrive]
  rcases ha with hnone | ⟨explored, hsome, hlt, hp⟩
  · rw [Memo.record_of_new hnone]
    rfl
  · have hraised : (s.memo.record ⟨i, pc + i.width⟩ height).1
        = .raised explored := by
      rw [Memo.record_of_higherHeight hsome hlt hp]
    rw [hraised]
    rfl

/-- A task that proceeds is performed so. -/
theorem perform_of_proceeds {task : Task} (h : Proceeds m c s task t) :
    s.perform m c task = .ok t := by
  cases h with
  | left k => rfl
  | @leftImage pc height hsteps hpast =>
      show s.visit m c pc height = _
      unfold visit
      dsimp only
      rw [if_neg (Nat.not_le_of_lt hsteps), if_pos hpast]
      rfl
  | @passed pc height i e hsteps hd he hle =>
      rw [Memo.entryAt?_of_stateAt? _ (Image.stateAt?_of_decodeAt hd)] at he
      show s.visit m c pc height = _
      rw [visit_eq_meet hsteps hd]
      unfold meet
      dsimp only [arrive]
      rw [Memo.record_of_le he hle]
  | @entered pc height i e hsteps hd ha hdepth he =>
      show s.visit m c pc height = _
      rw [visit_of_admits hsteps hd ha]
      unfold enter
      rw [depth_explore, if_neg (Nat.not_le_of_lt hdepth), he]

/-- A task that fails gives up for the reason it names. -/
theorem perform_of_fails {task : Task} {r : Reason} {u : Session}
    (h : Fails m c s task r u) :
    s.perform m c task = .ok (u.giveUp r) := by
  cases h with
  | @outOfSteps pc height hsteps =>
      show s.visit m c pc height = _
      unfold visit
      rw [if_pos hsteps]
  | @cycle pc height entered i hsteps hd he hlt =>
      rw [Memo.entryAt?_of_stateAt? _ (Image.stateAt?_of_decodeAt hd)] at he
      show s.visit m c pc height = _
      rw [visit_eq_meet hsteps hd]
      unfold meet
      dsimp only [arrive]
      rw [Memo.record_of_onPath he hlt]
  | @higher pc height explored i hsteps hd he hlt hp =>
      rw [Memo.entryAt?_of_stateAt? _ (Image.stateAt?_of_decodeAt hd)] at he
      show s.visit m c pc height = _
      rw [visit_eq_meet hsteps hd]
      unfold meet
      dsimp only [arrive]
      rw [Memo.record_of_firstVisit he hlt hp]
  | @tooDeep pc height i hsteps hd ha hdepth =>
      show s.visit m c pc height = _
      rw [visit_of_admits hsteps hd ha]
      unfold enter
      rw [depth_explore, if_pos hdepth]

/-- A task that breaks ends the walk with its error. -/
theorem perform_of_breaks {task : Task} {e : Error} (h : Breaks m c s task e) :
    ∃ log, s.perform m c task = .error ⟨e, log⟩ := by
  cases h with
  | @unreadable pc height cause hsteps hpast hd =>
      refine ⟨s.log, ?_⟩
      show s.visit m c pc height = _
      unfold visit
      dsimp only
      rw [if_neg (Nat.not_le_of_lt hsteps), if_neg hpast, hd]
      rfl
  | @noEffect pc height i e hsteps hd ha hdepth he =>
      refine ⟨(s.explore pc height i).log, ?_⟩
      show s.visit m c pc height = _
      rw [visit_of_admits hsteps hd ha]
      unfold enter
      rw [depth_explore, if_neg (Nat.not_le_of_lt hdepth), he]

-- ===================================================== no case is missing

/-- An arrival that is explored enters its state, is one too deep, or has no
effect. -/
theorem cases_of_admits (hsteps : s.steps < c.maxSteps)
    (hd : m.decodeAt pc = .ok i)
    (ha : s.memo.Admits ⟨i, pc + i.width⟩ height) :
    (∃ t, Proceeds m c s (.visit pc height) t)
      ∨ (∃ r u, Fails m c s (.visit pc height) r u)
      ∨ ∃ e, Breaks m c s (.visit pc height) e := by
  rcases Nat.lt_or_ge s.depth c.maxDepth with hdepth | hdepth
  · cases he : effect m c.returnAddressBytes pc i height with
    | ok e => exact .inl ⟨_, .entered hsteps hd ha hdepth he⟩
    | error e => exact .inr (.inr ⟨e, .noEffect hsteps hd ha hdepth he⟩)
  · exact .inr (.inl ⟨_, _, .tooDeep hsteps hd ha hdepth⟩)

/-- A task proceeds, fails or breaks. -/
theorem cases_of_task (m : Image) (c : Config) (s : Session) (task : Task) :
    (∃ t, Proceeds m c s task t) ∨ (∃ r u, Fails m c s task r u)
      ∨ ∃ e, Breaks m c s task e := by
  cases task with
  | leave k => exact .inl ⟨_, .left k⟩
  | visit pc height =>
      rcases Nat.lt_or_ge s.steps c.maxSteps with hsteps | hsteps
      · by_cases hpast : m.isPastEnd pc = true
        · exact .inl ⟨_, .leftImage hsteps hpast⟩
        · cases hd : m.decodeAt pc with
          | error cause => exact .inr (.inr ⟨_, .unreadable hsteps hpast hd⟩)
          | ok i =>
              have hentry := Memo.entryAt?_of_stateAt? s.memo
                (Image.stateAt?_of_decodeAt hd)
              rcases s.memo.arrival_cases ⟨i, pc + i.width⟩ height with
                ha | ⟨e, he, hle⟩ | ⟨entered, he, hlt⟩ |
                  ⟨explored, he, hlt, hp⟩
              · exact cases_of_admits hsteps hd ha
              · exact .inl ⟨_, .passed hsteps hd (hentry.trans he) hle⟩
              · exact .inr (.inl ⟨_, _,
                  .cycle hsteps hd (hentry.trans he) hlt⟩)
              · exact .inr (.inl ⟨_, _,
                  .higher hsteps hd (hentry.trans he) hlt hp⟩)
      · exact .inr (.inl ⟨_, _, .outOfSteps hsteps⟩)

/-- Taking a task does what is listed. -/
theorem takes_of_perform {task : Task} (h : s.perform m c task = .ok t) :
    Takes m c s task t := by
  rcases cases_of_task m c s task with ⟨t', ht⟩ | ⟨r, u, hu⟩ | ⟨e, he⟩
  · cases (perform_of_proceeds ht).symm.trans h
    exact .proceeds ht
  · cases (perform_of_fails hu).symm.trans h
    exact .givesUp hu
  · obtain ⟨log, hlog⟩ := perform_of_breaks he
    cases hlog.symm.trans h

/-- The errors of a walk are those of tasks that break. -/
theorem breaks_of_perform {task : Task} {failure : Failure}
    (h : s.perform m c task = .error failure) :
    Breaks m c s task failure.error := by
  rcases cases_of_task m c s task with ⟨t, ht⟩ | ⟨r, u, hu⟩ | ⟨e, he⟩
  · cases (perform_of_proceeds ht).symm.trans h
  · cases (perform_of_fails hu).symm.trans h
  · obtain ⟨log, hlog⟩ := perform_of_breaks he
    cases hlog.symm.trans h
    exact he

-- ============================================================= all tasks

/-- The sessions that a walk from the entry point passes through. -/
inductive Reached (m : Image) (c : Config) : Session → Prop
  | start : Reached m c (start c [.started m.size c])
  | next {s t : Session} {task : Task} {rest : List Task} (hs : Reached m c s)
      (hw : s.work = task :: rest)
      (ht : ({ s with work := rest } : Session).perform m c task = .ok t) :
      Reached m c t

/-- A walk that ends, ends in a session it passes through, with nothing left to
do. -/
theorem reached_of_run (hs : Reached m c s) (h : s.run m c = .ok t) :
    Reached m c t ∧ t.work = [] := by
  fun_induction run m c s with
  | case1 s hw =>
      cases h
      exact ⟨hs, hw⟩
  | case2 s task rest hw failure hp => cases h
  | case3 s task rest hw u hp ih => exact ih (.next hs hw hp) h

/-- A walk that is broken off has come to the task that breaks it. -/
theorem breaks_of_run {failure : Failure} (hs : Reached m c s)
    (h : s.run m c = .error failure) :
    ∃ t task rest, Reached m c t ∧ t.work = task :: rest
      ∧ Breaks m c { t with work := rest } task failure.error := by
  fun_induction run m c s with
  | case1 s hw => cases h
  | case2 s task rest hw failure' hp =>
      cases h
      exact ⟨s, task, rest, hs, hw, breaks_of_perform hp⟩
  | case3 s task rest hw u hp ih => exact ih (.next hs hw hp) h

/-- What a walk comes to, whatever it has logged. -/
def conclude : Except Failure Session → Except Error Report
  | .error failure => .error failure.error
  | .ok s => .ok s.report

/-- The result of an analysis is the conclusion of its run. -/
theorem result_analyze (m : Image) (hc : c.Valid) :
    (analyze m c).result
      = conclude ((start c [.started m.size c]).run m c) := by
  unfold analyze
  rw [c.fault?_eq_none_iff.mpr hc]
  dsimp only
  cases (start c [.started m.size c]).run m c with
  | error failure => rfl
  | ok s => rfl

/-- An error is that of the task that broke the walk off. -/
theorem exists_breaks_of_analyze {e : Error} (hc : c.Valid)
    (h : (analyze m c).result = .error e) :
    ∃ s task rest, Reached m c s ∧ s.work = task :: rest
      ∧ Breaks m c { s with work := rest } task e := by
  rw [result_analyze m hc] at h
  cases hrun : (start c [.started m.size c]).run m c with
  | error failure =>
      rw [hrun] at h
      cases h
      exact breaks_of_run .start hrun
  | ok s =>
      rw [hrun] at h
      cases h

/-- A report is about the last session of a walk. -/
theorem exists_reached_of_analyze {r : Report}
    (h : (analyze m c).result = .ok r) :
    ∃ s, Reached m c s ∧ s.work = [] ∧ r = s.report
      ∧ (analyze m c).log
        = (Event.finished r.usage r.steps r.states :: s.log).reverse := by
  unfold analyze at h ⊢
  split at h
  · cases h
  · next hvalid =>
      split at h
      · cases h
      · next s hrun =>
          cases h
          obtain ⟨hs, hw⟩ := reached_of_run .start hrun
          exact ⟨s, hs, hw, rfl, rfl⟩

-- ======================================================== giving up is last

/-- A walk gives up once, shows it in its peak, and keeps its policy. -/
structure Coherent (c : Config) (s : Session) : Prop where
  stopped : s.unbounded = none ∨ s.work = []
  verdict : s.peak.unbounded = s.unbounded.isSome
  policy : s.memo.policy = c.revisit

/-- A walk that goes on does not give up. -/
theorem Proceeds.unbounded_eq {task : Task} (h : Proceeds m c s task t) :
    t.unbounded = s.unbounded := by
  cases h with
  | entered => rw [apply_eq]; rfl
  | _ => rfl

theorem Proceeds.peak_unbounded_eq {task : Task} (h : Proceeds m c s task t) :
    t.peak.unbounded = s.peak.unbounded := by
  cases h with
  | entered => rw [apply_eq]; rfl
  | _ => rfl

/-- Nor does it change the policy. -/
theorem Proceeds.policy_eq {task : Task} (h : Proceeds m c s task t) :
    t.memo.policy = s.memo.policy := by
  cases h with
  | left k => exact Memo.policy_leave s.memo k
  | entered _ _ ha => rw [apply_eq]; exact Memo.policy_explore ha
  | _ => rfl

/-- A session that fails has changed neither its verdict nor its policy by
then. -/
theorem Fails.same {task : Task} {r : Reason} {u : Session}
    (h : Fails m c s task r u) :
    u.unbounded = s.unbounded ∧ u.peak.unbounded = s.peak.unbounded
      ∧ u.memo.policy = s.memo.policy := by
  cases h with
  | tooDeep _ _ ha => exact ⟨rfl, rfl, Memo.policy_explore ha⟩
  | _ => exact ⟨rfl, rfl, rfl⟩

/-- Sessions stay coherent along a walk. -/
theorem Reached.coherent (hs : Reached m c s) : Coherent c s := by
  induction hs with
  | start => exact ⟨.inl rfl, rfl, rfl⟩
  | @next s t task rest _ hw ht ih =>
      obtain ⟨hstopped, hverdict, hpolicy⟩ := ih
      have hu : s.unbounded = none := by
        rcases hstopped with hu | hnil
        · exact hu
        · rw [hw] at hnil
          cases hnil
      cases takes_of_perform ht with
      | proceeds h =>
          refine ⟨.inl (h.unbounded_eq.trans hu), ?_,
            h.policy_eq.trans hpolicy⟩
          rw [h.peak_unbounded_eq, h.unbounded_eq]
          exact hverdict
      | @givesUp r u h =>
          obtain ⟨hsame, hpeak, hmemo⟩ := h.same
          refine ⟨.inr (work_giveUp u r), ?_, ?_⟩
          · rw [unbounded_giveUp]
            refine peak_unbounded_giveUp r ?_
            rw [hpeak, hsame]
            exact hverdict
          · rw [memo_giveUp]
            exact hmemo.trans hpolicy

/-- A bounded usage is the peak of a walk that has not given up. -/
theorem Reached.of_bounded {n : Nat} (hs : Reached m c s)
    (hn : s.report.usage = .bounded n) :
    s.unbounded = none ∧ s.peak.bytes = n := by
  have husage : s.peak.usage = .bounded n := hn
  unfold Peak.usage at husage
  rw [hs.coherent.verdict] at husage
  cases hu : s.unbounded with
  | none =>
      rw [hu] at husage
      cases husage
      exact ⟨rfl, rfl⟩
  | some r =>
      rw [hu] at husage
      cases husage

/-- A reason to give up makes the usage unbounded. -/
theorem Reached.of_unbounded {r : Reason} (hs : Reached m c s)
    (hr : s.unbounded = some r) :
    s.report.usage = .unbounded := by
  show s.peak.usage = .unbounded
  unfold Peak.usage
  rw [hs.coherent.verdict, hr]
  rfl

/-- A walk with something left to do has not given up. -/
theorem Reached.unbounded_eq_none {task : Task} {rest : List Task}
    (hs : Reached m c s) (hw : s.work = task :: rest) :
    s.unbounded = none := by
  rcases hs.coherent.stopped with hu | hnil
  · exact hu
  · rw [hw] at hnil
    cases hnil

/-- What holds at the start and is kept by every task after which the walk goes
on, holds of every session that has not given up. -/
theorem Reached.invariant {P : Session → Prop}
    (hstart : P (Session.start c [.started m.size c]))
    (hnext : ∀ {s t : Session} {task : Task} {rest : List Task},
        Reached m c s → s.unbounded = none → s.work = task :: rest → P s →
      Proceeds m c { s with work := rest } task t → P t)
    (hs : Reached m c s) (hu : s.unbounded = none) : P s := by
  induction hs with
  | start => exact hstart
  | @next s t task rest hs hw ht ih =>
      have hus := hs.unbounded_eq_none hw
      cases takes_of_perform ht with
      | proceeds h => exact hnext hs hus hw (ih hus) h
      | givesUp h =>
          rw [unbounded_giveUp] at hu
          cases hu

/-- A walk that gave up did so in its last task, for the reason it names. -/
theorem Reached.fails {r : Reason} (hs : Reached m c t)
    (hr : t.unbounded = some r) :
    ∃ s task rest u, Reached m c s ∧ s.unbounded = none ∧ s.work = task :: rest
      ∧ Fails m c { s with work := rest } task r u ∧ t = u.giveUp r := by
  cases hs with
  | start => cases hr
  | @next s _ task rest hs hw ht =>
      have hu := hs.unbounded_eq_none hw
      cases takes_of_perform ht with
      | proceeds h =>
          rw [h.unbounded_eq] at hr
          cases hu.symm.trans hr
      | @givesUp r' u h =>
          have hsame : u.unbounded = none := h.same.1.trans hu
          rw [unbounded_giveUp, hsame] at hr
          cases hr
          exact ⟨s, task, rest, u, hs, hu, hw, h, rfl⟩

end Session

end Stack

end AvrFirmware
