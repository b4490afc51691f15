/-
The walk over a program.

# Tasks

A session keeps a list of tasks. An arrival is taken through the memo, and
where the memo asks for it the state is entered: the arrivals it leads to
are put in front, and behind them the task to leave the state again. The
states entered and not yet left are the path, so the walk is depth-first,
and the first arrival listed is explored first.

# Giving up

The bound is given up when a budget runs out, when a state on the path is
entered again on a higher stack, or when the memo reports a higher arrival
that it will not explore. Then no task is left.

# Termination

Every arrival counts a step, adds at most three tasks, and none is taken
once the steps have reached their budget, where giving up clears the list.
So three times the steps left, plus the number of tasks, falls with every
task.
-/
import AvrFirmware.Stack.Effect
import AvrFirmware.Stack.Event
import AvrFirmware.Stack.Memo
import Std.Data.TreeSet

namespace AvrFirmware

namespace Stack

/-- Something that is left to do. -/
inductive Task where
  /-- Arrive at an address on some height. -/
  | visit (pc : Nat) (height : Int)
  /-- Everything behind a state has been explored. -/
  | leave (state : State)
  deriving DecidableEq, Repr

/-- The state of a walk. -/
structure Session where
  memo : Memo
  peak : Peak := {}
  work : List Task
  steps : Nat := 0
  /-- The number of states on the path. -/
  depth : Nat := 0
  gaps : Std.TreeMap Nat Instruction := ∅
  underflows : Std.TreeSet Nat := ∅
  unbounded : Option Reason := none
  /-- What has happened, the latest first. -/
  log : List Event := []

/-- A walk that ended early, with what had happened, the latest first. -/
structure Failure where
  error : Error
  log : List Event

namespace Session

/-- A walk about to begin. -/
def start (c : Config) (log : List Event) : Session :=
  { memo := { policy := c.revisit }, work := [.visit c.entryPoint 0],
    log := log }

/-- Adds an event to the log. -/
def note (s : Session) (e : Event) : Session :=
  { s with log := e :: s.log }

/-- Gives up the bound. Only the first reason is kept. -/
def giveUp (s : Session) (reason : Reason) : Session :=
  match s.unbounded with
  | some _ => { s with work := [] }
  | none =>
      { s.note (.gaveUp s.peak.bytes reason) with
        peak := s.peak.promote, unbounded := some reason, work := [] }

/-- Keeps a transfer of control without a known destination. -/
def addGap (s : Session) (pc : Nat) (i : Instruction) : Session :=
  let s' := { s with gaps := s.gaps.insert pc i }
  if s.gaps.contains pc then s' else s'.note (.unresolved pc i)

/-- Keeps a pop that goes below the start of the stack. -/
def addUnderflow (s : Session) (pc : Nat) : Session :=
  let s' := { s with underflows := s.underflows.insert pc }
  if s.underflows.contains pc then s' else s'.note (.underflow pc)

/-- Puts an instruction's effect to work. -/
def apply (s : Session) (pc : Nat) (i : Instruction) (e : Effect) : Session :=
  let s := if e.isGap then s.addGap pc i else s
  let s := if e.isUnderflow then s.addUnderflow pc else s
  { s with
    depth := s.depth + 1
    work :=
      e.successors.map (fun a => .visit a.1 a.2)
        ++ .leave ⟨i, pc + i.width⟩ :: s.work }

/-- Enters a state. -/
def enter (m : Image) (c : Config) (s : Session) (pc : Nat) (i : Instruction)
    (height : Int) : Except Failure Session :=
  if c.maxDepth ≤ s.depth then .ok (s.giveUp (.depthBudget c.maxDepth))
  else
    match effect m c.returnAddressBytes pc i height with
    | .error e => .error ⟨e, s.log⟩
    | .ok e => .ok (s.apply pc i e)

/-- Takes an arrival at an instruction through the memo. -/
def meet (m : Image) (c : Config) (s : Session) (pc : Nat) (i : Instruction)
    (height : Int) : Except Failure Session :=
  let recorded := s.memo.record ⟨i, pc + i.width⟩ height
  let s := { s with memo := recorded.2 }
  match recorded.1 with
  | .first => s.enter m c pc i height
  | .raised _ => s.enter m c pc i height
  | .revisit => .ok s
  | .growingCycle entered now =>
      .ok ((s.note (.reentered pc now entered)).giveUp (.growingCycle pc))
  | .higher explored now =>
      .ok ((s.note (.rearrived pc now explored)).giveUp (.higherRevisit pc))

/-- Counts an arrival. -/
def count (s : Session) (height : Int) : Session :=
  { s with steps := s.steps + 1, peak := s.peak.observe height }

/-- Takes an arrival. -/
def visit (m : Image) (c : Config) (s : Session) (pc : Nat) (height : Int) :
    Except Failure Session :=
  if c.maxSteps ≤ s.steps then .ok (s.giveUp (.stepBudget c.maxSteps))
  else
    let s := s.count height
    if m.isPastEnd pc then .ok (s.note (.leftImage s.steps pc height))
    else
      match m.decodeAt pc with
      | .error cause => .error ⟨.malformed pc cause, s.log⟩
      | .ok i => (s.note (.arrived s.steps pc height i)).meet m c pc i height

/-- Takes a state off the path. -/
def leave (s : Session) (state : State) : Session :=
  { s with memo := s.memo.leave state, depth := s.depth - 1 }

/-- Takes one task. -/
def perform (m : Image) (c : Config) (s : Session) :
    Task → Except Failure Session
  | .visit pc height => s.visit m c pc height
  | .leave state => .ok (s.leave state)

-- ========================================================== termination

/-- Three for every step left, and one for every task. -/
def fuel (c : Config) (s : Session) : Nat :=
  3 * (c.maxSteps - s.steps) + s.work.length

@[simp]
theorem work_giveUp (s : Session) (r : Reason) : (s.giveUp r).work = [] := by
  unfold giveUp
  split <;> rfl

@[simp]
theorem steps_giveUp (s : Session) (r : Reason) :
    (s.giveUp r).steps = s.steps := by
  unfold giveUp
  split <;> rfl

@[simp]
theorem work_addGap (s : Session) (pc : Nat) (i : Instruction) :
    (s.addGap pc i).work = s.work := by
  unfold addGap
  dsimp only
  split <;> rfl

@[simp]
theorem steps_addGap (s : Session) (pc : Nat) (i : Instruction) :
    (s.addGap pc i).steps = s.steps := by
  unfold addGap
  dsimp only
  split <;> rfl

@[simp]
theorem work_addUnderflow (s : Session) (pc : Nat) :
    (s.addUnderflow pc).work = s.work := by
  unfold addUnderflow
  dsimp only
  split <;> rfl

@[simp]
theorem steps_addUnderflow (s : Session) (pc : Nat) :
    (s.addUnderflow pc).steps = s.steps := by
  unfold addUnderflow
  dsimp only
  split <;> rfl

theorem steps_apply (s : Session) (pc : Nat) (i : Instruction) (e : Effect) :
    (s.apply pc i e).steps = s.steps := by
  unfold apply
  dsimp only
  split <;> split <;> simp

theorem length_work_apply (s : Session) (pc : Nat) (i : Instruction)
    (e : Effect) :
    (s.apply pc i e).work.length
      = s.work.length + e.successors.length + 1 := by
  unfold apply
  dsimp only
  split <;> split <;> simp <;> omega

/-- Entering a state takes no step and adds three tasks at most. -/
theorem enter_bound {m : Image} {c : Config} {s t : Session} {pc : Nat}
    {i : Instruction} {height : Int} (h : s.enter m c pc i height = .ok t) :
    t.steps = s.steps ∧ t.work.length ≤ s.work.length + 3 := by
  unfold enter at h
  split at h
  · cases h
    simp
  · split at h
    · cases h
    · rename_i e he
      cases h
      have := length_successors_le he
      refine ⟨steps_apply .., ?_⟩
      rw [length_work_apply]
      omega

/-- The memo takes no step, and an arrival adds three tasks at most. -/
theorem meet_bound {m : Image} {c : Config} {s t : Session} {pc : Nat}
    {i : Instruction} {height : Int} (h : s.meet m c pc i height = .ok t) :
    t.steps = s.steps ∧ t.work.length ≤ s.work.length + 3 := by
  unfold meet at h
  dsimp only at h
  split at h
  · exact (enter_bound h :)
  · exact (enter_bound h :)
  · cases h
    simp
  · cases h
    simp [note]
  · cases h
    simp [note]

/-- An arrival counts a step and adds three tasks at most, or leaves none. -/
theorem visit_bound {m : Image} {c : Config} {s t : Session} {pc : Nat}
    {height : Int} (h : s.visit m c pc height = .ok t) :
    (t.steps = s.steps ∧ t.work = []) ∨
      s.steps < c.maxSteps ∧ t.steps = s.steps + 1
        ∧ t.work.length ≤ s.work.length + 3 := by
  unfold visit at h
  split at h
  · cases h
    simp
  · right
    dsimp only at h
    split at h
    · cases h
      exact ⟨by omega, rfl, Nat.le_add_right ..⟩
    · split at h
      · cases h
      · have := meet_bound h
        simp only [note, count] at this
        omega

/-- Every task taken brings the end nearer. -/
theorem fuel_perform_lt {m : Image} {c : Config} {s t : Session} {task : Task}
    {rest : List Task} (hw : s.work = task :: rest)
    (h : ({ s with work := rest } : Session).perform m c task = .ok t) :
    t.fuel c < s.fuel c := by
  unfold fuel
  rw [hw]
  cases task with
  | leave state =>
      cases h
      simp only [leave, List.length_cons]
      omega
  | visit pc height =>
      rcases visit_bound h with ⟨hs, hwork⟩ | ⟨hlt, hs, hwork⟩
      · simp only at hs
        simp only [hs, hwork, List.length_cons, List.length_nil]
        omega
      · simp only at hlt hs hwork
        simp only [hs, List.length_cons]
        omega

/-- Takes every task. -/
def run (m : Image) (c : Config) (s : Session) : Except Failure Session :=
  match _hw : s.work with
  | [] => .ok s
  | task :: rest =>
      match _h : ({ s with work := rest } : Session).perform m c task with
      | .error failure => .error failure
      | .ok t => t.run m c
termination_by s.fuel c
decreasing_by exact fuel_perform_lt _hw _h

/-- What a finished walk has found. -/
def report (s : Session) : Report where
  usage := s.peak.usage
  steps := s.steps
  states := s.memo.size
  gaps := s.gaps.toList
  underflows := s.underflows.toList
  unbounded := s.unbounded

end Session

end Stack

end AvrFirmware
