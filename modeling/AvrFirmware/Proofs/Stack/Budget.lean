/-
Walks end without their budgets.

# The account

Every exploration of a state pays for the two arrivals it may add to the
work list, and every arrival counts one step. So the steps taken and the
arrivals still to be taken never exceed two for every exploration, and one
for the entry point (`Frugal.paid`).

# How many explorations

Where each state is explored once, they are the states. Where states are
explored again, the height of a state rises with every exploration, and it
lies between minus the number of words of the image and three times that
number, because the path behind it has no repetitions. `rank` is the number
of explorations that a height allows, and `total` adds it up over the image.

# The depth

The states on the path are different addresses of the image, and the one
that is entered is not among them, so there are fewer than the image has
words at the moment the depth is checked.
-/
import AvrFirmware.Proofs.Stack.Path

namespace AvrFirmware

namespace Stack

variable {m : Image} {c : Config}

-- ========================================================== explorations

/-- The number of times a state may have been explored, given the height it was
last explored at. -/
def rank (policy : Revisit) (slots : Nat) : Option Int → Nat
  | none => 0
  | some height =>
      match policy with
      | .firstVisit => 1
      | .higherHeight => (height + slots + 1).toNat

/-- The number of explorations that the heights of a memo allow. -/
def Memo.total (policy : Revisit) (m : Image) (memo : Memo) : Nat :=
  ∑ pc ∈ Finset.range m.wordSlots,
    rank policy m.wordSlots (memo.heightAt? m pc)

/-- The number of explorations that one state allows. -/
def rankLimit (slots : Nat) : Revisit → Nat
  | .firstVisit => 1
  | .higherHeight => 4 * slots + 1

/-- A sum changes by what its one changed term does. -/
theorem sum_range_change {f g : Nat → Nat} {n k : Nat} (hk : k < n)
    (hsame : ∀ j, j ≠ k → g j = f j) :
    ∑ j ∈ Finset.range n, g j + f k = ∑ j ∈ Finset.range n, f j + g k := by
  have hmem : k ∈ Finset.range n := Finset.mem_range.mpr hk
  have hrest : ∑ j ∈ (Finset.range n).erase k, g j
      = ∑ j ∈ (Finset.range n).erase k, f j :=
    Finset.sum_congr rfl fun j hj => hsame j (Finset.ne_of_mem_erase hj)
  rw [← Finset.add_sum_erase _ g hmem, ← Finset.add_sum_erase _ f hmem, hrest]
  omega

namespace Memo

variable {memo : Memo} {pc : Nat} {k : State} {height : Int}

theorem total_empty (policy policy' : Revisit) :
    total policy m { policy := policy' } = 0 := by
  refine Finset.sum_eq_zero ?_
  intro pc _
  rw [heightAt?_empty]
  rfl

theorem total_leave (policy : Revisit) (memo : Memo) (k : State) :
    (memo.leave k).total policy m = memo.total policy m := by
  refine Finset.sum_congr rfl ?_
  intro pc _
  rw [heightAt?_leave]

/-- An exploration changes the rank of its own state only. -/
theorem total_explore (policy : Revisit) (hk : m.stateAt? pc = some k)
    (ha : memo.Admits k height) :
    (memo.explore k height).total policy m
      + rank policy m.wordSlots (memo.heightAt? m pc)
      = memo.total policy m + rank policy m.wordSlots (some height) := by
  have hpc := Image.lt_wordSlots_of_decodeAt (Image.decodeAt_of_stateAt? hk).1
  have hsame : ∀ pc', pc' ≠ pc →
      rank policy m.wordSlots ((memo.explore k height).heightAt? m pc')
        = rank policy m.wordSlots (memo.heightAt? m pc') := by
    intro pc' hne
    rw [heightAt?_explore hk ha, if_neg hne]
  have hchange := sum_range_change hpc hsame
  rw [heightAt?_explore hk ha, if_pos rfl] at hchange
  exact hchange

/-- Every exploration has a rank to itself. -/
theorem rank_lt_of_admits (hk : m.stateAt? pc = some k)
    (ha : memo.Admits k height) (hlow : -(m.wordSlots : Int) ≤ height)
    (hold : ∀ explored, memo.heightAt? m pc = some explored →
      -(m.wordSlots : Int) ≤ explored) :
    rank memo.policy m.wordSlots (memo.heightAt? m pc)
      < rank memo.policy m.wordSlots (some height) := by
  have hentry := entryAt?_of_stateAt? memo hk
  rcases ha with hnone | ⟨explored, hsome, hlt, hp⟩
  · have hnew : memo.heightAt? m pc = none := by
      unfold heightAt?
      rw [hentry, hnone]
      rfl
    rw [hnew]
    cases memo.policy with
    | firstVisit => exact Nat.zero_lt_one
    | higherHeight =>
        show 0 < (height + m.wordSlots + 1).toNat
        omega
  · have hexplored : memo.heightAt? m pc = some explored :=
      heightAt?_of_entryAt? (hentry.trans hsome)
    have hbound := hold explored hexplored
    rw [hexplored, hp]
    show (explored + m.wordSlots + 1).toNat < (height + m.wordSlots + 1).toNat
    omega

/-- The size of the memo goes up with the number of addresses that have a
height. -/
theorem size_add_rank (hk : m.stateAt? pc = some k)
    (ha : memo.Admits k height) :
    (memo.explore k height).size
      + rank .firstVisit m.wordSlots (memo.heightAt? m pc)
      = memo.size + 1 := by
  have hentry := entryAt?_of_stateAt? memo hk
  rw [size_explore ha]
  unfold heightAt?
  rw [hentry]
  cases memo.get? k with
  | none => rfl
  | some e => rfl

/-- No state is explored more often than its heights allow. -/
theorem total_le (policy : Revisit)
    (hheights : ∀ {pc height}, memo.heightAt? m pc = some height →
      height ≤ 3 * m.wordSlots) :
    memo.total policy m ≤ m.wordSlots * rankLimit m.wordSlots policy := by
  have hterm : ∀ pc ∈ Finset.range m.wordSlots,
      rank policy m.wordSlots (memo.heightAt? m pc)
        ≤ rankLimit m.wordSlots policy := by
    intro pc _
    cases hh : memo.heightAt? m pc with
    | none => exact Nat.zero_le _
    | some height =>
        have hle := hheights hh
        cases policy with
        | firstVisit => exact Nat.le_refl 1
        | higherHeight =>
            show (height + m.wordSlots + 1).toNat ≤ 4 * m.wordSlots + 1
            omega
  have hsum := Finset.sum_le_card_nsmul _ _ _ hterm
  rw [Finset.card_range, smul_eq_mul] at hsum
  exact hsum

end Memo

-- =========================================================== the account

/-- The number of arrivals in a work list. -/
def arrivals : List Task → Nat
  | [] => 0
  | .visit _ _ :: work => arrivals work + 1
  | .leave _ :: work => arrivals work

theorem arrivals_visits (qs : List Point) (work : List Task) :
    arrivals (qs.map (fun q => .visit q.1 q.2) ++ work)
      = qs.length + arrivals work := by
  induction qs with
  | nil => exact (Nat.zero_add _).symm
  | cons q qs ih =>
      show arrivals (qs.map (fun q => .visit q.1 q.2) ++ work) + 1
        = qs.length + 1 + arrivals work
      omega

namespace Session

variable {s t u : Session} {spare pc : Nat} {height : Int} {i : Instruction}
  {task : Task} {rest : List Task}

/-- A walk in which every step taken and every arrival in sight has been paid
for, with some to spare. -/
structure Frugal (m : Image) (c : Config) (spare : Nat) (s : Session) :
    Prop where
  paid : s.steps + arrivals s.work + spare ≤ 1 + 2 * s.memo.total c.revisit m
  counted : s.memo.size = s.memo.total .firstVisit m
  heights : ∀ {pc height}, s.memo.heightAt? m pc = some height →
    -(m.wordSlots : Int) ≤ height ∧ height ≤ 3 * m.wordSlots

/-- An arrival that is taken up has been paid for. -/
theorem Frugal.take (hs : Frugal m c spare s)
    (hw : s.work = .visit pc height :: rest) :
    Frugal m c (spare + 1) { s with work := rest } := by
  obtain ⟨hpaid, hcounted, hheights⟩ := hs
  rw [hw, arrivals] at hpaid
  refine ⟨?_, hcounted, hheights⟩
  show s.steps + arrivals rest + (spare + 1) ≤ 1 + 2 * s.memo.total c.revisit m
  omega

/-- An arrival costs one step. -/
theorem Frugal.step (hs : Frugal m c (spare + 1) s) :
    Frugal m c spare { s with steps := s.steps + 1 } := by
  refine ⟨?_, hs.counted, hs.heights⟩
  have hpaid := hs.paid
  show s.steps + 1 + arrivals s.work + spare ≤ 1 + 2 * s.memo.total c.revisit m
  omega

theorem Frugal.arrive (hs : Frugal m c (spare + 1) s) :
    Frugal m c spare (s.arrive pc height i) :=
  ⟨hs.step.paid, hs.counted, hs.heights⟩

/-- An exploration pays for two more arrivals. -/
theorem Frugal.explore (hs : Frugal m c (spare + 1) s)
    (hp : s.memo.policy = c.revisit) (hd : m.decodeAt pc = .ok i)
    (ha : s.memo.Admits ⟨i, pc + i.width⟩ height)
    (hbounds : -(m.wordSlots : Int) ≤ height ∧ height ≤ 3 * m.wordSlots) :
    Frugal m c (spare + 2) (s.explore pc height i) := by
  have hk := Image.stateAt?_of_decodeAt hd
  have hrank := Memo.rank_lt_of_admits hk ha hbounds.1 fun explored he =>
    (hs.heights he).1
  have htotal := Memo.total_explore c.revisit hk ha
  have hstates := Memo.total_explore .firstVisit hk ha
  have hsize := Memo.size_add_rank hk ha
  rw [hp] at hrank
  obtain ⟨hpaid, hcounted, hheights⟩ := hs
  refine ⟨?_, ?_, ?_⟩
  · show s.steps + 1 + arrivals s.work + (spare + 2)
      ≤ 1 + 2 * (s.memo.explore ⟨i, pc + i.width⟩ height).total c.revisit m
    omega
  · show (s.memo.explore ⟨i, pc + i.width⟩ height).size
      = (s.memo.explore ⟨i, pc + i.width⟩ height).total .firstVisit m
    have hone : rank .firstVisit m.wordSlots (some height) = 1 := rfl
    omega
  · intro pc' height' he
    have hnew := (Memo.heightAt?_explore hk ha pc').symm.trans he
    split at hnew
    · cases hnew
      exact hbounds
    · exact hheights hnew

/-- Entering a state spends what its exploration has paid. -/
theorem Frugal.apply {e : Effect} (hs : Frugal m c 2 s)
    (he : effect m c.returnAddressBytes pc i height = .ok e) :
    Frugal m c 0 (s.apply pc i e) := by
  have hlength := length_successors_le he
  have hpaid := hs.paid
  rw [apply_eq]
  refine ⟨?_, hs.counted, hs.heights⟩
  show s.steps + arrivals
      (e.successors.map (fun a => .visit a.1 a.2)
          ++ .leave ⟨i, pc + i.width⟩ :: s.work) + 0
    ≤ 1 + 2 * s.memo.total c.revisit m
  rw [arrivals_visits, arrivals]
  omega

theorem Frugal.leave (hs : Frugal m c spare s) (k : State)
    (hw : s.work = .leave k :: rest) :
    Frugal m c spare
      { s with
        work := rest, memo := s.memo.leave k, depth := s.depth - 1 } := by
  obtain ⟨hpaid, hcounted, hheights⟩ := hs
  rw [hw, arrivals] at hpaid
  refine ⟨?_, ?_, ?_⟩
  · show s.steps + arrivals rest + spare
      ≤ 1 + 2 * (s.memo.leave k).total c.revisit m
    rw [Memo.total_leave]
    exact hpaid
  · show (s.memo.leave k).size = (s.memo.leave k).total .firstVisit m
    rw [Memo.total_leave, Memo.size_leave]
    exact hcounted
  · intro pc height he
    exact hheights ((Memo.heightAt?_leave s.memo k pc).symm.trans he)

theorem Frugal.note (hs : Frugal m c spare s) (e : Event) :
    Frugal m c spare (s.note e) :=
  ⟨hs.paid, hs.counted, hs.heights⟩

/-- Giving up leaves nothing to pay for. -/
theorem Frugal.giveUp (hs : Frugal m c spare s) (r : Reason) :
    Frugal m c 0 (s.giveUp r) := by
  refine ⟨?_, ?_, ?_⟩
  · rw [work_giveUp, steps_giveUp, memo_giveUp, arrivals]
    have hpaid := hs.paid
    omega
  · rw [memo_giveUp]
    exact hs.counted
  · rw [memo_giveUp]
    exact hs.heights

/-- A task of a walk that goes on keeps the account. -/
theorem Frugal.proceeds {path : List Point} (hs : Frugal m c 0 s)
    (hpath : OnPath m c s path) (hbytes : c.returnAddressBytes ≤ 3)
    (hp : s.memo.policy = c.revisit) (hw : s.work = task :: rest)
    (h : Proceeds m c { s with work := rest } task t) :
    Frugal m c 0 t := by
  cases h with
  | left k => exact hs.leave k hw
  | leftImage => exact ⟨(hs.take hw).step.paid, hs.counted, hs.heights⟩
  | passed => exact (hs.take hw).arrive
  | entered _ hd ha _ he =>
      have hbounds := hpath.height_bounds hbytes (hpath.of_visit hw).1
      exact ((hs.take hw).explore hp hd ha hbounds).apply he

/-- A task that makes a walk give up keeps the account too. -/
theorem Frugal.fails {r : Reason} {path : List Point} (hs : Frugal m c 0 s)
    (hpath : OnPath m c s path) (hbytes : c.returnAddressBytes ≤ 3)
    (hp : s.memo.policy = c.revisit) (hw : s.work = task :: rest)
    (h : Fails m c { s with work := rest } task r u) :
    Frugal m c 0 (u.giveUp r) := by
  cases h with
  | outOfSteps => exact (hs.take hw).giveUp _
  | cycle => exact ((hs.take hw).arrive.note _).giveUp _
  | higher => exact ((hs.take hw).arrive.note _).giveUp _
  | tooDeep _ hd ha =>
      have hbounds := hpath.height_bounds hbytes (hpath.of_visit hw).1
      exact ((hs.take hw).explore hp hd ha hbounds).giveUp _

/-- The account is kept to the end of a walk, whether it gives up or not. -/
theorem Reached.frugal (hs : Reached m c s) (hm : m.size ≤ Image.capacity)
    (hbytes : c.returnAddressBytes ≤ 3) : Frugal m c 0 s := by
  have hlive : ∀ {s : Session}, Reached m c s → s.unbounded = none →
      Frugal m c 0 s := by
    intro s hs hu
    refine hs.invariant (P := Frugal m c 0) ?_ ?_ hu
    · refine ⟨?_, ?_, ?_⟩
      · exact Nat.le_add_right 1 _
      · exact (Memo.total_empty _ _).symm
      · intro pc height he
        exact absurd ((Memo.heightAt?_empty _ pc).symm.trans he) nofun
    · intro s t task rest hs hu hw hfrugal hproceeds
      obtain ⟨path, hpath⟩ := hs.onPath hm hbytes hu
      exact hfrugal.proceeds hpath hbytes hs.coherent.policy hw hproceeds
  cases hu : s.unbounded with
  | none => exact hlive hs hu
  | some r =>
      obtain ⟨s', task, rest, u, hs', hu', hw, hfails, rfl⟩ := hs.fails hu
      obtain ⟨path, hpath⟩ := hs'.onPath hm hbytes hu'
      exact (hlive hs' hu').fails hpath hbytes hs'.coherent.policy hw hfails

/-- A budget of steps runs out only with an arrival in sight. -/
theorem Reached.maxSteps_lt {limit : Nat} (hs : Reached m c s)
    (hm : m.size ≤ Image.capacity) (hbytes : c.returnAddressBytes ≤ 3)
    (hr : s.unbounded = some (.stepBudget limit)) :
    c.maxSteps < 1 + 2 * (m.wordSlots * rankLimit m.wordSlots c.revisit) := by
  obtain ⟨s', task, rest, u, hs', -, hw, hfails, -⟩ := hs.fails hr
  cases hfails with
  | outOfSteps hsteps =>
      have hfrugal := hs'.frugal hm hbytes
      have htotal := Memo.total_le c.revisit fun he => (hfrugal.heights he).2
      have hpaid := (hfrugal.take hw).paid
      have hsteps : c.maxSteps ≤ s'.steps := hsteps
      have hpaid : s'.steps + arrivals rest + (0 + 1)
          ≤ 1 + 2 * s'.memo.total c.revisit m := hpaid
      omega

/-- A budget of depth runs out only on a path shorter than the image. -/
theorem Reached.maxDepth_lt {limit : Nat} (hs : Reached m c s)
    (hm : m.size ≤ Image.capacity) (hbytes : c.returnAddressBytes ≤ 3)
    (hr : s.unbounded = some (.depthBudget limit)) :
    c.maxDepth < m.wordSlots := by
  obtain ⟨s', task, rest, u, hs', hu, hw, hfails, -⟩ := hs.fails hr
  cases hfails with
  | tooDeep _ hd ha hdepth =>
      obtain ⟨path, hpath⟩ := hs'.onPath hm hbytes hu
      have hshort := hpath.length_lt (Image.lt_wordSlots_of_decodeAt hd)
        (hpath.off_of_admits hd ha)
      rw [← hpath.depth] at hshort
      exact Nat.lt_of_le_of_lt hdepth hshort

end Session

-- =========================================================== the report

/-- The number of steps after which a walk has ended by itself. -/
def stepLimit (slots : Nat) : Revisit → Nat
  | .firstVisit => 2 * slots + 1
  | .higherHeight => 1 + 2 * slots * (4 * slots + 1)

theorem stepLimit_eq (slots : Nat) (policy : Revisit) :
    stepLimit slots policy = 1 + 2 * (slots * rankLimit slots policy) := by
  cases policy with
  | firstVisit =>
      show 2 * slots + 1 = 1 + 2 * (slots * 1)
      omega
  | higherHeight =>
      show 1 + 2 * slots * (4 * slots + 1) = 1 + 2 * (slots * (4 * slots + 1))
      rw [Nat.mul_assoc]

/-- Every walk ends within a number of states and steps that depends on the
size of the image only. So budgets that are at least that large are never the
reason to give up. -/
theorem exploration_needs_no_budget {r : Report} (hm : m.size ≤ Image.capacity)
    (hanalyze : (analyze m c).result = .ok r) :
    r.states ≤ m.wordSlots
      ∧ (c.revisit = .firstVisit → r.steps ≤ 2 * r.states + 1)
      ∧ (c.revisit = .higherHeight →
        r.steps ≤ 1 + 2 * m.wordSlots * (4 * m.wordSlots + 1))
      ∧ (m.wordSlots ≤ c.maxDepth →
        stepLimit m.wordSlots c.revisit ≤ c.maxSteps →
          ∀ limit, r.unbounded ≠ some (.stepBudget limit)
            ∧ r.unbounded ≠ some (.depthBudget limit)) := by
  have hbytes := (valid_of_analyze hanalyze).bytes_le
  obtain ⟨s, hs, -, rfl, -⟩ := Session.exists_reached_of_analyze hanalyze
  have hfrugal := hs.frugal hm hbytes
  have htotal := fun policy =>
    Memo.total_le policy fun he => (hfrugal.heights he).2
  have hpaid := hfrugal.paid
  have hcounted : s.report.states = s.memo.total .firstVisit m :=
    hfrugal.counted
  have hsteps : s.report.steps ≤ 1 + 2 * s.memo.total c.revisit m := by
    show s.steps ≤ _
    omega
  refine ⟨?_, ?_, ?_, ?_⟩
  · rw [hcounted]
    exact (htotal .firstVisit).trans_eq (Nat.mul_one _)
  · intro hp
    rw [hp, ← hcounted] at hsteps
    omega
  · intro hp
    have hlimit := stepLimit_eq m.wordSlots .higherHeight
    have hall := htotal .higherHeight
    rw [hp] at hsteps
    rw [stepLimit] at hlimit
    omega
  · intro hdepth hmax limit
    rw [stepLimit_eq] at hmax
    refine ⟨?_, ?_⟩
    · intro hr
      have hlt := hs.maxSteps_lt hm hbytes hr
      omega
    · intro hr
      have hlt := hs.maxDepth_lt hm hbytes hr
      omega

/-- A branch over a push. Its two ways join at the return, the higher one
last. -/
def raisedJoin : Image :=
  .ofWords [0xF009, 0x930F, 0x9508]

theorem exploration_needs_no_budget_raisedJoin :
    (∃ r, (analyze raisedJoin { maxSteps := 79, maxDepth := 3 }).result = .ok r
      ∧ r.states ≤ 3 ∧ r.steps ≤ 79
      ∧ ∀ limit, r.unbounded ≠ some (.stepBudget limit)
      ∧ r.unbounded ≠ some (.depthBudget limit))
    ∧ ∃ r, (analyze raisedJoin
        { maxSteps := 7, maxDepth := 3, revisit := .firstVisit }).result
          = .ok r
      ∧ r.states ≤ 3 ∧ r.steps ≤ 2 * r.states + 1
      ∧ ∀ limit, r.unbounded ≠ some (.stepBudget limit)
          ∧ r.unbounded ≠ some (.depthBudget limit) := by
  have hagain : (analyze raisedJoin { maxSteps := 79, maxDepth := 3 }).result
      = .ok ⟨.bounded 1, 4, 3, [], [], none⟩ := by
    cbv
  have honce : (analyze raisedJoin
        { maxSteps := 7, maxDepth := 3, revisit := .firstVisit }).result
      = .ok ⟨.unbounded, 4, 3, [], [], some (.higherRevisit 2)⟩ := by
    cbv
  obtain ⟨hstates, -, hsteps, hbudgets⟩ :=
    exploration_needs_no_budget (by decide) hagain
  obtain ⟨hstates', hsteps', -, hbudgets'⟩ :=
    exploration_needs_no_budget (by decide) honce
  exact ⟨⟨_, hagain, hstates, hsteps rfl, hbudgets (by decide) (by decide)⟩,
    _, honce, hstates', hsteps' rfl, hbudgets' (by decide) (by decide)⟩

end Stack

end AvrFirmware
