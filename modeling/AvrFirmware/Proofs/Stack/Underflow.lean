/-
Which pops a report lists.

# The first arrival decides

A pop is listed when its state is entered on a stack with nothing on it.
A state is entered at its first arrival, and after that only from higher.
So the first arrival is the lowest one that is ever entered, and a pop is
listed exactly if its first arrival found nothing on the stack
(`Diagnosed.listed`). The log shows every arrival, and with them which one
came first (`firstArrival?`).

# What is missed

A path that comes to the pop later and lower is passed over. Where the
first path has something on the stack and a later one has not, control
does reach the pop with nothing to take, and the report is silent about it
(`lower_path_underflow_missed`). Where no path has anything on the stack at
the pop, it is listed, whatever comes first.
-/
import AvrFirmware.Proofs.Stack.Bound

namespace AvrFirmware

namespace Stack

variable {m : Image} {c : Config} {pc : Nat} {i : Instruction} {height : Int}

/-- Only a pop goes below the start of the stack, and only with nothing on
it. -/
theorem isUnderflow_iff {bytes : Nat} {e : Effect}
    (he : effect m bytes pc i height = .ok e) :
    e.isUnderflow = true ↔ i.flow = .pop ∧ height ≤ 0 := by
  unfold effect at he
  cases hflow : i.flow with
  | pop =>
      rw [hflow] at he
      cases he
      have hbelow : shift height (-1) < 0 ↔ height ≤ 0 := by
        unfold shift heightLimit
        omega
      rw [decide_eq_true_iff, hbelow, and_iff_right rfl]
  | _ =>
      rw [hflow] at he
      dsimp only at he
      repeat' split at he
      all_goals cases he
      all_goals simp

-- ======================================================== first arrivals

/-- The height of an arrival at an address. -/
def Event.arrivalAt? (pc : Nat) : Event → Option Int
  | .arrived _ pc' height _ => if pc = pc' then some height else none
  | _ => none

/-- The height of the first arrival at an address, in a log from the
beginning. -/
def firstArrival? (pc : Nat) (log : List Event) : Option Int :=
  log.findSome? (Event.arrivalAt? pc)

/-- A later event matters only if there was no arrival before it. -/
theorem firstArrival?_cons (pc : Nat) (e : Event) (log : List Event) :
    firstArrival? pc (e :: log).reverse
      = (firstArrival? pc log.reverse).or (e.arrivalAt? pc) := by
  unfold firstArrival?
  rw [List.reverse_cons, List.findSome?_append, List.findSome?_singleton]

namespace Session

variable {s t : Session}

/-- The height of the first arrival of a walk at an address. -/
def firstAt? (s : Session) (pc : Nat) : Option Int :=
  firstArrival? pc s.log.reverse

theorem firstAt?_note {e : Event} (he : e.arrivalAt? pc = none) :
    (s.note e).firstAt? pc = s.firstAt? pc := by
  show firstArrival? pc (e :: s.log).reverse = firstArrival? pc s.log.reverse
  rw [firstArrival?_cons, he, Option.or_none]

theorem firstAt?_arrive (s : Session) (pc pc' : Nat) (height : Int)
    (i : Instruction) :
    (s.arrive pc' height i).firstAt? pc
      = (s.firstAt? pc).or (if pc = pc' then some height else none) :=
  firstArrival?_cons pc _ s.log

/-- The remarks on a state are no arrivals. -/
theorem firstAt?_apply (s : Session) (pc pc' : Nat) (i : Instruction)
    (e : Effect) :
    (s.apply pc' i e).firstAt? pc = s.firstAt? pc := by
  rw [apply_eq]
  show firstArrival? pc (s.remarks pc' i e ++ s.log).reverse
    = firstArrival? pc s.log.reverse
  have hremarks : (s.remarks pc' i e).reverse.findSome? (Event.arrivalAt? pc)
      = none := by
    rw [List.findSome?_eq_none_iff]
    intro x hx
    unfold remarks at hx
    grind [Event.arrivalAt?]
  unfold firstArrival?
  rw [List.reverse_append, List.findSome?_append, hremarks, Option.or_none]

theorem firstAt?_entered (s : Session) (pc pc' : Nat) (height : Int)
    (i : Instruction) (e : Effect) :
    ((s.explore pc' height i).apply pc' i e).firstAt? pc
      = (s.firstAt? pc).or (if pc = pc' then some height else none) :=
  (firstAt?_apply ..).trans (s.firstAt?_arrive pc pc' height i)

/-- Only an arrival can become the first one at its address. -/
theorem Proceeds.firstAt?_cases {task : Task} {first : Int}
    (h : Proceeds m c s task t) (hf : t.firstAt? pc = some first) :
    s.firstAt? pc = some first ∨ task = .visit pc first := by
  have harrived : ∀ {pc' height},
      (s.firstAt? pc).or (if pc = pc' then some height else none)
      = some first →
        s.firstAt? pc = some first
          ∨ Task.visit pc' height = .visit pc first := by
    intro pc' height hor
    rcases Option.or_eq_some_iff.mp hor with hold | ⟨-, hnew⟩
    · exact .inl hold
    · split at hnew
      · next hpc =>
          cases hnew
          exact .inr (by rw [hpc])
      · cases hnew
  cases h with
  | left k => exact .inl hf
  | leftImage => exact .inl ((firstAt?_note rfl).symm.trans hf)
  | passed => exact harrived ((s.firstAt?_arrive ..).symm.trans hf)
  | entered => exact harrived ((s.firstAt?_entered ..).symm.trans hf)

/-- The first arrivals of a walk are places that control reaches. -/
theorem Reached.reachable_of_firstAt? {first : Int} (hs : Reached m c s)
    (hm : m.size ≤ Image.capacity) (hbytes : c.returnAddressBytes ≤ 3)
    (hu : s.unbounded = none) (hf : s.firstAt? pc = some first) :
    Reachable m c (pc, first) := by
  refine hs.invariant
    (P := fun s => s.firstAt? pc = some first → Reachable m c (pc, first))
    nofun ?_ hu hf
  intro s t task rest hs _ hw ih ht hf
  rcases ht.firstAt?_cases hf with hold | rfl
  · exact ih hold
  · exact hs.reachable_of_visit hm hbytes hw

-- ============================================================= diagnosis

/-- Entering a state lists its address if it is a pop with nothing to take. -/
theorem mem_underflows_apply {bytes pc' : Nat} {e : Effect}
    (he : effect m bytes pc i height = .ok e) :
    pc' ∈ (s.apply pc i e).underflows
      ↔ (pc' = pc ∧ i.flow = .pop ∧ height ≤ 0) ∨ pc' ∈ s.underflows := by
  rw [apply_eq, ← isUnderflow_iff he]
  show pc' ∈ (if e.isUnderflow then s.underflows.insert pc else s.underflows)
    ↔ _
  split
  · next hunder =>
      rw [Std.TreeSet.mem_insert, Nat.compare_eq_eq, hunder, and_iff_left rfl,
        eq_comm]
  · next hunder => simp [hunder]

/-- The addresses that were arrived at are those that were explored, never from
below the first arrival. The pops among them are listed by their first
arrival. -/
structure Diagnosed (m : Image) (s : Session) : Prop where
  first_le : ∀ pc, Option.Rel (· ≤ ·) (s.firstAt? pc) (s.memo.heightAt? m pc)
  listed : ∀ {pc i}, m.decodeAt pc = .ok i → i.flow = .pop →
    (pc ∈ s.underflows ↔ ∃ first ≤ 0, s.firstAt? pc = some first)

/-- What neither arrives first, explores nor lists changes nothing. -/
theorem Diagnosed.of_same (hs : Diagnosed m s)
    (hfirst : ∀ pc, t.firstAt? pc = s.firstAt? pc)
    (hheight : ∀ pc, t.memo.heightAt? m pc = s.memo.heightAt? m pc)
    (hunder : t.underflows = s.underflows) : Diagnosed m t := by
  refine ⟨?_, ?_⟩
  · intro pc
    rw [hfirst, hheight]
    exact hs.first_le pc
  · intro pc i hd hpop
    rw [hfirst, hunder]
    exact hs.listed hd hpop

/-- A state that has been explored is not arrived at for the first time. -/
theorem Diagnosed.exists_first {explored : Int} (hs : Diagnosed m s)
    (he : s.memo.heightAt? m pc = some explored) :
    ∃ first, s.firstAt? pc = some first ∧ first ≤ explored := by
  have hrel := hs.first_le pc
  rw [he] at hrel
  generalize s.firstAt? pc = o at hrel ⊢
  cases hrel with
  | some hle => exact ⟨_, rfl, hle⟩

/-- No arrival is explored from below the first one. -/
theorem Diagnosed.first_le_of_admits {first : Int} (hs : Diagnosed m s)
    (hd : m.decodeAt pc = .ok i) (ha : s.memo.Admits ⟨i, pc + i.width⟩ height)
    (hf : s.firstAt? pc = some first) : first ≤ height := by
  have hrel := hs.first_le pc
  rw [hf] at hrel
  cases hh : s.memo.heightAt? m pc with
  | none =>
      rw [hh] at hrel
      cases hrel
  | some explored =>
      have hlt := Memo.lt_of_admits (Image.stateAt?_of_decodeAt hd) ha hh
      rw [hh] at hrel
      cases hrel with
      | some hle => exact Int.le_of_lt (Int.lt_of_le_of_lt hle hlt)

theorem Diagnosed.entered {bytes : Nat} {e : Effect} (hs : Diagnosed m s)
    (hd : m.decodeAt pc = .ok i) (ha : s.memo.Admits ⟨i, pc + i.width⟩ height)
    (he : effect m bytes pc i height = .ok e) :
    Diagnosed m ((s.explore pc height i).apply pc i e) := by
  refine ⟨?_, ?_⟩
  · intro pc'
    rw [firstAt?_entered, apply_eq]
    show Option.Rel _ _
      ((s.memo.explore ⟨i, pc + i.width⟩ height).heightAt? m pc')
    rw [Memo.heightAt?_explore (Image.stateAt?_of_decodeAt hd) ha]
    by_cases hpc : pc' = pc
    · subst hpc
      rw [if_pos rfl, if_pos rfl]
      cases hf : s.firstAt? pc' with
      | none => exact .some (Int.le_refl height)
      | some first => exact .some (hs.first_le_of_admits hd ha hf)
    · rw [if_neg hpc, if_neg hpc, Option.or_none]
      exact hs.first_le pc'
  · intro pc' i' hd' hpop
    rw [firstAt?_entered, mem_underflows_apply he]
    show (pc' = pc ∧ i.flow = .pop ∧ height ≤ 0) ∨ pc' ∈ s.underflows ↔ _
    rw [hs.listed hd' hpop]
    by_cases hpc : pc' = pc
    · subst hpc
      cases hd.symm.trans hd'
      rw [if_pos rfl]
      cases hf : s.firstAt? pc' with
      | none => simp [hpop]
      | some first =>
          -- an exploration from nothing was preceded by an arrival from
          -- nothing
          have hle := hs.first_le_of_admits hd ha hf
          simp only [Option.some_or, Option.some.injEq, exists_eq_right', hpop,
            true_and]
          omega
    · rw [if_neg hpc, Option.or_none]
      simp only [hpc, false_and, false_or]

theorem Diagnosed.proceeds {task : Task} (hs : Diagnosed m s)
    (h : Proceeds m c s task t) :
    Diagnosed m t := by
  cases h with
  | left k =>
      exact hs.of_same (fun _ => rfl) (Memo.heightAt?_leave s.memo k) rfl
  | leftImage =>
      exact hs.of_same (fun _ => firstAt?_note rfl) (fun _ => rfl) rfl
  | @passed pc height i e _ hd he =>
      refine hs.of_same ?_ (fun _ => rfl) rfl
      intro pc'
      rw [firstAt?_arrive]
      by_cases hpc : pc' = pc
      · subst hpc
        obtain ⟨first, hf, -⟩ :=
          hs.exists_first (Memo.heightAt?_of_entryAt? he)
        rw [hf, Option.some_or]
      · rw [if_neg hpc, Option.or_none]
  | entered _ hd ha _ he => exact hs.entered hd ha he

theorem Reached.diagnosed (hs : Reached m c s) (hu : s.unbounded = none) :
    Diagnosed m s := by
  refine hs.invariant (P := Diagnosed m) ?_ ?_ hu
  · refine ⟨?_, ?_⟩
    · intro pc
      rw [show (Session.start c [.started m.size c]).memo.heightAt? m pc
        = none from Memo.heightAt?_empty c.revisit pc]
      exact .none
    · intro pc i _ _
      refine iff_of_false Std.TreeSet.not_mem_emptyc ?_
      rintro ⟨first, -, hf⟩
      cases hf
  · intro s t task rest _ _ _ hs ht
    have hrest : Diagnosed m { s with work := rest } :=
      ⟨hs.first_le, hs.listed⟩
    exact hrest.proceeds ht

end Session

-- ============================================================= the report

/-- Of the pops that control reaches, a bounded report lists those whose first
arrival found nothing on the stack. So it lists every pop that no path reaches
with something on it. -/
theorem underflow_listed_iff_first_arrival {r : Report} {n : Nat} {low : Int}
    (hm : m.size ≤ Image.capacity) (hanalyze : (analyze m c).result = .ok r)
    (hn : r.usage = .bounded n) (hd : m.decodeAt pc = .ok i)
    (hpop : i.flow = .pop) (hreach : Reachable m c (pc, low)) :
    (∃ first, firstArrival? pc (analyze m c).log = some first
      ∧ Reachable m c (pc, first)
      ∧ (pc ∈ r.underflows ↔ first ≤ 0))
      ∧ ((∀ height, Reachable m c (pc, height) → height ≤ 0) →
        pc ∈ r.underflows) := by
  have hbytes := (valid_of_analyze hanalyze).bytes_le
  obtain ⟨s, hs, hw, rfl, hlog⟩ := Session.exists_reached_of_analyze hanalyze
  have hu := (hs.of_bounded hn).1
  have hdiagnosed := hs.diagnosed hu
  have hsettled := (hs.covers hm hbytes hu).settled_of_reachable hw hreach
  obtain ⟨explored, he, -⟩ := hsettled.explored hd
  obtain ⟨first, hf, -⟩ := hdiagnosed.exists_first he
  have hreachable := hs.reachable_of_firstAt? hm hbytes hu hf
  have hlisted : pc ∈ s.report.underflows ↔ first ≤ 0 := by
    show pc ∈ s.underflows.toList ↔ first ≤ 0
    rw [Std.TreeSet.mem_toList, hdiagnosed.listed hd hpop, hf]
    simp
  refine ⟨⟨first, ?_, hreachable, hlisted⟩, ?_⟩
  · rw [hlog, firstArrival?_cons]
    exact (Option.or_none ..).trans hf
  · intro hall
    exact hlisted.mpr (hall first hreachable)

/-- A skip over a push. The pop behind it is met first on the stack without the
push. -/
def skippedPush : Image :=
  .ofWords [0xFC00, 0x920F, 0x900F, 0x9508]

theorem underflow_listed_iff_first_arrival_skippedPush :
    ∃ r, (analyze skippedPush {}).result = .ok r
      ∧ (∃ first, firstArrival? 2 (analyze skippedPush {}).log = some first
        ∧ Reachable skippedPush {} (2, first) ∧ (2 ∈ r.underflows ↔ first ≤ 0))
      ∧ ((∀ height, Reachable skippedPush {} (2, height) → height ≤ 0) →
        2 ∈ r.underflows) := by
  have hreport : (analyze skippedPush {}).result
      = .ok ⟨.bounded 1, 6, 4, [], [2], none⟩ := by
    cbv
  have hskip : skippedPush.decodeAt 0 = .ok (.registerBit .sbrc ⟨0⟩ 0) := by
    cbv
  have hpush : skippedPush.decodeAt 1 = .ok (.push ⟨0⟩) := by
    cbv
  have hpop : skippedPush.decodeAt 2 = .ok (.pop ⟨0⟩) := by
    cbv
  have hstep : FlowStep skippedPush 2 (0, 0) (2, 0) :=
    ⟨_, hskip, .inr (.inr ⟨_, hpush, rfl⟩), rfl⟩
  exact ⟨_, hreport,
    underflow_listed_iff_first_arrival (by decide) hreport rfl hpop rfl
    (Reachable.entry.step hstep)⟩

/-- A branch to a push, and a jump over it. The pop behind it is met first on
the stack with the push. -/
def jumpedPush : Image :=
  .ofWords [0xF009, 0xC001, 0x920F, 0x900F, 0x9508]

/-- A pop can be reached with nothing on the stack and not be listed, because a
path with something on it came first. -/
theorem lower_path_underflow_missed :
    (∃ r, (analyze jumpedPush {}).result = .ok r ∧ r.usage = .bounded 1
      ∧ 3 ∉ r.underflows)
      ∧ (∃ i, jumpedPush.decodeAt 3 = .ok i ∧ i.flow = .pop)
      ∧ Reachable jumpedPush {} (3, 0) := by
  have hreport : (analyze jumpedPush {}).result
      = .ok ⟨.bounded 1, 6, 5, [], [], none⟩ := by
    cbv
  have hbranch : jumpedPush.decodeAt 0 = .ok (.branch .brbs 1 1) := by
    cbv
  have hjump : jumpedPush.decodeAt 1 = .ok (.relative .rjmp 1) := by
    cbv
  have hpop : jumpedPush.decodeAt 3 = .ok (.pop ⟨0⟩) := by
    cbv
  have hnext : FlowStep jumpedPush 2 (0, 0) (1, 0) :=
    ⟨_, hbranch, .inr rfl, rfl⟩
  have hover : FlowStep jumpedPush 2 (1, 0) (3, 0) := ⟨_, hjump, rfl, rfl⟩
  exact ⟨⟨_, hreport, rfl, by decide⟩, ⟨_, hpop, rfl⟩,
    (Reachable.entry.step hnext).step hover⟩

end Stack

end AvrFirmware
