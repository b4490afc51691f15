/-
A walk keeps its path in three places.

# Three accounts of one path

The work list has a departure for every state of the path, the memo has a
mark for it, and the depth counts it. Arrivals write the three one after
the other, and departures take them back. `Tracked` says that they agree:
no state is to be left twice, the states to be left are the marked ones,
and the depth is their number.

# What keeps them together

The memo has a marked state explored by no arrival (`not_marked_of_admits`),
so what is entered is new to the path, also when it has been on an earlier
one. A departure stands for a state that is marked once, so its mark, its
place in the work list and its part of the depth go together. Nothing here
asks what the image holds or how large it is.
-/
import AvrFirmware.Proofs.Stack.Budget

namespace AvrFirmware

namespace Stack

variable {m : Image} {c : Config}

-- ============================================================= departures

/-- The states that a work list has to leave, the innermost first. -/
def departures : List Task → List State
  | [] => []
  | .visit _ _ :: work => departures work
  | .leave k :: work => k :: departures work

theorem departures_visits (qs : List Point) (work : List Task) :
    departures (qs.map (fun q => .visit q.1 q.2) ++ work)
      = departures work := by
  induction qs with
  | nil => rfl
  | cons q qs ih => exact ih

namespace Session

variable {s t : Session} {task : Task} {rest : List Task} {pc : Nat}
  {height : Int} {k : State}

-- ============================================================== one task

/-- A session whose work list, memo and depth agree on the path. -/
structure Tracked (s : Session) : Prop where
  distinct : (departures s.work).Nodup
  marked : ∀ k, k ∈ departures s.work ↔ s.memo.Marked k
  depth : s.depth = (departures s.work).length

theorem tracked_start (c : Config) (log : List Event) :
    Tracked (start c log) := by
  refine ⟨List.nodup_nil, ?_, rfl⟩
  intro k
  constructor
  · intro hk
    cases hk
  · intro hk
    exact absurd hk (Memo.not_marked_empty c.revisit k)

/-- An arrival is no departure, so it can be taken up. -/
theorem Tracked.take (h : Tracked s) (hw : s.work = .visit pc height :: rest) :
    Tracked { s with work := rest } := by
  obtain ⟨hdistinct, hmarked, hdepth⟩ := h
  rw [hw] at hdistinct hmarked hdepth
  exact ⟨hdistinct, hmarked, hdepth⟩

/-- The innermost state goes from all three places. -/
theorem Tracked.left (h : Tracked s) (hw : s.work = .leave k :: rest) :
    Tracked
      { s with
        work := rest, memo := s.memo.leave k, depth := s.depth - 1 } := by
  obtain ⟨hdistinct, hmarked, hdepth⟩ := h
  rw [hw] at hdistinct hmarked hdepth
  obtain ⟨hout, hdistinct⟩ := List.nodup_cons.mp hdistinct
  refine ⟨hdistinct, ?_, ?_⟩
  · intro k'
    show k' ∈ departures rest ↔ (s.memo.leave k).Marked k'
    rw [Memo.marked_leave_iff, ← hmarked k', departures, List.mem_cons]
    constructor
    · intro hmem
      have hne : k' ≠ k := by
        intro he
        exact hout (he ▸ hmem)
      exact ⟨hne, .inr hmem⟩
    · intro ⟨hne, hmem⟩
      exact hmem.resolve_left hne
  · show s.depth - 1 = (departures rest).length
    rw [hdepth]
    rfl

/-- A state that is explored comes to all three places. -/
theorem Tracked.entered {i : Instruction} (h : Tracked s)
    (ha : s.memo.Admits ⟨i, pc + i.width⟩ height) (e : Effect) :
    Tracked ((s.explore pc height i).apply pc i e) := by
  obtain ⟨hdistinct, hmarked, hdepth⟩ := h
  have hout : ⟨i, pc + i.width⟩ ∉ departures s.work := by
    rw [hmarked]
    exact Memo.not_marked_of_admits ha
  have hwork : departures ((s.explore pc height i).apply pc i e).work
      = ⟨i, pc + i.width⟩ :: departures s.work := by
    rw [apply_eq]
    exact departures_visits e.successors _
  refine ⟨?_, ?_, ?_⟩
  · rw [hwork]
    exact List.nodup_cons.mpr ⟨hout, hdistinct⟩
  · intro k
    rw [hwork, List.mem_cons, hmarked k, apply_eq]
    exact (Memo.marked_explore_iff ha).symm
  · rw [hwork, apply_eq, List.length_cons, ← hdepth]
    rfl

theorem Tracked.proceeds (h : Tracked s) (hw : s.work = task :: rest)
    (ht : Proceeds m c { s with work := rest } task t) : Tracked t := by
  cases ht with
  | left k => exact h.left hw
  | leftImage =>
      obtain ⟨hdistinct, hmarked, hdepth⟩ := h.take hw
      exact ⟨hdistinct, hmarked, hdepth⟩
  | passed =>
      obtain ⟨hdistinct, hmarked, hdepth⟩ := h.take hw
      exact ⟨hdistinct, hmarked, hdepth⟩
  | entered _ _ ha _ _ => exact (h.take hw).entered ha _

-- ============================================================= all tasks

/-- The three accounts agree for as long as a walk has not given up. -/
theorem Reached.tracked (hs : Reached m c s) (hu : s.unbounded = none) :
    Tracked s := by
  refine hs.invariant (P := Tracked) (tracked_start c _) ?_ hu
  intro s t task rest _ _ hw ih ht
  exact ih.proceeds hw ht

/-- The depth never exceeds its budget. -/
theorem Reached.depth_le (hs : Reached m c s) (hu : s.unbounded = none) :
    s.depth ≤ c.maxDepth := by
  refine hs.invariant (P := fun s => s.depth ≤ c.maxDepth) (Nat.zero_le _) ?_
    hu
  intro s t task rest _ _ _ ih ht
  cases ht with
  | left k => exact Nat.le_trans (Nat.sub_le s.depth 1) ih
  | leftImage => exact ih
  | passed => exact ih
  | entered _ _ _ hdepth =>
      rw [apply_eq]
      exact hdepth

/-- A departure finds a depth that it can be taken off. -/
theorem Tracked.depth_leave (h : Tracked s) (hw : s.work = .leave k :: rest) :
    (({ s with work := rest } : Session).leave k).depth + 1 = s.depth := by
  have hdepth := h.depth
  rw [hw, departures, List.length_cons] at hdepth
  show s.depth - 1 + 1 = s.depth
  omega

/-- Nothing is left of the path when there is nothing left to do. -/
theorem Tracked.of_done (h : Tracked s) (hw : s.work = []) :
    (∀ k, ¬ s.memo.Marked k) ∧ s.depth = 0 := by
  obtain ⟨-, hmarked, hdepth⟩ := h
  rw [hw] at hmarked hdepth
  refine ⟨?_, hdepth⟩
  intro k hk
  cases (hmarked k).mpr hk

end Session

-- ============================================================= the result

/-- The path is tracked exactly. In every session that a walk passes through
before it gives up, the states to be left are different ones, they are those
that the memo has on the path, and the depth is their number, which the budget
bounds. So a departure takes one off a depth that is not zero. When a walk ends
without giving up, no state is on the path and the depth is zero. -/
theorem path_tracked_exactly (m : Image) (c : Config) :
    (∀ s : Session, s.Reached m c → s.unbounded = none →
        (departures s.work).Nodup
          ∧ (∀ k, k ∈ departures s.work
            ↔ ∃ height, s.memo.get? k = some ⟨height, true⟩)
          ∧ s.depth = (departures s.work).length
          ∧ s.depth ≤ c.maxDepth
          ∧ ∀ k rest, s.work = .leave k :: rest →
            (({ s with work := rest } : Session).leave k).depth + 1 = s.depth)
      ∧ ∀ t : Session, (Session.start c [.started m.size c]).run m c = .ok t →
        t.unbounded = none →
        (∀ k e, t.memo.get? k = some e → e.onPath = false) ∧ t.depth = 0 := by
  refine ⟨?_, ?_⟩
  · intro s hs hu
    have htracked := hs.tracked hu
    refine ⟨htracked.distinct, htracked.marked, htracked.depth, hs.depth_le hu,
      ?_⟩
    intro k rest hw
    exact htracked.depth_leave hw
  · intro t hrun hu
    obtain ⟨ht, hw⟩ := Session.reached_of_run .start hrun
    obtain ⟨hclear, hdepth⟩ := (ht.tracked hu).of_done hw
    refine ⟨?_, hdepth⟩
    intro k e he
    cases hon : e.onPath with
    | false => rfl
    | true =>
        refine absurd ⟨e.height, ?_⟩ (hclear k)
        rw [he, ← hon]

/-- The return is on the path a second time, above where it was left, and the
walk comes to its end. -/
theorem path_tracked_exactly_raisedJoin :
    (∃ s : Session, s.Reached raisedJoin {} ∧ s.unbounded = none
      ∧ departures s.work
        = [⟨.bare .ret, 3⟩, ⟨.push (.ofNat 16), 2⟩, ⟨.branch .brbs 1 1, 1⟩]
      ∧ (∃ height, s.memo.get? ⟨.bare .ret, 3⟩ = some ⟨height, true⟩)
      ∧ s.depth = 3)
    ∧ ∃ t : Session,
        (Session.start {} [.started raisedJoin.size {}]).run raisedJoin {}
      = .ok t
      ∧ t.unbounded = none ∧ t.memo.size = 3
      ∧ (∀ k e, t.memo.get? k = some e → e.onPath = false) ∧ t.depth = 0 := by
  obtain ⟨hpassed, hended⟩ := path_tracked_exactly raisedJoin {}
  refine ⟨?_, ?_⟩
  · have hbranch : raisedJoin.decodeAt 0 = .ok (.branch .brbs 1 1) := by cbv
    have hpush : raisedJoin.decodeAt 1 = .ok (.push (.ofNat 16)) := by cbv
    have hret : raisedJoin.decodeAt 2 = .ok (.bare .ret) := by cbv
    -- the branch, the return below, its departure, the push, and the return
    -- above
    have hs := Session.Reached.next (c := {}) .start rfl
      (Session.perform_of_proceeds
      (.entered (by decide) hbranch (.inl rfl) (by decide) rfl))
    have hs := hs.next rfl (Session.perform_of_proceeds
      (.entered (by decide) hret (.inl rfl) (by decide) rfl))
    have hs := hs.next rfl (Session.perform_of_proceeds (.left _))
    have hs := hs.next rfl (Session.perform_of_proceeds
      (.entered (by decide) hpush (.inl rfl) (by decide) rfl))
    have hs := hs.next rfl (Session.perform_of_proceeds
      (.entered (by decide) hret (.inr ⟨0, rfl, by decide, rfl⟩) (by decide)
        rfl))
    obtain ⟨-, hmarked, hdepth, -, -⟩ := hpassed _ hs rfl
    exact ⟨_, hs, rfl, rfl, (hmarked _).mp (.head _), hdepth⟩
  · have hresult : (analyze raisedJoin {}).result
        = .ok ⟨.bounded 1, 4, 3, [], [], none⟩ := by cbv
    rw [Session.result_analyze raisedJoin (by decide)] at hresult
    cases hrun : (Session.start {} [.started raisedJoin.size {}]).run
          raisedJoin {} with
    | error failure =>
        rw [hrun] at hresult
        cases hresult
    | ok t =>
        rw [hrun] at hresult
        have hreport : t.report = ⟨.bounded 1, 4, 3, [], [], none⟩ :=
          Except.ok.inj hresult
        have hu : t.unbounded = none := congrArg Report.unbounded hreport
        exact ⟨t, rfl, hu, congrArg Report.states hreport, hended t hrun hu⟩

end Stack

end AvrFirmware
