/-
The log and the report tell the same story.

# What a line shows

A line of the trace level shows an arrival: its number and its height. A
warning names a gap or an underflow, and one line says that the bound was
given up, with the peak by then. `highest` is the greatest height of the
arrivals that a log shows.

# Line by line

`Told` relates the log of a session to its other fields: the arrivals are
numbered like the steps, the peak is the greatest height shown, and there
is one warning for each gap and each underflow. An arrival is counted,
observed and logged together, whatever becomes of it after that. A warning
is only added for an address that has none yet, and giving up is the last
thing a walk does. So every task keeps the relation, and it holds at the
end.
-/
import AvrFirmware.Proofs.Stack.Consistency

namespace AvrFirmware

namespace Stack

variable {m : Image} {c : Config}

-- ================================================================= lines

namespace Event

/-- The number of the arrival that a line shows. -/
def step? : Event → Option Nat
  | arrived step _ _ _ => some step
  | leftImage step _ _ => some step
  | _ => none

/-- The height of the arrival that a line shows. -/
def height? : Event → Option Int
  | arrived _ _ height _ => some height
  | leftImage _ _ height => some height
  | _ => none

/-- The line says that the bound was given up. -/
def isGaveUp : Event → Bool
  | gaveUp _ _ => true
  | _ => false

/-- Only lines of the trace level show a height. -/
theorem height?_eq_none {e : Event} (h : e.level ≠ .trace) :
    e.height? = none := by
  cases e with
  | arrived | leftImage => exact absurd rfl h
  | _ => rfl

theorem isGaveUp_eq_false {e : Event} (h : e.level ≠ .debug) :
    e.isGaveUp = false := by
  cases e with
  | gaveUp => exact absurd rfl h
  | _ => rfl

/-- A line of another level adds no warning. -/
theorem mem_cons_iff_of_warn {e warning : Event} {log : List Event}
    (hwarning : warning.level = .warn) (he : e.level ≠ .warn) :
    warning ∈ e :: log ↔ warning ∈ log := by
  rw [List.mem_cons, or_iff_right]
  rintro rfl
  exact he hwarning

end Event

/-- The greatest height that a log shows, and at least zero. -/
def highest (log : List Event) : Nat :=
  ((log.filterMap Event.height?).map Int.toNat).foldr max 0

/-- An event with a height can only raise the highest. -/
theorem highest_cons (e : Event) (log : List Event) :
    highest (e :: log) = max ((e.height?.getD 0).toNat) (highest log) := by
  unfold highest
  cases h : e.height? with
  | none =>
      rw [List.filterMap_cons_none h]
      exact (Nat.zero_max _).symm
  | some height =>
      rw [List.filterMap_cons_some h, List.map_cons, List.foldr_cons,
        Option.getD_some]

/-- A line that shows no arrival shows no height. -/
theorem highest_cons_of_none {e : Event} (he : e.height? = none)
    (log : List Event) :
    highest (e :: log) = highest log := by
  rw [highest_cons, he]
  exact Nat.zero_max _

namespace Session

variable {s t : Session} {task : Task} {pc : Nat} {i : Instruction}

-- ============================================================== one task

/-- The log of a session, the latest first, tells its other fields. -/
structure Told (m : Image) (s : Session) : Prop where
  steps : (s.log.filter (·.level = .trace)).map Event.step?
    = (List.range' 1 s.steps).reverse.map some
  peak : highest s.log = s.peak.bytes
  once : (s.log.filter (·.level = .warn)).Nodup
  gap : ∀ pc i, .unresolved pc i ∈ s.log ↔ s.gaps[pc]? = some i
  read : ∀ pc i, s.gaps[pc]? = some i → m.decodeAt pc = .ok i
  underflow : ∀ pc, .underflow pc ∈ s.log ↔ pc ∈ s.underflows
  unbounded : s.log.filter Event.isGaveUp
    = s.unbounded.toList.map (.gaveUp s.peak.bytes)

/-- Work, memo and depth are told nowhere. -/
theorem Told.of_same (h : Told m s) (hlog : t.log = s.log)
    (hsteps : t.steps = s.steps) (hpeak : t.peak = s.peak)
    (hgaps : t.gaps = s.gaps) (hunder : t.underflows = s.underflows)
    (hu : t.unbounded = s.unbounded) : Told m t := by
  obtain ⟨steps, peak, once, gap, read, underflow, unbounded⟩ := h
  constructor
  · rwa [hlog, hsteps]
  · rwa [hlog, hpeak]
  · rwa [hlog]
  · rwa [hlog, hgaps]
  · rwa [hgaps]
  · rwa [hlog, hunder]
  · rwa [hlog, hu, hpeak]

/-- An arrival is counted, observed and logged together. -/
theorem Told.arrival (h : Told m s) (hu : s.unbounded = none) {e : Event}
    {height : Int} (hstep : e.step? = some (s.steps + 1))
    (hheight : e.height? = some height) :
    Told m { s with
      steps := s.steps
        + 1, peak := s.peak.observe height, log := e :: s.log } := by
  have hlevel : e.level = .trace := by
    by_contra hother
    cases (Event.height?_eq_none hother).symm.trans hheight
  have hother : e.level ≠ .warn := by simp [hlevel]
  obtain ⟨hsteps, hpeak, honce, hgap, hread, hunder, hgave⟩ := h
  refine ⟨?_, ?_, ?_, ?_, hread, ?_, ?_⟩
  · show (List.filter _ (e :: s.log)).map Event.step?
      = (List.range' 1 (s.steps + 1)).reverse.map some
    rw [List.filter_cons_of_pos (by simp [hlevel]), List.map_cons, hsteps,
      hstep, List.range'_1_concat, List.reverse_append, Nat.add_comm]
    rfl
  · show highest (e :: s.log) = max s.peak.bytes height.toNat
    rw [highest_cons, hheight, Option.getD_some, hpeak, Nat.max_comm]
  · show (List.filter _ (e :: s.log)).Nodup
    rwa [List.filter_cons_of_neg (by simp [hlevel])]
  · intro pc i
    exact (Event.mem_cons_iff_of_warn rfl hother).trans (hgap pc i)
  · intro pc
    exact (Event.mem_cons_iff_of_warn rfl hother).trans (hunder pc)
  · show List.filter _ (e :: s.log) = s.unbounded.toList.map _
    rw [hu] at hgave ⊢
    rwa [List.filter_cons_of_neg (by simp [Event.isGaveUp_eq_false, hlevel])]

/-- Arriving at an instruction is told. -/
theorem Told.arrive (h : Told m s) (hu : s.unbounded = none) (pc : Nat)
    (height : Int) (i : Instruction) : Told m (s.arrive pc height i) :=
  h.arrival hu rfl rfl

theorem Told.explore (h : Told m s) (hu : s.unbounded = none) (pc : Nat)
    (height : Int) (i : Instruction) : Told m (s.explore pc height i) :=
  (h.arrive hu pc height i).of_same rfl rfl rfl rfl rfl rfl

/-- A line of the debug level that gives nothing up tells nothing. -/
theorem Told.note (h : Told m s) {e : Event} (hlevel : e.level = .debug)
    (hgave : e.isGaveUp = false) : Told m (s.note e) := by
  have hother : e.level ≠ .warn := by simp [hlevel]
  have hheight : e.height? = none := Event.height?_eq_none (by simp [hlevel])
  refine ⟨?_, ?_, ?_, ?_, h.read, ?_, ?_⟩
  · show (List.filter _ (e :: s.log)).map Event.step? = _
    rw [List.filter_cons_of_neg (by simp [hlevel])]
    exact h.steps
  · show highest (e :: s.log) = s.peak.bytes
    rw [highest_cons_of_none hheight, h.peak]
  · show (List.filter _ (e :: s.log)).Nodup
    rw [List.filter_cons_of_neg (by simp [hlevel])]
    exact h.once
  · intro pc i
    exact (Event.mem_cons_iff_of_warn rfl hother).trans (h.gap pc i)
  · intro pc
    exact (Event.mem_cons_iff_of_warn rfl hother).trans (h.underflow pc)
  · show List.filter _ (e :: s.log) = _
    rw [List.filter_cons_of_neg (by simp [hgave])]
    exact h.unbounded

theorem getElem?_insert_gaps (gaps : Std.TreeMap Nat Instruction)
    (pc pc' : Nat) (i : Instruction) :
    (gaps.insert pc i)[pc']? = if pc' = pc then some i else gaps[pc']? := by
  rw [Std.TreeMap.getElem?_insert]
  simp only [Nat.compare_eq_eq, eq_comm (a := pc)]

/-- A gap that is known is read as the same instruction, and one that is new
gets its warning. -/
theorem Told.addGap (h : Told m s) (hd : m.decodeAt pc = .ok i) :
    Told m (s.addGap pc i) := by
  have hread : ∀ pc' j, (s.gaps.insert pc i)[pc']? = some j →
      m.decodeAt pc' = .ok j := by
    intro pc' j hj
    rw [getElem?_insert_gaps] at hj
    split at hj
    · next hpc =>
        cases hj
        rw [hpc, hd]
    · exact h.read pc' j hj
  unfold Session.addGap
  dsimp only
  split
  · next hknown =>
      have hsome := Std.TreeMap.isSome_getElem?_eq_contains.trans hknown
      obtain ⟨j, hj⟩ := Option.isSome_iff_exists.mp hsome
      cases hd.symm.trans (h.read pc j hj)
      refine ⟨h.steps, h.peak, h.once, ?_, hread, h.underflow, h.unbounded⟩
      intro pc' j
      rw [getElem?_insert_gaps]
      split
      · next hpc =>
          rw [hpc, ← hj]
          exact h.gap pc j
      · exact h.gap pc' j
  · next hnew =>
      have hnone : s.gaps[pc]? = none :=
        Std.TreeMap.getElem?_eq_none_of_contains_eq_false
          (Bool.eq_false_iff.mpr hnew)
      refine ⟨h.steps, ?_, ?_, ?_, hread, ?_, h.unbounded⟩
      · exact (highest_cons_of_none rfl _).trans h.peak
      · refine List.nodup_cons.mpr ⟨?_, h.once⟩
        intro hmem
        cases hnone.symm.trans ((h.gap pc i).mp (List.mem_of_mem_filter hmem))
      · intro pc' j
        show .unresolved pc' j ∈ .unresolved pc i :: s.log
          ↔ (s.gaps.insert pc i)[pc']? = some j
        rw [List.mem_cons, h.gap, getElem?_insert_gaps]
        split
        · next hpc => simp [hpc, hnone, eq_comm]
        · next hpc => simp [hpc]
      · intro pc'
        show .underflow pc' ∈ .unresolved pc i :: s.log ↔ pc' ∈ s.underflows
        rw [List.mem_cons, ← h.underflow]
        simp

theorem Told.addUnderflow (h : Told m s) (pc : Nat) :
    Told m (s.addUnderflow pc) := by
  have hinsert : ∀ pc', pc' ∈ s.underflows.insert pc
      ↔ pc' = pc ∨ pc' ∈ s.underflows := by
    intro pc'
    rw [Std.TreeSet.mem_insert, Nat.compare_eq_eq, eq_comm]
  unfold Session.addUnderflow
  dsimp only
  split
  · next hknown =>
      refine ⟨h.steps, h.peak, h.once, h.gap, h.read, ?_, h.unbounded⟩
      intro pc'
      rw [hinsert, ← h.underflow]
      constructor
      · exact .inr
      · rintro (rfl | hmem)
        · exact (h.underflow pc').mpr hknown
        · exact hmem
  · next hnew =>
      refine ⟨h.steps, ?_, ?_, ?_, h.read, ?_, h.unbounded⟩
      · exact (highest_cons_of_none rfl _).trans h.peak
      · refine List.nodup_cons.mpr ⟨?_, h.once⟩
        intro hmem
        exact hnew ((h.underflow pc).mp (List.mem_of_mem_filter hmem))
      · intro pc' j
        show .unresolved pc' j ∈ .underflow pc :: s.log ↔ s.gaps[pc']? = some j
        rw [List.mem_cons, ← h.gap]
        simp
      · intro pc'
        show .underflow pc' ∈ .underflow pc :: s.log
          ↔ pc' ∈ s.underflows.insert pc
        rw [List.mem_cons, hinsert, h.underflow, Event.underflow.injEq]

/-- So is everything an effect adds to the findings. -/
theorem Told.apply (h : Told m s) (hd : m.decodeAt pc = .ok i) (e : Effect) :
    Told m (s.apply pc i e) := by
  have hgap : Told m (if e.isGap then s.addGap pc i else s) := by
    split
    · exact h.addGap hd
    · exact h
  have hunder : Told m (if e.isUnderflow then
      (if e.isGap then s.addGap pc i else s).addUnderflow pc
      else if e.isGap then s.addGap pc i else s) := by
    split
    · exact hgap.addUnderflow pc
    · exact hgap
  exact hunder.of_same rfl rfl rfl rfl rfl rfl

/-- The line that gives up shows the peak by then. -/
theorem Told.giveUp (h : Told m s) (hu : s.unbounded = none) (r : Reason) :
    Told m (s.giveUp r) := by
  have hnone : s.log.filter Event.isGaveUp = [] := by rw [h.unbounded, hu]; rfl
  unfold Session.giveUp
  rw [hu]
  dsimp only
  refine ⟨h.steps, ?_, h.once, ?_, h.read, ?_, ?_⟩
  · exact (highest_cons_of_none rfl _).trans h.peak
  · intro pc i
    exact (Event.mem_cons_iff_of_warn rfl (by simp [Event.level])).trans
      (h.gap pc i)
  · intro pc
    exact (Event.mem_cons_iff_of_warn rfl (by simp [Event.level])).trans
      (h.underflow pc)
  · show Event.gaveUp s.peak.bytes r :: s.log.filter Event.isGaveUp
      = [.gaveUp s.peak.bytes r]
    rw [hnone]

/-- Every step of a walk keeps the log in step with the findings. -/
theorem Told.proceeds (h : Told m s) (hu : s.unbounded = none)
    (ht : Proceeds m c s task t) :
    Told m t := by
  cases ht with
  | left k => exact h.of_same rfl rfl rfl rfl rfl rfl
  | leftImage => exact h.arrival hu rfl rfl
  | passed => exact h.arrive hu _ _ _
  | entered _ hd => exact (h.explore hu _ _ _).apply hd _

/-- So does giving up, which is told last. -/
theorem Told.fails {r : Reason} {u : Session} (h : Told m s)
    (hu : s.unbounded = none) (hf : Fails m c s task r u) :
    Told m (u.giveUp r) := by
  have hsame : u.unbounded = none := hf.same.1.trans hu
  cases hf with
  | outOfSteps => exact h.giveUp hsame _
  | cycle => exact ((h.arrive hu _ _ _).note rfl rfl).giveUp hsame _
  | higher => exact ((h.arrive hu _ _ _).note rfl rfl).giveUp hsame _
  | tooDeep => exact (h.explore hu _ _ _).giveUp hsame _

end Session

-- ============================================================ the report

end Stack

end AvrFirmware
