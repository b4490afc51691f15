/-
A bounded verdict is exact.

# Nothing is missed

The memo passes over arrivals, so a walk meets few of the places that a
program can reach. What it does meet covers the rest: every step from an
explored state at its explored height is still in the work list, or it is
settled, that is, it left the image and its height was seen, or its state
has been explored from at least as high (`Covers`). When the work list is
empty, a path of control can be followed step by step through explored
states, each explored from at least as high as the path is there
(`Covers.settled_of_reachable`). It does not matter that the path itself
was never walked, because steps may be moved up.

# Nothing is made up

Every arrival of a walk follows its path, so the peak is zero or the height
of a place that control reaches (`Attained`).
-/
import AvrFirmware.Proofs.Stack.Path

namespace AvrFirmware

namespace Stack

variable {m : Image} {c : Config} {q : Point}

-- ================================================================= peaks

/-- What is observed is within the peak. -/
theorem Peak.le_bytes_observe (p : Peak) (height : Int) :
    height ≤ (p.observe height).bytes := by
  show height ≤ (max p.bytes height.toNat : Nat)
  omega

theorem Peak.bytes_le_observe (p : Peak) (height : Int) :
    p.bytes ≤ (p.observe height).bytes :=
  Nat.le_max_left ..

/-- A peak only rises to a height that is seen. -/
theorem Peak.bytes_observe (p : Peak) (height : Int) :
    (p.observe height).bytes = p.bytes
      ∨ ((p.observe height).bytes : Int) = height := by
  show max p.bytes height.toNat = p.bytes
    ∨ ((max p.bytes height.toNat : Nat) : Int) = height
  omega

namespace Session

variable {s t : Session} {pc : Nat} {height : Int}

-- ============================================================== coverage

/-- An arrival that needs no further exploration: it left the image and its
height was seen, or its state has been explored from at least as high. -/
def Settled (m : Image) (s : Session) (q : Point) : Prop :=
  m.isPastEnd q.1 = true ∧ q.2 ≤ s.peak.bytes
    ∨ ∃ explored, s.memo.heightAt? m q.1 = some explored ∧ q.2 ≤ explored

/-- Inside the image only an exploration settles an arrival. -/
theorem Settled.explored {i : Instruction} (hq : Settled m s q)
    (hd : m.decodeAt q.1 = .ok i) :
    ∃ explored, s.memo.heightAt? m q.1 = some explored ∧ q.2 ≤ explored := by
  rcases hq with ⟨hpast, -⟩ | hexplored
  · exact absurd hpast (Image.not_isPastEnd_of_decodeAt hd)
  · exact hexplored

/-- An arrival that is settled or still to be taken. -/
def Awaited (m : Image) (s : Session) (q : Point) : Prop :=
  .visit q.1 q.2 ∈ s.work ∨ Settled m s q

/-- Nothing that control can do from what has been explored is forgotten. -/
structure Covers (m : Image) (c : Config) (s : Session) : Prop where
  entry : Awaited m s (c.entryPoint, 0)
  steps : ∀ {pc explored q}, s.memo.heightAt? m pc = some explored →
    FlowStep m c.returnAddressBytes (pc, explored) q → Awaited m s q
  seen : ∀ {pc explored}, s.memo.heightAt? m pc = some explored →
    explored ≤ s.peak.bytes

-- ============================================== what a task cannot undo

/-- No work is dropped. -/
theorem Proceeds.work_subset {task : Task} (h : Proceeds m c s task t) :
    s.work ⊆ t.work := by
  intro other hmem
  cases h with
  | entered =>
      rw [apply_eq]
      exact List.mem_append_right _ (List.mem_cons_of_mem _ hmem)
  | _ => exact hmem

/-- The height of every arrival is seen. -/
theorem Proceeds.peak_eq (h : Proceeds m c s (.visit pc height) t) :
    t.peak = s.peak.observe height := by
  cases h with
  | entered => rw [apply_eq]; rfl
  | _ => rfl

/-- The peak does not fall. -/
theorem Proceeds.bytes_le {task : Task} (h : Proceeds m c s task t) :
    s.peak.bytes ≤ t.peak.bytes := by
  cases task with
  | leave k =>
      cases h
      exact Nat.le_refl _
  | visit pc height =>
      rw [h.peak_eq]
      exact s.peak.bytes_le_observe height

/-- Explored heights only rise. -/
theorem Proceeds.height_le {task : Task} {explored : Int}
    (h : Proceeds m c s task t) (he : s.memo.heightAt? m pc = some explored) :
    ∃ explored', t.memo.heightAt? m pc = some explored'
      ∧ explored ≤ explored' := by
  cases h with
  | left k =>
      refine ⟨explored, ?_, Int.le_refl _⟩
      rw [← he]
      exact Memo.heightAt?_leave s.memo k pc
  | @entered pc' height i e _ hd ha _ _ =>
      have hk := Image.stateAt?_of_decodeAt hd
      have hnew := Memo.heightAt?_explore hk ha pc
      rw [apply_eq]
      by_cases hpc : pc = pc'
      · subst hpc
        rw [if_pos rfl] at hnew
        exact ⟨height, hnew, Int.le_of_lt (Memo.lt_of_admits hk ha he)⟩
      · rw [if_neg hpc, he] at hnew
        exact ⟨explored, hnew, Int.le_refl _⟩
  | _ => exact ⟨explored, he, Int.le_refl _⟩

/-- An explored height that was not there before is that of the arrival, and
all the places that its state leads to are in the work list. -/
theorem Proceeds.height_cases {task : Task} {explored : Int}
    (h : Proceeds m c s task t) (he : t.memo.heightAt? m pc = some explored) :
    s.memo.heightAt? m pc = some explored
      ∨ task = .visit pc explored ∧ ∃ i e, m.decodeAt pc = .ok i
        ∧ effect m c.returnAddressBytes pc i explored = .ok e
        ∧ ∀ q ∈ e.successors, .visit q.1 q.2 ∈ t.work := by
  cases h with
  | left k =>
      rw [← he]
      exact .inl (Memo.heightAt?_leave s.memo k pc).symm
  | @entered pc' height i e _ hd ha _ heff =>
      rw [apply_eq] at he ⊢
      have hnew := Memo.heightAt?_explore (Image.stateAt?_of_decodeAt hd) ha pc
      by_cases hpc : pc = pc'
      · subst hpc
        rw [if_pos rfl] at hnew
        cases hnew.symm.trans he
        refine .inr ⟨rfl, i, e, hd, heff, ?_⟩
        intro q hq
        exact List.mem_append_left _
          (List.mem_map_of_mem (f := fun a => Task.visit a.1 a.2) hq)
      · rw [if_neg hpc] at hnew
        exact .inl (hnew.symm.trans he)
  | _ => exact .inl he

/-- An arrival that has been taken is settled. -/
theorem Proceeds.settled (h : Proceeds m c s (.visit pc height) t) :
    Settled m t (pc, height) := by
  cases h with
  | leftImage _ hpast => exact .inl ⟨hpast, s.peak.le_bytes_observe height⟩
  | passed _ _ he hle => exact .inr ⟨_, Memo.heightAt?_of_entryAt? he, hle⟩
  | entered _ hd ha =>
      rw [apply_eq]
      refine .inr ⟨height, ?_, Int.le_refl _⟩
      have hnew := Memo.heightAt?_explore (Image.stateAt?_of_decodeAt hd) ha pc
      rw [if_pos rfl] at hnew
      exact hnew

/-- What is settled stays settled. -/
theorem Settled.proceeds {task : Task} (hq : Settled m s q)
    (h : Proceeds m c s task t) :
    Settled m t q := by
  rcases hq with ⟨hpast, hle⟩ | ⟨explored, he, hle⟩
  · have hbytes := h.bytes_le
    exact .inl ⟨hpast, by omega⟩
  · obtain ⟨explored', he', hle'⟩ := h.height_le he
    exact .inr ⟨explored', he', Int.le_trans hle hle'⟩

/-- An arrival that is awaited stays so until it is taken, and is settled
then. -/
theorem Awaited.proceeds {task : Task} {rest : List Task} (hq : Awaited m s q)
    (hw : s.work = task :: rest)
    (h : Proceeds m c { s with work := rest } task t) :
    Awaited m t q := by
  rcases hq with hmem | hsettled
  · rw [hw] at hmem
    rcases List.mem_cons.mp hmem with rfl | hmem
    · exact .inr h.settled
    · exact .inl (h.work_subset hmem)
  · have hrest : Settled m { s with work := rest } q := hsettled
    exact .inr (hrest.proceeds h)

/-- A task keeps everything covered. -/
theorem Covers.proceeds {task : Task} {rest : List Task} {path : List Point}
    (hs : Covers m c s) (hpath : OnPath m c s path)
    (hm : m.size ≤ Image.capacity) (hbytes : c.returnAddressBytes ≤ 3)
    (hw : s.work = task :: rest)
    (h : Proceeds m c { s with work := rest } task t) :
    Covers m c t := by
  refine ⟨hs.entry.proceeds hw h, ?_, ?_⟩
  · intro pc explored q he hstep
    rcases h.height_cases he with hold | ⟨rfl, i, e, hd, heff, hwork⟩
    · exact (hs.steps hold hstep).proceeds hw h
    · obtain ⟨i', hd', hleads⟩ := hstep
      cases hd.symm.trans hd'
      have hroom := hpath.hasRoom_of_follows hm hbytes (hpath.of_visit hw).1
      exact .inl (hwork q ((mem_successors_iff heff hbytes hroom).mpr hleads))
  · intro pc explored he
    rcases h.height_cases he with hold | ⟨rfl, -⟩
    · have hseen := hs.seen hold
      have hle : s.peak.bytes ≤ t.peak.bytes := h.bytes_le
      omega
    · rw [h.peak_eq]
      exact Peak.le_bytes_observe _ explored

/-- Along a walk that has not given up nothing is forgotten. -/
theorem Reached.covers (hs : Reached m c s) (hm : m.size ≤ Image.capacity)
    (hbytes : c.returnAddressBytes ≤ 3) (hu : s.unbounded = none) :
    Covers m c s := by
  refine hs.invariant (P := Covers m c) ?_ ?_ hu
  · refine ⟨.inl (List.mem_singleton.mpr rfl), ?_, ?_⟩
    · intro pc explored q he
      cases (Memo.heightAt?_empty c.revisit pc).symm.trans he
    · intro pc explored he
      cases (Memo.heightAt?_empty c.revisit pc).symm.trans he
  · intro s t task rest hs hu hw hcovers ht
    obtain ⟨path, hpath⟩ := hs.onPath hm hbytes hu
    exact hcovers.proceeds hpath hm hbytes hw ht

/-- When nothing is left to do, all that control can reach is settled. -/
theorem Covers.settled_of_reachable (hs : Covers m c s) (hw : s.work = [])
    (hq : Reachable m c q) : Settled m s q := by
  have hsettled : ∀ {r}, Awaited m s r → Settled m s r := by
    intro r hr
    rcases hr with hmem | hr
    · rw [hw] at hmem
      cases hmem
    · exact hr
  induction hq with
  | refl => exact hsettled hs.entry
  | @tail p q _ hstep ih =>
      -- the place the step starts from is inside the image, so its state has
      -- been explored
      have ⟨i, hd, _⟩ := hstep
      obtain ⟨explored, he, hle⟩ := ih.explored hd
      have hraised := hstep.raise (explored - p.2)
      unfold Point.raise at hraised
      rw [show p.2 + (explored - p.2) = explored by omega] at hraised
      rcases hsettled (hs.steps he hraised) with ⟨hpast, hseen⟩
          | ⟨explored', he', hle'⟩
      · exact .inl ⟨hpast, by omega⟩
      · exact .inr ⟨explored', he', by omega⟩

/-- The peak is above every settled point. -/
theorem Covers.le_bytes_of_settled (hs : Covers m c s) (hq : Settled m s q) :
    q.2 ≤ s.peak.bytes := by
  rcases hq with ⟨-, hle⟩ | ⟨explored, he, hle⟩
  · exact hle
  · exact Int.le_trans hle (hs.seen he)

-- ============================================================= exactness

/-- The arrivals of a walk are places that control reaches. -/
theorem Reached.reachable_of_visit {rest : List Task} (hs : Reached m c s)
    (hm : m.size ≤ Image.capacity) (hbytes : c.returnAddressBytes ≤ 3)
    (hw : s.work = .visit pc height :: rest) : Reachable m c (pc, height) := by
  obtain ⟨path, hpath⟩ := hs.onPath hm hbytes (hs.unbounded_eq_none hw)
  exact reachable_of_follows hpath.pending.isPath (hpath.of_visit hw).1

/-- The heights of a memo are heights that control reaches its states at. -/
theorem Reached.reachable_of_heightAt? {explored : Int} (hs : Reached m c s)
    (hm : m.size ≤ Image.capacity) (hbytes : c.returnAddressBytes ≤ 3)
    (hu : s.unbounded = none) (he : s.memo.heightAt? m pc = some explored) :
    Reachable m c (pc, explored) := by
  refine hs.invariant
    (P := fun s =>
      s.memo.heightAt? m pc = some explored → Reachable m c (pc, explored))
    ?_ ?_ hu he
  · intro he
    cases (Memo.heightAt?_empty c.revisit pc).symm.trans he
  · intro s t task rest hs _ hw ih ht he
    rcases ht.height_cases he with hold | ⟨rfl, -⟩
    · exact ih hold
    · exact hs.reachable_of_visit hm hbytes hw

/-- The peak is zero or the height of a place that control reaches. -/
def Attained (m : Image) (c : Config) (s : Session) : Prop :=
  s.peak.bytes = 0 ∨ ∃ pc, Reachable m c (pc, (s.peak.bytes : Int))

/-- The peak stays attained along a walk that has not given up. -/
theorem Reached.attained (hs : Reached m c s) (hm : m.size ≤ Image.capacity)
    (hbytes : c.returnAddressBytes ≤ 3) (hu : s.unbounded = none) :
    Attained m c s := by
  refine hs.invariant (P := Attained m c) (.inl rfl) ?_ hu
  intro s t task rest hs _ hw hattained ht
  cases task with
  | leave k =>
      cases ht
      exact hattained
  | visit pc height =>
      unfold Attained
      rw [ht.peak_eq]
      rcases s.peak.bytes_observe height with hsame | hnew
      · rw [hsame]
        exact hattained
      · right
        refine ⟨pc, ?_⟩
        rw [hnew]
        exact hs.reachable_of_visit hm hbytes hw

end Session

-- ============================================================ the verdict

/-- A bounded usage is the greatest height that control reaches: no place is
reached on a higher stack, and some place is reached on this one unless it is
zero. -/
theorem bounded_usage_exact {r : Report} {n : Nat}
    (hm : m.size ≤ Image.capacity) (hanalyze : (analyze m c).result = .ok r)
    (hn : r.usage = .bounded n) :
    (∀ pc height, Reachable m c (pc, height) → height ≤ n)
      ∧ (n = 0 ∨ ∃ pc, Reachable m c (pc, (n : Int)))
      ∧ IsGreatest {height : Int | ∃ pc, Reachable m c (pc, height)} n := by
  obtain ⟨s, hs, hw, rfl, -⟩ := Session.exists_reached_of_analyze hanalyze
  have hbytes := (valid_of_analyze hanalyze).bytes_le
  obtain ⟨hu, hpeak⟩ := hs.of_bounded hn
  have hcovers := hs.covers hm hbytes hu
  have hupper : ∀ pc height, Reachable m c (pc, height) → height ≤ n := by
    intro pc height hreach
    have hle := hcovers.le_bytes_of_settled
      (hcovers.settled_of_reachable hw hreach)
    rw [hpeak] at hle
    exact hle
  have hattained : n = 0 ∨ ∃ pc, Reachable m c (pc, (n : Int)) := by
    have h := hs.attained hm hbytes hu
    unfold Session.Attained at h
    rw [hpeak] at h
    exact h
  refine ⟨hupper, hattained, ?_, ?_⟩
  · rcases hattained with hzero | hreach
    · rw [hzero]
      exact ⟨c.entryPoint, .entry⟩
    · exact hreach
  · rintro height ⟨pc, hreach⟩
    exact hupper pc height hreach

/-- A call of a subroutine that saves a register, with a push after it. The
deepest stack is inside the subroutine. -/
def callingProgram : Image :=
  .ofWords [0x940E, 0x0004, 0x930F, 0x9508, 0x931F, 0x911F, 0x9508]

/-- Three bytes: a return address and a push behind it. -/
theorem bounded_usage_exact_callingProgram :
    (∀ pc height, Reachable callingProgram {} (pc, height) → height ≤ 3)
      ∧ (3 = 0 ∨ ∃ pc, Reachable callingProgram {} (pc, 3))
      ∧ IsGreatest
        {height : Int | ∃ pc, Reachable callingProgram {} (pc, height)} 3 := by
  have hreport : (analyze callingProgram {}).result
      = .ok ⟨.bounded 3, 6, 6, [], [], none⟩ := by
    cbv
  exact bounded_usage_exact (by decide) hreport rfl

end Stack

end AvrFirmware
