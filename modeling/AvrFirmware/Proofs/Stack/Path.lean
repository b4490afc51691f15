/-
The path of a walk is a real one.

# Paths

`IsPath` is a path of control from the entry point, innermost place first,
and `Follows` what may come next on it. A place that follows a path is
reachable, comes after every place of the path, and lies at a height that
the length of the path bounds: no rule moves the stack by more than one
byte down or three bytes up.

# The work list holds the path

Between two departures of the work list stand the arrivals that the state
of the second one leads to. `Pending` says so for a work list and the path
that its departures spell. `OnPath` adds that the memo marks exactly the
places of the path, at the heights they were entered at, and that no
address occurs in it twice.

# What follows from it

A path without repetitions is no longer than the image (`length_le`), so no
arrival comes near the limits of a height (`hasRoom_of_follows`), and the
arrivals that a state is put to work with are steps of control. That closes
the circle: `Reached.onPath` keeps the path through every task.
-/
import AvrFirmware.Proofs.Stack.Reached

namespace AvrFirmware

namespace Stack

variable {m : Image} {c : Config} {path : List Point} {p q : Point}

-- ================================================================= paths

/-- What may come next on a path: the entry point, or a step from its innermost
place. -/
def Follows (m : Image) (c : Config) : List Point → Point → Prop
  | [], q => q = (c.entryPoint, 0)
  | p :: _, q => FlowStep m c.returnAddressBytes p q

/-- A path of control from the entry point, the innermost place first. -/
def IsPath (m : Image) (c : Config) : List Point → Prop
  | [] => True
  | q :: path => Follows m c path q ∧ IsPath m c path

theorem reachable_of_follows (hpath : IsPath m c path)
    (hq : Follows m c path q) :
    Reachable m c q := by
  induction path generalizing q with
  | nil =>
      have hentry : q = (c.entryPoint, 0) := hq
      rw [hentry]
      exact .entry
  | cons p path ih =>
      obtain ⟨hp, hpath⟩ := hpath
      exact (ih hpath hp).step hq

theorem IsPath.reachable_of_mem (hpath : IsPath m c path) (hp : p ∈ path) :
    Reachable m c p := by
  induction path with
  | nil => cases hp
  | cons q path ih =>
      obtain ⟨hq, hpath⟩ := hpath
      rcases List.mem_cons.mp hp with rfl | hp
      · exact reachable_of_follows hpath hq
      · exact ih hpath hp

/-- Every place of a path leads to what follows the path. -/
theorem leads_to_of_follows (hpath : IsPath m c path) (hq : Follows m c path q)
    (hp : p ∈ path) :
    Relation.TransGen (FlowStep m c.returnAddressBytes) p q := by
  induction path generalizing q with
  | nil => cases hp
  | cons r path ih =>
      obtain ⟨hr, hpath⟩ := hpath
      rcases List.mem_cons.mp hp with rfl | hp
      · exact .single hq
      · exact (ih hpath hr hp).tail hq

/-- The length of a path bounds the height of what follows it. -/
theorem height_bounds_of_follows (hbytes : c.returnAddressBytes ≤ 3)
    (hpath : IsPath m c path) (hq : Follows m c path q) :
    -(path.length : Int) ≤ q.2 ∧ q.2 ≤ 3 * path.length := by
  induction path generalizing q with
  | nil =>
      have hentry : q = (c.entryPoint, 0) := hq
      rw [hentry]
      simp
  | cons p path ih =>
      obtain ⟨hp, hpath⟩ := hpath
      have hbound := ih hpath hp
      have hstep := FlowStep.height_bounds hbytes hq
      rw [List.length_cons]
      omega

/-- Different addresses inside the image are no more than its words. -/
theorem length_le_wordSlots {pcs : List Nat} (hdistinct : pcs.Nodup)
    (hinside : ∀ pc ∈ pcs, pc < m.wordSlots) : pcs.length ≤ m.wordSlots := by
  have hsub : pcs ⊆ List.range m.wordSlots := by
    intro pc hpc
    exact List.mem_range.mpr (hinside pc hpc)
  have hlen := hdistinct.length_le_of_subset hsub
  rw [List.length_range] at hlen
  exact hlen

/-- Heights that the size of an image bounds are nowhere near the limits of a
height. -/
theorem hasRoom_of_bounds {height : Int} (hm : m.size ≤ Image.capacity)
    (h : -(m.wordSlots : Int) ≤ height ∧ height ≤ 3 * m.wordSlots) :
    HasRoom height := by
  have hslots := Image.wordSlots_le hm
  unfold HasRoom heightLimit
  omega

-- ========================================================= the work list

/-- A work list that stands for a path: its departures are the places of the
path, and every arrival follows the part of the path that is left below it. -/
inductive Pending (m : Image) (c : Config) : List Task → List Point → Prop
  | done : Pending m c [] []
  | visit {work : List Task} {path : List Point} {pc : Nat} {height : Int}
      (hq : Follows m c path (pc, height)) (h : Pending m c work path) :
      Pending m c (.visit pc height :: work) path
  | leave {work : List Task} {path : List Point} {q : Point} {k : State}
      (hq : Follows m c path q) (hk : m.stateAt? q.1 = some k)
      (h : Pending m c work path) :
      Pending m c (.leave k :: work) (q :: path)

theorem Pending.isPath {work : List Task} (h : Pending m c work path) :
    IsPath m c path := by
  induction h with
  | done => trivial
  | visit _ _ ih => exact ih
  | leave hq _ _ ih => exact ⟨hq, ih⟩

/-- Arrivals that follow the path may be put in front. -/
theorem Pending.visits {work : List Task} (h : Pending m c work path)
    (qs : List Point) (hqs : ∀ q ∈ qs, Follows m c path q) :
    Pending m c (qs.map (fun q => .visit q.1 q.2) ++ work) path := by
  induction qs with
  | nil => exact h
  | cons q qs ih =>
      refine .visit (hqs q (List.mem_cons_self ..)) (ih ?_)
      intro r hr
      exact hqs r (List.mem_cons_of_mem q hr)

namespace Session

variable {s t : Session} {pc : Nat} {height : Int} {i : Instruction}

/-- A session in the middle of a walk, and the path it is on. -/
structure OnPath (m : Image) (c : Config) (s : Session) (path : List Point) :
    Prop where
  pending : Pending m c s.work path
  distinct : (path.map Prod.fst).Nodup
  marked : ∀ p : Point, p ∈ path ↔ s.memo.entryAt? m p.1 = some ⟨p.2, true⟩
  depth : s.depth = path.length

theorem OnPath.inside (h : OnPath m c s path) :
    ∀ pc ∈ path.map Prod.fst, pc < m.wordSlots := by
  intro pc hpc
  obtain ⟨p, hp, rfl⟩ := List.mem_map.mp hpc
  exact Memo.lt_wordSlots_of_entryAt? ((h.marked p).mp hp)

/-- The places of the path are reachable. -/
theorem OnPath.reachable_of_mem (h : OnPath m c s path) (hp : p ∈ path) :
    Reachable m c p :=
  h.pending.isPath.reachable_of_mem hp

/-- The path is no longer than the image. -/
theorem OnPath.length_le (h : OnPath m c s path) :
    path.length ≤ m.wordSlots := by
  have hlen := length_le_wordSlots h.distinct h.inside
  rw [List.length_map] at hlen
  exact hlen

/-- While some address of the image is off the path, the path is shorter than
the image. -/
theorem OnPath.length_lt (h : OnPath m c s path) (hpc : pc < m.wordSlots)
    (hoff : pc ∉ path.map Prod.fst) : path.length < m.wordSlots := by
  have hinside : ∀ pc' ∈ pc :: path.map Prod.fst, pc' < m.wordSlots := by
    intro pc' hpc'
    rcases List.mem_cons.mp hpc' with rfl | hpc'
    · exact hpc
    · exact h.inside pc' hpc'
  have hlen := length_le_wordSlots (List.nodup_cons.mpr ⟨hoff, h.distinct⟩)
    hinside
  rw [List.length_cons, List.length_map] at hlen
  exact hlen

/-- The size of the image bounds the height of what follows the path of a
walk. -/
theorem OnPath.height_bounds (h : OnPath m c s path)
    (hbytes : c.returnAddressBytes ≤ 3) (hq : Follows m c path q) :
    -(m.wordSlots : Int) ≤ q.2 ∧ q.2 ≤ 3 * m.wordSlots := by
  have hbound := height_bounds_of_follows hbytes h.pending.isPath hq
  have hlen := h.length_le
  omega

/-- What follows the path of a walk is nowhere near the limits of a height. -/
theorem OnPath.hasRoom_of_follows (h : OnPath m c s path)
    (hm : m.size ≤ Image.capacity) (hbytes : c.returnAddressBytes ≤ 3)
    (hq : Follows m c path q) : HasRoom q.2 :=
  hasRoom_of_bounds hm (h.height_bounds hbytes hq)

-- ======================================================= step by step

/-- An arrival in the work list follows the path, and the rest of the list
stands for it too. -/
theorem OnPath.of_visit {rest : List Task} (h : OnPath m c s path)
    (hw : s.work = .visit pc height :: rest) :
    Follows m c path (pc, height) ∧ Pending m c rest path := by
  have hpending := h.pending
  rw [hw] at hpending
  cases hpending with
  | visit hq hrest => exact ⟨hq, hrest⟩

/-- The memo has no state on the path explored. -/
theorem OnPath.off_of_admits (h : OnPath m c s path)
    (hd : m.decodeAt pc = .ok i)
    (ha : s.memo.Admits ⟨i, pc + i.width⟩ height) :
    pc ∉ path.map Prod.fst := by
  intro hpc
  obtain ⟨p, hp, rfl⟩ := List.mem_map.mp hpc
  have hmark := (h.marked p).mp hp
  rw [Memo.entryAt?_of_stateAt? _ (Image.stateAt?_of_decodeAt hd)] at hmark
  exact Memo.not_marked_of_admits ha ⟨p.2, hmark⟩

/-- A departure takes the innermost place off the path. -/
theorem OnPath.left {k : State} {rest : List Task} (h : OnPath m c s path)
    (hw : s.work = .leave k :: rest) :
    ∃ path', OnPath m c
      { s with work := rest, memo := s.memo.leave k, depth := s.depth - 1 }
      path' := by
  obtain ⟨hpending, hdistinct, hmarked, hdepth⟩ := h
  rw [hw] at hpending
  cases hpending with
  | @leave _ path q _ hq hk hrest =>
      rw [List.map_cons, List.nodup_cons] at hdistinct
      have hmark := (hmarked q).mp (List.mem_cons_self ..)
      refine ⟨path, hrest, hdistinct.2, ?_, ?_⟩
      · intro p
        show p ∈ path ↔ (s.memo.leave k).entryAt? m p.1 = some ⟨p.2, true⟩
        rw [Memo.entryAt?_leave hk]
        by_cases hp : p.1 = q.1
        · -- the place that is left occurs no second time
          rw [if_pos hp, hmark]
          constructor
          · intro hmem
            exact absurd (hp ▸ List.mem_map_of_mem hmem) hdistinct.1
          · intro hno
            simp at hno
        · rw [if_neg hp, ← hmarked p, List.mem_cons]
          constructor
          · exact .inr
          · rintro (rfl | hmem)
            · exact absurd rfl hp
            · exact hmem
      · show s.depth - 1 = path.length
        rw [hdepth]
        rfl

/-- The places an entered state leads to follow the path that it is now on. -/
theorem OnPath.follows_of_mem_successors {e : Effect} (h : OnPath m c s path)
    (hm : m.size ≤ Image.capacity) (hbytes : c.returnAddressBytes ≤ 3)
    (hpc : Follows m c path (pc, height)) (hd : m.decodeAt pc = .ok i)
    (he : effect m c.returnAddressBytes pc i height = .ok e)
    (hq : q ∈ e.successors) :
    Follows m c ((pc, height) :: path) q :=
  ⟨i, hd,
    (mem_successors_iff he hbytes (h.hasRoom_of_follows hm hbytes hpc)).mp hq⟩

/-- An arrival that is explored becomes the innermost place of the path. -/
theorem OnPath.entered {rest : List Task} {e : Effect} (h : OnPath m c s path)
    (hm : m.size ≤ Image.capacity) (hbytes : c.returnAddressBytes ≤ 3)
    (hw : s.work = .visit pc height :: rest) (hd : m.decodeAt pc = .ok i)
    (ha : s.memo.Admits ⟨i, pc + i.width⟩ height)
    (he : effect m c.returnAddressBytes pc i height = .ok e) :
    OnPath m c ((explore { s with work := rest } pc height i).apply pc i e)
      ((pc, height) :: path) := by
  obtain ⟨hpc, hrest⟩ := h.of_visit hw
  have hk := Image.stateAt?_of_decodeAt hd
  have hoff := h.off_of_admits hd ha
  rw [apply_eq]
  refine ⟨?_, ?_, ?_, ?_⟩
  · refine (Pending.leave hpc hk hrest).visits e.successors ?_
    intro q hq
    exact h.follows_of_mem_successors hm hbytes hpc hd he hq
  · rw [List.map_cons, List.nodup_cons]
    exact ⟨hoff, h.distinct⟩
  · intro p
    show p ∈ (pc, height) :: path ↔
      (s.memo.explore ⟨i, pc + i.width⟩ height).entryAt? m p.1
        = some ⟨p.2, true⟩
    rw [Memo.entryAt?_explore hk ha, List.mem_cons]
    by_cases hp : p.1 = pc
    · have hno : p ∉ path := fun hmem => hoff (hp ▸ List.mem_map_of_mem hmem)
      rw [if_pos hp]
      simp [hno, Prod.ext_iff, hp, eq_comm]
    · rw [if_neg hp, ← h.marked p]
      constructor
      · rintro (rfl | hmem)
        · exact absurd rfl hp
        · exact hmem
      · exact .inr
  · show s.depth + 1 = path.length + 1
    rw [h.depth]

/-- A walk that has not given up is on a path, whatever it has passed
through. -/
theorem Reached.onPath (hs : Reached m c s) (hm : m.size ≤ Image.capacity)
    (hbytes : c.returnAddressBytes ≤ 3) (hu : s.unbounded = none) :
    ∃ path, OnPath m c s path := by
  refine hs.invariant (P := fun s => ∃ path, OnPath m c s path) ?_ ?_ hu
  · refine ⟨[], .visit rfl .done, List.nodup_nil, ?_, rfl⟩
    intro p
    show p ∈ []
      ↔ ({ policy := c.revisit } : Memo).entryAt? m p.1 = some ⟨p.2, true⟩
    rw [Memo.entryAt?_empty]
    simp
  · intro s t task rest _ _ hw ⟨path, hpath⟩ ht
    cases ht with
    | left k => exact hpath.left hw
    | leftImage =>
        have hrest := (hpath.of_visit hw).2
        exact ⟨path, hrest, hpath.distinct, hpath.marked, hpath.depth⟩
    | passed =>
        have hrest := (hpath.of_visit hw).2
        exact ⟨path, hrest, hpath.distinct, hpath.marked, hpath.depth⟩
    | entered _ hd ha _ he => exact ⟨_, hpath.entered hm hbytes hw hd ha he⟩

end Session

end Stack

end AvrFirmware
