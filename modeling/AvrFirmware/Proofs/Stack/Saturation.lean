/-
Heights stay away from their limits.

# Arrivals

An arrival anywhere in the work list follows a part of the path, whose
places are different addresses of the image (`Pending.exists_follows`). So
the number of words bounds its height from both sides
(`Reached.height_of_visit`), and thirty-two bits are far more than it takes:
every shift of such a height is a sum.

# Entries

What a memo remembers is a state of the image (`Reached.located`), because
a task only ever records the state it has read (`Takes.memo_cases`). The
account of the walk has the heights of all states of the image, so every
entry lies in the same range.

# Addresses

A state is read inside the image, so the addresses behind it, and behind
what a skip leaves out, are a few words past its end at most.
-/
import AvrFirmware.Proofs.Stack.Budget

namespace AvrFirmware

namespace Stack

variable {m : Image} {c : Config} {path : List Point} {pc : Nat} {height : Int}

-- =============================================================== arrivals

/-- An arrival in a work list follows a path no longer than that of the
list. -/
theorem Pending.exists_follows {work : List Task} (h : Pending m c work path)
    (hmem : .visit pc height ∈ work) :
    ∃ below, below.length ≤ path.length ∧ IsPath m c below
      ∧ Follows m c below (pc, height) := by
  induction h with
  | done => cases hmem
  | @visit work path pc' height' hq hrest ih =>
      rcases List.mem_cons.mp hmem with heq | hmem
      · cases heq
        exact ⟨path, Nat.le_refl _, hrest.isPath, hq⟩
      · exact ih hmem
  | @leave work path q k hq hk hrest ih =>
      rcases List.mem_cons.mp hmem with heq | hmem
      · cases heq
      · obtain ⟨below, hlength, hpath, hfollows⟩ := ih hmem
        exact ⟨below, Nat.le_succ_of_le hlength, hpath, hfollows⟩

namespace Session

variable {s : Session}

/-- The size of the image bounds the height of every arrival in sight. -/
theorem Reached.height_of_visit (hs : Reached m c s)
    (hm : m.size ≤ Image.capacity) (hbytes : c.returnAddressBytes ≤ 3)
    (hmem : .visit pc height ∈ s.work) :
    -(m.wordSlots : Int) ≤ height ∧ height ≤ 3 * m.wordSlots := by
  rcases hs.coherent.stopped with hu | hnil
  · obtain ⟨path, hpath⟩ := hs.onPath hm hbytes hu
    obtain ⟨below, hshort, hbelow, hfollows⟩ :=
      hpath.pending.exists_follows hmem
    have hbound := height_bounds_of_follows hbytes hbelow hfollows
    have hlength := hpath.length_le
    omega
  · rw [hnil] at hmem
    cases hmem

end Session

-- ================================================================ entries

/-- A memo that remembers states of an image only. -/
def Memo.Located (m : Image) (memo : Memo) : Prop :=
  ∀ k e, memo.get? k = some e → ∃ pc, m.stateAt? pc = some k

namespace Memo

variable {memo : Memo} {k : State}

theorem located_empty (policy : Revisit) : Located m { policy := policy } := by
  intro k e he
  rw [get?_empty] at he
  cases he

theorem Located.put (h : Located m memo) (hk : m.stateAt? pc = some k)
    (e : Entry) :
    Located m (memo.put k e) := by
  intro k' e' he'
  rw [get?_put] at he'
  split at he'
  · next hsame =>
      rw [hsame]
      exact ⟨pc, hk⟩
  · exact h k' e' he'

/-- A departure marks a state that is remembered already. -/
theorem Located.leave (h : Located m memo) (k : State) :
    Located m (memo.leave k) := by
  unfold Memo.leave
  split
  · exact h
  · next e he =>
      obtain ⟨pc, hk⟩ := h k e he
      exact h.put hk _

theorem Located.explore (h : Located m memo) (hk : m.stateAt? pc = some k)
    (ha : memo.Admits k height) : Located m (memo.explore k height) := by
  rw [explore_eq ha]
  exact h.put hk _

end Memo

namespace Session

variable {s t : Session} {task : Task}

/-- A task leaves the memo alone, takes a state off the path, or explores the
state it has read. -/
theorem Takes.memo_cases (h : Takes m c s task t) :
    t.memo = s.memo ∨ (∃ k, t.memo = s.memo.leave k)
      ∨ ∃ pc k height, m.stateAt? pc = some k ∧ s.memo.Admits k height
        ∧ t.memo = s.memo.explore k height := by
  cases h with
  | proceeds h =>
      cases h with
      | left k => exact .inr (.inl ⟨k, rfl⟩)
      | leftImage | passed => exact .inl rfl
      | entered _ hd ha =>
          rw [apply_eq]
          exact .inr (.inr ⟨_, _, _, Image.stateAt?_of_decodeAt hd, ha, rfl⟩)
  | givesUp h =>
      rw [memo_giveUp]
      cases h with
      | outOfSteps | cycle | higher => exact .inl rfl
      | tooDeep _ hd ha =>
          exact .inr (.inr ⟨_, _, _, Image.stateAt?_of_decodeAt hd, ha, rfl⟩)

/-- Whatever a walk remembers is a state of the image. -/
theorem Reached.located (hs : Reached m c s) : s.memo.Located m := by
  induction hs with
  | start => exact Memo.located_empty c.revisit
  | @next s t task rest hs hw ht ih =>
      have hs' : Memo.Located m ({ s with work := rest } : Session).memo := ih
      rcases (takes_of_perform ht).memo_cases with hsame | ⟨k, hleft⟩
          | ⟨pc, k, height, hk, ha, hnew⟩
      · rw [hsame]
        exact hs'
      · rw [hleft]
        exact hs'.leave k
      · rw [hnew]
        exact hs'.explore hk ha

/-- The size of the image bounds the height of every entry. -/
theorem Reached.height_of_entry {k : State} {e : Entry} (hs : Reached m c s)
    (hm : m.size ≤ Image.capacity) (hbytes : c.returnAddressBytes ≤ 3)
    (he : s.memo.get? k = some e) :
    -(m.wordSlots : Int) ≤ e.height ∧ e.height ≤ 3 * m.wordSlots := by
  obtain ⟨pc, hk⟩ := hs.located k e he
  rw [← Memo.entryAt?_of_stateAt? s.memo hk] at he
  exact (hs.frugal hm hbytes).heights (Memo.heightAt?_of_entryAt? he)

end Session

-- ============================================================== addresses

theorem skippedWidth_le {next width : Nat}
    (h : skippedWidth m next = .ok width) : width ≤ 2 := by
  unfold skippedWidth at h
  split at h
  · cases h
    decide
  · split at h
    · next i hi =>
        cases h
        exact i.width_le_two
    · cases h

/-- The address behind an instruction is one that a program counter can
hold. -/
theorem next_lt_addressLimit {i : Instruction} (hm : m.size ≤ Image.capacity)
    (hd : m.decodeAt pc = .ok i) : pc + i.width + 2 < Target.addressLimit := by
  have hslots := Image.wordSlots_le hm
  have hpc := Image.lt_wordSlots_of_decodeAt hd
  have hwidth := i.width_le_two
  unfold Target.addressLimit
  omega

-- ============================================================= the result

/-- Heights never come to their limits. In every session that a walk passes
through, the arrivals in sight and the entries of the memo have heights between
minus the number of words of the image and three times that number. So an
arrival is taken with exact sums only: no shift of its height is cut off, the
addresses behind its instruction and behind what that one skips can be held by
a program counter, and the arrivals that it leads to are the steps that control
takes with integers for heights. -/
theorem heights_never_saturate {s : Session} (hm : m.size ≤ Image.capacity)
    (hc : c.Valid) (hs : s.Reached m c) :
    (∀ pc height, .visit pc height ∈ s.work →
        (-(m.wordSlots : Int) ≤ height ∧ height ≤ 3 * m.wordSlots)
          ∧ (∀ delta ∈ [(c.returnAddressBytes : Int), 1, -1, 2],
            shift height delta = height + delta)
          ∧ ∀ i, m.decodeAt pc = .ok i →
            pc + i.width < Target.addressLimit
              ∧ (∀ skipped, skippedWidth m (pc + i.width) = .ok skipped →
                pc + i.width + skipped < Target.addressLimit)
              ∧ ∀ e, effect m c.returnAddressBytes pc i height = .ok e →
                ∀ q, q ∈ e.successors
                  ↔ FlowStep m c.returnAddressBytes (pc, height) q)
      ∧ ∀ k e, s.memo.get? k = some e →
        -(m.wordSlots : Int) ≤ e.height ∧ e.height ≤ 3 * m.wordSlots := by
  have hbytes := hc.bytes_le
  refine ⟨?_, fun k e => hs.height_of_entry hm hbytes⟩
  intro pc height hmem
  have hbounds := hs.height_of_visit hm hbytes hmem
  have hroom := hasRoom_of_bounds hm hbounds
  refine ⟨hbounds, ?_, ?_⟩
  · intro delta hdelta
    simp only [List.mem_cons, List.not_mem_nil, or_false] at hdelta
    exact hroom.shift_eq (by omega) (by omega)
  · intro i hd
    have hnext := next_lt_addressLimit hm hd
    refine ⟨by omega, ?_, ?_⟩
    · intro skipped hskipped
      have hwidth := skippedWidth_le hskipped
      omega
    · intro e he q
      rw [mem_successors_iff he hbytes hroom]
      constructor
      · intro hleads
        exact ⟨i, hd, hleads⟩
      · intro ⟨i', hd', hleads⟩
        cases hd.symm.trans hd'
        exact hleads

/-- A valid walk takes its first instruction, and then has in sight what that
one leads to. -/
theorem Session.exists_reached_of_effect {i : Instruction} {e : Effect}
    (hc : c.Valid) (hd : m.decodeAt c.entryPoint = .ok i)
    (he : effect m c.returnAddressBytes c.entryPoint i 0 = .ok e) :
    ∃ s : Session, s.Reached m c
      ∧ ∀ q ∈ e.successors, .visit q.1 q.2 ∈ s.work := by
  obtain ⟨-, hsteps, hdepth⟩ := hc
  have hs := Reached.next .start rfl
    (perform_of_proceeds
      (.entered hsteps hd (.inl (Memo.get?_empty c.revisit _)) hdepth he))
  refine ⟨_, hs, ?_⟩
  intro q hq
  rw [apply_eq]
  exact List.mem_append_left _ (List.mem_map_of_mem hq)

/-- A call of the address it stands at. -/
def callingItself : Image :=
  .ofWords [0x940E, 0x0000]

theorem heights_never_saturate_callingItself :
    ∃ s : Session, s.Reached callingItself { returnAddressBytes := 3 }
      ∧ .visit 0 3 ∈ s.work
      ∧ (-2 ≤ (3 : Int) ∧ (3 : Int) ≤ 6) ∧ shift 3 3 = 6 := by
  have hd : callingItself.decodeAt 0 = .ok (.absolute .call 0) := by cbv
  have he : effect callingItself 3 0 (.absolute .call 0) 0
      = .ok { successors := [(2, 0), (0, 3)] } :=
    rfl
  obtain ⟨s, hs, hwork⟩ := Session.exists_reached_of_effect
    (show Config.Valid { returnAddressBytes := 3 } by decide) hd he
  have hmem : .visit 0 3 ∈ s.work := hwork (0, 3) (by simp)
  obtain ⟨hbounds, hshift, -⟩ :=
    (heights_never_saturate (by decide) (by decide) hs).1 0 3 hmem
  exact ⟨s, hs, hmem, hbounds, hshift 3 (.head _)⟩

end Stack

end AvrFirmware
