/-
The memo, read by address.

# One state an address

The walk asks the memo about an instruction and the address behind it.
In one image the address of the instruction says both, and no two
addresses share a state (`stateAt?_inj`). So the memo is read as a
partial function from addresses to entries, `Memo.entryAt?`, and the laws
here say how an arrival and a departure change it at one address and
nowhere else.

# Arrivals

`Memo.Admits` says when an arrival is explored: the state is new, or it
lies off the path, was explored from lower, and the policy has it explored
again. The `record_of_` lemmas go through the answers of `Memo.record` by
what was remembered before, and `explore_eq` has all that an exploration
changes.

# Marks

`Memo.Marked` holds of the states on the path. An exploration adds one and
a departure takes one back, and no marked state is explored.
-/
import AvrFirmware.Proofs.Stack.Flow
import AvrFirmware.Stack.Memo

namespace AvrFirmware

open Stack (State Entry Memo)

namespace Image

/-- The state at an address, if an instruction can be read there. -/
def stateAt? (m : Image) (pc : Nat) : Option State :=
  match m.decodeAt pc with
  | .ok i => some ⟨i, pc + i.width⟩
  | .error _ => none

/-- An address with an instruction has a state. -/
theorem stateAt?_of_decodeAt {m : Image} {pc : Nat} {i : Instruction}
    (h : m.decodeAt pc = .ok i) : m.stateAt? pc = some ⟨i, pc + i.width⟩ := by
  unfold stateAt?
  rw [h]

/-- A state is only found where its instruction is read. -/
theorem decodeAt_of_stateAt? {m : Image} {pc : Nat} {k : State}
    (h : m.stateAt? pc = some k) :
    m.decodeAt pc = .ok k.instruction ∧ k.next = pc + k.instruction.width := by
  unfold stateAt? at h
  split at h
  · next i hd =>
      cases h
      exact ⟨hd, rfl⟩
  · cases h

/-- No two addresses share a state. -/
theorem stateAt?_inj {m : Image} {pc pc' : Nat} {k : State}
    (h : m.stateAt? pc = some k) (h' : m.stateAt? pc' = some k) :
    pc = pc' := by
  have hnext := (decodeAt_of_stateAt? h).2
  have hnext' := (decodeAt_of_stateAt? h').2
  omega

end Image

namespace Stack

namespace Memo

variable {m : Image} {memo : Memo} {pc : Nat} {k : State} {height : Int}

-- ============================================================= the view

/-- What is remembered of the state at an address. -/
def entryAt? (memo : Memo) (m : Image) (pc : Nat) : Option Entry :=
  (m.stateAt? pc).bind memo.get?

/-- The entry of an address is the one of its state. -/
theorem entryAt?_of_stateAt? (memo : Memo) (h : m.stateAt? pc = some k) :
    memo.entryAt? m pc = memo.get? k := by
  unfold entryAt?
  rw [h]
  rfl

/-- Only addresses inside the image are remembered. -/
theorem lt_wordSlots_of_entryAt? {e : Entry}
    (h : memo.entryAt? m pc = some e) :
    pc < m.wordSlots := by
  unfold entryAt? at h
  obtain ⟨k, hk, -⟩ := Option.bind_eq_some_iff.mp h
  exact Image.lt_wordSlots_of_decodeAt (Image.decodeAt_of_stateAt? hk).1

/-- Nothing is remembered to begin with. -/
theorem get?_empty (policy : Revisit) (k : State) :
    ({ policy := policy } : Memo).get? k = none := by
  unfold get?
  simp

theorem entryAt?_empty (policy : Revisit) (pc : Nat) :
    ({ policy := policy } : Memo).entryAt? m pc = none := by
  unfold entryAt?
  cases m.stateAt? pc with
  | none => rfl
  | some k => exact get?_empty policy k

/-- A change to what is remembered of one state shows at its address alone. -/
theorem entryAt?_of_get? {memo' : Memo} {entry : Option Entry}
    (h : m.stateAt? pc = some k)
    (hget : ∀ k', memo'.get? k' = if k' = k then entry else memo.get? k')
    (pc' : Nat) :
    memo'.entryAt? m pc'
      = if pc' = pc then entry else memo.entryAt? m pc' := by
  by_cases hpc : pc' = pc
  · subst hpc
    rw [entryAt?_of_stateAt? _ h, hget, if_pos rfl, if_pos rfl]
  · rw [if_neg hpc]
    unfold entryAt?
    cases hk' : m.stateAt? pc' with
    | none => rfl
    | some k' =>
        have hne : k' ≠ k := by
          intro he
          subst he
          exact hpc (Image.stateAt?_inj hk' h)
        show memo'.get? k' = memo.get? k'
        rw [hget, if_neg hne]

-- =========================================================== departures

/-- A departure takes a state off the path and keeps its height. -/
theorem get?_leave (memo : Memo) (k k' : State) :
    (memo.leave k).get? k' =
      if k' = k then (memo.get? k).map fun e => { e with onPath := false }
      else memo.get? k' := by
  unfold leave
  cases hk : memo.get? k with
  | none =>
      by_cases he : k' = k
      · rw [if_pos he, he, hk]
        rfl
      · rw [if_neg he]
  | some e => exact get?_put memo k k' _

/-- Leaving a state clears the mark of its own address only. -/
theorem entryAt?_leave (h : m.stateAt? pc = some k) (pc' : Nat) :
    (memo.leave k).entryAt? m pc' =
      if pc' = pc then
        (memo.entryAt? m pc).map fun e => { e with onPath := false }
      else memo.entryAt? m pc' := by
  rw [entryAt?_of_stateAt? memo h]
  exact entryAt?_of_get? h (get?_leave memo k) pc'

@[simp]
theorem policy_leave (memo : Memo) (k : State) :
    (memo.leave k).policy = memo.policy := by
  unfold leave
  split <;> rfl

@[simp]
theorem size_leave (memo : Memo) (k : State) :
    (memo.leave k).size = memo.size := by
  unfold leave
  split <;> rfl

-- ============================================================= arrivals

/-- A state without an entry is answered as a first visit. -/
theorem record_of_new (h : memo.get? k = none) :
    (memo.record k height).1 = .first := by
  unfold record
  rw [h]

/-- An arrival from no higher than the state was explored at adds nothing. -/
theorem record_of_le {e : Entry} (h : memo.get? k = some e)
    (hle : height ≤ e.height) :
    memo.record k height = (.revisit, memo) := by
  unfold record
  rw [h]
  dsimp only
  cases e.onPath with
  | true => rw [if_pos rfl, if_neg (Int.not_lt.mpr hle)]
  | false => rw [if_neg Bool.false_ne_true, if_pos hle]

/-- A higher arrival at a state on the path closes a growing cycle. -/
theorem record_of_onPath {entered : Int}
    (h : memo.get? k = some ⟨entered, true⟩) (hlt : entered < height) :
    memo.record k height = (.growingCycle entered height, memo) := by
  unfold record
  rw [h]
  dsimp only
  rw [if_pos rfl, if_pos hlt]

/-- A higher arrival at a state off the path, where each state is explored
once. -/
theorem record_of_firstVisit {explored : Int}
    (h : memo.get? k = some ⟨explored, false⟩) (hlt : explored < height)
    (hp : memo.policy = .firstVisit) :
    memo.record k height = (.higher explored height, memo) := by
  unfold record
  rw [h]
  dsimp only
  rw [if_neg Bool.false_ne_true, if_neg (by omega), hp]

/-- A higher arrival at a state off the path, where states are explored
again. -/
theorem record_of_higherHeight {explored : Int}
    (h : memo.get? k = some ⟨explored, false⟩) (hlt : explored < height)
    (hp : memo.policy = .higherHeight) :
    memo.record k height = (.raised explored, memo.put k ⟨height, true⟩) := by
  unfold record
  rw [h]
  dsimp only
  rw [if_neg Bool.false_ne_true, if_neg (by omega), hp]

/-- The memo has an arrival explored. -/
def Admits (memo : Memo) (k : State) (height : Int) : Prop :=
  memo.get? k = none ∨
    ∃ explored, memo.get? k = some ⟨explored, false⟩ ∧ explored < height
      ∧ memo.policy = .higherHeight

/-- Every arrival is explored, passed over, or met above the height that is
remembered. -/
theorem arrival_cases (memo : Memo) (k : State) (height : Int) :
    memo.Admits k height
      ∨ (∃ e, memo.get? k = some e ∧ height ≤ e.height)
      ∨ (∃ entered, memo.get? k = some ⟨entered, true⟩ ∧ entered < height)
      ∨ ∃ explored, memo.get? k = some ⟨explored, false⟩ ∧ explored < height
        ∧ memo.policy = .firstVisit := by
  cases hget : memo.get? k with
  | none => exact .inl (.inl hget)
  | some e =>
      obtain ⟨explored, onPath⟩ := e
      rcases Int.lt_or_le explored height with hlt | hle
      · cases onPath with
        | true => exact .inr (.inr (.inl ⟨explored, rfl, hlt⟩))
        | false =>
            cases hp : memo.policy with
            | firstVisit => exact .inr (.inr (.inr ⟨explored, rfl, hlt, rfl⟩))
            | higherHeight => exact .inl (.inr ⟨explored, hget, hlt, hp⟩)
      · exact .inr (.inl ⟨⟨explored, onPath⟩, rfl, hle⟩)

/-- The memo after an arrival that is explored. -/
def explore (memo : Memo) (k : State) (height : Int) : Memo :=
  (memo.record k height).2

/-- All that an exploration changes: the state has a new entry, and counts
where it had none. -/
theorem explore_eq (ha : memo.Admits k height) :
    memo.explore k height =
      { memo.put k ⟨height, true⟩ with
        size := memo.size + if memo.get? k = none then 1 else 0 } := by
  unfold explore
  rcases ha with hnone | ⟨explored, hsome, hlt, hp⟩
  · unfold record
    rw [hnone, if_pos rfl]
  · rw [record_of_higherHeight hsome hlt hp, hsome,
      if_neg (Option.some_ne_none _)]
    rfl

/-- An exploration puts the state on the path at its new height and changes
nothing else. -/
theorem get?_explore (ha : memo.Admits k height) (k' : State) :
    (memo.explore k height).get? k'
      = if k' = k then some ⟨height, true⟩ else memo.get? k' := by
  rw [explore_eq ha]
  exact get?_put memo k k' ⟨height, true⟩

/-- Exploring marks the address, at the height it was reached with. -/
theorem entryAt?_explore (h : m.stateAt? pc = some k)
    (ha : memo.Admits k height) (pc' : Nat) :
    (memo.explore k height).entryAt? m pc' =
      if pc' = pc then some ⟨height, true⟩ else memo.entryAt? m pc' :=
  entryAt?_of_get? h (get?_explore ha) pc'

theorem policy_explore (ha : memo.Admits k height) :
    (memo.explore k height).policy = memo.policy := by
  rw [explore_eq ha]
  rfl

/-- The size counts the states that were explored for the first time. -/
theorem size_explore (ha : memo.Admits k height) :
    (memo.explore k height).size
      = memo.size + if memo.get? k = none then 1 else 0 := by
  rw [explore_eq ha]

-- ================================================================== marks

/-- The memo has a state on the path. -/
def Marked (memo : Memo) (k : State) : Prop :=
  ∃ height, memo.get? k = some ⟨height, true⟩

theorem not_marked_empty (policy : Revisit) (k : State) :
    ¬ ({ policy := policy } : Memo).Marked k := by
  intro ⟨height, hk⟩
  rw [get?_empty] at hk
  cases hk

/-- No arrival at a state on the path is explored. -/
theorem not_marked_of_admits (ha : memo.Admits k height) :
    ¬ memo.Marked k := by
  intro ⟨entered, hk⟩
  rcases ha with hnone | ⟨explored, hsome, -, -⟩
  · cases hnone.symm.trans hk
  · cases hsome.symm.trans hk

/-- The marked states are those before and the one explored. -/
theorem marked_explore_iff {k' : State} (ha : memo.Admits k height) :
    (memo.explore k height).Marked k' ↔ k' = k ∨ memo.Marked k' := by
  unfold Marked
  rw [get?_explore ha]
  by_cases he : k' = k
  · rw [if_pos he]
    exact ⟨fun _ => .inl he, fun _ => ⟨height, rfl⟩⟩
  · rw [if_neg he]
    exact ⟨.inr, fun h => h.resolve_left he⟩

/-- A departure takes one mark back. -/
theorem marked_leave_iff {k' : State} :
    (memo.leave k).Marked k' ↔ k' ≠ k ∧ memo.Marked k' := by
  unfold Marked
  rw [get?_leave]
  by_cases he : k' = k
  · rw [if_pos he]
    cases memo.get? k with
    | none => simp [he]
    | some e => simp [he]
  · rw [if_neg he]
    exact ⟨fun h => ⟨he, h⟩, And.right⟩

-- ============================================================== heights

/-- The height that the state at an address was last explored at. -/
def heightAt? (memo : Memo) (m : Image) (pc : Nat) : Option Int :=
  (memo.entryAt? m pc).map Entry.height

theorem heightAt?_of_entryAt? {e : Entry} (h : memo.entryAt? m pc = some e) :
    memo.heightAt? m pc = some e.height := by
  unfold heightAt?
  rw [h]
  rfl

theorem heightAt?_empty (policy : Revisit) (pc : Nat) :
    ({ policy := policy } : Memo).heightAt? m pc = none := by
  unfold heightAt?
  rw [entryAt?_empty]
  rfl

/-- A departure changes no height. -/
theorem heightAt?_leave (memo : Memo) (k : State) (pc : Nat) :
    (memo.leave k).heightAt? m pc = memo.heightAt? m pc := by
  unfold heightAt? entryAt?
  cases m.stateAt? pc with
  | none => rfl
  | some k' =>
      show ((memo.leave k).get? k').map Entry.height
        = (memo.get? k').map Entry.height
      rw [get?_leave]
      split
      · next he =>
          rw [he]
          cases memo.get? k <;> rfl
      · rfl

/-- Exploring sets the height of the address. -/
theorem heightAt?_explore (h : m.stateAt? pc = some k)
    (ha : memo.Admits k height) (pc' : Nat) :
    (memo.explore k height).heightAt? m pc' =
      if pc' = pc then some height else memo.heightAt? m pc' := by
  unfold heightAt?
  rw [entryAt?_explore h ha]
  split <;> rfl

/-- An arrival is only explored above the height of an earlier exploration. -/
theorem lt_of_admits {explored : Int} (h : m.stateAt? pc = some k)
    (ha : memo.Admits k height) (he : memo.heightAt? m pc = some explored) :
    explored < height := by
  unfold heightAt? at he
  rw [entryAt?_of_stateAt? memo h] at he
  rcases ha with hnone | ⟨explored', hsome, hlt, -⟩
  · rw [hnone] at he
    cases he
  · rw [hsome] at he
    cases he
    exact hlt

end Memo

end Stack

end AvrFirmware
