/-
What a memo answers, told from the calls before.

# Histories

A memo takes arrivals and departures of any states in any order, also
departures of states that it has never met and second departures of the
same state. A history lists these calls with what was answered, the first
call first. `exploredHeights` has the heights that a state was explored at,
and `Unleft` says that it was not left after the last of them.

# One entry sums up a history

The memo keeps one height and one mark for a state. `SumsUp` says that they
stand for all that came before: the height is the greatest one the state
was explored at, and the mark says whether it is unleft. There is a lemma
for each thing that a call can be to a state: one of another state, an
arrival that is not explored, an arrival that is, and a departure. `Recalls`
has this of all states at once, and a call keeps it (`Recalls.take`).
-/
import AvrFirmware.Proofs.Stack.Memo

namespace AvrFirmware

namespace Stack

/-- An arrival with this answer is explored. -/
def Visit.explores : Visit → Bool
  | first => true
  | raised _ => true
  | revisit => false
  | growingCycle _ _ => false
  | higher _ _ => false

namespace Memo

-- ============================================================== histories

/-- A call of a memo. -/
inductive Call where
  | record (state : State) (height : Int)
  | leave (state : State)
  deriving DecidableEq, Repr

/-- A call of a memo with its answer. -/
inductive Answered where
  | recorded (state : State) (height : Int) (visit : Visit)
  | left (state : State)
  deriving DecidableEq, Repr

/-- The memo after a call. -/
def take (memo : Memo) : Call → Memo
  | .record k height => (memo.record k height).2
  | .leave k => memo.leave k

/-- What is answered to a call. -/
def answer (memo : Memo) : Call → Answered
  | .record k height => .recorded k height (memo.record k height).1
  | .leave k => .left k

/-- The memo after some calls. -/
def takeAll (memo : Memo) (calls : List Call) : Memo :=
  calls.foldl take memo

/-- What is answered to some calls, the first one first. -/
def answers (memo : Memo) : List Call → List Answered
  | [] => []
  | call :: calls => memo.answer call :: (memo.take call).answers calls

/-- The memo after some calls, from nothing. -/
def after (policy : Revisit) (calls : List Call) : Memo :=
  ({ policy := policy } : Memo).takeAll calls

/-- What is answered to some calls, from nothing. -/
def historyOf (policy : Revisit) (calls : List Call) : List Answered :=
  ({ policy := policy } : Memo).answers calls

variable {memo : Memo} {history : List Answered} {last : Answered} {k : State}
  {height : Int} {visit : Visit} {entry : Option Entry}

namespace Answered

/-- The state that a call is about. -/
def state : Answered → State
  | recorded k _ _ => k
  | left k => k

/-- The state of an arrival. -/
def recorded? : Answered → Option State
  | recorded k _ _ => some k
  | left _ => none

/-- The height at which a call has a state explored. -/
def exploredAt? (k : State) : Answered → Option Int
  | recorded k' height visit =>
      if k' = k ∧ visit.explores = true then some height else none
  | left _ => none

/-- An answer says nothing about other states. -/
theorem exploredAt?_of_ne {a : Answered} (hne : a.state ≠ k) :
    a.exploredAt? k = none := by
  cases a with
  | recorded k' height visit => exact if_neg fun h => hne h.1
  | left k' => rfl

theorem exploredAt?_of_explores (k : State) (height : Int)
    (h : visit.explores = true) :
    (recorded k height visit).exploredAt? k = some height :=
  if_pos ⟨rfl, h⟩

theorem exploredAt?_of_not_explores (k k' : State) (height : Int)
    (h : visit.explores = false) :
    (recorded k' height visit).exploredAt? k = none := by
  refine if_neg ?_
  intro ⟨_, hyes⟩
  cases h.symm.trans hyes

end Answered

/-- The states that were recorded, with repetitions. -/
def recordedStates (history : List Answered) : List State :=
  history.filterMap Answered.recorded?

/-- The heights that a state was explored at, in order. -/
def exploredHeights (history : List Answered) (k : State) : List Int :=
  history.filterMap (Answered.exploredAt? k)

/-- A state was explored, and has not been left since it was explored last. -/
def Unleft (history : List Answered) (k : State) : Prop :=
  ∃ a later, a :: later <:+ history ∧ a.exploredAt? k ≠ none
    ∧ exploredHeights later k = []
    ∧ .left k ∉ later

theorem not_unleft_nil (k : State) : ¬ Unleft [] k := by
  intro ⟨a, later, hend, _⟩
  cases List.suffix_nil.mp hend

/-- A state is explored and not left behind the first answer, or the first
answer is what explored it last. -/
theorem unleft_cons_iff {a : Answered} :
    Unleft (a :: history) k ↔
      Unleft history k
        ∨ a.exploredAt? k ≠ none ∧ exploredHeights history k = []
          ∧ .left k ∉ history := by
  constructor
  · intro ⟨b, later, hend, hb⟩
    rcases List.suffix_cons_iff.mp hend with heq | hend
    · cases heq
      exact .inr hb
    · exact .inl ⟨b, later, hend, hb⟩
  · intro h
    rcases h with ⟨b, later, hend, hb⟩ | ha
    · exact ⟨b, later, hend.trans (List.suffix_cons a history), hb⟩
    · exact ⟨a, history, List.suffix_refl _, ha⟩

instance decidableUnleft (k : State) :
    (history : List Answered) → Decidable (Unleft history k)
  | [] => isFalse (not_unleft_nil k)
  | _ :: rest =>
      have := decidableUnleft k rest
      decidable_of_iff _ unleft_cons_iff.symm

-- ======================================================= one call further

theorem recordedStates_concat_recorded (history : List Answered) (k : State)
    (height : Int) (visit : Visit) :
    recordedStates (history ++ [.recorded k height visit])
      = recordedStates history ++ [k] := by
  unfold recordedStates
  rw [List.filterMap_append]
  rfl

theorem recordedStates_concat_left (history : List Answered) (k : State) :
    recordedStates (history ++ [.left k]) = recordedStates history := by
  unfold recordedStates
  rw [List.filterMap_append]
  exact List.append_nil _

/-- An answer about another state adds nothing to what is known of this one. -/
theorem mem_recordedStates_concat_of_ne (hne : last.state ≠ k) :
    k ∈ recordedStates (history ++ [last]) ↔ k ∈ recordedStates history := by
  cases last with
  | recorded k' height visit =>
      rw [recordedStates_concat_recorded, List.mem_append, List.mem_singleton]
      exact or_iff_left hne.symm
  | left k' => rw [recordedStates_concat_left]

/-- An arrival counts where its state is new. -/
theorem card_recordedStates_concat (history : List Answered) (k : State)
    (height : Int) (visit : Visit) :
    (recordedStates (history ++ [.recorded k height visit])).toFinset.card
      = (recordedStates history).toFinset.card
        + if k ∈ recordedStates history then 0 else 1 := by
  rw [recordedStates_concat_recorded, List.toFinset_append]
  by_cases hk : k ∈ recordedStates history
  · simp [hk]
  · simp [hk]

/-- A state that was explored was asked for. -/
theorem mem_recordedStates_of_explored
    (h : height ∈ exploredHeights history k) :
    k ∈ recordedStates history := by
  obtain ⟨a, hmem, ha⟩ := List.mem_filterMap.mp h
  refine List.mem_filterMap.mpr ⟨a, hmem, ?_⟩
  cases a with
  | recorded k' height' visit =>
      obtain ⟨⟨hk, -⟩, -⟩ := Option.ite_none_right_eq_some.mp ha
      rw [hk]
      rfl
  | left k' => cases ha

/-- An answer that explores nothing leaves the heights as they are. -/
theorem exploredHeights_concat_of_none (history : List Answered)
    (hlast : last.exploredAt? k = none) :
    exploredHeights (history ++ [last]) k = exploredHeights history k := by
  unfold exploredHeights
  rw [List.filterMap_append, List.filterMap_cons_none hlast]
  exact List.append_nil _

/-- One that does adds its height at the end. -/
theorem exploredHeights_concat_of_some (history : List Answered)
    (hlast : last.exploredAt? k = some height) :
    exploredHeights (history ++ [last]) k
      = exploredHeights history k ++ [height] := by
  unfold exploredHeights
  rw [List.filterMap_append, List.filterMap_cons_some hlast]
  rfl

/-- A state that was just explored is not left. -/
theorem unleft_concat_of_some (history : List Answered)
    (hlast : last.exploredAt? k ≠ none) :
    Unleft (history ++ [last]) k :=
  ⟨last, [], List.suffix_append history [last], hlast, rfl, List.not_mem_nil⟩

/-- After any other call a state is unleft if it was before and the call does
not leave it. -/
theorem unleft_concat_iff (hlast : last.exploredAt? k = none) :
    Unleft (history ++ [last]) k ↔ Unleft history k ∧ last ≠ .left k := by
  constructor
  · intro ⟨a, later, hend, ha, hnone, hleft⟩
    rcases List.suffix_concat_iff.mp hend with hnil | ⟨front, heq, hfront⟩
    · cases hnil
    · -- the last exploration is not the last call, so the last call ends
      -- what follows it
      cases front with
      | nil =>
          cases heq
          exact absurd hlast ha
      | cons b front =>
          rw [List.cons_append] at heq
          obtain ⟨rfl, rfl⟩ := List.cons.inj heq
          rw [exploredHeights_concat_of_none front hlast] at hnone
          refine ⟨⟨a, front, hfront, ha, hnone, ?_⟩, ?_⟩
          · intro hmem
            exact hleft (List.mem_append_left _ hmem)
          · intro he
            exact hleft
              (List.mem_append_right _ (List.mem_singleton.mpr he.symm))
  · intro ⟨⟨a, later, hend, ha, hnone, hleft⟩, hne⟩
    refine ⟨a, later ++ [last], ?_, ha, ?_, ?_⟩
    · exact List.suffix_concat_iff.mpr (.inr ⟨a :: later, rfl, hend⟩)
    · rw [exploredHeights_concat_of_none later hlast]
      exact hnone
    · intro hmem
      rcases List.mem_append.mp hmem with hmem | hmem
      · exact hleft hmem
      · exact hne (List.mem_singleton.mp hmem).symm

-- ============================================================== one state

/-- An entry that stands for what a history has of a state. -/
structure SumsUp (history : List Answered) (k : State) (entry : Option Entry) :
    Prop where
  new : entry = none ↔ k ∉ recordedStates history
  height : ∀ e, entry = some e →
    (exploredHeights history k).max? = some e.height
  onPath : ∀ e, entry = some e → (e.onPath = true ↔ Unleft history k)

/-- A call that does not explore a state leaves its height alone. -/
theorem SumsUp.height_concat (h : SumsUp history k entry)
    (hlast : last.exploredAt? k = none) {e : Entry} (he : entry = some e) :
    (exploredHeights (history ++ [last]) k).max? = some e.height := by
  rw [exploredHeights_concat_of_none history hlast]
  exact h.height e he

/-- A call that neither explores a state nor leaves it leaves its mark
alone. -/
theorem SumsUp.onPath_concat (h : SumsUp history k entry)
    (hlast : last.exploredAt? k = none) (hne : last ≠ .left k) {e : Entry}
    (he : entry = some e) :
    e.onPath = true ↔ Unleft (history ++ [last]) k := by
  rw [h.onPath e he, unleft_concat_iff hlast]
  exact (and_iff_left hne).symm

/-- An entry sums up its history whatever happens to other states. -/
theorem SumsUp.other (h : SumsUp history k entry) (hne : last.state ≠ k) :
    SumsUp (history ++ [last]) k entry := by
  have hlast := Answered.exploredAt?_of_ne hne
  refine ⟨?_,
    fun e => h.height_concat hlast, fun e => h.onPath_concat hlast ?_⟩
  · rw [h.new, mem_recordedStates_concat_of_ne hne]
  · intro he
    rw [he] at hne
    exact hne rfl

/-- It does so after a visit that explores nothing. -/
theorem SumsUp.unexplored {e : Entry} (h : SumsUp history k (some e))
    (hvisit : visit.explores = false) :
    SumsUp (history ++ [.recorded k height visit]) k (some e) := by
  have hlast := Answered.exploredAt?_of_not_explores k k height hvisit
  refine ⟨?_,
    fun e => h.height_concat hlast, fun e => h.onPath_concat hlast (by simp)⟩
  rw [recordedStates_concat_recorded]
  simp

/-- A state that is explored above its earlier heights. -/
theorem sumsUp_explored
    (hbelow : ∀ below ∈ exploredHeights history k, below < height)
    (hvisit : visit.explores = true) :
    SumsUp (history ++ [.recorded k height visit]) k
      (some ⟨height, true⟩) := by
  have hlast := Answered.exploredAt?_of_explores k height hvisit
  refine ⟨?_, ?_, ?_⟩
  · rw [recordedStates_concat_recorded]
    simp
  · intro e he
    cases he
    rw [exploredHeights_concat_of_some history hlast, List.max?_eq_some_iff]
    refine ⟨List.mem_append_right _ (.head _), ?_⟩
    intro other hother
    rcases List.mem_append.mp hother with hold | hsame
    · exact Int.le_of_lt (hbelow other hold)
    · rw [List.mem_singleton.mp hsame]
  · intro e he
    cases he
    refine ⟨fun _ => unleft_concat_of_some history ?_, fun _ => rfl⟩
    rw [hlast]
    exact Option.some_ne_none height

/-- Leaving a state clears its mark and nothing else. -/
theorem SumsUp.left (h : SumsUp history k entry) :
    SumsUp (history ++ [.left k]) k
      (entry.map fun e => { e with onPath := false }) := by
  have hlast : (Answered.left k).exploredAt? k = none := rfl
  refine ⟨?_, ?_, ?_⟩
  · rw [recordedStates_concat_left, ← h.new, Option.map_eq_none_iff]
  · intro e he
    obtain ⟨e', he', rfl⟩ := Option.map_eq_some_iff.mp he
    exact (h.height_concat hlast he' :)
  · intro e he
    obtain ⟨e', -, rfl⟩ := Option.map_eq_some_iff.mp he
    rw [unleft_concat_iff hlast]
    simp

-- ============================================================= all states

/-- A memo whose entries stand for a history, and whose size counts the states
in it. -/
structure Recalls (memo : Memo) (history : List Answered) : Prop where
  entries : ∀ k, SumsUp history k (memo.get? k)
  size : memo.size = (recordedStates history).toFinset.card

theorem recalls_empty (policy : Revisit) :
    Recalls { policy := policy } [] := by
  refine ⟨?_, rfl⟩
  intro k
  rw [get?_empty]
  refine ⟨⟨fun _ => List.not_mem_nil, fun _ => rfl⟩, ?_, ?_⟩
  · intro e he
    cases he
  · intro e he
    cases he

/-- What is remembered of one state changes, and the call is about that
state. -/
theorem Recalls.entries_concat {memo' : Memo} (h : Recalls memo history)
    (hget : ∀ k',
      memo'.get? k' = if k' = last.state then entry else memo.get? k')
    (hown : SumsUp (history ++ [last]) last.state entry) (k : State) :
    SumsUp (history ++ [last]) k (memo'.get? k) := by
  rw [hget]
  by_cases he : k = last.state
  · rw [if_pos he, he]
    exact hown
  · rw [if_neg he]
    exact (h.entries k).other (Ne.symm he)

/-- A memo that has explored recalls the longer history. -/
theorem Recalls.explored (h : Recalls memo history) (ha : memo.Admits k height)
    (hvisit : visit.explores = true) :
    Recalls (memo.explore k height)
      (history ++ [.recorded k height visit]) := by
  have hk := h.entries k
  refine ⟨h.entries_concat (get?_explore ha) (sumsUp_explored ?_ hvisit), ?_⟩
  · intro below hbelow
    rcases ha with hnone | ⟨explored, hsome, hlt, -⟩
    · exact absurd (mem_recordedStates_of_explored hbelow) (hk.new.mp hnone)
    · have hle : below ≤ explored :=
        (List.max?_eq_some_iff.mp (hk.height _ hsome)).2 below hbelow
      omega
  · rw [size_explore ha, h.size, card_recordedStates_concat]
    by_cases hnone : memo.get? k = none
    · rw [if_pos hnone, if_neg (hk.new.mp hnone)]
    · rw [if_neg hnone, if_pos (not_not.mp (mt hk.new.mpr hnone))]

/-- One that has answered without exploring recalls it as it is. -/
theorem Recalls.unexplored {e : Entry} (h : Recalls memo history)
    (he : memo.get? k = some e) (hvisit : visit.explores = false) :
    Recalls memo (history ++ [.recorded k height visit]) := by
  have hk := h.entries k
  rw [he] at hk
  have hmem : k ∈ recordedStates history := by
    by_contra hout
    cases hk.new.mpr hout
  have hget : ∀ k',
      memo.get? k' = if k' = k then some e else memo.get? k' := by
    intro k'
    by_cases hsame : k' = k
    · rw [if_pos hsame, hsame, he]
    · rw [if_neg hsame]
  refine ⟨h.entries_concat hget (hk.unexplored hvisit), ?_⟩
  rw [h.size, card_recordedStates_concat, if_pos hmem]
  rfl

/-- One that has left a state recalls that it was left. -/
theorem Recalls.left (h : Recalls memo history) (k : State) :
    Recalls (memo.leave k) (history ++ [.left k]) := by
  refine ⟨h.entries_concat (get?_leave memo k) (h.entries k).left, ?_⟩
  rw [size_leave, h.size, recordedStates_concat_left]

-- ================================================================ arrivals

/-- What may be explored is explored. -/
theorem explores_of_admits (ha : memo.Admits k height) :
    (memo.record k height).1.explores = true := by
  rcases ha with hnone | ⟨explored, hsome, hlt, hp⟩
  · rw [record_of_new hnone]
    rfl
  · rw [record_of_higherHeight hsome hlt hp]
    rfl

/-- An arrival that is not explored meets an entry and leaves the memo as it
is. -/
theorem record_of_not_admits (ha : ¬ memo.Admits k height) :
    ∃ e visit, memo.get? k = some e ∧ visit.explores = false
      ∧ memo.record k height = (visit, memo) := by
  rcases memo.arrival_cases k height with
    hyes | ⟨e, he, hle⟩ | ⟨entered, he, hlt⟩ | ⟨explored, he, hlt, hp⟩
  · exact absurd hyes ha
  · exact ⟨e, _, he, rfl, record_of_le he hle⟩
  · exact ⟨_, _, he, rfl, record_of_onPath he hlt⟩
  · exact ⟨_, _, he, rfl, record_of_firstVisit he hlt hp⟩

theorem policy_record (memo : Memo) (k : State) (height : Int) :
    (memo.record k height).2.policy = memo.policy := by
  by_cases ha : memo.Admits k height
  · exact policy_explore ha
  · obtain ⟨e, visit, -, -, hrecord⟩ := record_of_not_admits ha
    rw [hrecord]

/-- The first answer is for states without an entry. -/
theorem record_eq_first_iff :
    (memo.record k height).1 = .first ↔ memo.get? k = none := by
  refine ⟨?_, record_of_new⟩
  intro hfirst
  by_cases ha : memo.Admits k height
  · rcases ha with hnone | ⟨explored, hsome, hlt, hp⟩
    · exact hnone
    · rw [record_of_higherHeight hsome hlt hp] at hfirst
      cases hfirst
  · obtain ⟨e, visit, -, hvisit, hrecord⟩ := record_of_not_admits ha
    rw [hrecord] at hfirst
    rw [show visit = .first from hfirst] at hvisit
    cases hvisit

/-- A state is only met again if it is met from no higher. -/
theorem record_eq_revisit_iff {e : Entry} (he : memo.get? k = some e) :
    (memo.record k height).1 = .revisit ↔ height ≤ e.height := by
  constructor
  · intro hrevisit
    rcases memo.arrival_cases k height with
      ha | ⟨e', he', hle⟩ | ⟨entered, he', hlt⟩ | ⟨explored, he', hlt, hp⟩
    · have hexplores := explores_of_admits ha
      rw [hrevisit] at hexplores
      cases hexplores
    · cases he'.symm.trans he
      exact hle
    · rw [record_of_onPath he' hlt] at hrevisit
      cases hrevisit
    · rw [record_of_firstVisit he' hlt hp] at hrevisit
      cases hrevisit
  · intro hle
    rw [record_of_le he hle]

-- =============================================================== all calls

/-- Every call keeps a memo in step with its history. -/
theorem Recalls.take (h : Recalls memo history) (call : Call) :
    Recalls (memo.take call) (history ++ [memo.answer call]) := by
  cases call with
  | leave k => exact h.left k
  | record k height =>
      show Recalls (memo.record k height).2
        (history ++ [.recorded k height (memo.record k height).1])
      by_cases ha : memo.Admits k height
      · exact h.explored ha (explores_of_admits ha)
      · obtain ⟨e, visit, he, hvisit, hrecord⟩ := record_of_not_admits ha
        rw [hrecord]
        exact h.unexplored he hvisit

/-- A memo that is in step with its history stays so through any calls. -/
theorem Recalls.takeAll (h : Recalls memo history) (calls : List Call) :
    Recalls (memo.takeAll calls) (history ++ memo.answers calls) := by
  induction calls generalizing memo history with
  | nil =>
      show Recalls memo (history ++ [])
      rw [List.append_nil]
      exact h
  | cons call calls ih =>
      have hrest := ih (h.take call)
      rw [List.append_assoc] at hrest
      exact hrest

/-- No call changes the policy. -/
theorem policy_takeAll (memo : Memo) (calls : List Call) :
    (memo.takeAll calls).policy = memo.policy := by
  induction calls generalizing memo with
  | nil => rfl
  | cons call calls ih =>
      have hcall : (memo.take call).policy = memo.policy := by
        cases call with
        | leave k => exact policy_leave memo k
        | record k height => exact policy_record memo k height
      exact (ih (memo.take call)).trans hcall

-- ============================================================= the answers

/-- The calls before decide what an arrival is answered. It is the first of its
state exactly if the state was never recorded. Otherwise let `top` be the
greatest height that the state was explored at: an arrival up to there is
passed over, and no other one is. Above it the arrival closes a growing cycle
if the state is unleft, and else the policy has it explored again or reported.
The size is the number of different states recorded. -/
theorem answers_follow_history (policy : Revisit) (calls : List Call)
    (k : State) (height : Int) :
    (((after policy calls).record k height).1 = .first
        ↔ k ∉ recordedStates (historyOf policy calls))
      ∧ (k ∈ recordedStates (historyOf policy calls) →
        ∃ top, (exploredHeights (historyOf policy calls) k).max? = some top
          ∧ (((after policy calls).record k height).1 = .revisit
            ↔ height ≤ top)
          ∧ (top < height →
            (Unleft (historyOf policy calls) k →
                ((after policy calls).record k height).1
                  = .growingCycle top height)
              ∧ (¬ Unleft (historyOf policy calls) k → policy = .higherHeight →
                ((after policy calls).record k height).1 = .raised top)
              ∧ (¬ Unleft (historyOf policy calls) k → policy = .firstVisit →
                ((after policy calls).record k height).1
                  = .higher top height)))
      ∧ (after policy calls).size
        = (recordedStates (historyOf policy calls)).toFinset.card := by
  have hrecalls : Recalls (after policy calls) (historyOf policy calls) :=
    (recalls_empty policy).takeAll calls
  have hpolicy : (after policy calls).policy = policy := policy_takeAll _ calls
  have hk := hrecalls.entries k
  refine ⟨?_, ?_, hrecalls.size⟩
  · rw [record_eq_first_iff]
    exact hk.new
  · intro hmem
    obtain ⟨e, he⟩ :=
      Option.ne_none_iff_exists'.mp (mt hk.new.mp (not_not.mpr hmem))
    refine ⟨e.height, hk.height e he, record_eq_revisit_iff he, ?_⟩
    intro hlt
    obtain ⟨top, onPath⟩ := e
    have hmark := hk.onPath _ he
    refine ⟨?_, ?_, ?_⟩
    · intro hunleft
      cases hmark.mpr hunleft
      rw [record_of_onPath he hlt]
    · intro hleft hp
      cases Bool.eq_false_iff.mpr (mt hmark.mp hleft)
      rw [record_of_higherHeight he hlt (hpolicy.trans hp)]
    · intro hleft hp
      cases Bool.eq_false_iff.mpr (mt hmark.mp hleft)
      rw [record_of_firstVisit he hlt (hpolicy.trans hp)]

/-- A push that is left twice and met above its height twice, and a return that
is left before it is met. -/
def returningCalls : List Call :=
  [.record ⟨.push (.ofNat 16), 1⟩ 2, .leave ⟨.bare .ret, 3⟩,
    .record ⟨.bare .ret, 3⟩ 7, .leave ⟨.push (.ofNat 16), 1⟩,
    .leave ⟨.push (.ofNat 16), 1⟩, .record ⟨.push (.ofNat 16), 1⟩ 5,
    .record ⟨.push (.ofNat 16), 1⟩ 6]

/-- After the same calls the push is unleft at the higher height under one
policy, and left at the lower one under the other. -/
theorem answers_follow_history_returningCalls :
    ((after .higherHeight returningCalls).record ⟨.push (.ofNat 16), 1⟩ 6).1
      = .growingCycle 5 6
      ∧ ((after .firstVisit returningCalls).record ⟨.push (.ofNat 16), 1⟩ 6).1
        = .higher 2 6
      ∧ (after .firstVisit returningCalls).size = 2 := by
  obtain ⟨-, hagain, -⟩ :=
    answers_follow_history .higherHeight returningCalls ⟨.push (.ofNat 16), 1⟩
      6
  obtain ⟨-, honce, hsize⟩ :=
    answers_follow_history .firstVisit returningCalls ⟨.push (.ofNat 16), 1⟩ 6
  obtain ⟨top, htop, -, hcycle⟩ := hagain (by decide)
  obtain ⟨low, hlow, -, hhigher⟩ := honce (by decide)
  cases htop
  cases hlow
  exact ⟨(hcycle (by decide)).1 (by decide),
    (hhigher (by decide)).2.2 (by decide) rfl, hsize⟩

end Memo

end Stack

end AvrFirmware
