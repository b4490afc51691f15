/-
The states an exploration has met.

# States

A state is an instruction together with the address behind it. The memo
remembers, for each state, the height it was last explored at and whether
it lies on the path being explored.

# Arrivals

`Memo.record` takes an arrival at a state and says what it amounts to. A
new state is explored. A state on the path that is reached above its own
height lies on a cycle that grows the stack. A state off the path that is
reached above its height is explored again or reported, as the policy
says. Every other arrival adds nothing. So an arrival is passed over only
when the state has been explored from at least as high.

# Representation

States are kept by the address behind them, where few instructions can
meet. `Memo.get?` is the view that the statements are about.
-/
import AvrFirmware.Instruction
import AvrFirmware.Stack.Config
import Std.Data.TreeMap

namespace AvrFirmware

namespace Stack

/-- A decoded instruction and the address behind it. -/
structure State where
  instruction : Instruction
  next : Nat
  deriving DecidableEq, Repr

/-- What is remembered of a state. -/
structure Entry where
  /-- The height the state was last explored at. -/
  height : Int
  /-- The state lies on the path being explored. -/
  onPath : Bool
  deriving DecidableEq, Repr

/-- What an arrival at a state amounts to. -/
inductive Visit where
  /-- The state is new. -/
  | first
  /-- The state is explored again, from above its previous height. -/
  | raised (previous : Int)
  /-- The state has been explored from at least as high. -/
  | revisit
  /-- The state is on the path and is entered again above its height. -/
  | growingCycle (entered now : Int)
  /-- The state is reached above its height and is not explored again. -/
  | higher (explored now : Int)
  deriving DecidableEq, Repr

/-- The states met so far. -/
structure Memo where
  policy : Revisit
  /-- The states by the address behind them. -/
  table : Std.TreeMap Nat (List (Instruction × Entry)) := ∅
  /-- The number of states. -/
  size : Nat := 0

namespace Memo

/-- What is remembered of a state. -/
def get? (m : Memo) (s : State) : Option Entry :=
  (m.table.getD s.next []).lookup s.instruction

/-- A list of entries with one put in place of any older one. -/
def putEntry (i : Instruction) (e : Entry) :
    List (Instruction × Entry) → List (Instruction × Entry)
  | [] => [(i, e)]
  | (j, f) :: rest =>
      if i = j then (i, e) :: rest else (j, f) :: putEntry i e rest

/-- The table with an entry put in place of any older one. -/
def put (m : Memo) (s : State) (e : Entry) : Memo :=
  { m with
    table := m.table.insert s.next
      (putEntry s.instruction e (m.table.getD s.next [])) }

/-- Takes an arrival at a state. -/
def record (m : Memo) (s : State) (height : Int) : Visit × Memo :=
  match m.get? s with
  | none => (.first, { m.put s ⟨height, true⟩ with size := m.size + 1 })
  | some e =>
      if e.onPath then
        if e.height < height then (.growingCycle e.height height, m)
        else (.revisit, m)
      else if height ≤ e.height then (.revisit, m)
      else
        match m.policy with
        | .higherHeight => (.raised e.height, m.put s ⟨height, true⟩)
        | .firstVisit => (.higher e.height height, m)

/-- Takes a state off the path. -/
def leave (m : Memo) (s : State) : Memo :=
  match m.get? s with
  | none => m
  | some e => m.put s { e with onPath := false }

-- ================================================================= laws

theorem lookup_putEntry (i j : Instruction) (e : Entry)
    (es : List (Instruction × Entry)) :
    (putEntry i e es).lookup j = if j = i then some e else es.lookup j := by
  induction es with
  | nil =>
      by_cases h : j = i
      · simp [putEntry, h]
      · simp [putEntry, List.lookup_cons, h, beq_eq_false_iff_ne.2 h]
  | cons p rest ih =>
      obtain ⟨k, f⟩ := p
      by_cases hik : i = k
      · subst hik
        by_cases h : j = i
        · simp [putEntry, h]
        · simp [putEntry, List.lookup_cons, h, beq_eq_false_iff_ne.2 h]
      · by_cases hjk : j = k
        · subst hjk
          simp [putEntry, hik, Ne.symm hik]
        · simp [putEntry, List.lookup_cons, hik, beq_eq_false_iff_ne.2 hjk, ih]

/-- What is put for a state is what is remembered of it, and all else stays. -/
theorem get?_put (m : Memo) (s t : State) (e : Entry) :
    (m.put s e).get? t = if t = s then some e else m.get? t := by
  obtain ⟨i, n⟩ := s
  obtain ⟨j, k⟩ := t
  simp only [get?, put, Std.TreeMap.getD_insert, State.mk.injEq]
  by_cases hnk : n = k
  · subst hnk
    simp [lookup_putEntry]
  · simp [hnk, Ne.symm hnk]

end Memo

end Stack

end AvrFirmware
