/-
A growing cycle is never a false alarm.

When a walk gives up because a state on its path is entered again on a
higher stack, the path from that state to the new arrival is a path of
control that comes back to its address higher than it left. Rules do not
look at heights, so it may be gone again from there, and the stack of the
program has no bound.
-/
import AvrFirmware.Proofs.Stack.Path

namespace AvrFirmware

namespace Stack

variable {m : Image} {c : Config} {pc : Nat}

-- ================================================================ pumping

/-- A path that comes back higher may be gone again, and every round gains a
byte or more. -/
theorem exists_reachable_of_rounds {low high : Int}
    (hlow : Reachable m c (pc, low))
    (hcycle : Relation.ReflTransGen (FlowStep m c.returnAddressBytes) (pc, low)
      (pc, high))
    (hgrows : low < high) (rounds : Nat) :
    ∃ height, low + rounds ≤ height ∧ Reachable m c (pc, height) := by
  induction rounds with
  | zero => exact ⟨low, by omega, hlow⟩
  | succ rounds ih =>
      obtain ⟨height, hle, hreach⟩ := ih
      have hagain := raise_path hcycle (height - low)
      unfold Point.raise at hagain
      rw [show low + (height - low) = height by omega] at hagain
      exact ⟨high + (height - low), by omega,
        Relation.ReflTransGen.trans hreach hagain⟩

/-- A cycle that comes back higher takes the stack above every height. -/
theorem exists_reachable_above {low high : Int}
    (hlow : Reachable m c (pc, low))
    (hcycle : Relation.ReflTransGen (FlowStep m c.returnAddressBytes) (pc, low)
      (pc, high))
    (hgrows : low < high) (bound : Int) :
    ∃ q, Reachable m c q ∧ bound < q.2 := by
  obtain ⟨height, hle, hreach⟩ :=
    exists_reachable_of_rounds hlow hcycle hgrows (bound - low + 1).toNat
  refine ⟨(pc, height), hreach, ?_⟩
  show bound < height
  omega

-- ============================================================ the verdict

/-- A walk that gives up on a growing cycle has found one: its address is
reachable, and a path of control leads from there back to it on a higher
stack. -/
theorem Session.Reached.exists_cycle {s : Session} (hs : s.Reached m c)
    (hm : m.size ≤ Image.capacity) (hbytes : c.returnAddressBytes ≤ 3)
    (hr : s.unbounded = some (.growingCycle pc)) :
    ∃ low high, Reachable m c (pc, low) ∧ low < high
      ∧ Relation.TransGen (FlowStep m c.returnAddressBytes) (pc, low)
        (pc, high) := by
  obtain ⟨t, task, rest, u, ht, hu, hw, hfails, -⟩ := hs.fails hr
  obtain ⟨path, hpath⟩ := ht.onPath hm hbytes hu
  cases hfails with
  | @cycle _ height entered i _ hd he hlt =>
      -- the entry that the arrival met is marked, so it is a place of the path
      have hmem : (pc, entered) ∈ path := (hpath.marked (pc, entered)).mpr he
      have hfollows := (hpath.of_visit hw).1
      have hcycle := leads_to_of_follows hpath.pending.isPath hfollows hmem
      exact ⟨entered, height, hpath.reachable_of_mem hmem, hlt, hcycle⟩

/-- A report of a growing cycle is never a false alarm. -/
theorem growing_cycle_is_real {r : Report} (hm : m.size ≤ Image.capacity)
    (hanalyze : (analyze m c).result = .ok r)
    (hr : r.unbounded = some (.growingCycle pc)) :
    (∃ low high, Reachable m c (pc, low)
      ∧ Relation.TransGen (FlowStep m c.returnAddressBytes) (pc, low)
        (pc, high) ∧ low < high)
      ∧ ∀ bound : Int, ∃ q, Reachable m c q ∧ bound < q.2 := by
  obtain ⟨s, hs, -, rfl, -⟩ := Session.exists_reached_of_analyze hanalyze
  have hbytes := (valid_of_analyze hanalyze).bytes_le
  obtain ⟨low, high, hlow, hgrows, hcycle⟩ := hs.exists_cycle hm hbytes hr
  refine ⟨⟨low, high, hlow, hcycle, hgrows⟩, ?_⟩
  intro bound
  exact exists_reachable_above hlow hcycle.to_reflTransGen hgrows bound

/-- A branch over a push, and a jump back to the branch. The two ways round the
loop differ by one byte, and the walk finds out when it comes round on the
higher one. -/
def pushingLoop : Image :=
  .ofWords [0xF009, 0x930F, 0xCFFD]

theorem growing_cycle_is_real_pushingLoop :
    (∃ low high, Reachable pushingLoop {} (0, low)
      ∧ Relation.TransGen (FlowStep pushingLoop 2) (0, low) (0, high)
      ∧ low < high)
      ∧ ∀ bound : Int, ∃ q, Reachable pushingLoop {} q ∧ bound < q.2 := by
  have hreport : (analyze pushingLoop {}).result
      = .ok ⟨.unbounded, 6, 3, [], [], some (.growingCycle 0)⟩ := by
    cbv
  exact growing_cycle_is_real (by decide) hreport rfl

end Stack

end AvrFirmware
