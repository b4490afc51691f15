/-
Two analyses of one program, compared by what control does in it.

# From walks to paths

Two walks over one program have little in common: they start elsewhere or
count calls differently, so they meet the states in another order, pass
over other arrivals and explore other states again. What can be compared
are the paths of control behind them. `settled_of_bounded` goes from a
bounded report to the paths: no path rises above the bound, and none runs
into something that cannot be followed. `exists_report_of_followed` and
`bounded_of_heights` go back: if no path runs into anything there is a
report, and if no path rises above some height the report has a bound
below it. The one way out is a budget, because a growing cycle would lead
above every height.

# Two comparisons

A subroutine starts on an empty stack when it is analyzed by itself, and
on the stack of its callers within the program; its paths are parts of the
program's paths, moved down. With a wider return address the paths go
through the same addresses, and never lower (`widen_path`).
-/
import AvrFirmware.Proofs.Stack.Alarms
import AvrFirmware.Proofs.Stack.Cycle

namespace AvrFirmware

namespace Stack

variable {m : Image} {c : Config} {r : Report} {n : Nat} {p q : Point}

-- ====================================================== from walks to paths

/-- The bound was given up because a budget ran out. -/
def Report.OutOfBudget (r : Report) : Prop :=
  ∃ limit, r.unbounded = some (.stepBudget limit)
    ∨ r.unbounded = some (.depthBudget limit)

/-- Where states are explored again, no higher arrival is a reason to give
up. -/
theorem Session.Reached.revisit_of_higherRevisit {s : Session} {pc : Nat}
    (hs : s.Reached m c) (hr : s.unbounded = some (.higherRevisit pc)) :
    c.revisit = .firstVisit := by
  obtain ⟨t, task, rest, u, ht, -, -, hfails, -⟩ := hs.fails hr
  cases hfails with
  | higher _ _ _ _ hp => exact ht.coherent.policy.symm.trans hp

/-- What a bounded report says about every path of control: it stays below the
bound, and inside the image it comes only to instructions that can be read and
followed. -/
theorem settled_of_bounded (hm : m.size ≤ Image.capacity)
    (hanalyze : (analyze m c).result = .ok r) (hn : r.usage = .bounded n)
    (hq : Reachable m c q) :
    q.2 ≤ n
      ∧ (¬ m.isPastEnd q.1 = true →
        ∃ i, m.decodeAt q.1 = .ok i ∧ i ≠ .bare .reti) := by
  have hbytes := (valid_of_analyze hanalyze).bytes_le
  obtain ⟨s, hs, hw, rfl, -⟩ := Session.exists_reached_of_analyze hanalyze
  obtain ⟨hu, hpeak⟩ := hs.of_bounded hn
  have hcovers := hs.covers hm hbytes hu
  have hsettled := hcovers.settled_of_reachable hw hq
  constructor
  · rw [← hpeak]
    exact hcovers.le_bytes_of_settled hsettled
  · intro hinside
    rcases hsettled with ⟨hpast, -⟩ | ⟨explored, he, -⟩
    · exact absurd hpast hinside
    · exact (hs.charted hm hu).followed he

-- ====================================================== from paths to walks

/-- There is a report if everything that control reaches inside the image can
be followed. -/
theorem exists_report_of_followed (hm : m.size ≤ Image.capacity) (hc : c.Valid)
    (hfollowed : ∀ q, Reachable m c q → ¬ m.isPastEnd q.1 = true →
      ∃ i, m.decodeAt q.1 = .ok i ∧ i ≠ .bare .reti) :
    ∃ r, (analyze m c).result = .ok r := by
  cases hresult : (analyze m c).result with
  | ok r => exact ⟨r, rfl⟩
  | error e =>
      obtain ⟨s, task, rest, hs, hw, hbreaks⟩ :=
        Session.exists_breaks_of_analyze hc hresult
      have hwitnessed := hbreaks.witnessed hs hm hc.bytes_le hw
      cases e with
      | malformed pc cause =>
          obtain ⟨⟨height, hreach⟩, hinside, hd, -⟩ := hwitnessed
          obtain ⟨i, hi, -⟩ := hfollowed (pc, height) hreach hinside
          cases hi.symm.trans hd
      | unsupported pc i =>
          obtain ⟨⟨height, hreach⟩, hd, hreti⟩ := hwitnessed
          have hinside := Image.not_isPastEnd_of_decodeAt hd
          obtain ⟨j, hj, hne⟩ := hfollowed (pc, height) hreach hinside
          cases hj.symm.trans hd
          exact absurd hreti hne
      | badImage cause => cases hwitnessed
      | badConfig cause => cases hwitnessed

/-- If no path rises above some height, a report that is not due to a budget
has a bound, and the bound is no higher. -/
theorem bounded_of_heights {top : Int} (hm : m.size ≤ Image.capacity)
    (hpolicy : c.revisit = .higherHeight)
    (hanalyze : (analyze m c).result = .ok r) (hbudget : ¬ r.OutOfBudget)
    (htop : ∀ q, Reachable m c q → q.2 ≤ top) :
    ∃ n : Nat, r.usage = .bounded n ∧ (n : Int) ≤ top := by
  have hbytes := (valid_of_analyze hanalyze).bytes_le
  obtain ⟨s, hs, -, rfl, -⟩ := Session.exists_reached_of_analyze hanalyze
  cases hu : s.unbounded with
  | none =>
      refine ⟨s.peak.bytes, ?_, ?_⟩
      · show s.peak.usage = .bounded s.peak.bytes
        unfold Peak.usage
        rw [hs.coherent.verdict, hu]
        rfl
      · rcases hs.attained hm hbytes hu with hzero | ⟨pc, hreach⟩
        · rw [hzero]
          exact htop _ .entry
        · exact htop _ hreach
  | some reason =>
      -- of the four reasons, two are budgets, one belongs to the other policy,
      -- and a growing cycle leads above every height
      cases reason with
      | stepBudget limit => exact absurd ⟨limit, .inl hu⟩ hbudget
      | depthBudget limit => exact absurd ⟨limit, .inr hu⟩ hbudget
      | higherRevisit pc =>
          have hfirst := hs.revisit_of_higherRevisit hu
          cases hpolicy.symm.trans hfirst
      | growingCycle pc =>
          obtain ⟨low, high, hlow, hgrows, hcycle⟩ :=
            hs.exists_cycle hm hbytes hu
          obtain ⟨q, hreach, habove⟩ :=
            exists_reachable_above hlow hcycle.to_reflTransGen hgrows top
          have hle := htop q hreach
          omega

-- ============================================================ subroutines

/-- What a subroutine reaches by itself, the program reaches on top of the
stack it enters the subroutine with. -/
theorem reachable_raise {pc : Nat} {height : Int}
    (hpc : Reachable m c (pc, height))
    (hq : Reachable m { c with entryPoint := pc } q) :
    Reachable m c (q.raise height) := by
  have hraised := raise_path hq height
  unfold Point.raise at hraised
  rw [Int.zero_add] at hraised
  exact Relation.ReflTransGen.trans hpc hraised

/-- The stack of a subroutine fits into that of the program. If the program has
a bound, an analysis from any place that control reaches runs out of a budget,
or it has a bound too, and the height at that place and the bound together are
within the bound of the program. -/
theorem subroutine_fits_program {pc : Nat} {height : Int}
    (hm : m.size ≤ Image.capacity) (hpolicy : c.revisit = .higherHeight)
    (hanalyze : (analyze m c).result = .ok r) (hn : r.usage = .bounded n)
    (hpc : Reachable m c (pc, height)) :
    ∃ sub, (analyze m { c with entryPoint := pc }).result = .ok sub
      ∧ (sub.OutOfBudget ∨ ∃ k : Nat, sub.usage = .bounded k
        ∧ height + k ≤ n) := by
  have hvalid := valid_of_analyze hanalyze
  have hc : ({ c with entryPoint := pc } : Config).Valid := hvalid
  have hsettled := fun q hq =>
    settled_of_bounded (q := Point.raise q height) hm hanalyze hn
      (reachable_raise hpc hq)
  obtain ⟨sub, hsub⟩ :=
    exists_report_of_followed hm hc fun q hq => (hsettled q hq).2
  refine ⟨sub, hsub, ?_⟩
  by_cases hbudget : sub.OutOfBudget
  · exact .inl hbudget
  · have htop : ∀ q, Reachable m { c with entryPoint := pc } q →
        q.2 ≤ n - height := by
      intro q hq
      have hle : q.2 + height ≤ n := (hsettled q hq).1
      omega
    have hagain : ({ c with entryPoint := pc } : Config).revisit
        = .higherHeight := hpolicy
    obtain ⟨k, hk, hle⟩ := bounded_of_heights hm hagain hsub hbudget htop
    exact .inr ⟨k, hk, by omega⟩

theorem subroutine_fits_program_callingProgram :
    (analyze callingProgram {}).result = .ok ⟨.bounded 3, 6, 6, [], [], none⟩
      ∧ Reachable callingProgram {} (4, 2)
      ∧ ∃ sub, (analyze callingProgram { entryPoint := 4 }).result = .ok sub
        ∧ sub.usage = .bounded 1
        ∧ (sub.OutOfBudget ∨ ∃ k : Nat, sub.usage = .bounded k
          ∧ (2 : Int) + k ≤ (3 : Nat)) := by
  have hreport : (analyze callingProgram {}).result
      = .ok ⟨.bounded 3, 6, 6, [], [], none⟩ := by
    cbv
  have hsubroutine : (analyze callingProgram { entryPoint := 4 }).result
      = .ok ⟨.bounded 1, 3, 3, [], [], none⟩ := by
    cbv
  have hcall : callingProgram.decodeAt 0 = .ok (.absolute .call 4) := by
    cbv
  have hstep : FlowStep callingProgram 2 (0, 0) (4, 2) :=
    ⟨_, hcall, .inr ⟨rfl, rfl⟩⟩
  have hpc := Reachable.entry.step (c := {}) hstep
  obtain ⟨sub, hsub, hfits⟩ :=
    subroutine_fits_program (by decide) rfl hreport rfl hpc
  cases hsubroutine.symm.trans hsub
  exact ⟨hreport, hpc, _, hsubroutine, rfl, hfits⟩

-- ================================================= wider return addresses

section Widening

variable {bytes bytes' : Nat} (hle : bytes ≤ bytes')

include hle

/-- A rule leads to the same address, and only a call rises by more. -/
theorem Leads.widen {next pc : Nat} {rise : Int} {flow : Flow}
    (h : Leads m bytes next pc rise flow) :
    ∃ rise', rise ≤ rise' ∧ Leads m bytes' next pc rise' flow := by
  cases flow with
  | call target =>
      cases target with
      | relative offset =>
          obtain ⟨hpc, hrise⟩ := h
          exact ⟨bytes', by omega, hpc, rfl⟩
      | absolute address =>
          rcases h with hnext | ⟨hpc, hrise⟩
          · exact ⟨rise, Int.le_refl _, .inl hnext⟩
          · exact ⟨bytes', by omega, .inr ⟨hpc, rfl⟩⟩
      | unresolved => cases h
  | _ => exact ⟨rise, Int.le_refl _, h⟩

/-- A step from the same address, and from no lower, leads to the same address
and no lower. -/
theorem FlowStep.widen {height : Int} (h : FlowStep m bytes p q)
    (hp : p.2 ≤ height) :
    ∃ height', q.2 ≤ height'
      ∧ FlowStep m bytes' (p.1, height) (q.1, height') := by
  obtain ⟨i, hd, hleads⟩ := h
  obtain ⟨rise, hrise, hwide⟩ := hleads.widen hle
  refine ⟨height + rise, by omega, i, hd, ?_⟩
  show Leads m bytes' (p.1 + i.width) q.1 (height + rise - height) i.flow
  rw [add_sub_cancel_left]
  exact hwide

/-- A path may be followed with a wider return address, through the same
addresses and never lower. -/
theorem widen_path (h : Relation.ReflTransGen (FlowStep m bytes) p q) :
    ∃ height, q.2 ≤ height
      ∧ Relation.ReflTransGen (FlowStep m bytes') p (q.1, height) := by
  induction h with
  | refl => exact ⟨p.2, Int.le_refl _, .refl⟩
  | tail _ hstep ih =>
      obtain ⟨height, hbelow, hpath⟩ := ih
      obtain ⟨height', hbelow', hwide⟩ := hstep.widen hle hbelow
      exact ⟨height', hbelow', hpath.tail hwide⟩

end Widening

/-- A wider return address never lowers the usage, unless the narrower analysis
ran out of a budget. -/
theorem wider_return_address_needs_more {narrow wide : Report}
    (hm : m.size ≤ Image.capacity) (hpolicy : c.revisit = .higherHeight)
    (hnarrow : (analyze m { c with returnAddressBytes := 2 }).result
      = .ok narrow)
    (hwide : (analyze m { c with returnAddressBytes := 3 }).result = .ok wide)
    (hbudget : ¬ narrow.OutOfBudget) : narrow.usage ≤ wide.usage := by
  cases husage : wide.usage with
  | unbounded => exact narrow.usage.le_unbounded
  | bounded n =>
      -- a path that rises above the wider bound with two bytes does so with
      -- three as well
      have htop : ∀ q, Reachable m { c with returnAddressBytes := 2 } q →
          q.2 ≤ n := by
        intro q hq
        obtain ⟨height, hbelow, hpath⟩ := widen_path (show 2 ≤ 3 by decide) hq
        have hle : height ≤ n := (settled_of_bounded hm hwide husage hpath).1
        omega
      have hagain : ({ c with returnAddressBytes := 2 } : Config).revisit
          = .higherHeight := hpolicy
      obtain ⟨k, hk, hle⟩ := bounded_of_heights hm hagain hnarrow hbudget htop
      rw [hk, Usage.bounded_le_bounded]
      omega

/-- A call to what is behind it, two pops, and a jump back to the call. The
pops take back a return address of two bytes and leave one byte of a longer one
on the stack. -/
def poppingLoop : Image :=
  .ofWords [0xD000, 0x910F, 0x911F, 0xCFFC]

theorem wider_return_address_needs_more_poppingLoop :
    (∃ narrow wide,
      (analyze callingProgram { returnAddressBytes := 2 }).result = .ok narrow
      ∧ (analyze callingProgram { returnAddressBytes := 3 }).result = .ok wide
      ∧ ¬ narrow.OutOfBudget ∧ narrow.usage = .bounded 3
      ∧ wide.usage = .bounded 4
      ∧ narrow.usage ≤ wide.usage)
    ∧ ∃ narrow wide,
      (analyze poppingLoop { returnAddressBytes := 2 }).result = .ok narrow
      ∧ (analyze poppingLoop { returnAddressBytes := 3 }).result = .ok wide
      ∧ ¬ narrow.OutOfBudget ∧ narrow.usage = .bounded 2
      ∧ wide.unbounded = some (.growingCycle 0)
      ∧ narrow.usage ≤ wide.usage := by
  have hcall : (analyze callingProgram { returnAddressBytes := 2 }).result
      = .ok ⟨.bounded 3, 6, 6, [], [], none⟩ := by
    cbv
  have hcall' : (analyze callingProgram { returnAddressBytes := 3 }).result
      = .ok ⟨.bounded 4, 6, 6, [], [], none⟩ := by
    cbv
  have hloop : (analyze poppingLoop { returnAddressBytes := 2 }).result
      = .ok ⟨.bounded 2, 5, 4, [], [], none⟩ := by
    cbv
  have hloop' : (analyze poppingLoop { returnAddressBytes := 3 }).result
      = .ok ⟨.unbounded, 5, 4, [], [], some (.growingCycle 0)⟩ := by
    cbv
  have hsettled : ∀ {usage steps states},
      ¬ (Report.mk usage steps states [] [] none).OutOfBudget := by
    intro usage steps states hbudget
    obtain ⟨limit, hstep | hdepth⟩ := hbudget
    · cases hstep
    · cases hdepth
  exact ⟨⟨_, _, hcall, hcall', hsettled, rfl, rfl,
      wider_return_address_needs_more (c := {}) (by decide) rfl hcall hcall'
        hsettled⟩,
    _, _, hloop, hloop', hsettled, rfl, rfl,
    wider_return_address_needs_more (c := {}) (by decide) rfl hloop hloop'
      hsettled⟩

end Stack

end AvrFirmware
