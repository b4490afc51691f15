/-
Where a program can go, and on what height, said without the walk.

# The rules

`Leads` holds the rules of control one by one: from a flow and the
address behind the instruction to a destination and the number of bytes
the stack grows by on the way. `FlowStep` puts a rule to work at a place
of the image, and `Reachable` is what any number of steps gives from the
entry point. Heights are integers here and have no limits.

# Heights are relative

No rule looks at the height it starts from, so a step, and with it a
whole path, may be moved up or down (`FlowStep.raise`). This is what
lets one exploration of a state stand for every lower arrival at it.

# The walk's successors

`mem_successors_iff` ties the rules to `effect`: away from the limits of
a height, the arrivals an instruction is put to work with are exactly
the steps that the rules allow.
-/
import AvrFirmware.Stack.Effect
import Mathlib

namespace AvrFirmware

-- ================================================================ places

namespace Image

/-- The number of words of an image, a last odd byte counted as one. -/
def wordSlots (m : Image) : Nat :=
  (m.size + 1) / 2

/-- The end is behind the last word, whole or not. -/
theorem isPastEnd_iff (m : Image) (pc : Nat) :
    m.isPastEnd pc = true ↔ m.wordSlots ≤ pc := by
  unfold isPastEnd wordSlots
  rw [decide_eq_true_iff]
  omega

/-- An instruction is only read inside the image. -/
theorem lt_wordSlots_of_decodeAt {m : Image} {pc : Nat} {i : Instruction}
    (h : m.decodeAt pc = .ok i) : pc < m.wordSlots := by
  rcases Nat.lt_or_ge pc m.wordSlots with hlt | hge
  · exact hlt
  · unfold decodeAt at h
    rw [if_pos ((m.isPastEnd_iff pc).mpr hge)] at h
    cases h

/-- Where an instruction stands is not past the end. -/
theorem not_isPastEnd_of_decodeAt {m : Image} {pc : Nat} {i : Instruction}
    (h : m.decodeAt pc = .ok i) : ¬ m.isPastEnd pc = true := by
  intro hpast
  have hlt := lt_wordSlots_of_decodeAt h
  have hge := (m.isPastEnd_iff pc).mp hpast
  omega

/-- An image that fits a program memory has no more words than the counter
reaches. -/
theorem wordSlots_le {m : Image} (h : m.size ≤ capacity) :
    m.wordSlots ≤ 2 ^ 22 := by
  unfold wordSlots
  unfold capacity at h
  omega

end Image

namespace Stack

/-- A place in a program: a word address and the height of the stack there. -/
abbrev Point := Nat × Int

-- ================================================================= rules

/-- Where an instruction leads when `next` is the address behind it, and the
number of bytes the stack grows by. A return leads nowhere, nor does a transfer
without a known destination. -/
def Leads (m : Image) (bytes next pc : Nat) (rise : Int) : Flow → Prop
  | .branch offset =>
      ((Target.relative offset).resolve next = some pc ∨ pc = next) ∧ rise = 0
  | .skip =>
      (pc = next ∨ m.isPastEnd next = true ∧ pc = next + 1
          ∨ ∃ skipped, m.decodeAt next = .ok skipped
            ∧ pc = next + skipped.width)
        ∧ rise = 0
  | .jump target => target.resolve next = some pc ∧ rise = 0
  -- a call by offset is taken not to come back
  | .call (.relative offset) =>
      (Target.relative offset).resolve next = some pc ∧ rise = bytes
  | .call (.absolute address) =>
      pc = next ∧ rise = 0 ∨ pc = address ∧ rise = bytes
  | .call .unresolved => False
  | .ret => False
  | .interruptReturn => False
  | .push => pc = next ∧ rise = 1
  | .pop => pc = next ∧ rise = -1
  | .wideStore => pc = next ∧ rise = 2
  | .straight => pc = next ∧ rise = 0

/-- One step of control from a place inside the image. -/
def FlowStep (m : Image) (bytes : Nat) (p q : Point) : Prop :=
  ∃ i, m.decodeAt p.1 = .ok i
    ∧ Leads m bytes (p.1 + i.width) q.1 (q.2 - p.2) i.flow

/-- What steps of control reach from the entry point on an empty stack. -/
def Reachable (m : Image) (c : Config) : Point → Prop :=
  Relation.ReflTransGen (FlowStep m c.returnAddressBytes) (c.entryPoint, 0)

variable {m : Image} {c : Config} {bytes : Nat} {p q : Point}

theorem Reachable.entry : Reachable m c (c.entryPoint, 0) :=
  Relation.ReflTransGen.refl

theorem Reachable.step (hp : Reachable m c p)
    (h : FlowStep m c.returnAddressBytes p q) :
    Reachable m c q :=
  Relation.ReflTransGen.tail hp h

/-- No rule pops more than one byte or pushes more than three. -/
theorem Leads.rise_bounds {next pc : Nat} {rise : Int} {flow : Flow}
    (hbytes : bytes ≤ 3) (h : Leads m bytes next pc rise flow) :
    -1 ≤ rise ∧ rise ≤ 3 := by
  unfold Leads at h
  split at h <;> grind

/-- A step takes off one byte at most and adds three at most. -/
theorem FlowStep.height_bounds (hbytes : bytes ≤ 3)
    (h : FlowStep m bytes p q) :
    p.2 - 1 ≤ q.2 ∧ q.2 ≤ p.2 + 3 := by
  obtain ⟨i, -, hl⟩ := h
  have := hl.rise_bounds hbytes
  omega

/-- Control goes on behind a skip, to what it can also leave out. -/
theorem FlowStep.of_skip {pc : Nat} {i : Instruction}
    (hd : m.decodeAt pc = .ok i) (hskip : i.flow = .skip) (height : Int) :
    FlowStep m bytes (pc, height) (pc + i.width, height) := by
  refine ⟨i, hd, ?_⟩
  rw [hskip]
  exact ⟨.inl rfl, Int.sub_self height⟩

-- ======================================================= moving up or down

/-- A place on a stack that is higher by `rise` bytes. -/
def Point.raise (p : Point) (rise : Int) : Point :=
  (p.1, p.2 + rise)

/-- Steps do not depend on how high they start. -/
theorem FlowStep.raise (h : FlowStep m bytes p q) (rise : Int) :
    FlowStep m bytes (p.raise rise) (q.raise rise) := by
  obtain ⟨i, hd, hl⟩ := h
  refine ⟨i, hd, ?_⟩
  have hsame : (q.raise rise).2 - (p.raise rise).2 = q.2 - p.2 := by
    unfold Point.raise
    omega
  rw [hsame]
  exact hl

/-- A path may be moved as a whole. -/
theorem raise_path (h : Relation.ReflTransGen (FlowStep m bytes) p q)
    (rise : Int) :
    Relation.ReflTransGen (FlowStep m bytes) (p.raise rise)
      (q.raise rise) := by
  induction h with
  | refl => exact .refl
  | tail _ hstep ih => exact ih.tail (hstep.raise rise)

-- ==================================================== the walk's successors

/-- A height that no rule can take to its limits. -/
def HasRoom (height : Int) : Prop :=
  -heightLimit ≤ height ∧ height + 3 ≤ heightLimit

/-- With room above and below, heights are added without saturation. -/
theorem HasRoom.shift_eq {height delta : Int} (h : HasRoom height)
    (hlow : -1 ≤ delta) (hhigh : delta ≤ 3) :
    shift height delta = height + delta := by
  obtain ⟨hl, hh⟩ := h
  exact shift_eq_add (by omega) (by omega)

/-- A skip goes to what is behind it, or leaves out the width that the walk
reckons with. -/
theorem leads_skip_iff {next pc : Nat} {rise : Int} :
    Leads m bytes next pc rise .skip ↔
      (pc = next
          ∨ ∃ width, skippedWidth m next = .ok width ∧ pc = next + width)
        ∧ rise = 0 := by
  simp only [Leads]
  unfold skippedWidth
  split
  · next hpast =>
      have hnone : ∀ skipped, m.decodeAt next ≠ .ok skipped := by
        intro skipped hd
        exact Image.not_isPastEnd_of_decodeAt hd hpast
      simp [hnone, hpast]
  · next hpast =>
      split
      · next skipped hd => simp [hd, hpast]
      · next cause hd => simp [hd, hpast]

/-- The arrivals an instruction is put to work with are the steps the rules
allow. -/
theorem mem_successors_iff {pc : Nat} {i : Instruction} {height : Int}
    {e : Effect} (he : effect m bytes pc i height = .ok e) (hbytes : bytes ≤ 3)
    (hroom : HasRoom height) :
    q ∈ e.successors
      ↔ Leads m bytes (pc + i.width) q.1 (q.2 - height) i.flow := by
  obtain ⟨dest, h⟩ := q
  have hcalled : shift height bytes = height + bytes :=
    hroom.shift_eq (by omega) (by omega)
  have hpushed : shift height 1 = height + 1 :=
    hroom.shift_eq (by omega) (by omega)
  have hpopped : shift height (-1) = height + -1 :=
    hroom.shift_eq (by omega) (by omega)
  have hstored : shift height 2 = height + 2 :=
    hroom.shift_eq (by omega) (by omega)
  unfold effect at he
  dsimp only at he
  cases hf : i.flow with
  | branch offset =>
      rw [hf] at he
      dsimp only at he
      split at he
      · next target ht =>
          cases he
          simp only [Leads, ht, List.mem_cons, Prod.mk.injEq,
            Option.some.injEq]
          grind
      · next ht =>
          cases he
          simp only [Leads, ht, List.mem_cons, Prod.mk.injEq]
          grind
  | skip =>
      rw [hf] at he
      dsimp only at he
      split at he
      · next width hw =>
          cases he
          rw [leads_skip_iff]
          simp only [hw, List.mem_cons, Prod.mk.injEq, Except.ok.injEq]
          grind
      · cases he
  | jump target =>
      rw [hf] at he
      dsimp only at he
      split at he
      · next pc ht =>
          cases he
          simp only [Leads, ht, List.mem_cons, Prod.mk.injEq,
            Option.some.injEq]
          grind
      · next ht =>
          cases he
          simp only [Leads, ht, List.not_mem_nil]
          grind
  | call target =>
      rw [hf] at he
      dsimp only at he
      cases target with
      | relative offset =>
          split at he
          · next ht =>
              cases he
              simp only [Leads, ht, List.not_mem_nil]
              grind
          · next pc ht =>
              cases he
              simp only [Leads, ht, hcalled, List.mem_cons, Prod.mk.injEq,
                Option.some.injEq]
              grind
      | absolute address =>
          cases he
          simp only [Leads, hcalled, List.mem_cons, Prod.mk.injEq]
          grind
      | unresolved =>
          cases he
          simp only [Leads, List.not_mem_nil]
  | ret =>
      rw [hf] at he
      cases he
      simp only [Leads, List.not_mem_nil]
  | interruptReturn =>
      rw [hf] at he
      cases he
  | push =>
      rw [hf] at he
      cases he
      simp only [Leads, hpushed, List.mem_singleton, Prod.mk.injEq]
      omega
  | pop =>
      rw [hf] at he
      cases he
      simp only [Leads, hpopped, List.mem_singleton, Prod.mk.injEq]
      omega
  | wideStore =>
      rw [hf] at he
      cases he
      simp only [Leads, hstored, List.mem_singleton, Prod.mk.injEq]
      omega
  | straight =>
      rw [hf] at he
      cases he
      simp only [Leads, List.mem_singleton, Prod.mk.injEq]
      omega

end Stack

end AvrFirmware
