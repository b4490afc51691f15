/-
Programs without a turn.

# The closed form

Instructions that only go on, with a return behind them, are a program
whose one path is known beforehand: the k-th arrival is at the sum of the
widths before it (`addressOf`), on the sum of the costs before it
(`heightAfter`). So each field of the report is a count, a maximum or a
selection over the prefixes of the list.

# The walk

`Walked` is the state of a walk that has entered the first k instructions.
Each has cost one step, one state and one place on the path, for nothing is
left before the return: the departures pile up behind the next arrival.
That is why both budgets are needed in full. One rule takes the walk over
an instruction (`Walked.enter`), and it serves for those that go on as for
the return, which leads nowhere. What is left then is departures, and they
change no field of the report (`exists_run_of_leaves`).
-/
import AvrFirmware.Proofs.Assembly.Layout
import AvrFirmware.Proofs.Image.Placement
import AvrFirmware.Proofs.Stack.Consistency
import AvrFirmware.Proofs.Stack.Lockstep

namespace AvrFirmware

namespace Flow

/-- Control goes on behind the instruction and nowhere else. -/
def isLinear : Flow → Bool
  | push => true
  | pop => true
  | wideStore => true
  | straight => true
  | _ => false

/-- The bytes that an instruction of linear flow adds to the stack. -/
def cost : Flow → Int
  | push => 1
  | pop => -1
  | wideStore => 2
  | _ => 0

/-- Without calls an instruction moves the height by at most two. -/
theorem cost_bounds (flow : Flow) : -1 ≤ flow.cost ∧ flow.cost ≤ 2 := by
  cases flow <;> simp [cost]

end Flow

namespace Image

/-- Where the bytes of an image begin with those of some words, the words are
read back. -/
theorem word?_of_bytes {m : Image} {ws : List Word} {pc : Nat} {w : Word}
    (hbytes : ws.flatMap Word.bytes <+: m.bytes.toList)
    (hw : ws[pc]? = some w) :
    m.word? pc = some w := by
  have hread {a : Nat} {byte : UInt8}
      (h : (ws.flatMap Word.bytes)[a]? = some byte) :
      m.read? a = some byte := by
    obtain ⟨hlt, hbyte⟩ := List.getElem?_eq_some_iff.mp h
    have hsame := List.prefix_iff_getElem?.mp hbytes a hlt
    rwa [hbyte, Array.getElem?_toList] at hsame
  obtain ⟨hlow, hhigh⟩ := getElem?_bytes ws pc
  rw [hw] at hlow hhigh
  rw [word?, hread hlow, hread hhigh]
  exact congrArg some (Word.ofBytes_bytes w)

end Image

namespace Stack

variable {m : Image} {c : Config} {is : List Instruction} {i : Instruction}
  {k : Nat}

-- ============================================================== prefixes

/-- The height of the stack behind the first `k` of some instructions. -/
def heightAfter (is : List Instruction) (k : Nat) : Int :=
  ((is.take k).map fun i => i.flow.cost).sum

/-- The address behind the first `k` of some instructions. -/
def addressOf (is : List Instruction) (k : Nat) : Nat :=
  ((is.take k).map Instruction.width).sum

/-- The instruction behind the first `k` is a pop that leaves the stack below
its start. -/
def SinksAt (is : List Instruction) (k : Nat) : Prop :=
  is[k]?.map Instruction.flow = some .pop ∧ heightAfter is (k + 1) < 0

instance (is : List Instruction) (k : Nat) : Decidable (SinksAt is k) :=
  inferInstanceAs (Decidable (_ ∧ _))

/-- The addresses of the pops that leave the stack below its start. -/
def sunkenPops (is : List Instruction) : List Nat :=
  ((List.range is.length).filter fun k => SinksAt is k).map (addressOf is)

/-- Each instruction adds its cost. -/
theorem heightAfter_succ (h : is[k]? = some i) :
    heightAfter is (k + 1) = heightAfter is k + i.flow.cost := by
  rw [heightAfter, List.take_add_one, h]
  simp [heightAfter]

/-- Each instruction stands behind the one before it. -/
theorem addressOf_succ (h : is[k]? = some i) :
    addressOf is (k + 1) = addressOf is k + i.width := by
  rw [addressOf, List.take_add_one, h]
  simp [addressOf]

/-- What lies behind does not matter. -/
theorem addressOf_append {js : List Instruction} (hk : k ≤ is.length) :
    addressOf (is ++ js) k = addressOf is k := by
  rw [addressOf, List.take_append_of_le_length hk, addressOf]

/-- An instruction moves the stack by two bytes at most, and takes at least one
word. -/
theorem heightAfter_bounds (hk : k ≤ is.length) :
    -(addressOf is k : Int) ≤ heightAfter is k
      ∧ heightAfter is k ≤ 2 * addressOf is k := by
  induction k with
  | zero => simp [heightAfter, addressOf]
  | succ k ih =>
      have hi := List.getElem?_eq_getElem hk
      have hwidth := is[k].one_le_width
      have hcost := is[k].flow.cost_bounds
      rw [heightAfter_succ hi, addressOf_succ hi]
      have hbounds := ih (by omega)
      omega

/-- Later instructions stand at higher addresses. -/
theorem addressOf_lt {j : Nat} (hjk : j < k) (hk : k ≤ is.length) :
    addressOf is j < addressOf is k := by
  induction k with
  | zero => omega
  | succ k ih =>
      rw [addressOf_succ (List.getElem?_eq_getElem hk)]
      have hwidth := is[k].one_le_width
      rcases Nat.lt_succ_iff_lt_or_eq.mp hjk with hlt | rfl
      · have hbelow := ih hlt (by omega)
        omega
      · omega

/-- The addresses of the pops that sink below the start. -/
theorem mem_sunkenPops {pc : Nat} :
    pc ∈ sunkenPops is
      ↔ ∃ j < is.length, SinksAt is j ∧ pc = addressOf is j := by
  simp only [sunkenPops, List.mem_map, List.mem_filter, List.mem_range,
    decide_eq_true_eq, and_assoc, eq_comm (a := pc)]

theorem pairwise_sunkenPops (is : List Instruction) :
    (sunkenPops is).Pairwise (· < ·) := by
  rw [sunkenPops, List.pairwise_map]
  refine List.Pairwise.imp_of_mem ?_ (List.pairwise_lt_range.filter _)
  intro j k _ hk hlt
  exact addressOf_lt hlt (List.mem_range.mp (List.mem_of_mem_filter hk)).le

-- ============================================================== placing

theorem startOf_words (is : List Instruction) (k : Nat) :
    Assembly.startOf (is.map Instruction.words) k = addressOf is k := by
  have hlengths : (is.take k).map (List.length ∘ Instruction.words)
      = (is.take k).map Instruction.width :=
    List.map_congr_left fun i _ => i.length_words
  rw [Assembly.startOf, ← List.map_take, List.length_flatten, List.map_map,
    hlengths, addressOf]

/-- Instructions that lie one behind the other from the start of an image are
read there. -/
theorem decodeAt_addressOf (hencodable : ∀ i ∈ is, i.Encodable)
    (hbytes : is.flatMap Instruction.bytes <+: m.bytes.toList)
    (hi : is[k]? = some i) :
    m.decodeAt (addressOf is k) = .ok i := by
  have hwords : (is.map Instruction.words).flatten.flatMap Word.bytes
      <+: m.bytes.toList := by
    rwa [← List.flatMap_def, List.flatMap_assoc]
  have hchunk : (is.map Instruction.words)[k]? = some i.words := by
    rw [List.getElem?_map, hi, Option.map_some]
  refine Image.decodeAt_of_words (hencodable i (List.mem_of_getElem? hi)) ?_
  intro j w hw
  rw [← startOf_words]
  exact Image.word?_of_bytes hwords
    (Assembly.getElem?_flatten_startOf hchunk hw)

-- ============================================================== effects

/-- Where nothing is cut off, an instruction of linear flow leads behind
itself, and its cost is added. -/
theorem effect_of_isLinear {bytes pc : Nat} {height : Int}
    (hlinear : i.flow.isLinear = true) (hroom : HasRoom height) :
    ∃ e, effect m bytes pc i height = .ok e ∧ e.isGap = false
      ∧ e.successors = [(pc + i.width, height + i.flow.cost)] := by
  unfold effect
  cases hflow : i.flow <;> rw [hflow] at hlinear <;> cases hlinear
  case push =>
    exact ⟨_, rfl, rfl, by rw [hroom.shift_eq (by decide) (by decide)]; rfl⟩
  case pop =>
    exact ⟨_, rfl, rfl, by rw [hroom.shift_eq (by decide) (by decide)]; rfl⟩
  case wideStore =>
    exact ⟨_, rfl, rfl, by rw [hroom.shift_eq (by decide) (by decide)]; rfl⟩
  case straight => exact ⟨_, rfl, rfl, by simp [Flow.cost]⟩

namespace Session

variable {s : Session}

-- ============================================================= the walk

/-- A walk that has entered the first `k` instructions, with some arrivals
before it. -/
structure Walked (m : Image) (is : List Instruction)
    (arrivals : List (Nat × Int)) (k : Nat) (s : Session) : Prop where
  /-- Behind the arrivals there are only departures. -/
  work : ∃ rest, s.work = arrivals.map (fun a => .visit a.1 a.2) ++ rest
    ∧ ∀ task ∈ rest, ∃ state, task = .leave state
  steps : s.steps = k
  depth : s.depth = k
  states : s.memo.size = k
  /-- Nothing from an arrival on has been met. -/
  ahead : ∀ a ∈ arrivals, ∀ pc, a.1 ≤ pc → s.memo.entryAt? m pc = none
  peak : s.peak
    = ⟨(Finset.range k).sup fun j => (heightAfter is j).toNat, false⟩
  gaps : s.gaps = ∅
  underflows : ∀ pc, pc ∈ s.underflows
    ↔ ∃ j < k, SinksAt is j ∧ pc = addressOf is j
  unbounded : s.unbounded = none

/-- A walk starts in front of the first instruction. -/
theorem Walked.start (hentry : c.entryPoint = 0) (log : List Event) :
    Walked m is [(addressOf is 0, heightAfter is 0)] 0 (start c log) where
  work :=
    ⟨[], by simp [Session.start, hentry, addressOf, heightAfter], by simp⟩
  steps := rfl
  depth := rfl
  states := rfl
  ahead _ _ pc _ := Memo.entryAt?_empty c.revisit pc
  peak := rfl
  gaps := rfl
  underflows pc := by simp [Session.start]
  unbounded := rfl

/-- An instruction behind the others is entered, if both budgets have room for
one more. -/
theorem Walked.enter {e : Effect}
    (hs : Walked m is [(addressOf is k, heightAfter is k)] k s)
    (hd : m.decodeAt (addressOf is k) = .ok i)
    (he : effect m c.returnAddressBytes (addressOf is k) i (heightAfter is k)
      = .ok e)
    (hgap : e.isGap = false)
    (hforward : ∀ a ∈ e.successors, addressOf is k < a.1)
    (hsinks : i.flow = .pop ∧ heightAfter is k ≤ 0 ↔ SinksAt is k)
    (hsteps : k < c.maxSteps) (hdepth : k < c.maxDepth) :
    ∃ t, s.run m c = t.run m c ∧ Walked m is e.successors (k + 1) t := by
  obtain ⟨rest, hw, hleaves⟩ := hs.work
  have hstate := Image.stateAt?_of_decodeAt hd
  have hnew : s.memo.get? ⟨i, addressOf is k + i.width⟩ = none := by
    rw [← Memo.entryAt?_of_stateAt? s.memo hstate]
    exact hs.ahead _ (List.mem_singleton_self _) _ le_rfl
  have hadmits : s.memo.Admits ⟨i, addressOf is k + i.width⟩
      (heightAfter is k) := .inl hnew
  have hproceeds := Proceeds.entered (s := { s with work := rest })
    (show s.steps < c.maxSteps by rwa [hs.steps]) hd hadmits
    (show s.depth < c.maxDepth by rwa [hs.depth]) he
  refine ⟨_, run_of_perform hw (perform_of_proceeds hproceeds), ?_⟩
  constructor
  case underflows =>
    intro pc
    rw [mem_underflows_apply he]
    show _ ∨ pc ∈ s.underflows ↔ _
    rw [hs.underflows, hsinks, Nat.exists_lt_succ_right, or_comm, and_comm]
  all_goals rw [apply_eq]
  case work =>
    refine ⟨.leave ⟨i, addressOf is k + i.width⟩ :: rest, rfl, ?_⟩
    intro task hmem
    rcases List.mem_cons.mp hmem with rfl | hmem
    · exact ⟨_, rfl⟩
    · exact hleaves task hmem
  case steps => exact congrArg (· + 1) hs.steps
  case depth => exact congrArg (· + 1) hs.depth
  case states =>
    show (s.memo.explore _ _).size = k + 1
    rw [Memo.size_explore hadmits, if_pos hnew, hs.states]
  case ahead =>
    intro a ha pc hpc
    have hlt := hforward a ha
    show (s.memo.explore _ _).entryAt? m pc = none
    rw [Memo.entryAt?_explore hstate hadmits, if_neg (by omega)]
    exact hs.ahead _ (List.mem_singleton_self _) pc (by omega)
  case peak =>
    show s.peak.observe (heightAfter is k) = _
    rw [hs.peak, Finset.range_add_one, Finset.sup_insert, sup_comm]
    rfl
  case gaps =>
    show (if e.isGap then s.gaps.insert _ _ else s.gaps) = ∅
    rw [hgap]
    exact hs.gaps
  case unbounded => exact hs.unbounded

/-- An instruction of linear flow takes the walk to the next one. -/
theorem Walked.next (hs : Walked m is [(addressOf is k, heightAfter is k)] k s)
    (hm : m.size ≤ Image.capacity) (hi : is[k]? = some i)
    (hd : m.decodeAt (addressOf is k) = .ok i)
    (hlinear : i.flow.isLinear = true) (hsteps : k < c.maxSteps)
    (hdepth : k < c.maxDepth) :
    ∃ t, s.run m c = t.run m c
      ∧ Walked m is [(addressOf is (k + 1), heightAfter is (k + 1))]
          (k + 1) t := by
  obtain ⟨hk, -⟩ := List.getElem?_eq_some_iff.mp hi
  -- the counter stays below 2 ^ 22, and no height is further from zero than
  -- twice the counter
  have hroom : HasRoom (heightAfter is k) := by
    have hinside := Image.lt_wordSlots_of_decodeAt hd
    have hslots := Image.wordSlots_le hm
    have hbounds := heightAfter_bounds hk.le
    unfold HasRoom heightLimit
    omega
  obtain ⟨e, he, hgap, hsuccessors⟩ := effect_of_isLinear hlinear hroom
  rw [← addressOf_succ hi, ← heightAfter_succ hi] at hsuccessors
  rw [← hsuccessors]
  refine hs.enter hd he hgap ?_ ?_ hsteps hdepth
  · intro a ha
    rw [hsuccessors, List.mem_singleton] at ha
    rw [ha]
    exact addressOf_lt k.lt_succ_self hk
  · unfold SinksAt
    rw [hi, heightAfter_succ hi, Option.map_some, Option.some_inj]
    refine and_congr_right fun hpop => ?_
    rw [hpop, Flow.cost]
    omega

/-- The walk comes to every instruction. -/
theorem exists_walked (hm : m.size ≤ Image.capacity)
    (hentry : c.entryPoint = 0)
    (hlaid : ∀ k i, is[k]? = some i → m.decodeAt (addressOf is k) = .ok i)
    (hlinear : ∀ i ∈ is, i.flow.isLinear = true) (log : List Event)
    (hk : k ≤ is.length) (hsteps : k ≤ c.maxSteps) (hdepth : k ≤ c.maxDepth) :
    ∃ s, (Session.start c log).run m c = s.run m c
      ∧ Walked m is [(addressOf is k, heightAfter is k)] k s := by
  induction k with
  | zero => exact ⟨_, rfl, .start hentry log⟩
  | succ k ih =>
      obtain ⟨s, hrun, hs⟩ := ih (by omega) (by omega) (by omega)
      have hi := List.getElem?_eq_getElem hk
      obtain ⟨t, hstep, ht⟩ :=
        hs.next hm hi (hlaid k _ hi) (hlinear _ (List.getElem_mem hk)) hsteps
          hdepth
      exact ⟨t, hrun.trans hstep, ht⟩

/-- The return ends the walk. -/
theorem Walked.ret (hs : Walked m is [(addressOf is k, heightAfter is k)] k s)
    (hk : is[k]? = none) (hd : m.decodeAt (addressOf is k) = .ok (.bare .ret))
    (hsteps : k < c.maxSteps) (hdepth : k < c.maxDepth) :
    ∃ t, s.run m c = t.run m c ∧ Walked m is [] (k + 1) t := by
  have he : effect m c.returnAddressBytes (addressOf is k) (.bare .ret)
      (heightAfter is k)
      = .ok { successors := [] } := rfl
  have hflow : (Instruction.bare .ret).flow = .ret := rfl
  refine hs.enter hd he rfl ?_ ?_ hsteps hdepth
  · intro a ha
    cases ha
  · rw [hflow, SinksAt, hk]
    simp

-- ========================================================== the report

/-- Departures change no field of the report. -/
theorem exists_run_of_leaves {work : List Task} (hw : s.work = work)
    (hleaves : ∀ task ∈ work, ∃ state, task = .leave state) :
    ∃ t, s.run m c = .ok t ∧ t.report = s.report := by
  induction work generalizing s with
  | nil => exact ⟨s, run_of_done hw, rfl⟩
  | cons task rest ih =>
      obtain ⟨state, rfl⟩ := hleaves task List.mem_cons_self
      have hrest (task : Task) (h : task ∈ rest) := hleaves task
        (List.mem_cons_of_mem _ h)
      obtain ⟨t, hrun, hreport⟩ :=
        ih (s := ({ s with work := rest } : Session).leave state) rfl hrest
      refine ⟨t, (run_of_perform hw rfl).trans hrun, hreport.trans ?_⟩
      simp [report, leave]

/-- What is reported when nothing is left to walk. -/
theorem Walked.report (hs : Walked m is [] (is.length + 1) s) :
    s.report =
      { usage := .bounded
          ((Finset.range (is.length + 1)).sup fun k =>
            (heightAfter is k).toNat)
        steps := is.length + 1
        states := is.length + 1
        gaps := []
        underflows := sunkenPops is
        unbounded := none } := by
  have hunderflows : s.underflows.toList = sunkenPops is := by
    refine s.pairwise_underflows_report.eq_of_mem_iff (pairwise_sunkenPops is)
      ?_
    intro pc
    show pc ∈ s.underflows.toList ↔ _
    -- behind the last instruction there is no pop
    have hend : ¬ SinksAt is is.length := by
      simp [SinksAt]
    rw [Std.TreeSet.mem_toList, hs.underflows, mem_sunkenPops,
      Nat.exists_lt_succ_right]
    exact or_iff_left fun h => hend h.1
  rw [Session.report, hs.peak, hs.steps, hs.states, hs.gaps, hs.unbounded,
    hunderflows]
  rfl

end Session

/-- Instructions of linear flow with a return behind them are measured exactly,
whichever policy is in force, with budgets that have no step and no place to
spare. -/
theorem straight_line_measured (hm : m.size ≤ Image.capacity)
    (hread : ∀ i ∈ is, ∃ word next, decode word next = .ok i)
    (hlinear : ∀ i ∈ is, i.flow.isLinear = true)
    (hbytes : (is ++ [Instruction.bare .ret]).flatMap Instruction.bytes
      <+: m.bytes.toList)
    (hc : c.Valid) (hentry : c.entryPoint = 0)
    (hsteps : is.length + 1 ≤ c.maxSteps)
    (hdepth : is.length + 1 ≤ c.maxDepth) :
    (analyze m c).result = .ok
      { usage := .bounded
          ((Finset.range (is.length + 1)).sup fun k =>
            (heightAfter is k).toNat)
        steps := is.length + 1
        states := is.length + 1
        gaps := []
        underflows := sunkenPops is
        unbounded := none } := by
  have hencodable (i : Instruction) (hi : i ∈ is ++ [.bare .ret]) :
      i.Encodable := by
    rcases List.mem_append.mp hi with hi | hi
    · obtain ⟨word, next, hdecode⟩ := hread i hi
      exact Instruction.encodable_of_decode hdecode
    · cases List.mem_singleton.mp hi
      decide
  have hlaid (k : Nat) (i : Instruction) (hi : is[k]? = some i) :
      m.decodeAt (addressOf is k) = .ok i := by
    obtain ⟨hk, -⟩ := List.getElem?_eq_some_iff.mp hi
    rw [← addressOf_append hk.le]
    exact decodeAt_addressOf hencodable hbytes
      ((List.getElem?_append_left hk).trans hi)
  have hreturn : m.decodeAt (addressOf is is.length) = .ok (.bare .ret) := by
    rw [← addressOf_append le_rfl]
    exact decodeAt_addressOf hencodable hbytes List.getElem?_concat_length
  obtain ⟨s, hwalk, hs⟩ :=
    Session.exists_walked hm hentry hlaid hlinear [.started m.size c] le_rfl
    (by omega) (by omega)
  obtain ⟨t, hreturns, ht⟩ :=
    hs.ret (List.getElem?_eq_none le_rfl) hreturn hsteps hdepth
  obtain ⟨rest, hw, hleaves⟩ := ht.work
  obtain ⟨u, hends, hreport⟩ :=
    Session.exists_run_of_leaves (m := m) (c := c) hw hleaves
  rw [Session.result_analyze m hc, hwalk, hreturns, hends]
  exact congrArg Except.ok (hreport.trans ht.report)

/-- Goes below the start of the stack at once, comes up to two bytes, and goes
below it again. -/
def sinkingProgram : List Instruction :=
  [.pop (.ofNat 24), .push (.ofNat 24), .sts 0x0100 (.ofNat 24),
    .pop (.ofNat 24), .pop (.ofNat 25), .pop (.ofNat 26), .pop (.ofNat 27)]

/-- The image of that program. -/
def sinkingImage : Image :=
  .ofBytes
    ((sinkingProgram ++ [Instruction.bare .ret]).flatMap Instruction.bytes)

theorem straight_line_measured_sinkingProgram :
    (analyze sinkingImage { maxSteps := 8, maxDepth := 8 }).result
        = .ok ⟨.bounded 2, 8, 8, [], [0, 6, 7], none⟩
      ∧ (analyze sinkingImage
        { maxSteps := 8, maxDepth := 8, revisit := .firstVisit }).result
        = .ok ⟨.bounded 2, 8, 8, [], [0, 6, 7], none⟩ := by
  have hread : ∀ i ∈ sinkingProgram, ∃ word next,
      decode word next = .ok i := by
    have hencodable : ∀ i ∈ sinkingProgram, i.Encodable := by decide
    intro i hi
    exact ⟨_, _, Instruction.reread_of_encodable (hencodable i hi)⟩
  have hlinear : ∀ i ∈ sinkingProgram, i.flow.isLinear = true := by decide
  have hmeasured {c : Config} :=
    straight_line_measured (m := sinkingImage) (c := c) (by decide) hread
      hlinear List.prefix_rfl
  have hpeak : ((Finset.range (sinkingProgram.length + 1)).sup fun k =>
      (heightAfter sinkingProgram k).toNat) = 2 := by decide
  have hpops : sunkenPops sinkingProgram = [0, 6, 7] := by decide
  rw [hpeak, hpops] at hmeasured
  exact ⟨hmeasured (by decide) rfl (by decide) (by decide),
    hmeasured (by decide) rfl (by decide) (by decide)⟩

end Stack

end AvrFirmware
