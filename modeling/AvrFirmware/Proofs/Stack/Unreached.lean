/-
What control does not reach does not matter.

# Same at an address

Two images are the same at an address if both end before it, or both go
on and the same instruction, or the same error, is read there. Nothing
else of an image is looked at when an arrival is taken, with one
exception: a skip also reads what it would leave out. Control goes there
too, so that address is reachable whenever the skip is.

# One run

Over images that are the same wherever control reaches in the first, a
task does the same to a session (`visit_eq_of_sameAt`), and every arrival
of the first walk is reachable. So the two walks are one walk
(`Reached.run_eq`), up to the size of the image that the log opens with.
-/
import AvrFirmware.Proofs.Stack.Lockstep
import AvrFirmware.Proofs.Stack.Bound

namespace AvrFirmware

-- ===================================================== same at an address

/-- Two images end at the same side of an address, and inside both the same is
read there. -/
def Image.SameAt (m m' : Image) (pc : Nat) : Prop :=
  m'.isPastEnd pc = m.isPastEnd pc
    ∧ (m.isPastEnd pc = false → m'.decodeAt pc = m.decodeAt pc)

/-- Past the end nothing but the address shows. -/
theorem Image.SameAt.decodeAt_eq {m m' : Image} {pc : Nat}
    (h : m.SameAt m' pc) :
    m'.decodeAt pc = m.decodeAt pc := by
  obtain ⟨hpast, hdecode⟩ := h
  cases hend : m.isPastEnd pc with
  | false => exact hdecode hend
  | true =>
      rw [hend] at hpast
      unfold decodeAt
      rw [if_pos hpast, if_pos hend]

namespace Stack

/-- Two images are the same at every address that control reaches in the
first. -/
def SameOnReach (c : Config) (m m' : Image) : Prop :=
  ∀ pc height, Reachable m c (pc, height) → m.SameAt m' pc

variable {m m' : Image} {c : Config} {pc : Nat} {i : Instruction}
  {height : Int}

/-- A skip sees the same width. -/
theorem skippedWidth_eq_of_sameAt (h : m.SameAt m' pc) :
    skippedWidth m' pc = skippedWidth m pc := by
  unfold skippedWidth
  rw [h.1, h.decodeAt_eq]

/-- Only a skip looks at the image, and only at what is behind it. -/
theorem effect_eq_of_sameAt {bytes : Nat}
    (h : i.flow = .skip → m.SameAt m' (pc + i.width)) :
    effect m' bytes pc i height = effect m bytes pc i height := by
  unfold effect
  dsimp only
  cases hflow : i.flow with
  | skip =>
      dsimp only
      rw [skippedWidth_eq_of_sameAt (h hflow)]
  | _ => rfl

namespace Session

variable {s : Session}

-- ============================================================== one task

/-- An arrival is taken in the same way if the images are the same at its
address and, at a skip, at the address behind. -/
theorem visit_eq_of_sameAt (hpc : m.SameAt m' pc)
    (hskip : ∀ i, m.decodeAt pc = .ok i → i.flow = .skip →
      m.SameAt m' (pc + i.width)) :
    s.visit m' c pc height = s.visit m c pc height := by
  unfold visit
  dsimp only
  rw [hpc.1, hpc.decodeAt_eq]
  cases hd : m.decodeAt pc with
  | error cause => rfl
  | ok i =>
      have heffect : effect m' c.returnAddressBytes pc i height
          = effect m c.returnAddressBytes pc i height :=
            effect_eq_of_sameAt (hskip i hd)
      have hmeet : ∀ t : Session,
          t.meet m' c pc i height = t.meet m c pc i height := by
        intro t
        unfold meet enter
        rw [heffect]
      dsimp only
      rw [hmeet]

/-- Every task of a walk does the same in both images. -/
theorem Reached.perform_eq {task : Task} {rest : List Task}
    (hs : Reached m c s) (hm : m.size ≤ Image.capacity)
    (hbytes : c.returnAddressBytes ≤ 3) (hsame : SameOnReach c m m')
    (hw : s.work = task :: rest) (t : Session) :
    t.perform m' c task = t.perform m c task := by
  cases task with
  | leave k => rfl
  | visit pc height =>
      have hreach := hs.reachable_of_visit hm hbytes hw
      apply visit_eq_of_sameAt (hsame pc height hreach)
      intro i hd hskip
      -- control goes to what the skip would leave out, so that is reachable
      -- too
      exact hsame _ _ (hreach.step (.of_skip hd hskip height))

-- ============================================================= all tasks

theorem Reached.run_eq (hs : Reached m c s) (hm : m.size ≤ Image.capacity)
    (hbytes : c.returnAddressBytes ≤ 3) (hsame : SameOnReach c m m') :
    s.run m' c = s.run m c := by
  fun_induction run m c s with
  | case1 s hw => exact run_of_done hw
  | case2 s task rest hw failure hp =>
      rw [← hs.perform_eq hm hbytes hsame hw] at hp
      exact run_of_perform_error hw hp
  | case3 s task rest hw t hp ih =>
      have hnext := ih (.next hs hw hp)
      rw [← hs.perform_eq hm hbytes hsame hw] at hp
      rw [run_of_perform hw hp, hnext]

/-- What a walk comes to does not depend on what was logged before it. -/
theorem conclude_run_start (hc : c.Valid) (log : List Event) :
    conclude ((start c log).run m c) = (analyze m c).result := by
  have hwidens : c.Widens c := ⟨rfl, rfl, Nat.le_refl _, Nat.le_refl _, id⟩
  rw [result_analyze m hc]
  refine conclude_run_recast hwidens .start log ?_
  intro r reason _ _
  cases reason with
  | growingCycle pc => trivial
  | _ => rfl

end Session

-- =========================================================== the result

/-- Bytes that control does not reach have no influence: over two images that
are the same at every address that control reaches in the first, an analysis
has the same report, in all its parts, or the same error. -/
theorem unreached_bytes_ignored (hm : m.size ≤ Image.capacity) (hc : c.Valid)
    (hsame : SameOnReach c m m') :
    (analyze m' c).result = (analyze m c).result := by
  have hrun := Session.Reached.start.run_eq hm hc.bytes_le hsame
  rw [← Session.conclude_run_start hc [.started m.size c], hrun,
    Session.conclude_run_start hc]

/-- A jump over a word that cannot be read, to a skip over a push. -/
def jumpOverData : Image :=
  .ofWords [0xC001, 0xFFFF, 0xFC00, 0x920F, 0x9508]

/-- The same jump over the first word of a call, and a return from an interrupt
behind the end. -/
def jumpOverCall : Image :=
  .ofWords [0xC001, 0x940E, 0xFC00, 0x920F, 0x9508, 0x9518]

/-- The four addresses that a path comes to. -/
theorem cases_of_reachable_jumpOverData {q : Point}
    (hq : Reachable jumpOverData {} q) :
    q.1 = 0 ∨ q.1 = 2 ∨ q.1 = 3 ∨ q.1 = 4 := by
  have hjump : jumpOverData.decodeAt 0 = .ok (.relative .rjmp 1) := by
    cbv
  have hskip : jumpOverData.decodeAt 2 = .ok (.registerBit .sbrc ⟨0⟩ 0) := by
    cbv
  have hpush : jumpOverData.decodeAt 3 = .ok (.push ⟨0⟩) := by
    cbv
  have hret : jumpOverData.decodeAt 4 = .ok (.bare .ret) := by
    cbv
  induction hq with
  | refl => exact .inl rfl
  | @tail p q _ hstep ih =>
      obtain ⟨i, hd, hleads⟩ := hstep
      rcases ih with hp | hp | hp | hp
      all_goals rw [hp] at hd hleads
      · cases hjump.symm.trans hd
        have hpc : some 2 = some q.1 := hleads.1
        exact .inr (.inl (Option.some.inj hpc).symm)
      · cases hskip.symm.trans hd
        obtain ⟨hpc | ⟨hpast, -⟩ | ⟨skipped, hnext, hpc⟩, -⟩ := hleads
        · exact .inr (.inr (.inl hpc))
        · cases hpast
        · cases hpush.symm.trans hnext
          exact .inr (.inr (.inr hpc))
      · cases hpush.symm.trans hd
        exact .inr (.inr (.inr hleads.1))
      · cases hret.symm.trans hd
        cases hleads

theorem unreached_bytes_ignored_jumpOverData :
    SameOnReach {} jumpOverData jumpOverCall
      ∧ (analyze jumpOverData {}).result = .ok ⟨.bounded 1, 5, 4, [], [], none⟩
      ∧ (analyze jumpOverCall {}).result
        = (analyze jumpOverData {}).result := by
  have hsame : SameOnReach {} jumpOverData jumpOverCall := by
    intro pc height hreach
    rcases cases_of_reachable_jumpOverData hreach with hpc | hpc | hpc | hpc
    all_goals
      cases hpc
      exact ⟨rfl, fun _ => by decide +kernel⟩
  have hreport : (analyze jumpOverData {}).result
      = .ok ⟨.bounded 1, 5, 4, [], [], none⟩ := by
    cbv
  exact ⟨hsame, hreport, unreached_bytes_ignored (by decide) (by decide) hsame⟩

end Stack

end AvrFirmware
