import Mathlib.Data.Fintype.Basic
import Br2Efinix.Rproc.Inbound

/-!
# Stopping the inbound kicks

* `stop_quiesces`: in every run in which `cancel_work_sync` finds no doorbell past its decision to
  schedule, no doorbell of a session that is over finds the counter changed, and the shared memory
  is unmapped under no doorbell that is about to read it, `notify_work` is idle once
  `efinix_rproc_inbound_stop` has returned, is not scheduled for that session again, and no doorbell
  reads memory that is unmapped.
* `hasty_leads`: no weaker condition will do; a step that does not meet it leads to a violation.
* `schedule_after_stop`, `read_after_unmap`: the driver does not wait for the doorbells.
-/

namespace Br2Efinix.Rproc

variable {H : Type*}

/-! ## The property -/

/-- `efinix_rproc_inbound_stop` has returned, and the gate has not been opened since. -/
def Stopped (s : Inbound H) : Prop := s.ipiActive = false ∧ ∀ removing, s.ctl ≠ .closed removing

/-- No work is left over from a session, or was scheduled for one that was over, and the shared
memory was mapped whenever it was read. -/
structure Quiet (s : Inbound H) : Prop where
  work : Stopped s → s.pending = false ∧ s.running = false
  late : s.late = false
  unmappedRead : s.unmappedRead = false

/-! ## The condition -/

/-- The session for which the doorbell has decided to schedule the work. -/
def Pc.due : Pc → Option ℕ
  | .update n _ | .schedule n _ => some n
  | _ => none

/-- The doorbell is about to read the counter. -/
def Pc.reading : Pc → Bool
  | .readCounter _ => true
  | _ => false

/-- A doorbell that compares for a session that is over finds the counter unchanged. -/
def Pc.Unmoved (s : Inbound H) : Pc → Prop
  | .compare n now => s.isOver n = true → word now = word s.lastR2lSeen
  | _ => True

instance (s : Inbound H) : ∀ p : Pc, Decidable (p.Unmoved s)
  | .compare n now => inferInstanceAs (Decidable (s.isOver n = true → word now = word s.lastR2lSeen))
  | .idle | .notify | .doorbell | .readCounter _ | .update _ _ | .schedule _ _ | .dispatch _ => isTrue trivial

/-- What the steps of a run have to meet. -/
def Patient (s : Inbound H) : InboundAct H → Prop
  | .cancel => ∀ h, (s.pc h).due = none
  | .unmap => ∀ h, (s.pc h).reading = false
  | .hart h => (s.pc h).Unmoved s
  | _ => True

instance [Fintype H] (s : Inbound H) : ∀ a, Decidable (Patient s a)
  | .cancel => inferInstanceAs (Decidable (∀ h, (s.pc h).due = none))
  | .unmap => inferInstanceAs (Decidable (∀ h, (s.pc h).reading = false))
  | .hart h => inferInstanceAs (Decidable ((s.pc h).Unmoved s))
  | .start | .sample | .store | .open_ | .close _ | .unhook | .kick | .raise | .ipi _ | .take _ | .workBegin
  | .workEnd => isTrue trivial

/-! ## The invariant -/

structure QuietInv (s : Inbound H) : Prop where
  quiet : Quiet s
  active : s.ipiActive = true → s.ctl = .idle
  mapped : s.ctl ≠ .removed → s.mapped = true
  reading : s.ctl = .removed → ∀ h, (s.pc h).reading = false
  due : ∀ h n, (s.pc h).due = some n → n = s.session ∧ ¬ Stopped s

variable {s s' : Inbound H}

theorem isOver_eq_false {n : ℕ} : s.isOver n = false ↔ n = s.session ∧ ¬ Stopped s := by
  unfold Inbound.isOver Stopped
  cases hactive : s.ipiActive <;> cases hctl : s.ctl <;> simp

theorem probed_quiet (kicks lastR2lSeen : ℕ) : QuietInv (.probed kicks lastR2lSeen : Inbound H) :=
  ⟨⟨fun _ => ⟨rfl, rfl⟩, rfl, rfl⟩, fun h => absurd h (by simp [Inbound.probed]), fun _ => rfl,
    fun h => absurd h (by simp [Inbound.probed]), fun _ _ h => absurd h (by simp [Inbound.probed, Pc.due])⟩

/-- The invariant looks at these fields only. -/
theorem QuietInv.of_same (h : QuietInv s) (hactive : s'.ipiActive = s.ipiActive) (hctl : s'.ctl = s.ctl)
    (hmapped : s'.mapped = s.mapped) (hpc : s'.pc = s.pc) (hpending : s'.pending = s.pending)
    (hrunning : s'.running = s.running) (hsession : s'.session = s.session) (hlate : s'.late = s.late)
    (hread : s'.unmappedRead = s.unmappedRead) : QuietInv s' := by
  cases s
  cases s'
  simp only at hactive hctl hmapped hpc hpending hrunning hsession hlate hread
  subst hactive hctl hmapped hpc hpending hrunning hsession hlate hread
  exact ⟨⟨h.quiet.work, h.quiet.late, h.quiet.unmappedRead⟩, h.active, h.mapped, h.reading, h.due⟩

/-- While the gate is closed and not being closed no doorbell is to schedule the work. -/
theorem QuietInv.due_none (h : QuietInv s) (hstopped : Stopped s) (j : H) : (s.pc j).due = none := by
  cases hdue : (s.pc j).due with
  | none => rfl
  | some n => exact absurd hstopped (h.due j n hdue).2

/-- The driver moves on with the gate closed: nothing was left over, and nothing is. -/
theorem QuietInv.move (h : QuietInv s) (hstopped : Stopped s) (hfrom : s.ctl ≠ .removed) {c : Ctl}
    (hc : c ≠ .removed) : QuietInv { s with ctl := c } := by
  refine ⟨⟨fun _ => h.quiet.work hstopped, h.quiet.late, h.quiet.unmappedRead⟩, ?_,
    fun _ => h.mapped hfrom, fun hr => absurd hr hc, ?_⟩
  · intro hactive
    have hinactive : s.ipiActive = true := hactive
    rw [hstopped.1] at hinactive
    exact absurd hinactive (by simp)
  · intro j n hn
    have hn' : (s.pc j).due = some n := hn
    rw [h.due_none hstopped j] at hn'
    exact absurd hn' (by simp)

/-- Outside of its calls, or with them all made, the driver has the gate closed or open. -/
theorem QuietInv.stopped (h : QuietInv s) (hidle : s.ctl ≠ .idle) (hclosed : ∀ removing, s.ctl ≠ .closed removing) :
    Stopped s := by
  refine ⟨?_, hclosed⟩
  cases hactive : s.ipiActive with
  | false => rfl
  | true => exact absurd (h.active hactive) hidle

variable [DecidableEq H] {boot : H}

/-- **A hart moves** to where it reads the counter only with the memory mapped, and decides to schedule only
for the session. -/
theorem setPc_quiet (h : QuietInv s) {i : H} {p : Pc} (hreading : s.ctl = .removed → p.reading = false)
    (hdue : ∀ n, p.due = some n → n = s.session ∧ ¬ Stopped s) : QuietInv (s.setPc i p) := by
  refine ⟨⟨h.quiet.work, h.quiet.late, h.quiet.unmappedRead⟩, h.active, h.mapped, ?_,
    ?_⟩
  · intro hremoved j
    by_cases hji : j = i
    · subst hji
      rw [Inbound.setPc_self]
      exact hreading hremoved
    · rw [Inbound.setPc_ne s p hji]
      exact h.reading hremoved j
  · intro j n hn
    by_cases hji : j = i
    · subst hji
      rw [Inbound.setPc_self] at hn
      exact hdue n hn
    · rw [Inbound.setPc_ne s p hji] at hn
      exact h.due j n hn

/-! ## The steps -/

theorem startStep_quiet {a : InboundAct H} (h : QuietInv s) (hstep : s.next boot a = some s')
    (ha : a = .start ∨ a = .sample ∨ a = .store ∨ a = .open_) : QuietInv s' := by
  rcases ha with rfl | rfl | rfl | rfl <;> unfold Inbound.next at hstep <;> simp only at hstep
  · obtain ⟨hidle, rfl⟩ := of_guard hstep
    have hstopped : Stopped s := ⟨hidle.2, fun removing => by rw [hidle.1]; simp⟩
    have hmove : QuietInv { s with ctl := .begun } := h.move hstopped (by rw [hidle.1]; simp) (by simp)
    exact hmove.of_same rfl rfl rfl rfl rfl rfl rfl rfl rfl
  · obtain ⟨hbegun, rfl⟩ := of_guard hstep
    have hstopped : Stopped s := h.stopped (by rw [hbegun]; simp) (by rw [hbegun]; simp)
    exact h.move hstopped (by rw [hbegun]; simp) (by simp)
  · split at hstep
    · rename_i now hsampled
      obtain rfl := Option.some.inj hstep
      have hstopped : Stopped s := h.stopped (by rw [hsampled]; simp) (by rw [hsampled]; simp)
      have hmove : QuietInv { s with ctl := .stored } := h.move hstopped (by rw [hsampled]; simp) (by simp)
      exact hmove.of_same rfl rfl rfl rfl rfl rfl rfl rfl rfl
    · exact absurd hstep (by simp)
  · obtain ⟨hstored, rfl⟩ := of_guard hstep
    have hstopped : Stopped s := h.stopped (by rw [hstored]; simp) (by rw [hstored]; simp)
    -- a new session begins, and no doorbell has decided anything yet
    refine ⟨⟨fun hs => absurd hs.1 (by simp), h.quiet.late, h.quiet.unmappedRead⟩, fun _ => rfl,
      fun _ => h.mapped (by rw [hstored]; simp), fun hr => absurd hr (by simp), fun j n hn => ?_⟩
    have hn' : (s.pc j).due = some n := hn
    rw [h.due_none hstopped j] at hn'
    exact absurd hn' (by simp)

/-- **The gate closes**: the session is not over until the work is cancelled. -/
theorem close_quiet {removing : Bool} (h : QuietInv s) (hstep : s.next boot (.close removing) = some s') :
    QuietInv s' := by
  obtain ⟨hidle, rfl⟩ := of_guard hstep
  refine ⟨⟨fun hs => absurd rfl (hs.2 removing), h.quiet.late, h.quiet.unmappedRead⟩,
    fun hactive => absurd hactive (by simp), fun _ => h.mapped (by rw [hidle]; simp),
    fun hr => absurd hr (by simp), fun j n hn => ?_⟩
  exact ⟨(h.due j n hn).1, fun hs => hs.2 removing rfl⟩

/-- **The work is cancelled** when no doorbell is to schedule it any more. -/
theorem cancel_quiet (h : QuietInv s) (hpatient : ∀ j, (s.pc j).due = none)
    (hstep : s.next boot .cancel = some s') : QuietInv s' := by
  unfold Inbound.next at hstep
  simp only at hstep
  split at hstep
  · rename_i removing hclosed
    obtain ⟨hrunning, rfl⟩ := of_guard_not hstep
    have hinactive : s.ipiActive = false := by
      cases hactive : s.ipiActive with
      | false => rfl
      | true => exact absurd (hclosed ▸ h.active hactive) (by simp)
    refine ⟨⟨fun _ => ⟨rfl, by simpa using hrunning⟩, h.quiet.late, h.quiet.unmappedRead⟩, fun hactive => ?_,
      fun _ => h.mapped (by rw [hclosed]; simp), fun hr => ?_, fun j n hn => ?_⟩
    · rw [show s.ipiActive = true from hactive] at hinactive
      exact absurd hinactive (by simp)
    · simp only at hr
      split at hr <;> exact absurd hr (by simp)
    · have hn' : (s.pc j).due = some n := hn
      rw [hpatient j] at hn'
      exact absurd hn' (by simp)
  · exact absurd hstep (by simp)

theorem removeStep_quiet {a : InboundAct H} (h : QuietInv s) (hpatient : Patient s a)
    (hstep : s.next boot a = some s') (ha : a = .unhook ∨ a = .unmap) : QuietInv s' := by
  rcases ha with rfl | rfl <;> unfold Inbound.next at hstep <;> simp only at hstep
  · obtain ⟨hunhook, rfl⟩ := of_guard hstep
    have hstopped : Stopped s := h.stopped (by rw [hunhook]; simp) (by rw [hunhook]; simp)
    have hmove : QuietInv { s with ctl := .unmap } := h.move hstopped (by rw [hunhook]; simp) (by simp)
    exact hmove.of_same rfl rfl rfl rfl rfl rfl rfl rfl rfl
  · obtain ⟨hunmap, rfl⟩ := of_guard hstep
    have hstopped : Stopped s := h.stopped (by rw [hunmap]; simp) (by rw [hunmap]; simp)
    refine ⟨⟨fun _ => h.quiet.work hstopped, h.quiet.late, h.quiet.unmappedRead⟩, ?_,
      fun hne => absurd rfl hne, fun _ => hpatient, ?_⟩
    · intro hactive
      have hinactive := hstopped.1
      rw [show s.ipiActive = true from hactive] at hinactive
      exact absurd hinactive (by simp)
    · intro j n hn
      have hn' : (s.pc j).due = some n := hn
      rw [h.due_none hstopped j] at hn'
      exact absurd hn' (by simp)

/-- **A doorbell's step.** -/
theorem hartStep_quiet (h : QuietInv s) {i : H} (hunmoved : (s.pc i).Unmoved s)
    (hstep : s.hartStep i = some s') : QuietInv s' := by
  unfold Inbound.hartStep at hstep
  cases hpc : s.pc i with
  | idle =>
    rw [hpc] at hstep
    exact absurd hstep (by simp)
  | notify =>
    rw [hpc] at hstep
    obtain rfl := Option.some.inj hstep
    refine setPc_quiet h ?_ ?_
    · intro _
      split <;> rfl
    · intro n hn
      split at hn <;> exact absurd hn (by simp [Pc.due])
  | doorbell =>
    rw [hpc] at hstep
    obtain rfl := Option.some.inj hstep
    refine setPc_quiet h ?_ ?_
    · intro hremoved
      -- with the memory unmapped the gate is closed
      rw [if_neg (fun hactive => absurd (h.active hactive) (by rw [hremoved]; simp))]
      rfl
    · intro n hn
      split at hn <;> exact absurd hn (by simp [Pc.due])
  | readCounter n =>
    rw [hpc] at hstep
    obtain rfl := Option.some.inj hstep
    have hmapped : s.mapped = true := by
      refine h.mapped ?_
      intro hremoved
      have hreading := h.reading hremoved i
      rw [hpc] at hreading
      exact absurd hreading (by simp [Pc.reading])
    have hmove : QuietInv (s.setPc i (.compare n s.kicks)) :=
      setPc_quiet h (fun _ => rfl) (fun m hm => absurd hm (by simp [Pc.due]))
    refine hmove.of_same rfl rfl rfl rfl rfl rfl rfl rfl ?_
    show (s.unmappedRead || !s.mapped) = s.unmappedRead
    rw [hmapped, Bool.not_true, Bool.or_false]
  | compare n now =>
    rw [hpc] at hstep hunmoved
    obtain rfl := Option.some.inj hstep
    by_cases hword : word now ≠ word s.lastR2lSeen
    · rw [if_pos hword]
      have hnot : s.isOver n = false := by
        cases hover : s.isOver n with
        | false => rfl
        | true => exact absurd (hunmoved hover) hword
      refine setPc_quiet h (fun _ => rfl) ?_
      intro m hm
      obtain rfl := Option.some.inj hm
      exact isOver_eq_false.1 hnot
    · rw [if_neg hword]
      exact setPc_quiet h (fun _ => rfl) (fun m hm => absurd hm (by simp [Pc.due]))
  | update n now =>
    rw [hpc] at hstep
    obtain rfl := Option.some.inj hstep
    have hdue := h.due i n (by rw [hpc]; rfl)
    have hmove : QuietInv (s.setPc i (.schedule n now)) := by
      refine setPc_quiet h (fun _ => rfl) ?_
      intro m hm
      obtain rfl := Option.some.inj hm
      exact hdue
    exact hmove.of_same rfl rfl rfl rfl rfl rfl rfl rfl rfl
  | schedule n now =>
    rw [hpc] at hstep
    obtain rfl := Option.some.inj hstep
    have hdue := h.due i n (by rw [hpc]; rfl)
    have hmove : QuietInv (s.setPc i (.dispatch (some now))) :=
      setPc_quiet h (fun _ => rfl) (fun m hm => absurd hm (by simp [Pc.due]))
    refine ⟨⟨fun hs => absurd hs hdue.2, ?_, hmove.quiet.unmappedRead⟩, hmove.active, hmove.mapped, hmove.reading,
      hmove.due⟩
    show (s.late || s.isOver n) = false
    rw [h.quiet.late, isOver_eq_false.2 hdue, Bool.or_false]
  | dispatch seen =>
    rw [hpc] at hstep
    obtain rfl := Option.some.inj hstep
    have hmove : QuietInv (s.setPc i .idle) :=
      setPc_quiet h (fun _ => rfl) (fun m hm => absurd hm (by simp [Pc.due]))
    exact hmove.of_same rfl rfl rfl rfl rfl rfl rfl rfl rfl

/-- The worker takes up only what is pending, so it works in a session. -/
theorem workStep_quiet {a : InboundAct H} (h : QuietInv s) (hstep : s.next boot a = some s')
    (ha : a = .workBegin ∨ a = .workEnd) : QuietInv s' := by
  rcases ha with rfl | rfl <;> unfold Inbound.next at hstep <;> simp only at hstep
  · obtain ⟨hpending, rfl⟩ := of_guard hstep
    refine ⟨⟨?_, h.quiet.late, h.quiet.unmappedRead⟩, h.active, h.mapped, h.reading, h.due⟩
    intro hs
    have hnone := (h.quiet.work hs).1
    rw [hpending.1] at hnone
    exact absurd hnone (by simp)
  · obtain ⟨-, rfl⟩ := of_guard hstep
    exact ⟨⟨fun hs => ⟨(h.quiet.work hs).1, rfl⟩, h.quiet.late, h.quiet.unmappedRead⟩, h.active, h.mapped,
      h.reading, h.due⟩

/-- **One step keeps the session's end quiet.** -/
theorem next_quiet {a : InboundAct H} (h : QuietInv s) (hpatient : Patient s a) (hstep : s.next boot a = some s') :
    QuietInv s' := by
  cases a with
  | start => exact startStep_quiet h hstep (Or.inl rfl)
  | sample => exact startStep_quiet h hstep (Or.inr (Or.inl rfl))
  | store => exact startStep_quiet h hstep (Or.inr (Or.inr (Or.inl rfl)))
  | open_ => exact startStep_quiet h hstep (Or.inr (Or.inr (Or.inr rfl)))
  | close removing => exact close_quiet h hstep
  | cancel => exact cancel_quiet h hpatient hstep
  | unhook => exact removeStep_quiet h hpatient hstep (Or.inl rfl)
  | unmap => exact removeStep_quiet h hpatient hstep (Or.inr rfl)
  | kick =>
    obtain ⟨-, rfl⟩ := of_guard_not hstep
    exact h.of_same rfl rfl rfl rfl rfl rfl rfl rfl rfl
  | raise =>
    obtain ⟨-, rfl⟩ := of_guard hstep
    exact h.of_same rfl rfl rfl rfl rfl rfl rfl rfl rfl
  | ipi i =>
    obtain rfl := Option.some.inj hstep
    exact h.of_same rfl rfl rfl rfl rfl rfl rfl rfl rfl
  | take i =>
    obtain ⟨-, rfl⟩ := of_guard hstep
    exact setPc_quiet h (fun _ => rfl) (fun n hn => absurd hn (by simp [Pc.due]))
  | hart i => exact hartStep_quiet h hpatient hstep
  | workBegin => exact workStep_quiet h hstep (Or.inl rfl)
  | workEnd => exact workStep_quiet h hstep (Or.inr rfl)

theorem reach_quiet (h : (inboundMachine boot).Reach Patient s) : QuietInv s := by
  refine h.invariant ?_ (fun s a s' hs hpatient hstep => next_quiet hs hpatient hstep)
  rintro s ⟨kicks, lastR2lSeen, -, rfl⟩
  exact probed_quiet kicks lastR2lSeen

/-- **Stopping quiesces** in a run whose driver is patient with the doorbells. -/
theorem stop_quiesces (h : (inboundMachine boot).Reach Patient s) : Quiet s := (reach_quiet h).quiet

/-- A session of one kick, stopped after its doorbell and removed under an idle hart. -/
theorem stop_quiesces_one :
    ∃ s : Inbound (Fin 2), (inboundMachine 0).Reach Patient s ∧ s.ctl = .removed ∧ s.scheduled = 1 ∧ Quiet s := by
  have hrun : ((inboundMachine (0 : Fin 2)).exec (.probed 0 0)
      [.start, .sample, .store, .open_, .kick, .raise, .take 0, .hart 0, .hart 0, .hart 0, .hart 0,
        .hart 0, .hart 0, .hart 0, .close true, .cancel, .unhook, .unmap]).map
      (fun s => (s.ctl, s.scheduled)) = some (.removed, 1) := by decide +kernel
  obtain ⟨s, hexec, hs⟩ := Option.map_eq_some_iff.1 hrun
  simp only [Prod.mk.injEq] at hs
  have hreach : (inboundMachine 0).Reach Patient s :=
    .of_exec ⟨0, 0, Nat.le_refl _, rfl⟩ (by decide +kernel) hexec
  exact ⟨s, hreach, hs.1, hs.2, stop_quiesces hreach⟩

/-! ## No weaker condition -/

/-- A doorbell that has decided for a session that is over schedules the work. -/
theorem due_leads {i : H} {n : ℕ} (hover : s.isOver n = true) (hdue : (s.pc i).due = some n) :
    (inboundMachine boot).Leads (fun t => ¬ Quiet t) s := by
  have hschedule : ∀ (t : Inbound H) (now : ℕ), t.isOver n = true → t.pc i = .schedule n now →
      (inboundMachine boot).Leads (fun t => ¬ Quiet t) t := by
    intro t now hover hpc
    have hstep : (inboundMachine boot).step t (.hart i) = some { t.setPc i (.dispatch (some now)) with
        pending := true, scheduled := t.kicks, late := t.late || t.isOver n } := by
      show t.hartStep i = _
      unfold Inbound.hartStep
      rw [hpc]
    refine .next (.hart i) hstep (.here ?_)
    intro hquiet
    have hlate : (t.late || t.isOver n) = false := hquiet.late
    rw [hover, Bool.or_true] at hlate
    exact absurd hlate (by simp)
  cases hpc : s.pc i with
  | schedule m now =>
    rw [hpc] at hdue
    obtain rfl := Option.some.inj hdue
    exact hschedule s now hover hpc
  | update m now =>
    rw [hpc] at hdue
    obtain rfl := Option.some.inj hdue
    have hstep : (inboundMachine boot).step s (.hart i) =
        some { s.setPc i (.schedule m now) with lastR2lSeen := now } := by
      show s.hartStep i = _
      unfold Inbound.hartStep
      rw [hpc]
    exact .next (.hart i) hstep (hschedule _ now hover (Inbound.setPc_self s i _))
  | idle | notify | doorbell | readCounter _ | compare _ _ | dispatch _ =>
    rw [hpc] at hdue
    exact absurd hdue (by simp [Pc.due])

/-- **A step that is not patient** leads to a late schedule or to a read of unmapped memory. -/
theorem hasty_leads {a : InboundAct H} (h : (inboundMachine boot).Reach Patient s) (ha : ¬ Patient s a)
    (hstep : s.next boot a = some s') : (inboundMachine boot).Leads (fun t => ¬ Quiet t) s' := by
  have hinv := reach_quiet h
  cases a with
  | cancel =>
    obtain ⟨i, hi⟩ := not_forall.1 ha
    obtain ⟨n, hn⟩ := Option.ne_none_iff_exists'.1 hi
    unfold Inbound.next at hstep
    simp only at hstep
    split at hstep
    · rename_i removing hclosed
      obtain ⟨-, rfl⟩ := of_guard_not hstep
      have hinactive : s.ipiActive = false := by
        cases hactive : s.ipiActive with
        | false => rfl
        | true => exact absurd (hclosed ▸ hinv.active hactive) (by simp)
      refine due_leads (i := i) (n := n) ?_ hn
      show (decide (n ≠ s.session) || (!s.ipiActive && _)) = true
      rw [hinactive]
      cases removing <;> simp
    · exact absurd hstep (by simp)
  | unmap =>
    obtain ⟨i, hi⟩ := not_forall.1 ha
    obtain ⟨-, rfl⟩ := of_guard hstep
    cases hpc : s.pc i with
    | readCounter n =>
      have hread : (inboundMachine boot).step { s with ctl := .removed, mapped := false } (.hart i) =
          some { s.setPc i (.compare n s.kicks) with
            mapped := false, ctl := .removed, unmappedRead := s.unmappedRead || true } := by
        show Inbound.hartStep _ i = _
        unfold Inbound.hartStep
        simp only [hpc]
        rfl
      refine .next (.hart i) hread (.here ?_)
      intro hquiet
      have hnone : (s.unmappedRead || true) = false := hquiet.unmappedRead
      rw [Bool.or_true] at hnone
      exact absurd hnone (by simp)
    | idle | notify | doorbell | compare _ _ | update _ _ | schedule _ _ | dispatch _ =>
      rw [hpc] at hi
      exact absurd rfl hi
  | hart i =>
    have hunmoved : ¬ (s.pc i).Unmoved s := ha
    have hhart : s.hartStep i = some s' := hstep
    cases hpc : s.pc i with
    | compare n now =>
      rw [hpc] at hunmoved
      obtain ⟨hover, hword⟩ := Classical.not_imp.1 hunmoved
      unfold Inbound.hartStep at hhart
      rw [hpc] at hhart
      obtain rfl := Option.some.inj hhart
      rw [if_pos hword]
      exact due_leads (i := i) (n := n) hover (by rw [Inbound.setPc_self]; rfl)
    | idle | notify | doorbell | readCounter _ | update _ _ | schedule _ _ | dispatch _ =>
      rw [hpc] at hunmoved
      exact absurd trivial hunmoved
  | start | sample | store | open_ | close _ | unhook | kick | raise | ipi _ | take _ | workBegin | workEnd =>
    exact absurd trivial ha

/-! ## What the driver does -/

/-- **A doorbell past the check** when the gate closes schedules the work after `efinix_rproc_stop`. -/
theorem schedule_after_stop :
    ∃ s : Inbound (Fin 2), (inboundMachine 0).Reach (fun _ _ => True) s ∧ Stopped s ∧ s.pending = true ∧
      ¬ Quiet s := by
  have hrun : ((inboundMachine (0 : Fin 2)).exec (.probed 0 0)
      [.start, .sample, .store, .open_, .kick, .raise, .take 0, .hart 0, .hart 0, .hart 0, .close false, .cancel,
        .hart 0, .hart 0, .hart 0]).map
      (fun s => (s.ctl, s.ipiActive, s.pending)) = some (.idle, false, true) := by decide +kernel
  obtain ⟨s, hexec, hs⟩ := Option.map_eq_some_iff.1 hrun
  simp only [Prod.mk.injEq] at hs
  obtain ⟨hidle, hinactive, hpending⟩ := hs
  have hstopped : Stopped s := ⟨hinactive, fun removing => by rw [hidle]; simp⟩
  refine ⟨s, .of_exec ⟨0, 0, Nat.le_refl _, rfl⟩ (Machine.along_true _ _) hexec, hstopped, hpending,
    ?_⟩
  intro hquiet
  have hnone := (hquiet.work hstopped).1
  rw [hpending] at hnone
  exact absurd hnone (by simp)

/-- **A doorbell past the check** when the device is removed reads the counter after the unmapping. -/
theorem read_after_unmap :
    ∃ s : Inbound (Fin 2), (inboundMachine 0).Reach (fun _ _ => True) s ∧ s.mapped = false ∧ s.unmappedRead = true ∧
      ¬ Quiet s := by
  have hrun : ((inboundMachine (0 : Fin 2)).exec (.probed 0 0)
      [.start, .sample, .store, .open_, .kick, .raise, .take 0, .hart 0, .hart 0, .close true, .cancel, .unhook,
        .unmap, .hart 0]).map
      (fun s => (s.mapped, s.unmappedRead)) = some (false, true) := by decide +kernel
  obtain ⟨s, hexec, hs⟩ := Option.map_eq_some_iff.1 hrun
  simp only [Prod.mk.injEq] at hs
  refine ⟨s, .of_exec ⟨0, 0, Nat.le_refl _, rfl⟩ (Machine.along_true _ _) hexec, hs.1, hs.2, ?_⟩
  intro hquiet
  have hread := hquiet.unmappedRead
  rw [hs.2] at hread
  exact absurd hread (by simp)

end Br2Efinix.Rproc
