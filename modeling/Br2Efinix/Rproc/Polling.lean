import Br2Efinix.Rproc.Inbound

/-!
# Inbound kicks by the timer

`efinix_rproc_inbound_start`, `efinix_rproc_inbound_stop` and `efinix_rproc_remove` of a driver that was
probed without `rproc_use_ipi`, `efinix_rproc_poll_fn`, the kicks of the remote core and `notify_work`.
`riscv_amp_ipi_notify` then has no hook, so no doorbell rings. The parameter may be written at any time.

* `poll_quiesces`: in every run in which `efinix_rproc_inbound_stop` does not find the parameter set over a
  timer that polls, the timer is off and the work idle once it has returned, the work is not scheduled until
  the next start, and the timer reads no memory that is unmapped.
* `switched_leads`: that condition is needed; the timer then goes on past `efinix_rproc_remove`.
* `polled_kicks_served`: as long as equal words of two polls are equal counts, every kick since the counter
  was sampled has reached the worker when a poll has read the counter after it and no work is pending.
-/

namespace Br2Efinix.Rproc

/-- Where the timer is: not queued, queued, or before a statement of `efinix_rproc_poll_fn`. The last one
is `hrtimer_forward_now` with the return of `HRTIMER_RESTART`. -/
inductive PollPc
  | off
  | queued
  | readCounter
  | compare (now : ℕ)
  | update (now : ℕ)
  | schedule (now : ℕ)
  | forward (now : ℕ)
  deriving DecidableEq, Repr

/-- Where the driver is: outside of its calls, before a statement of `efinix_rproc_inbound_start` (its read
of the counter, the store, the test of the parameter, `hrtimer_start`, the store to `poll_running`), before a
statement of `efinix_rproc_inbound_stop` (the test of the parameter, the return of `hrtimer_cancel`, that of
`cancel_work_sync`, the store to `poll_running`, or `cancel_work_sync` of the other branch), or in the rest
of `efinix_rproc_remove`. -/
inductive PollCtl
  | idle
  | begun
  | sampled (now : ℕ)
  | stored
  | arming
  | armed
  | closing (removing : Bool)
  | cancelTimer (removing : Bool)
  | cancelWork (removing : Bool)
  | cleared (removing : Bool)
  | cancelIpi (removing : Bool)
  | unmap
  | removed
  deriving DecidableEq, Repr

/-- In `efinix_rproc_inbound_start`, after it has read the counter. -/
def PollCtl.starting : PollCtl → Bool
  | .sampled _ | .stored | .arming | .armed => true
  | _ => false

/-- The counter, the parameter, the fields of `struct efinix_rproc` for polled kicks, the timer and the
work. Only observed are the count that `efinix_rproc_inbound_start` has sampled, up to the next stop; the
count that the last poll to end had read; the counts when the work was last scheduled and when it last began;
whether it was scheduled after a stop; and whether the counter was read after the unmapping. -/
structure Polled where
  kicks : ℕ
  lastR2lSeen : ℕ
  rprocUseIpi : Bool
  pollRunning : Bool
  mapped : Bool
  ctl : PollCtl
  timer : PollPc
  pending : Bool
  running : Bool
  startedAt : Option ℕ
  polled : Option ℕ
  scheduled : ℕ
  served : ℕ
  late : Bool
  unmappedRead : Bool
  deriving Repr

/-- A call of the driver, its next statement, a write to the parameter, a kick, the next step of the timer,
or one of the worker. -/
inductive PollAct
  | start
  | stop (removing : Bool)
  | driver
  | param (useIpi : Bool)
  | kick
  | timer
  | workBegin
  | workEnd
  deriving DecidableEq, Repr

namespace Polled

/-- `efinix_rproc_inbound_stop` has returned, or was never called, and no start is on the way. -/
def Stopped (s : Polled) : Prop :=
  s.startedAt = none ∧ (s.ctl = .idle ∨ s.ctl = .unmap ∨ s.ctl = .removed)

instance (s : Polled) : Decidable s.Stopped := inferInstanceAs (Decidable (_ ∧ _))

/-- The return of `efinix_rproc_inbound_stop` to its caller. -/
def returned (removing : Bool) : PollCtl := if removing then .unmap else .idle

/-- The next statement of the driver. `hrtimer_cancel` waits for the callback, `cancel_work_sync` for the
worker. -/
def driverStep (s : Polled) : Option Polled :=
  match s.ctl with
  | .idle | .removed => none
  | .begun => some { s with ctl := .sampled s.kicks, startedAt := some s.kicks, polled := none }
  | .sampled now => some { s with ctl := .stored, lastR2lSeen := now }
  | .stored => some { s with ctl := if s.rprocUseIpi ∨ s.pollRunning then .idle else .arming }
  | .arming => some { s with ctl := .armed, timer := .queued }
  | .armed => some { s with ctl := .idle, pollRunning := true }
  | .closing removing =>
    if s.rprocUseIpi then some { s with ctl := .cancelIpi removing }
    else if s.pollRunning then some { s with ctl := .cancelTimer removing }
    else some { s with ctl := returned removing }
  | .cancelTimer removing =>
    if s.timer = .off ∨ s.timer = .queued then some { s with ctl := .cancelWork removing, timer := .off } else none
  | .cancelWork removing => if s.running then none else some { s with ctl := .cleared removing, pending := false }
  | .cleared removing => some { s with ctl := returned removing, pollRunning := false }
  | .cancelIpi removing => if s.running then none else some { s with ctl := returned removing, pending := false }
  | .unmap => some { s with ctl := .removed, mapped := false }

/-- The timer fires, or goes on in `efinix_rproc_poll_fn`. -/
def timerStep (s : Polled) : Option Polled :=
  match s.timer with
  | .off => none
  | .queued => some { s with timer := .readCounter }
  | .readCounter => some { s with timer := .compare s.kicks, unmappedRead := s.unmappedRead || !s.mapped }
  | .compare now => some { s with timer := if word now ≠ word s.lastR2lSeen then .update now else .forward now }
  | .update now => some { s with timer := .schedule now, lastR2lSeen := now }
  | .schedule now =>
    some { s with
      timer := .forward now, pending := true, scheduled := s.kicks, late := s.late || decide s.Stopped }
  | .forward now => some { s with timer := .queued, polled := some now }

/-- The core starts a processor that is stopped; it calls `efinix_rproc_inbound_stop` also when it removes
one that is. -/
def next (s : Polled) : PollAct → Option Polled
  | .start => if s.ctl = .idle ∧ s.startedAt = none then some { s with ctl := .begun } else none
  | .stop removing => if s.ctl = .idle then some { s with ctl := .closing removing, startedAt := none } else none
  | .driver => s.driverStep
  | .param useIpi => some { s with rprocUseIpi := useIpi }
  | .kick => some { s with kicks := s.kicks + 1 }
  | .timer => s.timerStep
  | .workBegin =>
    if s.pending = true ∧ s.running = false then some { s with pending := false, running := true, served := s.kicks }
    else none
  | .workEnd => if s.running then some { s with running := false } else none

/-- After the probe; the counter and `last_r2l_seen` may have any value. -/
def probed (kicks lastR2lSeen : ℕ) : Polled :=
  { kicks := kicks, lastR2lSeen := lastR2lSeen, rprocUseIpi := false, pollRunning := false, mapped := true
    ctl := .idle, timer := .off, pending := false, running := false, startedAt := none, polled := none
    scheduled := 0, served := 0, late := false, unmappedRead := false }

end Polled

def pollMachine : Machine Polled PollAct :=
  { init := fun s => ∃ kicks lastR2lSeen, lastR2lSeen ≤ kicks ∧ s = .probed kicks lastR2lSeen
    step := Polled.next }

variable {s s' : Polled}

/-! ## Stopping the timer -/

/-- Nothing is left over from the polling, and the memory was mapped whenever it was read. -/
structure PollQuiet (s : Polled) : Prop where
  timer : s.Stopped → s.timer = .off
  work : s.Stopped → s.pending = false ∧ s.running = false
  late : s.late = false
  unmappedRead : s.unmappedRead = false

/-- `efinix_rproc_inbound_stop` does not find the parameter set while the timer polls. -/
def Unswitched (s : Polled) : PollAct → Prop
  | .driver => ∀ removing, s.ctl = .closing removing → s.pollRunning = true → s.rprocUseIpi = false
  | _ => True

instance (s : Polled) : ∀ a, Decidable (Unswitched s a)
  | .driver => inferInstanceAs (Decidable (∀ removing, s.ctl = .closing removing → _ → _))
  | .start | .stop _ | .param _ | .kick | .timer | .workBegin | .workEnd => isTrue trivial

/-- The timer may be in use. -/
def Polling (s : Polled) : Prop :=
  s.ctl = .armed ∨ s.pollRunning = true ∧
    (s.ctl = .idle ∧ s.startedAt ≠ none ∨ ∃ removing, s.ctl = .closing removing ∨ s.ctl = .cancelTimer removing)

/-- The work may be in use: until `cancel_work_sync` returns. -/
def Working (s : Polled) : Prop :=
  Polling s ∨ s.pollRunning = true ∧ ∃ removing, s.ctl = .cancelWork removing

structure PollInv (s : Polled) : Prop where
  timer : s.timer ≠ .off → Polling s
  work : s.pending = true ∨ s.running = true → Working s
  running : s.pollRunning = true → Working s ∨ ∃ removing, s.ctl = .cleared removing
  started : s.ctl.starting = true → s.startedAt ≠ none
  mapped : s.ctl ≠ .removed → s.mapped = true
  late : s.late = false
  unmappedRead : s.unmappedRead = false

theorem Polling.working (h : Polling s) : Working s := Or.inl h

theorem Working.not_stopped (h : Working s) : ¬ s.Stopped := by
  rintro ⟨hnone, hctl⟩
  rcases h with (harmed | ⟨-, ⟨-, hsome⟩ | ⟨r, hr | hr⟩⟩) | ⟨-, r, hr⟩
  · rw [harmed] at hctl
    simp at hctl
  · exact hsome hnone
  · rw [hr] at hctl
    simp at hctl
  · rw [hr] at hctl
    simp at hctl
  · rw [hr] at hctl
    simp at hctl

theorem Working.not_removed (h : Working s) : s.ctl ≠ .removed := by
  intro hremoved
  rcases h with (harmed | ⟨-, ⟨hidle, -⟩ | ⟨r, hr | hr⟩⟩) | ⟨-, r, hr⟩ <;> simp_all

/-- What is not in use is off. -/
theorem PollInv.off (h : PollInv s) (hnot : ¬ Polling s) : s.timer = .off := by
  by_contra hon
  exact hnot (h.timer hon)

theorem PollInv.idle (h : PollInv s) (hnot : ¬ Working s) : s.pending = false ∧ s.running = false := by
  constructor
  · by_contra hpending
    exact hnot (h.work (Or.inl (by simpa using hpending)))
  · by_contra hrunning
    exact hnot (h.work (Or.inr (by simpa using hrunning)))

theorem PollInv.quiet (h : PollInv s) : PollQuiet s :=
  ⟨fun hstopped => h.off fun hp => hp.working.not_stopped hstopped,
    fun hstopped => h.idle fun hw => hw.not_stopped hstopped, h.late, h.unmappedRead⟩

/-- Nothing polls and nothing works. -/
structure AtRest (s : Polled) : Prop where
  timer : s.timer = .off
  pending : s.pending = false
  running : s.running = false
  pollRunning : s.pollRunning = false

theorem PollInv.atRest (h : PollInv s) (hnot : ¬ Working s) (hcleared : ∀ removing, s.ctl ≠ .cleared removing) :
    AtRest s := by
  refine ⟨h.off fun hp => hnot hp.working, (h.idle hnot).1, (h.idle hnot).2, ?_⟩
  by_contra hrunning
  rcases h.running (by simpa using hrunning) with hw | ⟨r, hr⟩
  · exact hnot hw
  · exact hcleared r hr

theorem AtRest.pollInv (h : AtRest s) (hstarted : s.ctl.starting = true → s.startedAt ≠ none)
    (hmapped : s.ctl ≠ .removed → s.mapped = true) (hlate : s.late = false) (hread : s.unmappedRead = false) :
    PollInv s := by
  refine ⟨fun hon => absurd h.timer hon, ?_, ?_, hstarted, hmapped, hlate, hread⟩
  · intro hwork
    rw [h.pending, h.running] at hwork
    simp at hwork
  · intro hrunning
    rw [h.pollRunning] at hrunning
    simp at hrunning

theorem probed_pollInv (kicks lastR2lSeen : ℕ) : PollInv (.probed kicks lastR2lSeen) :=
  AtRest.pollInv ⟨rfl, rfl, rfl, rfl⟩ (fun h => absurd h (by simp [Polled.probed, PollCtl.starting]))
    (fun _ => rfl) rfl rfl

/-- Outside of the phases in which the timer or the work may be in use. -/
theorem not_working (harmed : s.ctl ≠ .armed) (hidle : s.ctl ≠ .idle)
    (hstop : ∀ r, s.ctl ≠ .closing r ∧ s.ctl ≠ .cancelTimer r ∧ s.ctl ≠ .cancelWork r) : ¬ Working s := by
  rintro ((h | ⟨-, ⟨h, -⟩ | ⟨r, h | h⟩⟩) | ⟨-, r, h⟩)
  · exact harmed h
  · exact hidle h
  · exact (hstop r).1 h
  · exact (hstop r).2.1 h
  · exact (hstop r).2.2 h

theorem returned_starting (removing : Bool) : (Polled.returned removing).starting = false := by
  cases removing <;> rfl

/-- A start on the way finds everything at rest. -/
theorem driverStart_pollInv (h : PollInv s) (hstep : s.driverStep = some s')
    (hctl : s.ctl = .begun ∨ (∃ now, s.ctl = .sampled now) ∨ s.ctl = .stored ∨ s.ctl = .arming) : PollInv s' := by
  have hrest : AtRest s := by
    rcases hctl with hc | ⟨now, hc⟩ | hc | hc <;>
      exact h.atRest (not_working (by simp [hc]) (by simp [hc]) (by simp [hc])) (by simp [hc])
  have hmapped : s.mapped = true := by
    rcases hctl with hc | ⟨now, hc⟩ | hc | hc <;> exact h.mapped (by simp [hc])
  unfold Polled.driverStep at hstep
  rcases hctl with hc | ⟨now, hc⟩ | hc | hc <;> rw [hc] at hstep <;> obtain rfl := Option.some.inj hstep
  · exact AtRest.pollInv ⟨hrest.timer, hrest.pending, hrest.running, hrest.pollRunning⟩ (fun _ => by simp)
      (fun _ => hmapped) h.late h.unmappedRead
  · exact AtRest.pollInv ⟨hrest.timer, hrest.pending, hrest.running, hrest.pollRunning⟩
      (fun _ => h.started (by rw [hc]; rfl)) (fun _ => hmapped) h.late h.unmappedRead
  · exact AtRest.pollInv ⟨hrest.timer, hrest.pending, hrest.running, hrest.pollRunning⟩
      (fun _ => h.started (by rw [hc]; rfl)) (fun _ => hmapped) h.late h.unmappedRead
  · -- the timer is queued, and `poll_running` set after that
    exact ⟨fun _ => Or.inl rfl, fun hw => absurd hw (by simp [hrest.pending, hrest.running]),
      fun hr => absurd hr (by simp [hrest.pollRunning]), fun _ => h.started (by rw [hc]; rfl), fun _ => hmapped,
      h.late, h.unmappedRead⟩

/-- **The stop with the timer in use** waits for its callback first, so that nothing schedules the work that
it then cancels. -/
theorem driverCancel_pollInv {removing : Bool} (h : PollInv s) (hstep : s.driverStep = some s')
    (hctl : s.ctl = .cancelTimer removing ∨ s.ctl = .cancelWork removing ∨ s.ctl = .cleared removing) :
    PollInv s' := by
  have hmapped : s.mapped = true := by
    rcases hctl with hc | hc | hc <;> exact h.mapped (by simp [hc])
  unfold Polled.driverStep at hstep
  rcases hctl with hc | hc | hc <;> rw [hc] at hstep
  · obtain ⟨-, rfl⟩ := of_guard hstep
    have hkeep : Working s → s.pollRunning = true := by
      rintro ((hw | ⟨hrunning, -⟩) | ⟨hrunning, -⟩)
      · rw [hc] at hw
        simp at hw
      · exact hrunning
      · exact hrunning
    refine ⟨fun hon => absurd rfl hon, ?_, ?_, fun hst => absurd hst (by simp [PollCtl.starting]), fun _ => hmapped,
      h.late, h.unmappedRead⟩
    · intro hwork
      exact Or.inr ⟨hkeep (h.work hwork), removing, rfl⟩
    · intro hrunning
      exact Or.inl (Or.inr ⟨hrunning, removing, rfl⟩)
  · obtain ⟨hrunning, rfl⟩ := of_guard_not hstep
    have hoff : s.timer = .off := h.off (by
      rintro (hw | ⟨-, ⟨hw, -⟩ | ⟨r, hw | hw⟩⟩) <;> rw [hc] at hw <;> simp at hw)
    refine ⟨fun hon => absurd hoff hon, ?_, fun _ => Or.inr ⟨removing, rfl⟩,
      fun hst => absurd hst (by simp [PollCtl.starting]), fun _ => hmapped, h.late, h.unmappedRead⟩
    intro hwork
    simp [hrunning] at hwork
  · obtain rfl := Option.some.inj hstep
    have hnot : ¬ Working s := not_working (by simp [hc]) (by simp [hc]) (by simp [hc])
    exact AtRest.pollInv ⟨h.off fun hp => hnot hp.working, (h.idle hnot).1, (h.idle hnot).2, rfl⟩
      (fun hst => absurd hst (by simp [returned_starting])) (fun _ => hmapped) h.late h.unmappedRead

/-- **One statement of the driver.** -/
theorem driverStep_pollInv (h : PollInv s) (hun : Unswitched s .driver) (hstep : s.driverStep = some s') :
    PollInv s' := by
  cases hctl : s.ctl with
  | idle | removed =>
    unfold Polled.driverStep at hstep
    rw [hctl] at hstep
    exact absurd hstep (by simp)
  | begun => exact driverStart_pollInv h hstep (Or.inl hctl)
  | sampled now => exact driverStart_pollInv h hstep (Or.inr (Or.inl ⟨now, hctl⟩))
  | stored => exact driverStart_pollInv h hstep (Or.inr (Or.inr (Or.inl hctl)))
  | arming => exact driverStart_pollInv h hstep (Or.inr (Or.inr (Or.inr hctl)))
  | armed =>
    unfold Polled.driverStep at hstep
    rw [hctl] at hstep
    obtain rfl := Option.some.inj hstep
    have hp : Polling { s with ctl := .idle, pollRunning := true } :=
      Or.inr ⟨rfl, Or.inl ⟨rfl, h.started (by rw [hctl]; rfl)⟩⟩
    exact ⟨fun _ => hp, fun _ => hp.working, fun _ => Or.inl hp.working,
      fun hst => absurd hst (by simp [PollCtl.starting]), fun _ => h.mapped (by simp [hctl]), h.late, h.unmappedRead⟩
  | closing removing =>
    have hmapped : s.mapped = true := h.mapped (by simp [hctl])
    unfold Polled.driverStep at hstep
    rw [hctl] at hstep
    simp only at hstep
    by_cases hrunning : s.pollRunning = true
    · rw [hun removing hctl hrunning, if_neg (by simp), if_pos hrunning] at hstep
      obtain rfl := Option.some.inj hstep
      have hp : Polling { s with ctl := .cancelTimer removing } :=
        Or.inr ⟨hrunning, Or.inr ⟨removing, Or.inr rfl⟩⟩
      exact ⟨fun _ => hp, fun _ => hp.working, fun _ => Or.inl hp.working,
        fun hst => absurd hst (by simp [PollCtl.starting]), fun _ => hmapped, h.late, h.unmappedRead⟩
    · have hnot : ¬ Working s := by
        rintro ((hw | ⟨hw, -⟩) | ⟨hw, -⟩)
        · rw [hctl] at hw
          simp at hw
        · exact hrunning hw
        · exact hrunning hw
      have hrest := h.atRest hnot (by simp [hctl])
      rw [if_neg hrunning] at hstep
      split at hstep <;> obtain rfl := Option.some.inj hstep
      · exact AtRest.pollInv ⟨hrest.timer, hrest.pending, hrest.running, hrest.pollRunning⟩
          (fun hst => absurd hst (by simp [PollCtl.starting])) (fun _ => hmapped) h.late h.unmappedRead
      · exact AtRest.pollInv ⟨hrest.timer, hrest.pending, hrest.running, hrest.pollRunning⟩
          (fun hst => absurd hst (by simp [returned_starting])) (fun _ => hmapped) h.late h.unmappedRead
  | cancelTimer removing => exact driverCancel_pollInv h hstep (Or.inl hctl)
  | cancelWork removing => exact driverCancel_pollInv h hstep (Or.inr (Or.inl hctl))
  | cleared removing => exact driverCancel_pollInv h hstep (Or.inr (Or.inr hctl))
  | cancelIpi removing =>
    have hmapped : s.mapped = true := h.mapped (by simp [hctl])
    have hrest := h.atRest (not_working (by simp [hctl]) (by simp [hctl]) (by simp [hctl])) (by simp [hctl])
    unfold Polled.driverStep at hstep
    rw [hctl] at hstep
    obtain ⟨-, rfl⟩ := of_guard_not hstep
    exact AtRest.pollInv ⟨hrest.timer, rfl, hrest.running, hrest.pollRunning⟩
      (fun hst => absurd hst (by simp [returned_starting])) (fun _ => hmapped) h.late h.unmappedRead
  | unmap =>
    have hrest := h.atRest (not_working (by simp [hctl]) (by simp [hctl]) (by simp [hctl])) (by simp [hctl])
    unfold Polled.driverStep at hstep
    rw [hctl] at hstep
    obtain rfl := Option.some.inj hstep
    exact AtRest.pollInv ⟨hrest.timer, hrest.pending, hrest.running, hrest.pollRunning⟩
      (fun hst => absurd hst (by simp [PollCtl.starting])) (fun hne => absurd rfl hne) h.late h.unmappedRead

/-- **One step of the timer.** It polls in what precedes the return of `hrtimer_cancel` only. -/
theorem timerStep_pollInv (h : PollInv s) (hstep : s.timerStep = some s') : PollInv s' := by
  have hpolling : Polling s := h.timer (by
    intro hoff
    unfold Polled.timerStep at hstep
    rw [hoff] at hstep
    exact absurd hstep (by simp))
  have hmapped : s.mapped = true := h.mapped hpolling.working.not_removed
  -- wherever the timer moves, it is still within `Polling`
  have hmove : ∀ {t : Polled}, t.ctl = s.ctl → t.pollRunning = s.pollRunning → t.startedAt = s.startedAt →
      t.mapped = s.mapped → t.late = false → t.unmappedRead = false → PollInv t := by
    intro t hctl hrunning hstarted hmap hlate hread
    have hp : Polling t := by
      unfold Polling
      rw [hctl, hrunning, hstarted]
      exact hpolling
    exact ⟨fun _ => hp, fun _ => hp.working, fun _ => Or.inl hp.working, by rw [hctl, hstarted]; exact h.started,
      fun _ => by rw [hmap, hmapped], hlate, hread⟩
  unfold Polled.timerStep at hstep
  cases htimer : s.timer with
  | off =>
    rw [htimer] at hstep
    exact absurd hstep (by simp)
  | queued | compare now | update now | forward now =>
    rw [htimer] at hstep
    obtain rfl := Option.some.inj hstep
    exact hmove rfl rfl rfl rfl h.late h.unmappedRead
  | readCounter =>
    rw [htimer] at hstep
    obtain rfl := Option.some.inj hstep
    refine hmove rfl rfl rfl rfl h.late ?_
    show (s.unmappedRead || !s.mapped) = false
    rw [h.unmappedRead, hmapped]
    rfl
  | schedule now =>
    rw [htimer] at hstep
    obtain rfl := Option.some.inj hstep
    refine hmove rfl rfl rfl rfl ?_ h.unmappedRead
    show (s.late || decide s.Stopped) = false
    rw [h.late, decide_eq_false hpolling.working.not_stopped]
    rfl

/-- **One step keeps the polling within a session.** -/
theorem next_pollInv {a : PollAct} (h : PollInv s) (hun : Unswitched s a) (hstep : s.next a = some s') :
    PollInv s' := by
  cases a with
  | start =>
    obtain ⟨⟨hidle, hnone⟩, rfl⟩ := of_guard hstep
    have hrest : AtRest s :=
      h.atRest (fun hw => hw.not_stopped ⟨hnone, Or.inl hidle⟩) (by simp [hidle])
    exact AtRest.pollInv ⟨hrest.timer, hrest.pending, hrest.running, hrest.pollRunning⟩
      (fun hst => absurd hst (by simp [PollCtl.starting])) (fun _ => h.mapped (by simp [hidle])) h.late h.unmappedRead
  | stop removing =>
    obtain ⟨hidle, rfl⟩ := of_guard hstep
    have hrunning : Working s → s.pollRunning = true := by
      rintro ((hw | ⟨hrunning, -⟩) | ⟨hrunning, -⟩)
      · rw [hidle] at hw
        simp at hw
      · exact hrunning
      · exact hrunning
    have hp : s.pollRunning = true → Polling { s with ctl := .closing removing, startedAt := none } :=
      fun hr => Or.inr ⟨hr, Or.inr ⟨removing, Or.inl rfl⟩⟩
    exact ⟨fun hon => hp (hrunning (h.timer hon).working), fun hw => (hp (hrunning (h.work hw))).working,
      fun hr => Or.inl (hp hr).working, fun hst => absurd hst (by simp [PollCtl.starting]),
      fun _ => h.mapped (by simp [hidle]), h.late, h.unmappedRead⟩
  | driver => exact driverStep_pollInv h hun hstep
  | param useIpi =>
    obtain rfl := Option.some.inj hstep
    exact ⟨h.timer, h.work, h.running, h.started, h.mapped, h.late, h.unmappedRead⟩
  | kick =>
    obtain rfl := Option.some.inj hstep
    exact ⟨h.timer, h.work, h.running, h.started, h.mapped, h.late, h.unmappedRead⟩
  | timer => exact timerStep_pollInv h hstep
  | workBegin =>
    obtain ⟨⟨hpending, -⟩, rfl⟩ := of_guard hstep
    exact ⟨h.timer, fun _ => h.work (Or.inl hpending), h.running, h.started, h.mapped, h.late, h.unmappedRead⟩
  | workEnd =>
    obtain ⟨hrunning, rfl⟩ := of_guard hstep
    exact ⟨h.timer, fun _ => h.work (Or.inr hrunning), h.running, h.started, h.mapped, h.late, h.unmappedRead⟩

theorem reach_pollInv (h : pollMachine.Reach Unswitched s) : PollInv s := by
  refine h.invariant ?_ (fun s a s' hs hun hstep => next_pollInv hs hun hstep)
  rintro s ⟨kicks, lastR2lSeen, -, rfl⟩
  exact probed_pollInv kicks lastR2lSeen

/-- **The polling ends with `efinix_rproc_inbound_stop`.** -/
theorem poll_quiesces (h : pollMachine.Reach Unswitched s) : PollQuiet s := (reach_pollInv h).quiet

/-- A session with one kick, stopped while its callback runs. -/
theorem poll_quiesces_stopped :
    ∃ s, pollMachine.Reach Unswitched s ∧ s.Stopped ∧ s.scheduled = 1 ∧ PollQuiet s := by
  have hrun : (pollMachine.exec (.probed 0 0)
      [.start, .driver, .driver, .driver, .driver, .driver, .kick, .timer, .timer, .stop false, .driver, .timer,
        .timer, .timer, .timer, .driver, .driver, .driver]).map (fun s => (decide s.Stopped, s.scheduled)) =
      some (true, 1) := by decide +kernel
  obtain ⟨s, hexec, hs⟩ := Option.map_eq_some_iff.1 hrun
  simp only [Prod.mk.injEq, decide_eq_true_eq] at hs
  have hreach : pollMachine.Reach Unswitched s := .of_exec ⟨0, 0, Nat.le_refl _, rfl⟩ (by decide +kernel) hexec
  exact ⟨s, hreach, hs.1, hs.2, poll_quiesces hreach⟩

/-! ## The parameter set while the timer polls -/

/-- A timer that polls is on until `hrtimer_cancel`. -/
def TimerOn (s : Polled) : Prop :=
  (s.ctl = .armed → s.timer ≠ .off) ∧
    (s.pollRunning = true → (s.ctl = .idle ∨ ∃ removing, s.ctl = .closing removing) → s.timer ≠ .off)

theorem timerStep_on (hstep : s.timerStep = some s') : s'.timer ≠ .off := by
  unfold Polled.timerStep at hstep
  cases htimer : s.timer with
  | off =>
    rw [htimer] at hstep
    exact absurd hstep (by simp)
  | queued | readCounter | update now | schedule now | forward now =>
    rw [htimer] at hstep
    obtain rfl := Option.some.inj hstep
    simp
  | compare now =>
    rw [htimer] at hstep
    obtain rfl := Option.some.inj hstep
    simp only
    split <;> simp

theorem driverStep_on (h : PollInv s) (hon : TimerOn s) (hun : Unswitched s .driver)
    (hstep : s.driverStep = some s') : TimerOn s' := by
  unfold Polled.driverStep at hstep
  cases hctl : s.ctl with
  | idle | removed =>
    rw [hctl] at hstep
    exact absurd hstep (by simp)
  | begun | sampled now | unmap =>
    rw [hctl] at hstep
    obtain rfl := Option.some.inj hstep
    exact ⟨fun hc => by simp at hc, fun _ hc => by simp at hc⟩
  | stored =>
    have hrest := h.atRest (not_working (by simp [hctl]) (by simp [hctl]) (by simp [hctl])) (by simp [hctl])
    rw [hctl] at hstep
    obtain rfl := Option.some.inj hstep
    refine ⟨fun hc => ?_, fun hr => absurd hr (by simp [hrest.pollRunning])⟩
    simp only at hc
    split at hc <;> simp at hc
  | arming =>
    rw [hctl] at hstep
    obtain rfl := Option.some.inj hstep
    exact ⟨fun _ => by simp, fun _ _ => by simp⟩
  | armed =>
    rw [hctl] at hstep
    obtain rfl := Option.some.inj hstep
    exact ⟨fun hc => by simp at hc, fun _ _ => hon.1 hctl⟩
  | closing removing =>
    rw [hctl] at hstep
    simp only at hstep
    by_cases hrunning : s.pollRunning = true
    · rw [hun removing hctl hrunning, if_neg (by simp), if_pos hrunning] at hstep
      obtain rfl := Option.some.inj hstep
      exact ⟨fun hc => by simp at hc, fun _ hc => by simp at hc⟩
    · rw [if_neg hrunning] at hstep
      split at hstep <;> obtain rfl := Option.some.inj hstep <;>
        exact ⟨fun hc => by cases removing <;> simp [Polled.returned] at hc, fun hr => absurd hr hrunning⟩
  | cancelTimer removing =>
    rw [hctl] at hstep
    obtain ⟨-, rfl⟩ := of_guard hstep
    exact ⟨fun hc => by simp at hc, fun _ hc => by simp at hc⟩
  | cancelWork removing =>
    rw [hctl] at hstep
    obtain ⟨-, rfl⟩ := of_guard_not hstep
    exact ⟨fun hc => by simp at hc, fun _ hc => by simp at hc⟩
  | cleared removing =>
    rw [hctl] at hstep
    obtain rfl := Option.some.inj hstep
    exact ⟨fun hc => by cases removing <;> simp [Polled.returned] at hc, fun hr => absurd hr (by simp)⟩
  | cancelIpi removing =>
    have hrest := h.atRest (not_working (by simp [hctl]) (by simp [hctl]) (by simp [hctl])) (by simp [hctl])
    rw [hctl] at hstep
    obtain ⟨-, rfl⟩ := of_guard_not hstep
    exact ⟨fun hc => by cases removing <;> simp [Polled.returned] at hc,
      fun hr => absurd hr (by simp [hrest.pollRunning])⟩

theorem next_on {a : PollAct} (h : PollInv s) (hon : TimerOn s) (hun : Unswitched s a) (hstep : s.next a = some s') :
    TimerOn s' := by
  cases a with
  | start =>
    obtain ⟨⟨hidle, hnone⟩, rfl⟩ := of_guard hstep
    exact ⟨fun hc => by simp at hc, fun _ hc => by simp at hc⟩
  | stop removing =>
    obtain ⟨hidle, rfl⟩ := of_guard hstep
    exact ⟨fun hc => by simp at hc, fun hr _ => hon.2 hr (Or.inl hidle)⟩
  | driver => exact driverStep_on h hon hun hstep
  | param useIpi =>
    obtain rfl := Option.some.inj hstep
    exact hon
  | kick =>
    obtain rfl := Option.some.inj hstep
    exact hon
  | timer => exact ⟨fun _ => timerStep_on hstep, fun _ _ => timerStep_on hstep⟩
  | workBegin =>
    obtain ⟨-, rfl⟩ := of_guard hstep
    exact hon
  | workEnd =>
    obtain ⟨-, rfl⟩ := of_guard hstep
    exact hon

theorem reach_on (h : pollMachine.Reach Unswitched s) : TimerOn s := by
  have hboth : PollInv s ∧ TimerOn s := by
    refine h.invariant (I := fun s => PollInv s ∧ TimerOn s) ?_ (fun s a s' hs hun hstep =>
      ⟨next_pollInv hs.1 hun hstep, next_on hs.1 hs.2 hun hstep⟩)
    rintro s ⟨kicks, lastR2lSeen, -, rfl⟩
    exact ⟨probed_pollInv kicks lastR2lSeen, fun hc => by simp [Polled.probed] at hc,
      fun hr => by simp [Polled.probed] at hr⟩
  exact hboth.2

/-- The timer reads unmapped memory in the end. -/
def ReadsUnmapped (s : Polled) : Prop := pollMachine.Leads (fun t => t.unmappedRead = true) s

theorem readsUnmapped_next {a : PollAct} (hstep : s.next a = some s') (h : ReadsUnmapped s') : ReadsUnmapped s :=
  .next a hstep h

/-- **A timer that is on** comes to read the counter. -/
theorem readsUnmapped_of_on (hon : s.timer ≠ .off) (hmapped : s.mapped = false) : ReadsUnmapped s := by
  have hread : ∀ t : Polled, t.timer = .readCounter → t.mapped = false → ReadsUnmapped t := by
    intro t ht hm
    have hstep : t.next .timer =
        some { t with timer := .compare t.kicks, unmappedRead := t.unmappedRead || !t.mapped } := by
      simp [Polled.next, Polled.timerStep, ht]
    exact readsUnmapped_next hstep (.here (by simp [hm]))
  have hqueued : ∀ t : Polled, t.timer = .queued → t.mapped = false → ReadsUnmapped t := by
    intro t ht hm
    have hstep : t.next .timer = some { t with timer := .readCounter } := by
      simp [Polled.next, Polled.timerStep, ht]
    exact readsUnmapped_next hstep (hread _ rfl hm)
  have hforward : ∀ t : Polled, ∀ now, t.timer = .forward now → t.mapped = false → ReadsUnmapped t := by
    intro t now ht hm
    have hstep : t.next .timer = some { t with timer := .queued, polled := some now } := by
      simp [Polled.next, Polled.timerStep, ht]
    exact readsUnmapped_next hstep (hqueued _ rfl hm)
  have hschedule : ∀ t : Polled, ∀ now, t.timer = .schedule now → t.mapped = false → ReadsUnmapped t := by
    intro t now ht hm
    have hstep : t.next .timer = some { t with
        timer := .forward now, pending := true, scheduled := t.kicks, late := t.late || decide t.Stopped } := by
      simp [Polled.next, Polled.timerStep, ht]
    exact readsUnmapped_next hstep (hforward _ now rfl hm)
  have hupdate : ∀ t : Polled, ∀ now, t.timer = .update now → t.mapped = false → ReadsUnmapped t := by
    intro t now ht hm
    have hstep : t.next .timer = some { t with timer := .schedule now, lastR2lSeen := now } := by
      simp [Polled.next, Polled.timerStep, ht]
    exact readsUnmapped_next hstep (hschedule _ now rfl hm)
  cases htimer : s.timer with
  | off => exact absurd htimer hon
  | queued => exact hqueued s htimer hmapped
  | readCounter => exact hread s htimer hmapped
  | compare now =>
    have hstep : s.next .timer =
        some { s with timer := if word now ≠ word s.lastR2lSeen then .update now else .forward now } := by
      simp only [Polled.next, Polled.timerStep, htimer]
    refine readsUnmapped_next hstep ?_
    by_cases hword : word now ≠ word s.lastR2lSeen
    · rw [if_pos hword]
      exact hupdate _ now rfl hmapped
    · rw [if_neg hword]
      exact hforward _ now rfl hmapped
  | update now => exact hupdate s now htimer hmapped
  | schedule now => exact hschedule s now htimer hmapped
  | forward now => exact hforward s now htimer hmapped

/-- The driver in `efinix_rproc_remove` with the timer on: it unmaps the memory under it. -/
theorem readsUnmapped_of_unmap (hctl : s.ctl = .unmap) (hon : s.timer ≠ .off) : ReadsUnmapped s := by
  have hstep : s.next .driver = some { s with ctl := .removed, mapped := false } := by
    simp [Polled.next, Polled.driverStep, hctl]
  have hunder : ReadsUnmapped { s with ctl := .removed, mapped := false } := readsUnmapped_of_on hon rfl
  exact readsUnmapped_next hstep hunder

/-- The other branch of `efinix_rproc_inbound_stop` leaves the timer as it is. -/
theorem readsUnmapped_of_cancelIpi {removing : Bool} (hctl : s.ctl = .cancelIpi removing) (hon : s.timer ≠ .off)
    (hipi : s.rprocUseIpi = true) : ReadsUnmapped s := by
  -- once the worker is done, a stop that removes ends before the unmapping
  have hremove : ∀ t : Polled, t.ctl = .cancelIpi true → t.running = false → t.timer ≠ .off → ReadsUnmapped t := by
    intro t hc hidle ht
    have hstep : t.next .driver = some { t with ctl := .unmap, pending := false } := by
      simp [Polled.next, Polled.driverStep, Polled.returned, hc, hidle]
    have hunmap : ReadsUnmapped { t with ctl := .unmap, pending := false } := readsUnmapped_of_unmap rfl ht
    exact readsUnmapped_next hstep hunmap
  have hidle : ∀ t : Polled, t.ctl = .cancelIpi removing → t.running = false → t.timer ≠ .off →
      t.rprocUseIpi = true → ReadsUnmapped t := by
    intro t hc hdone ht hset
    cases removing with
    | true => exact hremove t hc hdone ht
    | false =>
      -- a stop alone is followed by the removal, which takes the same branch
      have hreturn : t.next .driver = some { t with ctl := .idle, pending := false } := by
        simp [Polled.next, Polled.driverStep, Polled.returned, hc, hdone]
      have hstop : Polled.next { t with ctl := .idle, pending := false } (.stop true) =
          some { t with ctl := .closing true, pending := false, startedAt := none } := by
        simp [Polled.next]
      have hbranch : Polled.next { t with ctl := .closing true, pending := false, startedAt := none } .driver =
          some { t with ctl := .cancelIpi true, pending := false, startedAt := none } := by
        simp [Polled.next, Polled.driverStep, hset]
      have hend : ReadsUnmapped { t with ctl := .cancelIpi true, pending := false, startedAt := none } :=
        hremove _ rfl hdone ht
      exact readsUnmapped_next hreturn (readsUnmapped_next hstop (readsUnmapped_next hbranch hend))
  by_cases hrunning : s.running = true
  · have hstep : s.next .workEnd = some { s with running := false } := by
      simp [Polled.next, hrunning]
    have hend : ReadsUnmapped { s with running := false } := hidle _ hctl rfl hon hipi
    exact readsUnmapped_next hstep hend
  · exact hidle s hctl (by simpa using hrunning) hon hipi

/-- **No weaker condition will do**: a stop that finds the parameter set over a timer that polls leads to a
timer that reads unmapped memory. -/
theorem switched_leads {a : PollAct} (h : pollMachine.Reach Unswitched s) (hnot : ¬ Unswitched s a) :
    ReadsUnmapped s := by
  cases a with
  | driver =>
    unfold Unswitched at hnot
    push Not at hnot
    obtain ⟨removing, hctl, hrunning, hset⟩ := hnot
    have hset : s.rprocUseIpi = true := by simpa using hset
    have hon : s.timer ≠ .off := (reach_on h).2 hrunning (Or.inr ⟨removing, hctl⟩)
    have hstep : s.next .driver = some { s with ctl := .cancelIpi removing } := by
      simp [Polled.next, Polled.driverStep, hctl, hset]
    have hend : ReadsUnmapped { s with ctl := .cancelIpi removing } := readsUnmapped_of_cancelIpi rfl hon hset
    exact readsUnmapped_next hstep hend
  | start | stop _ | param _ | kick | timer | workBegin | workEnd => exact absurd trivial hnot

/-- The parameter is set in a session, and the processor removed after that. -/
theorem switched_leads_remove :
    ∃ s, pollMachine.Reach Unswitched s ∧ ¬ Unswitched s .driver ∧ ReadsUnmapped s := by
  have hrun : (pollMachine.exec (.probed 0 0)
      [.start, .driver, .driver, .driver, .driver, .driver, .param true, .stop true]).map
      (fun s => decide (Unswitched s .driver)) = some false := by decide +kernel
  obtain ⟨s, hexec, hs⟩ := Option.map_eq_some_iff.1 hrun
  have hreach : pollMachine.Reach Unswitched s := .of_exec ⟨0, 0, Nat.le_refl _, rfl⟩ (by decide +kernel) hexec
  have hnot : ¬ Unswitched s .driver := by simpa using hs
  exact ⟨s, hreach, hnot, switched_leads hreach hnot⟩

/-! ## The kicks of a session -/

/-- Once a poll has read the counter after the last kick and no work is pending, the worker has begun after
that kick. -/
def PolledServed (s : Polled) : Prop :=
  ∀ S, s.startedAt = some S → S < s.kicks → s.polled = some s.kicks → s.pending = false → s.served = s.kicks

/-- Equal words that a poll compares are equal counts: fewer than 2^32 kicks came between two polls. -/
def FreshPoll (s : Polled) : PollAct → Prop
  | .timer => ∀ now, s.timer = .compare now → word now = word s.lastR2lSeen → now = s.lastR2lSeen
  | _ => True

instance (s : Polled) : ∀ a, Decidable (FreshPoll s a)
  | .timer =>
    match h : s.timer with
    | .compare now =>
      decidable_of_iff (word now = word s.lastR2lSeen → now = s.lastR2lSeen) (by simp [FreshPoll, h])
    | .off | .queued | .readCounter | .update _ | .schedule _ | .forward _ => isTrue (by simp [FreshPoll, h])
  | .start | .stop _ | .driver | .param _ | .kick | .workBegin | .workEnd => isTrue trivial

/-- The counts that are kept are no newer than the counter. -/
structure PollBounds (s : Polled) : Prop where
  last : s.lastR2lSeen ≤ s.kicks
  scheduled : s.scheduled ≤ s.kicks
  served : s.served ≤ s.kicks
  sampled : ∀ now, s.ctl = .sampled now → now ≤ s.kicks
  value : ∀ now, s.timer = .compare now ∨ s.timer = .update now ∨ s.timer = .schedule now → now ≤ s.kicks

/-- What a session that sampled `S` has seen, it has scheduled the work for, or is about to. -/
structure Noticed (S : ℕ) (s : Polled) : Prop where
  sampled : ∀ now, s.ctl = .sampled now → now = S
  last : (∀ now, s.ctl ≠ .sampled now) →
    s.lastR2lSeen = S ∨ s.lastR2lSeen ≤ s.scheduled ∨ s.timer = .schedule s.lastR2lSeen
  schedule : ∀ now, s.timer = .schedule now → now = s.lastR2lSeen
  forward : ∀ now, s.timer = .forward now → now = S ∨ now ≤ s.scheduled
  polled : ∀ now, s.polled = some now → now = S ∨ now ≤ s.scheduled
  begun : S < s.scheduled → s.pending = true ∨ s.scheduled ≤ s.served

structure PollKicks (s : Polled) : Prop where
  bounds : PollBounds s
  noticed : ∀ S, s.startedAt = some S → Noticed S s
  ended : ∀ removing, s.ctl = .cancelTimer removing ∨ s.ctl = .cancelWork removing ∨ s.ctl = .cleared removing ∨
    s.ctl = .cancelIpi removing ∨ s.ctl = .closing removing → s.startedAt = none

theorem PollKicks.served (h : PollKicks s) : PolledServed s := by
  intro S hS hlt hpolled hpending
  have hn := h.noticed S hS
  have hscheduled : s.kicks ≤ s.scheduled := by
    rcases hn.polled s.kicks hpolled with hold | hnew
    · omega
    · exact hnew
  have hbegun : s.scheduled ≤ s.served := by
    rcases hn.begun (by omega) with hp | hle
    · rw [hpending] at hp
      exact absurd hp (by simp)
    · exact hle
  have := h.bounds.served
  omega

theorem probed_pollKicks {kicks lastR2lSeen : ℕ} (hle : lastR2lSeen ≤ kicks) :
    PollKicks (.probed kicks lastR2lSeen) :=
  ⟨⟨hle, Nat.zero_le _, Nat.zero_le _, fun _ h => by simp [Polled.probed] at h,
    fun _ h => by simp [Polled.probed] at h⟩, fun _ h => by simp [Polled.probed] at h,
    fun _ h => by simp [Polled.probed] at h⟩

/-- **One step of the timer**: what it reads, it notices. -/
theorem timerStep_pollKicks (h : PollKicks s) (hstarting : ∀ now, s.ctl ≠ .sampled now)
    (hfresh : FreshPoll s .timer) (hstep : s.timerStep = some s') : PollKicks s' := by
  unfold Polled.timerStep at hstep
  cases htimer : s.timer with
  | off =>
    rw [htimer] at hstep
    exact absurd hstep (by simp)
  | queued =>
    rw [htimer] at hstep
    obtain rfl := Option.some.inj hstep
    refine ⟨⟨h.bounds.last, h.bounds.scheduled, h.bounds.served, h.bounds.sampled, fun _ hv => by simp at hv⟩, ?_,
      h.ended⟩
    intro S hS
    have hn := h.noticed S hS
    have hlast := hn.last hstarting
    rw [htimer] at hlast
    exact ⟨hn.sampled, fun _ => by simpa using hlast, fun _ hv => by simp at hv, fun _ hv => by simp at hv, hn.polled,
      hn.begun⟩
  | readCounter =>
    rw [htimer] at hstep
    obtain rfl := Option.some.inj hstep
    refine ⟨⟨h.bounds.last, h.bounds.scheduled, h.bounds.served, h.bounds.sampled, ?_⟩, ?_, h.ended⟩
    · intro now hv
      simp only [PollPc.compare.injEq, reduceCtorEq, or_false] at hv
      exact Nat.le_of_eq hv.symm
    · intro S hS
      have hn := h.noticed S hS
      have hlast := hn.last hstarting
      rw [htimer] at hlast
      exact ⟨hn.sampled, fun _ => by simpa using hlast, fun _ hv => by simp at hv, fun _ hv => by simp at hv,
        hn.polled, hn.begun⟩
  | compare now =>
    rw [htimer] at hstep
    obtain rfl := Option.some.inj hstep
    have hnow : now ≤ s.kicks := h.bounds.value now (Or.inl htimer)
    by_cases hword : word now ≠ word s.lastR2lSeen
    · rw [if_pos hword]
      refine ⟨⟨h.bounds.last, h.bounds.scheduled, h.bounds.served, h.bounds.sampled, ?_⟩, ?_, h.ended⟩
      · intro v hv
        simp only [PollPc.update.injEq, reduceCtorEq, or_false, false_or] at hv
        rw [← hv]
        exact hnow
      · intro S hS
        have hn := h.noticed S hS
        have hlast := hn.last hstarting
        rw [htimer] at hlast
        exact ⟨hn.sampled, fun _ => by simpa using hlast, fun _ hv => by simp at hv, fun _ hv => by simp at hv,
          hn.polled, hn.begun⟩
    · rw [if_neg hword]
      -- an equal word is an equal count, and that count was noticed
      have hsame : now = s.lastR2lSeen := hfresh now htimer (by simpa using hword)
      refine ⟨⟨h.bounds.last, h.bounds.scheduled, h.bounds.served, h.bounds.sampled, fun _ hv => by simp at hv⟩, ?_,
        h.ended⟩
      intro S hS
      have hn := h.noticed S hS
      have hlast := hn.last hstarting
      rw [htimer] at hlast
      have hseen : s.lastR2lSeen = S ∨ s.lastR2lSeen ≤ s.scheduled := by simpa using hlast
      refine ⟨hn.sampled, fun _ => ?_, fun _ hv => by simp at hv, ?_, hn.polled, hn.begun⟩
      · rcases hseen with hS | hle
        · exact Or.inl hS
        · exact Or.inr (Or.inl hle)
      · intro v hv
        obtain rfl : now = v := by simpa using hv
        rw [hsame]
        exact hseen
  | update now =>
    rw [htimer] at hstep
    obtain rfl := Option.some.inj hstep
    have hnow : now ≤ s.kicks := h.bounds.value now (Or.inr (Or.inl htimer))
    refine ⟨⟨hnow, h.bounds.scheduled, h.bounds.served, h.bounds.sampled, ?_⟩, ?_, h.ended⟩
    · intro v hv
      simp only [PollPc.schedule.injEq, reduceCtorEq, false_or] at hv
      rw [← hv]
      exact hnow
    · intro S hS
      have hn := h.noticed S hS
      refine ⟨hn.sampled, fun _ => Or.inr (Or.inr rfl), ?_, fun _ hv => by simp at hv, hn.polled, hn.begun⟩
      intro v hv
      simpa using hv.symm
  | schedule now =>
    rw [htimer] at hstep
    obtain rfl := Option.some.inj hstep
    refine ⟨⟨h.bounds.last, Nat.le_refl _, h.bounds.served, h.bounds.sampled, fun _ hv => by simp at hv⟩, ?_,
      h.ended⟩
    intro S hS
    have hn := h.noticed S hS
    have hnow : now ≤ s.kicks := h.bounds.value now (Or.inr (Or.inr htimer))
    refine ⟨hn.sampled, fun _ => Or.inr (Or.inl h.bounds.last), fun _ hv => by simp at hv, ?_, ?_, fun _ => Or.inl rfl⟩
    · intro v hv
      obtain rfl : now = v := by simpa using hv
      exact Or.inr hnow
    · intro v hv
      rcases hn.polled v hv with hold | hle
      · exact Or.inl hold
      · exact Or.inr (Nat.le_trans hle h.bounds.scheduled)
  | forward now =>
    rw [htimer] at hstep
    obtain rfl := Option.some.inj hstep
    refine ⟨⟨h.bounds.last, h.bounds.scheduled, h.bounds.served, h.bounds.sampled, fun _ hv => by simp at hv⟩, ?_,
      h.ended⟩
    intro S hS
    have hn := h.noticed S hS
    have hlast := hn.last hstarting
    rw [htimer] at hlast
    refine ⟨hn.sampled, fun _ => by simpa using hlast, fun _ hv => by simp at hv, fun _ hv => by simp at hv, ?_,
      hn.begun⟩
    intro v hv
    obtain rfl : now = v := by simpa using hv
    exact hn.forward now htimer

/-- Without a session there is nothing to notice. -/
theorem PollKicks.of_none (hbounds : PollBounds s) (hnone : s.startedAt = none) : PollKicks s :=
  ⟨hbounds, fun S hS => absurd hS (by rw [hnone]; simp), fun _ _ => hnone⟩

theorem returned_ne_sampled (removing : Bool) (now : ℕ) : Polled.returned removing ≠ .sampled now := by
  cases removing <;> simp [Polled.returned]

/-- **A start samples the counter** with the timer off, so nothing else writes `last_r2l_seen`. -/
theorem driverStart_pollKicks (h : PollKicks s) (hrest : AtRest s) (hstep : s.driverStep = some s')
    (hctl : s.ctl = .begun ∨ (∃ now, s.ctl = .sampled now) ∨ s.ctl = .stored ∨ s.ctl = .arming) :
    PollKicks s' := by
  have hoff := hrest.timer
  unfold Polled.driverStep at hstep
  rcases hctl with hc | ⟨now, hc⟩ | hc | hc <;> rw [hc] at hstep <;> obtain rfl := Option.some.inj hstep
  · refine ⟨⟨h.bounds.last, h.bounds.scheduled, h.bounds.served, fun v hv => ?_, h.bounds.value⟩, ?_, ?_⟩
    · simp only [PollCtl.sampled.injEq] at hv
      exact Nat.le_of_eq hv.symm
    · intro S hS
      obtain rfl : s.kicks = S := by simpa using hS
      refine ⟨fun v hv => by simpa using hv.symm, fun hnot => absurd rfl (hnot s.kicks), ?_, ?_, fun v hv => by simp at hv,
        fun hlt => absurd h.bounds.scheduled (by simpa using hlt)⟩
      · intro v hv
        simp [hoff] at hv
      · intro v hv
        simp [hoff] at hv
    · intro removing hr
      simp at hr
  · refine ⟨⟨h.bounds.sampled now hc, h.bounds.scheduled, h.bounds.served, fun v hv => by simp at hv, h.bounds.value⟩,
      ?_, ?_⟩
    · intro S hS
      have hn := h.noticed S hS
      refine ⟨fun v hv => by simp at hv, fun _ => Or.inl (hn.sampled now hc), fun v hv => by simp [hoff] at hv,
        fun v hv => by simp [hoff] at hv, hn.polled, hn.begun⟩
    · intro removing hr
      simp at hr
  · refine ⟨⟨h.bounds.last, h.bounds.scheduled, h.bounds.served, fun v hv => ?_, h.bounds.value⟩, ?_, ?_⟩
    · simp only at hv
      split at hv <;> simp at hv
    · intro S hS
      have hn := h.noticed S hS
      refine ⟨fun v hv => ?_, fun _ => hn.last (by simp [hc]), hn.schedule, hn.forward, hn.polled, hn.begun⟩
      simp only at hv
      split at hv <;> simp at hv
    · intro removing hr
      simp only at hr
      split at hr <;> simp at hr
  · refine ⟨⟨h.bounds.last, h.bounds.scheduled, h.bounds.served, fun v hv => by simp at hv, fun v hv => by simp at hv⟩,
      ?_, ?_⟩
    · intro S hS
      have hn := h.noticed S hS
      have hlast := hn.last (by simp [hc])
      rw [hoff] at hlast
      exact ⟨fun v hv => by simp at hv, fun _ => by simpa using hlast, fun v hv => by simp at hv,
        fun v hv => by simp at hv, hn.polled, hn.begun⟩
    · intro removing hr
      simp at hr

/-- **One statement of the driver.** -/
theorem driverStep_pollKicks (hinv : PollInv s) (h : PollKicks s) (hstep : s.driverStep = some s') :
    PollKicks s' := by
  have hrest : s.ctl = .begun ∨ (∃ now, s.ctl = .sampled now) ∨ s.ctl = .stored ∨ s.ctl = .arming → AtRest s := by
    rintro (hc | ⟨now, hc⟩ | hc | hc) <;>
      exact hinv.atRest (not_working (by simp [hc]) (by simp [hc]) (by simp [hc])) (by simp [hc])
  have hb := h.bounds
  cases hctl : s.ctl with
  | idle | removed =>
    unfold Polled.driverStep at hstep
    rw [hctl] at hstep
    exact absurd hstep (by simp)
  | begun => exact driverStart_pollKicks h (hrest (Or.inl hctl)) hstep (Or.inl hctl)
  | sampled now =>
    have hc : s.ctl = .begun ∨ (∃ now, s.ctl = .sampled now) ∨ s.ctl = .stored ∨ s.ctl = .arming :=
      Or.inr (Or.inl ⟨now, hctl⟩)
    exact driverStart_pollKicks h (hrest hc) hstep hc
  | stored =>
    have hc : s.ctl = .begun ∨ (∃ now, s.ctl = .sampled now) ∨ s.ctl = .stored ∨ s.ctl = .arming :=
      Or.inr (Or.inr (Or.inl hctl))
    exact driverStart_pollKicks h (hrest hc) hstep hc
  | arming =>
    have hc : s.ctl = .begun ∨ (∃ now, s.ctl = .sampled now) ∨ s.ctl = .stored ∨ s.ctl = .arming :=
      Or.inr (Or.inr (Or.inr hctl))
    exact driverStart_pollKicks h (hrest hc) hstep hc
  | armed =>
    unfold Polled.driverStep at hstep
    rw [hctl] at hstep
    obtain rfl := Option.some.inj hstep
    refine ⟨⟨hb.last, hb.scheduled, hb.served, fun v hv => by simp at hv, hb.value⟩, ?_, ?_⟩
    · intro S hS
      have hn := h.noticed S hS
      exact ⟨fun v hv => by simp at hv, fun _ => hn.last (by simp [hctl]), hn.schedule, hn.forward, hn.polled, hn.begun⟩
    · intro removing hr
      simp at hr
  | closing removing =>
    have hnone : s.startedAt = none := h.ended removing (by simp [hctl])
    unfold Polled.driverStep at hstep
    rw [hctl] at hstep
    simp only at hstep
    split at hstep
    · obtain rfl := Option.some.inj hstep
      exact .of_none ⟨hb.last, hb.scheduled, hb.served, fun v hv => by simp at hv, hb.value⟩ hnone
    · split at hstep <;> obtain rfl := Option.some.inj hstep
      · exact .of_none ⟨hb.last, hb.scheduled, hb.served, fun v hv => by simp at hv, hb.value⟩ hnone
      · exact .of_none ⟨hb.last, hb.scheduled, hb.served,
          fun v hv => absurd hv (returned_ne_sampled removing v), hb.value⟩ hnone
  | cancelTimer removing =>
    have hnone : s.startedAt = none := h.ended removing (by simp [hctl])
    unfold Polled.driverStep at hstep
    rw [hctl] at hstep
    obtain ⟨-, rfl⟩ := of_guard hstep
    exact .of_none ⟨hb.last, hb.scheduled, hb.served, fun v hv => by simp at hv, fun v hv => by simp at hv⟩ hnone
  | cancelWork removing =>
    have hnone : s.startedAt = none := h.ended removing (by simp [hctl])
    unfold Polled.driverStep at hstep
    rw [hctl] at hstep
    obtain ⟨-, rfl⟩ := of_guard_not hstep
    exact .of_none ⟨hb.last, hb.scheduled, hb.served, fun v hv => by simp at hv, hb.value⟩ hnone
  | cleared removing =>
    have hnone : s.startedAt = none := h.ended removing (by simp [hctl])
    unfold Polled.driverStep at hstep
    rw [hctl] at hstep
    obtain rfl := Option.some.inj hstep
    exact .of_none ⟨hb.last, hb.scheduled, hb.served, fun v hv => absurd hv (returned_ne_sampled removing v),
      hb.value⟩ hnone
  | cancelIpi removing =>
    have hnone : s.startedAt = none := h.ended removing (by simp [hctl])
    unfold Polled.driverStep at hstep
    rw [hctl] at hstep
    obtain ⟨-, rfl⟩ := of_guard_not hstep
    exact .of_none ⟨hb.last, hb.scheduled, hb.served, fun v hv => absurd hv (returned_ne_sampled removing v),
      hb.value⟩ hnone
  | unmap =>
    unfold Polled.driverStep at hstep
    rw [hctl] at hstep
    obtain rfl := Option.some.inj hstep
    refine ⟨⟨hb.last, hb.scheduled, hb.served, fun v hv => by simp at hv, hb.value⟩, ?_, ?_⟩
    · intro S hS
      have hn := h.noticed S hS
      exact ⟨fun v hv => by simp at hv, fun _ => hn.last (by simp [hctl]), hn.schedule, hn.forward, hn.polled, hn.begun⟩
    · intro removing hr
      simp at hr

/-- **One step keeps the kicks noticed.** -/
theorem next_pollKicks {a : PollAct} (hinv : PollInv s) (h : PollKicks s) (hfresh : FreshPoll s a)
    (hstep : s.next a = some s') : PollKicks s' := by
  have hb := h.bounds
  cases a with
  | start =>
    obtain ⟨⟨-, hnone⟩, rfl⟩ := of_guard hstep
    exact .of_none ⟨hb.last, hb.scheduled, hb.served, fun v hv => by simp at hv, hb.value⟩ hnone
  | stop removing =>
    obtain ⟨-, rfl⟩ := of_guard hstep
    exact .of_none ⟨hb.last, hb.scheduled, hb.served, fun v hv => by simp at hv, hb.value⟩ rfl
  | driver => exact driverStep_pollKicks hinv h hstep
  | param useIpi =>
    obtain rfl := Option.some.inj hstep
    refine ⟨⟨hb.last, hb.scheduled, hb.served, hb.sampled, hb.value⟩, fun S hS => ?_, h.ended⟩
    have hn := h.noticed S hS
    exact ⟨hn.sampled, hn.last, hn.schedule, hn.forward, hn.polled, hn.begun⟩
  | kick =>
    obtain rfl := Option.some.inj hstep
    refine ⟨⟨Nat.le_succ_of_le hb.last, Nat.le_succ_of_le hb.scheduled, Nat.le_succ_of_le hb.served,
      fun v hv => Nat.le_succ_of_le (hb.sampled v hv), fun v hv => Nat.le_succ_of_le (hb.value v hv)⟩, fun S hS => ?_,
      h.ended⟩
    have hn := h.noticed S hS
    exact ⟨hn.sampled, hn.last, hn.schedule, hn.forward, hn.polled, hn.begun⟩
  | timer =>
    have hpolling : Polling s := hinv.timer (by
      intro hoff
      have hnone : s.next .timer = none := by simp [Polled.next, Polled.timerStep, hoff]
      rw [hnone] at hstep
      exact absurd hstep (by simp))
    refine timerStep_pollKicks h ?_ hfresh hstep
    intro now hc
    rcases hpolling with hp | ⟨-, ⟨hp, -⟩ | ⟨r, hp | hp⟩⟩ <;> rw [hc] at hp <;> simp at hp
  | workBegin =>
    obtain ⟨-, rfl⟩ := of_guard hstep
    refine ⟨⟨hb.last, hb.scheduled, Nat.le_refl _, hb.sampled, hb.value⟩, fun S hS => ?_, h.ended⟩
    have hn := h.noticed S hS
    exact ⟨hn.sampled, hn.last, hn.schedule, hn.forward, hn.polled, fun _ => Or.inr hb.scheduled⟩
  | workEnd =>
    obtain ⟨-, rfl⟩ := of_guard hstep
    refine ⟨⟨hb.last, hb.scheduled, hb.served, hb.sampled, hb.value⟩, fun S hS => ?_, h.ended⟩
    have hn := h.noticed S hS
    exact ⟨hn.sampled, hn.last, hn.schedule, hn.forward, hn.polled, hn.begun⟩

/-- **Every kick since the sample reaches the worker.** -/
theorem polled_kicks_served (h : pollMachine.Reach (fun s a => Unswitched s a ∧ FreshPoll s a) s) :
    PolledServed s := by
  have hboth : PollInv s ∧ PollKicks s := by
    refine h.invariant (I := fun s => PollInv s ∧ PollKicks s) ?_ (fun s a s' hs hguard hstep =>
      ⟨next_pollInv hs.1 hguard.1 hstep, next_pollKicks hs.1 hs.2 hguard.2 hstep⟩)
    rintro s ⟨kicks, lastR2lSeen, hle, rfl⟩
    exact ⟨probed_pollInv kicks lastR2lSeen, probed_pollKicks hle⟩
  exact hboth.2.served

/-- A kick that comes while the poll before it compares. -/
theorem polled_kicks_served_two :
    ∃ s, pollMachine.Reach (fun s a => Unswitched s a ∧ FreshPoll s a) s ∧ s.startedAt = some 0 ∧ s.kicks = 2 ∧
      s.polled = some 2 ∧ s.pending = false ∧ s.served = 2 ∧ PolledServed s := by
  have hrun : (pollMachine.exec (.probed 0 0)
      [.start, .driver, .driver, .driver, .driver, .driver, .kick, .timer, .timer, .kick, .timer, .timer, .timer,
        .workBegin, .timer, .timer, .timer, .timer, .timer, .timer, .timer, .workEnd, .workBegin]).map
      (fun s => ((s.startedAt, s.kicks, s.polled), s.pending, s.served)) =
      some ((some 0, 2, some 2), false, 2) := by decide +kernel
  obtain ⟨s, hexec, hs⟩ := Option.map_eq_some_iff.1 hrun
  simp only [Prod.mk.injEq] at hs
  obtain ⟨⟨hstarted, hkicks, hpolled⟩, hpending, hserved⟩ := hs
  have hreach : pollMachine.Reach (fun s a => Unswitched s a ∧ FreshPoll s a) s :=
    .of_exec ⟨0, 0, Nat.le_refl _, rfl⟩ (by decide +kernel) hexec
  exact ⟨s, hreach, hstarted, hkicks, hpolled, hpending, hserved, polled_kicks_served hreach⟩

end Br2Efinix.Rproc
