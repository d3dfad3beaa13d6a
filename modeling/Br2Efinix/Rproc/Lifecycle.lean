import Br2Efinix.Lib.Machine

/-!
# The life of the remote hart

`efinix_rproc_parse_fw_shm`, `efinix_rproc_start` and `efinix_rproc_stop` as the remoteproc core
calls them: a boot parses and starts, and may be given up in between or after it; a shutdown stops,
and is tried again when that fails. The hart has the states of the HSM extension and changes them
by itself; HART_STATUS returns the state or an error, HART_START an error unless the hart is stopped.

* `lifecycle_sound`: in every run in which `hart_started` is clear when `parse_fw` is called, the
  hart has come up when `parse_fw` gives up on the ready flag, leaves STARTED only in
  `efinix_rproc_stop`, and has stopped, or soon will, when that gives up, `hart_started` tells
  whether the hart is STARTED, no segment is written while it is, and `efinix_rproc_start` succeeds
  only on the firmware that was loaded last.
* `disorder_leads`: no weaker condition will do; a step that does not meet it leads to a violation.
* `retry_runs_old_firmware`, `stop_gives_up`: a boot that timed out and was tried again, and a hart
  that does not stop.
-/

namespace Br2Efinix.Rproc

/-- `enum sbi_hsm_hart_state`. -/
inductive HartState
  | started
  | stopped
  | startPending
  | stopPending
  | suspended
  | suspendPending
  | resumePending
  deriving DecidableEq, Repr

/-- What a hart does without HART_START. -/
def HartState.moves : HartState → HartState → Bool
  | .started, .stopPending | .started, .suspendPending => true
  | .startPending, .started => true
  | .stopPending, .stopped => true
  | .suspendPending, .suspended => true
  | .suspended, .resumePending => true
  | .resumePending, .started => true
  | _, _ => false

/-- The call in progress and where it is: in `rproc_elf_load_segments`, before HART_STATUS or
HART_START in `efinix_rproc_hart_start`, waiting for the ready flag, before `kzalloc`, or before a
poll of `efinix_rproc_stop`. -/
inductive Call
  | idle
  | load
  | status (parsing : Bool)
  | hartStart (parsing : Bool)
  | wait
  | alloc
  | stop (i : ℕ)
  deriving DecidableEq, Repr

/-- How far the core has booted; with `started` it has yet to start the subdevices. -/
inductive Core
  | offline
  | parsed
  | started
  | running
  deriving DecidableEq, Repr

/-- The remote hart, the driver and the core. The firmware is told apart by the number of the
`parse_fw` call that loaded it: `loaded` is the last, `runs` what the hart came up with. Only
observed are whether a segment was written while the hart was STARTED, and whether a start
succeeded on another firmware or none. -/
structure Lifecycle where
  hart : HartState
  hartStarted : Bool
  call : Call
  core : Core
  ready : Bool
  loaded : ℕ
  runs : ℕ
  overwritten : Bool
  badStart : Bool
  deriving DecidableEq, Repr

inductive LifecycleAct
  | parseFw
  | segment
  | loaded (ok : Bool)
  | hartStatus (error : Bool)
  | hartStart (error : Bool)
  | readySeen
  | timeout
  | alloc (ok : Bool)
  | abandon
  | start
  | subdevices
  | stop
  | poll (error : Bool)
  | hart (state : HartState)
  | publish
  deriving DecidableEq, Repr

namespace Lifecycle

/-- `efinix_rproc_start` returns 0. -/
def startOk (s : Lifecycle) : Lifecycle :=
  { s with call := .idle, core := .started
           badStart := s.badStart || !decide (s.hart = .started ∧ s.runs = s.loaded) }

/-- `efinix_rproc_hart_start` returns 0 to `parse_fw` or `start`. -/
def hartStartOk (s : Lifecycle) (parsing : Bool) : Lifecycle :=
  if parsing then { s with hartStarted := true, call := .wait } else { s with hartStarted := true }.startOk

/-- `efinix_rproc_stop` returns. After a boot that failed the core does not look at the result. -/
def stopReturn (s : Lifecycle) (ok : Bool) : Lifecycle :=
  { s with hartStarted := false, call := .idle
           core := if ok = true ∨ s.core = .started then .offline else s.core }

def next (s : Lifecycle) : LifecycleAct → Option Lifecycle
  | .parseFw =>
    if s.call = .idle ∧ s.core = .offline then some { s with call := .load, loaded := s.loaded + 1 } else none
  | .segment =>
    if s.call = .load then some { s with overwritten := s.overwritten || decide (s.hart = .started) } else none
  | .loaded ok =>
    if s.call = .load then
      some (if ok then { s with ready := false, call := .status true } else { s with call := .idle })
    else none
  | .hartStatus error =>
    match s.call with
    | .status parsing =>
      -- an error is no state, so HART_START is tried
      some (if error = false ∧ s.hart = .started then s.hartStartOk parsing
        else { s with call := .hartStart parsing })
    | _ => none
  | .hartStart error =>
    match s.call with
    | .hartStart parsing =>
      if error then some { s with call := .idle, core := .offline }
      else if s.hart = .stopped then some ({ s with hart := .startPending }.hartStartOk parsing)
      else none
    | _ => none
  | .readySeen => if s.call = .wait ∧ s.ready = true then some { s with call := .alloc } else none
  | .timeout => if s.call = .wait ∧ s.ready = false then some { s with call := .idle } else none
  | .alloc ok =>
    if s.call = .alloc then some { s with call := .idle, core := if ok then .parsed else .offline } else none
  | .abandon => if s.call = .idle ∧ s.core = .parsed then some { s with core := .offline } else none
  | .start =>
    if s.call = .idle ∧ s.core = .parsed then
      some (if s.hartStarted then s.startOk else { s with call := .status false })
    else none
  | .subdevices => if s.call = .idle ∧ s.core = .started then some { s with core := .running } else none
  | .stop =>
    if s.call = .idle ∧ (s.core = .started ∨ s.core = .running) then some { s with call := .stop 0 } else none
  | .poll error =>
    match s.call with
    | .stop i =>
      some (if error = false ∧ s.hart = .stopped then s.stopReturn true
        else if i + 1 < 200 then { s with call := .stop (i + 1) }
        else s.stopReturn false)
    | _ => none
  | .hart state =>
    if s.hart.moves state then
      -- the hart begins with what is in the memory
      some { s with hart := state, runs := if s.hart = .startPending then s.loaded else s.runs }
    else none
  | .publish => if s.hart = .started then some { s with ready := true } else none

/-- After the probe, with the remote hart stopped. -/
def probed : Lifecycle :=
  { hart := .stopped, hartStarted := false, call := .idle, core := .offline, ready := false
    loaded := 0, runs := 0, overwritten := false, badStart := false }

end Lifecycle

def lifecycleMachine : Machine Lifecycle LifecycleAct := { init := (· = .probed), step := Lifecycle.next }

variable {s s' : Lifecycle}

/-! ## The property -/

structure Sound (s : Lifecycle) : Prop where
  hartStarted : s.call = .idle → (s.hartStarted = true ↔ s.hart = .started)
  overwritten : s.overwritten = false
  badStart : s.badStart = false

/-! ## The condition -/

def Call.stopping : Call → Bool
  | .stop _ => true
  | _ => false

/-- The hart has stopped, or is about to. -/
def HartState.Stops (h : HartState) : Prop := h = .stopped ∨ h = .stopPending

instance (h : HartState) : Decidable h.Stops := inferInstanceAs (Decidable (_ ∨ _))

/-- What the steps of a run have to meet. -/
def Orderly (s : Lifecycle) : LifecycleAct → Prop
  | .parseFw => s.hartStarted = false
  | .timeout => s.hart = .started
  | .poll _ => s.call = .stop 199 → s.hart.Stops
  | .hart _ => s.hart = .started → s.call.stopping = true
  | _ => True

instance (s : Lifecycle) : ∀ a, Decidable (Orderly s a)
  | .parseFw => inferInstanceAs (Decidable (s.hartStarted = false))
  | .timeout => inferInstanceAs (Decidable (s.hart = .started))
  | .poll _ => inferInstanceAs (Decidable (s.call = .stop 199 → s.hart.Stops))
  | .hart _ => inferInstanceAs (Decidable (s.hart = .started → s.call.stopping = true))
  | .segment | .loaded _ | .hartStatus _ | .hartStart _ | .readySeen | .alloc _ | .abandon | .start | .subdevices
  | .stop | .publish => isTrue trivial

/-! ## The invariant -/

/-- The hart is up with the firmware loaded last. -/
def Up (s : Lifecycle) : Prop := s.hartStarted = true ∧ s.hart = .started ∧ s.runs = s.loaded

/-- The hart is not, and nothing but HART_START brings it up. -/
def Down (s : Lifecycle) : Prop := s.hartStarted = false ∧ s.hart.Stops

/-- What holds at each place of a call. -/
def Placed (s : Lifecycle) : Prop :=
  match s.call with
  | .idle => (Up s ∨ Down s) ∧ (s.core = .parsed → Up s)
  | .load => Down s ∧ s.core = .offline
  | .status true | .hartStart true => Down s ∧ s.core = .offline ∧ s.ready = false
  | .status false | .hartStart false => False
  | .wait =>
    s.core = .offline ∧ (Up s ∨ (s.hartStarted = true ∧ s.hart = .startPending ∧ s.ready = false))
  | .alloc => s.core = .offline ∧ Up s
  | .stop i => i < 200 ∧ (s.core = .started ∨ s.core = .running)

structure LifecycleInv (s : Lifecycle) : Prop where
  placed : Placed s
  overwritten : s.overwritten = false
  badStart : s.badStart = false

theorem Down.not_started (h : Down s) : s.hart ≠ .started := by
  rcases h.2 with hs | hs <;> rw [hs] <;> simp

theorem LifecycleInv.sound (h : LifecycleInv s) : Sound s := by
  refine ⟨?_, h.overwritten, h.badStart⟩
  intro hidle
  have hplaced := h.placed
  unfold Placed at hplaced
  rw [hidle] at hplaced
  rcases hplaced.1 with hup | hdown
  · rw [hup.1, hup.2.1]
    simp
  · rw [hdown.1]
    simp [hdown.not_started]

theorem probed_lifecycle : LifecycleInv .probed :=
  ⟨⟨Or.inr ⟨rfl, Or.inl rfl⟩, fun h => absurd h (by simp [Lifecycle.probed])⟩, rfl, rfl⟩

/-! ## The steps -/

theorem LifecycleInv.idle (h : LifecycleInv s) (hcall : s.call = .idle) :
    (Up s ∨ Down s) ∧ (s.core = .parsed → Up s) := by
  have hplaced := h.placed
  unfold Placed at hplaced
  rwa [hcall] at hplaced

/-- **`parse_fw` is called** and loads the firmware. -/
theorem loadStep_inv {a : LifecycleAct} (h : LifecycleInv s) (horderly : Orderly s a) (hstep : s.next a = some s')
    (ha : a = .parseFw ∨ a = .segment ∨ ∃ ok, a = .loaded ok) : LifecycleInv s' := by
  have hload : s.call = .load → Down s ∧ s.core = .offline := by
    intro hcall
    have hplaced := h.placed
    unfold Placed at hplaced
    rwa [hcall] at hplaced
  rcases ha with rfl | rfl | ⟨ok, rfl⟩ <;> unfold Lifecycle.next at hstep <;> simp only at hstep
  · obtain ⟨hidle, rfl⟩ := of_guard hstep
    have hclear : s.hartStarted = false := horderly
    refine ⟨⟨?_, hidle.2⟩, h.overwritten, h.badStart⟩
    rcases (h.idle hidle.1).1 with hup | hdown
    · exact absurd hup.1 (by rw [hclear]; simp)
    · exact hdown
  · obtain ⟨hcall, rfl⟩ := of_guard hstep
    obtain ⟨hdown, hcore⟩ := hload hcall
    refine ⟨?_, ?_, h.badStart⟩
    · unfold Placed
      rw [show ({ s with overwritten := s.overwritten || decide (s.hart = .started) } : Lifecycle).call = .load
        from hcall]
      exact ⟨hdown, hcore⟩
    · show (s.overwritten || decide (s.hart = .started)) = false
      rw [h.overwritten, decide_eq_false hdown.not_started, Bool.or_false]
  · split at hstep
    · rename_i hcall
      obtain ⟨hdown, hcore⟩ := hload hcall
      cases ok with
      | true =>
        obtain rfl := Option.some.inj hstep
        exact ⟨⟨hdown, hcore, rfl⟩, h.overwritten, h.badStart⟩
      | false =>
        obtain rfl := Option.some.inj hstep
        refine ⟨⟨Or.inr hdown, ?_⟩, h.overwritten, h.badStart⟩
        intro hparsed
        rw [show s.core = .parsed from hparsed] at hcore
        exact absurd hcore (by simp)
    · exact absurd hstep (by simp)

/-- **`efinix_rproc_hart_start`** finds the hart down, and brings it up with the firmware just loaded. -/
theorem hartStartStep_inv {a : LifecycleAct} (h : LifecycleInv s) (hstep : s.next a = some s')
    (ha : ∃ error, a = .hartStatus error ∨ a = .hartStart error) : LifecycleInv s' := by
  have hplaced := h.placed
  unfold Placed at hplaced
  obtain ⟨error, rfl | rfl⟩ := ha <;> unfold Lifecycle.next at hstep <;> simp only at hstep
  · split at hstep
    · rename_i parsing hcall
      obtain rfl := Option.some.inj hstep
      rw [hcall] at hplaced
      cases parsing with
      | false => exact absurd hplaced id
      | true =>
        rw [if_neg (fun hs => hplaced.1.not_started hs.2)]
        exact ⟨hplaced, h.overwritten, h.badStart⟩
    · exact absurd hstep (by simp)
  · split at hstep
    · rename_i parsing hcall
      rw [hcall] at hplaced
      cases parsing with
      | false => exact absurd hplaced id
      | true =>
        split at hstep
        · obtain rfl := Option.some.inj hstep
          exact ⟨⟨Or.inr hplaced.1, fun hparsed => absurd hparsed (by simp)⟩, h.overwritten, h.badStart⟩
        · obtain ⟨-, rfl⟩ := of_guard hstep
          exact ⟨⟨hplaced.2.1, Or.inr ⟨rfl, rfl, hplaced.2.2⟩⟩, h.overwritten, h.badStart⟩
    · exact absurd hstep (by simp)

/-- **`parse_fw` returns**, with the hart up. -/
theorem waitStep_inv {a : LifecycleAct} (h : LifecycleInv s) (horderly : Orderly s a) (hstep : s.next a = some s')
    (ha : a = .readySeen ∨ a = .timeout ∨ ∃ ok, a = .alloc ok) : LifecycleInv s' := by
  have hplaced := h.placed
  unfold Placed at hplaced
  rcases ha with rfl | rfl | ⟨ok, rfl⟩ <;> unfold Lifecycle.next at hstep <;> simp only at hstep
  · obtain ⟨hseen, rfl⟩ := of_guard hstep
    rw [hseen.1] at hplaced
    obtain ⟨hcore, hup | ⟨-, -, hready⟩⟩ := hplaced
    · exact ⟨⟨hcore, hup⟩, h.overwritten, h.badStart⟩
    · -- the flag was cleared before the hart was started
      rw [hready] at hseen
      exact absurd hseen.2 (by simp)
  · obtain ⟨hnone, rfl⟩ := of_guard hstep
    rw [hnone.1] at hplaced
    have hstarted : s.hart = .started := horderly
    obtain ⟨hcore, hup | ⟨-, hpending, -⟩⟩ := hplaced
    · exact ⟨⟨Or.inl hup, fun _ => hup⟩, h.overwritten, h.badStart⟩
    · rw [hstarted] at hpending
      exact absurd hpending (by simp)
  · obtain ⟨hcall, rfl⟩ := of_guard hstep
    rw [hcall] at hplaced
    exact ⟨⟨Or.inl hplaced.2, fun _ => hplaced.2⟩, h.overwritten, h.badStart⟩

/-- **The core goes on to start** the firmware that is running, or gives the boot up. -/
theorem coreStep_inv {a : LifecycleAct} (h : LifecycleInv s) (hstep : s.next a = some s')
    (ha : a = .abandon ∨ a = .start ∨ a = .subdevices ∨ a = .stop) : LifecycleInv s' := by
  rcases ha with rfl | rfl | rfl | rfl <;> unfold Lifecycle.next at hstep <;> simp only at hstep
  · obtain ⟨hparsed, rfl⟩ := of_guard hstep
    refine ⟨?_, h.overwritten, h.badStart⟩
    unfold Placed
    rw [show ({ s with core := .offline } : Lifecycle).call = .idle from hparsed.1]
    exact ⟨(h.idle hparsed.1).1, fun hp => absurd hp (by simp)⟩
  · obtain ⟨hparsed, rfl⟩ := of_guard hstep
    have hup := (h.idle hparsed.1).2 hparsed.2
    rw [if_pos hup.1]
    refine ⟨⟨Or.inl hup, fun hp => absurd hp (by simp [Lifecycle.startOk])⟩, h.overwritten, ?_⟩
    show (s.badStart || !decide (s.hart = .started ∧ s.runs = s.loaded)) = false
    rw [h.badStart, decide_eq_true hup.2, Bool.not_true, Bool.or_false]
  · obtain ⟨hstarted, rfl⟩ := of_guard hstep
    refine ⟨?_, h.overwritten, h.badStart⟩
    unfold Placed
    rw [show ({ s with core := .running } : Lifecycle).call = .idle from hstarted.1]
    exact ⟨(h.idle hstarted.1).1, fun hp => absurd hp (by simp)⟩
  · obtain ⟨hup, rfl⟩ := of_guard hstep
    exact ⟨⟨by omega, hup.2⟩, h.overwritten, h.badStart⟩

/-- `efinix_rproc_stop` returns with the hart down. -/
theorem stopReturn_inv (h : LifecycleInv s) {ok : Bool} (hstops : s.hart.Stops)
    (hcore : s.core = .started ∨ s.core = .running) : LifecycleInv (s.stopReturn ok) := by
  refine ⟨⟨Or.inr ⟨rfl, hstops⟩, ?_⟩, h.overwritten, h.badStart⟩
  intro hp
  have hparsed : (if ok = true ∨ s.core = .started then Core.offline else s.core) = .parsed := hp
  split at hparsed
  · exact absurd hparsed (by simp)
  · rcases hcore with hc | hc <;> rw [hc] at hparsed <;> exact absurd hparsed (by simp)

/-- **A poll** of `efinix_rproc_stop`. -/
theorem poll_inv {error : Bool} (h : LifecycleInv s) (horderly : Orderly s (.poll error))
    (hstep : s.next (.poll error) = some s') : LifecycleInv s' := by
  have hplaced := h.placed
  unfold Placed at hplaced
  unfold Lifecycle.next at hstep
  simp only at hstep
  split at hstep
  · rename_i i hcall
    obtain rfl := Option.some.inj hstep
    rw [hcall] at hplaced
    split
    · rename_i hstopped
      exact stopReturn_inv h (Or.inl hstopped.2) hplaced.2
    · split
      · rename_i hmore
        exact ⟨⟨hmore, hplaced.2⟩, h.overwritten, h.badStart⟩
      · have hlast : i = 199 := by
          have := hplaced.1
          omega
        rw [hlast] at hcall
        exact stopReturn_inv h (horderly hcall) hplaced.2
  · exact absurd hstep (by simp)

/-- **The hart moves by itself**: while it is up, in `efinix_rproc_stop` only. -/
theorem hart_inv {state : HartState} (h : LifecycleInv s) (horderly : Orderly s (.hart state))
    (hstep : s.next (.hart state) = some s') : LifecycleInv s' := by
  have hplaced := h.placed
  obtain ⟨hmoves, rfl⟩ := of_guard hstep
  refine ⟨?_, h.overwritten, h.badStart⟩
  have hnotUp : s.call.stopping = false → ¬ Up s := by
    intro hcall hup
    have hstopping := horderly hup.2.1
    rw [hcall] at hstopping
    exact absurd hstopping (by simp)
  have hdown : Down s → s.hartStarted = false ∧ state.Stops := by
    rintro ⟨hclear, hstops⟩
    refine ⟨hclear, ?_⟩
    rcases hstops with hs | hs <;> rw [hs] at hmoves
    · cases state <;> exact absurd hmoves (by simp [HartState.moves])
    · cases state <;> first | exact Or.inl rfl | exact absurd hmoves (by simp [HartState.moves])
  unfold Placed at hplaced ⊢
  simp only
  cases hcall : s.call with
  | idle =>
    rw [hcall] at hplaced
    have hnot := hnotUp (by rw [hcall]; rfl)
    exact ⟨Or.inr (hdown (hplaced.1.resolve_left hnot)), fun hp => absurd (hplaced.2 hp) hnot⟩
  | load =>
    rw [hcall] at hplaced
    exact ⟨hdown hplaced.1, hplaced.2⟩
  | status parsing =>
    rw [hcall] at hplaced
    cases parsing with
    | false => exact hplaced
    | true => exact ⟨hdown hplaced.1, hplaced.2⟩
  | hartStart parsing =>
    rw [hcall] at hplaced
    cases parsing with
    | false => exact hplaced
    | true => exact ⟨hdown hplaced.1, hplaced.2⟩
  | wait =>
    rw [hcall] at hplaced
    obtain ⟨hcore, hup | ⟨hflag, hpending, -⟩⟩ := hplaced
    · exact absurd hup (hnotUp (by rw [hcall]; rfl))
    · -- it comes up with the firmware just loaded
      rw [hpending] at hmoves
      have hstate : state = .started := by
        cases state <;> first | rfl | exact absurd hmoves (by simp [HartState.moves])
      exact ⟨hcore, Or.inl ⟨hflag, hstate, if_pos hpending⟩⟩
  | alloc =>
    rw [hcall] at hplaced
    exact absurd hplaced.2 (hnotUp (by rw [hcall]; rfl))
  | stop i =>
    rw [hcall] at hplaced
    exact hplaced

/-- The ready flag is published by a hart that is up. -/
theorem publish_inv (h : LifecycleInv s) (hstep : s.next .publish = some s') : LifecycleInv s' := by
  have hplaced := h.placed
  obtain ⟨hstarted, rfl⟩ := of_guard hstep
  refine ⟨?_, h.overwritten, h.badStart⟩
  unfold Placed at hplaced ⊢
  simp only
  cases hcall : s.call with
  | idle | load | alloc | stop i =>
    rw [hcall] at hplaced
    exact hplaced
  | status parsing | hartStart parsing =>
    rw [hcall] at hplaced
    cases parsing with
    | false => exact hplaced
    | true => exact absurd hstarted hplaced.1.not_started
  | wait =>
    rw [hcall] at hplaced
    obtain ⟨hcore, hup | ⟨-, hpending, -⟩⟩ := hplaced
    · exact ⟨hcore, Or.inl hup⟩
    · rw [hstarted] at hpending
      exact absurd hpending (by simp)

/-- **One step keeps the flag, the hart and the firmware together.** -/
theorem next_lifecycle {a : LifecycleAct} (h : LifecycleInv s) (horderly : Orderly s a)
    (hstep : s.next a = some s') : LifecycleInv s' := by
  cases a with
  | parseFw => exact loadStep_inv h horderly hstep (Or.inl rfl)
  | segment => exact loadStep_inv h horderly hstep (Or.inr (Or.inl rfl))
  | loaded ok => exact loadStep_inv h horderly hstep (Or.inr (Or.inr ⟨ok, rfl⟩))
  | hartStatus error => exact hartStartStep_inv h hstep ⟨error, Or.inl rfl⟩
  | hartStart error => exact hartStartStep_inv h hstep ⟨error, Or.inr rfl⟩
  | readySeen => exact waitStep_inv h horderly hstep (Or.inl rfl)
  | timeout => exact waitStep_inv h horderly hstep (Or.inr (Or.inl rfl))
  | alloc ok => exact waitStep_inv h horderly hstep (Or.inr (Or.inr ⟨ok, rfl⟩))
  | abandon => exact coreStep_inv h hstep (Or.inl rfl)
  | start => exact coreStep_inv h hstep (Or.inr (Or.inl rfl))
  | subdevices => exact coreStep_inv h hstep (Or.inr (Or.inr (Or.inl rfl)))
  | stop => exact coreStep_inv h hstep (Or.inr (Or.inr (Or.inr rfl)))
  | poll error => exact poll_inv h horderly hstep
  | hart state => exact hart_inv h horderly hstep
  | publish => exact publish_inv h hstep

theorem reach_lifecycle (h : lifecycleMachine.Reach Orderly s) : LifecycleInv s :=
  h.invariant (fun s hs => by rw [hs]; exact probed_lifecycle)
    (fun s a s' hs horderly hstep => next_lifecycle hs horderly hstep)

/-- **The lifecycle is sound** in an orderly run. -/
theorem lifecycle_sound (h : lifecycleMachine.Reach Orderly s) : Sound s := (reach_lifecycle h).sound

/-- Two boots with a shutdown in between, the first of which has its subdevices fail. -/
theorem lifecycle_sound_two_boots :
    ∃ s, lifecycleMachine.Reach Orderly s ∧ s.core = .running ∧ s.loaded = 2 ∧ s.runs = 2 ∧ Sound s := by
  have hrun : (lifecycleMachine.exec .probed
      [.parseFw, .segment, .loaded true, .hartStatus false, .hartStart false, .hart .started, .publish, .readySeen,
        .alloc true, .start, .stop, .poll true, .hart .stopPending, .poll false, .hart .stopped, .poll false,
        .parseFw, .segment, .loaded true, .hartStatus true, .hartStart false, .hart .started, .publish, .readySeen,
        .alloc true, .start, .subdevices]).map
      (fun s => (s.core, s.loaded, s.runs)) = some (.running, 2, 2) := by decide +kernel
  obtain ⟨s, hexec, hs⟩ := Option.map_eq_some_iff.1 hrun
  simp only [Prod.mk.injEq] at hs
  have hreach : lifecycleMachine.Reach Orderly s := .of_exec rfl (by decide +kernel) hexec
  exact ⟨s, hreach, hs.1, hs.2.1, hs.2.2, lifecycle_sound hreach⟩

/-! ## No weaker condition -/

/-- Out of its calls, the driver has the flag of another state of the hart. -/
theorem flag_leads (hcall : s.call = .idle) (hflag : ¬ (s.hartStarted = true ↔ s.hart = .started)) :
    lifecycleMachine.Leads (fun t => ¬ Sound t) s := .here (fun hsound => hflag (hsound.hartStarted hcall))

theorem hart_next {h state : HartState} (hhart : s.hart = h) (hmoves : h.moves state = true) :
    lifecycleMachine.step s (.hart state) =
      some { s with hart := state, runs := if s.hart = .startPending then s.loaded else s.runs } :=
  if_pos (by rw [hhart]; exact hmoves)

/-- **A hart left behind** by `efinix_rproc_stop` comes up with the flag clear. -/
theorem stop_leads (hcall : s.call = .idle) (hclear : s.hartStarted = false) (hstops : ¬ s.hart.Stops) :
    lifecycleMachine.Leads (fun t => ¬ Sound t) s := by
  have hup : ∀ t : Lifecycle, t.call = .idle → t.hartStarted = false → t.hart = .started →
      lifecycleMachine.Leads (fun t => ¬ Sound t) t := by
    intro t hcall hclear hstarted
    exact flag_leads hcall (by rw [hclear, hstarted]; simp)
  have hresume : ∀ t : Lifecycle, t.call = .idle → t.hartStarted = false → t.hart = .suspended →
      lifecycleMachine.Leads (fun t => ¬ Sound t) t := by
    intro t hcall hclear hsuspended
    exact .next (.hart .resumePending) (hart_next hsuspended rfl)
      (.next (.hart .started) (hart_next rfl rfl) (hup _ hcall hclear rfl))
  cases hhart : s.hart with
  | started => exact hup s hcall hclear hhart
  | stopped => exact absurd (Or.inl hhart) hstops
  | stopPending => exact absurd (Or.inr hhart) hstops
  | startPending => exact .next (.hart .started) (hart_next hhart rfl) (hup _ hcall hclear rfl)
  | resumePending => exact .next (.hart .started) (hart_next hhart rfl) (hup _ hcall hclear rfl)
  | suspended => exact hresume s hcall hclear hhart
  | suspendPending => exact .next (.hart .suspended) (hart_next hhart rfl) (hresume _ hcall hclear rfl)

/-- **A boot that has lost its hart** returns with the flag set. -/
theorem boot_leads (hcall : s.call = .wait ∨ s.call = .alloc) (hset : s.hartStarted = true)
    (hhart : s.hart ≠ .started) : lifecycleMachine.Leads (fun t => ¬ Sound t) s := by
  have halloc : ∀ t : Lifecycle, t.call = .alloc → t.hartStarted = true → t.hart ≠ .started →
      lifecycleMachine.Leads (fun t => ¬ Sound t) t := by
    intro t hcall hset hhart
    exact .next (.alloc false) (if_pos hcall) (flag_leads rfl (fun hiff => hhart (hiff.1 hset)))
  rcases hcall with hcall | hcall
  · cases hready : s.ready with
    | true => exact .next .readySeen (if_pos ⟨hcall, hready⟩) (halloc _ rfl hset hhart)
    | false => exact .next .timeout (if_pos ⟨hcall, hready⟩) (flag_leads rfl (fun hiff => hhart (hiff.1 hset)))
  · exact halloc s hcall hset hhart

/-- **A hart that leaves STARTED** outside of `efinix_rproc_stop` leaves the flag behind. -/
theorem hart_leads {state : HartState} (hinv : LifecycleInv s) (ha : ¬ Orderly s (.hart state))
    (hstep : s.next (.hart state) = some s') : lifecycleMachine.Leads (fun t => ¬ Sound t) s' := by
  have hplaced := hinv.placed
  unfold Placed at hplaced
  obtain ⟨hstarted, hcall⟩ := Classical.not_imp.1 ha
  obtain ⟨hmoves, rfl⟩ := of_guard hstep
  have haway : state ≠ .started := by
    rintro rfl
    rw [hstarted] at hmoves
    exact absurd hmoves (by simp [HartState.moves])
  cases hc : s.call with
  | idle =>
    rcases (hinv.idle hc).1 with hup | hdown
    · exact flag_leads rfl (fun hiff => haway (hiff.1 hup.1))
    · exact absurd hstarted hdown.not_started
  | load =>
    rw [hc] at hplaced
    exact absurd hstarted hplaced.1.not_started
  | status parsing | hartStart parsing =>
    rw [hc] at hplaced
    cases parsing with
    | false => exact absurd hplaced id
    | true => exact absurd hstarted hplaced.1.not_started
  | wait =>
    rw [hc] at hplaced
    rcases hplaced.2 with hup | ⟨-, hpending, -⟩
    · exact boot_leads (Or.inl rfl) hup.1 haway
    · rw [hstarted] at hpending
      exact absurd hpending (by simp)
  | alloc =>
    rw [hc] at hplaced
    exact boot_leads (Or.inr rfl) hplaced.2.1 haway
  | stop i => exact absurd (by rw [hc]; rfl) hcall

/-- **A step that is not orderly** leads to a state that is not sound. -/
theorem disorder_leads {a : LifecycleAct} (h : lifecycleMachine.Reach Orderly s) (ha : ¬ Orderly s a)
    (hstep : s.next a = some s') : lifecycleMachine.Leads (fun t => ¬ Sound t) s' := by
  have hinv := reach_lifecycle h
  have hplaced := hinv.placed
  unfold Placed at hplaced
  cases a with
  | parseFw =>
    obtain ⟨hidle, rfl⟩ := of_guard hstep
    have hstarted : s.hart = .started := by
      rcases (hinv.idle hidle.1).1 with hup | hdown
      · exact hup.2.1
      · exact absurd hdown.1 ha
    -- the retry loads the firmware under the running hart
    have hsegment : lifecycleMachine.step { s with call := .load, loaded := s.loaded + 1 } .segment =
        some { s with
          call := .load, loaded := s.loaded + 1, overwritten := s.overwritten || decide (s.hart = .started) } :=
      rfl
    refine .next .segment hsegment (.here ?_)
    intro hsound
    have hnone : (s.overwritten || decide (s.hart = .started)) = false := hsound.overwritten
    rw [decide_eq_true hstarted, Bool.or_true] at hnone
    exact absurd hnone (by simp)
  | timeout =>
    obtain ⟨hnone, rfl⟩ := of_guard hstep
    rw [hnone.1] at hplaced
    have hset : s.hartStarted = true := by
      rcases hplaced.2 with hup | hpending
      · exact hup.1
      · exact hpending.1
    exact flag_leads rfl (fun hiff => ha (hiff.1 hset))
  | poll error =>
    obtain ⟨hcall, hstops⟩ := Classical.not_imp.1 ha
    unfold Lifecycle.next at hstep
    rw [hcall] at hstep
    obtain rfl := Option.some.inj hstep
    rw [if_neg (fun hs => hstops (Or.inl hs.2)), if_neg (by omega)]
    exact stop_leads rfl rfl hstops
  | hart state => exact hart_leads hinv ha hstep
  | segment | loaded _ | hartStatus _ | hartStart _ | readySeen | alloc _ | abandon | start | subdevices | stop
  | publish => exact absurd trivial ha

/-! ## What the driver does -/

/-- **A boot that timed out, tried again**: the firmware is written under the running hart, and the
start succeeds on the old one. -/
theorem retry_runs_old_firmware :
    ∃ s, lifecycleMachine.Reach (fun _ _ => True) s ∧ s.overwritten = true ∧ s.core = .started ∧ s.loaded = 2 ∧
      s.runs = 1 ∧ ¬ Sound s := by
  have hrun : (lifecycleMachine.exec .probed
      [.parseFw, .segment, .loaded true, .hartStatus false, .hartStart false, .hart .started, .timeout,
        .parseFw, .segment, .loaded true, .hartStatus false, .publish, .readySeen, .alloc true, .start]).map
      (fun s => (s.overwritten, s.core, s.loaded, s.runs)) = some (true, .started, 2, 1) := by decide +kernel
  obtain ⟨s, hexec, hs⟩ := Option.map_eq_some_iff.1 hrun
  simp only [Prod.mk.injEq] at hs
  obtain ⟨hoverwritten, hcore, hloaded, hruns⟩ := hs
  refine ⟨s, .of_exec rfl (Machine.along_true _ _) hexec, hoverwritten, hcore, hloaded, hruns, ?_⟩
  intro hsound
  have hnone := hsound.overwritten
  rw [hoverwritten] at hnone
  exact absurd hnone (by simp)

/-- **A hart that does not stop** is STARTED with the flag clear. -/
theorem stop_gives_up :
    ∃ s, lifecycleMachine.Reach (fun _ _ => True) s ∧ s.call = .idle ∧ s.hartStarted = false ∧
      s.hart = .started ∧ ¬ Sound s := by
  have hrun : (lifecycleMachine.exec .probed
      ([LifecycleAct.parseFw, .segment, .loaded true, .hartStatus false, .hartStart false, .hart .started, .publish,
        .readySeen, .alloc true, .start, .subdevices, .stop] ++ List.replicate 200 (LifecycleAct.poll false))).map
      (fun s => (s.call, s.hartStarted, s.hart)) = some (.idle, false, .started) := by decide +kernel
  obtain ⟨s, hexec, hs⟩ := Option.map_eq_some_iff.1 hrun
  simp only [Prod.mk.injEq] at hs
  obtain ⟨hcall, hclear, hstarted⟩ := hs
  refine ⟨s, .of_exec rfl (Machine.along_true _ _) hexec, hcall, hclear, hstarted, ?_⟩
  intro hsound
  have hset := (hsound.hartStarted hcall).2 hstarted
  rw [hclear] at hset
  exact absurd hset (by simp)

end Br2Efinix.Rproc
