import Mathlib.Data.Fintype.Basic
import Br2Efinix.Lib.Machine

/-!
# Inbound kicks by interrupt

`efinix_rproc_inbound_start`, `efinix_rproc_inbound_stop` and `efinix_rproc_remove` with
`rproc_use_ipi`, the kicks of the remote core, and `efinix_rproc_ipi_doorbell` as
`riscv_intc_irq` calls it on any hart. Each access to a shared word is a step.

The remote core rings one hart; other software interrupts come to any of them. A hart
clears its interrupt in the dispatch that follows `riscv_amp_ipi_notify`.

A value of the kick counter is kept as the number of kicks that it counts, of which the
code sees the lower 32 bits.
-/

namespace Br2Efinix.Rproc

/-- Where a hart is in `riscv_intc_irq`: outside, before `riscv_amp_ipi_notify` reads the hook,
before each access of `efinix_rproc_ipi_doorbell`, or before the dispatch. Only observed are the
session that the doorbell found active and, in the dispatch, the count it has read. -/
inductive Pc
  | idle
  | notify
  | doorbell
  | readCounter (session : ℕ)
  | compare (session now : ℕ)
  | update (session now : ℕ)
  | schedule (session now : ℕ)
  | dispatch (seen : Option ℕ)
  deriving DecidableEq, Repr

/-- Where the driver is: outside of its calls, in `efinix_rproc_inbound_start` before it reads the
counter, stores it or opens the gate, in `efinix_rproc_inbound_stop` before `cancel_work_sync`
returns, or in the rest of `efinix_rproc_remove`. -/
inductive Ctl
  | idle
  | begun
  | sampled (now : ℕ)
  | stored
  | closed (removing : Bool)
  | unhook
  | unmap
  | removed
  deriving DecidableEq, Repr

/-- The shared counter, the fields of `struct efinix_rproc` for inbound kicks, the software
interrupts and the harts. `remote` says that a kick is made and its interrupt not raised yet.
Only observed are the number of sessions, the count when `efinix_rproc_start` began, the count
when `notify_work` was last scheduled, whether it was scheduled for a session that was over, and
whether the counter was read after the unmapping. -/
structure Inbound (H : Type*) where
  kicks : ℕ
  lastR2lSeen : ℕ
  ipiActive : Bool
  hooked : Bool
  mapped : Bool
  ctl : Ctl
  remote : Bool
  irq : H → Bool
  pc : H → Pc
  pending : Bool
  running : Bool
  session : ℕ
  startedAt : Option ℕ
  scheduled : ℕ
  late : Bool
  unmappedRead : Bool

inductive InboundAct (H : Type*)
  | start
  | sample
  | store
  | open_
  | close (removing : Bool)
  | cancel
  | unhook
  | unmap
  | kick
  | raise
  | ipi (h : H)
  | take (h : H)
  | hart (h : H)
  | workBegin
  | workEnd
  deriving Repr

/-- `readl_relaxed(priv->kick_r2l_va)` for a number of kicks. -/
def word (kicks : ℕ) : ℕ := kicks % 2 ^ 32

namespace Inbound

variable {H : Type*} [DecidableEq H]

def setPc (s : Inbound H) (h : H) (p : Pc) : Inbound H :=
  { s with pc := fun j => if j = h then p else s.pc j }

def setIrq (s : Inbound H) (h : H) (b : Bool) : Inbound H :=
  { s with irq := fun j => if j = h then b else s.irq j }

/-- Session `n` is over: `efinix_rproc_inbound_stop` has returned. -/
def isOver (s : Inbound H) (n : ℕ) : Bool :=
  decide (n ≠ s.session) || (!s.ipiActive && decide (s.ctl ≠ .closed false ∧ s.ctl ≠ .closed true))

/-- The next step of a hart. -/
def hartStep (s : Inbound H) (h : H) : Option (Inbound H) :=
  match s.pc h with
  | .idle => none
  | .notify => some (s.setPc h (if s.hooked then .doorbell else .dispatch none))
  | .doorbell => some (s.setPc h (if s.ipiActive then .readCounter s.session else .dispatch none))
  | .readCounter n =>
    some { s.setPc h (.compare n s.kicks) with unmappedRead := s.unmappedRead || !s.mapped }
  | .compare n now =>
    some (s.setPc h (if word now ≠ word s.lastR2lSeen then .update n now else .dispatch (some now)))
  | .update n now => some { s.setPc h (.schedule n now) with lastR2lSeen := now }
  | .schedule n now =>
    some { s.setPc h (.dispatch (some now)) with
      pending := true, scheduled := s.kicks, late := s.late || s.isOver n }
  | .dispatch _ => some ((s.setPc h .idle).setIrq h false)

/-- The next step of the driver, the remote core, which rings `boot`, a hart or the worker. The
core starts a processor that is stopped. -/
def next (boot : H) (s : Inbound H) : InboundAct H → Option (Inbound H)
  | .start =>
    if s.ctl = .idle ∧ s.ipiActive = false then some { s with ctl := .begun, startedAt := some s.kicks } else none
  | .sample => if s.ctl = .begun then some { s with ctl := .sampled s.kicks } else none
  | .store =>
    match s.ctl with
    | .sampled now => some { s with ctl := .stored, lastR2lSeen := now }
    | _ => none
  | .open_ =>
    if s.ctl = .stored then some { s with ctl := .idle, ipiActive := true, session := s.session + 1 } else none
  | .close removing =>
    if s.ctl = .idle then some { s with ctl := .closed removing, ipiActive := false, startedAt := none } else none
  | .cancel =>
    match s.ctl with
    | .closed removing =>
      if s.running then none
      else some { s with ctl := if removing then .unhook else .idle, pending := false }
    | _ => none
  | .unhook => if s.ctl = .unhook then some { s with ctl := .unmap, hooked := false } else none
  | .unmap => if s.ctl = .unmap then some { s with ctl := .removed, mapped := false } else none
  | .kick => if s.remote then none else some { s with kicks := s.kicks + 1, remote := true }
  | .raise => if s.remote then some { s.setIrq boot true with remote := false } else none
  | .ipi h => some (s.setIrq h true)
  | .take h => if s.irq h = true ∧ s.pc h = .idle then some (s.setPc h .notify) else none
  | .hart h => s.hartStep h
  | .workBegin =>
    if s.pending = true ∧ s.running = false then some { s with pending := false, running := true } else none
  | .workEnd => if s.running then some { s with running := false } else none

/-- After the probe; the counter and `last_r2l_seen` may have any value. -/
def probed (kicks lastR2lSeen : ℕ) : Inbound H :=
  { kicks := kicks, lastR2lSeen := lastR2lSeen, ipiActive := false, hooked := true, mapped := true
    ctl := .idle, remote := false, irq := fun _ => false, pc := fun _ => .idle, pending := false
    running := false, session := 0, startedAt := none, scheduled := 0, late := false
    unmappedRead := false }

@[simp] theorem setPc_self (s : Inbound H) (h : H) (p : Pc) : (s.setPc h p).pc h = p := if_pos rfl

theorem setPc_ne (s : Inbound H) {h j : H} (p : Pc) (hj : j ≠ h) : (s.setPc h p).pc j = s.pc j := if_neg hj

end Inbound

def inboundMachine {H : Type*} [DecidableEq H] (boot : H) : Machine (Inbound H) (InboundAct H) :=
  { init := fun s => ∃ kicks lastR2lSeen, lastR2lSeen ≤ kicks ∧ s = .probed kicks lastR2lSeen
    step := Inbound.next boot }

end Br2Efinix.Rproc
