import Br2Efinix.Lib.Machine

/-!
# The frame buffers of the vision demo

The display scans the buffer `tx_buf_idx` out, and its completion interrupt starts it again. The receive
thread has the camera fill `rx_buf_idx`, writes the overlay into it, and then swaps the two
indices by two assignments. The interrupt, the thread and `main_init` run on harts of their own.

* `buffers_kept_iff`: the buffers are kept apart exactly in the runs in which no frame is swapped in.
* `display_apart`: the display and the writers are apart in every run in which the camera is not started
  on the buffer that the display has or is about to get.
-/

namespace Br2Efinix.EvSoc

/-! ## The state -/

/-- Where `main_init` is, from `buf_is_ready = 1` on. -/
inductive MainPc
  | ready
  | init
  | read
  | start (lBuf : ℕ)
  | delay
  | done
  deriving DecidableEq, Repr

/-- Where `evsoc_thread_fun_rx` and `do_rx_proc` are. -/
inductive RxPc
  | ready
  | loop
  | init
  | proc
  | start (lBuf : ℕ)
  | capture
  | layer
  | layerWrite
  | title
  | titleWrite
  | swapTx
  | swapRx (lTmpIdx1 : ℕ)
  deriving DecidableEq, Repr

/-- Where `dma_tx_irq` is. -/
inductive IrqPc
  | out
  | pending
  | entered (lBuf : ℕ)
  deriving DecidableEq, Repr

/-- The shared variables, the software contexts, and the buffers that the display scans, the camera fills and
the overlay code writes. Buffers are known by their indices. -/
structure Vision where
  txBufIdx : ℕ
  rxBufIdx : ℕ
  initTxBuf : Bool
  bufIsReady : Bool
  main : MainPc
  rx : RxPc
  irq : IrqPc
  display : Option ℕ
  camera : Option ℕ
  overlay : Option ℕ
  deriving DecidableEq, Repr

namespace Vision

/-- `main_init` and `start_tx`. -/
def mainStep (s : Vision) : Option Vision :=
  match s.main with
  | .ready => some { s with bufIsReady := true, main := .init }
  | .init => some { s with initTxBuf := true, main := .read }
  | .read => some { s with main := .start s.txBufIdx }
  | .start lBuf => some { s with display := some lBuf, main := .delay }
  | .delay => some { s with initTxBuf := false, main := .done }
  | .done => none

/-- `evsoc_thread_fun_rx` and `do_rx_proc`; `isReady` says whether there is an overlay, where this is
looked at. -/
def rxStep (s : Vision) (isReady : Bool) : Option Vision :=
  match s.rx with
  | .ready => some { s with rx := if s.bufIsReady then .loop else .ready }
  | .loop => some { s with rx := if s.initTxBuf then .init else .proc }
  | .init => some { s with txBufIdx := 0, rx := .loop }
  | .proc => some { s with rx := .start s.rxBufIdx }
  | .start lBuf => some { s with camera := some lBuf, rx := .capture }
  | .capture => if s.camera = none then some { s with rx := .layer } else none
  | .layer =>
    if isReady then some { s with overlay := some s.rxBufIdx, rx := .layerWrite } else some { s with rx := .title }
  | .layerWrite => some { s with overlay := none, rx := .title }
  | .title =>
    if isReady then some { s with overlay := some s.rxBufIdx, rx := .titleWrite } else some { s with rx := .swapTx }
  | .titleWrite => some { s with overlay := none, rx := .swapTx }
  | .swapTx => some { s with txBufIdx := s.rxBufIdx, rx := .swapRx s.txBufIdx }
  | .swapRx lTmpIdx1 => some { s with rxBufIdx := lTmpIdx1, rx := .loop }

/-- `dma_tx_irq`. -/
def irqStep (s : Vision) : Option Vision :=
  match s.irq with
  | .out => none
  | .pending => some { s with irq := .entered s.txBufIdx }
  | .entered lBuf => some { s with display := some lBuf, irq := .out }

/-- The camera's DMA is done. -/
def cameraDone (s : Vision) : Option Vision := if s.camera = none then none else some { s with camera := none }

/-- The display's DMA is done, and interrupts. -/
def displayDone (s : Vision) : Option Vision :=
  if s.display = none then none else some { s with display := none, irq := .pending }

end Vision

inductive VisionAct
  | main
  | rx (isReady : Bool)
  | irq
  | cameraDone
  | displayDone
  deriving DecidableEq, Repr

/-- `main_init` has created the thread. -/
def Vision.created : Vision :=
  { txBufIdx := 0, rxBufIdx := 2, initTxBuf := true, bufIsReady := false, main := .ready, rx := .ready
    irq := .out, display := none, camera := none, overlay := none }

def visionMachine : Machine Vision VisionAct :=
  { init := fun s => s = .created
    step := fun s a =>
      match a with
      | .main => s.mainStep
      | .rx isReady => s.rxStep isReady
      | .irq => s.irqStep
      | .cameraDone => s.cameraDone
      | .displayDone => s.displayDone }

/-! ## The property -/

/-- The buffer that is scanned out is not written. -/
def Apart (s : Vision) : Prop := ∀ b, s.display = some b → s.camera ≠ some b ∧ s.overlay ≠ some b

structure Kept (s : Vision) : Prop where
  apart : Apart s
  distinct : s.txBufIdx ≠ s.rxBufIdx

/-- The step ends with the buffers kept apart. -/
def Keeps (s : Vision) (a : VisionAct) : Prop := ∀ s', visionMachine.step s a = some s' → Kept s'

/-! ## The conditions -/

/-- The step is not the first assignment of the swap. -/
def NoSwap (s : Vision) : VisionAct → Prop
  | .rx _ => s.rx ≠ .swapTx
  | _ => True

/-- The camera is not started on the buffer that the display has or is about to get. -/
def Paced (s : Vision) : VisionAct → Prop
  | .rx _ => ∀ lBuf, s.rx = .start lBuf → s.display ≠ some lBuf ∧ s.irq ≠ .entered lBuf
  | _ => True

/-! ## Before the first swap -/

variable {s s' : Vision}

/-- The display has buffer 0 and the receive thread buffer 2. -/
structure Unswapped (s : Vision) : Prop where
  tx : s.txBufIdx = 0
  rx : s.rxBufIdx = 2
  main : ∀ b, s.main = .start b → b = 0
  start : ∀ b, s.rx = .start b → b = 2
  swap : ∀ b, s.rx ≠ .swapRx b
  irq : ∀ b, s.irq = .entered b → b = 0
  display : ∀ b, s.display = some b → b = 0
  camera : ∀ b, s.camera = some b → b = 2
  overlay : ∀ b, s.overlay = some b → b = 2

theorem Unswapped.kept (h : Unswapped s) : Kept s := by
  refine ⟨?_, ?_⟩
  · intro b hb
    obtain rfl := h.display b hb
    exact ⟨fun hc => absurd (h.camera 0 hc) (by decide), fun ho => absurd (h.overlay 0 ho) (by decide)⟩
  · rw [h.tx, h.rx]
    decide

theorem main_unswapped (h : Unswapped s) (hstep : s.mainStep = some s') : Unswapped s' := by
  unfold Vision.mainStep at hstep
  cases hpc : s.main with
  | ready =>
    rw [hpc] at hstep
    obtain rfl := Option.some.inj hstep
    exact { h with main := fun b hb => absurd hb (by simp) }
  | init =>
    rw [hpc] at hstep
    obtain rfl := Option.some.inj hstep
    exact { h with main := fun b hb => absurd hb (by simp) }
  | read =>
    rw [hpc] at hstep
    obtain rfl := Option.some.inj hstep
    exact { h with main := fun b hb => (MainPc.start.inj hb).symm.trans h.tx }
  | start lBuf =>
    rw [hpc] at hstep
    obtain rfl := Option.some.inj hstep
    refine { h with main := fun b hb => absurd hb (by simp), display := ?_ }
    intro b hb
    exact (Option.some.inj hb).symm.trans (h.main lBuf hpc)
  | delay =>
    rw [hpc] at hstep
    obtain rfl := Option.some.inj hstep
    exact { h with main := fun b hb => absurd hb (by simp) }
  | done =>
    rw [hpc] at hstep
    exact absurd hstep (by simp)

/-- The thread goes on, and what it has the camera fill or writes is buffer 2. -/
theorem Unswapped.moved (h : Unswapped s) {pc : RxPc} {camera overlay : Option ℕ}
    (hstart : ∀ b, pc = .start b → b = 2) (hswap : ∀ b, pc ≠ .swapRx b) (hcamera : ∀ b, camera = some b → b = 2)
    (hoverlay : ∀ b, overlay = some b → b = 2) :
    Unswapped { s with camera := camera, overlay := overlay, rx := pc } :=
  { h with start := hstart, swap := hswap, camera := hcamera, overlay := hoverlay }

theorem rx_unswapped (h : Unswapped s) (hrx : s.rx ≠ .swapTx) {isReady : Bool}
    (hstep : s.rxStep isReady = some s') : Unswapped s' := by
  unfold Vision.rxStep at hstep
  have hwrites : ∀ b, some s.rxBufIdx = some b → b = 2 := fun b hb => (Option.some.inj hb).symm.trans h.rx
  cases hpc : s.rx with
  | ready =>
    rw [hpc] at hstep
    obtain rfl := Option.some.inj hstep
    by_cases hready : s.bufIsReady = true
    · rw [if_pos hready]
      exact h.moved nofun nofun h.camera h.overlay
    · rw [if_neg hready]
      exact h.moved nofun nofun h.camera h.overlay
  | loop =>
    rw [hpc] at hstep
    obtain rfl := Option.some.inj hstep
    by_cases hinit : s.initTxBuf = true
    · rw [if_pos hinit]
      exact h.moved nofun nofun h.camera h.overlay
    · rw [if_neg hinit]
      exact h.moved nofun nofun h.camera h.overlay
  | init =>
    rw [hpc] at hstep
    obtain rfl := Option.some.inj hstep
    exact { h with tx := rfl, start := nofun, swap := nofun }
  | proc =>
    rw [hpc] at hstep
    obtain rfl := Option.some.inj hstep
    refine h.moved ?_ nofun h.camera h.overlay
    intro b hb
    exact (RxPc.start.inj hb).symm.trans h.rx
  | start lBuf =>
    rw [hpc] at hstep
    obtain rfl := Option.some.inj hstep
    refine h.moved nofun nofun ?_ h.overlay
    intro b hb
    exact (Option.some.inj hb).symm.trans (h.start lBuf hpc)
  | capture =>
    rw [hpc] at hstep
    obtain ⟨-, rfl⟩ := of_guard hstep
    exact h.moved nofun nofun h.camera h.overlay
  | layer =>
    rw [hpc] at hstep
    simp only at hstep
    split at hstep
    · obtain rfl := Option.some.inj hstep
      exact h.moved nofun nofun h.camera hwrites
    · obtain rfl := Option.some.inj hstep
      exact h.moved nofun nofun h.camera h.overlay
  | layerWrite =>
    rw [hpc] at hstep
    obtain rfl := Option.some.inj hstep
    exact h.moved nofun nofun h.camera nofun
  | title =>
    rw [hpc] at hstep
    simp only at hstep
    split at hstep
    · obtain rfl := Option.some.inj hstep
      exact h.moved nofun nofun h.camera hwrites
    · obtain rfl := Option.some.inj hstep
      exact h.moved nofun nofun h.camera h.overlay
  | titleWrite =>
    rw [hpc] at hstep
    obtain rfl := Option.some.inj hstep
    exact h.moved nofun nofun h.camera nofun
  | swapTx => exact absurd hpc hrx
  | swapRx lTmpIdx1 => exact absurd hpc (h.swap lTmpIdx1)

theorem irq_unswapped (h : Unswapped s) (hstep : s.irqStep = some s') : Unswapped s' := by
  unfold Vision.irqStep at hstep
  cases hpc : s.irq with
  | out =>
    rw [hpc] at hstep
    exact absurd hstep (by simp)
  | pending =>
    rw [hpc] at hstep
    obtain rfl := Option.some.inj hstep
    exact { h with irq := fun b hb => (IrqPc.entered.inj hb).symm.trans h.tx }
  | entered lBuf =>
    rw [hpc] at hstep
    obtain rfl := Option.some.inj hstep
    refine { h with irq := fun b hb => absurd hb (by simp), display := ?_ }
    intro b hb
    exact (Option.some.inj hb).symm.trans (h.irq lBuf hpc)

/-- **Until the first swap** the indices stay as they are. -/
theorem step_unswapped {a : VisionAct} (h : Unswapped s) (hg : NoSwap s a)
    (hstep : visionMachine.step s a = some s') : Unswapped s' := by
  cases a with
  | main => exact main_unswapped h hstep
  | rx isReady => exact rx_unswapped h hg hstep
  | irq => exact irq_unswapped h hstep
  | cameraDone =>
    obtain ⟨-, rfl⟩ := of_guard_not hstep
    exact { h with camera := fun b hb => absurd hb (by simp) }
  | displayDone =>
    obtain ⟨-, rfl⟩ := of_guard_not hstep
    exact { h with irq := fun b hb => absurd hb (by simp), display := fun b hb => absurd hb (by simp) }

/-- The first assignment of the swap makes the indices equal. -/
theorem swap_not_kept {isReady : Bool} (hrx : s.rx = .swapTx) : ¬ Keeps s (.rx isReady) := by
  intro hkeeps
  have hstep : visionMachine.step s (.rx isReady) =
      some { s with txBufIdx := s.rxBufIdx, rx := .swapRx s.txBufIdx } := by
    change s.rxStep isReady = _
    unfold Vision.rxStep
    rw [hrx]
  exact (hkeeps _ hstep).distinct rfl

theorem keeps_iff {a : VisionAct} (h : Unswapped s) : Keeps s a ↔ NoSwap s a := by
  constructor
  · intro hkeeps
    cases a with
    | rx isReady => exact fun hrx => swap_not_kept hrx hkeeps
    | main => trivial
    | irq => trivial
    | cameraDone => trivial
    | displayDone => trivial
  · intro hg s' hstep
    exact (step_unswapped h hg hstep).kept

theorem created_unswapped : Unswapped .created := by
  refine ⟨rfl, rfl, ?_, ?_, ?_, ?_, ?_, ?_, ?_⟩ <;> intro b hb <;> exact absurd hb (by simp [Vision.created])

/-- **The buffers are kept apart** in every state of a run exactly when the run swaps no frame in. -/
theorem buffers_kept_iff (as : List VisionAct) :
    Kept .created ∧ visionMachine.Along Keeps .created as ↔ visionMachine.Along NoSwap .created as := by
  have hruns : visionMachine.Along Keeps .created as ↔ visionMachine.Along NoSwap .created as :=
    Machine.along_iff (I := Unswapped)
      (fun _ _ _ h _ hkeeps hstep => step_unswapped h ((keeps_iff h).1 hkeeps) hstep)
      (fun _ _ h _ => keeps_iff h) created_unswapped (Machine.along_true _ _)
  rw [hruns]
  exact ⟨fun h => h.2, fun h => ⟨created_unswapped.kept, h⟩⟩

/-! ## Pacing -/

/-- The thread has seen `init_tx_buf` cleared and is in `do_rx_proc`. -/
def RxPc.busy : RxPc → Bool
  | .ready | .loop | .init => false
  | _ => true

/-- The camera was started for this frame, and the swap has not begun. -/
def RxPc.fills : RxPc → Bool
  | .capture | .layer | .layerWrite | .title | .titleWrite | .swapTx => true
  | _ => false

theorem fills_of_idle {pc : RxPc} (h : pc.busy = false) : pc.fills = false := by
  cases pc <;> first | rfl | exact absurd h (by simp [RxPc.busy])

/-- What a paced run keeps: the buffer that is filled is neither scanned out nor about to be. -/
structure Guarded (s : Vision) : Prop where
  flag : s.initTxBuf = false ↔ s.main = .done
  fresh : s.main ≠ .done → s.rxBufIdx = 2 ∧ s.rx.busy = false
  init : s.rx = .init → s.rxBufIdx = 2
  start : ∀ b, s.rx = .start b → b = s.rxBufIdx
  free : s.rx.fills = true → s.display ≠ some s.rxBufIdx ∧ s.irq ≠ .entered s.rxBufIdx
  camera : ∀ b, s.camera = some b → b = s.rxBufIdx ∧ s.rx = .capture
  overlay : ∀ b, s.overlay = some b → b = s.rxBufIdx ∧ (s.rx = .layerWrite ∨ s.rx = .titleWrite)
  distinct : (∀ b, s.rx ≠ .swapRx b) → s.txBufIdx ≠ s.rxBufIdx
  swap : ∀ b, s.rx = .swapRx b → b ≠ s.rxBufIdx ∧ s.txBufIdx = s.rxBufIdx

theorem Guarded.apart (h : Guarded s) : Apart s := by
  intro b hb
  constructor
  · intro hcamera
    obtain ⟨rfl, hpc⟩ := h.camera b hcamera
    exact (h.free (by rw [hpc]; rfl)).1 hb
  · intro hoverlay
    obtain ⟨rfl, hpc⟩ := h.overlay b hoverlay
    refine (h.free ?_).1 hb
    rcases hpc with hpc | hpc <;> rw [hpc] <;> rfl

theorem Guarded.camera_idle (h : Guarded s) (hpc : s.rx ≠ .capture) : s.camera = none := by
  cases hcamera : s.camera with
  | none => rfl
  | some b => exact absurd (h.camera b hcamera).2 hpc

theorem Guarded.overlay_idle (h : Guarded s) (hlayer : s.rx ≠ .layerWrite) (htitle : s.rx ≠ .titleWrite) :
    s.overlay = none := by
  cases hoverlay : s.overlay with
  | none => rfl
  | some b =>
    rcases (h.overlay b hoverlay).2 with hpc | hpc
    · exact absurd hpc hlayer
    · exact absurd hpc htitle

/-- A step of the thread that begins no frame and swaps nothing. -/
theorem Guarded.moved (h : Guarded s) {pc : RxPc} {overlay : Option ℕ}
    (hbusy : s.main ≠ .done → pc.busy = false) (hfills : pc.fills = true → s.rx.fills = true)
    (hinit : pc = .init → s.rxBufIdx = 2) (hstart : ∀ b, pc = .start b → b = s.rxBufIdx) (hcamera : s.camera = none)
    (hoverlay : ∀ b, overlay = some b → b = s.rxBufIdx ∧ (pc = .layerWrite ∨ pc = .titleWrite))
    (hbefore : ∀ b, s.rx ≠ .swapRx b) (hafter : ∀ b, pc ≠ .swapRx b) :
    Guarded { s with overlay := overlay, rx := pc } :=
  { h with
    fresh := fun hmain => ⟨(h.fresh hmain).1, hbusy hmain⟩
    init := hinit
    start := hstart
    free := fun hpc => h.free (hfills hpc)
    camera := fun b hb => absurd (hcamera.symm.trans hb) (by simp)
    overlay := hoverlay
    distinct := fun _ => h.distinct hbefore
    swap := fun b hb => absurd hb (hafter b) }

/-- While `main_init` runs the thread is outside `do_rx_proc`. -/
theorem Guarded.main_done (h : Guarded s) (hbusy : s.rx.busy = true) : s.main = .done := by
  by_contra hmain
  rw [(h.fresh hmain).2] at hbusy
  exact absurd hbusy (by decide)

/-- A step of the thread from one place where it fills its buffer to the next. -/
theorem Guarded.drawn (h : Guarded s) {pc : RxPc} {overlay : Option ℕ} (hfills : s.rx.fills = true)
    (hnext : pc.fills = true) (hcamera : s.camera = none)
    (hoverlay : ∀ b, overlay = some b → b = s.rxBufIdx ∧ (pc = .layerWrite ∨ pc = .titleWrite)) :
    Guarded { s with overlay := overlay, rx := pc } := by
  have hbusy : s.rx.busy = true := by
    by_contra hidle
    rw [fills_of_idle (Bool.eq_false_iff.2 hidle)] at hfills
    cases hfills
  have hdone := h.main_done hbusy
  refine h.moved (fun hmain => absurd hdone hmain) (fun _ => hfills) ?_ ?_ hcamera hoverlay ?_ ?_
  · rintro rfl
    cases hnext
  · rintro b rfl
    cases hnext
  · intro b hrx
    rw [hrx] at hfills
    cases hfills
  · rintro b rfl
    cases hnext

/-- Where the thread fills no buffer, neither the camera nor the processor holds one. -/
theorem Guarded.nothing_held (h : Guarded s) (hidle : s.rx.fills = false) : s.camera = none ∧ s.overlay = none := by
  constructor
  · refine h.camera_idle ?_
    intro hpc
    rw [hpc] at hidle
    cases hidle
  · refine h.overlay_idle ?_ ?_
    · intro hpc
      rw [hpc] at hidle
      cases hidle
    · intro hpc
      rw [hpc] at hidle
      cases hidle

/-- A step of the thread from one place where it fills no buffer to the next. -/
theorem Guarded.walked (h : Guarded s) {pc : RxPc} (hidle : s.rx.fills = false) (hnext : pc.fills = false)
    (hbusy : s.main ≠ .done → pc.busy = false) (hinit : pc = .init → s.rxBufIdx = 2)
    (hstart : ∀ b, pc = .start b → b = s.rxBufIdx) (hbefore : ∀ b, s.rx ≠ .swapRx b) (hafter : ∀ b, pc ≠ .swapRx b) :
    Guarded { s with rx := pc } := by
  obtain ⟨hcamera, hoverlay⟩ := h.nothing_held hidle
  have hfills : pc.fills = true → s.rx.fills = true := fun hpc => absurd (hnext.symm.trans hpc) (by decide)
  exact h.moved hbusy hfills hinit hstart hcamera (fun b hb => absurd (hoverlay.symm.trans hb) (by simp)) hbefore
    hafter

/-- `cam_start`: the display neither has the buffer nor is about to get it. -/
theorem Guarded.started (h : Guarded s) {lBuf : ℕ} (hpc : s.rx = .start lBuf)
    (hpaced : s.display ≠ some s.rxBufIdx ∧ s.irq ≠ .entered s.rxBufIdx) :
    Guarded { s with camera := some lBuf, rx := .capture } := by
  obtain ⟨-, hoverlay⟩ := h.nothing_held (by rw [hpc]; rfl)
  have hdone := h.main_done (by rw [hpc]; rfl)
  have hbuf := h.start lBuf hpc
  exact { h with
    fresh := fun hmain => absurd hdone hmain
    init := nofun
    start := nofun
    free := fun _ => hpaced
    camera := fun b hb => ⟨(Option.some.inj hb).symm.trans hbuf, rfl⟩
    overlay := fun b hb => absurd (hoverlay.symm.trans hb) (by simp)
    distinct := fun _ => h.distinct (by simp [hpc])
    swap := nofun }

/-- The first assignment of the swap gives the display the buffer that was filled. -/
theorem Guarded.swapped_tx (h : Guarded s) (hpc : s.rx = .swapTx) :
    Guarded { s with txBufIdx := s.rxBufIdx, rx := .swapRx s.txBufIdx } := by
  have hcamera := h.camera_idle (by rw [hpc]; simp)
  have hoverlay := h.overlay_idle (by rw [hpc]; simp) (by rw [hpc]; simp)
  have hdone := h.main_done (by rw [hpc]; rfl)
  have hdistinct := h.distinct (by simp [hpc])
  exact { h with
    fresh := fun hmain => absurd hdone hmain
    init := nofun
    start := nofun
    free := nofun
    camera := fun b hb => absurd (hcamera.symm.trans hb) (by simp)
    overlay := fun b hb => absurd (hoverlay.symm.trans hb) (by simp)
    distinct := fun hpc' => absurd rfl (hpc' s.txBufIdx)
    swap := fun b hb => ⟨by rw [← RxPc.swapRx.inj hb]; exact hdistinct, rfl⟩ }

/-- The second one takes the buffer the display had before. -/
theorem Guarded.swapped_rx (h : Guarded s) {lTmpIdx1 : ℕ} (hpc : s.rx = .swapRx lTmpIdx1) :
    Guarded { s with rxBufIdx := lTmpIdx1, rx := .loop } := by
  obtain ⟨hcamera, hoverlay⟩ := h.nothing_held (by rw [hpc]; rfl)
  have hdone := h.main_done (by rw [hpc]; rfl)
  obtain ⟨hother, htx⟩ := h.swap lTmpIdx1 hpc
  exact { h with
    fresh := fun hmain => absurd hdone hmain
    init := nofun
    start := nofun
    free := nofun
    camera := fun b hb => absurd (hcamera.symm.trans hb) (by simp)
    overlay := fun b hb => absurd (hoverlay.symm.trans hb) (by simp)
    distinct := fun _ heq => hother (heq.symm.trans htx)
    swap := nofun }

theorem rx_guarded (h : Guarded s) {isReady : Bool} (hg : Paced s (.rx isReady))
    (hstep : s.rxStep isReady = some s') : Guarded s' := by
  unfold Vision.rxStep at hstep
  cases hpc : s.rx with
  | ready =>
    rw [hpc] at hstep
    obtain rfl := Option.some.inj hstep
    by_cases hready : s.bufIsReady = true
    · rw [if_pos hready]
      exact h.walked (by rw [hpc]; rfl) rfl (fun _ => rfl) nofun nofun (by simp [hpc]) nofun
    · rw [if_neg hready]
      exact h.walked (by rw [hpc]; rfl) rfl (fun _ => rfl) nofun nofun (by simp [hpc]) nofun
  | loop =>
    rw [hpc] at hstep
    obtain rfl := Option.some.inj hstep
    by_cases hinit : s.initTxBuf = true
    · -- `main_init` has not cleared the flag
      rw [if_pos hinit]
      have hmain : s.main ≠ .done := fun hdone => absurd (hinit.symm.trans (h.flag.2 hdone)) (by decide)
      exact h.walked (by rw [hpc]; rfl) rfl (fun _ => rfl) (fun _ => (h.fresh hmain).1) nofun (by simp [hpc]) nofun
    · rw [if_neg hinit]
      have hdone := h.flag.1 (Bool.eq_false_iff.2 hinit)
      exact h.walked (by rw [hpc]; rfl) rfl (fun hmain => absurd hdone hmain) nofun nofun (by simp [hpc]) nofun
  | init =>
    rw [hpc] at hstep
    obtain rfl := Option.some.inj hstep
    have hwalked : Guarded { s with rx := .loop } :=
      h.walked (by rw [hpc]; rfl) rfl (fun _ => rfl) nofun nofun (by simp [hpc]) nofun
    refine { hwalked with distinct := ?_, swap := nofun }
    intro _ heq
    exact absurd (heq.trans (h.init hpc)) (by simp)
  | proc =>
    rw [hpc] at hstep
    obtain rfl := Option.some.inj hstep
    have hdone := h.main_done (by rw [hpc]; rfl)
    exact h.walked (by rw [hpc]; rfl) rfl (fun hmain => absurd hdone hmain) nofun
      (fun b hb => (RxPc.start.inj hb).symm) (by simp [hpc]) nofun
  | start lBuf =>
    rw [hpc] at hstep
    obtain rfl := Option.some.inj hstep
    have hpaced := hg lBuf hpc
    rw [h.start lBuf hpc] at hpaced
    exact h.started hpc hpaced
  | capture =>
    rw [hpc] at hstep
    obtain ⟨hcamera, rfl⟩ := of_guard hstep
    have hoverlay := h.overlay_idle (by rw [hpc]; simp) (by rw [hpc]; simp)
    exact h.drawn (by rw [hpc]; rfl) rfl hcamera (by simp [hoverlay])
  | layer =>
    rw [hpc] at hstep
    have hcamera := h.camera_idle (by rw [hpc]; simp)
    have hoverlay := h.overlay_idle (by rw [hpc]; simp) (by rw [hpc]; simp)
    simp only at hstep
    split at hstep
    · obtain rfl := Option.some.inj hstep
      exact h.drawn (by rw [hpc]; rfl) rfl hcamera (fun b hb => ⟨(Option.some.inj hb).symm, Or.inl rfl⟩)
    · obtain rfl := Option.some.inj hstep
      exact h.drawn (by rw [hpc]; rfl) rfl hcamera (by simp [hoverlay])
  | layerWrite =>
    rw [hpc] at hstep
    obtain rfl := Option.some.inj hstep
    have hcamera := h.camera_idle (by rw [hpc]; simp)
    exact h.drawn (by rw [hpc]; rfl) rfl hcamera nofun
  | title =>
    rw [hpc] at hstep
    have hcamera := h.camera_idle (by rw [hpc]; simp)
    have hoverlay := h.overlay_idle (by rw [hpc]; simp) (by rw [hpc]; simp)
    simp only at hstep
    split at hstep
    · obtain rfl := Option.some.inj hstep
      exact h.drawn (by rw [hpc]; rfl) rfl hcamera (fun b hb => ⟨(Option.some.inj hb).symm, Or.inr rfl⟩)
    · obtain rfl := Option.some.inj hstep
      exact h.drawn (by rw [hpc]; rfl) rfl hcamera (by simp [hoverlay])
  | titleWrite =>
    rw [hpc] at hstep
    obtain rfl := Option.some.inj hstep
    have hcamera := h.camera_idle (by rw [hpc]; simp)
    exact h.drawn (by rw [hpc]; rfl) rfl hcamera nofun
  | swapTx =>
    rw [hpc] at hstep
    obtain rfl := Option.some.inj hstep
    exact h.swapped_tx hpc
  | swapRx lTmpIdx1 =>
    rw [hpc] at hstep
    obtain rfl := Option.some.inj hstep
    exact h.swapped_rx hpc

theorem main_guarded (h : Guarded s) (hstep : s.mainStep = some s') : Guarded s' := by
  unfold Vision.mainStep at hstep
  have hset : s.main ≠ .done → s.initTxBuf ≠ false := fun hmain hclear => hmain (h.flag.1 hclear)
  cases hpc : s.main with
  | ready =>
    rw [hpc] at hstep hset
    obtain rfl := Option.some.inj hstep
    exact { h with
      flag := ⟨fun hclear => absurd hclear (hset (by simp)), fun hdone => absurd hdone (by simp)⟩
      fresh := fun _ => h.fresh (by rw [hpc]; simp) }
  | init =>
    rw [hpc] at hstep
    obtain rfl := Option.some.inj hstep
    exact { h with
      flag := ⟨fun hclear => absurd hclear (by simp), fun hdone => absurd hdone (by simp)⟩
      fresh := fun _ => h.fresh (by rw [hpc]; simp) }
  | read =>
    rw [hpc] at hstep hset
    obtain rfl := Option.some.inj hstep
    exact { h with
      flag := ⟨fun hclear => absurd hclear (hset (by simp)), fun hdone => absurd hdone (by simp)⟩
      fresh := fun _ => h.fresh (by rw [hpc]; simp) }
  | start lBuf =>
    rw [hpc] at hstep hset
    obtain rfl := Option.some.inj hstep
    -- the thread is not in `do_rx_proc` yet, so it fills no buffer
    have hidle := fills_of_idle (h.fresh (by rw [hpc]; simp)).2
    exact { h with
      flag := ⟨fun hclear => absurd hclear (hset (by simp)), fun hdone => absurd hdone (by simp)⟩
      fresh := fun _ => h.fresh (by rw [hpc]; simp)
      free := fun hfills => absurd (hidle.symm.trans hfills) (by decide) }
  | delay =>
    rw [hpc] at hstep
    obtain rfl := Option.some.inj hstep
    exact { h with flag := ⟨fun _ => rfl, fun _ => rfl⟩, fresh := fun hmain => absurd rfl hmain }
  | done =>
    rw [hpc] at hstep
    exact absurd hstep (by simp)

theorem irq_guarded (h : Guarded s) (hstep : s.irqStep = some s') : Guarded s' := by
  unfold Vision.irqStep at hstep
  cases hpc : s.irq with
  | out =>
    rw [hpc] at hstep
    exact absurd hstep (by simp)
  | pending =>
    rw [hpc] at hstep
    obtain rfl := Option.some.inj hstep
    refine { h with free := ?_ }
    intro hfills
    refine ⟨(h.free hfills).1, ?_⟩
    -- while a frame is filled the indices differ
    have hdistinct := h.distinct (by
      intro b hb
      rw [hb] at hfills
      exact absurd hfills (by simp [RxPc.fills]))
    intro hentered
    exact hdistinct (IrqPc.entered.inj hentered)
  | entered lBuf =>
    rw [hpc] at hstep
    obtain rfl := Option.some.inj hstep
    refine { h with free := ?_ }
    intro hfills
    refine ⟨?_, by simp⟩
    intro hdisplay
    exact (h.free hfills).2 (hpc.trans (congrArg IrqPc.entered (Option.some.inj hdisplay)))

theorem step_guarded {a : VisionAct} (h : Guarded s) (hg : Paced s a)
    (hstep : visionMachine.step s a = some s') : Guarded s' := by
  cases a with
  | main => exact main_guarded h hstep
  | rx isReady => exact rx_guarded h hg hstep
  | irq => exact irq_guarded h hstep
  | cameraDone =>
    obtain ⟨-, rfl⟩ := of_guard_not hstep
    exact { h with camera := fun b hb => absurd hb (by simp) }
  | displayDone =>
    obtain ⟨-, rfl⟩ := of_guard_not hstep
    refine { h with free := ?_ }
    intro _
    exact ⟨by simp, by simp⟩

/-- **The display and the writers are apart** in every run that starts the camera only on a buffer that the
display neither has nor is about to get. -/
theorem display_apart (hr : visionMachine.Reach Paced s) : Apart s := by
  have hs : Guarded s := by
    refine hr.invariant ?_ fun _ _ _ h hg hstep => step_guarded h hg hstep
    rintro _ rfl
    constructor <;> simp [Vision.created, RxPc.busy, RxPc.fills]
  exact hs.apart

/-- The first frame is filled and swapped in while the display scans buffer 0, and the camera is started
for the second. -/
def secondFrame : List VisionAct :=
  List.replicate 5 .main ++ List.replicate 4 (.rx false) ++ [.cameraDone] ++ List.replicate 5 (.rx false) ++
    List.replicate 3 (.rx false)

/-- **The camera fills the buffer that is scanned out.** -/
theorem scanned_out_filled :
    ∃ s, visionMachine.exec .created secondFrame = some s ∧ s.display = some 0 ∧ s.camera = some 0 ∧ ¬ Kept s := by
  have hrun : (visionMachine.exec .created secondFrame).map (fun s => (s.display, s.camera)) =
      some (some 0, some 0) := by decide +kernel
  obtain ⟨s, hexec, hfields⟩ := Option.map_eq_some_iff.1 hrun
  obtain ⟨hdisplay, hcamera⟩ := Prod.mk.inj hfields
  refine ⟨s, hexec, hdisplay, hcamera, ?_⟩
  intro hkept
  exact (hkept.apart 0 hdisplay).1 hcamera

end Br2Efinix.EvSoc
