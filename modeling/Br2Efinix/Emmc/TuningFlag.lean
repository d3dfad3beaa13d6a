import Br2Efinix.Emmc.TunedModes

/-!
# What a tuning leaves behind

`host->tuning_in_progress` and the memory of `efx_emmc_execute_tuning`, on each of its ways out. Only the last
one clears the flag; and a selection that gets no flat map frees a pointer that was never set.

* `later_tuning`: requests and interrupts after a tuning that cleared the flag wake no tuning.
* `tuning_balanced_iff`: **a call of `efx_emmc_execute_tuning` is balanced** exactly when it gets to its scan, and
  its selection, for up to 8 samples, to its flat map.
-/

namespace Br2Efinix.Emmc

/-! ## Memory -/

/-- What a tuning allocates. -/
inductive Buffer
  | tuningResultMap
  | optimalRows
  | flatMap
  deriving DecidableEq, Repr

inductive HeapCall
  | kmalloc (b : Buffer)
  | kfree (b : Buffer)
  | kfreeUninit
  deriving DecidableEq, Repr

def HeapEv.call : HeapEv → HeapCall
  | .kmallocRows => .kmalloc .optimalRows
  | .kmallocFlat => .kmalloc .flatMap
  | .kfreeRows => .kfree .optimalRows
  | .kfreeFlat => .kfree .flatMap
  | .kfreeUninit => .kfreeUninit

/-- The buffers that are allocated after some calls; `none` when one of them frees what is not. -/
def liveAfter : List Buffer → List HeapCall → Option (List Buffer)
  | live, [] => some live
  | live, .kmalloc b :: calls => liveAfter (b :: live) calls
  | live, .kfree b :: calls => if b ∈ live then liveAfter (live.erase b) calls else none
  | _, .kfreeUninit :: _ => none

namespace Modes

/-- The calls of `kmalloc` and `kfree` in `efx_emmc_execute_tuning`, those in
`efx_emmc_find_optimal_timing` among them. -/
def heapCalls (m : Modes) (opcode : ℕ) (env : TuningEnv) : List HeapCall :=
  let m := m.startTuning
  if m.skips then []
  else
    let m := m.takeRetune
    if opcode ≠ MMC_SEND_TUNING_BLOCK ∧ opcode ≠ MMC_SEND_TUNING_BLOCK_HS200 then []
    else if !env.mapAlloc then []
    else .kmalloc .tuningResultMap :: ((m.selection env).heap.map HeapEv.call ++ [.kfree .tuningResultMap])

end Modes

/-! ## The property -/

/-- What happens to the host between two tunings. -/
inductive Later
  | request (mrq : MmcRequest) (env : SendEnv)
  | irq (st : IntStatus) (env : IrqEnv)

/-- The requests and interrupts of `as`, in order. -/
def Host.later (h : Host) (as : List Later) : Host :=
  as.foldl (fun h => fun
    | .request mrq env => h.request mrq env
    | .irq st env => h.irq st env) h

/-- What the tuning command waits for: `tuning_crc_error`, and how often `tuning_complete` was completed. -/
def Host.tuningSignals (h : Host) : Bool × ℕ := (h.tuningCrcError, h.tuningComplete)

/-- **A balanced call**: the flag is down, every buffer is freed once, and what comes later is no tuning. -/
structure BalancedTuning (m : Modes) (opcode : ℕ) (env : TuningEnv) : Prop where
  flag : (m.executeTuning opcode env).1.host.tuningInProgress = false
  heap : liveAfter [] (m.heapCalls opcode env) = some []
  later : ∀ as, ((m.executeTuning opcode env).1.host.later as).tuningSignals =
    (m.executeTuning opcode env).1.host.tuningSignals

/-! ## Requests and interrupts -/

/-- Nothing but a tuning and its interrupts touches these. -/
structure SameTuning (h h' : Host) : Prop where
  flag : h'.tuningInProgress = h.tuningInProgress
  signals : h'.tuningSignals = h.tuningSignals

theorem SameTuning.refl (h : Host) : SameTuning h h := ⟨rfl, rfl⟩

theorem SameTuning.trans {h h' h'' : Host} (h1 : SameTuning h h') (h2 : SameTuning h' h'') : SameTuning h h'' :=
  ⟨h2.flag.trans h1.flag, h2.signals.trans h1.signals⟩

/-- A step after steps that touch neither. -/
theorem SameTuning.after {h h' h'' : Host} (hstep : SameTuning h' h'') (hflag : h'.tuningInProgress = h.tuningInProgress)
    (hsignals : h'.tuningSignals = h.tuningSignals) : SameTuning h h'' :=
  .trans ⟨hflag, hsignals⟩ hstep

/-- A step before steps that touch neither. -/
theorem SameTuning.before {h h' h'' : Host} (hstep : SameTuning h h')
    (hflag : h''.tuningInProgress = h'.tuningInProgress) (hsignals : h''.tuningSignals = h'.tuningSignals) :
    SameTuning h h'' :=
  hstep.trans ⟨hflag, hsignals⟩

variable (h : Host)

theorem cleanupDma_tuning (data : MmcData) : SameTuning h (h.cleanupDma data) := by
  unfold Host.cleanupDma Host.admaTablePost
  split
  · exact .refl h
  · cases h.bounceBuffer with
    | none => exact ⟨rfl, rfl⟩
    | some buf =>
      simp only
      split <;> exact ⟨rfl, rfl⟩

theorem admaTablePre_tuning (data : MmcData) : SameTuning h (admaTablePre h data).2 := by
  unfold admaTablePre
  split
  · cases h.bounceBuffer with
    | none => exact ⟨rfl, rfl⟩
    | some buf =>
      simp only
      split <;> exact ⟨rfl, rfl⟩
  · simp only
    split
    · exact ⟨rfl, rfl⟩
    · split <;> exact ⟨rfl, rfl⟩

theorem prepareDma_tuning (data : MmcData) (segs : List DmaSeg) : SameTuning h (h.prepareDma data segs) := by
  unfold Host.prepareDma
  split
  · exact .refl h
  · split
    · exact ⟨rfl, rfl⟩
    · simp only
      generalize hmapped : (h.modifyData fun _ => _).emit (.mapSg h.mrqId) = h'
      generalize ({ data with sg := dmaMapSg data.sg segs, sgLen := segs.length } : MmcData) = data
      have hsame : SameTuning h h' := hmapped ▸ ⟨rfl, rfl⟩
      have hpre := hsame.trans (admaTablePre_tuning h' data)
      generalize admaTablePre h' data = result at hpre ⊢
      split
      · exact hpre.before rfl rfl
      · exact hpre.before rfl rfl

theorem completePendingRequest_tuning : SameTuning h h.completePendingRequest := by
  unfold Host.completePendingRequest
  split <;> exact ⟨rfl, rfl⟩

theorem finishRequest_tuning : SameTuning h h.finishRequest := by
  unfold Host.finishRequest
  split
  · cases h.curData with
    | none => exact ⟨rfl, rfl⟩
    | some data => exact (cleanupDma_tuning h data).before rfl rfl
  · exact .refl h

theorem sendData_tuning (data : MmcData) (segs : List DmaSeg) : SameTuning h (h.sendData data segs) := by
  have hprep := (prepareDma_tuning (h.setUseDma (decide (data.size ≥ 512))) data segs).after (h := h) rfl rfl
  unfold Host.sendData
  simp only
  generalize (h.setUseDma (decide (data.size ≥ 512))).prepareDma data segs = h' at hprep ⊢
  split
  · exact hprep.before rfl rfl
  · exact hprep.before rfl rfl

theorem sendCommand_tuning (slot : Slot) (env : SendEnv) : SameTuning h (h.sendCommand slot env) := by
  unfold Host.sendCommand
  cases h.mrq with
  | none => exact .refl h
  | some m =>
    simp only
    generalize (if slot = .cmd then m.data else none) = data
    generalize hswitch : (if (m.get slot).opcode = 6 ∧ (m.get slot).switchIndex = 185 then _ else _ : Host) = h'
    have hsame : SameTuning h h' := by
      rw [← hswitch]
      split <;> exact ⟨rfl, rfl⟩
    refine hsame.trans ?_
    split
    · exact (finishRequest_tuning _).after rfl rfl
    · cases data with
      | none => exact ⟨rfl, rfl⟩
      | some data =>
        have hsend := (sendData_tuning (h'.writel .arg1 (m.get slot).arg.toNat) data env.segs).after (h := h') rfl rfl
        exact ⟨hsend.flag, hsend.signals⟩

theorem finishData_tuning (env : SendEnv) : SameTuning h (h.finishData env) := by
  unfold Host.finishData
  split
  · rename_i m data _ _
    simp only
    generalize hclean : Host.cleanupDma _ data = h'
    have hsame : SameTuning h h' := by
      rw [← hclean]
      exact (cleanupDma_tuning _ data).after rfl rfl
    refine hsame.trans ?_
    split
    · exact (sendCommand_tuning _ .stop env).after rfl rfl
    · exact (finishRequest_tuning _).after rfl rfl
  · exact .refl h

theorem transferPio_tuning (env : PioEnv) : SameTuning h (h.transferPio env) := by
  have hdir : ∀ read, SameTuning h (h.transferPioDir read env.port) := by
    intro read
    unfold Host.transferPioDir
    split
    · exact .refl h
    · split <;> exact ⟨rfl, rfl⟩
  unfold Host.transferPio
  split
  · exact .refl h
  · split
    · split
      · exact hdir true
      · exact .refl h
    · split
      · exact hdir false
      · exact .refl h

theorem emit_tuning (e : Ev) : SameTuning h (h.emit e) := ⟨rfl, rfl⟩

theorem setTimingConfig_tuning (sampleCount pllShift clkPort : ℕ) :
    SameTuning h (h.setTimingConfig sampleCount pllShift clkPort) := by
  unfold Host.setTimingConfig
  exact ((emit_tuning _ _).trans (emit_tuning _ _)).trans (emit_tuning _ _)

theorem finishSwitch_tuning (cmd : MmcCommand) : SameTuning h (h.finishSwitch cmd) := by
  unfold Host.finishSwitch
  split
  · refine .trans ?_ (emit_tuning _ _)
    split
    · exact setTimingConfig_tuning h _ _ _
    · split
      · exact setTimingConfig_tuning h _ _ _
      · exact .refl h
  · exact .refl h

theorem finishCommand_tuning (env : CommandEnv) : SameTuning h (h.finishCommand env) := by
  unfold Host.finishCommand
  split
  · rename_i m slot _ _
    simp only
    generalize hdone : Host.finishSwitch _ (m.get slot) = h'
    have hsame : SameTuning h h' := by
      rw [← hdone]
      exact (finishSwitch_tuning _ (m.get slot)).after rfl rfl
    refine hsame.trans ?_
    split
    · exact (sendCommand_tuning _ .cmd env.send).after rfl rfl
    · have hpio := (transferPio_tuning ((h'.emit (.cmdDone m.id slot (m.get slot).error)).setCmd none) env.pio).after
        (h := h') rfl rfl
      split
      · exact (finishRequest_tuning _).after rfl rfl
      · split
        · exact ⟨rfl, rfl⟩
        · split
          · split
            · exact hpio
            · exact ⟨rfl, rfl⟩
          · split
            · exact hpio
            · exact ⟨rfl, rfl⟩
  · exact .refl h

/-- With the flag down, no error is one of a tuning. -/
theorem irqError_tuning (st : IntStatus) (hflag : h.tuningInProgress = false) : SameTuning h (h.irqError st) := by
  have hadma : SameTuning h (h.markAdma st) := by
    unfold Host.markAdma
    split <;> exact ⟨rfl, rfl⟩
  have htuning : (h.markAdma st).markTuning st = h.markAdma st := by
    unfold Host.markTuning
    split
    · rfl
    · rw [hadma.flag, hflag, if_neg Bool.false_ne_true]
  have hcommand : ∀ h : Host, SameTuning h (h.markCommand st) := by
    intro h
    unfold Host.markCommand
    split
    · exact .refl h
    · split
      · exact ⟨rfl, rfl⟩
      · split <;> exact ⟨rfl, rfl⟩
  have hdata : ∀ h : Host, SameTuning h (h.markData st) := by
    intro h
    unfold Host.markData
    split <;> exact ⟨rfl, rfl⟩
  have hmark := hadma.trans (hcommand (h.markAdma st))
  unfold Host.irqError
  simp only [htuning]
  split
  · exact hmark.trans ((finishRequest_tuning _).after rfl rfl)
  · exact (hmark.trans (hdata _)).trans (finishRequest_tuning _)

theorem irqLocked_tuning (st : IntStatus) (env : IrqEnv) (hflag : h.tuningInProgress = false) :
    SameTuning h (h.irqLocked st env) := by
  have hcommand : ∀ h : Host, SameTuning h (h.irqCommand st env.command) := by
    intro h
    unfold Host.irqCommand
    split
    · exact finishCommand_tuning h _
    · exact .refl h
  have hpio : ∀ h : Host, SameTuning h (h.irqPio st env.pio) := by
    intro h
    unfold Host.irqPio
    split
    · exact transferPio_tuning h _
    · exact .refl h
  have hend : ∀ h : Host, SameTuning h (h.irqPioEnd st env.stop) := by
    intro h
    unfold Host.irqPioEnd
    split
    · exact finishData_tuning h _
    · exact .refl h
  unfold Host.irqLocked
  split
  · exact .refl h
  · have hack := emit_tuning h (.ack st)
    split
    · exact hack.trans (irqError_tuning _ st (hack.flag.trans hflag))
    · have hsame := ((hack.trans (hcommand _)).trans (hpio _)).trans (hend _)
      unfold Host.irqXfer
      split
      · simp only
        rw [hsame.flag, hflag, if_neg Bool.false_ne_true]
        exact hsame.trans (finishData_tuning _ _)
      · exact hsame

/-- **Later requests and interrupts** wake no tuning, once the flag is down. -/
theorem later_tuning (as : List Later) (hflag : h.tuningInProgress = false) : SameTuning h (h.later as) := by
  induction as generalizing h with
  | nil => exact .refl h
  | cons a as ih =>
    have hstep : SameTuning h (h.later [a]) := by
      cases a with
      | irq st env => exact (irqLocked_tuning h st env hflag).trans (completePendingRequest_tuning _)
      | request mrq env =>
        change SameTuning h (h.request mrq env)
        unfold Host.request Host.requestLocked
        split
        · exact emit_tuning h _
        · refine .trans ?_ (completePendingRequest_tuning _)
          simp only
          split
          · exact (sendCommand_tuning _ .sbc env).after rfl rfl
          · exact (sendCommand_tuning _ .cmd env).after rfl rfl
    exact hstep.trans (ih _ (hstep.flag.trans hflag))

/-! ## The tuning -/

/-- **The memory of a selection** is balanced but for a flat map that is not allocated. -/
theorem selection_heap (kmallocOk : Bool) (h : Host) (resultMap : ℕ → ℕ → Bool) (n : ℕ) :
    liveAfter [.tuningResultMap]
        ((findOptimalTiming kmallocOk h resultMap n).heap.map HeapEv.call ++ [.kfree .tuningResultMap]) =
      if 8 < n ∨ kmallocOk = true then some [] else none := by
  rw [findOptimalTiming_heap]
  by_cases h8 : n > 8
  · rw [if_pos h8, if_pos (Or.inl h8)]
    cases kmallocOk <;> rfl
  · rw [if_neg h8]
    cases kmallocOk with
    | false =>
      have hflat : ¬(8 < n ∨ false = true) := by simpa using h8
      rw [if_neg hflat]
      rfl
    | true =>
      rw [if_pos (Or.inr rfl)]
      rfl

variable {m : Modes} {opcode : ℕ} {env : TuningEnv}

theorem takeRetune_host (m : Modes) : m.takeRetune.host = m.host := by
  unfold Modes.takeRetune
  split <;> rfl

theorem restore_flag (m : Modes) : m.restore.host.tuningInProgress = m.host.tuningInProgress := by
  unfold Modes.restore
  simp only
  split
  · exact ((setTimingConfig_tuning _ _ _ _).trans (setTimingConfig_tuning _ _ _ _)).flag
  · split
    · exact ((setTimingConfig_tuning _ _ _ _).trans (setTimingConfig_tuning _ _ _ _)).flag
    · exact (setTimingConfig_tuning _ _ _ _).flag

/-- **The flag is down** only after a scan. -/
theorem executeTuning_flag (m : Modes) (opcode : ℕ) (env : TuningEnv) :
    (m.executeTuning opcode env).1.host.tuningInProgress = false ↔ m.scansNow opcode env := by
  have htake : m.startTuning.takeRetune.host.tuningInProgress = true := by
    rw [takeRetune_host]
    rfl
  unfold Modes.executeTuning Modes.scansNow
  simp only
  rw [show m.startTuning.skips = m.skips from rfl]
  by_cases hskips : m.skips = true
  · rw [if_pos hskips, restore_flag, hskips]
    exact ⟨fun h => absurd (show true = false from h) (by decide), fun h => absurd h.1 (by decide)⟩
  · rw [if_neg hskips]
    have hskips' : m.skips = false := Bool.eq_false_of_not_eq_true hskips
    by_cases hop : opcode ≠ MMC_SEND_TUNING_BLOCK ∧ opcode ≠ MMC_SEND_TUNING_BLOCK_HS200
    · rw [if_pos hop, htake]
      exact ⟨fun h => absurd h (by decide), fun h => absurd h.2.1 (not_or.2 hop)⟩
    · rw [if_neg hop]
      have hop' : opcode = MMC_SEND_TUNING_BLOCK ∨ opcode = MMC_SEND_TUNING_BLOCK_HS200 := by
        by_cases h : opcode = MMC_SEND_TUNING_BLOCK
        · exact Or.inl h
        · exact Or.inr (Decidable.byContradiction fun h' => hop ⟨h, h'⟩)
      cases hmap : env.mapAlloc with
      | false =>
        rw [Bool.not_false, if_pos rfl, htake]
        exact ⟨fun h => absurd h (by decide), fun h => absurd h.2.2 (by decide)⟩
      | true =>
        rw [Bool.not_true, if_neg Bool.false_ne_true]
        exact ⟨fun _ => ⟨hskips', hop', rfl⟩, fun _ => rfl⟩

/-- The memory of a tuning that gets to its scan. -/
theorem heapCalls_scan (hs : m.scansNow opcode env) :
    liveAfter [] (m.heapCalls opcode env) =
      if 8 < m.maxSampleCount ∨ env.selectAlloc = true then some [] else none := by
  obtain ⟨hskips, hop, hmap⟩ := hs
  have hcount : m.startTuning.takeRetune.maxSampleCount = m.maxSampleCount := by
    unfold Modes.takeRetune
    split <;> rfl
  unfold Modes.heapCalls
  simp only
  rw [show m.startTuning.skips = false from hskips, if_neg Bool.false_ne_true, if_neg (fun h => not_or.2 h hop), hmap,
    Bool.not_true, if_neg Bool.false_ne_true, ← hcount]
  exact selection_heap _ _ _ _

/-- **A call of `efx_emmc_execute_tuning` is balanced** exactly when it gets to its scan, and its selection, for
up to 8 samples, to its flat map. -/
theorem tuning_balanced_iff (m : Modes) (opcode : ℕ) (env : TuningEnv) :
    BalancedTuning m opcode env ↔
      m.scansNow opcode env ∧ (8 < m.maxSampleCount ∨ env.selectAlloc = true) := by
  constructor
  · intro hb
    have hs := (executeTuning_flag m opcode env).1 hb.flag
    have hheap := hb.heap
    rw [heapCalls_scan hs] at hheap
    refine ⟨hs, Decidable.byContradiction fun hnone => ?_⟩
    rw [if_neg hnone] at hheap
    cases hheap
  · rintro ⟨hs, halloc⟩
    have hflag := (executeTuning_flag m opcode env).2 hs
    refine ⟨hflag, ?_, fun as => (later_tuning _ as hflag).signals⟩
    rw [heapCalls_scan hs, if_pos halloc]

/-! ## HS200, tuned twice -/

/-- **A second tuning of HS200 is skipped**, and leaves the flag up. -/
theorem skip_keeps_flag :
    ∃ m, (modes board200).exec (.probed board200)
        [.setIos ⟨200000000, .w8, .mmcHs200⟩, .executeTuning MMC_SEND_TUNING_BLOCK_HS200 (probing true)] = some m ∧
      (m.executeTuning MMC_SEND_TUNING_BLOCK_HS200 (probing true)).1.host.tuningInProgress = true ∧
      ¬BalancedTuning m MMC_SEND_TUNING_BLOCK_HS200 (probing true) := by
  refine ⟨(toHs200.executeTuning MMC_SEND_TUNING_BLOCK_HS200 (probing true)).1, rfl, ?_, ?_⟩
  · decide +kernel
  · intro hb
    exact absurd hb.flag (by decide +kernel)

end Br2Efinix.Emmc
