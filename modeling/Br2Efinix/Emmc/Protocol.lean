import Br2Efinix.Emmc.Core

/-!
# The request automaton

What a step of the driver means for the request it serves, without registers,
memory and scatterlists: `Ctl` keeps the request's opcodes, errors and sizes, the
three pointers and a log of marks. `Host.ctl` forgets the rest of a host.

* `finishRequest_ctl`, `sendCommand_ctl`, `finishData_ctl`, `finishCommand_ctl`,
  `irqLocked_ctl`, `requestLocked_ctl`: **every function of the driver does to
  `Ctl` what its abstract counterpart does**, for some outcome of the set-up of
  DMA and of the programmed transfers.
-/

namespace Br2Efinix.Emmc

/-! ## The automaton -/

structure CmdView where
  opcode : ℕ
  error : ℤ
  deriving DecidableEq, Repr

structure DataView where
  size : ℕ
  blocks : ℕ
  error : ℤ
  xfered : ℕ
  deriving DecidableEq, Repr

structure Req where
  id : ℕ
  sbc : Option CmdView
  cmd : CmdView
  data : Option DataView
  stop : Option CmdView
  deriving DecidableEq, Repr

namespace Req

def get (r : Req) : Slot → CmdView
  | .sbc => r.sbc.getD r.cmd
  | .cmd => r.cmd
  | .stop => r.stop.getD r.cmd

def modify (r : Req) (slot : Slot) (f : CmdView → CmdView) : Req :=
  match slot with
  | .sbc => { r with sbc := r.sbc.map f }
  | .cmd => { r with cmd := f r.cmd }
  | .stop => { r with stop := r.stop.map f }

def modifyData (r : Req) (f : DataView → DataView) : Req := { r with data := r.data.map f }

def markAdma (r : Req) (st : IntStatus) (data : Bool) : Req :=
  if st.admaError && data then r.modifyData fun d => { d with error := - EIO } else r

def markCommand (r : Req) (st : IntStatus) : Option Slot → Req
  | none => r
  | some slot =>
    if st.cmdTimeoutErr then r.modify slot fun k => { k with error := -ETIMEDOUT }
    else if st.cmdCrcErr || st.cmdEndBitErr || st.cmdIndexErr then
      r.modify slot fun k => { k with error := -EILSEQ }
    else r

def markData (r : Req) (st : IntStatus) (data : Bool) : Req :=
  if data then
    r.modifyData fun d =>
      let d := if st.dataTimeoutErr then { d with error := -ETIMEDOUT } else d
      let d := if st.dataCrcErr then { d with error := -EILSEQ } else d
      if st.dataEndBitErr then { d with error := -EILSEQ } else d
  else r

/-- Whether a stop command follows the data. -/
def needStop (r : Req) : Bool :=
  (r.data.map fun d => decide (d.blocks > 1)).getD false && r.stop.isSome && r.sbc.isNone

end Req

/-- The events of the log that say something about a request. -/
inductive Mark
  | send (id : ℕ) (slot : Slot) (dma : Bool)
  | pio (id words : ℕ)
  | mapSg (id : ℕ)
  | unmapSg (id : ℕ)
  | cmdDone (id : ℕ) (slot : Slot) (error : ℤ)
  | dataDone (id : ℕ) (error : ℤ)
  | requestDone (r : Req)
  deriving DecidableEq, Repr

structure Ctl where
  req : Option Req
  done : Option Req
  cmd : Option Slot
  data : Bool
  dma : Bool
  bytes : ℕ
  log : List Mark
  deriving DecidableEq, Repr

/-- How the set-up of DMA ends. -/
inductive Prep
  | ok
  | mapFailed
  | tableFailed
  deriving DecidableEq, Repr

/-- The mappings that a set-up makes, latest first. -/
def Prep.marks (id : ℕ) : Prep → List Mark
  | .ok => [.mapSg id]
  | .mapFailed => []
  | .tableFailed => [.unmapSg id, .mapSg id]

/-- What an interrupt's stages meet. -/
structure StageEnv where
  timedOut : Bool
  prep : Prep
  early : Option ℕ
  words : Option ℕ
  stopTimedOut : Bool
  xferTimedOut : Bool

namespace Ctl

def curData (c : Ctl) : Option DataView := if c.data then c.req.bind (·.data) else none

def finish (c : Ctl) : Ctl :=
  match c.req with
  | none => c
  | some r =>
    { req := none, done := some r, cmd := none, data := false, dma := false, bytes := 0
      log := if c.dma && c.curData.isSome then .unmapSg r.id :: c.log else c.log }

def send (c : Ctl) (slot : Slot) (timedOut : Bool) (prep : Prep) : Ctl :=
  match c.req with
  | none => c
  | some r =>
    if timedOut then
      finish { c with
        cmd := some slot, req := some (r.modify slot fun k => { k with error := -ETIMEDOUT }) }
    else
      match (if slot = .cmd then r.data else none) with
      | none => { c with cmd := some slot, log := .send r.id slot false :: c.log }
      | some d =>
        { c with
          cmd := some slot
          data := true
          dma := decide (d.size ≥ 512) && decide (prep = .ok)
          bytes := if d.size ≥ 512 ∧ prep = .ok then c.bytes else d.size
          log := .send r.id slot (decide (d.size ≥ 512) && decide (prep = .ok)) ::
            ((if d.size ≥ 512 then prep.marks r.id else []) ++ c.log) }

/-- Only the main command's set-up depends on the mapping. -/
theorem send_prep (c : Ctl) {slot : Slot} (hs : slot ≠ .cmd) (timedOut : Bool) (p q : Prep) :
    c.send slot timedOut p = c.send slot timedOut q := by
  unfold send
  simp only [if_neg hs]

/-- Words moved through the data port, no more than are left; `none` when no
transfer is made. -/
def pio (c : Ctl) : Option ℕ → Ctl
  | none => c
  | some words =>
    let words := min words (c.bytes / 4)
    if c.curData.isNone then c
    else { c with
      bytes := c.bytes - 4 * words
      log := .pio ((c.req.map (·.id)).getD 0) words :: c.log }

def finishData (c : Ctl) (timedOut : Bool) : Ctl :=
  match c.req, c.curData with
  | some r, some d =>
    let r' := r.modifyData fun d => { d with xfered := if d.error = 0 then d.size else 0 }
    let c' : Ctl :=
      { c with
        req := some r', data := false, bytes := 0
        log := .dataDone r.id d.error :: ((if c.dma then [.unmapSg r.id] else []) ++ c.log) }
    if r.needStop ∧ d.error = 0 then { c' with cmd := some .stop }.send .stop timedOut .ok else c'.finish
  | _, _ => c

def finishCommand (c : Ctl) (env : StageEnv) : Ctl :=
  match c.req, c.cmd with
  | some r, some slot =>
    let c := { c with log := .cmdDone r.id slot (r.get slot).error :: c.log }
    if (r.get slot).opcode = 23 then { c with cmd := some .cmd }.send .cmd env.timedOut env.prep
    else
      let c := { c with cmd := none }
      if c.curData.isNone then c.finish
      else if c.dma then c
      else c.pio env.early
  | _, _ => c

def irqError (c : Ctl) (st : IntStatus) : Ctl :=
  match c.req with
  | none => c
  | some r =>
    let r := r.markAdma st c.data
    let cmd12 := (c.cmd.map fun slot => decide ((r.get slot).opcode = 12)).getD false
    let r := r.markCommand st c.cmd
    finish { c with req := some (if st.cmdTimeoutErr && cmd12 then r else r.markData st c.data) }

def irqCommand (c : Ctl) (st : IntStatus) (env : StageEnv) : Ctl :=
  if st.cmdComplete then c.finishCommand env else c

def irqPio (c : Ctl) (st : IntStatus) (env : StageEnv) : Ctl :=
  if !c.dma && (st.bufferReadRdy || st.bufferWriteRdy) then c.pio env.words else c

def irqPioEnd (c : Ctl) (st : IntStatus) (env : StageEnv) : Ctl :=
  if !c.dma && (st.bufferReadRdy || st.bufferWriteRdy) && c.data && c.bytes == 0 then
    c.finishData env.stopTimedOut
  else c

def irqXfer (c : Ctl) (st : IntStatus) (env : StageEnv) : Ctl :=
  if st.xferComplete then c.finishData env.xferTimedOut else c

def irqLocked (c : Ctl) (st : IntStatus) (env : StageEnv) : Ctl :=
  if !st.any then c
  else if st.error then c.irqError st
  else (((c.irqCommand st env).irqPio st env).irqPioEnd st env).irqXfer st env

def requestLocked (c : Ctl) (r : Req) (timedOut : Bool) (prep : Prep) : Ctl :=
  let c := { c with req := some r }
  if r.sbc.isSome then { c with cmd := some .sbc }.send .sbc timedOut prep
  else c.send .cmd timedOut prep

def completePending (c : Ctl) : Ctl :=
  match c.done with
  | none => c
  | some r => { c with done := none, log := .requestDone r :: c.log }

/-! Each function on a request in progress. -/

variable {c : Ctl} {r : Req} {slot : Slot}

theorem finish_some (hr : c.req = some r) :
    c.finish =
      { req := none, done := some r, cmd := none, data := false, dma := false, bytes := 0
        log := if c.dma && c.curData.isSome then .unmapSg r.id :: c.log else c.log } := by
  unfold finish; rw [hr]

theorem finishData_some {d : DataView} (hr : c.req = some r) (hd : c.curData = some d) (t : Bool) :
    c.finishData t =
      let c' : Ctl :=
        { c with
          req := some (r.modifyData fun d => { d with xfered := if d.error = 0 then d.size else 0 })
          data := false, bytes := 0
          log := .dataDone r.id d.error :: ((if c.dma then [.unmapSg r.id] else []) ++ c.log) }
      if r.needStop ∧ d.error = 0 then { c' with cmd := some .stop }.send .stop t .ok
      else c'.finish := by
  unfold finishData; rw [hr, hd]

theorem finishData_none (hd : c.curData = none) (t : Bool) : c.finishData t = c := by
  unfold finishData
  rw [hd]
  cases c.req <;> rfl

theorem curData_some {d : DataView} (hr : c.req = some r) (hout : c.data = true) (hd : r.data = some d) :
    c.curData = some d := by
  unfold curData
  rw [hout, hr]
  exact hd

theorem finishCommand_some (hr : c.req = some r) (hc : c.cmd = some slot) (env : StageEnv) :
    c.finishCommand env =
      let c' : Ctl := { c with log := .cmdDone r.id slot (r.get slot).error :: c.log }
      if (r.get slot).opcode = 23 then { c' with cmd := some .cmd }.send .cmd env.timedOut env.prep
      else if c.curData.isNone then { c' with cmd := none }.finish
      else if c.dma then { c' with cmd := none }
      else { c' with cmd := none }.pio env.early := by
  unfold finishCommand
  simp only [hr, hc, curData]

/-! Without a request there is nothing to do. -/

theorem curData_none (hr : c.req = none) : c.curData = none := by
  unfold curData
  rw [hr]
  split <;> rfl

theorem finish_none (hr : c.req = none) : c.finish = c := by
  unfold finish
  rw [hr]

theorem finishCommand_none (h : c.req = none ∨ c.cmd = none) (env : StageEnv) : c.finishCommand env = c := by
  unfold finishCommand
  rcases h with h | h
  · rw [h]
  · rw [h]
    cases c.req <;> rfl

theorem irqCommand_idle (hr : c.req = none) (st : IntStatus) (env : StageEnv) : c.irqCommand st env = c := by
  unfold irqCommand
  rw [finishCommand_none (Or.inl hr)]
  split <;> rfl

theorem irqPio_idle (hr : c.req = none) (st : IntStatus) (env : StageEnv) : c.irqPio st env = c := by
  unfold irqPio pio
  split
  · cases env.words with
    | none => rfl
    | some words => simp only [curData_none hr, Option.isNone_none, if_true]
  · rfl

theorem irqPioEnd_idle (hr : c.req = none) (st : IntStatus) (env : StageEnv) : c.irqPioEnd st env = c := by
  unfold irqPioEnd
  rw [finishData_none (curData_none hr)]
  split <;> rfl

theorem irqXfer_idle (hr : c.req = none) (st : IntStatus) (env : StageEnv) : c.irqXfer st env = c := by
  unfold irqXfer
  rw [finishData_none (curData_none hr)]
  split <;> rfl

end Ctl

/-! ## What a host keeps of it -/

def MmcCommand.view (c : MmcCommand) : CmdView := ⟨c.opcode, c.error⟩
def MmcData.view (d : MmcData) : DataView := ⟨d.size, d.blocks, d.error, d.bytesXfered⟩

def MmcRequest.view (m : MmcRequest) : Req :=
  ⟨m.id, m.sbc.map MmcCommand.view, m.cmd.view, m.data.map MmcData.view, m.stop.map MmcCommand.view⟩

def Ev.mark : Ev → Option Mark
  | .writel _ _ => none
  | .ack _ => none
  | .send id slot word => some (.send id slot word.dmaEn)
  | .pio id words => some (.pio id words.length)
  | .mapSg id => some (.mapSg id)
  | .unmapSg id => some (.unmapSg id)
  | .cmdDone id slot error => some (.cmdDone id slot error)
  | .dataDone id error => some (.dataDone id error)
  | .requestDone mrq => some (.requestDone mrq.view)

/-- The automaton's state of a host. -/
def Host.ctl (h : Host) : Ctl :=
  { req := h.mrq.map MmcRequest.view
    done := h.mrqDone.map MmcRequest.view
    cmd := h.cmd
    data := h.data
    dma := h.useDma
    bytes := h.bytesToTransfer
    log := h.log.filterMap Ev.mark }

/-! ## When the controller is ready -/

/-- The lines are free in time, whether or not the command has data. -/
def SendEnv.Ready (env : SendEnv) : Prop := ∀ hasData, env.timedOut hasData = false

def IrqEnv.Ready (env : IrqEnv) : Prop := env.command.send.Ready ∧ env.stop.Ready

def StageEnv.Ready (env : StageEnv) : Prop :=
  env.timedOut = false ∧ env.stopTimedOut = false ∧ env.xferTimedOut = false

/-! ## The steps of the host are steps of the automaton -/

theorem view_get (m : MmcRequest) (slot : Slot) : m.view.get slot = (m.get slot).view := by
  cases slot with
  | sbc => unfold MmcRequest.view Req.get MmcRequest.get; cases m.sbc <;> rfl
  | cmd => rfl
  | stop => unfold MmcRequest.view Req.get MmcRequest.get; cases m.stop <;> rfl

theorem view_modify (m : MmcRequest) (slot : Slot) {f : MmcCommand → MmcCommand}
    {g : CmdView → CmdView} (hfg : ∀ c, (f c).view = g c.view) :
    (m.modify slot f).view = m.view.modify slot g := by
  cases slot <;> simp [MmcRequest.view, Req.modify, MmcRequest.modify, hfg, Function.comp_def]

theorem Req.modify_id (r : Req) (slot : Slot) : r.modify slot (fun k => k) = r := by
  cases slot <;> simp [Req.modify]

theorem view_modifyData (m : MmcRequest) {f : MmcData → MmcData} {g : DataView → DataView}
    (hfg : ∀ d, (f d).view = g d.view) : (m.modifyData f).view = m.view.modifyData g := by
  simp [MmcRequest.view, Req.modifyData, MmcRequest.modifyData, hfg, Function.comp_def]

theorem view_needStop (m : MmcRequest) {data : MmcData} (hd : m.data = some data) :
    m.view.needStop = needStopCommand data m := by
  simp [Req.needStop, needStopCommand, MmcRequest.view, hd, MmcData.view]

namespace Host

variable (h : Host)

theorem ctl_emit (e : Ev) :
    (h.emit e).ctl = { h.ctl with log := (e.mark.toList) ++ h.ctl.log } := by
  cases hm : e.mark <;> simp [emit, ctl, hm]

@[simp] theorem ctl_writel (reg : Reg) (val : ℕ) : (h.writel reg val).ctl = h.ctl := rfl
@[simp] theorem ctl_setMrq (m : Option MmcRequest) :
    (h.setMrq m).ctl = { h.ctl with req := m.map MmcRequest.view } := rfl
@[simp] theorem ctl_setMrqDone (m : Option MmcRequest) :
    (h.setMrqDone m).ctl = { h.ctl with done := m.map MmcRequest.view } := rfl
@[simp] theorem ctl_setCmd (c : Option Slot) : (h.setCmd c).ctl = { h.ctl with cmd := c } := rfl
@[simp] theorem ctl_setData (b : Bool) : (h.setData b).ctl = { h.ctl with data := b } := rfl
@[simp] theorem ctl_setUseDma (b : Bool) : (h.setUseDma b).ctl = { h.ctl with dma := b } := rfl
@[simp] theorem ctl_setBytes (n : ℕ) : (h.setBytes n).ctl = { h.ctl with bytes := n } := rfl
theorem ctl_setBytesDone (n blocks off : ℕ) :
    ({ h with sgOffset := off, bytesToTransfer := n, blocksDone := blocks } : Host).ctl =
      { h.ctl with bytes := n } := rfl
theorem ctl_req : h.ctl.req = h.mrq.map MmcRequest.view := rfl
theorem ctl_cmd : h.ctl.cmd = h.cmd := rfl
theorem ctl_data : h.ctl.data = h.data := rfl
theorem ctl_dma : h.ctl.dma = h.useDma := rfl

@[simp] theorem ctl_finishSwitch (cmd : MmcCommand) : (h.finishSwitch cmd).ctl = h.ctl := by
  unfold finishSwitch
  split
  · simp only [ctl_writel]
    split
    · rfl
    · split <;> rfl
  · rfl

theorem ctl_modifyCmd (slot : Slot) {f : MmcCommand → MmcCommand} {g : CmdView → CmdView}
    (hfg : ∀ c, (f c).view = g c.view) :
    (h.modifyCmd slot f).ctl = { h.ctl with req := h.ctl.req.map (·.modify slot g) } := by
  have hreq : (h.mrq.map (·.modify slot f)).map MmcRequest.view = h.ctl.req.map (·.modify slot g) := by
    rw [ctl_req]
    cases h.mrq with
    | none => rfl
    | some m => exact congrArg some (view_modify m slot hfg)
  rw [modifyCmd, ctl_setMrq, hreq]

theorem ctl_modifyData {f : MmcData → MmcData} {g : DataView → DataView}
    (hfg : ∀ d, (f d).view = g d.view) :
    (h.modifyData f).ctl = { h.ctl with req := h.ctl.req.map (·.modifyData g) } := by
  have hreq : (h.mrq.map (·.modifyData f)).map MmcRequest.view = h.ctl.req.map (·.modifyData g) := by
    rw [ctl_req]
    cases h.mrq with
    | none => rfl
    | some m => exact congrArg some (view_modifyData m hfg)
  rw [modifyData, ctl_setMrq, hreq]

theorem modifyData_id (r : Req) : r.modifyData (fun d => d) = r := by
  simp [Req.modifyData]

/-- Changing only the data's memory is invisible. -/
theorem ctl_modifyData_view {f : MmcData → MmcData} (hf : ∀ d, (f d).view = d.view) :
    (h.modifyData f).ctl = h.ctl := by
  rw [ctl_modifyData h (g := fun d => d) hf]
  simp [modifyData_id]

@[simp] theorem ctl_admaTablePre (data : MmcData) : (admaTablePre h data).2.ctl = h.ctl := by
  unfold admaTablePre
  split
  · split
    · rfl
    · split <;> rfl
  · simp only
    split
    · rfl
    · split <;> rfl

@[simp] theorem ctl_admaTablePost (data : MmcData) : (h.admaTablePost data).ctl = h.ctl := by
  unfold admaTablePost
  simp only
  split
  · split
    · exact ctl_modifyData_view h fun d => rfl
    · rfl
  · rfl

theorem mrqId_ctl : h.mrqId = (h.ctl.req.map (·.id)).getD 0 := by
  simp [mrqId, curId, ctl, Function.comp_def, MmcRequest.view]

theorem ctl_cleanupDma (data : MmcData) :
    (h.cleanupDma data).ctl =
      { h.ctl with log := (if h.useDma then [.unmapSg h.mrqId] else []) ++ h.ctl.log } := by
  unfold cleanupDma
  cases hu : h.useDma
  · simp
  · simp only [Bool.not_true, Bool.false_eq_true, if_false, ctl_emit, ctl_admaTablePost, Ev.mark]
    rw [mrqId_ctl, ctl_admaTablePost, ← mrqId_ctl]; rfl

theorem ctl_curData : h.ctl.curData = h.curData.map MmcData.view := by
  unfold Ctl.curData curData ctl
  cases h.data
  · rfl
  · cases h.mrq <;> rfl

theorem finishRequest_ctl : h.finishRequest.ctl = h.ctl.finish := by
  unfold finishRequest Ctl.finish
  cases hm : h.mrq with
  | none => simp [ctl_req, hm]
  | some m =>
    have hreq : h.ctl.req = some m.view := by rw [ctl_req, hm]; rfl
    have hid : h.mrqId = m.view.id := by rw [mrqId_ctl, hreq]; rfl
    rw [hreq]
    simp only [Option.isSome_some, if_true, ctl_curData, Option.isSome_map, ctl_setUseDma,
      ctl_setBytes, ctl_setData, ctl_setCmd, ctl_setMrq, ctl_setMrqDone, Option.map_none]
    cases h.curData with
    | none => simp [hm]
    | some data =>
      simp only [← ctl_req, ctl_cleanupDma, hid, hreq, ctl_dma, Option.isSome_some, Bool.and_true]
      cases h.useDma <;> rfl

/-- The set-up of DMA, on the data of the request in progress. -/
theorem prepareDma_ctl {m : MmcRequest} {data : MmcData} (hm : h.mrq = some m)
    (hd : m.data = some data) (segs : List DmaSeg) :
    ∃ prep : Prep, (h.prepareDma data segs).ctl =
      { h.ctl with
        dma := h.useDma && decide (prep = .ok)
        log := (if h.useDma then prep.marks m.id else []) ++ h.ctl.log } := by
  unfold prepareDma
  cases hu : h.useDma with
  | false => exact ⟨.mapFailed, by simp [ctl, hu]⟩
  | true =>
    simp only [Bool.not_true, Bool.false_eq_true, if_false]
    by_cases hs : segs.length = 0
    · rw [if_pos hs]
      exact ⟨.mapFailed, by simp [Prep.marks]⟩
    · rw [if_neg hs]
      set data' : MmcData := { data with sg := dmaMapSg data.sg segs, sgLen := segs.length } with hdata
      set h1 := (h.modifyData fun _ => data').emit (.mapSg h.mrqId) with hh1
      have hmod : (h.modifyData fun _ => data').ctl = h.ctl := by
        have hv : (m.modifyData fun _ => data').view = m.view := by
          simp [MmcRequest.view, MmcRequest.modifyData, hd, MmcData.view, hdata, MmcData.size]
        rw [modifyData, ctl_setMrq, hm]
        simp only [Option.map_some, hv]
        rw [← Option.map_some, ← hm, ← ctl_req]
      have hid : h.mrqId = m.id := by simp [mrqId, curId, hm]
      have h1c : h1.ctl = { h.ctl with log := .mapSg m.id :: h.ctl.log } := by
        rw [hh1, ctl_emit, hmod, hid]; rfl
      have hid1 : ∀ k : Host, k.ctl = h1.ctl → k.mrqId = m.id := by
        intro k hk
        rw [mrqId_ctl, hk, h1c, ← hid, mrqId_ctl]
      have hpre := ctl_admaTablePre h1 data'
      rcases ht : admaTablePre h1 data' with ⟨ret, h2⟩
      rw [ht] at hpre
      simp only at hpre ⊢
      by_cases hr : ret = 0
      · refine ⟨.ok, ?_⟩
        rw [if_neg (not_not.2 hr), setAdmaAddr, ctl_writel, ctl_writel, hpre, h1c]
        simp [Prep.marks, ctl, hu]
      · refine ⟨.tableFailed, ?_⟩
        rw [if_pos hr, ctl_setUseDma, ctl_emit, hpre, h1c, hid1 h2 hpre]
        simp [Prep.marks, Ev.mark]

theorem sendData_ctl {m : MmcRequest} {data : MmcData} (hm : h.mrq = some m)
    (hd : m.data = some data) (segs : List DmaSeg) :
    ∃ prep : Prep, (h.sendData data segs).ctl =
      { h.ctl with
        data := true
        dma := decide (data.size ≥ 512) && decide (prep = .ok)
        bytes := if data.size ≥ 512 ∧ prep = .ok then h.ctl.bytes else data.size
        log := (if data.size ≥ 512 then prep.marks m.id else []) ++ h.ctl.log } := by
  obtain ⟨prep, hp⟩ := prepareDma_ctl (h.setUseDma (decide (data.size ≥ 512))) hm hd segs
  refine ⟨prep, ?_⟩
  unfold sendData
  simp only
  set h1 := ((h.setUseDma (decide (data.size ≥ 512))).prepareDma data segs).writel .blockSize
    (data.blocks <<< EFX_EMMC_BLOCK_COUNT_SHIFT ||| data.blksz &&& EFX_EMMC_BLOCK_SIZE_MASK) with hh1
  have h1c : h1.ctl = _ := hp
  have hdma : h1.useDma = (decide (data.size ≥ 512) && decide (prep = .ok)) := congrArg Ctl.dma h1c
  have hu : ∀ b, (h.setUseDma b).useDma = b := fun _ => rfl
  rw [ctl_setData]
  -- with DMA the byte count stays, without it it is set
  by_cases hsz : data.size ≥ 512
  · by_cases hok : prep = .ok
    · rw [if_pos (by rw [hdma]; simp [hsz, hok]), h1c]
      simp [hu, hsz, hok]
    · rw [if_neg (by rw [hdma]; simp [hok]), ctl_setBytes, h1c]
      simp [hu, hsz, hok]
  · rw [if_neg (by rw [hdma]; simp [hsz]), ctl_setBytes, h1c]
    simp [hu, hsz]

theorem sendCommand_ctl (slot : Slot) (env : SendEnv) :
    ∃ timedOut prep, (env.Ready → timedOut = false) ∧
      (h.sendCommand slot env).ctl = h.ctl.send slot timedOut prep := by
  unfold sendCommand Ctl.send
  cases hm : h.mrq with
  | none => exact ⟨false, .ok, fun _ => rfl, by simp [ctl_req, hm]⟩
  | some m =>
    have hreq : h.ctl.req = some m.view := by rw [ctl_req, hm]; rfl
    rw [hreq]
    simp only
    have hview : (if slot = .cmd then m.view.data else none) =
        (if slot = .cmd then m.data else none).map MmcData.view := by split <;> rfl
    rw [hview]
    -- the phase change of a CMD6 is only register writes
    set h1 := (if (m.get slot).opcode = 6 ∧ (m.get slot).switchIndex = 185 then
        ((h.setCmd (some slot)).setTimingConfig 0 0 EMMC_BASE_CLK_CAL_PORT).writel .intStatus 0xFFFFFFFF
      else h.setCmd (some slot)) with hh1
    have h1c : h1.ctl = { h.ctl with cmd := some slot } := by rw [hh1]; split <;> rfl
    have h1m : h1.mrq = some m := by rw [hh1]; split <;> exact hm
    cases hto : env.timedOut (if slot = .cmd then m.data else none).isSome with
    | true =>
      refine ⟨true, .ok, fun hready => hto.symm.trans (hready _), ?_⟩
      simp only [if_true]
      rw [finishRequest_ctl, ctl_modifyCmd h1 slot (g := fun k => { k with error := -ETIMEDOUT })
        (fun _ => rfl), h1c, hreq]
      rfl
    | false =>
      simp only [Bool.false_eq_true, if_false]
      cases hd : (if slot = .cmd then m.data else none) with
      | none =>
        refine ⟨false, .ok, fun _ => rfl, ?_⟩
        simp only [Option.map_none]
        rw [ctl_emit, ctl_writel, h1c]
        simp only [hreq, Bool.false_eq_true, if_false]
        rfl
      | some d =>
        have hdata : m.data = some d := by
          split at hd
          · exact hd
          · exact absurd hd (by simp)
        obtain ⟨prep, hp⟩ := sendData_ctl (h1.writel .arg1 (m.get slot).arg.toNat) h1m hdata env.segs
        have hdma : ((h1.writel .arg1 (m.get slot).arg.toNat).sendData d env.segs).useDma =
            (decide (d.size ≥ 512) && decide (prep = .ok)) := congrArg Ctl.dma hp
        refine ⟨false, prep, fun _ => rfl, ?_⟩
        simp only [Option.map_some]
        rw [ctl_emit, hp, ctl_writel, h1c, hdma]
        simp only [hreq, Bool.false_eq_true, if_false]
        rfl

theorem transferPioDir_ctl (read : Bool) (port : ℕ → UInt32) :
    ∃ words, (h.transferPioDir read port).ctl = h.ctl.pio words := by
  unfold transferPioDir
  cases hd : h.curData with
  | none => exact ⟨none, rfl⟩
  | some data =>
    simp only
    by_cases hsg : data.sg = []
    · rw [if_pos hsg]; exact ⟨none, rfl⟩
    rw [if_neg hsg]
    set s := pioLoop read port (data.blksz / 4) (data.blksz / 4)
      ⟨data.sg, 0, h.sgOffset, 0, h.bytesToTransfer, []⟩ with hs
    have hcount : s.bytesToTransfer + 4 * s.words.length = h.bytesToTransfer := by
      have := pioLoop_count read port (data.blksz / 4) (data.blksz / 4)
        ⟨data.sg, 0, h.sgOffset, 0, h.bytesToTransfer, []⟩
      simpa using this
    refine ⟨some s.words.length, ?_⟩
    have hbytes : h.ctl.bytes = h.bytesToTransfer := rfl
    have hmod := ctl_modifyData_view h (f := fun d => { d with sg := s.sg }) fun _ => rfl
    have hcur : h.ctl.curData.isNone = false := by rw [ctl_curData, hd]; rfl
    rw [Ctl.pio, hcur, ctl_setBytesDone, ctl_emit, hmod, hbytes, Nat.min_eq_left (by omega), ← mrqId_ctl,
      show h.bytesToTransfer - 4 * s.words.length = s.bytesToTransfer by omega]
    rfl

theorem transferPio_ctl (env : PioEnv) : ∃ words, (h.transferPio env).ctl = h.ctl.pio words := by
  unfold transferPio transferPioRead transferPioWrite
  cases h.curData with
  | none => exact ⟨none, rfl⟩
  | some data =>
    simp only
    split
    · split
      · exact transferPioDir_ctl h true env.port
      · exact ⟨none, rfl⟩
    · split
      · exact transferPioDir_ctl h false env.port
      · exact ⟨none, rfl⟩

theorem finishData_ctl (env : SendEnv) :
    ∃ timedOut, (env.Ready → timedOut = false) ∧ (h.finishData env).ctl = h.ctl.finishData timedOut := by
  unfold finishData Ctl.finishData
  rw [ctl_req, ctl_curData]
  cases hm : h.mrq with
  | none => exact ⟨false, fun _ => rfl, rfl⟩
  | some m =>
    cases hd : h.curData with
    | none => exact ⟨false, fun _ => rfl, rfl⟩
    | some data =>
      have hmd : m.data = some data := by
        unfold curData at hd
        rw [hm] at hd
        split at hd
        · exact hd
        · exact absurd hd (by simp)
      simp only [Option.map_some]
      -- the host with the data finished, and its view
      set h1 := ((((h.modifyData fun d =>
        { d with bytesXfered := if d.error = 0 then d.size else 0 }).cleanupDma data).setData
          false).setBytes 0).emit (.dataDone m.id data.error) with hh1
      have h1c : h1.ctl =
          { h.ctl with
            req := some (m.view.modifyData fun d => { d with xfered := if d.error = 0 then d.size else 0 })
            data := false, bytes := 0
            log := .dataDone m.id data.error ::
              ((if h.useDma then [.unmapSg m.id] else []) ++ h.ctl.log) } := by
        have hmod := ctl_modifyData h (f := fun d =>
            { d with bytesXfered := if d.error = 0 then d.size else 0 })
          (g := fun d => { d with xfered := if d.error = 0 then d.size else 0 }) (fun _ => rfl)
        have hid : (h.modifyData fun d =>
            { d with bytesXfered := if d.error = 0 then d.size else 0 }).mrqId = m.id := by
          rw [mrqId_ctl, hmod, ctl_req, hm]; rfl
        rw [hh1, ctl_emit, ctl_setBytes, ctl_setData, ctl_cleanupDma, hid, hmod, ctl_req, hm]
        rfl
      have herr : data.view.error = data.error := rfl
      rw [view_needStop m hmd, herr]
      split
      · obtain ⟨t, p, hready, hs⟩ := sendCommand_ctl (h1.setCmd (some .stop)) .stop env
        refine ⟨t, hready, ?_⟩
        rw [hs, Ctl.send_prep _ (by decide) t p .ok, ctl_setCmd, h1c]
        rfl
      · refine ⟨false, fun _ => rfl, ?_⟩
        rw [finishRequest_ctl, h1c]
        rfl

theorem finishCommand_ctl (env : CommandEnv) :
    ∃ timedOut prep early, (env.send.Ready → timedOut = false) ∧ ∀ words stop xfer,
      (h.finishCommand env).ctl = h.ctl.finishCommand ⟨timedOut, prep, early, words, stop, xfer⟩ := by
  cases hm : h.mrq with
  | none => exact ⟨false, .ok, none, fun _ => rfl, fun _ _ _ => by simp [finishCommand, Ctl.finishCommand, ctl_req, hm]⟩
  | some m =>
    cases hc : h.cmd with
    | none =>
      exact ⟨false, .ok, none, fun _ => rfl, fun _ _ _ => by
        simp [finishCommand, Ctl.finishCommand, ctl_req, ctl_cmd, hm, hc]⟩
    | some slot =>
      have hreq : h.ctl.req = some m.view := by rw [ctl_req, hm]; rfl
      have hget : (m.view.get slot).opcode = (m.get slot).opcode ∧
          (m.view.get slot).error = (m.get slot).error := by rw [view_get]; exact ⟨rfl, rfl⟩
      set h1 := ((h.modifyCmd slot fun c => c.readResponse env.resp).finishSwitch (m.get slot)).emit
        (.cmdDone m.id slot (m.get slot).error) with hh1
      have h1c : h1.ctl = { h.ctl with log := .cmdDone m.id slot (m.get slot).error :: h.ctl.log } := by
        have hv : ∀ c : MmcCommand, (c.readResponse env.resp).view = c.view := by
          intro c
          unfold MmcCommand.readResponse
          split
          · split <;> rfl
          · rfl
        have hmod := ctl_modifyCmd h slot (g := fun c => c) hv
        have hid : h.ctl.req.map (·.modify slot fun c => c) = h.ctl.req := by
          rw [hreq]; exact congrArg some (Req.modify_id m.view slot)
        rw [hh1, ctl_emit, ctl_finishSwitch, hmod, hid]
        rfl
      have hdma : (h1.setCmd none).useDma = h.useDma := congrArg Ctl.dma h1c
      have hcur : (h1.setCmd none).curData.map MmcData.view = h.ctl.curData := by
        rw [← ctl_curData, ctl_setCmd, h1c]; rfl
      have h2c : (h1.setCmd none).ctl =
          { h.ctl with cmd := none, log := .cmdDone m.id slot (m.get slot).error :: h.ctl.log } := by
        rw [ctl_setCmd, h1c]
      simp only [Ctl.finishCommand_some hreq hc, hget]
      unfold finishCommand
      simp only [hm, hc]
      rw [← hh1]
      by_cases h23 : (m.get slot).opcode = 23
      · obtain ⟨t, p, hready, hs⟩ := sendCommand_ctl (h1.setCmd (some .cmd)) .cmd env.send
        refine ⟨t, p, none, hready, ?_⟩
        intro _ _ _
        rw [if_pos h23, if_pos h23, hs, ctl_setCmd, h1c]
        rfl
      · simp only [if_neg h23]
        rw [hdma]
        cases hd : (h1.setCmd none).curData with
        | none =>
          refine ⟨false, .ok, none, fun _ => rfl, ?_⟩
          intro _ _ _
          simp only [← hcur, hd, Option.map_none, Option.isNone_none, if_true, finishRequest_ctl, h2c]
          rfl
        | some data =>
          simp only [← hcur, hd, Option.map_some, Option.isNone_some, Bool.false_eq_true, if_false]
          by_cases hu : h.useDma = true
          · refine ⟨false, .ok, none, fun _ => rfl, ?_⟩
            intro _ _ _
            rw [if_pos hu, if_pos (show h.ctl.dma = true from hu), h2c]
            rfl
          · obtain ⟨w, hw⟩ := transferPio_ctl (h1.setCmd none) env.pio
            rw [h2c] at hw
            have hu' : ¬h.ctl.dma = true := hu
            simp only [if_neg hu, if_neg hu']
            -- the transfer is made or not
            split
            · split
              · exact ⟨false, .ok, w, fun _ => rfl, fun _ _ _ => hw⟩
              · exact ⟨false, .ok, none, fun _ => rfl, fun _ _ _ => h2c⟩
            · split
              · exact ⟨false, .ok, w, fun _ => rfl, fun _ _ _ => hw⟩
              · exact ⟨false, .ok, none, fun _ => rfl, fun _ _ _ => h2c⟩

theorem completePendingRequest_ctl : h.completePendingRequest.ctl = h.ctl.completePending := by
  have hdone : h.ctl.done = h.mrqDone.map MmcRequest.view := rfl
  unfold completePendingRequest Ctl.completePending
  rw [hdone]
  cases h.mrqDone with
  | none => rfl
  | some m => simp only [ctl_emit, ctl_setMrqDone]; rfl

theorem requestLocked_ctl (m : MmcRequest) (env : SendEnv) :
    ∃ timedOut prep, (env.Ready → timedOut = false) ∧
      (h.requestLocked m env).ctl = h.ctl.requestLocked m.view timedOut prep := by
  have hsbc : m.view.sbc.isSome = m.sbc.isSome := Option.isSome_map
  unfold requestLocked Ctl.requestLocked
  simp only [hsbc]
  split
  · exact sendCommand_ctl ((h.setMrq (some m)).setCmd (some .sbc)) .sbc env
  · exact sendCommand_ctl (h.setMrq (some m)) .cmd env

/-- A test of the current command's opcode. -/
theorem curCmd_ctl {r : Req} (hr : h.ctl.req = some r) (p : ℕ → Bool) :
    (h.curCmd.map fun c => p c.opcode).getD false =
      (h.ctl.cmd.map fun slot => p (r.get slot).opcode).getD false := by
  obtain ⟨m, hm, rfl⟩ := Option.map_eq_some_iff.1 ((ctl_req h).symm.trans hr)
  unfold curCmd
  rw [hm, ctl_cmd]
  cases h.cmd with
  | none => rfl
  | some slot => simp only [Option.map_some, view_get]; rfl

theorem markAdma_ctl (st : IntStatus) :
    (h.markAdma st).ctl = { h.ctl with req := h.ctl.req.map (·.markAdma st h.ctl.data) } := by
  unfold markAdma Req.markAdma
  rw [ctl_data]
  split
  · exact ctl_modifyData h fun _ => rfl
  · rw [Option.map_id']

theorem markTuning_ctl (st : IntStatus) : (h.markTuning st).ctl = h.ctl := by
  unfold markTuning
  split
  · rfl
  · split
    · split <;> rfl
    · rfl

theorem markCommand_ctl (st : IntStatus) :
    (h.markCommand st).ctl = { h.ctl with req := h.ctl.req.map (·.markCommand st h.ctl.cmd) } := by
  unfold markCommand Req.markCommand
  rw [ctl_cmd]
  cases h.cmd with
  | none => rw [Option.map_id']
  | some slot =>
    simp only
    split
    · exact ctl_modifyCmd h slot fun _ => rfl
    · split
      · exact ctl_modifyCmd h slot fun _ => rfl
      · rw [Option.map_id']

theorem markData_ctl (st : IntStatus) :
    (h.markData st).ctl = { h.ctl with req := h.ctl.req.map (·.markData st h.ctl.data) } := by
  unfold markData Req.markData
  rw [ctl_data]
  split
  · refine ctl_modifyData h ?_
    intro d
    cases st.dataTimeoutErr <;> cases st.dataCrcErr <;> cases st.dataEndBitErr <;> rfl
  · rw [Option.map_id']

theorem irqError_ctl (st : IntStatus) : (h.irqError st).ctl = h.ctl.irqError st := by
  set h1 := (h.markAdma st).markTuning st with hh1
  have h1c : h1.ctl = { h.ctl with req := h.ctl.req.map (·.markAdma st h.ctl.data) } := by
    rw [hh1, markTuning_ctl, markAdma_ctl]
  cases hr : h.ctl.req with
  | none =>
    -- without a request every part leaves the view as it is
    have h1n : h1.ctl = h.ctl := by
      rw [h1c, hr, Option.map_none, ← hr]
    have h1m : h1.mrq = none := by
      have := (congrArg Ctl.req h1n).trans hr
      rw [ctl_req] at this
      exact Option.map_eq_none_iff.1 this
    have hcur : h1.curCmd = none := by unfold curCmd; rw [h1m]
    have h2n : (h1.markCommand st).ctl = h.ctl := by
      rw [markCommand_ctl, h1n, hr, Option.map_none, ← hr]
    have h3n : ((h1.markCommand st).markData st).ctl = h.ctl := by
      rw [markData_ctl, h2n, hr, Option.map_none, ← hr]
    unfold irqError Ctl.irqError
    simp only [← hh1, hcur, Option.map_none, Option.getD_none, Bool.and_false, Bool.false_eq_true,
      if_false]
    rw [finishRequest_ctl, h3n, Ctl.finish, hr]
  | some r =>
    have h1r : h1.ctl.req = some (r.markAdma st h.ctl.data) := by rw [h1c, hr]; rfl
    have hcmd12 := curCmd_ctl h1 h1r (fun op => decide (op = 12))
    rw [show h1.ctl.cmd = h.ctl.cmd by rw [h1c]] at hcmd12
    have h2c : (h1.markCommand st).ctl = { h.ctl with
        req := some ((r.markAdma st h.ctl.data).markCommand st h.ctl.cmd) } := by
      rw [markCommand_ctl, h1r, h1c]; rfl
    unfold irqError Ctl.irqError
    rw [hr]
    simp only [← hh1, hcmd12]
    split
    · -- the timeout of a CMD12 clears `host->cmd` first, which `finish` clears anyway
      rw [finishRequest_ctl, ctl_setCmd, h2c, Ctl.finish_some rfl, Ctl.finish_some rfl]
      rfl
    · rw [finishRequest_ctl, markData_ctl, h2c]
      rfl

theorem irqCommand_ctl (st : IntStatus) (env : CommandEnv) :
    ∃ timedOut prep early, (env.send.Ready → timedOut = false) ∧ ∀ words stop xfer,
      (h.irqCommand st env).ctl = h.ctl.irqCommand st ⟨timedOut, prep, early, words, stop, xfer⟩ := by
  obtain ⟨t, p, e, hready, he⟩ := finishCommand_ctl h env
  refine ⟨t, p, e, hready, ?_⟩
  intro w s x
  unfold irqCommand Ctl.irqCommand
  split
  · exact he w s x
  · rfl

theorem irqPio_ctl (st : IntStatus) (env : PioEnv) :
    ∃ words, ∀ t p e s x, (h.irqPio st env).ctl = h.ctl.irqPio st ⟨t, p, e, words, s, x⟩ := by
  obtain ⟨w, hw⟩ := transferPio_ctl h env
  refine ⟨w, ?_⟩
  intro _ _ _ _ _
  unfold irqPio Ctl.irqPio
  rw [ctl_dma]
  split
  · exact hw
  · rfl

theorem irqPioEnd_ctl (st : IntStatus) (env : SendEnv) :
    ∃ stop, (env.Ready → stop = false) ∧
      ∀ t p e w x, (h.irqPioEnd st env).ctl = h.ctl.irqPioEnd st ⟨t, p, e, w, stop, x⟩ := by
  obtain ⟨s, hready, hs⟩ := finishData_ctl h env
  refine ⟨s, hready, ?_⟩
  intro _ _ _ _ _
  have hbytes : h.ctl.bytes = h.bytesToTransfer := rfl
  unfold irqPioEnd Ctl.irqPioEnd
  rw [ctl_dma, ctl_data, hbytes]
  split
  · exact hs
  · rfl

theorem irqXfer_ctl (st : IntStatus) (env : SendEnv) :
    ∃ xfer, (env.Ready → xfer = false) ∧ ∀ t p e w s, (h.irqXfer st env).ctl = h.ctl.irqXfer st ⟨t, p, e, w, s, xfer⟩ := by
  obtain ⟨x, hready, hx⟩ := finishData_ctl (if h.tuningInProgress then h.completeTuning else h) env
  have htune : (if h.tuningInProgress then h.completeTuning else h).ctl = h.ctl := by split <;> rfl
  rw [htune] at hx
  refine ⟨x, hready, ?_⟩
  intro _ _ _ _ _
  unfold irqXfer Ctl.irqXfer
  split
  · exact hx
  · rfl

/-- **A status without errors does to the automaton what it does to the host**, stage
by stage. -/
theorem irqStages_ctl (st : IntStatus) (env : IrqEnv) :
    ∃ env', (env.Ready → env'.Ready) ∧
      (h.irqCommand st env.command).ctl = h.ctl.irqCommand st env' ∧
      ((h.irqCommand st env.command).irqPio st env.pio).ctl =
        (h.ctl.irqCommand st env').irqPio st env' ∧
      (((h.irqCommand st env.command).irqPio st env.pio).irqPioEnd st env.stop).ctl =
        ((h.ctl.irqCommand st env').irqPio st env').irqPioEnd st env' ∧
      ((((h.irqCommand st env.command).irqPio st env.pio).irqPioEnd st env.stop).irqXfer st
          env.stop).ctl =
        (((h.ctl.irqCommand st env').irqPio st env').irqPioEnd st env').irqXfer st env' := by
  obtain ⟨t, p, e, ready1, h1⟩ := irqCommand_ctl h st env.command
  obtain ⟨w, h2⟩ := irqPio_ctl (h.irqCommand st env.command) st env.pio
  obtain ⟨s, ready3, h3⟩ := irqPioEnd_ctl ((h.irqCommand st env.command).irqPio st env.pio) st env.stop
  obtain ⟨x, ready4, h4⟩ := irqXfer_ctl
    (((h.irqCommand st env.command).irqPio st env.pio).irqPioEnd st env.stop) st env.stop
  refine ⟨⟨t, p, e, w, s, x⟩, fun hready => ⟨ready1 hready.1, ready3 hready.2, ready4 hready.2⟩,
    h1 w s x, ?_, ?_, ?_⟩
  · rw [h2 t p e s x, h1 w s x]
  · rw [h3 t p e w x, h2 t p e s x, h1 w s x]
  · rw [h4 t p e w s, h3 t p e w x, h2 t p e s x, h1 w s x]

/-- The handler and the stages in it. -/
theorem irqLocked_stages_ctl (st : IntStatus) (env : IrqEnv) :
    ∃ env', (env.Ready → env'.Ready) ∧
      (((h.emit (.ack st)).irqCommand st env.command).irqPio st env.pio).ctl =
        (h.ctl.irqCommand st env').irqPio st env' ∧
      (h.irqLocked st env).ctl = h.ctl.irqLocked st env' := by
  obtain ⟨env', hready, -, h2, -, h4⟩ := irqStages_ctl (h.emit (.ack st)) st env
  refine ⟨env', hready, h2, ?_⟩
  have hack : (h.emit (.ack st)).ctl = h.ctl := rfl
  unfold irqLocked Ctl.irqLocked
  split
  · rfl
  · split
    · rw [irqError_ctl, hack]
    · rw [h4, hack]

theorem irqLocked_ctl (st : IntStatus) (env : IrqEnv) :
    ∃ env', (env.Ready → env'.Ready) ∧ (h.irqLocked st env).ctl = h.ctl.irqLocked st env' := by
  obtain ⟨env', hready, -, he⟩ := h.irqLocked_stages_ctl st env
  exact ⟨env', hready, he⟩

end Host

end Br2Efinix.Emmc
