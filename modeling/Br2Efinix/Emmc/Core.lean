import Br2Efinix.Emmc.Pio

/-!
# Requests and interrupts

The life of a request in the driver: `request` sends its first command, `irq`
handles a status word, and between them `sendCommand`, `finishCommand`,
`finishData` and `finishRequest` move `host->cmd`, `host->data` and `host->mrq`
along. What the hardware and the mapping layer answer is a parameter of each step.
-/

namespace Br2Efinix.Emmc

def EMMC_BASE_CLK_CAL_PORT : ℕ := 2
def EFX_EMMC_BLOCK_COUNT_SHIFT : ℕ := 16
def EFX_EMMC_BLOCK_SIZE_MASK : ℕ := 0xFFF
def EFX_EMMC_CMD_INDEX_MASK : ℕ := 0x3F

/-- What `efx_emmc_send_command` meets: the values of `EFX_EMMC_PRESENT_STATE` it
polls, whether the deadline has passed when it stops, and the mapping it gets. -/
structure SendEnv where
  polls : List PresentState
  late : Bool
  segs : List DmaSeg

/-- The poll ends without a free line, or after its deadline. -/
def SendEnv.timedOut (env : SendEnv) (hasData : Bool) : Bool :=
  env.late || !env.polls.any fun ps => !ps.cmdInhibitCmd && (!hasData || !ps.cmdInhibitDat)

namespace MmcCommand

/-- The `EXT_CSD` index and value that a CMD6 writes. -/
def switchIndex (c : MmcCommand) : UInt32 := c.arg >>> 16 &&& 0xFF
def switchValue (c : MmcCommand) : UInt32 := c.arg >>> 8 &&& 0xFF

/-- The fields of the command register that depend on the command alone. -/
def transferMode (c : MmcCommand) : TransferMode :=
  { index := c.opcode &&& EFX_EMMC_CMD_INDEX_MASK
    respType :=
      if c.flags.present then
        if c.flags.rsp136 then .r136 else if c.flags.busy then .r48Busy else .r48
      else .none
    crcCheck := c.flags.present && c.flags.crc
    indexCheck := c.flags.present && c.flags.opcode
    dataPresent := false, multiBlock := false, blockCountEn := false, dirRead := false
    dmaEn := false }

/-- The response words, as `efx_emmc_finish_command` reads them. -/
def readResponse (c : MmcCommand) (r : Fin 4 → UInt32) : MmcCommand :=
  if c.flags.present then
    if c.flags.rsp136 then
      let r3 := r 3 &&& 0xFFFFFF
      { c with resp := [r3 <<< 8 ||| r 2 >>> 24, r 2 <<< 8 ||| r 1 >>> 24, r 1 <<< 8 ||| r 0 >>> 24,
          r 0 <<< 8] }
    else { c with resp := r 0 :: c.resp.tail }
  else c

end MmcCommand

/-- `efx_emmc_need_stop_command`. -/
def needStopCommand (data : MmcData) (mrq : MmcRequest) : Bool :=
  decide (data.blocks > 1) && mrq.stop.isSome && mrq.sbc.isNone

/-- What `efx_emmc_finish_command` meets. -/
structure CommandEnv where
  resp : Fin 4 → UInt32
  present : PresentState
  pio : PioEnv
  send : SendEnv

/-- What one interrupt meets. -/
structure IrqEnv where
  command : CommandEnv
  pio : PioEnv
  /-- The stop command, when `efx_emmc_finish_data` sends one. -/
  stop : SendEnv

namespace Host

/-- Update a command of the request in progress. -/
def modifyCmd (h : Host) (slot : Slot) (f : MmcCommand → MmcCommand) : Host :=
  h.setMrq (h.mrq.map (·.modify slot f))

/-- `efx_emmc_set_timing_config`. -/
def setTimingConfig (h : Host) (sampleCount pllShift clkPort : ℕ) : Host :=
  let configValue := sampleCount <<< 16 ||| pllShift <<< 6 ||| (1 <<< clkPort) <<< 1
  ((h.writel .baseReg1 configValue).writel .baseReg1 (configValue ||| 1)).writel .baseReg1 configValue

/-- `efx_emmc_complete_pending_request`. -/
def completePendingRequest (h : Host) : Host :=
  match h.mrqDone with
  | none => h
  | some mrq => (h.setMrqDone none).emit (.requestDone mrq)

/-- `efx_emmc_finish_request(host, host->mrq)`; every caller checks `host->mrq` first. -/
def finishRequest (h : Host) : Host :=
  if h.mrq.isSome then
    let h :=
      match h.curData with
      | some data => h.cleanupDma data
      | none => h
    ((((h.setMrqDone h.mrq).setMrq none).setCmd none).setData false).setBytes 0 |>.setUseDma false
  else h

/-- The set-up of a command's data in `efx_emmc_send_command`. -/
def sendData (h : Host) (data : MmcData) (segs : List DmaSeg) : Host :=
  let h := (h.setUseDma (decide (data.size ≥ 512))).prepareDma data segs
  let h := h.writel .blockSize
    (data.blocks <<< EFX_EMMC_BLOCK_COUNT_SHIFT ||| (data.blksz &&& EFX_EMMC_BLOCK_SIZE_MASK))
  let h := if h.useDma then h else h.setBytes data.size
  h.setData true

/-- `efx_emmc_send_command(host, cmd)` for a command of `host->mrq`. Only the main
command carries data. -/
def sendCommand (h : Host) (slot : Slot) (env : SendEnv) : Host :=
  match h.mrq with
  | none => h
  | some m =>
    let cmd := m.get slot
    let data := if slot = .cmd then m.data else none
    let h := h.setCmd (some slot)
    let h :=
      if cmd.opcode = 6 ∧ cmd.switchIndex = 185 then
        (h.setTimingConfig 0 0 EMMC_BASE_CLK_CAL_PORT).writel .intStatus 0xFFFFFFFF
      else h
    if env.timedOut data.isSome then
      (h.modifyCmd slot fun c => { c with error := -ETIMEDOUT }).finishRequest
    else
      let h := h.writel .arg1 cmd.arg.toNat
      match data with
      | none => h.emit (.send m.id slot cmd.transferMode)
      | some data =>
        let h := h.sendData data env.segs
        h.emit (.send m.id slot
          { cmd.transferMode with
            dataPresent := true
            multiBlock := decide (data.blocks > 1)
            blockCountEn := decide (data.blocks > 1)
            dirRead := data.read
            dmaEn := h.useDma })

/-- `efx_emmc_finish_data`. -/
def finishData (h : Host) (env : SendEnv) : Host :=
  match h.mrq, h.curData with
  | some m, some data =>
    let h := h.modifyData fun d => { d with bytesXfered := if d.error = 0 then d.size else 0 }
    let h := h.cleanupDma data
    let h := (h.setData false).setBytes 0
    let h := h.emit (.dataDone m.id data.error)
    if needStopCommand data m ∧ data.error = 0 then (h.setCmd (some .stop)).sendCommand .stop env
    else h.finishRequest
  | _, _ => h

/-- What a completed CMD6 changes: the phase of the new mode. -/
def finishSwitch (h : Host) (cmd : MmcCommand) : Host :=
  if cmd.opcode = 6 ∧ cmd.error = 0 ∧ cmd.switchIndex = 185 then
    let h :=
      if cmd.switchValue = 0 ∨ cmd.switchValue = 1 then h.setTimingConfig 0 0 EMMC_BASE_CLK_CAL_PORT
      else if cmd.switchValue = 2 then h.setTimingConfig 2 2 EMMC_BASE_CLK_CAL_PORT
      else h
    h.writel .intStatus 0xFFFFFFFF
  else h

/-- `efx_emmc_finish_command`. -/
def finishCommand (h : Host) (env : CommandEnv) : Host :=
  match h.mrq, h.cmd with
  | some m, some slot =>
    let cmd := m.get slot
    let h := h.modifyCmd slot fun c => c.readResponse env.resp
    let h := h.finishSwitch cmd
    let h := h.emit (.cmdDone m.id slot cmd.error)
    if cmd.opcode = 23 then (h.setCmd (some .cmd)).sendCommand .cmd env.send
    else
      let h := h.setCmd none
      match h.curData with
      | none => h.finishRequest
      | some data =>
        if h.useDma then h
        else if data.read then if env.present.bufferReadEn then h.transferPio env.pio else h
        else if env.present.bufferWriteEn then h.transferPio env.pio else h
  | _, _ => h

/-- The opcodes that the handler lists as failing during card detection. -/
def expectedTimeout (opcode : ℕ) : Bool := opcode = 52 || opcode = 8 || opcode = 5 || opcode = 55

/-! The error branch of `efx_emmc_irq`, in its four parts. -/

def markAdma (h : Host) (st : IntStatus) : Host :=
  if st.admaError && h.data then h.modifyData fun d => { d with error := - EIO } else h

def markTuning (h : Host) (st : IntStatus) : Host :=
  if (h.curCmd.map fun c => expectedTimeout c.opcode).getD false then h
  else if h.tuningInProgress then
    if st.cmdCrcErr || st.dataCrcErr then h.setTuningCrcError.completeTuning else h
  else h

def markCommand (h : Host) (st : IntStatus) : Host :=
  match h.cmd with
  | none => h
  | some slot =>
    if st.cmdTimeoutErr then h.modifyCmd slot fun c => { c with error := -ETIMEDOUT }
    else if st.cmdCrcErr || st.cmdEndBitErr || st.cmdIndexErr then
      h.modifyCmd slot fun c => { c with error := -EILSEQ }
    else h

def markData (h : Host) (st : IntStatus) : Host :=
  if h.data then
    h.modifyData fun d =>
      let d := if st.dataTimeoutErr then { d with error := -ETIMEDOUT } else d
      let d := if st.dataCrcErr then { d with error := -EILSEQ } else d
      if st.dataEndBitErr then { d with error := -EILSEQ } else d
  else h

/-- The error branch. A CMD12 that times out ends the request before the data's
errors are recorded. -/
def irqError (h : Host) (st : IntStatus) : Host :=
  let h := (h.markAdma st).markTuning st
  let cmd12 := (h.curCmd.map fun c => decide (c.opcode = 12)).getD false
  let h := h.markCommand st
  if st.cmdTimeoutErr && cmd12 then (h.setCmd none).finishRequest
  else (h.markData st).finishRequest

/-- `CMD_COMPLETE`. -/
def irqCommand (h : Host) (st : IntStatus) (env : CommandEnv) : Host :=
  if st.cmdComplete then h.finishCommand env else h

/-- `BUFFER_READ_RDY` and `BUFFER_WRITE_RDY`: the transfer. -/
def irqPio (h : Host) (st : IntStatus) (env : PioEnv) : Host :=
  if !h.useDma && (st.bufferReadRdy || st.bufferWriteRdy) then h.transferPio env else h

/-- The same bits: the end of the data phase, when no byte is left. -/
def irqPioEnd (h : Host) (st : IntStatus) (env : SendEnv) : Host :=
  if !h.useDma && (st.bufferReadRdy || st.bufferWriteRdy) && h.data && h.bytesToTransfer == 0 then
    h.finishData env
  else h

/-- `XFER_COMPLETE`. -/
def irqXfer (h : Host) (st : IntStatus) (env : SendEnv) : Host :=
  if st.xferComplete then
    let h := if h.tuningInProgress then h.completeTuning else h
    h.finishData env
  else h

/-- The locked part of `efx_emmc_irq`. -/
def irqLocked (h : Host) (st : IntStatus) (env : IrqEnv) : Host :=
  if !st.any then h
  else
    let h := h.emit (.ack st)
    if st.error then h.irqError st
    else
      let h := h.irqCommand st env.command
      let h := (h.irqPio st env.pio).irqPioEnd st env.stop
      h.irqXfer st env.stop

/-- `efx_emmc_irq`, where nothing runs between its unlock and its last call. -/
def irq (h : Host) (st : IntStatus) (env : IrqEnv) : Host := (h.irqLocked st env).completePendingRequest

/-- The locked part of `efx_emmc_request`. -/
def requestLocked (h : Host) (mrq : MmcRequest) (env : SendEnv) : Host :=
  let h := h.setMrq (some mrq)
  if mrq.sbc.isSome then (h.setCmd (some .sbc)).sendCommand .sbc env
  else h.sendCommand .cmd env

/-- `efx_emmc_request`. Without a clock the request is done at once. -/
def request (h : Host) (mrq : MmcRequest) (env : SendEnv) : Host :=
  if !h.clk then h.emit (.requestDone { mrq with cmd := { mrq.cmd with error := -ENODEV } })
  else (h.requestLocked mrq env).completePendingRequest

end Host

end Br2Efinix.Emmc
