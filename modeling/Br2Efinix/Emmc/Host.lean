import Mathlib.Algebra.GroupWithZero.Nat
import Mathlib.Data.Int.Notation
import Mathlib.Data.List.Basic
import Mathlib.Data.Nat.Notation

/-!
# The eMMC driver's data

The kernel's request structures (`struct mmc_command`, `mmc_data`,
`mmc_request`, `scatterlist`) as far as the driver reads them, the controller's
registers and interrupt bits, and `struct efx_emmc_host`.

`host->cmd` and `host->data` always point into `host->mrq`, so a request is held
by value and the pointers are a `Slot` of it and a flag. What leaves the driver
(register writes, DMA mappings, completions) is recorded in `Host.log`.
-/

namespace Br2Efinix.Emmc

/-! ## Errors and limits -/

def EIO : ℤ := 5
def ENOMEM : ℤ := 12
def ENODEV : ℤ := 19
def EINVAL : ℤ := 22
def EILSEQ : ℤ := 84
def ETIMEDOUT : ℤ := 110

def EFX_ADMA_MAX_LEN : ℕ := 65536
def EFX_ADMA_TABLE_SZ : ℕ := 512 * 8
/-- `sizeof(struct efx_adma_desc)`. -/
def ADMA_DESC_SIZE : ℕ := 8
def EFX_EMMC_MAX_PLL_SHIFT : ℕ := 8
def EFX_EMMC_MAX_BLOCK_LENGTH : ℕ := 512
/-- `mmc->max_blk_count`, as the probe sets it. -/
def MAX_BLK_COUNT : ℕ := 65535
/-- The size of the bounce buffer that the probe allocates. -/
def BOUNCE_BUFFER_SIZE : ℕ := 512 * 1024

/-! ## Scatterlists and descriptors -/

/-- A mapped DMA segment. The probe sets a 32-bit DMA mask, so the mapping layer
hands out only segments that end within 32 bits. -/
structure DmaSeg where
  addr : ℕ
  len : ℕ
  fits : addr + len ≤ 2 ^ 32
  len_lt : len < 2 ^ 32

/-- `struct scatterlist`: the bytes at `sg_virt` (`sg->length` of them) and the
segment that `dma_map_sg` stored. -/
structure Scatterlist where
  virt : List UInt8
  dma : DmaSeg

namespace Scatterlist

def length (sg : Scatterlist) : ℕ := sg.virt.length
def dmaAddress (sg : Scatterlist) : ℕ := sg.dma.addr
def dmaLen (sg : Scatterlist) : ℕ := sg.dma.len

end Scatterlist

/-- The `EFX_ADMA_DESC_*` bits of a descriptor's `attr`. -/
structure AdmaAttr where
  valid : Bool
  endBit : Bool
  tran : Bool
  deriving DecidableEq, Repr

/-- `struct efx_adma_desc`: `u16 attr`, `u16 len`, `u32 addr`. -/
structure AdmaDesc where
  attr : AdmaAttr
  len : UInt16
  addr : UInt32
  deriving DecidableEq, Repr

/-! ## Requests -/

/-- The `MMC_RSP_*` flags of a command. -/
structure RspFlags where
  present : Bool
  rsp136 : Bool
  crc : Bool
  busy : Bool
  opcode : Bool
  deriving DecidableEq, Repr

structure MmcCommand where
  opcode : ℕ
  arg : UInt32
  flags : RspFlags
  resp : List UInt32
  error : ℤ

/-- `struct mmc_data`. The core refuses requests beyond the host's limits. -/
structure MmcData where
  blksz : ℕ
  blocks : ℕ
  read : Bool
  sg : List Scatterlist
  sgLen : ℕ
  bytesXfered : ℕ
  error : ℤ
  blksz_le : blksz ≤ EFX_EMMC_MAX_BLOCK_LENGTH
  blocks_le : blocks ≤ MAX_BLK_COUNT

namespace MmcData

def size (d : MmcData) : ℕ := d.blksz * d.blocks

/-- A block of 512 bytes is within the limits. -/
theorem sector_le : 512 ≤ EFX_EMMC_MAX_BLOCK_LENGTH := by decide

theorem one_block_le : 1 ≤ MAX_BLK_COUNT := by decide

/-- The entries that `for_each_sg(data->sg, sg, data->sg_len, i)` visits. -/
def entries (d : MmcData) : List Scatterlist := d.sg.take d.sgLen

end MmcData

inductive Slot
  | sbc
  | cmd
  | stop
  deriving DecidableEq, Repr

/-- `struct mmc_request`. Only the main command carries data (`cmd->data` is
`mrq->data`), and `data->stop` is `mrq->stop`. -/
structure MmcRequest where
  id : ℕ
  sbc : Option MmcCommand
  cmd : MmcCommand
  data : Option MmcData
  stop : Option MmcCommand

namespace MmcRequest

/-- The command a pointer denotes. Without an `sbc` or a `stop` there is no such pointer. -/
def get (m : MmcRequest) : Slot → MmcCommand
  | .sbc => m.sbc.getD m.cmd
  | .cmd => m.cmd
  | .stop => m.stop.getD m.cmd

def modify (m : MmcRequest) (slot : Slot) (f : MmcCommand → MmcCommand) : MmcRequest :=
  match slot with
  | .sbc => { m with sbc := m.sbc.map f }
  | .cmd => { m with cmd := f m.cmd }
  | .stop => { m with stop := m.stop.map f }

def modifyData (m : MmcRequest) (f : MmcData → MmcData) : MmcRequest :=
  { m with data := m.data.map f }

end MmcRequest

/-! ## Registers and interrupts -/

/-- The registers the driver writes besides `EFX_EMMC_TRANSFER_MODE`. -/
inductive Reg
  | arg1
  | blockSize
  | baseReg1
  | intStatus
  | admaSysAddrLow
  | admaSysAddrHigh
  | bufferDataPort
  deriving DecidableEq, Repr

inductive RespType
  | none
  | r136
  | r48
  | r48Busy
  deriving DecidableEq, Repr

/-- The value of `EFX_EMMC_TRANSFER_MODE`, by fields. -/
structure TransferMode where
  index : ℕ
  respType : RespType
  crcCheck : Bool
  indexCheck : Bool
  dataPresent : Bool
  multiBlock : Bool
  blockCountEn : Bool
  dirRead : Bool
  dmaEn : Bool
  deriving DecidableEq, Repr

/-- `EFX_EMMC_INT_STATUS`, by bits; `other` stands for the bits no handler looks at. -/
structure IntStatus where
  cmdComplete : Bool := false
  xferComplete : Bool := false
  bufferWriteRdy : Bool := false
  bufferReadRdy : Bool := false
  cmdTimeoutErr : Bool := false
  cmdCrcErr : Bool := false
  cmdEndBitErr : Bool := false
  cmdIndexErr : Bool := false
  dataEndBitErr : Bool := false
  dataCrcErr : Bool := false
  dataTimeoutErr : Bool := false
  admaError : Bool := false
  other : Bool := false
  deriving DecidableEq, Repr

def IntStatus.error (st : IntStatus) : Bool :=
  st.admaError || st.dataTimeoutErr || st.dataCrcErr || st.dataEndBitErr || st.cmdIndexErr ||
    st.cmdEndBitErr || st.cmdCrcErr || st.cmdTimeoutErr

def IntStatus.any (st : IntStatus) : Bool :=
  st.error || st.cmdComplete || st.xferComplete || st.bufferWriteRdy || st.bufferReadRdy || st.other

/-- The bits of `EFX_EMMC_PRESENT_STATE` that the driver tests. -/
structure PresentState where
  bufferReadEn : Bool := false
  bufferWriteEn : Bool := false
  cmdInhibitDat : Bool := false
  cmdInhibitCmd : Bool := false
  deriving DecidableEq, Repr

/-! ## The host -/

/-- What leaves the driver, and two points its run passes. -/
inductive Ev
  /-- A register write. -/
  | writel (reg : Reg) (val : ℕ)
  /-- The status written back to `EFX_EMMC_INT_STATUS`. -/
  | ack (st : IntStatus)
  /-- The write of `EFX_EMMC_TRANSFER_MODE` that sends a command of a request. -/
  | send (id : ℕ) (slot : Slot) (word : TransferMode)
  /-- Words moved through the data port for a request. -/
  | pio (id : ℕ) (words : List UInt32)
  /-- A successful `dma_map_sg`, and `dma_unmap_sg`. -/
  | mapSg (id : ℕ)
  | unmapSg (id : ℕ)
  /-- A command's completion is handled, with the command's error. -/
  | cmdDone (id : ℕ) (slot : Slot) (error : ℤ)
  /-- A data phase is finished, with the data's error. -/
  | dataDone (id : ℕ) (error : ℤ)
  /-- The request as handed to `mmc_request_done`. -/
  | requestDone (mrq : MmcRequest)

/-- `mmc->ios.timing`. -/
inductive Timing
  | legacy
  | mmcHs
  | mmcDdr52
  | mmcHs200
  | mmcHs400
  | other (code : ℕ)
  deriving DecidableEq, Repr

/-- A stored tuning result (`hs200_*`, `hs400_*`). -/
structure TuningPoint where
  sampleCount : ℕ
  pllShift : ℕ
  margin : ℕ
  deriving DecidableEq, Repr

/-- `struct efx_emmc_host`. The descriptor table and the bounce buffer are memory
from their first entry on, so that a write past their end would show. -/
structure Host where
  clk : Bool
  mrq : Option MmcRequest
  mrqDone : Option MmcRequest
  cmd : Option Slot
  data : Bool
  bytesToTransfer : ℕ
  blocksDone : ℕ
  sgOffset : ℕ
  admaDesc : ℕ → AdmaDesc
  admaDescDma : ℕ
  bounceBuffer : Option (ℕ → UInt8)
  bounceDma : DmaSeg
  bounceUsed : ℕ
  bounceActive : Bool
  useDma : Bool
  timing : Timing
  tuningFirstHalfSample : Bool
  tuningResultSelectionEdge : Bool
  hs200 : TuningPoint
  hs400 : TuningPoint
  tuningInProgress : Bool
  tuningCrcError : Bool
  tuningComplete : ℕ
  log : List Ev

namespace Host

/-- `host->bounce_buffer_size`: the probe allocates the buffer and maps it at once. -/
def bounceBufferSize (h : Host) : ℕ := h.bounceDma.len

/-- The bounce buffer has room at the bottom of the memory. -/
theorem bounceBuffer_fits : 0 + BOUNCE_BUFFER_SIZE ≤ 2 ^ 32 := by decide

/-- The host as `efx_emmc_probe` leaves it, without tuning options; `addr` is the
bus address of the bounce buffer. -/
def probed (addr : ℕ) (hfits : addr + BOUNCE_BUFFER_SIZE ≤ 2 ^ 32) : Host :=
  { clk := true, mrq := none, mrqDone := none, cmd := none, data := false, bytesToTransfer := 0,
    blocksDone := 0, sgOffset := 0,
    admaDesc := fun _ => ⟨⟨false, false, false⟩, 0, 0⟩, admaDescDma := 0,
    bounceBuffer := some fun _ => 0, bounceDma := ⟨addr, BOUNCE_BUFFER_SIZE, hfits, by decide⟩,
    bounceUsed := 0, bounceActive := false, useDma := false, timing := .legacy, tuningFirstHalfSample := false,
    tuningResultSelectionEdge := false, hs200 := ⟨0, 0, 0⟩, hs400 := ⟨0, 0, 0⟩,
    tuningInProgress := false, tuningCrcError := false, tuningComplete := 0, log := [] }

/-- The command `host->cmd` points to. -/
def curCmd (h : Host) : Option MmcCommand :=
  match h.mrq, h.cmd with
  | some m, some slot => some (m.get slot)
  | _, _ => none

/-- The data `host->data` points to. -/
def curData (h : Host) : Option MmcData :=
  if h.data then h.mrq.bind (·.data) else none

def curId (h : Host) : Option ℕ := h.mrq.map (·.id)

/-! Assignments of the fields that requests run on. -/

def setMrq (h : Host) (mrq : Option MmcRequest) : Host := { h with mrq := mrq }
def setMrqDone (h : Host) (mrq : Option MmcRequest) : Host := { h with mrqDone := mrq }
def setCmd (h : Host) (cmd : Option Slot) : Host := { h with cmd := cmd }
def setData (h : Host) (data : Bool) : Host := { h with data := data }
def setUseDma (h : Host) (useDma : Bool) : Host := { h with useDma := useDma }
/-- `bytes_to_transfer`, with `blocks_done` and `sg_offset` back at 0. -/
def setBytes (h : Host) (bytes : ℕ) : Host :=
  { h with bytesToTransfer := bytes, blocksDone := 0, sgOffset := 0 }
/-- `complete(&host->tuning_complete)`. -/
def completeTuning (h : Host) : Host := { h with tuningComplete := h.tuningComplete + 1 }
def setTuningCrcError (h : Host) : Host := { h with tuningCrcError := true }

/-- Record an event. The log is latest first. -/
def emit (h : Host) (e : Ev) : Host := { h with log := e :: h.log }

def writel (h : Host) (reg : Reg) (val : ℕ) : Host := h.emit (.writel reg val)

end Host

end Br2Efinix.Emmc
