import Mathlib.Algebra.GroupWithZero.Nat

/-!
# A command of the U-Boot SD host

`efx_sdhost_send_cmd` polls the controller three times and ignores what the polls return, its block
loop reads the whole transfer in each round, and `efx_sdhost_write_block_pio` is empty.

* `send_cmd_iff`: a command that returns 0 is done exactly when the controller answers so that every
  poll finds what it waits for without an error, and the data is read in one round.
* `never_busy`: a busy command line is never reported.
* `write_moves_nothing`: no word of a write reaches the data port.
-/

namespace Br2Efinix.SdHost

/-! ## Registers -/

def EFX_SDHCI_BLOCKS : ℕ := 0x104
def EFX_SDHCI_ARG1 : ℕ := 0x108
def EFX_SDHCI_TRANS_CMD : ℕ := 0x10c
def EFX_SDHCI_NORMAL_INT : ℕ := 0x130
def EFX_SDHCI_NORMAL_INT_EN : ℕ := 0x134

def EFX_SDHCI_CMD_CRC : BitVec 32 := 0x08#32
def EFX_SDHCI_CMD_INDEX : BitVec 32 := 0x10#32
def EFX_SDHCI_CMD_DATA : BitVec 32 := 0x20#32

def EFX_SDHCI_CMD_RESP_NONE : BitVec 32 := 0x0#32
def EFX_SDHCI_CMD_RESP_LONG : BitVec 32 := 0x1#32
def EFX_SDHCI_CMD_RESP_SHORT : BitVec 32 := 0x2#32
def EFX_SDHCI_CMD_RESP_SHORT_BUSY : BitVec 32 := 0x3#32

def EFX_SDHCI_READ_TRANSFER : BitVec 16 := 0x10#16
def EFX_SDHCI_TRNS_AUTO_CMD12 : BitVec 32 := 0x04#32
def EFX_SDHCI_TRNS_AUTO_CMD23 : BitVec 32 := 0x08#32

def EFX_SDHCI_DATA_AVAILABLE : BitVec 32 := 0x00000800#32
def EFX_SDHCI_SPACE_AVAILABLE : BitVec 32 := 0x00000400#32

def EFX_SDHCI_INT_SPACE_AVAIL : BitVec 32 := 0x00000010#32
def EFX_SDHCI_INT_DATA_AVAIL : BitVec 32 := 0x00000020#32
def EFX_SDHCI_INT_DATA_MASK : BitVec 32 := EFX_SDHCI_INT_SPACE_AVAIL ||| EFX_SDHCI_INT_DATA_AVAIL

/-- What the driver enables in the interrupt registers: the upper half are the errors. -/
def interrupts : BitVec 32 := 0xff0073#32
def errors : BitVec 32 := interrupts &&& 0xffff0000#32

/-! ## Commands -/

def MMC_RSP_PRESENT : BitVec 32 := 1#32
def MMC_RSP_136 : BitVec 32 := 2#32
def MMC_RSP_BUSY : BitVec 32 := 8#32
def MMC_DATA_READ : BitVec 32 := 1#32
def MMC_DATA_WRITE : BitVec 32 := 2#32

def MMC_CMD_ALL_SEND_CID : BitVec 16 := 2#16
def MMC_CMD_SEND_CSD : BitVec 16 := 9#16
def SD_CMD_APP_SD_STATUS : BitVec 16 := 13#16
def MMC_CMD_READ_SINGLE_BLOCK : BitVec 16 := 17#16
def MMC_CMD_READ_MULTIPLE_BLOCK : BitVec 16 := 18#16
def MMC_CMD_SEND_TUNING_BLOCK : BitVec 16 := 19#16
def MMC_CMD_WRITE_SINGLE_BLOCK : BitVec 16 := 24#16
def MMC_CMD_WRITE_MULTIPLE_BLOCK : BitVec 16 := 25#16
def SD_CMD_APP_SEND_OP_COND : BitVec 16 := 41#16
def SD_CMD_APP_SEND_SCR : BitVec 16 := 51#16

def EBUSY : ℤ := 16
def EINVAL : ℤ := 22
def ETIMEDOUT : ℤ := 110

/-- `value & mask` as a condition. -/
def hasBits (mask value : BitVec 32) : Bool := value &&& mask != 0#32

/-- `struct mmc_cmd`, the response apart. -/
structure MmcCmd where
  cmdidx : BitVec 16
  respType : BitVec 32
  cmdarg : BitVec 32
  deriving DecidableEq, Repr

/-- `struct mmc_data`; `src` are the words of the caller's buffer. -/
structure MmcData where
  flags : BitVec 32
  blocks : BitVec 32
  blocksize : BitVec 32
  src : ℕ → BitVec 32

namespace MmcData

def isRead (d : MmcData) : Bool := hasBits MMC_DATA_READ d.flags

def bytes (d : MmcData) : ℕ := d.blocks.toNat * d.blocksize.toNat

/-- The words that `efx_sdhost_read_block_pio` reads. -/
def words (d : MmcData) : ℕ := d.blocks.toNat * (d.blocksize.toNat / 4)

end MmcData

/-! ## The controller -/

/-- What one `readl_poll_timeout` reads: it ends with the first value that meets the condition, or when
the time is up. -/
structure Poll (cond : BitVec 32 → Bool) where
  missed : List (BitVec 32)
  last : BitVec 32
  missed_of : ∀ v ∈ missed, cond v = false

variable {cond : BitVec 32 → Bool}

def Poll.values (p : Poll cond) : List (BitVec 32) := p.missed ++ [p.last]

/-- What `readl_poll_timeout` returns. -/
def Poll.ret (p : Poll cond) : ℤ := if cond p.last then 0 else -ETIMEDOUT

/-- The command line register says that no command is out. -/
def lineFree (value : BitVec 32) : Bool := value &&& 0x1#32 == 0#32

/-- What the registers return during a command: `present` and `port` each time they are read, and the four
response registers. -/
structure Answers where
  line : Poll lineFree
  cmdComplete : Poll (hasBits 0x1#32)
  data : Poll (hasBits EFX_SDHCI_INT_DATA_MASK)
  transferStatus : BitVec 32
  transferComplete : Poll (hasBits 0x2#32)
  present : List (BitVec 32)
  port : List (BitVec 32)
  transCmd : BitVec 32
  rsp : ℕ → BitVec 32

/-- What a command has done so far, with the answers that are left. Only observed are `sentLine`, the value
of the command line register when the command was sent, `status`, what `EFX_SDHCI_NORMAL_INT` returned
since, `sinceData`, the same since the data port was last used, and the words read from and written to
the data port. -/
structure Io where
  present : List (BitVec 32)
  port : List (BitVec 32)
  writes : List (ℕ × BitVec 32)
  response : List (BitVec 32)
  buf : List (ℕ × BitVec 32)
  line : Option (BitVec 32)
  sentLine : Option (BitVec 32)
  status : List (BitVec 32)
  sinceData : List (BitVec 32)
  read : List (BitVec 32)
  written : List (BitVec 32)
  deriving DecidableEq, Repr

namespace Io

def start (a : Answers) : Io :=
  { present := a.present, port := a.port, writes := [], response := [], buf := [], line := none,
    sentLine := none, status := [], sinceData := [], read := [], written := [] }

def writel (s : Io) (value : BitVec 32) (reg : ℕ) : Io := { s with writes := s.writes ++ [(reg, value)] }

def readStatus (s : Io) (values : List (BitVec 32)) : Io :=
  { s with status := s.status ++ values, sinceData := s.sinceData ++ values }

def readPresent (s : Io) : Option (BitVec 32 × Io) :=
  match s.present with
  | [] => none
  | value :: rest => some (value, { s with present := rest })

def readPort (s : Io) : Option (BitVec 32 × Io) :=
  match s.port with
  | [] => none
  | value :: rest => some (value, { s with port := rest, read := s.read ++ [value], sinceData := [] })

/-- `memcpy` of a word into the buffer. -/
def store (s : Io) (offset : ℕ) (value : BitVec 32) : Io := { s with buf := s.buf ++ [(offset, value)] }

/-- The write of `EFX_SDHCI_TRANS_CMD`, with which the command is sent. -/
def send (s : Io) (sdcmd : BitVec 32) : Io :=
  { s.writel sdcmd EFX_SDHCI_TRANS_CMD with sentLine := s.line, status := [], sinceData := [] }

end Io

/-! ## The waits -/

/-- `efx_sdhost_read_wait_sdcmd`. -/
def readWaitSdcmd (p : Poll lineFree) (s : Io) : BitVec 32 × Io :=
  (if p.ret = -ETIMEDOUT then BitVec.ofInt 32 p.ret else p.last, { s with line := some p.last })

/-- A wait for a bit of the interrupt status, which is then cleared with `clear value`. -/
def waitStatus (clear : BitVec 32 → BitVec 32) (p : Poll cond) (s : Io) : BitVec 32 × Io :=
  let s := s.readStatus p.values
  if p.ret = -ETIMEDOUT then (BitVec.ofInt 32 (-ETIMEDOUT), s)
  else (p.last, s.writel (clear p.last) EFX_SDHCI_NORMAL_INT)

/-- `efx_sdhost_wait_sdcmd_complete`. -/
def waitSdcmdComplete (p : Poll (hasBits 0x1#32)) (s : Io) : BitVec 32 × Io := waitStatus (fun _ => 0x1#32) p s

/-- `efx_sdhost_wait_data`. -/
def waitData (p : Poll (hasBits EFX_SDHCI_INT_DATA_MASK)) (s : Io) : BitVec 32 × Io :=
  waitStatus (fun value => value) p s

/-- `efx_sdhost_wait_transfer_complete`. -/
def waitTransferComplete (p : Poll (hasBits 0x2#32)) (s : Io) : BitVec 32 × Io :=
  waitStatus (fun _ => 0x2#32) p s

/-! ## The transfer -/

/-- `__be32_to_cpu` on a little-endian processor. -/
def be32ToCpu (value : BitVec 32) : BitVec 32 :=
  ((value &&& 0xff#32) <<< 24) ||| ((value &&& 0xff00#32) <<< 8) |||
    ((value >>> 8) &&& 0xff00#32) ||| ((value >>> 24) &&& 0xff#32)

/-- How a word of the data port is stored; ACMD51 is a special case. -/
def MmcCmd.toCpu (cmd : MmcCmd) (value : BitVec 32) : BitVec 32 :=
  if cmd.cmdidx = SD_CMD_APP_SEND_SCR then be32ToCpu value else value

/-- The busy loop for a block: the values of `EFX_SDHCI_PRESENT` that are left after it. -/
def skip : List (BitVec 32) → Option (List (BitVec 32))
  | [] => none
  | value :: rest => if value &&& EFX_SDHCI_DATA_AVAILABLE ≠ 0x800#32 then skip rest else some rest

/-- The loop over the words of a block, from `buf` on. -/
def readWords (cmd : MmcCmd) : ℕ → ℕ → Io → Option Io
  | 0, _, s => some s
  | n + 1, buf, s =>
    match s.readPort with
    | none => none
    | some (value, s) => readWords cmd n (buf + 4) (s.store buf (cmd.toCpu value))

/-- The loop over the blocks. -/
def readBlocks (cmd : MmcCmd) (words : ℕ) : ℕ → ℕ → Io → Option Io
  | 0, _, s => some s
  | blks + 1, buf, s =>
    match skip s.present with
    | none => none
    | some rest =>
      match readWords cmd words buf { s with present := rest } with
      | none => none
      | some s => readBlocks cmd words blks (buf + 4 * words) s

/-- `efx_sdhost_read_block_pio`. -/
def readBlockPio (cmd : MmcCmd) (d : MmcData) (s : Io) : Option Io :=
  (readBlocks cmd (d.blocksize.toNat / 4) d.blocks.toNat 0 s).map fun s => s.writel 0x20#32 EFX_SDHCI_NORMAL_INT

/-- `efx_sdhost_write_block_pio`. -/
def writeBlockPio (s : Io) : Option Io := some s

/-- The mask of `efx_sdhost_transfer_pio`. -/
def MmcData.mask (d : MmcData) : BitVec 32 :=
  if d.isRead then EFX_SDHCI_DATA_AVAILABLE else EFX_SDHCI_SPACE_AVAILABLE

/-- The loop of `efx_sdhost_transfer_pio`: the next round leaves `blocks` in `host->blocks`. -/
def pioLoop (cmd : MmcCmd) (d : MmcData) (blocks : ℕ) (s : Io) : Option Io :=
  match s.readPresent with
  | none => none
  | some (value, s) =>
    if hasBits d.mask value then
      match s.readPresent with
      | none => none
      | some (_, s) =>
        match if d.isRead then readBlockPio cmd d s else writeBlockPio s with
        | none => none
        | some s =>
          match blocks with
          | 0 => some s
          | blocks + 1 => pioLoop cmd d blocks s
    else some s

/-- `efx_sdhost_transfer_pio`; `host->blocks` is unsigned, so from 0 it goes down to the greatest number. -/
def transferPio (a : Answers) (cmd : MmcCmd) (d : MmcData) (s : Io) : Option Io :=
  match s.readPresent with
  | none => none
  | some (_, s) =>
    (pioLoop cmd d (d.blocks - 1#32).toNat s).map fun s =>
      (waitTransferComplete a.transferComplete (s.readStatus [a.transferStatus])).2

/-! ## The command -/

/-- `efx_sdhost_prepare_data`. -/
def prepareData (data : Option MmcData) (s : Io) : Io :=
  match data with
  | none => s
  | some d => s.writel ((d.blocks <<< 16) ||| d.blocksize) EFX_SDHCI_BLOCKS

/-- The variable `flags`. -/
def MmcCmd.flags (cmd : MmcCmd) : BitVec 32 :=
  let flags :=
    if hasBits MMC_RSP_PRESENT cmd.respType then
      if hasBits MMC_RSP_136 cmd.respType then EFX_SDHCI_CMD_RESP_LONG
      else if hasBits MMC_RSP_BUSY cmd.respType then EFX_SDHCI_CMD_RESP_SHORT_BUSY
      else EFX_SDHCI_CMD_RESP_SHORT
    else EFX_SDHCI_CMD_RESP_NONE
  let flags :=
    if cmd.cmdidx ∈ [SD_CMD_APP_SEND_SCR, MMC_CMD_READ_SINGLE_BLOCK, MMC_CMD_READ_MULTIPLE_BLOCK,
        MMC_CMD_SEND_TUNING_BLOCK, MMC_CMD_WRITE_SINGLE_BLOCK, MMC_CMD_WRITE_MULTIPLE_BLOCK,
        SD_CMD_APP_SD_STATUS] then
      flags ||| EFX_SDHCI_CMD_DATA
    else flags
  let flags := flags ||| (EFX_SDHCI_CMD_CRC ||| EFX_SDHCI_CMD_INDEX)
  let flags :=
    if cmd.cmdidx = SD_CMD_APP_SEND_OP_COND then flags &&& ~~~(EFX_SDHCI_CMD_CRC ||| EFX_SDHCI_CMD_INDEX)
    else flags
  if cmd.cmdidx = MMC_CMD_ALL_SEND_CID ∨ cmd.cmdidx = MMC_CMD_SEND_CSD then flags &&& ~~~EFX_SDHCI_CMD_INDEX
  else flags

/-- The variable `mode`, which the source does not initialise. -/
def transferMode (mode : BitVec 16) (data : Option MmcData) (transCmd : BitVec 32) : BitVec 16 :=
  match data with
  | some d =>
    let mode := if hasBits MMC_DATA_WRITE d.flags then mode &&& ~~~EFX_SDHCI_READ_TRANSFER else mode
    if hasBits MMC_DATA_READ d.flags then mode ||| EFX_SDHCI_READ_TRANSFER else mode
  | none =>
    let value := transCmd &&& 0xffff#32
    mode ||| (value &&& ~~~(EFX_SDHCI_TRNS_AUTO_CMD12 ||| EFX_SDHCI_TRNS_AUTO_CMD23)).setWidth 16

def sdcmd (cmd : MmcCmd) (mode : BitVec 16) : BitVec 32 :=
  ((cmd.cmdidx.setWidth 32 &&& 0x3f#32) <<< 24) ||| (cmd.flags <<< 16) ||| mode.setWidth 32

def readResponse (cmd : MmcCmd) (rsp : ℕ → BitVec 32) (s : Io) : Io :=
  if hasBits MMC_RSP_PRESENT cmd.respType then
    if hasBits MMC_RSP_136 cmd.respType then { s with response := [rsp 0, rsp 1, rsp 2, rsp 3] }
    else { s with response := [rsp 0] }
  else s

/-- A long response with busy, which the driver refuses. -/
def MmcCmd.unsupported (cmd : MmcCmd) : Bool :=
  hasBits MMC_RSP_136 cmd.respType && hasBits MMC_RSP_BUSY cmd.respType

/-- `efx_sdhost_send_cmd` up to the transfer. -/
def issue (a : Answers) (mode : BitVec 16) (cmd : MmcCmd) (data : Option MmcData) (s : Io) : Io :=
  let s := (s.writel interrupts EFX_SDHCI_NORMAL_INT_EN).writel interrupts 0x138
  let s := (prepareData data s).writel cmd.cmdarg EFX_SDHCI_ARG1
  let s := s.send (sdcmd cmd (transferMode mode data a.transCmd))
  readResponse cmd a.rsp (waitSdcmdComplete a.cmdComplete s).2

/-- `efx_sdhost_send_cmd`: what it returns, unless it waits for more than the registers answer. -/
def sendCmd (a : Answers) (mode : BitVec 16) (cmd : MmcCmd) (data : Option MmcData) : Option (ℤ × Io) :=
  if cmd.unsupported then some (-EINVAL, Io.start a)
  else
    let p := readWaitSdcmd a.line (Io.start a)
    if hasBits 0x1#32 p.1 then some (-EBUSY, p.2)
    else
      let s := issue a mode cmd data p.2
      match data with
      | none => some (0, s)
      | some d => (transferPio a cmd d (waitData a.data s).2).map fun s => (0, s)

/-! ## The property -/

/-- All bytes of the transfer went between the data port and the buffer, each word once, and then the
transfer was complete. -/
structure Moved (cmd : MmcCmd) (d : MmcData) (s : Io) : Prop where
  read : d.isRead = true → 4 * s.read.length = d.bytes ∧
    s.buf = s.read.mapIdx fun i value => (4 * i, cmd.toCpu value)
  written : d.isRead = false → 4 * s.written.length = d.bytes ∧
    s.written = (List.range s.written.length).map d.src
  complete : ∃ value ∈ s.sinceData, hasBits 0x2#32 value = true

/-- The command was done. -/
structure Done (cmd : MmcCmd) (data : Option MmcData) (s : Io) : Prop where
  idle : ∃ value, s.sentLine = some value ∧ lineFree value = true
  complete : ∃ value ∈ s.status, hasBits 0x1#32 value = true
  clean : ∀ value ∈ s.status, hasBits errors value = false
  moved : ∀ d ∈ data, Moved cmd d s

/-! ## What the controller has to answer -/

/-- The values that the interrupt status returns. -/
def Answers.statuses (a : Answers) (data : Option MmcData) : List (BitVec 32) :=
  a.cmdComplete.values ++
    match data with
    | none => []
    | some _ => a.data.values ++ a.transferStatus :: a.transferComplete.values

/-- The values of `EFX_SDHCI_PRESENT` that are left when a word of each block is awaited. -/
def skipBlocks : ℕ → List (BitVec 32) → Option (List (BitVec 32))
  | 0, l => some l
  | blks + 1, l => (skip l).bind (skipBlocks blks)

/-- Data is available at the first check of the loop, and there is no second check or it finds none. -/
def oneRound (blocks : ℕ) : List (BitVec 32) → Bool
  | _ :: first :: _ :: rest =>
    hasBits EFX_SDHCI_DATA_AVAILABLE first &&
      (blocks == 1 ||
        match skipBlocks blocks rest with
        | some (second :: _) => !hasBits EFX_SDHCI_DATA_AVAILABLE second
        | _ => false)
  | _ => false

/-- The answers with which the bytes of a transfer are moved. -/
def Answers.Moves (a : Answers) (d : MmcData) : Prop :=
  (d.bytes = 0 ∧ ∃ value ∈ a.statuses (some d), hasBits 0x2#32 value = true) ∨
  (d.isRead = true ∧ 4 ∣ d.blocksize.toNat ∧ oneRound d.blocks.toNat a.present = true ∧
    (hasBits 0x2#32 a.transferStatus = true ∨ hasBits 0x2#32 a.transferComplete.last = true))

/-- The answers with which a command is done. -/
structure Answered (a : Answers) (data : Option MmcData) : Prop where
  idle : lineFree a.line.last = true
  complete : ∃ value ∈ a.statuses data, hasBits 0x1#32 value = true
  clean : ∀ value ∈ a.statuses data, hasBits errors value = false
  moved : ∀ d ∈ data, a.Moves d

variable {a : Answers} {mode : BitVec 16} {cmd : MmcCmd} {data : Option MmcData} {d : MmcData} {s s' t : Io}
  {ret : ℤ}

/-! ## The polls -/

/-- Some value of a poll meets the condition when the last one does. -/
theorem Poll.exists_iff (p : Poll cond) : (∃ value ∈ p.values, cond value = true) ↔ cond p.last = true := by
  constructor
  · rintro ⟨value, hmem, hcond⟩
    rcases List.mem_append.1 hmem with hmissed | hlast
    · rw [p.missed_of value hmissed] at hcond
      exact absurd hcond (by decide)
    · rw [List.mem_singleton.1 hlast] at hcond
      exact hcond
  · intro hcond
    exact ⟨p.last, List.mem_append_right _ (List.mem_singleton_self _), hcond⟩

/-- **A busy line is never reported**: after a timeout the value is an error number, whose bit 0 is clear. -/
theorem never_busy (p : Poll lineFree) (s : Io) : hasBits 0x1#32 (readWaitSdcmd p s).1 = false := by
  unfold readWaitSdcmd Poll.ret
  by_cases hfree : lineFree p.last = true
  · have hval : hasBits 0x1#32 p.last = false := by
      unfold lineFree at hfree
      unfold hasBits
      simp only [beq_iff_eq] at hfree
      simp [hfree]
    simp only [hfree, if_true]
    exact hval
  · rw [if_neg hfree, if_pos rfl]
    show hasBits 0x1#32 (BitVec.ofInt 32 (-ETIMEDOUT)) = false
    decide

/-- `s'` is `s` after the interrupt status returned `values`, and nothing was moved. -/
structure Looked (s : Io) (values : List (BitVec 32)) (s' : Io) : Prop where
  present : s'.present = s.present
  buf : s'.buf = s.buf
  sentLine : s'.sentLine = s.sentLine
  status : s'.status = s.status ++ values
  sinceData : s'.sinceData = s.sinceData ++ values
  read : s'.read = s.read
  written : s'.written = s.written

theorem Looked.trans {vs ws : List (BitVec 32)} (h : Looked s vs t) (h' : Looked t ws s') :
    Looked s (vs ++ ws) s' :=
  { present := h'.present.trans h.present
    buf := h'.buf.trans h.buf
    sentLine := h'.sentLine.trans h.sentLine
    status := by rw [h'.status, h.status, List.append_assoc]
    sinceData := by rw [h'.sinceData, h.sinceData, List.append_assoc]
    read := h'.read.trans h.read
    written := h'.written.trans h.written }

theorem readStatus_looked (s : Io) (values : List (BitVec 32)) : Looked s values (s.readStatus values) :=
  ⟨rfl, rfl, rfl, rfl, rfl, rfl, rfl⟩

theorem waitStatus_looked (clear : BitVec 32 → BitVec 32) (p : Poll cond) (s : Io) :
    Looked s p.values (waitStatus clear p s).2 := by
  unfold waitStatus
  simp only
  split
  · exact readStatus_looked s p.values
  · exact ⟨rfl, rfl, rfl, rfl, rfl, rfl, rfl⟩

/-! ## Reading -/

/-- `s'` is `s` after `words` were read from the data port and stored from `buf` on. -/
structure Took (cmd : MmcCmd) (buf : ℕ) (s : Io) (words : List (BitVec 32)) (s' : Io) : Prop where
  read : s'.read = s.read ++ words
  buf : s'.buf = s.buf ++ words.mapIdx fun i value => (buf + 4 * i, cmd.toCpu value)
  sinceData : s'.sinceData = if words = [] then s.sinceData else []
  sentLine : s'.sentLine = s.sentLine
  status : s'.status = s.status

theorem Took.refl (buf : ℕ) (s : Io) : Took cmd buf s [] s := by
  refine ⟨?_, ?_, ?_, rfl, rfl⟩ <;> simp

theorem Took.trans {buf : ℕ} {vs ws : List (BitVec 32)} (h : Took cmd buf s vs t)
    (h' : Took cmd (buf + 4 * vs.length) t ws s') : Took cmd buf s (vs ++ ws) s' := by
  refine ⟨?_, ?_, ?_, h'.sentLine.trans h.sentLine, h'.status.trans h.status⟩
  · rw [h'.read, h.read, List.append_assoc]
  · rw [h'.buf, h.buf, List.append_assoc, List.mapIdx_append]
    have hoffset : ∀ i, buf + 4 * vs.length + 4 * i = buf + 4 * (i + vs.length) := by
      intro i
      omega
    simp only [hoffset]
  · rw [h'.sinceData, h.sinceData]
    by_cases hvs : vs = [] <;> by_cases hws : ws = [] <;> simp [hvs, hws]

theorem readWords_took {n buf : ℕ} (h : readWords cmd n buf s = some s') :
    ∃ words, words.length = n ∧ Took cmd buf s words s' ∧ s'.present = s.present := by
  induction n generalizing buf s with
  | zero =>
    obtain rfl := Option.some.inj h
    exact ⟨[], rfl, .refl buf _, rfl⟩
  | succ n ih =>
    unfold readWords Io.readPort at h
    cases hport : s.port with
    | nil =>
      rw [hport] at h
      exact absurd h (by simp)
    | cons value rest =>
      rw [hport] at h
      obtain ⟨words, hlen, htook, hpresent⟩ := ih h
      have hfirst : Took cmd buf s [value] (({ s with
          port := rest, read := s.read ++ [value], sinceData := [] } : Io).store buf (cmd.toCpu value)) := by
        refine ⟨rfl, ?_, rfl, rfl, rfl⟩
        simp [Io.store]
      exact ⟨value :: words, by simp [hlen], hfirst.trans htook, hpresent⟩

/-- The blocks take their words in order, and `EFX_SDHCI_PRESENT` is read as often as `skipBlocks` says. -/
theorem readBlocks_took {n blks buf : ℕ} (h : readBlocks cmd n blks buf s = some s') :
    ∃ words, words.length = blks * n ∧ Took cmd buf s words s' ∧ skipBlocks blks s.present = some s'.present := by
  induction blks generalizing buf s with
  | zero =>
    obtain rfl := Option.some.inj h
    exact ⟨[], by simp, .refl buf _, rfl⟩
  | succ blks ih =>
    unfold readBlocks at h
    cases hskip : skip s.present with
    | none =>
      rw [hskip] at h
      exact absurd h (by simp)
    | some rest =>
      rw [hskip] at h
      simp only at h
      cases hwords : readWords cmd n buf { s with present := rest } with
      | none =>
        rw [hwords] at h
        exact absurd h (by simp)
      | some t =>
        rw [hwords] at h
        obtain ⟨vs, hvs, htook, hpresent⟩ := readWords_took hwords
        obtain ⟨ws, hws, htook', hskips⟩ := ih h
        have hblock : Took cmd buf s vs t := { htook with }
        rw [← hvs] at htook'
        refine ⟨vs ++ ws, ?_, hblock.trans htook', ?_⟩
        · rw [List.length_append, hvs, hws, Nat.succ_mul, Nat.add_comm]
        · unfold skipBlocks
          rw [hskip, Option.bind_some, ← hskips, hpresent]

theorem readBlockPio_took (h : readBlockPio cmd d s = some s') :
    ∃ words, words.length = d.words ∧ Took cmd 0 s words s' ∧
      skipBlocks d.blocks.toNat s.present = some s'.present := by
  unfold readBlockPio at h
  obtain ⟨t, hblocks, rfl⟩ := Option.map_eq_some_iff.1 h
  obtain ⟨words, hlen, htook, hskips⟩ := readBlocks_took hblocks
  exact ⟨words, hlen, { htook with }, hskips⟩

/-! ## The block loop -/

/-- A round of the loop: the check fails, or the transfer is read once and the loop ends or goes on. -/
theorem pioLoop_cases {n : ℕ} (hread : d.isRead = true) (h : pioLoop cmd d n s = some s') :
    ∃ first rest, s.present = first :: rest ∧
      ((hasBits EFX_SDHCI_DATA_AVAILABLE first = false ∧ s' = { s with present := rest }) ∨
        (hasBits EFX_SDHCI_DATA_AVAILABLE first = true ∧ ∃ again rest' words t, rest = again :: rest' ∧
          words.length = d.words ∧ Took cmd 0 s words t ∧ skipBlocks d.blocks.toNat rest' = some t.present ∧
          ((n = 0 ∧ s' = t) ∨ ∃ k, n = k + 1 ∧ pioLoop cmd d k t = some s'))) := by
  unfold pioLoop Io.readPresent at h
  have hmask : d.mask = EFX_SDHCI_DATA_AVAILABLE := by
    unfold MmcData.mask
    rw [if_pos hread]
  rw [hmask] at h
  cases hpresent : s.present with
  | nil =>
    rw [hpresent] at h
    exact absurd h (by simp)
  | cons first rest =>
    rw [hpresent] at h
    refine ⟨first, rest, rfl, ?_⟩
    simp only at h
    by_cases hfirst : hasBits EFX_SDHCI_DATA_AVAILABLE first = true
    · right
      refine ⟨hfirst, ?_⟩
      rw [if_pos hfirst] at h
      cases rest with
      | nil => exact absurd h (by simp)
      | cons again rest' =>
        simp only [hread, if_true] at h
        cases hblock : readBlockPio cmd d { s with present := rest' } with
        | none =>
          rw [hblock] at h
          exact absurd h (by simp)
        | some t =>
          rw [hblock] at h
          obtain ⟨words, hlen, htook, hskips⟩ := readBlockPio_took hblock
          refine ⟨again, rest', words, t, rfl, hlen, { htook with }, hskips, ?_⟩
          cases n with
          | zero => exact Or.inl ⟨rfl, (Option.some.inj h).symm⟩
          | succ k => exact Or.inr ⟨k, rfl, h⟩
    · left
      rw [if_neg hfirst] at h
      exact ⟨Bool.eq_false_iff.2 hfirst, (Option.some.inj h).symm⟩

/-- `s'` is `s` after the loop read the transfer `m` times. -/
structure Rounds (d : MmcData) (s : Io) (m : ℕ) (s' : Io) : Prop where
  read : s'.read.length = s.read.length + m * d.words
  buf : s'.buf.length = s.buf.length + m * d.words
  sinceData : d.words = 0 → s'.sinceData = s.sinceData
  sentLine : s'.sentLine = s.sentLine
  status : s'.status = s.status

/-- One round before `m` others. -/
theorem Took.rounds {m buf : ℕ} {words : List (BitVec 32)} (hlen : words.length = d.words)
    (h : Took cmd buf s words t) (h' : Rounds d t m s') : Rounds d s (m + 1) s' := by
  refine ⟨?_, ?_, ?_, h'.sentLine.trans h.sentLine, h'.status.trans h.status⟩
  · rw [h'.read, h.read, List.length_append, hlen, Nat.succ_mul]
    omega
  · rw [h'.buf, h.buf, List.length_append, List.length_mapIdx, hlen, Nat.succ_mul]
    omega
  · intro hzero
    rw [h'.sinceData hzero, h.sinceData, if_pos (List.length_eq_zero_iff.1 (hlen.trans hzero))]

theorem rounds_zero (d : MmcData) (s : Io) (present : List (BitVec 32)) :
    Rounds d s 0 { s with present := present } := by
  refine ⟨?_, ?_, fun _ => rfl, rfl, rfl⟩ <;> simp

/-- The loop reads the whole transfer some number of times, and none when the first check fails. -/
theorem pioLoop_rounds {n : ℕ} (hread : d.isRead = true) (h : pioLoop cmd d n s = some s') :
    ∃ m, Rounds d s m s' ∧ (m = 0 ↔ s.present.head?.any (hasBits EFX_SDHCI_DATA_AVAILABLE) = false) := by
  induction n using Nat.strongRecOn generalizing s with
  | _ n ih =>
    obtain ⟨first, rest, hpresent, hcases⟩ := pioLoop_cases hread h
    rcases hcases with ⟨hno, rfl⟩ | ⟨hyes, again, rest', words, t, -, hlen, htook, -, hend⟩
    · exact ⟨0, rounds_zero d s rest, by simp [hpresent, hno]⟩
    · rcases hend with ⟨-, rfl⟩ | ⟨k, rfl, hloop⟩
      · exact ⟨1, htook.rounds hlen (rounds_zero d s' s'.present), by simp [hpresent, hyes]⟩
      · obtain ⟨m, hrounds, -⟩ := ih k (Nat.lt_succ_self k) hloop
        exact ⟨m + 1, htook.rounds hlen hrounds, by simp [hpresent, hyes]⟩

/-- **One round.** The loop reads the transfer once exactly when `oneRound` says so of the values of
`EFX_SDHCI_PRESENT`, of which `value` was read before the loop. -/
theorem pioLoop_once {n : ℕ} {value : BitVec 32} (hread : d.isRead = true) (hn : n = 0 ↔ d.blocks.toNat = 1)
    (h : pioLoop cmd d n s = some s') :
    (oneRound d.blocks.toNat (value :: s.present) = true ∧
      ∃ words, words.length = d.words ∧ Took cmd 0 s words s') ∨
    (oneRound d.blocks.toNat (value :: s.present) = false ∧ ∃ m, m ≠ 1 ∧ Rounds d s m s') := by
  obtain ⟨first, rest, hpresent, hcases⟩ := pioLoop_cases hread h
  rcases hcases with ⟨hno, rfl⟩ | ⟨hyes, again, rest', words, t, rfl, hlen, htook, hskips, hend⟩
  · right
    refine ⟨?_, 0, by decide, rounds_zero d s rest⟩
    rw [hpresent]
    cases rest <;> simp [oneRound, hno]
  · rw [hpresent]
    rcases hend with ⟨hzero, rfl⟩ | ⟨k, rfl, hloop⟩
    · left
      refine ⟨?_, words, hlen, htook⟩
      simp [oneRound, hyes, hn.1 hzero]
    · -- the loop checks again after the round, so it has ended if that check fails
      have hmore : d.blocks.toNat ≠ 1 := fun hone => absurd (hn.2 hone) (by omega)
      obtain ⟨second, rest'', hpresent', hcases'⟩ := pioLoop_cases hread hloop
      have hround : oneRound d.blocks.toNat (value :: first :: again :: rest') =
          !hasBits EFX_SDHCI_DATA_AVAILABLE second := by
        simp [oneRound, hskips, hpresent', hyes, hmore]
      rw [hround]
      rcases hcases' with ⟨hno, rfl⟩ | ⟨hyes', -⟩
      · left
        refine ⟨by rw [hno]; rfl, words, hlen, { htook with }⟩
      · right
        obtain ⟨m, hrounds, hm⟩ := pioLoop_rounds hread hloop
        refine ⟨by rw [hyes']; rfl, m + 1, ?_, htook.rounds hlen hrounds⟩
        have hpos : m ≠ 0 := by
          intro hzero
          have := hm.1 hzero
          simp [hpresent', hyes'] at this
        omega

/-- In the other direction the loop only reads `EFX_SDHCI_PRESENT`. -/
theorem pioLoop_write {n : ℕ} (hwrite : d.isRead = false) (h : pioLoop cmd d n s = some s') :
    ∃ present, s' = { s with present := present } := by
  induction n using Nat.strongRecOn generalizing s with
  | _ n ih =>
    unfold pioLoop Io.readPresent at h
    cases hpresent : s.present with
    | nil =>
      rw [hpresent] at h
      exact absurd h (by simp)
    | cons first rest =>
      rw [hpresent] at h
      simp only [hwrite] at h
      split at h
      · cases rest with
        | nil => exact absurd h (by simp)
        | cons again rest' =>
          cases n with
          | zero => exact ⟨rest', (Option.some.inj h).symm⟩
          | succ k =>
            obtain ⟨present, rfl⟩ := ih k (Nat.lt_succ_self k) h
            exact ⟨present, rfl⟩
      · exact ⟨rest, (Option.some.inj h).symm⟩

/-! ## The transfer -/

theorem transferPio_cases (h : transferPio a cmd d s = some s') :
    ∃ value rest t, s.present = value :: rest ∧
      pioLoop cmd d (d.blocks - 1#32).toNat { s with present := rest } = some t ∧
      Looked t (a.transferStatus :: a.transferComplete.values) s' := by
  unfold transferPio Io.readPresent at h
  cases hpresent : s.present with
  | nil =>
    rw [hpresent] at h
    exact absurd h (by simp)
  | cons value rest =>
    rw [hpresent] at h
    obtain ⟨t, hloop, rfl⟩ := Option.map_eq_some_iff.1 h
    exact ⟨value, rest, t, rfl, hloop,
      (readStatus_looked t [a.transferStatus]).trans (waitStatus_looked _ a.transferComplete _)⟩

/-- Reading the transfer `m` times gives its bytes once only if it is read once, in whole words. -/
theorem rounds_iff (hbytes : d.bytes ≠ 0) (m : ℕ) :
    4 * (m * d.words) = d.bytes ↔ m = 1 ∧ 4 ∣ d.blocksize.toNat := by
  unfold MmcData.bytes MmcData.words at *
  have hblocks : 0 < d.blocks.toNat := Nat.pos_of_ne_zero fun hzero => hbytes (by rw [hzero, Nat.zero_mul])
  have hsize : 0 < d.blocksize.toNat := Nat.pos_of_ne_zero fun hzero => hbytes (by rw [hzero, Nat.mul_zero])
  have hcancel : 4 * (m * (d.blocks.toNat * (d.blocksize.toNat / 4))) =
      d.blocks.toNat * (4 * (m * (d.blocksize.toNat / 4))) := by
    rw [Nat.mul_left_comm m, Nat.mul_left_comm 4]
  rw [hcancel, Nat.mul_left_cancel_iff hblocks]
  rcases m with _ | _ | m
  · omega
  · omega
  · -- two rounds read more than a block has, unless a block has no whole word
    have htwo : 2 * (d.blocksize.toNat / 4) ≤ (m + 1 + 1) * (d.blocksize.toNat / 4) :=
      Nat.mul_le_mul_right _ (by omega)
    omega

/-- The loop ends after the first round if there is one block. -/
theorem remaining_zero (hbytes : d.bytes ≠ 0) : (d.blocks - 1#32).toNat = 0 ↔ d.blocks.toNat = 1 := by
  have hblocks : d.blocks.toNat ≠ 0 := fun hzero => hbytes (by rw [MmcData.bytes, hzero, Nat.zero_mul])
  rw [BitVec.toNat_sub]
  have hlt := d.blocks.isLt
  simp only [BitVec.toNat_ofNat]
  omega

theorem complete_iff (a : Answers) :
    (∃ value ∈ a.transferStatus :: a.transferComplete.values, hasBits 0x2#32 value = true) ↔
      hasBits 0x2#32 a.transferStatus = true ∨ hasBits 0x2#32 a.transferComplete.last = true := by
  simp only [List.mem_cons, exists_eq_or_imp, Poll.exists_iff]

/-- **A read of no bytes** moves nothing, so all that the interrupt status returned comes after it. -/
theorem empty_read_moved (hread : d.isRead = true) (hbytes : d.bytes = 0) (hr : s.read = []) (hbuf : s.buf = [])
    (h : transferPio a cmd d s = some s') :
    Moved cmd d s' ↔ ∃ value ∈ s.sinceData ++ a.transferStatus :: a.transferComplete.values,
      hasBits 0x2#32 value = true := by
  obtain ⟨value, rest, t, -, hloop, hlooked⟩ := transferPio_cases h
  obtain ⟨m, hrounds, -⟩ := pioLoop_rounds hread hloop
  have hwords : d.words = 0 := by
    unfold MmcData.bytes at hbytes
    unfold MmcData.words
    rcases Nat.mul_eq_zero.1 hbytes with hzero | hzero <;> simp [hzero]
  have hread' : s'.read = [] := by
    apply List.length_eq_zero_iff.1
    rw [hlooked.read, hrounds.read, hwords]
    simp [hr]
  have hbuf' : s'.buf = [] := by
    apply List.length_eq_zero_iff.1
    rw [hlooked.buf, hrounds.buf, hwords]
    simp [hbuf]
  have hsince : s'.sinceData = s.sinceData ++ a.transferStatus :: a.transferComplete.values := by
    rw [hlooked.sinceData, hrounds.sinceData hwords]
  rw [← hsince]
  constructor
  · intro hmoved
    exact hmoved.complete
  · intro hany
    refine ⟨fun _ => ?_, fun hwrite => absurd (hread.symm.trans hwrite) (by decide), hany⟩
    rw [hread', hbuf', hbytes]
    exact ⟨rfl, rfl⟩

/-- After one round all bytes are moved if a block is whole words, and the last statuses come after them. -/
theorem round_moved {words : List (BitVec 32)} (hread : d.isRead = true) (hbytes : d.bytes ≠ 0) (hr : s.read = [])
    (hbuf : s.buf = []) (hlen : words.length = d.words) (htook : Took cmd 0 s words t)
    (hlooked : Looked t (a.transferStatus :: a.transferComplete.values) s') :
    Moved cmd d s' ↔ 4 ∣ d.blocksize.toNat ∧
      (hasBits 0x2#32 a.transferStatus = true ∨ hasBits 0x2#32 a.transferComplete.last = true) := by
  rw [← complete_iff]
  have hread' : s'.read = words := by
    rw [hlooked.read, htook.read, hr, List.nil_append]
  have hwhole : 4 * d.words = d.bytes ↔ 4 ∣ d.blocksize.toNat := by
    have := rounds_iff hbytes 1
    simpa using this
  have hsince : 4 ∣ d.blocksize.toNat → s'.sinceData = a.transferStatus :: a.transferComplete.values := by
    intro hdvd
    have hne : words ≠ [] := by
      rintro rfl
      rw [← hwhole.2 hdvd, ← hlen] at hbytes
      exact hbytes rfl
    rw [hlooked.sinceData, htook.sinceData, if_neg hne, List.nil_append]
  constructor
  · intro hmoved
    have hdvd : 4 ∣ d.blocksize.toNat := by
      apply hwhole.1
      rw [← (hmoved.read hread).1, hread', hlen]
    exact ⟨hdvd, hsince hdvd ▸ hmoved.complete⟩
  · rintro ⟨hdvd, hcomplete⟩
    refine ⟨fun _ => ⟨?_, ?_⟩, fun hwrite => absurd (hread.symm.trans hwrite) (by decide), ?_⟩
    · rw [hread', hlen]
      exact hwhole.2 hdvd
    · rw [hread', hlooked.buf, htook.buf]
      simp [hbuf]
    · rw [hsince hdvd]
      exact hcomplete

/-- **What a read moves.** -/
theorem read_moved (hread : d.isRead = true) (hbytes : d.bytes ≠ 0) (hr : s.read = []) (hbuf : s.buf = [])
    (h : transferPio a cmd d s = some s') :
    Moved cmd d s' ↔ 4 ∣ d.blocksize.toNat ∧ oneRound d.blocks.toNat s.present = true ∧
      (hasBits 0x2#32 a.transferStatus = true ∨ hasBits 0x2#32 a.transferComplete.last = true) := by
  obtain ⟨value, rest, t, hpresent, hloop, hlooked⟩ := transferPio_cases h
  rw [hpresent]
  rcases pioLoop_once hread (remaining_zero hbytes) hloop with ⟨hone, words, hlen, htook⟩ | ⟨hnot, m, hm, hrounds⟩
  · rw [hone, round_moved hread hbytes hr hbuf hlen { htook with } hlooked]
    simp only [true_and]
  · rw [hnot]
    constructor
    · intro hmoved
      have hlen := (hmoved.read hread).1
      rw [hlooked.read, hrounds.read, show s.read.length = 0 by simp [hr], Nat.zero_add] at hlen
      exact absurd ((rounds_iff hbytes m).1 hlen).1 hm
    · rintro ⟨-, hfalse, -⟩
      exact absurd hfalse (by decide)

/-- **A write moves nothing.** -/
theorem write_moves_nothing (hwrite : d.isRead = false) (h : transferPio a cmd d s = some s') :
    s'.written = s.written ∧ s'.sinceData = s.sinceData ++ a.transferStatus :: a.transferComplete.values := by
  obtain ⟨value, rest, t, -, hloop, hlooked⟩ := transferPio_cases h
  obtain ⟨present, rfl⟩ := pioLoop_write hwrite hloop
  exact ⟨hlooked.written, hlooked.sinceData⟩

/-- What a transfer moves, in either direction. -/
theorem transfer_moved (hr : s.read = []) (hbuf : s.buf = []) (hw : s.written = [])
    (hsince : s.sinceData = a.cmdComplete.values ++ a.data.values) (hpresent : s.present = a.present)
    (h : transferPio a cmd d s = some s') : Moved cmd d s' ↔ a.Moves d := by
  have hstatuses : s.sinceData ++ a.transferStatus :: a.transferComplete.values = a.statuses (some d) := by
    rw [hsince, List.append_assoc]
    rfl
  unfold Answers.Moves
  rw [← hstatuses, ← hpresent]
  cases hread : d.isRead with
  | true =>
    simp only [true_and]
    by_cases hbytes : d.bytes = 0
    · rw [empty_read_moved hread hbytes hr hbuf h, ← complete_iff]
      constructor
      · intro hany
        exact Or.inl ⟨hbytes, hany⟩
      · rintro (⟨-, hany⟩ | ⟨-, -, value, hmem, hcomplete⟩)
        · exact hany
        · exact ⟨value, List.mem_append_right _ hmem, hcomplete⟩
    · rw [read_moved hread hbytes hr hbuf h]
      simp only [hbytes, false_and, false_or]
  | false =>
    obtain ⟨hwritten, hrest⟩ := write_moves_nothing hread h
    rw [hw] at hwritten
    constructor
    · intro hm
      have hlen := (hm.written hread).1
      rw [hwritten] at hlen
      exact Or.inl ⟨hlen.symm, hrest ▸ hm.complete⟩
    · rintro (⟨hbytes, hany⟩ | ⟨hfalse, -⟩)
      · refine ⟨fun htrue => ?_, fun _ => ?_, hrest ▸ hany⟩
        · rw [hread] at htrue
          exact absurd htrue (by decide)
        · rw [hwritten, hbytes]
          exact ⟨rfl, rfl⟩
      · exact absurd hfalse (by decide)

/-- What the transfer leaves of the rest. -/
theorem transfer_status (h : transferPio a cmd d s = some s') :
    s'.sentLine = s.sentLine ∧ s'.status = s.status ++ a.transferStatus :: a.transferComplete.values := by
  obtain ⟨value, rest, t, -, hloop, hlooked⟩ := transferPio_cases h
  rw [hlooked.sentLine, hlooked.status]
  cases hread : d.isRead with
  | true =>
    obtain ⟨m, hrounds, -⟩ := pioLoop_rounds hread hloop
    rw [hrounds.sentLine, hrounds.status]
    exact ⟨rfl, rfl⟩
  | false =>
    obtain ⟨present, rfl⟩ := pioLoop_write hread hloop
    exact ⟨rfl, rfl⟩

/-! ## The command -/

/-- The state in which the command is about to be sent. -/
def Io.atSend (a : Answers) : Io := { Io.start a with sentLine := some a.line.last }

theorem issue_looked (a : Answers) (mode : BitVec 16) (cmd : MmcCmd) (data : Option MmcData) :
    Looked (.atSend a) a.cmdComplete.values (issue a mode cmd data (readWaitSdcmd a.line (.start a)).2) := by
  have hresponse : ∀ s, Looked s [] (readResponse cmd a.rsp s) := by
    intro s
    unfold readResponse
    split
    · split <;> exact ⟨rfl, rfl, rfl, (List.append_nil _).symm, (List.append_nil _).symm, rfl, rfl⟩
    · exact ⟨rfl, rfl, rfl, (List.append_nil _).symm, (List.append_nil _).symm, rfl, rfl⟩
  have hsent : ∀ s t : Io, Looked s [] t → Looked s a.cmdComplete.values
      (readResponse cmd a.rsp (waitSdcmdComplete a.cmdComplete t).2) := by
    intro s t h
    have hall := (h.trans (waitStatus_looked (fun _ => 0x1#32) a.cmdComplete t)).trans (hresponse _)
    rw [List.nil_append, List.append_nil] at hall
    exact hall
  unfold issue
  apply hsent
  cases data <;> exact ⟨rfl, rfl, rfl, rfl, rfl, rfl, rfl⟩

/-- A command is done as the registers say, if its transfer is. -/
theorem done_of_moved (hsent : s.sentLine = some a.line.last) (hstatus : s.status = a.statuses data)
    (hmoved : ∀ d ∈ data, Moved cmd d s ↔ a.Moves d) : Done cmd data s ↔ Answered a data := by
  constructor
  · intro hdone
    obtain ⟨value, hvalue, hfree⟩ := hdone.idle
    rw [hsent] at hvalue
    obtain rfl := Option.some.inj hvalue
    exact ⟨hfree, hstatus ▸ hdone.complete, hstatus ▸ hdone.clean, fun d hd => (hmoved d hd).1 (hdone.moved d hd)⟩
  · intro hanswered
    exact ⟨⟨_, hsent, hanswered.idle⟩, hstatus ▸ hanswered.complete, hstatus ▸ hanswered.clean,
      fun d hd => (hmoved d hd).2 (hanswered.moved d hd)⟩

/-- **A supported command** that returns gives 0, and it is done when the answers are such. -/
theorem done_iff (hsupported : cmd.unsupported = false) (h : sendCmd a mode cmd data = some (ret, s)) :
    ret = 0 ∧ (Done cmd data s ↔ Answered a data) := by
  unfold sendCmd at h
  rw [hsupported] at h
  simp only [never_busy, Bool.false_eq_true, if_false] at h
  have hissue := issue_looked a mode cmd data
  cases data with
  | none =>
    obtain ⟨rfl, rfl⟩ := Prod.mk.inj (Option.some.inj h)
    refine ⟨rfl, done_of_moved hissue.sentLine ?_ (by simp)⟩
    rw [hissue.status]
    exact (List.append_nil _).symm
  | some d =>
    obtain ⟨t, htransfer, heq⟩ := Option.map_eq_some_iff.1 h
    obtain ⟨rfl, rfl⟩ := Prod.mk.inj heq
    have hwaited := hissue.trans (waitStatus_looked (fun value => value) a.data _)
    obtain ⟨hsent, hstatus⟩ := transfer_status htransfer
    refine ⟨rfl, done_of_moved (hsent.trans hwaited.sentLine) ?_ ?_⟩
    · rw [hstatus]
      refine (congrArg (· ++ _) hwaited.status).trans ?_
      exact List.append_assoc a.cmdComplete.values _ _
    · intro d' hd'
      obtain rfl := Option.some.inj hd'
      exact transfer_moved hwaited.read hwaited.buf hwaited.written hwaited.sinceData hwaited.present htransfer

/-- **Success means done** exactly when the response type is refused or the answers are those of a command
that is done. -/
theorem send_cmd_iff (h : sendCmd a mode cmd data = some (ret, s)) :
    (ret = 0 → Done cmd data s) ↔ (cmd.unsupported = true ∨ Answered a data) := by
  by_cases hsupported : cmd.unsupported = true
  · unfold sendCmd at h
    rw [if_pos hsupported] at h
    obtain ⟨rfl, -⟩ := Prod.mk.inj (Option.some.inj h)
    exact ⟨fun _ => Or.inl hsupported, fun _ hzero => absurd hzero (by decide)⟩
  · obtain ⟨rfl, hdone⟩ := done_iff (Bool.eq_false_iff.2 hsupported) h
    rw [← hdone]
    simp [hsupported]

/-- A controller that is idle, completes the command and the transfer, and always has data and space. -/
def ready (present port : List (BitVec 32)) : Answers :=
  { line := ⟨[1#32], 0#32, by simp [lineFree]⟩
    cmdComplete := ⟨[0#32], 1#32, by simp [hasBits]⟩
    data := ⟨[], 0x30#32, by simp⟩
    transferStatus := 0#32
    transferComplete := ⟨[0#32], 2#32, by simp [hasBits]⟩
    present := present
    port := port
    transCmd := 0#32
    rsp := fun _ => 0x900#32 }

/-- A block of two words is read. -/
theorem send_cmd_iff_read :
    ∃ s, sendCmd (ready (List.replicate 4 0xc00#32) [7#32, 8#32]) 0#16 ⟨17#16, 1#32, 0#32⟩
        (some ⟨MMC_DATA_READ, 1#32, 8#32, fun _ => 0#32⟩) = some (0, s) ∧
      Done ⟨17#16, 1#32, 0#32⟩ (some ⟨MMC_DATA_READ, 1#32, 8#32, fun _ => 0#32⟩) s := by
  have hanswered : Answered (ready (List.replicate 4 0xc00#32) [7#32, 8#32])
      (some ⟨MMC_DATA_READ, 1#32, 8#32, fun _ => 0#32⟩) := by
    refine ⟨rfl, ⟨1#32, .tail _ (.head _), rfl⟩, fun value hvalue => ?_, fun d hd => ?_⟩
    · have hall : (Answers.statuses (ready (List.replicate 4 0xc00#32) [7#32, 8#32])
          (some ⟨MMC_DATA_READ, 1#32, 8#32, fun _ => 0#32⟩)).all (fun value => !hasBits errors value) = true := rfl
      exact (Bool.not_eq_true' _).mp (List.all_eq_true.1 hall value hvalue)
    obtain rfl := Option.some.inj hd
    exact Or.inr ⟨rfl, by decide, by decide, Or.inr (by decide)⟩
  obtain ⟨s, hrun⟩ : ∃ s, sendCmd (ready (List.replicate 4 0xc00#32) [7#32, 8#32]) 0#16 ⟨17#16, 1#32, 0#32⟩
      (some ⟨MMC_DATA_READ, 1#32, 8#32, fun _ => 0#32⟩) = some (0, s) := ⟨_, rfl⟩
  exact ⟨s, hrun, (send_cmd_iff hrun).2 (Or.inr hanswered) rfl⟩

/-- A block is to be written, the controller has space and signals completion, and no word is written. -/
theorem written_nothing :
    ∃ s, sendCmd (ready (List.replicate 3 0xc00#32) []) 0#16 ⟨24#16, 1#32, 0#32⟩
        (some ⟨MMC_DATA_WRITE, 1#32, 512#32, fun _ => 5#32⟩) = some (0, s) ∧
      ¬ Done ⟨24#16, 1#32, 0#32⟩ (some ⟨MMC_DATA_WRITE, 1#32, 512#32, fun _ => 5#32⟩) s := by
  refine ⟨_, rfl, fun hdone => ?_⟩
  have hlen := ((hdone.moved _ rfl).written rfl).1
  exact absurd hlen (by decide)

end Br2Efinix.SdHost
