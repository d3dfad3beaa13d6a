import Br2Efinix.Emmc.PioTransfer
import Br2Efinix.Emmc.UBootRecover

/-!
# Programmed I/O in U-Boot

`efx_emmc_send_cmd` with `efx_emmc_transfer_pio` under it. The buffer is at any address; a block whose address is
aligned is moved by words, any other through U-Boot's unaligned accesses. `bytes_to_transfer` and `blocks_done` are
set once the command line was found free, and count the blocks from there on.

* `putUnaligned_eq`, `getUnaligned_eq`: both ways move the same bytes.
* `transferBlocks_moves`: the transfer moves words in order, up to the first one for which the buffer is not ready.
* `send_cmd_moves`: **a command that returns 0 has moved its data**, and one that fails after its set-up has counted
  the blocks that were moved.
-/

namespace Br2Efinix.Emmc.UBoot

/-! ## Registers -/

def EFX_EMMC_BLOCK_SIZE : ℕ := 0x104
def EFX_EMMC_ARG1 : ℕ := 0x108
def EFX_EMMC_TRANSFER_MODE : ℕ := 0x10C
def EFX_EMMC_INT_STATUS : ℕ := 0x130

def EFX_EMMC_BUFFER_READ_EN : UInt32 := 0x800
def EFX_EMMC_BUFFER_WRITE_EN : UInt32 := 0x400
def EFX_EMMC_CMD_INHIBIT_CMD : UInt32 := 0x1

def EFX_EMMC_INT_ERROR_MASK : UInt32 := 0x7F0000
def EFX_EMMC_INT_BUFFER_READ_RDY : UInt32 := 0x20
def EFX_EMMC_INT_BUFFER_WRITE_RDY : UInt32 := 0x10
def EFX_EMMC_INT_XFER_COMPLETE : UInt32 := 0x2
def EFX_EMMC_INT_CMD_COMPLETE : UInt32 := 0x1

def EFX_EMMC_CMD_INDEX_MASK : UInt32 := 0x3F000000
def EFX_EMMC_DATA_PRESENT : UInt32 := 0x200000
def EFX_EMMC_CMD_INDEX_CHECK_EN : UInt32 := 0x100000
def EFX_EMMC_CMD_CRC_CHECK_EN : UInt32 := 0x80000
def EFX_EMMC_RESP_TYPE_136 : UInt32 := 1
def EFX_EMMC_RESP_TYPE_48 : UInt32 := 2
def EFX_EMMC_RESP_TYPE_48_BUSY : UInt32 := 3
def EFX_EMMC_MULTI_BLOCK_SEL : UInt32 := 0x20
def EFX_EMMC_DATA_XFER_DIR : UInt32 := 0x10
def EFX_EMMC_BLOCK_COUNT_EN : UInt32 := 0x2

def MMC_RSP_PRESENT : UInt32 := 0x1
def MMC_RSP_136 : UInt32 := 0x2
def MMC_RSP_CRC : UInt32 := 0x4
def MMC_RSP_BUSY : UInt32 := 0x8
def MMC_RSP_OPCODE : UInt32 := 0x10
def MMC_DATA_READ : ℕ := 1
def MMC_DATA_WRITE : ℕ := 2
def MMC_CMD_SWITCH : ℕ := 6
def MMC_CMD_SET_BLOCKLEN : ℕ := 16
def EXT_CSD_BUS_WIDTH : UInt32 := 183
def EXT_CSD_DDR_FLAG : UInt32 := 0x4

/-! ## Memory -/

/-- A store of a word by the core, which is little-endian. -/
def storeWord (mem : ℕ → UInt8) (p : ℕ) (val : UInt32) : ℕ → UInt8 := fun k =>
  if p ≤ k ∧ k < p + 4 then (wordBytes val).getD (k - p) 0 else mem k

/-- A load of a word. -/
def loadWord (mem : ℕ → UInt8) (p : ℕ) : UInt32 :=
  (mem p).toUInt32 ||| (mem (p + 1)).toUInt32 <<< 8 ||| (mem (p + 2)).toUInt32 <<< 16 |||
    (mem (p + 3)).toUInt32 <<< 24

/-- What the driver takes from U-Boot: `put_unaligned_le32` and `get_unaligned_le32`, which access the four bytes
of a little-endian word, and `mmc_is_tuning_cmd`. -/
structure Core where
  putUnalignedLe32 : (ℕ → UInt8) → ℕ → UInt32 → ℕ → UInt8
  getUnalignedLe32 : (ℕ → UInt8) → ℕ → UInt32
  mmcIsTuningCmd : ℕ → Bool
  put_byte : ∀ mem p val j, j < 4 → putUnalignedLe32 mem p val (p + j) = UInt8.ofNat (val.toNat / 2 ^ (8 * j))
  put_other : ∀ mem p val k, k < p ∨ p + 4 ≤ k → putUnalignedLe32 mem p val k = mem k
  get_bytes : ∀ mem p, (getUnalignedLe32 mem p).toNat =
    (mem p).toNat + 2 ^ 8 * (mem (p + 1)).toNat + 2 ^ 16 * (mem (p + 2)).toNat + 2 ^ 24 * (mem (p + 3)).toNat

theorem wordBytes_getD (val : UInt32) {j : ℕ} (hj : j < 4) :
    (wordBytes val).getD j 0 = UInt8.ofNat (val.toNat / 2 ^ (8 * j)) := by
  have hcases : j = 0 ∨ j = 1 ∨ j = 2 ∨ j = 3 := by omega
  unfold wordBytes
  rcases hcases with rfl | rfl | rfl | rfl
  all_goals
    apply UInt8.toNat_inj.1
    simp [Nat.shiftRight_eq_div_pow]

theorem storeWord_byte (mem : ℕ → UInt8) (p : ℕ) (val : UInt32) (j : ℕ) (hj : j < 4) :
    storeWord mem p val (p + j) = UInt8.ofNat (val.toNat / 2 ^ (8 * j)) := by
  unfold storeWord
  rw [if_pos (by omega), Nat.add_sub_cancel_left, wordBytes_getD val hj]

theorem storeWord_other (mem : ℕ → UInt8) (p : ℕ) (val : UInt32) (k : ℕ) (hk : k < p ∨ p + 4 ≤ k) :
    storeWord mem p val k = mem k := by
  unfold storeWord
  rw [if_neg (by omega)]

theorem loadWord_toNat (mem : ℕ → UInt8) (p : ℕ) : (loadWord mem p).toNat =
    (mem p).toNat + 2 ^ 8 * (mem (p + 1)).toNat + 2 ^ 16 * (mem (p + 2)).toNat + 2 ^ 24 * (mem (p + 3)).toNat := by
  unfold loadWord
  have h0 := (mem p).toNat_lt
  have h1 := (mem (p + 1)).toNat_lt
  have h2 := (mem (p + 2)).toNat_lt
  have h3 := (mem (p + 3)).toNat_lt
  simp only [UInt32.toNat_or, UInt32.toNat_shiftLeft, UInt8.toNat_toUInt32]
  generalize (mem p).toNat = b0 at *
  generalize (mem (p + 1)).toNat = b1 at *
  generalize (mem (p + 2)).toNat = b2 at *
  generalize (mem (p + 3)).toNat = b3 at *
  have hs1 : b1 <<< (UInt32.toNat 8 % 32) % 2 ^ 32 = b1 <<< 8 := by
    change b1 <<< 8 % 2 ^ 32 = b1 <<< 8
    rw [Nat.shiftLeft_eq]
    exact Nat.mod_eq_of_lt (by omega)
  have hs2 : b2 <<< (UInt32.toNat 16 % 32) % 2 ^ 32 = b2 <<< 16 := by
    change b2 <<< 16 % 2 ^ 32 = b2 <<< 16
    rw [Nat.shiftLeft_eq]
    exact Nat.mod_eq_of_lt (by omega)
  have hs3 : b3 <<< (UInt32.toNat 24 % 32) % 2 ^ 32 = b3 <<< 24 := by
    change b3 <<< 24 % 2 ^ 32 = b3 <<< 24
    rw [Nat.shiftLeft_eq]
    exact Nat.mod_eq_of_lt (by omega)
  -- each byte lies above the ones before it
  rw [hs1, hs2, hs3, Nat.or_comm b0, ← Nat.shiftLeft_add_eq_or_of_lt (show b0 < 2 ^ 8 by omega),
    Nat.or_comm _ (b2 <<< 16), ← Nat.shiftLeft_add_eq_or_of_lt (by rw [Nat.shiftLeft_eq]; omega),
    Nat.or_comm _ (b3 <<< 24),
    ← Nat.shiftLeft_add_eq_or_of_lt (by rw [Nat.shiftLeft_eq, Nat.shiftLeft_eq]; omega)]
  simp only [Nat.shiftLeft_eq]
  omega

/-- **An unaligned store** is a store. -/
theorem putUnaligned_eq (core : Core) (mem : ℕ → UInt8) (p : ℕ) (val : UInt32) :
    core.putUnalignedLe32 mem p val = storeWord mem p val := by
  funext k
  by_cases hin : p ≤ k ∧ k < p + 4
  · obtain ⟨j, rfl⟩ : ∃ j, k = p + j := ⟨k - p, by omega⟩
    have hj : j < 4 := by omega
    rw [core.put_byte mem p val j hj, storeWord_byte mem p val j hj]
  · have hout : k < p ∨ p + 4 ≤ k := by omega
    rw [core.put_other mem p val k hout, storeWord_other mem p val k hout]

/-- **An unaligned load** is a load. -/
theorem getUnaligned_eq (core : Core) (mem : ℕ → UInt8) (p : ℕ) : core.getUnalignedLe32 mem p = loadWord mem p := by
  apply UInt32.toNat_inj.1
  rw [core.get_bytes, loadWord_toNat]

/-! ## The driver -/

/-- `struct mmc_cmd`, the response apart. -/
structure Cmd where
  cmdidx : ℕ
  cmdarg : UInt32
  respType : UInt32

/-- `struct mmc_data`; `addr` is `dest` or `src`. -/
structure Data where
  addr : ℕ
  blocksize : ℕ
  blocks : ℕ
  flags : ℕ

namespace Data

/-- `data->flags & MMC_DATA_READ`. -/
def isRead (d : Data) : Bool := d.flags &&& MMC_DATA_READ != 0

def words (d : Data) : ℕ := d.blocksize / 4

/-- The data that `efx_emmc_send_cmd` refuses. -/
def bad (d : Data) : Bool :=
  d.blocks == 0 || decide (d.blocks > 0xffff) || d.blocksize == 0 ||
    decide (d.blocksize > EFX_EMMC_MAX_BLOCK_LENGTH) || d.blocksize % 4 != 0 ||
    (d.flags != MMC_DATA_READ && d.flags != MMC_DATA_WRITE)

end Data

/-- What a word meets: `EFX_EMMC_PRESENT_STATE` at first, then the interrupt status and the present state of each
poll until the time is up, and the word at the data port. -/
structure WordEnv where
  present : UInt32
  polls : List (UInt32 × UInt32)
  port : UInt32

/-- What a command meets: the registers at the end of each of its polls, the response, the words of each block,
and what a reset leaves. -/
structure CmdEnv where
  line : UInt32
  cmdComplete : UInt32
  bufferReady : UInt32
  xferComplete : UInt32
  resp : ℕ → UInt32
  words : ℕ → ℕ → WordEnv
  reset : Reset

/-- The device, the memory, the counters of `struct efx_emmc_host`, the writes to registers and the response. Only
observed are the words that went through the data port, in either direction. -/
structure PioHost where
  dev : Dev
  mem : ℕ → UInt8
  bytesToTransfer : ℕ
  blocksDone : ℕ
  writes : List (ℕ × UInt32)
  response : List UInt32
  moved : List UInt32

namespace PioHost

def writel (h : PioHost) (val : UInt32) (reg : ℕ) : PioHost := { h with writes := h.writes ++ [(reg, val)] }

/-- `efx_emmc_wait_cmd_ready`. -/
def waitCmdReady (line : UInt32) : ℤ := if line &&& EFX_EMMC_CMD_INHIBIT_CMD = 0 then 0 else -ETIMEDOUT

/-- `efx_emmc_wait_interrupt`, whose poll ends with `intstat`. -/
def waitInterrupt (h : PioHost) (mask intstat : UInt32) : ℤ × PioHost :=
  let waitMask := mask ||| EFX_EMMC_INT_ERROR_MASK
  if intstat &&& waitMask = 0 then (-ETIMEDOUT, h)
  else
    -- the bits that were seen are cleared, an error or not
    let h := h.writel (intstat &&& waitMask) EFX_EMMC_INT_STATUS
    if intstat &&& EFX_EMMC_INT_ERROR_MASK ≠ 0 then (- EIO, h) else (0, h)

/-- `efx_emmc_wait_buffer_ready`. -/
def waitBufferReady (mask : UInt32) : List (UInt32 × UInt32) → PioHost → ℤ × PioHost
  | [], h => (-ETIMEDOUT, h)
  | (intstat, state) :: polls, h =>
    if intstat &&& EFX_EMMC_INT_ERROR_MASK ≠ 0 then
      (- EIO, h.writel (intstat &&& EFX_EMMC_INT_ERROR_MASK) EFX_EMMC_INT_STATUS)
    else if state &&& mask ≠ 0 then (0, h)
    else waitBufferReady mask polls h

/-- The wait for one word. -/
def waitWord (h : PioHost) (mask : UInt32) (env : WordEnv) : ℤ × PioHost :=
  if env.present &&& mask = 0 then waitBufferReady mask env.polls h else (0, h)

/-- The loop of `efx_emmc_read_block_pio` over the words that are left, from word `i` on. -/
def readWords (core : Core) (env : ℕ → WordEnv) (buf : ℕ) (aligned : Bool) : ℕ → ℕ → PioHost → ℤ × PioHost
  | 0, _, h => (0, h)
  | n + 1, i, h =>
    match h.waitWord EFX_EMMC_BUFFER_READ_EN (env i) with
    | (ret, h) =>
      if ret ≠ 0 then (ret, h)
      else
        let val := (env i).port
        let mem :=
          if aligned then storeWord h.mem (buf + i * 4) val else core.putUnalignedLe32 h.mem (buf + i * 4) val
        readWords core env buf aligned n (i + 1) { h with mem := mem, moved := h.moved ++ [val] }

/-- The loop of `efx_emmc_write_block_pio`. -/
def writeWords (core : Core) (env : ℕ → WordEnv) (buf : ℕ) (aligned : Bool) : ℕ → ℕ → PioHost → ℤ × PioHost
  | 0, _, h => (0, h)
  | n + 1, i, h =>
    match h.waitWord EFX_EMMC_BUFFER_WRITE_EN (env i) with
    | (ret, h) =>
      if ret ≠ 0 then (ret, h)
      else
        let val := if aligned then loadWord h.mem (buf + i * 4) else core.getUnalignedLe32 h.mem (buf + i * 4)
        writeWords core env buf aligned n (i + 1) { h with moved := h.moved ++ [val] }

/-- The end of a block. -/
def blockDone (h : PioHost) (d : Data) : PioHost :=
  { h with bytesToTransfer := h.bytesToTransfer - d.blocksize, blocksDone := h.blocksDone + 1 }

/-- `efx_emmc_read_block_pio`. -/
def readBlockPio (h : PioHost) (core : Core) (d : Data) (env : ℕ → WordEnv) : ℤ × PioHost :=
  let buf := d.addr + d.blocksize * h.blocksDone
  let aligned := decide (buf % 4 = 0)
  match readWords core env buf aligned d.words 0 h with
  | (ret, h) => if ret ≠ 0 then (ret, h) else (0, h.blockDone d)

/-- `efx_emmc_write_block_pio`. -/
def writeBlockPio (h : PioHost) (core : Core) (d : Data) (env : ℕ → WordEnv) : ℤ × PioHost :=
  let buf := d.addr + d.blocksize * h.blocksDone
  let aligned := decide (buf % 4 = 0)
  match writeWords core env buf aligned d.words 0 h with
  | (ret, h) => if ret ≠ 0 then (ret, h) else (0, h.blockDone d)

/-- The loop of `efx_emmc_transfer_pio`, with `blocks_remaining`. -/
def transferBlocks (core : Core) (d : Data) (env : ℕ → ℕ → WordEnv) : ℕ → PioHost → ℤ × PioHost
  | 0, h => (0, h)
  | n + 1, h =>
    if h.bytesToTransfer > 0 then
      match if d.isRead then h.readBlockPio core d (env h.blocksDone)
          else h.writeBlockPio core d (env h.blocksDone) with
      | (ret, h) => if ret ≠ 0 then (ret, h) else transferBlocks core d env n h
    else (0, h)

/-- `efx_emmc_transfer_pio`. -/
def transferPio (h : PioHost) (core : Core) (d : Data) (env : ℕ → ℕ → WordEnv) : ℤ × PioHost :=
  transferBlocks core d env d.blocks h

end PioHost

/-! ### The command -/

namespace Cmd

/-- A block length that `efx_emmc_send_cmd` refuses. -/
def badLength (c : Cmd) : Bool :=
  c.cmdidx == MMC_CMD_SET_BLOCKLEN && (c.cmdarg == 0 || decide (c.cmdarg.toNat > EFX_EMMC_MAX_BLOCK_LENGTH))

/-- A command of SD cards. -/
def isSd (c : Cmd) : Bool := (c.cmdidx == 8 && c.cmdarg == 0x1aa) || c.cmdidx == 55 || c.cmdidx == 41

/-- The part of `command` that comes from the command. -/
def command (c : Cmd) : UInt32 :=
  let command := (UInt32.ofNat c.cmdidx <<< 24) &&& EFX_EMMC_CMD_INDEX_MASK
  if c.respType &&& MMC_RSP_PRESENT ≠ 0 then
    let command := command ||| (
      if c.respType &&& MMC_RSP_136 ≠ 0 then EFX_EMMC_RESP_TYPE_136
      else if c.respType &&& MMC_RSP_BUSY ≠ 0 then EFX_EMMC_RESP_TYPE_48_BUSY
      else EFX_EMMC_RESP_TYPE_48) <<< 16
    let command := if c.respType &&& MMC_RSP_CRC ≠ 0 then command ||| EFX_EMMC_CMD_CRC_CHECK_EN else command
    if c.respType &&& MMC_RSP_OPCODE ≠ 0 then command ||| EFX_EMMC_CMD_INDEX_CHECK_EN else command
  else command

/-- The response. -/
def readResponse (c : Cmd) (resp : ℕ → UInt32) (old : List UInt32) : List UInt32 :=
  if c.respType &&& MMC_RSP_PRESENT ≠ 0 then
    if c.respType &&& MMC_RSP_136 ≠ 0 then
      let r3 := resp 3 &&& 0xFFFFFF
      [r3 <<< 8 ||| resp 2 >>> 24, resp 2 <<< 8 ||| resp 1 >>> 24, resp 1 <<< 8 ||| resp 0 >>> 24, resp 0 <<< 8]
    else resp 0 :: old.tail
  else old

end Cmd

/-- The part of `command` that comes from the data. -/
def Data.command (d : Data) (command : UInt32) : UInt32 :=
  let command := command ||| EFX_EMMC_DATA_PRESENT
  let command := if d.blocks > 1 then command ||| EFX_EMMC_MULTI_BLOCK_SEL ||| EFX_EMMC_BLOCK_COUNT_EN else command
  if d.isRead then command ||| EFX_EMMC_DATA_XFER_DIR else command

namespace PioHost

/-- `efx_emmc_send_cmd` from the free command line to the write that sends the command. -/
def issue (h : PioHost) (c : Cmd) (data : Option Data) : PioHost :=
  let h := h.writel (UInt32.ofNat EFX_EMMC_INT_ALL_MASK) EFX_EMMC_INT_STATUS
  let h := h.writel c.cmdarg EFX_EMMC_ARG1
  match data with
  | none => h.writel c.command EFX_EMMC_TRANSFER_MODE
  | some d =>
    let h := h.writel (UInt32.ofNat d.blocks <<< 16 ||| (UInt32.ofNat d.blocksize &&& 0xFFF)) EFX_EMMC_BLOCK_SIZE
    -- the counters start here; a command that fails earlier leaves those of the one before
    let h := { h with bytesToTransfer := d.blocksize * d.blocks, blocksDone := 0 }
    h.writel (d.command c.command) EFX_EMMC_TRANSFER_MODE

/-- The data of a command that has completed. -/
def sendData (h : PioHost) (core : Core) (c : Cmd) (d : Data) (env : CmdEnv) : ℤ × PioHost :=
  let expectedInt := if d.isRead then EFX_EMMC_INT_BUFFER_READ_RDY else EFX_EMMC_INT_BUFFER_WRITE_RDY
  match h.waitInterrupt expectedInt env.bufferReady with
  | (ret, h) =>
    if ret ≠ 0 then (ret, h)
    else
      match h.transferPio core d env.words with
      | (ret, h) =>
        if ret ≠ 0 then (ret, h)
        -- tuning is complete when its pattern has been drained
        else if core.mmcIsTuningCmd c.cmdidx then (0, h)
        else h.waitInterrupt EFX_EMMC_INT_XFER_COMPLETE env.xferComplete

/-- A CMD6 that sets the bus width sets the DDR mode. -/
def switchBus (h : PioHost) (c : Cmd) : PioHost :=
  if c.cmdidx = MMC_CMD_SWITCH ∧ c.cmdarg >>> 16 &&& 0xff = EXT_CSD_BUS_WIDTH then
    let ddr := decide ((c.cmdarg >>> 8 &&& 0xff) &&& EXT_CSD_DDR_FLAG ≠ 0)
    let dev := { h.dev with mmc := { h.dev.mmc with ddrMode := ddr } }
    { h with dev := dev.setBusMode dev.mmc.busWidth ddr }
  else h

/-- `goto recover`. -/
def recovered (h : PioHost) (r : Reset) : PioHost := { h with dev := h.dev.recover r }

/-- `efx_emmc_send_cmd`. -/
def sendCmd (h : PioHost) (core : Core) (c : Cmd) (data : Option Data) (env : CmdEnv) : ℤ × PioHost :=
  if c.badLength then (-EINVAL, h)
  else if data.any Data.bad then (-EINVAL, h)
  else if c.isSd then (-ETIMEDOUT, h)
  else if waitCmdReady env.line ≠ 0 then (waitCmdReady env.line, h.recovered env.reset)
  else
    match (h.issue c data).waitInterrupt EFX_EMMC_INT_CMD_COMPLETE env.cmdComplete with
    | (ret, h) =>
      if ret ≠ 0 then (ret, h.recovered env.reset)
      else
        let h := { h with response := c.readResponse env.resp h.response }
        match data with
        | none => (0, h.switchBus c)
        | some d =>
          match h.sendData core c d env with
          | (ret, h) =>
            if ret ≠ 0 then (ret, h.recovered env.reset)
            else if core.mmcIsTuningCmd c.cmdidx then (0, h)
            else (0, h.switchBus c)

end PioHost

/-! ## The property -/

/-- The memory with the words from `p` on, in order. -/
def storeAll (mem : ℕ → UInt8) (p : ℕ) (ws : List UInt32) : ℕ → UInt8 := fun k =>
  if p ≤ k ∧ k < p + 4 * ws.length then (ws.flatMap wordBytes).getD (k - p) 0 else mem k

/-- The next `n` words of the memory from `p` on. -/
def loadAll (mem : ℕ → UInt8) (p n : ℕ) : List UInt32 := (List.range n).map fun i => loadWord mem (p + 4 * i)

/-- Words moved in order between the data port and the memory from `p` on; no other byte is touched. -/
structure WordsMoved (read : Bool) (p : ℕ) (h h' : PioHost) (ws : List UInt32) : Prop where
  port : h'.moved = h.moved ++ ws
  ofRead : read = true → h'.mem = storeAll h.mem p ws
  ofWrite : read = false → h'.mem = h.mem ∧ ws = loadAll h.mem p ws.length

/-- A failed command has counted the blocks that it moved. -/
def ErrorCounted (core : Core) (h : PioHost) (c : Cmd) (d : Data) (env : CmdEnv) : Prop :=
  (h.sendCmd core c (some d) env).1 ≠ 0 →
    ∀ ws, (h.sendCmd core c (some d) env).2.moved = h.moved ++ ws →
      (h.sendCmd core c (some d) env).2.blocksDone = ws.length / d.words ∧
        (h.sendCmd core c (some d) env).2.bytesToTransfer =
          d.blocksize * (d.blocks - (h.sendCmd core c (some d) env).2.blocksDone)

/-- A command that gets to its set-up: it is none of SD cards, and finds the command line free. -/
def SetUp (c : Cmd) (env : CmdEnv) : Prop := c.isSd = false ∧ PioHost.waitCmdReady env.line = 0

variable {core : Core} {h h' h'' : PioHost} {d : Data} {c : Cmd} {read : Bool} {p : ℕ} {ws ws' : List UInt32}

/-! ## Words in memory -/

theorem storeWord_eq (mem : ℕ → UInt8) (p : ℕ) (val : UInt32) : storeWord mem p val = storeAll mem p [val] := by
  funext k
  unfold storeWord storeAll
  rw [List.flatMap_cons, List.flatMap_nil, List.append_nil]
  rfl

theorem storeAll_append (mem : ℕ → UInt8) (p : ℕ) (ws ws' : List UInt32) :
    storeAll (storeAll mem p ws) (p + 4 * ws.length) ws' = storeAll mem p (ws ++ ws') := by
  funext k
  have hlen := length_wordBytes ws
  unfold storeAll
  rw [List.length_append, List.flatMap_append]
  by_cases hlast : p + 4 * ws.length ≤ k ∧ k < p + 4 * ws.length + 4 * ws'.length
  · rw [if_pos hlast, if_pos (by omega), List.getD_append_right _ _ _ _ (by omega), hlen]
    congr 1
    omega
  · rw [if_neg hlast]
    by_cases hfirst : p ≤ k ∧ k < p + 4 * ws.length
    · rw [if_pos hfirst, if_pos (by omega), List.getD_append _ _ _ _ (by omega)]
    · rw [if_neg hfirst, if_neg (by omega)]

theorem loadAll_add (mem : ℕ → UInt8) (p m n : ℕ) :
    loadAll mem p (m + n) = loadAll mem p m ++ loadAll mem (p + 4 * m) n := by
  unfold loadAll
  rw [List.range_add, List.map_append, List.map_map]
  congr 1
  apply List.map_congr_left
  intro i _
  simp only [Function.comp_apply]
  congr 1
  omega

theorem storeAll_nil (mem : ℕ → UInt8) (p : ℕ) : storeAll mem p [] = mem := by
  funext k
  unfold storeAll
  rw [if_neg]
  simp only [List.length_nil]
  omega

theorem WordsMoved.none (hmoved : h'.moved = h.moved) (hmem : h'.mem = h.mem) : WordsMoved read p h h' [] :=
  ⟨by rw [hmoved, List.append_nil], fun _ => by rw [hmem, storeAll_nil], fun _ => ⟨hmem, rfl⟩⟩

/-- **Moves in a row are one.** -/
theorem WordsMoved.trans (h1 : WordsMoved read p h h' ws) (h2 : WordsMoved read (p + 4 * ws.length) h' h'' ws') :
    WordsMoved read p h h'' (ws ++ ws') := by
  refine ⟨?_, fun hr => ?_, fun hw => ?_⟩
  · rw [h2.port, h1.port, List.append_assoc]
  · rw [h2.ofRead hr, h1.ofRead hr, storeAll_append]
  · obtain ⟨hmem1, hws⟩ := h1.ofWrite hw
    obtain ⟨hmem2, hws'⟩ := h2.ofWrite hw
    rw [hmem1] at hws'
    refine ⟨hmem2.trans hmem1, ?_⟩
    rw [List.length_append, loadAll_add, ← hws, ← hws']

/-! ## A block -/

/-- The counters are the same. -/
structure SameCounts (h h' : PioHost) : Prop where
  bytesToTransfer : h'.bytesToTransfer = h.bytesToTransfer
  blocksDone : h'.blocksDone = h.blocksDone

/-- Nothing is moved. -/
structure Still (h h' : PioHost) : Prop extends SameCounts h h' where
  mem : h'.mem = h.mem
  moved : h'.moved = h.moved

theorem Still.trans (h1 : Still h h') (h2 : Still h' h'') : Still h h'' :=
  ⟨⟨h2.bytesToTransfer.trans h1.bytesToTransfer, h2.blocksDone.trans h1.blocksDone⟩, h2.mem.trans h1.mem,
    h2.moved.trans h1.moved⟩

theorem WordsMoved.after (hm : WordsMoved read p h' h'' ws) (hmem : h'.mem = h.mem) (hmoved : h'.moved = h.moved) :
    WordsMoved read p h h'' ws := by
  refine ⟨?_, fun hr => ?_, fun hw => ?_⟩
  · rw [hm.port, hmoved]
  · rw [hm.ofRead hr, hmem]
  · obtain ⟨hmem', hws⟩ := hm.ofWrite hw
    rw [hmem] at hws
    exact ⟨hmem'.trans hmem, hws⟩

theorem WordsMoved.before (hm : WordsMoved read p h h' ws) (hstill : Still h' h'') : WordsMoved read p h h'' ws := by
  refine ⟨?_, fun hr => ?_, fun hw => ?_⟩
  · rw [hstill.moved, hm.port]
  · rw [hstill.mem, hm.ofRead hr]
  · rw [hstill.mem]
    exact hm.ofWrite hw

theorem waitBufferReady_still (mask : UInt32) (polls : List (UInt32 × UInt32)) (h : PioHost) :
    Still h (PioHost.waitBufferReady mask polls h).2 := by
  induction polls with
  | nil => exact ⟨⟨rfl, rfl⟩, rfl, rfl⟩
  | cons poll polls ih =>
    obtain ⟨intstat, state⟩ := poll
    unfold PioHost.waitBufferReady
    split
    · exact ⟨⟨rfl, rfl⟩, rfl, rfl⟩
    · split
      · exact ⟨⟨rfl, rfl⟩, rfl, rfl⟩
      · exact ih

theorem waitWord_still (h : PioHost) (mask : UInt32) (env : WordEnv) : Still h (h.waitWord mask env).2 := by
  unfold PioHost.waitWord
  split
  · exact waitBufferReady_still mask env.polls h
  · exact ⟨⟨rfl, rfl⟩, rfl, rfl⟩

/-- The words of a block, up to the first one that does not become ready. -/
structure BlockWords (read : Bool) (p n : ℕ) (h : PioHost) (result : ℤ × PioHost) (ws : List UInt32) : Prop where
  moves : WordsMoved read p h result.2 ws
  counts : SameCounts h result.2
  all : result.1 = 0 → ws.length = n
  short : result.1 ≠ 0 → ws.length < n

/-- A word that does not become ready is the end. -/
theorem BlockWords.stop {n : ℕ} {ret : ℤ} (hstill : Still h h') (hret : ret ≠ 0) :
    BlockWords read p (n + 1) h (ret, h') [] :=
  ⟨.none hstill.moved hstill.mem, hstill.toSameCounts, fun hz => absurd hz hret, fun _ => Nat.zero_lt_succ n⟩

/-- A word, and those after it. -/
theorem BlockWords.cons {n : ℕ} {result : ℤ × PioHost} {w : UInt32} (hone : WordsMoved read p h h' [w])
    (hcounts : SameCounts h h') (hrest : BlockWords read (p + 4) n h' result ws) :
    BlockWords read p (n + 1) h result (w :: ws) := by
  refine ⟨hone.trans hrest.moves, ⟨hrest.counts.bytesToTransfer.trans hcounts.bytesToTransfer,
    hrest.counts.blocksDone.trans hcounts.blocksDone⟩, fun hz => ?_, fun hne => ?_⟩
  · rw [List.length_cons, hrest.all hz]
  · rw [List.length_cons]
    exact Nat.succ_lt_succ (hrest.short hne)

/-- **A turn of the loop**: the wait moves nothing, and is the end if it fails. -/
theorem BlockWords.turn {n : ℕ} {ret : ℤ} {rest : ℤ × PioHost} {w : UInt32} (hstill : Still h h')
    (hone : WordsMoved read p h' h'' [w]) (hcounts : SameCounts h' h'')
    (hrest : ∃ ws, BlockWords read (p + 4) n h'' rest ws) :
    ∃ ws, BlockWords read p (n + 1) h (if ret ≠ 0 then (ret, h') else rest) ws := by
  by_cases hret : ret ≠ 0
  · rw [if_pos hret]
    exact ⟨[], .stop hstill hret⟩
  · rw [if_neg hret]
    obtain ⟨ws, hws⟩ := hrest
    exact ⟨w :: ws, .cons (hone.after hstill.mem hstill.moved)
      ⟨hcounts.bytesToTransfer.trans hstill.bytesToTransfer, hcounts.blocksDone.trans hstill.blocksDone⟩ hws⟩

/-- **The words of a read**, aligned or not. -/
theorem readWords_moves (core : Core) (env : ℕ → WordEnv) (buf : ℕ) (aligned : Bool) (n i : ℕ) (h : PioHost) :
    ∃ ws, BlockWords true (buf + i * 4) n h (PioHost.readWords core env buf aligned n i h) ws := by
  induction n generalizing i h with
  | zero => exact ⟨[], .none rfl rfl, ⟨rfl, rfl⟩, fun _ => rfl, fun hne => absurd rfl hne⟩
  | succ n ih =>
    have hstill := waitWord_still h EFX_EMMC_BUFFER_READ_EN (env i)
    unfold PioHost.readWords
    generalize h.waitWord EFX_EMMC_BUFFER_READ_EN (env i) = result at hstill
    obtain ⟨ret, h₁⟩ := result
    simp only [putUnaligned_eq, ite_self, storeWord_eq]
    have hrest := ih (i + 1)
      { h₁ with mem := storeAll h₁.mem (buf + i * 4) [(env i).port], moved := h₁.moved ++ [(env i).port] }
    rw [Nat.succ_mul, ← Nat.add_assoc] at hrest
    have hone : WordsMoved true (buf + i * 4) h₁
        { h₁ with mem := storeAll h₁.mem (buf + i * 4) [(env i).port], moved := h₁.moved ++ [(env i).port] }
        [(env i).port] := ⟨rfl, fun _ => rfl, fun hw => absurd hw.symm Bool.false_ne_true⟩
    exact BlockWords.turn hstill hone ⟨rfl, rfl⟩ hrest

/-- **The words of a write**, aligned or not. -/
theorem writeWords_moves (core : Core) (env : ℕ → WordEnv) (buf : ℕ) (aligned : Bool) (n i : ℕ) (h : PioHost) :
    ∃ ws, BlockWords false (buf + i * 4) n h (PioHost.writeWords core env buf aligned n i h) ws := by
  induction n generalizing i h with
  | zero => exact ⟨[], .none rfl rfl, ⟨rfl, rfl⟩, fun _ => rfl, fun hne => absurd rfl hne⟩
  | succ n ih =>
    have hstill := waitWord_still h EFX_EMMC_BUFFER_WRITE_EN (env i)
    unfold PioHost.writeWords
    generalize h.waitWord EFX_EMMC_BUFFER_WRITE_EN (env i) = result at hstill
    obtain ⟨ret, h₁⟩ := result
    simp only [getUnaligned_eq, ite_self]
    have hrest := ih (i + 1) { h₁ with moved := h₁.moved ++ [loadWord h₁.mem (buf + i * 4)] }
    rw [Nat.succ_mul, ← Nat.add_assoc] at hrest
    have hone : WordsMoved false (buf + i * 4) h₁ { h₁ with moved := h₁.moved ++ [loadWord h₁.mem (buf + i * 4)] }
        [loadWord h₁.mem (buf + i * 4)] := ⟨rfl, fun hr => absurd hr Bool.false_ne_true, fun _ => ⟨rfl, rfl⟩⟩
    exact BlockWords.turn hstill hone ⟨rfl, rfl⟩ hrest

/-- The accesses of a block do not depend on its alignment. -/
theorem readWords_aligned (core : Core) (env : ℕ → WordEnv) (buf n i : ℕ) (h : PioHost) :
    PioHost.readWords core env buf true n i h = PioHost.readWords core env buf false n i h := by
  induction n generalizing i h with
  | zero => rfl
  | succ n ih =>
    unfold PioHost.readWords
    simp only [ih, if_true, Bool.false_eq_true, if_false, putUnaligned_eq]

theorem writeWords_aligned (core : Core) (env : ℕ → WordEnv) (buf n i : ℕ) (h : PioHost) :
    PioHost.writeWords core env buf true n i h = PioHost.writeWords core env buf false n i h := by
  induction n generalizing i h with
  | zero => rfl
  | succ n ih =>
    unfold PioHost.writeWords
    simp only [ih, if_true, Bool.false_eq_true, if_false, getUnaligned_eq]

/-- A block of either direction. -/
def PioHost.blockPio (h : PioHost) (core : Core) (d : Data) (env : ℕ → WordEnv) : ℤ × PioHost :=
  if d.isRead then h.readBlockPio core d env else h.writeBlockPio core d env

/-- What a block leaves: all its words and the next count, or some of them and the count as it was. -/
structure BlockMoved (d : Data) (h : PioHost) (result : ℤ × PioHost) (ws : List UInt32) : Prop where
  moves : WordsMoved d.isRead (d.addr + d.blocksize * h.blocksDone) h result.2 ws
  done : result.1 = 0 → ws.length = d.words ∧ result.2.bytesToTransfer = h.bytesToTransfer - d.blocksize ∧
    result.2.blocksDone = h.blocksDone + 1
  failed : result.1 ≠ 0 → ws.length < d.words ∧ SameCounts h result.2

theorem blockPio_moves (core : Core) (d : Data) (env : ℕ → WordEnv) (h : PioHost) :
    ∃ ws, BlockMoved d h (h.blockPio core d env) ws := by
  have hblock : ∀ (result : ℤ × PioHost) (ws : List UInt32),
      BlockWords d.isRead (d.addr + d.blocksize * h.blocksDone) d.words h result ws →
      BlockMoved d h (match result with | (ret, h) => if ret ≠ 0 then (ret, h) else (0, h.blockDone d)) ws := by
    rintro ⟨ret, h₁⟩ ws hw
    simp only
    by_cases hret : ret ≠ 0
    · rw [if_pos hret]
      exact ⟨hw.moves, fun hz => absurd hz hret, fun hne => ⟨hw.short hne, hw.counts⟩⟩
    · rw [if_neg hret]
      have hz : ret = 0 := by simpa using hret
      exact ⟨⟨hw.moves.port, hw.moves.ofRead, hw.moves.ofWrite⟩, fun _ => ⟨hw.all hz,
        congrArg (· - d.blocksize) hw.counts.bytesToTransfer, congrArg (· + 1) hw.counts.blocksDone⟩,
        fun hne => absurd rfl hne⟩
  unfold PioHost.blockPio PioHost.readBlockPio PioHost.writeBlockPio
  cases hr : d.isRead with
  | true =>
    obtain ⟨ws, hws⟩ := readWords_moves core env (d.addr + d.blocksize * h.blocksDone)
      (decide ((d.addr + d.blocksize * h.blocksDone) % 4 = 0)) d.words 0 h
    rw [Nat.zero_mul, Nat.add_zero, ← hr] at hws
    exact ⟨ws, hblock _ ws hws⟩
  | false =>
    obtain ⟨ws, hws⟩ := writeWords_moves core env (d.addr + d.blocksize * h.blocksDone)
      (decide ((d.addr + d.blocksize * h.blocksDone) % 4 = 0)) d.words 0 h
    rw [Nat.zero_mul, Nat.add_zero, ← hr] at hws
    exact ⟨ws, hblock _ ws hws⟩

/-! ## The transfer -/

/-- Some of the `n` blocks that are left, in order, with the counters that go with them. -/
structure Transferred (d : Data) (n : ℕ) (h : PioHost) (result : ℤ × PioHost) (ws : List UInt32) : Prop where
  moves : WordsMoved d.isRead (d.addr + d.blocksize * h.blocksDone) h result.2 ws
  blocks : result.2.blocksDone = h.blocksDone + ws.length / d.words
  bytes : result.2.bytesToTransfer = d.blocksize * (d.blocks - result.2.blocksDone)
  within : ws.length ≤ d.words * n
  all : result.1 = 0 → ws.length = d.words * n

/-- What the checks of `efx_emmc_send_cmd` say about the size of a block. -/
theorem blocksize_eq (hd : d.bad = false) : d.blocksize = 4 * d.words ∧ 0 < d.words := by
  unfold Data.bad at hd
  unfold Data.words
  simp only [Bool.or_eq_false_iff, beq_eq_false_iff_ne, bne_eq_false_iff_eq, ne_eq] at hd
  omega

/-- **The loop over the blocks**, by induction on those that are left. -/
theorem transferBlocks_moves (core : Core) (env : ℕ → ℕ → WordEnv) (hd : d.bad = false) (n : ℕ) (h : PioHost)
    (hdone : h.blocksDone + n = d.blocks) (hbytes : h.bytesToTransfer = d.blocksize * n) :
    ∃ ws, Transferred d n h (PioHost.transferBlocks core d env n h) ws := by
  obtain ⟨hsize, hwords⟩ := blocksize_eq hd
  induction n generalizing h with
  | zero =>
    refine ⟨[], .none rfl rfl, by simp [PioHost.transferBlocks], ?_, by simp, by simp⟩
    change h.bytesToTransfer = d.blocksize * (d.blocks - h.blocksDone)
    rw [hbytes]
    congr 1
    omega
  | succ n ih =>
    have hpos : h.bytesToTransfer > 0 := by
      rw [hbytes]
      exact Nat.mul_pos (by omega) (Nat.succ_pos n)
    obtain ⟨ws, hblock⟩ := blockPio_moves core d (env h.blocksDone) h
    unfold PioHost.transferBlocks
    rw [if_pos hpos]
    change ∃ ws, Transferred d (n + 1) h (match h.blockPio core d (env h.blocksDone) with
      | (ret, h) => if ret ≠ 0 then (ret, h) else PioHost.transferBlocks core d env n h) ws
    generalize h.blockPio core d (env h.blocksDone) = result at hblock
    obtain ⟨ret, h₁⟩ := result
    simp only at hblock ⊢
    by_cases hret : ret ≠ 0
    · rw [if_pos hret]
      obtain ⟨hlen, hcounts⟩ := hblock.failed hret
      -- the block that stopped is not counted
      refine ⟨ws, hblock.moves, ?_, ?_, ?_, fun hz => absurd hz hret⟩
      · rw [Nat.div_eq_of_lt hlen]
        exact hcounts.blocksDone
      · rw [hcounts.bytesToTransfer, hcounts.blocksDone, hbytes]
        congr 1
        omega
      · rw [Nat.mul_succ]
        omega
    · rw [if_neg hret]
      obtain ⟨hlen, hbytes₁, hdone₁⟩ := hblock.done (by simpa using hret)
      simp only at hbytes₁ hdone₁
      have hnext : h₁.bytesToTransfer = d.blocksize * n := by
        rw [hbytes₁, hbytes, Nat.mul_succ, Nat.add_sub_cancel]
      obtain ⟨ws', hrest⟩ := ih h₁ (by omega) hnext
      -- the next block begins where the words of this one end
      have hat : d.addr + d.blocksize * h₁.blocksDone = d.addr + d.blocksize * h.blocksDone + 4 * ws.length := by
        rw [hdone₁, hlen, Nat.mul_succ, ← hsize, Nat.add_assoc]
      have hmoves := hrest.moves
      rw [hat] at hmoves
      refine ⟨ws ++ ws', hblock.moves.trans hmoves, ?_, hrest.bytes, ?_, fun hz => ?_⟩
      · rw [hrest.blocks, hdone₁, List.length_append, hlen, Nat.add_div_left _ hwords]
        omega
      · have hwithin := hrest.within
        rw [List.length_append, hlen, Nat.mul_succ]
        omega
      · rw [List.length_append, hlen, hrest.all hz, Nat.mul_succ, Nat.add_comm]

/-- A transfer that does not begin. -/
theorem Transferred.stop {n : ℕ} {ret : ℤ} (hstill : Still h h') (hret : ret ≠ 0)
    (hbytes : h.bytesToTransfer = d.blocksize * (d.blocks - h.blocksDone)) : Transferred d n h (ret, h') [] := by
  refine ⟨.none hstill.moved hstill.mem, ?_, ?_, Nat.zero_le _, fun hz => absurd hz hret⟩
  · rw [List.length_nil, Nat.zero_div]
    exact hstill.blocksDone
  · rw [hstill.bytesToTransfer, hstill.blocksDone]
    exact hbytes

/-- What comes before a transfer. -/
theorem Transferred.after {n : ℕ} {result : ℤ × PioHost} (ht : Transferred d n h' result ws) (hstill : Still h h') :
    Transferred d n h result ws := by
  have hmoves := ht.moves
  have hblocks := ht.blocks
  rw [hstill.blocksDone] at hmoves hblocks
  exact ⟨hmoves.after hstill.mem hstill.moved, hblocks, ht.bytes, ht.within, ht.all⟩

/-- What comes after a transfer. -/
theorem Transferred.before {n : ℕ} {ret ret' : ℤ} (ht : Transferred d n h (ret, h') ws) (hstill : Still h' h'')
    (hz : ret' = 0 → ret = 0) : Transferred d n h (ret', h'') ws := by
  refine ⟨ht.moves.before hstill, ?_, ?_, ht.within, fun h0 => ht.all (hz h0)⟩
  · exact hstill.blocksDone.trans ht.blocks
  · rw [hstill.bytesToTransfer, hstill.blocksDone]
    exact ht.bytes

theorem waitInterrupt_still (h : PioHost) (mask intstat : UInt32) : Still h (h.waitInterrupt mask intstat).2 := by
  unfold PioHost.waitInterrupt
  simp only
  split
  · exact ⟨⟨rfl, rfl⟩, rfl, rfl⟩
  · split
    · exact ⟨⟨rfl, rfl⟩, rfl, rfl⟩
    · exact ⟨⟨rfl, rfl⟩, rfl, rfl⟩

theorem switchBus_still (h : PioHost) (c : Cmd) : Still h (h.switchBus c) := by
  unfold PioHost.switchBus
  split
  · exact ⟨⟨rfl, rfl⟩, rfl, rfl⟩
  · exact ⟨⟨rfl, rfl⟩, rfl, rfl⟩

/-- **The data of a command**, with the counters as they were set up. -/
theorem sendData_moves (core : Core) (c : Cmd) (env : CmdEnv) (hd : d.bad = false) (h : PioHost)
    (hdone : h.blocksDone = 0) (hbytes : h.bytesToTransfer = d.blocksize * d.blocks) :
    ∃ ws, Transferred d d.blocks h (h.sendData core c d env) ws := by
  unfold PioHost.sendData
  simp only
  generalize (if d.isRead = true then EFX_EMMC_INT_BUFFER_READ_RDY else EFX_EMMC_INT_BUFFER_WRITE_RDY) = mask
  have hready := waitInterrupt_still h mask env.bufferReady
  generalize h.waitInterrupt mask env.bufferReady = result at hready
  obtain ⟨ret, h₁⟩ := result
  simp only at hready ⊢
  by_cases hret : ret ≠ 0
  · rw [if_pos hret]
    exact ⟨[], .stop hready hret (by rw [hbytes, hdone, Nat.sub_zero])⟩
  rw [if_neg hret]
  obtain ⟨ws, ht⟩ := transferBlocks_moves core env.words hd d.blocks h₁
    (by rw [hready.blocksDone, hdone, Nat.zero_add]) (by rw [hready.bytesToTransfer, hbytes])
  replace ht := ht.after hready
  unfold PioHost.transferPio
  generalize PioHost.transferBlocks core d env.words d.blocks h₁ = result at ht
  obtain ⟨ret₂, h₂⟩ := result
  simp only
  by_cases hret₂ : ret₂ ≠ 0
  · rw [if_pos hret₂]
    exact ⟨ws, ht⟩
  rw [if_neg hret₂]
  have hz : ret₂ = 0 := by simpa using hret₂
  -- the wait for the end of the transfer moves nothing, whatever it returns
  cases core.mmcIsTuningCmd c.cmdidx with
  | true => exact ⟨ws, ht.before ⟨⟨rfl, rfl⟩, rfl, rfl⟩ fun _ => hz⟩
  | false => exact ⟨ws, ht.before (waitInterrupt_still h₂ _ _) fun _ => hz⟩

/-! ## The command -/

/-- What a command did: nothing before its set-up, and the transfer after it. -/
theorem sendCmd_early (core : Core) (h : PioHost) (env : CmdEnv) (hlen : c.badLength = false) (hd : d.bad = false)
    (hno : ¬ SetUp c env) :
    (h.sendCmd core c (some d) env).1 ≠ 0 ∧ Still h (h.sendCmd core c (some d) env).2 := by
  unfold PioHost.sendCmd
  rw [if_neg (by rw [hlen]; exact Bool.false_ne_true), if_neg (by rw [Option.any_some, hd]; exact Bool.false_ne_true)]
  by_cases hsd : c.isSd = true
  · rw [if_pos hsd]
    exact ⟨show -ETIMEDOUT ≠ 0 by decide, ⟨rfl, rfl⟩, rfl, rfl⟩
  · rw [if_neg hsd]
    have hline : PioHost.waitCmdReady env.line ≠ 0 := fun hz => hno ⟨by simpa using hsd, hz⟩
    rw [if_pos hline]
    exact ⟨hline, ⟨rfl, rfl⟩, rfl, rfl⟩

theorem sendCmd_late (core : Core) (h : PioHost) (env : CmdEnv) (hlen : c.badLength = false) (hd : d.bad = false)
    (hyes : SetUp c env) :
    ∃ ws, Transferred d d.blocks (h.issue c (some d)) (h.sendCmd core c (some d) env) ws := by
  obtain ⟨hsd, hline⟩ := hyes
  unfold PioHost.sendCmd
  rw [if_neg (by rw [hlen]; exact Bool.false_ne_true), if_neg (by rw [Option.any_some, hd]; exact Bool.false_ne_true),
    if_neg (by rw [hsd]; exact Bool.false_ne_true), if_neg (by rw [hline]; exact fun hne => hne rfl)]
  have hdone : (h.issue c (some d)).blocksDone = 0 := rfl
  have hbytes : (h.issue c (some d)).bytesToTransfer = d.blocksize * d.blocks := rfl
  generalize h.issue c (some d) = h₀ at hdone hbytes ⊢
  have hcomplete := waitInterrupt_still h₀ EFX_EMMC_INT_CMD_COMPLETE env.cmdComplete
  generalize h₀.waitInterrupt EFX_EMMC_INT_CMD_COMPLETE env.cmdComplete = result at hcomplete
  obtain ⟨ret, h₁⟩ := result
  simp only at hcomplete ⊢
  by_cases hret : ret ≠ 0
  · rw [if_pos hret]
    have hrecovered : Still h₁ (h₁.recovered env.reset) := ⟨⟨rfl, rfl⟩, rfl, rfl⟩
    exact ⟨[], .stop (hcomplete.trans hrecovered) hret (by rw [hbytes, hdone, Nat.sub_zero])⟩
  rw [if_neg hret]
  have hresponse : Still h₀ { h₁ with response := c.readResponse env.resp h₁.response } :=
    hcomplete.trans ⟨⟨rfl, rfl⟩, rfl, rfl⟩
  generalize { h₁ with response := c.readResponse env.resp h₁.response } = h₂ at hresponse ⊢
  obtain ⟨ws, ht⟩ := sendData_moves core c env hd h₂ (hresponse.blocksDone.trans hdone)
    (hresponse.bytesToTransfer.trans hbytes)
  replace ht := ht.after hresponse
  generalize h₂.sendData core c d env = result at ht
  obtain ⟨ret₃, h₃⟩ := result
  refine ⟨ws, ?_⟩
  simp only
  by_cases hret₃ : ret₃ ≠ 0
  · rw [if_pos hret₃]
    exact ht.before ⟨⟨rfl, rfl⟩, rfl, rfl⟩ fun hz => hz
  rw [if_neg hret₃]
  have hz : ret₃ = 0 := by simpa using hret₃
  cases core.mmcIsTuningCmd c.cmdidx with
  | true => exact ht.before ⟨⟨rfl, rfl⟩, rfl, rfl⟩ fun _ => hz
  | false => exact ht.before (switchBus_still h₃ c) fun _ => hz

/-- **A data command moves its words in order, within its buffer, and all of them when it returns 0.** One that
fails after its set-up has counted the blocks that it moved, one that fails before it changes nothing, and both
ways to access the buffer are the same. -/
theorem send_cmd_moves (core : Core) (h : PioHost) (c : Cmd) (d : Data) (env : CmdEnv) (hlen : c.badLength = false)
    (hd : d.bad = false) :
    (∃ ws, WordsMoved d.isRead d.addr h (h.sendCmd core c (some d) env).2 ws ∧
      4 * ws.length ≤ d.blocksize * d.blocks ∧
      ((h.sendCmd core c (some d) env).1 = 0 → 4 * ws.length = d.blocksize * d.blocks)) ∧
    (SetUp c env → ErrorCounted core h c d env) ∧
    (¬ SetUp c env → (h.sendCmd core c (some d) env).1 ≠ 0 ∧ Still h (h.sendCmd core c (some d) env).2) ∧
    (∀ words buf n i h',
      PioHost.readWords core words buf true n i h' = PioHost.readWords core words buf false n i h' ∧
      PioHost.writeWords core words buf true n i h' = PioHost.writeWords core words buf false n i h') := by
  obtain ⟨hsize, -⟩ := blocksize_eq hd
  have hearly := sendCmd_early core h env hlen hd
  have hlate := sendCmd_late core h env hlen hd
  refine ⟨?_, fun hyes => ?_, hearly, fun words buf n i h' =>
    ⟨readWords_aligned core words buf n i h', writeWords_aligned core words buf n i h'⟩⟩
  · by_cases hup : SetUp c env
    · obtain ⟨ws, ht⟩ := hlate hup
      have hmoves : WordsMoved d.isRead d.addr (h.issue c (some d)) (h.sendCmd core c (some d) env).2 ws := ht.moves
      refine ⟨ws, hmoves.after rfl rfl, ?_, fun hz => ?_⟩
      · rw [hsize, Nat.mul_assoc]
        exact Nat.mul_le_mul_left 4 ht.within
      · rw [hsize, Nat.mul_assoc, ht.all hz]
    · obtain ⟨hne, hstill⟩ := hearly hup
      exact ⟨[], .none hstill.moved hstill.mem, Nat.zero_le _, fun hz => absurd hz hne⟩
  · obtain ⟨ws, ht⟩ := hlate hyes
    intro _ ws' hws'
    -- the words are those that went through the data port
    have hport : (h.sendCmd core c (some d) env).2.moved = h.moved ++ ws := ht.moves.port
    have hsame : ws' = ws := List.append_cancel_left (hws'.symm.trans hport)
    rw [hsame]
    refine ⟨?_, ht.bytes⟩
    rw [ht.blocks]
    exact Nat.zero_add _

/-! ### A block at address 3, and a busy command line after it -/

/-- U-Boot's accesses, byte by byte. -/
def byteCore : Core where
  putUnalignedLe32 := storeWord
  getUnalignedLe32 := loadWord
  mmcIsTuningCmd := fun idx => idx == 19 || idx == 21
  put_byte := storeWord_byte
  put_other := storeWord_other
  get_bytes := loadWord_toNat

/-- After the probe, with a clear memory. -/
def idlePio : PioHost :=
  ⟨Dev.probed 200 false false ⟨false, 0, 0, 0, 0, 0, fun _ => 0⟩, fun _ => 0, 0, 0, [], [0, 0, 0, 0], []⟩

/-- CMD17, whose response is R1. -/
def readSingle : Cmd := ⟨17, 0, 0x15⟩

/-- One block of two words. -/
def blockAt3 : Data := ⟨3, 8, 1, MMC_DATA_READ⟩

/-- All goes well; the second word is late. -/
def readyEnv : CmdEnv where
  line := 0
  cmdComplete := 0x1
  bufferReady := 0x20
  xferComplete := 0x2
  resp := fun _ => 0x900
  words := fun _ i => if i = 0 then ⟨0x800, [], 0x04030201⟩ else ⟨0, [(0, 0), (0, 0x800)], 0x08070605⟩
  reset := ⟨false, 0, 0, 0, 0, 0, fun _ => 0⟩

theorem send_cmd_moves_at_3 : ∃ ws,
    WordsMoved true 3 idlePio (idlePio.sendCmd byteCore readSingle (some blockAt3) readyEnv).2 ws ∧
    4 * ws.length = 8 ∧
    (List.range 10).map (fun k => (idlePio.sendCmd byteCore readSingle (some blockAt3) readyEnv).2.mem (2 + k)) =
      [0, 1, 2, 3, 4, 5, 6, 7, 8, 0] := by
  obtain ⟨ws, hmoves, -, hall⟩ :=
    (send_cmd_moves byteCore idlePio readSingle blockAt3 readyEnv (by decide) (by decide)).1
  have hret : (idlePio.sendCmd byteCore readSingle (some blockAt3) readyEnv).1 = 0 := by decide +kernel
  exact ⟨ws, hmoves, hall hret, by decide +kernel⟩

/-- **A busy command line** is an error after which the counters are still those of the last command. -/
theorem busy_line_keeps_counts : ∃ h env, idlePio.sendCmd byteCore readSingle (some blockAt3) readyEnv = (0, h) ∧
    (h.sendCmd byteCore readSingle (some blockAt3) env).1 = -ETIMEDOUT ∧
    (h.sendCmd byteCore readSingle (some blockAt3) env).2.moved = h.moved ∧
    (h.sendCmd byteCore readSingle (some blockAt3) env).2.blocksDone = 1 ∧
    ¬ ErrorCounted byteCore h readSingle blockAt3 env := by
  have hret : (idlePio.sendCmd byteCore readSingle (some blockAt3) readyEnv).1 = 0 := by decide +kernel
  have hdone : (idlePio.sendCmd byteCore readSingle (some blockAt3) readyEnv).2.blocksDone = 1 := by decide +kernel
  generalize idlePio.sendCmd byteCore readSingle (some blockAt3) readyEnv = result at hret hdone
  obtain ⟨ret, h⟩ := result
  refine ⟨h, { readyEnv with line := 0x1 }, Prod.ext hret rfl, rfl, rfl, hdone, ?_⟩
  intro hcounted
  obtain ⟨hblocks, -⟩ := hcounted (show -ETIMEDOUT ≠ 0 by decide) [] (List.append_nil _).symm
  exact absurd (hdone.symm.trans hblocks) (show ¬ 1 = 0 / 2 by decide)

end Br2Efinix.Emmc.UBoot
