import Br2Efinix.Emmc.Host

/-!
# DMA set-up and clean-up

The descriptor table of a request (`efx_emmc_adma_table_pre`), the bounce buffer
for segments the controller cannot address, and the mapping around both.
-/

namespace Br2Efinix.Emmc

/-- The memory of a scatterlist, entry by entry. -/
def memory (sg : List Scatterlist) : List (List UInt8) := sg.map (·.virt)

/-! ## The descriptor table -/

def admaMarkEnd (desc : ℕ → AdmaDesc) (k : ℕ) : ℕ → AdmaDesc := fun j =>
  if j = k then { desc k with attr := { (desc k).attr with endBit := true } } else desc j

/-- `efx_emmc_adma_set_desc`: `len` is passed as a `u16`, `addr` as a `u32`. -/
def admaSetDesc (desc : ℕ → AdmaDesc) (k addr len : ℕ) (attr : AdmaAttr) : ℕ → AdmaDesc := fun j =>
  if j = k then ⟨attr, UInt16.ofNat len, UInt32.ofNat addr⟩ else desc j

/-- `EFX_ADMA_DESC_VALID | EFX_ADMA_DESC_TRAN`. -/
def ADMA_VALID_TRAN : AdmaAttr := ⟨true, false, true⟩

/-- The number of descriptors in the table. -/
def ADMA_DESC_NUM : ℕ := EFX_ADMA_TABLE_SZ / ADMA_DESC_SIZE

/-- Whether some segment is unaligned (`use_bounce`). -/
def useBounce (entries : List Scatterlist) : Bool :=
  entries.any fun sg => sg.dmaAddress &&& 0x7 ≠ 0 || sg.dmaLen &&& 0x7 ≠ 0

/-- The table under construction, `desc_count` and the return value so far. -/
structure AdmaFill where
  desc : ℕ → AdmaDesc
  descCount : ℕ
  ret : ℤ

/-- `while (len > 0)`: one segment. Each round takes at least one byte, so `len`
rounds are enough. -/
def admaSplit (addr : ℕ) : ℕ → ℕ → ℕ → AdmaFill → AdmaFill
  | 0, _, _, t => t
  | fuel + 1, offset, len, t =>
    if len > 0 then
      let alignLen := min len EFX_ADMA_MAX_LEN
      if t.descCount ≥ ADMA_DESC_NUM then { t with ret := -EINVAL }
      else
        admaSplit addr fuel (offset + alignLen) (len - alignLen)
          { t with
            desc := admaSetDesc t.desc t.descCount (addr + offset) alignLen ADMA_VALID_TRAN
            descCount := t.descCount + 1 }
    else t

/-- The second `for_each_sg`: all segments, up to the first that does not fit. -/
def admaDirect : List Scatterlist → AdmaFill → AdmaFill
  | [], t => t
  | sg :: rest, t =>
    let t := admaSplit sg.dmaAddress sg.dmaLen 0 sg.dmaLen t
    if t.ret ≠ 0 then t else admaDirect rest t

/-- `memcpy` into the bounce buffer. -/
def memcpyAt (dst : ℕ → UInt8) (pos : ℕ) (src : List UInt8) : ℕ → UInt8 := fun k =>
  if pos ≤ k then src.getD (k - pos) (dst k) else dst k

/-- The copy loop of a write: every entry's bytes, one after the other. -/
def bounceFill : List Scatterlist → ℕ → (ℕ → UInt8) → ℕ → UInt8
  | [], _, buf => buf
  | sg :: rest, pos, buf => bounceFill rest (pos + sg.length) (memcpyAt buf pos sg.virt)

/-- `efx_emmc_adma_table_pre`: the return value and the host after it. -/
def admaTablePre (h : Host) (data : MmcData) : ℤ × Host :=
  if useBounce data.entries then
    match h.bounceBuffer with
    | none => (-ENOMEM, h)
    | some buf =>
      if data.size > h.bounceBufferSize then (-EINVAL, h)
      else
        let buf := if data.read then buf else bounceFill data.entries 0 buf
        let desc := admaSetDesc h.admaDesc 0 h.bounceDma.addr data.size ADMA_VALID_TRAN
        (0, { h with
          bounceBuffer := some buf
          admaDesc := admaMarkEnd desc 0
          bounceActive := true
          bounceUsed := data.size })
  else
    let h := { h with bounceActive := false, bounceUsed := 0 }
    let t := admaDirect data.entries ⟨h.admaDesc, 0, 0⟩
    if t.ret ≠ 0 then (t.ret, { h with admaDesc := t.desc })
    else if t.descCount > 0 then (0, { h with admaDesc := admaMarkEnd t.desc (t.descCount - 1) })
    else (-EINVAL, { h with admaDesc := t.desc })

/-- The copy loop of a read: `min(sg->length, remaining)` bytes back to each entry. -/
def bounceDrain (buf : ℕ → UInt8) : List Scatterlist → ℕ → ℕ → List Scatterlist
  | [], _, _ => []
  | sg :: rest, pos, remaining =>
    let len := min sg.length remaining
    if len = 0 then sg :: rest
    else
      { sg with virt := (List.range len).map (fun k => buf (pos + k)) ++ sg.virt.drop len } ::
        bounceDrain buf rest (pos + len) (remaining - len)

/-! ## Mapping -/

namespace Host

/-- Update the data of the request in progress. -/
def modifyData (h : Host) (f : MmcData → MmcData) : Host :=
  h.setMrq (h.mrq.map (·.modifyData f))

/-- The id events are recorded under. -/
def mrqId (h : Host) : ℕ := (h.curId).getD 0

/-- `efx_emmc_adma_table_post`. -/
def admaTablePost (h : Host) (data : MmcData) : Host :=
  let h :=
    match h.bounceBuffer with
    | some buf =>
      if data.read && h.bounceActive then
        h.modifyData fun d =>
          { d with sg := bounceDrain buf d.entries 0 h.bounceUsed ++ d.sg.drop d.sgLen }
      else h
    | none => h
  { h with bounceActive := false, bounceUsed := 0 }

/-- `efx_emmc_set_adma_addr`. -/
def setAdmaAddr (h : Host) (addr : ℕ) : Host :=
  (h.writel .admaSysAddrLow (addr % 2 ^ 32)).writel .admaSysAddrHigh 0

end Host

/-- What `dma_map_sg` leaves: the segments it made, in the first entries. -/
def dmaMapSg (sg : List Scatterlist) (segs : List DmaSeg) : List Scatterlist :=
  sg.zipWith (fun e seg => { e with dma := seg }) segs ++ sg.drop segs.length

namespace Host

/-- `efx_emmc_prepare_dma`, on the request's data; `segs` is what the mapping
layer makes of its scatterlist, empty when it fails. -/
def prepareDma (h : Host) (data : MmcData) (segs : List DmaSeg) : Host :=
  if !h.useDma then h
  else if segs.length = 0 then h.setUseDma false
  else
    let data := { data with sg := dmaMapSg data.sg segs, sgLen := segs.length }
    let h := (h.modifyData fun _ => data).emit (.mapSg h.mrqId)
    match admaTablePre h data with
    | (ret, h) =>
      if ret ≠ 0 then (h.emit (.unmapSg h.mrqId)).setUseDma false
      else h.setAdmaAddr h.admaDescDma

/-- `efx_emmc_cleanup_dma`. -/
def cleanupDma (h : Host) (data : MmcData) : Host :=
  if !h.useDma then h
  else
    let h := h.admaTablePost data
    h.emit (.unmapSg h.mrqId)

end Host

end Br2Efinix.Emmc
