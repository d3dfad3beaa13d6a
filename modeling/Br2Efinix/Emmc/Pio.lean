import Br2Efinix.Emmc.Dma

/-!
# Programmed I/O

`efx_emmc_transfer_pio` moves up to one block of words between the data port and
the scatterlist. Reads and writes run the same loop in the two directions.

* `pioLoop_count`: the bytes still to transfer go down by four a word.
-/

namespace Br2Efinix.Emmc

/-- The four bytes of a word, as the little-endian core stores them. -/
def wordBytes (w : UInt32) : List UInt8 :=
  [w.toUInt8, (w >>> 8).toUInt8, (w >>> 16).toUInt8, (w >>> 24).toUInt8]

/-- `buf[i]`, for a word buffer at byte `off`. -/
def readWord (virt : List UInt8) (off : ℕ) : UInt32 :=
  let b := fun k => (virt.getD (off + k) 0).toUInt32
  b 0 ||| b 1 <<< 8 ||| b 2 <<< 16 ||| b 3 <<< 24

/-- Store words from byte `off` on. -/
def storeWords (virt : List UInt8) (off : ℕ) (words : List UInt32) : List UInt8 :=
  virt.take off ++ words.flatMap wordBytes ++ virt.drop (off + 4 * words.length)

/-- The scatterlist's memory and the locals of a transfer; `cur` is the index of
the entry that `sg` points to, `words` what went through the port. -/
structure PioState where
  sg : List Scatterlist
  cur : ℕ
  sgOffset : ℕ
  wordsTransferred : ℕ
  bytesToTransfer : ℕ
  words : List UInt32

/-- `while (sg && sg_offset >= sg->length)`. -/
def pioSkip (sg : List Scatterlist) : ℕ → ℕ → ℕ → ℕ × ℕ
  | 0, cur, off => (cur, off)
  | fuel + 1, cur, off =>
    match sg[cur]? with
    | some e => if off ≥ e.length then pioSkip sg fuel (cur + 1) (off - e.length) else (cur, off)
    | none => (cur, off)

/-- The transfer loop. `port i` is the `i`-th word that the data port yields. Each
round moves a word at least or leaves the loop. -/
def pioLoop (read : Bool) (port : ℕ → UInt32) (wordsInFifo : ℕ) : ℕ → PioState → PioState
  | 0, s => s
  | fuel + 1, s =>
    if s.wordsTransferred < wordsInFifo ∧ s.bytesToTransfer > 0 then
      let (cur, off) := pioSkip s.sg s.sg.length s.cur s.sgOffset
      match s.sg[cur]? with
      | none => { s with cur := cur, sgOffset := off }
      | some e =>
        let words := min (min ((e.length - off) / 4) (wordsInFifo - s.wordsTransferred))
          (s.bytesToTransfer / 4)
        if words = 0 then { s with cur := cur, sgOffset := off }
        else
          let moved :=
            if read then (List.range words).map fun i => port (s.wordsTransferred + i)
            else (List.range words).map fun i => readWord e.virt (off + 4 * i)
          pioLoop read port wordsInFifo fuel
            { sg := if read then s.sg.set cur { e with virt := storeWords e.virt off moved } else s.sg
              cur := cur
              sgOffset := off + words * 4
              wordsTransferred := s.wordsTransferred + words
              bytesToTransfer := s.bytesToTransfer - words * 4
              words := s.words ++ moved }
    else s

/-- What a transfer meets: the `EFX_EMMC_PRESENT_STATE` it reads, the port's words. -/
structure PioEnv where
  present : PresentState
  port : ℕ → UInt32

namespace Host

/-- The body that `efx_emmc_transfer_pio_read` and `..._write` share. -/
def transferPioDir (read : Bool) (h : Host) (port : ℕ → UInt32) : Host :=
  match h.curData with
  | none => h
  | some data =>
    if data.sg = [] then h
    else
      let wordsInFifo := data.blksz / 4
      let s := pioLoop read port wordsInFifo wordsInFifo ⟨data.sg, 0, h.sgOffset, 0, h.bytesToTransfer, []⟩
      { (h.modifyData fun d => { d with sg := s.sg }).emit (.pio h.mrqId s.words) with
        sgOffset := h.sgOffset + s.wordsTransferred * 4
        bytesToTransfer := s.bytesToTransfer
        blocksDone := (data.size - s.bytesToTransfer) / data.blksz }

def transferPioRead : Host → (ℕ → UInt32) → Host := transferPioDir true
def transferPioWrite : Host → (ℕ → UInt32) → Host := transferPioDir false

/-- `efx_emmc_transfer_pio`. -/
def transferPio (h : Host) (env : PioEnv) : Host :=
  match h.curData with
  | none => h
  | some data =>
    if data.read then
      if env.present.bufferReadEn then h.transferPioRead env.port else h
    else
      if env.present.bufferWriteEn then h.transferPioWrite env.port else h

end Host

/-- **Each word moved takes four bytes off what is left.** -/
theorem pioLoop_count (read : Bool) (port : ℕ → UInt32) (wordsInFifo : ℕ) :
    ∀ fuel s, (pioLoop read port wordsInFifo fuel s).bytesToTransfer +
        4 * (pioLoop read port wordsInFifo fuel s).words.length =
      s.bytesToTransfer + 4 * s.words.length := by
  intro fuel
  induction fuel with
  | zero => intro s; rfl
  | succ fuel ih =>
    intro s
    rw [pioLoop]
    split
    · simp only
      split
      · rfl
      · rename_i e he
        split
        · rfl
        · rename_i hw
          rw [ih]
          -- no more words are moved than there are bytes left
          have hmin : min (min ((e.length - (pioSkip s.sg s.sg.length s.cur s.sgOffset).2) / 4)
              (wordsInFifo - s.wordsTransferred)) (s.bytesToTransfer / 4) ≤ s.bytesToTransfer / 4 :=
            Nat.min_le_right _ _
          cases read <;>
            simp only [if_true, Bool.false_eq_true, if_false, List.length_append, List.length_map,
              List.length_range] <;> omega
    · rfl

end Br2Efinix.Emmc
