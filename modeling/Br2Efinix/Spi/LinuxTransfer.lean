import Br2Efinix.Lib.Machine
import Br2Efinix.Spi.Controller

/-!
# A transfer of the Linux driver

`spi_spinal_lib_txrx` without the dummy cycle, with `spi_spinal_lib_rx` and `spi_spinal_lib_tx`: each
access of a register is a step, and so is what the controller does in between.

* `transfer_flows`: with FIFOs of more than one entry the tokens and the commands outstanding add
  up to the depth of the shorter FIFO at each loop head, no FIFO overruns, and the loop ends with
  what the loop of one byte at a time sends and receives.
* `bytewise_flows`: that loop ends so.
-/

namespace Br2Efinix.Spi

variable {σ : Type*}

/-- What a transfer reads of `struct spi_spinal_lib`, whose numbers are `u32`, and the device. The
controller has FIFOs of the depths given. -/
structure Transfer (σ : Type*) where
  cmdFifoDepth : ℕ
  rspFifoDepth : ℕ
  len : ℕ
  tx : Option (ℕ → BitVec 8)
  rx : Bool
  respond : Device σ
  cmdFifoDepth_lt : cmdFifoDepth < 2 ^ 32
  rspFifoDepth_lt : rspFifoDepth < 2 ^ 32
  len_lt : len < 2 ^ 32

/-- Where the driver is: at the head of the loop, in `spi_spinal_lib_rx` before it waits for an answer
or reads it, in `spi_spinal_lib_tx` before it waits for room or writes the command, with `i` of the
burst behind it, or in the loop of one byte at a time, at its head or before a read. -/
inductive Pc
  | head
  | rx (burst i : ℕ)
  | pull (burst i : ℕ)
  | tx (burst i : ℕ)
  | put (burst i : ℕ)
  | byteHead
  | bytePull
  | done
  deriving DecidableEq, Repr

structure Txrx (σ : Type*) where
  ctrl : Controller σ
  pc : Pc
  token : ℕ
  count : ℕ
  txCount : ℕ
  buf : ℕ → BitVec 8

inductive TxrxAct
  | driver (blank : BitVec 8)
  | take
  | finish
  deriving Repr

namespace Transfer

/-- The command for byte `i`. -/
def word (x : Transfer σ) (i : ℕ) : ℕ := dataWord x.tx i

/-- The shorter FIFO's depth. -/
def credit (x : Transfer σ) : ℕ := min x.cmdFifoDepth x.rspFifoDepth

def store (x : Transfer σ) (buf : ℕ → BitVec 8) (i : ℕ) (b : BitVec 8) : ℕ → BitVec 8 :=
  if x.rx then fun j => if j = i then b else buf j else buf

/-- The next step of the driver. -/
def driverStep (x : Transfer σ) (s : Txrx σ) (blank : BitVec 8) : Option (Txrx σ) :=
  match s.pc with
  | .head => some { s with pc := if s.count < x.len then .rx s.ctrl.occupancy 0 else .done }
  | .rx burst i =>
    if i = burst then
      let token := add32 s.token burst
      some { s with
        pc := .tx (min (sub32 x.len s.txCount) token) 0, token := token, count := add32 s.count burst }
    else if x.rx = true ∧ s.ctrl.occupancy = 0 then some s
    else some { s with pc := .pull burst i }
  | .pull burst i =>
    some { s with
      pc := .rx burst (i + 1), ctrl := (s.ctrl.pull blank).2
      buf := x.store s.buf (s.count + i) (s.ctrl.pull blank).1 }
  | .tx burst i =>
    if i = burst then
      some { s with pc := .head, token := sub32 s.token burst, txCount := add32 s.txCount burst }
    else if s.ctrl.availability x.cmdFifoDepth = 0 then some s
    else some { s with pc := .put burst i }
  | .put burst i =>
    some { s with pc := .tx burst (i + 1), ctrl := s.ctrl.put x.cmdFifoDepth (x.word (s.txCount + i)) }
  | .byteHead =>
    if s.count < x.len then
      some { s with pc := .bytePull, ctrl := s.ctrl.put x.cmdFifoDepth (x.word s.count) }
    else some { s with pc := .done }
  | .bytePull =>
    -- the read is tried again until it shows an answer
    if s.ctrl.rsp = [] then some s
    else some { s with
      pc := .byteHead, ctrl := (s.ctrl.pull blank).2, buf := x.store s.buf s.count (s.ctrl.pull blank).1
      count := add32 s.count 1 }
  | .done => none

def next (x : Transfer σ) (s : Txrx σ) : TxrxAct → Option (Txrx σ)
  | .driver blank => x.driverStep s blank
  | .take => s.ctrl.take.map fun c => { s with ctrl := c }
  | .finish => (s.ctrl.finish x.respond x.rspFifoDepth).map fun c => { s with ctrl := c }

/-- The call begins, with nothing in the FIFOs. -/
def start (x : Transfer σ) (dev : σ) (buf : ℕ → BitVec 8) : Txrx σ :=
  { ctrl := .empty dev, pc := if 1 < x.cmdFifoDepth ∧ 1 < x.rspFifoDepth then .head else .byteHead
    token := x.credit, count := 0, txCount := 0, buf := buf }

def machine (x : Transfer σ) (dev : σ) (buf : ℕ → BitVec 8) : Machine (Txrx σ) TxrxAct :=
  { init := (· = x.start dev buf), step := x.next }

end Transfer

/-! ## One byte at a time -/

/-- The device, the commands done and the receive buffer. -/
structure Outcome (σ : Type*) where
  dev : σ
  sent : List ℕ
  buf : ℕ → BitVec 8

namespace Transfer

/-- The loop of one byte at a time after `n` rounds. -/
def bytewise (x : Transfer σ) (dev : σ) (buf : ℕ → BitVec 8) : ℕ → Outcome σ
  | 0 => ⟨dev, [], buf⟩
  | n + 1 =>
    let o := bytewise x dev buf n
    let r := x.respond o.dev (x.word n)
    ⟨r.1, o.sent ++ [x.word n], x.store o.buf n r.2⟩

variable (x : Transfer σ) (dev : σ) (buf : ℕ → BitVec 8)

theorem bytewise_dev : ∀ n, (x.bytewise dev buf n).dev = after x.respond x.word dev n := by
  intro n
  induction n with
  | zero => rfl
  | succ n ih =>
    unfold bytewise after
    simp only
    rw [ih]

theorem bytewise_sent : ∀ n, (x.bytewise dev buf n).sent = (List.range n).map x.word := by
  intro n
  induction n with
  | zero => rfl
  | succ n ih =>
    unfold bytewise
    simp only
    rw [ih, List.range_succ, List.map_append, List.map_singleton]

theorem bytewise_buf (n : ℕ) :
    (x.bytewise dev buf (n + 1)).buf =
      x.store (x.bytewise dev buf n).buf n (answer x.respond x.word dev n) := by
  unfold answer
  rw [← bytewise_dev x dev buf]
  rfl

/-- Each answer is stored in its place. -/
theorem bytewise_answer (hrx : x.rx = true) {i : ℕ} : ∀ {n}, i < n →
    (x.bytewise dev buf n).buf i = answer x.respond x.word dev i := by
  intro n hi
  induction n with
  | zero => exact absurd hi (Nat.not_lt_zero i)
  | succ n ih =>
    rw [bytewise_buf]
    unfold store
    rw [if_pos hrx]
    by_cases heq : i = n
    · rw [if_pos heq, heq]
    · rw [if_neg heq]
      exact ih (by omega)

/-- Every command of a transfer is answered. -/
theorem word_reads : ∀ i, reads (x.word i) = true := reads_dataWord x.tx

end Transfer

/-! ## The invariant -/

/-- The answers read. -/
def Txrx.readBy (s : Txrx σ) : ℕ :=
  match s.pc with
  | .rx _ i | .pull _ i => s.count + i
  | _ => s.count

/-- The commands written. -/
def Txrx.writtenBy (s : Txrx σ) : ℕ :=
  match s.pc with
  | .tx _ i | .put _ i => s.txCount + i
  | _ => s.txCount

/-- What the driver knows at each place, with `p` commands done. -/
def Placed (x : Transfer σ) (s : Txrx σ) (p : ℕ) : Prop :=
  match s.pc with
  | .head => True
  | .rx burst i => i ≤ burst ∧ s.count + burst ≤ p
  | .pull burst i => i < burst ∧ s.count + burst ≤ p
  | .tx burst i => i ≤ burst ∧ burst ≤ s.token ∧ s.txCount + burst ≤ x.len
  | .put burst i =>
    i < burst ∧ burst ≤ s.token ∧ s.txCount + burst ≤ x.len ∧ s.ctrl.cmd.length < x.cmdFifoDepth
  | .done => x.len ≤ s.count
  | .byteHead | .bytePull => False

structure TxrxInv (x : Transfer σ) (dev : σ) (buf : ℕ → BitVec 8) (s : Txrx σ) : Prop where
  count_le : s.count ≤ s.txCount
  txCount_le : s.txCount ≤ x.len
  credit : s.token + (s.txCount - s.count) = x.credit
  flow : ∃ p, Flow x.respond x.word dev s.ctrl s.readBy p s.writtenBy ∧ Placed x s p
  buf : s.buf = (x.bytewise dev buf s.readBy).buf

variable {x : Transfer σ} {dev : σ} {buf : ℕ → BitVec 8} {s s' : Txrx σ}

theorem start_inv (hcmd : 1 < x.cmdFifoDepth) (hrsp : 1 < x.rspFifoDepth) :
    TxrxInv x dev buf (x.start dev buf) := by
  have hpc : (x.start dev buf).pc = .head := if_pos ⟨hcmd, hrsp⟩
  refine ⟨Nat.le_refl _, Nat.zero_le _, rfl, ⟨0, ?_, ?_⟩, ?_⟩
  · unfold Txrx.readBy Txrx.writtenBy
    rw [hpc]
    exact empty_flow _ _ _
  · unfold Placed
    rw [hpc]
    trivial
  · unfold Txrx.readBy
    rw [hpc]
    rfl

/-- No more commands are outstanding than either FIFO holds. -/
theorem TxrxInv.outstanding (h : TxrxInv x dev buf s) : s.writtenBy - s.readBy ≤ x.credit := by
  obtain ⟨p, -, hplaced⟩ := h.flow
  have hcredit := h.credit
  have hle := h.count_le
  unfold Placed at hplaced
  unfold Txrx.writtenBy Txrx.readBy
  cases hpc : s.pc with
  | tx burst i =>
    rw [hpc] at hplaced
    have hburst := hplaced.2.1
    have hi := hplaced.1
    simp only
    omega
  | put burst i =>
    rw [hpc] at hplaced
    have hburst := hplaced.2.1
    have hi := hplaced.1
    simp only
    omega
  | head | rx burst i | pull burst i | byteHead | bytePull | done =>
    simp only
    omega

/-! ## The controller's steps -/

theorem take_inv (h : TxrxInv x dev buf s) (hstep : x.next s .take = some s') : TxrxInv x dev buf s' := by
  obtain ⟨c, htake, rfl⟩ := Option.map_eq_some_iff.1 hstep
  obtain ⟨p, hflow, hplaced⟩ := h.flow
  refine ⟨h.count_le, h.txCount_le, h.credit, ⟨p, hflow.take htake, ?_⟩, h.buf⟩
  have hlength := Controller.take_length htake
  unfold Placed at hplaced ⊢
  cases hpc : s.pc with
  | put burst i =>
    rw [hpc] at hplaced
    obtain ⟨hi, hburst, hlen, hroom⟩ := hplaced
    exact ⟨hi, hburst, hlen, Nat.lt_of_le_of_lt hlength hroom⟩
  | head | rx burst i | pull burst i | tx burst i | byteHead | bytePull | done =>
    rw [hpc] at hplaced
    exact hplaced

theorem finish_inv (h : TxrxInv x dev buf s) (hstep : x.next s .finish = some s') : TxrxInv x dev buf s' := by
  obtain ⟨c, hfinish, rfl⟩ := Option.map_eq_some_iff.1 hstep
  obtain ⟨p, hflow, hplaced⟩ := h.flow
  have hroom : s.writtenBy - s.readBy ≤ x.rspFifoDepth :=
    Nat.le_trans h.outstanding (Nat.min_le_right _ _)
  refine ⟨h.count_le, h.txCount_le, h.credit, ⟨p + 1, hflow.finish x.word_reads hroom hfinish, ?_⟩, h.buf⟩
  have hcmd := Controller.finish_cmd hfinish
  unfold Placed at hplaced ⊢
  cases hpc : s.pc with
  | put burst i =>
    rw [hpc] at hplaced
    simp only
    rw [hcmd]
    exact hplaced
  | rx burst i | pull burst i =>
    rw [hpc] at hplaced
    exact ⟨hplaced.1, Nat.le_succ_of_le hplaced.2⟩
  | head | tx burst i | byteHead | bytePull | done =>
    rw [hpc] at hplaced
    exact hplaced

/-! ## The driver's steps -/

theorem credit_lt (x : Transfer σ) : x.credit < 2 ^ 32 :=
  Nat.lt_of_le_of_lt (Nat.min_le_left _ _) x.cmdFifoDepth_lt

/-- **The loop's head**: the burst is no longer than what is there to be read. -/
theorem head_inv {blank : BitVec 8} (h : TxrxInv x dev buf s) (hpc : s.pc = .head)
    (hstep : x.driverStep s blank = some s') : TxrxInv x dev buf s' := by
  obtain ⟨p, hflow, -⟩ := h.flow
  have hbuf := h.buf
  unfold Txrx.readBy Txrx.writtenBy at hflow
  unfold Txrx.readBy at hbuf
  rw [hpc] at hflow hbuf
  unfold Transfer.driverStep at hstep
  rw [hpc] at hstep
  obtain rfl := Option.some.inj hstep
  by_cases hmore : s.count < x.len
  · rw [if_pos hmore]
    refine ⟨h.count_le, h.txCount_le, h.credit, ⟨p, hflow, Nat.zero_le _, ?_⟩, hbuf⟩
    have hoccupancy := s.ctrl.occupancy_le
    have hlength := hflow.rsp_length
    have hle := hflow.read_le
    simp only at hlength hle ⊢
    omega
  · rw [if_neg hmore]
    exact ⟨h.count_le, h.txCount_le, h.credit, ⟨p, hflow, not_lt.1 hmore⟩, hbuf⟩

/-- **`spi_spinal_lib_rx`**: every read finds an answer, and what is read is credited. -/
theorem rx_inv {blank : BitVec 8} {burst i : ℕ} (h : TxrxInv x dev buf s) (hpc : s.pc = .rx burst i)
    (hstep : x.driverStep s blank = some s') : TxrxInv x dev buf s' := by
  obtain ⟨p, hflow, hplaced⟩ := h.flow
  have hbuf := h.buf
  have hcredit := h.credit
  have hcredit_lt := credit_lt x
  have hcount := h.count_le
  have htxCount := h.txCount_le
  have hlen := x.len_lt
  unfold Txrx.readBy Txrx.writtenBy at hflow
  unfold Txrx.readBy at hbuf
  unfold Placed at hplaced
  rw [hpc] at hflow hbuf hplaced
  simp only at hflow hbuf hplaced
  unfold Transfer.driverStep at hstep
  rw [hpc] at hstep
  simp only at hstep
  split at hstep
  · rename_i hdone
    obtain rfl := Option.some.inj hstep
    subst hdone
    have hread : s.count + i ≤ s.txCount := Nat.le_trans hplaced.2 hflow.done_le
    obtain ⟨htoken, hcount', hleft, hsum, hwithin⟩ := credit_read hread htxCount hlen hcredit hcredit_lt
    rw [htoken, hcount', hleft]
    exact ⟨hread, htxCount, hsum,
      ⟨p, hflow, Nat.zero_le _, Nat.min_le_right _ _, hwithin⟩, hbuf⟩
  · rename_i hmore
    have hlt : i < burst := by
      have := hplaced.1
      omega
    split at hstep
    · obtain rfl := Option.some.inj hstep
      exact h
    · obtain rfl := Option.some.inj hstep
      exact ⟨hcount, htxCount, hcredit, ⟨p, hflow, hlt, hplaced.2⟩, hbuf⟩

theorem pull_inv {blank : BitVec 8} {burst i : ℕ} (h : TxrxInv x dev buf s) (hpc : s.pc = .pull burst i)
    (hstep : x.driverStep s blank = some s') : TxrxInv x dev buf s' := by
  obtain ⟨p, hflow, hplaced⟩ := h.flow
  have hbuf := h.buf
  unfold Txrx.readBy Txrx.writtenBy at hflow
  unfold Txrx.readBy at hbuf
  unfold Placed at hplaced
  rw [hpc] at hflow hbuf hplaced
  simp only at hflow hbuf hplaced
  unfold Transfer.driverStep at hstep
  rw [hpc] at hstep
  obtain rfl := Option.some.inj hstep
  obtain ⟨hanswer, hread⟩ := hflow.pull (by omega) blank
  refine ⟨h.count_le, h.txCount_le, h.credit, ⟨p, hread, ?_, hplaced.2⟩, ?_⟩
  · show i + 1 ≤ burst
    omega
  · show x.store s.buf (s.count + i) (s.ctrl.pull blank).1 = (x.bytewise dev buf (s.count + i + 1)).buf
    rw [x.bytewise_buf dev buf, hanswer, hbuf]

/-- **`spi_spinal_lib_tx`**: a command is written with a token, into a FIFO with room. -/
theorem tx_inv {blank : BitVec 8} {burst i : ℕ} (h : TxrxInv x dev buf s) (hpc : s.pc = .tx burst i)
    (hstep : x.driverStep s blank = some s') : TxrxInv x dev buf s' := by
  obtain ⟨p, hflow, hplaced⟩ := h.flow
  have hbuf := h.buf
  have hcredit := h.credit
  have hcredit_lt := credit_lt x
  have hcount := h.count_le
  have hlen := x.len_lt
  unfold Txrx.readBy Txrx.writtenBy at hflow
  unfold Txrx.readBy at hbuf
  unfold Placed at hplaced
  rw [hpc] at hflow hbuf hplaced
  simp only at hflow hbuf hplaced
  obtain ⟨hi, hburst, hleft⟩ := hplaced
  unfold Transfer.driverStep at hstep
  rw [hpc] at hstep
  simp only at hstep
  split at hstep
  · rename_i hdone
    obtain rfl := Option.some.inj hstep
    subst hdone
    obtain ⟨htoken, htxCount, hle, hsum⟩ := credit_write hcount hburst hleft hlen hcredit hcredit_lt
    rw [htoken, htxCount]
    exact ⟨hle, hleft, hsum, ⟨p, hflow, trivial⟩, hbuf⟩
  · rename_i hmore
    split at hstep
    · obtain rfl := Option.some.inj hstep
      exact h
    · rename_i hroom
      obtain rfl := Option.some.inj hstep
      have hlt : i < burst := by omega
      exact ⟨hcount, h.txCount_le, hcredit,
        ⟨p, hflow, hlt, hburst, hleft, Controller.room_of_availability hroom⟩, hbuf⟩

theorem put_inv {blank : BitVec 8} {burst i : ℕ} (h : TxrxInv x dev buf s) (hpc : s.pc = .put burst i)
    (hstep : x.driverStep s blank = some s') : TxrxInv x dev buf s' := by
  obtain ⟨p, hflow, hplaced⟩ := h.flow
  have hbuf := h.buf
  unfold Txrx.readBy Txrx.writtenBy at hflow
  unfold Txrx.readBy at hbuf
  unfold Placed at hplaced
  rw [hpc] at hflow hbuf hplaced
  simp only at hflow hbuf hplaced
  obtain ⟨hi, hburst, hleft, hroom⟩ := hplaced
  unfold Transfer.driverStep at hstep
  rw [hpc] at hstep
  obtain rfl := Option.some.inj hstep
  exact ⟨h.count_le, h.txCount_le, h.credit, ⟨p, hflow.put hroom, hi, hburst, hleft⟩, hbuf⟩

/-- **One step of the driver or of the controller.** -/
theorem next_inv {a : TxrxAct} (h : TxrxInv x dev buf s) (hstep : x.next s a = some s') : TxrxInv x dev buf s' := by
  cases a with
  | take => exact take_inv h hstep
  | finish => exact finish_inv h hstep
  | driver blank =>
    have hdriver : x.driverStep s blank = some s' := hstep
    cases hpc : s.pc with
    | head => exact head_inv h hpc hdriver
    | rx burst i => exact rx_inv h hpc hdriver
    | pull burst i => exact pull_inv h hpc hdriver
    | tx burst i => exact tx_inv h hpc hdriver
    | put burst i => exact put_inv h hpc hdriver
    | done =>
      unfold Transfer.driverStep at hdriver
      rw [hpc] at hdriver
      exact absurd hdriver (by simp)
    | byteHead | bytePull =>
      -- not in this loop
      obtain ⟨p, -, hplaced⟩ := h.flow
      unfold Placed at hplaced
      rw [hpc] at hplaced
      exact absurd hplaced id

theorem reach_txrx (hcmd : 1 < x.cmdFifoDepth) (hrsp : 1 < x.rspFifoDepth)
    (h : (x.machine dev buf).Reach (fun _ _ => True) s) : TxrxInv x dev buf s := by
  refine h.invariant (I := TxrxInv x dev buf) ?_ (fun s a s' hs _ hstep => next_inv hs hstep)
  rintro s rfl
  exact start_inv hcmd hrsp

/-- **The transfer flows**: the tokens are kept, no FIFO overruns, and it ends as the loop of one byte
at a time does, with the answer to each command in its place. -/
theorem transfer_flows (hcmd : 1 < x.cmdFifoDepth) (hrsp : 1 < x.rspFifoDepth)
    (h : (x.machine dev buf).Reach (fun _ _ => True) s) :
    (s.pc = .head → s.token + (s.txCount - s.count) = min x.cmdFifoDepth x.rspFifoDepth) ∧
      s.ctrl.overflow = false ∧ s.ctrl.overrun = false ∧ s.count ≤ s.txCount ∧ s.txCount ≤ x.len ∧
      (s.pc = .done → s.count = x.len ∧ s.ctrl.sent = (x.bytewise dev buf x.len).sent ∧
        s.buf = (x.bytewise dev buf x.len).buf ∧ s.ctrl.dev = (x.bytewise dev buf x.len).dev ∧
        (x.rx = true → ∀ i < x.len, s.buf i = answer x.respond x.word dev i)) := by
  have hinv := reach_txrx hcmd hrsp h
  obtain ⟨p, hflow, hplaced⟩ := hinv.flow
  refine ⟨fun _ => hinv.credit, hflow.overflow, hflow.overrun, hinv.count_le, hinv.txCount_le, ?_⟩
  intro hdone
  have hbuf := hinv.buf
  unfold Txrx.readBy Txrx.writtenBy at hflow
  unfold Txrx.readBy at hbuf
  unfold Placed at hplaced
  rw [hdone] at hflow hbuf hplaced
  simp only at hflow hbuf hplaced
  have hcount := hinv.count_le
  have htxCount := hinv.txCount_le
  have hread := hflow.read_le
  have hwritten := hflow.done_le
  -- all commands are done, and their answers read
  have hcountLen : s.count = x.len := by omega
  have hpLen : p = x.len := by omega
  have hbufLen : s.buf = (x.bytewise dev buf x.len).buf := by rw [hbuf, hcountLen]
  refine ⟨hcountLen, ?_, hbufLen, ?_, fun hrx i hi => ?_⟩
  · rw [hflow.sent, x.bytewise_sent, hpLen]
  · rw [hflow.dev, x.bytewise_dev, hpLen]
  · rw [hbufLen]
    exact x.bytewise_answer dev buf hrx hi

/-- A device that adds up its commands and answers with the sum. -/
def adder : Device ℕ := fun sum w => (sum + w, BitVec.ofNat 8 sum)

/-- Three bytes both ways, through FIFOs of two and three entries. -/
def threeBytes : Transfer ℕ :=
  { cmdFifoDepth := 2, rspFifoDepth := 3, len := 3, tx := some (fun i => BitVec.ofNat 8 (i + 1)), rx := true
    respond := adder, cmdFifoDepth_lt := by decide, rspFifoDepth_lt := by decide, len_lt := by decide }

/-- Two bytes go out at once, and the third when the first answer is read. -/
def threeBytesRun : List TxrxAct :=
  List.replicate 7 (.driver 0) ++ [.take, .finish, .take] ++ List.replicate 7 (.driver 0) ++
    [.finish, .take, .finish] ++ List.replicate 8 (.driver 0)

theorem transfer_flows_three :
    ∃ s, (threeBytes.machine 0 (fun _ => 0)).Reach (fun _ _ => True) s ∧ s.pc = .done ∧ s.ctrl.overflow = false ∧
      s.ctrl.overrun = false ∧ s.count = 3 ∧ s.ctrl.sent = (threeBytes.bytewise 0 (fun _ => 0) 3).sent ∧
      s.buf = (threeBytes.bytewise 0 (fun _ => 0) 3).buf ∧
      ∀ i < 3, s.buf i = answer threeBytes.respond threeBytes.word 0 i := by
  have hrun : ((threeBytes.machine 0 (fun _ => 0)).exec (threeBytes.start 0 (fun _ => 0)) threeBytesRun).map
      (fun s => (s.pc, s.token)) = some (.done, 2) := by decide +kernel
  obtain ⟨s, hexec, hs⟩ := Option.map_eq_some_iff.1 hrun
  simp only [Prod.mk.injEq] at hs
  have hreach : (threeBytes.machine 0 (fun _ => 0)).Reach (fun _ _ => True) s :=
    .of_exec rfl (Machine.along_true _ _) hexec
  have hflows := transfer_flows (by decide) (by decide) hreach
  obtain ⟨hcount, hsent, hbuf, -, hanswers⟩ := hflows.2.2.2.2.2 hs.1
  exact ⟨s, hreach, hs.1, hflows.2.1, hflows.2.2.1, hcount, hsent, hbuf, hanswers rfl⟩

/-! ## The loop of one byte at a time -/

/-- What holds at each place of that loop, with `w` commands written. -/
def BytePlaced (x : Transfer σ) (s : Txrx σ) (w : ℕ) : Prop :=
  match s.pc with
  | .byteHead => w = s.count
  | .bytePull => w = s.count + 1 ∧ s.count < x.len
  | .done => w = s.count ∧ x.len ≤ s.count
  | _ => False

structure ByteInv (x : Transfer σ) (dev : σ) (buf : ℕ → BitVec 8) (s : Txrx σ) : Prop where
  count_le : s.count ≤ x.len
  flow : ∃ p w, Flow x.respond x.word dev s.ctrl s.count p w ∧ w ≤ s.count + 1 ∧ BytePlaced x s w
  buf : s.buf = (x.bytewise dev buf s.count).buf

theorem byteStep_inv {blank : BitVec 8} (hcmd : 0 < x.cmdFifoDepth) (h : ByteInv x dev buf s)
    (hstep : x.driverStep s blank = some s') : ByteInv x dev buf s' := by
  obtain ⟨p, w, hflow, hone, hplaced⟩ := h.flow
  have hread := hflow.read_le
  have hdone := hflow.done_le
  have hlen := x.len_lt
  unfold BytePlaced at hplaced
  unfold Transfer.driverStep at hstep
  cases hpc : s.pc with
  | byteHead =>
    rw [hpc] at hstep hplaced
    simp only at hstep hplaced
    split at hstep
    · rename_i hmore
      obtain rfl := Option.some.inj hstep
      -- nothing is outstanding, so there is room
      have hlength := hflow.cmd_length
      have hroom : s.ctrl.cmd.length < x.cmdFifoDepth := by omega
      have hput := hflow.put hroom
      rw [hplaced] at hput
      exact ⟨h.count_le, ⟨p, s.count + 1, hput, Nat.le_refl _, rfl, hmore⟩, h.buf⟩
    · rename_i hmore
      obtain rfl := Option.some.inj hstep
      exact ⟨h.count_le, ⟨p, w, hflow, hone, hplaced, not_lt.1 hmore⟩, h.buf⟩
  | bytePull =>
    rw [hpc] at hstep hplaced
    simp only at hstep hplaced
    split at hstep
    · obtain rfl := Option.some.inj hstep
      exact h
    · rename_i hanswered
      obtain rfl := Option.some.inj hstep
      have hlength := hflow.rsp_length
      have hsome : s.ctrl.rsp.length ≠ 0 := fun hzero => hanswered (List.length_eq_zero_iff.1 hzero)
      obtain ⟨hanswer, hpull⟩ := hflow.pull (by omega) blank
      have hcount : add32 s.count 1 = s.count + 1 := add32_eq (by omega)
      rw [hcount]
      refine ⟨hplaced.2, ⟨p, w, hpull, Nat.le_succ_of_le hone, hplaced.1⟩, ?_⟩
      show x.store s.buf s.count (s.ctrl.pull blank).1 = (x.bytewise dev buf (s.count + 1)).buf
      rw [x.bytewise_buf dev buf, hanswer, h.buf]
  | done =>
    rw [hpc] at hstep
    exact absurd hstep (by simp)
  | head | rx burst i | pull burst i | tx burst i | put burst i =>
    rw [hpc] at hplaced
    exact absurd hplaced id

theorem byteNext_inv {a : TxrxAct} (hcmd : 0 < x.cmdFifoDepth) (hrsp : 0 < x.rspFifoDepth)
    (h : ByteInv x dev buf s) (hstep : x.next s a = some s') : ByteInv x dev buf s' := by
  obtain ⟨p, w, hflow, hone, hplaced⟩ := h.flow
  cases a with
  | driver blank => exact byteStep_inv hcmd h hstep
  | take =>
    obtain ⟨c, htake, rfl⟩ := Option.map_eq_some_iff.1 hstep
    exact ⟨h.count_le, ⟨p, w, hflow.take htake, hone, hplaced⟩, h.buf⟩
  | finish =>
    obtain ⟨c, hfinish, rfl⟩ := Option.map_eq_some_iff.1 hstep
    exact ⟨h.count_le, ⟨p + 1, w, hflow.finish x.word_reads (by omega) hfinish, hone, hplaced⟩, h.buf⟩

theorem reach_bytewise (hcmd : 0 < x.cmdFifoDepth) (hrsp : 0 < x.rspFifoDepth)
    (hone : ¬ (1 < x.cmdFifoDepth ∧ 1 < x.rspFifoDepth)) (h : (x.machine dev buf).Reach (fun _ _ => True) s) :
    ByteInv x dev buf s := by
  refine h.invariant (I := ByteInv x dev buf) ?_ (fun s a s' hs _ hstep => byteNext_inv hcmd hrsp hs hstep)
  rintro s rfl
  refine ⟨Nat.zero_le _, ⟨0, 0, empty_flow _ _ _, Nat.zero_le _, ?_⟩, rfl⟩
  unfold BytePlaced
  rw [show (x.start dev buf).pc = .byteHead from if_neg hone]
  rfl

/-- **One byte at a time**: without FIFOs to speak of the driver ends as `bytewise` does. -/
theorem bytewise_flows (hcmd : 0 < x.cmdFifoDepth) (hrsp : 0 < x.rspFifoDepth)
    (hone : ¬ (1 < x.cmdFifoDepth ∧ 1 < x.rspFifoDepth))
    (h : (x.machine dev buf).Reach (fun _ _ => True) s) (hdone : s.pc = .done) :
    s.ctrl.sent = (x.bytewise dev buf x.len).sent ∧ s.buf = (x.bytewise dev buf x.len).buf ∧
      s.ctrl.dev = (x.bytewise dev buf x.len).dev := by
  have hinv := reach_bytewise hcmd hrsp hone h
  obtain ⟨p, w, hflow, -, hplaced⟩ := hinv.flow
  unfold BytePlaced at hplaced
  rw [hdone] at hplaced
  have hcount := hinv.count_le
  have hread := hflow.read_le
  have hwritten := hflow.done_le
  have hcountLen : s.count = x.len := Nat.le_antisymm hcount hplaced.2
  have hpLen : p = x.len := by
    have hw := hplaced.1
    omega
  refine ⟨?_, ?_, ?_⟩
  · rw [hflow.sent, x.bytewise_sent, hpLen]
  · rw [hinv.buf, hcountLen]
  · rw [hflow.dev, x.bytewise_dev, hpLen]

end Br2Efinix.Spi
