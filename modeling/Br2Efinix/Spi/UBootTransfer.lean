import Br2Efinix.Spi.Controller
import Br2Efinix.Spi.UBootSelect

/-!
# A transfer of the U-Boot driver

`vexriscv_spi_xfer` with FIFOs of any depths, any flags and buffers. Chip-select commands of the calls
before may be left in the command FIFO, and the controller may be at work on one; each access of a
register is a step, and so is what the controller does in between.

* `never_overruns_iff`: a call never writes to a full command FIFO and loses no answer, however slow
  the controller is, if and only if the commands left, the chip-select command of SPI_XFER_BEGIN
  and the first burst fit in together.
* `answers_fit`: no answer is lost in any case.
* `xfer_leaves`: a call leaves what the next may find.
* `burst_overruns`: SPI_XFER_BEGIN with as many bytes as the FIFO holds.
-/

namespace Br2Efinix.Spi.UBoot

variable {σ : Type*}

/-- A call: the bus with its plat data, the depths of the FIFOs, the arguments of the call and the
device. -/
structure Xfer (σ : Type*) where
  bus : Bus
  xlen : Xlen
  cmdFifoDepth : ℕ
  rspFifoDepth : ℕ
  bitlen : ℕ
  dout : Option (ℕ → BitVec 8)
  din : Bool
  begin_ : Bool
  end_ : Bool
  respond : Device σ
  cmdFifoDepth_lt : cmdFifoDepth < 2 ^ 32
  rspFifoDepth_lt : rspFifoDepth < 2 ^ 32

/-- What the call finds: chip-select commands that are not done, and no answers. -/
structure Entry (x : Xfer σ) where
  left : List ℕ
  working : Option ℕ
  dev : σ
  buf : ℕ → BitVec 8
  left_reads : ∀ w ∈ left, reads w = false
  working_reads : ∀ w, working = some w → reads w = false
  left_lt : left.length < x.cmdFifoDepth

/-- Where the call is: before the command of SPI_XFER_BEGIN or waiting after it, at the head of the loop,
before a read or a write with `i` of the burst behind it, before the command of SPI_XFER_END or
waiting after it, or in the loop of one byte at a time. -/
inductive XferPc
  | begin_
  | beginWait
  | head
  | rx (burst i : ℕ)
  | tx (burst i : ℕ)
  | end_
  | endWait
  | byteHead
  | bytePull
  | done
  deriving DecidableEq, Repr

structure XferState (σ : Type*) where
  ctrl : Controller σ
  pc : XferPc
  token : ℕ
  count : ℕ
  txCount : ℕ
  buf : ℕ → BitVec 8

inductive XferAct
  | driver (blank : BitVec 8)
  | take
  | finish
  deriving Repr

namespace Xfer

/-- `(bitlen + 7) / 8`. -/
def len (x : Xfer σ) : ℕ := add32 x.bitlen 7 / 8

def credit (x : Xfer σ) : ℕ := min x.cmdFifoDepth x.rspFifoDepth

def word (x : Xfer σ) (i : ℕ) : ℕ := dataWord x.dout i

/-- The command of SPI_XFER_BEGIN, or of SPI_XFER_END. -/
def select (x : Xfer σ) (begins : Bool) : ℕ :=
  (setCs x.bus.cs x.bus.mode (if begins then x.bus.activeLevel x.xlen else !x.bus.activeLevel x.xlen)).toNat

def store (x : Xfer σ) (buf : ℕ → BitVec 8) (i : ℕ) (b : BitVec 8) : ℕ → BitVec 8 :=
  if x.din then fun j => if j = i then b else buf j else buf

/-- The loop that the depths ask for. -/
def loop (x : Xfer σ) : XferPc := if 1 < x.cmdFifoDepth ∧ 1 < x.rspFifoDepth then .head else .byteHead

/-- After the loop. -/
def after (x : Xfer σ) : XferPc := if x.end_ then .end_ else .done

/-- The next step of the driver. -/
def driverStep (x : Xfer σ) (s : XferState σ) (blank : BitVec 8) : Option (XferState σ) :=
  match s.pc with
  | .begin_ => some { s with pc := .beginWait, ctrl := s.ctrl.put x.cmdFifoDepth (x.select true) }
  | .beginWait => some (if s.ctrl.availability x.cmdFifoDepth = 0 then s else { s with pc := x.loop })
  | .head => some { s with pc := if s.count < x.len then .rx s.ctrl.occupancy 0 else x.after }
  | .rx burst i =>
    if i = burst then
      let token := add32 s.token burst
      some { s with
        pc := .tx (min (sub32 x.len s.txCount) token) 0, token := token, count := add32 s.count burst }
    else
      some { s with
        pc := .rx burst (i + 1), ctrl := (s.ctrl.pull blank).2
        buf := x.store s.buf (s.count + i) (s.ctrl.pull blank).1 }
  | .tx burst i =>
    -- a command is written without a look at the room
    if i = burst then
      some { s with pc := .head, token := sub32 s.token burst, txCount := add32 s.txCount burst }
    else some { s with pc := .tx burst (i + 1), ctrl := s.ctrl.put x.cmdFifoDepth (x.word (s.txCount + i)) }
  | .end_ => some { s with pc := .endWait, ctrl := s.ctrl.put x.cmdFifoDepth (x.select false) }
  | .endWait => some (if s.ctrl.availability x.cmdFifoDepth = 0 then s else { s with pc := .done })
  | .byteHead =>
    if s.count < x.len then
      some { s with pc := .bytePull, ctrl := s.ctrl.put x.cmdFifoDepth (x.word s.count) }
    else some { s with pc := x.after }
  | .bytePull =>
    if s.ctrl.rsp = [] then some s
    else some { s with
      pc := .byteHead, ctrl := (s.ctrl.pull blank).2, buf := x.store s.buf s.count (s.ctrl.pull blank).1
      count := add32 s.count 1 }
  | .done => none

def next (x : Xfer σ) (s : XferState σ) : XferAct → Option (XferState σ)
  | .driver blank => x.driverStep s blank
  | .take => s.ctrl.take.map fun c => { s with ctrl := c }
  | .finish => (s.ctrl.finish x.respond x.rspFifoDepth).map fun c => { s with ctrl := c }

def start (x : Xfer σ) (e : Entry x) : XferState σ :=
  { ctrl := { Controller.empty e.dev with cmd := e.left, busy := e.working }
    pc := if x.begin_ then .begin_ else x.loop, token := x.credit, count := 0, txCount := 0, buf := e.buf }

def machine (x : Xfer σ) (e : Entry x) : Machine (XferState σ) XferAct :=
  { init := (· = x.start e), step := x.next }

/-- The commands in the FIFO when the loop begins, at most: those left, and that of SPI_XFER_BEGIN
unless the availability reads 0 with it. -/
def filled (x : Xfer σ) (e : Entry x) : ℕ :=
  e.left.length +
    if x.begin_ = true ∧ (x.cmdFifoDepth - (e.left.length + 1)) % 2 ^ 16 ≠ 0 then 1 else 0

/-- They leave room for the first burst. -/
def Fits (x : Xfer σ) (e : Entry x) : Prop := x.filled e + min x.len x.credit ≤ x.cmdFifoDepth

instance (x : Xfer σ) (e : Entry x) : Decidable (x.Fits e) := inferInstanceAs (Decidable (_ ≤ _))

end Xfer

/-! ## Chip-select commands ahead of data -/

/-- The commands being done that will be answered. -/
def answering (c : Controller σ) : ℕ :=
  match c.busy with
  | some w => if reads w then 1 else 0
  | none => 0

/-- At most `k` chip-select commands are in the FIFO, all ahead of the data, of which `r` answers were
read and no more than `w` commands written. -/
def Queue (c : Controller σ) (k r w : ℕ) : Prop :=
  ∃ ahead data, c.cmd = ahead ++ data ∧ (∀ v ∈ ahead, reads v = false) ∧ (∀ v ∈ data, reads v = true) ∧
    ahead.length ≤ k ∧ data.length + answering c + c.rsp.length + r ≤ w ∧
    (0 < answering c + c.rsp.length + r → ahead = [])

variable {c c' : Controller σ} {k r w : ℕ}

theorem Queue.take (h : Queue c k r w) (htake : c.take = some c') : Queue c' k r w := by
  obtain ⟨ahead, data, hcmd, hahead, hdata, hk, hw, hfirst⟩ := h
  unfold Controller.take at htake
  split at htake
  · rename_i v cmd hbusy hv
    obtain rfl := Option.some.inj htake
    have hidle : answering c = 0 := by
      unfold answering
      rw [hbusy]
    rw [hidle] at hw hfirst
    cases ahead with
    | nil =>
      cases data with
      | nil =>
        rw [hcmd] at hv
        exact absurd hv (by simp)
      | cons v' data =>
        rw [hcmd] at hv
        obtain ⟨rfl, rfl⟩ := List.cons.inj hv
        have hone : answering { c with busy := some v', cmd := data } = 1 := by
          show (if reads v' then 1 else 0) = 1
          rw [hdata v' List.mem_cons_self, if_pos rfl]
        refine ⟨[], data, rfl, hahead, fun u hu => hdata u (List.mem_cons_of_mem _ hu), Nat.zero_le _, ?_,
          fun _ => rfl⟩
        rw [hone]
        show data.length + 1 + c.rsp.length + r ≤ w
        rw [List.length_cons] at hw
        omega
    | cons v' ahead =>
      rw [hcmd] at hv
      obtain ⟨rfl, rfl⟩ := List.cons.inj hv
      have hzero : answering { c with busy := some v', cmd := ahead.append data } = 0 := by
        show (if reads v' then 1 else 0) = 0
        rw [hahead v' List.mem_cons_self]
        rfl
      rw [List.length_cons] at hk
      refine ⟨ahead, data, rfl, fun u hu => hahead u (List.mem_cons_of_mem _ hu), hdata, by omega, ?_,
        ?_⟩
      · rw [hzero]
        exact hw
      · intro hpos
        rw [hzero] at hpos
        exact absurd (hfirst hpos) (by simp)
  · exact absurd htake (by simp)

theorem Queue.finish {respond : Device σ} {rspFifoDepth : ℕ} (h : Queue c k r w) (hroom : w - r ≤ rspFifoDepth)
    (hover : c.overflow = false) (hfinish : c.finish respond rspFifoDepth = some c') :
    Queue c' k r w ∧ c'.overflow = false ∧ c.rsp.length ≤ c'.rsp.length := by
  obtain ⟨ahead, data, hcmd, hahead, hdata, hk, hw, hfirst⟩ := h
  unfold Controller.finish at hfinish
  cases hbusy : c.busy with
  | none =>
    rw [hbusy] at hfinish
    exact absurd hfinish (by simp)
  | some v =>
    rw [hbusy] at hfinish
    obtain rfl := Option.some.inj hfinish
    cases hv : reads v with
    | false =>
      have hzero : answering c = 0 := by
        unfold answering
        rw [hbusy]
        simp only [hv, Bool.false_eq_true, if_false]
      rw [if_pos rfl]
      rw [hzero] at hw hfirst
      exact ⟨⟨ahead, data, hcmd, hahead, hdata, hk, hw, hfirst⟩, hover, Nat.le_refl _⟩
    | true =>
      have hone : answering c = 1 := by
        unfold answering
        rw [hbusy]
        simp only [hv, if_true]
      rw [hone] at hw hfirst
      -- the answer is one of those outstanding
      have hfits : c.rsp.length < rspFifoDepth := by omega
      rw [if_neg (by simp), if_pos hfits]
      have hlength : (c.rsp ++ [(respond c.dev v).2]).length = c.rsp.length + 1 := by
        rw [List.length_append, List.length_singleton]
      refine ⟨⟨ahead, data, hcmd, hahead, hdata, hk, ?_, fun _ => hfirst (by omega)⟩, hover, ?_⟩
      · show data.length + 0 + (c.rsp ++ [(respond c.dev v).2]).length + r ≤ w
        omega
      · show c.rsp.length ≤ (c.rsp ++ [(respond c.dev v).2]).length
        omega

/-- A data command is written, or lost. -/
theorem Queue.put {cmdFifoDepth v : ℕ} (h : Queue c k r w) (hv : reads v = true) :
    Queue (c.put cmdFifoDepth v) k r (w + 1) := by
  obtain ⟨ahead, data, hcmd, hahead, hdata, hk, hw, hfirst⟩ := h
  unfold Controller.put
  split
  · refine ⟨ahead, data ++ [v], ?_, hahead, ?_, hk, ?_, hfirst⟩
    · show c.cmd ++ [v] = ahead ++ (data ++ [v])
      rw [hcmd, List.append_assoc]
    · intro u hu
      rcases List.mem_append.1 hu with hu | hu
      · exact hdata u hu
      · rw [List.mem_singleton.1 hu]
        exact hv
    · rw [List.length_append, List.length_singleton]
      show data.length + 1 + answering c + c.rsp.length + r ≤ w + 1
      omega
  · exact ⟨ahead, data, hcmd, hahead, hdata, hk, Nat.le_succ_of_le hw, hfirst⟩

/-- A chip-select command is written where no data is outstanding. -/
theorem Queue.putSelect {cmdFifoDepth v : ℕ} (h : Queue c k 0 0) (hv : reads v = false) :
    Queue (c.put cmdFifoDepth v) (k + 1) 0 0 := by
  obtain ⟨ahead, data, hcmd, hahead, hdata, hk, hw, hfirst⟩ := h
  have hdata0 : data = [] := List.length_eq_zero_iff.1 (by omega)
  have hidle : answering c = 0 := by omega
  have hrsp : c.rsp.length = 0 := by omega
  have hcmd' : c.cmd = ahead := by rw [hcmd, hdata0, List.append_nil]
  unfold Controller.put
  split
  · refine ⟨ahead ++ [v], [], ?_, ?_, fun u hu => absurd hu (by simp), ?_, ?_, ?_⟩
    · show c.cmd ++ [v] = (ahead ++ [v]) ++ []
      rw [List.append_nil, hcmd']
    · intro u hu
      rcases List.mem_append.1 hu with hu | hu
      · exact hahead u hu
      · rw [List.mem_singleton.1 hu]
        exact hv
    · rw [List.length_append, List.length_singleton]
      omega
    · show 0 + answering c + c.rsp.length + 0 ≤ 0
      omega
    · intro hpos
      have hpos' : 0 < answering c + c.rsp.length + 0 := hpos
      omega
  · refine ⟨ahead, [], ?_, hahead, fun u hu => absurd hu (by simp), by omega, ?_, ?_⟩
    · show c.cmd = ahead ++ []
      rw [List.append_nil, hcmd']
    · show 0 + answering c + c.rsp.length + 0 ≤ 0
      omega
    · intro hpos
      have hpos' : 0 < answering c + c.rsp.length + 0 := hpos
      omega

/-- An answer is read. -/
theorem Queue.pull (h : Queue c k r w) (hsome : 0 < c.rsp.length) (blank : BitVec 8) :
    Queue (c.pull blank).2 k (r + 1) w ∧ (c.pull blank).2.rsp.length + 1 = c.rsp.length ∧
      (c.pull blank).2.overflow = c.overflow := by
  obtain ⟨ahead, data, hcmd, hahead, hdata, hk, hw, hfirst⟩ := h
  unfold Controller.pull
  cases hrsp : c.rsp with
  | nil =>
    rw [hrsp] at hsome
    exact absurd hsome (by simp)
  | cons b rsp =>
    rw [hrsp, List.length_cons] at hw hfirst
    refine ⟨⟨ahead, data, hcmd, hahead, hdata, hk, ?_, fun _ => hfirst (by omega)⟩, rfl, rfl⟩
    show data.length + answering c + rsp.length + (r + 1) ≤ w
    omega

/-- With all answers read only chip-select commands are left. -/
theorem Queue.settle (h : Queue c k r r) : Queue c k 0 0 := by
  obtain ⟨ahead, data, hcmd, hahead, hdata, hk, hw, hfirst⟩ := h
  exact ⟨ahead, data, hcmd, hahead, hdata, hk, by omega, fun hpos => hfirst (by omega)⟩

theorem Queue.length_le (h : Queue c k 0 0) : c.cmd.length ≤ k := by
  obtain ⟨ahead, data, hcmd, -, -, hk, hw, -⟩ := h
  rw [hcmd, List.length_append]
  omega

theorem Queue.mono {k' : ℕ} (h : Queue c k r w) (hk' : k ≤ k') : Queue c k' r w := by
  obtain ⟨ahead, data, hcmd, hahead, hdata, hk, hw, hfirst⟩ := h
  exact ⟨ahead, data, hcmd, hahead, hdata, Nat.le_trans hk hk', hw, hfirst⟩

theorem put_overflow (c : Controller σ) (cmdFifoDepth v : ℕ) : (c.put cmdFifoDepth v).overflow = c.overflow := by
  unfold Controller.put
  split <;> rfl

/-! ## The invariant -/

/-- The answers read in the loop. -/
def XferState.readBy (s : XferState σ) : ℕ :=
  match s.pc with
  | .head | .tx _ _ => s.count
  | .rx _ i => s.count + i
  | _ => 0

/-- The commands written in the loop. -/
def XferState.writtenBy (s : XferState σ) : ℕ :=
  match s.pc with
  | .head | .rx _ _ => s.txCount
  | .tx _ i => s.txCount + i
  | _ => 0

/-- The chip-select commands that may be in the FIFO. -/
def Xfer.ahead (x : Xfer σ) (e : Entry x) : XferPc → ℕ
  | .begin_ => e.left.length
  | .beginWait => e.left.length + 1
  | .endWait | .done => x.filled e + 1
  | _ => x.filled e

/-- What the driver knows at each place. -/
def XferPlaced (x : Xfer σ) (s : XferState σ) : Prop :=
  match s.pc with
  | .begin_ | .beginWait => x.begin_ = true ∧ s.count = 0 ∧ s.txCount = 0
  | .rx burst i => i ≤ burst ∧ burst ≤ i + s.ctrl.rsp.length
  | .tx burst i => i ≤ burst ∧ burst ≤ s.token ∧ s.txCount + burst ≤ x.len
  | .done => s.ctrl.cmd.length < x.cmdFifoDepth
  | .byteHead | .bytePull => False
  | .head | .end_ | .endWait => True

structure XferInv (x : Xfer σ) (e : Entry x) (s : XferState σ) : Prop where
  count_le : s.count ≤ s.txCount
  txCount_le : s.txCount ≤ x.len
  credit : s.token + (s.txCount - s.count) = x.credit
  queue : Queue s.ctrl (x.ahead e s.pc) s.readBy s.writtenBy
  overflow : s.ctrl.overflow = false
  placed : XferPlaced x s

variable {x : Xfer σ} {e : Entry x} {s s' : XferState σ}

theorem len_lt (x : Xfer σ) : x.len < 2 ^ 32 := by
  have hlt : add32 x.bitlen 7 < 2 ^ 32 := Nat.mod_lt _ (by decide)
  unfold Xfer.len
  omega

theorem credit_lt (x : Xfer σ) : x.credit < 2 ^ 32 :=
  Nat.lt_of_le_of_lt (Nat.min_le_left _ _) x.cmdFifoDepth_lt

theorem filled_lt (e : Entry x) : x.filled e < x.cmdFifoDepth := by
  have hleft := e.left_lt
  unfold Xfer.filled
  split
  · rename_i hbegin
    have hne : x.cmdFifoDepth - (e.left.length + 1) ≠ 0 := by
      intro hzero
      rw [hzero] at hbegin
      exact hbegin.2 rfl
    omega
  · omega

theorem left_le_filled (e : Entry x) : e.left.length ≤ x.filled e := Nat.le_add_right _ _

theorem entry_queue (e : Entry x) :
    Queue { Controller.empty e.dev with cmd := e.left, busy := e.working } e.left.length 0 0 := by
  have hidle : answering { Controller.empty e.dev with cmd := e.left, busy := e.working } = 0 := by
    unfold answering
    cases hworking : e.working with
    | none => rfl
    | some v => simp only [e.working_reads v hworking, Bool.false_eq_true, if_false]
  refine ⟨e.left, [], (List.append_nil _).symm, e.left_reads, fun v hv => absurd hv (by simp), Nat.le_refl _, ?_,
    ?_⟩
  · rw [hidle]
    exact Nat.le_refl _
  · intro hpos
    rw [hidle] at hpos
    exact absurd hpos (by simp [Controller.empty])

theorem xfer_start_inv (hcmd : 1 < x.cmdFifoDepth) (hrsp : 1 < x.rspFifoDepth) : XferInv x e (x.start e) := by
  have hloop : x.loop = .head := if_pos ⟨hcmd, hrsp⟩
  cases hbegin : x.begin_ with
  | true =>
    have hpc : (x.start e).pc = .begin_ := by
      unfold Xfer.start
      rw [hbegin]
      rfl
    refine ⟨Nat.le_refl _, Nat.zero_le _, rfl, ?_, rfl, ?_⟩
    · unfold XferState.readBy XferState.writtenBy Xfer.ahead
      rw [hpc]
      exact entry_queue e
    · unfold XferPlaced
      rw [hpc]
      exact ⟨hbegin, rfl, rfl⟩
  | false =>
    have hpc : (x.start e).pc = .head := by
      unfold Xfer.start
      rw [hbegin]
      exact hloop
    refine ⟨Nat.le_refl _, Nat.zero_le _, rfl, ?_, rfl, ?_⟩
    · unfold XferState.readBy XferState.writtenBy Xfer.ahead
      rw [hpc]
      exact (entry_queue e).mono (left_le_filled e)
    · unfold XferPlaced
      rw [hpc]
      trivial

/-- No more data commands are outstanding than either FIFO holds. -/
theorem XferInv.outstanding (h : XferInv x e s) : s.writtenBy - s.readBy ≤ x.credit := by
  have hplaced := h.placed
  have hcredit := h.credit
  have hle := h.count_le
  unfold XferPlaced at hplaced
  unfold XferState.writtenBy XferState.readBy
  cases hpc : s.pc with
  | tx burst i =>
    rw [hpc] at hplaced
    have hi := hplaced.1
    have hburst := hplaced.2.1
    simp only
    omega
  | begin_ | beginWait | head | rx burst i | end_ | endWait | byteHead | bytePull | done =>
    simp only
    omega

/-! ## The controller's steps -/

theorem xfer_take_inv (h : XferInv x e s) (hstep : x.next s .take = some s') : XferInv x e s' := by
  obtain ⟨c, htake, rfl⟩ := Option.map_eq_some_iff.1 hstep
  have hlength := Controller.take_length htake
  have hsame : c.overflow = s.ctrl.overflow ∧ c.rsp = s.ctrl.rsp := by
    unfold Controller.take at htake
    split at htake
    · obtain rfl := Option.some.inj htake
      exact ⟨rfl, rfl⟩
    · exact absurd htake (by simp)
  refine ⟨h.count_le, h.txCount_le, h.credit, h.queue.take htake, hsame.1.trans h.overflow, ?_⟩
  have hplaced := h.placed
  unfold XferPlaced at hplaced ⊢
  cases hpc : s.pc with
  | done =>
    rw [hpc] at hplaced
    exact Nat.lt_of_le_of_lt hlength hplaced
  | rx burst i =>
    rw [hpc] at hplaced
    simp only
    rw [hsame.2]
    exact hplaced
  | begin_ | beginWait | head | tx burst i | end_ | endWait | byteHead | bytePull =>
    rw [hpc] at hplaced
    exact hplaced

theorem xfer_finish_inv (h : XferInv x e s) (hstep : x.next s .finish = some s') : XferInv x e s' := by
  obtain ⟨c, hfinish, rfl⟩ := Option.map_eq_some_iff.1 hstep
  have hroom : s.writtenBy - s.readBy ≤ x.rspFifoDepth :=
    Nat.le_trans h.outstanding (Nat.min_le_right _ _)
  obtain ⟨hqueue, hover, hrsp⟩ := h.queue.finish hroom h.overflow hfinish
  have hcmd := Controller.finish_cmd hfinish
  refine ⟨h.count_le, h.txCount_le, h.credit, hqueue, hover, ?_⟩
  have hplaced := h.placed
  unfold XferPlaced at hplaced ⊢
  cases hpc : s.pc with
  | done =>
    rw [hpc] at hplaced
    simp only
    rw [hcmd]
    exact hplaced
  | rx burst i =>
    rw [hpc] at hplaced
    exact ⟨hplaced.1, Nat.le_trans hplaced.2 (Nat.add_le_add_left hrsp i)⟩
  | begin_ | beginWait | head | tx burst i | end_ | endWait | byteHead | bytePull =>
    rw [hpc] at hplaced
    exact hplaced

/-! ## The driver's steps -/

theorem select_reads (x : Xfer σ) (begins : Bool) : reads (x.select begins) = false := by
  unfold Xfer.select setCs
  rw [BitVec.toNat_or]
  exact reads_select _

/-- **The chip-select commands** are waited for until the availability is not 0. -/
theorem beginWait_queue (hbegin : x.begin_ = true) (h : Queue c (e.left.length + 1) 0 0)
    (hroom : c.availability x.cmdFifoDepth ≠ 0) : Queue c (x.filled e) 0 0 := by
  have hlength := h.length_le
  obtain ⟨ahead, data, hcmd, hahead, hdata, hk, hw, hfirst⟩ := h
  refine ⟨ahead, data, hcmd, hahead, hdata, ?_, hw, hfirst⟩
  have hahead_le : ahead.length ≤ c.cmd.length := by
    rw [hcmd, List.length_append]
    omega
  unfold Xfer.filled
  by_cases hfull : c.cmd.length = e.left.length + 1
  · unfold Controller.availability at hroom
    rw [hfull] at hroom
    rw [if_pos ⟨hbegin, hroom⟩]
    exact hk
  · omega

theorem select_inv {blank : BitVec 8} (h : XferInv x e s)
    (hloop : x.loop = .head) (hpc : s.pc = .begin_ ∨ s.pc = .beginWait ∨ s.pc = .end_ ∨ s.pc = .endWait)
    (hstep : x.driverStep s blank = some s') : XferInv x e s' := by
  have hqueue := h.queue
  have hplaced := h.placed
  have hcount := h.count_le
  have htxCount := h.txCount_le
  have hcredit := h.credit
  unfold XferState.readBy XferState.writtenBy Xfer.ahead at hqueue
  unfold XferPlaced at hplaced
  unfold Xfer.driverStep at hstep
  rcases hpc with hpc | hpc | hpc | hpc <;> rw [hpc] at hqueue hplaced hstep <;> simp only at hqueue hplaced hstep
  · obtain rfl := Option.some.inj hstep
    exact ⟨hcount, htxCount, hcredit, hqueue.putSelect (select_reads x true), (put_overflow _ _ _).trans h.overflow,
      hplaced⟩
  · obtain rfl := Option.some.inj hstep
    split
    · exact h
    · rename_i hroom
      obtain ⟨hbegin, hcount0, htxCount0⟩ := hplaced
      refine ⟨hcount, htxCount, hcredit, ?_, h.overflow, ?_⟩
      · unfold XferState.readBy XferState.writtenBy Xfer.ahead
        simp only [hloop, hcount0, htxCount0]
        exact beginWait_queue hbegin hqueue hroom
      · unfold XferPlaced
        simp only [hloop]
  · obtain rfl := Option.some.inj hstep
    exact ⟨hcount, htxCount, hcredit, hqueue.putSelect (select_reads x false), (put_overflow _ _ _).trans h.overflow,
      trivial⟩
  · obtain rfl := Option.some.inj hstep
    split
    · exact h
    · rename_i hroom
      exact ⟨hcount, htxCount, hcredit, hqueue, h.overflow, Controller.room_of_availability hroom⟩

theorem xfer_head_inv {blank : BitVec 8} (h : XferInv x e s) (hpc : s.pc = .head)
    (hstep : x.driverStep s blank = some s') : XferInv x e s' := by
  have hqueue := h.queue
  have hcount := h.count_le
  have htxCount := h.txCount_le
  unfold XferState.readBy XferState.writtenBy Xfer.ahead at hqueue
  unfold Xfer.driverStep at hstep
  rw [hpc] at hqueue hstep
  simp only at hqueue hstep
  obtain rfl := Option.some.inj hstep
  by_cases hmore : s.count < x.len
  · rw [if_pos hmore]
    refine ⟨hcount, htxCount, h.credit, hqueue, h.overflow, Nat.zero_le _, ?_⟩
    rw [Nat.zero_add]
    exact s.ctrl.occupancy_le
  · rw [if_neg hmore]
    -- all is read, so nothing but chip-select commands is left
    have hsame : s.txCount = s.count := by omega
    rw [hsame] at hqueue
    have hsettled := hqueue.settle
    unfold Xfer.after
    cases hend : x.end_ with
    | true =>
      simp only [if_true]
      exact ⟨hcount, htxCount, h.credit, hsettled, h.overflow, trivial⟩
    | false =>
      simp only [Bool.false_eq_true, if_false]
      exact ⟨hcount, htxCount, h.credit, hsettled.mono (Nat.le_succ _), h.overflow,
        Nat.lt_of_le_of_lt hsettled.length_le (filled_lt e)⟩

theorem xfer_rx_inv {blank : BitVec 8} {burst i : ℕ} (h : XferInv x e s) (hpc : s.pc = .rx burst i)
    (hstep : x.driverStep s blank = some s') : XferInv x e s' := by
  have hqueue := h.queue
  have hplaced := h.placed
  have hcredit := h.credit
  have hcredit_lt := credit_lt x
  have hcount := h.count_le
  have htxCount := h.txCount_le
  have hlen := len_lt x
  unfold XferState.readBy XferState.writtenBy Xfer.ahead at hqueue
  unfold XferPlaced at hplaced
  unfold Xfer.driverStep at hstep
  rw [hpc] at hqueue hplaced hstep
  simp only at hqueue hplaced hstep
  split at hstep
  · rename_i hdone
    obtain rfl := Option.some.inj hstep
    subst hdone
    have hread : s.count + i ≤ s.txCount := by
      obtain ⟨ahead, data, -, -, -, -, hw, -⟩ := hqueue
      omega
    obtain ⟨htoken, hcount', hleft, hsum, hwithin⟩ := credit_read hread htxCount hlen hcredit hcredit_lt
    rw [htoken, hcount', hleft]
    exact ⟨hread, htxCount, hsum, hqueue, h.overflow, Nat.zero_le _, Nat.min_le_right _ _, hwithin⟩
  · rename_i hmore
    obtain rfl := Option.some.inj hstep
    obtain ⟨hpull, hlength, hover⟩ := hqueue.pull (by omega) blank
    refine ⟨hcount, htxCount, hcredit, hpull, hover.trans h.overflow, ?_, ?_⟩
    · show i + 1 ≤ burst
      omega
    · show burst ≤ i + 1 + (s.ctrl.pull blank).2.rsp.length
      omega

theorem xfer_tx_inv {blank : BitVec 8} {burst i : ℕ} (h : XferInv x e s) (hpc : s.pc = .tx burst i)
    (hstep : x.driverStep s blank = some s') : XferInv x e s' := by
  have hqueue := h.queue
  have hplaced := h.placed
  have hcredit := h.credit
  have hcredit_lt := credit_lt x
  have hcount := h.count_le
  have hlen := len_lt x
  unfold XferState.readBy XferState.writtenBy Xfer.ahead at hqueue
  unfold XferPlaced at hplaced
  unfold Xfer.driverStep at hstep
  rw [hpc] at hqueue hplaced hstep
  simp only at hqueue hplaced hstep
  obtain ⟨hi, hburst, hleft⟩ := hplaced
  split at hstep
  · rename_i hdone
    obtain rfl := Option.some.inj hstep
    subst hdone
    obtain ⟨htoken, htxCount, hle, hsum⟩ := credit_write hcount hburst hleft hlen hcredit hcredit_lt
    rw [htoken, htxCount]
    exact ⟨hle, hleft, hsum, hqueue, h.overflow, trivial⟩
  · rename_i hmore
    obtain rfl := Option.some.inj hstep
    refine ⟨hcount, h.txCount_le, hcredit, hqueue.put (reads_dataWord x.dout _),
      (put_overflow _ _ _).trans h.overflow, ?_, hburst, hleft⟩
    show i + 1 ≤ burst
    omega

/-- **One step of the call or of the controller.** -/
theorem xfer_next_inv {a : XferAct} (hloop : x.loop = .head) (h : XferInv x e s) (hstep : x.next s a = some s') :
    XferInv x e s' := by
  cases a with
  | take => exact xfer_take_inv h hstep
  | finish => exact xfer_finish_inv h hstep
  | driver blank =>
    have hdriver : x.driverStep s blank = some s' := hstep
    cases hpc : s.pc with
    | begin_ => exact select_inv h hloop (Or.inl hpc) hdriver
    | beginWait => exact select_inv h hloop (Or.inr (Or.inl hpc)) hdriver
    | end_ => exact select_inv h hloop (Or.inr (Or.inr (Or.inl hpc))) hdriver
    | endWait => exact select_inv h hloop (Or.inr (Or.inr (Or.inr hpc))) hdriver
    | head => exact xfer_head_inv h hpc hdriver
    | rx burst i => exact xfer_rx_inv h hpc hdriver
    | tx burst i => exact xfer_tx_inv h hpc hdriver
    | done =>
      unfold Xfer.driverStep at hdriver
      rw [hpc] at hdriver
      exact absurd hdriver (by simp)
    | byteHead | bytePull =>
      have hplaced := h.placed
      unfold XferPlaced at hplaced
      rw [hpc] at hplaced
      exact absurd hplaced id

theorem reach_xfer (hcmd : 1 < x.cmdFifoDepth) (hrsp : 1 < x.rspFifoDepth)
    (h : (x.machine e).Reach (fun _ _ => True) s) : XferInv x e s := by
  refine h.invariant (I := XferInv x e) ?_ (fun s a s' hs _ hstep => xfer_next_inv (if_pos ⟨hcmd, hrsp⟩) hs hstep)
  rintro s rfl
  exact xfer_start_inv hcmd hrsp

/-- **No answer is lost**, whatever happens to the commands. -/
theorem answers_fit (hcmd : 1 < x.cmdFifoDepth) (hrsp : 1 < x.rspFifoDepth)
    (h : (x.machine e).Reach (fun _ _ => True) s) : s.ctrl.overflow = false := (reach_xfer hcmd hrsp h).overflow

/-- **What a call leaves** the next one may find. -/
theorem xfer_leaves (hcmd : 1 < x.cmdFifoDepth) (hrsp : 1 < x.rspFifoDepth)
    (h : (x.machine e).Reach (fun _ _ => True) s) (hdone : s.pc = .done) :
    (∀ v ∈ s.ctrl.cmd, reads v = false) ∧ answering s.ctrl = 0 ∧ s.ctrl.rsp = [] ∧
      s.ctrl.cmd.length < x.cmdFifoDepth := by
  have hinv := reach_xfer hcmd hrsp h
  have hplaced := hinv.placed
  have hqueue := hinv.queue
  unfold XferState.readBy XferState.writtenBy at hqueue
  unfold XferPlaced at hplaced
  rw [hdone] at hqueue hplaced
  simp only at hqueue hplaced
  obtain ⟨ahead, data, hc, hahead, -, -, hw, -⟩ := hqueue
  have hdata : data = [] := List.length_eq_zero_iff.1 (by omega)
  have hrspNil : s.ctrl.rsp = [] := List.length_eq_zero_iff.1 (by omega)
  refine ⟨fun v hv => hahead v ?_, by omega, hrspNil, hplaced⟩
  rw [hc, hdata, List.append_nil] at hv
  exact hv

/-! ## Room for every write -/

theorem put_overrun {cmdFifoDepth v : ℕ} (hroom : c.cmd.length < cmdFifoDepth) (hnone : c.overrun = false) :
    (c.put cmdFifoDepth v).overrun = false := by
  unfold Controller.put
  rw [if_pos hroom]
  exact hnone

/-- **A burst has room**: the first by the condition, and once an answer is there the credit is enough. -/
theorem tx_room (hfits : x.Fits e) {burst i : ℕ} (h : XferInv x e s) (hpc : s.pc = .tx burst i) (hi : i < burst) :
    s.ctrl.cmd.length < x.cmdFifoDepth := by
  have hqueue := h.queue
  have hplaced := h.placed
  have hcredit := h.credit
  have hcount := h.count_le
  unfold XferState.readBy XferState.writtenBy Xfer.ahead at hqueue
  unfold XferPlaced at hplaced
  rw [hpc] at hqueue hplaced
  simp only at hqueue hplaced
  obtain ⟨-, hburst, hleft⟩ := hplaced
  obtain ⟨ahead, data, hcmd, -, -, hk, hw, hfirst⟩ := hqueue
  have hdepth : x.credit ≤ x.cmdFifoDepth := Nat.min_le_left _ _
  rw [hcmd, List.length_append]
  by_cases hpos : 0 < answering s.ctrl + s.ctrl.rsp.length + s.count
  · rw [hfirst hpos, List.length_nil]
    omega
  · -- no answer yet, so this is the first burst
    have hmin : s.txCount + i < min x.len x.credit := by
      rw [Nat.lt_min]
      constructor <;> omega
    unfold Xfer.Fits at hfits
    omega

/-- The controller only takes commands out. -/
theorem take_overrun (htake : c.take = some c') : c'.overrun = c.overrun := by
  unfold Controller.take at htake
  split at htake
  · obtain rfl := Option.some.inj htake
    rfl
  · exact absurd htake (by simp)

theorem finish_overrun {respond : Device σ} {rspFifoDepth : ℕ} (hfinish : c.finish respond rspFifoDepth = some c') :
    c'.overrun = c.overrun := by
  unfold Controller.finish at hfinish
  split at hfinish
  · exact absurd hfinish (by simp)
  · obtain rfl := Option.some.inj hfinish
    simp only
    split
    · rfl
    · split <;> rfl

theorem pull_overrun (c : Controller σ) (blank : BitVec 8) : (c.pull blank).2.overrun = c.overrun := by
  unfold Controller.pull
  split <;> rfl

/-- **The driver writes where there is room.** -/
theorem driver_overrun {blank : BitVec 8} (hfits : x.Fits e) (h : XferInv x e s) (hnone : s.ctrl.overrun = false)
    (hstep : x.driverStep s blank = some s') : s'.ctrl.overrun = false := by
  have hqueue := h.queue
  have hplaced := h.placed
  unfold XferState.readBy XferState.writtenBy Xfer.ahead at hqueue
  unfold XferPlaced at hplaced
  unfold Xfer.driverStep at hstep
  cases hpc : s.pc with
  | begin_ =>
    rw [hpc] at hqueue hstep
    obtain rfl := Option.some.inj hstep
    exact put_overrun (Nat.lt_of_le_of_lt hqueue.length_le e.left_lt) hnone
  | end_ =>
    -- the loop has left chip-select commands only
    rw [hpc] at hqueue hstep
    obtain rfl := Option.some.inj hstep
    exact put_overrun (Nat.lt_of_le_of_lt hqueue.length_le (filled_lt e)) hnone
  | tx burst i =>
    rw [hpc] at hplaced hstep
    simp only at hplaced hstep
    split at hstep
    · obtain rfl := Option.some.inj hstep
      exact hnone
    · obtain rfl := Option.some.inj hstep
      exact put_overrun (tx_room hfits h hpc (by omega)) hnone
  | rx burst i =>
    rw [hpc] at hstep
    simp only at hstep
    split at hstep
    · obtain rfl := Option.some.inj hstep
      exact hnone
    · obtain rfl := Option.some.inj hstep
      exact (pull_overrun s.ctrl blank).trans hnone
  | head =>
    rw [hpc] at hstep
    obtain rfl := Option.some.inj hstep
    exact hnone
  | beginWait | endWait =>
    rw [hpc] at hstep
    obtain rfl := Option.some.inj hstep
    split <;> exact hnone
  | byteHead | bytePull =>
    rw [hpc] at hplaced
    exact absurd hplaced id
  | done =>
    rw [hpc] at hstep
    exact absurd hstep (by simp)

theorem next_overrun {a : XferAct} (hfits : x.Fits e) (h : XferInv x e s) (hnone : s.ctrl.overrun = false)
    (hstep : x.next s a = some s') : s'.ctrl.overrun = false := by
  cases a with
  | take =>
    obtain ⟨c, htake, rfl⟩ := Option.map_eq_some_iff.1 hstep
    exact (take_overrun htake).trans hnone
  | finish =>
    obtain ⟨c, hfinish, rfl⟩ := Option.map_eq_some_iff.1 hstep
    exact (finish_overrun hfinish).trans hnone
  | driver blank => exact driver_overrun hfits h hnone hstep

/-! ## A controller that does nothing -/

/-- The next write of a burst. -/
theorem tx_step {burst i : ℕ} (hpc : s.pc = .tx burst i) (hi : i ≠ burst) :
    (x.machine e).step s (.driver 0) =
      some { s with pc := .tx burst (i + 1), ctrl := s.ctrl.put x.cmdFifoDepth (x.word (s.txCount + i)) } := by
  show x.driverStep s 0 = _
  unfold Xfer.driverStep
  rw [hpc]
  exact if_neg hi

/-- A command was written to the full FIFO. -/
def Overrun (x : Xfer σ) (t : XferState σ) : Prop := t.ctrl.overrun = true ∧ t.ctrl.cmd.length = x.cmdFifoDepth

/-- **A burst longer than the room** runs over, one write after the other. -/
theorem tx_leads : ∀ n (s : XferState σ) burst i, s.pc = .tx burst i → s.ctrl.cmd.length + n = x.cmdFifoDepth →
    n + i < burst → (x.machine e).Leads (Overrun x) s := by
  intro n
  induction n with
  | zero =>
    intro s burst i hpc hroom hlt
    refine .next _ (tx_step hpc (by omega)) (.here ?_)
    show (s.ctrl.put x.cmdFifoDepth (x.word (s.txCount + i))).overrun = true ∧
      (s.ctrl.put x.cmdFifoDepth (x.word (s.txCount + i))).cmd.length = x.cmdFifoDepth
    unfold Controller.put
    rw [if_neg (by omega)]
    exact ⟨rfl, hroom⟩
  | succ n ih =>
    intro s burst i hpc hroom hlt
    refine .next _ (tx_step hpc (by omega)) (ih _ burst (i + 1) rfl ?_ (by omega))
    show (s.ctrl.put x.cmdFifoDepth (x.word (s.txCount + i))).cmd.length + n = x.cmdFifoDepth
    unfold Controller.put
    rw [if_pos (by omega)]
    show (s.ctrl.cmd ++ [x.word (s.txCount + i)]).length + n = x.cmdFifoDepth
    rw [List.length_append, List.length_singleton]
    omega

/-- The loop begins with the commands `filled` counts, and they do not fit. -/
theorem loop_leads (hfits : ¬ x.Fits e) (hpc : s.pc = .head) (hcmd : s.ctrl.cmd.length = x.filled e)
    (hrsp : s.ctrl.rsp = []) (htoken : s.token = x.credit) (hcount : s.count = 0) (htxCount : s.txCount = 0) :
    (x.machine e).Leads (Overrun x) s := by
  have hlong : x.cmdFifoDepth < x.filled e + min x.len x.credit := not_le.1 hfits
  have hfilled := filled_lt e
  have hsome : 0 < x.len := by
    have := Nat.min_le_left x.len x.credit
    omega
  have hhead : (x.machine e).step s (.driver 0) = some { s with pc := .rx 0 0 } := by
    show x.driverStep s 0 = _
    unfold Xfer.driverStep
    rw [hpc]
    simp only
    rw [if_pos (by omega), Controller.occupancy, hrsp]
    rfl
  have htoken' : add32 s.token 0 = x.credit := by
    have := credit_lt x
    rw [add32_eq (by omega), htoken, Nat.add_zero]
  have hleft : sub32 x.len s.txCount = x.len := by
    rw [htxCount]
    exact sub32_eq (Nat.zero_le _) (len_lt x)
  have hrx : (x.machine e).step { s with pc := .rx 0 0 } (.driver 0) =
      some { s with pc := .tx (min x.len x.credit) 0, token := x.credit, count := add32 s.count 0 } := by
    show x.driverStep { s with pc := .rx 0 0 } 0 = _
    unfold Xfer.driverStep
    simp only [if_true]
    rw [htoken', hleft]
  have hroom : s.ctrl.cmd.length + (x.cmdFifoDepth - s.ctrl.cmd.length) = x.cmdFifoDepth := by omega
  exact .next _ hhead (.next _ hrx (tx_leads _ _ _ _ rfl hroom (by omega)))

/-- After the command of SPI_XFER_BEGIN, with the commands that `filled` counts. -/
theorem beginWait_leads (hloop : x.loop = .head) (hfits : ¬ x.Fits e) (hpc : s.pc = .beginWait)
    (hcmd : s.ctrl.cmd.length = x.filled e) (hroom : s.ctrl.availability x.cmdFifoDepth ≠ 0)
    (hrsp : s.ctrl.rsp = []) (htoken : s.token = x.credit) (hcount : s.count = 0) (htxCount : s.txCount = 0) :
    (x.machine e).Leads (Overrun x) s := by
  have hstep : (x.machine e).step s (.driver 0) = some { s with pc := .head } := by
    show x.driverStep s 0 = _
    unfold Xfer.driverStep
    rw [hpc]
    simp only
    rw [if_neg hroom, hloop]
  exact .next _ hstep (loop_leads hfits rfl hcmd hrsp htoken hcount htxCount)

/-- The availability read 0, and the controller takes a command up. -/
theorem drain_leads {v : ℕ} {cmd : List ℕ} (hloop : x.loop = .head) (hfits : ¬ x.Fits e)
    (hcmd : cmd.length = x.filled e) (hroom : (x.cmdFifoDepth - cmd.length) % 2 ^ 16 ≠ 0) (hpc : s.pc = .beginWait)
    (hqueued : s.ctrl.cmd = v :: cmd) (hbusy : s.ctrl.busy = none) (hrsp : s.ctrl.rsp = [])
    (htoken : s.token = x.credit) (hcount : s.count = 0) (htxCount : s.txCount = 0) :
    (x.machine e).Leads (Overrun x) s := by
  have htake : (x.machine e).step s .take = some { s with ctrl := { s.ctrl with busy := some v, cmd := cmd } } := by
    show s.ctrl.take.map _ = _
    unfold Controller.take
    rw [hbusy, hqueued]
    rfl
  exact .next _ htake (beginWait_leads hloop hfits hpc hcmd hroom hrsp htoken hcount htxCount)

theorem begin_leads (hloop : x.loop = .head) (hfits : ¬ x.Fits e) (hbegin : x.begin_ = true)
    (hcmd : s.ctrl.cmd = e.left ++ [x.select true]) (hbusy : s.ctrl.busy = e.working) (hpc : s.pc = .beginWait)
    (hrsp : s.ctrl.rsp = []) (htoken : s.token = x.credit) (hcount : s.count = 0) (htxCount : s.txCount = 0) :
    (x.machine e).Leads (Overrun x) s := by
  have hlength : (e.left ++ [x.select true]).length = e.left.length + 1 := by
    rw [List.length_append, List.length_singleton]
  by_cases hroom : (x.cmdFifoDepth - (e.left.length + 1)) % 2 ^ 16 = 0
  · have hleft := e.left_lt
    have hfilled : x.filled e = e.left.length := by
      unfold Xfer.filled
      rw [if_neg (fun h => h.2 hroom), Nat.add_zero]
    obtain ⟨v, cmd, hv⟩ := List.exists_cons_of_ne_nil (show e.left ++ [x.select true] ≠ [] by simp)
    have hcmdLength : cmd.length = e.left.length := by
      rw [hv, List.length_cons] at hlength
      omega
    have hdrained : (x.cmdFifoDepth - cmd.length) % 2 ^ 16 ≠ 0 := by omega
    rw [hv] at hcmd
    cases hworking : e.working with
    | none =>
      exact drain_leads hloop hfits (hcmdLength.trans hfilled.symm) hdrained hpc hcmd (hbusy.trans hworking) hrsp
        htoken hcount htxCount
    | some u =>
      -- the command that was being done comes first
      have hu : s.ctrl.busy = some u := hbusy.trans hworking
      have hfinish : (x.machine e).step s .finish = some { s with ctrl := { s.ctrl with
          busy := none, dev := (x.respond s.ctrl.dev u).1, sent := s.ctrl.sent ++ [u] } } := by
        show (s.ctrl.finish x.respond x.rspFifoDepth).map _ = _
        unfold Controller.finish
        simp only [hu, e.working_reads u hworking, if_true, Option.map_some]
      exact .next _ hfinish (drain_leads hloop hfits (hcmdLength.trans hfilled.symm) hdrained hpc hcmd rfl hrsp htoken
        hcount htxCount)
  · have hfilled : x.filled e = e.left.length + 1 := by
      unfold Xfer.filled
      rw [if_pos ⟨hbegin, hroom⟩]
    refine beginWait_leads hloop hfits hpc ?_ ?_ hrsp htoken hcount htxCount
    · rw [hcmd, hlength, hfilled]
    · unfold Controller.availability
      rw [hcmd, hlength]
      exact hroom

/-- **Where they do not fit** some run of the call overruns. -/
theorem start_leads (hloop : x.loop = .head) (hfits : ¬ x.Fits e) :
    (x.machine e).Leads (Overrun x) (x.start e) := by
  cases hbegin : x.begin_ with
  | false =>
    have hfilled : x.filled e = e.left.length := by
      unfold Xfer.filled
      rw [hbegin]
      rfl
    refine loop_leads hfits ?_ hfilled.symm rfl rfl rfl rfl
    unfold Xfer.start
    rw [hbegin]
    exact hloop
  | true =>
    have hpc : (x.start e).pc = .begin_ := by
      unfold Xfer.start
      rw [hbegin]
      rfl
    have hput : (x.machine e).step (x.start e) (.driver 0) =
        some { x.start e with pc := .beginWait, ctrl := { (x.start e).ctrl with cmd := e.left ++ [x.select true] } } := by
      show x.driverStep (x.start e) 0 = _
      unfold Xfer.driverStep
      rw [hpc]
      simp only [Controller.put]
      exact congrArg (fun c => some { x.start e with pc := .beginWait, ctrl := c }) (if_pos e.left_lt)
    exact .next _ hput (begin_leads hloop hfits hbegin rfl rfl rfl rfl rfl rfl rfl)

/-- **A call never overruns** if the commands ahead of it leave room for the first burst, and only then. -/
theorem never_overruns_iff (hcmd : 1 < x.cmdFifoDepth) (hrsp : 1 < x.rspFifoDepth) :
    (∀ s, (x.machine e).Reach (fun _ _ => True) s → s.ctrl.overrun = false ∧ s.ctrl.overflow = false) ↔
      x.Fits e := by
  have hloop : x.loop = .head := if_pos ⟨hcmd, hrsp⟩
  constructor
  · intro hsafe
    by_contra hfits
    obtain ⟨as, s, hexec, hover, -⟩ := start_leads hloop hfits
    have hnone := (hsafe s (.of_exec rfl (Machine.along_true _ _) hexec)).1
    rw [hover] at hnone
    exact absurd hnone (by simp)
  · intro hfits s h
    have hinv : XferInv x e s ∧ s.ctrl.overrun = false := by
      refine h.invariant (I := fun s => XferInv x e s ∧ s.ctrl.overrun = false) ?_
        (fun s a s' hs _ hstep => ⟨xfer_next_inv hloop hs.1 hstep, next_overrun hfits hs.1 hs.2 hstep⟩)
      rintro s rfl
      exact ⟨xfer_start_inv hcmd hrsp, rfl⟩
    exact ⟨hinv.2, hinv.1.overflow⟩

theorem default_depth_lt : 256 < 2 ^ 32 := by decide

/-- A write of `bytes` bytes with SPI_XFER_BEGIN and SPI_XFER_END, through the FIFOs of 256 entries that are
the default, on an idle controller. -/
def write (bytes : ℕ) : Xfer Unit :=
  { bus := { Bus.probed 0#32 with cs := 0#32 }, xlen := .rv32, cmdFifoDepth := 256, rspFifoDepth := 256
    bitlen := 8 * bytes, dout := some (fun _ => 0), din := false, begin_ := true, end_ := true
    respond := fun _ _ => ((), 0), cmdFifoDepth_lt := default_depth_lt, rspFifoDepth_lt := default_depth_lt }

def idle (bytes : ℕ) : Entry (write bytes) :=
  { left := [], working := none, dev := (), buf := fun _ => 0, left_reads := by simp, working_reads := by simp
    left_lt := show 0 < 256 by decide }

/-- 255 bytes fit in with the command of SPI_XFER_BEGIN. -/
theorem never_overruns_255 : (write 255).Fits (idle 255) ∧
    ∀ s, ((write 255).machine (idle 255)).Reach (fun _ _ => True) s →
      s.ctrl.overrun = false ∧ s.ctrl.overflow = false := by
  have hfits : (write 255).Fits (idle 255) := by decide
  exact ⟨hfits, (never_overruns_iff (by decide) (by decide)).2 hfits⟩

/-- **256 bytes do not**: while the controller has not taken up the chip-select command, the last of the
burst is written to a full FIFO. -/
theorem burst_overruns :
    ∃ s, ((write 256).machine (idle 256)).Reach (fun _ _ => True) s ∧ s.ctrl.cmd.length = 256 ∧
      s.ctrl.overrun = true := by
  have hfits : ¬ (write 256).Fits (idle 256) := by decide
  obtain ⟨as, s, hexec, hover, hlength⟩ := start_leads (x := write 256) (if_pos (by decide)) hfits
  exact ⟨s, .of_exec rfl (Machine.along_true _ _) hexec, hlength, hover⟩

end Br2Efinix.Spi.UBoot
