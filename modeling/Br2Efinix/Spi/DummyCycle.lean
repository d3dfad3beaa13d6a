import Br2Efinix.Spi.LinuxTransfer

/-!
# A transfer of the Linux driver with the dummy cycle

`spi_spinal_lib_txrx` of a controller with `dummy-cycle` in its device tree: a transfer that receives is one
command longer, and `spi_spinal_lib_rx` stores through `rptr`.

* `plain_driverStep`: but for where it stores, the driver does what it does without the mode in a transfer of the
  lengthened `hw->len`.
* `done_logs`: what it has read of the transmit buffer and where it has stored, when the transfer is done.
* `dummy_cycle_iff`: the transfers in which this is what the mode is for.
-/

namespace Br2Efinix.Spi

variable {σ : Type*}

/-- What a transfer of `n` words reads, as `Transfer`; `tx` goes on after its `n` bytes. -/
structure DummyTransfer (σ : Type*) where
  cmdFifoDepth : ℕ
  rspFifoDepth : ℕ
  n : ℕ
  tx : Option (ℕ → BitVec 8)
  rx : Bool
  respond : Device σ
  cmdFifoDepth_lt : cmdFifoDepth < 2 ^ 32
  rspFifoDepth_lt : rspFifoDepth < 2 ^ 32
  n_lt : n < 2 ^ 32

/-- Observed are the indexes of the bytes read of `hw->tx`, and of those stored to `hw->rx`. -/
structure DummyTxrx (σ : Type*) extends Txrx σ where
  txReads : List ℕ
  rxWrites : List ℕ

/-- `hw->rx[i] = b`. -/
def DummyTxrx.store (s : DummyTxrx σ) (i : ℕ) (b : BitVec 8) : DummyTxrx σ :=
  { s with buf := fun j => if j = i then b else s.buf j, rxWrites := s.rxWrites ++ [i] }

namespace DummyTransfer

/-- `hw->len`. -/
def len (x : DummyTransfer σ) : ℕ := if x.rx = true then add32 x.n 1 else x.n

def word (x : DummyTransfer σ) (i : ℕ) : ℕ := dataWord x.tx i

/-- Both FIFOs have more than one entry. -/
def Fifos (x : DummyTransfer σ) : Prop := 1 < x.cmdFifoDepth ∧ 1 < x.rspFifoDepth

instance (x : DummyTransfer σ) : Decidable x.Fifos := inferInstanceAs (Decidable (_ ∧ _))

/-- The byte for the next command is read. -/
def fetch (x : DummyTransfer σ) (s : DummyTxrx σ) (i : ℕ) : DummyTxrx σ :=
  if x.tx.isSome = true then { s with txReads := s.txReads ++ [i] } else s

/-- The next step of the driver. -/
def driverStep (x : DummyTransfer σ) (s : DummyTxrx σ) (blank : BitVec 8) : Option (DummyTxrx σ) :=
  match s.pc with
  | .head => some { s with pc := if s.count < x.len then .rx s.ctrl.occupancy 0 else .done }
  | .rx burst i =>
    if i = burst then
      let token := add32 s.token burst
      some { s with
        pc := .tx (min (sub32 x.len s.txCount) token) 0, token := token, count := add32 s.count burst }
    else if x.rx = true ∧ s.ctrl.occupancy = 0 then some s
    else some { s with pc := .pull burst i }
  | .pull burst i =>
    if x.rx = true then
      -- `spi_spinal_lib_rsp_pull` tries again until there is an answer; `rptr` is `hw->rx` in every call
      if s.ctrl.rsp = [] then some s
      else some ({ s with pc := .rx burst (i + 1), ctrl := (s.ctrl.pull blank).2 }.store 0 (s.ctrl.pull blank).1)
    else some { s with pc := .rx burst (i + 1), ctrl := (s.ctrl.pull blank).2 }
  | .tx burst i =>
    if i = burst then
      some { s with pc := .head, token := sub32 s.token burst, txCount := add32 s.txCount burst }
    else if s.ctrl.availability x.cmdFifoDepth = 0 then some s
    else some { s with pc := .put burst i }
  | .put burst i =>
    some { x.fetch s (s.txCount + i) with
      pc := .tx burst (i + 1), ctrl := s.ctrl.put x.cmdFifoDepth (x.word (s.txCount + i)) }
  | .byteHead =>
    if s.count < x.len then
      some { x.fetch s s.count with pc := .bytePull, ctrl := s.ctrl.put x.cmdFifoDepth (x.word s.count) }
    else some { s with pc := .done }
  | .bytePull =>
    if s.ctrl.rsp = [] then some s
    else
      let s' := if x.rx = true then s.store s.count (s.ctrl.pull blank).1 else s
      some { s' with pc := .byteHead, ctrl := (s.ctrl.pull blank).2, count := add32 s.count 1 }
  | .done => none

def next (x : DummyTransfer σ) (s : DummyTxrx σ) : TxrxAct → Option (DummyTxrx σ)
  | .driver blank => x.driverStep s blank
  | .take => s.ctrl.take.map fun c => { s with ctrl := c }
  | .finish => (s.ctrl.finish x.respond x.rspFifoDepth).map fun c => { s with ctrl := c }

/-- The call begins, with nothing in the FIFOs; `buf` is the memory from `hw->rx` on. -/
def start (x : DummyTransfer σ) (dev : σ) (buf : ℕ → BitVec 8) : DummyTxrx σ :=
  { ctrl := .empty dev, pc := if x.Fifos then .head else .byteHead
    token := min x.cmdFifoDepth x.rspFifoDepth, count := 0, txCount := 0, buf := buf, txReads := [], rxWrites := [] }

def machine (x : DummyTransfer σ) (dev : σ) (buf : ℕ → BitVec 8) : Machine (DummyTxrx σ) TxrxAct :=
  { init := (· = x.start dev buf), step := x.next }

end DummyTransfer

/-! ## The property -/

/-- The answers to commands, one after the other. -/
def responses (respond : Device σ) : σ → List ℕ → List (BitVec 8)
  | _, [] => []
  | dev, w :: ws => (respond dev w).2 :: responses respond (respond dev w).1 ws

/-- The bytes sent are of the `n` of the transmit buffer, nothing is stored outside of the `n` of the
receive buffer, and its byte `i` is the answer to command `i + 1`. -/
structure DummyRight (x : DummyTransfer σ) (dev : σ) (s : DummyTxrx σ) : Prop where
  sent : ∀ i ∈ s.txReads, i < x.n
  stored : ∀ i ∈ s.rxWrites, i < x.n
  received : x.rx = true → ∀ i < x.n, (responses x.respond dev s.ctrl.sent)[i + 1]? = some (s.buf i)

/-! ## The condition -/

/-- Nothing is received; or nothing is transmitted, through FIFOs, the last answer is also the one to command `1`,
and what follows in the buffer was there before, as it is for one byte. -/
def Spared (x : DummyTransfer σ) (dev : σ) (buf : ℕ → BitVec 8) : Prop :=
  x.rx = false ∨
    x.Fifos ∧ x.tx = none ∧ x.n + 1 < 2 ^ 32 ∧
      answer x.respond x.word dev x.n = answer x.respond x.word dev 1 ∧
        ∀ i, 0 < i → i < x.n → buf i = answer x.respond x.word dev (i + 1)

/-! ## Without the mode -/

variable {x : DummyTransfer σ} {dev : σ} {buf : ℕ → BitVec 8} {s s' : DummyTxrx σ}

theorem len_lt (x : DummyTransfer σ) : x.len < 2 ^ 32 := by
  unfold DummyTransfer.len add32
  split
  · exact Nat.mod_lt _ (by decide)
  · exact x.n_lt

/-- The transfer of the same commands without the mode. -/
def DummyTransfer.plain (x : DummyTransfer σ) : Transfer σ :=
  { cmdFifoDepth := x.cmdFifoDepth, rspFifoDepth := x.rspFifoDepth, len := x.len, tx := x.tx, rx := x.rx
    respond := x.respond, cmdFifoDepth_lt := x.cmdFifoDepth_lt, rspFifoDepth_lt := x.rspFifoDepth_lt
    len_lt := len_lt x }

/-- The driver with another receive buffer. -/
def DummyTxrx.plain (s : DummyTxrx σ) (lin : ℕ → BitVec 8) : Txrx σ := { s.toTxrx with buf := lin }

theorem fetch_plain (x : DummyTransfer σ) (s : DummyTxrx σ) (i : ℕ) : (x.fetch s i).toTxrx = s.toTxrx := by
  unfold DummyTransfer.fetch
  split <;> rfl

/-- **Without the mode** the driver does the same, but for where it stores. -/
theorem plain_driverStep (lin : ℕ → BitVec 8) {blank : BitVec 8} (hdriver : x.driverStep s blank = some s') :
    s' = s ∨ ∃ lin', x.plain.driverStep (s.plain lin) blank = some (s'.plain lin') := by
  have hplain : (s.plain lin).pc = s.pc := rfl
  unfold DummyTransfer.driverStep at hdriver
  unfold Transfer.driverStep
  rw [hplain]
  cases hpc : s.pc with
  | head =>
    rw [hpc] at hdriver
    obtain rfl := Option.some.inj hdriver
    exact Or.inr ⟨lin, rfl⟩
  | rx burst i =>
    rw [hpc] at hdriver
    simp only at hdriver ⊢
    by_cases hdone : i = burst
    · rw [if_pos hdone] at hdriver ⊢
      obtain rfl := Option.some.inj hdriver
      exact Or.inr ⟨lin, rfl⟩
    · rw [if_neg hdone] at hdriver ⊢
      by_cases hwait : x.rx = true ∧ s.ctrl.occupancy = 0
      · rw [if_pos hwait] at hdriver
        exact Or.inl (Option.some.inj hdriver).symm
      · rw [if_neg hwait] at hdriver
        obtain rfl := Option.some.inj hdriver
        exact Or.inr ⟨lin, if_neg hwait⟩
  | pull burst i =>
    rw [hpc] at hdriver
    simp only at hdriver ⊢
    split at hdriver
    · -- `spi_spinal_lib_rsp_pull` may wait where the plain driver reads
      split at hdriver
      · exact Or.inl (Option.some.inj hdriver).symm
      · obtain rfl := Option.some.inj hdriver
        exact Or.inr ⟨_, rfl⟩
    · obtain rfl := Option.some.inj hdriver
      exact Or.inr ⟨_, rfl⟩
  | tx burst i =>
    rw [hpc] at hdriver
    simp only at hdriver ⊢
    by_cases hdone : i = burst
    · rw [if_pos hdone] at hdriver ⊢
      obtain rfl := Option.some.inj hdriver
      exact Or.inr ⟨lin, rfl⟩
    · rw [if_neg hdone] at hdriver ⊢
      by_cases hwait : s.ctrl.availability x.cmdFifoDepth = 0
      · rw [if_pos hwait] at hdriver
        exact Or.inl (Option.some.inj hdriver).symm
      · rw [if_neg hwait] at hdriver
        obtain rfl := Option.some.inj hdriver
        exact Or.inr ⟨lin, if_neg hwait⟩
  | put burst i =>
    rw [hpc] at hdriver
    obtain rfl := Option.some.inj hdriver
    refine Or.inr ⟨lin, ?_⟩
    unfold DummyTxrx.plain
    simp only [fetch_plain]
    rfl
  | byteHead =>
    rw [hpc] at hdriver
    simp only at hdriver ⊢
    by_cases hmore : s.count < x.len
    · rw [if_pos hmore] at hdriver
      obtain rfl := Option.some.inj hdriver
      refine Or.inr ⟨lin, (if_pos hmore).trans ?_⟩
      unfold DummyTxrx.plain
      simp only [fetch_plain]
      rfl
    · rw [if_neg hmore] at hdriver
      obtain rfl := Option.some.inj hdriver
      exact Or.inr ⟨lin, if_neg hmore⟩
  | bytePull =>
    rw [hpc] at hdriver
    simp only at hdriver ⊢
    by_cases hwait : s.ctrl.rsp = []
    · rw [if_pos hwait] at hdriver
      exact Or.inl (Option.some.inj hdriver).symm
    · rw [if_neg hwait] at hdriver
      obtain rfl := Option.some.inj hdriver
      refine Or.inr ⟨x.plain.store lin s.count (s.ctrl.pull blank).1, (if_neg hwait).trans ?_⟩
      by_cases hrx : x.rx = true
      · simp only [if_pos hrx]
        rfl
      · simp only [if_neg hrx]
        rfl
  | done =>
    rw [hpc] at hdriver
    exact absurd hdriver (by simp)

theorem plain_next (lin : ℕ → BitVec 8) {a : TxrxAct} (hstep : x.next s a = some s') :
    s' = s ∨ ∃ lin', x.plain.next (s.plain lin) a = some (s'.plain lin') := by
  cases a with
  | driver blank => exact plain_driverStep lin hstep
  | take =>
    obtain ⟨c, htake, rfl⟩ := Option.map_eq_some_iff.1 hstep
    exact Or.inr ⟨lin, Option.map_eq_some_iff.2 ⟨c, htake, rfl⟩⟩
  | finish =>
    obtain ⟨c, hfinish, rfl⟩ := Option.map_eq_some_iff.1 hstep
    exact Or.inr ⟨lin, Option.map_eq_some_iff.2 ⟨c, hfinish, rfl⟩⟩

/-- A run of the driver is one without the mode. -/
theorem plain_reach (h : (x.machine dev buf).Reach (fun _ _ => True) s) :
    ∃ lin, (x.plain.machine dev buf).Reach (fun _ _ => True) (s.plain lin) := by
  refine h.invariant (I := fun s => ∃ lin, (x.plain.machine dev buf).Reach (fun _ _ => True) (s.plain lin)) ?_ ?_
  · rintro s rfl
    exact ⟨buf, .init rfl⟩
  · rintro s a s' ⟨lin, hreach⟩ - hstep
    rcases plain_next lin hstep with rfl | ⟨lin', hplain⟩
    · exact ⟨lin, hreach⟩
    · exact ⟨lin', hreach.step trivial hplain⟩

/-! ## What the plain transfer tells -/

/-- The places at which the driver uses a FIFO or is done, with `r` answers read, `p` commands done and `w` written. -/
def Stands (x : DummyTransfer σ) (s : DummyTxrx σ) (r p w : ℕ) : Prop :=
  match s.pc with
  | .pull _ _ => x.Fifos ∧ r < p
  | .put _ i => w = s.txCount + i ∧ s.ctrl.cmd.length < x.cmdFifoDepth
  | .byteHead => w = s.count ∧ s.ctrl.cmd.length < x.cmdFifoDepth
  | .bytePull => ¬ x.Fifos ∧ r = s.count
  | .done => r = x.len ∧ p = x.len ∧ w = x.len
  | _ => True

/-- No more commands are outstanding than answers have room. -/
def Sound (x : DummyTransfer σ) (dev : σ) (s : DummyTxrx σ) : Prop :=
  ∃ r p w, Flow x.respond x.word dev s.ctrl r p w ∧ w - r ≤ x.rspFifoDepth ∧ Stands x s r p w

variable {lin : ℕ → BitVec 8}

theorem sound_of_txrx (hfifos : x.Fifos) (h : TxrxInv x.plain dev buf (s.plain lin)) : Sound x dev s := by
  obtain ⟨p, hflow, hplaced⟩ := h.flow
  have hroom : (s.plain lin).writtenBy - (s.plain lin).readBy ≤ x.rspFifoDepth :=
    Nat.le_trans h.outstanding (Nat.min_le_right _ _)
  refine ⟨_, p, _, hflow, hroom, ?_⟩
  have hplain : (s.plain lin).pc = s.pc := rfl
  have hread := hflow.read_le
  have hdone := hflow.done_le
  have htxCount := h.txCount_le
  unfold Placed at hplaced
  unfold Txrx.readBy at hread
  unfold Txrx.writtenBy at hdone
  unfold Stands Txrx.readBy Txrx.writtenBy
  rw [hplain] at hplaced hread hdone ⊢
  cases hpc : s.pc with
  | pull burst i =>
    rw [hpc] at hplaced
    exact ⟨hfifos, Nat.lt_of_lt_of_le (Nat.add_lt_add_left hplaced.1 _) hplaced.2⟩
  | put burst i =>
    rw [hpc] at hplaced
    exact ⟨rfl, hplaced.2.2.2⟩
  | done =>
    rw [hpc] at hplaced hread hdone
    simp only at hplaced hread hdone ⊢
    have hlen : x.plain.len = x.len := rfl
    omega
  | byteHead | bytePull =>
    rw [hpc] at hplaced
    exact absurd hplaced id
  | head | rx burst i | tx burst i => trivial

theorem sound_of_bytewise (hcmd : 0 < x.cmdFifoDepth) (hrsp : 0 < x.rspFifoDepth) (hfifos : ¬ x.Fifos)
    (h : ByteInv x.plain dev buf (s.plain lin)) : Sound x dev s := by
  obtain ⟨p, w, hflow, hone, hplaced⟩ := h.flow
  refine ⟨_, p, w, hflow, by omega, ?_⟩
  have hplain : (s.plain lin).pc = s.pc := rfl
  have hread := hflow.read_le
  have hdone := hflow.done_le
  have hcount := h.count_le
  have hlength : s.ctrl.cmd.length ≤ w - p := hflow.cmd_length
  unfold BytePlaced at hplaced
  unfold Stands
  rw [hplain] at hplaced
  cases hpc : s.pc with
  | byteHead =>
    rw [hpc] at hplaced
    refine ⟨hplaced, ?_⟩
    simp only at hplaced
    omega
  | bytePull => exact ⟨hfifos, rfl⟩
  | done =>
    rw [hpc] at hplaced
    simp only at hplaced ⊢
    have hlen : x.plain.len = x.len := rfl
    omega
  | head | rx burst i | pull burst i | tx burst i | put burst i =>
    rw [hpc] at hplaced
    exact absurd hplaced id

theorem reach_sound (hcmd : 0 < x.cmdFifoDepth) (hrsp : 0 < x.rspFifoDepth)
    (h : (x.machine dev buf).Reach (fun _ _ => True) s) : Sound x dev s := by
  obtain ⟨lin, hplain⟩ := plain_reach h
  by_cases hfifos : x.Fifos
  · exact sound_of_txrx hfifos (reach_txrx hfifos.1 hfifos.2 hplain)
  · exact sound_of_bytewise hcmd hrsp hfifos (reach_bytewise hcmd hrsp hfifos hplain)

/-! ## What is read and stored -/

/-- Where answer `k` is stored. -/
def DummyTransfer.slot (x : DummyTransfer σ) (k : ℕ) : ℕ := if x.Fifos then 0 else k

/-- The receive buffer after `r` answers. -/
def DummyTransfer.memory (x : DummyTransfer σ) (dev : σ) (buf : ℕ → BitVec 8) : ℕ → ℕ → BitVec 8
  | 0 => buf
  | k + 1 => fun j => if j = x.slot k then answer x.respond x.word dev k else memory x dev buf k j

/-- What `r` answers read and `w` commands written leave. -/
structure Logged (x : DummyTransfer σ) (dev : σ) (buf : ℕ → BitVec 8) (s : DummyTxrx σ) (r w : ℕ) : Prop where
  reads : s.txReads = if x.tx.isSome = true then List.range w else []
  writes : s.rxWrites = if x.rx = true then (List.range r).map x.slot else []
  buf : s.buf = if x.rx = true then x.memory dev buf r else buf

def Kept (x : DummyTransfer σ) (dev : σ) (buf : ℕ → BitVec 8) (s : DummyTxrx σ) : Prop :=
  ∃ r p w, Flow x.respond x.word dev s.ctrl r p w ∧ Logged x dev buf s r w

theorem start_kept : Kept x dev buf (x.start dev buf) := by
  refine ⟨0, 0, 0, empty_flow _ _ _, ⟨?_, ?_, ?_⟩⟩
  · exact (ite_self _).symm
  · exact (ite_self _).symm
  · exact (ite_self _).symm

/-- A step that uses neither the FIFOs nor the buffers. -/
theorem Kept.moved (h : Kept x dev buf s) (hctrl : s'.ctrl = s.ctrl) (hreads : s'.txReads = s.txReads)
    (hwrites : s'.rxWrites = s.rxWrites) (hbuf : s'.buf = s.buf) : Kept x dev buf s' := by
  obtain ⟨r, p, w, hflow, hlogged⟩ := h
  refine ⟨r, p, w, hctrl.symm ▸ hflow, ⟨?_, ?_, ?_⟩⟩
  · rw [hreads, hlogged.reads]
  · rw [hwrites, hlogged.writes]
  · rw [hbuf, hlogged.buf]

/-- **Byte `w` is read** for command `w`. -/
theorem Kept.put {j : ℕ} {ctrl : Controller σ} {pc : Pc} (h : Kept x dev buf s)
    (hroom : s.ctrl.cmd.length < x.cmdFifoDepth)
    (hj : ∀ {r p w}, Flow x.respond x.word dev s.ctrl r p w → w = j)
    (hctrl : ctrl = s.ctrl.put x.cmdFifoDepth (x.word j)) :
    Kept x dev buf { x.fetch s j with pc := pc, ctrl := ctrl } := by
  obtain ⟨r, p, w, hflow, hlogged⟩ := h
  obtain rfl := hj hflow
  refine ⟨r, p, w + 1, hctrl ▸ hflow.put hroom, ⟨?_, ?_, ?_⟩⟩
  · unfold DummyTransfer.fetch
    have hreads := hlogged.reads
    by_cases htx : x.tx.isSome = true
    · rw [if_pos htx] at hreads ⊢
      rw [if_pos htx, List.range_succ, ← hreads]
    · rw [if_neg htx] at hreads ⊢
      rw [if_neg htx, hreads]
  · have hwrites := hlogged.writes
    unfold DummyTransfer.fetch
    split <;> exact hwrites
  · have hbuf := hlogged.buf
    unfold DummyTransfer.fetch
    split <;> exact hbuf

/-- **Answer `r` is stored** to its slot. -/
theorem Kept.store {blank : BitVec 8} {pc : Pc} {ctrl : Controller σ} {count j : ℕ} (h : Kept x dev buf s)
    (hrx : x.rx = true) (hrsp : s.ctrl.rsp ≠ []) (hctrl : ctrl = (s.ctrl.pull blank).2)
    (hj : ∀ {r p w}, Flow x.respond x.word dev s.ctrl r p w → x.slot r = j) :
    Kept x dev buf { s.store j (s.ctrl.pull blank).1 with pc := pc, ctrl := ctrl, count := count } := by
  obtain ⟨r, p, w, hflow, hlogged⟩ := h
  have hlength := hflow.rsp_length
  have hsome : s.ctrl.rsp.length ≠ 0 := fun hzero => hrsp (List.length_eq_zero_iff.1 hzero)
  obtain ⟨hanswer, hpull⟩ := hflow.pull (by omega) blank
  refine ⟨r + 1, p, w, hctrl ▸ hpull, ⟨hlogged.reads, ?_, ?_⟩⟩
  · have hwrites := hlogged.writes
    rw [if_pos hrx] at hwrites ⊢
    rw [List.range_succ, List.map_append, ← hwrites, List.map_singleton, hj hflow]
    rfl
  · have hbuf := hlogged.buf
    rw [if_pos hrx] at hbuf ⊢
    rw [hanswer]
    unfold DummyTransfer.memory DummyTxrx.store
    rw [hj hflow, hbuf]

/-- An answer that nobody wants. -/
theorem Kept.drop {blank : BitVec 8} {pc : Pc} {ctrl : Controller σ} {count : ℕ} (h : Kept x dev buf s)
    (hrx : x.rx ≠ true) (hctrl : ctrl = (s.ctrl.pull blank).2)
    (hlt : ∀ {r p w}, Flow x.respond x.word dev s.ctrl r p w → r < p) :
    Kept x dev buf { s with pc := pc, ctrl := ctrl, count := count } := by
  obtain ⟨r, p, w, hflow, hlogged⟩ := h
  obtain ⟨-, hpull⟩ := hflow.pull (hlt hflow) blank
  refine ⟨r + 1, p, w, hctrl ▸ hpull, ⟨hlogged.reads, ?_, ?_⟩⟩
  · rw [hlogged.writes, if_neg hrx, if_neg hrx]
  · rw [hlogged.buf, if_neg hrx, if_neg hrx]

/-- **The FIFO loop reads an answer**, which goes to `rptr`. -/
theorem pull_kept {blank : BitVec 8} {burst i : ℕ} (hsound : Sound x dev s) (h : Kept x dev buf s)
    (hpc : s.pc = .pull burst i) (hstep : x.driverStep s blank = some s') : Kept x dev buf s' := by
  obtain ⟨r, p, w, hflow, -, hstands⟩ := hsound
  unfold Stands at hstands
  unfold DummyTransfer.driverStep at hstep
  rw [hpc] at hstep hstands
  obtain ⟨hfifos, hlt⟩ := hstands
  simp only at hstep
  split at hstep
  · rename_i hrx
    split at hstep
    · obtain rfl := Option.some.inj hstep
      exact h
    · rename_i hrsp
      obtain rfl := Option.some.inj hstep
      exact h.store hrx hrsp rfl (fun _ => if_pos hfifos)
  · rename_i hrx
    obtain rfl := Option.some.inj hstep
    refine h.drop hrx rfl ?_
    intro r' p' w' hflow'
    obtain ⟨rfl, rfl, -⟩ := hflow'.unique hflow
    exact hlt

/-- **The other loop reads an answer**, which goes to where the count is. -/
theorem bytePull_kept {blank : BitVec 8} (hsound : Sound x dev s) (h : Kept x dev buf s) (hpc : s.pc = .bytePull)
    (hstep : x.driverStep s blank = some s') : Kept x dev buf s' := by
  obtain ⟨r, p, w, hflow, -, hstands⟩ := hsound
  unfold Stands at hstands
  unfold DummyTransfer.driverStep at hstep
  rw [hpc] at hstep hstands
  obtain ⟨hfifos, hr⟩ := hstands
  simp only at hstep
  split at hstep
  · obtain rfl := Option.some.inj hstep
    exact h
  · rename_i hrsp
    have hslot : ∀ {r' p' w'}, Flow x.respond x.word dev s.ctrl r' p' w' → x.slot r' = s.count := by
      intro r' p' w' hflow'
      exact (if_neg hfifos).trans ((hflow'.unique hflow).1.trans hr)
    have hlt : ∀ {r' p' w'}, Flow x.respond x.word dev s.ctrl r' p' w' → r' < p' := by
      intro r' p' w' hflow'
      have hlength := hflow'.rsp_length
      have hsome : s.ctrl.rsp.length ≠ 0 := fun hzero => hrsp (List.length_eq_zero_iff.1 hzero)
      omega
    obtain rfl := Option.some.inj hstep
    by_cases hrx : x.rx = true
    · simp only [if_pos hrx]
      exact h.store hrx hrsp rfl hslot
    · simp only [if_neg hrx]
      exact h.drop hrx rfl hlt

/-- **One step** of the driver or of the controller. -/
theorem kept_next {a : TxrxAct} (hsound : Sound x dev s) (h : Kept x dev buf s) (hstep : x.next s a = some s') :
    Kept x dev buf s' := by
  obtain ⟨r, p, w, hflow, hroom, hstands⟩ := hsound
  cases a with
  | take =>
    obtain ⟨c, htake, rfl⟩ := Option.map_eq_some_iff.1 hstep
    obtain ⟨r', p', w', hflow', hlogged⟩ := h
    exact ⟨r', p', w', hflow'.take htake, ⟨hlogged.reads, hlogged.writes, hlogged.buf⟩⟩
  | finish =>
    obtain ⟨c, hfinish, rfl⟩ := Option.map_eq_some_iff.1 hstep
    obtain ⟨r', p', w', hflow', hlogged⟩ := h
    -- the plain transfer knows how many answers are outstanding
    obtain ⟨rfl, rfl, rfl⟩ := hflow'.unique hflow
    have hdone := hflow'.finish (reads_dataWord x.tx) hroom hfinish
    exact ⟨r', p' + 1, w', hdone, ⟨hlogged.reads, hlogged.writes, hlogged.buf⟩⟩
  | driver blank =>
    have hdriver : x.driverStep s blank = some s' := hstep
    have hplace := hstands
    unfold DummyTransfer.driverStep at hdriver
    unfold Stands at hplace
    cases hpc : s.pc with
    | head =>
      rw [hpc] at hdriver
      obtain rfl := Option.some.inj hdriver
      exact h.moved rfl rfl rfl rfl
    | rx burst i =>
      rw [hpc] at hdriver
      simp only at hdriver
      split at hdriver
      · obtain rfl := Option.some.inj hdriver
        exact h.moved rfl rfl rfl rfl
      · split at hdriver
        · obtain rfl := Option.some.inj hdriver
          exact h
        · obtain rfl := Option.some.inj hdriver
          exact h.moved rfl rfl rfl rfl
    | pull burst i =>
      exact pull_kept ⟨r, p, w, hflow, hroom, hstands⟩ h hpc hstep
    | tx burst i =>
      rw [hpc] at hdriver
      simp only at hdriver
      split at hdriver
      · obtain rfl := Option.some.inj hdriver
        exact h.moved rfl rfl rfl rfl
      · split at hdriver
        · obtain rfl := Option.some.inj hdriver
          exact h
        · obtain rfl := Option.some.inj hdriver
          exact h.moved rfl rfl rfl rfl
    | put burst i =>
      rw [hpc] at hdriver hplace
      obtain ⟨hw, hcmd⟩ := hplace
      obtain rfl := Option.some.inj hdriver
      exact h.put hcmd (fun hflow' => (hflow'.unique hflow).2.2.trans hw) rfl
    | byteHead =>
      rw [hpc] at hdriver hplace
      obtain ⟨hw, hcmd⟩ := hplace
      simp only at hdriver
      split at hdriver
      · obtain rfl := Option.some.inj hdriver
        exact h.put hcmd (fun hflow' => (hflow'.unique hflow).2.2.trans hw) rfl
      · obtain rfl := Option.some.inj hdriver
        exact h.moved rfl rfl rfl rfl
    | bytePull => exact bytePull_kept ⟨r, p, w, hflow, hroom, hstands⟩ h hpc hstep
    | done =>
      rw [hpc] at hdriver
      exact absurd hdriver (by simp)

theorem reach_kept (hcmd : 0 < x.cmdFifoDepth) (hrsp : 0 < x.rspFifoDepth)
    (h : (x.machine dev buf).Reach (fun _ _ => True) s) : Kept x dev buf s := by
  induction h with
  | init hi => exact hi.symm ▸ start_kept
  | step hreach _ hstep ih => exact kept_next (reach_sound hcmd hrsp hreach) ih hstep

/-! ## Without entries in a FIFO -/

/-- The driver waits for the first answer, or had nothing to do. -/
def Still (x : DummyTransfer σ) (dev : σ) (buf : ℕ → BitVec 8) (s : DummyTxrx σ) : Prop :=
  s = x.start dev buf ∨
    (s.pc = .bytePull ∧ s.ctrl.rsp = [] ∧ (x.cmdFifoDepth = 0 → s.ctrl.cmd = [] ∧ s.ctrl.busy = none)) ∨
      x.len = 0 ∧ s = { x.start dev buf with pc := .done }

/-- A controller with nothing to do does nothing. -/
theorem empty_next {d : σ} (hempty : s.ctrl = .empty d) : x.next s .take = none ∧ x.next s .finish = none := by
  unfold DummyTransfer.next
  rw [hempty]
  exact ⟨rfl, rfl⟩

theorem start_pc (hfifos : ¬ x.Fifos) : (x.start dev buf).pc = .byteHead := if_neg hfifos

theorem still_next {a : TxrxAct} (hfifos : ¬ x.Fifos) (hnone : x.cmdFifoDepth = 0 ∨ x.rspFifoDepth = 0)
    (h : Still x dev buf s) (hstep : x.next s a = some s') : Still x dev buf s' := by
  rcases h with rfl | ⟨hpc, hrsp, hcmd⟩ | ⟨-, rfl⟩
  · cases a with
    | take =>
      rw [(empty_next (d := dev) rfl).1] at hstep
      cases hstep
    | finish =>
      rw [(empty_next (d := dev) rfl).2] at hstep
      cases hstep
    | driver blank =>
      have hdriver : x.driverStep (x.start dev buf) blank = some s' := hstep
      unfold DummyTransfer.driverStep at hdriver
      rw [start_pc hfifos] at hdriver
      simp only at hdriver
      split at hdriver
      · obtain rfl := Option.some.inj hdriver
        refine Or.inr (Or.inl ⟨rfl, ?_, ?_⟩)
        · show ((x.start dev buf).ctrl.put _ _).rsp = []
          unfold Controller.put
          split <;> rfl
        · intro hzero
          show ((x.start dev buf).ctrl.put _ _).cmd = [] ∧ ((x.start dev buf).ctrl.put _ _).busy = none
          unfold Controller.put
          rw [if_neg (by omega)]
          exact ⟨rfl, rfl⟩
      · rename_i hmore
        obtain rfl := Option.some.inj hdriver
        have hzero : x.len = 0 := Nat.eq_zero_of_not_pos hmore
        exact Or.inr (Or.inr ⟨hzero, rfl⟩)
  · cases a with
    | take =>
      obtain ⟨c, htake, rfl⟩ := Option.map_eq_some_iff.1 hstep
      unfold Controller.take at htake
      split at htake
      · rename_i w cmd hbusy hqueue
        obtain rfl := Option.some.inj htake
        refine Or.inr (Or.inl ⟨hpc, hrsp, ?_⟩)
        intro hzero
        rw [(hcmd hzero).1] at hqueue
        cases hqueue
      · exact absurd htake (by simp)
    | finish =>
      obtain ⟨c, hfinish, rfl⟩ := Option.map_eq_some_iff.1 hstep
      unfold Controller.finish at hfinish
      split at hfinish
      · exact absurd hfinish (by simp)
      · rename_i w hbusy
        rcases hnone with hzero | hzero
        · -- no command got into the FIFO
          rw [(hcmd hzero).2] at hbusy
          cases hbusy
        · -- its answer is lost
          obtain rfl := Option.some.inj hfinish
          refine Or.inr (Or.inl ⟨hpc, ?_, ?_⟩)
          · simp only
            split
            · exact hrsp
            · rw [if_neg (by omega)]
              exact hrsp
          · intro hcmdZero
            rw [(hcmd hcmdZero).2] at hbusy
            cases hbusy
    | driver blank =>
      have hdriver : x.driverStep s blank = some s' := hstep
      unfold DummyTransfer.driverStep at hdriver
      rw [hpc] at hdriver
      simp only at hdriver
      rw [if_pos hrsp] at hdriver
      obtain rfl := Option.some.inj hdriver
      exact Or.inr (Or.inl ⟨hpc, hrsp, hcmd⟩)
  · cases a with
    | take =>
      rw [(empty_next (d := dev) rfl).1] at hstep
      cases hstep
    | finish =>
      rw [(empty_next (d := dev) rfl).2] at hstep
      cases hstep
    | driver blank => exact absurd hstep (by simp [DummyTransfer.next, DummyTransfer.driverStep])

/-! ## When the transfer is done -/

/-- **What a transfer has read and stored** in the end. -/
theorem done_logs (h : (x.machine dev buf).Reach (fun _ _ => True) s) (hdone : s.pc = .done) :
    s.ctrl.sent = (List.range x.len).map x.word ∧ Logged x dev buf s x.len x.len := by
  by_cases hdepths : 0 < x.cmdFifoDepth ∧ 0 < x.rspFifoDepth
  · obtain ⟨r, p, w, hflow, hlogged⟩ := reach_kept hdepths.1 hdepths.2 h
    obtain ⟨r', p', w', hflow', -, hstands⟩ := reach_sound hdepths.1 hdepths.2 h
    obtain ⟨rfl, rfl, rfl⟩ := hflow.unique hflow'
    unfold Stands at hstands
    rw [hdone] at hstands
    obtain ⟨rfl, rfl, rfl⟩ := hstands
    exact ⟨hflow.sent, hlogged⟩
  · -- with nothing to send it ends at once; otherwise it never does
    have hfifos : ¬ x.Fifos := by
      rintro ⟨hcmd, hrsp⟩
      exact hdepths ⟨by omega, by omega⟩
    have hstill : Still x dev buf s :=
      h.invariant (I := Still x dev buf) (fun _ hinit => Or.inl hinit)
        (fun _ _ _ hs _ hstep => still_next hfifos (by omega) hs hstep)
    rcases hstill with rfl | ⟨hpc, -⟩ | ⟨hlen, rfl⟩
    · rw [start_pc hfifos] at hdone
      cases hdone
    · rw [hpc] at hdone
      cases hdone
    · rw [hlen]
      exact ⟨rfl, (ite_self _).symm, (ite_self _).symm, (ite_self _).symm⟩

theorem responses_words (respond : Device σ) (word : ℕ → ℕ) (dev : σ) (k m : ℕ) :
    responses respond (after respond word dev m) ((List.range' m k).map word) =
      (List.range' m k).map (answer respond word dev) := by
  induction k generalizing m with
  | zero => rfl
  | succ k ih =>
    rw [List.range'_succ, List.map_cons, List.map_cons]
    unfold responses
    exact congrArg (_ :: ·) (ih (m + 1))

/-- Through FIFOs every answer goes to the first byte. -/
theorem memory_fifos (hfifos : x.Fifos) (k j : ℕ) :
    x.memory dev buf (k + 1) j = if j = 0 then answer x.respond x.word dev k else buf j := by
  have hslot : ∀ k, x.slot k = 0 := fun _ => if_pos hfifos
  induction k with
  | zero =>
    unfold DummyTransfer.memory
    rw [hslot]
    rfl
  | succ k ih =>
    unfold DummyTransfer.memory
    rw [hslot, ih]
    split <;> rfl

/-- **The dummy cycle**: in every transfer that is done, whatever the device and however the FIFOs fill and drain. -/
theorem dummy_cycle_iff (hn : 1 ≤ x.n) (h : (x.machine dev buf).Reach (fun _ _ => True) s) (hdone : s.pc = .done) :
    DummyRight x dev s ↔ Spared x dev buf := by
  obtain ⟨hsent, hreads, hwrites, hbuf⟩ := done_logs h hdone
  have hresponses : responses x.respond dev s.ctrl.sent = (List.range x.len).map (answer x.respond x.word dev) := by
    rw [hsent, List.range_eq_range']
    exact responses_words x.respond x.word dev x.len 0
  by_cases hrx : x.rx = true
  · rw [if_pos hrx] at hwrites hbuf
    have hlen : x.len = (x.n + 1) % 2 ^ 32 := if_pos hrx
    have hnlt := x.n_lt
    constructor
    · rintro ⟨hread, hstored, hreceived⟩
      have hreceived := hreceived hrx
      rw [hresponses] at hreceived
      -- the answer to command `1` is there, so `hw->len` has not wrapped around
      have hfirst : 1 < x.len := by
        obtain ⟨hlt, -⟩ := List.getElem?_eq_some_iff.1 (hreceived 0 hn)
        rw [List.length_map, List.length_range] at hlt
        exact hlt
      have hlt : x.n + 1 < 2 ^ 32 := by omega
      rw [Nat.mod_eq_of_lt hlt] at hlen
      rw [hlen] at hreads hwrites hbuf hreceived
      have hanswer : ∀ i < x.n, s.buf i = answer x.respond x.word dev (i + 1) := by
        intro i hi
        have hget := hreceived i hi
        rw [List.getElem?_map, List.getElem?_range (by omega)] at hget
        exact (Option.some.inj hget).symm
      -- the other loop stores the last answer behind the buffer
      have hfifos : x.Fifos := by
        apply Decidable.byContradiction
        intro hnot
        have hmem : x.n ∈ s.rxWrites := by
          rw [hwrites]
          exact List.mem_map.2 ⟨x.n, List.mem_range.2 (Nat.lt_succ_self _), if_neg hnot⟩
        exact absurd (hstored x.n hmem) (Nat.lt_irrefl _)
      -- command `n` would take its byte from behind the buffer
      have htx : x.tx = none := by
        cases htx : x.tx with
        | none => rfl
        | some ptr =>
          rw [htx, Option.isSome_some, if_pos rfl] at hreads
          have hmem : x.n ∈ s.txReads := hreads ▸ List.mem_range.2 (Nat.lt_succ_self _)
          exact absurd (hread x.n hmem) (Nat.lt_irrefl _)
      refine Or.inr ⟨hfifos, htx, hlt, ?_, ?_⟩
      · have hzero := hanswer 0 hn
        rw [hbuf, memory_fifos hfifos, if_pos rfl] at hzero
        exact hzero
      · intro i hpos hi
        have hrest := hanswer i hi
        rw [hbuf, memory_fifos hfifos, if_neg (by omega)] at hrest
        exact hrest
    · rintro (hno | ⟨hfifos, htx, hlt, hlast, hrest⟩)
      · rw [hrx] at hno
        cases hno
      · rw [Nat.mod_eq_of_lt hlt] at hlen
        rw [hlen] at hwrites hbuf hresponses
        rw [htx, Option.isSome_none, if_neg Bool.false_ne_true] at hreads
        refine ⟨?_, ?_, ?_⟩
        · intro i hmem
          rw [hreads] at hmem
          cases hmem
        · intro i hmem
          rw [hwrites] at hmem
          obtain ⟨k, -, rfl⟩ := List.mem_map.1 hmem
          rw [show x.slot k = 0 from if_pos hfifos]
          exact hn
        · intro _ i hi
          rw [hresponses, List.getElem?_map, List.getElem?_range (by omega), hbuf, memory_fifos hfifos]
          rcases Nat.eq_zero_or_pos i with rfl | hpos
          · rw [if_pos rfl, hlast]
            rfl
          · rw [if_neg (by omega), hrest i hpos hi]
            rfl
  · rw [if_neg hrx] at hwrites
    have hlen : x.len = x.n := if_neg hrx
    have hspared : Spared x dev buf := Or.inl (Bool.eq_false_iff.2 hrx)
    refine ⟨fun _ => hspared, fun _ => ⟨?_, ?_, fun hyes => absurd hyes hrx⟩⟩
    · intro i hmem
      rw [hreads, hlen] at hmem
      split at hmem
      · exact List.mem_range.1 hmem
      · cases hmem
    · intro i hmem
      rw [hwrites] at hmem
      cases hmem

/-- A device that answers with the number of the command. -/
def counter : Device ℕ := fun k _ => (k + 1, BitVec.ofNat 8 k)

theorem one_lt_word : 1 < 2 ^ 32 := by decide

/-- One byte is received, through FIFOs of two and three entries. -/
def oneByte : DummyTransfer ℕ :=
  { cmdFifoDepth := 2, rspFifoDepth := 3, n := 1, tx := none, rx := true, respond := counter
    cmdFifoDepth_lt := threeBytes.cmdFifoDepth_lt, rspFifoDepth_lt := threeBytes.rspFifoDepth_lt
    n_lt := one_lt_word }

/-- Both commands are answered before the driver looks again. -/
def oneByteRun : List TxrxAct :=
  let busy : List TxrxAct := [.take, .finish, .take, .finish]
  List.replicate 7 (.driver 0) ++ busy ++ List.replicate 8 (.driver 0)

theorem dummy_cycle_one :
    ∃ s, (oneByte.machine 0 (fun _ => 0xff#8)).Reach (fun _ _ => True) s ∧ s.pc = .done ∧ DummyRight oneByte 0 s := by
  have hrun : ((oneByte.machine 0 (fun _ => 0xff#8)).exec (oneByte.start 0 (fun _ => 0xff#8)) oneByteRun).map
      (fun s => s.pc) = some .done := by decide +kernel
  obtain ⟨s, hexec, hdone⟩ := Option.map_eq_some_iff.1 hrun
  have hreach : (oneByte.machine 0 (fun _ => 0xff#8)).Reach (fun _ _ => True) s :=
    .of_exec rfl (Machine.along_true _ _) hexec
  have hspared : Spared oneByte 0 (fun _ => 0xff#8) :=
    Or.inr ⟨by decide, rfl, by decide, rfl, fun i hpos hi => absurd hi (Nat.not_lt.2 hpos)⟩
  exact ⟨s, hreach, hdone, (dummy_cycle_iff (by decide) hreach hdone).2 hspared⟩

/-- Two bytes both ways. -/
def twoBytes : DummyTransfer ℕ :=
  { cmdFifoDepth := 2, rspFifoDepth := 3, n := 2, tx := some (fun i => BitVec.ofNat 8 (i + 1)), rx := true
    respond := counter, cmdFifoDepth_lt := threeBytes.cmdFifoDepth_lt
    rspFifoDepth_lt := threeBytes.rspFifoDepth_lt, n_lt := threeBytes.cmdFifoDepth_lt }

/-- Three commands go out as in a plain transfer of three bytes. A third byte is sent, from after the transmit buffer; the
last answer is where that to command `1` belongs, and there is none where that to command `2` does. -/
theorem last_answer_first :
    ∃ s, (twoBytes.machine 0 (fun _ => 0xff#8)).Reach (fun _ _ => True) s ∧ s.pc = .done ∧
      s.txReads = [0, 1, 2] ∧ s.rxWrites = [0, 0, 0] ∧ responses counter 0 s.ctrl.sent = [0#8, 1#8, 2#8] ∧
        s.buf 0 = 2#8 ∧ s.buf 1 = 0xff#8 ∧ ¬ DummyRight twoBytes 0 s := by
  have hrun : ((twoBytes.machine 0 (fun _ => 0xff#8)).exec (twoBytes.start 0 (fun _ => 0xff#8)) threeBytesRun).map
      (fun s => ((s.pc, s.txReads, s.rxWrites), responses counter 0 s.ctrl.sent, s.buf 0, s.buf 1)) =
        some ((.done, [0, 1, 2], [0, 0, 0]), [0#8, 1#8, 2#8], 2#8, 0xff#8) := by decide +kernel
  obtain ⟨s, hexec, hs⟩ := Option.map_eq_some_iff.1 hrun
  simp only [Prod.mk.injEq] at hs
  obtain ⟨⟨hdone, hreads, hwrites⟩, hresponses, hfirst, hsecond⟩ := hs
  have hreach : (twoBytes.machine 0 (fun _ => 0xff#8)).Reach (fun _ _ => True) s :=
    .of_exec rfl (Machine.along_true _ _) hexec
  refine ⟨s, hreach, hdone, hreads, hwrites, hresponses, hfirst, hsecond, ?_⟩
  intro hright
  have hinside := hright.sent 2 (by rw [hreads]; decide)
  exact absurd hinside (show ¬ 2 < 2 by decide)

end Br2Efinix.Spi
