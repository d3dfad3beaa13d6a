import Br2Efinix.Lib.Machine
import Br2Efinix.Tsemac.RxRing

/-!
# The receive ring of the U-Boot driver

`efinix_tse_recv` and `efinix_tse_free_pkt` on the receive descriptors, with the DMA
engine that fills them. The driver has one thread. `efinix_tse_recv` reads the status
of one descriptor, or, when the length field of the first one is 0, of two, and the
engine may act between the two reads; it may also act between a rearm and the kick
after it.

Slot `i` has the buffer `net_rx_packets[i]` for good. Frames are numbered from 0 as they
arrive.
-/

namespace Br2Efinix.Tsemac.UBoot

/-- A receive descriptor: `completed` and `bytes` are its status, `dst` is `to`. -/
structure Desc where
  completed : Bool
  bytes : ℕ
  control : ℕ
  dst : ℕ
  deriving DecidableEq, Repr

/-- Where the driver is: outside of its calls, before the second read of `efinix_tse_recv`, or
before the kick after a frame that it drops or gives back. -/
inductive Call
  | idle
  | ahead
  | dropKick
  | freeKick
  deriving DecidableEq, Repr

/-- The receive side of `struct efinix_tse_priv`, the descriptors, the buffers' contents and the
engine. Only observed are the lengths of the frames that arrived, and the frames
returned with the lengths returned. -/
structure Rx where
  n : ℕ
  rxBufSize : ℕ
  ring : ℕ → Desc
  activeRx : Option ℕ
  rxHead : ℕ
  call : Call
  busy : Bool
  at_ : ℕ
  content : ℕ → ℕ
  arrived : List ℕ
  returned : List (ℕ × ℕ)

/-- `rx_buf_size` as `efinix_tse_probe` sets it from `efx,rxmem`. -/
def bufSize (rxmem pktsizeAlign : ℕ) : ℕ :=
  if rxmem = 0 ∨ rxmem > pktsizeAlign then pktsizeAlign else rxmem

namespace Rx

def setDesc (s : Rx) (i : ℕ) (d : Desc) : Rx :=
  { s with ring := fun j => if j = i then d else s.ring j }

/-- A descriptor that the engine may fill, as `efinix_tse_rearm_rx_desc` writes it. -/
def fresh (s : Rx) (idx : ℕ) : Desc := ⟨false, 0, (s.rxBufSize - 1) % 2 ^ 27, idx⟩

/-- `efinix_tse_rearm_rx_desc`. -/
def rearm (s : Rx) (idx : ℕ) : Rx := s.setDesc idx (s.fresh idx)

/-- `efinix_tse_rx_kick`. -/
def kick (s : Rx) : Rx := if s.busy then s else { s with busy := true }

/-- `efinix_tse_recv` once it has the status of descriptor `idx`. -/
def taken (s : Rx) (idx : ℕ) : Rx :=
  let d := s.ring idx
  if !d.completed then { s with call := .idle }
  else if d.bytes = 0 ∨ d.bytes > s.rxBufSize then
    { s.rearm idx with rxHead := (idx + 1) % s.n, call := .dropKick }
  else
    { s with
      activeRx := some idx, rxHead := (idx + 1) % s.n, call := .idle
      returned := s.returned ++ [(s.content idx, d.bytes)] }

/-- `efinix_tse_recv`, up to its second read. -/
def recv (s : Rx) : Option Rx :=
  if s.call = .idle then
    if s.activeRx.isSome then some s
    else if (s.ring s.rxHead).bytes = 0 then some { s with call := .ahead }
    else some (s.taken s.rxHead)
  else none

/-- `efinix_tse_free_pkt`, up to its kick. -/
def freePkt (s : Rx) : Option Rx :=
  if s.call = .idle then
    match s.activeRx with
    | none => some s
    | some idx => some { s.rearm idx with call := .freeKick }
  else none

/-- The rest of the call that the driver is in. -/
def resume (s : Rx) : Option Rx :=
  match s.call with
  | .idle => none
  | .ahead => some (s.taken ((s.rxHead + 1) % s.n))
  | .dropKick => some { s.kick with call := .idle }
  | .freeKick => some { s.kick with activeRx := none, call := .idle }

/-- The engine fills the next descriptor with a frame of `len` bytes, or stops on a completed
one. -/
def engineStep (s : Rx) (len : ℕ) : Option Rx :=
  if s.busy then
    let d := s.ring s.at_
    if d.completed then some { s with busy := false }
    else
      some { s.setDesc s.at_ { d with completed := true, bytes := len % 2 ^ 27 } with
        content := fun b => if b = d.dst then s.arrived.length else s.content b
        arrived := s.arrived ++ [len % 2 ^ 27], at_ := (s.at_ + 1) % s.n }
  else none

end Rx

inductive RxAct
  | recv
  | freePkt
  | resume
  | engine (len : ℕ)
  deriving DecidableEq, Repr

def Rx.next (s : Rx) : RxAct → Option Rx
  | .recv => s.recv
  | .freePkt => s.freePkt
  | .resume => s.resume
  | .engine len => s.engineStep len

/-- The state after `efinix_tse_init_rx_ring` and `efinix_tse_dma_start`. -/
def Rx.started (n rxBufSize : ℕ) : Rx :=
  { n := n, rxBufSize := rxBufSize, ring := fun i => ⟨false, 0, (rxBufSize - 1) % 2 ^ 27, i⟩
    activeRx := none, rxHead := 0, call := .idle, busy := true, at_ := 0, content := fun _ => 0
    arrived := [], returned := [] }

def rxMachine : Machine Rx RxAct :=
  { init := fun s => ∃ n rxmem pktsizeAlign, 0 < n ∧ 0 < pktsizeAlign ∧ s = .started n (bufSize rxmem pktsizeAlign)
    step := Rx.next }

theorem bufSize_pos {rxmem pktsizeAlign : ℕ} (h : 0 < pktsizeAlign) : 0 < bufSize rxmem pktsizeAlign := by
  unfold bufSize
  split <;> omega

namespace Rx

variable {s : Rx}

@[simp] theorem setDesc_ring (i j : ℕ) (d : Desc) :
    (s.setDesc i d).ring j = if j = i then d else s.ring j := rfl

/-- A kick only starts the engine. -/
theorem kick_eq : s.kick = { s with busy := true } := by
  unfold kick
  split
  · rename_i h
    rw [← h]
  · rfl

end Rx

end Br2Efinix.Tsemac.UBoot
