import Br2Efinix.Lib.Machine
import Br2Efinix.Lib.Table
import Br2Efinix.Tsemac.TxRing

/-!
# The receive ring

`tsemac_dma_bd_init`, `tsemac_rx_poll` and `tsemac_dma_bd_release` on the receive
descriptors, with the DMA engine that fills them. A descriptor that is completed is
the driver's until its status is cleared, and the engine's after that, so one pass of
the loop of `tsemac_rx_poll` is one step.

Buffers are named by the order of their allocation, and the bus address of a buffer
by the buffer. Frames are numbered from 1 as they arrive.
-/

namespace Br2Efinix.Tsemac

def ETHERNET_HDR_SIZE : ℕ := 14
def ETHERNET_TRL_SIZE : ℕ := 4
def ETHERNET_MTU : ℕ := 1500
def ETHERNET_JUMBO_MTU : ℕ := 9000
def ETHERNET_MAX_FRAME_SIZE : ℕ := ETHERNET_HDR_SIZE + ETHERNET_TRL_SIZE + ETHERNET_MTU

/-- The frame size that `tsemac_device_reset` sets. -/
def maxFrmSize (mtu rxmem : ℕ) : ℕ :=
  if mtu > ETHERNET_MTU ∧ mtu ≤ ETHERNET_JUMBO_MTU then
    let frmSizeTemp := mtu + ETHERNET_HDR_SIZE + ETHERNET_TRL_SIZE
    if frmSizeTemp ≤ rxmem then frmSizeTemp else ETHERNET_MAX_FRAME_SIZE
  else ETHERNET_MAX_FRAME_SIZE

/-- A receive descriptor: `completed` and `bytes` are its status, `dst` is `to`. -/
structure RxDesc where
  completed : Bool
  bytes : ℕ
  control : ℕ
  dst : ℕ
  skb : Option ℕ
  deriving DecidableEq, Repr

/-- A descriptor of zeros. -/
def RxDesc.zero : RxDesc := ⟨false, 0, 0, 0, none⟩

/-- The mapping that `tsemac_dma_bd_release` would undo. -/
def RxDesc.mapping (d : RxDesc) : Option ℕ := if d.skb.isSome && d.control != 0 then some d.dst else none

/-- What `tsemac_rx_poll` does next: a pass of the loop, the decision at its end, or the
restart of the engine. -/
inductive RxPoll
  | idle
  | loop (budget packets : ℕ)
  | finish (budget packets : ℕ)
  | restart
  deriving DecidableEq, Repr

/-- The receive side of `struct efx_tsemac_local`, its descriptors, the buffers' contents and the
engine; `allocated` is `rx_bd_v != NULL`. Only observed are whether the ring is set up, the
buffers mapped, unmapped, handed to the stack and freed, the frames received and those
handed to the stack, each with its length. -/
structure Rx where
  n : ℕ
  rxmem : ℕ
  maxFrm : ℕ
  running : Bool
  allocated : Bool
  ring : ℕ → RxDesc
  ci : ℕ
  poll : RxPoll
  dropped : ℕ
  busy : Bool
  at_ : ℕ
  content : ℕ → ℕ
  skbs : ℕ
  up : Bool
  mapped : List ℕ
  unmapped : List ℕ
  handed : List ℕ
  freed : List ℕ
  received : List (ℕ × ℕ)
  delivered : List (ℕ × ℕ)

namespace Rx

/-- Write a descriptor. -/
def setDesc (s : Rx) (i : ℕ) (d : RxDesc) : Rx :=
  { s with ring := fun j => if j = i then d else s.ring j }

/-- `if (++i >= rx_bd_num) i = 0`. -/
def wrap (s : Rx) (i : ℕ) : ℕ := if i + 1 ≥ s.n then 0 else i + 1

/-- `(lp->max_frm_size - 1) & DMASG_DESCRIPTOR_CONTROL_BYTES`. -/
def frameControl (s : Rx) : ℕ := controlBytes s.maxFrm

/-! ### `tsemac_dma_bd_release` -/

/-- The loop over the receive descriptors from `i` on, with `k` to go. -/
def releaseLoop : ℕ → ℕ → Rx → Rx
  | 0, _, s => s
  | k + 1, i, s =>
    match (s.ring i).skb with
    | none => s
    | some b =>
      releaseLoop k (i + 1)
        { s with
          freed := s.freed ++ [b]
          unmapped := if (s.ring i).control ≠ 0 then s.unmapped ++ [(s.ring i).dst] else s.unmapped }

/-- `tsemac_dma_bd_release`; neither the descriptors nor `rx_bd_v` are cleared. -/
def bdRelease (s : Rx) : Rx :=
  if s.allocated then { releaseLoop s.n 0 s with up := false } else { s with up := false }

/-! ### `tsemac_dma_bd_init` -/

/-- The loop over the receive descriptors from `i` on, with `k` to go. `alloc i` says whether
`netdev_alloc_skb_ip_align` and `dma_map_single` succeed for descriptor `i`. -/
def initLoop (alloc : ℕ → Bool × Bool) : ℕ → ℕ → Rx → Rx × Bool
  | 0, _, s => (s, true)
  | k + 1, i, s =>
    if (alloc i).1 then
      let b := s.skbs
      let s := { s.setDesc i { s.ring i with skb := some b } with skbs := b + 1 }
      if (alloc i).2 then
        initLoop alloc k (i + 1)
          { s.setDesc i { s.ring i with dst := b, control := s.frameControl } with
            mapped := s.mapped ++ [b] }
      else (s, false)
    else (s, false)

/-- `tsemac_dma_bd_init` with the start of the engine; `rings` says whether `dma_alloc_coherent`
gives the memory for the two rings, which is zeroed. -/
def bdInit (s : Rx) (rings : Bool × Bool) (alloc : ℕ → Bool × Bool) : Rx :=
  let s := { s with ci := 0 }
  if !rings.1 then s
  else if !rings.2 then { s with allocated := false }.bdRelease
  else
    let r := initLoop alloc s.n 0 { s with allocated := true, ring := fun _ => .zero }
    if r.2 then { r.1 with at_ := 0, busy := true, up := true, received := [], delivered := [] }
    else r.1.bdRelease

/-- `tsemac_open`: the result of the reset is not looked at. `rest` says whether the remaining
calls succeed; where one does not, the interface stays down and the ring is left. -/
def open_ (s : Rx) (mtu : ℕ) (rings : Bool × Bool) (alloc : ℕ → Bool × Bool) (rest : Bool) : Option Rx :=
  if s.running then none
  else
    let s := { s with maxFrm := maxFrmSize mtu s.rxmem }
    some { s.bdInit rings alloc with running := rest }

/-- `tsemac_stop`, which waits for the poll to end and stops the engine. -/
def stop (s : Rx) : Option Rx :=
  if s.running ∧ s.poll = .idle then some { { s with busy := false }.bdRelease with running := false }
  else none

/-! ### `tsemac_rx_poll` -/

/-- The call, up to the loop. -/
def startPoll (s : Rx) (budget : ℕ) : Option Rx :=
  if s.running ∧ s.poll = .idle then
    some { s with ci := if (s.ring s.ci).bytes = 0 then s.wrap s.ci else s.ci, poll := .loop budget 0 }
  else none

/-- Take what a completed descriptor holds; the number of packets with it. -/
def take (s : Rx) (packets : ℕ) : Rx × ℕ :=
  let d := s.ring s.ci
  let s' := s.setDesc s.ci { d with skb := none }
  match d.skb with
  | none => ({ s' with dropped := s.dropped + 1 }, packets)
  | some b =>
    if d.bytes = 0 ∨ d.bytes > s.maxFrm then ({ s' with freed := s.freed ++ [b] }, packets)
    else
      ({ s' with
          unmapped := s.unmapped ++ [d.dst], handed := s.handed ++ [b]
          delivered := s.delivered ++ [(s.content b, d.bytes)] }, packets + 1)

/-- From `rearm` on; without a buffer the loop is left. -/
def rearm (s : Rx) (budget packets : ℕ) (alloc : Bool × Bool) : Rx :=
  if !alloc.1 then { s with poll := .finish budget packets }
  else
    let b := s.skbs
    if !alloc.2 then { s with skbs := b + 1, freed := s.freed ++ [b], poll := .finish budget packets }
    else
      { s.setDesc s.ci ⟨false, 0, s.frameControl, b, some b⟩ with
        skbs := b + 1, mapped := s.mapped ++ [b], ci := s.wrap s.ci, poll := .loop budget packets }

/-- One step. `alloc` says whether `napi_alloc_skb` and `dma_map_single` succeed, `complete` what
`napi_complete_done` returns. -/
def pollStep (s : Rx) (alloc : Bool × Bool) (complete : Bool) : Option Rx :=
  match s.poll with
  | .idle => none
  | .loop budget packets =>
    if packets < budget ∧ (s.ring s.ci).completed = true then
      let r := s.take packets
      some (r.1.rearm budget r.2 alloc)
    else some { s with poll := .finish budget packets }
  | .finish budget packets =>
    if packets = budget ∨ (s.ring s.ci).completed = true then some { s with poll := .idle }
    else some { s with poll := if complete then .restart else .idle }
  | .restart => some { s with busy := true, poll := .idle }

/-! ### The engine -/

/-- The engine fills the next descriptor with a frame of `len` bytes, or stops on a completed
one. -/
def engineStep (s : Rx) (len : ℕ) : Option Rx :=
  if s.busy ∧ s.at_ < s.n then
    let d := s.ring s.at_
    if d.completed then some { s with busy := false }
    else
      let frame := s.received.length + 1
      some { s.setDesc s.at_ { d with completed := true, bytes := len % 2 ^ 27 } with
        content := fun b => if b = d.dst then frame else s.content b
        received := s.received ++ [(frame, len)], at_ := s.wrap s.at_ }
  else none

end Rx

inductive RxAct
  | open_ (mtu : ℕ) (rings : Bool × Bool) (alloc : ℕ → Bool × Bool) (rest : Bool)
  | stop
  | startPoll (budget : ℕ)
  | poll (alloc : Bool × Bool) (complete : Bool)
  | engine (len : ℕ)

def Rx.next (s : Rx) : RxAct → Option Rx
  | .open_ mtu rings alloc rest => s.open_ mtu rings alloc rest
  | .stop => s.stop
  | .startPoll budget => s.startPoll budget
  | .poll alloc complete => s.pollStep alloc complete
  | .engine len => s.engineStep len

/-- The state before the first `tsemac_open`. -/
def Rx.probed (n rxmem : ℕ) : Rx :=
  { n := n, rxmem := rxmem, maxFrm := 0, running := false, allocated := false, ring := fun _ => .zero
    ci := 0, poll := .idle, dropped := 0, busy := false, at_ := 0, content := fun _ => 0, skbs := 0
    up := false, mapped := [], unmapped := [], handed := [], freed := [], received := []
    delivered := [] }

def rxMachine : Machine Rx RxAct :=
  { init := fun s => ∃ n rxmem, s = .probed n rxmem
    step := Rx.next }

theorem maxFrmSize_bounds (mtu rxmem : ℕ) : 1 < maxFrmSize mtu rxmem ∧ maxFrmSize mtu rxmem < 2 ^ 27 := by
  unfold maxFrmSize ETHERNET_MAX_FRAME_SIZE ETHERNET_JUMBO_MTU ETHERNET_MTU ETHERNET_HDR_SIZE
    ETHERNET_TRL_SIZE
  simp only
  split
  · split <;> omega
  · omega

end Br2Efinix.Tsemac
