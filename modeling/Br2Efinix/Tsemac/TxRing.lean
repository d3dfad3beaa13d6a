import Mathlib.Algebra.GroupWithZero.Nat
import Mathlib.Data.Int.Notation
import Mathlib.Data.List.Basic
import Br2Efinix.Lib.Machine

/-!
# The transmit ring

`tsemac_start_xmit`, `tsemac_tx_poll` with `tsemac_free_tx_chain`, and the DMA
engine on the descriptors that they share without a common lock. The contexts
interleave at their accesses of shared memory; `Tx.step` is one such access.

The engine is the one of the header comments: it fetches the current descriptor,
stops if that is completed, and otherwise sends it, marks it completed and follows
`next`. It stays busy until it has stopped.

Three fields of `Tx` are only observed: the descriptors owned by packets, the
pieces accepted, and the pieces sent.
-/

namespace Br2Efinix.Tsemac

/-! ## Limits and the ring size -/

def EINVAL : ℤ := 22
def EBUSY : ℤ := 16

/-- The kernel's default. -/
def MAX_SKB_FRAGS : ℕ := 17
def TX_BD_NUM_MIN : ℕ := MAX_SKB_FRAGS + 1
def TX_BD_NUM_MAX : ℕ := 4096
def RX_BD_NUM_MAX : ℕ := 4096

/-- `struct ethtool_ringparam`. -/
structure RingParam where
  rxPending : ℕ
  rxMiniPending : ℕ
  rxJumboPending : ℕ
  txPending : ℕ

/-- `tsemac_ethtools_set_ringparam`: the sizes `(rx_bd_num, tx_bd_num)` that it stores. -/
def setRingparam (running : Bool) (ering : RingParam) : Except ℤ (ℕ × ℕ) :=
  if ering.rxPending > RX_BD_NUM_MAX ∨ ering.rxMiniPending ≠ 0 ∨ ering.rxJumboPending ≠ 0 ∨
      ering.txPending < TX_BD_NUM_MIN ∨ ering.txPending > TX_BD_NUM_MAX then .error (-EINVAL)
  else if running then .error (-EBUSY)
  else .ok (ering.rxPending, ering.txPending)

/-- A transmit ring size that can be set. -/
def AcceptedTx (n : ℕ) : Prop := ∃ running ering rx, setRingparam running ering = .ok (rx, n)

theorem acceptedTx_iff (n : ℕ) : AcceptedTx n ↔ TX_BD_NUM_MIN ≤ n ∧ n ≤ TX_BD_NUM_MAX := by
  constructor
  · rintro ⟨running, ering, rx, h⟩
    unfold setRingparam at h
    split at h
    · exact absurd h (by simp)
    · rename_i hcond
      split at h
      · exact absurd h (by simp)
      · obtain ⟨-, rfl⟩ := Prod.mk.inj (Except.ok.inj h)
        omega
  · rintro ⟨h1, h2⟩
    refine ⟨false, ⟨0, 0, 0, n⟩, 0, ?_⟩
    unfold setRingparam
    rw [if_neg (by simp only; omega)]
    rfl

/-! ## Descriptors -/

def DMASG_DESCRIPTOR_CONTROL_BYTES : ℕ := 0x7FFFFFF
def DMASG_DESCRIPTOR_CONTROL_END_OF_PACKET : ℕ := 2 ^ 30

/-- `struct dmasg_descriptor`: of `status` only `COMPLETED` is read; `src` is `from`,
and `next` the index of the next descriptor. -/
structure Desc where
  completed : Bool
  control : ℕ
  src : ℕ
  next : ℕ
  skb : Option ℕ
  deriving DecidableEq, Repr

/-- `(len - 1) & DMASG_DESCRIPTOR_CONTROL_BYTES`, on `unsigned int`s. -/
def controlBytes (len : ℕ) : ℕ := (len + (2 ^ 32 - 1)) &&& DMASG_DESCRIPTOR_CONTROL_BYTES

/-- Sent and not yet cleaned up, as the driver reads it. -/
def Desc.done (d : Desc) : Bool := d.completed && d.control != 0

theorem controlBytes_eq (len : ℕ) : controlBytes len = (len + (2 ^ 27 - 1)) % 2 ^ 27 := by
  unfold controlBytes DMASG_DESCRIPTOR_CONTROL_BYTES
  rw [show (0x7FFFFFF : ℕ) = 2 ^ 27 - 1 by decide, Nat.and_two_pow_sub_one_eq_mod]
  omega

/-- **A piece of one byte has a control word of 0**, unless it ends the packet. -/
theorem controlBytes_eq_zero (len : ℕ) : controlBytes len = 0 ↔ len % 2 ^ 27 = 1 := by
  rw [controlBytes_eq]
  omega

theorem endOfPacket_ne (w : ℕ) : w ||| DMASG_DESCRIPTOR_CONTROL_END_OF_PACKET ≠ 0 := by
  intro h
  have hr : DMASG_DESCRIPTOR_CONTROL_END_OF_PACKET ≤ w ||| DMASG_DESCRIPTOR_CONTROL_END_OF_PACKET :=
    Nat.right_le_or
  rw [h] at hr
  exact absurd hr (by decide)

/-! ## The contexts -/

/-- `struct sk_buff`: the length of its linear part and of its fragments. -/
structure Packet where
  id : ℕ
  headlen : ℕ
  frags : List ℕ
  deriving DecidableEq, Repr

/-- Where `tsemac_free_tx_chain` is in its loop. -/
inductive FreeAt
  | check
  | control
  | status
  | advance
  deriving DecidableEq, Repr

/-- A call of `tsemac_free_tx_chain`. -/
structure Free where
  first : ℕ
  nr : ℕ
  force : Bool
  i : ℕ
  at_ : FreeAt
  completed : Bool
  deriving DecidableEq, Repr

/-- The locals of `tsemac_start_xmit`, and the addresses that the mapping gave. -/
structure Xmit where
  pkt : Packet
  orig : ℕ
  new : ℕ
  cur : ℕ
  ii : ℕ
  linear : ℕ
  addrs : List ℕ
  deriving DecidableEq, Repr

/-- What `tsemac_start_xmit` does next. -/
inductive XmitPc
  | idle
  /-- Map a fragment and write its address and control word, or go on to the linear part. -/
  | frag (x : Xmit)
  /-- Write the fragment's status. -/
  | fragStatus (x : Xmit)
  /-- Write the linear part's descriptor, under the lock. -/
  | publish (x : Xmit)
  /-- Store `tx_bd_tail`. -/
  | advance (x : Xmit)
  /-- Mark the descriptor at the new tail completed. -/
  | term (x : Xmit)
  /-- Read `tx_bd_ci` for the search of the head. -/
  | head (x : Xmit)
  /-- Look at a descriptor in `tsemac_check_tx_bd_head`. -/
  | scan (x : Xmit) (bd : ℕ)
  /-- Read `BUSY` and start the engine if it is idle. -/
  | kick (x : Xmit) (head : ℕ)
  /-- Stop the queue if the next packet may not fit. -/
  | space
  /-- Wake it if it does by now. -/
  | recheck
  /-- Free the descriptors of a packet that is dropped. -/
  | drop (fr : Free)
  deriving DecidableEq, Repr

/-- What `tsemac_tx_poll` does next. -/
inductive PollPc
  | idle
  | free (fr : Free)
  | wake
  deriving DecidableEq, Repr

inductive Dma
  | idle
  | fetch (cur : ℕ)
  | send (cur src : ℕ)
  | stopping
  deriving DecidableEq, Repr

/-- The transmit side of `struct efx_tsemac_local`, its descriptors and its contexts. -/
structure Tx where
  n : ℕ
  ring : ℕ → Desc
  ci : ℕ
  tail : ℕ
  stopped : Bool
  xmit : XmitPc
  poll : PollPc
  dma : Dma
  mapped : ℕ
  consumed : List ℕ
  owned : List ℕ
  items : List ℕ
  sent : List ℕ

namespace Tx

/-- Write a descriptor. -/
def modDesc (s : Tx) (i : ℕ) (f : Desc → Desc) : Tx :=
  { s with ring := fun j => if j = i then f (s.ring j) else s.ring j }

/-- The index after `i`: `if (++i >= tx_bd_num) i = 0`. -/
def wrap (s : Tx) (i : ℕ) : ℕ := if i + 1 ≥ s.n then 0 else i + 1

/-- `tsemac_check_tx_bd_space`: whether the descriptor ahead is in use. -/
def checkTxBdSpace (s : Tx) (numFrag : ℕ) : Bool := (s.ring ((s.tail + numFrag + 1) % s.n)).control != 0

/-! ### `tsemac_free_tx_chain` -/

/-- One access of the loop; without a frame the call has returned. -/
def freeStep (s : Tx) (fr : Free) : Tx × Option Free :=
  let num := (fr.first + fr.i) % s.n
  match fr.at_ with
  | .check =>
    if fr.i < fr.nr ∧ (fr.force || (s.ring num).done) then
      (s, some { fr with at_ := .control, completed := (s.ring num).done })
    else (s, none)
  | .control =>
    ({ s.modDesc num fun d => { d with control := 0, skb := none } with
        consumed := if fr.completed then (s.ring num).skb.toList ++ s.consumed else s.consumed },
      some { fr with at_ := .status })
  | .status => (s.modDesc num fun d => { d with completed := true }, some { fr with at_ := .advance })
  | .advance =>
    ({ s with
        ci := if s.ci + 1 ≥ s.n then (s.ci + 1) % s.n else s.ci + 1
        owned := s.owned.filter fun i => i ≠ num },
      some { fr with at_ := .check, i := fr.i + 1 })

/-! ### `tsemac_start_xmit` -/

/-- The call, up to the check for space. -/
def startXmit (s : Tx) (p : Packet) : Option Tx :=
  if s.xmit = .idle ∧ p.frags.length ≤ MAX_SKB_FRAGS then
    if s.checkTxBdSpace (p.frags.length + 1) then some { s with stopped := true }
    else some { s with xmit := .frag ⟨p, s.tail, s.tail, s.tail, 0, 0, []⟩ }
  else none

/-- A fragment, or the linear part when none is left. -/
def xmitFrag (s : Tx) (x : Xmit) (mapped : Bool) : Tx :=
  match x.pkt.frags[x.ii]? with
  | some len =>
    let new := s.wrap x.new
    if mapped then
      { s.modDesc new fun d => { d with src := s.mapped, control := controlBytes len } with
        mapped := s.mapped + 1
        xmit := .fragStatus { x with
          new := new, cur := new, ii := x.ii + 1, addrs := x.addrs ++ [s.mapped] } }
    else { s with xmit := .drop ⟨x.orig, x.ii + 1, true, 0, .check, false⟩ }
  | none =>
    if mapped then
      let s' := (s.modDesc x.orig fun d => { d with src := s.mapped }).modDesc x.cur fun d =>
        { d with skb := some x.pkt.id }
      { s' with mapped := s.mapped + 1, xmit := .publish { x with linear := s.mapped } }
    else { s with xmit := .drop ⟨x.orig, 1, true, 0, .check, false⟩ }

/-- The status is the last word written, and the first the engine looks at. -/
def xmitPublish (s : Tx) (x : Xmit) : Tx :=
  let s' :=
    if x.orig ≠ x.new then
      (s.modDesc x.cur fun d =>
        { d with control := d.control ||| DMASG_DESCRIPTOR_CONTROL_END_OF_PACKET }).modDesc
          x.orig fun d => { d with control := controlBytes x.pkt.headlen, completed := false }
    else
      s.modDesc x.orig fun d =>
        { d with
          control := controlBytes x.pkt.headlen ||| DMASG_DESCRIPTOR_CONTROL_END_OF_PACKET
          completed := false }
  { s' with
    xmit := .advance x
    owned := s.owned ++ (List.range (x.pkt.frags.length + 1)).map fun j => (x.orig + j) % s.n
    items := s.items ++ x.linear :: x.addrs }

/-- One access. `mapped` is what `dma_mapping_error` says where a piece is mapped. -/
def xmitStep (s : Tx) (mapped : Bool) : Option Tx :=
  match s.xmit with
  | .idle => none
  | .frag x => some (s.xmitFrag x mapped)
  | .fragStatus x => some { s.modDesc x.cur fun d => { d with completed := false } with xmit := .frag x }
  | .publish x => some (s.xmitPublish x)
  | .advance x => some { s with tail := s.wrap x.new, xmit := .term { x with new := s.wrap x.new } }
  | .term x => some { s.modDesc x.new fun d => { d with completed := true } with xmit := .head x }
  | .head x => some { s with xmit := .scan x (s.ci % s.n) }
  | .scan x bd =>
    if bd ≠ x.orig % s.n ∧ (s.ring bd).done then some { s with xmit := .scan x ((bd + 1) % s.n) }
    else some { s with xmit := .kick x bd }
  | .kick _ head => some { s with dma := if s.dma = .idle then .fetch head else s.dma, xmit := .space }
  | .space =>
    if s.checkTxBdSpace (MAX_SKB_FRAGS + 1) then some { s with stopped := true, xmit := .recheck }
    else some { s with xmit := .idle }
  | .recheck =>
    some { s with
      stopped := if s.checkTxBdSpace (MAX_SKB_FRAGS + 1) then s.stopped else false, xmit := .idle }
  | .drop fr =>
    let r := s.freeStep fr
    some { r.1 with xmit := (r.2.map XmitPc.drop).getD .idle }

/-! ### `tsemac_tx_poll` -/

def startPoll (s : Tx) (budget : ℕ) : Option Tx :=
  if s.poll = .idle then some { s with poll := .free ⟨s.ci, budget, false, 0, .check, false⟩ } else none

def pollStep (s : Tx) : Option Tx :=
  match s.poll with
  | .idle => none
  | .free fr =>
    let r := s.freeStep fr
    some { r.1 with poll := (r.2.map PollPc.free).getD (if fr.i > 0 then .wake else .idle) }
  | .wake =>
    some { s with
      stopped := if s.checkTxBdSpace (MAX_SKB_FRAGS + 1) then s.stopped else false, poll := .idle }

/-! ### The engine -/

def dmaStep (s : Tx) : Option Tx :=
  match s.dma with
  | .idle => none
  | .fetch cur =>
    if (s.ring cur).completed then some { s with dma := .stopping }
    else some { s with dma := .send cur (s.ring cur).src }
  | .send cur src =>
    some { s.modDesc cur fun d => { d with completed := true } with
      sent := s.sent ++ [src], dma := .fetch (s.ring cur).next }
  | .stopping => some { s with dma := .idle }

end Tx

/-! ## The machine -/

inductive TxAct
  | xmit (p : Packet)
  | xmitStep (mapped : Bool)
  | poll (budget : ℕ)
  | pollStep
  | dma
  deriving DecidableEq, Repr

/-- `tsemac_dma_bd_init` and `tsemac_dma_start`, for the transmit side. -/
def txInit (n : ℕ) : Tx :=
  { n := n, ring := fun i => ⟨true, 0, 0, (i + 1) % n, none⟩, ci := 0, tail := 0, stopped := false
    xmit := .idle, poll := .idle, dma := .idle, mapped := 0, consumed := [], owned := [], items := []
    sent := [] }

def txMachine : Machine Tx TxAct :=
  { init := fun s => ∃ n, AcceptedTx n ∧ s = txInit n
    step := fun s a =>
      match a with
      | .xmit p => s.startXmit p
      | .xmitStep mapped => s.xmitStep mapped
      | .poll budget => s.startPoll budget
      | .pollStep => s.pollStep
      | .dma => s.dmaStep }

end Br2Efinix.Tsemac
