import Mathlib.Data.List.Basic
import Br2Efinix.Tsemac.RxRing

/-!
# The interface as a whole

`struct efx_tsemac_local` with both rings, every field of their descriptors, the DMA channels and what
`tsemac_open` acquires, and the functions that set it up, take it down and recover from a DMA error:
`tsemac_dma_bd_init`, `tsemac_dma_bd_release`, `tsemac_dma_start`, `tsemac_dma_stop`,
`tsemac_device_reset`, `tsemac_open`, `tsemac_stop` and `tsemac_dma_err_handler`. The MAC address and the
checksum offload are left out.

* `initLoop_spec`: what setting up the receive ring leaves in it, whether it succeeds or not.
* `releaseLoop_spec`: releasing it gives all of that back.
-/

namespace Br2Efinix.Tsemac

def ETHERNET_CMD_TX_ENA : BitVec 32 := 1#32 <<< 0
def ETHERNET_CMD_RX_ENA : BitVec 32 := 1#32 <<< 1
def ETHERNET_CMD_PROMIS_EN : BitVec 32 := 1#32 <<< 4
def ETHERNET_CMD_CRC_FWD : BitVec 32 := 1#32 <<< 6
def ETHERNET_CMD_PAUSE_IGNORE : BitVec 32 := 1#32 <<< 8
def DMASG_DESCRIPTOR_STATUS_COMPLETED : ℕ := 2 ^ 31
def DMA_CH_INTERRUPT_CHANNEL_COMPLETION_MASK : BitVec 32 := 1#32 <<< 2
def DMA_CH_INTERRUPT_LINKED_LIST_UPDATE_MASK : BitVec 32 := 1#32 <<< 3
def ENOMEM : ℤ := 12

/-- `struct dmasg_descriptor`; `src` is `from` and `dst` is `to`. -/
structure DmasgDesc where
  status : ℕ
  control : ℕ
  src : ℕ
  dst : ℕ
  next : ℕ
  skb : Option ℕ
  deriving DecidableEq, Repr

def DmasgDesc.zero : DmasgDesc := ⟨0, 0, 0, 0, 0, none⟩

/-- `sizeof(struct dmasg_descriptor)`. -/
def DMASG_DESCRIPTOR_SIZE : ℕ := 0x40

/-- The bus address of descriptor `i` of a ring, as `lower_32_bits` gives it. -/
def bdAddr (base i : ℕ) : ℕ := (base + DMASG_DESCRIPTOR_SIZE * i) % 2 ^ 32

/-- A channel of the DMA controller: its list, whether it was started and not stopped since, and its
interrupts. -/
structure DmaChannel where
  linkedListHead : ℕ
  started : Bool
  interruptEnable : BitVec 32
  deriving DecidableEq, Repr

/-- `struct efx_tsemac_local`. `rxBdV` says that `rx_bd_v` is not `NULL`, `commandConfig` is the
register, and `busAddr` the address at which the buffer of an `skb` is mapped. Of what is acquired
there are the memory of the rings, the receive buffers with their mappings (`rxSkbs` and `rxMaps`, in
the order of their allocation), the connection to the PHY, NAPI and the interrupts; `skbs` numbers the
buffers. `txUnmapped` and `txFreed` are only observed. -/
structure TsemacLocal where
  txBdNum : ℕ
  rxBdNum : ℕ
  rxmem : ℕ
  busAddr : ℕ → ℕ
  txBdP : ℕ
  rxBdP : ℕ
  rxBdV : Bool
  tx : ℕ → DmasgDesc
  rx : ℕ → DmasgDesc
  txBdCi : ℕ
  txBdTail : ℕ
  rxBdCi : ℕ
  maxFrmSize : ℕ
  commandConfig : BitVec 32
  rxChan : DmaChannel
  txChan : DmaChannel
  dmaRxReset : Bool
  dmaTxReset : Bool
  txMem : Bool
  rxMem : Bool
  skbs : ℕ
  rxSkbs : List ℕ
  rxMaps : List ℕ
  phyConnected : Bool
  phyStarted : Bool
  napiRx : Bool
  napiTx : Bool
  txIrq : Bool
  rxIrq : Bool
  txUnmapped : List (ℕ × ℕ)
  txFreed : List ℕ

namespace TsemacLocal

def modTx (s : TsemacLocal) (i : ℕ) (f : DmasgDesc → DmasgDesc) : TsemacLocal :=
  { s with tx := fun j => if j = i then f (s.tx j) else s.tx j }

def modRx (s : TsemacLocal) (i : ℕ) (f : DmasgDesc → DmasgDesc) : TsemacLocal :=
  { s with rx := fun j => if j = i then f (s.rx j) else s.rx j }

/-- `tsemac_set_32bit` and `tsemac_clear_32bit` on `TSEMAC_COMMAND_CONFIG`. -/
def set32bit (s : TsemacLocal) (value : BitVec 32) : TsemacLocal :=
  { s with commandConfig := s.commandConfig ||| value }

def clear32bit (s : TsemacLocal) (value : BitVec 32) : TsemacLocal :=
  { s with commandConfig := s.commandConfig &&& ~~~value }

/-- `tsemac_set_multicast_list`; `promisc` is its condition on the flags and the list of addresses. -/
def setMulticastList (s : TsemacLocal) (promisc : Bool) : TsemacLocal :=
  if promisc then s.set32bit ETHERNET_CMD_PROMIS_EN else s.clear32bit ETHERNET_CMD_PROMIS_EN

/-- `__tsemac_device_reset`; `config` is what the reset of the MAC leaves in the register. -/
def macReset (s : TsemacLocal) (config : BitVec 32) : TsemacLocal := { s with commandConfig := config }

/-! ### The engine -/

/-- `tsemac_dma_start`: the receive channel is started, the transmit channel only set up. -/
def dmaStart (s : TsemacLocal) : TsemacLocal :=
  { s with
    rxChan := ⟨s.rxBdP % 2 ^ 32, true, DMA_CH_INTERRUPT_LINKED_LIST_UPDATE_MASK⟩
    txChan := ⟨s.txBdP % 2 ^ 32, false, DMA_CH_INTERRUPT_CHANNEL_COMPLETION_MASK⟩ }

/-- `tsemac_dma_stop`, which waits for both channels and resets the MAC. -/
def dmaStop (s : TsemacLocal) (config : BitVec 32) : TsemacLocal :=
  { s with
    rxChan := { s.rxChan with started := false, interruptEnable := 0#32 }
    txChan := { s.txChan with started := false, interruptEnable := 0#32 } }.macReset config

/-! ### `tsemac_dma_bd_release` -/

/-- The loop over the receive descriptors from `i` on, with `k` to go. -/
def releaseLoop : ℕ → ℕ → TsemacLocal → TsemacLocal
  | 0, _, s => s
  | k + 1, i, s =>
    match (s.rx i).skb with
    | none => s
    | some b =>
      releaseLoop k (i + 1)
        { s with
          rxSkbs := s.rxSkbs.erase b
          rxMaps := if (s.rx i).control ≠ 0 then s.rxMaps.erase (s.rx i).dst else s.rxMaps }

def bdRelease (s : TsemacLocal) : TsemacLocal :=
  let s := { s with txMem := false }
  if s.rxBdV then { releaseLoop s.rxBdNum 0 s with rxMem := false } else s

/-! ### `tsemac_dma_bd_init` -/

/-- The first `k` turns of the loop over the transmit descriptors. -/
def initTx : ℕ → TsemacLocal → TsemacLocal
  | 0, s => s
  | k + 1, s =>
    let s := initTx k s
    s.modTx k fun d =>
      { d with next := bdAddr s.txBdP ((k + 1) % s.txBdNum), status := DMASG_DESCRIPTOR_STATUS_COMPLETED }

/-- One turn of the loop over the receive descriptors, and whether it goes on: `alloc` says whether
`netdev_alloc_skb_ip_align` and `dma_map_single` succeed. -/
def initSlot (s : TsemacLocal) (i : ℕ) (alloc : Bool × Bool) : TsemacLocal × Bool :=
  let s := s.modRx i fun d => { d with next := bdAddr s.rxBdP ((i + 1) % s.rxBdNum) }
  if alloc.1 then
    let b := s.skbs
    let s : TsemacLocal :=
      { s.modRx i fun d => { d with skb := some b } with skbs := b + 1, rxSkbs := s.rxSkbs ++ [b] }
    if alloc.2 then
      ({ s.modRx i fun d => { d with dst := s.busAddr b % 2 ^ 32, control := controlBytes s.maxFrmSize } with
          rxMaps := s.rxMaps ++ [s.busAddr b % 2 ^ 32] }, true)
    else (s, false)
  else (s, false)

/-- The loop from descriptor `i` on, with `k` to go. -/
def initLoop (alloc : ℕ → Bool × Bool) : ℕ → ℕ → TsemacLocal → TsemacLocal × Bool
  | 0, _, s => (s, true)
  | k + 1, i, s =>
    let r := s.initSlot i (alloc i)
    if r.2 then initLoop alloc k (i + 1) r.1 else r

def resetIndexes (s : TsemacLocal) : TsemacLocal := { s with txBdCi := 0, txBdTail := 0, rxBdCi := 0 }

/-- Both rings once there is memory for them, which is zeroed, and the transmit descriptors set up. -/
def freshRings (s : TsemacLocal) (txBdP rxBdP : ℕ) : TsemacLocal :=
  initTx s.txBdNum
    { s with
      txBdP := txBdP, tx := fun _ => .zero, txMem := true
      rxBdP := rxBdP, rxBdV := true, rx := fun _ => .zero, rxMem := true }

/-- `tsemac_dma_bd_init`; `rings` says whether `dma_alloc_coherent` gives the memory for the two rings,
and at which addresses. -/
def bdInit (s : TsemacLocal) (rings : Option ℕ × Option ℕ) (alloc : ℕ → Bool × Bool) : TsemacLocal × ℤ :=
  let s := s.resetIndexes
  match rings.1 with
  | none => (s, -ENOMEM)
  | some txBdP =>
    match rings.2 with
    | none => ({ s with txBdP := txBdP, tx := fun _ => .zero, txMem := true, rxBdV := false }.bdRelease, -ENOMEM)
    | some rxBdP =>
      let r := initLoop alloc s.rxBdNum 0 (s.freshRings txBdP rxBdP)
      if r.2 then (r.1.dmaStart, 0) else (r.1.bdRelease, -ENOMEM)

/-! ### `tsemac_open` -/

/-- What the calls of `tsemac_open` meet: the MTU, what the reset leaves in the command register, the
memory, `promisc` for `tsemac_set_multicast_list`, and the results of `phylink_of_phy_connect` and the two
calls of `request_irq`. -/
structure Opening where
  mtu : ℕ
  config : BitVec 32
  rings : Option ℕ × Option ℕ
  alloc : ℕ → Bool × Bool
  promisc : Bool
  phy : ℤ
  requestTxIrq : ℤ
  requestRxIrq : ℤ

/-- `tsemac_device_reset`. -/
def deviceReset (s : TsemacLocal) (o : Opening) : TsemacLocal × ℤ :=
  let s := { s.macReset o.config with maxFrmSize := Tsemac.maxFrmSize o.mtu s.rxmem }
  let r := s.bdInit o.rings o.alloc
  if r.2 ≠ 0 then r
  else
    let s := r.1.clear32bit ETHERNET_CMD_PAUSE_IGNORE
    ((s.clear32bit (ETHERNET_CMD_TX_ENA ||| ETHERNET_CMD_RX_ENA)).setMulticastList o.promisc, 0)

/-- From `err_tx_irq` on. -/
def errTxIrq (s : TsemacLocal) : TsemacLocal :=
  { s with
    dmaTxReset := false, napiTx := false, napiRx := false, phyStarted := false, phyConnected := false }

/-- From `err_rx_irq` on. -/
def errRxIrq (s : TsemacLocal) : TsemacLocal := { s with dmaRxReset := false, txIrq := false }.errTxIrq

/-- `tsemac_open` after the reset. -/
def openRest (s : TsemacLocal) (o : Opening) : TsemacLocal × ℤ :=
  let s := { s with dmaRxReset := true, dmaTxReset := true }
  if o.phy ≠ 0 then (s, o.phy)
  else
    let s := { s with phyConnected := true, phyStarted := true, napiRx := true, napiTx := true }
    if o.requestTxIrq ≠ 0 then (s.errTxIrq, o.requestTxIrq)
    else
      let s := { s with txIrq := true, dmaTxReset := false }
      if o.requestRxIrq ≠ 0 then (s.errRxIrq, o.requestRxIrq)
      else
        ({ s with rxIrq := true, dmaRxReset := false }.set32bit
          (ETHERNET_CMD_TX_ENA ||| ETHERNET_CMD_RX_ENA ||| ETHERNET_CMD_CRC_FWD), 0)

/-- `tsemac_open`, which does not look at the result of the reset. -/
def open_ (s : TsemacLocal) (o : Opening) : TsemacLocal × ℤ := (s.deviceReset o).1.openRest o

/-! ### `tsemac_stop` -/

/-- `tsemac_stop`, with what the reset leaves in the command register. -/
def stop (s : TsemacLocal) (config : BitVec 32) : TsemacLocal :=
  let s := { s with napiTx := false, napiRx := false, phyStarted := false, phyConnected := false }
  let s := (s.clear32bit (ETHERNET_CMD_TX_ENA ||| ETHERNET_CMD_RX_ENA)).dmaStop config
  { s with txIrq := false, rxIrq := false }.bdRelease

/-! ### `tsemac_dma_err_handler` -/

/-- The first `k` turns of the loop over the transmit descriptors. -/
def errTx : ℕ → TsemacLocal → TsemacLocal
  | 0, s => s
  | k + 1, s =>
    let s := errTx k s
    let d := s.tx k
    let bytes := d.control &&& DMASG_DESCRIPTOR_CONTROL_BYTES
    { s.modTx k fun _ => .zero with
      txUnmapped := if bytes ≠ 0 then s.txUnmapped ++ [(d.src, bytes + 1)] else s.txUnmapped
      txFreed := s.txFreed ++ d.skb.toList }

/-- The first `k` turns of the loop over the receive descriptors. -/
def errRx : ℕ → TsemacLocal → TsemacLocal
  | 0, s => s
  | k + 1, s => (errRx k s).modRx k fun d => { d with status := 0, src := 0, dst := 0 }

/-- `tsemac_dma_err_handler`, with what the reset leaves in the command register. -/
def errHandler (s : TsemacLocal) (config : BitVec 32) (promisc : Bool) : TsemacLocal :=
  let s := { s with napiTx := false, napiRx := false }
  let s := (s.clear32bit (ETHERNET_CMD_TX_ENA ||| ETHERNET_CMD_RX_ENA)).dmaStop config
  let s := errRx s.rxBdNum (errTx s.txBdNum s)
  let s := s.resetIndexes.dmaStart
  let s := (s.clear32bit (ETHERNET_CMD_TX_ENA ||| ETHERNET_CMD_RX_ENA)).setMulticastList promisc
  { s with napiRx := true, napiTx := true }

end TsemacLocal

/-! ## The loops -/

/-- The buffers in the slots from `i` on, up to the first slot without one. -/
def slotSkbs (rx : ℕ → DmasgDesc) : ℕ → ℕ → List ℕ
  | 0, _ => []
  | k + 1, i =>
    match (rx i).skb with
    | none => []
    | some b => b :: slotSkbs rx k (i + 1)

/-- Their mappings. -/
def slotMaps (rx : ℕ → DmasgDesc) : ℕ → ℕ → List ℕ
  | 0, _ => []
  | k + 1, i =>
    match (rx i).skb with
    | none => []
    | some _ => if (rx i).control ≠ 0 then (rx i).dst :: slotMaps rx k (i + 1) else slotMaps rx k (i + 1)

/-- A receive descriptor holds a buffer with its address, and the engine may fill it. -/
def ArmedWith (s : TsemacLocal) (i b : ℕ) : Prop :=
  s.rx i = ⟨0, controlBytes s.maxFrmSize, 0, s.busAddr b % 2 ^ 32, bdAddr s.rxBdP ((i + 1) % s.rxBdNum), some b⟩

variable {s s' : TsemacLocal} {alloc : ℕ → Bool × Bool}

theorem modRx_self {i : ℕ} {f : DmasgDesc → DmasgDesc} : (s.modRx i f).rx i = f (s.rx i) := by
  unfold TsemacLocal.modRx
  simp only [if_true]

theorem modRx_ne {i j : ℕ} {f : DmasgDesc → DmasgDesc} (hj : j ≠ i) : (s.modRx i f).rx j = s.rx j := by
  unfold TsemacLocal.modRx
  simp only
  rw [if_neg hj]

theorem nothing_held (hskbs : s.rxSkbs = []) (hmaps : s.rxMaps = []) :
    s = { s with rxSkbs := [], rxMaps := [] } := by
  cases s
  simp only at hskbs hmaps
  rw [hskbs, hmaps]

/-- One more turn of a loop that writes the slots in order. -/
theorem turns_succ {β : Type*} (x : ℕ → β) (f : ℕ → β → β) (k : ℕ) :
    (fun j => if j = k then f k (if j < k then f j (x j) else x j) else if j < k then f j (x j) else x j) =
      fun j => if j < k + 1 then f j (x j) else x j := by
  funext j
  rcases Nat.lt_trichotomy j k with h | rfl | h
  · simp [h, Nat.lt_succ_of_lt h, Nat.ne_of_lt h]
  · simp
  · simp [Nat.not_lt_of_gt h, show ¬ j < k + 1 by omega, Nat.ne_of_gt h]

theorem initTx_eq (k : ℕ) (s : TsemacLocal) :
    TsemacLocal.initTx k s =
      { s with
        tx := fun j =>
          if j < k then
            { s.tx j with
              next := bdAddr s.txBdP ((j + 1) % s.txBdNum), status := DMASG_DESCRIPTOR_STATUS_COMPLETED }
          else s.tx j } := by
  induction k with
  | zero => rfl
  | succ k ih =>
    unfold TsemacLocal.initTx
    rw [ih]
    unfold TsemacLocal.modTx
    simp only [TsemacLocal.mk.injEq, true_and, and_true]
    exact turns_succ s.tx
      (fun j d =>
        { d with
          next := bdAddr s.txBdP ((j + 1) % s.txBdNum), status := DMASG_DESCRIPTOR_STATUS_COMPLETED }) k

/-- The rings before the receive slots are set up. -/
theorem freshRings_eq (s : TsemacLocal) (txBdP rxBdP : ℕ) :
    s.freshRings txBdP rxBdP =
      { s with
        txBdP := txBdP, txMem := true, rxBdP := rxBdP, rxBdV := true, rx := fun _ => .zero, rxMem := true
        tx := fun j =>
          if j < s.txBdNum then
            ⟨DMASG_DESCRIPTOR_STATUS_COMPLETED, 0, 0, 0, bdAddr txBdP ((j + 1) % s.txBdNum), none⟩
          else .zero } := by
  unfold TsemacLocal.freshRings
  rw [initTx_eq]
  rfl

/-- **Releasing** the buffers and mappings of the slots leaves none. -/
theorem releaseLoop_spec {k i : ℕ} (hskbs : s.rxSkbs = slotSkbs s.rx k i) (hmaps : s.rxMaps = slotMaps s.rx k i) :
    TsemacLocal.releaseLoop k i s = { s with rxSkbs := [], rxMaps := [] } := by
  induction k generalizing i s with
  | zero => exact nothing_held hskbs hmaps
  | succ k ih =>
    unfold slotSkbs at hskbs
    unfold slotMaps at hmaps
    unfold TsemacLocal.releaseLoop
    cases hb : (s.rx i).skb with
    | none =>
      rw [hb] at hskbs hmaps
      exact nothing_held hskbs hmaps
    | some b =>
      rw [hb] at hskbs hmaps
      simp only at hskbs hmaps ⊢
      rw [ih]
      · simp only
        rw [hskbs, List.erase_cons_head]
      · simp only
        split
        · rename_i hcontrol
          rw [hmaps, if_pos hcontrol, List.erase_cons_head]
        · rename_i hcontrol
          rw [hmaps, if_neg hcontrol]

/-- **Releasing** both rings leaves nothing of them. -/
theorem bdRelease_spec (hptr : s.rxBdV = true) (hskbs : s.rxSkbs = slotSkbs s.rx s.rxBdNum 0)
    (hmaps : s.rxMaps = slotMaps s.rx s.rxBdNum 0) :
    s.bdRelease = { s with txMem := false, rxMem := false, rxSkbs := [], rxMaps := [] } := by
  unfold TsemacLocal.bdRelease
  simp only
  rw [if_pos hptr, releaseLoop_spec (s := { s with txMem := false }) hskbs hmaps]

/-- A slot of zeros ends what is held. -/
theorem slots_zero {rx : ℕ → DmasgDesc} {k i : ℕ} (hzero : (rx i).skb = none) :
    slotSkbs rx k i = [] ∧ slotMaps rx k i = [] := by
  cases k with
  | zero => exact ⟨rfl, rfl⟩
  | succ k =>
    unfold slotSkbs slotMaps
    rw [hzero]
    exact ⟨rfl, rfl⟩

/-- What setting up receive slots leaves: only the slots and what they hold change. -/
structure SlotsOnly (s s' : TsemacLocal) : Prop where
  shape : s' = { s with rx := s'.rx, skbs := s'.skbs, rxSkbs := s'.rxSkbs, rxMaps := s'.rxMaps }

/-- **One slot**: it is armed, or the loop ends with a slot that holds a buffer without a mapping or none. -/
theorem initSlot_spec (i : ℕ) (a : Bool × Bool) (hzero : s.rx i = .zero) :
    SlotsOnly s (s.initSlot i a).1 ∧ (∀ j, j ≠ i → (s.initSlot i a).1.rx j = s.rx j) ∧
      ((s.initSlot i a).2 = true ↔ a = (true, true)) ∧
      ((s.initSlot i a).2 = true → ArmedWith (s.initSlot i a).1 i s.skbs ∧
        (s.initSlot i a).1.rxSkbs = s.rxSkbs ++ [s.skbs] ∧
        (s.initSlot i a).1.rxMaps = s.rxMaps ++ [s.busAddr s.skbs % 2 ^ 32]) ∧
      ((s.initSlot i a).2 = false → ((s.initSlot i a).1.rx i).control = 0 ∧
        (s.initSlot i a).1.rxSkbs = s.rxSkbs ++ ((s.initSlot i a).1.rx i).skb.toList ∧
        (s.initSlot i a).1.rxMaps = s.rxMaps) := by
  obtain ⟨a₁, a₂⟩ := a
  unfold TsemacLocal.initSlot ArmedWith
  cases a₁ with
  | false =>
    -- no buffer: only the link is written
    simp only [Bool.false_eq_true, if_false]
    refine ⟨⟨rfl⟩, fun j hj => modRx_ne hj, by simp, nofun, fun _ => ⟨?_, ?_, rfl⟩⟩
    · rw [modRx_self, hzero]
      rfl
    · rw [modRx_self, hzero]
      exact (List.append_nil _).symm
  | true =>
    cases a₂ with
    | false =>
      -- a buffer that is not mapped stays in the slot
      simp only [if_true, Bool.false_eq_true, if_false]
      refine ⟨⟨rfl⟩, fun j hj => ?_, by simp, nofun, fun _ => ⟨?_, ?_, rfl⟩⟩
      · rw [modRx_ne hj, modRx_ne hj]
      · rw [modRx_self, modRx_self, hzero]
        rfl
      · rw [modRx_self, modRx_self, hzero]
        rfl
    | true =>
      simp only [if_true]
      refine ⟨⟨?_⟩, fun j hj => ?_, by simp, fun _ => ⟨?_, ?_, ?_⟩, nofun⟩
      · simp only [TsemacLocal.modRx]
      · rw [modRx_ne hj]
        simp only
        rw [modRx_ne hj, modRx_ne hj]
      · rw [modRx_self]
        simp only
        rw [modRx_self, modRx_self, hzero]
        rfl
      · simp only [TsemacLocal.modRx]
      · simp only [TsemacLocal.modRx]

/-- What the loop leaves, from slot `i` on with `k` to go. -/
structure LoopLeaves (s s' : TsemacLocal) (k i : ℕ) : Prop extends SlotsOnly s s' where
  skbs : s'.rxSkbs = s.rxSkbs ++ slotSkbs s'.rx k i
  maps : s'.rxMaps = s.rxMaps ++ slotMaps s'.rx k i
  before : ∀ j < i, s'.rx j = s.rx j

theorem SlotsOnly.trans {t : TsemacLocal} (h : SlotsOnly s s') (h' : SlotsOnly s' t) : SlotsOnly s t := by
  constructor
  rw [h'.shape, h.shape]

/-- **Setting up the receive ring**: it holds what was allocated, and every slot is armed if all went
well. -/
theorem initLoop_spec {k i : ℕ} (hcontrol : controlBytes s.maxFrmSize ≠ 0)
    (hzero : ∀ j, i ≤ j → s.rx j = .zero) :
    LoopLeaves s (TsemacLocal.initLoop alloc k i s).1 k i ∧
      ((TsemacLocal.initLoop alloc k i s).2 = true ↔ ∀ j, i ≤ j → j < i + k → alloc j = (true, true)) ∧
      ((TsemacLocal.initLoop alloc k i s).2 = true →
        ∀ j, i ≤ j → j < i + k → ∃ b, ArmedWith (TsemacLocal.initLoop alloc k i s).1 j b) := by
  induction k generalizing i s with
  | zero =>
    unfold TsemacLocal.initLoop
    refine ⟨⟨⟨rfl⟩, (List.append_nil _).symm, (List.append_nil _).symm, fun _ _ => rfl⟩, ?_, ?_⟩
    · exact iff_of_true rfl fun j h1 h2 => absurd h2 (by omega)
    · intro _ j h1 h2
      omega
  | succ k ih =>
    obtain ⟨hshape, hother, hgoes, harmed, hends⟩ := initSlot_spec i (alloc i) (hzero i (Nat.le_refl i))
    unfold TsemacLocal.initLoop
    generalize s.initSlot i (alloc i) = r at *
    obtain ⟨t, ok⟩ := r
    simp only at *
    cases ok with
    | false =>
      obtain ⟨hnone, hskbs, hmaps⟩ := hends rfl
      -- the slots behind are still zero
      have hbehind : (t.rx (i + 1)).skb = none := by
        rw [hother (i + 1) (by omega), hzero (i + 1) (by omega)]
        rfl
      obtain ⟨hrest, hrest'⟩ := slots_zero (k := k) hbehind
      have hheld : slotSkbs t.rx (k + 1) i = (t.rx i).skb.toList ∧ slotMaps t.rx (k + 1) i = [] := by
        unfold slotSkbs slotMaps
        rw [hrest, hrest']
        cases (t.rx i).skb <;> simp [hnone]
      refine ⟨⟨hshape, ?_, ?_, ?_⟩, ?_, ?_⟩
      · simp only [Bool.false_eq_true, if_false]
        rw [hheld.1, hskbs]
      · simp only [Bool.false_eq_true, if_false]
        rw [hheld.2, hmaps, List.append_nil]
      · intro j hj
        exact hother j (by omega)
      · refine iff_of_false (by simp) ?_
        intro hall
        exact absurd (hgoes.2 (hall i (Nat.le_refl i) (by omega))) (by simp)
      · intro hok
        exact absurd hok (by simp)
    | true =>
      obtain ⟨hslot, hskbs, hmaps⟩ := harmed rfl
      have hframe : t.maxFrmSize = s.maxFrmSize ∧ t.busAddr = s.busAddr ∧ t.rxBdP = s.rxBdP ∧
          t.rxBdNum = s.rxBdNum := by
        rw [hshape.shape]
        exact ⟨rfl, rfl, rfl, rfl⟩
      obtain ⟨hleaves, hok, hall⟩ := ih (s := t) (i := i + 1) (by rw [hframe.1]; exact hcontrol) (by
        intro j hj
        rw [hother j (by omega)]
        exact hzero j (by omega))
      simp only [if_true]
      generalize TsemacLocal.initLoop alloc k (i + 1) t = q at *
      have hkeep : q.1.rx i = t.rx i := hleaves.before i (Nat.lt_succ_self i)
      refine ⟨⟨hshape.trans hleaves.toSlotsOnly, ?_, ?_, ?_⟩, ?_, ?_⟩
      · rw [hleaves.skbs, hskbs]
        conv_rhs => unfold slotSkbs
        rw [hkeep, hslot, List.append_assoc]
        rfl
      · rw [hleaves.maps, hmaps]
        conv_rhs => unfold slotMaps
        rw [hkeep, hslot, hframe.1]
        simp only
        rw [if_pos hcontrol, hframe.2.1, List.append_assoc]
        rfl
      · intro j hj
        rw [hleaves.before j (by omega)]
        exact hother j (by omega)
      · rw [hok]
        constructor
        · intro hrest j h1 h2
          rcases Nat.eq_or_lt_of_le h1 with rfl | hlt
          · exact hgoes.1 rfl
          · exact hrest j hlt (by omega)
        · intro hrest j h1 h2
          exact hrest j (by omega) (by omega)
      · intro hq j h1 h2
        rcases Nat.eq_or_lt_of_le h1 with rfl | hlt
        · refine ⟨s.skbs, ?_⟩
          unfold ArmedWith at hslot ⊢
          rw [hkeep, hslot, hleaves.shape]
        · exact hall hq j hlt (by omega)

end Br2Efinix.Tsemac
