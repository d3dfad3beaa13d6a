import Br2Efinix.Tsemac.Local

/-!
# Recovery from a DMA error

`tsemac_dma_err_handler` clears the descriptors that `tsemac_dma_bd_init` has set up and starts the
engine again.

* `bdInit_ready`: what setting up the rings establishes.
* `open_ready`: an interface that was opened without an error has it, with the MAC enabled.
* `err_handler_never`: the handler never leaves that: no transmit descriptor is completed or linked, no
  receive descriptor has an address, and the MAC is disabled. The indexes, the links of the receive ring
  and the cleared transmit descriptors are as they should be.
-/

namespace Br2Efinix.Tsemac

/-- What `tsemac_dma_bd_init` establishes. -/
structure RingsReady (s : TsemacLocal) : Prop where
  txNext : ∀ i < s.txBdNum, (s.tx i).next = bdAddr s.txBdP ((i + 1) % s.txBdNum)
  rxNext : ∀ i < s.rxBdNum, (s.rx i).next = bdAddr s.rxBdP ((i + 1) % s.rxBdNum)
  txIdle : ∀ i < s.txBdNum, (s.tx i).control = 0 ∧ (s.tx i).status = DMASG_DESCRIPTOR_STATUS_COMPLETED ∧
    (s.tx i).skb = none
  rxArmed : ∀ i < s.rxBdNum, ∀ b, (s.rx i).skb = some b → (s.rx i).status = 0 ∧
    (s.rx i).control = controlBytes s.maxFrmSize ∧ (s.rx i).dst = s.busAddr b % 2 ^ 32
  indexes : s.txBdCi = 0 ∧ s.txBdTail = 0 ∧ s.rxBdCi = 0

/-- The MAC sends and receives. -/
def MacEnabled (s : TsemacLocal) : Prop :=
  s.commandConfig &&& (ETHERNET_CMD_TX_ENA ||| ETHERNET_CMD_RX_ENA) = ETHERNET_CMD_TX_ENA ||| ETHERNET_CMD_RX_ENA

/-- What the recovery is to restore. -/
structure Restored (s : TsemacLocal) : Prop where
  rings : RingsReady s
  mac : MacEnabled s

variable {s : TsemacLocal}

/-! ## Setting up -/

/-- **`tsemac_dma_bd_init`** establishes the rings. -/
theorem bdInit_ready (txBdP rxBdP : ℕ) {alloc : ℕ → Bool × Bool} (hcontrol : controlBytes s.maxFrmSize ≠ 0)
    (halloc : ∀ i < s.rxBdNum, alloc i = (true, true)) :
    (s.bdInit (some txBdP, some rxBdP) alloc).2 = 0 ∧ RingsReady (s.bdInit (some txBdP, some rxBdP) alloc).1 := by
  unfold TsemacLocal.bdInit
  simp only
  have hfresh := freshRings_eq s.resetIndexes txBdP rxBdP
  generalize s.resetIndexes.freshRings txBdP rxBdP = t at *
  have hn : s.resetIndexes.rxBdNum = s.rxBdNum := rfl
  obtain ⟨hleaves, hok, harmed⟩ := initLoop_spec (s := t) (k := s.rxBdNum) (i := 0)
    (by rw [hfresh]; exact hcontrol) (by intro j _; rw [hfresh])
  have hsuccess := hok.2 fun j _ hj => halloc j (by omega)
  rw [hn, if_pos hsuccess]
  have hslots := harmed hsuccess
  have hshape := hleaves.shape
  generalize TsemacLocal.initLoop alloc s.rxBdNum 0 t = r at *
  rw [hfresh] at hshape
  refine ⟨rfl, ?_⟩
  have hslot : ∀ i < s.rxBdNum, ∃ b, r.1.rx i =
      ⟨0, controlBytes s.maxFrmSize, 0, s.busAddr b % 2 ^ 32, bdAddr rxBdP ((i + 1) % s.rxBdNum), some b⟩ := by
    intro i hi
    obtain ⟨b, hb⟩ := hslots i (Nat.zero_le i) (by omega)
    refine ⟨b, ?_⟩
    unfold ArmedWith at hb
    rw [hb, hshape]
    rfl
  rw [hshape]
  refine ⟨?_, ?_, ?_, ?_, rfl, rfl, rfl⟩
  · intro i hi
    simp only [TsemacLocal.dmaStart] at hi ⊢
    rw [if_pos hi]
  · intro i hi
    obtain ⟨b, hb⟩ := hslot i hi
    simp only [TsemacLocal.dmaStart]
    rw [hb]
    rfl
  · intro i hi
    simp only [TsemacLocal.dmaStart] at hi ⊢
    rw [if_pos hi]
    exact ⟨rfl, rfl, rfl⟩
  · intro i hi b hskb
    obtain ⟨b', hb⟩ := hslot i hi
    simp only [TsemacLocal.dmaStart] at hskb ⊢
    rw [hb] at hskb ⊢
    obtain rfl := Option.some.inj hskb
    exact ⟨rfl, rfl, rfl⟩

theorem RingsReady.of_same {t : TsemacLocal} (h : RingsReady s) (htxNum : t.txBdNum = s.txBdNum)
    (hrxNum : t.rxBdNum = s.rxBdNum) (htx : t.tx = s.tx) (hrx : t.rx = s.rx) (htxP : t.txBdP = s.txBdP)
    (hrxP : t.rxBdP = s.rxBdP) (haddr : t.busAddr = s.busAddr) (hfrm : t.maxFrmSize = s.maxFrmSize)
    (hci : t.txBdCi = s.txBdCi) (htail : t.txBdTail = s.txBdTail) (hrxCi : t.rxBdCi = s.rxBdCi) : RingsReady t := by
  obtain ⟨h1, h2, h3, h4, h5⟩ := h
  refine ⟨?_, ?_, ?_, ?_, ?_⟩
  · rw [htxNum, htx, htxP]; exact h1
  · rw [hrxNum, hrx, hrxP]; exact h2
  · rw [htxNum, htx]; exact h3
  · rw [hrxNum, hrx, haddr, hfrm]; exact h4
  · rw [hci, htail, hrxCi]; exact h5

/-- The rings do not depend on the register. -/
theorem RingsReady.withConfig (h : RingsReady s) (config : BitVec 32) : RingsReady { s with commandConfig := config } :=
  h.of_same rfl rfl rfl rfl rfl rfl rfl rfl rfl rfl rfl

theorem RingsReady.clear32bit (h : RingsReady s) (value : BitVec 32) : RingsReady (s.clear32bit value) :=
  h.withConfig (s.commandConfig &&& ~~~value)

theorem RingsReady.setMulticastList (h : RingsReady s) (promisc : Bool) : RingsReady (s.setMulticastList promisc) := by
  unfold TsemacLocal.setMulticastList
  split
  · exact h.withConfig (s.commandConfig ||| ETHERNET_CMD_PROMIS_EN)
  · exact h.clear32bit ETHERNET_CMD_PROMIS_EN

/-- The bits that are set are set. -/
theorem or_and_mask (w : BitVec 32) {x m : BitVec 32} (hx : x &&& m = m) : (w ||| x) &&& m = m := by
  rw [BitVec.and_or_distrib_right, hx]
  apply BitVec.eq_of_getLsbD_eq
  intro i _
  rw [BitVec.getLsbD_or, BitVec.getLsbD_and]
  cases w.getLsbD i <;> simp

/-- The bits that are cleared are clear, and stay so when others are set or cleared. -/
theorem clear_and_mask (w : BitVec 32) (m : BitVec 32) : (w &&& ~~~m) &&& m = 0#32 := by
  apply BitVec.eq_of_getLsbD_eq
  intro i hi
  rw [BitVec.getLsbD_and, BitVec.getLsbD_and, BitVec.getLsbD_not]
  cases m.getLsbD i <;> simp

theorem maxFrm_controlBytes_ne (mtu rxmem : ℕ) : controlBytes (maxFrmSize mtu rxmem) ≠ 0 := by
  obtain ⟨hlo, hhi⟩ := maxFrmSize_bounds mtu rxmem
  intro h
  rw [controlBytes_eq_zero] at h
  omega

/-- **An interface that was opened** has its rings set up and the MAC enabled. -/
theorem open_ready {o : TsemacLocal.Opening} {txBdP rxBdP : ℕ} (hrings : o.rings = (some txBdP, some rxBdP))
    (halloc : ∀ i < s.rxBdNum, o.alloc i = (true, true)) (hphy : o.phy = 0) (htx : o.requestTxIrq = 0)
    (hrx : o.requestRxIrq = 0) : (s.open_ o).2 = 0 ∧ Restored (s.open_ o).1 := by
  obtain ⟨hret, hready⟩ := bdInit_ready (s := { s.macReset o.config with maxFrmSize := maxFrmSize o.mtu s.rxmem })
    txBdP rxBdP (maxFrm_controlBytes_ne o.mtu s.rxmem) halloc
  have hreset : RingsReady (s.deviceReset o).1 := by
    unfold TsemacLocal.deviceReset
    simp only
    rw [hrings, if_neg (not_not.2 hret)]
    exact ((hready.clear32bit _).clear32bit _).setMulticastList o.promisc
  unfold TsemacLocal.open_
  generalize (s.deviceReset o).1 = r at hreset ⊢
  unfold TsemacLocal.openRest
  simp only [hphy, htx, hrx, ne_eq, not_true_eq_false, if_false]
  refine ⟨trivial, hreset.of_same rfl rfl rfl rfl rfl rfl rfl rfl rfl rfl rfl, ?_⟩
  exact or_and_mask _ (by decide)

/-! ## Recovering -/

theorem errTx_eq (k : ℕ) (s : TsemacLocal) :
    TsemacLocal.errTx k s =
      { s with
        tx := fun j => if j < k then .zero else s.tx j
        txUnmapped := (TsemacLocal.errTx k s).txUnmapped, txFreed := (TsemacLocal.errTx k s).txFreed } := by
  induction k with
  | zero => rfl
  | succ k ih =>
    unfold TsemacLocal.errTx
    rw [ih]
    unfold TsemacLocal.modTx
    simp only [TsemacLocal.mk.injEq, true_and, and_true]
    exact turns_succ s.tx (fun _ _ => .zero) k

theorem errRx_eq (k : ℕ) (s : TsemacLocal) :
    TsemacLocal.errRx k s =
      { s with rx := fun j => if j < k then { s.rx j with status := 0, src := 0, dst := 0 } else s.rx j } := by
  induction k with
  | zero => rfl
  | succ k ih =>
    unfold TsemacLocal.errRx
    rw [ih]
    unfold TsemacLocal.modRx
    simp only [TsemacLocal.mk.injEq, true_and, and_true]
    exact turns_succ s.rx (fun _ d => { d with status := 0, src := 0, dst := 0 }) k

/-- What the handler leaves. -/
structure Cleared (s t : TsemacLocal) : Prop where
  tx : ∀ i < s.txBdNum, t.tx i = .zero
  rx : ∀ i < s.rxBdNum, t.rx i = { s.rx i with status := 0, src := 0, dst := 0 }
  indexes : t.txBdCi = 0 ∧ t.txBdTail = 0 ∧ t.rxBdCi = 0
  mac : t.commandConfig &&& (ETHERNET_CMD_TX_ENA ||| ETHERNET_CMD_RX_ENA) = 0#32

/-- The promiscuous bit is none of those of the MAC. -/
theorem setMulticastList_mac (promisc : Bool)
    (h : s.commandConfig &&& (ETHERNET_CMD_TX_ENA ||| ETHERNET_CMD_RX_ENA) = 0#32) :
    (s.setMulticastList promisc).commandConfig &&& (ETHERNET_CMD_TX_ENA ||| ETHERNET_CMD_RX_ENA) = 0#32 := by
  unfold TsemacLocal.setMulticastList
  split
  · unfold TsemacLocal.set32bit
    simp only
    rw [BitVec.and_or_distrib_right, h]
    decide
  · unfold TsemacLocal.clear32bit
    simp only
    rw [BitVec.and_assoc, BitVec.and_comm (~~~ETHERNET_CMD_PROMIS_EN), ← BitVec.and_assoc, h]
    exact BitVec.zero_and

/-- **What the handler leaves** of any state. -/
theorem errHandler_clears (s : TsemacLocal) (config : BitVec 32) (promisc : Bool) :
    Cleared s (s.errHandler config promisc) := by
  unfold TsemacLocal.errHandler
  simp only
  -- up to the loops the rings are as they were
  generalize hstop : ({ s with napiTx := false, napiRx := false }.clear32bit
    (ETHERNET_CMD_TX_ENA ||| ETHERNET_CMD_RX_ENA)).dmaStop config = t
  have hsame : t.tx = s.tx ∧ t.rx = s.rx ∧ t.txBdNum = s.txBdNum ∧ t.rxBdNum = s.rxBdNum := by
    rw [← hstop]
    exact ⟨rfl, rfl, rfl, rfl⟩
  obtain ⟨-, hrx, htxNum, hrxNum⟩ := hsame
  rw [hrxNum, htxNum]
  generalize hrings : TsemacLocal.errRx s.rxBdNum (TsemacLocal.errTx s.txBdNum t) = u
  have hu : (∀ i < s.txBdNum, u.tx i = .zero) ∧
      ∀ i < s.rxBdNum, u.rx i = { s.rx i with status := 0, src := 0, dst := 0 } := by
    rw [← hrings, errRx_eq, errTx_eq]
    constructor
    · intro i hi
      simp only
      rw [if_pos hi]
    · intro i hi
      simp only
      rw [if_pos hi, hrx]
  -- and after them only registers and indexes change
  have hkeep : ∀ v : TsemacLocal, (v.setMulticastList promisc).tx = v.tx ∧ (v.setMulticastList promisc).rx = v.rx ∧
      (v.setMulticastList promisc).txBdCi = v.txBdCi ∧ (v.setMulticastList promisc).txBdTail = v.txBdTail ∧
      (v.setMulticastList promisc).rxBdCi = v.rxBdCi := by
    intro v
    unfold TsemacLocal.setMulticastList
    split <;> exact ⟨rfl, rfl, rfl, rfl, rfl⟩
  obtain ⟨h1, h2, h3, h4, h5⟩ :=
    hkeep (u.resetIndexes.dmaStart.clear32bit (ETHERNET_CMD_TX_ENA ||| ETHERNET_CMD_RX_ENA))
  refine ⟨?_, ?_, ⟨h3, h4, h5⟩, setMulticastList_mac promisc (clear_and_mask _ _)⟩
  · intro i hi
    simp only
    rw [h1]
    exact hu.1 i hi
  · intro i hi
    simp only
    rw [h2]
    exact hu.2 i hi

/-- **The recovery never restores** what setting up has established, from whatever state it starts. -/
theorem err_handler_never (s : TsemacLocal) (config : BitVec 32) (promisc : Bool) :
    ¬ Restored (s.errHandler config promisc) ∧ ¬ MacEnabled (s.errHandler config promisc) ∧
      (∀ i < s.txBdNum, ((s.errHandler config promisc).tx i).status ≠ DMASG_DESCRIPTOR_STATUS_COMPLETED ∧
        ((s.errHandler config promisc).tx i).next = 0) ∧
      (∀ i < s.rxBdNum, ((s.errHandler config promisc).rx i).dst = 0) ∧ Cleared s (s.errHandler config promisc) := by
  have hcleared := errHandler_clears s config promisc
  have hmac : ¬ MacEnabled (s.errHandler config promisc) := by
    intro hon
    unfold MacEnabled at hon
    rw [hcleared.mac] at hon
    exact absurd hon (by decide)
  refine ⟨fun h => hmac h.mac, hmac, ?_, ?_, hcleared⟩
  · intro i hi
    rw [hcleared.tx i hi]
    exact ⟨by decide, rfl⟩
  · intro i hi
    rw [hcleared.rx i hi]

/-! ## A run -/

/-- An interface that was never opened. -/
def TsemacLocal.probed (txBdNum rxBdNum rxmem : ℕ) (busAddr : ℕ → ℕ) : TsemacLocal :=
  { txBdNum := txBdNum, rxBdNum := rxBdNum, rxmem := rxmem, busAddr := busAddr, txBdP := 0, rxBdP := 0
    rxBdV := false, tx := fun _ => .zero, rx := fun _ => .zero, txBdCi := 0, txBdTail := 0, rxBdCi := 0
    maxFrmSize := 0, commandConfig := 0#32, rxChan := ⟨0, false, 0#32⟩, txChan := ⟨0, false, 0#32⟩
    dmaRxReset := false, dmaTxReset := false, txMem := false, rxMem := false, skbs := 0, rxSkbs := []
    rxMaps := [], phyConnected := false, phyStarted := false, napiRx := false, napiTx := false
    txIrq := false, rxIrq := false, txUnmapped := [], txFreed := [] }

/-- An opening in which everything succeeds. -/
def smoothOpening : TsemacLocal.Opening :=
  { mtu := 1500, config := 0#32, rings := (some 0x10000, some 0x20000), alloc := fun _ => (true, true)
    promisc := false, phy := 0, requestTxIrq := 0, requestRxIrq := 0 }

/-- **An interface just opened**, with nothing in flight, does not recover. -/
theorem opened_not_restored :
    ∃ s, Restored s ∧ ¬ Restored (s.errHandler 0#32 false) := by
  have hopened := open_ready (s := .probed 64 128 0x1000 (fun b => 0x100000 + 0x800 * b)) (o := smoothOpening) rfl
    (fun _ _ => rfl) rfl rfl rfl
  refine ⟨_, hopened.2, ?_⟩
  intro h
  have hon := h.mac
  unfold MacEnabled at hon
  rw [(errHandler_clears _ 0#32 false).mac] at hon
  exact absurd hon (by decide)

end Br2Efinix.Tsemac
