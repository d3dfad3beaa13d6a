import Br2Efinix.Tsemac.ErrHandler

/-!
# Opening the interface

`tsemac_open` ignores the result of `tsemac_device_reset`, which has released its rings when it fails,
and the paths on which it fails itself do not release the rings nor stop the engine; all but the last one
leave a channel of the engine in reset.

* `bdInit_fails`: `tsemac_dma_bd_init` releases what it has acquired when it fails.
* `open_releases_iff`: an opening at which something fails returns an error with everything released and
  no channel in reset exactly when the rings could not be set up and the receive interrupt, and nothing
  before it, was refused as well.
* `reopened`: after such an opening the next one fails cleanly where it would have at first.
-/

namespace Br2Efinix.Tsemac

/-- Nothing that `tsemac_open` acquires is held. -/
structure Released (s : TsemacLocal) : Prop where
  rings : s.txMem = false ∧ s.rxMem = false
  buffers : s.rxSkbs = [] ∧ s.rxMaps = []
  channels : s.rxChan.started = false ∧ s.txChan.started = false
  phy : s.phyConnected = false ∧ s.phyStarted = false
  napi : s.napiRx = false ∧ s.napiTx = false
  irqs : s.txIrq = false ∧ s.rxIrq = false

/-- What an opening starts from beside what is held: the sizes, and the channels as they were set up. -/
structure SameStart (s t : TsemacLocal) : Prop where
  sizes : t.txBdNum = s.txBdNum ∧ t.rxBdNum = s.rxBdNum ∧ t.rxmem = s.rxmem
  channels : t.rxChan = s.rxChan ∧ t.txChan = s.txChan

/-- The rings can be set up. -/
def RingsGiven (s : TsemacLocal) (o : TsemacLocal.Opening) : Prop :=
  o.rings.1.isSome = true ∧ o.rings.2.isSome = true ∧ ∀ i < s.rxBdNum, o.alloc i = (true, true)

/-- One of the calls after the reset fails. -/
def LaterFails (o : TsemacLocal.Opening) : Prop := o.phy ≠ 0 ∨ o.requestTxIrq ≠ 0 ∨ o.requestRxIrq ≠ 0

/-- The receive interrupt is refused, and nothing before it. -/
def RxIrqFails (o : TsemacLocal.Opening) : Prop := o.phy = 0 ∧ o.requestTxIrq = 0 ∧ o.requestRxIrq ≠ 0

instance (s : TsemacLocal) (o : TsemacLocal.Opening) : Decidable (RingsGiven s o) :=
  inferInstanceAs (Decidable (o.rings.1.isSome = true ∧ o.rings.2.isSome = true ∧
    ∀ i < s.rxBdNum, o.alloc i = (true, true)))

instance (o : TsemacLocal.Opening) : Decidable (LaterFails o) :=
  inferInstanceAs (Decidable (o.phy ≠ 0 ∨ o.requestTxIrq ≠ 0 ∨ o.requestRxIrq ≠ 0))

instance (o : TsemacLocal.Opening) : Decidable (RxIrqFails o) :=
  inferInstanceAs (Decidable (o.phy = 0 ∧ o.requestTxIrq = 0 ∧ o.requestRxIrq ≠ 0))

/-- What an opening at which something fails is to do. A later one starts from what the first one did: no
channel is held in reset before the first opening. -/
structure FailsCleanly (s : TsemacLocal) (o : TsemacLocal.Opening) : Prop where
  error : (s.open_ o).2 ≠ 0
  released : Released (s.open_ o).1
  again : SameStart s (s.open_ o).1
  resets : (s.open_ o).1.dmaRxReset = false ∧ (s.open_ o).1.dmaTxReset = false

variable {s t : TsemacLocal} {o : TsemacLocal.Opening}

theorem Released.of_same (h : Released s) (hrings : t.txMem = s.txMem ∧ t.rxMem = s.rxMem)
    (hbuffers : t.rxSkbs = s.rxSkbs ∧ t.rxMaps = s.rxMaps) (hchannels : t.rxChan = s.rxChan ∧ t.txChan = s.txChan)
    (hphy : t.phyConnected = s.phyConnected ∧ t.phyStarted = s.phyStarted)
    (hnapi : t.napiRx = s.napiRx ∧ t.napiTx = s.napiTx) (hirqs : t.txIrq = s.txIrq ∧ t.rxIrq = s.rxIrq) :
    Released t := by
  obtain ⟨h1, h2, h3, h4, h5, h6⟩ := h
  refine ⟨?_, ?_, ?_, ?_, ?_, ?_⟩
  · rw [hrings.1, hrings.2]; exact h1
  · rw [hbuffers.1, hbuffers.2]; exact h2
  · rw [hchannels.1, hchannels.2]; exact h3
  · rw [hphy.1, hphy.2]; exact h4
  · rw [hnapi.1, hnapi.2]; exact h5
  · rw [hirqs.1, hirqs.2]; exact h6

theorem SameStart.trans {u : TsemacLocal} (h : SameStart s t) (h' : SameStart t u) : SameStart s u :=
  ⟨⟨h'.sizes.1.trans h.sizes.1, h'.sizes.2.1.trans h.sizes.2.1, h'.sizes.2.2.trans h.sizes.2.2⟩,
    h'.channels.1.trans h.channels.1, h'.channels.2.trans h.channels.2⟩

/-! ## The rings -/

theorem enomem_ne : -ENOMEM ≠ 0 := by decide

/-- The rings are set up exactly when they can be. -/
theorem bdInit_zero_iff (hcontrol : controlBytes s.maxFrmSize ≠ 0) :
    (s.bdInit o.rings o.alloc).2 = 0 ↔ RingsGiven s o := by
  unfold TsemacLocal.bdInit RingsGiven
  simp only
  cases htx : o.rings.1 with
  | none => exact iff_of_false enomem_ne (by simp)
  | some txBdP =>
    cases hrx : o.rings.2 with
    | none => exact iff_of_false enomem_ne (by simp)
    | some rxBdP =>
      have hfresh := freshRings_eq s.resetIndexes txBdP rxBdP
      have hok : (TsemacLocal.initLoop o.alloc s.rxBdNum 0 (s.resetIndexes.freshRings txBdP rxBdP)).2 = true ↔
          ∀ j, 0 ≤ j → j < 0 + s.rxBdNum → o.alloc j = (true, true) :=
        (initLoop_spec (by rw [hfresh]; exact hcontrol) (by intro j _; rw [hfresh])).2.1
      have hn : s.resetIndexes.rxBdNum = s.rxBdNum := rfl
      simp only [hn, Option.isSome_some, true_and]
      have hall : (∀ j, 0 ≤ j → j < 0 + s.rxBdNum → o.alloc j = (true, true)) ↔
          ∀ i < s.rxBdNum, o.alloc i = (true, true) :=
        ⟨fun h i hi => h i (Nat.zero_le i) (by omega), fun h j _ hj => h j (by omega)⟩
      rw [← hall, ← hok]
      split
      · rename_i hloop
        exact iff_of_true rfl hloop
      · rename_i hloop
        exact iff_of_false enomem_ne hloop

/-- A ring that was filled in part holds nothing once it is released. -/
theorem initLoop_released (hs : Released s) (hcontrol : controlBytes s.maxFrmSize ≠ 0) (txBdP rxBdP : ℕ) :
    Released (TsemacLocal.initLoop o.alloc s.rxBdNum 0 (s.resetIndexes.freshRings txBdP rxBdP)).1.bdRelease ∧
      SameStart s (TsemacLocal.initLoop o.alloc s.rxBdNum 0 (s.resetIndexes.freshRings txBdP rxBdP)).1.bdRelease := by
  have hfresh := freshRings_eq s.resetIndexes txBdP rxBdP
  generalize s.resetIndexes.freshRings txBdP rxBdP = u at *
  obtain ⟨hleaves, -, -⟩ := initLoop_spec (s := u) (k := s.rxBdNum) (i := 0)
    (by rw [hfresh]; exact hcontrol) (by intro j _; rw [hfresh])
  have hshape := hleaves.shape
  have hskbs := hleaves.skbs
  have hmaps := hleaves.maps
  have hnum : (TsemacLocal.initLoop o.alloc s.rxBdNum 0 u).1.rxBdNum = s.rxBdNum := by rw [hshape, hfresh]; rfl
  have hptr : (TsemacLocal.initLoop o.alloc s.rxBdNum 0 u).1.rxBdV = true := by rw [hshape, hfresh]
  generalize TsemacLocal.initLoop o.alloc s.rxBdNum 0 u = r at *
  -- what the ring holds is all there is
  have hskbs' : r.1.rxSkbs = slotSkbs r.1.rx s.rxBdNum 0 := by
    rw [hskbs, hfresh]
    simp only
    rw [show s.resetIndexes.rxSkbs = [] from hs.buffers.1, List.nil_append]
  have hmaps' : r.1.rxMaps = slotMaps r.1.rx s.rxBdNum 0 := by
    rw [hmaps, hfresh]
    simp only
    rw [show s.resetIndexes.rxMaps = [] from hs.buffers.2, List.nil_append]
  rw [bdRelease_spec hptr (by rw [hnum]; exact hskbs') (by rw [hnum]; exact hmaps')]
  refine ⟨⟨⟨rfl, rfl⟩, ⟨rfl, rfl⟩, ?_, ?_, ?_, ?_⟩, ?_, ?_⟩
  · simp only; rw [hshape, hfresh]; exact hs.channels
  · simp only; rw [hshape, hfresh]; exact hs.phy
  · simp only; rw [hshape, hfresh]; exact hs.napi
  · simp only; rw [hshape, hfresh]; exact hs.irqs
  · simp only; rw [hshape, hfresh]; exact ⟨rfl, rfl, rfl⟩
  · simp only; rw [hshape, hfresh]; exact ⟨rfl, rfl⟩

/-- **A ring that cannot be set up** is released. -/
theorem bdInit_fails (hs : Released s) (hcontrol : controlBytes s.maxFrmSize ≠ 0) (hno : ¬ RingsGiven s o) :
    (s.bdInit o.rings o.alloc).2 ≠ 0 ∧ Released (s.bdInit o.rings o.alloc).1 ∧
      SameStart s (s.bdInit o.rings o.alloc).1 := by
  have hne : (s.bdInit o.rings o.alloc).2 ≠ 0 := mt (bdInit_zero_iff hcontrol).1 hno
  refine ⟨hne, ?_⟩
  revert hne
  unfold TsemacLocal.bdInit
  simp only
  cases o.rings.1 with
  | none =>
    intro _
    exact ⟨hs.of_same ⟨rfl, rfl⟩ ⟨rfl, rfl⟩ ⟨rfl, rfl⟩ ⟨rfl, rfl⟩ ⟨rfl, rfl⟩ ⟨rfl, rfl⟩, ⟨rfl, rfl, rfl⟩, rfl, rfl⟩
  | some txBdP =>
    cases o.rings.2 with
    | none =>
      intro _
      refine ⟨hs.of_same ⟨?_, rfl⟩ ⟨rfl, rfl⟩ ⟨rfl, rfl⟩ ⟨rfl, rfl⟩ ⟨rfl, rfl⟩ ⟨rfl, rfl⟩, ⟨rfl, rfl, rfl⟩, rfl, rfl⟩
      exact hs.rings.1.symm
    | some rxBdP =>
      simp only
      split
      · intro hne
        exact absurd rfl hne
      · intro _
        exact initLoop_released hs hcontrol txBdP rxBdP

/-- A ring that is set up is held. -/
theorem bdInit_holds (hcontrol : controlBytes s.maxFrmSize ≠ 0) (hyes : RingsGiven s o) :
    (s.bdInit o.rings o.alloc).2 = 0 ∧ (s.bdInit o.rings o.alloc).1.txMem = true := by
  obtain ⟨htx, hrx, halloc⟩ := hyes
  obtain ⟨txBdP, htx⟩ := Option.isSome_iff_exists.1 htx
  obtain ⟨rxBdP, hrx⟩ := Option.isSome_iff_exists.1 hrx
  unfold TsemacLocal.bdInit
  simp only [htx, hrx]
  have hfresh := freshRings_eq s.resetIndexes txBdP rxBdP
  generalize s.resetIndexes.freshRings txBdP rxBdP = u at *
  have hn : s.resetIndexes.rxBdNum = s.rxBdNum := rfl
  obtain ⟨hleaves, hok, -⟩ := initLoop_spec (s := u) (k := s.rxBdNum) (i := 0)
    (by rw [hfresh]; exact hcontrol) (by intro j _; rw [hfresh])
  rw [hn, if_pos (hok.2 fun j _ hj => halloc j (by omega))]
  refine ⟨rfl, ?_⟩
  have hshape := hleaves.shape
  generalize TsemacLocal.initLoop o.alloc s.rxBdNum 0 u = r at *
  rw [hshape, hfresh]
  rfl

/-! ## Opening -/

theorem clear32bit_txMem (s : TsemacLocal) (value : BitVec 32) : (s.clear32bit value).txMem = s.txMem := rfl

theorem setMulticastList_txMem (s : TsemacLocal) (promisc : Bool) : (s.setMulticastList promisc).txMem = s.txMem := by
  unfold TsemacLocal.setMulticastList
  split <;> rfl

/-- The reset holds the rings, or everything is released. -/
theorem deviceReset_cases (hs : Released s) :
    RingsGiven s o ∧ (s.deviceReset o).1.txMem = true ∨
      ¬ RingsGiven s o ∧ Released (s.deviceReset o).1 ∧ SameStart s (s.deviceReset o).1 := by
  have hstart : Released { s.macReset o.config with maxFrmSize := maxFrmSize o.mtu s.rxmem } :=
    hs.of_same ⟨rfl, rfl⟩ ⟨rfl, rfl⟩ ⟨rfl, rfl⟩ ⟨rfl, rfl⟩ ⟨rfl, rfl⟩ ⟨rfl, rfl⟩
  unfold TsemacLocal.deviceReset
  simp only
  by_cases hgiven : RingsGiven s o
  · left
    obtain ⟨hret, hmem⟩ := bdInit_holds (s := { s.macReset o.config with maxFrmSize := maxFrmSize o.mtu s.rxmem })
      (o := o) (maxFrm_controlBytes_ne o.mtu s.rxmem) hgiven
    refine ⟨hgiven, ?_⟩
    rw [if_neg (not_not.2 hret), setMulticastList_txMem, clear32bit_txMem, clear32bit_txMem]
    exact hmem
  · right
    obtain ⟨hret, hreleased, hsame⟩ := bdInit_fails (o := o) hstart (maxFrm_controlBytes_ne o.mtu s.rxmem) hgiven
    refine ⟨hgiven, ?_⟩
    rw [if_pos hret]
    exact ⟨hreleased, hsame.sizes, hsame.channels⟩

/-- **After the reset** nothing releases the rings, and the rest is released where it fails. -/
theorem openRest_spec (hlater : LaterFails o) :
    (s.openRest o).2 ≠ 0 ∧ (s.openRest o).1.txMem = s.txMem ∧ (Released s → Released (s.openRest o).1) := by
  unfold TsemacLocal.openRest
  simp only
  split
  · rename_i hphy
    exact ⟨hphy, rfl, fun h => h.of_same ⟨rfl, rfl⟩ ⟨rfl, rfl⟩ ⟨rfl, rfl⟩ ⟨rfl, rfl⟩ ⟨rfl, rfl⟩ ⟨rfl, rfl⟩⟩
  rename_i hphy
  split
  · rename_i htx
    exact ⟨htx, rfl, fun h => ⟨h.rings, h.buffers, h.channels, ⟨rfl, rfl⟩, ⟨rfl, rfl⟩, h.irqs⟩⟩
  rename_i htx
  split
  · rename_i hrx
    exact ⟨hrx, rfl, fun h => ⟨h.rings, h.buffers, h.channels, ⟨rfl, rfl⟩, ⟨rfl, rfl⟩, rfl, h.irqs.2⟩⟩
  · rename_i hrx
    exact absurd hlater (by unfold LaterFails; simp only [hphy, htx, hrx, or_self, not_false_eq_true])

/-- It does not touch the sizes, nor what the channels were set up to. -/
theorem openRest_same (s : TsemacLocal) (o : TsemacLocal.Opening) : SameStart s (s.openRest o).1 := by
  unfold TsemacLocal.openRest
  simp only
  split
  · exact ⟨⟨rfl, rfl, rfl⟩, rfl, rfl⟩
  split
  · exact ⟨⟨rfl, rfl, rfl⟩, rfl, rfl⟩
  split
  · exact ⟨⟨rfl, rfl, rfl⟩, rfl, rfl⟩
  · exact ⟨⟨rfl, rfl, rfl⟩, rfl, rfl⟩

/-- Of the paths on which it fails the last one alone ends both resets. -/
theorem openRest_resets (hlater : LaterFails o) :
    ((s.openRest o).1.dmaRxReset = false ∧ (s.openRest o).1.dmaTxReset = false) ↔ RxIrqFails o := by
  unfold TsemacLocal.openRest RxIrqFails
  simp only
  split
  · -- no PHY: both channels stay in reset
    rename_i hphy
    exact iff_of_false (fun h => Bool.noConfusion h.1) fun h => hphy h.1
  rename_i hphy
  split
  · -- the receive channel does
    rename_i htx
    exact iff_of_false (fun h => Bool.noConfusion h.1) fun h => htx h.2.1
  rename_i htx
  split
  · rename_i hrx
    exact iff_of_true ⟨rfl, rfl⟩ ⟨not_not.1 hphy, not_not.1 htx, hrx⟩
  · rename_i hrx
    exact absurd hlater (by unfold LaterFails; simp only [hphy, htx, hrx, or_self, not_false_eq_true])

/-- Without a later failure the call succeeds. -/
theorem openRest_ok (hlater : ¬ LaterFails o) : (s.openRest o).2 = 0 := by
  unfold LaterFails at hlater
  simp only [not_or, not_not] at hlater
  unfold TsemacLocal.openRest
  simp only [hlater.1, hlater.2.1, hlater.2.2, ne_eq, not_true_eq_false, if_false]

/-- **An opening** fails cleanly exactly when the rings could not be set up and the receive interrupt was
refused as well. -/
theorem failsCleanly_iff (hs : Released s) : FailsCleanly s o ↔ ¬ RingsGiven s o ∧ RxIrqFails o := by
  have hreset := deviceReset_cases (o := o) hs
  constructor
  · rintro ⟨herror, hreleased, -, hresets⟩
    have hlater : LaterFails o := by
      by_contra hno
      exact herror (openRest_ok hno)
    refine ⟨?_, (openRest_resets hlater).1 hresets⟩
    rcases hreset with ⟨-, hheld⟩ | ⟨hnone, -⟩
    · -- the memory of the rings is still there
      have hmem := (openRest_spec (s := (s.deviceReset o).1) hlater).2.1
      rw [hheld] at hmem
      exact absurd (hmem.symm.trans hreleased.rings.1) (by decide)
    · exact hnone
  · rintro ⟨hnone, hrx⟩
    have hlater : LaterFails o := Or.inr (Or.inr hrx.2.2)
    rcases hreset with ⟨hgiven, -⟩ | ⟨-, hreleased, hsame⟩
    · exact absurd hgiven hnone
    · obtain ⟨herror, -, hkeep⟩ := openRest_spec (s := (s.deviceReset o).1) hlater
      exact ⟨herror, hkeep hreleased, hsame.trans (openRest_same _ o), (openRest_resets hlater).2 hrx⟩

/-- **`tsemac_open` releases what it acquired** where something fails exactly when nothing fails, or the
set-up of the rings and the request for the receive interrupt alone fail together. -/
theorem open_releases_iff (hs : Released s) :
    (¬ RingsGiven s o ∨ LaterFails o → FailsCleanly s o) ↔
      RingsGiven s o ∧ ¬ LaterFails o ∨ ¬ RingsGiven s o ∧ RxIrqFails o := by
  have hlast : RxIrqFails o → LaterFails o := fun h => Or.inr (Or.inr h.2.2)
  rw [failsCleanly_iff hs]
  constructor
  · intro h
    by_cases hfails : ¬ RingsGiven s o ∨ LaterFails o
    · exact Or.inr (h hfails)
    · exact Or.inl ⟨not_not.1 fun hno => hfails (Or.inl hno), fun hlater => hfails (Or.inr hlater)⟩
  · rintro (⟨hgiven, hno⟩ | hclean) hfails
    · exact absurd hfails (not_or.2 ⟨not_not.2 hgiven, hno⟩)
    · exact hclean

/-- **After an opening that failed cleanly** the next one fails cleanly where it would have at first. -/
theorem reopened (hs : Released s) (hfails : FailsCleanly s o) (o' : TsemacLocal.Opening) :
    FailsCleanly (s.open_ o).1 o' ↔ FailsCleanly s o' := by
  have hgiven : RingsGiven (s.open_ o).1 o' ↔ RingsGiven s o' := by
    unfold RingsGiven
    rw [hfails.again.sizes.2.1]
  rw [failsCleanly_iff hfails.released, failsCleanly_iff hs, hgiven]

/-! ## Runs -/

theorem probed_released (txBdNum rxBdNum rxmem : ℕ) (busAddr : ℕ → ℕ) :
    Released (.probed txBdNum rxBdNum rxmem busAddr) :=
  ⟨⟨rfl, rfl⟩, ⟨rfl, rfl⟩, ⟨rfl, rfl⟩, ⟨rfl, rfl⟩, ⟨rfl, rfl⟩, ⟨rfl, rfl⟩⟩

/-- Memory for half of the receive buffers, and no receive interrupt. -/
def shortOpening : TsemacLocal.Opening :=
  { smoothOpening with alloc := fun i => (decide (i < 4), true), requestRxIrq := -16 }

theorem open_releases_iff_short :
    FailsCleanly (.probed 18 8 0x1000 (fun b => 0x100000 + 0x800 * b)) shortOpening :=
  (open_releases_iff (probed_released 18 8 0x1000 _)).2 (by decide) (.inl (by decide))

/-- **The rings are kept** when the receive interrupt cannot be requested, **success is reported** when
there is no memory for the rings, and **both channels stay in reset** when there is no PHY either. -/
theorem open_leaks :
    (LaterFails { smoothOpening with requestRxIrq := -16 } ∧
        ¬ FailsCleanly (.probed 18 8 0x1000 (fun b => 0x100000 + 0x800 * b))
          { smoothOpening with requestRxIrq := -16 }) ∧
      (¬ RingsGiven (.probed 18 8 0x1000 (fun b => 0x100000 + 0x800 * b)) { smoothOpening with rings := (none, none) } ∧
        ¬ FailsCleanly (.probed 18 8 0x1000 (fun b => 0x100000 + 0x800 * b))
          { smoothOpening with rings := (none, none) }) ∧
        LaterFails { smoothOpening with rings := (none, none), phy := -19 } ∧
          ¬ FailsCleanly (.probed 18 8 0x1000 (fun b => 0x100000 + 0x800 * b))
            { smoothOpening with rings := (none, none), phy := -19 } := by
  refine ⟨⟨by decide, ?_⟩, ⟨by decide, ?_⟩, by decide, ?_⟩
  · intro h
    have hskbs := h.released.buffers.1
    revert hskbs
    decide +kernel
  · intro h
    have herror := h.error
    revert herror
    decide +kernel
  · intro h
    have hreset := h.resets.1
    revert hreset
    decide +kernel

end Br2Efinix.Tsemac
