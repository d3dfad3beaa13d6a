import Br2Efinix.Lib.Machine

/-!
# Checksum offload

That checksums are computed by the hardware is noted in the enable register, in
`lp->features`, in `ndev->features` and, for reception, in the setting from the device
tree. The probe, every open and every DMA stop go through `__tsemac_device_reset`, which
clears the first two.

* `agree_of_off`: the copies agree in every run in which no offload is advertised, nor
  set for reception in the device tree, when the device is reset in operation.
* `open_disagrees`: an open with `efx,rxcsum = 1`, and a reopen after the transmit offload
  was switched on.
-/

namespace Br2Efinix.Tsemac

/-- The bits of `netdev_features_t` that the driver knows. -/
structure NetdevFeatures where
  ipCsum : Bool
  hwCsum : Bool
  rxcsum : Bool
  sg : Bool
  deriving DecidableEq, Repr

/-- `skb->ip_summed`. -/
inductive IpSummed
  | none
  | unnecessary
  | partial_
  deriving DecidableEq, Repr

/-- The copies of the checksum setting: the registers `ETHERNET_CTRL_HW_{TX,RX}_CHECKSUM_EN`,
the bits `FULL_{TX,RX}_CSUM` of `lp->features`, whether `lp->csum_offload_on_{tx,rx}_path` is
the full offload, and the features of the net device. -/
structure Csum where
  regTx : Bool
  regRx : Bool
  fullTx : Bool
  fullRx : Bool
  offloadTx : Bool
  offloadRx : Bool
  features : NetdevFeatures
  hwFeatures : NetdevFeatures
  running : Bool
  deriving DecidableEq, Repr

namespace Csum

def hwSetTxCsum (s : Csum) (enable : Bool) : Csum := { s with fullTx := enable, regTx := enable }

def hwSetRxCsum (s : Csum) (enable : Bool) : Csum := { s with fullRx := enable, regRx := enable }

/-- The checksum part of `__tsemac_device_reset`. -/
def deviceReset (s : Csum) : Csum := (s.hwSetTxCsum false).hwSetRxCsum false

/-- The transmit part of the setup in `tsemac_probe`, with the property `efx,txcsum`. -/
def probeTx (s : Csum) : Option ℕ → Csum
  | none => s
  | some 1 =>
    { s with
      offloadTx := true, fullTx := true
      features := { s.features with ipCsum := true } }.hwSetTxCsum true
  | some _ =>
    { s with offloadTx := false, features := { s.features with hwCsum := false } }.hwSetTxCsum false

/-- The receive part, with the property `efx,rxcsum`. -/
def probeRx (s : Csum) : Option ℕ → Csum
  | none => s
  | some 1 =>
    { s with
      offloadRx := true, fullRx := true
      features := { s.features with rxcsum := true } }.hwSetRxCsum true
  | some _ =>
    { s with offloadRx := false, features := { s.features with rxcsum := false } }.hwSetRxCsum false

/-- `tsemac_open`, which may fail after the reset. -/
def open_ (s : Csum) (ok : Bool) : Csum := { s.deviceReset with running := ok }

/-- `tsemac_stop`; `tsemac_dma_stop` resets the device. -/
def stop (s : Csum) : Csum := { s.deviceReset with running := false }

def dmaErrHandler (s : Csum) : Csum := s.deviceReset

/-- `tsemac_fix_features`. -/
def fixFeatures (s : Csum) (f : NetdevFeatures) : NetdevFeatures :=
  ⟨f.ipCsum && s.hwFeatures.ipCsum, f.hwCsum && s.hwFeatures.hwCsum, f.rxcsum && s.hwFeatures.rxcsum,
    f.sg && s.hwFeatures.sg⟩

/-- `tsemac_set_features`. -/
def setFeatures (s : Csum) (f : NetdevFeatures) : Csum := (s.hwSetTxCsum f.hwCsum).hwSetRxCsum f.rxcsum

/-- What the network core does not allow of the features, `netdev_fix_features`. -/
def netdevFixFeatures (f : NetdevFeatures) : NetdevFeatures := { f with ipCsum := f.ipCsum && !f.hwCsum }

/-- The network core changes the features, `__netdev_update_features`: the driver fixes them, and is
called if they are not the old ones, or if `other` features change too; then they are stored. -/
def updateFeatures (s : Csum) (f : NetdevFeatures) (other : Bool) : Csum :=
  let f := netdevFixFeatures (s.fixFeatures f)
  if f = s.features ∧ other = false then s else { s.setFeatures f with features := f }

/-- The network core fixes the features that the driver registers. -/
def registerNetdev (s : Csum) : Csum := s.updateFeatures s.features false

/-- `tsemac_probe`, on registers that hold anything. -/
def probe (regTx regRx : Bool) (txcsum rxcsum : Option ℕ) : Csum :=
  ((probeTx
    { regTx := regTx, regRx := regRx, fullTx := false, fullRx := false, offloadTx := false
      offloadRx := false, features := ⟨false, false, false, true⟩
      hwFeatures := ⟨false, true, true, true⟩, running := false } txcsum).probeRx
    rxcsum).deviceReset.registerNetdev

/-- What `tsemac_start_xmit` sets `ip_summed` to. -/
def xmitIpSummed (s : Csum) : IpSummed := if s.fullTx then .partial_ else .none

/-- What `tsemac_rx_poll` sets `ip_summed` to. -/
def rxIpSummed (s : Csum) : IpSummed := if s.offloadRx then .unnecessary else .none

/-- A transmit checksum feature is advertised. -/
def advertised (s : Csum) : Bool := s.features.ipCsum || s.features.hwCsum

end Csum

inductive CsumAct
  | open_ (ok : Bool)
  | stop
  | dmaErrHandler
  | updateFeatures (f : NetdevFeatures) (other : Bool)
  deriving DecidableEq, Repr

def csumMachine : Machine Csum CsumAct :=
  { init := fun s => ∃ regTx regRx txcsum rxcsum, s = Csum.probe regTx regRx txcsum rxcsum
    step := fun s a =>
      match a with
      | .open_ ok => if s.running then none else some (s.open_ ok)
      | .stop => if s.running then some s.stop else none
      | .dmaErrHandler => if s.running then some s.dmaErrHandler else none
      | .updateFeatures f other => some (s.updateFeatures f other) }

/-- The copies agree while the interface is running. -/
structure Agree (s : Csum) : Prop where
  hardware : s.running = true → s.regTx = s.fullTx
  advertised : s.running = true → s.fullTx = s.advertised
  received : s.running = true → s.rxIpSummed = .unnecessary → s.regRx = true

/-- When the device is reset and then in operation, no transmit checksum is advertised and
the device tree does not ask for checked reception. -/
def Off (s : Csum) : CsumAct → Prop
  | .open_ ok => ok = true → s.advertised = false ∧ s.offloadRx = false
  | .dmaErrHandler => s.advertised = false ∧ s.offloadRx = false
  | _ => True

instance : ∀ s a, Decidable (Off s a)
  | s, .open_ ok => inferInstanceAs (Decidable (ok = true → s.advertised = false ∧ s.offloadRx = false))
  | s, .dmaErrHandler => inferInstanceAs (Decidable (s.advertised = false ∧ s.offloadRx = false))
  | _, .stop => isTrue trivial
  | _, .updateFeatures _ _ => isTrue trivial

/-- The invariant: what `Agree` says, and what keeps the offload of one direction off. -/
structure Settled (s : Csum) : Prop where
  hwFeatures : s.hwFeatures = ⟨false, true, true, true⟩
  hardware : s.running = true → s.regTx = s.fullTx
  advertised : s.running = true → s.fullTx = s.advertised
  unchecked : s.running = true → s.offloadRx = false

variable {s s' : Csum}

/-- **A reset in operation** leaves every copy off where nothing was advertised. -/
theorem deviceReset_settled (h : Settled s) {running : Bool}
    (hoff : running = true → s.advertised = false ∧ s.offloadRx = false) :
    Settled { s.deviceReset with running := running } :=
  ⟨h.hwFeatures, fun _ => rfl, fun hr => (hoff hr).1.symm, fun hr => (hoff hr).2⟩

/-- The driver takes `HW_CSUM` alone for the transmit checksum, and that is all that is
left of what is requested. -/
theorem fixFeatures_advertised (hhw : s.hwFeatures = ⟨false, true, true, true⟩) (f : NetdevFeatures) :
    (Csum.netdevFixFeatures (s.fixFeatures f)).ipCsum = false := by
  unfold Csum.netdevFixFeatures Csum.fixFeatures
  rw [hhw]
  simp only [Bool.and_false, Bool.false_and]

theorem updateFeatures_frame (s : Csum) (f : NetdevFeatures) (other : Bool) :
    (s.updateFeatures f other).hwFeatures = s.hwFeatures ∧ (s.updateFeatures f other).running = s.running := by
  unfold Csum.updateFeatures
  simp only
  split <;> exact ⟨rfl, rfl⟩

theorem updateFeatures_settled (h : Settled s) (f : NetdevFeatures) (other : Bool) :
    Settled (s.updateFeatures f other) := by
  have hip := fixFeatures_advertised h.hwFeatures f
  unfold Csum.updateFeatures
  generalize Csum.netdevFixFeatures (s.fixFeatures f) = fixed at hip ⊢
  simp only
  split
  · exact h
  · refine ⟨h.hwFeatures, fun _ => rfl, ?_, h.unchecked⟩
    intro _
    have hadvertised : (fixed.ipCsum || fixed.hwCsum) = fixed.hwCsum := by rw [hip, Bool.false_or]
    exact hadvertised.symm

theorem probe_settled (regTx regRx : Bool) (txcsum rxcsum : Option ℕ) :
    Settled (Csum.probe regTx regRx txcsum rxcsum) := by
  have htx : ∀ t, (Csum.probeTx t txcsum).hwFeatures = t.hwFeatures ∧
      (Csum.probeTx t txcsum).running = t.running := by
    intro t
    unfold Csum.probeTx
    split <;> exact ⟨rfl, rfl⟩
  have hrx : ∀ t, (Csum.probeRx t rxcsum).deviceReset.hwFeatures = t.hwFeatures ∧
      (Csum.probeRx t rxcsum).deviceReset.running = t.running := by
    intro t
    unfold Csum.probeRx
    split <;> exact ⟨rfl, rfl⟩
  have hidle : (Csum.probe regTx regRx txcsum rxcsum).running = false := by
    unfold Csum.probe Csum.registerNetdev
    rw [(updateFeatures_frame ..).2, (hrx _).2, (htx _).2]
  have hnot : (Csum.probe regTx regRx txcsum rxcsum).running ≠ true := by rw [hidle]; simp
  refine ⟨?_, fun h => absurd h hnot, fun h => absurd h hnot, fun h => absurd h hnot⟩
  unfold Csum.probe Csum.registerNetdev
  rw [(updateFeatures_frame ..).1, (hrx _).1, (htx _).1]

theorem step_settled (h : Settled s) {a : CsumAct} (hoff : Off s a)
    (hstep : csumMachine.step s a = some s') : Settled s' := by
  unfold csumMachine at hstep
  cases a with
  | open_ ok =>
    obtain ⟨-, rfl⟩ := of_guard_not hstep
    exact deviceReset_settled h hoff
  | stop =>
    obtain ⟨-, rfl⟩ := of_guard hstep
    refine ⟨h.hwFeatures, ?_, ?_, ?_⟩
    · intro hr
      exact absurd hr Bool.false_ne_true
    · intro hr
      exact absurd hr Bool.false_ne_true
    · intro hr
      exact absurd hr Bool.false_ne_true
  | dmaErrHandler =>
    obtain ⟨-, rfl⟩ := of_guard hstep
    exact deviceReset_settled h fun _ => hoff
  | updateFeatures f other =>
    obtain rfl := Option.some.inj hstep
    exact updateFeatures_settled h f other

/-- **The copies of the checksum setting agree** in every run that resets the device with
all of it off. -/
theorem agree_of_off {s : Csum} (h : csumMachine.Reach Off s) : Agree s := by
  have hsettled : Settled s := by
    refine h.invariant (I := Settled) ?_ ?_
    · rintro s ⟨regTx, regRx, txcsum, rxcsum, rfl⟩
      exact probe_settled regTx regRx txcsum rxcsum
    · intro s a s' hs hoff hstep
      exact step_settled hs hoff hstep
  refine ⟨hsettled.hardware, hsettled.advertised, ?_⟩
  intro hr hmark
  unfold Csum.rxIpSummed at hmark
  rw [hsettled.unchecked hr] at hmark
  exact absurd hmark (by decide)

/-- **No step is left out** that ends in agreement. -/
theorem off_of_agree {a : CsumAct} (hagree : Agree s') (hstep : csumMachine.step s a = some s') : Off s a := by
  have hreset : ∀ running, running = true → Agree { s.deviceReset with running := running } →
      s.advertised = false ∧ s.offloadRx = false := by
    intro running hr hreset
    refine ⟨(hreset.advertised hr).symm, ?_⟩
    by_contra hmarks
    have hmarks : s.offloadRx = true := eq_true_of_ne_false hmarks
    exact absurd (hreset.received hr (if_pos hmarks)) Bool.false_ne_true
  unfold csumMachine at hstep
  cases a with
  | open_ ok =>
    obtain ⟨-, rfl⟩ := of_guard_not hstep
    exact fun hok => hreset ok hok hagree
  | stop => trivial
  | dmaErrHandler =>
    obtain ⟨hr, rfl⟩ := of_guard hstep
    exact hreset s.running hr hagree
  | updateFeatures f other => trivial

/-- The offload is switched on after the interface has been opened. -/
def switchedOn : List CsumAct :=
  [.open_ true, .updateFeatures ⟨true, true, true, true⟩ false, .stop,
    .updateFeatures ⟨false, false, true, true⟩ false, .open_ true,
    .updateFeatures ⟨false, true, false, true⟩ true]

theorem agree_of_off_switched :
    ∃ s, csumMachine.exec (Csum.probe false false none (some 0)) switchedOn = some s ∧
      s.running = true ∧ s.xmitIpSummed = .partial_ ∧ Agree s := by
  have hinit : csumMachine.init (Csum.probe false false none (some 0)) :=
    ⟨false, false, none, some 0, rfl⟩
  have halong : csumMachine.Along Off (Csum.probe false false none (some 0)) switchedOn := by decide
  obtain ⟨s, he⟩ : ∃ s, csumMachine.exec (Csum.probe false false none (some 0)) switchedOn = some s :=
    ⟨_, rfl⟩
  refine ⟨s, he, ?_, ?_, agree_of_off (.of_exec hinit halong he)⟩
  · obtain rfl := Option.some.inj he
    rfl
  · obtain rfl := Option.some.inj he
    rfl

/-- The transmit offload is switched on, and the interface is closed and opened again. -/
def reopening : List CsumAct :=
  [.open_ true, .updateFeatures ⟨false, true, false, true⟩ false, .stop, .open_ true]

/-- **The reset clears what stays set elsewhere**: with `efx,rxcsum = 1` frames are marked as checked by
hardware that does not check them, and after a reopen the hardware does not compute the checksum that is
advertised. -/
theorem open_disagrees :
    (∃ s, csumMachine.init (Csum.probe false false none (some 1)) ∧
        csumMachine.exec (Csum.probe false false none (some 1)) [.open_ true] = some s ∧
        s.rxIpSummed = .unnecessary ∧ s.regRx = false ∧ ¬ Agree s) ∧
      ∃ s, csumMachine.init (Csum.probe false false none none) ∧
        csumMachine.exec (Csum.probe false false none none) reopening = some s ∧
        s.advertised = true ∧ s.fullTx = false ∧ ¬ Agree s := by
  constructor
  · refine ⟨_, ⟨false, false, none, some 1, rfl⟩, rfl, rfl, rfl, ?_⟩
    intro hagree
    exact absurd (hagree.received rfl rfl) (by decide)
  · refine ⟨_, ⟨false, false, none, none, rfl⟩, rfl, rfl, rfl, ?_⟩
    intro hagree
    exact absurd (hagree.advertised rfl) (by decide)

end Br2Efinix.Tsemac
