import Br2Efinix.Lib.Machine
import Br2Efinix.Tsemac.Open

/-!
# The receive filter

The net device is the interface with what the core keeps of it: its flags and its list of multicast
addresses. `tsemac_set_multicast_list` turns promiscuous mode on and off, and writes `IFF_PROMISC` into
the flags that it reads the next time.

* `next_follows_iff`: when one event leaves the filter as it was requested.
* `filter_follows_iff`: **the filter follows the requests** along a run exactly when no call finds nothing
  requested while `IFF_PROMISC` is left in the flags.
-/

namespace Br2Efinix.Tsemac

def IFF_PROMISC : BitVec 32 := 1#32 <<< 8
def IFF_ALLMULTI : BitVec 32 := 1#32 <<< 9
def ETH_SPEED_MASK : BitVec 32 := 0x00070000#32
def ETH_SPEED_MASK_10 : BitVec 32 := 0x00010000#32
def ETH_SPEED_MASK_100 : BitVec 32 := 0x00020000#32
def ETH_SPEED_MASK_1000 : BitVec 32 := 0x00040000#32

/-- The condition of `tsemac_set_multicast_list`. -/
def asksPromisc (flags : BitVec 32) (mcCount : ℕ) : Bool :=
  flags &&& (IFF_ALLMULTI ||| IFF_PROMISC) != 0#32 || decide (mcCount > 1)

/-- `struct net_device`; `running` is `IFF_UP`. `requested` is only observed: it is what the flags would be
if only the core wrote them. -/
structure NetDevice where
  lp : TsemacLocal
  flags : BitVec 32
  mcCount : ℕ
  running : Bool
  requested : BitVec 32

namespace NetDevice

def asks (n : NetDevice) : Bool := asksPromisc n.flags n.mcCount

/-- `tsemac_set_multicast_list`. -/
def setMulticastList (n : NetDevice) : NetDevice :=
  if n.asks then { n with flags := n.flags ||| IFF_PROMISC, lp := n.lp.set32bit ETHERNET_CMD_PROMIS_EN }
  else { n with lp := n.lp.clear32bit ETHERNET_CMD_PROMIS_EN }

/-- The core calls `ndo_set_rx_mode` of an interface that is up. -/
def setRxMode (n : NetDevice) : NetDevice := if n.running then n.setMulticastList else n

/-- The speed bits of `tsemac_mac_link_up`. -/
def speedBits (speed : ℕ) : BitVec 32 :=
  if speed = 1000 then ETH_SPEED_MASK_1000
  else if speed = 100 then ETH_SPEED_MASK_100
  else if speed = 10 then ETH_SPEED_MASK_10
  else 0#32

/-- `tsemac_mac_link_up`, without the writes to the PHY. -/
def macLinkUp (n : NetDevice) (speed : ℕ) (rxPause : Bool) : NetDevice :=
  let cmdCfg := (n.lp.commandConfig &&& ~~~ETH_SPEED_MASK) ||| speedBits speed
  let cmdCfg := if rxPause then cmdCfg &&& ~~~ETHERNET_CMD_PAUSE_IGNORE else cmdCfg ||| ETHERNET_CMD_PAUSE_IGNORE
  { n with lp := { n.lp with commandConfig := cmdCfg } }

/-- `tsemac_open`: `tsemac_set_multicast_list` is called when the reset gets that far. -/
def open_ (n : NetDevice) (o : TsemacLocal.Opening) : NetDevice :=
  let o := { o with promisc := n.asks }
  let r := n.lp.open_ o
  { n with
    lp := r.1, running := r.2 = 0
    flags := if (n.lp.deviceReset o).2 = 0 ∧ n.asks then n.flags ||| IFF_PROMISC else n.flags }

/-- `tsemac_stop`. -/
def stop (n : NetDevice) (config : BitVec 32) : NetDevice := { n with lp := n.lp.stop config, running := false }

/-- Closing the interface, if it is up, and opening it. -/
def reopen (n : NetDevice) (config : BitVec 32) (o : TsemacLocal.Opening) : NetDevice :=
  (if n.running then n.stop config else n).open_ o

end NetDevice

/-- The core writes the bits of `mask`. -/
def writeBits (flags mask value : BitVec 32) : BitVec 32 := (flags &&& ~~~mask) ||| (value &&& mask)

/-- What happens to the interface. A change of the flags writes those of `mask`; `reopen` has what the reset
of `tsemac_stop` leaves in the command register and what `tsemac_open` meets. -/
inductive FilterEvent
  | changeFlags (mask value : BitVec 32)
  | changeList (mcCount : ℕ)
  | linkUp (speed : ℕ) (rxPause : Bool)
  | reopen (config : BitVec 32) (o : TsemacLocal.Opening)

def NetDevice.next (n : NetDevice) : FilterEvent → NetDevice
  | .changeFlags mask value =>
    { n with flags := writeBits n.flags mask value, requested := writeBits n.requested mask value }.setRxMode
  | .changeList mcCount => { n with mcCount := mcCount }.setRxMode
  | .linkUp speed rxPause => n.macLinkUp speed rxPause
  | .reopen config o => n.reopen config o

def PromiscOn (w : BitVec 32) : Prop := w &&& ETHERNET_CMD_PROMIS_EN ≠ 0#32

/-- The filter of an interface that is up is as requested. -/
def Follows (n : NetDevice) : Prop :=
  n.running = true → (PromiscOn n.lp.commandConfig ↔ asksPromisc n.requested n.mcCount = true)

/-- The flags are as requested, but for `IFF_PROMISC` left in them. -/
structure FlagsKept (flags requested : BitVec 32) : Prop where
  others : ∀ i, i ≠ 8 → flags.getLsbD i = requested.getLsbD i
  promisc : requested.getLsbD 8 = true → flags.getLsbD 8 = true

/-- The start: the flags are as requested and the filter follows them. -/
structure FilterStart (n : NetDevice) : Prop where
  kept : FlagsKept n.flags n.requested
  follows : Follows n

def filterMachine : Machine NetDevice FilterEvent where
  init := FilterStart
  step n e := some (n.next e)

/-- What one event is to leave: the filter as requested, and by `tsemac_set_multicast_list` the other bits of
the command register as they were. -/
structure Filtered (n : NetDevice) (e : FilterEvent) : Prop where
  follows : Follows (n.next e)
  others : (∃ mask value, e = .changeFlags mask value) ∨ (∃ mcCount, e = .changeList mcCount) →
    (n.next e).lp.commandConfig &&& ~~~ETHERNET_CMD_PROMIS_EN = n.lp.commandConfig &&& ~~~ETHERNET_CMD_PROMIS_EN

/-- With these requests promiscuous mode is asked for, or `IFF_PROMISC` is not in the flags. -/
def Unlatched (flags requested : BitVec 32) (mcCount : ℕ) : Prop :=
  asksPromisc requested mcCount = true ∨ flags &&& IFF_PROMISC = 0#32

/-- What an event may meet: no call finds nothing requested while `IFF_PROMISC` is left in the flags, and an
opening that does not set up its rings, and so makes no call, finds the bit as requested after the reset. -/
def Undeceived (n : NetDevice) : FilterEvent → Prop
  | .changeFlags mask value =>
    n.running = true → Unlatched (writeBits n.flags mask value) (writeBits n.requested mask value) n.mcCount
  | .changeList mcCount => n.running = true → Unlatched n.flags n.requested mcCount
  | .linkUp _ _ => True
  | .reopen _ o =>
    ¬ LaterFails o →
      if RingsGiven n.lp o then Unlatched n.flags n.requested n.mcCount
      else (PromiscOn o.config ↔ asksPromisc n.requested n.mcCount = true)

variable {n : NetDevice} {w flags requested : BitVec 32} {mcCount : ℕ}

/-! ## Bits -/

/-- A single bit of a word. -/
theorem and_bit (w : BitVec 32) {i : ℕ} (hi : i < 32) : w &&& 1#32 <<< i = 0#32 ↔ w.getLsbD i = false := by
  rw [← BitVec.twoPow_eq, BitVec.and_twoPow]
  constructor
  · intro h
    by_contra hb
    rw [if_pos (by simpa using hb)] at h
    have hbit := congrArg (fun x : BitVec 32 => x.getLsbD i) h
    simp [hi] at hbit
  · intro hb
    rw [hb, if_neg (by simp)]

theorem promiscOn_iff : PromiscOn w ↔ w.getLsbD 4 = true := by
  unfold PromiscOn ETHERNET_CMD_PROMIS_EN
  rw [Ne, and_bit w (by omega), Bool.not_eq_false]

/-- The condition in terms of the two flags. -/
theorem asksPromisc_iff :
    asksPromisc flags mcCount = true ↔ flags.getLsbD 8 = true ∨ flags.getLsbD 9 = true ∨ mcCount > 1 := by
  have hflags : flags &&& (IFF_ALLMULTI ||| IFF_PROMISC) = 0#32 ↔ flags.getLsbD 9 = false ∧ flags.getLsbD 8 = false := by
    rw [BitVec.and_or_distrib_left, BitVec.or_eq_zero_iff]
    unfold IFF_ALLMULTI IFF_PROMISC
    rw [and_bit flags (by omega), and_bit flags (by omega)]
  unfold asksPromisc
  rw [Bool.or_eq_true, bne_iff_ne, Ne, hflags, decide_eq_true_iff]
  cases flags.getLsbD 8 <;> cases flags.getLsbD 9 <;> simp

theorem unlatched_iff : Unlatched flags requested mcCount ↔
    asksPromisc requested mcCount = true ∨ flags.getLsbD 8 = false := by
  unfold Unlatched IFF_PROMISC
  rw [and_bit flags (by omega)]

theorem writeBits_getLsbD (flags mask value : BitVec 32) (i : ℕ) :
    (writeBits flags mask value).getLsbD i = if mask.getLsbD i then value.getLsbD i else flags.getLsbD i := by
  unfold writeBits
  by_cases hi : i < 32
  · simp only [BitVec.getLsbD_or, BitVec.getLsbD_and, BitVec.getLsbD_not, hi, decide_true, Bool.true_and]
    cases mask.getLsbD i <;> simp
  · simp [BitVec.getLsbD_of_ge, Nat.not_lt.1 hi]

theorem or_promisc_getLsbD (flags : BitVec 32) (i : ℕ) :
    (flags ||| IFF_PROMISC).getLsbD i = (flags.getLsbD i || decide (i = 8)) := by
  unfold IFF_PROMISC
  rw [BitVec.getLsbD_or, ← BitVec.twoPow_eq, BitVec.getLsbD_twoPow]
  by_cases h8 : i = 8
  · subst h8
    simp
  · simp [h8, Ne.symm h8]

/-- Only the promiscuous bit changes. -/
theorem setMulticastList_others (s : TsemacLocal) (promisc : Bool) :
    (s.setMulticastList promisc).commandConfig &&& ~~~ETHERNET_CMD_PROMIS_EN =
      s.commandConfig &&& ~~~ETHERNET_CMD_PROMIS_EN := by
  unfold TsemacLocal.setMulticastList
  split
  · unfold TsemacLocal.set32bit
    simp only
    rw [BitVec.and_or_distrib_right]
    simp
  · unfold TsemacLocal.clear32bit
    simp only
    rw [BitVec.and_assoc, BitVec.and_self]

/-- And it becomes what was asked for. -/
theorem setMulticastList_promisc (s : TsemacLocal) (promisc : Bool) :
    PromiscOn (s.setMulticastList promisc).commandConfig ↔ promisc = true := by
  rw [promiscOn_iff]
  unfold TsemacLocal.setMulticastList TsemacLocal.set32bit TsemacLocal.clear32bit
  cases promisc with
  | true =>
    simp only [if_true, iff_true]
    rw [BitVec.getLsbD_or, show ETHERNET_CMD_PROMIS_EN.getLsbD 4 = true from by decide, Bool.or_true]
  | false =>
    simp only [Bool.false_eq_true, if_false, iff_false, Bool.not_eq_true]
    rw [BitVec.getLsbD_and, show (~~~ETHERNET_CMD_PROMIS_EN).getLsbD 4 = false from by decide, Bool.and_false]

/-! ## The command register -/

theorem initLoop_commandConfig {alloc : ℕ → Bool × Bool} (k i : ℕ) (s : TsemacLocal) :
    (TsemacLocal.initLoop alloc k i s).1.commandConfig = s.commandConfig := by
  induction k generalizing i s with
  | zero => rfl
  | succ k ih =>
    have hslot : (s.initSlot i (alloc i)).1.commandConfig = s.commandConfig := by
      unfold TsemacLocal.initSlot
      simp only
      split
      · split <;> rfl
      · rfl
    unfold TsemacLocal.initLoop
    simp only
    split
    · rw [ih, hslot]
    · exact hslot

/-- Releasing the receive ring changes only what it holds. -/
theorem releaseLoop_frame (k i : ℕ) (s : TsemacLocal) :
    ∃ skbs maps, TsemacLocal.releaseLoop k i s = { s with rxSkbs := skbs, rxMaps := maps } := by
  induction k generalizing i s with
  | zero => exact ⟨s.rxSkbs, s.rxMaps, rfl⟩
  | succ k ih =>
    unfold TsemacLocal.releaseLoop
    split
    · exact ⟨s.rxSkbs, s.rxMaps, rfl⟩
    · obtain ⟨skbs, maps, h⟩ := ih (i + 1) _
      exact ⟨skbs, maps, h⟩

theorem bdRelease_frame (s : TsemacLocal) :
    ∃ mem skbs maps, s.bdRelease = { s with txMem := false, rxMem := mem, rxSkbs := skbs, rxMaps := maps } := by
  unfold TsemacLocal.bdRelease
  simp only
  split
  · obtain ⟨skbs, maps, h⟩ := releaseLoop_frame s.rxBdNum 0 { s with txMem := false }
    exact ⟨false, skbs, maps, by rw [h]⟩
  · exact ⟨s.rxMem, s.rxSkbs, s.rxMaps, rfl⟩

theorem bdRelease_commandConfig (s : TsemacLocal) : s.bdRelease.commandConfig = s.commandConfig := by
  obtain ⟨mem, skbs, maps, h⟩ := bdRelease_frame s
  rw [h]

/-- Closing leaves the size of the ring. -/
theorem stop_rxBdNum (s : TsemacLocal) (config : BitVec 32) : (s.stop config).rxBdNum = s.rxBdNum := by
  unfold TsemacLocal.stop
  simp only
  obtain ⟨mem, skbs, maps, h⟩ := bdRelease_frame _
  rw [h]
  rfl

theorem bdInit_commandConfig (s : TsemacLocal) (rings : Option ℕ × Option ℕ) (alloc : ℕ → Bool × Bool) :
    (s.bdInit rings alloc).1.commandConfig = s.commandConfig := by
  unfold TsemacLocal.bdInit
  simp only
  split
  · rfl
  · split
    · rw [bdRelease_commandConfig]
      rfl
    · have hloop : ∀ k base rx, (TsemacLocal.initLoop alloc k 0 (s.resetIndexes.freshRings base rx)).1.commandConfig =
          s.commandConfig := by
        intro k base rx
        rw [initLoop_commandConfig, freshRings_eq]
        rfl
      split
      · exact hloop _ _ _
      · rw [bdRelease_commandConfig]
        exact hloop _ _ _

/-- What the reset makes of the promiscuous bit. -/
theorem deviceReset_promisc (s : TsemacLocal) (o : TsemacLocal.Opening) :
    ((s.deviceReset o).2 = 0 ↔ RingsGiven s o) ∧
      (PromiscOn (s.deviceReset o).1.commandConfig ↔
        if RingsGiven s o then o.promisc = true else PromiscOn o.config) := by
  have hret := bdInit_zero_iff (s := { s.macReset o.config with maxFrmSize := maxFrmSize o.mtu s.rxmem }) (o := o)
    (maxFrm_controlBytes_ne o.mtu s.rxmem)
  have hkeep := bdInit_commandConfig { s.macReset o.config with maxFrmSize := maxFrmSize o.mtu s.rxmem }
    o.rings o.alloc
  have hgiven : RingsGiven { s.macReset o.config with maxFrmSize := maxFrmSize o.mtu s.rxmem } o ↔
      RingsGiven s o := Iff.rfl
  rw [hgiven] at hret
  unfold TsemacLocal.deviceReset
  simp only
  generalize TsemacLocal.bdInit _ o.rings o.alloc = r at hret hkeep
  by_cases h : RingsGiven s o
  · rw [if_pos h, if_neg (not_not.2 (hret.2 h))]
    exact ⟨iff_of_true rfl h, setMulticastList_promisc _ _⟩
  · have hne : r.2 ≠ 0 := fun h0 => h (hret.1 h0)
    rw [if_neg h, if_pos hne, hkeep]
    exact ⟨iff_of_false hne h, Iff.rfl⟩

/-- The rest of `tsemac_open` leaves the bit. -/
theorem openRest_promisc (s : TsemacLocal) (o : TsemacLocal.Opening) :
    PromiscOn (s.openRest o).1.commandConfig ↔ PromiscOn s.commandConfig := by
  unfold TsemacLocal.openRest
  simp only
  split
  · exact Iff.rfl
  · split
    · exact Iff.rfl
    · split
      · exact Iff.rfl
      · rw [promiscOn_iff, promiscOn_iff]
        unfold TsemacLocal.set32bit
        simp only
        rw [BitVec.getLsbD_or, show (ETHERNET_CMD_TX_ENA ||| ETHERNET_CMD_RX_ENA ||| ETHERNET_CMD_CRC_FWD).getLsbD 4
          = false from by decide, Bool.or_false]

theorem openRest_zero_iff {s : TsemacLocal} {o : TsemacLocal.Opening} : (s.openRest o).2 = 0 ↔ ¬ LaterFails o := by
  constructor
  · intro h hlater
    exact (openRest_spec hlater).1 h
  · exact openRest_ok

/-! ## One event -/

namespace NetDevice

theorem asks_eq (hk : FlagsKept n.flags n.requested) : n.asks = true ↔
    asksPromisc n.requested n.mcCount = true ∨ n.flags.getLsbD 8 = true := by
  have h9 : n.flags.getLsbD 9 = n.requested.getLsbD 9 := hk.others 9 (by omega)
  unfold asks
  rw [asksPromisc_iff, asksPromisc_iff, h9]
  constructor
  · rintro (h8 | h)
    · exact Or.inr h8
    · exact Or.inl (Or.inr h)
  · rintro ((h8 | h) | h8)
    · exact Or.inl (hk.promisc h8)
    · exact Or.inr h
    · exact Or.inl h8

/-- What is asked for is what was requested exactly when no flag misleads. -/
theorem asks_iff_unlatched (hk : FlagsKept n.flags n.requested) :
    (n.asks = true ↔ asksPromisc n.requested n.mcCount = true) ↔ Unlatched n.flags n.requested n.mcCount := by
  rw [asks_eq hk, unlatched_iff]
  cases asksPromisc n.requested n.mcCount <;> cases n.flags.getLsbD 8 <;> simp

theorem setMulticastList_eq (n : NetDevice) :
    n.setMulticastList =
      { n with
        lp := n.lp.setMulticastList n.asks
        flags := if n.asks then n.flags ||| IFF_PROMISC else n.flags } := by
  unfold setMulticastList TsemacLocal.setMulticastList
  split <;> rfl

/-- The driver adds nothing but `IFF_PROMISC`. -/
theorem kept_or (hk : FlagsKept flags requested) (p : Prop) [Decidable p] :
    FlagsKept (if p then flags ||| IFF_PROMISC else flags) requested := by
  split
  · constructor
    · intro i hi
      rw [or_promisc_getLsbD, decide_eq_false hi, Bool.or_false]
      exact hk.others i hi
    · intro _
      rw [or_promisc_getLsbD]
      simp
  · exact hk

/-- The core writes both alike. -/
theorem kept_write (hk : FlagsKept flags requested) (mask value : BitVec 32) :
    FlagsKept (writeBits flags mask value) (writeBits requested mask value) := by
  constructor
  · intro i hi
    simp only [writeBits_getLsbD, hk.others i hi]
  · simp only [writeBits_getLsbD]
    split
    · exact id
    · exact hk.promisc

/-- **A call of `tsemac_set_multicast_list`** of an interface that is up. -/
theorem setRxMode_spec (hk : FlagsKept n.flags n.requested) :
    FlagsKept n.setRxMode.flags n.setRxMode.requested ∧
      (Follows n.setRxMode ↔ (n.running = true → Unlatched n.flags n.requested n.mcCount)) ∧
      n.setRxMode.lp.commandConfig &&& ~~~ETHERNET_CMD_PROMIS_EN = n.lp.commandConfig &&& ~~~ETHERNET_CMD_PROMIS_EN := by
  unfold setRxMode
  cases hup : n.running with
  | false =>
    refine ⟨hk, iff_of_true ?_ nofun, rfl⟩
    intro h
    exact absurd (hup.symm.trans h) (by decide)
  | true =>
    rw [if_pos rfl, setMulticastList_eq]
    refine ⟨kept_or hk _, ?_, setMulticastList_others _ _⟩
    rw [← asks_iff_unlatched hk]
    unfold Follows
    simp only [hup, true_implies]
    rw [setMulticastList_promisc]

theorem macLinkUp_spec (hk : FlagsKept n.flags n.requested) (speed : ℕ) (rxPause : Bool) :
    FlagsKept (n.macLinkUp speed rxPause).flags (n.macLinkUp speed rxPause).requested ∧
      (Follows (n.macLinkUp speed rxPause) ↔ Follows n) := by
  refine ⟨hk, ?_⟩
  have hbit : (n.macLinkUp speed rxPause).lp.commandConfig.getLsbD 4 = n.lp.commandConfig.getLsbD 4 := by
    have hspeed : (speedBits speed).getLsbD 4 = false := by
      unfold speedBits
      split
      · decide
      · split
        · decide
        · split <;> decide
    have hmask : (~~~ETH_SPEED_MASK).getLsbD 4 = true := by decide
    have hpause : ETHERNET_CMD_PAUSE_IGNORE.getLsbD 4 = false := by decide
    have hpause' : (~~~ETHERNET_CMD_PAUSE_IGNORE).getLsbD 4 = true := by decide
    unfold macLinkUp
    simp only
    split
    · rw [BitVec.getLsbD_and, BitVec.getLsbD_or, BitVec.getLsbD_and, hspeed, hmask, hpause', Bool.and_true,
        Bool.and_true, Bool.or_false]
    · rw [BitVec.getLsbD_or, BitVec.getLsbD_or, BitVec.getLsbD_and, hspeed, hmask, hpause, Bool.and_true,
        Bool.or_false, Bool.or_false]
  unfold Follows
  rw [promiscOn_iff, promiscOn_iff, hbit]
  exact Iff.rfl

/-- **An opening**, of whatever state the interface is in. -/
theorem open_spec (hk : FlagsKept n.flags n.requested) (o : TsemacLocal.Opening) :
    FlagsKept (n.open_ o).flags (n.open_ o).requested ∧
      (Follows (n.open_ o) ↔ (¬ LaterFails o →
        if RingsGiven n.lp o then Unlatched n.flags n.requested n.mcCount
        else (PromiscOn o.config ↔ asksPromisc n.requested n.mcCount = true))) := by
  obtain ⟨-, hreset⟩ := deviceReset_promisc n.lp { o with promisc := n.asks }
  have hbit : PromiscOn (n.open_ o).lp.commandConfig ↔
      if RingsGiven n.lp o then n.asks = true else PromiscOn o.config :=
    (openRest_promisc _ _).trans hreset
  have hup : (n.open_ o).running = true ↔ ¬ LaterFails o := by
    unfold open_ TsemacLocal.open_
    simp only [decide_eq_true_eq]
    exact openRest_zero_iff
  refine ⟨kept_or hk _, ?_⟩
  unfold Follows
  rw [hup, hbit]
  refine imp_congr_right fun _ => ?_
  by_cases h : RingsGiven n.lp o
  · rw [if_pos h, if_pos h]
    exact asks_iff_unlatched hk
  · rw [if_neg h, if_neg h]
    exact Iff.rfl

end NetDevice

/-- **One event** leaves the filter as requested exactly when it is not deceived by a flag. -/
theorem next_follows_iff (hk : FlagsKept n.flags n.requested) (hn : Follows n) (e : FilterEvent) :
    FlagsKept (n.next e).flags (n.next e).requested ∧ (Filtered n e ↔ Undeceived n e) := by
  cases e with
  | changeFlags mask value =>
    obtain ⟨hkept, hfollows, hothers⟩ := NetDevice.setRxMode_spec
      (n := { n with flags := writeBits n.flags mask value, requested := writeBits n.requested mask value })
      (NetDevice.kept_write hk mask value)
    exact ⟨hkept, fun h => hfollows.1 h.follows, fun h => ⟨hfollows.2 h, fun _ => hothers⟩⟩
  | changeList mcCount =>
    obtain ⟨hkept, hfollows, hothers⟩ := NetDevice.setRxMode_spec (n := { n with mcCount := mcCount }) hk
    exact ⟨hkept, fun h => hfollows.1 h.follows, fun h => ⟨hfollows.2 h, fun _ => hothers⟩⟩
  | linkUp speed rxPause =>
    obtain ⟨hkept, hfollows⟩ := NetDevice.macLinkUp_spec hk speed rxPause
    exact ⟨hkept, fun _ => trivial, fun _ => ⟨hfollows.2 hn, by rintro (⟨_, _, h⟩ | ⟨_, h⟩) <;> cases h⟩⟩
  | reopen config o =>
    have hopen : ∀ m : NetDevice, m.flags = n.flags → m.requested = n.requested → m.mcCount = n.mcCount →
        m.lp.rxBdNum = n.lp.rxBdNum → FlagsKept (m.open_ o).flags (m.open_ o).requested ∧
          (Follows (m.open_ o) ↔ Undeceived n (.reopen config o)) := by
      intro m hflags hrequested hmcCount hnum
      have h := NetDevice.open_spec (n := m) (by rw [hflags, hrequested]; exact hk) o
      have hgiven : RingsGiven m.lp o ↔ RingsGiven n.lp o := by
        unfold RingsGiven
        rw [hnum]
      simp only [hgiven, hflags, hrequested, hmcCount] at h
      exact h
    have hreopen : FlagsKept (n.reopen config o).flags (n.reopen config o).requested ∧
        (Follows (n.reopen config o) ↔ Undeceived n (.reopen config o)) := by
      unfold NetDevice.reopen
      split
      · exact hopen _ rfl rfl rfl (stop_rxBdNum n.lp config)
      · exact hopen _ rfl rfl rfl rfl
    exact ⟨hreopen.1, fun h => hreopen.2.1 h.follows,
      fun h => ⟨hreopen.2.2 h, by rintro (⟨_, _, h⟩ | ⟨_, h⟩) <;> cases h⟩⟩

/-- **The filter follows the requests** in a run exactly when no event of it is deceived by a flag. -/
theorem filter_follows_iff (n : NetDevice) (es : List FilterEvent) (hn : FilterStart n) :
    filterMachine.Along Filtered n es ↔ filterMachine.Along Undeceived n es := by
  refine Machine.along_iff (I := FilterStart) ?_ (fun m e hm _ => (next_follows_iff hm.kept hm.follows e).2) hn
    (Machine.along_true n es)
  rintro m e m' hm - hfiltered hstep
  cases Option.some.inj hstep
  exact ⟨(next_follows_iff hm.kept hm.follows e).1, hfiltered.follows⟩

/-! ## Runs -/

/-- An interface that was never opened, with the address of all hosts in its list. -/
def probedDevice : NetDevice :=
  { lp := .probed 64 128 0x1000 (fun b => 0x100000 + 0x800 * b), flags := 0x1002#32, mcCount := 1, running := false
    requested := 0x1002#32 }

/-- Opened, and then told to receive all multicast packets and no longer to. -/
def allmultiOnAndOff : List FilterEvent :=
  [.reopen 0#32 smoothOpening, .changeFlags IFF_ALLMULTI IFF_ALLMULTI, .changeFlags IFF_ALLMULTI 0#32]

theorem probed_start : FilterStart probedDevice := ⟨⟨fun _ _ => rfl, id⟩, nofun⟩

/-- The filter follows as long as all multicast packets are received. -/
theorem filter_follows_once :
    FilterStart probedDevice ∧ filterMachine.Along Filtered probedDevice (allmultiOnAndOff.take 2) := by
  refine ⟨probed_start, (filter_follows_iff probedDevice _ probed_start).2 ?_⟩
  unfold allmultiOnAndOff
  simp only [List.take, Machine.Along]
  refine ⟨fun _ => ?_, fun m hm => ⟨fun _ => Or.inl ?_, fun _ _ => trivial⟩⟩
  · rw [if_pos ⟨rfl, rfl, fun _ _ => rfl⟩]
    exact Or.inr (by decide)
  · cases Option.some.inj hm
    decide +kernel

/-- **Promiscuous mode sticks** once all multicast packets were asked for. -/
theorem promisc_sticks :
    FilterStart probedDevice ∧ ¬ filterMachine.Along Filtered probedDevice allmultiOnAndOff := by
  refine ⟨probed_start, ?_⟩
  intro h
  have hlast := ((h.2 _ rfl).2 _ rfl).1.follows (by decide +kernel)
  exact absurd (hlast.1 (promiscOn_iff.2 (by decide +kernel))) (by decide +kernel)

end Br2Efinix.Tsemac
