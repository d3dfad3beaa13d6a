import Mathlib.Data.Int.Notation
import Br2Efinix.Lib.History

/-!
# The configuration of the watchdog

The watchdog driver: the two counters with their limits, and the lock, which opens and closes by magic numbers
written to the heartbeat register. Counter 0 is the pretimeout and counter 1 the timeout.

* `Right.step`: what each operation keeps.
* `watchdog_iff`: **the configuration is right in every state** exactly where no pretimeout interrupt comes in, which
  is handled without unlocking, and no pretimeout is set that is not below the timeout.
-/

namespace Br2Efinix.Watchdog

def EINVAL : ℤ := 22
def EFX_WDT_MAX_TIME : ℕ := 65
def EFX_WDT_RESET : BitVec 32 := 0xAD68E70D#32
def EFX_WDT_UNLOCK : BitVec 32 := 0x3C21B925#32
def EFX_WDT_LOCK : BitVec 32 := 0x3C21B924#32
def EFX_WDT_ENA_COUNTER_0 : BitVec 32 := 1#32 <<< 0
def EFX_WDT_ENA_COUNTER_1 : BitVec 32 := 1#32 <<< 1
def WDOG_ACTIVE : ℕ := 0
def WDOG_HW_RUNNING : ℕ := 3
def WDOG_STOP_ON_UNREGISTER : ℕ := 4

/-! ## The driver -/

/-- The registers behind the lock. -/
inductive Reg
  | enable
  | disabled
  | counter0
  | counter1
  deriving DecidableEq, Repr

/-- A write to one of them, and whether the device was unlocked. -/
structure Write where
  reg : Reg
  value : BitVec 32
  unlocked : Bool
  deriving DecidableEq, Repr

/-- The fields of `struct watchdog_device` that the driver uses, and the device. Only observed are the writes. -/
structure Wdt where
  timeout : ℕ
  pretimeout : ℕ
  minTimeout : ℕ
  status : BitVec 64
  unlocked : Bool
  prescaler : BitVec 32
  counter0 : BitVec 32
  counter1 : BitVec 32
  writes : List Write
  deriving DecidableEq, Repr

namespace Wdt

/-- A write of the heartbeat register. -/
def heartbeat (w : Wdt) (value : BitVec 32) : Wdt :=
  if value = EFX_WDT_UNLOCK then { w with unlocked := true }
  else if value = EFX_WDT_LOCK then { w with unlocked := false }
  else w

/-- A write of a register behind the lock. -/
def writel (w : Wdt) (value : BitVec 32) (reg : Reg) : Wdt :=
  { w with
    counter0 := if reg = .counter0 then value else w.counter0
    counter1 := if reg = .counter1 then value else w.counter1
    writes := w.writes ++ [⟨reg, value, w.unlocked⟩] }

/-- `efx_wdt_unlock`. -/
def unlock (w : Wdt) : Wdt := w.heartbeat EFX_WDT_UNLOCK

/-- `efx_wdt_lock`. -/
def lock (w : Wdt) : Wdt := w.heartbeat EFX_WDT_LOCK

/-- `efx_wdt_set_counter_limit`, for counter 0 or 1. -/
def setCounterLimit (w : Wdt) (limit counter : ℕ) : Wdt :=
  let counterReg := if counter = 0 then .counter0 else .counter1
  let value := BitVec.ofNat 32 (limit * 1000 + 1)
  (w.unlock.writel value counterReg).lock

/-- `set_bit` on the status. -/
def setBit (w : Wdt) (nr : ℕ) : Wdt := { w with status := w.status ||| 1#64 <<< nr }

/-- `efx_wdt_start`, which takes the two numbers of the bits for their masks. -/
def start (w : Wdt) : Wdt :=
  (w.unlock.writel (EFX_WDT_ENA_COUNTER_0 ||| EFX_WDT_ENA_COUNTER_1) .enable).lock.setBit
    (WDOG_HW_RUNNING ||| WDOG_ACTIVE)

/-- `efx_wdt_ping`. -/
def ping (w : Wdt) : Wdt := w.heartbeat EFX_WDT_RESET

/-- `efx_wdt_stop`. -/
def stop (w : Wdt) : Wdt :=
  (w.unlock.writel (EFX_WDT_ENA_COUNTER_0 ||| EFX_WDT_ENA_COUNTER_1) .disabled).lock.setBit WDOG_STOP_ON_UNREGISTER

/-- `efx_wdt_set_pretimeout`. -/
def setPretimeout (w : Wdt) (pretimeout : ℕ) : Wdt :=
  let actual := min pretimeout w.timeout
  { w with pretimeout := actual }.setCounterLimit actual 0

/-- `efx_wdt_set_timeout`. -/
def setTimeout (w : Wdt) (newTimeout : ℕ) : Wdt :=
  let actual := min newTimeout EFX_WDT_MAX_TIME
  ({ w with timeout := actual }.setCounterLimit actual 1).setPretimeout (actual / 2)

/-- `efx_wdt_restart`. -/
def restart (w : Wdt) : Wdt :=
  ((w.stop.ping.setCounterLimit w.minTimeout 1).unlock.writel EFX_WDT_ENA_COUNTER_1 .enable).lock

/-- `efx_wdt_isr`. -/
def isr (w : Wdt) : Wdt := w.writel (~~~EFX_WDT_ENA_COUNTER_0) .enable

end Wdt

/-- What `efx_wdt_probe` leaves of a device, where `timeout` is the one after `watchdog_init_timeout`. -/
def probe (device : Wdt) (clkRate timeout : ℕ) : Except ℤ Wdt :=
  if clkRate = 0 then .error (-EINVAL)
  else
    let prescaler := BitVec.ofNat 32 (clkRate / 1000) - 1#32
    let w : Wdt :=
      { device with
        timeout := timeout, pretimeout := 0, minTimeout := 1, status := 0#64, prescaler := prescaler, writes := [] }
    let w := w.setTimeout timeout
    let w := w.setPretimeout (w.timeout / 2)
    .ok w.stop.lock

/-! ## Runs -/

inductive Act
  | start
  | stop
  | ping
  | setTimeout (newTimeout : ℕ)
  | setPretimeout (pretimeout : ℕ)
  | restart
  | pretimeoutIrq
  deriving DecidableEq, Repr

def Wdt.apply (w : Wdt) : Act → Wdt
  | .start => w.start
  | .stop => w.stop
  | .ping => w.ping
  | .setTimeout newTimeout => w.setTimeout newTimeout
  | .setPretimeout pretimeout => w.setPretimeout pretimeout
  | .restart => w.restart
  | .pretimeoutIrq => w.isr

def Wdt.run (w : Wdt) (acts : List Act) : Wdt := acts.foldl Wdt.apply w

/-- The watchdog core asks for a timeout of a second at least. -/
def Act.Passed : Act → Prop
  | .setTimeout newTimeout => 1 ≤ newTimeout
  | _ => True

/-- A restart gives counter 1 the least limit, until the timeout is set again. -/
def Act.restarts : Act → Option Bool
  | .restart => some true
  | .setTimeout _ => some false
  | _ => none

def restarting (acts : List Act) : Bool := lastOf Act.restarts false acts

/-- The configuration is right. -/
structure Right (restarting : Bool) (w : Wdt) : Prop where
  timeout_le : w.timeout ≤ EFX_WDT_MAX_TIME
  pretimeout_le : w.pretimeout ≤ w.timeout
  limits : restarting = false →
    w.counter0.toNat = w.pretimeout * 1000 + 1 ∧ w.counter1.toNat = w.timeout * 1000 + 1
  below : restarting = false → 0 < w.counter0.toNat ∧ w.counter0.toNat < w.counter1.toNat
  unlocked : ∀ wr ∈ w.writes, wr.unlocked = true
  locked : w.unlocked = false

/-- The pretimeout is not 0. -/
def Nonzero (restarting : Bool) (w : Wdt) : Prop := restarting = false → 0 < w.pretimeout

/-- No pretimeout interrupt, and no pretimeout that is not below the timeout. -/
def Fine (w₀ : Wdt) (before : List Act) : Act → Prop
  | .pretimeoutIrq => False
  | .setPretimeout pretimeout => restarting before = false → pretimeout < (w₀.run before).timeout
  | _ => True

/-- No pretimeout of 0, nor a timeout that is halved to 0. -/
def FineNonzero (before : List Act) : Act → Prop
  | .setTimeout newTimeout => 2 ≤ newTimeout
  | .setPretimeout pretimeout => restarting before = false → 0 < pretimeout
  | _ => True

variable {w w₀ : Wdt} {acts : List Act} {r : Bool}

theorem run_concat (w : Wdt) (acts : List Act) (a : Act) : w.run (acts ++ [a]) = (w.run acts).apply a :=
  foldl_concat _ _ _ _

theorem restarting_concat (acts : List Act) (a : Act) :
    restarting (acts ++ [a]) = a.restarts.getD (restarting acts) := lastOf_concat _ _ _ _

/-! ## What an operation does -/

/-- A guarded write: unlock, write and lock. -/
theorem guarded_write (w : Wdt) (value : BitVec 32) (reg : Reg) :
    (w.unlock.writel value reg).lock =
      { w with
        unlocked := false
        counter0 := if reg = .counter0 then value else w.counter0
        counter1 := if reg = .counter1 then value else w.counter1
        writes := w.writes ++ [⟨reg, value, true⟩] } := rfl

theorem limit_toNat {limit : ℕ} (h : limit ≤ EFX_WDT_MAX_TIME) :
    (BitVec.ofNat 32 (limit * 1000 + 1)).toNat = limit * 1000 + 1 := by
  unfold EFX_WDT_MAX_TIME at h
  rw [BitVec.toNat_ofNat]
  exact Nat.mod_eq_of_lt (by omega)

theorem setPretimeout_eq (w : Wdt) (pretimeout : ℕ) :
    w.setPretimeout pretimeout =
      { w with
        pretimeout := min pretimeout w.timeout
        unlocked := false
        counter0 := BitVec.ofNat 32 (min pretimeout w.timeout * 1000 + 1)
        writes := w.writes ++ [⟨.counter0, BitVec.ofNat 32 (min pretimeout w.timeout * 1000 + 1), true⟩] } := rfl

theorem setTimeout_eq (w : Wdt) (newTimeout : ℕ) :
    w.setTimeout newTimeout =
      ({ w with
        timeout := min newTimeout EFX_WDT_MAX_TIME
        counter1 := BitVec.ofNat 32 (min newTimeout EFX_WDT_MAX_TIME * 1000 + 1)
        unlocked := false
        writes := w.writes ++
          [⟨.counter1, BitVec.ofNat 32 (min newTimeout EFX_WDT_MAX_TIME * 1000 + 1), true⟩] } : Wdt).setPretimeout
        (min newTimeout EFX_WDT_MAX_TIME / 2) := rfl

theorem unlocked_concat {wr : Write} {writes : List Write} (h : ∀ wr ∈ writes, wr.unlocked = true)
    (hwr : wr.unlocked = true) : ∀ wr' ∈ writes ++ [wr], wr'.unlocked = true := by
  intro wr' hmem
  rcases List.mem_append.1 hmem with hold | hnew
  · exact h wr' hold
  · rw [List.mem_singleton.1 hnew]
    exact hwr

/-- **A pretimeout** is right exactly if it is below the timeout. -/
theorem right_setPretimeout_iff (h : Right r w) (pretimeout : ℕ) :
    Right r (w.setPretimeout pretimeout) ↔ (r = false → pretimeout < w.timeout) := by
  have hle : min pretimeout w.timeout ≤ w.timeout := Nat.min_le_right _ _
  have hlimit := limit_toNat (Nat.le_trans hle h.timeout_le)
  rw [setPretimeout_eq]
  constructor
  · intro h' hr
    have hbelow := (h'.below hr).2
    have htimeout := (h.limits hr).2
    simp only [hlimit, htimeout] at hbelow
    omega
  · intro hp
    refine ⟨h.timeout_le, hle, ?_, ?_, unlocked_concat h.unlocked rfl, rfl⟩
    · intro hr
      exact ⟨hlimit, (h.limits hr).2⟩
    · intro hr
      have hlt := hp hr
      have htimeout := (h.limits hr).2
      simp only [hlimit, htimeout]
      omega

/-- **A timeout** of a second at least is right, from any limits. -/
theorem right_setTimeout (hunlocked : ∀ wr ∈ w.writes, wr.unlocked = true) {newTimeout : ℕ} (h : 1 ≤ newTimeout) :
    Right false (w.setTimeout newTimeout) := by
  have hle : min newTimeout EFX_WDT_MAX_TIME ≤ EFX_WDT_MAX_TIME := Nat.min_le_right _ _
  have hpos : 1 ≤ min newTimeout EFX_WDT_MAX_TIME := Nat.le_min.2 ⟨h, by decide⟩
  have htimeout := limit_toNat hle
  rw [setTimeout_eq, setPretimeout_eq]
  generalize min newTimeout EFX_WDT_MAX_TIME = timeout at hle hpos htimeout ⊢
  have hhalf : min (timeout / 2) timeout = timeout / 2 := Nat.min_eq_left (Nat.div_le_self _ _)
  have hlimit := limit_toNat (Nat.le_trans (Nat.div_le_self timeout 2) hle)
  simp only [hhalf]
  refine ⟨hle, Nat.div_le_self _ _, ?_, ?_, ?_, rfl⟩
  · intro _
    exact ⟨hlimit, htimeout⟩
  · intro _
    simp only [hlimit, htimeout]
    omega
  · exact unlocked_concat (unlocked_concat hunlocked rfl) rfl

/-- The two writes that switch the counters on or off. -/
theorem Right.write {reg : Reg} (h : Right r w) (value : BitVec 32) (h0 : reg ≠ .counter0) (h1 : reg ≠ .counter1)
    (nr : ℕ) : Right r ((w.unlock.writel value reg).lock.setBit nr) := by
  rw [guarded_write, if_neg h0, if_neg h1]
  exact ⟨h.timeout_le, h.pretimeout_le, h.limits, h.below, unlocked_concat h.unlocked rfl, rfl⟩

/-- While restarting the limits are not looked at. -/
theorem right_restart (h : Right r w) : Right true w.restart := by
  have hstop : Right r w.stop := h.write _ (by decide) (by decide) _
  have hping : Right r w.stop.ping := hstop
  unfold Wdt.restart Wdt.setCounterLimit
  simp only
  rw [guarded_write, guarded_write]
  refine ⟨hping.timeout_le, hping.pretimeout_le, nofun, nofun, ?_, rfl⟩
  exact unlocked_concat (unlocked_concat hping.unlocked rfl) rfl

/-- **One step**: a right configuration stays right exactly if the operation is fine. -/
theorem Right.step {a : Act} (hpassed : a.Passed) (h : Right (restarting acts) (w₀.run acts)) :
    Right (restarting (acts ++ [a])) (w₀.run (acts ++ [a])) ↔ Fine w₀ acts a := by
  rw [run_concat, restarting_concat]
  cases a with
  | start => exact ⟨fun _ => trivial, fun _ => h.write _ (by decide) (by decide) _⟩
  | stop => exact ⟨fun _ => trivial, fun _ => h.write _ (by decide) (by decide) _⟩
  | ping => exact ⟨fun _ => trivial, fun _ => h⟩
  | setTimeout newTimeout => exact ⟨fun _ => trivial, fun _ => right_setTimeout h.unlocked hpassed⟩
  | setPretimeout pretimeout => exact right_setPretimeout_iff h pretimeout
  | restart => exact ⟨fun _ => trivial, fun _ => right_restart h⟩
  | pretimeoutIrq =>
    -- the device is locked, and the handler does not unlock it
    refine ⟨fun h' => ?_, False.elim⟩
    have hwrite := h'.unlocked ⟨.enable, ~~~EFX_WDT_ENA_COUNTER_0, (w₀.run acts).unlocked⟩
      (List.mem_append_right _ (List.mem_singleton_self _))
    exact absurd (h.locked.symm.trans hwrite) Bool.false_ne_true

/-- The pretimeout stays above 0 exactly if the operation says so. -/
theorem Nonzero.step {a : Act} (hpos : Nonzero (restarting acts) (w₀.run acts)) (hfine : Fine w₀ acts a) :
    Nonzero (restarting (acts ++ [a])) (w₀.run (acts ++ [a])) ↔ FineNonzero acts a := by
  rw [run_concat, restarting_concat]
  cases a with
  | start => exact ⟨fun _ => trivial, fun _ => hpos⟩
  | stop => exact ⟨fun _ => trivial, fun _ => hpos⟩
  | ping => exact ⟨fun _ => trivial, fun _ => hpos⟩
  | setTimeout newTimeout =>
    have hhalf : ((w₀.run acts).setTimeout newTimeout).pretimeout =
        min (min newTimeout EFX_WDT_MAX_TIME / 2) (min newTimeout EFX_WDT_MAX_TIME) := rfl
    constructor
    · intro h'
      have h0 := h' rfl
      change 0 < ((w₀.run acts).setTimeout newTimeout).pretimeout at h0
      unfold FineNonzero
      unfold EFX_WDT_MAX_TIME at hhalf
      omega
    · intro h2 _
      change 0 < ((w₀.run acts).setTimeout newTimeout).pretimeout
      unfold FineNonzero at h2
      unfold EFX_WDT_MAX_TIME at hhalf
      omega
  | setPretimeout pretimeout =>
    have heq : ((w₀.run acts).setPretimeout pretimeout).pretimeout = min pretimeout (w₀.run acts).timeout := rfl
    constructor
    · intro h' hr
      have h0 : 0 < ((w₀.run acts).setPretimeout pretimeout).pretimeout := h' hr
      omega
    · intro h0 hr
      have hlt : pretimeout < (w₀.run acts).timeout := hfine hr
      have hp := h0 hr
      change 0 < ((w₀.run acts).setPretimeout pretimeout).pretimeout
      omega
  | restart => exact ⟨fun _ => trivial, fun _ => nofun⟩
  | pretimeoutIrq => exact hfine.elim

/-! ## From the probe on -/

/-- **The probe** leaves a right configuration; its pretimeout is half the timeout. -/
theorem probe_right {device : Wdt} {clkRate timeout : ℕ} (htimeout : 1 ≤ timeout)
    (hprobe : probe device clkRate timeout = .ok w₀) : Right false w₀ ∧ (Nonzero false w₀ ↔ 2 ≤ timeout) := by
  have hconfigure : ∀ w : Wdt, w.writes = [] →
      Right false ((w.setTimeout timeout).setPretimeout ((w.setTimeout timeout).timeout / 2)).stop.lock ∧
        ((w.setTimeout timeout).setPretimeout ((w.setTimeout timeout).timeout / 2)).stop.lock.pretimeout =
          min (min timeout EFX_WDT_MAX_TIME / 2) (min timeout EFX_WDT_MAX_TIME) := by
    intro w hwrites
    refine ⟨?_, rfl⟩
    have hset : Right false (w.setTimeout timeout) :=
      right_setTimeout (fun wr hmem => by rw [hwrites] at hmem; cases hmem) htimeout
    have hpos : 0 < (w.setTimeout timeout).timeout :=
      Nat.lt_of_lt_of_le Nat.zero_lt_one (Nat.le_min.2 ⟨htimeout, by decide⟩)
    have hpre := (right_setPretimeout_iff hset ((w.setTimeout timeout).timeout / 2)).2 fun _ => by omega
    exact hpre.write _ (by decide) (by decide) _
  unfold probe at hprobe
  simp only at hprobe
  split at hprobe
  · cases hprobe
  · obtain ⟨hright, hhalf⟩ := hconfigure
      { device with
        timeout := timeout, pretimeout := 0, minTimeout := 1, status := 0#64,
        prescaler := BitVec.ofNat 32 (clkRate / 1000) - 1#32, writes := [] } rfl
    have heq := Except.ok.inj hprobe
    rw [heq] at hright hhalf
    refine ⟨hright, ?_⟩
    unfold EFX_WDT_MAX_TIME at hhalf
    constructor
    · intro h
      have h0 := h rfl
      omega
    · intro h _
      omega

/-- **The configuration of the watchdog** over every run after the probe: it is right in every state exactly where
each operation is fine, and the pretimeout is never 0 exactly where no operation makes it so. -/
theorem watchdog_iff {device : Wdt} {clkRate timeout : ℕ} (htimeout : 1 ≤ timeout)
    (hprobe : probe device clkRate timeout = .ok w₀) (hpassed : ∀ a ∈ acts, a.Passed) :
    (Always (fun as => Right (restarting as) (w₀.run as)) acts ↔ Along (Fine w₀) acts) ∧
      (Always (fun as => Right (restarting as) (w₀.run as) ∧ Nonzero (restarting as) (w₀.run as)) acts ↔
        2 ≤ timeout ∧ Along (fun before a => Fine w₀ before a ∧ FineNonzero before a) acts) := by
  obtain ⟨hright, hnonzero⟩ := probe_right htimeout hprobe
  have hadmitted : Along (fun _ => Act.Passed) acts := along_of_forall hpassed
  refine ⟨always_iff_along hright (fun before a ha h => h.step ha) hadmitted, ?_⟩
  have hboth : 2 ≤ timeout →
      (Always (fun as => Right (restarting as) (w₀.run as) ∧ Nonzero (restarting as) (w₀.run as)) acts ↔
        Along (fun before a => Fine w₀ before a ∧ FineNonzero before a) acts) := by
    intro h2
    refine always_iff_along ⟨hright, hnonzero.2 h2⟩ ?_ hadmitted
    rintro before a ha ⟨h, hpos⟩
    rw [h.step ha]
    constructor
    · rintro ⟨hfine, hpos'⟩
      exact ⟨hfine, (hpos.step hfine).1 hpos'⟩
    · rintro ⟨hfine, hzero⟩
      exact ⟨hfine, (hpos.step hfine).2 hzero⟩
  constructor
  · intro h
    have h2 := hnonzero.1 (h [] acts rfl).2
    exact ⟨h2, (hboth h2).1 h⟩
  · rintro ⟨h2, h⟩
    exact (hboth h2).2 h

/-- A device out of reset, and what the probe makes of it at 100 MHz and 60 seconds. -/
def device : Wdt := ⟨0, 0, 0, 0#64, false, 0#32, 0#32, 0#32, []⟩

def probed : Wdt :=
  (((⟨60, 0, 1, 0#64, false, 99999#32, 0#32, 0#32, []⟩ : Wdt).setTimeout 60).setPretimeout 30).stop.lock

theorem probe_device : probe device 100000000 60 = .ok probed := rfl

/-- A run that sets the timeout to 10 seconds and the pretimeout to 9. -/
theorem watchdog_of_ten :
    Always (fun as => Right (restarting as) (probed.run as) ∧ Nonzero (restarting as) (probed.run as))
      [.start, .setTimeout 10, .setPretimeout 9, .ping] := by
  have hpassed : ∀ a ∈ [Act.start, .setTimeout 10, .setPretimeout 9, .ping], a.Passed := by
    simp [Act.Passed]
  refine (watchdog_iff (by decide) probe_device hpassed).2.2 ⟨by decide, ?_⟩
  have hlt : 9 < (probed.run [.start, .setTimeout 10]).timeout := by decide
  refine along_cons.2 ⟨⟨trivial, trivial⟩, along_cons.2 ⟨⟨trivial, ?_⟩, along_cons.2 ⟨⟨fun _ => hlt, ?_⟩, ?_⟩⟩⟩
  · exact show 2 ≤ 10 by decide
  · exact fun _ => show 0 < 9 by decide
  · exact along_cons.2 ⟨⟨trivial, trivial⟩, along_nil _⟩

/-- **The first pretimeout interrupt** writes the enables of a locked device; and a pretimeout of 60 seconds gives
both counters one limit. -/
theorem watchdog_interrupted :
    ¬ Always (fun as => Right (restarting as) (probed.run as)) [.start, .pretimeoutIrq] ∧
      ⟨.enable, 0xFFFFFFFE#32, false⟩ ∈ (probed.run [.start, .pretimeoutIrq]).writes ∧
      (probed.run [.setPretimeout 60]).counter0 = (probed.run [.setPretimeout 60]).counter1 := by
  have hwrite : ⟨.enable, 0xFFFFFFFE#32, false⟩ ∈ (probed.run [.start, .pretimeoutIrq]).writes := by decide
  refine ⟨?_, hwrite, by decide⟩
  intro h
  exact absurd (h.self.unlocked _ hwrite) Bool.false_ne_true

end Br2Efinix.Watchdog
