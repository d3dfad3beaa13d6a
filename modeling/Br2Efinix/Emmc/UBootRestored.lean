import Br2Efinix.Emmc.UBootRecover

/-!
# What `efx_emmc_recover` restores

The divider is computed again from `current_clk`, which is the base clock divided and rounded
down; the bus mode from `struct mmc`; the phases from the host's fields.

* `divider_fixed_iff`: **the divider is found again exactly when it divides the base clock.**
* `recovery_restores`: in every run whose widths are those that the bus has and whose tunings
  leave the point that they store, the configuration survives any number of failed commands
  **exactly when the clock in force has such a divider**; and it has in every run whose clocks do.
* `recovery_slows_down`: with a base clock of 50 MHz the first failed command changes the
  clock of the probe.
* `recovery_drops_phase`: a tuning that finds nothing leaves its last point in place, until a
  command fails.
-/

namespace Br2Efinix.Emmc.UBoot

/-! ## The property -/

/-- The clock gate and divider, the bus mode, the interrupt enables, the receive sample and PLL
phase, the transmit clock shift, and the clock on record. -/
structure DevConfig where
  clkEn : Bool
  clkDivField : ℕ
  dataWidth : ℕ
  ddrBit : Bool
  intStatusEn : ℕ
  intSignalEn : ℕ
  sample : ℕ
  rxShift : ℕ
  txShift : ℕ
  currentClk : ℕ
  deriving DecidableEq, Repr

def Dev.config (m : Dev) : DevConfig :=
  { clkEn := m.clkEn, clkDivField := m.clkDivField, dataWidth := m.dataWidth, ddrBit := m.ddrBit
    intStatusEn := m.intStatusEn, intSignalEn := m.intSignalEn, sample := m.baseReg1 >>> 16
    rxShift := m.port EFX_EMMC_BASE_CLK_CAL_PORT, txShift := m.port EFX_EMMC_BASE_CLK_SHIFT_PORT
    currentClk := m.currentClk }

/-- The configuration survives any number of failed commands. -/
def Restored (m : Dev) : Prop := ∀ rs : List Reset, (rs.foldl Dev.recover m).config = m.config

/-! ## The condition -/

/-- The clock is on, and its divider divides the base clock. -/
def Exact (baseClk clock : ℕ) : Prop := clock ≠ 0 ∧ divider baseClk clock ∣ baseClk

/-- The bus can be set to the width, or the width is unset and the bus is 1 bit wide already. -/
def Dev.BusKnown (m : Dev) (mmc : Mmc) : Prop :=
  (widthField mmc.busWidth).isSome ∨
    (mmc.busWidth = 0 ∧ m.dataWidth = EFX_EMMC_DATA_WIDTH_1BIT ∧ m.ddrBit = mmc.ddrMode)

/-- A tuning finds a point, or does not get to its scan, or the last command of its scan fails. -/
def Dev.Settles (m : Dev) (opcode : ℕ) (env : TuneEnv) : Prop :=
  (UBoot.executeTuning env.callocOk m.host opcode m.clkDivField m.mmc.ddrMode env.probes).1 ≠ - EIO ∨
    (env.failed (m.clkDivField - 1) (EFX_EMMC_TUNING_PLL_SHIFTS - 1)).isSome

/-- What the steps of a run have to meet. -/
def Restorable (m : Dev) : DevAct → Prop
  | .setIos mmc env =>
    m.BusKnown mmc ∧
      (mmc.selectedMode = .mmcHs400 → (m.setMode mmc).hs400Tuned = false →
        (m.setMode mmc).Settles MMC_CMD_SEND_TUNING_BLOCK_HS200 env)
  | .executeTuning opcode env => m.Settles opcode env
  | .fail _ => True

/-- A step asks for the clock in force, or for one whose divider divides the base clock. -/
def ExactClock (m : Dev) : DevAct → Prop
  | .setIos mmc _ => mmc.clock = m.currentClk ∨ Exact m.baseClk mmc.clock
  | _ => True

/-- What the state has to meet: the clock is on, its divider divides the base clock, and the quotient is on record. -/
structure ClockSound (m : Dev) : Prop where
  base : 0 < m.baseClk
  clkEn : m.clkEn = true
  exact_ : Exact m.baseClk m.currentClk
  current : m.currentClk = m.baseClk / divider m.baseClk m.currentClk
  field : m.clkDivField = divider m.baseClk m.currentClk &&& EFX_EMMC_BASE_REG0_CLK_DIV_MASK

instance (baseClk clock : ℕ) : Decidable (Exact baseClk clock) := by unfold Exact; infer_instance

instance (m : Dev) : Decidable (ClockSound m) :=
  decidable_of_iff
    (0 < m.baseClk ∧ m.clkEn = true ∧ Exact m.baseClk m.currentClk ∧
      m.currentClk = m.baseClk / divider m.baseClk m.currentClk ∧
      m.clkDivField = divider m.baseClk m.currentClk &&& EFX_EMMC_BASE_REG0_CLK_DIV_MASK)
    ⟨fun ⟨hbase, hclkEn, hexact, hcurrent, hfield⟩ => ⟨hbase, hclkEn, hexact, hcurrent, hfield⟩,
      fun h => ⟨h.base, h.clkEn, h.exact_, h.current, h.field⟩⟩

instance (m : Dev) (mmc : Mmc) : Decidable (m.BusKnown mmc) := by unfold Dev.BusKnown; infer_instance

instance (m : Dev) (opcode : ℕ) (env : TuneEnv) : Decidable (m.Settles opcode env) := by
  unfold Dev.Settles
  infer_instance

instance : ∀ m a, Decidable (Restorable m a)
  | m, .setIos mmc env => by unfold Restorable; infer_instance
  | m, .executeTuning opcode env => inferInstanceAs (Decidable (m.Settles opcode env))
  | _, .fail _ => isTrue trivial

/-! ## The divider -/

section Divider

variable {baseClk clock : ℕ}

/-- The clock that `efx_emmc_set_clock` divides for. -/
def capped (clock : ℕ) : ℕ := if clock > EFX_EMMC_MAX_FREQ then EFX_EMMC_MAX_FREQ else clock

/-- The divider is 1, or even and the smallest that does not exceed the clock. -/
theorem divider_cases (baseClk clock : ℕ) :
    (baseClk ≤ capped clock ∧ divider baseClk clock = 1) ∨
      (capped clock < baseClk ∧
        divider baseClk clock = (baseClk + capped clock - 1) / capped clock +
          if (baseClk + capped clock - 1) / capped clock > 1 ∧
            (baseClk + capped clock - 1) / capped clock % 2 = 1 then 1 else 0) := by
  unfold divider
  simp only
  rw [← capped]
  by_cases hge : capped clock ≥ baseClk
  · rw [if_pos hge]
    exact Or.inl ⟨hge, rfl⟩
  · rw [if_neg hge]
    refine Or.inr ⟨by omega, ?_⟩
    split <;> rfl

theorem capped_pos (h : clock ≠ 0) : 0 < capped clock := by
  unfold capped EFX_EMMC_MAX_FREQ
  split <;> omega

theorem capped_eq {q : ℕ} (h : q ≤ capped clock) : capped q = q := by
  unfold capped at *
  split
  · split at h <;> omega
  · rfl

/-- Divided, the base clock does not exceed the clock. -/
theorem base_le_mul (h : clock ≠ 0) : baseClk ≤ divider baseClk clock * capped clock := by
  have hpos := capped_pos h
  rcases divider_cases baseClk clock with ⟨hle, hone⟩ | ⟨-, hd⟩
  · rw [hone]
    omega
  · have hceil : baseClk ≤ (baseClk + capped clock - 1) / capped clock * capped clock := by
      have hlt := Nat.lt_mul_div_succ (baseClk + capped clock - 1) hpos
      rw [Nat.mul_add, Nat.mul_comm] at hlt
      omega
    have hmul : (baseClk + capped clock - 1) / capped clock * capped clock ≤
        divider baseClk clock * capped clock := by
      apply Nat.mul_le_mul_right
      rw [hd]
      omega
    omega

theorem divider_pos (hbase : 0 < baseClk) (h : clock ≠ 0) : 0 < divider baseClk clock := by
  have hmul : baseClk ≤ divider baseClk clock * capped clock := base_le_mul h
  rcases Nat.eq_zero_or_pos (divider baseClk clock) with hzero | hpos
  · rw [hzero] at hmul
    omega
  · exact hpos

/-- A clock that divides exactly has its quotient as its divider, rounded up to an even one. -/
theorem divider_mul {d q : ℕ} (hq : 0 < q) (hcap : capped q = q) (hd : d = 1 ∨ d % 2 = 0) (hd0 : 0 < d) :
    divider (q * d) q = d := by
  rcases divider_cases (q * d) q with ⟨hle, hone⟩ | ⟨hlt, heq⟩
  · rw [hcap] at hle
    rw [hone]
    have := Nat.le_of_mul_le_mul_left (show q * d ≤ q * 1 by omega) hq
    omega
  · rw [hcap] at hlt heq
    have hceil : (q * d + q - 1) / q = d := by
      rw [show q * d + q - 1 = q * d + (q - 1) by omega, Nat.mul_add_div hq,
        Nat.div_eq_of_lt (by omega), Nat.add_zero]
    rw [heq, hceil, if_neg (by omega), Nat.add_zero]

/-- Unless the base clock is a multiple, the next divider is larger. -/
theorem divider_gt {d q : ℕ} (hq : 0 < q) (hcap : capped q = q) (hd : 0 < d) (h : q * d < baseClk) :
    d < divider baseClk q := by
  have hqd : q * 1 ≤ q * d := Nat.mul_le_mul_left q hd
  rcases divider_cases baseClk q with ⟨hle, -⟩ | ⟨-, heq⟩
  · omega
  · rw [heq, hcap]
    have hceil : d + 1 ≤ (baseClk + q - 1) / q := by
      rw [Nat.le_div_iff_mul_le hq, Nat.mul_comm, Nat.mul_add]
      omega
    omega

theorem divider_even (baseClk clock : ℕ) : divider baseClk clock = 1 ∨ divider baseClk clock % 2 = 0 := by
  rcases divider_cases baseClk clock with ⟨-, hone⟩ | ⟨-, heq⟩
  · exact Or.inl hone
  · generalize (baseClk + capped clock - 1) / capped clock = d at heq
    split at heq <;> omega

/-- The quotient is again a clock that is not limited. -/
theorem capped_quotient (h : clock ≠ 0) :
    capped (baseClk / divider baseClk clock) = baseClk / divider baseClk clock :=
  capped_eq (Nat.div_le_of_le_mul (base_le_mul h))

/-- **The divider is found again** from the quotient exactly when it divides the base clock. -/
theorem divider_fixed_iff (hbase : 0 < baseClk) (h : clock ≠ 0) :
    divider baseClk (baseClk / divider baseClk clock) = divider baseClk clock ↔
      divider baseClk clock ∣ baseClk := by
  have hd := divider_pos hbase h
  have hcap : capped (baseClk / divider baseClk clock) = baseClk / divider baseClk clock :=
    capped_quotient h
  constructor
  · intro hfixed
    by_contra hnot
    have hle : baseClk / divider baseClk clock * divider baseClk clock ≤ baseClk := Nat.div_mul_le_self _ _
    have hne : baseClk / divider baseClk clock * divider baseClk clock ≠ baseClk := by
      intro heq
      exact hnot ⟨_, by rw [Nat.mul_comm]; exact heq.symm⟩
    rcases Nat.eq_zero_or_pos (baseClk / divider baseClk clock) with hzero | hq
    · -- divided by more than itself
      have hnone : divider baseClk 0 = 0 := by
        unfold divider
        simp
        omega
      rw [hzero, hnone] at hfixed
      omega
    · have hgt : divider baseClk clock < divider baseClk (baseClk / divider baseClk clock) :=
        divider_gt hq hcap hd (by omega)
      omega
  · rintro ⟨q, hq⟩
    have hquot : baseClk / divider baseClk clock = q := by
      rw [Nat.div_eq_iff_eq_mul_right hd ⟨q, hq⟩]
      exact hq
    rw [hquot] at hcap ⊢
    have hpos : 0 < q := by
      rcases Nat.eq_zero_or_pos q with hzero | hpos
      · rw [hzero] at hq
        omega
      · exact hpos
    have hmul := divider_mul hpos hcap (divider_even baseClk clock) hd
    rw [Nat.mul_comm, ← hq] at hmul
    exact hmul

end Divider

/-! ## The invariant -/

/-- The bus is in the mode that `struct mmc` has. -/
structure BusSound (m : Dev) : Prop where
  width : widthField (if m.mmc.busWidth ≠ 0 then m.mmc.busWidth else 1) = some m.dataWidth
  ddr : m.ddrBit = m.mmc.ddrMode

/-- What a recovery finds in the host's fields is in place, but for the clock and the receive phase. -/
structure Steady (m : Dev) : Prop where
  base : 0 < m.baseClk
  bus : BusSound m
  statusEn : m.intStatusEn = EFX_EMMC_INT_ALL_MASK
  signalEn : m.intSignalEn = 0
  tx : m.port EFX_EMMC_BASE_CLK_SHIFT_PORT = m.clockShift
  shiftLt : m.clockShift < EFX_EMMC_TUNING_PLL_SHIFTS
  sampleLt : m.host.tuningSample < EFX_EMMC_TUNING_MAX_SAMPLES
  pllLt : m.host.tuningPll < EFX_EMMC_TUNING_PLL_SHIFTS

/-- The receive phase is in place too. -/
structure Sound (m : Dev) : Prop extends Steady m where
  sample : m.baseReg1 >>> 16 = m.host.tuningSample
  rx : m.port EFX_EMMC_BASE_CLK_CAL_PORT = m.host.tuningPll

variable {m m' : Dev}

/-- The clock is sound by these fields. -/
theorem ClockSound.of_same (h : ClockSound m) (hbase : m'.baseClk = m.baseClk) (hclkEn : m'.clkEn = m.clkEn)
    (hcurrent : m'.currentClk = m.currentClk) (hfield : m'.clkDivField = m.clkDivField) : ClockSound m' := by
  refine ⟨?_, hclkEn.trans h.clkEn, ?_, ?_, ?_⟩
  · rw [hbase]
    exact h.base
  · rw [hbase, hcurrent]
    exact h.exact_
  · rw [hbase, hcurrent]
    exact h.current
  · rw [hbase, hcurrent, hfield]
    exact h.field

/-- The bus is sound by these. -/
theorem BusSound.of_same (h : BusSound m) (hmmc : m'.mmc = m.mmc) (hwidth : m'.dataWidth = m.dataWidth)
    (hddr : m'.ddrBit = m.ddrBit) : BusSound m' := by
  refine ⟨?_, ?_⟩
  · rw [hmmc, hwidth]
    exact h.width
  · rw [hmmc, hddr]
    exact h.ddr

/-- Another point may be stored, and the phase in place may be another. -/
theorem Steady.of_point (h : Steady m) (hbase : m'.baseClk = m.baseClk) (hbus : BusSound m')
    (hstatus : m'.intStatusEn = m.intStatusEn) (hsignal : m'.intSignalEn = m.intSignalEn)
    (htx : m'.port EFX_EMMC_BASE_CLK_SHIFT_PORT = m.port EFX_EMMC_BASE_CLK_SHIFT_PORT)
    (hshift : m'.clockShift = m.clockShift) (hsample : m'.host.tuningSample < EFX_EMMC_TUNING_MAX_SAMPLES)
    (hpll : m'.host.tuningPll < EFX_EMMC_TUNING_PLL_SHIFTS) : Steady m' := by
  refine ⟨?_, hbus, hstatus.trans h.statusEn, hsignal.trans h.signalEn, ?_, ?_, hsample, hpll⟩
  · rw [hbase]
    exact h.base
  · rw [htx, hshift]
    exact h.tx
  · rw [hshift]
    exact h.shiftLt

/-- The sample field of the word for a port of the controller. -/
theorem configValue_sample {sample pllShift clockPort : ℕ} (hsample : sample < EFX_EMMC_TUNING_MAX_SAMPLES)
    (hpll : pllShift < EFX_EMMC_TUNING_PLL_SHIFTS) (hport : clockPort < 8) :
    configValue sample pllShift clockPort >>> 16 = sample := by
  unfold EFX_EMMC_TUNING_MAX_SAMPLES at hsample
  unfold EFX_EMMC_TUNING_PLL_SHIFTS at hpll
  have hlow : pllShift <<< 6 ||| (1 <<< clockPort) <<< 1 < 2 ^ 16 := by
    apply Nat.or_lt_two_pow
    · rw [Nat.shiftLeft_eq]
      omega
    · rw [Nat.shiftLeft_eq, Nat.shiftLeft_eq]
      have := Nat.pow_lt_pow_right (show 1 < 2 by omega) hport
      omega
  unfold configValue
  rw [Nat.or_assoc, ← Nat.shiftLeft_add_eq_or_of_lt hlow, Nat.shiftLeft_eq, Nat.mod_eq_of_lt (by omega),
    Nat.shiftRight_eq_div_pow]
  omega

/-! ### The clock -/

theorem setClock_eq {clock : ℕ} (h : clock ≠ 0) :
    m.setClock clock =
      { m with
        clkEn := true, clkDivField := divider m.baseClk clock &&& EFX_EMMC_BASE_REG0_CLK_DIV_MASK
        currentClk := m.baseClk / divider m.baseClk clock } := by
  unfold Dev.setClock
  rw [if_neg h]

/-- The clock is all that `efx_emmc_set_clock` writes. -/
theorem setClock_fields (m : Dev) (clock : ℕ) :
    ∃ clkEn clkDivField currentClk, m.setClock clock =
      { m with clkEn := clkEn, clkDivField := clkDivField, currentClk := currentClk } := by
  unfold Dev.setClock
  split <;> exact ⟨_, _, _, rfl⟩

/-- The quotient of an exact divider is the clock of that divider. -/
theorem exact_quotient {baseClk clock : ℕ} (hbase : 0 < baseClk) (h : Exact baseClk clock) :
    divider baseClk (baseClk / divider baseClk clock) = divider baseClk clock ∧
      Exact baseClk (baseClk / divider baseClk clock) := by
  obtain ⟨hclock, hdvd⟩ := h
  have hfixed := (divider_fixed_iff hbase hclock).2 hdvd
  refine ⟨hfixed, ?_, ?_⟩
  · have hle := Nat.le_of_dvd hbase hdvd
    exact Nat.div_ne_zero_iff.2 ⟨by have := divider_pos hbase hclock; omega, hle⟩
  · rw [hfixed]
    exact hdvd

/-- **A clock with an exact divider is set.** -/
theorem setClock_sound {clock : ℕ} (hbase : 0 < m.baseClk) (h : Exact m.baseClk clock) :
    ClockSound (m.setClock clock) := by
  obtain ⟨hfixed, hexact⟩ := exact_quotient hbase h
  rw [setClock_eq h.1]
  exact ⟨hbase, rfl, hexact, by rw [hfixed], by rw [hfixed]⟩

/-! ### Recovery -/

/-- **A recovery changes the clock**, which it sets again after the reset, the tuning register and the ports, of
which it sets the two in use. -/
theorem recover_eq (h : Steady m) (r : Reset) :
    m.recover r =
      { ({ m with clkEn := r.clkEn, clkDivField := r.clkDivField } : Dev).setClock m.currentClk with
        baseReg1 := configValue m.host.tuningSample m.host.tuningPll EFX_EMMC_BASE_CLK_CAL_PORT
        port := fun p =>
          if p = EFX_EMMC_BASE_CLK_CAL_PORT then m.host.tuningPll
          else if p = EFX_EMMC_BASE_CLK_SHIFT_PORT then m.clockShift
          else r.port p } := by
  have hwidth := h.bus.width
  unfold Dev.recover Dev.setBusMode Dev.setTuning
  simp only [Dev.resetIp_mmc]
  rw [hwidth]
  unfold Dev.setClock
  split <;>
    simp only [Dev.resetIp, Dev.setPhase, ← h.bus.ddr, ← h.statusEn, ← h.signalEn]

/-- **An exact clock is found again.** -/
theorem recover_exact (h : Steady m) (hclock : ClockSound m) (r : Reset) :
    m.recover r =
      { m with
        baseReg1 := configValue m.host.tuningSample m.host.tuningPll EFX_EMMC_BASE_CLK_CAL_PORT
        port := fun p =>
          if p = EFX_EMMC_BASE_CLK_CAL_PORT then m.host.tuningPll
          else if p = EFX_EMMC_BASE_CLK_SHIFT_PORT then m.clockShift
          else r.port p } := by
  have hfield := hclock.field
  have hcurrent := hclock.current
  rw [recover_eq h r, setClock_eq hclock.exact_.1]
  simp only [← hfield, ← hcurrent, ← hclock.clkEn]

theorem recover_sound (h : Steady m) (r : Reset) : Sound (m.recover r) := by
  have hsample := configValue_sample h.sampleLt h.pllLt (show EFX_EMMC_BASE_CLK_CAL_PORT < 8 by decide)
  rw [recover_eq h r]
  obtain ⟨clkEn, clkDivField, currentClk, hset⟩ := setClock_fields
    ({ m with clkEn := r.clkEn, clkDivField := r.clkDivField } : Dev) m.currentClk
  rw [hset]
  exact ⟨⟨h.base, h.bus.of_same rfl rfl rfl, h.statusEn, h.signalEn, rfl, h.shiftLt, h.sampleLt, h.pllLt⟩, hsample,
    rfl⟩

theorem recover_clock (h : Steady m) (hclock : ClockSound m) (r : Reset) : ClockSound (m.recover r) := by
  rw [recover_exact h hclock r]
  exact hclock.of_same rfl rfl rfl rfl

/-- A sound configuration with an exact clock is the same after a recovery. -/
theorem recover_config (h : Sound m) (hclock : ClockSound m) (r : Reset) : (m.recover r).config = m.config := by
  have hsample := configValue_sample h.sampleLt h.pllLt (show EFX_EMMC_BASE_CLK_CAL_PORT < 8 by decide)
  rw [recover_exact h.toSteady hclock r]
  unfold Dev.config
  simp only [hsample, h.sample, h.rx, h.tx]
  rfl

theorem Sound.restored (h : Sound m) (hclock : ClockSound m) : Restored m := by
  intro rs
  induction rs generalizing m with
  | nil => rfl
  | cons r rs ih =>
    rw [List.foldl_cons, ih (recover_sound h.toSteady r) (recover_clock h.toSteady hclock r)]
    exact recover_config h hclock r

/-- A reset that leaves another divider. -/
def Dev.elsewhere (m : Dev) : Reset := ⟨false, if m.clkDivField = 0 then 1 else 0, 0, 0, 0, 0, fun _ => 0⟩

/-- **One failed command shows** whether the clock is exact. -/
theorem Restored.clock (h : Restored m) (hsteady : Steady m) : ClockSound m := by
  have hone := h [m.elsewhere]
  rw [List.foldl_cons, List.foldl_nil, recover_eq hsteady] at hone
  by_cases hzero : m.currentClk = 0
  · -- the divider is not written again
    have hfield := congrArg DevConfig.clkDivField hone
    rw [hzero] at hfield
    have hother : (if m.clkDivField = 0 then 1 else 0) = m.clkDivField := hfield
    split at hother <;> omega
  · -- the quotient that is found again has the divider that divides it
    rw [setClock_eq hzero] at hone
    have hcurrent : m.baseClk / divider m.baseClk m.currentClk = m.currentClk :=
      congrArg DevConfig.currentClk hone
    have hdvd := (divider_fixed_iff hsteady.base hzero).1 (congrArg (divider m.baseClk) hcurrent)
    exact ⟨hsteady.base, (congrArg DevConfig.clkEn hone).symm, ⟨hzero, hdvd⟩, hcurrent.symm,
      (congrArg DevConfig.clkDivField hone).symm⟩

/-! ### Tuning -/

theorem setTuning_steady (h : Steady m) (sample pllShift : ℕ) : Steady (m.setTuning sample pllShift) :=
  h.of_point rfl (h.bus.of_same rfl rfl rfl) rfl rfl rfl rfl h.sampleLt h.pllLt

/-- The point that is stored is set. -/
theorem setTuning_sound (h : Steady m) : Sound (m.setTuning m.host.tuningSample m.host.tuningPll) :=
  ⟨setTuning_steady h _ _, configValue_sample h.sampleLt h.pllLt (by decide), rfl⟩

/-- A tuning command leaves the host's fields and an exact clock, and everything in place if it fails. -/
theorem probe_steady (env : TuneEnv) (p : ℕ × ℕ) (h : Steady m) :
    Steady (m.probe env p) ∧ (m.probe env p).host = m.host ∧ (ClockSound m → ClockSound (m.probe env p)) ∧
      ((env.failed p.1 p.2).isSome → Sound (m.probe env p)) := by
  have hset := setTuning_steady h p.1 p.2
  unfold Dev.probe
  simp only
  cases hfailed : env.failed p.1 p.2 with
  | none => exact ⟨hset, rfl, fun hclock => hclock.of_same rfl rfl rfl rfl, fun hsome => absurd hsome (by simp)⟩
  | some r =>
    have hsound := recover_sound hset r
    refine ⟨hsound.toSteady, ?_, fun hclock => recover_clock hset (hclock.of_same rfl rfl rfl rfl) r, fun _ => hsound⟩
    obtain ⟨clkEn, clkDivField, currentClk, hclk⟩ := setClock_fields
      ({ m.setTuning p.1 p.2 with clkEn := r.clkEn, clkDivField := r.clkDivField } : Dev)
      (m.setTuning p.1 p.2).currentClk
    simp only [recover_eq hset r, hclk]
    rfl

theorem scan_steady (env : TuneEnv) (l : List (ℕ × ℕ)) (h : Steady m) :
    Steady (l.foldl (Dev.probe env) m) ∧ (l.foldl (Dev.probe env) m).host = m.host ∧
      (ClockSound m → ClockSound (l.foldl (Dev.probe env) m)) := by
  induction l generalizing m with
  | nil => exact ⟨h, rfl, id⟩
  | cons p l ih =>
    obtain ⟨hsteady, hhost, hclock, -⟩ := probe_steady env p h
    obtain ⟨h1, h2, h3⟩ := ih hsteady
    exact ⟨h1, h2.trans hhost, fun hc => h3 (hclock hc)⟩

/-- The last point of a scan. -/
theorem points_concat {samples : ℕ} (h : samples ≠ 0) :
    ∃ l, Dev.points samples = l ++ [(samples - 1, EFX_EMMC_TUNING_PLL_SHIFTS - 1)] := by
  obtain ⟨n, rfl⟩ : ∃ n, samples = n + 1 := ⟨samples - 1, by omega⟩
  refine ⟨Dev.points n ++ (List.range (EFX_EMMC_TUNING_PLL_SHIFTS - 1)).map fun j => (n, j), ?_⟩
  unfold Dev.points
  rw [List.range_succ, List.flatMap_append, List.append_assoc]
  rfl

/-- The point that is selected is one of the scan. -/
theorem selectPoint_sample (h : Host) (ddrMode : Bool) {samples : ℕ} (hpos : samples ≠ 0)
    (hmax : samples ≤ EFX_EMMC_TUNING_MAX_SAMPLES) (sc : Scan) :
    selectPoint h ddrMode (samples * EFX_EMMC_TUNING_PLL_SHIFTS) sc / EFX_EMMC_TUNING_PLL_SHIFTS <
      EFX_EMMC_TUNING_MAX_SAMPLES := by
  have hpoints : 0 < samples * EFX_EMMC_TUNING_PLL_SHIFTS := Nat.mul_pos (by omega) (by decide)
  have hlt : selectPoint h ddrMode (samples * EFX_EMMC_TUNING_PLL_SHIFTS) sc < samples * EFX_EMMC_TUNING_PLL_SHIFTS := by
    unfold selectPoint
    split
    · split <;> exact Nat.mod_lt _ hpoints
    · exact Nat.mod_lt _ hpoints
  have hdiv := (Nat.div_lt_iff_lt_mul (show 0 < EFX_EMMC_TUNING_PLL_SHIFTS by decide)).2 hlt
  exact Nat.lt_of_lt_of_le hdiv hmax

/-- What a tuning returns, and the point that it selects. -/
theorem executeTuning_cases (callocOk : Bool) (h : Host) (opcode samples : ℕ) (ddrMode : Bool) (pr : Probes) :
    ((UBoot.executeTuning callocOk h opcode samples ddrMode pr).1 = -EINVAL ∨
        (UBoot.executeTuning callocOk h opcode samples ddrMode pr).1 = -ENOMEM) ∨
      (samples ≠ 0 ∧ (UBoot.executeTuning callocOk h opcode samples ddrMode pr).1 = - EIO) ∨
      (UBoot.executeTuning callocOk h opcode samples ddrMode pr).1 = 0 ∧
        (UBoot.executeTuning callocOk h opcode samples ddrMode pr).2.tuningSample < EFX_EMMC_TUNING_MAX_SAMPLES ∧
        (UBoot.executeTuning callocOk h opcode samples ddrMode pr).2.tuningPll < EFX_EMMC_TUNING_PLL_SHIFTS := by
  unfold UBoot.executeTuning
  by_cases hopcode : opcode ≠ MMC_CMD_SEND_TUNING_BLOCK_HS200
  · rw [if_pos hopcode]
    exact Or.inl (Or.inl rfl)
  · rw [if_neg hopcode]
    by_cases hsamples : samples = 0 ∨ samples > EFX_EMMC_TUNING_MAX_SAMPLES
    · rw [if_pos hsamples]
      exact Or.inl (Or.inl rfl)
    · rw [if_neg hsamples]
      simp only
      by_cases hcalloc : (!callocOk) = true
      · rw [if_pos hcalloc]
        exact Or.inl (Or.inr rfl)
      · rw [if_neg hcalloc]
        split
        · exact Or.inr (Or.inl ⟨by omega, rfl⟩)
        · exact Or.inr (Or.inr ⟨rfl, selectPoint_sample h ddrMode (by omega) (by omega) _, Nat.mod_lt _ (by decide)⟩)

/-- **A tuning that settles leaves the point that the host has stored.** -/
theorem executeTuning_sound {opcode : ℕ} {env : TuneEnv} (h : Sound m) (hsettles : m.Settles opcode env) :
    Sound (m.executeTuning opcode env) := by
  unfold Dev.Settles at hsettles
  unfold Dev.executeTuning
  simp only
  rcases executeTuning_cases env.callocOk m.host opcode m.clkDivField m.mmc.ddrMode env.probes with
    herror | ⟨hsamples, hnone⟩ | ⟨hzero, hsample, hpll⟩
  · rw [if_pos herror]
    exact h
  · -- the scan ends with a recovery
    rw [hnone, if_neg (by decide), if_neg (by decide)]
    rw [hnone] at hsettles
    obtain ⟨l, hl⟩ := points_concat hsamples
    rw [hl, List.foldl_append]
    have hlast := (probe_steady env (m.clkDivField - 1, EFX_EMMC_TUNING_PLL_SHIFTS - 1)
      (scan_steady env l h.toSteady).1).2.2.2
    exact hlast (hsettles.resolve_left (fun hne => hne rfl))
  · rw [hzero, if_neg (by decide), if_pos rfl]
    have hscan := (scan_steady env (Dev.points m.clkDivField) h.toSteady).1
    generalize (Dev.points m.clkDivField).foldl (Dev.probe env) m = m₁ at hscan
    generalize UBoot.executeTuning env.callocOk m.host opcode m.clkDivField m.mmc.ddrMode env.probes = result at *
    have hstored : Steady { m₁ with host := result.2 } :=
      hscan.of_point rfl (hscan.bus.of_same rfl rfl rfl) rfl rfl rfl rfl hsample hpll
    exact setTuning_sound hstored

/-- A tuning leaves an exact clock. -/
theorem executeTuning_clock {opcode : ℕ} {env : TuneEnv} (h : Steady m) (hclock : ClockSound m) :
    ClockSound (m.executeTuning opcode env) := by
  have hscan := (scan_steady env (Dev.points m.clkDivField) h).2.2 hclock
  unfold Dev.executeTuning
  simp only
  split
  · exact hclock
  · split
    · exact hscan.of_same rfl rfl rfl rfl
    · exact hscan

/-! ### `efx_emmc_set_ios` and `efx_emmc_probe` -/

/-- The transmit clock is shifted, and the receive sample kept. -/
theorem setClockShift_sound (h : Sound m) {pllShift : ℕ} (hpll : pllShift < EFX_EMMC_TUNING_PLL_SHIFTS) :
    Sound (m.setClockShift pllShift) := by
  unfold Dev.setClockShift
  split
  · exact h
  · have hsample := h.sample
    have hrx := h.rx
    have hword := configValue_sample h.sampleLt hpll (show EFX_EMMC_BASE_CLK_SHIFT_PORT < 8 by decide)
    refine ⟨⟨h.base, h.bus.of_same rfl rfl rfl, h.statusEn, h.signalEn, ?_, hpll, h.sampleLt, h.pllLt⟩, ?_, ?_⟩
    · show (if EFX_EMMC_BASE_CLK_SHIFT_PORT = EFX_EMMC_BASE_CLK_SHIFT_PORT then pllShift
        else m.port EFX_EMMC_BASE_CLK_SHIFT_PORT) = _
      exact if_pos rfl
    · rw [hsample]
      exact hword
    · show (if EFX_EMMC_BASE_CLK_CAL_PORT = EFX_EMMC_BASE_CLK_SHIFT_PORT then pllShift
        else m.port EFX_EMMC_BASE_CLK_CAL_PORT) = _
      exact (if_neg (by decide)).trans hrx

/-- The bus is in the mode asked for. -/
theorem setBusMode_sound {mmc : Mmc} (hknown : m.BusKnown mmc) (hmmc : m.mmc.busWidth = mmc.busWidth ∧
    m.mmc.ddrMode = mmc.ddrMode) :
    BusSound (if mmc.busWidth ≠ 0 then m.setBusMode mmc.busWidth mmc.ddrMode else m) := by
  obtain ⟨hwidth, hddr⟩ := hmmc
  by_cases hzero : mmc.busWidth ≠ 0
  · rw [if_pos hzero]
    rcases hknown with hsome | ⟨hunset, -, -⟩
    · obtain ⟨field, hfield⟩ := Option.isSome_iff_exists.1 hsome
      unfold Dev.setBusMode
      rw [hfield]
      refine ⟨?_, hddr.symm⟩
      show widthField (if m.mmc.busWidth ≠ 0 then m.mmc.busWidth else 1) = some field
      rw [hwidth, if_pos hzero]
      exact hfield
    · exact absurd hunset hzero
  · rw [if_neg hzero]
    have hunset : mmc.busWidth = 0 := by simpa using hzero
    rcases hknown with hsome | ⟨-, hdata, hbit⟩
    · rw [hunset] at hsome
      exact absurd hsome (by decide)
    · refine ⟨?_, hbit.trans hddr.symm⟩
      rw [hwidth, hunset, if_neg (by simp), hdata]
      rfl

/-- The bus mode is all that `efx_emmc_set_bus_mode` writes. -/
theorem setBusMode_eq (m : Dev) (width : ℕ) (ddr : Bool) :
    ∃ dataWidth ddrBit, m.setBusMode width ddr = { m with dataWidth := dataWidth, ddrBit := ddrBit } := by
  unfold Dev.setBusMode
  cases widthField width with
  | none => exact ⟨_, _, rfl⟩
  | some field => exact ⟨_, _, rfl⟩

/-- The clock is set, and besides it only `struct mmc`. -/
theorem setMmcClock_eq (m : Dev) (mmc : Mmc) :
    ∃ clkEn clkDivField currentClk clock, m.setMmcClock mmc =
      { m with
        clkEn := clkEn, clkDivField := clkDivField, currentClk := currentClk
        mmc := { mmc with clock := clock } } := by
  unfold Dev.setMmcClock
  split
  · obtain ⟨clkEn, clkDivField, currentClk, hset⟩ := setClock_fields { m with mmc := mmc } mmc.clock
    simp only [hset]
    exact ⟨_, _, _, _, rfl⟩
  · exact ⟨_, _, _, _, rfl⟩

theorem setMmcClock_clock (h : ClockSound m) {mmc : Mmc}
    (hclock : mmc.clock = m.currentClk ∨ Exact m.baseClk mmc.clock) : ClockSound (m.setMmcClock mmc) := by
  unfold Dev.setMmcClock
  split
  · rename_i hne
    have hset := setClock_sound (m := { m with mmc := mmc }) h.base (hclock.resolve_left hne)
    exact hset.of_same rfl rfl rfl rfl
  · exact h.of_same rfl rfl rfl rfl

theorem setClockBus_sound (h : Sound m) {mmc : Mmc} (hknown : m.BusKnown mmc) : Sound (m.setClockBus mmc) := by
  unfold Dev.setClockBus
  simp only
  obtain ⟨clkEn, clkDivField, currentClk, clock, heq⟩ := setMmcClock_eq m mmc
  rw [heq]
  have hbus := setBusMode_sound (m := { m with
    clkEn := clkEn, clkDivField := clkDivField, currentClk := currentClk, mmc := { mmc with clock := clock } })
    hknown ⟨rfl, rfl⟩
  obtain ⟨dataWidth, ddrBit, hset⟩ := setBusMode_eq { m with
    clkEn := clkEn, clkDivField := clkDivField, currentClk := currentClk, mmc := { mmc with clock := clock } }
    mmc.busWidth mmc.ddrMode
  rw [hset] at hbus ⊢
  -- neither the clock nor the bus takes part in the phases
  split at hbus
  · rename_i hwidth
    rw [if_pos hwidth]
    exact ⟨h.toSteady.of_point rfl hbus rfl rfl rfl rfl h.sampleLt h.pllLt, h.sample, h.rx⟩
  · rename_i hwidth
    rw [if_neg hwidth]
    exact ⟨h.toSteady.of_point rfl hbus rfl rfl rfl rfl h.sampleLt h.pllLt, h.sample, h.rx⟩

/-- Whether a mode has been tuned for is not looked at. -/
theorem Sound.setTuned (h : Sound m) (hs400Tuned : Bool) : Sound { m with hs400Tuned := hs400Tuned } :=
  ⟨h.toSteady.of_point rfl (h.bus.of_same rfl rfl rfl) rfl rfl rfl rfl h.sampleLt h.pllLt, h.sample, h.rx⟩

theorem setMode_sound (h : Sound m) {mmc : Mmc} (hknown : m.BusKnown mmc) : Sound (m.setMode mmc) := by
  have hset := setClockBus_sound h hknown
  unfold Dev.setMode
  simp only
  generalize m.setClockBus mmc = m₁ at hset
  cases mmc.selectedMode with
  | mmcHs200 => exact (setClockShift_sound hset (by decide)).setTuned false
  | mmcHs400 => exact setClockShift_sound hset (by decide)
  | other code =>
    refine Sound.setTuned ?_ false
    split
    · -- the stored point is forgotten with the phase
      have hsteady : Steady { m₁ with
          host := { m₁.host with tuned := false, tuningSample := 0, tuningPll := 0 } } :=
        hset.toSteady.of_point rfl (hset.bus.of_same rfl rfl rfl) rfl rfl rfl rfl (Nat.zero_lt_succ _)
          (Nat.zero_lt_succ _)
      exact setTuning_sound hsteady
    · exact hset

theorem setIos_sound (h : Sound m) {mmc : Mmc} {env : TuneEnv} (hok : Restorable m (.setIos mmc env)) :
    Sound (m.setIos mmc env) := by
  obtain ⟨hknown, hsettles⟩ := hok
  have hmode := setMode_sound h hknown
  unfold Dev.setIos
  simp only
  split
  · rename_i hfirst
    exact executeTuning_sound (hmode.setTuned true) (hsettles hfirst.1 hfirst.2)
  · exact hmode

/-- A mode with an exact clock. -/
theorem setMode_clock (h : ClockSound m) {mmc : Mmc} (hclock : mmc.clock = m.currentClk ∨ Exact m.baseClk mmc.clock) :
    ClockSound (m.setMode mmc) := by
  have hbus : ClockSound (m.setClockBus mmc) := by
    have hclk := setMmcClock_clock h hclock
    obtain ⟨dataWidth, ddrBit, hset⟩ := setBusMode_eq (m.setMmcClock mmc) mmc.busWidth mmc.ddrMode
    unfold Dev.setClockBus
    simp only [hset]
    split
    · exact hclk.of_same rfl rfl rfl rfl
    · exact hclk
  -- the phases do not take part
  have hshift : ∀ pllShift, ClockSound ((m.setClockBus mmc).setClockShift pllShift) := by
    intro pllShift
    unfold Dev.setClockShift
    split
    · exact hbus
    · exact hbus.of_same rfl rfl rfl rfl
  unfold Dev.setMode
  simp only
  cases mmc.selectedMode with
  | mmcHs200 => exact (hshift _).of_same rfl rfl rfl rfl
  | mmcHs400 => exact hshift _
  | other code =>
    simp only
    split <;> exact hbus.of_same rfl rfl rfl rfl

theorem setIos_clock (h : Sound m) (hclk : ClockSound m) {mmc : Mmc} {env : TuneEnv} (hknown : m.BusKnown mmc)
    (hclock : mmc.clock = m.currentClk ∨ Exact m.baseClk mmc.clock) : ClockSound (m.setIos mmc env) := by
  have hmode := setMode_clock hclk hclock
  unfold Dev.setIos
  simp only
  split
  · exact executeTuning_clock ((setMode_sound h hknown).setTuned true).toSteady (hmode.of_same rfl rfl rfl rfl)
  · exact hmode

theorem capsClk_pos (caps : ℕ) : 0 < capsClk caps := by
  unfold capsClk
  simp only
  split
  · decide
  · omega

/-- **The probe** leaves everything in place. -/
theorem probed_sound (caps : ℕ) (tuningEdge samplingRightHalf : Bool) (r : Reset) :
    Sound (Dev.probed caps tuningEdge samplingRightHalf r) := by
  unfold Dev.probed
  simp only
  rw [setClock_eq (show EFX_EMMC_MIN_FREQ ≠ 0 by decide)]
  have hshift : EFX_EMMC_HS400_CLK_SHIFT < EFX_EMMC_TUNING_PLL_SHIFTS := by decide
  have hsample : 0 < EFX_EMMC_TUNING_MAX_SAMPLES := by decide
  have hpll : 0 < EFX_EMMC_TUNING_PLL_SHIFTS := by decide
  have hword : configValue (configValue 0 0 EFX_EMMC_BASE_CLK_CAL_PORT >>> 16) EFX_EMMC_HS400_CLK_SHIFT
      EFX_EMMC_BASE_CLK_SHIFT_PORT >>> 16 = 0 := by decide
  exact ⟨⟨capsClk_pos caps, ⟨rfl, rfl⟩, rfl, rfl, rfl, hshift, hsample, hpll⟩, hword, rfl⟩

/-- Its clock is exact if its divider divides the base clock. -/
theorem probed_clock {caps : ℕ} (h : divider (capsClk caps) EFX_EMMC_MIN_FREQ ∣ capsClk caps)
    (tuningEdge samplingRightHalf : Bool) (r : Reset) :
    ClockSound (Dev.probed caps tuningEdge samplingRightHalf r) := by
  have hexact : Exact (capsClk caps) EFX_EMMC_MIN_FREQ := ⟨by decide, h⟩
  obtain ⟨hfixed, hquot⟩ := exact_quotient (capsClk_pos caps) hexact
  unfold Dev.probed
  simp only
  rw [setClock_eq hexact.1]
  exact ⟨capsClk_pos caps, rfl, hquot, congrArg (capsClk caps / ·) hfixed.symm,
    congrArg (· &&& EFX_EMMC_BASE_REG0_CLK_DIV_MASK) hfixed.symm⟩

/-! ## Runs -/

theorem step_sound {caps : ℕ} {a : DevAct} (h : Sound m) (hok : Restorable m a)
    (hstep : (devices caps).step m a = some m') : Sound m' := by
  cases a with
  | setIos mmc env =>
    obtain rfl := Option.some.inj hstep
    exact setIos_sound h hok
  | executeTuning opcode env =>
    obtain rfl := Option.some.inj hstep
    exact executeTuning_sound h hok
  | fail r =>
    obtain rfl := Option.some.inj hstep
    exact recover_sound h.toSteady r

/-- **An exact clock stays exact** where no other is asked for. -/
theorem step_clock {caps : ℕ} {a : DevAct} (h : Sound m) (hclk : ClockSound m) (hok : Restorable m a)
    (hexact : ExactClock m a) (hstep : (devices caps).step m a = some m') : ClockSound m' := by
  cases a with
  | setIos mmc env =>
    obtain rfl := Option.some.inj hstep
    exact setIos_clock h hclk hok.1 hexact
  | executeTuning opcode env =>
    obtain rfl := Option.some.inj hstep
    exact executeTuning_clock h.toSteady hclk
  | fail r =>
    obtain rfl := Option.some.inj hstep
    exact recover_clock h.toSteady hclk r

theorem reach_sound {caps : ℕ} (h : (devices caps).Reach Restorable m) : Sound m := by
  refine h.invariant ?_ fun _ _ _ hs hok hstep => step_sound hs hok hstep
  rintro s ⟨tuningEdge, samplingRightHalf, r, rfl⟩
  exact probed_sound caps tuningEdge samplingRightHalf r

/-- **A run of exact clocks** has one in force. -/
theorem reach_clock {caps : ℕ} (hprobe : divider (capsClk caps) EFX_EMMC_MIN_FREQ ∣ capsClk caps)
    (h : (devices caps).Reach (fun m a => Restorable m a ∧ ExactClock m a) m) : Sound m ∧ ClockSound m := by
  refine h.invariant (I := fun m => Sound m ∧ ClockSound m) ?_ ?_
  · rintro s ⟨tuningEdge, samplingRightHalf, r, rfl⟩
    exact ⟨probed_sound caps tuningEdge samplingRightHalf r, probed_clock hprobe tuningEdge samplingRightHalf r⟩
  · rintro s a s' ⟨hs, hclk⟩ ⟨hok, hexact⟩ hstep
    exact ⟨step_sound hs hok hstep, step_clock hs hclk hok hexact hstep⟩

/-- **The configuration survives failed commands**, in every run that meets the condition, exactly when the clock
in force is exact; it is in every run whose clocks are. -/
theorem recovery_restores {caps : ℕ} :
    (∀ m, (devices caps).Reach Restorable m → (Restored m ↔ ClockSound m)) ∧
      (divider (capsClk caps) EFX_EMMC_MIN_FREQ ∣ capsClk caps →
        ∀ m, (devices caps).Reach (fun m a => Restorable m a ∧ ExactClock m a) m → Restored m) := by
  constructor
  · intro m h
    have hsound := reach_sound h
    exact ⟨fun hrestored => hrestored.clock hsound.toSteady, hsound.restored⟩
  · intro hprobe m h
    obtain ⟨hsound, hclock⟩ := reach_clock hprobe h
    exact hsound.restored hclock

/-- A reset that leaves zeros. -/
def Reset.zero : Reset := ⟨false, 0, 0, 0, 0, 0, fun _ => 0⟩

/-- A tuning whose first command fails, and all others pass. -/
def passing : TuneEnv :=
  ⟨true, fun i j => if i = 0 ∧ j = 0 then some .zero else none, fun _ _ => true, fun _ _ => 0x300⟩

/-- DDR at 52 MHz, a failed command, and HS200 with its tuning. -/
def modesRun : List DevAct :=
  [.setIos ⟨52000000, 8, true, .other 0⟩ passing, .fail .zero, .setIos ⟨200000000, 8, false, .mmcHs200⟩ passing,
    .executeTuning MMC_CMD_SEND_TUNING_BLOCK_HS200 passing]

theorem recovery_restores_hs200 : ∃ m, (devices 200).Reach Restorable m ∧
    m.config = ⟨true, 1, EFX_EMMC_DATA_WIDTH_8BIT, false, EFX_EMMC_INT_ALL_MASK, 0, 0, 4, 3, 200000000⟩ ∧
    Restored m := by
  obtain ⟨m, hm, hboth⟩ := Option.map_eq_some_iff.1 (show
    ((devices 200).exec (.probed 200 false true .zero) modesRun).map (fun m => (m.config, decide (ClockSound m))) =
      some (⟨true, 1, EFX_EMMC_DATA_WIDTH_8BIT, false, EFX_EMMC_INT_ALL_MASK, 0, 0, 4, 3, 200000000⟩, true) by
    decide +kernel)
  obtain ⟨hconfig, hclock⟩ := Prod.mk.inj hboth
  have hreach : (devices 200).Reach Restorable m :=
    .of_exec ⟨false, true, .zero, rfl⟩
      (show (devices 200).Along Restorable (.probed 200 false true .zero) modesRun by decide +kernel) hm
  exact ⟨m, hreach, hconfig, (recovery_restores.1 m hreach).2 (of_decide_eq_true hclock)⟩

/-- **With a base clock of 50 MHz** the divider of the probe, 126, becomes 128. -/
theorem recovery_slows_down : ∃ m, (devices 50).Reach (fun _ _ => True) m ∧
    m.clkDivField = 126 ∧ m.currentClk = 396825 ∧
    (m.recover .zero).clkDivField = 128 ∧ (m.recover .zero).currentClk = 390625 ∧ ¬ Restored m := by
  refine ⟨.probed 50 false true .zero, .init ⟨false, true, .zero, rfl⟩, by decide +kernel, by decide +kernel,
    by decide +kernel, by decide +kernel, ?_⟩
  intro h
  have hdiv := congrArg DevConfig.clkDivField (h [.zero])
  exact absurd hdiv (by decide +kernel)

/-- **A tuning that finds no point** leaves the last one of its scan, and the next failed command
goes back to the one that is stored. -/
theorem recovery_drops_phase : ∃ m, (devices 200).Reach (fun _ _ => True) m ∧
    m.config.rxShift = 7 ∧ (m.recover .zero).config.rxShift = 0 ∧ ¬ Restored m := by
  obtain ⟨m, hm, hv⟩ := Option.map_eq_some_iff.1 (show
    ((devices 200).exec (.probed 200 false true .zero)
      [.setIos ⟨200000000, 8, false, .mmcHs200⟩ passing,
        .executeTuning MMC_CMD_SEND_TUNING_BLOCK_HS200
          { passing with failed := fun _ _ => none, matches_ := fun _ _ => false }]).map
      (fun m => (m.config.rxShift, (m.recover .zero).config.rxShift)) = some (7, 0) by decide +kernel)
  obtain ⟨hseven, hzero⟩ := Prod.mk.inj hv
  refine ⟨m, .of_exec ⟨false, true, .zero, rfl⟩ (Machine.along_true _ _) hm, hseven, hzero, ?_⟩
  intro h
  have hshift := congrArg DevConfig.rxShift (h [.zero])
  rw [List.foldl_cons, List.foldl_nil, hzero, hseven] at hshift
  exact absurd hshift (by decide)

end Br2Efinix.Emmc.UBoot
