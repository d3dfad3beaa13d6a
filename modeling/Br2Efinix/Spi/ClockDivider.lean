import Mathlib.Algebra.Order.Field.Basic
import Mathlib.Data.Rat.Cast.Order
import Mathlib.Tactic.Positivity
import Mathlib.Tactic.Ring

/-!
# The clock divider of the SPI controller

`spi_spinal_lib_speed` of Linux and `vexriscv_spi_set_speed` of U-Boot, on 32-bit words. Divider `d` makes a clock
of `hz / (2 * (d + 1))`.

* `linuxDivider_iff`: Linux is right exactly where twice the request divides the clock.
* `ubootDivider_iff`: U-Boot limits the request first; what is left over then must fit between the limited request
  and the full one.
* `spi_clock_iff`: **both drivers, at one clock.**
-/

namespace Br2Efinix.Spi

/-! ## The drivers -/

/-- `(hz/speed_hz/2)-1` as both drivers compute it; a division by zero has no value. -/
def clkDivider (hz speedHz : UInt32) : Option UInt32 :=
  if speedHz = 0 then none else some (hz / speedHz / 2 - 1)

/-- The registers that `spi_spinal_lib_speed` writes. -/
structure SpeedRegs where
  clkDivider : UInt32
  ssDisable : UInt32
  ssSetup : UInt32
  ssHold : UInt32

/-- `spi_spinal_lib_speed`. -/
def spiSpinalLibSpeed (hz speedHz : UInt32) : Option SpeedRegs :=
  (clkDivider hz speedHz).map fun d => ⟨d, d, d, d⟩

/-- The clocks in `struct vexriscv_spi_platdata`. -/
structure VexriscvPlat where
  clock : UInt32
  maxHz : UInt32

/-- The clocks as `vexriscv_spi_ofdata_to_platdata` reads them from the device tree. -/
def ofdataToPlatdata (clockFrequency spiMaxFrequency : Option UInt32) : VexriscvPlat :=
  let clock := clockFrequency.getD 50000000
  ⟨clock, spiMaxFrequency.getD (clock / 2)⟩

/-- `vexriscv_spi_set_speed`, with what it writes to `clk_div`. -/
def vexriscvSpiSetSpeed (plat : VexriscvPlat) (speed : UInt32) : Option UInt32 :=
  let speed := if plat.maxHz < speed then plat.maxHz else speed
  clkDivider plat.clock speed

/-! ## What is right -/

/-- The SPI clock, as a rational number. -/
def sclk (hz d : ℕ) : ℚ := hz / (2 * (d + 1))

/-- A divider for a quotient `n` of the two frequencies: there is one, the subtraction did not wrap around, and the
clock is slow enough if a divider of 32 bits can make it so. -/
structure RightDivider (hz speed : UInt32) (quotient : ℕ) (divider : Option UInt32) : Prop where
  defined : divider.isSome
  noWrap : ∀ d ∈ divider, d.toNat + 1 = quotient / 2
  slow : (∃ d' < 2 ^ 32, sclk hz.toNat d' ≤ (speed.toNat : ℚ)) → ∀ d ∈ divider, sclk hz.toNat d.toNat ≤ (speed.toNat : ℚ)

/-- The request after `min(plat->max_hz, speed)`. -/
def effective (maxHz speed : UInt32) : ℕ := min maxHz.toNat speed.toNat

/-- Both drivers on a clock: their dividers are right for the request, and Linux with the request that U-Boot is left
with programs U-Boot's divider. -/
structure SpiClocksRight (hz maxHz speed : UInt32) : Prop where
  linux : RightDivider hz speed (hz.toNat / speed.toNat) ((spiSpinalLibSpeed hz speed).map SpeedRegs.clkDivider)
  uboot : RightDivider hz speed (hz.toNat / effective maxHz speed) (vexriscvSpiSetSpeed ⟨hz, maxHz⟩ speed)
  same : ∀ speed', speed'.toNat = effective maxHz speed →
    vexriscvSpiSetSpeed ⟨hz, maxHz⟩ speed = (spiSpinalLibSpeed hz speed').map SpeedRegs.clkDivider

/-! ## The words -/

variable {hz speed eff maxHz : UInt32}

theorem sclk_le_iff {hz d speed : ℕ} : sclk hz d ≤ (speed : ℚ) ↔ hz ≤ 2 * speed * (d + 1) := by
  have hpos : (0 : ℚ) < 2 * (d + 1) := by positivity
  have hmul : (speed : ℚ) * (2 * (d + 1)) = ((2 * speed * (d + 1) : ℕ) : ℚ) := by
    push_cast
    ring
  unfold sclk
  rw [div_le_iff₀ hpos, hmul, Nat.cast_le]

/-- Some divider of 32 bits is always slow enough. -/
theorem slow_exists (hspeed : 0 < speed.toNat) : ∃ d' < 2 ^ 32, sclk hz.toNat d' ≤ (speed.toNat : ℚ) := by
  have hhz := hz.toNat_lt
  refine ⟨2 ^ 32 - 1, by decide, ?_⟩
  rw [sclk_le_iff]
  have hmul : 2 * 1 * (2 ^ 32 - 1 + 1) ≤ 2 * speed.toNat * (2 ^ 32 - 1 + 1) :=
    Nat.mul_le_mul_right _ (Nat.mul_le_mul_left 2 hspeed)
  omega

theorem linux_clkDivider (hz speed : UInt32) :
    (spiSpinalLibSpeed hz speed).map SpeedRegs.clkDivider = clkDivider hz speed := by
  unfold spiSpinalLibSpeed
  rw [Option.map_map]
  exact Option.map_id'

/-- U-Boot's divider is that of the limited request. -/
theorem setSpeed_eq {plat : VexriscvPlat} (heff : eff.toNat = effective plat.maxHz speed) :
    vexriscvSpiSetSpeed plat speed = clkDivider plat.clock eff := by
  have hlimit : (if plat.maxHz < speed then plat.maxHz else speed) = eff := by
    apply UInt32.toNat_inj.1
    rw [heff]
    unfold effective
    by_cases h : plat.maxHz < speed
    · have hlt := UInt32.lt_iff_toNat_lt.1 h
      rw [if_pos h]
      omega
    · have hle := UInt32.le_iff_toNat_le.1 (UInt32.not_lt.1 h)
      rw [if_neg h]
      omega
  unfold vexriscvSpiSetSpeed
  rw [hlimit]

/-- The limited request is a word. -/
theorem effective_exists (maxHz speed : UInt32) : ∃ eff : UInt32, eff.toNat = effective maxHz speed := by
  have hlt : effective maxHz speed < 2 ^ 32 := Nat.lt_of_le_of_lt (Nat.min_le_right _ _) speed.toNat_lt
  exact ⟨UInt32.ofNat (effective maxHz speed), UInt32.toNat_ofNat_of_lt' hlt⟩

/-- **The divider of the code is right** exactly where it does not wrap around and what the division leaves over
makes the clock no faster than the request. -/
theorem clkDivider_right_iff (hspeed : 0 < speed.toNat) :
    RightDivider hz speed (hz.toNat / eff.toNat) (clkDivider hz eff) ↔
      0 < eff.toNat ∧ 2 * eff.toNat ≤ hz.toNat ∧ hz.toNat ≤ 2 * speed.toNat * (hz.toNat / (2 * eff.toNat)) := by
  have hhz := hz.toNat_lt
  have hquot : hz.toNat / eff.toNat / 2 = hz.toNat / (2 * eff.toNat) := by rw [Nat.div_div_eq_div_mul, Nat.mul_comm]
  by_cases hzero : eff = 0
  · -- the division by zero
    subst hzero
    constructor
    · intro h
      exact absurd h.defined Bool.false_ne_true
    · rintro ⟨h, -⟩
      exact absurd h (by decide)
  · have hpos : 0 < eff.toNat := by
      rcases Nat.eq_zero_or_pos eff.toNat with h | h
      · exact absurd (UInt32.toNat_inj.1 h) hzero
      · exact h
    have hword : (hz / eff / 2).toNat = hz.toNat / (2 * eff.toNat) := by
      rw [UInt32.toNat_div, UInt32.toNat_div, show (2 : UInt32).toNat = 2 from rfl, hquot]
    have hone : (1 : UInt32).toNat = 1 := rfl
    have hle : hz.toNat / (2 * eff.toNat) ≤ hz.toNat := Nat.div_le_self _ _
    have hge : 1 ≤ hz.toNat / (2 * eff.toNat) ↔ 2 * eff.toNat ≤ hz.toNat := by
      rw [Nat.le_div_iff_mul_le (by omega), Nat.one_mul]
    have hsub : (hz / eff / 2 - 1).toNat + 1 = hz.toNat / (2 * eff.toNat) ↔ 1 ≤ hz.toNat / (2 * eff.toNat) := by
      rw [UInt32.toNat_sub, hword, hone]
      omega
    have heq : clkDivider hz eff = some (hz / eff / 2 - 1) := by
      unfold clkDivider
      rw [if_neg hzero]
    rw [heq]
    constructor
    · rintro ⟨-, hwrap, hslow⟩
      have hd := hwrap _ rfl
      rw [hquot] at hd
      have hclock := hslow (slow_exists hspeed) _ rfl
      rw [sclk_le_iff, hd] at hclock
      exact ⟨hpos, hge.1 (hsub.1 hd), hclock⟩
    · rintro ⟨-, hle2, hclock⟩
      have hd := hsub.2 (hge.2 hle2)
      refine ⟨rfl, ?_, ?_⟩
      · rintro d ⟨rfl⟩
        rw [hquot]
        exact hd
      · rintro - d ⟨rfl⟩
        rw [sclk_le_iff, hd]
        exact hclock

/-! ## The drivers' dividers -/

/-- **Linux** is right exactly where twice the request divides the clock. -/
theorem linuxDivider_iff (hhz : 0 < hz.toNat) (hspeed : 0 < speed.toNat) :
    RightDivider hz speed (hz.toNat / speed.toNat) ((spiSpinalLibSpeed hz speed).map SpeedRegs.clkDivider) ↔
      2 * speed.toNat ∣ hz.toNat := by
  rw [linux_clkDivider, clkDivider_right_iff hspeed]
  constructor
  · rintro ⟨-, -, hclock⟩
    have hback : 2 * speed.toNat * (hz.toNat / (2 * speed.toNat)) ≤ hz.toNat := Nat.mul_div_le _ _
    exact ⟨_, Nat.le_antisymm hclock hback⟩
  · intro hdvd
    refine ⟨hspeed, Nat.le_of_dvd hhz hdvd, ?_⟩
    rw [Nat.mul_div_cancel' hdvd]

/-- What the division by twice the limited request leaves over fits between the limited request and the full one. -/
def Fits (hz eff speed : ℕ) : Prop := 2 * eff ≤ hz ∧ hz % (2 * eff) ≤ 2 * (speed - eff) * (hz / (2 * eff))

/-- **U-Boot** is right exactly where its limit is not 0 and the rest of the division fits. -/
theorem ubootDivider_iff (hspeed : 0 < speed.toNat) :
    RightDivider hz speed (hz.toNat / effective maxHz speed) (vexriscvSpiSetSpeed ⟨hz, maxHz⟩ speed) ↔
      0 < maxHz.toNat ∧ Fits hz.toNat (effective maxHz speed) speed.toNat := by
  obtain ⟨eff, heff⟩ := effective_exists maxHz speed
  rw [setSpeed_eq heff, ← heff, clkDivider_right_iff hspeed]
  have hle : eff.toNat ≤ speed.toNat := heff ▸ Nat.min_le_right _ _
  have hpos : 0 < eff.toNat ↔ 0 < maxHz.toNat := by
    rw [heff]
    unfold effective
    omega
  have hsplit : 2 * eff.toNat * (hz.toNat / (2 * eff.toNat)) + hz.toNat % (2 * eff.toNat) = hz.toNat :=
    Nat.div_add_mod _ _
  have hmul : 2 * speed.toNat * (hz.toNat / (2 * eff.toNat)) = 2 * eff.toNat * (hz.toNat / (2 * eff.toNat)) +
      2 * (speed.toNat - eff.toNat) * (hz.toNat / (2 * eff.toNat)) := by
    rw [← Nat.add_mul]
    congr 1
    omega
  have hrest : hz.toNat ≤ 2 * speed.toNat * (hz.toNat / (2 * eff.toNat)) ↔
      hz.toNat % (2 * eff.toNat) ≤ 2 * (speed.toNat - eff.toNat) * (hz.toNat / (2 * eff.toNat)) := by
    rw [hmul]
    omega
  unfold Fits
  rw [hpos, hrest]

/-- **With the default limit** of half the clock U-Boot neither divides by zero nor wraps around, from 2 Hz on. -/
theorem uboot_default_limit {clockFrequency : Option UInt32} {plat : VexriscvPlat}
    (hplat : plat = ofdataToPlatdata clockFrequency none) (hclock : 2 ≤ plat.clock.toNat) (hspeed : 0 < speed.toNat) :
    ∃ d, vexriscvSpiSetSpeed plat speed = some d ∧
      d.toNat + 1 = plat.clock.toNat / (2 * effective plat.maxHz speed) := by
  have hhalf : plat.maxHz.toNat = plat.clock.toNat / 2 := by
    subst hplat
    exact UInt32.toNat_div _ _
  obtain ⟨eff, heff⟩ := effective_exists plat.maxHz speed
  have hpos : 0 < eff.toNat := by
    rw [heff]
    unfold effective
    omega
  have hle : eff.toNat ≤ plat.maxHz.toNat := heff ▸ Nat.min_le_left _ _
  have hne : eff ≠ 0 := by
    rintro rfl
    exact absurd hpos (by decide)
  have hquot : 1 ≤ plat.clock.toNat / (2 * eff.toNat) := by
    rw [Nat.le_div_iff_mul_le (by omega)]
    omega
  refine ⟨plat.clock / eff / 2 - 1, ?_, ?_⟩
  · rw [setSpeed_eq heff]
    exact if_neg hne
  · rw [← heff, UInt32.toNat_sub, UInt32.toNat_div, UInt32.toNat_div, show (2 : UInt32).toNat = 2 from rfl,
      show (1 : UInt32).toNat = 1 from rfl, Nat.div_div_eq_div_mul, Nat.mul_comm eff.toNat]
    have hlt : plat.clock.toNat / (2 * eff.toNat) ≤ plat.clock.toNat := Nat.div_le_self _ _
    have hword := plat.clock.toNat_lt
    omega

/-- The drivers program the same divider when the request that is left is the same. -/
theorem dividers_same (hz maxHz speed : UInt32) {speed' : UInt32} (hsame : speed'.toNat = effective maxHz speed) :
    vexriscvSpiSetSpeed ⟨hz, maxHz⟩ speed = (spiSpinalLibSpeed hz speed').map SpeedRegs.clkDivider := by
  rw [linux_clkDivider]
  exact setSpeed_eq hsame

/-- **The SPI clock** of both drivers, for every clock, every limit of U-Boot's and every request. -/
theorem spi_clock_iff (hz maxHz speed : UInt32) (hhz : 0 < hz.toNat) (hspeed : 0 < speed.toNat) :
    SpiClocksRight hz maxHz speed ↔
      2 * speed.toNat ∣ hz.toNat ∧ 0 < maxHz.toNat ∧ Fits hz.toNat (effective maxHz speed) speed.toNat := by
  constructor
  · rintro ⟨hlinux, huboot, -⟩
    exact ⟨(linuxDivider_iff hhz hspeed).1 hlinux, (ubootDivider_iff hspeed).1 huboot⟩
  · rintro ⟨hlinux, huboot⟩
    refine ⟨(linuxDivider_iff hhz hspeed).2 hlinux, (ubootDivider_iff hspeed).2 huboot, ?_⟩
    intro speed'
    exact dividers_same hz maxHz speed

/-- Half of 100 MHz in both drivers. -/
theorem spi_clock_at_50MHz : SpiClocksRight 100000000 50000000 50000000 := by
  refine (spi_clock_iff 100000000 50000000 50000000 (by decide) (by decide)).2 ⟨by decide, by decide, ?_⟩
  exact ⟨by decide, by decide⟩

/-- **30 MHz of 100 MHz**: both drivers program 0, which is 50 MHz; and for 60 MHz the divider wraps around. -/
theorem spi_clock_at_30MHz :
    ¬ SpiClocksRight 100000000 50000000 30000000 ∧ vexriscvSpiSetSpeed ⟨100000000, 50000000⟩ 30000000 = some 0 ∧
      (spiSpinalLibSpeed 100000000 30000000).map SpeedRegs.clkDivider = some 0 ∧ ¬ sclk 100000000 0 ≤ 30000000 ∧
      (spiSpinalLibSpeed 100000000 60000000).map SpeedRegs.clkDivider = some 0xFFFFFFFF := by
  have hfast : ¬ sclk 100000000 0 ≤ (30000000 : ℕ) := by
    rw [sclk_le_iff]
    decide
  refine ⟨?_, by decide, by decide, by exact_mod_cast hfast, by decide⟩
  intro h
  exact hfast (h.linux.slow (slow_exists (by decide)) 0 (by decide))

end Br2Efinix.Spi
