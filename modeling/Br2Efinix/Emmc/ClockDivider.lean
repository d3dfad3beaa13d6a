import Mathlib.Algebra.Order.Field.Basic
import Mathlib.Data.Nat.Bitwise
import Mathlib.Data.Rat.Cast.Order
import Br2Efinix.Emmc.UBootRestored

/-!
# The clock divider

`efx_emmc_set_clock` of Linux and of U-Boot on 32-bit words, with the base clock that `efx_emmc_init_hw` reads from
the capabilities.

* `clockDivider_toNat`: no sum of the divider's computation wraps around.
* `divider_least`: the divider is the smallest that is slow enough, of those that the controller has.
* `set_clock_divider`: **both drivers program the same divider, and the right one.**
-/

namespace Br2Efinix.Emmc

/-! ## The drivers -/

/-- `EFX_EMMC_BASE_REG0_CLK_EN` and `EFX_EMMC_BASE_REG0_CLK_DIV_MASK` as words. -/
def CLK_EN : UInt32 := 0x10000
def CLK_DIV_MASK : UInt32 := 0xFFFF

/-- `host->base_clk`, as both drivers' `efx_emmc_init_hw` sets it. -/
def capsBaseClk (caps : UInt32) : UInt32 :=
  let baseClk := (caps &&& 0x3FF) * 1000000
  if baseClk = 0 then 200 * 1000000 else baseClk

/-- The limit on the clock in `efx_emmc_set_clock`. -/
def limitClock (clock : UInt32) : UInt32 := if clock > 200000000 then 200000000 else clock

/-- `div` in `efx_emmc_set_clock`, for a clock within the limit. -/
def clockDivider (baseClk clock : UInt32) : UInt32 :=
  if clock ≥ baseClk then 1
  else
    let div := (baseClk + clock - 1) / clock
    if div > 1 ∧ div &&& 1 ≠ 0 then div + 1 else div

/-- The last of the three writes to `EFX_EMMC_BASE_REG0`. -/
def programDivider (reg div : UInt32) : UInt32 :=
  let reg := reg &&& ~~~CLK_EN
  let reg := (reg &&& ~~~CLK_DIV_MASK) ||| (div &&& CLK_DIV_MASK)
  reg ||| CLK_EN

/-- The clock in Linux's `struct efx_emmc_host`, and the register. -/
structure LinuxClock where
  baseClk : UInt32
  currentClk : UInt32
  clkDiv : UInt32
  baseReg0 : UInt32

/-- `efx_emmc_set_clock` of Linux. -/
def LinuxClock.setClock (h : LinuxClock) (clock : UInt32) : LinuxClock :=
  if clock = 0 then { h with baseReg0 := h.baseReg0 &&& ~~~CLK_EN, currentClk := 0 }
  else
    let clock := limitClock clock
    let div := clockDivider h.baseClk clock
    { h with baseReg0 := programDivider h.baseReg0 div, currentClk := h.baseClk / div, clkDiv := div }

/-- The clock in U-Boot's `struct efx_emmc_host`, and the register. -/
structure UBootClock where
  baseClk : UInt32
  currentClk : UInt32
  baseReg0 : UInt32

/-- `efx_emmc_set_clock` of U-Boot. -/
def UBootClock.setClock (h : UBootClock) (clock : UInt32) : UBootClock :=
  if clock = 0 then { h with baseReg0 := h.baseReg0 &&& ~~~CLK_EN, currentClk := 0 }
  else
    let clock := limitClock clock
    let div := clockDivider h.baseClk clock
    { h with baseReg0 := programDivider h.baseReg0 div, currentClk := h.baseClk / div }

/-- The divider's field of the register. -/
def divField (reg : UInt32) : ℕ := (reg &&& CLK_DIV_MASK).toNat

/-! ## The property -/

/-- The clock that a divider makes, as a rational number. -/
def emmcFreq (baseClk div : ℕ) : ℚ := baseClk / div

/-- A divider that the controller has. -/
def Divides (div : ℕ) : Prop := 0 < div ∧ (div = 1 ∨ 2 ∣ div)

/-- The smallest divider that is slow enough for the clock and for 200 MHz, and that the field holds. -/
structure RightClockDivider (baseClk clock div : ℕ) : Prop where
  divides : Divides div
  fits : div < 2 ^ 16
  slow : emmcFreq baseClk div ≤ (min clock 200000000 : ℕ)
  least : ∀ d, Divides d → emmcFreq baseClk d ≤ (min clock 200000000 : ℕ) → div ≤ d

/-! ## The words -/

variable {baseClk clock div : ℕ}

theorem emmcFreq_le_iff (hdiv : 0 < div) : emmcFreq baseClk div ≤ (clock : ℕ) ↔ baseClk ≤ div * clock := by
  unfold emmcFreq
  rw [div_le_iff₀ (Nat.cast_pos.2 hdiv), ← Nat.cast_mul, Nat.cast_le, Nat.mul_comm]

theorem limitClock_toNat (clock : UInt32) : (limitClock clock).toNat = min clock.toNat 200000000 := by
  have hmax : (200000000 : UInt32).toNat = 200000000 := rfl
  unfold limitClock
  by_cases h : clock > 200000000
  · have hlt := UInt32.lt_iff_toNat_lt.1 h
    rw [if_pos h]
    omega
  · have hle := UInt32.le_iff_toNat_le.1 (UInt32.not_lt.1 h)
    rw [if_neg h]
    omega

/-- The base clock is one of 1 to 1023 MHz. -/
theorem capsBaseClk_range (caps : UInt32) :
    1000000 ≤ (capsBaseClk caps).toNat ∧ (capsBaseClk caps).toNat ≤ 1023000000 := by
  have hmask : (caps &&& 0x3FF).toNat < 1024 := by
    rw [UInt32.toNat_and]
    exact Nat.lt_of_le_of_lt Nat.and_le_right (by decide)
  have hmul : ((caps &&& 0x3FF) * 1000000).toNat = (caps &&& 0x3FF).toNat * 1000000 := by
    rw [UInt32.toNat_mul]
    rw [show (1000000 : UInt32).toNat = 1000000 from rfl]
    exact Nat.mod_eq_of_lt (by omega)
  unfold capsBaseClk
  simp only
  by_cases hzero : (caps &&& 0x3FF) * 1000000 = 0
  · rw [if_pos hzero]
    decide
  · rw [if_neg hzero, hmul]
    have hne : (caps &&& 0x3FF).toNat ≠ 0 := by
      intro h
      apply hzero
      apply UInt32.toNat_inj.1
      rw [hmul, h]
      rfl
    omega

theorem and_one_ne_zero_iff (div : UInt32) : div &&& 1 ≠ 0 ↔ div.toNat % 2 = 1 := by
  rw [ne_eq, ← UInt32.toNat_inj, UInt32.toNat_and, show (1 : UInt32).toNat = 1 from rfl, Nat.and_one_is_mod,
    show (0 : UInt32).toNat = 0 from rfl]
  omega

/-- **The divider is computed without overflow**: it is the one of the natural numbers. -/
theorem clockDivider_toNat {baseClk clock : UInt32} (hclock : 0 < clock.toNat) (hmax : clock.toNat ≤ 200000000)
    (hbase : baseClk.toNat ≤ 1023000000) :
    (clockDivider baseClk clock).toNat = UBoot.divider baseClk.toNat clock.toNat := by
  have hone : (1 : UInt32).toNat = 1 := rfl
  -- the sum is at most 1223 MHz
  have hsum : (baseClk + clock - 1).toNat = baseClk.toNat + clock.toNat - 1 := by
    rw [UInt32.toNat_sub, UInt32.toNat_add, hone]
    omega
  have hdiv : ((baseClk + clock - 1) / clock).toNat = (baseClk.toNat + clock.toNat - 1) / clock.toNat := by
    rw [UInt32.toNat_div, hsum]
  have hle : (baseClk.toNat + clock.toNat - 1) / clock.toNat ≤ baseClk.toNat + clock.toNat - 1 := Nat.div_le_self _ _
  unfold clockDivider UBoot.divider EFX_EMMC_MAX_FREQ
  simp only
  rw [if_neg (show ¬clock.toNat > 200000000 by omega)]
  by_cases hge : clock ≥ baseClk
  · rw [if_pos hge, if_pos (UInt32.le_iff_toNat_le.1 hge)]
    rfl
  · rw [if_neg hge, if_neg (fun h => hge (UInt32.le_iff_toNat_le.2 h))]
    by_cases hodd : (baseClk + clock - 1) / clock > 1 ∧ (baseClk + clock - 1) / clock &&& 1 ≠ 0
    · have hlt := UInt32.lt_iff_toNat_lt.1 hodd.1
      have hmod := (and_one_ne_zero_iff _).1 hodd.2
      rw [hdiv] at hlt hmod
      rw [if_pos hodd, if_pos ⟨hone ▸ hlt, hmod⟩, UInt32.toNat_add, hdiv, hone]
      omega
    · rw [if_neg hodd, hdiv, if_neg]
      rintro ⟨hlt, hmod⟩
      refine hodd ⟨UInt32.lt_iff_toNat_lt.2 ?_, (and_one_ne_zero_iff _).2 ?_⟩
      · rw [hdiv, hone]
        exact hlt
      · rw [hdiv]
        exact hmod

/-- The field of the register that was programmed. -/
theorem programDivider_field (reg : UInt32) {div : UInt32} (hfits : div.toNat < 2 ^ 16) :
    divField (programDivider reg div) = div.toNat := by
  have hbits : programDivider reg div &&& CLK_DIV_MASK = div &&& CLK_DIV_MASK := by
    unfold programDivider CLK_EN CLK_DIV_MASK
    apply UInt32.toBitVec_inj.1
    apply BitVec.eq_of_getLsbD_eq
    intro i hi
    have hmask : (0xFFFF : UInt32).toBitVec.getLsbD i = decide (i < 16) := by
      rw [show (0xFFFF : UInt32).toBitVec = BitVec.ofNat 32 (2 ^ 16 - 1) from rfl, BitVec.getLsbD_ofNat,
        Nat.testBit_two_pow_sub_one, decide_eq_true hi, Bool.true_and]
    have hen : (0x10000 : UInt32).toBitVec.getLsbD i = decide (16 = i) := by
      rw [show (0x10000 : UInt32).toBitVec = BitVec.ofNat 32 (2 ^ 16) from rfl, BitVec.getLsbD_ofNat,
        Nat.testBit_two_pow, decide_eq_true hi, Bool.true_and]
    simp only [UInt32.toBitVec_and, UInt32.toBitVec_or, UInt32.toBitVec_not, BitVec.getLsbD_and, BitVec.getLsbD_or,
      BitVec.getLsbD_not, hmask, hen]
    by_cases h16 : i < 16
    · simp [h16, show 16 ≠ i by omega]
    · simp [h16]
  unfold divField
  rw [hbits, UInt32.toNat_and]
  exact Nat.and_two_pow_sub_one_of_lt_two_pow (n := 16) hfits

/-! ## The smallest divider -/

theorem divider_divides (hbase : 0 < baseClk) (hclock : clock ≠ 0) : Divides (UBoot.divider baseClk clock) := by
  have hpos := UBoot.divider_pos hbase hclock
  have heven := UBoot.divider_even baseClk clock
  exact ⟨hpos, by omega⟩

/-- **No smaller divider is slow enough.** -/
theorem divider_least {d : ℕ} (hclock : clock ≠ 0) (hd : Divides d) (hslow : baseClk ≤ d * UBoot.capped clock) :
    UBoot.divider baseClk clock ≤ d := by
  have hpos := UBoot.capped_pos hclock
  obtain ⟨hd0, heven⟩ := hd
  rcases UBoot.divider_cases baseClk clock with ⟨-, hone⟩ | ⟨hlt, hdiv⟩
  · omega
  · -- the quotient, rounded up, is at most `d`, which is even
    have hceil : (baseClk + UBoot.capped clock - 1) / UBoot.capped clock ≤ d := by
      rw [Nat.div_le_iff_le_mul_add_pred hpos, Nat.mul_comm]
      omega
    have hne : d ≠ 1 := by
      rintro rfl
      omega
    rw [hdiv]
    split
    · rename_i hodd
      omega
    · omega

theorem capped_eq_min (clock : ℕ) : UBoot.capped clock = min clock 200000000 := by
  unfold UBoot.capped EFX_EMMC_MAX_FREQ
  split <;> omega

/-- **The divider is right** for every base clock of the controller and every clock from 400 kHz. -/
theorem divider_right (baseClk clock : ℕ) (hbase : 0 < baseClk) (hmax : baseClk ≤ 1023000000) (hclock : 400000 ≤ clock) :
    RightClockDivider baseClk clock (UBoot.divider baseClk clock) := by
  have hne : clock ≠ 0 := by omega
  have hdivides := divider_divides hbase hne
  have hmul : baseClk ≤ UBoot.divider baseClk clock * UBoot.capped clock := UBoot.base_le_mul hne
  have hcap := capped_eq_min clock
  refine ⟨hdivides, ?_, ?_, ?_⟩
  · -- 1023 MHz in 2558 is less than 400 kHz
    have hle : UBoot.divider baseClk clock ≤ 2558 := divider_least hne ⟨by decide, Or.inr (by decide)⟩ (by omega)
    omega
  · rw [emmcFreq_le_iff hdivides.1, ← hcap]
    exact hmul
  · intro d hd hslow
    rw [emmcFreq_le_iff hd.1, ← hcap] at hslow
    exact divider_least hne hd hslow

/-- The divider is the same for a clock that is limited first. -/
theorem divider_limit (baseClk clock : ℕ) : UBoot.divider baseClk (min clock 200000000) = UBoot.divider baseClk clock := by
  unfold UBoot.divider EFX_EMMC_MAX_FREQ
  simp only
  rw [if_neg (show ¬min clock 200000000 > 200000000 by omega),
    show (if clock > 200000000 then 200000000 else clock) = min clock 200000000 by split <;> omega]

/-- **`efx_emmc_set_clock`** of both drivers programs the right divider, and records the clock that it makes. -/
theorem set_clock_divider {caps clock : UInt32} (hclock : 400000 ≤ clock.toNat) {l : LinuxClock} {u : UBootClock}
    (hl : l.baseClk = capsBaseClk caps) (hu : u.baseClk = capsBaseClk caps) :
    RightClockDivider (capsBaseClk caps).toNat clock.toNat (divField (l.setClock clock).baseReg0) ∧
      (l.setClock clock).clkDiv.toNat = divField (l.setClock clock).baseReg0 ∧
      (l.setClock clock).currentClk.toNat = (capsBaseClk caps).toNat / divField (l.setClock clock).baseReg0 ∧
      divField (u.setClock clock).baseReg0 = divField (l.setClock clock).baseReg0 ∧
      (u.setClock clock).currentClk = (l.setClock clock).currentClk := by
  obtain ⟨hmin, hmax⟩ := capsBaseClk_range caps
  have hlimit := limitClock_toNat clock
  have hdiv : (clockDivider (capsBaseClk caps) (limitClock clock)).toNat =
      UBoot.divider (capsBaseClk caps).toNat clock.toNat := by
    rw [clockDivider_toNat (by omega) (by omega) hmax, hlimit, divider_limit]
  have hright := divider_right (capsBaseClk caps).toNat clock.toNat (by omega) hmax hclock
  have hne : clock ≠ 0 := by
    rintro rfl
    exact absurd hclock (by decide)
  have hfield : ∀ reg, divField (programDivider reg (clockDivider (capsBaseClk caps) (limitClock clock))) =
      UBoot.divider (capsBaseClk caps).toNat clock.toNat := by
    intro reg
    rw [programDivider_field reg (hdiv ▸ hright.fits), hdiv]
  unfold LinuxClock.setClock UBootClock.setClock
  rw [if_neg hne, if_neg hne]
  simp only [hl, hu, hfield]
  refine ⟨hright, hdiv, ?_, trivial, trivial⟩
  rw [UInt32.toNat_div, hdiv]

/-- The drivers with a base clock of 50 MHz. -/
def linuxAt50 : LinuxClock := ⟨capsBaseClk 50, 0, 0, 0⟩
def ubootAt50 : UBootClock := ⟨capsBaseClk 50, 0, 0⟩

/-- The clock of the identification at 50 MHz. -/
theorem set_clock_at_50MHz :
    RightClockDivider (capsBaseClk 50).toNat (400000 : UInt32).toNat 126 ∧
      (linuxAt50.setClock 400000).currentClk = 396825 ∧ (ubootAt50.setClock 400000).currentClk = 396825 := by
  have hcurrent : (linuxAt50.setClock 400000).currentClk = 396825 := by decide +kernel
  have hfield : divField (linuxAt50.setClock 400000).baseReg0 = 126 := by decide +kernel
  obtain ⟨hright, -, -, -, hsame⟩ :=
    @set_clock_divider 50 400000 (by decide) linuxAt50 ubootAt50 rfl rfl
  rw [hfield] at hright
  exact ⟨hright, hcurrent, hsame.trans hcurrent⟩

end Br2Efinix.Emmc
