import Mathlib.Algebra.Order.Field.Basic
import Mathlib.Data.Nat.Bitwise
import Mathlib.Data.Rat.Cast.Order
import Mathlib.Tactic.Positivity
import Mathlib.Tactic.Ring

/-!
# The MDIO clock divider

`tsemac_mdio_enable` of Linux and `efinix_tse_mdio_init` of U-Boot, as far as they program the divider of the
MDIO clock: divider `d` gives the host clock over `2 * (d + 1)`. Linux combines the divider with the mask of its
field by `|`, U-Boot by `&`.

* `linuxDivider_eq`: Linux programs the largest divider, whatever the clock.
* `ubootDivider_eq`: U-Boot programs the smallest one that is slow enough, modulo 256.
* `mdio_divider_iff`: both are right for three bands of clocks.
-/

namespace Br2Efinix.Tsemac

def MAX_MDIO_FREQ : ℕ := 2500000
def MDIO_DIVIDER_MASK : ℕ := 0xFF

/-! ## The drivers -/

/-- `lp->mii_clk_div`, which is a `u8`, from the 32-bit host clock. -/
def miiClkDiv (hostClock : ℕ) : ℕ :=
  let div := (hostClock / (MAX_MDIO_FREQ * 2) + (2 ^ 32 - 1)) % 2 ^ 32 % 2 ^ 8
  if hostClock % (MAX_MDIO_FREQ * 2) ≠ 0 then (div + 1) % 2 ^ 8 else div

/-- What `tsemac_mdio_enable` writes to `MDIO_REG_DIVIDER_PRE`. -/
def tsemacMdioEnable (hostClock : ℕ) : ℕ := miiClkDiv hostClock ||| MDIO_DIVIDER_MASK

/-- `DIV_ROUND_UP` on words of so many bits. -/
def divRoundUp (bits n d : ℕ) : ℕ := (n + d + (2 ^ bits - 1)) % 2 ^ bits / d

/-- What `efinix_tse_mdio_init` writes to `MDIO_REG_DIVIDER_PRE`, with an `unsigned long` of so many bits. -/
def efinixTseMdioInit (bits axiClkRate : ℕ) : ℕ :=
  let div := divRoundUp bits axiClkRate (MAX_MDIO_FREQ * 2)
  (if div ≠ 0 then div - 1 else div) &&& MDIO_DIVIDER_MASK

/-- The divider's field of the register. -/
def dividerField (reg : ℕ) : ℕ := reg % 2 ^ 8

/-! ## What is right -/

/-- The MDIO clock, as a rational number. -/
def mdioFreq (hostClock d : ℕ) : ℚ := hostClock / (2 * (d + 1))

/-- The smallest divider of 8 bits that is slow enough, or the largest one when none is. -/
structure RightDivider (hostClock d : ℕ) : Prop where
  smallest : (∃ d' < 256, mdioFreq hostClock d' ≤ MAX_MDIO_FREQ) →
    mdioFreq hostClock d ≤ MAX_MDIO_FREQ ∧ ∀ d' < 256, mdioFreq hostClock d' ≤ MAX_MDIO_FREQ → d ≤ d'
  largest : (¬ ∃ d' < 256, mdioFreq hostClock d' ≤ MAX_MDIO_FREQ) → d = 255

/-- Both drivers program the same divider, and the right one. -/
structure DividersRight (bits : ℕ) (hostClock : BitVec 32) : Prop where
  same : dividerField (tsemacMdioEnable hostClock.toNat) = dividerField (efinixTseMdioInit bits hostClock.toNat)
  linux : RightDivider hostClock.toNat (dividerField (tsemacMdioEnable hostClock.toNat))
  uboot : RightDivider hostClock.toNat (dividerField (efinixTseMdioInit bits hostClock.toNat))

/-- The clocks for which the largest divider is the right one and U-Boot gets it. -/
def InBand (hostClock : ℕ) : Prop :=
  1275000000 < hostClock ∧ hostClock ≤ 1280000000 ∨ 2555000000 < hostClock ∧ hostClock ≤ 2560000000 ∨
    3835000000 < hostClock ∧ hostClock ≤ 3840000000

variable {hostClock d bits : ℕ}

theorem mdioFreq_le_iff : mdioFreq hostClock d ≤ MAX_MDIO_FREQ ↔ hostClock ≤ 5000000 * (d + 1) := by
  have hpos : (0 : ℚ) < 2 * (d + 1) := by positivity
  have hmul : (MAX_MDIO_FREQ : ℚ) * (2 * (d + 1)) = ((5000000 * (d + 1) : ℕ) : ℚ) := by
    unfold MAX_MDIO_FREQ
    push_cast
    ring
  unfold mdioFreq
  rw [div_le_iff₀ hpos, hmul, Nat.cast_le]

/-- The right divider is the number of 5 MHz begun, less one, or the largest. -/
theorem rightDivider_iff : RightDivider hostClock d ↔ d = min 255 ((hostClock + 4999999) / 5000000 - 1) := by
  constructor
  · rintro ⟨hsmallest, hlargest⟩
    simp only [mdioFreq_le_iff] at hsmallest hlargest
    by_cases hslow : hostClock ≤ 5000000 * 256
    · obtain ⟨hd, hmin⟩ := hsmallest ⟨255, by omega, by omega⟩
      have hle := hmin ((hostClock + 4999999) / 5000000 - 1) (by omega) (by omega)
      omega
    · have hd := hlargest fun ⟨d', h1, h2⟩ => by omega
      omega
  · rintro rfl
    constructor
    · simp only [mdioFreq_le_iff]
      rintro ⟨d', h1, h2⟩
      refine ⟨by omega, ?_⟩
      intro d'' h3 h4
      omega
    · simp only [mdioFreq_le_iff]
      intro hnone
      have h255 : ¬ hostClock ≤ 5000000 * 256 := fun h => hnone ⟨255, by omega, by omega⟩
      omega

/-! ## What is programmed -/

theorem or_mask (x : ℕ) : (x ||| MDIO_DIVIDER_MASK) % 2 ^ 8 = 255 := by
  unfold MDIO_DIVIDER_MASK
  rw [Nat.or_mod_two_pow, show 0xFF % 2 ^ 8 = 255 by decide]
  have hlt : x % 2 ^ 8 ||| 255 < 2 ^ 8 := Nat.or_lt_two_pow (Nat.mod_lt x (by decide)) (by decide)
  have hge : 255 ≤ x % 2 ^ 8 ||| 255 := Nat.right_le_or
  omega

/-- **Linux** always programs the largest divider. -/
theorem linuxDivider_eq (hostClock : ℕ) : dividerField (tsemacMdioEnable hostClock) = 255 := by
  unfold dividerField tsemacMdioEnable
  exact or_mask _

/-- **U-Boot** programs the divider modulo 256; where the sum of the rounding wraps around it is 0. -/
theorem ubootDivider_eq (hostClock : ℕ) :
    dividerField (efinixTseMdioInit bits hostClock) = ((hostClock + 4999999) % 2 ^ bits / 5000000 - 1) % 256 := by
  have hpos : 0 < 2 ^ bits := Nat.two_pow_pos bits
  have hsum : (hostClock + MAX_MDIO_FREQ * 2 + (2 ^ bits - 1)) % 2 ^ bits = (hostClock + 4999999) % 2 ^ bits := by
    unfold MAX_MDIO_FREQ
    rw [show hostClock + 2500000 * 2 + (2 ^ bits - 1) = hostClock + 4999999 + 2 ^ bits by omega, Nat.add_mod_right]
  unfold dividerField efinixTseMdioInit divRoundUp MDIO_DIVIDER_MASK
  simp only
  rw [hsum, show (0xFF : ℕ) = 2 ^ 8 - 1 by decide, Nat.and_two_pow_sub_one_eq_mod, Nat.mod_mod]
  unfold MAX_MDIO_FREQ
  split
  · rfl
  · rename_i hzero
    rw [not_not.1 hzero]

/-- **The drivers program the right divider** exactly in three bands of clocks, whether an `unsigned long` has
32 bits or 64. -/
theorem mdio_divider_iff (hostClock : BitVec 32) :
    (DividersRight 32 hostClock ↔ InBand hostClock.toNat) ∧ (DividersRight 64 hostClock ↔ InBand hostClock.toNat) := by
  have hlt := hostClock.isLt
  have hright : ∀ bits, DividersRight bits hostClock ↔
      255 = ((hostClock.toNat + 4999999) % 2 ^ bits / 5000000 - 1) % 256 ∧
        255 = min 255 ((hostClock.toNat + 4999999) / 5000000 - 1) := by
    intro bits
    constructor
    · rintro ⟨hsame, hlinux, -⟩
      rw [linuxDivider_eq, ubootDivider_eq] at hsame
      rw [linuxDivider_eq, rightDivider_iff] at hlinux
      exact ⟨hsame, hlinux⟩
    · rintro ⟨hsame, hlinux⟩
      have huboot := rightDivider_iff.2 hlinux
      refine ⟨?_, ?_, ?_⟩
      · rw [linuxDivider_eq, ubootDivider_eq]
        exact hsame
      · rw [linuxDivider_eq]
        exact huboot
      · rw [ubootDivider_eq, ← hsame]
        exact huboot
  rw [hright, hright, Nat.mod_eq_of_lt (show hostClock.toNat + 4999999 < 2 ^ 64 by omega)]
  unfold InBand
  constructor
  · by_cases hwrap : hostClock.toNat + 4999999 < 2 ^ 32
    · rw [Nat.mod_eq_of_lt hwrap]
      omega
    · -- the sum wraps around, and the divider is 0
      have hzero : (hostClock.toNat + 4999999) % 2 ^ 32 / 5000000 = 0 := by omega
      rw [hzero]
      omega
  · omega

/-- **At 100 MHz** Linux programs 255, and U-Boot 19, which gives 2.5 MHz. -/
theorem dividers_at_100MHz :
    ¬ DividersRight 32 100000000#32 ∧ ¬ DividersRight 64 100000000#32 ∧
      dividerField (tsemacMdioEnable 100000000) = 255 ∧ dividerField (efinixTseMdioInit 64 100000000) = 19 := by
  refine ⟨?_, ?_, linuxDivider_eq _, by decide⟩
  · intro h
    exact absurd h.same (by decide)
  · intro h
    exact absurd h.same (by decide)

end Br2Efinix.Tsemac
