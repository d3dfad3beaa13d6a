import Mathlib.Algebra.GroupWithZero.Nat
import Mathlib.Data.Nat.Bitwise

/-!
# Chip-select commands

`spi_spinal_lib_set_cs` of either driver, and what the controller reads in its command: the number of
the select line in bits 0 to 6, and in bit 7 whether it is enabled.
-/

namespace Br2Efinix.Spi

def SPI_CPHA : BitVec 32 := 0x01#32

def SPI_CPOL : BitVec 32 := 0x02#32

def SPI_CS_HIGH : BitVec 32 := 0x04#32

/-- `(mode & SPI_CS_HIGH) != 0`. -/
def csHigh (mode : BitVec 32) : Bool := decide (mode &&& SPI_CS_HIGH ≠ 0#32)

/-- `spi_spinal_lib_set_cs`. -/
def setCs (cs mode : BitVec 32) (high : Bool) : BitVec 32 :=
  cs ||| (if high ^^ csHigh mode then 0x00#32 else 0x80#32) ||| 0x800#32

/-- The select line that a command is for. -/
def lineOf (w : BitVec 32) : BitVec 32 := w &&& 0x7F#32

/-- Whether the command enables it. -/
def enables (w : BitVec 32) : Bool := w.getLsbD 7

/-- **The enable bit** is that of a level other than the idle one, if the line's number leaves it alone. -/
theorem enables_setCs (cs mode : BitVec 32) (high : Bool) :
    enables (setCs cs mode high) = (cs.getLsbD 7 || !(high ^^ csHigh mode)) := by
  unfold enables setCs
  rw [BitVec.getLsbD_or, BitVec.getLsbD_or]
  cases high ^^ csHigh mode <;> simp

/-- **The line** is the one that the low bits of its number name. -/
theorem lineOf_setCs (cs mode : BitVec 32) (high : Bool) : lineOf (setCs cs mode high) = lineOf cs := by
  have hflags : ((if high ^^ csHigh mode then 0x00#32 else 0x80#32) &&& 0x7F#32) = 0#32 := by
    cases high ^^ csHigh mode <;> decide
  unfold lineOf setCs
  rw [BitVec.and_or_distrib_right, BitVec.and_or_distrib_right, hflags, show 0x800#32 &&& 0x7F#32 = 0#32 by decide,
    BitVec.or_zero, BitVec.or_zero]

/-- A number that leaves the flags alone names the line itself. -/
theorem lineOf_eq {cs : BitVec 32} (h : cs.toNat < 128) : lineOf cs = cs := by
  apply BitVec.eq_of_toNat_eq
  unfold lineOf
  rw [BitVec.toNat_and, show (0x7F#32).toNat = 2 ^ 7 - 1 by decide, Nat.and_two_pow_sub_one_eq_mod]
  exact Nat.mod_eq_of_lt h

/-- No other number names itself. -/
theorem lt_of_lineOf {cs : BitVec 32} (h : lineOf cs = cs) : cs.toNat < 128 := by
  have hmod : cs.toNat % 2 ^ 7 = cs.toNat := by
    rw [← Nat.and_two_pow_sub_one_eq_mod]
    exact congrArg BitVec.toNat h
  have hlt := Nat.mod_lt cs.toNat (show 0 < 2 ^ 7 by decide)
  omega

theorem enable_bit_clear {cs : BitVec 32} (h : cs.toNat < 128) : cs.getLsbD 7 = false :=
  Nat.testBit_lt_two_pow h

end Br2Efinix.Spi
