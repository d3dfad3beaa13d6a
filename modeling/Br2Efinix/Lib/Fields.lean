import Mathlib.Algebra.GroupWithZero.Nat
import Mathlib.Data.Nat.Notation

/-!
# Bit fields

The field of `len` bits from bit `lo` on of a number, and the masks and shifts with which a program takes fields out
of words and joins them.

* `field_field`: a field of a field.
* `field_append`: two fields side by side are one.
* `toNat_shift`, `toNat_low_mask`, `toNat_mask`, `toNat_shift_mask`: taking a field out of a word.
* `toNat_join`, `toNat_two_fields`: joining two fields in a word.
* `followed_iff`: when two numbers plus one are the same multiple of powers of two.
-/

namespace Br2Efinix

/-- The number in the bits `lo`, …, `lo + len - 1`. -/
def field (n lo len : ℕ) : ℕ := n / 2 ^ lo % 2 ^ len

variable {n lo len a m k w : ℕ}

theorem field_lt : field n lo len < 2 ^ len := Nat.mod_lt _ (Nat.two_pow_pos len)

theorem field_field (h : lo + len ≤ m) : field (field n a m) lo len = field n (a + lo) len := by
  have hm : (2 : ℕ) ^ m = 2 ^ lo * 2 ^ (m - lo) := by
    rw [← Nat.pow_add]
    congr 1
    omega
  unfold field
  rw [hm, Nat.mod_mul_right_div_self, Nat.div_div_eq_div_mul, ← Nat.pow_add]
  exact Nat.mod_mod_of_dvd _ (Nat.pow_dvd_pow 2 (by omega))

/-- Two fields side by side are one. -/
theorem field_append (n lo len k : ℕ) : field n (lo + len) k * 2 ^ len + field n lo len = field n lo (len + k) := by
  unfold field
  rw [Nat.pow_add 2 len k, Nat.mod_mul, Nat.pow_add, Nat.div_div_eq_div_mul, Nat.mul_comm (2 ^ len), Nat.add_comm]

/-! ## Words -/

theorem toNat_extract (x : BitVec w) : (x.extractLsb' lo len).toNat = field x.toNat lo len := by
  rw [BitVec.extractLsb'_toNat, Nat.shiftRight_eq_div_pow]
  rfl

/-- `x >> lo` has the field from bit `lo` to the end. -/
theorem toNat_shift (x : BitVec w) (h : lo + len = w) : (x >>> lo).toNat = field x.toNat lo len := by
  have hlt : x.toNat < 2 ^ lo * 2 ^ len := by
    rw [← Nat.pow_add, h]
    exact x.isLt
  rw [BitVec.toNat_ushiftRight, Nat.shiftRight_eq_div_pow]
  exact (Nat.mod_eq_of_lt (Nat.div_lt_of_lt_mul hlt)).symm

/-- `x & mask`, where the mask has the lowest `len` bits. -/
theorem toNat_low_mask {x mask : BitVec w} (hmask : mask.toNat = 2 ^ len - 1) :
    (x &&& mask).toNat = field x.toNat 0 len := by
  rw [BitVec.toNat_and, hmask, Nat.and_two_pow_sub_one_eq_mod]
  unfold field
  rw [Nat.pow_zero, Nat.div_one]

/-- `(x & mask) >> lo`, where the mask has `len` bits from bit `lo` on. -/
theorem toNat_mask {x mask : BitVec w} (hmask : mask.toNat = (2 ^ len - 1) * 2 ^ lo) :
    ((x &&& mask) >>> lo).toNat = field x.toNat lo len := by
  rw [BitVec.toNat_ushiftRight, BitVec.toNat_and, Nat.shiftRight_and_distrib, hmask, Nat.shiftRight_eq_div_pow,
    Nat.shiftRight_eq_div_pow, Nat.mul_div_cancel _ (Nat.two_pow_pos lo), Nat.and_two_pow_sub_one_eq_mod]
  rfl

/-- `(x >> lo) & mask`, where the mask has the lowest `len` bits. -/
theorem toNat_shift_mask {x mask : BitVec w} (hmask : mask.toNat = 2 ^ len - 1) :
    ((x >>> lo) &&& mask).toNat = field x.toNat lo len := by
  rw [BitVec.toNat_and, BitVec.toNat_ushiftRight, hmask, Nat.shiftRight_eq_div_pow, Nat.and_two_pow_sub_one_eq_mod]
  rfl

/-- `x << k | y`, where `y` has `k` bits. -/
theorem toNat_join {x y : BitVec w} (hx : x.toNat * 2 ^ k < 2 ^ w) (hy : y.toNat < 2 ^ k) :
    (x <<< k ||| y).toNat = x.toNat * 2 ^ k + y.toNat := by
  rw [BitVec.toNat_or, BitVec.toNat_shiftLeft, Nat.shiftLeft_eq, Nat.mod_eq_of_lt hx, ← Nat.shiftLeft_eq,
    ← Nat.shiftLeft_add_eq_or_of_lt hy, Nat.shiftLeft_eq]

/-- The lowest `len` bits of one word before the `k` bits from bit `lo` on of another. -/
theorem toNat_two_fields (len : ℕ) {x y mask high : BitVec w} (hmask : mask.toNat = 2 ^ len - 1)
    (hhigh : high.toNat = (2 ^ k - 1) * 2 ^ lo) (hw : len + k ≤ w) :
    (((x &&& mask) <<< k) ||| ((y &&& high) >>> lo)).toNat = field x.toNat 0 len * 2 ^ k + field y.toNat lo k := by
  have hx : (x &&& mask).toNat = field x.toNat 0 len := toNat_low_mask hmask
  have hy : ((y &&& high) >>> lo).toNat = field y.toNat lo k := toNat_mask hhigh
  have hfits : field x.toNat 0 len * 2 ^ k < 2 ^ w := by
    calc field x.toNat 0 len * 2 ^ k < 2 ^ len * 2 ^ k := Nat.mul_lt_mul_of_pos_right field_lt (Nat.two_pow_pos k)
      _ = 2 ^ (len + k) := (Nat.pow_add 2 len k).symm
      _ ≤ 2 ^ w := Nat.pow_le_pow_right (by decide) hw
  rw [toNat_join (by rw [hx]; exact hfits) (by rw [hy]; exact field_lt), hx, hy]

/-- A field that lies across two neighbouring parts of a word. -/
theorem extract_across {v : ℕ} (x : BitVec v) (lo len k : ℕ) (h : k ≤ len) :
    (x.extractLsb' (lo + len) len <<< k) ||| (x.extractLsb' lo len >>> (len - k)) =
      x.extractLsb' (lo + (len - k)) len := by
  ext i hi
  rw [BitVec.getElem_or, BitVec.getElem_shiftLeft, BitVec.getElem_ushiftRight, BitVec.getElem_extractLsb',
    BitVec.getLsbD_extractLsb']
  by_cases hik : i < k
  · -- the bit comes from the lower part
    have hin : len - k + i < len := by omega
    have hsame : lo + (len - k + i) = lo + (len - k) + i := by omega
    rw [hsame]
    simp [hik, hin]
  · have hout : ¬len - k + i < len := by omega
    have hsame : lo + len + (i - k) = lo + (len - k) + i := by omega
    rw [BitVec.getElem_extractLsb', hsame]
    simp [hik, hout]

/-! ## Powers of two -/

/-- In binary, `x` is `y` followed by `d` ones. -/
def FollowedByOnes (x y d : ℕ) : Prop := x = y * 2 ^ d + (2 ^ d - 1)

theorem followed_iff (x y d : ℕ) : x + 1 = (y + 1) * 2 ^ d ↔ FollowedByOnes x y d := by
  unfold FollowedByOnes
  have hpos := Nat.two_pow_pos d
  rw [Nat.add_mul, Nat.one_mul]
  omega

/-- Two numbers plus one that are equal up to powers of two: the one with the smaller power goes on with ones. -/
theorem pow_balance (x y e f : ℕ) : (x + 1) * 2 ^ e = (y + 1) * 2 ^ f ↔
    if e ≤ f then FollowedByOnes x y (f - e) else FollowedByOnes y x (e - f) := by
  split
  · rename_i h
    rw [← followed_iff, ← Nat.sub_add_cancel h, Nat.add_sub_cancel, Nat.pow_add, ← Nat.mul_assoc]
    exact Nat.mul_right_cancel_iff (Nat.two_pow_pos e)
  · rename_i h
    rw [← followed_iff, eq_comm]
    obtain ⟨d, rfl⟩ : ∃ d, e = d + f := ⟨e - f, by omega⟩
    rw [Nat.add_sub_cancel, Nat.pow_add, ← Nat.mul_assoc]
    exact Nat.mul_right_cancel_iff (Nat.two_pow_pos f)

end Br2Efinix
