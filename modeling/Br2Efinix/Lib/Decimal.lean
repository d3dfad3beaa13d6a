import Mathlib.Algebra.GroupWithZero.Nat
import Mathlib.Data.Int.Notation
import Mathlib.Data.List.Basic
import Mathlib.Data.Nat.Digits.Lemmas
import Mathlib.Data.Nat.Notation

/-!
# Decimal text

`atoi` of the C library on bytes, for numbers that an `int` can hold, the four digits of `%04d`,
and `%d`.

* `atoi_digits`, `atoi_minus`: the number of a text of digits, up to the first other byte.
* `atoi_foreign`: what follows a byte that is no part of a number is not read.
* `atoi_fourDigits`: the four digits are read back.
* `digitsValue_decimalNat`: so are the digits of a number of any length.
-/

namespace Br2Efinix

def isSpace (b : UInt8) : Bool := b == 32 || (9 ≤ b && b ≤ 13)

def isDigit (b : UInt8) : Bool := 48 ≤ b && b ≤ 57

/-- The number of a list of digits. -/
def digitsValue (ds : List UInt8) : ℕ := ds.foldl (fun n b => 10 * n + (b.toNat - 48)) 0

/-- `atoi`: white space, a sign, and digits. -/
def atoi (s : List UInt8) : ℤ :=
  match s.dropWhile isSpace with
  | [] => 0
  | b :: t =>
    if b = 45 then -Int.ofNat (digitsValue (t.takeWhile isDigit))
    else if b = 43 then Int.ofNat (digitsValue (t.takeWhile isDigit))
    else Int.ofNat (digitsValue ((b :: t).takeWhile isDigit))

/-- `%04d` of a number below 10000. -/
def fourDigits (n : ℕ) : List UInt8 :=
  [UInt8.ofNat (48 + n / 1000 % 10), UInt8.ofNat (48 + n / 100 % 10), UInt8.ofNat (48 + n / 10 % 10),
    UInt8.ofNat (48 + n % 10)]

variable {ds rest : List UInt8} {b : UInt8} {n m : ℕ}

/-- No digit follows. -/
def EndsDigits (rest : List UInt8) : Prop := ∀ b ∈ rest.head?, isDigit b = false

theorem endsDigits_nil : EndsDigits [] := nofun

theorem takeWhile_digits (hds : ∀ b ∈ ds, isDigit b = true) (hrest : EndsDigits rest) :
    (ds ++ rest).takeWhile isDigit = ds := by
  induction ds with
  | nil =>
    cases rest with
    | nil => rfl
    | cons b rest => exact List.takeWhile_cons_of_neg (by rw [hrest b rfl]; exact Bool.false_ne_true)
  | cons d ds ih =>
    rw [List.cons_append, List.takeWhile_cons_of_pos (hds d (List.mem_cons_self ..)),
      ih fun b hb => hds b (List.mem_cons_of_mem _ hb)]

theorem isDigit_bounds (h : isDigit b = true) : 48 ≤ b.toNat ∧ b.toNat ≤ 57 := by
  unfold isDigit at h
  rw [Bool.and_eq_true, decide_eq_true_eq, decide_eq_true_eq, UInt8.le_iff_toNat_le, UInt8.le_iff_toNat_le] at h
  exact h

theorem isSpace_of_isDigit (h : isDigit b = true) : isSpace b = false := by
  have hb := isDigit_bounds h
  unfold isSpace
  have h32 : (b == 32) = false := beq_eq_false_iff_ne.2 fun heq => by
    rw [heq] at hb
    exact absurd hb.1 (by decide)
  have h13 : decide (b ≤ 13) = false := by
    rw [decide_eq_false_iff_not, UInt8.le_iff_toNat_le]
    exact fun hle => absurd (Nat.le_trans hb.1 hle) (by decide)
  rw [h32, h13, Bool.and_false, Bool.or_false]

theorem atoi_space (s : List UInt8) (h : isSpace b = true) : atoi (b :: s) = atoi s := by
  unfold atoi
  rw [List.dropWhile_cons_of_pos h]

/-- The number of digits that come first. -/
theorem atoi_digits (hne : ds ≠ []) (hds : ∀ b ∈ ds, isDigit b = true) (hrest : EndsDigits rest) :
    atoi (ds ++ rest) = Int.ofNat (digitsValue ds) := by
  obtain ⟨d, ds, rfl⟩ := List.exists_cons_of_ne_nil hne
  have hd := hds d (List.mem_cons_self ..)
  have hbounds := isDigit_bounds hd
  have h45 : d ≠ 45 := by
    rintro rfl
    exact absurd hbounds.1 (by decide)
  have h43 : d ≠ 43 := by
    rintro rfl
    exact absurd hbounds.1 (by decide)
  have hnospace : ((d :: ds) ++ rest).dropWhile isSpace = d :: (ds ++ rest) :=
    List.dropWhile_cons_of_neg (by rw [isSpace_of_isDigit hd]; exact Bool.false_ne_true)
  unfold atoi
  rw [hnospace]
  show (if d = 45 then _ else if d = 43 then _ else Int.ofNat (digitsValue (((d :: ds) ++ rest).takeWhile isDigit))) = _
  rw [if_neg h45, if_neg h43, takeWhile_digits hds hrest]

/-- A minus sign before them. -/
theorem atoi_minus (hds : ∀ b ∈ ds, isDigit b = true) (hrest : EndsDigits rest) :
    atoi (45 :: (ds ++ rest)) = -Int.ofNat (digitsValue ds) := by
  have hnospace : (45 :: (ds ++ rest)).dropWhile isSpace = 45 :: (ds ++ rest) :=
    List.dropWhile_cons_of_neg (show ¬ isSpace 45 = true by decide)
  unfold atoi
  rw [hnospace]
  show (if (45 : UInt8) = 45 then -Int.ofNat (digitsValue ((ds ++ rest).takeWhile isDigit)) else _) = _
  rw [if_pos rfl, takeWhile_digits hds hrest]

/-- A byte that is no part of a number. -/
structure Foreign (b : UInt8) : Prop where
  space : isSpace b = false
  digit : isDigit b = false
  minus : b ≠ 45
  plus : b ≠ 43

theorem takeWhile_foreign (s t : List UInt8) (hb : Foreign b) :
    (s ++ b :: t).takeWhile isDigit = s.takeWhile isDigit := by
  induction s with
  | nil => exact List.takeWhile_cons_of_neg (by rw [hb.digit]; exact Bool.false_ne_true)
  | cons x s ih =>
    by_cases hx : isDigit x = true
    · rw [List.cons_append, List.takeWhile_cons_of_pos hx, List.takeWhile_cons_of_pos hx, ih]
    · rw [List.cons_append, List.takeWhile_cons_of_neg hx, List.takeWhile_cons_of_neg hx]

/-- Nothing is read from such a byte on. -/
theorem atoi_foreign (s t : List UInt8) (hb : Foreign b) : atoi (s ++ b :: t) = atoi s := by
  induction s with
  | nil =>
    have hnospace : (b :: t).dropWhile isSpace = b :: t :=
      List.dropWhile_cons_of_neg (by rw [hb.space]; exact Bool.false_ne_true)
    have hnone : (b :: t).takeWhile isDigit = [] :=
      List.takeWhile_cons_of_neg (by rw [hb.digit]; exact Bool.false_ne_true)
    unfold atoi
    rw [List.nil_append, hnospace]
    show (if b = 45 then _ else if b = 43 then _ else Int.ofNat (digitsValue ((b :: t).takeWhile isDigit))) = _
    rw [if_neg hb.minus, if_neg hb.plus, hnone]
    rfl
  | cons x s ih =>
    by_cases hx : isSpace x = true
    · rw [List.cons_append, atoi_space _ hx, atoi_space _ hx, ih]
    · -- the white space ends here, and the digits do before `b`
      have hleft : ((x :: s) ++ b :: t).dropWhile isSpace = x :: (s ++ b :: t) := List.dropWhile_cons_of_neg hx
      have hright : (x :: s).dropWhile isSpace = x :: s := List.dropWhile_cons_of_neg hx
      unfold atoi
      rw [hleft, hright]
      simp only [← List.cons_append, takeWhile_foreign _ _ hb]

theorem digit_toNat (h : n < 10) : (UInt8.ofNat (48 + n)).toNat = 48 + n := by
  rw [UInt8.toNat_ofNat']
  exact Nat.mod_eq_of_lt (by omega)

theorem isDigit_digit (h : n < 10) : isDigit (UInt8.ofNat (48 + n)) = true := by
  unfold isDigit
  rw [Bool.and_eq_true, decide_eq_true_eq, decide_eq_true_eq, UInt8.le_iff_toNat_le, UInt8.le_iff_toNat_le,
    digit_toNat h]
  exact ⟨Nat.le_add_right 48 n, show 48 + n ≤ 57 by omega⟩

theorem isDigit_fourDigits (n : ℕ) : ∀ b ∈ fourDigits n, isDigit b = true := by
  intro b hb
  simp only [fourDigits, List.mem_cons, List.not_mem_nil, or_false] at hb
  rcases hb with rfl | rfl | rfl | rfl
  · exact isDigit_digit (Nat.mod_lt _ (by decide))
  · exact isDigit_digit (Nat.mod_lt _ (by decide))
  · exact isDigit_digit (Nat.mod_lt _ (by decide))
  · exact isDigit_digit (Nat.mod_lt _ (by decide))

theorem digitsValue_fourDigits (h : n < 10000) : digitsValue (fourDigits n) = n := by
  have hsub : ∀ m, (UInt8.ofNat (48 + m % 10)).toNat - 48 = m % 10 := fun m => by
    rw [digit_toNat (Nat.mod_lt _ (by decide)), Nat.add_sub_cancel_left]
  unfold digitsValue fourDigits
  simp only [List.foldl_cons, List.foldl_nil, hsub]
  omega

/-- **The four digits are read back.** -/
theorem atoi_fourDigits (h : n < 10000) : atoi (fourDigits n) = Int.ofNat n := by
  have hatoi : atoi (fourDigits n ++ []) = Int.ofNat (digitsValue (fourDigits n)) :=
    atoi_digits (List.cons_ne_nil _ _) (isDigit_fourDigits n) endsDigits_nil
  rwa [List.append_nil, digitsValue_fourDigits h] at hatoi

theorem fourDigits_injective (hm : m < 10000) (hn : n < 10000) (h : fourDigits m = fourDigits n) : m = n := by
  rw [← digitsValue_fourDigits hm, h, digitsValue_fourDigits hn]

/-! ## Numbers of any length -/

/-- `%d` of a number that is not negative. -/
def decimalNat (n : ℕ) : List UInt8 :=
  if n = 0 then [48] else (Nat.digits 10 n).reverse.map fun d => UInt8.ofNat (48 + d)

/-- `%d` -/
def decimal (i : ℤ) : List UInt8 := if i < 0 then 45 :: decimalNat i.natAbs else decimalNat i.natAbs

theorem digitsValue_concat (ds : List UInt8) (b : UInt8) :
    digitsValue (ds ++ [b]) = 10 * digitsValue ds + (b.toNat - 48) := by
  unfold digitsValue
  rw [List.foldl_append, List.foldl_cons, List.foldl_nil]

/-- The digits from the last one on, printed. -/
theorem digitsValue_reverse {l : List ℕ} (hl : ∀ d ∈ l, d < 10) :
    digitsValue (l.reverse.map fun d => UInt8.ofNat (48 + d)) = Nat.ofDigits 10 l := by
  induction l with
  | nil => rfl
  | cons d l ih =>
    have hd : d < 10 := hl d (List.mem_cons_self ..)
    rw [List.reverse_cons, List.map_append, List.map_singleton, digitsValue_concat,
      ih fun x hx => hl x (List.mem_cons_of_mem _ hx), digit_toNat hd, Nat.ofDigits_cons, Nat.add_sub_cancel_left,
      Nat.add_comm]

theorem digits_lt_ten (n : ℕ) : ∀ d ∈ Nat.digits 10 n, d < 10 := fun _ hd => Nat.digits_lt_base (by decide) hd

theorem digitsValue_decimalNat (n : ℕ) : digitsValue (decimalNat n) = n := by
  unfold decimalNat
  split
  · rename_i hzero
    rw [hzero]
    rfl
  · rw [digitsValue_reverse (digits_lt_ten n), Nat.ofDigits_digits]

theorem isDigit_decimalNat (n : ℕ) : ∀ b ∈ decimalNat n, isDigit b = true := by
  intro b hb
  unfold decimalNat at hb
  split at hb
  · rw [List.mem_singleton.1 hb]
    decide
  · obtain ⟨d, hd, rfl⟩ := List.mem_map.1 hb
    exact isDigit_digit (digits_lt_ten n d (List.mem_reverse.1 hd))

theorem decimalNat_ne_nil (n : ℕ) : decimalNat n ≠ [] := by
  unfold decimalNat
  split
  · exact List.cons_ne_nil _ _
  · rename_i hn
    intro hnil
    have hdigits : Nat.digits 10 n = [] := by
      rw [List.map_eq_nil_iff, List.reverse_eq_nil_iff] at hnil
      exact hnil
    exact hn (Nat.digits_eq_nil_iff_eq_zero.1 hdigits)

/-- A number below `10 ^ k` has at most `k` digits. -/
theorem decimalNat_length {k : ℕ} (hk : 0 < k) (h : n < 10 ^ k) : (decimalNat n).length ≤ k := by
  unfold decimalNat
  split
  · exact hk
  · rw [List.length_map, List.length_reverse]
    exact (Nat.digits_length_le_iff (by decide) n).2 h

end Br2Efinix
