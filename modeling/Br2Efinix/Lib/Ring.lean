import Mathlib.Algebra.GroupWithZero.Nat
import Mathlib.Data.List.Nodup
import Mathlib.Data.Nat.ModEq

/-!
# Rings addressed by unbounded positions

A ring of `n` slots is walked by positions that never wrap: position `p` is slot
`p % n`. Within a window of `n` consecutive positions a slot determines its
position, so a circular interval `[lo % n, hi % n)` is the image of the interval
`[lo, hi)` and facts about rings become facts about intervals of `ℕ`.

* `slot_inj`: positions in a common window with one slot are equal.
* `wrap_succ`: `if ++i ≥ n then 0` is the slot of the next position.
* `between`: the slots of the circular interval `[a, b)`, in ring order.
* `between_slots`: it is the list of slots of the positions `lo, …, hi - 1`.
-/

namespace Br2Efinix.Ring

variable {n : ℕ}

/-- Positions in a window of `n` with the same slot are equal. -/
theorem slot_inj {a p q : ℕ} (hp : a ≤ p) (hp' : p < a + n) (hq : a ≤ q) (hq' : q < a + n)
    (h : p % n = q % n) : p = q := by
  rcases Nat.le_total p q with hle | hle
  · have hd : n ∣ q - p := (Nat.modEq_iff_dvd' hle).1 h
    have := Nat.eq_zero_of_dvd_of_lt hd (by omega)
    omega
  · have hd : n ∣ p - q := (Nat.modEq_iff_dvd' hle).1 h.symm
    have := Nat.eq_zero_of_dvd_of_lt hd (by omega)
    omega

/-- Positions in a window of `n` that differ have different slots. -/
theorem slot_ne {a p q : ℕ} (hp : a ≤ p) (hp' : p < a + n) (hq : a ≤ q) (hq' : q < a + n)
    (h : p ≠ q) : p % n ≠ q % n := fun he => h (slot_inj hp hp' hq hq' he)

/-- The slots of at most `n` positions in a row differ. -/
theorem offset_inj {a m : ℕ} (hm : m ≤ n) :
    ∀ k < m, ∀ l < m, (a + k) % n = (a + l) % n → k = l := by
  intro k hk l hl heq
  have hsame := slot_inj (a := a) (by omega) (by omega) (by omega) (by omega) heq
  omega

/-- Every slot is the slot of a position in the turn from `a` on. -/
theorem exists_slot {i : ℕ} (a : ℕ) (hi : i < n) : ∃ p, a ≤ p ∧ p < a + n ∧ p % n = i := by
  refine ⟨a + (i + n - a % n) % n, by omega, ?_, ?_⟩
  · have := Nat.mod_lt (i + n - a % n) (show 0 < n by omega)
    omega
  · have ha := Nat.mod_lt a (show 0 < n by omega)
    rw [Nat.add_mod, Nat.mod_mod, ← Nat.add_mod, ← Nat.mod_add_mod a n,
      show a % n + (i + n - a % n) = i + n by omega, Nat.add_mod_right, Nat.mod_eq_of_lt hi]

/-- `if (++i >= n) i = 0` steps to the slot of the next position. -/
theorem wrap_succ (hn : 0 < n) (p : ℕ) :
    (if p % n + 1 ≥ n then 0 else p % n + 1) = (p + 1) % n := by
  have hlt := Nat.mod_lt p hn
  rw [Nat.add_mod p 1 n]
  split
  · rename_i h
    rcases Nat.eq_or_lt_of_le (show 1 ≤ n from hn) with h1 | h1
    · subst h1; simp [Nat.mod_one]
    · rw [Nat.mod_eq_of_lt h1, show p % n + 1 = n by omega, Nat.mod_self]
  · rename_i h
    rw [Nat.mod_eq_of_lt (show 1 < n by omega), Nat.mod_eq_of_lt (a := p % n + 1) (by omega)]

/-- The slot `d` places after the slot of `p`. -/
theorem slot_add (p d : ℕ) : (p % n + d) % n = (p + d) % n := Nat.mod_add_mod p n d

/-- `i += 1; if (i >= n) i %= n` does too. -/
theorem mod_succ (hn : 0 < n) (p : ℕ) :
    (if p % n + 1 ≥ n then (p % n + 1) % n else p % n + 1) = (p + 1) % n := by
  have hlt := Nat.mod_lt p hn
  split
  · exact slot_add p 1
  · rename_i h
    have hone := slot_add (n := n) p 1
    rw [Nat.mod_eq_of_lt (show p % n + 1 < n by omega)] at hone
    exact hone

/-- How far `b` is ahead of `a` on the ring. -/
def dist (n a b : ℕ) : ℕ := (b + n - a) % n

/-- The slots of the circular interval `[a, b)`, in ring order. -/
def between (n a b : ℕ) : List ℕ := (List.range (dist n a b)).map fun i => (a + i) % n

/-- The slots of the positions `lo, …, hi - 1`. -/
def slots (n lo hi : ℕ) : List ℕ := (List.range' lo (hi - lo)).map (· % n)

/-- Positions less than a turn apart are as far apart as their slots. -/
theorem dist_slots {lo hi : ℕ} (h1 : lo ≤ hi) (h2 : hi < lo + n) :
    dist n (lo % n) (hi % n) = hi - lo := by
  have hn : 0 < n := by omega
  have hlt := Nat.mod_lt lo hn
  have hlt' := Nat.mod_lt hi hn
  obtain ⟨d, rfl⟩ : ∃ d, hi = lo + d := ⟨hi - lo, by omega⟩
  have hd : d < n := by omega
  have hm : (lo + d) % n = (lo % n + d) % n := (slot_add lo d).symm
  unfold dist
  rw [Nat.add_sub_cancel_left, hm]
  rcases Nat.lt_or_ge (lo % n + d) n with h | h
  · rw [Nat.mod_eq_of_lt h, show lo % n + d + n - lo % n = d + n by omega, Nat.add_mod_right,
      Nat.mod_eq_of_lt hd]
  · rw [Nat.mod_eq_sub_mod h, Nat.mod_eq_of_lt (show lo % n + d - n < n by omega),
      show lo % n + d - n + n - lo % n = d by omega, Nat.mod_eq_of_lt hd]

/-- **A circular interval is the image of an interval of positions.** -/
theorem between_slots {lo hi : ℕ} (h1 : lo ≤ hi) (h2 : hi < lo + n) :
    between n (lo % n) (hi % n) = slots n lo hi := by
  unfold between slots
  rw [dist_slots h1 h2, List.range'_eq_map_range, List.map_map]
  apply List.map_congr_left
  intro i _
  exact slot_add lo i

theorem mem_slots {lo hi x : ℕ} : x ∈ slots n lo hi ↔ ∃ p, lo ≤ p ∧ p < hi ∧ p % n = x := by
  unfold slots
  simp only [List.mem_map, List.mem_range'_1]
  constructor
  · rintro ⟨p, ⟨h1, h2⟩, h3⟩; exact ⟨p, h1, by omega, h3⟩
  · rintro ⟨p, h1, h2, h3⟩; exact ⟨p, ⟨h1, by omega⟩, h3⟩

@[simp] theorem slots_self (lo : ℕ) : slots n lo lo = [] := by simp [slots]

/-- An interval of positions splits at any point in it. -/
theorem slots_append {a b c : ℕ} (h1 : a ≤ b) (h2 : b ≤ c) :
    slots n a c = slots n a b ++ slots n b c := by
  obtain ⟨i, rfl⟩ : ∃ i, b = a + i := ⟨b - a, by omega⟩
  obtain ⟨j, rfl⟩ : ∃ j, c = a + i + j := ⟨c - (a + i), by omega⟩
  unfold slots
  rw [← List.map_append, Nat.add_sub_cancel_left, Nat.add_sub_cancel_left, List.range'_append_1,
    Nat.add_assoc, Nat.add_sub_cancel_left]

theorem slots_cons {lo hi : ℕ} (h : lo < hi) : slots n lo hi = lo % n :: slots n (lo + 1) hi := by
  unfold slots
  rw [show hi - lo = (hi - (lo + 1)) + 1 by omega, List.range'_succ, List.map_cons]

/-- The slots of `k` positions, counted from the slot of the first. -/
theorem slots_add (a k : ℕ) : slots n a (a + k) = (List.range k).map fun i => (a % n + i) % n := by
  unfold slots
  rw [Nat.add_sub_cancel_left, List.range'_eq_map_range, List.map_map]
  refine List.map_congr_left ?_
  intro i _
  exact (slot_add a i).symm

end Br2Efinix.Ring
