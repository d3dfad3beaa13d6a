import Mathlib.Algebra.GroupWithZero.Nat
import Mathlib.Data.List.GetD

/-!
# Memory in segments

A memory is a list of segments, each a list of cells; its contents are the segments' one after the other.

* `flatten_set`: writing into a segment writes into the contents.
* `exists_segment`: every position is in a segment.
* `inside_iff_dvd`: every group of `m` cells, counted from the beginning, lies in one segment exactly when the
  length of every segment is a multiple of `m`.
-/

namespace Br2Efinix.Segments

variable {α : Type*} {xs ys zs : List α} {xss : List (List α)} {i j p m : ℕ}

/-! ## Writing into a list -/

/-- The cells from `p` on are replaced by `ys`. -/
def overwrite (xs : List α) (p : ℕ) (ys : List α) : List α := xs.take p ++ ys ++ xs.drop (p + ys.length)

theorem length_overwrite (h : p + ys.length ≤ xs.length) : (overwrite xs p ys).length = xs.length := by
  unfold overwrite
  simp only [List.length_append, List.length_take, List.length_drop]
  omega

theorem overwrite_nil (xs : List α) (p : ℕ) : overwrite xs p [] = xs := by
  unfold overwrite
  rw [List.append_nil, List.length_nil, Nat.add_zero, List.take_append_drop]

/-- Two writes in a row are one. -/
theorem overwrite_overwrite (h : p + ys.length ≤ xs.length) :
    overwrite (overwrite xs p ys) (p + ys.length) zs = overwrite xs p (ys ++ zs) := by
  have hlen : (xs.take p ++ ys).length = p + ys.length := by
    rw [List.length_append, List.length_take, Nat.min_eq_left (by omega)]
  unfold overwrite
  rw [List.take_left' hlen, List.length_append, ← hlen, List.drop_append, List.drop_of_length_le (by omega),
    List.nil_append, List.drop_drop, hlen]
  simp only [List.append_assoc]
  rw [show p + ys.length + (p + ys.length + zs.length - (p + ys.length)) = p + (ys.length + zs.length) by omega]

theorem overwrite_append_left (h : p + ys.length ≤ xs.length) :
    overwrite (xs ++ zs) p ys = overwrite xs p ys ++ zs := by
  unfold overwrite
  rw [List.take_append_of_le_length (by omega), List.drop_append_of_le_length h]
  simp only [List.append_assoc]

theorem overwrite_append_right : overwrite (xs ++ zs) (xs.length + p) ys = xs ++ overwrite zs p ys := by
  unfold overwrite
  rw [List.take_length_add_append, Nat.add_assoc, List.drop_length_add_append]
  simp only [List.append_assoc]

/-! ## Segments -/

/-- Where segment `i` begins. -/
def start (xss : List (List α)) (i : ℕ) : ℕ := (xss.take i).flatten.length

@[simp] theorem start_zero (xss : List (List α)) : start xss 0 = 0 := rfl

@[simp] theorem start_cons_succ (xs : List α) (xss : List (List α)) (i : ℕ) :
    start (xs :: xss) (i + 1) = xs.length + start xss i := by
  unfold start
  rw [List.take_succ_cons, List.flatten_cons, List.length_append]

theorem start_length (xss : List (List α)) : start xss xss.length = xss.flatten.length := by
  unfold start
  rw [List.take_length]

theorem start_succ (hi : i < xss.length) : start xss (i + 1) = start xss i + xss[i].length := by
  induction xss generalizing i with
  | nil => exact absurd hi (Nat.not_lt_zero i)
  | cons xs xss ih =>
    cases i with
    | zero => simp
    | succ i =>
      rw [start_cons_succ, start_cons_succ, ih (by simpa using hi), Nat.add_assoc]
      rfl

theorem start_mono (h : i ≤ j) : start xss i ≤ start xss j := by
  induction xss generalizing i j with
  | nil => simp [start]
  | cons xs xss ih =>
    cases i with
    | zero => exact Nat.zero_le _
    | succ i =>
      cases j with
      | zero => omega
      | succ j =>
        rw [start_cons_succ, start_cons_succ]
        exact Nat.add_le_add_left (ih (by omega)) _

/-- Where the segments begin depends on their lengths only. -/
theorem start_congr {yss : List (List α)} (h : xss.map List.length = yss.map List.length) :
    start xss i = start yss i := by
  unfold start
  rw [List.length_flatten, List.length_flatten, List.map_take, List.map_take, h]

/-- **Writing into a segment** writes into the contents. -/
theorem flatten_set (hi : i < xss.length) (h : p + ys.length ≤ xss[i].length) :
    (xss.set i (overwrite xss[i] p ys)).flatten = overwrite xss.flatten (start xss i + p) ys := by
  induction xss generalizing i with
  | nil => exact absurd hi (Nat.not_lt_zero i)
  | cons xs xss ih =>
    cases i with
    | zero =>
      rw [start_zero, Nat.zero_add]
      exact (overwrite_append_left h).symm
    | succ i =>
      rw [start_cons_succ, Nat.add_assoc, List.flatten_cons, overwrite_append_right,
        ← ih (by simpa using hi) h]
      rfl

/-- **Reading from a segment** reads from the contents. -/
theorem flatten_getD (hi : i < xss.length) (h : p < xss[i].length) (d : α) :
    xss.flatten.getD (start xss i + p) d = xss[i].getD p d := by
  induction xss generalizing i with
  | nil => exact absurd hi (Nat.not_lt_zero i)
  | cons xs xss ih =>
    cases i with
    | zero =>
      rw [start_zero, Nat.zero_add, List.flatten_cons]
      exact List.getD_append xs xss.flatten d p h
    | succ i =>
      rw [start_cons_succ, Nat.add_assoc, List.flatten_cons,
        List.getD_append_right xs xss.flatten d _ (by omega), Nat.add_sub_cancel_left]
      exact ih (by simpa using hi) h

/-- **Every position** is in a segment. -/
theorem exists_segment (h : p < xss.flatten.length) : ∃ i < xss.length, start xss i ≤ p ∧ p < start xss (i + 1) := by
  induction xss generalizing p with
  | nil => exact absurd h (Nat.not_lt_zero p)
  | cons xs xss ih =>
    by_cases hp : p < xs.length
    · exact ⟨0, Nat.zero_lt_succ _, Nat.zero_le p, by simpa using hp⟩
    · rw [List.flatten_cons, List.length_append] at h
      obtain ⟨i, hi, h1, h2⟩ := ih (p := p - xs.length) (by omega)
      refine ⟨i + 1, by simpa using hi, ?_, ?_⟩
      · rw [start_cons_succ]
        omega
      · rw [start_cons_succ]
        omega

/-- The `m` cells from `p` on lie in one segment. -/
def Inside (xss : List (List α)) (p m : ℕ) : Prop := ∃ i < xss.length, start xss i ≤ p ∧ p + m ≤ start xss (i + 1)

/-- A segment's end in the midst of `m` cells keeps them from lying in one segment. -/
theorem not_inside (h1 : p < start xss i) (h2 : start xss i < p + m) : ¬ Inside xss p m := by
  rintro ⟨j, -, h3, h4⟩
  rcases Nat.lt_or_ge j i with hlt | hge
  · have hle : start xss (j + 1) ≤ start xss i := start_mono hlt
    omega
  · have hle : start xss i ≤ start xss j := start_mono hge
    omega

/-- **Groups of `m` cells** lie in one segment each exactly when the segments are of whole groups. -/
theorem inside_iff_dvd (hm : 0 < m) :
    (∀ p, m ∣ p → p < xss.flatten.length → Inside xss p m) ↔ ∀ xs ∈ xss, m ∣ xs.length := by
  constructor
  · intro hinside
    -- every segment begins with a group
    have hstart : ∀ i ≤ xss.length, m ∣ start xss i := by
      intro i hi
      refine Decidable.byContradiction fun hno => ?_
      have hmod : start xss i % m ≠ 0 := fun h => hno (Nat.dvd_of_mod_eq_zero h)
      have hlt := Nat.mod_lt (start xss i) hm
      have hsplit := Nat.div_add_mod (start xss i) m
      have hle : start xss i ≤ xss.flatten.length := by
        rw [← start_length]
        exact start_mono hi
      exact not_inside (i := i) (by omega) (by omega)
        (hinside (m * (start xss i / m)) (Nat.dvd_mul_right m _) (by omega))
    intro xs hxs
    obtain ⟨i, hi, rfl⟩ := List.getElem_of_mem hxs
    have hnext := hstart (i + 1) hi
    rw [start_succ hi] at hnext
    exact (Nat.dvd_add_right (hstart i (Nat.le_of_lt hi))).1 hnext
  · intro hall p hp hlt
    have hstart : ∀ i ≤ xss.length, m ∣ start xss i := by
      intro i
      induction i with
      | zero => exact fun _ => Nat.dvd_zero m
      | succ i ih =>
        intro hi
        rw [start_succ hi]
        exact Nat.dvd_add (ih (by omega)) (hall _ (List.getElem_mem hi))
    obtain ⟨i, hi, h1, h2⟩ := exists_segment hlt
    refine ⟨i, hi, h1, ?_⟩
    obtain ⟨a, rfl⟩ := hp
    obtain ⟨b, hb⟩ := hstart (i + 1) hi
    rw [hb] at h2 ⊢
    have hab : a < b := Nat.lt_of_mul_lt_mul_left h2
    calc m * a + m = m * (a + 1) := (Nat.mul_succ m a).symm
      _ ≤ m * b := Nat.mul_le_mul_left m hab

end Br2Efinix.Segments
