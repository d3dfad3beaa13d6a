import Mathlib.Data.List.TakeWhile
import Mathlib.Data.Nat.Notation

/-!
# Byte arrays and C strings

An access outside an array has no result.

* `str_append`: a string is read up to its NUL.
* `store_append`: one byte is written.
* `open_gap`, `close_gap`: a byte is put into a string, or taken out of it, by `memmove`.
-/

namespace Br2Efinix.CString

/-- The bytes of a text are gone through, not all bytes that there are. -/
instance (priority := high) decidableForallMem (s : List UInt8) (P : UInt8 → Prop) [DecidablePred P] :
    Decidable (∀ b ∈ s, P b) := List.decidableBAll P s

/-- `m[i] = b` -/
def store (m : List UInt8) (i : ℕ) (b : UInt8) : Option (List UInt8) := if i < m.length then some (m.set i b) else none

/-- `memmove(&m[dst], &m[src], n)` -/
def memmove (m : List UInt8) (dst src n : ℕ) : Option (List UInt8) :=
  if dst + n ≤ m.length ∧ src + n ≤ m.length then some (m.take dst ++ (m.drop src).take n ++ m.drop (dst + n)) else none

/-- The string at `&m[i]`. -/
def str (m : List UInt8) (i : ℕ) : Option (List UInt8) :=
  if 0 ∈ m.drop i then some ((m.drop i).takeWhile (· != 0)) else none

/-- `strncpy(m, s, sizeof(m))` -/
def strncpy (m s : List UInt8) : List UInt8 := (s ++ List.replicate m.length 0).take m.length

variable {m p s t r : List UInt8} {b c : UInt8} {i n : ℕ}

theorem str_append (hs : 0 ∉ s) : str (p ++ (s ++ 0 :: r)) p.length = some s := by
  have hall : ∀ b ∈ s, (b != 0) = true := fun b hb => bne_iff_ne.2 fun heq => hs (heq ▸ hb)
  unfold str
  rw [List.drop_left, if_pos (List.mem_append_right _ (List.mem_cons_self ..)), List.takeWhile_append_of_pos hall,
    List.takeWhile_cons_of_neg (by decide), List.append_nil]

/-- The string at the start. -/
theorem str_zero (hs : 0 ∉ s) : str (s ++ 0 :: r) 0 = some s := str_append (p := []) hs

/-- What is read is followed by a NUL. -/
theorem str_spec (h : str m i = some s) : 0 ∉ s ∧ ∃ r, m.drop i = s ++ 0 :: r := by
  unfold str at h
  split at h
  · rename_i hmem
    obtain rfl := Option.some.inj h
    refine ⟨fun hzero => absurd (List.mem_takeWhile_imp hzero) (by decide), ?_⟩
    cases hrest : (m.drop i).dropWhile (· != 0) with
    | nil =>
      -- then all bytes differ from 0
      have hall := List.dropWhile_eq_nil_iff.1 hrest
      exact absurd (hall 0 hmem) (by decide)
    | cons b r =>
      have hne : (m.drop i).dropWhile (· != 0) ≠ [] := by
        rw [hrest]
        exact List.cons_ne_nil _ _
      have hb := List.head_dropWhile_not (· != 0) hne
      simp only [hrest, List.head_cons, bne_eq_false_iff_eq] at hb
      refine ⟨r, ?_⟩
      have hsplit := List.takeWhile_append_dropWhile (p := (· != 0)) (l := m.drop i)
      rw [hrest, hb] at hsplit
      exact hsplit.symm
  · exact absurd h (Option.some_ne_none s).symm

theorem store_append : store (p ++ b :: r) p.length c = some (p ++ c :: r) := by
  unfold store
  rw [if_pos (by rw [List.length_append, List.length_cons]; omega), List.set_append_right _ _ (Nat.le_refl _),
    Nat.sub_self]
  rfl

/-- `memmove` between two places of a split array. -/
theorem memmove_eq (hdst : i + n ≤ m.length) (hsrc : s.length + n ≤ m.length) (hm : m.drop s.length = t ++ r)
    (ht : t.length = n) : memmove m i s.length n = some (m.take i ++ t ++ m.drop (i + n)) := by
  unfold memmove
  rw [if_pos ⟨hdst, hsrc⟩, hm, ← ht, List.take_left]

/-- **A byte is put into a string**, before `t`; what lay behind the string's NUL is overwritten by the new one. -/
theorem open_gap (b : UInt8) :
    (((memmove (s ++ (t ++ 0 :: c :: r)) (s.length + 1) s.length t.length).bind fun m =>
      store m s.length b).bind fun m => store m (s.length + t.length + 1) 0) =
      some (s ++ b :: (t ++ 0 :: r)) := by
  have hlen : (s ++ (t ++ 0 :: c :: r)).length = s.length + (t.length + (r.length + 2)) := by
    rw [List.length_append, List.length_append, List.length_cons, List.length_cons]
  have hmove := memmove_eq (m := s ++ (t ++ 0 :: c :: r)) (i := s.length + 1) (n := t.length) (s := s) (t := t)
    (r := 0 :: c :: r) (by omega) (by omega) List.drop_left rfl
  obtain ⟨g, hg⟩ : ∃ g, (s ++ (t ++ 0 :: c :: r)).take (s.length + 1) = s ++ [g] := by
    rw [List.take_length_add_append]
    cases t with
    | nil => exact ⟨0, rfl⟩
    | cons x t => exact ⟨x, rfl⟩
  have hdrop : (s ++ (t ++ 0 :: c :: r)).drop (s.length + 1 + t.length) = c :: r := by
    have hsum : s.length + 1 + t.length = s.length + (t.length + 1) := by omega
    rw [hsum, List.drop_length_add_append, List.drop_length_add_append]
    rfl
  rw [hmove, hg, hdrop, Option.bind_some]
  have hfirst : s ++ [g] ++ t ++ c :: r = s ++ g :: (t ++ c :: r) := by
    simp only [List.append_assoc, List.cons_append, List.nil_append]
  have hsecond : s ++ b :: (t ++ c :: r) = (s ++ b :: t) ++ c :: r := by
    simp only [List.append_assoc, List.cons_append]
  have hplace : s.length + t.length + 1 = (s ++ b :: t).length := by
    rw [List.length_append, List.length_cons]
    omega
  rw [hfirst, store_append, Option.bind_some, hsecond, hplace, store_append]
  simp only [List.append_assoc, List.cons_append]

/-- **A byte is taken out**, with the NUL moved. -/
theorem close_gap (b : UInt8) :
    memmove (s ++ b :: (t ++ 0 :: r)) s.length (s.length + 1) (t.length + 1) = some (s ++ (t ++ 0 :: 0 :: r)) := by
  have hsplit : s ++ b :: (t ++ 0 :: r) = (s ++ [b]) ++ ((t ++ [0]) ++ r) := by
    simp only [List.append_assoc, List.cons_append, List.nil_append]
  have hlen : (s ++ b :: (t ++ 0 :: r)).length = s.length + (t.length + (r.length + 2)) := by
    rw [List.length_append, List.length_cons, List.length_append, List.length_cons]
    omega
  have hplace : s.length + 1 = (s ++ [b]).length := by rw [List.length_append, List.length_singleton]
  have hdrop : (s ++ b :: (t ++ 0 :: r)).drop (s.length + (t.length + 1)) = 0 :: r := by
    rw [List.drop_length_add_append]
    exact List.drop_left
  rw [hplace, memmove_eq (t := t ++ [0]) (r := r) (by omega) (by rw [← hplace]; omega) (by
    rw [hsplit, List.drop_left]) (by rw [List.length_append, List.length_singleton]), List.take_left, hdrop]
  simp only [List.append_assoc, List.cons_append, List.nil_append]

theorem strncpy_eq (hs : s.length < m.length) :
    strncpy m s = s ++ 0 :: List.replicate (m.length - s.length - 1) 0 := by
  have hsum : m.length - s.length = (m.length - s.length - 1) + 1 := by omega
  unfold strncpy
  rw [List.take_append, List.take_of_length_le (Nat.le_of_lt hs), List.take_replicate, Nat.min_eq_left (by omega), hsum,
    List.replicate_succ]
  rfl

end Br2Efinix.CString
