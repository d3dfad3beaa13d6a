import Mathlib.Algebra.GroupWithZero.Nat
import Mathlib.Data.Nat.ModEq

/-!
# Longest runs of passing points

A map of points is a function `p : ℕ → Bool`, read on its first `n` points. A
run is an interval of passing points.

* `best_spec`: the one-pass scan `best` finds the first of the longest runs.
* `FirstLongest.unique`: there is only one such run.
* `circ_of_doubled`: on a circle of `N` points with at least one failing point,
  the first longest run of two turns is a longest run of the circle.
* `best_full`: when every point passes, the scan of two turns finds `2 * N`.
-/

namespace Br2Efinix.Runs

variable {p : ℕ → Bool} {n N s l : ℕ}

/-- The points `s, …, s + l - 1`, all among the first `n`, pass. -/
def IsRun (p : ℕ → Bool) (n s l : ℕ) : Prop := s + l ≤ n ∧ ∀ k, k < l → p (s + k) = true

/-- `[s, s + l)` is the first of the longest runs among the first `n` points. -/
structure FirstLongest (p : ℕ → Bool) (n s l : ℕ) : Prop where
  run : IsRun p n s l
  longest : ∀ s' l', IsRun p n s' l' → l' ≤ l
  first : ∀ s', IsRun p n s' l → s ≤ s'

theorem FirstLongest.unique {s' l' : ℕ} (h : FirstLongest p n s l) (h' : FirstLongest p n s' l') :
    s = s' ∧ l = l' := by
  have hl : l = l' := le_antisymm (h'.longest _ _ h.run) (h.longest _ _ h'.run)
  subst hl
  exact ⟨le_antisymm (h.first _ h'.run) (h'.first _ h.run), rfl⟩

/-- A longest run is empty only when no point passes. -/
theorem FirstLongest.pos_iff (h : FirstLongest p n s l) : 0 < l ↔ ∃ k, k < n ∧ p k = true := by
  constructor
  · intro hl
    refine ⟨s, ?_, by simpa using h.run.2 0 hl⟩
    have := h.run.1; omega
  · rintro ⟨k, hk, hp⟩
    have : IsRun p n k 1 := ⟨hk, fun j hj => by rw [show j = 0 by omega]; exact hp⟩
    exact h.longest _ _ this

/-- The length of the run that ends just before `n`. -/
def trailing (p : ℕ → Bool) : ℕ → ℕ
  | 0 => 0
  | n + 1 => if p n then trailing p n + 1 else 0

theorem trailing_le (p : ℕ → Bool) : ∀ n, trailing p n ≤ n := by
  intro n
  induction n with
  | zero => exact le_rfl
  | succ n ih => rw [trailing]; split <;> omega

theorem trailing_run (p : ℕ → Bool) :
    ∀ n, ∀ k, n - trailing p n ≤ k → k < n → p k = true := by
  intro n
  induction n with
  | zero => intro k _ hk; omega
  | succ n ih =>
    intro k hk1 hk2
    rw [trailing] at hk1
    split at hk1
    · rename_i hp
      rcases Nat.eq_or_lt_of_le (Nat.lt_succ_iff.1 hk2) with h | h
      · rw [h]; exact hp
      · exact ih k (by omega) h
    · omega

/-- A run that ends at `n` is no longer than the trailing run. -/
theorem le_trailing (p : ℕ → Bool) :
    ∀ n s l, s + l = n → (∀ k, k < l → p (s + k) = true) → l ≤ trailing p n := by
  intro n
  induction n with
  | zero => intro s l h _; omega
  | succ n ih =>
    intro s l h hr
    rcases l with _ | l
    · omega
    · have hp : p n = true := by
        have := hr l (Nat.lt_succ_self l)
        rwa [show s + l = n by omega] at this
      rw [trailing, if_pos hp]
      exact Nat.succ_le_succ (ih s l (by omega) fun k hk => hr k (by omega))

/-- The one-pass scan: length and start of the best run so far. -/
def best (p : ℕ → Bool) : ℕ → ℕ × ℕ
  | 0 => (0, 0)
  | n + 1 =>
    if (best p n).1 < trailing p (n + 1) then (trailing p (n + 1), n + 1 - trailing p (n + 1))
    else best p n

/-- **The scan finds the first of the longest runs.** -/
theorem best_spec (p : ℕ → Bool) : ∀ n, FirstLongest p n (best p n).2 (best p n).1 := by
  intro n
  induction n with
  | zero =>
    exact ⟨⟨le_rfl, fun k hk => absurd hk (Nat.not_lt_zero k)⟩, fun s' l' h => by have := h.1; omega,
      fun s' _ => Nat.zero_le s'⟩
  | succ n ih =>
    have htl := trailing_le p (n + 1)
    -- a run of the first `n + 1` points either ends at `n + 1` or is a run of the first `n`
    have hcase : ∀ s' l', IsRun p (n + 1) s' l' → s' + l' = n + 1 ∨ IsRun p n s' l' := by
      intro s' l' h
      rcases Nat.eq_or_lt_of_le h.1 with h1 | h1
      · exact Or.inl h1
      · exact Or.inr ⟨by omega, h.2⟩
    rw [best]
    split
    · rename_i hlt
      refine ⟨⟨by simp only; omega, fun k hk => trailing_run p (n + 1) _ (by simp only; omega)
        (by simp only at hk ⊢; omega)⟩, ?_, ?_⟩
      · intro s' l' h
        rcases hcase s' l' h with h1 | h1
        · exact le_trailing p _ _ _ h1 h.2
        · exact le_trans (ih.longest _ _ h1) hlt.le
      · intro s' h
        rcases hcase _ _ h with h1 | h1
        · simp only at h1 ⊢; omega
        · have := ih.longest _ _ h1; simp only at this; omega
    · rename_i hlt
      refine ⟨⟨by have := ih.run.1; omega, ih.run.2⟩, ?_, ?_⟩
      · intro s' l' h
        rcases hcase s' l' h with h1 | h1
        · exact le_trans (le_trailing p _ _ _ h1 h.2) (not_lt.1 hlt)
        · exact ih.longest _ _ h1
      · intro s' h
        rcases hcase _ _ h with h1 | h1
        · have := ih.run.1; omega
        · exact ih.first _ h1

theorem trailing_congr {q : ℕ → Bool} :
    ∀ n, (∀ k, k < n → p k = q k) → trailing p n = trailing q n := by
  intro n
  induction n with
  | zero => intro _; rfl
  | succ n ih =>
    intro h
    rw [trailing, trailing, h n (Nat.lt_succ_self n), ih fun k hk => h k (by omega)]

/-- The scan reads only the first `n` points. -/
theorem best_congr {q : ℕ → Bool} :
    ∀ n, (∀ k, k < n → p k = q k) → best p n = best q n := by
  intro n
  induction n with
  | zero => intro _; rfl
  | succ n ih =>
    intro h
    rw [best, best, trailing_congr _ h, ih fun k hk => h k (by omega)]

/-! ## Circles -/

/-- A run of the circle of `N` points: at most one turn, from `s`. -/
def IsCircRun (p : ℕ → Bool) (N s l : ℕ) : Prop :=
  s < N ∧ l ≤ N ∧ ∀ k, k < l → p ((s + k) % N) = true

/-- A longest run of the circle. -/
structure CircLongest (p : ℕ → Bool) (N s l : ℕ) : Prop where
  run : IsCircRun p N s l
  longest : ∀ s' l', IsCircRun p N s' l' → l' ≤ l

/-- The line of two turns of the circle. -/
def doubled (p : ℕ → Bool) (N : ℕ) : ℕ → Bool := fun k => p (k % N)

/-- A run of the circle is a run of the line of two turns. -/
theorem IsCircRun.doubled (h : IsCircRun p N s l) : IsRun (doubled p N) (2 * N) s l :=
  ⟨by have := h.1; have := h.2.1; omega, h.2.2⟩

/-- With a failing point on the circle, a run of the line is shorter than a turn. -/
theorem run_lt_turn {f : ℕ} (hf : f < N) (hpf : p f = false) (h : IsRun (doubled p N) n s l) :
    l < N := by
  by_contra hge
  -- some point of a full turn from `s` is the failing one
  obtain ⟨k, hk, hkf⟩ : ∃ k, k < N ∧ (s + k) % N = f := by
    have hs := Nat.mod_lt s (show 0 < N by omega)
    rcases Nat.lt_or_ge f (s % N) with h1 | h1
    · refine ⟨f + N - s % N, by omega, ?_⟩
      rw [← Nat.mod_add_mod, show s % N + (f + N - s % N) = f + N by omega, Nat.add_mod_right,
        Nat.mod_eq_of_lt hf]
    · refine ⟨f - s % N, by omega, ?_⟩
      rw [← Nat.mod_add_mod, show s % N + (f - s % N) = f by omega, Nat.mod_eq_of_lt hf]
  have := h.2 k (by omega)
  rw [Runs.doubled, hkf, hpf] at this
  exact Bool.false_ne_true this

/-- **The first longest run of two turns is a longest run of the circle.** -/
theorem circ_of_doubled {f : ℕ} (hf : f < N) (hpf : p f = false)
    (h : FirstLongest (doubled p N) (2 * N) s l) : CircLongest p N s l := by
  have hlt := run_lt_turn hf hpf h.run
  have hs : s < N := by
    by_contra hge
    -- the same run one turn earlier would come first
    have hrun : IsRun (doubled p N) (2 * N) (s - N) l := by
      refine ⟨by have := h.run.1; omega, fun k hk => ?_⟩
      have := h.run.2 k hk
      rwa [doubled, show s + k = s - N + k + N by omega, Nat.add_mod_right] at this
    have := h.first _ hrun
    omega
  exact ⟨⟨hs, hlt.le, h.run.2⟩, fun s' l' h' => h.longest _ _ h'.doubled⟩

/-- A circle on which every point passes gives a run of two turns. -/
theorem best_full (hp : ∀ k, k < N → p k = true) (hN : 0 < N) :
    best (doubled p N) (2 * N) = (2 * N, 0) := by
  have hb := best_spec (doubled p N) (2 * N)
  have hfull : FirstLongest (doubled p N) (2 * N) 0 (2 * N) :=
    ⟨⟨by omega, fun k _ => hp _ (Nat.mod_lt _ hN)⟩, fun s' l' h => by have := h.1; omega,
      fun s' _ => Nat.zero_le s'⟩
  obtain ⟨h1, h2⟩ := hb.unique hfull
  exact Prod.ext h2 h1

end Br2Efinix.Runs
