import Mathlib.Algebra.GroupWithZero.Nat
import Mathlib.Data.List.Nodup
import Mathlib.Data.Nat.Notation

/-!
# The entries of a table

A table of `n` slots is a function to `Option`, and its entries are what is in the slots,
in order. A slot that is emptied gives up its entry, up to the order of the others.

* `entries_take`: emptying a slot.
* `entries_put`: filling several slots that are empty.
* `entries_inj`: when no entry is there twice, an entry determines its slot.
* `books_gain`, `books_leave`: what has come is what is held and what has left.
-/

namespace Br2Efinix.Table

variable {β : Type*} {n i : ℕ} {f g : ℕ → Option β} {b : β}

/-- What is in the first `n` slots. -/
def entries (n : ℕ) (f : ℕ → Option β) : List β := (List.range n).filterMap f

theorem entries_succ (n : ℕ) (f : ℕ → Option β) :
    entries (n + 1) f = entries n f ++ (f n).toList := by
  unfold entries
  rw [List.range_succ, List.filterMap_append]
  cases hf : f n <;> simp [hf]

theorem mem_entries : b ∈ entries n f ↔ ∃ i < n, f i = some b := by
  unfold entries
  simp [List.mem_filterMap]

theorem entries_congr (h : ∀ i < n, f i = g i) : entries n f = entries n g := by
  unfold entries
  apply List.filterMap_congr
  intro i hi
  exact h i (List.mem_range.1 hi)

theorem entries_none (h : ∀ i < n, f i = none) : entries n f = [] := by
  rw [List.eq_nil_iff_forall_not_mem]
  intro b hb
  obtain ⟨i, hi, hf⟩ := mem_entries.1 hb
  rw [h i hi] at hf
  exact absurd hf (by simp)

/-- **Emptying a slot.** -/
theorem entries_take (hi : i < n) (hf : f i = some b) (hg : g i = none) (hne : ∀ j, j ≠ i → g j = f j) :
    (entries n f).Perm (b :: entries n g) := by
  induction n with
  | zero => exact absurd hi (Nat.not_lt_zero i)
  | succ n ih =>
    rw [entries_succ, entries_succ]
    rcases Nat.lt_succ_iff_lt_or_eq.1 hi with hlt | rfl
    · rw [hne n (by omega)]
      exact (ih hlt).append_right _
    · have hsame : entries i g = entries i f := by
        apply entries_congr
        intro j hj
        exact hne j (by omega)
      rw [hf, hg, hsame]
      simp

/-- Emptying a slot whether there is something in it or not. -/
theorem entries_clear (hi : i < n) (hg : g i = none) (hne : ∀ j, j ≠ i → g j = f j) :
    (entries n f).Perm ((f i).toList ++ entries n g) := by
  rcases hf : f i with _ | b
  · have hsame : entries n f = entries n g := by
      apply entries_congr
      intro j _
      by_cases hj : j = i
      · rw [hj, hf, hg]
      · exact (hne j hj).symm
    rw [hsame]
    exact List.Perm.refl _
  · exact entries_take hi hf hg hne

/-- When no entry is there twice, an entry determines its slot. -/
theorem entries_inj (hnodup : (entries n f).Nodup) {j : ℕ} (hi : i < n) (hj : j < n)
    (hfi : f i = some b) (hfj : f j = some b) : i = j := by
  by_contra hne
  have hperm := entries_take (g := fun k => if k = i then none else f k) hi hfi (by simp)
    (by intro k hk; simp [hk])
  have hout := (List.nodup_cons.1 (hperm.nodup_iff.1 hnodup)).1
  apply hout
  refine mem_entries.2 ⟨j, hj, ?_⟩
  rw [if_neg (Ne.symm hne)]
  exact hfj

/-- **Filling several slots**, those of `σ 0, …, σ (m - 1)`. -/
theorem entries_put {m : ℕ} {σ : ℕ → ℕ} {v : ℕ → β} (hlt : ∀ k < m, σ k < n)
    (hinj : ∀ k < m, ∀ l < m, σ k = σ l → k = l) (hnone : ∀ k < m, f (σ k) = none)
    (hput : ∀ k < m, g (σ k) = some (v k)) (hout : ∀ i, (∀ k < m, i ≠ σ k) → g i = f i) :
    (entries n g).Perm ((List.range m).map v ++ entries n f) := by
  induction m generalizing g with
  | zero =>
    have hsame : entries n g = entries n f := by
      apply entries_congr
      intro i _
      exact hout i fun k hk => absurd hk (Nat.not_lt_zero k)
    rw [hsame]
    exact List.Perm.refl _
  | succ m ih =>
    -- the last one is emptied again
    have hlast := entries_take (g := fun i => if i = σ m then none else g i) (hlt m (Nat.lt_succ_self m))
      (hput m (Nat.lt_succ_self m)) (by simp) (by intro j hj; simp [hj])
    have hrest := ih (g := fun i => if i = σ m then none else g i)
      (fun k hk => hlt k (Nat.lt_succ_of_lt hk))
      (fun k hk l hl => hinj k (Nat.lt_succ_of_lt hk) l (Nat.lt_succ_of_lt hl))
      (fun k hk => hnone k (Nat.lt_succ_of_lt hk))
      (fun k hk => by
        have hne : σ k ≠ σ m := by
          intro heq
          have hkm := hinj k (Nat.lt_succ_of_lt hk) m (Nat.lt_succ_self m) heq
          omega
        rw [if_neg hne]
        exact hput k (Nat.lt_succ_of_lt hk))
      (fun i hi => by
        by_cases him : i = σ m
        · rw [if_pos him, him, hnone m (Nat.lt_succ_self m)]
        · rw [if_neg him]
          apply hout
          intro k hk
          rcases Nat.lt_succ_iff_lt_or_eq.1 hk with hlt | rfl
          · exact hi k hlt
          · exact him)
    refine hlast.trans ?_
    rw [List.range_succ, List.map_append, List.map_singleton, List.append_assoc]
    exact (hrest.cons (v m)).trans List.perm_middle.symm

/-! ## Books -/

variable {come held held' out out' new gone : List β}

/-- What comes is held. -/
theorem books_gain (h : come.Perm (held ++ out)) (hheld : held'.Perm (new ++ held)) :
    (come ++ new).Perm (held' ++ out) := by
  have hfront : (come ++ new).Perm (new ++ (held ++ out)) := (h.append_right new).trans List.perm_append_comm
  rw [← List.append_assoc] at hfront
  exact hfront.trans (hheld.symm.append_right out)

/-- What is held leaves. -/
theorem books_leave (h : come.Perm (held ++ out)) (hheld : held.Perm (gone ++ held'))
    (hout : out'.Perm (out ++ gone)) : come.Perm (held' ++ out') := by
  have hmoved : (held ++ out).Perm (held' ++ (gone ++ out)) := by
    rw [← List.append_assoc]
    exact (hheld.trans List.perm_append_comm).append_right out
  exact (h.trans hmoved).trans ((List.perm_append_comm.trans hout.symm).append_left held')

/-- What leaves goes to one of two places. -/
theorem two_places (a b c d : List β) : ((a ++ c) ++ (b ++ d)).Perm ((a ++ b) ++ (c ++ d)) := by
  rw [List.append_assoc, List.append_assoc]
  apply List.Perm.append_left
  rw [← List.append_assoc, ← List.append_assoc]
  exact List.perm_append_comm.append_right d

end Br2Efinix.Table
