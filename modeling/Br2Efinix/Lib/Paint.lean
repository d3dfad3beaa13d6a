import Mathlib.Data.List.ProdSigma
import Mathlib.Data.Nat.Notation
import Mathlib.Logic.Function.Basic

/-!
# Loops that write to an array

A loop that may write one cell in each round, `f i` being the cell and the value of round `i`.

* `paint_apply_of_not`: a cell that no round writes.
* `paint_apply`: a cell that some round writes, if all that write it agree.
* `foldl_nested`: a loop in a loop is one loop over the pairs.
* `paint_of_injOn`: rounds that write different cells.
-/

namespace Br2Efinix

variable {ι κ β : Type*} [DecidableEq κ]

/-- One round. -/
def paintOne (f : ι → Option (κ × β)) (y : κ → β) (i : ι) : κ → β :=
  match f i with
  | some w => Function.update y w.1 w.2
  | none => y

/-- The loop over `is`. -/
def paint (f : ι → Option (κ × β)) (is : List ι) (y : κ → β) : κ → β := is.foldl (paintOne f) y

variable {f : ι → Option (κ × β)} {is : List ι} {y : κ → β} {k : κ} {v : β}

theorem paintOne_apply_of_not {i : ι} (h : ∀ v, f i ≠ some (k, v)) : paintOne f y i k = y k := by
  unfold paintOne
  cases hf : f i with
  | none => rfl
  | some w =>
    have hne : k ≠ w.1 := by
      rintro rfl
      exact h w.2 hf
    exact Function.update_of_ne hne _ _

theorem paintOne_apply {i : ι} (h : f i = some (k, v)) : paintOne f y i k = v := by
  unfold paintOne
  rw [h]
  exact Function.update_self _ _ _

/-- **A cell that no round writes.** -/
theorem paint_apply_of_not (h : ∀ i ∈ is, ∀ v, f i ≠ some (k, v)) : paint f is y k = y k := by
  unfold paint
  induction is generalizing y with
  | nil => rfl
  | cons i is ih =>
    rw [List.foldl_cons, ih fun j hj => h j (List.mem_cons_of_mem _ hj)]
    exact paintOne_apply_of_not (h i List.mem_cons_self)

/-- **A cell that some round writes**, if all that write it agree. -/
theorem paint_apply (hex : ∃ i ∈ is, f i = some (k, v)) (hagree : ∀ i ∈ is, ∀ w, f i = some (k, w) → w = v) :
    paint f is y k = v := by
  unfold paint
  induction is generalizing y with
  | nil => simp at hex
  | cons i is ih =>
    have hrest : ∀ j ∈ is, ∀ w, f j = some (k, w) → w = v := fun j hj => hagree j (List.mem_cons_of_mem _ hj)
    rw [List.foldl_cons]
    by_cases hlater : ∃ j ∈ is, f j = some (k, v)
    · exact ih hlater hrest
    · -- the first round is the one that writes it
      have hnot : ∀ j ∈ is, ∀ w, f j ≠ some (k, w) := by
        intro j hj w hw
        exact hlater ⟨j, hj, by rw [hw, hrest j hj w hw]⟩
      have hkeep : paint f is (paintOne f y i) k = paintOne f y i k := paint_apply_of_not hnot
      have hfirst : f i = some (k, v) := by
        obtain ⟨j, hj, hw⟩ := hex
        rcases List.mem_cons.1 hj with rfl | hj
        · exact hw
        · exact absurd hw (hnot j hj v)
      exact hkeep.trans (paintOne_apply hfirst)

/-- **Rounds that write different cells.** -/
theorem paint_of_injOn (cell : ι → κ) (value : ι → Option β)
    (hinj : ∀ i ∈ is, ∀ j ∈ is, cell i = cell j → i = j) {i : ι} (hi : i ∈ is) :
    paint (fun i => (value i).map fun v => (cell i, v)) is y (cell i) = (value i).getD (y (cell i)) := by
  -- a round that writes the cell is the round `i`
  have hsame : ∀ j ∈ is, ∀ w, ((value j).map fun v => (cell j, v)) = some (cell i, w) → value i = some w := by
    intro j hj w hw
    obtain ⟨u, hu, heq⟩ := Option.map_eq_some_iff.1 hw
    simp only [Prod.mk.injEq] at heq
    obtain ⟨hcell, rfl⟩ := heq
    obtain rfl := hinj j hj i hi hcell
    exact hu
  cases hv : value i with
  | some v =>
    refine paint_apply ⟨i, hi, by rw [hv]; rfl⟩ fun j hj w hw => ?_
    have hw' := hsame j hj w hw
    rw [hv] at hw'
    exact (Option.some.inj hw').symm
  | none =>
    refine paint_apply_of_not fun j hj w hw => ?_
    have hw' := hsame j hj w hw
    rw [hv] at hw'
    exact absurd hw' (by simp)

/-- **A loop in a loop** is one loop over the pairs. -/
theorem foldl_nested {ι' : Type*} {f : ι × ι' → Option (κ × β)} {body : (κ → β) → ι → ι' → (κ → β)}
    (h : ∀ y i j, body y i j = paintOne f y (i, j)) (is : List ι) (js : List ι') (y : κ → β) :
    is.foldl (fun y i => js.foldl (fun y j => body y i j) y) y = paint f (is ×ˢ js) y := by
  have hbody : body = fun y i j => paintOne f y (i, j) := by
    funext y i j
    exact h y i j
  subst hbody
  unfold paint
  induction is generalizing y with
  | nil => rfl
  | cons i is ih => rw [List.foldl_cons, ih, List.product_cons, List.foldl_append, List.foldl_map]

end Br2Efinix
