import Mathlib.Algebra.GroupWithZero.Nat
import Mathlib.Data.List.Basic

/-!
# Machines and guarded runs

A machine is a set of start states and a partial step function on actions. A
guard says which steps of a run are admitted; `Reach M G s` holds when some run
from a start state, all of whose steps meet `G`, ends in `s`.

* `Reach.invariant`: what holds at the start and is kept by every admitted step
  holds in every state reached.
* `Reach.of_exec`: a computed run is a run (this is how concrete runs are given).
* `exec_invariant`: the same rule for the runs from one state.
* `exec_concat`: a run is a run and one more action.
* `along_iff`: in the runs in which each step keeps an invariant, two guards that agree under it
  admit the same runs.
* `exec_view`: a run of a machine is a run of each of its parts, on the part's view of the actions.
* `Leads`: a run from the state ends in a state with a property; `Leads.bind` composes two.
-/

namespace Br2Efinix

variable {σ α : Type*}

/-- A start predicate and a partial step function; `none` means that the action
is not possible in the state. -/
structure Machine (σ α : Type*) where
  init : σ → Prop
  step : σ → α → Option σ

/-- What a step with a guard tells when it is taken. -/
theorem of_guard {p : Prop} [Decidable p] {s s' : σ} (h : (if p then some s else none) = some s') : p ∧ s = s' :=
  (Option.ite_none_right_eq_some.1 h).imp_right Option.some.inj

theorem of_guard_not {p : Prop} [Decidable p] {s s' : σ} (h : (if p then none else some s) = some s') :
    ¬ p ∧ s = s' :=
  (Option.ite_none_left_eq_some.1 h).imp_right Option.some.inj

namespace Machine

/-- The states reached by runs all of whose steps meet the guard `G`. -/
inductive Reach (M : Machine σ α) (G : σ → α → Prop) : σ → Prop
  | init {s : σ} : M.init s → Reach M G s
  | step {s s' : σ} {a : α} : Reach M G s → G s a → M.step s a = some s' → Reach M G s'

/-- Run a list of actions. -/
def exec (M : Machine σ α) : σ → List α → Option σ
  | s, [] => some s
  | s, a :: as => (M.step s a).bind fun s' => M.exec s' as

/-- Every step of the run of `as` from `s` meets the guard. -/
def Along (M : Machine σ α) (G : σ → α → Prop) : σ → List α → Prop
  | _, [] => True
  | s, a :: as => G s a ∧ ∀ s', M.step s a = some s' → M.Along G s' as

variable {M : Machine σ α} {G : σ → α → Prop}

/-- **The invariant rule.** -/
theorem Reach.invariant {I : σ → Prop} (h0 : ∀ s, M.init s → I s)
    (hs : ∀ s a s', I s → G s a → M.step s a = some s' → I s') {s : σ} (h : Reach M G s) : I s := by
  induction h with
  | init hi => exact h0 _ hi
  | step _ hg hst ih => exact hs _ _ _ ih hg hst

/-- A weaker guard admits more runs. -/
theorem Reach.mono {G' : σ → α → Prop} (hG : ∀ s a, G s a → G' s a) {s : σ} (h : Reach M G s) :
    Reach M G' s := by
  induction h with
  | init hi => exact .init hi
  | step _ hg hst ih => exact .step ih (hG _ _ hg) hst

/-- A run from a reached state ends in a reached state. -/
theorem Reach.exec {s : σ} (h : Reach M G s) :
    ∀ {as : List α} {s' : σ}, M.Along G s as → M.exec s as = some s' → Reach M G s' := by
  intro as
  induction as generalizing s with
  | nil => intro s' _ he; cases he; exact h
  | cons a as ih =>
    intro s' hal he
    obtain ⟨s₁, h1, h2⟩ := Option.bind_eq_some_iff.1 he
    exact ih (h.step hal.1 h1) (hal.2 s₁ h1) h2

/-- A run in two parts. -/
theorem exec_append (s : σ) (as bs : List α) : M.exec s (as ++ bs) = (M.exec s as).bind fun s' => M.exec s' bs := by
  induction as generalizing s with
  | nil => rfl
  | cons a as ih =>
    have hrest : (fun s' => M.exec s' (as ++ bs)) = fun s' => (M.exec s' as).bind fun t => M.exec t bs := funext ih
    show (M.step s a).bind (fun s' => M.exec s' (as ++ bs)) = _
    rw [hrest, ← Option.bind_assoc]
    rfl

/-- One more action of a run. -/
theorem exec_concat {s t : σ} {as : List α} {a : α} :
    M.exec s (as ++ [a]) = some t ↔ ∃ s', M.exec s as = some s' ∧ M.step s' a = some t := by
  have hone : ∀ s', M.exec s' [a] = M.step s' a := fun s' => Option.bind_fun_some _
  rw [exec_append, Option.bind_eq_some_iff]
  simp only [hone]

/-- A computed run from a start state. -/
theorem Reach.of_exec {s s' : σ} {as : List α} (hi : M.init s) (hal : M.Along G s as)
    (he : M.exec s as = some s') : Reach M G s' :=
  (Reach.init hi).exec hal he

/-- **The invariant rule for the runs from a state.** -/
theorem exec_invariant {I : σ → Prop} (hs : ∀ s a s', I s → M.step s a = some s' → I s') :
    ∀ {as : List α} {s s' : σ}, I s → M.exec s as = some s' → I s' := by
  intro as
  induction as with
  | nil => intro s s' h he; cases he; exact h
  | cons a as ih =>
    intro s s' h he
    obtain ⟨s₁, h1, h2⟩ := Option.bind_eq_some_iff.1 he
    exact ih (hs s a s₁ h h1) h2

/-- Without a guard every run is admitted. -/
theorem along_true (s : σ) (as : List α) : M.Along (fun _ _ => True) s as := by
  induction as generalizing s with
  | nil => trivial
  | cons a as ih => exact ⟨trivial, fun s' _ => ih s'⟩

/-- **Two guards that agree** under an invariant that the first one keeps admit the same runs, among
those that a third admits. -/
theorem along_iff {I : σ → Prop} {H K : σ → α → Prop}
    (hs : ∀ s a s', I s → K s a → G s a → M.step s a = some s' → I s')
    (h : ∀ s a, I s → K s a → (G s a ↔ H s a)) :
    ∀ {as : List α} {s : σ}, I s → M.Along K s as → (M.Along G s as ↔ M.Along H s as) := by
  intro as
  induction as with
  | nil => intro s _ _; exact Iff.rfl
  | cons a as ih =>
    intro s hi hk
    constructor
    · intro hal
      exact ⟨(h s a hi hk.1).1 hal.1,
        fun s' hst => (ih (hs s a s' hi hk.1 hal.1 hst) (hk.2 s' hst)).1 (hal.2 s' hst)⟩
    · intro hal
      have hg := (h s a hi hk.1).2 hal.1
      exact ⟨hg, fun s' hst => (ih (hs s a s' hi hk.1 hg hst) (hk.2 s' hst)).2 (hal.2 s' hst)⟩

/-- What a part of the machine sees of a run: `proj s a` is its share of the step `a` from `s`. -/
def view {β : Type*} (M : Machine σ α) (proj : σ → α → Option β) : σ → List α → List β
  | _, [] => []
  | s, a :: as => (proj s a).toList ++
      match M.step s a with
      | some s' => M.view proj s' as
      | none => []

theorem view_cons {β : Type*} {proj : σ → α → Option β} {s s' : σ} {a : α} {as : List α}
    (hst : M.step s a = some s') : M.view proj s (a :: as) = (proj s a).toList ++ M.view proj s' as := by
  rw [view, hst]

/-- **A part of a machine** runs on its view. -/
theorem exec_view {τ β : Type*} {L : Machine τ β} {p : σ → τ} {proj : σ → α → Option β}
    (hsome : ∀ s a s' b, M.step s a = some s' → proj s a = some b → L.step (p s) b = some (p s'))
    (hnone : ∀ s a s', M.step s a = some s' → proj s a = none → p s' = p s) :
    ∀ {as : List α} {s s' : σ}, M.exec s as = some s' → L.exec (p s) (M.view proj s as) = some (p s') := by
  intro as
  induction as with
  | nil => intro s s' he; cases he; rfl
  | cons a as ih =>
    intro s s' he
    obtain ⟨s₁, h1, h2⟩ := Option.bind_eq_some_iff.1 he
    have hrest := ih h2
    rw [view_cons h1]
    rcases hb : proj s a with _ | b
    · rw [hnone s a s₁ h1 hb] at hrest
      exact hrest
    · simp only [Option.toList_some, List.singleton_append]
      unfold exec
      rw [hsome s a s₁ b h1 hb]
      exact hrest

/-- Some run from the state ends in a state with `Q`. -/
def Leads (M : Machine σ α) (Q : σ → Prop) (s : σ) : Prop := ∃ as s', M.exec s as = some s' ∧ Q s'

theorem Leads.here {Q : σ → Prop} {s : σ} (h : Q s) : M.Leads Q s := ⟨[], s, rfl, h⟩

theorem Leads.next {Q : σ → Prop} {s s' : σ} (a : α) (hst : M.step s a = some s') (h : M.Leads Q s') :
    M.Leads Q s := by
  obtain ⟨as, t, he, hq⟩ := h
  refine ⟨a :: as, t, ?_, hq⟩
  unfold exec
  rw [hst]
  exact he

theorem Leads.bind {Q R : σ → Prop} {s : σ} (h : M.Leads Q s) (hk : ∀ t, Q t → M.Leads R t) :
    M.Leads R s := by
  obtain ⟨as, t, he, hq⟩ := h
  induction as generalizing s with
  | nil => cases he; exact hk _ hq
  | cons a as ih =>
    obtain ⟨s₁, h1, h2⟩ := Option.bind_eq_some_iff.1 he
    exact .next a h1 (ih h2)

instance Along.decidable (M : Machine σ α) (G : σ → α → Prop) [∀ s a, Decidable (G s a)] :
    ∀ (s : σ) (as : List α), Decidable (M.Along G s as)
  | _, [] => isTrue trivial
  | s, a :: as =>
    match h : M.step s a with
    | none => decidable_of_iff (G s a) ⟨fun hg => ⟨hg, by simp [h]⟩, fun hg => hg.1⟩
    | some s₁ =>
      haveI := Along.decidable M G s₁ as
      decidable_of_iff (G s a ∧ M.Along G s₁ as)
        ⟨fun hg => ⟨hg.1, by simpa [h] using hg.2⟩, fun hg => ⟨hg.1, hg.2 s₁ h⟩⟩

end Machine

end Br2Efinix
