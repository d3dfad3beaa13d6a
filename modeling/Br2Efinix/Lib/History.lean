import Mathlib.Data.List.Basic
import Mathlib.Data.List.Induction
import Mathlib.Data.Nat.Notation

/-!
# Histories

A history is the list of the actions so far. `lastOf f d as` is the last value that `f` gives on an action of the
history; `Always I as` says that `I` holds of every history on the way, and `Along P as` that `P` holds of every
action with the history before it.

* `lastOf_concat`: one more action.
* `always_iff_along`: where one action keeps `I` exactly if it meets `P`, a run keeps `I` exactly if all of its
  actions do.
-/

namespace Br2Efinix

variable {α β σ : Type*}

/-- The last value that `f` gives on the history, or `d`. -/
def lastOf (f : α → Option β) (d : β) (as : List α) : β := (as.filterMap f).getLast?.getD d

@[simp] theorem lastOf_nil (f : α → Option β) (d : β) : lastOf f d [] = d := rfl

theorem lastOf_concat (f : α → Option β) (d : β) (as : List α) (a : α) :
    lastOf f d (as ++ [a]) = (f a).getD (lastOf f d as) := by
  unfold lastOf
  rw [List.filterMap_append, List.filterMap_cons, List.filterMap_nil]
  cases f a with
  | none => rw [List.append_nil, Option.getD_none]
  | some b => rw [List.getLast?_concat, Option.getD_some, Option.getD_some]

/-- Every history on the way. -/
def Always (I : List α → Prop) (as : List α) : Prop := ∀ before after, as = before ++ after → I before

/-- Every action, with the history before it. -/
def Along (P : List α → α → Prop) (as : List α) : Prop := ∀ before a after, as = before ++ a :: after → P before a

variable {I : List α → Prop} {P K : List α → α → Prop} {as : List α} {a : α}

theorem Always.self (h : Always I as) : I as := h as [] (List.append_nil as).symm

theorem always_nil : Always I [] ↔ I [] := by
  constructor
  · intro h
    exact h.self
  · intro h before after heq
    rw [(List.append_eq_nil_iff.1 heq.symm).1]
    exact h

theorem along_nil (P : List α → α → Prop) : Along P [] := by
  intro before a after heq
  exact absurd heq.symm (List.append_ne_nil_of_right_ne_nil _ (List.cons_ne_nil _ _))

/-- The first action of a run given by its list. -/
theorem along_cons : Along P (a :: as) ↔ P [] a ∧ Along (fun before => P (a :: before)) as := by
  constructor
  · intro h
    refine ⟨h [] a as rfl, ?_⟩
    rintro before b after rfl
    exact h (a :: before) b after rfl
  · rintro ⟨hfirst, hrest⟩ before b after heq
    cases before with
    | nil =>
      cases heq
      exact hfirst
    | cons c before =>
      cases heq
      exact hrest before b after rfl

/-- A condition that does not look at the history. -/
theorem along_of_forall {Q : α → Prop} (h : ∀ a ∈ as, Q a) : Along (fun _ => Q) as := by
  rintro before a after rfl
  exact h a (List.mem_append_right _ (List.mem_cons_self ..))

/-- A history on the way to `as ++ [a]` is one on the way to `as`, or all of it. -/
theorem concat_eq_append {before after : List α} (heq : as ++ [a] = before ++ after) :
    before = as ++ [a] ∨ ∃ after', as = before ++ after' := by
  rcases List.eq_nil_or_concat' after with rfl | ⟨after', b, rfl⟩
  · exact Or.inl (by rw [heq, List.append_nil])
  · rw [← List.append_assoc] at heq
    exact Or.inr ⟨after', (List.append_inj' heq rfl).1⟩

theorem always_concat : Always I (as ++ [a]) ↔ Always I as ∧ I (as ++ [a]) := by
  constructor
  · intro h
    refine ⟨?_, h.self⟩
    intro before after heq
    exact h before (after ++ [a]) (by rw [heq, List.append_assoc])
  · rintro ⟨hall, hlast⟩ before after heq
    rcases concat_eq_append heq with rfl | ⟨after', hpre⟩
    · exact hlast
    · exact hall before after' hpre

theorem along_concat : Along P (as ++ [a]) ↔ Along P as ∧ P as a := by
  constructor
  · intro h
    refine ⟨?_, h as a [] rfl⟩
    intro before b after heq
    exact h before b (after ++ [a]) (by rw [heq, List.append_assoc, List.cons_append])
  · rintro ⟨hall, hlast⟩ before b after heq
    rcases List.eq_nil_or_concat' after with rfl | ⟨after', c, rfl⟩
    · obtain ⟨hpre, hb⟩ := List.append_inj' heq rfl
      cases hb
      rw [← hpre]
      exact hlast
    · rw [← List.cons_append, ← List.append_assoc] at heq
      exact hall before b after' (List.append_inj' heq rfl).1

/-- Two conditions that agree on every action whose history meets the second one. -/
theorem along_congr {Q : List α → α → Prop}
    (h : ∀ before a after, as = before ++ a :: after → Along Q before → (P before a ↔ Q before a)) :
    Along P as ↔ Along Q as := by
  induction as using List.reverseRecOn with
  | nil => exact ⟨fun _ => along_nil Q, fun _ => along_nil P⟩
  | append_singleton as a ih =>
    have hinit : Along P as ↔ Along Q as := ih fun before b after heq hQ =>
      h before b (after ++ [a]) (by rw [heq, List.append_assoc, List.cons_append]) hQ
    rw [along_concat, along_concat, hinit]
    exact and_congr_right fun hQ => h as a [] rfl hQ

/-- **A run keeps `I` exactly if its actions meet `P`**, where this is so for each action that is admitted. -/
theorem always_iff_along (h0 : I []) (hstep : ∀ before a, K before a → I before → (I (before ++ [a]) ↔ P before a))
    (hK : Along K as) : Always I as ↔ Along P as := by
  induction as using List.reverseRecOn with
  | nil => exact ⟨fun _ => along_nil P, fun _ => always_nil.2 h0⟩
  | append_singleton as a ih =>
    obtain ⟨hadmitted, ha⟩ := along_concat.1 hK
    rw [always_concat, along_concat, ih hadmitted]
    constructor
    · rintro ⟨hall, hlast⟩
      exact ⟨hall, (hstep as a ha ((ih hadmitted).2 hall).self).1 hlast⟩
    · rintro ⟨hall, hlast⟩
      exact ⟨hall, (hstep as a ha ((ih hadmitted).2 hall).self).2 hlast⟩

/-- One more action of a run that is a fold. -/
theorem foldl_concat (step : σ → α → σ) (s : σ) (as : List α) (a : α) :
    (as ++ [a]).foldl step s = step (as.foldl step s) a := by
  rw [List.foldl_append, List.foldl_cons, List.foldl_nil]

end Br2Efinix
