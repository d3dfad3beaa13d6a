import Mathlib.Data.Fintype.Basic
import Br2Efinix.Lib.Machine

/-!
# The AMP IPI hook

`riscv_amp_set_ipi_hook` writes the cookie and then the function; `riscv_amp_ipi_notify`,
on any hart, reads the function and then the cookie. The barriers keep the two writes and
the two reads in this order, so each of them is a step.

* `hooks_paired`: in every run in which no cookie is replaced under a notify, and no notify
  begins between the two writes, unless its function is registered with the new cookie too, a
  function is entered with a cookie that it was registered with.
* `deregistering_tears`: a notify that has read the function when the hook is cleared enters
  it with a NULL cookie.
-/

namespace Br2Efinix.Rproc

variable {F C H : Type*}

/-- The two words, the call of `riscv_amp_set_ipi_hook` that is between its writes, and for
each hart the function that `riscv_amp_ipi_notify` has read and not called yet. Only observed are
the arguments of the calls that set the hook and those of the calls of `riscv_amp_ipi_notify`. -/
structure Hook (F C H : Type*) where
  hook : Option F
  cookie : Option C
  setting : Option (Option F × Option C)
  notify : H → Option F
  calls : List (Option F × Option C)
  entered : List (F × Option C)

inductive HookAct (F C H : Type*)
  | set (fn : Option F) (cookie : Option C)
  | publish
  | read (h : H)
  | call (h : H)
  deriving Repr

namespace Hook

/-- `WRITE_ONCE(riscv_amp_ipi_cookie, cookie)` in `riscv_amp_set_ipi_hook`. -/
def set (s : Hook F C H) (fn : Option F) (cookie : Option C) : Option (Hook F C H) :=
  match s.setting with
  | some _ => none
  | none => some { s with cookie := cookie, setting := some (fn, cookie), calls := s.calls ++ [(fn, cookie)] }

/-- `WRITE_ONCE(riscv_amp_ipi_hook, fn)`. -/
def publish (s : Hook F C H) : Option (Hook F C H) :=
  match s.setting with
  | some p => some { s with hook := p.1, setting := none }
  | none => none

variable [DecidableEq H]

/-- `READ_ONCE(riscv_amp_ipi_hook)` in `riscv_amp_ipi_notify`, which returns if that is NULL. -/
def read (s : Hook F C H) (h : H) : Option (Hook F C H) :=
  match s.notify h with
  | some _ => none
  | none => some { s with notify := fun j => if j = h then s.hook else s.notify j }

/-- `fn(READ_ONCE(riscv_amp_ipi_cookie))`. -/
def call (s : Hook F C H) (h : H) : Option (Hook F C H) :=
  match s.notify h with
  | some fn =>
    some { s with
      entered := s.entered ++ [(fn, s.cookie)]
      notify := fun j => if j = h then none else s.notify j }
  | none => none

def next (s : Hook F C H) : HookAct F C H → Option (Hook F C H)
  | .set fn cookie => s.set fn cookie
  | .publish => s.publish
  | .read h => s.read h
  | .call h => s.call h

/-- Before the first call. -/
def cleared : Hook F C H :=
  { hook := none, cookie := none, setting := none, notify := fun _ => none, calls := [], entered := [] }

end Hook

def hookMachine (F C H : Type*) [DecidableEq H] : Machine (Hook F C H) (HookAct F C H) :=
  { init := fun s => s = .cleared
    step := Hook.next }

/-! ## The property -/

structure Paired (s : Hook F C H) : Prop where
  /-- A function is entered with a cookie that it was registered with, -/
  entered : ∀ p ∈ s.entered, (some p.1, p.2) ∈ s.calls
  /-- so that with one cookie it never sees another one or NULL. -/
  own : ∀ fn cookie, (∀ p ∈ s.calls, p.1 = some fn → p.2 = some cookie) →
    ∀ p ∈ s.entered, p.1 = fn → p.2 = some cookie

/-- No cookie is replaced under a notify, and no notify begins between the two writes, unless its
function is registered with the new cookie. -/
def Untorn (s : Hook F C H) : HookAct F C H → Prop
  | .set fn cookie => ∀ h, ∀ f ∈ s.notify h, (some f, cookie) ∈ s.calls ++ [(fn, cookie)]
  | .read _ => ∀ p ∈ s.setting, ∀ f ∈ s.hook, (some f, p.2) ∈ s.calls
  | _ => True

instance [Fintype H] [DecidableEq F] [DecidableEq C] :
    ∀ (s : Hook F C H) (a : HookAct F C H), Decidable (Untorn s a)
  | s, .set fn cookie => inferInstanceAs
      (Decidable (∀ h, ∀ f ∈ s.notify h, (some f, cookie) ∈ s.calls ++ [(fn, cookie)]))
  | s, .read _ => inferInstanceAs (Decidable (∀ p ∈ s.setting, ∀ f ∈ s.hook, (some f, p.2) ∈ s.calls))
  | _, .publish => isTrue trivial
  | _, .call _ => isTrue trivial

/-! ## The invariant -/

/-- Whoever reads the cookie next has a function that is registered with it. -/
structure Matched (s : Hook F C H) : Prop where
  notify : ∀ h f, s.notify h = some f → (some f, s.cookie) ∈ s.calls
  setting : ∀ p, s.setting = some p → s.cookie = p.2 ∧ p ∈ s.calls
  hook : ∀ f, s.setting = none → s.hook = some f → (some f, s.cookie) ∈ s.calls
  entered : ∀ p ∈ s.entered, (some p.1, p.2) ∈ s.calls

variable {s s' : Hook F C H}

theorem set_matched {fn : Option F} {cookie : Option C} (h : Matched s) (huntorn : Untorn s (.set fn cookie))
    (hset : s.set fn cookie = some s') : Matched s' := by
  unfold Hook.set at hset
  split at hset
  · exact absurd hset (by simp)
  · obtain rfl := Option.some.inj hset
    refine ⟨fun i f hf => huntorn i f hf, ?_, fun f hnone => absurd hnone (by simp),
      fun p hp => List.mem_append_left _ (h.entered p hp)⟩
    intro p hp
    obtain rfl := Option.some.inj hp
    exact ⟨rfl, List.mem_append_right _ (List.mem_singleton_self _)⟩

/-- The function follows its cookie. -/
theorem publish_matched (h : Matched s) (hpublish : s.publish = some s') : Matched s' := by
  unfold Hook.publish at hpublish
  split at hpublish
  · rename_i p hp
    obtain rfl := Option.some.inj hpublish
    obtain ⟨hcookie, hmem⟩ := h.setting p hp
    refine ⟨h.notify, fun q hq => absurd hq (by simp), ?_, h.entered⟩
    intro f _ hf
    have hpair : p = (some f, s.cookie) := Prod.ext hf hcookie.symm
    rw [← hpair]
    exact hmem
  · exact absurd hpublish (by simp)

variable [DecidableEq H]

theorem read_matched {i : H} (h : Matched s) (huntorn : Untorn s (.read i)) (hread : s.read i = some s') :
    Matched s' := by
  unfold Hook.read at hread
  split at hread
  · exact absurd hread (by simp)
  · obtain rfl := Option.some.inj hread
    refine ⟨?_, h.setting, h.hook, h.entered⟩
    intro j f hf
    simp only at hf
    split at hf
    · -- the function read is the old one or the new one
      cases hset : s.setting with
      | none => exact h.hook f hset hf
      | some p =>
        rw [(h.setting p hset).1]
        exact huntorn p hset f hf
    · exact h.notify j f hf

/-- **A function is called** with the cookie of now, which it is registered with. -/
theorem call_matched {i : H} (h : Matched s) (hcall : s.call i = some s') : Matched s' := by
  unfold Hook.call at hcall
  split at hcall
  · rename_i fn hfn
    obtain rfl := Option.some.inj hcall
    refine ⟨?_, h.setting, h.hook, ?_⟩
    · intro j f hf
      simp only at hf
      split at hf
      · exact absurd hf (by simp)
      · exact h.notify j f hf
    · intro p hp
      rcases List.mem_append.1 hp with hold | hnew
      · exact h.entered p hold
      · obtain rfl := List.mem_singleton.1 hnew
        exact h.notify i fn hfn
  · exact absurd hcall (by simp)

/-- **One step keeps the words matched.** -/
theorem next_matched {a : HookAct F C H} (h : Matched s) (huntorn : Untorn s a) (hstep : s.next a = some s') :
    Matched s' := by
  cases a with
  | set fn cookie => exact set_matched h huntorn hstep
  | publish => exact publish_matched h hstep
  | read i => exact read_matched h huntorn hstep
  | call i => exact call_matched h hstep

theorem reach_matched (h : (hookMachine F C H).Reach Untorn s) : Matched s := by
  refine h.invariant ?_ (fun s a s' hs huntorn hstep => next_matched hs huntorn hstep)
  rintro s rfl
  refine ⟨fun _ f hf => absurd hf (by simp [Hook.cleared]), fun p hp => absurd hp (by simp [Hook.cleared]),
    fun f _ hf => absurd hf (by simp [Hook.cleared]), fun p hp => absurd hp (by simp [Hook.cleared])⟩

/-- **A function is entered with its own cookie.** -/
theorem hooks_paired (h : (hookMachine F C H).Reach Untorn s) : Paired s := by
  have hentered := (reach_matched h).entered
  refine ⟨hentered, ?_⟩
  intro fn cookie hall p hp hfn
  have hcookie := hall _ (hentered p hp)
  exact hcookie (congrArg some hfn)

/-! ## Runs -/

/-- The function that the driver registers. -/
inductive AmpFn
  | efinixRprocIpiDoorbell
  deriving DecidableEq, Repr

/-- The driver is probed and removed twice, with a doorbell in between. -/
def probedTwice : List (HookAct AmpFn ℕ (Fin 2)) :=
  [.read 0, .set (some .efinixRprocIpiDoorbell) (some 1), .read 1, .publish, .read 0, .read 1, .call 1, .call 0,
    .set none none, .publish, .read 0, .set (some .efinixRprocIpiDoorbell) (some 2), .publish, .read 0, .call 0]

theorem hooks_paired_twice : ∃ s, (hookMachine AmpFn ℕ (Fin 2)).Reach Untorn s ∧
    s.entered = [(.efinixRprocIpiDoorbell, some 1), (.efinixRprocIpiDoorbell, some 1),
      (.efinixRprocIpiDoorbell, some 2)] ∧ Paired s := by
  obtain ⟨s, hs, hv⟩ := Option.map_eq_some_iff.1 (show
    ((hookMachine AmpFn ℕ (Fin 2)).exec .cleared probedTwice).map Hook.entered =
      some [(.efinixRprocIpiDoorbell, some 1), (.efinixRprocIpiDoorbell, some 1),
        (.efinixRprocIpiDoorbell, some 2)] by decide +kernel)
  have hreach : (hookMachine AmpFn ℕ (Fin 2)).Reach Untorn s :=
    .of_exec rfl
      (show (hookMachine AmpFn ℕ (Fin 2)).Along Untorn .cleared probedTwice by decide +kernel) hs
  exact ⟨s, hreach, hv, hooks_paired hreach⟩

/-- **The hook is cleared under a notify**: the doorbell is entered with NULL. -/
theorem deregistering_tears : ∃ s, (hookMachine AmpFn ℕ (Fin 2)).Reach (fun _ _ => True) s ∧
    s.calls = [(some .efinixRprocIpiDoorbell, some 1), (none, none)] ∧
    s.entered = [(.efinixRprocIpiDoorbell, none)] ∧ ¬ Paired s := by
  obtain ⟨s, hs, hv⟩ := Option.map_eq_some_iff.1 (show
    ((hookMachine AmpFn ℕ (Fin 2)).exec .cleared
      [.set (some .efinixRprocIpiDoorbell) (some 1), .publish, .read 0, .set none none, .call 0]).map
      (fun s => (s.calls, s.entered)) =
      some ([(some .efinixRprocIpiDoorbell, some 1), (none, none)], [(.efinixRprocIpiDoorbell, none)]) by
    decide +kernel)
  obtain ⟨hcalls, hentered⟩ := Prod.mk.inj hv
  refine ⟨s, .of_exec rfl (Machine.along_true _ _) hs, hcalls, hentered, ?_⟩
  intro hpaired
  have hmem := hpaired.entered (.efinixRprocIpiDoorbell, none) (by rw [hentered]; simp)
  rw [hcalls] at hmem
  exact absurd hmem (by decide)

end Br2Efinix.Rproc
