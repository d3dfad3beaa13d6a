import Br2Efinix.Rproc.Inbound

/-!
# No inbound kick is lost

* `kicks_served`: in every run in which no kick falls between the beginning of
  `efinix_rproc_start` and its sample of the counter, no doorbell finds the gate closed after a
  kick, none is raised after the doorbell of the interrupt in progress has read the counter, and
  the counter never comes round to the value last seen, `notify_work` is scheduled after the last
  kick once the interrupts are handled.
* `kick_before_gate_lost`: a kick after the counter is sampled finds the gate closed.
* `kick_before_dispatch_lost`: a kick after the doorbell has read the counter is cleared with
  the interrupt of the one before.
-/

namespace Br2Efinix.Rproc

variable {H : Type*}

/-! ## The property -/

/-- The interrupts of all kicks have been handled: none is pending, or being handled. A doorbell on
another hart may have taken a kick over. -/
structure Handled (boot : H) (s : Inbound H) : Prop where
  raised : s.remote = false
  irq : s.irq boot = false
  harts : ∀ h, s.pc h = .idle

/-- When they have been, `notify_work` was scheduled after the last kick since
`efinix_rproc_start` began. -/
def KicksServed (boot : H) (s : Inbound H) : Prop :=
  ∀ S, s.startedAt = some S → S < s.kicks → Handled boot s → s.scheduled = s.kicks

/-! ## The condition -/

/-- `efinix_rproc_start` has begun, and the gate is not open yet. -/
def Ctl.starting : Ctl → Bool
  | .begun | .sampled _ | .stored => true
  | _ => false

/-- The doorbell of the hart's interrupt, if its turn to read the counter is over, has read `now`. -/
def Pc.Saw (now : ℕ) : Pc → Prop
  | .compare _ n | .update _ n | .schedule _ n => n = now
  | .dispatch seen => seen = some now
  | _ => True

instance (now : ℕ) : ∀ p : Pc, Decidable (p.Saw now)
  | .idle | .notify | .doorbell | .readCounter _ => isTrue trivial
  | .compare _ n | .update _ n | .schedule _ n => inferInstanceAs (Decidable (n = now))
  | .dispatch seen => inferInstanceAs (Decidable (seen = some now))

/-- A doorbell that compares does not find the counter come round to the value last seen. -/
def Pc.Fresh (last : ℕ) : Pc → Prop
  | .compare _ now => word now = word last → now = last
  | _ => True

instance (last : ℕ) : ∀ p : Pc, Decidable (p.Fresh last)
  | .compare _ now => inferInstanceAs (Decidable (word now = word last → now = last))
  | .idle | .notify | .doorbell | .readCounter _ | .update _ _ | .schedule _ _ | .dispatch _ => isTrue trivial

/-- The rung hart's doorbell does not find the gate closed after a kick, unless the interrupt of
the last one is still to come. -/
def Inbound.Admits (boot : H) (s : Inbound H) (h : H) : Prop :=
  h = boot → s.pc h = .doorbell → s.ipiActive = false → ∀ S ∈ s.startedAt, S < s.kicks → s.remote = true

/-- What the steps of a run have to meet. -/
def Heeded (boot : H) (s : Inbound H) : InboundAct H → Prop
  | .kick => s.ctl ≠ .begun
  | .raise => ∀ S ∈ s.startedAt, S < s.kicks → (s.pc boot).Saw s.kicks
  | .hart h => (s.pc h).Fresh s.lastR2lSeen ∧ s.Admits boot h
  | _ => True

instance [DecidableEq H] (boot : H) (s : Inbound H) (h : H) : Decidable (s.Admits boot h) := by
  unfold Inbound.Admits
  infer_instance

instance [DecidableEq H] (boot : H) : ∀ s a, Decidable (Heeded boot s a)
  | s, .kick => inferInstanceAs (Decidable (s.ctl ≠ .begun))
  | s, .raise => inferInstanceAs (Decidable (∀ S ∈ s.startedAt, S < s.kicks → (s.pc boot).Saw s.kicks))
  | s, .hart h => inferInstanceAs (Decidable ((s.pc h).Fresh s.lastR2lSeen ∧ s.Admits boot h))
  | _, .start | _, .sample | _, .store | _, .open_ | _, .close _ | _, .cancel | _, .unhook | _, .unmap
  | _, .ipi _ | _, .take _ | _, .workBegin | _, .workEnd => isTrue trivial

/-! ## The invariant -/

/-- The doorbell has yet to read the counter. -/
def Pc.BeforeRead : Pc → Prop
  | .idle | .notify | .doorbell | .readCounter _ => True
  | _ => False

/-- The doorbell has read `now`, and has not decided. -/
def Pc.Carries (now : ℕ) : Pc → Prop
  | .compare _ n | .update _ n => n = now
  | _ => False

/-- The doorbell is about to schedule the work. -/
def Pc.Scheduling : Pc → Prop
  | .schedule _ _ => True
  | _ => False

/-- The count that the start has sampled, or is about to. -/
def Ctl.count (kicks : ℕ) : Ctl → Option ℕ
  | .begun => some kicks
  | .sampled now => some now
  | _ => none

/-- The count that the doorbell has read. -/
def Pc.value : Pc → Option ℕ
  | .compare _ n | .update _ n | .schedule _ n => some n
  | .dispatch seen => seen
  | _ => none

/-- Kick number `n` was before the start, or the work has been scheduled after it or soon is. -/
def Covered (S : ℕ) (s : Inbound H) (n : ℕ) : Prop := n ≤ S ∨ n ≤ s.scheduled ∨ ∃ h, (s.pc h).Scheduling

/-- The last kick is served, or somebody is about to see to it. -/
def Owed (boot : H) (s : Inbound H) : Prop :=
  s.scheduled = s.kicks ∨ s.remote = true ∨ (s.irq boot = true ∧ (s.pc boot).BeforeRead) ∨
    (∃ h, (s.pc h).Carries s.kicks) ∨ ∃ h, (s.pc h).Scheduling

/-- No count is ahead of the kicks. -/
structure Bounds (s : Inbound H) : Prop where
  last : s.lastR2lSeen ≤ s.kicks
  scheduled : s.scheduled ≤ s.kicks
  value : ∀ h n, (s.pc h).value = some n → n ≤ s.kicks
  sampled : ∀ n, s.ctl = .sampled n → n ≤ s.kicks

/-- A session that began with `S` kicks. -/
structure Served (boot : H) (S : ℕ) (s : Inbound H) : Prop where
  le : S ≤ s.kicks
  starting : ∀ n, s.ctl.count s.kicks = some n → n = S
  open_ : s.ctl.starting = false → s.ctl = .idle ∧ s.ipiActive = true
  hooked : s.hooked = true
  last : Covered S s s.lastR2lSeen
  seen : ∀ h n, s.pc h = .dispatch (some n) → Covered S s n
  owed : S < s.kicks → Owed boot s

structure KickInv (boot : H) (s : Inbound H) : Prop where
  bounds : Bounds s
  hooked : s.ctl ≠ .unmap → s.ctl ≠ .removed → s.hooked = true
  served : ∀ S, s.startedAt = some S → Served boot S s

variable [DecidableEq H] {boot : H} {s s' : Inbound H}

omit [DecidableEq H] in
theorem probed_inv {kicks lastR2lSeen : ℕ} (h : lastR2lSeen ≤ kicks) :
    KickInv boot (Inbound.probed kicks lastR2lSeen) :=
  ⟨⟨h, Nat.zero_le _, fun _ n hn => absurd hn (by simp [Inbound.probed, Pc.value]),
    fun n hn => absurd hn (by simp [Inbound.probed])⟩, fun _ _ => rfl,
    fun S hS => absurd hS (by simp [Inbound.probed])⟩

omit [DecidableEq H] in
/-- The invariant looks at these fields only. -/
theorem KickInv.of_same (h : KickInv boot s) (hkicks : s'.kicks = s.kicks)
    (hlast : s'.lastR2lSeen = s.lastR2lSeen) (hactive : s'.ipiActive = s.ipiActive)
    (hhooked : s'.hooked = s.hooked) (hctl : s'.ctl = s.ctl) (hremote : s'.remote = s.remote)
    (hirq : s'.irq = s.irq) (hpc : s'.pc = s.pc) (hstarted : s'.startedAt = s.startedAt)
    (hscheduled : s'.scheduled = s.scheduled) : KickInv boot s' := by
  cases s
  cases s'
  simp only at hkicks hlast hactive hhooked hctl hremote hirq hpc hstarted hscheduled
  subst hkicks hlast hactive hhooked hctl hremote hirq hpc hstarted hscheduled
  refine ⟨⟨h.bounds.last, h.bounds.scheduled, h.bounds.value, h.bounds.sampled⟩, h.hooked, ?_⟩
  intro S hS
  have hs := h.served S hS
  exact ⟨hs.le, hs.starting, hs.open_, hs.hooked, hs.last, hs.seen, hs.owed⟩

/-- What some hart is doing, it is doing after a step of hart `i` too, unless that was `i` itself. -/
theorem exists_setPc {Q : Pc → Prop} {i : H} {p : Pc} (hQ : Q (s.pc i) → Q p) (h : ∃ j, Q (s.pc j)) :
    ∃ j, Q ((s.setPc i p).pc j) := by
  obtain ⟨j, hj⟩ := h
  by_cases hji : j = i
  · subst hji
    exact ⟨j, by rw [Inbound.setPc_self]; exact hQ hj⟩
  · exact ⟨j, by rw [Inbound.setPc_ne s p hji]; exact hj⟩

/-- A count stays covered when a hart moves that was not about to schedule the work. -/
theorem Covered.setPc {S n : ℕ} (h : Covered S s n) {i : H} {p : Pc} (hi : ¬ (s.pc i).Scheduling) :
    Covered S (s.setPc i p) n :=
  h.imp_right (Or.imp_right (exists_setPc (fun hs => absurd hs hi)))

/-! ## A hart's step -/

/-- **A hart moves** that was not about to schedule the work. -/
theorem setPc_inv (h : KickInv boot s) {i : H} {p : Pc} (hi : ¬ (s.pc i).Scheduling)
    (hvalue : ∀ n, p.value = some n → n ≤ s.kicks)
    (hseen : ∀ S, s.startedAt = some S → ∀ n, p = .dispatch (some n) → Covered S s n)
    (howed : ∀ S, s.startedAt = some S → S < s.kicks → Owed boot s → Owed boot (s.setPc i p)) :
    KickInv boot (s.setPc i p) := by
  refine ⟨⟨h.bounds.last, h.bounds.scheduled, ?_, h.bounds.sampled⟩, h.hooked, ?_⟩
  · intro j n hn
    by_cases hji : j = i
    · subst hji
      rw [Inbound.setPc_self] at hn
      exact hvalue n hn
    · rw [Inbound.setPc_ne s p hji] at hn
      exact h.bounds.value j n hn
  · intro S hS
    have hs := h.served S hS
    refine ⟨hs.le, hs.starting, hs.open_, hs.hooked, hs.last.setPc hi, ?_,
      fun hlt => howed S hS hlt (hs.owed hlt)⟩
    intro j n hn
    by_cases hji : j = i
    · subst hji
      rw [Inbound.setPc_self] at hn
      exact (hseen S hS n hn).setPc hi
    · rw [Inbound.setPc_ne s p hji] at hn
      exact (hs.seen j n hn).setPc hi

/-- Before it has read the counter, a hart moves on to read it, or to a decision with the count of now. -/
theorem owed_before {i : H} {p : Pc} (hi : (s.pc i).BeforeRead) (hp : p.BeforeRead ∨ p.Carries s.kicks)
    (h : Owed boot s) : Owed boot (s.setPc i p) := by
  have hcarries : (s.pc i).Carries s.kicks → p.Carries s.kicks := by
    intro hc
    cases hpc : s.pc i <;> rw [hpc] at hc hi <;> first | exact absurd hc id | exact absurd hi id
  have hscheduling : (s.pc i).Scheduling → p.Scheduling := by
    intro hc
    cases hpc : s.pc i <;> rw [hpc] at hc hi <;> first | exact absurd hc id | exact absurd hi id
  rcases h with hdone | hremote | ⟨hirq, hbefore⟩ | hcarry | hsched
  · exact Or.inl hdone
  · exact Or.inr (Or.inl hremote)
  · by_cases hboot : boot = i
    · subst hboot
      rcases hp with hp | hp
      · exact Or.inr (Or.inr (Or.inl ⟨hirq, by rw [Inbound.setPc_self]; exact hp⟩))
      · exact Or.inr (Or.inr (Or.inr (Or.inl ⟨boot, by rw [Inbound.setPc_self]; exact hp⟩)))
    · exact Or.inr (Or.inr (Or.inl ⟨hirq, by rw [Inbound.setPc_ne s p hboot]; exact hbefore⟩))
  · exact Or.inr (Or.inr (Or.inr (Or.inl (exists_setPc hcarries hcarry))))
  · exact Or.inr (Or.inr (Or.inr (Or.inr (exists_setPc hscheduling hsched))))

/-- In the dispatch a hart clears an interrupt that nothing waits for. -/
theorem owed_dispatch {i : H} {seen : Option ℕ} (hpc : s.pc i = .dispatch seen) (h : Owed boot s) :
    Owed boot ((s.setPc i .idle).setIrq i false) := by
  rcases h with hdone | hremote | ⟨hirq, hb⟩ | hcarry | hsome
  · exact Or.inl hdone
  · exact Or.inr (Or.inl hremote)
  · have hne : boot ≠ i := by
      rintro rfl
      rw [hpc] at hb
      exact hb
    refine Or.inr (Or.inr (Or.inl ⟨(if_neg hne).trans hirq, ?_⟩))
    show ((s.setPc i .idle).pc boot).BeforeRead
    rw [Inbound.setPc_ne s _ hne]
    exact hb
  · refine Or.inr (Or.inr (Or.inr (Or.inl (exists_setPc ?_ hcarry))))
    intro hc
    rw [hpc] at hc
    exact absurd hc id
  · refine Or.inr (Or.inr (Or.inr (Or.inr (exists_setPc ?_ hsome))))
    intro hc
    rw [hpc] at hc
    exact absurd hc id

/-- An interrupt that is not cleared does no harm. -/
theorem Owed.of_setIrq {i : H} {b : Bool} (h : Owed boot (s.setIrq i b)) (hb : s.irq i = false → b = false) :
    Owed boot s := by
  rcases h with hdone | hremote | ⟨hirq, hbefore⟩ | hcarry | hsome
  · exact Or.inl hdone
  · exact Or.inr (Or.inl hremote)
  · refine Or.inr (Or.inr (Or.inl ⟨?_, hbefore⟩))
    have hirq' : (if boot = i then b else s.irq boot) = true := hirq
    split at hirq'
    · rename_i heq
      rw [heq]
      cases hi : s.irq i with
      | true => rfl
      | false =>
        rw [hb hi] at hirq'
        exact hirq'
    · exact hirq'
  · exact Or.inr (Or.inr (Or.inr (Or.inl hcarry)))
  · exact Or.inr (Or.inr (Or.inr (Or.inr hsome)))

/-- The hook is there while there is a session. -/
theorem notify_inv (h : KickInv boot s) {i : H} (hpc : s.pc i = .notify) :
    KickInv boot (s.setPc i (if s.hooked then .doorbell else .dispatch none)) := by
  have hbefore : (s.pc i).BeforeRead := by
    rw [hpc]
    trivial
  refine setPc_inv h (by rw [hpc]; exact id) (fun n hn => ?_) (fun S hS n hn => ?_) (fun S hS hlt howed => ?_)
  · split at hn <;> exact absurd hn (by simp [Pc.value])
  · split at hn <;> exact absurd hn (by simp)
  · rw [if_pos (h.served S hS).hooked]
    exact owed_before hbefore (Or.inl trivial) howed

/-- At the closed gate a hart turns away from what nobody waits for. -/
theorem owed_closed {i : H} (hpc : s.pc i = .doorbell) (hremote : i = boot → s.remote = true) (h : Owed boot s) :
    Owed boot (s.setPc i (.dispatch none)) := by
  rcases h with hdone | hremote' | ⟨hirq, hb⟩ | hcarry | hsome
  · exact Or.inl hdone
  · exact Or.inr (Or.inl hremote')
  · by_cases hboot : boot = i
    · exact Or.inr (Or.inl (hremote hboot.symm))
    · refine Or.inr (Or.inr (Or.inl ⟨hirq, ?_⟩))
      rw [Inbound.setPc_ne s _ hboot]
      exact hb
  · refine Or.inr (Or.inr (Or.inr (Or.inl (exists_setPc ?_ hcarry))))
    intro hc
    rw [hpc] at hc
    exact absurd hc id
  · refine Or.inr (Or.inr (Or.inr (Or.inr (exists_setPc ?_ hsome))))
    intro hc
    rw [hpc] at hc
    exact absurd hc id

/-- **The gate is open** to the doorbell of a kick. -/
theorem doorbell_inv (h : KickInv boot s) {i : H} (hpc : s.pc i = .doorbell) (hadmits : s.Admits boot i) :
    KickInv boot (s.setPc i (if s.ipiActive then .readCounter s.session else .dispatch none)) := by
  have hbefore : (s.pc i).BeforeRead := by
    rw [hpc]
    trivial
  refine setPc_inv h (by rw [hpc]; exact id) (fun n hn => ?_) (fun S hS n hn => ?_) (fun S hS hlt howed => ?_)
  · split at hn <;> exact absurd hn (by simp [Pc.value])
  · split at hn <;> exact absurd hn (by simp)
  · rcases Bool.eq_false_or_eq_true s.ipiActive with hactive | hclosed
    · rw [if_pos hactive]
      exact owed_before hbefore (Or.inl trivial) howed
    · rw [if_neg (by rw [hclosed]; exact Bool.false_ne_true)]
      exact owed_closed hpc (fun hboot => hadmits hboot hpc hclosed S hS hlt) howed

theorem readCounter_inv (h : KickInv boot s) {i : H} {n : ℕ} (hpc : s.pc i = .readCounter n) :
    KickInv boot { s.setPc i (.compare n s.kicks) with unmappedRead := s.unmappedRead || !s.mapped } := by
  have hbefore : (s.pc i).BeforeRead := by
    rw [hpc]
    trivial
  have hmove : KickInv boot (s.setPc i (.compare n s.kicks)) := by
    refine setPc_inv h (by rw [hpc]; exact id) (fun m hm => ?_) (fun S _ m hm => absurd hm (by simp))
      (fun S _ _ howed => owed_before hbefore (Or.inr rfl) howed)
    obtain rfl := Option.some.inj hm
    exact Nat.le_refl _
  exact hmove.of_same rfl rfl rfl rfl rfl rfl rfl rfl rfl rfl

/-- **A hart that compares** still owes what it did, but for what it carries itself. -/
theorem owed_compare {i : H} {n now : ℕ} {p : Pc} (hpc : s.pc i = .compare n now)
    (hcarried : now = s.kicks → Owed boot (s.setPc i p)) (h : Owed boot s) : Owed boot (s.setPc i p) := by
  rcases h with hdone | hremote | ⟨hirq, hb⟩ | ⟨j, hj⟩ | hsome
  · exact Or.inl hdone
  · exact Or.inr (Or.inl hremote)
  · have hne : boot ≠ i := by
      rintro rfl
      rw [hpc] at hb
      exact hb
    refine Or.inr (Or.inr (Or.inl ⟨hirq, ?_⟩))
    rw [Inbound.setPc_ne s _ hne]
    exact hb
  · by_cases hji : j = i
    · subst hji
      rw [hpc] at hj
      exact hcarried hj
    · refine Or.inr (Or.inr (Or.inr (Or.inl ⟨j, ?_⟩)))
      rw [Inbound.setPc_ne s _ hji]
      exact hj
  · refine Or.inr (Or.inr (Or.inr (Or.inr (exists_setPc ?_ hsome))))
    intro hs
    rw [hpc] at hs
    exact absurd hs id

/-- **The counter has moved**: the doorbell will schedule the work. -/
theorem moved_inv (h : KickInv boot s) {i : H} {n now : ℕ} (hpc : s.pc i = .compare n now) :
    KickInv boot (s.setPc i (.update n now)) := by
  have hnow : now ≤ s.kicks := h.bounds.value i now (by rw [hpc]; rfl)
  refine setPc_inv h (by rw [hpc]; exact id) (fun m hm => ?_) (fun S _ m hm => absurd hm (by simp))
    (fun S _ _ howed => owed_compare hpc (fun hk => ?_) howed)
  · obtain rfl := Option.some.inj hm
    exact hnow
  · refine Or.inr (Or.inr (Or.inr (Or.inl ⟨i, ?_⟩)))
    rw [Inbound.setPc_self]
    exact hk

/-- **The counter has not moved**: another doorbell that saw this count sees to it. -/
theorem unmoved_inv (h : KickInv boot s) {i : H} {n now : ℕ} (hpc : s.pc i = .compare n now)
    (heq : now = s.lastR2lSeen) : KickInv boot (s.setPc i (.dispatch (some now))) := by
  have hnow : now ≤ s.kicks := h.bounds.value i now (by rw [hpc]; rfl)
  have hsched : (s.pc i).Scheduling → False := by
    rw [hpc]
    exact id
  refine setPc_inv h hsched ?_ ?_ ?_
  · intro m hm
    obtain rfl := Option.some.inj hm
    exact hnow
  · intro S hS m hm
    simp only [Pc.dispatch.injEq, Option.some.injEq] at hm
    rw [← hm, heq]
    exact (h.served S hS).last
  · intro S hS hlt howed
    refine owed_compare hpc ?_ howed
    intro hk
    have hbound := h.bounds.scheduled
    rcases (h.served S hS).last with hold | hdone | hsome
    · omega
    · have hdone' : s.scheduled = s.kicks := by omega
      exact Or.inl hdone'
    · exact Or.inr (Or.inr (Or.inr (Or.inr (exists_setPc (fun hs => absurd hs hsched) hsome))))

/-- The counts that the harts have read, when one goes on with the count that it has. -/
theorem setPc_value (h : Bounds s) {i : H} {p : Pc} {now : ℕ} (hp : p.value = some now) (hnow : now ≤ s.kicks) :
    ∀ j m, ((s.setPc i p).pc j).value = some m → m ≤ s.kicks := by
  intro j m hm
  by_cases hji : j = i
  · subst hji
    rw [Inbound.setPc_self, hp] at hm
    obtain rfl := Option.some.inj hm
    exact hnow
  · rw [Inbound.setPc_ne s _ hji] at hm
    exact h.value j m hm

/-- From the store of the count on, the scheduling to come covers every kick. -/
theorem update_inv (h : KickInv boot s) {i : H} {n now : ℕ} (hpc : s.pc i = .update n now) :
    KickInv boot { s.setPc i (.schedule n now) with lastR2lSeen := now } := by
  have hnow : now ≤ s.kicks := h.bounds.value i now (by rw [hpc]; rfl)
  have hself : ((s.setPc i (.schedule n now)).pc i).Scheduling := by
    rw [Inbound.setPc_self]
    trivial
  refine ⟨⟨hnow, h.bounds.scheduled, setPc_value h.bounds rfl hnow, h.bounds.sampled⟩, h.hooked, ?_⟩
  intro S hS
  have hs := h.served S hS
  exact ⟨hs.le, hs.starting, hs.open_, hs.hooked, Or.inr (Or.inr ⟨i, hself⟩),
    fun j m _ => Or.inr (Or.inr ⟨i, hself⟩), fun _ => Or.inr (Or.inr (Or.inr (Or.inr ⟨i, hself⟩)))⟩

/-- **The work is scheduled** after all kicks so far. -/
theorem schedule_inv (h : KickInv boot s) {i : H} {n now : ℕ} {late : Bool} (hpc : s.pc i = .schedule n now) :
    KickInv boot { s.setPc i (.dispatch (some now)) with pending := true, scheduled := s.kicks, late := late } := by
  have hnow : now ≤ s.kicks := h.bounds.value i now (by rw [hpc]; rfl)
  have hvalue := setPc_value h.bounds (i := i) (p := .dispatch (some now)) rfl hnow
  refine ⟨⟨h.bounds.last, Nat.le_refl _, hvalue, h.bounds.sampled⟩, h.hooked, ?_⟩
  intro S hS
  have hs := h.served S hS
  refine ⟨hs.le, hs.starting, hs.open_, hs.hooked, Or.inr (Or.inl h.bounds.last), ?_,
    fun _ => Or.inl rfl⟩
  intro j m hm
  have hle : m ≤ s.kicks := by
    refine hvalue j m ?_
    have hm' : (s.setPc i (.dispatch (some now))).pc j = .dispatch (some m) := hm
    rw [hm']
    rfl
  exact Or.inr (Or.inl hle)

theorem dispatch_inv (h : KickInv boot s) {i : H} {seen : Option ℕ} (hpc : s.pc i = .dispatch seen) :
    KickInv boot ((s.setPc i .idle).setIrq i false) := by
  have howed : ∀ S, s.startedAt = some S → S < s.kicks → Owed boot ((s.setPc i .idle).setIrq i false) :=
    fun S hS hlt => owed_dispatch hpc ((h.served S hS).owed hlt)
  have hmove : KickInv boot (s.setPc i .idle) :=
    setPc_inv h (by rw [hpc]; exact id) (fun n hn => absurd hn (by simp [Pc.value]))
      (fun S _ n hn => absurd hn (by simp)) (fun S hS hlt _ => (howed S hS hlt).of_setIrq (fun _ => rfl))
  refine ⟨⟨hmove.bounds.last, hmove.bounds.scheduled, hmove.bounds.value, hmove.bounds.sampled⟩, hmove.hooked,
    ?_⟩
  intro S hS
  have hs := hmove.served S hS
  exact ⟨hs.le, hs.starting, hs.open_, hs.hooked, hs.last, hs.seen, howed S hS⟩

/-- **One step of a hart.** -/
theorem hartStep_inv (h : KickInv boot s) {i : H} (hfresh : (s.pc i).Fresh s.lastR2lSeen)
    (hadmits : s.Admits boot i) (hstep : s.hartStep i = some s') : KickInv boot s' := by
  unfold Inbound.hartStep at hstep
  cases hpc : s.pc i with
  | idle =>
    rw [hpc] at hstep
    exact absurd hstep (by simp)
  | notify =>
    rw [hpc] at hstep
    obtain rfl := Option.some.inj hstep
    exact notify_inv h hpc
  | doorbell =>
    rw [hpc] at hstep
    obtain rfl := Option.some.inj hstep
    exact doorbell_inv h hpc hadmits
  | readCounter n =>
    rw [hpc] at hstep
    obtain rfl := Option.some.inj hstep
    exact readCounter_inv h hpc
  | compare n now =>
    rw [hpc] at hstep hfresh
    obtain rfl := Option.some.inj hstep
    by_cases hword : word now ≠ word s.lastR2lSeen
    · rw [if_pos hword]
      exact moved_inv h hpc
    · rw [if_neg hword]
      -- equal words are equal counts, as the condition has it
      exact unmoved_inv h hpc (hfresh (by simpa using hword))
  | update n now =>
    rw [hpc] at hstep
    obtain rfl := Option.some.inj hstep
    exact update_inv h hpc
  | schedule n now =>
    rw [hpc] at hstep
    obtain rfl := Option.some.inj hstep
    exact schedule_inv h hpc
  | dispatch seen =>
    rw [hpc] at hstep
    obtain rfl := Option.some.inj hstep
    exact dispatch_inv h hpc

/-! ## The other steps -/

omit [DecidableEq H] in
/-- A session is neither being stopped nor removed. -/
theorem Served.not_closed {S : ℕ} (h : Served boot S s) (hnot : s.ctl.starting = false) : s.ctl = .idle :=
  (h.open_ hnot).1

theorem ctlStep_inv {a : InboundAct H} (h : KickInv boot s) (hstep : s.next boot a = some s')
    (ha : a = .start ∨ a = .sample ∨ a = .store ∨ a = .open_) : KickInv boot s' := by
  rcases ha with rfl | rfl | rfl | rfl <;> unfold Inbound.next at hstep <;> simp only at hstep
  · obtain ⟨hidle, rfl⟩ := of_guard hstep
    have hhooked : s.hooked = true := h.hooked (by rw [hidle.1]; simp) (by rw [hidle.1]; simp)
    refine ⟨⟨h.bounds.last, h.bounds.scheduled, h.bounds.value, fun n hn => absurd hn (by simp)⟩,
      fun _ _ => hhooked, ?_⟩
    intro S hS
    obtain rfl : s.kicks = S := Option.some.inj hS
    refine ⟨Nat.le_refl _, fun n hn => (Option.some.inj hn).symm, fun hnot => absurd hnot (by simp [Ctl.starting]), hhooked,
      Or.inl h.bounds.last, fun j n hn => Or.inl ?_, fun hlt => absurd hlt (Nat.lt_irrefl _)⟩
    refine h.bounds.value j n ?_
    have hn' : s.pc j = .dispatch (some n) := hn
    rw [hn']
    rfl
  · obtain ⟨hbegun, rfl⟩ := of_guard hstep
    refine ⟨⟨h.bounds.last, h.bounds.scheduled, h.bounds.value, fun n hn => ?_⟩,
      fun _ _ => h.hooked (by rw [hbegun]; simp) (by rw [hbegun]; simp), fun S hS => ?_⟩
    · simp only [Ctl.sampled.injEq] at hn
      exact Nat.le_of_eq hn.symm
    · have hs := h.served S hS
      exact ⟨hs.le, fun n hn => hs.starting n (by rw [hbegun]; exact hn), fun hnot => absurd hnot (by simp [Ctl.starting]),
        hs.hooked, hs.last, hs.seen, hs.owed⟩
  · split at hstep
    · rename_i now hsampled
      obtain rfl := Option.some.inj hstep
      have hnow := h.bounds.sampled now hsampled
      refine ⟨⟨hnow, h.bounds.scheduled, h.bounds.value, fun n hn => absurd hn (by simp)⟩,
        fun _ _ => h.hooked (by rw [hsampled]; simp) (by rw [hsampled]; simp), fun S hS => ?_⟩
      have hs := h.served S hS
      have hk := hs.starting now (by rw [hsampled]; rfl)
      -- nothing was kicked since the start, so the sample is no newer
      exact ⟨hs.le, fun n hn => absurd hn.symm (Option.some_ne_none n), fun hnot => absurd hnot (by simp [Ctl.starting]),
        hs.hooked, Or.inl (Nat.le_of_eq hk), hs.seen, hs.owed⟩
    · exact absurd hstep (by simp)
  · obtain ⟨hstored, rfl⟩ := of_guard hstep
    refine ⟨⟨h.bounds.last, h.bounds.scheduled, h.bounds.value, fun n hn => absurd hn (by simp)⟩,
      fun _ _ => h.hooked (by rw [hstored]; simp) (by rw [hstored]; simp), fun S hS => ?_⟩
    have hs := h.served S hS
    exact ⟨hs.le, fun n hn => absurd hn.symm (Option.some_ne_none n), fun _ => ⟨rfl, rfl⟩, hs.hooked, hs.last,
      hs.seen, hs.owed⟩

/-- Stopping ends the session. -/
theorem stopStep_inv {a : InboundAct H} (h : KickInv boot s) (hstep : s.next boot a = some s')
    (ha : (∃ removing, a = .close removing) ∨ a = .cancel ∨ a = .unhook ∨ a = .unmap) : KickInv boot s' := by
  have hnone : ∀ S, s.startedAt = some S → s.ctl.starting = false → s.ctl ≠ .idle → False :=
    fun S hS hnot hidle => hidle ((h.served S hS).not_closed hnot)
  rcases ha with ⟨removing, rfl⟩ | rfl | rfl | rfl <;> unfold Inbound.next at hstep <;> simp only at hstep
  · obtain ⟨hidle, rfl⟩ := of_guard hstep
    exact ⟨⟨h.bounds.last, h.bounds.scheduled, h.bounds.value, fun n hn => absurd hn (by simp)⟩,
      fun _ _ => h.hooked (by rw [hidle]; simp) (by rw [hidle]; simp), fun S hS => absurd hS (by simp)⟩
  · split at hstep
    · rename_i removing hclosed
      obtain ⟨-, rfl⟩ := of_guard_not hstep
      refine ⟨⟨h.bounds.last, h.bounds.scheduled, h.bounds.value, fun n hn => ?_⟩,
        fun _ _ => h.hooked (by rw [hclosed]; simp) (by rw [hclosed]; simp), fun S hS => ?_⟩
      · simp only at hn
        split at hn <;> exact absurd hn (by simp)
      · exact (hnone S hS (by rw [hclosed]; rfl) (by rw [hclosed]; simp)).elim
    · exact absurd hstep (by simp)
  · obtain ⟨hunhook, rfl⟩ := of_guard hstep
    refine ⟨⟨h.bounds.last, h.bounds.scheduled, h.bounds.value, fun n hn => absurd hn (by simp)⟩,
      fun hne => absurd rfl hne, ?_⟩
    intro S hS
    exact (hnone S hS (by rw [hunhook]; rfl) (by rw [hunhook]; simp)).elim
  · obtain ⟨hunmap, rfl⟩ := of_guard hstep
    refine ⟨⟨h.bounds.last, h.bounds.scheduled, h.bounds.value, fun n hn => absurd hn (by simp)⟩,
      fun _ hne => absurd rfl hne, ?_⟩
    intro S hS
    exact (hnone S hS (by rw [hunmap]; rfl) (by rw [hunmap]; simp)).elim

/-- **A kick** is owed from its increment on. -/
theorem kick_inv (h : KickInv boot s) (hbegun : s.ctl ≠ .begun) (hstep : s.next boot .kick = some s') :
    KickInv boot s' := by
  obtain ⟨-, rfl⟩ := of_guard_not hstep
  refine ⟨⟨Nat.le_succ_of_le h.bounds.last, Nat.le_succ_of_le h.bounds.scheduled,
    fun j n hn => Nat.le_succ_of_le (h.bounds.value j n hn),
    fun n hn => Nat.le_succ_of_le (h.bounds.sampled n hn)⟩, h.hooked, ?_⟩
  intro S hS
  have hs := h.served S hS
  refine ⟨Nat.le_succ_of_le hs.le, ?_, hs.open_, hs.hooked, hs.last, hs.seen,
    fun _ => Or.inr (Or.inl rfl)⟩
  -- the sample is not changed by it
  intro n hn
  refine hs.starting n (Eq.trans ?_ hn)
  show s.ctl.count s.kicks = s.ctl.count (s.kicks + 1)
  cases hctl : s.ctl with
  | begun => exact absurd hctl hbegun
  | idle | sampled now | stored | closed removing | unhook | unmap | removed => rfl

/-- **The interrupt of a kick** reaches a doorbell that has yet to read the counter, or one that has
seen the kick. -/
theorem raise_inv (h : KickInv boot s) (hheeded : Heeded boot s .raise) (hstep : s.next boot .raise = some s') :
    KickInv boot s' := by
  obtain ⟨-, rfl⟩ := of_guard hstep
  refine ⟨⟨h.bounds.last, h.bounds.scheduled, h.bounds.value, h.bounds.sampled⟩, h.hooked, ?_⟩
  intro S hS
  have hs := h.served S hS
  refine ⟨hs.le, hs.starting, hs.open_, hs.hooked, hs.last, hs.seen, ?_⟩
  intro hlt
  have hlt' : S < s.kicks := hlt
  have hsaw := hheeded S hS hlt'
  have hbefore : (s.pc boot).BeforeRead → Owed boot { s.setIrq boot true with remote := false } :=
    fun hb => Or.inr (Or.inr (Or.inl ⟨if_pos rfl, hb⟩))
  cases hpc : s.pc boot with
  | idle | notify | doorbell | readCounter n =>
    apply hbefore
    rw [hpc]
    trivial
  | compare n now | update n now =>
    rw [hpc] at hsaw
    refine Or.inr (Or.inr (Or.inr (Or.inl ⟨boot, ?_⟩)))
    show (s.pc boot).Carries s.kicks
    rw [hpc]
    exact hsaw
  | schedule n now =>
    refine Or.inr (Or.inr (Or.inr (Or.inr ⟨boot, ?_⟩)))
    show (s.pc boot).Scheduling
    rw [hpc]
    trivial
  | dispatch seen =>
    rw [hpc] at hsaw
    have hseen : seen = some s.kicks := hsaw
    rw [hseen] at hpc
    have hbound := h.bounds.scheduled
    rcases hs.seen boot s.kicks hpc with hold | hdone | hsome
    · omega
    · have hdone' : s.scheduled = s.kicks := by omega
      exact Or.inl hdone'
    · exact Or.inr (Or.inr (Or.inr (Or.inr hsome)))

/-- Another interrupt, or one that is taken, changes nothing that is owed. -/
theorem ipi_inv (h : KickInv boot s) (i : H) : KickInv boot (s.setIrq i true) := by
  refine ⟨⟨h.bounds.last, h.bounds.scheduled, h.bounds.value, h.bounds.sampled⟩, h.hooked, ?_⟩
  intro S hS
  have hs := h.served S hS
  refine ⟨hs.le, hs.starting, hs.open_, hs.hooked, hs.last, hs.seen, ?_⟩
  intro hlt
  rcases hs.owed hlt with hdone | hremote | ⟨hirq, hb⟩ | hcarry | hsome
  · exact Or.inl hdone
  · exact Or.inr (Or.inl hremote)
  · refine Or.inr (Or.inr (Or.inl ⟨?_, hb⟩))
    show (if boot = i then true else s.irq boot) = true
    rw [hirq, ite_self]
  · exact Or.inr (Or.inr (Or.inr (Or.inl hcarry)))
  · exact Or.inr (Or.inr (Or.inr (Or.inr hsome)))

/-- **One step keeps the kicks owed or served.** -/
theorem next_inv {a : InboundAct H} (h : KickInv boot s) (hheeded : Heeded boot s a)
    (hstep : s.next boot a = some s') : KickInv boot s' := by
  cases a with
  | start => exact ctlStep_inv h hstep (Or.inl rfl)
  | sample => exact ctlStep_inv h hstep (Or.inr (Or.inl rfl))
  | store => exact ctlStep_inv h hstep (Or.inr (Or.inr (Or.inl rfl)))
  | open_ => exact ctlStep_inv h hstep (Or.inr (Or.inr (Or.inr rfl)))
  | close removing => exact stopStep_inv h hstep (Or.inl ⟨removing, rfl⟩)
  | cancel => exact stopStep_inv h hstep (Or.inr (Or.inl rfl))
  | unhook => exact stopStep_inv h hstep (Or.inr (Or.inr (Or.inl rfl)))
  | unmap => exact stopStep_inv h hstep (Or.inr (Or.inr (Or.inr rfl)))
  | kick => exact kick_inv h hheeded hstep
  | raise => exact raise_inv h hheeded hstep
  | ipi i =>
    obtain rfl := Option.some.inj hstep
    exact ipi_inv h i
  | take i =>
    obtain ⟨hidle, rfl⟩ := of_guard hstep
    have hbefore : (s.pc i).BeforeRead := by
      rw [hidle.2]
      trivial
    exact setPc_inv h (by rw [hidle.2]; exact id) (fun n hn => absurd hn (by simp [Pc.value]))
      (fun S _ n hn => absurd hn (by simp)) (fun S _ _ howed => owed_before hbefore (Or.inl trivial) howed)
  | hart i => exact hartStep_inv h hheeded.1 hheeded.2 hstep
  | workBegin =>
    obtain ⟨-, rfl⟩ := of_guard hstep
    exact h.of_same rfl rfl rfl rfl rfl rfl rfl rfl rfl rfl
  | workEnd =>
    obtain ⟨-, rfl⟩ := of_guard hstep
    exact h.of_same rfl rfl rfl rfl rfl rfl rfl rfl rfl rfl

theorem reach_kicks (h : (inboundMachine boot).Reach (Heeded boot) s) : KickInv boot s := by
  refine h.invariant ?_ (fun s a s' hs hheeded hstep => next_inv hs hheeded hstep)
  rintro s ⟨kicks, lastR2lSeen, hle, rfl⟩
  exact probed_inv hle

/-- **Every kick is served** in a run that heeds them. -/
theorem kicks_served (h : (inboundMachine boot).Reach (Heeded boot) s) : KicksServed boot s := by
  intro S hS hlt hhandled
  rcases ((reach_kicks h).served S hS).owed hlt with hdone | hremote | ⟨hirq, -⟩ | ⟨j, hj⟩ | ⟨j, hj⟩
  · exact hdone
  · rw [hhandled.raised] at hremote
    exact absurd hremote (by simp)
  · rw [hhandled.irq] at hirq
    exact absurd hirq (by simp)
  · rw [hhandled.harts j] at hj
    exact absurd hj id
  · rw [hhandled.harts j] at hj
    exact absurd hj id

/-- A kick made before the gate opens, whose interrupt is raised behind it, and another one. -/
theorem kicks_served_two :
    ∃ s : Inbound (Fin 2), (inboundMachine 0).Reach (Heeded 0) s ∧ s.startedAt = some 0 ∧ s.kicks = 2 ∧
      Handled 0 s ∧ s.scheduled = 2 ∧ KicksServed 0 s := by
  have hrun : ((inboundMachine (0 : Fin 2)).exec (.probed 0 0)
      ([.start, .sample, .kick, .store, .open_, .raise, .take 0] ++ List.replicate 7 (.hart 0) ++ [.kick, .raise, .take 0] ++
        List.replicate 7 (.hart 0))).map
      (fun s => ((s.startedAt, s.kicks, s.remote, s.irq 0), [s.pc 0, s.pc 1], s.scheduled)) =
      some ((some 0, 2, false, false), [.idle, .idle], 2) := by decide +kernel
  obtain ⟨s, hexec, hs⟩ := Option.map_eq_some_iff.1 hrun
  simp only [Prod.mk.injEq, List.cons.injEq, and_true] at hs
  obtain ⟨⟨hstarted, hkicks, hremote, hirq⟩, ⟨h0, h1⟩, hscheduled⟩ := hs
  have hreach : (inboundMachine 0).Reach (Heeded 0) s :=
    .of_exec ⟨0, 0, Nat.le_refl _, rfl⟩ (by decide +kernel) hexec
  exact ⟨s, hreach, hstarted, hkicks, ⟨hremote, hirq, Fin.forall_fin_two.2 ⟨h0, h1⟩⟩, hscheduled,
    kicks_served hreach⟩

/-- A run in which the last kick since the start has been handled and not served. -/
theorem lost_of_run {n : ℕ} (as : List (InboundAct (Fin 2)))
    (hrun : ((inboundMachine (0 : Fin 2)).exec (.probed 0 0) as).map
      (fun s => ((s.startedAt, s.kicks, s.remote, s.irq 0), [s.pc 0, s.pc 1], (s.ipiActive, s.scheduled))) =
      some ((some 0, n + 1, false, false), [.idle, .idle], (true, n))) :
    ∃ s : Inbound (Fin 2), (inboundMachine 0).Reach (fun _ _ => True) s ∧ s.ipiActive = true ∧ s.kicks = n + 1 ∧
      s.scheduled = n ∧ Handled 0 s ∧ ¬ KicksServed 0 s := by
  obtain ⟨s, hexec, hs⟩ := Option.map_eq_some_iff.1 hrun
  simp only [Prod.mk.injEq, List.cons.injEq, and_true] at hs
  obtain ⟨⟨hstarted, hkicks, hremote, hirq⟩, ⟨h0, h1⟩, hactive, hscheduled⟩ := hs
  have hhandled : Handled 0 s := ⟨hremote, hirq, Fin.forall_fin_two.2 ⟨h0, h1⟩⟩
  refine ⟨s, .of_exec ⟨0, 0, Nat.le_refl _, rfl⟩ (Machine.along_true _ _) hexec, hactive, hkicks, hscheduled,
    hhandled, ?_⟩
  intro hserved
  have hdone := hserved 0 hstarted (by omega) hhandled
  omega

/-- **A kick before the gate opens** is dropped by its doorbell, and the gate opens without it. -/
theorem kick_before_gate_lost :
    ∃ s : Inbound (Fin 2), (inboundMachine 0).Reach (fun _ _ => True) s ∧ s.ipiActive = true ∧ s.kicks = 1 ∧
      s.scheduled = 0 ∧ Handled 0 s ∧ ¬ KicksServed 0 s :=
  lost_of_run [.start, .sample, .store, .kick, .raise, .take 0, .hart 0, .hart 0, .hart 0, .open_]
    (by decide +kernel)

/-- **A kick before the dispatch** of the one before it loses its interrupt there. -/
theorem kick_before_dispatch_lost :
    ∃ s : Inbound (Fin 2), (inboundMachine 0).Reach (fun _ _ => True) s ∧ s.ipiActive = true ∧ s.kicks = 2 ∧
      s.scheduled = 1 ∧ Handled 0 s ∧ ¬ KicksServed 0 s :=
  lost_of_run [.start, .sample, .store, .open_, .kick, .raise, .take 0, .hart 0, .hart 0, .hart 0,
    .hart 0, .hart 0, .hart 0, .kick, .raise, .hart 0] (by decide +kernel)

end Br2Efinix.Rproc
