import Br2Efinix.EfxDma.Schedule

/-!
# The status of a DMA transfer

`efx_dma_tx_status` answers from the busy bit of the channel alone, whichever transfer it is asked
about.

* `status_kept_iff`: the answers are right at every point of a run, and none goes back, exactly when
  nothing is submitted in it; the first submission already reads as complete.
* `status_of_issued`: where transfers are made one at a time the answers are right for those that
  have been issued.
-/

namespace Br2Efinix.EfxDma

def DMA_MIN_COOKIE : BitVec 32 := 1#32

/-- `enum dma_status`, as far as the driver gives it. -/
inductive DmaStatus
  | complete
  | inProgress
  | error
  deriving DecidableEq, Repr

/-- `dma_cookie_assign`: the cookie after `cookie`, a signed number. -/
def nextCookie (cookie : BitVec 32) : BitVec 32 :=
  if (cookie + 1#32).slt DMA_MIN_COOKIE then DMA_MIN_COOKIE else cookie + 1#32

/-- The cookie of the transfer with `k` submissions before it. -/
def cookieAt : ℕ → BitVec 32
  | 0 => nextCookie DMA_MIN_COOKIE
  | k + 1 => nextCookie (cookieAt k)

namespace Sched

/-- `efx_dma_busy`. -/
def busy (s : Sched) : Bool := s.engine != .idle

/-- `efx_dma_tx_status`, where `completed` is `completed_cookie`. -/
def txStatus (s : Sched) (completed cookie : BitVec 32) : DmaStatus :=
  if s.busy then .inProgress
  else if cookie.slt DMA_MIN_COOKIE then .error
  else if completed = cookie then .complete
  else .complete

/-- The cookie of a transfer that was submitted. -/
def cookie (s : Sched) (t : ℕ) : BitVec 32 := cookieAt (s.submissions.idxOf t)

end Sched

/-! ## The property -/

/-- The answers about the transfers submitted so far, whatever `completed_cookie` is. -/
structure StatusRight (s : Sched) : Prop where
  complete : ∀ t ∈ s.submissions, ∀ completed, s.txStatus completed (s.cookie t) = .complete → t ∈ s.executed
  inProgress : ∀ t ∈ s.submissions, t ∉ s.executed → ∀ completed, s.txStatus completed (s.cookie t) = .inProgress

/-- The answers at every point of a run are right, and a transfer that is complete does not go back. -/
structure StatusKept (s : Sched) (as : List SchedAct) : Prop where
  right : ∀ as₁ as₂ s₁, as = as₁ ++ as₂ → schedMachine.exec s as₁ = some s₁ → StatusRight s₁
  settled : ∀ as₁ as₂ as₃ s₁ s₂, as = as₁ ++ (as₂ ++ as₃) → schedMachine.exec s as₁ = some s₁ →
    schedMachine.exec s₁ as₂ = some s₂ → ∀ t ∈ s₁.submissions, ∀ completed completed',
      s₁.txStatus completed (s₁.cookie t) = .complete → s₂.txStatus completed' (s₂.cookie t) ≠ .inProgress

variable {s s' : Sched} {t : ℕ}

/-! ## The answers -/

/-- A cookie that was assigned is not below the least one. -/
theorem cookieAt_valid (k : ℕ) : (cookieAt k).slt DMA_MIN_COOKIE = false := by
  have hnext : ∀ c, (nextCookie c).slt DMA_MIN_COOKIE = false := by
    intro c
    unfold nextCookie
    split
    · decide
    · rename_i hge
      exact Bool.eq_false_iff.2 hge
  cases k with
  | zero => exact hnext _
  | succ k => exact hnext _

/-- **The answer** for a submitted transfer is that of the busy bit. -/
theorem txStatus_cookie (s : Sched) (t : ℕ) (completed : BitVec 32) :
    s.txStatus completed (s.cookie t) = if s.engine = .idle then .complete else .inProgress := by
  unfold Sched.txStatus Sched.busy Sched.cookie
  rw [cookieAt_valid]
  by_cases hidle : s.engine = .idle <;> simp [hidle]

/-- The answers are right when the channel is busy or has executed everything. -/
theorem statusRight_iff : StatusRight s ↔ (s.engine = .idle → ∀ t ∈ s.submissions, t ∈ s.executed) := by
  constructor
  · intro h hidle t ht
    apply h.complete t ht 0#32
    rw [txStatus_cookie, if_pos hidle]
  · intro h
    constructor
    · intro t ht completed heq
      rw [txStatus_cookie] at heq
      split at heq
      · rename_i hidle
        exact h hidle t ht
      · exact absurd heq (by decide)
    · intro t ht hnot completed
      rw [txStatus_cookie, if_neg]
      intro hidle
      exact hnot (h hidle t ht)

/-! ## Until the first submission -/

/-- Nothing has been submitted. -/
structure Unused (s : Sched) : Prop where
  submissions : s.submissions = []
  submitted : s.submitted = []
  issued : s.issued = []
  executed : s.executed = []
  idle : s.engine = .idle

/-- The first transfer has been submitted, and not issued. -/
structure FirstSubmitted (s : Sched) (t : ℕ) : Prop where
  submissions : s.submissions = [t]
  executed : s.executed = []
  idle : s.engine = .idle

/-- **A step** before the first submission is the first one, or changes nothing that matters. -/
theorem step_unused {a : SchedAct} (h : Unused s) (hst : schedMachine.step s a = some s') :
    Unused s' ∨ ∃ t, FirstSubmitted s' t := by
  obtain ⟨hsubs, hsubmitted, hissued, hexecuted, hidle⟩ := h
  cases a with
  | prep p interrupt =>
    obtain ⟨r, -, rfl⟩ := Option.map_eq_some_iff.1 hst
    left
    split
    · exact ⟨hsubs, hsubmitted, hissued, hexecuted, hidle⟩
    · exact ⟨hsubs, hsubmitted, hissued, hexecuted, hidle⟩
  | submit t =>
    obtain ⟨-, rfl⟩ := of_guard hst
    right
    exact ⟨t, by simp [hsubs], hexecuted, hidle⟩
  | issuePending =>
    obtain rfl := Option.some.inj hst
    left
    have hnone : s.issued ++ s.submitted = [] := by rw [hissued, hsubmitted]; rfl
    unfold Sched.issuePending
    simp only
    rw [if_pos hnone]
    exact ⟨hsubs, rfl, hnone, hexecuted, hidle⟩
  | channelDone =>
    have hnone : s.channelDone = none := by unfold Sched.channelDone; rw [hidle]
    exact absurd (hst.symm.trans hnone) (by simp)
  | interrupt =>
    obtain rfl := Option.some.inj hst
    left
    unfold Sched.interruptHandler
    split
    · exact ⟨hsubs, hsubmitted, hissued, hexecuted, hidle⟩
    · exact ⟨hsubs, by simp [hsubmitted], by simp [hissued], hexecuted, hidle⟩
  | vchanComplete t =>
    obtain ⟨-, rfl⟩ := of_guard hst
    exact .inl ⟨hsubs, hsubmitted, hissued, hexecuted, hidle⟩
  | terminateAll =>
    obtain rfl := Option.some.inj hst
    exact .inl ⟨hsubs, hsubmitted, hissued, hexecuted, by unfold Sched.terminate; simp [hidle]⟩

/-- Submissions are only added. -/
theorem step_submissions {a : SchedAct} (hst : schedMachine.step s a = some s') :
    s.submissions <+: s'.submissions := by
  cases a with
  | prep p interrupt =>
    obtain ⟨r, -, rfl⟩ := Option.map_eq_some_iff.1 hst
    split <;> exact List.prefix_rfl
  | submit t => obtain ⟨-, rfl⟩ := of_guard hst; exact List.prefix_append _ _
  | issuePending =>
    obtain rfl := Option.some.inj hst
    unfold Sched.issuePending Sched.startTransfer
    simp only
    repeat' split
    all_goals exact List.prefix_rfl
  | channelDone =>
    replace hst : s.channelDone = some s' := hst
    unfold Sched.channelDone at hst
    split at hst
    · exact absurd hst (by simp)
    · obtain rfl := Option.some.inj hst; exact List.prefix_rfl
    · obtain rfl := Option.some.inj hst; exact List.prefix_rfl
  | interrupt =>
    obtain rfl := Option.some.inj hst
    unfold Sched.interruptHandler
    split <;> exact List.prefix_rfl
  | vchanComplete t => obtain ⟨-, rfl⟩ := of_guard hst; exact List.prefix_rfl
  | terminateAll => obtain rfl := Option.some.inj hst; exact List.prefix_rfl

/-! ## The runs -/

/-- A run in which something is submitted has a point right after the first submission. -/
theorem exec_first {as : List SchedAct} (h : Unused s) (he : schedMachine.exec s as = some s')
    (hsome : s'.submissions ≠ []) :
    ∃ as₁ as₂ s₁ t, as = as₁ ++ as₂ ∧ schedMachine.exec s as₁ = some s₁ ∧ FirstSubmitted s₁ t := by
  induction as generalizing s with
  | nil =>
    cases he
    exact absurd h.submissions hsome
  | cons a as ih =>
    obtain ⟨s₁, hst, hrest⟩ := Option.bind_eq_some_iff.1 he
    rcases step_unused h hst with hunused | ⟨t, hfirst⟩
    · obtain ⟨as₁, as₂, s₂, t, rfl, hexec, hfirst⟩ := ih hunused hrest
      refine ⟨a :: as₁, as₂, s₂, t, rfl, ?_, hfirst⟩
      unfold Machine.exec
      rw [hst]
      exact hexec
    · refine ⟨[a], as, s₁, t, rfl, ?_, hfirst⟩
      unfold Machine.exec
      rw [hst]
      rfl

/-- The point at which a run is split has no more submissions than its end. -/
theorem exec_submissions {as₁ as₂ : List SchedAct} {s₁ : Sched} (he : schedMachine.exec s (as₁ ++ as₂) = some s')
    (h₁ : schedMachine.exec s as₁ = some s₁) : s₁.submissions <+: s'.submissions := by
  induction as₁ generalizing s with
  | nil =>
    cases h₁
    exact Machine.exec_invariant (I := fun u => s₁.submissions <+: u.submissions)
      (fun _ _ _ hpre hst => hpre.trans (step_submissions hst)) List.prefix_rfl he
  | cons a as₁ ih =>
    obtain ⟨u, hst, hrest⟩ := Option.bind_eq_some_iff.1 he
    obtain ⟨u', hst', hrest'⟩ := Option.bind_eq_some_iff.1 h₁
    obtain rfl := Option.some.inj (hst.symm.trans hst')
    exact ih hrest hrest'

/-- **The status is right in a run** exactly when nothing is submitted in it. -/
theorem status_kept_iff {as : List SchedAct} (hinit : schedMachine.init s) (he : schedMachine.exec s as = some s') :
    StatusKept s as ↔ s'.submissions = [] := by
  constructor
  · intro hkept
    by_contra hsome
    have hunused : Unused s := by
      obtain ⟨c, rfl⟩ := hinit
      exact ⟨rfl, rfl, rfl, rfl, rfl⟩
    obtain ⟨as₁, as₂, s₁, t, heq, hexec, hfirst⟩ := exec_first hunused he hsome
    -- the transfer reads as complete and has not even been issued
    have hexecuted := statusRight_iff.1 (hkept.right as₁ as₂ s₁ heq hexec) hfirst.idle t
      (by simp [hfirst.submissions])
    rw [hfirst.executed] at hexecuted
    exact absurd hexecuted List.not_mem_nil
  · intro hnone
    have hpoint : ∀ as₁ as₂ s₁, as = as₁ ++ as₂ → schedMachine.exec s as₁ = some s₁ → s₁.submissions = [] := by
      intro as₁ as₂ s₁ heq h₁
      rw [heq] at he
      have hpre := exec_submissions he h₁
      rw [hnone] at hpre
      exact List.prefix_nil.1 hpre
    constructor
    · intro as₁ as₂ s₁ heq h₁
      rw [statusRight_iff, hpoint as₁ as₂ s₁ heq h₁]
      intro _ t ht
      exact absurd ht List.not_mem_nil
    · intro as₁ as₂ as₃ s₁ s₂ heq h₁ _ t ht
      rw [hpoint as₁ _ s₁ heq h₁] at ht
      exact absurd ht List.not_mem_nil

theorem status_kept_iff_prepared :
    StatusKept .rest [toDevice] ∧ ¬ StatusKept .rest [toDevice, .submit 0] := by
  have hprep : (schedMachine.exec .rest [toDevice]).map Sched.submissions = some [] := by decide +kernel
  have hsubmit : (schedMachine.exec .rest [toDevice, .submit 0]).map Sched.submissions = some [0] := by
    decide +kernel
  obtain ⟨s, hs, hnone⟩ := Option.map_eq_some_iff.1 hprep
  obtain ⟨s', hs', hone⟩ := Option.map_eq_some_iff.1 hsubmit
  refine ⟨(status_kept_iff ⟨_, rfl⟩ hs).2 hnone, ?_⟩
  intro hkept
  have hempty := (status_kept_iff ⟨_, rfl⟩ hs').1 hkept
  rw [hone] at hempty
  exact absurd hempty (by simp)

/-- **A transfer reads as complete** before it is issued, and then as in progress. -/
theorem submitted_reads_complete :
    ∃ s s', schedMachine.exec .rest [toDevice, .submit 0] = some s ∧
      schedMachine.step s .issuePending = some s' ∧ s.submissions = [0] ∧ s.executed = [] ∧
      s.txStatus 1#32 (s.cookie 0) = .complete ∧ s'.txStatus 1#32 (s'.cookie 0) = .inProgress := by
  have hrun : (schedMachine.exec .rest [toDevice, .submit 0]).map (fun s =>
      (s.submissions, s.executed, s.txStatus 1#32 (s.cookie 0),
        s.issuePending.txStatus 1#32 (s.issuePending.cookie 0))) =
      some ([0], [], .complete, .inProgress) := by decide +kernel
  obtain ⟨s, hexec, heq⟩ := Option.map_eq_some_iff.1 hrun
  simp only [Prod.mk.injEq] at heq
  obtain ⟨hsubs, hexecuted, hbefore, hafter⟩ := heq
  exact ⟨s, s.issuePending, hexec, rfl, hsubs, hexecuted, hbefore, hafter⟩

/-- **One at a time**, a transfer that was issued and not terminated reads as complete when it has been
executed, and as in progress until then. -/
theorem status_of_issued (hr : schedMachine.Reach OneAtATime s) (ht : t ∈ s.issuances) (hnot : t ∉ s.terminated)
    (completed : BitVec 32) :
    (s.txStatus completed (s.cookie t) = .complete → t ∈ s.executed) ∧
      (t ∉ s.executed → s.txStatus completed (s.cookie t) = .inProgress) := by
  have hs : Kept s := hr.invariant (fun _ h => init_kept h) fun _ _ _ h hg hstep => step_kept h hg hstep
  have hidle : s.engine = .idle → t ∈ s.executed := by
    intro hidle
    rcases hs.settled t ht with h | h | h
    · exact absurd h hnot
    · exact (hs.done t h).1
    · have hlive : t ∈ s.live := List.mem_filter.2 ⟨h, by simpa using hnot⟩
      rcases hs.stage with ⟨hnone, -⟩ | ⟨u, -, hrunning, -⟩ | ⟨u, hone, -, -, -, -, -, hrun⟩
      · rw [hnone] at hlive
        exact absurd hlive List.not_mem_nil
      · rw [hidle] at hrunning
        exact absurd hrunning (by simp)
      · rw [hone] at hlive
        rw [List.mem_singleton.1 hlive]
        exact hrun
  rw [txStatus_cookie]
  by_cases h : s.engine = .idle
  · rw [if_pos h]
    exact ⟨fun _ => hidle h, fun hno => absurd (hidle h) hno⟩
  · rw [if_neg h]
    exact ⟨fun heq => absurd heq (by decide), fun _ => rfl⟩

end Br2Efinix.EfxDma
