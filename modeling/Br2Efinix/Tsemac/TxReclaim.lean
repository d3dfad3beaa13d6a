import Br2Efinix.Tsemac.TxPieces

/-!
# Reclaiming the transmit descriptors

`control` is the descriptor's length and the mark that it is in use. A piece of one
byte that does not end its packet has a control word of 0: `tsemac_tx_poll` takes the
descriptor for a free one and never goes past it.

* `reclaimable_of_roomy`: in every run whose packets fit, exactly the owned descriptors
  are marked, and calls of `tsemac_tx_poll` free all that have been sent.
* `one_byte_stalls`: a packet with a fragment of one byte in its middle.
-/

namespace Br2Efinix.Tsemac

namespace Tx

/-- The rest of a call of `tsemac_tx_poll`, in at most so many accesses. -/
def pollRun : ℕ → Tx → Option Tx
  | 0, s => if s.poll = .idle then some s else none
  | k + 1, s => if s.poll = .idle then some s else s.pollStep.bind (pollRun k)

/-- A whole call of `tsemac_tx_poll`. -/
def txPoll (s : Tx) (budget : ℕ) : Option Tx := (s.startPoll budget).bind (pollRun (4 * budget + 2))

/-- One call after the other. -/
def txPolls (s : Tx) (budgets : List ℕ) : Option Tx := budgets.foldlM txPoll s

/-- The descriptors beyond the first that a call of `tsemac_start_xmit` is writing. -/
def beingWritten (s : Tx) : List ℕ :=
  match s.xmit with
  | .frag x | .fragStatus x | .publish x => (List.range x.ii).map fun j => (x.orig + 1 + j) % s.n
  | _ => []

end Tx

/-- Exactly the owned descriptors are marked, and once sent they are all given back. -/
structure Reclaimable (s : Tx) : Prop where
  inside : ∀ i ∈ Ring.between s.n s.ci s.ownedEnd, (i = s.ci → ¬s.clearing) → (s.ring i).control ≠ 0
  outside : ∀ i < s.n, i ∉ Ring.between s.n s.ci s.ownedEnd → i ∉ s.beingWritten →
    (s.ring i).control = 0
  frees : s.xmit = .idle → s.poll = .idle →
    (∀ i ∈ Ring.between s.n s.ci s.tail, (s.ring i).completed = true) →
      ∀ budgets : List ℕ, Ring.dist s.n s.ci s.tail ≤ budgets.sum →
        ∃ s', s.txPolls budgets = some s' ∧ s'.ci = s.tail ∧ s'.tail = s.tail ∧ s'.owned = []

variable {s s' : Tx} {C A : ℕ}

/-! ## The marks -/

/-- The owned descriptors are the slots of the positions from `C` to `A`. -/
theorem between_of_owns (h : Owns s C A) :
    Ring.between s.n s.ci s.ownedEnd = Ring.slots s.n C A := by
  rw [ownedEnd_of_owns h, h.1.ci]
  exact Ring.between_slots h.1.le h.1.lt

theorem inside_of_owns (h : Owns s C A) {i : ℕ} (hi : i ∈ Ring.between s.n s.ci s.ownedEnd)
    (hclear : i = s.ci → ¬s.clearing) : (s.ring i).control ≠ 0 := by
  rw [between_of_owns h] at hi
  obtain ⟨p, h1, h2, rfl⟩ := Ring.mem_slots.1 hi
  refine h.1.used p h1 h2 fun hp => hclear ?_
  rw [hp, h.1.ci]

theorem outside_of_marks (h : Owns s C A) {i : ℕ} (hi : i < s.n)
    (hout : i ∉ Ring.between s.n s.ci s.ownedEnd) (hwrite : i ∉ s.beingWritten) :
    (s.ring i).control = 0 := by
  rw [between_of_owns h] at hout
  obtain ⟨hw, hx⟩ := h
  obtain ⟨p, h1, h2, rfl⟩ := Ring.exists_slot C hi
  have hp : A ≤ p := by
    by_contra hlt
    exact hout (Ring.mem_slots.2 ⟨p, h1, by omega, rfl⟩)
  have hprep : ∀ x, Prepared s C A x →
      (p % s.n ∉ (List.range x.ii).map fun j => (x.orig + 1 + j) % s.n) →
        (s.ring (p % s.n)).control = 0 := by
    intro x hprep hnot
    refine hprep.blank p hp h2 ?_
    by_contra hmid
    refine hnot (List.mem_map.2 ⟨p - A - 1, List.mem_range.2 (by omega), ?_⟩)
    rw [hprep.orig, Nat.add_assoc, Ring.slot_add]
    congr 1
    omega
  unfold XmitOk at hx
  unfold Tx.beingWritten at hwrite
  have hblank : Blank s C A 0 → (s.ring (p % s.n)).control = 0 := fun hb => hb p hp h2 (by omega)
  cases hpc : s.xmit with
  | frag x => rw [hpc] at hx hwrite; exact hprep x hx hwrite
  | fragStatus x => rw [hpc] at hx hwrite; exact hprep x hx hwrite
  | publish x => rw [hpc] at hx hwrite; exact hprep x hx.1 hwrite
  | advance x => rw [hpc] at hx; exact hblank hx.blank
  | term x => rw [hpc] at hx; exact hblank hx.blank
  | drop fr => rw [hpc] at hx; exact hx.elim
  | _ => rw [hpc] at hx; exact hblank hx.2

/-! ## Calls of `tsemac_tx_poll` -/

/-- All owned descriptors have been sent. -/
def Done (s : Tx) (C A : ℕ) : Prop := ∀ p, C ≤ p → p < A → (s.desc p).completed = true

/-- Where a call of `tsemac_tx_poll` gets to. -/
def Tx.goal (s : Tx) (C A : ℕ) : ℕ :=
  match s.poll with
  | .free fr => min A (C + (fr.nr - fr.i))
  | _ => C

/-- The accesses of the loop's body that have been made. -/
def FreeAt.made : FreeAt → ℕ
  | .check => 0
  | .control => 1
  | .status => 2
  | .advance => 3

/-- How many accesses are left of it. -/
def Tx.pollLeft (s : Tx) : ℕ :=
  match s.poll with
  | .idle => 0
  | .wake => 1
  | .free fr => 4 * (fr.nr - fr.i) + 2 - fr.at_.made

theorem goal_free {fr : Free} (hp : s.poll = .free fr) :
    s.goal C A = min A (C + (fr.nr - fr.i)) := by
  unfold Tx.goal
  rw [hp]

theorem pollLeft_free {fr : Free} (hp : s.poll = .free fr) :
    s.pollLeft = 4 * (fr.nr - fr.i) + 2 - fr.at_.made := by
  unfold Tx.pollLeft
  rw [hp]

/-- The loop's body runs for a descriptor of the budget only. -/
def Tx.Within (s : Tx) : Prop := ∀ fr, s.poll = .free fr → fr.at_ ≠ .check → fr.i < fr.nr

/-- A call of `tsemac_tx_poll` in a ring all of which has been sent. -/
structure Polling (s : Tx) (C A : ℕ) : Prop where
  owns : Owns s C A
  done : Done s C A
  within : s.Within

/-- What a call keeps. -/
structure Kin (s s' : Tx) : Prop where
  n : s'.n = s.n
  tail : s'.tail = s.tail
  xmit : s'.xmit = s.xmit

theorem Kin.trans {t u : Tx} (h : Kin s t) (h' : Kin t u) : Kin s u :=
  ⟨h'.n.trans h.n, h'.tail.trans h.tail, h'.xmit.trans h.xmit⟩

/-- The writes of the loop leave sent descriptors sent. -/
theorem done_modDesc {f : Desc → Desc} (hf : ∀ d, d.completed = true → (f d).completed = true)
    {i : ℕ} (h : Done s C A) : Done (s.modDesc i f) C A := by
  intro p h1 h2
  have hp := h p h1 h2
  unfold Tx.desc at hp ⊢
  unfold Tx.modDesc
  simp only
  split
  · exact hf _ hp
  · exact hp

/-- Where the loop stops, its budget is used up or nothing is left. -/
theorem goal_of_stop {fr : Free} (hw : Window s C A) (hdone : Done s C A) (hclear : ¬s.clearing)
    (hstop : ¬(fr.i < fr.nr ∧ (s.ring (C % s.n)).done = true)) : C = min A (C + (fr.nr - fr.i)) := by
  have hle := hw.le
  have hend : fr.nr ≤ fr.i ∨ C = A := by
    rcases Nat.lt_or_ge C A with hlt | hge
    · refine Or.inl (Nat.le_of_not_lt fun hi => hstop ⟨hi, ?_⟩)
      have hused := hw.used C (Nat.le_refl _) hlt fun _ => hclear
      have hcompleted := hdone C (Nat.le_refl _) hlt
      unfold Desc.done
      exact Bool.and_eq_true_iff.2 ⟨hcompleted, bne_iff_ne.2 hused⟩
    · exact Or.inr (Nat.le_antisymm hle hge)
  omega

/-- **An access of the loop** brings the call nearer to where it gets to. -/
theorem pollStep_polling (h : Polling s C A) (hbusy : s.poll ≠ .idle) :
    ∃ s' C', s.pollStep = some s' ∧ Polling s' C' A ∧ s'.pollLeft < s.pollLeft ∧
      s'.goal C' A = s.goal C A ∧ Kin s s' := by
  obtain ⟨howns, hdone, hwithin⟩ := h
  have hw := howns.1
  cases hp : s.poll with
  | idle => exact absurd hp hbusy
  | wake =>
    have hstep : s.pollStep = some { s with
        stopped := if s.checkTxBdSpace (MAX_SKB_FRAGS + 1) then s.stopped else false
        poll := .idle } := by
      unfold Tx.pollStep
      rw [hp]
    obtain ⟨C', hC', howns'⟩ := pollStep_owns howns hstep
    have hstay : ¬s.reclaimed := not_reclaimed (by rw [hp]; simp)
    obtain ⟨rfl, -⟩ := hC'.resolve_right fun h => hstay h.2
    refine ⟨_, C', hstep, ⟨howns', hdone, fun fr hfr => absurd hfr (by simp)⟩, ?_, ?_, rfl, rfl, rfl⟩
    · unfold Tx.pollLeft
      rw [hp]
      exact Nat.one_pos
    · unfold Tx.goal
      rw [hp]
  | free fr =>
    obtain ⟨hforce, hslot, howned, hzero⟩ := hw.poll fr hp
    have hbody := hwithin fr hp
    have hstay : fr.at_ ≠ .advance → ¬s.reclaimed := not_reclaimed_at hp
    obtain ⟨s', hstep⟩ : ∃ s', s.pollStep = some s' := by
      unfold Tx.pollStep
      rw [hp]
      exact ⟨_, rfl⟩
    obtain ⟨C', hC', howns'⟩ := pollStep_owns howns hstep
    have hdo := hstep
    have hleft := pollLeft_free hp
    rw [goal_free hp]
    unfold Tx.pollStep at hstep
    rw [hp] at hstep
    simp only [Tx.freeStep, hslot] at hstep
    cases hat : fr.at_ with
    | check =>
      obtain ⟨rfl, -⟩ := hC'.resolve_right fun h => hstay (by rw [hat]; simp) h.2
      have hclear : ¬s.clearing := by rw [clearing_free hp, hat]; simp
      rw [hat] at hstep hleft
      simp only at hstep
      split at hstep
      · rename_i hcond
        obtain rfl := Option.some.inj hstep
        refine ⟨_, C', hdo, ⟨howns', hdone, ?_⟩, ?_, rfl, rfl, rfl, rfl⟩
        · intro fr' hfr _
          obtain rfl := PollPc.free.inj hfr
          exact hcond.1
        · rw [hleft]
          simp only [Tx.pollLeft, FreeAt.made, Option.map_some, Option.getD_some]
          omega
      · -- the budget is used up, or nothing is left
        rename_i hcond
        rw [hforce, Bool.false_or] at hcond
        have hgoal := goal_of_stop hw hdone hclear hcond
        have hmore : 1 < s.pollLeft := by
          rw [hleft]
          simp only [FreeAt.made]
          omega
        simp only [Option.map_none, Option.getD_none] at hstep
        split at hstep
        · obtain rfl := Option.some.inj hstep
          exact ⟨_, C', hdo, ⟨howns', hdone, fun fr' hfr => absurd hfr (by simp)⟩, hmore, hgoal,
            rfl, rfl, rfl⟩
        · obtain rfl := Option.some.inj hstep
          exact ⟨_, C', hdo, ⟨howns', hdone, fun fr' hfr => absurd hfr (by simp)⟩,
            Nat.lt_of_succ_lt hmore, hgoal, rfl, rfl, rfl⟩
    | control =>
      obtain ⟨rfl, -⟩ := hC'.resolve_right fun h => hstay (by rw [hat]; simp) h.2
      rw [hat] at hstep hbody hleft
      obtain rfl := Option.some.inj hstep
      refine ⟨_, C', hdo, ⟨howns', ?_, ?_⟩, ?_, rfl, rfl, rfl, rfl⟩
      · exact done_modDesc (s := s) (f := fun d => { d with control := 0, skb := none })
          (fun _ h => h) hdone
      · intro fr' hfr _
        obtain rfl := PollPc.free.inj hfr
        exact hbody (by simp)
      · have := hbody (by simp)
        rw [hleft]
        simp only [Tx.pollLeft, FreeAt.made, Option.map_some, Option.getD_some]
        omega
    | status =>
      obtain ⟨rfl, -⟩ := hC'.resolve_right fun h => hstay (by rw [hat]; simp) h.2
      rw [hat] at hstep hbody hleft
      obtain rfl := Option.some.inj hstep
      refine ⟨_, C', hdo, ⟨howns', ?_, ?_⟩, ?_, rfl, rfl, rfl, rfl⟩
      · exact done_modDesc (s := s) (f := fun d => { d with completed := true })
          (fun _ _ => rfl) hdone
      · intro fr' hfr _
        obtain rfl := PollPc.free.inj hfr
        exact hbody (by simp)
      · have := hbody (by simp)
        rw [hleft]
        simp only [Tx.pollLeft, FreeAt.made, Option.map_some, Option.getD_some]
        omega
    | advance =>
      have hgone : s.reclaimed := ⟨fr, hp, hat⟩
      obtain ⟨rfl, -⟩ := hC'.resolve_left fun h => h.2 hgone
      rw [hat] at hstep hbody hleft
      obtain rfl := Option.some.inj hstep
      have hlt := hbody (by simp)
      refine ⟨_, C + 1, hdo, ⟨howns', fun p h1 h2 => hdone p (by omega) h2, ?_⟩,
        ?_, ?_, rfl, rfl, rfl⟩
      · intro fr' hfr hat'
        obtain rfl := PollPc.free.inj hfr
        exact absurd rfl hat'
      · rw [hleft]
        simp only [Tx.pollLeft, FreeAt.made, Option.map_some, Option.getD_some]
        omega
      · simp only [Tx.goal, Option.map_some, Option.getD_some]
        omega

theorem pollRun_polling {k : ℕ} (h : Polling s C A) (hk : s.pollLeft ≤ k) :
    ∃ s', Tx.pollRun k s = some s' ∧ Polling s' (s.goal C A) A ∧ s'.poll = .idle ∧ Kin s s' := by
  induction k generalizing s C with
  | zero =>
    have hidle : s.poll = .idle := by
      by_contra hbusy
      obtain ⟨s₁, C₁, -, -, hless, -, -⟩ := pollStep_polling h hbusy
      omega
    have hgoal : s.goal C A = C := by unfold Tx.goal; rw [hidle]
    exact ⟨s, by unfold Tx.pollRun; rw [if_pos hidle], by rw [hgoal]; exact h, hidle, rfl, rfl, rfl⟩
  | succ k ih =>
    by_cases hidle : s.poll = .idle
    · have hgoal : s.goal C A = C := by unfold Tx.goal; rw [hidle]
      exact ⟨s, by unfold Tx.pollRun; rw [if_pos hidle], by rw [hgoal]; exact h, hidle, rfl, rfl, rfl⟩
    · obtain ⟨s₁, C₁, hstep, h₁, hless, hgoal, hkin⟩ := pollStep_polling h hidle
      obtain ⟨s', hrun, h', hrest, hkin'⟩ := ih h₁ (by omega)
      refine ⟨s', ?_, ?_, hrest, hkin.trans hkin'⟩
      · unfold Tx.pollRun
        rw [if_neg hidle, hstep]
        exact hrun
      · rw [hgoal] at h'
        exact h'

/-- **A call of `tsemac_tx_poll` frees as many descriptors as its budget allows.** -/
theorem txPoll_polling (budget : ℕ) (h : Polling s C A) (hidle : s.poll = .idle) :
    ∃ s', s.txPoll budget = some s' ∧ Polling s' (min A (C + budget)) A ∧ s'.poll = .idle ∧
      Kin s s' := by
  have hstart : s.startPoll budget =
      some { s with poll := .free ⟨s.ci, budget, false, 0, .check, false⟩ } := by
    unfold Tx.startPoll
    rw [if_pos hidle]
  have hfirst : Polling { s with poll := .free ⟨s.ci, budget, false, 0, .check, false⟩ } C A := by
    refine ⟨startPoll_owns h.owns hstart, h.done, ?_⟩
    intro fr hfr hat
    obtain rfl := PollPc.free.inj hfr
    exact absurd rfl hat
  obtain ⟨s', hrun, h', hrest, hkin⟩ := pollRun_polling (k := 4 * budget + 2) hfirst
    (by simp only [Tx.pollLeft, FreeAt.made]; omega)
  refine ⟨s', ?_, h', hrest, hkin.n, hkin.tail, hkin.xmit⟩
  unfold Tx.txPoll
  rw [hstart]
  exact hrun

theorem txPolls_polling (budgets : List ℕ) (h : Polling s C A) (hidle : s.poll = .idle) :
    ∃ s', s.txPolls budgets = some s' ∧ Polling s' (min A (C + budgets.sum)) A ∧ Kin s s' := by
  induction budgets generalizing s C with
  | nil =>
    have hle := h.owns.1.le
    refine ⟨s, rfl, ?_, rfl, rfl, rfl⟩
    rw [List.sum_nil, Nat.add_zero, Nat.min_eq_right hle]
    exact h
  | cons budget budgets ih =>
    obtain ⟨s₁, hpoll, h₁, hidle₁, hkin⟩ := txPoll_polling budget h hidle
    obtain ⟨s', hpolls, h', hkin'⟩ := ih h₁ hidle₁
    refine ⟨s', ?_, ?_, hkin.trans hkin'⟩
    · unfold Tx.txPolls
      rw [List.foldlM_cons, hpoll]
      exact hpolls
    · rw [show min A (C + (budget :: budgets).sum) = min A (min A (C + budget) + budgets.sum) by
        rw [List.sum_cons]; omega]
      exact h'

/-- Once everything has been sent, calls whose budgets suffice free all of it. -/
theorem frees_of_owns (h : Owns s C A) (hxmit : s.xmit = .idle) (hidle : s.poll = .idle)
    (hsent : ∀ i ∈ Ring.between s.n s.ci s.tail, (s.ring i).completed = true) {budgets : List ℕ}
    (henough : Ring.dist s.n s.ci s.tail ≤ budgets.sum) :
    ∃ s', s.txPolls budgets = some s' ∧ s'.ci = s.tail ∧ s'.tail = s.tail ∧ s'.owned = [] := by
  have hw := h.1
  have htail : s.tail = A % s.n := by
    have hend := ownedEnd_of_owns h
    unfold Tx.ownedEnd at hend
    rw [hxmit] at hend
    exact hend
  rw [hw.ci, htail, Ring.dist_slots hw.le hw.lt] at henough
  have hdone : Done s C A := by
    intro p h1 h2
    refine hsent _ ?_
    rw [hw.ci, htail, Ring.between_slots hw.le hw.lt]
    exact Ring.mem_slots.2 ⟨p, h1, h2, rfl⟩
  have hpolling : Polling s C A := ⟨h, hdone, fun fr hfr => absurd hfr (by rw [hidle]; simp)⟩
  obtain ⟨s', hpolls, h', hkin⟩ := txPolls_polling budgets hpolling hidle
  have hall : min A (C + budgets.sum) = A := by have := hw.le; omega
  rw [hall] at h'
  have hw' := h'.owns.1
  refine ⟨s', hpolls, ?_, hkin.tail, ?_⟩
  · rw [hw'.ci, hkin.n, htail]
  · rw [hw'.owned, Ring.slots_self]

/-- **The control words mark exactly the owned descriptors**, and what has been sent can be
reclaimed, in every run whose packets fit. -/
theorem reclaimable_of_roomy {s : Tx} (h : txMachine.Reach Roomy s) : Reclaimable s := by
  obtain ⟨C, A, hs⟩ := owns_of_roomy h
  exact ⟨fun i hi => inside_of_owns hs hi, fun i hi => outside_of_marks hs hi,
    fun hxmit hidle hsent budgets => frees_of_owns hs hxmit hidle hsent⟩

theorem reclaimable_of_roomy_two :
    ∃ s, txMachine.exec (txInit 18) (twoPieces ++ List.replicate 6 .dma) = some s ∧
      s.owned = [0, 1] ∧ Reclaimable s := by
  have hrun : ((txMachine.exec (txInit 18) (twoPieces ++ List.replicate 6 TxAct.dma)).map Tx.owned) =
      some [0, 1] := by decide +kernel
  obtain ⟨s, he, hs⟩ := Option.map_eq_some_iff.1 hrun
  have hinit : txMachine.init (txInit 18) := ⟨18, (acceptedTx_iff 18).2 (by decide), rfl⟩
  have halong : txMachine.Along Roomy (txInit 18) (twoPieces ++ List.replicate 6 TxAct.dma) := by
    decide +kernel
  exact ⟨s, he, hs, reclaimable_of_roomy (.of_exec hinit halong he)⟩

/-- A packet whose first fragment is a single byte. -/
def oneByteFragment : List TxAct := .xmit ⟨1, 60, [1, 100]⟩ :: List.replicate 12 (.xmitStep true)

/-- **A fragment of one byte is not marked**, and is taken for a free descriptor. -/
theorem one_byte_stalls :
    ∃ s, txMachine.exec (txInit 18) oneByteFragment = some s ∧ txMachine.Reach (fun _ _ => True) s ∧
      ¬Reclaimable s := by
  have hrun : ((txMachine.exec (txInit 18) oneByteFragment).map fun s =>
      (s.xmit, s.poll, s.ci, Ring.between s.n s.ci s.ownedEnd, (s.ring 1).control)) =
        some (.idle, .idle, 0, [0, 1, 2], 0) := by decide +kernel
  obtain ⟨s, he, hs⟩ := Option.map_eq_some_iff.1 hrun
  obtain ⟨-, hrest⟩ := Prod.mk.inj hs
  obtain ⟨hidle, hrest⟩ := Prod.mk.inj hrest
  obtain ⟨hci, hrest⟩ := Prod.mk.inj hrest
  obtain ⟨hbetween, hcontrol⟩ := Prod.mk.inj hrest
  have hinit : txMachine.init (txInit 18) := ⟨18, (acceptedTx_iff 18).2 (by decide), rfl⟩
  refine ⟨s, he, .of_exec hinit (Machine.along_true _ _) he, ?_⟩
  intro hrec
  refine hrec.inside 1 ?_ ?_ hcontrol
  · rw [hbetween]
    decide
  · intro h
    rw [hci] at h
    exact absurd h (by decide)

end Br2Efinix.Tsemac
