import Br2Efinix.Emmc.Phase

/-!
# The order of a request's commands

`efx_emmc_finish_command` chooses what follows a completed command by its opcode:
after opcode 23 it sends the main command, whichever command of the request
completed. That is right for an `sbc`, which is a CMD23, and for no other.

* `irqLocked_phase`: one interrupt moves a request through its phases.
* `sequencing_iff`: over all runs of interrupts, the commands go out at most once,
  in order and in their turn, and four answers end the request, exactly when no
  other command that completes has opcode 23.
* `lone_cmd23_never_ends`: a request that is a single CMD23 is sent again and again.
-/

namespace Br2Efinix.Emmc

variable {r₀ : Req} {base : List Mark} {E : Ghost} {c : Ctl}

/-! ## One interrupt -/

theorem data_phase_out (h : InPhase r₀ base E c .data) : c.curData.isSome = true := by
  cases h with
  | data _ req _ _ data has _ _ =>
    unfold Ctl.curData
    rw [data, req]
    exact has

/-- In the data phase, what completes the data completes the evidence. -/
theorem data_evidence (h : InPhase r₀ base E c .data) (hc : E.clean)
    (hdma : c.dma = true → E.xferSeen) (hpio : c.dma = false → c.bytes = 0) :
    Evidence E r₀ c.log := by
  cases h with
  | data _ _ _ _ _ has dbooks seen =>
    refine ⟨seen hc, ?_⟩
    intro d hd
    have hsent := dbooks.dma_sent has
    cases hdm : c.dma with
    | true =>
      rw [if_pos (hsent.2 hdm)]
      exact hdma hdm
    | false =>
      rw [if_neg (by rw [hsent, hdm]; simp)]
      have := dbooks.words d hd hdm
      rw [hpio hdm] at this
      exact this

/-- Phases in which a command is out. -/
theorem cmd_none_phase {p : Phase} (h : InPhase r₀ base E c p) (hcur : c.curData.isSome = true)
    (hcmd : c.cmd = none) : p = .data := by
  rcases (data_out h hcur).1 with rfl | rfl
  · cases h with
    | cmd _ _ _ cmd _ _ => rw [cmd] at hcmd; exact absurd hcmd (by simp)
  · rfl

/-- An interrupt that answers what the host waits for. -/
def Answers (cmd : Option Slot) (st : IntStatus) : Prop :=
  st.error = true ∨ (cmd.isSome = true ∧ st.cmdComplete = true) ∨
    (cmd = none ∧ st.xferComplete = true)

instance (cmd : Option Slot) (st : IntStatus) : Decidable (Answers cmd st) := instDecidableOr

/-- What a clean interrupt is, stage by stage: a completion counts for the
command that waits for it, the data end only after their command and with all of
their bytes, and an error concerns the request. -/
structure CleanStages (r₀ : Req) (E : Ghost) (c : Ctl) (st : IntStatus) (env : StageEnv) : Prop where
  unmoved : Unmoved r₀
  error : st.error = true → c.data = false → (c.cmd = some .sbc ∨ c.cmd = some .cmd) →
    (∀ d, r₀.data = some d → d.size = 0) → st.cmdError = true
  sbc : st.error = false → st.cmdComplete = true → c.cmd = some .sbc →
    (r₀.get .sbc).opcode ≠ 23 → ∃ d, r₀.data = some d ∧ d.size ≠ 0
  cmd : st.error = false → st.cmdComplete = true → c.cmd = some .cmd → E.cmdSeen
  pio : st.error = false → ∀ c', c' = (c.irqCommand st env).irqPio st env → c'.curData.isSome = true →
    c'.dma = false → (st.bufferReadRdy || st.bufferWriteRdy) = true → c'.bytes = 0 → c'.cmd = none
  xfer : st.error = false → st.xferComplete = true →
    ∀ c', c' = ((c.irqCommand st env).irqPio st env).irqPioEnd st env → c'.curData.isSome = true →
      c'.cmd = none ∧ (c'.dma = true → E.xferSeen) ∧ (c'.dma = false → c'.bytes = 0)

/-- The command's stage. -/
theorem irqCommand_phase (hfresh : Fresh r₀) {p : Phase} (h : InPhase r₀ base E c p) {st : IntStatus}
    (h23 : st.cmdComplete = true → ∀ slot, c.cmd = some slot → slot ≠ .sbc → (r₀.get slot).opcode ≠ 23)
    (hsbc : E.clean → st.cmdComplete = true → c.cmd = some .sbc → (r₀.get .sbc).opcode ≠ 23 →
      ¬Succeeded r₀)
    (hseen : E.clean → st.cmdComplete = true → c.cmd = some .cmd → E.cmdSeen) (env : StageEnv) :
    ∃ p', InPhase r₀ base E (c.irqCommand st env) p' ∧ p'.rank ≤ p.rank ∧
      (c.cmd.isSome = true → st.cmdComplete = true → p'.rank < p.rank) := by
  unfold Ctl.irqCommand
  by_cases hcc : st.cmdComplete = true
  · rw [if_pos hcc]
    obtain ⟨p', hp', hle, hlt⟩ := finishCommand_phase hfresh h (h23 hcc) (fun hc => hsbc hc hcc)
      (fun hc => hseen hc hcc) env
    exact ⟨p', hp', hle, fun hs _ => hlt hs⟩
  · rw [if_neg hcc]
    exact ⟨p, h, Nat.le_refl _, fun _ h => absurd h hcc⟩

/-- The transfer's stage. -/
theorem irqPio_phase {p : Phase} (h : InPhase r₀ base E c p) (st : IntStatus) (env : StageEnv) :
    InPhase r₀ base E (c.irqPio st env) p := by
  unfold Ctl.irqPio
  split
  · exact pio_phase h env.words
  · exact h

/-- An `sbc` of another opcode ends the request, but not with its data. -/
theorem CleanStages.sbc_fails {st : IntStatus} {env : StageEnv} (h : CleanStages r₀ E c st env)
    (herr : st.error = false) (hcc : st.cmdComplete = true) (hc : c.cmd = some .sbc)
    (hop : (r₀.get .sbc).opcode ≠ 23) : ¬Succeeded r₀ := by
  intro hs
  obtain ⟨d, hd, hne⟩ := h.sbc herr hcc hc hop
  have hall := (hs.2.2 d hd).2
  rw [h.unmoved d hd] at hall
  exact hne hall.symm

/-- **One interrupt**: the request stays in its phase or moves on, and moves on when
the interrupt answers it. -/
theorem irqLocked_phase (hfresh : Fresh r₀) {p : Phase} (h : InPhase r₀ base E c p) (st : IntStatus)
    (env : StageEnv)
    (h23 : st.error = false → st.cmdComplete = true → ∀ slot, c.cmd = some slot → slot ≠ .sbc →
      (r₀.get slot).opcode ≠ 23)
    (hclean : E.clean → CleanStages r₀ E c st env) :
    ∃ p', InPhase r₀ base E (c.irqLocked st env) p' ∧ p'.rank ≤ p.rank ∧
      (Answers c.cmd st → p ≠ .finished → p'.rank < p.rank) := by
  unfold Ctl.irqLocked
  by_cases hany : st.any = true
  swap
  · -- nothing is pending
    rw [if_pos (by simpa using hany)]
    refine ⟨p, h, Nat.le_refl _, fun ha => absurd ?_ hany⟩
    unfold IntStatus.any
    rcases ha with ha | ⟨-, ha⟩ | ⟨-, ha⟩ <;> simp [ha]
  rw [if_neg (by simpa using hany)]
  by_cases herr : st.error = true
  · rw [if_pos herr]
    refine ⟨.finished, irqError_phase herr h (fun hc => (hclean hc).unmoved)
      (fun hc => (hclean hc).error herr), Nat.zero_le _, ?_⟩
    intro _ hp
    cases p <;> first | exact absurd rfl hp | decide
  rw [if_neg herr]
  rw [Bool.not_eq_true] at herr
  obtain ⟨p₁, h₁, hle₁, hlt₁⟩ := irqCommand_phase hfresh h (h23 herr)
    (fun hc hcc => (hclean hc).sbc_fails herr hcc) (fun hc hcc => (hclean hc).cmd herr hcc) env
  have h₂ := irqPio_phase h₁ st env
  have hpio := fun hc => (hclean hc).pio herr _ rfl
  have hxfer := fun hc hx => (hclean hc).xfer herr hx _ rfl
  generalize (c.irqCommand st env).irqPio st env = c₂ at h₂ hpio hxfer
  -- its end
  obtain ⟨p₃, h₃, hle₃⟩ : ∃ p', InPhase r₀ base E (c₂.irqPioEnd st env) p' ∧ p'.rank ≤ p₁.rank := by
    unfold Ctl.irqPioEnd
    split
    · rename_i hcond
      simp only [Bool.and_eq_true, Bool.not_eq_true', beq_iff_eq] at hcond
      obtain ⟨⟨⟨hdma, hbits⟩, -⟩, hbytes⟩ := hcond
      cases hcur : c₂.curData with
      | none => exact ⟨p₁, finishData_idle h₂ hcur _, Nat.le_refl _⟩
      | some d =>
        have hsome : c₂.curData.isSome = true := by rw [hcur]; rfl
        have hev : E.clean → Evidence E r₀ c₂.log := by
          intro hc
          have hcmd := hpio hc hsome hdma hbits hbytes
          obtain rfl := cmd_none_phase h₂ hsome hcmd
          exact data_evidence h₂ hc (fun h => by rw [hdma] at h; exact absurd h (by simp))
            fun _ => hbytes
        have hrank : 1 ≤ p₁.rank := by
          rcases (data_out h₂ hsome).1 with rfl | rfl <;> decide
        rcases finishData_phase hfresh h₂ hsome hev env.stopTimedOut with h | h
        · exact ⟨.stop, h, hrank⟩
        · exact ⟨.finished, h, Nat.zero_le _⟩
    · exact ⟨p₁, h₂, Nat.le_refl _⟩
  generalize c₂.irqPioEnd st env = c₃ at h₃ hxfer
  -- the end of the transfer
  unfold Ctl.irqXfer
  by_cases hx : st.xferComplete = true
  swap
  · rw [if_neg hx]
    refine ⟨p₃, h₃, by omega, ?_⟩
    intro ha _
    rcases ha with ha | ⟨hs, ha⟩ | ⟨-, ha⟩
    · rw [herr] at ha; exact absurd ha (by simp)
    · have := hlt₁ hs ha; omega
    · exact absurd ha hx
  rw [if_pos hx]
  cases hcur : c₃.curData with
  | none =>
    refine ⟨p₃, finishData_idle h₃ hcur _, by omega, ?_⟩
    intro ha hp
    rcases ha with ha | ⟨hs, ha⟩ | ⟨hn, -⟩
    · rw [herr] at ha; exact absurd ha (by simp)
    · have := hlt₁ hs ha; omega
    · -- the data phase has ended in this interrupt
      have hne : p₃ ≠ .data := by
        rintro rfl
        have hout := data_phase_out h₃
        rw [hcur] at hout
        exact absurd hout (by simp)
      have hp' : p = .data := by
        cases h with
        | sbc _ _ _ cmd => rw [cmd] at hn; exact absurd hn (by simp)
        | cmd _ _ _ cmd => rw [cmd] at hn; exact absurd hn (by simp)
        | data => rfl
        | stop _ _ _ cmd => rw [cmd] at hn; exact absurd hn (by simp)
        | finished => exact absurd rfl hp
      subst hp'
      have : p₃.rank ≤ Phase.data.rank := by omega
      cases p₃ <;> simp [Phase.rank] at this hne ⊢
  | some d =>
    have hsome : c₃.curData.isSome = true := by rw [hcur]; rfl
    have hev : E.clean → Evidence E r₀ c₃.log := by
      intro hc
      obtain ⟨hcmd, hd, hb⟩ := hxfer hc hx hsome
      obtain rfl := cmd_none_phase h₃ hsome hcmd
      exact data_evidence h₃ hc hd hb
    have hrank : 2 ≤ p₃.rank := by
      rcases (data_out h₃ hsome).1 with rfl | rfl <;> decide
    have hstop : Phase.stop.rank = 1 := rfl
    have hfin : Phase.finished.rank = 0 := rfl
    rcases finishData_phase hfresh h₃ hsome hev env.xferTimedOut with h | h
    · exact ⟨.stop, h, by omega, fun _ _ => by omega⟩
    · exact ⟨.finished, h, Nat.zero_le _, fun _ _ => by omega⟩

/-! ## Runs -/

/-- An interrupt, up to the end of the handler. -/
def Ctl.irq (c : Ctl) (st : IntStatus) (env : StageEnv) : Ctl := (c.irqLocked st env).completePending

theorem irq_ctl (h : Host) (st : IntStatus) (env : IrqEnv) :
    ∃ env', (env.Ready → env'.Ready) ∧ (h.irq st env).ctl = h.ctl.irq st env' := by
  obtain ⟨env', hready, he⟩ := h.irqLocked_ctl st env
  refine ⟨env', hready, ?_⟩
  unfold Host.irq Ctl.irq
  rw [Host.completePendingRequest_ctl, he]

theorem completePending_none (hd : c.done = none) : c.completePending = c := by
  unfold Ctl.completePending; rw [hd]

/-- Without a request an interrupt finds nothing to do. -/
theorem irqLocked_idle (hr : c.req = none) (st : IntStatus) (env : StageEnv) :
    c.irqLocked st env = c := by
  have herr : c.irqError st = c := by unfold Ctl.irqError; rw [hr]
  unfold Ctl.irqLocked
  rw [herr, Ctl.irqCommand_idle hr, Ctl.irqPio_idle hr, Ctl.irqPioEnd_idle hr, Ctl.irqXfer_idle hr]
  split
  · rfl
  · split <;> rfl

/-- The handler's interrupts one after another. -/
def Host.serve (h : Host) (irqs : List (IntStatus × IrqEnv)) : Host :=
  irqs.foldl (fun h i => h.irq i.1 i.2) h

/-- Without a request, a run of interrupts changes nothing. -/
theorem serve_idle (irqs : List (IntStatus × IrqEnv)) {h : Host} (hr : h.ctl.req = none)
    (hd : h.ctl.done = none) : (h.serve irqs).ctl = h.ctl := by
  induction irqs generalizing h with
  | nil => rfl
  | cons i irqs ih =>
    obtain ⟨env', -, he⟩ := irq_ctl h i.1 i.2
    rw [Ctl.irq, irqLocked_idle hr, completePending_none hd] at he
    have hrest := ih (h := h.irq i.1 i.2) (by rw [he]; exact hr) (by rw [he]; exact hd)
    exact hrest.trans he

/-- How many of the interrupts answer what the host waits for when they come. -/
def Host.answered (h : Host) : List (IntStatus × IrqEnv) → ℕ
  | [] => 0
  | (st, env) :: irqs => (if Answers h.cmd st then 1 else 0) + (h.irq st env).answered irqs

/-- The request is served, with at most `n` answers to go, or it is done. -/
def Serving (r₀ : Req) (base : List Mark) (c : Ctl) (n : ℕ) : Prop :=
  Sequenced r₀ c.log ∧ ((c.req = none ∧ c.done = none) ∨
    ∃ p, InPhase r₀ base ⟨False, False, False⟩ c p ∧ p ≠ .finished ∧ p.rank ≤ n)

theorem phase_books {p : Phase} (h : InPhase r₀ base E c p) : Books r₀ base c.log := by
  cases h <;> assumption

/-- The handler's last call ends a finished request and leaves another alone. -/
theorem completePending_serving {p : Phase} (h : InPhase r₀ base ⟨False, False, False⟩ c p) {n : ℕ}
    (hn : p.rank ≤ n) : Serving r₀ base c.completePending n := by
  have hseq := (phase_books h).seq
  by_cases hp : p = .finished
  · subst hp
    cases h with
    | finished _ req _ _ _ r done _ _ _ =>
      unfold Ctl.completePending
      rw [done]
      exact ⟨sequenced_cons (by simp) hseq, Or.inl ⟨req, rfl⟩⟩
  · have hdone : c.done = none := by
      cases h <;> first | assumption | exact absurd rfl hp
    rw [completePending_none hdone]
    exact ⟨hseq, Or.inr ⟨p, h, hp, hn⟩⟩

/-! ## Opcodes and positions -/

/-- Opcode 23 stands only where another command follows: an `sbc` of another opcode
ends the request, and otherwise neither the main command nor the stop command that
follows it is a CMD23. -/
def OpcodesOk (r : Req) : Prop :=
  (∃ k, r.sbc = some k ∧ k.opcode ≠ 23) ∨
    (r.cmd.opcode ≠ 23 ∧ (r.needStop = true → (r.get .stop).opcode ≠ 23))

theorem opcodes_phase (hok : OpcodesOk r₀) {p : Phase} (h : InPhase r₀ base E c p) {slot : Slot}
    (hc : c.cmd = some slot) (hs : slot ≠ .sbc) : (r₀.get slot).opcode ≠ 23 := by
  cases h with
  | sbc _ _ _ cmd => rw [cmd] at hc; exact absurd (Option.some.inj hc).symm hs
  | cmd _ _ _ cmd _ dbooks =>
    obtain rfl := Option.some.inj (cmd.symm.trans hc)
    rcases hok with ⟨k, hk, hne⟩ | ⟨h1, -⟩
    · have := dbooks.opcode (by rw [hk]; rfl)
      rw [Req.get, hk] at this
      exact absurd this hne
    · exact h1
  | data _ _ _ cmd => rw [cmd] at hc; exact absurd hc (by simp)
  | stop _ _ _ cmd _ need =>
    obtain rfl := Option.some.inj (cmd.symm.trans hc)
    rcases hok with ⟨k, hk, -⟩ | ⟨-, h2⟩
    · simp [Req.needStop, hk] at need
    · exact h2 need
  | finished _ _ cmd => rw [cmd] at hc; exact absurd hc (by simp)

/-- One interrupt of a request that is served. -/
theorem irq_serving (hfresh : Fresh r₀) (hok : OpcodesOk r₀) {n : ℕ} (h : Serving r₀ base c n)
    (st : IntStatus) (env : StageEnv) :
    Serving r₀ base (c.irq st env) (n - if Answers c.cmd st then 1 else 0) := by
  obtain ⟨hseq, ⟨hr, hd⟩ | ⟨p, hp, hne, hn⟩⟩ := h
  · unfold Ctl.irq
    rw [irqLocked_idle hr, completePending_none hd]
    exact ⟨hseq, Or.inl ⟨hr, hd⟩⟩
  · obtain ⟨p', hp', hle, hlt⟩ := irqLocked_phase hfresh hp st env
      (fun _ _ slot hc hs => opcodes_phase hok hp hc hs) (fun h => absurd h id)
    refine completePending_serving hp' ?_
    split
    · rename_i ha
      have := hlt ha hne
      omega
    · omega

theorem serve_serving (hfresh : Fresh r₀) (hok : OpcodesOk r₀) :
    ∀ (irqs : List (IntStatus × IrqEnv)) (h : Host) (n : ℕ), Serving r₀ base h.ctl n →
      Serving r₀ base (h.serve irqs).ctl (n - h.answered irqs) := by
  intro irqs
  induction irqs with
  | nil => intro h n hs; exact hs
  | cons i irqs ih =>
    intro h n hs
    obtain ⟨env', -, he⟩ := irq_ctl h i.1 i.2
    have hone := irq_serving hfresh hok hs i.1 env'
    rw [← he] at hone
    have := ih _ _ hone
    rw [Nat.sub_sub] at this
    exact this

/-! ## The order of the sends -/

/-- Commands sent in their turn are sent at most once, in the order of the slots. -/
theorem sequenced_order {r : Req} {log : List Mark} (h : Sequenced r log) :
    ((sends r.id log).reverse).Sublist [.sbc, .cmd, .stop] := by
  induction log with
  | nil => exact List.nil_sublist _
  | cons k log ih =>
    obtain ⟨hk, hrest⟩ := h
    have hsub := ih hrest
    by_cases hid : ∃ slot dma, k = .send r.id slot dma
    · obtain ⟨slot, dma, rfl⟩ := hid
      have ha := hk slot dma rfl
      have hs : sends r.id (.send r.id slot dma :: log) = slot :: sends r.id log := by simp [sends]
      rw [hs, List.reverse_cons]
      -- what was sent before this command lies before its slot
      have hbefore : ∀ p : Slot → Bool, (∀ x ∈ sends r.id log, p x = true) →
          ((sends r.id log).reverse).Sublist ([Slot.sbc, .cmd, .stop].filter p) := by
        intro p hp
        have hself := List.filter_eq_self.2 fun x hx => hp x (List.mem_reverse.1 hx)
        rw [← hself]
        exact hsub.filter p
      cases slot with
      | sbc => rw [ha.2]; decide
      | cmd =>
        have hl := hbefore (fun x => decide (x = .sbc)) fun x hx => by
          cases x <;> first | rfl | exact absurd hx ha.1 | exact absurd hx ha.2.1
        exact (hl.append (List.Sublist.refl [Slot.cmd])).trans (by decide)
      | stop =>
        have hl := hbefore (fun x => decide (x ≠ .stop)) fun x hx => by
          cases x <;> first | rfl | exact absurd hx ha.2.1
        exact hl.append (List.Sublist.refl [Slot.stop])
    · have hs : sends r.id (k :: log) = sends r.id log := by
        refine List.filterMap_cons_none ?_
        cases k with
        | send i slot dma =>
          exact if_neg fun (hi : i = r.id) => hid ⟨slot, dma, by rw [hi]⟩
        | _ => rfl
      rw [hs]
      exact hsub

/-! ## A command that is sent again -/

/-- With the lines free a command of the request goes out. -/
theorem send_ready {r : Req} (hr : c.req = some r) (slot : Slot) (prep : Prep) :
    (c.send slot false prep).req = some r ∧ (c.send slot false prep).cmd = some slot ∧
      (c.send slot false prep).done = c.done ∧
      (slot = .cmd → r.data.isSome = true → (c.send slot false prep).data = true) ∧
      ∃ dma log, (c.send slot false prep).log = .send r.id slot dma :: (log ++ c.log) := by
  cases hd : (if slot = .cmd then r.data else none) with
  | none =>
    have hnone : slot = .cmd → r.data = none := by
      intro hs
      rwa [if_pos hs] at hd
    rw [send_plain c hr prep hnone]
    refine ⟨hr, rfl, rfl, ?_, false, [], rfl⟩
    intro hs h
    rw [hnone hs] at h
    exact absurd h (by simp)
  | some d =>
    obtain ⟨rfl, hdata⟩ : slot = .cmd ∧ r.data = some d := by
      split at hd
      · exact ⟨by assumption, hd⟩
      · exact absurd hd (by simp)
    rw [send_data c hr hdata]
    exact ⟨hr, rfl, rfl, fun _ _ => rfl, _, _, rfl⟩

/-- **After opcode 23 the main command follows**, whichever command completed. -/
theorem finishCommand_23 {r : Req} (hr : c.req = some r) {slot : Slot} (hc : c.cmd = some slot)
    (hop : (r.get slot).opcode = 23) (hdone : c.done = none) {env : StageEnv} (hready : env.Ready)
    {st : IntStatus} (hst : st = { cmdComplete := true }) :
    (c.irq st env).req = some r ∧ (c.irq st env).cmd = some .cmd ∧ (c.irq st env).done = none ∧
      .cmd ∈ sends r.id (c.irq st env).log ∧
      (.cmd ∈ sends r.id c.log → ∀ q : Req, q.id = r.id → ¬Sequenced q (c.irq st env).log) := by
  have hirq : c.irqLocked st env = c.finishCommand env := by
    subst hst
    simp [Ctl.irqLocked, IntStatus.any, IntStatus.error, Ctl.irqCommand, Ctl.irqPio, Ctl.irqPioEnd,
      Ctl.irqXfer]
  rw [Ctl.irq, hirq, Ctl.finishCommand_some hr hc]
  simp only
  rw [if_pos hop, hready.1]
  obtain ⟨h1, h2, h3, -, dma, log, hlog⟩ := send_ready (c := { c with
    cmd := some .cmd, log := .cmdDone r.id slot (r.get slot).error :: c.log }) hr .cmd env.prep
  rw [completePending_none (h3.trans hdone)]
  refine ⟨h1, h2, h3.trans hdone, by rw [hlog]; simp [sends], fun hmem q hq hseq => ?_⟩
  rw [hlog] at hseq
  have ha := hseq.1 .cmd dma (by rw [hq])
  refine ha.1 ?_
  rw [hq]
  unfold sends at hmem ⊢
  rw [List.filterMap_append]
  exact List.mem_append_right _ hmem

/-- A transfer changes only the byte count, and adds to the log. -/
theorem pio_frame (c : Ctl) (words : Option ℕ) :
    (c.pio words).req = c.req ∧ (c.pio words).data = c.data ∧ (c.pio words).done = c.done ∧
      c.log <:+ (c.pio words).log := by
  cases words with
  | none => exact ⟨rfl, rfl, rfl, List.suffix_refl _⟩
  | some w =>
    unfold Ctl.pio
    simp only
    split
    · exact ⟨rfl, rfl, rfl, List.suffix_refl _⟩
    · exact ⟨rfl, rfl, rfl, List.suffix_cons _ _⟩

/-- When the data have ended, no data are out. -/
theorem curData_finishData (c : Ctl) (timedOut : Bool) : (c.finishData timedOut).curData = none := by
  cases hcur : c.curData with
  | none => rw [Ctl.finishData_none hcur, hcur]
  | some d =>
    cases hr : c.req with
    | none =>
      unfold Ctl.curData at hcur
      rw [hr] at hcur
      split at hcur <;> exact absurd hcur (by simp)
    | some r =>
      rw [Ctl.finishData_some hr hcur]
      simp only
      split
      · cases timedOut with
        | true => rw [send_timedOut _ rfl, Ctl.finish_some rfl]; rfl
        | false =>
          rw [send_plain _ rfl .ok fun h => absurd h (by decide)]
          rfl
      · rw [Ctl.finish_some rfl]; rfl

/-- The main command completes, and its data are still out. -/
theorem finishCommand_data {r : Req} (hr : c.req = some r) (hc : c.cmd = some .cmd)
    (hop : r.cmd.opcode ≠ 23) (hdone : c.done = none) (hdata : c.data = true)
    (hsome : r.data.isSome = true) (hmem : .cmd ∈ sends r.id c.log) (env : StageEnv) {st : IntStatus}
    (hst : st = { cmdComplete := true }) :
    (c.irq st env).req = some r ∧ (c.irq st env).data = true ∧ (c.irq st env).done = none ∧
      .cmd ∈ sends r.id (c.irq st env).log := by
  have hirq : c.irqLocked st env = c.finishCommand env := by
    subst hst
    simp [Ctl.irqLocked, IntStatus.any, IntStatus.error, Ctl.irqCommand, Ctl.irqPio, Ctl.irqPioEnd,
      Ctl.irqXfer]
  have hcur : c.curData.isNone = false := by
    unfold Ctl.curData
    rw [hdata, hr]
    cases hd : r.data with
    | none => rw [hd] at hsome; exact absurd hsome (by simp)
    | some d => simp [hd]
  have hlog : ∀ log, c.log <:+ log → .cmd ∈ sends r.id log := by
    rintro log ⟨pre, rfl⟩
    unfold sends at hmem ⊢
    rw [List.filterMap_append]
    exact List.mem_append_right _ hmem
  have hstep : (c.finishCommand env).req = some r ∧ (c.finishCommand env).data = true ∧
      (c.finishCommand env).done = none ∧ .cmd ∈ sends r.id (c.finishCommand env).log := by
    rw [Ctl.finishCommand_some hr hc]
    simp only
    rw [if_neg (show (r.get .cmd).opcode ≠ 23 from hop), if_neg (by rw [hcur]; simp)]
    split
    · exact ⟨hr, hdata, hdone, hlog _ (List.suffix_cons _ _)⟩
    · obtain ⟨h1, h2, h3, h4⟩ := pio_frame { c with
        cmd := none, log := .cmdDone r.id .cmd (r.get .cmd).error :: c.log } env.early
      exact ⟨h1.trans hr, h2.trans hdata, h3.trans hdone, hlog _ ((List.suffix_cons _ _).trans h4)⟩
  rw [Ctl.irq, hirq, completePending_none hstep.2.2.1]
  exact hstep

/-- The data end, and the stop command follows. -/
theorem finishData_stop {r : Req} (hfresh : Fresh r) (hr : c.req = some r) (hdone : c.done = none)
    (hdata : c.data = true) (hneed : r.needStop = true) (hmem : .cmd ∈ sends r.id c.log)
    {env : StageEnv} (hready : env.Ready) {st : IntStatus} (hst : st = { xferComplete := true }) :
    (c.irq st env).req = some r.transferred ∧ (c.irq st env).cmd = some .stop ∧
      (c.irq st env).done = none ∧ .cmd ∈ sends r.id (c.irq st env).log := by
  have hirq : c.irqLocked st env = c.finishData env.xferTimedOut := by
    subst hst
    simp [Ctl.irqLocked, IntStatus.any, IntStatus.error, Ctl.irqCommand, Ctl.irqPio, Ctl.irqPioEnd,
      Ctl.irqXfer]
  obtain ⟨d, hd⟩ : ∃ d, r.data = some d := by
    cases hd : r.data with
    | none => simp [Req.needStop, hd] at hneed
    | some d => exact ⟨d, rfl⟩
  have hcur : c.curData = some d := Ctl.curData_some hr hdata hd
  have herr : d.error = 0 := hfresh.data d hd
  have htr : (r.modifyData fun d => { d with xfered := if d.error = 0 then d.size else 0 }) =
      r.transferred := by simp [Req.transferred, Req.modifyData, hd, herr]
  rw [Ctl.irq, hirq, Ctl.finishData_some hr hcur, htr, hready.2.2]
  simp only
  rw [if_pos ⟨hneed, herr⟩]
  set c' : Ctl := { c with
    req := some r.transferred, cmd := some .stop, data := false, bytes := 0
    log := .dataDone r.id d.error :: ((if c.dma then [.unmapSg r.id] else []) ++ c.log) } with hc'
  obtain ⟨h1, h2, h3, -, dma, log, hlog⟩ := send_ready (c := c') rfl .stop .ok
  rw [completePending_none (h3.trans hdone)]
  refine ⟨h1, h2, h3.trans hdone, ?_⟩
  rw [hlog, hc']
  unfold sends at hmem ⊢
  refine List.mem_filterMap.2 ?_
  obtain ⟨k, hk, hs⟩ := List.mem_filterMap.1 hmem
  refine ⟨k, ?_, hs⟩
  simp [hk]

/-! ## One command after another, over runs -/

/-- Over every run, the commands of a request taken by the host go out at most once,
in order and in their turn, and four answers end it. -/
def InSequence (h : Host) (m : MmcRequest) : Prop :=
  ∀ (env : SendEnv) (irqs : List (IntStatus × IrqEnv)), let h' := h.request m env
    ((sends m.id (h'.serve irqs).ctl.log).reverse).Sublist [.sbc, .cmd, .stop] ∧
      Sequenced m.view (h'.serve irqs).ctl.log ∧
      (4 ≤ h'.answered irqs → (h'.serve irqs).mrq = none)

/-- A free line at the first look. -/
def readySend : SendEnv := { polls := [{}], late := false, segs := [] }

theorem readySend_ready : readySend.Ready := by intro b; cases b <;> decide

def readyIrq : IrqEnv :=
  { command := { resp := fun _ => 0, present := {}, pio := ⟨{}, fun _ => 0⟩, send := readySend }
    pio := ⟨{}, fun _ => 0⟩
    stop := readySend }

/-- The run in which the resent command is seen. -/
theorem resends {h : Host} {m : MmcRequest} (hidle : Idle m.id h.ctl) (hfresh : Fresh m.view)
    (hclk : h.clk = true) (hbad : ¬OpcodesOk m.view) :
    ∃ irqs, ¬Sequenced m.view ((h.request m readySend).serve irqs).ctl.log := by
  have hready : readyIrq.Ready := ⟨readySend_ready, readySend_ready⟩
  unfold OpcodesOk at hbad
  rw [not_or, not_and_or] at hbad
  obtain ⟨hsbc, hbad⟩ := hbad
  obtain ⟨t, prep, ht, hreq⟩ := h.requestLocked_ctl m readySend
  obtain rfl := ht readySend_ready
  have hstart : (h.request m readySend).ctl =
      (h.ctl.requestLocked m.view false prep).completePending := by
    unfold Host.request
    rw [hclk]
    simp only [Bool.not_true, Bool.false_eq_true, if_false]
    rw [Host.completePendingRequest_ctl, hreq]
  -- after the request its first command is out, and after each interrupt the next
  have hstep : ∀ (k : Host) (st : IntStatus), ∃ env' : StageEnv, env'.Ready ∧
      (k.irq st readyIrq).ctl = k.ctl.irq st env' := by
    intro k st
    obtain ⟨env', hr, he⟩ := irq_ctl k st readyIrq
    exact ⟨env', hr hready, he⟩
  set h0 := h.request m readySend
  obtain ⟨e1, hr1, he1⟩ := hstep h0 { cmdComplete := true }
  set h1 := h0.irq { cmdComplete := true } readyIrq with hh1
  unfold Ctl.requestLocked at hstart
  by_cases has : m.view.sbc.isSome = true
  · -- an `sbc`, which is a CMD23, and a main command that is one too
    simp only [if_pos has] at hstart
    obtain ⟨k, hk⟩ := Option.isSome_iff_exists.1 has
    have hop : (m.view.get .sbc).opcode = 23 := by
      by_contra hne
      exact hsbc ⟨k, hk, by simpa [Req.get, hk] using hne⟩
    have hcmd : (m.view.get .cmd).opcode = 23 := by
      rcases hbad with hc | hs
      · exact not_not.1 hc
      · have hneed : m.view.needStop = false := by simp [Req.needStop, hk]
        exact absurd (fun hn => by rw [hneed] at hn; exact absurd hn (by simp)) hs
    obtain ⟨q1, q2, q3, -, -⟩ := send_ready (c := { h.ctl with
      req := some m.view, cmd := some .sbc }) rfl .sbc prep
    rw [completePending_none (q3.trans hidle.done)] at hstart
    rw [← hstart] at q1 q2 q3
    obtain ⟨p1, p2, p3, p4, -⟩ := finishCommand_23 q1 q2 hop (q3.trans hidle.done) hr1 rfl
    rw [← he1] at p1 p2 p3 p4
    obtain ⟨e2, hr2, he2⟩ := hstep h1 { cmdComplete := true }
    obtain ⟨-, -, -, -, hnot⟩ := finishCommand_23 p1 p2 hcmd p3 hr2 rfl
    rw [← he2] at hnot
    exact ⟨[({ cmdComplete := true }, readyIrq), ({ cmdComplete := true }, readyIrq)],
      hnot p4 m.view rfl⟩
  · simp only [if_neg has] at hstart
    obtain ⟨q1, q2, q3, q4, dma, log, q5⟩ :=
      send_ready (c := { h.ctl with req := some m.view }) rfl .cmd prep
    rw [completePending_none (q3.trans hidle.done)] at hstart
    rw [← hstart] at q1 q2 q3 q4 q5
    have hmem : .cmd ∈ sends m.view.id h0.ctl.log := by rw [q5]; simp [sends]
    by_cases hcmd : m.view.cmd.opcode = 23
    · -- a main command that is a CMD23
      obtain ⟨-, -, -, -, hnot⟩ := finishCommand_23 q1 q2 hcmd (q3.trans hidle.done) hr1 rfl
      rw [← he1] at hnot
      exact ⟨[({ cmdComplete := true }, readyIrq)], hnot hmem m.view rfl⟩
    · -- a stop command that is a CMD23
      rcases hbad with hc | hs
      · exact absurd hcmd hc
      rw [Classical.not_imp, not_not] at hs
      obtain ⟨hneed, hstop⟩ := hs
      have hsome : m.view.data.isSome = true := by
        cases hd : m.view.data with
        | none => simp [Req.needStop, hd] at hneed
        | some d => rfl
      obtain ⟨p1, p2, p3, p4⟩ := finishCommand_data q1 q2 hcmd (q3.trans hidle.done) (q4 rfl hsome)
        hsome hmem e1 rfl
      rw [← he1] at p1 p2 p3 p4
      obtain ⟨e2, hr2, he2⟩ := hstep h1 { xferComplete := true }
      obtain ⟨u1, u2, u3, u4⟩ := finishData_stop hfresh p1 p3 p2 hneed p4 hr2 rfl
      set h2 := h1.irq { xferComplete := true } readyIrq with hh2
      rw [← he2] at u1 u2 u3 u4
      obtain ⟨e3, hr3, he3⟩ := hstep h2 { cmdComplete := true }
      obtain ⟨-, -, -, -, hnot⟩ := finishCommand_23 u1 u2 hstop u3 hr3 rfl
      rw [← he3] at hnot
      exact ⟨[({ cmdComplete := true }, readyIrq), ({ xferComplete := true }, readyIrq),
        ({ cmdComplete := true }, readyIrq)], hnot u4 m.view rfl⟩

/-- **The order of a request's commands.** -/
theorem sequencing_iff (h : Host) (m : MmcRequest) (hidle : Idle m.id h.ctl) (hfresh : Fresh m.view) :
    InSequence h m ↔ h.clk = false ∨ OpcodesOk m.view := by
  constructor
  · intro hseq
    by_contra hbad
    rw [not_or, Bool.not_eq_false] at hbad
    obtain ⟨irqs, hnot⟩ := resends hidle hfresh hbad.1 hbad.2
    exact hnot (hseq readySend irqs).2.1
  · intro hok env irqs
    cases hclk : h.clk with
    | false =>
      -- the request is done at once
      have hctl : (h.request m env).ctl = { h.ctl with
          log := .requestDone { m.view with cmd := ⟨m.cmd.opcode, -ENODEV⟩ } :: h.ctl.log } := by
        unfold Host.request; rw [hclk]; rfl
      have hrun := serve_idle irqs (h := h.request m env) (by rw [hctl]; exact hidle.req)
        (by rw [hctl]; exact hidle.done)
      have hseq : Sequenced m.view ((h.request m env).serve irqs).ctl.log := by
        rw [hrun, hctl]
        exact sequenced_cons (by simp) (fresh_sequenced hidle.fresh)
      refine ⟨sequenced_order hseq, hseq, ?_⟩
      intro _
      have hnone : ((h.request m env).serve irqs).ctl.req = none := by
        rw [hrun, hctl]; exact hidle.req
      exact Option.map_eq_none_iff.1 hnone
    | true =>
      have hop : OpcodesOk m.view := by
        rcases hok with hf | hop
        · rw [hclk] at hf; exact absurd hf (by simp)
        · exact hop
      obtain ⟨t, prep, -, he⟩ := h.requestLocked_ctl m env
      obtain ⟨p, hp⟩ : ∃ p, InPhase m.view h.ctl.log ⟨False, False, False⟩
          (h.ctl.requestLocked m.view t prep) p := requestLocked_phase hidle t prep
      have hserving : Serving m.view h.ctl.log (h.request m env).ctl 4 := by
        unfold Host.request
        rw [hclk]
        simp only [Bool.not_true, Bool.false_eq_true, if_false]
        rw [Host.completePendingRequest_ctl, he]
        exact completePending_serving hp (by cases p <;> decide)
      obtain ⟨hseq, hend⟩ := serve_serving hfresh hop irqs _ 4 hserving
      refine ⟨sequenced_order hseq, hseq, ?_⟩
      intro h4
      rcases hend with ⟨hr, -⟩ | ⟨p, -, hne, hle⟩
      · exact Option.map_eq_none_iff.1 hr
      · have hzero : p.rank = 0 := by omega
        cases p <;> first | exact absurd rfl hne | exact absurd hzero (by decide)

/-- A CMD23 alone, to a host just probed. -/
def singleCmd23 : MmcRequest :=
  { id := 0, sbc := none
    cmd := { opcode := 23, arg := 8, flags := ⟨true, false, true, false, true⟩, resp := [], error := 0 }
    data := none, stop := none }

theorem sequencing_iff_cmd23 :
    let h := Host.probed 0 (by decide)
    Idle singleCmd23.id h.ctl ∧ Fresh singleCmd23.view ∧ ¬InSequence h singleCmd23 := by
  have hidle : Idle singleCmd23.id (Host.probed 0 (by decide)).ctl :=
    ⟨rfl, rfl, rfl, rfl, by intro k hk; exact absurd hk (by simp [Host.ctl, Host.probed])⟩
  have hfresh : Fresh singleCmd23.view :=
    ⟨by intro k hk; exact absurd hk (by simp [singleCmd23, MmcRequest.view]), rfl,
      by intro d hd; exact absurd hd (by simp [singleCmd23, MmcRequest.view])⟩
  refine ⟨hidle, hfresh, fun hseq => ?_⟩
  rcases (sequencing_iff _ _ hidle hfresh).1 hseq with hoff | ⟨k, hk, -⟩ | ⟨hop, -⟩
  · exact absurd hoff (by decide)
  · exact absurd hk (by simp [singleCmd23, MmcRequest.view])
  · exact hop rfl

/-- `n` completions of the command that is out. -/
def completions (n : ℕ) : List (IntStatus × IrqEnv) :=
  List.replicate n ({ cmdComplete := true }, readyIrq)

/-- A host whose main command, a CMD23, is out keeps sending it. -/
theorem completions_23 {r : Req} (hop : r.cmd.opcode = 23) (n : ℕ) {h : Host}
    (hr : h.ctl.req = some r) (hc : h.ctl.cmd = some .cmd) (hd : h.ctl.done = none) :
    (h.serve (completions n)).ctl.req = some r ∧ (h.serve (completions n)).ctl.cmd = some .cmd := by
  induction n generalizing h with
  | zero => exact ⟨hr, hc⟩
  | succ n ih =>
    have hready : readyIrq.Ready := ⟨readySend_ready, readySend_ready⟩
    obtain ⟨env', hr', he⟩ := irq_ctl h { cmdComplete := true } readyIrq
    obtain ⟨h1, h2, h3, -, -⟩ := finishCommand_23 hr hc hop hd (hr' hready) rfl
    rw [← he] at h1 h2 h3
    exact ih h1 h2 h3

/-- **A lone CMD23 never ends**: however often it completes, it is still in progress. -/
theorem lone_cmd23_never_ends (h : Host) (m : MmcRequest) (hidle : Idle m.id h.ctl)
    (hclk : h.clk = true) (hsbc : m.sbc = none) (hop : m.cmd.opcode = 23) (n : ℕ) :
    (((h.request m readySend).serve (completions n)).mrq.map MmcRequest.view) = some m.view := by
  obtain ⟨t, prep, ht, he⟩ := h.requestLocked_ctl m readySend
  obtain rfl := ht readySend_ready
  have hview : m.view.sbc.isSome = false := by simp [MmcRequest.view, hsbc]
  unfold Ctl.requestLocked at he
  simp only [hview, Bool.false_eq_true, if_false] at he
  obtain ⟨q1, q2, q3, -, -⟩ := send_ready (c := { h.ctl with req := some m.view }) rfl .cmd prep
  have hstart : (h.request m readySend).ctl = (h.requestLocked m readySend).ctl := by
    unfold Host.request
    rw [hclk]
    simp only [Bool.not_true, Bool.false_eq_true, if_false]
    rw [Host.completePendingRequest_ctl, he, completePending_none (q3.trans hidle.done)]
  rw [← he, ← hstart] at q1 q2 q3
  exact (completions_23 (r := m.view) hop n q1 q2 (q3.trans hidle.done)).1

theorem single_cmd23_resends :
    let h := (Host.probed 0 (by decide)).request singleCmd23 readySend
    sends 0 (h.serve (completions 5)).ctl.log = [.cmd, .cmd, .cmd, .cmd, .cmd, .cmd] ∧
      h.answered (completions 5) = 5 ∧ (h.serve (completions 5)).mrq.isSome = true ∧
      ¬InSequence (Host.probed 0 (by decide)) singleCmd23 := by
  have hsends : sends 0 (((Host.probed 0 (by decide)).request singleCmd23 readySend).serve
      (completions 5)).ctl.log = [.cmd, .cmd, .cmd, .cmd, .cmd, .cmd] := by decide
  refine ⟨hsends, by decide, by decide, ?_⟩
  intro hseq
  have hsub := (hseq readySend (completions 5)).1
  rw [show singleCmd23.id = 0 from rfl, hsends] at hsub
  exact absurd hsub (by decide)

end Br2Efinix.Emmc
