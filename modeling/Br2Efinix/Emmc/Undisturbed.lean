import Br2Efinix.Emmc.Completion
import Br2Efinix.Emmc.Retune
import Br2Efinix.Emmc.Sequence

/-!
# The retune worker and requests

What the worker may do to a request that has been sent, and when it does not.

* `retune_undisturbed`: **the worker and requests leave each other alone** in every
  interleaving in which the worker writes only between requests, begins its command only
  when nothing of a request is left, and no request is made while something of a tuning is.
* `retune_disturbs`: without this the worker moves the phase under a request.
-/

namespace Br2Efinix.Emmc

/-! ## The property -/

/-- The request that has been sent and not been handed back. -/
def inFlight : List RetuneMark → Option ℕ
  | [] => none
  | .sent id :: _ => some id
  | .done _ :: _ => none
  | _ :: rest => inFlight rest

/-- What one mark may be, with a request in flight or not. -/
def RetuneMark.Harmless : RetuneMark → Option ℕ → Prop
  | .wrote _, flight => flight = none
  | .cleared bits, flight => flight.isSome = true → (bits .request).any = false
  | .finished bits, _ => (bits .tuning).any = false
  | .waitOver bits, _ => (bits .request).any = false
  | _, _ => True

/-- **The worker leaves requests alone, and they leave its wait alone.** -/
def Undisturbed : List RetuneMark → Prop
  | [] => True
  | k :: rest => k.Harmless (inFlight rest) ∧ Undisturbed rest

instance (k : RetuneMark) (flight : Option ℕ) : Decidable (k.Harmless flight) := by
  cases k <;> unfold RetuneMark.Harmless <;> infer_instance

instance Undisturbed.decidable : ∀ trace, Decidable (Undisturbed trace)
  | [] => isTrue trivial
  | _ :: rest => @instDecidableAnd _ _ inferInstance (Undisturbed.decidable rest)

/-! ## The condition -/

/-- A request is in progress, or has yet to be handed back. -/
def Host.busy (h : Host) : Bool := h.mrq.isSome || h.mrqDone.isSome

namespace Retune

/-- A command of this owner is out, or a bit of it is pending or in the handler's hands. -/
def Left (s : Retune) (o : Owner) : Prop :=
  s.out o = true ∨ (s.pending o).any = true ∨ (s.reading o).any = true

/-- Something of a request is left, in the driver or on the controller. -/
def RequestSide (s : Retune) : Prop := s.host.busy = true ∨ s.Left .request

/-- Something of a tuning command is left, in the worker or on the controller. -/
def TuningSide (s : Retune) : Prop := s.waiting = true ∨ s.Left .tuning

instance (s : Retune) (o : Owner) : Decidable (s.Left o) := inferInstanceAs (Decidable (_ ∨ _ ∨ _))
instance (s : Retune) : Decidable s.RequestSide := inferInstanceAs (Decidable (_ ∨ _))
instance (s : Retune) : Decidable s.TuningSide := inferInstanceAs (Decidable (_ ∨ _))

end Retune

/-- When the worker may make an access. -/
def RetuneOp.Allowed (s : Retune) : RetuneOp → Prop
  | .writel _ _ => s.host.busy = false
  | .reinit => ¬s.RequestSide
  | _ => True

/-- The steps that exclude each other on the controller. -/
def Exclusive (s : Retune) : RetuneAct → Prop
  | .request _ _ => ¬s.TuningSide
  | .work _ => ∀ op ∈ s.worker.head?, op.Allowed s
  | _ => True

instance (s : Retune) (op : RetuneOp) : Decidable (op.Allowed s) := by
  cases op <;> unfold RetuneOp.Allowed <;> infer_instance

instance (s : Retune) (a : RetuneAct) : Decidable (Exclusive s a) := by
  cases a <;> unfold Exclusive <;> infer_instance

/-! ## What the handler keeps -/

namespace Ctl

def busy (c : Ctl) : Bool := c.req.isSome || c.done.isSome

def Sends (log : List Mark) : Prop := ∃ id slot dma, Mark.send id slot dma ∈ log

/-- A request stays with the driver, none comes, and one that is sent goes on. -/
structure Keeps (c c' : Ctl) : Prop where
  busy : c'.busy = c.busy
  sent : ¬Sends c.log → Sends c'.log → c'.req.isSome = true

variable {c c' c'' : Ctl} {r : Req}

theorem busy_some (hr : c.req = some r) : c.busy = true := by
  unfold busy
  rw [hr]
  rfl

theorem sends_cons {k : Mark} (hk : ∀ id slot dma, k ≠ .send id slot dma) {log : List Mark}
    (hs : Sends (k :: log)) : Sends log := by
  obtain ⟨id, slot, dma, hmem⟩ := hs
  rcases List.mem_cons.1 hmem with h | h
  · exact absurd h.symm (hk id slot dma)
  · exact ⟨id, slot, dma, h⟩

/-- A step that sends nothing. -/
theorem Keeps.quiet (hb : c'.busy = c.busy) (hs : Sends c'.log → Sends c.log) : Keeps c c' :=
  ⟨hb, fun hc hc' => absurd (hs hc') hc⟩

theorem Keeps.refl (c : Ctl) : Keeps c c := .quiet rfl fun h => h

/-- What a step keeps that comes after one that sends nothing. -/
theorem Keeps.after (h : Keeps c' c'') (hb : c'.busy = c.busy) (hs : Sends c'.log → Sends c.log) :
    Keeps c c'' :=
  ⟨h.busy.trans hb, fun hc => h.sent fun hc' => hc (hs hc')⟩

theorem finish_keeps (c : Ctl) : Keeps c c.finish := by
  cases hr : c.req with
  | none =>
    rw [finish_none hr]
    exact .refl c
  | some r =>
    rw [finish_some hr]
    refine .quiet (busy_some hr).symm ?_
    intro hs
    simp only at hs
    split at hs
    · exact sends_cons (by simp) hs
    · exact hs

theorem send_keeps (c : Ctl) (slot : Slot) (timedOut : Bool) (prep : Prep) :
    Keeps c (c.send slot timedOut prep) := by
  unfold send
  cases hr : c.req with
  | none => exact .refl c
  | some r =>
    have hbusy := (busy_some hr).symm
    simp only
    split
    · -- the lines are not free in time
      exact (finish_keeps _).after hbusy fun h => h
    · split
      · exact ⟨hbusy, fun _ _ => rfl⟩
      · exact ⟨hbusy, fun _ _ => rfl⟩

theorem pio_keeps (c : Ctl) (words : Option ℕ) : Keeps c (c.pio words) := by
  cases words with
  | none => exact .refl c
  | some words =>
    unfold pio
    simp only
    split
    · exact .refl c
    · exact .quiet rfl (sends_cons (by simp))

theorem finishData_keeps (c : Ctl) (timedOut : Bool) : Keeps c (c.finishData timedOut) := by
  cases hd : c.curData with
  | none =>
    rw [finishData_none hd]
    exact .refl c
  | some d =>
    cases hr : c.req with
    | none => exact absurd (hd.symm.trans (curData_none hr)) (by simp)
    | some r =>
      rw [finishData_some hr hd]
      simp only
      -- the end of the data itself sends nothing
      have hsends : Sends (.dataDone r.id d.error :: ((if c.dma then [.unmapSg r.id] else []) ++ c.log)) →
          Sends c.log := by
        intro hs
        have hs := sends_cons (by simp) hs
        split at hs
        · exact sends_cons (by simp) hs
        · exact hs
      have hbusy := (busy_some hr).symm
      split
      · exact (send_keeps _ _ _ _).after hbusy hsends
      · exact (finish_keeps _).after hbusy hsends

theorem finishCommand_keeps (c : Ctl) (env : StageEnv) : Keeps c (c.finishCommand env) := by
  cases hr : c.req with
  | none =>
    rw [finishCommand_none (Or.inl hr)]
    exact .refl c
  | some r =>
    cases hc : c.cmd with
    | none =>
      rw [finishCommand_none (Or.inr hc)]
      exact .refl c
    | some slot =>
      rw [finishCommand_some hr hc]
      have hsends : Sends (.cmdDone r.id slot (r.get slot).error :: c.log) → Sends c.log :=
        sends_cons (by simp)
      simp only
      split
      · exact (send_keeps _ _ _ _).after rfl hsends
      · split
        · exact (finish_keeps _).after rfl hsends
        · split
          · exact .quiet rfl hsends
          · exact (pio_keeps _ _).after rfl hsends

theorem irqError_keeps (c : Ctl) (st : IntStatus) : Keeps c (c.irqError st) := by
  unfold irqError
  cases hr : c.req with
  | none => exact .refl c
  | some r => exact (finish_keeps _).after (busy_some hr).symm fun h => h

end Ctl

/-! ## What a piece keeps -/

/-- `Ctl.Keeps` for a piece, on a host without events. -/
structure PieceKeeps (f : Host → Host) : Prop where
  busy : ∀ h, (f h).busy = h.busy
  sent : ∀ h : Host, h.log = [] → (∃ id slot word, Ev.send id slot word ∈ (f h).log) →
    (f h).mrq.isSome = true

theorem busy_ctl (h : Host) : h.busy = h.ctl.busy := by
  unfold Host.busy Ctl.busy Host.ctl
  rw [Option.isSome_map, Option.isSome_map]

theorem sends_ctl {h : Host} (hs : ∃ id slot word, Ev.send id slot word ∈ h.log) : Ctl.Sends h.ctl.log := by
  obtain ⟨id, slot, word, hmem⟩ := hs
  exact ⟨id, slot, word.dmaEn, List.mem_filterMap.2 ⟨_, hmem, rfl⟩⟩

theorem not_sends_ctl {h : Host} (hlog : h.log = []) : ¬Ctl.Sends h.ctl.log := by
  rintro ⟨id, slot, dma, hmem⟩
  unfold Host.ctl at hmem
  rw [hlog] at hmem
  simp at hmem

theorem pieceKeeps_of_ctl {f : Host → Host} (hf : ∀ h, Ctl.Keeps h.ctl (f h).ctl) : PieceKeeps f := by
  refine ⟨?_, ?_⟩
  · intro h
    rw [busy_ctl, busy_ctl, (hf h).busy]
  · intro h hlog hs
    have hreq := (hf h).sent (not_sends_ctl hlog) (sends_ctl hs)
    rw [Host.ctl_req, Option.isSome_map] at hreq
    exact hreq

theorem irqPieces_keep (st : IntStatus) (env : IrqEnv) : ∀ f ∈ irqPieces st env, PieceKeeps f := by
  intro f hf
  unfold irqPieces at hf
  split at hf
  · rw [List.mem_singleton] at hf
    subst hf
    refine pieceKeeps_of_ctl ?_
    intro h
    rw [h.irqError_ctl]
    exact Ctl.irqError_keeps _ _
  · simp only [List.mem_cons, List.not_mem_nil, or_false] at hf
    rcases hf with rfl | rfl | rfl | rfl
    · refine pieceKeeps_of_ctl ?_
      intro h
      obtain ⟨timedOut, prep, early, -, hctl⟩ := h.irqCommand_ctl st env.command
      rw [hctl none false false]
      unfold Ctl.irqCommand
      split
      · exact Ctl.finishCommand_keeps _ _
      · exact .refl _
    · refine pieceKeeps_of_ctl ?_
      intro h
      obtain ⟨words, hctl⟩ := h.irqPio_ctl st env.pio
      rw [hctl false .ok none false false]
      unfold Ctl.irqPio
      split
      · exact Ctl.pio_keeps _ _
      · exact .refl _
    · refine pieceKeeps_of_ctl ?_
      intro h
      obtain ⟨stop, -, hctl⟩ := h.irqPioEnd_ctl st env.stop
      rw [hctl false .ok none none false]
      unfold Ctl.irqPioEnd
      split
      · exact Ctl.finishData_keeps _ _
      · exact .refl _
    · refine pieceKeeps_of_ctl ?_
      intro h
      obtain ⟨xfer, -, hctl⟩ := h.irqXfer_ctl st env.stop
      rw [hctl false .ok none none false]
      unfold Ctl.irqXfer
      split
      · exact Ctl.finishData_keeps _ _
      · exact .refl _

/-- What `efx_emmc_request` leaves. -/
theorem requestLocked_keeps (h : Host) (mrq : MmcRequest) (env : SendEnv) :
    (h.requestLocked mrq env).busy = true ∧
      (h.log = [] → (∃ id slot word, Ev.send id slot word ∈ (h.requestLocked mrq env).log) →
        (h.requestLocked mrq env).mrq.isSome = true) := by
  obtain ⟨timedOut, prep, -, hctl⟩ := h.requestLocked_ctl mrq env
  have hkeeps : ∃ c : Ctl, Ctl.Keeps c (h.requestLocked mrq env).ctl ∧ c.busy = true ∧
      c.log = h.ctl.log := by
    rw [hctl]
    unfold Ctl.requestLocked
    simp only
    split
    · exact ⟨_, Ctl.send_keeps _ _ _ _, rfl, rfl⟩
    · exact ⟨_, Ctl.send_keeps _ _ _ _, rfl, rfl⟩
  obtain ⟨c, hc, hbusy, hlog⟩ := hkeeps
  refine ⟨?_, ?_⟩
  · rw [busy_ctl, hc.busy, hbusy]
  · intro hempty hs
    have hnone : ¬Ctl.Sends c.log := by
      rw [hlog]
      exact not_sends_ctl hempty
    have hreq := hc.sent hnone (sends_ctl hs)
    rw [Host.ctl_req, Option.isSome_map] at hreq
    exact hreq

/-! ## The order of the worker's accesses -/

/-- A tuning command goes out only while its wait is open. -/
def Armed : Bool → List RetuneOp → Prop
  | _, [] => True
  | _, .reinit :: ops => Armed true ops
  | _, .await :: ops => Armed false ops
  | waiting, .send :: ops => waiting = true ∧ Armed waiting ops
  | waiting, _ :: ops => Armed waiting ops

theorem armed_timingOps (p : ℕ × ℕ) {waiting : Bool} {ops : List RetuneOp} (h : Armed waiting ops) :
    Armed waiting (timingOps p ++ ops) := h

theorem armed_commandOps (width8 : Bool) {waiting : Bool} {ops : List RetuneOp} (h : Armed false ops) :
    Armed waiting (commandOps width8 ++ ops) := ⟨rfl, h⟩

theorem armed_scan (width8 : Bool) {ops : List RetuneOp} (h : ∀ waiting, Armed waiting ops)
    (l : List (ℕ × ℕ)) (waiting : Bool) :
    Armed waiting (l.flatMap (fun p => timingOps p ++ commandOps width8) ++ ops) := by
  induction l generalizing waiting with
  | nil => exact h waiting
  | cons p rest ih =>
    rw [List.flatMap_cons, List.append_assoc, List.append_assoc]
    exact armed_timingOps p (armed_commandOps width8 (ih false))

theorem armed_ops (env : RetuneEnv) (waiting : Bool) : Armed waiting env.ops := by
  unfold RetuneEnv.ops
  show Armed waiting (ite _ _ _)
  split
  · have hlast : ∀ waiting, Armed waiting [.setInProgress false] := fun _ => trivial
    rw [List.append_assoc]
    exact armed_scan _ (fun waiting => armed_timingOps _ (hlast waiting)) _ waiting
  · trivial

/-! ## The invariant -/

/-- **The two sides exclude each other**, and what either has yet to do fits this. -/
structure Excluded (s : Retune) : Prop where
  sides : s.RequestSide → ¬s.TuningSide
  keeps : ∀ f ∈ s.pieces, PieceKeeps f
  sends : (∃ id slot word, Ev.send id slot word ∈ s.writes) → s.host.mrq.isSome = true
  flight : (inFlight s.trace).isSome = true → s.host.busy = true
  armed : Armed s.waiting s.worker
  undisturbed : Undisturbed s.trace

variable {s s' : Retune}

theorem busy_of_mrq {h : Host} (hm : h.mrq.isSome = true) : h.busy = true := by
  unfold Host.busy
  rw [hm]
  rfl

/-- A step of neither side: nothing is added to what is left. -/
theorem Excluded.lessen (hs : Excluded s) (hleft : ∀ o, s'.Left o → s.Left o)
    (hwaiting : s'.waiting = true → s.waiting = true) (hmrq : s'.host.mrq = s.host.mrq)
    (hdone : s'.host.mrqDone = s.host.mrqDone) (hpieces : s'.pieces = s.pieces)
    (hwrites : s'.writes = s.writes) (htrace : s'.trace = s.trace) (harmed : Armed s'.waiting s'.worker) :
    Excluded s' := by
  have hbusy : s'.host.busy = s.host.busy := by
    unfold Host.busy
    rw [hmrq, hdone]
  refine ⟨fun h h' => hs.sides ?_ ?_, ?_, ?_, ?_, harmed, ?_⟩
  · rcases h with h | h
    · exact Or.inl (hbusy ▸ h)
    · exact Or.inr (hleft _ h)
  · rcases h' with h | h
    · exact Or.inl (hwaiting h)
    · exact Or.inr (hleft _ h)
  · rw [hpieces]
    exact hs.keeps
  · rw [hwrites, hmrq]
    exact hs.sends
  · rw [htrace, hbusy]
    exact hs.flight
  · rw [htrace]
    exact hs.undisturbed

/-- A piece of the handler. What it ends, it ends by the bits of its own side. -/
theorem runPiece_excluded (hs : Excluded s) {f : Host → Host} (hf : PieceKeeps f) : Excluded (s.runPiece f) := by
  have hbusy : (f { s.host with log := [] }).busy = s.host.busy := hf.busy _
  have hsides : (s.runPiece f).RequestSide → s.RequestSide := by
    rintro (h | h)
    · exact Or.inl (hbusy ▸ h)
    · exact Or.inr h
  obtain ⟨added, hadded, hflight, hharmless⟩ : ∃ added, (s.runPiece f).trace = added ++ s.trace ∧
      inFlight (added ++ s.trace) = inFlight s.trace ∧ Undisturbed (added ++ s.trace) := by
    refine ⟨_, (List.append_assoc _ _ _).symm, ?_, ?_⟩
    · split <;> split <;> rfl
    · have hfinished : s.host.mrq.isSome = true → (s.reading .tuning).any = false := by
        intro hm
        by_contra h
        rw [Bool.not_eq_false] at h
        exact hs.sides (Or.inl (busy_of_mrq hm)) (Or.inr (Or.inr (Or.inr h)))
      have hover : s.waiting = true → (s.reading .request).any = false := by
        intro hw
        by_contra h
        rw [Bool.not_eq_false] at h
        exact hs.sides (Or.inr (Or.inr (Or.inr h))) (Or.inl hw)
      split
      · rename_i hf
        split
        · rename_i ho
          exact ⟨hfinished hf.1, hover ho.1, hs.undisturbed⟩
        · exact ⟨hfinished hf.1, hs.undisturbed⟩
      · split
        · rename_i ho
          exact ⟨hover ho.1, hs.undisturbed⟩
        · exact hs.undisturbed
  refine ⟨fun h h' => hs.sides (hsides h) h', hs.keeps, ?_, ?_, hs.armed, ?_⟩
  · rintro ⟨id, slot, word, hmem⟩
    exact hf.sent _ rfl ⟨id, slot, word, List.mem_reverse.1 hmem⟩
  · rw [hadded, hflight]
    exact fun h => hbusy.trans (hs.flight h)
  · rw [hadded]
    exact hharmless

/-! ## Steps -/

theorem clear_any {a b : IntStatus} (h : (a.clear b).any = true) : a.any = true := by
  unfold IntStatus.clear IntStatus.any IntStatus.error at *
  simp only [Bool.or_eq_true, Bool.and_eq_true] at h ⊢
  tauto

theorem no_bits_any : ({} : IntStatus).any = false := rfl

theorem play_excluded (hs : Excluded s) {e : Ev} (he : ∀ id slot word, e = .send id slot word →
    s.host.mrq.isSome = true) : Excluded (s.play e) := by
  cases e with
  | ack st =>
    refine hs.lessen ?_ (fun h => h) rfl rfl rfl rfl rfl hs.armed
    intro o h
    rcases h with h | h | h
    · exact Or.inl h
    · exact Or.inr (Or.inl (clear_any h))
    · exact Or.inr (Or.inr h)
  | writel reg val =>
    cases reg with
    | intStatus =>
      refine hs.lessen ?_ (fun h => h) rfl rfl rfl rfl rfl hs.armed
      intro o h
      rcases h with h | h | h
      · exact Or.inl h
      · exact absurd (no_bits_any.symm.trans h) (by simp)
      · exact Or.inr (Or.inr h)
    | _ => exact hs
  | send id slot word =>
    have hmrq := he id slot word rfl
    have hrequest : s.RequestSide := Or.inl (busy_of_mrq hmrq)
    have htuning : (s.play (.send id slot word)).TuningSide → s.TuningSide := by
      rintro (h | h | h)
      · exact Or.inl h
      · exact Or.inr (Or.inl h)
      · exact Or.inr (Or.inr h)
    exact ⟨fun _ h => hs.sides hrequest (htuning h), hs.keeps, hs.sends, fun _ => busy_of_mrq hmrq, hs.armed,
      trivial, hs.undisturbed⟩
  | _ => exact hs

theorem run_excluded (hs : Excluded s) (hstep : s.run = some s') : Excluded s' := by
  unfold Retune.run at hstep
  split at hstep
  · rename_i e rest hwrites
    obtain rfl := Option.some.inj hstep
    have hrest : Excluded { s with writes := rest } := by
      refine ⟨hs.sides, hs.keeps, ?_, hs.flight, hs.armed, hs.undisturbed⟩
      rintro ⟨id, slot, word, hmem⟩
      exact hs.sends ⟨id, slot, word, hwrites ▸ List.mem_cons_of_mem _ hmem⟩
    refine play_excluded hrest ?_
    rintro id slot word rfl
    exact hs.sends ⟨id, slot, word, hwrites ▸ List.mem_cons_self⟩
  · rename_i f rest hwrites hpieces
    obtain rfl := Option.some.inj hstep
    have hrest : Excluded { s with pieces := rest } :=
      ⟨hs.sides, fun f hf => hs.keeps f (hpieces ▸ List.mem_cons_of_mem _ hf), hs.sends, hs.flight, hs.armed,
        hs.undisturbed⟩
    exact runPiece_excluded hrest (hs.keeps f (hpieces ▸ List.mem_cons_self))
  · split at hstep
    · -- the handler lets go of the bits that it has read
      obtain rfl := Option.some.inj hstep
      refine hs.lessen ?_ (fun h => h) rfl rfl rfl rfl rfl hs.armed
      intro o h
      rcases h with h | h | h
      · exact Or.inl h
      · exact Or.inr (Or.inl h)
      · exact absurd (no_bits_any.symm.trans h) (by simp)
    · exact absurd hstep (by simp)

/-- A request is made while nothing of a tuning is left. -/
theorem request_excluded (hs : Excluded s) {mrq : MmcRequest} {env : SendEnv} (hg : ¬s.TuningSide)
    (hstep : s.request mrq env = some s') : Excluded s' := by
  unfold Retune.request at hstep
  split at hstep
  · exact absurd hstep (by simp)
  rename_i hfree
  split at hstep
  · obtain rfl := Option.some.inj hstep
    exact ⟨hs.sides, hs.keeps, hs.sends, fun h => absurd h (by simp [inFlight]), hs.armed, trivial,
      hs.undisturbed⟩
  obtain rfl := Option.some.inj hstep
  have hmrq : s.host.mrq.isSome = false := by
    rw [← Bool.not_eq_true]
    exact fun h => hfree (Or.inr (Or.inl h))
  have hwaiting : s.waiting = false := by
    rw [← Bool.not_eq_true]
    exact fun h => hg (Or.inl h)
  obtain ⟨hbusy, hsent⟩ := requestLocked_keeps { s.host with log := [] } mrq env
  have htrace : ({ s with locked := true }.runPiece fun h => h.requestLocked mrq env).trace = s.trace := by
    unfold Retune.runPiece
    simp [hmrq, hwaiting]
  refine ⟨fun _ h => hg h, hs.keeps, ?_, fun _ => hbusy, hs.armed, ?_⟩
  · rintro ⟨id, slot, word, hmem⟩
    exact hsent rfl ⟨id, slot, word, List.mem_reverse.1 hmem⟩
  · rw [htrace]
    exact hs.undisturbed

theorem irq_excluded (hs : Excluded s) {env : IrqEnv} (hstep : s.irq env = some s') : Excluded s' := by
  unfold Retune.irq at hstep
  split at hstep
  · exact absurd hstep (by simp)
  split at hstep
  · obtain rfl := Option.some.inj hstep
    exact hs
  · obtain rfl := Option.some.inj hstep
    -- the bits read are bits pending
    have hleft : ∀ o, (s.out o = true ∨ (s.pending o).any = true ∨ (s.pending o).any = true) → s.Left o := by
      rintro o (h | h | h)
      · exact Or.inl h
      · exact Or.inr (Or.inl h)
      · exact Or.inr (Or.inl h)
    refine ⟨fun h h' => hs.sides (h.imp_right (hleft _)) (h'.imp_right (hleft _)), irqPieces_keep _ _, ?_,
      hs.flight, hs.armed, hs.undisturbed⟩
    · rintro ⟨id, slot, word, hmem⟩
      rw [List.mem_singleton] at hmem
      exact absurd hmem (by simp)

theorem complete_excluded (hs : Excluded s) (hstep : s.complete = some s') : Excluded s' := by
  unfold Retune.complete at hstep
  split at hstep
  · exact absurd hstep (by simp)
  obtain rfl := Option.some.inj hstep
  refine ⟨fun h h' => hs.sides ?_ h', hs.keeps, hs.sends, fun h => absurd h (by simp [inFlight]), hs.armed,
    trivial, hs.undisturbed⟩
  refine h.imp_left ?_
  intro hbusy
  unfold Host.busy Host.setMrqDone at hbusy
  rw [Option.isSome_none, Bool.or_false] at hbusy
  exact busy_of_mrq hbusy

/-- Bits come from commands that are out. -/
theorem raise_excluded (hs : Excluded s) {o : Owner} {st : IntStatus} {last : Bool}
    (hstep : s.raise o st last = some s') : Excluded s' := by
  obtain ⟨hout, rfl⟩ := of_guard hstep
  refine hs.lessen ?_ (fun h => h) rfl rfl rfl rfl rfl hs.armed
  intro p h
  by_cases hp : p = o
  · rw [hp]
    exact Or.inl hout
  · rcases h with h | h | h
    · simp only [if_neg hp] at h
      exact Or.inl h
    · simp only [if_neg hp] at h
      exact Or.inr (Or.inl h)
    · exact Or.inr (Or.inr h)

theorem schedule_excluded (hs : Excluded s) (hstep : s.schedule = some s') : Excluded s' := by
  obtain ⟨-, rfl⟩ := of_guard_not hstep
  exact hs.lessen (fun _ h => h) (fun h => h) rfl rfl rfl rfl rfl hs.armed

theorem start_excluded (hs : Excluded s) {env : RetuneEnv} (hstep : s.start env = some s') : Excluded s' := by
  unfold Retune.start at hstep
  split at hstep
  · split at hstep
    · obtain rfl := Option.some.inj hstep
      exact hs.lessen (fun _ h => h) (fun h => h) rfl rfl rfl rfl rfl (armed_ops env _)
    · obtain rfl := Option.some.inj hstep
      exact hs.lessen (fun _ h => h) (fun h => h) rfl rfl rfl rfl rfl hs.armed
  · exact absurd hstep (by simp)

/-- An access of the worker that does not touch the controller. -/
theorem Excluded.inward (hs : Excluded s) {h : Host} {waiting : Bool} {ops : List RetuneOp}
    (hmrq : h.mrq = s.host.mrq) (hdone : h.mrqDone = s.host.mrqDone)
    (hwaiting : waiting = true → s.waiting = true) (harmed : Armed waiting ops) :
    Excluded { s with host := h, waiting := waiting, worker := ops } :=
  hs.lessen (fun _ h => h) hwaiting hmrq hdone rfl rfl rfl harmed

/-- The worker's register writes are made between requests. -/
theorem write_excluded (hs : Excluded s) (hbusy : s.host.busy = false) {reg : Reg} {val : ℕ}
    {ops : List RetuneOp} (hworker : s.worker = .writel reg val :: ops) {timeout : Bool}
    (hstep : s.work timeout = some s') : Excluded s' := by
  have hflight : inFlight s.trace = none := by
    rw [← Option.not_isSome_iff_eq_none]
    intro h
    exact absurd (hs.flight h) (by rw [hbusy]; simp)
  have harmed : Armed s.waiting ops := by
    have h := hs.armed
    rw [hworker] at h
    exact h
  have hwrote : Excluded { s with worker := ops, trace := .wrote (.writel reg val) :: s.trace } :=
    ⟨hs.sides, hs.keeps, hs.sends, hs.flight, harmed, hflight, hs.undisturbed⟩
  unfold Retune.work at hstep
  rw [hworker] at hstep
  cases reg with
  | intStatus =>
    obtain rfl := Option.some.inj hstep
    have hharmless : (RetuneMark.cleared s.pending).Harmless (inFlight s.trace) := by
      intro h
      rw [hflight] at h
      exact absurd h (by simp)
    have hleft : ∀ o, s.out o = true ∨ ({} : IntStatus).any = true ∨ (s.reading o).any = true → s.Left o := by
      rintro o (h | h | h)
      · exact Or.inl h
      · exact absurd (no_bits_any.symm.trans h) (by simp)
      · exact Or.inr (Or.inr h)
    exact ⟨fun h h' => hs.sides (h.imp_right (hleft _)) (h'.imp_right (hleft _)), hs.keeps, hs.sends, hs.flight,
      harmed, hharmless, hs.undisturbed⟩
  | _ =>
    obtain rfl := Option.some.inj hstep
    exact hwrote

/-- An access of the worker. -/
theorem work_excluded (hs : Excluded s) {timeout : Bool} (hg : Exclusive s (.work timeout))
    (hstep : s.work timeout = some s') : Excluded s' := by
  have harmed := hs.armed
  unfold Exclusive at hg
  cases hworker : s.worker with
  | nil =>
    unfold Retune.work at hstep
    rw [hworker] at hstep
    exact absurd hstep (by simp)
  | cons op ops =>
    have hg : op.Allowed s := hg op (by rw [hworker]; rfl)
    rw [hworker] at harmed
    cases op with
    | writel reg val => exact write_excluded hs hg hworker hstep
    | setInProgress value =>
      unfold Retune.work at hstep
      rw [hworker] at hstep
      obtain ⟨-, rfl⟩ := of_guard_not hstep
      exact hs.inward rfl rfl (fun h => h) harmed
    | reinit =>
      unfold Retune.work at hstep
      rw [hworker] at hstep
      obtain rfl := Option.some.inj hstep
      exact ⟨fun h => absurd h hg, hs.keeps, hs.sends, hs.flight, harmed, hs.undisturbed⟩
    | resetCrc =>
      unfold Retune.work at hstep
      rw [hworker] at hstep
      obtain ⟨-, rfl⟩ := of_guard_not hstep
      exact hs.inward rfl rfl (fun h => h) harmed
    | send =>
      -- its wait is open, so that nothing of a request is left
      have hrequest : ¬s.RequestSide := fun h => hs.sides h (Or.inl harmed.1)
      have hflight : inFlight s.trace = none := by
        rw [← Option.not_isSome_iff_eq_none]
        exact fun h => hrequest (Or.inl (hs.flight h))
      unfold Retune.work at hstep
      rw [hworker] at hstep
      obtain rfl := Option.some.inj hstep
      exact ⟨fun h => absurd h hrequest, hs.keeps, hs.sends, hs.flight, harmed.2, hflight, hs.undisturbed⟩
    | await =>
      unfold Retune.work at hstep
      rw [hworker] at hstep
      simp only at hstep
      split at hstep
      · obtain rfl := Option.some.inj hstep
        exact hs.inward rfl rfl (fun h => absurd h (by simp)) harmed
      · obtain ⟨-, rfl⟩ := of_guard_not hstep
        exact hs.inward rfl rfl (fun h => absurd h (by simp)) harmed
    | checkCrc =>
      unfold Retune.work at hstep
      rw [hworker] at hstep
      simp only at hstep
      split at hstep
      · obtain ⟨-, rfl⟩ := of_guard_not hstep
        exact hs.inward rfl rfl (fun h => h) harmed
      · obtain rfl := Option.some.inj hstep
        exact hs.inward rfl rfl (fun h => h) harmed

/-! ## Runs -/

theorem step_excluded {a : RetuneAct} (hs : Excluded s) (hg : Exclusive s a) (hstep : retune.step s a = some s') :
    Excluded s' := by
  cases a with
  | request mrq env => exact request_excluded hs hg hstep
  | irq env => exact irq_excluded hs hstep
  | run => exact run_excluded hs hstep
  | complete => exact complete_excluded hs hstep
  | raise o st last => exact raise_excluded hs hstep
  | schedule => exact schedule_excluded hs hstep
  | start env => exact start_excluded hs hstep
  | work timeout => exact work_excluded hs hg hstep

theorem idle_excluded {h : Host} (hm : h.mrq = none) (hd : h.mrqDone = none) : Excluded (.idle h) := by
  have hbusy : h.busy = false := by
    unfold Host.busy
    rw [hm, hd]
    rfl
  have htuning : ¬(Retune.idle h).TuningSide := by
    rintro (h | h | h | h)
    · exact absurd h (by simp [Retune.idle])
    · exact absurd h (by simp [Retune.idle])
    · exact absurd (no_bits_any.symm.trans h) (by simp)
    · exact absurd (no_bits_any.symm.trans h) (by simp)
  refine ⟨fun _ => htuning, fun f hf => absurd hf List.not_mem_nil, ?_, fun h => absurd h (by simp [Retune.idle, inFlight]),
    trivial, trivial⟩
  rintro ⟨id, slot, word, hmem⟩
  exact absurd hmem List.not_mem_nil

/-- **The worker and requests leave each other alone** in every interleaving of which each
step excludes the other side. -/
theorem retune_undisturbed (hr : retune.Reach Exclusive s) : Undisturbed s.trace := by
  have hs : Excluded s := by
    refine hr.invariant ?_ fun _ _ _ hs hg hstep => step_excluded hs hg hstep
    rintro _ ⟨h, hm, hd, rfl⟩
    exact idle_excluded hm hd
  exact hs.undisturbed

/-- After the probe. -/
def Retune.probed : Retune := .idle (.probed 0 Host.bounceBuffer_fits)

theorem init_probed : retune.init .probed := ⟨.probed 0 (by decide), rfl, rfl, rfl⟩

/-- A scan of one point. -/
def onePoint : RetuneEnv :=
  { mapAlloc := true, width8 := true, maxSampleCount := 1, late := fun _ _ => true, final := (0, 0) }

/-- A CMD13 from its request to its end. -/
def statusServed : List RetuneAct :=
  [.request sendStatus readySend, .run, .run, .run, .raise .request { cmdComplete := true } true,
    .irq readyIrq, .run, .run, .run, .run, .run, .run, .run, .complete]

/-- The worker up to its wait, its interrupt, and the rest of the worker. -/
def onePointTuned : List RetuneAct :=
  [.schedule, .start onePoint, .work false, .work false, .work false, .work false, .work false, .work false,
    .work false, .work false, .work false, .work false, .raise .tuning { xferComplete := true } true,
    .irq readyIrq, .run, .run, .run, .run, .run, .run, .work false, .work false, .work false, .work false,
    .work false, .work false]

/-- One after the other, the request and the worker's wait both come to their ends. -/
theorem retune_undisturbed_status :
    ∃ s, retune.exec .probed (statusServed ++ onePointTuned) = some s ∧ s.worker = [] ∧
      s.trace.length = 14 ∧ Undisturbed s.trace := by
  have hrun : (retune.exec .probed (statusServed ++ onePointTuned)).map
      (fun s => (s.worker, s.trace.length)) = some ([], 14) := by
    decide +kernel
  obtain ⟨s, hexec, hfields⟩ := Option.map_eq_some_iff.1 hrun
  obtain ⟨hworker, htrace⟩ := Prod.mk.inj hfields
  have hexclusive : retune.Along Exclusive .probed (statusServed ++ onePointTuned) := by
    decide +kernel
  exact ⟨s, hexec, hworker, htrace, retune_undisturbed (.of_exec init_probed hexclusive hexec)⟩

/-- A CMD13 has been sent and waits for its answer when the worker starts. -/
def startedUnderRequest : List RetuneAct :=
  [.request sendStatus readySend, .run, .run, .run, .schedule, .start onePoint, .work false, .work false]

/-- **The worker moves the phase under a request in flight.** -/
theorem retune_disturbs :
    ∃ s, retune.exec .probed startedUnderRequest = some s ∧ retune.Reach (fun _ _ => True) s ∧
      ¬Undisturbed s.trace := by
  have hrun : (retune.exec .probed startedUnderRequest).map
      (fun s => decide (Undisturbed s.trace)) = some false := by
    decide +kernel
  obtain ⟨s, hexec, hdisturbed⟩ := Option.map_eq_some_iff.1 hrun
  exact ⟨s, hexec, .of_exec init_probed (Machine.along_true _ _) hexec, of_decide_eq_false hdisturbed⟩

end Br2Efinix.Emmc
