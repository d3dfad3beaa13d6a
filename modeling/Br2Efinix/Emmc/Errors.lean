import Br2Efinix.Emmc.Completion

/-!
# Errors are reported

`efx_emmc_request` and `efx_emmc_irq`, each run to its end, and what the request they
hand over says of an error interrupt or of a command line that does not come free.

* `error_reported_iff`: in every state reached, **an error interrupt is reported iff its
  bits are those of the command or of the data that are out**; a timeout of
  `efx_emmc_send_command` always is.
* `busy_timeout_lost`: the data timeout of a command without data is not.
-/

namespace Br2Efinix.Emmc

/-! ## The driver's entries -/

inductive Entry
  /-- `efx_emmc_request`, on the request as the core issues it. -/
  | request (m : MmcRequest) (env : SendEnv)
  /-- `efx_emmc_irq`. -/
  | irq (st : IntStatus) (env : IrqEnv)

/-- One request after another, and interrupts at any time. -/
def service : Machine Host Entry :=
  { init := fun h => h.mrq = none ∧ h.data = false
    step := fun h => fun
      | .request m env => if h.mrq.isNone then some (h.request (m.issued m.id) env) else none
      | .irq st env => some (h.irq st env) }

/-! ### Where `efx_emmc_send_command` is called, and times out -/

/-- In `efx_emmc_request`. -/
def MmcRequest.timesOut (m : MmcRequest) (env : SendEnv) : Bool :=
  env.timedOut (m.sbc.isNone && m.data.isSome)

namespace Host

/-- In `efx_emmc_finish_command`, after a CMD23. -/
def commandTimesOut (h : Host) (env : SendEnv) : Bool :=
  (h.curCmd.map fun c => decide (c.opcode = 23)).getD false &&
    env.timedOut (h.mrq.bind (·.data)).isSome

/-- In `efx_emmc_finish_data`, for the stop command. -/
def stopTimesOut (h : Host) (env : SendEnv) : Bool :=
  match h.mrq, h.curData with
  | some m, some data => needStopCommand data m && decide (data.error = 0) && env.timedOut false
  | _, _ => false

/-- In the stages of `efx_emmc_irq`, each on the host that the ones before leave. -/
def irqTimesOut (h : Host) (st : IntStatus) (env : IrqEnv) : Bool :=
  let h1 := h.emit (.ack st)
  let h2 := (h1.irqCommand st env.command).irqPio st env.pio
  let h3 := h2.irqPioEnd st env.stop
  !st.error &&
    ((st.cmdComplete && h1.commandTimesOut env.command.send) ||
      (!h2.useDma && (st.bufferReadRdy || st.bufferWriteRdy) && h2.data && h2.bytesToTransfer == 0 &&
        h2.stopTimesOut env.stop) ||
      (st.xferComplete && h3.stopTimesOut env.stop))

end Host

/-! ## The property -/

/-- An error in `sbc`, `cmd`, `data` or `stop`. -/
def MmcRequest.Failed (m : MmcRequest) : Prop :=
  (∃ c, m.sbc = some c ∧ c.error ≠ 0) ∨ m.cmd.error ≠ 0 ∨ (∃ d, m.data = some d ∧ d.error ≠ 0) ∨
    ∃ c, m.stop = some c ∧ c.error ≠ 0

/-- The last thing done was to hand over a request with an error. -/
def Host.Reported (h : Host) : Prop := ∃ m, h.log.head? = some (.requestDone m) ∧ m.Failed

/-- An error that ends a request is reported. -/
def ErrorReported (h : Host) : Entry → Prop
  | .request m env => h.mrq = none → (m.issued m.id).timesOut env = true →
      (h.request (m.issued m.id) env).Reported
  | .irq st env => h.mrq.isSome = true → (st.error = true ∨ h.irqTimesOut st env = true) →
      (h.irq st env).Reported

/-- An error bit is that of a command, and one is out, or that of data, and they are out. -/
def Attributed (h : Host) : Entry → Prop
  | .request _ _ => True
  | .irq st _ => h.mrq.isSome = true → st.error = true →
      (h.cmd.isSome = true ∧ st.cmdError = true) ∨ (h.data = true ∧ st.dataError = true)

/-! ## Errors of the automaton's requests -/

/-- An error in some part. -/
def Req.Failed (r : Req) : Prop :=
  (∃ k, r.sbc = some k ∧ k.error ≠ 0) ∨ r.cmd.error ≠ 0 ∨ (∃ d, r.data = some d ∧ d.error ≠ 0) ∨
    ∃ k, r.stop = some k ∧ k.error ≠ 0

theorem view_failed (m : MmcRequest) : m.view.Failed ↔ m.Failed := by
  unfold Req.Failed MmcRequest.Failed MmcRequest.view
  simp only [Option.map_eq_some_iff, exists_exists_and_eq_and]
  rfl

variable {r : Req} {c : Ctl} {h : Host}

/-- The part of a request that a slot denotes is there. -/
def Req.Has (r : Req) : Slot → Prop
  | .sbc => r.sbc.isSome = true
  | .cmd => True
  | .stop => r.stop.isSome = true

/-- A command's error is an error of the request, -/
theorem failed_modify {slot : Slot} (hhas : r.Has slot) {e : ℤ} (he : e ≠ 0) :
    (r.modify slot fun k => { k with error := e }).Failed := by
  cases slot with
  | sbc =>
    obtain ⟨k, hk⟩ := Option.isSome_iff_exists.1 hhas
    exact Or.inl ⟨{ k with error := e }, by simp [Req.modify, hk], he⟩
  | cmd => exact Or.inr (Or.inl he)
  | stop =>
    obtain ⟨k, hk⟩ := Option.isSome_iff_exists.1 hhas
    exact Or.inr (Or.inr (Or.inr ⟨{ k with error := e }, by simp [Req.modify, hk], he⟩))

/-- and so is one of the data; -/
theorem failed_modifyData (hhas : r.data.isSome = true) {f : DataView → DataView}
    (hf : ∀ d, (f d).error ≠ 0) : (r.modifyData f).Failed := by
  obtain ⟨d, hd⟩ := Option.isSome_iff_exists.1 hhas
  exact Or.inr (Or.inr (Or.inl ⟨f d, by simp [Req.modifyData, hd], hf d⟩))

theorem failed_modifyData_of (hr : r.Failed) {f : DataView → DataView}
    (hf : ∀ d, d.error ≠ 0 → (f d).error ≠ 0) : (r.modifyData f).Failed := by
  rcases hr with hsbc | hcmd | ⟨d, hd, hne⟩ | hstop
  · exact Or.inl hsbc
  · exact Or.inr (Or.inl hcmd)
  · exact Or.inr (Or.inr (Or.inl ⟨f d, by simp [Req.modifyData, hd], hf d hne⟩))
  · exact Or.inr (Or.inr (Or.inr hstop))

/-- Where the data's error stays, so does the rest. -/
theorem failed_modifyData_iff {f : DataView → DataView} (hf : ∀ d, (f d).error = d.error) :
    (r.modifyData f).Failed ↔ r.Failed := by
  refine ⟨?_, fun hr => failed_modifyData_of hr fun d hd => by rwa [hf d]⟩
  intro hr
  rcases hr with hsbc | hcmd | ⟨d, hd, hne⟩ | hstop
  · exact Or.inl hsbc
  · exact Or.inr (Or.inl hcmd)
  · obtain ⟨d', hd', rfl⟩ := Option.map_eq_some_iff.1 hd
    rw [hf d'] at hne
    exact Or.inr (Or.inr (Or.inl ⟨d', hd', hne⟩))
  · exact Or.inr (Or.inr (Or.inr hstop))

/-! ### The marks of the error branch -/

theorem markAdma_failed (st : IntStatus) {data : Bool} (hdata : data = true → r.data.isSome = true)
    (hclean : ¬r.Failed) :
    (r.markAdma st data).Failed ↔ st.admaError = true ∧ data = true := by
  unfold Req.markAdma
  split
  · rename_i hcond
    rw [Bool.and_eq_true] at hcond
    refine ⟨fun _ => hcond, fun _ => failed_modifyData (hdata hcond.2) ?_⟩
    intro d
    have hEIO : (- EIO) ≠ 0 := by decide
    exact hEIO
  · rename_i hcond
    rw [Bool.and_eq_true] at hcond
    exact ⟨fun hr => absurd hr hclean, fun hboth => absurd hboth hcond⟩

theorem markCommand_failed (st : IntStatus) {cmd : Option Slot} (hcmd : ∀ slot, cmd = some slot → r.Has slot) :
    (r.markCommand st cmd).Failed ↔ r.Failed ∨ cmd.isSome = true ∧ st.cmdError = true := by
  cases cmd with
  | none =>
    refine ⟨fun hr => Or.inl hr, fun hr => hr.resolve_right fun hboth => ?_⟩
    exact absurd hboth.1 (by simp)
  | some slot =>
    have hhas := hcmd slot rfl
    have htimedout : (-ETIMEDOUT) ≠ 0 := by decide
    have hilseq : (-EILSEQ) ≠ 0 := by decide
    unfold Req.markCommand IntStatus.cmdError
    simp only
    split
    · rename_i ht
      exact ⟨fun _ => Or.inr ⟨rfl, by rw [ht]; rfl⟩, fun _ => failed_modify hhas htimedout⟩
    · rename_i ht
      split
      · rename_i hcrc
        refine ⟨fun _ => Or.inr ⟨rfl, ?_⟩, fun _ => failed_modify hhas hilseq⟩
        rw [Bool.or_assoc, Bool.or_assoc, ← Bool.or_assoc st.cmdCrcErr, hcrc, Bool.or_true]
      · rename_i hcrc
        refine ⟨fun hr => Or.inl hr, fun hr => hr.resolve_right fun hboth => ?_⟩
        have hbits := hboth.2
        rw [Bool.or_assoc, Bool.or_assoc, ← Bool.or_assoc st.cmdCrcErr, Bool.or_eq_true] at hbits
        exact hbits.elim ht hcrc

theorem markData_failed (st : IntStatus) {data : Bool} (hdata : data = true → r.data.isSome = true) :
    (r.markData st data).Failed ↔ r.Failed ∨ data = true ∧
      (st.dataTimeoutErr || st.dataCrcErr || st.dataEndBitErr) = true := by
  have htimedout : (-ETIMEDOUT) ≠ 0 := by decide
  have hilseq : (-EILSEQ) ≠ 0 := by decide
  unfold Req.markData
  split
  · rename_i hout
    by_cases hbits : (st.dataTimeoutErr || st.dataCrcErr || st.dataEndBitErr) = true
    · refine ⟨fun _ => Or.inr ⟨hout, hbits⟩, fun _ => failed_modifyData (hdata hout) ?_⟩
      intro d
      cases ht : st.dataTimeoutErr <;> cases hc : st.dataCrcErr <;> cases he : st.dataEndBitErr <;>
        first | exact hilseq | exact htimedout | simp [ht, hc, he] at hbits
    · have hnone : st.dataTimeoutErr = false ∧ st.dataCrcErr = false ∧ st.dataEndBitErr = false := by
        simpa [and_assoc] using hbits
      obtain ⟨ht, hc, he⟩ := hnone
      rw [failed_modifyData_iff fun d => by simp only [ht, hc, he]; rfl]
      exact ⟨fun hr => Or.inl hr, fun hr => hr.resolve_right fun hboth => hbits hboth.2⟩
  · rename_i hout
    exact ⟨fun hr => Or.inl hr, fun hr => hr.resolve_right fun hboth => hout hboth.1⟩

/-! ## The invariant -/

/-- The request in progress has no error yet, and what is out is a part of it. -/
structure Fits (c : Ctl) (r : Req) : Prop where
  clean : ¬r.Failed
  cmd : ∀ slot, c.cmd = some slot → r.Has slot
  data : c.data = true → r.data.isSome = true

/-- What holds between the entries. -/
structure Serviced (c : Ctl) : Prop where
  idle : c.req = none → c.data = false
  fits : ∀ r, c.req = some r → Fits c r

theorem finish_serviced (hidle : c.req = none → c.data = false) : Serviced c.finish := by
  unfold Ctl.finish
  cases hr : c.req with
  | none => exact ⟨hidle, fun r hr' => absurd (hr.symm.trans hr') (by simp)⟩
  | some r => exact ⟨fun _ => rfl, fun r hr' => absurd hr' (by simp)⟩

/-- A command of the request is sent. -/
theorem send_serviced {slot : Slot} (hidle : c.req = none → c.data = false)
    (hreq : ∀ r, c.req = some r →
      ¬r.Failed ∧ r.Has slot ∧ (c.data = true → r.data.isSome = true))
    (timedOut : Bool) (prep : Prep) : Serviced (c.send slot timedOut prep) := by
  cases hr : c.req with
  | none =>
    unfold Ctl.send
    rw [hr]
    exact ⟨hidle, fun r hr' => absurd (hr.symm.trans hr') (by simp)⟩
  | some r =>
    obtain ⟨hclean, hhas, hdata⟩ := hreq r hr
    have hslot : ∀ slot', some slot = some slot' → r.Has slot' := by
      intro slot' he
      obtain rfl := Option.some.inj he
      exact hhas
    cases timedOut with
    | true =>
      rw [send_timedOut c hr]
      exact finish_serviced fun hnone => absurd hnone (by simp)
    | false =>
      by_cases hwith : slot = .cmd ∧ r.data.isSome = true
      · obtain ⟨rfl, hsome⟩ := hwith
        obtain ⟨d, hd⟩ := Option.isSome_iff_exists.1 hsome
        rw [send_data c hr hd]
        refine ⟨fun hnone => absurd (hr.symm.trans hnone) (by simp), ?_⟩
        intro r' hr'
        obtain rfl := Option.some.inj (hr.symm.trans hr')
        exact ⟨hclean, hslot, fun _ => hsome⟩
      · rw [send_plain c hr prep fun he => by
          by_contra hne
          exact hwith ⟨he, Option.isSome_iff_ne_none.2 hne⟩]
        refine ⟨fun hnone => absurd (hr.symm.trans hnone) (by simp), ?_⟩
        intro r' hr'
        obtain rfl := Option.some.inj (hr.symm.trans hr')
        exact ⟨hclean, hslot, hdata⟩

/-- A transfer moves words only. -/
theorem pio_serviced (hs : Serviced c) (words : Option ℕ) : Serviced (c.pio words) := by
  cases words with
  | none => exact hs
  | some w =>
    unfold Ctl.pio
    simp only
    split
    · exact hs
    · exact ⟨hs.idle, fun r hr => ⟨(hs.fits r hr).clean, (hs.fits r hr).cmd, (hs.fits r hr).data⟩⟩

theorem finishData_serviced (hs : Serviced c) (timedOut : Bool) : Serviced (c.finishData timedOut) := by
  cases hr : c.req with
  | none =>
    rw [Ctl.finishData_none (Ctl.curData_none hr)]
    exact hs
  | some r =>
    cases hcur : c.curData with
    | none =>
      rw [Ctl.finishData_none hcur]
      exact hs
    | some d =>
      obtain ⟨hclean, hslot, -⟩ := hs.fits r hr
      have hclean' : ¬(r.modifyData fun d => { d with xfered := if d.error = 0 then d.size else 0 }).Failed := by
        rw [failed_modifyData_iff (f := fun d => { d with xfered := if d.error = 0 then d.size else 0 })
          fun _ => rfl]
        exact hclean
      rw [Ctl.finishData_some hr hcur]
      simp only
      split
      · rename_i hstop
        have hsome : r.stop.isSome = true := by
          have hneed := hstop.1
          unfold Req.needStop at hneed
          rw [Bool.and_eq_true, Bool.and_eq_true] at hneed
          exact hneed.1.2
        refine send_serviced (fun hnone => absurd hnone (by simp)) ?_ _ _
        intro r' hr'
        obtain rfl := Option.some.inj hr'
        exact ⟨hclean', hsome, fun hdata => absurd hdata (by simp)⟩
      · exact finish_serviced fun hnone => absurd hnone (by simp)

theorem finishCommand_serviced (hs : Serviced c) (env : StageEnv) : Serviced (c.finishCommand env) := by
  cases hr : c.req with
  | none =>
    rw [Ctl.finishCommand_none (Or.inl hr)]
    exact hs
  | some r =>
    cases hc : c.cmd with
    | none =>
      rw [Ctl.finishCommand_none (Or.inr hc)]
      exact hs
    | some slot =>
      obtain ⟨hclean, -, hdata⟩ := hs.fits r hr
      have hdone : ∀ log, Serviced { c with cmd := none, log := log } := by
        intro log
        refine ⟨hs.idle, ?_⟩
        intro r' hr'
        obtain rfl := Option.some.inj (hr.symm.trans hr')
        exact ⟨hclean, fun slot he => absurd he (by simp), hdata⟩
      rw [Ctl.finishCommand_some hr hc]
      simp only
      split
      · refine send_serviced (c := { c with cmd := some .cmd, log := _ }) hs.idle ?_ _ _
        intro r' hr'
        obtain rfl := Option.some.inj (hr.symm.trans hr')
        exact ⟨hclean, trivial, hdata⟩
      · split
        · exact finish_serviced fun hnone => absurd (hr.symm.trans hnone) (by simp)
        · split
          · exact hdone _
          · exact pio_serviced (hdone _) _

theorem irqError_serviced (hs : Serviced c) (st : IntStatus) : Serviced (c.irqError st) := by
  cases hr : c.req with
  | none => unfold Ctl.irqError; rw [hr]; exact hs
  | some r =>
    obtain ⟨r', he, -⟩ := irqError_some hr st
    rw [he]
    exact finish_serviced fun hnone => absurd hnone (by simp)

theorem irqLocked_serviced (hs : Serviced c) (st : IntStatus) (env : StageEnv) :
    Serviced (c.irqLocked st env) := by
  have hcommand : Serviced (c.irqCommand st env) := by
    unfold Ctl.irqCommand
    split
    · exact finishCommand_serviced hs env
    · exact hs
  have hpio : Serviced ((c.irqCommand st env).irqPio st env) := by
    unfold Ctl.irqPio
    split
    · exact pio_serviced hcommand _
    · exact hcommand
  have hend : Serviced (((c.irqCommand st env).irqPio st env).irqPioEnd st env) := by
    unfold Ctl.irqPioEnd
    split
    · exact finishData_serviced hpio _
    · exact hpio
  unfold Ctl.irqLocked
  split
  · exact hs
  · split
    · exact irqError_serviced hs st
    · unfold Ctl.irqXfer
      split
      · exact finishData_serviced hend _
      · exact hend

/-- Handing a request over is no matter of the one in progress. -/
theorem completePending_serviced (hs : Serviced c) : Serviced c.completePending := by
  unfold Ctl.completePending
  split
  · exact hs
  · exact ⟨hs.idle, fun r hr => ⟨(hs.fits r hr).clean, (hs.fits r hr).cmd, (hs.fits r hr).data⟩⟩

theorem issued_clean (m : MmcRequest) (id : ℕ) : ¬(m.issued id).view.Failed := by
  obtain ⟨⟨hsbc, hcmd, hdata⟩, -⟩ := issued_fresh m id
  rintro (⟨k, hk, hne⟩ | hne | ⟨d, hd, hne⟩ | ⟨k, hk, hne⟩)
  · exact hne (hsbc k hk)
  · exact hne hcmd
  · exact hne (hdata d hd)
  · obtain ⟨c, hc, rfl⟩ := Option.map_eq_some_iff.1 hk
    obtain ⟨c', -, rfl⟩ := Option.map_eq_some_iff.1 hc
    exact hne rfl

theorem requestLocked_serviced (hs : Serviced c) (hr : c.req = none) (hclean : ¬r.Failed)
    (timedOut : Bool) (prep : Prep) : Serviced (c.requestLocked r timedOut prep) := by
  have hdata : c.data = false := hs.idle hr
  unfold Ctl.requestLocked
  simp only
  split
  · rename_i hsome
    refine send_serviced (fun hnone => absurd hnone (by simp)) ?_ _ _
    intro r' hr'
    obtain rfl := Option.some.inj hr'
    exact ⟨hclean, hsome, fun hout => absurd (hdata.symm.trans hout) (by simp)⟩
  · refine send_serviced (fun hnone => absurd hnone (by simp)) ?_ _ _
    intro r' hr'
    obtain rfl := Option.some.inj hr'
    exact ⟨hclean, trivial, fun hout => absurd (hdata.symm.trans hout) (by simp)⟩

/-- **Every entry keeps it.** -/
theorem service_serviced {e : Entry} {h' : Host} (hs : Serviced h.ctl)
    (hstep : service.step h e = some h') : Serviced h'.ctl := by
  cases e with
  | request m env =>
    obtain ⟨hnone, rfl⟩ := of_guard hstep
    have hreq : h.ctl.req = none := by rw [Host.ctl_req, Option.isNone_iff_eq_none.1 hnone]; rfl
    unfold Host.request
    split
    · rw [Host.ctl_emit]
      exact ⟨hs.idle, fun r hr => absurd (hreq.symm.trans hr) (by simp)⟩
    · obtain ⟨timedOut, prep, -, he⟩ := h.requestLocked_ctl (m.issued m.id) env
      rw [Host.completePendingRequest_ctl, he]
      exact completePending_serviced (requestLocked_serviced hs hreq (issued_clean m m.id) timedOut prep)
  | irq st env =>
    obtain rfl := Option.some.inj hstep
    obtain ⟨env', -, he⟩ := irq_ctl h st env
    rw [he]
    exact completePending_serviced (irqLocked_serviced hs st env')

theorem reach_serviced (hr : service.Reach (fun _ _ => True) h) : Serviced h.ctl := by
  refine hr.invariant ?_ fun _ _ _ hs _ hstep => service_serviced hs hstep
  rintro h ⟨hmrq, hdata⟩
  refine ⟨fun _ => hdata, ?_⟩
  intro r hr
  rw [Host.ctl_req, hmrq] at hr
  exact absurd hr (by simp)

/-! ## Error interrupts -/

/-- What a request handed over says is what the request that was finished says. -/
theorem reported_completePending {h : Host} (hd : h.ctl.done = some r) :
    h.completePendingRequest.Reported ↔ r.Failed := by
  obtain ⟨m, hm, rfl⟩ := Option.map_eq_some_iff.1 hd
  have hlog : h.completePendingRequest.log.head? = some (.requestDone m) := by
    unfold Host.completePendingRequest
    rw [hm]
    rfl
  rw [view_failed]
  unfold Host.Reported
  rw [hlog]
  refine ⟨?_, fun hm => ⟨m, rfl, hm⟩⟩
  rintro ⟨m', he, hfailed⟩
  obtain rfl := Ev.requestDone.inj (Option.some.inj he)
  exact hfailed

/-- **What the error branch records.** -/
theorem irqError_failed (hr : c.req = some r) (hf : Fits c r) (st : IntStatus) :
    ∃ r', (c.irqError st).done = some r' ∧
      (r'.Failed ↔ (c.cmd.isSome = true ∧ st.cmdError = true) ∨ (c.data = true ∧ st.dataError = true)) := by
  obtain ⟨hclean, hcmd, hdata⟩ := hf
  have hadma := markAdma_failed st hdata hclean
  have hdata' : c.data = true → (r.markAdma st c.data).data.isSome = true := by
    intro hout
    rw [(mark_frame r st c.data c.cmd).1.isSome]
    exact hdata hout
  have hcmd' : ∀ slot, c.cmd = some slot → (r.markAdma st c.data).Has slot := by
    intro slot hslot
    have hhas := hcmd slot hslot
    unfold Req.markAdma
    split
    · cases slot <;> exact hhas
    · exact hhas
  have hcommand := markCommand_failed st hcmd'
  have hdata'' : c.data = true → ((r.markAdma st c.data).markCommand st c.cmd).data.isSome = true := by
    intro hout
    rw [(mark_frame (r.markAdma st c.data) st c.data c.cmd).2.1.2]
    exact hdata' hout
  have hall := markData_failed st hdata''
  obtain ⟨r', he, -, hcase⟩ := irqError_some hr st
  refine ⟨r', by rw [he]; rfl, ?_⟩
  rcases hcase with ⟨rfl, htimeout, hout⟩ | rfl
  · -- a CMD12 that timed out: its own error is recorded
    rw [hcommand]
    have hbits : st.cmdError = true := by unfold IntStatus.cmdError; rw [htimeout]; rfl
    exact ⟨fun _ => Or.inl ⟨hout, hbits⟩, fun _ => Or.inr ⟨hout, hbits⟩⟩
  · have hbits : st.dataError = true ↔ st.admaError = true ∨
        (st.dataTimeoutErr || st.dataCrcErr || st.dataEndBitErr) = true := by
      unfold IntStatus.dataError
      rw [Bool.or_assoc, Bool.or_assoc, ← Bool.or_assoc st.dataTimeoutErr, Bool.or_eq_true]
    rw [hall, hcommand, hadma, hbits]
    constructor
    · rintro ((⟨hbit, hout⟩ | hcmd) | ⟨hout, hbit⟩)
      · exact Or.inr ⟨hout, Or.inl hbit⟩
      · exact Or.inl hcmd
      · exact Or.inr ⟨hout, Or.inr hbit⟩
    · rintro (hcmd | ⟨hout, hbit | hbit⟩)
      · exact Or.inl (Or.inr hcmd)
      · exact Or.inl (Or.inl ⟨hbit, hout⟩)
      · exact Or.inr ⟨hout, hbit⟩

/-! ## The command line that does not come free -/

/-- A request that was finished with an error, and nothing in progress. -/
def Ctl.FinishedFailed (c : Ctl) : Prop := c.req = none ∧ ∃ r, c.done = some r ∧ r.Failed

/-- **A send that times out** finishes the request with an error. -/
theorem sendCommand_timedOut {h : Host} (slot : Slot) (hr : h.ctl.req = some r) (hhas : r.Has slot)
    {env : SendEnv} (htimeout : env.timedOut (decide (slot = .cmd) && r.data.isSome) = true) :
    (h.sendCommand slot env).ctl.FinishedFailed := by
  obtain ⟨m, hm, rfl⟩ := Option.map_eq_some_iff.1 ((Host.ctl_req h).symm.trans hr)
  have hdata : (if slot = .cmd then m.data else none).isSome =
      (decide (slot = .cmd) && m.view.data.isSome) := by
    have hview : m.view.data.isSome = m.data.isSome := Option.isSome_map
    rw [hview]
    by_cases hs : slot = .cmd
    · simp [hs]
    · simp [hs]
  unfold Host.sendCommand
  rw [hm]
  simp only [hdata, htimeout, if_true]
  -- the phase change of a CMD6 is only register writes
  set h1 := (if (m.get slot).opcode = 6 ∧ (m.get slot).switchIndex = 185 then
      ((h.setCmd (some slot)).setTimingConfig 0 0 EMMC_BASE_CLK_CAL_PORT).writel .intStatus 0xFFFFFFFF
    else h.setCmd (some slot)) with hh1
  have hreq : h1.ctl.req = some m.view := by
    rw [Host.ctl_req, hh1]
    split <;> exact congrArg (Option.map MmcRequest.view) hm
  have he : (h1.modifyCmd slot fun k => { k with error := -ETIMEDOUT }).finishRequest.ctl =
      Ctl.finish { h1.ctl with req := some (m.view.modify slot fun k => { k with error := -ETIMEDOUT }) } := by
    rw [Host.finishRequest_ctl, Host.ctl_modifyCmd h1 slot (g := fun k => { k with error := -ETIMEDOUT })
      fun _ => rfl, hreq]
    rfl
  rw [he]
  exact ⟨rfl, _, rfl, failed_modify hhas (by decide)⟩

/-- What is finished stays so in the later stages of an interrupt. -/
theorem irqPio_finished {h : Host} (hf : h.ctl.FinishedFailed) (st : IntStatus) (env : PioEnv) :
    (h.irqPio st env).ctl.FinishedFailed := by
  obtain ⟨words, he⟩ := Host.irqPio_ctl h st env
  rw [he false .ok none false false, Ctl.irqPio_idle hf.1]
  exact hf

theorem irqPioEnd_finished {h : Host} (hf : h.ctl.FinishedFailed) (st : IntStatus) (env : SendEnv) :
    (h.irqPioEnd st env).ctl.FinishedFailed := by
  obtain ⟨stop, -, he⟩ := Host.irqPioEnd_ctl h st env
  rw [he false .ok none none false, Ctl.irqPioEnd_idle hf.1]
  exact hf

theorem irqXfer_finished {h : Host} (hf : h.ctl.FinishedFailed) (st : IntStatus) (env : SendEnv) :
    (h.irqXfer st env).ctl.FinishedFailed := by
  obtain ⟨xfer, -, he⟩ := Host.irqXfer_ctl h st env
  rw [he false .ok none none false, Ctl.irqXfer_idle hf.1]
  exact hf

/-- The stop command that times out. -/
theorem finishData_timedOut {h : Host} {env : SendEnv} (htimeout : h.stopTimesOut env = true) :
    (h.finishData env).ctl.FinishedFailed := by
  unfold Host.stopTimesOut at htimeout
  split at htimeout
  · rename_i m data hm hcur
    rw [Bool.and_eq_true, Bool.and_eq_true, decide_eq_true_eq] at htimeout
    obtain ⟨⟨hneed, herror⟩, hlate⟩ := htimeout
    have hstop : m.view.stop.isSome = true := by
      unfold needStopCommand at hneed
      rw [Bool.and_eq_true, Bool.and_eq_true] at hneed
      exact Option.isSome_map.trans hneed.1.2
    have hmod := Host.ctl_modifyData h (f := fun d =>
        { d with bytesXfered := if d.error = 0 then d.size else 0 })
      (g := fun d => { d with xfered := if d.error = 0 then d.size else 0 }) fun _ => rfl
    unfold Host.finishData
    rw [hm, hcur]
    simp only
    rw [if_pos ⟨hneed, herror⟩]
    refine sendCommand_timedOut .stop (r := m.view.modifyData fun d =>
      { d with xfered := if d.error = 0 then d.size else 0 }) ?_ hstop hlate
    rw [Host.ctl_setCmd, Host.ctl_emit, Host.ctl_setBytes, Host.ctl_setData, Host.ctl_cleanupDma, hmod,
      Host.ctl_req, hm]
    rfl
  · exact absurd htimeout (by simp)

/-- The main command after a CMD23 that times out. -/
theorem finishCommand_timedOut {h : Host} {env : CommandEnv}
    (htimeout : h.commandTimesOut env.send = true) : (h.finishCommand env).ctl.FinishedFailed := by
  unfold Host.commandTimesOut at htimeout
  rw [Bool.and_eq_true] at htimeout
  obtain ⟨hop, hlate⟩ := htimeout
  cases hm : h.mrq with
  | none => exact absurd hop (by simp [Host.curCmd, hm])
  | some m =>
    cases hc : h.cmd with
    | none => exact absurd hop (by simp [Host.curCmd, hm, hc])
    | some slot =>
      have h23 : (m.get slot).opcode = 23 := by simpa [Host.curCmd, hm, hc] using hop
      have hview : m.view.data.isSome = m.data.isSome := Option.isSome_map
      have hresp : ∀ c : MmcCommand, (c.readResponse env.resp).view = c.view := by
        intro c
        unfold MmcCommand.readResponse
        split
        · split <;> rfl
        · rfl
      have hmod := Host.ctl_modifyCmd h slot (g := fun c => c) hresp
      unfold Host.finishCommand
      rw [hm, hc]
      simp only
      rw [if_pos h23]
      refine sendCommand_timedOut .cmd (r := m.view) ?_ trivial ?_
      · rw [Host.ctl_setCmd, Host.ctl_emit, Host.ctl_finishSwitch, hmod, Host.ctl_req, hm]
        exact congrArg some (Req.modify_id m.view slot)
      · rw [decide_eq_true rfl, Bool.true_and, hview]
        rw [hm] at hlate
        exact hlate

/-- An interrupt in which a send times out. -/
theorem irqLocked_timedOut {h : Host} {st : IntStatus} {env : IrqEnv}
    (htimeout : h.irqTimesOut st env = true) : (h.irqLocked st env).ctl.FinishedFailed := by
  unfold Host.irqTimesOut at htimeout
  simp only [Bool.and_eq_true, Bool.or_eq_true, Bool.not_eq_true', beq_iff_eq] at htimeout
  obtain ⟨herror, hwhere⟩ := htimeout
  have hany : st.any = true := by
    unfold IntStatus.any
    rcases hwhere with (⟨hbit, -⟩ | ⟨⟨⟨⟨-, hbit | hbit⟩, -⟩, -⟩, -⟩) | ⟨hbit, -⟩ <;> simp [hbit]
  unfold Host.irqLocked
  simp only [hany, herror, Bool.not_true, Bool.false_eq_true, if_false]
  rcases hwhere with (⟨hbit, hlate⟩ | ⟨⟨⟨⟨hdma, hbits⟩, hdata⟩, hbytes⟩, hlate⟩) | ⟨hbit, hlate⟩
  · -- with the command completed
    refine irqXfer_finished (irqPioEnd_finished (irqPio_finished ?_ st env.pio) st env.stop) st env.stop
    unfold Host.irqCommand
    rw [if_pos hbit]
    exact finishCommand_timedOut hlate
  · -- with the last word moved
    refine irqXfer_finished ?_ st env.stop
    rw [Host.irqPioEnd, if_pos]
    · exact finishData_timedOut hlate
    · simp [hdma, hbits, hdata, hbytes]
  · -- with the transfer completed
    rw [Host.irqXfer, if_pos hbit]
    simp only
    refine finishData_timedOut ?_
    split <;> exact hlate

/-- A request whose first command times out. -/
theorem requestLocked_timedOut {h : Host} {m : MmcRequest} {env : SendEnv}
    (htimeout : m.timesOut env = true) : (h.requestLocked m env).ctl.FinishedFailed := by
  have hsbc : m.view.sbc.isSome = m.sbc.isSome := Option.isSome_map
  have hview : m.view.data.isSome = m.data.isSome := Option.isSome_map
  unfold MmcRequest.timesOut at htimeout
  unfold Host.requestLocked
  simp only
  split
  · rename_i hsome
    refine sendCommand_timedOut .sbc (r := m.view) rfl (hsbc.trans hsome) ?_
    rw [← Option.not_isSome, hsome] at htimeout
    exact htimeout
  · rename_i hnone
    refine sendCommand_timedOut .cmd (r := m.view) rfl trivial ?_
    rw [← Option.not_isSome, Bool.eq_false_iff.2 hnone] at htimeout
    rw [hview]
    exact htimeout

/-! ## The result -/

/-- **An error interrupt is reported iff its bits are those of what is out**, and a
timeout of the command line always, in every state of every run. -/
theorem error_reported_iff (hr : service.Reach (fun _ _ => True) h) (e : Entry) :
    ErrorReported h e ↔ Attributed h e := by
  have hs := reach_serviced hr
  cases e with
  | request m env =>
    refine ⟨fun _ => trivial, ?_⟩
    intro _ _ htimeout
    unfold Host.request
    split
    · -- no clock: the command fails at once
      exact ⟨_, rfl, Or.inr (Or.inl (show (-ENODEV) ≠ 0 by decide))⟩
    · obtain ⟨-, r, hdone, hfailed⟩ := requestLocked_timedOut (h := h) htimeout
      exact (reported_completePending hdone).2 hfailed
  | irq st env =>
    have hbranch : h.mrq.isSome = true → st.error = true → ((h.irq st env).Reported ↔
        (h.cmd.isSome = true ∧ st.cmdError = true) ∨ (h.data = true ∧ st.dataError = true)) := by
      intro hsome herror
      obtain ⟨m, hm⟩ := Option.isSome_iff_exists.1 hsome
      have hreq : h.ctl.req = some m.view := by rw [Host.ctl_req, hm]; rfl
      have hlocked : h.irqLocked st env = (h.emit (.ack st)).irqError st := by
        unfold Host.irqLocked IntStatus.any
        simp only [herror, Bool.true_or, Bool.not_true, Bool.false_eq_true, if_false, if_true]
      obtain ⟨r', hdone, hiff⟩ := irqError_failed hreq (hs.fits _ hreq) st
      have hctl : (h.irqLocked st env).ctl = h.ctl.irqError st := by
        rw [hlocked, Host.irqError_ctl]
        rfl
      unfold Host.irq
      rw [reported_completePending (by rw [hctl]; exact hdone), hiff]
      rfl
    constructor
    · intro hreported hsome herror
      exact (hbranch hsome herror).1 (hreported hsome (Or.inl herror))
    · rintro hattr hsome (herror | htimeout)
      · exact (hbranch hsome herror).2 (hattr hsome herror)
      · obtain ⟨-, r, hdone, hfailed⟩ := irqLocked_timedOut htimeout
        exact (reported_completePending hdone).2 hfailed

/-- A CMD13 that is not answered. -/
theorem error_reported_status :
    ∃ h, service.exec (.probed 0 (by decide)) [.request sendStatus readySend] = some h ∧
      (ErrorReported h (.irq { cmdTimeoutErr := true } readyIrq) ↔
        Attributed h (.irq { cmdTimeoutErr := true } readyIrq)) ∧
      (h.irq { cmdTimeoutErr := true } readyIrq).Reported := by
  have hrun : (service.exec (.probed 0 (by decide)) [.request sendStatus readySend]).map
      (fun h => (h.mrq.isSome, h.cmd)) = some (true, some .cmd) := by decide
  obtain ⟨h, hexec, hfields⟩ := Option.map_eq_some_iff.1 hrun
  obtain ⟨hmrq, hcmd⟩ := Prod.mk.inj hfields
  have hinit : service.init (.probed 0 (by decide)) := ⟨rfl, rfl⟩
  have hiff := error_reported_iff (.of_exec hinit (Machine.along_true _ _) hexec)
    (.irq { cmdTimeoutErr := true } readyIrq)
  have hattr : Attributed h (.irq { cmdTimeoutErr := true } readyIrq) :=
    fun _ _ => Or.inl ⟨by rw [hcmd]; rfl, rfl⟩
  exact ⟨h, hexec, hiff, hiff.2 hattr hmrq (Or.inl rfl)⟩

/-- A CMD38 (erase), whose response comes with a busy phase. -/
def eraseRequest : MmcRequest :=
  { id := 0, sbc := none
    cmd := { opcode := 38, arg := 0, flags := ⟨true, false, true, true, true⟩, resp := [], error := 0 }
    data := none, stop := none }

/-- **A busy phase that times out** ends the erase without an error. -/
theorem busy_timeout_lost :
    ∃ h, service.exec (.probed 0 (by decide)) [.request eraseRequest readySend] = some h ∧
      service.Reach (fun _ _ => True) h ∧ ¬ErrorReported h (.irq { dataTimeoutErr := true } readyIrq) := by
  have hrun : (service.exec (.probed 0 (by decide)) [.request eraseRequest readySend]).map (fun h =>
      (h.mrq.isSome, (h.irq { dataTimeoutErr := true } readyIrq).log.head?.bind Ev.mark)) =
        some (true, some (.requestDone ⟨0, none, ⟨38, 0⟩, none, none⟩)) := by decide
  obtain ⟨h, hexec, hfields⟩ := Option.map_eq_some_iff.1 hrun
  obtain ⟨hmrq, hlast⟩ := Prod.mk.inj hfields
  have hreach : service.Reach (fun _ _ => True) h :=
    .of_exec ⟨rfl, rfl⟩ (Machine.along_true _ _) hexec
  refine ⟨h, hexec, hreach, ?_⟩
  intro hreported
  obtain ⟨m, he, hfailed⟩ := hreported hmrq (Or.inl rfl)
  rw [he] at hlast
  have hview : m.view = ⟨0, none, ⟨38, 0⟩, none, none⟩ := Mark.requestDone.inj (Option.some.inj hlast)
  have hnot : ¬(⟨0, none, ⟨38, 0⟩, none, none⟩ : Req).Failed := by simp [Req.Failed]
  exact hnot (hview ▸ (view_failed m).2 hfailed)

end Br2Efinix.Emmc
