import Br2Efinix.Lib.Machine
import Br2Efinix.Emmc.Sequence

/-!
# The completion of requests

The driver under a stream of requests and interrupts, one lock holder after
another. Both `efx_emmc_request` and `efx_emmc_irq` end with
`efx_emmc_complete_pending_request`, outside the lock: such a tail first reads
`mrq_done` and later clears it and hands the request over, and other contexts run
in between.

An interrupt comes with the provenance of its completion bits, which the driver
does not see: the command and the transfer that the controller reports.

* `completion_of_expected`: in every run whose steps are `Expected`, each request is
  handed over once, is unmapped as often as it was mapped, and ends without error and
  with all bytes only on its own completions.
* `late_transfer_completes`: the `XFER_COMPLETE` of one request ends the next one.
-/

namespace Br2Efinix.Emmc

/-! ## The system -/

/-- The core clears the errors of a request, and nothing of it has been transferred. -/
def MmcRequest.issued (m : MmcRequest) (id : ℕ) : MmcRequest :=
  { id := id
    sbc := m.sbc.map fun c => { c with error := 0 }
    cmd := { m.cmd with error := 0 }
    data := m.data.map fun d => { d with error := 0, bytesXfered := 0 }
    stop := m.stop.map fun c => { c with error := 0 } }

/-- What the completion bits of a status report. -/
structure Provenance where
  command : Option (ℕ × Slot)
  transfer : Option ℕ
  deriving DecidableEq, Repr

/-- The host, the number of requests issued, the contexts that are past the unlock
(`some m`: with `m` read from `mrq_done`), the completions that have occurred, and
how many interrupts answered the request in progress. -/
structure Sys where
  host : Host
  issued : ℕ
  tails : List (Option MmcRequest)
  commands : List (ℕ × Slot)
  transfers : List ℕ
  answers : ℕ

inductive Act
  /-- `efx_emmc_request`, up to its unlock. -/
  | request (m : MmcRequest) (env : SendEnv)
  /-- `efx_emmc_irq`, up to its unlock. -/
  | irq (st : IntStatus) (env : IrqEnv) (prov : Provenance)
  /-- The next step of a context past its unlock. -/
  | tail (i : ℕ)

/-- A completion bit reports something that was sent. -/
def Provenance.real (prov : Provenance) (st : IntStatus) (log : List Mark) : Bool :=
  (!st.cmdComplete || (prov.command.map fun k => decide (k.2 ∈ sends k.1 log)).getD false) &&
    (!st.xferComplete || (prov.transfer.map fun id => decide (.cmd ∈ sends id log)).getD false)

namespace Sys

/-- The core issues a request when the one before has been handed back. -/
def request (s : Sys) (m : MmcRequest) (env : SendEnv) : Option Sys :=
  if s.issued = 0 ∨ 0 < doneCount (s.issued - 1) s.host.ctl.log then
    let m := m.issued s.issued
    let s := { s with issued := s.issued + 1, answers := 0 }
    if !s.host.clk then
      some { s with
        host := s.host.emit (.requestDone { m with cmd := { m.cmd with error := -ENODEV } }) }
    else some { s with host := s.host.requestLocked m env, tails := none :: s.tails }
  else none

def irq (s : Sys) (st : IntStatus) (env : IrqEnv) (prov : Provenance) : Option Sys :=
  if prov.real st s.host.ctl.log then
    some { s with
      host := s.host.irqLocked st env
      tails := none :: s.tails
      commands := if st.cmdComplete then prov.command.toList ++ s.commands else s.commands
      transfers := if st.xferComplete then prov.transfer.toList ++ s.transfers else s.transfers
      answers := s.answers + if Answers s.host.cmd st then 1 else 0 }
  else none

/-- `efx_emmc_complete_pending_request`, by its accesses of `mrq_done`. -/
def tail (s : Sys) (i : ℕ) : Option Sys :=
  match s.tails[i]? with
  | none => none
  | some none =>
    match s.host.mrqDone with
    | none => some { s with tails := s.tails.eraseIdx i }
    | some m => some { s with tails := s.tails.set i (some m) }
  | some (some m) =>
    some { s with
      host := (s.host.setMrqDone none).emit (.requestDone m)
      tails := s.tails.eraseIdx i }

def step (s : Sys) : Act → Option Sys
  | .request m env => s.request m env
  | .irq st env prov => s.irq st env prov
  | .tail i => s.tail i

/-- What has occurred of request `id`. -/
def ghost (s : Sys) (id : ℕ) : Ghost :=
  { clean := True, cmdSeen := (id, .cmd) ∈ s.commands, xferSeen := id ∈ s.transfers }

end Sys

/-- The system, from a host just probed. -/
def completion : Machine Sys Act :=
  { init := fun s => s.host.mrq = none ∧ s.host.mrqDone = none ∧ s.host.data = false ∧
      s.host.useDma = false ∧ s.host.log = [] ∧ s.issued = 0 ∧ s.tails = [] ∧ s.commands = [] ∧
      s.transfers = [] ∧ s.answers = 0
    step := Sys.step }

/-! ## The property -/

/-- What is asked of request `id`. -/
structure Completes (s : Sys) (id : ℕ) : Prop where
  /-- Handed over at most once, and until then in the host's hands. -/
  once : doneCount id s.host.ctl.log ≤ 1
  held : doneCount id s.host.ctl.log = 0 → (∃ m, s.host.mrq = some m ∧ m.id = id) ∨
    ∃ m, s.host.mrqDone = some m ∧ m.id = id ∧ s.tails ≠ []
  /-- Mapped at most once, and unmapped as often when it is handed over. -/
  mapped : mapCount id s.host.ctl.log ≤ 1 ∧ unmapCount id s.host.ctl.log ≤ mapCount id s.host.ctl.log
  unmapped : doneCount id s.host.ctl.log = 1 →
    unmapCount id s.host.ctl.log = mapCount id s.host.ctl.log
  /-- A success rests on the request's own completions. -/
  evidence : ∀ r, .requestDone r ∈ s.host.ctl.log → r.id = id → Succeeded r →
    Evidence (s.ghost id) r s.host.ctl.log

/-- Every request issued so far completes, and four answers end the one in progress. -/
def AllComplete (s : Sys) : Prop :=
  (∀ id < s.issued, Completes s id) ∧ (4 ≤ s.answers → s.host.mrq = none)

/-! ## The condition -/

/-- The transfer that `efx_emmc_finish_command` makes after the main command. -/
def Host.earlyPio (h : Host) (env : CommandEnv) : Host :=
  match h.curData with
  | none => h
  | some data =>
    if h.useDma then h
    else if data.read then if env.present.bufferReadEn then h.transferPio env.pio else h
    else if env.present.bufferWriteEn then h.transferPio env.pio else h

/-- The bytes left after the programmed transfers of an interrupt. -/
def Host.left (h : Host) (st : IntStatus) (env : IrqEnv) : ℕ :=
  ((if st.cmdComplete && h.cmd.isSome then h.earlyPio env.command else h).irqPio st env.pio).bytesToTransfer

/-- An interrupt whose bits are what the driver takes them for. -/
structure Awaited (h : Host) (m : MmcRequest) (st : IntStatus) (env : IrqEnv) (prov : Provenance) :
    Prop where
  /-- The completion is that of the command out, and only an `sbc` is a CMD23. -/
  command : st.error = false → st.cmdComplete = true → ∀ slot, h.cmd = some slot →
    prov.command = some (m.id, slot) ∧
      (slot ≠ .sbc → (m.get slot).opcode ≠ 23) ∧
      (slot = .sbc → (m.get slot).opcode = 23 ∨ ∃ d, m.data = some d ∧ d.size ≠ 0)
  /-- With the `sbc` no bit of the data comes, before the main command's completion
  the data do not end. -/
  early : st.error = false → m.data.isSome = true →
    (h.cmd = some .sbc → st.cmdComplete = true →
      st.xferComplete = false ∧ (st.bufferReadRdy || st.bufferWriteRdy) = false) ∧
    (h.cmd = some .cmd → st.cmdComplete = false →
      st.xferComplete = false ∧
        (h.useDma = false → (st.bufferReadRdy || st.bufferWriteRdy) = true → h.left st env ≠ 0))
  /-- The end of the transfer is the request's own, or comes when no byte is left. -/
  transfer : st.error = false → st.xferComplete = true → h.data = true →
    (h.useDma = true → prov.transfer = some m.id) ∧ (h.useDma = false → h.left st env = 0)
  /-- With only a command out, an error is the command's. -/
  error : st.error = true → (h.cmd = some .sbc ∨ h.cmd = some .cmd) →
    (∀ d, m.data = some d → d.size = 0) → st.cmdError = true

/-- The steps that the driver is ready for: awaited interrupts, and a tail that reads
a request while no other tail holds one. -/
def Expected (s : Sys) : Act → Prop
  | .request _ _ => True
  | .irq st env prov => ∀ m, s.host.mrq = some m → Awaited s.host m st env prov
  | .tail i => s.tails[i]? = some none → s.host.mrqDone.isSome = true → ∀ t ∈ s.tails, t = none

/-! ## What the transfers of an interrupt see -/

/-- Two hosts with the same data in the same place. -/
structure SameData (h k : Host) : Prop where
  data : h.curData = k.curData
  dma : h.useDma = k.useDma
  offset : h.sgOffset = k.sgOffset
  bytes : h.bytesToTransfer = k.bytesToTransfer

theorem SameData.trans {h k g : Host} (h₁ : SameData h k) (h₂ : SameData k g) : SameData h g :=
  ⟨h₁.data.trans h₂.data, h₁.dma.trans h₂.dma, h₁.offset.trans h₂.offset, h₁.bytes.trans h₂.bytes⟩

theorem emit_same (h : Host) (e : Ev) : SameData (h.emit e) h := ⟨rfl, rfl, rfl, rfl⟩

/-- The phase change of a mode switch is register writes. -/
theorem finishSwitch_same (h : Host) (cmd : MmcCommand) : SameData (h.finishSwitch cmd) h := by
  have htiming : ∀ s p k, SameData (h.setTimingConfig s p k) h := by
    intro s p k
    unfold Host.setTimingConfig
    exact ((emit_same _ _).trans (emit_same _ _)).trans (emit_same _ _)
  unfold Host.finishSwitch
  split
  · refine (emit_same _ _).trans ?_
    split
    · exact htiming _ _ _
    · split
      · exact htiming _ _ _
      · exact ⟨rfl, rfl, rfl, rfl⟩
  · exact ⟨rfl, rfl, rfl, rfl⟩

theorem curData_modifyData (h : Host) (f : MmcData → MmcData) :
    (h.modifyData f).curData = h.curData.map f := by
  unfold Host.modifyData Host.curData Host.setMrq
  simp only
  split
  · cases h.mrq with
    | none => rfl
    | some m => rfl
  · rfl

theorem transferPioDir_same {h k : Host} (hs : SameData h k) (read : Bool) (port : ℕ → UInt32) :
    SameData (h.transferPioDir read port) (k.transferPioDir read port) := by
  unfold Host.transferPioDir
  rw [hs.data]
  cases hd : k.curData with
  | none => exact hs
  | some d =>
    simp only
    split
    · exact hs
    · rw [hs.offset, hs.bytes]
      refine ⟨?_, hs.dma, rfl, rfl⟩
      have hl := curData_modifyData h fun e => { e with
        sg := (pioLoop read port (d.blksz / 4) (d.blksz / 4)
          ⟨d.sg, 0, k.sgOffset, 0, k.bytesToTransfer, []⟩).sg }
      have hr := curData_modifyData k fun e => { e with
        sg := (pioLoop read port (d.blksz / 4) (d.blksz / 4)
          ⟨d.sg, 0, k.sgOffset, 0, k.bytesToTransfer, []⟩).sg }
      rw [hs.data] at hl
      exact hl.trans hr.symm

theorem transferPio_same {h k : Host} (hs : SameData h k) (env : PioEnv) :
    SameData (h.transferPio env) (k.transferPio env) := by
  unfold Host.transferPio
  rw [hs.data]
  cases k.curData with
  | none => exact hs
  | some d =>
    simp only
    split
    · split
      · exact transferPioDir_same hs true env.port
      · exact hs
    · split
      · exact transferPioDir_same hs false env.port
      · exact hs

theorem irqPio_same {h k : Host} (hs : SameData h k) (st : IntStatus) (env : PioEnv) :
    SameData (h.irqPio st env) (k.irqPio st env) := by
  unfold Host.irqPio
  rw [hs.dma]
  split
  · exact transferPio_same hs env
  · exact hs

theorem earlyPio_same {h k : Host} (hs : SameData h k) (env : CommandEnv) :
    SameData (h.earlyPio env) (k.earlyPio env) := by
  unfold Host.earlyPio
  rw [hs.data, hs.dma]
  cases k.curData with
  | none => exact hs
  | some d =>
    simp only
    split
    · exact hs
    · split
      · split
        · exact transferPio_same hs env.pio
        · exact hs
      · split
        · exact transferPio_same hs env.pio
        · exact hs

theorem transferPio_dma (h : Host) (env : PioEnv) : (h.transferPio env).useDma = h.useDma := by
  obtain ⟨words, he⟩ := h.transferPio_ctl env
  have hpio : ∀ c : Ctl, (c.pio words).dma = c.dma := by
    intro c
    cases words with
    | none => rfl
    | some w => unfold Ctl.pio; simp only; split <;> rfl
  exact (congrArg Ctl.dma he).trans (hpio h.ctl)

theorem irqPio_dma (h : Host) (st : IntStatus) (env : PioEnv) :
    (h.irqPio st env).useDma = h.useDma := by
  unfold Host.irqPio
  split
  · exact transferPio_dma h env
  · rfl

theorem earlyPio_dma (h : Host) (env : CommandEnv) : (h.earlyPio env).useDma = h.useDma := by
  unfold Host.earlyPio
  cases h.curData with
  | none => rfl
  | some d =>
    simp only
    split
    · rfl
    · split
      · split
        · exact transferPio_dma h env.pio
        · rfl
      · split
        · exact transferPio_dma h env.pio
        · rfl

/-- With its data out, the main command's completion makes the early transfer and
nothing else that the transfers see. -/
theorem finishCommand_early {h : Host} {m : MmcRequest} (hm : h.mrq = some m)
    (hc : h.cmd = some .cmd) (hop : (m.get .cmd).opcode ≠ 23) (hd : h.curData.isSome = true)
    (env : CommandEnv) : SameData (h.finishCommand env) (h.earlyPio env) := by
  set k := (((h.modifyCmd .cmd fun c => c.readResponse env.resp).finishSwitch (m.get .cmd)).emit
    (.cmdDone m.id .cmd (m.get .cmd).error)).setCmd none with hk
  have hmod : (h.modifyCmd .cmd fun c => c.readResponse env.resp).curData = h.curData := by
    unfold Host.modifyCmd Host.curData Host.setMrq
    simp only [hm]
    split <;> rfl
  have hset : SameData k ((h.modifyCmd .cmd fun c => c.readResponse env.resp).finishSwitch
      (m.get .cmd)) := ⟨rfl, rfl, rfl, rfl⟩
  have hresp : SameData (h.modifyCmd .cmd fun c => c.readResponse env.resp) h :=
    ⟨hmod, rfl, rfl, rfl⟩
  have hsame : SameData k h := (hset.trans (finishSwitch_same _ _)).trans hresp
  have heq : h.finishCommand env = k.earlyPio env := by
    obtain ⟨d, hd⟩ := Option.isSome_iff_exists.1 hd
    have hkd : k.curData = some d := hsame.data.trans hd
    unfold Host.finishCommand Host.earlyPio
    rw [hm, hc]
    simp only
    rw [if_neg hop, ← hk, hkd]
  rw [heq]
  exact earlyPio_same hsame env

/-! ## Awaited interrupts are clean -/

variable {r₀ : Req} {base : List Mark} {E : Ghost}

/-- The request of the host, while it is served. -/
theorem phase_request {h : Host} {m : MmcRequest} (hm : h.mrq = some m) {p : Phase}
    (hp : InPhase r₀ base E h.ctl p) :
    m.id = r₀.id ∧ (∀ slot, (r₀.get slot).opcode = (m.get slot).opcode) ∧
      (p ≠ .stop → m.view = r₀) := by
  have hreq : h.ctl.req = some m.view := by rw [Host.ctl_req, hm]; rfl
  have hview : ∀ slot, (m.view.get slot).opcode = (m.get slot).opcode := by
    intro slot; rw [view_get]; rfl
  have hkey : m.view = r₀ ∨ (m.view = r₀.transferred ∧ p = .stop) := by
    cases hp with
    | sbc _ req => exact Or.inl (Option.some.inj (hreq.symm.trans req))
    | cmd _ req => exact Or.inl (Option.some.inj (hreq.symm.trans req))
    | data _ req => exact Or.inl (Option.some.inj (hreq.symm.trans req))
    | stop _ req => exact Or.inr ⟨Option.some.inj (hreq.symm.trans req), rfl⟩
    | finished _ req => rw [hreq] at req; exact absurd req (by simp)
  rcases hkey with rfl | ⟨heq, rfl⟩
  · exact ⟨rfl, hview, fun _ => rfl⟩
  · have hget : ∀ slot, r₀.get slot = m.view.get slot := by
      intro slot; rw [heq]; cases slot <;> rfl
    refine ⟨?_, fun slot => by rw [hget, hview], fun h => absurd rfl h⟩
    have hid := congrArg Req.id heq
    exact hid

/-- Without a command the command's stage finds nothing to do. -/
theorem irqCommand_none {h : Host} (hc : h.cmd = none) (st : IntStatus) (env : CommandEnv) :
    h.irqCommand st env = h := by
  unfold Host.irqCommand Host.finishCommand
  rw [hc]
  split
  · cases h.mrq <;> rfl
  · rfl

/-- The command's and the transfer's stages of the handler, once it has written the
status back. -/
def Host.moved (h : Host) (st : IntStatus) (env : IrqEnv) : Host :=
  ((h.emit (.ack st)).irqCommand st env.command).irqPio st env.pio

/-- Where no command is out or the main command completes, what is left is known
beforehand. -/
theorem moved_left {h : Host} {m : MmcRequest} (hm : h.mrq = some m) (st : IntStatus) (env : IrqEnv)
    (hcmd : st.cmdComplete = true → h.cmd = none ∨
      (h.cmd = some .cmd ∧ (m.get .cmd).opcode ≠ 23 ∧ h.curData.isSome = true)) :
    (h.moved st env).useDma = h.useDma ∧ (h.moved st env).bytesToTransfer = h.left st env := by
  have hack := emit_same h (.ack st)
  cases hcc : st.cmdComplete with
  | false =>
    have hmoved : h.moved st env = (h.emit (.ack st)).irqPio st env.pio := by
      unfold Host.moved Host.irqCommand
      rw [hcc]
      rfl
    have hs := irqPio_same hack st env.pio
    rw [hmoved]
    refine ⟨hs.dma.trans (irqPio_dma h st env.pio), ?_⟩
    unfold Host.left
    rw [hcc]
    exact hs.bytes
  | true =>
    rcases hcmd hcc with hc | ⟨hc, hop, hd⟩
    · have hmoved : h.moved st env = (h.emit (.ack st)).irqPio st env.pio := by
        unfold Host.moved
        rw [irqCommand_none (h := h.emit (.ack st)) hc]
      have hs := irqPio_same hack st env.pio
      rw [hmoved]
      refine ⟨hs.dma.trans (irqPio_dma h st env.pio), ?_⟩
      unfold Host.left
      rw [hcc, hc]
      exact hs.bytes
    · have hearly := finishCommand_early (h := h.emit (.ack st)) hm hc hop hd env.command
      have hs := irqPio_same (hearly.trans (earlyPio_same hack env.command)) st env.pio
      have hmoved : h.moved st env =
          ((h.emit (.ack st)).finishCommand env.command).irqPio st env.pio := by
        unfold Host.moved Host.irqCommand
        rw [hcc]
        rfl
      rw [hmoved]
      refine ⟨hs.dma.trans ((irqPio_dma _ st env.pio).trans (earlyPio_dma h env.command)), ?_⟩
      unfold Host.left
      rw [hcc, hc]
      exact hs.bytes

/-- What an awaited interrupt meets once its transfers are made: the data phase, if
a bit of the status is about to end the data. -/
theorem awaited_stage {h : Host} {m : MmcRequest} (hm : h.mrq = some m)
    {p p₁ : Phase} (hp : InPhase r₀ base E h.ctl p) {st : IntStatus} {env : IrqEnv}
    {prov : Provenance} (ha : Awaited h m st env prov) (herr : st.error = false)
    (h₂ : InPhase r₀ base E (h.moved st env).ctl p₁) (hle : p₁.rank ≤ p.rank)
    (hlt : h.cmd.isSome = true → st.cmdComplete = true → p₁.rank < p.rank)
    (hout : (h.moved st env).ctl.curData.isSome = true) :
    (st.xferComplete = true → p₁ = .data ∧ h.data = true ∧ (h.moved st env).useDma = h.useDma ∧
        (h.moved st env).bytesToTransfer = h.left st env) ∧
      ((h.moved st env).useDma = false → (st.bufferReadRdy || st.bufferWriteRdy) = true →
        (h.moved st env).bytesToTransfer = 0 → p₁ = .data) := by
  obtain ⟨hid, hop, hview⟩ := phase_request hm hp
  obtain ⟨hp₁, -, -, -, hsome, -⟩ := data_out h₂ hout
  have hmd : p ≠ .stop → m.data.isSome = true := by
    intro hne
    have heq := hview hne
    rw [← heq] at hsome
    simpa [MmcRequest.view] using hsome
  -- without a completion the command's stage changes nothing
  have hidle : st.cmdComplete = false → ∀ q, InPhase r₀ base E h.ctl q →
      InPhase r₀ base E (h.moved st env).ctl q := by
    intro hcc q hq
    obtain ⟨words, he⟩ := (h.emit (.ack st)).irqPio_ctl st env.pio
    have hmoved : (h.moved st env).ctl = h.ctl.irqPio st ⟨false, .ok, none, words, false, false⟩ := by
      unfold Host.moved Host.irqCommand
      rw [hcc]
      exact he _ _ _ _ _
    rw [hmoved]
    exact irqPio_phase hq st _
  cases hp with
  | sbc books req done cmd data dma has sends maps words =>
    obtain ⟨hearly, -⟩ := ha.early herr (hmd (by decide))
    cases hcc : st.cmdComplete with
    | true =>
      obtain ⟨hx, hb⟩ := hearly cmd hcc
      rw [hx, hb]
      exact ⟨fun h => absurd h (by simp), fun _ h => absurd h (by simp)⟩
    | false =>
      have hsbc := hidle hcc .sbc (.sbc books req done cmd data dma has sends maps words)
      rcases (data_out hsbc hout).1 with h | h
      · exact absurd h (by decide)
      · exact absurd h (by decide)
  | cmd books req done cmd data dbooks =>
    obtain ⟨-, hearly⟩ := ha.early herr (hmd (by decide))
    have hd : h.data = true := data.trans hsome
    cases hcc : st.cmdComplete with
    | true =>
      have hrank := hlt (by rw [show h.cmd = some .cmd from cmd]; rfl) hcc
      have hdata : p₁ = .data := by
        rcases hp₁ with rfl | rfl
        · exact absurd hrank (by decide)
        · rfl
      have hcur : h.curData.isSome = true := by
        have hmsome := hmd (by decide)
        unfold Host.curData
        rw [hd, hm]
        exact hmsome
      obtain ⟨-, hne, -⟩ := ha.command herr hcc .cmd cmd
      obtain ⟨h1, h2⟩ := moved_left hm st env fun _ => Or.inr ⟨cmd, hne (by decide), hcur⟩
      exact ⟨fun _ => ⟨hdata, hd, h1, h2⟩, fun _ _ _ => hdata⟩
    | false =>
      obtain ⟨hx, hb⟩ := hearly cmd hcc
      have hleft := moved_left hm st env fun h => absurd h (by rw [hcc]; simp)
      refine ⟨fun h => absurd h (by rw [hx]; simp), fun hdma hbits hzero => ?_⟩
      rw [hleft.1] at hdma
      rw [hleft.2] at hzero
      exact absurd hzero (hb hdma hbits)
  | data books req done cmd data has dbooks seen =>
    have hdata : p₁ = .data := by
      rcases hp₁ with rfl | rfl
      · exact absurd hle (by decide)
      · rfl
    obtain ⟨h1, h2⟩ := moved_left hm st env fun _ => Or.inl cmd
    exact ⟨fun _ => ⟨hdata, data, h1, h2⟩, fun _ _ _ => hdata⟩
  | stop =>
    rcases hp₁ with rfl | rfl
    · exact absurd hle (by decide)
    · exact absurd hle (by decide)
  | finished =>
    rcases hp₁ with rfl | rfl
    · exact absurd hle (by decide)
    · exact absurd hle (by decide)

/-- **An awaited interrupt** moves the request on as its own completions do. -/
theorem awaited_phase (hfresh : Fresh r₀) (hunmoved : Unmoved r₀) {h : Host} {m : MmcRequest}
    (hm : h.mrq = some m) {p : Phase} (hp : InPhase r₀ base E h.ctl p) {st : IntStatus} {env : IrqEnv}
    {prov : Provenance} (ha : Awaited h m st env prov)
    (hcmd : st.cmdComplete = true → prov.command = some (r₀.id, .cmd) → E.cmdSeen)
    (hxfer : st.xferComplete = true → prov.transfer = some r₀.id → E.xferSeen) :
    ∃ p', InPhase r₀ base E (h.irqLocked st env).ctl p' ∧ p'.rank ≤ p.rank ∧
      (Answers h.cmd st → p ≠ .finished → p'.rank < p.rank) := by
  obtain ⟨hid, hop, hview⟩ := phase_request hm hp
  have h23 : st.error = false → st.cmdComplete = true → ∀ slot, h.ctl.cmd = some slot →
      slot ≠ .sbc → (r₀.get slot).opcode ≠ 23 := by
    intro herr hcc slot hs hne
    obtain ⟨-, h1, -⟩ := ha.command herr hcc slot hs
    rw [hop]
    exact h1 hne
  have hseen : st.error = false → st.cmdComplete = true → h.ctl.cmd = some .cmd → E.cmdSeen := by
    intro herr hcc hs
    obtain ⟨h1, -, -⟩ := ha.command herr hcc .cmd hs
    rw [hid] at h1
    exact hcmd hcc h1
  -- a request of which only a command is out is the one handed over
  have hout : (h.ctl.cmd = some .sbc ∨ h.ctl.cmd = some .cmd) → m.view = r₀ := by
    intro hs
    refine hview ?_
    rintro rfl
    cases hp with
    | stop _ _ _ cmd =>
      rw [cmd] at hs
      rcases hs with hs | hs <;> exact absurd hs (by simp)
  have hdata : ∀ d, m.view.data = some d → ∃ e, m.data = some e ∧ e.size = d.size := by
    intro d hd
    obtain ⟨e, he, rfl⟩ := Option.map_eq_some_iff.1 hd
    exact ⟨e, he, rfl⟩
  have hsbc : st.error = false → st.cmdComplete = true → h.ctl.cmd = some .sbc →
      (r₀.get .sbc).opcode ≠ 23 → ∃ d, r₀.data = some d ∧ d.size ≠ 0 := by
    intro herr hcc hs hne
    obtain ⟨-, -, h1⟩ := ha.command herr hcc .sbc hs
    rcases h1 rfl with h1 | ⟨d, hd, hsize⟩
    · rw [hop] at hne
      exact absurd h1 hne
    · refine ⟨d.view, ?_, hsize⟩
      rw [← hout (Or.inl hs)]
      exact congrArg (Option.map MmcData.view) hd
  have hsbc' : st.error = false → st.cmdComplete = true → h.ctl.cmd = some .sbc →
      (r₀.get .sbc).opcode ≠ 23 → ¬Succeeded r₀ := by
    intro herr hcc hs hne hsucc
    obtain ⟨d, hd, hsize⟩ := hsbc herr hcc hs hne
    have hall := (hsucc.2.2 d hd).2
    rw [hunmoved d hd] at hall
    exact hsize hall.symm
  have herror : st.error = true → h.ctl.data = false →
      (h.ctl.cmd = some .sbc ∨ h.ctl.cmd = some .cmd) →
      (∀ d, r₀.data = some d → d.size = 0) → st.cmdError = true := by
    intro herr _ hs hsize
    refine ha.error herr hs fun d hd => hsize d.view ?_
    rw [← hout hs]
    exact congrArg (Option.map MmcData.view) hd
  obtain ⟨env', -, h2, he⟩ := h.irqLocked_stages_ctl st env
  have hmoved : (h.moved st env).ctl = (h.ctl.irqCommand st env').irqPio st env' := h2
  rw [he]
  refine irqLocked_phase hfresh hp st env' h23 fun _ => ⟨hunmoved, herror, hsbc, hseen, ?_, ?_⟩
  · intro herr c' hc' hcur hdma hbits hzero
    rw [← hmoved] at hc'
    subst hc'
    obtain ⟨p₁, h₁, hle, hlt⟩ := irqCommand_phase hfresh hp (h23 herr) (fun _ => hsbc' herr)
      (fun _ => hseen herr) env'
    have h₂ := irqPio_phase h₁ st env'
    rw [← hmoved] at h₂
    obtain ⟨-, hkey⟩ := awaited_stage hm hp ha herr h₂ hle hlt hcur
    obtain rfl := hkey hdma hbits hzero
    cases h₂ with
    | data _ _ _ cmd => exact cmd
  · intro herr hx c' hc' hcur
    obtain ⟨p₁, h₁, hle, hlt⟩ := irqCommand_phase hfresh hp (h23 herr) (fun _ => hsbc' herr)
      (fun _ => hseen herr) env'
    have h₂ := irqPio_phase h₁ st env'
    rw [← hmoved] at hc' h₂
    -- the transfer's end has left the data out
    have hsame : c' = (h.moved st env).ctl := by
      rw [hc'] at hcur ⊢
      unfold Ctl.irqPioEnd at hcur ⊢
      split at hcur
      · rw [curData_finishData] at hcur
        exact absurd hcur (by simp)
      · rename_i hcond
        rw [if_neg hcond]
    subst hsame
    obtain ⟨hkey, -⟩ := awaited_stage hm hp ha herr h₂ hle hlt hcur
    obtain ⟨rfl, hd, hdma, hbytes⟩ := hkey hx
    obtain ⟨h3, h4⟩ := ha.transfer herr hx hd
    refine ⟨?_, ?_, ?_⟩
    · cases h₂ with
      | data _ _ _ cmd => exact cmd
    · intro hu
      have hu' : (h.moved st env).useDma = true := hu
      rw [hdma] at hu'
      have hprov := h3 hu'
      rw [hid] at hprov
      exact hxfer hx hprov
    · intro hu
      have hu' : (h.moved st env).useDma = false := hu
      rw [hdma] at hu'
      exact hbytes.trans (h4 hu')

/-! ## Settled requests -/

variable {G G' : ℕ → Ghost} {c : Ctl} {log : List Mark} {id : ℕ}

/-- More completions have occurred. -/
def Ghost.le (E E' : Ghost) : Prop :=
  (E'.clean → E.clean) ∧ (E.cmdSeen → E'.cmdSeen) ∧ (E.xferSeen → E'.xferSeen)

theorem evidence_mono {E E' : Ghost} (hle : E.le E') {r : Req} (h : Evidence E r log) :
    Evidence E' r log := by
  obtain ⟨hcmd, hdata⟩ := h
  refine ⟨hle.2.1 hcmd, ?_⟩
  intro d hd
  have hsize := hdata d hd
  split at hsize
  · rename_i hs
    rw [if_pos hs]
    exact hle.2.2 hsize
  · rename_i hs
    rw [if_neg hs]
    exact hsize

theorem phase_mono {E E' : Ghost} (hle : E.le E') {p : Phase} (h : InPhase r₀ base E c p) :
    InPhase r₀ base E' c p := by
  cases h with
  | sbc books req done cmd data dma has sends maps words =>
    exact .sbc books req done cmd data dma has sends maps words
  | cmd books req done cmd data dbooks => exact .cmd books req done cmd data dbooks
  | data books req done cmd data has dbooks seen =>
    exact .data books req done cmd data has dbooks fun hc => hle.2.1 (seen (hle.1 hc))
  | stop books req done cmd data need sends maps evidence =>
    exact .stop books req done cmd data need sends maps fun hc =>
      evidence_mono hle (evidence (hle.1 hc))
  | finished books req cmd data dma r done same maps evidence =>
    exact .finished books req cmd data dma r done same maps fun hc hs =>
      evidence_mono hle (evidence (hle.1 hc) hs)

/-- Evidence depends on the size of the data and on the request's own marks. -/
theorem evidence_same {E : Ghost} {r : Req} (hsame : r.Same r₀) (h : Evidence E r₀ log) :
    Evidence E r log := by
  obtain ⟨hid, hsize⟩ := hsame
  obtain ⟨hcmd, hdata⟩ := h
  refine ⟨hcmd, ?_⟩
  intro d hd
  rw [hd] at hsize
  obtain ⟨d₀, hd₀, heq⟩ := Option.map_eq_some_iff.1 hsize.symm
  have h₀ := hdata d₀ hd₀
  rw [hid, ← heq]
  exact h₀

/-- What is left to say about a request that has been handed over. -/
structure Settled (G : ℕ → Ghost) (log : List Mark) (id : ℕ) : Prop where
  done : doneCount id log = 1
  maps : unmapCount id log = mapCount id log ∧ mapCount id log ≤ 1
  evidence : ∀ r, .requestDone r ∈ log → r.id = id → Succeeded r → Evidence (G id) r log

theorem settled_mono (hle : ∀ i, (G i).le (G' i)) (h : Settled G log id) : Settled G' log id :=
  ⟨h.done, h.maps, fun r hr hid hs => evidence_mono (hle id) (h.evidence r hr hid hs)⟩

/-- What the log says about a request. -/
def own (id : ℕ) (log : List Mark) : List Mark := log.filter fun k => k.id = id

theorem mem_own {k : Mark} (hk : k.id = id) : k ∈ own id log ↔ k ∈ log := by
  unfold own
  rw [List.mem_filter]
  exact ⟨fun h => h.1, fun h => ⟨h, by simpa using hk⟩⟩

theorem own_counts (id : ℕ) (log : List Mark) :
    mapCount id (own id log) = mapCount id log ∧ unmapCount id (own id log) = unmapCount id log ∧
      pioWords id (own id log) = pioWords id log ∧ doneCount id (own id log) = doneCount id log := by
  have hweight : ∀ k : Mark, decide (k.id = id) = false → k.id ≠ id := by
    intro k hk; simpa using hk
  exact ⟨tally_filter (fun k hk => (weight_other (hweight k hk)).1) log,
    tally_filter (fun k hk => (weight_other (hweight k hk)).2.1) log,
    tally_filter (fun k hk => (weight_other (hweight k hk)).2.2.1) log,
    tally_filter (fun k hk => (weight_other (hweight k hk)).2.2.2) log⟩

/-- Only the marks of the request matter. -/
theorem settled_own {log' : List Mark} (heq : own id log = own id log') (h : Settled G log id) :
    Settled G log' id := by
  obtain ⟨m1, u1, w1, d1⟩ := own_counts id log
  obtain ⟨m2, u2, w2, d2⟩ := own_counts id log'
  rw [heq] at m1 u1 w1 d1
  obtain ⟨hdone, hmaps, hev⟩ := h
  rw [← d1, d2] at hdone
  rw [← m1, ← u1, m2, u2] at hmaps
  have hmem : ∀ k : Mark, k.id = id → (k ∈ log ↔ k ∈ log') := by
    intro k hk
    rw [← mem_own hk, heq, mem_own hk]
  refine ⟨hdone, hmaps, ?_⟩
  intro r hr hid hs
  obtain ⟨hcmd, hdata⟩ := hev r ((hmem (.requestDone r) hid).2 hr) hid hs
  refine ⟨hcmd, ?_⟩
  intro d hd
  have hsize := hdata d hd
  have hsent : dmaSent r.id log ↔ dmaSent r.id log' := hmem (.send r.id .cmd true) hid
  rw [hid] at hsent hsize ⊢
  rw [← w1, w2] at hsize
  by_cases hs : dmaSent id log'
  · rw [if_pos hs]
    rwa [if_pos (hsent.2 hs)] at hsize
  · rw [if_neg hs]
    rwa [if_neg fun h => hs (hsent.1 h)] at hsize

theorem settled_others {id₀ : ℕ} (hne : id ≠ id₀) (h : Settled G (others id₀ log) id) :
    Settled G log id := by
  refine settled_own ?_ h
  unfold own others
  rw [List.filter_filter]
  refine List.filter_congr ?_
  intro k _
  by_cases hk : k.id = id
  · simp [hk, hne]
  · simp [hk]

theorem settled_cons {k : Mark} (hk : k.id ≠ id) (h : Settled G log id) : Settled G (k :: log) id := by
  refine settled_own ?_ h
  unfold own
  rw [List.filter_cons_of_neg (by simpa using hk)]

/-- A request that has not been handed over has no mark of it. -/
theorem not_done {r : Req} (hd : doneCount id log = 0) (hr : .requestDone r ∈ log) : r.id ≠ id := by
  intro hid
  induction log with
  | nil => exact absurd hr (by simp)
  | cons k log ih =>
    unfold doneCount at hd ih
    rw [tally_cons] at hd
    rcases List.mem_cons.1 hr with rfl | hr
    · simp [hid] at hd
    · exact ih (by omega) hr

/-- A request is handed over. -/
theorem settled_done {r : Req} (hid : r.id = id) (hd : doneCount id log = 0)
    (hm : unmapCount id log = mapCount id log ∧ mapCount id log ≤ 1)
    (hev : Succeeded r → Evidence (G id) r log) : Settled G (.requestDone r :: log) id := by
  have hdone : doneCount id (.requestDone r :: log) = 1 + doneCount id log := by
    simp [doneCount, hid]
  have hmap : mapCount id (.requestDone r :: log) = mapCount id log := by simp [mapCount]
  have hunmap : unmapCount id (.requestDone r :: log) = unmapCount id log := by simp [unmapCount]
  refine ⟨by rw [hdone, hd], by rw [hmap, hunmap]; exact hm, fun q hq hqid hs => ?_⟩
  rcases List.mem_cons.1 hq with heq | hq
  · obtain rfl := Mark.requestDone.inj heq
    obtain ⟨hcmd, hdata⟩ := hev hs
    refine ⟨hcmd, ?_⟩
    intro d hdd
    have hsize := hdata d hdd
    simpa [dmaSent, pioWords] using hsize
  · exact absurd hqid (not_done hd hq)

/-! ## The invariant -/

/-- At most one context holds a request. -/
def OneHolder (tails : List (Option MmcRequest)) : Prop :=
  ∀ (i j : ℕ) (m n : MmcRequest), tails[i]? = some (some m) → tails[j]? = some (some n) → i = j

/-- The request is served, it waits in `mrq_done`, or there is none. -/
inductive Stage (s : Sys) : Prop
  | quiet (req : s.host.ctl.req = none) (done : s.host.ctl.done = none) (data : s.host.ctl.data = false)
      (dma : s.host.ctl.dma = false) (tails : ∀ t ∈ s.tails, t = none)
      (settled : ∀ id < s.issued, Settled s.ghost s.host.ctl.log id)
      (ids : ∀ k ∈ s.host.ctl.log, k.id < s.issued)
  | busy (r₀ : Req) (base : List Mark) (p : Phase) (id : r₀.id + 1 = s.issued)
      (phase : InPhase r₀ base (s.ghost r₀.id) s.host.ctl p) (serving : p ≠ .finished)
      (fresh : Fresh r₀) (unmoved : Unmoved r₀) (tails : ∀ t ∈ s.tails, t = none)
      (settled : ∀ id < r₀.id, Settled s.ghost base id) (ids : ∀ k ∈ base, k.id < r₀.id)
      (answers : p.rank + s.answers ≤ 4)
  | pending (r₀ : Req) (base : List Mark) (id : r₀.id + 1 = s.issued)
      (phase : InPhase r₀ base (s.ghost r₀.id) s.host.ctl .finished) (tails : s.tails ≠ [])
      (held : ∀ m, some m ∈ s.tails → s.host.ctl.done = some m.view) (one : OneHolder s.tails)
      (settled : ∀ id < r₀.id, Settled s.ghost base id) (ids : ∀ k ∈ base, k.id < r₀.id)

variable {s s' : Sys}

theorem none_holds {tails : List (Option MmcRequest)} (h : ∀ t ∈ tails, t = none) : OneHolder tails := by
  intro i j m n hi _
  exact absurd (h _ (List.mem_of_getElem? hi)) (by simp)

/-- Marks of the request in progress and of those before it. -/
theorem phase_ids {p : Phase} (h : InPhase r₀ base E c p) (hids : ∀ k ∈ base, k.id < r₀.id) :
    ∀ k ∈ c.log, k.id < r₀.id + 1 := by
  intro k hk
  by_cases hid : k.id = r₀.id
  · omega
  · have hmem : k ∈ others r₀.id c.log := List.mem_filter.2 ⟨hk, by simpa using hid⟩
    rw [(phase_books h).others] at hmem
    have := hids k hmem
    omega

theorem phase_settled {p : Phase} (h : InPhase r₀ base E c p)
    (hsettled : ∀ id < r₀.id, Settled G base id) : ∀ id < r₀.id, Settled G c.log id := by
  intro id hid
  refine settled_others (show id ≠ r₀.id by omega) ?_
  rw [(phase_books h).others]
  exact hsettled id hid

/-- What the request in progress owes. -/
theorem phase_maps {p : Phase} (h : InPhase r₀ base E c p) :
    mapCount r₀.id c.log ≤ 1 ∧ unmapCount r₀.id c.log ≤ mapCount r₀.id c.log := by
  refine ⟨(phase_books h).maps_le, ?_⟩
  cases h with
  | sbc _ _ _ _ _ _ _ _ maps => omega
  | cmd _ _ _ _ _ dbooks => have := dbooks.maps; omega
  | data _ _ _ _ _ _ dbooks => have := dbooks.maps; omega
  | stop _ _ _ _ _ _ _ maps => omega
  | finished _ _ _ _ _ _ _ _ maps => omega

/-! ## The steps keep it -/

theorem issued_fresh (m : MmcRequest) (id : ℕ) :
    Fresh (m.issued id).view ∧ Unmoved (m.issued id).view := by
  refine ⟨⟨?_, rfl, ?_⟩, ?_⟩
  · intro k hk
    obtain ⟨c, hc, rfl⟩ := Option.map_eq_some_iff.1 hk
    obtain ⟨c', -, rfl⟩ := Option.map_eq_some_iff.1 hc
    rfl
  · intro d hd
    obtain ⟨c, hc, rfl⟩ := Option.map_eq_some_iff.1 hd
    obtain ⟨c', -, rfl⟩ := Option.map_eq_some_iff.1 hc
    rfl
  · intro d hd
    obtain ⟨c, hc, rfl⟩ := Option.map_eq_some_iff.1 hd
    obtain ⟨c', -, rfl⟩ := Option.map_eq_some_iff.1 hc
    rfl

/-- A locked part ends in a phase of the request: it is served or waits. -/
theorem locked_stage {r₀ : Req} {base : List Mark} {p : Phase} (hid : r₀.id + 1 = s.issued)
    (hp : InPhase r₀ base (s.ghost r₀.id) s.host.ctl p) (hfresh : Fresh r₀) (hunmoved : Unmoved r₀)
    (htails : ∀ t ∈ s.tails, t = none) (hne : s.tails ≠ [])
    (hsettled : ∀ id < r₀.id, Settled s.ghost base id) (hids : ∀ k ∈ base, k.id < r₀.id)
    (hanswers : p.rank + s.answers ≤ 4) : Stage s := by
  by_cases hfin : p = .finished
  · subst hfin
    refine .pending r₀ base hid hp hne ?_ (none_holds htails) hsettled hids
    intro m hm
    exact absurd (htails _ hm) (by simp)
  · exact .busy r₀ base p hid hp hfin hfresh hunmoved htails hsettled hids hanswers

theorem request_stage (h : Stage s) {m : MmcRequest} {env : SendEnv}
    (hstep : s.request m env = some s') : Stage s' := by
  unfold Sys.request at hstep
  split at hstep
  swap
  · exact absurd hstep (by simp)
  rename_i hlast
  -- the request before this one has been handed over
  have hlast' : ∀ r₀ : Req, r₀.id + 1 = s.issued → doneCount r₀.id s.host.ctl.log ≠ 0 := by
    intro r₀ hid hzero
    rcases hlast with h | h
    · omega
    · rw [show s.issued - 1 = r₀.id by omega, hzero] at h
      exact absurd h (by simp)
  cases h with
  | busy r₀ base p hid phase =>
    exact absurd (phase_books phase).doneCount (hlast' r₀ hid)
  | pending r₀ base hid phase =>
    exact absurd (phase_books phase).doneCount (hlast' r₀ hid)
  | quiet req done data dma tails settled ids =>
    simp only at hstep
    have hfr : ∀ k ∈ s.host.ctl.log, k.id ≠ s.issued := fun k hk => Nat.ne_of_lt (ids k hk)
    split at hstep
    · -- without a clock
      obtain rfl := Option.some.inj hstep
      refine .quiet req done data dma tails ?_ ?_
      · intro id hid
        by_cases hnew : id = s.issued
        · subst hnew
          obtain ⟨-, -, h3, h4, -, h6⟩ := fresh_log hfr
          have hle : mapCount s.issued s.host.ctl.log ≤ 1 := by omega
          refine settled_done rfl h6 ⟨h4.trans h3.symm, hle⟩ ?_
          intro hs
          exact absurd hs.2.1 (by simp [MmcRequest.view, MmcCommand.view, ENODEV])
        · have hlt : id < s.issued := by
            have : id < s.issued + 1 := hid
            omega
          exact settled_cons (k := .requestDone _) (fun h => hnew h.symm) (settled id hlt)
      · intro k hk
        rcases List.mem_cons.1 hk with rfl | hk
        · exact Nat.lt_succ_self _
        · exact Nat.lt_succ_of_lt (ids k hk)
    · obtain rfl := Option.some.inj hstep
      obtain ⟨t, prep, -, he⟩ := s.host.requestLocked_ctl (m.issued s.issued) env
      have hidle : Idle (m.issued s.issued).view.id s.host.ctl := ⟨req, done, data, dma, hfr⟩
      obtain ⟨p, hp⟩ : ∃ p, InPhase (m.issued s.issued).view s.host.ctl.log (s.ghost s.issued)
          (s.host.requestLocked (m.issued s.issued) env).ctl p := by
        rw [he]
        exact requestLocked_phase hidle t prep
      obtain ⟨hfresh, hunmoved⟩ := issued_fresh m s.issued
      refine locked_stage (p := p) rfl hp hfresh hunmoved ?_ (by simp) settled ids ?_
      · intro t ht
        rcases List.mem_cons.1 ht with rfl | ht
        · rfl
        · exact tails t ht
      · have : p.rank ≤ 4 := by cases p <;> decide
        simpa using this

/-- The completions that a status reports. -/
theorem irq_ghost (st : IntStatus) (prov : Provenance) (id : ℕ) {s' : Sys}
    (h₁ : s'.commands = if st.cmdComplete then prov.command.toList ++ s.commands else s.commands)
    (h₂ : s'.transfers = if st.xferComplete then prov.transfer.toList ++ s.transfers else s.transfers) :
    (s.ghost id).le (s'.ghost id) ∧
      (st.cmdComplete = true → prov.command = some (id, .cmd) → (s'.ghost id).cmdSeen) ∧
      (st.xferComplete = true → prov.transfer = some id → (s'.ghost id).xferSeen) := by
  unfold Sys.ghost
  rw [h₁, h₂]
  refine ⟨⟨id_eq True ▸ fun h => h, ?_, ?_⟩, ?_, ?_⟩
  · intro h
    simp only at h ⊢
    split
    · exact List.mem_append_right _ h
    · exact h
  · intro h
    simp only at h ⊢
    split
    · exact List.mem_append_right _ h
    · exact h
  · intro hc hp
    simp only
    rw [if_pos hc, hp]
    exact List.mem_cons_self
  · intro hx hp
    simp only
    rw [if_pos hx, hp]
    exact List.mem_cons_self

theorem irq_stage (h : Stage s) {st : IntStatus} {env : IrqEnv} {prov : Provenance}
    (hexp : Expected s (.irq st env prov)) (hstep : s.irq st env prov = some s') : Stage s' := by
  unfold Sys.irq at hstep
  split at hstep
  swap
  · exact absurd hstep (by simp)
  obtain ⟨env', -, he⟩ := s.host.irqLocked_ctl st env
  have hcommands : s'.commands =
      if st.cmdComplete then prov.command.toList ++ s.commands else s.commands := by
    obtain rfl := Option.some.inj hstep; rfl
  have htransfers : s'.transfers =
      if st.xferComplete then prov.transfer.toList ++ s.transfers else s.transfers := by
    obtain rfl := Option.some.inj hstep; rfl
  have hghost := fun id => irq_ghost st prov id hcommands htransfers
  have htails : s'.tails = none :: s.tails := by obtain rfl := Option.some.inj hstep; rfl
  have hhost : s'.host = s.host.irqLocked st env := by obtain rfl := Option.some.inj hstep; rfl
  have hissued : s'.issued = s.issued := by obtain rfl := Option.some.inj hstep; rfl
  have hanswers : s'.answers = s.answers + if Answers s.host.cmd st then 1 else 0 := by
    obtain rfl := Option.some.inj hstep; rfl
  clear hstep
  have hnone : (∀ t ∈ s.tails, t = none) → ∀ t ∈ s'.tails, t = none := by
    intro h t ht
    rw [htails] at ht
    rcases List.mem_cons.1 ht with rfl | ht
    · rfl
    · exact h t ht
  -- without a request the interrupt changes nothing
  have hidle : s.host.ctl.req = none → s'.host.ctl = s.host.ctl := by
    intro hr
    rw [hhost, he, irqLocked_idle hr]
  cases h with
  | quiet req done data dma tails settled ids =>
    have hctl := hidle req
    refine .quiet ?_ ?_ ?_ ?_ (hnone tails) ?_ ?_
    · rw [hctl]; exact req
    · rw [hctl]; exact done
    · rw [hctl]; exact data
    · rw [hctl]; exact dma
    · rw [hctl, hissued]
      exact fun id hid => settled_mono (fun i => (hghost i).1) (settled id hid)
    · rw [hctl, hissued]; exact ids
  | busy r₀ base p hid phase serving fresh unmoved tails settled ids answers =>
    obtain ⟨m, hm⟩ : ∃ m, s.host.mrq = some m := by
      have hreq : s.host.ctl.req ≠ none := by
        cases phase with
        | sbc _ req => rw [req]; simp
        | cmd _ req => rw [req]; simp
        | data _ req => rw [req]; simp
        | stop _ req => rw [req]; simp
        | finished => exact absurd rfl serving
      rw [Host.ctl_req] at hreq
      cases hmrq : s.host.mrq with
      | none => rw [hmrq] at hreq; exact absurd rfl hreq
      | some m => exact ⟨m, rfl⟩
    obtain ⟨hle, hcmd, hxfer⟩ := hghost r₀.id
    obtain ⟨p', hp', hrank, hlt⟩ := awaited_phase fresh unmoved hm (phase_mono hle phase)
      (hexp m hm) hcmd hxfer
    rw [← hhost] at hp'
    refine locked_stage (p := p') (hid.trans hissued.symm) hp' fresh unmoved (hnone tails)
      (by rw [htails]; simp) (fun id h => settled_mono (fun i => (hghost i).1) (settled id h)) ids ?_
    rw [hanswers]
    split
    · rename_i ha
      have := hlt ha serving
      omega
    · omega
  | pending r₀ base hid phase tails held one settled ids =>
    obtain ⟨hle, -, -⟩ := hghost r₀.id
    have hreq : s.host.ctl.req = none := by cases phase; assumption
    have hctl := hidle hreq
    refine .pending r₀ base (hid.trans hissued.symm) (by rw [hctl]; exact phase_mono hle phase)
      (by rw [htails]; simp) ?_ ?_
      (fun id h => settled_mono (fun i => (hghost i).1) (settled id h)) ids
    · intro m hm
      rw [htails] at hm
      rcases List.mem_cons.1 hm with h | hm
      · exact absurd h (by simp)
      · rw [hctl]; exact held m hm
    · intro i j m n hi hj
      rw [htails] at hi hj
      cases i with
      | zero => exact absurd hi (by simp)
      | succ i =>
        cases j with
        | zero => exact absurd hj (by simp)
        | succ j =>
          have := one i j m n (by simpa using hi) (by simpa using hj)
          omega

/-- The step of a context past its unlock. -/
theorem tail_cases {i : ℕ} (hstep : s.tail i = some s') :
    (s.tails[i]? = some none ∧ s.host.mrqDone = none ∧ s' = { s with tails := s.tails.eraseIdx i }) ∨
      (∃ m, s.tails[i]? = some none ∧ s.host.mrqDone = some m ∧
        s' = { s with tails := s.tails.set i (some m) }) ∨
      ∃ m, s.tails[i]? = some (some m) ∧ s' = { s with
        host := (s.host.setMrqDone none).emit (.requestDone m), tails := s.tails.eraseIdx i } := by
  unfold Sys.tail at hstep
  cases hi : s.tails[i]? with
  | none => rw [hi] at hstep; exact absurd hstep (by simp)
  | some t =>
    rw [hi] at hstep
    cases t with
    | none =>
      cases hd : s.host.mrqDone with
      | none =>
        rw [hd] at hstep
        exact Or.inl ⟨rfl, rfl, (Option.some.inj hstep).symm⟩
      | some m =>
        rw [hd] at hstep
        exact Or.inr (Or.inl ⟨m, rfl, rfl, (Option.some.inj hstep).symm⟩)
    | some m => exact Or.inr (Or.inr ⟨m, rfl, (Option.some.inj hstep).symm⟩)

theorem tail_stage (h : Stage s) {i : ℕ} (hexp : Expected s (.tail i))
    (hstep : s.tail i = some s') : Stage s' := by
  have hdone : ∀ m, s.host.mrqDone = some m → s.host.ctl.done = some m.view := by
    intro m hm
    exact congrArg (Option.map MmcRequest.view) hm
  have herase : (∀ t ∈ s.tails, t = none) → ∀ t ∈ s.tails.eraseIdx i, t = none :=
    fun h t ht => h t (List.mem_of_mem_eraseIdx ht)
  rcases tail_cases hstep with ⟨hi, hd, rfl⟩ | ⟨m, hi, hd, rfl⟩ | ⟨m, hi, rfl⟩
  · -- nothing to hand over
    cases h with
    | quiet req done data dma tails settled ids =>
      exact .quiet req done data dma (herase tails) settled ids
    | busy r₀ base p hid phase serving fresh unmoved tails settled ids answers =>
      exact .busy r₀ base p hid phase serving fresh unmoved (herase tails) settled ids answers
    | pending r₀ base hid phase =>
      have hnone : s.host.ctl.done = none := congrArg (Option.map MmcRequest.view) hd
      cases phase with
      | finished _ _ _ _ _ r done => rw [hnone] at done; exact absurd done (by simp)
  · -- the request is read
    have hd' := hdone m hd
    cases h with
    | quiet req done => rw [hd'] at done; exact absurd done (by simp)
    | busy r₀ base p hid phase serving =>
      have hnone : s.host.ctl.done = none := by
        cases phase <;> first | assumption | exact absurd rfl serving
      rw [hd'] at hnone
      exact absurd hnone (by simp)
    | pending r₀ base hid phase tails held one settled ids =>
      have hall := hexp hi (by rw [hd]; rfl)
      refine .pending r₀ base hid phase ?_ ?_ ?_ settled ids
      · intro h
        have hlen := congrArg List.length h
        rw [List.length_set] at hlen
        exact tails (List.length_eq_zero_iff.1 hlen)
      · intro n hn
        rcases List.mem_or_eq_of_mem_set hn with hn | hn
        · exact absurd (hall _ hn) (by simp)
        · obtain rfl := Option.some.inj hn
          exact hd'
      · -- the others hold nothing
        have hat : ∀ j n, (s.tails.set i (some m))[j]? = some (some n) → j = i := by
          intro j n hj
          by_contra hne
          rw [List.getElem?_set_ne fun h => hne h.symm] at hj
          exact absurd (hall _ (List.mem_of_getElem? hj)) (by simp)
        intro j k a b hj hk
        rw [hat j a hj, hat k b hk]
  · -- the request is handed over
    have hmem := List.mem_of_getElem? hi
    cases h with
    | quiet _ _ _ _ tails => exact absurd (tails _ hmem) (by simp)
    | busy _ _ _ _ _ _ _ _ tails => exact absurd (tails _ hmem) (by simp)
    | pending r₀ base hid phase tails held one settled ids =>
      have hsettled := phase_settled phase settled
      have hids := phase_ids phase ids
      have hbooks := phase_books phase
      cases phase with
      | finished books req cmd data dma r done same maps evidence =>
        obtain rfl : r = m.view := Option.some.inj (done.symm.trans (held m hmem))
        refine .quiet req rfl data dma ?_ ?_ ?_
        · intro t ht
          obtain ⟨j, hne, hj⟩ := List.mem_eraseIdx_iff_getElem?.1 ht
          cases t with
          | none => rfl
          | some n => exact absurd (one j i n m hj hi) hne
        · intro id h
          by_cases hlast : id = r₀.id
          · subst hlast
            exact settled_done same.1 hbooks.doneCount ⟨maps.symm, hbooks.maps_le⟩ fun hs =>
              evidence_same same (evidence trivial hs)
          · have hlt : id < r₀.id := by
              have : id < s.issued := h
              omega
            refine settled_cons (k := .requestDone m.view) (fun h => hlast ?_) (hsettled id hlt)
            exact h.symm.trans same.1
        · intro k hk
          rcases List.mem_cons.1 hk with rfl | hk
          · have : m.view.id = r₀.id := same.1
            show m.view.id < s.issued
            omega
          · have := hids k hk
            show k.id < s.issued
            omega

theorem step_stage (h : Stage s) {a : Act} (hexp : Expected s a) (hstep : s.step a = some s') :
    Stage s' := by
  cases a with
  | request m env => exact request_stage h hstep
  | irq st env prov => exact irq_stage h hexp hstep
  | tail i => exact tail_stage h hexp hstep

/-! ## Every request completes -/

theorem settled_completes (h : Settled s.ghost s.host.ctl.log id) : Completes s id := by
  obtain ⟨hdone, hmaps, hev⟩ := h
  refine ⟨by omega, fun h0 => by omega, ⟨hmaps.2, by omega⟩, fun _ => hmaps.1, hev⟩

theorem stage_completes (h : Stage s) : AllComplete s := by
  cases h with
  | quiet req done data dma tails settled ids =>
    refine ⟨fun id hid => settled_completes (settled id hid), ?_⟩
    intro _
    exact Option.map_eq_none_iff.1 req
  | busy r₀ base p hid phase serving fresh unmoved tails settled ids answers =>
    have hbooks := phase_books phase
    refine ⟨?_, ?_⟩
    · intro id h
      by_cases hlast : id = r₀.id
      · subst hlast
        refine ⟨by have := hbooks.doneCount; omega, fun _ => Or.inl ?_, phase_maps phase,
          fun h1 => ?_, fun r hr hrid _ => absurd hrid (not_done hbooks.doneCount hr)⟩
        · cases hm : s.host.mrq with
          | some m => exact ⟨m, rfl, (phase_request hm phase).1⟩
          | none =>
            have hreq : s.host.ctl.req = none := congrArg (Option.map MmcRequest.view) hm
            cases phase with
            | sbc _ req => rw [hreq] at req; exact absurd req (by simp)
            | cmd _ req => rw [hreq] at req; exact absurd req (by simp)
            | data _ req => rw [hreq] at req; exact absurd req (by simp)
            | stop _ req => rw [hreq] at req; exact absurd req (by simp)
            | finished => exact absurd rfl serving
        · rw [hbooks.doneCount] at h1
          exact absurd h1 (by simp)
      · exact settled_completes (phase_settled phase settled id (by omega))
    · intro h4
      have hzero : p.rank = 0 := by omega
      cases p <;> first | exact absurd rfl serving | exact absurd hzero (by decide)
  | pending r₀ base hid phase tails held one settled ids =>
    have hbooks := phase_books phase
    have hmaps := phase_maps phase
    have hsettled := phase_settled phase settled
    cases phase with
    | finished books req cmd data dma r done same maps evidence =>
      refine ⟨?_, fun _ => Option.map_eq_none_iff.1 req⟩
      intro id h
      by_cases hlast : id = r₀.id
      · subst hlast
        refine ⟨by have := hbooks.doneCount; omega, fun _ => Or.inr ?_, hmaps, fun _ => maps.symm,
          fun q hq hqid _ => absurd hqid (not_done hbooks.doneCount hq)⟩
        obtain ⟨m, hm, hview⟩ := Option.map_eq_some_iff.1 done
        refine ⟨m, hm, ?_, tails⟩
        rw [← same.1, ← hview]
        rfl
      · exact settled_completes (hsettled id (by omega))

/-- **Each request completes once, and only on its own completions**, in every run
whose interrupts are awaited and whose tails do not overlap. -/
theorem completion_of_expected {s : Sys} (h : completion.Reach Expected s) : AllComplete s := by
  refine stage_completes (h.invariant (I := Stage) ?_ fun s a s' hs hexp hstep =>
    step_stage hs hexp hstep)
  intro s hinit
  obtain ⟨hmrq, hdone, hdata, hdma, hlog, hissued, htails, -, -, -⟩ := hinit
  have hctl : s.host.ctl.log = [] := by
    unfold Host.ctl
    rw [hlog]
    rfl
  refine .quiet (congrArg (Option.map MmcRequest.view) hmrq)
    (congrArg (Option.map MmcRequest.view) hdone) hdata hdma ?_ ?_ ?_
  · intro t ht
    rw [htails] at ht
    exact absurd ht (by simp)
  · intro id hid
    rw [hissued] at hid
    exact absurd hid (by simp)
  · intro k hk
    rw [hctl] at hk
    exact absurd hk (by simp)

/-! ## Runs -/

def Sys.start : Sys :=
  { host := Host.probed 0 Host.bounceBuffer_fits, issued := 0, tails := [], commands := [], transfers := []
    answers := 0 }

/-- A CMD13, which has no data. -/
def sendStatus : MmcRequest :=
  { id := 0, sbc := none
    cmd := { opcode := 13, arg := 0, flags := ⟨true, false, true, false, true⟩, resp := [], error := 0 }
    data := none, stop := none }

/-- A read of one word. -/
def readWordRequest : MmcRequest :=
  { id := 0, sbc := none
    cmd := { opcode := 51, arg := 0, flags := ⟨true, false, true, false, true⟩, resp := [], error := 0 }
    data := some
      { blksz := 4, blocks := 1, read := true, sg := [⟨[0, 0, 0, 0], ⟨0, 4, by decide, by decide⟩⟩]
        sgLen := 1, bytesXfered := 0, error := 0, blksz_le := by decide, blocks_le := by decide }
    stop := none }

/-- The buffer holds a word when the command completes. -/
def wordIrq : IrqEnv :=
  { readyIrq with
    command := { readyIrq.command with
      present := { bufferReadEn := true }, pio := ⟨{ bufferReadEn := true }, fun _ => 7⟩ } }

/-- The word is there when the command completes, and the transfer ends behind it. -/
def wordRead : List Act :=
  [.request readWordRequest readySend, .tail 0, .irq { cmdComplete := true } wordIrq ⟨some (0, .cmd), none⟩, .tail 0,
    .irq { xferComplete := true } readyIrq ⟨none, some 0⟩, .tail 0, .tail 0]

/-- A tail that finds nothing to hand over. -/
theorem expected_tail {s : Sys} {i : ℕ} (hnone : s.host.mrqDone.isSome = false) : Expected s (.tail i) :=
  fun _ hsome => absurd (hnone.symm.trans hsome) Bool.false_ne_true

theorem expected_word : completion.Along Expected Sys.start wordRead := by
  refine ⟨trivial, fun s₁ h₁ => ?_⟩
  obtain rfl := Option.some.inj h₁
  refine ⟨expected_tail rfl, fun s₂ h₂ => ?_⟩
  obtain rfl := Option.some.inj h₂
  refine ⟨?_, fun s₃ h₃ => ?_⟩
  · intro m hm
    obtain rfl := Option.some.inj hm
    refine ⟨fun _ _ slot hs => ?_, fun _ _ => ⟨fun hs => absurd hs (by decide), fun _ hc => absurd hc (by decide)⟩,
      fun _ hx => absurd hx (by decide), fun he => absurd he (by decide)⟩
    obtain rfl := Option.some.inj (show some Slot.cmd = some slot from hs)
    exact ⟨rfl, by decide, by decide⟩
  obtain rfl := Option.some.inj h₃
  refine ⟨expected_tail rfl, fun s₄ h₄ => ?_⟩
  obtain rfl := Option.some.inj h₄
  refine ⟨?_, fun s₅ h₅ => ?_⟩
  · intro m hm
    obtain rfl := Option.some.inj hm
    exact ⟨fun _ hc => absurd hc (by decide),
      fun _ _ => ⟨fun hs => absurd hs (by decide), fun hs => absurd hs (by decide)⟩,
      fun _ _ _ => ⟨fun hd => absurd hd (by decide), fun _ => by decide⟩, fun he => absurd he (by decide)⟩
  obtain rfl := Option.some.inj h₅
  refine ⟨?_, fun s₆ h₆ => ?_⟩
  · intro _ _ t ht
    exact List.mem_singleton.1 (show t ∈ [none] from ht)
  obtain rfl := Option.some.inj h₆
  refine ⟨?_, fun _ _ => trivial⟩
  intro hi
  exact absurd (congrArg (Option.map Option.isSome) hi) (by decide)

/-- The read of a word completes once, with the word. -/
theorem completion_of_expected_word :
    ∃ s, completion.exec Sys.start wordRead = some s ∧ doneCount 0 s.host.ctl.log = 1 ∧
      pioWords 0 s.host.ctl.log = 1 ∧ AllComplete s := by
  have hrun : (completion.exec Sys.start wordRead).map
      (fun s => (doneCount 0 s.host.ctl.log, pioWords 0 s.host.ctl.log)) = some (1, 1) := by decide
  obtain ⟨s, hexec, hcounts⟩ := Option.map_eq_some_iff.1 hrun
  obtain ⟨hdone, hwords⟩ := Prod.mk.inj hcounts
  have hinit : completion.init Sys.start := ⟨rfl, rfl, rfl, rfl, rfl, rfl, rfl, rfl, rfl, rfl⟩
  exact ⟨s, hexec, hdone, hwords, completion_of_expected (.of_exec hinit expected_word hexec)⟩

/-- The first read ends with its word, before its `XFER_COMPLETE`, which comes when
the second read waits for its own. -/
def lateRun : List Act :=
  [.request readWordRequest readySend,
    .irq { cmdComplete := true } wordIrq ⟨some (0, .cmd), none⟩,
    .irq { bufferReadRdy := true } readyIrq ⟨none, none⟩, .tail 0, .tail 0,
    .request readWordRequest readySend,
    .irq { cmdComplete := true } readyIrq ⟨some (1, .cmd), none⟩,
    .irq { xferComplete := true } readyIrq ⟨none, some 0⟩, .tail 0, .tail 0]

/-- **A late `XFER_COMPLETE` completes the next request**, of which no byte has come. -/
theorem late_transfer_completes :
    ∃ s, completion.exec Sys.start lateRun = some s ∧
      (∃ r, .requestDone r ∈ s.host.ctl.log ∧ r.id = 1 ∧ Succeeded r ∧ r.data.map (·.size) = some 4) ∧
      pioWords 1 s.host.ctl.log = 0 ∧ ¬dmaSent 1 s.host.ctl.log ∧ ¬AllComplete s := by
  have hlog : (completion.exec Sys.start lateRun).map (fun s => (s.issued, s.host.ctl.log)) =
      some (2, [.requestDone ⟨1, none, ⟨51, 0⟩, some ⟨4, 1, 0, 4⟩, none⟩, .dataDone 1 0,
        .cmdDone 1 .cmd 0, .send 1 .cmd false,
        .requestDone ⟨0, none, ⟨51, 0⟩, some ⟨4, 1, 0, 4⟩, none⟩, .dataDone 0 0, .pio 0 1,
        .cmdDone 0 .cmd 0, .send 0 .cmd false]) := by decide
  obtain ⟨s, hs, heq⟩ := Option.map_eq_some_iff.1 hlog
  obtain ⟨hissued, hlog⟩ := Prod.mk.inj heq
  refine ⟨s, hs, ⟨_, by rw [hlog]; exact List.mem_cons_self, rfl, ⟨by simp, rfl, by simp⟩, rfl⟩,
    by rw [hlog]; decide, by rw [hlog]; decide, fun hall => ?_⟩
  have hev := (hall.1 1 (by omega)).evidence _ (by rw [hlog]; exact List.mem_cons_self) rfl
    ⟨by simp, rfl, by simp⟩
  have hsize := hev.2 _ rfl
  rw [hlog, if_neg (by decide)] at hsize
  exact absurd hsize (by decide)

end Br2Efinix.Emmc
