import Br2Efinix.Emmc.Protocol
import Br2Efinix.Emmc.Modes

/-!
# The retune worker beside requests and interrupts

`efx_emmc_hs400_retune_work` runs without claiming the host, and writes registers without
`host->lock`. Here its accesses interleave with those of `efx_emmc_request` and
`efx_emmc_irq`: a function that holds the lock is cut into pieces, what a piece writes is
queued, and every register write is a step of its own.
-/

namespace Br2Efinix.Emmc

def EFX_EMMC_TUNING_BLOCK_SIZE_4BIT : ℕ := 64
def EFX_EMMC_TUNING_BLOCK_SIZE_8BIT : ℕ := 128

/-! ## Status bits and their owners -/

namespace IntStatus

def union (a b : IntStatus) : IntStatus :=
  { cmdComplete := a.cmdComplete || b.cmdComplete
    xferComplete := a.xferComplete || b.xferComplete
    bufferWriteRdy := a.bufferWriteRdy || b.bufferWriteRdy
    bufferReadRdy := a.bufferReadRdy || b.bufferReadRdy
    cmdTimeoutErr := a.cmdTimeoutErr || b.cmdTimeoutErr
    cmdCrcErr := a.cmdCrcErr || b.cmdCrcErr
    cmdEndBitErr := a.cmdEndBitErr || b.cmdEndBitErr
    cmdIndexErr := a.cmdIndexErr || b.cmdIndexErr
    dataEndBitErr := a.dataEndBitErr || b.dataEndBitErr
    dataCrcErr := a.dataCrcErr || b.dataCrcErr
    dataTimeoutErr := a.dataTimeoutErr || b.dataTimeoutErr
    admaError := a.admaError || b.admaError
    other := a.other || b.other }

/-- What is left of `a` when `b` is written to the register. -/
def clear (a b : IntStatus) : IntStatus :=
  { cmdComplete := a.cmdComplete && !b.cmdComplete
    xferComplete := a.xferComplete && !b.xferComplete
    bufferWriteRdy := a.bufferWriteRdy && !b.bufferWriteRdy
    bufferReadRdy := a.bufferReadRdy && !b.bufferReadRdy
    cmdTimeoutErr := a.cmdTimeoutErr && !b.cmdTimeoutErr
    cmdCrcErr := a.cmdCrcErr && !b.cmdCrcErr
    cmdEndBitErr := a.cmdEndBitErr && !b.cmdEndBitErr
    cmdIndexErr := a.cmdIndexErr && !b.cmdIndexErr
    dataEndBitErr := a.dataEndBitErr && !b.dataEndBitErr
    dataCrcErr := a.dataCrcErr && !b.dataCrcErr
    dataTimeoutErr := a.dataTimeoutErr && !b.dataTimeoutErr
    admaError := a.admaError && !b.admaError
    other := a.other && !b.other }

end IntStatus

/-- Whose command raised a bit. -/
inductive Owner
  | request
  | tuning
  deriving DecidableEq, Repr

/-- Status bits by their owners. -/
abbrev OwnedBits := Owner → IntStatus

/-- What `EFX_EMMC_INT_STATUS` reads. -/
def OwnedBits.word (bits : OwnedBits) : IntStatus := (bits .request).union (bits .tuning)

/-! ## The worker -/

/-- An access of the worker. -/
inductive RetuneOp
  /-- `host->tuning_in_progress`: set under the lock, reset without it. -/
  | setInProgress (value : Bool)
  | writel (reg : Reg) (val : ℕ)
  /-- `reinit_completion(&host->tuning_complete)`. -/
  | reinit
  /-- `host->tuning_crc_error = false`, under the lock. -/
  | resetCrc
  /-- The write of 0x153A0010 to `EFX_EMMC_TRANSFER_MODE`. -/
  | send
  /-- The poll for data and then the wait for `host->tuning_complete`. -/
  | await
  | checkCrc
  deriving DecidableEq, Repr

/-- What a retune meets: whether its map can be allocated, the bus width, `max_sample_count`,
after which points the time is over, and the point that it sets at its end, which is the
selected one or the fallback. -/
structure RetuneEnv where
  mapAlloc : Bool
  width8 : Bool
  maxSampleCount : ℕ
  late : ℕ → ℕ → Bool
  final : ℕ × ℕ

/-- `efx_emmc_set_timing_config`. -/
def timingOps (p : ℕ × ℕ) : List RetuneOp :=
  let value := configValue p.1 p.2 EMMC_BASE_CLK_CAL_PORT
  [.writel .baseReg1 value, .writel .baseReg1 (value ||| 1), .writel .baseReg1 value]

/-- `efx_emmc_execute_tuning_command`. -/
def commandOps (width8 : Bool) : List RetuneOp :=
  let blockSize := if width8 then EFX_EMMC_TUNING_BLOCK_SIZE_8BIT else EFX_EMMC_TUNING_BLOCK_SIZE_4BIT
  [.writel .blockSize (1 <<< 16 ||| blockSize), .writel .arg1 0, .writel .intStatus 0xFFFFFFFF, .reinit,
    .resetCrc, .send, .await]

/-- `efx_emmc_execute_tuning` with a pending retune of HS400, which is never skipped. -/
def RetuneEnv.ops (env : RetuneEnv) : List RetuneOp :=
  .setInProgress true ::
    if env.mapAlloc then
      (Modes.tried env.late (Modes.points env.maxSampleCount)).flatMap
          (fun p => timingOps p ++ commandOps env.width8) ++
        timingOps env.final ++ [.setInProgress false]
    else []

/-! ## The system -/

/-- What is observed: the commands that requests send and the requests handed back; the
worker's register writes, with the bits that it clears; and with which bits the handler ends
a request or the wait of the worker. -/
inductive RetuneMark
  | sent (id : ℕ)
  | done (id : ℕ)
  | wrote (op : RetuneOp)
  | cleared (bits : OwnedBits)
  | finished (bits : OwnedBits)
  | waitOver (bits : OwnedBits)

/-- The host, the lock with what its holder has yet to do, the bits that the handler has
read, the status register, the commands that may still raise a bit, and the worker. -/
structure Retune where
  host : Host
  locked : Bool
  writes : List Ev
  pieces : List (Host → Host)
  reading : OwnedBits
  pending : OwnedBits
  out : Owner → Bool
  hs400RetunePending : Bool
  retuneQueued : Bool
  worker : List RetuneOp
  waiting : Bool
  trace : List RetuneMark

/-- The locked part of `efx_emmc_irq` after its acknowledgement. -/
def irqPieces (st : IntStatus) (env : IrqEnv) : List (Host → Host) :=
  if st.error then [fun h => h.irqError st]
  else
    [fun h => h.irqCommand st env.command, fun h => h.irqPio st env.pio, fun h => h.irqPioEnd st env.stop,
      fun h => h.irqXfer st env.stop]

/-- **The pieces make up the handler.** -/
theorem irqPieces_irqLocked (h : Host) {st : IntStatus} (hany : st.any = true) (env : IrqEnv) :
    (irqPieces st env).foldl (fun h f => f h) (h.emit (.ack st)) = h.irqLocked st env := by
  unfold irqPieces Host.irqLocked
  rw [hany]
  cases st.error <;> rfl

namespace Retune

/-- A write of the lock's holder reaches the controller. -/
def play (s : Retune) : Ev → Retune
  | .ack st => { s with pending := fun o => (s.pending o).clear st }
  -- the driver writes no other value than 0xFFFFFFFF here
  | .writel .intStatus _ => { s with pending := fun _ => {} }
  | .send id _ _ =>
    { s with
      out := fun o => if o = .request then true else s.out o
      trace := .sent id :: s.trace }
  | _ => s

/-- A piece, with what it does to the driver's own fields, and its writes yet to be done. -/
def runPiece (s : Retune) (f : Host → Host) : Retune :=
  let h := f { s.host with log := [] }
  let waited := if s.waiting ∧ s.host.tuningComplete < h.tuningComplete then [.waitOver s.reading] else []
  let finished := if s.host.mrq.isSome ∧ h.mrq.isNone then [.finished s.reading] else []
  { s with
    host := h
    writes := h.log.reverse
    trace := finished ++ (waited ++ s.trace) }

/-- The next step of the lock's holder; the last is the unlock. -/
def run (s : Retune) : Option Retune :=
  match s.writes, s.pieces with
  | e :: rest, _ => some ({ s with writes := rest }.play e)
  | [], f :: rest => some ({ s with pieces := rest }.runPiece f)
  | [], [] => if s.locked then some { s with locked := false, reading := fun _ => {} } else none

/-- `efx_emmc_request`. The core has one request at a time. -/
def request (s : Retune) (mrq : MmcRequest) (env : SendEnv) : Option Retune :=
  if s.locked ∨ s.host.mrq.isSome ∨ s.host.mrqDone.isSome then none
  else if !s.host.clk then some { s with trace := .done mrq.id :: s.trace }
  else some ({ s with locked := true }.runPiece fun h => h.requestLocked mrq env)

/-- `efx_emmc_irq`, up to its acknowledgement. -/
def irq (s : Retune) (env : IrqEnv) : Option Retune :=
  if s.locked then none
  else if !s.pending.word.any then some s
  else some { s with
    locked := true
    reading := s.pending
    writes := [.ack s.pending.word]
    pieces := irqPieces s.pending.word env }

/-- `efx_emmc_complete_pending_request`, which needs no lock. -/
def complete (s : Retune) : Option Retune :=
  match s.host.mrqDone with
  | none => none
  | some mrq => some { s with host := s.host.setMrqDone none, trace := .done mrq.id :: s.trace }

/-- The controller raises bits for a command, the last ones or not. -/
def raise (s : Retune) (o : Owner) (st : IntStatus) (last : Bool) : Option Retune :=
  if s.out o then
    some { s with
      pending := fun p => if p = o then (s.pending o).union st else s.pending p
      out := fun p => if p = o then !last else s.out p }
  else none

/-- What `efx_emmc_set_timing` does for the worker when it comes to an HS400 that is not tuned. -/
def schedule (s : Retune) : Option Retune :=
  if s.locked then none
  else some { s with
    host := { s.host with timing := .mmcHs400 }
    hs400RetunePending := true
    retuneQueued := true }

/-- `efx_emmc_hs400_retune_work` begins. -/
def start (s : Retune) (env : RetuneEnv) : Option Retune :=
  if s.retuneQueued ∧ s.worker = [] then
    if s.hs400RetunePending ∧ s.host.timing = .mmcHs400 then
      some { s with retuneQueued := false, hs400RetunePending := false, worker := env.ops }
    else some { s with retuneQueued := false }
  else none

/-- The worker's next access. A wait ends with the completion or when its time is over. -/
def work (s : Retune) (timeout : Bool) : Option Retune :=
  match s.worker with
  | [] => none
  | .setInProgress value :: ops =>
    if value ∧ s.locked then none
    else some { s with host := { s.host with tuningInProgress := value }, worker := ops }
  | .writel .intStatus _ :: ops =>
    some { s with pending := fun _ => {}, worker := ops, trace := .cleared s.pending :: s.trace }
  | .writel reg val :: ops => some { s with worker := ops, trace := .wrote (.writel reg val) :: s.trace }
  | .reinit :: ops => some { s with host := { s.host with tuningComplete := 0 }, waiting := true, worker := ops }
  | .resetCrc :: ops =>
    if s.locked then none else some { s with host := { s.host with tuningCrcError := false }, worker := ops }
  | .send :: ops =>
    some { s with
      out := fun o => if o = .tuning then true else s.out o
      worker := ops
      trace := .wrote .send :: s.trace }
  | .await :: ops =>
    if timeout then some { s with waiting := false, worker := ops }
    else if s.host.tuningComplete = 0 then none
    else some { s with
      host := { s.host with tuningComplete := s.host.tuningComplete - 1 }
      waiting := false
      worker := .checkCrc :: ops }
  | .checkCrc :: ops =>
    if s.host.tuningCrcError then
      if s.locked then none else some { s with host := { s.host with tuningCrcError := false }, worker := ops }
    else some { s with worker := ops }

/-- A host between requests, with no command out. -/
def idle (h : Host) : Retune :=
  { host := h, locked := false, writes := [], pieces := [], reading := fun _ => {}, pending := fun _ => {}
    out := fun _ => false, hs400RetunePending := false, retuneQueued := false, worker := [], waiting := false
    trace := [] }

end Retune

inductive RetuneAct
  | request (mrq : MmcRequest) (env : SendEnv)
  | irq (env : IrqEnv)
  | run
  | complete
  | raise (o : Owner) (st : IntStatus) (last : Bool)
  | schedule
  | start (env : RetuneEnv)
  | work (timeout : Bool)

/-- Every interleaving, from any host between requests. -/
def retune : Machine Retune RetuneAct :=
  { init := fun s => ∃ h : Host, h.mrq = none ∧ h.mrqDone = none ∧ s = .idle h
    step := fun s => fun
      | .request mrq env => s.request mrq env
      | .irq env => s.irq env
      | .run => s.run
      | .complete => s.complete
      | .raise o st last => s.raise o st last
      | .schedule => s.schedule
      | .start env => s.start env
      | .work timeout => s.work timeout }

end Br2Efinix.Emmc
