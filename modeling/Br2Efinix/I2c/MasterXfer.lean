import Mathlib.Data.Int.Notation
import Br2Efinix.I2c.Slave
import Br2Efinix.Lib.History

/-!
# A transfer as the bus master

`efx_i2c_xfer` with `efx_i2c_xfer_msg` and what they call. What the controller shows is any function of what was done
before: whether it is busy, whether a byte is done in time, and what the slave answers. The bytes that are read go into
the buffers of the messages.

* `body_outcome`: a message is done, or something in it failed and the stop was sent.
* `xfer_outcome`: the four ends of a transfer.
* `xfer_returns`: **the number of messages is returned exactly when all is done and the bus still held**, and then
  every buffer has its bytes; and a stop follows the start, unless the bus was lost at the end.
-/

namespace Br2Efinix.I2c

def EIO : ℤ := 5
def EBUSY : ℤ := 16
def ETIMEDOUT : ℤ := 110

def ACK : BitVec 32 := 0#32
def NACK : BitVec 32 := 1#32
def EFX_I2C_READ_MASK : BitVec 8 := 0xff#8
def EFX_I2C_MASTER_STATUS_BUSY : BitVec 32 := 0x1#32

/-! ## The driver -/

/-- What the driver does with the controller, and what it learns. `start` and `stop` set a bit of the master status,
`tx` writes the data register, and `ack` writes the acknowledge register and waits. -/
inductive BusEvent
  | busy (busy : Bool)
  | start
  | tx (byte : BitVec 8)
  | ack (word : BitVec 32) (done : Bool)
  | rxAck (acked : Bool)
  | rxData (byte : BitVec 8)
  | stop
  deriving DecidableEq, Repr

/-- What the controller shows: its registers, and whether `EFX_I2C_TX_ACK_VALID` clears in time. -/
structure MasterEnv where
  masterStatus : List BusEvent → BitVec 32
  txAck : List BusEvent → BitVec 32
  polled : List BusEvent → Bool
  rxAck : List BusEvent → BitVec 32
  rxData : List BusEvent → BitVec 32

/-- `struct i2c_msg`; the length is that of the buffer. -/
structure I2cMsg where
  addr : BitVec 16
  rd : Bool
  buf : List (BitVec 8)
  deriving DecidableEq, Repr

/-- `i2c_8bit_addr_from_msg`. -/
def I2cMsg.addr8 (msg : I2cMsg) : BitVec 8 := (msg.addr <<< 1 ||| if msg.rd then 1#16 else 0#16).setWidth 8

variable (env : MasterEnv)

/-- `efx_i2c_master_busy`. -/
def masterBusy (log : List BusEvent) : Bool := env.masterStatus log &&& EFX_I2C_MASTER_STATUS_BUSY != 0#32

/-- `efx_i2c_tx_ack_wait`, which sets bits in what it reads. -/
def txAckWait (flag : BitVec 32) (log : List BusEvent) : ℤ × List BusEvent :=
  let word := env.txAck log ||| (EFX_I2C_TX_ACK_ENABLE ||| EFX_I2C_TX_ACK_VALID ||| flag)
  if env.polled log then (0, log ++ [.ack word true]) else (-ETIMEDOUT, log ++ [.ack word false])

/-- `efx_i2c_rx_ack`. -/
def rxAck (log : List BusEvent) : ℤ × List BusEvent :=
  if env.rxAck log &&& 0xFF#32 = 0#32 then (0, log ++ [.rxAck true]) else (- EIO, log ++ [.rxAck false])

/-- `efx_i2c_master_write`. -/
def masterWrite (byte : BitVec 8) (log : List BusEvent) : ℤ × List BusEvent := txAckWait env NACK (log ++ [.tx byte])

/-- `efx_i2c_start`. -/
def busStart (addr : BitVec 8) (log : List BusEvent) : ℤ × List BusEvent :=
  let r := masterWrite env addr (log ++ [.start])
  if r.1 ≠ 0 then r else rxAck env r.2

/-- `efx_i2c_master_read` with so many bytes to come, and the byte at the buffer's pointer after it. -/
def masterRead (count : ℕ) (byte : BitVec 8) (log : List BusEvent) : (ℤ × List BusEvent) × BitVec 8 :=
  let r := txAckWait env (if count = 1 then NACK else ACK) (log ++ [.tx EFX_I2C_READ_MASK])
  if r.1 < 0 then (r, byte)
  else
    let data := (env.rxData r.2 &&& 0xff#32).setWidth 8
    ((0, r.2 ++ [.rxData data]), data)

/-- The loop of `efx_i2c_xfer_msg` over what is left of the buffer, and that part of the buffer after it. -/
def msgLoop (rd : Bool) : List (BitVec 8) → List BusEvent → (ℤ × List BusEvent) × List (BitVec 8)
  | [], log => ((0, log), [])
  | byte :: rest, log =>
    let s := if rd then masterRead env (rest.length + 1) byte log else (masterWrite env byte log, byte)
    if s.1.1 ≠ 0 then (s.1, s.2 :: rest)
    else
      let r := if rd then s.1 else rxAck env s.1.2
      if r.1 ≠ 0 then (r, s.2 :: rest)
      else
        let after := msgLoop rd rest r.2
        (after.1, s.2 :: after.2)

/-- `i2c_terminate`. -/
def terminate (r : ℤ × List BusEvent) : ℤ × List BusEvent := (r.1, r.2 ++ [.stop])

/-- `efx_i2c_xfer_msg` after the bytes. -/
def msgEnd (isLast : Bool) (r : ℤ × List BusEvent) : ℤ × List BusEvent :=
  if r.1 ≠ 0 then terminate r
  else if isLast then
    let busy := masterBusy env r.2
    let log := r.2 ++ [.busy busy]
    if busy then terminate (r.1, log) else (- EIO, log)
  else (0, r.2)

/-- `efx_i2c_xfer_msg` from the start or repeated start on, and the message after it. -/
def msgBody (msg : I2cMsg) (isLast : Bool) (r : ℤ × List BusEvent) : (ℤ × List BusEvent) × I2cMsg :=
  if r.1 ≠ 0 then (terminate r, msg)
  else
    let s := msgLoop env msg.rd msg.buf r.2
    (msgEnd env isLast s.1, { msg with buf := s.2 })

/-- `efx_i2c_xfer_msg`. -/
def xferMsg (msg : I2cMsg) (num : ℕ) (isFirst isLast : Bool) (log : List BusEvent) : (ℤ × List BusEvent) × I2cMsg :=
  if isFirst then
    let busy := masterBusy env log
    let log := log ++ [.busy busy]
    if busy then ((-EBUSY, log), msg) else msgBody env msg isLast (busStart env msg.addr8 log)
  else if num > 1 then msgBody env msg isLast (busStart env msg.addr8 log)
  else msgBody env msg isLast (0, log)

/-- The loop of `efx_i2c_xfer` from message `i` on, and the messages after it. -/
def xferLoop (num : ℕ) : List I2cMsg → ℕ → List BusEvent → (ℤ × List BusEvent) × List I2cMsg
  | [], _, log => ((0, log), [])
  | msg :: rest, i, log =>
    let s := xferMsg env msg num (i = 0) (i = num - 1) log
    if s.1.1 ≠ 0 then (s.1, s.2 :: rest)
    else
      let after := xferLoop num rest (i + 1) s.1.2
      (after.1, s.2 :: after.2)

/-- `efx_i2c_xfer`, and the messages after it. -/
def i2cXfer (msgs : List I2cMsg) : (ℤ × List BusEvent) × List I2cMsg :=
  let s := xferLoop env msgs.length msgs 0 []
  ((if s.1.1 < 0 then s.1.1 else msgs.length, s.1.2), s.2)

variable {env}

/-! ## The property -/

/-- The bytes of a message are transferred, and its buffer is left with `stored`: a byte that is written stays and is
acknowledged by the slave; one that is read is stored, and acknowledged by the master but for the last. -/
def BytesDone (rd : Bool) : List (BitVec 8) → List (BitVec 8) → List BusEvent → Prop
  | [], stored, evs => stored = [] ∧ evs = []
  | byte :: rest, stored, evs => ∃ word stored' evs', BytesDone rd rest stored' evs' ∧
      if rd then
        (word.getLsbD 0 = decide (rest = [])) ∧
          ∃ data, stored = data :: stored' ∧ evs = [.tx EFX_I2C_READ_MASK, .ack word true, .rxData data] ++ evs'
      else stored = byte :: stored' ∧ evs = [.tx byte, .ack word true, .rxAck true] ++ evs'

/-- A message is transferred, and is left as `after`: the start, its address, which the slave acknowledges, and its
bytes. -/
def MsgDone (msg after : I2cMsg) (evs : List BusEvent) : Prop :=
  ∃ word stored evs', BytesDone msg.rd msg.buf stored evs' ∧ after = { msg with buf := stored } ∧
    evs = [.start, .tx msg.addr8, .ack word true, .rxAck true] ++ evs'

/-- The messages are transferred in order, and are left as `after`. -/
def AllDone : List I2cMsg → List I2cMsg → List BusEvent → Prop
  | [], after, evs => after = [] ∧ evs = []
  | msg :: rest, after, evs => ∃ msg' rest' first others, MsgDone msg msg' first ∧ AllDone rest rest' others ∧
      after = msg' :: rest' ∧ evs = first ++ others

/-- The messages are transferred in order. -/
def Complete (msgs : List I2cMsg) (evs : List BusEvent) : Prop := ∃ after, AllDone msgs after evs

/-- What is on the bus before the stop. -/
def BusEvent.transfers : BusEvent → Bool
  | .busy _ => false
  | .stop => false
  | _ => true

def transferred (log : List BusEvent) : List BusEvent := log.filter BusEvent.transfers

/-- The last busy reading. -/
def stillBusy (log : List BusEvent) : Bool :=
  lastOf (fun | .busy b => some b | _ => none) false log

/-- What a transfer returns and leaves, with a stop for every start. -/
structure XferRight (msgs : List I2cMsg) (r : (ℤ × List BusEvent) × List I2cMsg) : Prop where
  returned : r.1.1 = msgs.length ↔ Complete msgs (transferred r.1.2)
  stored : r.1.1 = msgs.length → AllDone msgs r.2 (transferred r.1.2)
  failed : r.1.1 ≠ msgs.length → r.1.1 < 0
  released : .start ∈ r.1.2 → r.1.2.count .stop = 1

/-- The same with the bus still held after the last message, without which there is an error and no stop. -/
structure XferHeld (msgs : List I2cMsg) (r : (ℤ × List BusEvent) × List I2cMsg) : Prop where
  returned : r.1.1 = msgs.length ↔ Complete msgs (transferred r.1.2) ∧ stillBusy r.1.2 = true
  stored : Complete msgs (transferred r.1.2) → AllDone msgs r.2 (transferred r.1.2)
  failed : r.1.1 ≠ msgs.length → r.1.1 < 0
  released : .start ∈ r.1.2 → ¬(Complete msgs (transferred r.1.2) ∧ stillBusy r.1.2 = false) →
    r.1.2.count .stop = 1
  lost : Complete msgs (transferred r.1.2) → stillBusy r.1.2 = false → r.1.1 = - EIO ∧ r.1.2.count .stop = 0

/-- The value bit of the acknowledge register is only written. -/
def MasterEnv.ValueWriteOnly (env : MasterEnv) : Prop := ∀ log, (env.txAck log).getLsbD 0 = false

/-! ## A step on the bus -/

/-- What did not work. -/
def BusEvent.failed : BusEvent → Bool
  | .ack _ done => !done
  | .rxAck acked => !acked
  | _ => false

/-- A step from `log` to `r`: it is done, or something in it failed and it returns an error. -/
def Ran (done : List BusEvent → Prop) (log : List BusEvent) (r : ℤ × List BusEvent) : Prop :=
  ∃ evs, r.2 = log ++ evs ∧ (∀ e ∈ evs, e.transfers = true) ∧
    (r.1 = 0 ∧ done evs ∨ r.1 < 0 ∧ ∃ e ∈ evs, e.failed = true)

variable {log : List BusEvent} {r r' : ℤ × List BusEvent} {P Q : List BusEvent → Prop}

theorem Ran.imp (h : Ran P log r) (hPQ : ∀ evs, P evs → Q evs) : Ran Q log r := by
  obtain ⟨evs, hlog, htransfers, hret⟩ := h
  exact ⟨evs, hlog, htransfers, hret.imp_left fun hdone => ⟨hdone.1, hPQ evs hdone.2⟩⟩

/-- What a failed step would have done is not looked at. -/
theorem Ran.of_failed (h : Ran P log r) (hne : r.1 ≠ 0) : Ran Q log r := by
  obtain ⟨evs, hlog, htransfers, hret⟩ := h
  exact ⟨evs, hlog, htransfers, Or.inr (hret.resolve_left fun hdone => hne hdone.1)⟩

/-- An event before the step. -/
theorem Ran.cons {e : BusEvent} (he : e.transfers = true) (h : Ran P (log ++ [e]) r) :
    Ran (fun evs => ∃ evs', P evs' ∧ evs = e :: evs') log r := by
  obtain ⟨evs, hlog, htransfers, hret⟩ := h
  refine ⟨e :: evs, by rw [hlog, List.append_assoc, List.singleton_append], List.forall_mem_cons.2 ⟨he, htransfers⟩, ?_⟩
  rcases hret with ⟨hzero, hdone⟩ | ⟨hneg, b, hmem, hfailed⟩
  · exact Or.inl ⟨hzero, evs, hdone, rfl⟩
  · exact Or.inr ⟨hneg, b, List.mem_cons_of_mem _ hmem, hfailed⟩

/-- Two steps, the second only when the first is done. -/
theorem Ran.bind (h : Ran P log r) (h' : r.1 = 0 → Ran Q r.2 r') :
    Ran (fun evs => ∃ a b, P a ∧ Q b ∧ evs = a ++ b) log (if r.1 ≠ 0 then r else r') := by
  obtain ⟨a, hlog, htransfers, hret⟩ := h
  rcases hret with ⟨hzero, hdone⟩ | ⟨hneg, hfailed⟩
  · obtain ⟨b, hlog', htransfers', hret'⟩ := h' hzero
    rw [if_neg (Decidable.not_not.2 hzero)]
    refine ⟨a ++ b, by rw [hlog', hlog, List.append_assoc], List.forall_mem_append.2 ⟨htransfers, htransfers'⟩, ?_⟩
    rcases hret' with ⟨hzero', hdone'⟩ | ⟨hneg', e, hmem, hfailed'⟩
    · exact Or.inl ⟨hzero', a, b, hdone, hdone', rfl⟩
    · exact Or.inr ⟨hneg', e, List.mem_append_right _ hmem, hfailed'⟩
  · rw [if_pos (by omega)]
    exact ⟨a, hlog, htransfers, Or.inr ⟨hneg, hfailed⟩⟩

theorem txAckWait_ran (env : MasterEnv) (flag : BitVec 32) (log : List BusEvent) :
    Ran (fun evs => ∃ word, evs = [.ack word true] ∧ word.getLsbD 0 = ((env.txAck log).getLsbD 0 || flag.getLsbD 0)) log
      (txAckWait env flag log) := by
  unfold txAckWait
  simp only
  split
  · refine ⟨[.ack _ true], rfl, by simp [BusEvent.transfers], Or.inl ⟨rfl, _, rfl, ?_⟩⟩
    simp [EFX_I2C_TX_ACK_ENABLE, EFX_I2C_TX_ACK_VALID]
  · exact ⟨[.ack _ false], rfl, by simp [BusEvent.transfers], Or.inr ⟨show -ETIMEDOUT < 0 by decide, _,
      List.mem_singleton_self _, rfl⟩⟩

theorem rxAck_ran (env : MasterEnv) (log : List BusEvent) : Ran (fun evs => evs = [.rxAck true]) log (rxAck env log) := by
  unfold rxAck
  split
  · exact ⟨[.rxAck true], rfl, by simp [BusEvent.transfers], Or.inl ⟨rfl, rfl⟩⟩
  · exact ⟨[.rxAck false], rfl, by simp [BusEvent.transfers], Or.inr ⟨show - EIO < 0 by decide, _,
      List.mem_singleton_self _, rfl⟩⟩

theorem masterWrite_ran (env : MasterEnv) (byte : BitVec 8) (log : List BusEvent) :
    Ran (fun evs => ∃ word, evs = [.tx byte, .ack word true]) log (masterWrite env byte log) := by
  refine ((txAckWait_ran env NACK (log ++ [BusEvent.tx byte])).cons rfl).imp ?_
  rintro evs ⟨evs', ⟨word, rfl, -⟩, rfl⟩
  exact ⟨word, rfl⟩

theorem busStart_ran (env : MasterEnv) (addr : BitVec 8) (log : List BusEvent) :
    Ran (fun evs => ∃ word, evs = [.start, .tx addr, .ack word true, .rxAck true]) log (busStart env addr log) := by
  have hwrite := masterWrite_ran env addr (log ++ [BusEvent.start])
  have hboth := hwrite.bind fun _ => rxAck_ran env (masterWrite env addr (log ++ [BusEvent.start])).2
  refine (Ran.cons rfl hboth).imp ?_
  rintro evs ⟨evs', ⟨a, b, ⟨word, rfl⟩, rfl, rfl⟩, rfl⟩
  exact ⟨word, rfl⟩

theorem masterRead_ran (hvalue : env.ValueWriteOnly) (count : ℕ) (byte : BitVec 8) (log : List BusEvent) :
    Ran (fun evs => ∃ word, word.getLsbD 0 = decide (count = 1) ∧
      evs = [.tx EFX_I2C_READ_MASK, .ack word true, .rxData (masterRead env count byte log).2]) log
      (masterRead env count byte log).1 := by
  have hwait := txAckWait_ran env (if count = 1 then NACK else ACK) (log ++ [BusEvent.tx EFX_I2C_READ_MASK])
  obtain ⟨evs, hlog, htransfers, hret⟩ := hwait.cons rfl
  unfold masterRead
  simp only
  generalize txAckWait env (if count = 1 then NACK else ACK) (log ++ [BusEvent.tx EFX_I2C_READ_MASK]) = r at hlog hret ⊢
  rcases hret with ⟨hzero, evs', ⟨word, rfl, hword⟩, rfl⟩ | ⟨hneg, hfailed⟩
  · rw [if_neg (by omega)]
    refine ⟨[BusEvent.tx EFX_I2C_READ_MASK, .ack word true] ++
      [BusEvent.rxData ((env.rxData r.2 &&& 0xff#32).setWidth 8)], ?_, ?_,
      Or.inl ⟨rfl, word, ?_, rfl⟩⟩
    · rw [hlog, List.append_assoc]
    · exact List.forall_mem_append.2 ⟨htransfers, by simp [BusEvent.transfers]⟩
    · rw [hword, hvalue, Bool.false_or]
      split
      · rename_i hone
        rw [decide_eq_true hone]
        rfl
      · rename_i hmore
        rw [decide_eq_false hmore]
        rfl
  · rw [if_pos hneg]
    exact ⟨evs, hlog, htransfers, Or.inr ⟨hneg, hfailed⟩⟩

/-- **The bytes of a message**, one by one. -/
theorem msgLoop_ran (hvalue : env.ValueWriteOnly) (rd : Bool) (buf : List (BitVec 8)) :
    ∀ log, Ran (BytesDone rd buf (msgLoop env rd buf log).2) log (msgLoop env rd buf log).1 := by
  induction buf with
  | nil =>
    intro log
    exact ⟨[], (List.append_nil log).symm, fun e hmem => absurd hmem List.not_mem_nil, Or.inl ⟨rfl, rfl, rfl⟩⟩
  | cons byte rest ih =>
    intro log
    unfold msgLoop
    cases rd with
    | true =>
      have hread := masterRead_ran hvalue (rest.length + 1) byte log
      simp only [if_true]
      generalize masterRead env (rest.length + 1) byte log = s at hread ⊢
      by_cases hzero : s.1.1 = 0
      · -- what was read is what is stored
        have hboth := hread.bind fun _ => ih s.1.2
        rw [if_neg (Decidable.not_not.2 hzero)] at hboth
        rw [if_neg (Decidable.not_not.2 hzero), if_neg (Decidable.not_not.2 hzero)]
        refine hboth.imp ?_
        rintro evs ⟨a, b, ⟨word, hword, rfl⟩, hrest, rfl⟩
        refine ⟨word, _, b, hrest, ?_⟩
        rw [if_pos rfl]
        refine ⟨?_, s.2, rfl, rfl⟩
        rw [hword]
        cases rest with
        | nil => rfl
        | cons _ _ => simp
      · rw [if_pos hzero]
        exact hread.of_failed hzero
    | false =>
      have hwrite := masterWrite_ran env byte log
      simp only [Bool.false_eq_true, if_false]
      generalize masterWrite env byte log = r at hwrite ⊢
      by_cases hzero : r.1 = 0
      · have hack := hwrite.bind fun _ => rxAck_ran env r.2
        rw [if_neg (Decidable.not_not.2 hzero)] at hack ⊢
        by_cases hzero' : (rxAck env r.2).1 = 0
        · have hboth := hack.bind fun _ => ih (rxAck env r.2).2
          rw [if_neg (Decidable.not_not.2 hzero')] at hboth ⊢
          refine hboth.imp ?_
          rintro evs ⟨a, b, ⟨c, d, ⟨word, rfl⟩, rfl, rfl⟩, hrest, rfl⟩
          refine ⟨word, _, b, hrest, ?_⟩
          rw [if_neg Bool.false_ne_true]
          exact ⟨rfl, rfl⟩
        · rw [if_pos hzero']
          exact hack.of_failed hzero'
      · rw [if_pos hzero]
        exact hwrite.of_failed hzero

/-! ## A message and a transfer -/

/-- How a message ends, from `log` on. -/
inductive BodyEnded (msg : I2cMsg) (isLast : Bool) (log : List BusEvent) (s : (ℤ × List BusEvent) × I2cMsg) : Prop
  | failed (evs : List BusEvent) (htransfers : ∀ e ∈ evs, e.transfers = true) (hfailed : ∃ e ∈ evs, e.failed = true)
      (hret : s.1.1 < 0) (hlog : s.1.2 = log ++ evs ++ [.stop])
  | lost (evs : List BusEvent) (hlast : isLast = true) (hdone : MsgDone msg s.2 evs) (hret : s.1.1 = - EIO)
      (hlog : s.1.2 = log ++ evs ++ [.busy false])
  | stopped (evs : List BusEvent) (hlast : isLast = true) (hdone : MsgDone msg s.2 evs) (hret : s.1.1 = 0)
      (hlog : s.1.2 = log ++ evs ++ [.busy true, .stop])
  | more (evs : List BusEvent) (hlast : isLast = false) (hdone : MsgDone msg s.2 evs) (hret : s.1.1 = 0)
      (hlog : s.1.2 = log ++ evs)

/-- **A message** from its start on. -/
theorem body_outcome (hvalue : env.ValueWriteOnly) (msg : I2cMsg) (isLast : Bool) (log : List BusEvent) :
    BodyEnded msg isLast log (msgBody env msg isLast (busStart env msg.addr8 log)) := by
  have hstart := busStart_ran env msg.addr8 log
  have hboth := hstart.bind fun _ => msgLoop_ran hvalue msg.rd msg.buf (busStart env msg.addr8 log).2
  unfold msgBody
  generalize busStart env msg.addr8 log = r at hstart hboth ⊢
  by_cases hzero : r.1 = 0
  · -- the slave has taken its address
    rw [if_neg (Decidable.not_not.2 hzero)] at hboth ⊢
    simp only
    unfold msgEnd
    obtain ⟨evs, hlog, htransfers, hret⟩ := hboth
    generalize msgLoop env msg.rd msg.buf r.2 = s at hlog hret ⊢
    rcases hret with ⟨hzero', a, b, ⟨word, rfl⟩, hbytes, rfl⟩ | ⟨hneg, hfailed⟩
    · rw [if_neg (Decidable.not_not.2 hzero')]
      have hdone : MsgDone msg { msg with buf := s.2 }
          ([BusEvent.start, .tx msg.addr8, .ack word true, .rxAck true] ++ b) :=
        ⟨word, s.2, b, hbytes, rfl, rfl⟩
      cases isLast with
      | false => exact .more _ rfl hdone rfl hlog
      | true =>
        rw [if_pos rfl]
        cases masterBusy env s.1.2 with
        | false =>
          rw [if_neg Bool.false_ne_true]
          exact .lost _ rfl hdone rfl (by rw [hlog])
        | true =>
          rw [if_pos rfl]
          exact .stopped _ rfl hdone hzero' (by unfold terminate; simp only; rw [hlog, List.append_assoc]; rfl)
    · rw [if_pos (by omega)]
      exact .failed evs htransfers hfailed hneg (by unfold terminate; simp only; rw [hlog])
  · obtain ⟨evs, hlog, htransfers, hret⟩ := hstart
    rw [if_pos hzero]
    rcases hret with ⟨hzero', -⟩ | ⟨hneg, hfailed⟩
    · exact absurd hzero' hzero
    · exact .failed evs htransfers hfailed hneg (by unfold terminate; simp only; rw [hlog])

/-- How the messages of a transfer end. -/
inductive Ended (msgs : List I2cMsg) (log : List BusEvent) (s : (ℤ × List BusEvent) × List I2cMsg) : Prop
  | failed (evs : List BusEvent) (htransfers : ∀ e ∈ evs, e.transfers = true) (hfailed : ∃ e ∈ evs, e.failed = true)
      (hret : s.1.1 < 0) (hlog : s.1.2 = log ++ evs ++ [.stop])
  | lost (evs : List BusEvent) (hdone : AllDone msgs s.2 evs) (hret : s.1.1 = - EIO)
      (hlog : s.1.2 = log ++ evs ++ [.busy false])
  | stopped (evs : List BusEvent) (hdone : AllDone msgs s.2 evs) (hret : s.1.1 = 0)
      (hlog : s.1.2 = log ++ evs ++ [.busy true, .stop])

theorem bytesDone_clean {rd : Bool} {buf : List (BitVec 8)} :
    ∀ {stored : List (BitVec 8)} {evs : List BusEvent}, BytesDone rd buf stored evs →
      ∀ e ∈ evs, e.transfers = true ∧ e.failed = false := by
  induction buf with
  | nil =>
    rintro stored evs ⟨-, rfl⟩ e hmem
    exact absurd hmem List.not_mem_nil
  | cons byte rest ih =>
    rintro stored evs ⟨word, stored', evs', hrest, hevs⟩
    have htail := ih hrest
    cases rd with
    | true =>
      rw [if_pos rfl] at hevs
      obtain ⟨-, data, -, rfl⟩ := hevs
      exact List.forall_mem_append.2 ⟨by simp [BusEvent.transfers, BusEvent.failed], htail⟩
    | false =>
      rw [if_neg Bool.false_ne_true] at hevs
      rw [hevs.2]
      exact List.forall_mem_append.2 ⟨by simp [BusEvent.transfers, BusEvent.failed], htail⟩

theorem msgDone_clean {msg after : I2cMsg} {evs : List BusEvent} (h : MsgDone msg after evs) :
    ∀ e ∈ evs, e.transfers = true ∧ e.failed = false := by
  obtain ⟨word, stored, evs', hbytes, -, rfl⟩ := h
  exact List.forall_mem_append.2 ⟨by simp [BusEvent.transfers, BusEvent.failed], bytesDone_clean hbytes⟩

/-- In a complete transfer nothing failed. -/
theorem allDone_clean {msgs : List I2cMsg} :
    ∀ {after : List I2cMsg} {evs : List BusEvent}, AllDone msgs after evs →
      ∀ e ∈ evs, e.transfers = true ∧ e.failed = false := by
  induction msgs with
  | nil =>
    rintro after evs ⟨-, rfl⟩ e hmem
    exact absurd hmem List.not_mem_nil
  | cons msg rest ih =>
    rintro after evs ⟨msg', rest', first, others, hfirst, hothers, -, rfl⟩
    exact List.forall_mem_append.2 ⟨msgDone_clean hfirst, ih hothers⟩

/-- A message and those after it. -/
theorem ended_cons {msg : I2cMsg} {rest : List I2cMsg} {isLast : Bool} {sb : (ℤ × List BusEvent) × I2cMsg}
    (next : List BusEvent → (ℤ × List BusEvent) × List I2cMsg) (hbody : BodyEnded msg isLast log sb)
    (hlast : isLast = true → ∀ log, rest = [] ∧ next log = ((0, log), []))
    (hrest : isLast = false → ∀ log, Ended rest log (next log)) :
    Ended (msg :: rest) log
      (if sb.1.1 ≠ 0 then (sb.1, sb.2 :: rest) else ((next sb.1.2).1, sb.2 :: (next sb.1.2).2)) := by
  cases hbody with
  | failed evs htransfers hfailed hret hlog =>
    rw [if_pos (by omega)]
    exact .failed evs htransfers hfailed hret hlog
  | lost evs hl hdone hret hlog =>
    rw [if_pos (by rw [hret]; decide), (hlast hl []).1]
    exact .lost evs ⟨sb.2, [], evs, [], hdone, ⟨rfl, rfl⟩, rfl, (List.append_nil evs).symm⟩ hret hlog
  | stopped evs hl hdone hret hlog =>
    rw [if_neg (Decidable.not_not.2 hret), (hlast hl sb.1.2).2, (hlast hl []).1]
    exact .stopped evs ⟨sb.2, [], evs, [], hdone, ⟨rfl, rfl⟩, rfl, (List.append_nil evs).symm⟩ rfl hlog
  | more evs hl hdone hret hlog =>
    rw [if_neg (Decidable.not_not.2 hret)]
    cases hrest hl sb.1.2 with
    | failed evs' htransfers hfailed hret' hlog' =>
      refine .failed (evs ++ evs') ?_ ?_ hret' (by rw [hlog', hlog, ← List.append_assoc])
      · exact List.forall_mem_append.2 ⟨fun e hmem => (msgDone_clean hdone e hmem).1, htransfers⟩
      · obtain ⟨e, hmem, he⟩ := hfailed
        exact ⟨e, List.mem_append_right _ hmem, he⟩
    | lost evs' hdone' hret' hlog' =>
      exact .lost (evs ++ evs') ⟨sb.2, _, evs, evs', hdone, hdone', rfl, rfl⟩ hret'
        (by rw [hlog', hlog, ← List.append_assoc])
    | stopped evs' hdone' hret' hlog' =>
      exact .stopped (evs ++ evs') ⟨sb.2, _, evs, evs', hdone, hdone', rfl, rfl⟩ hret'
        (by rw [hlog', hlog, ← List.append_assoc])

/-- **The messages after the first.** -/
theorem xferLoop_ended (hvalue : env.ValueWriteOnly) (num : ℕ) (msgs : List I2cMsg) :
    ∀ i log, 0 < i → i + msgs.length = num → msgs ≠ [] → Ended msgs log (xferLoop env num msgs i log) := by
  induction msgs with
  | nil => exact fun _ _ _ _ hne => absurd rfl hne
  | cons msg rest ih =>
    intro i log hi hnum _
    rw [List.length_cons] at hnum
    have hmsg : xferMsg env msg num (decide (i = 0)) (decide (i = num - 1)) log =
        msgBody env msg (decide (i = num - 1)) (busStart env msg.addr8 log) := by
      unfold xferMsg
      rw [decide_eq_false (show ¬i = 0 by omega), if_neg Bool.false_ne_true, if_pos (show num > 1 by omega)]
    have hbody := body_outcome hvalue msg (decide (i = num - 1)) log
    unfold xferLoop
    rw [hmsg]
    refine ended_cons (xferLoop env num rest (i + 1)) hbody ?_ ?_
    · intro hlast log
      have hlen : rest.length = 0 := by
        have heq := of_decide_eq_true hlast
        omega
      have hnil := List.length_eq_zero_iff.1 hlen
      exact ⟨hnil, by rw [hnil]; rfl⟩
    · intro hlast log
      have hne := of_decide_eq_false hlast
      refine ih (i + 1) log (by omega) (by omega) ?_
      rintro rfl
      rw [List.length_nil] at hnum
      omega

/-- **The ends of a transfer**: the bus was busy, something failed, the bus was lost, or all is done. -/
theorem xfer_outcome (hvalue : env.ValueWriteOnly) {msgs : List I2cMsg} (hne : msgs ≠ []) :
    i2cXfer env msgs = ((-EBUSY, [.busy true]), msgs) ∨
      ∃ s, Ended msgs [.busy false] s ∧
        i2cXfer env msgs = ((if s.1.1 < 0 then s.1.1 else msgs.length, s.1.2), s.2) := by
  obtain ⟨msg, rest, rfl⟩ := List.exists_cons_of_ne_nil hne
  unfold i2cXfer xferLoop xferMsg
  simp only [decide_true, if_true, List.nil_append]
  cases masterBusy env [] with
  | true =>
    left
    rfl
  | false =>
    right
    simp only [Bool.false_eq_true, if_false]
    have hbody := body_outcome hvalue msg (decide (0 = (msg :: rest).length - 1)) [.busy false]
    refine ⟨_, ended_cons (xferLoop env (msg :: rest).length rest (0 + 1)) hbody ?_ ?_, rfl⟩
    · intro hlast log
      have heq := of_decide_eq_true hlast
      rw [List.length_cons] at heq
      have hnil := List.length_eq_zero_iff.1 (show rest.length = 0 by omega)
      exact ⟨hnil, by rw [hnil]; rfl⟩
    · intro hlast log
      have hmore := of_decide_eq_false hlast
      rw [List.length_cons] at hmore
      refine xferLoop_ended hvalue (msg :: rest).length rest (0 + 1) log (by omega) ?_ ?_
      · rw [List.length_cons]
        omega
      · rintro rfl
        exact hmore rfl

/-- A log with what is transferred in its middle: that is what it transfers, and a stop is at its end. -/
theorem log_between {log evs after : List BusEvent} (hlog : log = [.busy false] ++ evs ++ after)
    (hevs : ∀ e ∈ evs, e.transfers = true) (hafter : ∀ e ∈ after, e.transfers = false) :
    transferred log = evs ∧ log.count .stop = after.count .stop := by
  have hbefore : transferred [.busy false] = [] := rfl
  have hmiddle : transferred evs = evs := List.filter_eq_self.2 hevs
  have hend : transferred after = [] := by
    refine List.filter_eq_nil_iff.2 ?_
    intro e hmem
    rw [hafter e hmem]
    exact Bool.false_ne_true
  have hstop : evs.count .stop = 0 := by
    apply List.count_eq_zero.2
    intro hmem
    exact absurd (hevs _ hmem) Bool.false_ne_true
  rw [hlog]
  constructor
  · unfold transferred at hbefore hmiddle hend ⊢
    rw [List.filter_append, List.filter_append, hbefore, hmiddle, hend, List.nil_append, List.append_nil]
  · rw [List.count_append, List.count_append, hstop]
    exact Nat.zero_add _

/-- **A transfer** returns the number of its messages exactly when all of it is done and the bus still held, an error
otherwise; when all is done the buffers have their bytes; and with a start one stop is sent, unless the bus was lost at
the end. -/
theorem xfer_returns (hvalue : env.ValueWriteOnly) {msgs : List I2cMsg} (hne : msgs ≠ []) :
    XferHeld msgs (i2cXfer env msgs) := by
  have hlen : (0 : ℤ) < msgs.length := by
    have hpos := List.length_pos_iff.2 hne
    omega
  rcases xfer_outcome hvalue hne with heq | ⟨s, hended, heq⟩
  · -- nothing was sent
    rw [heq]
    have hnone : ¬Complete msgs (transferred [.busy true]) := by
      obtain ⟨msg, rest, rfl⟩ := List.exists_cons_of_ne_nil hne
      rintro ⟨after, msg', rest', first, others, ⟨word, stored, evs', -, -, rfl⟩, -, -, hnil⟩
      cases hnil
    refine ⟨⟨fun h => ?_, fun h => absurd h.1 hnone⟩, fun h => absurd h hnone, fun _ => show -EBUSY < 0 by decide, ?_,
      fun h => absurd h hnone⟩
    · have hneg : -EBUSY < 0 := by decide
      simp only at h
      omega
    · intro hstart
      exact absurd hstart (show BusEvent.start ∉ [BusEvent.busy true] by decide)
  · rw [heq]
    cases hended with
    | failed evs htransfers hfailed hret hlog =>
      obtain ⟨hevs, hstops⟩ := log_between hlog htransfers (by simp [BusEvent.transfers])
      -- what failed is in the log, and in a complete transfer nothing did
      have hnone : ¬Complete msgs (transferred s.1.2) := by
        rw [hevs]
        rintro ⟨after, h⟩
        obtain ⟨e, hmem, he⟩ := hfailed
        exact absurd ((allDone_clean h e hmem).2.symm.trans he) Bool.false_ne_true
      rw [if_pos hret]
      refine ⟨⟨fun h => ?_, fun h => absurd h.1 hnone⟩, fun h => absurd h hnone, fun _ => hret, fun _ _ => ?_,
        fun h => absurd h hnone⟩
      · simp only at h
        omega
      · exact hstops
    | lost evs hdone hret hlog =>
      -- all is done, and the last reading is that the bus is free
      have htransfers := fun e hmem => (allDone_clean hdone e hmem).1
      obtain ⟨hevs, hstops⟩ := log_between hlog htransfers (by simp [BusEvent.transfers])
      have hlost : stillBusy s.1.2 = false := by
        unfold stillBusy
        rw [hlog, lastOf_concat]
        rfl
      have hneg : - EIO < 0 := by decide
      rw [if_pos (by omega)]
      refine ⟨⟨fun h => ?_, fun h => ?_⟩, fun _ => ?_, fun _ => by simp only; omega, fun _ h => ?_,
        fun _ _ => ⟨hret, ?_⟩⟩
      · simp only at h
        omega
      · exact absurd (hlost.symm.trans h.2) Bool.false_ne_true
      · simp only [hevs]
        exact hdone
      · simp only [hevs] at h
        exact absurd ⟨⟨s.2, hdone⟩, hlost⟩ h
      · exact hstops
    | stopped evs hdone hret hlog =>
      have htransfers := fun e hmem => (allDone_clean hdone e hmem).1
      obtain ⟨hevs, hstops⟩ := log_between hlog htransfers (by simp [BusEvent.transfers])
      have hheld : stillBusy s.1.2 = true := by
        unfold stillBusy
        have hsplit : [BusEvent.busy false] ++ evs ++ [BusEvent.busy true, .stop] =
            [BusEvent.busy false] ++ evs ++ [BusEvent.busy true] ++ [BusEvent.stop] :=
          (List.append_assoc ([BusEvent.busy false] ++ evs) [BusEvent.busy true] [BusEvent.stop]).symm
        rw [hlog, hsplit, lastOf_concat, lastOf_concat]
        rfl
      have hall : AllDone msgs s.2 (transferred s.1.2) := by
        rw [hevs]
        exact hdone
      rw [if_neg (by omega)]
      refine ⟨⟨fun _ => ⟨⟨s.2, hall⟩, hheld⟩, fun _ => rfl⟩, fun _ => hall, fun h => absurd rfl h, fun _ _ => ?_,
        fun _ h => ?_⟩
      · exact hstops
      · exact absurd (hheld.symm.trans h) (by decide)

/-- A controller on which every byte is done and acknowledged; it is busy from the start on. -/
def answering : MasterEnv where
  masterStatus := fun log => if log = [] then 0#32 else 1#32
  txAck := fun _ => 0x200#32
  polled := fun _ => true
  rxAck := fun _ => 0#32
  rxData := fun _ => 0x15A#32

/-- The same, but it is never busy. -/
def neverBusy : MasterEnv := { answering with masterStatus := fun _ => 0#32 }

theorem answering_valueWriteOnly : answering.ValueWriteOnly := by
  intro log
  exact show (0x200#32).getLsbD 0 = false by decide

/-- A register is written, and two bytes are read from it. -/
def readRegister : List I2cMsg := [⟨0x50#16, false, [0x10#8]⟩, ⟨0x50#16, true, [0#8, 0#8]⟩]

/-- The register is read, and what was read is in the second message. -/
theorem register_read :
    XferHeld readRegister (i2cXfer answering readRegister) ∧ (i2cXfer answering readRegister).1.1 = 2 ∧
      (i2cXfer answering readRegister).2 = [⟨0x50#16, false, [0x10#8]⟩, ⟨0x50#16, true, [0x5A#8, 0x5A#8]⟩] :=
  ⟨xfer_returns answering_valueWriteOnly (by decide), by decide, by decide⟩

/-- **The bus is lost at the end**: all was transferred and acknowledged, and it is an error, without a stop. -/
theorem lost_at_end :
    ¬ XferRight [⟨0x50#16, false, [0x10#8]⟩] (i2cXfer neverBusy [⟨0x50#16, false, [0x10#8]⟩]) ∧
      (i2cXfer neverBusy [⟨0x50#16, false, [0x10#8]⟩]).1 =
        (- EIO, [.busy false, .start, .tx 0xA0#8, .ack 0x301#32 true, .rxAck true, .tx 0x10#8, .ack 0x301#32 true,
          .rxAck true, .busy false]) := by
  have heq : (i2cXfer neverBusy [⟨0x50#16, false, [0x10#8]⟩]).1 =
      (- EIO, [.busy false, .start, .tx 0xA0#8, .ack 0x301#32 true, .rxAck true, .tx 0x10#8, .ack 0x301#32 true,
        .rxAck true, .busy false]) := by decide
  refine ⟨?_, heq⟩
  intro h
  have hreleased := h.released
  rw [heq] at hreleased
  exact absurd (hreleased (by decide)) (by decide)

end Br2Efinix.I2c
