import Mathlib.Algebra.GroupWithZero.Nat
import Br2Efinix.Lib.Machine
import Br2Efinix.Lib.Ring

/-!
# The transmitter of the UART

`spinal_lib_uart_interrupt` with `spinal_lib_uart_tx_chars`, `spinal_lib_uart_start_tx` and the helpers
that enable and disable the interrupts, under the serial core's circular buffer. The handler clears
both enables first and takes in what was received; the lock is free until it has done so, and a writer
may come in between.

* `transmit_kept_iff`: in every run the characters written to the data register are those of the
  buffer, in order, each once; and the enable of the TX interrupt is kept exactly when no handler that
  finds characters to send returns without a TX-ready status, or after an `x_char`, with the enable
  still cleared.
-/

namespace Br2Efinix.Uart

def CONTROL_TRDY_MSK : BitVec 32 := 1#32 <<< 0

def CONTROL_RRDY_MSK : BitVec 32 := 1#32 <<< 1

def STATUS_TRDY_MSK : BitVec 32 := 1#32 <<< 8

def FIFO_DEPTH : ℕ := 128

/-- The page that holds `xmit->buf`. -/
def UART_XMIT_SIZE : ℕ := 4096

/-- A write of the data register: a character of the buffer, or `x_char`. -/
inductive DataWrite
  | char (b : BitVec 8)
  | xchar (b : BitVec 8)
  deriving DecidableEq, Repr

/-- The port: `xmit` and what else of `struct uart_port` and `struct spinal_lib_uart` the transmitter
reads, the status register as last written, and the status read by a handler that has not returned
yet. Only observed are the writes of the data register and the characters that writers have put into
the buffer. -/
structure Port where
  buf : ℕ → BitVec 8
  head : ℕ
  tail : ℕ
  xChar : BitVec 8
  stopped : Bool
  icountTx : BitVec 32
  imr : BitVec 32
  status : BitVec 32
  handler : Option (BitVec 32)
  data : List DataWrite
  accepted : List (BitVec 8)

/-- `enter` is the handler up to its lock, with the status that it reads; `leave` is the rest of it,
with the status words that `spinal_lib_uart_tx_availability` reads. -/
inductive Act
  | write (bs : List (BitVec 8))
  | startTx
  | sendXchar (c : BitVec 8)
  | stop
  | start
  | enter (isr : BitVec 32)
  | leave (words : ℕ → BitVec 32)

namespace Port

/-- `spinal_lib_uart_update_ctrl_reg`: an `unsigned short` goes to the register. -/
def updateCtrlReg (p : Port) : Port := { p with status := (p.imr.setWidth 16).setWidth 32 }

def disableTxInterrupt (p : Port) : Port :=
  updateCtrlReg { p with imr := p.imr &&& ~~~CONTROL_TRDY_MSK }

def disableRxInterrupt (p : Port) : Port :=
  updateCtrlReg { p with imr := p.imr &&& ~~~CONTROL_RRDY_MSK }

def enableTxInterrupt (p : Port) : Port :=
  updateCtrlReg { p with imr := p.imr ||| CONTROL_TRDY_MSK }

def enableRxInterrupt (p : Port) : Port :=
  updateCtrlReg { p with imr := p.imr ||| CONTROL_RRDY_MSK }

/-- `spinal_lib_uart_stop_tx`. -/
def stopTx (p : Port) : Port := p.disableTxInterrupt

/-- `spinal_lib_uart_start_tx`. -/
def startTx (p : Port) : Port := p.enableTxInterrupt

/-- `spinal_lib_uart_tx` and the count after it. -/
def tx (p : Port) (w : DataWrite) : Port := { p with data := p.data ++ [w], icountTx := p.icountTx + 1 }

end Port

/-- `spinal_lib_uart_tx_availability` of a status word. -/
def txAvailability (word : BitVec 32) : BitVec 32 := (word >>> 16) &&& 0xFF#32

namespace Port

/-- The loop of `spinal_lib_uart_tx_chars`, with `numbytes` left, on the status words still to be
read. -/
def sendChars (words : ℕ → BitVec 32) : ℕ → ℕ → Port → Port
  | 0, _, p => p
  | numbytes + 1, i, p =>
    if p.head ≠ p.tail ∧ txAvailability (words i) ≠ 0#32 then
      sendChars words numbytes (i + 1)
        { p.tx (.char (p.buf p.tail)) with tail := (p.tail + 1) &&& (UART_XMIT_SIZE - 1) }
    else p

/-- The end of `spinal_lib_uart_tx_chars`, from its loop on. -/
def sendBuffer (p : Port) (words : ℕ → BitVec 32) (i : ℕ) : Port :=
  let q := sendChars words FIFO_DEPTH i p
  if q.head = q.tail then q.stopTx else q.enableTxInterrupt

/-- `spinal_lib_uart_tx_chars`. A status word is read for `x_char` only when there is one. -/
def txChars (p : Port) (words : ℕ → BitVec 32) : Port :=
  if p.xChar ≠ 0#8 ∧ txAvailability (words 0) ≠ 0#32 then { p.tx (.xchar p.xChar) with xChar := 0#8 }
  else if p.head = p.tail ∨ p.stopped = true then p.stopTx
  else p.sendBuffer words (if p.xChar ≠ 0#8 then 1 else 0)

/-- The serial core puts one character into the buffer, if there is room. -/
def put (p : Port) (b : BitVec 8) : Port :=
  if (p.head + 1) % UART_XMIT_SIZE = p.tail then p
  else
    { p with
      buf := fun j => if j = p.head then b else p.buf j
      head := (p.head + 1) % UART_XMIT_SIZE
      accepted := p.accepted ++ [b] }

/-- The serial core starts a port that is not stopped. -/
def uartStart (p : Port) : Port := if p.stopped then p else p.startTx

def next (p : Port) : Act → Option Port
  | .write bs => some (bs.foldl put p).uartStart
  | .startTx => some p.startTx
  | .sendXchar c => some (if c ≠ 0#8 then startTx { p with xChar := c } else { p with xChar := c })
  | .stop => some (stopTx { p with stopped := true })
  | .start => some (startTx { p with stopped := false })
  | .enter isr =>
    if p.handler = none then
      some { p.disableTxInterrupt.disableRxInterrupt with handler := some isr }
    else none
  | .leave words =>
    match p.handler with
    | some isr =>
      let q := if isr &&& STATUS_TRDY_MSK ≠ 0#32 then p.txChars words else p
      some { q.enableRxInterrupt with handler := none }
    | none => none

/-- After `spinal_lib_uart_startup`, with an empty buffer. -/
structure Started (p : Port) : Prop where
  tail_lt : p.tail < UART_XMIT_SIZE
  empty : p.head = p.tail
  imr : p.imr = CONTROL_RRDY_MSK
  status : p.status = CONTROL_RRDY_MSK
  handler : p.handler = none
  data : p.data = []
  accepted : p.accepted = []

/-- The TX interrupt is enabled. -/
def txEnabled (p : Port) : Bool := p.status.getLsbD 0

/-- What is in the buffer, first the character to be sent next. -/
def pending (p : Port) : List (BitVec 8) := (Ring.between UART_XMIT_SIZE p.tail p.head).map p.buf

end Port

def uart : Machine Port Act := { init := Port.Started, step := Port.next }

/-- The characters among the writes of the data register. -/
def chars (ws : List DataWrite) : List (BitVec 8) :=
  ws.filterMap fun w => match w with
    | .char b => some b
    | .xchar _ => none

/-- The actions that end with `spinal_lib_uart_start_tx` unless the port is stopped. -/
def Act.starts : Act → Bool
  | .write _ | .startTx | .start => true
  | .sendXchar c => decide (c ≠ 0#8)
  | _ => false

/-- The TX interrupt is enabled if there is something to send. -/
def Armed (p : Port) : Prop := p.head ≠ p.tail → p.stopped = false → p.txEnabled = true

/-- What an action is to leave: the TX interrupt enabled, when it has started the transmitter or when
no handler is left that has cleared the enable; and the characters sent, followed by those in the
buffer, those that were accepted. -/
structure Kept (a : Act) (p : Port) : Prop where
  armed : a.starts = true ∨ p.handler = none → Armed p
  sent : chars p.data ++ p.pending = p.accepted

/-- A handler that returns with something to send has come by the end of `spinal_lib_uart_tx_chars`,
or the transmitter was started since it cleared the enable. -/
def Serves (p : Port) : Act → Prop
  | .leave words =>
    p.head = p.tail ∨ p.stopped = true ∨ p.txEnabled = true ∨
      p.handler.getD 0#32 &&& STATUS_TRDY_MSK ≠ 0#32 ∧ ¬ (p.xChar ≠ 0#8 ∧ txAvailability (words 0) ≠ 0#32)
  | _ => True

instance (p : Port) : ∀ a, Decidable (Serves p a)
  | .leave words =>
    inferInstanceAs (Decidable (p.head = p.tail ∨ p.stopped = true ∨ p.txEnabled = true ∨
      p.handler.getD 0#32 &&& STATUS_TRDY_MSK ≠ 0#32 ∧ ¬ (p.xChar ≠ 0#8 ∧ txAvailability (words 0) ≠ 0#32)))
  | .write _ | .startTx | .sendXchar _ | .stop | .start | .enter _ => isTrue trivial

variable {p q : Port}

/-! ## The enables -/

@[simp] theorem txEnabled_updateCtrlReg (p : Port) : p.updateCtrlReg.txEnabled = p.imr.getLsbD 0 := by
  simp [Port.txEnabled, Port.updateCtrlReg]

@[simp] theorem txEnabled_enableTxInterrupt (p : Port) : p.enableTxInterrupt.txEnabled = true := by
  unfold Port.enableTxInterrupt
  rw [txEnabled_updateCtrlReg]
  simp [CONTROL_TRDY_MSK]

@[simp] theorem txEnabled_startTx (p : Port) : p.startTx.txEnabled = true := txEnabled_enableTxInterrupt p

/-- The register holds the enable that `imr` has. -/
def Synced (p : Port) : Prop := p.txEnabled = p.imr.getLsbD 0

theorem synced_updateCtrlReg (p : Port) : Synced p.updateCtrlReg := txEnabled_updateCtrlReg p

/-- Enabling the RX interrupt leaves the TX one alone. -/
theorem txEnabled_enableRxInterrupt (h : Synced p) : p.enableRxInterrupt.txEnabled = p.txEnabled := by
  unfold Port.enableRxInterrupt
  rw [txEnabled_updateCtrlReg, h]
  simp [CONTROL_RRDY_MSK]

/-! ## The buffer -/

/-- `tail` and `head` are the slots of two positions less than a turn apart, and what was sent and
what is between them is what was accepted. -/
structure Books (p : Port) : Prop where
  ring : ∃ lo hi, lo ≤ hi ∧ hi < lo + UART_XMIT_SIZE ∧ p.tail = lo % UART_XMIT_SIZE ∧ p.head = hi % UART_XMIT_SIZE
  sent : chars p.data ++ p.pending = p.accepted

theorem Books.of_same (h : Books p) (hbuf : q.buf = p.buf) (hhead : q.head = p.head) (htail : q.tail = p.tail)
    (hdata : chars q.data = chars p.data) (hacc : q.accepted = p.accepted) : Books q := by
  refine ⟨by rw [hhead, htail]; exact h.ring, ?_⟩
  unfold Port.pending
  rw [hbuf, hhead, htail, hdata, hacc]
  exact h.sent

theorem chars_append (ws : List DataWrite) (w : DataWrite) : chars (ws ++ [w]) = chars ws ++ chars [w] := by
  unfold chars
  rw [List.filterMap_append]

/-- **A character goes** from the buffer to the data register. -/
theorem Books.pop (h : Books p) (hne : p.head ≠ p.tail) :
    Books { p.tx (.char (p.buf p.tail)) with tail := (p.tail + 1) &&& (UART_XMIT_SIZE - 1) } := by
  obtain ⟨lo, hi, hle, hlt, htail, hhead⟩ := h.ring
  have hlohi : lo < hi := by
    rcases Nat.eq_or_lt_of_le hle with heq | hlt'
    · rw [heq] at htail
      exact absurd (hhead.trans htail.symm) hne
    · exact hlt'
  have hmask : (p.tail + 1) &&& (UART_XMIT_SIZE - 1) = (lo + 1) % UART_XMIT_SIZE := by
    rw [htail, ← Ring.slot_add]
    exact Nat.and_two_pow_sub_one_eq_mod _ 12
  have hbefore : p.pending = p.buf p.tail :: (Ring.slots UART_XMIT_SIZE (lo + 1) hi).map p.buf := by
    unfold Port.pending
    rw [htail, hhead, Ring.between_slots hle hlt, Ring.slots_cons hlohi]
    rfl
  have hsent := h.sent
  rw [hbefore] at hsent
  refine ⟨⟨lo + 1, hi, hlohi, by omega, hmask, hhead⟩, ?_⟩
  unfold Port.pending
  simp only [Port.tx]
  rw [hmask, hhead, Ring.between_slots hlohi (by omega), chars_append, List.append_assoc]
  exact hsent

/-- **A character comes** into the buffer. -/
theorem Books.put (h : Books p) (b : BitVec 8) : Books (p.put b) := by
  obtain ⟨lo, hi, hle, hlt, htail, hhead⟩ := h.ring
  unfold Port.put
  split
  · exact h
  · rename_i hroom
    have hsucc : (p.head + 1) % UART_XMIT_SIZE = (hi + 1) % UART_XMIT_SIZE := by rw [hhead, Ring.slot_add]
    have hnext : hi + 1 < lo + UART_XMIT_SIZE := by
      rcases Nat.lt_or_ge (hi + 1) (lo + UART_XMIT_SIZE) with hlt' | hge
      · exact hlt'
      · -- the position after `hi` would be that of the tail, a turn on
        exfalso
        apply hroom
        rw [hsucc, htail, show hi + 1 = lo + UART_XMIT_SIZE by omega, Nat.add_mod_right]
    refine ⟨⟨lo, hi + 1, by omega, hnext, htail, hsucc⟩, ?_⟩
    have hold : (Ring.slots UART_XMIT_SIZE lo hi).map (fun j => if j = p.head then b else p.buf j) =
        (Ring.slots UART_XMIT_SIZE lo hi).map p.buf := by
      apply List.map_congr_left
      intro j hj
      obtain ⟨r, hr, hr', hrj⟩ := Ring.mem_slots.1 hj
      have hne : j ≠ p.head := by
        rw [← hrj, hhead]
        exact Ring.slot_ne hr (by omega) hle (by omega) (by omega)
      rw [if_neg hne]
    have hlast :
        (Ring.slots UART_XMIT_SIZE hi (hi + 1)).map (fun j => if j = p.head then b else p.buf j) = [b] := by
      rw [Ring.slots_cons (Nat.lt_succ_self hi), Ring.slots_self, List.map_singleton, if_pos hhead.symm]
    have hsent := h.sent
    unfold Port.pending at hsent ⊢
    rw [htail, hhead, Ring.between_slots hle hlt] at hsent
    simp only
    rw [htail, hsucc, Ring.between_slots (by omega) hnext, Ring.slots_append hle (Nat.le_succ hi), List.map_append,
      hold, hlast, ← List.append_assoc, hsent]

/-! ## What the operations keep -/

/-- The operation leaves the enables and the state of the port as they are. -/
structure SameEnables (p q : Port) : Prop where
  imr : q.imr = p.imr
  status : q.status = p.status
  stopped : q.stopped = p.stopped
  handler : q.handler = p.handler

theorem put_all (bs : List (BitVec 8)) (h : Books p) :
    Books (bs.foldl Port.put p) ∧ SameEnables p (bs.foldl Port.put p) := by
  induction bs generalizing p with
  | nil => exact ⟨h, rfl, rfl, rfl, rfl⟩
  | cons b bs ih =>
    have hsame : SameEnables p (p.put b) := by
      unfold Port.put
      split <;> exact ⟨rfl, rfl, rfl, rfl⟩
    obtain ⟨hbooks, hrest⟩ := ih (h.put b)
    exact ⟨hbooks, hrest.imr.trans hsame.imr, hrest.status.trans hsame.status, hrest.stopped.trans hsame.stopped,
      hrest.handler.trans hsame.handler⟩

theorem sendChars_books (words : ℕ → BitVec 32) (n : ℕ) :
    ∀ (i : ℕ) {p : Port}, Books p → Books (p.sendChars words n i) := by
  induction n with
  | zero => intro i p h; exact h
  | succ n ih =>
    intro i p h
    unfold Port.sendChars
    split
    · rename_i hmore
      exact ih (i + 1) (h.pop hmore.1)
    · exact h

theorem sendBuffer_books (words : ℕ → BitVec 32) (i : ℕ) (h : Books p) :
    Books (p.sendBuffer words i) := by
  have hq := sendChars_books words FIFO_DEPTH i h
  unfold Port.sendBuffer
  generalize Port.sendChars words FIFO_DEPTH i p = q at hq
  simp only
  split
  · exact hq.of_same rfl rfl rfl rfl rfl
  · exact hq.of_same rfl rfl rfl rfl rfl

/-- **The end of `spinal_lib_uart_tx_chars`** leaves the transmitter armed. -/
theorem sendBuffer_armed (words : ℕ → BitVec 32) (i : ℕ) :
    Synced (p.sendBuffer words i) ∧ Armed (p.sendBuffer words i) := by
  unfold Port.sendBuffer
  generalize Port.sendChars words FIFO_DEPTH i p = q
  simp only
  split
  · rename_i hempty
    refine ⟨synced_updateCtrlReg _, ?_⟩
    intro hne _
    exact absurd hempty hne
  · refine ⟨synced_updateCtrlReg _, ?_⟩
    intro _ _
    exact txEnabled_enableTxInterrupt q

theorem txChars_books (words : ℕ → BitVec 32) (h : Books p) : Books (p.txChars words) := by
  unfold Port.txChars
  split
  · refine h.of_same rfl rfl rfl ?_ rfl
    simp only [Port.tx]
    rw [chars_append]
    exact List.append_nil _
  split
  · exact h.of_same rfl rfl rfl rfl rfl
  · exact sendBuffer_books words _ h

theorem txChars_synced (words : ℕ → BitVec 32) (h : Synced p) : Synced (p.txChars words) := by
  unfold Port.txChars
  split
  · exact h
  split
  · exact synced_updateCtrlReg _
  · exact (sendBuffer_armed words _).1

/-- **`spinal_lib_uart_tx_chars` leaves the transmitter armed** unless it sends an `x_char`. -/
theorem txChars_armed (words : ℕ → BitVec 32) :
    Armed (p.txChars words) ↔
      p.head = p.tail ∨ p.stopped = true ∨ p.txEnabled = true ∨
        ¬ (p.xChar ≠ 0#8 ∧ txAvailability (words 0) ≠ 0#32) := by
  unfold Port.txChars
  split
  · rename_i hx
    constructor
    · intro h
      by_cases hempty : p.head = p.tail
      · exact .inl hempty
      by_cases hstopped : p.stopped = true
      · exact .inr (.inl hstopped)
      · exact .inr (.inr (.inl (h hempty (Bool.eq_false_iff.2 hstopped))))
    · rintro (hempty | hstopped | henabled | hno)
      · intro hne _; exact absurd hempty hne
      · intro _ hrun; exact absurd (hstopped.symm.trans hrun) (by decide)
      · intro _ _; exact henabled
      · exact absurd hx hno
  · rename_i hx
    refine iff_of_true ?_ (.inr (.inr (.inr hx)))
    split
    · rename_i hidle
      intro hne hrun
      rcases hidle with hempty | hstopped
      · exact absurd hempty hne
      · exact absurd (hstopped.symm.trans hrun) (by decide)
    · exact (sendBuffer_armed words _).2

/-- Without anything to send the rest does not matter. -/
theorem armed_iff : Armed p ↔ p.head = p.tail ∨ p.stopped = true ∨ p.txEnabled = true := by
  unfold Armed
  by_cases hempty : p.head = p.tail
  · simp [hempty]
  · cases p.stopped <;> simp [hempty]

/-! ## The runs -/

/-- What holds whenever the property has held so far. -/
structure Inv (p : Port) : Prop where
  books : Books p
  synced : Synced p
  armed : p.handler = none → Armed p

theorem Port.Started.inv (h : p.Started) : Inv p := by
  refine ⟨⟨⟨p.tail, p.tail, le_rfl, ?_, (Nat.mod_eq_of_lt h.tail_lt).symm, ?_⟩, ?_⟩, ?_, ?_⟩
  · unfold UART_XMIT_SIZE; omega
  · rw [h.empty]; exact (Nat.mod_eq_of_lt h.tail_lt).symm
  · have hlt := h.tail_lt
    have hpending : p.pending = [] := by
      unfold Port.pending
      rw [h.empty, ← Nat.mod_eq_of_lt hlt, Ring.between_slots le_rfl (by unfold UART_XMIT_SIZE; omega),
        Ring.slots_self]
      rfl
    rw [h.data, h.accepted, hpending]
    rfl
  · unfold Synced Port.txEnabled
    rw [h.imr, h.status]
  · intro _ hne
    exact absurd h.empty hne

/-- A handler that returns. -/
theorem leave_eq {isr : BitVec 32} (words : ℕ → BitVec 32) (h : p.handler = some isr) :
    p.next (.leave words) =
      some { (if isr &&& STATUS_TRDY_MSK ≠ 0#32 then p.txChars words else p).enableRxInterrupt with handler := none } := by
  unfold Port.next
  rw [h]

/-- **A step keeps the books** and the register in step with `imr`. -/
theorem next_books (a : Act) (h : Inv p) (hst : p.next a = some q) : Books q ∧ Synced q := by
  have hb := h.books
  cases a with
  | write bs =>
    obtain rfl := Option.some.inj hst
    obtain ⟨hput, hsame⟩ := put_all bs hb
    unfold Port.uartStart
    split
    · refine ⟨hput, ?_⟩
      unfold Synced Port.txEnabled
      rw [hsame.imr, hsame.status]
      exact h.synced
    · exact ⟨hput.of_same rfl rfl rfl rfl rfl, synced_updateCtrlReg _⟩
  | startTx => obtain rfl := Option.some.inj hst; exact ⟨hb.of_same rfl rfl rfl rfl rfl, synced_updateCtrlReg _⟩
  | sendXchar c =>
    obtain rfl := Option.some.inj hst
    split
    · exact ⟨hb.of_same rfl rfl rfl rfl rfl, synced_updateCtrlReg _⟩
    · exact ⟨hb.of_same rfl rfl rfl rfl rfl, h.synced⟩
  | stop => obtain rfl := Option.some.inj hst; exact ⟨hb.of_same rfl rfl rfl rfl rfl, synced_updateCtrlReg _⟩
  | start => obtain rfl := Option.some.inj hst; exact ⟨hb.of_same rfl rfl rfl rfl rfl, synced_updateCtrlReg _⟩
  | enter isr =>
    obtain ⟨-, rfl⟩ := of_guard hst
    exact ⟨hb.of_same rfl rfl rfl rfl rfl, synced_updateCtrlReg _⟩
  | leave words =>
    cases hh : p.handler with
    | none => unfold Port.next at hst; rw [hh] at hst; exact absurd hst (by simp)
    | some isr =>
      rw [leave_eq words hh] at hst
      obtain rfl := Option.some.inj hst
      refine ⟨?_, synced_updateCtrlReg _⟩
      split
      · exact (txChars_books words hb).of_same rfl rfl rfl rfl rfl
      · exact hb.of_same rfl rfl rfl rfl rfl

/-- **A handler leaves the transmitter armed** exactly when it serves what there is to send. -/
theorem leave_armed {isr : BitVec 32} (words : ℕ → BitVec 32) (h : Synced p) (hh : p.handler = some isr) :
    Armed { (if isr &&& STATUS_TRDY_MSK ≠ 0#32 then p.txChars words else p).enableRxInterrupt with handler := none } ↔
      Serves p (.leave words) := by
  have hrx : ∀ {r : Port}, Synced r → (Armed { r.enableRxInterrupt with handler := none } ↔ Armed r) := by
    intro r hr
    have henabled := txEnabled_enableRxInterrupt hr
    constructor
    · intro ha hne hrun
      exact henabled.symm.trans (ha hne hrun)
    · intro ha hne hrun
      exact henabled.trans (ha hne hrun)
  unfold Serves
  rw [hh, Option.getD_some]
  split
  · rename_i htrdy
    rw [hrx (txChars_synced words h), txChars_armed]
    simp [htrdy]
  · rename_i htrdy
    rw [hrx h, armed_iff]
    simp [htrdy]

/-- **What a step leaves is kept** exactly when a handler that returns serves what there is to send. -/
theorem next_kept_iff (a : Act) (h : Inv p) : (∀ q, p.next a = some q → Kept a q) ↔ Serves p a := by
  have hkept : ∀ {q}, p.next a = some q → (a.starts = true ∨ q.handler = none → Armed q) → Kept a q :=
    fun hst harmed => ⟨harmed, (next_books a h hst).1.sent⟩
  have hstart : ∀ r : Port, Armed r.startTx := fun r _ _ => txEnabled_startTx r
  cases a with
  | write bs =>
    refine iff_of_true ?_ trivial
    intro q hst
    refine hkept hst ?_
    obtain rfl := Option.some.inj hst
    intro _
    unfold Port.uartStart
    split
    · rename_i hstopped
      intro _ hrun
      exact absurd (hstopped.symm.trans hrun) (by decide)
    · exact hstart _
  | startTx =>
    refine iff_of_true ?_ trivial
    intro q hst
    refine hkept hst ?_
    obtain rfl := Option.some.inj hst
    intro _
    exact hstart p
  | sendXchar c =>
    refine iff_of_true ?_ trivial
    intro q hst
    refine hkept hst ?_
    obtain rfl := Option.some.inj hst
    by_cases hc : c = 0#8
    · rw [if_neg (not_not.2 hc)]
      rintro (hs | hidle)
      · exact absurd hs (by simp [Act.starts, hc])
      · exact h.armed hidle
    · rw [if_pos hc]
      intro _
      exact hstart _
  | stop =>
    refine iff_of_true ?_ trivial
    intro q hst
    refine hkept hst ?_
    obtain rfl := Option.some.inj hst
    intro _ _ hrun
    exact absurd hrun (by simp [Port.stopTx, Port.disableTxInterrupt, Port.updateCtrlReg])
  | start =>
    refine iff_of_true ?_ trivial
    intro q hst
    refine hkept hst ?_
    obtain rfl := Option.some.inj hst
    intro _
    exact hstart _
  | enter isr =>
    refine iff_of_true ?_ trivial
    intro q hst
    refine hkept hst ?_
    obtain ⟨-, rfl⟩ := of_guard hst
    rintro (hs | hidle)
    · exact absurd hs (by simp [Act.starts])
    · exact absurd hidle (by simp)
  | leave words =>
    cases hh : p.handler with
    | none =>
      -- there is no handler to return, and the port is armed
      have hserves : Serves p (.leave words) := by
        rcases armed_iff.1 (h.armed hh) with hempty | hstopped | henabled
        · exact .inl hempty
        · exact .inr (.inl hstopped)
        · exact .inr (.inr (.inl henabled))
      refine iff_of_true ?_ hserves
      intro q hst
      unfold Port.next at hst
      rw [hh] at hst
      exact absurd hst (by simp)
    | some isr =>
      rw [← leave_armed words h.synced hh]
      constructor
      · intro hk
        exact (hk _ (leave_eq words hh)).armed (.inr rfl)
      · intro harmed q hst
        refine hkept hst ?_
        rw [leave_eq words hh] at hst
        obtain rfl := Option.some.inj hst
        intro _
        exact harmed

/-- **The transmitter.** In a run from a started port every action leaves what it is to leave exactly
when every handler that returns serves what there is to send. -/
theorem transmit_kept_iff (hp : p.Started) (as : List Act) :
    uart.Along (fun p a => ∀ q, uart.step p a = some q → Kept a q) p as ↔ uart.Along Serves p as := by
  refine Machine.along_iff (I := Inv) ?_ (fun p a h _ => next_kept_iff a h) hp.inv (Machine.along_true p as)
  intro p a q h _ hkept hst
  obtain ⟨hbooks, hsynced⟩ := next_books a h hst
  exact ⟨hbooks, hsynced, fun hidle => (hkept q hst).armed (.inr hidle)⟩

/-! ## Runs -/

/-- A port whose buffer was never used. -/
def Port.opened : Port :=
  { buf := fun _ => 0#8, head := 0, tail := 0, xChar := 0#8, stopped := false, icountTx := 0#32
    imr := CONTROL_RRDY_MSK, status := CONTROL_RRDY_MSK, handler := none, data := [], accepted := [] }

theorem opened_started : Port.opened.Started := ⟨by decide, rfl, rfl, rfl, rfl, rfl, rfl⟩

/-- The status words of a FIFO with room for `n` characters. -/
def room (n : ℕ) : ℕ → BitVec 32 := fun i => BitVec.ofNat 32 (n - i) <<< 16

/-- Two characters are sent, with a start between the two halves of a receive-only interrupt. -/
def twoChars : List Act :=
  [.write [0x4F#8], .enter 0x200#32, .write [0x4B#8], .leave (room 0), .enter 0x100#32, .leave (room 128)]

theorem transmit_kept_iff_two :
    Port.opened.Started ∧ uart.Along (fun p a => ∀ q, uart.step p a = some q → Kept a q) Port.opened twoChars :=
  ⟨opened_started, (transmit_kept_iff opened_started twoChars).2 (by decide)⟩

/-- **The transmitter stalls** after a receive-only interrupt, and after an `x_char`. -/
theorem interrupt_stalls :
    (∃ q, uart.exec Port.opened [.write (List.replicate 130 0x41#8), .enter 0x100#32, .leave (room 128),
        .enter 0x200#32, .leave (room 0)] = some q ∧ q.handler = none ∧ ¬ Armed q) ∧
      ∃ q, uart.exec Port.opened [.write [0x41#8], .sendXchar 0x13#8, .enter 0x100#32, .leave (room 128)] = some q ∧
        q.handler = none ∧ ¬ Armed q := by
  have hstalled : ∀ {o : Option Port},
      (o.map fun q => (q.handler, decide (q.head = q.tail), q.stopped, q.txEnabled)) = some (none, false, false, false) →
        ∃ q, o = some q ∧ q.handler = none ∧ ¬ Armed q := by
    intro o ho
    obtain ⟨q, hq, heq⟩ := Option.map_eq_some_iff.1 ho
    simp only [Prod.mk.injEq, decide_eq_false_iff_not] at heq
    obtain ⟨hidle, hne, hrun, hoff⟩ := heq
    refine ⟨q, hq, hidle, ?_⟩
    intro harmed
    exact absurd (hoff.symm.trans (harmed hne hrun)) (by decide)
  constructor
  · exact hstalled (by decide +kernel)
  · exact hstalled (by decide +kernel)

end Br2Efinix.Uart
