import Br2Efinix.Lib.History
import Br2Efinix.Uart.Transmit

/-!
# The receiver of the UART

`spinal_lib_uart_interrupt` with `spinal_lib_uart_rx_chars`, register access by register access, while characters
arrive and the line breaks. The controller queues what arrives; reading the data register takes the first character.

* `RxInv.step`: what each access, arrival and break keeps.
* `received_in_turn`: **every character is handed to the serial core once, in the order of arrival**, and none while a
  break lasts; the data register is never read when nothing is there, and the RX interrupt is enabled whenever no
  handler runs.
-/

namespace Br2Efinix.Uart

/-- `spinal_lib_uart_rx_occupancy` of a status word. -/
def rxOccupancy (word : BitVec 32) : BitVec 32 := (word >>> 24) &&& 0xFF#32

/-- Where the handler is: before its lock, in `spinal_lib_uart_rx_chars` before each of its accesses, `n` reads of the
data register before the last one of a round, without the lock, or before it enables the interrupt again. -/
inductive RxPc
  | idle
  | entered (rrdy : Bool)
  | flags
  | clear
  | occupancy
  | burst (n : ℕ)
  | push
  | leave
  deriving DecidableEq, Repr

/-- A break that the driver takes note of, its end, and a character that is handed to the serial core: to
`uart_handle_sysrq_char`, and to the tty layer if that does not take it. -/
inductive RxEvent
  | brk
  | over
  | char (b : BitVec 8) (sysrq : Bool)
  deriving DecidableEq, Repr

/-- The controller's queue and flags, what of `struct spinal_lib_uart` and of the counts the receiver uses, and the
enable. Only observed are the characters that have come into the queue, how many had when the driver last asked, and
what the driver has told the serial core. -/
structure RxPort where
  fifo : List (BitVec 8)
  breakDetected : Bool
  breakActive : Bool
  breakOnRx : Bool
  icountRx : BitVec 32
  icountBrk : BitVec 32
  rxEnabled : Bool
  pc : RxPc
  accepted : List (BitVec 8)
  seen : ℕ
  log : List RxEvent

/-- A character arrives, the line breaks or is idle again; the handler is called, by the interrupt or by the timer; it
makes an access, where `word` is the status that it may read. -/
inductive RxAct
  | arrive (b : BitVec 8)
  | lineBreak
  | lineIdle
  | interrupt (rrdy : Bool)
  | driver (word : BitVec 32) (sysrq : Bool)
  deriving DecidableEq, Repr

/-- Where the outer loop goes from a count. -/
def RxPc.round : ℕ → RxPc
  | 0 => .push
  | n + 1 => .burst n

/-- Where the inner loop goes, with `n` reads left. -/
def RxPc.rest : ℕ → RxPc
  | 0 => .occupancy
  | n + 1 => .burst n

namespace RxPort

/-- The next access of the handler. -/
def driverStep (s : RxPort) (word : BitVec 32) (sysrq : Bool) : Option RxPort :=
  match s.pc with
  | .idle => none
  | .entered rrdy => some { s with pc := if rrdy then .flags else .leave }
  | .flags =>
    if s.breakOnRx = false then some { s with pc := if s.breakDetected then .clear else .occupancy }
    else if s.breakActive = false then some { s with breakOnRx := false, pc := .occupancy, log := s.log ++ [.over] }
    else some { s with pc := .push }
  | .clear =>
    some
      { s with
        breakDetected := false, breakOnRx := true, icountBrk := s.icountBrk + 1, pc := .push, log := s.log ++ [.brk] }
  | .occupancy =>
    if (rxOccupancy word).toNat = s.fifo.length then
      some { s with seen := s.accepted.length, pc := .round (rxOccupancy word).toNat }
    else none
  | .burst n =>
    match s.fifo with
    | [] => none
    | b :: rest =>
      some { s with fifo := rest, icountRx := s.icountRx + 1, pc := .rest n, log := s.log ++ [.char b sysrq] }
  | .push => some { s with pc := .leave }
  | .leave => some { s with rxEnabled := true, pc := .idle }

/-- What comes when the queue is full is lost in the controller. -/
def next (s : RxPort) : RxAct → Option RxPort
  | .arrive b =>
    some (if s.fifo.length < FIFO_DEPTH then { s with fifo := s.fifo ++ [b], accepted := s.accepted ++ [b] } else s)
  | .lineBreak => some { s with breakActive := true, breakDetected := true }
  | .lineIdle => some { s with breakActive := false }
  | .interrupt rrdy => if s.pc = .idle then some { s with rxEnabled := false, pc := .entered rrdy } else none
  | .driver word sysrq => s.driverStep word sysrq

/-- After `spinal_lib_uart_startup`. -/
def startup : RxPort :=
  { fifo := [], breakDetected := false, breakActive := false, breakOnRx := false, icountRx := 0#32, icountBrk := 0#32
    rxEnabled := true, pc := .idle, accepted := [], seen := 0, log := [] }

end RxPort

def receiver : Machine RxPort RxAct := { init := fun s => s = .startup, step := RxPort.next }

/-- The characters that were handed to the serial core. -/
def passed (log : List RxEvent) : List (BitVec 8) :=
  log.filterMap fun e => match e with
    | .char b _ => some b
    | _ => none

/-- Whether a break begins or ends. -/
def RxEvent.breaks : RxEvent → Option Bool
  | .brk => some true
  | .over => some false
  | .char _ _ => none

/-- The last break that the driver has taken note of lasts. -/
def inBreak (log : List RxEvent) : Bool := lastOf RxEvent.breaks false log

/-- How many breaks there were. -/
def breakCount (log : List RxEvent) : ℕ := (log.filter (· == .brk)).length

/-- What is true after every access. -/
structure Received (s : RxPort) : Prop where
  order : passed s.log ++ s.fifo = s.accepted
  quiet : Along (fun before e => ∀ b sysrq, e = .char b sysrq → inBreak before = false) s.log
  counts : s.icountRx = BitVec.ofNat 32 (passed s.log).length ∧ s.icountBrk = BitVec.ofNat 32 (breakCount s.log)
  there : ∀ n, s.pc = .burst n → n < s.fifo.length
  enabled : s.pc = .idle → s.rxEnabled = true
  drained : (∀ n, s.pc ≠ .burst n) → (passed s.log).length = s.seen

variable {s s' : RxPort} {log : List RxEvent} {e : RxEvent} {b : BitVec 8} {sysrq : Bool}

/-! ## The log -/

theorem passed_concat (log : List RxEvent) (e : RxEvent) : passed (log ++ [e]) = passed log ++ passed [e] :=
  List.filterMap_append

theorem inBreak_concat (log : List RxEvent) (e : RxEvent) : inBreak (log ++ [e]) = e.breaks.getD (inBreak log) :=
  lastOf_concat ..

theorem breakCount_concat (log : List RxEvent) (e : RxEvent) :
    breakCount (log ++ [e]) = breakCount log + if e = .brk then 1 else 0 := by
  unfold breakCount
  rw [List.filter_append, List.length_append]
  congr 1
  by_cases h : e = .brk
  · rw [if_pos h, h]
    rfl
  · rw [if_neg h, List.filter_cons_of_neg (by simpa using h)]
    rfl

/-- A count of 32 bits and the number that it stands for. -/
theorem count_succ {c : BitVec 32} {n : ℕ} (h : c = BitVec.ofNat 32 n) : c + 1 = BitVec.ofNat 32 (n + 1) := by
  rw [h]
  exact (BitVec.ofNat_add n 1).symm

/-! ## What each access keeps -/

/-- The driver knows whether a break lasts, and reads only while none does. -/
structure RxInv (s : RxPort) : Prop extends Received s where
  known : s.breakOnRx = inBreak s.log
  reading : s.pc = .occupancy ∨ (∃ n, s.pc = .burst n) → s.breakOnRx = false
  due : ∀ n, s.pc = .burst n → (passed s.log).length + (n + 1) = s.seen

theorem startup_rxInv : RxInv .startup :=
  { order := rfl
    quiet := along_nil _
    counts := ⟨rfl, rfl⟩
    there := nofun
    enabled := fun _ => rfl
    drained := fun _ => rfl
    known := rfl
    reading := nofun
    due := nofun }

/-- Where `n` reads are left of a round. -/
theorem rxInv_reads {n : ℕ} (horder : passed s.log ++ s.fifo = s.accepted)
    (hlog : Along (fun before e => ∀ b sysrq, e = .char b sysrq → inBreak before = false) s.log)
    (hcounts : s.icountRx = BitVec.ofNat 32 (passed s.log).length ∧ s.icountBrk = BitVec.ofNat 32 (breakCount s.log))
    (hknown : s.breakOnRx = inBreak s.log) (hquiet : s.breakOnRx = false) (hthere : n ≤ s.fifo.length)
    (hdue : (passed s.log).length + n = s.seen) (hpc : s.pc = .round n ∨ s.pc = .rest n) : RxInv s := by
  cases n with
  | zero =>
    have hno : ∀ k, s.pc ≠ .burst k := by
      rcases hpc with hpc | hpc <;> rw [hpc] <;> nofun
    have hbusy : s.pc ≠ .idle := by
      rcases hpc with hpc | hpc <;> rw [hpc] <;> nofun
    exact
      { order := horder, quiet := hlog, counts := hcounts, there := fun k hk => absurd hk (hno k)
        enabled := fun hidle => absurd hidle hbusy, drained := fun _ => hdue, known := hknown
        reading := fun _ => hquiet, due := fun k hk => absurd hk (hno k) }
  | succ n =>
    have hburst : s.pc = .burst n := hpc.elim id id
    refine
      { order := horder, quiet := hlog, counts := hcounts, there := fun k hk => ?_
        enabled := fun hidle => absurd (hburst.symm.trans hidle) RxPc.noConfusion
        drained := fun hno => absurd hburst (hno n), known := hknown, reading := fun _ => hquiet, due := fun k hk => ?_ }
    · cases hburst.symm.trans hk
      exact hthere
    · cases hburst.symm.trans hk
      exact hdue

/-- **The round of reads** begins with what the queue holds. -/
theorem RxInv.asked {word : BitVec 32} (h : RxInv s) (hpc : s.pc = .occupancy)
    (hword : (rxOccupancy word).toNat = s.fifo.length) :
    RxInv { s with seen := s.accepted.length, pc := .round (rxOccupancy word).toNat } := by
  have hquiet : s.breakOnRx = false := h.reading (Or.inl hpc)
  have hdue : (passed s.log).length + (rxOccupancy word).toNat = s.accepted.length := by
    rw [hword, ← h.order, List.length_append]
  exact rxInv_reads h.order h.quiet h.counts h.known hquiet hword.le hdue (Or.inl rfl)

/-- **A character is taken** and handed over. -/
theorem RxInv.taken {n : ℕ} {rest : List (BitVec 8)} (h : RxInv s) (hpc : s.pc = .burst n)
    (hfifo : s.fifo = b :: rest) : RxInv { s with
      fifo := rest, icountRx := s.icountRx + 1, pc := .rest n, log := s.log ++ [.char b sysrq] } := by
  have hquiet : s.breakOnRx = false := h.reading (Or.inr ⟨n, hpc⟩)
  have hpassed : passed (s.log ++ [.char b sysrq]) = passed s.log ++ [b] := passed_concat ..
  have hlen : (passed (s.log ++ [.char b sysrq])).length = (passed s.log).length + 1 := by
    rw [hpassed, List.length_append, List.length_singleton]
  have hbreak : inBreak (s.log ++ [.char b sysrq]) = inBreak s.log := inBreak_concat ..
  have horder : passed (s.log ++ [.char b sysrq]) ++ rest = s.accepted := by
    rw [hpassed, List.append_assoc, ← h.order, hfifo]
    rfl
  have hlog : Along (fun before e => ∀ b sysrq, e = .char b sysrq → inBreak before = false)
      (s.log ++ [.char b sysrq]) :=
    along_concat.2 ⟨h.quiet, fun _ _ _ => h.known.symm.trans hquiet⟩
  have hcounts : s.icountRx + 1 = BitVec.ofNat 32 (passed (s.log ++ [.char b sysrq])).length ∧
      s.icountBrk = BitVec.ofNat 32 (breakCount (s.log ++ [.char b sysrq])) := by
    refine ⟨?_, ?_⟩
    · rw [hlen]
      exact count_succ h.counts.1
    · rw [breakCount_concat, if_neg (by exact RxEvent.noConfusion)]
      exact h.counts.2
  have hthere : n ≤ rest.length := by
    have hread := h.there n hpc
    rw [hfifo, List.length_cons] at hread
    exact Nat.le_of_lt_succ hread
  have hdue : (passed (s.log ++ [.char b sysrq])).length + n = s.seen := by
    have hread := h.due n hpc
    omega
  exact rxInv_reads horder hlog hcounts (h.known.trans hbreak.symm) hquiet hthere hdue (Or.inr rfl)

/-- The driver takes note of a break or of its end. -/
theorem RxInv.noted (h : RxInv s) (hno : ∀ n, s.pc ≠ .burst n) (pc : RxPc) (lasts : Bool) {detected : Bool}
    {count : BitVec 32} (hpc : pc ≠ .idle) (hburst : ∀ n, pc ≠ .burst n) (he : e = if lasts then .brk else .over)
    (hcount : count = if lasts then s.icountBrk + 1 else s.icountBrk) (hoccupancy : pc = .occupancy → lasts = false) :
    RxInv { s with
      breakDetected := detected, breakOnRx := lasts, icountBrk := count, pc := pc, log := s.log ++ [e] } := by
  have hpassed : passed (s.log ++ [e]) = passed s.log := by
    rw [passed_concat, he]
    cases lasts <;> exact List.append_nil _
  have hbreak : inBreak (s.log ++ [e]) = lasts := by
    rw [inBreak_concat, he]
    cases lasts <;> rfl
  refine
    { order := ?_, quiet := along_concat.2 ⟨h.quiet, fun b sysrq hchar => ?_⟩, counts := ⟨?_, ?_⟩
      there := fun n hn => absurd hn (hburst n), enabled := fun hidle => absurd hidle hpc
      drained := fun _ => (congrArg List.length hpassed).trans (h.drained hno), known := hbreak.symm
      reading := fun hor => ?_, due := fun n hn => absurd hn (hburst n) }
  · show passed (s.log ++ [e]) ++ s.fifo = s.accepted
    rw [hpassed]
    exact h.order
  · rw [he] at hchar
    cases lasts <;> cases hchar
  · show s.icountRx = BitVec.ofNat 32 (passed (s.log ++ [e])).length
    rw [hpassed]
    exact h.counts.1
  · show count = BitVec.ofNat 32 (breakCount (s.log ++ [e]))
    rw [breakCount_concat, hcount, he]
    cases lasts with
    | true => exact count_succ h.counts.2
    | false => exact h.counts.2
  · rcases hor with hocc | ⟨n, hn⟩
    · exact hoccupancy hocc
    · exact absurd hn (hburst n)

/-- The handler goes on without an access that changes anything. -/
theorem RxInv.moved (h : RxInv s) (hno : ∀ n, s.pc ≠ .burst n) (pc : RxPc) (enabled : Bool)
    (hburst : ∀ n, pc ≠ .burst n) (hidle : pc = .idle → enabled = true)
    (hoccupancy : pc = .occupancy → s.breakOnRx = false) : RxInv { s with rxEnabled := enabled, pc := pc } :=
  { order := h.order
    quiet := h.quiet
    counts := h.counts
    there := fun n hn => absurd hn (hburst n)
    enabled := hidle
    drained := fun _ => h.drained hno
    known := h.known
    reading := fun hor => hor.elim hoccupancy fun ⟨n, hn⟩ => absurd hn (hburst n)
    due := fun n hn => absurd hn (hburst n) }

theorem RxInv.driverStep {word : BitVec 32} (h : RxInv s) (hstep : s.driverStep word sysrq = some s') : RxInv s' := by
  unfold RxPort.driverStep at hstep
  cases hpc : s.pc with
  | idle =>
    simp only [hpc] at hstep
    cases hstep
  | entered rrdy =>
    simp only [hpc] at hstep
    obtain rfl := Option.some.inj hstep
    cases rrdy with
    | true => exact h.moved (by rw [hpc]; nofun) .flags s.rxEnabled nofun nofun nofun
    | false => exact h.moved (by rw [hpc]; nofun) .leave s.rxEnabled nofun nofun nofun
  | flags =>
    simp only [hpc] at hstep
    have hno : ∀ n, s.pc ≠ .burst n := by
      rw [hpc]
      nofun
    by_cases hquiet : s.breakOnRx = false
    · rw [if_pos hquiet] at hstep
      obtain rfl := Option.some.inj hstep
      refine h.moved hno _ s.rxEnabled (fun n => ?_) (fun hidle => ?_) fun _ => hquiet
      · split <;> exact RxPc.noConfusion
      · split at hidle <;> cases hidle
    · rw [if_neg hquiet] at hstep
      by_cases hactive : s.breakActive = false
      · rw [if_pos hactive] at hstep
        obtain rfl := Option.some.inj hstep
        exact h.noted hno .occupancy false nofun nofun rfl rfl fun _ => rfl
      · rw [if_neg hactive] at hstep
        obtain rfl := Option.some.inj hstep
        exact h.moved hno .push s.rxEnabled nofun nofun nofun
  | clear =>
    simp only [hpc] at hstep
    obtain rfl := Option.some.inj hstep
    exact h.noted (by rw [hpc]; nofun) .push true nofun nofun rfl rfl nofun
  | occupancy =>
    simp only [hpc] at hstep
    obtain ⟨hword, rfl⟩ := of_guard hstep
    exact h.asked hpc hword
  | burst n =>
    simp only [hpc] at hstep
    cases hfifo : s.fifo with
    | nil =>
      simp only [hfifo] at hstep
      cases hstep
    | cons b rest =>
      simp only [hfifo] at hstep
      obtain rfl := Option.some.inj hstep
      exact h.taken hpc hfifo
  | push =>
    simp only [hpc] at hstep
    obtain rfl := Option.some.inj hstep
    exact h.moved (by rw [hpc]; nofun) .leave s.rxEnabled nofun nofun nofun
  | leave =>
    simp only [hpc] at hstep
    obtain rfl := Option.some.inj hstep
    exact h.moved (by rw [hpc]; nofun) .idle true nofun (fun _ => rfl) nofun

/-- **A step** of the handler, of the line or of the controller. -/
theorem RxInv.step {a : RxAct} (h : RxInv s) (hstep : s.next a = some s') : RxInv s' := by
  cases a with
  | arrive b =>
    obtain rfl := Option.some.inj hstep
    split
    · refine { h with order := ?_, there := fun n hn => ?_ }
      · show passed s.log ++ (s.fifo ++ [b]) = s.accepted ++ [b]
        rw [← List.append_assoc, h.order]
      · show n < (s.fifo ++ [b]).length
        rw [List.length_append]
        exact Nat.lt_add_right _ (h.there n hn)
    · exact h
  | lineBreak =>
    obtain rfl := Option.some.inj hstep
    exact { h with }
  | lineIdle =>
    obtain rfl := Option.some.inj hstep
    exact { h with }
  | interrupt rrdy =>
    obtain ⟨hidle, rfl⟩ := of_guard hstep
    exact h.moved (by rw [hidle]; nofun) (.entered rrdy) false nofun nofun nofun
  | driver word sysrq => exact h.driverStep hstep

/-- **Characters in turn.** After every run of the handler's accesses, of arrivals and of breaks, in any order: what
was handed to the serial core and what waits in the queue are the characters that came into it, in their order; none
was handed over between a break that the driver took note of and its end; the counts are those of the characters and of
the breaks; the data register is read only when a character is there; the RX interrupt is enabled whenever no handler
runs; and outside a round of reads all that was there when the occupancy was last read has been handed over. -/
theorem received_in_turn (h : receiver.Reach (fun _ _ => True) s) : Received s :=
  (h.invariant (I := RxInv) (fun t ht => by rw [show t = .startup from ht]; exact startup_rxInv)
    fun _ _ _ hs _ hstep => hs.step hstep).toReceived

/-- A second character comes during the read of the first, and a third one in a break. -/
def threeArrive : List RxAct :=
  [.arrive 104#8, .interrupt true, .driver 0#32 false, .driver 0#32 false, .driver 0x01000000#32 false, .arrive 105#8,
    .driver 0#32 false, .driver 0x01000000#32 false, .driver 0#32 false, .driver 0#32 false, .driver 0#32 false,
    .driver 0#32 false, .lineBreak, .arrive 33#8, .interrupt true, .driver 0#32 false, .driver 0#32 false,
    .driver 0#32 false, .driver 0#32 false, .driver 0#32 false]

theorem received_in_turn_three :
    ∃ s, receiver.exec .startup threeArrive = some s ∧ passed s.log = [104#8, 105#8] ∧ s.fifo = [33#8] ∧
      s.log.getLast? = some .brk ∧ Received s := by
  have hsome : (receiver.exec .startup threeArrive).isSome = true := by decide +kernel
  obtain ⟨s, hexec⟩ := Option.isSome_iff_exists.1 hsome
  have hends : (receiver.exec .startup threeArrive).map (fun s => (passed s.log, s.fifo, s.log.getLast?)) =
      some ([104#8, 105#8], [33#8], some .brk) := by decide +kernel
  rw [hexec] at hends
  obtain ⟨hpassed, hrest⟩ := Prod.mk.inj (Option.some.inj hends)
  obtain ⟨hfifo, hlast⟩ := Prod.mk.inj hrest
  have hreach : receiver.Reach (fun _ _ => True) s := (Machine.Reach.init rfl).exec (Machine.along_true _ _) hexec
  exact ⟨s, hexec, hpassed, hfifo, hlast, received_in_turn hreach⟩

end Br2Efinix.Uart
