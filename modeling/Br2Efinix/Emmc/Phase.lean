import Br2Efinix.Emmc.Protocol

/-!
# The phases of a request

`InPhase` is the invariant of the automaton while it serves one request: which
command is out, what the log holds of the request, and that its mappings and
words balance. Each function moves from phase to phase.

`Ghost` carries what an observer knows besides the code: whether all interrupts
so far were clean, and whether the request's own completions have occurred. The
clauses that need clean interrupts are guarded by `E.clean`.

* `send_cmd_phase`, `finishData_phase`, `finishCommand_phase`, `irqError_phase`:
  one lemma a function.
-/

namespace Br2Efinix.Emmc

/-! ## Reading the log -/

/-- The commands of request `id` sent so far, latest first. -/
def sends (id : ℕ) (log : List Mark) : List Slot :=
  log.filterMap fun
    | .send i slot _ => if i = id then some slot else none
    | _ => none

/-- Sum of a weight over the log. -/
def tally (f : Mark → ℕ) (log : List Mark) : ℕ := (log.map f).sum

/-! What one mark weighs for a request. -/

def mapWeight (id : ℕ) : Mark → ℕ
  | .mapSg i => if i = id then 1 else 0
  | _ => 0

def unmapWeight (id : ℕ) : Mark → ℕ
  | .unmapSg i => if i = id then 1 else 0
  | _ => 0

def wordWeight (id : ℕ) : Mark → ℕ
  | .pio i words => if i = id then words else 0
  | _ => 0

def doneWeight (id : ℕ) : Mark → ℕ
  | .requestDone r => if r.id = id then 1 else 0
  | _ => 0

def mapCount (id : ℕ) : List Mark → ℕ := tally (mapWeight id)
def unmapCount (id : ℕ) : List Mark → ℕ := tally (unmapWeight id)
def pioWords (id : ℕ) : List Mark → ℕ := tally (wordWeight id)
def doneCount (id : ℕ) : List Mark → ℕ := tally (doneWeight id)

/-- Whether the main command was sent with DMA enabled. -/
def dmaSent (id : ℕ) (log : List Mark) : Prop := .send id .cmd true ∈ log

instance (id : ℕ) (log : List Mark) : Decidable (dmaSent id log) := List.instDecidableMemOfLawfulBEq _ _

/-- The request a mark is about. -/
def Mark.id : Mark → ℕ
  | .send i _ _ => i
  | .pio i _ => i
  | .mapSg i => i
  | .unmapSg i => i
  | .cmdDone i _ _ => i
  | .dataDone i _ => i
  | .requestDone r => r.id

/-- What the log says about other requests. -/
def others (id : ℕ) (log : List Mark) : List Mark := log.filter fun k => k.id ≠ id

@[simp] theorem tally_cons (f : Mark → ℕ) (k : Mark) (log : List Mark) :
    tally f (k :: log) = f k + tally f log := by simp [tally]
attribute [simp] mapWeight unmapWeight wordWeight doneWeight

/-- Marks of no weight may be left out. -/
theorem tally_filter {f : Mark → ℕ} {p : Mark → Bool} (h : ∀ k, p k = false → f k = 0)
    (log : List Mark) : tally f (log.filter p) = tally f log := by
  induction log with
  | nil => rfl
  | cons k log ih =>
    cases hp : p k with
    | true => rw [List.filter_cons_of_pos hp, tally_cons, tally_cons, ih]
    | false => rw [List.filter_cons_of_neg (by simp [hp]), tally_cons, h k hp, ih, Nat.zero_add]

/-- Marks of other requests weigh nothing. -/
theorem weight_other {id : ℕ} {k : Mark} (h : k.id ≠ id) :
    mapWeight id k = 0 ∧ unmapWeight id k = 0 ∧ wordWeight id k = 0 ∧ doneWeight id k = 0 := by
  cases k <;> simp_all [Mark.id]

theorem tally_zero {f : Mark → ℕ} {log : List Mark} (h : ∀ k ∈ log, f k = 0) : tally f log = 0 := by
  induction log with
  | nil => rfl
  | cons k log ih =>
    rw [tally_cons, h k List.mem_cons_self, ih fun k hk => h k (List.mem_cons_of_mem _ hk)]

/-! ## The order of the commands -/

/-- What must have happened before a command is sent. -/
def Allowed (r : Req) (log : List Mark) : Slot → Prop
  | .sbc => r.sbc.isSome = true ∧ sends r.id log = []
  | .cmd => .cmd ∉ sends r.id log ∧ .stop ∉ sends r.id log ∧
      (r.sbc.isSome = true → .cmdDone r.id .sbc 0 ∈ log)
  | .stop => .cmd ∈ sends r.id log ∧ .stop ∉ sends r.id log ∧ .dataDone r.id 0 ∈ log ∧
      r.needStop = true

/-- **Each command is sent at most once and in its turn.** -/
def Sequenced (r : Req) : List Mark → Prop
  | [] => True
  | k :: log => (∀ slot dma, k = .send r.id slot dma → Allowed r log slot) ∧ Sequenced r log

theorem sequenced_cons {r : Req} {k : Mark} {log : List Mark}
    (hk : ∀ slot dma, k ≠ .send r.id slot dma) (h : Sequenced r log) : Sequenced r (k :: log) :=
  ⟨fun slot dma he => absurd he (hk slot dma), h⟩

/-! ## Requests and evidence -/

/-- A request as the core hands it over: its errors are cleared. -/
structure Fresh (r : Req) : Prop where
  sbc : ∀ k, r.sbc = some k → k.error = 0
  cmd : r.cmd.error = 0
  data : ∀ d, r.data = some d → d.error = 0

/-- Nothing has been transferred for the request. -/
def Unmoved (r : Req) : Prop := ∀ d, r.data = some d → d.xfered = 0

/-- The request after a data phase without error. -/
def Req.transferred (r : Req) : Req := r.modifyData fun d => { d with xfered := d.size }

/-- The same request, whatever has been recorded in it. -/
def Req.Same (r r₀ : Req) : Prop :=
  r.id = r₀.id ∧ r.data.map DataView.size = r₀.data.map DataView.size

/-- Completed without error and with all bytes. -/
def Succeeded (r : Req) : Prop :=
  (∀ k, r.sbc = some k → k.error = 0) ∧ r.cmd.error = 0 ∧
    ∀ d, r.data = some d → d.error = 0 ∧ d.xfered = d.size

theorem Req.Same.trans {q r r₀ : Req} (h : q.Same r) (h' : r.Same r₀) : q.Same r₀ :=
  ⟨h.1.trans h'.1, h.2.trans h'.2⟩

theorem Req.Same.isSome {r r₀ : Req} (h : r.Same r₀) : r.data.isSome = r₀.data.isSome := by
  have := congrArg Option.isSome h.2
  rwa [Option.isSome_map, Option.isSome_map] at this

theorem transferred_same (r : Req) : r.transferred.Same r := by
  refine ⟨rfl, ?_⟩
  unfold Req.transferred Req.modifyData
  rw [Option.map_map]
  rfl

/-- What an observer knows besides the code. -/
structure Ghost where
  clean : Prop
  cmdSeen : Prop
  xferSeen : Prop

/-- The main command has completed, and all data have been transferred. -/
def Evidence (E : Ghost) (r : Req) (log : List Mark) : Prop :=
  E.cmdSeen ∧ ∀ d, r.data = some d →
    if dmaSent r.id log then E.xferSeen else 4 * pioWords r.id log = d.size

/-! ## The invariant -/

inductive Phase
  | sbc
  | cmd
  | data
  | stop
  | finished
  deriving DecidableEq, Repr

/-- How far a request still has to go. -/
def Phase.rank : Phase → ℕ
  | .sbc => 4
  | .cmd => 3
  | .data => 2
  | .stop => 1
  | .finished => 0

/-- The commands that precede the main command. -/
def Req.sbcSends (r : Req) : List Slot := if r.sbc.isSome then [.sbc] else []

/-- What holds in every phase. -/
structure Books (r₀ : Req) (base log : List Mark) : Prop where
  others : others r₀.id log = base
  seq : Sequenced r₀ log
  doneCount : doneCount r₀.id log = 0
  maps_le : mapCount r₀.id log ≤ 1

/-- What holds while the data of the main command may be out. -/
structure DataBooks (r₀ : Req) (c : Ctl) : Prop where
  opcode : r₀.sbc.isSome = true → (r₀.get .sbc).opcode = 23
  sends : sends r₀.id c.log = .cmd :: r₀.sbcSends
  maps : mapCount r₀.id c.log = unmapCount r₀.id c.log + if c.dma then 1 else 0
  dma_data : c.dma = true → c.data = true
  dma_size : c.dma = true → ∀ d, r₀.data = some d → d.size ≥ 512
  dma_sent : r₀.data.isSome = true → (dmaSent r₀.id c.log ↔ c.dma = true)
  words : ∀ d, r₀.data = some d → c.dma = false → 4 * pioWords r₀.id c.log + c.bytes = d.size

inductive InPhase (r₀ : Req) (base : List Mark) (E : Ghost) (c : Ctl) : Phase → Prop
  | sbc (books : Books r₀ base c.log) (req : c.req = some r₀) (done : c.done = none)
      (cmd : c.cmd = some .sbc) (data : c.data = false) (dma : c.dma = false)
      (has : r₀.sbc.isSome = true) (sends : sends r₀.id c.log = [.sbc])
      (maps : mapCount r₀.id c.log = 0 ∧ unmapCount r₀.id c.log = 0)
      (words : pioWords r₀.id c.log = 0) : InPhase r₀ base E c .sbc
  | cmd (books : Books r₀ base c.log) (req : c.req = some r₀) (done : c.done = none)
      (cmd : c.cmd = some .cmd) (data : c.data = r₀.data.isSome) (dbooks : DataBooks r₀ c) :
      InPhase r₀ base E c .cmd
  | data (books : Books r₀ base c.log) (req : c.req = some r₀) (done : c.done = none)
      (cmd : c.cmd = none) (data : c.data = true) (has : r₀.data.isSome = true)
      (dbooks : DataBooks r₀ c) (seen : E.clean → E.cmdSeen) : InPhase r₀ base E c .data
  | stop (books : Books r₀ base c.log) (req : c.req = some r₀.transferred) (done : c.done = none)
      (cmd : c.cmd = some .stop) (data : c.data = false) (need : r₀.needStop = true)
      (sends : sends r₀.id c.log = [.stop, .cmd])
      (maps : mapCount r₀.id c.log = unmapCount r₀.id c.log)
      (evidence : E.clean → Evidence E r₀ c.log) : InPhase r₀ base E c .stop
  | finished (books : Books r₀ base c.log) (req : c.req = none) (cmd : c.cmd = none)
      (data : c.data = false) (dma : c.dma = false) (r : Req) (done : c.done = some r)
      (same : r.Same r₀) (maps : mapCount r₀.id c.log = unmapCount r₀.id c.log)
      (evidence : E.clean → Succeeded r → Evidence E r₀ c.log) : InPhase r₀ base E c .finished

/-- No request is served, and the log knows nothing of request `id`. -/
structure Idle (id : ℕ) (c : Ctl) : Prop where
  req : c.req = none
  done : c.done = none
  data : c.data = false
  dma : c.dma = false
  fresh : ∀ k ∈ c.log, k.id ≠ id

variable {r₀ : Req} {base log : List Mark} {E : Ghost} {c : Ctl}

/-! ## Marks that change little -/

/-- A mark that is neither a command nor a mapping nor a completion leaves the books. -/
theorem books_quiet (h : Books r₀ base log) {k : Mark} (hid : k.id = r₀.id)
    (hsend : ∀ slot dma, k ≠ .send r₀.id slot dma) (hmap : k ≠ .mapSg r₀.id)
    (hdone : ∀ r, k ≠ .requestDone r) : Books r₀ base (k :: log) := by
  obtain ⟨ho, hs, hd, hm⟩ := h
  refine ⟨?_, sequenced_cons hsend hs, ?_, ?_⟩
  · simpa [others, hid] using ho
  · cases k with
    | requestDone r => exact absurd rfl (hdone r)
    | _ => simpa [doneCount] using hd
  · cases k with
    | mapSg i => exact absurd (congrArg Mark.mapSg hid) hmap
    | _ => simpa [mapCount] using hm

theorem evidence_unmap {log : List Mark} (h : Evidence E r₀ log) :
    Evidence E r₀ (.unmapSg r₀.id :: log) := by
  refine ⟨h.1, ?_⟩
  intro d hd
  have := h.2 d hd
  simpa [dmaSent, pioWords] using this

theorem evidence_done {log : List Mark} {e : ℤ} (h : Evidence E r₀ log) :
    Evidence E r₀ (.dataDone r₀.id e :: log) := by
  refine ⟨h.1, ?_⟩
  intro d hd
  have := h.2 d hd
  simpa [dmaSent, pioWords] using this

theorem evidence_cmdDone {log : List Mark} {slot : Slot} {e : ℤ} (h : Evidence E r₀ log) :
    Evidence E r₀ (.cmdDone r₀.id slot e :: log) := by
  refine ⟨h.1, ?_⟩
  intro d hd
  have := h.2 d hd
  simpa [dmaSent, pioWords] using this

theorem evidence_send {log : List Mark} {slot : Slot} (hs : slot ≠ .cmd) {dma : Bool}
    (h : Evidence E r₀ log) : Evidence E r₀ (.send r₀.id slot dma :: log) := by
  refine ⟨h.1, ?_⟩
  intro d hd
  have := h.2 d hd
  have hne : ¬(Slot.cmd = slot) := fun he => hs he.symm
  simpa [dmaSent, pioWords, hne] using this

/-! ## The functions -/

/-- Finishing a request, from any phase. -/
theorem finish_phase {r : Req} (books : Books r₀ base c.log) (hr : c.req = some r)
    (hsame : r.Same r₀)
    (hmaps : mapCount r₀.id c.log =
      unmapCount r₀.id c.log + if c.dma && c.curData.isSome then 1 else 0)
    (hev : E.clean → Succeeded r → Evidence E r₀ c.log) : InPhase r₀ base E c.finish .finished := by
  rw [Ctl.finish_some hr]
  by_cases hd : (c.dma && c.curData.isSome) = true
  · rw [if_pos hd] at hmaps
    simp only [if_pos hd, hsame.1]
    refine .finished (books_quiet books (k := .unmapSg r₀.id) rfl (by simp) (by simp)
      (by simp)) rfl rfl rfl rfl r rfl hsame ?_ fun hc hs =>
      evidence_unmap (hev hc hs)
    simp only [mapCount, unmapCount, tally_cons, mapWeight, unmapWeight, if_true] at hmaps ⊢
    omega
  · rw [if_neg hd] at hmaps
    simp only [if_neg hd]
    exact .finished books rfl rfl rfl rfl r rfl hsame hmaps hev

/-- A command that is not sent in time ends the request with an error. -/
theorem send_timedOut (c : Ctl) {r : Req} (hr : c.req = some r) (slot : Slot) (prep : Prep) :
    c.send slot true prep =
      Ctl.finish { c with
        cmd := some slot, req := some (r.modify slot fun k => { k with error := -ETIMEDOUT }) } := by
  unfold Ctl.send
  rw [hr]
  rfl

theorem send_plain (c : Ctl) {r : Req} (hr : c.req = some r) {slot : Slot} (prep : Prep)
    (hd : slot = .cmd → r.data = none) :
    c.send slot false prep = { c with cmd := some slot, log := .send r.id slot false :: c.log } := by
  unfold Ctl.send
  by_cases hs : slot = .cmd
  · simp [hr, hs, hd hs]
  · simp [hr, hs]

theorem send_data (c : Ctl) {r : Req} (hr : c.req = some r) {d : DataView} (hd : r.data = some d)
    (prep : Prep) :
    c.send .cmd false prep =
      { c with
        cmd := some .cmd
        data := true
        dma := decide (d.size ≥ 512) && decide (prep = .ok)
        bytes := if d.size ≥ 512 ∧ prep = .ok then c.bytes else d.size
        log := .send r.id .cmd (decide (d.size ≥ 512) && decide (prep = .ok)) ::
          ((if d.size ≥ 512 then prep.marks r.id else []) ++ c.log) } := by
  unfold Ctl.send
  simp [hr, hd]

theorem not_succeeded_modify {r : Req} {slot : Slot} (hs : slot ≠ .stop)
    (hsbc : slot = .sbc → r.sbc.isSome = true) {e : ℤ} (he : e ≠ 0) :
    ¬Succeeded (r.modify slot fun k => { k with error := e }) := by
  rintro ⟨h1, h2, -⟩
  cases slot with
  | sbc =>
    obtain ⟨k, hk⟩ := Option.isSome_iff_exists.1 (hsbc rfl)
    exact he (h1 { k with error := e } (by simp [Req.modify, hk]))
  | cmd => exact he h2
  | stop => exact hs rfl

theorem books_send (h : Books r₀ base log) (slot : Slot) (dma : Bool)
    (ha : Allowed r₀ log slot) : Books r₀ base (.send r₀.id slot dma :: log) := by
  obtain ⟨ho, hs, hd, hm⟩ := h
  refine ⟨by simpa [others, Mark.id] using ho, ⟨?_, hs⟩,
    by simpa [doneCount] using hd, by simpa [mapCount] using hm⟩
  intro slot' dma' he
  obtain ⟨-, rfl, -⟩ := Mark.send.inj he
  exact ha

theorem not_dmaSent {id : ℕ} {log : List Mark} (h : .cmd ∉ sends id log) : ¬dmaSent id log := by
  intro hd
  exact h (List.mem_filterMap.2 ⟨_, hd, by simp⟩)

/-- The marks of a set-up: what they do to the books and to the counts. -/
theorem books_prep (h : Books r₀ base c.log) (hm : mapCount r₀.id c.log = 0 ∧ unmapCount r₀.id c.log = 0)
    (on : Bool) (prep : Prep) :
    ∃ log, log = (if on then prep.marks r₀.id else []) ++ c.log ∧
      Books r₀ base log ∧ sends r₀.id log = sends r₀.id c.log ∧
      mapCount r₀.id log = unmapCount r₀.id log + (if on && decide (prep = .ok) then 1 else 0) ∧
      pioWords r₀.id log = pioWords r₀.id c.log ∧ (∀ k ∈ c.log, k ∈ log) := by
  refine ⟨_, rfl, ?_⟩
  obtain ⟨ho, hs, hd, -⟩ := h
  obtain ⟨hm0, hu0⟩ := hm
  have hseq : ∀ p : Prep, Sequenced r₀ (p.marks r₀.id ++ c.log) := by
    intro p
    cases p with
    | ok => exact sequenced_cons (by simp) hs
    | mapFailed => exact hs
    | tableFailed => exact sequenced_cons (by simp) (sequenced_cons (by simp) hs)
  cases on with
  | false => exact ⟨⟨ho, hs, hd, by simp; omega⟩, rfl, by simp; omega, rfl, fun k hk => hk⟩
  | true =>
    simp only [if_true, Bool.true_and]
    refine ⟨⟨?_, hseq prep, ?_, ?_⟩, ?_, ?_, ?_, fun k hk => List.mem_append_right _ hk⟩
    · cases prep <;> simpa [Prep.marks, others, Mark.id] using ho
    · cases prep <;> simpa [Prep.marks, doneCount] using hd
    · cases prep <;> simp [Prep.marks, mapCount] at hm0 ⊢ <;> omega
    · cases prep <;> simp [Prep.marks, sends]
    · cases prep <;> simp [Prep.marks, mapCount, unmapCount] at hm0 hu0 ⊢ <;> omega
    · cases prep <;> simp [Prep.marks, pioWords]

/-- The main command goes out. -/
theorem send_cmd_phase (books : Books r₀ base c.log) (hr : c.req = some r₀) (hdone : c.done = none)
    (hdata : c.data = false) (hdma : c.dma = false) (hsends : sends r₀.id c.log = r₀.sbcSends)
    (hmaps : mapCount r₀.id c.log = 0 ∧ unmapCount r₀.id c.log = 0)
    (hwords : pioWords r₀.id c.log = 0)
    (hsbc : r₀.sbc.isSome = true → .cmdDone r₀.id .sbc 0 ∈ c.log)
    (hop : r₀.sbc.isSome = true → (r₀.get .sbc).opcode = 23) (timedOut : Bool) (prep : Prep) :
    InPhase r₀ base E (c.send .cmd timedOut prep) .cmd ∨
      InPhase r₀ base E (c.send .cmd timedOut prep) .finished := by
  have hcmd : .cmd ∉ sends r₀.id c.log ∧ .stop ∉ sends r₀.id c.log := by
    rw [hsends, Req.sbcSends]
    split <;> simp
  cases timedOut with
  | true =>
    -- nothing is sent, and the request ends with an error
    right
    rw [send_timedOut c hr]
    refine finish_phase books rfl ⟨rfl, rfl⟩ ?_ fun _ hs =>
      absurd hs (not_succeeded_modify (by decide) (by simp) (by decide))
    simp only [hdma, Bool.false_and, Bool.false_eq_true, if_false]
    omega
  | false =>
    left
    cases hd : r₀.data with
    | none =>
      rw [send_plain c hr prep fun _ => hd]
      refine .cmd (books_send books .cmd false ⟨hcmd.1, hcmd.2, hsbc⟩) hr hdone rfl
        (by rw [hd]; exact hdata) ⟨hop, ?_, ?_, ?_, ?_, ?_, ?_⟩
      · simp only [sends, List.filterMap_cons, if_true]
        exact congrArg (List.cons Slot.cmd) hsends
      · simp only [hdma, mapCount, unmapCount, tally_cons] at hmaps ⊢
        simp; omega
      · intro h; exact absurd h (by simp [hdma])
      · intro h; exact absurd h (by simp [hdma])
      · intro h; exact absurd h (by simp [hd])
      · intro d h; exact absurd h (by simp [hd])
    | some d =>
      -- the data is mapped from 512 bytes on
      obtain ⟨log, hlog, hb, hse, hma, hwo, hmem⟩ :=
        books_prep books hmaps (decide (d.size ≥ 512)) prep
      have hall : Allowed r₀ log .cmd := by
        refine ⟨by rw [hse]; exact hcmd.1, by rw [hse]; exact hcmd.2, fun h => hmem _ (hsbc h)⟩
      have hnot : ¬dmaSent r₀.id log := not_dmaSent hall.1
      simp only [decide_eq_true_eq] at hlog
      rw [send_data c hr hd, ← hlog]
      refine .cmd (books_send hb _ _ hall) hr hdone rfl (by rw [hd]; rfl)
        ⟨hop, ?_, ?_, fun _ => rfl, ?_, fun _ => ?_, ?_⟩
      · simp only [sends, List.filterMap_cons, if_true]
        exact congrArg (List.cons Slot.cmd) (hse.trans hsends)
      · simpa [mapCount, unmapCount] using hma
      · intro h d' hd'
        obtain rfl : d = d' := Option.some.inj (hd.symm.trans hd')
        simp only [Bool.and_eq_true, decide_eq_true_eq] at h
        exact h.1
      · simp only [dmaSent, List.mem_cons, Mark.send.injEq, true_and]
        exact ⟨fun h => h.elim Eq.symm fun h => absurd h hnot, fun h => Or.inl h.symm⟩
      · intro d' hd' hoff
        obtain rfl : d = d' := Option.some.inj (hd.symm.trans hd')
        have hb0 : ¬(d.size ≥ 512 ∧ prep = .ok) := by simpa using hoff
        simp only [if_neg hb0]
        have : pioWords r₀.id (.send r₀.id .cmd (decide (d.size ≥ 512) && decide (prep = .ok)) :: log) =
            pioWords r₀.id log := by simp [pioWords]
        omega

/-- The stop command goes out. -/
theorem send_stop_phase (books : Books r₀ base c.log) (hr : c.req = some r₀.transferred)
    (hdone : c.done = none) (hdata : c.data = false) (hneed : r₀.needStop = true)
    (hsends : sends r₀.id c.log = [.cmd]) (hdd : .dataDone r₀.id 0 ∈ c.log)
    (hmaps : mapCount r₀.id c.log = unmapCount r₀.id c.log)
    (hev : E.clean → Evidence E r₀ c.log) (timedOut : Bool) (prep : Prep) :
    InPhase r₀ base E (c.send .stop timedOut prep) .stop ∨
      InPhase r₀ base E (c.send .stop timedOut prep) .finished := by
  cases timedOut with
  | true =>
    right
    rw [send_timedOut c hr]
    refine finish_phase books rfl (transferred_same r₀) ?_ fun hc _ => hev hc
    simp [Ctl.curData, hdata, hmaps]
  | false =>
    left
    rw [send_plain c hr prep fun h => absurd h (by decide)]
    refine .stop (books_send books .stop false ?_) hr hdone rfl
      hdata hneed ?_ ?_ fun hc => evidence_send (by decide) (hev hc)
    · exact ⟨by rw [hsends]; simp, by rw [hsends]; simp, hdd, hneed⟩
    · simp only [Req.transferred, Req.modifyData, sends, List.filterMap_cons, if_true]
      exact congrArg (List.cons Slot.stop) hsends
    · simpa [mapCount, unmapCount] using hmaps

/-- Where data are out, the request is as it was handed over. -/
theorem data_out {p : Phase} (h : InPhase r₀ base E c p) (hcur : c.curData.isSome = true) :
    (p = .cmd ∨ p = .data) ∧ c.req = some r₀ ∧ c.done = none ∧ c.data = true ∧
      r₀.data.isSome = true ∧ Books r₀ base c.log ∧ DataBooks r₀ c := by
  have hdata : c.data = true ∧ ∃ d, c.req.bind (·.data) = some d := by
    unfold Ctl.curData at hcur
    split at hcur
    · rename_i hd; exact ⟨hd, Option.isSome_iff_exists.1 hcur⟩
    · exact absurd hcur (by simp)
  obtain ⟨hd, d, hbind⟩ := hdata
  cases h with
  | sbc _ _ _ _ hd' => rw [hd'] at hd; exact absurd hd (by simp)
  | cmd books req done _ hd' dbooks =>
    rw [req] at hbind
    exact ⟨Or.inl rfl, req, done, hd, by rw [show r₀.data = some d from hbind]; rfl, books, dbooks⟩
  | data books req done _ _ has dbooks _ => exact ⟨Or.inr rfl, req, done, hd, has, books, dbooks⟩
  | stop _ _ _ _ hd' => rw [hd'] at hd; exact absurd hd (by simp)
  | finished _ _ _ hd' => rw [hd'] at hd; exact absurd hd (by simp)

/-- **The data phase ends**: with the stop command, or with the request. -/
theorem finishData_phase (hfresh : Fresh r₀) {p : Phase} (h : InPhase r₀ base E c p)
    (hcur : c.curData.isSome = true) (hev : E.clean → Evidence E r₀ c.log) (timedOut : Bool) :
    InPhase r₀ base E (c.finishData timedOut) .stop ∨
      InPhase r₀ base E (c.finishData timedOut) .finished := by
  obtain ⟨-, hr, hdone, hdata, has, books, dbooks⟩ := data_out h hcur
  obtain ⟨d, hd⟩ := Option.isSome_iff_exists.1 has
  have herr := hfresh.data d hd
  have hcd : c.curData = some d := Ctl.curData_some hr hdata hd
  have htr : (r₀.modifyData fun d => { d with xfered := if d.error = 0 then d.size else 0 }) =
      r₀.transferred := by simp [Req.transferred, Req.modifyData, hd, herr]
  rw [Ctl.finishData_some hr hcd, htr, herr]
  simp only [and_true]
  -- the log once the mapping is gone and the data are booked
  set log := Mark.dataDone r₀.id 0 :: ((if c.dma then [Mark.unmapSg r₀.id] else []) ++ c.log) with hlog
  have hbooks : Books r₀ base log ∧
      mapCount r₀.id log = unmapCount r₀.id log ∧ sends r₀.id log = .cmd :: r₀.sbcSends ∧
      (E.clean → Evidence E r₀ log) := by
    have hm := dbooks.maps
    rw [hlog]
    cases hdma : c.dma with
    | true =>
      have hb1 := books_quiet books (k := .unmapSg r₀.id) rfl (by simp) (by simp) (by simp)
      refine ⟨books_quiet hb1 rfl (by simp) (by simp) (by simp), ?_, ?_, fun hc =>
        evidence_done (evidence_unmap (hev hc))⟩
      · simp only [hdma, mapCount, unmapCount, if_true, List.cons_append, List.nil_append,
          tally_cons, mapWeight, unmapWeight] at hm ⊢
        omega
      · exact dbooks.sends
    | false =>
      refine ⟨books_quiet books rfl (by simp) (by simp) (by simp), ?_, dbooks.sends, fun hc =>
        evidence_done (hev hc)⟩
      simpa [hdma, mapCount, unmapCount] using hm
  obtain ⟨hb, hmaps, hsends, hevid⟩ := hbooks
  split
  · rename_i hneed
    have hsbc : r₀.sbcSends = [] := by
      unfold Req.needStop at hneed
      simp only [Bool.and_eq_true, Option.isNone_iff_eq_none] at hneed
      simp [Req.sbcSends, hneed.2]
    rw [hsbc] at hsends
    exact send_stop_phase (c := { c with
        req := some r₀.transferred, cmd := some .stop, data := false, bytes := 0, log := log })
      hb rfl hdone rfl hneed hsends (by simp [hlog]) hmaps hevid timedOut .ok
  · right
    refine finish_phase hb rfl (transferred_same r₀) ?_ fun hc _ => hevid hc
    simpa [Ctl.curData] using hmaps

/-- The data of a request that is not sending any. -/
theorem finishData_idle {p : Phase} (h : InPhase r₀ base E c p) (hcur : c.curData = none)
    (timedOut : Bool) : InPhase r₀ base E (c.finishData timedOut) p := by
  rw [Ctl.finishData_none hcur]; exact h

/-- Words moved keep the phase. -/
theorem pio_phase {p : Phase} (h : InPhase r₀ base E c p) (words : Option ℕ) :
    InPhase r₀ base E (c.pio words) p := by
  cases words with
  | none => exact h
  | some w =>
    unfold Ctl.pio
    simp only
    by_cases hcur : c.curData.isNone = true
    · rw [if_pos hcur]; exact h
    rw [if_neg hcur]
    have hsome : c.curData.isSome = true := by
      cases hc : c.curData with
      | none => exact absurd (by rw [hc]; rfl) hcur
      | some d => rfl
    obtain ⟨hp, hr, hdone, hdata, has, books, dbooks⟩ := data_out h hsome
    rw [hr]
    simp only [Option.map_some, Option.getD_some]
    have hb := books_quiet books (k := .pio r₀.id (min w (c.bytes / 4))) rfl (by simp) (by simp) (by simp)
    have hdb : DataBooks r₀ { c with
        req := some r₀, bytes := c.bytes - 4 * min w (c.bytes / 4),
        log := .pio r₀.id (min w (c.bytes / 4)) :: c.log } := by
      obtain ⟨hop, h1, h2, h3, h6, h4, h5⟩ := dbooks
      refine ⟨hop, h1, by simpa [mapCount, unmapCount] using h2, h3, h6, ?_, ?_⟩
      · simpa [dmaSent] using h4
      · intro d hd hoff
        have := h5 d hd hoff
        have hmin : min w (c.bytes / 4) ≤ c.bytes / 4 := Nat.min_le_right _ _
        simp only [pioWords, tally_cons, wordWeight, if_true] at this ⊢
        omega
    cases h with
    | sbc _ _ _ _ hd => rw [hd] at hdata; exact absurd hdata (by simp)
    | cmd _ _ _ cmd data _ => exact .cmd hb rfl hdone cmd data hdb
    | data _ _ _ cmd data has _ seen => exact .data hb rfl hdone cmd data has hdb seen
    | stop _ _ _ _ hd => rw [hd] at hdata; exact absurd hdata (by simp)
    | finished _ _ _ hd => rw [hd] at hdata; exact absurd hdata (by simp)

/-- A mark that is neither a command nor a mapping nor words keeps the data's books. -/
theorem dataBooks_cmdDone {slot : Slot} {e : ℤ} {cmd : Option Slot} (h : DataBooks r₀ c) :
    DataBooks r₀ { c with cmd := cmd, log := .cmdDone r₀.id slot e :: c.log } := by
  obtain ⟨hop, h1, h2, h3, h4, h5, h6⟩ := h
  refine ⟨hop, h1, by simpa [mapCount, unmapCount] using h2, h3, h4, by simpa [dmaSent] using h5, ?_⟩
  intro d hd hoff
  simpa [pioWords] using h6 d hd hoff

/-- **A command completes.** The opcodes agree with the positions, and in a clean
run the completion is the command's own. -/
theorem finishCommand_phase (hfresh : Fresh r₀) {p : Phase} (h : InPhase r₀ base E c p)
    (h23 : ∀ slot, c.cmd = some slot → slot ≠ .sbc → (r₀.get slot).opcode ≠ 23)
    (hsbc : E.clean → c.cmd = some .sbc → (r₀.get .sbc).opcode ≠ 23 → ¬Succeeded r₀)
    (hseen : E.clean → c.cmd = some .cmd → E.cmdSeen) (env : StageEnv) :
    ∃ p', InPhase r₀ base E (c.finishCommand env) p' ∧ p'.rank ≤ p.rank ∧
      (c.cmd.isSome = true → p'.rank < p.rank) := by
  cases h with
  | sbc books req done cmd data dma has sends maps words =>
    rw [Ctl.finishCommand_some req cmd]
    obtain ⟨k, hk⟩ := Option.isSome_iff_exists.1 has
    have herr : (r₀.get .sbc).error = 0 := by
      rw [show r₀.get .sbc = k by simp [Req.get, hk]]; exact hfresh.sbc k hk
    rw [herr]
    have hb := books_quiet books (k := .cmdDone r₀.id .sbc 0) rfl (by simp) (by simp) (by simp)
    simp only
    by_cases hop : (r₀.get .sbc).opcode = 23
    · -- the main command follows
      rw [if_pos hop]
      have hnext := send_cmd_phase (E := E) (c := { c with
          cmd := some .cmd, log := .cmdDone r₀.id .sbc 0 :: c.log })
        hb req done data dma (by rw [Req.sbcSends, if_pos has]; exact sends)
        (by simpa [mapCount, unmapCount] using maps) (by simpa [pioWords] using words)
        (fun _ => List.mem_cons_self) (fun _ => hop) env.timedOut env.prep
      rcases hnext with h | h
      · exact ⟨.cmd, h, by decide, fun _ => by decide⟩
      · exact ⟨.finished, h, by decide, fun _ => by decide⟩
    · -- any other opcode ends the request here
      rw [if_neg hop, if_pos (by simp [Ctl.curData, data])]
      refine ⟨.finished, ?_, by decide, fun _ => by decide⟩
      refine finish_phase hb req ⟨rfl, rfl⟩ ?_ fun hc hs => absurd hs (hsbc hc cmd hop)
      simp only [dma, Bool.false_and, Bool.false_eq_true, if_false]
      simp only [mapCount, unmapCount, tally_cons, mapWeight, unmapWeight] at maps ⊢
      omega
  | cmd books req done cmd data dbooks =>
    rw [Ctl.finishCommand_some req cmd]
    have herr : (r₀.get .cmd).error = 0 := hfresh.cmd
    rw [herr]
    have hb := books_quiet books (k := .cmdDone r₀.id .cmd 0) rfl (by simp) (by simp) (by simp)
    simp only
    rw [if_neg (h23 .cmd cmd (by decide))]
    have hcur : c.curData = r₀.data := by
      unfold Ctl.curData
      rw [data, req]
      cases hd : r₀.data <;> simp [hd]
    cases hd : r₀.data with
    | none =>
      -- no data, so the request is over
      have hdf : c.data = false := by rw [data, hd]; rfl
      rw [if_pos (by rw [hcur, hd]; rfl)]
      refine ⟨.finished, ?_, by decide, fun _ => by decide⟩
      refine finish_phase hb req ⟨rfl, rfl⟩ ?_ fun hc _ => ⟨hseen hc cmd, fun d h => absurd h (by simp [hd])⟩
      have hdma : c.dma = false := by
        by_contra h
        rw [Bool.not_eq_false] at h
        rw [dbooks.dma_data h] at hdf
        exact absurd hdf (by simp)
      simpa [hdma, mapCount, unmapCount] using dbooks.maps
    | some d =>
      -- the words may have come before the command was done
      have hphase : InPhase r₀ base E { c with
          cmd := none, log := .cmdDone r₀.id .cmd 0 :: c.log } .data :=
        .data hb req done rfl (by rw [data, hd]; rfl) (by rw [hd]; rfl) (dataBooks_cmdDone dbooks)
          fun hc => hseen hc cmd
      rw [if_neg (by rw [hcur, hd]; simp)]
      refine ⟨.data, ?_, by decide, fun _ => by decide⟩
      split
      · exact hphase
      · exact pio_phase hphase env.early
  | data books req done cmd data has dbooks seen =>
    refine ⟨.data, ?_, Nat.le_refl _, fun h => by rw [cmd] at h; exact absurd h (by simp)⟩
    rw [Ctl.finishCommand_none (Or.inr cmd)]
    exact .data books req done cmd data has dbooks seen
  | stop books req done cmd data need sends maps evidence =>
    rw [Ctl.finishCommand_some req cmd]
    have hb := books_quiet books (k := .cmdDone r₀.id .stop (r₀.transferred.get .stop).error) rfl
      (by simp) (by simp) (by simp)
    simp only
    rw [if_neg (show (r₀.transferred.get .stop).opcode ≠ 23 from h23 .stop cmd (by decide)),
      if_pos (by simp [Ctl.curData, data])]
    refine ⟨.finished, ?_, by decide, fun _ => by decide⟩
    refine finish_phase hb req (transferred_same r₀) ?_ fun hc _ => evidence_cmdDone (evidence hc)
    simpa [Ctl.curData, data, mapCount, unmapCount] using maps
  | finished books req cmd data dma r done same maps evidence =>
    refine ⟨.finished, ?_, Nat.le_refl _, fun h => by rw [cmd] at h; exact absurd h (by simp)⟩
    rw [Ctl.finishCommand_none (Or.inl req)]
    exact .finished books req cmd data dma r done same maps evidence

/-! ## Errors -/

/-- The error bits of a command. -/
def IntStatus.cmdError (st : IntStatus) : Bool :=
  st.cmdTimeoutErr || st.cmdCrcErr || st.cmdEndBitErr || st.cmdIndexErr

/-- The error bits of a data phase. -/
def IntStatus.dataError (st : IntStatus) : Bool :=
  st.admaError || st.dataTimeoutErr || st.dataCrcErr || st.dataEndBitErr

theorem error_cases {st : IntStatus} (h : st.error = true) :
    st.cmdError = true ∨ st.dataError = true := by
  unfold IntStatus.error at h
  unfold IntStatus.cmdError IntStatus.dataError
  simp only [Bool.or_eq_true] at h ⊢
  tauto

/-- The error branch records in the request, and its command's mark leaves the data. -/
theorem mark_frame (r : Req) (st : IntStatus) (data : Bool) (cmd : Option Slot) :
    (r.markAdma st data).Same r ∧
      ((r.markCommand st cmd).Same r ∧ (r.markCommand st cmd).data = r.data) ∧
      (r.markData st data).Same r := by
  have hmod : ∀ slot f, (r.modify slot f).id = r.id ∧ (r.modify slot f).data = r.data := by
    intro slot f; cases slot <;> exact ⟨rfl, rfl⟩
  have hcmd : (r.markCommand st cmd).id = r.id ∧ (r.markCommand st cmd).data = r.data := by
    cases cmd with
    | none => exact ⟨rfl, rfl⟩
    | some slot =>
      unfold Req.markCommand
      simp only
      split
      · exact hmod _ _
      · split
        · exact hmod _ _
        · exact ⟨rfl, rfl⟩
  have hdata : ∀ f, (∀ d, DataView.size (f d) = d.size) → (r.modifyData f).Same r := by
    intro f hf
    refine ⟨rfl, ?_⟩
    unfold Req.modifyData
    rw [Option.map_map]
    exact congrArg (fun g => r.data.map g) (funext hf)
  refine ⟨?_, ⟨⟨hcmd.1, by rw [hcmd.2]⟩, hcmd.2⟩, ?_⟩
  · unfold Req.markAdma
    split
    · exact hdata _ fun _ => rfl
    · exact ⟨rfl, rfl⟩
  · unfold Req.markData
    split
    · refine hdata _ ?_
      intro d
      cases st.dataTimeoutErr <;> cases st.dataCrcErr <;> cases st.dataEndBitErr <;> rfl
    · exact ⟨rfl, rfl⟩

/-- The request that the error branch finishes. -/
theorem irqError_some {r : Req} (hr : c.req = some r) (st : IntStatus) :
    ∃ r', c.irqError st = Ctl.finish { c with req := some r' } ∧ r'.Same r ∧
      ((r' = (r.markAdma st c.data).markCommand st c.cmd ∧ st.cmdTimeoutErr = true ∧
          c.cmd.isSome = true) ∨
        r' = ((r.markAdma st c.data).markCommand st c.cmd).markData st c.data) := by
  have h1 := (mark_frame r st c.data c.cmd).1
  have h2 := (mark_frame (r.markAdma st c.data) st c.data c.cmd).2.1
  have h3 := (mark_frame ((r.markAdma st c.data).markCommand st c.cmd) st c.data c.cmd).2.2
  unfold Ctl.irqError
  rw [hr]
  simp only
  split
  · rename_i hcond
    rw [Bool.and_eq_true] at hcond
    refine ⟨_, rfl, h2.1.trans h1, Or.inl ⟨rfl, hcond.1, ?_⟩⟩
    cases hc : c.cmd with
    | none => rw [hc] at hcond; exact absurd hcond.2 (by simp)
    | some slot => rfl
  · exact ⟨_, rfl, h3.trans (h2.1.trans h1), Or.inr rfl⟩

/-- With no data out, the branch leaves the data as they are. -/
theorem mark_data_off (r : Req) (st : IntStatus) (cmd : Option Slot) :
    (((r.markAdma st false).markCommand st cmd).markData st false).data = r.data ∧
      ((r.markAdma st false).markCommand st cmd).data = r.data := by
  have h1 : r.markAdma st false = r := by simp [Req.markAdma]
  have h2 : ∀ q : Req, q.markData st false = q := by intro q; simp [Req.markData]
  rw [h1, h2]
  exact ⟨(mark_frame r st false cmd).2.1.2, (mark_frame r st false cmd).2.1.2⟩

/-- A command error is recorded in the command, where the data's marks leave it. -/
theorem cmdError_recorded {r : Req} {st : IntStatus} (slot : Slot) (data : Bool)
    (he : st.cmdError = true) (hs : slot ≠ .stop) (hsbc : slot = .sbc → r.sbc.isSome = true) :
    ¬Succeeded ((r.markAdma st data).markCommand st (some slot)) ∧
      ¬Succeeded (((r.markAdma st data).markCommand st (some slot)).markData st data) := by
  have hsbc' : slot = .sbc → (r.markAdma st data).sbc.isSome = true := by
    intro h; unfold Req.markAdma; split <;> exact hsbc h
  have hkeep : ∀ q : Req, Succeeded (q.markData st data) →
      (∀ k, q.sbc = some k → k.error = 0) ∧ q.cmd.error = 0 := by
    intro q hq
    unfold Req.markData at hq
    split at hq <;> exact ⟨hq.1, hq.2.1⟩
  have hkey : ∃ e : ℤ, e ≠ 0 ∧ (r.markAdma st data).markCommand st (some slot) =
      (r.markAdma st data).modify slot fun k => { k with error := e } := by
    unfold Req.markCommand
    simp only
    by_cases ht : st.cmdTimeoutErr = true
    · exact ⟨-ETIMEDOUT, by decide, by rw [if_pos ht]⟩
    · refine ⟨-EILSEQ, by decide, ?_⟩
      rw [if_neg ht, if_pos]
      unfold IntStatus.cmdError at he
      simpa [ht] using he
  obtain ⟨e, he0, heq⟩ := hkey
  have hnot := not_succeeded_modify hs hsbc' (e := e) he0
  rw [heq]
  refine ⟨hnot, fun h => hnot ?_⟩
  obtain ⟨h1, h2⟩ := hkeep _ h
  -- `modify` sets the error of an `sbc` or of the main command
  cases slot with
  | sbc =>
    obtain ⟨k, hk⟩ := Option.isSome_iff_exists.1 (hsbc' rfl)
    exact absurd (h1 { k with error := e } (by simp [Req.modify, hk])) he0
  | cmd => exact absurd h2 he0
  | stop => exact absurd rfl hs

/-- A data error is recorded in the data, if the branch gets that far. -/
theorem dataError_recorded {r : Req} {st : IntStatus} {cmd : Option Slot}
    (he : st.dataError = true) (hd : r.data.isSome = true) :
    ¬Succeeded (((r.markAdma st true).markCommand st cmd).markData st true) := by
  obtain ⟨d, hd⟩ := Option.isSome_iff_exists.1 hd
  have hdata : ∀ q : Req, (q.markCommand st cmd).data = q.data := fun q =>
    (mark_frame q st true cmd).2.1.2
  rintro ⟨-, -, h⟩
  simp only [Req.markData, if_true, Req.modifyData, hdata] at h
  unfold IntStatus.dataError at he
  cases ha : st.admaError <;> cases ht : st.dataTimeoutErr <;> cases hc : st.dataCrcErr <;>
    cases hb : st.dataEndBitErr <;>
    simp [ha, ht, hc, hb, Req.markAdma, Req.modifyData, hd, EIO, ETIMEDOUT, EILSEQ] at he h

/-- Without an error bit of the data nothing is recorded while only data is out. -/
theorem mark_quiet {st : IntStatus} (r : Req) (hde : st.dataError = false) :
    ((r.markAdma st true).markCommand st none).markData st true = r := by
  unfold IntStatus.dataError at hde
  simp only [Bool.or_eq_false_iff] at hde
  obtain ⟨⟨⟨ha, ht⟩, hcrc⟩, hend⟩ := hde
  simp [Req.markAdma, Req.markCommand, Req.markData, ha, ht, hcrc, hend, Req.modifyData]

/-- **The error branch ends the request.** In a clean run an error that concerns no
part of the request is not met while only a command is out. -/
theorem irqError_phase {st : IntStatus} (hst : st.error = true) {p : Phase}
    (h : InPhase r₀ base E c p) (hunmoved : E.clean → Unmoved r₀)
    (hclean : E.clean → c.data = false → (c.cmd = some .sbc ∨ c.cmd = some .cmd) →
      (∀ d, r₀.data = some d → d.size = 0) → st.cmdError = true) :
    InPhase r₀ base E (c.irqError st) .finished := by
  -- only a command out: an error of the request is recorded in the command
  have hout : ∀ slot, c.cmd = some slot → (slot = .sbc ∨ slot = .cmd) → c.data = false →
      c.req = some r₀ → (slot = .sbc → r₀.sbc.isSome = true) → E.clean → ∀ r',
      (r' = (r₀.markAdma st c.data).markCommand st c.cmd ∨
        r' = ((r₀.markAdma st c.data).markCommand st c.cmd).markData st c.data) → ¬Succeeded r' := by
    intro slot hcmd hslot hdata hr hsbc hc r' hr' hs
    have hrd : r'.data = r₀.data := by
      rw [hdata] at hr'
      rcases hr' with rfl | rfl
      · exact (mark_data_off r₀ st c.cmd).2
      · exact (mark_data_off r₀ st c.cmd).1
    have hsize : ∀ d, r₀.data = some d → d.size = 0 := by
      intro d hd
      have := (hs.2.2 d (hrd.trans hd)).2
      rw [hunmoved hc d hd] at this
      exact this.symm
    have herr := hclean hc hdata (by rcases hslot with h | h <;> simp [hcmd, h]) hsize
    obtain ⟨hn1, hn2⟩ := cmdError_recorded (r := r₀) slot c.data herr
      (by rcases hslot with h | h <;> simp [h]) hsbc
    rw [hcmd] at hr'
    rcases hr' with rfl | rfl
    · exact hn1 hs
    · exact hn2 hs
  cases h with
  | sbc books req done cmd data dma has sends maps words =>
    obtain ⟨r', heq, hsame, hr'⟩ := irqError_some req st
    rw [heq]
    refine finish_phase (c := { c with req := some r' }) books rfl hsame (by simp [dma, maps]) fun hc hs =>
      absurd hs (hout .sbc cmd (Or.inl rfl) data req (fun _ => has) hc r' (hr'.imp (·.1) id))
  | cmd books req done cmd data dbooks =>
    obtain ⟨r', heq, hsame, hr'⟩ := irqError_some req st
    have hsome := hsame.isSome
    rw [heq]
    refine finish_phase (c := { c with req := some r' }) books rfl hsame ?_ ?_
    · have hm := dbooks.maps
      by_cases hdma : c.dma = true
      · have hd := dbooks.dma_data hdma
        have : (Ctl.curData { c with req := some r' }).isSome = true := by
          simp [Ctl.curData, hd, hsome, ← data]
        simp only [this, Bool.and_true]
        exact hm
      · simpa [hdma] using hm
    · intro hc hs
      cases hd : c.data with
      | false =>
        exact absurd hs (hout .cmd cmd (Or.inr rfl) hd req (by simp) hc r' (hr'.imp (·.1) id))
      | true =>
        have hcerr : st.cmdError = true → ¬Succeeded r' := by
          intro he
          obtain ⟨hn1, hn2⟩ := cmdError_recorded (r := r₀) .cmd c.data he
            (by decide) (by simp)
          rw [cmd] at hr'
          rcases hr' with ⟨rfl, -⟩ | rfl
          · exact hn1
          · exact hn2
        rcases error_cases hst with he | he
        · exact absurd hs (hcerr he)
        · rcases hr' with ⟨-, ht, -⟩ | rfl
          · exact absurd hs (hcerr (by simp [IntStatus.cmdError, ht]))
          · rw [hd] at hs
            exact absurd hs (dataError_recorded he (by rw [← data, hd]))
  | data books req done cmd data has dbooks seen =>
    obtain ⟨r', heq, hsame, hr'⟩ := irqError_some req st
    have hsome := hsame.isSome
    rw [heq]
    rw [cmd, data] at hr'
    have hr' : r' = ((r₀.markAdma st true).markCommand st none).markData st true := by
      rcases hr' with ⟨-, -, h⟩ | h
      · exact absurd h (by simp)
      · exact h
    refine finish_phase (c := { c with req := some r' }) books rfl hsame ?_ ?_
    · have hm := dbooks.maps
      have : (Ctl.curData { c with req := some r' }).isSome = true := by
        simp [Ctl.curData, data, hsome, has]
      simpa [this] using hm
    · intro hc hs
      -- only a command's error bits: nothing is recorded, and nothing was transferred
      have hde : st.dataError = false := by
        by_contra h
        rw [Bool.not_eq_false] at h
        rw [hr'] at hs
        exact dataError_recorded h has hs
      have hsame : r' = r₀ := hr'.trans (mark_quiet r₀ hde)
      refine ⟨seen hc, ?_⟩
      intro d hd
      have hx := (hs.2.2 d (hsame ▸ hd)).2
      rw [hunmoved hc d hd] at hx
      have hoff : c.dma = false := by
        by_contra h
        rw [Bool.not_eq_false] at h
        have := dbooks.dma_size h d hd
        omega
      have hnot : ¬dmaSent r₀.id c.log := by
        rw [dbooks.dma_sent has, hoff]; simp
      have hwords := dbooks.words d hd hoff
      rw [if_neg hnot]
      exact (by omega : 4 * pioWords r₀.id c.log = d.size)
  | stop books req done cmd data need sends maps evidence =>
    obtain ⟨r', heq, hsame, -⟩ := irqError_some req st
    rw [heq]
    refine finish_phase (c := { c with req := some r' }) books rfl (hsame.trans (transferred_same r₀)) ?_
      fun hc _ => evidence hc
    simpa [Ctl.curData, data] using maps
  | finished books req cmd data dma r done same maps evidence =>
    unfold Ctl.irqError
    rw [req]
    exact .finished books req cmd data dma r done same maps evidence

/-- What the log holds of a request it knows nothing of. -/
theorem fresh_log {id : ℕ} (h : ∀ k ∈ log, k.id ≠ id) :
    others id log = log ∧ sends id log = [] ∧ mapCount id log = 0 ∧ unmapCount id log = 0 ∧
      pioWords id log = 0 ∧ doneCount id log = 0 := by
  refine ⟨List.filter_eq_self.2 fun k hk => by simpa using h k hk, ?_,
    tally_zero fun k hk => (weight_other (h k hk)).1, tally_zero fun k hk => (weight_other (h k hk)).2.1,
    tally_zero fun k hk => (weight_other (h k hk)).2.2.1,
    tally_zero fun k hk => (weight_other (h k hk)).2.2.2⟩
  refine List.filterMap_eq_nil_iff.2 ?_
  intro k hk
  have hne := h k hk
  cases k with
  | send i slot dma => exact if_neg hne
  | _ => rfl

theorem fresh_sequenced {r : Req} (h : ∀ k ∈ log, k.id ≠ r.id) : Sequenced r log := by
  induction log with
  | nil => trivial
  | cons k log ih =>
    refine sequenced_cons ?_ (ih fun k hk => h k (List.mem_cons_of_mem _ hk))
    rintro slot dma rfl
    exact h _ List.mem_cons_self rfl

/-- **A request is taken.** -/
theorem requestLocked_phase (hidle : Idle r₀.id c) (timedOut : Bool) (prep : Prep) :
    ∃ p, InPhase r₀ c.log E (c.requestLocked r₀ timedOut prep) p := by
  obtain ⟨-, hdone, hdata, hdma, hfr⟩ := hidle
  obtain ⟨h1, h2, h3, h4, h5, h6⟩ := fresh_log hfr
  have books : Books r₀ c.log c.log := ⟨h1, fresh_sequenced hfr, h6, by omega⟩
  unfold Ctl.requestLocked
  simp only
  split
  · rename_i has
    cases timedOut with
    | true =>
      rw [send_timedOut _ rfl]
      refine ⟨.finished, finish_phase books rfl ⟨rfl, rfl⟩ ?_ fun _ hs =>
        absurd hs (not_succeeded_modify (by decide) (fun _ => has) (by decide))⟩
      simp [hdma, h3, h4]
    | false =>
      rw [send_plain _ rfl prep fun h => absurd h (by decide)]
      refine ⟨.sbc, .sbc (books_send books .sbc false ⟨has, h2⟩) rfl hdone rfl hdata
        hdma has ?_ ?_ ?_⟩
      · simp only [sends, List.filterMap_cons, if_true]
        exact congrArg (List.cons Slot.sbc) h2
      · simpa [mapCount, unmapCount] using And.intro h3 h4
      · simpa [pioWords] using h5
  · rename_i has
    have hnext := send_cmd_phase (E := E) (c := { c with req := some r₀ }) books rfl hdone hdata hdma
      (by rw [Req.sbcSends, if_neg has]; exact h2) ⟨h3, h4⟩ h5 (fun h => absurd h has)
      (fun h => absurd h has) timedOut prep
    rcases hnext with h | h
    · exact ⟨_, h⟩
    · exact ⟨_, h⟩

end Br2Efinix.Emmc
