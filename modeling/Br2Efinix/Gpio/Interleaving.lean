import Br2Efinix.Gpio.InterruptEnables
import Br2Efinix.Lib.Machine

/-!
# The interrupt lines of the GPIO on several processors

The operations on an interrupt line come one after the other, but those of the two lines overlap. A critical section is
one step, except that `enabled` is read and written back in two: `spinal_lib_gpio_irq_enable` and
`spinal_lib_gpio_irq_disable` write it without the lock.

* `code_alone`: an operation that nothing overlaps is the operation of the sequential model.
* `Inv.step`: each line gets on as if its operations ran alone, as long as no clearing of a bit is lost.
* `Damaged.step`: a clearing that is lost stays lost until its operation is over.
* `interleaved_right_iff`: **every operation leaves its line as if alone**, exactly in the runs in which no
  `irq_disable` falls between the reading and the writing back of its bit by another line.
-/

namespace Br2Efinix.Gpio

/-- A step of an operation: `direction_input`, `assign_bit` on `enabled`, the section in which a line is masked or
unmasked up to the reading of `enabled` and from there on, `set_ie`, and the accesses that no other line makes. -/
inductive Micro
  | input
  | assign (enable : Bool)
  | read (masked : Bool)
  | write (enable : Bool)
  | setIe
  | trigger (type : BitVec 32)
  | handler (type : BitVec 32)
  deriving DecidableEq, Repr

/-- The steps of an operation of the interrupt controller. -/
def Op.code (ngpio : ℕ) : Op → List Micro
  | .irqMask offset =>
    if offset ≥ ngpio then [] else if offset ≠ 0 ∧ offset ≠ 1 then [] else [.read true, .write false, .setIe]
  | .irqUnmask offset =>
    if offset ≥ ngpio then [] else if offset ≠ 0 ∧ offset ≠ 1 then [] else [.read false, .write true, .setIe]
  | .irqEnable offset =>
    [.input, .assign true] ++
      if offset ≥ ngpio then [] else if offset ≠ 0 ∧ offset ≠ 1 then [] else [.read false, .write true, .setIe]
  | .irqDisable _ => [.assign false, .setIe]
  | .irqSetType offset type =>
    if offset ≥ ngpio then [] else if offset ≠ 0 ∧ offset ≠ 1 then []
    else [.input, .trigger type, .setIe, .handler type]
  | _ => []

/-- The lock is held by the line whose bits are being updated; with it goes `enabled` as it was read. -/
abbrev Lock := Option (ℕ × BitVec 32)

/-- A step for a line; one that needs the lock waits for it. -/
def Micro.exec (offset : ℕ) (p : Chip × Lock) : Micro → Option (Chip × Lock)
  | .input => if p.2 = none then some ((p.1.directionInput offset).2, none) else none
  | .assign enable => some ({ p.1 with enabled := assignBit p.1.enabled offset enable }, p.2)
  | .read masked =>
    if p.2 = none then
      some ({ p.1 with interruptMask := assignBit p.1.interruptMask offset masked }, some (offset, p.1.enabled))
    else none
  | .write enable =>
    p.2.bind fun l => if l.1 = offset then some ({ p.1 with enabled := assignBit l.2 offset enable }, none) else none
  | .setIe => if p.2 = none then some (p.1.setIe offset, none) else none
  | .trigger type => some ({ p.1 with trigger := Function.update p.1.trigger offset type }, p.2)
  | .handler type =>
    let handler := if type &&& IRQ_TYPE_LEVEL_MASK ≠ 0#32 then .fasteoi else .level
    some ({ p.1 with handler := Function.update p.1.handler offset handler }, p.2)

/-- The operations of the interrupt controller. -/
def Op.isIrq : Op → Bool
  | .irqMask _ | .irqUnmask _ | .irqEnable _ | .irqDisable _ | .irqSetType _ _ => true
  | _ => false

/-- The chip with its lock; what is left to do of the operation on each line, and the operations of the line so far. -/
structure Smp where
  chip : Chip
  lock : Lock
  rest : ℕ → List Micro
  log : ℕ → List Op

/-- An operation on an interrupt line begins, or one of its steps is made; or the direction or the value of a line is
set. -/
inductive SmpAct
  | start (op : Op)
  | step (offset : ℕ)
  | direct (op : Op)
  deriving DecidableEq, Repr

namespace Smp

def started (c₀ : Chip) : Smp := { chip := c₀, lock := none, rest := fun _ => [], log := fun _ => [] }

/-- One operation at a time is on an interrupt line; `spinal_lib_init_valid_mask` tells which lines are such. -/
def next (s : Smp) : SmpAct → Option Smp
  | .start op =>
    if op.isIrq = true ∧ Capable s.chip.ngpio op.line ∧ s.rest op.line = [] then
      some { s with
        rest := Function.update s.rest op.line (op.code s.chip.ngpio)
        log := Function.update s.log op.line (s.log op.line ++ [op]) }
    else none
  | .step offset =>
    match s.rest offset with
    | [] => none
    | m :: rest =>
      (m.exec offset (s.chip, s.lock)).map fun p =>
        { s with chip := p.1, lock := p.2, rest := Function.update s.rest offset rest }
  | .direct op => if op.isIrq = false ∧ s.lock = none then some { s with chip := s.chip.apply op } else none

end Smp

def smp (c₀ : Chip) : Machine Smp SmpAct := { init := fun s => s = .started c₀, step := Smp.next }

/-- What the interrupt controller has of a line. -/
def Line.irq (l : Line) : Line := { l with isOutput := false }

/-- The line is as if its operations had run alone. -/
def Right (c₀ : Chip) (s : Smp) (i : ℕ) : Prop := (s.chip.line i).irq = ((c₀.run (s.log i)).line i).irq

/-- After the action the lines on which no operation is under way are right. -/
def Leaves (c₀ : Chip) (s : Smp) (a : SmpAct) : Prop :=
  ∀ s', s.next a = some s' → ∀ i, Capable c₀.ngpio i → s'.rest i = [] → Right c₀ s' i

/-- `irq_disable` clears the bit of its line while another line has read it as set and has not written it back. -/
def Loses (s : Smp) : SmpAct → Prop
  | .step i => (s.rest i).head? = some (.assign false) ∧ s.lock.any (·.2.getLsbD i) = true
  | _ => False

instance (s : Smp) : ∀ a, Decidable (Loses s a)
  | .step i =>
    inferInstanceAs (Decidable ((s.rest i).head? = some (.assign false) ∧ s.lock.any (·.2.getLsbD i) = true))
  | .start _ | .direct _ => isFalse not_false

variable {c c₀ : Chip} {op : Op} {m : Micro} {ngpio offset i : ℕ} {p p' : Chip × Lock} {s s' : Smp} {a : SmpAct}

/-! ## An operation on its own -/

theorem code_capable (hcap : Capable ngpio op.line) :
    op.code ngpio =
      match op with
      | .irqMask _ => [.read true, .write false, .setIe]
      | .irqUnmask _ => [.read false, .write true, .setIe]
      | .irqEnable _ => [.input, .assign true, .read false, .write true, .setIe]
      | .irqDisable _ => [.assign false, .setIe]
      | .irqSetType _ type => [.input, .trigger type, .setIe, .handler type]
      | _ => [] := by
  cases op with
  | irqMask offset => exact (checks_eq ..).trans (if_pos hcap)
  | irqUnmask offset => exact (checks_eq ..).trans (if_pos hcap)
  | irqEnable offset => exact congrArg ([Micro.input, .assign true] ++ ·) ((checks_eq ..).trans (if_pos hcap))
  | irqDisable offset => rfl
  | irqSetType offset type => exact (checks_eq ..).trans (if_pos hcap)
  | directionInput offset => rfl
  | directionOutput offset value => rfl
  | setValue offset value => rfl

/-- The section and `set_ie` after it. -/
theorem update_alone (c : Chip) (offset : ℕ) (masked enable : Bool) :
    [Micro.read masked, .write enable, .setIe].foldlM (fun p m => m.exec offset p) (c, none) =
      some ({ c with
        interruptMask := assignBit c.interruptMask offset masked
        enabled := assignBit c.enabled offset enable }.setIe offset, none) := by
  show (if offset = offset then some (_, none) else none : Option (Chip × Lock)).bind _ = _
  rw [if_pos rfl]
  rfl

/-- **An operation that nothing overlaps** is the operation of the sequential model. -/
theorem code_alone (hirq : op.isIrq = true) (hcap : Capable c.ngpio op.line) :
    (op.code c.ngpio).foldlM (fun p m => m.exec op.line p) (c, none) = some (c.apply op, none) := by
  have hcode := code_capable hcap
  cases op with
  | irqMask offset =>
    have hmask : c.irqMask offset = _ := (checks_eq ..).trans (if_pos hcap)
    rw [hcode]
    exact (update_alone c offset true false).trans (congrArg (fun d => some (d, none)) hmask.symm)
  | irqUnmask offset =>
    have hunmask : c.irqUnmask offset = _ := (checks_eq ..).trans (if_pos hcap)
    rw [hcode]
    exact (update_alone c offset false true).trans (congrArg (fun d => some (d, none)) hunmask.symm)
  | irqEnable offset =>
    have hsame : Capable (c.directionInput offset).2.ngpio offset := ngpio_directionInput.symm ▸ hcap
    have hunmask : c.irqEnable offset = _ := (checks_eq ..).trans (if_pos hsame)
    rw [hcode]
    exact (update_alone _ offset false true).trans (congrArg (fun d => some (d, none)) hunmask.symm)
  | irqDisable offset => rfl
  | irqSetType offset type =>
    have hset : c.irqSetType offset type = _ := (checks_eq ..).trans (if_pos hcap)
    rw [hcode]
    exact (congrArg (fun r : ℤ × Chip => some (r.2, (none : Lock))) hset).symm
  | directionInput offset => cases hirq
  | directionOutput offset value => cases hirq
  | setValue offset value => cases hirq

/-! ## A step on a line -/

/-- What a step makes of its line. -/
def Line.micro (l : Line) : Micro → Line
  | .input => l
  | .assign enable => { l with enabled := enable }
  | .read masked => { l with masked := masked }
  | .write enable => { l with enabled := enable }
  | .setIe => l.settle
  | .trigger type => { l with type := type }
  | .handler _ => l

theorem directionInput_enabled (c : Chip) (offset : ℕ) : (c.directionInput offset).2.enabled = c.enabled := by
  unfold Chip.directionInput
  split <;> rfl

theorem setIe_same (c : Chip) (offset : ℕ) :
    (c.setIe offset).enabled = c.enabled ∧ (c.setIe offset).ngpio = c.ngpio := by
  unfold Chip.setIe
  simp only
  split <;> exact ⟨rfl, rfl⟩

/-- **A step does to its line** what it is for. -/
theorem exec_self (hngpio : p.1.ngpio ≤ 32) (hoffset : offset < 32) (h : m.exec offset p = some p') :
    (p'.1.line offset).irq = (p.1.line offset).irq.micro m := by
  cases m with
  | input =>
    obtain ⟨-, rfl⟩ := of_guard h
    show ((p.1.directionInput offset).2.line offset).irq = (p.1.line offset).irq
    rw [directionInput_line hngpio hoffset]
    split <;> rfl
  | assign enable =>
    obtain rfl := Option.some.inj h
    simp only [Line.irq, Line.micro, Chip.line, assignBit_getLsbD hoffset hoffset, if_true]
  | read masked =>
    obtain ⟨-, rfl⟩ := of_guard h
    simp only [Line.irq, Line.micro, Chip.line, assignBit_getLsbD hoffset hoffset, if_true]
  | write enable =>
    obtain ⟨l, -, hwrite⟩ := Option.bind_eq_some_iff.1 h
    obtain ⟨-, rfl⟩ := of_guard hwrite
    simp only [Line.irq, Line.micro, Chip.line, assignBit_getLsbD hoffset hoffset, if_true]
  | setIe =>
    obtain ⟨-, rfl⟩ := of_guard h
    show ((p.1.setIe offset).line offset).irq = (p.1.line offset).irq.settle
    rw [setIe_line hoffset hoffset, if_pos rfl]
    rfl
  | trigger type =>
    obtain rfl := Option.some.inj h
    simp only [Line.irq, Line.micro, Chip.line, Function.update_self]
  | handler type =>
    obtain rfl := Option.some.inj h
    rfl

/-- Another line is as it was, unless what was read of it is written back. -/
theorem exec_other (hngpio : p.1.ngpio ≤ 32) (hoffset : offset < 32) (hi : i < 32) (hne : i ≠ offset)
    (h : m.exec offset p = some p') :
    (p'.1.line i).irq = { (p.1.line i).irq with enabled := p'.1.enabled.getLsbD i } ∧
      (p'.1.enabled.getLsbD i = p.1.enabled.getLsbD i ∨
        ∃ enable old, m = .write enable ∧ p.2 = some (offset, old) ∧ p'.1.enabled.getLsbD i = old.getLsbD i) := by
  cases m with
  | input =>
    obtain ⟨-, rfl⟩ := of_guard h
    refine ⟨?_, Or.inl (congrArg (·.getLsbD i) (directionInput_enabled p.1 offset))⟩
    show ((p.1.directionInput offset).2.line i).irq = _
    rw [directionInput_line hngpio hi, if_neg fun heq => hne heq.1, directionInput_enabled]
    rfl
  | assign enable =>
    obtain rfl := Option.some.inj h
    refine ⟨rfl, Or.inl ?_⟩
    rw [assignBit_getLsbD hoffset hi, if_neg hne]
  | read masked =>
    obtain ⟨-, rfl⟩ := of_guard h
    refine ⟨?_, Or.inl rfl⟩
    simp only [Line.irq, Chip.line, assignBit_getLsbD hoffset hi, if_neg hne]
  | write enable =>
    obtain ⟨⟨j, old⟩, hlock, hwrite⟩ := Option.bind_eq_some_iff.1 h
    obtain ⟨rfl, rfl⟩ := of_guard hwrite
    refine ⟨rfl, Or.inr ⟨enable, old, rfl, hlock, ?_⟩⟩
    rw [assignBit_getLsbD hoffset hi, if_neg hne]
  | setIe =>
    obtain ⟨-, rfl⟩ := of_guard h
    refine ⟨?_, Or.inl (congrArg (·.getLsbD i) (setIe_same p.1 offset).1)⟩
    show ((p.1.setIe offset).line i).irq = { (p.1.line i).irq with enabled := (p.1.setIe offset).enabled.getLsbD i }
    rw [setIe_line hoffset hi, if_neg hne, (setIe_same p.1 offset).1]
    rfl
  | trigger type =>
    obtain rfl := Option.some.inj h
    refine ⟨?_, Or.inl rfl⟩
    simp only [Line.irq, Chip.line, Function.update_of_ne hne]
  | handler type =>
    obtain rfl := Option.some.inj h
    exact ⟨rfl, Or.inl rfl⟩

/-- Directions and values are nothing to the interrupt controller. -/
theorem direct_line (hngpio : c.ngpio ≤ 32) (hi : i < 32) (hdirect : op.isIrq = false) :
    ((c.apply op).line i).irq = (c.line i).irq := by
  cases op with
  | irqMask offset => cases hdirect
  | irqUnmask offset => cases hdirect
  | irqEnable offset => cases hdirect
  | irqDisable offset => cases hdirect
  | irqSetType offset type => cases hdirect
  | directionInput offset =>
    show ((c.directionInput offset).2.line i).irq = _
    rw [directionInput_line hngpio hi]
    split <;> rfl
  | directionOutput offset value =>
    show ((c.directionOutput offset value).2.line i).irq = _
    rw [directionOutput_line hngpio hi]
    split <;> rfl
  | setValue offset value =>
    show ((c.setValue offset value).line i).irq = _
    rw [setValue_line]

theorem exec_ngpio (h : m.exec offset p = some p') : p'.1.ngpio = p.1.ngpio := by
  cases m with
  | input =>
    obtain ⟨-, rfl⟩ := of_guard h
    exact ngpio_directionInput
  | assign enable =>
    obtain rfl := Option.some.inj h
    rfl
  | read masked =>
    obtain ⟨-, rfl⟩ := of_guard h
    rfl
  | write enable =>
    obtain ⟨l, -, hwrite⟩ := Option.bind_eq_some_iff.1 h
    obtain ⟨-, rfl⟩ := of_guard hwrite
    rfl
  | setIe =>
    obtain ⟨-, rfl⟩ := of_guard h
    exact (setIe_same p.1 offset).2
  | trigger type =>
    obtain rfl := Option.some.inj h
    rfl
  | handler type =>
    obtain rfl := Option.some.inj h
    rfl

/-- The lock after a step: it is taken, given back or not touched. -/
theorem exec_lock (h : m.exec offset p = some p') :
    (∃ masked, m = .read masked ∧ p.2 = none ∧ p'.2 = some (offset, p.1.enabled) ∧ p'.1.enabled = p.1.enabled) ∨
      (∃ enable old, m = .write enable ∧ p.2 = some (offset, old) ∧ p'.2 = none ∧
        p'.1.enabled = assignBit old offset enable) ∨
        p'.2 = p.2 ∧ (∀ enable, m ≠ .write enable) ∧
          ((∃ enable, m = .assign enable) ∨ p'.1.enabled = p.1.enabled) := by
  cases m with
  | input =>
    obtain ⟨hfree, rfl⟩ := of_guard h
    exact Or.inr (Or.inr ⟨hfree.symm, nofun, Or.inr (directionInput_enabled p.1 offset)⟩)
  | assign enable =>
    obtain rfl := Option.some.inj h
    exact Or.inr (Or.inr ⟨rfl, nofun, Or.inl ⟨enable, rfl⟩⟩)
  | read masked =>
    obtain ⟨hfree, rfl⟩ := of_guard h
    exact Or.inl ⟨masked, rfl, hfree, rfl, rfl⟩
  | write enable =>
    obtain ⟨⟨j, old⟩, hlock, hwrite⟩ := Option.bind_eq_some_iff.1 h
    obtain ⟨rfl, rfl⟩ := of_guard hwrite
    exact Or.inr (Or.inl ⟨enable, old, rfl, hlock, rfl, rfl⟩)
  | setIe =>
    obtain ⟨hfree, rfl⟩ := of_guard h
    exact Or.inr (Or.inr ⟨hfree.symm, nofun, Or.inr (setIe_same p.1 offset).1⟩)
  | trigger type =>
    obtain rfl := Option.some.inj h
    exact Or.inr (Or.inr ⟨rfl, nofun, Or.inr rfl⟩)
  | handler type =>
    obtain rfl := Option.some.inj h
    exact Or.inr (Or.inr ⟨rfl, nofun, Or.inr rfl⟩)

/-- What follows a step in an operation. -/
theorem code_next {rest : List Micro} (hcap : Capable ngpio op.line) (h : m :: rest <:+ op.code ngpio) :
    (m = .assign true → rest = [.read false, .write true, .setIe]) ∧
      (∀ masked, m = .read masked → ∃ enable, rest = [.write enable, .setIe]) ∧
      (m = .assign false → rest = [.setIe] ∧ op = .irqDisable op.line) := by
  rw [code_capable hcap] at h
  cases op with
  | irqMask offset =>
    simp only [List.suffix_cons_iff, List.suffix_nil, List.cons.injEq, reduceCtorEq, or_false] at h
    rcases h with ⟨rfl, rfl⟩ | ⟨rfl, rfl⟩ | ⟨rfl, rfl⟩ <;> simp
  | irqUnmask offset =>
    simp only [List.suffix_cons_iff, List.suffix_nil, List.cons.injEq, reduceCtorEq, or_false] at h
    rcases h with ⟨rfl, rfl⟩ | ⟨rfl, rfl⟩ | ⟨rfl, rfl⟩ <;> simp
  | irqEnable offset =>
    simp only [List.suffix_cons_iff, List.suffix_nil, List.cons.injEq, reduceCtorEq, or_false] at h
    rcases h with ⟨rfl, rfl⟩ | ⟨rfl, rfl⟩ | ⟨rfl, rfl⟩ | ⟨rfl, rfl⟩ | ⟨rfl, rfl⟩ <;> simp
  | irqDisable offset =>
    simp only [List.suffix_cons_iff, List.suffix_nil, List.cons.injEq, reduceCtorEq, or_false] at h
    rcases h with ⟨rfl, rfl⟩ | ⟨rfl, rfl⟩ <;> simp [Op.line]
  | irqSetType offset type =>
    simp only [List.suffix_cons_iff, List.suffix_nil, List.cons.injEq, reduceCtorEq, or_false] at h
    rcases h with ⟨rfl, rfl⟩ | ⟨rfl, rfl⟩ | ⟨rfl, rfl⟩ | ⟨rfl, rfl⟩ <;> simp
  | directionInput offset => simp at h
  | directionOutput offset value => simp at h
  | setValue offset value => simp at h

/-- The steps of an operation, one after the other, do to a line what the operation does. -/
theorem code_micro (hirq : op.isIrq = true) (hcap : Capable ngpio op.line) (l : Line) :
    (op.code ngpio).foldl Line.micro l.irq = (l.step op).irq := by
  rw [code_capable hcap]
  cases op with
  | irqMask offset => rfl
  | irqUnmask offset => rfl
  | irqEnable offset => rfl
  | irqDisable offset => rfl
  | irqSetType offset type => rfl
  | directionInput offset => cases hirq
  | directionOutput offset value => cases hirq
  | setValue offset value => cases hirq

/-! ## Steps of the whole -/

theorem next_cases (h : s.next a = some s') :
    (∃ op, a = .start op ∧ op.isIrq = true ∧ Capable s.chip.ngpio op.line ∧ s.rest op.line = [] ∧
      s' = { s with
        rest := Function.update s.rest op.line (op.code s.chip.ngpio)
        log := Function.update s.log op.line (s.log op.line ++ [op]) }) ∨
    (∃ j m rest p, a = .step j ∧ s.rest j = m :: rest ∧ m.exec j (s.chip, s.lock) = some p ∧
      s' = { s with chip := p.1, lock := p.2, rest := Function.update s.rest j rest }) ∨
    (∃ op, a = .direct op ∧ op.isIrq = false ∧ s.lock = none ∧ s' = { s with chip := s.chip.apply op }) := by
  cases a with
  | start op =>
    obtain ⟨⟨hirq, hcap, hidle⟩, rfl⟩ := of_guard h
    exact Or.inl ⟨op, rfl, hirq, hcap, hidle, rfl⟩
  | step j =>
    unfold Smp.next at h
    cases hrest : s.rest j with
    | nil =>
      simp only [hrest] at h
      cases h
    | cons m rest =>
      simp only [hrest] at h
      obtain ⟨p, hexec, rfl⟩ := Option.map_eq_some_iff.1 h
      exact Or.inr (Or.inl ⟨j, m, rest, p, rfl, hrest, hexec, rfl⟩)
  | direct op =>
    obtain ⟨⟨hdirect, hfree⟩, rfl⟩ := of_guard h
    exact Or.inr (Or.inr ⟨op, rfl, hdirect, hfree, rfl⟩)

theorem Loses.of_step {j : ℕ} {old : BitVec 32} {rest : List Micro} (hrest : s.rest i = .assign false :: rest)
    (hlock : s.lock = some (j, old)) (hbit : old.getLsbD i = true) : Loses s (.step i) := by
  refine ⟨by rw [hrest]; rfl, ?_⟩
  rw [hlock]
  exact hbit

theorem Loses.spelled (h : Loses s a) :
    ∃ i rest j old, a = .step i ∧ s.rest i = .assign false :: rest ∧ s.lock = some (j, old) ∧
      old.getLsbD i = true := by
  cases a with
  | step i =>
    obtain ⟨hhead, hlock⟩ := h
    obtain ⟨rest, hrest⟩ := List.head?_eq_some_iff.1 hhead
    obtain ⟨⟨j, old⟩, hheld, hbit⟩ := (Option.any_eq_true _ _).1 hlock
    exact ⟨i, rest, j, old, rfl, hrest, hheld, hbit⟩
  | start op => exact h.elim
  | direct op => exact h.elim

/-- What is left of an operation is an end of its code, and the lock is held by a line that is to write back. -/
structure Shaped (c₀ : Chip) (s : Smp) : Prop where
  ngpio : s.chip.ngpio = c₀.ngpio
  code : ∀ i, s.rest i ≠ [] → Capable c₀.ngpio i ∧
    ∃ op before, op.line = i ∧ s.log i = before ++ [op] ∧ s.rest i <:+ op.code c₀.ngpio
  held : ∀ j old, s.lock = some (j, old) → ∃ enable rest, s.rest j = .write enable :: rest

/-- A line that has a step to make is at the last operation of its log. -/
theorem Shaped.underway {rest : List Micro} (h : Shaped c₀ s) (hrest : s.rest i = m :: rest) :
    ∃ op before, op.line = i ∧ Capable c₀.ngpio op.line ∧ s.log i = before ++ [op] ∧
      m :: rest <:+ op.code c₀.ngpio := by
  obtain ⟨hcap, op, before, rfl, hlog, hsuffix⟩ := h.code i (by rw [hrest]; exact List.cons_ne_nil _ _)
  rw [hrest] at hsuffix
  exact ⟨op, before, rfl, hcap, hlog, hsuffix⟩

theorem Shaped.step (h : Shaped c₀ s) (hstep : s.next a = some s') : Shaped c₀ s' := by
  rcases next_cases hstep with ⟨op, -, -, hcap, hidle, rfl⟩ | ⟨j, m, rest, p, -, hrest, hexec, rfl⟩ |
    ⟨op, -, -, hfree, rfl⟩
  · refine ⟨h.ngpio, fun i hi => ?_, fun j old hlock => ?_⟩
    · by_cases hline : i = op.line
      · subst hline
        have hcode : Function.update s.rest op.line (op.code s.chip.ngpio) op.line = op.code c₀.ngpio := by
          rw [Function.update_self, h.ngpio]
        exact ⟨h.ngpio ▸ hcap, op, s.log op.line, rfl, Function.update_self .., [], hcode⟩
      · simp only [Function.update_of_ne hline] at hi ⊢
        exact h.code i hi
    · obtain ⟨enable, rest, hrest⟩ := h.held j old hlock
      refine ⟨enable, rest, ?_⟩
      have hne : j ≠ op.line := by
        rintro rfl
        exact List.cons_ne_nil _ _ (hrest.symm.trans hidle)
      rw [← hrest]
      exact Function.update_of_ne hne ..
  · obtain ⟨op, before, hline, hcap, hlog, hsuffix⟩ := h.underway hrest
    refine ⟨(exec_ngpio hexec).trans h.ngpio, fun i hi => ?_, fun k old hlock => ?_⟩
    · by_cases hij : i = j
      · subst hij
        refine ⟨hline ▸ hcap, op, before, hline, hlog, ?_⟩
        show Function.update s.rest i rest i <:+ _
        rw [Function.update_self]
        exact (List.suffix_cons m rest).trans hsuffix
      · simp only [Function.update_of_ne hij] at hi ⊢
        exact h.code i hi
    · rcases exec_lock hexec with ⟨masked, rfl, -, hset, -⟩ | ⟨-, -, -, -, hnone, -⟩ |
        ⟨hsame, hnot, -⟩
      · obtain ⟨rfl, -⟩ := Prod.mk.inj (Option.some.inj (hset.symm.trans hlock))
        obtain ⟨enable, rfl⟩ := (code_next hcap hsuffix).2.1 masked rfl
        exact ⟨enable, _, Function.update_self ..⟩
      · exact absurd (hnone.symm.trans hlock) (Option.some_ne_none _).symm
      · obtain ⟨enable, rest', hheld⟩ := h.held k old (hsame.symm.trans hlock)
        have hne : k ≠ j := by
          rintro rfl
          exact hnot enable (List.cons.inj (hrest.symm.trans hheld)).1
        exact ⟨enable, rest', (Function.update_of_ne hne ..).trans hheld⟩
  · exact ⟨(apply_ngpio s.chip op).trans h.ngpio, h.code, fun j old hlock =>
      absurd (hfree.symm.trans hlock) (Option.some_ne_none _).symm⟩

/-- Each line gets on as if alone: what is left of its operation will make of it what its operations do. And of what
has been read for another line nothing is lost by writing it back, where the line is not about to be written anyway. -/
structure Inv (c₀ : Chip) (s : Smp) : Prop extends Shaped c₀ s where
  read : ∀ j old, s.lock = some (j, old) → ∀ i, Capable c₀.ngpio i → i ≠ j →
    old.getLsbD i = s.chip.enabled.getLsbD i ∨ s.rest i = [.read false, .write true, .setIe]
  alone : ∀ i, Capable c₀.ngpio i → (s.rest i).foldl Line.micro (s.chip.line i).irq = ((c₀.run (s.log i)).line i).irq

theorem Inv.right (h : Inv c₀ s) (hcap : Capable c₀.ngpio i) (hidle : s.rest i = []) : Right c₀ s i := by
  have halone := h.alone i hcap
  rw [hidle] at halone
  exact halone

theorem started_inv (c₀ : Chip) : Inv c₀ (.started c₀) :=
  { ngpio := rfl
    code := fun _ hi => absurd rfl hi
    held := nofun
    read := nofun
    alone := fun _ _ => rfl }

/-- An operation begins. -/
theorem Inv.start (h : Inv c₀ s) (h32 : c₀.ngpio ≤ 32) (hirq : op.isIrq = true) (hcap : Capable s.chip.ngpio op.line)
    (hidle : s.rest op.line = []) (hstep : s.next (.start op) = some s') : Inv c₀ s' := by
  have hshaped := h.toShaped.step hstep
  obtain ⟨-, rfl⟩ := of_guard hstep
  rw [h.ngpio] at hcap
  refine { hshaped with read := fun j old hlock i hi hne => ?_, alone := fun i hi => ?_ }
  · by_cases hline : i = op.line
    · subst hline
      refine (h.read j old hlock _ hi hne).imp_right fun hrest => ?_
      exact absurd (hidle.symm.trans hrest) (List.cons_ne_nil _ _).symm
    · simp only [Function.update_of_ne hline]
      exact h.read j old hlock i hi hne
  · by_cases hline : i = op.line
    · subst hline
      have halone := h.alone _ hi
      rw [hidle] at halone
      simp only [Function.update_self]
      have hngpio : (c₀.run (s.log op.line)).ngpio = c₀.ngpio := run_ngpio c₀ _
      rw [run_concat, apply_line_self (hngpio ▸ h32) (hngpio.symm ▸ hcap) rfl, h.ngpio, ← code_micro hirq hcap]
      exact congrArg (List.foldl Line.micro · _) halone
    · simp only [Function.update_of_ne hline]
      exact h.alone i hi

/-- **A step** by which no clearing is lost. -/
theorem Inv.exec {j : ℕ} {rest : List Micro} (h : Inv c₀ s) (h32 : c₀.ngpio ≤ 32) (hrest : s.rest j = m :: rest)
    (hexec : m.exec j (s.chip, s.lock) = some p) (hkept : ¬ Loses s (.step j))
    (hshaped : Shaped c₀ { s with chip := p.1, lock := p.2, rest := Function.update s.rest j rest }) :
    Inv c₀ { s with chip := p.1, lock := p.2, rest := Function.update s.rest j rest } := by
  obtain ⟨op, -, hline, hcap, -, hsuffix⟩ := h.underway hrest
  have hnext := code_next hcap hsuffix
  have hj : j < 32 := hline ▸ Nat.lt_of_lt_of_le hcap.1 h32
  have hngpio : s.chip.ngpio ≤ 32 := h.ngpio ▸ h32
  refine { hshaped with read := fun k old hlock i hi hne => ?_, alone := fun i hi => ?_ }
  · have hi32 : i < 32 := Nat.lt_of_lt_of_le hi.1 h32
    rcases exec_lock hexec with ⟨masked, rfl, -, hset, hsame⟩ | ⟨-, -, -, -, hnone, -⟩ |
      ⟨hsame, hnot, hwritten⟩
    · -- what has just been read
      obtain ⟨-, rfl⟩ := Prod.mk.inj (Option.some.inj (hset.symm.trans hlock))
      exact Or.inl (congrArg (·.getLsbD i) hsame).symm
    · exact absurd (hnone.symm.trans hlock) (Option.some_ne_none _).symm
    · have hold := hsame.symm.trans hlock
      by_cases hij : i = j
      · subst hij
        simp only [Function.update_self]
        rcases hwritten with ⟨enable, rfl⟩ | hsame'
        · cases enable with
          | true => exact Or.inr (hnext.1 rfl)
          | false =>
            -- nothing was set that is cleared here
            obtain rfl := Option.some.inj hexec
            have hclear : old.getLsbD i = false := by
              cases hbit : old.getLsbD i with
              | false => rfl
              | true => exact absurd (Loses.of_step hrest hold hbit) hkept
            refine Or.inl (hclear.trans ?_)
            rw [assignBit_getLsbD hi32 hi32, if_pos rfl]
        · rcases h.read k old hold i hi hne with heq | hbegins
          · exact Or.inl (heq.trans (congrArg (·.getLsbD i) hsame').symm)
          · -- the line would have to wait for the lock
            obtain ⟨rfl, -⟩ := List.cons.inj (hrest.symm.trans hbegins)
            obtain ⟨hfree, -⟩ := of_guard hexec
            exact absurd (hfree.symm.trans hold) (Option.some_ne_none _).symm
      · simp only [Function.update_of_ne hij]
        refine (h.read k old hold i hi hne).imp_left fun heq => heq.trans ?_
        rcases (exec_other hngpio hj hi32 hij hexec).2 with hbit | ⟨enable, old', rfl, -⟩
        · exact hbit.symm
        · exact absurd rfl (hnot enable)
  · have hi32 : i < 32 := Nat.lt_of_lt_of_le hi.1 h32
    by_cases hij : i = j
    · subst hij
      have halone := h.alone i hi
      rw [hrest, List.foldl_cons, ← exec_self hngpio hi32 hexec] at halone
      simp only [Function.update_self]
      exact halone
    · simp only [Function.update_of_ne hij]
      obtain ⟨hline', hbit⟩ := exec_other hngpio hj hi32 hij hexec
      have halone := h.alone i hi
      rw [hline']
      have hunchanged (heq : p.1.enabled.getLsbD i = s.chip.enabled.getLsbD i) :
          { (s.chip.line i).irq with enabled := p.1.enabled.getLsbD i } = (s.chip.line i).irq := by
        rw [heq]
        rfl
      rcases hbit with heq | ⟨enable, old, -, hlock, heq⟩
      · rw [hunchanged heq]
        exact halone
      · rcases h.read j old hlock i hi hij with hsame | hbegins
        · rw [hunchanged (heq.trans hsame)]
          exact halone
        · -- its bit is about to be written
          rw [hbegins] at halone ⊢
          exact halone

theorem Inv.step (h : Inv c₀ s) (h32 : c₀.ngpio ≤ 32) (hkept : ¬ Loses s a) (hstep : s.next a = some s') :
    Inv c₀ s' := by
  have hshaped := h.toShaped.step hstep
  rcases next_cases hstep with ⟨op, rfl, hirq, hcap, hidle, -⟩ | ⟨j, m, rest, p, rfl, hrest, hexec, rfl⟩ |
    ⟨op, rfl, hdirect, hfree, rfl⟩
  · exact h.start h32 hirq hcap hidle hstep
  · exact h.exec h32 hrest hexec hkept hshaped
  · refine { hshaped with read := fun j old hlock => ?_, alone := fun i hi => ?_ }
    · exact absurd (hfree.symm.trans hlock) (Option.some_ne_none _).symm
    · show (s.rest i).foldl Line.micro ((s.chip.apply op).line i).irq = _
      rw [direct_line (h.ngpio ▸ h32) (Nat.lt_of_lt_of_le hi.1 h32) hdirect]
      exact h.alone i hi

/-! ## A lost clearing -/

/-- `irq_disable` has cleared the bit of its line, and the bit is set again or will be. -/
structure Damaged (c₀ : Chip) (i : ℕ) (s : Smp) : Prop where
  capable : Capable c₀.ngpio i
  rest : s.rest i = [.setIe]
  cleared : ∃ before, s.log i = before ++ [.irqDisable i]
  bit : s.lock = none ∧ s.chip.enabled.getLsbD i = true ∨
    ∃ j old, s.lock = some (j, old) ∧ j ≠ i ∧ old.getLsbD i = true

theorem Loses.damages (h : Shaped c₀ s) (hloses : Loses s a) (hstep : s.next a = some s') :
    ∃ i, Damaged c₀ i s' := by
  obtain ⟨i, rest, j, old, rfl, hrest, hlock, hbit⟩ := hloses.spelled
  obtain ⟨op, before, hline, hcap, hlog, hsuffix⟩ := h.underway hrest
  obtain ⟨rfl, hop⟩ := (code_next hcap hsuffix).2.2 rfl
  have hne : j ≠ i := by
    rintro rfl
    obtain ⟨enable, rest', hheld⟩ := h.held j old hlock
    cases hrest.symm.trans hheld
  have hcleared : s' = { s with
      chip := { s.chip with enabled := assignBit s.chip.enabled i false }
      rest := Function.update s.rest i [.setIe] } := by
    unfold Smp.next at hstep
    simp only [hrest] at hstep
    exact (Option.some.inj hstep).symm
  rw [hcleared]
  exact ⟨i, hline ▸ hcap, Function.update_self .., ⟨before, by rw [hlog, hop, hline]⟩, Or.inr ⟨j, old, hlock, hne, hbit⟩⟩

/-- A line that is disabled is not what it is when `set_ie` has found its bit set. -/
theorem not_right (h32 : c₀.ngpio ≤ 32) (hcap : Capable c₀.ngpio i)
    (hlog : ∃ before, s.log i = before ++ [.irqDisable i]) (hbit : s.chip.enabled.getLsbD i = true) : ¬ Right c₀ s i := by
  intro hright
  obtain ⟨before, hlog⟩ := hlog
  have hngpio : (c₀.run before).ngpio = c₀.ngpio := run_ngpio c₀ before
  unfold Right at hright
  rw [hlog, run_concat, @apply_line_self _ i (.irqDisable i) (hngpio ▸ h32) (hngpio.symm ▸ hcap) rfl] at hright
  exact Bool.noConfusion (hbit.symm.trans (congrArg Line.enabled hright))

/-- **The damage stays** until the operation is over, and then the line is wrong. -/
theorem Damaged.step (h : Shaped c₀ s) (h32 : c₀.ngpio ≤ 32) (hd : Damaged c₀ i s) (hstep : s.next a = some s') :
    Damaged c₀ i s' ∨ s'.rest i = [] ∧ ¬ Right c₀ s' i := by
  have hi : i < 32 := Nat.lt_of_lt_of_le hd.capable.1 h32
  have hngpio : s.chip.ngpio ≤ 32 := h.ngpio ▸ h32
  rcases next_cases hstep with ⟨op, -, -, hcap, hidle, rfl⟩ | ⟨j, m, rest, p, -, hrest, hexec, rfl⟩ |
    ⟨op, -, hdirect, hfree, rfl⟩
  · have hne : i ≠ op.line := by
      rintro rfl
      cases hd.rest.symm.trans hidle
    exact Or.inl ⟨hd.capable, (Function.update_of_ne hne ..).trans hd.rest,
      by simp only [Function.update_of_ne hne]; exact hd.cleared, hd.bit⟩
  · by_cases hij : i = j
    · -- `set_ie`, at last
      subst hij
      obtain ⟨rfl, rfl⟩ := List.cons.inj (hrest.symm.trans hd.rest)
      obtain ⟨hfree, rfl⟩ := of_guard hexec
      have hbit : s.chip.enabled.getLsbD i = true := by
        rcases hd.bit with ⟨-, hbit⟩ | ⟨k, old, hlock, -⟩
        · exact hbit
        · cases hfree.symm.trans hlock
      refine Or.inr ⟨Function.update_self .., not_right h32 hd.capable hd.cleared ?_⟩
      show (s.chip.setIe i).enabled.getLsbD i = true
      rw [(setIe_same s.chip i).1]
      exact hbit
    · obtain ⟨op, -, hline, hcap, -⟩ := h.underway hrest
      have hj : j < 32 := hline ▸ Nat.lt_of_lt_of_le hcap.1 h32
      refine Or.inl ⟨hd.capable, (Function.update_of_ne hij ..).trans hd.rest, hd.cleared, ?_⟩
      rcases exec_lock hexec with ⟨masked, -, hfree, hset, -⟩ | ⟨enable, old, -, hlock, hfree, hwritten⟩ |
        ⟨hsame, hnot, -⟩
      · -- the other line reads the set bit
        rcases hd.bit with ⟨-, hbit⟩ | ⟨k, old, hlock, -⟩
        · exact Or.inr ⟨j, _, hset, Ne.symm hij, hbit⟩
        · cases hfree.symm.trans hlock
      · -- the other line writes the set bit back
        rcases hd.bit with ⟨hfree', -⟩ | ⟨k, old', hlock', -, hbit⟩
        · cases hfree'.symm.trans hlock
        · obtain ⟨-, rfl⟩ := Prod.mk.inj (Option.some.inj (hlock.symm.trans hlock'))
          refine Or.inl ⟨hfree, ?_⟩
          show p.1.enabled.getLsbD i = true
          rw [hwritten, assignBit_getLsbD hj hi, if_neg hij]
          exact hbit
      · have hbit' : p.1.enabled.getLsbD i = s.chip.enabled.getLsbD i := by
          rcases (exec_other hngpio hj hi hij hexec).2 with hbit | ⟨enable, old, rfl, -⟩
          · exact hbit
          · exact absurd rfl (hnot enable)
        rcases hd.bit with ⟨hfree, hbit⟩ | ⟨k, old, hlock, hki, hbit⟩
        · exact Or.inl ⟨hsame.trans hfree, hbit'.trans hbit⟩
        · exact Or.inr ⟨k, old, hsame.trans hlock, hki, hbit⟩
  · have hsame : (s.chip.apply op).enabled.getLsbD i = s.chip.enabled.getLsbD i :=
      congrArg Line.enabled (direct_line hngpio hi hdirect)
    refine Or.inl ⟨hd.capable, hd.rest, hd.cleared, ?_⟩
    rcases hd.bit with ⟨-, hbit⟩ | ⟨k, old, hlock, -⟩
    · exact Or.inl ⟨hfree, hsame.trans hbit⟩
    · cases hfree.symm.trans hlock

/-- The operation on a damaged line ends, as all do, and leaves it wrong. -/
theorem Damaged.found (h32 : c₀.ngpio ≤ 32) :
    ∀ {as : List SmpAct} {s s' : Smp}, Shaped c₀ s → Damaged c₀ i s → (smp c₀).exec s as = some s' → s'.rest i = [] →
      ¬ (smp c₀).Along (Leaves c₀) s as := by
  intro as
  induction as with
  | nil =>
    intro s s' _ hd hexec hdone _
    obtain rfl := Option.some.inj hexec
    cases hd.rest.symm.trans hdone
  | cons a as ih =>
    intro s s' h hd hexec hdone hleaves
    obtain ⟨s₁, hstep, hrest⟩ := Option.bind_eq_some_iff.1 hexec
    rcases hd.step h h32 hstep with hd' | ⟨hidle, hwrong⟩
    · exact ih (h.step hstep) hd' hrest hdone (hleaves.2 s₁ hstep)
    · exact hwrong (hleaves.1 s₁ hstep i hd.capable hidle)

/-- **Overlapping operations.** In every run from the probe in which each operation that is begun on an interrupt line
comes to its end, whatever else overlaps it: each operation leaves its line as if the line's operations had run alone,
exactly if no `irq_disable` clears the bit of its line between the reading and the writing back of the set bit by
another line. -/
theorem interleaved_right_iff {ngpio : Option ℕ} {output : BitVec 32} {as : List SmpAct}
    (hprobe : probe ngpio output = .ok c₀) (hexec : (smp c₀).exec (.started c₀) as = some s)
    (hdone : ∀ i, s.rest i = []) :
    (smp c₀).Along (Leaves c₀) (.started c₀) as ↔ (smp c₀).Along (fun s a => ¬ Loses s a) (.started c₀) as := by
  have h32 := (probe_spec hprobe).1
  suffices hall : ∀ (as : List SmpAct) (s s' : Smp), Inv c₀ s → (smp c₀).exec s as = some s' → (∀ i, s'.rest i = []) →
      ((smp c₀).Along (Leaves c₀) s as ↔ (smp c₀).Along (fun s a => ¬ Loses s a) s as) from
    hall as _ s (started_inv c₀) hexec hdone
  intro as
  induction as with
  | nil => exact fun _ _ _ _ _ => Iff.rfl
  | cons a as ih =>
    intro s s' h hexec hdone
    obtain ⟨s₁, hstep, hrest⟩ := Option.bind_eq_some_iff.1 hexec
    have hsame : ∀ t, (smp c₀).step s a = some t → t = s₁ := fun t ht => Option.some.inj (ht.symm.trans hstep)
    constructor
    · intro hleaves
      have hkept : ¬ Loses s a := by
        intro hloses
        obtain ⟨i, hd⟩ := hloses.damages h.toShaped hstep
        exact hd.found h32 (h.toShaped.step hstep) hrest (hdone i) (hleaves.2 s₁ hstep)
      refine ⟨hkept, fun t ht => ?_⟩
      obtain rfl := hsame t ht
      exact (ih _ s' (h.step h32 hkept hstep) hrest hdone).1 (hleaves.2 _ hstep)
    · rintro ⟨hkept, hall⟩
      have hinv : Inv c₀ s₁ := h.step h32 hkept hstep
      refine ⟨fun t ht i hcap hidle => ?_, fun t ht => ?_⟩
      · obtain rfl := hsame t ht
        exact hinv.right hcap hidle
      · obtain rfl := hsame t ht
        exact (ih _ s' hinv hrest hdone).2 (hall _ hstep)

/-- Line 1 is disabled while line 0 is being masked, which has read the bit of line 1 as set. -/
def overlap : List SmpAct :=
  [.start (.irqSetType 1 IRQ_TYPE_EDGE_RISING), .step 1, .step 1, .step 1, .step 1,
    .start (.irqEnable 1), .step 1, .step 1, .step 1, .step 1, .step 1,
    .start (.irqMask 0), .step 0, .start (.irqDisable 1), .step 1, .step 0, .step 0, .step 1]

/-- Its interrupt stays on. -/
theorem overlap_wrong :
    ∃ s, (smp twoLines).exec (.started twoLines) overlap = some s ∧ (s.log 1).getLast? = some (.irqDisable 1) ∧
      (s.chip.line 1).ie = Ie.ofType IRQ_TYPE_EDGE_RISING ∧
      ¬ (smp twoLines).Along (Leaves twoLines) (.started twoLines) overlap := by
  have hsome : ((smp twoLines).exec (.started twoLines) overlap).isSome = true := by decide +kernel
  obtain ⟨s, hexec⟩ := Option.isSome_iff_exists.1 hsome
  have hends : ((smp twoLines).exec (.started twoLines) overlap).map (fun s => (s.rest 0, s.rest 1)) = some ([], []) ∧
      ((smp twoLines).exec (.started twoLines) overlap).map (fun s => ((s.log 1).getLast?, (s.chip.line 1).ie)) =
        some (some (.irqDisable 1), Ie.ofType IRQ_TYPE_EDGE_RISING) := by decide +kernel
  rw [hexec] at hends
  obtain ⟨hrest₀, hrest₁⟩ := Prod.mk.inj (Option.some.inj hends.1)
  obtain ⟨hlast, hie⟩ := Prod.mk.inj (Option.some.inj hends.2)
  have hshaped : Shaped twoLines s :=
    Machine.exec_invariant (I := Shaped twoLines) (fun _ _ _ h hstep => h.step hstep)
      (started_inv twoLines).toShaped hexec
  have hdone : ∀ i, s.rest i = [] := by
    intro i
    by_contra hne
    have hcap := (hshaped.code i hne).1.2
    match i with
    | 0 => exact hne hrest₀
    | 1 => exact hne hrest₁
    | i + 2 => omega
  refine ⟨s, hexec, hlast, hie, fun hleaves => ?_⟩
  have hkept := (interleaved_right_iff probe_twoLines hexec hdone).1 hleaves
  exact absurd hkept (by decide +kernel)

end Br2Efinix.Gpio
