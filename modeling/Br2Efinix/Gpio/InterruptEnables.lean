import Mathlib.Data.Int.Notation
import Mathlib.Logic.Function.Basic
import Br2Efinix.Lib.History

/-!
# The interrupt enables of the GPIO

The GPIO driver: its directions and values, the two bitmaps and the trigger table, and the four interrupt-enable
registers. Lines 0 and 1 can interrupt.

* `apply_line_self`, `apply_line_other`: an operation is a step of the machine of its own line, and of no other.
* `run_tracks`: what a run leaves of a line is told by the line's history.
* `interrupt_enables_iff`: **the enables are right after every operation**; and a line is an input when it is
  enabled exactly in the runs in which no output is unmasked.
-/

namespace Br2Efinix.Gpio

def MAX_GPIO : ℕ := 32
def EINVAL : ℤ := 22

def IRQ_TYPE_EDGE_RISING : BitVec 32 := 1#32
def IRQ_TYPE_EDGE_FALLING : BitVec 32 := 2#32
def IRQ_TYPE_LEVEL_HIGH : BitVec 32 := 4#32
def IRQ_TYPE_LEVEL_LOW : BitVec 32 := 8#32
def IRQ_TYPE_LEVEL_MASK : BitVec 32 := IRQ_TYPE_LEVEL_LOW ||| IRQ_TYPE_LEVEL_HIGH

/-! ## The driver -/

def bit (offset : ℕ) : BitVec 32 := 1#32 <<< offset

/-- The flow handler of a line. -/
inductive FlowHandler
  | level
  | fasteoi
  deriving DecidableEq, Repr

/-- `struct spinal_lib_gpio` with `gc->ngpio`, the flow handlers and the registers. -/
structure Chip where
  ngpio : ℕ
  trigger : ℕ → BitVec 32
  interruptMask : BitVec 32
  enabled : BitVec 32
  handler : ℕ → FlowHandler
  output : BitVec 32
  outputEnable : BitVec 32
  riseIe : BitVec 32
  fallIe : BitVec 32
  highIe : BitVec 32
  lowIe : BitVec 32

/-- What `spinal_lib_gpio_probe` leaves, if the device tree's `ngpio` is in range; the output register is not
written. -/
def probe (ngpio : Option ℕ) (output : BitVec 32) : Except ℤ Chip :=
  let ngpios := ngpio.getD MAX_GPIO
  if ngpios > MAX_GPIO then .error (-EINVAL)
  else
    .ok
      { ngpio := ngpios, trigger := fun _ => 0#32, interruptMask := bit 0 ||| bit 1, enabled := 0#32,
        handler := fun _ => .level, output := output, outputEnable := 0#32, riseIe := 0#32, fallIe := 0#32,
        highIe := 0#32, lowIe := 0#32 }

/-- `spinal_lib_gpio_assign_bit`, on the value of the register. -/
def assignBit (old : BitVec 32) (offset : ℕ) (enable : Bool) : BitVec 32 :=
  if enable then old ||| bit offset else old &&& ~~~bit offset

namespace Chip

/-- `spinal_lib_gpio_direction_input`. -/
def directionInput (c : Chip) (offset : ℕ) : ℤ × Chip :=
  if offset ≥ c.ngpio then (-EINVAL, c)
  else (0, { c with outputEnable := assignBit c.outputEnable offset false })

/-- `spinal_lib_gpio_direction_output`. -/
def directionOutput (c : Chip) (offset : ℕ) (value : ℤ) : ℤ × Chip :=
  if offset ≥ c.ngpio then (-EINVAL, c)
  else
    (0, { c with
      output := assignBit c.output offset (value ≠ 0)
      outputEnable := assignBit c.outputEnable offset true })

/-- `spinal_lib_gpio_set_value`. -/
def setValue (c : Chip) (offset : ℕ) (value : ℤ) : Chip :=
  if offset ≥ c.ngpio then c else { c with output := assignBit c.output offset (value ≠ 0) }

/-- `spinal_lib_gpio_set_ie`. -/
def setIe (c : Chip) (offset : ℕ) : Chip :=
  let type := c.trigger offset
  let lineEnabled := c.enabled &&& bit offset ≠ 0#32
  let lineUnmasked := c.interruptMask &&& bit offset = 0#32
  if ¬lineEnabled ∨ ¬lineUnmasked then
    { c with
      riseIe := assignBit c.riseIe offset false
      fallIe := assignBit c.fallIe offset false
      highIe := assignBit c.highIe offset false
      lowIe := assignBit c.lowIe offset false }
  else
    { c with
      riseIe := assignBit c.riseIe offset (type &&& IRQ_TYPE_EDGE_RISING ≠ 0#32)
      fallIe := assignBit c.fallIe offset (type &&& IRQ_TYPE_EDGE_FALLING ≠ 0#32)
      highIe := assignBit c.highIe offset (type &&& IRQ_TYPE_LEVEL_HIGH ≠ 0#32)
      lowIe := assignBit c.lowIe offset (type &&& IRQ_TYPE_LEVEL_LOW ≠ 0#32) }

/-- `spinal_lib_gpio_irq_mask`. -/
def irqMask (c : Chip) (offset : ℕ) : Chip :=
  if offset ≥ c.ngpio then c
  else if offset ≠ 0 ∧ offset ≠ 1 then c
  else
    { c with interruptMask := c.interruptMask ||| bit offset, enabled := c.enabled &&& ~~~bit offset }.setIe offset

/-- `spinal_lib_gpio_irq_unmask`. -/
def irqUnmask (c : Chip) (offset : ℕ) : Chip :=
  if offset ≥ c.ngpio then c
  else if offset ≠ 0 ∧ offset ≠ 1 then c
  else
    { c with interruptMask := c.interruptMask &&& ~~~bit offset, enabled := c.enabled ||| bit offset }.setIe offset

/-- `spinal_lib_gpio_irq_enable`. -/
def irqEnable (c : Chip) (offset : ℕ) : Chip :=
  let c := (c.directionInput offset).2
  { c with enabled := assignBit c.enabled offset true }.irqUnmask offset

/-- `spinal_lib_gpio_irq_disable`, which does not look at the offset. -/
def irqDisable (c : Chip) (offset : ℕ) : Chip :=
  { c with enabled := assignBit c.enabled offset false }.setIe offset

/-- `spinal_lib_gpio_irq_set_type`. -/
def irqSetType (c : Chip) (offset : ℕ) (type : BitVec 32) : ℤ × Chip :=
  if offset ≥ c.ngpio then (-EINVAL, c)
  else if offset ≠ 0 ∧ offset ≠ 1 then (-EINVAL, c)
  else
    let c := (c.directionInput offset).2
    let c := { c with trigger := Function.update c.trigger offset type }.setIe offset
    let handler := if type &&& IRQ_TYPE_LEVEL_MASK ≠ 0#32 then .fasteoi else .level
    (0, { c with handler := Function.update c.handler offset handler })

end Chip

/-- The operations of the chip and of its interrupt controller. -/
inductive Op
  | irqMask (offset : ℕ)
  | irqUnmask (offset : ℕ)
  | irqEnable (offset : ℕ)
  | irqDisable (offset : ℕ)
  | irqSetType (offset : ℕ) (type : BitVec 32)
  | directionInput (offset : ℕ)
  | directionOutput (offset : ℕ) (value : ℤ)
  | setValue (offset : ℕ) (value : ℤ)
  deriving DecidableEq, Repr

/-- The line that an operation is on. -/
def Op.line : Op → ℕ
  | .irqMask offset => offset
  | .irqUnmask offset => offset
  | .irqEnable offset => offset
  | .irqDisable offset => offset
  | .irqSetType offset _ => offset
  | .directionInput offset => offset
  | .directionOutput offset _ => offset
  | .setValue offset _ => offset

def Chip.apply (c : Chip) : Op → Chip
  | .irqMask offset => c.irqMask offset
  | .irqUnmask offset => c.irqUnmask offset
  | .irqEnable offset => c.irqEnable offset
  | .irqDisable offset => c.irqDisable offset
  | .irqSetType offset type => (c.irqSetType offset type).2
  | .directionInput offset => (c.directionInput offset).2
  | .directionOutput offset value => (c.directionOutput offset value).2
  | .setValue offset value => c.setValue offset value

def Chip.run (c : Chip) (ops : List Op) : Chip := ops.foldl Chip.apply c

theorem run_concat (c : Chip) (ops : List Op) (op : Op) : c.run (ops ++ [op]) = (c.run ops).apply op :=
  foldl_concat _ _ _ _

/-! ## A line of its own -/

/-- The bits of the four interrupt-enable registers on one line. -/
structure Ie where
  rise : Bool
  fall : Bool
  high : Bool
  low : Bool
  deriving DecidableEq, Repr

def Ie.none : Ie := ⟨false, false, false, false⟩

/-- The bits of a trigger type. -/
def Ie.ofType (type : BitVec 32) : Ie :=
  ⟨type &&& IRQ_TYPE_EDGE_RISING ≠ 0#32, type &&& IRQ_TYPE_EDGE_FALLING ≠ 0#32,
    type &&& IRQ_TYPE_LEVEL_HIGH ≠ 0#32, type &&& IRQ_TYPE_LEVEL_LOW ≠ 0#32⟩

/-- One line of the chip. -/
structure Line where
  type : BitVec 32
  masked : Bool
  enabled : Bool
  isOutput : Bool
  ie : Ie
  deriving DecidableEq, Repr

def Chip.line (c : Chip) (i : ℕ) : Line :=
  { type := c.trigger i
    masked := c.interruptMask.getLsbD i
    enabled := c.enabled.getLsbD i
    isOutput := c.outputEnable.getLsbD i
    ie := ⟨c.riseIe.getLsbD i, c.fallIe.getLsbD i, c.highIe.getLsbD i, c.lowIe.getLsbD i⟩ }

/-- The enables follow the two bits and the type. -/
def Line.settle (l : Line) : Line := { l with ie := if l.enabled && !l.masked then Ie.ofType l.type else Ie.none }

/-- What an operation on a line that can interrupt does to the line. -/
def Line.step (l : Line) : Op → Line
  | .irqMask _ => { l with masked := true, enabled := false }.settle
  | .irqUnmask _ => { l with masked := false, enabled := true }.settle
  | .irqEnable _ => { l with isOutput := false, masked := false, enabled := true }.settle
  | .irqDisable _ => { l with enabled := false }.settle
  | .irqSetType _ type => { l with isOutput := false, type := type }.settle
  | .directionInput _ => { l with isOutput := false }
  | .directionOutput _ _ => { l with isOutput := true }
  | .setValue _ _ => l

/-- The lines that can interrupt. -/
def Capable (ngpio i : ℕ) : Prop := i < ngpio ∧ i < 2

instance (ngpio i : ℕ) : Decidable (Capable ngpio i) := inferInstanceAs (Decidable (_ ∧ _))

variable {c c' : Chip} {i offset : ℕ} {op : Op}

theorem bit_getLsbD (hoffset : offset < 32) : (bit offset).getLsbD i = decide (i = offset) := by
  unfold bit
  rw [BitVec.getLsbD_shiftLeft, BitVec.getLsbD_one]
  by_cases h : i = offset
  · subst h
    simp [hoffset]
  · rw [decide_eq_false h]
    by_cases hlt : i < offset
    · simp [hlt]
    · simp [show i - offset ≠ 0 by omega]

theorem assignBit_getLsbD (hoffset : offset < 32) (hi : i < 32) (old : BitVec 32) (enable : Bool) :
    (assignBit old offset enable).getLsbD i = if i = offset then enable else old.getLsbD i := by
  unfold assignBit
  cases enable with
  | false =>
    rw [if_neg Bool.false_ne_true, BitVec.getLsbD_and, BitVec.getLsbD_not, bit_getLsbD hoffset, decide_eq_true hi]
    by_cases h : i = offset
    · simp [h]
    · simp [h]
  | true =>
    rw [if_pos rfl, BitVec.getLsbD_or, bit_getLsbD hoffset]
    by_cases h : i = offset
    · simp [h]
    · simp [h]

theorem and_bit_eq_zero (hoffset : offset < 32) (w : BitVec 32) : w &&& bit offset = 0#32 ↔ w.getLsbD offset = false := by
  constructor
  · intro h
    have hbit := congrArg (·.getLsbD offset) h
    simpa [bit_getLsbD hoffset] using hbit
  · intro h
    apply BitVec.eq_of_getLsbD_eq
    intro i _
    rw [BitVec.getLsbD_and, bit_getLsbD hoffset, BitVec.getLsbD_zero]
    by_cases hi : i = offset
    · rw [hi, h, Bool.false_and]
    · rw [decide_eq_false hi, Bool.and_false]

/-! ## Operations on a line -/

/-- `set_ie` settles the enables of its line. -/
theorem setIe_line (hoffset : offset < 32) (hi : i < 32) :
    (c.setIe offset).line i = if i = offset then (c.line i).settle else c.line i := by
  have henabled : c.enabled &&& bit offset ≠ 0#32 ↔ c.enabled.getLsbD offset = true := by
    rw [ne_eq, and_bit_eq_zero hoffset, Bool.not_eq_false]
  have hmasked := and_bit_eq_zero hoffset c.interruptMask
  unfold Chip.setIe Line.settle Chip.line Ie.ofType Ie.none
  simp only [henabled, hmasked]
  by_cases hline : i = offset
  · subst hline
    rw [if_pos rfl]
    by_cases hon : c.enabled.getLsbD i = true ∧ c.interruptMask.getLsbD i = false
    · rw [if_neg (by simp [hon])]
      simp [assignBit_getLsbD hoffset hi, hon]
    · rw [if_pos (by rw [← not_and_or]; exact hon), if_neg (by simpa using hon)]
      simp [assignBit_getLsbD hoffset hi]
  · rw [if_neg hline]
    split <;> simp [assignBit_getLsbD hoffset hi, hline]

/-- The direction of a line is written; the output is not part of it. -/
theorem outputEnable_line (hoffset : offset < 32) (hi : i < 32) (output : BitVec 32) (isOutput : Bool) :
    { c with output := output, outputEnable := assignBit c.outputEnable offset isOutput }.line i =
      if i = offset then { c.line i with isOutput := isOutput } else c.line i := by
  simp only [Chip.line, assignBit_getLsbD hoffset hi]
  by_cases hline : i = offset
  · rw [if_pos hline, if_pos hline]
  · rw [if_neg hline, if_neg hline]

theorem directionInput_line (hngpio : c.ngpio ≤ 32) (hi : i < 32) :
    (c.directionInput offset).2.line i =
      if i = offset ∧ offset < c.ngpio then { c.line i with isOutput := false } else c.line i := by
  unfold Chip.directionInput
  by_cases hoff : offset ≥ c.ngpio
  · rw [if_pos hoff, if_neg (by omega)]
  · have hlt : offset < c.ngpio := Nat.not_le.1 hoff
    rw [if_neg hoff]
    simp only [hlt, and_true]
    exact outputEnable_line (Nat.lt_of_lt_of_le hlt hngpio) hi c.output false

theorem directionOutput_line (hngpio : c.ngpio ≤ 32) (hi : i < 32) (value : ℤ) :
    (c.directionOutput offset value).2.line i =
      if i = offset ∧ offset < c.ngpio then { c.line i with isOutput := true } else c.line i := by
  unfold Chip.directionOutput
  by_cases hoff : offset ≥ c.ngpio
  · rw [if_pos hoff, if_neg (by omega)]
  · have hlt : offset < c.ngpio := Nat.not_le.1 hoff
    rw [if_neg hoff]
    simp only [hlt, and_true]
    exact outputEnable_line (Nat.lt_of_lt_of_le hlt hngpio) hi _ true

theorem setValue_line (value : ℤ) : (c.setValue offset value).line i = c.line i := by
  unfold Chip.setValue
  split <;> rfl

/-- The two bits of a line are written and its enables settled. -/
theorem writeBits_line (hoffset : offset < 32) (hi : i < 32) (masked enabled : Bool) :
    ({ c with
        interruptMask := assignBit c.interruptMask offset masked
        enabled := assignBit c.enabled offset enabled }.setIe offset).line i =
      if i = offset then { c.line i with masked := masked, enabled := enabled }.settle else c.line i := by
  rw [setIe_line hoffset hi]
  simp only [Chip.line, assignBit_getLsbD hoffset hi]
  by_cases hline : i = offset
  · rw [if_pos hline, if_pos hline, if_pos hline, if_pos hline]
  · rw [if_neg hline, if_neg hline, if_neg hline, if_neg hline]

/-- The two checks of an interrupt operation let the lines through that can interrupt. -/
theorem checks_eq {β : Type*} (ngpio offset : ℕ) (refused done : β) :
    (if offset ≥ ngpio then refused else if offset ≠ 0 ∧ offset ≠ 1 then refused else done) =
      if Capable ngpio offset then done else refused := by
  by_cases hcap : Capable ngpio offset
  · have hoff : ¬offset ≥ ngpio := Nat.not_le.2 hcap.1
    have honly : ¬(offset ≠ 0 ∧ offset ≠ 1) := fun h => by have := hcap.2; omega
    rw [if_pos hcap, if_neg hoff, if_neg honly]
  · rw [if_neg hcap]
    unfold Capable at hcap
    by_cases hoff : offset ≥ ngpio
    · rw [if_pos hoff]
    · rw [if_neg hoff, if_pos (by omega)]

theorem irqMask_line (hngpio : c.ngpio ≤ 32) (hi : i < 32) :
    (c.irqMask offset).line i =
      if i = offset ∧ Capable c.ngpio offset then (c.line i).step (.irqMask offset) else c.line i := by
  unfold Chip.irqMask
  rw [checks_eq]
  by_cases hcap : Capable c.ngpio offset
  · have hoffset : offset < 32 := Nat.lt_of_lt_of_le hcap.1 hngpio
    rw [if_pos hcap]
    simp only [hcap, and_true]
    exact writeBits_line hoffset hi true false
  · rw [if_neg hcap, if_neg (fun h => hcap h.2)]

theorem irqUnmask_line (hngpio : c.ngpio ≤ 32) (hi : i < 32) :
    (c.irqUnmask offset).line i =
      if i = offset ∧ Capable c.ngpio offset then (c.line i).step (.irqUnmask offset) else c.line i := by
  unfold Chip.irqUnmask
  rw [checks_eq]
  by_cases hcap : Capable c.ngpio offset
  · have hoffset : offset < 32 := Nat.lt_of_lt_of_le hcap.1 hngpio
    rw [if_pos hcap]
    simp only [hcap, and_true]
    exact writeBits_line hoffset hi false true
  · rw [if_neg hcap, if_neg (fun h => hcap h.2)]

theorem irqDisable_line (hoffset : offset < 32) (hi : i < 32) :
    (c.irqDisable offset).line i = if i = offset then (c.line i).step (.irqDisable offset) else c.line i := by
  unfold Chip.irqDisable
  rw [setIe_line hoffset hi]
  simp only [Chip.line, assignBit_getLsbD hoffset hi]
  by_cases hline : i = offset
  · rw [if_pos hline, if_pos hline, if_pos hline]
    rfl
  · rw [if_neg hline, if_neg hline, if_neg hline]

theorem ngpio_directionInput : (c.directionInput offset).2.ngpio = c.ngpio := by
  unfold Chip.directionInput
  split <;> rfl

/-- The direction, the bit, and then the unmasking, which settles. -/
theorem irqEnable_line (hngpio : c.ngpio ≤ 32) (hoffset : offset < 32) (hi : i < 32)
    (hcap : i = offset → Capable c.ngpio offset) :
    (c.irqEnable offset).line i = if i = offset then (c.line i).step (.irqEnable offset) else c.line i := by
  have hdir := @directionInput_line c i offset hngpio hi
  have hsame := @ngpio_directionInput c offset
  unfold Chip.irqEnable
  simp only
  generalize (c.directionInput offset).2 = c₁ at hdir hsame
  have hbit : ({ c₁ with enabled := assignBit c₁.enabled offset true } : Chip).line i =
      { c₁.line i with enabled := if i = offset then true else (c₁.line i).enabled } := by
    simp only [Chip.line, assignBit_getLsbD hoffset hi]
  rw [irqUnmask_line (hsame ▸ hngpio) hi, hbit, hdir, hsame]
  by_cases hline : i = offset
  · rw [if_pos ⟨hline, hcap hline⟩, if_pos ⟨hline, (hcap hline).1⟩, if_pos hline, if_pos hline]
    rfl
  · rw [if_neg fun h => hline h.1, if_neg fun h => hline h.1, if_neg hline, if_neg hline]

theorem irqSetType_line (hngpio : c.ngpio ≤ 32) (hi : i < 32) (type : BitVec 32) :
    (c.irqSetType offset type).2.line i =
      if i = offset ∧ Capable c.ngpio offset then (c.line i).step (.irqSetType offset type) else c.line i := by
  unfold Chip.irqSetType
  rw [checks_eq]
  by_cases hcap : Capable c.ngpio offset
  · have hoffset : offset < 32 := Nat.lt_of_lt_of_le hcap.1 hngpio
    have hdir := @directionInput_line c i offset hngpio hi
    rw [if_pos hcap]
    simp only
    generalize (c.directionInput offset).2 = c₁ at hdir
    have htype : ({ c₁ with trigger := Function.update c₁.trigger offset type } : Chip).line i =
        { c₁.line i with type := if i = offset then type else (c₁.line i).type } := by
      simp only [Chip.line, Function.update_apply]
    have hsettle := @setIe_line { c₁ with trigger := Function.update c₁.trigger offset type } i offset hoffset hi
    refine hsettle.trans ?_
    rw [htype, hdir]
    by_cases hline : i = offset
    · rw [if_pos hline, if_pos ⟨hline, hcap.1⟩, if_pos hline, if_pos ⟨hline, hcap⟩]
      rfl
    · rw [if_neg hline, if_neg fun h => hline h.1, if_neg hline, if_neg fun h => hline h.1]
  · rw [if_neg hcap, if_neg (fun h => hcap h.2)]

/-- **An operation is a step of its line**, where the line can interrupt. -/
theorem apply_line_self (hngpio : c.ngpio ≤ 32) (hcap : Capable c.ngpio i) (hop : op.line = i) :
    (c.apply op).line i = (c.line i).step op := by
  have hi : i < 32 := Nat.lt_of_lt_of_le hcap.1 hngpio
  subst hop
  cases op with
  | irqMask offset => exact (irqMask_line hngpio hi).trans (if_pos ⟨rfl, hcap⟩)
  | irqUnmask offset => exact (irqUnmask_line hngpio hi).trans (if_pos ⟨rfl, hcap⟩)
  | irqEnable offset => exact (irqEnable_line hngpio hi hi fun _ => hcap).trans (if_pos rfl)
  | irqDisable offset => exact (irqDisable_line hi hi).trans (if_pos rfl)
  | irqSetType offset type => exact (irqSetType_line hngpio hi type).trans (if_pos ⟨rfl, hcap⟩)
  | directionInput offset => exact (directionInput_line hngpio hi).trans (if_pos ⟨rfl, hcap.1⟩)
  | directionOutput offset value => exact (directionOutput_line hngpio hi value).trans (if_pos ⟨rfl, hcap.1⟩)
  | setValue offset value => exact setValue_line value

/-- **An operation leaves the other lines alone.** -/
theorem apply_line_other (hngpio : c.ngpio ≤ 32) (hon : op.line < 32) (hi : i < 32) (hop : op.line ≠ i) :
    (c.apply op).line i = c.line i := by
  have hne : ¬i = op.line := Ne.symm hop
  cases op with
  | irqMask offset => exact (irqMask_line hngpio hi).trans (if_neg fun h => hne h.1)
  | irqUnmask offset => exact (irqUnmask_line hngpio hi).trans (if_neg fun h => hne h.1)
  | irqEnable offset => exact (irqEnable_line hngpio hon hi fun h => absurd h hne).trans (if_neg hne)
  | irqDisable offset => exact (irqDisable_line hon hi).trans (if_neg hne)
  | irqSetType offset type => exact (irqSetType_line hngpio hi type).trans (if_neg fun h => hne h.1)
  | directionInput offset => exact (directionInput_line hngpio hi).trans (if_neg fun h => hne h.1)
  | directionOutput offset value => exact (directionOutput_line hngpio hi value).trans (if_neg fun h => hne h.1)
  | setValue offset value => exact setValue_line value

/-- No operation changes the number of lines. -/
theorem apply_ngpio (c : Chip) (op : Op) : (c.apply op).ngpio = c.ngpio := by
  have hsetIe : ∀ (c : Chip) offset, (c.setIe offset).ngpio = c.ngpio := by
    intro c offset
    unfold Chip.setIe
    simp only
    split <;> rfl
  have hunmask : ∀ (c : Chip) offset, (c.irqUnmask offset).ngpio = c.ngpio := by
    intro c offset
    unfold Chip.irqUnmask
    rw [checks_eq]
    split
    · exact hsetIe _ _
    · rfl
  cases op with
  | irqMask offset =>
    unfold Chip.apply Chip.irqMask
    simp only
    rw [checks_eq]
    split
    · exact hsetIe _ _
    · rfl
  | irqUnmask offset => exact hunmask c offset
  | irqEnable offset => exact (hunmask _ _).trans ngpio_directionInput
  | irqDisable offset => exact hsetIe _ _
  | irqSetType offset type =>
    unfold Chip.apply Chip.irqSetType
    simp only
    rw [checks_eq]
    split
    · exact (hsetIe _ _).trans ngpio_directionInput
    · rfl
  | directionInput offset => exact ngpio_directionInput
  | directionOutput offset value =>
    unfold Chip.apply Chip.directionOutput
    simp only
    split <;> rfl
  | setValue offset value =>
    unfold Chip.apply Chip.setValue
    simp only
    split <;> rfl

/-! ## The history of a line -/

/-- Whether an operation enables the line or disables it. -/
def Op.arms (i : ℕ) : Op → Option Bool
  | .irqUnmask offset => if offset = i then some true else none
  | .irqEnable offset => if offset = i then some true else none
  | .irqMask offset => if offset = i then some false else none
  | .irqDisable offset => if offset = i then some false else none
  | _ => none

/-- The trigger type that an operation sets for the line. -/
def Op.sets (i : ℕ) : Op → Option (BitVec 32)
  | .irqSetType offset type => if offset = i then some type else none
  | _ => none

/-- The last enabling operation of the line came after the last disabling one. -/
def armed (ops : List Op) (i : ℕ) : Bool := lastOf (Op.arms i) false ops

/-- The last trigger type set for the line. -/
def lastType (ops : List Op) (i : ℕ) : BitVec 32 := lastOf (Op.sets i) 0#32 ops

/-- The enables that the line's history asks for. -/
def expected (ops : List Op) (i : ℕ) : Ie := if armed ops i then Ie.ofType (lastType ops i) else Ie.none

/-- After every operation the enables are those of each line's history, and those of the other lines are as before;
and a line is an input when it is enabled. -/
structure EnablesRight (c₀ : Chip) (ops : List Op) : Prop where
  enables : ∀ before after, ops = before ++ after → ∀ i, Capable c₀.ngpio i →
    ((c₀.run before).line i).ie = expected before i
  others : ∀ before op after, ops = before ++ op :: after → ∀ i, op.line ≠ i →
    ((c₀.run (before ++ [op])).line i).ie = ((c₀.run before).line i).ie
  inputs : ∀ before op after, ops = before ++ op :: after → ∀ i, Capable c₀.ngpio i → op.arms i = some true →
    ((c₀.run (before ++ [op])).line i).isOutput = false

/-- No line that can interrupt is unmasked while it is an output. -/
def UnmasksInputs (c₀ : Chip) (ops : List Op) : Prop :=
  ∀ before i after, ops = before ++ .irqUnmask i :: after → Capable c₀.ngpio i →
    ((c₀.run before).line i).isOutput = false

theorem armed_concat (ops : List Op) (op : Op) (i : ℕ) :
    armed (ops ++ [op]) i = (op.arms i).getD (armed ops i) := lastOf_concat _ _ _ _

theorem lastType_concat (ops : List Op) (op : Op) (i : ℕ) :
    lastType (ops ++ [op]) i = (op.sets i).getD (lastType ops i) := lastOf_concat _ _ _ _

/-- What the line's state says of its history. -/
structure Line.Tracks (l : Line) (armed : Bool) (type : BitVec 32) : Prop where
  armed_eq : (l.enabled && !l.masked) = armed
  type_eq : l.type = type
  ie_eq : l.ie = if armed then Ie.ofType type else Ie.none

theorem Line.Tracks.settle {l : Line} {armed : Bool} {type : BitVec 32} (harmed : (l.enabled && !l.masked) = armed)
    (htype : l.type = type) : l.settle.Tracks armed type := by
  refine ⟨harmed, htype, ?_⟩
  unfold Line.settle
  simp only [harmed, htype]

/-- **One step** of a line that can interrupt. -/
theorem Line.Tracks.step {l : Line} {armed : Bool} {type : BitVec 32} (h : l.Tracks armed type) (hop : op.line = i) :
    (l.step op).Tracks ((op.arms i).getD armed) ((op.sets i).getD type) := by
  subst hop
  cases op with
  | irqMask offset =>
    rw [show (Op.irqMask offset).arms (Op.irqMask offset).line = some false from if_pos rfl]
    exact .settle rfl h.type_eq
  | irqUnmask offset =>
    rw [show (Op.irqUnmask offset).arms (Op.irqUnmask offset).line = some true from if_pos rfl]
    exact .settle rfl h.type_eq
  | irqEnable offset =>
    rw [show (Op.irqEnable offset).arms (Op.irqEnable offset).line = some true from if_pos rfl]
    exact .settle rfl h.type_eq
  | irqDisable offset =>
    rw [show (Op.irqDisable offset).arms (Op.irqDisable offset).line = some false from if_pos rfl]
    exact .settle rfl h.type_eq
  | irqSetType offset type' =>
    rw [show (Op.irqSetType offset type').sets (Op.irqSetType offset type').line = some type' from if_pos rfl]
    exact .settle h.armed_eq rfl
  | directionInput offset => exact ⟨h.armed_eq, h.type_eq, h.ie_eq⟩
  | directionOutput offset value => exact ⟨h.armed_eq, h.type_eq, h.ie_eq⟩
  | setValue offset value => exact h

/-- An operation on another line is not in the line's history. -/
theorem arms_other (hop : op.line ≠ i) : op.arms i = none ∧ op.sets i = none := by
  cases op with
  | irqMask offset => exact ⟨if_neg hop, rfl⟩
  | irqUnmask offset => exact ⟨if_neg hop, rfl⟩
  | irqEnable offset => exact ⟨if_neg hop, rfl⟩
  | irqDisable offset => exact ⟨if_neg hop, rfl⟩
  | irqSetType offset type => exact ⟨rfl, if_neg hop⟩
  | directionInput offset => exact ⟨rfl, rfl⟩
  | directionOutput offset value => exact ⟨rfl, rfl⟩
  | setValue offset value => exact ⟨rfl, rfl⟩

/-! ## Runs -/

variable {c₀ : Chip} {ops : List Op}

theorem run_ngpio (c₀ : Chip) (ops : List Op) : (c₀.run ops).ngpio = c₀.ngpio := by
  induction ops using List.reverseRecOn with
  | nil => rfl
  | append_singleton ops op ih => rw [run_concat, apply_ngpio, ih]

/-- What the probe leaves. -/
theorem probe_spec {ngpio : Option ℕ} {output : BitVec 32} (hprobe : probe ngpio output = .ok c₀) :
    c₀.ngpio ≤ 32 ∧ ∀ i, (c₀.line i).Tracks false 0#32 := by
  unfold probe at hprobe
  simp only at hprobe
  split at hprobe
  · cases hprobe
  · rename_i hmax
    cases hprobe
    refine ⟨Nat.not_lt.1 hmax, ?_⟩
    intro i
    refine ⟨?_, rfl, ?_⟩
    · simp [Chip.line]
    · simp [Chip.line, Ie.none]

/-- **A run** leaves each line that can interrupt as its history says. -/
theorem run_tracks (hngpio : c₀.ngpio ≤ 32) (hstart : ∀ i, (c₀.line i).Tracks false 0#32)
    (hon : ∀ op ∈ ops, op.line < c₀.ngpio) (hcap : Capable c₀.ngpio i) :
    ((c₀.run ops).line i).Tracks (armed ops i) (lastType ops i) := by
  induction ops using List.reverseRecOn with
  | nil => exact hstart i
  | append_singleton ops op ih =>
    have hsame := run_ngpio c₀ ops
    have htracks := ih fun op' hmem => hon op' (List.mem_append_left _ hmem)
    have hop := hon op (List.mem_append_right _ (List.mem_singleton_self op))
    have hi : i < 32 := Nat.lt_of_lt_of_le hcap.1 hngpio
    rw [run_concat, armed_concat, lastType_concat]
    by_cases hline : op.line = i
    · rw [apply_line_self (hsame ▸ hngpio) (hsame.symm ▸ hcap) hline]
      exact htracks.step hline
    · rw [apply_line_other (hsame ▸ hngpio) (by omega) hi hline, (arms_other hline).1, (arms_other hline).2]
      exact htracks

theorem ie_of_ge (hi : 32 ≤ i) : (c.line i).ie = Ie.none := by
  simp [Chip.line, Ie.none, BitVec.getLsbD_of_ge _ i hi]

/-- Of the enabling operations `irq_enable` switches its line to an input, and `irq_unmask` leaves it as it is. -/
theorem enabled_isOutput (hngpio : c.ngpio ≤ 32) (hcap : Capable c.ngpio i) (harms : op.arms i = some true) :
    ((c.apply op).line i).isOutput = false ↔ (op = .irqUnmask i → (c.line i).isOutput = false) := by
  have hline : op.line = i := Decidable.byContradiction fun hne => by
    rw [(arms_other hne).1] at harms
    cases harms
  rw [apply_line_self hngpio hcap hline]
  subst hline
  cases op with
  | irqUnmask offset => exact ⟨fun h _ => h, fun h => h rfl⟩
  | irqEnable offset => exact ⟨fun _ => nofun, fun _ => rfl⟩
  | irqMask offset => exact absurd ((if_pos rfl).symm.trans harms) (by decide)
  | irqDisable offset => exact absurd ((if_pos rfl).symm.trans harms) (by decide)
  | irqSetType offset type => cases harms
  | directionInput offset => cases harms
  | directionOutput offset value => cases harms
  | setValue offset value => cases harms

/-- **The interrupt enables** over every run after the probe: they are right after each operation, and the lines are
inputs when they are enabled exactly where no output is unmasked. -/
theorem interrupt_enables_iff {ngpio : Option ℕ} {output : BitVec 32} (hprobe : probe ngpio output = .ok c₀)
    (hon : ∀ op ∈ ops, op.line < c₀.ngpio) : EnablesRight c₀ ops ↔ UnmasksInputs c₀ ops := by
  obtain ⟨hngpio, hstart⟩ := probe_spec hprobe
  constructor
  · intro h before i after hops hcap
    have hsame := run_ngpio c₀ before
    have harms : (Op.irqUnmask i).arms i = some true := if_pos rfl
    have hinput := h.inputs before _ after hops i hcap harms
    rw [run_concat] at hinput
    exact (enabled_isOutput (hsame ▸ hngpio) (hsame.symm ▸ hcap) harms).1 hinput rfl
  · intro h
    refine ⟨?_, ?_, ?_⟩
    · intro before after hops i hcap
      have hbefore : ∀ op ∈ before, op.line < c₀.ngpio := fun op hmem =>
        hon op (hops ▸ List.mem_append_left _ hmem)
      exact (run_tracks hngpio hstart hbefore hcap).ie_eq
    · intro before op after hops i hline
      have hop : op.line < c₀.ngpio := hon op (hops ▸ List.mem_append_right _ (List.mem_cons_self ..))
      rw [run_concat]
      by_cases hi : i < 32
      · rw [apply_line_other ((run_ngpio c₀ before) ▸ hngpio) (by omega) hi hline]
      · rw [ie_of_ge (Nat.not_lt.1 hi), ie_of_ge (Nat.not_lt.1 hi)]
    · intro before op after hops i hcap harms
      have hsame := run_ngpio c₀ before
      rw [run_concat]
      apply (enabled_isOutput (hsame ▸ hngpio) (hsame.symm ▸ hcap) harms).2
      rintro rfl
      exact h before i after hops hcap

/-- A chip of two lines. -/
def twoLines : Chip :=
  { ngpio := 2, trigger := fun _ => 0#32, interruptMask := bit 0 ||| bit 1, enabled := 0#32,
    handler := fun _ => .level, output := 0#32, outputEnable := 0#32, riseIe := 0#32, fallIe := 0#32,
    highIe := 0#32, lowIe := 0#32 }

theorem probe_twoLines : probe (some 2) 0#32 = .ok twoLines := rfl

/-- The output of line 1 is set between the type and the enabling of line 0. -/
theorem enables_of_line_0 :
    EnablesRight twoLines [.irqSetType 0 IRQ_TYPE_EDGE_RISING, .directionOutput 1 1, .irqEnable 0] := by
  refine (interrupt_enables_iff probe_twoLines (by decide)).2 ?_
  intro before i after hops
  have hmem : Op.irqUnmask i ∈ [Op.irqSetType 0 IRQ_TYPE_EDGE_RISING, .directionOutput 1 1, .irqEnable 0] :=
    hops ▸ List.mem_append_right _ (List.mem_cons_self ..)
  simp at hmem

/-- **An output is unmasked**: line 0 is driven and interrupts. -/
theorem output_unmasked :
    ¬ EnablesRight twoLines [.irqSetType 0 IRQ_TYPE_LEVEL_HIGH, .directionOutput 0 1, .irqUnmask 0] ∧
      (twoLines.run [.irqSetType 0 IRQ_TYPE_LEVEL_HIGH, .directionOutput 0 1, .irqUnmask 0]).line 0 =
        ⟨IRQ_TYPE_LEVEL_HIGH, false, true, true, Ie.ofType IRQ_TYPE_LEVEL_HIGH⟩ := by
  refine ⟨?_, by decide⟩
  intro h
  have hinput := h.inputs [.irqSetType 0 IRQ_TYPE_LEVEL_HIGH, .directionOutput 0 1] (.irqUnmask 0) [] rfl 0
    (by decide) (by decide)
  exact absurd hinput (by decide)

end Br2Efinix.Gpio
