import Mathlib.Data.Int.Notation
import Mathlib.Data.Nat.Notation

/-!
# The configuration of the UART

`spinal_lib_uart_set_termios` and `spinal_lib_uart_earlycon_setup`, as far as they program the clock divider and the
frame configuration, on 32-bit words.

* `frameConfig_agree_iff`: the two paths write the same frame exactly without `PARODD`.
* `uart_config_iff`: **they agree, with one parity mode and a divider that does not wrap around**, exactly where
  besides the clock has a cycle for each bit.
-/

namespace Br2Efinix.Uart

def FRAME_CONFIG_STOP1 : UInt32 := (0 : UInt32) <<< 16
def FRAME_CONFIG_STOP2 : UInt32 := (1 : UInt32) <<< 16
def FRAME_CONFIG_ODD : UInt32 := (1 : UInt32) <<< 9
def FRAME_CONFIG_EVEN : UInt32 := (1 : UInt32) <<< 8

/-- The registers that are written. -/
structure UartRegs where
  clockDivider : UInt32
  frameConfig : UInt32
  deriving DecidableEq, Repr

/-! ## From `termios` -/

/-- `c_cflag & CSIZE`. -/
inductive CharSize
  | CS5
  | CS6
  | CS7
  | CS8
  deriving DecidableEq, Repr

/-- The flags of `c_cflag` that the driver reads. -/
structure Termios where
  csize : CharSize
  cstopb : Bool
  parodd : Bool
  parenb : Bool
  deriving DecidableEq, Repr

/-- The switch on the size. -/
def CharSize.config : CharSize → UInt32
  | .CS5 => 4
  | .CS6 => 5
  | .CS7 => 6
  | .CS8 => 7

/-- What `spinal_lib_uart_set_termios` writes, with the serial core's `uart_get_baud_rate` for the port and the
`termios`; a division by zero has no value. -/
def setTermios (uartclk : UInt32) (uartGetBaudRate : (min max : UInt32) → UInt32) (termios : Termios) :
    Option UartRegs :=
  let baud := uartGetBaudRate 0 4000000
  let config := termios.csize.config
  let product := baud * (config + 1)
  if product = 0 then none
  else
    let baudclk := uartclk / product - 1
    let config := config ||| (if termios.cstopb then FRAME_CONFIG_STOP2 else FRAME_CONFIG_STOP1)
    let config := if termios.parodd then config ||| FRAME_CONFIG_ODD else config
    let config := if termios.parenb then config ||| FRAME_CONFIG_EVEN else config
    some ⟨baudclk, config⟩

/-! ## From the boot options -/

def ENODEV : ℤ := 19

/-- What `uart_parse_options` finds in the options; `bits` is an `int`, here as the word that it is used as. -/
structure ConsoleOptions where
  baud : UInt32
  parity : Char
  bits : UInt32
  deriving DecidableEq, Repr

/-- The fields of `struct earlycon_device` that are read. -/
structure EarlyconDevice where
  membase : Option ℕ
  uartclk : UInt32
  baud : UInt32
  deriving DecidableEq, Repr

/-- What comes of the setup: an error, a division by zero, or the registers written, if any. -/
inductive Setup
  | error (err : ℤ)
  | divZero
  | done (written : Option UartRegs)
  deriving DecidableEq, Repr

/-- The rate and the format after the options are parsed. -/
def EarlyconDevice.settings (dev : EarlyconDevice) (options : Option ConsoleOptions) : ConsoleOptions :=
  options.getD ⟨dev.baud, 'n', 8⟩

/-- The switch on the parity. -/
def parityConfig (parity : Char) : UInt32 :=
  if parity = 'e' then FRAME_CONFIG_EVEN else if parity = 'o' then FRAME_CONFIG_ODD else 0

/-- `spinal_lib_uart_earlycon_setup`. -/
def earlyconSetup (dev : EarlyconDevice) (options : Option ConsoleOptions) : Setup :=
  if dev.membase.isNone then .error (-ENODEV)
  else
    let opts := dev.settings options
    let config := parityConfig opts.parity ||| (opts.bits - 1)
    if opts.baud = 0 then .done none
    else
      let product := opts.baud * opts.bits
      if product = 0 then .divZero
      else .done (some ⟨dev.uartclk / product - 1, config⟩)

/-! ## What is right -/

inductive Parity
  | none
  | odd
  | even
  deriving DecidableEq, Repr

/-- The parity that a `termios` asks for; without `PARENB` the other flag says nothing. -/
def Termios.parity (termios : Termios) : Parity :=
  if termios.parenb then (if termios.parodd then .odd else .even) else .none

/-- The parity that a letter of the options asks for. -/
def parityOf (parity : Char) : Parity :=
  if parity = 'e' then .even else if parity = 'o' then .odd else .none

def CharSize.bits : CharSize → ℕ
  | .CS5 => 5
  | .CS6 => 6
  | .CS7 => 7
  | .CS8 => 8

/-- The parity's field of the frame configuration; with both bits there is no mode. -/
def parityField (config : UInt32) : Option Parity :=
  match config.toNat.testBit 8, config.toNat.testBit 9 with
  | false, false => some .none
  | true, false => some .even
  | false, true => some .odd
  | true, true => Option.none

/-- Both paths are asked for the same: the clock, a rate that both accept, the size, the parity and one stop bit. -/
structure SameFormat (uartclk baud : UInt32) (uartGetBaudRate : (min max : UInt32) → UInt32) (termios : Termios)
    (dev : EarlyconDevice) (options : Option ConsoleOptions) : Prop where
  rate : uartGetBaudRate 0 4000000 = baud
  rate_pos : 0 < baud.toNat
  rate_max : baud.toNat ≤ 4000000
  one_stop : termios.cstopb = false
  mapped : dev.membase.isSome
  clock : dev.uartclk = uartclk
  same_rate : (dev.settings options).baud = baud
  same_size : (dev.settings options).bits.toNat = termios.csize.bits
  same_parity : parityOf (dev.settings options).parity = termios.parity

/-- The two paths write the same registers, the frame has the one parity mode asked for, and nothing wraps around in
the divider. -/
structure ConfigsAgree (uartclk baud : UInt32) (bits : ℕ) (parity : Parity) (termios : Option UartRegs)
    (earlycon : Setup) : Prop where
  agree : ∃ regs, termios = some regs ∧ earlycon = .done (some regs)
  one_parity : ∀ regs ∈ termios, parityField regs.frameConfig = some parity
  noWrap : ∀ regs ∈ termios, regs.clockDivider.toNat + 1 = uartclk.toNat / (baud.toNat * bits)

/-! ## The frame -/

variable {uartclk baud : UInt32} {uartGetBaudRate : UInt32 → UInt32 → UInt32} {termios : Termios}
  {dev : EarlyconDevice} {options : Option ConsoleOptions}

/-- The frame configuration that `PARODD` and `PARENB` give with one stop bit. -/
def termiosFrame (csize : CharSize) (parodd parenb : Bool) : UInt32 :=
  let config := if parodd then csize.config ||| FRAME_CONFIG_ODD else csize.config
  if parenb then config ||| FRAME_CONFIG_EVEN else config

/-- The one that the options give for a parity. -/
def optionsFrame (csize : CharSize) (parity : Parity) : UInt32 :=
  match parity with
  | .none => csize.config
  | .odd => FRAME_CONFIG_ODD ||| csize.config
  | .even => FRAME_CONFIG_EVEN ||| csize.config

theorem optionsFrame_eq {parity : Char} {bits : UInt32} {csize : CharSize} (hsize : bits.toNat = csize.bits) :
    parityConfig parity ||| (bits - 1) = optionsFrame csize (parityOf parity) := by
  have hbits : bits - 1 = csize.config := by
    rw [show bits = UInt32.ofNat csize.bits by rw [← hsize, UInt32.ofNat_toNat]]
    cases csize <;> decide
  unfold parityConfig parityOf optionsFrame
  rw [hbits]
  by_cases he : parity = 'e'
  · rw [if_pos he, if_pos he]
  · rw [if_neg he, if_neg he]
    by_cases ho : parity = 'o'
    · rw [if_pos ho, if_pos ho]
    · rw [if_neg ho, if_neg ho]
      exact UInt32.zero_or

/-- **The frames are the same** exactly without `PARODD`: with it the odd bit stands beside the even one, or where
no parity is asked for. -/
theorem frameConfig_agree_iff (termios : Termios) :
    termiosFrame termios.csize termios.parodd termios.parenb = optionsFrame termios.csize termios.parity ↔
      termios.parodd = false := by
  unfold Termios.parity
  cases termios.csize <;> cases termios.parodd <;> cases termios.parenb <;> decide

/-- Without `PARODD` there is one parity mode. -/
theorem parityField_frame (hodd : termios.parodd = false) :
    parityField (termiosFrame termios.csize termios.parodd termios.parenb) = some termios.parity := by
  unfold Termios.parity
  rw [hodd]
  cases termios.csize <;> cases termios.parenb <;> decide

/-! ## The divider -/

/-- The product of the rate and the size does not wrap around, and is not 0. -/
theorem product_toNat {size : UInt32} (hpos : 0 < baud.toNat) (hmax : baud.toNat ≤ 4000000) {csize : CharSize}
    (hsize : size.toNat = csize.bits) : (baud * size).toNat = baud.toNat * csize.bits ∧ baud * size ≠ 0 := by
  have hrange : 5 ≤ csize.bits ∧ csize.bits ≤ 8 := by cases csize <;> decide
  have hle : baud.toNat * csize.bits ≤ 4000000 * 8 := Nat.mul_le_mul hmax hrange.2
  have hge : 1 * 5 ≤ baud.toNat * csize.bits := Nat.mul_le_mul hpos hrange.1
  have hword : (baud * size).toNat = baud.toNat * csize.bits := by
    rw [UInt32.toNat_mul, hsize]
    exact Nat.mod_eq_of_lt (by omega)
  refine ⟨hword, ?_⟩
  intro h
  rw [h, show (0 : UInt32).toNat = 0 from rfl] at hword
  omega

theorem config_toNat (csize : CharSize) : (csize.config + 1).toNat = csize.bits := by
  cases csize <;> rfl

/-- The subtraction wraps around exactly where the quotient is 0. -/
theorem divider_iff {product : UInt32} (hpos : 0 < product.toNat) :
    (uartclk / product - 1).toNat + 1 = uartclk.toNat / product.toNat ↔ product.toNat ≤ uartclk.toNat := by
  have hword := uartclk.toNat_lt
  have hle : uartclk.toNat / product.toNat ≤ uartclk.toNat := Nat.div_le_self _ _
  have hone : (1 : UInt32).toNat = 1 := rfl
  have hge : 1 ≤ uartclk.toNat / product.toNat ↔ product.toNat ≤ uartclk.toNat := by
    rw [Nat.le_div_iff_mul_le hpos, Nat.one_mul]
  rw [UInt32.toNat_sub, UInt32.toNat_div, hone]
  omega

/-! ## The two paths -/

theorem setTermios_eq (h : SameFormat uartclk baud uartGetBaudRate termios dev options) :
    setTermios uartclk uartGetBaudRate termios =
      some ⟨uartclk / (baud * (termios.csize.config + 1)) - 1,
        termiosFrame termios.csize termios.parodd termios.parenb⟩ := by
  have hne := (product_toNat h.rate_pos h.rate_max (config_toNat termios.csize)).2
  have hstop : termios.csize.config ||| FRAME_CONFIG_STOP1 = termios.csize.config := by
    cases termios.csize <;> decide
  unfold setTermios termiosFrame
  simp only [h.rate, h.one_stop]
  rw [if_neg hne, if_neg Bool.false_ne_true, hstop]

theorem earlyconSetup_eq (h : SameFormat uartclk baud uartGetBaudRate termios dev options) :
    earlyconSetup dev options =
      .done (some ⟨uartclk / (baud * (termios.csize.config + 1)) - 1,
        optionsFrame termios.csize termios.parity⟩) := by
  have hsize : (dev.settings options).bits = termios.csize.config + 1 := by
    apply UInt32.toNat_inj.1
    rw [h.same_size, config_toNat]
  have hne := (product_toNat h.rate_pos h.rate_max h.same_size).2
  have hbaud : baud ≠ 0 := by
    rintro rfl
    exact absurd h.rate_pos (by decide)
  have hmapped : ¬dev.membase.isNone = true := by
    rw [Option.isNone_iff_eq_none]
    intro hnone
    have hsome := h.mapped
    rw [hnone] at hsome
    exact absurd hsome Bool.false_ne_true
  unfold earlyconSetup
  simp only [optionsFrame_eq h.same_size, h.same_rate, h.clock, h.same_parity]
  rw [if_neg hmapped, if_neg hbaud, if_neg hne, hsize]

/-- **The two paths agree** exactly where the `termios` has no `PARODD` and the clock has a cycle for each of the
bits of a second. -/
theorem uart_config_iff (h : SameFormat uartclk baud uartGetBaudRate termios dev options) :
    ConfigsAgree uartclk baud termios.csize.bits termios.parity (setTermios uartclk uartGetBaudRate termios)
        (earlyconSetup dev options) ↔
      termios.parodd = false ∧ baud.toNat * termios.csize.bits ≤ uartclk.toNat := by
  obtain ⟨hproduct, hne⟩ := product_toNat h.rate_pos h.rate_max (config_toNat termios.csize)
  have hpos : 0 < (baud * (termios.csize.config + 1)).toNat := by
    rcases Nat.eq_zero_or_pos (baud * (termios.csize.config + 1)).toNat with hzero | hpos
    · exact absurd (UInt32.toNat_inj.1 hzero) hne
    · exact hpos
  have hframe := frameConfig_agree_iff termios
  have hdiv := @divider_iff uartclk _ hpos
  rw [hproduct] at hdiv
  rw [setTermios_eq h, earlyconSetup_eq h]
  constructor
  · rintro ⟨⟨regs, htermios, hearly⟩, -, hwrap⟩
    have hsame := (Option.some_inj.1 htermios).trans (Option.some_inj.1 (Setup.done.inj hearly)).symm
    exact ⟨hframe.1 (UartRegs.mk.inj hsame).2, hdiv.1 (hwrap _ rfl)⟩
  · rintro ⟨hodd, hclock⟩
    refine ⟨⟨_, rfl, by rw [hframe.2 hodd]⟩, ?_, ?_⟩
    · rintro regs ⟨rfl⟩
      exact parityField_frame hodd
    · rintro regs ⟨rfl⟩
      exact hdiv.2 hclock

/-- Even parity at 115200 baud with a clock of 100 MHz. -/
theorem uart_config_even :
    ConfigsAgree 100000000 115200 8 .even (setTermios 100000000 (fun _ max => min 115200 max) ⟨.CS8, false, false, true⟩)
      (earlyconSetup ⟨some 0, 100000000, 0⟩ (some ⟨115200, 'e', 8⟩)) :=
  (@uart_config_iff 100000000 115200 (fun _ max => min 115200 max) ⟨.CS8, false, false, true⟩ ⟨some 0, 100000000, 0⟩
    (some ⟨115200, 'e', 8⟩)
    ⟨by decide, by decide, by decide, rfl, rfl, rfl, rfl, rfl, by decide⟩).2 ⟨rfl, by decide⟩

/-- **Odd parity at 115200 baud**: `set_termios` sets both parity bits, the early console the odd one; and with a
clock of 20 MHz the divider for 4 MBd wraps around. -/
theorem uart_config_odd :
    ¬ ConfigsAgree 100000000 115200 8 .odd
        (setTermios 100000000 (fun _ max => min 115200 max) ⟨.CS8, false, true, true⟩)
        (earlyconSetup ⟨some 0, 100000000, 0⟩ (some ⟨115200, 'o', 8⟩)) ∧
      (setTermios 100000000 (fun _ max => min 115200 max) ⟨.CS8, false, true, true⟩) = some ⟨107, 0x307⟩ ∧
      earlyconSetup ⟨some 0, 100000000, 0⟩ (some ⟨115200, 'o', 8⟩) = .done (some ⟨107, 0x207⟩) ∧
      (setTermios 20000000 (fun _ max => min 4000000 max) ⟨.CS8, false, false, false⟩) = some ⟨0xFFFFFFFF, 7⟩ := by
  refine ⟨?_, by decide, by decide, by decide⟩
  intro h
  exact absurd (h.one_parity ⟨107, 0x307⟩ (by decide)) (by decide)

end Br2Efinix.Uart
