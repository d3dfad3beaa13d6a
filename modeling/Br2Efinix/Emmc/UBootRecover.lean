import Mathlib.Tactic.Simps.Basic
import Br2Efinix.Lib.Machine
import Br2Efinix.Emmc.Modes

/-!
# Recovery in U-Boot

What `efx_emmc_probe`, `efx_emmc_set_ios`, `efx_emmc_execute_tuning` and a command that
fails, with `efx_emmc_recover` after it, do to the registers that configure the controller.

`efx_emmc_recover` resets the IP. The reset clears the DDR bit; what it leaves in the other
fields and at the PLL outputs is open, and may be another thing every time.
-/

namespace Br2Efinix.Emmc.UBoot

def EFX_EMMC_INT_ALL_MASK : ℕ := 0x7F0033
def EFX_EMMC_BASE_CLK_CAL_PORT : ℕ := 2
def EFX_EMMC_BASE_CLK_SHIFT_PORT : ℕ := 3
def EFX_EMMC_HS200_CLK_SHIFT : ℕ := 3
def EFX_EMMC_HS400_CLK_SHIFT : ℕ := 2

/-- `mmc->selected_mode`. -/
inductive Mode
  | mmcHs200
  | mmcHs400
  | other (code : ℕ)
  deriving DecidableEq, Repr

/-- The fields of `struct mmc` that the driver reads. -/
structure Mmc where
  clock : ℕ
  busWidth : ℕ
  ddrMode : Bool
  selectedMode : Mode
  deriving DecidableEq, Repr

/-- What a reset of the IP leaves. -/
structure Reset where
  clkEn : Bool
  clkDivField : ℕ
  dataWidth : ℕ
  intStatusEn : ℕ
  intSignalEn : ℕ
  baseReg1 : ℕ
  port : ℕ → ℕ

/-- `struct efx_emmc_host` (its tuning part is `host`), and the controller's clock, control,
interrupt enable and tuning registers. A port keeps the PLL shift that was last strobed for it. -/
structure Dev where
  baseClk : ℕ
  currentClk : ℕ
  mmc : Mmc
  host : Host
  hs400Tuned : Bool
  clockShift : ℕ
  clkEn : Bool
  clkDivField : ℕ
  dataWidth : ℕ
  ddrBit : Bool
  intStatusEn : ℕ
  intSignalEn : ℕ
  baseReg1 : ℕ
  port : ℕ → ℕ

/-- What a tuning meets: whether the map can be allocated, and at each point whether the tuning
command fails, so that the driver recovers, whether the block matches if it does not,
and `EFX_EMMC_HOST_ADJUSTMENT` after it. -/
structure TuneEnv where
  callocOk : Bool
  failed : ℕ → ℕ → Option Reset
  matches_ : ℕ → ℕ → Bool
  adjustment : ℕ → ℕ → UInt32

/-- `mmc_send_tuning` returns 0. -/
def TuneEnv.probes (env : TuneEnv) : Probes :=
  ⟨fun i j => env.matches_ i j && (env.failed i j).isNone, env.adjustment⟩

/-- `base_clk` as `efx_emmc_init_hw` reads it from the capabilities. -/
def capsClk (caps : ℕ) : ℕ :=
  let baseClk := (caps &&& 0x3FF) * 1000000
  if baseClk = 0 then EFX_EMMC_BASE_CLK_FREQ_MHZ * 1000000 else baseClk

/-- `div` in `efx_emmc_set_clock`, for a clock other than 0. -/
def divider (baseClk clock : ℕ) : ℕ :=
  let clock := if clock > EFX_EMMC_MAX_FREQ then EFX_EMMC_MAX_FREQ else clock
  if clock ≥ baseClk then 1
  else
    let div := (baseClk + clock - 1) / clock
    if div > 1 ∧ div % 2 = 1 then div + 1 else div

/-- The width field for a width that `efx_emmc_set_bus_mode` knows. -/
def widthField (width : ℕ) : Option ℕ :=
  if width = 1 then some EFX_EMMC_DATA_WIDTH_1BIT
  else if width = 4 then some EFX_EMMC_DATA_WIDTH_4BIT
  else if width = 8 then some EFX_EMMC_DATA_WIDTH_8BIT
  else none

namespace Dev

/-- `efx_emmc_set_phase`; the value it writes and strobes is the one that Linux writes. -/
@[simps]
def setPhase (m : Dev) (sample pllShift clockPort : ℕ) : Dev :=
  { m with
    baseReg1 := configValue sample pllShift clockPort
    port := fun p => if p = clockPort then pllShift else m.port p }

/-- `efx_emmc_set_tuning`. -/
def setTuning (m : Dev) (sample pllShift : ℕ) : Dev :=
  m.setPhase sample pllShift EFX_EMMC_BASE_CLK_CAL_PORT

/-- `efx_emmc_set_clock_shift`. -/
def setClockShift (m : Dev) (pllShift : ℕ) : Dev :=
  if m.clockShift = pllShift then m
  else
    { m.setPhase (m.baseReg1 >>> 16) pllShift EFX_EMMC_BASE_CLK_SHIFT_PORT with clockShift := pllShift }

/-- `efx_emmc_reset_ip`. -/
@[simps]
def resetIp (m : Dev) (r : Reset) : Dev :=
  { m with
    clkEn := r.clkEn, clkDivField := r.clkDivField, dataWidth := r.dataWidth, ddrBit := false
    intStatusEn := r.intStatusEn, intSignalEn := r.intSignalEn, baseReg1 := r.baseReg1, port := r.port }

/-- `efx_emmc_set_clock`. -/
def setClock (m : Dev) (clock : ℕ) : Dev :=
  if clock = 0 then { m with clkEn := false, currentClk := 0 }
  else
    let div := divider m.baseClk clock
    { m with
      clkEn := true, clkDivField := div &&& EFX_EMMC_BASE_REG0_CLK_DIV_MASK
      currentClk := m.baseClk / div }

/-- `efx_emmc_set_bus_mode`, which writes nothing for a width that it does not know. -/
def setBusMode (m : Dev) (width : ℕ) (ddr : Bool) : Dev :=
  match widthField width with
  | some field => { m with dataWidth := field, ddrBit := ddr }
  | none => m

/-- `efx_emmc_recover`. -/
def recover (m : Dev) (r : Reset) : Dev :=
  let clock := m.currentClk
  let width := if m.mmc.busWidth ≠ 0 then m.mmc.busWidth else 1
  let m := m.resetIp r
  let m := { m with intSignalEn := 0 }
  let m := m.setBusMode width m.mmc.ddrMode
  let m := m.setClock clock
  let m := { m with intStatusEn := EFX_EMMC_INT_ALL_MASK }
  let m := m.setPhase (m.baseReg1 >>> 16) m.clockShift EFX_EMMC_BASE_CLK_SHIFT_PORT
  m.setTuning m.host.tuningSample m.host.tuningPll

/-- The points of a scan, in the order of its loops. -/
def points (samples : ℕ) : List (ℕ × ℕ) :=
  (List.range samples).flatMap fun i => (List.range EFX_EMMC_TUNING_PLL_SHIFTS).map fun j => (i, j)

/-- The tuning command at a point. -/
def probe (env : TuneEnv) (m : Dev) (p : ℕ × ℕ) : Dev :=
  let m := m.setTuning p.1 p.2
  match env.failed p.1 p.2 with
  | some r => m.recover r
  | none => m

/-- `efx_emmc_execute_tuning`. -/
def executeTuning (m : Dev) (opcode : ℕ) (env : TuneEnv) : Dev :=
  let samples := m.clkDivField
  let result := UBoot.executeTuning env.callocOk m.host opcode samples m.mmc.ddrMode env.probes
  if result.1 = -EINVAL ∨ result.1 = -ENOMEM then m
  else
    let m := (points samples).foldl (probe env) m
    if result.1 = 0 then
      { m with host := result.2 }.setTuning result.2.tuningSample result.2.tuningPll
    else m

/-- The clock in `efx_emmc_set_ios`, where `mmc` is what the core has set. -/
def setMmcClock (m : Dev) (mmc : Mmc) : Dev :=
  if mmc.clock ≠ m.currentClk then
    let m := { m with mmc := mmc }.setClock mmc.clock
    { m with mmc := { m.mmc with clock := m.currentClk } }
  else { m with mmc := mmc }

/-- With the bus. -/
def setClockBus (m : Dev) (mmc : Mmc) : Dev :=
  let m := m.setMmcClock mmc
  if mmc.busWidth ≠ 0 then m.setBusMode mmc.busWidth mmc.ddrMode else m

/-- `efx_emmc_set_ios` up to the tuning for HS400. -/
def setMode (m : Dev) (mmc : Mmc) : Dev :=
  let m := m.setClockBus mmc
  match mmc.selectedMode with
  | .mmcHs200 => { m.setClockShift EFX_EMMC_HS200_CLK_SHIFT with hs400Tuned := false }
  | .mmcHs400 => m.setClockShift EFX_EMMC_HS400_CLK_SHIFT
  | .other _ =>
    let m :=
      if m.host.tuned then
        { m.setTuning 0 0 with host := { m.host with tuned := false, tuningSample := 0, tuningPll := 0 } }
      else m
    { m with hs400Tuned := false }

/-- `efx_emmc_set_ios`. -/
def setIos (m : Dev) (mmc : Mmc) (env : TuneEnv) : Dev :=
  let m := m.setMode mmc
  if mmc.selectedMode = .mmcHs400 ∧ m.hs400Tuned = false then
    { m with hs400Tuned := true }.executeTuning MMC_CMD_SEND_TUNING_BLOCK_HS200 env
  else m

/-- After `efx_emmc_probe`, whose `efx_emmc_init_hw` has reset the controller. -/
def probed (caps : ℕ) (tuningEdge samplingRightHalf : Bool) (r : Reset) : Dev :=
  let m : Dev :=
    { baseClk := capsClk caps, currentClk := 0, mmc := ⟨0, 0, false, .other 0⟩
      host := ⟨false, 0, 0, tuningEdge, samplingRightHalf⟩, hs400Tuned := false, clockShift := 0
      clkEn := r.clkEn, clkDivField := r.clkDivField, dataWidth := r.dataWidth, ddrBit := false
      intStatusEn := 0, intSignalEn := 0, baseReg1 := r.baseReg1, port := r.port }
  let m := m.setTuning 0 0
  let m := m.setClockShift EFX_EMMC_HS400_CLK_SHIFT
  let m := { m with dataWidth := EFX_EMMC_DATA_WIDTH_1BIT }
  let m := m.setClock EFX_EMMC_MIN_FREQ
  { m with intStatusEn := EFX_EMMC_INT_ALL_MASK }

end Dev

inductive DevAct
  | setIos (mmc : Mmc) (env : TuneEnv)
  | executeTuning (opcode : ℕ) (env : TuneEnv)
  | fail (r : Reset)

/-- The calls, one after another, and commands that fail. -/
def devices (caps : ℕ) : Machine Dev DevAct :=
  { init := fun m => ∃ tuningEdge samplingRightHalf r, m = .probed caps tuningEdge samplingRightHalf r
    step := fun m => fun
      | .setIos mmc env => some (m.setIos mmc env)
      | .executeTuning opcode env => some (m.executeTuning opcode env)
      | .fail r => some (m.recover r) }

end Br2Efinix.Emmc.UBoot
