import Mathlib.Tactic.Simps.Basic
import Br2Efinix.Lib.Machine
import Br2Efinix.Emmc.Core
import Br2Efinix.Emmc.UBootTuning

/-!
# Modes and tuning

What `efx_emmc_set_ios`, a CMD6 that switches the mode, `efx_emmc_execute_tuning` and the
HS400 retune worker do to the controller's configuration and to the stored tuning results,
each call run to its end. The tuning command itself is a probe of a sampling point.
-/

namespace Br2Efinix.Emmc

/-! ## Constants and settings -/

def EFX_EMMC_BASE_CLK_FREQ_MHZ : ℕ := 200
def EFX_EMMC_MIN_FREQ : ℕ := 400000
def EFX_EMMC_MAX_FREQ : ℕ := 200000000
def EFX_EMMC_BASE_REG0_CLK_DIV_MASK : ℕ := 0xFFFF
def EFX_EMMC_DATA_WIDTH_1BIT : ℕ := 0
def EFX_EMMC_DATA_WIDTH_4BIT : ℕ := 1
def EFX_EMMC_DATA_WIDTH_8BIT : ℕ := 2
def EMMC_BASE_CLK_SHIFT_PORT : ℕ := 3
def EMMC_BASE_CLK_SHIFT_90 : ℕ := 2
def EMMC_BASE_CLK_SHIFT_135 : ℕ := 3
def MMC_SEND_TUNING_BLOCK : ℕ := 19
def MMC_SEND_TUNING_BLOCK_HS200 : ℕ := 21

/-- `mmc->ios.bus_width`. -/
inductive BusWidth
  | w1
  | w4
  | w8
  | other (code : ℕ)
  deriving DecidableEq, Repr

/-- `struct mmc_ios`. -/
structure Ios where
  clock : ℕ
  busWidth : BusWidth
  timing : Timing
  deriving DecidableEq, Repr

/-- What the probe finds: the capabilities register and the device tree's options. -/
structure Board where
  caps : ℕ
  hs400DefaultSample : ℕ
  hs400DefaultPll : ℕ
  tuningFirstHalfSample : Bool
  tuningResultSelectionEdge : Bool

/-- `host->base_clk`. -/
def Board.baseClk (b : Board) : ℕ :=
  let baseClk := (b.caps &&& 0x3FF) * 1000000
  if baseClk = 0 then EFX_EMMC_BASE_CLK_FREQ_MHZ * 1000000 else baseClk

/-- `div` in `efx_emmc_set_clock`, for a clock other than 0. -/
def Board.divider (b : Board) (clock : ℕ) : ℕ :=
  let clock := if clock > EFX_EMMC_MAX_FREQ then EFX_EMMC_MAX_FREQ else clock
  if clock ≥ b.baseClk then 1
  else
    let div := (b.baseClk + clock - 1) / clock
    if div > 1 ∧ div % 2 = 1 then div + 1 else div

/-- `config_value` in `efx_emmc_set_timing_config`. -/
def configValue (sampleCount pllShift clkPort : ℕ) : ℕ :=
  (sampleCount <<< 16 ||| pllShift <<< 6 ||| (1 <<< clkPort) <<< 1) % 2 ^ 32

/-! ## The state -/

/-- The host (with `mmc->ios.timing` and the stored points), the controller's clock and
control registers, and the fields for modes. A port keeps the last configuration that was
strobed for it. Only observed is the result map of the last scan in a mode. -/
structure Modes where
  host : Host
  clkEn : Bool
  clkDivField : ℕ
  dataWidth : ℕ
  samplingMode : Bool
  baseReg1 : ℕ
  port : ℕ → ℕ
  currentClk : ℕ
  clkDiv : ℕ
  tunedTimingModes : Timing → Bool
  tuningDone : Bool
  hs400RetunePending : Bool
  retuneQueued : Bool
  prevTiming : Timing
  scans : Timing → ℕ → ℕ → Bool

/-- What a tuning meets: whether `tuning_result_map` and the selection's map can be
allocated, the probes, and after which of them the five seconds are over. -/
structure TuningEnv where
  mapAlloc : Bool
  selectAlloc : Bool
  probes : Probes
  late : ℕ → ℕ → Bool

namespace Modes

/-- `set_bit(timing, &host->tuned_timing_modes)`. -/
@[simps]
def setTuned (m : Modes) (timing : Timing) : Modes :=
  { m with tunedTimingModes := fun t => if t = timing then true else m.tunedTimingModes t }

/-- `efx_emmc_set_timing_config`. -/
@[simps]
def setTimingConfig (m : Modes) (sampleCount pllShift clkPort : ℕ) : Modes :=
  { m with
    host := m.host.setTimingConfig sampleCount pllShift clkPort
    baseReg1 := configValue sampleCount pllShift clkPort
    port := fun p => if p = clkPort then configValue sampleCount pllShift clkPort else m.port p }

/-- `efx_emmc_base_clk_shift`. -/
def baseClkShift (m : Modes) (pllShift : ℕ) : Modes :=
  let sampleCntValue := m.baseReg1 >>> 16 &&& 0xFFFF
  m.setTimingConfig sampleCntValue pllShift EMMC_BASE_CLK_SHIFT_PORT

@[simp] theorem baseClkShift_eq (m : Modes) (pllShift : ℕ) :
    m.baseClkShift pllShift =
      m.setTimingConfig (m.baseReg1 >>> 16 &&& 0xFFFF) pllShift EMMC_BASE_CLK_SHIFT_PORT := rfl

/-! ### `efx_emmc_set_ios` -/

/-- `efx_emmc_set_clock`. -/
def setClock (b : Board) (m : Modes) (clock : ℕ) : Modes :=
  if clock = 0 then { m with clkEn := false, currentClk := 0 }
  else
    let div := b.divider clock
    { m with
      clkEn := true
      clkDivField := div &&& EFX_EMMC_BASE_REG0_CLK_DIV_MASK
      currentClk := b.baseClk / div
      clkDiv := div }

/-- `efx_emmc_set_bus_width`. -/
def setBusWidth (m : Modes) (width : BusWidth) : Modes :=
  match width with
  | .w1 => { m with dataWidth := EFX_EMMC_DATA_WIDTH_1BIT }
  | .w4 => { m with dataWidth := EFX_EMMC_DATA_WIDTH_4BIT }
  | .w8 => { m with dataWidth := EFX_EMMC_DATA_WIDTH_8BIT }
  | .other _ => m

/-- `efx_emmc_set_timing`. -/
def setTiming (b : Board) (m : Modes) (timing : Timing) : Modes :=
  match timing with
  | .legacy | .mmcHs => { m with samplingMode := false, prevTiming := timing }
  | .mmcDdr52 => { m.setTuned timing with tuningDone := true, samplingMode := true, prevTiming := timing }
  | .mmcHs200 =>
    let m := if !m.tunedTimingModes timing then { m with tuningDone := false } else m
    let m := m.setTimingConfig m.host.hs200.sampleCount m.host.hs200.pllShift EMMC_BASE_CLK_CAL_PORT
    let m := m.baseClkShift EMMC_BASE_CLK_SHIFT_135
    { m with samplingMode := false, prevTiming := timing }
  | .mmcHs400 =>
    let m :=
      if !m.tunedTimingModes timing then
        let m := m.setTimingConfig b.hs400DefaultSample b.hs400DefaultPll EMMC_BASE_CLK_CAL_PORT
        { m.baseClkShift EMMC_BASE_CLK_SHIFT_90 with
          tuningDone := false, hs400RetunePending := true, retuneQueued := true }
      else
        let m := m.setTimingConfig m.host.hs400.sampleCount m.host.hs400.pllShift EMMC_BASE_CLK_CAL_PORT
        m.baseClkShift EMMC_BASE_CLK_SHIFT_90
    { m with samplingMode := true, prevTiming := timing }
  | .other _ => m

/-- `efx_emmc_set_ios`, where `ios` is `mmc->ios`. -/
def setIos (b : Board) (m : Modes) (ios : Ios) : Modes :=
  let m := { m with host := { m.host with timing := ios.timing } }
  let m := if ios.clock ≠ m.currentClk then m.setClock b ios.clock else m
  let m := if ios.busWidth ≠ .w1 then m.setBusWidth ios.busWidth else m
  m.setTiming b ios.timing

/-! ### `efx_emmc_execute_tuning` -/

/-- The points of a scan, in the order of its loops. -/
def points (maxSampleCount : ℕ) : List (ℕ × ℕ) :=
  (List.range maxSampleCount).flatMap fun i => (List.range EFX_EMMC_MAX_PLL_SHIFT).map fun j => (i, j)

/-- The loops over the points that are left, and `tuning_result_map` after them. -/
def scan (env : TuningEnv) : List (ℕ × ℕ) → (ℕ → ℕ → Bool) → Modes → Modes × (ℕ → ℕ → Bool)
  | [], map, m => (m, map)
  | (i, j) :: rest, map, m =>
    let m := m.setTimingConfig i j EMMC_BASE_CLK_CAL_PORT
    let success := tuningAccepts m.host (env.probes.pass i j) (env.probes.adjustment i j)
    let map := fun a c => if a = i ∧ c = j then success else map a c
    if env.late i j then (m, map) else scan env rest map m

/-- The points that a scan gets to: the last is the one after which the time is over. -/
def tried (late : ℕ → ℕ → Bool) : List (ℕ × ℕ) → List (ℕ × ℕ)
  | [] => []
  | (i, j) :: rest => if late i j then [(i, j)] else (i, j) :: tried late rest

/-- `max_sample_count`. -/
def maxSampleCount (m : Modes) : ℕ := if m.clkDiv ≠ 0 then m.clkDiv else 1

/-- The point that the driver falls back to. -/
def fallback (maxSampleCount : ℕ) : TuningPoint :=
  if maxSampleCount = 1 then ⟨0, 2, 0⟩ else ⟨1, 1, 0⟩

/-- Store a point, but not a margin, by `mmc->ios.timing`. -/
def storeFallback (h : Host) (p : TuningPoint) : Host :=
  match h.timing with
  | .mmcHs200 => { h with hs200 := { p with margin := h.hs200.margin } }
  | .mmcHs400 => { h with hs400 := { p with margin := h.hs400.margin } }
  | _ => h

/-- After a selection that returned 0. -/
def tuningSucceeded (m : Modes) : Modes :=
  let p : ℕ × ℕ :=
    match m.host.timing with
    | .mmcHs200 => (m.host.hs200.sampleCount, m.host.hs200.pllShift)
    | .mmcHs400 => (m.host.hs400.sampleCount, m.host.hs400.pllShift)
    | _ => (0, 4)
  let m := m.setTimingConfig p.1 p.2 EMMC_BASE_CLK_CAL_PORT
  { m with tuningDone := true }.setTuned m.host.timing

/-- After one that did not: HS400 is not marked. -/
def tuningFallback (m : Modes) (maxSampleCount : ℕ) : Modes :=
  let p := fallback maxSampleCount
  let m := m.setTimingConfig p.sampleCount p.pllShift EMMC_BASE_CLK_CAL_PORT
  let m := { m with host := storeFallback m.host p, tuningDone := true }
  if m.host.timing ≠ .mmcHs400 then m.setTuned m.host.timing else m

/-- `host->tuning_in_progress = true`. -/
@[simps]
def startTuning (m : Modes) : Modes := { m with host := { m.host with tuningInProgress := true } }

/-- A pending retune of HS400 is the one that begins. -/
def takeRetune (m : Modes) : Modes :=
  if m.hs400RetunePending ∧ m.host.timing = .mmcHs400 then { m with hs400RetunePending := false } else m

/-- The mode is tuned already, and nobody asks for more. -/
def skips (m : Modes) : Bool :=
  !m.hs400RetunePending && m.tunedTimingModes m.host.timing && m.tuningDone &&
    decide (m.host.timing = .mmcHs200 ∨ m.host.timing = .mmcHs400)

/-- The point of a tuned mode is set once more. -/
def restore (m : Modes) : Modes :=
  let hs200 := decide (m.host.timing = .mmcHs200)
  let p := if hs200 then m.host.hs200 else m.host.hs400
  let m := m.setTimingConfig p.sampleCount p.pllShift EMMC_BASE_CLK_CAL_PORT
  if hs200 then m.baseClkShift EMMC_BASE_CLK_SHIFT_135
  else if m.host.timing = .mmcHs400 then m.baseClkShift EMMC_BASE_CLK_SHIFT_90
  else m

/-- The last scan in the mode is over, and `r` was selected from its map. -/
@[simps]
def select (m : Modes) (map : ℕ → ℕ → Bool) (r : TimingResult) : Modes :=
  { m with
    host := r.host
    scans := fun t => if t = m.host.timing then map else m.scans t }

/-- The end of a tuning. -/
@[simps]
def endTuning (m : Modes) : Modes :=
  { m with host := { m.host with tuningInProgress := false }, prevTiming := m.host.timing }

/-- The scan with its selection. -/
def tune (m : Modes) (env : TuningEnv) : Modes :=
  let n := m.maxSampleCount
  let (m, map) := scan env (points n) (fun _ _ => false) m
  let r := findOptimalTiming env.selectAlloc m.host map n
  let m := m.select map r
  let m := if r.ret = 0 then m.tuningSucceeded else m.tuningFallback n
  m.endTuning

/-- `efx_emmc_execute_tuning`, and what it returns. -/
def executeTuning (m : Modes) (opcode : ℕ) (env : TuningEnv) : Modes × ℤ :=
  let m := m.startTuning
  if m.skips then (m.restore, 0)
  else
    let m := m.takeRetune
    if opcode ≠ MMC_SEND_TUNING_BLOCK ∧ opcode ≠ MMC_SEND_TUNING_BLOCK_HS200 then (m, -EINVAL)
    else if !env.mapAlloc then (m, -ENOMEM)
    else (m.tune env, 0)

/-- `efx_emmc_hs400_retune_work`. -/
def hs400RetuneWork (m : Modes) (env : TuningEnv) : Modes :=
  let m := { m with retuneQueued := false }
  if m.hs400RetunePending ∧ m.host.timing = .mmcHs400 then
    (m.executeTuning MMC_SEND_TUNING_BLOCK_HS200 env).1
  else m

/-! ### A CMD6 that switches the mode -/

/-- In `efx_emmc_send_command`. -/
def switchSent (m : Modes) : Modes := m.setTimingConfig 0 0 EMMC_BASE_CLK_CAL_PORT

/-- In `efx_emmc_finish_command`, with the value that was written. -/
def switchDone (m : Modes) (value : ℕ) : Modes :=
  if value = 0 ∨ value = 1 then m.setTimingConfig 0 0 EMMC_BASE_CLK_CAL_PORT
  else if value = 2 then m.setTimingConfig 2 2 EMMC_BASE_CLK_CAL_PORT
  else m

/-- After `efx_emmc_probe`, whose `efx_emmc_init_hw` has reset the controller. -/
def probed (b : Board) : Modes :=
  let host := { Host.probed 0 Host.bounceBuffer_fits with
    tuningFirstHalfSample := b.tuningFirstHalfSample
    tuningResultSelectionEdge := b.tuningResultSelectionEdge }
  let m : Modes :=
    { host, clkEn := false, clkDivField := 0, dataWidth := EFX_EMMC_DATA_WIDTH_1BIT, samplingMode := false
      baseReg1 := 0, port := fun p => configValue 0 0 p, currentClk := 0, clkDiv := 0
      tunedTimingModes := fun _ => false, tuningDone := false, hs400RetunePending := false
      retuneQueued := false, prevTiming := .legacy, scans := fun _ _ _ => false }
  m.setClock b EFX_EMMC_MIN_FREQ

end Modes

/-! ## Runs -/

inductive ModeAct
  | setIos (ios : Ios)
  | switchSent
  | switchDone (value : ℕ)
  | executeTuning (opcode : ℕ) (env : TuningEnv)
  | retuneWork (env : TuningEnv)

/-- The calls, one after another. The worker runs when it was queued. -/
def modes (b : Board) : Machine Modes ModeAct :=
  { init := fun m => m = .probed b
    step := fun m => fun
      | .setIos ios => some (m.setIos b ios)
      | .switchSent => some m.switchSent
      | .switchDone value => some (m.switchDone value)
      | .executeTuning opcode env => some (m.executeTuning opcode env).1
      | .retuneWork env => if m.retuneQueued then some (m.hs400RetuneWork env) else none }

end Br2Efinix.Emmc
