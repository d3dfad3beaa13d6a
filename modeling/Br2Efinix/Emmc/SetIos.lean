import Br2Efinix.Emmc.Modes

/-!
# What `efx_emmc_set_ios` leaves behind

The configuration after a call, as a function of the `ios` asked for and of the stored
tuning results.

* `set_ios_history_independent`: **the configuration is such a function** in every run
  whose calls find in place what they do not write, and a call leaves what its `ios` asks
  for exactly then.
* `width_survives`: after 8 bits, a call for 1 bit leaves the bus at 8.
-/

namespace Br2Efinix.Emmc

/-! ## The property -/

/-- The clock gate and divider, the width and sampling fields, and the configurations that
the receive and the transmit port hold. In DDR52 the ports are not looked at. -/
@[ext]
structure Config where
  clkEn : Bool
  clkDivField : ℕ
  dataWidth : ℕ
  samplingMode : Bool
  ports : Option (ℕ × ℕ)
  deriving DecidableEq, Repr

/-- The stored tuning results. -/
structure Stored where
  hs200 : TuningPoint
  hs400 : TuningPoint
  tuned : Timing → Bool

def Modes.stored (m : Modes) : Stored := ⟨m.host.hs200, m.host.hs400, m.tunedTimingModes⟩

def Modes.config (m : Modes) (timing : Timing) : Config :=
  { clkEn := m.clkEn, clkDivField := m.clkDivField, dataWidth := m.dataWidth
    samplingMode := m.samplingMode
    ports := if timing = .mmcDdr52 then none
      else some (m.port EMMC_BASE_CLK_CAL_PORT, m.port EMMC_BASE_CLK_SHIFT_PORT) }

/-- The field that stands for a width. -/
def BusWidth.field : BusWidth → ℕ
  | .w4 => EFX_EMMC_DATA_WIDTH_4BIT
  | .w8 => EFX_EMMC_DATA_WIDTH_8BIT
  | _ => EFX_EMMC_DATA_WIDTH_1BIT

/-- One of the widths and timings that the driver knows. -/
def Ios.Supported (ios : Ios) : Prop :=
  (ios.busWidth = .w1 ∨ ios.busWidth = .w4 ∨ ios.busWidth = .w8) ∧ ∀ code, ios.timing ≠ .other code

/-- Legacy and HS run without a phase. -/
def Ios.Plain (ios : Ios) : Prop := ios.timing = .legacy ∨ ios.timing = .mmcHs

/-- Both ports are as a reset leaves them. -/
def Modes.Unshifted (m : Modes) : Prop :=
  m.port EMMC_BASE_CLK_CAL_PORT = configValue 0 0 EMMC_BASE_CLK_CAL_PORT ∧
    m.port EMMC_BASE_CLK_SHIFT_PORT = configValue 0 0 EMMC_BASE_CLK_SHIFT_PORT

/-- After every call, the configuration is a function of the last `ios` and the stored results
only; the width is the one asked for, and legacy and HS have no phase. -/
def HistoryIndependent (b : Board) (G : Modes → ModeAct → Prop) : Prop :=
  ∃ f : Ios → Stored → Config, ∀ m ios, (modes b).Reach G m → ios.Supported → G m (.setIos ios) →
    (m.setIos b ios).config ios.timing = f ios (m.setIos b ios).stored ∧
      (m.setIos b ios).dataWidth = ios.busWidth.field ∧
      (ios.Plain → (m.setIos b ios).Unshifted)

/-- The port configurations of a mode with a sampling point, its transmit shift after it. -/
def tunedPorts (sampleCount pllShift shift : ℕ) : ℕ × ℕ :=
  let word := configValue sampleCount pllShift EMMC_BASE_CLK_CAL_PORT
  (word, configValue (word >>> 16 &&& 0xFFFF) shift EMMC_BASE_CLK_SHIFT_PORT)

/-- **What an `ios` asks for.** A gated clock has the divider of the probe. -/
def Ios.asked (b : Board) (ios : Ios) (st : Stored) : Config :=
  { clkEn := decide (ios.clock ≠ 0)
    clkDivField := b.divider (if ios.clock = 0 then EFX_EMMC_MIN_FREQ else ios.clock) &&&
      EFX_EMMC_BASE_REG0_CLK_DIV_MASK
    dataWidth := ios.busWidth.field
    samplingMode := decide (ios.timing = .mmcDdr52 ∨ ios.timing = .mmcHs400)
    ports :=
      match ios.timing with
      | .mmcDdr52 => none
      | .mmcHs200 => some (tunedPorts st.hs200.sampleCount st.hs200.pllShift EMMC_BASE_CLK_SHIFT_135)
      | .mmcHs400 =>
        if st.tuned .mmcHs400 then
          some (tunedPorts st.hs400.sampleCount st.hs400.pllShift EMMC_BASE_CLK_SHIFT_90)
        else some (tunedPorts b.hs400DefaultSample b.hs400DefaultPll EMMC_BASE_CLK_SHIFT_90)
      | _ => some (configValue 0 0 EMMC_BASE_CLK_CAL_PORT, configValue 0 0 EMMC_BASE_CLK_SHIFT_PORT) }

/-! ## The condition -/

/-- What a call does not write is in place before it. -/
structure InPlace (b : Board) (m : Modes) (ios : Ios) : Prop where
  gated : ios.clock = 0 →
    m.clkDivField = b.divider EFX_EMMC_MIN_FREQ &&& EFX_EMMC_BASE_REG0_CLK_DIV_MASK
  kept : ios.clock ≠ 0 → ios.clock = m.currentClk →
    m.clkDivField = b.divider ios.clock &&& EFX_EMMC_BASE_REG0_CLK_DIV_MASK
  width : ios.busWidth = .w1 → m.dataWidth = EFX_EMMC_DATA_WIDTH_1BIT
  phase : ios.Plain → m.Unshifted

def Refreshed (b : Board) (m : Modes) : ModeAct → Prop
  | .setIos ios => ios.Supported → InPlace b m ios
  | _ => True

/-! ## The clock -/

variable {b : Board} {m m' : Modes} {ios : Ios}

/-- The base clock is a number of MHz. -/
theorem baseClk_eq (b : Board) : ∃ mhz, 0 < mhz ∧ b.baseClk = mhz * 1000000 := by
  unfold Board.baseClk
  simp only
  split
  · exact ⟨EFX_EMMC_BASE_CLK_FREQ_MHZ, by decide, rfl⟩
  · rename_i hne
    exact ⟨b.caps &&& 0x3FF, by omega, rfl⟩

/-- No clock is divided down to nothing. -/
theorem divider_le (b : Board) {clock : ℕ} (hclock : clock ≠ 0) :
    0 < b.divider clock ∧ b.divider clock ≤ b.baseClk := by
  obtain ⟨mhz, hmhz, hbase⟩ := baseClk_eq b
  unfold Board.divider
  simp only
  set c := if clock > EFX_EMMC_MAX_FREQ then EFX_EMMC_MAX_FREQ else clock with hc
  have hpos : 0 < c := by
    rw [hc]
    split
    · decide
    · exact Nat.pos_of_ne_zero hclock
  split
  · omega
  · rename_i hlt
    have hle : (b.baseClk + c - 1) / c ≤ b.baseClk := by
      rw [Nat.div_le_iff_le_mul_add_pred hpos]
      have hmul : 1 * b.baseClk ≤ c * b.baseClk := Nat.mul_le_mul_right _ hpos
      omega
    have hge : 1 ≤ (b.baseClk + c - 1) / c := (Nat.le_div_iff_mul_le hpos).2 (by omega)
    -- the base clock is even, so rounding an odd divider up stays below it
    split <;> omega

/-- The gate is open when a clock is recorded. -/
def Clocked (m : Modes) : Prop := m.clkEn = true ↔ m.currentClk ≠ 0

theorem setClock_clocked (b : Board) (m : Modes) (clock : ℕ) : Clocked (m.setClock b clock) := by
  unfold Modes.setClock
  split
  · exact ⟨fun h => absurd h (by simp), fun h => absurd rfl h⟩
  · rename_i hne
    obtain ⟨hpos, hle⟩ := divider_le b hne
    have hdiv : b.baseClk / b.divider clock ≠ 0 := Nat.div_ne_zero_iff.2 ⟨by omega, hle⟩
    exact ⟨fun _ => hdiv, fun _ => rfl⟩

/-- Only `efx_emmc_set_clock` touches the gate and the clock on record. -/
structure SameClock (m m' : Modes) : Prop where
  clkEn : m'.clkEn = m.clkEn
  field : m'.clkDivField = m.clkDivField
  currentClk : m'.currentClk = m.currentClk

theorem SameClock.clocked (h : SameClock m m') (hm : Clocked m) : Clocked m' := by
  unfold Clocked
  rw [h.clkEn, h.currentClk]
  exact hm

theorem SameClock.trans {m'' : Modes} (h : SameClock m m') (h' : SameClock m' m'') : SameClock m m'' :=
  ⟨h'.clkEn.trans h.clkEn, h'.field.trans h.field, h'.currentClk.trans h.currentClk⟩

theorem setTiming_clock (b : Board) (m : Modes) (timing : Timing) : SameClock m (m.setTiming b timing) := by
  cases timing with
  | legacy => exact ⟨rfl, rfl, rfl⟩
  | mmcHs => exact ⟨rfl, rfl, rfl⟩
  | mmcDdr52 => exact ⟨rfl, rfl, rfl⟩
  | mmcHs200 =>
    unfold Modes.setTiming
    cases m.tunedTimingModes .mmcHs200 <;> constructor <;> simp
  | mmcHs400 =>
    unfold Modes.setTiming
    cases m.tunedTimingModes .mmcHs400 <;> constructor <;> simp
  | other code => exact ⟨rfl, rfl, rfl⟩

theorem setBusWidth_clock (m : Modes) (width : BusWidth) : SameClock m (m.setBusWidth width) := by
  cases width <;> exact ⟨rfl, rfl, rfl⟩

theorem setTimingConfig_clock (m : Modes) (sampleCount pllShift clkPort : ℕ) :
    SameClock m (m.setTimingConfig sampleCount pllShift clkPort) := ⟨rfl, rfl, rfl⟩

theorem scan_clock (env : TuningEnv) (l : List (ℕ × ℕ)) (map : ℕ → ℕ → Bool) (m : Modes) :
    SameClock m (Modes.scan env l map m).1 := by
  induction l generalizing map m with
  | nil => exact ⟨rfl, rfl, rfl⟩
  | cons p rest ih =>
    obtain ⟨i, j⟩ := p
    have hset := setTimingConfig_clock m i j EMMC_BASE_CLK_CAL_PORT
    unfold Modes.scan
    simp only
    split
    · exact hset
    · exact hset.trans (ih _ _)

theorem tuningSucceeded_clock (m : Modes) : SameClock m m.tuningSucceeded := by
  unfold Modes.tuningSucceeded
  constructor <;> simp

theorem tuningFallback_clock (m : Modes) (n : ℕ) : SameClock m (m.tuningFallback n) := by
  unfold Modes.tuningFallback
  simp only
  split <;> constructor <;> simp

theorem tune_clock (m : Modes) (env : TuningEnv) : SameClock m (m.tune env) := by
  have hscan := scan_clock env (Modes.points m.maxSampleCount) (fun _ _ => false) m
  have hselect : ∀ (m : Modes) map r, SameClock m (m.select map r) := fun _ _ _ => ⟨rfl, rfl, rfl⟩
  have hend : ∀ m : Modes, SameClock m m.endTuning := fun _ => ⟨rfl, rfl, rfl⟩
  unfold Modes.tune
  simp only
  split
  · exact ((hscan.trans (hselect _ _ _)).trans (tuningSucceeded_clock _)).trans (hend _)
  · exact ((hscan.trans (hselect _ _ _)).trans (tuningFallback_clock _ _)).trans (hend _)

theorem restore_clock (m : Modes) : SameClock m m.restore := by
  unfold Modes.restore
  simp only
  split
  · constructor <;> simp
  · split <;> constructor <;> simp

theorem executeTuning_clock (m : Modes) (opcode : ℕ) (env : TuningEnv) :
    SameClock m (m.executeTuning opcode env).1 := by
  have hstart : SameClock m m.startTuning := ⟨rfl, rfl, rfl⟩
  have htake : ∀ m : Modes, SameClock m m.takeRetune := by
    intro m
    unfold Modes.takeRetune
    split <;> exact ⟨rfl, rfl, rfl⟩
  unfold Modes.executeTuning
  simp only
  split
  · exact hstart.trans (restore_clock _)
  · split
    · exact hstart.trans (htake _)
    · split
      · exact hstart.trans (htake _)
      · exact (hstart.trans (htake _)).trans (tune_clock _ env)

/-- **No call leaves the gate and the record of the clock apart.** -/
theorem mode_clocked {a : ModeAct} (hm : Clocked m) (hstep : (modes b).step m a = some m') :
    Clocked m' := by
  cases a with
  | setIos ios =>
    obtain rfl := Option.some.inj hstep
    unfold Modes.setIos
    simp only
    set m₀ : Modes := { m with host := { m.host with timing := ios.timing } } with hm₀
    have h₀ : Clocked m₀ := hm
    have h₁ : Clocked (if ios.clock ≠ m₀.currentClk then m₀.setClock b ios.clock else m₀) := by
      split
      · exact setClock_clocked b m₀ ios.clock
      · exact h₀
    set m₁ := if ios.clock ≠ m₀.currentClk then m₀.setClock b ios.clock else m₀ with hm₁
    have h₂ : Clocked (if ios.busWidth ≠ .w1 then m₁.setBusWidth ios.busWidth else m₁) := by
      split
      · exact (setBusWidth_clock m₁ ios.busWidth).clocked h₁
      · exact h₁
    exact (setTiming_clock b _ ios.timing).clocked h₂
  | switchSent =>
    obtain rfl := Option.some.inj hstep
    exact (setTimingConfig_clock m _ _ _).clocked hm
  | switchDone value =>
    obtain rfl := Option.some.inj hstep
    unfold Modes.switchDone
    split
    · exact (setTimingConfig_clock m _ _ _).clocked hm
    · split
      · exact (setTimingConfig_clock m _ _ _).clocked hm
      · exact hm
  | executeTuning opcode env =>
    obtain rfl := Option.some.inj hstep
    exact (executeTuning_clock m opcode env).clocked hm
  | retuneWork env =>
    obtain ⟨-, rfl⟩ := of_guard hstep
    unfold Modes.hs400RetuneWork
    simp only
    split
    · refine (executeTuning_clock _ _ env).clocked ?_
      exact hm
    · exact hm

theorem reach_clocked {G : Modes → ModeAct → Prop} (hr : (modes b).Reach G m) : Clocked m := by
  refine hr.invariant ?_ fun _ _ _ hm _ hstep => mode_clocked hm hstep
  rintro _ rfl
  exact setClock_clocked b _ _

/-! ## One call -/

/-- The clock and the width are set before the timing, which leaves them alone. -/
theorem setIos_cases (b : Board) (m : Modes) {ios : Ios} (hsup : ios.Supported) :
    ∃ m₂ : Modes, m.setIos b ios = m₂.setTiming b ios.timing ∧ m₂.port = m.port ∧
      m₂.dataWidth = (if ios.busWidth = .w1 then m.dataWidth else ios.busWidth.field) ∧
      (m₂.clkEn, m₂.clkDivField) =
        if ios.clock = m.currentClk then (m.clkEn, m.clkDivField)
        else if ios.clock = 0 then (false, m.clkDivField)
        else (true, b.divider ios.clock &&& EFX_EMMC_BASE_REG0_CLK_DIV_MASK) := by
  refine ⟨_, rfl, ?_, ?_, ?_⟩
  · have hclock : ∀ m : Modes, (m.setClock b ios.clock).port = m.port := by
      intro m
      unfold Modes.setClock
      split <;> rfl
    have hwidth : ∀ m : Modes, (m.setBusWidth ios.busWidth).port = m.port := by
      intro m
      unfold Modes.setBusWidth
      split <;> rfl
    simp only [ne_eq, ite_not]
    split <;> split <;> simp only [hclock, hwidth]
  · have hclock : ∀ m : Modes, (m.setClock b ios.clock).dataWidth = m.dataWidth := by
      intro m
      unfold Modes.setClock
      split <;> rfl
    have hwidth : ∀ m : Modes, ios.busWidth ≠ .w1 → (m.setBusWidth ios.busWidth).dataWidth = ios.busWidth.field := by
      intro m hne
      rcases hsup.1 with h | h | h
      · exact absurd h hne
      · rw [h]; rfl
      · rw [h]; rfl
    simp only [ne_eq, ite_not]
    by_cases hw : ios.busWidth = .w1
    · rw [if_pos hw, if_pos hw]
      split <;> simp only [hclock]
    · rw [if_neg hw, if_neg hw, hwidth _ hw]
  · simp only [ne_eq, ite_not]
    by_cases hc : ios.clock = m.currentClk
    · simp only [if_pos hc]
      split
      · rfl
      · rw [(setBusWidth_clock _ _).clkEn, (setBusWidth_clock _ _).field]
    · simp only [if_neg hc]
      by_cases hzero : ios.clock = 0
      · rw [if_pos hzero]
        split
        · unfold Modes.setClock
          rw [if_pos hzero]
        · rw [(setBusWidth_clock _ _).clkEn, (setBusWidth_clock _ _).field]
          unfold Modes.setClock
          rw [if_pos hzero]
      · rw [if_neg hzero]
        split
        · unfold Modes.setClock
          rw [if_neg hzero]
        · rw [(setBusWidth_clock _ _).clkEn, (setBusWidth_clock _ _).field]
          unfold Modes.setClock
          rw [if_neg hzero]

/-- What `efx_emmc_set_timing` leaves: the width, the sampling field and the two ports, from
the results that are stored after it. -/
theorem setTiming_config (b : Board) (m : Modes) {timing : Timing} (hknown : ∀ code, timing ≠ .other code) :
    (m.setTiming b timing).dataWidth = m.dataWidth ∧
    (m.setTiming b timing).samplingMode = decide (timing = .mmcDdr52 ∨ timing = .mmcHs400) ∧
    ((timing = .legacy ∨ timing = .mmcHs) → (m.setTiming b timing).port = m.port) ∧
    (timing = .mmcHs200 → ((m.setTiming b timing).port EMMC_BASE_CLK_CAL_PORT,
        (m.setTiming b timing).port EMMC_BASE_CLK_SHIFT_PORT) =
      tunedPorts (m.setTiming b timing).host.hs200.sampleCount (m.setTiming b timing).host.hs200.pllShift
        EMMC_BASE_CLK_SHIFT_135) ∧
    (timing = .mmcHs400 → ((m.setTiming b timing).port EMMC_BASE_CLK_CAL_PORT,
        (m.setTiming b timing).port EMMC_BASE_CLK_SHIFT_PORT) =
      if (m.setTiming b timing).tunedTimingModes .mmcHs400 then
        tunedPorts (m.setTiming b timing).host.hs400.sampleCount (m.setTiming b timing).host.hs400.pllShift
          EMMC_BASE_CLK_SHIFT_90
      else tunedPorts b.hs400DefaultSample b.hs400DefaultPll EMMC_BASE_CLK_SHIFT_90) := by
  have hports : EMMC_BASE_CLK_CAL_PORT ≠ EMMC_BASE_CLK_SHIFT_PORT := by decide
  have hhost : ∀ (h : Host) s p k, (h.setTimingConfig s p k).hs200 = h.hs200 ∧
      (h.setTimingConfig s p k).hs400 = h.hs400 := fun _ _ _ _ => ⟨rfl, rfl⟩
  cases timing with
  | legacy => exact ⟨rfl, rfl, fun _ => rfl, fun h => absurd h (by simp), fun h => absurd h (by simp)⟩
  | mmcHs => exact ⟨rfl, rfl, fun _ => rfl, fun h => absurd h (by simp), fun h => absurd h (by simp)⟩
  | mmcDdr52 =>
    exact ⟨rfl, rfl, fun h => absurd h (by simp), fun h => absurd h (by simp), fun h => absurd h (by simp)⟩
  | mmcHs200 =>
    unfold Modes.setTiming
    cases m.tunedTimingModes .mmcHs200 <;> simp [tunedPorts, hports, hhost]
  | mmcHs400 =>
    unfold Modes.setTiming
    cases htuned : m.tunedTimingModes .mmcHs400 <;> simp [tunedPorts, hports, hhost, htuned]
  | other code => exact absurd rfl (hknown code)

/-- The gate is as asked for, and the divider if it is in place where it is not written. -/
theorem clock_asked (hm : Clocked m) {en : Bool} {field : ℕ}
    (he : (en, field) = if ios.clock = m.currentClk then (m.clkEn, m.clkDivField)
      else if ios.clock = 0 then (false, m.clkDivField)
      else (true, b.divider ios.clock &&& EFX_EMMC_BASE_REG0_CLK_DIV_MASK)) :
    en = decide (ios.clock ≠ 0) ∧
      (field = b.divider (if ios.clock = 0 then EFX_EMMC_MIN_FREQ else ios.clock) &&&
          EFX_EMMC_BASE_REG0_CLK_DIV_MASK ↔
        (ios.clock = 0 → m.clkDivField = b.divider EFX_EMMC_MIN_FREQ &&& EFX_EMMC_BASE_REG0_CLK_DIV_MASK) ∧
          (ios.clock ≠ 0 → ios.clock = m.currentClk →
            m.clkDivField = b.divider ios.clock &&& EFX_EMMC_BASE_REG0_CLK_DIV_MASK)) := by
  have hgate : m.clkEn = decide (m.currentClk ≠ 0) := by
    cases hen : m.clkEn with
    | true => exact (decide_eq_true (hm.1 hen)).symm
    | false =>
      refine (decide_eq_false ?_).symm
      intro hne
      rw [hm.2 hne] at hen
      exact absurd hen (by simp)
  by_cases hsame : ios.clock = m.currentClk
  · -- nothing is written
    rw [if_pos hsame] at he
    obtain ⟨rfl, rfl⟩ := Prod.mk.inj he
    refine ⟨by rw [hgate, hsame], ?_⟩
    by_cases hzero : ios.clock = 0
    · rw [if_pos hzero]
      exact ⟨fun h => ⟨fun _ => h, fun hne => absurd hzero hne⟩, fun h => h.1 hzero⟩
    · rw [if_neg hzero]
      exact ⟨fun h => ⟨fun hz => absurd hz hzero, fun _ _ => h⟩, fun h => h.2 hzero hsame⟩
  · rw [if_neg hsame] at he
    by_cases hzero : ios.clock = 0
    · -- the gate is closed, the divider stays
      rw [if_pos hzero] at he ⊢
      obtain ⟨rfl, rfl⟩ := Prod.mk.inj he
      refine ⟨(decide_eq_false fun hne => hne hzero).symm, ?_⟩
      exact ⟨fun h => ⟨fun _ => h, fun hne => absurd hzero hne⟩, fun h => h.1 hzero⟩
    · rw [if_neg hzero] at he ⊢
      obtain ⟨rfl, rfl⟩ := Prod.mk.inj he
      refine ⟨(decide_eq_true hzero).symm, ?_⟩
      exact ⟨fun _ => ⟨fun hz => absurd hz hzero, fun _ hs => absurd hs hsame⟩, fun _ => rfl⟩

/-- What is asked of one call. -/
structure AsAsked (b : Board) (m : Modes) (ios : Ios) : Prop where
  config : (m.setIos b ios).config ios.timing = ios.asked b (m.setIos b ios).stored
  width : (m.setIos b ios).dataWidth = ios.busWidth.field
  unshifted : ios.Plain → (m.setIos b ios).Unshifted

/-- **A call leaves what its `ios` asks for iff what it does not write is in place.** -/
theorem asAsked_iff (hm : Clocked m) (hsup : ios.Supported) : AsAsked b m ios ↔ InPlace b m ios := by
  obtain ⟨m₂, he, hport, hwidth, hclock⟩ := setIos_cases b m hsup
  obtain ⟨hw, hsampling, hplain, h200, h400⟩ := setTiming_config b m₂ hsup.2
  have hkeep := setTiming_clock b m₂ ios.timing
  obtain ⟨hgate, hdiv⟩ := clock_asked (b := b) hm hclock
  -- the width is in place iff it is written or was the one asked for
  have hwidth' : m₂.dataWidth = ios.busWidth.field ↔
      (ios.busWidth = .w1 → m.dataWidth = EFX_EMMC_DATA_WIDTH_1BIT) := by
    rw [hwidth]
    by_cases hone : ios.busWidth = .w1
    · rw [if_pos hone, hone]
      exact ⟨fun h _ => h, fun h => h rfl⟩
    · rw [if_neg hone]
      exact ⟨fun _ h => absurd h hone, fun _ => rfl⟩
  have hunshifted : ios.Plain → ((m₂.setTiming b ios.timing).Unshifted ↔ m.Unshifted) := by
    intro hp
    unfold Modes.Unshifted
    rw [hplain hp, hport]
  constructor
  · rintro ⟨hconfig, hbits, hphase⟩
    rw [he] at hconfig hbits hphase
    have hfield : m₂.clkDivField =
        b.divider (if ios.clock = 0 then EFX_EMMC_MIN_FREQ else ios.clock) &&&
          EFX_EMMC_BASE_REG0_CLK_DIV_MASK := by
      rw [← hkeep.field]
      exact congrArg Config.clkDivField hconfig
    obtain ⟨hgated, hkept⟩ := hdiv.1 hfield
    exact ⟨hgated, hkept, hwidth'.1 (hw ▸ hbits), fun hp => (hunshifted hp).1 (hphase hp)⟩
  · rintro ⟨hgated, hkept, hone, hphase⟩
    have hbits : (m₂.setTiming b ios.timing).dataWidth = ios.busWidth.field := hw.trans (hwidth'.2 hone)
    have hfield := hdiv.2 ⟨hgated, hkept⟩
    have hports : ((m₂.setTiming b ios.timing).config ios.timing).ports =
        (ios.asked b (m₂.setTiming b ios.timing).stored).ports := by
      unfold Modes.config Ios.asked
      simp only
      cases htiming : ios.timing with
      | legacy =>
        obtain ⟨hrx, htx⟩ := (hunshifted (Or.inl htiming)).2 (hphase (Or.inl htiming))
        rw [htiming] at hrx htx
        rw [hrx, htx]
        rfl
      | mmcHs =>
        obtain ⟨hrx, htx⟩ := (hunshifted (Or.inr htiming)).2 (hphase (Or.inr htiming))
        rw [htiming] at hrx htx
        rw [hrx, htx]
        rfl
      | mmcDdr52 => rfl
      | mmcHs200 =>
        have hp := h200 htiming
        rw [htiming] at hp
        exact congrArg some hp
      | mmcHs400 =>
        have hp := h400 htiming
        rw [htiming] at hp
        rw [if_neg (by simp), hp]
        exact apply_ite some _ _ _
      | other code => exact absurd htiming (hsup.2 code)
    refine ⟨?_, ?_, ?_⟩
    · rw [he]
      have hen : (m₂.setTiming b ios.timing).clkEn = decide (ios.clock ≠ 0) := hkeep.clkEn.trans hgate
      exact Config.ext hen (hkeep.field.trans hfield) hbits hsampling hports
    · rw [he]
      exact hbits
    · intro hp
      rw [he]
      exact (hunshifted hp).2 (hphase hp)

/-! ## Runs -/

/-- **The configuration is a function of the last `ios` and the stored results** in every run
whose calls find in place what they do not write; in any run, a call leaves what is asked
for exactly then. -/
theorem set_ios_history_independent (b : Board) :
    HistoryIndependent b (Refreshed b) ∧
      ∀ m ios, (modes b).Reach (fun _ _ => True) m → ios.Supported →
        (AsAsked b m ios ↔ InPlace b m ios) := by
  refine ⟨⟨Ios.asked b, ?_⟩, fun m ios hr hsup => asAsked_iff (reach_clocked hr) hsup⟩
  intro m ios hr hsup hg
  obtain ⟨hconfig, hwidth, hunshifted⟩ := (asAsked_iff (reach_clocked hr) hsup).2 (hg hsup)
  exact ⟨hconfig, hwidth, hunshifted⟩

/-- A controller at 200 MHz, without options. -/
def board200 : Board :=
  { caps := 0, hs400DefaultSample := 0, hs400DefaultPll := 6, tuningFirstHalfSample := false
    tuningResultSelectionEdge := false }

/-- From the identification of the card to HS200. -/
theorem set_ios_bring_up :
    ∃ m, (modes board200).exec (.probed board200)
        [.setIos ⟨0, .w1, .legacy⟩, .setIos ⟨400000, .w1, .legacy⟩, .switchSent, .switchDone 1,
          .setIos ⟨50000000, .w8, .mmcHs⟩, .switchSent] = some m ∧
      AsAsked board200 m ⟨200000000, .w8, .mmcHs200⟩ := by
  have hrun : ((modes board200).exec (.probed board200)
      [.setIos ⟨0, .w1, .legacy⟩, .setIos ⟨400000, .w1, .legacy⟩, .switchSent, .switchDone 1,
        .setIos ⟨50000000, .w8, .mmcHs⟩, .switchSent]).map (·.currentClk) = some 50000000 := by
    decide +kernel
  obtain ⟨m, hexec, hclk⟩ := Option.map_eq_some_iff.1 hrun
  have hreach : (modes board200).Reach (fun _ _ => True) m := .of_exec rfl (Machine.along_true _ _) hexec
  have hsup : (⟨200000000, .w8, .mmcHs200⟩ : Ios).Supported :=
    ⟨Or.inr (Or.inr rfl), fun _ h => absurd h (by simp)⟩
  refine ⟨m, hexec, ((set_ios_history_independent board200).2 m _ hreach hsup).2 ?_⟩
  refine ⟨fun h => absurd h (by simp), ?_, fun h => absurd h (by simp), ?_⟩
  · intro _ h
    rw [hclk] at h
    exact absurd h (by simp)
  · intro h
    rcases h with h | h <;> exact absurd h (by simp)

/-- In legacy and HS no result is stored. -/
theorem setIos_stored (b : Board) (m : Modes) (hp : ios.Plain) : (m.setIos b ios).stored = m.stored := by
  have hclock : ∀ m : Modes, (m.setClock b ios.clock).stored = m.stored := by
    intro m
    unfold Modes.setClock
    split <;> rfl
  have hwidth : ∀ m : Modes, (m.setBusWidth ios.busWidth).stored = m.stored := by
    intro m
    unfold Modes.setBusWidth
    split <;> rfl
  have htiming : ∀ m : Modes, (m.setTiming b ios.timing).stored = m.stored := by
    intro m
    rcases hp with h | h <;> rw [h] <;> rfl
  set m₀ : Modes := { m with host := { m.host with timing := ios.timing } } with hm₀
  have hbefore : m₀.stored = m.stored := rfl
  unfold Modes.setIos
  simp only [htiming, ← hm₀]
  split <;> split
  · rw [hwidth, hclock, hbefore]
  · rw [hwidth, hbefore]
  · rw [hclock, hbefore]
  · exact hbefore

/-- **After 8 bits, a call for 1 bit leaves the bus at 8**, which the same call after the
probe does not. -/
theorem width_survives : ¬HistoryIndependent board200 fun _ _ => True := by
  rintro ⟨f, hf⟩
  have hsup : (⟨400000, .w1, .legacy⟩ : Ios).Supported := ⟨Or.inl rfl, fun _ h => absurd h (by simp)⟩
  have hprobed : (modes board200).Reach (fun _ _ => True) (.probed board200) := .init rfl
  have hwide : (modes board200).Reach (fun _ _ => True)
      ((Modes.probed board200).setIos board200 ⟨400000, .w8, .legacy⟩) :=
    hprobed.step (a := .setIos ⟨400000, .w8, .legacy⟩) trivial rfl
  have hfresh := (hf _ _ hprobed hsup trivial).1
  have hstale := (hf _ _ hwide hsup trivial).1
  have hstored : ((((Modes.probed board200).setIos board200 ⟨400000, .w8, .legacy⟩).setIos board200
      ⟨400000, .w1, .legacy⟩).stored) =
      ((Modes.probed board200).setIos board200 ⟨400000, .w1, .legacy⟩).stored := by
    rw [setIos_stored _ _ (Or.inl rfl), setIos_stored _ _ (Or.inl rfl), setIos_stored _ _ (Or.inl rfl)]
  rw [hstored, ← hfresh] at hstale
  have hwidth := congrArg Config.dataWidth hstale
  exact absurd hwidth (by decide +kernel)

end Br2Efinix.Emmc
