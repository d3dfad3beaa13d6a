import Br2Efinix.Emmc.SetIos

/-!
# What a tuned mode stands for

The stored sampling points of HS200 and HS400 against the last scan in each mode.

* `tuned_points_pass`: **the point of a tuned mode passed in the last scan** in every run
  whose scans find a passing point, and a step keeps it exactly then; it frees nothing
  unassigned besides exactly when the selection gets its memory.
* `tuned_without_point`: HS200 is tuned when no point passes.
-/

namespace Br2Efinix.Emmc

open Runs

/-! ## The property -/

/-- A tuned mode's stored point passed in the last scan in that mode. A scan ends with its
last point or when the five seconds are over. -/
structure TunedPointsPass (m : Modes) : Prop where
  hs200 : m.tunedTimingModes .mmcHs200 = true →
    m.scans .mmcHs200 m.host.hs200.sampleCount m.host.hs200.pllShift = true
  hs400 : m.tunedTimingModes .mmcHs400 = true →
    m.scans .mmcHs400 m.host.hs400.sampleCount m.host.hs400.pllShift = true

/-! ## The condition -/

namespace Modes

/-- `tuning_result_map` after a scan. -/
def resultMap (m : Modes) (env : TuningEnv) : ℕ → ℕ → Bool :=
  (scan env (points m.maxSampleCount) (fun _ _ => false) m).2

/-- `efx_emmc_execute_tuning` gets to its scan. -/
def scansNow (m : Modes) (opcode : ℕ) (env : TuningEnv) : Prop :=
  m.skips = false ∧ (opcode = MMC_SEND_TUNING_BLOCK ∨ opcode = MMC_SEND_TUNING_BLOCK_HS200) ∧
    env.mapAlloc = true

/-- The host as its scan begins. -/
def scanning (m : Modes) : Modes := m.startTuning.takeRetune

/-- The scan in HS200 or HS400 finds a passing point and its selection gets the memory it
needs; without memory, the fallback passes, or is for an HS400 that is not tuned. -/
def Found (m : Modes) (env : TuningEnv) : Prop :=
  m.host.timing = .mmcHs200 ∨ m.host.timing = .mmcHs400 →
    (env.selectAlloc = true ∧ Passes (m.resultMap env) m.maxSampleCount) ∨
    (env.selectAlloc = false ∧
      (m.resultMap env (fallback m.maxSampleCount).sampleCount (fallback m.maxSampleCount).pllShift = true ∨
        (m.host.timing = .mmcHs400 ∧ m.tunedTimingModes .mmcHs400 = false)))

/-- What holds of the scan that a step makes, if it makes one. -/
def OfScan (P : Modes → TuningEnv → Prop) (m : Modes) : ModeAct → Prop
  | .executeTuning opcode env => m.scansNow opcode env → P m.scanning env
  | .retuneWork env => m.hs400RetunePending = true → m.host.timing = .mmcHs400 →
      env.mapAlloc = true → P { m with retuneQueued := false }.scanning env
  | _ => True

/-- The selection that a tuning makes. -/
def selection (m : Modes) (env : TuningEnv) : TimingResult :=
  findOptimalTiming env.selectAlloc
    (scan env (points m.maxSampleCount) (fun _ _ => false) m).1.host (m.resultMap env)
    m.maxSampleCount

end Modes

/-- A step's scan finds a point, and its selection gets the memory of a flat map. -/
def Tested : Modes → ModeAct → Prop :=
  Modes.OfScan fun m env => m.Found env ∧ (8 < m.maxSampleCount ∨ env.selectAlloc = true)

/-- A step's selection frees only what it allocated. -/
def FreesAllocated : Modes → ModeAct → Prop :=
  Modes.OfScan fun m env => .kfreeUninit ∉ (m.selection env).heap

/-! ## What the selection stores -/

variable {resultMap : ℕ → ℕ → Bool} {n : ℕ} {h : Host}

/-- A selection that returns 0 is a point of the map. -/
theorem selected_range (kmallocOk : Bool) (h : Host) (hn : 1 ≤ n)
    (hret : (findOptimalTiming kmallocOk h resultMap n).ret = 0) :
    (findOptimalTiming kmallocOk h resultMap n).selected.sampleCount < n ∧
      (findOptimalTiming kmallocOk h resultMap n).selected.pllShift < EFX_EMMC_MAX_PLL_SHIFT := by
  cases kmallocOk with
  | false =>
    rw [no_memory] at hret
    exact absurd hret (by decide)
  | true =>
    unfold findOptimalTiming at hret ⊢
    by_cases h8 : n > 8
    · rw [if_pos h8] at hret ⊢
      obtain ⟨i, hi, he, -, hsel⟩ := rows_eq h resultMap (show 0 < n by omega)
      rw [hsel, findCenter_eq]
      refine ⟨hi, ?_⟩
      have hrun := (best_spec (resultMap i) EFX_EMMC_MAX_PLL_SHIFT).run.1
      simp only
      split
      · decide
      · rw [Int.toNat_natCast]
        omega
    · rw [if_neg h8] at hret ⊢
      have hpos : 0 < n * EFX_EMMC_MAX_PLL_SHIFT := by unfold EFX_EMMC_MAX_PLL_SHIFT; omega
      unfold findOptimalTimingFlat at hret ⊢
      simp only [Bool.not_true, Bool.false_eq_true, if_false] at hret ⊢
      split at hret
      · exact absurd hret (show -ENODEV ≠ 0 by decide)
      · rename_i hidx
        rw [if_neg hidx]
        have hlt := Nat.mod_lt (selectIndex h (flatMap resultMap n) (n * EFX_EMMC_MAX_PLL_SHIFT * 2)).toNat hpos
        refine ⟨?_, Nat.mod_lt _ (by decide)⟩
        simp only
        rw [Nat.div_lt_iff_lt_mul (by decide)]
        exact hlt

/-- With a passing point, the selected one passes. -/
theorem selected_passes (h : Host) (hp : Passes resultMap n) :
    (findOptimalTiming true h resultMap n).ret = 0 ∧
      resultMap (findOptimalTiming true h resultMap n).selected.sampleCount
        (findOptimalTiming true h resultMap n).selected.pllShift = true := by
  unfold findOptimalTiming
  by_cases h8 : n > 8
  · rw [if_pos h8]
    obtain ⟨i, -, -, hret, -⟩ := rows_eq h resultMap (show 0 < n by omega)
    exact ⟨hret, (rows_selected h hp).passes⟩
  · rw [if_neg h8]
    obtain ⟨k, hkn, hkp⟩ := (passes_iff_point resultMap n true).1 hp
    set N := n * EFX_EMMC_MAX_PLL_SHIFT with hN
    rcases hb : best (doubled (point resultMap) N) (N * 2) with ⟨l, s⟩
    have hspec := best_spec (doubled (point resultMap) N) (N * 2)
    rw [hb] at hspec
    simp only at hspec
    have hl : 0 < l := hspec.pos_iff.2 ⟨k, by omega, by rw [doubled, Nat.mod_eq_of_lt hkn]; exact hkp⟩
    obtain ⟨hret, -, hs, hpl⟩ := (flat_eq h resultMap n hb).2.2 hl
    refine ⟨hret, ?_⟩
    -- the point is in the run, which passes
    have hpass := hspec.run.2 _ (h.pick.offset_lt hl)
    rw [hs, hpl]
    exact hpass

/-- The host after a selection. -/
theorem selected_host (kmallocOk : Bool) (h : Host) (resultMap : ℕ → ℕ → Bool) (n : ℕ) :
    (findOptimalTiming kmallocOk h resultMap n).host =
      if (findOptimalTiming kmallocOk h resultMap n).ret = 0 then
        h.storeTiming (findOptimalTiming kmallocOk h resultMap n).selected
      else h := by
  unfold findOptimalTiming
  split
  · split
    · rename_i hret
      exact rows_stored kmallocOk h resultMap n hret
    · rename_i hret
      unfold findOptimalTimingRows at hret ⊢
      simp only at hret ⊢
      split
      · rfl
      · rename_i hok
        rw [if_neg hok] at hret
        split at hret
        · rfl
        · exact absurd rfl hret
  · split
    · rename_i hret
      exact flat_stored kmallocOk h resultMap n hret
    · rename_i hret
      unfold findOptimalTimingFlat at hret ⊢
      simp only at hret ⊢
      split
      · rfl
      · rename_i hok
        rw [if_neg hok] at hret
        split
        · rfl
        · rename_i hidx
          rw [if_neg hidx] at hret
          exact absurd rfl hret

/-- HS400 selects the centre of nothing, too. -/
theorem selected_hs400 (hmode : h.timing = .mmcHs400) (resultMap : ℕ → ℕ → Bool) (n : ℕ) :
    (findOptimalTiming true h resultMap n).ret = 0 := by
  unfold findOptimalTiming
  by_cases h8 : n > 8
  · rw [if_pos h8]
    obtain ⟨i, -, -, hret, -⟩ := rows_eq h resultMap (show 0 < n by omega)
    exact hret
  · rw [if_neg h8]
    rcases hb : best (doubled (point resultMap) (n * EFX_EMMC_MAX_PLL_SHIFT))
      (n * EFX_EMMC_MAX_PLL_SHIFT * 2) with ⟨l, s⟩
    obtain ⟨hnone, -, hsome⟩ := flat_eq h resultMap n hb
    rcases Nat.eq_zero_or_pos l with hl | hl
    · have hpick : h.pick = .center := by unfold Host.pick; rw [if_pos hmode]
      exact hnone hl hpick
    · exact (hsome hl).1

/-! ## What the calls leave alone -/

variable {m m' : Modes}

/-- The stored points, their scans and the marks of the two modes. -/
structure SamePoints (m m' : Modes) : Prop where
  hs200 : m'.host.hs200 = m.host.hs200
  hs400 : m'.host.hs400 = m.host.hs400
  scans : m'.scans = m.scans
  tuned200 : m'.tunedTimingModes .mmcHs200 = m.tunedTimingModes .mmcHs200
  tuned400 : m'.tunedTimingModes .mmcHs400 = m.tunedTimingModes .mmcHs400

theorem SamePoints.refl (m : Modes) : SamePoints m m := ⟨rfl, rfl, rfl, rfl, rfl⟩

theorem SamePoints.trans {m'' : Modes} (h : SamePoints m m') (h' : SamePoints m' m'') : SamePoints m m'' :=
  ⟨h'.hs200.trans h.hs200, h'.hs400.trans h.hs400, h'.scans.trans h.scans, h'.tuned200.trans h.tuned200,
    h'.tuned400.trans h.tuned400⟩

theorem SamePoints.pass (h : SamePoints m m') (hm : TunedPointsPass m) : TunedPointsPass m' := by
  refine ⟨?_, ?_⟩
  · intro ht
    rw [h.scans, h.hs200]
    exact hm.hs200 (h.tuned200 ▸ ht)
  · intro ht
    rw [h.scans, h.hs400]
    exact hm.hs400 (h.tuned400 ▸ ht)

/-- A configuration only writes registers of the host. -/
theorem setTimingConfig_frame (h : Host) (sampleCount pllShift clkPort : ℕ) :
    (h.setTimingConfig sampleCount pllShift clkPort).hs200 = h.hs200 ∧
      (h.setTimingConfig sampleCount pllShift clkPort).hs400 = h.hs400 ∧
      (h.setTimingConfig sampleCount pllShift clkPort).timing = h.timing ∧
      (h.setTimingConfig sampleCount pllShift clkPort).tuningFirstHalfSample = h.tuningFirstHalfSample := by
  have hwrite : ∀ (h : Host) reg val, (h.writel reg val).hs200 = h.hs200 ∧ (h.writel reg val).hs400 = h.hs400 ∧
      (h.writel reg val).timing = h.timing ∧
      (h.writel reg val).tuningFirstHalfSample = h.tuningFirstHalfSample := fun _ _ _ => ⟨rfl, rfl, rfl, rfl⟩
  unfold Host.setTimingConfig
  simp only [hwrite, and_self]

theorem setTimingConfig_points (m : Modes) (sampleCount pllShift clkPort : ℕ) :
    SamePoints m (m.setTimingConfig sampleCount pllShift clkPort) := by
  obtain ⟨h200, h400, -⟩ := setTimingConfig_frame m.host sampleCount pllShift clkPort
  unfold Modes.setTimingConfig
  exact ⟨h200, h400, rfl, rfl, rfl⟩

theorem setTiming_points (b : Board) (m : Modes) (timing : Timing) :
    SamePoints m (m.setTiming b timing) := by
  have hscans : ∀ (m : Modes) s p k, (m.setTimingConfig s p k).scans = m.scans := fun _ _ _ _ => by
    simp only [Modes.setTimingConfig]
  cases timing with
  | legacy => exact ⟨rfl, rfl, rfl, rfl, rfl⟩
  | mmcHs => exact ⟨rfl, rfl, rfl, rfl, rfl⟩
  | mmcDdr52 => exact ⟨rfl, rfl, rfl, rfl, rfl⟩
  | mmcHs200 =>
    unfold Modes.setTiming
    cases m.tunedTimingModes .mmcHs200 <;> constructor <;> simp [setTimingConfig_frame, hscans]
  | mmcHs400 =>
    unfold Modes.setTiming
    cases m.tunedTimingModes .mmcHs400 <;> constructor <;> simp [setTimingConfig_frame, hscans]
  | other code => exact ⟨rfl, rfl, rfl, rfl, rfl⟩

theorem setIos_points (b : Board) (m : Modes) (ios : Ios) : SamePoints m (m.setIos b ios) := by
  have hclock : ∀ m : Modes, SamePoints m (m.setClock b ios.clock) := by
    intro m
    unfold Modes.setClock
    split <;> exact ⟨rfl, rfl, rfl, rfl, rfl⟩
  have hwidth : ∀ m : Modes, SamePoints m (m.setBusWidth ios.busWidth) := by
    intro m
    unfold Modes.setBusWidth
    split <;> exact ⟨rfl, rfl, rfl, rfl, rfl⟩
  set m₀ : Modes := { m with host := { m.host with timing := ios.timing } } with hm₀
  have h₀ : SamePoints m m₀ := ⟨rfl, rfl, rfl, rfl, rfl⟩
  unfold Modes.setIos
  simp only [← hm₀]
  refine SamePoints.trans ?_ (setTiming_points b _ ios.timing)
  split <;> split
  · exact (h₀.trans (hclock _)).trans (hwidth _)
  · exact h₀.trans (hwidth _)
  · exact h₀.trans (hclock _)
  · exact h₀

theorem switchDone_points (m : Modes) (value : ℕ) : SamePoints m (m.switchDone value) := by
  unfold Modes.switchDone
  split
  · exact setTimingConfig_points m _ _ _
  · split
    · exact setTimingConfig_points m _ _ _
    · exact .refl m

theorem restore_points (m : Modes) : SamePoints m m.restore := by
  have hshift : ∀ (m : Modes) p, SamePoints m (m.baseClkShift p) := fun m p =>
    setTimingConfig_points m _ p EMMC_BASE_CLK_SHIFT_PORT
  unfold Modes.restore
  simp only
  split
  · exact (setTimingConfig_points m _ _ _).trans (hshift _ _)
  · split
    · exact (setTimingConfig_points m _ _ _).trans (hshift _ _)
    · exact setTimingConfig_points m _ _ _

theorem takeRetune_points (m : Modes) :
    SamePoints m m.takeRetune ∧ m.takeRetune.host = m.host ∧ m.takeRetune.clkDiv = m.clkDiv := by
  unfold Modes.takeRetune
  split <;> exact ⟨⟨rfl, rfl, rfl, rfl, rfl⟩, rfl, rfl⟩

/-- What a scan leaves alone. -/
theorem scan_points (env : TuningEnv) (l : List (ℕ × ℕ)) (map : ℕ → ℕ → Bool) (m : Modes) :
    SamePoints m (Modes.scan env l map m).1 ∧ (Modes.scan env l map m).1.host.timing = m.host.timing ∧
      (Modes.scan env l map m).1.tunedTimingModes = m.tunedTimingModes := by
  induction l generalizing map m with
  | nil => exact ⟨.refl m, rfl, rfl⟩
  | cons p rest ih =>
    obtain ⟨i, j⟩ := p
    have hset := setTimingConfig_points m i j EMMC_BASE_CLK_CAL_PORT
    have htime : (m.setTimingConfig i j EMMC_BASE_CLK_CAL_PORT).host.timing = m.host.timing := by
      rw [Modes.setTimingConfig_host]
      exact (setTimingConfig_frame m.host i j EMMC_BASE_CLK_CAL_PORT).2.2.1
    have hmark : (m.setTimingConfig i j EMMC_BASE_CLK_CAL_PORT).tunedTimingModes = m.tunedTimingModes := by
      simp only [Modes.setTimingConfig]
    unfold Modes.scan
    simp only
    split
    · exact ⟨hset, htime, hmark⟩
    · obtain ⟨hrest, htiming, hmarks⟩ := ih (fun a c => if a = i ∧ c = j then
        tuningAccepts (m.setTimingConfig i j EMMC_BASE_CLK_CAL_PORT).host (env.probes.pass i j)
          (env.probes.adjustment i j) else map a c) (m.setTimingConfig i j EMMC_BASE_CLK_CAL_PORT)
      exact ⟨hset.trans hrest, htiming.trans htime, hmarks.trans hmark⟩

/-- The map says of a point that was tried what the probe found. -/
theorem scan_map (env : TuningEnv) (l : List (ℕ × ℕ)) (map : ℕ → ℕ → Bool) (m : Modes) (a c : ℕ) :
    (Modes.scan env l map m).2 a c =
      if (a, c) ∈ Modes.tried env.late l then tuningAccepts m.host (env.probes.pass a c) (env.probes.adjustment a c)
      else map a c := by
  induction l generalizing map m with
  | nil => rfl
  | cons p rest ih =>
    obtain ⟨i, j⟩ := p
    -- the configuration has no say in what is accepted
    have haccept : ∀ pass adjustment,
        tuningAccepts (m.setTimingConfig i j EMMC_BASE_CLK_CAL_PORT).host pass adjustment =
          tuningAccepts m.host pass adjustment := by
      obtain ⟨-, -, htime, hhalf⟩ := setTimingConfig_frame m.host i j EMMC_BASE_CLK_CAL_PORT
      intro pass adjustment
      unfold tuningAccepts
      rw [Modes.setTimingConfig_host, htime, hhalf]
    unfold Modes.scan Modes.tried
    simp only
    by_cases hlate : env.late i j = true
    · rw [if_pos hlate, if_pos hlate]
      simp only [haccept, List.mem_singleton, Prod.mk.injEq]
      by_cases hac : a = i ∧ c = j
      · rw [if_pos hac, if_pos hac, hac.1, hac.2]
      · rw [if_neg hac, if_neg hac]
    · rw [if_neg hlate, if_neg hlate, ih]
      simp only [haccept, List.mem_cons, Prod.mk.injEq]
      by_cases hrest : (a, c) ∈ Modes.tried env.late rest
      · rw [if_pos hrest, if_pos (Or.inr hrest)]
      · rw [if_neg hrest]
        by_cases hac : a = i ∧ c = j
        · rw [if_pos hac, if_pos (Or.inl hac), hac.1, hac.2]
        · rw [if_neg hac, if_neg (not_or.2 ⟨hac, hrest⟩)]

/-- **What passes in a scan** is what was tried in time and accepted. -/
theorem resultMap_iff (m : Modes) (env : TuningEnv) (i j : ℕ) :
    m.resultMap env i j = true ↔ (i, j) ∈ Modes.tried env.late (Modes.points m.maxSampleCount) ∧
      tuningAccepts m.host (env.probes.pass i j) (env.probes.adjustment i j) = true := by
  unfold Modes.resultMap
  rw [scan_map]
  split
  · rename_i h
    exact ⟨fun hp => ⟨h, hp⟩, fun hp => hp.2⟩
  · rename_i h
    exact ⟨fun hp => absurd hp (by simp), fun hp => absurd hp.1 h⟩

/-! ## A tuning -/

/-- Where a stored result samples. -/
def TuningPoint.at (p : TuningPoint) : ℕ × ℕ := (p.sampleCount, p.pllShift)

theorem storeTiming_points (h : Host) (p : TuningPoint) :
    (h.storeTiming p).hs200 = (if h.timing = .mmcHs200 then p else h.hs200) ∧
      (h.storeTiming p).hs400 = (if h.timing = .mmcHs400 then p else h.hs400) ∧
      (h.storeTiming p).timing = h.timing := by
  unfold Host.storeTiming
  cases ht : h.timing <;> simp [ht]

theorem storeFallback_points (h : Host) (p : TuningPoint) :
    (Modes.storeFallback h p).hs200.at = (if h.timing = .mmcHs200 then p.at else h.hs200.at) ∧
      (Modes.storeFallback h p).hs400.at = (if h.timing = .mmcHs400 then p.at else h.hs400.at) ∧
      (Modes.storeFallback h p).timing = h.timing := by
  unfold Modes.storeFallback TuningPoint.at
  cases ht : h.timing <;> simp [ht]

/-- After a selection that returned 0 the mode is tuned. -/
theorem tuningSucceeded_points (m : Modes) :
    m.tuningSucceeded.host.hs200 = m.host.hs200 ∧ m.tuningSucceeded.host.hs400 = m.host.hs400 ∧
      m.tuningSucceeded.scans = m.scans ∧
      ∀ u, m.tuningSucceeded.tunedTimingModes u = if u = m.host.timing then true else m.tunedTimingModes u := by
  unfold Modes.tuningSucceeded
  refine ⟨?_, ?_, ?_, fun u => ?_⟩ <;>
    simp only [Modes.setTuned, Modes.setTimingConfig, setTimingConfig_frame]

/-- After one that did not, it has the fallback, and only HS400 is not marked for it. -/
theorem tuningFallback_points (m : Modes) (n : ℕ) :
    (m.tuningFallback n).host.hs200.at =
        (if m.host.timing = .mmcHs200 then (Modes.fallback n).at else m.host.hs200.at) ∧
      (m.tuningFallback n).host.hs400.at =
        (if m.host.timing = .mmcHs400 then (Modes.fallback n).at else m.host.hs400.at) ∧
      (m.tuningFallback n).scans = m.scans ∧
      ∀ u, (m.tuningFallback n).tunedTimingModes u =
        if u = m.host.timing ∧ u ≠ .mmcHs400 then true else m.tunedTimingModes u := by
  set p := Modes.fallback n with hp
  set h := m.host.setTimingConfig p.sampleCount p.pllShift EMMC_BASE_CLK_CAL_PORT with hh
  obtain ⟨hh200, hh400, htiming, -⟩ : h.hs200 = m.host.hs200 ∧ h.hs400 = m.host.hs400 ∧
      h.timing = m.host.timing ∧ h.tuningFirstHalfSample = m.host.tuningFirstHalfSample :=
    setTimingConfig_frame m.host _ _ _
  obtain ⟨h200, h400, hkeep⟩ := storeFallback_points h p
  rw [htiming, hh200] at h200
  rw [htiming, hh400] at h400
  rw [htiming] at hkeep
  unfold Modes.tuningFallback
  simp only [← hp, Modes.setTimingConfig_host, ← hh, hkeep]
  by_cases hmode : m.host.timing = .mmcHs400
  · rw [if_neg (not_not.2 hmode)]
    simp only [Modes.setTimingConfig]
    refine ⟨h200, h400, trivial, ?_⟩
    intro u
    rw [if_neg fun hu => hu.2 (hu.1.trans hmode)]
  · rw [if_pos hmode]
    simp only [Modes.setTuned, Modes.setTimingConfig]
    refine ⟨h200, h400, trivial, ?_⟩
    intro u
    by_cases hu : u = m.host.timing
    · rw [if_pos hu, if_pos ⟨hu, hu ▸ hmode⟩]
    · rw [if_neg hu, if_neg fun h => hu h.1]

/-- What the end of a tuning changes, from the host after its scan. -/
theorem select_points {m₁ : Modes} (hsame : SamePoints m m₁) (htiming : m₁.host.timing = m.host.timing)
    (hmarks : m₁.tunedTimingModes = m.tunedTimingModes) (map : ℕ → ℕ → Bool) {r : TimingResult}
    (hhost : r.host = if r.ret = 0 then m₁.host.storeTiming r.selected else m₁.host) (n : ℕ)
    {p : ℕ × ℕ} (hp : p = if r.ret = 0 then r.selected.at else (Modes.fallback n).at)
    (he : m' = (if r.ret = 0 then (m₁.select map r).tuningSucceeded
      else (m₁.select map r).tuningFallback n).endTuning) :
    m'.host.hs200.at = (if m.host.timing = .mmcHs200 then p else m.host.hs200.at) ∧
      m'.host.hs400.at = (if m.host.timing = .mmcHs400 then p else m.host.hs400.at) ∧
      (∀ u, m'.scans u = if u = m.host.timing then map else m.scans u) ∧
      ∀ u, m'.tunedTimingModes u =
        if u = m.host.timing ∧ (r.ret = 0 ∨ u ≠ .mmcHs400) then true else m.tunedTimingModes u := by
  have hscans : ∀ u, (m₁.select map r).scans u = if u = m.host.timing then map else m.scans u := by
    intro u
    rw [← hsame.scans, ← htiming]
    rfl
  by_cases hret : r.ret = 0
  · -- a point is selected
    rw [if_pos hret] at hhost hp he
    obtain ⟨h200, h400, hkeep⟩ := storeTiming_points m₁.host r.selected
    rw [← hhost, htiming] at h200 h400 hkeep
    obtain ⟨p200, p400, pscans, pmarks⟩ := tuningSucceeded_points (m₁.select map r)
    have hmode : (m₁.select map r).host.timing = m.host.timing := hkeep
    rw [he, hp]
    refine ⟨?_, ?_, ?_, ?_⟩
    · rw [Modes.endTuning_host_hs200, p200, Modes.select_host, h200, hsame.hs200]
      exact apply_ite TuningPoint.at _ _ _
    · rw [Modes.endTuning_host_hs400, p400, Modes.select_host, h400, hsame.hs400]
      exact apply_ite TuningPoint.at _ _ _
    · intro u
      exact (congrFun pscans u).trans (hscans u)
    · intro u
      rw [Modes.endTuning_tunedTimingModes, pmarks, hmode, Modes.select_tunedTimingModes, hmarks]
      simp only [hret, true_or, and_true]
  · -- the fallback
    rw [if_neg hret] at hhost hp he
    obtain ⟨p200, p400, pscans, pmarks⟩ := tuningFallback_points (m₁.select map r) n
    have hsel : (m₁.select map r).host = m₁.host := hhost
    rw [hsel, htiming] at p200 p400 pmarks
    rw [he, hp]
    refine ⟨?_, ?_, ?_, ?_⟩
    · rw [Modes.endTuning_host_hs200, p200, hsame.hs200]
    · rw [Modes.endTuning_host_hs400, p400, hsame.hs400]
    · intro u
      exact (congrFun pscans u).trans (hscans u)
    · intro u
      rw [Modes.endTuning_tunedTimingModes, pmarks, Modes.select_tunedTimingModes, hmarks]
      simp only [hret, false_or]

/-- The point that a tuning stores. -/
def Modes.chosen (m : Modes) (env : TuningEnv) : ℕ × ℕ :=
  if (m.selection env).ret = 0 then (m.selection env).selected.at else (Modes.fallback m.maxSampleCount).at

/-- **What a tuning changes**: its own mode's point, scan and mark. -/
theorem tune_points (m : Modes) (env : TuningEnv) :
    (m.tune env).host.hs200.at = (if m.host.timing = .mmcHs200 then m.chosen env else m.host.hs200.at) ∧
      (m.tune env).host.hs400.at =
        (if m.host.timing = .mmcHs400 then m.chosen env else m.host.hs400.at) ∧
      (∀ u, (m.tune env).scans u = if u = m.host.timing then m.resultMap env else m.scans u) ∧
      ∀ u, (m.tune env).tunedTimingModes u =
        if u = m.host.timing ∧ ((m.selection env).ret = 0 ∨ u ≠ .mmcHs400) then true
        else m.tunedTimingModes u := by
  obtain ⟨hsame, htiming, hmarks⟩ := scan_points env (Modes.points m.maxSampleCount) (fun _ _ => false) m
  exact select_points hsame htiming hmarks (m.resultMap env) (r := m.selection env)
    (selected_host env.selectAlloc _ _ _) m.maxSampleCount rfl rfl

/-- A stored point that passes shows that some point does. -/
theorem chosen_found (m : Modes) (env : TuningEnv)
    (hpass : m.resultMap env (m.chosen env).1 (m.chosen env).2 = true) :
    Passes (m.resultMap env) m.maxSampleCount := by
  have hn : 1 ≤ m.maxSampleCount := by
    unfold Modes.maxSampleCount
    split <;> omega
  unfold Modes.chosen at hpass
  split at hpass
  · rename_i hret
    obtain ⟨hsample, hpll⟩ := selected_range env.selectAlloc _ hn hret
    exact ⟨_, hsample, _, hpll, hpass⟩
  · unfold Modes.fallback at hpass
    split at hpass
    · exact ⟨0, by omega, 2, by decide, hpass⟩
    · exact ⟨1, by omega, 1, by decide, hpass⟩

/-- **The mode's mark stands for a passing point iff** there was one to find and it was selected,
or the fallback is one. -/
theorem chosen_passes (m : Modes) (env : TuningEnv)
    (hmode : m.host.timing = .mmcHs200 ∨ m.host.timing = .mmcHs400) :
    (((m.selection env).ret = 0 ∨ m.host.timing ≠ .mmcHs400 ∨ m.tunedTimingModes .mmcHs400 = true) →
      m.resultMap env (m.chosen env).1 (m.chosen env).2 = true) ↔ m.Found env := by
  unfold Modes.Found
  cases halloc : env.selectAlloc with
  | false =>
    have hret : ¬(m.selection env).ret = 0 := by
      unfold Modes.selection
      rw [halloc, no_memory]
      decide
    have hchosen : m.chosen env = (Modes.fallback m.maxSampleCount).at := by
      unfold Modes.chosen
      rw [if_neg hret]
    rw [hchosen]
    constructor
    · intro hpass _
      refine Or.inr ⟨rfl, ?_⟩
      by_cases hmark : m.host.timing ≠ .mmcHs400 ∨ m.tunedTimingModes .mmcHs400 = true
      · exact Or.inl (hpass (Or.inr hmark))
      · rw [not_or, not_not, Bool.not_eq_true] at hmark
        exact Or.inr hmark
    · intro hfound hmark
      rcases hfound hmode with ⟨hok, -⟩ | ⟨-, hpass | ⟨h400, hfresh⟩⟩
      · exact absurd hok (by simp)
      · exact hpass
      · rcases hmark with h | h | h
        · exact absurd h hret
        · exact absurd h400 h
        · rw [hfresh] at h
          exact absurd h (by simp)
  | true =>
    constructor
    · intro hpass _
      refine Or.inl ⟨rfl, chosen_found m env (hpass ?_)⟩
      -- a selection that fails is not one for HS400
      by_cases h400 : m.host.timing = .mmcHs400
      · refine Or.inl ?_
        unfold Modes.selection
        rw [halloc]
        refine selected_hs400 ?_ _ _
        exact (scan_points env (Modes.points m.maxSampleCount) (fun _ _ => false) m).2.1.trans h400
      · exact Or.inr (Or.inl h400)
    · intro hfound _
      rcases hfound hmode with ⟨-, hp⟩ | ⟨hno, -⟩
      · obtain ⟨hret, hpass⟩ := selected_passes
          (Modes.scan env (Modes.points m.maxSampleCount) (fun _ _ => false) m).1.host hp
        have hsel : m.selection env = findOptimalTiming true
            (Modes.scan env (Modes.points m.maxSampleCount) (fun _ _ => false) m).1.host (m.resultMap env)
            m.maxSampleCount := by
          unfold Modes.selection
          rw [halloc]
        unfold Modes.chosen
        rw [hsel, if_pos hret]
        exact hpass
      · exact absurd hno (by simp)

/-- **A tuning keeps the property iff** its scan finds a point. -/
theorem tune_pass (hm : TunedPointsPass m) (env : TuningEnv) :
    TunedPointsPass (m.tune env) ↔ m.Found env := by
  obtain ⟨h200, h400, hscans, hmarks⟩ := tune_points m env
  have hat200 : (m.tune env).host.hs200.sampleCount = (m.tune env).host.hs200.at.1 ∧
      (m.tune env).host.hs200.pllShift = (m.tune env).host.hs200.at.2 := ⟨rfl, rfl⟩
  have hat400 : (m.tune env).host.hs400.sampleCount = (m.tune env).host.hs400.at.1 ∧
      (m.tune env).host.hs400.pllShift = (m.tune env).host.hs400.at.2 := ⟨rfl, rfl⟩
  -- the mode that is not tuned keeps what it has
  have hother200 : m.host.timing ≠ .mmcHs200 → (m.tune env).tunedTimingModes .mmcHs200 = true →
      (m.tune env).scans .mmcHs200 (m.tune env).host.hs200.sampleCount (m.tune env).host.hs200.pllShift = true := by
    intro hne htuned
    rw [hmarks, if_neg fun h => hne h.1.symm] at htuned
    rw [hat200.1, hat200.2, h200, if_neg hne, hscans, if_neg fun h => hne h.symm]
    exact hm.hs200 htuned
  have hother400 : m.host.timing ≠ .mmcHs400 → (m.tune env).tunedTimingModes .mmcHs400 = true →
      (m.tune env).scans .mmcHs400 (m.tune env).host.hs400.sampleCount (m.tune env).host.hs400.pllShift = true := by
    intro hne htuned
    rw [hmarks, if_neg fun h => hne h.1.symm] at htuned
    rw [hat400.1, hat400.2, h400, if_neg hne, hscans, if_neg fun h => hne h.symm]
    exact hm.hs400 htuned
  by_cases hmode : m.host.timing = .mmcHs200 ∨ m.host.timing = .mmcHs400
  · have hiff := chosen_passes m env hmode
    rcases hmode with hmode | hmode
    · have hne : m.host.timing ≠ .mmcHs400 := by rw [hmode]; simp
      rw [← hiff]
      constructor
      · intro hpass _
        have htuned : (m.tune env).tunedTimingModes .mmcHs200 = true := by
          rw [hmarks, if_pos ⟨hmode.symm, Or.inr (by simp)⟩]
        have hat := hpass.hs200 htuned
        rw [hat200.1, hat200.2, h200, if_pos hmode, hscans, if_pos hmode.symm] at hat
        exact hat
      · intro hpass
        refine ⟨?_, hother400 hne⟩
        intro _
        rw [hat200.1, hat200.2, h200, if_pos hmode, hscans, if_pos hmode.symm]
        exact hpass (Or.inr (Or.inl hne))
    · have hne : m.host.timing ≠ .mmcHs200 := by rw [hmode]; simp
      rw [← hiff]
      have hmark : (m.tune env).tunedTimingModes .mmcHs400 = true ↔
          ((m.selection env).ret = 0 ∨ m.host.timing ≠ .mmcHs400 ∨ m.tunedTimingModes .mmcHs400 = true) := by
        rw [hmarks]
        by_cases hret : (m.selection env).ret = 0
        · rw [if_pos ⟨hmode.symm, Or.inl hret⟩]
          exact ⟨fun _ => Or.inl hret, fun _ => rfl⟩
        · rw [if_neg fun h => h.2.elim hret fun hn => hn rfl]
          exact ⟨fun h => Or.inr (Or.inr h), fun h => h.elim (absurd · hret) fun h => h.resolve_left (· hmode)⟩
      constructor
      · intro hpass hm'
        have hat := hpass.hs400 (hmark.2 hm')
        rw [hat400.1, hat400.2, h400, if_pos hmode, hscans, if_pos hmode.symm] at hat
        exact hat
      · intro hpass
        refine ⟨hother200 hne, ?_⟩
        intro htuned
        rw [hat400.1, hat400.2, h400, if_pos hmode, hscans, if_pos hmode.symm]
        exact hpass (hmark.1 htuned)
  · -- another mode
    rw [not_or] at hmode
    refine ⟨fun _ h => absurd h (not_or.2 hmode), ?_⟩
    intro _
    exact ⟨hother200 hmode.1, hother400 hmode.2⟩

/-! ## Runs -/

theorem executeTuning_pass (hm : TunedPointsPass m) (opcode : ℕ) (env : TuningEnv) :
    TunedPointsPass (m.executeTuning opcode env).1 ↔ (m.scansNow opcode env → m.scanning.Found env) := by
  have hstart : SamePoints m m.startTuning := ⟨rfl, rfl, rfl, rfl, rfl⟩
  have hskips : m.startTuning.skips = m.skips := rfl
  have htake := (takeRetune_points m.startTuning).1
  have hbefore : TunedPointsPass m.scanning := (hstart.trans htake).pass hm
  unfold Modes.executeTuning Modes.scansNow
  simp only [hskips]
  cases hskip : m.skips with
  | true =>
    rw [if_pos rfl]
    exact ⟨fun _ h => absurd h.1 (by simp), fun _ => (hstart.trans (restore_points _)).pass hm⟩
  | false =>
    rw [if_neg (by simp)]
    by_cases hop : opcode ≠ MMC_SEND_TUNING_BLOCK ∧ opcode ≠ MMC_SEND_TUNING_BLOCK_HS200
    · rw [if_pos hop]
      exact ⟨fun _ h => absurd h.2.1 (not_or.2 hop), fun _ => hbefore⟩
    · rw [if_neg hop]
      have hop' : opcode = MMC_SEND_TUNING_BLOCK ∨ opcode = MMC_SEND_TUNING_BLOCK_HS200 := by
        rcases not_and_or.1 hop with h | h
        · exact Or.inl (not_not.1 h)
        · exact Or.inr (not_not.1 h)
      cases halloc : env.mapAlloc with
      | false =>
        rw [if_pos (by simp)]
        exact ⟨fun _ h => absurd h.2.2 (by simp), fun _ => hbefore⟩
      | true =>
        rw [if_neg (by simp)]
        have htune := tune_pass hbefore env
        exact ⟨fun h _ => htune.1 h, fun h => htune.2 (h ⟨rfl, hop', rfl⟩)⟩

/-- A pending retune is not skipped. -/
theorem retuneWork_pass (hm : TunedPointsPass m) (env : TuningEnv) :
    TunedPointsPass (m.hs400RetuneWork env) ↔ m.OfScan Modes.Found (.retuneWork env) := by
  obtain ⟨m₀, hm₀⟩ : ∃ m₀ : Modes, m₀ = { m with retuneQueued := false } := ⟨_, rfl⟩
  have hsame : SamePoints m m₀ := by
    rw [hm₀]
    exact ⟨rfl, rfl, rfl, rfl, rfl⟩
  have h₀ : TunedPointsPass m₀ := hsame.pass hm
  have hiff := executeTuning_pass h₀ MMC_SEND_TUNING_BLOCK_HS200 env
  have hpending : m₀.hs400RetunePending = m.hs400RetunePending := by rw [hm₀]
  unfold Modes.hs400RetuneWork Modes.OfScan
  simp only [← hm₀]
  by_cases hwork : m.hs400RetunePending = true ∧ m.host.timing = .mmcHs400
  · rw [if_pos hwork, hiff]
    have hskip : m₀.skips = false := by
      unfold Modes.skips
      rw [hpending, hwork.1]
      rfl
    exact ⟨fun h _ _ halloc => h ⟨hskip, Or.inr rfl, halloc⟩, fun h hs => h hwork.1 hwork.2 hs.2.2⟩
  · rw [if_neg hwork]
    exact ⟨fun _ h1 h2 _ => absurd ⟨h1, h2⟩ hwork, fun _ => h₀⟩

/-- **A step keeps the property iff** what it scans has a point to find. -/
theorem step_pass {b : Board} {a : ModeAct} (hm : TunedPointsPass m) (hstep : (modes b).step m a = some m') :
    TunedPointsPass m' ↔ m.OfScan Modes.Found a := by
  cases a with
  | setIos ios =>
    obtain rfl := Option.some.inj hstep
    exact ⟨fun _ => trivial, fun _ => (setIos_points b m ios).pass hm⟩
  | switchSent =>
    obtain rfl := Option.some.inj hstep
    exact ⟨fun _ => trivial, fun _ => (setTimingConfig_points m _ _ _).pass hm⟩
  | switchDone value =>
    obtain rfl := Option.some.inj hstep
    exact ⟨fun _ => trivial, fun _ => (switchDone_points m value).pass hm⟩
  | executeTuning opcode env =>
    obtain rfl := Option.some.inj hstep
    exact executeTuning_pass hm opcode env
  | retuneWork env =>
    obtain ⟨-, rfl⟩ := of_guard hstep
    exact retuneWork_pass hm env

/-- A scan that finds a point, in a selection that frees only what it allocated. -/
theorem tested_iff (m : Modes) (a : ModeAct) :
    Tested m a ↔ m.OfScan Modes.Found a ∧ FreesAllocated m a := by
  have hfreed : ∀ (m : Modes) (env : TuningEnv),
      .kfreeUninit ∉ (m.selection env).heap ↔ 8 < m.maxSampleCount ∨ env.selectAlloc = true :=
    fun _ env => findOptimalTiming_freed env.selectAlloc _ _ _
  unfold Tested FreesAllocated
  -- the three calls without a scan ask for nothing
  simp only [hfreed]
  cases a with
  | executeTuning opcode env => exact forall_and
  | retuneWork env =>
    unfold Modes.OfScan
    simp only [forall_and]
  | setIos ios => exact (and_self_iff).symm
  | switchSent => exact (and_self_iff).symm
  | switchDone value => exact (and_self_iff).symm

/-- **The point of a tuned mode passed in the last scan in that mode**, in every run whose scans
have a point to find. The next step keeps this iff its scan has, too, and with the memory to select
it frees only what it allocated. -/
theorem tuned_points_pass {b : Board} {m : Modes} (hr : (modes b).Reach (Modes.OfScan Modes.Found) m) :
    TunedPointsPass m ∧ ∀ a m', (modes b).step m a = some m' →
      (TunedPointsPass m' ↔ m.OfScan Modes.Found a) ∧ (TunedPointsPass m' ∧ FreesAllocated m a ↔ Tested m a) := by
  have hm : TunedPointsPass m := by
    refine hr.invariant ?_ fun _ _ _ hm hg hstep => (step_pass hm hstep).2 hg
    rintro _ rfl
    exact ⟨fun h => absurd h (by simp [Modes.probed, Modes.setClock, EFX_EMMC_MIN_FREQ]),
      fun h => absurd h (by simp [Modes.probed, Modes.setClock, EFX_EMMC_MIN_FREQ])⟩
  refine ⟨hm, ?_⟩
  intro a m' hstep
  have hpass := step_pass hm hstep
  exact ⟨hpass, by rw [hpass, tested_iff]⟩

/-- Memory and time enough, and one answer for every sampling point. -/
def probing (pass : Bool) : TuningEnv :=
  { mapAlloc := true, selectAlloc := true
    probes := { pass := fun _ _ => pass, adjustment := fun _ _ => 0x300 }, late := fun _ _ => false }

/-- After the probe, to HS200 at 200 MHz. -/
def toHs200 : Modes := (Modes.probed board200).setIos board200 ⟨200000000, .w8, .mmcHs200⟩

theorem setIos_toHs200 :
    (modes board200).step (.probed board200) (.setIos ⟨200000000, .w8, .mmcHs200⟩) = some toHs200 := rfl

/-- HS200 at 200 MHz is tuned when all its points pass. -/
theorem tuned_points_pass_hs200 :
    ∃ m, (modes board200).exec (.probed board200)
        [.setIos ⟨200000000, .w8, .mmcHs200⟩, .executeTuning MMC_SEND_TUNING_BLOCK_HS200 (probing true)] =
          some m ∧ m.tunedTimingModes .mmcHs200 = true ∧ TunedPointsPass m := by
  have hpass : toHs200.scanning.resultMap (probing true) 0 0 = true := by decide +kernel
  have hcount : 0 < toHs200.scanning.maxSampleCount := by decide +kernel
  have hfound : toHs200.OfScan Modes.Found (.executeTuning MMC_SEND_TUNING_BLOCK_HS200 (probing true)) := by
    intro _ _
    exact Or.inl ⟨rfl, 0, hcount, 0, by decide, hpass⟩
  have hprobed : (modes board200).Reach (Modes.OfScan Modes.Found) (.probed board200) := .init rfl
  have hset : (modes board200).Reach (Modes.OfScan Modes.Found) toHs200 :=
    hprobed.step (a := .setIos ⟨200000000, .w8, .mmcHs200⟩) trivial setIos_toHs200
  have hreach := hset.step hfound rfl
  refine ⟨_, rfl, ?_, (tuned_points_pass hreach).1⟩
  show (toHs200.executeTuning MMC_SEND_TUNING_BLOCK_HS200 (probing true)).1.tunedTimingModes .mmcHs200 = true
  decide +kernel

/-- **HS200 is tuned when no point passes**, with a return value of 0. -/
theorem tuned_without_point :
    ∃ m, (modes board200).exec (.probed board200)
        [.setIos ⟨200000000, .w8, .mmcHs200⟩, .executeTuning MMC_SEND_TUNING_BLOCK_HS200 (probing false)] =
          some m ∧ (modes board200).Reach (fun _ _ => True) m ∧ ¬TunedPointsPass m := by
  have hprobed : (modes board200).Reach (fun _ _ => True) (.probed board200) := .init rfl
  have hset : (modes board200).Reach (fun _ _ => True) toHs200 := hprobed.step trivial setIos_toHs200
  have htuned := hset.step (a := .executeTuning MMC_SEND_TUNING_BLOCK_HS200 (probing false)) trivial rfl
  refine ⟨_, rfl, htuned, ?_⟩
  intro h
  have hmarked : (toHs200.executeTuning MMC_SEND_TUNING_BLOCK_HS200
      (probing false)).1.tunedTimingModes .mmcHs200 = true := by
    decide +kernel
  have hpass := h.hs200 hmarked
  revert hpass
  show (toHs200.executeTuning MMC_SEND_TUNING_BLOCK_HS200 (probing false)).1.scans .mmcHs200
    (toHs200.executeTuning MMC_SEND_TUNING_BLOCK_HS200 (probing false)).1.host.hs200.sampleCount
    (toHs200.executeTuning MMC_SEND_TUNING_BLOCK_HS200 (probing false)).1.host.hs200.pllShift = true → False
  decide +kernel

end Br2Efinix.Emmc
