import Br2Efinix.Emmc.UBootRestored

/-!
# What the scans leave in U-Boot

The flags and the point that `efx_emmc_set_ios` and `efx_emmc_execute_tuning` keep, against the scans that were
made. `hs400_tuned` is set before the scan for HS400 and never cleared after it; and a scan that finds nothing
leaves its last point at the receive clock, unless the driver recovers from the last command.

* `executeTuning_phase`: the receive phase after a call, for each way in which it can end.
* `scans_keep`: **the flags and the phase are right** in every run whose scans for HS400 find a point, and whose
  other scans find one or end at the point that is stored; a step keeps this exactly then.
-/

namespace Br2Efinix.Emmc.UBoot

open Runs

/-! ## The property -/

/-- The programmed receive phase. -/
def Dev.phase (m : Dev) : ℕ × ℕ := (m.baseReg1 >>> 16, m.port EFX_EMMC_BASE_CLK_CAL_PORT)

/-- `tuning_sample` and `tuning_pll`. -/
def Dev.stored (m : Dev) : ℕ × ℕ := (m.host.tuningSample, m.host.tuningPll)

/-- The number of points of a scan. -/
def Dev.pointCount (m : Dev) : ℕ := m.clkDivField * EFX_EMMC_TUNING_PLL_SHIFTS

/-- The point that a scan selects. -/
def Dev.selectedPoint (m : Dev) (env : TuneEnv) : ℕ × ℕ :=
  let selected := selectPoint m.host m.mmc.ddrMode m.pointCount
    (scan (tuningMap m.host m.mmc.ddrMode env.probes) m.pointCount (2 * m.pointCount))
  (selected / EFX_EMMC_TUNING_PLL_SHIFTS, selected % EFX_EMMC_TUNING_PLL_SHIFTS)

/-- A scan gets to its first command. -/
def Dev.Begins (m : Dev) (env : TuneEnv) : Prop :=
  env.callocOk = true ∧ 1 ≤ m.clkDivField ∧ m.clkDivField ≤ EFX_EMMC_TUNING_MAX_SAMPLES

/-- It finds a point. -/
def Dev.FindsPoint (m : Dev) (env : TuneEnv) : Prop :=
  m.Begins env ∧ ∃ k < m.pointCount, tuningMap m.host m.mmc.ddrMode env.probes k = true

instance (m : Dev) (env : TuneEnv) : Decidable (m.Begins env) := by
  unfold Dev.Begins
  infer_instance

instance (m : Dev) (env : TuneEnv) : Decidable (m.FindsPoint env) := by
  unfold Dev.FindsPoint
  infer_instance

/-- The device, and what was observed: whether the last scan for HS400 succeeded, the point that the last
successful scan selected, and whether the last call was a scan that failed. -/
structure Scans where
  dev : Dev
  hs400Succeeded : Bool
  lastPoint : Option (ℕ × ℕ)
  failedNow : Bool

namespace Scans

/-- A scan by `m` is made. -/
def note (s : Scans) (m : Dev) (env : TuneEnv) : Scans :=
  { s with
    hs400Succeeded := if m.mmc.selectedMode = .mmcHs400 then decide (m.FindsPoint env) else s.hs400Succeeded
    lastPoint := if m.FindsPoint env then some (m.selectedPoint env) else s.lastPoint
    failedNow := !decide (m.FindsPoint env) }

/-- What is observed of a call. -/
def observe (s : Scans) (a : DevAct) : Scans :=
  let s := { s with failedNow := false }
  match a with
  | .setIos mmc env =>
    if mmc.selectedMode = .mmcHs400 ∧ (s.dev.setMode mmc).hs400Tuned = false then s.note (s.dev.setMode mmc) env else s
  | .executeTuning opcode env => if opcode = MMC_CMD_SEND_TUNING_BLOCK_HS200 then s.note s.dev env else s
  | .fail _ => s

end Scans

/-- The calls, observed. -/
def scans (caps : ℕ) : Machine Scans DevAct :=
  { init := fun s => ∃ m, (devices caps).init m ∧ s = ⟨m, false, none, false⟩
    step := fun s a => ((devices caps).step s.dev a).map fun m => { s.observe a with dev := m } }

/-- **The flags and the phase.** -/
structure TuningKept (s : Scans) : Prop where
  hs400 : s.dev.hs400Tuned = true → s.hs400Succeeded = true
  tuned : s.dev.host.tuned = true → s.lastPoint = some s.dev.stored ∧ s.dev.phase = s.dev.stored
  failed : s.failedNow = true → s.dev.phase = s.dev.stored

/-! ## The condition -/

/-- A scan that finds nothing ends at the stored point: it does not begin, or its last command fails, or the
last point is the one that is stored. -/
def Dev.EndsStored (m : Dev) (env : TuneEnv) : Prop :=
  ¬m.Begins env ∨ (env.failed (m.clkDivField - 1) (EFX_EMMC_TUNING_PLL_SHIFTS - 1)).isSome = true ∨
    (m.clkDivField - 1, EFX_EMMC_TUNING_PLL_SHIFTS - 1) = m.stored

/-- What the scans of a run have to meet. -/
def ScansWell (s : Scans) : DevAct → Prop
  | .setIos mmc env => mmc.selectedMode = .mmcHs400 → (s.dev.setMode mmc).hs400Tuned = false →
      (s.dev.setMode mmc).FindsPoint env
  | .executeTuning opcode env => opcode = MMC_CMD_SEND_TUNING_BLOCK_HS200 →
      s.dev.FindsPoint env ∨ (s.dev.mmc.selectedMode ≠ .mmcHs400 ∧ s.dev.EndsStored env)
  | .fail _ => True

variable {m : Dev} {env : TuneEnv} {s s' : Scans}

/-! ## The results of a tuning -/

theorem scan_bestLen (m : Dev) (env : TuneEnv) :
    (scan (tuningMap m.host m.mmc.ddrMode env.probes) m.pointCount (2 * m.pointCount)).bestLen = 0 ↔
      ¬∃ k < m.pointCount, tuningMap m.host m.mmc.ddrMode env.probes k = true := by
  generalize tuningMap m.host m.mmc.ddrMode env.probes = map
  generalize m.pointCount = n
  have hpos := (best_spec (doubled map n) (2 * n)).pos_iff
  rw [scan_eq]
  simp only
  rw [show (best (doubled map n) (2 * n)).1 = 0 ↔ ¬0 < (best (doubled map n) (2 * n)).1 by omega, hpos, not_iff_not]
  constructor
  · rintro ⟨k, hk, hpass⟩
    exact ⟨k % n, Nat.mod_lt _ (by omega), hpass⟩
  · rintro ⟨k, hk, hpass⟩
    refine ⟨k, by omega, ?_⟩
    unfold doubled
    rw [Nat.mod_eq_of_lt hk]
    exact hpass

/-- The point that is selected is one of the scan. -/
theorem selectedPoint_lt (hb : m.Begins env) :
    (m.selectedPoint env).1 < EFX_EMMC_TUNING_MAX_SAMPLES ∧ (m.selectedPoint env).2 < EFX_EMMC_TUNING_PLL_SHIFTS := by
  obtain ⟨-, hsamples, hmax⟩ := hb
  exact ⟨selectPoint_sample m.host m.mmc.ddrMode (Nat.pos_iff_ne_zero.1 hsamples) hmax _, Nat.mod_lt _ (by decide)⟩

/-- **The ways in which a tuning can end.** -/
theorem tuning_cases (m : Dev) (env : TuneEnv) :
    (m.FindsPoint env ∧
      UBoot.executeTuning env.callocOk m.host MMC_CMD_SEND_TUNING_BLOCK_HS200 m.clkDivField m.mmc.ddrMode env.probes =
        (0, { m.host with
          tuned := true, tuningSample := (m.selectedPoint env).1, tuningPll := (m.selectedPoint env).2 })) ∨
    (¬m.Begins env ∧
      ((UBoot.executeTuning env.callocOk m.host MMC_CMD_SEND_TUNING_BLOCK_HS200 m.clkDivField m.mmc.ddrMode
          env.probes).1 = -EINVAL ∨
        (UBoot.executeTuning env.callocOk m.host MMC_CMD_SEND_TUNING_BLOCK_HS200 m.clkDivField m.mmc.ddrMode
          env.probes).1 = -ENOMEM)) ∨
    (m.Begins env ∧ ¬m.FindsPoint env ∧
      UBoot.executeTuning env.callocOk m.host MMC_CMD_SEND_TUNING_BLOCK_HS200 m.clkDivField m.mmc.ddrMode env.probes =
        (- EIO, m.host)) := by
  have hlen := scan_bestLen m env
  unfold UBoot.executeTuning
  rw [if_neg (fun hne => hne rfl)]
  by_cases hsamples : m.clkDivField = 0 ∨ m.clkDivField > EFX_EMMC_TUNING_MAX_SAMPLES
  · rw [if_pos hsamples]
    refine Or.inr (Or.inl ⟨?_, Or.inl rfl⟩)
    rintro ⟨-, hone, hmax⟩
    omega
  · rw [if_neg hsamples]
    simp only
    cases hcalloc : env.callocOk with
    | false =>
      refine Or.inr (Or.inl ⟨?_, Or.inr rfl⟩)
      rintro ⟨htrue, -⟩
      rw [hcalloc] at htrue
      cases htrue
    | true =>
      have hb : m.Begins env := ⟨hcalloc, by omega, by omega⟩
      rw [Bool.not_true, if_neg Bool.false_ne_true]
      by_cases hnone : (scan (tuningMap m.host m.mmc.ddrMode env.probes) m.pointCount (2 * m.pointCount)).bestLen = 0
      · exact Or.inr (Or.inr ⟨hb, fun hf => hlen.1 hnone hf.2, if_pos hnone⟩)
      · exact Or.inl ⟨⟨hb, Decidable.byContradiction fun h => hnone (hlen.2 h)⟩, if_neg hnone⟩

/-! ## The receive phase -/

theorem setTuning_phase {sample pllShift : ℕ} (hsample : sample < EFX_EMMC_TUNING_MAX_SAMPLES)
    (hpll : pllShift < EFX_EMMC_TUNING_PLL_SHIFTS) : (m.setTuning sample pllShift).phase = (sample, pllShift) := by
  have hword := configValue_sample hsample hpll (show EFX_EMMC_BASE_CLK_CAL_PORT < 8 by decide)
  exact Prod.ext hword rfl

/-- The stored point is one of the controller's. -/
def Dev.StoredIn (m : Dev) : Prop :=
  m.host.tuningSample < EFX_EMMC_TUNING_MAX_SAMPLES ∧ m.host.tuningPll < EFX_EMMC_TUNING_PLL_SHIFTS

/-- The host, the mode and the flag for HS400 are the same. -/
structure SameHost (m m' : Dev) : Prop where
  host : m'.host = m.host
  mmc : m'.mmc = m.mmc
  hs400Tuned : m'.hs400Tuned = m.hs400Tuned

theorem SameHost.trans {m m' m'' : Dev} (h1 : SameHost m m') (h2 : SameHost m' m'') : SameHost m m'' :=
  ⟨h2.host.trans h1.host, h2.mmc.trans h1.mmc, h2.hs400Tuned.trans h1.hs400Tuned⟩

theorem setBusMode_same (m : Dev) (width : ℕ) (ddr : Bool) : SameHost m (m.setBusMode width ddr) := by
  obtain ⟨_, _, h⟩ := setBusMode_eq m width ddr
  rw [h]
  exact ⟨rfl, rfl, rfl⟩

theorem setClock_same (m : Dev) (clock : ℕ) : SameHost m (m.setClock clock) := by
  unfold Dev.setClock
  split <;> exact ⟨rfl, rfl, rfl⟩

theorem recover_same (m : Dev) (r : Reset) : SameHost m (m.recover r) := by
  unfold Dev.recover
  simp only
  generalize (if m.mmc.busWidth ≠ 0 then m.mmc.busWidth else 1) = width
  have hbus := setBusMode_same { m.resetIp r with intSignalEn := 0 } width m.mmc.ddrMode
  have hclock := setClock_same (Dev.setBusMode { m.resetIp r with intSignalEn := 0 } width m.mmc.ddrMode) m.currentClk
  have hsame := hbus.trans hclock
  exact ⟨hsame.host, hsame.mmc, hsame.hs400Tuned⟩

/-- **A recovery programs the stored point.** -/
theorem recover_phase (hin : m.StoredIn) (r : Reset) : (m.recover r).phase = m.stored := by
  obtain ⟨m', hm'⟩ : ∃ m' : Dev, m.recover r = m'.setTuning m'.host.tuningSample m'.host.tuningPll := ⟨_, rfl⟩
  have hhost : m'.host = m.host := by
    rw [← (recover_same m r).host, hm']
    rfl
  rw [hm', hhost]
  exact setTuning_phase hin.1 hin.2

/-- A tuning command leaves its point, or the stored one if it fails. -/
theorem probe_phase (env : TuneEnv) (hin : m.StoredIn) {p : ℕ × ℕ} (hsample : p.1 < EFX_EMMC_TUNING_MAX_SAMPLES)
    (hpll : p.2 < EFX_EMMC_TUNING_PLL_SHIFTS) :
    SameHost m (m.probe env p) ∧ (m.probe env p).phase = if (env.failed p.1 p.2).isSome then m.stored else p := by
  have hset : SameHost m (m.setTuning p.1 p.2) := ⟨rfl, rfl, rfl⟩
  unfold Dev.probe
  simp only
  cases env.failed p.1 p.2 with
  | none => exact ⟨hset, setTuning_phase hsample hpll⟩
  | some r => exact ⟨hset.trans (recover_same _ r), recover_phase (m := m.setTuning p.1 p.2) hin r⟩

/-- The commands of a scan. -/
theorem probes_same (l : List (ℕ × ℕ)) (m : Dev) (env : TuneEnv) : SameHost m (l.foldl (Dev.probe env) m) := by
  induction l generalizing m with
  | nil => exact ⟨rfl, rfl, rfl⟩
  | cons p l ih =>
    have hset : SameHost m (m.setTuning p.1 p.2) := ⟨rfl, rfl, rfl⟩
    have hprobe : SameHost m (m.probe env p) := by
      unfold Dev.probe
      simp only
      cases env.failed p.1 p.2 with
      | none => exact hset
      | some r => exact hset.trans (recover_same _ r)
    exact hprobe.trans (ih (m.probe env p))

/-- **The end of a scan that found nothing.** -/
theorem scan_phase (hin : m.StoredIn) (hb : m.Begins env) :
    ((Dev.points m.clkDivField).foldl (Dev.probe env) m).phase =
      if (env.failed (m.clkDivField - 1) (EFX_EMMC_TUNING_PLL_SHIFTS - 1)).isSome then m.stored
      else (m.clkDivField - 1, EFX_EMMC_TUNING_PLL_SHIFTS - 1) := by
  obtain ⟨-, hone, hmax⟩ := hb
  obtain ⟨l, hl⟩ := points_concat (show m.clkDivField ≠ 0 by omega)
  rw [hl, List.foldl_append, List.foldl_cons, List.foldl_nil]
  have hsame := probes_same l m env
  have hin' : (l.foldl (Dev.probe env) m).StoredIn := by
    unfold Dev.StoredIn
    rw [hsame.host]
    exact hin
  have hlast := (probe_phase env hin'
    (p := (m.clkDivField - 1, EFX_EMMC_TUNING_PLL_SHIFTS - 1)) (by simp only; omega)
    (show EFX_EMMC_TUNING_PLL_SHIFTS - 1 < EFX_EMMC_TUNING_PLL_SHIFTS by decide)).2
  rw [hlast]
  unfold Dev.stored
  rw [hsame.host]

/-- The receive phase is the stored point, which is one of the controller's; `hs400_tuned` is set in HS400. -/
structure PhaseKept (m : Dev) : Prop where
  storedIn : m.StoredIn
  phase : m.phase = m.stored
  mode : m.hs400Tuned = true ↔ m.mmc.selectedMode = .mmcHs400

/-- What a tuning leaves, for each way in which it can end. -/
theorem executeTuning_phase (env : TuneEnv) (hin : m.StoredIn) :
    (m.FindsPoint env ∧
      (m.executeTuning MMC_CMD_SEND_TUNING_BLOCK_HS200 env).host = { m.host with
        tuned := true, tuningSample := (m.selectedPoint env).1, tuningPll := (m.selectedPoint env).2 } ∧
      (m.executeTuning MMC_CMD_SEND_TUNING_BLOCK_HS200 env).phase = m.selectedPoint env ∧
      (m.executeTuning MMC_CMD_SEND_TUNING_BLOCK_HS200 env).mmc = m.mmc ∧
      (m.executeTuning MMC_CMD_SEND_TUNING_BLOCK_HS200 env).hs400Tuned = m.hs400Tuned) ∨
    (¬m.FindsPoint env ∧ SameHost m (m.executeTuning MMC_CMD_SEND_TUNING_BLOCK_HS200 env) ∧
      (m.phase = m.stored →
        ((m.executeTuning MMC_CMD_SEND_TUNING_BLOCK_HS200 env).phase = m.stored ↔ m.EndsStored env))) := by
  have hsame := probes_same (Dev.points m.clkDivField) m env
  unfold Dev.executeTuning
  simp only
  rcases tuning_cases m env with ⟨hfind, hres⟩ | ⟨hnot, hret⟩ | ⟨hb, hnone, hres⟩
  · rw [hres, if_neg (show ¬((0 : ℤ) = -EINVAL ∨ (0 : ℤ) = -ENOMEM) by decide), if_pos rfl]
    obtain ⟨hsample, hpll⟩ := selectedPoint_lt hfind.1
    exact Or.inl ⟨hfind, rfl, setTuning_phase hsample hpll, hsame.mmc, hsame.hs400Tuned⟩
  · rw [if_pos hret]
    exact Or.inr ⟨fun hf => hnot hf.1, ⟨rfl, rfl, rfl⟩, fun hphase => ⟨fun _ => Or.inl hnot, fun _ => hphase⟩⟩
  · rw [hres, if_neg (show ¬((- EIO : ℤ) = -EINVAL ∨ (- EIO : ℤ) = -ENOMEM) by decide),
      if_neg (show ¬(- EIO : ℤ) = 0 by decide)]
    refine Or.inr ⟨hnone, hsame, fun _ => ?_⟩
    rw [scan_phase hin hb]
    unfold Dev.EndsStored
    by_cases hlast : (env.failed (m.clkDivField - 1) (EFX_EMMC_TUNING_PLL_SHIFTS - 1)).isSome = true
    · rw [if_pos hlast]
      exact ⟨fun _ => Or.inr (Or.inl hlast), fun _ => rfl⟩
    · rw [if_neg hlast]
      exact ⟨fun h => Or.inr (Or.inr h), fun h => (h.resolve_left (fun hn => hn hb)).resolve_left hlast⟩

/-- A tuning with another opcode is refused. -/
theorem executeTuning_refused {opcode : ℕ} (hop : opcode ≠ MMC_CMD_SEND_TUNING_BLOCK_HS200) :
    m.executeTuning opcode env = m := by
  unfold Dev.executeTuning UBoot.executeTuning
  simp only
  rw [if_pos hop, if_pos (Or.inl rfl)]

/-! ## The modes -/

theorem setClockBus_kept (m : Dev) (mmc : Mmc) :
    (m.setClockBus mmc).host = m.host ∧ (m.setClockBus mmc).hs400Tuned = m.hs400Tuned ∧
      (m.setClockBus mmc).phase = m.phase ∧ (m.setClockBus mmc).mmc.selectedMode = mmc.selectedMode := by
  unfold Dev.setClockBus
  simp only
  obtain ⟨clkEn, clkDivField, currentClk, clock, heq⟩ := setMmcClock_eq m mmc
  rw [heq]
  split
  · obtain ⟨_, _, hset⟩ := setBusMode_eq { m with
      clkEn := clkEn, clkDivField := clkDivField, currentClk := currentClk, mmc := { mmc with clock := clock } }
      mmc.busWidth mmc.ddrMode
    rw [hset]
    exact ⟨rfl, rfl, rfl, rfl⟩
  · exact ⟨rfl, rfl, rfl, rfl⟩

/-- The shift of the transmit clock keeps the receive phase. -/
theorem setClockShift_phase (hin : m.StoredIn) (hphase : m.phase = m.stored) {pllShift : ℕ}
    (hpll : pllShift < EFX_EMMC_TUNING_PLL_SHIFTS) :
    SameHost m (m.setClockShift pllShift) ∧ (m.setClockShift pllShift).phase = m.stored := by
  unfold Dev.setClockShift
  split
  · exact ⟨⟨rfl, rfl, rfl⟩, hphase⟩
  · refine ⟨⟨rfl, rfl, rfl⟩, ?_⟩
    have hsample : m.baseReg1 >>> 16 = m.host.tuningSample := congrArg Prod.fst hphase
    have hrx : m.port EFX_EMMC_BASE_CLK_CAL_PORT = m.host.tuningPll := congrArg Prod.snd hphase
    apply Prod.ext
    · change configValue (m.baseReg1 >>> 16) pllShift EFX_EMMC_BASE_CLK_SHIFT_PORT >>> 16 = _
      rw [hsample]
      exact configValue_sample hin.1 hpll (by decide)
    · change (if EFX_EMMC_BASE_CLK_CAL_PORT = EFX_EMMC_BASE_CLK_SHIFT_PORT then pllShift
        else m.port EFX_EMMC_BASE_CLK_CAL_PORT) = _
      rw [if_neg (by decide)]
      exact hrx

/-- **The mode is set**: the receive phase is the stored point, and a point that stays tuned is the one it was. -/
structure ModeSet (m : Dev) (mmc : Mmc) (m' : Dev) : Prop where
  storedIn : m'.StoredIn
  phase : m'.phase = m'.stored
  mode : m'.mmc.selectedMode = mmc.selectedMode
  hs400Tuned : m'.hs400Tuned = if mmc.selectedMode = .mmcHs400 then m.hs400Tuned else false
  tuned : m'.host.tuned = true → m'.host = m.host

theorem setMode_phase (h : PhaseKept m) (mmc : Mmc) : ModeSet m mmc (m.setMode mmc) := by
  obtain ⟨hhost, htuned, hphase, hmode⟩ := setClockBus_kept m mmc
  unfold Dev.setMode
  simp only
  generalize m.setClockBus mmc = m₁ at hhost htuned hphase hmode
  have hin : m₁.StoredIn := by
    unfold Dev.StoredIn
    rw [hhost]
    exact h.storedIn
  have hstored : m₁.phase = m₁.stored := by
    rw [hphase, h.phase]
    unfold Dev.stored
    rw [hhost]
  -- the shift of the transmit clock, in the two fast modes
  have hshift : ∀ k, k < EFX_EMMC_TUNING_PLL_SHIFTS → (m₁.setClockShift k).StoredIn ∧
      (m₁.setClockShift k).phase = (m₁.setClockShift k).stored := by
    intro k hk
    obtain ⟨hsame, hkept⟩ := setClockShift_phase hin hstored hk
    unfold Dev.StoredIn Dev.stored
    rw [hsame.host]
    exact ⟨hin, hkept⟩
  have hsame : ∀ k, k < EFX_EMMC_TUNING_PLL_SHIFTS → SameHost m₁ (m₁.setClockShift k) :=
    fun k hk => (setClockShift_phase hin hstored hk).1
  cases hsel : mmc.selectedMode with
  | mmcHs200 =>
    have hk : EFX_EMMC_HS200_CLK_SHIFT < EFX_EMMC_TUNING_PLL_SHIFTS := by decide
    exact ⟨(hshift _ hk).1, (hshift _ hk).2, (congrArg Mmc.selectedMode (hsame _ hk).mmc).trans hmode,
      by simp [hsel],
      fun _ => (hsame _ hk).host.trans hhost⟩
  | mmcHs400 =>
    have hk : EFX_EMMC_HS400_CLK_SHIFT < EFX_EMMC_TUNING_PLL_SHIFTS := by decide
    exact ⟨(hshift _ hk).1, (hshift _ hk).2, (congrArg Mmc.selectedMode (hsame _ hk).mmc).trans hmode,
      by rw [if_pos hsel, (hsame _ hk).hs400Tuned, htuned], fun _ => (hsame _ hk).host.trans hhost⟩
  | other code =>
    simp only
    split
    · -- the stored point is forgotten with the phase
      refine ⟨⟨Nat.zero_lt_succ _, Nat.zero_lt_succ _⟩, ?_, hmode, by simp [hsel], fun ht => ?_⟩
      · exact setTuning_phase (m := m₁) (Nat.zero_lt_succ _) (Nat.zero_lt_succ _)
      · cases ht
    · exact ⟨hin, hstored, hmode, by simp [hsel], fun _ => hhost⟩

/-! ## A step -/

/-- **A scan** keeps the flags and the phase exactly when it finds a point or, outside HS400, ends at the stored
one. -/
theorem scan_kept (env : TuneEnv) (h : PhaseKept m) (htuned : m.host.tuned = true → s.lastPoint = some m.stored) :
    (TuningKept { s.note m env with dev := m.executeTuning MMC_CMD_SEND_TUNING_BLOCK_HS200 env } ↔
      m.FindsPoint env ∨ (m.mmc.selectedMode ≠ .mmcHs400 ∧ m.EndsStored env)) ∧
    (TuningKept { s.note m env with dev := m.executeTuning MMC_CMD_SEND_TUNING_BLOCK_HS200 env } →
      PhaseKept (m.executeTuning MMC_CMD_SEND_TUNING_BLOCK_HS200 env)) := by
  rcases executeTuning_phase env h.storedIn with
    ⟨hfind, hhost, hphase, hmmc, hflag⟩ | ⟨hnone, hsame, hends⟩
  · have hstored : (m.executeTuning MMC_CMD_SEND_TUNING_BLOCK_HS200 env).stored = m.selectedPoint env := by
      unfold Dev.stored
      rw [hhost]
    have hin : (m.executeTuning MMC_CMD_SEND_TUNING_BLOCK_HS200 env).StoredIn := by
      unfold Dev.StoredIn
      rw [hhost]
      exact selectedPoint_lt hfind.1
    refine ⟨⟨fun _ => Or.inl hfind, fun _ => ⟨fun ht => ?_, fun _ => ?_, fun _ => hphase.trans hstored.symm⟩⟩,
      fun _ => ⟨hin, hphase.trans hstored.symm, ?_⟩⟩
    · change m.FindsPoint env at hfind
      have hmode := h.mode.1 (hflag ▸ ht)
      change (if m.mmc.selectedMode = .mmcHs400 then decide (m.FindsPoint env) else s.hs400Succeeded) = true
      rw [if_pos hmode]
      exact decide_eq_true hfind
    · refine ⟨?_, hphase.trans hstored.symm⟩
      change (if m.FindsPoint env then some (m.selectedPoint env) else s.lastPoint) = some _
      rw [if_pos hfind]
      exact congrArg some hstored.symm
    · rw [hflag, hmmc]
      exact h.mode
  · have hstored : (m.executeTuning MMC_CMD_SEND_TUNING_BLOCK_HS200 env).stored = m.stored := by
      unfold Dev.stored
      rw [hsame.host]
    have hin : (m.executeTuning MMC_CMD_SEND_TUNING_BLOCK_HS200 env).StoredIn := by
      unfold Dev.StoredIn
      rw [hsame.host]
      exact h.storedIn
    have hfailed : (!decide (m.FindsPoint env)) = true := by
      rw [decide_eq_false hnone]
      rfl
    have hkept : TuningKept { s.note m env with dev := m.executeTuning MMC_CMD_SEND_TUNING_BLOCK_HS200 env } →
        m.mmc.selectedMode ≠ .mmcHs400 ∧ m.EndsStored env := by
      intro hk
      refine ⟨fun hmode => ?_, (hends h.phase).1 ((hk.failed hfailed).trans hstored)⟩
      have hok := hk.hs400 (hsame.hs400Tuned.trans (h.mode.2 hmode))
      change (if m.mmc.selectedMode = .mmcHs400 then decide (m.FindsPoint env) else s.hs400Succeeded) = true at hok
      rw [if_pos hmode] at hok
      exact hnone (of_decide_eq_true hok)
    refine ⟨⟨fun hk => Or.inr (hkept hk), fun hok => ?_⟩, fun hk => ?_⟩
    · obtain ⟨hmode, hend⟩ := hok.resolve_left hnone
      have hphase := ((hends h.phase).2 hend).trans hstored.symm
      refine ⟨fun ht => ?_, fun ht => ⟨?_, hphase⟩, fun _ => hphase⟩
      · exact absurd (h.mode.1 (hsame.hs400Tuned ▸ ht)) hmode
      · change (if m.FindsPoint env then some (m.selectedPoint env) else s.lastPoint) = some _
        rw [if_neg hnone, htuned (hsame.host ▸ ht)]
        exact congrArg some hstored.symm
    · have hphase := ((hends h.phase).2 (hkept hk).2).trans hstored.symm
      refine ⟨hin, hphase, ?_⟩
      rw [hsame.hs400Tuned, hsame.mmc]
      exact h.mode

/-- What the calls leave. -/
structure ScansKept (s : Scans) : Prop where
  tuning : TuningKept s
  phase : PhaseKept s.dev

theorem setIos_kept (h : ScansKept s) (mmc : Mmc) (env : TuneEnv) :
    (TuningKept { s.observe (.setIos mmc env) with dev := s.dev.setIos mmc env } ↔ ScansWell s (.setIos mmc env)) ∧
    (TuningKept { s.observe (.setIos mmc env) with dev := s.dev.setIos mmc env } →
      PhaseKept (s.dev.setIos mmc env)) := by
  have hset := setMode_phase h.phase mmc
  have htuned : (s.dev.setMode mmc).host.tuned = true → s.lastPoint = some (s.dev.setMode mmc).stored := by
    intro ht
    have hhost := hset.tuned ht
    unfold Dev.stored
    rw [hhost]
    exact (h.tuning.tuned (hhost ▸ ht)).1
  unfold Dev.setIos Scans.observe ScansWell
  simp only
  generalize s.dev.setMode mmc = m at hset htuned
  by_cases hfirst : mmc.selectedMode = .mmcHs400 ∧ m.hs400Tuned = false
  · rw [if_pos hfirst, if_pos hfirst]
    have hmode : m.mmc.selectedMode = .mmcHs400 := hset.mode.trans hfirst.1
    have hphase : PhaseKept { m with hs400Tuned := true } :=
      ⟨hset.storedIn, hset.phase, ⟨fun _ => hmode, fun _ => rfl⟩⟩
    obtain ⟨hiff, hkept⟩ := scan_kept (s := { s with failedNow := false }) env hphase htuned
    refine ⟨hiff.trans ⟨fun hok _ _ => hok.resolve_right fun hne => hne.1 hmode, fun hok => ?_⟩, hkept⟩
    exact Or.inl (hok hfirst.1 hfirst.2)
  · rw [if_neg hfirst, if_neg hfirst]
    refine ⟨⟨fun _ hsel hflag => absurd ⟨hsel, hflag⟩ hfirst, fun _ => ⟨fun ht => ?_, fun ht => ?_, fun hf => ?_⟩⟩,
      fun _ => ⟨hset.storedIn, hset.phase, ?_⟩⟩
    · have hflag := hset.hs400Tuned
      rw [ht] at hflag
      split at hflag
      · exact h.tuning.hs400 hflag.symm
      · cases hflag
    · exact ⟨htuned ht, hset.phase⟩
    · cases hf
    · rw [hset.mode]
      constructor
      · intro ht
        have hflag := hset.hs400Tuned
        rw [ht] at hflag
        split at hflag
        · assumption
        · cases hflag
      · intro hsel
        exact Bool.eq_true_of_not_eq_false fun hflag => hfirst ⟨hsel, hflag⟩

/-- **A step keeps the flags and the phase exactly when its scan is one that does.** -/
theorem step_kept {caps : ℕ} (h : ScansKept s) {a : DevAct} (hstep : (scans caps).step s a = some s') :
    (TuningKept s' ↔ ScansWell s a) ∧ (TuningKept s' → ScansKept s') := by
  obtain ⟨m', hdev, rfl⟩ := Option.map_eq_some_iff.1 hstep
  cases a with
  | setIos mmc env =>
    obtain rfl := Option.some.inj hdev
    obtain ⟨hiff, hkept⟩ := setIos_kept h mmc env
    exact ⟨hiff, fun hk => ⟨hk, hkept hk⟩⟩
  | executeTuning opcode env =>
    obtain rfl := Option.some.inj hdev
    by_cases hop : opcode = MMC_CMD_SEND_TUNING_BLOCK_HS200
    · obtain ⟨hiff, hkept⟩ := scan_kept (s := { s with failedNow := false }) env h.phase
        fun ht => (h.tuning.tuned ht).1
      unfold Scans.observe ScansWell
      simp only
      rw [if_pos hop, hop]
      exact ⟨hiff.trans ⟨fun hok _ => hok, fun hok => hok rfl⟩, fun hk => ⟨hk, hkept hk⟩⟩
    · unfold Scans.observe ScansWell
      simp only
      rw [if_neg hop, executeTuning_refused hop]
      have hk : TuningKept { { s with failedNow := false } with dev := s.dev } :=
        ⟨h.tuning.hs400, h.tuning.tuned, fun hf => by cases hf⟩
      exact ⟨⟨fun _ he => absurd he hop, fun _ => hk⟩, fun _ => ⟨hk, h.phase⟩⟩
  | fail r =>
    obtain rfl := Option.some.inj hdev
    have hsame := recover_same s.dev r
    have hstored : (s.dev.recover r).stored = s.dev.stored := by
      unfold Dev.stored
      rw [hsame.host]
    have hphase : (s.dev.recover r).phase = (s.dev.recover r).stored :=
      (recover_phase h.phase.storedIn r).trans hstored.symm
    have hk : TuningKept { s.observe (.fail r) with dev := s.dev.recover r } := by
      refine ⟨fun ht => h.tuning.hs400 (hsame.hs400Tuned ▸ ht), fun ht => ⟨?_, hphase⟩, fun _ => hphase⟩
      change s.lastPoint = some (s.dev.recover r).stored
      rw [hstored]
      exact (h.tuning.tuned (hsame.host ▸ ht)).1
    refine ⟨⟨fun _ => trivial, fun _ => hk⟩, fun _ => ⟨hk, ⟨?_, hphase, ?_⟩⟩⟩
    · unfold Dev.StoredIn
      rw [hsame.host]
      exact h.phase.storedIn
    · rw [hsame.hs400Tuned, hsame.mmc]
      exact h.phase.mode

/-! ## Runs -/

theorem probed_kept (caps : ℕ) (tuningEdge samplingRightHalf : Bool) (r : Reset) :
    ScansKept ⟨.probed caps tuningEdge samplingRightHalf r, false, none, false⟩ := by
  have hword : configValue (configValue 0 0 EFX_EMMC_BASE_CLK_CAL_PORT >>> 16) EFX_EMMC_HS400_CLK_SHIFT
      EFX_EMMC_BASE_CLK_SHIFT_PORT >>> 16 = 0 := by decide
  unfold Dev.probed
  simp only
  rw [setClock_eq (show EFX_EMMC_MIN_FREQ ≠ 0 by decide)]
  refine ⟨⟨fun ht => ?_, fun ht => ?_, fun hf => ?_⟩, ⟨Nat.zero_lt_succ _, Nat.zero_lt_succ _⟩, Prod.ext hword rfl,
    ⟨fun ht => ?_, fun hsel => ?_⟩⟩
  · exact absurd (show false = true from ht) Bool.false_ne_true
  · exact absurd (show false = true from ht) Bool.false_ne_true
  · exact absurd (show false = true from hf) Bool.false_ne_true
  · exact absurd (show false = true from ht) Bool.false_ne_true
  · exact absurd (show Mode.other 0 = .mmcHs400 from hsel) (by decide)

theorem reach_kept {caps : ℕ} (h : (scans caps).Reach ScansWell s) : ScansKept s := by
  refine h.invariant ?_ ?_
  · rintro s ⟨m, ⟨tuningEdge, samplingRightHalf, r, rfl⟩, rfl⟩
    exact probed_kept caps tuningEdge samplingRightHalf r
  · intro s a s' hs hok hstep
    obtain ⟨hiff, hkept⟩ := step_kept hs hstep
    exact hkept (hiff.2 hok)

/-- **The flags and the phase are right** in every run whose scans find a point or, outside HS400, end at the
stored one; and the next step keeps this exactly then. -/
theorem scans_keep {caps : ℕ} (h : (scans caps).Reach ScansWell s) :
    TuningKept s ∧ ∀ a s', (scans caps).step s a = some s' → (TuningKept s' ↔ ScansWell s a) :=
  ⟨(reach_kept h).tuning, fun _ _ hstep => (step_kept (reach_kept h) hstep).1⟩

/-! ## HS400 -/

/-- HS200 and its tuning. -/
def hs200Run : List DevAct :=
  [.setIos ⟨200000000, 8, false, .mmcHs200⟩ passing, .executeTuning MMC_CMD_SEND_TUNING_BLOCK_HS200 passing]

/-- No point passes, and no command fails. -/
def nothing : TuneEnv := { passing with failed := fun _ _ => none, matches_ := fun _ _ => false }

/-- The device after the probe. -/
def probedScans : Scans := ⟨.probed 200 false true .zero, false, none, false⟩

theorem probedScans_init : (scans 200).init probedScans := ⟨_, ⟨false, true, .zero, rfl⟩, rfl⟩

instance : ∀ s a, Decidable (ScansWell s a)
  | s, .setIos mmc env => by unfold ScansWell; infer_instance
  | s, .executeTuning opcode env => by unfold ScansWell Dev.EndsStored; infer_instance
  | _, .fail _ => isTrue trivial

/-- HS200 and HS400 with a scan each. -/
theorem scans_keep_hs400 : ∃ s, (scans 200).Reach ScansWell s ∧ s.dev.hs400Tuned = true ∧ s.dev.phase = (0, 4) ∧
    TuningKept s := by
  obtain ⟨s, hs, hv⟩ := Option.map_eq_some_iff.1 (show
    ((scans 200).exec probedScans (hs200Run ++ [.setIos ⟨200000000, 8, true, .mmcHs400⟩ passing])).map
      (fun s => (s.dev.hs400Tuned, s.dev.phase)) = some (true, (0, 4)) by decide +kernel)
  obtain ⟨htuned, hphase⟩ := Prod.mk.inj hv
  have hreach : (scans 200).Reach ScansWell s :=
    .of_exec probedScans_init (show (scans 200).Along ScansWell probedScans
      (hs200Run ++ [.setIos ⟨200000000, 8, true, .mmcHs400⟩ passing]) by decide +kernel) hs
  exact ⟨s, hreach, htuned, hphase, (scans_keep hreach).1⟩

/-- **A scan for HS400 that finds nothing** leaves the flag set and its last point in place. -/
theorem hs400_flag_stays : ∃ s, (scans 200).Reach (fun _ _ => True) s ∧ s.dev.hs400Tuned = true ∧
    s.hs400Succeeded = false ∧ s.dev.host.tuned = true ∧ s.dev.phase ≠ s.dev.stored ∧ ¬TuningKept s := by
  obtain ⟨s, hs, hv⟩ := Option.map_eq_some_iff.1 (show
    ((scans 200).exec probedScans (hs200Run ++ [.setIos ⟨200000000, 8, true, .mmcHs400⟩ nothing])).map
      (fun s => (s.dev.hs400Tuned, s.hs400Succeeded, s.dev.host.tuned, decide (s.dev.phase = s.dev.stored))) =
        some (true, false, true, false) by decide +kernel)
  simp only [Prod.mk.injEq, decide_eq_false_iff_not] at hv
  obtain ⟨htuned, hlast, hflag, hphase⟩ := hv
  refine ⟨s, .of_exec probedScans_init (Machine.along_true _ _) hs, htuned, hlast, hflag, hphase, ?_⟩
  intro hk
  exact hphase (hk.tuned hflag).2

end Br2Efinix.Emmc.UBoot
