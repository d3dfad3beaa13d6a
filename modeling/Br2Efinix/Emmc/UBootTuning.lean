import Br2Efinix.Emmc.TuningSelect

/-!
# U-Boot's tuning, and the two drivers together

The boot loader tunes the same controller with its own code: one scan of the
circular map with a modular index, where Linux doubles the map and runs three
scanners over it.

* `scan_eq`: U-Boot's scan finds the first longest run of two turns.
* `tuningMap_eq`: under corresponding settings both drivers accept the same points.
* `tuning_agrees_iff`: they select the same point, or both report that there is
  none, exactly when some point is accepted or an edge is selected.
* `tuning_disagrees_no_point`: on an empty HS400 map Linux tunes to `(0, 0)`.
-/

namespace Br2Efinix.Emmc

open Runs

/-- What the tuning commands meet: whether the block reads back at a point, and
`EFX_EMMC_HOST_ADJUSTMENT` after it. -/
structure Probes where
  pass : ℕ → ℕ → Bool
  adjustment : ℕ → ℕ → UInt32

/-- `success`, after the additional check for SDR mode. -/
def tuningAccepts (h : Host) (success : Bool) (hostAdjustment : UInt32) : Bool :=
  if success && decide (h.timing ≠ .mmcHs400) then
    if h.tuningFirstHalfSample then
      if hostAdjustment &&& 0x500 ≠ 0 then false else success
    else
      if hostAdjustment &&& 0x300 ≠ 0x300 then false else success
  else success

/-- The scan of `efx_emmc_execute_tuning`, run to its end: `tuning_result_map`. -/
def tuningResultMap (h : Host) (pr : Probes) : ℕ → ℕ → Bool := fun i j =>
  tuningAccepts h (pr.pass i j) (pr.adjustment i j)

namespace UBoot

def MMC_CMD_SEND_TUNING_BLOCK_HS200 : ℕ := 21
def EFX_EMMC_TUNING_PLL_SHIFTS : ℕ := 8
def EFX_EMMC_TUNING_MAX_SAMPLES : ℕ := 64
def EFX_EMMC_ADJUST_CMD_DIFF : UInt32 := 0x100
def EFX_EMMC_ADJUST_DATA_ALL_DIFF : UInt32 := 0x200
def EFX_EMMC_ADJUST_DATA_ANY_DIFF : UInt32 := 0x400

/-- The tuning part of U-Boot's `struct efx_emmc_host`. -/
structure Host where
  tuned : Bool
  tuningSample : ℕ
  tuningPll : ℕ
  tuningEdge : Bool
  samplingRightHalf : Bool
  deriving DecidableEq, Repr

/-- Whether a point counts as passing. -/
def accepts (h : Host) (ddrMode : Bool) (pass : Bool) (adjustment : UInt32) : Bool :=
  if pass && !ddrMode then
    if h.samplingRightHalf then
      adjustment &&& (EFX_EMMC_ADJUST_CMD_DIFF ||| EFX_EMMC_ADJUST_DATA_ALL_DIFF) ==
        EFX_EMMC_ADJUST_CMD_DIFF ||| EFX_EMMC_ADJUST_DATA_ALL_DIFF
    else
      adjustment &&& (EFX_EMMC_ADJUST_CMD_DIFF ||| EFX_EMMC_ADJUST_DATA_ANY_DIFF) == 0
  else pass

/-- `map`, filled at `sample * EFX_EMMC_TUNING_PLL_SHIFTS + shift`. -/
def tuningMap (h : Host) (ddrMode : Bool) (pr : Probes) : ℕ → Bool := fun k =>
  let sample := k / EFX_EMMC_TUNING_PLL_SHIFTS
  let shift := k % EFX_EMMC_TUNING_PLL_SHIFTS
  accepts h ddrMode (pr.pass sample shift) (pr.adjustment sample shift)

/-- The locals of the scan. -/
structure Scan where
  run : ℕ
  bestLen : ℕ
  bestStart : ℕ
  deriving DecidableEq, Repr

/-- The scan after `index` rounds. -/
def scan (map : ℕ → Bool) (points : ℕ) : ℕ → Scan
  | 0 => ⟨0, 0, 0⟩
  | index + 1 =>
    let s := scan map points index
    if map (index % points) then
      let run := s.run + 1
      if run > s.bestLen then ⟨run, run, index + 1 - run⟩ else { s with run := run }
    else { s with run := 0 }

/-- `selected`, by the mode and the options. -/
def selectPoint (h : Host) (ddrMode : Bool) (points : ℕ) (s : Scan) : ℕ :=
  if h.tuningEdge && !ddrMode then
    if h.samplingRightHalf then s.bestStart % points
    else (s.bestStart + s.bestLen - 1) % points
  else (s.bestStart + (s.bestLen - 1) / 2) % points

/-- `efx_emmc_execute_tuning`; `samples` is the clock divider it reads and
`callocOk` says whether the map can be allocated. -/
def executeTuning (callocOk : Bool) (h : Host) (opcode samples : ℕ) (ddrMode : Bool) (pr : Probes) :
    ℤ × Host :=
  if opcode ≠ MMC_CMD_SEND_TUNING_BLOCK_HS200 then (-EINVAL, h)
  else if samples = 0 ∨ samples > EFX_EMMC_TUNING_MAX_SAMPLES then (-EINVAL, h)
  else
    let points := samples * EFX_EMMC_TUNING_PLL_SHIFTS
    if !callocOk then (-ENOMEM, h)
    else
      let s := scan (tuningMap h ddrMode pr) points (2 * points)
      if s.bestLen = 0 then (- EIO, h)
      else
        let selected := selectPoint h ddrMode points s
        (0, { h with
          tuned := true
          tuningSample := selected / EFX_EMMC_TUNING_PLL_SHIFTS
          tuningPll := selected % EFX_EMMC_TUNING_PLL_SHIFTS })

theorem scan_eq (map : ℕ → Bool) (points : ℕ) :
    ∀ i, scan map points i =
      ⟨trailing (doubled map points) i, (best (doubled map points) i).1,
        (best (doubled map points) i).2⟩ := by
  intro i
  induction i with
  | zero => rfl
  | succ i ih =>
    rw [scan, ih, best, trailing]
    by_cases hr : map (i % points) = true
    · have hd : doubled map points i = true := hr
      by_cases hlt : (best (doubled map points) i).1 < trailing (doubled map points) i + 1 <;>
        simp [hr, hd, hlt]
    · have hd : ¬doubled map points i = true := hr
      simp [hr, hd]

end UBoot

/-! ## The two drivers -/

/-- The same options in Linux and in U-Boot, in the same mode. -/
structure Corresponds (h : Host) (u : UBoot.Host) (ddrMode : Bool) : Prop where
  mode : ddrMode = decide (h.timing = .mmcHs400)
  edge : u.tuningEdge = h.tuningResultSelectionEdge
  half : u.samplingRightHalf = !h.tuningFirstHalfSample

/-- Both select the same point, or both report that there is none. -/
def TuningAgrees (l : TimingResult) (u : ℤ × UBoot.Host) : Prop :=
  (l.ret = 0 ∧ u.1 = 0 ∧ l.selected.sampleCount = u.2.tuningSample ∧
    l.selected.pllShift = u.2.tuningPll) ∨
  (l.ret = -ENODEV ∧ u.1 = - EIO)

variable {h : Host} {u : UBoot.Host} {ddrMode : Bool}

/-- **The acceptance tests agree**: bits 8 and 9 set, or bits 8 and 10 clear. -/
theorem accepts_eq (hc : Corresponds h u ddrMode) (pass : Bool) (a : UInt32) :
    UBoot.accepts u ddrMode pass a = tuningAccepts h pass a := by
  obtain ⟨hm, -, hh⟩ := hc
  have hAll : UBoot.EFX_EMMC_ADJUST_CMD_DIFF ||| UBoot.EFX_EMMC_ADJUST_DATA_ALL_DIFF = 0x300 := rfl
  have hAny : UBoot.EFX_EMMC_ADJUST_CMD_DIFF ||| UBoot.EFX_EMMC_ADJUST_DATA_ANY_DIFF = 0x500 := rfl
  unfold UBoot.accepts tuningAccepts
  rw [hm, hh, hAll, hAny]
  cases pass with
  | false => rfl
  | true =>
    by_cases ht : h.timing = .mmcHs400
    · simp [ht]
    · cases h.tuningFirstHalfSample
      · by_cases ha : a &&& 0x300 = 0x300 <;> simp [ht, ha]
      · by_cases ha : a &&& 0x500 = 0 <;> simp [ht, ha]

theorem tuningMap_eq (hc : Corresponds h u ddrMode) (pr : Probes) :
    UBoot.tuningMap u ddrMode pr = point (tuningResultMap h pr) := by
  funext k
  exact accepts_eq hc _ _

/-- U-Boot's choice within the run is Linux's. -/
theorem selectPoint_eq (hc : Corresponds h u ddrMode) (points r : ℕ) {s l : ℕ} (hl : 0 < l) :
    UBoot.selectPoint u ddrMode points ⟨r, l, s⟩ = (s + h.pick.offset l) % points := by
  obtain ⟨hm, he, hh⟩ := hc
  unfold UBoot.selectPoint Host.pick
  rw [hm, he, hh]
  by_cases ht : h.timing = .mmcHs400
  · simp [ht, Pick.offset]
  · cases h.tuningResultSelectionEdge
    · simp [ht, Pick.offset]
    · cases h.tuningFirstHalfSample
      · simp [ht, Pick.offset]
      · simp [ht, Pick.offset, Nat.add_sub_assoc hl]

/-- U-Boot's result in terms of the first longest run `(s, l)` of two turns. -/
theorem executeTuning_eq (hc : Corresponds h u ddrMode) (pr : Probes) {n s l : ℕ} (hn : 1 ≤ n)
    (h8 : n ≤ 8)
    (hb : best (doubled (point (tuningResultMap h pr)) (n * EFX_EMMC_MAX_PLL_SHIFT))
      (n * EFX_EMMC_MAX_PLL_SHIFT * 2) = (l, s)) :
    (l = 0 → (UBoot.executeTuning true u 21 n ddrMode pr).1 = - EIO) ∧
    (0 < l → (UBoot.executeTuning true u 21 n ddrMode pr).1 = 0 ∧
      (UBoot.executeTuning true u 21 n ddrMode pr).2.tuningSample =
        (s + h.pick.offset l) % (n * EFX_EMMC_MAX_PLL_SHIFT) / EFX_EMMC_MAX_PLL_SHIFT ∧
      (UBoot.executeTuning true u 21 n ddrMode pr).2.tuningPll =
        (s + h.pick.offset l) % (n * EFX_EMMC_MAX_PLL_SHIFT) % EFX_EMMC_MAX_PLL_SHIFT) := by
  have hsamples : ¬(n = 0 ∨ n > UBoot.EFX_EMMC_TUNING_MAX_SAMPLES) := by
    simp only [UBoot.EFX_EMMC_TUNING_MAX_SAMPLES]; omega
  have hscan := UBoot.scan_eq (point (tuningResultMap h pr)) (n * EFX_EMMC_MAX_PLL_SHIFT)
    (n * EFX_EMMC_MAX_PLL_SHIFT * 2)
  rw [hb] at hscan
  unfold UBoot.executeTuning
  rw [if_neg (show ¬21 ≠ UBoot.MMC_CMD_SEND_TUNING_BLOCK_HS200 by decide), if_neg hsamples]
  simp only [tuningMap_eq hc, Bool.not_true, Bool.false_eq_true, if_false,
    show UBoot.EFX_EMMC_TUNING_PLL_SHIFTS = EFX_EMMC_MAX_PLL_SHIFT from rfl,
    Nat.mul_comm 2 (n * EFX_EMMC_MAX_PLL_SHIFT), hscan]
  refine ⟨fun hl => by rw [if_pos hl], ?_⟩
  intro hl
  rw [if_neg (by omega), selectPoint_eq hc _ _ hl]
  exact ⟨rfl, rfl, rfl⟩

/-- **When the two drivers agree.** -/
theorem tuning_agrees_iff (hc : Corresponds h u ddrMode) (pr : Probes) {n : ℕ} (hn : 1 ≤ n)
    (h8 : n ≤ 8) :
    TuningAgrees (findOptimalTiming true h (tuningResultMap h pr) n)
        (UBoot.executeTuning true u 21 n ddrMode pr) ↔
      Passes (tuningResultMap h pr) n ∨ h.pick ≠ .center := by
  set N := n * EFX_EMMC_MAX_PLL_SHIFT with hN
  have hNpos : 0 < N := by simp only [EFX_EMMC_MAX_PLL_SHIFT] at hN; omega
  rcases hb : best (doubled (point (tuningResultMap h pr)) N) (N * 2) with ⟨l, s⟩
  have hspec := best_spec (doubled (point (tuningResultMap h pr)) N) (N * 2)
  rw [hb] at hspec
  have hpass : Passes (tuningResultMap h pr) n ↔ 0 < l := by
    rw [hspec.pos_iff]
    refine (passes_iff_point (tuningResultMap h pr) n true).trans ⟨?_, ?_⟩
    · rintro ⟨k, hk, hp⟩
      exact ⟨k, by omega, by rw [doubled, Nat.mod_eq_of_lt hk]; exact hp⟩
    · rintro ⟨k, -, hp⟩
      exact ⟨k % N, Nat.mod_lt _ hNpos, hp⟩
  obtain ⟨hcenter, hedge, hsome⟩ := flat_eq h (tuningResultMap h pr) n hb
  obtain ⟨hnone', hsome'⟩ := executeTuning_eq hc pr hn h8 hb
  have hflat : findOptimalTiming true h (tuningResultMap h pr) n =
      findOptimalTimingFlat true h (tuningResultMap h pr) n := by
    rw [findOptimalTiming, if_neg (by omega)]
  rw [hpass, hflat]
  rcases Nat.eq_zero_or_pos l with hl | hl
  · by_cases hp : h.pick = .center
    · -- Linux takes the centre of the empty run
      refine iff_of_false ?_ (by simp [hl, hp])
      rintro (⟨-, h0, -⟩ | ⟨h1, -⟩)
      · exact absurd ((hnone' hl).symm.trans h0) (by decide)
      · exact absurd ((hcenter hl hp).symm.trans h1) (by decide)
    · exact iff_of_true (Or.inr ⟨hedge hl hp, hnone' hl⟩) (Or.inr hp)
  · obtain ⟨hr, -, hs, hpl⟩ := hsome hl
    obtain ⟨hr', hs', hpl'⟩ := hsome' hl
    exact iff_of_true (Or.inl ⟨hr, hr', hs.trans hs'.symm, hpl.trans hpl'.symm⟩) (Or.inl hl)

/-- Edge selection with the right half of one sample: an empty map is reported by both. -/
theorem tuning_agrees_iff_edge :
    TuningAgrees
      (findOptimalTiming true
        { Host.probed 0 (by decide) with timing := .mmcHs200, tuningResultSelectionEdge := true }
        (tuningResultMap
          { Host.probed 0 (by decide) with timing := .mmcHs200, tuningResultSelectionEdge := true }
          ⟨fun _ _ => true, fun _ _ => 0⟩) 1)
      (UBoot.executeTuning true ⟨false, 0, 0, true, true⟩ 21 1 false ⟨fun _ _ => true, fun _ _ => 0⟩) :=
  (tuning_agrees_iff ⟨rfl, rfl, rfl⟩ _ (by decide) (by decide)).2 (Or.inr (by decide))

/-- **No point passes in HS400**: Linux selects `(0, 0)`, U-Boot reports `-EIO`. -/
theorem tuning_disagrees_no_point :
    ¬TuningAgrees
      (findOptimalTiming true { Host.probed 0 (by decide) with timing := .mmcHs400 }
        (tuningResultMap { Host.probed 0 (by decide) with timing := .mmcHs400 }
          ⟨fun _ _ => false, fun _ _ => 0⟩) 1)
      (UBoot.executeTuning true ⟨false, 0, 0, false, true⟩ 21 1 true ⟨fun _ _ => false, fun _ _ => 0⟩) := by
  rintro (⟨-, h0, -⟩ | ⟨h1, -⟩)
  · exact absurd h0 (by decide)
  · exact absurd h1 (by decide)

end Br2Efinix.Emmc
