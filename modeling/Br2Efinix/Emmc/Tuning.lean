import Br2Efinix.Emmc.Host
import Br2Efinix.Lib.Runs

/-!
# Selecting a sampling point (Linux, eMMC v1.3)

`findOptimalTiming` picks a `(sample_count, pll_shift)` from the pass/fail map of
a tuning scan. A map `result_map[i][j]` of `0`/`1` bytes is a function
`ℕ → ℕ → Bool`, an array with its length is a function `ℕ → Bool` and a length.

* `findLongestConsecutiveOnes_eq`, `findCenter_eq`, `findFirstOrLast_eq`: the
  three scanners agree on which run they mean, the first longest one.
* `flatMap_eq`: the flattened, doubled map is two turns of a circle.
-/

namespace Br2Efinix.Emmc

open Runs

/-! ## The scanners -/

/-- The locals of `efx_emmc_find_longest_consecutive_ones` after `i` rounds. -/
def longestScan (row : ℕ → Bool) : ℕ → ℕ × ℕ
  | 0 => (0, 0)
  | i + 1 =>
    let (maxLen, currentLen) := longestScan row i
    if row i then
      let currentLen := currentLen + 1
      if currentLen > maxLen then (currentLen, currentLen) else (maxLen, currentLen)
    else (maxLen, 0)

def findLongestConsecutiveOnes (row : ℕ → Bool) (length : ℕ) : ℕ := (longestScan row length).1

/-- The locals of the two scanners that also remember where a run starts. -/
structure RunScan where
  maxLen : ℕ
  currentLen : ℕ
  maxStart : ℤ
  currentStart : ℤ
  deriving DecidableEq, Repr

/-- One round of either scanner. -/
def RunScan.next (s : RunScan) (i : ℕ) (one : Bool) : RunScan :=
  if one then
    let currentStart : ℤ := if s.currentLen = 0 then i else s.currentStart
    let currentLen := s.currentLen + 1
    if currentLen > s.maxLen then
      { maxLen := currentLen, currentLen, maxStart := currentStart, currentStart }
    else { s with currentLen, currentStart }
  else { s with currentLen := 0 }

/-- The locals after `i` rounds, from the initial `max_start` and `current_start`. -/
def runScan (start : ℤ) (row : ℕ → Bool) : ℕ → RunScan
  | 0 => { maxLen := 0, currentLen := 0, maxStart := start, currentStart := start }
  | i + 1 => (runScan start row i).next i (row i)

def findFirstOrLastConsecutiveOnes (row : ℕ → Bool) (length : ℕ) (findFirst : Bool) : ℤ :=
  let s := runScan (-1) row length
  if s.maxStart = -1 then -1
  else if findFirst then s.maxStart
  else s.maxStart + s.maxLen - 1

/-- C's integer division rounds towards zero, so an empty map gives `0`. -/
def findCenterOfConsecutiveOnes (row : ℕ → Bool) (length : ℕ) : ℤ :=
  let s := runScan 0 row length
  s.maxStart + ((s.maxLen : ℤ) - 1).tdiv 2

/-! ## The selection -/

/-- The heap calls of `efx_emmc_find_optimal_timing`. -/
inductive HeapEv
  | kmallocRows
  | kmallocFlat
  | kfreeRows
  | kfreeFlat
  /-- `kfree` of the never assigned `optimal_rows`. -/
  | kfreeUninit
  deriving DecidableEq, Repr

/-- The return value, the locals `optimal_sample_count`, `optimal_pll_shift` and
`max_consecutive_length` it selected, the host and the heap calls in order. -/
structure TimingResult where
  ret : ℤ
  selected : TuningPoint
  host : Host
  heap : List HeapEv

/-- The rows loop: the largest `row_length` of the first `i` rows. -/
def maxRowLength (resultMap : ℕ → ℕ → Bool) : ℕ → ℕ
  | 0 => 0
  | i + 1 =>
    let maxConsecutiveLength := maxRowLength resultMap i
    let rowLength := findLongestConsecutiveOnes (resultMap i) EFX_EMMC_MAX_PLL_SHIFT
    if rowLength > maxConsecutiveLength then rowLength else maxConsecutiveLength

/-- `optimal_rows[0 .. optimal_row_count)`. -/
def optimalRows (resultMap : ℕ → ℕ → Bool) (maxSampleCount maxLen : ℕ) : List ℕ :=
  (List.range maxSampleCount).filter fun i =>
    findLongestConsecutiveOnes (resultMap i) EFX_EMMC_MAX_PLL_SHIFT = maxLen

/-- `flat_map`: the rows one after the other, and all of them once more. -/
def flatMap (resultMap : ℕ → ℕ → Bool) (maxSampleCount : ℕ) : ℕ → Bool := fun k =>
  let i := k / EFX_EMMC_MAX_PLL_SHIFT
  resultMap (if i < maxSampleCount then i else i - maxSampleCount) (k % EFX_EMMC_MAX_PLL_SHIFT)

/-- Store a selection in the host, by `host->mmc->ios.timing`. -/
def Host.storeTiming (h : Host) (p : TuningPoint) : Host :=
  match h.timing with
  | .mmcHs200 => { h with hs200 := p }
  | .mmcHs400 => { h with hs400 := p }
  | _ => h

/-- The branch for more than 8 samples: the centre of the middle row among those
with the longest run. -/
def findOptimalTimingRows (kmallocOk : Bool) (h : Host) (resultMap : ℕ → ℕ → Bool)
    (maxSampleCount : ℕ) : TimingResult :=
  if !kmallocOk then { ret := -ENOMEM, selected := ⟨0, 0, 0⟩, host := h, heap := [] }
  else
    let maxConsecutiveLength := maxRowLength resultMap maxSampleCount
    let rows := optimalRows resultMap maxSampleCount maxConsecutiveLength
    match rows[rows.length / 2]? with
    | none =>
      { ret := -ENODEV, selected := ⟨0, 0, 0⟩, host := h, heap := [.kmallocRows, .kfreeRows] }
    | some optimalSampleCount =>
      let optimalPllShift :=
        findCenterOfConsecutiveOnes (resultMap optimalSampleCount) EFX_EMMC_MAX_PLL_SHIFT
      let p : TuningPoint := ⟨optimalSampleCount, optimalPllShift.toNat, maxConsecutiveLength⟩
      { ret := 0, selected := p, host := h.storeTiming p, heap := [.kmallocRows, .kfreeRows] }

/-- `selected_index` of the flattened map, by mode and options. -/
def selectIndex (h : Host) (flat : ℕ → Bool) (flatLength : ℕ) : ℤ :=
  if h.timing = .mmcHs400 then findCenterOfConsecutiveOnes flat flatLength
  else if !h.tuningResultSelectionEdge then findCenterOfConsecutiveOnes flat flatLength
  else findFirstOrLastConsecutiveOnes flat flatLength (!h.tuningFirstHalfSample)

/-- The branch for up to 8 samples: the flattened map, doubled. -/
def findOptimalTimingFlat (kmallocOk : Bool) (h : Host) (resultMap : ℕ → ℕ → Bool)
    (maxSampleCount : ℕ) : TimingResult :=
  let flatLength := maxSampleCount * EFX_EMMC_MAX_PLL_SHIFT * 2
  if !kmallocOk then
    { ret := -ENOMEM, selected := ⟨0, 0, 0⟩, host := h, heap := [.kfreeUninit] }
  else
    let flat := flatMap resultMap maxSampleCount
    let maxConsecutiveLength := findLongestConsecutiveOnes flat flatLength
    let originalLength := maxSampleCount * EFX_EMMC_MAX_PLL_SHIFT
    let selectedIndex := selectIndex h flat flatLength
    if selectedIndex < 0 then
      { ret := -ENODEV, selected := ⟨0, 0, 0⟩, host := h, heap := [.kmallocFlat, .kfreeFlat] }
    else
      let selectedIndex := selectedIndex.toNat % originalLength
      let p : TuningPoint := ⟨selectedIndex / EFX_EMMC_MAX_PLL_SHIFT,
        selectedIndex % EFX_EMMC_MAX_PLL_SHIFT, maxConsecutiveLength⟩
      { ret := 0, selected := p, host := h.storeTiming p, heap := [.kmallocFlat, .kfreeFlat] }

/-- `efx_emmc_find_optimal_timing`; `kmallocOk` says whether its allocation succeeds. -/
def findOptimalTiming (kmallocOk : Bool) (h : Host) (resultMap : ℕ → ℕ → Bool)
    (maxSampleCount : ℕ) : TimingResult :=
  if maxSampleCount > 8 then findOptimalTimingRows kmallocOk h resultMap maxSampleCount
  else findOptimalTimingFlat kmallocOk h resultMap maxSampleCount

/-! ## The scanners agree -/

theorem longestScan_eq (row : ℕ → Bool) :
    ∀ i, longestScan row i = ((best row i).1, trailing row i) := by
  intro i
  induction i with
  | zero => rfl
  | succ i ih =>
    rw [longestScan, ih, best, trailing]
    by_cases hr : row i = true
    · by_cases hlt : (best row i).1 < trailing row i + 1 <;> simp [hr, hlt]
    · simp [hr]

theorem findLongestConsecutiveOnes_eq (row : ℕ → Bool) (length : ℕ) :
    findLongestConsecutiveOnes row length = (best row length).1 := by
  rw [findLongestConsecutiveOnes, longestScan_eq]

/-- The scan with starts: before the first passing point it still holds `start`,
from then on the first longest run. -/
theorem runScan_eq (start : ℤ) (row : ℕ → Bool) :
    ∀ i, (runScan start row i).currentLen = trailing row i ∧
      (runScan start row i).maxLen = (best row i).1 ∧
      (runScan start row i).maxStart = (if (best row i).1 = 0 then start else (best row i).2) ∧
      (0 < trailing row i → (runScan start row i).currentStart = (i : ℤ) - trailing row i) := by
  intro i
  induction i with
  | zero => exact ⟨rfl, rfl, rfl, fun h => absurd h (lt_irrefl 0)⟩
  | succ i ih =>
    obtain ⟨hc, hm, hs, hst⟩ := ih
    rw [runScan, RunScan.next, best, trailing]
    by_cases hr : row i = true
    · -- the run goes on: its start is `i` or the start so far
      have hstart : (if trailing row i = 0 then (i : ℤ)
          else (runScan start row i).currentStart) = (i : ℤ) - trailing row i := by
        split
        · rename_i h0; rw [h0]; simp
        · rename_i h0; exact hst (Nat.pos_of_ne_zero h0)
      have htl := trailing_le row i
      simp only [hr, if_true, hc, hm, hstart, gt_iff_lt]
      by_cases hlt : (best row i).1 < trailing row i + 1
      · simp only [hlt, if_true]
        refine ⟨trivial, trivial, ?_, fun _ => by push_cast; omega⟩
        rw [if_neg (Nat.succ_ne_zero _)]; omega
      · simp only [hlt, if_false]
        exact ⟨trivial, trivial, hs, fun _ => by push_cast; omega⟩
    · simp only [hr, Bool.false_eq_true, if_false, Nat.not_lt_zero]
      exact ⟨trivial, hm, hs, False.elim⟩

/-- The centre of the first longest run, and `0` when no point passes. -/
theorem findCenter_eq (row : ℕ → Bool) (length : ℕ) :
    findCenterOfConsecutiveOnes row length =
      if (best row length).1 = 0 then (0 : ℤ)
      else (((best row length).2 + ((best row length).1 - 1) / 2 : ℕ) : ℤ) := by
  obtain ⟨-, hm, hs, -⟩ := runScan_eq 0 row length
  simp only [findCenterOfConsecutiveOnes, hm, hs]
  split
  · rename_i h0; rw [h0]; rfl
  · rename_i h0
    rw [show ((best row length).1 : ℤ) - 1 = (((best row length).1 - 1 : ℕ) : ℤ) by omega]
    push_cast
    rw [Int.tdiv_eq_ediv_of_nonneg (by omega)]

/-- The first or last point of the first longest run, and `-1` when no point passes. -/
theorem findFirstOrLast_eq (row : ℕ → Bool) (length : ℕ) (findFirst : Bool) :
    findFirstOrLastConsecutiveOnes row length findFirst =
      if (best row length).1 = 0 then (-1 : ℤ)
      else (((best row length).2 + if findFirst then 0 else (best row length).1 - 1 : ℕ) : ℤ) := by
  obtain ⟨-, hm, hs, -⟩ := runScan_eq (-1) row length
  simp only [findFirstOrLastConsecutiveOnes, hm, hs]
  by_cases h0 : (best row length).1 = 0
  · simp [h0]
  · rw [if_neg h0, if_neg h0, if_neg (by omega)]
    cases findFirst <;> simp only [if_true, Bool.false_eq_true, if_false] <;> omega

/-! ## The flattened map -/

/-- The map read row after row. -/
def point (resultMap : ℕ → ℕ → Bool) : ℕ → Bool := fun k =>
  resultMap (k / EFX_EMMC_MAX_PLL_SHIFT) (k % EFX_EMMC_MAX_PLL_SHIFT)

/-- **The flattened map is two turns of the circle of points.** -/
theorem flatMap_eq (resultMap : ℕ → ℕ → Bool) (n : ℕ) {k : ℕ}
    (hk : k < n * EFX_EMMC_MAX_PLL_SHIFT * 2) :
    flatMap resultMap n k = doubled (point resultMap) (n * EFX_EMMC_MAX_PLL_SHIFT) k := by
  by_cases hi : k / EFX_EMMC_MAX_PLL_SHIFT < n
  · simp only [flatMap, doubled, point, if_pos hi]
    simp only [EFX_EMMC_MAX_PLL_SHIFT] at *
    rw [Nat.mod_eq_of_lt (show k < n * 8 by omega)]
  · simp only [flatMap, doubled, point, if_neg hi]
    simp only [EFX_EMMC_MAX_PLL_SHIFT] at *
    rw [Nat.mod_eq_sub_mod (show n * 8 ≤ k by omega),
      Nat.mod_eq_of_lt (show k - n * 8 < n * 8 by omega),
      show (k - n * 8) / 8 = k / 8 - n by omega, show (k - n * 8) % 8 = k % 8 by omega]

theorem best_flatMap (resultMap : ℕ → ℕ → Bool) (n : ℕ) :
    best (flatMap resultMap n) (n * EFX_EMMC_MAX_PLL_SHIFT * 2) =
      best (doubled (point resultMap) (n * EFX_EMMC_MAX_PLL_SHIFT))
        (n * EFX_EMMC_MAX_PLL_SHIFT * 2) :=
  best_congr _ fun _ hk => flatMap_eq resultMap n hk

end Br2Efinix.Emmc
