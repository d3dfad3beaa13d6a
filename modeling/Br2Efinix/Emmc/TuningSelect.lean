import Br2Efinix.Emmc.Tuning

/-!
# What the selected sampling point is

`SelectsLongest` says what a selection is for: a passing point, placed in a
longest run as mode and options prescribe, with the run's length as margin, and
an error when nothing passes; and nothing unassigned is freed.

* `findOptimalTiming_longest_iff`: `efx_emmc_find_optimal_timing` does this
  exactly when (above 8 samples) its allocation fails or some point passes, or
  (up to 8 samples) it gets its memory and some point passes and some point
  fails, or no point passes and the mode selects an edge.
* `findOptimalTiming_no_point`: on a map without passing points an HS400 scan of
  one sample reports success.
-/

namespace Br2Efinix.Emmc

open Runs

/-- Where in its run the selected point lies. -/
inductive Pick
  | center
  | first
  | last
  deriving DecidableEq, Repr

/-- HS400 takes the centre; otherwise the centre unless an edge is asked for. -/
def Host.pick (h : Host) : Pick :=
  if h.timing = .mmcHs400 then .center
  else if !h.tuningResultSelectionEdge then .center
  else if h.tuningFirstHalfSample then .last
  else .first

/-- How far from its start a run of length `l` is hit. -/
def Pick.offset : Pick → ℕ → ℕ
  | .center, l => (l - 1) / 2
  | .first, _ => 0
  | .last, l => l - 1

theorem Pick.offset_lt (k : Pick) {l : ℕ} (hl : 0 < l) : k.offset l < l := by
  cases k <;> simp only [Pick.offset] <;> omega

/-- A selection over the flattened map. -/
structure FlatSelected (h : Host) (resultMap : ℕ → ℕ → Bool) (n : ℕ) (p : TuningPoint) : Prop where
  sample_lt : p.sampleCount < n
  pll_lt : p.pllShift < EFX_EMMC_MAX_PLL_SHIFT
  passes : resultMap p.sampleCount p.pllShift = true
  run : ∃ s, CircLongest (point resultMap) (n * EFX_EMMC_MAX_PLL_SHIFT) s p.margin ∧
    p.sampleCount * EFX_EMMC_MAX_PLL_SHIFT + p.pllShift =
      (s + h.pick.offset p.margin) % (n * EFX_EMMC_MAX_PLL_SHIFT)
  margin_le : p.margin ≤ n * EFX_EMMC_MAX_PLL_SHIFT

/-- A selection row by row: the basic tuning, which always takes the centre. -/
structure RowSelected (resultMap : ℕ → ℕ → Bool) (n : ℕ) (p : TuningPoint) : Prop where
  sample_lt : p.sampleCount < n
  pll_lt : p.pllShift < EFX_EMMC_MAX_PLL_SHIFT
  passes : resultMap p.sampleCount p.pllShift = true
  run : ∃ s, IsRun (resultMap p.sampleCount) EFX_EMMC_MAX_PLL_SHIFT s p.margin ∧
    p.pllShift = s + Pick.center.offset p.margin
  longest : ∀ i, i < n → ∀ s l, IsRun (resultMap i) EFX_EMMC_MAX_PLL_SHIFT s l → l ≤ p.margin
  margin_le : p.margin ≤ n * EFX_EMMC_MAX_PLL_SHIFT

def Selected (h : Host) (resultMap : ℕ → ℕ → Bool) (n : ℕ) (p : TuningPoint) : Prop :=
  if n > 8 then RowSelected resultMap n p else FlatSelected h resultMap n p

/-- Some point of the map passes. -/
def Passes (resultMap : ℕ → ℕ → Bool) (n : ℕ) : Prop :=
  ∃ i, i < n ∧ ∃ j, j < EFX_EMMC_MAX_PLL_SHIFT ∧ resultMap i j = true

/-- Some point of the map fails. -/
def Fails (resultMap : ℕ → ℕ → Bool) (n : ℕ) : Prop :=
  ∃ i, i < n ∧ ∃ j, j < EFX_EMMC_MAX_PLL_SHIFT ∧ resultMap i j = false

/-- **The purpose of the selection**, and that the call is a defined one. -/
structure SelectsLongest (h : Host) (resultMap : ℕ → ℕ → Bool) (n : ℕ) (r : TimingResult) : Prop where
  selected : r.ret = 0 → Selected h resultMap n r.selected
  stored : r.ret = 0 → r.host = h.storeTiming r.selected
  error : ¬Passes resultMap n → r.ret ≠ 0
  freed : .kfreeUninit ∉ r.heap

/-- When the selection works. -/
def SelectionOk (kmallocOk : Bool) (h : Host) (resultMap : ℕ → ℕ → Bool) (n : ℕ) : Prop :=
  if n > 8 then kmallocOk = false ∨ Passes resultMap n
  else kmallocOk = true ∧
    ((Passes resultMap n ∧ Fails resultMap n) ∨ (¬Passes resultMap n ∧ h.pick ≠ .center))

/-! ## The flattened map -/

theorem passes_iff_point (resultMap : ℕ → ℕ → Bool) (n : ℕ) (b : Bool) :
    (∃ i, i < n ∧ ∃ j, j < EFX_EMMC_MAX_PLL_SHIFT ∧ resultMap i j = b) ↔
      ∃ k, k < n * EFX_EMMC_MAX_PLL_SHIFT ∧ point resultMap k = b := by
  unfold point EFX_EMMC_MAX_PLL_SHIFT
  constructor
  · rintro ⟨i, hi, j, hj, h⟩
    refine ⟨i * 8 + j, by omega, ?_⟩
    rw [show (i * 8 + j) / 8 = i by omega, show (i * 8 + j) % 8 = j by omega, h]
  · rintro ⟨k, hk, h⟩
    exact ⟨k / 8, by omega, k % 8, by omega, h⟩

/-- The three scanners and the mode switch, in one formula. -/
theorem selectIndex_eq (h : Host) (flat : ℕ → Bool) (flatLength : ℕ) :
    selectIndex h flat flatLength =
      if (best flat flatLength).1 = 0 then (if h.pick = .center then (0 : ℤ) else -1)
      else (((best flat flatLength).2 + h.pick.offset (best flat flatLength).1 : ℕ) : ℤ) := by
  unfold selectIndex Host.pick
  by_cases ht : h.timing = .mmcHs400
  · rw [if_pos ht, findCenter_eq]; simp [ht, Pick.offset]
  by_cases he : h.tuningResultSelectionEdge = true
  · rw [if_neg ht, if_neg (by simp [he]), findFirstOrLast_eq]
    cases hf : h.tuningFirstHalfSample <;> simp [ht, he, Pick.offset]
  · rw [if_neg ht, if_pos (by simpa using he), findCenter_eq]; simp [ht, he, Pick.offset]

/-- The flat branch in terms of the first longest run `(s, l)` of two turns. -/
theorem flat_eq (h : Host) (resultMap : ℕ → ℕ → Bool) (n : ℕ) {s l : ℕ}
    (hb : best (doubled (point resultMap) (n * EFX_EMMC_MAX_PLL_SHIFT))
      (n * EFX_EMMC_MAX_PLL_SHIFT * 2) = (l, s)) :
    (l = 0 → h.pick = .center → (findOptimalTimingFlat true h resultMap n).ret = 0) ∧
    (l = 0 → h.pick ≠ .center → (findOptimalTimingFlat true h resultMap n).ret = -ENODEV) ∧
    (0 < l → (findOptimalTimingFlat true h resultMap n).ret = 0 ∧
      (findOptimalTimingFlat true h resultMap n).selected.margin = l ∧
      (findOptimalTimingFlat true h resultMap n).selected.sampleCount =
        (s + h.pick.offset l) % (n * EFX_EMMC_MAX_PLL_SHIFT) / EFX_EMMC_MAX_PLL_SHIFT ∧
      (findOptimalTimingFlat true h resultMap n).selected.pllShift =
        (s + h.pick.offset l) % (n * EFX_EMMC_MAX_PLL_SHIFT) % EFX_EMMC_MAX_PLL_SHIFT) := by
  have hidx := selectIndex_eq h (flatMap resultMap n) (n * EFX_EMMC_MAX_PLL_SHIFT * 2)
  rw [best_flatMap, hb] at hidx
  simp only at hidx
  unfold findOptimalTimingFlat
  simp only [Bool.not_true, Bool.false_eq_true, if_false, findLongestConsecutiveOnes_eq,
    best_flatMap, hb]
  refine ⟨?_, ?_, ?_⟩
  · intro hl hp
    rw [if_pos hl, if_pos hp] at hidx
    rw [if_neg (by omega)]
  · intro hl hp
    rw [if_pos hl, if_neg hp] at hidx
    rw [if_pos (by omega)]
  · intro hl
    rw [if_neg (by omega)] at hidx
    rw [if_neg (by omega), hidx, Int.toNat_natCast]
    exact ⟨rfl, rfl, rfl, rfl⟩

/-- A successful flat selection is stored. -/
theorem flat_stored (kmallocOk : Bool) (h : Host) (resultMap : ℕ → ℕ → Bool) (n : ℕ)
    (hr : (findOptimalTimingFlat kmallocOk h resultMap n).ret = 0) :
    (findOptimalTimingFlat kmallocOk h resultMap n).host =
      h.storeTiming (findOptimalTimingFlat kmallocOk h resultMap n).selected := by
  unfold findOptimalTimingFlat at hr ⊢
  simp only at hr ⊢
  split at hr
  · exact absurd hr (show -ENOMEM ≠ 0 by decide)
  · split at hr
    · exact absurd hr (show -ENODEV ≠ 0 by decide)
    · rename_i h1 h2; rw [if_neg h1, if_neg h2]

/-- **The flat branch on a map with a passing and a failing point.** -/
theorem flat_selected (h : Host) {resultMap : ℕ → ℕ → Bool} {n : ℕ} (hp : Passes resultMap n)
    (hf : Fails resultMap n) :
    FlatSelected h resultMap n (findOptimalTimingFlat true h resultMap n).selected := by
  obtain ⟨f, hfn, hff⟩ := (passes_iff_point resultMap n false).1 hf
  obtain ⟨k, hkn, hkp⟩ := (passes_iff_point resultMap n true).1 hp
  set N := n * EFX_EMMC_MAX_PLL_SHIFT with hN
  rcases hb : best (doubled (point resultMap) N) (N * 2) with ⟨l, s⟩
  have hspec := best_spec (doubled (point resultMap) N) (N * 2)
  rw [hb] at hspec
  simp only at hspec
  have hl : 0 < l := hspec.pos_iff.2 ⟨k, by omega, by rw [doubled, Nat.mod_eq_of_lt hkn]; exact hkp⟩
  have hcirc : CircLongest (point resultMap) N s l := by
    rw [Nat.mul_comm] at hspec; exact circ_of_doubled hfn hff hspec
  obtain ⟨-, hm, hs, hpl⟩ := (flat_eq h resultMap n hb).2.2 hl
  rw [← hN] at hs hpl
  have hidx : (s + h.pick.offset l) % N < N := Nat.mod_lt _ (by omega)
  have hpass := hcirc.run.2.2 _ (h.pick.offset_lt hl)
  refine ⟨?_, ?_, ?_, ⟨s, by rw [hm]; exact hcirc, ?_⟩, by rw [hm]; exact hcirc.run.2.1⟩
  · rw [hs]; simp only [EFX_EMMC_MAX_PLL_SHIFT] at hN ⊢; omega
  · rw [hpl]; exact Nat.mod_lt _ (by decide)
  · rw [hs, hpl]; exact hpass
  · rw [hm, hs, hpl, ← hN, Nat.mul_comm]; exact Nat.div_add_mod _ _

/-! ## The rows -/

theorem maxRowLength_spec (resultMap : ℕ → ℕ → Bool) :
    ∀ n, (∀ i, i < n → (best (resultMap i) EFX_EMMC_MAX_PLL_SHIFT).1 ≤ maxRowLength resultMap n) ∧
      (0 < n → ∃ i, i < n ∧ (best (resultMap i) EFX_EMMC_MAX_PLL_SHIFT).1 = maxRowLength resultMap n) := by
  intro n
  induction n with
  | zero => exact ⟨fun i hi => absurd hi (Nat.not_lt_zero i), fun h => absurd h (lt_irrefl 0)⟩
  | succ n ih =>
    rw [maxRowLength]
    simp only [findLongestConsecutiveOnes_eq]
    split
    · rename_i hgt
      refine ⟨?_, fun _ => ⟨n, Nat.lt_succ_self n, rfl⟩⟩
      intro i hi
      rcases Nat.eq_or_lt_of_le (Nat.lt_succ_iff.1 hi) with h | h
      · rw [h]
      · exact le_trans (ih.1 i h) hgt.le
    · rename_i hle
      refine ⟨?_, ?_⟩
      · intro i hi
        rcases Nat.eq_or_lt_of_le (Nat.lt_succ_iff.1 hi) with h | h
        · rw [h]; exact not_lt.1 hle
        · exact ih.1 i h
      · intro _
        rcases Nat.eq_zero_or_pos n with h | h
        · subst h
          refine ⟨0, Nat.one_pos, le_antisymm (not_lt.1 hle) (Nat.zero_le _)⟩
        · obtain ⟨i, hi, he⟩ := ih.2 h
          exact ⟨i, by omega, he⟩

theorem mem_optimalRows {resultMap : ℕ → ℕ → Bool} {n l i : ℕ} :
    i ∈ optimalRows resultMap n l ↔
      i < n ∧ (best (resultMap i) EFX_EMMC_MAX_PLL_SHIFT).1 = l := by
  unfold optimalRows
  simp [findLongestConsecutiveOnes_eq]

/-- The row branch selects the middle one of the rows with the longest run. -/
theorem rows_eq (h : Host) (resultMap : ℕ → ℕ → Bool) {n : ℕ} (hn : 0 < n) :
    ∃ i, i < n ∧ (best (resultMap i) EFX_EMMC_MAX_PLL_SHIFT).1 = maxRowLength resultMap n ∧
      (findOptimalTimingRows true h resultMap n).ret = 0 ∧
      (findOptimalTimingRows true h resultMap n).selected =
        ⟨i, (findCenterOfConsecutiveOnes (resultMap i) EFX_EMMC_MAX_PLL_SHIFT).toNat,
          maxRowLength resultMap n⟩ := by
  obtain ⟨i₀, hi₀, he₀⟩ := (maxRowLength_spec resultMap n).2 hn
  set rows := optimalRows resultMap n (maxRowLength resultMap n) with hrows
  have hmem : i₀ ∈ rows := mem_optimalRows.2 ⟨hi₀, he₀⟩
  have hlt : rows.length / 2 < rows.length := by
    have := List.length_pos_of_mem hmem; omega
  obtain ⟨hi, he⟩ := mem_optimalRows.1 (List.getElem_mem hlt)
  refine ⟨rows[rows.length / 2], hi, he, ?_⟩
  simp only [findOptimalTimingRows, Bool.not_true, Bool.false_eq_true, if_false, ← hrows,
    List.getElem?_eq_getElem hlt, and_self]

theorem rows_stored (kmallocOk : Bool) (h : Host) (resultMap : ℕ → ℕ → Bool) (n : ℕ)
    (hr : (findOptimalTimingRows kmallocOk h resultMap n).ret = 0) :
    (findOptimalTimingRows kmallocOk h resultMap n).host =
      h.storeTiming (findOptimalTimingRows kmallocOk h resultMap n).selected := by
  unfold findOptimalTimingRows at hr ⊢
  simp only at hr ⊢
  split at hr
  · exact absurd hr (show -ENOMEM ≠ 0 by decide)
  · rename_i h1
    rw [if_neg h1]
    split at hr
    · exact absurd hr (show -ENODEV ≠ 0 by decide)
    · simp only

/-- **The row branch on a map with a passing point.** -/
theorem rows_selected (h : Host) {resultMap : ℕ → ℕ → Bool} {n : ℕ} (hp : Passes resultMap n) :
    RowSelected resultMap n (findOptimalTimingRows true h resultMap n).selected := by
  obtain ⟨i₀, hi₀, j₀, hj₀, hp₀⟩ := hp
  obtain ⟨i, hi, he, -, hsel⟩ := rows_eq h resultMap (show 0 < n by omega)
  rw [hsel]
  set l := maxRowLength resultMap n with hl
  have hspec := best_spec (resultMap i) EFX_EMMC_MAX_PLL_SHIFT
  have hmax := (maxRowLength_spec resultMap n).1
  have hpos : 0 < l := lt_of_lt_of_le ((best_spec _ _).pos_iff.2 ⟨j₀, hj₀, hp₀⟩) (hmax i₀ hi₀)
  set s := (best (resultMap i) EFX_EMMC_MAX_PLL_SHIFT).2 with hs
  have hrun : IsRun (resultMap i) EFX_EMMC_MAX_PLL_SHIFT s l := by
    have := hspec.run; rwa [he] at this
  have hpll : (findCenterOfConsecutiveOnes (resultMap i) EFX_EMMC_MAX_PLL_SHIFT).toNat =
      s + Pick.center.offset l := by
    rw [findCenter_eq, he, if_neg (by omega), Int.toNat_natCast, ← hs]; rfl
  have hoff := Pick.center.offset_lt hpos
  have h8 := hrun.1
  rw [hpll]
  refine ⟨hi, by simp only; omega, hrun.2 _ hoff, ⟨s, hrun, rfl⟩, ?_, ?_⟩
  · intro i' hi' s' l' h'
    exact le_trans ((best_spec (resultMap i') _).longest _ _ h') (hmax i' hi')
  · simp only [EFX_EMMC_MAX_PLL_SHIFT] at h8 ⊢; omega

/-! ## The selection -/

/-- **The heap calls of a selection**: only without a flat map does it free what it has not allocated. -/
theorem findOptimalTiming_heap (kmallocOk : Bool) (h : Host) (resultMap : ℕ → ℕ → Bool) (n : ℕ) :
    (findOptimalTiming kmallocOk h resultMap n).heap =
      if n > 8 then (if kmallocOk then [.kmallocRows, .kfreeRows] else [])
      else if kmallocOk then [.kmallocFlat, .kfreeFlat] else [.kfreeUninit] := by
  unfold findOptimalTiming
  by_cases h8 : n > 8
  · rw [if_pos h8, if_pos h8]
    unfold findOptimalTimingRows
    cases kmallocOk with
    | false => rfl
    | true =>
      simp only [Bool.not_true, Bool.false_eq_true, if_false]
      split <;> rfl
  · rw [if_neg h8, if_neg h8]
    unfold findOptimalTimingFlat
    cases kmallocOk with
    | false => rfl
    | true =>
      simp only [Bool.not_true, Bool.false_eq_true, if_false]
      split <;> rfl

theorem findOptimalTiming_freed (kmallocOk : Bool) (h : Host) (resultMap : ℕ → ℕ → Bool) (n : ℕ) :
    HeapEv.kfreeUninit ∉ (findOptimalTiming kmallocOk h resultMap n).heap ↔ 8 < n ∨ kmallocOk = true := by
  rw [findOptimalTiming_heap]
  by_cases h8 : n > 8
  · rw [if_pos h8]
    refine iff_of_true ?_ (Or.inl h8)
    cases kmallocOk <;> simp
  · rw [if_neg h8]
    cases kmallocOk with
    | false => simp [h8]
    | true => simp

theorem flat_longest_iff (h : Host) (resultMap : ℕ → ℕ → Bool) {n : ℕ} (hn : 1 ≤ n) (h8 : ¬n > 8) :
    SelectsLongest h resultMap n (findOptimalTiming true h resultMap n) ↔
      (Passes resultMap n ∧ Fails resultMap n) ∨ (¬Passes resultMap n ∧ h.pick ≠ .center) := by
  have hfreed := (findOptimalTiming_freed true h resultMap n).2 (Or.inr rfl)
  unfold findOptimalTiming at hfreed ⊢
  rw [if_neg h8] at hfreed ⊢
  set N := n * EFX_EMMC_MAX_PLL_SHIFT with hN
  rcases hb : best (doubled (point resultMap) N) (N * 2) with ⟨l, s⟩
  have hNpos : 0 < N := by simp only [EFX_EMMC_MAX_PLL_SHIFT] at hN; omega
  obtain ⟨hnone, hedge, hsome⟩ := flat_eq h resultMap n hb
  have hspec := best_spec (doubled (point resultMap) N) (N * 2)
  rw [hb] at hspec
  simp only at hspec
  by_cases hp : Passes resultMap n
  · by_cases hf : Fails resultMap n
    · refine iff_of_true ⟨?_, flat_stored true h resultMap n, fun h' => absurd hp h', hfreed⟩
        (Or.inl ⟨hp, hf⟩)
      intro _
      rw [Selected, if_neg h8]; exact flat_selected h hp hf
    · -- every point passes: the margin counts both turns
      refine iff_of_false ?_ (by tauto)
      intro hs
      have hall : ∀ k, k < N → point resultMap k = true := by
        intro k hk
        by_contra hne
        exact hf ((passes_iff_point resultMap n false).2 ⟨k, hk, by simpa using hne⟩)
      have hfull := best_full hall hNpos
      rw [Nat.mul_comm, hb, Prod.mk.injEq] at hfull
      obtain ⟨hret, hm, -, -⟩ := hsome (by omega)
      have hle := hs.selected hret
      rw [Selected, if_neg h8] at hle
      have := hle.margin_le
      omega
  · have hl : l = 0 := by
      by_contra hne
      obtain ⟨k, hk, hpk⟩ := hspec.pos_iff.1 (Nat.pos_of_ne_zero hne)
      exact hp ((passes_iff_point resultMap n true).2 ⟨k % N, Nat.mod_lt _ hNpos, hpk⟩)
    by_cases hc : h.pick = .center
    · exact iff_of_false (fun hs => hs.error hp (hnone hl hc)) (by tauto)
    · have hret := hedge hl hc
      have hne : (findOptimalTimingFlat true h resultMap n).ret ≠ 0 := by rw [hret]; decide
      exact iff_of_true ⟨fun h' => absurd h' hne, fun h' => absurd h' hne, fun _ => hne, hfreed⟩
        (Or.inr ⟨hp, hc⟩)

theorem rows_longest_iff (h : Host) (resultMap : ℕ → ℕ → Bool) {n : ℕ} (h8 : n > 8) :
    SelectsLongest h resultMap n (findOptimalTiming true h resultMap n) ↔ Passes resultMap n := by
  have hfreed := (findOptimalTiming_freed true h resultMap n).2 (Or.inl h8)
  unfold findOptimalTiming at hfreed ⊢
  rw [if_pos h8] at hfreed ⊢
  obtain ⟨i, -, -, hret, -⟩ := rows_eq h resultMap (show 0 < n by omega)
  constructor
  · intro hs
    by_contra hp
    exact hs.error hp hret
  · intro hp
    refine ⟨?_, rows_stored true h resultMap n, fun h' => absurd hp h', hfreed⟩
    intro _
    rw [Selected, if_pos h8]; exact rows_selected h hp

/-- Without memory the selection reports an error. -/
theorem no_memory (h : Host) (resultMap : ℕ → ℕ → Bool) (n : ℕ) :
    (findOptimalTiming false h resultMap n).ret = -ENOMEM := by
  unfold findOptimalTiming; split <;> rfl

/-- **When the selection does what it is for.** -/
theorem findOptimalTiming_longest_iff (kmallocOk : Bool) (h : Host) (resultMap : ℕ → ℕ → Bool)
    {n : ℕ} (hn : 1 ≤ n) :
    SelectsLongest h resultMap n (findOptimalTiming kmallocOk h resultMap n) ↔
      SelectionOk kmallocOk h resultMap n := by
  unfold SelectionOk
  cases kmallocOk with
  | false =>
    have hne : (findOptimalTiming false h resultMap n).ret ≠ 0 := by rw [no_memory]; decide
    have hfreed := findOptimalTiming_freed false h resultMap n
    by_cases h8 : n > 8
    · rw [if_pos h8]
      exact iff_of_true
        ⟨fun h' => absurd h' hne, fun h' => absurd h' hne, fun _ => hne, hfreed.2 (Or.inl h8)⟩ (Or.inl rfl)
    · -- what it frees was never assigned
      rw [if_neg h8]
      refine iff_of_false ?_ fun hok => Bool.false_ne_true hok.1
      intro hs
      exact (hfreed.1 hs.freed).elim h8 Bool.false_ne_true
  | true =>
    by_cases h8 : n > 8
    · rw [if_pos h8, rows_longest_iff h resultMap h8]
      simp only [Bool.true_eq_false, false_or]
    · rw [if_neg h8, flat_longest_iff h resultMap hn h8]
      simp only [true_and]

/-- Two samples, one passing point, HS400: the iff applies and the point is selected. -/
theorem findOptimalTiming_longest_iff_two :
    SelectsLongest { Host.probed 0 (by decide) with timing := .mmcHs400 }
      (fun i j => decide (i = 1 ∧ j = 3)) 2
      (findOptimalTiming true { Host.probed 0 (by decide) with timing := .mmcHs400 }
        (fun i j => decide (i = 1 ∧ j = 3)) 2) :=
  (findOptimalTiming_longest_iff true _ _ (by decide)).2
    ⟨rfl, Or.inl ⟨⟨1, by decide, 3, by decide, rfl⟩, ⟨0, by decide, 0, by decide, rfl⟩⟩⟩

/-- **One sample, no passing point, HS400**: point `(0, 0)` is selected and success reported. -/
theorem findOptimalTiming_no_point :
    ¬SelectsLongest { Host.probed 0 (by decide) with timing := .mmcHs400 } (fun _ _ => false) 1
      (findOptimalTiming true { Host.probed 0 (by decide) with timing := .mmcHs400 }
        (fun _ _ => false) 1) := by
  intro hs
  refine hs.error ?_ (by decide)
  rintro ⟨i, -, j, -, h⟩
  exact absurd h (by simp)

end Br2Efinix.Emmc
