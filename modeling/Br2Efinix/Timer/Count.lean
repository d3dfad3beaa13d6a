import Mathlib.Algebra.GroupWithZero.Nat
import Mathlib.Data.Nat.Notation

/-!
# The 64-bit timer on a 32-bit system

`vexriscv_timer_read`: `mtime` is read as two halves, again and again until the high half has not changed around the
read of the low one. Time is a number of moments; between any two reads any number of them can pass, and the counter
can advance by any amount.

* `read_linearizable`: what a call returns is the value of the counter when it read the low half for the last time.
* `read_returns`: a call returns when the high half is stable around one of its reads of the low half.
* `counts_linearizable`: **every call returns a value of the counter between its start and its end, and the values of
  successive calls never decrease.**
-/

namespace Br2Efinix.Timer

/-- The `mtime` register: the value of the counter at each moment. It only increases, so it does not wrap around. -/
structure Mtime where
  count : ℕ → UInt64
  increases : ∀ {earlier later : ℕ}, earlier ≤ later → count earlier ≤ count later

/-- `readl` of the word at the offset. -/
def Mtime.readl (mtime : Mtime) (moment offset : ℕ) : UInt32 :=
  (mtime.count moment >>> (8 * offset).toUInt64).toUInt32

/-- `(u64)hi << 32 | lo` -/
def join (hi lo : UInt32) : UInt64 := hi.toUInt64 <<< 32 ||| lo.toUInt64

/-- `vexriscv_timer_read`, called at `moment`: what it returns and when, `none` while it has not returned. The list
gives the moments that pass before each of its reads. -/
def vexriscvTimerRead (mtime : Mtime) : ℕ → List ℕ → Option (UInt64 × ℕ)
  | moment, beforeHi :: beforeLo :: beforeCheck :: later =>
    let atHi := moment + beforeHi
    let atLo := atHi + beforeLo
    let atCheck := atLo + beforeCheck
    let hi := mtime.readl atHi 4
    let lo := mtime.readl atLo 0
    if hi ≠ mtime.readl atCheck 4 then vexriscvTimerRead mtime atCheck later else some (join hi lo, atCheck)
  | _, _ => none

/-- A call of `vexriscv_timer_get_count` or `timer_early_get_count`: the moments that pass before it and before each
of its reads. -/
structure Call where
  idle : ℕ
  reads : List ℕ

/-- A call that has returned. -/
structure Returned where
  called : ℕ
  value : UInt64
  returned : ℕ

/-- Successive calls, up to one that does not return. -/
def counts (mtime : Mtime) : ℕ → List Call → List Returned
  | _, [] => []
  | moment, call :: calls =>
    match vexriscvTimerRead mtime (moment + call.idle) call.reads with
    | none => []
    | some (value, returned) => ⟨moment + call.idle, value, returned⟩ :: counts mtime returned calls

/-- The value of the counter at a moment between the call and the return. -/
def Returned.Linearizable (mtime : Mtime) (r : Returned) : Prop :=
  ∃ moment, r.called ≤ moment ∧ moment ≤ r.returned ∧ r.value = mtime.count moment

variable {mtime : Mtime}

theorem readl_lo (moment : ℕ) : mtime.readl moment 0 = (mtime.count moment).toUInt32 := by
  unfold Mtime.readl
  have hshift : mtime.count moment >>> (8 * 0).toUInt64 = mtime.count moment := UInt64.shiftRight_zero
  rw [hshift]

theorem readl_hi_toNat (moment : ℕ) : (mtime.readl moment 4).toNat = (mtime.count moment).toNat / 2 ^ 32 := by
  have hlt := (mtime.count moment).toNat_lt
  have hshift : (mtime.count moment >>> (8 * 4).toUInt64).toNat = (mtime.count moment).toNat / 2 ^ 32 := by
    rw [UInt64.toNat_shiftRight, Nat.shiftRight_eq_div_pow]
    rfl
  unfold Mtime.readl
  rw [UInt64.toNat_toUInt32, hshift]
  exact Nat.mod_eq_of_lt (by omega)

theorem readl_hi_mono {earlier later : ℕ} (h : earlier ≤ later) :
    (mtime.readl earlier 4).toNat ≤ (mtime.readl later 4).toNat := by
  rw [readl_hi_toNat, readl_hi_toNat]
  exact Nat.div_le_div_right (UInt64.le_iff_toNat_le.1 (mtime.increases h))

/-- A high half that is the same at two moments was the same between them. -/
theorem readl_hi_between {atHi atLo atCheck : ℕ} (h₁ : atHi ≤ atLo) (h₂ : atLo ≤ atCheck)
    (hstable : mtime.readl atHi 4 = mtime.readl atCheck 4) : mtime.readl atHi 4 = mtime.readl atLo 4 := by
  have hup : (mtime.readl atHi 4).toNat ≤ (mtime.readl atLo 4).toNat := readl_hi_mono h₁
  have hdown : (mtime.readl atLo 4).toNat ≤ (mtime.readl atCheck 4).toNat := readl_hi_mono h₂
  rw [← hstable] at hdown
  exact UInt32.toNat_inj.1 (Nat.le_antisymm hup hdown)

/-- The two halves of one moment. -/
theorem join_readl (moment : ℕ) : join (mtime.readl moment 4) (mtime.readl moment 0) = mtime.count moment := by
  have hlt := (mtime.count moment).toNat_lt
  have hhi : ((mtime.readl moment 4).toUInt64 <<< 32).toNat = (mtime.count moment).toNat / 2 ^ 32 * 2 ^ 32 := by
    have h32 : (32 : UInt64).toNat % 64 = 32 := by decide
    rw [UInt64.toNat_shiftLeft, UInt32.toNat_toUInt64, readl_hi_toNat, h32, Nat.shiftLeft_eq]
    exact Nat.mod_eq_of_lt (by omega)
  have hlo : (mtime.readl moment 0).toUInt64.toNat = (mtime.count moment).toNat % 2 ^ 32 := by
    rw [UInt32.toNat_toUInt64, readl_lo, UInt64.toNat_toUInt32]
  apply UInt64.toNat_inj.1
  unfold join
  rw [UInt64.toNat_or, hhi, hlo, Nat.mul_comm, ← Nat.two_pow_add_eq_or_of_lt (Nat.mod_lt _ (by decide))]
  exact Nat.div_add_mod _ _

/-- **A call returns the value that the counter had** when it read the low half for the last time. -/
theorem read_linearizable {moment returned : ℕ} {reads : List ℕ} {value : UInt64}
    (hread : vexriscvTimerRead mtime moment reads = some (value, returned)) :
    ∃ at', moment ≤ at' ∧ at' ≤ returned ∧ value = mtime.count at' := by
  induction moment, reads using vexriscvTimerRead.induct mtime with
  | case1 moment beforeHi beforeLo beforeCheck later atHi atLo atCheck hi hchanged ih =>
    rw [vexriscvTimerRead, if_pos hchanged] at hread
    obtain ⟨at', hafter, hbefore, hvalue⟩ := ih hread
    exact ⟨at', by omega, hbefore, hvalue⟩
  | case2 moment beforeHi beforeLo beforeCheck later atHi atLo atCheck hi hstable =>
    rw [vexriscvTimerRead, if_neg hstable] at hread
    cases hread
    -- the high half is that of the moment when the low one was read
    have hbetween := readl_hi_between (Nat.le_add_right atHi beforeLo) (Nat.le_add_right atLo beforeCheck)
      (Decidable.not_not.1 hstable)
    refine ⟨atLo, by omega, by omega, ?_⟩
    rw [hbetween]
    exact join_readl atLo
  | case3 moment reads hshort =>
    rw [vexriscvTimerRead] at hread
    · cases hread
    · exact hshort

/-- `mtime` when it carries into its high half after moment 0. -/
def carryCount (moment : ℕ) : UInt64 := if moment = 0 then 0xFFFFFFFF else 0x100000000

theorem carryCount_increases {earlier later : ℕ} (h : earlier ≤ later) : carryCount earlier ≤ carryCount later := by
  unfold carryCount
  by_cases hlater : later = 0
  · rw [if_pos hlater, if_pos (by omega)]
    exact UInt64.le_refl _
  · rw [if_neg hlater]
    split
    · exact show (0xFFFFFFFF : UInt64) ≤ 0x100000000 by decide
    · exact UInt64.le_refl _

/-- A call returns when the high half is stable around one of its reads of the low half. -/
theorem read_returns {moment beforeHi beforeLo beforeCheck : ℕ} (later : List ℕ)
    (hstable : mtime.readl (moment + beforeHi) 4 = mtime.readl (moment + beforeHi + beforeLo + beforeCheck) 4) :
    vexriscvTimerRead mtime moment (beforeHi :: beforeLo :: beforeCheck :: later) =
      some (mtime.count (moment + beforeHi + beforeLo), moment + beforeHi + beforeLo + beforeCheck) := by
  have hbetween := readl_hi_between (Nat.le_add_right (moment + beforeHi) beforeLo)
    (Nat.le_add_right (moment + beforeHi + beforeLo) beforeCheck) hstable
  rw [vexriscvTimerRead, if_neg (Decidable.not_not.2 hstable), hbetween, join_readl]

/-- It reads again when it is not. -/
theorem read_again {moment beforeHi beforeLo beforeCheck : ℕ} (later : List ℕ)
    (hmoved : mtime.readl (moment + beforeHi) 4 ≠ mtime.readl (moment + beforeHi + beforeLo + beforeCheck) 4) :
    vexriscvTimerRead mtime moment (beforeHi :: beforeLo :: beforeCheck :: later) =
      vexriscvTimerRead mtime (moment + beforeHi + beforeLo + beforeCheck) later := by
  rw [vexriscvTimerRead, if_pos hmoved]

/-- The carry between the reads of the halves is seen, and the second round returns. -/
theorem read_returns_carry :
    vexriscvTimerRead ⟨carryCount, carryCount_increases⟩ 0 [0, 1, 1, 1, 1, 1] = some (0x100000000, 5) :=
  (read_again [1, 1, 1] (by decide)).trans (read_returns [] rfl)

/-- A call that has returned did so after its start, with a value between them. -/
theorem Returned.Linearizable.bounds {r : Returned} (h : r.Linearizable mtime) :
    r.called ≤ r.returned ∧ mtime.count r.called ≤ r.value ∧ r.value ≤ mtime.count r.returned := by
  obtain ⟨moment, hafter, hbefore, hvalue⟩ := h
  rw [hvalue]
  exact ⟨Nat.le_trans hafter hbefore, mtime.increases hafter, mtime.increases hbefore⟩

/-- Every call of a run starts after the run does and is linearizable. -/
theorem counts_after (mtime : Mtime) :
    ∀ (calls : List Call) (moment : ℕ), ∀ r ∈ counts mtime moment calls, moment ≤ r.called ∧ r.Linearizable mtime := by
  intro calls
  induction calls with
  | nil =>
    intro moment r hr
    cases hr
  | cons call calls ih =>
    intro moment r hr
    rw [counts] at hr
    cases hread : vexriscvTimerRead mtime (moment + call.idle) call.reads with
    | none =>
      rw [hread] at hr
      cases hr
    | some result =>
      have hfirst := read_linearizable hread
      rw [hread] at hr
      cases hr with
      | head => exact ⟨Nat.le_add_right _ _, hfirst⟩
      | tail _ hr =>
        obtain ⟨hlater, hr⟩ := ih _ r hr
        obtain ⟨at', hafter, hbefore, -⟩ := hfirst
        exact ⟨by omega, hr⟩

/-- The values of successive calls never decrease. -/
theorem counts_sorted (mtime : Mtime) (calls : List Call) (moment : ℕ) :
    (counts mtime moment calls).Pairwise fun earlier later => earlier.value ≤ later.value := by
  induction calls generalizing moment with
  | nil => exact List.Pairwise.nil
  | cons call calls ih =>
    rw [counts]
    cases hread : vexriscvTimerRead mtime (moment + call.idle) call.reads with
    | none => exact List.Pairwise.nil
    | some result =>
      refine List.pairwise_cons.2 ⟨?_, ih result.2⟩
      intro later hlater
      -- a later call starts when this one has returned
      obtain ⟨hcalled, hlin⟩ := counts_after mtime calls result.2 later hlater
      have hfirst : result.1 ≤ mtime.count result.2 :=
        (Returned.Linearizable.bounds (r := ⟨moment + call.idle, result.1, result.2⟩) (read_linearizable hread)).2.2
      exact UInt64.le_trans hfirst (UInt64.le_trans (mtime.increases hcalled) hlin.bounds.2.1)

/-- **The counter is read as one word**: every call returns a value of the counter between its start and its end, and
the values of successive calls never decrease. When a call does return, `read_returns` says. -/
theorem counts_linearizable (mtime : Mtime) (moment : ℕ) (calls : List Call) :
    (∀ r ∈ counts mtime moment calls, r.Linearizable mtime) ∧
      (counts mtime moment calls).Pairwise fun earlier later => earlier.value ≤ later.value :=
  ⟨fun r hr => (counts_after mtime calls moment r hr).2, counts_sorted mtime calls moment⟩

end Br2Efinix.Timer
