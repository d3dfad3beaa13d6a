import Mathlib.Algebra.GroupWithZero.Nat
import Br2Efinix.Watchdog.Config

/-!
# The time left

`efx_wdt_get_timeleft` after `efx_wdt_set_timeout`, for the values of the up-counter up to its limit.

* `getTimeleft_ms`: it returns milliseconds.
* `getTimeleft_limit`: at the limit, which is one more, it wraps around.
* `timeleft_never`: **it is right for no timeout and no value.**
-/

namespace Br2Efinix.Watchdog

/-- `efx_wdt_get_timeleft`, with what it reads from `EFX_WDT_COUNTER_1_VAL`. -/
def Wdt.getTimeleft (w : Wdt) (value : BitVec 32) : BitVec 32 := BitVec.ofNat 32 (w.timeout * 1000) - value

/-- The time left is right for a value of the counter: it is the rest up to the limit, in seconds rounded in either
way, no more than the timeout, the subtraction does not wrap around, and no later value gives more. -/
structure TimeleftRight (w : Wdt) (value : BitVec 32) : Prop where
  rounded_up : w.counter1.toNat - value.toNat ≤ (w.getTimeleft value).toNat * 1000 + 999
  rounded_down : (w.getTimeleft value).toNat * 1000 ≤ w.counter1.toNat - value.toNat + 999
  le_timeout : (w.getTimeleft value).toNat ≤ w.timeout
  noWrap : value.toNat ≤ w.timeout * 1000
  antitone : ∀ later : BitVec 32, value.toNat ≤ later.toNat → later.toNat ≤ w.counter1.toNat →
    (w.getTimeleft later).toNat ≤ (w.getTimeleft value).toNat

variable {w : Wdt} {value : BitVec 32}

/-- What `efx_wdt_set_timeout` leaves of the timeout and its counter. -/
theorem setTimeout_counter1 (w : Wdt) (newTimeout : ℕ) :
    (w.setTimeout newTimeout).timeout ≤ 65 ∧
      (w.setTimeout newTimeout).counter1.toNat = (w.setTimeout newTimeout).timeout * 1000 + 1 := by
  have hle : min newTimeout EFX_WDT_MAX_TIME ≤ EFX_WDT_MAX_TIME := Nat.min_le_right _ _
  rw [setTimeout_eq, setPretimeout_eq]
  exact ⟨hle, limit_toNat hle⟩

theorem timeout_ms (htimeout : w.timeout ≤ 65) : (BitVec.ofNat 32 (w.timeout * 1000)).toNat = w.timeout * 1000 := by
  rw [BitVec.toNat_ofNat]
  exact Nat.mod_eq_of_lt (by omega)

/-- Below the limit the result is the rest in milliseconds. -/
theorem getTimeleft_ms (htimeout : w.timeout ≤ 65) (hvalue : value.toNat ≤ w.timeout * 1000) :
    (w.getTimeleft value).toNat = w.timeout * 1000 - value.toNat := by
  have hms := timeout_ms htimeout
  unfold Wdt.getTimeleft
  rw [BitVec.toNat_sub, hms]
  omega

/-- At the limit it is the largest word. -/
theorem getTimeleft_limit (htimeout : w.timeout ≤ 65) (hvalue : value.toNat = w.timeout * 1000 + 1) :
    (w.getTimeleft value).toNat = 2 ^ 32 - 1 := by
  have hms := timeout_ms htimeout
  unfold Wdt.getTimeleft
  rw [BitVec.toNat_sub, hms]
  omega

/-- **The time left is never right**: below the limit the value at the limit gives more, and there it is more than the
timeout. -/
theorem timeleft_never (w : Wdt) (newTimeout : ℕ) {value : BitVec 32}
    (hvalue : value.toNat ≤ (w.setTimeout newTimeout).counter1.toNat) :
    ¬ TimeleftRight (w.setTimeout newTimeout) value := by
  obtain ⟨htimeout, hlimit⟩ := setTimeout_counter1 w newTimeout
  intro h
  have hle := h.le_timeout
  rcases Nat.lt_or_eq_of_le hvalue with hlt | heq
  · have hmax := getTimeleft_limit htimeout hlimit
    have hlater := h.antitone (w.setTimeout newTimeout).counter1 hvalue (Nat.le_refl _)
    omega
  · have hmax := getTimeleft_limit htimeout (heq.trans hlimit)
    omega

/-- A timeout of 60 seconds, when its counter has just started. -/
theorem timeleft_at_start : ¬ TimeleftRight (probed.setTimeout 60) 0#32 := timeleft_never probed 60 (by decide)

/-- **60 seconds** are returned as 60000 at the start, and as 4294967295 at the limit. -/
theorem timeleft_of_60 :
    ¬ (∀ value : BitVec 32, value.toNat ≤ (probed.setTimeout 60).counter1.toNat →
        TimeleftRight (probed.setTimeout 60) value) ∧
      (probed.setTimeout 60).getTimeleft 0#32 = 60000#32 ∧
      (probed.setTimeout 60).getTimeleft (probed.setTimeout 60).counter1 = 0xFFFFFFFF#32 := by
  have hstart : (probed.setTimeout 60).getTimeleft 0#32 = 60000#32 := by decide
  refine ⟨?_, hstart, by decide⟩
  intro h
  have hle := (h 0#32 (by decide)).le_timeout
  rw [hstart] at hle
  exact absurd hle (by decide)

end Br2Efinix.Watchdog
