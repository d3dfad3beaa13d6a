import Mathlib.Algebra.GroupWithZero.Nat
import Mathlib.Data.Nat.ModEq
import Br2Efinix.Lib.Machine

/-!
# The error statistics

The error counters of the MAC have 32 bits and wrap around. `tsemac_tx_poll` and `tsemac_rx_poll` add
what has come since the last reading to `stats.tx_errors` and `stats.rx_errors`, each by a formula of
its own.

* `rx_delta`: the receive formula is right across a wrap-around.
* `error_stats_iff`: the statistics are exact after each poll of a run exactly when no reading of the
  transmit counter is below the one before.
-/

namespace Br2Efinix.Tsemac

def UINT_MAX : BitVec 32 := 0xFFFFFFFF#32

/-- `prev_tx_err`, `prev_rx_err` and the statistics, which are `unsigned long`s of `w` bits. Only observed
are the errors that the hardware has counted since the interface was opened, and how many they were at
the last reading. -/
structure ErrorStats (w : ℕ) where
  prevTxErr : BitVec 64
  prevRxErr : BitVec 64
  txErrors : BitVec w
  rxErrors : BitVec w
  txCounted : ℕ
  rxCounted : ℕ
  txRead : ℕ
  rxRead : ℕ

/-- The hardware counts errors, and the polls read the counters; `packets` is what
`tsemac_free_tx_chain` returns. -/
inductive ErrorAct
  | countTx (errors : ℕ)
  | countRx (errors : ℕ)
  | txPoll (packets : ℕ)
  | rxPoll
  deriving DecidableEq, Repr

namespace ErrorStats

variable {w : ℕ}

/-- `TSEMAC_IF_OUT_ERRORS`. -/
def ifOutErrors (s : ErrorStats w) : BitVec 32 := BitVec.ofNat 32 s.txCounted

/-- `TSEMAC_IF_IN_ERRORS`. -/
def ifInErrors (s : ErrorStats w) : BitVec 32 := BitVec.ofNat 32 s.rxCounted

/-- The errors in `tsemac_tx_poll`, which reads the counter only when it has freed something. -/
def txPoll (s : ErrorStats w) (packets : ℕ) : ErrorStats w :=
  if packets ≠ 0 then
    let err := s.ifOutErrors.setWidth 64
    { s with
      txErrors := if s.prevTxErr < err then s.txErrors + (err - s.prevTxErr).setWidth w else s.txErrors
      prevTxErr := err
      txRead := s.txCounted }
  else s

/-- The difference that `tsemac_rx_poll` takes. -/
def rxDelta (newErr prev : BitVec 32) : BitVec 32 :=
  if prev ≤ newErr then newErr - prev else newErr + (UINT_MAX - prev) + 1#32

/-- The errors in `tsemac_rx_poll`. -/
def rxPoll (s : ErrorStats w) : ErrorStats w :=
  { s with
    rxErrors := s.rxErrors + (rxDelta s.ifInErrors (s.prevRxErr.setWidth 32)).setWidth w
    prevRxErr := s.ifInErrors.setWidth 64
    rxRead := s.rxCounted }

def next (s : ErrorStats w) : ErrorAct → Option (ErrorStats w)
  | .countTx errors => some { s with txCounted := s.txCounted + errors }
  | .countRx errors => some { s with rxCounted := s.rxCounted + errors }
  | .txPoll packets => some (s.txPoll packets)
  | .rxPoll => some s.rxPoll

/-- After `tsemac_device_reset`, which also resets the counters of the MAC. -/
def opened (w : ℕ) : ErrorStats w := ⟨0#64, 0#64, 0#w, 0#w, 0, 0, 0, 0⟩

end ErrorStats

def errorStats (w : ℕ) : Machine (ErrorStats w) ErrorAct :=
  { init := fun s => s = .opened w, step := ErrorStats.next }

variable {w : ℕ} {s s' : ErrorStats w}

/-- The statistics are the errors counted up to the last readings. -/
structure Exact (s : ErrorStats w) : Prop where
  tx : s.txErrors = BitVec.ofNat w s.txRead
  rx : s.rxErrors = BitVec.ofNat w s.rxRead

/-- A counter is read before it has come round. -/
def Frequent (s : ErrorStats w) : ErrorAct → Prop
  | .txPoll packets => packets ≠ 0 → s.txCounted - s.txRead < 2 ^ 32
  | .rxPoll => s.rxCounted - s.rxRead < 2 ^ 32
  | _ => True

instance (s : ErrorStats w) : ∀ a, Decidable (Frequent s a)
  | .txPoll packets => inferInstanceAs (Decidable (packets ≠ 0 → s.txCounted - s.txRead < 2 ^ 32))
  | .rxPoll => inferInstanceAs (Decidable (s.rxCounted - s.rxRead < 2 ^ 32))
  | .countTx _ | .countRx _ => isTrue trivial

/-- The transmit counter is not read below its last reading. -/
def NotBelow (s : ErrorStats w) : ErrorAct → Prop
  | .txPoll packets => packets ≠ 0 → s.prevTxErr ≤ s.ifOutErrors.setWidth 64
  | _ => True

instance (s : ErrorStats w) : ∀ a, Decidable (NotBelow s a)
  | .txPoll packets => inferInstanceAs (Decidable (packets ≠ 0 → s.prevTxErr ≤ s.ifOutErrors.setWidth 64))
  | .rxPoll | .countTx _ | .countRx _ => isTrue trivial

/-! ## The differences -/

/-- **The receive difference** is the errors since the last reading, wrap-around or not. -/
theorem rx_delta (a d : ℕ) :
    ErrorStats.rxDelta (BitVec.ofNat 32 (a + d)) (BitVec.ofNat 32 a) = BitVec.ofNat 32 d := by
  have hsub : BitVec.ofNat 32 (a + d) - BitVec.ofNat 32 a = BitVec.ofNat 32 d := by
    rw [BitVec.ofNat_add, BitVec.add_comm, BitVec.add_sub_cancel]
  unfold ErrorStats.rxDelta
  split
  · exact hsub
  · rw [← hsub]
    unfold UINT_MAX
    generalize BitVec.ofNat 32 (a + d) = x
    generalize BitVec.ofNat 32 a = y
    bv_omega

/-- Fewer than `2 ^ 32` errors are added to the statistics as they are. -/
theorem add_errors {d : ℕ} (a : ℕ) {x : ℕ} {v : BitVec x} (hv : v.toNat = d) :
    BitVec.ofNat w a + v.setWidth w = BitVec.ofNat w (a + d) := by
  apply BitVec.eq_of_toNat_eq
  rw [BitVec.toNat_add, BitVec.toNat_setWidth, BitVec.toNat_ofNat, BitVec.toNat_ofNat, hv, ← Nat.add_mod]

/-- A reading that is kept in 64 bits. -/
theorem toNat_reading (a : ℕ) : ((BitVec.ofNat 32 a).setWidth 64).toNat = a % 2 ^ 32 := by
  rw [BitVec.toNat_setWidth, BitVec.toNat_ofNat]
  exact Nat.mod_eq_of_lt (by omega)

/-! ## The runs -/

structure StatsInv (s : ErrorStats w) : Prop where
  exact_ : Exact s
  prevTx : s.prevTxErr = (BitVec.ofNat 32 s.txRead).setWidth 64
  prevRx : s.prevRxErr = (BitVec.ofNat 32 s.rxRead).setWidth 64
  tx_le : s.txRead ≤ s.txCounted
  rx_le : s.rxRead ≤ s.rxCounted

theorem opened_inv : StatsInv (.opened w) := by
  refine ⟨⟨?_, ?_⟩, rfl, rfl, le_rfl, le_rfl⟩
  · rfl
  · rfl

/-- **Reading the receive counter** keeps its statistics exact. -/
theorem rxPoll_exact (h : StatsInv s) (hlt : s.rxCounted - s.rxRead < 2 ^ 32) :
    s.rxPoll.rxErrors = BitVec.ofNat w s.rxCounted := by
  obtain ⟨d, hd⟩ : ∃ d, s.rxCounted = s.rxRead + d := ⟨s.rxCounted - s.rxRead, by have := h.rx_le; omega⟩
  have hprev : s.prevRxErr.setWidth 32 = BitVec.ofNat 32 s.rxRead := by
    rw [h.prevRx]
    simp
  unfold ErrorStats.rxPoll ErrorStats.ifInErrors
  simp only
  rw [hprev, hd, rx_delta, h.exact_.rx]
  apply add_errors
  rw [BitVec.toNat_ofNat]
  exact Nat.mod_eq_of_lt (by omega)

/-- **Reading the transmit counter** keeps its statistics exact unless the reading is below the last one. -/
theorem txPoll_exact_iff (hw : 32 ≤ w) (h : StatsInv s) {packets : ℕ} (hp : packets ≠ 0)
    (hlt : s.txCounted - s.txRead < 2 ^ 32) :
    (s.txPoll packets).txErrors = BitVec.ofNat w s.txCounted ↔ NotBelow s (.txPoll packets) := by
  obtain ⟨d, hd⟩ : ∃ d, s.txCounted = s.txRead + d := ⟨s.txCounted - s.txRead, by have := h.tx_le; omega⟩
  have hlt : d < 2 ^ 32 := by omega
  have hprev : s.prevTxErr.toNat = s.txRead % 2 ^ 32 := by rw [h.prevTx, toNat_reading]
  have herr : (s.ifOutErrors.setWidth 64).toNat = (s.txRead + d) % 2 ^ 32 := by
    unfold ErrorStats.ifOutErrors
    rw [toNat_reading, hd]
  have hbelow : NotBelow s (.txPoll packets) ↔ s.txRead % 2 ^ 32 ≤ (s.txRead + d) % 2 ^ 32 := by
    unfold NotBelow
    rw [BitVec.le_def, hprev, herr]
    exact ⟨fun hle => hle hp, fun hle _ => hle⟩
  rw [hbelow]
  unfold ErrorStats.txPoll
  rw [if_pos hp]
  simp only
  rw [h.exact_.tx, hd]
  split
  · rename_i hnew
    rw [BitVec.lt_def, hprev, herr] at hnew
    refine iff_of_true ?_ hnew.le
    apply add_errors
    rw [BitVec.toNat_sub_of_le (by rw [BitVec.le_def, hprev, herr]; exact hnew.le), hprev, herr]
    omega
  · rename_i hold
    rw [BitVec.lt_def, hprev, herr] at hold
    constructor
    · intro heq
      -- nothing is added, so nothing has come
      have hpow : 2 ^ 32 ≤ 2 ^ w := Nat.pow_le_pow_right (by decide) hw
      have hmod := congrArg BitVec.toNat heq
      rw [BitVec.toNat_ofNat, BitVec.toNat_ofNat] at hmod
      have hzero : d % 2 ^ w = 0 := by
        have hmod' : s.txRead + d ≡ s.txRead + 0 [MOD 2 ^ w] := hmod.symm
        exact Nat.ModEq.add_left_cancel' s.txRead hmod'
      rw [Nat.mod_eq_of_lt (by omega)] at hzero
      rw [hzero]
      exact le_rfl
    · intro hle
      rw [show d = 0 by omega]
      rfl

/-- Without a reading the statistics stay. -/
theorem next_inv {a : ErrorAct} (h : StatsInv s) (hexact : Exact s') (hst : s.next a = some s') : StatsInv s' := by
  obtain ⟨-, hprevTx, hprevRx, htx, hrx⟩ := h
  cases a with
  | countTx errors =>
    obtain rfl := Option.some.inj hst
    exact ⟨hexact, hprevTx, hprevRx, Nat.le_add_right_of_le htx, hrx⟩
  | countRx errors =>
    obtain rfl := Option.some.inj hst
    exact ⟨hexact, hprevTx, hprevRx, htx, Nat.le_add_right_of_le hrx⟩
  | txPoll packets =>
    obtain rfl := Option.some.inj hst
    unfold ErrorStats.txPoll at hexact ⊢
    split at hexact
    · rename_i hp
      rw [if_pos hp]
      exact ⟨hexact, rfl, hprevRx, le_rfl, hrx⟩
    · rename_i hp
      rw [if_neg hp]
      exact ⟨hexact, hprevTx, hprevRx, htx, hrx⟩
  | rxPoll => obtain rfl := Option.some.inj hst; exact ⟨hexact, hprevTx, rfl, htx, le_rfl⟩

/-- **A step leaves the statistics exact** unless it reads the transmit counter below its last reading. -/
theorem next_exact_iff (hw : 32 ≤ w) {a : ErrorAct} (h : StatsInv s) (hfrequent : Frequent s a) :
    (∀ s', s.next a = some s' → Exact s') ↔ NotBelow s a := by
  cases a with
  | countTx errors =>
    refine iff_of_true ?_ trivial
    intro s' hst
    obtain rfl := Option.some.inj hst
    exact ⟨h.exact_.tx, h.exact_.rx⟩
  | countRx errors =>
    refine iff_of_true ?_ trivial
    intro s' hst
    obtain rfl := Option.some.inj hst
    exact ⟨h.exact_.tx, h.exact_.rx⟩
  | rxPoll =>
    refine iff_of_true ?_ trivial
    intro s' hst
    obtain rfl := Option.some.inj hst
    exact ⟨h.exact_.tx, rxPoll_exact h hfrequent⟩
  | txPoll packets =>
    by_cases hp : packets = 0
    · -- the counter is not read
      refine iff_of_true ?_ (fun hne => absurd hp hne)
      intro s' hst
      obtain rfl := Option.some.inj hst
      unfold ErrorStats.txPoll
      rw [if_neg (not_not.2 hp)]
      exact h.exact_
    · rw [← txPoll_exact_iff hw h hp (hfrequent hp)]
      have hread : (s.txPoll packets).txRead = s.txCounted ∧ (s.txPoll packets).rxErrors = s.rxErrors ∧
          (s.txPoll packets).rxRead = s.rxRead := by
        unfold ErrorStats.txPoll
        rw [if_pos hp]
        exact ⟨rfl, rfl, rfl⟩
      constructor
      · intro hall
        have htx := (hall _ rfl).tx
        rw [hread.1] at htx
        exact htx
      · intro htx s' hst
        obtain rfl := Option.some.inj hst
        refine ⟨?_, ?_⟩
        · rw [hread.1]
          exact htx
        · rw [hread.2.1, hread.2.2]
          exact h.exact_.rx

/-- **The error statistics.** In a run that reads each counter before it has come round, they are exact
after every poll exactly when the transmit counter is never read below its last reading. -/
theorem error_stats_iff (hw : 32 ≤ w) {as : List ErrorAct}
    (hfrequent : (errorStats w).Along Frequent (.opened w) as) :
    (errorStats w).Along (fun s a => ∀ s', (errorStats w).step s a = some s' → Exact s') (.opened w) as ↔
      (errorStats w).Along NotBelow (.opened w) as := by
  refine Machine.along_iff (I := StatsInv) ?_ (fun s a h hk => next_exact_iff hw h hk) opened_inv hfrequent
  intro s a s' h _ hexact hst
  exact next_inv h (hexact s' hst) hst

/-- Errors that take the receive counter round, and a few on the transmit side. -/
def receiveWraps : List ErrorAct :=
  [.countTx 3, .txPoll 2, .countRx (2 ^ 32 - 1), .rxPoll, .countRx 5, .rxPoll, .txPoll 0, .countTx 4, .txPoll 1]

theorem error_stats_iff_wraps :
    (errorStats 32).Along (fun s a => ∀ s', (errorStats 32).step s a = some s' → Exact s') (.opened 32) receiveWraps :=
  (error_stats_iff (by decide) (by decide)).2 (by decide)

/-- **A transmit counter that comes round** takes errors from the statistics. -/
theorem transmit_wrap_lost :
    (errorStats 64).Along Frequent (.opened 64) [.countTx (2 ^ 32 - 1), .txPoll 1, .countTx 5, .txPoll 1] ∧
      ∃ s, (errorStats 64).exec (.opened 64) [.countTx (2 ^ 32 - 1), .txPoll 1, .countTx 5, .txPoll 1] = some s ∧
        s.txErrors = 0xFFFFFFFF#64 ∧ s.txRead = 0x100000004 ∧ ¬ Exact s := by
  refine ⟨by decide, _, rfl, by decide, by decide, ?_⟩
  intro hexact
  exact absurd hexact.tx (by decide)

end Br2Efinix.Tsemac
