import Br2Efinix.Lib.Machine
import Br2Efinix.Spi.Select

/-!
# The chip select of the U-Boot driver

Sessions as the SPI core makes them: `vexriscv_spi_set_mode` if the settings of the slave are not those
of the session before, `vexriscv_spi_claim_bus`, any number of `vexriscv_spi_xfer` calls, and
`vexriscv_spi_release_bus`. `set_mode` comes when no slave has the bus, with `plat->cs` at -1.

* `session_selects_iff`: whatever the sessions before, a session selects its slave as it should if and
  only if the slave's number leaves the enable bit alone and its select is active low, or is
  line 31 of a 32-bit processor.
* `active_high_inverted`: a slave with SPI_CS_HIGH on line 0 is deselected by SPI_XFER_BEGIN.
-/

namespace Br2Efinix.Spi.UBoot

/-- The width of `unsigned long`. -/
inductive Xlen
  | rv32
  | rv64
  deriving DecidableEq, Repr

def Xlen.bits : Xlen → ℕ
  | .rv32 => 32
  | .rv64 => 64

/-- What a `u32` keeps of `BIT(cs)`; the shift takes the low bits of its distance. -/
def BIT (xlen : Xlen) (cs : BitVec 32) : BitVec 32 := BitVec.twoPow 32 (cs.toNat % xlen.bits)

/-- A slave's select, and its settings as `dm_spi_claim_bus` computes them. -/
structure Slave where
  cs : BitVec 32
  mode : BitVec 32
  speed : ℕ
  speed_pos : 0 < speed
  deriving DecidableEq

/-- The fields of `struct vexriscv_spi_platdata` for the chip select, the register for the active
levels, the settings that the core keeps for the bus, the slave that has the bus, and the chip-select
commands queued. -/
structure Bus where
  cs : BitVec 32
  mode : BitVec 32
  ssActiveHigh : BitVec 32
  reg : BitVec 32
  speed : ℕ
  busMode : BitVec 32
  claimed : Option Slave
  queued : List (BitVec 32)

inductive BusAct
  | claim (slave : Slave)
  | xfer (begin_ end_ : Bool)
  | release

namespace Bus

/-- `vexriscv_spi_set_mode`. -/
def setMode (b : Bus) (xlen : Xlen) (mode : BitVec 32) : Bus :=
  let high := if csHigh mode then b.ssActiveHigh ||| BIT xlen b.cs else b.ssActiveHigh &&& ~~~BIT xlen b.cs
  { b with mode := mode, ssActiveHigh := high, reg := high }

/-- `dm_spi_claim_bus`. -/
def claim (b : Bus) (xlen : Xlen) (slave : Slave) : Bus :=
  let b := if slave.speed ≠ b.speed ∨ slave.mode ≠ b.busMode then
    { b.setMode xlen slave.mode with speed := slave.speed, busMode := slave.mode }
  else b
  { b with cs := slave.cs, claimed := some slave }

/-- `plat->ss_active_high & BIT(plat->cs) ? 1 : 0`. -/
def activeLevel (b : Bus) (xlen : Xlen) : Bool := decide (b.ssActiveHigh &&& BIT xlen b.cs ≠ 0#32)

/-- The chip-select commands of `vexriscv_spi_xfer`. -/
def xferSelects (b : Bus) (xlen : Xlen) (begin_ end_ : Bool) : List (BitVec 32) :=
  (if begin_ then [setCs b.cs b.mode (b.activeLevel xlen)] else []) ++
    (if end_ then [setCs b.cs b.mode (!b.activeLevel xlen)] else [])

def next (xlen : Xlen) (b : Bus) : BusAct → Option Bus
  | .claim slave => if b.claimed = none then some (b.claim xlen slave) else none
  | .xfer begin_ end_ =>
    if b.claimed = none then none else some { b with queued := b.queued ++ b.xferSelects xlen begin_ end_ }
  | .release => if b.claimed = none then none else some { b with cs := BitVec.allOnes 32, claimed := none }

/-- After `vexriscv_spi_probe`, which leaves the register for the active levels as it is. -/
def probed (reg : BitVec 32) : Bus :=
  { cs := BitVec.allOnes 32, mode := 0#32, ssActiveHigh := 0#32, reg := reg, speed := 0, busMode := 0#32
    claimed := none, queued := [] }

end Bus

def sessions (xlen : Xlen) : Machine Bus BusAct := { init := fun b => ∃ reg, b = .probed reg, step := Bus.next xlen }

variable {xlen : Xlen} {b b' : Bus} {slave : Slave}

/-! ## The property and the condition -/

/-- The slave's line has the active level of its mode, SPI_XFER_BEGIN queues a command that enables it,
and SPI_XFER_END one that disables it. -/
structure Selected (xlen : Xlen) (b : Bus) (slave : Slave) : Prop where
  level : b.reg.getLsbD slave.cs.toNat = csHigh slave.mode
  commands : ∃ on off, (∀ begin_ end_, b.xferSelects xlen begin_ end_ =
      (if begin_ then [on] else []) ++ (if end_ then [off] else [])) ∧
    lineOf on = slave.cs ∧ enables on = true ∧ lineOf off = slave.cs ∧ enables off = false

/-- What a slave has to be. -/
def Fits (xlen : Xlen) (slave : Slave) : Prop :=
  slave.cs.toNat < 128 ∧ (csHigh slave.mode = true → xlen = .rv32 ∧ slave.cs.toNat = 31)

instance (xlen : Xlen) (slave : Slave) : Decidable (Fits xlen slave) := inferInstanceAs (Decidable (_ ∧ _))

/-! ## The invariant -/

/-- All that `set_mode` ever records: the level of the last mode, under the number -1. -/
def recorded (xlen : Xlen) (mode : BitVec 32) : BitVec 32 :=
  if csHigh mode then BIT xlen (BitVec.allOnes 32) else 0#32

structure BusInv (xlen : Xlen) (b : Bus) : Prop where
  free : b.claimed = none → b.cs = BitVec.allOnes 32
  high : b.ssActiveHigh = recorded xlen b.mode
  known : b.speed ≠ 0 → b.reg = b.ssActiveHigh ∧ b.mode = b.busMode
  claimed : ∀ slave, b.claimed = some slave → b.speed ≠ 0 ∧ b.cs = slave.cs ∧ b.busMode = slave.mode

theorem recorded_set (xlen : Xlen) (mode mode' : BitVec 32) :
    (if csHigh mode' then recorded xlen mode ||| BIT xlen (BitVec.allOnes 32)
      else recorded xlen mode &&& ~~~BIT xlen (BitVec.allOnes 32)) = recorded xlen mode' := by
  unfold recorded
  cases csHigh mode' <;> cases csHigh mode <;> simp

/-- **The bus is claimed**: whether or not `set_mode` is called, the settings are the slave's. -/
theorem claim_inv (h : BusInv xlen b) (hfree : b.claimed = none) : BusInv xlen (b.claim xlen slave) := by
  have hpos := slave.speed_pos
  unfold Bus.claim
  by_cases hdiffer : slave.speed ≠ b.speed ∨ slave.mode ≠ b.busMode
  · simp only [if_pos hdiffer]
    have hset : (b.setMode xlen slave.mode).ssActiveHigh = recorded xlen slave.mode := by
      unfold Bus.setMode
      simp only
      rw [h.free hfree, h.high]
      exact recorded_set xlen b.mode slave.mode
    refine ⟨fun hnone => absurd hnone (by simp), hset, fun _ => ⟨rfl, rfl⟩, ?_⟩
    intro slave' hslave
    obtain rfl := Option.some.inj hslave
    exact ⟨Nat.ne_of_gt hpos, rfl, rfl⟩
  · simp only [if_neg hdiffer]
    obtain ⟨hspeed, hmode⟩ := not_or.1 hdiffer
    have hspeed' : slave.speed = b.speed := not_not.1 hspeed
    refine ⟨fun hnone => absurd hnone (by simp), h.high, h.known, ?_⟩
    intro slave' hslave
    obtain rfl := Option.some.inj hslave
    exact ⟨by rw [← hspeed']; exact Nat.ne_of_gt hpos, rfl, (not_not.1 hmode).symm⟩

theorem busNext_inv {a : BusAct} (h : BusInv xlen b) (hstep : b.next xlen a = some b') : BusInv xlen b' := by
  cases a with
  | claim slave =>
    obtain ⟨hfree, rfl⟩ := of_guard hstep
    exact claim_inv h hfree
  | xfer begin_ end_ =>
    obtain ⟨-, rfl⟩ := of_guard_not hstep
    exact ⟨h.free, h.high, h.known, h.claimed⟩
  | release =>
    obtain ⟨-, rfl⟩ := of_guard_not hstep
    exact ⟨fun _ => rfl, h.high, h.known, fun slave hslave => absurd hslave (by simp)⟩

theorem reach_bus (h : (sessions xlen).Reach (fun _ _ => True) b) : BusInv xlen b := by
  refine h.invariant (I := BusInv xlen) ?_ (fun b a b' hb _ hstep => busNext_inv hb hstep)
  rintro b ⟨reg, rfl⟩
  exact ⟨fun _ => rfl, (if_neg (show ¬ csHigh 0#32 = true by decide)).symm, fun hne => absurd rfl hne,
    fun slave hslave => absurd hslave (by simp [Bus.probed])⟩

/-! ## The result -/

theorem commands_of_level {high : Bool} (hcs : slave.cs.toNat < 128) (hhigh : high = csHigh slave.mode) :
    (lineOf (setCs slave.cs slave.mode high) = slave.cs ∧ enables (setCs slave.cs slave.mode high) = true) ∧
      lineOf (setCs slave.cs slave.mode (!high)) = slave.cs ∧
        enables (setCs slave.cs slave.mode (!high)) = false := by
  rw [lineOf_setCs, lineOf_setCs, enables_setCs, enables_setCs, lineOf_eq hcs, enable_bit_clear hcs, hhigh]
  cases csHigh slave.mode <;> simp

/-- **The session of a slave** is as it should be for the slaves that fit, and for no others. -/
theorem session_selects_iff (h : (sessions xlen).Reach (fun _ _ => True) b) (hclaimed : b.claimed = some slave) :
    Selected xlen b slave ↔ Fits xlen slave := by
  have hinv := reach_bus h
  obtain ⟨hspeed, hcs, hbusMode⟩ := hinv.claimed slave hclaimed
  obtain ⟨hreg, hmode⟩ := hinv.known hspeed
  have hhigh : b.ssActiveHigh = recorded xlen slave.mode := by rw [hinv.high, hmode, hbusMode]
  constructor
  · rintro ⟨hlevel, on, off, hcommands, hon, -⟩
    have hbegin : [setCs b.cs b.mode (b.activeLevel xlen)] = [on] := by
      simpa [Bus.xferSelects] using hcommands true false
    have hline : lineOf slave.cs = slave.cs := by
      rw [← List.cons.inj hbegin |>.1, lineOf_setCs, hcs] at hon
      exact hon
    refine ⟨lt_of_lineOf hline, ?_⟩
    intro hmodeHigh
    -- the register has no bit set but the one of the number -1
    rw [hreg, hhigh, recorded, if_pos hmodeHigh, hmodeHigh] at hlevel
    cases xlen with
    | rv32 =>
      have hbit : (BIT .rv32 (BitVec.allOnes 32)).getLsbD slave.cs.toNat = decide (31 = slave.cs.toNat) := by
        unfold BIT
        rw [BitVec.getLsbD_twoPow]
        rfl
      rw [hbit] at hlevel
      exact ⟨rfl, (of_decide_eq_true hlevel).symm⟩
    | rv64 =>
      rw [show BIT .rv64 (BitVec.allOnes 32) = 0#32 by decide] at hlevel
      exact absurd hlevel (by simp)
  · rintro ⟨hlt, hfits⟩
    have hlevels : b.reg.getLsbD slave.cs.toNat = csHigh slave.mode ∧ b.activeLevel xlen = csHigh slave.mode := by
      unfold Bus.activeLevel
      rw [hreg, hhigh, recorded, hcs]
      cases hmodeHigh : csHigh slave.mode with
      | false => simp
      | true =>
        obtain ⟨rfl, h31⟩ := hfits hmodeHigh
        have hslave : slave.cs = 31#32 := BitVec.eq_of_toNat_eq h31
        rw [hslave]
        decide
    obtain ⟨⟨honLine, hon⟩, hoffLine, hoff⟩ := commands_of_level hlt hlevels.2
    refine ⟨hlevels.1, _, _, ?_, honLine, hon, hoffLine, hoff⟩
    intro begin_ end_
    unfold Bus.xferSelects
    rw [hcs, hmode, hbusMode]

/-- A slave that is active low, after one that is not. -/
theorem session_selects_after_high :
    ∃ b, (sessions .rv64).Reach (fun _ _ => True) b ∧ b.claimed = some ⟨1#32, 0#32, 1, by decide⟩ ∧
      Selected .rv64 b ⟨1#32, 0#32, 1, by decide⟩ := by
  have hrun : ((sessions .rv64).exec (.probed 0#32)
      [.claim ⟨0#32, SPI_CS_HIGH, 1, by decide⟩, .xfer true true, .release,
        .claim ⟨1#32, 0#32, 1, by decide⟩, .xfer true false, .xfer false true]).map
      (fun b => (b.claimed, b.queued)) =
      some (some ⟨1#32, 0#32, 1, by decide⟩, [0x800#32, 0x880#32, 0x881#32, 0x801#32]) := by decide +kernel
  obtain ⟨b, hexec, hb⟩ := Option.map_eq_some_iff.1 hrun
  simp only [Prod.mk.injEq] at hb
  have hreach : (sessions .rv64).Reach (fun _ _ => True) b :=
    .of_exec ⟨0#32, rfl⟩ (Machine.along_true _ _) hexec
  exact ⟨b, hreach, hb.1, (session_selects_iff hreach hb.1).2 (by decide)⟩

/-- **A slave that is active high**, on line 0: its level is not recorded, SPI_XFER_BEGIN queues the
command that disables it, and SPI_XFER_END the one that enables it. -/
theorem active_high_inverted :
    ∃ b, (sessions .rv32).Reach (fun _ _ => True) b ∧ b.claimed = some ⟨0#32, SPI_CS_HIGH, 1, by decide⟩ ∧
      b.reg.getLsbD 0 = false ∧ b.queued = [0x800#32, 0x880#32] ∧
      ¬ Selected .rv32 b ⟨0#32, SPI_CS_HIGH, 1, by decide⟩ := by
  have hrun : ((sessions .rv32).exec (.probed 0#32)
      [.claim ⟨0#32, SPI_CS_HIGH, 1, by decide⟩, .xfer true false, .xfer false true]).map
      (fun b => (b.claimed, b.reg, b.queued)) =
      some (some ⟨0#32, SPI_CS_HIGH, 1, by decide⟩, 0x80000000#32, [0x800#32, 0x880#32]) := by decide +kernel
  obtain ⟨b, hexec, hb⟩ := Option.map_eq_some_iff.1 hrun
  simp only [Prod.mk.injEq] at hb
  obtain ⟨hclaimed, hreg, hqueued⟩ := hb
  refine ⟨b, .of_exec ⟨0#32, rfl⟩ (Machine.along_true _ _) hexec, hclaimed, ?_, hqueued, ?_⟩
  · rw [hreg]
    decide
  · intro hselected
    have hlevel := hselected.level
    rw [hreg] at hlevel
    exact absurd hlevel (by decide)

end Br2Efinix.Spi.UBoot
