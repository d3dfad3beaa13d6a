import Mathlib.Data.List.Pairwise
import Br2Efinix.Lib.Fields
import Br2Efinix.Lib.Machine

/-!
# The MDIO bus

`tsemac_mdio_read` and `tsemac_mdio_write` of Linux, `efinix_tse_mdio_read` and `efinix_tse_mdio_write` of
U-Boot, under the lock of the bus, on a controller that is busy from the write of `MDIO_REG_RD_WR_EN` until it
has carried the command out. The PHYs change registers of their own at any time. A wait ends when the controller
is ready, or gives up on one that is busy.

* `program_eq`: the two drivers make the same accesses.
* `mdio_in_order`: in every run, also after calls that gave up, no register is written while the controller is
  busy; the commands carried out are a run of the register files of the PHYs, in the order of the calls and at
  most one for a call; each is the command of its call; and a call that has returned no error is among them, a
  read with the value that it has returned.
-/

namespace Br2Efinix.Tsemac

def MDIO_REG_RD_WR_EN : ℕ := 0x0104
def MDIO_REG_REG_PHY_ADDR : ℕ := 0x0108
def MDIO_REG_WR_DATA : ℕ := 0x010C
def MDIO_RD_EN : BitVec 32 := 1#32 <<< 0
def MDIO_WR_EN : BitVec 32 := 1#32 <<< 1
def MDIO_REG_ADDR_BASE : ℕ := 0
def MDIO_REG_ADDR_MASK : BitVec 32 := 0x0000001F#32
def MDIO_PHY_ADDR_BASE : ℕ := 8
def MDIO_PHY_ADDR_MASK : BitVec 32 := 0x00001F00#32
def MDIO_WRITE_DATA_MASK : BitVec 32 := 0x0000FFFF#32
def MDIO_READ_DATA_MASK : BitVec 32 := 0x0000FFFF#32

/-- `MDIO_DEVAD_NONE` of U-Boot. -/
def MDIO_DEVAD_NONE : ℤ := -1

def ETIMEDOUT : ℤ := 110
def EOPNOTSUPP : ℤ := 95

/-! ## The drivers -/

/-- An access of a driver: a wait for the end of `MDIO_STATUS_BUSY`, a write, or the read of
`MDIO_REG_RD_DATA`. -/
inductive MdioAccess
  | waitReady
  | out (reg : ℕ) (val : BitVec 32)
  | inData
  deriving DecidableEq, Repr

/-- A call: the arguments `phy_id` or `addr`, `devad`, which Linux does not have, `reg`, and `val` of a write. -/
structure MdioCall where
  phy : BitVec 32
  devad : ℤ
  reg : BitVec 32
  val : Option (BitVec 16)
  deriving DecidableEq, Repr

/-- `tsemac_mdio_read`. -/
def tsemacMdioRead (phyId reg : BitVec 32) : List MdioAccess :=
  [.waitReady,
    .out MDIO_REG_REG_PHY_ADDR (((reg <<< MDIO_REG_ADDR_BASE) &&& MDIO_REG_ADDR_MASK) |||
      ((phyId <<< MDIO_PHY_ADDR_BASE) &&& MDIO_PHY_ADDR_MASK)),
    .out MDIO_REG_RD_WR_EN MDIO_RD_EN,
    .waitReady,
    .inData]

/-- `tsemac_mdio_write`. -/
def tsemacMdioWrite (phyId reg : BitVec 32) (val : BitVec 16) : List MdioAccess :=
  [.waitReady,
    .out MDIO_REG_REG_PHY_ADDR (((reg <<< MDIO_REG_ADDR_BASE) &&& MDIO_REG_ADDR_MASK) |||
      ((phyId <<< MDIO_PHY_ADDR_BASE) &&& MDIO_PHY_ADDR_MASK)),
    .out MDIO_REG_WR_DATA (val.setWidth 32 &&& MDIO_WRITE_DATA_MASK),
    .out MDIO_REG_RD_WR_EN MDIO_WR_EN,
    .waitReady]

/-- `efinix_tse_mdio_read`. -/
def efinixTseMdioRead (addr : BitVec 32) (devad : ℤ) (reg : BitVec 32) : Except ℤ (List MdioAccess) :=
  if devad ≠ MDIO_DEVAD_NONE then .error (-EOPNOTSUPP)
  else .ok
    [.waitReady,
      .out MDIO_REG_REG_PHY_ADDR ((reg &&& MDIO_REG_ADDR_MASK) ||| ((addr <<< MDIO_PHY_ADDR_BASE) &&& MDIO_PHY_ADDR_MASK)),
      .out MDIO_REG_RD_WR_EN MDIO_RD_EN,
      .waitReady,
      .inData]

/-- `efinix_tse_mdio_write`. -/
def efinixTseMdioWrite (addr : BitVec 32) (devad : ℤ) (reg : BitVec 32) (val : BitVec 16) :
    Except ℤ (List MdioAccess) :=
  if devad ≠ MDIO_DEVAD_NONE then .error (-EOPNOTSUPP)
  else .ok
    [.waitReady,
      .out MDIO_REG_REG_PHY_ADDR ((reg &&& MDIO_REG_ADDR_MASK) ||| ((addr <<< MDIO_PHY_ADDR_BASE) &&& MDIO_PHY_ADDR_MASK)),
      .out MDIO_REG_WR_DATA (val.setWidth 32 &&& MDIO_WRITE_DATA_MASK),
      .out MDIO_REG_RD_WR_EN MDIO_WR_EN,
      .waitReady]

inductive MdioDriver
  | linux
  | uboot
  deriving DecidableEq, Repr

namespace MdioCall

/-- What Linux does for the call. -/
def linux (c : MdioCall) : List MdioAccess :=
  match c.val with
  | none => tsemacMdioRead c.phy c.reg
  | some v => tsemacMdioWrite c.phy c.reg v

def uboot (c : MdioCall) : Except ℤ (List MdioAccess) :=
  match c.val with
  | none => efinixTseMdioRead c.phy c.devad c.reg
  | some v => efinixTseMdioWrite c.phy c.devad c.reg v

end MdioCall

/-- The accesses of a call, or the error that it returns without one. -/
def MdioDriver.program : MdioDriver → MdioCall → Except ℤ (List MdioAccess)
  | .linux, c => .ok c.linux
  | .uboot, c => c.uboot

/-! ## The controller and the PHYs -/

/-- A command as the controller sends it. -/
inductive MdioCmd
  | read (phy reg : BitVec 5)
  | write (phy reg : BitVec 5) (val : BitVec 16)
  deriving DecidableEq, Repr

/-- What happens to the registers of the PHYs: a command of a call, by its number, with the value that it
reads or writes, or a change of a PHY's own. -/
inductive MdioEvent
  | done (n : ℕ) (cmd : MdioCmd) (value : BitVec 16)
  | change (phy reg : BitVec 5) (value : BitVec 16)
  deriving DecidableEq, Repr

abbrev PhyFile := BitVec 5 → BitVec 5 → BitVec 16

def PhyFile.set (f : PhyFile) (phy reg : BitVec 5) (value : BitVec 16) : PhyFile :=
  fun p r => if p = phy ∧ r = reg then value else f p r

/-- The command in the controller's registers for a value of `MDIO_REG_RD_WR_EN`. -/
def mdioCmd (addr data en : BitVec 32) : Option MdioCmd :=
  if en = MDIO_RD_EN then some (.read (addr.extractLsb' 8 5) (addr.extractLsb' 0 5))
  else if en = MDIO_WR_EN then some (.write (addr.extractLsb' 8 5) (addr.extractLsb' 0 5) (data.setWidth 16))
  else none

/-- The controller, the PHYs and the driver with the accesses that it has still to make. The number of the call
goes with a command only as an observation, as do the calls, what they have returned, what has happened to the
PHYs, and whether a register was written while the controller was busy. -/
structure Mdio where
  addr : BitVec 32
  wrData : BitVec 32
  rdData : BitVec 32
  busy : Option (ℕ × MdioCmd)
  phys : PhyFile
  todo : List MdioAccess
  calls : List MdioCall
  results : List ℤ
  log : List MdioEvent
  disturbed : Bool

inductive MdioAct
  | call (c : MdioCall)
  | driver
  | giveUp
  | finish
  | change (phy reg : BitVec 5) (value : BitVec 16)
  deriving DecidableEq, Repr

namespace Mdio

/-- The driver returns from its call. -/
def ret (s : Mdio) (r : ℤ) : Mdio := { s with todo := [], results := s.results ++ [r] }

/-- A write of the driver. -/
def out (s : Mdio) (reg : ℕ) (val : BitVec 32) : Mdio :=
  let s := { s with disturbed := s.disturbed || s.busy.isSome }
  if reg = MDIO_REG_REG_PHY_ADDR then { s with addr := val }
  else if reg = MDIO_REG_WR_DATA then { s with wrData := val }
  else if reg = MDIO_REG_RD_WR_EN then
    { s with busy := (mdioCmd s.addr s.wrData val).map fun cmd => (s.calls.length - 1, cmd) }
  else s

/-- The next access of the driver; after the last one it returns. -/
def driverStep (s : Mdio) : Option Mdio :=
  match s.todo with
  | [] => none
  | .waitReady :: rest =>
    if s.busy.isSome then none else if rest = [] then some (s.ret 0) else some { s with todo := rest }
  | .out reg val :: rest => some { s.out reg val with todo := rest }
  | .inData :: _ => some (s.ret (s.rdData &&& MDIO_READ_DATA_MASK).toNat)

/-- The controller has carried out its command. -/
def finishStep (s : Mdio) : Option Mdio :=
  match s.busy with
  | none => none
  | some (n, .read phy reg) =>
    some { s with
      busy := none, rdData := (s.phys phy reg).setWidth 32, log := s.log ++ [.done n (.read phy reg) (s.phys phy reg)] }
  | some (n, .write phy reg val) =>
    some { s with busy := none, phys := s.phys.set phy reg val, log := s.log ++ [.done n (.write phy reg val) val] }

def next (d : MdioDriver) (s : Mdio) : MdioAct → Option Mdio
  | .call c =>
    if s.results.length = s.calls.length then
      match d.program c with
      | .ok todo => some { s with calls := s.calls ++ [c], todo := todo }
      | .error e => some { s with calls := s.calls ++ [c], results := s.results ++ [e] }
    else none
  | .driver => s.driverStep
  | .giveUp =>
    match s.todo with
    | .waitReady :: _ => if s.busy.isSome then some (s.ret (-ETIMEDOUT)) else none
    | _ => none
  | .finish => s.finishStep
  | .change phy reg value =>
    some { s with phys := s.phys.set phy reg value, log := s.log ++ [.change phy reg value] }

/-- Before the first call, with the registers of the PHYs and of the controller as they may be. -/
def idle (addr wrData rdData : BitVec 32) (phys : PhyFile) : Mdio :=
  { addr := addr, wrData := wrData, rdData := rdData, busy := none, phys := phys, todo := [], calls := []
    results := [], log := [], disturbed := false }

end Mdio

def mdioMachine (d : MdioDriver) (phys : PhyFile) : Machine Mdio MdioAct :=
  { init := fun s => ∃ addr wrData rdData, s = .idle addr wrData rdData phys
    step := Mdio.next d }

/-! ## What is asked of a run -/

/-- The registers of the PHYs after what has happened to them, if each read has found what was there. -/
def replay (f : PhyFile) : List MdioEvent → Option PhyFile
  | [] => some f
  | .done _ (.read phy reg) value :: es => if f phy reg = value then replay f es else none
  | .done _ (.write phy reg val) value :: es => if val = value then replay (f.set phy reg val) es else none
  | .change phy reg value :: es => replay (f.set phy reg value) es

/-- The number of the call whose command was carried out. -/
def MdioEvent.call? : MdioEvent → Option ℕ
  | .done n _ _ => some n
  | .change _ _ _ => none

namespace MdioCall

/-- The command that the call asks for: the lower five bits of `phy` and `reg`. -/
def cmd (c : MdioCall) : MdioCmd :=
  match c.val with
  | none => .read (c.phy.setWidth 5) (c.reg.setWidth 5)
  | some v => .write (c.phy.setWidth 5) (c.reg.setWidth 5) v

/-- What the call returns for the value that its command has read or written. -/
def value (c : MdioCall) (v : BitVec 16) : ℤ :=
  match c.val with
  | none => v.toNat
  | some _ => 0

end MdioCall

structure MdioOrder (phys : PhyFile) (s : Mdio) : Prop where
  undisturbed : s.disturbed = false
  file : replay phys s.log = some s.phys
  order : (s.log.filterMap MdioEvent.call?).Pairwise (· < ·)
  asked : ∀ n cmd v, .done n cmd v ∈ s.log → ∃ c, s.calls[n]? = some c ∧ cmd = c.cmd
  returned : ∀ n r, s.results[n]? = some r → 0 ≤ r →
    ∃ c v, s.calls[n]? = some c ∧ .done n c.cmd v ∈ s.log ∧ r = c.value v

/-! ## The two drivers -/

theorem uboot_eq (c : MdioCall) :
    c.uboot = if c.devad ≠ MDIO_DEVAD_NONE then .error (-EOPNOTSUPP) else .ok c.linux := by
  unfold MdioCall.uboot MdioCall.linux
  cases c.val with
  | none =>
    simp only
    unfold efinixTseMdioRead tsemacMdioRead
    rw [show MDIO_REG_ADDR_BASE = 0 from rfl, BitVec.shiftLeft_zero]
  | some v =>
    simp only
    unfold efinixTseMdioWrite tsemacMdioWrite
    rw [show MDIO_REG_ADDR_BASE = 0 from rfl, BitVec.shiftLeft_zero]

/-- **U-Boot does what Linux does** for a call without `devad`, and nothing for one with it. -/
theorem program_eq (d : MdioDriver) (c : MdioCall) :
    d.program c = .ok c.linux ∨ d.program c = .error (-EOPNOTSUPP) := by
  cases d with
  | linux => exact Or.inl rfl
  | uboot =>
    show c.uboot = _ ∨ c.uboot = _
    rw [uboot_eq]
    split
    · exact Or.inr rfl
    · exact Or.inl rfl

/-! ## The registers' words -/

/-- The word that a driver writes to `MDIO_REG_REG_PHY_ADDR`. -/
def addrWord (phy reg : BitVec 32) : BitVec 32 :=
  ((reg <<< MDIO_REG_ADDR_BASE) &&& MDIO_REG_ADDR_MASK) ||| ((phy <<< MDIO_PHY_ADDR_BASE) &&& MDIO_PHY_ADDR_MASK)

theorem addrWord_reg (phy reg : BitVec 32) : (addrWord phy reg).extractLsb' 0 5 = reg.setWidth 5 := by
  have hbits : ∀ i < 5, MDIO_REG_ADDR_MASK.getLsbD i = true ∧ MDIO_PHY_ADDR_MASK.getLsbD i = false := by decide
  ext i hi
  simp [addrWord, MDIO_REG_ADDR_BASE, hbits i hi]

theorem addrWord_phy (phy reg : BitVec 32) : (addrWord phy reg).extractLsb' 8 5 = phy.setWidth 5 := by
  have hbits : ∀ i < 5, MDIO_REG_ADDR_MASK.getLsbD (8 + i) = false ∧ MDIO_PHY_ADDR_MASK.getLsbD (8 + i) = true := by
    decide
  ext i hi
  have hlt : 8 + i < 32 := by omega
  obtain ⟨hreg, hphy⟩ := hbits i hi
  rw [BitVec.getLsbD_eq_getElem hlt] at hreg hphy
  simp [addrWord, MDIO_PHY_ADDR_BASE, hreg, hphy, hlt, BitVec.getLsbD_eq_getElem (show i < 32 by omega)]

theorem data_word (v : BitVec 16) : (v.setWidth 32 &&& MDIO_WRITE_DATA_MASK).setWidth 16 = v := by
  have hbits : ∀ i < 16, MDIO_WRITE_DATA_MASK.getLsbD i = true := by decide
  ext i hi
  have hlt : i < 32 := by omega
  simp [hbits i hi, hlt]

theorem read_word (v : BitVec 16) : (v.setWidth 32 &&& MDIO_READ_DATA_MASK).toNat = v.toNat := by
  rw [BitVec.toNat_and, BitVec.toNat_setWidth, show MDIO_READ_DATA_MASK.toNat = 2 ^ 16 - 1 from rfl,
    Nat.and_two_pow_sub_one_eq_mod]
  have := v.isLt
  omega

/-- A read's command comes from the registers' words. -/
theorem mdioCmd_read {c : MdioCall} (hval : c.val = none) (data : BitVec 32) :
    mdioCmd (addrWord c.phy c.reg) data MDIO_RD_EN = some c.cmd := by
  unfold mdioCmd MdioCall.cmd
  rw [if_pos rfl, hval, addrWord_phy, addrWord_reg]

theorem mdioCmd_write {c : MdioCall} {v : BitVec 16} (hval : c.val = some v) :
    mdioCmd (addrWord c.phy c.reg) (v.setWidth 32 &&& MDIO_WRITE_DATA_MASK) MDIO_WR_EN = some c.cmd := by
  unfold mdioCmd MdioCall.cmd
  rw [if_neg (by decide), if_pos rfl, hval, addrWord_phy, addrWord_reg, data_word]

/-! ## The invariant -/

namespace Mdio

/-- The calls whose commands have been carried out. -/
def numbers (s : Mdio) : List ℕ := s.log.filterMap MdioEvent.call?

end Mdio

variable {s s' : Mdio} {n : ℕ} {c : MdioCall} {phys : PhyFile}

/-- What was carried out, or is to be, belongs to earlier calls than `n`. -/
structure Earlier (s : Mdio) (n : ℕ) : Prop where
  log : ∀ m ∈ s.numbers, m < n
  busy : ∀ m cmd, s.busy = some (m, cmd) → m < n

/-- The controller has nothing to do. -/
def Ready (s : Mdio) (n : ℕ) : Prop := s.busy = none ∧ ∀ m ∈ s.numbers, m < n

/-- The command of call `n` is with the controller. -/
def UnderWay (s : Mdio) (n : ℕ) (c : MdioCall) : Prop := s.busy = some (n, c.cmd) ∧ ∀ m ∈ s.numbers, m < n

/-- The command of call `n` has been carried out, and nothing since. -/
structure CarriedOut (s : Mdio) (n : ℕ) (c : MdioCall) : Prop where
  busy : s.busy = none
  log : ∀ m ∈ s.numbers, m ≤ n
  value : ∃ v, .done n c.cmd v ∈ s.log ∧ (c.val = none → s.rdData = v.setWidth 32)

/-- Where call `n` is. -/
inductive Stage (s : Mdio) (n : ℕ) (c : MdioCall) : Prop
  | wait (todo : s.todo = c.linux) (h : Earlier s n)
  | ready (todo : s.todo = c.linux.drop 1) (h : Ready s n)
  | addressed (todo : s.todo = c.linux.drop 2) (h : Ready s n) (addr : s.addr = addrWord c.phy c.reg)
  | loaded (v : BitVec 16) (val : c.val = some v) (todo : s.todo = c.linux.drop 3) (h : Ready s n)
      (addr : s.addr = addrWord c.phy c.reg) (data : s.wrData = v.setWidth 32 &&& MDIO_WRITE_DATA_MASK)
  | started (todo : ∃ rest, s.todo = .waitReady :: rest ∧ rest = if c.val = none then [.inData] else [])
      (h : UnderWay s n c ∨ CarriedOut s n c)
  | data (val : c.val = none) (todo : s.todo = [.inData]) (h : CarriedOut s n c)

/-- A command that the controller has belongs to a call, and comes after all that were carried out. -/
def BusyAsked (s : Mdio) : Prop :=
  ∀ n cmd, s.busy = some (n, cmd) → (∃ c, s.calls[n]? = some c ∧ cmd = c.cmd) ∧ ∀ m ∈ s.numbers, m < n

structure MdioInv (phys : PhyFile) (s : Mdio) : Prop where
  order : MdioOrder phys s
  busy : BusyAsked s
  stage : s.results.length = s.calls.length ∧ s.todo = [] ∨
    s.results.length + 1 = s.calls.length ∧ ∃ c, s.calls[s.results.length]? = some c ∧ Stage s s.results.length c

theorem idle_mdioInv (addr wrData rdData : BitVec 32) (phys : PhyFile) :
    MdioInv phys (.idle addr wrData rdData phys) :=
  ⟨⟨rfl, rfl, List.Pairwise.nil, fun _ _ _ h => absurd h (List.not_mem_nil), fun _ _ h => by simp [Mdio.idle] at h⟩,
    fun _ _ h => by simp [Mdio.idle] at h, Or.inl ⟨rfl, rfl⟩⟩

/-- Every number is that of a call. -/
theorem numbers_lt (h : MdioOrder phys s) : ∀ m ∈ s.numbers, m < s.calls.length := by
  intro m hm
  obtain ⟨e, he, hme⟩ := List.mem_filterMap.1 hm
  cases e with
  | done n cmd v =>
    obtain rfl : n = m := Option.some.inj hme
    obtain ⟨c, hc, -⟩ := h.asked n cmd v he
    exact (List.getElem?_eq_some_iff.1 hc).1
  | change phy reg v => exact absurd hme (by simp [MdioEvent.call?])

/-! ## The steps of the driver -/

/-- **A call begins** with whatever an earlier one has left to the controller. -/
theorem call_mdioInv {d : MdioDriver} (h : MdioInv phys s) (hstep : s.next d (.call c) = some s') :
    MdioInv phys s' := by
  unfold Mdio.next at hstep
  simp only at hstep
  split at hstep
  · rename_i hlen
    have ho := h.order
    have hcalls : ∀ {m : ℕ} {c' : MdioCall}, s.calls[m]? = some c' → (s.calls ++ [c])[m]? = some c' := by
      intro m c' hm
      rw [List.getElem?_append_left (List.getElem?_eq_some_iff.1 hm).1]
      exact hm
    have hasked : ∀ n cmd v, .done n cmd v ∈ s.log → ∃ c', (s.calls ++ [c])[n]? = some c' ∧ cmd = c'.cmd := by
      intro n cmd v hmem
      obtain ⟨c', hc', hcmd⟩ := ho.asked n cmd v hmem
      exact ⟨c', hcalls hc', hcmd⟩
    have hbusy : ∀ n cmd, s.busy = some (n, cmd) → (∃ c', (s.calls ++ [c])[n]? = some c' ∧ cmd = c'.cmd) ∧
        ∀ m ∈ s.numbers, m < n := by
      intro n cmd hb
      obtain ⟨⟨c', hc', hcmd⟩, hlast⟩ := h.busy n cmd hb
      exact ⟨⟨c', hcalls hc', hcmd⟩, hlast⟩
    rcases program_eq d c with hprog | hprog <;> rw [hprog] at hstep <;> obtain rfl := Option.some.inj hstep
    · refine ⟨⟨ho.undisturbed, ho.file, ho.order, hasked, ?_⟩, hbusy, Or.inr ⟨?_, c, ?_, .wait rfl ⟨?_, ?_⟩⟩⟩
      · intro n r hr hpos
        obtain ⟨c', v, hc', hmem, hv⟩ := ho.returned n r hr hpos
        exact ⟨c', v, hcalls hc', hmem, hv⟩
      · simp [hlen]
      · simp [hlen]
      · intro m hm
        rw [hlen]
        exact numbers_lt ho m hm
      · intro m cmd hb
        obtain ⟨⟨c', hc', -⟩, -⟩ := h.busy m cmd hb
        rw [hlen]
        exact (List.getElem?_eq_some_iff.1 hc').1
    · refine ⟨⟨ho.undisturbed, ho.file, ho.order, hasked, ?_⟩, hbusy, Or.inl ⟨by simp [hlen], ?_⟩⟩
      · intro n r hr hpos
        rcases Nat.lt_or_ge n s.results.length with hlt | hge
        · rw [List.getElem?_append_left hlt] at hr
          obtain ⟨c', v, hc', hmem, hv⟩ := ho.returned n r hr hpos
          exact ⟨c', v, hcalls hc', hmem, hv⟩
        · -- the call that was refused has returned an error
          rw [List.getElem?_append_right hge, List.getElem?_singleton] at hr
          split at hr
          · obtain rfl := Option.some.inj hr
            exact absurd hpos (by decide)
          · exact absurd hr (by simp)
      · rcases h.stage with ⟨-, htodo⟩ | ⟨hrun, -⟩
        · exact htodo
        · omega
  · exact absurd hstep (by simp)

/-- **The driver returns** an error, or what its command has read. -/
theorem ret_mdioInv {r : ℤ} (h : MdioInv phys s) (hrun : s.results.length + 1 = s.calls.length)
    (hr : 0 ≤ r → ∃ c v, s.calls[s.results.length]? = some c ∧ .done s.results.length c.cmd v ∈ s.log ∧ r = c.value v) :
    MdioInv phys (s.ret r) := by
  have ho := h.order
  refine ⟨⟨ho.undisturbed, ho.file, ho.order, ho.asked, ?_⟩, h.busy, Or.inl ⟨by simp [Mdio.ret, hrun], rfl⟩⟩
  intro n q hq hpos
  have hq' : (s.results ++ [r])[n]? = some q := hq
  rcases Nat.lt_trichotomy n s.results.length with hlt | rfl | hgt
  · rw [List.getElem?_append_left hlt] at hq'
    exact ho.returned n q hq' hpos
  · rw [List.getElem?_append_right (Nat.le_refl _), Nat.sub_self] at hq'
    obtain rfl : r = q := by simpa using hq'
    exact hr hpos
  · rw [List.getElem?_append_right (Nat.le_of_lt hgt), List.getElem?_singleton, if_neg (by omega)] at hq'
    exact absurd hq' (by simp)

/-- A step that leaves what was asked and carried out, and the controller's work, alone. -/
theorem MdioInv.move (h : MdioInv phys s) (hrun : s.results.length + 1 = s.calls.length)
    (hc : s.calls[s.results.length]? = some c) (hdisturbed : s'.disturbed = s.disturbed) (hlog : s'.log = s.log)
    (hphys : s'.phys = s.phys) (hcalls : s'.calls = s.calls) (hresults : s'.results = s.results)
    (hbusy : BusyAsked s') (hstage : Stage s' s.results.length c) : MdioInv phys s' := by
  have ho := h.order
  refine ⟨⟨by rw [hdisturbed]; exact ho.undisturbed, by rw [hlog, hphys]; exact ho.file, by rw [hlog]; exact ho.order,
    by rw [hlog, hcalls]; exact ho.asked, by rw [hlog, hcalls, hresults]; exact ho.returned⟩, hbusy, ?_⟩
  right
  rw [hresults, hcalls]
  exact ⟨hrun, c, hc, hstage⟩

theorem linux_read (hval : c.val = none) : c.linux =
    [.waitReady, .out MDIO_REG_REG_PHY_ADDR (addrWord c.phy c.reg), .out MDIO_REG_RD_WR_EN MDIO_RD_EN, .waitReady,
      .inData] := by
  unfold MdioCall.linux
  rw [hval]
  rfl

theorem linux_write {v : BitVec 16} (hval : c.val = some v) : c.linux =
    [.waitReady, .out MDIO_REG_REG_PHY_ADDR (addrWord c.phy c.reg),
      .out MDIO_REG_WR_DATA (v.setWidth 32 &&& MDIO_WRITE_DATA_MASK), .out MDIO_REG_RD_WR_EN MDIO_WR_EN,
      .waitReady] := by
  unfold MdioCall.linux
  rw [hval]
  rfl

/-- Both calls begin with a wait and the address. -/
theorem linux_shape (c : MdioCall) : ∃ rest, c.linux =
    .waitReady :: .out MDIO_REG_REG_PHY_ADDR (addrWord c.phy c.reg) :: rest := by
  cases hval : c.val with
  | none => exact ⟨_, linux_read hval⟩
  | some v => exact ⟨_, linux_write hval⟩

/-- The command of the call goes to the controller, which is ready for it. -/
theorem start_mdioInv {en : BitVec 32} {rest : List MdioAccess} (h : MdioInv phys s)
    (hrun : s.results.length + 1 = s.calls.length) (hc : s.calls[s.results.length]? = some c)
    (hready : Ready s s.results.length) (hcmd : mdioCmd s.addr s.wrData en = some c.cmd)
    (hrest : rest = .waitReady :: if c.val = none then [.inData] else []) :
    MdioInv phys { s.out MDIO_REG_RD_WR_EN en with todo := rest } := by
  have hout : s.out MDIO_REG_RD_WR_EN en =
      { s with disturbed := s.disturbed, busy := some (s.results.length, c.cmd) } := by
    unfold Mdio.out
    rw [if_neg (by decide), if_neg (by decide), if_pos rfl]
    simp only [hready.1, hcmd, Option.isSome_none, Bool.or_false, Option.map_some]
    rw [← hrun, Nat.add_sub_cancel]
  rw [hout]
  refine h.move hrun hc rfl rfl rfl rfl rfl ?_ (.started ⟨_, hrest, rfl⟩ (Or.inl ⟨rfl, hready.2⟩))
  intro n cmd hb
  simp only [Option.some.injEq, Prod.mk.injEq] at hb
  obtain ⟨rfl, rfl⟩ := hb
  exact ⟨⟨c, hc, rfl⟩, hready.2⟩

/-- **One access of the driver.** -/
theorem driver_mdioInv (h : MdioInv phys s) (hstep : s.driverStep = some s') : MdioInv phys s' := by
  unfold Mdio.driverStep at hstep
  rcases h.stage with ⟨-, htodo⟩ | ⟨hrun, c, hc, hstage⟩
  · rw [htodo] at hstep
    exact absurd hstep (by simp)
  have hquiet : s.busy = none → BusyAsked s := fun hb n cmd hb' => absurd (hb ▸ hb') (by simp)
  cases hstage with
  | wait htodo hearlier =>
    obtain ⟨rest, hrest⟩ := linux_shape c
    rw [htodo, hrest] at hstep
    simp only [reduceCtorEq, if_false] at hstep
    obtain ⟨hbusy, rfl⟩ := of_guard_not hstep
    have hnone : s.busy = none := by simpa using hbusy
    refine h.move hrun hc rfl rfl rfl rfl rfl (hquiet hnone) (.ready ?_ ⟨hnone, hearlier.log⟩)
    rw [hrest]
    rfl
  | ready htodo hready =>
    obtain ⟨rest, hrest⟩ := linux_shape c
    rw [htodo, hrest] at hstep
    obtain rfl := Option.some.inj hstep
    refine h.move hrun hc ?_ rfl rfl rfl rfl (hquiet hready.1) (.addressed ?_ ⟨hready.1, hready.2⟩ rfl)
    · show (s.disturbed || s.busy.isSome) = s.disturbed
      rw [hready.1]
      simp
    · rw [hrest]
      rfl
  | addressed htodo hready haddr =>
    cases hval : c.val with
    | none =>
      rw [htodo, linux_read hval] at hstep
      obtain rfl := Option.some.inj hstep
      refine start_mdioInv h hrun hc hready ?_ (by rw [hval]; rfl)
      rw [haddr, mdioCmd_read hval]
    | some v =>
      rw [htodo, linux_write hval] at hstep
      obtain rfl := Option.some.inj hstep
      refine h.move hrun hc ?_ rfl rfl rfl rfl (hquiet hready.1) (.loaded v hval ?_ ⟨hready.1, hready.2⟩ haddr rfl)
      · show (s.disturbed || s.busy.isSome) = s.disturbed
        rw [hready.1]
        simp
      · rw [linux_write hval]
        rfl
  | loaded v hval htodo hready haddr hdata =>
    rw [htodo, linux_write hval] at hstep
    obtain rfl := Option.some.inj hstep
    refine start_mdioInv h hrun hc hready ?_ (by rw [hval]; rfl)
    rw [haddr, hdata, mdioCmd_write hval]
  | started htodo hstarted =>
    obtain ⟨rest, htodo, hrest⟩ := htodo
    rw [htodo] at hstep
    simp only at hstep
    rcases hstarted with hway | hdone
    · -- the controller is busy, so the driver waits
      rw [hway.1] at hstep
      exact absurd hstep (by simp)
    · rw [if_neg (by simp [hdone.busy])] at hstep
      obtain ⟨v, hmem, hdata⟩ := hdone.value
      cases hval : c.val with
      | none =>
        rw [hval, if_pos rfl] at hrest
        rw [hrest] at hstep
        simp only [reduceCtorEq, if_false] at hstep
        obtain rfl := Option.some.inj hstep
        exact h.move hrun hc rfl rfl rfl rfl rfl (hquiet hdone.busy)
          (.data hval rfl ⟨hdone.busy, hdone.log, v, hmem, hdata⟩)
      | some w =>
        rw [hval, if_neg (by simp)] at hrest
        rw [hrest] at hstep
        simp only [if_true] at hstep
        obtain rfl := Option.some.inj hstep
        refine ret_mdioInv h hrun fun _ => ⟨c, v, hc, hmem, ?_⟩
        unfold MdioCall.value
        rw [hval]
  | data hval htodo hdone =>
    rw [htodo] at hstep
    obtain rfl := Option.some.inj hstep
    obtain ⟨v, hmem, hdata⟩ := hdone.value
    refine ret_mdioInv h hrun fun _ => ⟨c, v, hc, hmem, ?_⟩
    unfold MdioCall.value
    rw [hval, hdata hval, read_word]

/-! ## The steps of the controller and the PHYs -/

theorem replay_append (f : PhyFile) (es fs : List MdioEvent) :
    replay f (es ++ fs) = (replay f es).bind fun g => replay g fs := by
  induction es generalizing f with
  | nil => rfl
  | cons e es ih =>
    cases e with
    | done n cmd v =>
      cases cmd with
      | read phy reg =>
        simp only [List.cons_append, replay]
        split
        · exact ih f
        · rfl
      | write phy reg val =>
        simp only [List.cons_append, replay]
        split
        · exact ih _
        · rfl
    | change phy reg v => exact ih _

/-- **The controller carries its command out**: the last of the commands so far. -/
theorem finish_mdioInv (h : MdioInv phys s) (hstep : s.finishStep = some s') : MdioInv phys s' := by
  have ho := h.order
  -- whichever command it is, the log grows by its event
  obtain ⟨n, cmd, v, hbusy, hlog, hfile, hnone, hdata, hsame⟩ : ∃ n cmd v, s.busy = some (n, cmd) ∧
      s'.log = s.log ++ [.done n cmd v] ∧ replay s.phys [.done n cmd v] = some s'.phys ∧ s'.busy = none ∧
      (∀ phy reg, cmd = .read phy reg → s'.rdData = v.setWidth 32) ∧
      s'.todo = s.todo ∧ s'.calls = s.calls ∧ s'.results = s.results ∧ s'.disturbed = s.disturbed := by
    unfold Mdio.finishStep at hstep
    split at hstep
    · exact absurd hstep (by simp)
    · rename_i n phy reg hb
      obtain rfl := Option.some.inj hstep
      exact ⟨n, _, _, hb, rfl, by simp [replay], rfl, fun _ _ _ => rfl, rfl, rfl, rfl, rfl⟩
    · rename_i n phy reg val hb
      obtain rfl := Option.some.inj hstep
      exact ⟨n, _, _, hb, rfl, by simp [replay], rfl, fun _ _ hr => by simp at hr, rfl, rfl, rfl, rfl⟩
  obtain ⟨htodo, hcalls, hresults, hdisturbed⟩ := hsame
  obtain ⟨⟨c₀, hc₀, hcmd₀⟩, hlast⟩ := h.busy n cmd hbusy
  have hnumbers : s'.numbers = s.numbers ++ [n] := by
    unfold Mdio.numbers
    rw [hlog, List.filterMap_append]
    rfl
  refine ⟨⟨by rw [hdisturbed]; exact ho.undisturbed, ?_, ?_, ?_, ?_⟩,
    fun m cmd' hb => absurd (hnone ▸ hb) (by simp), ?_⟩
  · rw [hlog, replay_append, ho.file]
    exact hfile
  · show s'.numbers.Pairwise (· < ·)
    rw [hnumbers, List.pairwise_append]
    exact ⟨ho.order, List.pairwise_singleton _ _, fun m hm k hk => by rw [List.mem_singleton.1 hk]; exact hlast m hm⟩
  · intro m cmd' v' hmem
    rw [hlog, List.mem_append, List.mem_singleton] at hmem
    rw [hcalls]
    rcases hmem with hold | hnew
    · exact ho.asked m cmd' v' hold
    · simp only [MdioEvent.done.injEq] at hnew
      obtain ⟨rfl, rfl, -⟩ := hnew
      exact ⟨c₀, hc₀, hcmd₀⟩
  · intro m r hr hpos
    rw [hresults] at hr
    obtain ⟨c, v', hc, hmem, hv⟩ := ho.returned m r hr hpos
    exact ⟨c, v', by rw [hcalls]; exact hc, by rw [hlog]; exact List.mem_append_left _ hmem, hv⟩
  · rw [htodo, hcalls, hresults]
    refine h.stage.imp id ?_
    rintro ⟨hrun, c, hc, hstage⟩
    refine ⟨hrun, c, hc, ?_⟩
    cases hstage with
    | wait ht hearlier =>
      refine .wait (by rw [htodo]; exact ht) ⟨fun m hm => ?_, fun m cmd' hb => absurd (hnone ▸ hb) (by simp)⟩
      rw [hnumbers, List.mem_append, List.mem_singleton] at hm
      rcases hm with hm | rfl
      · exact hearlier.log m hm
      · exact hearlier.busy m cmd hbusy
    | ready _ hready => exact absurd (hready.1 ▸ hbusy) (by simp)
    | addressed _ hready _ => exact absurd (hready.1 ▸ hbusy) (by simp)
    | loaded _ _ _ hready _ _ => exact absurd (hready.1 ▸ hbusy) (by simp)
    | data _ _ hdone => exact absurd (hdone.busy ▸ hbusy) (by simp)
    | started ht hstarted =>
      rcases hstarted with hway | hdone
      · have heq : (n, cmd) = (s.results.length, c.cmd) := by
          have hsame := hway.1
          rw [hbusy] at hsame
          exact Option.some.inj hsame
        simp only [Prod.mk.injEq] at heq
        obtain ⟨rfl, rfl⟩ := heq
        refine .started (by rw [htodo]; exact ht) (Or.inr ⟨hnone, fun m hm => ?_, v, ?_, fun hval => ?_⟩)
        · rw [hnumbers, List.mem_append, List.mem_singleton] at hm
          rcases hm with hm | rfl
          · exact Nat.le_of_lt (hway.2 m hm)
          · exact Nat.le_refl _
        · rw [hlog]
          exact List.mem_append_right _ (List.mem_singleton_self _)
        · refine hdata (c.phy.setWidth 5) (c.reg.setWidth 5) ?_
          unfold MdioCall.cmd
          rw [hval]
      · exact absurd (hdone.busy ▸ hbusy) (by simp)

/-- **A PHY changes a register** of its own. -/
theorem change_mdioInv {phy reg : BitVec 5} {value : BitVec 16} (h : MdioInv phys s)
    (hs' : s' = { s with phys := s.phys.set phy reg value, log := s.log ++ [.change phy reg value] }) :
    MdioInv phys s' := by
  subst hs'
  have ho := h.order
  have hnumbers : (s.log ++ [MdioEvent.change phy reg value]).filterMap MdioEvent.call? = s.numbers := by
    rw [List.filterMap_append]
    exact List.append_nil _
  have hmem : ∀ m cmd v, .done m cmd v ∈ s.log ++ [.change phy reg value] ↔ .done m cmd v ∈ s.log := by
    intro m cmd v
    simp
  refine ⟨⟨ho.undisturbed, ?_, ?_, ?_, ?_⟩, ?_, ?_⟩
  · show replay phys (s.log ++ [.change phy reg value]) = _
    rw [replay_append, ho.file]
    rfl
  · show ((s.log ++ [MdioEvent.change phy reg value]).filterMap MdioEvent.call?).Pairwise (· < ·)
    rw [hnumbers]
    exact ho.order
  · intro m cmd v hm
    exact ho.asked m cmd v ((hmem m cmd v).1 hm)
  · intro m r hr hpos
    obtain ⟨c, v, hc, hm, hv⟩ := ho.returned m r hr hpos
    exact ⟨c, v, hc, (hmem m _ v).2 hm, hv⟩
  · intro m cmd hb
    obtain ⟨hc, hlast⟩ := h.busy m cmd hb
    exact ⟨hc, fun k hk => hlast k (by rw [← hnumbers]; exact hk)⟩
  · refine h.stage.imp id ?_
    rintro ⟨hrun, c, hc, hstage⟩
    refine ⟨hrun, c, hc, ?_⟩
    have hk : ∀ {k : ℕ}, k ∈ (s.log ++ [MdioEvent.change phy reg value]).filterMap MdioEvent.call? → k ∈ s.numbers := by
      intro k hk
      rw [← hnumbers]
      exact hk
    cases hstage with
    | wait ht he => exact .wait ht ⟨fun m hm => he.log m (hk hm), he.busy⟩
    | ready ht hr => exact .ready ht ⟨hr.1, fun m hm => hr.2 m (hk hm)⟩
    | addressed ht hr ha => exact .addressed ht ⟨hr.1, fun m hm => hr.2 m (hk hm)⟩ ha
    | loaded v hv ht hr ha hd => exact .loaded v hv ht ⟨hr.1, fun m hm => hr.2 m (hk hm)⟩ ha hd
    | started ht hw =>
      refine .started ht (hw.imp (fun hw => ⟨hw.1, fun m hm => hw.2 m (hk hm)⟩) fun hd => ?_)
      obtain ⟨v, hv, hdata⟩ := hd.value
      exact ⟨hd.busy, fun m hm => hd.log m (hk hm), v, (hmem _ _ v).2 hv, hdata⟩
    | data hval ht hd =>
      obtain ⟨v, hv, hdata⟩ := hd.value
      exact .data hval ht ⟨hd.busy, fun m hm => hd.log m (hk hm), v, (hmem _ _ v).2 hv, hdata⟩

/-- **One step of the bus.** -/
theorem next_mdioInv {d : MdioDriver} {a : MdioAct} (h : MdioInv phys s) (hstep : s.next d a = some s') :
    MdioInv phys s' := by
  cases a with
  | call c => exact call_mdioInv h hstep
  | driver => exact driver_mdioInv h hstep
  | giveUp =>
    unfold Mdio.next at hstep
    simp only at hstep
    split at hstep
    · rename_i rest htodo
      obtain ⟨-, rfl⟩ := of_guard hstep
      rcases h.stage with ⟨-, hnil⟩ | ⟨hrun, -⟩
      · rw [htodo] at hnil
        exact absurd hnil (by simp)
      · exact ret_mdioInv h hrun fun hpos => absurd hpos (by decide)
    · exact absurd hstep (by simp)
  | finish => exact finish_mdioInv h hstep
  | change phy reg value => exact change_mdioInv h (Option.some.inj hstep).symm

/-- **The calls of both drivers are a run of the PHYs' registers.** -/
theorem mdio_in_order {d : MdioDriver} (h : (mdioMachine d phys).Reach (fun _ _ => True) s) : MdioOrder phys s := by
  have hinv : MdioInv phys s := by
    refine h.invariant (I := MdioInv phys) ?_ (fun s a s' hs _ hstep => next_mdioInv hs hstep)
    rintro s ⟨addr, wrData, rdData, rfl⟩
    exact idle_mdioInv addr wrData rdData phys
  exact hinv.order

/-- A write that gave up, and a read after it: the read waits for the write, and finds what it has written. -/
theorem mdio_in_order_late :
    ∃ s, (mdioMachine .linux fun _ _ => 0).Reach (fun _ _ => True) s ∧ s.results = [-110, 7] ∧
      s.log = [.done 0 (.write 1 2 7) 7, .done 1 (.read 1 2) 7] ∧ MdioOrder (fun _ _ => 0) s := by
  have hrun : ((mdioMachine .linux fun _ _ => 0).exec (.idle 0 0 0 fun _ _ => 0)
      [.call ⟨1, -1, 2, some 7⟩, .driver, .driver, .driver, .driver, .giveUp, .call ⟨1, -1, 2, none⟩, .finish,
        .driver, .driver, .driver, .finish, .driver, .driver]).map (fun s => (s.results, s.log)) =
      some ([-110, 7], [.done 0 (.write 1 2 7) 7, .done 1 (.read 1 2) 7]) := by decide +kernel
  obtain ⟨s, hexec, hs⟩ := Option.map_eq_some_iff.1 hrun
  simp only [Prod.mk.injEq] at hs
  have hreach : (mdioMachine .linux fun _ _ => 0).Reach (fun _ _ => True) s :=
    .of_exec ⟨0, 0, 0, rfl⟩ (Machine.along_true _ _) hexec
  exact ⟨s, hreach, hs.1, hs.2, mdio_in_order hreach⟩

end Br2Efinix.Tsemac
