import Br2Efinix.Lib.Machine
import Br2Efinix.Spi.Select

/-!
# The chip select of the Linux driver

`spi_spinal_lib_setup` and `spi_spinal_lib_set_cs` as the SPI core calls them, for up to 16 devices on one
controller. A message selects its device unless the first transfer has `cs_off`; between transfers
`cs_change` deselects and selects it again, and a change of `cs_off` selects or deselects; at the end
it is deselected, unless the last transfer has `cs_change`. A setup ends by deselecting the device. The
core may leave a call out that asks for what the last one did.

* `last_command_names`: in every run, the last chip-select command is that of the last call of `set_cs`,
  and in a transfer with the chip select on, it enables the line of the message's device.
* `selected_alone`: in every run in which no device is addressed or set up while another is left
  selected, a device that was activated and not deactivated has the last command, and no other line
  is enabled.
* `left_selected`: a device left selected stays so when another is addressed.
-/

namespace Br2Efinix.Spi

/-- A device by its `chip_select`. -/
abbrev Cs := Fin 16

def Cs.num (d : Cs) : BitVec 32 := BitVec.ofNat 32 d.val

/-- A message in progress: in a transfer with or without `cs_off`, or between two with `cs_change`. -/
inductive Message
  | transfer (d : Cs) (off : Bool)
  | between (d : Cs) (off : Bool)
  deriving DecidableEq, Repr

def Message.device : Message → Cs
  | .transfer d _ | .between d _ => d

/-- The devices' modes and which of them were set up, `ssActiveHigh` and the configuration register,
`last_cs` and `last_cs_mode_high` of the core, the message in progress and the last chip-select
command. Only observed are the lines that the commands have left enabled, the last call of
`set_cs` and what it asked for, and the devices that such a call has activated and none deactivated. -/
structure Master where
  mode : Cs → BitVec 32
  isSetup : Cs → Bool
  ssActiveHigh : BitVec 32
  config : BitVec 32
  lastCs : Option Cs
  lastCsModeHigh : Bool
  msg : Option Message
  last : Option (BitVec 32)
  enabled : BitVec 32 → Bool
  called : Option (Cs × Bool)
  active : Cs → Bool

/-- `skip` is the core's choice to leave out a call that it may leave out. -/
inductive MasterAct
  | setup (d : Cs) (mode : BitVec 32)
  | begin_ (d : Cs) (off skip : Bool)
  | drop (skip : Bool)
  | resume (off skip : Bool)
  | follow (off skip : Bool)
  | end_ (keep skip : Bool)
  deriving Repr

namespace Master

/-- The core calls `set_cs` to activate the device or deactivate it, with the level that this takes. -/
def call (m : Master) (d : Cs) (activate : Bool) : Master :=
  let enable := if csHigh (m.mode d) then !activate else activate
  let w := setCs d.num (m.mode d) (!enable)
  { m with
    lastCs := if activate then some d else none
    lastCsModeHigh := csHigh (m.mode d)
    last := some w
    enabled := fun line => if line = lineOf w then enables w else m.enabled line
    called := some (d, activate)
    active := fun j => if j = d then activate else m.active j }

/-- The last call asked for the same. -/
def unchanged (m : Master) (d : Cs) (activate : Bool) : Bool :=
  (if activate then decide (m.lastCs = some d) else decide (m.lastCs ≠ some d)) &&
    decide (m.lastCsModeHigh = csHigh (m.mode d))

/-- `spi_set_cs` without force. -/
def spiSetCs (m : Master) (d : Cs) (activate skip : Bool) : Master :=
  if skip && m.unchanged d activate then m else m.call d activate

/-- `spi_spinal_lib_setup` for a device without a GPIO line, with the mode that it is to have. -/
def setup (m : Master) (d : Cs) (mode : BitVec 32) : Master :=
  { m with
    mode := fun j => if j = d then mode else m.mode j
    isSetup := fun j => if j = d then true else m.isSetup j
    ssActiveHigh :=
      if csHigh mode then m.ssActiveHigh ||| 1#32 <<< d.val else m.ssActiveHigh &&& ~~~(1#32 <<< d.val)
    config := (if mode &&& SPI_CPOL ≠ 0#32 then 1#32 else 0#32) ||| (if mode &&& SPI_CPHA ≠ 0#32 then 2#32 else 0#32) }

def next (m : Master) : MasterAct → Option Master
  | .setup d mode => if m.msg = none then some ((m.setup d mode).call d false) else none
  | .begin_ d off skip =>
    if m.msg = none ∧ m.isSetup d = true then
      some { m.spiSetCs d (!off) skip with msg := some (.transfer d off) }
    else none
  | .drop skip =>
    match m.msg with
    | some (.transfer d off) =>
      some { (if off then m else m.spiSetCs d false skip) with msg := some (.between d off) }
    | _ => none
  | .resume off skip =>
    match m.msg with
    | some (.between d _) =>
      some { (if off then m else m.spiSetCs d true skip) with msg := some (.transfer d off) }
    | _ => none
  | .follow off skip =>
    match m.msg with
    | some (.transfer d off') =>
      -- the call asks for what the transfer behind had off
      some { (if off' = off then m else m.spiSetCs d off' skip) with msg := some (.transfer d off) }
    | _ => none
  | .end_ keep skip =>
    match m.msg with
    | some (.transfer d _) => some { (if keep then m else m.spiSetCs d false skip) with msg := none }
    | _ => none

/-- After `spi_spinal_lib_probe`. -/
def probed (config : BitVec 32) : Master :=
  { mode := fun _ => 0#32, isSetup := fun _ => false, ssActiveHigh := 0#32, config := config, lastCs := none
    lastCsModeHigh := false, msg := none, last := none, enabled := fun _ => false, called := none
    active := fun _ => false }

end Master

def master : Machine Master MasterAct := { init := fun m => ∃ config, m = .probed config, step := Master.next }

variable {m m' : Master} {d : Cs}

/-! ## The properties -/

/-- The last command queued names the device's line, with the enable bit so. -/
def LastNames (m : Master) (d : Cs) (enable : Bool) : Prop :=
  ∃ w, m.last = some w ∧ lineOf w = d.num ∧ enables w = enable

/-- What holds in every run. -/
structure Named (m : Master) : Prop where
  called : ∀ d activate, m.called = some (d, activate) → LastNames m d activate
  transfer : ∀ d, m.msg = some (.transfer d false) → LastNames m d true
  level : ∀ d, m.isSetup d = true → m.ssActiveHigh.getLsbD d.val = csHigh (m.mode d)

/-- What holds in addition when no device is left selected and another addressed. -/
structure Alone (m : Master) : Prop where
  active : ∀ d, m.active d = true → LastNames m d true
  transfer : ∀ d, m.msg = some (.transfer d false) → ∀ line, m.enabled line = true ↔ line = d.num

/-- No device is addressed or set up while another is left selected. -/
def Sole (m : Master) : MasterAct → Prop
  | .setup d _ | .begin_ d _ _ => ∀ j, j ≠ d → m.active j = false
  | _ => True

instance (m : Master) : ∀ a, Decidable (Sole m a)
  | .setup d _ | .begin_ d _ _ => inferInstanceAs (Decidable (∀ j, j ≠ d → m.active j = false))
  | .drop _ | .resume _ _ | .follow _ _ | .end_ _ _ => isTrue trivial

/-! ## The command -/

theorem Cs.num_lt (d : Cs) : d.num.toNat < 128 := by
  have hd := d.isLt
  unfold Cs.num
  rw [BitVec.toNat_ofNat, Nat.mod_eq_of_lt (by omega)]
  omega

theorem Cs.num_inj {d j : Cs} (h : d.num = j.num) : d = j := by
  have hd := d.isLt
  have hj := j.isLt
  have heq := congrArg BitVec.toNat h
  unfold Cs.num at heq
  rw [BitVec.toNat_ofNat, BitVec.toNat_ofNat, Nat.mod_eq_of_lt (by omega), Nat.mod_eq_of_lt (by omega)] at heq
  exact Fin.ext heq

/-- **The command of a call** names the device, with the enable bit as asked, whatever its mode. -/
theorem call_command (m : Master) (d : Cs) (activate : Bool) :
    lineOf (setCs d.num (m.mode d) (!if csHigh (m.mode d) then !activate else activate)) = d.num ∧
      enables (setCs d.num (m.mode d) (!if csHigh (m.mode d) then !activate else activate)) = activate := by
  rw [lineOf_setCs, enables_setCs, lineOf_eq d.num_lt, enable_bit_clear d.num_lt]
  refine ⟨rfl, ?_⟩
  cases csHigh (m.mode d) <;> cases activate <;> rfl

/-! ## The invariant -/

/-- What the calls of `set_cs` leave. -/
structure CallInv (m : Master) : Prop where
  last : ∀ d activate, m.called = some (d, activate) → LastNames m d activate
  lastCs : ∀ d, m.lastCs = some d ↔ m.called = some (d, true)
  active : ∀ d, m.called = some (d, true) → m.active d = true
  enabled : ∀ line, m.enabled line = true ↔ ∃ d : Cs, line = d.num ∧ m.active d = true
  level : ∀ d, m.isSetup d = true → m.ssActiveHigh.getLsbD d.val = csHigh (m.mode d)

structure MasterInv (m : Master) : Prop where
  calls : CallInv m
  transfer : ∀ d, m.msg = some (.transfer d false) → m.called = some (d, true)

/-- In a run that leaves none selected when it addresses another. -/
structure SoleInv (m : Master) : Prop where
  active : ∀ d, m.active d = true → m.called = some (d, true)
  msg : ∀ msg, m.msg = some msg → ∀ j, j ≠ msg.device → m.active j = false

theorem CallInv.of_msg (h : CallInv m) (msg : Option Message) : CallInv { m with msg := msg } :=
  ⟨h.last, h.lastCs, h.active, h.enabled, h.level⟩

/-- **A call of `set_cs`.** -/
theorem call_inv (h : CallInv m) (d : Cs) (activate : Bool) : CallInv (m.call d activate) := by
  obtain ⟨hline, henable⟩ := call_command m d activate
  refine ⟨?_, ?_, ?_, ?_, h.level⟩
  · intro j e hj
    obtain ⟨rfl, rfl⟩ := Prod.mk.inj (Option.some.inj hj)
    exact ⟨_, rfl, hline, henable⟩
  · intro j
    show (if activate then some d else none) = some j ↔ some (d, activate) = some (j, true)
    cases activate <;> simp
  · intro j hj
    obtain ⟨rfl, rfl⟩ := Prod.mk.inj (Option.some.inj hj)
    exact if_pos rfl
  · intro line
    show (if line = lineOf _ then enables _ else m.enabled line) = true ↔
      ∃ j : Cs, line = j.num ∧ (if j = d then activate else m.active j) = true
    rw [hline, henable]
    by_cases hd : line = d.num
    · rw [if_pos hd]
      constructor
      · intro ha
        exact ⟨d, hd, by rw [if_pos rfl]; exact ha⟩
      · rintro ⟨j, hj, ha⟩
        have hjd : j = d := Cs.num_inj (hj.symm.trans hd)
        rw [if_pos hjd] at ha
        exact ha
    · rw [if_neg hd, h.enabled]
      -- the other devices are as they were
      have hne : ∀ j : Cs, line = j.num → j ≠ d := by
        rintro j hj rfl
        exact hd hj
      constructor
      · rintro ⟨j, hj, ha⟩
        exact ⟨j, hj, by rw [if_neg (hne j hj)]; exact ha⟩
      · rintro ⟨j, hj, ha⟩
        rw [if_neg (hne j hj)] at ha
        exact ⟨j, hj, ha⟩

/-- **A call that is left out** would have left the device as it is. -/
theorem spiSetCs_cases (h : CallInv m) (d : Cs) (activate skip : Bool) :
    m.spiSetCs d activate skip = m.call d activate ∨
      (m.spiSetCs d activate skip = m ∧ (m.called = some (d, true) ↔ activate = true)) := by
  unfold Master.spiSetCs
  split
  · rename_i hskip
    refine Or.inr ⟨rfl, ?_⟩
    rw [Bool.and_eq_true] at hskip
    have hsame := hskip.2
    unfold Master.unchanged at hsame
    rw [Bool.and_eq_true] at hsame
    rw [← h.lastCs]
    cases activate with
    | true => simpa using hsame.1
    | false => simpa using hsame.1
  · exact Or.inl rfl

theorem spiSetCs_inv (h : CallInv m) (d : Cs) (activate skip : Bool) : CallInv (m.spiSetCs d activate skip) := by
  rcases spiSetCs_cases h d activate skip with hcall | ⟨hsame, -⟩
  · rw [hcall]
    exact call_inv h d activate
  · rw [hsame]
    exact h

/-- A call that the core makes only in some cases. -/
theorem spiSetCs_unless_inv {p : Prop} [Decidable p] (h : CallInv m) (d : Cs) (activate skip : Bool) :
    CallInv (if p then m else m.spiSetCs d activate skip) := by
  split
  · exact h
  · exact spiSetCs_inv h d activate skip

/-- Activated, the device is the one last called for. -/
theorem spiSetCs_activated (h : CallInv m) (d : Cs) (skip : Bool) :
    (m.spiSetCs d true skip).called = some (d, true) := by
  rcases spiSetCs_cases h d true skip with hcall | ⟨hsame, hiff⟩
  · rw [hcall]
    rfl
  · rw [hsame]
    exact hiff.2 rfl

/-- **A setup** records the active level under the device's own line. -/
theorem setup_inv (h : CallInv m) (d : Cs) (mode : BitVec 32) : CallInv (m.setup d mode) := by
  refine ⟨h.last, h.lastCs, h.active, h.enabled, ?_⟩
  intro j hj
  have hbit : (1#32 <<< d.val).getLsbD j.val = decide (j = d) := by
    have hlt := j.isLt
    rw [← BitVec.twoPow_eq, BitVec.getLsbD_twoPow, decide_eq_true (by omega : d.val < 32), Bool.true_and]
    exact decide_eq_decide.2 ⟨fun he => Fin.ext he.symm, fun he => by rw [he]⟩
  have hlevel : ∀ high : Bool, (if high then m.ssActiveHigh ||| 1#32 <<< d.val
      else m.ssActiveHigh &&& ~~~(1#32 <<< d.val)).getLsbD j.val =
        if j = d then high else m.ssActiveHigh.getLsbD j.val := by
    intro high
    have hlt : j.val < 32 := Nat.lt_trans j.isLt (by decide)
    cases high with
    | true =>
      simp only [if_true, BitVec.getLsbD_or, hbit]
      by_cases hjd : j = d <;> simp [hjd]
    | false =>
      simp only [Bool.false_eq_true, if_false, BitVec.getLsbD_and, BitVec.getLsbD_not, hbit, hlt]
      by_cases hjd : j = d <;> simp [hjd]
  show (if csHigh mode = true then _ else _ : BitVec 32).getLsbD j.val = csHigh (if j = d then mode else m.mode j)
  rw [hlevel (csHigh mode)]
  by_cases hjd : j = d
  · rw [if_pos hjd, if_pos hjd]
  · rw [if_neg hjd, if_neg hjd]
    refine h.level j ?_
    have hset : (if j = d then true else m.isSetup j) = true := hj
    rwa [if_neg hjd] at hset

/-! ## The steps -/

theorem masterNext_inv {a : MasterAct} (h : MasterInv m) (hstep : m.next a = some m') : MasterInv m' := by
  cases a with
  | setup d mode =>
    obtain ⟨hnone, rfl⟩ := of_guard hstep
    refine ⟨call_inv (setup_inv h.calls d mode) d false, ?_⟩
    intro j hj
    have hmsg : m.msg = some (.transfer j false) := hj
    rw [hnone] at hmsg
    exact absurd hmsg (by simp)
  | begin_ d off skip =>
    obtain ⟨-, rfl⟩ := of_guard hstep
    refine ⟨(spiSetCs_inv h.calls d (!off) skip).of_msg _, ?_⟩
    intro j hj
    simp only [Option.some.injEq, Message.transfer.injEq] at hj
    obtain ⟨rfl, rfl⟩ := hj
    exact spiSetCs_activated h.calls d skip
  | drop skip =>
    unfold Master.next at hstep
    simp only at hstep
    split at hstep
    · rename_i d off hmsg
      obtain rfl := Option.some.inj hstep
      exact ⟨(spiSetCs_unless_inv h.calls d false skip).of_msg _, fun j hj => absurd hj (by simp)⟩
    · exact absurd hstep (by simp)
  | resume off skip =>
    unfold Master.next at hstep
    simp only at hstep
    split at hstep
    · rename_i d off' hmsg
      obtain rfl := Option.some.inj hstep
      refine ⟨(spiSetCs_unless_inv h.calls d true skip).of_msg _, ?_⟩
      intro j hj
      simp only [Option.some.injEq, Message.transfer.injEq] at hj
      obtain ⟨rfl, rfl⟩ := hj
      exact spiSetCs_activated h.calls d skip
    · exact absurd hstep (by simp)
  | follow off skip =>
    unfold Master.next at hstep
    simp only at hstep
    split at hstep
    · rename_i d off' hmsg
      obtain rfl := Option.some.inj hstep
      refine ⟨(spiSetCs_unless_inv h.calls d off' skip).of_msg _, ?_⟩
      intro j hj
      simp only [Option.some.injEq, Message.transfer.injEq] at hj
      obtain ⟨rfl, rfl⟩ := hj
      -- the call is for the chip select that the transfer behind did without
      cases off' with
      | false => exact h.transfer d hmsg
      | true => exact spiSetCs_activated h.calls d skip
    · exact absurd hstep (by simp)
  | end_ keep skip =>
    unfold Master.next at hstep
    simp only at hstep
    split at hstep
    · rename_i d off hmsg
      obtain rfl := Option.some.inj hstep
      exact ⟨(spiSetCs_unless_inv h.calls d false skip).of_msg _, fun j hj => absurd hj (by simp)⟩
    · exact absurd hstep (by simp)

theorem probed_master (config : BitVec 32) : MasterInv (.probed config) :=
  ⟨⟨fun _ _ h => absurd h (by simp [Master.probed]), fun _ => by simp [Master.probed],
    fun _ h => absurd h (by simp [Master.probed]), fun _ => by simp [Master.probed],
    fun _ h => absurd h (by simp [Master.probed])⟩, fun _ h => absurd h (by simp [Master.probed])⟩

theorem reach_master (h : master.Reach (fun _ _ => True) m) : MasterInv m := by
  refine h.invariant (I := MasterInv) ?_ (fun m a m' hm _ hstep => masterNext_inv hm hstep)
  rintro m ⟨config, rfl⟩
  exact probed_master config

/-- **The last command** is that of the last call, and in a transfer that of the message's device. -/
theorem last_command_names (h : master.Reach (fun _ _ => True) m) : Named m := by
  have hinv := reach_master h
  exact ⟨hinv.calls.last, fun d hd => hinv.calls.last d true (hinv.transfer d hd), hinv.calls.level⟩

/-! ## One device at a time -/

theorem call_active (m : Master) (d : Cs) (activate : Bool) (j : Cs) (hj : j ≠ d) :
    (m.call d activate).active j = m.active j := if_neg hj

/-- At most `d` is active, and then it is the one last called for. -/
structure OnlyActive (m : Master) (d : Cs) : Prop where
  others : ∀ j, j ≠ d → m.active j = false
  called : ∀ j, m.active j = true → m.called = some (j, true)

/-- With the others inactive, a call leaves at most its own device active. -/
theorem call_only (h : OnlyActive m d) (activate : Bool) : OnlyActive (m.call d activate) d := by
  refine ⟨?_, ?_⟩
  · intro j hj
    rw [call_active m d activate j hj]
    exact h.others j hj
  · intro j hj
    by_cases hjd : j = d
    · subst hjd
      have ha : activate = true := (if_pos rfl).symm.trans hj
      rw [ha]
      rfl
    · rw [call_active m d activate j hjd, h.others j hjd] at hj
      exact absurd hj (by simp)

theorem spiSetCs_only (hcalls : CallInv m) (h : OnlyActive m d) (activate skip : Bool) :
    OnlyActive (m.spiSetCs d activate skip) d := by
  rcases spiSetCs_cases hcalls d activate skip with hcall | ⟨hsame, -⟩
  · rw [hcall]
    exact call_only h activate
  · rw [hsame]
    exact h

theorem spiSetCs_unless_only {p : Prop} [Decidable p] (hcalls : CallInv m) (h : OnlyActive m d)
    (activate skip : Bool) : OnlyActive (if p then m else m.spiSetCs d activate skip) d := by
  split
  · exact h
  · exact spiSetCs_only hcalls h activate skip

theorem SoleInv.only (h : SoleInv m) {msg : Message} (hmsg : m.msg = some msg) : OnlyActive m msg.device :=
  ⟨h.msg msg hmsg, h.active⟩

theorem OnlyActive.sole (h : OnlyActive m d) {msg : Option Message} (hmsg : ∀ x, msg = some x → x.device = d) :
    SoleInv { m with msg := msg } := by
  refine ⟨h.called, fun x hx j hj => h.others j ?_⟩
  rwa [hmsg x hx] at hj

theorem soleNext_inv {a : MasterAct} (hinv : MasterInv m) (h : SoleInv m) (hsole : Sole m a)
    (hstep : m.next a = some m') : SoleInv m' := by
  cases a with
  | setup d mode =>
    obtain ⟨hnone, rfl⟩ := of_guard hstep
    have honly : OnlyActive (m.setup d mode) d := ⟨hsole, h.active⟩
    have hcall := call_only honly false
    refine ⟨hcall.called, ?_⟩
    intro x hx
    rw [show m.msg = some x from hx] at hnone
    exact absurd hnone (by simp)
  | begin_ d off skip =>
    obtain ⟨-, rfl⟩ := of_guard hstep
    have honly : OnlyActive m d := ⟨hsole, h.active⟩
    refine (spiSetCs_only hinv.calls honly (!off) skip).sole ?_
    intro x hx
    rw [← Option.some.inj hx]
    rfl
  | drop skip =>
    unfold Master.next at hstep
    simp only at hstep
    split at hstep
    · rename_i d off hmsg
      obtain rfl := Option.some.inj hstep
      have honly : OnlyActive m d := h.only hmsg
      refine (spiSetCs_unless_only hinv.calls honly false skip).sole ?_
      intro x hx
      rw [← Option.some.inj hx]
      rfl
    · exact absurd hstep (by simp)
  | resume off skip =>
    unfold Master.next at hstep
    simp only at hstep
    split at hstep
    · rename_i d off' hmsg
      obtain rfl := Option.some.inj hstep
      have honly : OnlyActive m d := h.only hmsg
      refine (spiSetCs_unless_only hinv.calls honly true skip).sole ?_
      intro x hx
      rw [← Option.some.inj hx]
      rfl
    · exact absurd hstep (by simp)
  | follow off skip =>
    unfold Master.next at hstep
    simp only at hstep
    split at hstep
    · rename_i d off' hmsg
      obtain rfl := Option.some.inj hstep
      have honly : OnlyActive m d := h.only hmsg
      refine (spiSetCs_unless_only hinv.calls honly off' skip).sole ?_
      intro x hx
      rw [← Option.some.inj hx]
      rfl
    · exact absurd hstep (by simp)
  | end_ keep skip =>
    unfold Master.next at hstep
    simp only at hstep
    split at hstep
    · rename_i d off hmsg
      obtain rfl := Option.some.inj hstep
      have honly : OnlyActive m d := h.only hmsg
      exact (spiSetCs_unless_only hinv.calls honly false skip).sole (fun x hx => absurd hx (by simp))
    · exact absurd hstep (by simp)

theorem reach_sole (h : master.Reach Sole m) : MasterInv m ∧ SoleInv m := by
  refine h.invariant (I := fun m => MasterInv m ∧ SoleInv m) ?_
    (fun m a m' hm hsole hstep => ⟨masterNext_inv hm.1 hstep, soleNext_inv hm.1 hm.2 hsole hstep⟩)
  rintro m ⟨config, rfl⟩
  exact ⟨probed_master config, fun _ h => absurd h (by simp [Master.probed]),
    fun _ h => absurd h (by simp [Master.probed])⟩

/-- **One device is selected**, if none is left selected when another is addressed. -/
theorem selected_alone (h : master.Reach Sole m) : Alone m := by
  obtain ⟨hinv, hsole⟩ := reach_sole h
  refine ⟨fun d hd => hinv.calls.last d true (hsole.active d hd), ?_⟩
  intro d hmsg line
  have hcalled := hinv.transfer d hmsg
  rw [hinv.calls.enabled]
  constructor
  · rintro ⟨j, hline, hj⟩
    have hjd := hsole.active j hj
    rw [hcalled] at hjd
    obtain ⟨rfl, -⟩ := Prod.mk.inj (Option.some.inj hjd)
    exact hline
  · rintro rfl
    exact ⟨d, rfl, hinv.calls.active d hcalled⟩

/-- **The addressed device is selected**, and no other, if none is left selected when another is addressed. -/
theorem selects_addressed (h : master.Reach (fun _ _ => True) m) : Named m ∧ (master.Reach Sole m → Alone m) :=
  ⟨last_command_names h, selected_alone⟩

/-- A message to device 5, which is active high, with `cs_change` and `cs_off` in between, and one to
device 3. -/
theorem selects_addressed_two :
    ∃ m, master.Reach Sole m ∧ m.msg = some (.transfer 3 false) ∧ m.last = some 0x883#32 ∧ Named m ∧ Alone m := by
  have hrun : (master.exec (.probed 0#32)
      [.setup 5 SPI_CS_HIGH, .setup 3 0#32, .begin_ 5 false true, .drop true, .resume false true, .follow true true,
        .follow false true, .end_ false true, .begin_ 3 false true]).map
      (fun m => (m.msg, m.last)) = some (some (.transfer 3 false), some 0x883#32) := by decide +kernel
  obtain ⟨m, hexec, hm⟩ := Option.map_eq_some_iff.1 hrun
  simp only [Prod.mk.injEq] at hm
  have hsole : master.Reach Sole m := .of_exec ⟨0#32, rfl⟩ (by decide +kernel) hexec
  obtain ⟨hnamed, halone⟩ := selects_addressed (hsole.mono (fun _ _ _ => trivial))
  exact ⟨m, hsole, hm.1, hm.2, hnamed, halone hsole⟩

/-- **A device left selected** by the last transfer of its message stays so in a message to another. -/
theorem left_selected :
    ∃ m, master.Reach (fun _ _ => True) m ∧ m.msg = some (.transfer 1 false) ∧ m.active 0 = true ∧
      m.last = some 0x881#32 ∧ m.enabled (Cs.num 0) = true ∧ ¬ Alone m := by
  have hrun : (master.exec (.probed 0#32)
      [.setup 0 0#32, .setup 1 0#32, .begin_ 0 false true, .end_ true true, .begin_ 1 false true]).map
      (fun m => (m.msg, m.active 0, m.last, m.enabled (Cs.num 0))) =
      some (some (.transfer 1 false), true, some 0x881#32, true) := by decide +kernel
  obtain ⟨m, hexec, hm⟩ := Option.map_eq_some_iff.1 hrun
  simp only [Prod.mk.injEq] at hm
  obtain ⟨hmsg, hactive, hlast, henabled⟩ := hm
  refine ⟨m, .of_exec ⟨0#32, rfl⟩ (Machine.along_true _ _) hexec, hmsg, hactive, hlast, henabled, ?_⟩
  intro halone
  have hnum := (halone.transfer 1 hmsg (Cs.num 0)).1 henabled
  exact absurd (Cs.num_inj hnum) (by decide)

end Br2Efinix.Spi
