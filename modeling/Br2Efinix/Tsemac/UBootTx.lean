import Mathlib.Algebra.GroupWithZero.Nat
import Mathlib.Algebra.Ring.Int.Defs
import Br2Efinix.Lib.History
import Br2Efinix.Lib.Machine

/-!
# Transmission in U-Boot

`efinix_tse_send` with its two descriptors, and the DMA engine that reads the packet. All packets go through
descriptor 0; that the packet has been read is told from its status alone. The engine acts between any two reads of the
status, and may do so late or never.

* `joint_of_settled`: in a run without a send on top of an unfinished packet, the engine is on the packet of the last
  call.
* `send_run_iff`: **no packet that is being read is disturbed, and 0 is returned for packets that were read
  completely**, exactly in the runs in which every send comes after the last packet has been finished, or the driver
  restarted, and no packet of more than 2²⁷ bytes is seen completed.
-/

namespace Br2Efinix.Tsemac.UBoot

/-! ## The driver and the engine -/

/-- A transmit descriptor: `completed` is its status, `bytes` the length field of `control`, and `src` is `from`. -/
structure TxDesc where
  completed : Bool
  bytes : ℕ
  src : ℕ
  deriving DecidableEq, Repr

/-- Where the engine is: stopped, reading the packet of descriptor `i`, or about to look at descriptor `i`. -/
inductive Engine
  | off
  | exec (i src bytes : ℕ)
  | next (i : ℕ)
  deriving DecidableEq, Repr

/-- Where the driver is: outside of its calls, before the read of the status in `efinix_tse_send`, or before its look
at the time. -/
inductive SendPc
  | idle
  | status
  | timer
  deriving DecidableEq, Repr

/-- The descriptors, the engine, a start that it has not taken up, and the call. Packets are numbered from 1 on.
Only observed is what the engine has read completely, with the number of bytes. -/
structure Tx where
  descs : ℕ → TxDesc
  engine : Engine
  started : Bool
  pc : SendPc
  packet : ℕ
  length : ℤ
  reads : List (ℕ × ℕ)

def EFINIX_TX_DESC_COUNT : ℕ := 2

/-- The length field of `control`. -/
def ctlBytes (length : ℤ) : ℕ := (length.toNat - 1) % 2 ^ 27

namespace Tx

def setDesc (s : Tx) (i : ℕ) (d : TxDesc) : Tx := { s with descs := fun j => if j = i then d else s.descs j }

/-- `efinix_tse_send` up to its loop; a length of 0 or less is `-EINVAL`. Nothing that the engine may do meanwhile
changes what it finds. -/
def send (s : Tx) (length : ℤ) : Option Tx :=
  if s.pc = .idle then
    if length ≤ 0 then some s
    else
      let packet := s.packet + 1
      -- descriptor 1 ends the chain
      some
        { (s.setDesc 0 ⟨false, ctlBytes length, packet⟩).setDesc 1 { s.descs 1 with completed := true, bytes := 0 } with
          started := true, pc := .status, packet := packet, length := length }
  else none

/-- The status is read. Once it is completed, 0 is returned. -/
def readStatus (s : Tx) : Option Tx :=
  if s.pc = .status then
    if (s.descs 0).completed then
      some { s.setDesc 0 { s.descs 0 with completed := true, bytes := 0 } with pc := .idle }
    else some { s with pc := .timer }
  else none

/-- The time is looked at; `-ETIMEDOUT` is returned once it is over. -/
def timer (s : Tx) (expired : Bool) : Option Tx :=
  if s.pc = .timer then some { s with pc := if expired then .idle else .status } else none

/-- `efinix_tse_stop` and the next `efinix_tse_start`: the channel is reset and the descriptors are as
`efinix_tse_init_tx_ring` writes them. -/
def restart (s : Tx) : Option Tx :=
  if s.pc = .idle then some { s with descs := fun _ => ⟨true, 0, 0⟩, engine := .off, started := false } else none

/-- The engine looks at descriptor `i`. -/
def load (s : Tx) (i : ℕ) : Tx :=
  if (s.descs i).completed then { s with engine := .off }
  else { s with engine := .exec i (s.descs i).src ((s.descs i).bytes + 1) }

/-- The engine takes up a start at the head, or goes on to the next descriptor. -/
def fetch (s : Tx) : Option Tx :=
  match s.engine with
  | .off => if s.started then some ({ s with started := false }.load 0) else none
  | .next i => some (s.load i)
  | .exec .. => none

/-- The engine has read its packet, and writes the status. -/
def finish (s : Tx) : Option Tx :=
  match s.engine with
  | .exec i src bytes =>
    some
      { s.setDesc i { s.descs i with completed := true } with
        engine := .next ((i + 1) % EFINIX_TX_DESC_COUNT), reads := s.reads ++ [(src, bytes)] }
  | _ => none

/-- The engine has been started and has not finished its packet. -/
def executing (s : Tx) : Bool :=
  s.started ||
    match s.engine with
    | .exec .. => true
    | _ => false

end Tx

inductive TxAct
  | send (length : ℤ)
  | readStatus
  | timer (expired : Bool)
  | restart
  | fetch
  | finish
  deriving DecidableEq, Repr

def Tx.step (s : Tx) : TxAct → Option Tx
  | .send length => s.send length
  | .readStatus => s.readStatus
  | .timer expired => s.timer expired
  | .restart => s.restart
  | .fetch => s.fetch
  | .finish => s.finish

/-- The state after `efinix_tse_init_tx_ring` and `efinix_tse_dma_start`. -/
def Tx.init : Tx :=
  { descs := fun _ => ⟨true, 0, 0⟩, engine := .off, started := false, pc := .idle, packet := 0, length := 0, reads := [] }

def txMachine : Machine Tx TxAct := ⟨fun s => s = .init, Tx.step⟩

/-! ## The property -/

/-- A send finds the engine without a packet, and what is seen completed is the packet of this call, all of whose bytes
have been read. -/
def Tx.Right (s : Tx) : TxAct → Prop
  | .send length => 0 < length → s.executing = false
  | .readStatus => (s.descs 0).completed = true → ∃ bytes, (s.packet, bytes) ∈ s.reads ∧ s.length = Int.ofNat bytes
  | _ => True

/-- An action after a history is right. -/
def SendRight (before : List TxAct) (a : TxAct) : Prop := ∀ s, txMachine.exec .init before = some s → s.Right a

/-- What an action says about the last packet: it is handed over, or it is finished or dropped. -/
def handedOver : TxAct → Option Bool
  | .send length => if 0 < length then some true else none
  | .finish => some false
  | .restart => some false
  | _ => none

/-- The length of a packet that is handed over. -/
def sentLength : TxAct → Option ℤ
  | .send length => if 0 < length then some length else none
  | _ => none

/-- The engine has not finished the last packet, and the driver has not been restarted. -/
def pending (before : List TxAct) : Bool := lastOf handedOver false before

/-- A send comes when the last packet is not pending, and a finished one that is looked at is not longer than the length
field can say. -/
def Settled (before : List TxAct) : TxAct → Prop
  | .send length => 0 < length → pending before = false
  | .readStatus => pending before = false → lastOf sentLength 0 before ≤ 2 ^ 27
  | _ => True

/-! ## The invariant -/

/-- The engine is on the packet of the last call, or has read it. -/
structure Joint (before : List TxAct) (s : Tx) : Prop where
  executing : pending before = s.executing
  length : lastOf sentLength 0 before = s.length
  ends : (s.descs 1).completed = true
  next : ∀ i, s.engine = .next i → i = 1
  started : s.started = true →
    (∀ i src bytes, s.engine ≠ .exec i src bytes) ∧ s.descs 0 = ⟨false, ctlBytes s.length, s.packet⟩
  exec : ∀ i src bytes, s.engine = .exec i src bytes →
    i = 0 ∧ src = s.packet ∧ bytes = ctlBytes s.length + 1 ∧ (s.descs 0).completed = false
  waiting : s.pc ≠ .idle → 0 < s.length ∧
    (s.executing = false → (s.descs 0).completed = true ∧ (s.packet, ctlBytes s.length + 1) ∈ s.reads)
  reads : ∀ r ∈ s.reads, r.1 ≤ s.packet ∧ (r.1 = s.packet → r.2 = ctlBytes s.length + 1)

variable {before as : List TxAct} {s s' : Tx} {length : ℤ}

theorem executing_eq_false :
    s.executing = false ↔ s.started = false ∧ ∀ i src bytes, s.engine ≠ .exec i src bytes := by
  unfold Tx.executing
  rw [Bool.or_eq_false_iff]
  cases s.engine with
  | off => simp
  | next i => simp
  | exec i src bytes => simp

theorem pending_concat (before : List TxAct) (a : TxAct) :
    pending (before ++ [a]) = (handedOver a).getD (pending before) := lastOf_concat handedOver false before a

theorem joint_init : Joint [] .init where
  executing := rfl
  length := rfl
  ends := rfl
  next := nofun
  started := nofun
  exec := nofun
  waiting := fun h => absurd rfl h
  reads := nofun

/-- A packet is handed over to an engine that has none. -/
theorem joint_send (h : Joint before s) (hsettled : Settled before (.send length)) (hst : s.send length = some s') :
    Joint (before ++ [TxAct.send length]) s' := by
  obtain ⟨hidle, hst⟩ := Option.ite_none_right_eq_some.1 hst
  by_cases hpos : 0 < length
  · -- what has been read so far are packets of earlier calls
    rw [if_neg (by omega)] at hst
    cases hst
    obtain ⟨-, hfree⟩ := executing_eq_false.1 (h.executing.symm.trans (hsettled hpos))
    have hsent : sentLength (.send length) = some length := if_pos hpos
    have hover : handedOver (.send length) = some true := if_pos hpos
    refine ⟨?_, ?_, rfl, h.next, fun _ => ⟨hfree, rfl⟩, fun i src bytes he => absurd he (hfree i src bytes),
      fun _ => ⟨hpos, nofun⟩, ?_⟩
    · rw [pending_concat, hover]
      rfl
    · rw [lastOf_concat, hsent]
      rfl
    · intro r hr
      have hle := (h.reads r hr).1
      refine ⟨Nat.le_succ_of_le hle, fun heq => ?_⟩
      have hnew : r.1 = s.packet + 1 := heq
      omega
  · rw [if_pos (by omega)] at hst
    cases hst
    have hsent : sentLength (.send length) = none := if_neg hpos
    have hover : handedOver (.send length) = none := if_neg hpos
    exact { h with
      executing := by rw [pending_concat, hover]; exact h.executing
      length := by rw [lastOf_concat, hsent]; exact h.length }

/-- A step that hands nothing over and finishes nothing leaves the history's part. -/
theorem quiet_history (h : Joint before s) (s' : Tx) {a : TxAct} (hover : handedOver a = none)
    (hsent : sentLength a = none) (hexec : s'.executing = s.executing) (hlength : s'.length = s.length) :
    pending (before ++ [a]) = s'.executing ∧ lastOf sentLength 0 (before ++ [a]) = s'.length := by
  rw [pending_concat, lastOf_concat, hover, hsent, hexec, hlength]
  exact ⟨h.executing, h.length⟩

theorem joint_readStatus (h : Joint before s) (hst : s.readStatus = some s') :
    Joint (before ++ [TxAct.readStatus]) s' := by
  obtain ⟨hpc, hst⟩ := Option.ite_none_right_eq_some.1 hst
  by_cases hcompleted : (s.descs 0).completed = true
  · -- neither a start nor a packet is left, for both go with a status that is not completed
    rw [if_pos hcompleted] at hst
    cases hst
    obtain ⟨hexec, hlength⟩ := quiet_history h _ (a := .readStatus) rfl rfl rfl rfl
    refine ⟨hexec, hlength, h.ends, h.next, ?_, ?_, fun hne => absurd rfl hne, h.reads⟩
    · intro hstarted
      obtain ⟨-, hdesc⟩ := h.started hstarted
      rw [hdesc] at hcompleted
      cases hcompleted
    · intro i src bytes he
      rw [(h.exec i src bytes he).2.2.2] at hcompleted
      cases hcompleted
  · rw [if_neg hcompleted] at hst
    cases hst
    obtain ⟨hexec, hlength⟩ := quiet_history h { s with pc := .timer } (a := .readStatus) rfl rfl rfl rfl
    exact ⟨hexec, hlength, h.ends, h.next, h.started, h.exec, fun _ => h.waiting (by rw [hpc]; nofun), h.reads⟩

theorem joint_timer (h : Joint before s) {expired : Bool} (hst : s.timer expired = some s') :
    Joint (before ++ [TxAct.timer expired]) s' := by
  obtain ⟨hpc, hst⟩ := Option.ite_none_right_eq_some.1 hst
  cases hst
  obtain ⟨hexec, hlength⟩ := quiet_history h { s with pc := if expired then .idle else .status }
    (a := .timer expired) rfl rfl rfl rfl
  exact ⟨hexec, hlength, h.ends, h.next, h.started, h.exec, fun _ => h.waiting (by rw [hpc]; nofun), h.reads⟩

theorem joint_restart (h : Joint before s) (hst : s.restart = some s') : Joint (before ++ [TxAct.restart]) s' := by
  obtain ⟨hidle, hst⟩ := Option.ite_none_right_eq_some.1 hst
  cases hst
  refine ⟨?_, ?_, rfl, nofun, nofun, nofun, fun hne => absurd hidle hne, h.reads⟩
  · rw [pending_concat]
    rfl
  · rw [lastOf_concat]
    exact h.length

/-- The engine takes up its packet, or stops at descriptor 1. -/
theorem joint_fetch (h : Joint before s) (hst : s.fetch = some s') : Joint (before ++ [TxAct.fetch]) s' := by
  unfold Tx.fetch at hst
  cases hengine : s.engine with
  | off =>
    rw [hengine] at hst
    obtain ⟨hstarted, hst⟩ := Option.ite_none_right_eq_some.1 hst
    obtain ⟨-, hdesc⟩ := h.started hstarted
    have hload : s' = { s with started := false, engine := .exec 0 s.packet (ctlBytes s.length + 1) } := by
      rw [← Option.some.inj hst, Tx.load, if_neg (by rw [hdesc]; exact Bool.false_ne_true), hdesc]
    subst hload
    have hwas : s.executing = true := by
      unfold Tx.executing
      rw [hstarted]
      rfl
    obtain ⟨hexec, hlength⟩ := quiet_history h
      { s with started := false, engine := .exec 0 s.packet (ctlBytes s.length + 1) } (a := .fetch) rfl rfl hwas.symm
      rfl
    refine ⟨hexec, hlength, h.ends, nofun, nofun, ?_, ?_, h.reads⟩
    · rintro i src bytes ⟨⟩
      exact ⟨rfl, rfl, rfl, by rw [hdesc]⟩
    · intro hpc
      exact ⟨(h.waiting hpc).1, nofun⟩
  | next i =>
    rw [hengine] at hst
    -- a start that came meanwhile stays
    have hone := h.next i hengine
    subst hone
    have hload : s' = { s with engine := .off } := by rw [← Option.some.inj hst, Tx.load, if_pos h.ends]
    subst hload
    have hsame : ({ s with engine := .off } : Tx).executing = s.executing := by
      unfold Tx.executing
      rw [hengine]
    obtain ⟨hexec, hlength⟩ := quiet_history h _ (a := .fetch) rfl rfl hsame rfl
    refine ⟨hexec, hlength, h.ends, nofun, fun hstarted => ⟨nofun, (h.started hstarted).2⟩, nofun, ?_, h.reads⟩
    intro hpc
    rw [hsame]
    exact h.waiting hpc
  | exec i src bytes =>
    rw [hengine] at hst
    cases hst

/-- The engine finishes the packet of the last call. -/
theorem joint_finish (h : Joint before s) (hst : s.finish = some s') : Joint (before ++ [TxAct.finish]) s' := by
  unfold Tx.finish at hst
  cases hengine : s.engine with
  | off => rw [hengine] at hst; cases hst
  | next i => rw [hengine] at hst; cases hst
  | exec i src bytes =>
    rw [hengine] at hst
    obtain ⟨rfl, rfl, rfl, -⟩ := h.exec i src bytes hengine
    cases hst
    have hstarted : s.started = false := by
      cases hs : s.started with
      | false => rfl
      | true => exact absurd hengine ((h.started hs).1 _ _ _)
    refine ⟨?_, ?_, h.ends, ?_, fun hs => ?_, nofun, ?_, ?_⟩
    · rw [pending_concat]
      show false = (s.started || false)
      rw [hstarted]
      rfl
    · rw [lastOf_concat]
      exact h.length
    · rintro j ⟨⟩
      rfl
    · exact absurd (hstarted.symm.trans hs) Bool.false_ne_true
    · intro hpc
      exact ⟨(h.waiting hpc).1, fun _ => ⟨rfl, List.mem_append_right _ (List.mem_singleton_self _)⟩⟩
    · intro r hr
      rcases List.mem_append.1 hr with hold | hnew
      · exact h.reads r hold
      · rw [List.mem_singleton.1 hnew]
        exact ⟨Nat.le_refl _, fun _ => rfl⟩

theorem Joint.step {a : TxAct} (h : Joint before s) (hsettled : Settled before a) (hst : txMachine.step s a = some s') :
    Joint (before ++ [a]) s' := by
  cases a with
  | send length => exact joint_send h hsettled hst
  | readStatus => exact joint_readStatus h hst
  | timer expired => exact joint_timer h hst
  | restart => exact joint_restart h hst
  | fetch => exact joint_fetch h hst
  | finish => exact joint_finish h hst

/-! ## The result -/

/-- **The invariant holds along settled runs.** -/
theorem joint_of_settled (hsettled : Along Settled before) (hrun : txMachine.exec .init before = some s) :
    Joint before s := by
  induction before using List.reverseRecOn generalizing s with
  | nil =>
    cases hrun
    exact joint_init
  | append_singleton before a ih =>
    obtain ⟨hbefore, ha⟩ := along_concat.1 hsettled
    obtain ⟨s₁, h₁, hst⟩ := Machine.exec_concat.1 hrun
    exact (ih hbefore h₁).step ha hst

/-- The length field says the length of a packet exactly up to 2²⁷ bytes. -/
theorem ctlBytes_eq_iff (hpos : 0 < length) : length = Int.ofNat (ctlBytes length + 1) ↔ length ≤ 2 ^ 27 := by
  unfold ctlBytes
  rw [Int.ofNat_eq_natCast]
  omega

/-- In a state of the invariant an action is right exactly if it is settled. -/
theorem Joint.right_iff (h : Joint before s) {a : TxAct} (hst : txMachine.step s a ≠ none) :
    s.Right a ↔ Settled before a := by
  cases a with
  | send length =>
    show (0 < length → s.executing = false) ↔ (0 < length → pending before = false)
    rw [h.executing]
  | readStatus =>
    show ((s.descs 0).completed = true → ∃ bytes, (s.packet, bytes) ∈ s.reads ∧ s.length = Int.ofNat bytes) ↔
      (pending before = false → lastOf sentLength 0 before ≤ 2 ^ 27)
    have hpc : s.pc ≠ .idle := by
      intro hidle
      apply hst
      show (if s.pc = .status then _ else none) = none
      rw [hidle]
      rfl
    obtain ⟨hpos, hwaiting⟩ := h.waiting hpc
    rw [h.executing, h.length, ← ctlBytes_eq_iff hpos]
    constructor
    · -- of this packet the engine has read what the length field says
      intro hright hfree
      obtain ⟨bytes, hmem, hbytes⟩ := hright (hwaiting hfree).1
      have hread : bytes = ctlBytes s.length + 1 := (h.reads _ hmem).2 rfl
      rwa [hread] at hbytes
    · intro hsettled hcompleted
      have hfree : s.executing = false := by
        rw [executing_eq_false]
        constructor
        · cases hs : s.started with
          | false => rfl
          | true =>
            rw [(h.started hs).2] at hcompleted
            cases hcompleted
        · intro i src bytes he
          rw [(h.exec i src bytes he).2.2.2] at hcompleted
          cases hcompleted
      exact ⟨_, (hwaiting hfree).2, hsettled hfree⟩
  | timer expired => exact Iff.rfl
  | restart => exact Iff.rfl
  | fetch => exact Iff.rfl
  | finish => exact Iff.rfl

/-- **Transmission is right** in a run exactly if every send comes when the last packet has been finished, or the driver
restarted, and no packet longer than 2²⁷ bytes is seen completed. -/
theorem send_run_iff (hrun : txMachine.exec .init as = some s) : Along SendRight as ↔ Along Settled as := by
  apply along_congr
  intro before a after heq hsettled
  rw [heq, Machine.exec_append, Option.bind_eq_some_iff] at hrun
  obtain ⟨s₁, hbefore, hafter⟩ := hrun
  obtain ⟨s₂, hst, -⟩ := Option.bind_eq_some_iff.1 hafter
  have hiff := (joint_of_settled hsettled hbefore).right_iff (a := a) (by rw [hst]; nofun)
  constructor
  · intro hright
    exact hiff.1 (hright s₁ hbefore)
  · intro ha s' hs'
    rw [hbefore] at hs'
    cases hs'
    exact hiff.2 ha

/-- A packet of 60 bytes is read late, after the send has timed out, and the next one is sent after that. -/
def lateRun : List TxAct :=
  [.send 60, .readStatus, .timer true, .fetch, .finish, .fetch, .send 1500, .fetch, .readStatus, .timer false, .finish,
    .readStatus, .fetch]

/-- The next one is sent before the late packet is finished. -/
def staleRun : List TxAct :=
  [.send 60, .fetch, .readStatus, .timer true, .send 1500, .finish, .readStatus]

instance : ∀ before a, Decidable (Settled before a)
  | before, .send length => inferInstanceAs (Decidable (0 < length → pending before = false))
  | before, .readStatus => inferInstanceAs (Decidable (pending before = false → lastOf sentLength 0 before ≤ 2 ^ 27))
  | _, .timer _ => isTrue trivial
  | _, .restart => isTrue trivial
  | _, .fetch => isTrue trivial
  | _, .finish => isTrue trivial

/-- **A late packet** only holds up the next one. -/
theorem lateRun_right : (txMachine.exec .init lateRun).isSome = true ∧ Along SendRight lateRun := by
  have hsome : (txMachine.exec .init lateRun).isSome = true := by decide
  obtain ⟨s, hs⟩ := Option.isSome_iff_exists.1 hsome
  refine ⟨hsome, (send_run_iff hs).2 ?_⟩
  unfold lateRun
  simp only [along_cons, along_nil, and_true]
  decide

/-- **The completion of the first packet** is taken for that of the second, of which nothing has been read: the second
send has written to the descriptor while the engine was on the first. -/
theorem staleRun_wrong :
    ¬ Along SendRight staleRun ∧
      ((txMachine.exec .init (staleRun.take 4)).map Tx.executing = some true) ∧
      (txMachine.exec .init (staleRun.take 6)).map (fun s => ((s.descs 0).completed, s.packet, s.reads)) =
        some (true, 2, [(1, 60)]) := by
  have hexecuting : (txMachine.exec .init (staleRun.take 4)).map Tx.executing = some true := by decide
  refine ⟨?_, hexecuting, by decide⟩
  intro h
  obtain ⟨s, hs, htrue⟩ := Option.map_eq_some_iff.1 hexecuting
  have hfalse : s.executing = false := h (staleRun.take 4) (.send 1500) (staleRun.drop 5) rfl s hs (by decide)
  exact Bool.false_ne_true (hfalse.symm.trans htrue)

end Br2Efinix.Tsemac.UBoot
