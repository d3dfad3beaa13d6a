import Br2Efinix.Lib.Machine

/-!
# The slave side of the I2C controllers

`efx_i2c_interrupt_slave` follows a transfer in the variable `state`, which is one for all
controllers. The handlers of two controllers may run at the same time, so a handler is three
steps: it reads its interrupts and may store `state`, it branches on `state`, and it
stores `state` and returns.

* `slaves_independent_iff`: what a controller does is the same in two runs in which it sees the same
  exactly when its handler finds the same states.
* `slave_alone`: a controller whose handler finds what it stored itself runs as if it were alone.
-/

namespace Br2Efinix.I2c

variable {ι γ : Type*}

/-! ## Registers -/

def EFX_I2C_TX_DATA : ℕ := 0x00
def EFX_I2C_TX_ACK : ℕ := 0x04
def EFX_I2C_IRQ : ℕ := 0x20
def EFX_I2C_IRQ_CLR : ℕ := 0x24

def EFX_I2C_TX_DATA_VALID : BitVec 32 := 0x100#32
def EFX_I2C_TX_DATA_ENABLE : BitVec 32 := 0x200#32
def EFX_I2C_TX_DATA_DISABLE_DATA_CONFLICT : BitVec 32 := 0x800#32
def EFX_I2C_TX_ACK_VALID : BitVec 32 := 0x100#32
def EFX_I2C_TX_ACK_ENABLE : BitVec 32 := 0x200#32
def EFX_I2C_IRQ_TX_DATA_ENABLE : BitVec 32 := 0x4#32
def EFX_I2C_IRQ_CLR_FILTER : BitVec 32 := 0x20000#32

/-- What one run of the handler reads from its controller: `EFX_I2C_IRQ` is read once when a transfer
begins and once in the branch. -/
structure Regs where
  irqClr : BitVec 32
  irqBegin : BitVec 32
  hitContext : BitVec 32
  filteringStatus : BitVec 32
  irq : BitVec 32
  rxData : BitVec 32
  deriving DecidableEq, Repr

/-! ## The handler -/

/-- `enum state`. -/
inductive State
  | idle
  | writeAddr
  | readData0
  | writeData0
  deriving DecidableEq, Repr

/-- `enum i2c_slave_event`, as far as the driver sends them. -/
inductive SlaveEvent
  | readRequested
  | writeRequested
  | readProcessed
  | writeReceived
  deriving DecidableEq, Repr

/-- The callback of the client, which may change the value. -/
abbrev Client (γ : Type*) := SlaveEvent → BitVec 8 → γ → BitVec 8 × γ

/-- Where a handler is: `leaving` with what it is about to store in `state`, and whether it then clears the
interrupt. -/
inductive Pc
  | out
  | entered (r : Regs)
  | leaving (next : State) (clear : Bool)
  deriving DecidableEq, Repr

/-- A controller and its client. Only observed are the events that the client got and the register writes. -/
structure Slave (γ : Type*) where
  pc : Pc
  client : γ
  events : List (SlaveEvent × BitVec 8)
  writes : List (ℕ × BitVec 32)

namespace Slave

def writel (d : Slave γ) (value : BitVec 32) (reg : ℕ) : Slave γ := { d with writes := d.writes ++ [(reg, value)] }

/-- `i2c_slave_event`. -/
def slaveEvent (client : Client γ) (d : Slave γ) (event : SlaveEvent) (value : BitVec 8) : BitVec 8 × Slave γ :=
  let r := client event value d.client
  (r.1, { d with client := r.2, events := d.events ++ [(event, value)] })

/-- `efx_i2c_disable_interrupt`, which reads `irq`. -/
def disableInterrupt (d : Slave γ) (irq value : BitVec 32) : Slave γ := d.writel (irq &&& ~~~value) EFX_I2C_IRQ

/-- `efx_i2c_enable_interrupt`. -/
def enableInterrupt (d : Slave γ) (irq value : BitVec 32) : Slave γ := d.writel (value ||| irq) EFX_I2C_IRQ

/-- `efx_i2c_clear_irq_flag`. -/
def clearIrqFlag (d : Slave γ) (value : BitVec 32) : Slave γ := d.writel value EFX_I2C_IRQ_CLR

/-- `efx_i2c_write_byte`. -/
def writeByte (d : Slave γ) (byte : BitVec 8) : Slave γ :=
  d.writel (byte.setWidth 32 ||| EFX_I2C_TX_DATA_ENABLE ||| EFX_I2C_TX_DATA_VALID |||
    EFX_I2C_TX_DATA_DISABLE_DATA_CONFLICT) EFX_I2C_TX_DATA

/-- `efx_i2c_tx_ack`. -/
def txAck (d : Slave γ) : Slave γ := d.writel (EFX_I2C_TX_ACK_VALID ||| EFX_I2C_TX_ACK_ENABLE) EFX_I2C_TX_ACK

/-- `efx_i2c_tx_nack`. -/
def txNack (d : Slave γ) : Slave γ :=
  d.writel (1#32 ||| EFX_I2C_TX_ACK_VALID ||| EFX_I2C_TX_ACK_ENABLE) EFX_I2C_TX_ACK

def release : BitVec 8 := 0xFF#8

/-- The cases `WRITE_ADDR` and `WRITE_DATA0`. -/
def received (client : Client γ) (d : Slave γ) (r : Regs) : Slave γ :=
  let d := (d.txAck).writeByte release
  let value := (r.rxData &&& 0xff#32).setWidth 8
  { (d.slaveEvent client .writeReceived value).2 with pc := .leaving .writeData0 false }

/-- The switch in `efx_i2c_interrupt_slave`. -/
def dispatch (client : Client γ) (d : Slave γ) (r : Regs) : State → Slave γ
  | .idle =>
    if r.hitContext = 0x1#32 then
      if r.filteringStatus = 0x0#32 then
        let d := (d.slaveEvent client .writeRequested 0x0#8).2
        { ((d.txAck).writeByte release).enableInterrupt r.irq EFX_I2C_IRQ_TX_DATA_ENABLE with
          pc := .leaving .writeAddr true }
      else
        let p := d.slaveEvent client .readRequested 0x0#8
        { ((p.2.txAck).writeByte p.1).enableInterrupt r.irq EFX_I2C_IRQ_TX_DATA_ENABLE with
          pc := .leaving .readData0 true }
    else { d.disableInterrupt r.irq EFX_I2C_IRQ_TX_DATA_ENABLE with pc := .leaving .idle true }
  | .writeAddr => d.received client r
  | .readData0 =>
    let p := d.slaveEvent client .readProcessed 0x0#8
    { (p.2.txNack).writeByte p.1 with pc := .leaving .readData0 false }
  | .writeData0 => d.received client r

end Slave

/-- A transfer begins: `irq_status & EFX_I2C_IRQ_CLR_FILTER`. -/
def Regs.begins (r : Regs) : Bool := r.irqClr &&& EFX_I2C_IRQ_CLR_FILTER != 0#32

/-- A controller's part in a step: `branch` comes with the state that the handler finds. -/
inductive SlaveStep
  | enter (r : Regs)
  | branch (found : State)
  | leave
  deriving DecidableEq, Repr

def Slave.step (client : Client γ) (d : Slave γ) : SlaveStep → Option (Slave γ)
  | .enter r =>
    match d.pc with
    | .out =>
      let d := if r.begins then d.disableInterrupt r.irqBegin EFX_I2C_IRQ_TX_DATA_ENABLE else d
      some { d with pc := .entered r }
    | _ => none
  | .branch found =>
    match d.pc with
    | .entered r => some (d.dispatch client r found)
    | _ => none
  | .leave =>
    match d.pc with
    | .leaving _ clear => some { (if clear then d.clearIrqFlag EFX_I2C_IRQ_CLR_FILTER else d) with pc := .out }
    | _ => none

/-! ## The controllers together -/

/-- The variable `state` and the controllers. Only observed is what the handler of each has last stored in
`state`. -/
structure Sys (ι γ : Type*) where
  state : State
  slave : ι → Slave γ
  stored : ι → State

/-- The steps of the handler of controller `i`. -/
inductive SlaveAct (ι : Type*)
  | enter (i : ι) (r : Regs)
  | branch (i : ι)
  | leave (i : ι)
  deriving DecidableEq, Repr

def SlaveAct.ctrl : SlaveAct ι → ι
  | .enter i _ => i
  | .branch i => i
  | .leave i => i

/-- What the step of a controller does, with `state` before it. -/
def SlaveAct.part (found : State) : SlaveAct ι → SlaveStep
  | .enter _ r => .enter r
  | .branch _ => .branch found
  | .leave _ => .leave

/-- What the step stores in `state`. -/
def SlaveAct.stores (pc : Pc) : SlaveAct ι → Option State
  | .enter _ r => if r.begins then some .idle else none
  | .branch _ => none
  | .leave _ =>
    match pc with
    | .leaving next _ => some next
    | _ => none

variable [DecidableEq ι]

def Sys.step (client : ι → Client γ) (s : Sys ι γ) (a : SlaveAct ι) : Option (Sys ι γ) :=
  let i := a.ctrl
  ((s.slave i).step (client i) (a.part s.state)).map fun d =>
    let store := a.stores (s.slave i).pc
    { state := store.getD s.state
      slave := fun j => if j = i then d else s.slave j
      stored := fun j => if j = i then store.getD (s.stored i) else s.stored j }

/-- After the module is loaded, with the clients as they are. -/
def Sys.probed (clients : ι → γ) : Sys ι γ :=
  { state := .idle
    slave := fun i => { pc := .out, client := clients i, events := [], writes := [] }
    stored := fun _ => .idle }

def i2cMachine (client : ι → Client γ) : Machine (Sys ι γ) (SlaveAct ι) :=
  { init := fun s => ∃ clients, s = .probed clients
    step := fun s a => s.step client a }

/-! ## The property -/

/-- The client of `A` gets the same events, and `A` writes the same to its registers. -/
def SameFor (A : ι) (s s' : Sys ι γ) : Prop :=
  (s.slave A).events = (s'.slave A).events ∧ (s.slave A).writes = (s'.slave A).writes

/-- The steps of the handler of `A`, with what it reads. -/
def own (A : ι) (as : List (SlaveAct ι)) : List (SlaveAct ι) := as.filter fun a => a.ctrl = A

/-! ## The condition -/

/-- `WRITE_ADDR` and `WRITE_DATA0` are handled alike. -/
def State.merge : State → State
  | .writeAddr => .writeData0
  | found => found

def SlaveStep.merge : SlaveStep → SlaveStep
  | .branch found => .branch found.merge
  | a => a

/-- The share of `A` in a step. -/
def watch (A : ι) (s : Sys ι γ) (a : SlaveAct ι) : Option SlaveStep :=
  if a.ctrl = A then some (a.part s.state) else none

/-- The steps of the handler of `A`, with the states that it finds. -/
def found (client : ι → Client γ) (A : ι) (s : Sys ι γ) (as : List (SlaveAct ι)) : List SlaveStep :=
  ((i2cMachine client).view (watch A) s as).map SlaveStep.merge

/-! ## One controller -/

def slaveMachine (client : Client γ) : Machine (Slave γ) SlaveStep :=
  { init := fun d => d.pc = .out, step := fun d a => d.step client a }

variable {client : Client γ} {d e e' : Slave γ}

theorem step_merge (a : SlaveStep) : d.step client a.merge = d.step client a := by
  cases a with
  | enter r => rfl
  | leave => rfl
  | branch f => cases f <;> rfl

/-- The event of a branch, if it has one. -/
def heard (r : Regs) : State → Option SlaveEvent
  | .idle =>
    if r.hitContext = 0x1#32 then
      if r.filteringStatus = 0x0#32 then some .writeRequested else some .readRequested
    else none
  | .writeAddr => some .writeReceived
  | .readData0 => some .readProcessed
  | .writeData0 => some .writeReceived

/-- The state that an event tells. -/
def told : Option SlaveEvent → State
  | some .writeReceived => .writeData0
  | some .readProcessed => .readData0
  | _ => .idle

theorem told_heard (r : Regs) (f : State) : told (heard r f) = f.merge := by
  cases f with
  | idle =>
    unfold heard
    simp only
    split
    · split <;> rfl
    · rfl
  | writeAddr => rfl
  | readData0 => rfl
  | writeData0 => rfl

/-- States that are not handled alike are told apart by the event. -/
theorem heard_ne (r : Regs) {f f' : State} (hne : f.merge ≠ f'.merge) : heard r f ≠ heard r f' := by
  intro heq
  have htold := congrArg told heq
  rw [told_heard, told_heard] at htold
  exact hne htold

/-- A branch with an event begins with it, and writes the acknowledge register first, -/
theorem dispatch_some (client : Client γ) (d : Slave γ) {r : Regs} {f : State} {event : SlaveEvent}
    (h : heard r f = some event) :
    (∃ v, (d.dispatch client r f).events = d.events ++ [(event, v)]) ∧
      ∃ v rest, (d.dispatch client r f).writes = d.writes ++ (EFX_I2C_TX_ACK, v) :: rest := by
  cases f with
  | idle =>
    unfold heard at h
    unfold Slave.dispatch
    simp only at h ⊢
    split at h
    · rename_i hhit
      rw [if_pos hhit]
      split at h
      · rename_i hwrite
        obtain rfl := Option.some.inj h
        rw [if_pos hwrite]
        exact ⟨⟨_, rfl⟩, _, _, (List.append_assoc _ _ _).trans (List.append_assoc _ _ _)⟩
      · rename_i hread
        obtain rfl := Option.some.inj h
        rw [if_neg hread]
        exact ⟨⟨_, rfl⟩, _, _, (List.append_assoc _ _ _).trans (List.append_assoc _ _ _)⟩
    · exact absurd h (by simp)
  | writeAddr =>
    obtain rfl := Option.some.inj h
    exact ⟨⟨_, rfl⟩, _, [_], List.append_assoc _ _ _⟩
  | readData0 =>
    obtain rfl := Option.some.inj h
    exact ⟨⟨_, rfl⟩, _, [_], List.append_assoc _ _ _⟩
  | writeData0 =>
    obtain rfl := Option.some.inj h
    exact ⟨⟨_, rfl⟩, _, [_], List.append_assoc _ _ _⟩

/-- and the branch without one writes the interrupt register. -/
theorem dispatch_none (client : Client γ) (d : Slave γ) {r : Regs} {f : State} (h : heard r f = none) :
    (d.dispatch client r f).events = d.events ∧
      ∃ v, (d.dispatch client r f).writes = d.writes ++ [(EFX_I2C_IRQ, v)] := by
  cases f with
  | idle =>
    unfold heard at h
    unfold Slave.dispatch
    simp only at h ⊢
    split at h
    · split at h <;> exact absurd h (by simp)
    · rename_i hmiss
      rw [if_neg hmiss]
      exact ⟨rfl, _, rfl⟩
  | writeAddr => exact absurd h (by simp [heard])
  | readData0 => exact absurd h (by simp [heard])
  | writeData0 => exact absurd h (by simp [heard])

/-- Lists that begin alike and then differ differ for good. -/
theorem ne_of_split {β : Type*} {l m m' t t' : List β} {x x' : β} (hx : x ≠ x') (h : l ++ x :: t <+: m)
    (h' : l ++ x' :: t' <+: m') : m ≠ m' := by
  rintro rfl
  obtain ⟨u, rfl⟩ := h
  obtain ⟨u', heq⟩ := h'
  rw [List.append_assoc, List.append_assoc] at heq
  have htail := List.append_cancel_left heq
  exact hx (List.cons.inj htail).1.symm

/-- What a controller has done stays. -/
def Grown (d e : Slave γ) : Prop := d.events <+: e.events ∧ d.writes <+: e.writes

theorem Grown.trans {f : Slave γ} (h : Grown d e) (h' : Grown e f) : Grown d f :=
  ⟨h.1.trans h'.1, h.2.trans h'.2⟩

theorem grown_writel (d : Slave γ) (value : BitVec 32) (reg : ℕ) : Grown d (d.writel value reg) :=
  ⟨List.prefix_rfl, List.prefix_append _ _⟩

theorem dispatch_grown (r : Regs) (f : State) : Grown d (d.dispatch client r f) := by
  rcases hheard : heard r f with _ | event
  · obtain ⟨hevents, v, hwrites⟩ := dispatch_none client d hheard
    exact ⟨hevents ▸ List.prefix_rfl, hwrites ▸ List.prefix_append _ _⟩
  · obtain ⟨⟨v, hevents⟩, u, rest, hwrites⟩ := dispatch_some client d hheard
    exact ⟨hevents ▸ List.prefix_append _ _, hwrites ▸ List.prefix_append _ _⟩

theorem step_grown {a : SlaveStep} (hstep : d.step client a = some e) : Grown d e := by
  cases a with
  | enter r =>
    unfold Slave.step at hstep
    simp only at hstep
    split at hstep
    · obtain rfl := Option.some.inj hstep
      by_cases hb : r.begins = true
      · simp only [if_pos hb]
        exact grown_writel d _ _
      · simp only [if_neg hb]
        exact ⟨List.prefix_rfl, List.prefix_rfl⟩
    · exact absurd hstep (by simp)
  | branch f =>
    unfold Slave.step at hstep
    simp only at hstep
    split at hstep
    · obtain rfl := Option.some.inj hstep
      exact dispatch_grown _ f
    · exact absurd hstep (by simp)
  | leave =>
    unfold Slave.step at hstep
    simp only at hstep
    split at hstep
    · rename_i next clear _
      obtain rfl := Option.some.inj hstep
      by_cases hc : clear = true
      · simp only [if_pos hc]
        exact grown_writel d _ _
      · simp only [if_neg hc]
        exact ⟨List.prefix_rfl, List.prefix_rfl⟩
    · exact absurd hstep (by simp)

theorem exec_grown {l : List SlaveStep} (hexec : (slaveMachine client).exec d l = some e) : Grown d e :=
  Machine.exec_invariant (I := Grown d) (fun _ _ _ h hstep => h.trans (step_grown hstep))
    ⟨List.prefix_rfl, List.prefix_rfl⟩ hexec

/-- **Two branches** from the same place that find states that are not handled alike. -/
theorem branch_apart {f f' : State} (hne : f.merge ≠ f'.merge) {e₁ e₁' : Slave γ}
    (hstep : d.step client (.branch f) = some e₁) (hstep' : d.step client (.branch f') = some e₁')
    (hgrown : Grown e₁ e) (hgrown' : Grown e₁' e') : ¬ (e.events = e'.events ∧ e.writes = e'.writes) := by
  unfold Slave.step at hstep hstep'
  simp only at hstep hstep'
  split at hstep
  · rename_i r hpc
    rw [hpc] at hstep'
    obtain rfl := Option.some.inj hstep
    obtain rfl := Option.some.inj hstep'
    have hapart := heard_ne r hne
    rintro ⟨hevents, hwrites⟩
    rcases hheard : heard r f with _ | event <;> rcases hheard' : heard r f' with _ | event'
    · exact hapart (hheard.trans hheard'.symm)
    · -- one branch only writes the interrupt register
      obtain ⟨-, v, hfirst⟩ := dispatch_none client d hheard
      obtain ⟨-, v', rest, hfirst'⟩ := dispatch_some client d hheard'
      have hg := hgrown.2
      have hg' := hgrown'.2
      rw [hfirst] at hg
      rw [hfirst'] at hg'
      exact ne_of_split (by simp [EFX_I2C_IRQ, EFX_I2C_TX_ACK]) hg hg' hwrites
    · obtain ⟨-, v, rest, hfirst⟩ := dispatch_some client d hheard
      obtain ⟨-, v', hfirst'⟩ := dispatch_none client d hheard'
      have hg := hgrown.2
      have hg' := hgrown'.2
      rw [hfirst] at hg
      rw [hfirst'] at hg'
      exact ne_of_split (by simp [EFX_I2C_IRQ, EFX_I2C_TX_ACK]) hg hg' hwrites
    · -- the clients get different events
      obtain ⟨⟨v, hfirst⟩, -⟩ := dispatch_some client d hheard
      obtain ⟨⟨v', hfirst'⟩, -⟩ := dispatch_some client d hheard'
      have hg := hgrown.1
      have hg' := hgrown'.1
      rw [hfirst] at hg
      rw [hfirst'] at hg'
      have hevent : event ≠ event' := by
        rintro rfl
        exact hapart (hheard.trans hheard'.symm)
      exact ne_of_split (by simp [hevent]) hg hg' hevents
  · exact absurd hstep (by simp)

/-- **A controller's runs** with the same steps do the same exactly when the branches find states that are
handled alike. -/
theorem exec_same_iff {l l' : List SlaveStep} (hexec : (slaveMachine client).exec d l = some e)
    (hexec' : (slaveMachine client).exec d l' = some e')
    (hown : List.Forall₂ (fun a a' => a = a' ∨ ∃ f f', a = .branch f ∧ a' = .branch f') l l') :
    (e.events = e'.events ∧ e.writes = e'.writes) ↔ l.map SlaveStep.merge = l'.map SlaveStep.merge := by
  induction hown generalizing d with
  | nil =>
    obtain rfl := Option.some.inj (hexec.symm.trans hexec')
    exact ⟨fun _ => rfl, fun _ => ⟨rfl, rfl⟩⟩
  | @cons a a' l l' hhead hown ih =>
    obtain ⟨e₁, h1, h2⟩ := Option.bind_eq_some_iff.1 hexec
    obtain ⟨e₁', h1', h2'⟩ := Option.bind_eq_some_iff.1 hexec'
    rw [List.map_cons, List.map_cons]
    by_cases hmerge : a.merge = a'.merge
    · have hsame : e₁ = e₁' := by
        have hstep : d.step client a = d.step client a' := by
          rw [← step_merge a, ← step_merge a', hmerge]
        exact Option.some.inj (h1.symm.trans (hstep.trans h1'))
      subst hsame
      rw [hmerge, ih h2 h2']
      exact ⟨fun h => by rw [h], fun h => (List.cons.inj h).2⟩
    · rcases hhead with rfl | ⟨f, f', rfl, rfl⟩
      · exact absurd rfl hmerge
      · have hne : f.merge ≠ f'.merge := by
          intro heq
          exact hmerge (congrArg SlaveStep.branch heq)
        constructor
        · intro hsame
          exact absurd hsame (branch_apart hne h1 h1' (exec_grown h2) (exec_grown h2'))
        · intro hlists
          exact absurd (List.cons.inj hlists).1 hmerge

/-! ## All controllers -/

variable {client client' : ι → Client γ} {A : ι} {s s' : Sys ι γ} {as as' : List (SlaveAct ι)}

theorem sys_step {a : SlaveAct ι} (hstep : (i2cMachine client).step s a = some s') :
    ∃ d, (s.slave a.ctrl).step (client a.ctrl) (a.part s.state) = some d ∧
      s'.state = (a.stores (s.slave a.ctrl).pc).getD s.state ∧
      (∀ j, s'.slave j = if j = a.ctrl then d else s.slave j) ∧
      ∀ j, s'.stored j = if j = a.ctrl then (a.stores (s.slave a.ctrl).pc).getD (s.stored a.ctrl)
        else s.stored j := by
  obtain ⟨d, hd, rfl⟩ := Option.map_eq_some_iff.1 hstep
  exact ⟨d, hd, rfl, fun _ => rfl, fun _ => rfl⟩

/-- Each controller runs on its share of the steps. -/
theorem exec_slave (hexec : (i2cMachine client).exec s as = some s') :
    (slaveMachine (client A)).exec (s.slave A) ((i2cMachine client).view (watch A) s as) = some (s'.slave A) := by
  refine Machine.exec_view (p := fun s => s.slave A) ?_ ?_ hexec
  · intro s a s' b hstep hb
    obtain ⟨d, hd, -, hslave, -⟩ := sys_step hstep
    unfold watch at hb
    split at hb
    · rename_i hA
      obtain rfl := Option.some.inj hb
      rw [hslave, ← hA, if_pos rfl]
      exact hd
    · exact absurd hb (by simp)
  · intro s a s' hstep hb
    obtain ⟨d, -, -, hslave, -⟩ := sys_step hstep
    unfold watch at hb
    split at hb
    · exact absurd hb (by simp)
    · rename_i hA
      rw [hslave, if_neg fun heq => hA heq.symm]

/-- The share of a controller is its own steps with what they find. -/
theorem view_own (hexec : (i2cMachine client).exec s as = some s') :
    List.Forall₂ (fun b a => ∃ f, b = SlaveAct.part f a) ((i2cMachine client).view (watch A) s as) (own A as) := by
  induction as generalizing s with
  | nil => exact .nil
  | cons a as ih =>
    obtain ⟨s₁, h1, h2⟩ := Option.bind_eq_some_iff.1 hexec
    have hrest := ih h2
    rw [Machine.view_cons h1]
    unfold own watch
    by_cases hA : a.ctrl = A
    · rw [if_pos hA, List.filter_cons_of_pos (by simpa using hA)]
      exact .cons ⟨s.state, rfl⟩ hrest
    · rw [if_neg hA, List.filter_cons_of_neg (by simpa using hA)]
      exact hrest

omit [DecidableEq ι] in
theorem part_alike (a : SlaveAct ι) (f f' : State) :
    a.part f = a.part f' ∨ ∃ g g', a.part f = .branch g ∧ a.part f' = .branch g' := by
  cases a with
  | enter i r => exact Or.inl rfl
  | branch i => exact Or.inr ⟨f, f', rfl, rfl⟩
  | leave i => exact Or.inl rfl

omit [DecidableEq ι] in
/-- Shares of the same steps differ in what the branches find. -/
theorem shares_alike {l l' : List SlaveStep} {acts : List (SlaveAct ι)}
    (h : List.Forall₂ (fun b a => ∃ f, b = SlaveAct.part f a) l acts)
    (h' : List.Forall₂ (fun b a => ∃ f, b = SlaveAct.part f a) l' acts) :
    List.Forall₂ (fun a a' => a = a' ∨ ∃ f f', a = .branch f ∧ a' = .branch f') l l' := by
  induction h generalizing l' with
  | nil => cases h'; exact .nil
  | cons hhead hrest ih =>
    cases h' with
    | cons hhead' hrest' =>
      refine .cons ?_ (ih hrest')
      obtain ⟨f, rfl⟩ := hhead
      obtain ⟨f', rfl⟩ := hhead'
      exact part_alike _ f f'

/-- Two runs in which `A` begins at the same place and sees the same. -/
theorem sameFor_iff {t t' : Sys ι γ} (hclient : client A = client' A) (hstart : s.slave A = t.slave A)
    (hexec : (i2cMachine client).exec s as = some s') (hexec' : (i2cMachine client').exec t as' = some t')
    (hown : own A as = own A as') : SameFor A s' t' ↔ found client A s as = found client' A t as' := by
  have hslave := exec_slave (A := A) hexec
  have hslave' := exec_slave (A := A) hexec'
  rw [hclient, hstart] at hslave
  have hshare := view_own (A := A) hexec
  rw [hown] at hshare
  exact exec_same_iff hslave hslave' (shares_alike hshare (view_own hexec'))

/-- **Independence**: in two runs in which `A` sees the same, it does the same exactly when its handler
finds states that are handled alike. Where the second run has no other controllers, this is a condition
on the first one (`same_as_alone_iff`). -/
theorem slaves_independent_iff {clients clients' : ι → γ} (hclient : client A = client' A)
    (hclients : clients A = clients' A) (hexec : (i2cMachine client).exec (.probed clients) as = some s)
    (hexec' : (i2cMachine client').exec (.probed clients') as' = some s') (hown : own A as = own A as') :
    SameFor A s s' ↔ found client A (.probed clients) as = found client' A (.probed clients') as' := by
  have hstart : (Sys.probed clients).slave A = (Sys.probed clients').slave A := by
    unfold Sys.probed
    simp only
    rw [hclients]
  exact sameFor_iff hclient hstart hexec hexec' hown

/-- A client that leaves the value as it is. -/
def quietClient : Bool → Client Unit := fun _ _ value _ => (value, ())

/-- Two controllers. -/
def twoProbed : Sys Bool Unit := .probed fun _ => ()

/-- A master addresses the controller to write, -/
def writeBegins : Regs := ⟨0x20000#32, 0#32, 1#32, 0#32, 0#32, 0#32⟩

/-- and sends a byte. -/
def byteComes : Regs := ⟨0#32, 0#32, 1#32, 0#32, 0#32, 0x55#32⟩

/-- A transfer to another address. -/
def missed : Regs := ⟨0x20000#32, 0#32, 0#32, 0#32, 0#32, 0#32⟩

def handled (i : Bool) (r : Regs) : List (SlaveAct Bool) := [.enter i r, .branch i, .leave i]

/-- One controller gets a byte, and the other is interrupted afterwards, -/
def interruptedAfter : List (SlaveAct Bool) :=
  handled false writeBegins ++ handled false byteComes ++ handled true missed

/-- or in between. -/
def interruptedBetween : List (SlaveAct Bool) :=
  handled false writeBegins ++ handled true missed ++ handled false byteComes

theorem slaves_independent_iff_two :
    ∃ s s', (i2cMachine quietClient).exec twoProbed (handled false writeBegins ++ handled false byteComes) = some s ∧
      (i2cMachine quietClient).exec twoProbed interruptedAfter = some s' ∧ SameFor false s s' := by
  have hrun : ((i2cMachine quietClient).exec twoProbed
      (handled false writeBegins ++ handled false byteComes)).isSome = true := by decide +kernel
  have hrun' : ((i2cMachine quietClient).exec twoProbed interruptedAfter).isSome = true := by decide +kernel
  obtain ⟨s, hexec⟩ := Option.isSome_iff_exists.1 hrun
  obtain ⟨s', hexec'⟩ := Option.isSome_iff_exists.1 hrun'
  exact ⟨s, s', hexec, hexec',
    (slaves_independent_iff rfl rfl hexec hexec' (by decide)).2 (by decide +kernel)⟩

/-- **The byte is lost** when the other controller is interrupted between the address and the byte: the
client is told of a second transfer. -/
theorem interrupted_between :
    ∃ s s', (i2cMachine quietClient).exec twoProbed interruptedAfter = some s ∧
      (i2cMachine quietClient).exec twoProbed interruptedBetween = some s' ∧
      own false interruptedAfter = own false interruptedBetween ∧
      (s.slave false).events = [(.writeRequested, 0x0#8), (.writeReceived, 0x55#8)] ∧
      (s'.slave false).events = [(.writeRequested, 0x0#8), (.writeRequested, 0x0#8)] ∧
      ¬ SameFor false s s' := by
  have hrun : ((i2cMachine quietClient).exec twoProbed interruptedAfter).map (fun s => (s.slave false).events) =
      some [(.writeRequested, 0x0#8), (.writeReceived, 0x55#8)] := by decide +kernel
  have hrun' : ((i2cMachine quietClient).exec twoProbed interruptedBetween).map
      (fun s => (s.slave false).events) = some [(.writeRequested, 0x0#8), (.writeRequested, 0x0#8)] := by
    decide +kernel
  obtain ⟨s, hexec, hevents⟩ := Option.map_eq_some_iff.1 hrun
  obtain ⟨s', hexec', hevents'⟩ := Option.map_eq_some_iff.1 hrun'
  refine ⟨s, s', hexec, hexec', by decide, hevents, hevents', ?_⟩
  rintro ⟨hsame, -⟩
  rw [hevents, hevents'] at hsame
  exact absurd hsame (by decide)

/-! ## A controller alone -/

/-- The handler of `A` finds what it stored last, or a state that is handled alike. -/
def Undisturbed (A : ι) (s : Sys ι γ) (a : SlaveAct ι) : Prop :=
  a = .branch A → s.state.merge = (s.stored A).merge

/-- `t` is a state of a run of `A` alone, which is where it is in `s`. -/
structure Alone (A : ι) (s t : Sys ι γ) : Prop where
  slave : t.slave A = s.slave A
  stored : t.stored A = s.stored A
  state : t.state = t.stored A

theorem found_cons {a : SlaveAct ι} (hstep : (i2cMachine client).step s a = some s') :
    found client A s (a :: as) = ((watch A s a).toList.map SlaveStep.merge) ++ found client A s' as := by
  unfold found
  rw [Machine.view_cons hstep, List.map_append]

/-- **A controller that finds what it stored** runs as if it were alone, and only then. -/
theorem slave_alone {t : Sys ι γ} (halone : Alone A s t) (hexec : (i2cMachine client).exec s as = some s')
    {t' : Sys ι γ} (hown : (i2cMachine client).exec t (own A as) = some t') :
    found client A s as = found client A t (own A as) ↔ (i2cMachine client).Along (Undisturbed A) s as := by
  induction as generalizing s t with
  | nil => exact ⟨fun _ => trivial, fun _ => rfl⟩
  | cons a as ih =>
    obtain ⟨s₁, h1, h2⟩ := Option.bind_eq_some_iff.1 hexec
    obtain ⟨d, hd, hstate, hslave, hstored⟩ := sys_step h1
    by_cases hA : a.ctrl = A
    · have hfilter : own A (a :: as) = a :: own A as := List.filter_cons_of_pos (by simpa using hA)
      rw [hfilter] at hown ⊢
      obtain ⟨t₁, ht1, ht2⟩ := Option.bind_eq_some_iff.1 hown
      obtain ⟨d', hd', hstate', hslave', hstored'⟩ := sys_step ht1
      have hlists : found client A s (a :: as) = found client A t (a :: own A as) ↔
          (a.part s.state).merge = (a.part t.state).merge ∧
            found client A s₁ as = found client A t₁ (own A as) := by
        rw [found_cons h1, found_cons ht1, watch, watch, if_pos hA, if_pos hA]
        exact List.cons_eq_cons
      have hheads : (a.part s.state).merge = (a.part t.state).merge ↔ Undisturbed A s a := by
        rw [halone.state, halone.stored]
        unfold Undisturbed
        cases a with
        | enter i r => exact ⟨fun _ h => absurd h (by simp), fun _ => rfl⟩
        | branch i =>
          obtain rfl : i = A := hA
          exact ⟨fun h _ => SlaveStep.branch.inj h, fun h => congrArg SlaveStep.branch (h rfl)⟩
        | leave i => exact ⟨fun _ h => absurd h (by simp), fun _ => rfl⟩
      subst hA
      -- the two runs go on side by side when the states are handled alike
      have hnext : (a.part s.state).merge = (a.part t.state).merge → Alone a.ctrl s₁ t₁ := by
        intro hsame
        have hdd : d = d' := by
          rw [← step_merge, hsame, step_merge, ← halone.slave] at hd
          exact Option.some.inj (hd.symm.trans hd')
        refine ⟨?_, ?_, ?_⟩
        · rw [hslave, hslave', if_pos rfl, if_pos rfl, hdd]
        · rw [hstored, hstored', if_pos rfl, if_pos rfl, halone.slave, halone.stored]
        · rw [hstate', hstored', if_pos rfl, halone.state]
      rw [hlists, hheads]
      constructor
      · rintro ⟨hg, hrest⟩
        refine ⟨hg, ?_⟩
        intro s₂ hs2
        obtain rfl := Option.some.inj (h1.symm.trans hs2)
        exact (ih (hnext (hheads.2 hg)) h2 ht2).1 hrest
      · rintro ⟨hg, hrest⟩
        exact ⟨hg, (ih (hnext (hheads.2 hg)) h2 ht2).2 (hrest s₁ h1)⟩
    · -- another controller's step leaves `A` where it is
      have hfilter : own A (a :: as) = own A as := List.filter_cons_of_neg (by simpa using hA)
      have hstay : Alone A s₁ t := by
        refine ⟨?_, ?_, halone.state⟩
        · rw [hslave, if_neg (Ne.symm hA), halone.slave]
        · rw [hstored, if_neg (Ne.symm hA), halone.stored]
      have hlist : found client A s (a :: as) = found client A s₁ as := by
        rw [found_cons h1, watch, if_neg hA]
        rfl
      have hother : Undisturbed A s a := by
        rintro rfl
        exact absurd rfl hA
      rw [hfilter] at hown ⊢
      rw [hlist, ih hstay h2 hown]
      constructor
      · intro hrest
        refine ⟨hother, ?_⟩
        intro s₂ hs2
        obtain rfl := Option.some.inj (h1.symm.trans hs2)
        exact hrest
      · rintro ⟨-, hrest⟩
        exact hrest s₁ h1

/-- How far a handler is. -/
def Pc.phase : Pc → ℕ
  | .out => 0
  | .entered _ => 1
  | .leaving _ _ => 2

theorem dispatch_phase {client : Client γ} {d : Slave γ} (r : Regs) (f : State) :
    (d.dispatch client r f).pc.phase = 2 := by
  cases f with
  | idle =>
    unfold Slave.dispatch
    simp only
    split
    · split <;> rfl
    · rfl
  | writeAddr => rfl
  | readData0 => rfl
  | writeData0 => rfl

omit [DecidableEq ι] in
/-- A step is possible whatever was found before. -/
theorem step_phase {client : Client γ} {d e d' : Slave γ} (a : SlaveAct ι) (f f' : State)
    (hstep : d.step client (a.part f) = some e) (hphase : d'.pc.phase = d.pc.phase) :
    ∃ e', d'.step client (a.part f') = some e' ∧ e'.pc.phase = e.pc.phase := by
  unfold SlaveAct.part Slave.step at hstep ⊢
  cases a with
  | enter i r =>
    simp only at hstep ⊢
    split at hstep
    · rename_i hpc
      obtain rfl := Option.some.inj hstep
      rw [hpc] at hphase
      split
      · exact ⟨_, rfl, rfl⟩
      · rename_i hne
        cases hpc' : d'.pc with
        | out => exact absurd hpc' hne
        | entered r' => rw [hpc'] at hphase; exact absurd hphase (by simp [Pc.phase])
        | leaving next clear => rw [hpc'] at hphase; exact absurd hphase (by simp [Pc.phase])
    · exact absurd hstep (by simp)
  | branch i =>
    simp only at hstep ⊢
    split at hstep
    · rename_i r hpc
      obtain rfl := Option.some.inj hstep
      rw [hpc] at hphase
      split
      · rename_i r' hpc'
        refine ⟨_, rfl, ?_⟩
        rw [dispatch_phase, dispatch_phase]
      · rename_i hne
        cases hpc' : d'.pc with
        | out => rw [hpc'] at hphase; exact absurd hphase (by simp [Pc.phase])
        | entered r' => exact absurd hpc' (hne r')
        | leaving next clear => rw [hpc'] at hphase; exact absurd hphase (by simp [Pc.phase])
    · exact absurd hstep (by simp)
  | leave i =>
    simp only at hstep ⊢
    split at hstep
    · rename_i next clear hpc
      obtain rfl := Option.some.inj hstep
      rw [hpc] at hphase
      split
      · exact ⟨_, rfl, rfl⟩
      · rename_i hne
        cases hpc' : d'.pc with
        | out => rw [hpc'] at hphase; exact absurd hphase (by simp [Pc.phase])
        | entered r' => rw [hpc'] at hphase; exact absurd hphase (by simp [Pc.phase])
        | leaving next' clear' => exact absurd hpc' (hne next' clear')
    · exact absurd hstep (by simp)

/-- The run of `A` alone. -/
theorem exec_own {t : Sys ι γ} (hphase : (t.slave A).pc.phase = (s.slave A).pc.phase)
    (hexec : (i2cMachine client).exec s as = some s') : ∃ t', (i2cMachine client).exec t (own A as) = some t' := by
  induction as generalizing s t with
  | nil => exact ⟨t, rfl⟩
  | cons a as ih =>
    obtain ⟨s₁, h1, h2⟩ := Option.bind_eq_some_iff.1 hexec
    obtain ⟨d, hd, -, hslave, -⟩ := sys_step h1
    by_cases hA : a.ctrl = A
    · subst hA
      obtain ⟨e, he, hpe⟩ := step_phase a s.state t.state hd hphase
      have hstep : ∃ t₁, (i2cMachine client).step t a = some t₁ ∧ t₁.slave a.ctrl = e := by
        refine ⟨_, Option.map_eq_some_iff.2 ⟨e, he, rfl⟩, ?_⟩
        exact if_pos rfl
      obtain ⟨t₁, ht1, hte⟩ := hstep
      obtain ⟨t', ht'⟩ := ih (t := t₁) (by rw [hte, hslave, if_pos rfl, hpe]) h2
      refine ⟨t', ?_⟩
      rw [own, List.filter_cons_of_pos (by simp)]
      exact Option.bind_eq_some_iff.2 ⟨t₁, ht1, ht'⟩
    · rw [own, List.filter_cons_of_neg (by simpa using hA)]
      apply ih _ h2
      rw [hslave, if_neg (Ne.symm hA), hphase]

theorem own_own (A : ι) (as : List (SlaveAct ι)) : own A (own A as) = own A as := by
  unfold own
  rw [List.filter_filter]
  simp

/-- **A controller with others** does what it does alone exactly when its handler finds what it stored
itself, or a state that is handled alike. -/
theorem same_as_alone_iff {clients : ι → γ} (hexec : (i2cMachine client).exec (.probed clients) as = some s) :
    ∃ t, (i2cMachine client).exec (.probed clients) (own A as) = some t ∧
      (SameFor A s t ↔ (i2cMachine client).Along (Undisturbed A) (.probed clients) as) := by
  obtain ⟨t, ht⟩ := exec_own (A := A) rfl hexec
  refine ⟨t, ht, ?_⟩
  rw [sameFor_iff rfl rfl hexec ht (own_own A as).symm]
  exact slave_alone ⟨rfl, rfl, rfl⟩ hexec ht

end Br2Efinix.I2c
