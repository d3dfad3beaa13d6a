import Br2Efinix.I2c.MasterXfer
import Br2Efinix.I2c.Slave
import Br2Efinix.Lib.History

/-!
# What the client of an I2C slave is told

One controller, whose handler runs whole while it holds `i2c_dev->lock`, with `efx_i2c_reg_slave` and
`efx_i2c_unreg_slave` between its interrupts. What goes on is noted: what an interrupt means on the bus, with the
events it sends, and the registrations.

* `interrupt_notes`, `portRun_bus`: in every run an interrupt sends the events due in the transfer on the bus,
  whoever is registered.
* `slave_protocol_iff`: the runs in which the client is told of the transfers as `Talk` asks.
-/

namespace Br2Efinix.I2c

variable {γ : Type*}

def EFX_I2C_FILTERING_CONFIG0 : ℕ := 0x88
def EFX_I2C_FILTERING_CONFIG0_ENABLE : BitVec 32 := 0x8000#32
def EFX_I2C_IRQ_FILTER_ENABLE : BitVec 32 := 0x20000#32
def I2C_CLIENT_TEN : BitVec 16 := 0x10#16
def EAFNOSUPPORT : ℤ := 97

/-- What the driver uses of `struct i2c_client`. -/
structure I2cClient (γ : Type*) where
  addr : BitVec 16
  flags : BitVec 16
  slaveCb : Client γ

/-! ## What is noted -/

/-- What the master does. -/
inductive Direction
  | write
  | read
  deriving DecidableEq, Repr

/-- What an interrupt means on the bus: the address of the controller, another one, or a byte. -/
inductive Seen
  | hit (d : Direction)
  | miss
  | byte (b : BitVec 8)
  deriving DecidableEq, Repr

/-- `enum i2c_slave_event`. -/
inductive ClientEvent
  | requested (d : Direction)
  | received (b : BitVec 8)
  | processed
  | stop
  deriving DecidableEq, Repr

/-- The value counts where it is a byte received; the others are for the client to set. -/
def ClientEvent.of : SlaveEvent × BitVec 8 → ClientEvent
  | (.readRequested, _) => .requested .read
  | (.writeRequested, _) => .requested .write
  | (.readProcessed, _) => .processed
  | (.writeReceived, b) => .received b

inductive Note
  | registered
  | unregistered
  | interrupt (x : Seen) (events : List ClientEvent)
  deriving DecidableEq, Repr

/-- With `bus` the transfer that the controller is in: the filter interrupts with an address, and without a transfer
there is nothing else to come. -/
def Regs.seen (bus : Option Direction) (r : Regs) : Seen :=
  match if r.begins = true then none else bus with
  | none =>
    if r.hitContext = 0x1#32 then .hit (if r.filteringStatus = 0x0#32 then .write else .read) else .miss
  | some _ => .byte (r.rxData.setWidth 8)

/-- The transfer after it. -/
def Seen.bus (bus : Option Direction) : Seen → Option Direction
  | .hit d => some d
  | .miss => none
  | .byte _ => bus

/-! ## The controller -/

/-- A controller and the driver. Only observed are `bus` and `notes`. -/
structure Port (γ : Type*) where
  state : State
  slave : Option (I2cClient γ)
  dev : Slave γ
  bus : Option Direction
  notes : List Note

namespace Port

/-- `efx_i2c_interrupt_slave`; what `i2c_slave_event` calls through a null pointer is `null`. -/
def interrupt (null : Client γ) (p : Port γ) (r : Regs) : Port γ :=
  let client := (p.slave.map I2cClient.slaveCb).getD null
  let state := if r.begins = true then State.idle else p.state
  let entered := if r.begins = true then p.dev.disableInterrupt r.irqBegin EFX_I2C_IRQ_TX_DATA_ENABLE else p.dev
  let dev := entered.dispatch client r state
  match dev.pc with
  | .leaving next clear =>
    { p with
      state := next
      dev := { (if clear then dev.clearIrqFlag EFX_I2C_IRQ_CLR_FILTER else dev) with pc := .out }
      bus := (r.seen p.bus).bus p.bus
      notes := p.notes ++
        [.interrupt (r.seen p.bus) ((dev.events.drop p.dev.events.length).map ClientEvent.of)] }
  | _ => p

/-- `efx_i2c_reg_slave`, which reads `irq`. -/
def regSlave (p : Port γ) (client : I2cClient γ) (irq : BitVec 32) : ℤ × Port γ :=
  if p.slave.isSome = true then (-EBUSY, p)
  else if client.flags &&& I2C_CLIENT_TEN ≠ 0#16 then (-EAFNOSUPPORT, p)
  else
    let dev := p.dev.writel (client.addr.setWidth 32 ||| EFX_I2C_FILTERING_CONFIG0_ENABLE) EFX_I2C_FILTERING_CONFIG0
    (0, { p with
      slave := some client, dev := dev.enableInterrupt irq EFX_I2C_IRQ_FILTER_ENABLE
      notes := p.notes ++ [.registered] })

/-- `efx_i2c_unreg_slave`, which only warns where there is no client. -/
def unregSlave (p : Port γ) : ℤ × Port γ := (0, { p with slave := none, notes := p.notes ++ [.unregistered] })

/-- After the probe. -/
def probed (world : γ) : Port γ :=
  { state := .idle, slave := none, dev := { pc := .out, client := world, events := [], writes := [] }
    bus := none, notes := [] }

end Port

inductive PortAct (γ : Type*)
  | interrupt (r : Regs)
  | regSlave (client : I2cClient γ) (irq : BitVec 32)
  | unregSlave

def Port.step (null : Client γ) (p : Port γ) : PortAct γ → Port γ
  | .interrupt r => p.interrupt null r
  | .regSlave client irq => (p.regSlave client irq).2
  | .unregSlave => p.unregSlave.2

def portRun (null : Client γ) (world : γ) (as : List (PortAct γ)) : Port γ :=
  as.foldl (Port.step null) (.probed world)

/-! ## The property -/

/-- The event for a byte of a transfer. -/
def Direction.further (b : BitVec 8) : Direction → ClientEvent
  | .write => .received b
  | .read => .processed

/-- What the client knows: there is none, it is in no transfer, or it was told of one. -/
inductive Talk
  | nobody
  | quiet
  | told (d : Direction)
  deriving DecidableEq, Repr

/-- What it may be told by an interrupt. A transfer that it was told of ends with a stop, at the latest before it is
told of the next. Bytes of a transfer that it was not told of are not for it. -/
def Talk.hears : Talk → Seen → List ClientEvent → Option Talk
  | .nobody, _, [] => some .nobody
  | .quiet, .hit d, [e] => if e = .requested d then some (.told d) else none
  | .quiet, .miss, [] => some .quiet
  | .quiet, .byte _, [] => some .quiet
  | .told _, .hit d, [.stop, e] => if e = .requested d then some (.told d) else none
  | .told d, .miss, [] => some (.told d)
  | .told _, .miss, [.stop] => some .quiet
  | .told d, .byte b, [e] => if e = d.further b then some (.told d) else none
  | _, _, _ => none

def Talk.next : Talk → Note → Option Talk
  | _, .registered => some .quiet
  | _, .unregistered => some .nobody
  | t, .interrupt x events => t.hears x events

def talk (notes : List Note) : Option Talk := notes.foldlM Talk.next .nobody

/-- The clients were told as they may be. -/
def Orderly (notes : List Note) : Prop := (talk notes).isSome = true

instance (notes : List Note) : Decidable (Orderly notes) := inferInstanceAs (Decidable (_ = true))

/-! ## The condition -/

def Note.addresses : Note → Option Bool
  | .registered => some false
  | .interrupt (.hit _) _ => some true
  | _ => none

/-- The controller was addressed after the last registration. -/
def addressed (notes : List Note) : Bool := lastOf Note.addresses false notes

/-- An address comes while a client is registered that was not addressed before, and a byte while one is registered
that was. -/
def Seen.Fits (p : Port γ) : Seen → Prop
  | .hit _ => p.slave.isSome = true ∧ addressed p.notes = false
  | .miss => True
  | .byte _ => p.slave.isSome = true ∧ addressed p.notes = true

/-- The interrupts fit; registrations may come at any time. -/
def Fits (p : Port γ) : PortAct γ → Prop
  | .interrupt r => (r.seen p.bus).Fits p
  | _ => True

/-! ## The events of an interrupt -/

/-- The transfer that `state` stands for. -/
def State.bus : State → Option Direction
  | .idle => none
  | .writeAddr => some .write
  | .readData0 => some .read
  | .writeData0 => some .write

/-- What is sent for an interrupt in a transfer. -/
def Seen.due (bus : Option Direction) : Seen → List ClientEvent
  | .hit d => [.requested d]
  | .miss => []
  | .byte b => bus.toList.map (Direction.further b)

/-- What the switch does: the events, and the next state. -/
structure Dispatched (client : Client γ) (d : Slave γ) (r : Regs) (f : State) (x : Seen) : Prop where
  events : ∃ es, (d.dispatch client r f).events = d.events ++ es ∧ es.map ClientEvent.of = x.due f.bus
  next : ∃ next clear, (d.dispatch client r f).pc = .leaving next clear ∧ next.bus = x.bus f.bus

theorem byte_value (v : BitVec 32) : (v &&& 0xff#32).setWidth 8 = v.setWidth 8 := by
  rw [BitVec.setWidth_and]
  exact BitVec.and_allOnes

theorem received_dispatched (client : Client γ) (d : Slave γ) (r : Regs) {f : State} (hf : f.bus = some .write)
    (heq : d.dispatch client r f = d.received client r) :
    Dispatched client d r f (.byte (r.rxData.setWidth 8)) := by
  constructor
  · refine ⟨[(.writeReceived, (r.rxData &&& 0xff#32).setWidth 8)], ?_, ?_⟩
    · rw [heq]
      rfl
    · rw [byte_value, hf]
      rfl
  · refine ⟨.writeData0, false, ?_, hf.symm⟩
    rw [heq]
    rfl

/-- **The switch** sends what is due. -/
theorem dispatched (client : Client γ) (d : Slave γ) (r : Regs) (f : State) (hbegins : r.begins = true → f = .idle) :
    Dispatched client d r f (r.seen f.bus) := by
  have hbus : (if r.begins = true then none else f.bus) = f.bus := by
    split
    · rename_i hb
      rw [hbegins hb]
      rfl
    · rfl
  unfold Regs.seen
  rw [hbus]
  cases f with
  | idle =>
    -- without a transfer an address is looked for, with the filter's flag or without
    show Dispatched client d r .idle (if _ then _ else _)
    split
    · rename_i hhit
      split
      · rename_i hwrite
        constructor
        · refine ⟨[(.writeRequested, 0x0#8)], ?_, rfl⟩
          unfold Slave.dispatch
          simp only [if_pos hhit, if_pos hwrite]
          rfl
        · refine ⟨.writeAddr, true, ?_, rfl⟩
          unfold Slave.dispatch
          simp only [if_pos hhit, if_pos hwrite]
      · rename_i hread
        constructor
        · refine ⟨[(.readRequested, 0x0#8)], ?_, rfl⟩
          unfold Slave.dispatch
          simp only [if_pos hhit, if_neg hread]
          rfl
        · refine ⟨.readData0, true, ?_, rfl⟩
          unfold Slave.dispatch
          simp only [if_pos hhit, if_neg hread]
    · rename_i hmiss
      constructor
      · refine ⟨[], ?_, rfl⟩
        unfold Slave.dispatch
        simp only [if_neg hmiss]
        exact (List.append_nil _).symm
      · refine ⟨.idle, true, ?_, rfl⟩
        unfold Slave.dispatch
        simp only [if_neg hmiss]
  | writeAddr => exact received_dispatched client d r rfl rfl
  | writeData0 => exact received_dispatched client d r rfl rfl
  | readData0 =>
    constructor
    · exact ⟨[(.readProcessed, 0x0#8)], rfl, rfl⟩
    · exact ⟨.readData0, false, rfl, rfl⟩

/-- An address is due whatever transfer went on. -/
theorem seen_begins (bus : Option Direction) {r : Regs} (hbegins : r.begins = true) :
    r.seen none = r.seen bus ∧ (r.seen none).due none = (r.seen bus).due bus ∧
      (r.seen none).bus none = (r.seen bus).bus bus := by
  have hsame : r.seen none = r.seen bus := by
    unfold Regs.seen
    rw [if_pos hbegins, if_pos hbegins]
  have haddress : r.seen none =
      if r.hitContext = 0x1#32 then .hit (if r.filteringStatus = 0x0#32 then .write else .read) else .miss := by
    unfold Regs.seen
    rw [if_pos hbegins]
  rw [← hsame, haddress]
  split
  · exact ⟨rfl, rfl, rfl⟩
  · exact ⟨rfl, rfl, rfl⟩

variable {null : Client γ} {world : γ} {p : Port γ}

/-- **The events of an interrupt** are those due in the transfer on the bus, whoever is registered. -/
theorem interrupt_notes (null : Client γ) (hbus : p.state.bus = p.bus) (r : Regs) :
    (p.interrupt null r).notes = p.notes ++ [.interrupt (r.seen p.bus) ((r.seen p.bus).due p.bus)] ∧
      (p.interrupt null r).bus = (r.seen p.bus).bus p.bus ∧
        (p.interrupt null r).state.bus = (p.interrupt null r).bus ∧ (p.interrupt null r).slave = p.slave := by
  have hentered : (if r.begins = true then p.dev.disableInterrupt r.irqBegin EFX_I2C_IRQ_TX_DATA_ENABLE
      else p.dev).events = p.dev.events := by
    split <;> rfl
  -- the filter's flag ends the transfer before the switch
  have hfound : ∃ f : State, (if r.begins = true then State.idle else p.state) = f ∧ (r.begins = true → f = .idle) ∧
      r.seen f.bus = r.seen p.bus ∧ (r.seen f.bus).due f.bus = (r.seen p.bus).due p.bus ∧
        (r.seen f.bus).bus f.bus = (r.seen p.bus).bus p.bus := by
    by_cases hbegins : r.begins = true
    · exact ⟨.idle, if_pos hbegins, fun _ => rfl, seen_begins p.bus hbegins⟩
    · refine ⟨p.state, if_neg hbegins, fun h => absurd h hbegins, ?_⟩
      rw [hbus]
      exact ⟨rfl, rfl, rfl⟩
  obtain ⟨f, hstate, hidle, hseen, hdue, hafter⟩ := hfound
  unfold Port.interrupt
  rw [hstate]
  obtain ⟨⟨es, hevents, hes⟩, next, clear, hpc, hnext⟩ :=
    dispatched ((p.slave.map I2cClient.slaveCb).getD null)
      (if r.begins = true then p.dev.disableInterrupt r.irqBegin EFX_I2C_IRQ_TX_DATA_ENABLE else p.dev) r f hidle
  simp only [hpc]
  refine ⟨?_, trivial, ?_, trivial⟩
  · rw [hevents, hentered, List.drop_left, hes, hdue]
  · rw [hnext, hafter]

/-- A registration is refused, or changes the client. -/
theorem regSlave_cases (p : Port γ) (client : I2cClient γ) (irq : BitVec 32) :
    (p.regSlave client irq).2 = p ∨
      ∃ dev, (p.regSlave client irq).2 =
        { p with slave := some client, dev := dev, notes := p.notes ++ [.registered] } := by
  unfold Port.regSlave
  split
  · exact Or.inl rfl
  · split
    · exact Or.inl rfl
    · exact Or.inr ⟨_, rfl⟩

/-! ## Step by step -/

theorem talk_concat (notes : List Note) (o : Note) : talk (notes ++ [o]) = (talk notes).bind fun t => t.next o := by
  unfold talk
  rw [List.foldlM_append]
  cases notes.foldlM Talk.next .nobody with
  | none => rfl
  | some t =>
    show [o].foldlM Talk.next t = t.next o
    rw [List.foldlM_cons]
    cases t.next o <;> rfl

theorem addressed_concat (notes : List Note) (o : Note) :
    addressed (notes ++ [o]) = o.addresses.getD (addressed notes) := lastOf_concat _ _ _ _

/-- While the clients are told as they may be, the driver knows what they know. -/
structure Joint (p : Port γ) (t : Talk) : Prop where
  bus : p.state.bus = p.bus
  nobody : t = .nobody → p.slave = none
  quiet : t = .quiet → p.slave.isSome = true ∧ addressed p.notes = false
  told : ∀ d, t = .told d → p.slave.isSome = true ∧ addressed p.notes = true ∧ (p.bus = none ∨ p.bus = some d)

theorem probed_joint (world : γ) : Joint (Port.probed world) .nobody := by
  refine ⟨rfl, fun _ => rfl, ?_, ?_⟩
  · intro h
    cases h
  · intro d h
    cases h

theorem seen_byte {bus : Option Direction} {r : Regs} {b : BitVec 8} (hseen : r.seen bus = .byte b) :
    ∃ d, bus = some d := by
  cases bus with
  | some d => exact ⟨d, rfl⟩
  | none =>
    unfold Regs.seen at hseen
    rw [ite_self] at hseen
    simp only at hseen
    split at hseen <;> cases hseen

/-- An interrupt's note is as it may be exactly where the interrupt fits, -/
theorem hears_iff {t : Talk} (h : Joint p t) (r : Regs) :
    (t.hears (r.seen p.bus) ((r.seen p.bus).due p.bus)).isSome = true ↔ Fits p (.interrupt r) := by
  show _ ↔ (r.seen p.bus).Fits p
  cases hseen : r.seen p.bus with
  | hit d =>
    cases t with
    | nobody =>
      -- the event is sent all the same
      have hslave := h.nobody rfl
      refine ⟨fun hsome => absurd hsome Bool.false_ne_true, ?_⟩
      rintro ⟨hsome, -⟩
      rw [hslave] at hsome
      cases hsome
    | quiet => exact ⟨fun _ => h.quiet rfl, fun _ => by simp [Seen.due, Talk.hears]⟩
    | told d' =>
      -- a stop is due before the next transfer
      have haddressed := (h.told d' rfl).2.1
      refine ⟨fun hsome => absurd hsome Bool.false_ne_true, ?_⟩
      rintro ⟨-, hnot⟩
      rw [haddressed] at hnot
      cases hnot
  | miss =>
    cases t with
    | nobody => exact ⟨fun _ => trivial, fun _ => rfl⟩
    | quiet => exact ⟨fun _ => trivial, fun _ => rfl⟩
    | told d' => exact ⟨fun _ => trivial, fun _ => rfl⟩
  | byte b =>
    obtain ⟨d, hbus⟩ := seen_byte hseen
    rw [hbus]
    cases t with
    | nobody =>
      have hslave := h.nobody rfl
      refine ⟨fun hsome => absurd hsome Bool.false_ne_true, ?_⟩
      rintro ⟨hsome, -⟩
      rw [hslave] at hsome
      cases hsome
    | quiet =>
      -- the transfer began before the client was registered
      have hnot := (h.quiet rfl).2
      refine ⟨fun hsome => absurd hsome Bool.false_ne_true, ?_⟩
      rintro ⟨-, haddressed⟩
      rw [hnot] at haddressed
      cases haddressed
    | told d' =>
      obtain ⟨hslave, haddressed, hnone | hsame⟩ := h.told d' rfl
      · rw [hbus] at hnone
        cases hnone
      · rw [hbus] at hsame
        cases hsame
        exact ⟨fun _ => ⟨hslave, haddressed⟩, fun _ => by simp [Seen.due, Talk.hears]⟩

/-- and then the driver knows what the client knows after it. -/
theorem hears_joint {t t' : Talk} (h : Joint p t) {r : Regs}
    (hhears : t.hears (r.seen p.bus) ((r.seen p.bus).due p.bus) = some t') : Joint (p.interrupt null r) t' := by
  obtain ⟨hnotes, hbus, hstate, hslave⟩ := interrupt_notes null h.bus r
  have haddressed := addressed_concat p.notes (.interrupt (r.seen p.bus) ((r.seen p.bus).due p.bus))
  rw [← hnotes] at haddressed
  have hfits := (hears_iff h r).1 (by rw [hhears]; rfl)
  cases hseen : r.seen p.bus with
  | hit d =>
    rw [hseen] at hbus haddressed hhears
    have hregistered : Seen.Fits p (.hit d) := hseen ▸ hfits
    have ht' : t' = .told d := by
      cases t with
      | nobody => cases hhears
      | quiet => simpa [Seen.due, Talk.hears, eq_comm] using hhears
      | told d' => cases hhears
    subst ht'
    refine ⟨hstate, nofun, nofun, ?_⟩
    intro d'' heq
    cases heq
    exact ⟨hslave ▸ hregistered.1, haddressed, Or.inr hbus⟩
  | miss =>
    -- the client still waits for a stop
    rw [hseen] at hbus haddressed hhears
    have ht' : t' = t := by
      cases t with
      | nobody => simpa [Seen.due, Talk.hears, eq_comm] using hhears
      | quiet => simpa [Seen.due, Talk.hears, eq_comm] using hhears
      | told d' => simpa [Seen.due, Talk.hears, eq_comm] using hhears
    subst ht'
    refine ⟨hstate, fun hno => hslave ▸ h.nobody hno, ?_, ?_⟩
    · intro hquiet
      exact ⟨hslave ▸ (h.quiet hquiet).1, haddressed.trans (h.quiet hquiet).2⟩
    · intro d htold
      exact ⟨hslave ▸ (h.told d htold).1, haddressed.trans (h.told d htold).2.1, Or.inl hbus⟩
  | byte b =>
    obtain ⟨d, hd⟩ := seen_byte hseen
    rw [hseen, hd] at hhears
    rw [hseen] at hbus haddressed
    have ht' : t' = t := by
      cases t with
      | nobody => cases hhears
      | quiet => cases hhears
      | told d' =>
        -- a transfer on the bus is the one it was told of
        obtain ⟨-, -, hnone | hsame⟩ := h.told d' rfl
        · rw [hd] at hnone
          cases hnone
        · rw [hd] at hsame
          cases hsame
          simpa [Seen.due, Talk.hears, eq_comm] using hhears
    subst ht'
    refine ⟨hstate, fun hno => hslave ▸ h.nobody hno, ?_, ?_⟩
    · intro hquiet
      exact ⟨hslave ▸ (h.quiet hquiet).1, haddressed.trans (h.quiet hquiet).2⟩
    · intro d'' htold
      exact ⟨hslave ▸ (h.told d'' htold).1, haddressed.trans (h.told d'' htold).2.1,
        hbus.symm ▸ (h.told d'' htold).2.2⟩

/-- **One action**: the clients are told as they may be exactly if it fits, -/
theorem step_orderly {t : Talk} (h : Joint p t) (htalk : talk p.notes = some t) (a : PortAct γ) :
    Orderly (p.step null a).notes ↔ Fits p a := by
  unfold Orderly
  cases a with
  | interrupt r =>
    have hnotes := (interrupt_notes null h.bus r).1
    show (talk (p.interrupt null r).notes).isSome = true ↔ _
    rw [hnotes, talk_concat, htalk]
    exact hears_iff h r
  | regSlave client irq =>
    refine ⟨fun _ => trivial, fun _ => ?_⟩
    show (talk (p.regSlave client irq).2.notes).isSome = true
    rcases regSlave_cases p client irq with heq | ⟨dev, heq⟩
    · rw [heq, htalk]
      rfl
    · rw [heq, talk_concat, htalk]
      rfl
  | unregSlave =>
    refine ⟨fun _ => trivial, fun _ => ?_⟩
    show (talk (p.notes ++ [.unregistered])).isSome = true
    rw [talk_concat, htalk]
    rfl

/-- and what they know and the driver knows still agrees. -/
theorem step_joint {t : Talk} (h : Joint p t) (htalk : talk p.notes = some t) (a : PortAct γ)
    (horderly : Orderly (p.step null a).notes) :
    ∃ t', talk (p.step null a).notes = some t' ∧ Joint (p.step null a) t' := by
  cases a with
  | interrupt r =>
    have hnotes := (interrupt_notes null h.bus r).1
    have hbind : talk (p.interrupt null r).notes = t.hears (r.seen p.bus) ((r.seen p.bus).due p.bus) := by
      rw [hnotes, talk_concat, htalk]
      rfl
    obtain ⟨t', ht'⟩ := Option.isSome_iff_exists.1 horderly
    exact ⟨t', ht', hears_joint h (hbind.symm.trans ht')⟩
  | regSlave client irq =>
    show ∃ t', talk (p.regSlave client irq).2.notes = some t' ∧ Joint (p.regSlave client irq).2 t'
    rcases regSlave_cases p client irq with heq | ⟨dev, heq⟩
    · rw [heq]
      exact ⟨t, htalk, h⟩
    · rw [heq]
      refine ⟨.quiet, ?_, h.bus, nofun, ?_, nofun⟩
      · rw [talk_concat, htalk]
        rfl
      · intro _
        exact ⟨rfl, addressed_concat _ _⟩
  | unregSlave =>
    refine ⟨.nobody, ?_, h.bus, fun _ => rfl, nofun, nofun⟩
    show talk (p.notes ++ [.unregistered]) = some .nobody
    rw [talk_concat, htalk]
    rfl

/-! ## Whole runs -/

theorem portRun_concat (as : List (PortAct γ)) (a : PortAct γ) :
    portRun null world (as ++ [a]) = (portRun null world as).step null a := foldl_concat _ _ _ _

/-- **In every run** the variable `state` stands for the transfer on the bus, so that every interrupt sends what is
due in it. -/
theorem portRun_bus (null : Client γ) (world : γ) (as : List (PortAct γ)) :
    (portRun null world as).state.bus = (portRun null world as).bus := by
  induction as using List.reverseRecOn with
  | nil => rfl
  | append_singleton as a ih =>
    rw [portRun_concat]
    cases a with
    | interrupt r => exact (interrupt_notes null ih r).2.2.1
    | regSlave client irq =>
      show ((portRun null world as).regSlave client irq).2.state.bus = ((portRun null world as).regSlave client irq).2.bus
      rcases regSlave_cases (portRun null world as) client irq with heq | ⟨dev, heq⟩
      · rw [heq]
        exact ih
      · rw [heq]
        exact ih
    | unregSlave => exact ih

/-- In a run in which the clients were told as they may be, the driver knows what they know. -/
theorem portRun_joint {as : List (PortAct γ)}
    (halways : Always (fun before => Orderly (portRun null world before).notes) as) :
    ∃ t, talk (portRun null world as).notes = some t ∧ Joint (portRun null world as) t := by
  induction as using List.reverseRecOn with
  | nil => exact ⟨.nobody, rfl, probed_joint world⟩
  | append_singleton as a ih =>
    obtain ⟨hbefore, hlast⟩ := always_concat.1 halways
    obtain ⟨t, htalk, hjoint⟩ := ih hbefore
    rw [portRun_concat] at hlast ⊢
    exact step_joint hjoint htalk a hlast

/-- **The slave protocol**, for every sequence of interrupts and registrations, whatever the clients do. -/
theorem slave_protocol_iff (null : Client γ) (world : γ) (as : List (PortAct γ)) :
    Always (fun before => Orderly (portRun null world before).notes) as ↔
      Along (fun before => Fits (portRun null world before)) as := by
  have hagree : Always (fun before => Orderly (portRun null world before).notes) as ↔
      Always (fun before => ∃ t, talk (portRun null world before).notes = some t ∧ Joint (portRun null world before) t)
        as := by
    constructor
    · intro horderly before after heq
      apply portRun_joint
      intro first rest hsplit
      exact horderly first (rest ++ after) (by rw [heq, hsplit, List.append_assoc])
    · intro hjoint before after heq
      obtain ⟨t, htalk, -⟩ := hjoint before after heq
      show (talk _).isSome = true
      rw [htalk]
      rfl
  rw [hagree]
  refine always_iff_along ⟨.nobody, rfl, probed_joint world⟩ ?_ (along_of_forall fun _ _ => trivial)
  rintro before a - ⟨t, htalk, hjoint⟩
  rw [portRun_concat]
  constructor
  · rintro ⟨t', htalk', -⟩
    apply (step_orderly hjoint htalk a).1
    show (talk _).isSome = true
    rw [htalk']
    rfl
  · intro hfits
    exact step_joint hjoint htalk a ((step_orderly hjoint htalk a).2 hfits)

/-- The master addresses the controller to write. -/
def addressWrite : Regs :=
  { irqClr := EFX_I2C_IRQ_CLR_FILTER, irqBegin := 0x20000#32, hitContext := 0x1#32, filteringStatus := 0x0#32
    irq := 0x20000#32, rxData := 0x0#32 }

/-- It writes a byte. -/
def masterByte (rxData : BitVec 32) : Regs :=
  { irqClr := 0x0#32, irqBegin := 0x0#32, hitContext := 0x1#32, filteringStatus := 0x0#32, irq := 0x20004#32
    rxData := rxData }

/-- A client at address `0x50` that takes what it gets. -/
def sink : I2cClient Unit := ⟨0x50#16, 0x0#16, fun _ value _ => (value, ())⟩

/-- Two writes, of one byte and of none. -/
def twoWrites : List (PortAct Unit) :=
  [.regSlave sink 0x0#32, .interrupt addressWrite, .interrupt (masterByte 0x110#32), .interrupt addressWrite]

/-- The client leaves while the master writes. -/
def leaves : List (PortAct Unit) :=
  [.regSlave sink 0x0#32, .interrupt addressWrite, .unregSlave, .interrupt (masterByte 0x110#32)]

/-- The second write is requested without a stop of the first, and a byte is delivered to nobody. -/
theorem requested_without_stop :
    (portRun sink.slaveCb () twoWrites).notes =
        [.registered, .interrupt (.hit .write) [.requested .write], .interrupt (.byte 0x10#8) [.received 0x10#8],
          .interrupt (.hit .write) [.requested .write]] ∧
      (portRun sink.slaveCb () leaves).notes =
        [.registered, .interrupt (.hit .write) [.requested .write], .unregistered,
          .interrupt (.byte 0x10#8) [.received 0x10#8]] ∧
      ¬ Always (fun before => Orderly (portRun sink.slaveCb () before).notes) twoWrites ∧
        ¬ Always (fun before => Orderly (portRun sink.slaveCb () before).notes) leaves := by
  have hwrites : ¬ Orderly (portRun sink.slaveCb () twoWrites).notes := by decide
  have hleaves : ¬ Orderly (portRun sink.slaveCb () leaves).notes := by decide
  exact ⟨by decide, by decide, fun h => hwrites h.self, fun h => hleaves h.self⟩

end Br2Efinix.I2c
