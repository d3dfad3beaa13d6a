import Br2Efinix.Lib.Machine
import Br2Efinix.Lib.Ring
import Br2Efinix.Tsemac.TxRing

/-!
# The indexes of both rings

The sizes of the rings, the memory that `tx_bd_v` and `rx_bd_v` point to, and the indexes that
`tsemac_dma_bd_init`, `tsemac_start_xmit`, `tsemac_tx_poll`, `tsemac_rx_poll`, `tsemac_dma_err_handler` and
`tsemac_stop` use. What they read in the descriptors, which the engine and the other contexts write, is an
input of each call.

* `Held.startXmit`, `Held.txPoll`, `Held.rxPoll`, `Held.errHandler`: rings that are held stay so, and
  every use of them is fine.
* `ring_uses_iff`: **every use is fine** in the runs that set no empty receive ring and whose openings succeed
  only with their rings set up; and any other step can be followed by a use that is not.
-/

namespace Br2Efinix.Tsemac

/-- What a ring's pointer points to: memory of so many descriptors, or memory that was given back. -/
inductive BdMem
  | null
  | live (size : ℕ)
  | freed
  deriving DecidableEq, Repr

def BdMem.free : BdMem → BdMem
  | .null => .null
  | _ => .freed

/-- A descriptor that is used, a divisor, or memory that is given back as so many descriptors. -/
inductive BdUse
  | bd (ring : BdMem) (i : ℕ)
  | modulus (n : ℕ)
  | free (ring : BdMem) (size : ℕ)
  deriving DecidableEq, Repr

/-- A use that is in order. -/
def BdUse.Ok : BdUse → Prop
  | .bd ring i => ∃ size, ring = .live size ∧ i < size
  | .modulus n => n ≠ 0
  | .free ring size => ring = .live size

/-- The part of `struct efx_tsemac_local` that the indexes depend on; `uses` is only observed. -/
structure Bds where
  txBdNum : ℕ
  rxBdNum : ℕ
  txBdCi : ℕ
  txBdTail : ℕ
  rxBdCi : ℕ
  txBdV : BdMem
  rxBdV : BdMem
  running : Bool
  uses : List BdUse

namespace Bds

def use (s : Bds) (u : BdUse) : Bds := { s with uses := s.uses ++ [u] }

/-- `tx_bd_v[i]` and `rx_bd_v[i]`. -/
def useTx (s : Bds) (i : ℕ) : Bds := s.use (.bd s.txBdV i)

def useRx (s : Bds) (i : ℕ) : Bds := s.use (.bd s.rxBdV i)

def modTx (s : Bds) : Bds := s.use (.modulus s.txBdNum)

def modRx (s : Bds) : Bds := s.use (.modulus s.rxBdNum)

/-! ### The transmit ring -/

/-- `if (++i >= tx_bd_num) i = 0`. -/
def wrapTx (s : Bds) (i : ℕ) : ℕ := if i + 1 ≥ s.txBdNum then 0 else i + 1

def stepCi (s : Bds) : Bds :=
  let s := { s with txBdCi := s.txBdCi + 1 }
  if s.txBdCi ≥ s.txBdNum then { s.modTx with txBdCi := s.txBdCi % s.txBdNum } else s

/-- `tsemac_free_tx_chain` from turn `i` on, with `k` to go, and its result; `completed` is what it reads. -/
def freeTxChain (force : Bool) (completed : ℕ → Bool) (first : ℕ) : ℕ → ℕ → Bds → Bds × ℕ
  | 0, i, s => (s, i)
  | k + 1, i, s =>
    let s := s.modTx.useTx ((first + i) % s.txBdNum)
    if !force && !completed i then (s, i) else freeTxChain force completed first k (i + 1) s.stepCi

/-- The loop of `tsemac_check_tx_bd_head`, for at most so many turns. -/
def checkTxBdHead (completed : ℕ → Bool) (last : ℕ) : ℕ → ℕ → Bds → Bds × ℕ
  | 0, bd, s => (s, bd)
  | k + 1, bd, s =>
    if bd = last then (s, last)
    else
      let s := s.useTx bd
      if !completed bd then (s, bd) else checkTxBdHead completed last k ((bd + 1) % s.txBdNum) s.modTx

/-- `tsemac_check_tx_bd_space`; what it reads is an input of its callers. -/
def checkTxBdSpace (s : Bds) (numFrag : ℕ) : Bds := s.modTx.useTx ((s.txBdTail + numFrag + 1) % s.txBdNum)

/-- What a call of `tsemac_start_xmit` meets: the fragments of the packet, whether the first two checks find a
descriptor in use, which mappings succeed, and which descriptors the search for the head finds completed. -/
structure XmitReads where
  nrFrags : ℕ
  control : Bool × Bool
  maps : ℕ → Bool
  mapsLinear : Bool
  completed : ℕ → Bool

/-- The loop over the fragments, from number `ii` on, with `k` to go. -/
def xmitFrags (orig : ℕ) (x : XmitReads) : ℕ → ℕ → ℕ → Bds → Bds × Option ℕ
  | 0, _, new, s => (s, some new)
  | k + 1, ii, new, s =>
    let new := s.wrapTx new
    let s := s.useTx new
    if x.maps ii then xmitFrags orig x k (ii + 1) new s
    else ((freeTxChain true x.completed orig (ii + 1) 0 s).1, none)

/-- `tsemac_start_xmit` from the new tail on; `new` is the last descriptor of the packet. -/
def publish (s : Bds) (x : XmitReads) (orig new : ℕ) : Bds :=
  let new := s.wrapTx new
  let s := { s with txBdTail := new }.useTx new
  let r := checkTxBdHead x.completed (orig % s.txBdNum) s.txBdNum (s.txBdCi % s.txBdNum) s.modTx.modTx
  -- the head gives the address that the engine starts from
  let s := (r.1.useTx r.2).checkTxBdSpace (MAX_SKB_FRAGS + 1)
  if x.control.2 then s.checkTxBdSpace (MAX_SKB_FRAGS + 1) else s

def startXmit (s : Bds) (x : XmitReads) : Bds :=
  let orig := s.txBdTail
  let s := (s.useTx orig).checkTxBdSpace (x.nrFrags + 1)
  if x.control.1 then s
  else
    let r := xmitFrags orig x x.nrFrags 0 orig s
    match r.2 with
    | none => r.1
    | some new =>
      if x.mapsLinear then (r.1.useTx orig).publish x orig new
      else (freeTxChain true x.completed orig 1 0 r.1).1

def txPoll (s : Bds) (budget : ℕ) (completed : ℕ → Bool) : Bds :=
  let r := freeTxChain false completed s.txBdCi budget 0 s
  if r.2 ≠ 0 then r.1.checkTxBdSpace (MAX_SKB_FRAGS + 1) else r.1

/-! ### The receive ring -/

/-- `if (++lp->rx_bd_ci >= lp->rx_bd_num) lp->rx_bd_ci = 0`. -/
def stepRx (s : Bds) : Bds := { s with rxBdCi := if s.rxBdCi + 1 ≥ s.rxBdNum then 0 else s.rxBdCi + 1 }

/-- A turn of the loop of `tsemac_rx_poll`, on a completed descriptor: whether it hands on a packet, and
whether the descriptor gets a new buffer. -/
structure RxTurn where
  packet : Bool
  refilled : Bool
  deriving DecidableEq, Repr

/-- The loop, with the packets so far: it finds so many descriptors completed. -/
def rxLoop (budget : ℕ) : List RxTurn → ℕ → Bds → Bds × ℕ
  | [], packets, s => (s, packets)
  | t :: ts, packets, s =>
    if packets < budget then
      let packets := if t.packet then packets + 1 else packets
      if t.refilled then rxLoop budget ts packets (s.stepRx.useRx s.stepRx.rxBdCi) else (s, packets)
    else (s, packets)

/-- `tsemac_rx_poll`; `empty` says that the first descriptor has a length of 0. -/
def rxPoll (s : Bds) (budget : ℕ) (empty : Bool) (turns : List RxTurn) : Bds :=
  let s := s.useRx s.rxBdCi
  let s := if empty then s.stepRx.useRx s.stepRx.rxBdCi else s
  let r := rxLoop budget turns 0 s
  if r.2 = budget then r.1 else r.1.useRx r.1.rxBdCi

/-! ### Setting up, recovery and release -/

/-- The loop of `tsemac_dma_bd_release` over the receive descriptors from `i` on, with `k` to go; `skbs` says
which of them have a buffer. -/
def releaseLoop (skbs : ℕ → Bool) : ℕ → ℕ → Bds → Bds
  | 0, _, s => s
  | k + 1, i, s =>
    let s := s.useRx i
    if skbs i then releaseLoop skbs k (i + 1) s else s

/-- `dma_free_coherent` of the memory of a ring. -/
def freeTx (s : Bds) : Bds := { s.use (.free s.txBdV s.txBdNum) with txBdV := s.txBdV.free }

def freeRx (s : Bds) : Bds := { s.use (.free s.rxBdV s.rxBdNum) with rxBdV := s.rxBdV.free }

def bdRelease (s : Bds) (skbs : ℕ → Bool) : Bds :=
  let s := s.freeTx
  if s.rxBdV = .null then s else (releaseLoop skbs s.rxBdNum 0 s).freeRx

/-- The loop of `tsemac_dma_bd_init` over the transmit descriptors, for the first `k`. -/
def initTx : ℕ → Bds → Bds
  | 0, s => s
  | k + 1, s =>
    let s := initTx k s
    (s.modTx.useTx ((k + 1) % s.txBdNum)).useTx k

/-- The loop over the receive descriptors from `i` on, with `k` to go, and whether it gets to the end: `alloc`
says whether there is a buffer for the descriptor and whether it is mapped. -/
def initRx (alloc : ℕ → Bool × Bool) : ℕ → ℕ → Bds → Bds × Bool
  | 0, _, s => (s, true)
  | k + 1, i, s =>
    let s := (s.modRx.useRx ((i + 1) % s.rxBdNum)).useRx i
    if (alloc i).1 && (alloc i).2 then initRx alloc k (i + 1) s else (s, false)

/-- `tsemac_dma_bd_init`; `rings` says whether `dma_alloc_coherent` gives the memory for the two rings. -/
def bdInit (s : Bds) (rings : Bool × Bool) (alloc : ℕ → Bool × Bool) (skbs : ℕ → Bool) : Bds :=
  let s := { s with txBdCi := 0, txBdTail := 0, rxBdCi := 0 }
  if !rings.1 then { s with txBdV := .null }
  else
    let s := { s with txBdV := .live s.txBdNum }
    if !rings.2 then { s with rxBdV := .null }.bdRelease skbs
    else
      let s := { s with rxBdV := .live s.rxBdNum }
      let r := initRx alloc s.rxBdNum 0 (initTx s.txBdNum s)
      if r.2 then r.1 else r.1.bdRelease skbs

/-- `tsemac_open`, which does not look at the result of the reset; `rest` says whether the remaining calls
succeed. -/
def open_ (s : Bds) (rings : Bool × Bool) (alloc : ℕ → Bool × Bool) (skbs : ℕ → Bool) (rest : Bool) : Bds :=
  { s.bdInit rings alloc skbs with running := rest }

def stop (s : Bds) (skbs : ℕ → Bool) : Bds := { s.bdRelease skbs with running := false }

/-- The loops of `tsemac_dma_err_handler`, for the first `k` descriptors. -/
def errTx : ℕ → Bds → Bds
  | 0, s => s
  | k + 1, s => (errTx k s).useTx k

def errRx : ℕ → Bds → Bds
  | 0, s => s
  | k + 1, s => (errRx k s).useRx k

def errHandler (s : Bds) : Bds :=
  { errRx s.rxBdNum (errTx s.txBdNum s) with txBdCi := 0, txBdTail := 0, rxBdCi := 0 }

end Bds

/-- The calls, each with what it meets. -/
inductive BdCall
  | setRingparam (ering : RingParam)
  | open_ (rings : Bool × Bool) (alloc : ℕ → Bool × Bool) (skbs : ℕ → Bool) (rest : Bool)
  | startXmit (x : Bds.XmitReads)
  | txPoll (budget : ℕ) (completed : ℕ → Bool)
  | rxPoll (budget : ℕ) (empty : Bool) (turns : List Bds.RxTurn)
  | errHandler
  | stop (skbs : ℕ → Bool)

/-- One call; but for `tsemac_open` and the setting of the sizes, of an interface that is up. -/
def Bds.call (s : Bds) : BdCall → Option Bds
  | .setRingparam ering =>
    match Tsemac.setRingparam s.running ering with
    | .ok sizes => some { s with rxBdNum := sizes.1, txBdNum := sizes.2 }
    | .error _ => some s
  | .open_ rings alloc skbs rest => if s.running then none else some (s.open_ rings alloc skbs rest)
  | .startXmit x => if s.running then some (s.startXmit x) else none
  | .txPoll budget completed => if s.running then some (s.txPoll budget completed) else none
  | .rxPoll budget empty turns => if s.running then some (s.rxPoll budget empty turns) else none
  | .errHandler => if s.running then some s.errHandler else none
  | .stop skbs => if s.running then some (s.stop skbs) else none

def TX_BD_NUM_DEFAULT : ℕ := 512
def RX_BD_NUM_DEFAULT : ℕ := 512

/-- After `tsemac_probe`. -/
def Bds.probed : Bds := ⟨TX_BD_NUM_DEFAULT, RX_BD_NUM_DEFAULT, 0, 0, 0, .null, .null, false, []⟩

def bdMachine : Machine Bds BdCall where
  init s := s = .probed
  step := Bds.call

/-- All uses so far were in order. -/
def Bds.Fine (s : Bds) : Prop := ∀ u ∈ s.uses, u.Ok

/-- A call that sets no empty receive ring, and no opening that succeeds without its rings. -/
def SetsUp (s : Bds) : BdCall → Prop
  | .setRingparam ering => ∀ sizes, Tsemac.setRingparam s.running ering = .ok sizes → sizes.1 ≠ 0
  | .open_ rings alloc _ rest =>
    rest = true → rings = (true, true) ∧ ∀ i < s.rxBdNum, alloc i = (true, true)
  | _ => True

/-- Both rings are held with their sizes, and their indexes are in range. -/
structure Held (s : Bds) : Prop where
  tx : s.txBdV = .live s.txBdNum
  rx : s.rxBdV = .live s.rxBdNum
  txNum : TX_BD_NUM_MIN ≤ s.txBdNum
  rxNum : s.rxBdNum ≠ 0
  tail : s.txBdTail < s.txBdNum
  rxCi : s.rxBdCi < s.rxBdNum
  fine : s.Fine

variable {s t : Bds} {i k : ℕ}

/-! ## One use -/

theorem fine_use (hs : s.Fine) {u : BdUse} (hu : u.Ok) : (s.use u).Fine := by
  intro v hv
  rcases List.mem_append.1 hv with hold | hnew
  · exact hs v hold
  · rw [List.mem_singleton.1 hnew]
    exact hu

namespace Held

theorem pos (h : Held s) : 0 < s.txBdNum := Nat.lt_of_lt_of_le (by decide) h.txNum

theorem use (h : Held s) {u : BdUse} (hu : u.Ok) : Held (s.use u) := { h with fine := fine_use h.fine hu }

theorem useTx (h : Held s) (hi : i < s.txBdNum) : Held (s.useTx i) := h.use ⟨s.txBdNum, h.tx, hi⟩

theorem useRx (h : Held s) (hi : i < s.rxBdNum) : Held (s.useRx i) := h.use ⟨s.rxBdNum, h.rx, hi⟩

theorem modTx (h : Held s) : Held s.modTx := h.use (Nat.ne_of_gt h.pos)

theorem modRx (h : Held s) : Held s.modRx := h.use h.rxNum

theorem mod_lt (h : Held s) (a : ℕ) : a % s.txBdNum < s.txBdNum := Nat.mod_lt a h.pos

theorem wrap_lt (h : Held s) (a : ℕ) : s.wrapTx a < s.txBdNum := by
  unfold Bds.wrapTx
  split
  · exact h.pos
  · omega

end Held

/-! ## The transmit ring -/

/-- What the calls on the transmit ring leave: the sizes, the tail and whether the interface is up. -/
structure SameTx (s t : Bds) : Prop where
  txNum : t.txBdNum = s.txBdNum
  tail : t.txBdTail = s.txBdTail

theorem Held.stepCi (h : Held s) : Held s.stepCi ∧ SameTx s s.stepCi := by
  unfold Bds.stepCi
  simp only
  split
  · have hmod : Held { s with txBdCi := s.txBdCi + 1 }.modTx := Held.modTx { h with }
    exact ⟨{ hmod with }, rfl, rfl⟩
  · exact ⟨{ h with }, rfl, rfl⟩

/-- **Freeing a chain** uses every index modulo the size. -/
theorem Held.freeTxChain (force : Bool) (completed : ℕ → Bool) (first : ℕ) (h : Held s) :
    Held (Bds.freeTxChain force completed first k i s).1 ∧
      SameTx s (Bds.freeTxChain force completed first k i s).1 := by
  induction k generalizing i s with
  | zero => exact ⟨h, rfl, rfl⟩
  | succ k ih =>
    have hused : Held (s.modTx.useTx ((first + i) % s.txBdNum)) := h.modTx.useTx (h.mod_lt _)
    unfold Bds.freeTxChain
    simp only
    split
    · exact ⟨hused, rfl, rfl⟩
    · obtain ⟨hstep, hsame⟩ := hused.stepCi
      obtain ⟨hrest, hsame'⟩ := ih (i := i + 1) hstep
      exact ⟨hrest, hsame'.txNum.trans hsame.txNum, hsame'.tail.trans hsame.tail⟩

/-- The search for the head stays in the ring. -/
theorem Held.checkTxBdHead (completed : ℕ → Bool) {last bd : ℕ} (h : Held s) (hlast : last < s.txBdNum)
    (hbd : bd < s.txBdNum) :
    Held (Bds.checkTxBdHead completed last k bd s).1 ∧ SameTx s (Bds.checkTxBdHead completed last k bd s).1 ∧
      (Bds.checkTxBdHead completed last k bd s).2 < s.txBdNum := by
  induction k generalizing bd s with
  | zero => exact ⟨h, ⟨rfl, rfl⟩, hbd⟩
  | succ k ih =>
    unfold Bds.checkTxBdHead
    simp only
    split
    · exact ⟨h, ⟨rfl, rfl⟩, hlast⟩
    · have hused : Held (s.useTx bd) := h.useTx hbd
      split
      · exact ⟨hused, ⟨rfl, rfl⟩, hbd⟩
      · obtain ⟨hrest, hsame, hlt⟩ := ih hused.modTx hlast (h.mod_lt (bd + 1))
        exact ⟨hrest, ⟨hsame.txNum, hsame.tail⟩, hlt⟩

/-- It gets from one position to a later one, or stops before. -/
theorem checkTxBdHead_reaches (completed : ℕ → Bool) {p q : ℕ} (hle : p ≤ q) (hlt : q < p + k) :
    (Bds.checkTxBdHead completed (q % s.txBdNum) k (p % s.txBdNum) s).2 = q % s.txBdNum ∨
      completed (Bds.checkTxBdHead completed (q % s.txBdNum) k (p % s.txBdNum) s).2 = false := by
  induction k generalizing p s with
  | zero => omega
  | succ k ih =>
    unfold Bds.checkTxBdHead
    simp only
    split
    · exact Or.inl rfl
    · rename_i hne
      split
      · rename_i hstop
        exact Or.inr (by simpa using hstop)
      · have hnext : p ≠ q := fun h => hne (by rw [h])
        have hstep := ih (s := (s.useTx (p % s.txBdNum)).modTx) (p := p + 1) (by omega) (by omega)
        rw [← Ring.slot_add] at hstep
        exact hstep

/-- **The search ends** at the last descriptor or at one that is not completed, in as many turns as there
are descriptors. -/
theorem checkTxBdHead_ends (completed : ℕ → Bool) {last bd : ℕ} (hlast : last < s.txBdNum) (hbd : bd < s.txBdNum) :
    (Bds.checkTxBdHead completed last s.txBdNum bd s).2 = last ∨
      completed (Bds.checkTxBdHead completed last s.txBdNum bd s).2 = false := by
  obtain ⟨q, hle, hlt, hq⟩ := Ring.exists_slot bd hlast
  have h := checkTxBdHead_reaches (s := s) completed hle hlt
  rw [hq, Nat.mod_eq_of_lt hbd] at h
  exact h

theorem Held.checkTxBdSpace (h : Held s) (numFrag : ℕ) : Held (s.checkTxBdSpace numFrag) :=
  h.modTx.useTx (h.mod_lt _)

theorem Held.xmitFrags (x : Bds.XmitReads) (orig ii : ℕ) {new : ℕ} (h : Held s) (hnew : new < s.txBdNum) :
    Held (Bds.xmitFrags orig x k ii new s).1 ∧ SameTx s (Bds.xmitFrags orig x k ii new s).1 ∧
      ∀ last, (Bds.xmitFrags orig x k ii new s).2 = some last → last < s.txBdNum := by
  induction k generalizing ii new s with
  | zero =>
    refine ⟨h, ⟨rfl, rfl⟩, ?_⟩
    intro last hlast
    rw [← Option.some.inj hlast]
    exact hnew
  | succ k ih =>
    have hused : Held (s.useTx (s.wrapTx new)) := h.useTx (h.wrap_lt new)
    unfold Bds.xmitFrags
    simp only
    split
    · obtain ⟨hrest, hsame, hlt⟩ := ih (ii + 1) hused (h.wrap_lt new)
      exact ⟨hrest, ⟨hsame.txNum, hsame.tail⟩, hlt⟩
    · obtain ⟨hfreed, hsame⟩ := hused.freeTxChain true x.completed orig (k := ii + 1) (i := 0)
      exact ⟨hfreed, ⟨hsame.txNum, hsame.tail⟩, nofun⟩

theorem Held.publish {orig new : ℕ} (x : Bds.XmitReads) (h : Held s) : Held (s.publish x orig new) := by
  have hwrap := h.wrap_lt new
  have htail : Held { s with txBdTail := s.wrapTx new } := { h with tail := hwrap }
  have hused : Held ({ s with txBdTail := s.wrapTx new }.useTx (s.wrapTx new)).modTx.modTx :=
    (htail.useTx hwrap).modTx.modTx
  unfold Bds.publish
  simp only
  obtain ⟨hhead, hsame, hlt⟩ := hused.checkTxBdHead (k := s.txBdNum) x.completed (h.mod_lt orig) (h.mod_lt s.txBdCi)
  have hspace := (hhead.useTx (by rw [hsame.txNum]; exact hlt)).checkTxBdSpace (MAX_SKB_FRAGS + 1)
  split
  · exact hspace.checkTxBdSpace _
  · exact hspace

/-- **`tsemac_start_xmit`** uses only descriptors of the ring. -/
theorem Held.startXmit (x : Bds.XmitReads) (h : Held s) : Held (s.startXmit x) := by
  have hspace : Held ((s.useTx s.txBdTail).checkTxBdSpace (x.nrFrags + 1)) := (h.useTx h.tail).checkTxBdSpace _
  unfold Bds.startXmit
  simp only
  split
  · exact hspace
  · obtain ⟨hfrags, hsame, -⟩ := hspace.xmitFrags x s.txBdTail 0 (k := x.nrFrags) h.tail
    generalize Bds.xmitFrags s.txBdTail x x.nrFrags 0 s.txBdTail _ = r at hfrags hsame
    split
    · exact hfrags
    · split
      · refine (hfrags.useTx ?_).publish x
        rw [hsame.txNum]
        exact h.tail
      · exact (hfrags.freeTxChain true x.completed s.txBdTail).1

theorem Held.txPoll (budget : ℕ) (completed : ℕ → Bool) (h : Held s) : Held (s.txPoll budget completed) := by
  have hfreed := (h.freeTxChain false completed s.txBdCi (k := budget) (i := 0)).1
  unfold Bds.txPoll
  simp only
  split
  · exact hfreed.checkTxBdSpace _
  · exact hfreed

/-! ## The receive ring -/

theorem Held.stepRx (h : Held s) : Held s.stepRx := by
  refine { h with rxCi := ?_ }
  unfold Bds.stepRx
  simp only
  split
  · exact Nat.pos_of_ne_zero h.rxNum
  · omega

theorem Held.nextRx (h : Held s) : Held (s.stepRx.useRx s.stepRx.rxBdCi) := h.stepRx.useRx h.stepRx.rxCi

theorem Held.rxLoop {budget packets : ℕ} {turns : List Bds.RxTurn} (h : Held s) :
    Held (Bds.rxLoop budget turns packets s).1 := by
  induction turns generalizing packets s with
  | nil => exact h
  | cons t ts ih =>
    unfold Bds.rxLoop
    simp only
    split
    · split
      · exact ih h.nextRx
      · exact h
    · exact h

/-- **`tsemac_rx_poll`** uses only descriptors of the ring. -/
theorem Held.rxPoll (budget : ℕ) (empty : Bool) (turns : List Bds.RxTurn) (h : Held s) :
    Held (s.rxPoll budget empty turns) := by
  have hfirst : Held (s.useRx s.rxBdCi) := h.useRx h.rxCi
  have hloop : ∀ u, Held u → Held (if (Bds.rxLoop budget turns 0 u).2 = budget then (Bds.rxLoop budget turns 0 u).1
      else (Bds.rxLoop budget turns 0 u).1.useRx (Bds.rxLoop budget turns 0 u).1.rxBdCi) := by
    intro u hu
    have hr : Held (Bds.rxLoop budget turns 0 u).1 := hu.rxLoop
    split
    · exact hr
    · exact hr.useRx hr.rxCi
  unfold Bds.rxPoll
  apply hloop
  split
  · exact hfirst.nextRx
  · exact hfirst

/-! ## Setting up, recovery and release -/

theorem Held.initTx (h : Held s) (hk : k ≤ s.txBdNum) :
    ∃ uses, Bds.initTx k s = { s with uses := uses } ∧ ∀ u ∈ uses, u.Ok := by
  induction k with
  | zero => exact ⟨s.uses, rfl, h.fine⟩
  | succ k ih =>
    obtain ⟨uses, heq, hok⟩ := ih (by omega)
    have hloop : Held { s with uses := uses } := { h with fine := hok }
    unfold Bds.initTx
    simp only
    rw [heq]
    have hused := (hloop.modTx.useTx (hloop.mod_lt (k + 1))).useTx (i := k) (show k < s.txBdNum by omega)
    exact ⟨_, rfl, hused.fine⟩

theorem Held.initRx (alloc : ℕ → Bool × Bool) (h : Held s) (hk : i + k ≤ s.rxBdNum) :
    ∃ uses, (Bds.initRx alloc k i s).1 = { s with uses := uses } ∧ ∀ u ∈ uses, u.Ok := by
  induction k generalizing i s with
  | zero => exact ⟨s.uses, rfl, h.fine⟩
  | succ k ih =>
    have hnext : (i + 1) % s.rxBdNum < s.rxBdNum := Nat.mod_lt _ (by omega)
    have hused : Held ((s.modRx.useRx ((i + 1) % s.rxBdNum)).useRx i) :=
      (h.modRx.useRx hnext).useRx (show i < s.rxBdNum by omega)
    unfold Bds.initRx
    simp only
    split
    · obtain ⟨uses, heq, hok⟩ := ih hused (show i + 1 + k ≤ s.rxBdNum by omega)
      exact ⟨uses, heq, hok⟩
    · exact ⟨_, rfl, hused.fine⟩

/-- The loop gets to the end when there is a mapped buffer for every descriptor. -/
theorem initRx_all_iff {alloc : ℕ → Bool × Bool} :
    (Bds.initRx alloc k i s).2 = true ↔ ∀ j, i ≤ j → j < i + k → alloc j = (true, true) := by
  induction k generalizing i s with
  | zero => exact iff_of_true rfl fun j h1 h2 => absurd h2 (by omega)
  | succ k ih =>
    unfold Bds.initRx
    simp only
    split
    · rename_i hi
      rw [ih]
      constructor
      · intro hrest j h1 h2
        rcases Nat.eq_or_lt_of_le h1 with rfl | hlt
        · exact Prod.ext (Bool.and_eq_true_iff.1 hi).1 (Bool.and_eq_true_iff.1 hi).2
        · exact hrest j hlt (by omega)
      · intro hrest j h1 h2
        exact hrest j (by omega) (by omega)
    · rename_i hi
      refine iff_of_false nofun ?_
      intro hall
      rw [hall i (Nat.le_refl i) (by omega)] at hi
      exact hi rfl

/-- The loop of the release only uses descriptors. -/
theorem releaseLoop_uses (skbs : ℕ → Bool) (hrx : s.rxBdV = .live s.rxBdNum) (hk : i + k ≤ s.rxBdNum)
    (hfine : s.Fine) :
    ∃ uses, Bds.releaseLoop skbs k i s = { s with uses := uses } ∧ ∀ u ∈ uses, u.Ok := by
  induction k generalizing i s with
  | zero => exact ⟨s.uses, rfl, hfine⟩
  | succ k ih =>
    have hused : (s.useRx i).Fine := fine_use hfine ⟨s.rxBdNum, hrx, by omega⟩
    unfold Bds.releaseLoop
    simp only
    split
    · obtain ⟨uses, heq, hok⟩ := ih (s := s.useRx i) (i := i + 1) hrx (show i + 1 + k ≤ s.rxBdNum by omega) hused
      exact ⟨uses, heq, hok⟩
    · exact ⟨(s.useRx i).uses, rfl, hused⟩

/-- **Releasing rings** that are held gives both back with the sizes that they have. -/
theorem Held.bdRelease (skbs : ℕ → Bool) (h : Held s) :
    ∃ uses, s.bdRelease skbs = { s with txBdV := .freed, rxBdV := .freed, uses := uses } ∧ ∀ u ∈ uses, u.Ok := by
  obtain ⟨uses, heq, hok⟩ := releaseLoop_uses (s := s.freeTx) skbs (k := s.rxBdNum) (i := 0) h.rx
    (Nat.le_of_eq (Nat.zero_add s.rxBdNum)) (fine_use h.fine h.tx)
  have hrx : s.freeTx.rxBdV ≠ .null := by
    rw [show s.freeTx.rxBdV = s.rxBdV from rfl, h.rx]
    nofun
  refine ⟨uses ++ [.free s.rxBdV s.rxBdNum], ?_, ?_⟩
  · unfold Bds.bdRelease
    simp only
    rw [if_neg hrx, show s.freeTx.rxBdNum = s.rxBdNum from rfl, heq]
    unfold Bds.freeTx Bds.freeRx Bds.use
    simp only [h.tx, h.rx, BdMem.free]
  · intro u hu
    rcases List.mem_append.1 hu with hold | hnew
    · exact hok u hold
    · rw [List.mem_singleton.1 hnew]
      exact h.rx

theorem Held.errTx (h : Held s) (hk : k ≤ s.txBdNum) :
    ∃ uses, Bds.errTx k s = { s with uses := uses } ∧ ∀ u ∈ uses, u.Ok := by
  induction k with
  | zero => exact ⟨s.uses, rfl, h.fine⟩
  | succ k ih =>
    obtain ⟨uses, heq, hok⟩ := ih (by omega)
    unfold Bds.errTx
    rw [heq]
    exact ⟨_, rfl, fine_use (s := { s with uses := uses }) hok ⟨s.txBdNum, h.tx, by omega⟩⟩

theorem Held.errRx (h : Held s) (hk : k ≤ s.rxBdNum) :
    ∃ uses, Bds.errRx k s = { s with uses := uses } ∧ ∀ u ∈ uses, u.Ok := by
  induction k with
  | zero => exact ⟨s.uses, rfl, h.fine⟩
  | succ k ih =>
    obtain ⟨uses, heq, hok⟩ := ih (by omega)
    unfold Bds.errRx
    rw [heq]
    exact ⟨_, rfl, fine_use (s := { s with uses := uses }) hok ⟨s.rxBdNum, h.rx, by omega⟩⟩

/-- **The recovery** uses only descriptors of the rings, and begins with both again. -/
theorem Held.errHandler (h : Held s) : Held s.errHandler := by
  obtain ⟨uses, heq, hok⟩ := h.errTx (Nat.le_refl s.txBdNum)
  have htx : Held { s with uses := uses } := { h with fine := hok }
  obtain ⟨uses', heq', hok'⟩ := htx.errRx (Nat.le_refl s.rxBdNum)
  unfold Bds.errHandler
  rw [heq, heq']
  exact { h with tail := h.pos, rxCi := Nat.pos_of_ne_zero h.rxNum, fine := hok' }

/-! ## Opening -/

/-- What any opening leaves: the sizes, and uses that were in order. -/
structure Opened (s t : Bds) : Prop where
  txNum : t.txBdNum = s.txBdNum
  rxNum : t.rxBdNum = s.rxBdNum
  fine : t.Fine

/-- **Setting up the rings**: both are held, or the transmit ring is not. -/
theorem bdInit_spec (rings : Bool × Bool) (alloc : ℕ → Bool × Bool) (skbs : ℕ → Bool)
    (htx : TX_BD_NUM_MIN ≤ s.txBdNum) (hrx : s.rxBdNum ≠ 0) (hfine : s.Fine) :
    Opened s (s.bdInit rings alloc skbs) ∧
      ((rings = (true, true) ∧ ∀ i < s.rxBdNum, alloc i = (true, true)) ∧ Held (s.bdInit rings alloc skbs) ∨
        ¬ (rings = (true, true) ∧ ∀ i < s.rxBdNum, alloc i = (true, true)) ∧
          ∀ size, (s.bdInit rings alloc skbs).txBdV ≠ .live size) := by
  have htx0 : s.txBdNum ≠ 0 := by
    unfold TX_BD_NUM_MIN at htx
    omega
  unfold Bds.bdInit
  simp only
  rcases rings with ⟨_ | _, rings⟩
  · exact ⟨⟨rfl, rfl, hfine⟩, Or.inr ⟨nofun, nofun⟩⟩
  rcases rings with _ | _
  · -- the memory of the transmit ring is given back
    refine ⟨⟨rfl, rfl, fine_use hfine rfl⟩, Or.inr ⟨nofun, nofun⟩⟩
  · simp only [Bool.not_true, Bool.false_eq_true, if_false, true_and]
    have hheld : Held { s with
        txBdCi := 0, txBdTail := 0, rxBdCi := 0, txBdV := .live s.txBdNum, rxBdV := .live s.rxBdNum } :=
      ⟨rfl, rfl, htx, hrx, Nat.pos_of_ne_zero htx0, Nat.pos_of_ne_zero hrx, hfine⟩
    obtain ⟨uses, heq, hok⟩ := hheld.initTx (k := s.txBdNum) (Nat.le_refl _)
    have htxHeld := { hheld with fine := hok : Held { s with
      txBdCi := 0, txBdTail := 0, rxBdCi := 0, txBdV := .live s.txBdNum, rxBdV := .live s.rxBdNum, uses := uses } }
    obtain ⟨uses', heq', hok'⟩ := htxHeld.initRx alloc (k := s.rxBdNum) (i := 0)
      (Nat.le_of_eq (Nat.zero_add s.rxBdNum))
    have hrxHeld := { htxHeld with fine := hok' : Held { s with
      txBdCi := 0, txBdTail := 0, rxBdCi := 0, txBdV := .live s.txBdNum, rxBdV := .live s.rxBdNum, uses := uses' } }
    rw [heq]
    by_cases hall : ∀ i < s.rxBdNum, alloc i = (true, true)
    · rw [if_pos (initRx_all_iff.2 fun j _ hj => hall j (by omega)), heq']
      exact ⟨⟨rfl, rfl, hok'⟩, Or.inl ⟨hall, hrxHeld⟩⟩
    · rw [if_neg fun hloop => hall fun j hj => initRx_all_iff.1 hloop j (Nat.zero_le j) (by omega), heq']
      obtain ⟨uses₂, hrel, hok₂⟩ := hrxHeld.bdRelease skbs
      rw [hrel]
      exact ⟨⟨rfl, rfl, hok₂⟩, Or.inr ⟨hall, nofun⟩⟩

/-! ## Every run -/

/-- The sizes can be used, every use was in order, and an interface that is up holds its rings. -/
structure BdInv (s : Bds) : Prop where
  txNum : TX_BD_NUM_MIN ≤ s.txBdNum
  rxNum : s.rxBdNum ≠ 0
  fine : s.Fine
  held : s.running = true → Held s

theorem Held.inv (h : Held s) : BdInv s := ⟨h.txNum, h.rxNum, h.fine, fun _ => h⟩

/-- What is accepted as the sizes of the rings. -/
theorem setRingparam_sizes {running : Bool} {ering : RingParam} {sizes : ℕ × ℕ}
    (h : Tsemac.setRingparam running ering = .ok sizes) : running = false ∧ TX_BD_NUM_MIN ≤ sizes.2 := by
  unfold Tsemac.setRingparam at h
  split at h
  · exact absurd h (by simp)
  · rename_i hcond
    split at h
    · exact absurd h (by simp)
    · rename_i hrunning
      rw [← Except.ok.inj h]
      exact ⟨by simpa using hrunning, by simp only; omega⟩

theorem probed_inv : BdInv .probed := ⟨by decide, by decide, nofun, nofun⟩

/-- **One call** keeps it. -/
theorem call_inv {c : BdCall} (hs : BdInv s) (hc : SetsUp s c) (hstep : s.call c = some t) : BdInv t := by
  cases c with
  | setRingparam ering =>
    unfold Bds.call at hstep
    simp only at hstep
    split at hstep
    · rename_i sizes hok
      obtain ⟨hdown, hmin⟩ := setRingparam_sizes hok
      rw [← Option.some.inj hstep]
      exact ⟨hmin, hc sizes hok, hs.fine, fun hup => absurd (hdown.symm.trans hup) (by decide)⟩
    · rw [← Option.some.inj hstep]
      exact hs
  | open_ rings alloc skbs rest =>
    obtain ⟨-, rfl⟩ := of_guard_not hstep
    obtain ⟨hopened, hcases⟩ := bdInit_spec rings alloc skbs hs.txNum hs.rxNum hs.fine
    refine ⟨?_, ?_, hopened.fine, ?_⟩
    · exact Nat.le_trans hs.txNum (Nat.le_of_eq hopened.txNum.symm)
    · exact fun h => hs.rxNum (hopened.rxNum.symm.trans h)
    · intro hup
      rcases hcases with ⟨-, hheld⟩ | ⟨hno, -⟩
      · exact { hheld with }
      · exact absurd (hc hup) hno
  | startXmit x =>
    obtain ⟨hup, rfl⟩ := of_guard hstep
    exact ((hs.held hup).startXmit x).inv
  | txPoll budget completed =>
    obtain ⟨hup, rfl⟩ := of_guard hstep
    exact ((hs.held hup).txPoll budget completed).inv
  | rxPoll budget empty turns =>
    obtain ⟨hup, rfl⟩ := of_guard hstep
    exact ((hs.held hup).rxPoll budget empty turns).inv
  | errHandler =>
    obtain ⟨hup, rfl⟩ := of_guard hstep
    exact (hs.held hup).errHandler.inv
  | stop skbs =>
    obtain ⟨hup, rfl⟩ := of_guard hstep
    obtain ⟨uses, heq, hok⟩ := (hs.held hup).bdRelease skbs
    unfold Bds.stop
    rw [heq]
    exact ⟨hs.txNum, hs.rxNum, hok, nofun⟩

theorem reach_inv (h : bdMachine.Reach SetsUp s) : BdInv s := by
  apply h.invariant
  · rintro s rfl
    exact probed_inv
  · intro s c t hs hc hstep
    exact call_inv hs hc hstep

/-! ## The other calls -/

/-- An opening in which everything succeeds, and a poll that finds nothing. -/
def openAndPoll : List BdCall :=
  [.open_ (true, true) (fun _ => (true, true)) (fun _ => true) true, .rxPoll 64 false []]

theorem initTx_frame (k : ℕ) (s : Bds) : ∃ uses, Bds.initTx k s = { s with uses := uses } := by
  induction k with
  | zero => exact ⟨s.uses, rfl⟩
  | succ k ih =>
    obtain ⟨uses, heq⟩ := ih
    unfold Bds.initTx
    rw [heq]
    exact ⟨_, rfl⟩

/-- An interface that is down can be opened. -/
theorem step_open {rings : Bool × Bool} {alloc : ℕ → Bool × Bool} {skbs : ℕ → Bool} {rest : Bool}
    (hdown : s.running = false) :
    bdMachine.step s (.open_ rings alloc skbs rest) = some (s.open_ rings alloc skbs rest) :=
  if_neg (by rw [hdown]; decide)

/-- **An empty receive ring** is used at its first poll. -/
theorem empty_ring_used (hdown : s.running = false) (hzero : s.rxBdNum = 0) :
    bdMachine.Along SetsUp s openAndPoll ∧ ∃ u, bdMachine.exec s openAndPoll = some u ∧ ¬ u.Fine := by
  refine ⟨⟨fun _ => ⟨rfl, fun _ _ => rfl⟩, fun _ _ => ⟨trivial, fun _ _ => trivial⟩⟩, ?_⟩
  have hopen : bdMachine.step s (.open_ (true, true) (fun _ => (true, true)) (fun _ => true) true) =
      some (s.open_ (true, true) (fun _ => (true, true)) (fun _ => true) true) := step_open hdown
  -- the ring has no descriptor, and its index is 0
  have hring : (s.open_ (true, true) (fun _ => (true, true)) (fun _ => true) true).rxBdV = .live 0 ∧
      (s.open_ (true, true) (fun _ => (true, true)) (fun _ => true) true).rxBdCi = 0 := by
    unfold Bds.open_ Bds.bdInit
    simp only [Bool.not_true, Bool.false_eq_true, if_false]
    obtain ⟨uses, heq⟩ := initTx_frame s.txBdNum { s with
      txBdCi := 0, txBdTail := 0, rxBdCi := 0, txBdV := .live s.txBdNum, rxBdV := .live s.rxBdNum }
    rw [heq, hzero]
    exact ⟨rfl, rfl⟩
  generalize hs' : s.open_ (true, true) (fun _ => (true, true)) (fun _ => true) true = s' at hopen hring
  have hup : s'.running = true := by rw [← hs']; rfl
  refine ⟨s'.rxPoll 64 false [], ?_, ?_⟩
  · unfold openAndPoll Machine.exec
    rw [hopen, Option.bind_some]
    unfold Machine.exec
    rw [show bdMachine.step s' (.rxPoll 64 false []) = some (s'.rxPoll 64 false []) from if_pos hup, Option.bind_some]
    rfl
  · intro hfine
    have huse : BdUse.bd s'.rxBdV s'.rxBdCi ∈ (s'.rxPoll 64 false []).uses :=
      List.mem_append_left _ (List.mem_append_right s'.uses (List.mem_singleton_self _))
    obtain ⟨size, hlive, hlt⟩ := hfine _ huse
    rw [hring.1] at hlive
    cases hlive
    exact Nat.not_lt_zero _ hlt

/-- The release gives the transmit ring back, whatever it points to. -/
theorem bdRelease_frees (s : Bds) (skbs : ℕ → Bool) : .free s.txBdV s.txBdNum ∈ (s.bdRelease skbs).uses := by
  have hmem : .free s.txBdV s.txBdNum ∈ s.freeTx.uses := List.mem_append_right s.uses (List.mem_singleton_self _)
  have hloop : ∀ k i (t : Bds) u, u ∈ t.uses → u ∈ (Bds.releaseLoop skbs k i t).uses := by
    intro k
    induction k with
    | zero => exact fun _ _ _ hu => hu
    | succ k ih =>
      intro i t u hu
      have hnext : u ∈ (t.useRx i).uses := List.mem_append_left _ hu
      unfold Bds.releaseLoop
      simp only
      split
      · exact ih (i + 1) _ u hnext
      · exact hnext
  unfold Bds.bdRelease
  simp only
  split
  · exact hmem
  · exact List.mem_append_left _ (hloop _ _ _ _ hmem)

/-- **An opening without its rings** leaves none that could be given back. -/
theorem stop_after_failure {rings : Bool × Bool} {alloc : ℕ → Bool × Bool} (skbs : ℕ → Bool) (hs : BdInv s)
    (hno : ¬ (rings = (true, true) ∧ ∀ i < s.rxBdNum, alloc i = (true, true))) :
    ¬ ((s.open_ rings alloc skbs true).stop skbs).Fine := by
  intro hfine
  obtain ⟨-, hcases⟩ := bdInit_spec rings alloc skbs hs.txNum hs.rxNum hs.fine
  rcases hcases with ⟨hyes, -⟩ | ⟨-, hnone⟩
  · exact hno hyes
  · exact hnone _ (hfine _ (bdRelease_frees (s.open_ rings alloc skbs true) skbs))

/-- **Every use of the rings is in order** in every state that such calls lead to, and any other call leads to
a use that is not. -/
theorem ring_uses_iff {c : BdCall} (h : bdMachine.Reach SetsUp s) (hstep : bdMachine.step s c = some t) :
    s.Fine ∧ (SetsUp s c ↔
      ∀ cs u, bdMachine.Along SetsUp t cs → bdMachine.exec t cs = some u → u.Fine) := by
  refine ⟨(reach_inv h).fine, ?_, ?_⟩
  · intro hc cs u halong hexec
    exact (reach_inv ((h.step hc hstep).exec halong hexec)).fine
  · intro hall
    have hs := reach_inv h
    cases c with
    | setRingparam ering =>
      intro sizes hok hzero
      -- such a ring is used at its first poll
      have ht : t = { s with rxBdNum := sizes.1, txBdNum := sizes.2 } := by
        have hstep' : s.call (.setRingparam ering) = some t := hstep
        unfold Bds.call at hstep'
        simp only [hok] at hstep'
        exact (Option.some.inj hstep').symm
      have hused := empty_ring_used (s := t) (by rw [ht]; exact (setRingparam_sizes hok).1) (by rw [ht]; exact hzero)
      obtain ⟨halong, u, hexec, hbad⟩ := hused
      exact hbad (hall _ u halong hexec)
    | open_ rings alloc skbs rest =>
      rintro rfl
      by_contra hno
      obtain ⟨-, rfl⟩ := of_guard_not hstep
      refine stop_after_failure skbs hs hno (hall [.stop skbs] _ ⟨trivial, fun _ _ => trivial⟩ ?_)
      rfl
    | _ => trivial

/-- The first opening sets up its rings, and so every use after it is in order. -/
theorem first_opening_fine :
    Bds.probed.Fine ∧ ∀ cs u,
      bdMachine.Along SetsUp (Bds.probed.open_ (true, true) (fun _ => (true, true)) (fun _ => true) true) cs →
        bdMachine.exec (Bds.probed.open_ (true, true) (fun _ => (true, true)) (fun _ => true) true) cs = some u →
          u.Fine := by
  have hopen : bdMachine.step .probed (.open_ (true, true) (fun _ => (true, true)) (fun _ => true) true) = some _ :=
    step_open rfl
  obtain ⟨hfine, hafter⟩ := ring_uses_iff (.init rfl) hopen
  exact ⟨hfine, hafter.1 fun _ => ⟨rfl, fun _ _ => rfl⟩⟩

/-- **A receive ring of no descriptors** is accepted, and its descriptor 0 used. -/
theorem empty_ring_accepted :
    ∃ u, bdMachine.exec .probed (.setRingparam ⟨0, 0, 0, 512⟩ :: openAndPoll) = some u ∧ ¬ u.Fine := by
  have haccepted : bdMachine.step .probed (.setRingparam ⟨0, 0, 0, 512⟩) =
      some ⟨512, 0, 0, 0, 0, .null, .null, false, []⟩ := rfl
  unfold Machine.exec
  rw [haccepted, Option.bind_some]
  exact (empty_ring_used rfl rfl).2

end Br2Efinix.Tsemac
