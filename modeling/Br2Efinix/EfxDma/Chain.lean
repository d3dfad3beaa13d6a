import Mathlib.Algebra.GroupWithZero.Nat
import Mathlib.Data.List.Range
import Mathlib.Data.Nat.Notation

/-!
# Descriptor chains of the DMA engine

One channel of `efx_dma`: the descriptors in memory, `pending_list`, `head_desc`, and
the functions that build and free chains. A descriptor is a pair of a `struct
efx_dma_desc` and its `struct efx_dma_hw_desc`, named by its DMA handle; handles are
given out in order and never reused.

* `hwDescInit_spec`: `efx_dma_hw_desc_init` appends a chain of `len` descriptors that is
  linked in order or, when an allocation fails, frees every descriptor of the channel.
-/

namespace Br2Efinix.EfxDma

def EFX_DMA_DESCRIPTOR_CONTROL_BYTES : ℕ := 0x7FFFFFF
def EFX_DMA_DESCRIPTOR_CONTROL_END_OF_PACKET : ℕ := 2 ^ 30
def EFX_DMA_DESCRIPTOR_NO_COMPLETION : ℕ := 2 ^ 31
def PAGE_SIZE : ℕ := 4096

/-- `enum dma_transfer_direction`. -/
inductive Direction
  | memToMem
  | memToDev
  | devToMem
  | devToDev
  deriving DecidableEq, Repr

/-- `struct efx_dma_hw_desc`: of `status` only `COMPLETED` is used, and `next` is a handle. -/
structure HwDesc where
  completed : Bool
  control : ℕ
  srcAddr : ℕ
  dstAddr : ℕ
  next : Option ℕ
  deriving DecidableEq, Repr

/-- `struct efx_dma_desc`; `owner` is only observed, it counts the calls that prepare a
transfer. -/
structure Desc where
  hw : HwDesc
  segments : ℕ
  cyclic : Bool
  direction : Direction
  owner : ℕ
  deriving DecidableEq, Repr

/-- An entry of a mapped scatterlist. -/
structure SgEntry where
  dmaAddress : ℕ
  dmaLen : ℕ
  deriving DecidableEq, Repr

/-- What `struct efx_dma_chan` holds of its descriptors. Only observed are the handles of the
pairs that have been freed, the scatterlist entries read, and the transfers that have been
prepared and neither completed nor terminated. -/
structure Chan where
  mem : ℕ → Desc
  pending : List ℕ
  headDesc : Option ℕ
  fresh : ℕ
  freed : List ℕ
  sgReads : List ℕ
  preps : ℕ
  active : List ℕ

/-- The arguments of `efx_dma_hw_desc_init`; a scatterlist is memory beyond its end, too. -/
structure InitArgs where
  srcAddr : ℕ
  dstAddr : ℕ
  sg : Option (ℕ → SgEntry)
  len : ℕ
  periodLen : ℕ
  direction : Direction
  cyclic : Bool

namespace Chan

/-- `efx_dma_free_hw_desc_chain`. -/
def freeHwDescChain (c : Chan) : Chan :=
  if c.pending = [] then c
  else { c with pending := [], freed := c.freed ++ c.pending, headDesc := none }

/-- Write a descriptor. -/
def setDesc (c : Chan) (h : ℕ) (d : Desc) : Chan :=
  { c with mem := fun k => if k = h then d else c.mem k }

/-- `prev_desc->hw_desc->next = desc->dma_handle`. -/
def link (c : Chan) (prev : Option ℕ) (h : ℕ) : Chan :=
  match prev with
  | none => c
  | some p => c.setDesc p { c.mem p with hw := { (c.mem p).hw with next := some h } }

end Chan

/-- `efx_dma_hw_desc_address_control`, on a descriptor that is still zero. -/
def addressControl (a : InitArgs) (head : Option ℕ) (i : ℕ) : HwDesc :=
  let sg := a.sg.map fun f => f i
  let bufLen :=
    match sg with
    | some e => e.dmaLen % 2 ^ 32
    | none => (a.periodLen + (2 ^ 32 - 1)) % 2 ^ 32
  let segmentAddr :=
    match sg with
    | some e => e.dmaAddress
    | none => a.srcAddr + i * a.periodLen
  let last := i + 1 == a.len
  { completed := last && !a.cyclic
    control :=
      (if a.cyclic then EFX_DMA_DESCRIPTOR_NO_COMPLETION
        else EFX_DMA_DESCRIPTOR_CONTROL_END_OF_PACKET) ||| bufLen
    srcAddr :=
      match a.direction with
      | .memToDev => segmentAddr % 2 ^ 64
      | .memToMem => (a.srcAddr + i * a.periodLen) % 2 ^ 64
      | _ => 0
    dstAddr :=
      match a.direction with
      | .devToMem => segmentAddr % 2 ^ 64
      | .memToMem => (a.dstAddr + i * a.periodLen) % 2 ^ 64
      | _ => 0
    next := if last && a.cyclic then head else none }

/-- The body of the loop of `efx_dma_hw_desc_init` for element `i`, whose pair is given the
next handle. -/
def initElem (a : InitArgs) (owner i : ℕ) (prev : Option ℕ) (c : Chan) : Chan :=
  let h := c.fresh
  let head := if i = 0 then some h else c.headDesc
  let desc : Desc := ⟨addressControl a head i, a.len, a.cyclic, a.direction, owner⟩
  let c := (c.setDesc h desc).link prev h
  { c with
    fresh := h + 1, headDesc := head, pending := c.pending ++ [h]
    sgReads := if a.sg.isSome then c.sgReads ++ [i] else c.sgReads }

/-- The loop from element `i` on, with `k` elements to go. `alloc i` says whether `kzalloc` and
`dma_alloc_coherent` succeed for element `i`; the result is 0 or `-ENOMEM`. -/
def initLoop (a : InitArgs) (alloc : ℕ → Bool × Bool) (owner : ℕ) :
    ℕ → ℕ → Option ℕ → Chan → Chan × Bool
  | 0, _, _, c => (c, true)
  | k + 1, i, prev, c =>
    if (alloc i).1 && (alloc i).2 then
      initLoop a alloc owner k (i + 1) (some c.fresh) (initElem a owner i prev c)
    else (c.freeHwDescChain, false)

/-- `efx_dma_hw_desc_init`. -/
def hwDescInit (c : Chan) (a : InitArgs) (alloc : ℕ → Bool × Bool) : Chan × Bool :=
  initLoop a alloc c.preps a.len 0 none { c with preps := c.preps + 1 }

/-- What the prep functions do once the chain is built: `vchan_tx_prep` on the head. -/
def finishPrep (r : Chan × Bool) : Chan × Option ℕ :=
  if r.2 then
    match r.1.headDesc with
    | some h => ({ r.1 with active := r.1.active ++ [(r.1.mem h).owner] }, some h)
    | none => (r.1, none)
  else (r.1, none)

/-- `efx_dma_prep_slave_sg`; `reuse` is the flag `DMA_CTRL_REUSE`. -/
def prepSlaveSg (c : Chan) (sg : ℕ → SgEntry) (sgLen : ℕ) (direction : Direction) (reuse : Bool)
    (alloc : ℕ → Bool × Bool) : Chan × Option ℕ :=
  if sgLen = 0 then (c, none)
  else
    finishPrep (hwDescInit c
      { srcAddr := 0, dstAddr := 0, sg := some sg, len := if reuse then sgLen + 1 - 1 else sgLen + 1
        periodLen := 0, direction := direction, cyclic := reuse } alloc)

/-- `efx_dma_prep_cyclic`. -/
def prepCyclic (c : Chan) (bufAddr bufLen periodLen : ℕ) (direction : Direction)
    (alloc : ℕ → Bool × Bool) : Chan × Option ℕ :=
  if bufAddr = 0 ∨ bufLen = 0 ∨ periodLen > bufLen then (c, none)
  else
    finishPrep (hwDescInit c
      { srcAddr := bufAddr, dstAddr := 0, sg := none, len := bufLen / periodLen
        periodLen := periodLen, direction := direction, cyclic := true } alloc)

/-- `efx_dma_prep_dma_memcpy`: the length of the copy is handed over as the number of
descriptors, and the number of segments as the period. -/
def prepDmaMemcpy (c : Chan) (dstAddr srcAddr len : ℕ) (alloc : ℕ → Bool × Bool) :
    Chan × Option ℕ :=
  if dstAddr = 0 ∨ srcAddr = 0 ∨ len = 0 then (c, none)
  else
    let segments := (if len < PAGE_SIZE then 1 else len / PAGE_SIZE) + 1
    finishPrep (hwDescInit c
      { srcAddr := srcAddr, dstAddr := dstAddr, sg := none, len := len, periodLen := segments
        direction := .memToMem, cyclic := false } alloc)

/-- `efx_dma_desc_free`, as virt-dma calls it for the completed transfer `t`. -/
def descFree (c : Chan) (t : ℕ) : Chan :=
  { c.freeHwDescChain with active := c.active.erase t }

/-- `efx_dma_terminate_all`, for the descriptors. -/
def terminateAll (c : Chan) : Chan :=
  let c := if c.headDesc.isSome then c.freeHwDescChain else c
  { c with headDesc := none, active := [] }

/-! ## What the builder builds -/

/-- Descriptor `j` of a chain that starts at handle `base` and has `i` descriptors so far. -/
def built (a : InitArgs) (owner base i j : ℕ) : Desc :=
  { hw :=
      { addressControl a (some base) j with
        next := if j + 1 < i then some (base + j + 1) else (addressControl a (some base) j).next }
    segments := a.len, cyclic := a.cyclic, direction := a.direction, owner := owner }

/-- `c` is `c₀` with the first `i` descriptors of a chain. -/
structure Partial (a : InitArgs) (owner : ℕ) (c₀ : Chan) (i : ℕ) (c : Chan) : Prop where
  fresh : c.fresh = c₀.fresh + i
  pending : c.pending = c₀.pending ++ List.range' c₀.fresh i
  headDesc : c.headDesc = if i = 0 then c₀.headDesc else some c₀.fresh
  freed : c.freed = c₀.freed
  preps : c.preps = c₀.preps
  active : c.active = c₀.active
  sgReads : c.sgReads = c₀.sgReads ++ if a.sg.isSome then List.range i else []
  old : ∀ h < c₀.fresh, c.mem h = c₀.mem h
  new : ∀ j < i, c.mem (c₀.fresh + j) = built a owner c₀.fresh i j

variable {a : InitArgs} {owner i : ℕ} {c₀ c : Chan} {alloc : ℕ → Bool × Bool}

theorem partial_zero (a : InitArgs) (owner : ℕ) (c₀ : Chan) : Partial a owner c₀ 0 c₀ := by
  refine ⟨rfl, by simp, rfl, rfl, rfl, rfl, by simp, fun _ _ => rfl, ?_⟩
  intro j hj
  exact absurd hj (Nat.not_lt_zero j)

theorem setDesc_self {h : ℕ} {d : Desc} : (c.setDesc h d).mem h = d := by
  unfold Chan.setDesc
  simp only [if_true]

theorem setDesc_other {h k : ℕ} {d : Desc} (hne : k ≠ h) : (c.setDesc h d).mem k = c.mem k := by
  unfold Chan.setDesc
  simp only
  rw [if_neg hne]

/-- Linking changes the descriptor before only. -/
theorem link_other {prev : Option ℕ} {h k : ℕ} (hne : prev ≠ some k) :
    (c.link prev h).mem k = c.mem k := by
  unfold Chan.link
  cases prev with
  | none => rfl
  | some p => exact setDesc_other fun hk => hne (by rw [hk])

theorem link_self {p h : ℕ} :
    (c.link (some p) h).mem p = { c.mem p with hw := { (c.mem p).hw with next := some h } } :=
  setDesc_self

/-- **An element of the loop** appends a descriptor and links the one before to it. -/
theorem initElem_partial (h : Partial a owner c₀ i c) :
    Partial a owner c₀ (i + 1)
      (initElem a owner i (if i = 0 then none else some (c₀.fresh + i - 1)) c) := by
  obtain ⟨hfresh, hpending, hhead, hfreed, hpreps, hactive, hreads, hold, hnew⟩ := h
  have hhead' : (if i = 0 then some c.fresh else c.headDesc) = some c₀.fresh := by
    split
    · rename_i hi
      rw [hfresh, hi, Nat.add_zero]
    · rename_i hi
      rw [hhead, if_neg hi]
  have hlinked : ∀ (d : Chan) (p : Option ℕ) (k : ℕ), (d.link p k).freed = d.freed ∧
      (d.link p k).preps = d.preps ∧ (d.link p k).active = d.active ∧
      (d.link p k).pending = d.pending ∧ (d.link p k).sgReads = d.sgReads := by
    intro d p k
    unfold Chan.link
    cases p <;> exact ⟨rfl, rfl, rfl, rfl, rfl⟩
  obtain ⟨g1, g2, g3, g4, g5⟩ := hlinked
    (c.setDesc c.fresh ⟨addressControl a (some c₀.fresh) i, a.len, a.cyclic, a.direction, owner⟩)
    (if i = 0 then none else some (c₀.fresh + i - 1)) c.fresh
  unfold initElem
  simp only [hhead']
  -- only the new descriptor and the link of the one before are written
  have hbefore : ∀ k, k ≠ c₀.fresh + i → (i = 0 ∨ k ≠ c₀.fresh + i - 1) →
      ((c.setDesc c.fresh
        ⟨addressControl a (some c₀.fresh) i, a.len, a.cyclic, a.direction, owner⟩).link
          (if i = 0 then none else some (c₀.fresh + i - 1)) c.fresh).mem k = c.mem k := by
    intro k hk hprev
    rw [link_other, setDesc_other (by omega)]
    split
    · simp
    · rename_i hi
      intro hsome
      have := Option.some.inj hsome
      omega
  refine ⟨by simp only; omega, ?_, by simp, g1.trans hfreed, g2.trans hpreps, g3.trans hactive, ?_,
    fun k hk => ?_, fun j hj => ?_⟩
  · simp only
    rw [g4, List.range'_1_concat, ← List.append_assoc, ← hpending, ← hfresh]
    rfl
  · simp only
    rw [g5]
    split
    · rename_i hsg
      rw [if_pos hsg] at hreads
      rw [List.range_succ, ← List.append_assoc, ← hreads]
      rfl
    · rename_i hsg
      rw [if_neg hsg] at hreads
      exact hreads
  · simp only
    rw [hbefore k (by omega) (by omega)]
    exact hold k hk
  · simp only
    rcases Nat.lt_trichotomy (j + 1) i with hlt | heq | hgt
    · -- earlier descriptors keep their link
      rw [hbefore _ (by omega) (by omega), hnew j (by omega)]
      unfold built
      rw [if_pos (by omega), if_pos (by omega)]
    · -- the one before is linked to the new one
      have hi : i ≠ 0 := by omega
      rw [if_neg hi, show c₀.fresh + i - 1 = c₀.fresh + j by omega, link_self,
        setDesc_other (by omega), hnew j (by omega)]
      unfold built
      rw [if_neg (by omega : ¬j + 1 < i), if_pos (by omega : j + 1 < i + 1), hfresh, ← heq]
      rfl
    · obtain rfl : j = i := by omega
      rw [← hfresh, link_other, setDesc_self]
      · unfold built
        rw [if_neg (by omega)]
      · split
        · simp
        · rename_i hi
          intro hsome
          have := Option.some.inj hsome
          omega

/-- **The loop** builds the chain, or frees every descriptor of the channel. -/
theorem initLoop_spec (alloc : ℕ → Bool × Bool) (k : ℕ) (h : Partial a owner c₀ i c) :
    (∃ c', initLoop a alloc owner k i (if i = 0 then none else some (c₀.fresh + i - 1)) c = (c', true) ∧
      Partial a owner c₀ (i + k) c') ∨
    ∃ j c', initLoop a alloc owner k i (if i = 0 then none else some (c₀.fresh + i - 1)) c =
      (c'.freeHwDescChain, false) ∧ Partial a owner c₀ j c' ∧ j < i + k ∧ alloc j ≠ (true, true) := by
  induction k generalizing i c with
  | zero => exact Or.inl ⟨c, rfl, h⟩
  | succ k ih =>
    unfold initLoop
    split
    · have hnext := initElem_partial h
      have hprev : some c.fresh = if i + 1 = 0 then none else some (c₀.fresh + (i + 1) - 1) := by
        rw [if_neg (Nat.succ_ne_zero i), h.fresh]
        rfl
      rw [hprev, show i + (k + 1) = i + 1 + k by omega]
      exact ih hnext
    · rename_i hfail
      refine Or.inr ⟨i, c, rfl, h, by omega, fun halloc => hfail ?_⟩
      rw [halloc]
      rfl

/-- A call has been made. -/
def Chan.called (c : Chan) : Chan := { c with preps := c.preps + 1 }

theorem hwDescInit_spec (c : Chan) (a : InitArgs) (alloc : ℕ → Bool × Bool) :
    (∃ c', hwDescInit c a alloc = (c', true) ∧ Partial a c.preps c.called a.len c') ∨
    ∃ j c', hwDescInit c a alloc = (c'.freeHwDescChain, false) ∧ Partial a c.preps c.called j c' ∧
      j < a.len ∧ alloc j ≠ (true, true) := by
  have hloop := initLoop_spec alloc a.len (partial_zero a c.preps c.called)
  rw [Nat.zero_add] at hloop
  exact hloop

/-- **A prep function that succeeds** has built its whole chain behind the head. -/
theorem finishPrep_some {c' : Chan} {h : ℕ} (hlen : 0 < a.len)
    (hprep : finishPrep (hwDescInit c a alloc) = (c', some h)) :
    h = c.fresh ∧ ∃ c₁, Partial a c.preps c.called a.len c₁ ∧
      c' = { c₁ with active := c.active ++ [c.preps] } := by
  rcases hwDescInit_spec c a alloc with ⟨c₁, hinit, hp⟩ | ⟨j, c₁, hinit, -⟩
  · rw [hinit] at hprep
    unfold finishPrep at hprep
    have hhead := hp.headDesc
    rw [if_neg (by omega)] at hhead
    simp only [if_true, hhead] at hprep
    obtain ⟨hc, hh⟩ := Prod.mk.inj hprep
    have hfresh : c.called.fresh = c.fresh := rfl
    have howner : (c₁.mem c.called.fresh).owner = c.preps := by
      have hnew := hp.new 0 hlen
      rw [Nat.add_zero] at hnew
      rw [hnew]
      rfl
    refine ⟨(Option.some.inj hh).symm, c₁, hp, ?_⟩
    rw [← hc, howner, hp.active, hhead]
    rfl
  · rw [hinit] at hprep
    unfold finishPrep at hprep
    simp only [Bool.false_eq_true, if_false] at hprep
    exact absurd (Prod.mk.inj hprep).2 (by simp)

/-! ## Walking the chain -/

/-- The descriptor `i` steps along `next` from `h`. -/
def Chan.walk (c : Chan) (h : ℕ) : ℕ → Option ℕ
  | 0 => some h
  | i + 1 => (c.walk h i).bind fun k => (c.mem k).hw.next

theorem walk_congr {c' : Chan} (hmem : c'.mem = c.mem) (h i : ℕ) : c'.walk h i = c.walk h i := by
  induction i with
  | zero => rfl
  | succ i ih =>
    unfold Chan.walk
    rw [ih, hmem]

/-- The chain runs through the handles in order. -/
theorem walk_built {base : ℕ} (hnew : ∀ j < a.len, c.mem (base + j) = built a owner base a.len j)
    {i : ℕ} (hi : i < a.len) : c.walk base i = some (base + i) := by
  induction i with
  | zero => rfl
  | succ i ih =>
    unfold Chan.walk
    rw [ih (by omega), Option.bind_some, hnew i (by omega)]
    unfold built
    rw [if_pos hi]
    rfl

/-- A cyclic chain leads back to its head. -/
theorem walk_closed {base : ℕ} (hcyclic : a.cyclic = true) (hpos : 0 < a.len)
    (hnew : ∀ j < a.len, c.mem (base + j) = built a owner base a.len j) : c.walk base a.len = some base := by
  obtain ⟨m, hm⟩ : ∃ m, a.len = m + 1 := ⟨a.len - 1, by omega⟩
  have hlast : (m + 1 == a.len && a.cyclic) = true := by
    rw [hcyclic, hm]
    simp
  rw [hm]
  unfold Chan.walk
  rw [walk_built hnew (by omega), Option.bind_some, hnew m (by omega)]
  unfold built addressControl
  simp only
  rw [hlast, if_neg (by omega : ¬m + 1 < a.len), if_pos rfl]

end Br2Efinix.EfxDma
