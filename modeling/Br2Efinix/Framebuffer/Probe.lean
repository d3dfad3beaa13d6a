import Br2Efinix.EfxDma.Schedule
import Br2Efinix.Framebuffer.Mmap

/-!
# Probe and removal of the frame buffer

`efxfb_probe` and `efxfb_remove` with their two ways to set the transfer up, for all that the kernel may answer, on
the channel of the DMA driver that reads the display's memory.

* `initKmalloc_spec`, `initVmalloc_spec`: what the two set up, and what they leave when a step fails.
* `nothing_left_iff`: **a probe that fails leaves nothing behind** exactly when its last step is one that it cleans up
  after, and what it passes over has not failed; a removal after a successful probe never stops the transfer first.
-/

namespace Br2Efinix.Framebuffer

open EfxDma (Sched SgEntry DmaAct prepCall)

def EIO : ℤ := 5
def ENOMEM : ℤ := 12
def ENODEV : ℤ := 19
def EINVAL : ℤ := 22

def EFX_MAX_FB_SIZE : ℕ := 4 * 1024 * 1024

/-! ## Resources -/

inductive Resource
  | fbInfo
  | displayBuf
  | pages
  | sg
  | mapping
  | chan
  | registration
  deriving DecidableEq, Repr

/-- Of these, the memory that a transfer reads. -/
def Resource.isRead : Resource → Bool
  | displayBuf => true
  | mapping => true
  | _ => false

/-- What can be wrong with a release. -/
inductive Fault
  | notHeld (r : Resource)
  | beingRead (r : Resource)
  deriving DecidableEq, Repr

/-- What the driver holds, and its DMA channel. Only observed are `issued`, the transfer that the driver has issued,
and the faults. -/
structure World where
  held : List Resource
  dma : Sched
  issued : Option ℕ
  faults : List Fault

namespace World

def start (dma : Sched) : World := ⟨[], dma, none, []⟩

/-- The channel executes what the driver has issued. -/
def running (w : World) : Bool := w.issued.any fun t => w.dma.engine = .running t

def acquire (w : World) (r : Resource) : World := { w with held := r :: w.held }

def release (w : World) (r : Resource) : World :=
  { w with
    held := w.held.erase r
    faults := w.faults ++ (if r ∈ w.held then [] else [.notHeld r]) ++
      (if r.isRead && w.running then [.beingRead r] else []) }

/-- `dma_release_channel`: the DMA driver's `efx_dma_free_chan_resources` is empty. -/
def releaseChannel (w : World) : World := w.release .chan

/-- A prep function of the DMA driver, with the transfer that it returns, or NULL. -/
def prep (w : World) (p : DmaAct) : Option (Option ℕ × World) :=
  match prepCall w.dma.chan p, w.dma.prep p false with
  | some r, some dma => some (r.2.map fun _ => w.dma.chan.preps, { w with dma := dma })
  | _, _ => none

/-- `dmaengine_submit`, where virt-dma gives out a valid cookie. -/
def submit (w : World) (t : ℕ) : World :=
  match w.dma.submit t with
  | some dma => { w with dma := dma }
  | none => w

/-- `dma_async_issue_pending`. -/
def issuePending (w : World) (t : ℕ) : World := { w with dma := w.dma.issuePending, issued := some t }

end World

/-! ## The driver -/

/-- An error code, as the kernel's functions return it. -/
structure Errno where
  ret : ℤ
  neg : ret < 0

/-- A pointer, NULL, or an error in the place of a pointer. -/
inductive Ptr
  | null
  | error (e : Errno)
  | valid

def Ptr.ofAnswer : Except Errno Unit → Ptr
  | .error e => error e
  | .ok _ => valid

/-- `struct efxfb_params`. -/
structure Params where
  width : BitVec 32
  height : BitVec 32
  stride : BitVec 32
  deriving DecidableEq, Repr

/-- What `struct efxfb_par` holds of the buffer and its transfer. -/
structure Par where
  base : Ptr
  displayBuf : Option ℕ
  fbSize : BitVec 32
  fbTransferMode : ℕ
  chan : Ptr
  dmaDisplayBuffIo : ℕ
  nents : ℕ
  sg : Ptr
  pages : Ptr
  segments : ℕ

/-- `devm_kzalloc` -/
def Par.zero : Par := ⟨.null, none, 0#32, 0, .null, 0, 0, .null, .null, 0⟩

/-- What the kernel answers in one probe. The local `params` of `efxfb_probe` is not initialised: `stack` is what it
holds before. -/
structure Kernel where
  arch : Arch
  ofNode : Bool
  property : String → Except Errno (BitVec 32)
  stack : Params
  kzalloc : Bool
  resource : Bool
  ioremap : Except Errno Unit
  framebufferAlloc : Bool
  dmaAllocCoherent : Option ℕ
  vmalloc : Option ℕ
  isVmallocAddr : ℕ → Bool
  kcallocPages : Bool
  kcallocSg : Bool
  vmallocToPage : ℕ → Bool
  dmaMapSg : ℕ
  mapped : ℕ → SgEntry
  requestChan : Except Errno Unit
  descAlloc : ℕ → Bool × Bool
  cookie : ℤ
  registerFramebuffer : ℤ

namespace Kernel

variable (k : Kernel)

/-- `efxfb_parse_dt`. -/
def parseDt (params : Params) : Params × ℤ :=
  match k.property "width" with
  | .error e => (params, e.ret)
  | .ok width =>
    let params := { params with width := width }
    match k.property "height" with
    | .error e => (params, e.ret)
    | .ok height =>
      let params := { params with height := height }
      match k.property "stride" with
      | .error e => (params, e.ret)
      | .ok stride => ({ params with stride := stride }, 0)

/-- The labels of `efxfb_init_scatterlist_vmalloc`. -/
def errFreePages (ret : ℤ) (par : Par) (w : World) : ℤ × Par × World :=
  (ret, { par with pages := .null }, w.release .pages)

def errFreeSg (ret : ℤ) (par : Par) (w : World) : ℤ × Par × World :=
  errFreePages ret { par with sg := .null } (w.release .sg)

/-- `efxfb_init_scatterlist_vmalloc`. -/
def initScatterlistVmalloc (par : Par) (bufAddr : ℕ) (w : World) : ℤ × Par × World :=
  if k.isVmallocAddr bufAddr = false ∨ bufAddr &&& (PAGE_SIZE - 1) ≠ 0 then (-EINVAL, par, w)
  else if k.kcallocPages = false then (-ENOMEM, par, w)
  else
    let par := { par with pages := .valid }
    let w := w.acquire .pages
    if k.kcallocSg = false then errFreePages (-ENOMEM) par w
    else
      let par := { par with sg := .valid }
      let w := w.acquire .sg
      if (List.range par.segments).all (fun i => k.vmallocToPage (bufAddr + i * PAGE_SIZE)) = false then
        errFreeSg (-ENOMEM) par w
      else
        let par := { par with nents := k.dmaMapSg }
        if par.nents ≤ 0 then
          -- a `size_t`: what would unmap here is never reached
          errFreeSg (- EIO) par w
        else (0, par, w.acquire .mapping)

/-- The labels of `efxfb_dma_init_vmalloc_sg_cyclic`. -/
def errUnmapSg (ret : ℤ) (par : Par) (w : World) : ℤ × Par × World :=
  (ret, { par with sg := .null, pages := .null, displayBuf := none },
    (((w.release .mapping).release .sg).release .pages).release .displayBuf)

def errReleaseChan (ret : ℤ) (par : Par) (w : World) : ℤ × Par × World :=
  errUnmapSg ret { par with chan := .null } w.releaseChannel

/-- `efxfb_dma_init_vmalloc_sg_cyclic` from the request of the channel on; `none` is an oops. -/
def dmaInitVmallocChan (par : Par) (w : World) : Option (ℤ × Par × World) :=
  let par := { par with chan := Ptr.ofAnswer k.requestChan }
  match par.chan with
  -- the error is tested for as NULL, and `PTR_ERR` of that is 0
  | .null => some (errUnmapSg 0 par w)
  | .error _ => none
  | .valid =>
    match (w.acquire .chan).prep (.prepSlaveSg k.mapped par.nents .memToDev true k.descAlloc) with
    | none => none
    | some (none, w) => some (errReleaseChan (- EIO) par w)
    | some (some tx, w) =>
      if k.cookie < 0 then some (errReleaseChan (- EIO) par w)
      else some (0, par, (w.submit tx).issuePending tx)

/-- `efxfb_dma_init_vmalloc_sg_cyclic`. -/
def dmaInitVmalloc (par : Par) (w : World) : Option (ℤ × Par × World) :=
  match k.vmalloc with
  | none => some (-ENOMEM, par, w)
  | some bufAddr =>
    let w := w.acquire .displayBuf
    let par :=
      { par with
        displayBuf := some bufAddr
        segments := (par.fbSize.toNat + (PAGE_SIZE - 1)) % 2 ^ k.arch.bits / PAGE_SIZE }
    let (ret, par, w) := k.initScatterlistVmalloc par bufAddr w
    if ret ≠ 0 then some (ret, par, w) else k.dmaInitVmallocChan par w

/-- The labels of `efxfb_dma_init_kmalloc_sg_cyclic`. -/
def errFreeBuf (ret : ℤ) (par : Par) (w : World) : ℤ × Par × World :=
  (ret, { par with displayBuf := none }, w.release .displayBuf)

def errPrep (ret : ℤ) (par : Par) (w : World) : ℤ × Par × World :=
  errFreeBuf ret { par with chan := .null } w.releaseChannel

/-- `efxfb_dma_init_kmalloc_sg_cyclic`, where `period_len` is the stride. -/
def dmaInitKmalloc (params : Params) (par : Par) (w : World) : Option (ℤ × Par × World) :=
  match k.dmaAllocCoherent with
  | none => some (-ENOMEM, par, w)
  | some dmaAddr =>
    let w := w.acquire .displayBuf
    let par := { par with displayBuf := some dmaAddr, dmaDisplayBuffIo := dmaAddr }
    match k.requestChan with
    | .error e => some (errFreeBuf e.ret par w)
    | .ok _ =>
      let par := { par with chan := .valid }
      match (w.acquire .chan).prep
          (.prepCyclic par.dmaDisplayBuffIo par.fbSize.toNat params.stride.toNat .memToDev k.descAlloc) with
      | none => none
      | some (none, w) => some (errPrep (-ENOMEM) par w)
      | some (some tx, w) =>
        if k.cookie < 0 then some (errPrep (- EIO) par w)
        else some (0, par, (w.submit tx).issuePending tx)

/-- The label of `efxfb_probe`. -/
def errorFbRelease (ret : ℤ) (par : Par) (w : World) : ℤ × Par × World := (ret, par, w.release .fbInfo)

/-- The choice of the transfer mode in `efxfb_probe`. -/
def init (params : Params) (par : Par) (w : World) : Option (ℤ × Par × World) :=
  if par.fbSize.toNat < EFX_MAX_FB_SIZE then k.dmaInitKmalloc params { par with fbTransferMode := 1 } w
  else k.dmaInitVmalloc { par with fbTransferMode := 2 } w

/-- `efxfb_probe` after the reset of the display. -/
def probeRest (params : Params) (par : Par) (w : World) : Option (ℤ × Par × World) :=
  match k.init params par w with
  | none => none
  | some (ret, par, w) =>
    if ret < 0 then some (errorFbRelease ret par w)
    else if k.registerFramebuffer < 0 then some (errorFbRelease k.registerFramebuffer par w)
    else some (0, par, w.acquire .registration)

/-- `efxfb_probe`. -/
def efxfbProbe (w : World) : Option (ℤ × Par × World) :=
  if k.ofNode = false then some (-ENODEV, .zero, w)
  else
    -- what `efxfb_parse_dt` returns is not looked at
    let params := (k.parseDt k.stack).1
    if k.kzalloc = false then some (-ENOMEM, .zero, w)
    else if k.resource = false then some (-EINVAL, .zero, w)
    else
      let par := { Par.zero with base := Ptr.ofAnswer k.ioremap }
      if k.framebufferAlloc = false then some (-ENOMEM, par, w)
      else
        let w := w.acquire .fbInfo
        let par := { par with fbSize := params.stride * params.height }
        if par.fbSize = 0 then some (errorFbRelease (-EINVAL) par w)
        else
          match par.base with
          | .valid => k.probeRest params par w
          -- the reset writes to an address that is not mapped
          | _ => none

end Kernel

/-- `efxfb_remove`. -/
def efxfbRemove (par : Par) (w : World) : World :=
  let w := match par.chan with
    | .null => w
    | _ => w.releaseChannel
  let w :=
    if par.fbTransferMode = 1 then w.release .displayBuf
    else if par.fbTransferMode = 2 then (((w.release .mapping).release .sg).release .pages).release .displayBuf
    else w
  (w.release .registration).release .fbInfo

/-! ## The property -/

/-- Where a probe can fail. -/
inductive Step
  | node
  | deviceTree
  | par
  | resource
  | ioremap
  | fbInfo
  | size
  | buffer
  | scatterlist
  | channel
  | prepare
  | submit
  | register
  deriving DecidableEq, Repr

/-- Before the first access to the registers. -/
def Step.early : Step → Bool
  | .node => true
  | .par => true
  | .resource => true
  | .fbInfo => true
  | .size => true
  | _ => false

namespace Kernel

variable (k : Kernel)

/-- The parameters that the probe works with. -/
def params : Params := (k.parseDt k.stack).1

def fbSize : BitVec 32 := k.params.stride * k.params.height

/-- The buffer comes from `vmalloc`. -/
def large : Bool := EFX_MAX_FB_SIZE ≤ k.fbSize.toNat

def segments : ℕ := (k.fbSize.toNat + (PAGE_SIZE - 1)) % 2 ^ k.arch.bits / PAGE_SIZE

/-- What the driver asks the DMA driver for. -/
def prepAct : DmaAct :=
  if k.large then .prepSlaveSg k.mapped k.dmaMapSg .memToDev true k.descAlloc
  else .prepCyclic (k.dmaAllocCoherent.getD 0) k.fbSize.toNat k.params.stride.toNat .memToDev k.descAlloc

/-- The step succeeds when the probe comes to it, with the DMA driver in the state `dma`. -/
def ok (dma : Sched) : Step → Bool
  | .node => k.ofNode
  | .deviceTree => (k.parseDt k.stack).2 = 0
  | .par => k.kzalloc
  | .resource => k.resource
  | .ioremap => k.ioremap.isOk
  | .fbInfo => k.framebufferAlloc
  | .size => k.fbSize ≠ 0
  | .buffer => if k.large then k.vmalloc.isSome else k.dmaAllocCoherent.isSome
  | .scatterlist =>
    let bufAddr := k.vmalloc.getD 0
    k.isVmallocAddr bufAddr && bufAddr &&& (PAGE_SIZE - 1) == 0 && k.kcallocPages && k.kcallocSg &&
      (List.range k.segments).all (fun i => k.vmallocToPage (bufAddr + i * PAGE_SIZE)) && k.dmaMapSg != 0
  | .channel => k.requestChan.isOk
  | .prepare => (prepCall dma.chan k.prepAct).any fun r => r.2.isSome
  | .submit => 0 ≤ k.cookie
  | .register => 0 ≤ k.registerFramebuffer

/-- The steps of the probe in order. -/
def steps : List Step :=
  [Step.node, .deviceTree, .par, .resource, .ioremap, .fbInfo, .size, .buffer] ++
    (if k.large then [Step.scatterlist] else []) ++ [Step.channel, .prepare, .submit, .register]

/-- The probe has returned an error with everything released that it had acquired, and no transfer goes on. -/
def Clean (dma : Sched) : Prop :=
  ∃ ret par w, k.efxfbProbe (.start dma) = some (ret, par, w) ∧ ret < 0 ∧
    w.held = [] ∧ w.running = false ∧ w.faults = []

/-- If a step fails, nothing is left behind. -/
def ProbeRight (dma : Sched) : Prop := (∃ s ∈ k.steps, k.ok dma s = false) → k.Clean dma

/-- After a probe that has succeeded, the removal releases no memory that the transfer reads. -/
def RemoveRight (dma : Sched) : Prop :=
  ∀ par w, k.efxfbProbe (.start dma) = some (0, par, w) → ∀ r, .beingRead r ∉ (efxfbRemove par w).faults

/-- The first step that fails, of those that the driver stops at. -/
def stop (dma : Sched) : Option Step :=
  (k.steps.filter fun s => s != .deviceTree && s != .ioremap).find? fun s => !k.ok dma s

/-- The driver cleans up after the step. -/
def handles : Step → Bool
  | .scatterlist => false
  | .channel => !k.large
  | .register => false
  | _ => true

/-- The probe stops at a step that it cleans up after, before the registers if they are not mapped; or it does not
stop, and has read the device tree and mapped the registers. -/
def Handled (dma : Sched) : Prop :=
  match k.stop dma with
  | some s => k.handles s = true ∧ (k.ok dma .ioremap = true ∨ s.early = true)
  | none => k.ok dma .deviceTree = true ∧ k.ok dma .ioremap = true

end Kernel

/-! ## Worlds in which nothing has been issued -/

/-- `held` is held, nothing has been issued, and no release was wrong. -/
def World.idle (held : List Resource) (dma : Sched) : World := ⟨held, dma, none, []⟩

/-- The driver's transfer goes on, and no release was wrong. -/
structure Streams (w : World) (held : List Resource) : Prop where
  held_eq : w.held = held
  running : w.running = true
  faults : w.faults = []

/-- The function has returned `ret`, and `w` is left. -/
def Returns (ret : ℤ) (w : World) (o : Option (ℤ × Par × World)) : Prop := ∃ par, o = some (ret, par, w)

variable {k : Kernel} {dma : Sched} {par : Par} {held : List Resource} {r : Resource}

@[simp] theorem idle_acquire : (World.idle held dma).acquire r = .idle (r :: held) dma := rfl

/-- What has been acquired last is released without a fault. -/
@[simp] theorem idle_release : (World.idle (r :: held) dma).release r = .idle held dma := by
  simp [World.release, World.idle, World.running]

@[simp] theorem idle_releaseChannel : (World.idle (.chan :: held) dma).releaseChannel = .idle held dma := idle_release

/-! ## The DMA driver -/

/-- The head of a chain that has been built belongs to the call that has built it. -/
theorem finishPrep_owner {c c' : EfxDma.Chan} {a : EfxDma.InitArgs} {alloc : ℕ → Bool × Bool} {h : ℕ}
    (hlen : 0 < a.len) (hprep : EfxDma.finishPrep (EfxDma.hwDescInit c a alloc) = (c', some h)) :
    c'.headDesc.map (fun h => (c'.mem h).owner) = some c.preps := by
  obtain ⟨-, c₁, hp, rfl⟩ := EfxDma.finishPrep_some hlen hprep
  have hhead := hp.headDesc
  rw [if_neg (by omega)] at hhead
  have hnew := hp.new 0 hlen
  rw [Nat.add_zero] at hnew
  simp only [hhead, Option.map_some, hnew]
  rfl

/-- A transfer that the driver is given has the head of the channel's chain. -/
theorem prepAct_owner {c c' : EfxDma.Chan} {h : ℕ} (hprep : prepCall c k.prepAct = some (c', some h)) :
    c'.headDesc.map (fun h => (c'.mem h).owner) = some c.preps := by
  unfold Kernel.prepAct at hprep
  split at hprep
  · have hcall := Option.some.inj hprep
    unfold EfxDma.prepSlaveSg at hcall
    split at hcall
    · exact absurd (congrArg Prod.snd hcall) (by simp)
    · refine finishPrep_owner ?_ hcall
      simp only [if_true]
      omega
  · unfold prepCall at hprep
    simp only at hprep
    split at hprep
    · exact absurd hprep (by simp)
    · rename_i hperiod
      have hcall := Option.some.inj hprep
      unfold EfxDma.prepCyclic at hcall
      split at hcall
      · exact absurd (congrArg Prod.snd hcall) (by simp)
      · rename_i hok
        exact finishPrep_owner (Nat.div_pos (by omega) (Nat.pos_of_ne_zero hperiod)) hcall

theorem stride_ne (hsize : k.ok dma .size = true) : k.params.stride.toNat ≠ 0 := by
  intro hzero
  have hstride : k.params.stride = 0#32 := BitVec.eq_of_toNat_eq hzero
  have hfb : k.fbSize ≠ 0 := by simpa [Kernel.ok] using hsize
  apply hfb
  unfold Kernel.fbSize
  rw [hstride, BitVec.zero_mul]
  rfl

/-- The DMA driver does not divide by zero. -/
theorem prepCall_returns (c : EfxDma.Chan) (hsize : k.ok dma .size = true) : ∃ r, prepCall c k.prepAct = some r := by
  unfold Kernel.prepAct
  split
  · exact ⟨_, rfl⟩
  · unfold prepCall
    simp only
    rw [if_neg (stride_ne hsize)]
    exact ⟨_, rfl⟩

theorem prep_null (held : List Resource) (hsize : k.ok dma .size = true) (hprep : k.ok dma .prepare = false) :
    ∃ dma', (World.idle held dma).prep k.prepAct = some (none, .idle held dma') := by
  obtain ⟨⟨c, tx⟩, hcall⟩ := prepCall_returns dma.chan hsize
  have hnull : tx = none := by simpa [Kernel.ok, hcall] using hprep
  subst hnull
  refine ⟨{ dma with chan := c }, ?_⟩
  simp [World.prep, World.idle, Sched.prep, hcall]

/-- What is prepared, submitted and issued is executed by the channel. -/
theorem prep_starts (held : List Resource) (hprep : k.ok dma .prepare = true) :
    ∃ tx dma', (World.idle held dma).prep k.prepAct = some (some tx, .idle held dma') ∧
      Streams (((World.idle held dma').submit tx).issuePending tx) held := by
  rcases hcall : prepCall dma.chan k.prepAct with _ | ⟨c, _ | h⟩
  · simp [Kernel.ok, hcall] at hprep
  · simp [Kernel.ok, hcall] at hprep
  · have howner := prepAct_owner hcall
    refine ⟨dma.chan.preps, { dma with chan := c, allocated := dma.allocated ++ [dma.chan.preps] }, ?_, ?_⟩
    · simp [World.prep, World.idle, Sched.prep, hcall]
    constructor
    · unfold World.submit
      split <;> rfl
    · simp [World.running, World.issuePending, World.submit, World.idle, Sched.submit, Sched.issuePending,
        Sched.startTransfer, Sched.headOwner, howner]
    · unfold World.submit
      split <;> rfl

/-- Prepare and submit, as both ways do them: the transfer is started, or the label `fail` releases what it has to. -/
theorem issue_spec {before held : List Resource} {fail : ℤ → World → ℤ × Par × World} {err : ℤ}
    {o : Option (ℤ × Par × World)}
    (ho : o = match (World.idle before dma).prep k.prepAct with
      | none => none
      | some (none, w) => some (fail err w)
      | some (some tx, w) =>
        if k.cookie < 0 then some (fail (- EIO) w) else some (0, par, (w.submit tx).issuePending tx))
    (hsize : k.ok dma .size = true) (herr : err < 0)
    (hfail : ∀ ret dma', Returns ret (.idle held dma') (some (fail ret (.idle before dma')))) :
    (∃ w, o = some (0, par, w) ∧ Streams w before ∧ ∀ s ∈ [Step.prepare, .submit], k.ok dma s = true) ∨
    ((∃ ret dma', Returns ret (.idle held dma') o ∧ ret < 0) ∧ ∃ s ∈ [Step.prepare, .submit], k.ok dma s = false) := by
  by_cases hprep : k.ok dma .prepare = true
  · obtain ⟨tx, dma', hcall, hstreams⟩ := prep_starts before hprep
    rw [hcall] at ho
    by_cases hsubmit : k.ok dma .submit = true
    · have hcookie : ¬k.cookie < 0 := by simpa [Kernel.ok] using hsubmit
      simp only [if_neg hcookie] at ho
      exact .inl ⟨_, ho, hstreams, by simp [hprep, hsubmit]⟩
    · have hcookie : k.cookie < 0 := by simpa [Kernel.ok] using hsubmit
      simp only [if_pos hcookie] at ho
      exact .inr ⟨⟨- EIO, dma', ho ▸ hfail (- EIO) dma', by decide⟩, .submit, by simp, Bool.not_eq_true _ ▸ hsubmit⟩
  · rw [Bool.not_eq_true] at hprep
    obtain ⟨dma', hcall⟩ := prep_null before hsize hprep
    rw [hcall] at ho
    exact .inr ⟨⟨err, dma', ho ▸ hfail err dma', herr⟩, .prepare, by simp, hprep⟩

/-! ## The buffer from `dma_alloc_coherent` -/

theorem prepAct_small (hsmall : k.large = false) {dmaAddr : ℕ} (hbuf : k.dmaAllocCoherent = some dmaAddr) :
    k.prepAct = .prepCyclic dmaAddr k.fbSize.toNat k.params.stride.toNat .memToDev k.descAlloc := by
  simp [Kernel.prepAct, hsmall, hbuf]

/-- It succeeds, or returns an error with what was held before. -/
theorem initKmalloc_spec (par : Par) (held : List Resource) (hsmall : k.large = false)
    (hsize : k.ok dma .size = true) (hfb : par.fbSize = k.fbSize) :
    (∃ par' w, k.dmaInitKmalloc k.params par (.idle held dma) = some (0, par', w) ∧
      Streams w (.chan :: .displayBuf :: held) ∧ par'.fbTransferMode = par.fbTransferMode ∧
      ∀ s ∈ [Step.buffer, .channel, .prepare, .submit], k.ok dma s = true) ∨
    ((∃ ret dma', Returns ret (.idle held dma') (k.dmaInitKmalloc k.params par (.idle held dma)) ∧ ret < 0) ∧
      ∃ s ∈ [Step.buffer, .channel, .prepare, .submit], k.ok dma s = false) := by
  obtain ⟨o, ho⟩ : ∃ o, o = k.dmaInitKmalloc k.params par (.idle held dma) := ⟨_, rfl⟩
  rw [← ho]
  unfold Kernel.dmaInitKmalloc at ho
  rcases hbuf : k.dmaAllocCoherent with _ | dmaAddr
  · rw [hbuf] at ho
    exact .inr ⟨⟨-ENOMEM, dma, ⟨par, ho⟩, by decide⟩, .buffer, by simp, by simp [Kernel.ok, hsmall, hbuf]⟩
  have hbuffer : k.ok dma .buffer = true := by simp [Kernel.ok, hsmall, hbuf]
  rw [hbuf] at ho
  rcases hreq : k.requestChan with e | _
  · simp only [hreq, idle_acquire, Kernel.errFreeBuf, idle_release] at ho
    exact .inr ⟨⟨e.ret, dma, ⟨_, ho⟩, e.neg⟩, .channel, by simp, by simp [Kernel.ok, hreq, Except.isOk, Except.toBool]⟩
  have hchannel : k.ok dma .channel = true := by simp [Kernel.ok, hreq, Except.isOk, Except.toBool]
  simp only [hreq, idle_acquire, hfb, ← prepAct_small hsmall hbuf] at ho
  have hfail : ∀ (par : Par) ret dma', Returns ret (.idle held dma')
      (some (Kernel.errPrep ret par (.idle (.chan :: .displayBuf :: held) dma'))) := by
    intro par ret dma'
    simp only [Kernel.errPrep, Kernel.errFreeBuf, idle_releaseChannel, idle_release]
    exact ⟨_, rfl⟩
  rcases issue_spec ho hsize (by decide) (hfail _) with ⟨w, hissue, hstreams, hall⟩ | ⟨hissue, s, hs, hno⟩
  · exact .inl ⟨_, w, hissue, hstreams, rfl, by simpa [hbuffer, hchannel] using hall⟩
  · exact .inr ⟨hissue, s, List.mem_cons_of_mem _ (List.mem_cons_of_mem _ hs), hno⟩

/-! ## The buffer from `vmalloc` -/

/-- The scatterlist is set up and mapped, or what was allocated for it is released. -/
theorem initScatterlistVmalloc_spec (par : Par) (held : List Resource) (dma : Sched) {bufAddr : ℕ}
    (hbuf : k.vmalloc = some bufAddr) (hsegments : par.segments = k.segments) :
    (k.ok dma .scatterlist = true ∧ ∃ par', k.initScatterlistVmalloc par bufAddr (.idle held dma) =
        (0, par', .idle (.mapping :: .sg :: .pages :: held) dma) ∧
      par'.nents = k.dmaMapSg ∧ par'.fbTransferMode = par.fbTransferMode) ∨
    (k.ok dma .scatterlist = false ∧ ∃ ret par', ret < 0 ∧
      k.initScatterlistVmalloc par bufAddr (.idle held dma) = (ret, par', .idle held dma)) := by
  unfold Kernel.initScatterlistVmalloc
  simp only [hsegments, idle_acquire]
  by_cases haddr : k.isVmallocAddr bufAddr = false ∨ bufAddr &&& (PAGE_SIZE - 1) ≠ 0
  · rw [if_pos haddr]
    refine .inr ⟨?_, -EINVAL, par, by decide, rfl⟩
    rcases haddr with hno | hno
    · simp [Kernel.ok, hbuf, hno]
    · simp [Kernel.ok, hbuf, hno]
  rw [if_neg haddr]
  rw [not_or, Bool.not_eq_false, not_not] at haddr
  by_cases hpages : k.kcallocPages = false
  · rw [if_pos hpages]
    exact .inr ⟨by simp [Kernel.ok, hpages], -ENOMEM, par, by decide, rfl⟩
  rw [if_neg hpages]
  by_cases hsg : k.kcallocSg = false
  · rw [if_pos hsg]
    simp only [Kernel.errFreePages, idle_release]
    exact .inr ⟨by simp [Kernel.ok, hsg], -ENOMEM, _, by decide, rfl⟩
  rw [if_neg hsg]
  by_cases hall : (List.range k.segments).all (fun i => k.vmallocToPage (bufAddr + i * PAGE_SIZE)) = false
  · rw [if_pos hall]
    simp only [Kernel.errFreeSg, Kernel.errFreePages, idle_release]
    exact .inr ⟨by simp only [Kernel.ok, hbuf, Option.getD_some, hall, Bool.and_false, Bool.false_and], -ENOMEM, _,
      by decide, rfl⟩
  rw [if_neg hall]
  by_cases hmap : k.dmaMapSg ≤ 0
  · rw [if_pos hmap]
    simp only [Kernel.errFreeSg, Kernel.errFreePages, idle_release]
    have hzero : k.dmaMapSg = 0 := Nat.le_zero.1 hmap
    exact .inr ⟨by simp [Kernel.ok, hzero], - EIO, _, by decide, rfl⟩
  rw [if_neg hmap]
  refine .inl ⟨?_, _, rfl, rfl, rfl⟩
  have haligned : (bufAddr &&& (PAGE_SIZE - 1) == 0) = true := beq_iff_eq.2 haddr.2
  have hnents : (k.dmaMapSg != 0) = true := bne_iff_ne.2 (by omega)
  rw [Bool.not_eq_false] at hpages hsg hall
  simp only [Kernel.ok, hbuf, Option.getD_some, haddr.1, haligned, hpages, hsg, hall, hnents, Bool.and_self]

theorem prepAct_large (hlarge : k.large = true) :
    k.prepAct = .prepSlaveSg k.mapped k.dmaMapSg .memToDev true k.descAlloc := by
  simp [Kernel.prepAct, hlarge]

theorem initVmalloc_buffer (par : Par) (held : List Resource) (hlarge : k.large = true)
    (hbuf : k.ok dma .buffer = false) :
    ∃ ret, Returns ret (.idle held dma) (k.dmaInitVmalloc par (.idle held dma)) ∧ ret < 0 := by
  have hnone : k.vmalloc = none := by simpa [Kernel.ok, hlarge] using hbuf
  unfold Kernel.dmaInitVmalloc
  rw [hnone]
  exact ⟨-ENOMEM, ⟨_, rfl⟩, by decide⟩

/-- What comes after the scatterlist. -/
theorem dmaInitVmalloc_eq (par : Par) (held : List Resource) (hlarge : k.large = true)
    (hfb : par.fbSize = k.fbSize) (hbuf : k.ok dma .buffer = true) :
    (k.ok dma .scatterlist = true ∧ ∃ par', k.dmaInitVmalloc par (.idle held dma) =
        k.dmaInitVmallocChan par' (.idle (.mapping :: .sg :: .pages :: .displayBuf :: held) dma) ∧
      par'.nents = k.dmaMapSg ∧ par'.fbTransferMode = par.fbTransferMode) ∨
    (k.ok dma .scatterlist = false ∧
      ∃ ret, Returns ret (.idle (.displayBuf :: held) dma) (k.dmaInitVmalloc par (.idle held dma)) ∧ ret < 0) := by
  have hsome : k.vmalloc.isSome := by simpa [Kernel.ok, hlarge] using hbuf
  obtain ⟨bufAddr, haddr⟩ := Option.isSome_iff_exists.1 hsome
  have hsegments : (par.fbSize.toNat + (PAGE_SIZE - 1)) % 2 ^ k.arch.bits / PAGE_SIZE = k.segments := by
    rw [hfb]
    rfl
  unfold Kernel.dmaInitVmalloc
  rw [haddr]
  simp only [hsegments, idle_acquire]
  rcases initScatterlistVmalloc_spec { par with displayBuf := some bufAddr, segments := k.segments }
    (.displayBuf :: held) dma haddr rfl with
    ⟨hok, par', hinit, hnents, hmode⟩ | ⟨hok, ret, par', hneg, hinit⟩
  · rw [hinit]
    exact .inl ⟨hok, par', rfl, hnents, hmode⟩
  · rw [hinit]
    refine .inr ⟨hok, ret, ⟨par', ?_⟩, hneg⟩
    simp only
    rw [if_pos (Int.ne_of_lt hneg)]

/-- An error in the place of the channel is taken for one. -/
theorem initVmallocChan_error {w : World} (hchan : k.ok dma .channel = false) : k.dmaInitVmallocChan par w = none := by
  unfold Kernel.dmaInitVmallocChan
  rcases hreq : k.requestChan with e | _
  · rfl
  · simp [Kernel.ok, hreq, Except.isOk, Except.toBool] at hchan

/-- With a channel it succeeds, or returns an error with everything released. -/
theorem initVmallocChan_spec (held : List Resource) (hlarge : k.large = true) (hsize : k.ok dma .size = true)
    (hchan : k.ok dma .channel = true) (hnents : par.nents = k.dmaMapSg) :
    (∃ par' w, k.dmaInitVmallocChan par (.idle (.mapping :: .sg :: .pages :: .displayBuf :: held) dma) =
        some (0, par', w) ∧
      Streams w (.chan :: .mapping :: .sg :: .pages :: .displayBuf :: held) ∧
      par'.fbTransferMode = par.fbTransferMode ∧ ∀ s ∈ [Step.prepare, .submit], k.ok dma s = true) ∨
    ((∃ ret dma', Returns ret (.idle held dma')
        (k.dmaInitVmallocChan par (.idle (.mapping :: .sg :: .pages :: .displayBuf :: held) dma)) ∧ ret < 0) ∧
      ∃ s ∈ [Step.prepare, .submit], k.ok dma s = false) := by
  have hreq : Ptr.ofAnswer k.requestChan = .valid := by
    rcases hreq : k.requestChan with e | _
    · simp [Kernel.ok, hreq, Except.isOk, Except.toBool] at hchan
    · rfl
  have hfail : ∀ (par : Par) ret dma', Returns ret (.idle held dma') (some (Kernel.errReleaseChan ret par
      (.idle (.chan :: .mapping :: .sg :: .pages :: .displayBuf :: held) dma'))) := by
    intro par ret dma'
    simp only [Kernel.errReleaseChan, Kernel.errUnmapSg, idle_releaseChannel, idle_release]
    exact ⟨_, rfl⟩
  obtain ⟨o, ho⟩ : ∃ o, o = k.dmaInitVmallocChan par
    (.idle (.mapping :: .sg :: .pages :: .displayBuf :: held) dma) := ⟨_, rfl⟩
  rw [← ho]
  unfold Kernel.dmaInitVmallocChan at ho
  simp only [hreq, hnents, idle_acquire, ← prepAct_large hlarge] at ho
  rcases issue_spec ho hsize (by decide) (hfail _) with ⟨w, hissue, hstreams, hall⟩ | hissue
  · exact .inl ⟨_, w, hissue, hstreams, rfl, hall⟩
  · exact .inr hissue

/-! ## The two ways together -/

def earlySteps : List Step := [.node, .par, .resource, .fbInfo, .size]

/-- The steps of the two functions that set the transfer up. -/
def Kernel.initSteps (k : Kernel) : List Step :=
  Step.buffer :: ((if k.large then [Step.scatterlist] else []) ++ [Step.channel, .prepare, .submit])

/-- The first of some steps that fails. -/
def Kernel.firstFailed (k : Kernel) (dma : Sched) (l : List Step) : Option Step := l.find? fun s => !k.ok dma s

theorem stop_eq : k.stop dma =
    (k.firstFailed dma earlySteps).or ((k.firstFailed dma k.initSteps).or (k.firstFailed dma [.register])) := by
  have hsteps : (k.steps.filter fun s => s != .deviceTree && s != .ioremap) =
      earlySteps ++ (k.initSteps ++ [Step.register]) := by
    unfold Kernel.steps Kernel.initSteps
    cases k.large with
    | true => rfl
    | false => rfl
  unfold Kernel.stop Kernel.firstFailed
  rw [hsteps, List.find?_append, List.find?_append]

theorem firstFailed_none {l : List Step} (h : ∀ s ∈ l, k.ok dma s = true) : k.firstFailed dma l = none := by
  refine List.find?_eq_none.2 fun s hs => ?_
  rw [h s hs]
  decide

theorem firstFailed_some {l : List Step} (h : ∃ s ∈ l, k.ok dma s = false) :
    ∃ s ∈ l, k.firstFailed dma l = some s := by
  obtain ⟨s, hs, hfail⟩ := h
  rcases hfind : k.firstFailed dma l with _ | t
  · have hno := List.find?_eq_none.1 hfind s hs
    simp [hfail] at hno
  · exact ⟨t, List.mem_of_find?_eq_some hfind, rfl⟩

/-- How the choice of the mode ends: the transfer has been started, or a step has failed and everything has been
released, or not. -/
inductive InitEnds (k : Kernel) (dma : Sched) (held : List Resource) (o : Option (ℤ × Par × World)) : Prop
  | started (par : Par) (w : World) : o = some (0, par, w) → w.running = true → .chan ∈ w.held →
      par.fbTransferMode = 1 ∨ par.fbTransferMode = 2 → (∀ s ∈ k.initSteps, k.ok dma s = true) → InitEnds k dma held o
  | cleaned (ret : ℤ) (dma' : Sched) (s : Step) : Returns ret (.idle held dma') o → ret < 0 → s ∈ k.initSteps →
      k.firstFailed dma k.initSteps = some s → k.handles s = true → InitEnds k dma held o
  | left (ret : ℤ) (s : Step) : Returns ret (.idle (.displayBuf :: held) dma) o → ret < 0 → s ∈ k.initSteps →
      k.firstFailed dma k.initSteps = some s → k.handles s = false → InitEnds k dma held o
  | oops (s : Step) : o = none → s ∈ k.initSteps → k.firstFailed dma k.initSteps = some s → k.handles s = false →
      InitEnds k dma held o

theorem init_small (hsmall : k.large = false) (hsize : k.ok dma .size = true) (hfb : par.fbSize = k.fbSize) :
    InitEnds k dma held (k.init k.params par (.idle held dma)) := by
  have hlt : par.fbSize.toNat < EFX_MAX_FB_SIZE := by
    rw [hfb]
    exact Nat.lt_of_not_le (of_decide_eq_false hsmall)
  have hsteps : k.initSteps = [.buffer, .channel, .prepare, .submit] := by
    unfold Kernel.initSteps
    rw [hsmall]
    rfl
  unfold Kernel.init
  rw [if_pos hlt]
  rcases initKmalloc_spec { par with fbTransferMode := 1 } held hsmall hsize hfb with
    ⟨par', w, hinit, hstreams, hmode, hall⟩ | ⟨⟨ret, dma', hinit, hneg⟩, hfail⟩
  · refine .started par' w hinit hstreams.running ?_ (.inl hmode) (hsteps ▸ hall)
    rw [hstreams.held_eq]
    exact List.mem_cons_self
  · rw [← hsteps] at hfail
    obtain ⟨s, hs, hfirst⟩ := firstFailed_some hfail
    have hhandles : ∀ s ∈ k.initSteps, k.handles s = true := by simp [hsteps, Kernel.handles, hsmall]
    exact .cleaned ret dma' s hinit hneg hs hfirst (hhandles s hs)

theorem init_large (hlarge : k.large = true) (hsize : k.ok dma .size = true) (hfb : par.fbSize = k.fbSize) :
    InitEnds k dma held (k.init k.params par (.idle held dma)) := by
  have hge : ¬par.fbSize.toNat < EFX_MAX_FB_SIZE := by
    rw [hfb]
    exact Nat.not_lt.2 (of_decide_eq_true hlarge)
  have hsteps : k.initSteps = [Step.buffer, .scatterlist, .channel] ++ [Step.prepare, .submit] := by
    unfold Kernel.initSteps
    rw [hlarge]
    rfl
  unfold Kernel.init
  rw [if_neg hge]
  by_cases hbuf : k.ok dma .buffer = true
  case neg =>
    rw [Bool.not_eq_true] at hbuf
    obtain ⟨ret, hinit, hneg⟩ := initVmalloc_buffer { par with fbTransferMode := 2 } held hlarge hbuf
    refine .cleaned ret dma .buffer hinit hneg (by simp [Kernel.initSteps]) ?_ rfl
    simp [Kernel.firstFailed, hsteps, hbuf]
  rcases dmaInitVmalloc_eq { par with fbTransferMode := 2 } held hlarge hfb hbuf with
    ⟨hsg, par', hinit, hnents, hmode⟩ | ⟨hsg, ret, hinit, hneg⟩
  case inr =>
    refine .left ret .scatterlist hinit hneg (by simp [hsteps]) ?_ rfl
    simp [Kernel.firstFailed, hsteps, hbuf, hsg]
  rw [hinit]
  by_cases hchan : k.ok dma .channel = true
  case neg =>
    rw [Bool.not_eq_true] at hchan
    refine .oops .channel (initVmallocChan_error hchan) (by simp [hsteps]) ?_ (congrArg (!·) hlarge)
    simp [Kernel.firstFailed, hsteps, hbuf, hsg, hchan]
  have hbefore : ∀ s ∈ [Step.buffer, .scatterlist, .channel], k.ok dma s = true := by simp [hbuf, hsg, hchan]
  rcases initVmallocChan_spec held hlarge hsize hchan hnents with
    ⟨par'', w, hrest, hstreams, hmode', hall⟩ | ⟨⟨ret, dma', hrest, hneg⟩, hfail⟩
  · refine .started par'' w hrest hstreams.running ?_ (.inr (hmode'.trans hmode)) ?_
    · rw [hstreams.held_eq]
      exact List.mem_cons_self
    · rw [hsteps]
      exact List.forall_mem_append.2 ⟨hbefore, hall⟩
  · obtain ⟨s, hs, hfirst⟩ := firstFailed_some hfail
    have hhandles : ∀ s ∈ [Step.prepare, .submit], k.handles s = true := by simp [Kernel.handles]
    refine .cleaned ret dma' s hrest hneg (hsteps ▸ List.mem_append_right _ hs) ?_ (hhandles s hs)
    have hnone := firstFailed_none hbefore
    unfold Kernel.firstFailed at hfirst hnone ⊢
    rw [hsteps, List.find?_append, hnone, hfirst]
    rfl

theorem init_ends (held : List Resource) (hsize : k.ok dma .size = true) (hfb : par.fbSize = k.fbSize) :
    InitEnds k dma held (k.init k.params par (.idle held dma)) := by
  cases hlarge : k.large with
  | true => exact init_large hlarge hsize hfb
  | false => exact init_small hlarge hsize hfb

/-! ## The probe -/

/-- The steps before the registers are accessed are cleaned up after; then comes the rest, if they are mapped. -/
theorem probe_early (k : Kernel) (dma : Sched) :
    (k.Clean dma ∧ ∃ s ∈ earlySteps, k.ok dma s = false) ∨
    ((∀ s ∈ earlySteps, k.ok dma s = true) ∧ k.ok dma .ioremap = false ∧ k.efxfbProbe (.start dma) = none) ∨
    ((∀ s ∈ earlySteps, k.ok dma s = true) ∧ k.ok dma .ioremap = true ∧ ∃ par : Par, par.fbSize = k.fbSize ∧
      k.efxfbProbe (.start dma) = k.probeRest k.params par (.idle [.fbInfo] dma)) := by
  have hclean : ∀ (ret : ℤ) (par : Par), ret < 0 → k.efxfbProbe (.start dma) = some (ret, par, .start dma) →
      k.Clean dma := fun _ _ hneg hprobe => ⟨_, _, _, hprobe, hneg, rfl, rfl, rfl⟩
  by_cases hnode : k.ofNode = false
  · exact .inl ⟨hclean (-ENODEV) .zero (by decide) (if_pos hnode), .node, by simp [earlySteps], hnode⟩
  by_cases hpar : k.kzalloc = false
  · refine .inl ⟨hclean (-ENOMEM) .zero (by decide) ?_, .par, by simp [earlySteps], hpar⟩
    simp only [Kernel.efxfbProbe, if_neg hnode, if_pos hpar]
  by_cases hres : k.resource = false
  · refine .inl ⟨hclean (-EINVAL) .zero (by decide) ?_, .resource, by simp [earlySteps], hres⟩
    simp only [Kernel.efxfbProbe, if_neg hnode, if_neg hpar, if_pos hres]
  by_cases hinfo : k.framebufferAlloc = false
  · refine .inl ⟨hclean (-ENOMEM) { Par.zero with base := Ptr.ofAnswer k.ioremap } (by decide) ?_,
      .fbInfo, by simp [earlySteps], hinfo⟩
    simp only [Kernel.efxfbProbe, if_neg hnode, if_neg hpar, if_neg hres, if_pos hinfo]
  have hstart : (World.start dma).acquire .fbInfo = .idle [.fbInfo] dma := rfl
  have hfb : (k.parseDt k.stack).1.stride * (k.parseDt k.stack).1.height = k.fbSize := rfl
  by_cases hsize : k.fbSize = 0
  · refine .inl ⟨hclean (-EINVAL) { Par.zero with base := Ptr.ofAnswer k.ioremap, fbSize := k.fbSize } (by decide) ?_,
      .size, by simp [earlySteps], by simp [Kernel.ok, hsize]⟩
    simp only [Kernel.efxfbProbe, if_neg hnode, if_neg hpar, if_neg hres, if_neg hinfo, hstart, hfb, if_pos hsize,
      Kernel.errorFbRelease, idle_release]
    rfl
  have hearly : ∀ s ∈ earlySteps, k.ok dma s = true := by
    simpa [earlySteps, Kernel.ok, hnode, hpar, hres, hinfo] using hsize
  rcases hmap : k.ioremap with e | _
  · refine .inr (.inl ⟨hearly, by simp [Kernel.ok, hmap, Except.isOk, Except.toBool], ?_⟩)
    simp only [Kernel.efxfbProbe, if_neg hnode, if_neg hpar, if_neg hres, if_neg hinfo, hfb, if_neg hsize, hmap]
    rfl
  · refine .inr (.inr ⟨hearly, by simp [Kernel.ok, hmap, Except.isOk, Except.toBool],
      { Par.zero with base := .valid, fbSize := k.fbSize }, rfl, ?_⟩)
    simp only [Kernel.efxfbProbe, if_neg hnode, if_neg hpar, if_neg hres, if_neg hinfo, hstart, hfb, if_neg hsize,
      hmap]
    rfl

theorem stop_early (hfail : ∃ s ∈ earlySteps, k.ok dma s = false) : k.Handled dma := by
  obtain ⟨s, hs, hfirst⟩ := firstFailed_some hfail
  have hboth : ∀ s ∈ earlySteps, k.handles s = true ∧ s.early = true := by
    simp [earlySteps, Kernel.handles, Step.early]
  unfold Kernel.Handled
  rw [stop_eq, hfirst, Option.some_or]
  exact ⟨(hboth s hs).1, .inr (hboth s hs).2⟩

/-- The steps after the registers have been mapped. -/
theorem stop_late (hearly : ∀ s ∈ earlySteps, k.ok dma s = true) :
    k.stop dma = (k.firstFailed dma k.initSteps).or (k.firstFailed dma [.register]) := by
  rw [stop_eq, firstFailed_none hearly, Option.none_or]

/-! ## The removal -/

theorem release_faults {w : World} {f : Fault} (h : f ∈ w.faults) : f ∈ (w.release r).faults :=
  List.mem_append_left _ (List.mem_append_left _ h)

/-- Memory that is released while the channel reads it. -/
theorem release_reads {w : World} (hrun : w.running = true) (hread : r.isRead = true) :
    .beingRead r ∈ (w.release r).faults := by
  refine List.mem_append_right _ ?_
  rw [hrun, hread]
  exact List.mem_singleton.2 rfl

/-- **The transfer goes on** when the removal releases its memory. -/
theorem remove_reads {w : World} (hrun : w.running = true) (hmode : par.fbTransferMode = 1 ∨ par.fbTransferMode = 2) :
    ∃ r, .beingRead r ∈ (efxfbRemove par w).faults := by
  unfold efxfbRemove
  -- releasing the channel does not stop it
  obtain ⟨w₁, hw₁, hrun₁⟩ : ∃ w₁, w₁ = (match par.chan with
      | .null => w
      | _ => w.releaseChannel) ∧ w₁.running = true := by
    refine ⟨_, rfl, ?_⟩
    split
    · exact hrun
    · exact hrun
  rw [← hw₁]
  dsimp only
  rcases hmode with hmode | hmode
  · rw [if_pos hmode]
    exact ⟨.displayBuf, release_faults (release_faults (release_reads hrun₁ rfl))⟩
  · rw [if_neg (by omega), if_pos hmode]
    exact ⟨.mapping, release_faults (release_faults (release_faults (release_faults (release_faults
      (release_reads hrun₁ rfl)))))⟩

/-! ## The result -/

theorem mem_steps {s : Step} :
    s ∈ k.steps ↔ s ∈ earlySteps ∨ s ∈ k.initSteps ∨ s = .deviceTree ∨ s = .ioremap ∨ s = .register := by
  unfold Kernel.steps Kernel.initSteps earlySteps
  cases k.large with
  | true => cases s <;> decide
  | false => cases s <;> decide

/-- The steps of the set-up come after the registers. -/
theorem late_of_init {s : Step} (hs : s ∈ k.initSteps) : s.early = false := by
  have hall : ∀ s ∈ k.initSteps, s.early = false := by
    unfold Kernel.initSteps
    cases k.large with
    | true => decide
    | false => decide
  exact hall s hs

theorem handled_stop {s : Step} (hmap : k.ok dma .ioremap = true) (hstop : k.stop dma = some s) :
    k.Handled dma ↔ k.handles s = true := by
  unfold Kernel.Handled
  rw [hstop]
  exact ⟨fun h => h.1, fun h => ⟨h, .inl hmap⟩⟩

theorem unmapped (hearly : ∀ s ∈ earlySteps, k.ok dma s = true) (hmap : k.ok dma .ioremap = false) :
    ¬k.Handled dma := by
  intro hhandled
  unfold Kernel.Handled at hhandled
  rcases hstop : k.stop dma with _ | s
  · rw [hstop] at hhandled
    exact absurd (hhandled.2.symm.trans hmap) (by decide)
  · rw [hstop] at hhandled
    rcases hhandled.2 with hok | hs
    · exact absurd (hok.symm.trans hmap) (by decide)
    · rw [stop_late hearly, Option.or_eq_some_iff] at hstop
      rcases hstop with hinit | ⟨-, hreg⟩
      · exact absurd (hs.symm.trans (late_of_init (List.mem_of_find?_eq_some hinit))) (by decide)
      · rw [List.mem_singleton.1 (List.mem_of_find?_eq_some hreg)] at hs
        exact absurd hs (by decide)

/-- How a probe ends. -/
inductive ProbeEnds (k : Kernel) (dma : Sched) : Prop
  | succeeded (par : Par) (w : World) : k.efxfbProbe (.start dma) = some (0, par, w) → w.running = true →
      par.fbTransferMode = 1 ∨ par.fbTransferMode = 2 → k.stop dma = none → k.ok dma .ioremap = true →
      (∀ s ∈ k.steps, s ≠ .deviceTree → k.ok dma s = true) → ProbeEnds k dma
  | cleaned (s : Step) : k.Clean dma → k.stop dma = some s → k.Handled dma → ProbeEnds k dma
  | left (s : Step) : (∀ ret par w, k.efxfbProbe (.start dma) = some (ret, par, w) → ret < 0 ∧ w.held ≠ []) →
      s ∈ k.steps → k.ok dma s = false → k.ok dma .ioremap = false ∨ k.stop dma ≠ none → ¬k.Handled dma →
      ProbeEnds k dma

/-- A transfer has been started, and the frame buffer is registered or not. -/
theorem started_ends {w : World} {par' : Par} (hearly : ∀ s ∈ earlySteps, k.ok dma s = true)
    (hmap : k.ok dma .ioremap = true) (hall : ∀ s ∈ k.initSteps, k.ok dma s = true)
    (hprobe : k.efxfbProbe (.start dma) = k.probeRest k.params par (.idle [.fbInfo] dma))
    (hinit : k.init k.params par (.idle [.fbInfo] dma) = some (0, par', w)) (hrun : w.running = true)
    (hheld : .chan ∈ w.held) (hmode : par'.fbTransferMode = 1 ∨ par'.fbTransferMode = 2) : ProbeEnds k dma := by
  unfold Kernel.probeRest at hprobe
  rw [hinit] at hprobe
  simp only [Int.lt_irrefl, if_false] at hprobe
  have hstop : k.stop dma = k.firstFailed dma [.register] := by
    rw [stop_late hearly, firstFailed_none hall, Option.none_or]
  by_cases hreg : k.ok dma .register = true
  · have hret : ¬k.registerFramebuffer < 0 := by simpa [Kernel.ok] using hreg
    rw [if_neg hret] at hprobe
    refine .succeeded par' _ hprobe hrun hmode (hstop.trans (firstFailed_none (by simpa using hreg))) hmap ?_
    intro s hs hne
    rcases mem_steps.1 hs with h | h | h | rfl | rfl
    · exact hearly s h
    · exact hall s h
    · exact absurd h hne
    · exact hmap
    · exact hreg
  · rw [Bool.not_eq_true] at hreg
    have hret : k.registerFramebuffer < 0 := by simpa [Kernel.ok] using hreg
    rw [if_pos hret] at hprobe
    have hsome : k.stop dma = some .register := by
      rw [hstop]
      simp [Kernel.firstFailed, hreg]
    refine .left .register ?_ (mem_steps.2 (by simp)) hreg (.inr (by simp [hsome])) ?_
    · intro ret par w' hres
      obtain ⟨rfl, -, rfl⟩ : ret = k.registerFramebuffer ∧ par = par' ∧ w' = w.release .fbInfo := by
        simpa [Kernel.errorFbRelease] using hres.symm.trans hprobe
      -- the channel is still held
      exact ⟨hret, List.ne_nil_of_mem ((List.mem_erase_of_ne (by decide)).2 hheld)⟩
    · rw [handled_stop hmap hsome]
      simp [Kernel.handles]

theorem probe_ends (k : Kernel) (dma : Sched) : ProbeEnds k dma := by
  rcases probe_early k dma with ⟨hclean, hfail⟩ | ⟨hearly, hmap, hprobe⟩ | ⟨hearly, hmap, par, hfb, hprobe⟩
  · obtain ⟨s, -, hfirst⟩ := firstFailed_some hfail
    exact .cleaned s hclean (by rw [stop_eq, hfirst, Option.some_or]) (stop_early hfail)
  · refine .left .ioremap ?_ (mem_steps.2 (by simp)) hmap (.inl hmap) (unmapped hearly hmap)
    intro ret par w hres
    exact absurd (hprobe.symm.trans hres) (by simp)
  have hstop : ∀ {s : Step}, k.firstFailed dma k.initSteps = some s → k.stop dma = some s := by
    intro s hfirst
    rw [stop_late hearly, hfirst, Option.some_or]
  have hfailed : ∀ {s : Step}, k.firstFailed dma k.initSteps = some s → k.ok dma s = false := by
    intro s hfirst
    simpa using List.find?_some hfirst
  have hunhandled : ∀ {s : Step}, k.firstFailed dma k.initSteps = some s → k.handles s = false → ¬k.Handled dma := by
    intro s hfirst hno
    rw [handled_stop hmap (hstop hfirst), hno]
    decide
  cases init_ends [.fbInfo] (hearly .size (by decide)) hfb with
  | started par' w hinit hrun hheld hmode hall => exact started_ends hearly hmap hall hprobe hinit hrun hheld hmode
  | cleaned ret dma' s hinit hneg hs hfirst hhandles =>
    obtain ⟨par', hinit⟩ := hinit
    unfold Kernel.probeRest at hprobe
    simp only [hinit, if_pos hneg, Kernel.errorFbRelease, idle_release] at hprobe
    have hclean : k.Clean dma := ⟨ret, par', .idle [] dma', hprobe, hneg, rfl, rfl, rfl⟩
    exact .cleaned s hclean (hstop hfirst) ((handled_stop hmap (hstop hfirst)).2 hhandles)
  | left ret s hinit hneg hs hfirst hno =>
    obtain ⟨par', hinit⟩ := hinit
    unfold Kernel.probeRest at hprobe
    simp only [hinit, if_pos hneg] at hprobe
    refine .left s ?_ (mem_steps.2 (.inr (.inl hs))) (hfailed hfirst) (.inr (by simp [hstop hfirst]))
      (hunhandled hfirst hno)
    intro ret' par'' w hres
    obtain ⟨rfl, -, rfl⟩ : ret' = ret ∧ par'' = par' ∧
        w = (World.idle [.displayBuf, .fbInfo] dma).release .fbInfo := by
      simpa [Kernel.errorFbRelease] using hres.symm.trans hprobe
    -- the buffer is still held
    exact ⟨hneg, List.cons_ne_nil Resource.displayBuf []⟩
  | oops s hinit hs hfirst hno =>
    unfold Kernel.probeRest at hprobe
    simp only [hinit] at hprobe
    refine .left s ?_ (mem_steps.2 (.inr (.inl hs))) (hfailed hfirst) (.inr (by simp [hstop hfirst]))
      (hunhandled hfirst hno)
    intro ret' par'' w hres
    exact absurd (hprobe.symm.trans hres) (by simp)

theorem probe_right_iff : k.ProbeRight dma ↔ k.Handled dma := by
  cases probe_ends k dma with
  | succeeded par w hprobe hrun hmode hstop hmap hok =>
    unfold Kernel.Handled
    rw [hstop]
    refine ⟨fun hright => ⟨?_, hmap⟩, fun hhandled hfail => ?_⟩
    · by_contra htree
      obtain ⟨ret, par', w', hres, hneg, -⟩ := hright ⟨.deviceTree, mem_steps.2 (by simp), Bool.not_eq_true _ ▸ htree⟩
      rw [hprobe] at hres
      obtain ⟨rfl, -⟩ := Prod.mk.inj (Option.some.inj hres)
      exact absurd hneg (by decide)
    · -- no step has failed
      obtain ⟨s, hs, hno⟩ := hfail
      by_cases htree : s = .deviceTree
      · exact absurd (hhandled.1.symm.trans (htree ▸ hno)) (by decide)
      · exact absurd ((hok s hs htree).symm.trans hno) (by decide)
  | cleaned s hclean hstop hhandled => exact iff_of_true (fun _ => hclean) hhandled
  | left s hleft hs hno hstop hhandled =>
    refine iff_of_false (fun hright => ?_) hhandled
    obtain ⟨ret, par, w, hres, -, hnil, -⟩ := hright ⟨s, hs, hno⟩
    exact (hleft ret par w hres).2 hnil

theorem remove_right_iff : k.RemoveRight dma ↔ k.ok dma .ioremap = false ∨ k.stop dma ≠ none := by
  cases probe_ends k dma with
  | succeeded par w hprobe hrun hmode hstop hmap hok =>
    obtain ⟨r, hread⟩ := remove_reads hrun hmode
    refine iff_of_false (fun hright => hright par w hprobe r hread) ?_
    simp [hstop, hmap]
  | cleaned s hclean hstop hhandled =>
    refine iff_of_true (fun par w hprobe => ?_) (.inr (by simp [hstop]))
    obtain ⟨ret, par', w', hres, hneg, -⟩ := hclean
    rw [hprobe] at hres
    obtain ⟨rfl, -⟩ := Prod.mk.inj (Option.some.inj hres)
    exact absurd hneg (by decide)
  | left s hleft hs hno hstop hhandled =>
    exact iff_of_true (fun par w hprobe => absurd (hleft 0 par w hprobe).1 (by decide)) hstop

/-- **The probe leaves nothing behind** exactly when its last step is one that it cleans up after, and what it passes
over has not failed; **the removal** is right only where there has been no successful probe. -/
theorem nothing_left_iff (k : Kernel) (dma : Sched) :
    (k.ProbeRight dma ↔ k.Handled dma) ∧
      (k.RemoveRight dma ↔ k.ok dma .ioremap = false ∨ k.stop dma ≠ none) := ⟨probe_right_iff, remove_right_iff⟩

/-! ## A frame buffer that is not registered, and one that is removed -/

def idleChannel : Sched :=
  { chan := ⟨fun _ => ⟨⟨false, 0, 0, 0, none⟩, 0, false, .memToDev, 0⟩, [], none, 0, [], [], 0, []⟩
    allocated := [], submitted := [], issued := [], finished := [], engine := .idle, completion := false
    enabled := false, oops := false, submissions := [], issuances := [], terminated := [], starts := []
    executed := [], raised := [], cookies := [] }

/-- A small display, for which every step succeeds. -/
def display : Kernel :=
  { arch := .rv32, ofNode := true
    property := fun name => .ok (if name = "width" then 64#32 else if name = "height" then 32#32 else 256#32)
    stack := ⟨0#32, 0#32, 0#32⟩, kzalloc := true, resource := true, ioremap := .ok (), framebufferAlloc := true
    dmaAllocCoherent := some 0x1000000, vmalloc := some 0xa0000000, isVmallocAddr := fun _ => true
    kcallocPages := true, kcallocSg := true, vmallocToPage := fun _ => true, dmaMapSg := 2
    mapped := fun i => ⟨0x2000000 + 4096 * i, 4096⟩, requestChan := .ok (), descAlloc := fun _ => (true, true)
    cookie := 1, registerFramebuffer := 0 }

theorem display_left : ¬{ display with registerFramebuffer := -ENOMEM }.ProbeRight idleChannel ∧
    ¬display.RemoveRight idleChannel := by
  rw [probe_right_iff, remove_right_iff]
  have hregister : { display with registerFramebuffer := -ENOMEM }.stop idleChannel = some .register := by
    decide +kernel
  have hnone : display.stop idleChannel = none := by decide +kernel
  constructor
  · unfold Kernel.Handled
    rw [hregister]
    exact fun h => absurd h.1 (by decide)
  · rintro (hmap | hstop)
    · exact absurd hmap (by decide)
    · exact hstop hnone

end Br2Efinix.Framebuffer
