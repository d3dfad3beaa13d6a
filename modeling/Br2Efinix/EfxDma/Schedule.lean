import Mathlib.Data.List.Nodup
import Br2Efinix.EfxDma.Ownership

/-!
# The scheduling of a DMA channel

virt-dma keeps the transfers of a channel in order, and `efx_dma` starts and completes the
chain of the last prep, whichever transfer virt-dma selects.

* `scheduled_of_single`: the transfers run once each in the order of submission, and
  complete when the channel has raised its interrupt, in every run with one transfer at a
  time.
* `second_starts_first`: two transfers issued together start with the second.
-/

namespace Br2Efinix.EfxDma

/-- A channel of the hardware; the transfers are named by their prep calls. -/
inductive Engine
  | idle
  | running (t : ℕ)
  | stopping
  deriving DecidableEq, Repr

/-- A write of `LINKED_LIST_START`: whose chain, the oldest transfer that is issued and
neither completed nor terminated, and whether the channel is idle. -/
structure Start where
  chain : ℕ
  oldest : Option ℕ
  idle : Bool
  deriving DecidableEq, Repr

/-- A cookie that is completed, and whether the channel has raised `CHANNEL_COMPLETION` for its
transfer. -/
structure Cookie where
  transfer : ℕ
  raised : Bool
  deriving DecidableEq, Repr

/-- A channel with the lists of its `virt_dma_chan` (`desc_allocated`, `desc_submitted`,
`desc_issued`, `desc_completed`) and its hardware. `completion` and `enabled` are the
`CHANNEL_COMPLETION` bits of `INTERRUPT_PENDING` and `INTERRUPT_ENABLE`, `oops` is a NULL
dereference. The rest is only observed. -/
structure Sched where
  chan : Chan
  allocated : List ℕ
  submitted : List ℕ
  issued : List ℕ
  finished : List ℕ
  engine : Engine
  completion : Bool
  enabled : Bool
  oops : Bool
  submissions : List ℕ
  issuances : List ℕ
  terminated : List ℕ
  starts : List Start
  executed : List ℕ
  raised : List ℕ
  cookies : List Cookie

/-- The prep functions among the actions on the descriptors. -/
def prepCall (c : Chan) : DmaAct → Option (Chan × Option ℕ)
  | .prepSlaveSg sg sgLen direction reuse alloc => some (prepSlaveSg c sg sgLen direction reuse alloc)
  | .prepCyclic bufAddr bufLen periodLen direction alloc =>
    if periodLen = 0 then none else some (prepCyclic c bufAddr bufLen periodLen direction alloc)
  | .prepDmaMemcpy dstAddr srcAddr len alloc => some (prepDmaMemcpy c dstAddr srcAddr len alloc)
  | .complete _ => none
  | .terminateAll => none

/-- The arguments that the prep functions refuse. -/
def DmaAct.Refused : DmaAct → Prop
  | .prepSlaveSg _ sgLen _ _ _ => sgLen = 0
  | .prepCyclic bufAddr bufLen periodLen _ _ => bufAddr = 0 ∨ bufLen = 0 ∨ periodLen > bufLen
  | .prepDmaMemcpy dstAddr srcAddr len _ => dstAddr = 0 ∨ srcAddr = 0 ∨ len = 0
  | .complete _ => False
  | .terminateAll => False

instance : ∀ p : DmaAct, Decidable p.Refused
  | .prepSlaveSg _ sgLen _ _ _ => inferInstanceAs (Decidable (sgLen = 0))
  | .prepCyclic bufAddr bufLen periodLen _ _ =>
    inferInstanceAs (Decidable (bufAddr = 0 ∨ bufLen = 0 ∨ periodLen > bufLen))
  | .prepDmaMemcpy dstAddr srcAddr len _ => inferInstanceAs (Decidable (dstAddr = 0 ∨ srcAddr = 0 ∨ len = 0))
  | .complete _ => isFalse id
  | .terminateAll => isFalse id

/-- Only `efx_dma_prep_slave_sg` looks at `DMA_PREP_INTERRUPT`. -/
def DmaAct.isSlaveSg : DmaAct → Bool
  | .prepSlaveSg .. => true
  | _ => false

namespace Sched

/-- The transfer whose chain `head_desc` heads. -/
def headOwner (s : Sched) : Option ℕ := s.chan.headDesc.map fun h => (s.chan.mem h).owner

/-- Of some transfers those that are not terminated. -/
def spared (s : Sched) (l : List ℕ) : List ℕ := l.filter fun t => t ∉ s.terminated

/-- What is issued and neither completed nor terminated. -/
def live (s : Sched) : List ℕ := s.spared s.issued

/-- A prep function; `interrupt` is the flag `DMA_PREP_INTERRUPT`. -/
def prep (s : Sched) (p : DmaAct) (interrupt : Bool) : Option Sched :=
  (prepCall s.chan p).map fun r =>
    match r.2 with
    | none => { s with chan := r.1 }
    | some _ =>
      let on := interrupt && p.isSlaveSg
      { s with
        chan := r.1
        allocated := s.allocated ++ [s.chan.preps]
        -- `efx_dma_interrupt_config` clears what is pending
        completion := if on then false else s.completion
        enabled := if on then true else s.enabled }

/-- `vchan_tx_submit`. -/
def submit (s : Sched) (t : ℕ) : Option Sched :=
  if t ∈ s.allocated then
    some { s with
      allocated := s.allocated.filter (· ≠ t), submitted := s.submitted ++ [t]
      submissions := s.submissions ++ [t] }
  else none

/-- `efx_dma_start_transfer`: what `vchan_next_desc` returns is only compared with NULL. -/
def startTransfer (s : Sched) : Sched :=
  if s.issued = [] then s
  else
    match s.headOwner with
    | none => { s with oops := true }
    | some t =>
      { s with
        starts := s.starts ++ [⟨t, s.live.head?, s.engine == .idle⟩]
        engine := .running t }

/-- `efx_dma_issue_pending`. -/
def issuePending (s : Sched) : Sched :=
  let s : Sched :=
    { s with
      issued := s.issued ++ s.submitted, submitted := [], issuances := s.issuances ++ s.submitted }
  if s.issued = [] then s else s.startTransfer

/-- `efx_dma_interrupt_handler`: the cookie of `head_desc` is completed whatever is pending. -/
def interruptHandler (s : Sched) : Sched :=
  match s.headOwner with
  | none => { s with oops := true }
  | some t =>
    { s with
      completion := false
      allocated := s.allocated.filter (· ≠ t)
      submitted := s.submitted.filter (· ≠ t)
      issued := s.issued.filter (· ≠ t)
      finished := s.finished ++ [t]
      cookies := s.cookies ++ [⟨t, t ∈ s.raised⟩] }

/-- `vchan_complete` for one transfer. -/
def vchanComplete (s : Sched) (t : ℕ) : Option Sched :=
  if t ∈ s.finished then
    some { s with finished := s.finished.filter (· ≠ t), chan := descFree s.chan t }
  else none

/-- `efx_dma_terminate_all`; the lists of virt-dma are left as they are. -/
def terminate (s : Sched) : Sched :=
  { s with
    chan := terminateAll s.chan
    engine := if s.engine = .idle then .idle else .stopping
    completion := false
    enabled := false
    terminated := s.terminated ++ (s.allocated ++ s.submitted ++ s.issued) }

/-- The channel reaches the end of its chain; `CHANNEL_COMPLETION` is raised when it is not
busy anymore. -/
def channelDone (s : Sched) : Option Sched :=
  match s.engine with
  | .idle => none
  | .running t =>
    some { s with
      engine := .idle, completion := true, executed := s.executed ++ [t], raised := s.raised ++ [t] }
  | .stopping => some { s with engine := .idle, completion := true }

end Sched

inductive SchedAct
  | prep (p : DmaAct) (interrupt : Bool)
  | submit (t : ℕ)
  | issuePending
  | channelDone
  | interrupt
  | vchanComplete (t : ℕ)
  | terminateAll

def schedMachine : Machine Sched SchedAct :=
  { init := fun s => ∃ c, s = ⟨c, [], [], [], [], .idle, false, false, false, [], [], [], [], [], [], []⟩
    step := fun s a =>
      match a with
      | .prep p interrupt => s.prep p interrupt
      | .submit t => s.submit t
      | .issuePending => some s.issuePending
      | .channelDone => s.channelDone
      -- shared or spurious, at any time
      | .interrupt => some s.interruptHandler
      | .vchanComplete t => s.vchanComplete t
      | .terminateAll => some s.terminate }

structure Scheduled (s : Sched) : Prop where
  /-- Every start is for the oldest transfer and on an idle channel, -/
  starts : ∀ w ∈ s.starts, w.oldest = some w.chain ∧ w.idle = true
  /-- no transfer is executed twice or out of the order of submission, -/
  order : s.submissions.Nodup ∧ s.executed.Sublist s.submissions
  /-- no cookie is completed twice or too early, -/
  cookies : (s.cookies.map Cookie.transfer).Nodup ∧ ∀ k ∈ s.cookies, k.raised = true
  /-- and nothing that has been issued is left behind when the channel is idle and does not
  interrupt. -/
  all : s.engine = .idle → ¬(s.completion = true ∧ s.enabled = true) →
    ∀ t ∈ s.issuances, t ∉ s.terminated → t ∈ s.executed ∧ t ∈ s.cookies.map Cookie.transfer
  alive : s.oops = false

/-- The channel is ready for what `efx_dma_issue_pending` would start: nothing issued is
outstanding, one transfer has been submitted, that of the last prep, and the channel is idle
with its interrupt enabled and not pending. -/
structure Ready (s : Sched) : Prop where
  quiet : s.live = []
  one : s.headOwner.toList = s.spared s.submitted ∧ s.headOwner.isSome = true
  idle : s.engine = .idle
  interrupts : s.enabled = true ∧ s.completion = false

instance (s : Sched) : Decidable (Ready s) :=
  decidable_of_iff (s.live = [] ∧ (s.headOwner.toList = s.spared s.submitted ∧
      s.headOwner.isSome = true) ∧ s.engine = .idle ∧ s.enabled = true ∧ s.completion = false)
    ⟨fun ⟨h1, h2, h3, h4⟩ => ⟨h1, h2, h3, h4⟩, fun ⟨h1, h2, h3, h4⟩ => ⟨h1, h2, h3, h4⟩⟩

/-- One transfer at a time. -/
def OneAtATime (s : Sched) : SchedAct → Prop
  | .prep p _ => s.live = [] ∨ p.Refused
  | .issuePending => s.issued = [] ∧ s.submitted = [] ∨ Ready s
  | .interrupt => s.live ≠ [] ∧ s.completion = true
  | .vchanComplete _ => s.live = []
  | .submit _ => True
  | .channelDone => True
  | .terminateAll => True

instance : ∀ s a, Decidable (OneAtATime s a)
  | s, .prep p _ => inferInstanceAs (Decidable (s.live = [] ∨ p.Refused))
  | s, .issuePending => inferInstanceAs (Decidable (s.issued = [] ∧ s.submitted = [] ∨ Ready s))
  | s, .interrupt => inferInstanceAs (Decidable (s.live ≠ [] ∧ s.completion = true))
  | s, .vchanComplete _ => inferInstanceAs (Decidable (s.live = []))
  | _, .submit _ => isTrue trivial
  | _, .channelDone => isTrue trivial
  | _, .terminateAll => isTrue trivial

/-! ## The invariant -/

/-- What the issued transfer is at. -/
inductive Stage (s : Sched) : Prop
  | quiet : s.live = [] → (∀ t, s.engine ≠ .running t) → Stage s
  | running (t : ℕ) : s.live = [t] → s.engine = .running t → s.completion = false →
      s.enabled = true → s.headOwner = some t → (s.executed ++ [t]).Sublist s.issuances → Stage s
  | raised (t : ℕ) : s.live = [t] → s.engine = .idle → s.completion = true → s.enabled = true →
      s.headOwner = some t → t ∈ s.raised → t ∈ s.executed → Stage s

structure Kept (s : Sched) : Prop where
  starts : ∀ w ∈ s.starts, w.oldest = some w.chain ∧ w.idle = true
  cookies : (s.cookies.map Cookie.transfer).Nodup ∧ ∀ k ∈ s.cookies, k.raised = true
  alive : s.oops = false
  small : ∀ t ∈ s.allocated ++ s.submissions, t < s.chan.preps
  distinct : (s.allocated ++ s.submissions).Nodup
  split : s.submissions = s.issuances ++ s.submitted
  issued : ∀ t ∈ s.issued, t ∈ s.issuances
  executed : s.executed.Sublist s.issuances
  done : ∀ t ∈ s.cookies.map Cookie.transfer, t ∈ s.executed ∧ t ∉ s.issued
  settled : ∀ t ∈ s.issuances, t ∈ s.terminated ∨ t ∈ s.cookies.map Cookie.transfer ∨ t ∈ s.issued
  stage : Stage s

variable {s s' : Sched} {t : ℕ}

theorem finishPrep_preps (c : Chan) (a : InitArgs) (alloc : ℕ → Bool × Bool) :
    (finishPrep (hwDescInit c a alloc)).1.preps = c.preps + 1 := by
  have hkeep : ∀ r : Chan × Bool, (finishPrep r).1.preps = r.1.preps := by
    intro r
    unfold finishPrep
    split
    · split <;> rfl
    · rfl
  rw [hkeep]
  rcases hwDescInit_spec c a alloc with ⟨c₁, hinit, hp⟩ | ⟨j, c₁, hinit, hp, -⟩
  · rw [hinit]
    exact hp.preps
  · obtain ⟨-, -, -, -, hpreps, -⟩ := freeHwDescChain_lists c₁
    rw [hinit]
    exact hpreps.trans hp.preps

/-- A prep call counts, unless it rejects its arguments. -/
theorem prepCall_preps {c : Chan} {p : DmaAct} {r : Chan × Option ℕ} (hp : prepCall c p = some r) :
    r = (c, none) ∨ r.1.preps = c.preps + 1 := by
  cases p with
  | prepSlaveSg sg sgLen direction reuse alloc =>
    obtain rfl := Option.some.inj hp
    unfold prepSlaveSg
    split
    · exact Or.inl rfl
    · exact Or.inr (finishPrep_preps _ _ _)
  | prepCyclic bufAddr bufLen periodLen direction alloc =>
    unfold prepCall at hp
    simp only at hp
    split at hp
    · exact absurd hp (by simp)
    · obtain rfl := Option.some.inj hp
      unfold prepCyclic
      split
      · exact Or.inl rfl
      · exact Or.inr (finishPrep_preps _ _ _)
  | prepDmaMemcpy dstAddr srcAddr len alloc =>
    obtain rfl := Option.some.inj hp
    unfold prepDmaMemcpy
    split
    · exact Or.inl rfl
    · exact Or.inr (finishPrep_preps _ _ _)
  | complete t => exact absurd hp (by simp [prepCall])
  | terminateAll => exact absurd hp (by simp [prepCall])

/-- With nothing outstanding the channel runs nothing. -/
theorem quiet_of_live (h : Stage s) (hlive : s.live = []) : ∀ t, s.engine ≠ .running t := by
  rcases h with ⟨-, hengine⟩ | ⟨t, hone, -⟩ | ⟨t, hone, -⟩
  · exact hengine
  · rw [hlive] at hone
    exact absurd hone (by simp)
  · rw [hlive] at hone
    exact absurd hone (by simp)

/-- A call that is refused leaves everything as it is. -/
theorem prep_refused {p : DmaAct} {interrupt : Bool} (hrefused : p.Refused) (hstep : s.prep p interrupt = some s') :
    s' = s := by
  obtain ⟨r, hr, rfl⟩ := Option.map_eq_some_iff.1 hstep
  have hnone : r = (s.chan, none) := by
    cases p with
    | prepSlaveSg sg sgLen direction reuse alloc => exact (Option.some.inj hr).symm.trans (if_pos hrefused)
    | prepCyclic bufAddr bufLen periodLen direction alloc =>
      unfold prepCall at hr
      simp only at hr
      split at hr
      · exact absurd hr.symm (Option.some_ne_none r)
      · exact (Option.some.inj hr).symm.trans (if_pos hrefused)
    | prepDmaMemcpy dstAddr srcAddr len alloc => exact (Option.some.inj hr).symm.trans (if_pos hrefused)
    | complete t => exact hrefused.elim
    | terminateAll => exact hrefused.elim
  rw [hnone]

theorem prep_kept (hs : Kept s) {p : DmaAct} {interrupt : Bool} (hlive : s.live = [])
    (hstep : s.prep p interrupt = some s') : Kept s' := by
  obtain ⟨r, hr, rfl⟩ := Option.map_eq_some_iff.1 hstep
  have hquiet := quiet_of_live hs.stage hlive
  have hmore : s.chan.preps ≤ r.1.preps := by
    rcases prepCall_preps hr with rfl | hnext
    · exact Nat.le_refl _
    · omega
  obtain ⟨hstarts, hcookies, halive, hsmall, hdistinct, hsplit, hissued, hexecuted, hdone, hsettled, -⟩ := hs
  rcases hres : r.2 with _ | h
  · exact ⟨hstarts, hcookies, halive, fun u hu => Nat.lt_of_lt_of_le (hsmall u hu) hmore, hdistinct, hsplit,
      hissued, hexecuted, hdone, hsettled, .quiet hlive hquiet⟩
  · have hnext : r.1.preps = s.chan.preps + 1 := by
      rcases prepCall_preps hr with rfl | hnext
      · exact absurd hres (by simp)
      · exact hnext
    have hfresh : s.chan.preps ∉ s.allocated ++ s.submissions := by
      intro hin
      exact Nat.lt_irrefl _ (hsmall _ hin)
    refine ⟨hstarts, hcookies, halive, ?_, ?_, hsplit, hissued, hexecuted, hdone, hsettled,
      .quiet hlive hquiet⟩
    · intro u hu
      simp only at hu ⊢
      rw [hnext]
      rw [List.append_assoc, List.mem_append, List.mem_append, List.mem_singleton] at hu
      rcases hu with hin | rfl | hin
      · exact Nat.lt_succ_of_lt (hsmall u (List.mem_append_left _ hin))
      · exact Nat.lt_succ_self _
      · exact Nat.lt_succ_of_lt (hsmall u (List.mem_append_right _ hin))
    · simp only
      have hperm : (s.allocated ++ [s.chan.preps] ++ s.submissions).Perm
          (s.chan.preps :: (s.allocated ++ s.submissions)) := by
        rw [List.append_assoc]
        exact List.perm_middle
      exact hperm.nodup_iff.2 (List.nodup_cons.2 ⟨hfresh, hdistinct⟩)

theorem submit_kept (hs : Kept s) (hstep : s.submit t = some s') : Kept s' := by
  obtain ⟨ht, rfl⟩ := of_guard hstep
  obtain ⟨hstarts, hcookies, halive, hsmall, hdistinct, hsplit, hissued, hexecuted, hdone, hsettled,
    hstage⟩ := hs
  refine ⟨hstarts, hcookies, halive, ?_, ?_, ?_, hissued, hexecuted, hdone, hsettled, ?_⟩
  · intro u hu
    simp only at hu ⊢
    rw [List.mem_append, List.mem_append, List.mem_singleton] at hu
    rcases hu with hin | hin | rfl
    · exact hsmall u (List.mem_append_left _ (List.mem_of_mem_filter hin))
    · exact hsmall u (List.mem_append_right _ hin)
    · exact hsmall u (List.mem_append_left _ ht)
  · obtain ⟨hall, hsub, hdisj⟩ := List.nodup_append.1 hdistinct
    refine List.nodup_append.2 ⟨hall.filter _, List.nodup_append.2 ⟨hsub, List.nodup_singleton t, ?_⟩, ?_⟩
    · intro u hu v hv
      rw [List.mem_singleton.1 hv]
      exact (hdisj t ht u hu).symm
    · intro u hu v hv
      rw [List.mem_filter] at hu
      rcases List.mem_append.1 hv with hin | hin
      · exact hdisj u hu.1 v hin
      · rw [List.mem_singleton.1 hin]
        simpa using hu.2
  · simp only
    rw [hsplit, List.append_assoc]
  · rcases hstage with ⟨h1, h2⟩ | ⟨u, h1, h2, h3, h4, h5, h6⟩ | ⟨u, h1, h2, h3, h4, h5, h6, h7⟩
    · exact .quiet h1 h2
    · exact .running u h1 h2 h3 h4 h5 h6
    · exact .raised u h1 h2 h3 h4 h5 h6 h7

/-- With nothing submitted or issued nothing happens. -/
theorem issue_nothing (hissued : s.issued = []) (hsubmitted : s.submitted = []) : s.issuePending = s := by
  cases s with
  | mk chan allocated submitted issued finished engine completion enabled oops submissions issuances
      terminated starts executed raised cookies =>
    simp only at hissued hsubmitted
    subst hissued hsubmitted
    unfold Sched.issuePending
    simp

/-- **What `efx_dma_issue_pending` starts** is the one transfer it has just issued. -/
theorem issue_kept (hs : Kept s) (hg : s.issued = [] ∧ s.submitted = [] ∨ Ready s) :
    Kept s.issuePending := by
  rcases hg with ⟨hnone, hempty⟩ | ⟨hlive, ⟨hone, hhead⟩, hidle, henabled, hcompletion⟩
  · rw [issue_nothing hnone hempty]
    exact hs
  obtain ⟨hstarts, hcookies, halive, hsmall, hdistinct, hsplit, hissued, hexecuted, hdone, hsettled, -⟩ := hs
  obtain ⟨t, ht⟩ := Option.isSome_iff_exists.1 hhead
  rw [ht] at hone
  have hwaits : s.spared s.submitted = [t] := hone.symm
  have hin : t ∈ s.submitted := by
    have hmem : t ∈ s.spared s.submitted := by
      rw [hwaits]
      exact List.mem_singleton_self t
    exact List.mem_of_mem_filter hmem
  -- after the lists have been joined
  have hlive' : s.spared (s.issued ++ s.submitted) = [t] := by
    unfold Sched.spared
    rw [List.filter_append]
    unfold Sched.live at hlive
    unfold Sched.spared at hlive hwaits
    rw [hlive, hwaits]
    rfl
  have hne : s.issued ++ s.submitted ≠ [] := by
    intro hnil
    rw [(List.append_eq_nil_iff.1 hnil).2] at hin
    exact absurd hin List.not_mem_nil
  have hlater : ∀ u, u ∈ s.submitted → u ∉ s.issuances := by
    intro u hu hold
    rw [hsplit] at hdistinct
    obtain ⟨-, hsub, -⟩ := List.nodup_append.1 hdistinct
    obtain ⟨-, -, hdisj⟩ := List.nodup_append.1 hsub
    exact hdisj u hold u hu rfl
  have hissue : s.issuePending =
      { s with
        issued := s.issued ++ s.submitted, submitted := [], issuances := s.issuances ++ s.submitted
        starts := s.starts ++ [⟨t, some t, true⟩], engine := .running t } := by
    unfold Sched.issuePending Sched.startTransfer
    simp only
    rw [if_neg hne, if_neg hne]
    have hhead' : ({ s with
        issued := s.issued ++ s.submitted, submitted := []
        issuances := s.issuances ++ s.submitted } : Sched).headOwner = some t := ht
    have hoverall : ({ s with
        issued := s.issued ++ s.submitted, submitted := []
        issuances := s.issuances ++ s.submitted } : Sched).live = [t] := hlive'
    rw [hhead']
    simp only
    rw [hoverall, hidle]
    rfl
  rw [hissue]
  refine ⟨?_, hcookies, halive, ?_, ?_, ?_, ?_, ?_, ?_, ?_,
    .running t hlive' rfl hcompletion henabled ht ?_⟩
  · intro w hw
    rcases List.mem_append.1 hw with hold | hnew
    · exact hstarts w hold
    · rw [List.mem_singleton.1 hnew]
      exact ⟨rfl, rfl⟩
  · exact hsmall
  · exact hdistinct
  · simp only
    rw [hsplit, List.append_nil]
  · intro u hu
    rcases List.mem_append.1 hu with hold | hnew
    · exact List.mem_append_left _ (hissued u hold)
    · exact List.mem_append_right _ hnew
  · exact hexecuted.trans (List.sublist_append_left _ _)
  · intro u hu
    obtain ⟨hrun, hnot⟩ := hdone u hu
    refine ⟨hrun, ?_⟩
    intro hmem
    rcases List.mem_append.1 hmem with hold | hnew
    · exact hnot hold
    · exact hlater u hnew (hexecuted.subset hrun)
  · intro u hu
    rcases List.mem_append.1 hu with hold | hnew
    · rcases hsettled u hold with h | h | h
      · exact Or.inl h
      · exact Or.inr (Or.inl h)
      · exact Or.inr (Or.inr (List.mem_append_left _ h))
    · exact Or.inr (Or.inr (List.mem_append_right _ hnew))
  · exact hexecuted.append (List.singleton_sublist.2 hin)

theorem done_kept (hs : Kept s) (hstep : s.channelDone = some s') : Kept s' := by
  obtain ⟨hstarts, hcookies, halive, hsmall, hdistinct, hsplit, hissued, hexecuted, hdone, hsettled,
    hstage⟩ := hs
  unfold Sched.channelDone at hstep
  split at hstep
  · exact absurd hstep (by simp)
  · rename_i t hengine
    obtain rfl := Option.some.inj hstep
    rcases hstage with ⟨-, hquiet⟩ | ⟨u, hlive, hrunning, -, henabled, hhead, hsub⟩ | ⟨u, -, hidle, -⟩
    · exact absurd hengine (hquiet t)
    · obtain rfl : t = u := by
        rw [hengine] at hrunning
        exact Engine.running.inj hrunning
      refine ⟨hstarts, hcookies, halive, hsmall, hdistinct, hsplit, hissued, hsub, ?_, hsettled,
        .raised t hlive rfl rfl henabled hhead ?_ ?_⟩
      · intro v hv
        exact ⟨List.mem_append_left _ (hdone v hv).1, (hdone v hv).2⟩
      · exact List.mem_append_right _ (List.mem_singleton_self t)
      · exact List.mem_append_right _ (List.mem_singleton_self t)
    · rw [hengine] at hidle
      exact absurd hidle (by simp)
  · rename_i hengine
    obtain rfl := Option.some.inj hstep
    rcases hstage with ⟨hlive, -⟩ | ⟨u, -, hrunning, -⟩ | ⟨u, -, hidle, -⟩
    · exact ⟨hstarts, hcookies, halive, hsmall, hdistinct, hsplit, hissued, hexecuted, hdone, hsettled,
        .quiet hlive (by intro u; simp)⟩
    · rw [hengine] at hrunning
      exact absurd hrunning (by simp)
    · rw [hengine] at hidle
      exact absurd hidle (by simp)

/-- **The interrupt of the transfer that has run** completes its cookie. -/
theorem interrupt_kept (hs : Kept s) (hlive : s.live ≠ []) (hcompletion : s.completion = true) :
    Kept s.interruptHandler := by
  obtain ⟨hstarts, hcookies, halive, hsmall, hdistinct, hsplit, hissued, hexecuted, hdone, hsettled,
    hstage⟩ := hs
  rcases hstage with ⟨hquiet, -⟩ | ⟨t, -, -, hnot, -⟩ | ⟨t, hone, hidle, -, henabled, hhead, hraised, hrun⟩
  · exact absurd hquiet hlive
  · rw [hcompletion] at hnot
    exact absurd hnot (by simp)
  have hin : t ∈ s.issued := by
    have hmem : t ∈ s.live := by
      rw [hone]
      exact List.mem_singleton_self t
    exact List.mem_of_mem_filter hmem
  have hnew : t ∉ s.cookies.map Cookie.transfer := by
    intro hmem
    exact (hdone t hmem).2 hin
  have hissuance := hissued t hin
  obtain ⟨hall, hsub, hdisj⟩ := List.nodup_append.1 hdistinct
  -- a transfer is on one list
  have hallocated : s.allocated.filter (· ≠ t) = s.allocated := by
    rw [List.filter_eq_self]
    intro u hu
    have hne : u ≠ t := by
      rw [hsplit] at hdisj
      exact hdisj u hu t (List.mem_append_left _ hissuance)
    simpa using hne
  have hsubmitted : s.submitted.filter (· ≠ t) = s.submitted := by
    rw [List.filter_eq_self]
    intro u hu
    have hne : u ≠ t := by
      rw [hsplit] at hsub
      obtain ⟨-, -, hd⟩ := List.nodup_append.1 hsub
      exact (hd t hissuance u hu).symm
    simpa using hne
  have hgone : s.spared (s.issued.filter (· ≠ t)) = [] := by
    rw [Sched.live] at hone
    unfold Sched.spared at hone ⊢
    rw [List.filter_comm, hone]
    simp
  have hirq : s.interruptHandler =
      { s with
        completion := false, allocated := s.allocated, submitted := s.submitted
        issued := s.issued.filter (· ≠ t), finished := s.finished ++ [t]
        cookies := s.cookies ++ [⟨t, true⟩] } := by
    unfold Sched.interruptHandler
    rw [hhead]
    simp only
    rw [hallocated, hsubmitted]
    simp only [hraised, decide_true]
  have hmap : ∀ u, u ∈ (s.cookies ++ [Cookie.mk t true]).map Cookie.transfer ↔
      u ∈ s.cookies.map Cookie.transfer ∨ u = t := by
    intro u
    rw [List.map_append, List.mem_append, List.map_singleton, List.mem_singleton]
  rw [hirq]
  refine ⟨hstarts, ⟨?_, ?_⟩, halive, hsmall, hdistinct, hsplit, ?_, hexecuted,
    ?_, ?_, .quiet hgone ?_⟩
  · simp only
    rw [List.map_append, List.nodup_append]
    refine ⟨hcookies.1, List.nodup_singleton _, ?_⟩
    intro u hu v hv
    rintro rfl
    rw [List.map_singleton, List.mem_singleton] at hv
    rw [hv] at hu
    exact hnew hu
  · intro k hk
    rcases List.mem_append.1 hk with hold | hlast
    · exact hcookies.2 k hold
    · rw [List.mem_singleton.1 hlast]
  · intro u hu
    exact hissued u (List.mem_of_mem_filter hu)
  · intro u hu
    rcases (hmap u).1 hu with hold | rfl
    · exact ⟨(hdone u hold).1, fun hmem => (hdone u hold).2 (List.mem_of_mem_filter hmem)⟩
    · refine ⟨hrun, ?_⟩
      intro hmem
      have hne := (List.mem_filter.1 hmem).2
      simp at hne
  · intro u hu
    rcases hsettled u hu with h | h | h
    · exact Or.inl h
    · exact Or.inr (Or.inl ((hmap u).2 (Or.inl h)))
    · by_cases hut : u = t
      · exact Or.inr (Or.inl ((hmap u).2 (Or.inr hut)))
      · refine Or.inr (Or.inr (List.mem_filter.2 ⟨h, ?_⟩))
        simpa using hut
  · intro u
    simp only
    rw [hidle]
    simp

theorem complete_kept (hs : Kept s) (hlive : s.live = []) (hstep : s.vchanComplete t = some s') :
    Kept s' := by
  obtain ⟨-, rfl⟩ := of_guard hstep
  obtain ⟨-, -, -, -, hpreps, -⟩ := freeHwDescChain_lists s.chan
  have hquiet := quiet_of_live hs.stage hlive
  refine ⟨hs.starts, hs.cookies, hs.alive, ?_, hs.distinct, hs.split, hs.issued, hs.executed,
    hs.done, hs.settled, .quiet hlive hquiet⟩
  intro u hu
  have hchan : (descFree s.chan t).preps = s.chan.preps := hpreps
  simp only
  rw [hchan]
  exact hs.small u hu

/-- **Termination** leaves nothing to be executed. -/
theorem terminate_kept (hs : Kept s) : Kept s.terminate := by
  have hpreps : (terminateAll s.chan).preps = s.chan.preps := by
    obtain ⟨-, -, -, -, hpreps, -⟩ := freeHwDescChain_lists s.chan
    unfold terminateAll
    split
    · exact hpreps
    · rfl
  refine ⟨hs.starts, hs.cookies, hs.alive, ?_, hs.distinct, hs.split, hs.issued, hs.executed,
    hs.done, ?_, .quiet ?_ ?_⟩
  · intro u hu
    have hchan : s.terminate.chan.preps = s.chan.preps := hpreps
    rw [hchan]
    exact hs.small u hu
  · intro u hu
    rcases hs.settled u hu with h | h
    · exact Or.inl (List.mem_append_left _ h)
    · exact Or.inr h
  · have hnone : s.issued.filter
        (fun u => u ∉ s.terminated ++ (s.allocated ++ s.submitted ++ s.issued)) = [] := by
      rw [List.filter_eq_nil_iff]
      intro u hu
      simp [hu]
    exact hnone
  · intro u
    unfold Sched.terminate
    simp only
    split <;> simp

theorem step_kept {a : SchedAct} (hs : Kept s) (hg : OneAtATime s a)
    (hstep : schedMachine.step s a = some s') : Kept s' := by
  cases a with
  | prep p interrupt =>
    rcases hg with hlive | hrefused
    · exact prep_kept hs hlive hstep
    · rw [prep_refused hrefused hstep]
      exact hs
  | submit t => exact submit_kept hs hstep
  | issuePending =>
    obtain rfl := Option.some.inj hstep
    exact issue_kept hs hg
  | channelDone => exact done_kept hs hstep
  | interrupt =>
    obtain rfl := Option.some.inj hstep
    exact interrupt_kept hs hg.1 hg.2
  | vchanComplete t => exact complete_kept hs hg hstep
  | terminateAll =>
    obtain rfl := Option.some.inj hstep
    exact terminate_kept hs

theorem init_kept (hinit : schedMachine.init s) : Kept s := by
  obtain ⟨c, rfl⟩ := hinit
  refine ⟨?_, ⟨List.nodup_nil, ?_⟩, rfl, ?_, List.nodup_nil, rfl, ?_, List.Sublist.slnil, ?_, ?_,
    .quiet rfl (by intro u; simp)⟩
  · intro w hw
    exact absurd hw List.not_mem_nil
  · intro k hk
    exact absurd hk List.not_mem_nil
  · intro u hu
    exact absurd hu List.not_mem_nil
  · intro u hu
    exact absurd hu List.not_mem_nil
  · intro u hu
    exact absurd hu List.not_mem_nil
  · intro u hu
    exact absurd hu List.not_mem_nil

/-- **Transfers that are made one at a time** run once each, in order and to the end. -/
theorem scheduled_of_single {s : Sched} (hr : schedMachine.Reach OneAtATime s) : Scheduled s := by
  have hs : Kept s := hr.invariant (fun _ h => init_kept h) fun _ _ _ h hg hstep => step_kept h hg hstep
  refine ⟨hs.starts, ⟨(List.nodup_append.1 hs.distinct).2.1, ?_⟩, hs.cookies, ?_,
    hs.alive⟩
  · rw [hs.split]
    exact hs.executed.trans (List.sublist_append_left _ _)
  · intro hidle hsilent u hu hnot
    rcases hs.settled u hu with h | h | h
    · exact absurd h hnot
    · exact ⟨(hs.done u h).1, h⟩
    · have hlive : u ∈ s.live := by
        refine List.mem_filter.2 ⟨h, ?_⟩
        simpa using hnot
      rcases hs.stage with ⟨hnone, -⟩ | ⟨t, -, hrunning, -⟩ | ⟨t, -, -, hcompletion, henabled, -⟩
      · rw [hnone] at hlive
        exact absurd hlive List.not_mem_nil
      · rw [hidle] at hrunning
        exact absurd hrunning (by simp)
      · exact absurd ⟨hcompletion, henabled⟩ hsilent

/-- A channel with nothing on its lists. -/
def Sched.rest : Sched :=
  ⟨.rest, [], [], [], [], .idle, false, false, false, [], [], [], [], [], [], []⟩

/-- A scatterlist for the device, with the interrupt. -/
def toDevice : SchedAct := .prep (.prepSlaveSg twoEntries 2 .memToDev false (fun _ => (true, true))) true

/-- A transfer, another that is terminated while it runs, and a third. -/
def threeTransfers : List SchedAct :=
  [toDevice, .submit 0, .issuePending, .channelDone, .interrupt, .vchanComplete 0,
    toDevice, .submit 1, .issuePending, .terminateAll, .channelDone,
    toDevice, .submit 2, .issuePending, .channelDone, .interrupt]

theorem scheduled_of_single_three :
    ∃ s, schedMachine.exec .rest threeTransfers = some s ∧ s.executed = [0, 2] ∧ s.terminated = [1] ∧
      Scheduled s := by
  have hrun : (schedMachine.exec .rest threeTransfers).map (fun s => (s.executed, s.terminated)) =
      some ([0, 2], [1]) := by decide +kernel
  obtain ⟨s, hexec, hlists⟩ := Option.map_eq_some_iff.1 hrun
  obtain ⟨hexecuted, hterminated⟩ := Prod.mk.inj hlists
  have halong : schedMachine.Along OneAtATime .rest threeTransfers := by decide +kernel
  exact ⟨s, hexec, hexecuted, hterminated, scheduled_of_single (.of_exec ⟨_, rfl⟩ halong hexec)⟩

/-- Two transfers issued together. -/
def twoTogether : List SchedAct := [toDevice, toDevice, .submit 0, .submit 1, .issuePending]

/-- **Of two transfers issued together** the second is started. -/
theorem second_starts_first :
    ∃ s, schedMachine.exec .rest twoTogether = some s ∧ schedMachine.Reach (fun _ _ => True) s ∧ ¬Scheduled s := by
  have hrun : (schedMachine.exec .rest twoTogether).map Sched.starts = some [⟨1, some 0, true⟩] := by
    decide +kernel
  obtain ⟨s, hexec, hstarts⟩ := Option.map_eq_some_iff.1 hrun
  refine ⟨s, hexec, .of_exec ⟨_, rfl⟩ (Machine.along_true _ _) hexec, ?_⟩
  intro hs
  have hfirst := (hs.starts ⟨1, some 0, true⟩ (by rw [hstarts]; exact List.mem_singleton_self _)).1
  exact absurd hfirst (by simp)

end Br2Efinix.EfxDma
