import Mathlib.Data.List.Nodup
import Br2Efinix.EfxDma.Prep
import Br2Efinix.Lib.Machine

/-!
# Who owns the DMA descriptors

All transfers of a channel have their descriptors on the one `pending_list`, and a failed
prep, a completed transfer and `efx_dma_terminate_all` free the whole list.

* `ownership_of_alone`: a pair is freed once, and with its own transfer, in every run in
  which no transfer fails or completes beside another one.
* `completion_frees_other`: a transfer prepared beside another one loses its descriptors
  when the other completes.
-/

namespace Br2Efinix.EfxDma

/-- What happens to the descriptors of a channel. -/
inductive DmaAct
  | prepSlaveSg (sg : ℕ → SgEntry) (sgLen : ℕ) (direction : Direction) (reuse : Bool)
      (alloc : ℕ → Bool × Bool)
  | prepCyclic (bufAddr bufLen periodLen : ℕ) (direction : Direction) (alloc : ℕ → Bool × Bool)
  | prepDmaMemcpy (dstAddr srcAddr len : ℕ) (alloc : ℕ → Bool × Bool)
  | complete (t : ℕ)
  | terminateAll

def dmaMachine : Machine Chan DmaAct :=
  { init := fun c => c.pending = [] ∧ c.headDesc = none ∧ c.fresh = 1 ∧ c.freed = [] ∧ c.active = []
    step := fun c a =>
      match a with
      | .prepSlaveSg sg sgLen direction reuse alloc =>
        some (prepSlaveSg c sg sgLen direction reuse alloc).1
      | .prepCyclic bufAddr bufLen periodLen direction alloc =>
        -- a division by zero comes before the checks
        if periodLen = 0 then none
        else some (prepCyclic c bufAddr bufLen periodLen direction alloc).1
      | .prepDmaMemcpy dstAddr srcAddr len alloc => some (prepDmaMemcpy c dstAddr srcAddr len alloc).1
      | .complete t => if t ∈ c.active then some (descFree c t) else none
      | .terminateAll => some (terminateAll c) }

/-- The step from `c` to `c'` is no business of transfer `u`: a prep that fails, or the
completion of another transfer. -/
def DmaAct.Spares (c c' : Chan) (u : ℕ) : DmaAct → Prop
  | .complete t => u ≠ t
  | .terminateAll => False
  | _ => c'.active = c.active

/-- `G` says which steps are judged. -/
structure DescOwnership (G : Chan → DmaAct → Prop) (c : Chan) : Prop where
  /-- No pair is freed twice, -/
  once : c.freed.Nodup
  /-- none before its transfer has failed, completed or been terminated, -/
  finished : ∀ h ∈ c.freed, (c.mem h).owner ∉ c.active
  /-- and none is left then. -/
  all : ∀ h, 1 ≤ h → h < c.fresh → (c.mem h).owner ∉ c.active → h ∈ c.freed
  /-- A step leaves the descriptors of other transfers, and their head, as they were. -/
  isolated : ∀ a c' u, G c a → dmaMachine.step c a = some c' → a.Spares c c' u → u ∈ c.active →
    (∀ h, 1 ≤ h → h < c.fresh → h ∉ c.freed → (c.mem h).owner = u →
      h ∉ c'.freed ∧ c'.mem h = c.mem h) ∧
    ∀ k, c.headDesc = some k → (c.mem k).owner = u → c'.headDesc = some k

/-- The elements that a prep function asks memory for: none when it rejects its arguments. -/
def DmaAct.elems : DmaAct → ℕ
  | .prepSlaveSg _ sgLen _ reuse _ => if sgLen = 0 then 0 else if reuse then sgLen else sgLen + 1
  | .prepCyclic bufAddr bufLen periodLen _ _ =>
    if bufAddr = 0 ∨ bufLen = 0 ∨ periodLen > bufLen then 0 else bufLen / periodLen
  | .prepDmaMemcpy dstAddr srcAddr len _ => if dstAddr = 0 ∨ srcAddr = 0 ∨ len = 0 then 0 else len
  | .complete _ => 0
  | .terminateAll => 0

def DmaAct.alloc : DmaAct → ℕ → Bool × Bool
  | .prepSlaveSg _ _ _ _ alloc => alloc
  | .prepCyclic _ _ _ _ alloc => alloc
  | .prepDmaMemcpy _ _ _ alloc => alloc
  | .complete _ => fun _ => (true, true)
  | .terminateAll => fun _ => (true, true)

def DmaAct.completed : DmaAct → Option ℕ
  | .complete t => some t
  | _ => none

/-- While other transfers are outstanding, none completes and no allocation of a new one
fails. -/
structure Alone (c : Chan) (a : DmaAct) : Prop where
  allocs : c.active ≠ [] → ∀ i < a.elems, a.alloc i = (true, true)
  completes : ∀ t ∈ a.completed, ∀ u ∈ c.active, u = t

instance (c : Chan) (a : DmaAct) : Decidable (Alone c a) :=
  decidable_of_iff ((c.active ≠ [] → ∀ i < a.elems, a.alloc i = (true, true)) ∧
    ∀ t ∈ a.completed, ∀ u ∈ c.active, u = t) ⟨fun h => ⟨h.1, h.2⟩, fun h => ⟨h.allocs, h.completes⟩⟩

/-! ## The invariant -/

/-- Every pair is on one of two lists, as its transfer is outstanding or not. -/
structure Held (c : Chan) : Prop where
  pos : 1 ≤ c.fresh
  nodup : (c.freed ++ c.pending).Nodup
  pairs : ∀ h, h ∈ c.freed ++ c.pending ↔ 1 ≤ h ∧ h < c.fresh
  owners : ∀ h, h < c.fresh → 1 ≤ h → (c.mem h).owner < c.preps
  called : ∀ t ∈ c.active, t < c.preps
  distinct : c.active.Nodup
  holds : ∀ h ∈ c.pending, (c.mem h).owner ∈ c.active
  dropped : ∀ h ∈ c.freed, (c.mem h).owner ∉ c.active
  head : c.pending ≠ [] → c.headDesc.isSome = true

variable {c c' c₁ : Chan} {a : InitArgs} {alloc : ℕ → Bool × Bool}

/-- Freeing the list moves it to the freed ones. -/
theorem freeHwDescChain_lists (c : Chan) :
    c.freeHwDescChain.pending = [] ∧ c.freeHwDescChain.freed = c.freed ++ c.pending ∧
      c.freeHwDescChain.mem = c.mem ∧ c.freeHwDescChain.fresh = c.fresh ∧
      c.freeHwDescChain.preps = c.preps ∧ c.freeHwDescChain.active = c.active := by
  unfold Chan.freeHwDescChain
  split
  · rename_i hempty
    exact ⟨hempty, by rw [hempty, List.append_nil], rfl, rfl, rfl, rfl⟩
  · exact ⟨rfl, rfl, rfl, rfl, rfl, rfl⟩

/-- **Everything is freed** when nothing is outstanding afterwards. -/
theorem held_of_freed (hc : Held c) (hpending : c'.pending = []) (hfreed : c'.freed = c.freed ++ c.pending)
    (hmem : c'.mem = c.mem) (hfresh : c'.fresh = c.fresh) (hpreps : c'.preps = c.preps)
    (hactive : c'.active = []) : Held c' := by
  have hlists : c'.freed ++ c'.pending = c.freed ++ c.pending := by
    rw [hpending, hfreed, List.append_nil]
  refine ⟨by rw [hfresh]; exact hc.pos, by rw [hlists]; exact hc.nodup, fun h => ?_, fun h hlt hpos => ?_,
    fun t ht => ?_, ?_, fun h hh => ?_, fun h _ => ?_, fun hne => absurd hpending hne⟩
  · rw [hlists, hfresh]
    exact hc.pairs h
  · rw [hfresh] at hlt
    rw [hmem, hpreps]
    exact hc.owners h hlt hpos
  · rw [hactive] at ht
    exact absurd ht List.not_mem_nil
  · rw [hactive]
    exact List.nodup_nil
  · rw [hpending] at hh
    exact absurd hh List.not_mem_nil
  · rw [hactive]
    exact List.not_mem_nil

/-- **A chain that has been begun** has new handles, which belong to the call. -/
theorem partial_held (hc : Held c) {j : ℕ} (hp : Partial a c.preps c.called j c₁) :
    (c₁.freed ++ c₁.pending).Nodup ∧ (∀ h, h ∈ c₁.freed ++ c₁.pending ↔ 1 ≤ h ∧ h < c₁.fresh) ∧
      (∀ h < c₁.fresh, 1 ≤ h → (c₁.mem h).owner < c₁.preps) ∧
      (∀ h ∈ c₁.pending, h ∈ c.pending ∧ (c₁.mem h).owner = (c.mem h).owner ∨
        (c₁.mem h).owner = c.preps) ∧
      ∀ h ∈ c₁.freed, h ∈ c.freed ∧ (c₁.mem h).owner = (c.mem h).owner := by
  have hfresh : c₁.fresh = c.fresh + j := hp.fresh
  have hfreed : c₁.freed = c.freed := hp.freed
  have hlist : c₁.pending = c.pending ++ List.range' c.fresh j := hp.pending
  have hpreps : c₁.preps = c.preps + 1 := hp.preps
  have hold : ∀ h < c.fresh, c₁.mem h = c.mem h := hp.old
  have hnew : ∀ i < j, (c₁.mem (c.fresh + i)).owner = c.preps := by
    intro i hi
    have hdesc : c₁.mem (c.fresh + i) = built a c.preps c.fresh j i := hp.new i hi
    rw [hdesc]
    rfl
  have hlt : ∀ h, h ∈ c.freed ∨ h ∈ c.pending → 1 ≤ h ∧ h < c.fresh := by
    intro h hh
    exact (hc.pairs h).1 (List.mem_append.2 hh)
  have hpos := hc.pos
  rw [hfreed, hlist, hfresh, hpreps, ← List.append_assoc]
  refine ⟨List.nodup_append.2 ⟨hc.nodup, List.nodup_range', ?_⟩, ?_,
    ?_, ?_, fun h hh => ⟨hh, ?_⟩⟩
  · intro h hh k hk
    have h1 := (hc.pairs h).1 hh
    have h2 := List.mem_range'_1.1 hk
    omega
  · intro h
    rw [List.mem_append, hc.pairs, List.mem_range'_1]
    omega
  · intro h hh h1
    by_cases hnot : h < c.fresh
    · rw [hold h hnot]
      exact Nat.lt_succ_of_lt (hc.owners h hnot h1)
    · have howner := hnew (h - c.fresh) (by omega)
      rw [show c.fresh + (h - c.fresh) = h by omega] at howner
      omega
  · intro h hh
    rcases List.mem_append.1 hh with hin | hin
    · rw [hold h (hlt h (Or.inr hin)).2]
      exact Or.inl ⟨hin, rfl⟩
    · have hrange := List.mem_range'_1.1 hin
      have howner := hnew (h - c.fresh) (by omega)
      rw [show c.fresh + (h - c.fresh) = h by omega] at howner
      exact Or.inr howner
  · rw [hold h (hlt h (Or.inl hh)).2]

/-- **A chain that has been built** belongs to the new transfer, which is outstanding. -/
theorem built_held (hc : Held c) (hlen : 0 < a.len) (hp : Partial a c.preps c.called a.len c₁) :
    Held { c₁ with active := c.active ++ [c.preps] } := by
  obtain ⟨hnodup, hpairs, howners, hpend, hdrop⟩ := partial_held hc hp
  have hhead : c₁.headDesc = some c.fresh := by
    have hhead := hp.headDesc
    rw [if_neg (by omega)] at hhead
    exact hhead
  have hpreps : c₁.preps = c.preps + 1 := hp.preps
  refine ⟨?_, hnodup, hpairs, howners, ?_, ?_, ?_, ?_, ?_⟩
  · have hfresh : c₁.fresh = c.fresh + a.len := hp.fresh
    have hpos := hc.pos
    simp only
    omega
  · intro t ht
    simp only at ht ⊢
    rw [hpreps]
    rcases List.mem_append.1 ht with hin | hin
    · exact Nat.lt_succ_of_lt (hc.called t hin)
    · rw [List.mem_singleton.1 hin]
      exact Nat.lt_succ_self _
  · refine List.nodup_append.2 ⟨hc.distinct, List.nodup_singleton _, ?_⟩
    intro t ht u hu
    have hlt := hc.called t ht
    rw [List.mem_singleton.1 hu]
    omega
  · intro h hh
    simp only at hh ⊢
    rw [List.mem_append, List.mem_singleton]
    rcases hpend h hh with ⟨hin, howner⟩ | howner
    · rw [howner]
      exact Or.inl (hc.holds h hin)
    · exact Or.inr howner
  · -- what was freed before belongs to an earlier call
    intro h hh
    simp only at hh ⊢
    obtain ⟨hin, howner⟩ := hdrop h hh
    rw [howner, List.mem_append, List.mem_singleton]
    rintro (hmem | hself)
    · exact hc.dropped h hin hmem
    · obtain ⟨hpos, hlt⟩ := (hc.pairs h).1 (List.mem_append_left _ hin)
      have hsmall := hc.owners h hlt hpos
      omega
  · intro _
    simp only
    rw [hhead]
    rfl

/-- **A chain that has been given up** is freed with all others, as nothing is outstanding. -/
theorem failed_held (hc : Held c) (hnone : c.active = []) {j : ℕ} (hp : Partial a c.preps c.called j c₁) :
    Held c₁.freeHwDescChain := by
  obtain ⟨hnodup, hpairs, howners, -, -⟩ := partial_held hc hp
  obtain ⟨g1, g2, g3, g4, g5, g6⟩ := freeHwDescChain_lists c₁
  have hactive : c₁.active = [] := hp.active.trans hnone
  have hfresh : c₁.fresh = c.fresh + j := hp.fresh
  have hpos := hc.pos
  refine ⟨by omega, ?_, ?_, ?_, ?_, ?_, ?_, ?_, fun hne => absurd g1 hne⟩
  · rw [g1, g2, List.append_nil]
    exact hnodup
  · intro h
    rw [g1, g2, g4, List.append_nil]
    exact hpairs h
  · intro h hlt h1
    rw [g3, g5]
    exact howners h (by omega) h1
  · intro t ht
    rw [g6, hactive] at ht
    exact absurd ht List.not_mem_nil
  · rw [g6, hactive]
    exact List.nodup_nil
  · intro h hh
    rw [g1] at hh
    exact absurd hh List.not_mem_nil
  · intro h _
    rw [g6, hactive]
    exact List.not_mem_nil

/-- **A prep function** keeps every pair on its list, and leaves the outstanding transfers
alone or there are none. -/
theorem prep_held (hc : Held c) (hlen : 0 < a.len)
    (hallocs : c.active ≠ [] → ∀ i < a.len, alloc i = (true, true)) :
    Held (finishPrep (hwDescInit c a alloc)).1 ∧
      ((finishPrep (hwDescInit c a alloc)).1.active = c.active → c.active = []) := by
  rcases hwDescInit_spec c a alloc with ⟨c₁, hinit, hp⟩ | ⟨j, c₁, hinit, hp, hj, hfail⟩
  · have hhead : c₁.headDesc = some c.fresh := by
      have hhead := hp.headDesc
      rw [if_neg (by omega)] at hhead
      exact hhead
    have hfirst : (c₁.mem c.fresh).owner = c.preps := by
      have hdesc : c₁.mem (c.fresh + 0) = built a c.preps c.fresh a.len 0 := hp.new 0 hlen
      rw [Nat.add_zero] at hdesc
      rw [hdesc]
      rfl
    have hactive : c₁.active = c.active := hp.active
    have hprep : (finishPrep (hwDescInit c a alloc)).1 =
        { c₁ with active := c.active ++ [c.preps] } := by
      unfold finishPrep
      rw [hinit]
      simp only [if_true, hhead, hfirst, hactive]
    rw [hprep]
    refine ⟨built_held hc hlen hp, ?_⟩
    intro hsame
    simp only at hsame
    have hlength := congrArg List.length hsame
    rw [List.length_append, List.length_singleton] at hlength
    omega
  · -- an allocation fails only when nothing is outstanding
    have hnone : c.active = [] := by
      rcases hlist : c.active with _ | ⟨t, rest⟩
      · rfl
      · exact absurd (hallocs (by rw [hlist]; simp) j hj) hfail
    have hprep : (finishPrep (hwDescInit c a alloc)).1 = c₁.freeHwDescChain := by
      unfold finishPrep
      rw [hinit]
      rfl
    rw [hprep]
    exact ⟨failed_held hc hnone hp, fun _ => hnone⟩

/-- What a step keeps, and that it leaves the channel as it is for a transfer that it should
spare. -/
theorem step_held (hc : Held c) {b : DmaAct} (hg : Alone c b) (hstep : dmaMachine.step c b = some c') :
    Held c' ∧ ∀ u ∈ c.active, b.Spares c c' u → c' = c := by
  have hallocs := hg.allocs
  have hprep : ∀ {a : InitArgs} {alloc : ℕ → Bool × Bool}, 0 < a.len →
      (c.active ≠ [] → ∀ i < a.len, alloc i = (true, true)) →
      c' = (finishPrep (hwDescInit c a alloc)).1 →
      Held c' ∧ ∀ u ∈ c.active, c'.active = c.active → c' = c := by
    intro a alloc hlen hall hc'
    obtain ⟨hheld, hspare⟩ := prep_held hc hlen hall
    rw [← hc'] at hheld hspare
    refine ⟨hheld, ?_⟩
    intro u hu hs
    rw [hspare hs] at hu
    exact absurd hu List.not_mem_nil
  cases b with
  | prepSlaveSg sg sgLen direction reuse alloc =>
    have hc' := (Option.some.inj hstep).symm
    unfold prepSlaveSg at hc'
    split at hc'
    · obtain rfl := hc'
      exact ⟨hc, fun _ _ _ => rfl⟩
    · rename_i hn
      unfold DmaAct.elems at hallocs
      simp only [if_neg hn] at hallocs
      exact hprep (by simp only; split <;> omega) hallocs hc'
  | prepCyclic bufAddr bufLen periodLen direction alloc =>
    unfold dmaMachine at hstep
    simp only at hstep
    split at hstep
    · exact absurd hstep (by simp)
    · rename_i hperiod
      have hc' := (Option.some.inj hstep).symm
      unfold prepCyclic at hc'
      split at hc'
      · obtain rfl := hc'
        exact ⟨hc, fun _ _ _ => rfl⟩
      · rename_i hvalid
        unfold DmaAct.elems at hallocs
        simp only [if_neg hvalid] at hallocs
        have hlen : 0 < bufLen / periodLen := Nat.div_pos (by omega) (by omega)
        exact hprep hlen hallocs hc'
  | prepDmaMemcpy dstAddr srcAddr len alloc =>
    have hc' := (Option.some.inj hstep).symm
    unfold prepDmaMemcpy at hc'
    split at hc'
    · obtain rfl := hc'
      exact ⟨hc, fun _ _ _ => rfl⟩
    · rename_i hvalid
      unfold DmaAct.elems at hallocs
      simp only [if_neg hvalid] at hallocs
      have hlen : 0 < len := by omega
      exact hprep hlen hallocs hc'
  | complete t =>
    unfold dmaMachine at hstep
    simp only at hstep
    split at hstep
    · rename_i ht
      obtain rfl := (Option.some.inj hstep).symm
      have hown : ∀ u ∈ c.active, u = t := hg.completes t rfl
      -- the transfer is the only one
      have hlast : c.active.erase t = [] := by
        rw [List.eq_nil_iff_forall_not_mem]
        intro u hu
        obtain ⟨hne, hin⟩ := (List.Nodup.mem_erase_iff hc.distinct).1 hu
        exact hne (hown u hin)
      obtain ⟨g1, g2, g3, g4, g5, -⟩ := freeHwDescChain_lists c
      exact ⟨held_of_freed hc g1 g2 g3 g4 g5 hlast, fun u hu hs => absurd (hown u hu) hs⟩
    · exact absurd hstep (by simp)
  | terminateAll =>
    obtain rfl := (Option.some.inj hstep).symm
    refine ⟨?_, fun u hu hs => hs.elim⟩
    unfold terminateAll
    by_cases hhead : c.headDesc.isSome = true
    · simp only [if_pos hhead]
      obtain ⟨g1, g2, g3, g4, g5, -⟩ := freeHwDescChain_lists c
      exact held_of_freed hc g1 g2 g3 g4 g5 rfl
    · simp only [if_neg hhead]
      have hpending : c.pending = [] := by
        by_contra hne
        exact hhead (hc.head hne)
      refine held_of_freed hc hpending ?_ rfl rfl rfl rfl
      simp only
      rw [hpending, List.append_nil]

theorem init_held (hinit : dmaMachine.init c) : Held c := by
  obtain ⟨hpending, -, hfresh, hfreed, hactive⟩ := hinit
  refine ⟨by omega, ?_, ?_, ?_, ?_, ?_, ?_,
    ?_, fun hne => absurd hpending hne⟩
  · rw [hfreed, hpending]
    exact List.nodup_nil
  · intro h
    rw [hfreed, hpending, hfresh, List.append_nil]
    constructor
    · intro hh
      exact absurd hh List.not_mem_nil
    · intro hh
      omega
  · intro h hlt hpos
    omega
  · intro t ht
    rw [hactive] at ht
    exact absurd ht List.not_mem_nil
  · rw [hactive]
    exact List.nodup_nil
  · intro h hh
    rw [hpending] at hh
    exact absurd hh List.not_mem_nil
  · intro h hh
    rw [hfreed] at hh
    exact absurd hh List.not_mem_nil

/-- **A pair is freed once and with its own transfer** in every run in which no transfer
completes beside another one, and no prep fails beside one. -/
theorem ownership_of_alone {c : Chan} (hr : dmaMachine.Reach Alone c) : DescOwnership Alone c := by
  have hc : Held c := hr.invariant (fun _ h => init_held h) fun _ _ _ h hg hs => (step_held h hg hs).1
  refine ⟨(List.nodup_append.1 hc.nodup).1, hc.dropped, ?_,
    ?_⟩
  · intro h hpos hlt hnot
    rcases List.mem_append.1 ((hc.pairs h).2 ⟨hpos, hlt⟩) with hin | hin
    · exact hin
    · exact absurd (hc.holds h hin) hnot
  · intro b c' u hg hstep hs hu
    obtain rfl := (step_held hc hg hstep).2 u hu hs
    exact ⟨fun h _ _ hnot _ => ⟨hnot, rfl⟩, fun k hk _ => hk⟩

/-- A copy, another one whose third allocation fails, then two beside each other. -/
def failsBetween : List DmaAct :=
  [.prepDmaMemcpy 8192 4096 2 (fun _ => (true, true)), .complete 0,
    .prepDmaMemcpy 8192 4096 4 (fun i => (true, i != 2)),
    .prepSlaveSg twoEntries 2 .memToDev false (fun _ => (true, true)),
    .prepDmaMemcpy 8192 4096 2 (fun _ => (true, true))]

theorem rest_init : dmaMachine.init .rest := ⟨rfl, rfl, rfl, rfl, rfl⟩

theorem ownership_of_alone_two :
    ∃ c, dmaMachine.exec .rest failsBetween = some c ∧ c.freed = [1, 2, 3, 4] ∧
      c.pending = [5, 6, 7, 8, 9] ∧ c.active = [2, 3] ∧ DescOwnership Alone c := by
  have hrun : (dmaMachine.exec .rest failsBetween).map (fun c => (c.freed, c.pending, c.active)) =
      some ([1, 2, 3, 4], [5, 6, 7, 8, 9], [2, 3]) := by decide +kernel
  obtain ⟨c, hexec, hlists⟩ := Option.map_eq_some_iff.1 hrun
  obtain ⟨hfreed, hrest⟩ := Prod.mk.inj hlists
  obtain ⟨hpending, hactive⟩ := Prod.mk.inj hrest
  have halong : dmaMachine.Along Alone .rest failsBetween := by decide +kernel
  exact ⟨c, hexec, hfreed, hpending, hactive,
    ownership_of_alone (.of_exec rest_init halong hexec)⟩

/-- Two copies beside each other, of which the first completes. -/
def firstOfTwo : List DmaAct :=
  [.prepDmaMemcpy 8192 4096 2 (fun _ => (true, true)),
    .prepDmaMemcpy 16384 4096 2 (fun _ => (true, true)), .complete 0]

/-- **The completion of the first copy** frees the descriptors of the second one. -/
theorem completion_frees_other :
    ∃ c, dmaMachine.exec .rest firstOfTwo = some c ∧ dmaMachine.Reach (fun _ _ => True) c ∧
      ¬DescOwnership (fun _ _ => True) c := by
  have hrun : (dmaMachine.exec .rest firstOfTwo).map (fun c => (c.freed, (c.mem 3).owner, c.active)) =
      some ([1, 2, 3, 4], 1, [1]) := by decide +kernel
  obtain ⟨c, hexec, hlists⟩ := Option.map_eq_some_iff.1 hrun
  obtain ⟨hfreed, hrest⟩ := Prod.mk.inj hlists
  obtain ⟨howner, hactive⟩ := Prod.mk.inj hrest
  refine ⟨c, hexec, .of_exec rest_init (Machine.along_true _ _) hexec, ?_⟩
  intro hown
  have hnot := hown.finished 3 (by rw [hfreed]; simp)
  rw [howner, hactive] at hnot
  exact hnot List.mem_cons_self

end Br2Efinix.EfxDma
