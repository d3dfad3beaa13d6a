import Br2Efinix.Tsemac.RxRing

/-!
# Where the receive buffers are

A buffer is in a slot of the ring, with the stack, or freed, and a mapping is that of a
buffer in a slot or undone.

* `buffers_kept`: both partitions hold in every run in which no frame has a bad length,
  and the ring is released when it is set up and has no gap.
* `bad_length_keeps_mapping`: a frame that is too long leaves its mapping behind.
-/

namespace Br2Efinix.Tsemac

open Table

namespace Rx

/-- The buffers in the ring. -/
def ringSkbs (s : Rx) : List ℕ := entries s.n fun i => (s.ring i).skb

/-- The mappings of the buffers in the ring. -/
def ringMaps (s : Rx) : List ℕ := entries s.n fun i => (s.ring i).mapping

end Rx

/-- The buffers allocated are those of `skbs`, those handed to the stack and those freed, each in
one place; the mappings made are those of `maps` and those undone. -/
structure Accounts (s : Rx) (skbs maps : List ℕ) : Prop where
  skbs : (List.range s.skbs).Perm (skbs ++ (s.handed ++ s.freed))
  maps : s.mapped.Perm (maps ++ s.unmapped)
  once : s.mapped.Nodup
  small : ∀ b ∈ s.mapped, b < s.skbs

/-- Without a ring nothing remains. -/
def BuffersKept (s : Rx) : Prop :=
  Accounts s (if s.up then s.ringSkbs else []) (if s.up then s.ringMaps else [])

/-- No slot without a buffer comes before one that has one. -/
def NoGap (s : Rx) : Prop := ∀ j < s.n, ∀ i < j, (s.ring i).skb = none → (s.ring j).skb = none

instance (s : Rx) : Decidable (NoGap s) := by unfold NoGap; infer_instance

/-- What the loop of `tsemac_rx_poll` may find in its descriptor: no buffer, or a frame of a length
that it accepts. -/
def GoodLength (s : Rx) : Prop :=
  (s.ring s.ci).completed = true → (s.ring s.ci).skb = none ∨
    1 ≤ (s.ring s.ci).bytes ∧ (s.ring s.ci).bytes ≤ s.maxFrm

instance (s : Rx) : Decidable (GoodLength s) := by unfold GoodLength; infer_instance

/-- The loop of `tsemac_rx_poll` has budget left. -/
def Rx.looping (s : Rx) : Bool :=
  match s.poll with
  | .loop budget packets => packets < budget
  | _ => false

/-- The ring is set up once and released once, without a gap, and no frame is refused. -/
def RxOrderly (s : Rx) : RxAct → Prop
  | .open_ _ _ _ _ => s.up = false
  | .stop => s.up = true ∧ NoGap s
  | .startPoll _ => s.up = true
  | .poll _ _ => s.looping = true → GoodLength s
  | .engine _ => True

instance : ∀ s a, Decidable (RxOrderly s a)
  | s, .open_ _ _ _ _ => inferInstanceAs (Decidable (s.up = false))
  | s, .stop => inferInstanceAs (Decidable (s.up = true ∧ NoGap s))
  | s, .startPoll _ => inferInstanceAs (Decidable (s.up = true))
  | s, .poll _ _ => inferInstanceAs (Decidable (s.looping = true → GoodLength s))
  | _, .engine _ => isTrue trivial

variable {s s' : Rx} {skbs maps : List ℕ} {alloc : ℕ → Bool × Bool}

/-! ## Releasing -/

theorem releaseLoop_eq (k i : ℕ) (s : Rx)
    (hgap : ∀ b, b < i + k → ∀ a, i ≤ a → a < b → (s.ring a).skb = none → (s.ring b).skb = none) :
    Rx.releaseLoop k i s =
      { s with
        freed := s.freed ++ (List.range' i k).filterMap fun j => (s.ring j).skb
        unmapped := s.unmapped ++ (List.range' i k).filterMap fun j => (s.ring j).mapping } := by
  induction k generalizing i s with
  | zero =>
    unfold Rx.releaseLoop
    simp
  | succ k ih =>
    unfold Rx.releaseLoop
    rw [List.range'_succ]
    split
    · rename_i hnone
      -- the slots after the first gap are empty
      have hrest : ∀ j ∈ i :: List.range' (i + 1) k, (s.ring j).skb = none := by
        intro j hj
        rcases List.mem_cons.1 hj with rfl | hlater
        · exact hnone
        · obtain ⟨h1, h2⟩ := List.mem_range'_1.1 hlater
          exact hgap j (by omega) i (Nat.le_refl i) (by omega) hnone
      have hskbs : (i :: List.range' (i + 1) k).filterMap (fun j => (s.ring j).skb) = [] :=
        List.filterMap_eq_nil_iff.2 hrest
      have hmaps : (i :: List.range' (i + 1) k).filterMap (fun j => (s.ring j).mapping) = [] := by
        rw [List.filterMap_eq_nil_iff]
        intro j hj
        unfold RxDesc.mapping
        rw [hrest j hj]
        rfl
      rw [hskbs, hmaps, List.append_nil, List.append_nil]
    · rename_i b hb
      rw [ih (i + 1) _ (by
        intro q hq p hp hpq
        exact hgap q (by omega) p (by omega) hpq)]
      simp only [List.filterMap_cons, hb]
      unfold RxDesc.mapping
      by_cases hcontrol : (s.ring i).control = 0
      · simp [hb, hcontrol]
      · simp [hb, hcontrol]

/-- **Releasing a ring without a gap** leaves nothing. -/
theorem release_accounts (hs : Accounts s s.ringSkbs s.ringMaps) (hgap : NoGap s)
    (hallocated : s.allocated = true) : Accounts s.bdRelease [] [] ∧ s.bdRelease.up = false ∧
      s.bdRelease.poll = s.poll := by
  have hloop := releaseLoop_eq s.n 0 s (by
    intro q hq p _ hpq
    exact hgap q (by omega) p hpq)
  rw [← List.range_eq_range'] at hloop
  obtain ⟨hskbs, hmaps, honce, hsmall⟩ := hs
  unfold Rx.bdRelease
  rw [if_pos hallocated, hloop]
  refine ⟨⟨?_, ?_, honce, hsmall⟩, rfl, rfl⟩
  · apply hskbs.trans
    rw [List.perm_iff_count]
    intro b
    simp only [List.count_append, List.count_nil, Rx.ringSkbs, entries]
    omega
  · apply hmaps.trans
    rw [List.perm_iff_count]
    intro b
    simp only [List.count_append, List.count_nil, Rx.ringMaps, entries]
    omega

/-! ## The books -/

/-- A new buffer is put in the ring. -/
theorem accounts_alloc {r : Rx} (hs : Accounts s skbs maps) {skbs' maps' : List ℕ} (hnew : r.skbs = s.skbs + 1)
    (hhanded : r.handed = s.handed) (hfreed : r.freed = s.freed) (hmapped : r.mapped = s.mapped)
    (hunmapped : r.unmapped = s.unmapped) (hS : skbs'.Perm (s.skbs :: skbs)) (hM : maps'.Perm maps) :
    Accounts r skbs' maps' := by
  obtain ⟨hskbs, hmaps, honce, hsmall⟩ := hs
  refine ⟨?_, ?_, by rw [hmapped]; exact honce, fun b hb => ?_⟩
  · rw [hnew, hhanded, hfreed, List.range_succ]
    exact books_gain hskbs hS
  · rw [hmapped, hunmapped]
    exact hmaps.trans (hM.symm.append_right _)
  · rw [hmapped] at hb
    rw [hnew]
    exact Nat.lt_succ_of_lt (hsmall b hb)

/-- The last buffer is mapped. -/
theorem accounts_map {r : Rx} (hs : Accounts s skbs maps) {maps' : List ℕ} {b : ℕ} (hskbs : r.skbs = s.skbs)
    (hhanded : r.handed = s.handed) (hfreed : r.freed = s.freed) (hmapped : r.mapped = s.mapped ++ [b])
    (hunmapped : r.unmapped = s.unmapped) (hb : b < s.skbs) (hnew : b ∉ s.mapped)
    (hM : maps'.Perm (b :: maps)) : Accounts r skbs maps' := by
  obtain ⟨hperm, hmaps, honce, hsmall⟩ := hs
  refine ⟨?_, ?_, ?_, ?_⟩
  · rw [hskbs, hhanded, hfreed]
    exact hperm
  · rw [hmapped, hunmapped]
    exact books_gain hmaps hM
  · rw [hmapped, List.nodup_append]
    refine ⟨honce, List.nodup_singleton b, ?_⟩
    intro c hc d hd
    rw [List.mem_singleton.1 hd]
    rintro rfl
    exact hnew hc
  · intro c hc
    rw [hmapped] at hc
    rw [hskbs]
    rcases List.mem_append.1 hc with hold | hlast
    · exact hsmall c hold
    · rw [List.mem_singleton.1 hlast]
      exact hb

/-- A new buffer that cannot be mapped is freed. -/
theorem accounts_lost {r : Rx} (hs : Accounts s skbs maps) (hnew : r.skbs = s.skbs + 1)
    (hhanded : r.handed = s.handed) (hfreed : r.freed = s.freed ++ [s.skbs])
    (hmapped : r.mapped = s.mapped) (hunmapped : r.unmapped = s.unmapped) : Accounts r skbs maps := by
  obtain ⟨hskbs, hmaps, honce, hsmall⟩ := hs
  refine ⟨?_, ?_, by rw [hmapped]; exact honce, fun b hb => ?_⟩
  · rw [hnew, hhanded, hfreed, List.range_succ]
    -- it is held for a moment
    have hheld : (List.range s.skbs ++ [s.skbs]).Perm ((s.skbs :: skbs) ++ (s.handed ++ s.freed)) :=
      books_gain hskbs (List.Perm.refl _)
    have hgone : (s.skbs :: skbs).Perm ([s.skbs] ++ skbs) := List.Perm.refl _
    have hout : (s.handed ++ (s.freed ++ [s.skbs])).Perm ((s.handed ++ s.freed) ++ [s.skbs]) := by
      rw [List.append_assoc]
    exact books_leave hheld hgone hout
  · rw [hmapped, hunmapped]
    exact hmaps
  · rw [hmapped] at hb
    rw [hnew]
    exact Nat.lt_succ_of_lt (hsmall b hb)

/-- A buffer of the ring is unmapped and handed to the stack. -/
theorem accounts_hand {r : Rx} (hs : Accounts s skbs maps) {skbs' maps' : List ℕ} {b m : ℕ}
    (hskbs : r.skbs = s.skbs) (hhanded : r.handed = s.handed ++ [b]) (hfreed : r.freed = s.freed)
    (hmapped : r.mapped = s.mapped) (hunmapped : r.unmapped = s.unmapped ++ [m])
    (hS : skbs.Perm (b :: skbs')) (hM : maps.Perm (m :: maps')) : Accounts r skbs' maps' := by
  obtain ⟨hperm, hmaps, honce, hsmall⟩ := hs
  refine ⟨?_, ?_, by rw [hmapped]; exact honce, fun c hc => ?_⟩
  · rw [hskbs, hhanded, hfreed]
    have hout := two_places s.handed s.freed [b] []
    rw [List.append_nil, List.append_nil] at hout
    exact books_leave hperm hS hout
  · rw [hmapped, hunmapped]
    exact books_leave hmaps hM (List.Perm.refl _)
  · rw [hmapped] at hc
    rw [hskbs]
    exact hsmall c hc

/-! ## The slots -/

variable {i : ℕ} {d : RxDesc} {b : ℕ}

theorem setDesc_ne {j : ℕ} (hj : j ≠ i) : (s.setDesc i d).ring j = s.ring j := by
  unfold Rx.setDesc
  simp only
  rw [if_neg hj]

theorem setDesc_self : (s.setDesc i d).ring i = d := by
  unfold Rx.setDesc
  simp only [if_true]

/-! What the slots hold, where `g` is the buffer or the mapping of a descriptor. -/

theorem slots_put (g : RxDesc → Option ℕ) (hi : i < s.n) (hempty : g (s.ring i) = none) (hd : g d = some b) :
    (entries s.n fun j => g ((s.setDesc i d).ring j)).Perm (b :: entries s.n fun j => g (s.ring j)) := by
  apply entries_take hi
  · rw [setDesc_self]
    exact hd
  · exact hempty
  · intro j hj
    rw [setDesc_ne hj]

theorem slots_take (g : RxDesc → Option ℕ) (hi : i < s.n) (hfull : g (s.ring i) = some b) (hd : g d = none) :
    (entries s.n fun j => g (s.ring j)).Perm (b :: entries s.n fun j => g ((s.setDesc i d).ring j)) := by
  apply entries_take hi hfull
  · rw [setDesc_self]
    exact hd
  · intro j hj
    rw [setDesc_ne hj]

theorem slots_keep (g : RxDesc → Option ℕ) (hd : g d = g (s.ring i)) :
    (entries s.n fun j => g ((s.setDesc i d).ring j)) = entries s.n fun j => g (s.ring j) := by
  apply entries_congr
  intro j _
  by_cases hj : j = i
  · rw [hj, setDesc_self, hd]
  · rw [setDesc_ne hj]

/-- A buffer is put in an empty slot. -/
theorem ringSkbs_put (hi : i < s.n) (hempty : (s.ring i).skb = none) (hd : d.skb = some b) :
    (s.setDesc i d).ringSkbs.Perm (b :: s.ringSkbs) := slots_put RxDesc.skb hi hempty hd

/-- A buffer leaves its slot. -/
theorem ringSkbs_take (hi : i < s.n) (hfull : (s.ring i).skb = some b) (hd : d.skb = none) :
    s.ringSkbs.Perm (b :: (s.setDesc i d).ringSkbs) := slots_take RxDesc.skb hi hfull hd

theorem ringMaps_put (hi : i < s.n) (hempty : (s.ring i).mapping = none) (hd : d.mapping = some b) :
    (s.setDesc i d).ringMaps.Perm (b :: s.ringMaps) := slots_put RxDesc.mapping hi hempty hd

theorem ringMaps_take (hi : i < s.n) (hfull : (s.ring i).mapping = some b) (hd : d.mapping = none) :
    s.ringMaps.Perm (b :: (s.setDesc i d).ringMaps) := slots_take RxDesc.mapping hi hfull hd

/-- What a slot holds is not changed by its status. -/
theorem ringSkbs_keep (hd : d.skb = (s.ring i).skb) : (s.setDesc i d).ringSkbs = s.ringSkbs :=
  slots_keep RxDesc.skb hd

theorem ringMaps_keep (hd : d.mapping = (s.ring i).mapping) : (s.setDesc i d).ringMaps = s.ringMaps :=
  slots_keep RxDesc.mapping hd

/-! ## Setting up -/

/-- The first `i` slots have been set up, and the others are still zero. -/
structure Filled (i : ℕ) (s : Rx) : Prop where
  le : i ≤ s.n
  full : ∀ j < i, ∃ b, s.ring j = ⟨false, 0, s.frameControl, b, some b⟩
  rest : ∀ j, i ≤ j → s.ring j = .zero
  accounts : Accounts s s.ringSkbs s.ringMaps

/-- The fields that setting up the ring leaves alone. -/
structure SameShape (s s' : Rx) : Prop where
  n : s'.n = s.n
  maxFrm : s'.maxFrm = s.maxFrm
  allocated : s'.allocated = s.allocated
  poll : s'.poll = s.poll
  ci : s'.ci = s.ci
  received : s'.received = s.received
  delivered : s'.delivered = s.delivered

theorem Filled.noGap {i : ℕ} (h : Filled i s) : NoGap s := by
  intro q _ p hp hnone
  by_cases hpi : p < i
  · obtain ⟨b, hb⟩ := h.full p hpi
    rw [hb] at hnone
    exact absurd hnone (by simp)
  · rw [h.rest q (by omega)]
    rfl

/-- **A slot is set up.** -/
theorem fill_slot {i : ℕ} (h : Filled i s) (hi : i < s.n) (hcontrol : s.frameControl ≠ 0) :
    let s₁ : Rx := { s.setDesc i { s.ring i with skb := some s.skbs } with skbs := s.skbs + 1 }
    (NoGap s₁ ∧ Accounts s₁ s₁.ringSkbs s₁.ringMaps) ∧
    Filled (i + 1)
      { s₁.setDesc i { s₁.ring i with dst := s.skbs, control := s₁.frameControl } with
        mapped := s₁.mapped ++ [s.skbs] } := by
  intro s₁
  have hzero := h.rest i (Nat.le_refl i)
  have hslot : s₁.ring i = ⟨false, 0, 0, 0, some s.skbs⟩ := by
    have hself : s₁.ring i = { s.ring i with skb := some s.skbs } := setDesc_self (s := s)
    rw [hself, hzero]
    rfl
  have hother : ∀ j, j ≠ i → s₁.ring j = s.ring j := fun j hj => setDesc_ne (s := s) hj
  have hnew : s.skbs ∉ s.mapped := fun hin => Nat.lt_irrefl _ (h.accounts.small _ hin)
  -- the buffer first
  have haccounts : Accounts s₁ s₁.ringSkbs s₁.ringMaps := by
    refine accounts_alloc h.accounts rfl rfl rfl rfl rfl (ringSkbs_put hi ?_ rfl) ?_
    · rw [hzero]
      rfl
    · apply List.Perm.of_eq
      apply ringMaps_keep
      rw [hzero]
      rfl
  refine ⟨⟨?_, haccounts⟩, ?_⟩
  · intro q hq p hp hnone
    have hpi : i ≤ p := by
      by_contra hlt
      obtain ⟨b, hb⟩ := h.full p (by omega)
      rw [hother p (by omega), hb] at hnone
      exact absurd hnone (by simp)
    rw [hother q (by omega), h.rest q (by omega)]
    rfl
  · -- and its mapping
    refine ⟨hi, ?_, ?_, ?_⟩
    · intro j hj
      rcases Nat.lt_succ_iff_lt_or_eq.1 hj with hlt | rfl
      · obtain ⟨b, hb⟩ := h.full j hlt
        refine ⟨b, ?_⟩
        have hkeep : (s₁.setDesc i { s₁.ring i with dst := s.skbs, control := s₁.frameControl }).ring j =
            s₁.ring j := setDesc_ne (by omega)
        simp only
        rw [hkeep, hother j (by omega), hb]
        rfl
      · refine ⟨s.skbs, ?_⟩
        have hself : (s₁.setDesc j { s₁.ring j with dst := s.skbs, control := s₁.frameControl }).ring j =
            { s₁.ring j with dst := s.skbs, control := s₁.frameControl } := setDesc_self
        simp only
        rw [hself, hslot]
        rfl
    · intro j hj
      have hkeep : (s₁.setDesc i { s₁.ring i with dst := s.skbs, control := s₁.frameControl }).ring j =
          s₁.ring j := setDesc_ne (by omega)
      simp only
      rw [hkeep, hother j (by omega), h.rest j (by omega)]
    · have hskbs : (s₁.setDesc i { s₁.ring i with dst := s.skbs, control := s₁.frameControl }).ringSkbs =
          s₁.ringSkbs := ringSkbs_keep rfl
      have hmaps : (s₁.setDesc i
          { s₁.ring i with dst := s.skbs, control := s₁.frameControl }).ringMaps.Perm
            (s.skbs :: s₁.ringMaps) := by
        apply ringMaps_put (s := s₁) hi
        · rw [hslot]
          rfl
        · rw [hslot]
          unfold RxDesc.mapping
          simp only [Option.isSome_some, Bool.true_and]
          have hcontrol₁ : s₁.frameControl ≠ 0 := hcontrol
          rw [if_pos (by simpa using hcontrol₁)]
      have hbooks := accounts_map (r := { s₁.setDesc i
          { s₁.ring i with dst := s.skbs, control := s₁.frameControl } with
            mapped := s₁.mapped ++ [s.skbs] }) haccounts rfl rfl rfl rfl rfl (Nat.lt_succ_self _) hnew hmaps
      rw [← hskbs] at hbooks
      exact hbooks

/-- **The loop of `tsemac_dma_bd_init`** fills the ring, or leaves no gap where it fails. -/
theorem initLoop_filled (alloc : ℕ → Bool × Bool) (k i : ℕ) (s : Rx) (h : Filled i s) (hk : i + k = s.n)
    (hcontrol : s.frameControl ≠ 0) :
    SameShape s (Rx.initLoop alloc k i s).1 ∧ NoGap (Rx.initLoop alloc k i s).1 ∧
      Accounts (Rx.initLoop alloc k i s).1 (Rx.initLoop alloc k i s).1.ringSkbs
        (Rx.initLoop alloc k i s).1.ringMaps ∧
      ((Rx.initLoop alloc k i s).2 = true → Filled s.n (Rx.initLoop alloc k i s).1) := by
  induction k generalizing i s with
  | zero =>
    have hi : i = s.n := by omega
    unfold Rx.initLoop
    exact ⟨⟨rfl, rfl, rfl, rfl, rfl, rfl, rfl⟩, h.noGap, h.accounts, fun _ => hi ▸ h⟩
  | succ k ih =>
    have hi : i < s.n := by omega
    obtain ⟨⟨hgap, haccounts⟩, hnext⟩ := fill_slot h hi hcontrol
    unfold Rx.initLoop
    split
    · simp only
      split
      · obtain ⟨hshape, hrest⟩ := ih (i + 1) _ hnext (show i + 1 + k = s.n by omega) hcontrol
        exact ⟨⟨hshape.n, hshape.maxFrm, hshape.allocated, hshape.poll, hshape.ci, hshape.received,
          hshape.delivered⟩, hrest⟩
      · exact ⟨⟨rfl, rfl, rfl, rfl, rfl, rfl, rfl⟩, hgap, haccounts, fun hfalse => absurd hfalse (by simp)⟩
    · exact ⟨⟨rfl, rfl, rfl, rfl, rfl, rfl, rfl⟩, h.noGap, h.accounts, fun hfalse => absurd hfalse (by simp)⟩

/-! ## The invariant -/

structure Tended (s : Rx) : Prop where
  books : BuffersKept s
  control : s.up = true → s.frameControl ≠ 0
  mapped : s.up = true → ∀ i < s.n, (s.ring i).skb.isSome = true → (s.ring i).control ≠ 0
  bound : s.up = true → ∀ i, (s.ring i).completed = true → i < s.n
  allocated : s.up = true → s.allocated = true
  polling : s.poll ≠ .idle → s.up = true

theorem frameControl_ne (mtu : ℕ) (hmax : s.maxFrm = maxFrmSize mtu s.rxmem) : s.frameControl ≠ 0 := by
  obtain ⟨hmore, hless⟩ := maxFrmSize_bounds mtu s.rxmem
  unfold Rx.frameControl
  rw [hmax, ne_eq, controlBytes_eq_zero]
  omega

/-- Where no ring is set up only the books matter. -/
theorem tended_down (hbooks : Accounts s [] []) (hup : s.up = false) (hpoll : s.poll = .idle) :
    Tended s := by
  have hnot : ∀ {P : Prop}, s.up = true → P := by
    intro P hyes
    rw [hup] at hyes
    exact absurd hyes (by simp)
  refine ⟨?_, hnot, hnot, hnot, hnot, fun hne => absurd hpoll hne⟩
  unfold BuffersKept
  rw [hup]
  exact hbooks

/-- A ring of zeros is to be filled. -/
theorem filled_zero (hbooks : Accounts s [] []) :
    Filled 0 { s with allocated := true, ring := fun _ => .zero } := by
  refine ⟨Nat.zero_le _, fun j hj => absurd hj (Nat.not_lt_zero j), fun _ _ => rfl, ?_⟩
  have hskbs : ({ s with allocated := true, ring := fun _ => .zero } : Rx).ringSkbs = [] := by
    apply entries_none
    intro i _
    rfl
  have hmaps : ({ s with allocated := true, ring := fun _ => .zero } : Rx).ringMaps = [] := by
    apply entries_none
    intro i _
    rfl
  rw [hskbs, hmaps]
  exact ⟨hbooks.skbs, hbooks.maps, hbooks.once, hbooks.small⟩

/-- **`tsemac_dma_bd_init`** sets the ring up or leaves nothing behind. -/
theorem bdInit_tended (hbooks : Accounts s [] []) (hup : s.up = false) (hpoll : s.poll = .idle)
    (hcontrol : s.frameControl ≠ 0) (rings : Bool × Bool) (alloc : ℕ → Bool × Bool) :
    Tended (s.bdInit rings alloc) := by
  have hzero : Accounts { s with ci := 0 } [] [] := ⟨hbooks.skbs, hbooks.maps, hbooks.once, hbooks.small⟩
  unfold Rx.bdInit
  simp only
  split
  · exact tended_down hzero hup hpoll
  split
  · exact tended_down (s := { s with ci := 0, allocated := false, up := false })
      ⟨hbooks.skbs, hbooks.maps, hbooks.once, hbooks.small⟩ rfl hpoll
  obtain ⟨hshape, hgap, haccounts, hfull⟩ := initLoop_filled alloc s.n 0 _ (filled_zero hzero)
    (Nat.zero_add _) hcontrol
  split
  · rename_i hok
    have hfilled := hfull hok
    have hn : (Rx.initLoop alloc s.n 0
        { s with ci := 0, allocated := true, ring := fun _ => .zero }).1.n = s.n := hshape.n
    have hframe : (Rx.initLoop alloc s.n 0
        { s with ci := 0, allocated := true, ring := fun _ => .zero }).1.frameControl ≠ 0 := by
      unfold Rx.frameControl
      rw [hshape.maxFrm]
      exact hcontrol
    refine ⟨⟨haccounts.skbs, haccounts.maps, haccounts.once, haccounts.small⟩, fun _ => hframe,
      ?_, ?_, fun _ => hshape.allocated, fun _ => rfl⟩
    · intro _ i hi _
      simp only at hi ⊢
      rw [hn] at hi
      obtain ⟨b, hb⟩ := hfilled.full i hi
      rw [hb]
      exact hframe
    · intro _ i hcompleted
      simp only at hcompleted
      by_cases hi : i < s.n
      · obtain ⟨b, hb⟩ := hfilled.full i hi
        rw [hb] at hcompleted
        exact absurd hcompleted (by simp)
      · rw [hfilled.rest i (by simp only; omega)] at hcompleted
        exact absurd hcompleted (by simp [RxDesc.zero])
  · obtain ⟨hreleased, hdown, hkept⟩ := release_accounts haccounts hgap hshape.allocated
    exact tended_down hreleased hdown (by rw [hkept, hshape.poll]; exact hpoll)

/-! ## The steps -/

/-- The books do not look at the other fields. -/
theorem Tended.of_same (hs : Tended s) (hn : s'.n = s.n) (hmax : s'.maxFrm = s.maxFrm)
    (hring : s'.ring = s.ring) (hup : s'.up = s.up) (hallocated : s'.allocated = s.allocated)
    (hskbs : s'.skbs = s.skbs) (hmapped : s'.mapped = s.mapped) (hunmapped : s'.unmapped = s.unmapped)
    (hhanded : s'.handed = s.handed) (hfreed : s'.freed = s.freed)
    (hpoll : s'.poll ≠ .idle → s.up = true) : Tended s' := by
  obtain ⟨⟨h1, h2, h3, h4⟩, hcontrol, hmaps, hbound, halloc, -⟩ := hs
  have hS : s'.ringSkbs = s.ringSkbs := by
    unfold Rx.ringSkbs
    rw [hn, hring]
  have hM : s'.ringMaps = s.ringMaps := by
    unfold Rx.ringMaps
    rw [hn, hring]
  refine ⟨?_, ?_, ?_, ?_, ?_, ?_⟩
  · unfold BuffersKept
    rw [hup, hS, hM]
    refine ⟨?_, ?_, ?_, ?_⟩
    · rw [hskbs, hhanded, hfreed]
      exact h1
    · rw [hmapped, hunmapped]
      exact h2
    · rw [hmapped]
      exact h3
    · rw [hmapped, hskbs]
      exact h4
  · unfold Rx.frameControl
    rw [hup, hmax]
    exact hcontrol
  · rw [hup, hn, hring]
    exact hmaps
  · rw [hup, hn, hring]
    exact hbound
  · rw [hup, hallocated]
    exact halloc
  · rw [hup]
    exact hpoll

theorem engineStep_tended (hs : Tended s) {len : ℕ} (hstep : s.engineStep len = some s') : Tended s' := by
  unfold Rx.engineStep at hstep
  split at hstep
  · rename_i hbusy
    simp only at hstep
    split at hstep
    · obtain rfl := Option.some.inj hstep
      exact hs.of_same rfl rfl rfl rfl rfl rfl rfl rfl rfl rfl hs.polling
    · obtain rfl := Option.some.inj hstep
      obtain ⟨⟨h1, h2, h3, h4⟩, hcontrol, hmaps, hbound, halloc, hpolling⟩ := hs
      -- only the status of the descriptor changes
      have hS := ringSkbs_keep (s := s) (i := s.at_)
        (d := { s.ring s.at_ with completed := true, bytes := len % 2 ^ 27 }) rfl
      have hM := ringMaps_keep (s := s) (i := s.at_)
        (d := { s.ring s.at_ with completed := true, bytes := len % 2 ^ 27 }) rfl
      refine ⟨⟨?_, ?_, h3, h4⟩, hcontrol, ?_, ?_, halloc,
        hpolling⟩
      · have hS' := hS
        unfold Rx.ringSkbs at hS'
        unfold Rx.ringSkbs
        rw [hS']
        exact h1
      · have hM' := hM
        unfold Rx.ringMaps at hM'
        unfold Rx.ringMaps
        rw [hM']
        exact h2
      · intro hup i hi hsome
        by_cases hat : i = s.at_
        · subst hat
          have hself : (s.setDesc s.at_
              { s.ring s.at_ with completed := true, bytes := len % 2 ^ 27 }).ring s.at_ =
                { s.ring s.at_ with completed := true, bytes := len % 2 ^ 27 } := setDesc_self
          simp only at hsome ⊢
          rw [hself] at hsome ⊢
          exact hmaps hup _ hi hsome
        · simp only at hsome ⊢
          rw [setDesc_ne hat] at hsome ⊢
          exact hmaps hup i hi hsome
      · intro hup i hcompleted
        by_cases hat : i = s.at_
        · rw [hat]
          exact hbusy.2
        · simp only at hcompleted
          rw [setDesc_ne hat] at hcompleted
          exact hbound hup i hcompleted
  · exact absurd hstep (by simp)

theorem startPoll_tended (hs : Tended s) {budget : ℕ} (hup : s.up = true)
    (hstep : s.startPoll budget = some s') : Tended s' := by
  obtain ⟨-, rfl⟩ := of_guard hstep
  exact hs.of_same rfl rfl rfl rfl rfl rfl rfl rfl rfl rfl fun _ => hup

theorem stop_tended (hs : Tended s) (hup : s.up = true) (hgap : NoGap s) (hstep : s.stop = some s') :
    Tended s' := by
  obtain ⟨hidle, rfl⟩ := of_guard hstep
  have hbooks := hs.books
  unfold BuffersKept at hbooks
  rw [hup] at hbooks
  obtain ⟨hreleased, hdown, hkept⟩ := release_accounts (s := { s with busy := false })
    ⟨hbooks.skbs, hbooks.maps, hbooks.once, hbooks.small⟩ hgap (hs.allocated hup)
  exact tended_down ⟨hreleased.skbs, hreleased.maps, hreleased.once, hreleased.small⟩ hdown
    (hkept.trans hidle.2)

theorem open_tended (hs : Tended s) {mtu : ℕ} {rings : Bool × Bool} {alloc : ℕ → Bool × Bool} {rest : Bool}
    (hup : s.up = false) (hstep : s.open_ mtu rings alloc rest = some s') : Tended s' := by
  obtain ⟨-, rfl⟩ := of_guard_not hstep
  have hpoll : s.poll = .idle := by
    by_contra hne
    have hyes := hs.polling hne
    rw [hup] at hyes
    exact absurd hyes (by simp)
  have hbooks := hs.books
  unfold BuffersKept at hbooks
  rw [hup] at hbooks
  have hinit := bdInit_tended (s := { s with maxFrm := maxFrmSize mtu s.rxmem })
    ⟨hbooks.skbs, hbooks.maps, hbooks.once, hbooks.small⟩ hup hpoll
    (frameControl_ne mtu rfl) rings alloc
  exact hinit.of_same rfl rfl rfl rfl rfl rfl rfl rfl rfl rfl hinit.polling

/-! ### A pass of the loop -/

/-- The books of a ring that is set up, one by one. -/
theorem tended_up (haccounts : Accounts s s.ringSkbs s.ringMaps) (hup : s.up = true)
    (hcontrol : s.frameControl ≠ 0)
    (hmapped : ∀ i < s.n, (s.ring i).skb.isSome = true → (s.ring i).control ≠ 0)
    (hbound : ∀ i, (s.ring i).completed = true → i < s.n) (hallocated : s.allocated = true) : Tended s := by
  refine ⟨?_, fun _ => hcontrol, fun _ => hmapped, fun _ => hbound, fun _ => hallocated, fun _ => hup⟩
  unfold BuffersKept
  rw [hup]
  exact haccounts

/-- What is written to one slot decides the rest. -/
theorem tended_setDesc (hs : Tended s) (hup : s.up = true) {i : ℕ} {d : RxDesc} (hi : i < s.n)
    (hd : d.skb.isSome = true → d.control ≠ 0) (hn : s'.n = s.n) (hmax : s'.maxFrm = s.maxFrm)
    (hring : s'.ring = (s.setDesc i d).ring) (hup' : s'.up = s.up) (hallocated : s'.allocated = s.allocated)
    (haccounts : Accounts s' s'.ringSkbs s'.ringMaps) : Tended s' := by
  refine tended_up haccounts (hup'.trans hup) ?_ ?_ ?_
    (hallocated.trans (hs.allocated hup))
  · unfold Rx.frameControl
    rw [hmax]
    exact hs.control hup
  · intro j hj hsome
    rw [hn] at hj
    rw [hring] at hsome ⊢
    by_cases hji : j = i
    · subst hji
      rw [setDesc_self] at hsome ⊢
      exact hd hsome
    · rw [setDesc_ne hji] at hsome ⊢
      exact hs.mapped hup j hj hsome
  · intro j hcompleted
    rw [hn]
    by_cases hji : j = i
    · rw [hji]
      exact hi
    · rw [hring, setDesc_ne hji] at hcompleted
      exact hs.bound hup j hcompleted

/-- **A buffer is taken from its slot** and handed to the stack. -/
theorem take_tended (hs : Tended s) (hup : s.up = true) (hcompleted : (s.ring s.ci).completed = true)
    (hgood : GoodLength s) (packets : ℕ) :
    Tended (s.take packets).1 ∧ (s.take packets).1.up = true ∧ (s.take packets).1.ci = s.ci ∧
      (s.take packets).1.n = s.n ∧ ((s.take packets).1.ring s.ci).skb = none := by
  have hci := hs.bound hup s.ci hcompleted
  have hbooks := hs.books
  unfold BuffersKept at hbooks
  rw [hup] at hbooks
  simp only [if_true] at hbooks
  have hself : ((s.setDesc s.ci { s.ring s.ci with skb := none }).ring s.ci).skb = none := by
    rw [setDesc_self]
  unfold Rx.take
  simp only
  split
  · rename_i hnone
    refine ⟨?_, hup, rfl, rfl, hself⟩
    have hS := ringSkbs_keep (s := s) (i := s.ci) (d := { s.ring s.ci with skb := none }) hnone.symm
    have hM := ringMaps_keep (s := s) (i := s.ci) (d := { s.ring s.ci with skb := none }) (by
      unfold RxDesc.mapping
      rw [hnone])
    refine tended_setDesc (d := { s.ring s.ci with skb := none }) hs hup hci (by simp) rfl rfl rfl rfl rfl ?_
    have hcopy := hbooks
    rw [← hS, ← hM] at hcopy
    exact ⟨hcopy.skbs, hcopy.maps, hcopy.once, hcopy.small⟩
  · rename_i b hb
    have hlength := (hgood hcompleted).resolve_left (by rw [hb]; simp)
    rw [if_neg (by omega)]
    refine ⟨?_, hup, rfl, rfl, hself⟩
    have hmapping : (s.ring s.ci).mapping = some (s.ring s.ci).dst := by
      have hne := hs.mapped hup s.ci hci (by rw [hb]; rfl)
      unfold RxDesc.mapping
      rw [hb]
      simp [hne]
    refine tended_setDesc (d := { s.ring s.ci with skb := none }) hs hup hci (by simp) rfl rfl rfl rfl rfl ?_
    exact accounts_hand hbooks rfl rfl rfl rfl rfl
      (ringSkbs_take (d := { s.ring s.ci with skb := none }) hci hb rfl)
      (ringMaps_take (d := { s.ring s.ci with skb := none }) hci hmapping rfl)

/-- **A slot without a buffer** is given a new one, or stays without. -/
theorem rearm_tended (hs : Tended s) (hup : s.up = true) (hci : s.ci < s.n)
    (hempty : (s.ring s.ci).skb = none) (budget packets : ℕ) (alloc : Bool × Bool) :
    Tended (s.rearm budget packets alloc) := by
  have hbooks := hs.books
  unfold BuffersKept at hbooks
  rw [hup] at hbooks
  simp only [if_true] at hbooks
  unfold Rx.rearm
  split
  · exact hs.of_same rfl rfl rfl rfl rfl rfl rfl rfl rfl rfl fun _ => hup
  simp only
  split
  · have hlost := accounts_lost (r := { s with
        skbs := s.skbs + 1, freed := s.freed ++ [s.skbs], poll := .finish budget packets })
      hbooks rfl rfl rfl rfl rfl
    exact tended_up hlost hup (hs.control hup) (hs.mapped hup) (hs.bound hup) (hs.allocated hup)
  · have hcontrol := hs.control hup
    have hnew : s.skbs ∉ s.mapped := fun hin => Nat.lt_irrefl _ (hbooks.small _ hin)
    have hmapping : (s.ring s.ci).mapping = none := by
      unfold RxDesc.mapping
      rw [hempty]
      rfl
    have hput : (RxDesc.mk false 0 s.frameControl s.skbs (some s.skbs)).mapping = some s.skbs := by
      unfold RxDesc.mapping
      simp [hcontrol]
    -- the buffer is in the ring before it is mapped
    have halloc := accounts_alloc (r := { s with skbs := s.skbs + 1 }) hbooks rfl rfl rfl rfl rfl
      (ringSkbs_put (d := ⟨false, 0, s.frameControl, s.skbs, some s.skbs⟩) hci hempty rfl) (List.Perm.refl _)
    have hmap := accounts_map (r := { s.setDesc s.ci ⟨false, 0, s.frameControl, s.skbs, some s.skbs⟩ with
        skbs := s.skbs + 1, mapped := s.mapped ++ [s.skbs], ci := s.wrap s.ci, poll := .loop budget packets })
      halloc rfl rfl rfl rfl rfl (Nat.lt_succ_self _) hnew
      (ringMaps_put (d := ⟨false, 0, s.frameControl, s.skbs, some s.skbs⟩) hci hmapping hput)
    exact tended_setDesc (d := ⟨false, 0, s.frameControl, s.skbs, some s.skbs⟩) hs hup hci
      (fun _ => hcontrol) rfl rfl rfl rfl rfl hmap

theorem pollStep_tended (hs : Tended s) {alloc : Bool × Bool} {complete : Bool}
    (hgood : s.looping = true → GoodLength s) (hstep : s.pollStep alloc complete = some s') : Tended s' := by
  unfold Rx.pollStep at hstep
  split at hstep
  · exact absurd hstep (by simp)
  · rename_i budget packets hpoll
    have hup := hs.polling (by rw [hpoll]; simp)
    split at hstep
    · rename_i hloop
      obtain rfl := Option.some.inj hstep
      have hlooping : s.looping = true := by
        unfold Rx.looping
        rw [hpoll]
        simpa using hloop.1
      have hci := hs.bound hup s.ci hloop.2
      obtain ⟨htaken, hup', hci', hn, hempty⟩ := take_tended hs hup hloop.2 (hgood hlooping) packets
      apply rearm_tended htaken hup'
      · rw [hci', hn]
        exact hci
      · rw [hci']
        exact hempty
    · obtain rfl := Option.some.inj hstep
      exact hs.of_same rfl rfl rfl rfl rfl rfl rfl rfl rfl rfl fun _ => hup
  · rename_i budget packets hpoll
    have hup := hs.polling (by rw [hpoll]; simp)
    split at hstep
    · obtain rfl := Option.some.inj hstep
      exact hs.of_same rfl rfl rfl rfl rfl rfl rfl rfl rfl rfl fun _ => hup
    · obtain rfl := Option.some.inj hstep
      exact hs.of_same rfl rfl rfl rfl rfl rfl rfl rfl rfl rfl fun _ => hup
  · rename_i hpoll
    have hup := hs.polling (by rw [hpoll]; simp)
    obtain rfl := Option.some.inj hstep
    exact hs.of_same rfl rfl rfl rfl rfl rfl rfl rfl rfl rfl fun _ => hup

theorem step_tended {a : RxAct} (hs : Tended s) (hg : RxOrderly s a) (hstep : s.next a = some s') :
    Tended s' := by
  cases a with
  | open_ mtu rings alloc rest => exact open_tended hs hg hstep
  | stop => exact stop_tended hs hg.1 hg.2 hstep
  | startPoll budget => exact startPoll_tended hs hg hstep
  | poll alloc complete => exact pollStep_tended hs hg hstep
  | engine len => exact engineStep_tended hs hstep

theorem probed_tended (n rxmem : ℕ) : Tended (.probed n rxmem) := by
  apply tended_down
  · exact ⟨List.Perm.refl _, List.Perm.refl _, List.nodup_nil, fun b hb => absurd hb List.not_mem_nil⟩
  · rfl
  · rfl

/-- **Every buffer is in one place and every mapping is undone once** in every run that releases
what has been set up, without a gap, and in which no frame is refused. -/
theorem buffers_kept {s : Rx} (hr : rxMachine.Reach RxOrderly s) : BuffersKept s := by
  have hs : Tended s := by
    refine hr.invariant ?_ fun _ _ _ h hg hstep => step_tended h hg hstep
    rintro _ ⟨n, rxmem, rfl⟩
    exact probed_tended n rxmem
  exact hs.books

/-- Every allocation succeeds. -/
def allOk : ℕ → Bool × Bool := fun _ => (true, true)

/-- A frame for the stack, one whose buffer cannot be replaced at first, and the end. -/
def twoFrames : List RxAct :=
  [.open_ 1500 (true, true) allOk true, .engine 60, .engine 100, .startPoll 64,
    .poll (true, true) true, .poll (true, false) true, .poll (true, true) true,
    .startPoll 64, .poll (true, true) true, .poll (true, true) true, .poll (true, true) true,
    .poll (true, true) true, .stop]

theorem buffers_kept_two :
    ∃ s, rxMachine.exec (.probed 2 0) twoFrames = some s ∧ s.up = false ∧ s.handed = [0, 1] ∧
      s.skbs = 5 ∧ BuffersKept s := by
  have hrun : (rxMachine.exec (.probed 2 0) twoFrames).map (fun s => (s.up, s.handed, s.skbs)) =
      some (false, [0, 1], 5) := by decide +kernel
  obtain ⟨s, hexec, hfields⟩ := Option.map_eq_some_iff.1 hrun
  obtain ⟨hup, hrest⟩ := Prod.mk.inj hfields
  obtain ⟨hhanded, hskbs⟩ := Prod.mk.inj hrest
  have halong : rxMachine.Along RxOrderly (.probed 2 0) twoFrames := by decide +kernel
  exact ⟨s, hexec, hup, hhanded, hskbs, buffers_kept (.of_exec ⟨2, 0, rfl⟩ halong hexec)⟩

/-- A frame of 2000 bytes is polled, and the interface stopped. -/
def tooLong : List RxAct :=
  [.open_ 1500 (true, true) allOk true, .engine 2000, .startPoll 64, .poll (true, true) true,
    .poll (true, true) true, .poll (true, true) true, .poll (true, true) true, .stop]

/-- **A frame that is too long** leaves its mapping behind. -/
theorem bad_length_keeps_mapping :
    ∃ s, rxMachine.exec (.probed 2 0) tooLong = some s ∧ rxMachine.Reach (fun _ _ => True) s ∧ ¬BuffersKept s := by
  have hrun : (rxMachine.exec (.probed 2 0) tooLong).map (fun s => (s.up, s.mapped, s.unmapped)) =
      some (false, [0, 1, 2], [2, 1]) := by decide +kernel
  obtain ⟨s, hexec, hfields⟩ := Option.map_eq_some_iff.1 hrun
  obtain ⟨hup, hrest⟩ := Prod.mk.inj hfields
  obtain ⟨hmapped, hunmapped⟩ := Prod.mk.inj hrest
  refine ⟨s, hexec, .of_exec ⟨2, 0, rfl⟩ (Machine.along_true _ _) hexec, ?_⟩
  intro hkept
  unfold BuffersKept at hkept
  have hlength := hkept.maps.length_eq
  rw [hup, hmapped, hunmapped] at hlength
  simp at hlength

end Br2Efinix.Tsemac
