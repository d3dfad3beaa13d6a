import Br2Efinix.Tsemac.TxBuffers

/-!
# A packet that cannot be mapped

When a mapping fails, `tsemac_start_xmit` gives up the packet with `tsemac_free_tx_chain`, by
force and from the tail on. That frees one descriptor that the call has not written, and
steps the consumer index for each descriptor, though the tail has not moved.

* `failed_of_startXmit`: what such a call does, with the fragments that were mapped.
* `mapping_failure_never`: it is never undone.
* `linear_failure_leaks`: when the linear part fails, the fragments stay mapped and in the ring.
-/

namespace Br2Efinix.Tsemac

/-! ## The property -/

/-- The call that began in `s` is undone in `s'`: of its pieces the first `k` fragments were mapped. -/
structure RolledBack (s : TxBuf) (frags : List ℕ) (k : ℕ) (s' : TxBuf) : Prop where
  ci : s'.ci = s.ci
  tail : s'.tail = s.tail
  /-- The descriptors of the earlier packets are as they were, and with them their mappings; -/
  earlier : ∀ i ∈ Ring.between s.n s.ci s.tail, s'.ring i = s.ring i
  /-- what the call mapped, and nothing else, is unmapped; -/
  unmapped : s'.unmapped.Perm
    (s.unmapped ++ (List.range k).map fun j => (s.addrs + j, frags.getD j 0))
  /-- what it wrote is free again, -/
  written : ∀ j < k, (s'.ring ((s.tail + 1 + j) % s.n)).control = 0 ∧
    (s'.ring ((s.tail + 1 + j) % s.n)).completed = true
  /-- and so is the packet. -/
  freed : s.calls ∈ s'.consumed ++ s'.dropped

/-- A descriptor has the packet, or it was freed. -/
def TxBuf.Knows (s : TxBuf) (id : ℕ) : Prop :=
  id ∈ s.consumed ∨ id ∈ s.dropped ∨ ∃ i, (s.ring i).skb = some id

/-- The indices are in the ring, and the packets are those of earlier calls. -/
structure InRange (s : TxBuf) : Prop where
  accepted : AcceptedTx s.n
  ci : s.ci < s.n
  tail : s.tail < s.n
  numbered : ∀ id, s.Knows id → id < s.calls

/-! ## Freeing by force -/

variable {s s' r : TxBuf}

/-- `r` knows no packet that `s` did not know, and has the same ring and tail. -/
structure Keeps (s r : TxBuf) : Prop where
  n : r.n = s.n
  tail : r.tail = s.tail
  calls : r.calls = s.calls
  ci : s.ci < s.n → r.ci < s.n
  knows : ∀ id, r.Knows id → s.Knows id

theorem Keeps.refl (s : TxBuf) : Keeps s s := ⟨rfl, rfl, rfl, id, fun _ h => h⟩

theorem Keeps.trans {t : TxBuf} (h : Keeps s r) (h' : Keeps r t) : Keeps s t := by
  refine ⟨h'.n.trans h.n, h'.tail.trans h.tail, h'.calls.trans h.calls, ?_,
    fun id hid => h.knows id (h'.knows id hid)⟩
  intro hci
  have hlt := h'.ci (by rw [h.n]; exact h.ci hci)
  rw [h.n] at hlt
  exact hlt

theorem knows_modDesc {i : ℕ} {f : Desc → Desc} (hf : ∀ d, (f d).skb = none ∨ (f d).skb = d.skb) {j id : ℕ}
    (hid : ((s.modDesc i f).ring j).skb = some id) : (s.ring j).skb = some id := by
  rw [modDesc_ring] at hid
  by_cases hj : j = i
  · rw [if_pos hj] at hid
    rcases hf (s.ring i) with hnone | hsame
    · rw [hnone] at hid
      exact absurd hid (by simp)
    · rw [hj, ← hsame]
      exact hid
  · rw [if_neg hj] at hid
    exact hid

/-- The consumer index steps to the next slot. -/
theorem ci_step (hci : s.ci < s.n) :
    (if s.ci + 1 ≥ s.n then (s.ci + 1) % s.n else s.ci + 1) = (s.ci + 1) % s.n := by
  have hstep := Ring.mod_succ (n := s.n) (Nat.zero_lt_of_lt hci) s.ci
  rw [Nat.mod_eq_of_lt hci] at hstep
  exact hstep

theorem freeTxChain_keeps (force : Bool) (k first : ℕ) (s : TxBuf) :
    Keeps s (TxBuf.freeTxChain force k first s) := by
  induction k generalizing first s with
  | zero => exact .refl s
  | succ k ih =>
    unfold TxBuf.freeTxChain
    simp only
    split
    · exact .refl s
    · refine Keeps.trans ?_ (ih (first + 1) _)
      refine ⟨rfl, rfl, rfl, ?_, ?_⟩
      · intro hci
        simp only
        rw [ci_step hci]
        exact Nat.mod_lt _ (Nat.zero_lt_of_lt hci)
      · rintro id (hid | hid | ⟨i, hid⟩)
        · -- the packet of the descriptor itself may be freed
          by_cases hdone : (s.ring (first % s.n)).done = true
          · simp only [if_pos hdone] at hid
            rcases List.mem_append.1 hid with hold | hnew
            · exact Or.inl hold
            · exact Or.inr (Or.inr ⟨_, Option.mem_toList.1 hnew⟩)
          · simp only [if_neg hdone] at hid
            exact Or.inl hid
        · exact Or.inr (Or.inl hid)
        · exact Or.inr (Or.inr ⟨i, knows_modDesc (i := first % s.n)
            (f := fun d => { d with completed := true, control := 0, skb := none })
            (fun _ => Or.inl rfl) hid⟩)

/-- `r` is `s` after `k` descriptors from position `first` on were freed by force. -/
structure Forced (s : TxBuf) (k first : ℕ) (r : TxBuf) : Prop where
  ci : r.ci = (s.ci + k) % s.n
  cleared : ∀ j < k, (r.ring ((first + j) % s.n)).control = 0 ∧
    (r.ring ((first + j) % s.n)).completed = true
  others : ∀ i, (∀ j < k, i ≠ (first + j) % s.n) → r.ring i = s.ring i

/-- The first of them. -/
theorem freeTxChain_true_succ (k first : ℕ) (hci : s.ci < s.n) :
    ∃ t, TxBuf.freeTxChain true (k + 1) first s = TxBuf.freeTxChain true k (first + 1) t ∧ t.n = s.n ∧
      t.ci = (s.ci + 1) % s.n ∧ ∀ j, t.ring j = if j = first % s.n then
        { s.ring (first % s.n) with completed := true, control := 0, skb := none } else s.ring j := by
  refine ⟨_, rfl, rfl, ci_step hci, ?_⟩
  intro j
  exact modDesc_ring (s := s) (first % s.n) j fun d =>
    { d with completed := true, control := 0, skb := none }

/-- **By force** every descriptor is freed, and the consumer index moves past as many. -/
theorem freeTxChain_forced (k first : ℕ) (hci : s.ci < s.n) :
    Forced s k first (TxBuf.freeTxChain true k first s) := by
  induction k generalizing first s with
  | zero =>
    refine ⟨?_, fun j hj => absurd hj (Nat.not_lt_zero j), fun _ _ => rfl⟩
    exact (Nat.mod_eq_of_lt hci).symm
  | succ k ih =>
    obtain ⟨t, hrest, hn, htci, hring⟩ := freeTxChain_true_succ k first hci
    have hlt : t.ci < t.n := by
      rw [hn, htci]
      exact Nat.mod_lt _ (Nat.zero_lt_of_lt hci)
    obtain ⟨hmoved, hcleared, hothers⟩ := ih (first + 1) hlt
    rw [hn] at hmoved hcleared hothers
    rw [hrest]
    refine ⟨?_, ?_, ?_⟩
    · rw [hmoved, htci, Nat.add_comm k 1, ← Nat.add_assoc]
      exact Ring.slot_add (s.ci + 1) k
    · intro j hj
      rcases j with _ | j
      · rw [Nat.add_zero first]
        -- the first one is cleared now, and may be once more later
        by_cases hagain : ∃ l < k, first % s.n = (first + 1 + l) % s.n
        · obtain ⟨l, hl, heq⟩ := hagain
          rw [heq]
          exact hcleared l hl
        · rw [hothers (first % s.n) fun l hl heq => hagain ⟨l, hl, heq⟩, hring, if_pos rfl]
          exact ⟨rfl, rfl⟩
      · rw [show first + (j + 1) = first + 1 + j by omega]
        exact hcleared j (by omega)
    · intro i hi
      have hlater : ∀ j < k, i ≠ (first + 1 + j) % s.n := by
        intro j hj
        have hne := hi (j + 1) (by omega)
        rw [show first + (j + 1) = first + 1 + j by omega] at hne
        exact hne
      have hnow := hi 0 (by omega)
      rw [Nat.add_zero] at hnow
      rw [hothers i hlater, hring, if_neg hnow]

/-! ## Every run -/

theorem Keeps.inRange (h : Keeps s r) (hs : InRange s) : InRange r := by
  refine ⟨?_, ?_, ?_, ?_⟩
  · rw [h.n]
    exact hs.accepted
  · rw [h.n]
    exact h.ci hs.ci
  · rw [h.n, h.tail]
    exact hs.tail
  · intro id hid
    rw [h.calls]
    exact hs.numbered id (h.knows id hid)

theorem xmitFrags_keeps (orig : ℕ) (maps : ℕ → Bool) (frags : List ℕ) (ii new : ℕ) (s : TxBuf) :
    Keeps s (TxBuf.xmitFrags orig maps frags ii new s).1 := by
  induction frags generalizing ii new s with
  | nil => exact .refl s
  | cons len rest ih =>
    rw [TxBuf.xmitFrags]
    simp only
    split
    · refine Keeps.trans ?_ (ih _ _ _)
      refine ⟨rfl, rfl, rfl, fun hci => hci, ?_⟩
      rintro id (hid | hid | ⟨i, hid⟩)
      · exact Or.inl hid
      · exact Or.inr (Or.inl hid)
      · exact Or.inr (Or.inr ⟨i, knows_modDesc (i := s.wrap new)
          (f := fun d => { d with src := s.addrs, control := controlBytes len, completed := false })
          (fun _ => Or.inr rfl) hid⟩)
    · exact freeTxChain_keeps true (ii + 1) orig s

/-- The linear part brings the packet. -/
theorem xmitLinear_inRange (hs : InRange s) {id : ℕ} (hid : id < s.calls) (headlen orig new : ℕ) :
    InRange (s.xmitLinear id headlen orig new) := by
  have hframe := writeLinear_frame s id headlen orig new
  have hpos : 0 < s.n := Nat.zero_lt_of_lt hs.ci
  have hn : (s.xmitLinear id headlen orig new).n = s.n := hframe.n
  have hci : (s.xmitLinear id headlen orig new).ci = s.ci := by
    unfold TxBuf.xmitLinear TxBuf.writeLinear
    simp only
    split <;> rfl
  have hskb : ∀ i, ((s.xmitLinear id headlen orig new).ring i).skb =
      if i = new then some id else (s.ring i).skb := by
    intro i
    rw [← (writeLinear_ring s id headlen orig new i).1, xmitLinear_ring]
    split <;> rfl
  refine ⟨?_, ?_, ?_, ?_⟩
  · rw [hn]
    exact hs.accepted
  · rw [hn, hci]
    exact hs.ci
  · have hwrap : s.wrap new < s.n := by
      unfold TxBuf.wrap
      split <;> omega
    rw [hn]
    exact hwrap
  · have hcalls : (s.xmitLinear id headlen orig new).calls = s.calls := hframe.calls
    rw [hcalls]
    rintro id' (hknown | hknown | ⟨i, hknown⟩)
    · have hold : id' ∈ (s.writeLinear id headlen orig new).consumed := hknown
      rw [hframe.consumed] at hold
      exact hs.numbered id' (Or.inl hold)
    · have hold : id' ∈ (s.writeLinear id headlen orig new).dropped := hknown
      rw [hframe.dropped] at hold
      exact hs.numbered id' (Or.inr (Or.inl hold))
    · rw [hskb] at hknown
      by_cases hi : i = new
      · rw [if_pos hi] at hknown
        rw [← Option.some.inj hknown]
        exact hid
      · rw [if_neg hi] at hknown
        exact hs.numbered id' (Or.inr (Or.inr ⟨i, hknown⟩))

theorem startXmit_inRange (hs : InRange s) {headlen : ℕ} {frags : List ℕ} {maps : ℕ → Bool}
    (hcall : s.startXmit headlen frags maps = some s') : InRange s' := by
  have hcounted : ∀ accepted, InRange { s with calls := s.calls + 1, accepted := accepted } :=
    fun _ => ⟨hs.accepted, hs.ci, hs.tail, fun id hid => Nat.lt_succ_of_lt (hs.numbered id hid)⟩
  unfold TxBuf.startXmit at hcall
  split at hcall
  · simp only at hcall
    split at hcall
    · obtain rfl := Option.some.inj hcall
      exact hcounted s.accepted
    · have hkeeps := xmitFrags_keeps s.tail maps frags 0 s.tail
        { s with calls := s.calls + 1, accepted := s.accepted ++ [s.calls] }
      have hfrags := hkeeps.inRange (hcounted _)
      split at hcall
      · rename_i r heq
        obtain rfl := Option.some.inj hcall
        rw [heq] at hfrags
        exact hfrags
      · rename_i r last heq
        rw [heq] at hfrags hkeeps
        split at hcall
        · obtain rfl := Option.some.inj hcall
          have hcalls : r.calls = s.calls + 1 := hkeeps.calls
          exact xmitLinear_inRange hfrags (by rw [hcalls]; exact Nat.lt_succ_self _) _ _ _
        · obtain rfl := Option.some.inj hcall
          exact (freeTxChain_keeps true 1 s.tail r).inRange hfrags
  · exact absurd hcall (by simp)

theorem errLoop_keeps (k i : ℕ) (s : TxBuf) : Keeps s (TxBuf.errLoop k i s) := by
  induction k generalizing i s with
  | zero => exact .refl s
  | succ k ih =>
    rw [TxBuf.errLoop]
    simp only
    refine Keeps.trans ?_ (ih (i + 1) _)
    refine ⟨rfl, rfl, rfl, fun hci => hci, ?_⟩
    rintro id (hid | hid | ⟨j, hid⟩)
    · exact Or.inl hid
    · rcases List.mem_append.1 hid with hold | hnew
      · exact Or.inr (Or.inl hold)
      · exact Or.inr (Or.inr ⟨i, Option.mem_toList.1 hnew⟩)
    · exact Or.inr (Or.inr ⟨j, knows_modDesc (i := i) (f := fun _ => ⟨false, 0, 0, 0, none⟩)
        (fun _ => Or.inl rfl) hid⟩)

theorem txBuf_inRange {a : TxBufAct} (hs : InRange s) (hstep : txBufMachine.step s a = some s') :
    InRange s' := by
  have hpos : 0 < s.n := Nat.zero_lt_of_lt hs.ci
  cases a with
  | open_ init rest =>
    change s.open_ init rest = some s' at hstep
    unfold TxBuf.open_ at hstep
    split at hstep
    · exact absurd hstep (by simp)
    · split at hstep
      · obtain rfl := Option.some.inj hstep
        refine ⟨hs.accepted, hpos, hpos, ?_⟩
        rintro id (hid | hid | ⟨i, hid⟩)
        · exact hs.numbered id (Or.inl hid)
        · exact hs.numbered id (Or.inr (Or.inl hid))
        · exact absurd hid (by simp)
      · obtain rfl := Option.some.inj hstep
        exact ⟨hs.accepted, hpos, hpos, hs.numbered⟩
  | startXmit headlen frags maps => exact startXmit_inRange hs hstep
  | txPoll budget =>
    obtain ⟨-, rfl⟩ := of_guard hstep
    exact (freeTxChain_keeps false budget s.ci s).inRange hs
  | complete i =>
    obtain ⟨-, rfl⟩ := of_guard_not hstep
    refine ⟨hs.accepted, hs.ci, hs.tail, ?_⟩
    rintro id (hid | hid | ⟨j, hid⟩)
    · exact hs.numbered id (Or.inl hid)
    · exact hs.numbered id (Or.inr (Or.inl hid))
    · exact hs.numbered id (Or.inr (Or.inr ⟨j, knows_modDesc (i := i)
        (f := fun d => { d with completed := true }) (fun _ => Or.inr rfl) hid⟩))
  | errHandler =>
    obtain ⟨-, rfl⟩ := of_guard hstep
    have hclean := (errLoop_keeps s.n 0 s).inRange hs
    have hsize := Nat.zero_lt_of_lt hclean.ci
    exact ⟨hclean.accepted, hsize, hsize, hclean.numbered⟩
  | stop =>
    obtain ⟨-, rfl⟩ := of_guard hstep
    exact ⟨hs.accepted, hs.ci, hs.tail, hs.numbered⟩

/-- **In every run** the indices stay in the ring, and packets are known only once they came. -/
theorem inRange_of_reach (hr : txBufMachine.Reach (fun _ _ => True) s) : InRange s := by
  refine hr.invariant ?_ fun _ _ _ h _ hstep => txBuf_inRange h hstep
  rintro _ ⟨n, hn, rfl⟩
  have hmin := ((acceptedTx_iff n).1 hn).1
  have hpos : 0 < n := Nat.lt_of_lt_of_le (by decide) hmin
  refine ⟨hn, hpos, hpos, ?_⟩
  rintro id (hid | hid | ⟨i, hid⟩)
  · exact absurd hid List.not_mem_nil
  · exact absurd hid List.not_mem_nil
  · exact absurd hid (by simp [TxBuf.probed])

/-! ## The failing call -/

/-- The fragments are taken one after another. -/
theorem xmitFrags_append (orig : ℕ) (maps : ℕ → Bool) (before after : List ℕ) (ii new : ℕ) {last : ℕ}
    (hrun : TxBuf.xmitFrags orig maps before ii new s = (r, some last)) :
    TxBuf.xmitFrags orig maps (before ++ after) ii new s =
      TxBuf.xmitFrags orig maps after (ii + before.length) last r := by
  induction before generalizing ii new s with
  | nil =>
    obtain ⟨rfl, hlast⟩ := Prod.mk.inj hrun
    obtain rfl := Option.some.inj hlast
    rfl
  | cons len rest ih =>
    unfold TxBuf.xmitFrags at hrun
    simp only at hrun
    split at hrun
    · rename_i hmaps
      have hrest := ih _ _ hrun
      rw [List.cons_append, TxBuf.xmitFrags, if_pos hmaps, List.length_cons, Nat.add_comm rest.length 1,
        ← Nat.add_assoc]
      exact hrest
    · exact absurd (Prod.mk.inj hrun).2 (by simp)

/-- The consumer index stays as long as the fragments are mapped. -/
theorem xmitFrags_ci (orig : ℕ) (maps : ℕ → Bool) (frags : List ℕ) (ii new : ℕ) {last : ℕ}
    (hrun : TxBuf.xmitFrags orig maps frags ii new s = (r, some last)) : r.ci = s.ci := by
  induction frags generalizing ii new s with
  | nil =>
    obtain ⟨rfl, -⟩ := Prod.mk.inj hrun
    rfl
  | cons len rest ih =>
    unfold TxBuf.xmitFrags at hrun
    simp only at hrun
    split at hrun
    · have hrest := ih _ _ hrun
      exact hrest
    · exact absurd (Prod.mk.inj hrun).2 (by simp)

/-- How many descriptors are freed when the piece after the first `k` fragments cannot be mapped. -/
def forced (frags : List ℕ) (k : ℕ) : ℕ := if k < frags.length then k + 1 else 1

/-- A packet that is looked at fits in the ring with its tail. -/
theorem room_of_startXmit (hs : InRange s) {headlen : ℕ} {frags : List ℕ} {maps : ℕ → Bool}
    (hcall : s.startXmit headlen frags maps = some s') : frags.length + 1 ≤ s.n := by
  have hmin := ((acceptedTx_iff s.n).1 hs.accepted).1
  unfold TxBuf.startXmit at hcall
  split at hcall
  · rename_i hready
    exact Nat.le_trans (Nat.succ_le_succ hready.2) hmin
  · exact absurd hcall (by simp)

/-- **The failing call**: the fragments before the failure go into the ring after the tail, and from
the tail on descriptors are freed by force. -/
theorem failed_of_startXmit (hs : InRange s) {headlen : ℕ} {frags : List ℕ} {maps : ℕ → Bool} {k : ℕ}
    (hspace : s.checkTxBdSpace (frags.length + 1) = false) (hk : k ≤ frags.length)
    (hok : ∀ j < k, maps j = true) (hfail : maps k = false)
    (hcall : s.startXmit headlen frags maps = some s') :
    frags.length + 1 ≤ s.n ∧
    ∃ r, Fragged { s with calls := s.calls + 1, accepted := s.accepted ++ [s.calls] } s.tail
        (frags.take k) r ∧ r.ci = s.ci ∧ s' = TxBuf.freeTxChain true (forced frags k) s.tail r := by
  have htail : s.tail % s.n = s.tail := Nat.mod_eq_of_lt hs.tail
  have htake : (frags.take k).length = k := List.length_take_of_le hk
  have hroom := room_of_startXmit hs hcall
  unfold TxBuf.startXmit at hcall
  split at hcall
  · obtain ⟨r, hrun, hfragged⟩ := xmitFrags_fragged
      (s := { s with calls := s.calls + 1, accepted := s.accepted ++ [s.calls] }) s.tail maps
      (frags.take k) 0 s.tail (show 0 < s.n by omega) (show (frags.take k).length ≤ s.n by omega) (by
        intro j hj
        rw [Nat.zero_add]
        exact hok j (by omega))
    simp only [htail] at hrun
    have hci := xmitFrags_ci _ _ _ _ _ hrun
    refine ⟨hroom, r, hfragged, hci, ?_⟩
    have hthere := xmitFrags_append s.tail maps (frags.take k) (frags.drop k) 0 s.tail hrun
    rw [List.take_append_drop, htake, Nat.zero_add] at hthere
    simp only at hcall
    split at hcall
    · rename_i hfull
      exact absurd (hspace.symm.trans hfull) (by simp)
    · rw [hthere] at hcall
      unfold forced
      rcases Nat.lt_or_eq_of_le hk with hlt | heq
      · -- a fragment cannot be mapped
        rw [List.drop_eq_getElem_cons hlt] at hcall
        unfold TxBuf.xmitFrags at hcall
        simp only [hfail, Bool.false_eq_true, if_false] at hcall
        rw [if_pos hlt]
        exact (Option.some.inj hcall).symm
      · -- the linear part cannot
        rw [heq, List.drop_length] at hcall
        unfold TxBuf.xmitFrags at hcall
        rw [heq] at hfail
        simp only [hfail, Bool.false_eq_true, if_false] at hcall
        rw [if_neg (by omega)]
        exact (Option.some.inj hcall).symm
  · exact absurd hcall (by simp)

/-- The fragments bring no packet into the ring. -/
theorem fragged_knows {first : ℕ} {frags : List ℕ} (h : Fragged s first frags r) {id : ℕ}
    (hid : r.Knows id) : s.Knows id := by
  rcases hid with hconsumed | hdropped | ⟨i, hring⟩
  · rw [h.frame.consumed] at hconsumed
    exact Or.inl hconsumed
  · rw [h.frame.dropped] at hdropped
    exact Or.inr (Or.inl hdropped)
  · refine Or.inr (Or.inr ⟨i, ?_⟩)
    by_cases hslot : ∃ k < frags.length, i = (first + 1 + k) % s.n
    · obtain ⟨k, hk, rfl⟩ := hslot
      rw [h.slot k hk] at hring
      exact hring
    · rw [h.other i fun k hk heq => hslot ⟨k, hk, heq⟩] at hring
      exact hring

/-- **The packet is lost**: no descriptor has it and it was not freed, and the consumer index
is past descriptors that it has not reached. -/
theorem failure_loses (hs : InRange s) {headlen : ℕ} {frags : List ℕ} {maps : ℕ → Bool} {k : ℕ}
    (hspace : s.checkTxBdSpace (frags.length + 1) = false) (hk : k ≤ frags.length)
    (hok : ∀ j < k, maps j = true) (hfail : maps k = false)
    (hcall : s.startXmit headlen frags maps = some s') :
    s'.ci = (s.ci + forced frags k) % s.n ∧ s'.ci ≠ s.ci ∧ s'.tail = s.tail ∧ ¬ s'.Knows s.calls := by
  obtain ⟨hroom, r, hfragged, hci, rfl⟩ := failed_of_startXmit hs hspace hk hok hfail hcall
  have hn : r.n = s.n := hfragged.frame.n
  have hmin := ((acceptedTx_iff s.n).1 hs.accepted).1
  have hmoved : (TxBuf.freeTxChain true (forced frags k) s.tail r).ci = (s.ci + forced frags k) % s.n := by
    have hfreed := (freeTxChain_forced (s := r) (forced frags k) s.tail (by rw [hci, hn]; exact hs.ci)).ci
    rw [hci, hn] at hfreed
    exact hfreed
  have hkeeps := freeTxChain_keeps true (forced frags k) s.tail r
  refine ⟨hmoved, ?_, hkeeps.tail.trans hfragged.frame.tail, ?_⟩
  · -- between one and seventeen descriptors are freed, and the ring has more
    have hsome : 0 < forced frags k ∧ forced frags k < s.n := by
      unfold TX_BD_NUM_MIN MAX_SKB_FRAGS at hmin
      unfold forced
      split <;> omega
    have hne := Ring.slot_ne (n := s.n) (a := s.ci) (p := s.ci + forced frags k) (q := s.ci) (by omega)
      (by omega) (by omega) (by omega) (by omega)
    rw [Nat.mod_eq_of_lt hs.ci] at hne
    rw [hmoved]
    exact hne
  · intro hknows
    have hbefore := fragged_knows hfragged (hkeeps.knows s.calls hknows)
    exact Nat.lt_irrefl _ (hs.numbered s.calls hbefore)

/-- **A mapping failure is never undone.** -/
theorem mapping_failure_never (hs : InRange s) {headlen : ℕ} {frags : List ℕ} {maps : ℕ → Bool} {k : ℕ}
    (hspace : s.checkTxBdSpace (frags.length + 1) = false) (hk : k ≤ frags.length)
    (hok : ∀ j < k, maps j = true) (hfail : maps k = false)
    (hcall : s.startXmit headlen frags maps = some s') : ¬ RolledBack s frags k s' := by
  obtain ⟨-, hci, -, -⟩ := failure_loses hs hspace hk hok hfail hcall
  intro hback
  exact hci hback.ci

/-- One packet is in flight. -/
def inFlight : List TxBufAct := [.open_ true true, .startXmit 60 [] mapsOk]

/-- Only the first fragment is mapped. -/
def oneMap : ℕ → Bool := fun ii => ii == 0

theorem mapping_failure_never_two :
    ∃ s s', txBufMachine.exec (.probed 18) inFlight = some s ∧
      s.startXmit 60 [100, 200] oneMap = some s' ∧ ¬ RolledBack s [100, 200] 1 s' := by
  have hrun : ((txBufMachine.exec (.probed 18) inFlight).bind fun s =>
      (s.startXmit 60 [100, 200] oneMap).map fun _ => s.checkTxBdSpace 3) = some false := by decide +kernel
  obtain ⟨s, hexec, hrest⟩ := Option.bind_eq_some_iff.1 hrun
  obtain ⟨s', hcall, hspace⟩ := Option.map_eq_some_iff.1 hrest
  have hinit : txBufMachine.init (.probed 18) := ⟨18, (acceptedTx_iff 18).2 (by decide), rfl⟩
  have hs : InRange s := inRange_of_reach (.of_exec hinit (Machine.along_true _ _) hexec)
  exact ⟨s, s', hexec, hcall, mapping_failure_never hs hspace (by decide) (by decide) (by decide) hcall⟩

/-- Both fragments are mapped. -/
def fragsMap : ℕ → Bool := fun ii => ii != 2

/-- **The packet in flight** is passed over when the linear part of the next one cannot be mapped, and
what is unmapped is what a descriptor says that was never written. -/
theorem failure_passes_over :
    ∃ s s', txBufMachine.exec (.probed 18) inFlight = some s ∧ s.startXmit 60 [100, 200] fragsMap = some s' ∧
      s.ci = 0 ∧ s'.ci = 1 ∧ s'.mapped = [(0, 60), (1, 100), (2, 200)] ∧ s'.unmapped = [(0, 1)] ∧
      ¬ RolledBack s [100, 200] 2 s' := by
  have hrun : ((txBufMachine.exec (.probed 18) inFlight).bind fun s =>
      (s.startXmit 60 [100, 200] fragsMap).map fun s' => (s.ci, s'.ci, s'.mapped, s'.unmapped)) =
        some (0, 1, [(0, 60), (1, 100), (2, 200)], [(0, 1)]) := by decide +kernel
  obtain ⟨s, hexec, hrest⟩ := Option.bind_eq_some_iff.1 hrun
  obtain ⟨s', hcall, hfields⟩ := Option.map_eq_some_iff.1 hrest
  obtain ⟨hbefore, hrest⟩ := Prod.mk.inj hfields
  obtain ⟨hafter, hrest⟩ := Prod.mk.inj hrest
  obtain ⟨hmapped, hunmapped⟩ := Prod.mk.inj hrest
  refine ⟨s, s', hexec, hcall, hbefore, hafter, hmapped, hunmapped, ?_⟩
  intro hback
  have hci := hback.ci
  rw [hbefore, hafter] at hci
  exact absurd hci (by decide)

/-- **When the linear part fails**, the fragments stay in the ring, mapped, and what is unmapped is
the address that the descriptor at the tail still has from its last packet. -/
theorem linear_failure_leaks (hs : InRange s) {headlen : ℕ} {frags : List ℕ} {maps : ℕ → Bool}
    (hspace : s.checkTxBdSpace (frags.length + 1) = false) (hok : ∀ j < frags.length, maps j = true)
    (hfail : maps frags.length = false) (hcall : s.startXmit headlen frags maps = some s') :
    (∀ j < frags.length, s'.ring ((s.tail + 1 + j) % s.n) =
      { s.ring ((s.tail + 1 + j) % s.n) with
        src := s.addrs + j, control := controlBytes (frags.getD j 0), completed := false }) ∧
    s'.unmapped = s.unmapped ++
      [((s.ring s.tail).src, ((s.ring s.tail).control &&& DMASG_DESCRIPTOR_CONTROL_BYTES) + 1)] := by
  obtain ⟨hroom, r, hfragged, hci, rfl⟩ := failed_of_startXmit hs hspace (Nat.le_refl _) hok hfail hcall
  have hn : r.n = s.n := hfragged.frame.n
  have htail : s.tail % s.n = s.tail := Nat.mod_eq_of_lt hs.tail
  have hone : forced frags frags.length = 1 := if_neg (Nat.lt_irrefl _)
  have hforced := freeTxChain_forced (s := r) 1 s.tail (by rw [hci, hn]; exact hs.ci)
  rw [hone]
  rw [List.take_length] at hfragged
  have hfar : ∀ j < frags.length, (s.tail + 1 + j) % s.n ≠ s.tail := by
    intro j hj
    have hne := Ring.slot_ne (n := s.n) (a := s.tail) (p := s.tail + 1 + j) (q := s.tail) (by omega)
      (by omega) (by omega) (by omega) (by omega)
    rw [htail] at hne
    exact hne
  constructor
  · intro j hj
    rw [hforced.others]
    · exact hfragged.slot j hj
    · intro l hl
      rw [show l = 0 by omega, Nat.add_zero s.tail, hn, htail]
      exact hfar j hj
  · have hstale : r.ring s.tail = s.ring s.tail := hfragged.other s.tail fun j hj => (hfar j hj).symm
    have hunmapped : r.unmapped = s.unmapped := hfragged.frame.unmapped
    unfold TxBuf.freeTxChain
    simp only [Bool.not_true, Bool.false_and, Bool.false_eq_true, if_false]
    unfold TxBuf.freeTxChain
    simp only
    rw [hn, htail, hstale, hunmapped]

end Br2Efinix.Tsemac
