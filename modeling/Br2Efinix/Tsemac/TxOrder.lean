import Br2Efinix.Tsemac.TxPieces

/-!
# Transmitting once and in order

`tsemac_start_xmit` looks for the oldest unsent descriptor, reads `BUSY`, and starts
the engine there if that is clear. The search reads what `tsemac_tx_poll` is clearing,
and the engine is still busy after it has read the terminator that the packet replaced.

* `order_of_kept`: in every run in which the search meets no cleared descriptor, and
  `BUSY` does not hide that the engine has stopped before the packet, the pieces are
  sent once and in ring order, the engine is restarted at the oldest unsent descriptor,
  and it never rests on an unsent packet.
* `busy_loses_packet`: the engine stops between the packet and the kick.
-/

namespace Br2Efinix.Tsemac

/-! ## The property -/

/-- `G` says which steps count as restarts to be judged. -/
structure InOrder (G : Tx → TxAct → Prop) (s : Tx) : Prop where
  /-- What has been sent are the first of the accepted pieces, -/
  sent : s.sent <+: s.items
  /-- each of which is another one. -/
  once : s.items.Nodup
  /-- The engine is started at the descriptor of the oldest one that is not sent. -/
  restart : ∀ mapped s' head, G s (.xmitStep mapped) → s.xmitStep mapped = some s' →
    s.dma = .idle → s'.dma = .fetch head → head = s.sent.length % s.n ∧
      (s.ring head).completed = false ∧ s.items[s.sent.length]? = some (s.ring head).src
  /-- The engine does not rest while something is unsent. -/
  rest : s.xmit = .idle → s.dma = .idle → s.sent = s.items
  /-- By itself it sends everything. -/
  drains : s.xmit = .idle → ∃ m s', txMachine.exec s (List.replicate m .dma) = some s' ∧
    s'.dma = .idle ∧ s'.sent = s.items

/-! ## The condition -/

/-- While the engine waits with something unsent, the search meets no descriptor that
`tsemac_tx_poll` has cleared; and when `BUSY` is read, an idle engine has something to
send and a stopping one has not. -/
def Kept (s : Tx) : TxAct → Prop
  | .xmitStep _ =>
    (∀ x bd, s.xmit = .scan x bd → s.halted → s.unsent → bd ≠ x.orig % s.n →
      (s.ring bd).completed = true → (s.ring bd).control ≠ 0) ∧
    ∀ x head, s.xmit = .kick x head → (s.dma = .idle → s.unsent) ∧ (s.dma = .stopping → ¬s.unsent)
  | _ => True

/-- All of it. -/
def Orderly (s : Tx) (a : TxAct) : Prop := Roomy s a ∧ Kept s a

variable {s s' : Tx} {C A : ℕ}

/-! ## `tsemac_start_xmit` -/

/-- Fields that a write leaves alone. -/
theorem ring_modDesc_keep {β : Type*} {g : Desc → β} {f : Desc → Desc} (hf : ∀ d, g (f d) = g d)
    (i j : ℕ) : g ((s.modDesc j f).ring i) = g (s.ring i) := by
  unfold Tx.modDesc
  simp only
  split
  · exact hf _
  · rfl

theorem ring_modDesc_self {f : Desc → Desc} (i : ℕ) : (s.modDesc i f).ring i = f (s.ring i) := by
  unfold Tx.modDesc
  simp only [if_true]

/-- Writes outside the pieces, at descriptors that are being written. -/
theorem Still.pieces (h : Still s s') (hw : Window s C A) (hp : Pieces s C)
    (hlaid : s.laid ≤ s'.laid) (hnext : ∀ i, (s'.ring i).next = (s.ring i).next)
    (hcompleted : ∀ p, C ≤ p → p < C + s.n → (p ≤ A ∨ A + s'.laid < p) →
      (s'.desc p).completed = (s.desc p).completed)
    (hsrc : ∀ p, C ≤ p → p < A → (s'.desc p).src = (s.desc p).src) : Pieces s' C := by
  obtain rfl := hw.items
  have hwhole := sent_le hp
  have hlt := hw.lt
  have hle := hw.le
  obtain ⟨hn, hitems, hsent, -, -⟩ := h
  obtain ⟨h1, h2, h3, h4, h5, h6⟩ := hp
  refine ⟨by rw [hsent, hitems]; exact h1, by rw [hsent]; exact h2, fun i => ?_, fun p hp hq => ?_,
    fun p hp hq => ?_, fun p hp hq hf => ?_⟩
  · rw [hnext, hn]
    exact h3 i
  · rw [hsent] at hq
    rw [hcompleted p hp (by omega) (Or.inl (by omega))]
    exact h4 p hp hq
  · rw [hsent] at hp
    rw [hitems] at hq
    rw [hcompleted p (by omega) (by omega) (Or.inl (by omega)), hsrc p (by omega) hq, hitems]
    exact h5 p hp hq
  · rw [hitems] at hp hf
    rw [hn] at hq
    rw [hcompleted p (by omega) hq (hf.imp_left Nat.le_of_eq)]
    exact h6 p hp hq (hf.imp_right fun h => by omega)

/-- While a packet is written nothing waits for a restart. -/
theorem not_waits (hx : (∃ x, s.xmit = .frag x) ∨ (∃ x, s.xmit = .fragStatus x) ∨
    ∃ x, s.xmit = .publish x) : ¬Waits s := by
  intro hw
  unfold Waits at hw
  rcases hx with ⟨x, hpc⟩ | ⟨x, hpc⟩ | ⟨x, hpc⟩
  · rw [hpc] at hw; exact hw
  · rw [hpc] at hw; exact hw
  · rw [hpc] at hw; exact hw

/-- An address that has just been mapped is new. -/
theorem fresh_map (hf : Fresh s) (hitems : s'.items = s.items) (hmapped : s'.mapped = s.mapped + 1)
    (hpending : s'.pending.Perm (s.mapped :: s.pending)) : Fresh s' := by
  obtain ⟨hnodup, hlt⟩ := hf
  have hperm : (s'.items ++ s'.pending).Perm (s.mapped :: (s.items ++ s.pending)) := by
    rw [hitems]
    exact (hpending.append_left s.items).trans List.perm_middle
  have hnew : s.mapped ∉ s.items ++ s.pending := fun h => Nat.lt_irrefl _ (hlt _ h)
  refine ⟨hperm.nodup_iff.2 (List.nodup_cons.2 ⟨hnew, hnodup⟩), ?_⟩
  intro a ha
  rw [hmapped]
  rcases List.mem_cons.1 (hperm.mem_iff.1 ha) with h | h
  · omega
  · have := hlt a h
    omega

/-- **A fragment is written** behind the pieces. -/
theorem frag_ordered {x y : Xmit} (hpc : s.xmit = .frag x) (hw : Window s C A)
    (hprep : Prepared s C A x) (hii : x.ii < x.pkt.frags.length) (ho : Ordered s C)
    (h : Still s s') (hpc' : s'.xmit = .fragStatus y) (hi : y.ii = x.ii + 1)
    (hy : y.addrs = x.addrs ++ [s.mapped]) (hmapped : s'.mapped = s.mapped + 1) {f : Desc → Desc}
    (hring : s'.ring = (s.modDesc ((A + 1 + x.ii) % s.n) f).ring)
    (hwrite : ∀ d, (f d).next = d.next ∧ (f d).completed = d.completed ∧ (f d).src = s.mapped) :
    Ordered s' C := by
  obtain ⟨hp, hr, hl, he, hf⟩ := ho
  have hlt := hw.lt
  have hle := hw.le
  have hlen := hw.items
  have hroom := hprep.room
  have haddrs := hprep.addrs
  have hnext : ∀ i, (s'.ring i).next = (s.ring i).next := by
    intro i
    rw [hring]
    exact ring_modDesc_keep (fun d => (hwrite d).1) i _
  have hcompleted : ∀ i, (s'.ring i).completed = (s.ring i).completed := by
    intro i
    rw [hring]
    exact ring_modDesc_keep (fun d => (hwrite d).2.1) i _
  have hsrc : ∀ p, C ≤ p → p < C + s.n → p ≠ A + 1 + x.ii → (s'.desc p).src = (s.desc p).src := by
    intro p h1 h2 h3
    unfold Tx.desc
    rw [h.n, hring, ring_modDesc_other (Ring.slot_ne h1 h2 (by omega) (by omega) h3)]
  have hself : (s'.desc (A + 1 + x.ii)).src = s.mapped := by
    unfold Tx.desc
    rw [h.n, hring, ring_modDesc_self]
    exact (hwrite _).2.2
  have hdone : ∀ p, (s'.desc p).completed = (s.desc p).completed := by
    intro p
    unfold Tx.desc
    rw [h.n]
    exact hcompleted _
  have hlaid : s.laid ≤ s'.laid := by
    unfold Tx.laid
    rw [hpc, hpc']
    simp only
    omega
  refine ⟨h.pieces hw hp hlaid hnext (fun p _ _ _ => hdone p)
    (fun p h1 h2 => hsrc p h1 (by omega) (by omega)), h.reclaims hr, ?_,
    h.engine (fun _ _ hwaits => absurd hwaits (not_waits (Or.inl ⟨x, hpc⟩))) he, ?_⟩
  · unfold Layout at hl ⊢
    rw [hpc] at hl
    rw [hpc']
    refine ⟨by omega, ?_⟩
    intro j hj
    rw [h.items, hlen, hdone, hy]
    rcases Nat.lt_or_ge j x.ii with hji | hji
    · rw [hsrc _ (by omega) (by omega) (by omega), List.getElem?_append_left (by omega)]
      have hold := hl j hji
      rw [hlen] at hold
      exact ⟨hold.1, fun _ => hold.2 hji⟩
    · obtain rfl : j = x.ii := by omega
      rw [hself, List.getElem?_append_right (by omega), haddrs, Nat.sub_self]
      refine ⟨rfl, ?_⟩
      intro hlast
      omega
  · refine fresh_map hf h.items hmapped ?_
    unfold Tx.pending
    rw [hpc, hpc']
    simp only
    rw [hy]
    exact List.perm_append_singleton _ _

/-- The linear part is mapped, and its address written to the terminator. -/
theorem linear_ordered {x y : Xmit} (hpc : s.xmit = .frag x) (hw : Window s C A)
    (hprep : Prepared s C A x) (ho : Ordered s C) (h : Still s s') (hpc' : s'.xmit = .publish y)
    (hi : y.ii = x.ii) (hy : y.addrs = x.addrs) (hlinear : y.linear = s.mapped)
    (hmapped : s'.mapped = s.mapped + 1) {f g : Desc → Desc} {i : ℕ}
    (hring : s'.ring = ((s.modDesc (A % s.n) f).modDesc i g).ring)
    (hwrite : ∀ d, (f d).next = d.next ∧ (f d).completed = d.completed ∧ (f d).src = s.mapped)
    (hsecond : ∀ d, (g d).next = d.next ∧ (g d).completed = d.completed ∧ (g d).src = d.src) :
    Ordered s' C := by
  obtain ⟨hp, hr, hl, he, hf⟩ := ho
  have hlt := hw.lt
  have hle := hw.le
  have hlen := hw.items
  have hroom := hprep.room
  have hcount := hprep.count
  have hnext : ∀ i, (s'.ring i).next = (s.ring i).next := by
    intro i
    rw [hring]
    exact (ring_modDesc_keep (fun d => (hsecond d).1) i _).trans
      (ring_modDesc_keep (fun d => (hwrite d).1) i _)
  have hcompleted : ∀ i, (s'.ring i).completed = (s.ring i).completed := by
    intro i
    rw [hring]
    exact (ring_modDesc_keep (fun d => (hsecond d).2.1) i _).trans
      (ring_modDesc_keep (fun d => (hwrite d).2.1) i _)
  have haddr : ∀ i, (s'.ring i).src = ((s.modDesc (A % s.n) f).ring i).src := by
    intro i
    rw [hring]
    exact ring_modDesc_keep (fun d => (hsecond d).2.2) i _
  have hsrc : ∀ p, C ≤ p → p < C + s.n → p ≠ A → (s'.desc p).src = (s.desc p).src := by
    intro p h1 h2 h3
    unfold Tx.desc
    rw [h.n, haddr, ring_modDesc_other (Ring.slot_ne h1 h2 hle hlt h3)]
  have hself : (s'.desc A).src = s.mapped := by
    unfold Tx.desc
    rw [h.n, haddr, ring_modDesc_self]
    exact (hwrite _).2.2
  have hdone : ∀ p, (s'.desc p).completed = (s.desc p).completed := by
    intro p
    unfold Tx.desc
    rw [h.n]
    exact hcompleted _
  have hlaid : s.laid ≤ s'.laid := by
    unfold Tx.laid
    rw [hpc, hpc']
    exact Nat.le_of_eq hi.symm
  refine ⟨h.pieces hw hp hlaid hnext (fun p _ _ _ => hdone p)
    (fun p h1 h2 => hsrc p h1 (by omega) (by omega)), h.reclaims hr, ?_,
    h.engine (fun _ _ hwaits => absurd hwaits (not_waits (Or.inl ⟨x, hpc⟩))) he, ?_⟩
  · unfold Layout at hl ⊢
    rw [hpc] at hl
    rw [hpc']
    refine ⟨?_, ?_⟩
    · intro j hj
      have hji : j < x.ii := by omega
      rw [h.items, hlen, hdone, hy, hi, hsrc _ (by omega) (by omega) (by omega)]
      have hold := hl j hji
      rw [hlen] at hold
      exact hold
    · rw [h.items, hlen, hself, hlinear]
  · refine fresh_map hf h.items hmapped ?_
    unfold Tx.pending
    rw [hpc, hpc']
    simp only
    rw [hy, hlinear]

/-- The status of a fragment is written. -/
theorem status_ordered {x : Xmit} (hpc : s.xmit = .fragStatus x) (hw : Window s C A)
    (hprep : Prepared s C A x) (ho : Ordered s C) (h : Still s s') (hpc' : s'.xmit = .frag x)
    (hmapped : s'.mapped = s.mapped) {f : Desc → Desc}
    (hring : s'.ring = (s.modDesc ((A + x.ii) % s.n) f).ring)
    (hwrite : ∀ d, (f d).next = d.next ∧ (f d).src = d.src ∧ (f d).completed = false) :
    Ordered s' C := by
  obtain ⟨hp, hr, hl, he, hf⟩ := ho
  have hlt := hw.lt
  have hle := hw.le
  have hlen := hw.items
  have hroom := hprep.room
  have hcount := hprep.count
  have hnext : ∀ i, (s'.ring i).next = (s.ring i).next := by
    intro i
    rw [hring]
    exact ring_modDesc_keep (fun d => (hwrite d).1) i _
  have hsrc : ∀ i, (s'.ring i).src = (s.ring i).src := by
    intro i
    rw [hring]
    exact ring_modDesc_keep (fun d => (hwrite d).2.1) i _
  have hcompleted : ∀ p, C ≤ p → p < C + s.n → p ≠ A + x.ii →
      (s'.desc p).completed = (s.desc p).completed := by
    intro p h1 h2 h3
    unfold Tx.desc
    rw [h.n, hring, ring_modDesc_other (Ring.slot_ne h1 h2 (by omega) (by omega) h3)]
  have hself : (s'.desc (A + x.ii)).completed = false := by
    unfold Tx.desc
    rw [h.n, hring, ring_modDesc_self]
    exact (hwrite _).2.2
  have haddr : ∀ p, (s'.desc p).src = (s.desc p).src := by
    intro p
    unfold Tx.desc
    rw [h.n]
    exact hsrc _
  have hlaid : s'.laid = x.ii := by unfold Tx.laid; rw [hpc']
  have hlaid' : s.laid = x.ii := by unfold Tx.laid; rw [hpc]
  unfold Layout at hl
  rw [hpc] at hl
  obtain ⟨hpos, hold⟩ := hl
  refine ⟨h.pieces hw hp (by omega) hnext (fun p h1 h2 h3 => hcompleted p h1 h2 (by omega))
    (fun p _ _ => haddr p), h.reclaims hr, ?_,
    h.engine (fun _ _ hwaits => absurd hwaits (not_waits (Or.inr (Or.inl ⟨x, hpc⟩)))) he, ?_⟩
  · unfold Layout
    rw [hpc']
    intro j hj
    obtain ⟨h1, h2⟩ := hold j hj
    rw [hlen] at h1 h2
    rw [h.items, hlen, haddr]
    refine ⟨h1, ?_⟩
    intro _
    rcases Nat.lt_or_ge j (x.ii - 1) with hji | hji
    · rw [hcompleted _ (by omega) (by omega) (by omega)]
      exact h2 hji
    · rw [show A + 1 + j = A + x.ii by omega]
      exact hself
  · unfold Fresh Tx.pending at hf ⊢
    rw [hpc] at hf
    rw [hpc', h.items, hmapped]
    exact hf

/-- **A packet is published**: its pieces follow the ones accepted before. -/
theorem publish_ordered {x : Xmit} (hpc : s.xmit = .publish x) (hw : Window s C A)
    (hprep : Prepared s C A x) (hfull : x.ii = x.pkt.frags.length) (ho : Ordered s C)
    (hn : s'.n = s.n) (hitems : s'.items = s.items ++ x.linear :: x.addrs)
    (hsent : s'.sent = s.sent) (hdma : s'.dma = s.dma) (hpoll : s'.poll = s.poll)
    (hpc' : s'.xmit = .advance x) (hmapped : s'.mapped = s.mapped)
    (hnext : ∀ i, (s'.ring i).next = (s.ring i).next) (hsrc : ∀ i, (s'.ring i).src = (s.ring i).src)
    (hcompleted : ∀ p, C ≤ p → p < C + s.n → p ≠ A →
      (s'.desc p).completed = (s.desc p).completed)
    (hself : (s'.desc A).completed = false) : Ordered s' C := by
  obtain rfl := hw.items
  obtain ⟨hp, hr, hl, he, hf⟩ := ho
  have hlt := hw.lt
  have hle := hw.le
  have hwhole := sent_le hp
  have hroom := hprep.room
  have haddrs := hprep.addrs
  have haddr : ∀ p, (s'.desc p).src = (s.desc p).src := by
    intro p
    unfold Tx.desc
    rw [hn]
    exact hsrc _
  have hlen : s'.items.length = s.items.length + x.ii + 1 := by
    rw [hitems, List.length_append, List.length_cons, haddrs]
    omega
  have hlaid : s.laid = x.ii := by unfold Tx.laid; rw [hpc]
  have hlaid' : s'.laid = 0 := by unfold Tx.laid; rw [hpc']
  have hnot : ¬Waits s := not_waits (Or.inr (Or.inr ⟨x, hpc⟩))
  have hkeep : ∀ p, p < s.items.length → s'.items[p]? = s.items[p]? := by
    intro p h
    rw [hitems]
    exact List.getElem?_append_left h
  unfold Layout at hl
  rw [hpc] at hl
  obtain ⟨hlaidx, hlinear⟩ := hl
  refine ⟨⟨?_, by rw [hsent]; exact hp.le, fun i => by rw [hnext, hn]; exact hp.next i, fun p h1 h2 => ?_,
    fun p h1 h2 => ?_, fun p h1 h2 h3 => ?_⟩, fun fr hfr hat => ?_, ?_, ?_, ?_⟩
  · rw [hsent, hitems]
    exact hp.sent.trans (List.prefix_append _ _)
  · rw [hsent] at h2
    rw [hcompleted p h1 (by omega) (by omega)]
    exact hp.behind p h1 h2
  · rw [hsent] at h1
    rw [hlen] at h2
    have hC := hp.le
    rw [haddr]
    rcases Nat.lt_trichotomy p s.items.length with h | h | h
    · rw [hcompleted p (by omega) (by omega) (by omega), hkeep p h]
      exact hp.ahead p h1 h
    · subst h
      rw [hlinear, hitems, List.getElem?_append_right (Nat.le_refl _), Nat.sub_self]
      exact ⟨hself, rfl⟩
    · obtain ⟨j, rfl⟩ : ∃ j, p = s.items.length + 1 + j := ⟨p - s.items.length - 1, by omega⟩
      obtain ⟨hj1, hj2⟩ := hlaidx j (by omega)
      rw [hcompleted _ (by omega) (by omega) (by omega), hitems,
        List.getElem?_append_right (by omega),
        show s.items.length + 1 + j - s.items.length = j + 1 by omega, List.getElem?_cons_succ]
      exact ⟨hj2 (by omega), hj1⟩
  · rw [hlen] at h1
    rw [hn] at h2
    rw [hcompleted p (by omega) h2 (by omega)]
    exact hp.free p (by omega) h2 (Or.inr (by omega))
  · rw [hpoll] at hfr
    rw [hsent]
    exact hr fr hfr hat
  · unfold Layout
    rw [hpc']
    trivial
  · unfold Engine at he ⊢
    rw [hdma]
    -- a halted engine had sent everything, so it waits for this packet
    have hstop : (s.unsent → Waits s) → s'.unsent → Waits s' := by
      intro hwait _
      have hall : s.sent.length = s.items.length := by
        by_contra hne
        refine hnot (hwait ?_)
        unfold Tx.unsent
        omega
      unfold Waits
      rw [hpc', hsent, hn, hall]
      exact hprep.orig
    cases hd : s.dma with
    | fetch cur =>
      rw [hd] at he
      simp only at he ⊢
      rw [hsent, hn]
      exact he
    | send cur src =>
      rw [hd] at he
      simp only at he ⊢
      rw [hsent, hn]
      obtain ⟨hu, -⟩ := List.getElem?_eq_some_iff.1 he.2
      rw [hkeep _ hu]
      exact he
    | idle => rw [hd] at he; exact hstop he
    | stopping => rw [hd] at he; exact hstop he
  · unfold Fresh Tx.pending at hf ⊢
    rw [hpc] at hf
    rw [hpc', hitems, hmapped, List.append_nil]
    exact hf

/-- A step between accesses of the descriptors. -/
theorem Frame.moved (h : Frame s s') (hp : s'.poll = s.poll) (hmapped : s'.mapped = s.mapped)
    (hlaid : s'.laid = s.laid) (hpending : s'.pending = s.pending) (hl : Layout s')
    (he : Engine s') (ho : Ordered s C) : Ordered s' C := by
  refine ⟨h.pieces hlaid ho.pieces, ?_, hl, he, h.fresh hpending hmapped ho.fresh⟩
  intro fr hfr hat
  rw [hp] at hfr
  rw [h.sent]
  exact ho.reclaims fr hfr hat

/-- No packet is being laid. -/
theorem not_laying (h : ∀ x, s.xmit ≠ .frag x ∧ s.xmit ≠ .fragStatus x ∧ s.xmit ≠ .publish x) :
    s.laid = 0 ∧ s.pending = [] := by
  unfold Tx.laid Tx.pending
  cases hpc : s.xmit with
  | frag x => exact absurd hpc (h x).1
  | fragStatus x => exact absurd hpc (h x).2.1
  | publish x => exact absurd hpc (h x).2.2
  | _ => exact ⟨rfl, rfl⟩

/-- A step between packets. -/
theorem Frame.between (h : Frame s s') (hstill : Still s s') (hmapped : s'.mapped = s.mapped)
    (hlaid : s.laid = 0 ∧ s.pending = []) (hlaid' : s'.laid = 0 ∧ s'.pending = []) (hl : Layout s')
    (hw : s.halted → s.unsent → Waits s → Waits s') (ho : Ordered s C) : Ordered s' C := by
  have hengine : Engine s' := hstill.engine hw ho.engine
  exact h.moved hstill.poll hmapped (hlaid'.1.trans hlaid.1.symm) (hlaid'.2.trans hlaid.2.symm) hl hengine ho

/-- **The search** goes on to the oldest unsent descriptor: what it passes has been sent,
and is completed even where it has been reclaimed. -/
theorem scan_done (hw : Window s C A) (ho : Ordered s C) {x : Xmit} {bd : ℕ}
    (hpc : s.xmit = .scan x bd) (hhalted : s.halted) (hunsent : s.unsent)
    (hkept : Kept s (.xmitStep true)) {b : ℕ} (hb : b < s.sent.length) (hA : A ≤ b + s.n)
    (hbd : bd = b % s.n) (hne : bd ≠ x.orig % s.n) : (s.ring bd).done = true := by
  have hlt := hw.lt
  have hlen := hw.items
  have hwhole := sent_le ho.pieces
  have hlaid : s.laid = 0 := by unfold Tx.laid; rw [hpc]
  have hcompleted : (s.ring bd).completed = true := by
    rw [hbd]
    rcases Nat.lt_or_ge b C with hC | hC
    · have hfree := ho.pieces.free (b + s.n) (by omega) (by omega) (by omega)
      unfold Tx.desc at hfree
      rw [Nat.add_mod_right] at hfree
      exact hfree
    · exact ho.pieces.behind b hC hb
  have hcontrol := hkept.1 x bd hpc hhalted hunsent hne hcompleted
  unfold Desc.done
  rw [hcompleted, Bool.true_and]
  exact bne_iff_ne.2 hcontrol

/-- Publishing writes control words and one status. -/
theorem publish_keep {β : Type*} {g : Desc → β} {x : Xmit}
    (hg : ∀ d b c, g { d with completed := b, control := c } = g d) (i : ℕ) :
    g ((s.xmitPublish x).ring i) = g (s.ring i) := by
  unfold Tx.xmitPublish
  simp only
  split
  · have h1 := ring_modDesc_keep (s := s) (g := g)
      (f := fun d => { d with control := d.control ||| DMASG_DESCRIPTOR_CONTROL_END_OF_PACKET })
      (fun d => hg d _ _) i x.cur
    rw [← h1]
    exact ring_modDesc_keep (fun d => hg d _ _) i _
  · exact ring_modDesc_keep (fun d => hg d _ _) i _

theorem publish_status {x : Xmit} (i : ℕ) :
    ((s.xmitPublish x).ring i).completed = if i = x.orig then false else (s.ring i).completed := by
  unfold Tx.xmitPublish
  simp only
  by_cases hi : i = x.orig
  · subst hi
    rw [if_pos rfl]
    split <;> rw [ring_modDesc_self]
  · rw [if_neg hi]
    split
    · rw [ring_modDesc_other hi]
      exact ring_modDesc_keep (g := Desc.completed) (by intro d; rfl) i _
    · rw [ring_modDesc_other hi]

/-- A step of `tsemac_start_xmit` between packets that writes no descriptor. -/
theorem Ordered.goto (ho : Ordered s C) {pc : XmitPc} {tail : ℕ} {stopped : Bool}
    (hfrom : ∀ x, s.xmit ≠ .frag x ∧ s.xmit ≠ .fragStatus x ∧ s.xmit ≠ .publish x)
    (hto : ∀ x, pc ≠ .frag x ∧ pc ≠ .fragStatus x ∧ pc ≠ .publish x)
    (hw : s.halted → s.unsent → Waits s → Waits { s with tail := tail, stopped := stopped, xmit := pc }) :
    Ordered { s with tail := tail, stopped := stopped, xmit := pc } C := by
  refine Frame.between (s := s) (.of_ring rfl rfl rfl rfl) ⟨rfl, rfl, rfl, rfl, rfl⟩ rfl (not_laying hfrom)
    (not_laying hto) ?_ hw ho
  unfold Layout
  cases pc with
  | frag x => exact absurd rfl (hto x).1
  | fragStatus x => exact absurd rfl (hto x).2.1
  | publish x => exact absurd rfl (hto x).2.2
  | _ => trivial

/-- A halted engine waits for no packet when none is being sent. -/
theorem waits_elim {P : Prop} (hwaits : Waits s) (hpc : s.xmit = .space ∨ s.xmit = .recheck) : P := by
  unfold Waits at hwaits
  rcases hpc with hpc | hpc <;> rw [hpc] at hwaits <;> exact hwaits.elim

/-- A step of the search: over a descriptor that has been sent, or to where the engine is started. -/
theorem scan_ordered (hw : Window s C A) (ho : Ordered s C) {x : Xmit} {bd : ℕ} {mapped : Bool}
    (hpc : s.xmit = .scan x bd) (hkept : Kept s (.xmitStep mapped)) (hstep : s.xmitStep mapped = some s') : Ordered s' C := by
  have hlen := hw.items
  unfold Tx.xmitStep at hstep
  rw [hpc] at hstep
  simp only at hstep
  split at hstep
  · rename_i hcond
    obtain rfl := Option.some.inj hstep
    refine ho.goto (by simp [hpc]) (by simp) ?_
    intro _ _ hwaits
    unfold Waits at hwaits ⊢
    rw [hpc] at hwaits
    obtain ⟨horig, b, hb, hA, hbd⟩ := hwaits
    have hne : b ≠ s.sent.length := by
      intro h
      refine hcond.1 ?_
      rw [horig, Nat.mod_mod, hbd, h]
    refine ⟨horig, b + 1, ?_, ?_, ?_⟩
    · simp only
      omega
    · simp only
      omega
    · simp only
      rw [hbd, Ring.slot_add]
  · rename_i hcond
    obtain rfl := Option.some.inj hstep
    refine ho.goto (by simp [hpc]) (by simp) ?_
    intro hh hu hwaits
    unfold Waits at hwaits ⊢
    rw [hpc] at hwaits
    obtain ⟨horig, b, hb, hA, hbd⟩ := hwaits
    simp only
    by_cases hne : bd = x.orig % s.n
    · rw [hne, horig, Nat.mod_mod]
    · rcases Nat.lt_or_eq_of_le hb with h | h
      · have hdone := scan_done hw ho hpc hh hu hkept h (by omega) hbd hne
        exact absurd ⟨hne, hdone⟩ hcond
      · rw [hbd, h]

/-- **The engine is restarted** at the oldest unsent descriptor if it is idle. -/
theorem kick_ordered (ho : Ordered s C) {x : Xmit} {head : ℕ} {mapped : Bool} (hpc : s.xmit = .kick x head)
    (hkept : Kept s (.xmitStep mapped)) (hstep : s.xmitStep mapped = some s') : Ordered s' C := by
  have hengine := ho.engine
  unfold Tx.xmitStep at hstep
  rw [hpc] at hstep
  obtain rfl := Option.some.inj hstep
  obtain ⟨hidle, hstopping⟩ := hkept.2 x head hpc
  obtain ⟨hlaid, hpending⟩ := not_laying (s := s) (by simp [hpc])
  refine Frame.moved (s := s) (.of_ring rfl rfl rfl rfl) rfl rfl hlaid.symm hpending.symm trivial ?_ ho
  unfold Engine Waits at hengine
  unfold Engine
  cases hd : s.dma with
  | idle =>
    rw [hd, hpc] at hengine
    simp only [if_true]
    exact hengine (hidle hd)
  | stopping =>
    intro hu
    exact absurd hu (hstopping hd)
  | fetch cur =>
    rw [hd] at hengine
    exact hengine
  | send cur src =>
    rw [hd] at hengine
    exact hengine

theorem xmitStep_ordered (h : Owns s C A) (ho : Ordered s C) {mapped : Bool}
    (hroomy : Roomy s (.xmitStep mapped)) (hkept : Kept s (.xmitStep mapped))
    (hstep : s.xmitStep mapped = some s') : Ordered s' C := by
  obtain ⟨hw, hx⟩ := h
  have hlt := hw.lt
  have hle := hw.le
  have hlen := hw.items
  have hn : 0 < s.n := by omega
  have hdo := hstep
  unfold XmitOk at hx
  unfold Tx.xmitStep at hstep
  cases hpc : s.xmit with
  | idle => rw [hpc] at hstep; exact absurd hstep (by simp)
  | frag x =>
    rw [hpc] at hstep hx
    obtain rfl := hroomy ⟨x, hpc⟩
    obtain rfl := Option.some.inj hstep
    have hroom := hx.room
    unfold Tx.xmitFrag
    cases hfrag : x.pkt.frags[x.ii]? with
    | some len =>
      obtain ⟨hii, -⟩ := List.getElem?_eq_some_iff.1 hfrag
      have hslot : s.wrap x.new = (A + 1 + x.ii) % s.n := by
        rw [hx.wrap_new hn, Nat.add_right_comm A x.ii 1]
      simp only [hslot, if_true]
      refine frag_ordered hpc hw hx hii ho ⟨rfl, rfl, rfl, rfl, rfl⟩ rfl rfl rfl rfl
        (f := fun d => { d with src := s.mapped, control := controlBytes len }) ?_ ?_
      · rfl
      · exact fun _ => ⟨rfl, rfl, rfl⟩
    | none =>
      simp only [hx.orig, if_true]
      refine linear_ordered hpc hw hx ho ⟨rfl, rfl, rfl, rfl, rfl⟩ rfl rfl rfl rfl rfl (i := x.cur)
        (f := fun d => { d with src := s.mapped }) (g := fun d => { d with skb := some x.pkt.id })
        ?_ ?_ ?_
      · rfl
      · exact fun _ => ⟨rfl, rfl, rfl⟩
      · exact fun _ => ⟨rfl, rfl, rfl⟩
  | fragStatus x =>
    rw [hpc] at hstep hx
    obtain rfl := Option.some.inj hstep
    simp only [hx.cur]
    refine status_ordered hpc hw hx ho ⟨rfl, rfl, rfl, rfl, rfl⟩ rfl rfl
      (f := fun d => { d with completed := false }) ?_ ?_
    · rfl
    · exact fun _ => ⟨rfl, rfl, rfl⟩
  | publish x =>
    rw [hpc] at hstep hx
    obtain rfl := Option.some.inj hstep
    obtain ⟨hprep, hfull⟩ := hx
    have hroom := hprep.room
    have hfields : (s.xmitPublish x).n = s.n ∧ (s.xmitPublish x).sent = s.sent ∧
        (s.xmitPublish x).dma = s.dma ∧ (s.xmitPublish x).poll = s.poll ∧
        (s.xmitPublish x).mapped = s.mapped := by
      unfold Tx.xmitPublish
      split <;> exact ⟨rfl, rfl, rfl, rfl, rfl⟩
    obtain ⟨g1, g2, g3, g4, g5⟩ := hfields
    refine publish_ordered hpc hw hprep hfull ho g1 rfl g2 g3 g4 rfl g5
      (publish_keep (g := Desc.next) (by intro d b c; rfl))
      (publish_keep (g := Desc.src) (by intro d b c; rfl)) (fun p h1 h2 h3 => ?_) ?_
    · unfold Tx.desc
      rw [g1, publish_status, if_neg]
      rw [hprep.orig]
      exact Ring.slot_ne h1 h2 hle hlt h3
    · unfold Tx.desc
      rw [g1, publish_status, hprep.orig, if_pos rfl]
  | advance x =>
    rw [hpc] at hstep
    obtain rfl := Option.some.inj hstep
    refine ho.goto (by simp [hpc]) (by simp) ?_
    intro _ _ hwaits
    unfold Waits at hwaits ⊢
    rw [hpc] at hwaits
    exact hwaits
  | term x =>
    rw [hpc] at hstep hx
    obtain rfl := Option.some.inj hstep
    have hterm : (s.ring x.new).completed = true := by
      rw [hx.new]
      exact ho.pieces.free A (by omega) hlt (Or.inl hlen.symm)
    refine Frame.between (s := s) ⟨rfl, rfl, rfl, ?_⟩ ⟨rfl, rfl, rfl, rfl, rfl⟩ rfl
      (not_laying (by simp [hpc])) ⟨rfl, rfl⟩ trivial ?_ ho
    · intro i
      exact same_modDesc (s := s) (f := fun d => { d with completed := true })
        ⟨hterm.symm, rfl, rfl⟩ i
    · intro _ _ hwaits
      unfold Waits at hwaits ⊢
      rw [hpc] at hwaits
      exact hwaits
  | head x =>
    rw [hpc] at hstep
    obtain rfl := Option.some.inj hstep
    refine ho.goto (by simp [hpc]) (by simp) ?_
    intro _ _ hwaits
    -- the search starts at the first descriptor that is not reclaimed
    unfold Waits at hwaits ⊢
    rw [hpc] at hwaits
    refine ⟨hwaits, C, ho.pieces.le, ?_, ?_⟩
    · simp only
      omega
    · simp only
      rw [hw.ci, Nat.mod_mod]
  | scan x bd => exact scan_ordered hw ho hpc hkept hdo
  | kick x head => exact kick_ordered ho hpc hkept hdo
  | space =>
    rw [hpc] at hstep
    simp only at hstep
    split at hstep
    · obtain rfl := Option.some.inj hstep
      exact ho.goto (by simp [hpc]) (by simp) fun _ _ hwaits => waits_elim hwaits (Or.inl hpc)
    · obtain rfl := Option.some.inj hstep
      exact ho.goto (by simp [hpc]) (by simp) fun _ _ hwaits => waits_elim hwaits (Or.inl hpc)
  | recheck =>
    rw [hpc] at hstep
    obtain rfl := Option.some.inj hstep
    exact ho.goto (by simp [hpc]) (by simp) fun _ _ hwaits => waits_elim hwaits (Or.inr hpc)
  | drop fr => rw [hpc] at hx; exact hx.elim

/-! ## Whole runs -/

theorem startXmit_ordered (ho : Ordered s C) {p : Packet} (hstep : s.startXmit p = some s') :
    Ordered s' C := by
  have hengine := ho.engine
  unfold Tx.startXmit at hstep
  split at hstep
  swap
  · exact absurd hstep (by simp)
  rename_i hcond
  obtain ⟨hpc, -⟩ := hcond
  split at hstep
  · obtain rfl := Option.some.inj hstep
    exact Frame.ordered (s := s) (.of_ring rfl rfl rfl rfl) rfl rfl ho.reclaims hengine ho
  · obtain rfl := Option.some.inj hstep
    refine Frame.between (s := s) (.of_ring rfl rfl rfl rfl) ⟨rfl, rfl, rfl, rfl, rfl⟩ rfl
      (not_laying (by simp [hpc])) ⟨rfl, rfl⟩ ?_ ?_ ho
    · intro j hj
      exact absurd hj (Nat.not_lt_zero j)
    · intro _ _ hwaits
      unfold Waits at hwaits
      rw [hpc] at hwaits
      exact hwaits.elim

theorem startPoll_ordered (ho : Ordered s C) {budget : ℕ} (hstep : s.startPoll budget = some s') :
    Ordered s' C := by
  have hengine := ho.engine
  unfold Tx.startPoll at hstep
  split at hstep
  swap
  · exact absurd hstep (by simp)
  obtain rfl := Option.some.inj hstep
  refine Frame.ordered (s := s) (.of_ring rfl rfl rfl rfl) rfl rfl ?_ hengine ho
  intro fr hfr hat
  obtain rfl := PollPc.free.inj hfr
  exact absurd rfl hat

/-- What holds in every state of an orderly run. -/
def Sound (s : Tx) : Prop := ∃ C A, Owns s C A ∧ Ordered s C

theorem step_sound (h : Sound s) {a : TxAct} (horderly : Orderly s a)
    (hstep : txMachine.step s a = some s') : Sound s' := by
  obtain ⟨C, A, howns, ho⟩ := h
  obtain ⟨hroomy, hkept⟩ := horderly
  cases a with
  | xmit p => exact ⟨C, A, startXmit_owns howns hroomy hstep, startXmit_ordered ho hstep⟩
  | xmitStep mapped =>
    obtain ⟨A', howns'⟩ := xmitStep_owns howns hroomy hstep
    exact ⟨C, A', howns', xmitStep_ordered howns ho hroomy hkept hstep⟩
  | poll budget => exact ⟨C, A, startPoll_owns howns hstep, startPoll_ordered ho hstep⟩
  | pollStep =>
    obtain ⟨C', howns', ho'⟩ := pollStep_ordered howns ho hstep
    exact ⟨C', A, howns', ho'⟩
  | dma => exact ⟨C, A, dmaStep_owns howns hstep, dmaStep_ordered howns ho hstep⟩

theorem init_sound {n : ℕ} (hn : AcceptedTx n) : Sound (txInit n) := by
  refine ⟨0, 0, init_owns hn, ⟨List.nil_prefix, Nat.le_refl 0, fun i => rfl, ?_,
    ?_, fun p _ _ _ => rfl⟩, ?_, trivial, ?_, ?_⟩
  · intro p _ hp
    exact absurd hp (Nat.not_lt_zero p)
  · intro p _ hp
    exact absurd hp (Nat.not_lt_zero p)
  · intro fr hfr
    exact absurd hfr (by simp [txInit])
  · intro hu
    exact absurd hu (Nat.lt_irrefl 0)
  · exact ⟨List.nodup_nil, fun a ha => absurd ha (by simp [txInit, Tx.pending])⟩

/-- With no packet being written the engine never waits. -/
theorem not_unsent (ho : Ordered s C) (hidle : s.xmit = .idle) (hhalted : s.halted) :
    s.sent = s.items := by
  have he := ho.engine
  have hstuck : ¬s.unsent := by
    intro hu
    have hwaits : Waits s := by
      unfold Engine at he
      rcases hhalted with hd | hd
      · rw [hd] at he; exact he hu
      · rw [hd] at he; exact he hu
    unfold Waits at hwaits
    rw [hidle] at hwaits
    exact hwaits
  unfold Tx.unsent at hstuck
  exact ho.pieces.sent.eq_of_length_le (by omega)

/-- How far the engine is from resting. -/
def Tx.togo (s : Tx) : ℕ :=
  2 * (s.items.length - s.sent.length) +
    match s.dma with
    | .idle => 0
    | .stopping => 1
    | .send _ _ => 1
    | .fetch _ => 2

/-- The engine takes a step towards it. -/
theorem dmaStep_togo (ho : Ordered s C) (hdma : s.dma ≠ .idle) :
    ∃ s', s.dmaStep = some s' ∧ s'.togo < s.togo ∧ s'.xmit = s.xmit ∧ s'.items = s.items := by
  have he := ho.engine
  unfold Engine at he
  unfold Tx.dmaStep Tx.togo
  cases hd : s.dma with
  | idle => exact absurd hd hdma
  | stopping => exact ⟨_, rfl, by simp only; omega, rfl, rfl⟩
  | fetch cur =>
    simp only
    split
    · exact ⟨_, rfl, by simp only; omega, rfl, rfl⟩
    · exact ⟨_, rfl, by simp only; omega, rfl, rfl⟩
  | send cur src =>
    rw [hd] at he
    obtain ⟨hu, -⟩ := List.getElem?_eq_some_iff.1 he.2
    refine ⟨_, rfl, ?_, rfl, rfl⟩
    simp only [Tx.modDesc, List.length_append, List.length_singleton]
    omega

/-- **By itself the engine sends everything** that has been accepted. -/
theorem drains (h : Owns s C A) (ho : Ordered s C) (hidle : s.xmit = .idle) :
    ∃ m s', txMachine.exec s (List.replicate m .dma) = some s' ∧ s'.dma = .idle ∧
      s'.sent = s.items := by
  induction hk : s.togo using Nat.strongRecOn generalizing s with
  | ind k ih =>
    by_cases hdma : s.dma = .idle
    · exact ⟨0, s, rfl, hdma, not_unsent ho hidle (Or.inl hdma)⟩
    · obtain ⟨s₁, hstep, hless, hx, hitems⟩ := dmaStep_togo ho hdma
      obtain ⟨m, s', hexec, hrest, hsent⟩ := ih s₁.togo (by omega) (dmaStep_owns h hstep)
        (dmaStep_ordered h ho hstep) (hx.trans hidle) rfl
      refine ⟨m + 1, s', ?_, hrest, hsent.trans hitems⟩
      rw [List.replicate_succ]
      unfold Machine.exec
      have hdo : txMachine.step s .dma = some s₁ := hstep
      rw [hdo]
      exact hexec

theorem freeStep_dma (fr : Free) : (s.freeStep fr).1.dma = s.dma := by
  unfold Tx.freeStep
  cases fr.at_ with
  | check => simp only; split <;> rfl
  | _ => rfl

/-- Only the kick starts the engine. -/
theorem kick_of_start {mapped : Bool} {head : ℕ} (hstep : s.xmitStep mapped = some s')
    (hidle : s.dma = .idle) (hstart : s'.dma = .fetch head) : ∃ x, s.xmit = .kick x head := by
  have hother : s'.dma = s.dma → False := by
    intro h
    rw [hstart, hidle] at h
    exact absurd h (by simp)
  unfold Tx.xmitStep at hstep
  cases hpc : s.xmit with
  | idle => rw [hpc] at hstep; exact absurd hstep (by simp)
  | kick x _ =>
    rw [hpc] at hstep
    obtain rfl := Option.some.inj hstep
    simp only [hidle, if_true] at hstart
    exact ⟨x, by rw [Dma.fetch.inj hstart]⟩
  | frag x =>
    rw [hpc] at hstep
    obtain rfl := Option.some.inj hstep
    refine (hother ?_).elim
    unfold Tx.xmitFrag
    split <;> (simp only; split <;> rfl)
  | publish x =>
    rw [hpc] at hstep
    obtain rfl := Option.some.inj hstep
    refine (hother ?_).elim
    unfold Tx.xmitPublish
    split <;> rfl
  | scan x bd =>
    rw [hpc] at hstep
    simp only at hstep
    split at hstep <;> (obtain rfl := Option.some.inj hstep; exact (hother rfl).elim)
  | space =>
    rw [hpc] at hstep
    simp only at hstep
    split at hstep <;> (obtain rfl := Option.some.inj hstep; exact (hother rfl).elim)
  | drop fr =>
    rw [hpc] at hstep
    obtain rfl := Option.some.inj hstep
    exact (hother (freeStep_dma fr)).elim
  | _ =>
    rw [hpc] at hstep
    obtain rfl := Option.some.inj hstep
    exact (hother rfl).elim

/-- Every step that restarts the engine starts it at the oldest unsent descriptor. -/
theorem restart_of_sound (ho : Ordered s C) {mapped : Bool} {head : ℕ}
    (horderly : Orderly s (.xmitStep mapped)) (hstep : s.xmitStep mapped = some s')
    (hidle : s.dma = .idle) (hstart : s'.dma = .fetch head) :
    head = s.sent.length % s.n ∧ (s.ring head).completed = false ∧
      s.items[s.sent.length]? = some (s.ring head).src := by
  obtain ⟨x, hpc⟩ := kick_of_start hstep hidle hstart
  have hu := (horderly.2.2 x head hpc).1 hidle
  have he := ho.engine
  unfold Engine at he
  rw [hidle] at he
  have hwaits : Waits s := he hu
  unfold Waits at hwaits
  rw [hpc] at hwaits
  have hhead : head = s.sent.length % s.n := hwaits
  obtain ⟨h1, h2⟩ := ho.pieces.ahead _ (Nat.le_refl _) hu
  unfold Tx.desc at h1 h2
  rw [← hhead] at h1 h2
  exact ⟨hhead, h1, h2⟩

/-- **Every accepted piece is sent once and in ring order**, and none is left behind, in
every run whose steps meet the condition. -/
theorem order_of_kept {s : Tx} (h : txMachine.Reach Orderly s) : InOrder Orderly s := by
  have hsound : Sound s := by
    refine h.invariant (I := Sound) ?_ ?_
    · rintro s ⟨n, hn, rfl⟩
      exact init_sound hn
    · intro s a s' hs horderly hstep
      exact step_sound hs horderly hstep
  obtain ⟨C, A, howns, ho⟩ := hsound
  have hnodup := List.Nodup.of_append_left ho.fresh.1
  refine ⟨ho.pieces.sent, hnodup, ?_,
    fun hidle hrest => not_unsent ho hidle (Or.inl hrest), drains howns ho⟩
  intro mapped s' head horderly hstep hidle hstart
  exact restart_of_sound ho horderly hstep hidle hstart

instance (s : Tx) : Decidable s.unsent := inferInstanceAs (Decidable (_ < _))

instance (s : Tx) : Decidable s.halted := inferInstanceAs (Decidable (_ ∨ _))

instance (s : Tx) (mapped : Bool) : Decidable (Kept s (.xmitStep mapped)) :=
  match h : s.xmit with
  | .scan x bd =>
    decidable_of_iff (s.halted → s.unsent → bd ≠ x.orig % s.n → (s.ring bd).completed = true →
      (s.ring bd).control ≠ 0) (by simp [Kept, h])
  | .kick x head =>
    decidable_of_iff ((s.dma = .idle → s.unsent) ∧ (s.dma = .stopping → ¬s.unsent)) (by simp [Kept, h])
  | .idle | .frag _ | .fragStatus _ | .publish _ | .advance _ | .term _ | .head _ | .space | .recheck
  | .drop _ => isTrue (by simp [Kept, h])

instance : ∀ s a, Decidable (Orderly s a)
  | _, .xmitStep _ => inferInstanceAs (Decidable (_ ∧ _))
  | s, .xmit p => decidable_of_iff (Roomy s (.xmit p)) (by simp [Orderly, Kept])
  | _, .poll _ => isTrue ⟨trivial, trivial⟩
  | _, .pollStep => isTrue ⟨trivial, trivial⟩
  | _, .dma => isTrue ⟨trivial, trivial⟩

theorem order_of_kept_two :
    ∃ s, txMachine.exec (txInit 18) (twoPieces ++ List.replicate 6 .dma) = some s ∧
      s.sent = [1, 0] ∧ InOrder Orderly s := by
  have hrun : ((txMachine.exec (txInit 18) (twoPieces ++ List.replicate 6 TxAct.dma)).map Tx.sent) =
      some [1, 0] := by decide +kernel
  obtain ⟨s, he, hs⟩ := Option.map_eq_some_iff.1 hrun
  have hinit : txMachine.init (txInit 18) := ⟨18, (acceptedTx_iff 18).2 (by decide), rfl⟩
  have halong : txMachine.Along Orderly (txInit 18) (twoPieces ++ List.replicate 6 TxAct.dma) := by
    decide +kernel
  exact ⟨s, he, hs, order_of_kept (.of_exec hinit halong he)⟩

/-- A packet is sent, and the engine fetches the terminator behind it; a second packet
replaces the terminator and finds the engine busy; the engine becomes idle. -/
def lateStop : List TxAct :=
  .xmit ⟨1, 60, []⟩ :: List.replicate 8 (.xmitStep true) ++ List.replicate 3 .dma ++
    .xmit ⟨2, 60, []⟩ :: List.replicate 9 (.xmitStep true) ++ [.dma]

/-- **A packet stays behind** with the engine at rest. -/
theorem busy_loses_packet :
    ∃ s, txMachine.Reach (fun _ _ => True) s ∧ ¬InOrder (fun _ _ => True) s := by
  have hrun : ((txMachine.exec (txInit 18) lateStop).map fun s => (s.xmit, s.dma, s.sent, s.items)) =
      some (.idle, .idle, [0], [0, 1]) := by decide +kernel
  obtain ⟨s, he, hs⟩ := Option.map_eq_some_iff.1 hrun
  obtain ⟨hxmit, hrest⟩ := Prod.mk.inj hs
  obtain ⟨hdma, hrest⟩ := Prod.mk.inj hrest
  obtain ⟨hsent, hitems⟩ := Prod.mk.inj hrest
  have hinit : txMachine.init (txInit 18) := ⟨18, (acceptedTx_iff 18).2 (by decide), rfl⟩
  refine ⟨s, .of_exec hinit (Machine.along_true _ _) he, ?_⟩
  intro horder
  have hall := horder.rest hxmit hdma
  rw [hsent, hitems] at hall
  exact absurd hall (by decide)

end Br2Efinix.Tsemac
