import Br2Efinix.Lib.Ring
import Br2Efinix.Tsemac.TxRing

/-!
# Who owns the transmit descriptors

`tsemac_check_tx_bd_space` looks at one descriptor, `num_frag + 2` places after the
tail. That judges the space right where the place is less than a turn ahead; in a
ring of no more than `MAX_SKB_FRAGS + 2` descriptors a large packet looks past the
whole ring, at the tail itself or behind it.

* `owned_interval_of_roomy`: in every run whose packets fit, the descriptors of the
  packets not yet reclaimed are the circular interval from `tx_bd_ci` to the tail, a
  packet is written outside of it, and the terminator is nobody's.
* `full_packet_overwrites`: the smallest ring that can be set and a packet of
  `MAX_SKB_FRAGS` fragments, whose terminator is its own first descriptor.
-/

namespace Br2Efinix.Tsemac

/-! ## The property -/

namespace Tx

/-- The end of the interval of owned descriptors: the tail, or where it is about to go. -/
def ownedEnd (s : Tx) : ℕ :=
  match s.xmit with
  | .advance x => s.wrap x.new
  | _ => s.tail

/-- The next access of `tsemac_start_xmit` is one that writes the packet. -/
def writing (s : Tx) : Bool :=
  match s.xmit with
  | .frag _ | .fragStatus _ | .publish _ => true
  | _ => false

end Tx

structure Ownership (s : Tx) : Prop where
  /-- The owned descriptors are a circular interval. -/
  interval : s.owned = Ring.between s.n s.ci s.ownedEnd
  /-- A packet is written outside the interval. -/
  outside : s.writing = true → ∀ mapped s', s.xmitStep mapped = some s' →
    ∀ i ∈ Ring.between s.n s.ci s.tail, s'.ring i = s.ring i
  /-- The terminator belongs to no packet in flight, nor to the one just written. -/
  terminator : ∀ x, s.xmit = .term x →
    x.new ∉ s.owned ∧ ∀ j ≤ x.pkt.frags.length, x.new ≠ (x.orig + j) % s.n

/-! ## The condition -/

/-- The place looked at is less than a turn ahead, or exactly a turn and nothing is
owned; and only the last piece of the packet may have a control word of 0. -/
def Fits (s : Tx) (p : Packet) : Prop :=
  (p.frags.length + 2 < s.n ∨ (p.frags.length + 2 = s.n ∧ s.ci = s.tail)) ∧
    ∀ len ∈ (p.headlen :: p.frags).dropLast, len % 2 ^ 27 ≠ 1

/-- A packet that passes the check fits, and its pieces can be mapped. -/
def Roomy (s : Tx) : TxAct → Prop
  | .xmit p => s.checkTxBdSpace (p.frags.length + 1) = false → Fits s p
  | .xmitStep mapped => (∃ x, s.xmit = .frag x) → mapped = true
  | _ => True

/-! ## The invariant -/

/-- The control word at a position. -/
def Tx.ctrl (s : Tx) (p : ℕ) : ℕ := (s.ring (p % s.n)).control

/-- `tsemac_tx_poll` has cleared the control word at `tx_bd_ci`, and not yet moved on. -/
def Tx.clearing (s : Tx) : Prop :=
  ∃ fr, s.poll = .free fr ∧ (fr.at_ = .status ∨ fr.at_ = .advance)

/-- It is about to move on. -/
def Tx.reclaimed (s : Tx) : Prop := ∃ fr, s.poll = .free fr ∧ fr.at_ = .advance

/-- Positions `C, …, A - 1` are owned. -/
structure Window (s : Tx) (C A : ℕ) : Prop where
  ci : s.ci = C % s.n
  le : C ≤ A
  lt : A < C + s.n
  owned : s.owned = Ring.slots s.n C A
  items : s.items.length = A
  used : ∀ p, C ≤ p → p < A → (p = C → ¬s.clearing) → s.ctrl p ≠ 0
  poll : ∀ fr, s.poll = .free fr → fr.force = false ∧ (fr.first + fr.i) % s.n = C % s.n ∧
    (fr.at_ ≠ .check → C < A) ∧ (s.clearing → s.ctrl C = 0)

/-- From `A` on the control words are 0, but for `ii` descriptors after the first. -/
def Blank (s : Tx) (C A ii : ℕ) : Prop :=
  ∀ p, A ≤ p → p < C + s.n → (p = A ∨ A + ii < p) → s.ctrl p = 0

/-- A packet is written from `A` on. -/
structure Prepared (s : Tx) (C A : ℕ) (x : Xmit) : Prop where
  tail : s.tail = A % s.n
  orig : x.orig = A % s.n
  new : x.new = (A + x.ii) % s.n
  cur : x.cur = (A + x.ii) % s.n
  count : x.ii ≤ x.pkt.frags.length
  addrs : x.addrs.length = x.ii
  room : A + x.pkt.frags.length + 1 < C + s.n
  pieces : ∀ len ∈ (x.pkt.headlen :: x.pkt.frags).dropLast, len % 2 ^ 27 ≠ 1
  written : ∀ j < x.ii, j + 1 < x.pkt.frags.length → s.ctrl (A + 1 + j) ≠ 0
  blank : Blank s C A x.ii

/-- A packet has been written up to `A`. -/
structure Published (s : Tx) (C A : ℕ) (x : Xmit) : Prop where
  start : ∃ P, A = P + x.pkt.frags.length + 1 ∧ x.orig = P % s.n ∧ s.tail = P % s.n ∧
    x.new = (P + x.pkt.frags.length) % s.n
  small : x.pkt.frags.length + 1 < s.n
  blank : Blank s C A 0

/-- The tail has been stored. -/
structure Stored (s : Tx) (C A : ℕ) (x : Xmit) : Prop where
  start : ∃ P, A = P + x.pkt.frags.length + 1 ∧ x.orig = P % s.n
  tail : s.tail = A % s.n
  new : x.new = A % s.n
  small : x.pkt.frags.length + 1 < s.n
  blank : Blank s C A 0

def XmitOk (s : Tx) (C A : ℕ) : Prop :=
  match s.xmit with
  | .frag x => Prepared s C A x
  | .fragStatus x => Prepared s C A x
  | .publish x => Prepared s C A x ∧ x.ii = x.pkt.frags.length
  | .advance x => Published s C A x
  | .term x => Stored s C A x
  | .drop _ => False
  | _ => s.tail = A % s.n ∧ Blank s C A 0

/-- The invariant. -/
def Owns (s : Tx) (C A : ℕ) : Prop := Window s C A ∧ XmitOk s C A

variable {s s' : Tx} {C A : ℕ}

/-- The terminator's control word is 0 whatever `tsemac_start_xmit` does. -/
theorem ctrl_end (h : XmitOk s C A) (hlt : A < C + s.n) : s.ctrl A = 0 := by
  unfold XmitOk at h
  split at h
  · exact h.blank A (Nat.le_refl _) hlt (Or.inl rfl)
  · exact h.blank A (Nat.le_refl _) hlt (Or.inl rfl)
  · exact h.1.blank A (Nat.le_refl _) hlt (Or.inl rfl)
  · exact h.blank A (Nat.le_refl _) hlt (Or.inl rfl)
  · exact h.blank A (Nat.le_refl _) hlt (Or.inl rfl)
  · exact h.elim
  · exact h.2 A (Nat.le_refl _) hlt (Or.inl rfl)

/-- What `Blank` says of a state depends on the control words of the free descriptors. -/
theorem blank_frame (hn : s'.n = s.n) (hctrl : ∀ p, A ≤ p → p < C + s.n → s'.ctrl p = s.ctrl p)
    {ii : ℕ} (h : Blank s C A ii) : Blank s' C A ii := by
  intro p h1 h2 h3
  rw [hn] at h2
  rw [hctrl p h1 h2]
  exact h p h1 h2 h3

theorem prepared_frame (hn : s'.n = s.n) (htail : s'.tail = s.tail)
    (hctrl : ∀ p, A ≤ p → p < C + s.n → s'.ctrl p = s.ctrl p) {x : Xmit} (h : Prepared s C A x) :
    Prepared s' C A x := by
  obtain ⟨h1, h2, h3, h4, h5, haddrs, h6, h7, h8, h9⟩ := h
  refine ⟨by rw [htail, hn]; exact h1, by rw [hn]; exact h2, by rw [hn]; exact h3,
    by rw [hn]; exact h4, h5, haddrs, by rw [hn]; exact h6, h7, fun j hj hf => ?_,
    blank_frame hn hctrl h9⟩
  rw [hctrl _ (by omega) (by omega)]
  exact h8 j hj hf

theorem xmitOk_frame (hn : s'.n = s.n) (htail : s'.tail = s.tail) (hx : s'.xmit = s.xmit)
    (hctrl : ∀ p, A ≤ p → p < C + s.n → s'.ctrl p = s.ctrl p) (h : XmitOk s C A) :
    XmitOk s' C A := by
  have hblank : ∀ ii, Blank s C A ii → Blank s' C A ii := fun ii => blank_frame hn hctrl
  have hprep : ∀ x, Prepared s C A x → Prepared s' C A x := fun x => prepared_frame hn htail hctrl
  unfold XmitOk at h ⊢
  rw [hx]
  cases hpc : s.xmit with
  | frag x => rw [hpc] at h; exact hprep x h
  | fragStatus x => rw [hpc] at h; exact hprep x h
  | publish x => rw [hpc] at h; exact ⟨hprep x h.1, h.2⟩
  | advance x =>
    rw [hpc] at h
    obtain ⟨h1, h2, h3⟩ := h
    exact ⟨by rw [htail, hn]; exact h1, by rw [hn]; exact h2, hblank _ h3⟩
  | term x =>
    rw [hpc] at h
    obtain ⟨h1, h2, h3, h4, h5⟩ := h
    exact ⟨by rw [hn]; exact h1, by rw [htail, hn]; exact h2, by rw [hn]; exact h3,
      by rw [hn]; exact h4, hblank _ h5⟩
  | drop fr => rw [hpc] at h; exact h
  | _ =>
    rw [hpc] at h
    exact ⟨by rw [htail, hn]; exact h.1, hblank _ h.2⟩

/-- When the first owned descriptor is given back blank, the free ones are blank up
to it. -/
theorem xmitOk_succ (hC : s.ctrl C = 0) (h : XmitOk s C A) : XmitOk s (C + 1) A := by
  have hblank : ∀ ii, Blank s C A ii → Blank s (C + 1) A ii := by
    intro ii hb p h1 h2 h3
    rcases Nat.lt_or_ge p (C + s.n) with h | h
    · exact hb p h1 h h3
    · have hp : p = C + s.n := by omega
      have hslot : p % s.n = C % s.n := by rw [hp, Nat.add_mod_right]
      unfold Tx.ctrl at hC ⊢
      rw [hslot]
      exact hC
  have hprep : ∀ x, Prepared s C A x → Prepared s (C + 1) A x := by
    intro x hp
    exact ⟨hp.tail, hp.orig, hp.new, hp.cur, hp.count, hp.addrs, by have := hp.room; omega, hp.pieces,
      hp.written, hblank _ hp.blank⟩
  unfold XmitOk at h ⊢
  split
  · rename_i x hpc; rw [hpc] at h; exact hprep x h
  · rename_i x hpc; rw [hpc] at h; exact hprep x h
  · rename_i x hpc; rw [hpc] at h; exact ⟨hprep x h.1, h.2⟩
  · rename_i x hpc; rw [hpc] at h; exact ⟨h.start, h.small, hblank _ h.blank⟩
  · rename_i x hpc; rw [hpc] at h; exact ⟨h.start, h.tail, h.new, h.small, hblank _ h.blank⟩
  · rename_i fr hpc; rw [hpc] at h; exact h
  · rename_i h1 h2 h3 h4 h5 h6
    split at h
    · rename_i x hpc; exact absurd hpc (h1 x)
    · rename_i x hpc; exact absurd hpc (h2 x)
    · rename_i x hpc; exact absurd hpc (h3 x)
    · rename_i x hpc; exact absurd hpc (h4 x)
    · rename_i x hpc; exact absurd hpc (h5 x)
    · rename_i x hpc; exact absurd hpc (h6 x)
    · exact ⟨h.1, hblank _ h.2⟩

/-! ## Reclaiming -/

theorem clearing_free {fr : Free} (hp : s.poll = .free fr) :
    s.clearing ↔ fr.at_ = .status ∨ fr.at_ = .advance := by
  unfold Tx.clearing
  constructor
  · rintro ⟨fr', hp', h⟩
    obtain rfl := PollPc.free.inj (hp.symm.trans hp')
    exact h
  · exact fun h => ⟨fr, hp, h⟩

theorem not_clearing (hp : ∀ fr, s.poll ≠ .free fr) : ¬s.clearing := by
  rintro ⟨fr, h, -⟩
  exact hp fr h

theorem not_reclaimed (hp : ∀ fr, s.poll = .free fr → fr.at_ ≠ .advance) : ¬s.reclaimed := by
  rintro ⟨fr, h, hat⟩
  exact hp fr h hat

/-- Changes that no owned descriptor and no index sees. -/
theorem window_frame (hn : s'.n = s.n) (hci : s'.ci = s.ci) (howned : s'.owned = s.owned)
    (hitems : s'.items = s.items) (hctrl : ∀ p, C ≤ p → p < A → s'.ctrl p = s.ctrl p)
    (hC : s'.ctrl C = s.ctrl C) (hp : s'.poll = s.poll) (h : Window s C A) : Window s' C A := by
  have hclear : s'.clearing ↔ s.clearing := by unfold Tx.clearing; rw [hp]
  obtain ⟨h1, h2, h3, h4, hlen, h5, h6⟩ := h
  refine ⟨by rw [hci, hn]; exact h1, h2, by rw [hn]; exact h3, by rw [howned, hn]; exact h4,
    by rw [hitems]; exact hlen, fun p hp1 hp2 hpc => ?_, fun fr hfr => ?_⟩
  · rw [hctrl p hp1 hp2]
    exact h5 p hp1 hp2 fun h hc => hpc h (hclear.2 hc)
  · rw [hp] at hfr
    obtain ⟨g1, g2, g3, g4⟩ := h6 fr hfr
    refine ⟨g1, by rw [hn]; exact g2, g3, fun hc => ?_⟩
    rw [hC]
    exact g4 (hclear.1 hc)

/-- The control word of another descriptor. -/
theorem ctrl_modDesc_other {i p : ℕ} {f : Desc → Desc} (hi : p % s.n ≠ i) :
    (s.modDesc i f).ctrl p = s.ctrl p := by
  unfold Tx.ctrl Tx.modDesc
  simp only
  rw [if_neg hi]

/-- The second of two writes, too. -/
theorem ctrl_modDesc_second {i j p : ℕ} {f g : Desc → Desc} (hj : p % s.n ≠ j) :
    ((s.modDesc i f).modDesc j g).ctrl p = (s.modDesc i f).ctrl p :=
  ctrl_modDesc_other (s := s.modDesc i f) hj

/-- The control word of another position of the ring. -/
theorem ctrl_modDesc_ne {p q a : ℕ} {f : Desc → Desc} (h1 : a ≤ p) (h2 : p < a + s.n) (h3 : a ≤ q)
    (h4 : q < a + s.n) (hne : p ≠ q) : (s.modDesc (q % s.n) f).ctrl p = s.ctrl p :=
  ctrl_modDesc_other (Ring.slot_ne h1 h2 h3 h4 hne)

theorem ctrl_modDesc_self {p : ℕ} {f : Desc → Desc} :
    (s.modDesc (p % s.n) f).ctrl p = (f (s.ring (p % s.n))).control := by
  unfold Tx.ctrl Tx.modDesc
  simp only [if_true]

/-- Writes that leave the control word are invisible here. -/
theorem ctrl_modDesc_keep {i : ℕ} {f : Desc → Desc} (hf : ∀ d, (f d).control = d.control) (p : ℕ) :
    (s.modDesc i f).ctrl p = s.ctrl p := by
  unfold Tx.ctrl Tx.modDesc
  simp only
  split
  · exact hf _
  · rfl

/-- At any access but the last the loop is not about to move on. -/
theorem not_reclaimed_at {fr : Free} (hp : s.poll = .free fr) (hat : fr.at_ ≠ .advance) : ¬s.reclaimed :=
  not_reclaimed fun fr' h => by
    obtain rfl := PollPc.free.inj (hp.symm.trans h)
    exact hat

/-- The loop goes on at another access: it has written no control word, or cleared that at the front. -/
theorem repoll_owns (h : Owns s C A) (hn : s'.n = s.n) (hci : s'.ci = s.ci) (htail : s'.tail = s.tail)
    (hxmit : s'.xmit = s.xmit) (howned : s'.owned = s.owned) (hitems : s'.items = s.items)
    (hctrl : ∀ p, C < p → p < C + s.n → s'.ctrl p = s.ctrl p)
    (hfirst : s'.ctrl C = s.ctrl C ∨ C < A ∧ s'.clearing) (hclear : s.clearing → s'.clearing)
    (hpoll : ∀ fr, s'.poll = .free fr → fr.force = false ∧ (fr.first + fr.i) % s.n = C % s.n ∧
      (fr.at_ ≠ .check → C < A) ∧ (s'.clearing → s'.ctrl C = 0)) : Owns s' C A := by
  obtain ⟨⟨h1, h2, h3, h4, hlen, h5, -⟩, hx⟩ := h
  have hkeep : ∀ p, C ≤ p → p < C + s.n → (p = C → ¬(C < A ∧ s'.clearing)) → s'.ctrl p = s.ctrl p := by
    intro p hp1 hp2 hpc
    rcases Nat.eq_or_lt_of_le hp1 with rfl | hlt
    · exact hfirst.resolve_right (hpc rfl)
    · exact hctrl p hlt hp2
  refine ⟨⟨by rw [hci, hn]; exact h1, h2, by rw [hn]; exact h3, by rw [howned, hn]; exact h4,
    by rw [hitems]; exact hlen, ?_, by rw [hn]; exact hpoll⟩, xmitOk_frame hn htail hxmit ?_ hx⟩
  · intro p hp1 hp2 hpc
    rw [hkeep p hp1 (by omega) fun hpC hnew => hpc hpC hnew.2]
    exact h5 p hp1 hp2 fun hpC hold => hpc hpC (hclear hold)
  · intro p hp1 hp2
    exact hkeep p (by omega) hp2 fun hpC hnew => absurd hnew.1 (by omega)

/-- A descriptor at the front that is done is owned. -/
theorem lt_of_done (h : Owns s C A) (hdone : (s.ring (C % s.n)).done = true) : C < A := by
  rcases Nat.lt_or_ge C A with hlt | hge
  · exact hlt
  · have hCA : C = A := Nat.le_antisymm h.1.le hge
    have hend := ctrl_end h.2 h.1.lt
    rw [← hCA] at hend
    unfold Desc.done at hdone
    rw [show (s.ring (C % s.n)).control = 0 from hend] at hdone
    exact absurd hdone (by simp)

/-- **A descriptor is reclaimed** from the front of the interval. -/
theorem pollStep_owns (h : Owns s C A) (hstep : s.pollStep = some s') :
    ∃ C', ((C' = C ∧ ¬s.reclaimed) ∨ (C' = C + 1 ∧ s.reclaimed)) ∧ Owns s' C' A := by
  have hw := h.1
  have hx := h.2
  unfold Tx.pollStep at hstep
  cases hp : s.poll with
  | idle => rw [hp] at hstep; exact absurd hstep (by simp)
  | wake =>
    rw [hp] at hstep
    obtain rfl := Option.some.inj hstep
    have hnot : ¬s.clearing := not_clearing (by rw [hp]; simp)
    refine ⟨C, Or.inl ⟨rfl, not_reclaimed (by rw [hp]; simp)⟩,
      repoll_owns h rfl rfl rfl rfl rfl rfl (fun _ _ _ => rfl) (Or.inl rfl) (absurd · hnot) ?_⟩
    intro fr hfr
    exact absurd hfr (by simp)
  | free fr =>
    rw [hp] at hstep
    obtain ⟨hforce, hslot, howned, hzero⟩ := hw.poll fr hp
    have hclear := clearing_free hp
    simp only [Tx.freeStep] at hstep
    cases hat : fr.at_ with
    | check =>
      rw [hat] at hstep hclear
      have hnot : ¬s.clearing := by rw [hclear]; simp
      simp only at hstep
      split at hstep
      · rename_i hcond
        obtain ⟨-, hdone⟩ := hcond
        rw [hforce, Bool.false_or, hslot] at hdone
        have hlt := lt_of_done h hdone
        obtain rfl := Option.some.inj hstep
        refine ⟨C, Or.inl ⟨rfl, not_reclaimed_at hp (by rw [hat]; simp)⟩,
          repoll_owns h rfl rfl rfl rfl rfl rfl (fun _ _ _ => rfl) (Or.inl rfl) (absurd · hnot) ?_⟩
        intro fr' hfr
        have hclear' := clearing_free hfr
        obtain rfl := PollPc.free.inj hfr
        refine ⟨hforce, hslot, fun _ => hlt, ?_⟩
        intro hc
        rw [hclear'] at hc
        exact absurd hc (by simp)
      · obtain rfl := Option.some.inj hstep
        refine ⟨C, Or.inl ⟨rfl, not_reclaimed_at hp (by rw [hat]; simp)⟩,
          repoll_owns h rfl rfl rfl rfl rfl rfl (fun _ _ _ => rfl) (Or.inl rfl) (absurd · hnot) ?_⟩
        intro fr' hfr
        simp only [Option.map_none, Option.getD_none] at hfr
        split at hfr <;> exact absurd hfr (by simp)
    | control =>
      rw [hat] at hstep hclear
      have hnot : ¬s.clearing := by rw [hclear]; simp
      have hlt := howned (by rw [hat]; simp)
      simp only [hslot] at hstep
      obtain rfl := Option.some.inj hstep
      -- only the control word at the front is written
      have hkeep : ∀ p, C < p → p < C + s.n →
          (s.modDesc (C % s.n) fun d => { d with control := 0, skb := none }).ctrl p = s.ctrl p :=
        fun p hp1 hp2 => ctrl_modDesc_ne (a := C) (by omega) hp2 (Nat.le_refl C) (by omega) (by omega)
      refine ⟨C, Or.inl ⟨rfl, not_reclaimed_at hp (by rw [hat]; simp)⟩,
        repoll_owns h rfl rfl rfl rfl rfl rfl hkeep (Or.inr ⟨hlt, _, rfl, Or.inl rfl⟩) (absurd · hnot) ?_⟩
      intro fr' hfr
      obtain rfl := PollPc.free.inj hfr
      have hblank : (s.modDesc (C % s.n) fun d => { d with control := 0, skb := none }).ctrl C = 0 :=
        ctrl_modDesc_self
      exact ⟨hforce, hslot, fun _ => hlt, fun _ => hblank⟩
    | status =>
      rw [hat] at hstep hclear
      have hlt := howned (by rw [hat]; simp)
      have hC := hzero (hclear.2 (Or.inl rfl))
      simp only [hslot] at hstep
      obtain rfl := Option.some.inj hstep
      have hkeep : ∀ p, (s.modDesc (C % s.n) fun d => { d with completed := true }).ctrl p = s.ctrl p :=
        ctrl_modDesc_keep fun _ => rfl
      refine ⟨C, Or.inl ⟨rfl, not_reclaimed_at hp (by rw [hat]; simp)⟩,
        repoll_owns h rfl rfl rfl rfl rfl rfl (fun p _ _ => hkeep p) (Or.inl (hkeep C))
          (fun _ => ⟨_, rfl, Or.inr rfl⟩) ?_⟩
      intro fr' hfr
      obtain rfl := PollPc.free.inj hfr
      exact ⟨hforce, hslot, fun _ => hlt, fun _ => (hkeep C).trans hC⟩
    | advance =>
      rw [hat] at hstep hclear
      have hyes : s.clearing := by rw [hclear]; exact Or.inr rfl
      have hlt := howned (by rw [hat]; simp)
      have hC := hzero hyes
      simp only [hslot] at hstep
      obtain rfl := Option.some.inj hstep
      obtain ⟨h1, h2, h3, h4, hitems, h5, -⟩ := hw
      have hn : 0 < s.n := by omega
      refine ⟨C + 1, Or.inr ⟨rfl, fr, hp, hat⟩,
        ⟨?_, hlt, by simp only; omega, ?_, hitems, fun p hp1 hp2 _ => ?_, ?_⟩, ?_⟩
      · simp only [h1]
        exact Ring.mod_succ hn C
      · -- the front of the interval goes
        simp only [h4]
        rw [Ring.slots_cons hlt, List.filter_cons_of_neg (by simp)]
        refine List.filter_eq_self.2 ?_
        intro i hi
        obtain ⟨p, hp1, hp2, rfl⟩ := Ring.mem_slots.1 hi
        have hne : p % s.n ≠ C % s.n :=
          Ring.slot_ne (a := C) (by omega) (by omega) (Nat.le_refl C) (by omega) (by omega)
        simpa using hne
      · exact h5 p (by omega) hp2 fun hpC => absurd hpC (by omega)
      · intro fr' hfr
        have hclear' := clearing_free hfr
        obtain rfl := PollPc.free.inj hfr
        refine ⟨hforce, ?_, fun h => absurd rfl h, ?_⟩
        · simp only
          rw [← Nat.add_assoc, ← Ring.slot_add, hslot, Ring.slot_add]
        · intro hc
          rw [hclear'] at hc
          exact absurd hc (by simp)
      · exact xmitOk_succ hC (xmitOk_frame (s := s) rfl rfl rfl (fun _ _ _ => rfl) hx)

/-! ## Transmitting -/

/-- **A packet that passes the check fits behind the tail.** The place looked at is
blank, and it is free unless it is the one that is being reclaimed. -/
theorem room_of_fits (hw : Window s C A) (htail : s.tail = A % s.n) {p : Packet} (hfit : Fits s p)
    (hcheck : s.checkTxBdSpace (p.frags.length + 1) = false) :
    A + p.frags.length + 1 < C + s.n := by
  obtain ⟨hci, hle, hlt, -, -, hused, -⟩ := hw
  rcases hfit.1 with hsmall | ⟨hfull, hempty⟩
  · by_contra hroom
    -- the place looked at is then an owned position that is not reclaimed
    have hplace : s.ctrl (A + p.frags.length + 2) = 0 := by
      unfold Tx.checkTxBdSpace at hcheck
      rw [htail, Nat.add_assoc, Ring.slot_add] at hcheck
      unfold Tx.ctrl
      simpa [← Nat.add_assoc] using hcheck
    have hback : s.ctrl (A + p.frags.length + 2 - s.n) = 0 := by
      have hslot : (A + p.frags.length + 2 - s.n) % s.n = (A + p.frags.length + 2) % s.n := by
        rw [← Nat.add_mod_right (A + p.frags.length + 2 - s.n) s.n, Nat.sub_add_cancel (by omega)]
      unfold Tx.ctrl at hplace ⊢
      rw [hslot]
      exact hplace
    exact hused _ (by omega) (by omega) (fun h => by omega) hback
  · -- the ring is empty
    rw [hci, htail] at hempty
    have hCA : C = A := Ring.slot_inj (a := C) (Nat.le_refl C) (by omega) hle hlt hempty
    omega

theorem startXmit_owns (h : Owns s C A) {p : Packet} (hfit : Roomy s (.xmit p))
    (hstep : s.startXmit p = some s') : Owns s' C A := by
  obtain ⟨hw, hx⟩ := h
  unfold Tx.startXmit at hstep
  split at hstep
  swap
  · exact absurd hstep (by simp)
  rename_i hcond
  have hidle : s.tail = A % s.n ∧ Blank s C A 0 := by
    unfold XmitOk at hx
    rw [hcond.1] at hx
    exact hx
  split at hstep
  · obtain rfl := Option.some.inj hstep
    exact ⟨window_frame (s := s) rfl rfl rfl rfl (fun _ _ _ => rfl) rfl rfl hw,
      xmitOk_frame (s := s) rfl rfl rfl (fun _ _ _ => rfl) hx⟩
  · rename_i hcheck
    rw [Bool.not_eq_true] at hcheck
    have hfits := hfit hcheck
    have hroom := room_of_fits hw hidle.1 hfits hcheck
    obtain rfl := Option.some.inj hstep
    refine ⟨window_frame (s := s) rfl rfl rfl rfl (fun _ _ _ => rfl) rfl rfl hw, ?_⟩
    exact ⟨hidle.1, hidle.1, hidle.1, hidle.1, Nat.zero_le _, rfl, hroom, hfits.2,
      fun j hj => absurd hj (Nat.not_lt_zero j), hidle.2⟩

/-- A fragment's piece is one of those before the last. -/
theorem piece_of_frag {p : Packet} {j : ℕ} (hj : j + 1 < p.frags.length) {len : ℕ}
    (hlen : p.frags[j]? = some len) : len ∈ (p.headlen :: p.frags).dropLast := by
  have hne : p.frags ≠ [] := by
    intro h
    rw [h] at hj
    exact absurd hj (by simp)
  rw [List.dropLast_cons_of_ne_nil hne]
  refine List.mem_cons_of_mem _ (List.mem_of_getElem? (i := j) ?_)
  rw [List.getElem?_dropLast, if_pos (by omega)]
  exact hlen

/-- The slot of the next fragment. -/
theorem Prepared.wrap_new {x : Xmit} (h : Prepared s C A x) (hn : 0 < s.n) :
    s.wrap x.new = (A + x.ii + 1) % s.n := by
  unfold Tx.wrap
  rw [h.new]
  exact Ring.wrap_succ hn _

theorem xmitFrag_owns {x : Xmit} (hw : Window s C A) (hprep : Prepared s C A x) :
    Owns (s.xmitFrag x true) C A := by
  have hn : 0 < s.n := by have := hw.lt; have := hw.le; omega
  have hslot := hprep.wrap_new hn
  obtain ⟨htail, horig, hnew, hcur, hcount, haddrs, hroom, hpieces, hwritten, hblank⟩ := hprep
  unfold Tx.xmitFrag
  cases hfrag : x.pkt.frags[x.ii]? with
  | some len =>
    obtain ⟨hii, -⟩ := List.getElem?_eq_some_iff.1 hfrag
    have hkeep : ∀ p, C ≤ p → p < C + s.n → p ≠ A + x.ii + 1 →
        (s.modDesc ((A + x.ii + 1) % s.n) fun d =>
          { d with src := s.mapped, control := controlBytes len }).ctrl p = s.ctrl p :=
      fun p h1 h2 hne => ctrl_modDesc_ne (a := C) h1 h2 (by have := hw.le; omega) (by omega) hne
    have hself : (s.modDesc ((A + x.ii + 1) % s.n) fun d =>
        { d with src := s.mapped, control := controlBytes len }).ctrl (A + x.ii + 1) =
          controlBytes len := ctrl_modDesc_self
    have hle := hw.le
    simp only [hslot, if_true]
    refine ⟨window_frame (s := s) rfl rfl rfl rfl (fun p h1 h2 => hkeep p h1 (by omega) (by omega))
      (hkeep C (Nat.le_refl C) (by omega) (by omega)) rfl hw, ?_⟩
    refine ⟨htail, horig, rfl, rfl, hii, by simp [haddrs], hroom, hpieces,
      ?_, ?_⟩
    · intro j hj hlast
      by_cases hji : j = x.ii
      · subst hji
        have hne : controlBytes len ≠ 0 := by
          rw [Ne, controlBytes_eq_zero]
          exact hpieces len (piece_of_frag hlast hfrag)
        rw [← hself] at hne
        rw [show A + 1 + x.ii = A + x.ii + 1 by omega]
        exact hne
      · have hlt : j < x.ii := by
          have : j < x.ii + 1 := hj
          omega
        have hne := hwritten j hlt hlast
        rw [← hkeep (A + 1 + j) (by omega) (by omega) (by omega)] at hne
        exact hne
    · intro p h1 h2 h3
      have hp : s.ctrl p = 0 := hblank p h1 h2 (by simp only at h3; omega)
      rw [← hkeep p (by omega) h2 (by simp only at h3; omega)] at hp
      exact hp
  | none =>
    have hii : x.ii = x.pkt.frags.length := by
      have := List.getElem?_eq_none_iff.1 hfrag
      omega
    have hkeep : ∀ p, ((s.modDesc x.orig fun d => { d with src := s.mapped }).modDesc x.cur fun d =>
        { d with skb := some x.pkt.id }).ctrl p = s.ctrl p := fun p =>
      (ctrl_modDesc_keep (by intro d; rfl) p).trans (ctrl_modDesc_keep (by intro d; rfl) p)
    simp only [if_true]
    refine ⟨window_frame (s := s) rfl rfl rfl rfl (fun p _ _ => hkeep p) (hkeep C) rfl hw, ?_⟩
    refine ⟨⟨htail, horig, hnew, hcur, hcount, haddrs, hroom, hpieces, ?_,
      ?_⟩, hii⟩
    · intro j hj hlast
      have hne := hwritten j hj hlast
      rw [← hkeep] at hne
      exact hne
    · intro p h1 h2 h3
      have hp := hblank p h1 h2 h3
      rw [← hkeep] at hp
      exact hp

/-- The control words that publishing writes. -/
theorem publish_ctrl {x : Xmit} (hprep : Prepared s C A x) (hfull : x.ii = x.pkt.frags.length)
    (hle : C ≤ A) :
    (∀ p, C ≤ p → p < C + s.n → p ≠ A → p ≠ A + x.pkt.frags.length →
        (s.xmitPublish x).ctrl p = s.ctrl p) ∧
      (s.xmitPublish x).ctrl A ≠ 0 ∧ (s.xmitPublish x).ctrl (A + x.pkt.frags.length) ≠ 0 := by
  obtain ⟨-, horig, hnew, hcur, -, -, hroom, hpieces, -, -⟩ := hprep
  rw [hfull] at hnew hcur
  have hctrl : ∀ p, (s.xmitPublish x).ctrl p =
      (if x.orig ≠ x.new then
        (s.modDesc x.cur fun d =>
          { d with control := d.control ||| DMASG_DESCRIPTOR_CONTROL_END_OF_PACKET }).modDesc
            x.orig fun d => { d with control := controlBytes x.pkt.headlen, completed := false }
      else
        s.modDesc x.orig fun d =>
          { d with
            control := controlBytes x.pkt.headlen ||| DMASG_DESCRIPTOR_CONTROL_END_OF_PACKET
            completed := false }).ctrl p := by
    intro p
    unfold Tx.xmitPublish Tx.ctrl
    split <;> rfl
  rcases Nat.eq_zero_or_pos x.pkt.frags.length with hzero | hpos
  · -- the linear part is the whole packet
    have hsame : x.orig = x.new := by rw [horig, hnew, hzero, Nat.add_zero]
    have hself := endOfPacket_ne (controlBytes x.pkt.headlen)
    have hA : (s.xmitPublish x).ctrl A ≠ 0 := by
      rw [hctrl, if_neg (by simpa using hsame), horig, ctrl_modDesc_self]
      exact hself
    refine ⟨fun p h1 h2 h3 _ => ?_, hA, by rw [hzero, Nat.add_zero]; exact hA⟩
    rw [hctrl, if_neg (by simpa using hsame), horig]
    exact ctrl_modDesc_ne (a := C) h1 h2 hle (by omega) h3
  · have hne : x.orig ≠ x.new := by
      rw [horig, hnew]
      exact Ring.slot_ne (a := C) hle (by omega) (by omega) (by omega) (by omega)
    have hhead : controlBytes x.pkt.headlen ≠ 0 := by
      rw [Ne, controlBytes_eq_zero]
      refine hpieces _ ?_
      have hcons : x.pkt.frags ≠ [] := by
        intro h
        rw [h] at hpos
        exact absurd hpos (by simp)
      rw [List.dropLast_cons_of_ne_nil hcons]
      exact List.mem_cons_self
    refine ⟨?_, ?_, ?_⟩
    · intro p h1 h2 h3 h4
      have hA : p % s.n ≠ A % s.n := Ring.slot_ne (a := C) h1 h2 hle (by omega) h3
      have hE : p % s.n ≠ (A + x.pkt.frags.length) % s.n :=
        Ring.slot_ne (a := C) h1 h2 (by omega) (by omega) h4
      rw [hctrl, if_pos hne, horig, hcur]
      exact (ctrl_modDesc_second hA).trans (ctrl_modDesc_other hE)
    · rw [hctrl, if_pos hne, horig, show A % s.n = A % (s.modDesc x.cur fun d =>
        { d with control := d.control ||| DMASG_DESCRIPTOR_CONTROL_END_OF_PACKET }).n from rfl,
        ctrl_modDesc_self]
      exact hhead
    · rw [hctrl, if_pos hne, horig, hcur]
      have hother : (A + x.pkt.frags.length) % s.n ≠ A % s.n :=
        Ring.slot_ne (a := C) (by omega) (by omega) hle (by omega) (by omega)
      have hself : (s.modDesc ((A + x.pkt.frags.length) % s.n) fun d =>
          { d with control := d.control ||| DMASG_DESCRIPTOR_CONTROL_END_OF_PACKET }).ctrl
            (A + x.pkt.frags.length) ≠ 0 := by
        rw [ctrl_modDesc_self]
        exact endOfPacket_ne _
      rw [ctrl_modDesc_second hother]
      exact hself

theorem xmitPublish_owns {x : Xmit} (hw : Window s C A) (hprep : Prepared s C A x)
    (hfull : x.ii = x.pkt.frags.length) :
    Owns (s.xmitPublish x) C (A + x.pkt.frags.length + 1) := by
  obtain ⟨hkeep, hfirst, hlast⟩ := publish_ctrl hprep hfull hw.le
  obtain ⟨h1, h2, h3, h4, hitems, h5, h6⟩ := hw
  obtain ⟨htail, horig, hnew, hcur, -, haddrs, hroom, -, hwritten, hblank⟩ := hprep
  rw [hfull] at hnew hblank hwritten
  have hfields : (s.xmitPublish x).n = s.n ∧ (s.xmitPublish x).ci = s.ci ∧
      (s.xmitPublish x).tail = s.tail ∧ (s.xmitPublish x).poll = s.poll := by
    unfold Tx.xmitPublish
    split <;> exact ⟨rfl, rfl, rfl, rfl⟩
  obtain ⟨g1, g2, g3, g4⟩ := hfields
  have hclear : (s.xmitPublish x).clearing ↔ s.clearing := by unfold Tx.clearing; rw [g4]
  refine ⟨⟨by rw [g1, g2]; exact h1, by omega, by rw [g1]; exact hroom, ?_, ?_, ?_, ?_⟩, ?_⟩
  · rw [g1, Nat.add_assoc, Ring.slots_append h2 (by omega), Ring.slots_add, ← horig, ← h4]
    rfl
  · have happ : (s.xmitPublish x).items = s.items ++ x.linear :: x.addrs := rfl
    rw [happ, List.length_append, List.length_cons, hitems, haddrs, hfull, Nat.add_assoc]
  · intro p hp1 hp2 hpc
    by_cases hpA : p = A
    · rw [hpA]; exact hfirst
    by_cases hpE : p = A + x.pkt.frags.length
    · rw [hpE]; exact hlast
    rw [hkeep p hp1 (by omega) hpA hpE]
    rcases Nat.lt_or_ge p A with hlt | hge
    · exact h5 p hp1 hlt fun h hc => hpc h (hclear.2 hc)
    · obtain ⟨j, rfl⟩ : ∃ j, p = A + 1 + j := ⟨p - (A + 1), by omega⟩
      exact hwritten j (by omega) (by omega)
  · intro fr hfr
    rw [g4] at hfr
    obtain ⟨e1, e2, e3, e4⟩ := h6 fr hfr
    refine ⟨e1, by rw [g1]; exact e2, fun h => by have := e3 h; omega, fun hc => ?_⟩
    have hc := hclear.1 hc
    have hCA : C < A := by
      refine e3 ?_
      rcases (clearing_free hfr).1 hc with h | h
      · rw [h]; simp
      · rw [h]; simp
    rw [hkeep C (Nat.le_refl C) (by omega) (by omega) (by omega)]
    exact e4 hc
  · have hxmit : (s.xmitPublish x).xmit = .advance x := by
      unfold Tx.xmitPublish; rfl
    unfold XmitOk
    rw [hxmit]
    refine ⟨⟨A, rfl, by rw [g1]; exact horig, by rw [g1, g3]; exact htail, by rw [g1]; exact hnew⟩,
      by rw [g1]; omega, fun p hp1 hp2 _ => ?_⟩
    rw [g1] at hp2
    rw [hkeep p (by omega) hp2 (by omega) (by omega)]
    exact hblank p (by omega) hp2 (Or.inr (by omega))

/-- A step of `tsemac_start_xmit` that writes no descriptor. -/
theorem Window.goto (hw : Window s C A) {pc : XmitPc} {tail : ℕ} {stopped : Bool} {dma : Dma} :
    Window { s with tail := tail, stopped := stopped, dma := dma, xmit := pc } C A :=
  window_frame (s := s) rfl rfl rfl rfl (fun _ _ _ => rfl) rfl rfl hw

theorem xmitStep_owns (h : Owns s C A) {mapped : Bool} (hmap : Roomy s (.xmitStep mapped))
    (hstep : s.xmitStep mapped = some s') : ∃ A', Owns s' C A' := by
  obtain ⟨hw, hx⟩ := h
  have hn : 0 < s.n := by have := hw.lt; have := hw.le; omega
  unfold XmitOk at hx
  unfold Tx.xmitStep at hstep
  cases hpc : s.xmit with
  | idle => rw [hpc] at hstep; exact absurd hstep (by simp)
  | frag x =>
    rw [hpc] at hstep hx
    obtain rfl := hmap ⟨x, hpc⟩
    obtain rfl := Option.some.inj hstep
    exact ⟨A, xmitFrag_owns hw hx⟩
  | fragStatus x =>
    rw [hpc] at hstep hx
    obtain rfl := Option.some.inj hstep
    have hkeep : ∀ p, (s.modDesc x.cur fun d => { d with completed := false }).ctrl p = s.ctrl p :=
      ctrl_modDesc_keep fun _ => rfl
    have hprep : Prepared { s.modDesc x.cur fun d => { d with completed := false } with
        xmit := .frag x } C A x := by
      refine prepared_frame (s := s) ?_ ?_ ?_ hx
      · rfl
      · rfl
      · exact fun p _ _ => hkeep p
    exact ⟨A, window_frame (s := s) rfl rfl rfl rfl (fun p _ _ => hkeep p) (hkeep C) rfl hw, hprep⟩
  | publish x =>
    rw [hpc] at hstep hx
    obtain rfl := Option.some.inj hstep
    exact ⟨_, xmitPublish_owns hw hx.1 hx.2⟩
  | advance x =>
    rw [hpc] at hstep hx
    obtain rfl := Option.some.inj hstep
    obtain ⟨⟨P, hA, horig, -, hnew⟩, hsmall, hblank⟩ := hx
    have hwrap : s.wrap x.new = A % s.n := by
      unfold Tx.wrap
      rw [hnew, hA]
      exact Ring.wrap_succ hn _
    refine ⟨A, hw.goto, ?_⟩
    exact ⟨⟨P, hA, horig⟩, hwrap, hwrap, hsmall, blank_frame (s := s) rfl (fun _ _ _ => rfl) hblank⟩
  | term x =>
    rw [hpc] at hstep hx
    obtain rfl := Option.some.inj hstep
    have hkeep : ∀ p, (s.modDesc x.new fun d => { d with completed := true }).ctrl p = s.ctrl p :=
      ctrl_modDesc_keep fun _ => rfl
    have hblank : Blank { s.modDesc x.new fun d => { d with completed := true } with
        xmit := .head x } C A 0 := by
      refine blank_frame (s := s) ?_ ?_ hx.blank
      · rfl
      · exact fun p _ _ => hkeep p
    exact ⟨A, window_frame (s := s) rfl rfl rfl rfl (fun p _ _ => hkeep p) (hkeep C) rfl hw,
      hx.tail, hblank⟩
  | head x =>
    rw [hpc] at hstep hx
    obtain rfl := Option.some.inj hstep
    exact ⟨A, hw.goto, hx⟩
  | scan x bd =>
    rw [hpc] at hstep hx
    simp only at hstep
    split at hstep
    · obtain rfl := Option.some.inj hstep
      exact ⟨A, hw.goto, hx⟩
    · obtain rfl := Option.some.inj hstep
      exact ⟨A, hw.goto, hx⟩
  | kick x head =>
    rw [hpc] at hstep hx
    obtain rfl := Option.some.inj hstep
    exact ⟨A, hw.goto, hx⟩
  | space =>
    rw [hpc] at hstep hx
    simp only at hstep
    split at hstep
    · obtain rfl := Option.some.inj hstep
      exact ⟨A, hw.goto, hx⟩
    · obtain rfl := Option.some.inj hstep
      exact ⟨A, hw.goto, hx⟩
  | recheck =>
    rw [hpc] at hstep hx
    obtain rfl := Option.some.inj hstep
    exact ⟨A, hw.goto, hx⟩
  | drop fr => rw [hpc] at hx; exact hx.elim

/-! ## All steps -/

theorem startPoll_owns (h : Owns s C A) {budget : ℕ} (hstep : s.startPoll budget = some s') :
    Owns s' C A := by
  obtain ⟨hw, hx⟩ := h
  unfold Tx.startPoll at hstep
  split at hstep
  swap
  · exact absurd hstep (by simp)
  rename_i hidle
  obtain rfl := Option.some.inj hstep
  have hnot : ¬s.clearing := not_clearing (by rw [hidle]; simp)
  obtain ⟨h1, h2, h3, h4, hitems, h5, -⟩ := hw
  refine ⟨⟨h1, h2, h3, h4, hitems, fun p hp1 hp2 _ => h5 p hp1 hp2 fun _ => hnot, ?_⟩,
    xmitOk_frame (s := s) rfl rfl rfl (fun _ _ _ => rfl) hx⟩
  intro fr hfr
  have hclear := clearing_free hfr
  obtain rfl := PollPc.free.inj hfr
  refine ⟨rfl, ?_, fun h => absurd rfl h, ?_⟩
  · simp only
    rw [h1, Nat.add_zero, Nat.mod_mod]
  · intro hc
    rw [hclear] at hc
    exact absurd hc (by simp)

/-- The engine writes no control word. -/
theorem dmaStep_owns (h : Owns s C A) (hstep : s.dmaStep = some s') : Owns s' C A := by
  obtain ⟨hw, hx⟩ := h
  unfold Tx.dmaStep at hstep
  cases hd : s.dma with
  | idle => rw [hd] at hstep; exact absurd hstep (by simp)
  | fetch cur =>
    rw [hd] at hstep
    simp only at hstep
    split at hstep
    · obtain rfl := Option.some.inj hstep
      exact ⟨window_frame (s := s) rfl rfl rfl rfl (fun _ _ _ => rfl) rfl rfl hw,
        xmitOk_frame (s := s) rfl rfl rfl (fun _ _ _ => rfl) hx⟩
    · obtain rfl := Option.some.inj hstep
      exact ⟨window_frame (s := s) rfl rfl rfl rfl (fun _ _ _ => rfl) rfl rfl hw,
        xmitOk_frame (s := s) rfl rfl rfl (fun _ _ _ => rfl) hx⟩
  | send cur src =>
    rw [hd] at hstep
    obtain rfl := Option.some.inj hstep
    have hkeep : ∀ p, (s.modDesc cur fun d => { d with completed := true }).ctrl p = s.ctrl p :=
      ctrl_modDesc_keep fun _ => rfl
    exact ⟨window_frame (s := s) rfl rfl rfl rfl (fun p _ _ => hkeep p) (hkeep C) rfl hw,
      xmitOk_frame (s := s) rfl rfl rfl (fun p _ _ => hkeep p) hx⟩
  | stopping =>
    rw [hd] at hstep
    obtain rfl := Option.some.inj hstep
    exact ⟨window_frame (s := s) rfl rfl rfl rfl (fun _ _ _ => rfl) rfl rfl hw,
      xmitOk_frame (s := s) rfl rfl rfl (fun _ _ _ => rfl) hx⟩

theorem step_owns (h : Owns s C A) {a : TxAct} (hroomy : Roomy s a)
    (hstep : txMachine.step s a = some s') : ∃ C' A', Owns s' C' A' := by
  cases a with
  | xmit p => exact ⟨C, A, startXmit_owns h hroomy hstep⟩
  | xmitStep mapped => exact ⟨C, xmitStep_owns h hroomy hstep⟩
  | poll budget => exact ⟨C, A, startPoll_owns h hstep⟩
  | pollStep =>
    obtain ⟨C', -, h'⟩ := pollStep_owns h hstep
    exact ⟨C', A, h'⟩
  | dma => exact ⟨C, A, dmaStep_owns h hstep⟩

theorem init_owns {n : ℕ} (hn : AcceptedTx n) : Owns (txInit n) 0 0 := by
  have hpos : 0 < n := by
    have hmin := ((acceptedTx_iff n).1 hn).1
    exact Nat.lt_of_lt_of_le (by decide) hmin
  refine ⟨⟨(Nat.zero_mod n).symm, Nat.le_refl 0, by simpa [txInit] using hpos, ?_, rfl, ?_, ?_⟩, ?_, ?_⟩
  · rw [Ring.slots_self]; rfl
  · intro p _ hp
    exact absurd hp (Nat.not_lt_zero p)
  · intro fr hfr
    exact absurd hfr (by simp [txInit])
  · exact (Nat.zero_mod n).symm
  · intro p _ _ _
    rfl

/-! ## The interval -/

theorem ring_modDesc_other {i j : ℕ} {f : Desc → Desc} (h : i ≠ j) :
    (s.modDesc j f).ring i = s.ring i := by
  unfold Tx.modDesc
  simp only
  rw [if_neg h]

theorem ring_modDesc_twice {i j k : ℕ} {f g : Desc → Desc} (hj : i ≠ j) (hk : i ≠ k) :
    ((s.modDesc j f).modDesc k g).ring i = s.ring i := by
  have hsecond : ((s.modDesc j f).modDesc k g).ring i = (s.modDesc j f).ring i :=
    ring_modDesc_other hk
  rw [hsecond, ring_modDesc_other hj]

/-- The positions that a packet is written to are not owned. -/
theorem prepared_outside {x : Xmit} (hw : Window s C A) (hprep : Prepared s C A x) {i : ℕ}
    (hi : i ∈ Ring.between s.n s.ci s.tail) {q : ℕ} (hq : A ≤ q) (hq' : q < C + s.n) : i ≠ q % s.n := by
  rw [hw.ci, hprep.tail, Ring.between_slots hw.le hw.lt] at hi
  obtain ⟨p, h1, h2, rfl⟩ := Ring.mem_slots.1 hi
  exact Ring.slot_ne (a := C) h1 (by omega) (by have := hw.le; omega) hq' (by omega)

/-- An owned descriptor is not one that the packet is written to first or last. -/
theorem prepared_apart (hw : Window s C A) {x : Xmit} (hx : Prepared s C A x) {i : ℕ}
    (hi : i ∈ Ring.between s.n s.ci s.tail) : i ≠ x.orig ∧ i ≠ x.cur := by
  have hroom := hx.room
  have hcount := hx.count
  constructor
  · rw [hx.orig]
    exact prepared_outside hw hx hi (Nat.le_refl A) hw.lt
  · rw [hx.cur]
    exact prepared_outside hw hx hi (by omega) (by omega)

theorem outside_of_owns (h : Owns s C A) (hwriting : s.writing = true) {mapped : Bool}
    (hstep : s.xmitStep mapped = some s') {i : ℕ} (hi : i ∈ Ring.between s.n s.ci s.tail) :
    s'.ring i = s.ring i := by
  obtain ⟨hw, hx⟩ := h
  have hn : 0 < s.n := by have := hw.lt; have := hw.le; omega
  unfold XmitOk at hx
  unfold Tx.writing at hwriting
  unfold Tx.xmitStep at hstep
  cases hpc : s.xmit with
  | frag x =>
    rw [hpc] at hstep hx
    obtain rfl := Option.some.inj hstep
    have hroom := hx.room
    have hcount := hx.count
    unfold Tx.xmitFrag
    cases hfrag : x.pkt.frags[x.ii]? with
    | some len =>
      obtain ⟨hii, -⟩ := List.getElem?_eq_some_iff.1 hfrag
      have hslot := hx.wrap_new hn
      simp only
      split
      · simp only [hslot]
        exact ring_modDesc_other (prepared_outside hw hx hi (by omega) (by omega))
      · rfl
    | none =>
      simp only
      split
      · obtain ⟨h1, h2⟩ := prepared_apart hw hx hi
        have hring := ring_modDesc_twice (s := s) (f := fun d => { d with src := s.mapped })
          (g := fun d => { d with skb := some x.pkt.id }) h1 h2
        exact hring
      · rfl
  | fragStatus x =>
    rw [hpc] at hstep hx
    obtain rfl := Option.some.inj hstep
    obtain ⟨-, h1⟩ := prepared_apart hw hx hi
    have hring := ring_modDesc_other (s := s) (f := fun d => { d with completed := false }) h1
    exact hring
  | publish x =>
    rw [hpc] at hstep hx
    obtain rfl := Option.some.inj hstep
    obtain ⟨hx, -⟩ := hx
    obtain ⟨h1, h2⟩ := prepared_apart hw hx hi
    unfold Tx.xmitPublish
    simp only
    split
    · have hring := ring_modDesc_twice (s := s)
        (f := fun d => { d with control := d.control ||| DMASG_DESCRIPTOR_CONTROL_END_OF_PACKET })
        (g := fun d => { d with control := controlBytes x.pkt.headlen, completed := false }) h2 h1
      exact hring
    · have hring := ring_modDesc_other (s := s)
        (f := fun d => { d with
          control := controlBytes x.pkt.headlen ||| DMASG_DESCRIPTOR_CONTROL_END_OF_PACKET
          completed := false }) h1
      exact hring
  | _ => rw [hpc] at hwriting; exact absurd hwriting (by simp)

/-- The interval of owned descriptors ends where the positions of the pieces do. -/
theorem ownedEnd_of_owns (h : Owns s C A) : s.ownedEnd = A % s.n := by
  obtain ⟨hw, hx⟩ := h
  have hn : 0 < s.n := by have := hw.lt; have := hw.le; omega
  unfold XmitOk at hx
  unfold Tx.ownedEnd
  cases hpc : s.xmit with
  | advance x =>
    rw [hpc] at hx
    obtain ⟨⟨P, hA, -, -, hnew⟩, -, -⟩ := hx
    simp only
    unfold Tx.wrap
    rw [hnew, hA]
    exact Ring.wrap_succ hn _
  | frag x => rw [hpc] at hx; exact hx.tail
  | fragStatus x => rw [hpc] at hx; exact hx.tail
  | publish x => rw [hpc] at hx; exact hx.1.tail
  | term x => rw [hpc] at hx; exact hx.tail
  | drop fr => rw [hpc] at hx; exact hx.elim
  | _ => rw [hpc] at hx; exact hx.1

theorem ownership_of_owns (h : Owns s C A) : Ownership s := by
  obtain ⟨hw, hx⟩ := id h
  have hn : 0 < s.n := by have := hw.lt; have := hw.le; omega
  unfold XmitOk at hx
  refine ⟨?_, fun hwriting mapped s' hstep i hi => outside_of_owns h hwriting hstep hi, ?_⟩
  · rw [ownedEnd_of_owns h, hw.owned, hw.ci, Ring.between_slots hw.le hw.lt]
  · intro x hpc
    rw [hpc] at hx
    obtain ⟨⟨P, hA, horig⟩, -, hnew, hsmall, -⟩ := hx
    rw [hw.owned, hnew]
    refine ⟨?_, ?_⟩
    · intro hmem
      obtain ⟨p, h1, h2, h3⟩ := Ring.mem_slots.1 hmem
      have := hw.lt
      exact Ring.slot_ne (a := C) h1 (by omega) hw.le hw.lt (by omega) h3
    · intro j hj
      rw [horig, Ring.slot_add]
      exact Ring.slot_ne (a := P) (by omega) (by omega) (by omega) (by omega) (by omega)

/-- The invariant holds in every run whose packets fit. -/
theorem owns_of_roomy {s : Tx} (h : txMachine.Reach Roomy s) : ∃ C A, Owns s C A := by
  refine h.invariant (I := fun s => ∃ C A, Owns s C A) ?_ ?_
  · rintro s ⟨n, hn, rfl⟩
    exact ⟨0, 0, init_owns hn⟩
  · rintro s a s' ⟨C, A, hs⟩ hroomy hstep
    exact step_owns hs hroomy hstep

/-- **The owned descriptors are the circular interval from `tx_bd_ci` to the tail**, and
`tsemac_start_xmit` stays out of it, in every run whose packets fit. -/
theorem owned_interval_of_roomy {s : Tx} (h : txMachine.Reach Roomy s) : Ownership s := by
  obtain ⟨C, A, hs⟩ := owns_of_roomy h
  exact ownership_of_owns hs

instance (s : Tx) : Decidable (∃ x, s.xmit = .frag x) :=
  decidable_of_iff ((match s.xmit with | .frag _ => true | _ => false) = true)
    (by cases s.xmit <;> simp)

instance (s : Tx) (p : Packet) : Decidable (Fits s p) := by unfold Fits; infer_instance

instance : ∀ s a, Decidable (Roomy s a)
  | s, .xmit p => inferInstanceAs (Decidable (s.checkTxBdSpace (p.frags.length + 1) = false → Fits s p))
  | s, .xmitStep mapped => inferInstanceAs (Decidable ((∃ x, s.xmit = .frag x) → mapped = true))
  | _, .poll _ => isTrue trivial
  | _, .pollStep => isTrue trivial
  | _, .dma => isTrue trivial

/-- A packet of two pieces in the smallest ring, handed to the engine. -/
def twoPieces : List TxAct := .xmit ⟨1, 60, [100]⟩ :: List.replicate 10 (.xmitStep true)

theorem owned_interval_of_roomy_two :
    ∃ s, txMachine.exec (txInit 18) twoPieces = some s ∧ s.owned = [0, 1] ∧ s.tail = 2 ∧ Ownership s := by
  have hrun : ((txMachine.exec (txInit 18) twoPieces).map fun s => (s.owned, s.tail)) =
      some ([0, 1], 2) := by decide +kernel
  obtain ⟨s, he, hs⟩ := Option.map_eq_some_iff.1 hrun
  obtain ⟨howned, htail⟩ := Prod.mk.inj hs
  have hinit : txMachine.init (txInit 18) := ⟨18, (acceptedTx_iff 18).2 (by decide), rfl⟩
  have halong : txMachine.Along Roomy (txInit 18) twoPieces := by decide +kernel
  exact ⟨s, he, howned, htail, owned_interval_of_roomy (.of_exec hinit halong he)⟩

/-- The largest packet in the smallest ring, up to its terminator. -/
def fullPacket : List TxAct :=
  .xmit ⟨1, 60, List.replicate MAX_SKB_FRAGS 100⟩ :: List.replicate 37 (.xmitStep true)

/-- **The terminator of the largest packet is the packet's own first descriptor** in the
smallest ring. -/
theorem full_packet_overwrites :
    ∃ s, txMachine.exec (txInit 18) fullPacket = some s ∧ txMachine.Reach (fun _ _ => True) s ∧ ¬Ownership s := by
  have hrun : ((txMachine.exec (txInit 18) fullPacket).map fun s =>
      (s.n, match s.xmit with | .term x => (x.new, x.orig) | _ => (1, 0))) = some (18, 0, 0) := by
    decide +kernel
  obtain ⟨s, he, hs⟩ := Option.map_eq_some_iff.1 hrun
  obtain ⟨hn, hterm⟩ := Prod.mk.inj hs
  have hinit : txMachine.init (txInit 18) := ⟨18, (acceptedTx_iff 18).2 (by decide), rfl⟩
  refine ⟨s, he, .of_exec hinit (Machine.along_true _ _) he, ?_⟩
  intro hown
  cases hpc : s.xmit with
  | term x =>
    rw [hpc] at hterm
    obtain ⟨hnew, horig⟩ := Prod.mk.inj hterm
    obtain ⟨-, hdisjoint⟩ := hown.terminator x hpc
    have hfirst := hdisjoint 0 (Nat.zero_le _)
    rw [hnew, horig, hn] at hfirst
    exact hfirst rfl
  | _ => rw [hpc] at hterm; exact absurd hterm (by simp)

end Br2Efinix.Tsemac
