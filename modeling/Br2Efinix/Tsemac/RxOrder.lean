import Mathlib.Data.List.Infix
import Br2Efinix.Lib.Ring
import Br2Efinix.Tsemac.RxBuffers

/-!
# Receiving once and in order

`rx_bd_ci` is where the next frame is expected, or where a buffer is missing.
`tsemac_rx_poll` moves it over a descriptor whose length field is 0 before it looks
whether that is completed.

* `received_in_order`: in every run in which no poll starts at a descriptor with a length
  field of 0, the frames are handed to the stack once and in the order of arrival.
* `empty_poll_reorders`: a poll that finds nothing received lets the next frame overtake,
  and a refill that fails leaves `rx_bd_ci` behind.
-/

namespace Br2Efinix.Tsemac

open Table

/-! ## The property -/

structure RxInOrder (s : Rx) : Prop where
  /-- The stack has got the first of the frames received, with their lengths, -/
  delivered : s.delivered <+: s.received
  /-- each of which is another one. -/
  once : (s.received.map Prod.fst).Nodup
  /-- The others are in the ring. -/
  pending : ∀ k, s.delivered.length ≤ k → k < s.received.length →
    (s.ring (k % s.n)).completed = true ∧ ∃ b, (s.ring (k % s.n)).skb = some b ∧
      s.received[k]? = some (s.content b, (s.ring (k % s.n)).bytes)
  /-- A poll with the budget and the buffers for them hands them over. -/
  drains : s.poll = .idle → s.n = 1 ∨ (s.ring s.ci).bytes ≠ 0 → ∀ budget,
    s.received.length ≤ s.delivered.length + budget →
      ∃ m s', rxMachine.exec s (.startPoll budget :: List.replicate m (.poll (true, true) true)) = some s' ∧
        s'.delivered = s.received

/-- `rx_bd_ci` is the slot of the oldest frame that the stack has not got, or the one that the
engine fills next. -/
def AtOldest (s : Rx) : Prop :=
  s.ci = if s.delivered.length < s.received.length then s.delivered.length % s.n else s.at_

instance (s : Rx) : Decidable (AtOldest s) := by unfold AtOldest; infer_instance

/-- `rx_bd_ci` is the slot of the last frame that the stack has got, and has no buffer. -/
def AwaitsBuffer (s : Rx) : Prop :=
  (s.ring s.ci).skb = none ∧ ∃ k, s.delivered.length = k + 1 ∧ s.ci = k % s.n

/-- The ring has been set up; now it is filled and polled. -/
def rxPolled : Machine Rx RxAct :=
  { init := fun s => s.up = true ∧ ∃ n rxmem mtu alloc, 1 ≤ n ∧
      (Rx.probed n rxmem).open_ mtu (true, true) alloc true = some s
    step := fun s a =>
      match a with
      | .open_ _ _ _ _ => none
      | .stop => none
      | a => s.next a }

/-- The lengths of the frames that arrive. -/
def Fitting (s : Rx) : RxAct → Prop
  | .engine len => 1 ≤ len ∧ len ≤ s.maxFrm
  | _ => True

/-- No poll starts at a descriptor with a length field of 0, unless that is the only one. -/
def Filling (s : Rx) : RxAct → Prop
  | .startPoll _ => s.n = 1 ∨ (s.ring s.ci).bytes ≠ 0
  | _ => True

instance : ∀ s a, Decidable (Fitting s a)
  | s, .engine len => inferInstanceAs (Decidable (1 ≤ len ∧ len ≤ s.maxFrm))
  | _, .open_ _ _ _ _ => isTrue trivial
  | _, .stop => isTrue trivial
  | _, .startPoll _ => isTrue trivial
  | _, .poll _ _ => isTrue trivial

instance : ∀ s a, Decidable (Filling s a)
  | s, .startPoll _ => inferInstanceAs (Decidable (s.n = 1 ∨ (s.ring s.ci).bytes ≠ 0))
  | _, .open_ _ _ _ _ => isTrue trivial
  | _, .stop => isTrue trivial
  | _, .engine _ => isTrue trivial
  | _, .poll _ _ => isTrue trivial

/-! ## The invariant -/

/-- Slot `i` is the driver's. -/
structure Full (s : Rx) (i : ℕ) : Prop where
  completed : (s.ring i).completed = true
  length : 1 ≤ (s.ring i).bytes ∧ (s.ring i).bytes ≤ s.maxFrm

/-- The buffer of slot `i` has the frame received as number `k`. -/
def HasFrame (s : Rx) (i k : ℕ) : Prop :=
  ∃ b, (s.ring i).skb = some b ∧ s.received[k]? = some (s.content b, (s.ring i).bytes)

/-- Slot `i` is the engine's. -/
structure Armed (s : Rx) (i : ℕ) : Prop where
  completed : (s.ring i).completed = false
  bytes : (s.ring i).bytes = 0
  buffer : ∃ b, s.ring i = ⟨false, 0, (s.ring i).control, b, some b⟩

/-- The driver is at position `p`: the frames from `p` on are in the ring, but that of `p` may be
gone, and the other slots are the engine's. -/
structure RxWindow (p : ℕ) (s : Rx) : Prop where
  pos : 0 < s.n
  ci : s.ci = p % s.n
  le : p ≤ s.received.length
  room : s.received.length ≤ p + s.n
  next : s.at_ = s.received.length % s.n
  numbers : s.received.map Prod.fst = List.range' 1 s.received.length
  max : s.maxFrm < 2 ^ 27
  filled : ∀ k, p ≤ k → k < s.received.length → Full s (k % s.n)
  frame : ∀ k, p < k → k < s.received.length → HasFrame s (k % s.n) k
  first : p < s.received.length → (s.ring (p % s.n)).skb = none ∨ HasFrame s (p % s.n) p
  armed : ∀ k, s.received.length ≤ k → k < p + s.n → Armed s (k % s.n)
  delivered : s.delivered =
    s.received.take (if (s.ring (p % s.n)).skb = none then p + 1 else p)

/-- No buffer is in two slots. -/
def Distinct (s : Rx) : Prop :=
  ∀ i < s.n, ∀ j < s.n, ∀ b, (s.ring i).skb = some b → (s.ring j).skb = some b → i = j

variable {s s' : Rx} {p : ℕ}

theorem distinct_of_tended (hs : Tended s) (hup : s.up = true) : Distinct s := by
  have hbooks := hs.books
  unfold BuffersKept at hbooks
  rw [hup] at hbooks
  have hnodup := (List.nodup_append.1 (hbooks.skbs.nodup_iff.1 List.nodup_range)).1
  intro i hi j hj b hbi hbj
  exact entries_inj hnodup hi hj hbi hbj

theorem Full.of_same {i : ℕ} (h : Full s i) (hring : s'.ring i = s.ring i) (hmax : s'.maxFrm = s.maxFrm) :
    Full s' i :=
  ⟨by rw [hring]; exact h.completed, by rw [hring, hmax]; exact h.length⟩

theorem HasFrame.of_same {i k : ℕ} (h : HasFrame s i k) (hring : s'.ring i = s.ring i)
    (hcontent : s'.content = s.content) (hreceived : s'.received = s.received) : HasFrame s' i k := by
  obtain ⟨b, hb, hk⟩ := h
  exact ⟨b, by rw [hring]; exact hb, by rw [hring, hreceived, hcontent]; exact hk⟩

theorem Armed.of_same {i : ℕ} (h : Armed s i) (hring : s'.ring i = s.ring i) : Armed s' i :=
  ⟨by rw [hring]; exact h.completed, by rw [hring]; exact h.bytes, by rw [hring]; exact h.buffer⟩

/-- The window looks at these fields only. -/
theorem RxWindow.of_same (h : RxWindow p s) (hn : s'.n = s.n) (hci : s'.ci = s.ci) (hat : s'.at_ = s.at_)
    (hmax : s'.maxFrm = s.maxFrm) (hring : s'.ring = s.ring) (hcontent : s'.content = s.content)
    (hreceived : s'.received = s.received) (hdelivered : s'.delivered = s.delivered) : RxWindow p s' := by
  obtain ⟨h1, h2, h3, h4, h5, h6, h7, h8, h9, h10, h11, h12⟩ := h
  have hslot : ∀ i, s'.ring i = s.ring i := fun i => congrFun hring i
  refine ⟨?_, ?_, ?_, ?_, ?_, ?_, ?_, ?_, ?_, ?_, ?_, ?_⟩
  · rw [hn]
    exact h1
  · rw [hn, hci]
    exact h2
  · rw [hreceived]
    exact h3
  · rw [hn, hreceived]
    exact h4
  · rw [hn, hat, hreceived]
    exact h5
  · rw [hreceived]
    exact h6
  · rw [hmax]
    exact h7
  · rw [hn, hreceived]
    intro k hk hk'
    exact (h8 k hk hk').of_same (hslot _) hmax
  · rw [hn, hreceived]
    intro k hk hk'
    exact (h9 k hk hk').of_same (hslot _) hcontent hreceived
  · rw [hn, hreceived, hring]
    intro hp
    exact (h10 hp).imp_right fun hframe => hframe.of_same (hslot _) hcontent hreceived
  · rw [hn, hreceived]
    intro k hk hk'
    exact (h11 k hk hk').of_same (hslot _)
  · rw [hn, hring, hdelivered, hreceived]
    exact h12

/-- The slot that the driver is at has a buffer when nothing is left. -/
theorem RxWindow.buffer (h : RxWindow p s) (hp : s.received.length ≤ p) :
    ∃ b, (s.ring (p % s.n)).skb = some b := by
  obtain ⟨b, hb⟩ := (h.armed p hp (by have := h.pos; omega)).buffer
  rw [hb]
  exact ⟨b, rfl⟩

/-- A completed slot is the oldest frame's. -/
theorem RxWindow.unread (h : RxWindow p s) (hcompleted : (s.ring (p % s.n)).completed = true) :
    p < s.received.length := by
  by_contra hle
  have harmed := h.armed p (by omega) (by have := h.pos; omega)
  rw [harmed.completed] at hcompleted
  exact absurd hcompleted (by simp)

/-! ## The engine -/

/-- What the arrival of a frame of `len` bytes changes. -/
structure Arrived (s t : Rx) (len : ℕ) : Prop where
  n : t.n = s.n
  ci : t.ci = s.ci
  max : t.maxFrm = s.maxFrm
  delivered : t.delivered = s.delivered
  self : t.ring s.at_ = { s.ring s.at_ with completed := true, bytes := len }
  other : ∀ j, j ≠ s.at_ → t.ring j = s.ring j
  content : ∀ b, t.content b = if b = (s.ring s.at_).dst then s.received.length + 1 else s.content b
  received : t.received = s.received ++ [(s.received.length + 1, len)]
  at_ : t.at_ = s.wrap s.at_

section Arrival

variable {t : Rx} {len : ℕ}

/-- The buffer that the engine fills. -/
theorem RxWindow.filled_buffer (h : RxWindow p s) (hmore : s.received.length < p + s.n) :
    ∃ b, (s.ring s.at_).skb = some b ∧ (s.ring s.at_).dst = b := by
  obtain ⟨b, hb⟩ := (h.armed _ (Nat.le_refl _) hmore).buffer
  rw [← h.next] at hb
  exact ⟨b, by rw [hb], by rw [hb]⟩

/-- The other slots of the window are not written, -/
theorem Arrived.slot (ha : Arrived s t len) (h : RxWindow p s) (hmore : s.received.length < p + s.n) {k : ℕ}
    (hk : p ≤ k) (hk' : k < p + s.n) (hne : k ≠ s.received.length) : t.ring (k % s.n) = s.ring (k % s.n) := by
  apply ha.other
  rw [h.next]
  exact Ring.slot_ne hk hk' h.le hmore hne

/-- and so neither are their buffers. -/
theorem Arrived.keep (ha : Arrived s t len) (h : RxWindow p s) (hdistinct : Distinct s)
    (hmore : s.received.length < p + s.n) {k : ℕ} (hk : p ≤ k) (hk' : k < s.received.length)
    (hframe : HasFrame s (k % s.n) k) : HasFrame t (k % s.n) k := by
  obtain ⟨c, hc, hget⟩ := hframe
  obtain ⟨b, hskb, hdst⟩ := h.filled_buffer hmore
  have hpos := h.pos
  have hsame := ha.slot h hmore hk (by omega) (by omega)
  have hne : c ≠ (s.ring s.at_).dst := by
    rw [hdst]
    rintro rfl
    have hlt : s.at_ < s.n := by
      rw [h.next]
      exact Nat.mod_lt _ hpos
    have heq := hdistinct _ (Nat.mod_lt k hpos) _ hlt _ hc hskb
    rw [h.next] at heq
    exact Ring.slot_ne hk (by omega) h.le hmore (by omega) heq
  refine ⟨c, ?_, ?_⟩
  · rw [hsame]
    exact hc
  · rw [hsame, ha.content, if_neg hne, ha.received, List.getElem?_append_left hk']
    exact hget

/-- The frame is in its slot. -/
theorem Arrived.new (ha : Arrived s t len) (h : RxWindow p s) (hmore : s.received.length < p + s.n) :
    HasFrame t (s.received.length % s.n) s.received.length := by
  obtain ⟨b, hskb, hdst⟩ := h.filled_buffer hmore
  rw [← h.next]
  refine ⟨b, ?_, ?_⟩
  · rw [ha.self]
    exact hskb
  · rw [ha.self, ha.content, if_pos hdst.symm, ha.received, List.getElem?_concat_length]

/-- **A frame arrives** in the slot after the last one. -/
theorem arrive_window (ha : Arrived s t len) (h : RxWindow p s) (hdistinct : Distinct s)
    (hlen : 1 ≤ len ∧ len ≤ s.maxFrm) (hmore : s.received.length < p + s.n) : RxWindow p t := by
  have hpos := h.pos
  have hle := h.le
  have hnext := h.next
  have hlength : t.received.length = s.received.length + 1 := by
    rw [ha.received, List.length_append, List.length_singleton]
  have hn := ha.n
  refine ⟨?_, ?_, ?_, ?_, ?_, ?_, ?_, ?_, ?_, ?_,
    ?_, ?_⟩
  · rw [ha.n]
    exact hpos
  · rw [ha.n, ha.ci]
    exact h.ci
  · omega
  · omega
  · rw [ha.n, ha.at_, hlength]
    unfold Rx.wrap
    rw [hnext]
    exact Ring.wrap_succ hpos _
  · rw [hlength, ha.received, List.map_append, h.numbers, List.range'_1_concat]
    simp [Nat.add_comm]
  · rw [ha.max]
    exact h.max
  · intro k hk hk'
    rw [ha.n]
    rcases Nat.lt_succ_iff_lt_or_eq.1 (by omega : k < s.received.length + 1) with hlt | rfl
    · exact (h.filled k hk hlt).of_same (ha.slot h hmore hk (by omega) (by omega)) ha.max
    · rw [← hnext]
      refine ⟨?_, ?_⟩
      · rw [ha.self]
      · rw [ha.self, ha.max]
        exact hlen
  · intro k hk hk'
    rw [ha.n]
    rcases Nat.lt_succ_iff_lt_or_eq.1 (by omega : k < s.received.length + 1) with hlt | rfl
    · exact ha.keep h hdistinct hmore (by omega) hlt (h.frame k hk hlt)
    · exact ha.new h hmore
  · intro hp
    rw [ha.n]
    rcases Nat.lt_succ_iff_lt_or_eq.1 (by omega : p < s.received.length + 1) with hlt | heq
    · rcases h.first hlt with hnone | hhas
      · left
        rw [ha.slot h hmore (Nat.le_refl p) (by omega) (by omega)]
        exact hnone
      · exact Or.inr (ha.keep h hdistinct hmore (Nat.le_refl p) hlt hhas)
    · right
      have hnew := ha.new h hmore
      rw [← heq] at hnew
      exact hnew
  · intro k hk hk'
    rw [ha.n]
    rw [ha.n] at hk'
    exact (h.armed k (by omega) hk').of_same (ha.slot h hmore (by omega) hk' (by omega))
  · have hsame : (t.ring (p % s.n)).skb = (s.ring (p % s.n)).skb := by
      by_cases hi : p % s.n = s.at_
      · rw [hi, ha.self]
      · rw [ha.other _ hi]
    rw [ha.n, hsame, ha.delivered, ha.received, h.delivered]
    split
    · -- the driver is not where the engine is
      rename_i hnone
      have hbefore : p < s.received.length := by
        by_contra hge
        obtain ⟨c, hc⟩ := h.buffer (Nat.le_of_not_lt hge)
        rw [hnone] at hc
        exact absurd hc (by simp)
      rw [List.take_append_of_le_length (by omega)]
    · rw [List.take_append_of_le_length hle]

end Arrival

theorem engineStep_window (h : RxWindow p s) (hdistinct : Distinct s) {len : ℕ}
    (hlen : 1 ≤ len ∧ len ≤ s.maxFrm) (hstep : s.engineStep len = some s') : RxWindow p s' := by
  unfold Rx.engineStep at hstep
  split at hstep
  · simp only at hstep
    split at hstep
    · obtain rfl := Option.some.inj hstep
      exact h.of_same rfl rfl rfl rfl rfl rfl rfl rfl
    · rename_i hnot
      have hmore : s.received.length < p + s.n := by
        rcases Nat.lt_or_ge s.received.length (p + s.n) with hlt | hge
        · exact hlt
        · -- then the next slot is the driver's
          have hroom := h.room
          have hpos := h.pos
          have hlast : s.received.length = p + s.n := by omega
          have hfull := (h.filled p (Nat.le_refl p) (by omega)).completed
          rw [h.next, hlast, Nat.add_mod_right] at hnot
          exact absurd hfull hnot
      have hbytes : len % 2 ^ 27 = len := Nat.mod_eq_of_lt (Nat.lt_of_le_of_lt hlen.2 h.max)
      rw [hbytes] at hstep
      obtain rfl := Option.some.inj hstep
      refine arrive_window ?_ h hdistinct hlen hmore
      exact ⟨rfl, rfl, rfl, rfl, setDesc_self, fun j hj => setDesc_ne hj, fun _ => rfl, rfl, rfl⟩
  · exact absurd hstep (by simp)

/-! ## The poll -/

/-- Where only the driver's slot is written, the rest of the window is as it was. -/
theorem RxWindow.other_slot (h : RxWindow p s) {t : Rx} (hother : ∀ j, j ≠ p % s.n → t.ring j = s.ring j) {k : ℕ}
    (hk : p < k) (hk' : k < p + s.n) : t.ring (k % s.n) = s.ring (k % s.n) := by
  have hpos := h.pos
  exact hother _ (Ring.slot_ne (by omega) hk' (Nat.le_refl p) (by omega) (by omega))

/-- **A poll starts** where it should when the length field there is not 0. -/
theorem startPoll_window (h : RxWindow p s) (hfilled : s.n = 1 ∨ (s.ring s.ci).bytes ≠ 0) {budget : ℕ}
    (hstep : s.startPoll budget = some s') :
    RxWindow p s' ∧ s'.poll = .loop budget 0 ∧ s'.received = s.received ∧ s'.delivered = s.delivered := by
  obtain ⟨-, rfl⟩ := of_guard hstep
  have hci : (if (s.ring s.ci).bytes = 0 then s.wrap s.ci else s.ci) = s.ci := by
    split
    · rename_i hzero
      have hone := hfilled.resolve_right (fun hne => hne hzero)
      have hlt : s.ci < 1 := by
        rw [h.ci, hone]
        exact Nat.mod_lt _ (by omega)
      unfold Rx.wrap
      rw [hone]
      split <;> omega
    · rfl
  exact ⟨h.of_same rfl hci rfl rfl rfl rfl rfl rfl, rfl, rfl, rfl⟩

/-- **A frame is handed over**, and its slot is left without a buffer. -/
theorem hand_window (h : RxWindow p s) (hp : p < s.received.length) {b : ℕ}
    (hb : (s.ring (p % s.n)).skb = some b) {t : Rx} (hn : t.n = s.n) (hci : t.ci = s.ci)
    (hat : t.at_ = s.at_) (hmax : t.maxFrm = s.maxFrm) (hcontent : t.content = s.content)
    (hreceived : t.received = s.received)
    (hself : t.ring (p % s.n) = { s.ring (p % s.n) with skb := none })
    (hother : ∀ j, j ≠ p % s.n → t.ring j = s.ring j)
    (hdelivered : t.delivered = s.delivered ++ [(s.content b, (s.ring (p % s.n)).bytes)]) : RxWindow p t := by
  have hpos := h.pos
  have hroom := h.room
  have hlast : ∀ k, p < k → k < s.received.length → t.ring (k % s.n) = s.ring (k % s.n) :=
    fun k hk hk' => h.other_slot hother hk (by omega)
  -- the buffer still has the frame that arrived in the slot
  have hget : s.received[p]? = some (s.content b, (s.ring (p % s.n)).bytes) := by
    rcases h.first hp with hnone | ⟨c, hc, hget⟩
    · rw [hb] at hnone
      exact absurd hnone (by simp)
    · rw [hb] at hc
      rw [hget, Option.some.inj hc]
  refine ⟨?_, ?_, ?_, ?_, ?_, ?_, ?_, ?_, ?_, ?_,
    ?_, ?_⟩
  · rw [hn]
    exact hpos
  · rw [hn, hci]
    exact h.ci
  · rw [hreceived]
    exact h.le
  · rw [hn, hreceived]
    exact hroom
  · rw [hn, hat, hreceived]
    exact h.next
  · rw [hreceived]
    exact h.numbers
  · rw [hmax]
    exact h.max
  · intro k hk hk'
    rw [hreceived] at hk'
    rw [hn]
    have hfull := h.filled k hk hk'
    rcases Nat.eq_or_lt_of_le hk with rfl | hlt
    · refine ⟨?_, ?_⟩
      · rw [hself]
        exact hfull.completed
      · rw [hself, hmax]
        exact hfull.length
    · exact hfull.of_same (hlast k hlt hk') hmax
  · intro k hk hk'
    rw [hreceived] at hk'
    rw [hn]
    exact (h.frame k hk hk').of_same (hlast k hk hk') hcontent hreceived
  · intro _
    left
    rw [hn, hself]
  · intro k hk hk'
    rw [hreceived] at hk
    rw [hn] at hk' ⊢
    exact (h.armed k hk hk').of_same (h.other_slot hother (by omega) hk')
  · have hbefore : s.delivered = s.received.take p := by
      rw [h.delivered, hb]
      rfl
    rw [hn, hself, hdelivered, hreceived, hbefore, if_pos rfl, List.take_add_one, hget]
    rfl

/-- **The oldest frame is taken**, if the stack has not got it yet. -/
theorem take_window (h : RxWindow p s) (hp : p < s.received.length) (packets : ℕ) :
    RxWindow p (s.take packets).1 ∧ ((s.take packets).1.ring (p % s.n)).skb = none ∧
      (s.take packets).1.n = s.n ∧ (s.take packets).1.received = s.received ∧
      ((s.take packets).2 = packets ∧ (s.take packets).1.delivered.length = s.delivered.length ∨
        (s.take packets).2 = packets + 1 ∧
          (s.take packets).1.delivered.length = s.delivered.length + 1) := by
  have hself : (s.setDesc (p % s.n) { s.ring (p % s.n) with skb := none }).ring (p % s.n) =
      { s.ring (p % s.n) with skb := none } := setDesc_self
  have hlength := (h.filled p (Nat.le_refl p) hp).length
  unfold Rx.take
  simp only
  rw [h.ci]
  split
  · rename_i hnone
    refine ⟨?_, by rw [hself], rfl, rfl, Or.inl ⟨rfl, rfl⟩⟩
    refine h.of_same rfl rfl rfl rfl ?_ rfl rfl rfl
    funext j
    by_cases hj : j = p % s.n
    · rw [hj]
      exact hself.trans (by rw [← hnone])
    · exact setDesc_ne hj
  · rename_i b hb
    rw [if_neg (by omega)]
    refine ⟨?_, by rw [hself], rfl, rfl, Or.inr ⟨rfl, ?_⟩⟩
    · exact hand_window h hp hb rfl rfl rfl rfl rfl rfl hself (fun j hj => setDesc_ne hj) rfl
    · exact List.length_append

/-- **A slot without a buffer** is armed again, and the driver goes on. -/
theorem refill_window (h : RxWindow p s) (hp : p < s.received.length)
    (hnone : (s.ring (p % s.n)).skb = none) {t : Rx} {control b : ℕ} (hn : t.n = s.n)
    (hci : t.ci = s.wrap s.ci) (hat : t.at_ = s.at_) (hmax : t.maxFrm = s.maxFrm)
    (hcontent : t.content = s.content) (hreceived : t.received = s.received)
    (hself : t.ring (p % s.n) = ⟨false, 0, control, b, some b⟩)
    (hother : ∀ j, j ≠ p % s.n → t.ring j = s.ring j) (hdelivered : t.delivered = s.delivered) :
    RxWindow (p + 1) t := by
  have hpos := h.pos
  have hroom := h.room
  have hlast : ∀ k, p < k → k < s.received.length → t.ring (k % s.n) = s.ring (k % s.n) :=
    fun k hk hk' => h.other_slot hother hk (by omega)
  have hframe : ∀ k, p < k → k < s.received.length → HasFrame t (k % s.n) k :=
    fun k hk hk' => (h.frame k hk hk').of_same (hlast k hk hk') hcontent hreceived
  have harmed : ∀ k, s.received.length ≤ k → k < p + 1 + s.n → Armed t (k % s.n) := by
    intro k hk hk'
    rcases Nat.lt_or_ge k (p + s.n) with hlt | hge
    · exact (h.armed k hk hlt).of_same (h.other_slot hother (by omega) hlt)
    · -- the slot that has been left
      obtain rfl : k = p + s.n := by omega
      rw [Nat.add_mod_right]
      exact ⟨by rw [hself], by rw [hself], b, by rw [hself]⟩
  refine ⟨?_, ?_, ?_, ?_, ?_, ?_, ?_, ?_, ?_, ?_,
    ?_, ?_⟩
  · rw [hn]
    exact hpos
  · rw [hn, hci]
    unfold Rx.wrap
    rw [h.ci]
    exact Ring.wrap_succ hpos p
  · rw [hreceived]
    exact hp
  · rw [hn, hreceived]
    omega
  · rw [hn, hat, hreceived]
    exact h.next
  · rw [hreceived]
    exact h.numbers
  · rw [hmax]
    exact h.max
  · intro k hk hk'
    rw [hreceived] at hk'
    rw [hn]
    exact (h.filled k (by omega) hk').of_same (hlast k hk hk') hmax
  · intro k hk hk'
    rw [hreceived] at hk'
    rw [hn]
    exact hframe k (by omega) hk'
  · intro hp'
    rw [hreceived] at hp'
    rw [hn]
    exact Or.inr (hframe (p + 1) (Nat.lt_succ_self p) hp')
  · intro k hk hk'
    rw [hreceived] at hk
    rw [hn] at hk' ⊢
    exact harmed k hk hk'
  · -- the next slot has its buffer
    have hbuffer : (t.ring ((p + 1) % s.n)).skb ≠ none := by
      rcases Nat.lt_or_ge (p + 1) s.received.length with hlt | hge
      · obtain ⟨c, hc, -⟩ := hframe (p + 1) (Nat.lt_succ_self p) hlt
        rw [hc]
        simp
      · obtain ⟨c, hc⟩ := (harmed (p + 1) hge (by omega)).buffer
        rw [hc]
        simp
    rw [hn, if_neg hbuffer, hdelivered, hreceived, h.delivered, if_pos hnone]

/-- With a buffer the slot is armed. -/
theorem rearm_ok (h : RxWindow p s) (hp : p < s.received.length) (hnone : (s.ring (p % s.n)).skb = none)
    (budget packets : ℕ) :
    RxWindow (p + 1) (s.rearm budget packets (true, true)) ∧
      (s.rearm budget packets (true, true)).poll = .loop budget packets ∧
      (s.rearm budget packets (true, true)).received = s.received ∧
      (s.rearm budget packets (true, true)).delivered = s.delivered := by
  have hself : (s.setDesc (p % s.n) ⟨false, 0, s.frameControl, s.skbs, some s.skbs⟩).ring (p % s.n) =
      ⟨false, 0, s.frameControl, s.skbs, some s.skbs⟩ := setDesc_self
  have hrearm : s.rearm budget packets (true, true) =
      { s.setDesc s.ci ⟨false, 0, s.frameControl, s.skbs, some s.skbs⟩ with
        skbs := s.skbs + 1, mapped := s.mapped ++ [s.skbs], ci := s.wrap s.ci
        poll := .loop budget packets } := rfl
  rw [hrearm, h.ci]
  refine ⟨?_, rfl, rfl, rfl⟩
  refine refill_window h hp hnone rfl ?_ rfl rfl rfl rfl hself (fun j hj => setDesc_ne hj) rfl
  rw [h.ci]

theorem rearm_window (h : RxWindow p s) (hp : p < s.received.length)
    (hnone : (s.ring (p % s.n)).skb = none) (budget packets : ℕ) (alloc : Bool × Bool) :
    ∃ q, RxWindow q (s.rearm budget packets alloc) := by
  rcases alloc with ⟨skb, map⟩
  cases skb with
  | false => exact ⟨p, h.of_same rfl rfl rfl rfl rfl rfl rfl rfl⟩
  | true =>
    cases map with
    | false => exact ⟨p, h.of_same rfl rfl rfl rfl rfl rfl rfl rfl⟩
    | true => exact ⟨p + 1, (rearm_ok h hp hnone budget packets).1⟩

theorem pollStep_window (h : RxWindow p s) {alloc : Bool × Bool} {complete : Bool}
    (hstep : s.pollStep alloc complete = some s') : ∃ q, RxWindow q s' := by
  unfold Rx.pollStep at hstep
  split at hstep
  · exact absurd hstep (by simp)
  · rename_i budget packets hpoll
    split at hstep
    · rename_i hloop
      obtain rfl := Option.some.inj hstep
      have hcompleted := hloop.2
      rw [h.ci] at hcompleted
      have hp := h.unread hcompleted
      obtain ⟨htaken, hnone, hn, hreceived, -⟩ := take_window h hp packets
      apply rearm_window htaken
      · rw [hreceived]
        exact hp
      · rw [hn]
        exact hnone
    · obtain rfl := Option.some.inj hstep
      exact ⟨p, h.of_same rfl rfl rfl rfl rfl rfl rfl rfl⟩
  · split at hstep
    · obtain rfl := Option.some.inj hstep
      exact ⟨p, h.of_same rfl rfl rfl rfl rfl rfl rfl rfl⟩
    · obtain rfl := Option.some.inj hstep
      exact ⟨p, h.of_same rfl rfl rfl rfl rfl rfl rfl rfl⟩
  · obtain rfl := Option.some.inj hstep
    exact ⟨p, h.of_same rfl rfl rfl rfl rfl rfl rfl rfl⟩

/-- **A pass with a buffer** takes the driver on by one. -/
theorem pass_window (h : RxWindow p s) (hp : p < s.received.length) {budget packets : ℕ}
    (hpoll : s.poll = .loop budget packets) (hbudget : packets < budget) (complete : Bool) :
    ∃ s' packets', s.pollStep (true, true) complete = some s' ∧ RxWindow (p + 1) s' ∧
      s'.poll = .loop budget packets' ∧ s'.received = s.received ∧
      packets' + s.delivered.length = packets + s'.delivered.length := by
  have hcompleted := (h.filled p (Nat.le_refl p) hp).completed
  rw [← h.ci] at hcompleted
  obtain ⟨htaken, hnone, hn, hreceived, hcount⟩ := take_window h hp packets
  obtain ⟨hwindow, hnext, hsame, hgot⟩ := rearm_ok htaken (by rw [hreceived]; exact hp)
    (by rw [hn]; exact hnone) budget (s.take packets).2
  refine ⟨_, (s.take packets).2, ?_, hwindow, hnext, hsame.trans hreceived, ?_⟩
  · unfold Rx.pollStep
    rw [hpoll]
    simp only
    rw [if_pos ⟨hbudget, hcompleted⟩]
  · rw [hgot]
    rcases hcount with ⟨h1, h2⟩ | ⟨h1, h2⟩ <;> omega

/-- **A poll with the budget for them** hands over every frame. -/
theorem poll_drains {m budget packets : ℕ} (hm : s.received.length - p = m) (h : RxWindow p s)
    (hpoll : s.poll = .loop budget packets)
    (hbudget : packets + s.received.length ≤ budget + s.delivered.length) :
    ∃ m s', rxMachine.exec s (List.replicate m (.poll (true, true) true)) = some s' ∧
      s'.delivered = s.received := by
  induction m generalizing s p packets with
  | zero =>
    have hall : s.received.length = p := by
      have hle := h.le
      omega
    refine ⟨0, s, rfl, ?_⟩
    obtain ⟨b, hb⟩ := h.buffer (by omega)
    rw [h.delivered, hb, ← hall]
    exact List.take_length
  | succ m ih =>
    have hp : p < s.received.length := by omega
    by_cases hdone : s.delivered.length = s.received.length
    · refine ⟨0, s, rfl, ?_⟩
      have hdelivered := h.delivered
      rw [hdelivered] at hdone
      rw [hdelivered]
      rw [List.length_take] at hdone
      rw [List.take_of_length_le (by omega)]
    · have hless : s.delivered.length < s.received.length := by
        have hle : s.delivered.length ≤ s.received.length := by
          rw [h.delivered, List.length_take]
          omega
        omega
      obtain ⟨t, packets', hstep, hwindow, hpoll', hreceived, hcount⟩ :=
        pass_window h hp hpoll (by omega) true
      have hleft : t.received.length - (p + 1) = m := by
        rw [hreceived]
        omega
      have hbudget' : packets' + t.received.length ≤ budget + t.delivered.length := by
        rw [hreceived]
        omega
      obtain ⟨k, s', hexec, hall⟩ := ih hleft hwindow hpoll' hbudget'
      refine ⟨k + 1, s', ?_, hall.trans hreceived⟩
      rw [List.replicate_succ]
      unfold Machine.exec
      have hnext : rxMachine.step s (.poll (true, true) true) = some t := hstep
      rw [hnext]
      exact hexec

/-! ## The runs -/

/-- What holds of a ring that has been set up. -/
structure Receives (s : Rx) : Prop where
  running : s.running = true
  up : s.up = true
  tended : Tended s
  window : ∃ p, RxWindow p s

/-- **A ring that has just been set up** is the engine's. -/
theorem bdInit_window (hbooks : Accounts s [] []) (hcontrol : s.frameControl ≠ 0) (hpos : 0 < s.n)
    (hmax : s.maxFrm < 2 ^ 27) (alloc : ℕ → Bool × Bool) (hup : (s.bdInit (true, true) alloc).up = true) :
    RxWindow 0 (s.bdInit (true, true) alloc) := by
  have hzero : Accounts { s with ci := 0 } [] [] := ⟨hbooks.skbs, hbooks.maps, hbooks.once, hbooks.small⟩
  obtain ⟨hshape, hgap, haccounts, hfull⟩ := initLoop_filled alloc s.n 0 _ (filled_zero hzero)
    (Nat.zero_add _) hcontrol
  unfold Rx.bdInit at hup ⊢
  simp only [Bool.not_true, Bool.false_eq_true, if_false] at hup ⊢
  split at hup
  · rename_i hok
    rw [if_pos hok]
    have hfilled := hfull hok
    have hn : (Rx.initLoop alloc s.n 0
        { s with ci := 0, allocated := true, ring := fun _ => .zero }).1.n = s.n := hshape.n
    have hslot : ∀ j < s.n, ∃ c b, (Rx.initLoop alloc s.n 0
        { s with ci := 0, allocated := true, ring := fun _ => .zero }).1.ring j =
          ⟨false, 0, c, b, some b⟩ := by
      intro j hj
      obtain ⟨b, hb⟩ := hfilled.full j hj
      exact ⟨_, b, hb⟩
    have hfirst := hslot 0 hpos
    refine ⟨?_, ?_, Nat.le_refl 0, Nat.zero_le _, ?_, rfl, ?_, ?_, ?_,
      ?_, ?_, ?_⟩
    · simp only
      rw [hn]
      exact hpos
    · simp only
      rw [Nat.zero_mod]
      exact hshape.ci
    · exact (Nat.zero_mod _).symm
    · simp only
      rw [hshape.maxFrm]
      exact hmax
    · intro k _ hk
      exact absurd hk (Nat.not_lt_zero k)
    · intro k _ hk
      exact absurd hk (Nat.not_lt_zero k)
    · intro hp
      exact absurd hp (Nat.not_lt_zero 0)
    · intro k _ hk
      simp only at hk ⊢
      rw [hn] at hk ⊢
      obtain ⟨c, b, hb⟩ := hslot (k % s.n) (Nat.mod_lt k hpos)
      exact ⟨by simp only; rw [hb], by simp only; rw [hb], b, by simp only; rw [hb]⟩
    · exact List.take_nil.symm
  · obtain ⟨-, hdown, -⟩ := release_accounts haccounts hgap hshape.allocated
    rw [hdown] at hup
    exact absurd hup (by simp)

theorem init_receives (hinit : rxPolled.init s) : Receives s := by
  obtain ⟨hup, n, rxmem, mtu, alloc, hn, hopen⟩ := hinit
  have htended := open_tended (probed_tended n rxmem) rfl hopen
  unfold Rx.open_ at hopen
  split at hopen
  · exact absurd hopen (by simp)
  · obtain rfl := Option.some.inj hopen
    have hbooks : Accounts { Rx.probed n rxmem with maxFrm := maxFrmSize mtu rxmem } [] [] :=
      ⟨List.Perm.refl _, List.Perm.refl _, List.nodup_nil, fun b hb => absurd hb List.not_mem_nil⟩
    have hwindow := bdInit_window hbooks (frameControl_ne mtu rfl) hn (maxFrmSize_bounds mtu rxmem).2 alloc hup
    exact ⟨rfl, hup, htended, 0, hwindow.of_same rfl rfl rfl rfl rfl rfl rfl rfl⟩

/-- A step of the poll leaves the interface up. -/
theorem pollStep_up {alloc : Bool × Bool} {complete : Bool} (hstep : s.pollStep alloc complete = some s') :
    s'.running = s.running ∧ s'.up = s.up := by
  have htake : ∀ packets, (s.take packets).1.running = s.running ∧ (s.take packets).1.up = s.up := by
    intro packets
    unfold Rx.take
    simp only
    split
    · exact ⟨rfl, rfl⟩
    · split <;> exact ⟨rfl, rfl⟩
  have hrearm : ∀ (t : Rx) budget packets, (t.rearm budget packets alloc).running = t.running ∧
      (t.rearm budget packets alloc).up = t.up := by
    intro t budget packets
    unfold Rx.rearm
    split
    · exact ⟨rfl, rfl⟩
    · simp only
      split <;> exact ⟨rfl, rfl⟩
  unfold Rx.pollStep at hstep
  split at hstep
  · exact absurd hstep (by simp)
  · rename_i budget packets _
    split at hstep
    · obtain rfl := Option.some.inj hstep
      obtain ⟨h1, h2⟩ := htake packets
      obtain ⟨h3, h4⟩ := hrearm (s.take packets).1 budget (s.take packets).2
      exact ⟨h3.trans h1, h4.trans h2⟩
    · obtain rfl := Option.some.inj hstep
      exact ⟨rfl, rfl⟩
  · split at hstep
    · obtain rfl := Option.some.inj hstep
      exact ⟨rfl, rfl⟩
    · obtain rfl := Option.some.inj hstep
      exact ⟨rfl, rfl⟩
  · obtain rfl := Option.some.inj hstep
    exact ⟨rfl, rfl⟩

theorem engineStep_up {len : ℕ} (hstep : s.engineStep len = some s') :
    s'.running = s.running ∧ s'.up = s.up := by
  unfold Rx.engineStep at hstep
  split at hstep
  · simp only at hstep
    split at hstep
    · obtain rfl := Option.some.inj hstep
      exact ⟨rfl, rfl⟩
    · obtain rfl := Option.some.inj hstep
      exact ⟨rfl, rfl⟩
  · exact absurd hstep (by simp)

theorem startPoll_up {budget : ℕ} (hstep : s.startPoll budget = some s') :
    s'.running = s.running ∧ s'.up = s.up := by
  obtain ⟨-, rfl⟩ := of_guard hstep
  exact ⟨rfl, rfl⟩

/-- What is in the window has a length that the poll accepts. -/
theorem RxWindow.good (h : RxWindow p s) : GoodLength s := by
  intro hcompleted
  rw [h.ci] at hcompleted ⊢
  exact Or.inr (h.filled p (Nat.le_refl p) (h.unread hcompleted)).length

theorem step_receives {a : RxAct} (hs : Receives s) (hg : Fitting s a ∧ Filling s a)
    (hstep : rxPolled.step s a = some s') : Receives s' := by
  obtain ⟨hrunning, hup, htended, p, hwindow⟩ := hs
  cases a with
  | open_ mtu rings alloc rest => exact absurd hstep (by simp [rxPolled])
  | stop => exact absurd hstep (by simp [rxPolled])
  | startPoll budget =>
    obtain ⟨h1, h2⟩ := startPoll_up hstep
    exact ⟨h1.trans hrunning, h2.trans hup, startPoll_tended htended hup hstep, p,
      (startPoll_window hwindow hg.2 hstep).1⟩
  | poll alloc complete =>
    obtain ⟨h1, h2⟩ := pollStep_up hstep
    exact ⟨h1.trans hrunning, h2.trans hup, pollStep_tended htended (fun _ => hwindow.good) hstep,
      pollStep_window hwindow hstep⟩
  | engine len =>
    obtain ⟨h1, h2⟩ := engineStep_up hstep
    exact ⟨h1.trans hrunning, h2.trans hup, engineStep_tended htended hstep, p,
      engineStep_window hwindow (distinct_of_tended htended hup) hg.1 hstep⟩

/-- **What the window says** of the frames. -/
theorem inOrder_of_window (hrunning : s.running = true) (h : RxWindow p s) : RxInOrder s := by
  refine ⟨?_, ?_, ?_, ?_⟩
  · rw [h.delivered]
    exact List.take_prefix _ _
  · rw [h.numbers]
    exact List.nodup_range'
  · intro k hk hk'
    rw [h.delivered, List.length_take] at hk
    by_cases hnone : (s.ring (p % s.n)).skb = none
    · rw [if_pos hnone] at hk
      exact ⟨(h.filled k (by omega) hk').completed, h.frame k (by omega) hk'⟩
    · rw [if_neg hnone] at hk
      refine ⟨(h.filled k (by omega) hk').completed, ?_⟩
      rcases Nat.lt_or_ge p k with hlt | hge
      · exact h.frame k hlt hk'
      · obtain rfl : k = p := by omega
        exact (h.first hk').resolve_left hnone
  · intro hidle hstart budget hbudget
    have hcall : ∃ t, s.startPoll budget = some t := by
      unfold Rx.startPoll
      rw [if_pos ⟨hrunning, hidle⟩]
      exact ⟨_, rfl⟩
    obtain ⟨t, ht⟩ := hcall
    obtain ⟨hwindow, hpoll, hreceived, hdelivered⟩ := startPoll_window h hstart ht
    obtain ⟨m, s', hexec, hall⟩ := poll_drains rfl hwindow hpoll (by rw [hreceived, hdelivered]; omega)
    refine ⟨m, s', ?_, hall.trans hreceived⟩
    unfold Machine.exec
    have hnext : rxMachine.step s (.startPoll budget) = some t := ht
    rw [hnext]
    exact hexec

/-- **Where the window says** the driver is. -/
theorem place_of_window (h : RxWindow p s) : AtOldest s ∨ AwaitsBuffer s := by
  have hle := h.le
  have hdelivered := h.delivered
  by_cases hnone : (s.ring (p % s.n)).skb = none
  · right
    have hbefore : p < s.received.length := by
      by_contra hge
      obtain ⟨b, hb⟩ := h.buffer (Nat.le_of_not_lt hge)
      rw [hnone] at hb
      exact absurd hb (by simp)
    rw [if_pos hnone] at hdelivered
    refine ⟨by rw [h.ci]; exact hnone, p, ?_, h.ci⟩
    rw [hdelivered, List.length_take]
    omega
  · left
    rw [if_neg hnone] at hdelivered
    have hlength : s.delivered.length = p := by
      rw [hdelivered, List.length_take]
      omega
    unfold AtOldest
    rw [hlength]
    split
    · exact h.ci
    · rw [h.next, h.ci, show s.received.length = p by omega]

/-- **Frames are handed to the stack once and in order**, and between polls `rx_bd_ci` is where the
next one is expected or a buffer is missing, in every run in which no poll starts at a
descriptor with a length field of 0. -/
theorem received_in_order {s : Rx} (hr : rxPolled.Reach (fun s a => Fitting s a ∧ Filling s a) s) :
    RxInOrder s ∧ (s.poll = .idle → AtOldest s ∨ AwaitsBuffer s) := by
  have hs : Receives s :=
    hr.invariant (fun _ h => init_receives h) fun _ _ _ h hg hstep => step_receives h hg hstep
  obtain ⟨p, hwindow⟩ := hs.window
  exact ⟨inOrder_of_window hs.running hwindow, fun _ => place_of_window hwindow⟩

/-- A ring of two that has been set up. -/
def Rx.opened : Rx := ((Rx.probed 2 0).open_ 1500 (true, true) allOk true).getD (.probed 2 0)

theorem opened_init : rxPolled.init .opened := by
  refine ⟨?_, 2, 0, 1500, allOk, Nat.le_succ 1, ?_⟩
  · decide +kernel
  · rfl

/-- Two frames are polled with a refill that fails between, and a third arrives. -/
def refillFails : List RxAct :=
  [.engine 60, .engine 100, .startPoll 64, .poll (true, true) true, .poll (false, true) true,
    .poll (true, true) true, .engine 200, .startPoll 64, .poll (true, true) true]

theorem received_in_order_two :
    ∃ s, rxPolled.exec .opened refillFails = some s ∧ s.delivered = [(1, 60), (2, 100)] ∧
      s.received = [(1, 60), (2, 100), (3, 200)] ∧ RxInOrder s ∧
        (s.poll = .idle → AtOldest s ∨ AwaitsBuffer s) := by
  have hrun : (rxPolled.exec .opened refillFails).map (fun s => (s.delivered, s.received)) =
      some ([(1, 60), (2, 100)], [(1, 60), (2, 100), (3, 200)]) := by decide +kernel
  obtain ⟨s, hexec, hfields⟩ := Option.map_eq_some_iff.1 hrun
  obtain ⟨hdelivered, hreceived⟩ := Prod.mk.inj hfields
  have halong : rxPolled.Along (fun s a => Fitting s a ∧ Filling s a) .opened refillFails := by
    decide +kernel
  exact ⟨s, hexec, hdelivered, hreceived, received_in_order (.of_exec opened_init halong hexec)⟩

/-- A poll that finds nothing, two frames, and a poll of one. -/
def emptyPoll : List RxAct :=
  [.startPoll 64, .poll (true, true) true, .poll (true, true) true, .poll (true, true) true,
    .engine 60, .engine 100, .startPoll 1, .poll (true, true) true]

/-- **After a poll that finds nothing** the second frame overtakes the first; and where a refill
has failed, `rx_bd_ci` is at a frame that the stack has got. -/
theorem empty_poll_reorders :
    (∃ s, rxPolled.Reach Fitting s ∧ ¬RxInOrder s) ∧
    ∃ s, rxPolled.Reach (fun s a => Fitting s a ∧ Filling s a) s ∧ s.poll = .idle ∧ ¬AtOldest s := by
  constructor
  · have hrun : (rxPolled.exec .opened emptyPoll).map (fun s => (s.delivered, s.received)) =
        some ([(2, 100)], [(1, 60), (2, 100)]) := by decide +kernel
    obtain ⟨s, hexec, hfields⟩ := Option.map_eq_some_iff.1 hrun
    obtain ⟨hdelivered, hreceived⟩ := Prod.mk.inj hfields
    have halong : rxPolled.Along Fitting .opened emptyPoll := by decide +kernel
    refine ⟨s, .of_exec opened_init halong hexec, ?_⟩
    intro hs
    have hprefix := hs.delivered
    rw [hdelivered, hreceived] at hprefix
    exact absurd hprefix (by decide)
  · have hrun : (rxPolled.exec .opened (refillFails.take 6)).map (fun s => (s.poll, decide (AtOldest s))) =
        some (.idle, false) := by decide +kernel
    obtain ⟨s, hexec, hfields⟩ := Option.map_eq_some_iff.1 hrun
    obtain ⟨hpoll, hplace⟩ := Prod.mk.inj hfields
    have halong : rxPolled.Along (fun s a => Fitting s a ∧ Filling s a) .opened (refillFails.take 6) := by
      decide +kernel
    exact ⟨s, .of_exec opened_init halong hexec, hpoll, of_decide_eq_false hplace⟩

end Br2Efinix.Tsemac
