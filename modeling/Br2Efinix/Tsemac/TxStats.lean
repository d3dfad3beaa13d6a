import Mathlib.Algebra.Order.BigOperators.Group.List
import Mathlib.Algebra.Order.Ring.Nat
import Br2Efinix.Tsemac.XmitFailure

/-!
# The transmit statistics

`tsemac_tx_poll` adds to `stats.tx_packets` what `tsemac_free_tx_chain` returns, and to `stats.tx_bytes` the
sizes that it adds up. Both are of descriptors, and a packet has one for each of its pieces.

* `tx_stats_linear`: the statistics are right in every run in which no packet has fragments.
* `tx_stats_pieces`: with fragments the bytes are right, but the packets are the pieces.
-/

namespace Br2Efinix.Tsemac

open Table

/-- What `tsemac_free_tx_chain` adds to `*sizep`, for each of the descriptors that it counts, from descriptor
`first` on and with `k` to go. -/
def TxBuf.freedSizes : ℕ → ℕ → TxBuf → List ℕ
  | 0, _, _ => []
  | k + 1, first, s =>
    let d := s.ring (first % s.n)
    if !d.done then []
    else
      ((d.control &&& DMASG_DESCRIPTOR_CONTROL_BYTES) + 1) ::
        freedSizes k (first + 1) (freeTxChain false 1 first s)

/-- The descriptors and the statistics, which are `unsigned long`s of `w` bits. Only observed are the
packets that were queued, with the lengths of their pieces, the lengths that the polls have counted, and
for each poll its budget and the work that it reported. -/
structure TxStats (w : ℕ) where
  buf : TxBuf
  txPackets : BitVec w
  txBytes : BitVec w
  queued : List (List ℕ)
  polled : List ℕ
  reported : List (ℕ × ℕ)

inductive TxStatsAct
  | startXmit (headlen : ℕ) (frags : List ℕ) (maps : ℕ → Bool)
  | txPoll (budget : ℕ)
  | complete (i : ℕ)

namespace TxStats

variable {w : ℕ}

/-- `tsemac_start_xmit`. -/
def startXmit (s : TxStats w) (headlen : ℕ) (frags : List ℕ) (maps : ℕ → Bool) : Option (TxStats w) :=
  (s.buf.startXmit headlen frags maps).map fun buf =>
    { s with
      buf := buf
      queued :=
        if !s.buf.checkTxBdSpace (frags.length + 1) && (List.range (frags.length + 1)).all maps then
          s.queued ++ [headlen :: frags]
        else s.queued }

/-- `tsemac_tx_poll`, whose `size` is a `u32`. -/
def txPoll (s : TxStats w) (budget : ℕ) : TxStats w :=
  let sizes := TxBuf.freedSizes budget s.buf.ci s.buf
  let packets := sizes.length
  let size := sizes.sum % 2 ^ 32
  let s := { s with buf := s.buf.txPoll budget, reported := s.reported ++ [(budget, packets)] }
  if packets ≠ 0 then
    { s with
      txPackets := s.txPackets + BitVec.ofNat w packets
      txBytes := s.txBytes + BitVec.ofNat w size
      polled := s.polled ++ sizes }
  else s

/-- After `tsemac_open`. -/
def opened (w : ℕ) (buf : TxBuf) : TxStats w :=
  { buf := buf, txPackets := 0#w, txBytes := 0#w, queued := [], polled := [], reported := [] }

end TxStats

def txStatsMachine (w : ℕ) : Machine (TxStats w) TxStatsAct :=
  { init := fun s => ∃ n buf, AcceptedTx n ∧ (TxBuf.probed n).open_ true true = some buf ∧ s = .opened w buf
    step := fun s a =>
      match a with
      | .startXmit headlen frags maps => s.startXmit headlen frags maps
      | .txPoll budget => some (s.txPoll budget)
      | .complete i => (s.buf.complete i).map fun buf => { s with buf := buf } }

variable {w : ℕ}

/-- No poll reports more than its budget, and once nothing is left in the ring the statistics are those of
the packets that were queued. -/
structure StatsRight (s : TxStats w) : Prop where
  packets : s.buf.Empty → s.txPackets = BitVec.ofNat w s.queued.length
  bytes : s.buf.Empty → s.txBytes = BitVec.ofNat w s.queued.flatten.sum
  work : ∀ r ∈ s.reported, r.2 ≤ r.1

/-! ## The conditions -/

/-- The longest piece, with room to spare: frames have at most `ETHERNET_JUMBO_MTU` bytes of data. -/
def PIECE_MAX : ℕ := 2 ^ 16

/-- A packet that is taken is in one piece, with a length that a frame has. -/
def Linear (s : TxStats w) : TxStatsAct → Prop
  | .startXmit headlen frags _ => s.buf.checkTxBdSpace (frags.length + 1) = false →
      frags = [] ∧ 1 ≤ headlen ∧ headlen ≤ PIECE_MAX
  | _ => True

instance : ∀ (s : TxStats w) a, Decidable (Linear s a)
  | s, .startXmit headlen frags _ =>
    inferInstanceAs (Decidable (s.buf.checkTxBdSpace (frags.length + 1) = false →
      frags = [] ∧ 1 ≤ headlen ∧ headlen ≤ PIECE_MAX))
  | _, .txPoll _ => isTrue trivial
  | _, .complete _ => isTrue trivial

/-- A packet that is taken has descriptors that are not in use, pieces that descriptors can say, and is
mapped if it has fragments. -/
def Loadable (s : TxStats w) : TxStatsAct → Prop
  | .startXmit headlen frags maps => s.buf.checkTxBdSpace (frags.length + 1) = false →
      (∀ j < frags.length + 1, (s.buf.ring ((s.buf.tail + j) % s.buf.n)).control = 0) ∧
      GoodPieces headlen frags ∧ (∀ len ∈ headlen :: frags, len ≤ PIECE_MAX) ∧
      (frags = [] ∨ ∀ ii < frags.length + 1, maps ii = true)
  | _ => True

/-! ## What a poll frees -/

/-- The lengths of the pieces in the ring. -/
def TxBuf.lengths (s : TxBuf) : List ℕ := entries s.n fun i => (s.ring i).mapping.map Prod.snd

variable {b b' : TxBuf}

theorem lengths_congr (hn : b'.n = b.n)
    (hcontrol : ∀ i, (b'.ring i).mapping.map Prod.snd = (b.ring i).mapping.map Prod.snd) :
    b'.lengths = b.lengths := by
  unfold TxBuf.lengths
  rw [hn]
  exact entries_congr fun i _ => hcontrol i

theorem mapping_length (d : Desc) : d.mapping.map Prod.snd =
    if d.control = 0 then none else some ((d.control &&& DMASG_DESCRIPTOR_CONTROL_BYTES) + 1) := by
  unfold Desc.mapping
  split <;> rfl

/-- The poll frees one descriptor and goes on. -/
theorem freeTxChain_done (k first : ℕ) (hdone : (b.ring (first % b.n)).done = true) :
    TxBuf.freeTxChain false (k + 1) first b =
      TxBuf.freeTxChain false k (first + 1) (TxBuf.freeTxChain false 1 first b) := by
  rw [TxBuf.freeTxChain, TxBuf.freeTxChain]
  simp only [hdone]
  rfl

/-- The one that it frees. -/
theorem freeTxChain_one (first j : ℕ) (hdone : (b.ring (first % b.n)).done = true) :
    (TxBuf.freeTxChain false 1 first b).ring j =
      if j = first % b.n then { b.ring (first % b.n) with completed := true, control := 0, skb := none }
      else b.ring j := by
  rw [TxBuf.freeTxChain, TxBuf.freeTxChain]
  simp only [hdone]
  exact modDesc_ring (s := b) (first % b.n) j fun d => { d with completed := true, control := 0, skb := none }

theorem freedSizes_succ (k first : ℕ) : TxBuf.freedSizes (k + 1) first b =
    if (b.ring (first % b.n)).done = true then
      (((b.ring (first % b.n)).control &&& DMASG_DESCRIPTOR_CONTROL_BYTES) + 1) ::
        TxBuf.freedSizes k (first + 1) (TxBuf.freeTxChain false 1 first b)
    else [] := by
  rw [TxBuf.freedSizes]
  rcases (b.ring (first % b.n)).done <;> rfl

theorem freeTxChain_not_done (k first : ℕ) (hdone : ¬ (b.ring (first % b.n)).done = true) :
    TxBuf.freeTxChain false (k + 1) first b = b := by
  have hnot : (b.ring (first % b.n)).done = false := by simpa using hdone
  rw [TxBuf.freeTxChain]
  simp only [hnot]
  rfl

/-- Not more than the budget is freed. -/
theorem freedSizes_length (k first : ℕ) : (TxBuf.freedSizes k first b).length ≤ k := by
  induction k generalizing first b with
  | zero => exact Nat.le_refl 0
  | succ k ih =>
    rw [freedSizes_succ]
    split
    · exact Nat.succ_le_succ (ih (first + 1))
    · exact Nat.zero_le _

/-- **What is freed** was in the ring, and the rest still is. -/
theorem freedSizes_perm (k first : ℕ) (hn : 0 < b.n) :
    b.lengths.Perm (TxBuf.freedSizes k first b ++ (TxBuf.freeTxChain false k first b).lengths) := by
  induction k generalizing first b with
  | zero => exact List.Perm.refl _
  | succ k ih =>
    rw [freedSizes_succ]
    split
    · rename_i hdone
      have hn' : (TxBuf.freeTxChain false 1 first b).n = b.n := (freeTxChain_keeps false 1 first b).n
      have hused : (b.ring (first % b.n)).control ≠ 0 := by
        have hboth := hdone
        unfold Desc.done at hboth
        simp only [Bool.and_eq_true, bne_iff_ne, ne_eq] at hboth
        exact hboth.2
      have hrest := ih (first + 1) (b := TxBuf.freeTxChain false 1 first b) (by rw [hn']; exact hn)
      have htaken : b.lengths.Perm ((((b.ring (first % b.n)).control &&& DMASG_DESCRIPTOR_CONTROL_BYTES) + 1) ::
          (TxBuf.freeTxChain false 1 first b).lengths) := by
        unfold TxBuf.lengths
        rw [hn']
        apply entries_take (Nat.mod_lt first hn)
        · rw [mapping_length, if_neg hused]
        · rw [freeTxChain_one first _ hdone, if_pos rfl]
          rfl
        · intro j hj
          rw [freeTxChain_one first _ hdone, if_neg hj]
      rw [freeTxChain_done k first hdone]
      exact htaken.trans (hrest.cons _)
    · rename_i hdone
      rw [freeTxChain_not_done k first hdone]
      exact List.Perm.refl _

/-- Freeing leaves a descriptor alone or clears it. -/
theorem freeTxChain_control (force : Bool) (k first i : ℕ) :
    ((TxBuf.freeTxChain force k first b).ring i).control = 0 ∨
      ((TxBuf.freeTxChain force k first b).ring i).control = (b.ring i).control := by
  induction k generalizing first b with
  | zero => exact Or.inr rfl
  | succ k ih =>
    rw [TxBuf.freeTxChain]
    simp only
    split
    · exact Or.inr rfl
    · have hring := modDesc_ring (s := b) (first % b.n) i fun d =>
        { d with completed := true, control := 0, skb := none }
      rcases ih (first + 1) with hzero | hsame
      · exact Or.inl hzero
      · rw [hsame]
        by_cases hi : i = first % b.n
        · rw [if_pos hi] at hring
          exact Or.inl (congrArg Desc.control hring)
        · rw [if_neg hi] at hring
          exact Or.inr (congrArg Desc.control hring)

/-! ## The books -/

/-- Every piece is in the ring or counted. -/
structure Counted (s : TxStats w) : Prop where
  ring : InRange s.buf
  books : s.queued.flatten.Perm (s.buf.lengths ++ s.polled)
  packets : s.txPackets = BitVec.ofNat w s.polled.length
  bytes : s.txBytes = BitVec.ofNat w s.polled.sum
  short : ∀ len ∈ s.queued.flatten, len ≤ PIECE_MAX
  work : ∀ r ∈ s.reported, r.2 ≤ r.1

variable {s s' : TxStats w}

/-- What one poll counts does not wrap around. -/
theorem sizes_lt {sizes rest : List ℕ} (hring : InRange b) (hperm : b.lengths.Perm (sizes ++ rest))
    (hshort : ∀ len ∈ b.lengths, len ≤ PIECE_MAX) : sizes.sum < 2 ^ 32 := by
  have hmax := ((acceptedTx_iff b.n).1 hring.accepted).2
  have hfew : sizes.length ≤ b.n := by
    have hlength := hperm.length_eq
    rw [List.length_append] at hlength
    have hslots : b.lengths.length ≤ b.n := by
      unfold TxBuf.lengths entries
      refine Nat.le_trans (List.length_filterMap_le _ _) ?_
      rw [List.length_range]
    omega
  have hsum := List.sum_le_card_nsmul sizes PIECE_MAX fun len hlen =>
    hshort len (hperm.mem_iff.2 (List.mem_append_left rest hlen))
  rw [Nat.nsmul_eq_mul] at hsum
  unfold TX_BD_NUM_MAX at hmax
  have hmul := Nat.mul_le_mul_right PIECE_MAX (Nat.le_trans hfew hmax)
  exact Nat.lt_of_le_of_lt (Nat.le_trans hsum hmul) (by decide)

/-- **A poll** counts what it frees. -/
theorem txPoll_counted (hs : Counted s) (budget : ℕ) : Counted (s.txPoll budget) := by
  have hpos : 0 < s.buf.n := Nat.zero_lt_of_lt hs.ring.ci
  have hperm := freedSizes_perm budget s.buf.ci hpos
  have hring : InRange (s.buf.txPoll budget) := (freeTxChain_keeps false budget s.buf.ci s.buf).inRange hs.ring
  have hwork : ∀ r ∈ s.reported ++ [(budget, (TxBuf.freedSizes budget s.buf.ci s.buf).length)], r.2 ≤ r.1 := by
    intro r hr
    rcases List.mem_append.1 hr with hold | hnew
    · exact hs.work r hold
    · rw [List.mem_singleton.1 hnew]
      exact freedSizes_length budget s.buf.ci
  unfold TxStats.txPoll
  simp only
  split
  · have hlt : (TxBuf.freedSizes budget s.buf.ci s.buf).sum < 2 ^ 32 := by
      refine sizes_lt hs.ring hperm ?_
      intro len hlen
      exact hs.short len (hs.books.mem_iff.2 (List.mem_append_left _ hlen))
    refine ⟨hring, ?_, ?_, ?_, hs.short, hwork⟩
    · exact books_leave hs.books hperm (List.Perm.refl _)
    · simp only
      rw [hs.packets, List.length_append, BitVec.ofNat_add]
    · simp only
      rw [hs.bytes, List.sum_append, BitVec.ofNat_add, Nat.mod_eq_of_lt hlt]
  · rename_i hnone
    have hnil : TxBuf.freedSizes budget s.buf.ci s.buf = [] := by
      rw [← List.length_eq_zero_iff]
      omega
    rw [hnil] at hperm
    exact ⟨hring, hs.books.trans (hperm.append_right _), hs.packets, hs.bytes, hs.short, hwork⟩

/-- The engine leaves the control words alone. -/
theorem complete_ring {i : ℕ} (hstep : b.complete i = some b') :
    b'.n = b.n ∧ b'.tail = b.tail ∧ ∀ j, (b'.ring j).control = (b.ring j).control ∧
      (b'.ring j).mapping = (b.ring j).mapping := by
  obtain ⟨-, rfl⟩ := of_guard_not hstep
  refine ⟨rfl, rfl, ?_⟩
  intro j
  have hj := modDesc_ring (s := b) i j fun d => { d with completed := true }
  simp only
  rw [hj]
  by_cases hji : j = i
  · rw [if_pos hji, hji]
    exact ⟨rfl, rfl⟩
  · rw [if_neg hji]
    exact ⟨rfl, rfl⟩

theorem complete_counted (hs : Counted s) {i : ℕ} (hstep : s.buf.complete i = some b') :
    Counted { s with buf := b' } := by
  obtain ⟨hn, -, hfields⟩ := complete_ring hstep
  have hsame : b'.lengths = s.buf.lengths := by
    apply lengths_congr hn
    intro j
    rw [(hfields j).2]
  refine ⟨txBuf_inRange (a := .complete i) hs.ring hstep, ?_, hs.packets, hs.bytes, hs.short, hs.work⟩
  simp only
  rw [hsame]
  exact hs.books

/-- The pieces of a packet are the lengths that its descriptors say. -/
theorem loaded_lengths {headlen id : ℕ} {frags : List ℕ} (htail : b.tail < b.n)
    (hroom : frags.length + 1 ≤ b.n)
    (hfree : ∀ j < frags.length + 1, (b.ring ((b.tail + j) % b.n)).control = 0)
    (hn : b'.n = b.n) (hloaded : Loaded b headlen frags id b') :
    b'.lengths.Perm ((headlen :: frags) ++ b.lengths) := by
  have hslots := Ring.offset_inj (a := b.tail) hroom
  have hput := entries_put (n := b.n) (m := frags.length + 1) (σ := fun k => (b.tail + k) % b.n)
    (v := fun k => (headlen :: frags).getD k 0)
    (f := fun i => (b.ring i).mapping.map Prod.snd) (g := fun i => (b'.ring i).mapping.map Prod.snd)
    (fun k _ => Nat.mod_lt _ (by omega)) hslots
    (fun k hk => by rw [mapping_length, if_pos (hfree k hk)])
    (fun k hk => by rw [hloaded.pieces k hk]; rfl)
    (fun i hi => by rw [(hloaded.others i hi).1])
  have hlist : (List.range (frags.length + 1)).map (fun k => (headlen :: frags).getD k 0) =
      headlen :: frags := by
    apply List.ext_getElem
    · simp
    · intro k hk hk'
      rw [List.getElem_map, List.getElem_range, List.getD_eq_getElem _ _ hk']
  rw [hlist] at hput
  unfold TxBuf.lengths
  rw [hn]
  exact hput

theorem all_range {m : ℕ} {maps : ℕ → Bool} :
    (List.range m).all maps = true ↔ ∀ ii < m, maps ii = true := by
  rw [List.all_eq_true]
  exact forall_congr' fun ii => by rw [List.mem_range]

/-- A packet in one piece that cannot be mapped clears at most the descriptor at the tail. -/
theorem linear_unmapped (hs : InRange b) {headlen : ℕ} {maps : ℕ → Bool}
    (hspace : b.checkTxBdSpace 1 = false) (hfail : maps 0 = false)
    (hcall : b.startXmit headlen [] maps = some b') :
    b'.n = b.n ∧ b'.tail = b.tail ∧ ∀ i, i = b.tail ∧ (b'.ring i).control = 0 ∨ b'.ring i = b.ring i := by
  have hspace' : b.checkTxBdSpace (([] : List ℕ).length + 1) = false := hspace
  obtain ⟨-, r, hfragged, hci, rfl⟩ := failed_of_startXmit hs (k := 0) hspace' (Nat.le_refl 0)
    (fun j hj => absurd hj (Nat.not_lt_zero j)) hfail hcall
  have hn : r.n = b.n := hfragged.frame.n
  have htail : b.tail % b.n = b.tail := Nat.mod_eq_of_lt hs.tail
  have hkeeps := freeTxChain_keeps true (forced [] 0) b.tail r
  have hforced := freeTxChain_forced (s := r) 1 b.tail (by rw [hci, hn]; exact hs.ci)
  refine ⟨hkeeps.n.trans hn, hkeeps.tail.trans hfragged.frame.tail, ?_⟩
  intro i
  by_cases hi : i = b.tail
  · have hzero := (hforced.cleared 0 Nat.zero_lt_one).1
    rw [Nat.add_zero b.tail, hn, htail] at hzero
    rw [hi]
    exact Or.inl ⟨rfl, hzero⟩
  · refine Or.inr ((hforced.others i ?_).trans (hfragged.other i fun k hk => absurd hk (Nat.not_lt_zero k)))
    intro j hj
    rw [show j = 0 by omega, Nat.add_zero b.tail, hn, htail]
    exact hi

/-- **A packet that is queued** adds its pieces, and any other adds none. -/
theorem startXmit_counted (hs : Counted s) {headlen : ℕ} {frags : List ℕ} {maps : ℕ → Bool}
    (hg : Loadable s (.startXmit headlen frags maps)) (hstep : s.startXmit headlen frags maps = some s') :
    Counted s' := by
  obtain ⟨b', hcall, rfl⟩ := Option.map_eq_some_iff.1 hstep
  have hring : InRange b' := startXmit_inRange hs.ring hcall
  have hroom := room_of_startXmit hs.ring hcall
  rcases hspace : s.buf.checkTxBdSpace (frags.length + 1) with _ | _
  · obtain ⟨hfree, hgood, hshort, hmapped⟩ := hg hspace
    by_cases hall : (List.range (frags.length + 1)).all maps = true
    · obtain ⟨r, hfragged, heq, hloaded⟩ :=
        loaded_of_startXmit hs.ring.tail hroom hgood (all_range.1 hall) hspace hcall
      have hn : b'.n = s.buf.n := by
        rw [heq]
        exact (writeLinear_frame r s.buf.calls headlen s.buf.tail _).n.trans hfragged.frame.n
      have hlengths := loaded_lengths hs.ring.tail hroom hfree hn hloaded
      have hflat : (s.queued ++ [headlen :: frags]).flatten = s.queued.flatten ++ (headlen :: frags) := by
        rw [List.flatten_append, List.flatten_singleton]
      simp only [Bool.not_false, Bool.true_and, hall, if_true]
      refine ⟨hring, ?_, hs.packets, hs.bytes, ?_, hs.work⟩
      · simp only
        rw [hflat]
        exact books_gain hs.books hlengths
      · simp only
        rw [hflat]
        intro len hlen
        rcases List.mem_append.1 hlen with hold | hnew
        · exact hs.short len hold
        · exact hshort len hnew
    · -- the linear part, which is all there is, cannot be mapped
      have hlinear : frags = [] := by
        rcases hmapped with hnil | hmaps
        · exact hnil
        · exact absurd (all_range.2 hmaps) hall
      subst hlinear
      have hfail : maps 0 = false := by simpa using hall
      obtain ⟨hn, -, hslots⟩ := linear_unmapped hs.ring hspace hfail hcall
      have hsame : b'.lengths = s.buf.lengths := by
        apply lengths_congr hn
        intro i
        rcases hslots i with ⟨rfl, hzero⟩ | hold
        · have htail := hfree 0 Nat.zero_lt_one
          rw [Nat.add_zero s.buf.tail, Nat.mod_eq_of_lt hs.ring.tail] at htail
          rw [mapping_length, mapping_length, if_pos hzero, if_pos htail]
        · rw [hold]
      simp only [Bool.not_false, Bool.true_and, if_neg hall]
      refine ⟨hring, ?_, hs.packets, hs.bytes, hs.short, hs.work⟩
      simp only
      rw [hsame]
      exact hs.books
  · obtain rfl := busy_of_startXmit hspace hcall
    simp only [Bool.not_true, Bool.false_and, Bool.false_eq_true, if_false]
    exact ⟨hring, hs.books, hs.packets, hs.bytes, hs.short, hs.work⟩

/-! ## Runs -/

theorem txStats_counted {a : TxStatsAct} (hs : Counted s) (hg : Loadable s a)
    (hstep : (txStatsMachine w).step s a = some s') : Counted s' := by
  cases a with
  | startXmit headlen frags maps => exact startXmit_counted hs hg hstep
  | txPoll budget =>
    obtain rfl := Option.some.inj hstep
    exact txPoll_counted hs budget
  | complete i =>
    obtain ⟨b', hcomplete, rfl⟩ := Option.map_eq_some_iff.1 hstep
    exact complete_counted hs hcomplete

theorem opened_counted (hinit : (txStatsMachine w).init s) : Counted s := by
  obtain ⟨n, buf, hn, hopen, rfl⟩ := hinit
  have hprobed : txBufMachine.init (.probed n) := ⟨n, hn, rfl⟩
  have hring : InRange buf := inRange_of_reach
    (.step (a := .open_ true true) (.init hprobed) trivial hopen)
  have hempty : buf.lengths = [] := by
    obtain rfl := Option.some.inj hopen
    apply entries_none
    intro i _
    rfl
  refine ⟨hring, ?_, rfl, rfl, fun len hlen => absurd hlen List.not_mem_nil,
    fun r hr => absurd hr List.not_mem_nil⟩
  simp only [TxStats.opened]
  rw [hempty]
  exact List.Perm.refl _

theorem txPoll_buf (s : TxStats w) (budget : ℕ) : (s.txPoll budget).buf = s.buf.txPoll budget := by
  unfold TxStats.txPoll
  simp only
  split <;> rfl

theorem txPoll_queued (s : TxStats w) (budget : ℕ) : (s.txPoll budget).queued = s.queued := by
  unfold TxStats.txPoll
  simp only
  split <;> rfl

/-! ## Packets in one piece -/

/-- The descriptor at the tail and the one after it are not in use. -/
def Gap (b : TxBuf) : Prop := (b.ring b.tail).control = 0 ∧ (b.ring ((b.tail + 1) % b.n)).control = 0

theorem gap_of_control (hgap : Gap b) (hn : b'.n = b.n) (htail : b'.tail = b.tail)
    (hcontrol : ∀ i, (b'.ring i).control = 0 ∨ (b'.ring i).control = (b.ring i).control) : Gap b' := by
  unfold Gap
  rw [hn, htail]
  constructor
  · rcases hcontrol b.tail with hzero | hsame
    · exact hzero
    · exact hsame.trans hgap.1
  · rcases hcontrol ((b.tail + 1) % b.n) with hzero | hsame
    · exact hzero
    · exact hsame.trans hgap.2

/-- A packet in one piece goes into the gap, and the space check is for the next one. -/
theorem startXmit_gap (hs : InRange b) (hgap : Gap b) {headlen : ℕ} {maps : ℕ → Bool}
    (hlen : 1 ≤ headlen ∧ headlen ≤ PIECE_MAX) (hspace : b.checkTxBdSpace 1 = false)
    (hcall : b.startXmit headlen [] maps = some b') : Gap b' := by
  have hmin := ((acceptedTx_iff b.n).1 hs.accepted).1
  have hsize : 3 ≤ b.n := Nat.le_trans (by decide) hmin
  rcases hmaps : maps 0 with _ | _
  · obtain ⟨hn, htail, hslots⟩ := linear_unmapped hs hspace hmaps hcall
    apply gap_of_control hgap hn htail
    intro i
    rcases hslots i with ⟨-, hzero⟩ | hsame
    · exact Or.inl hzero
    · rw [hsame]
      exact Or.inr rfl
  · have hgood : GoodPieces headlen [] := by
      refine ⟨?_, fun len hmem => absurd hmem List.not_mem_nil⟩
      intro len hmem
      rw [List.mem_singleton.1 hmem]
      exact ⟨hlen.1, Nat.le_trans hlen.2 (by decide)⟩
    have hall : ∀ ii < ([] : List ℕ).length + 1, maps ii = true := by
      intro ii hii
      rw [show ii = 0 from Nat.lt_one_iff.1 hii]
      exact hmaps
    obtain ⟨r, hfragged, heq, hloaded⟩ :=
      loaded_of_startXmit hs.tail (room_of_startXmit hs hcall) hgood hall hspace hcall
    have hrn : r.n = b.n := hfragged.frame.n
    have hn : b'.n = b.n := by
      rw [heq]
      exact (writeLinear_frame r b.calls headlen b.tail _).n.trans hrn
    have htail : b'.tail = (b.tail + 1) % b.n := by
      rw [heq, ← hrn]
      exact xmitLinear_tail (by omega) _ _ _ _
    -- only the slot of the old tail is taken
    have hother : ∀ p, b.tail < p → p < b.tail + b.n →
        (b'.ring (p % b.n)).control = (b.ring (p % b.n)).control := by
      intro p hlow hhigh
      refine (hloaded.others (p % b.n) ?_).2
      intro k hk
      rw [show k = 0 from Nat.lt_one_iff.1 hk, Nat.add_zero b.tail]
      exact Ring.slot_ne (a := b.tail) (by omega) hhigh (Nat.le_refl _) (by omega) (by omega)
    unfold Gap
    rw [hn, htail]
    constructor
    · rw [hother (b.tail + 1) (by omega) (by omega)]
      exact hgap.2
    · rw [Ring.slot_add, hother (b.tail + 1 + 1) (by omega) (by omega)]
      unfold TxBuf.checkTxBdSpace at hspace
      simpa using hspace

theorem loadable_of_linear {a : TxStatsAct} (hs : InRange s.buf) (hgap : Gap s.buf) (hg : Linear s a) :
    Loadable s a := by
  cases a with
  | startXmit headlen frags maps =>
    intro hspace
    obtain ⟨rfl, hmin, hmax⟩ := hg hspace
    refine ⟨?_, ⟨?_, fun len hmem => absurd hmem List.not_mem_nil⟩, ?_, Or.inl rfl⟩
    · intro j hj
      rw [show j = 0 from Nat.lt_one_iff.1 hj, Nat.add_zero s.buf.tail, Nat.mod_eq_of_lt hs.tail]
      exact hgap.1
    · intro len hmem
      rw [List.mem_singleton.1 hmem]
      exact ⟨hmin, Nat.le_trans hmax (by decide)⟩
    · intro len hmem
      rw [List.mem_singleton.1 hmem]
      exact hmax
  | txPoll budget => trivial
  | complete i => trivial

/-- What is kept when every packet is in one piece. -/
structure Whole (s : TxStats w) : Prop where
  counted : Counted s
  gap : Gap s.buf
  single : ∀ pieces ∈ s.queued, pieces.length = 1

theorem txStats_whole {a : TxStatsAct} (hs : Whole s) (hg : Linear s a)
    (hstep : (txStatsMachine w).step s a = some s') : Whole s' := by
  have hcounted := txStats_counted hs.counted (loadable_of_linear hs.counted.ring hs.gap hg) hstep
  cases a with
  | startXmit headlen frags maps =>
    obtain ⟨b', hcall, rfl⟩ := Option.map_eq_some_iff.1 hstep
    by_cases hspace : s.buf.checkTxBdSpace (frags.length + 1) = false
    · obtain ⟨rfl, hlen⟩ := hg hspace
      refine ⟨hcounted, startXmit_gap hs.counted.ring hs.gap hlen hspace hcall, ?_⟩
      intro pieces hmem
      simp only at hmem
      split at hmem
      · rcases List.mem_append.1 hmem with hold | hnew
        · exact hs.single pieces hold
        · rw [List.mem_singleton.1 hnew]
          rfl
      · exact hs.single pieces hmem
    · have hbusy : s.buf.checkTxBdSpace (frags.length + 1) = true := by simpa using hspace
      obtain rfl := busy_of_startXmit hbusy hcall
      refine ⟨hcounted, hs.gap, ?_⟩
      simp only [hbusy, Bool.not_true, Bool.false_and, Bool.false_eq_true, if_false]
      exact hs.single
  | txPoll budget =>
    obtain rfl := Option.some.inj hstep
    have hkeeps := freeTxChain_keeps false budget s.buf.ci s.buf
    refine ⟨hcounted, ?_, ?_⟩
    · rw [txPoll_buf]
      exact gap_of_control hs.gap hkeeps.n hkeeps.tail (freeTxChain_control false budget s.buf.ci)
    · rw [txPoll_queued]
      exact hs.single
  | complete i =>
    obtain ⟨b', hcomplete, rfl⟩ := Option.map_eq_some_iff.1 hstep
    obtain ⟨hn, htail, hfields⟩ := complete_ring hcomplete
    exact ⟨hcounted, gap_of_control hs.gap hn htail fun j => Or.inr (hfields j).1, hs.single⟩

theorem opened_whole (hinit : (txStatsMachine w).init s) : Whole s := by
  have hcounted := opened_counted hinit
  obtain ⟨n, buf, hn, hopen, rfl⟩ := hinit
  refine ⟨hcounted, ?_, fun pieces hmem => absurd hmem List.not_mem_nil⟩
  obtain rfl := Option.some.inj hopen
  exact ⟨rfl, rfl⟩

theorem flatten_single {queued : List (List ℕ)} (h : ∀ pieces ∈ queued, pieces.length = 1) :
    queued.flatten.length = queued.length := by
  induction queued with
  | nil => rfl
  | cons pieces rest ih =>
    have hrest := ih fun pieces hmem => h pieces (List.mem_cons_of_mem _ hmem)
    rw [List.flatten_cons, List.length_append, h pieces List.mem_cons_self, hrest, List.length_cons, Nat.add_comm]

/-- What the books say of the statistics when the ring is empty. -/
theorem stats_of_counted (hs : Counted s) (hempty : s.buf.Empty) :
    s.txPackets = BitVec.ofNat w s.queued.flatten.length ∧ s.txBytes = BitVec.ofNat w s.queued.flatten.sum := by
  have hnone : s.buf.lengths = [] := by
    apply entries_none
    intro i hi
    rw [mapping_length, if_pos (hempty i hi)]
  have hbooks := hs.books
  rw [hnone, List.nil_append] at hbooks
  rw [hs.packets, hs.bytes, hbooks.length_eq, hbooks.sum_eq]
  exact ⟨rfl, rfl⟩

/-- **With fragments** the bytes are those of the packets, and the packets counted are the pieces. -/
theorem tx_stats_pieces (hr : (txStatsMachine w).Reach Loadable s) (hempty : s.buf.Empty) :
    s.txPackets = BitVec.ofNat w s.queued.flatten.length ∧ s.txBytes = BitVec.ofNat w s.queued.flatten.sum :=
  stats_of_counted
    (hr.invariant (fun _ => opened_counted) fun _ _ _ h hg hstep => txStats_counted h hg hstep) hempty

/-- **Without fragments** the statistics are right in every run, also when packets cannot be mapped. -/
theorem tx_stats_linear (hr : (txStatsMachine w).Reach Linear s) : StatsRight s := by
  have hs : Whole s :=
    hr.invariant (fun _ => opened_whole) fun _ _ _ h hg hstep => txStats_whole h hg hstep
  refine ⟨?_, fun hempty => (stats_of_counted hs.counted hempty).2, hs.counted.work⟩
  intro hempty
  rw [(stats_of_counted hs.counted hempty).1, flatten_single hs.single]

/-- The ring of 18 descriptors after `tsemac_open`. -/
def opened18 : TxStats 32 := .opened 32
  { TxBuf.probed 18 with ring := fun i => ⟨true, 0, 0, (i + 1) % 18, none⟩, up := true, running := true }

theorem opened18_init : (txStatsMachine 32).init opened18 :=
  ⟨18, _, (acceptedTx_iff 18).2 (by decide), rfl, rfl⟩

/-- Two packets are sent and polled one at a time, and a third cannot be mapped. -/
def linearRun : List TxStatsAct :=
  [.startXmit 60 [] mapsOk, .startXmit 42 [] mapsOk, .complete 0, .complete 1, .txPoll 1, .txPoll 1,
    .startXmit 99 [] fun _ => false]

theorem tx_stats_linear_two :
    ∃ s, (txStatsMachine 32).exec opened18 linearRun = some s ∧ s.txPackets = 2#32 ∧ s.txBytes = 102#32 ∧
      StatsRight s := by
  have hrun : ((txStatsMachine 32).exec opened18 linearRun).map (fun s => (s.txPackets, s.txBytes)) =
      some (2#32, 102#32) := by decide +kernel
  obtain ⟨s, hexec, hfields⟩ := Option.map_eq_some_iff.1 hrun
  obtain ⟨hpackets, hbytes⟩ := Prod.mk.inj hfields
  have halong : (txStatsMachine 32).Along Linear opened18 linearRun := by decide +kernel
  exact ⟨s, hexec, hpackets, hbytes, tx_stats_linear (.of_exec opened18_init halong hexec)⟩

/-- **A packet with a fragment** counts as two. -/
theorem fragment_counts :
    ∃ s, (txStatsMachine 32).exec opened18 [.startXmit 60 [100] mapsOk, .complete 0, .complete 1, .txPoll 64] =
      some s ∧ s.queued = [[60, 100]] ∧ s.txPackets = 2#32 ∧ ¬ StatsRight s := by
  have hrun : ((txStatsMachine 32).exec opened18
      [.startXmit 60 [100] mapsOk, .complete 0, .complete 1, .txPoll 64]).map
        (fun s => (s.queued, s.txPackets, decide s.buf.Empty)) = some ([[60, 100]], 2#32, true) := by
    decide +kernel
  obtain ⟨s, hexec, hfields⟩ := Option.map_eq_some_iff.1 hrun
  obtain ⟨hqueued, hrest⟩ := Prod.mk.inj hfields
  obtain ⟨hpackets, hempty⟩ := Prod.mk.inj hrest
  refine ⟨s, hexec, hqueued, hpackets, ?_⟩
  intro hright
  have heq := hright.packets (of_decide_eq_true hempty)
  rw [hpackets, hqueued] at heq
  exact absurd heq (by decide)

end Br2Efinix.Tsemac
