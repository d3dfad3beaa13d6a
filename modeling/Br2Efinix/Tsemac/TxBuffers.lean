import Mathlib.Data.List.GetD
import Br2Efinix.Lib.Machine
import Br2Efinix.Lib.Ring
import Br2Efinix.Lib.Table
import Br2Efinix.Tsemac.TxRing

/-!
# Where the transmit buffers are

`tsemac_start_xmit`, `tsemac_free_tx_chain`, `tsemac_dma_err_handler` and the ring's
set-up and release, call by call, with the packets that they own and the mappings that
they make and undo. The queue and the start of the engine are left to the transmit
ring; here the engine completes any descriptor that is not completed.

* `packets_kept`: packets and mappings are in the ring or done with, in every run in
  which mapping succeeds, packets find room and the ring is released empty.
* `stop_leaks`: a packet that is in flight when the interface is stopped is lost.
-/

namespace Br2Efinix.Tsemac

open Table

/-- The mapping of a descriptor that is in use, as it would be undone. -/
def Desc.mapping (d : Desc) : Option (ℕ × ℕ) :=
  if d.control = 0 then none else some (d.src, (d.control &&& DMASG_DESCRIPTOR_CONTROL_BYTES) + 1)

/-- The transmit descriptors of `struct efx_tsemac_local`, and the next bus address. Only observed
are whether the ring is set up, the mappings made and undone, each with its length, the
packets accepted, the calls so far (which number the packets), the packets freed when
they were completed and those freed without, and the packets whose last descriptor the
engine has completed. -/
structure TxBuf where
  n : ℕ
  running : Bool
  ring : ℕ → Desc
  ci : ℕ
  tail : ℕ
  addrs : ℕ
  up : Bool
  mapped : List (ℕ × ℕ)
  unmapped : List (ℕ × ℕ)
  calls : ℕ
  accepted : List ℕ
  consumed : List ℕ
  dropped : List ℕ
  sent : List ℕ

namespace TxBuf

/-- Write a descriptor. -/
def modDesc (s : TxBuf) (i : ℕ) (f : Desc → Desc) : TxBuf :=
  { s with ring := fun j => if j = i then f (s.ring j) else s.ring j }

/-- `if (++i >= tx_bd_num) i = 0`. -/
def wrap (s : TxBuf) (i : ℕ) : ℕ := if i + 1 ≥ s.n then 0 else i + 1

/-- `tsemac_check_tx_bd_space`. -/
def checkTxBdSpace (s : TxBuf) (numFrag : ℕ) : Bool :=
  (s.ring ((s.tail + numFrag + 1) % s.n)).control != 0

/-! ### `tsemac_free_tx_chain` -/

/-- The loop from descriptor `first` on, with `k` to go. -/
def freeTxChain (force : Bool) : ℕ → ℕ → TxBuf → TxBuf
  | 0, _, s => s
  | k + 1, first, s =>
    let num := first % s.n
    let d := s.ring num
    if !force && !d.done then s
    else
      freeTxChain force k (first + 1)
        { s.modDesc num fun d => { d with completed := true, control := 0, skb := none } with
          unmapped := s.unmapped ++ [(d.src, (d.control &&& DMASG_DESCRIPTOR_CONTROL_BYTES) + 1)]
          consumed := if d.done then s.consumed ++ d.skb.toList else s.consumed
          ci := if s.ci + 1 ≥ s.n then (s.ci + 1) % s.n else s.ci + 1 }

def txPoll (s : TxBuf) (budget : ℕ) : TxBuf := freeTxChain false budget s.ci s

/-! ### `tsemac_start_xmit` -/

/-- The loop over the fragments, from number `ii` on; `new` is `new_tail_ptr`. `maps` says whether
`dma_map_single` succeeds for fragment `ii`; where it does not, the call ends. -/
def xmitFrags (orig : ℕ) (maps : ℕ → Bool) : List ℕ → ℕ → ℕ → TxBuf → TxBuf × Option ℕ
  | [], _, new, s => (s, some new)
  | len :: rest, ii, new, s =>
    let new := s.wrap new
    if maps ii then
      xmitFrags orig maps rest (ii + 1) new
        { s.modDesc new fun d =>
            { d with src := s.addrs, control := controlBytes len, completed := false } with
          addrs := s.addrs + 1, mapped := s.mapped ++ [(s.addrs, len)] }
    else (freeTxChain true (ii + 1) orig s, none)

/-- The linear part's address and the packet, and their control words and status under the lock:
`orig` is the first descriptor and `new` the last. -/
def writeLinear (s : TxBuf) (id headlen orig new : ℕ) : TxBuf :=
  let s := s.modDesc orig fun d => { d with src := s.addrs }
  let s := s.modDesc new fun d => { d with skb := some id }
  if orig ≠ new then
    (s.modDesc new fun d =>
      { d with control := d.control ||| DMASG_DESCRIPTOR_CONTROL_END_OF_PACKET }).modDesc
        orig fun d => { d with control := controlBytes headlen, completed := false }
  else
    s.modDesc orig fun d =>
      { d with
        control := controlBytes headlen ||| DMASG_DESCRIPTOR_CONTROL_END_OF_PACKET
        completed := false }

/-- The linear part, once it is mapped, and the new tail. -/
def xmitLinear (s : TxBuf) (id headlen orig new : ℕ) : TxBuf :=
  let tail := s.wrap new
  { (s.writeLinear id headlen orig new).modDesc tail fun d => { d with completed := true } with
    addrs := s.addrs + 1, mapped := s.mapped ++ [(s.addrs, headlen)], tail := tail }

/-- `tsemac_start_xmit`, for a packet with its linear part and its fragments. The call is numbered,
and all but `NETDEV_TX_BUSY` is `NETDEV_TX_OK`; `maps` is asked about the linear part last. -/
def startXmit (s : TxBuf) (headlen : ℕ) (frags : List ℕ) (maps : ℕ → Bool) : Option TxBuf :=
  if s.running ∧ frags.length ≤ MAX_SKB_FRAGS then
    let id := s.calls
    let s := { s with calls := id + 1 }
    if s.checkTxBdSpace (frags.length + 1) then some s
    else
      let s := { s with accepted := s.accepted ++ [id] }
      match xmitFrags s.tail maps frags 0 s.tail s with
      | (s', none) => some s'
      | (s', some new) =>
        if maps frags.length then some (s'.xmitLinear id headlen s.tail new)
        else some (freeTxChain true 1 s.tail s')
  else none

/-! ### `tsemac_dma_err_handler` -/

/-- The loop over the descriptors from `i` on, with `k` to go. -/
def errLoop : ℕ → ℕ → TxBuf → TxBuf
  | 0, _, s => s
  | k + 1, i, s =>
    let d := s.ring i
    let bytes := d.control &&& DMASG_DESCRIPTOR_CONTROL_BYTES
    errLoop k (i + 1)
      { s.modDesc i fun _ => ⟨false, 0, 0, 0, none⟩ with
        unmapped := if bytes ≠ 0 then s.unmapped ++ [(d.src, bytes + 1)] else s.unmapped
        dropped := s.dropped ++ d.skb.toList }

def errHandler (s : TxBuf) : TxBuf := { errLoop s.n 0 s with ci := 0, tail := 0 }

/-! ### The ring -/

/-- `tsemac_open`, for the transmit ring: `init` is what `tsemac_dma_bd_init` returns, which is not
looked at, and `rest` the result of the other calls. A ring that cannot be set up is
released by `tsemac_dma_bd_init`. -/
def open_ (s : TxBuf) (init rest : Bool) : Option TxBuf :=
  if s.running then none
  else if init then
    some { s with
      ring := fun i => ⟨true, 0, 0, (i + 1) % s.n, none⟩, ci := 0, tail := 0, up := true, running := rest }
  else some { s with ci := 0, tail := 0, up := false, running := rest }

/-- `tsemac_stop` with `tsemac_dma_bd_release`: the memory of the ring is freed as it is. -/
def stop (s : TxBuf) : Option TxBuf :=
  if s.running then some { s with up := false, running := false } else none

/-- The engine completes a descriptor. -/
def complete (s : TxBuf) (i : ℕ) : Option TxBuf :=
  if (s.ring i).completed then none
  else
    some { s.modDesc i fun d => { d with completed := true } with sent := s.sent ++ (s.ring i).skb.toList }

end TxBuf

inductive TxBufAct
  | open_ (init rest : Bool)
  | startXmit (headlen : ℕ) (frags : List ℕ) (maps : ℕ → Bool)
  | txPoll (budget : ℕ)
  | complete (i : ℕ)
  | errHandler
  | stop

/-- The state before the first `tsemac_open`. -/
def TxBuf.probed (n : ℕ) : TxBuf :=
  { n := n, running := false, ring := fun _ => ⟨false, 0, 0, 0, none⟩, ci := 0, tail := 0, addrs := 0
    up := false, mapped := [], unmapped := [], calls := 0, accepted := [], consumed := []
    dropped := [], sent := [] }

def txBufMachine : Machine TxBuf TxBufAct :=
  { init := fun s => ∃ n, AcceptedTx n ∧ s = .probed n
    step := fun s a =>
      match a with
      | .open_ init rest => s.open_ init rest
      | .startXmit headlen frags maps => s.startXmit headlen frags maps
      | .txPoll budget => if s.running then some (s.txPoll budget) else none
      | .complete i => s.complete i
      | .errHandler => if s.running then some s.errHandler else none
      | .stop => s.stop }

/-! ## The property -/

namespace TxBuf

/-- The packets in the ring. -/
def ringSkbs (s : TxBuf) : List ℕ := if s.up then entries s.n fun i => (s.ring i).skb else []

/-- The mappings of the descriptors in use. -/
def ringMaps (s : TxBuf) : List (ℕ × ℕ) := if s.up then entries s.n fun i => (s.ring i).mapping else []

end TxBuf

structure PacketsKept (s : TxBuf) : Prop where
  /-- A packet that is accepted is in the ring or freed, once, -/
  skbs : s.accepted.Perm (s.ringSkbs ++ (s.consumed ++ s.dropped))
  once : s.accepted.Nodup
  /-- by the poll only after its last descriptor is completed. -/
  sent : ∀ id ∈ s.consumed, id ∈ s.sent
  /-- A mapping is that of a descriptor in use or undone, once and with its length. -/
  maps : s.mapped.Perm (s.ringMaps ++ s.unmapped)
  distinct : (s.mapped.map Prod.fst).Nodup

/-! ## The condition -/

/-- No descriptor is in use. -/
def TxBuf.Empty (s : TxBuf) : Prop := ∀ i < s.n, (s.ring i).control = 0

instance (s : TxBuf) : Decidable s.Empty := by unfold TxBuf.Empty; infer_instance

/-- The pieces have lengths that a descriptor can say, and no piece but the last is of one byte,
which reads as not in use. -/
structure GoodPieces (headlen : ℕ) (frags : List ℕ) : Prop where
  lengths : ∀ len ∈ headlen :: frags, 1 ≤ len ∧ len ≤ 2 ^ 27
  small : ∀ len ∈ (headlen :: frags).dropLast, len ≠ 1

/-- The packet has descriptors that are not in use, and marking the end after it marks no packet
as sent. -/
structure Vacant (s : TxBuf) (numFrag : ℕ) : Prop where
  room : numFrag + 1 ≤ s.n
  free : ∀ j < numFrag + 1, (s.ring ((s.tail + j) % s.n)).control = 0
  next : (s.ring ((s.tail + numFrag + 1) % s.n)).skb = none

instance (headlen : ℕ) (frags : List ℕ) : Decidable (GoodPieces headlen frags) :=
  decidable_of_iff ((∀ len ∈ headlen :: frags, 1 ≤ len ∧ len ≤ 2 ^ 27) ∧
    ∀ len ∈ (headlen :: frags).dropLast, len ≠ 1) ⟨fun h => ⟨h.1, h.2⟩, fun h => ⟨h.lengths, h.small⟩⟩

instance (s : TxBuf) (numFrag : ℕ) : Decidable (Vacant s numFrag) :=
  decidable_of_iff (numFrag + 1 ≤ s.n ∧ (∀ j < numFrag + 1, (s.ring ((s.tail + j) % s.n)).control = 0) ∧
    (s.ring ((s.tail + numFrag + 1) % s.n)).skb = none)
    ⟨fun h => ⟨h.1, h.2.1, h.2.2⟩, fun h => ⟨h.room, h.free, h.next⟩⟩

/-- Packets are sent, cleaned up after, and the ring is released empty. -/
def Gentle (s : TxBuf) : TxBufAct → Prop
  | .open_ _ _ => s.up = true → s.Empty
  | .startXmit headlen frags maps => s.up = true ∧ (s.checkTxBdSpace (frags.length + 1) = false →
      Vacant s frags.length ∧ GoodPieces headlen frags ∧ ∀ ii < frags.length + 1, maps ii = true)
  | .txPoll _ => s.up = true
  | .complete _ => True
  | .errHandler => s.up = true ∧ ∀ i < s.n, (s.ring i).control ≠ 0 →
      (s.ring i).control &&& DMASG_DESCRIPTOR_CONTROL_BYTES ≠ 0
  | .stop => s.up = true → s.Empty

instance : ∀ s a, Decidable (Gentle s a)
  | s, .open_ _ _ => inferInstanceAs (Decidable (s.up = true → s.Empty))
  | s, .startXmit headlen frags maps =>
    inferInstanceAs (Decidable (s.up = true ∧ (s.checkTxBdSpace (frags.length + 1) = false →
      Vacant s frags.length ∧ GoodPieces headlen frags ∧ ∀ ii < frags.length + 1, maps ii = true)))
  | s, .txPoll _ => inferInstanceAs (Decidable (s.up = true))
  | _, .complete _ => isTrue trivial
  | s, .errHandler =>
    inferInstanceAs (Decidable (s.up = true ∧ ∀ i < s.n, (s.ring i).control ≠ 0 →
      (s.ring i).control &&& DMASG_DESCRIPTOR_CONTROL_BYTES ≠ 0))
  | s, .stop => inferInstanceAs (Decidable (s.up = true → s.Empty))

/-! ## Lengths -/

theorem and_bytes (w : ℕ) : w &&& DMASG_DESCRIPTOR_CONTROL_BYTES = w % 2 ^ 27 := by
  unfold DMASG_DESCRIPTOR_CONTROL_BYTES
  rw [show (0x7FFFFFF : ℕ) = 2 ^ 27 - 1 by decide, Nat.and_two_pow_sub_one_eq_mod]

/-- A length that a descriptor can say is read back, -/
theorem length_controlBytes {len : ℕ} (hlen : 1 ≤ len ∧ len ≤ 2 ^ 27) :
    (controlBytes len &&& DMASG_DESCRIPTOR_CONTROL_BYTES) + 1 = len := by
  rw [and_bytes, controlBytes_eq]
  omega

/-- with or without the end of the packet. -/
theorem and_endOfPacket (w : ℕ) :
    (w ||| DMASG_DESCRIPTOR_CONTROL_END_OF_PACKET) &&& DMASG_DESCRIPTOR_CONTROL_BYTES =
      w &&& DMASG_DESCRIPTOR_CONTROL_BYTES := by
  unfold DMASG_DESCRIPTOR_CONTROL_END_OF_PACKET
  rw [and_bytes, and_bytes, Nat.or_mod_two_pow, show 2 ^ 30 % 2 ^ 27 = 0 by decide, Nat.or_zero]

/-! ## The invariant -/

structure Balanced (s : TxBuf) : Prop where
  kept : PacketsKept s
  size : 2 ≤ s.n
  tail : s.tail < s.n
  used : s.up = true → ∀ i < s.n, ∀ id, (s.ring i).skb = some id → (s.ring i).control ≠ 0
  marked : s.up = true → ∀ i < s.n, ∀ id, (s.ring i).skb = some id → (s.ring i).completed = true →
    id ∈ s.sent
  numbered : ∀ id ∈ s.accepted, id < s.calls
  fresh : ∀ m ∈ s.mapped, m.1 < s.addrs

variable {s s' : TxBuf}

theorem modDesc_self {i : ℕ} {f : Desc → Desc} : (s.modDesc i f).ring i = f (s.ring i) := by
  unfold TxBuf.modDesc
  simp only [if_true]

theorem modDesc_ne {i j : ℕ} {f : Desc → Desc} (hne : j ≠ i) : (s.modDesc i f).ring j = s.ring j := by
  unfold TxBuf.modDesc
  simp only
  rw [if_neg hne]

theorem ringSkbs_up (hup : s.up = true) : s.ringSkbs = entries s.n fun i => (s.ring i).skb := by
  unfold TxBuf.ringSkbs
  rw [if_pos hup]

theorem ringMaps_up (hup : s.up = true) : s.ringMaps = entries s.n fun i => (s.ring i).mapping := by
  unfold TxBuf.ringMaps
  rw [if_pos hup]

/-- A ring that is not in use holds nothing. -/
theorem empty_lists (hs : Balanced s) (hempty : s.up = true → s.Empty) : s.ringSkbs = [] ∧ s.ringMaps = [] := by
  by_cases hup : s.up = true
  · rw [ringSkbs_up hup, ringMaps_up hup]
    constructor
    · apply entries_none
      intro i hi
      rcases hskb : (s.ring i).skb with _ | id
      · rfl
      · exact absurd (hempty hup i hi) (hs.used hup i hi id hskb)
    · apply entries_none
      intro i hi
      unfold Desc.mapping
      rw [if_pos (hempty hup i hi)]
  · unfold TxBuf.ringSkbs TxBuf.ringMaps
    rw [if_neg hup, if_neg hup]
    exact ⟨rfl, rfl⟩

/-- **The ring is set up or given up** while it holds nothing. -/
theorem balanced_of_empty (hs : Balanced s) (hempty : s.up = true → s.Empty) (hskbs : s'.ringSkbs = [])
    (hmaps : s'.ringMaps = []) (hn : s'.n = s.n) (htail : s'.tail < s.n) (hmapped : s'.mapped = s.mapped)
    (hunmapped : s'.unmapped = s.unmapped) (haccepted : s'.accepted = s.accepted)
    (hconsumed : s'.consumed = s.consumed) (hdropped : s'.dropped = s.dropped) (hsent : s'.sent = s.sent)
    (hcalls : s'.calls = s.calls) (haddrs : s'.addrs = s.addrs)
    (hnone : s'.up = true → ∀ i, (s'.ring i).skb = none) : Balanced s' := by
  obtain ⟨h1, h2⟩ := empty_lists hs hempty
  obtain ⟨hperm, honce, hdone, hmap, hdistinct⟩ := hs.kept
  rw [h1] at hperm
  rw [h2] at hmap
  refine ⟨⟨?_, ?_, ?_, ?_, ?_⟩, ?_, ?_, ?_, ?_, ?_, ?_⟩
  · rw [haccepted, hskbs, hconsumed, hdropped]
    exact hperm
  · rw [haccepted]
    exact honce
  · rw [hconsumed, hsent]
    exact hdone
  · rw [hmapped, hmaps, hunmapped]
    exact hmap
  · rw [hmapped]
    exact hdistinct
  · rw [hn]
    exact hs.size
  · rw [hn]
    exact htail
  · intro hup i _ id hid
    rw [hnone hup i] at hid
    exact absurd hid (by simp)
  · intro hup i _ id hid _
    rw [hnone hup i] at hid
    exact absurd hid (by simp)
  · rw [haccepted, hcalls]
    exact hs.numbered
  · rw [hmapped, haddrs]
    exact hs.fresh

theorem open_balanced (hs : Balanced s) {init rest : Bool} (hempty : s.up = true → s.Empty)
    (hstep : s.open_ init rest = some s') : Balanced s' := by
  have hpos : 0 < s.n := Nat.lt_of_lt_of_le (Nat.succ_pos 1) hs.size
  unfold TxBuf.open_ at hstep
  split at hstep
  · exact absurd hstep (by simp)
  · split at hstep
    · obtain rfl := Option.some.inj hstep
      refine balanced_of_empty hs hempty ?_ ?_ rfl hpos rfl rfl rfl rfl rfl rfl rfl rfl fun _ _ => rfl
      · rw [ringSkbs_up rfl]
        apply entries_none
        intro i _
        rfl
      · rw [ringMaps_up rfl]
        apply entries_none
        intro i _
        rfl
    · obtain rfl := Option.some.inj hstep
      exact balanced_of_empty hs hempty rfl rfl rfl hpos rfl rfl rfl rfl rfl rfl rfl rfl
        fun hup => absurd hup (by simp)

theorem stop_balanced (hs : Balanced s) (hempty : s.up = true → s.Empty) (hstep : s.stop = some s') :
    Balanced s' := by
  obtain ⟨-, rfl⟩ := of_guard hstep
  exact balanced_of_empty hs hempty rfl rfl rfl hs.tail rfl rfl rfl rfl rfl rfl rfl rfl
    fun hup => absurd hup (by simp)

/-! ## Cleaning up -/

theorem complete_balanced (hs : Balanced s) {i : ℕ} (hstep : s.complete i = some s') : Balanced s' := by
  obtain ⟨-, rfl⟩ := of_guard_not hstep
  have hfields : ∀ j, ((s.modDesc i fun d => { d with completed := true }).ring j).skb = (s.ring j).skb ∧
      ((s.modDesc i fun d => { d with completed := true }).ring j).control = (s.ring j).control ∧
      ((s.modDesc i fun d => { d with completed := true }).ring j).mapping = (s.ring j).mapping := by
    intro j
    by_cases hji : j = i
    · rw [hji, modDesc_self]
      exact ⟨rfl, rfl, rfl⟩
    · rw [modDesc_ne hji]
      exact ⟨rfl, rfl, rfl⟩
  obtain ⟨⟨hperm, honce, hdone, hmap, hdistinct⟩, hsize, htail, hused, hmarked, hnumbered, hfresh⟩ := hs
  have hskbs : TxBuf.ringSkbs
      { s.modDesc i fun d => { d with completed := true } with
        sent := s.sent ++ (s.ring i).skb.toList } = s.ringSkbs := by
    unfold TxBuf.ringSkbs
    have hentries : entries s.n
        (fun j => ((s.modDesc i fun d => { d with completed := true }).ring j).skb) =
          entries s.n fun j => (s.ring j).skb := entries_congr fun j _ => (hfields j).1
    simp only
    rw [← hentries]
    rfl
  have hmaps : TxBuf.ringMaps
      { s.modDesc i fun d => { d with completed := true } with
        sent := s.sent ++ (s.ring i).skb.toList } = s.ringMaps := by
    unfold TxBuf.ringMaps
    have hentries : entries s.n
        (fun j => ((s.modDesc i fun d => { d with completed := true }).ring j).mapping) =
          entries s.n fun j => (s.ring j).mapping := entries_congr fun j _ => (hfields j).2.2
    simp only
    rw [← hentries]
    rfl
  refine ⟨⟨?_, honce, fun id hid => List.mem_append_left _ (hdone id hid), ?_, hdistinct⟩, hsize, htail,
    ?_, ?_, hnumbered, hfresh⟩
  · rw [hskbs]
    exact hperm
  · rw [hmaps]
    exact hmap
  · intro hup j hj id hid
    simp only at hid ⊢
    rw [(hfields j).1] at hid
    rw [(hfields j).2.1]
    exact hused hup j hj id hid
  · intro hup j hj id hid hcompleted
    simp only at hid hcompleted ⊢
    rw [(hfields j).1] at hid
    by_cases hji : j = i
    · -- the packet's last descriptor is completed
      rw [hji] at hid
      rw [hid]
      exact List.mem_append_right _ (List.mem_singleton_self id)
    · rw [modDesc_ne hji] at hcompleted
      exact List.mem_append_left _ (hmarked hup j hj id hid hcompleted)

theorem modDesc_ring (i j : ℕ) (f : Desc → Desc) :
    (s.modDesc i f).ring j = if j = i then f (s.ring i) else s.ring j := by
  by_cases hj : j = i
  · rw [if_pos hj, hj]
    exact modDesc_self
  · rw [if_neg hj]
    exact modDesc_ne hj

/-- **A descriptor is cleaned**: its mapping is undone and its packet freed. -/
theorem clean_balanced (hs : Balanced s) (hup : s.up = true) {i : ℕ} (hi : i < s.n) {d : Desc}
    (hcontrol : d.control = 0) (hskb : d.skb = none) {r : TxBuf} {consumed dropped : List ℕ}
    (hring : ∀ j, r.ring j = if j = i then d else s.ring j)
    (hunmapped : r.unmapped = s.unmapped ++ (s.ring i).mapping.toList)
    (hconsumed : r.consumed = s.consumed ++ consumed) (hdropped : r.dropped = s.dropped ++ dropped)
    (hfreed : consumed ++ dropped = (s.ring i).skb.toList) (hdone : ∀ id ∈ consumed, id ∈ s.sent)
    (hn : r.n = s.n) (htail : r.tail = s.tail) (hup' : r.up = s.up) (hmapped : r.mapped = s.mapped)
    (haccepted : r.accepted = s.accepted) (hsent : r.sent = s.sent) (hcalls : r.calls = s.calls)
    (haddrs : r.addrs = s.addrs) : Balanced r := by
  obtain ⟨⟨hperm, honce, hsend, hmap, hdistinct⟩, hsize, htail', hused, hmarked, hnumbered, hfresh⟩ := hs
  have hself : r.ring i = d := by rw [hring, if_pos rfl]
  have hother : ∀ j, j ≠ i → r.ring j = s.ring j := by
    intro j hj
    rw [hring, if_neg hj]
  -- the packet and the mapping of the descriptor leave the ring
  have hskbs : s.ringSkbs.Perm ((s.ring i).skb.toList ++ r.ringSkbs) := by
    rw [ringSkbs_up hup, ringSkbs_up (hup'.trans hup), hn]
    apply entries_clear hi
    · rw [hself]
      exact hskb
    · intro j hj
      rw [hother j hj]
  have hmaps : s.ringMaps.Perm ((s.ring i).mapping.toList ++ r.ringMaps) := by
    rw [ringMaps_up hup, ringMaps_up (hup'.trans hup), hn]
    apply entries_clear hi
    · rw [hself]
      unfold Desc.mapping
      rw [if_pos hcontrol]
    · intro j hj
      rw [hother j hj]
  refine ⟨⟨?_, ?_, ?_, ?_, ?_⟩, ?_, ?_, ?_, ?_, ?_, ?_⟩
  · rw [haccepted, hconsumed, hdropped]
    rw [← hfreed] at hskbs
    exact books_leave hperm hskbs (two_places _ _ _ _)
  · rw [haccepted]
    exact honce
  · rw [hconsumed, hsent]
    intro id hid
    rcases List.mem_append.1 hid with hold | hnew
    · exact hsend id hold
    · exact hdone id hnew
  · rw [hmapped, hunmapped]
    exact books_leave hmap hmaps (List.Perm.refl _)
  · rw [hmapped]
    exact hdistinct
  · rw [hn]
    exact hsize
  · rw [hn, htail]
    exact htail'
  · intro _ j hj id hid
    rw [hn] at hj
    by_cases hji : j = i
    · rw [hji, hself, hskb] at hid
      exact absurd hid (by simp)
    · rw [hother j hji] at hid ⊢
      exact hused hup j hj id hid
  · intro _ j hj id hid hcompleted
    rw [hn] at hj
    rw [hsent]
    by_cases hji : j = i
    · rw [hji, hself, hskb] at hid
      exact absurd hid (by simp)
    · rw [hother j hji] at hid hcompleted
      exact hmarked hup j hj id hid hcompleted
  · rw [haccepted, hcalls]
    exact hnumbered
  · rw [hmapped, haddrs]
    exact hfresh

/-- **`tsemac_tx_poll`** cleans descriptors that are sent. -/
theorem freeTxChain_balanced (k first : ℕ) (hs : Balanced s) (hup : s.up = true) :
    Balanced (TxBuf.freeTxChain false k first s) := by
  induction k generalizing first s with
  | zero => exact hs
  | succ k ih =>
    unfold TxBuf.freeTxChain
    simp only
    split
    · exact hs
    · rename_i hnot
      have hdone : (s.ring (first % s.n)).done = true := by simpa using hnot
      have hnum : first % s.n < s.n := Nat.mod_lt _ (Nat.lt_of_lt_of_le (Nat.succ_pos 1) hs.size)
      have hbits : (s.ring (first % s.n)).completed = true ∧ (s.ring (first % s.n)).control ≠ 0 := by
        have hboth := hdone
        unfold Desc.done at hboth
        simpa using hboth
      apply ih (first + 1)
      · have hring := fun j => modDesc_ring (s := s) (first % s.n) j fun d =>
          { d with completed := true, control := 0, skb := none }
        refine clean_balanced (d := { s.ring (first % s.n) with completed := true, control := 0, skb := none })
          hs hup hnum rfl rfl hring ?_ (if_pos hdone) (List.append_nil _).symm ?_ ?_ rfl rfl rfl rfl rfl
          rfl rfl rfl
        · unfold Desc.mapping
          rw [if_neg hbits.2]
          rfl
        · exact List.append_nil _
        · intro id hid
          exact hs.marked hup _ hnum id (Option.mem_toList.1 hid) hbits.1
      · exact hup

/-- **`tsemac_dma_err_handler`** cleans every descriptor, when it can tell which are in use. -/
theorem errLoop_balanced (k i : ℕ) (hs : Balanced s) (hup : s.up = true) (hk : i + k = s.n)
    (hbytes : ∀ j, i ≤ j → j < s.n → (s.ring j).control ≠ 0 →
      (s.ring j).control &&& DMASG_DESCRIPTOR_CONTROL_BYTES ≠ 0) :
    Balanced (TxBuf.errLoop k i s) ∧ (TxBuf.errLoop k i s).n = s.n := by
  induction k generalizing i s with
  | zero => exact ⟨hs, rfl⟩
  | succ k ih =>
    unfold TxBuf.errLoop
    simp only
    have hi : i < s.n := by omega
    apply ih (i + 1)
    · have hring := fun j => modDesc_ring (s := s) i j fun _ => ⟨false, 0, 0, 0, none⟩
      refine clean_balanced (d := ⟨false, 0, 0, 0, none⟩) hs hup hi rfl rfl hring ?_
        (List.append_nil _).symm rfl (List.nil_append _) ?_ rfl rfl rfl rfl rfl rfl rfl rfl
      · simp only
        unfold Desc.mapping
        by_cases hcontrol : (s.ring i).control = 0
        · rw [hcontrol]
          simp
        · rw [if_neg hcontrol, if_pos (hbytes i (Nat.le_refl i) hi hcontrol)]
          rfl
      · intro id hid
        exact absurd hid List.not_mem_nil
    · exact hup
    · exact show i + 1 + k = s.n by omega
    · intro j hj hj' hcontrol
      have hsame : (s.modDesc i fun _ => (⟨false, 0, 0, 0, none⟩ : Desc)).ring j = s.ring j :=
        modDesc_ne (by omega)
      simp only at hcontrol ⊢
      rw [hsame] at hcontrol ⊢
      exact hbytes j (by omega) hj' hcontrol

/-! ## Transmitting -/

/-- What a call of `tsemac_start_xmit` leaves alone once it has accepted a packet. -/
structure Underway (s r : TxBuf) : Prop where
  n : r.n = s.n
  tail : r.tail = s.tail
  up : r.up = s.up
  unmapped : r.unmapped = s.unmapped
  accepted : r.accepted = s.accepted
  consumed : r.consumed = s.consumed
  dropped : r.dropped = s.dropped
  sent : r.sent = s.sent
  calls : r.calls = s.calls

/-- `r` is `s` with the fragments mapped and in the slots after that of position `first`. -/
structure Fragged (s : TxBuf) (first : ℕ) (frags : List ℕ) (r : TxBuf) : Prop where
  frame : Underway s r
  addrs : r.addrs = s.addrs + frags.length
  mapped : r.mapped = s.mapped ++ (List.range frags.length).map fun k => (s.addrs + k, frags.getD k 0)
  slot : ∀ k < frags.length, r.ring ((first + 1 + k) % s.n) =
    { s.ring ((first + 1 + k) % s.n) with
      src := s.addrs + k, control := controlBytes (frags.getD k 0), completed := false }
  other : ∀ i, (∀ k < frags.length, i ≠ (first + 1 + k) % s.n) → r.ring i = s.ring i

/-- **The fragments** go into the slots after the first. -/
theorem xmitFrags_fragged (orig : ℕ) (maps : ℕ → Bool) (frags : List ℕ) (ii first : ℕ) (hn : 0 < s.n)
    (hroom : frags.length ≤ s.n) (hmaps : ∀ k < frags.length, maps (ii + k) = true) :
    ∃ r, TxBuf.xmitFrags orig maps frags ii (first % s.n) s = (r, some ((first + frags.length) % s.n)) ∧
      Fragged s first frags r := by
  induction frags generalizing s ii first with
  | nil =>
    refine ⟨s, rfl, ⟨rfl, rfl, rfl, rfl, rfl, rfl, rfl, rfl, rfl⟩, rfl, ?_, ?_, fun _ _ => rfl⟩
    · simp
    · intro k hk
      exact absurd hk (Nat.not_lt_zero k)
  | cons len rest ih =>
    have hlength : (len :: rest).length = rest.length + 1 := rfl
    have hwrap : s.wrap (first % s.n) = (first + 1) % s.n := Ring.wrap_succ hn first
    have hring := fun j => modDesc_ring (s := s) ((first + 1) % s.n) j fun d =>
      { d with src := s.addrs, control := controlBytes len, completed := false }
    -- the rest starts from the state with the first fragment in its slot
    obtain ⟨r, hrun, hframe, haddrs, hmapped, hslot, hother⟩ := ih
      (s := { s.modDesc ((first + 1) % s.n) fun d =>
          { d with src := s.addrs, control := controlBytes len, completed := false } with
        addrs := s.addrs + 1, mapped := s.mapped ++ [(s.addrs, len)] })
      (ii + 1) (first + 1) hn (by simp only [TxBuf.modDesc]; omega) (by
        intro k hk
        rw [show ii + 1 + k = ii + (k + 1) by omega]
        exact hmaps (k + 1) (by omega))
    have hfar : ∀ k < rest.length, (first + 1) % s.n ≠ (first + 1 + 1 + k) % s.n := by
      intro k hk
      exact Ring.slot_ne (a := first + 1) (Nat.le_refl _) (by omega) (by omega) (by omega) (by omega)
    refine ⟨r, ?_, ⟨hframe.n, hframe.tail, hframe.up, hframe.unmapped, hframe.accepted, hframe.consumed,
      hframe.dropped, hframe.sent, hframe.calls⟩, ?_, ?_, ?_, ?_⟩
    · unfold TxBuf.xmitFrags
      simp only
      have hfirst := hmaps 0 (by omega)
      rw [Nat.add_zero] at hfirst
      rw [if_pos hfirst, hwrap]
      rw [hlength, show first + (rest.length + 1) = first + 1 + rest.length by omega]
      exact hrun
    · rw [haddrs, hlength]
      exact Nat.add_right_comm s.addrs 1 rest.length
    · rw [hmapped, hlength, List.range_succ_eq_map, List.map_cons, List.map_map, List.append_assoc]
      refine congrArg _ (congrArg _ ?_)
      apply List.map_congr_left
      intro k _
      simp only [Function.comp_apply, List.getD_cons_succ]
      rw [show s.addrs + 1 + k = s.addrs + (k + 1) by omega]
    · intro k hk
      rcases k with _ | k
      · rw [Nat.add_zero, hother _ hfar]
        exact (hring _).trans (if_pos rfl)
      · rw [show first + 1 + (k + 1) = first + 1 + 1 + k by omega]
        have hrest := hslot k (by omega)
        have hbefore := hring ((first + 1 + 1 + k) % s.n)
        rw [if_neg (hfar k (by omega)).symm] at hbefore
        refine hrest.trans ?_
        simp only
        have hsame : (s.modDesc ((first + 1) % s.n) fun d =>
            { d with src := s.addrs, control := controlBytes len, completed := false }).n = s.n := rfl
        rw [hsame, hbefore, List.getD_cons_succ, show s.addrs + 1 + k = s.addrs + (k + 1) by omega]
    · intro i hi
      have hbefore := hring i
      have hne := hi 0 (by omega)
      rw [Nat.add_zero] at hne
      rw [if_neg hne] at hbefore
      refine (hother i ?_).trans hbefore
      intro k hk
      have hk' := hi (k + 1) (by omega)
      rw [show first + 1 + (k + 1) = first + 1 + 1 + k by omega] at hk'
      exact hk'

theorem writeLinear_frame (s : TxBuf) (id headlen orig new : ℕ) :
    Underway s (s.writeLinear id headlen orig new) := by
  unfold TxBuf.writeLinear
  simp only
  split <;> exact ⟨rfl, rfl, rfl, rfl, rfl, rfl, rfl, rfl, rfl⟩

/-- What the linear part makes of the ring, -/
theorem writeLinear_ring (s : TxBuf) (id headlen orig new i : ℕ) :
    ((s.writeLinear id headlen orig new).ring i).skb = (if i = new then some id else (s.ring i).skb) ∧
    ((s.writeLinear id headlen orig new).ring i).src = (if i = orig then s.addrs else (s.ring i).src) ∧
    ((s.writeLinear id headlen orig new).ring i).control =
      (if i = new then
        (if i = orig then controlBytes headlen else (s.ring i).control) |||
          DMASG_DESCRIPTOR_CONTROL_END_OF_PACKET
      else if i = orig then controlBytes headlen else (s.ring i).control) ∧
    ((s.writeLinear id headlen orig new).ring i).completed =
      (if i = orig then false else (s.ring i).completed) := by
  unfold TxBuf.writeLinear
  by_cases hsame : orig = new
  · subst hsame
    by_cases hi : i = orig
    · subst hi
      simp [modDesc_ring]
    · simp [modDesc_ring, hi]
  · by_cases hi : i = orig
    · subst hi
      simp [modDesc_ring, hsame]
    · by_cases hi' : i = new
      · subst hi'
        simp [modDesc_ring, hi, hsame]
      · simp [modDesc_ring, hi, hi', hsame]

/-- and the new tail of its status. -/
theorem xmitLinear_ring (s : TxBuf) (id headlen orig new i : ℕ) :
    (s.xmitLinear id headlen orig new).ring i =
      if i = s.wrap new then { (s.writeLinear id headlen orig new).ring i with completed := true }
      else (s.writeLinear id headlen orig new).ring i := by
  have hring := modDesc_ring (s := s.writeLinear id headlen orig new) (s.wrap new) i fun d =>
    { d with completed := true }
  by_cases hi : i = s.wrap new
  · rw [if_pos hi] at hring ⊢
    rw [← hi] at hring
    unfold TxBuf.xmitLinear
    simp only
    rw [← hi]
    exact hring
  · rw [if_neg hi] at hring ⊢
    exact hring

/-- The address of piece `k` of a packet of `m` fragments, which are mapped first. -/
def pieceAddr (addrs m k : ℕ) : ℕ := if k = 0 then addrs + m else addrs + (k - 1)

/-- **The ring after a packet**: its pieces are in the slots from the tail on, and the packet in the
last. -/
structure Loaded (s : TxBuf) (headlen : ℕ) (frags : List ℕ) (id : ℕ) (r : TxBuf) : Prop where
  pieces : ∀ k < frags.length + 1, (r.ring ((s.tail + k) % s.n)).mapping =
    some (pieceAddr s.addrs frags.length k, (headlen :: frags).getD k 0)
  others : ∀ i, (∀ k < frags.length + 1, i ≠ (s.tail + k) % s.n) →
    (r.ring i).mapping = (s.ring i).mapping ∧ (r.ring i).control = (s.ring i).control
  skb : ∀ i, (r.ring i).skb = if i = (s.tail + frags.length) % s.n then some id else (s.ring i).skb
  completed : ∀ i, (r.ring i).completed = true → i = (s.tail + frags.length + 1) % s.n ∨
    i ≠ (s.tail + frags.length) % s.n ∧ (s.ring i).completed = true

/-- The pieces of a good packet have lengths that a control word holds. -/
theorem GoodPieces.length {headlen : ℕ} {frags : List ℕ} (hgood : GoodPieces headlen frags) {k : ℕ}
    (hk : k < frags.length + 1) : 1 ≤ (headlen :: frags).getD k 0 ∧ (headlen :: frags).getD k 0 ≤ 2 ^ 27 := by
  rw [List.getD_eq_getElem _ _ (by simpa using hk)]
  exact hgood.lengths _ (List.getElem_mem _)

/-- The control word of a piece before the last is not that of a free descriptor. -/
theorem GoodPieces.control {headlen : ℕ} {frags : List ℕ} (hgood : GoodPieces headlen frags) {k : ℕ}
    (hk : k < frags.length) : controlBytes ((headlen :: frags).getD k 0) ≠ 0 := by
  have hlen := hgood.length (k := k) (by omega)
  have hne : (headlen :: frags).getD k 0 ≠ 1 := by
    rw [List.getD_eq_getElem _ _ (by simp; omega)]
    apply hgood.small
    rw [List.dropLast_eq_take, List.mem_take_iff_getElem]
    exact ⟨k, by simp; omega, rfl⟩
  intro hzero
  have hone := (controlBytes_eq_zero _).1 hzero
  omega

/-- The last write changes the status of the new tail only. -/
theorem xmitLinear_keeps (r : TxBuf) (id headlen orig new i : ℕ) :
    ((r.xmitLinear id headlen orig new).ring i).skb = ((r.writeLinear id headlen orig new).ring i).skb ∧
    ((r.xmitLinear id headlen orig new).ring i).src = ((r.writeLinear id headlen orig new).ring i).src ∧
    ((r.xmitLinear id headlen orig new).ring i).control = ((r.writeLinear id headlen orig new).ring i).control := by
  rw [xmitLinear_ring]
  split <;> exact ⟨rfl, rfl, rfl⟩

/-- What the slot of each piece holds before the end of the packet is marked. -/
theorem Fragged.piece {frags : List ℕ} {r : TxBuf} (hr : Fragged s s.tail frags r) (headlen : ℕ)
    (htail : s.tail < s.n) (hroom : frags.length + 1 ≤ s.n) {k : ℕ} (hk : k < frags.length + 1) :
    (if (s.tail + k) % s.n = s.tail then r.addrs else (r.ring ((s.tail + k) % s.n)).src) =
      pieceAddr s.addrs frags.length k ∧
    (if (s.tail + k) % s.n = s.tail then controlBytes headlen
      else (r.ring ((s.tail + k) % s.n)).control) = controlBytes ((headlen :: frags).getD k 0) := by
  have htail' : s.tail % s.n = s.tail := Nat.mod_eq_of_lt htail
  rcases k with _ | k
  · rw [Nat.add_zero, if_pos htail', if_pos htail', hr.addrs]
    exact ⟨rfl, rfl⟩
  · have hne : (s.tail + (k + 1)) % s.n ≠ s.tail := by
      intro heq
      have hzero := Ring.offset_inj (a := s.tail) hroom (k + 1) hk 0 (by omega) (by rw [heq, Nat.add_zero, htail'])
      omega
    rw [if_neg hne, if_neg hne, show s.tail + (k + 1) = s.tail + 1 + k by omega, hr.slot k (by omega)]
    exact ⟨rfl, rfl⟩

theorem xmit_loaded (htail : s.tail < s.n) {headlen : ℕ} {frags : List ℕ} (hroom : frags.length + 1 ≤ s.n)
    (hgood : GoodPieces headlen frags) {r : TxBuf} (hr : Fragged s s.tail frags r) (id : ℕ) :
    Loaded s headlen frags id (r.xmitLinear id headlen s.tail ((s.tail + frags.length) % s.n)) := by
  have hpos : 0 < s.n := by omega
  have htail' : s.tail % s.n = s.tail := Nat.mod_eq_of_lt htail
  have hslots := Ring.offset_inj (a := s.tail) hroom
  have hwrap : r.wrap ((s.tail + frags.length) % s.n) = (s.tail + frags.length + 1) % s.n := by
    unfold TxBuf.wrap
    rw [hr.frame.n]
    exact Ring.wrap_succ hpos _
  have hfields := xmitLinear_keeps r id headlen s.tail ((s.tail + frags.length) % s.n)
  refine ⟨?_, ?_, ?_, ?_⟩
  · intro k hk
    obtain ⟨-, hsrc, hctl⟩ := hfields ((s.tail + k) % s.n)
    obtain ⟨-, hsrc', hctl', -⟩ := writeLinear_ring r id headlen s.tail ((s.tail + frags.length) % s.n)
      ((s.tail + k) % s.n)
    obtain ⟨haddr, hbytes⟩ := hr.piece headlen htail hroom hk
    rw [haddr] at hsrc'
    rw [hbytes] at hctl'
    unfold Desc.mapping
    rw [hsrc.trans hsrc', hctl.trans hctl']
    by_cases hlast : k = frags.length
    · subst hlast
      rw [if_pos rfl, if_neg (endOfPacket_ne _), and_endOfPacket, length_controlBytes (hgood.length hk)]
    · have hne : (s.tail + k) % s.n ≠ (s.tail + frags.length) % s.n := by
        intro heq
        exact hlast (hslots k hk frags.length (by omega) heq)
      rw [if_neg hne, if_neg (hgood.control (k := k) (by omega)), length_controlBytes (hgood.length hk)]
  · intro i hi
    obtain ⟨-, hsrc, hctl⟩ := hfields i
    obtain ⟨-, hsrc', hctl', -⟩ := writeLinear_ring r id headlen s.tail ((s.tail + frags.length) % s.n) i
    have horig : i ≠ s.tail := by
      have hfirst := hi 0 (by omega)
      rw [Nat.add_zero, htail'] at hfirst
      exact hfirst
    have hnew := hi frags.length (by omega)
    rw [if_neg horig] at hsrc'
    rw [if_neg hnew, if_neg horig] at hctl'
    have hsame : r.ring i = s.ring i := by
      apply hr.other
      intro k hk
      have hslot := hi (k + 1) (by omega)
      rw [show s.tail + (k + 1) = s.tail + 1 + k by omega] at hslot
      exact hslot
    unfold Desc.mapping
    rw [hsrc.trans hsrc', hctl.trans hctl', hsame]
    exact ⟨rfl, rfl⟩
  · intro i
    obtain ⟨hskb, -⟩ := hfields i
    obtain ⟨hskb', -⟩ := writeLinear_ring r id headlen s.tail ((s.tail + frags.length) % s.n) i
    have hold : (r.ring i).skb = (s.ring i).skb := by
      by_cases hslot : ∃ k < frags.length, i = (s.tail + 1 + k) % s.n
      · obtain ⟨k, hk, rfl⟩ := hslot
        rw [hr.slot k hk]
      · rw [hr.other i fun k hk heq => hslot ⟨k, hk, heq⟩]
    rw [hskb, hskb', hold]
  · intro i hi
    rw [xmitLinear_ring, hwrap] at hi
    by_cases hmark : i = (s.tail + frags.length + 1) % s.n
    · exact Or.inl hmark
    · rw [if_neg hmark] at hi
      obtain ⟨-, -, -, hcompleted⟩ :=
        writeLinear_ring r id headlen s.tail ((s.tail + frags.length) % s.n) i
      rw [hcompleted] at hi
      by_cases horig : i = s.tail
      · rw [if_pos horig] at hi
        exact absurd hi (by simp)
      · rw [if_neg horig] at hi
        by_cases hslot : ∃ k < frags.length, i = (s.tail + 1 + k) % s.n
        · obtain ⟨k, hk, rfl⟩ := hslot
          rw [hr.slot k hk] at hi
          exact absurd hi (by simp)
        · rw [hr.other i fun k hk heq => hslot ⟨k, hk, heq⟩] at hi
          refine Or.inr ⟨?_, hi⟩
          intro hnew
          -- the last piece is one of them
          rcases hm : frags.length with _ | m
          · rw [hm, Nat.add_zero, htail'] at hnew
            exact horig hnew
          · rw [hm] at hnew hslot
            exact hslot ⟨m, Nat.lt_succ_self m, by rw [hnew, show s.tail + (m + 1) = s.tail + 1 + m by omega]⟩

/-- The mappings that a packet makes are those of its pieces. -/
theorem pieces_perm (addrs headlen : ℕ) (frags : List ℕ) :
    ((List.range frags.length).map (fun k => (addrs + k, frags.getD k 0)) ++
        [(addrs + frags.length, headlen)]).Perm
      ((List.range (frags.length + 1)).map fun k =>
        (pieceAddr addrs frags.length k, (headlen :: frags).getD k 0)) := by
  rw [List.range_succ_eq_map, List.map_cons, List.map_map]
  exact List.perm_append_singleton _ _

/-- They are at the next addresses. -/
theorem pieces_addrs (addrs headlen : ℕ) (frags : List ℕ) :
    ((List.range frags.length).map (fun k => (addrs + k, frags.getD k 0)) ++
      [(addrs + frags.length, headlen)]).map Prod.fst = List.range' addrs (frags.length + 1) := by
  rw [List.map_append, List.map_map, List.range'_1_concat, List.range'_eq_map_range]
  rfl

/-- Mappings at the next addresses are apart from those there are. -/
theorem addrs_gain {mapped new : List (ℕ × ℕ)} {addrs k : ℕ} (hnew : new.map Prod.fst = List.range' addrs k)
    (hdistinct : (mapped.map Prod.fst).Nodup) (hfresh : ∀ m ∈ mapped, m.1 < addrs) :
    ((mapped ++ new).map Prod.fst).Nodup ∧ ∀ m ∈ mapped ++ new, m.1 < addrs + k := by
  have hrange : ∀ m ∈ new, addrs ≤ m.1 ∧ m.1 < addrs + k := by
    intro m hm
    exact List.mem_range'_1.1 (hnew ▸ List.mem_map_of_mem hm)
  constructor
  · rw [List.map_append, hnew, List.nodup_append]
    refine ⟨hdistinct, List.nodup_range', ?_⟩
    intro a ha b hb
    obtain ⟨m, hm, rfl⟩ := List.mem_map.1 ha
    have hold := hfresh m hm
    have hnext := List.mem_range'_1.1 hb
    omega
  · intro m hm
    rcases List.mem_append.1 hm with hold | hnewmap
    · have hlt := hfresh m hold
      omega
    · exact (hrange m hnewmap).2

/-- So is the number of the next packet. -/
theorem numbers_gain {accepted : List ℕ} {calls : ℕ} (honce : accepted.Nodup)
    (hnumbered : ∀ id ∈ accepted, id < calls) :
    (accepted ++ [calls]).Nodup ∧ ∀ id ∈ accepted ++ [calls], id < calls + 1 := by
  constructor
  · rw [List.nodup_append]
    refine ⟨honce, List.nodup_singleton _, ?_⟩
    intro a ha b hb
    rw [List.mem_singleton.1 hb]
    exact Nat.ne_of_lt (hnumbered a ha)
  · intro id hid
    rcases List.mem_append.1 hid with hold | hlast
    · exact Nat.lt_succ_of_lt (hnumbered id hold)
    · rw [List.mem_singleton.1 hlast]
      exact Nat.lt_succ_self _

/-- The packets in the ring are still in use, -/
theorem used_of_loaded (hs : Balanced s) (hup : s.up = true) {headlen : ℕ} {frags : List ℕ}
    (hvacant : Vacant s frags.length) {r : TxBuf} (hloaded : Loaded s headlen frags s.calls r) {i id : ℕ} (hi : i < s.n)
    (hid : (r.ring i).skb = some id) : (r.ring i).control ≠ 0 := by
  rw [hloaded.skb] at hid
  by_cases hlastslot : i = (s.tail + frags.length) % s.n
  · intro hzero
    have hpiece := hloaded.pieces frags.length (Nat.lt_succ_self _)
    unfold Desc.mapping at hpiece
    rw [← hlastslot, if_pos hzero] at hpiece
    exact absurd hpiece (by simp)
  · rw [if_neg hlastslot] at hid
    have hcontrol := hs.used hup i hi id hid
    have hout : ∀ k < frags.length + 1, i ≠ (s.tail + k) % s.n := by
      rintro k hk rfl
      exact hcontrol (hvacant.free k hk)
    rw [(hloaded.others i hout).2]
    exact hcontrol

/-- and marked as completed only when they were sent. -/
theorem marked_of_loaded (hs : Balanced s) (hup : s.up = true) {headlen : ℕ} {frags : List ℕ}
    (hvacant : Vacant s frags.length) {r : TxBuf} (hloaded : Loaded s headlen frags s.calls r) {i id : ℕ} (hi : i < s.n)
    (hid : (r.ring i).skb = some id) (hcompleted : (r.ring i).completed = true) : id ∈ s.sent := by
  have hsize := hs.size
  have hroom := hvacant.room
  rw [hloaded.skb] at hid
  rcases hloaded.completed i hcompleted with hmark | ⟨hne, hold⟩
  · -- the end is not marked on a packet
    have hne : (s.tail + frags.length + 1) % s.n ≠ (s.tail + frags.length) % s.n :=
      Ring.slot_ne (a := s.tail + frags.length) (by omega) (by omega) (Nat.le_refl _) (by omega) (by omega)
    rw [hmark, if_neg hne, hvacant.next] at hid
    exact absurd hid (by simp)
  · rw [if_neg hne] at hid
    exact hs.marked hup i hi id hid hold

/-- **The packet and its mappings** are added to the ring. -/
theorem balanced_of_loaded (hs : Balanced s) (hup : s.up = true) {headlen : ℕ} {frags : List ℕ}
    (hvacant : Vacant s frags.length) {r : TxBuf} (hloaded : Loaded s headlen frags s.calls r)
    (hn : r.n = s.n) (htail : r.tail < s.n) (hup' : r.up = s.up) (hunmapped : r.unmapped = s.unmapped)
    (haccepted : r.accepted = s.accepted ++ [s.calls]) (hconsumed : r.consumed = s.consumed)
    (hdropped : r.dropped = s.dropped) (hsent : r.sent = s.sent) (hcalls : r.calls = s.calls + 1)
    (haddrs : r.addrs = s.addrs + frags.length + 1)
    (hmapped : r.mapped = s.mapped ++ ((List.range frags.length).map (fun k =>
      (s.addrs + k, frags.getD k 0)) ++ [(s.addrs + frags.length, headlen)])) : Balanced r := by
  have hsize := hs.size
  have hpos : 0 < s.n := by omega
  have hlast : (s.tail + frags.length) % s.n < s.n := Nat.mod_lt _ hpos
  have hslots := Ring.offset_inj (a := s.tail) hvacant.room
  -- the slots of the packet were not in use
  have hnoskb : ∀ k < frags.length + 1, (s.ring ((s.tail + k) % s.n)).skb = none := by
    intro k hk
    rcases hskb : (s.ring ((s.tail + k) % s.n)).skb with _ | id
    · rfl
    · exact absurd (hvacant.free k hk) (hs.used hup _ (Nat.mod_lt _ hpos) id hskb)
  have hskbs : r.ringSkbs.Perm (s.calls :: s.ringSkbs) := by
    rw [ringSkbs_up hup, ringSkbs_up (hup'.trans hup), hn]
    apply entries_take hlast
    · rw [hloaded.skb, if_pos rfl]
    · exact hnoskb frags.length (Nat.lt_succ_self _)
    · intro j hj
      rw [hloaded.skb, if_neg hj]
  have hmaps : r.ringMaps.Perm ((List.range (frags.length + 1)).map (fun k =>
      (pieceAddr s.addrs frags.length k, (headlen :: frags).getD k 0)) ++ s.ringMaps) := by
    rw [ringMaps_up hup, ringMaps_up (hup'.trans hup), hn]
    refine entries_put (σ := fun k => (s.tail + k) % s.n) (fun k _ => Nat.mod_lt _ hpos) hslots
      ?_ hloaded.pieces fun i hi => (hloaded.others i hi).1
    intro k hk
    unfold Desc.mapping
    rw [if_pos (hvacant.free k hk)]
  obtain ⟨honce, hnumbered⟩ := numbers_gain hs.kept.once hs.numbered
  obtain ⟨hdistinct, hfresh⟩ := addrs_gain (pieces_addrs s.addrs headlen frags) hs.kept.distinct hs.fresh
  rw [← haccepted] at honce hnumbered
  rw [← hmapped] at hdistinct hfresh
  refine ⟨⟨?_, honce, ?_, ?_, hdistinct⟩, ?_, ?_, ?_, ?_, ?_, ?_⟩
  · rw [haccepted, hconsumed, hdropped]
    exact books_gain hs.kept.skbs hskbs
  · rw [hconsumed, hsent]
    exact hs.kept.sent
  · rw [hmapped, hunmapped]
    exact books_gain hs.kept.maps (hmaps.trans ((pieces_perm s.addrs headlen frags).symm.append_right _))
  · rw [hn]
    exact hsize
  · rw [hn]
    exact htail
  · intro _ i hi id hid
    rw [hn] at hi
    exact used_of_loaded hs hup hvacant hloaded hi hid
  · intro _ i hi id hid hcompleted
    rw [hn] at hi
    rw [hsent]
    exact marked_of_loaded hs hup hvacant hloaded hi hid hcompleted
  · rw [hcalls]
    exact hnumbered
  · rw [haddrs]
    exact hfresh

/-- The call for a packet that fits and is mapped: the fragments first, and then the linear part. -/
theorem loaded_of_startXmit (htail : s.tail < s.n) {headlen : ℕ} {frags : List ℕ} {maps : ℕ → Bool}
    (hroom : frags.length + 1 ≤ s.n) (hgood : GoodPieces headlen frags)
    (hmaps : ∀ ii < frags.length + 1, maps ii = true) (hspace : s.checkTxBdSpace (frags.length + 1) = false)
    (hcall : s.startXmit headlen frags maps = some s') :
    ∃ r, Fragged { s with calls := s.calls + 1, accepted := s.accepted ++ [s.calls] } s.tail frags r ∧
      s' = r.xmitLinear s.calls headlen s.tail ((s.tail + frags.length) % s.n) ∧
      Loaded s headlen frags s.calls s' := by
  have hpos : 0 < s.n := by omega
  have htail' : s.tail % s.n = s.tail := Nat.mod_eq_of_lt htail
  unfold TxBuf.startXmit at hcall
  split at hcall
  · simp only at hcall
    split at hcall
    · rename_i hfull
      exact absurd (hspace.symm.trans hfull) (by simp)
    · obtain ⟨r, hrun, hfragged⟩ := xmitFrags_fragged
        (s := { s with calls := s.calls + 1, accepted := s.accepted ++ [s.calls] }) s.tail maps frags 0 s.tail hpos
        (show frags.length ≤ s.n by omega) (by
          intro k hk
          rw [Nat.zero_add]
          exact hmaps k (by omega))
      simp only [htail'] at hrun
      rw [hrun] at hcall
      simp only at hcall
      rw [if_pos (hmaps frags.length (Nat.lt_succ_self _))] at hcall
      obtain rfl := Option.some.inj hcall
      have hloaded := xmit_loaded
        (s := { s with calls := s.calls + 1, accepted := s.accepted ++ [s.calls] }) htail hroom hgood
        hfragged s.calls
      exact ⟨r, hfragged, rfl, hloaded.pieces, hloaded.others, hloaded.skb, hloaded.completed⟩
  · exact absurd hcall (by simp)

/-- The tail moves past the pieces. -/
theorem xmitLinear_tail (hn : 0 < s.n) (id headlen orig p : ℕ) :
    (s.xmitLinear id headlen orig (p % s.n)).tail = (p + 1) % s.n := Ring.wrap_succ hn p

/-- A call that finds no room only counts. -/
theorem busy_of_startXmit {headlen : ℕ} {frags : List ℕ} {maps : ℕ → Bool}
    (hspace : s.checkTxBdSpace (frags.length + 1) = true)
    (hcall : s.startXmit headlen frags maps = some s') : s' = { s with calls := s.calls + 1 } := by
  unfold TxBuf.startXmit at hcall
  split at hcall
  · simp only at hcall
    split at hcall
    · exact (Option.some.inj hcall).symm
    · rename_i hfull
      exact absurd hspace hfull
  · exact absurd hcall (by simp)

/-- **A packet that fits and is mapped** is sent on its way. -/
theorem startXmit_balanced (hs : Balanced s) (hup : s.up = true) {headlen : ℕ} {frags : List ℕ}
    {maps : ℕ → Bool} (hg : s.checkTxBdSpace (frags.length + 1) = false →
      Vacant s frags.length ∧ GoodPieces headlen frags ∧ ∀ ii < frags.length + 1, maps ii = true)
    (hstep : s.startXmit headlen frags maps = some s') : Balanced s' := by
  have hpos : 0 < s.n := Nat.lt_of_lt_of_le (Nat.succ_pos 1) hs.size
  rcases hspace : s.checkTxBdSpace (frags.length + 1) with _ | _
  · obtain ⟨hvacant, hgood, hmaps⟩ := hg hspace
    have hroom := hvacant.room
    obtain ⟨r, hfragged, rfl, hloaded⟩ :=
      loaded_of_startXmit hs.tail hroom hgood hmaps hspace hstep
    have hframe := hfragged.frame
    have hn : r.n = s.n := hframe.n
    have hwrite := writeLinear_frame r s.calls headlen s.tail ((s.tail + frags.length) % s.n)
    refine balanced_of_loaded hs hup hvacant hloaded (hwrite.n.trans hframe.n) ?_ (hwrite.up.trans hframe.up)
      (hwrite.unmapped.trans hframe.unmapped) (hwrite.accepted.trans hframe.accepted)
      (hwrite.consumed.trans hframe.consumed) (hwrite.dropped.trans hframe.dropped)
      (hwrite.sent.trans hframe.sent) (hwrite.calls.trans hframe.calls) ?_ ?_
    · rw [← hn, xmitLinear_tail (by omega)]
      exact Nat.mod_lt _ (by omega)
    · have haddrs : r.addrs = s.addrs + frags.length := hfragged.addrs
      exact congrArg (· + 1) haddrs
    · have hmapped : r.mapped = s.mapped ++ (List.range frags.length).map fun k =>
          (s.addrs + k, frags.getD k 0) := hfragged.mapped
      have haddrs : r.addrs = s.addrs + frags.length := hfragged.addrs
      have hall : r.mapped ++ [(r.addrs, headlen)] = s.mapped ++ ((List.range frags.length).map (fun k =>
          (s.addrs + k, frags.getD k 0)) ++ [(s.addrs + frags.length, headlen)]) := by
        rw [hmapped, haddrs, List.append_assoc]
      exact hall
  · obtain rfl := busy_of_startXmit hspace hstep
    obtain ⟨⟨hperm, honce, hsend, hmap, hdistinct⟩, hsize, htail, hused, hmarked, hnumbered, hfresh⟩ := hs
    exact ⟨⟨hperm, honce, hsend, hmap, hdistinct⟩, hsize, htail, hused, hmarked,
      fun id hid => Nat.lt_succ_of_lt (hnumbered id hid), hfresh⟩

theorem txBuf_balanced {a : TxBufAct} (hs : Balanced s) (hg : Gentle s a)
    (hstep : txBufMachine.step s a = some s') : Balanced s' := by
  cases a with
  | open_ init rest => exact open_balanced hs hg hstep
  | startXmit headlen frags maps => exact startXmit_balanced hs hg.1 hg.2 hstep
  | txPoll budget =>
    obtain ⟨-, rfl⟩ := of_guard hstep
    exact freeTxChain_balanced budget s.ci hs hg
  | complete i => exact complete_balanced hs hstep
  | errHandler =>
    obtain ⟨-, rfl⟩ := of_guard hstep
    obtain ⟨hclean, hn⟩ := errLoop_balanced s.n 0 hs hg.1 (Nat.zero_add _) fun j _ => hg.2 j
    obtain ⟨⟨hperm, honce, hsend, hmap, hdistinct⟩, hsize, -, hused, hmarked, hnumbered, hfresh⟩ := hclean
    exact ⟨⟨hperm, honce, hsend, hmap, hdistinct⟩, hsize, Nat.lt_of_lt_of_le (Nat.succ_pos 1) hsize,
      hused, hmarked, hnumbered, hfresh⟩
  | stop => exact stop_balanced hs hg hstep

theorem probed_balanced {n : ℕ} (hn : AcceptedTx n) : Balanced (.probed n) := by
  obtain ⟨hmin, -⟩ := (acceptedTx_iff n).1 hn
  have hsize : 2 ≤ n := Nat.le_trans (by decide) hmin
  refine ⟨⟨List.Perm.refl _, List.nodup_nil, fun id hid => absurd hid List.not_mem_nil, List.Perm.refl _,
    List.nodup_nil⟩, hsize, Nat.lt_of_lt_of_le (Nat.succ_pos 1) hsize, fun hup => absurd hup (by simp [TxBuf.probed]),
    fun hup => absurd hup (by simp [TxBuf.probed]), fun id hid => absurd hid List.not_mem_nil,
    fun m hm => absurd hm List.not_mem_nil⟩

/-- **Packets are freed once, and mappings undone once and with their length**, in every run in which
packets find room and are mapped, and the ring is released empty. -/
theorem packets_kept {s : TxBuf} (hr : txBufMachine.Reach Gentle s) : PacketsKept s := by
  have hs : Balanced s := by
    refine hr.invariant ?_ fun _ _ _ h hg hstep => txBuf_balanced h hg hstep
    rintro _ ⟨n, hn, rfl⟩
    exact probed_balanced hn
  exact hs.kept

/-- Every mapping succeeds. -/
def mapsOk : ℕ → Bool := fun _ => true

/-- A packet of three pieces is sent, another one is dropped by the error handler. -/
def sentAndDropped : List TxBufAct :=
  [.open_ true true, .startXmit 60 [100, 1] mapsOk, .complete 0, .complete 1, .complete 2, .txPoll 64,
    .startXmit 42 [] mapsOk, .errHandler, .stop]

theorem packets_kept_two :
    ∃ s, txBufMachine.exec (.probed 18) sentAndDropped = some s ∧ s.accepted = [0, 1] ∧ s.consumed = [0] ∧
      s.dropped = [1] ∧ s.unmapped = [(2, 60), (0, 100), (1, 1), (3, 42)] ∧ PacketsKept s := by
  have hrun : (txBufMachine.exec (.probed 18) sentAndDropped).map
      (fun s => (s.accepted, s.consumed, s.dropped, s.unmapped)) =
        some ([0, 1], [0], [1], [(2, 60), (0, 100), (1, 1), (3, 42)]) := by decide +kernel
  obtain ⟨s, hexec, hfields⟩ := Option.map_eq_some_iff.1 hrun
  obtain ⟨haccepted, hrest⟩ := Prod.mk.inj hfields
  obtain ⟨hconsumed, hrest⟩ := Prod.mk.inj hrest
  obtain ⟨hdropped, hunmapped⟩ := Prod.mk.inj hrest
  have halong : txBufMachine.Along Gentle (.probed 18) sentAndDropped := by decide +kernel
  have hinit : txBufMachine.init (.probed 18) := ⟨18, (acceptedTx_iff 18).2 (by decide), rfl⟩
  exact ⟨s, hexec, haccepted, hconsumed, hdropped, hunmapped, packets_kept (.of_exec hinit halong hexec)⟩

/-- **A packet in flight** is neither freed nor unmapped when the interface is stopped. -/
theorem stop_leaks : ∃ s, txBufMachine.Reach (fun _ _ => True) s ∧ ¬PacketsKept s := by
  have hrun : (txBufMachine.exec (.probed 18) [.open_ true true, .startXmit 60 [] mapsOk, .stop]).map
      (fun s => (s.up, s.accepted, s.consumed, s.dropped)) = some (false, [0], [], []) := by decide +kernel
  obtain ⟨s, hexec, hfields⟩ := Option.map_eq_some_iff.1 hrun
  obtain ⟨hup, hrest⟩ := Prod.mk.inj hfields
  obtain ⟨haccepted, hrest⟩ := Prod.mk.inj hrest
  obtain ⟨hconsumed, hdropped⟩ := Prod.mk.inj hrest
  have hinit : txBufMachine.init (.probed 18) := ⟨18, (acceptedTx_iff 18).2 (by decide), rfl⟩
  refine ⟨s, .of_exec hinit (Machine.along_true _ _) hexec, ?_⟩
  intro hkept
  have hlength := hkept.skbs.length_eq
  unfold TxBuf.ringSkbs at hlength
  rw [haccepted, hconsumed, hdropped, hup] at hlength
  simp at hlength

end Br2Efinix.Tsemac
