import Mathlib.Data.List.Infix
import Mathlib.Data.List.Nodup
import Br2Efinix.Lib.Ring
import Br2Efinix.Tsemac.UBootRx

/-!
# Receiving in U-Boot

The driver is at position `p`, the number of frames it has taken, and the slots from the
lent one, or from `p`, to the last that arrived are completed.

* `ring_keeps_receiving`: in every run in which the ring has one descriptor, or no
  completion has a length field of 0 and none falls on the second descriptor between the two
  reads of `efinix_tse_recv`, the good frames are returned once and in the order of arrival, no
  slot is forgotten, and a later frame is still received.
* `empty_frame_stops_reception`: a completion with a length field of 0 sends the driver past
  its slot, which nobody arms again; when the engine comes back to it, all that arrives is lost.
* `straddled_read_reorders`: two completions between the two reads change the order.
-/

namespace Br2Efinix.Tsemac.UBoot

open Machine

/-! ## The property -/

/-- The good ones of the frames with the lengths `l`: their numbers and lengths. -/
def goodFrames (size : ℕ) (l : List ℕ) : List (ℕ × ℕ) :=
  (l.zipIdx.filter fun f => 0 < f.1 ∧ f.1 ≤ size).map Prod.swap

/-- Slot `i` has a frame that has not been returned. -/
structure Waiting (s : Rx) (i : ℕ) : Prop where
  completed : (s.ring i).completed = true
  frame : s.arrived[s.content i]? = some (s.ring i).bytes
  kept : s.content i ∉ s.returned.map Prod.fst

/-- Whatever happens from now on, no frame that is yet to arrive is returned. -/
def Lost (s : Rx) : Prop :=
  ∀ as t, rxMachine.exec s as = some t → ∀ f ∈ t.returned, f.1 < s.arrived.length

structure Received (s : Rx) : Prop where
  /-- The frames returned are the first of the good ones, -/
  returned : s.returned <+: goodFrames s.rxBufSize s.arrived
  /-- each of which is another one. -/
  once : (s.returned.map Prod.fst).Nodup
  /-- No slot is forgotten. -/
  slots : ∀ i < s.n, s.activeRx = some i ∨ s.ring i = s.fresh i ∨ Waiting s i
  /-- The driver's calls alone return the other ones. -/
  drains : rxMachine.Leads
    (fun t => t.arrived = s.arrived ∧ t.returned = goodFrames t.rxBufSize t.arrived) s
  lasts : ¬ Lost s

/-- No completion has a length field of 0, and none falls on the descriptor after `rx_head` while
`efinix_tse_recv` is between its reads, unless there is one descriptor only. -/
def Plain (s : Rx) : RxAct → Prop
  | .engine len => s.n = 1 ∨ (len % 2 ^ 27 ≠ 0 ∧ ¬ (s.call = .ahead ∧ s.at_ = (s.rxHead + 1) % s.n))
  | _ => True

instance : ∀ s a, Decidable (Plain s a)
  | s, .engine len => inferInstanceAs (Decidable
      (s.n = 1 ∨ (len % 2 ^ 27 ≠ 0 ∧ ¬ (s.call = .ahead ∧ s.at_ = (s.rxHead + 1) % s.n))))
  | _, .recv => isTrue trivial
  | _, .freePkt => isTrue trivial
  | _, .resume => isTrue trivial

/-! ## The good frames -/

section GoodFrames

variable {size : ℕ} {l : List ℕ}

theorem goodFrames_concat (x : ℕ) :
    goodFrames size (l ++ [x]) =
      goodFrames size l ++ if 0 < x ∧ x ≤ size then [(l.length, x)] else [] := by
  unfold goodFrames
  rw [List.zipIdx_append, List.filter_append, List.map_append]
  congr 1
  by_cases h : 0 < x ∧ x ≤ size
  · simp [h]
  · rw [if_neg h]
    simp only [List.zipIdx_singleton, Nat.zero_add]
    rw [List.filter_cons_of_neg (by simpa using h)]
    rfl

theorem goodFrames_prefix (t : ℕ) : goodFrames size (l.take t) <+: goodFrames size l := by
  refine ⟨((l.drop t).zipIdx (l.take t).length |>.filter fun f => 0 < f.1 ∧ f.1 ≤ size).map Prod.swap, ?_⟩
  conv_rhs => rw [← List.take_append_drop t l]
  unfold goodFrames
  rw [List.zipIdx_append, List.filter_append, List.map_append, Nat.zero_add]

theorem goodFrames_numbers :
    ((goodFrames size l).map Prod.fst).Sublist (List.range' 0 l.length) := by
  unfold goodFrames
  rw [List.map_map, ← List.zipIdx_map_snd 0 l]
  exact List.filter_sublist.map _

theorem goodFrames_nodup : ((goodFrames size l).map Prod.fst).Nodup :=
  goodFrames_numbers.nodup List.nodup_range'

theorem goodFrames_lt {k : ℕ} (h : k ∈ (goodFrames size l).map Prod.fst) : k < l.length := by
  have := List.mem_range'_1.1 (goodFrames_numbers.subset h)
  omega

end GoodFrames

/-! ## The invariant -/

/-- The slot of position `k` has the frame with number `k`. -/
structure Holds (s : Rx) (k : ℕ) : Prop where
  completed : (s.ring (k % s.n)).completed = true
  content : s.content (k % s.n) = k
  bytes : s.arrived[k]? = some (s.ring (k % s.n)).bytes

/-- The driver has taken the first `p` frames; the slots from position `lo` up to the last frame
have frames, and the others are the engine's. -/
structure RxWindow (lo p : ℕ) (s : Rx) : Prop where
  pos : 0 < s.n
  size : 0 < s.rxBufSize
  head : s.rxHead = p % s.n
  next : s.at_ = s.arrived.length % s.n
  from_ : lo ≤ p
  le : p ≤ s.arrived.length
  room : s.arrived.length ≤ lo + s.n
  filled : ∀ k, lo ≤ k → k < s.arrived.length → Holds s k
  armed : ∀ k, s.arrived.length ≤ k → k < lo + s.n → s.ring (k % s.n) = s.fresh (k % s.n)
  lengths : s.n = 1 ∨ ∀ x ∈ s.arrived, x ≠ 0
  returned : s.returned = goodFrames s.rxBufSize (s.arrived.take p)

/-- The window with what the driver is doing. -/
structure RxAt (lo p : ℕ) (s : Rx) : Prop where
  window : RxWindow lo p s
  /-- The slot before `p` is lent or none is. -/
  lent : (lo = p ∧ (s.activeRx = none ∨ s.call = .freeKick)) ∨
    (lo + 1 = p ∧ s.activeRx = some (lo % s.n) ∧ s.call = .idle)
  ahead : s.call = .ahead → s.activeRx = none ∧ (s.n = 1 ∨ s.arrived.length ≤ p + 1)
  going : s.busy = true ∨ (s.ring s.at_).completed = true ∨ s.call = .dropKick ∨ s.call = .freeKick

variable {s s' : Rx} {lo p : ℕ}

/-- The window looks at these fields only. -/
theorem RxWindow.of_same (h : RxWindow lo p s) (hn : s'.n = s.n) (hsize : s'.rxBufSize = s.rxBufSize)
    (hhead : s'.rxHead = s.rxHead) (hat : s'.at_ = s.at_) (hring : s'.ring = s.ring)
    (hcontent : s'.content = s.content) (harrived : s'.arrived = s.arrived)
    (hreturned : s'.returned = s.returned) : RxWindow lo p s' := by
  cases s
  cases s'
  simp only at hn hsize hhead hat hring hcontent harrived hreturned
  subst hn hsize hhead hat hring hcontent harrived hreturned
  exact ⟨h.pos, h.size, h.head, h.next, h.from_, h.le, h.room,
    fun k hk hk' => ⟨(h.filled k hk hk').completed, (h.filled k hk hk').content, (h.filled k hk hk').bytes⟩,
    h.armed, h.lengths, h.returned⟩

/-- A completed slot at or after `p` has a frame. -/
theorem RxWindow.unread (h : RxWindow lo p s) {k : ℕ} (hk : k < lo + s.n)
    (hcompleted : (s.ring (k % s.n)).completed = true) : k < s.arrived.length := by
  by_contra hle
  rw [h.armed k (by omega) hk] at hcompleted
  exact absurd hcompleted (by simp [Rx.fresh])

/-- With several descriptors a slot with a length field of 0 is the engine's. -/
theorem RxWindow.all_read (h : RxWindow lo p s) (hn : s.n ≠ 1)
    (hbytes : (s.ring (p % s.n)).bytes = 0) : s.arrived.length = p := by
  by_contra hne
  have hlt : p < s.arrived.length := by
    have := h.le
    omega
  have hget := (h.filled p h.from_ hlt).bytes
  rw [hbytes] at hget
  exact h.lengths.resolve_left hn 0 (List.mem_of_getElem? hget) rfl

/-- Outside of a kick the engine runs, or has stopped on a slot with a frame. -/
theorem RxAt.runs (h : RxAt lo p s) (hcall : s.call = .idle ∨ s.call = .ahead) :
    s.busy = true ∨ (s.ring s.at_).completed = true := by
  rcases h.going with hbusy | hstopped | hdrop | hfree
  · exact Or.inl hbusy
  · exact Or.inr hstopped
  · rw [hdrop] at hcall
    exact absurd hcall (by simp)
  · rw [hfree] at hcall
    exact absurd hcall (by simp)

/-- With no frame lent out the window begins at the driver. -/
theorem RxAt.lo_eq (h : RxAt lo p s) (hnone : s.activeRx = none) : lo = p := by
  rcases h.lent with ⟨heq, -⟩ | ⟨-, hsome, -⟩
  · exact heq
  · rw [hnone] at hsome
    exact absurd hsome (by simp)

theorem started_at {n size : ℕ} (hn : 0 < n) (hsize : 0 < size) : RxAt 0 0 (Rx.started n size) := by
  have hwindow : RxWindow 0 0 (Rx.started n size) := by
    refine ⟨hn, hsize, rfl, rfl, Nat.le_refl 0, Nat.le_refl 0, Nat.zero_le _, ?_, ?_, ?_, rfl⟩
    · intro k _ hk
      exact absurd hk (Nat.not_lt_zero k)
    · intro k _ _
      rfl
    · right
      intro x hx
      exact absurd hx (List.not_mem_nil)
  exact ⟨hwindow, Or.inl ⟨rfl, Or.inl rfl⟩, fun hcall => absurd hcall (by simp [Rx.started]), Or.inl rfl⟩

/-! ## The engine -/

/-- **A frame arrives** in the slot after the last one. -/
theorem arrive_window (h : RxWindow lo p s) {len : ℕ} (hlen : s.n = 1 ∨ len ≠ 0)
    (hmore : s.arrived.length < lo + s.n) {t : Rx} (hn : t.n = s.n) (hsize : t.rxBufSize = s.rxBufSize)
    (hhead : t.rxHead = s.rxHead) (hat : t.at_ = (s.at_ + 1) % s.n)
    (hself : t.ring s.at_ = { s.fresh s.at_ with completed := true, bytes := len })
    (hother : ∀ j, j ≠ s.at_ → t.ring j = s.ring j)
    (hcontent : ∀ b, t.content b = if b = s.at_ then s.arrived.length else s.content b)
    (harrived : t.arrived = s.arrived ++ [len]) (hreturned : t.returned = s.returned) :
    RxWindow lo p t := by
  have hpos := h.pos
  have hle := h.le
  have hfrom := h.from_
  have hnext := h.next
  have hlength : t.arrived.length = s.arrived.length + 1 := by
    rw [harrived, List.length_append, List.length_singleton]
  have hslot : ∀ k, lo ≤ k → k < lo + s.n → k ≠ s.arrived.length → k % s.n ≠ s.at_ := by
    intro k hk hk' hne
    rw [hnext]
    exact Ring.slot_ne hk hk' (by omega) hmore hne
  refine ⟨by omega, by rw [hsize]; exact h.size, by rw [hhead, hn]; exact h.head, ?_, hfrom, by omega,
    by omega, fun k hk hk' => ?_, fun k hk hk' => ?_, ?_, ?_⟩
  · rw [hat, hn, hlength, hnext]
    exact Ring.slot_add _ 1
  · rcases Nat.lt_succ_iff_lt_or_eq.1 (by omega : k < s.arrived.length + 1) with hlt | rfl
    · -- the other buffers are not written
      have hold := h.filled k hk hlt
      have hne := hslot k hk (by omega) (by omega)
      refine ⟨?_, ?_, ?_⟩
      · rw [hn, hother _ hne]
        exact hold.completed
      · rw [hn, hcontent, if_neg hne]
        exact hold.content
      · rw [hn, hother _ hne, harrived, List.getElem?_append_left hlt]
        exact hold.bytes
    · refine ⟨?_, ?_, ?_⟩
      · rw [hn, ← hnext, hself]
      · rw [hn, ← hnext, hcontent, if_pos rfl]
      · rw [hn, ← hnext, hself, harrived, List.getElem?_concat_length]
  · rw [hn] at hk' ⊢
    rw [hother _ (hslot k (by omega) hk' (by omega)), h.armed k (by omega) hk']
    unfold Rx.fresh
    rw [hsize]
  · rw [hn, harrived]
    rcases hlen with hone | hne
    · exact Or.inl hone
    · refine h.lengths.imp_right ?_
      intro hall x hx
      rcases List.mem_append.1 hx with hold | hnew
      · exact hall x hold
      · rw [List.mem_singleton.1 hnew]
        exact hne
  · rw [hreturned, hsize, harrived, List.take_append_of_le_length hle]
    exact h.returned

/-- The engine stops only on a slot that the driver has or is yet to take. -/
theorem engineStep_at (h : RxAt lo p s) {len : ℕ} (hplain : Plain s (.engine len))
    (hstep : s.engineStep len = some s') : RxAt lo p s' := by
  have hw := h.window
  have hpos := hw.pos
  unfold Rx.engineStep at hstep
  split at hstep
  · simp only at hstep
    split at hstep
    · rename_i hcompleted
      obtain rfl := Option.some.inj hstep
      exact ⟨hw.of_same rfl rfl rfl rfl rfl rfl rfl rfl, h.lent, h.ahead, Or.inr (Or.inl hcompleted)⟩
    · rename_i hbusy hnot
      have hmore : s.arrived.length < lo + s.n := by
        rcases Nat.lt_or_ge s.arrived.length (lo + s.n) with hlt | hge
        · exact hlt
        · -- the engine has come round to the oldest of the driver's slots
          have hroom := hw.room
          have hlast : s.arrived.length = lo + s.n := by omega
          have hheld := (hw.filled lo (Nat.le_refl lo) (by omega)).completed
          rw [hw.next, hlast, Nat.add_mod_right] at hnot
          exact absurd hheld hnot
      have hfree : s.ring s.at_ = s.fresh s.at_ := by
        rw [hw.next]
        exact hw.armed _ (Nat.le_refl _) hmore
      have hdst : (s.ring s.at_).dst = s.at_ := by
        rw [hfree]
        rfl
      obtain rfl := Option.some.inj hstep
      refine ⟨arrive_window hw (hplain.imp_right And.left) hmore rfl rfl rfl rfl ?_ ?_ ?_ rfl rfl,
        h.lent, ?_, Or.inl hbusy⟩
      · simp [hfree]
      · intro j hj
        simp [hj]
      · intro b
        simp only [hdst]
      · intro hcall
        -- the frame does not go to the second descriptor that the driver reads
        refine ⟨(h.ahead hcall).1, ?_⟩
        rcases hplain with hone | ⟨-, hnext⟩
        · exact Or.inl hone
        · refine (h.ahead hcall).2.imp_right ?_
          intro hle
          simp only [List.length_append, List.length_singleton]
          have hne : s.arrived.length ≠ p + 1 := by
            intro heq
            apply hnext ⟨hcall, ?_⟩
            rw [hw.next, hw.head, heq, Ring.slot_add]
          omega
  · exact absurd hstep (by simp)

/-! ## The driver -/

/-- The window after the frame at `p` has been given up: its slot is the engine's. -/
theorem rearm_window {q : ℕ} (h : RxWindow lo q s) {t : Rx}
    (hn : t.n = s.n) (hsize : t.rxBufSize = s.rxBufSize) (hat : t.at_ = s.at_)
    (hring : t.ring = (s.rearm (lo % s.n)).ring) (hcontent : t.content = s.content)
    (harrived : t.arrived = s.arrived) (hp : lo + 1 ≤ p) (hle : p ≤ s.arrived.length)
    (hhead : t.rxHead = p % s.n) (hreturned : t.returned = goodFrames s.rxBufSize (s.arrived.take p)) :
    RxWindow (lo + 1) p t := by
  have hroom := h.room
  have hpos := h.pos
  have hslot : ∀ k, lo < k → k < lo + s.n → k % s.n ≠ lo % s.n := by
    intro k hk hk'
    exact Ring.slot_ne (by omega) hk' (Nat.le_refl lo) (by omega) (by omega)
  refine ⟨by omega, by rw [hsize]; exact h.size, by rw [hhead, hn], by rw [hat, hn, harrived]; exact h.next,
    hp, by rw [harrived]; exact hle, by rw [harrived]; omega, fun k hk hk' => ?_, fun k hk hk' => ?_, ?_, ?_⟩
  · rw [harrived] at hk'
    have hold := h.filled k (by omega) hk'
    have hsame : t.ring (k % t.n) = s.ring (k % s.n) := by
      rw [hring, hn]
      exact if_neg (hslot k (by omega) (by omega))
    exact ⟨by rw [hsame]; exact hold.completed, by rw [hcontent, hn]; exact hold.content,
      by rw [hsame, harrived]; exact hold.bytes⟩
  · rw [harrived] at hk
    have hfresh : ∀ i, t.fresh i = s.fresh i := by
      intro i
      unfold Rx.fresh
      rw [hsize]
    rw [hfresh, hring, hn]
    rw [hn] at hk'
    by_cases hlast : k = lo + s.n
    · -- the slot that was given up comes last
      subst hlast
      rw [Nat.add_mod_right]
      exact if_pos rfl
    · rw [← h.armed k hk (by omega)]
      exact if_neg (hslot k (by omega) (by omega))
  · rw [hn, harrived]
    exact h.lengths
  · rw [hreturned, hsize, harrived]

/-- The frames returned when the frame at `p` is taken. -/
theorem RxWindow.take_succ (h : RxWindow lo p s) (hlt : p < s.arrived.length) :
    goodFrames s.rxBufSize (s.arrived.take (p + 1)) = s.returned ++
      if 0 < (s.ring (p % s.n)).bytes ∧ (s.ring (p % s.n)).bytes ≤ s.rxBufSize then
        [(s.content (p % s.n), (s.ring (p % s.n)).bytes)] else [] := by
  have hheld := h.filled p h.from_ hlt
  rw [List.take_add_one, hheld.bytes, Option.toList_some, goodFrames_concat, List.length_take,
    Nat.min_eq_left h.le, hheld.content, ← h.returned]

/-- **A frame is taken** when its descriptor is completed. -/
theorem taken_at (h : RxAt p p s) (hnone : s.activeRx = none) (hcall : s.call = .idle ∨ s.call = .ahead) :
    (s.taken (p % s.n)).arrived = s.arrived ∧ (s.taken (p % s.n)).call ≠ .ahead ∧
      ∃ lo, RxAt lo (if (s.ring (p % s.n)).completed = true then p + 1 else p) (s.taken (p % s.n)) := by
  have hw := h.window
  have hpos := hw.pos
  have hgoing := h.runs hcall
  have hsucc : (p % s.n + 1) % s.n = (p + 1) % s.n := Ring.slot_add p 1
  unfold Rx.taken
  simp only
  by_cases hcompleted : (s.ring (p % s.n)).completed = true
  · have hlt := hw.unread (by omega) hcompleted
    have htake := hw.take_succ hlt
    rw [if_neg (by simp [hcompleted]), if_pos hcompleted]
    by_cases hbad : (s.ring (p % s.n)).bytes = 0 ∨ (s.ring (p % s.n)).bytes > s.rxBufSize
    · rw [if_pos hbad]
      rw [if_neg (by omega), List.append_nil] at htake
      refine ⟨rfl, by simp, p + 1, ?_, Or.inl ⟨rfl, Or.inl hnone⟩, fun hc => absurd hc (by simp),
        Or.inr (Or.inr (Or.inl rfl))⟩
      exact rearm_window hw rfl rfl rfl rfl rfl rfl (Nat.le_refl _) hlt hsucc htake.symm
    · rw [if_neg hbad]
      rw [if_pos (by omega)] at htake
      refine ⟨rfl, by simp, p, ⟨hpos, hw.size, hsucc, hw.next, Nat.le_succ p, hlt, hw.room, ?_, hw.armed,
        hw.lengths, htake.symm⟩, Or.inr ⟨rfl, rfl, rfl⟩, fun hc => absurd hc (by simp), ?_⟩
      · intro k hk hk'
        exact ⟨(hw.filled k hk hk').completed, (hw.filled k hk hk').content, (hw.filled k hk hk').bytes⟩
      · rcases hgoing with hbusy | hstopped
        · exact Or.inl hbusy
        · exact Or.inr (Or.inl hstopped)
  · rw [if_pos (by simp [hcompleted]), if_neg hcompleted]
    refine ⟨rfl, by simp, p, hw.of_same rfl rfl rfl rfl rfl rfl rfl rfl, Or.inl ⟨rfl, Or.inl hnone⟩,
      fun hc => absurd hc (by simp), ?_⟩
    rcases hgoing with hbusy | hstopped
    · exact Or.inl hbusy
    · exact Or.inr (Or.inl hstopped)

theorem recv_at (h : RxAt lo p s) (hstep : s.recv = some s') :
    s'.arrived = s.arrived ∧ ∃ lo' p', RxAt lo' p' s' := by
  have hw := h.window
  unfold Rx.recv at hstep
  split at hstep
  · rename_i hidle
    split at hstep
    · obtain rfl := Option.some.inj hstep
      exact ⟨rfl, lo, p, h⟩
    · rename_i hnone
      have hnone : s.activeRx = none := by simpa using hnone
      obtain rfl : lo = p := h.lo_eq hnone
      split at hstep
      · rename_i hbytes
        obtain rfl := Option.some.inj hstep
        refine ⟨rfl, lo, lo, hw.of_same rfl rfl rfl rfl rfl rfl rfl rfl, Or.inl ⟨rfl, Or.inl hnone⟩,
          fun _ => ⟨hnone, ?_⟩, ?_⟩
        · by_cases hone : s.n = 1
          · exact Or.inl hone
          · -- no completed descriptor has a length field of 0, so all is read
            right
            rw [hw.head] at hbytes
            have := hw.all_read hone hbytes
            show s.arrived.length ≤ lo + 1
            omega
        · rcases h.runs (Or.inl hidle) with hbusy | hstopped
          · exact Or.inl hbusy
          · exact Or.inr (Or.inl hstopped)
      · obtain rfl := Option.some.inj hstep
        rw [hw.head]
        obtain ⟨harrived, -, lo', hat⟩ := taken_at h hnone (Or.inl hidle)
        exact ⟨harrived, lo', _, hat⟩
  · exact absurd hstep (by simp)

theorem freePkt_at (h : RxAt lo p s) (hstep : s.freePkt = some s') : s'.arrived = s.arrived ∧
    ∃ lo', RxAt lo' p s' := by
  have hw := h.window
  unfold Rx.freePkt at hstep
  split at hstep
  · rename_i hidle
    split at hstep
    · obtain rfl := Option.some.inj hstep
      exact ⟨rfl, lo, h⟩
    · rename_i idx hsome
      obtain rfl := Option.some.inj hstep
      rcases h.lent with ⟨-, hnone | hfree⟩ | ⟨hlo, hlent, -⟩
      · rw [hsome] at hnone
        exact absurd hnone (by simp)
      · rw [hidle] at hfree
        exact absurd hfree (by simp)
      · obtain rfl : idx = lo % s.n := Option.some.inj (hsome.symm.trans hlent)
        refine ⟨rfl, lo + 1, ?_, Or.inl ⟨hlo, Or.inr rfl⟩, fun hc => absurd hc (by simp),
          Or.inr (Or.inr (Or.inr rfl))⟩
        exact rearm_window hw rfl rfl rfl rfl rfl rfl (by omega) hw.le hw.head hw.returned
  · exact absurd hstep (by simp)

/-- A call that waits for its kick is over after it. -/
theorem kick_at (h : RxAt lo p s) (hcall : s.call = .dropKick ∨ s.call = .freeKick) :
    ∃ t, s.resume = some t ∧ t.arrived = s.arrived ∧ RxAt p p t ∧ t.call = .idle ∧ t.activeRx = none := by
  have hw := h.window
  have hidle : ¬ s.call = .idle := by
    rcases hcall with hc | hc <;> rw [hc] <;> simp
  obtain ⟨rfl, hnone⟩ : lo = p ∧ (s.activeRx = none ∨ s.call = .freeKick) := by
    rcases h.lent with hl | ⟨-, -, hc⟩
    · exact hl
    · exact absurd hc hidle
  unfold Rx.resume
  rcases hcall with hc | hc
  · rw [hc] at hnone ⊢
    have hnone : s.activeRx = none := by simpa using hnone
    simp only [Rx.kick_eq]
    exact ⟨_, rfl, rfl, ⟨hw.of_same rfl rfl rfl rfl rfl rfl rfl rfl, Or.inl ⟨rfl, Or.inl hnone⟩,
      fun hcall => absurd hcall (by simp), Or.inl rfl⟩, rfl, hnone⟩
  · rw [hc]
    simp only [Rx.kick_eq]
    exact ⟨_, rfl, rfl, ⟨hw.of_same rfl rfl rfl rfl rfl rfl rfl rfl, Or.inl ⟨rfl, Or.inl rfl⟩,
      fun hcall => absurd hcall (by simp), Or.inl rfl⟩, rfl, rfl⟩

/-- **The second read** finds nothing, or the descriptor of the first read again. -/
theorem ahead_at (h : RxAt lo p s) (hcall : s.call = .ahead) :
    ∃ t, s.resume = some t ∧ t.arrived = s.arrived ∧ t.call ≠ .ahead ∧ ∃ lo' p', RxAt lo' p' t := by
  have hw := h.window
  have hpos := hw.pos
  have hroom := hw.room
  obtain ⟨hnone, hone⟩ := h.ahead hcall
  obtain rfl : lo = p := h.lo_eq hnone
  have hresume : s.resume = some (s.taken ((s.rxHead + 1) % s.n)) := by
    unfold Rx.resume
    rw [hcall]
  refine ⟨_, hresume, ?_⟩
  by_cases hn : s.n = 1
  · -- the second descriptor is the first again
    have hidx : (s.rxHead + 1) % s.n = lo % s.n := by
      rw [hn, Nat.mod_one, Nat.mod_one]
    rw [hidx]
    obtain ⟨harrived, hne, lo', hat⟩ := taken_at h hnone (Or.inr hcall)
    exact ⟨harrived, hne, lo', _, hat⟩
  · have hfree : s.ring ((s.rxHead + 1) % s.n) = s.fresh ((s.rxHead + 1) % s.n) := by
      rw [hw.head, Ring.slot_add]
      exact hw.armed _ (hone.resolve_left hn) (by omega)
    have htaken : s.taken ((s.rxHead + 1) % s.n) = { s with call := .idle } := by
      unfold Rx.taken
      rw [hfree]
      rfl
    rw [htaken]
    refine ⟨rfl, by simp, lo, lo, hw.of_same rfl rfl rfl rfl rfl rfl rfl rfl,
      Or.inl ⟨rfl, Or.inl hnone⟩, fun hc => absurd hc (by simp), ?_⟩
    rcases h.runs (Or.inr hcall) with hbusy | hstopped
    · exact Or.inl hbusy
    · exact Or.inr (Or.inl hstopped)

/-- **One step keeps the window.** -/
theorem next_at {a : RxAct} (h : RxAt lo p s) (hplain : Plain s a) (hstep : s.next a = some s') :
    ∃ lo' p', RxAt lo' p' s' := by
  cases a with
  | recv => exact (recv_at h hstep).2
  | freePkt =>
    obtain ⟨-, lo', hat⟩ := freePkt_at h hstep
    exact ⟨lo', p, hat⟩
  | resume =>
    have hresume : s.resume = some s' := hstep
    cases hcall : s.call with
    | idle =>
      unfold Rx.resume at hresume
      rw [hcall] at hresume
      exact absurd hresume (by simp)
    | ahead =>
      obtain ⟨t, ht, -, -, hat⟩ := ahead_at h hcall
      obtain rfl : t = s' := Option.some.inj (ht.symm.trans hresume)
      exact hat
    | dropKick =>
      obtain ⟨t, ht, -, hat, -, -⟩ := kick_at h (Or.inl hcall)
      obtain rfl : t = s' := Option.some.inj (ht.symm.trans hresume)
      exact ⟨p, p, hat⟩
    | freeKick =>
      obtain ⟨t, ht, -, hat, -, -⟩ := kick_at h (Or.inr hcall)
      obtain rfl : t = s' := Option.some.inj (ht.symm.trans hresume)
      exact ⟨p, p, hat⟩
  | engine len => exact ⟨lo, p, engineStep_at h hplain hstep⟩

theorem reach_at (h : rxMachine.Reach Plain s) : ∃ lo p, RxAt lo p s := by
  refine h.invariant (I := fun s => ∃ lo p, RxAt lo p s) ?_ ?_
  · rintro s ⟨n, rxmem, pktsizeAlign, hn, halign, rfl⟩
    exact ⟨0, 0, started_at hn (bufSize_pos halign)⟩
  · rintro s a s' ⟨lo, p, hat⟩ hplain hstep
    exact next_at hat hplain hstep

/-! ## Draining -/

/-- The driver is outside of its calls and has no frame lent out. -/
structure Rest (p : ℕ) (s : Rx) : Prop where
  at_ : RxAt p p s
  idle : s.call = .idle
  none : s.activeRx = none

/-- The driver gives back the frame that it has. -/
theorem give_back (h : RxAt lo p s) (hcall : s.call ≠ .ahead) :
    rxMachine.Leads (fun t => t.arrived = s.arrived ∧ Rest p t) s := by
  have hkick : ∀ {lo : ℕ} {t : Rx}, RxAt lo p t → t.arrived = s.arrived →
      t.call = .dropKick ∨ t.call = .freeKick →
      rxMachine.Leads (fun t => t.arrived = s.arrived ∧ Rest p t) t := by
    intro lo t ht harrived hc
    obtain ⟨u, hstep, hu, hat, hidle, hnone⟩ := kick_at ht hc
    exact .next .resume hstep (.here ⟨hu.trans harrived, hat, hidle, hnone⟩)
  cases hc : s.call with
  | ahead => exact absurd hc hcall
  | dropKick => exact hkick h rfl (Or.inl hc)
  | freeKick => exact hkick h rfl (Or.inr hc)
  | idle =>
    cases hactive : s.activeRx with
    | none =>
      obtain rfl : lo = p := h.lo_eq hactive
      exact .here ⟨rfl, h, hc, hactive⟩
    | some idx =>
      have hfree : s.freePkt = some { s.rearm idx with call := .freeKick } := by
        unfold Rx.freePkt
        rw [if_pos hc, hactive]
      obtain ⟨harrived, lo', hat⟩ := freePkt_at h hfree
      exact .next .freePkt hfree (hkick hat harrived (Or.inr rfl))

/-- The driver leaves the call that it is in. -/
theorem settle (h : RxAt lo p s) :
    rxMachine.Leads (fun t => t.arrived = s.arrived ∧ ∃ q, Rest q t) s := by
  have hrest : ∀ {lo q : ℕ} {t : Rx}, RxAt lo q t → t.arrived = s.arrived → t.call ≠ .ahead →
      rxMachine.Leads (fun t => t.arrived = s.arrived ∧ ∃ q, Rest q t) t := by
    intro lo q t ht harrived hne
    refine (give_back ht hne).bind (fun u hu => .here ⟨hu.1.trans harrived, q, hu.2⟩)
  by_cases hcall : s.call = .ahead
  · obtain ⟨t, hstep, harrived, hne, lo', p', hat⟩ := ahead_at h hcall
    exact .next .resume hstep (hrest hat harrived hne)
  · exact hrest h rfl hcall

/-- **A frame that has arrived is taken.** -/
theorem take_one (h : Rest p s) (hlt : p < s.arrived.length) :
    rxMachine.Leads (fun t => t.arrived = s.arrived ∧ Rest (p + 1) t) s := by
  have hw := h.at_.window
  have hcompleted := (hw.filled p (Nat.le_refl p) hlt).completed
  by_cases hbytes : (s.ring s.rxHead).bytes = 0
  · -- then there is one descriptor, and the second read is of that one too
    have hone : s.n = 1 := by
      by_contra hne
      rw [hw.head] at hbytes
      have := hw.all_read hne hbytes
      omega
    have hrecv : s.recv = some { s with call := .ahead } := by
      unfold Rx.recv
      rw [if_pos h.idle, h.none, if_neg (by simp), if_pos hbytes]
    have hahead : RxAt p p { s with call := .ahead } := by
      obtain ⟨-, lo', p', hat⟩ := recv_at h.at_ hrecv
      have hgoing := h.at_.going
      refine ⟨hw.of_same rfl rfl rfl rfl rfl rfl rfl rfl, Or.inl ⟨rfl, Or.inl h.none⟩,
        fun _ => ⟨h.none, Or.inl hone⟩, ?_⟩
      rw [h.idle] at hgoing
      simpa using hgoing
    have hidx : (s.rxHead + 1) % s.n = p % s.n := by rw [hone, Nat.mod_one, Nat.mod_one]
    obtain ⟨harrived, hne, lo', hat⟩ := taken_at hahead h.none (Or.inr rfl)
    rw [if_pos hcompleted] at hat
    refine .next .recv hrecv (.next .resume ?_ ((give_back hat hne).bind fun u hu =>
      .here ⟨hu.1.trans harrived, hu.2⟩))
    show some _ = some _
    rw [hidx]
  · have hrecv : s.recv = some (s.taken (p % s.n)) := by
      unfold Rx.recv
      rw [if_pos h.idle, h.none, if_neg (by simp), if_neg hbytes, hw.head]
    obtain ⟨harrived, hne, lo', hat⟩ := taken_at h.at_ h.none (Or.inl h.idle)
    rw [if_pos hcompleted] at hat
    exact .next .recv hrecv ((give_back hat hne).bind fun u hu => .here ⟨hu.1.trans harrived, hu.2⟩)

/-- The driver's calls take all that has arrived. -/
theorem drain (k : ℕ) : ∀ {p : ℕ} {s : Rx}, Rest p s → s.arrived.length = p + k →
    rxMachine.Leads (fun t => t.arrived = s.arrived ∧ Rest t.arrived.length t) s := by
  induction k with
  | zero =>
    intro p s h hlength
    refine .here ⟨rfl, ?_⟩
    rw [hlength]
    exact h
  | succ k ih =>
    intro p s h hlength
    refine (take_one h (by omega)).bind ?_
    intro t ht
    refine (ih ht.2 (by rw [ht.1, hlength]; omega)).bind (fun u hu => .here ⟨hu.1.trans ht.1, hu.2⟩)

theorem drains (h : RxAt lo p s) :
    rxMachine.Leads (fun t => t.arrived = s.arrived ∧ Rest t.arrived.length t) s := by
  refine (settle h).bind ?_
  intro t ht
  obtain ⟨harrived, q, hrest⟩ := ht
  obtain ⟨k, hk⟩ := Nat.exists_eq_add_of_le hrest.at_.window.le
  exact (drain k hrest hk).bind (fun u hu => .here ⟨hu.1.trans harrived, hu.2⟩)

/-- **The next frame is received** when all that has arrived is taken. -/
theorem receives_next (h : Rest s.arrived.length s) :
    rxMachine.Leads (fun t => (s.arrived.length, 1) ∈ t.returned) s := by
  have hw := h.at_.window
  have hpos := hw.pos
  have hfree : s.ring s.at_ = s.fresh s.at_ := by
    rw [hw.next]
    exact hw.armed _ (Nat.le_refl _) (by omega)
  have hbusy : s.busy = true := by
    rcases h.at_.runs (Or.inl h.idle) with hb | hstopped
    · exact hb
    · rw [hfree] at hstopped
      exact absurd hstopped (by simp [Rx.fresh])
  obtain ⟨t, hfill, hat, hidle, hnone, hlength⟩ : ∃ t, s.engineStep 1 = some t ∧
      RxAt s.arrived.length s.arrived.length t ∧ t.call = .idle ∧ t.activeRx = none ∧
      t.arrived = s.arrived ++ [1] := by
    have hstep : ∃ t, s.engineStep 1 = some t ∧ t.call = s.call ∧ t.activeRx = s.activeRx ∧
        t.arrived = s.arrived ++ [1] := by
      unfold Rx.engineStep
      rw [if_pos hbusy]
      simp only [hfree]
      rw [if_neg (by simp [Rx.fresh])]
      exact ⟨_, rfl, rfl, rfl, rfl⟩
    obtain ⟨t, ht, hcall, hactive, harrived⟩ := hstep
    have hplain : Plain s (.engine 1) := by
      refine Or.inr ⟨by decide, ?_⟩
      rintro ⟨hc, -⟩
      rw [h.idle] at hc
      exact absurd hc (by simp)
    exact ⟨t, ht, engineStep_at h.at_ hplain ht, hcall.trans h.idle, hactive.trans h.none, harrived⟩
  have hw' := hat.window
  have hlt : s.arrived.length < t.arrived.length := by
    rw [hlength, List.length_append, List.length_singleton]
    omega
  have hheld := hw'.filled _ (Nat.le_refl _) hlt
  have hbytes : (t.ring (s.arrived.length % t.n)).bytes = 1 := by
    have hget := hheld.bytes
    rw [hlength, List.getElem?_concat_length] at hget
    exact (Option.some.inj hget).symm
  have hrecv : t.recv = some (t.taken (s.arrived.length % t.n)) := by
    unfold Rx.recv
    rw [if_pos hidle, hnone, if_neg (by simp), hw'.head, if_neg (by rw [hbytes]; simp)]
  refine .next (.engine 1) hfill (.next .recv hrecv (.here ?_))
  have hsize := hw'.size
  unfold Rx.taken
  simp only [hheld.completed, hbytes, hheld.content]
  rw [if_neg (by simp), if_neg (by omega)]
  simp

/-! ## Every packet in turn, along runs -/

/-- A slot of the window is lent, armed or waits. -/
theorem RxAt.slot (h : RxAt lo p s) {i : ℕ} (hi : i < s.n) :
    s.activeRx = some i ∨ s.ring i = s.fresh i ∨ Waiting s i := by
  have hw := h.window
  obtain ⟨k, hlo, hk, rfl⟩ := Ring.exists_slot lo hi
  rcases Nat.lt_or_ge k s.arrived.length with hlt | hge
  · have hheld := hw.filled k hlo hlt
    rcases Nat.lt_or_ge k p with hbefore | hafter
    · left
      rcases h.lent with ⟨heq, -⟩ | ⟨heq, hsome, -⟩
      · omega
      · obtain rfl : k = lo := by omega
        exact hsome
    · right
      right
      refine ⟨hheld.completed, ?_, ?_⟩
      · rw [hheld.content]
        exact hheld.bytes
      · rw [hheld.content, hw.returned]
        intro hmem
        have := goodFrames_lt hmem
        rw [List.length_take] at this
        omega
  · right
    left
    exact hw.armed k hge hk

theorem RxAt.received (h : RxAt lo p s) : Received s := by
  have hw := h.window
  refine ⟨?_, ?_, fun i hi => h.slot hi, ?_, ?_⟩
  · rw [hw.returned]
    exact goodFrames_prefix p
  · rw [hw.returned]
    exact goodFrames_nodup
  · refine (drains h).bind (fun t ht => .here ⟨ht.1, ?_⟩)
    have hret := ht.2.at_.window.returned
    rw [List.take_length] at hret
    exact hret
  · intro hlost
    obtain ⟨as, t, hexec, hmem⟩ := (drains h).bind (R := fun t => (s.arrived.length, 1) ∈ t.returned)
      (fun t ht => by
        rw [← ht.1]
        exact receives_next ht.2)
    have := hlost as t hexec _ hmem
    simp at this

/-- **Frames are received once and in the order of arrival**, and none of the slots is lost, in
every run in which no completion is empty or falls between the two reads. -/
theorem ring_keeps_receiving (h : rxMachine.Reach Plain s) : Received s := by
  obtain ⟨lo, p, hat⟩ := reach_at h
  exact hat.received

/-! ## Runs -/

/-- Three frames, the last too long; the driver gets the first before the third arrives. -/
def plainRun : List RxAct :=
  [.engine 100, .recv, .engine 60, .freePkt, .engine 4000, .resume, .recv, .freePkt, .resume, .recv,
    .resume, .recv]

theorem ring_keeps_receiving_three : ∃ s, rxMachine.Reach Plain s ∧ s.returned = [(0, 100), (1, 60)] ∧
    s.arrived = [100, 60, 4000] ∧ s.call = .ahead ∧ Received s := by
  obtain ⟨s, hs, hv⟩ := Option.map_eq_some_iff.1 (show
    (rxMachine.exec (.started 4 (bufSize 0 1536)) plainRun).map (fun s => (s.returned, s.arrived, s.call)) =
      some ([(0, 100), (1, 60)], [100, 60, 4000], .ahead) by decide +kernel)
  simp only [Prod.mk.injEq] at hv
  have hreach : rxMachine.Reach Plain s :=
    .of_exec ⟨4, 0, 1536, by decide, by decide, rfl⟩
      (show rxMachine.Along Plain (.started 4 (bufSize 0 1536)) plainRun by decide +kernel) hs
  exact ⟨s, hreach, hv.1, hv.2.1, hv.2.2, ring_keeps_receiving hreach⟩

/-- The driver and the engine are both at a slot with a frame of length 0, and the slot after it is
empty. -/
structure Stuck (s : Rx) : Prop where
  at_ : s.at_ = s.rxHead
  completed : (s.ring s.rxHead).completed = true
  bytes : (s.ring s.rxHead).bytes = 0
  next : (s.ring ((s.rxHead + 1) % s.n)).completed = false
  active : s.activeRx = none
  call : s.call = .idle ∨ s.call = .ahead

/-- Nothing moves any more. -/
theorem stuck_next {a : RxAct} (h : Stuck s) (hstep : s.next a = some s') :
    Stuck s' ∧ s'.returned = s.returned := by
  obtain ⟨hat, hcompleted, hbytes, hnext, hactive, hcall⟩ := h
  cases a with
  | recv =>
    have hrecv : s.recv = some s' := hstep
    unfold Rx.recv at hrecv
    split at hrecv
    · rw [if_neg (by simp [hactive])] at hrecv
      obtain rfl := Option.some.inj hrecv
      exact ⟨⟨hat, hcompleted, hbytes, hnext, hactive, Or.inr rfl⟩, rfl⟩
    · exact absurd hrecv (by simp)
  | freePkt =>
    have hfree : s.freePkt = some s' := hstep
    unfold Rx.freePkt at hfree
    split at hfree
    · rw [hactive] at hfree
      obtain rfl := Option.some.inj hfree
      exact ⟨⟨hat, hcompleted, hbytes, hnext, hactive, hcall⟩, rfl⟩
    · exact absurd hfree (by simp)
  | resume =>
    have hresume : s.resume = some s' := hstep
    unfold Rx.resume at hresume
    rcases hcall with hc | hc
    · rw [hc] at hresume
      exact absurd hresume (by simp)
    · rw [hc] at hresume
      simp only [Rx.taken, hnext] at hresume
      obtain rfl := Option.some.inj hresume
      exact ⟨⟨hat, hcompleted, hbytes, hnext, hactive, Or.inl rfl⟩, rfl⟩
  | engine len =>
    have hengine : s.engineStep len = some s' := hstep
    unfold Rx.engineStep at hengine
    split at hengine
    · simp only [hat, hcompleted] at hengine
      obtain rfl := Option.some.inj hengine
      exact ⟨⟨rfl, hcompleted, hbytes, hnext, hactive, hcall⟩, rfl⟩
    · exact absurd hengine (by simp)

/-- **A driver that is stuck receives nothing more.** -/
theorem stuck_lost (h : Stuck s) (hold : ∀ f ∈ s.returned, f.1 < s.arrived.length) : Lost s := by
  intro as t hexec
  have hkept : Stuck t ∧ t.returned = s.returned :=
    exec_invariant (I := fun t => Stuck t ∧ t.returned = s.returned)
      (fun u a u' hu hstep => by
        obtain ⟨hstuck, hsame⟩ := stuck_next hu.1 hstep
        exact ⟨hstuck, hsame.trans hu.2⟩) ⟨h, rfl⟩ hexec
  rw [hkept.2]
  exact hold

/-- A completion without a byte, then three frames that the driver gets, and the engine comes back
to the first slot. -/
def emptyRun : List RxAct :=
  [.engine 0, .engine 64, .engine 65, .engine 66, .recv, .resume, .freePkt, .resume, .recv, .freePkt,
    .resume, .recv, .freePkt, .resume]

/-- **A completion with a length field of 0 stops reception.** -/
theorem empty_frame_stops_reception : ∃ s, rxMachine.Reach (fun _ _ => True) s ∧ s.n = 4 ∧
    s.returned = [(1, 64), (2, 65), (3, 66)] ∧ Lost s ∧ ¬ Received s := by
  obtain ⟨s, hs, hv⟩ := Option.map_eq_some_iff.1 (show
    (rxMachine.exec (.started 4 (bufSize 0 1536)) emptyRun).map
      (fun s => (s.returned, (s.activeRx, s.call), [s.n, s.arrived.length, s.at_, s.rxHead, (s.ring 0).bytes],
        [(s.ring 0).completed, (s.ring 1).completed])) =
      some ([(1, 64), (2, 65), (3, 66)], (none, .idle), [4, 4, 0, 0, 0], [true, false]) by decide +kernel)
  simp only [Prod.mk.injEq, List.cons.injEq, and_true] at hv
  obtain ⟨hreturned, ⟨hactive, hcall⟩, ⟨hn, hlength, hat, hhead, hbytes⟩, hcompleted, hnext⟩ := hv
  have hreach : rxMachine.Reach (fun _ _ => True) s :=
    .of_exec ⟨4, 0, 1536, by decide, by decide, rfl⟩ (along_true _ _) hs
  have hstuck : Stuck s := by
    refine ⟨by rw [hat, hhead], ?_, ?_, ?_, hactive, Or.inl hcall⟩
    · rw [hhead]
      exact hcompleted
    · rw [hhead]
      exact hbytes
    · rw [hhead, hn]
      exact hnext
  have hlost : Lost s := by
    refine stuck_lost hstuck ?_
    rw [hreturned, hlength]
    simp
  exact ⟨s, hreach, hn, hreturned, hlost, fun hreceived => hreceived.lasts hlost⟩

/-- **Two completions between the two reads** let the second frame overtake, without any empty one. -/
theorem straddled_read_reorders : ∃ s, rxMachine.Reach (fun _ _ => True) s ∧ s.n = 4 ∧
    s.arrived = [64, 65] ∧ s.returned = [(1, 65)] ∧ ¬ Received s := by
  obtain ⟨s, hs, hv⟩ := Option.map_eq_some_iff.1 (show
    (rxMachine.exec (.started 4 (bufSize 0 1536)) [.recv, .engine 64, .engine 65, .resume]).map
      (fun s => ([s.n, s.rxBufSize], s.arrived, s.returned)) =
      some ([4, 1536], [64, 65], [(1, 65)]) by decide +kernel)
  simp only [Prod.mk.injEq, List.cons.injEq, and_true] at hv
  obtain ⟨⟨hn, hsize⟩, harrived, hreturned⟩ := hv
  have hreach : rxMachine.Reach (fun _ _ => True) s :=
    .of_exec ⟨4, 0, 1536, by decide, by decide, rfl⟩ (along_true _ _) hs
  refine ⟨s, hreach, hn, harrived, hreturned, ?_⟩
  intro hreceived
  have hprefix := hreceived.returned
  rw [hreturned, hsize, harrived] at hprefix
  exact absurd hprefix (by decide)

end Br2Efinix.Tsemac.UBoot
