import Mathlib.Data.List.Infix
import Mathlib.Data.List.Perm.Basic
import Br2Efinix.Tsemac.TxOwnership

/-!
# The pieces on the transmit ring

Piece `p` of all that has been accepted is on the descriptor at position `p`. Next to
the ownership of the descriptors, `Ordered` says which of them have been sent, what the
engine will find on the others, and where it is.

* `dmaStep_ordered`: the engine sends the pieces in order and halts at the terminator.
* `pollStep_ordered`: a descriptor is given back after it has been sent.
-/

namespace Br2Efinix.Tsemac

namespace Tx

/-- An accepted piece has not been sent. -/
def unsent (s : Tx) : Prop := s.sent.length < s.items.length

/-- The engine fetches no further descriptor. -/
def halted (s : Tx) : Prop := s.dma = .idle ∨ s.dma = .stopping

/-- The descriptor at a position. -/
def desc (s : Tx) (p : ℕ) : Desc := s.ring (p % s.n)

end Tx

/-! ## The invariant -/

/-- How many descriptors after the first have been written for the next packet. -/
def Tx.laid (s : Tx) : ℕ :=
  match s.xmit with
  | .frag x | .fragStatus x | .publish x => x.ii
  | _ => 0

/-- The addresses mapped for the next packet. -/
def Tx.pending (s : Tx) : List ℕ :=
  match s.xmit with
  | .frag x | .fragStatus x => x.addrs
  | .publish x => x.linear :: x.addrs
  | _ => []

/-- The descriptors at the positions of the pieces, from the first not reclaimed on. -/
structure Pieces (s : Tx) (C : ℕ) : Prop where
  sent : s.sent <+: s.items
  le : C ≤ s.sent.length
  next : ∀ i, (s.ring i).next = (i + 1) % s.n
  behind : ∀ p, C ≤ p → p < s.sent.length → (s.desc p).completed = true
  ahead : ∀ p, s.sent.length ≤ p → p < s.items.length →
    (s.desc p).completed = false ∧ s.items[p]? = some (s.desc p).src
  free : ∀ p, s.items.length ≤ p → p < C + s.n →
    (p = s.items.length ∨ s.items.length + s.laid < p) → (s.desc p).completed = true

/-- `tsemac_tx_poll` is at a descriptor that has been sent. -/
def Reclaims (s : Tx) (C : ℕ) : Prop :=
  ∀ fr, s.poll = .free fr → fr.at_ ≠ .check → C < s.sent.length

/-- The fragments written for the next packet, the first `k` with their status. -/
def Laid (s : Tx) (x : Xmit) (k : ℕ) : Prop :=
  ∀ j < x.ii, x.addrs[j]? = some (s.desc (s.items.length + 1 + j)).src ∧
    (j < k → (s.desc (s.items.length + 1 + j)).completed = false)

def Layout (s : Tx) : Prop :=
  match s.xmit with
  | .frag x => Laid s x x.ii
  | .fragStatus x => 0 < x.ii ∧ Laid s x (x.ii - 1)
  | .publish x => Laid s x x.ii ∧ (s.desc s.items.length).src = x.linear
  | _ => True

/-- A packet has been published to a halted engine, which is to be restarted at it. -/
def Waits (s : Tx) : Prop :=
  match s.xmit with
  | .advance x | .term x | .head x => x.orig = s.sent.length % s.n
  | .scan x bd => x.orig = s.sent.length % s.n ∧
    ∃ b, b ≤ s.sent.length ∧ s.items.length ≤ b + s.n ∧ bd = b % s.n
  | .kick _ head => head = s.sent.length % s.n
  | _ => False

/-- The engine is at the oldest unsent descriptor, if it is not halted. -/
def Engine (s : Tx) : Prop :=
  match s.dma with
  | .fetch cur => cur = s.sent.length % s.n
  | .send cur src => cur = s.sent.length % s.n ∧ s.items[s.sent.length]? = some src
  | _ => s.unsent → Waits s

/-- No address is used twice. -/
def Fresh (s : Tx) : Prop :=
  (s.items ++ s.pending).Nodup ∧ ∀ a ∈ s.items ++ s.pending, a < s.mapped

/-- The invariant, next to `Owns`. -/
structure Ordered (s : Tx) (C : ℕ) : Prop where
  pieces : Pieces s C
  reclaims : Reclaims s C
  layout : Layout s
  engine : Engine s
  fresh : Fresh s

variable {s s' : Tx} {C A : ℕ}

/-! ## Frames -/

/-- What the engine and the search see of a descriptor. -/
structure Same (d d' : Desc) : Prop where
  completed : d'.completed = d.completed
  src : d'.src = d.src
  next : d'.next = d.next

theorem same_modDesc {i : ℕ} {f : Desc → Desc} (hf : Same (s.ring i) (f (s.ring i))) (j : ℕ) :
    Same (s.ring j) ((s.modDesc i f).ring j) := by
  unfold Tx.modDesc
  simp only
  split
  · rename_i hj
    rw [hj]
    exact hf
  · exact ⟨rfl, rfl, rfl⟩

theorem desc_same (hn : s'.n = s.n) (hring : ∀ i, Same (s.ring i) (s'.ring i)) (p : ℕ) :
    Same (s.desc p) (s'.desc p) := by
  unfold Tx.desc
  rw [hn]
  exact hring _

/-- `s'` has the pieces of `s`, and looks the same to the engine. -/
structure Frame (s s' : Tx) : Prop where
  n : s'.n = s.n
  items : s'.items = s.items
  sent : s'.sent = s.sent
  ring : ∀ i, Same (s.ring i) (s'.ring i)

theorem Frame.desc (h : Frame s s') (p : ℕ) : Same (s.desc p) (s'.desc p) := desc_same h.n h.ring p

theorem Frame.pieces (h : Frame s s') (hlaid : s'.laid = s.laid) (hp : Pieces s C) : Pieces s' C := by
  have hd := h.desc
  obtain ⟨hn, hitems, hsent, hring⟩ := h
  obtain ⟨h1, h2, h3, h4, h5, h6⟩ := hp
  refine ⟨by rw [hsent, hitems]; exact h1, by rw [hsent]; exact h2, fun i => ?_, fun p hp hq => ?_,
    fun p hp hq => ?_, fun p hp hq hf => ?_⟩
  · rw [(hring i).next, hn]
    exact h3 i
  · rw [hsent] at hq
    rw [(hd p).completed]
    exact h4 p hp hq
  · rw [hsent] at hp
    rw [hitems] at hq
    rw [(hd p).completed, (hd p).src, hitems]
    exact h5 p hp hq
  · rw [hitems] at hp hf
    rw [hn] at hq
    rw [hlaid] at hf
    rw [(hd p).completed]
    exact h6 p hp hq hf

theorem Frame.laid (h : Frame s s') {x : Xmit} {k : ℕ} (hl : Laid s x k) : Laid s' x k := by
  have hd := h.desc
  intro j hj
  rw [h.items, (hd _).src, (hd _).completed]
  exact hl j hj

theorem Frame.layout (h : Frame s s') (hx : s'.xmit = s.xmit) (hl : Layout s) : Layout s' := by
  have hlaid : ∀ x k, Laid s x k → Laid s' x k := fun x k => h.laid
  have hd := h.desc
  unfold Layout at hl ⊢
  rw [hx]
  cases hpc : s.xmit with
  | frag x => rw [hpc] at hl; exact hlaid _ _ hl
  | fragStatus x => rw [hpc] at hl; exact ⟨hl.1, hlaid _ _ hl.2⟩
  | publish x =>
    rw [hpc] at hl
    refine ⟨hlaid _ _ hl.1, ?_⟩
    rw [h.items, (hd _).src]
    exact hl.2
  | _ => trivial

/-- `s'` differs from `s` only in descriptors and in what `tsemac_start_xmit` does. -/
structure Still (s s' : Tx) : Prop where
  n : s'.n = s.n
  items : s'.items = s.items
  sent : s'.sent = s.sent
  dma : s'.dma = s.dma
  poll : s'.poll = s.poll

theorem Still.engine (h : Still s s') (hw : s.halted → s.unsent → Waits s → Waits s') (he : Engine s) :
    Engine s' := by
  have hwaits : s.halted → (s.unsent → Waits s) → s'.unsent → Waits s' := by
    intro hh hwait hu
    unfold Tx.unsent at hu
    rw [h.sent, h.items] at hu
    exact hw hh hu (hwait hu)
  unfold Engine at he ⊢
  rw [h.dma]
  cases hd : s.dma with
  | fetch cur =>
    rw [hd] at he
    simp only at he ⊢
    rw [h.sent, h.n]
    exact he
  | send cur src =>
    rw [hd] at he
    simp only at he ⊢
    rw [h.sent, h.n, h.items]
    exact he
  | idle => rw [hd] at he; exact hwaits (Or.inl hd) he
  | stopping => rw [hd] at he; exact hwaits (Or.inr hd) he

theorem Still.reclaims (h : Still s s') (hr : Reclaims s C) : Reclaims s' C := by
  intro fr hfr hat
  rw [h.poll] at hfr
  rw [h.sent]
  exact hr fr hfr hat

theorem Frame.fresh (h : Frame s s') (hpending : s'.pending = s.pending)
    (hmapped : s'.mapped = s.mapped) (hf : Fresh s) : Fresh s' := by
  unfold Fresh at hf ⊢
  rw [h.items, hpending, hmapped]
  exact hf

/-- Steps that move nothing and leave `tsemac_start_xmit` where it is. -/
theorem Frame.ordered (h : Frame s s') (hx : s'.xmit = s.xmit) (hmapped : s'.mapped = s.mapped)
    (hr : Reclaims s' C) (he : Engine s') (ho : Ordered s C) : Ordered s' C := by
  have hlaid : s'.laid = s.laid := by unfold Tx.laid; rw [hx]
  have hpending : s'.pending = s.pending := by unfold Tx.pending; rw [hx]
  exact ⟨h.pieces hlaid ho.pieces, hr, h.layout hx ho.layout, he, h.fresh hpending hmapped ho.fresh⟩

theorem Frame.of_ring (hn : s'.n = s.n) (hring : s'.ring = s.ring) (hitems : s'.items = s.items)
    (hsent : s'.sent = s.sent) : Frame s s' := by
  refine ⟨hn, hitems, hsent, ?_⟩
  intro i
  rw [hring]
  exact ⟨rfl, rfl, rfl⟩

/-! ## The engine -/

theorem sent_le (h : Pieces s C) : s.sent.length ≤ s.items.length := h.sent.length_le

/-- The next element of a list extends a prefix of it. -/
theorem prefix_next {α : Type*} {xs ys : List α} {a : α} (h : xs <+: ys)
    (ha : ys[xs.length]? = some a) : xs ++ [a] <+: ys := by
  obtain ⟨rest, rfl⟩ := h
  rw [List.getElem?_append_right (Nat.le_refl _), Nat.sub_self] at ha
  cases rest with
  | nil => exact absurd ha (by simp)
  | cons b rest =>
    obtain rfl := Option.some.inj ha
    exact ⟨rest, by simp⟩

/-- **Sending a descriptor** moves on to the next piece. -/
theorem send_pieces (hw : Window s C A) (hp : Pieces s C) {src : ℕ}
    (hsrc : s.items[s.sent.length]? = some src)
    (hring : ∀ p, C ≤ p → p < C + s.n → p ≠ s.sent.length → s'.ring (p % s.n) = s.desc p)
    (hcompleted : ∀ i, (s.ring i).completed = true → (s'.ring i).completed = true)
    (hself : (s'.ring (s.sent.length % s.n)).completed = true)
    (hnext : ∀ i, (s'.ring i).next = (s.ring i).next) (hn : s'.n = s.n) (hitems : s'.items = s.items)
    (hsent : s'.sent = s.sent ++ [src]) (hlaid : s'.laid = s.laid) : Pieces s' C := by
  obtain rfl := hw.items
  have hlt := hw.lt
  have hlen : s'.sent.length = s.sent.length + 1 := by rw [hsent]; simp
  obtain ⟨h1, h2, h3, h4, h5, h6⟩ := hp
  refine ⟨by rw [hsent, hitems]; exact prefix_next h1 hsrc, by omega, fun i => ?_, fun p hp1 hp2 => ?_,
    fun p hp1 hp2 => ?_, fun p hp1 hp2 hp3 => ?_⟩
  · rw [hnext, hn]
    exact h3 i
  · unfold Tx.desc
    rw [hn]
    rcases Nat.lt_or_ge p s.sent.length with h | h
    · exact hcompleted _ (h4 p hp1 h)
    · obtain rfl : p = s.sent.length := by omega
      exact hself
  · unfold Tx.desc
    rw [hitems] at hp2 ⊢
    rw [hn, hring p (by omega) (by omega) (by omega)]
    exact h5 p (by omega) hp2
  · unfold Tx.desc
    rw [hitems] at hp1 hp3
    rw [hn] at hp2 ⊢
    rw [hlaid] at hp3
    exact hcompleted _ (h6 p hp1 hp2 hp3)

/-- It leaves the descriptors of the next packet alone. -/
theorem send_layout (hx : XmitOk s C A) (hw : Window s C A) (hl : Layout s)
    (hu : s.sent.length < A) (hle : C ≤ s.sent.length)
    (hring : ∀ p, C ≤ p → p < C + s.n → p ≠ s.sent.length → s'.ring (p % s.n) = s.desc p)
    (hn : s'.n = s.n) (hitems : s'.items = s.items) (hxmit : s'.xmit = s.xmit) : Layout s' := by
  obtain rfl := hw.items
  have hlt := hw.lt
  have hdesc : ∀ p, s.items.length ≤ p → p < C + s.n → s'.desc p = s.desc p := by
    intro p h1 h2
    unfold Tx.desc at hring ⊢
    rw [hn]
    exact hring p (by omega) h2 (by omega)
  have hlaid : ∀ x k, Prepared s C s.items.length x → Laid s x k → Laid s' x k := by
    intro x k hprep hk j hj
    have hroom := hprep.room
    have hcount := hprep.count
    rw [hitems, hdesc _ (by omega) (by omega)]
    exact hk j hj
  unfold XmitOk at hx
  unfold Layout at hl ⊢
  rw [hxmit]
  cases hpc : s.xmit with
  | frag x => rw [hpc] at hl hx; exact hlaid _ _ hx hl
  | fragStatus x => rw [hpc] at hl hx; exact ⟨hl.1, hlaid _ _ hx hl.2⟩
  | publish x =>
    rw [hpc] at hl hx
    refine ⟨hlaid _ _ hx.1 hl.1, ?_⟩
    rw [hitems, hdesc _ (Nat.le_refl _) hlt]
    exact hl.2
  | _ => trivial

/-- **The engine sends the pieces in order**, and halts at the terminator only. -/
theorem dmaStep_ordered (h : Owns s C A) (ho : Ordered s C) (hstep : s.dmaStep = some s') :
    Ordered s' C := by
  obtain ⟨hw, hx⟩ := h
  have hp := ho.pieces
  have he := ho.engine
  unfold Engine at he
  unfold Tx.dmaStep at hstep
  cases hd : s.dma with
  | idle => rw [hd] at hstep; exact absurd hstep (by simp)
  | stopping =>
    rw [hd] at hstep he
    obtain rfl := Option.some.inj hstep
    exact Frame.ordered (s := s) (.of_ring rfl rfl rfl rfl) rfl rfl ho.reclaims he ho
  | fetch cur =>
    rw [hd] at hstep he
    simp only at hstep he
    have hdesc : s.ring cur = s.desc s.sent.length := by rw [he]; rfl
    have hwhole := sent_le hp
    split at hstep
    · -- only the terminator is completed
      rename_i hdone
      obtain rfl := Option.some.inj hstep
      refine Frame.ordered (s := s) (.of_ring rfl rfl rfl rfl) rfl rfl ho.reclaims ?_ ho
      intro hu
      obtain ⟨hnot, -⟩ := hp.ahead _ (Nat.le_refl _) hu
      rw [hdesc, hnot] at hdone
      exact absurd hdone (by simp)
    · -- anything else is a piece that has not been sent
      rename_i hnot
      obtain rfl := Option.some.inj hstep
      have hu : s.sent.length < s.items.length := by
        rcases Nat.lt_or_ge s.sent.length s.items.length with h | h
        · exact h
        · have hend : s.sent.length = s.items.length := Nat.le_antisymm hwhole h
          have hlt := hw.lt
          have hlen := hw.items
          have hterm := hp.free s.sent.length (by omega) (by omega) (Or.inl hend)
          rw [hdesc] at hnot
          exact absurd hterm hnot
      obtain ⟨-, hsrc⟩ := hp.ahead _ (Nat.le_refl _) hu
      refine Frame.ordered (s := s) (.of_ring rfl rfl rfl rfl) rfl rfl ho.reclaims ⟨he, ?_⟩ ho
      rw [hdesc]
      exact hsrc
  | send cur src =>
    rw [hd] at hstep he
    obtain ⟨hcur, hsrc⟩ := he
    obtain ⟨hu, -⟩ := List.getElem?_eq_some_iff.1 hsrc
    have hle := hp.le
    have hlt := hw.lt
    have hlen := hw.items
    subst hcur
    obtain rfl := Option.some.inj hstep
    -- of the positions in the window only that of the piece is written
    have hring : ∀ p, C ≤ p → p < C + s.n → p ≠ s.sent.length →
        (s.modDesc (s.sent.length % s.n) fun d => { d with completed := true }).ring (p % s.n) =
          s.desc p :=
      fun p h1 h2 h3 => ring_modDesc_other (Ring.slot_ne h1 h2 hle (by omega) h3)
    have hcompleted : ∀ i, ((s.ring i).completed = true ∨ i = s.sent.length % s.n) →
        ((s.modDesc (s.sent.length % s.n) fun d => { d with completed := true }).ring i).completed =
          true := by
      intro i hi
      unfold Tx.modDesc
      simp only
      split
      · rfl
      · rename_i hne
        exact hi.resolve_right hne
    have hnext : ∀ i,
        ((s.modDesc (s.sent.length % s.n) fun d => { d with completed := true }).ring i).next =
          (s.ring i).next := by
      intro i
      unfold Tx.modDesc
      simp only
      split <;> rfl
    refine ⟨send_pieces hw hp hsrc hring (fun i hi => hcompleted i (Or.inl hi))
      (hcompleted _ (Or.inr rfl)) hnext rfl rfl rfl rfl, ?_,
      send_layout hx hw ho.layout (by omega) hle hring rfl rfl rfl, ?_, ho.fresh⟩
    · intro fr hfr hat
      have hlt := ho.reclaims fr hfr hat
      simp only [List.length_append, List.length_singleton]
      omega
    · simp only [Engine, hp.next, List.length_append, List.length_singleton]
      exact Ring.slot_add _ 1

/-! ## `tsemac_tx_poll` -/

/-- The front of the ring is given back once it has been sent. -/
theorem pieces_succ (hp : Pieces s C) (hlt : C < s.sent.length) : Pieces s (C + 1) := by
  obtain ⟨h1, h2, h3, h4, h5, h6⟩ := hp
  refine ⟨h1, hlt, h3, fun p hp1 hp2 => h4 p (by omega) hp2, h5, ?_⟩
  intro p hp1 hp2 hp3
  rcases Nat.lt_or_ge p (C + s.n) with h | h
  · exact h6 p hp1 h hp3
  · have hfront := h4 C (Nat.le_refl C) hlt
    have hslot : p % s.n = C % s.n := by
      rw [show p = C + s.n by omega, Nat.add_mod_right]
    unfold Tx.desc at hfront ⊢
    rw [hslot]
    exact hfront

/-- A descriptor that reads as done has been sent. -/
theorem sent_of_done (h : Owns s C A) (hp : Pieces s C) (hdone : (s.ring (C % s.n)).done = true) :
    C < s.sent.length := by
  obtain ⟨hw, hx⟩ := h
  have hle := hp.le
  have hwle := hw.le
  have hlen := hw.items
  unfold Desc.done at hdone
  obtain ⟨hcompleted, hcontrol⟩ := Bool.and_eq_true_iff.1 hdone
  by_contra hge
  rcases Nat.lt_or_ge C A with hlt | hge'
  · obtain ⟨hnot, -⟩ := hp.ahead C (by omega) (by omega)
    unfold Tx.desc at hnot
    rw [hnot] at hcompleted
    exact absurd hcompleted (by simp)
  · have hend := ctrl_end hx hw.lt
    rw [show A = C by omega] at hend
    unfold Tx.ctrl at hend
    rw [hend] at hcontrol
    exact absurd hcontrol (by simp)

theorem pollStep_ordered (h : Owns s C A) (ho : Ordered s C) (hstep : s.pollStep = some s') :
    ∃ C', Owns s' C' A ∧ Ordered s' C' := by
  obtain ⟨C', hC', howns⟩ := pollStep_owns h hstep
  obtain ⟨hw, hx⟩ := h
  have hengine := ho.engine
  unfold Tx.pollStep at hstep
  have hsame : Ordered s' C := by
    cases hp : s.poll with
    | idle => rw [hp] at hstep; exact absurd hstep (by simp)
    | wake =>
      rw [hp] at hstep
      obtain rfl := Option.some.inj hstep
      exact Frame.ordered (s := s) (.of_ring rfl rfl rfl rfl) rfl rfl
        (fun fr hfr => absurd hfr (by simp)) hengine ho
    | free fr =>
      rw [hp] at hstep
      obtain ⟨hforce, hslot, howned, hzero⟩ := hw.poll fr hp
      have hreclaims := ho.reclaims fr hp
      simp only [Tx.freeStep] at hstep
      cases hat : fr.at_ with
      | check =>
        rw [hat] at hstep
        simp only at hstep
        split at hstep
        · -- a descriptor that is done has been sent
          rename_i hcond
          obtain ⟨-, hdone⟩ := hcond
          rw [hforce, Bool.false_or, hslot] at hdone
          have hlt := sent_of_done ⟨hw, hx⟩ ho.pieces hdone
          obtain rfl := Option.some.inj hstep
          refine Frame.ordered (s := s) (.of_ring rfl rfl rfl rfl) rfl rfl (fun fr' hfr _ => hlt)
            hengine ho
        · obtain rfl := Option.some.inj hstep
          refine Frame.ordered (s := s) (.of_ring rfl rfl rfl rfl) rfl rfl ?_ hengine ho
          intro fr' hfr
          simp only [Option.map_none, Option.getD_none] at hfr
          split at hfr <;> exact absurd hfr (by simp)
      | control =>
        rw [hat] at hstep hreclaims
        obtain rfl := Option.some.inj hstep
        refine Frame.ordered (s := s) ⟨rfl, rfl, rfl, ?_⟩ rfl rfl
          (fun fr' hfr _ => hreclaims (by simp)) hengine ho
        intro i
        exact same_modDesc (s := s) (f := fun d => { d with control := 0, skb := none })
          ⟨rfl, rfl, rfl⟩ i
      | status =>
        rw [hat] at hstep hreclaims
        have hlt := hreclaims (by simp)
        -- the status that is written was there already
        have hsent := ho.pieces.behind C (Nat.le_refl C) hlt
        unfold Tx.desc at hsent
        obtain rfl := Option.some.inj hstep
        refine Frame.ordered (s := s) ⟨rfl, rfl, rfl, ?_⟩ rfl rfl
          (fun fr' hfr _ => hlt) hengine ho
        intro i
        refine same_modDesc (s := s) (f := fun d => { d with completed := true }) ⟨?_, rfl, rfl⟩ i
        rw [hslot]
        exact hsent.symm
      | advance =>
        rw [hat] at hstep hreclaims
        obtain rfl := Option.some.inj hstep
        exact Frame.ordered (s := s) (.of_ring rfl rfl rfl rfl) rfl rfl
          (fun fr' hfr _ => hreclaims (by simp)) hengine ho
  rcases hC' with ⟨rfl, -⟩ | ⟨rfl, fr, hfr, hat⟩
  · exact ⟨C', howns, hsame⟩
  · have hlt := ho.reclaims fr hfr (by rw [hat]; simp)
    rw [hfr] at hstep
    simp only [Tx.freeStep, hat] at hstep
    obtain rfl := Option.some.inj hstep
    refine ⟨C + 1, howns, pieces_succ hsame.pieces hlt, ?_, hsame.layout,
      hsame.engine, hsame.fresh⟩
    intro fr' hfr' hat'
    obtain rfl := PollPc.free.inj hfr'
    exact absurd rfl hat'

end Br2Efinix.Tsemac
