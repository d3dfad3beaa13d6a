import Mathlib.Algebra.GroupWithZero.Nat
import Mathlib.Data.Int.Notation
import Mathlib.Data.List.Basic
import Mathlib.Data.Nat.Notation

/-!
# The channel table

`efx_dma_probe` with `efx_dma_chan_probe`, as far as they fill the table of the channels, and `of_dma_efx_dma_xlate`,
which looks a client's channel up in it. The size of the table comes from `dma-channels`, the entries that are
initialised from the child nodes, and the lookup has a check of its own.

* `chanLoop_used`, `chanLoop_init`: the indexes of the loop and what it leaves in the table.
* `channel_table_iff`: **the indexes are in the table, and what is looked up was initialised**, exactly where the
  child nodes fit and the client's argument is one of theirs or above the count.
-/

namespace Br2Efinix.EfxDma

def EINVAL : ℤ := 22
def ENOMEM : ℤ := 12

/-! ## The driver -/

/-- A channel's child node. -/
structure ChannelNode where
  dmaNames : Option String
  chanPriority : Option (BitVec 32)
  deriving DecidableEq, Repr

/-- The controller's node. -/
structure DmaNode where
  dmaChannels : Option (BitVec 32)
  children : List ChannelNode
  deriving DecidableEq, Repr

/-- What `efx_dma_chan_probe` puts into a `struct efx_dma_chan`; `reg` is relative to the base. -/
structure TableChan where
  name : String
  chanId : ℕ
  reg : ℕ
  priority : BitVec 32
  deriving DecidableEq, Repr

/-- The count and the table in `struct efx_dma_priv`; an element that is only zeroed is `none`. Only observed are the
indexes used on the table. -/
structure Priv where
  chanCount : ℕ
  dchan : List (Option TableChan)
  used : List ℕ
  deriving DecidableEq, Repr

/-- What the kernel around the driver does: the bits of a `size_t`, the size of a channel, whether the allocation
succeeds, and what the two registrations return. -/
structure DmaEnv where
  sizeBits : ℕ
  chanSize : ℕ
  alloc : Bool
  asyncRegister : ℤ
  ofRegister : ℤ
  deriving DecidableEq, Repr

/-- `priv->chan_count`, a `u32`. -/
def DmaNode.chanCount (node : DmaNode) : ℕ :=
  match node.dmaChannels with
  | some n => n.toNat
  | none => node.children.length % 2 ^ 32

/-- The elements in the memory that is asked for. -/
def DmaEnv.elements (env : DmaEnv) (chanCount : ℕ) : ℕ := env.chanSize * chanCount % 2 ^ env.sizeBits / env.chanSize

def Priv.use (p : Priv) (i : ℕ) : Priv := { p with used := p.used ++ [i] }

/-- The loop of `efx_dma_chan_probe`. -/
def chanLoop : List ChannelNode → ℕ → Priv → ℤ × Priv
  | [], _, p => (0, p)
  | child :: rest, i, p =>
    let p := p.use i
    match child.dmaNames with
    | none => (-EINVAL, p)
    | some name =>
      let chan : TableChan := ⟨name, i, i * 0x80, child.chanPriority.getD 0#32⟩
      -- an index behind the table does not show in it
      chanLoop rest (i + 1) { p with dchan := p.dchan.set i (some chan) }

/-- `efx_dma_chan_probe`. -/
def chanProbe (env : DmaEnv) (node : DmaNode) (p : Priv) : ℤ × Priv :=
  if env.alloc = false then (-ENOMEM, p)
  else chanLoop node.children 0 { p with dchan := List.replicate (env.elements p.chanCount) none }

/-- `efx_dma_probe`. -/
def dmaProbe (env : DmaEnv) (node : DmaNode) : ℤ × Priv :=
  let r := chanProbe env node ⟨node.chanCount, [], []⟩
  if r.1 ≠ 0 then r
  else if env.asyncRegister ≠ 0 then (env.asyncRegister, r.2)
  else if env.ofRegister < 0 then (env.ofRegister, r.2)
  else (0, r.2)

/-- `of_dma_efx_dma_xlate`, with the index of the channel that it returns; `dma_get_slave_channel` may refuse. -/
def xlate (p : Priv) (arg : BitVec 32) (getSlaveChannel : ℕ → Bool) : Priv × Option ℕ :=
  let chanId := arg.toNat
  if chanId > p.chanCount then (p, none)
  else (p.use chanId, if getSlaveChannel chanId then some chanId else none)

/-! ## The property -/

/-- The channel was initialised. -/
def Priv.Initialised (p : Priv) (i : ℕ) : Prop := ∃ chan, p.dchan[i]? = some (some chan) ∧ chan.chanId = i

/-- Every index is in the table, and a client's argument gives a channel that was initialised, or none. The clients
come in when the probe has succeeded. -/
structure TableRight (env : DmaEnv) (node : DmaNode) (arg : BitVec 32) : Prop where
  probe_indexes : ∀ i ∈ (dmaProbe env node).2.used, i < (dmaProbe env node).2.dchan.length
  xlate_indexes : (dmaProbe env node).1 = 0 → ∀ getSlaveChannel,
    ∀ i ∈ (xlate (dmaProbe env node).2 arg getSlaveChannel).1.used, i < (dmaProbe env node).2.dchan.length
  returned : (dmaProbe env node).1 = 0 → ∀ getSlaveChannel i,
    (xlate (dmaProbe env node).2 arg getSlaveChannel).2 = some i → (dmaProbe env node).2.Initialised i

/-- The child nodes that the loop begins with: up to the first without a name. -/
def visited : List ChannelNode → ℕ
  | [] => 0
  | child :: rest => if child.dmaNames.isNone then 1 else visited rest + 1

def Named (children : List ChannelNode) : Prop := ∀ child ∈ children, child.dmaNames.isSome

/-- The child nodes fit into the table; and where the probe succeeds, the argument is that of a child node or above
the count. -/
structure Agrees (env : DmaEnv) (node : DmaNode) (arg : BitVec 32) : Prop where
  fits : visited node.children ≤ env.elements node.chanCount
  client : Named node.children → env.asyncRegister = 0 → 0 ≤ env.ofRegister →
    node.chanCount < arg.toNat ∨ arg.toNat < node.children.length

/-! ## The loop -/

variable {env : DmaEnv} {node : DmaNode} {arg : BitVec 32} {p : Priv}

theorem named_cons {child : ChannelNode} {rest : List ChannelNode} :
    Named (child :: rest) ↔ child.dmaNames.isSome ∧ Named rest := List.forall_mem_cons

/-- The count and the size of the table stay. -/
theorem chanLoop_shape (children : List ChannelNode) :
    ∀ (i : ℕ) (p : Priv), (chanLoop children i p).2.chanCount = p.chanCount ∧
      (chanLoop children i p).2.dchan.length = p.dchan.length := by
  induction children with
  | nil => exact fun _ _ => ⟨rfl, rfl⟩
  | cons child rest ih =>
    intro i p
    unfold chanLoop
    cases child.dmaNames with
    | none => exact ⟨rfl, rfl⟩
    | some name =>
      obtain ⟨hcount, hlength⟩ := ih (i + 1)
        { p.use i with dchan := (p.use i).dchan.set i (some ⟨name, i, i * 0x80, child.chanPriority.getD 0#32⟩) }
      exact ⟨hcount, hlength.trans (List.length_set ..)⟩

/-- **The indexes of the loop** are those of the child nodes that it begins with. -/
theorem chanLoop_used (children : List ChannelNode) :
    ∀ (i : ℕ) (p : Priv), (chanLoop children i p).2.used = p.used ++ List.range' i (visited children) := by
  induction children with
  | nil => exact fun i p => (List.append_nil p.used).symm
  | cons child rest ih =>
    intro i p
    unfold chanLoop visited
    cases child.dmaNames with
    | none => rfl
    | some name =>
      simp only [ih, Priv.use, Option.isNone_some, Bool.false_eq_true, if_false]
      rw [List.range'_succ, List.append_assoc, List.singleton_append]

/-- It succeeds where every child node has a name. -/
theorem chanLoop_ok (children : List ChannelNode) :
    ∀ (i : ℕ) (p : Priv), (chanLoop children i p).1 = 0 ↔ Named children := by
  induction children with
  | nil => exact fun _ _ => ⟨fun _ _ hmem => absurd hmem List.not_mem_nil, fun _ => rfl⟩
  | cons child rest ih =>
    intro i p
    unfold chanLoop
    rw [named_cons]
    cases child.dmaNames with
    | none => exact ⟨fun h => absurd h (show -EINVAL ≠ 0 by decide), fun h => absurd h.1 Bool.false_ne_true⟩
    | some name => exact (ih _ _).trans ⟨fun h => ⟨rfl, h⟩, fun h => h.2⟩

/-- Where there are names, that many child nodes are begun with. -/
theorem visited_named (children : List ChannelNode) (h : Named children) : visited children = children.length := by
  induction children with
  | nil => rfl
  | cons child rest ih =>
    obtain ⟨hchild, hrest⟩ := named_cons.1 h
    unfold visited
    rw [if_neg (by rw [Option.isNone_iff_eq_none]; exact Option.isSome_iff_ne_none.1 hchild), ih hrest,
      List.length_cons]

/-- **What the loop leaves in the table**: the channels of the child nodes, as far as it reaches, and the rest as it
was. -/
theorem chanLoop_init (children : List ChannelNode) (h : Named children) :
    ∀ (i : ℕ) (p : Priv) (k : ℕ), k < p.dchan.length →
      (i ≤ k ∧ k < i + children.length → (chanLoop children i p).2.Initialised k) ∧
        (¬(i ≤ k ∧ k < i + children.length) → (chanLoop children i p).2.dchan[k]? = p.dchan[k]?) := by
  induction children with
  | nil =>
    intro i p k _
    refine ⟨fun hk => ?_, fun _ => rfl⟩
    rw [List.length_nil] at hk
    omega
  | cons child rest ih =>
    intro i p k hk
    obtain ⟨hchild, hrest⟩ := named_cons.1 h
    obtain ⟨name, hname⟩ := Option.isSome_iff_exists.1 hchild
    unfold chanLoop
    rw [hname]
    simp only [List.length_cons]
    obtain ⟨hin, hout⟩ := ih hrest (i + 1)
      { p.use i with dchan := (p.use i).dchan.set i (some ⟨name, i, i * 0x80, child.chanPriority.getD 0#32⟩) } k
      (by rw [List.length_set]; exact hk)
    constructor
    · rintro ⟨hle, hlt⟩
      by_cases heq : i = k
      · -- its own entry, which the rest of the loop leaves alone
        subst heq
        have hget := hout (by omega)
        exact ⟨_, hget.trans (List.getElem?_set_self hk), rfl⟩
      · exact hin ⟨by omega, by omega⟩
    · intro hnot
      have hne : i ≠ k := by omega
      exact (hout (by omega)).trans (List.getElem?_set_ne hne)

/-! ## The probe and the lookup -/

/-- The table as it is allocated. -/
def Priv.allocated (env : DmaEnv) (node : DmaNode) : Priv :=
  ⟨node.chanCount, List.replicate (env.elements node.chanCount) none, []⟩

theorem chanProbe_eq (halloc : env.alloc = true) :
    chanProbe env node ⟨node.chanCount, [], []⟩ = chanLoop node.children 0 (.allocated env node) := by
  unfold chanProbe
  exact if_neg (by rw [halloc]; decide)

/-- The registrations leave the table as it is. -/
theorem dmaProbe_table (halloc : env.alloc = true) :
    (dmaProbe env node).2 = (chanLoop node.children 0 (.allocated env node)).2 := by
  unfold dmaProbe
  rw [chanProbe_eq halloc]
  simp only
  split
  · rfl
  · split
    · rfl
    · split <;> rfl

/-- The probe succeeds where every child node has a name and both registrations succeed. -/
theorem dmaProbe_ok (halloc : env.alloc = true) :
    (dmaProbe env node).1 = 0 ↔ Named node.children ∧ env.asyncRegister = 0 ∧ 0 ≤ env.ofRegister := by
  have hloop := chanLoop_ok node.children 0 (.allocated env node)
  unfold dmaProbe
  rw [chanProbe_eq halloc]
  simp only
  by_cases hnamed : Named node.children
  · rw [if_neg (Decidable.not_not.2 (hloop.2 hnamed))]
    by_cases hasync : env.asyncRegister = 0
    · rw [if_neg (Decidable.not_not.2 hasync)]
      by_cases hof : env.ofRegister < 0
      · rw [if_pos hof]
        exact ⟨fun h => by simp only at h; omega, fun h => by omega⟩
      · rw [if_neg hof]
        exact ⟨fun _ => ⟨hnamed, hasync, by omega⟩, fun _ => rfl⟩
    · rw [if_pos hasync]
      exact ⟨fun h => absurd h hasync, fun h => absurd h.2.1 hasync⟩
  · rw [if_pos (fun h => hnamed (hloop.1 h))]
    exact ⟨fun h => absurd (hloop.1 h) hnamed, fun h => absurd h.1 hnamed⟩

/-- The lookup uses the argument as an index where it is not above the count. -/
theorem xlate_cases (p : Priv) (arg : BitVec 32) (getSlaveChannel : ℕ → Bool) :
    p.chanCount < arg.toNat ∧ xlate p arg getSlaveChannel = (p, none) ∨
      arg.toNat ≤ p.chanCount ∧ xlate p arg getSlaveChannel =
        (p.use arg.toNat, if getSlaveChannel arg.toNat then some arg.toNat else none) := by
  unfold xlate
  rcases Nat.lt_or_ge p.chanCount arg.toNat with h | h
  · exact Or.inl ⟨h, if_pos h⟩
  · exact Or.inr ⟨h, if_neg (Nat.not_lt.2 h)⟩

/-- Without memory the probe fails before it uses the table. -/
theorem dmaProbe_enomem (halloc : env.alloc = false) : dmaProbe env node = (-ENOMEM, ⟨node.chanCount, [], []⟩) := by
  unfold dmaProbe chanProbe
  rw [halloc, if_pos rfl]
  rfl

/-- Where the child nodes fit, their channels are those initialised. -/
theorem initialised_iff (halloc : env.alloc = true) (hnamed : Named node.children)
    (hfits : node.children.length ≤ env.elements node.chanCount) (k : ℕ) :
    (dmaProbe env node).2.Initialised k ↔ k < node.children.length := by
  have hlength : (Priv.allocated env node).dchan.length = env.elements node.chanCount := List.length_replicate
  rw [dmaProbe_table halloc]
  constructor
  · rintro ⟨chan, hget, -⟩
    have hk := (List.getElem?_eq_some_iff.1 hget).1
    rw [(chanLoop_shape _ _ _).2] at hk
    obtain ⟨-, hout⟩ := chanLoop_init node.children hnamed 0 (.allocated env node) k hk
    apply Decidable.byContradiction
    intro hnot
    have hzeroed : (Priv.allocated env node).dchan[k]? = some none :=
      List.getElem?_replicate_of_lt (hlength ▸ hk)
    rw [hout (by omega), hzeroed] at hget
    cases hget
  · intro hk
    exact (chanLoop_init node.children hnamed 0 (.allocated env node) k (by omega)).1 ⟨by omega, by omega⟩

/-- **The channel table** for every device tree, every argument and every kernel around the driver. -/
theorem channel_table_iff (env : DmaEnv) (node : DmaNode) (arg : BitVec 32) :
    TableRight env node arg ↔ (env.alloc = true → Agrees env node arg) := by
  by_cases halloc : env.alloc = true
  · have htable : (dmaProbe env node).2 = _ := dmaProbe_table halloc
    have hok : (dmaProbe env node).1 = 0 ↔ _ := dmaProbe_ok halloc
    obtain ⟨hcount, hlength⟩ := chanLoop_shape node.children 0 (.allocated env node)
    have hused := chanLoop_used node.children 0 (.allocated env node)
    rw [← htable] at hcount hlength hused
    have hcount' : (dmaProbe env node).2.chanCount = node.chanCount := hcount
    rw [show (Priv.allocated env node).dchan.length = env.elements node.chanCount from List.length_replicate] at hlength
    rw [show (Priv.allocated env node).used ++ List.range' 0 (visited node.children) =
      List.range' 0 (visited node.children) from List.nil_append _] at hused
    constructor
    · rintro ⟨hprobe, -, hreturned⟩ -
      rw [hused, hlength] at hprobe
      have hfits : visited node.children ≤ env.elements node.chanCount := by
        rcases Nat.eq_zero_or_pos (visited node.children) with hzero | hpos
        · omega
        · have hlast := hprobe (visited node.children - 1) (List.mem_range'_1.2 ⟨by omega, by omega⟩)
          omega
      refine ⟨hfits, ?_⟩
      intro hnamed hasync hof
      -- a client whose channel is free
      rcases xlate_cases (dmaProbe env node).2 arg (fun _ => true) with ⟨habove, -⟩ | ⟨-, heq⟩
      · exact Or.inl (hcount' ▸ habove)
      · have hinit := hreturned (hok.2 ⟨hnamed, hasync, hof⟩) (fun _ => true) arg.toNat (by rw [heq]; rfl)
        rw [visited_named _ hnamed] at hfits
        exact Or.inr ((initialised_iff halloc hnamed hfits _).1 hinit)
    · intro hagrees
      obtain ⟨hfits, hclient⟩ := hagrees halloc
      have hprobe : ∀ i ∈ (dmaProbe env node).2.used, i < (dmaProbe env node).2.dchan.length := by
        rw [hused, hlength]
        intro i hmem
        have hi := List.mem_range'_1.1 hmem
        omega
      refine ⟨hprobe, ?_, ?_⟩
      · intro hsuccess getSlaveChannel i hmem
        obtain ⟨hnamed, hasync, hof⟩ := hok.1 hsuccess
        rw [visited_named _ hnamed] at hfits
        rcases xlate_cases (dmaProbe env node).2 arg getSlaveChannel with ⟨-, heq⟩ | ⟨hle, heq⟩
        · rw [heq] at hmem
          exact hprobe i hmem
        · rw [heq] at hmem
          rcases List.mem_append.1 hmem with hold | hnew
          · exact hprobe i hold
          · have harg := hclient hnamed hasync hof
            rw [List.mem_singleton.1 hnew, hlength]
            omega
      · intro hsuccess getSlaveChannel i hresult
        obtain ⟨hnamed, hasync, hof⟩ := hok.1 hsuccess
        rw [visited_named _ hnamed] at hfits
        rcases xlate_cases (dmaProbe env node).2 arg getSlaveChannel with ⟨-, heq⟩ | ⟨hle, heq⟩
        · rw [heq] at hresult
          cases hresult
        · rw [heq] at hresult
          have hi : arg.toNat = i := Option.some.inj (Option.ite_none_right_eq_some.1 hresult).2
          have harg := hclient hnamed hasync hof
          exact (initialised_iff halloc hnamed hfits i).2 (by omega)
  · have hfail : dmaProbe env node = _ := dmaProbe_enomem (Bool.eq_false_iff.2 halloc)
    have herror : ¬(dmaProbe env node).1 = 0 := by
      rw [hfail]
      exact show -ENOMEM ≠ 0 by decide
    refine ⟨fun _ h => absurd h halloc, fun _ => ⟨?_, fun h => absurd h herror, fun h => absurd h herror⟩⟩
    rw [hfail]
    exact fun i hmem => absurd hmem List.not_mem_nil

/-- No more elements are allocated than are counted, whether the product of the size wraps around or not. -/
theorem elements_le (env : DmaEnv) (chanCount : ℕ) : env.elements chanCount ≤ chanCount := by
  unfold DmaEnv.elements
  apply Nat.div_le_of_le_mul
  exact Nat.mod_le _ _

/-- **The count itself** is never right as an argument, where the probe succeeds. -/
theorem count_wrong (halloc : env.alloc = true) (hok : (dmaProbe env node).1 = 0) (harg : arg.toNat = node.chanCount) :
    ¬Agrees env node arg := by
  have hcount := elements_le env node.chanCount
  obtain ⟨hnamed, hasync, hof⟩ := (dmaProbe_ok halloc).1 hok
  intro h
  have hfits := h.fits
  have hclient := h.client hnamed hasync hof
  rw [visited_named _ hnamed] at hfits
  omega

/-- A controller with two channels, and a 64-bit kernel on which all goes well. -/
def twoChannels : DmaNode := ⟨none, [⟨some "rx", none⟩, ⟨some "tx", some 1#32⟩]⟩
def kernel64 : DmaEnv := ⟨64, 256, true, 0, 0⟩

/-- **The argument 2 of two channels** is let through, and used as an index; and with `dma-channels` of 1 the loop
writes behind the table. -/
theorem channel_two :
    ¬ TableRight kernel64 twoChannels 2#32 ∧
      (xlate (dmaProbe kernel64 twoChannels).2 2#32 fun _ => true).2 = some 2 ∧
      (dmaProbe kernel64 twoChannels).2.dchan.length = 2 ∧
      (dmaProbe kernel64 { twoChannels with dmaChannels := some 1#32 }).2.used = [0, 1] ∧
      (dmaProbe kernel64 { twoChannels with dmaChannels := some 1#32 }).2.dchan.length = 1 := by
  have hused : 2 ∈ (xlate (dmaProbe kernel64 twoChannels).2 2#32 fun _ => true).1.used := by decide
  refine ⟨?_, by decide, by decide, by decide, by decide⟩
  intro h
  have hlt := h.xlate_indexes (by decide) (fun _ => true) 2 hused
  exact absurd hlt (by decide)

end Br2Efinix.EfxDma
