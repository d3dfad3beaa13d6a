import Mathlib.Data.Nat.Bitwise
import Br2Efinix.EfxDma.Chain

/-!
# What the prepared chains transfer

The control field of a descriptor holds the number of bytes minus one. The builder
subtracts the one for a period and not for a scatterlist entry, and the copy hands its
arguments to the builder in the other order.

* `prepSlaveSg_chain`: the chain of a scatterlist has its addresses in order, a byte too
  many on each descriptor, and an entry read that the list does not have.
* `sg_chain_never`: so it is never the chain of the scatterlist.
* `copy_chain_iff`: the chain of a copy copies what it should if and only if that is two
  bytes.
-/

namespace Br2Efinix.EfxDma

namespace HwDesc

/-- The bytes that the engine transfers for a descriptor. -/
def bytes (d : HwDesc) : ℕ := (d.control &&& EFX_DMA_DESCRIPTOR_CONTROL_BYTES) + 1

/-- The address on the memory's side of a slave transfer. -/
def memAddr (d : HwDesc) : Direction → ℕ
  | .devToMem => d.dstAddr
  | _ => d.srcAddr

end HwDesc

/-- The chain from `h` on is that of a scatterlist of `n` entries, of which no other has been
read since `c₀`. -/
structure SgChain (c₀ c : Chan) (h : ℕ) (sg : ℕ → SgEntry) (n : ℕ) (direction : Direction)
    (reuse : Bool) : Prop where
  data : ∀ i < n, ∃ k, c.walk h i = some k ∧ (c.mem k).hw.completed = false ∧
    (c.mem k).hw.memAddr direction = (sg i).dmaAddress ∧ (c.mem k).hw.bytes = (sg i).dmaLen
  ends : if reuse then c.walk h n = some h
    else ∃ k, c.walk h n = some k ∧ (c.mem k).hw.completed = true
  reads : ∃ read, c.sgReads = c₀.sgReads ++ read ∧ ∀ i ∈ read, i < n

/-- From `h` on, `k` descriptors copy `len` bytes from `src` to `dst` piece by piece, and a
completed one ends them. -/
def Copies (c : Chan) : ℕ → ℕ → ℕ → ℕ → ℕ → Prop
  | h, _, _, len, 0 => len = 0 ∧ (c.mem h).hw.completed = true
  | h, src, dst, len, k + 1 =>
    (c.mem h).hw.completed = false ∧ (c.mem h).hw.srcAddr = src % 2 ^ 64 ∧
      (c.mem h).hw.dstAddr = dst % 2 ^ 64 ∧ (c.mem h).hw.bytes ≤ len ∧
        ∃ h', (c.mem h).hw.next = some h' ∧
          Copies c h' (src + (c.mem h).hw.bytes) (dst + (c.mem h).hw.bytes)
            (len - (c.mem h).hw.bytes) k

/-- The chain from `h` on copies exactly `len` bytes. -/
def CopyChain (c : Chan) (h src dst len : ℕ) : Prop := ∃ k, Copies c h src dst len k

variable {a : InitArgs} {c c' : Chan} {alloc : ℕ → Bool × Bool} {h owner : ℕ}

/-! ## The byte count -/

/-- The flags are above the byte count. -/
theorem control_bytes (flag : Bool) (len : ℕ) :
    ((if flag then EFX_DMA_DESCRIPTOR_NO_COMPLETION else EFX_DMA_DESCRIPTOR_CONTROL_END_OF_PACKET) |||
      len) &&& EFX_DMA_DESCRIPTOR_CONTROL_BYTES = len % 2 ^ 27 := by
  unfold EFX_DMA_DESCRIPTOR_CONTROL_BYTES
  rw [show (0x7FFFFFF : ℕ) = 2 ^ 27 - 1 by decide, Nat.and_two_pow_sub_one_eq_mod, Nat.or_mod_two_pow]
  have hflag : (if flag then EFX_DMA_DESCRIPTOR_NO_COMPLETION
      else EFX_DMA_DESCRIPTOR_CONTROL_END_OF_PACKET) % 2 ^ 27 = 0 := by
    cases flag <;> decide
  rw [hflag, Nat.zero_or]

/-- A descriptor for a scatterlist entry transfers a byte more. -/
theorem bytes_sg {sg : ℕ → SgEntry} (hsg : a.sg = some sg) (head : Option ℕ) (i : ℕ) :
    (addressControl a head i).bytes = (sg i).dmaLen % 2 ^ 27 + 1 := by
  unfold HwDesc.bytes addressControl
  rw [hsg]
  simp only [Option.map_some]
  rw [control_bytes, Nat.mod_mod_of_dvd _ (by decide)]

/-- A descriptor for a period transfers the period. -/
theorem bytes_period (hsg : a.sg = none) (head : Option ℕ) (i : ℕ) :
    (addressControl a head i).bytes = (a.periodLen + (2 ^ 32 - 1)) % 2 ^ 27 + 1 := by
  unfold HwDesc.bytes addressControl
  rw [hsg]
  simp only [Option.map_none]
  rw [control_bytes, Nat.mod_mod_of_dvd _ (by decide)]

/-! ## The scatterlist -/

/-- What a call of `efx_dma_prep_slave_sg` that succeeds has built. -/
theorem prepSlaveSg_some {sg : ℕ → SgEntry} {n : ℕ} {direction : Direction} {reuse : Bool} (hn : 1 ≤ n)
    (hprep : prepSlaveSg c sg n direction reuse alloc = (c', some h)) :
    ∃ a : InitArgs, a.sg = some sg ∧ a.direction = direction ∧ a.cyclic = reuse ∧
      a.len = (if reuse then n else n + 1) ∧ h = c.fresh ∧
      ∃ c₁, Partial a c.preps c.called a.len c₁ ∧ c' = { c₁ with active := c.active ++ [c.preps] } := by
  unfold prepSlaveSg at hprep
  rw [if_neg (by omega)] at hprep
  refine ⟨_, rfl, rfl, rfl, ?_, finishPrep_some ?_ hprep⟩
  · simp only
    split <;> rfl
  · simp only
    split <;> omega

/-- **The chain of a scatterlist**: its addresses in order, one byte too many on each
descriptor, then the terminator or the link to the first; without `DMA_CTRL_REUSE` the entry
after the last is read as well. -/
theorem prepSlaveSg_chain {sg : ℕ → SgEntry} {n : ℕ} {direction : Direction} {reuse : Bool}
    (hn : 1 ≤ n) (hdir : direction = .memToDev ∨ direction = .devToMem)
    (hprep : prepSlaveSg c sg n direction reuse alloc = (c', some h)) :
    (∀ i < n, ∃ k, c'.walk h i = some k ∧ (c'.mem k).hw.completed = false ∧
      (c'.mem k).hw.memAddr direction = (sg i).dmaAddress % 2 ^ 64 ∧
        (c'.mem k).hw.bytes = (sg i).dmaLen % 2 ^ 27 + 1) ∧
    (if reuse then c'.walk h n = some h
      else ∃ k, c'.walk h n = some k ∧ (c'.mem k).hw.completed = true) ∧
    c'.sgReads = c.sgReads ++ List.range (if reuse then n else n + 1) := by
  obtain ⟨a, hsg, hdirection, hcyclic, hlen, rfl, c₁, hp, rfl⟩ := prepSlaveSg_some hn hprep
  have hnew : ∀ j < a.len, c₁.mem (c.fresh + j) = built a c.preps c.fresh a.len j := hp.new
  have hwalk : ∀ i, Chan.walk { c₁ with active := c.active ++ [c.preps] } c.fresh i =
      c₁.walk c.fresh i := by
    intro i
    refine walk_congr (c := c₁) ?_ c.fresh i
    rfl
  have hle : n ≤ a.len := by rw [hlen]; split <;> omega
  refine ⟨fun i hi => ⟨c.fresh + i, ?_, ?_, ?_, ?_⟩, ?_, ?_⟩
  · rw [hwalk]
    exact walk_built hnew (by omega)
  · simp only
    rw [hnew i (by omega)]
    have hlast : (i + 1 == a.len && !a.cyclic) = false := by
      rw [hcyclic, hlen]
      cases reuse with
      | true => exact Bool.and_false _
      | false => simp; omega
    exact hlast
  · simp only
    rw [hnew i (by omega)]
    unfold built addressControl HwDesc.memAddr
    simp only [hsg, hdirection, Option.map_some]
    rcases hdir with rfl | rfl
    · rfl
    · rfl
  · simp only
    rw [hnew i (by omega)]
    exact bytes_sg hsg (some c.fresh) i
  · cases reuse with
    | true =>
      have hlen' : a.len = n := hlen
      simp only [if_true]
      rw [hwalk, ← hlen']
      exact walk_closed hcyclic (by omega) hnew
    | false =>
      have hlen' : a.len = n + 1 := hlen
      simp only [Bool.false_eq_true, if_false]
      refine ⟨c.fresh + n, by rw [hwalk]; exact walk_built hnew (by omega), ?_⟩
      rw [hnew n (by omega)]
      have hlast : (n + 1 == a.len && !a.cyclic) = true := by
        rw [hcyclic, hlen']
        simp
      exact hlast
  · have hreads := hp.sgReads
    rw [hsg, hlen] at hreads
    exact hreads

/-- **The chain is never that of the scatterlist**: already the first descriptor transfers a
byte that its entry does not have. -/
theorem sg_chain_never {c c' : Chan} {h : ℕ} (sg : ℕ → SgEntry) (n : ℕ) (direction : Direction)
    (reuse : Bool) (alloc : ℕ → Bool × Bool) (hn : 1 ≤ n)
    (hprep : prepSlaveSg c sg n direction reuse alloc = (c', some h)) :
    ¬SgChain c c' h sg n direction reuse := by
  intro hchain
  obtain ⟨a, hsg, -, -, hlen, rfl, c₁, hp, rfl⟩ := prepSlaveSg_some hn hprep
  obtain ⟨k, hk, -, -, hbytes⟩ := hchain.data 0 (by omega)
  obtain rfl := Option.some.inj hk
  have hfirst := hp.new 0 (by rw [hlen]; split <;> omega)
  have hmore : (c₁.mem c.fresh).hw.bytes = (sg 0).dmaLen % 2 ^ 27 + 1 := by
    rw [Nat.add_zero] at hfirst
    have hmem : c₁.mem c.fresh = built a c.preps c.called.fresh a.len 0 := hfirst
    rw [hmem]
    exact bytes_sg hsg (some c.called.fresh) 0
  have hsame : (sg 0).dmaLen % 2 ^ 27 + 1 = (sg 0).dmaLen := hmore.symm.trans hbytes
  omega

/-- Two entries for a device. -/
def twoEntries : ℕ → SgEntry := fun i => ⟨4096 * (i + 1), 512⟩

/-- A channel at rest, on memory that is zero. -/
def Chan.rest : Chan :=
  { mem := fun _ => ⟨⟨false, 0, 0, 0, none⟩, 0, false, .memToMem, 0⟩, pending := [], headDesc := none
    fresh := 1, freed := [], sgReads := [], preps := 0, active := [] }

theorem sg_chain_never_two :
    ∃ c', prepSlaveSg .rest twoEntries 2 .memToDev false (fun _ => (true, true)) = (c', some 1) ∧
      (c'.mem 1).hw.bytes = 513 ∧ ¬SgChain .rest c' 1 twoEntries 2 .memToDev false :=
  ⟨_, rfl, rfl, sg_chain_never twoEntries 2 .memToDev false (fun _ => (true, true)) (by decide) rfl⟩

/-- **Two entries of 512 bytes** become two descriptors of 513 bytes. -/
theorem two_entries_longer :
    ∃ c', prepSlaveSg .rest twoEntries 2 .memToDev false (fun _ => (true, true)) = (c', some 1) ∧
      ¬SgChain .rest c' 1 twoEntries 2 .memToDev false := by
  refine ⟨_, rfl, ?_⟩
  intro hchain
  obtain ⟨k, hk, -, -, hbytes⟩ := hchain.data 0 (by decide)
  obtain rfl := Option.some.inj hk
  exact absurd hbytes (by decide)

/-! ## The copy -/

/-- What a call of `efx_dma_prep_dma_memcpy` that succeeds has built. -/
theorem prepDmaMemcpy_some {dst src len : ℕ} (hprep : prepDmaMemcpy c dst src len alloc = (c', some h)) :
    0 < len ∧ ∃ a : InitArgs, a.sg = none ∧ a.direction = .memToMem ∧ a.cyclic = false ∧ a.len = len ∧
      a.periodLen = (if len < PAGE_SIZE then 1 else len / PAGE_SIZE) + 1 ∧ a.srcAddr = src ∧
      a.dstAddr = dst ∧ h = c.fresh ∧
      ∃ c₁, Partial a c.preps c.called a.len c₁ ∧ c' = { c₁ with active := c.active ++ [c.preps] } := by
  unfold prepDmaMemcpy at hprep
  split at hprep
  · exact absurd (Prod.mk.inj hprep).2 (by simp)
  · rename_i hvalid
    have hlen : 0 < len := by omega
    exact ⟨hlen, _, rfl, rfl, rfl, rfl, rfl, rfl, rfl, finishPrep_some hlen hprep⟩

/-- From descriptor `i` on, what is copied is the period times the descriptors before the
terminator. -/
theorem copies_total {a : InitArgs} {base b : ℕ} (hcyclic : a.cyclic = false)
    (hnew : ∀ j < a.len, c.mem (base + j) = built a owner base a.len j)
    (hbytes : ∀ j, (addressControl a (some base) j).bytes = b) {k i src dst len : ℕ} (hi : i < a.len)
    (hcopies : Copies c (base + i) src dst len k) : len = (a.len - 1 - i) * b := by
  have hlast : (c.mem (base + i)).hw.completed = (i + 1 == a.len) := by
    rw [hnew i hi]
    unfold built addressControl
    rw [hcyclic]
    exact Bool.and_true _
  induction k generalizing i src dst len with
  | zero =>
    obtain ⟨rfl, hcompleted⟩ := hcopies
    rw [hlast, beq_iff_eq] at hcompleted
    rw [show a.len - 1 - i = 0 by omega, Nat.zero_mul]
  | succ k ih =>
    obtain ⟨hcompleted, -, -, hle, h', hnext, hrest⟩ := hcopies
    rw [hlast, beq_eq_false_iff_ne] at hcompleted
    have hb : (c.mem (base + i)).hw.bytes = b := by
      rw [hnew i hi]
      exact hbytes i
    have hh' : h' = base + (i + 1) := by
      rw [hnew i hi] at hnext
      unfold built at hnext
      rw [if_pos (by omega)] at hnext
      exact (Option.some.inj hnext).symm
    rw [hb] at hle hrest
    rw [hh'] at hrest
    have hlast' : (c.mem (base + (i + 1))).hw.completed = (i + 1 + 1 == a.len) := by
      rw [hnew (i + 1) (by omega)]
      unfold built addressControl
      rw [hcyclic]
      exact Bool.and_true _
    have hless := ih (by omega) hrest hlast'
    rw [show a.len - 1 - i = (a.len - 1 - (i + 1)) + 1 by omega, Nat.succ_mul]
    omega

/-- **A copy is done right if and only if it is of two bytes**: for `len` bytes the chain has
`len - 1` descriptors of at least two bytes, and none of them is the last of the copy. -/
theorem copy_chain_iff {c c' : Chan} {h : ℕ} (dst src len : ℕ) (alloc : ℕ → Bool × Bool)
    (hprep : prepDmaMemcpy c dst src len alloc = (c', some h)) :
    CopyChain c' h src dst len ↔ len = 2 := by
  obtain ⟨hpos, a, hsg, hdirection, hcyclic, hlen, hperiod, hsrc, hdst, rfl, c₁, hp, rfl⟩ :=
    prepDmaMemcpy_some hprep
  have hnew : ∀ j < a.len, c₁.mem (c.fresh + j) = built a c.preps c.fresh a.len j := hp.new
  have hbytes : ∀ j, (addressControl a (some c.fresh) j).bytes =
      (a.periodLen + (2 ^ 32 - 1)) % 2 ^ 27 + 1 := bytes_period hsg (some c.fresh)
  constructor
  · rintro ⟨k, hcopies⟩
    have htotal := copies_total (c := { c₁ with active := c.active ++ [c.preps] }) (i := 0) hcyclic
      hnew hbytes (by omega) hcopies
    generalize (a.periodLen + (2 ^ 32 - 1)) % 2 ^ 27 = m at htotal
    rw [hlen, Nat.sub_zero] at htotal
    rcases Nat.eq_zero_or_pos m with hm | hm
    · rw [hm, Nat.zero_add, Nat.mul_one] at htotal
      omega
    · have hmore : (len - 1) * 2 ≤ (len - 1) * (m + 1) := Nat.mul_le_mul_left _ (by omega)
      rw [← htotal] at hmore
      rcases Nat.lt_or_ge len 2 with hlt | hge
      · obtain rfl : len = 1 := by omega
        simp at htotal
      · omega
  · rintro rfl
    have hperiod' : a.periodLen = 2 := hperiod
    have hfirst := hnew 0 (by omega)
    have hsecond := hnew 1 (by omega)
    rw [Nat.add_zero] at hfirst
    have hb : (c₁.mem c.fresh).hw.bytes = 2 := by
      rw [hfirst]
      have h0 := hbytes 0
      rw [hperiod'] at h0
      exact h0
    refine ⟨1, ?_, ?_, ?_, ?_, c.fresh + 1, ?_, ?_, ?_⟩
    · simp only
      rw [hfirst]
      unfold built addressControl
      rw [hlen, hcyclic]
      rfl
    · simp only
      rw [hfirst]
      unfold built addressControl
      simp only [hdirection, hsrc, Nat.zero_mul, Nat.add_zero]
    · simp only
      rw [hfirst]
      unfold built addressControl
      simp only [hdirection, hdst, Nat.zero_mul, Nat.add_zero]
    · simp only
      rw [hb]
    · simp only
      rw [hfirst]
      unfold built
      rw [if_pos (by omega)]
    · simp only
      rw [hb]
    · simp only
      rw [hsecond]
      unfold built addressControl
      rw [hlen, hcyclic]
      rfl

theorem copy_chain_iff_two :
    ∃ c', prepDmaMemcpy .rest 8192 4096 2 (fun _ => (true, true)) = (c', some 1) ∧
      CopyChain c' 1 4096 8192 2 :=
  ⟨_, rfl, (copy_chain_iff 8192 4096 2 (fun _ => (true, true)) rfl).2 rfl⟩

/-- **A copy of three bytes** writes four. -/
theorem three_bytes_overrun :
    ∃ c', prepDmaMemcpy .rest 8192 4096 3 (fun _ => (true, true)) = (c', some 1) ∧
      ¬CopyChain c' 1 4096 8192 3 := by
  refine ⟨_, rfl, ?_⟩
  rintro ⟨k, hcopies⟩
  cases k with
  | zero => exact absurd hcopies.1 (by decide)
  | succ k =>
    obtain ⟨-, -, -, -, h', hnext, hrest⟩ := hcopies
    obtain rfl := Option.some.inj hnext
    cases k with
    | zero => exact absurd hrest.1 (by decide)
    | succ k =>
      obtain ⟨-, -, -, hle, -⟩ := hrest
      exact absurd hle (by decide)

end Br2Efinix.EfxDma
