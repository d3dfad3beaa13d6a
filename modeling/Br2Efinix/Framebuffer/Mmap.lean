import Mathlib.Algebra.GroupWithZero.Nat
import Mathlib.Data.Int.Notation
import Mathlib.Data.List.Basic
import Mathlib.Data.Nat.Notation

/-!
# User mappings of the frame buffer

`efxfb_mmap`, for any area that the memory management passes to it: the pages of the frame buffer are mapped one by
one, at addresses that come from shifts and sums of machine words.

* `mmapLoop_first`: the loop as long as the pages can be mapped.
* `shift_pages`: the shift of the loop's `int` counter is right on 32-bit words, and below 2 GiB on 64-bit ones.
* `efxfbMmap_inside_iff`: **only pages of the buffer are mapped**, at the requested offset and with no error after the
  first page, exactly where the area ends in the buffer, its pages can be mapped and their offsets fit in an `int`.
-/

namespace Br2Efinix.Framebuffer

def EAGAIN : ℤ := 11

/-! ## Areas and mappings -/

/-- The two kinds of systems. -/
inductive Arch
  | rv32
  | rv64
  deriving DecidableEq, Repr

/-- The bits of an `unsigned long`. -/
def Arch.bits : Arch → ℕ
  | rv32 => 32
  | rv64 => 64

def PAGE_SHIFT : ℕ := 12

def PAGE_SIZE : ℕ := 4096

/-- `struct vm_area_struct`. -/
structure Vma (a : Arch) where
  vmStart : BitVec a.bits
  vmEnd : BitVec a.bits
  vmPgoff : BitVec a.bits

/-- `PAGE_ALIGN`. -/
def PAGE_ALIGN {w : ℕ} (x : BitVec w) : BitVec w := (x + BitVec.ofNat w (PAGE_SIZE - 1)) &&& ~~~BitVec.ofNat w (PAGE_SIZE - 1)

/-- `PAGE_ALIGN(vma->vm_end - vma->vm_start) >> PAGE_SHIFT` -/
def Vma.pageCount {a : Arch} (vma : Vma a) : BitVec a.bits := PAGE_ALIGN (vma.vmEnd - vma.vmStart) >>> PAGE_SHIFT

/-- A page of the area, and the page frame that it is mapped to. -/
structure Mapped (a : Arch) where
  addr : BitVec a.bits
  pfn : ℕ
  deriving DecidableEq, Repr

/-- What a mapping operation leaves and returns. -/
structure Outcome (a : Arch) where
  mapped : List (Mapped a)
  ret : ℤ
  deriving DecidableEq, Repr

/-- There is an error and no page is mapped, or the pages of the area, in order, are mapped to the pages of a buffer of
`pages` pages from the requested offset on. -/
structure Inside {a : Arch} (vma : Vma a) (page : ℕ → ℕ) (pages : ℕ) (o : Outcome a) : Prop where
  error : o.ret ≠ 0 → o.mapped = []
  inside : ∀ i m, o.mapped[i]? = some m →
    vma.vmPgoff.toNat + i < pages ∧
      m = ⟨vma.vmStart + BitVec.ofNat a.bits (i * PAGE_SIZE), page (vma.vmPgoff.toNat + i)⟩

/-! ## The driver -/

/-- The frame buffer that `vmalloc` has allocated, and the kernel's page table. -/
structure Fb (a : Arch) where
  displayBuf : BitVec a.bits
  fbSize : BitVec 32
  vmallocToPfn : BitVec a.bits → ℕ

/-- The number of its pages. -/
def Fb.pages {a : Arch} (fb : Fb a) : ℕ := (fb.fbSize.toNat + (PAGE_SIZE - 1)) / PAGE_SIZE

/-- A page of the frame buffer. -/
def Fb.page {a : Arch} (fb : Fb a) (k : ℕ) : ℕ := fb.vmallocToPfn (fb.displayBuf + BitVec.ofNat a.bits (k * PAGE_SIZE))

/-- `i << PAGE_SHIFT` of an `int`, as an `unsigned long`. -/
def shifted (a : Arch) (i : BitVec 32) : BitVec a.bits := (i <<< PAGE_SHIFT).signExtend a.bits

/-- What the loop maps in one step. -/
def Fb.entry {a : Arch} (fb : Fb a) (vma : Vma a) (i : BitVec 32) : Mapped a :=
  let offset := vma.vmPgoff <<< PAGE_SHIFT
  let pageStart := fb.displayBuf + offset
  ⟨vma.vmStart + shifted a i, fb.vmallocToPfn (pageStart + shifted a i)⟩

/-- The loop of `efxfb_mmap`, where `remap i` says whether `remap_pfn_range` maps its `i`-th page. It ends within as
many steps as there are pages. -/
def Fb.mmapLoop {a : Arch} (fb : Fb a) (vma : Vma a) (remap : ℕ → Bool) : ℕ → ℕ → Outcome a
  | 0, _ => ⟨[], 0⟩
  | steps + 1, i =>
    if (BitVec.ofNat 32 i).signExtend a.bits < vma.pageCount then
      if remap i then
        let rest := fb.mmapLoop vma remap steps (i + 1)
        ⟨fb.entry vma (BitVec.ofNat 32 i) :: rest.mapped, rest.ret⟩
      else ⟨[], -EAGAIN⟩
    else ⟨[], 0⟩

/-- `efxfb_mmap`. -/
def efxfbMmap {a : Arch} (fb : Fb a) (vma : Vma a) (remap : ℕ → Bool) : Outcome a :=
  fb.mmapLoop vma remap vma.pageCount.toNat 0

/-! ## Machine words -/

variable {a : Arch} {fb : Fb a} {vma : Vma a} {remap : ℕ → Bool} {i k : ℕ}

theorem Arch.le_bits (a : Arch) : 32 ≤ a.bits := by
  cases a with
  | rv32 => exact Nat.le_refl 32
  | rv64 => decide

/-- A non-negative `int` is the same number as an `unsigned long`. -/
theorem signExtend_toNat {x : BitVec 32} (h : x.toNat < 2 ^ 31) : (x.signExtend a.bits).toNat = x.toNat := by
  have hmsb : x.msb = false := BitVec.msb_eq_false_iff_two_mul_lt.2 (by omega)
  have hpow : 2 ^ 32 ≤ 2 ^ a.bits := Nat.pow_le_pow_right (by decide) a.le_bits
  rw [BitVec.signExtend_eq_setWidth_of_msb_false hmsb, BitVec.toNat_setWidth]
  exact Nat.mod_eq_of_lt (by omega)

theorem counter_lt_iff (hi : i < 2 ^ 31) :
    (BitVec.ofNat 32 i).signExtend a.bits < vma.pageCount ↔ i < vma.pageCount.toNat := by
  have hnat : (BitVec.ofNat 32 i).toNat = i := by
    rw [BitVec.toNat_ofNat]
    exact Nat.mod_eq_of_lt (by omega)
  rw [BitVec.lt_def, signExtend_toNat (by omega), hnat]

/-- The shifted counter, up to where it overflows. -/
theorem shift_pages (h : a = .rv32 ∨ i < 2 ^ 19) :
    shifted a (BitVec.ofNat 32 i) = BitVec.ofNat a.bits (i * PAGE_SIZE) := by
  have hmul : BitVec.ofNat 32 i <<< PAGE_SHIFT = BitVec.ofNat 32 (i * PAGE_SIZE) := by
    apply BitVec.eq_of_toNat_eq
    rw [BitVec.toNat_shiftLeft, BitVec.toNat_ofNat, BitVec.toNat_ofNat, Nat.shiftLeft_eq]
    exact Nat.mod_mul_mod _ _ _
  unfold shifted
  rw [hmul]
  rcases h with rfl | hi
  · exact BitVec.signExtend_eq _
  · -- below 2 GiB the sign bit stays clear
    have hlt : i * PAGE_SIZE < 2 ^ 31 := by
      unfold PAGE_SIZE
      omega
    have hpow : 2 ^ 32 ≤ 2 ^ a.bits := Nat.pow_le_pow_right (by decide) a.le_bits
    have hnat : (BitVec.ofNat 32 (i * PAGE_SIZE)).toNat = i * PAGE_SIZE := by
      rw [BitVec.toNat_ofNat]
      exact Nat.mod_eq_of_lt (by omega)
    apply BitVec.eq_of_toNat_eq
    rw [signExtend_toNat (by omega), hnat, BitVec.toNat_ofNat]
    exact (Nat.mod_eq_of_lt (by omega)).symm

/-- From 2 GiB on it is negative. -/
theorem shift_overflows :
    shifted .rv64 (BitVec.ofNat 32 (2 ^ 19)) ≠ BitVec.ofNat Arch.rv64.bits (2 ^ 19 * PAGE_SIZE) := by
  have hlow : (shifted .rv64 (BitVec.ofNat 32 (2 ^ 19))).toNat = 0xFFFFFFFF80000000 := by decide
  intro heq
  rw [heq] at hlow
  exact absurd hlow (by decide)

theorem shift_pgoff (x : BitVec a.bits) : x <<< PAGE_SHIFT = BitVec.ofNat a.bits (x.toNat * PAGE_SIZE) := by
  apply BitVec.eq_of_toNat_eq
  rw [BitVec.toNat_shiftLeft, BitVec.toNat_ofNat, Nat.shiftLeft_eq]
  rfl

/-- The entry of a page is the one of the buffer at the requested offset, where the shift does not overflow. -/
theorem entry_eq (h : a = .rv32 ∨ i < 2 ^ 19) :
    fb.entry vma (BitVec.ofNat 32 i) =
      ⟨vma.vmStart + BitVec.ofNat a.bits (i * PAGE_SIZE), fb.page (vma.vmPgoff.toNat + i)⟩ := by
  have hsum : fb.displayBuf + vma.vmPgoff <<< PAGE_SHIFT + BitVec.ofNat a.bits (i * PAGE_SIZE) =
      fb.displayBuf + BitVec.ofNat a.bits ((vma.vmPgoff.toNat + i) * PAGE_SIZE) := by
    rw [shift_pgoff, BitVec.add_assoc, ← BitVec.ofNat_add, Nat.add_mul]
  unfold Fb.entry Fb.page
  simp only [shift_pages h]
  rw [hsum]

/-! ## The loop -/

/-- The first pages of a run of the loop that can be mapped. -/
theorem mmapLoop_first (fb : Fb a) (vma : Vma a) (steps : ℕ) (hcount : i + k ≤ vma.pageCount.toNat)
    (hint : i + k ≤ 2 ^ 31) (hmap : ∀ j < k, remap (i + j) = true) :
    fb.mmapLoop vma remap (k + steps) i =
      ⟨(List.range k).map (fun j => fb.entry vma (BitVec.ofNat 32 (i + j))) ++
          (fb.mmapLoop vma remap steps (i + k)).mapped, (fb.mmapLoop vma remap steps (i + k)).ret⟩ := by
  induction k generalizing i with
  | zero => rw [Nat.zero_add]; rfl
  | succ k ih =>
    have hcounter : _ < vma.pageCount ↔ i < vma.pageCount.toNat := counter_lt_iff (by omega)
    have hlt := hcounter.2 (by omega)
    have hrest := ih (i := i + 1) (by omega) (by omega) (fun j hj => by
      have h := hmap (j + 1) (by omega)
      rwa [← Nat.add_assoc, Nat.add_right_comm] at h)
    have hhere : remap i = true := hmap 0 (Nat.succ_pos k)
    have hsteps : k + 1 + steps = (k + steps) + 1 := Nat.add_right_comm k 1 steps
    have hi : i + 1 + k = i + (k + 1) := by omega
    rw [hsteps, Fb.mmapLoop, if_pos hlt, if_pos hhere, hrest, hi, List.range_succ_eq_map,
      List.map_cons, List.map_map]
    have htail : (fun j => fb.entry vma (BitVec.ofNat 32 (i + 1 + j))) =
        (fun j => fb.entry vma (BitVec.ofNat 32 (i + j))) ∘ Nat.succ := by
      funext j
      show fb.entry vma (BitVec.ofNat 32 (i + 1 + j)) = fb.entry vma (BitVec.ofNat 32 (i + (j + 1)))
      rw [Nat.add_assoc, Nat.add_comm 1 j]
    rw [htail]
    rfl

/-- `efxfb_mmap` when its first `k` pages can be mapped. -/
theorem efxfbMmap_first (fb : Fb a) (vma : Vma a) (hcount : k ≤ vma.pageCount.toNat) (hint : k ≤ 2 ^ 31)
    (hmap : ∀ j < k, remap j = true) :
    efxfbMmap fb vma remap =
      ⟨(List.range k).map (fun j => fb.entry vma (BitVec.ofNat 32 j)) ++
          (fb.mmapLoop vma remap (vma.pageCount.toNat - k) k).mapped,
        (fb.mmapLoop vma remap (vma.pageCount.toNat - k) k).ret⟩ := by
  have h := mmapLoop_first fb vma (i := 0) (k := k) (vma.pageCount.toNat - k)
    (by omega) (by omega) (fun j hj => (congrArg remap (Nat.zero_add j)).trans (hmap j hj))
  simp only [Nat.zero_add] at h
  rw [Nat.add_sub_cancel' hcount] at h
  exact h

theorem efxfbMmap_empty (hzero : vma.pageCount.toNat = 0) : efxfbMmap fb vma remap = ⟨[], 0⟩ := by
  unfold efxfbMmap
  rw [hzero]
  rfl

/-- Each page of it is mapped. -/
theorem efxfbMmap_mapped (fb : Fb a) (vma : Vma a) (hcount : k < vma.pageCount.toNat) (hint : k < 2 ^ 31)
    (hmap : ∀ j ≤ k, remap j = true) :
    (efxfbMmap fb vma remap).mapped[k]? = some (fb.entry vma (BitVec.ofNat 32 k)) := by
  have h := efxfbMmap_first fb vma (k := k + 1) (Nat.succ_le_of_lt hcount) (Nat.succ_le_of_lt hint)
    (fun j hj => hmap j (Nat.le_of_lt_succ hj))
  rw [h]
  show (List.map _ (List.range (k + 1)) ++ _)[k]? = _
  rw [List.getElem?_append_left (by rw [List.length_map, List.length_range]; exact Nat.lt_succ_self k),
    List.getElem?_map, List.getElem?_range (Nat.lt_succ_self k)]
  rfl

/-- A page that cannot be mapped ends the loop. -/
theorem efxfbMmap_fails (fb : Fb a) (vma : Vma a) (hcount : k < vma.pageCount.toNat) (hint : k < 2 ^ 31)
    (hmap : ∀ j < k, remap j = true) (hfail : remap k = false) :
    efxfbMmap fb vma remap = ⟨(List.range k).map (fun j => fb.entry vma (BitVec.ofNat 32 j)), -EAGAIN⟩ := by
  obtain ⟨steps, hsteps⟩ : ∃ steps, vma.pageCount.toNat - k = steps + 1 := ⟨vma.pageCount.toNat - k - 1, by omega⟩
  have hend : fb.mmapLoop vma remap (steps + 1) k = ⟨[], -EAGAIN⟩ := by
    rw [Fb.mmapLoop, if_pos ((counter_lt_iff hint).2 hcount), hfail, if_neg Bool.false_ne_true]
  rw [efxfbMmap_first fb vma (Nat.le_of_lt hcount) (Nat.le_of_lt hint) hmap, hsteps, hend, List.append_nil]

/-! ## The result -/

theorem Fb.pages_le (fb : Fb a) : fb.pages ≤ 2 ^ 20 := by
  have hlt := fb.fbSize.isLt
  unfold Fb.pages PAGE_SIZE
  omega

/-- The pages of the area end in the buffer, they can be mapped, and their offsets fit in an `int`. -/
structure Fits (fb : Fb a) (vma : Vma a) (remap : ℕ → Bool) : Prop where
  ends : vma.vmPgoff.toNat + vma.pageCount.toNat ≤ fb.pages
  remaps : ∀ i < vma.pageCount.toNat, remap i = true
  offsets : a = .rv64 → vma.pageCount.toNat ≤ 2 ^ 19

/-- An area that fits is mapped into the buffer. -/
theorem Fits.inside (h : Fits fb vma remap) : Inside vma fb.page fb.pages (efxfbMmap fb vma remap) := by
  have hpages := fb.pages_le
  have hends := h.ends
  have hmap := efxfbMmap_first fb vma (Nat.le_refl _) (by omega) h.remaps
  rw [Nat.sub_self] at hmap
  have hmapped : (efxfbMmap fb vma remap).mapped =
      (List.range vma.pageCount.toNat).map (fun j => fb.entry vma (BitVec.ofNat 32 j)) := by
    rw [hmap]
    exact List.append_nil _
  refine ⟨fun hret => absurd (by rw [hmap]; rfl) hret, ?_⟩
  intro i m hm
  rw [hmapped, List.getElem?_map, Option.map_eq_some_iff] at hm
  obtain ⟨j, hj, rfl⟩ := hm
  obtain ⟨hlt, heq⟩ := List.getElem?_eq_some_iff.1 hj
  rw [List.length_range] at hlt
  rw [List.getElem_range] at heq
  subst heq
  refine ⟨by omega, entry_eq ?_⟩
  cases a with
  | rv32 => exact Or.inl rfl
  | rv64 =>
    have hoffsets := h.offsets rfl
    exact Or.inr (by omega)

/-- In a mapping that stays inside, every page of the area is in the buffer and has been mapped, once the first has. -/
theorem Inside.reaches (h : Inside vma fb.page fb.pages (efxfbMmap fb vma remap)) (hfirst : remap 0 = true)
    (hk : k ≤ vma.pageCount.toNat) : ∀ j < k, remap j = true ∧ vma.vmPgoff.toNat + j < fb.pages := by
  have hpages := fb.pages_le
  induction k with
  | zero => exact fun j hj => absurd hj (Nat.not_lt_zero j)
  | succ k ih =>
    have hprev := ih (by omega)
    have hint : k < 2 ^ 31 := by
      rcases Nat.eq_zero_or_pos k with rfl | hpos
      · exact Nat.two_pow_pos 31
      · have hlast := (hprev (k - 1) (by omega)).2
        omega
    have hmap : remap k = true := by
      cases hremap : remap k with
      | true => rfl
      | false =>
        -- an error after the first page leaves the earlier ones mapped
        have hfails := efxfbMmap_fails fb vma (by omega) hint (fun j hj => (hprev j hj).1) hremap
        have herror := h.error
        rw [hfails] at herror
        have hempty := List.map_eq_nil_iff.1 (herror (show -EAGAIN ≠ 0 by decide))
        rw [List.range_eq_nil] at hempty
        subst hempty
        rw [hfirst] at hremap
        cases hremap
    have hall : ∀ j ≤ k, remap j = true := by
      intro j hj
      rcases Nat.lt_or_eq_of_le hj with hlt | rfl
      · exact (hprev j hlt).1
      · exact hmap
    have hin := (h.inside k _ (efxfbMmap_mapped fb vma (by omega) hint hall)).1
    intro j hj
    rcases Nat.lt_or_eq_of_le (Nat.le_of_lt_succ hj) with hlt | rfl
    · exact hprev j hlt
    · exact ⟨hmap, hin⟩

/-- An area whose first page can be mapped and that stays inside fits. -/
theorem Inside.fits (h : Inside vma fb.page fb.pages (efxfbMmap fb vma remap)) (hfirst : remap 0 = true)
    (hpos : vma.pageCount.toNat ≠ 0) : Fits fb vma remap := by
  have hreach := h.reaches hfirst (Nat.le_refl _)
  have hpages := fb.pages_le
  have hlast := (hreach (vma.pageCount.toNat - 1) (by omega)).2
  refine ⟨by omega, fun i hi => (hreach i hi).1, ?_⟩
  rintro rfl
  by_contra hlong
  -- the page at 2 GiB goes below the area
  have hmapped := efxfbMmap_mapped fb vma (k := 2 ^ 19) (by omega) (by omega)
    (fun j hj => (hreach j (by omega)).1)
  have haddr := congrArg Mapped.addr (h.inside _ _ hmapped).2
  exact shift_overflows ((BitVec.add_right_inj _).1 haddr)

/-- **Only pages of the frame buffer are mapped** exactly where the area is empty, its first page cannot be mapped, or
it fits. -/
theorem efxfbMmap_inside_iff (fb : Fb a) (vma : Vma a) (remap : ℕ → Bool) :
    Inside vma fb.page fb.pages (efxfbMmap fb vma remap) ↔
      vma.pageCount.toNat = 0 ∨ remap 0 = false ∨ Fits fb vma remap := by
  constructor
  · intro h
    by_cases hzero : vma.pageCount.toNat = 0
    · exact Or.inl hzero
    · cases hfirst : remap 0 with
      | false => exact Or.inr (Or.inl rfl)
      | true => exact Or.inr (Or.inr (h.fits hfirst hzero))
  · rintro (hzero | hfirst | hfits)
    · rw [efxfbMmap_empty hzero]
      exact ⟨fun _ => rfl, nofun⟩
    · by_cases hzero : vma.pageCount.toNat = 0
      · rw [efxfbMmap_empty hzero]
        exact ⟨fun _ => rfl, nofun⟩
      · rw [efxfbMmap_fails fb vma (Nat.pos_of_ne_zero hzero) (by decide) nofun hfirst]
        exact ⟨fun _ => rfl, nofun⟩
    · exact hfits.inside

end Br2Efinix.Framebuffer
