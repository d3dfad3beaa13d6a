import Br2Efinix.Framebuffer.Mmap

/-!
# User mappings of the capture buffer

`evsoc_mmap` maps the area in one `remap_pfn_range`, from the capture buffer's first page on.

* `evsocMmap_inside_iff`: only pages of the buffer are mapped, at the requested offset, exactly where this is 0, the
  area is no longer than the buffer, and a failure leaves no page.
* `user_mappings_iff`: **the mappings of both drivers**.
-/

namespace Br2Efinix.EvSoc

open Framebuffer

def MAX_DMA_BUF_NUM : ℕ := 4

/-- `cam_dma_size` -/
def camDmaSize : ℕ := 1024 * 1024 * 4

/-- The DMA buffers that `my_init` has allocated; an address is missing where `kmalloc` failed. -/
structure CamDma where
  camDmaHandle : ℕ → Option (BitVec 32)

namespace CamDma

/-- `get_CAM_START_ADDR`; the address of a buffer that is missing is 0. -/
def getCamStartAddr (c : CamDma) (pIdx : ℕ) : BitVec 32 :=
  if pIdx ≥ MAX_DMA_BUF_NUM then 0#32 else (c.camDmaHandle pIdx).getD 0#32

/-- `CAPTURE_START_ADDR >> PAGE_SHIFT` -/
def capturePfn (c : CamDma) : ℕ := (c.getCamStartAddr 3 >>> PAGE_SHIFT).toNat

/-- A page of the capture buffer. -/
def page (c : CamDma) (k : ℕ) : ℕ := c.capturePfn + k

/-- The number of its pages. -/
def pages (c : CamDma) : ℕ := if (c.camDmaHandle 3).isSome then camDmaSize / PAGE_SIZE else 0

end CamDma

/-- The first `n` pages of a physical range, at the start of the area. -/
def pfnRange {a : Arch} (vma : Vma a) (pfn n : ℕ) : List (Mapped a) :=
  (List.range n).map fun i => ⟨vma.vmStart + BitVec.ofNat a.bits (i * PAGE_SIZE), pfn + i⟩

/-- `evsoc_mmap`. Where `remap_pfn_range` fails, it may leave some of the first pages mapped. -/
def evsocMmap {a : Arch} (c : CamDma) (vma : Vma a) (failed : Option ℕ) : Outcome a :=
  match failed with
  | none => ⟨pfnRange vma c.capturePfn vma.pageCount.toNat, 0⟩
  | some left => ⟨pfnRange vma c.capturePfn (min left vma.pageCount.toNat), -EAGAIN⟩

variable {a : Arch} {c : CamDma} {vma : Vma a} {failed : Option ℕ}

theorem pfnRange_getElem? {pfn n i : ℕ} (h : i < n) :
    (pfnRange vma pfn n)[i]? = some ⟨vma.vmStart + BitVec.ofNat a.bits (i * PAGE_SIZE), pfn + i⟩ := by
  unfold pfnRange
  rw [List.getElem?_map, List.getElem?_range h]
  rfl

theorem pfnRange_eq_nil {pfn n : ℕ} : pfnRange vma pfn n = [] ↔ n = 0 := by
  unfold pfnRange
  rw [List.map_eq_nil_iff, List.range_eq_nil]

theorem evsocMmap_none (c : CamDma) (vma : Vma a) :
    (evsocMmap c vma none).mapped = pfnRange vma c.capturePfn vma.pageCount.toNat := rfl

/-- **Only pages of the capture buffer are mapped** exactly where the area is empty, the mapping fails and leaves no
page, or the area begins at offset 0 and is no longer than the buffer. -/
theorem evsocMmap_inside_iff (c : CamDma) (vma : Vma a) (failed : Option ℕ) :
    Inside vma c.page c.pages (evsocMmap c vma failed) ↔
      vma.pageCount.toNat = 0 ∨ failed = some 0 ∨
        (failed = none ∧ vma.vmPgoff.toNat = 0 ∧ vma.pageCount.toNat ≤ c.pages) := by
  constructor
  · intro h
    by_cases hzero : vma.pageCount.toNat = 0
    · exact Or.inl hzero
    · cases failed with
      | none =>
        -- the first page tells the offset, and the last one the length
        have hfirst := (h.inside 0 _ (pfnRange_getElem? (Nat.pos_of_ne_zero hzero))).2
        have hlast := (h.inside (vma.pageCount.toNat - 1) _ (pfnRange_getElem? (by omega))).1
        have hpfn : c.capturePfn + 0 = c.capturePfn + (vma.vmPgoff.toNat + 0) := congrArg Mapped.pfn hfirst
        exact Or.inr (Or.inr ⟨rfl, by omega, by omega⟩)
      | some left =>
        have hleft := pfnRange_eq_nil.1 (h.error (show -EAGAIN ≠ 0 by decide))
        have hnone : left = 0 := by omega
        rw [hnone]
        exact Or.inr (Or.inl rfl)
  · intro h
    cases failed with
    | none =>
      refine ⟨fun hret => absurd rfl hret, ?_⟩
      intro i m hm
      have hi : i < vma.pageCount.toNat := by
        obtain ⟨hlt, -⟩ := List.getElem?_eq_some_iff.1 hm
        rwa [evsocMmap, pfnRange, List.length_map, List.length_range] at hlt
      obtain hzero | hnever | ⟨-, hoffset, hlength⟩ := h
      · omega
      · cases hnever
      · refine ⟨by omega, ?_⟩
        have hentry := hm.symm.trans (pfnRange_getElem? hi)
        rw [Option.some.inj hentry, CamDma.page, hoffset, Nat.zero_add]
    | some left =>
      have hleft : min left vma.pageCount.toNat = 0 := by
        obtain hzero | hfailed | ⟨hnever, -⟩ := h
        · omega
        · rw [Option.some.inj hfailed]
          exact Nat.zero_min _
        · cases hnever
      have hempty : evsocMmap c vma (some left) = ⟨[], -EAGAIN⟩ := by
        show Outcome.mk (pfnRange vma c.capturePfn (min left vma.pageCount.toNat)) (-EAGAIN) = ⟨[], -EAGAIN⟩
        rw [hleft]
        rfl
      rw [hempty]
      exact ⟨fun _ => rfl, nofun⟩

/-- **The user mappings of both drivers** stay inside the buffers exactly under these conditions. -/
theorem user_mappings_iff (fb : Fb a) (c : CamDma) (vma : Vma a) (remap : ℕ → Bool) (failed : Option ℕ) :
    (Inside vma fb.page fb.pages (efxfbMmap fb vma remap) ↔
        vma.pageCount.toNat = 0 ∨ remap 0 = false ∨ Fits fb vma remap) ∧
      (Inside vma c.page c.pages (evsocMmap c vma failed) ↔
        vma.pageCount.toNat = 0 ∨ failed = some 0 ∨
          (failed = none ∧ vma.vmPgoff.toNat = 0 ∧ vma.pageCount.toNat ≤ c.pages)) :=
  ⟨efxfbMmap_inside_iff fb vma remap, evsocMmap_inside_iff c vma failed⟩

/-- A frame buffer of 1024 pages, with the page frames behind it from 0x80000 on. -/
def vmallocFb : Fb .rv32 := ⟨0xD0000000#32, 0x400000#32, fun x => 0x80000 + x.toNat / PAGE_SIZE - 0xD0000⟩

/-- The capture buffer at 0x90000000. -/
def captureDma : CamDma := ⟨fun _ => some 0x90000000#32⟩

/-- One page behind the frame buffer. -/
def behindVma : Vma .rv32 := ⟨0x40000000#32, 0x40001000#32, 1024#32⟩

/-- One page more than the capture buffer has. -/
def longVma : Vma .rv32 := ⟨0x40000000#32, 0x40401000#32, 0#32⟩

/-- **The page behind either buffer** is mapped. -/
theorem pages_behind_mapped :
    efxfbMmap vmallocFb behindVma (fun _ => true) = ⟨[⟨0x40000000#32, 0x80400⟩], 0⟩ ∧
      ¬ Inside behindVma vmallocFb.page vmallocFb.pages (efxfbMmap vmallocFb behindVma fun _ => true) ∧
      (evsocMmap captureDma longVma none).mapped[1024]? = some ⟨0x40400000#32, 0x90400⟩ ∧
      ¬ Inside longVma captureDma.page captureDma.pages (evsocMmap captureDma longVma none) := by
  have hbehind : efxfbMmap vmallocFb behindVma (fun _ => true) = ⟨[⟨0x40000000#32, 0x80400⟩], 0⟩ := by decide
  have hlong : (evsocMmap captureDma longVma none).mapped[1024]? = some ⟨0x40400000#32, 0x90400⟩ := by
    have hentry : (Mapped.mk (longVma.vmStart + BitVec.ofNat Arch.rv32.bits (1024 * PAGE_SIZE))
        (captureDma.capturePfn + 1024) : Mapped .rv32) = ⟨0x40400000#32, 0x90400⟩ := by decide
    rw [← hentry, evsocMmap_none]
    exact pfnRange_getElem? (show 1024 < longVma.pageCount.toNat by decide)
  refine ⟨hbehind, ?_, hlong, ?_⟩
  · intro h
    rw [hbehind] at h
    exact absurd (h.inside 0 _ rfl).1 (by decide)
  · intro h
    have hin := (h.inside 1024 _ hlong).1
    have hpages : captureDma.pages = 1024 := by decide
    omega

end Br2Efinix.EvSoc
