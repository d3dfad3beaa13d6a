import Mathlib.Algebra.GroupWithZero.Nat
import Mathlib.Data.Int.Notation
import Mathlib.Data.List.Basic
import Mathlib.Data.Nat.Notation

/-!
# The firmware window

`efinix_rproc_map` and `efinix_rproc_da_to_va` on 64-bit words, and the loading of an image's segments in
`efinix_rproc_parse_fw_shm`: the kernel asks for the pointer of each loadable segment and then writes to it.

* `daToVa_right_iff`: the pointer is right exactly where the end of the request does not wrap around into the window.
* `firmware_window_iff`: **an image is loaded into the window, or refused**, exactly where this is so for all of its
  loadable segments.
-/

namespace Br2Efinix.Rproc

def EINVAL : ℤ := 22

/-! ## The driver -/

/-- The resource of the firmware's memory. -/
structure Resource where
  start : UInt64
  last : UInt64
  start_le : start ≤ last

/-- `resource_size`. -/
def Resource.size (res : Resource) : UInt64 := res.last - res.start + 1

/-- The firmware window in `struct efinix_rproc`. The memory and its mapping end within the address space. -/
structure Window where
  fwPa : UInt64
  fwVa : UInt64
  fwSize : UInt64
  pa_end : fwPa.toNat + fwSize.toNat ≤ 2 ^ 64
  va_end : fwVa.toNat + fwSize.toNat ≤ 2 ^ 64

theorem Resource.end_le (res : Resource) : res.start.toNat + res.size.toNat ≤ 2 ^ 64 := by
  have hle := UInt64.le_iff_toNat_le.1 res.start_le
  have hlast := res.last.toNat_lt
  have hone : (1 : UInt64).toNat = 1 := rfl
  have hsub : (res.last - res.start).toNat = res.last.toNat - res.start.toNat := by
    rw [UInt64.toNat_sub]
    omega
  unfold Resource.size
  rw [UInt64.toNat_add, hsub, hone]
  omega

/-- `efinix_rproc_map` of a resource, with what `ioremap_wc` returns. -/
def rprocMap (res : Resource) (va : UInt64) (hva : va.toNat + res.size.toNat ≤ 2 ^ 64) : Window :=
  ⟨res.start, va, res.size, res.end_le, hva⟩

/-- `efinix_rproc_da_to_va`; a pointer that it returns is one of I/O memory. -/
def daToVa (w : Window) (da len : UInt64) : Option UInt64 :=
  if da ≥ w.fwPa ∧ da + len ≤ w.fwPa + w.fwSize then some (w.fwVa + (da - w.fwPa)) else none

/-- A program header: whether it is loadable, and whether the kernel's own checks let it pass. -/
structure Segment where
  loadable : Bool
  checked : Bool
  paddr : UInt64
  memsz : UInt64
  deriving DecidableEq, Repr

/-- The kernel's `rproc_elf_load_segments`, with the pointers and lengths that it writes to. -/
def loadSegments (w : Window) : List Segment → ℤ × List (UInt64 × UInt64)
  | [] => (0, [])
  | seg :: rest =>
    if seg.loadable = false then loadSegments w rest
    else if seg.checked = false then (-EINVAL, [])
    else
      match daToVa w seg.paddr seg.memsz with
      | none => (-EINVAL, [])
      | some ptr =>
        let r := loadSegments w rest
        (r.1, (ptr, seg.memsz) :: r.2)

/-- What `efinix_rproc_parse_fw_shm` returns, where the rest of it comes to `started`. -/
def parseFw (w : Window) (segs : List Segment) (started : ℤ) : ℤ :=
  let ret := (loadSegments w segs).1
  if ret ≠ 0 then ret else started

/-! ## The property -/

/-- The request lies in the window. -/
def Inside (w : Window) (da len : UInt64) : Prop :=
  w.fwPa.toNat ≤ da.toNat ∧ da.toNat + len.toNat ≤ w.fwPa.toNat + w.fwSize.toNat

/-- A pointer is given only for a request in the window, and then the one in the mapping. -/
def PointerRight (w : Window) (da len : UInt64) : Prop :=
  ∀ ptr, daToVa w da len = some ptr →
    Inside w da len ∧ ptr.toNat = (w.fwVa.toNat + (da.toNat - w.fwPa.toNat)) % 2 ^ 64

/-- The bytes that are written. -/
def Written (writes : List (UInt64 × UInt64)) (addr : UInt64) : Prop :=
  ∃ wr ∈ writes, ∃ k < wr.2.toNat, addr = wr.1 + UInt64.ofNat k

/-- The pointers of the image's loadable segments are right, no byte outside the mapping is written, and an image with
a segment outside the window is refused. -/
structure StaysInside (w : Window) (segs : List Segment) : Prop where
  pointers : ∀ seg ∈ segs, seg.loadable = true → PointerRight w seg.paddr seg.memsz
  writes : ∀ addr, Written (loadSegments w segs).2 addr →
    w.fwVa.toNat ≤ addr.toNat ∧ addr.toNat < w.fwVa.toNat + w.fwSize.toNat
  refused : ∀ seg ∈ segs, seg.loadable = true → ¬Inside w seg.paddr seg.memsz → ∀ started, parseFw w segs started ≠ 0

/-- The request begins behind the window's start, and its end wraps around to the window's end or below it. -/
def WrapsInto (w : Window) (da len : UInt64) : Prop :=
  w.fwPa.toNat ≤ da.toNat ∧ 2 ^ 64 ≤ da.toNat + len.toNat ∧
    da.toNat + len.toNat - 2 ^ 64 ≤ w.fwPa.toNat + w.fwSize.toNat ∧ w.fwPa.toNat + w.fwSize.toNat < 2 ^ 64

/-! ## A request -/

variable {w : Window} {da len : UInt64} {segs : List Segment}

theorem daToVa_eq_some_iff {ptr : UInt64} :
    daToVa w da len = some ptr ↔
      (w.fwPa.toNat ≤ da.toNat ∧
        (da.toNat + len.toNat) % 2 ^ 64 ≤ (w.fwPa.toNat + w.fwSize.toNat) % 2 ^ 64) ∧
      w.fwVa + (da - w.fwPa) = ptr := by
  unfold daToVa
  rw [Option.ite_none_right_eq_some, Option.some_inj, ge_iff_le, UInt64.le_iff_toNat_le, UInt64.le_iff_toNat_le,
    UInt64.toNat_add, UInt64.toNat_add]

theorem pointer_toNat (h : w.fwPa.toNat ≤ da.toNat) :
    (w.fwVa + (da - w.fwPa)).toNat = (w.fwVa.toNat + (da.toNat - w.fwPa.toNat)) % 2 ^ 64 := by
  have hda := da.toNat_lt
  have hsub : (da - w.fwPa).toNat = da.toNat - w.fwPa.toNat := by
    rw [UInt64.toNat_sub]
    omega
  rw [UInt64.toNat_add, hsub]

/-- What is accepted lies in the window, unless it wraps around into it. -/
theorem inside_of_accepted (hstart : w.fwPa.toNat ≤ da.toNat)
    (hend : (da.toNat + len.toNat) % 2 ^ 64 ≤ (w.fwPa.toNat + w.fwSize.toNat) % 2 ^ 64) (hwrap : ¬WrapsInto w da len) :
    Inside w da len := by
  have hpa := w.pa_end
  have hda := da.toNat_lt
  have hlen := len.toNat_lt
  refine ⟨hstart, ?_⟩
  unfold WrapsInto at hwrap
  by_cases hsum : da.toNat + len.toNat < 2 ^ 64
  · rw [Nat.mod_eq_of_lt hsum] at hend
    exact Nat.le_trans hend (Nat.mod_le _ _)
  · -- the end wraps around, and meets the window's only where both are 2 ^ 64
    have hmod : (da.toNat + len.toNat) % 2 ^ 64 = da.toNat + len.toNat - 2 ^ 64 := by omega
    rw [hmod] at hend
    rcases Nat.lt_or_ge (w.fwPa.toNat + w.fwSize.toNat) (2 ^ 64) with hlt | hge
    · rw [Nat.mod_eq_of_lt hlt] at hend
      exact absurd ⟨hstart, Nat.not_lt.1 hsum, hend, hlt⟩ hwrap
    · have heq : w.fwPa.toNat + w.fwSize.toNat = 2 ^ 64 := Nat.le_antisymm hpa hge
      rw [heq, Nat.mod_self] at hend
      omega

/-- **A pointer is right** exactly where the request does not wrap around into the window. -/
theorem daToVa_right_iff (w : Window) (da len : UInt64) : PointerRight w da len ↔ ¬WrapsInto w da len := by
  constructor
  · rintro hright ⟨hstart, hge, hend, hlt⟩
    have hda := da.toNat_lt
    have hlen := len.toNat_lt
    have haccept : (da.toNat + len.toNat) % 2 ^ 64 ≤ (w.fwPa.toNat + w.fwSize.toNat) % 2 ^ 64 := by
      rw [Nat.mod_eq_of_lt hlt]
      omega
    have hinside := (hright _ (daToVa_eq_some_iff.2 ⟨⟨hstart, haccept⟩, rfl⟩)).1
    have hle := hinside.2
    omega
  · intro hwrap ptr hptr
    obtain ⟨⟨hstart, hend⟩, rfl⟩ := daToVa_eq_some_iff.1 hptr
    exact ⟨inside_of_accepted hstart hend hwrap, pointer_toNat hstart⟩

/-! ## An image -/

/-- The bytes of a request in the window are in the mapping. -/
theorem written_inside (h : Inside w da len) {k : ℕ} (hk : k < len.toNat) :
    w.fwVa.toNat ≤ (w.fwVa + (da - w.fwPa) + UInt64.ofNat k).toNat ∧
      (w.fwVa + (da - w.fwPa) + UInt64.ofNat k).toNat < w.fwVa.toNat + w.fwSize.toNat := by
  obtain ⟨hstart, hend⟩ := h
  have hva := w.va_end
  have hlen := len.toNat_lt
  have hptr := @pointer_toNat w da hstart
  have hbyte : (UInt64.ofNat k).toNat = k := UInt64.toNat_ofNat_of_lt' (Nat.lt_trans hk hlen)
  rw [UInt64.toNat_add, hptr, hbyte]
  omega

/-- **A run of the loader**: without a request that wraps around, every write is in the mapping, and a segment outside
the window makes it fail. -/
theorem loadSegments_inside (segs : List Segment)
    (h : ∀ seg ∈ segs, seg.loadable = true → ¬WrapsInto w seg.paddr seg.memsz) :
    (∀ addr, Written (loadSegments w segs).2 addr →
      w.fwVa.toNat ≤ addr.toNat ∧ addr.toNat < w.fwVa.toNat + w.fwSize.toNat) ∧
    ∀ seg ∈ segs, seg.loadable = true → ¬Inside w seg.paddr seg.memsz → (loadSegments w segs).1 ≠ 0 := by
  have hnone : ∀ addr, ¬Written [] addr := by
    rintro addr ⟨wr, hmem, -⟩
    exact absurd hmem List.not_mem_nil
  induction segs with
  | nil => exact ⟨fun addr hw => absurd hw (hnone addr), fun seg hmem => absurd hmem List.not_mem_nil⟩
  | cons seg rest ih =>
    obtain ⟨hwrites, hfails⟩ := ih fun s hmem => h s (List.mem_cons_of_mem _ hmem)
    unfold loadSegments
    by_cases hload : seg.loadable = false
    · rw [if_pos hload]
      refine ⟨hwrites, ?_⟩
      intro s hmem hs
      rcases List.mem_cons.1 hmem with rfl | hrest
      · exact absurd (hload.symm.trans hs) Bool.false_ne_true
      · exact hfails s hrest hs
    · rw [if_neg hload]
      by_cases hcheck : seg.checked = false
      · rw [if_pos hcheck]
        exact ⟨fun addr hw => absurd hw (hnone addr), fun _ _ _ _ => show -EINVAL ≠ 0 by decide⟩
      · rw [if_neg hcheck]
        cases hptr : daToVa w seg.paddr seg.memsz with
        | none => exact ⟨fun addr hw => absurd hw (hnone addr), fun _ _ _ _ => show -EINVAL ≠ 0 by decide⟩
        | some ptr =>
          have hwrap := h seg (List.mem_cons_self ..) (Bool.not_eq_false _ ▸ hload)
          have hinside := ((daToVa_right_iff w _ _).2 hwrap ptr hptr).1
          obtain ⟨-, rfl⟩ := daToVa_eq_some_iff.1 hptr
          constructor
          · rintro addr ⟨wr, hmem, k, hk, rfl⟩
            rcases List.mem_cons.1 hmem with rfl | hrest
            · exact written_inside hinside hk
            · exact hwrites _ ⟨wr, hrest, k, hk, rfl⟩
          · intro s hmem hs hout
            rcases List.mem_cons.1 hmem with rfl | hrest
            · exact absurd hinside hout
            · exact hfails s hrest hs hout

/-- **The firmware window** for every image: it is loaded into the window, or refused, exactly where no loadable
segment wraps around into the window. -/
theorem firmware_window_iff (w : Window) (segs : List Segment) :
    StaysInside w segs ↔ ∀ seg ∈ segs, seg.loadable = true → ¬WrapsInto w seg.paddr seg.memsz := by
  constructor
  · intro h seg hmem hload
    exact (daToVa_right_iff w _ _).1 (h.pointers seg hmem hload)
  · intro h
    obtain ⟨hwrites, hfails⟩ := loadSegments_inside segs h
    refine ⟨fun seg hmem hload => (daToVa_right_iff w _ _).2 (h seg hmem hload), hwrites, ?_⟩
    intro seg hmem hload hout started
    have hret := hfails seg hmem hload hout
    unfold parseFw
    simp only
    rw [if_pos hret]
    exact hret

theorem start_le_16M : (0x1000000 : UInt64) ≤ 0x10FFFFF := by decide +kernel

/-- 1 MB at 16 MB, and the window on it. -/
def memory16M : Resource := ⟨0x1000000, 0x10FFFFF, start_le_16M⟩

theorem va_end_16M : (0xD0000000 : UInt64).toNat + memory16M.size.toNat ≤ 2 ^ 64 := by decide +kernel

def window16M : Window := rprocMap memory16M 0xD0000000 va_end_16M

/-- A segment of 2 ^ 64 - 16 MB at the start of the window: its end is 0. -/
def hugeSegment : Segment := ⟨true, true, 0x1000000, 0xFFFFFFFFFF000000⟩

/-- **The huge segment** is given the start of the mapping, and all of it is written. -/
theorem huge_segment_written :
    ¬ StaysInside window16M [hugeSegment] ∧
      loadSegments window16M [hugeSegment] = (0, [(0xD0000000, 0xFFFFFFFFFF000000)]) := by
  refine ⟨?_, by decide +kernel⟩
  intro h
  have hptr : daToVa window16M hugeSegment.paddr hugeSegment.memsz = some 0xD0000000 := by decide +kernel
  have hinside := (h.pointers hugeSegment (List.mem_singleton_self _) rfl _ hptr).1
  exact absurd hinside.2 (by decide +kernel)

end Br2Efinix.Rproc
