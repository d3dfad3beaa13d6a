import Br2Efinix.Emmc.Dma

/-!
# What the descriptor table describes

The controller reads the table from its first descriptor to the one marked
`END`; a length field of `0` stands for 65536 bytes. `AdmaDescribes` says that
this walk covers a given sequence of bus addresses.

* `direct_describes`: without the bounce buffer a table that is built describes
  the DMA segments in order.
* `bounce_describes_iff`: with it, the one descriptor describes the transfer only
  up to 65536 bytes: its length field has 16 bits.
* `admaTablePre_describes_iff`: both paths together.
* `admaTablePre_truncates`: a 128 KiB read over two segments at an address that is
  4 modulo 8 succeeds with a wrong table.
-/

namespace Br2Efinix.Emmc

/-! ## Reading a table -/

/-- The bytes a descriptor covers. -/
def AdmaDesc.bytes (d : AdmaDesc) : ℕ := if d.len = 0 then 65536 else d.len.toNat

/-- The bus addresses a descriptor covers. -/
def AdmaDesc.range (d : AdmaDesc) : List ℕ := List.range' d.addr.toNat d.bytes

/-- The bus addresses the first `n` descriptors cover, in order. -/
def admaDecode (desc : ℕ → AdmaDesc) (n : ℕ) : List ℕ := (List.range n).flatMap fun k => (desc k).range

/-- The bus addresses of a scatterlist's DMA segments, in order. -/
def segmentAddrs (entries : List Scatterlist) : List ℕ :=
  entries.flatMap fun sg => List.range' sg.dmaAddress sg.dmaLen

/-- The bus addresses a request's data are at. -/
def transferAddrs (h : Host) (data : MmcData) : List ℕ :=
  if useBounce data.entries then List.range' h.bounceDma.addr data.size
  else segmentAddrs data.entries

/-- **A good table**: `n` descriptors, each `VALID|TRAN`, `END` on the last only,
that cover exactly the given addresses, and nothing written past the table. -/
def AdmaDescribes (old new : ℕ → AdmaDesc) (addrs : List ℕ) : Prop :=
  ∃ n, 0 < n ∧ n ≤ ADMA_DESC_NUM ∧
    (∀ k, k < n → (new k).attr.valid = true ∧ (new k).attr.tran = true ∧
      ((new k).attr.endBit = true ↔ k + 1 = n)) ∧
    admaDecode new n = addrs ∧ ∀ k, ADMA_DESC_NUM ≤ k → new k = old k

theorem admaDecode_succ (desc : ℕ → AdmaDesc) (n : ℕ) :
    admaDecode desc (n + 1) = admaDecode desc n ++ (desc n).range := by
  simp [admaDecode, List.range_succ]

theorem admaDecode_congr {desc desc' : ℕ → AdmaDesc} {n : ℕ}
    (h : ∀ k, k < n → (desc k).range = (desc' k).range) : admaDecode desc n = admaDecode desc' n := by
  induction n with
  | zero => rfl
  | succ n ih =>
    rw [admaDecode_succ, admaDecode_succ, ih fun k hk => h k (by omega), h n (Nat.lt_succ_self n)]

/-- Marking a descriptor as last leaves what it covers. -/
theorem markEnd_range (desc : ℕ → AdmaDesc) (k j : ℕ) :
    (admaMarkEnd desc k j).range = (desc j).range := by
  unfold admaMarkEnd
  split
  · rename_i hj; subst hj; rfl
  · rfl

/-- A length of 1 to 65536 bytes survives the length field. -/
theorem bytes_ofNat {len : ℕ} (h0 : 0 < len) (h1 : len ≤ EFX_ADMA_MAX_LEN) (a : AdmaAttr)
    (addr : UInt32) : AdmaDesc.bytes ⟨a, UInt16.ofNat len, addr⟩ = len := by
  unfold EFX_ADMA_MAX_LEN at h1
  have hto : (UInt16.ofNat len).toNat = len % 65536 := UInt16.toNat_ofNat'
  unfold AdmaDesc.bytes
  rcases Nat.eq_or_lt_of_le h1 with h | h
  · subst h; rfl
  · have hne : UInt16.ofNat len ≠ 0 := by
      intro he
      rw [he] at hto
      have : (0 : UInt16).toNat = 0 := rfl
      omega
    rw [if_neg hne, hto, Nat.mod_eq_of_lt h]

/-- No length field stands for more than 65536 bytes, and none for no byte. -/
theorem bytes_pos_le (d : AdmaDesc) : 0 < d.bytes ∧ d.bytes ≤ EFX_ADMA_MAX_LEN := by
  unfold AdmaDesc.bytes EFX_ADMA_MAX_LEN
  split
  · omega
  · rename_i hne
    have hlt : d.len.toNat < 65536 := d.len.toNat_lt
    have : d.len.toNat ≠ 0 := fun h0 => hne (UInt16.toNat_inj.1 (by simpa using h0))
    omega

theorem range_ofNat {addr len : ℕ} (h0 : 0 < len) (h1 : len ≤ EFX_ADMA_MAX_LEN)
    (hfit : addr + len ≤ 2 ^ 32) (a : AdmaAttr) :
    AdmaDesc.range ⟨a, UInt16.ofNat len, UInt32.ofNat addr⟩ = List.range' addr len := by
  have hto : (UInt32.ofNat addr).toNat = addr := by
    rw [UInt32.toNat_ofNat']; exact Nat.mod_eq_of_lt (by omega)
  rw [AdmaDesc.range, bytes_ofNat h0 h1, hto]

/-! ## The direct path -/

/-- The descriptors written so far cover `bytes`. -/
structure Filled (base : ℕ → AdmaDesc) (t : AdmaFill) (bytes : List ℕ) : Prop where
  ret : t.ret = 0
  count_le : t.descCount ≤ ADMA_DESC_NUM
  attr : ∀ k, k < t.descCount → (t.desc k).attr = ADMA_VALID_TRAN
  decoded : admaDecode t.desc t.descCount = bytes
  past : ∀ k, ADMA_DESC_NUM ≤ k → t.desc k = base k

variable {base : ℕ → AdmaDesc} {t : AdmaFill} {bytes : List ℕ}

/-- One descriptor more. -/
theorem Filled.push (hf : Filled base t bytes) {addr len : ℕ} (h0 : 0 < len)
    (h1 : len ≤ EFX_ADMA_MAX_LEN) (hfit : addr + len ≤ 2 ^ 32) (hroom : t.descCount < ADMA_DESC_NUM) :
    Filled base
      { t with
        desc := admaSetDesc t.desc t.descCount addr len ADMA_VALID_TRAN
        descCount := t.descCount + 1 }
      (bytes ++ List.range' addr len) := by
  have hold : ∀ k, k < t.descCount → admaSetDesc t.desc t.descCount addr len ADMA_VALID_TRAN k =
      t.desc k := fun k hk => by rw [admaSetDesc, if_neg (by omega)]
  have hnew : admaSetDesc t.desc t.descCount addr len ADMA_VALID_TRAN t.descCount =
      ⟨ADMA_VALID_TRAN, UInt16.ofNat len, UInt32.ofNat addr⟩ := by rw [admaSetDesc, if_pos rfl]
  refine ⟨hf.ret, hroom, ?_, ?_, ?_⟩
  · intro k hk
    rcases Nat.eq_or_lt_of_le (Nat.lt_succ_iff.1 hk) with h | h
    · simp only [h, hnew]
    · simp only [hold k h]; exact hf.attr k h
  · simp only
    rw [admaDecode_succ, hnew, range_ofNat h0 h1 hfit,
      admaDecode_congr fun k hk => by rw [hold k hk], hf.decoded]
  · intro k hk
    simp only
    rw [admaSetDesc, if_neg (by omega), hf.past k hk]

/-- One segment, from `offset` on: either the table is full or the segment is covered. -/
theorem admaSplit_filled (addr : ℕ) :
    ∀ fuel offset len t bytes, Filled base t bytes → len ≤ fuel → addr + offset + len ≤ 2 ^ 32 →
      (admaSplit addr fuel offset len t).ret = 0 →
      Filled base (admaSplit addr fuel offset len t) (bytes ++ List.range' (addr + offset) len) := by
  intro fuel
  induction fuel with
  | zero =>
    intro offset len t bytes hf hlen _ _
    obtain rfl : len = 0 := by omega
    simpa [admaSplit] using hf
  | succ fuel ih =>
    intro offset len t bytes hf hlen hfit hret
    rw [admaSplit] at hret ⊢
    split at hret
    · rename_i hpos
      rw [if_pos hpos]
      simp only at hret ⊢
      split at hret
      · exact absurd hret (show -EINVAL ≠ 0 by decide)
      · rename_i hroom
        rw [if_neg hroom]
        set alignLen := min len EFX_ADMA_MAX_LEN with halign
        have hle : alignLen ≤ len := Nat.min_le_left _ _
        have hmax : alignLen ≤ EFX_ADMA_MAX_LEN := Nat.min_le_right _ _
        have hapos : 0 < alignLen := by unfold EFX_ADMA_MAX_LEN at halign; omega
        have hpush := hf.push hapos hmax (show addr + offset + alignLen ≤ 2 ^ 32 by omega)
          (Nat.not_le.1 hroom)
        -- the rest of the segment starts where this descriptor ends
        have hrest := ih (offset + alignLen) (len - alignLen) _ _ hpush (by omega) (by omega) hret
        have hcat : List.range' (addr + offset) alignLen ++
            List.range' (addr + (offset + alignLen)) (len - alignLen) =
            List.range' (addr + offset) len := by
          rw [← Nat.add_assoc, List.range'_append_1, Nat.add_sub_cancel' hle]
        rwa [List.append_assoc, hcat] at hrest
    · rename_i hpos
      obtain rfl : len = 0 := by omega
      rw [if_neg hpos]
      simpa using hf

/-- All segments. -/
theorem admaDirect_filled (entries : List Scatterlist) :
    ∀ t bytes, Filled base t bytes → (admaDirect entries t).ret = 0 →
      Filled base (admaDirect entries t) (bytes ++ segmentAddrs entries) := by
  induction entries with
  | nil => intro t bytes hf _; simpa [admaDirect, segmentAddrs] using hf
  | cons sg rest ih =>
    intro t bytes hf hret
    rw [admaDirect] at hret ⊢
    split at hret
    · rename_i hne; exact absurd hret hne
    · rename_i hz
      rw [if_neg hz]
      have hsplit := admaSplit_filled sg.dmaAddress sg.dmaLen 0 sg.dmaLen t bytes hf
        (Nat.le_refl _) (by rw [Nat.add_zero]; exact sg.dma.fits) (not_not.1 hz)
      have hrest := ih _ _ hsplit hret
      rw [List.append_assoc] at hrest
      simpa [segmentAddrs] using hrest

/-- A filled table with its last descriptor marked is a good table. -/
theorem Filled.describes (hf : Filled base t bytes) (hpos : 0 < t.descCount) :
    AdmaDescribes base (admaMarkEnd t.desc (t.descCount - 1)) bytes := by
  have hcount := hf.count_le
  refine ⟨t.descCount, hpos, hcount, ?_, ?_, ?_⟩
  · intro k hk
    have hattr := hf.attr k hk
    unfold admaMarkEnd
    split
    · rename_i hlast
      subst hlast
      rw [hattr]
      exact ⟨rfl, rfl, by simp; omega⟩
    · rename_i hlast
      rw [hattr]
      exact ⟨rfl, rfl, by simp [ADMA_VALID_TRAN]; omega⟩
  · rw [← hf.decoded]
    exact admaDecode_congr fun k _ => markEnd_range _ _ k
  · intro k hk
    rw [admaMarkEnd, if_neg (by omega), hf.past k hk]

/-- **Without the bounce buffer a table that is built is good.** -/
theorem direct_describes (h : Host) (data : MmcData) (hb : useBounce data.entries = false)
    (hok : (admaTablePre h data).1 = 0) :
    AdmaDescribes h.admaDesc (admaTablePre h data).2.admaDesc (segmentAddrs data.entries) := by
  have hstart : Filled h.admaDesc ⟨h.admaDesc, 0, 0⟩ [] :=
    ⟨rfl, Nat.zero_le _, fun k hk => absurd hk (Nat.not_lt_zero k), rfl, fun _ _ => rfl⟩
  unfold admaTablePre at hok ⊢
  rw [hb] at hok ⊢
  simp only [Bool.false_eq_true, if_false] at hok ⊢
  split at hok
  · rename_i hne; exact absurd hok hne
  · rename_i hz
    rw [if_neg hz]
    have hfill := admaDirect_filled data.entries _ _ hstart (not_not.1 hz)
    rw [List.nil_append] at hfill
    split at hok
    · rename_i hpos
      rw [if_pos hpos]
      exact hfill.describes hpos
    · exact absurd hok (show -EINVAL ≠ 0 by decide)

/-! ## The bounce path -/

/-- The table of the bounce path: one descriptor, marked last. -/
theorem bounce_desc (h : Host) (data : MmcData) (hb : useBounce data.entries = true)
    (hok : (admaTablePre h data).1 = 0) :
    data.size ≤ h.bounceBufferSize ∧ (admaTablePre h data).2.admaDesc =
      admaMarkEnd (admaSetDesc h.admaDesc 0 h.bounceDma.addr data.size ADMA_VALID_TRAN) 0 := by
  unfold admaTablePre at hok ⊢
  rw [hb] at hok ⊢
  simp only [if_true] at hok ⊢
  cases hbuf : h.bounceBuffer with
  | none => rw [hbuf] at hok; exact absurd hok (show -ENOMEM ≠ 0 by decide)
  | some buf =>
    rw [hbuf] at hok
    simp only at hok ⊢
    split at hok
    · exact absurd hok (show -EINVAL ≠ 0 by decide)
    · rename_i hsize
      rw [if_neg hsize]
      exact ⟨Nat.not_lt.1 hsize, rfl⟩

/-- **The bounce path describes the transfer only up to 65536 bytes.** -/
theorem bounce_describes_iff (h : Host) (data : MmcData) (hb : useBounce data.entries = true)
    (hok : (admaTablePre h data).1 = 0) :
    AdmaDescribes h.admaDesc (admaTablePre h data).2.admaDesc
        (List.range' h.bounceDma.addr data.size) ↔
      0 < data.size ∧ data.size ≤ EFX_ADMA_MAX_LEN := by
  obtain ⟨hsize, hdesc⟩ := bounce_desc h data hb hok
  rw [hdesc]
  set desc := admaSetDesc h.admaDesc 0 h.bounceDma.addr data.size ADMA_VALID_TRAN with hd
  have hzero : desc 0 = ⟨ADMA_VALID_TRAN, UInt16.ofNat data.size, UInt32.ofNat h.bounceDma.addr⟩ := by
    rw [hd, admaSetDesc, if_pos rfl]
  have hdec : admaDecode (admaMarkEnd desc 0) 1 = (desc 0).range := by
    rw [admaDecode_succ, markEnd_range]; rfl
  constructor
  · rintro ⟨n, hpos, -, hattr, haddrs, -⟩
    -- the first descriptor is marked, so the walk ends there
    have hone : n = 1 := by
      have hend := (hattr 0 hpos).2.2.1 (by simp [admaMarkEnd])
      omega
    subst hone
    rw [hdec] at haddrs
    have hlen := congrArg List.length haddrs
    rw [AdmaDesc.range, List.length_range', List.length_range'] at hlen
    rw [← hlen]
    exact bytes_pos_le _
  · rintro ⟨h0, h1⟩
    have hfits := h.bounceDma.fits
    unfold Host.bounceBufferSize at hsize
    refine ⟨1, Nat.one_pos, by decide, ?_, ?_, ?_⟩
    · intro k hk
      obtain rfl : k = 0 := by omega
      rw [admaMarkEnd, if_pos rfl, hzero]
      exact ⟨rfl, rfl, by simp⟩
    · rw [hdec, hzero, range_ofNat h0 h1 (by omega)]
    · intro k hk
      have hk0 : k ≠ 0 := by
        rintro rfl
        exact absurd hk (by decide)
      rw [admaMarkEnd, if_neg hk0, hd, admaSetDesc, if_neg hk0]

/-! ## Both paths -/

/-- **When a table that is built describes the request.** The core checks that the
scatterlist has the request's size. -/
theorem admaTablePre_describes_iff (h : Host) (data : MmcData)
    (hsum : (data.entries.map Scatterlist.dmaLen).sum = data.size)
    (hok : (admaTablePre h data).1 = 0) :
    (AdmaDescribes h.admaDesc (admaTablePre h data).2.admaDesc (transferAddrs h data) ∧
        (transferAddrs h data).length = data.size) ↔
      (useBounce data.entries = true → 0 < data.size ∧ data.size ≤ EFX_ADMA_MAX_LEN) := by
  unfold transferAddrs
  cases hb : useBounce data.entries with
  | true =>
    simp only [if_true, List.length_range', and_true, forall_const]
    exact bounce_describes_iff h data hb hok
  | false =>
    have hlen : (segmentAddrs data.entries).length = data.size := by
      rw [← hsum, segmentAddrs, List.length_flatMap]; simp
    simp only [Bool.false_eq_true, if_false, false_imp_iff, iff_true]
    exact ⟨direct_describes h data hb hok, hlen⟩

/-- A 512-byte read over one aligned segment. -/
theorem admaTablePre_describes_iff_aligned :
    AdmaDescribes (Host.probed 0 (by decide)).admaDesc
        (admaTablePre (Host.probed 0 (by decide))
          ⟨512, 1, true, [⟨List.replicate 512 0, ⟨4096, 512, by decide, by decide⟩⟩], 1, 0, 0,
            by decide, by decide⟩).2.admaDesc
        (transferAddrs (Host.probed 0 (by decide))
          ⟨512, 1, true, [⟨List.replicate 512 0, ⟨4096, 512, by decide, by decide⟩⟩], 1, 0, 0,
            by decide, by decide⟩) ∧
      (transferAddrs (Host.probed 0 (by decide))
        ⟨512, 1, true, [⟨List.replicate 512 0, ⟨4096, 512, by decide, by decide⟩⟩], 1, 0, 0,
          by decide, by decide⟩).length = 512 :=
  (admaTablePre_describes_iff _ _ (by decide) (by decide)).2 (by decide)

/-- A 128 KiB read: 256 blocks over two segments that start at 4 modulo 8. -/
def unalignedRead : MmcData :=
  ⟨512, 256, true, [⟨List.replicate 65536 0, ⟨4, 65536, by decide, by decide⟩⟩,
    ⟨List.replicate 65536 0, ⟨131076, 65536, by decide, by decide⟩⟩], 2, 0, 0, by decide, by decide⟩

/-- **The bounce path truncates**: the set-up of `unalignedRead` reports success. -/
theorem admaTablePre_truncates :
    (unalignedRead.entries.map Scatterlist.dmaLen).sum = unalignedRead.size ∧
    (admaTablePre (Host.probed 0 (by decide)) unalignedRead).1 = 0 ∧
    ¬AdmaDescribes (Host.probed 0 (by decide)).admaDesc
      (admaTablePre (Host.probed 0 (by decide)) unalignedRead).2.admaDesc
      (transferAddrs (Host.probed 0 (by decide)) unalignedRead) := by
  have hb : useBounce unalignedRead.entries = true := by decide
  have hok : (admaTablePre (Host.probed 0 (by decide)) unalignedRead).1 = 0 := by decide
  refine ⟨by decide, hok, ?_⟩
  rw [transferAddrs, if_pos hb, bounce_describes_iff _ _ hb hok]
  decide

end Br2Efinix.Emmc
