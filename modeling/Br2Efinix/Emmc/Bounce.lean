import Br2Efinix.Emmc.Dma
import Br2Efinix.Lib.Segments

/-!
# The bounce buffer

`efx_emmc_prepare_dma` and `efx_emmc_cleanup_dma` on requests whose segments the controller cannot address. They
copy as many entries of the scatterlist as `dma_map_sg` made segments, and leave that number in `data->sg_len`;
and the copy of a read ends at the first empty entry.

* `bounceFill_apply`: a write puts the entries into the buffer, one after the other.
* `bounceDrain_flatten`: a read puts the buffer back into the entries.
* `bounce_round_trip_iff`: **the round trip** is right exactly when no entries were merged, and no entry of a read
  is empty before one that is not.
-/

namespace Br2Efinix.Emmc

open Segments

/-! ## The property -/

/-- `mrq->data`. -/
def Host.reqData (h : Host) : Option MmcData := h.mrq.bind (·.data)

/-- A request about to be prepared for DMA, with as many entries as it says. -/
structure BounceStart (h : Host) (d : MmcData) : Prop where
  data : h.reqData = some d
  dma : h.useDma = true
  entries : d.sgLen = d.sg.length
  total : (memory d.sg).flatten.length = d.size

/-- The mapping made these segments, and one of them is not aligned. -/
structure TakesBounce (d : MmcData) (segs : List DmaSeg) : Prop where
  mapped : segs ≠ []
  unaligned : useBounce ((dmaMapSg d.sg segs).take segs.length) = true

/-- What the preparation of a request leaves of it: the entries as they were, `sg_len` if it failed, and if it
did not, for a write their bytes in the buffer and the rest of the buffer as it was. -/
structure PreparedRight (h : Host) (d : MmcData) (h' : Host) : Prop where
  entries : ∃ d', h'.reqData = some d' ∧ memory d'.sg = memory d.sg ∧ (h'.useDma = false → d'.sgLen = d.sgLen)
  buffer : h'.useDma = true → ∃ buf buf', h.bounceBuffer = some buf ∧ h'.bounceBuffer = some buf' ∧
    d.size ≤ h.bounceBufferSize ∧
    ∀ k, buf' k = if d.read = false ∧ k < d.size then (memory d.sg).flatten.getD k 0 else buf k

/-- What the clean-up leaves of a transfer after which the buffer holds `buf`: for a read the entries have its
first bytes, and nothing else was written; `sg_len` is the first one. -/
structure CleanedRight (d : MmcData) (buf : ℕ → UInt8) (h' : Host) : Prop where
  buffer : h'.bounceBuffer = some buf
  entries : ∃ d', h'.reqData = some d' ∧ d'.sgLen = d.sgLen ∧
    (memory d'.sg).map List.length = (memory d.sg).map List.length ∧
    (memory d'.sg).flatten = if d.read then (List.range d.size).map buf else (memory d.sg).flatten

/-- The clean-up of the request in `h`, after a transfer that left `buf` in the buffer. -/
def Host.finishBounce (h : Host) (d : MmcData) (buf : ℕ → UInt8) : Host :=
  { h with bounceBuffer := some buf }.cleanupDma (h.reqData.getD d)

/-- **The round trip** of a request through the bounce buffer. -/
structure RoundTrip (h : Host) (d : MmcData) (segs : List DmaSeg) : Prop where
  prepared : PreparedRight h d (h.prepareDma d segs)
  cleaned : (h.prepareDma d segs).useDma = true →
    ∀ buf, CleanedRight d buf ((h.prepareDma d segs).finishBounce d buf)

/-- No entry is empty before one that is not. -/
def NoGap (sg : List Scatterlist) : Prop :=
  ∀ i j (hi : i < sg.length) (hj : j < sg.length), i < j → sg[i].length = 0 → sg[j].length = 0

variable {h : Host} {d : MmcData} {segs : List DmaSeg} {sg : List Scatterlist}

/-! ## The copies -/

theorem add_one_ne (b : UInt8) : b + 1 ≠ b := by
  intro h
  have hnat := congrArg UInt8.toNat h
  rw [UInt8.toNat_add] at hnat
  have hlt := b.toNat_lt
  have hone : (1 : UInt8).toNat = 1 := rfl
  omega

theorem memory_cons (e : Scatterlist) (sg : List Scatterlist) : memory (e :: sg) = e.virt :: memory sg := rfl

/-- **The copy of a write** puts the entries into the buffer, and nothing else. -/
theorem bounceFill_apply (sg : List Scatterlist) (pos k : ℕ) (buf : ℕ → UInt8) :
    bounceFill sg pos buf k = if pos ≤ k then (memory sg).flatten.getD (k - pos) (buf k) else buf k := by
  induction sg generalizing pos buf with
  | nil =>
    unfold bounceFill memory
    split <;> rfl
  | cons e sg ih =>
    unfold bounceFill
    rw [ih, memory_cons, List.flatten_cons]
    unfold memcpyAt Scatterlist.length
    by_cases hpos : pos ≤ k
    · rw [if_pos hpos, if_pos hpos]
      by_cases hin : k - pos < e.virt.length
      · rw [if_neg (by omega), List.getD_append _ _ _ _ hin]
      · rw [if_pos (by omega), List.getD_append_right _ _ _ _ (by omega),
          List.getD_eq_default e.virt _ (by omega), Nat.sub_sub]
    · rw [if_neg (by omega), if_neg hpos, if_neg hpos]

theorem NoGap.tail {e : Scatterlist} (hgap : NoGap (e :: sg)) : NoGap sg := by
  intro i j hi hj hij hempty
  exact hgap (i + 1) (j + 1) (by simpa using hi) (by simpa using hj) (by omega) hempty

/-- Behind an empty entry there is nothing. -/
theorem NoGap.nothing {e : Scatterlist} (hgap : NoGap (e :: sg)) (hempty : e.length = 0) :
    (memory sg).flatten.length = 0 := by
  rw [List.length_eq_zero_iff, List.flatten_eq_nil_iff]
  intro xs hxs
  obtain ⟨e', he', rfl⟩ := List.mem_map.1 hxs
  obtain ⟨j, hj, rfl⟩ := List.getElem_of_mem he'
  apply List.eq_nil_of_length_eq_zero
  exact hgap 0 (j + 1) (Nat.zero_lt_succ _) (by simpa using hj) (Nat.zero_lt_succ j) hempty

/-- The copy of a read keeps the lengths of the entries. -/
theorem bounceDrain_lengths (buf : ℕ → UInt8) (sg : List Scatterlist) (pos remaining : ℕ) :
    (memory (bounceDrain buf sg pos remaining)).map List.length = (memory sg).map List.length := by
  induction sg generalizing pos remaining with
  | nil => rfl
  | cons e sg ih =>
    unfold bounceDrain
    simp only
    split
    · rfl
    · rw [memory_cons, memory_cons, List.map_cons, List.map_cons, ih]
      congr 1
      simp only [List.length_append, List.length_map, List.length_range, List.length_drop]
      unfold Scatterlist.length
      omega

/-- **The copy of a read** fills the entries from the buffer. -/
theorem bounceDrain_flatten (buf : ℕ → UInt8) (sg : List Scatterlist) (pos : ℕ) (hgap : NoGap sg) :
    (memory (bounceDrain buf sg pos (memory sg).flatten.length)).flatten =
      (List.range (memory sg).flatten.length).map fun k => buf (pos + k) := by
  induction sg generalizing pos with
  | nil => rfl
  | cons e sg ih =>
    have htotal : (memory (e :: sg)).flatten.length = e.length + (memory sg).flatten.length := by
      rw [memory_cons, List.flatten_cons, List.length_append]
      rfl
    rw [htotal]
    unfold bounceDrain
    simp only
    rw [Nat.min_eq_left (Nat.le_add_right _ _)]
    split
    · rename_i hempty
      rw [hempty, hgap.nothing hempty]
      exact List.eq_nil_of_length_eq_zero (by rw [htotal, hempty, hgap.nothing hempty])
    · rw [memory_cons, List.flatten_cons, Nat.add_sub_cancel_left, ih (pos + e.length) hgap.tail, List.range_add,
        List.map_append, List.map_map]
      simp only
      rw [show e.virt.drop e.length = [] from List.drop_length, List.append_nil]
      congr 1
      apply List.map_congr_left
      intro k _
      simp only [Function.comp_apply]
      rw [Nat.add_assoc]

/-- Behind an empty entry the copy writes nothing. -/
theorem bounceDrain_gap (buf : ℕ → UInt8) (pos remaining : ℕ) {i j : ℕ} (hi : i < sg.length)
    (hempty : sg[i].length = 0) (hij : i ≤ j) : (bounceDrain buf sg pos remaining)[j]? = sg[j]? := by
  induction sg generalizing pos remaining i j with
  | nil => exact absurd hi (Nat.not_lt_zero i)
  | cons e sg ih =>
    unfold bounceDrain
    simp only
    split
    · rfl
    · rename_i hsome
      cases i with
      | zero =>
        rw [List.getElem_cons_zero] at hempty
        omega
      | succ i =>
        obtain ⟨j, rfl⟩ : ∃ k, j = k + 1 := ⟨j - 1, by omega⟩
        rw [List.getElem?_cons_succ, List.getElem?_cons_succ]
        exact ih _ _ (by simpa using hi) hempty (by omega)

/-! ## Preparing and cleaning up -/

theorem dmaMapSg_memory (sg : List Scatterlist) (segs : List DmaSeg) : memory (dmaMapSg sg segs) = memory sg := by
  unfold dmaMapSg memory
  rw [List.map_append, List.map_zipWith]
  induction sg generalizing segs with
  | nil => simp
  | cons e sg ih =>
    cases segs with
    | nil => simp
    | cons seg segs =>
      have := ih segs
      simp only [List.zipWith_cons_cons, List.length_cons, List.drop_succ_cons, List.map_cons, List.cons_append]
      rw [this]

theorem dmaMapSg_length (sg : List Scatterlist) (segs : List DmaSeg) : (dmaMapSg sg segs).length = sg.length := by
  have h := congrArg List.length (dmaMapSg_memory sg segs)
  unfold memory at h
  simpa using h

theorem reqData_modifyData (h : Host) (f : MmcData → MmcData) : (h.modifyData f).reqData = h.reqData.map f := by
  unfold Host.modifyData Host.reqData Host.setMrq
  cases h.mrq <;> rfl

/-- The request after its mapping. -/
def MmcData.mapped (d : MmcData) (segs : List DmaSeg) : MmcData :=
  { d with sg := dmaMapSg d.sg segs, sgLen := segs.length }

/-- The descriptors of a request that needs the bounce buffer. -/
theorem admaTablePre_bounce (hb : useBounce d.entries = true) :
    ((admaTablePre h d).1 ≠ 0 ∧ (admaTablePre h d).2 = h) ∨
      ∃ buf desc, h.bounceBuffer = some buf ∧ d.size ≤ h.bounceBufferSize ∧
        admaTablePre h d = (0, { h with
          bounceBuffer := some (if d.read then buf else bounceFill d.entries 0 buf)
          admaDesc := desc
          bounceActive := true
          bounceUsed := d.size }) := by
  unfold admaTablePre
  rw [if_pos hb]
  cases hbuf : h.bounceBuffer with
  | none => exact Or.inl ⟨show (-ENOMEM : ℤ) ≠ 0 by decide, rfl⟩
  | some buf =>
    simp only
    by_cases hsize : d.size > h.bounceBufferSize
    · rw [if_pos hsize]
      exact Or.inl ⟨show (-EINVAL : ℤ) ≠ 0 by decide, rfl⟩
    · rw [if_neg hsize]
      exact Or.inr ⟨buf, _, rfl, Nat.le_of_not_lt hsize, rfl⟩

/-- The host when the request is mapped. -/
def Host.mappedHost (h : Host) (d : MmcData) (segs : List DmaSeg) : Host :=
  (h.modifyData fun _ => d.mapped segs).emit (.mapSg h.mrqId)

theorem prepareDma_mapped (hdma : h.useDma = true) (hsegs : segs ≠ []) :
    h.prepareDma d segs =
      if (admaTablePre (h.mappedHost d segs) (d.mapped segs)).1 ≠ 0 then
        ((admaTablePre (h.mappedHost d segs) (d.mapped segs)).2.emit
          (.unmapSg (admaTablePre (h.mappedHost d segs) (d.mapped segs)).2.mrqId)).setUseDma false
      else
        (admaTablePre (h.mappedHost d segs) (d.mapped segs)).2.setAdmaAddr
          (admaTablePre (h.mappedHost d segs) (d.mapped segs)).2.admaDescDma := by
  have hlen : segs.length ≠ 0 := fun hnil => hsegs (List.length_eq_zero_iff.1 hnil)
  unfold Host.prepareDma
  rw [hdma, Bool.not_true, if_neg Bool.false_ne_true, if_neg hlen]
  rfl

/-- **The preparation** fails without a buffer that is large enough, and otherwise fills it for a write. Either
way `sg_len` is what `dma_map_sg` returned. -/
theorem prepareDma_cases (hs : BounceStart h d) (ht : TakesBounce d segs) :
    (h.prepareDma d segs).reqData = some (d.mapped segs) ∧
      ((h.prepareDma d segs).useDma = false ∨
        ∃ buf, h.bounceBuffer = some buf ∧ d.size ≤ h.bounceBufferSize ∧ (h.prepareDma d segs).useDma = true ∧
          (h.prepareDma d segs).bounceActive = true ∧ (h.prepareDma d segs).bounceUsed = d.size ∧
          (h.prepareDma d segs).bounceBuffer =
            some (if d.read then buf else bounceFill (d.mapped segs).entries 0 buf)) := by
  have hdata : (h.mappedHost d segs).reqData = some (d.mapped segs) := by
    change (h.modifyData fun _ => d.mapped segs).reqData = _
    rw [reqData_modifyData, hs.data]
    rfl
  rw [prepareDma_mapped hs.dma ht.mapped]
  rcases admaTablePre_bounce (h := h.mappedHost d segs) (d := d.mapped segs) ht.unaligned with
    ⟨hret, hsame⟩ | ⟨buf, desc, hbuf, hsize, hfill⟩
  · rw [if_pos hret, hsame]
    exact ⟨hdata, Or.inl rfl⟩
  · rw [hfill, if_neg (fun hne => hne rfl)]
    exact ⟨hdata, Or.inr ⟨buf, hbuf, hsize, hs.dma, rfl, rfl, rfl⟩⟩

/-- The mapping succeeds where there is a buffer that is large enough. -/
theorem prepareDma_succeeds (hs : BounceStart h d) (ht : TakesBounce d segs) {buf : ℕ → UInt8}
    (hbuf : h.bounceBuffer = some buf) (hsize : d.size ≤ h.bounceBufferSize) :
    (h.prepareDma d segs).useDma = true := by
  rw [prepareDma_mapped hs.dma ht.mapped]
  unfold admaTablePre
  rw [if_pos (show useBounce (d.mapped segs).entries = true from ht.unaligned),
    show (h.mappedHost d segs).bounceBuffer = some buf from hbuf]
  simp only
  rw [if_neg (show ¬(d.mapped segs).size > (h.mappedHost d segs).bounceBufferSize from Nat.not_lt.2 hsize),
    if_neg (fun hne => hne rfl)]
  exact hs.dma

/-- **The clean-up** copies the buffer back for a read. -/
theorem cleanupDma_bounce (hdma : h.useDma = true) (hactive : h.bounceActive = true) {buf : ℕ → UInt8}
    (hbuf : h.bounceBuffer = some buf) {d' : MmcData} (hdata : h.reqData = some d') (hread : d.read = d'.read) :
    (h.cleanupDma d).bounceBuffer = some buf ∧
      (h.cleanupDma d).reqData = some (if d'.read then
        { d' with sg := bounceDrain buf d'.entries 0 h.bounceUsed ++ d'.sg.drop d'.sgLen } else d') := by
  unfold Host.cleanupDma Host.admaTablePost
  rw [hdma, hbuf, hactive, Bool.and_true, hread, Bool.not_true, if_neg Bool.false_ne_true]
  simp only
  by_cases hr : d'.read = true
  · rw [if_pos hr, if_pos hr]
    refine ⟨hbuf, ?_⟩
    change Host.reqData (h.modifyData _) = _
    rw [reqData_modifyData, hdata]
    rfl
  · rw [if_neg hr, if_neg hr]
    exact ⟨hbuf, hdata⟩

/-- The clean-up after the preparation of the request. -/
theorem finishBounce_prepared (hs : BounceStart h d) (ht : TakesBounce d segs)
    (hok : (h.prepareDma d segs).useDma = true) (buf : ℕ → UInt8) :
    ((h.prepareDma d segs).finishBounce d buf).bounceBuffer = some buf ∧
      ((h.prepareDma d segs).finishBounce d buf).reqData = some (if d.read then
        { d.mapped segs with
          sg := bounceDrain buf (d.mapped segs).entries 0 d.size ++ (dmaMapSg d.sg segs).drop segs.length }
        else d.mapped segs) := by
  obtain ⟨hdata, hfail | ⟨old, _, _, _, hactive, hused, _⟩⟩ := prepareDma_cases hs ht
  · rw [hok] at hfail
    cases hfail
  · unfold Host.finishBounce
    rw [hdata, ← hused]
    exact cleanupDma_bounce (h := { h.prepareDma d segs with bounceBuffer := some buf }) hok hactive rfl hdata rfl

/-! ## The round trip -/

/-- Where no entries were merged, the copies visit them all. -/
theorem mapped_entries (hlen : segs.length = d.sg.length) : (d.mapped segs).entries = dmaMapSg d.sg segs := by
  change (dmaMapSg d.sg segs).take segs.length = _
  rw [hlen, ← dmaMapSg_length d.sg segs, List.take_length]

/-- The mapping keeps the lengths of the entries. -/
theorem dmaMapSg_getElem_length {i : ℕ} (hi : i < (dmaMapSg sg segs).length) (hi' : i < sg.length) :
    (dmaMapSg sg segs)[i].length = sg[i].length := by
  have h := congrArg (fun m => m[i]?) (dmaMapSg_memory sg segs)
  unfold memory at h
  simp only [List.getElem?_map, List.getElem?_eq_getElem hi, List.getElem?_eq_getElem hi', Option.map_some,
    Option.some.injEq] at h
  unfold Scatterlist.length
  rw [h]

theorem noGap_mapped (hgap : NoGap d.sg) : NoGap (dmaMapSg d.sg segs) := by
  intro i j hi hj hij hempty
  have hi' : i < d.sg.length := dmaMapSg_length d.sg segs ▸ hi
  have hj' : j < d.sg.length := dmaMapSg_length d.sg segs ▸ hj
  rw [dmaMapSg_getElem_length hi hi'] at hempty
  rw [dmaMapSg_getElem_length hj hj']
  exact hgap i j hi' hj' hij hempty

theorem prepared_right (hs : BounceStart h d) (ht : TakesBounce d segs) (hlen : segs.length = d.sgLen) :
    PreparedRight h d (h.prepareDma d segs) := by
  obtain ⟨hdata, hcase⟩ := prepareDma_cases hs ht
  refine ⟨⟨_, hdata, dmaMapSg_memory d.sg segs, fun _ => hlen⟩, fun hok => ?_⟩
  rcases hcase with hfail | ⟨buf, hbuf, hsize, _, _, _, hfill⟩
  · rw [hok] at hfail
    cases hfail
  · refine ⟨buf, _, hbuf, hfill, hsize, fun k => ?_⟩
    cases d.read with
    | true => rfl
    | false =>
      rw [if_neg Bool.false_ne_true, bounceFill_apply, if_pos (Nat.zero_le k), Nat.sub_zero,
        mapped_entries (hlen.trans hs.entries), dmaMapSg_memory]
      by_cases hk : k < d.size
      · have hin : k < (memory d.sg).flatten.length := hs.total.symm ▸ hk
        rw [if_pos ⟨rfl, hk⟩, List.getD_eq_getElem _ _ hin, List.getD_eq_getElem _ _ hin]
      · have hout : (memory d.sg).flatten.length ≤ k := hs.total.symm ▸ Nat.le_of_not_lt hk
        rw [if_neg (fun h => hk h.2), List.getD_eq_default _ _ hout]

theorem cleaned_right (hs : BounceStart h d) (ht : TakesBounce d segs) (hlen : segs.length = d.sgLen)
    (hgap : d.read = true → NoGap d.sg) (hok : (h.prepareDma d segs).useDma = true) (buf : ℕ → UInt8) :
    CleanedRight d buf ((h.prepareDma d segs).finishBounce d buf) := by
  obtain ⟨hbuf, hdata⟩ := finishBounce_prepared hs ht hok buf
  refine ⟨hbuf, _, hdata, ?_⟩
  by_cases hr : d.read = true
  · rw [if_pos hr, if_pos hr]
    have hall := mapped_entries (hlen.trans hs.entries)
    have hrest : (dmaMapSg d.sg segs).drop segs.length = [] := by
      rw [hlen.trans hs.entries, ← dmaMapSg_length d.sg segs, List.drop_length]
    have htotal : d.size = (memory (dmaMapSg d.sg segs)).flatten.length := by
      rw [dmaMapSg_memory, hs.total]
    simp only
    rw [hall, hrest, List.append_nil]
    refine ⟨hlen, ?_, ?_⟩
    · rw [bounceDrain_lengths, dmaMapSg_memory]
    · rw [htotal, bounceDrain_flatten buf _ 0 (noGap_mapped (hgap hr))]
      simp only [Nat.zero_add]
  · rw [if_neg hr, if_neg hr]
    exact ⟨hlen, by rw [show (d.mapped segs).sg = dmaMapSg d.sg segs from rfl, dmaMapSg_memory],
      by rw [show (d.mapped segs).sg = dmaMapSg d.sg segs from rfl, dmaMapSg_memory]⟩

/-- A right preparation finds the count it began with. -/
theorem mapped_all (hs : BounceStart h d) (ht : TakesBounce d segs) (hright : RoundTrip h d segs) :
    segs.length = d.sgLen := by
  obtain ⟨hdata, hfail | ⟨buf, _, _, hok, _⟩⟩ := prepareDma_cases hs ht
  · obtain ⟨d', hd', _, hlen⟩ := hright.prepared.entries
    rw [hdata, Option.some.injEq] at hd'
    rw [← hlen hfail, ← hd']
    rfl
  · obtain ⟨_, d', hd', hlen, _⟩ := hright.cleaned hok buf
    rw [(finishBounce_prepared hs ht hok buf).2, Option.some.injEq] at hd'
    rw [← hlen, ← hd']
    split <;> rfl

/-- The entries of a read behind a gap stay as they were, and so cannot hold a buffer that differs everywhere. -/
theorem noGap_of_cleaned (hs : BounceStart h d) (ht : TakesBounce d segs) (hlen : segs.length = d.sgLen)
    (hread : d.read = true) (hok : (h.prepareDma d segs).useDma = true)
    (hclean : ∀ buf, CleanedRight d buf ((h.prepareDma d segs).finishBounce d buf)) : NoGap d.sg := by
  intro i j hi hj hij hempty
  refine Decidable.byContradiction fun hsome => ?_
  let buf : ℕ → UInt8 := fun k => (memory d.sg).flatten.getD k 0 + 1
  obtain ⟨_, d', hd', _, hlens, hbytes⟩ := hclean buf
  rw [(finishBounce_prepared hs ht hok buf).2, if_pos hread, Option.some.injEq] at hd'
  rw [if_pos hread] at hbytes
  have hsg : d'.sg = bounceDrain buf (dmaMapSg d.sg segs) 0 d.size := by
    rw [← hd']
    simp only
    rw [mapped_entries (hlen.trans hs.entries), hlen.trans hs.entries, ← dmaMapSg_length d.sg segs, List.drop_length,
      List.append_nil]
  have hi' : i < (dmaMapSg d.sg segs).length := (dmaMapSg_length d.sg segs).symm ▸ hi
  have hempty' : (dmaMapSg d.sg segs)[i].length = 0 := (dmaMapSg_getElem_length hi' hi).trans hempty
  have hsame : (memory d'.sg)[j]? = (memory d.sg)[j]? := by
    rw [← dmaMapSg_memory d.sg segs, hsg]
    unfold memory
    rw [List.getElem?_map, List.getElem?_map, bounceDrain_gap buf 0 d.size hi' hempty' (Nat.le_of_lt hij)]
  -- the first byte of entry `j`, before and after
  have hjm : j < (memory d.sg).length := by
    unfold memory
    rw [List.length_map]
    exact hj
  have hjm' : j < (memory d'.sg).length := by
    rw [← List.length_map, hlens, List.length_map]
    exact hjm
  have hvirt : (memory d.sg)[j] = d.sg[j].virt := List.getElem_map _
  have hj0 : 0 < (memory d.sg)[j].length := by
    rw [hvirt]
    exact Nat.pos_of_ne_zero hsome
  rw [List.getElem?_eq_getElem hjm', List.getElem?_eq_getElem hjm, Option.some.injEq] at hsame
  have hold := flatten_getD hjm hj0 0
  have hnew := flatten_getD hjm' (hsame.symm ▸ hj0) 0
  have hin : start (memory d.sg) j < d.size := by
    have hnext : start (memory d.sg) (j + 1) = start (memory d.sg) j + (memory d.sg)[j].length := start_succ hjm
    have hle : start (memory d.sg) (j + 1) ≤ start (memory d.sg) (memory d.sg).length := start_mono hjm
    rw [start_length, hs.total] at hle
    omega
  rw [hsame, start_congr hlens, ← hold, Nat.add_zero, hbytes, List.getD_eq_getElem _ _ (by simpa using hin)] at hnew
  simp only [List.getElem_map, List.getElem_range, buf] at hnew
  exact absurd hnew (add_one_ne _)

/-- **The round trip** through the bounce buffer is right exactly when no entries were merged and, for a read that
fits the buffer, no entry is empty before one that is not. -/
theorem bounce_round_trip_iff (hs : BounceStart h d) (ht : TakesBounce d segs) :
    RoundTrip h d segs ↔
      segs.length = d.sgLen ∧
        (d.read = true → h.bounceBuffer.isSome = true → d.size ≤ h.bounceBufferSize → NoGap d.sg) := by
  constructor
  · intro hright
    have hlen := mapped_all hs ht hright
    refine ⟨hlen, fun hread hbuf hsize => ?_⟩
    obtain ⟨buf, hbuf⟩ := Option.isSome_iff_exists.1 hbuf
    have hok := prepareDma_succeeds hs ht hbuf hsize
    exact noGap_of_cleaned hs ht hlen hread hok (hright.cleaned hok)
  · rintro ⟨hlen, hgap⟩
    refine ⟨prepared_right hs ht hlen, fun hok => ?_⟩
    refine cleaned_right hs ht hlen (fun hread => ?_) hok
    obtain ⟨_, hfail | ⟨buf, hbuf, hsize, _⟩⟩ := prepareDma_cases hs ht
    · rw [hok] at hfail
      cases hfail
    · exact hgap hread (by rw [hbuf]; rfl) hsize

/-! ## Two entries of 256 bytes -/

/-- A block of 512 bytes, all of them 1. -/
def halves (read : Bool) : MmcData :=
  { blksz := 512, blocks := 1, read
    sg := [⟨List.replicate 256 1, ⟨0, 0, by decide, by decide⟩⟩, ⟨List.replicate 256 1, ⟨0, 0, by decide, by decide⟩⟩]
    sgLen := 2, bytesXfered := 0, error := 0, blksz_le := MmcData.sector_le, blocks_le := MmcData.one_block_le }

/-- The host when it prepares the block. -/
def halvesHost (read : Bool) : Host :=
  { Host.probed 0 Host.bounceBuffer_fits with
    mrq := some
      { id := 0, sbc := none, stop := none, data := some (halves read)
        cmd := { opcode := if read then 17 else 24, arg := 0, flags := ⟨true, false, true, false, true⟩, resp := []
                 error := 0 } }
    useDma := true }

theorem halves_start (read : Bool) : BounceStart (halvesHost read) (halves read) :=
  ⟨rfl, rfl, rfl, show (memory (halves false).sg).flatten.length = (halves false).size by decide +kernel⟩

/-- The two entries as segments of their own. -/
def apart : List DmaSeg := [⟨4, 256, by decide, by decide⟩, ⟨0x1004, 256, by decide, by decide⟩]

/-- The two entries as one segment. -/
def merged : List DmaSeg := [⟨4, 512, by decide, by decide⟩]

/-- A read into the segments of their own. -/
theorem round_trip_apart : RoundTrip (halvesHost true) (halves true) apart := by
  refine (bounce_round_trip_iff (halves_start true) ⟨by decide, by decide⟩).2 ⟨rfl, fun _ _ _ => ?_⟩
  -- no entry is empty
  intro i j hi hj _ hempty
  have hfull : ∀ e ∈ (halves true).sg, e.length ≠ 0 := by decide +kernel
  exact absurd hempty (hfull _ (List.getElem_mem hi))

/-- **A write of the merged entries** leaves the second half of the block out of the buffer. -/
theorem merged_half_written :
    BounceStart (halvesHost false) (halves false) ∧ TakesBounce (halves false) merged ∧
      ((halvesHost false).prepareDma (halves false) merged).bounceBuffer.map (fun buf => (buf 255, buf 256)) =
        some (1, 0) ∧
      ¬RoundTrip (halvesHost false) (halves false) merged := by
  have hs := halves_start false
  have ht : TakesBounce (halves false) merged := ⟨by decide, by decide⟩
  refine ⟨hs, ht, by decide +kernel, ?_⟩
  intro hright
  exact absurd (mapped_all hs ht hright) (by decide)

end Br2Efinix.Emmc
