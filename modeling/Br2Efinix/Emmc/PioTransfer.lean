import Mathlib.Data.List.Induction
import Br2Efinix.Emmc.Completion
import Br2Efinix.Lib.Segments

/-!
# Programmed I/O over a scatterlist

The calls of `efx_emmc_transfer_pio` of one data phase. Each derives its place in the scatterlist from
`sg_offset` and moves words as long as they lie in one entry: an entry whose length is not a multiple of four
leaves one to three bytes that no call gets past.

* `pioLoop_moves`: a call moves words in order, until the block is done or a word does not lie in one entry.
* `transfer_pio_iff`: **every sequence of calls moves the data in order**, a block a call, exactly when the
  length of every entry is a multiple of four.
-/

namespace Br2Efinix.Emmc

open Segments

/-- The byte of the memory at which a transfer stands. -/
def PioState.pos (s : PioState) : ℕ := start (memory s.sg) s.cur + s.sgOffset

/-- The next `r` words: those of the port, or those of the memory. -/
def PioState.next (s : PioState) (read : Bool) (port : ℕ → UInt32) (r : ℕ) : List UInt32 :=
  if read then (List.range r).map fun i => port (s.wordsTransferred + i)
  else (List.range r).map fun i => readWord (memory s.sg).flatten (s.pos + 4 * i)

/-- `s'` is `s` after `r` more words, each of which lies in one entry. -/
structure Moves (read : Bool) (port : ℕ → UInt32) (s s' : PioState) (r : ℕ) : Prop where
  transferred : s'.wordsTransferred = s.wordsTransferred + r
  bytes : s'.bytesToTransfer + 4 * r = s.bytesToTransfer
  words : s'.words = s.words ++ s.next read port r
  lengths : (memory s'.sg).map List.length = (memory s.sg).map List.length
  pos : s'.pos = s.pos + 4 * r
  inside : ∀ i < r, Inside (memory s.sg) (s.pos + 4 * i) 4
  ofRead : read = true →
    (memory s'.sg).flatten = overwrite (memory s.sg).flatten s.pos ((s.next read port r).flatMap wordBytes)
  ofWrite : read = false → s'.sg = s.sg

variable {read : Bool} {port : ℕ → UInt32} {s s' s'' : PioState} {r r' : ℕ}

/-! ## Words -/

theorem length_wordBytes (words : List UInt32) : (words.flatMap wordBytes).length = 4 * words.length := by
  induction words with
  | nil => rfl
  | cons w words ih =>
    rw [List.flatMap_cons, List.length_append, ih]
    unfold wordBytes
    simp only [List.length_cons, List.length_nil]
    omega

theorem storeWords_eq (virt : List UInt8) (off : ℕ) (words : List UInt32) :
    storeWords virt off words = overwrite virt off (words.flatMap wordBytes) := by
  unfold storeWords overwrite
  rw [length_wordBytes]

@[simp] theorem length_next : (s.next read port r).length = r := by
  unfold PioState.next
  cases read <;> simp

theorem inside_congr {xss yss : List (List UInt8)} {p m : ℕ} (h : Inside xss p m)
    (hlen : xss.map List.length = yss.map List.length) : Inside yss p m := by
  obtain ⟨i, hi, h1, h2⟩ := h
  refine ⟨i, ?_, ?_, ?_⟩
  · have := congrArg List.length hlen
    simp only [List.length_map] at this
    omega
  · rw [← start_congr hlen]
    exact h1
  · rw [← start_congr hlen]
    exact h2

theorem inside_le {xss : List (List UInt8)} {p m : ℕ} (h : Inside xss p m) : p + m ≤ xss.flatten.length := by
  obtain ⟨i, hi, -, h2⟩ := h
  rw [← start_length]
  exact Nat.le_trans h2 (start_mono hi)

/-- A run of words that each lie in one entry ends in the memory. -/
theorem Moves.end_le (h : Moves read port s s' r) : s.pos + 4 * r ≤ (memory s.sg).flatten.length ∨ r = 0 := by
  rcases r with _ | r
  · exact Or.inr rfl
  · left
    have := inside_le (h.inside r (Nat.lt_succ_self r))
    omega

/-- To stand elsewhere for the same byte moves nothing. -/
theorem moves_zero (read : Bool) (port : ℕ → UInt32) {cur off : ℕ} (hpos : start (memory s.sg) cur + off = s.pos) :
    Moves read port s { s with cur := cur, sgOffset := off } 0 := by
  have hnext : s.next read port 0 = [] := List.eq_nil_of_length_eq_zero length_next
  refine ⟨rfl, rfl, ?_, rfl, hpos, fun i hi => absurd hi (Nat.not_lt_zero i), ?_, fun _ => rfl⟩
  · rw [hnext, List.append_nil]
  · intro _
    rw [hnext, List.flatMap_nil, overwrite_nil]

/-- **Words moved one after the other.** -/
theorem Moves.trans (h : Moves read port s s' r) (h' : Moves read port s' s'' r') :
    Moves read port s s'' (r + r') := by
  have hmem : read = false → memory s'.sg = memory s.sg := fun hw => by rw [h.ofWrite hw]
  have hnext : s.next read port (r + r') = s.next read port r ++ s'.next read port r' := by
    unfold PioState.next
    cases read with
    | true =>
      simp only [if_true, List.range_add, List.map_append, List.map_map]
      congr 1
      apply List.map_congr_left
      intro i _
      simp only [Function.comp_apply]
      rw [h.transferred, Nat.add_assoc]
    | false =>
      simp only [Bool.false_eq_true, if_false, List.range_add, List.map_append, List.map_map]
      congr 1
      apply List.map_congr_left
      intro i _
      simp only [Function.comp_apply]
      rw [hmem rfl, h.pos, Nat.mul_add, Nat.add_assoc]
  refine ⟨?_, ?_, ?_, h'.lengths.trans h.lengths, ?_, ?_, ?_, fun hw => (h'.ofWrite hw).trans (h.ofWrite hw)⟩
  · rw [h'.transferred, h.transferred, Nat.add_assoc]
  · rw [Nat.mul_add, Nat.add_comm (4 * r), ← Nat.add_assoc, h'.bytes, h.bytes]
  · rw [h'.words, h.words, hnext, List.append_assoc]
  · rw [h'.pos, h.pos, Nat.mul_add, Nat.add_assoc]
  · intro i hi
    rcases Nat.lt_or_ge i r with hlt | hge
    · exact h.inside i hlt
    · have hin := h'.inside (i - r) (by omega)
      rw [h.pos] at hin
      have hin' := inside_congr hin h.lengths
      rwa [show s.pos + 4 * r + 4 * (i - r) = s.pos + 4 * i by omega] at hin'
  · intro hr
    rw [h'.ofRead hr, h.ofRead hr, h.pos, hnext, List.flatMap_append]
    rcases h.end_le with hle | hzero
    · rw [← overwrite_overwrite (by rw [length_wordBytes, length_next]; exact hle), length_wordBytes, length_next]
    · subst hzero
      have hnil : s.next read port 0 = [] := List.eq_nil_of_length_eq_zero length_next
      rw [hnil, List.flatMap_nil, overwrite_nil, List.nil_append, Nat.mul_zero, Nat.add_zero]

/-! ## The loop -/

@[simp] theorem length_memory (sg : List Scatterlist) : (memory sg).length = sg.length := List.length_map _

theorem start_memory_succ {sg : List Scatterlist} {i : ℕ} (hi : i < sg.length) :
    start (memory sg) (i + 1) = start (memory sg) i + sg[i].length := by
  rw [start_succ (by rw [length_memory]; exact hi)]
  unfold memory
  rw [List.getElem_map]
  rfl

/-- **The search for the entry** keeps the byte, and ends in the entry that has it. -/
theorem pioSkip_spec (sg : List Scatterlist) (fuel off : ℕ) {cur : ℕ} (hcur : cur ≤ sg.length)
    (hfuel : sg.length ≤ cur + fuel) :
    start (memory sg) (pioSkip sg fuel cur off).1 + (pioSkip sg fuel cur off).2 = start (memory sg) cur + off ∧
      (pioSkip sg fuel cur off).1 ≤ sg.length ∧
      ∀ e, sg[(pioSkip sg fuel cur off).1]? = some e → (pioSkip sg fuel cur off).2 < e.length := by
  induction fuel generalizing cur off with
  | zero =>
    have hend : sg.length ≤ cur := by omega
    unfold pioSkip
    refine ⟨rfl, hcur, ?_⟩
    intro e he
    rw [List.getElem?_eq_none hend] at he
    exact absurd he (by simp)
  | succ fuel ih =>
    unfold pioSkip
    cases he : sg[cur]? with
    | none =>
      refine ⟨rfl, hcur, ?_⟩
      intro e he'
      rw [he] at he'
      exact absurd he' (by simp)
    | some e =>
      obtain ⟨hlt, hget⟩ := List.getElem?_eq_some_iff.1 he
      simp only
      split
      · rename_i hge
        obtain ⟨hpos, hle, hin⟩ := ih (off - e.length) hlt (by omega)
        refine ⟨?_, hle, hin⟩
        rw [hpos, start_memory_succ hlt, hget]
        omega
      · rename_i hin
        refine ⟨rfl, hcur, ?_⟩
        intro e' he'
        rw [he] at he'
        rw [← Option.some.inj he']
        simp only
        omega

/-- A word of an entry is a word of the memory. -/
theorem readWord_flatten {sg : List Scatterlist} {i off : ℕ} (hi : i < sg.length) (h : off + 4 ≤ sg[i].length) :
    readWord sg[i].virt off = readWord (memory sg).flatten (start (memory sg) i + off) := by
  have hbyte : ∀ k < 4, (memory sg).flatten.getD (start (memory sg) i + off + k) 0 = sg[i].virt.getD (off + k) 0 := by
    intro k hk
    have hi' : i < (memory sg).length := by
      rw [length_memory]
      exact hi
    have hget : (memory sg)[i] = sg[i].virt := List.getElem_map _
    have hlen : off + k < (memory sg)[i].length := by
      rw [hget]
      unfold Scatterlist.length at h
      omega
    rw [Nat.add_assoc, flatten_getD hi' hlen, hget]
  unfold readWord
  simp only
  rw [hbyte 0 (by omega), hbyte 1 (by omega), hbyte 2 (by omega), hbyte 3 (by omega)]

/-- The words that one round moves. -/
def PioState.round (s : PioState) (read : Bool) (port : ℕ → UInt32) (e : Scatterlist) (words : ℕ) : PioState :=
  let moved :=
    if read then (List.range words).map fun i => port (s.wordsTransferred + i)
    else (List.range words).map fun i => readWord e.virt (s.sgOffset + 4 * i)
  { sg := if read then s.sg.set s.cur { e with virt := storeWords e.virt s.sgOffset moved } else s.sg
    cur := s.cur
    sgOffset := s.sgOffset + words * 4
    wordsTransferred := s.wordsTransferred + words
    bytesToTransfer := s.bytesToTransfer - words * 4
    words := s.words ++ moved }

/-- **One round** moves words of one entry. -/
theorem round_moves (read : Bool) (port : ℕ → UInt32) (hcur : s.cur < s.sg.length)
    (hlen : s.sgOffset + 4 * r ≤ s.sg[s.cur].length) (hbytes : 4 * r ≤ s.bytesToTransfer) : Moves read port s (s.round read port s.sg[s.cur] r) r := by
  have hmoved : (if read then (List.range r).map fun i => port (s.wordsTransferred + i)
      else (List.range r).map fun i => readWord s.sg[s.cur].virt (s.sgOffset + 4 * i)) = s.next read port r := by
    unfold PioState.next PioState.pos
    cases read with
    | true => rfl
    | false =>
      simp only [Bool.false_eq_true, if_false]
      apply List.map_congr_left
      intro i hi
      have := List.mem_range.1 hi
      rw [readWord_flatten hcur (by omega), Nat.add_assoc]
  have hcur' : s.cur < (memory s.sg).length := by
    rw [length_memory]
    exact hcur
  have hget : (memory s.sg)[s.cur] = s.sg[s.cur].virt := List.getElem_map _
  have hfits : s.sgOffset + ((s.next read port r).flatMap wordBytes).length ≤ (memory s.sg)[s.cur].length := by
    rw [hget, length_wordBytes, length_next]
    exact hlen
  have hset : memory (s.sg.set s.cur { s.sg[s.cur] with
      virt := storeWords s.sg[s.cur].virt s.sgOffset (s.next read port r) }) =
        (memory s.sg).set s.cur (overwrite (memory s.sg)[s.cur] s.sgOffset
          ((s.next read port r).flatMap wordBytes)) := by
    rw [hget, ← storeWords_eq]
    exact List.map_set
  unfold PioState.round
  simp only
  rw [hmoved]
  -- the lengths stay, whichever the direction
  have hlengths : (memory (if read then s.sg.set s.cur { s.sg[s.cur] with
      virt := storeWords s.sg[s.cur].virt s.sgOffset (s.next read port r) } else s.sg)).map List.length =
        (memory s.sg).map List.length := by
    cases read with
    | true =>
      simp only [if_true]
      rw [hset, List.map_set, length_overwrite hfits, ← List.getElem_map (f := List.length) (h := by simpa using hcur')]
      exact List.set_getElem_self _
    | false => rfl
  refine ⟨rfl, ?_, rfl, hlengths, ?_, ?_, ?_, ?_⟩
  · simp only
    omega
  · unfold PioState.pos
    simp only
    rw [start_congr hlengths]
    omega
  · intro i hi
    refine ⟨s.cur, hcur', ?_, ?_⟩
    · unfold PioState.pos
      omega
    · rw [start_memory_succ hcur]
      unfold PioState.pos
      omega
  · rintro rfl
    simp only [if_true]
    rw [hset, flatten_set hcur' hfits]
    rfl
  · rintro rfl
    rfl

/-- What a transfer has left of the block, in words. -/
def PioState.left (s : PioState) (wordsInFifo : ℕ) : ℕ := min (wordsInFifo - s.wordsTransferred) (s.bytesToTransfer / 4)

/-- Where a transfer may stand: before the bytes that are left. -/
structure Standing (s : PioState) (wordsInFifo : ℕ) : Prop where
  cur : s.cur ≤ s.sg.length
  bytes : s.pos + s.bytesToTransfer = (memory s.sg).flatten.length
  whole : 4 ∣ s.bytesToTransfer
  block : s.wordsTransferred ≤ wordsInFifo

/-- **One turn of the loop** moves words of one entry, or finds that the next word does not lie in one. -/
theorem pioLoop_turn (read : Bool) (port : ℕ → UInt32) {wordsInFifo : ℕ} (fuel : ℕ) (h : Standing s wordsInFifo)
    (hleft : 0 < s.left wordsInFifo) :
    (¬ Inside (memory s.sg) s.pos 4 ∧ Moves read port s (pioLoop read port wordsInFifo (fuel + 1) s) 0) ∨
      ∃ t r, 0 < r ∧ r ≤ s.left wordsInFifo ∧ Moves read port s t r ∧ t.cur ≤ t.sg.length ∧
        pioLoop read port wordsInFifo (fuel + 1) s = pioLoop read port wordsInFifo fuel t := by
  obtain ⟨hcur, hbytes, hwhole, hblock⟩ := h
  unfold PioState.left at hleft ⊢
  have hmore : s.wordsTransferred < wordsInFifo ∧ s.bytesToTransfer > 0 := by omega
  obtain ⟨hpos, hle, hin⟩ := pioSkip_spec s.sg s.sg.length s.sgOffset hcur (by omega)
  rw [pioLoop, if_pos hmore]
  simp only
  generalize pioSkip s.sg s.sg.length s.cur s.sgOffset = q at hpos hle hin
  obtain ⟨c, o⟩ := q
  simp only at hpos hle hin ⊢
  have hzero := moves_zero (s := s) read port hpos
  cases he : s.sg[c]? with
  | none =>
    -- the end of the list, though bytes are left
    exfalso
    have hc : c = s.sg.length := Nat.le_antisymm hle (List.getElem?_eq_none_iff.1 he)
    have hend := start_length (memory s.sg)
    rw [length_memory, ← hc] at hend
    unfold PioState.pos at hbytes
    omega
  | some e =>
    obtain ⟨hlt, rfl⟩ := List.getElem?_eq_some_iff.1 he
    have hoff := hin _ he
    simp only
    generalize hw : min (min ((s.sg[c].length - o) / 4) (wordsInFifo - s.wordsTransferred)) (s.bytesToTransfer / 4) = w
    split
    · rename_i hnone
      refine Or.inl ⟨?_, hzero⟩
      refine not_inside (i := c + 1) ?_ ?_
      · rw [start_memory_succ hlt, ← show _ = s.pos from hpos]
        omega
      · rw [start_memory_succ hlt, ← show _ = s.pos from hpos]
        omega
    · rename_i hsome
      have hround := round_moves read port (s := { s with cur := c, sgOffset := o }) (r := w) hlt
        (show o + 4 * w ≤ s.sg[c].length by omega) (show 4 * w ≤ s.bytesToTransfer by omega)
      have hmoves := hzero.trans hround
      rw [Nat.zero_add] at hmoves
      refine Or.inr ⟨_, w, by omega, by omega, hmoves, ?_, rfl⟩
      have hlen := congrArg List.length hmoves.lengths
      simp only [List.length_map, length_memory] at hlen
      rw [hlen]
      exact hle

/-- After some words the transfer still stands before what is left. -/
theorem Standing.after {t : PioState} {wordsInFifo : ℕ} (h : Standing s wordsInFifo) (hm : Moves read port s t r)
    (hcur : t.cur ≤ t.sg.length) (hr : r ≤ s.left wordsInFifo) :
    Standing t wordsInFifo ∧ t.left wordsInFifo = s.left wordsInFifo - r := by
  obtain ⟨-, hbytes, hwhole, hblock⟩ := h
  have hlen : (memory t.sg).flatten.length = (memory s.sg).flatten.length := by
    rw [List.length_flatten, List.length_flatten, hm.lengths]
  unfold PioState.left at hr ⊢
  have ht := hm.transferred
  have hb := hm.bytes
  refine ⟨⟨hcur, ?_, ?_, ?_⟩, ?_⟩
  · rw [hlen, hm.pos]
    omega
  · omega
  · omega
  · omega

/-- **The loop moves words in order** until none is left of the block, or the next one does not lie in one
entry. -/
theorem pioLoop_moves (read : Bool) (port : ℕ → UInt32) {wordsInFifo : ℕ} (fuel : ℕ) (h : Standing s wordsInFifo)
    (hfuel : s.left wordsInFifo ≤ fuel) :
    ∃ r ≤ s.left wordsInFifo, Moves read port s (pioLoop read port wordsInFifo fuel s) r ∧
      (r < s.left wordsInFifo → ¬ Inside (memory s.sg) (s.pos + 4 * r) 4) := by
  induction fuel generalizing s with
  | zero => exact ⟨0, Nat.zero_le _, moves_zero read port rfl, fun hlt => by omega⟩
  | succ fuel ih =>
    by_cases hleft : 0 < s.left wordsInFifo
    · rcases pioLoop_turn read port fuel h hleft with ⟨hstuck, hm⟩ | ⟨t, r, hpos, hr, hm, hcur, heq⟩
      · exact ⟨0, Nat.zero_le _, hm, fun _ => hstuck⟩
      · obtain ⟨hstand, hleft'⟩ := h.after hm hcur hr
        obtain ⟨r', hr', hm', hstop⟩ := ih hstand (by omega)
        rw [heq]
        refine ⟨r + r', by omega, hm.trans hm', ?_⟩
        intro hlt hinside
        refine hstop (by omega) (inside_congr ?_ hm.lengths.symm)
        rw [hm.pos, Nat.add_assoc, ← Nat.mul_add]
        exact hinside
    · refine ⟨0, Nat.zero_le _, ?_, fun hlt => absurd hlt hleft⟩
      have hdone : ¬ (s.wordsTransferred < wordsInFifo ∧ s.bytesToTransfer > 0) := by
        have hwhole := h.whole
        unfold PioState.left at hleft
        omega
      rw [pioLoop, if_neg hdone]
      exact moves_zero read port rfl

/-! ## A data phase -/

/-- The words that went through the port, in order. -/
def portWords : List Ev → List UInt32
  | [] => []
  | .pio _ words :: log => portWords log ++ words
  | _ :: log => portWords log

/-- The calls of `efx_emmc_transfer_pio` of a data phase. -/
def Host.transferPios (h : Host) (envs : List PioEnv) : Host := envs.foldl Host.transferPio h

/-- The buffer is ready for the direction of the data. -/
def MmcData.ready (d : MmcData) (env : PioEnv) : Bool :=
  if d.read then env.present.bufferReadEn else env.present.bufferWriteEn

/-- The start of a data phase without DMA. -/
structure DataPhase (h : Host) (d : MmcData) : Prop where
  data : h.curData = some d
  bytes : h.bytesToTransfer = d.size
  offset : h.sgOffset = 0
  total : (memory d.sg).flatten.length = d.size
  words : 4 ∣ d.blksz

/-- How many blocks such calls are to move. -/
def MmcData.blocksMoved (d : MmcData) (envs : List PioEnv) : ℕ := min d.blocks (envs.filter d.ready).length

/-- The words that they are to move: a block a call, from the port or from the memory. -/
def MmcData.wordsMoved (d : MmcData) (envs : List PioEnv) : List UInt32 :=
  if d.read then
    ((envs.filter d.ready).take d.blocks).flatMap fun env => (List.range (d.blksz / 4)).map env.port
  else (List.range (d.blksz / 4 * d.blocksMoved envs)).map fun i => readWord (memory d.sg).flatten (4 * i)

/-- The words `w` were moved, in order and nowhere else. -/
structure MovedWords (h : Host) (d : MmcData) (w : List UInt32) (h' : Host) : Prop where
  words : portWords h'.log = portWords h.log ++ w
  bytes : h'.bytesToTransfer + 4 * w.length = d.size
  entries : ∃ d', h'.curData = some d' ∧ d'.blksz = d.blksz ∧ d'.blocks = d.blocks ∧ d'.read = d.read ∧
    (memory d'.sg).map List.length = (memory d.sg).map List.length ∧
    (d.read = true → (memory d'.sg).flatten = overwrite (memory d.sg).flatten 0 (w.flatMap wordBytes)) ∧
    (d.read = false → d'.sg = d.sg ∧
      w = (List.range w.length).map fun i => readWord (memory d.sg).flatten (4 * i))

/-- What the calls are to do. -/
structure MovedInOrder (h : Host) (d : MmcData) (envs : List PioEnv) (h' : Host) : Prop where
  moved : MovedWords h d (d.wordsMoved envs) h'
  count : (d.wordsMoved envs).length = d.blksz / 4 * d.blocksMoved envs
  done : h'.bytesToTransfer = 0 ↔ 4 * (d.wordsMoved envs).length = d.size

/-- Where the phase stands after the words `w`, each of which lies in one entry. -/
structure PhaseAt (h : Host) (d : MmcData) (w : List UInt32) (h' : Host) : Prop where
  moved : MovedWords h d w h'
  offset : h'.sgOffset = 4 * w.length
  inside : ∀ i < w.length, Inside (memory d.sg) (4 * i) 4

variable {h h' : Host} {d : MmcData} {w : List UInt32}

theorem MmcData.size_words (hw : 4 ∣ d.blksz) : d.size = 4 * (d.blksz / 4 * d.blocks) := by
  unfold MmcData.size
  rw [← Nat.mul_assoc, Nat.mul_div_cancel' hw]

theorem DataPhase.at_start (hs : DataPhase h d) : PhaseAt h d [] h := by
  refine ⟨⟨(List.append_nil _).symm, hs.bytes, d, hs.data, rfl, rfl, rfl, rfl, ?_, ?_⟩, hs.offset,
    fun i hi => absurd hi (Nat.not_lt_zero i)⟩
  · intro _
    rw [List.flatMap_nil, overwrite_nil]
  · exact fun _ => ⟨rfl, rfl⟩

/-- What is left of a block when so many words were moved. -/
def MmcData.left (d : MmcData) (n : ℕ) : ℕ := min (d.blksz / 4) (d.blksz / 4 * d.blocks - n)

/-- The words of a call: the port's first ones, or the next ones of the memory. -/
def MmcData.nextWords (d : MmcData) (env : PioEnv) (n r : ℕ) : List UInt32 :=
  if d.read then (List.range r).map env.port
  else (List.range r).map fun i => readWord (memory d.sg).flatten (4 * (n + i))

/-- The locals of a call before its loop. -/
def startLocals (d : MmcData) (h : Host) : PioState := ⟨d.sg, 0, h.sgOffset, 0, h.bytesToTransfer, []⟩

theorem nextWords_length (env : PioEnv) (n r : ℕ) : (d.nextWords env n r).length = r := by
  unfold MmcData.nextWords
  split <;> simp

/-- A call begins where the phase stands. -/
theorem PhaseAt.standing (hs : DataPhase h d) (hp : PhaseAt h d w h') {d' : MmcData}
    (hlen : (memory d'.sg).map List.length = (memory d.sg).map List.length) :
    Standing (startLocals d' h') (d.blksz / 4) ∧ (startLocals d' h').pos = 4 * w.length ∧
      (startLocals d' h').left (d.blksz / 4) = d.left w.length := by
  have hpos : (startLocals d' h').pos = 4 * w.length := by
    unfold PioState.pos startLocals
    rw [start_zero, Nat.zero_add]
    exact hp.offset
  have hbytes := hp.moved.bytes
  have hsize := MmcData.size_words hs.words
  have htotal : (memory d'.sg).flatten.length = d.size := by
    rw [← hs.total, List.length_flatten, List.length_flatten, hlen]
  refine ⟨⟨Nat.zero_le _, ?_, ?_, Nat.zero_le _⟩, hpos, ?_⟩
  · rw [hpos, show (startLocals d' h').bytesToTransfer = h'.bytesToTransfer from rfl,
      show memory (startLocals d' h').sg = memory d'.sg from rfl, htotal, Nat.add_comm]
    exact hbytes
  · rw [show (startLocals d' h').bytesToTransfer = h'.bytesToTransfer from rfl]
    omega
  · unfold PioState.left MmcData.left startLocals
    simp only
    omega

/-- What the loop leaves, as the phase sees it. -/
theorem PhaseAt.moves (hs : DataPhase h d) (hp : PhaseAt h d w h') {d' : MmcData} (hcur : h'.curData = some d')
    (hne : d'.sg ≠ []) (env : PioEnv) :
    ∃ r ≤ d.left w.length, PhaseAt h d (w ++ d.nextWords env w.length r) (h'.transferPioDir d.read env.port) ∧
      (r < d.left w.length → ¬ Inside (memory d.sg) (4 * (w.length + r)) 4) := by
  obtain ⟨hmoved, hoffset, hinside⟩ := hp
  obtain ⟨hwords, hbytes, d₁, hcur', hblksz, hblocks, hread, hlen, hofRead, hofWrite⟩ := hmoved
  obtain rfl : d' = d₁ := Option.some.inj (hcur.symm.trans hcur')
  obtain ⟨hstand, hpos, hleft⟩ := PhaseAt.standing hs ⟨⟨hwords, hbytes, _, hcur, hblksz, hblocks, hread, hlen, hofRead,
    hofWrite⟩, hoffset, hinside⟩ hlen
  obtain ⟨r, hr, hm, hstop⟩ := pioLoop_moves d.read env.port (d.blksz / 4) hstand
    (by rw [hleft]; exact Nat.min_le_left _ _)
  rw [hleft] at hr hstop
  have hnext : (startLocals d' h').next d.read env.port r = d.nextWords env w.length r := by
    unfold PioState.next MmcData.nextWords
    rw [hpos]
    cases hdir : d.read with
    | true => simp [startLocals]
    | false =>
      simp only [Bool.false_eq_true, if_false, Nat.mul_add]
      rw [show (startLocals d' h').sg = d.sg from (hofWrite hdir).1]
  have hlength : (w ++ d.nextWords env w.length r).length = w.length + r := by
    rw [List.length_append, nextWords_length]
  have hcall : h'.transferPioDir d.read env.port =
      let s := pioLoop d.read env.port (d.blksz / 4) (d.blksz / 4) (startLocals d' h')
      { (h'.modifyData fun d => { d with sg := s.sg }).emit (.pio h'.mrqId s.words) with
        sgOffset := h'.sgOffset + s.wordsTransferred * 4
        bytesToTransfer := s.bytesToTransfer
        blocksDone := (d'.size - s.bytesToTransfer) / d'.blksz } := by
    unfold Host.transferPioDir
    rw [hcur]
    simp only
    rw [if_neg hne, hblksz]
    rfl
  rw [hcall]
  generalize pioLoop d.read env.port (d.blksz / 4) (d.blksz / 4) (startLocals d' h') = s at hm
  obtain ⟨htransferred, hsbytes, hswords, hslen, -, hsin, hsread, hswrite⟩ := hm
  rw [hnext] at hswords hsread
  simp only
  refine ⟨r, hr, ⟨⟨?_, ?_, { d' with sg := s.sg }, ?_, hblksz, hblocks, hread, hslen.trans hlen, ?_, ?_⟩, ?_, ?_⟩, ?_⟩
  · -- the event of this call is the latest one
    rw [show s.words = d.nextWords env w.length r from hswords]
    change portWords h'.log ++ _ = _
    rw [hwords, List.append_assoc]
  · rw [hlength, Nat.mul_add]
    change s.bytesToTransfer + (4 * w.length + 4 * r) = d.size
    have : s.bytesToTransfer + 4 * r = h'.bytesToTransfer := hsbytes
    omega
  · have hmod := curData_modifyData h' fun d => { d with sg := s.sg }
    rw [hcur] at hmod
    exact hmod
  · intro hdir
    rw [hsread hdir, hpos, show (startLocals d' h').sg = d'.sg from rfl, hofRead hdir, List.flatMap_append,
      ← overwrite_overwrite (by rw [length_wordBytes, hs.total]; omega), length_wordBytes, Nat.zero_add]
  · intro hdir
    refine ⟨(hswrite hdir).trans (hofWrite hdir).1, ?_⟩
    rw [hlength, List.range_add, List.map_append, ← (hofWrite hdir).2, List.map_map]
    congr 1
    unfold MmcData.nextWords
    rw [hdir]
    rfl
  · rw [hlength, Nat.mul_add, htransferred, hoffset]
    change 4 * w.length + (0 + r) * 4 = _
    omega
  · intro i hi
    rw [hlength] at hi
    rcases Nat.lt_or_ge i w.length with hlt | hge
    · exact hinside i hlt
    · have hin := hsin (i - w.length) (by omega)
      rw [hpos] at hin
      have hin' := inside_congr hin hlen
      rwa [show 4 * w.length + 4 * (i - w.length) = 4 * i by omega] at hin'
  · intro hlt hin
    refine hstop hlt (inside_congr ?_ hlen.symm)
    rw [hpos, ← Nat.mul_add]
    exact hin

/-- **A call** moves as many words as are left of the block, or finds that the next one does not lie in one
entry; without the buffer it does nothing. -/
theorem call_moves (hs : DataPhase h d) (hp : PhaseAt h d w h') (env : PioEnv) :
    if d.ready env then
      ∃ r ≤ d.left w.length, PhaseAt h d (w ++ d.nextWords env w.length r) (h'.transferPio env) ∧
        (r < d.left w.length → ¬ Inside (memory d.sg) (4 * (w.length + r)) 4)
    else h'.transferPio env = h' := by
  obtain ⟨d', hcur, hblksz, hblocks, hread, hlen, -, -⟩ := hp.moved.entries
  have hcall : h'.transferPio env = if d.ready env then h'.transferPioDir d.read env.port else h' := by
    unfold Host.transferPio MmcData.ready Host.transferPioRead Host.transferPioWrite
    rw [hcur]
    simp only [hread]
    cases d.read <;> rfl
  split
  · rename_i hready
    rw [hcall, if_pos hready]
    by_cases hne : d'.sg = []
    · -- no entries, and so nothing to move
      have hempty : h'.transferPioDir d.read env.port = h' := by
        unfold Host.transferPioDir
        rw [hcur]
        simp only
        rw [if_pos hne]
      have htotal : d.size = 0 := by
        rw [← hs.total, List.length_flatten, ← hlen, hne]
        rfl
      have hleft : d.left w.length = 0 := by
        have := MmcData.size_words hs.words
        unfold MmcData.left
        omega
      refine ⟨0, Nat.zero_le _, ?_, fun hlt => by omega⟩
      have hnil : d.nextWords env w.length 0 = [] := List.eq_nil_of_length_eq_zero (nextWords_length env _ 0)
      rw [hempty, hnil, List.append_nil]
      exact hp
    · exact hp.moves hs hcur hne env
  · rename_i hready
    rw [hcall, if_neg hready]

/-! ## Every sequence of calls -/

theorem transferPios_concat (h : Host) (envs : List PioEnv) (env : PioEnv) :
    h.transferPios (envs ++ [env]) = (h.transferPios envs).transferPio env := by
  unfold Host.transferPios
  rw [List.foldl_append]
  rfl

/-- **Whatever the calls**, they move words that each lie in one entry. -/
theorem phase_reached (hs : DataPhase h d) (envs : List PioEnv) : ∃ w, PhaseAt h d w (h.transferPios envs) := by
  induction envs using List.reverseRecOn with
  | nil => exact ⟨[], hs.at_start⟩
  | append_singleton envs env ih =>
    obtain ⟨w, hw⟩ := ih
    rw [transferPios_concat]
    have hcall := call_moves hs hw env
    split at hcall
    · obtain ⟨r, -, hnext, -⟩ := hcall
      exact ⟨_, hnext⟩
    · rw [hcall]
      exact ⟨w, hw⟩

theorem wordsMoved_length (envs : List PioEnv) :
    (d.wordsMoved envs).length = d.blksz / 4 * d.blocksMoved envs := by
  unfold MmcData.wordsMoved MmcData.blocksMoved
  split
  · rw [List.length_flatMap]
    simp only [List.length_map, List.length_range, List.map_const', List.sum_replicate_nat, List.length_take]
    exact Nat.mul_comm _ _
  · rw [List.length_map, List.length_range]

/-- The words of one more call. -/
theorem wordsMoved_concat (envs : List PioEnv) (env : PioEnv) :
    d.wordsMoved (envs ++ [env]) =
      if d.ready env then
        d.wordsMoved envs ++ d.nextWords env (d.wordsMoved envs).length (d.left (d.wordsMoved envs).length)
      else d.wordsMoved envs := by
  by_cases hready : d.ready env = true
  · have hfilter : (envs ++ [env]).filter d.ready = envs.filter d.ready ++ [env] := by
      rw [List.filter_append, List.filter_cons_of_pos hready, List.filter_nil]
    rw [if_pos hready, wordsMoved_length]
    have hleft : d.left (d.blksz / 4 * d.blocksMoved envs) =
        if (envs.filter d.ready).length < d.blocks then d.blksz / 4 else 0 := by
      unfold MmcData.left MmcData.blocksMoved
      rw [← Nat.mul_sub]
      split
      · rename_i hlt
        rw [Nat.min_eq_right (Nat.le_of_lt hlt)]
        exact Nat.min_eq_left (Nat.le_mul_of_pos_right _ (by omega))
      · rename_i hge
        rw [show min d.blocks (envs.filter d.ready).length = d.blocks from Nat.min_eq_left (by omega), Nat.sub_self,
          Nat.mul_zero]
        exact Nat.min_zero _
    rw [hleft]
    unfold MmcData.wordsMoved MmcData.nextWords MmcData.blocksMoved
    rw [hfilter, List.length_append, List.length_singleton]
    split
    · rw [List.take_append, List.flatMap_append]
      congr 1
      split
      · rename_i hlt
        rw [List.take_of_length_le (by rw [List.length_singleton]; omega), List.flatMap_singleton]
      · rename_i hge
        rw [show d.blocks - (envs.filter d.ready).length = 0 by omega]
        rfl
    · split
      · rename_i hlt
        rw [Nat.min_eq_right hlt, Nat.min_eq_right (Nat.le_of_lt hlt), Nat.mul_succ, List.range_add,
          List.map_append, List.map_map]
        rfl
      · rename_i hge
        rw [Nat.min_eq_left (by omega), Nat.min_eq_left (by omega)]
        exact (List.append_nil _).symm
  · rw [if_neg hready]
    have hfilter : (envs ++ [env]).filter d.ready = envs.filter d.ready := by
      rw [List.filter_append, List.filter_cons_of_neg hready, List.filter_nil, List.append_nil]
    unfold MmcData.wordsMoved MmcData.blocksMoved
    rw [hfilter]

/-- **With entries of whole words** every call moves its block. -/
theorem phase_in_order (hs : DataPhase h d) (hall : ∀ e ∈ d.sg, 4 ∣ e.length) (envs : List PioEnv) :
    PhaseAt h d (d.wordsMoved envs) (h.transferPios envs) := by
  have hinside : ∀ i, 4 * i < d.size → Inside (memory d.sg) (4 * i) 4 := by
    have hdvd : ∀ xs ∈ memory d.sg, 4 ∣ xs.length := by
      intro xs hxs
      obtain ⟨e, he, rfl⟩ := List.mem_map.1 hxs
      exact hall e he
    intro i hi
    exact (inside_iff_dvd (by decide)).2 hdvd (4 * i) (Nat.dvd_mul_right 4 i) (by rw [hs.total]; exact hi)
  induction envs using List.reverseRecOn with
  | nil =>
    have hnil : d.wordsMoved [] = [] := by
      apply List.eq_nil_of_length_eq_zero
      rw [wordsMoved_length]
      unfold MmcData.blocksMoved
      simp
    rw [hnil]
    exact hs.at_start
  | append_singleton envs env ih =>
    rw [transferPios_concat, wordsMoved_concat]
    have hcall := call_moves hs ih env
    split at hcall
    · rename_i hready
      rw [if_pos hready]
      obtain ⟨r, hr, hnext, hstop⟩ := hcall
      -- no word is left behind
      have hfull : r = d.left (d.wordsMoved envs).length := by
        rcases Nat.eq_or_lt_of_le hr with heq | hlt
        · exact heq
        · have hsize := MmcData.size_words hs.words
          unfold MmcData.left at hlt
          exact absurd (hinside _ (by omega)) (hstop (by unfold MmcData.left; omega))
      rw [← hfull]
      exact hnext
    · rename_i hready
      rw [if_neg hready, hcall]
      exact ih

/-- A call that finds the buffer ready. -/
def readyCall : PioEnv := ⟨{ bufferReadEn := true, bufferWriteEn := true }, fun _ => 0⟩

theorem ready_readyCall (d : MmcData) : d.ready readyCall = true := by
  unfold MmcData.ready
  split <;> rfl

/-- **Data that is moved in order** is in entries of whole words. -/
theorem whole_of_moved (hs : DataPhase h d) (hright : ∀ envs, MovedInOrder h d envs (h.transferPios envs)) :
    ∀ e ∈ d.sg, 4 ∣ e.length := by
  -- as many calls as there are blocks, all with the buffer ready
  have hinside : ∀ i, 4 * i < d.size → Inside (memory d.sg) (4 * i) 4 := by
    obtain ⟨w, hw⟩ := phase_reached hs (List.replicate d.blocks readyCall)
    have hmoved := hright (List.replicate d.blocks readyCall)
    have hsame : w = d.wordsMoved (List.replicate d.blocks readyCall) :=
      List.append_cancel_left (hw.moved.words.symm.trans hmoved.moved.words)
    have hcount : w.length = d.blksz / 4 * d.blocks := by
      rw [hsame, hmoved.count]
      unfold MmcData.blocksMoved
      rw [List.filter_replicate_of_pos (ready_readyCall d), List.length_replicate, Nat.min_self]
    intro i hi
    have hsize := MmcData.size_words hs.words
    exact hw.inside i (by omega)
  have hdvd : ∀ xs ∈ memory d.sg, 4 ∣ xs.length := by
    apply (inside_iff_dvd (by decide)).1
    rintro p ⟨i, rfl⟩ hlt
    rw [hs.total] at hlt
    exact hinside i hlt
  intro e he
  exact hdvd e.virt (List.mem_map_of_mem he)

/-- **The calls of a data phase move the data in order**, a block a call, exactly when the length of every
entry is a multiple of four. -/
theorem transfer_pio_iff (hs : DataPhase h d) :
    (∀ envs, MovedInOrder h d envs (h.transferPios envs)) ↔ ∀ e ∈ d.sg, 4 ∣ e.length := by
  constructor
  · exact whole_of_moved hs
  · intro hall envs
    have hphase := phase_in_order hs hall envs
    refine ⟨hphase.moved, wordsMoved_length envs, ?_⟩
    have hbytes := hphase.moved.bytes
    omega

/-! ## Eight bytes in two entries -/

/-- A read of one block of 8 bytes. -/
def eightBytes (first second : ℕ) : MmcData :=
  { blksz := 8, blocks := 1, read := true
    sg := [⟨List.replicate first 0, ⟨0, 8, by decide, by decide⟩⟩, ⟨List.replicate second 0, ⟨8, 8, by decide, by decide⟩⟩]
    sgLen := 2, bytesXfered := 0, error := 0, blksz_le := by decide, blocks_le := MmcData.one_block_le }

/-- The host at the start of its data phase. -/
def eightBytesHost (first second : ℕ) : Host :=
  { Host.probed 0 (by decide) with
    mrq := some { readWordRequest with data := some (eightBytes first second) }
    data := true
    bytesToTransfer := 8 }

/-- In two whole words. -/
theorem moved_in_words :
    DataPhase (eightBytesHost 4 4) (eightBytes 4 4) ∧
      ∀ envs, MovedInOrder (eightBytesHost 4 4) (eightBytes 4 4) envs ((eightBytesHost 4 4).transferPios envs) := by
  have hs : DataPhase (eightBytesHost 4 4) (eightBytes 4 4) := ⟨rfl, rfl, rfl, rfl, by decide⟩
  exact ⟨hs, (transfer_pio_iff hs).2 (by decide)⟩

/-- **In six bytes and two** the second word lies in neither entry, and no call moves it. -/
theorem stuck_between_entries :
    DataPhase (eightBytesHost 6 2) (eightBytes 6 2) ∧
      ¬ ∀ envs, MovedInOrder (eightBytesHost 6 2) (eightBytes 6 2) envs ((eightBytesHost 6 2).transferPios envs) := by
  have hs : DataPhase (eightBytesHost 6 2) (eightBytes 6 2) := ⟨rfl, rfl, rfl, rfl, by decide⟩
  refine ⟨hs, ?_⟩
  intro hright
  exact absurd (whole_of_moved hs hright _ List.mem_cons_self) (by decide)

end Br2Efinix.Emmc
