import Mathlib.Algebra.GroupWithZero.Nat
import Mathlib.Data.Int.Notation
import Mathlib.Data.List.Basic
import Mathlib.Data.Nat.Notation

/-!
# Writes to the character devices

`apb3_write` and `evsoc_write` collect the bytes of a line in `msg_in` and write its number to the register behind the
base. The kernel hands over fewer than 2³¹ bytes in a call, so that their counter does not overflow.

* `writeBytes_eq`: the loop, from a part of a line on.
* `charWrite_eq`: **the bytes stay in `msg_in` exactly if the lines are short**, and then each line is written once.
* `callWrites_eq`: a caller that writes what is left writes all of it again, at every call.
* `charWrite_right_iff`: **a write is right only of no bytes**.
-/

namespace Br2Efinix.CharDev

/-! ## The drivers -/

def newline : UInt8 := 10

/-- `char msg_in[32]`; an index outside it is out of bounds. -/
def MSG_IN : ℕ := 32

/-- `msg_in[i] = ch` -/
def store (msgIn : ℕ → UInt8) (i : ℕ) (ch : UInt8) : Option (ℕ → UInt8) :=
  if i < MSG_IN then some (fun j => if j = i then ch else msgIn j) else none

/-- The string in `msg_in`. -/
def cString (msgIn : ℕ → UInt8) : List UInt8 := ((List.range MSG_IN).map msgIn).takeWhile (· != 0)

/-- The locals of a write, its offset, and the registers written so far. -/
structure Accum where
  msgIn : ℕ → UInt8
  lenIn : ℕ
  offset : ℕ
  writes : List (ℕ × BitVec 32)

variable (strtol : List UInt8 → ℤ) (reg : ℕ)

/-- `(uint32_t)simple_strtol(...)` -/
def value (line : List UInt8) : BitVec 32 := BitVec.ofInt 32 (strtol line)

/-- One byte; what `get_user` cannot read is 0. -/
def writeByte (s : Accum) (byte : Option UInt8) : Option Accum := do
  let ch := byte.getD 0
  let msgIn ← store s.msgIn s.lenIn ch
  -- the NUL is stored before the newline is looked for
  let msgIn ← store msgIn (s.lenIn + 1) 0
  if msgIn s.lenIn = newline then
    let msgIn ← store msgIn s.lenIn 0
    some ⟨msgIn, 0, s.offset + 1, s.writes ++ [(reg, value strtol (cString msgIn))]⟩
  else some ⟨msgIn, s.lenIn + 1, s.offset + 1, s.writes⟩

/-- What a call writes and returns. -/
structure Result where
  writes : List (ℕ × BitVec 32)
  offset : ℕ
  ret : ℤ
  deriving DecidableEq, Repr

/-- The common body of the two functions, with the bytes of the user's buffer: `none` where an index is out of bounds.
The array is not initialised. -/
def charWrite (msgIn : ℕ → UInt8) (imsg : List (Option UInt8)) (offset : ℕ) : Option Result :=
  (imsg.foldlM (writeByte strtol reg) ⟨msgIn, 0, offset, []⟩).map fun s => ⟨s.writes, s.offset, 0⟩

/-- `apb3_write`. -/
def apb3Write (base : ℕ) := charWrite strtol (base + 4)

/-- `evsoc_write`. -/
def evsocWrite (basePtr : ℕ) := charWrite strtol (basePtr + 4)

/-- A caller that calls again with what is left of the buffer, `n` times: what has been written, and what is left. -/
def callWrites (write : List (Option UInt8) → ℕ → Option Result) :
    ℕ → List (Option UInt8) → ℕ → Option (List (ℕ × BitVec 32) × List (Option UInt8))
  | 0, imsg, _ => some ([], imsg)
  | n + 1, imsg, offset => do
    let r ← write imsg offset
    let (writes, left) ← callWrites write n (imsg.drop r.ret.toNat) r.offset
    some (r.writes ++ writes, left)

/-! ## The property -/

/-- The bytes of the buffer, as they are read. -/
def bytesOf (imsg : List (Option UInt8)) : List UInt8 := imsg.map (·.getD 0)

/-- The parts of the buffer between its newlines. -/
def parts (bytes : List UInt8) : List (List UInt8) := bytes.splitOn newline

/-- The register writes of the lines that are terminated; a line's number ends at a NUL. -/
def lineWrites (bytes : List UInt8) : List (ℕ × BitVec 32) :=
  (parts bytes).dropLast.map fun line => (reg, value strtol (line.takeWhile (· != 0)))

/-- `msg_in` has not been left, and the call returns an error, or the number of bytes that it has consumed and written
the lines of, which is not 0 if there are bytes. -/
def WriteRight (imsg : List (Option UInt8)) (o : Option Result) : Prop :=
  ∃ r, o = some r ∧
    (r.ret < 0 ∨ ∃ n bytes, r.ret = Int.ofNat n ∧ n ≤ imsg.length ∧ (imsg ≠ [] → 0 < n) ∧
      imsg.take n = bytes.map some ∧ r.writes = lineWrites strtol reg bytes)

/-- The lines leave room for their newline and NUL, and an unterminated one for its NUL. -/
def Short (parts : List (List UInt8)) : Prop :=
  (∀ line ∈ parts.dropLast, line.length ≤ 30) ∧ (parts.getLastD []).length ≤ 31

instance (parts : List (List UInt8)) : Decidable (Short parts) := inferInstanceAs (Decidable (_ ∧ _))

/-! ## Lines -/

variable {strtol : List UInt8 → ℤ} {reg : ℕ} {acc bytes : List UInt8}

theorem parts_line (hacc : newline ∉ acc) : parts (acc ++ newline :: bytes) = acc :: parts bytes := by
  unfold parts
  rw [List.splitOn_append_cons_of_beq _ _ (beq_self_eq_true newline), List.splitOn_eq_singleton hacc,
    List.singleton_append]

theorem newline_notMem_concat {ch : UInt8} (hacc : newline ∉ acc) (hch : ch ≠ newline) : newline ∉ acc ++ [ch] := by
  rw [List.mem_append, List.mem_singleton]
  rintro (hmem | heq)
  · exact hacc hmem
  · exact hch heq.symm

theorem parts_rest (hacc : newline ∉ acc) : parts acc = [acc] := List.splitOn_eq_singleton hacc

theorem parts_ne_nil (bytes : List UInt8) : parts bytes ≠ [] := List.splitOn_ne_nil _ _

/-- What follows a part of a line is the rest of this line, and the other lines. -/
theorem parts_append (hacc : newline ∉ acc) (bytes : List UInt8) :
    ∃ rest more, parts bytes = rest :: more ∧ parts (acc ++ bytes) = (acc ++ rest) :: more := by
  obtain ⟨rest, more, hparts⟩ := List.exists_cons_of_ne_nil (parts_ne_nil bytes)
  refine ⟨rest, more, hparts, ?_⟩
  induction acc with
  | nil => exact hparts
  | cons x acc ih =>
    have hx : (x == newline) = false := beq_eq_false_iff_ne.2 fun heq => hacc (heq ▸ List.mem_cons_self ..)
    have htail := ih fun hmem => hacc (List.mem_cons_of_mem _ hmem)
    unfold parts at htail ⊢
    rw [List.cons_append, List.splitOn_cons_eq_if_modifyHead, hx, htail]
    rfl

theorem short_cons {line : List UInt8} {more : List (List UInt8)} (hmore : more ≠ []) :
    Short (line :: more) ↔ line.length ≤ 30 ∧ Short more := by
  obtain ⟨next, more, rfl⟩ := List.exists_cons_of_ne_nil hmore
  unfold Short
  rw [List.dropLast_cons_cons, List.forall_mem_cons, and_assoc]
  rfl

/-- A line that begins with 32 bytes is not short. -/
theorem not_short {line : List UInt8} {more : List (List UInt8)} (hlong : 32 ≤ line.length) :
    ¬ Short (line :: more) := by
  intro h
  rcases more with - | ⟨next, more⟩
  · have hlast : line.length ≤ 31 := h.2
    omega
  · have hline := ((short_cons (List.cons_ne_nil _ _)).1 h).1
    omega

theorem lineWrites_line (hacc : newline ∉ acc) :
    lineWrites strtol reg (acc ++ newline :: bytes) =
      (reg, value strtol (acc.takeWhile (· != 0))) :: lineWrites strtol reg bytes := by
  unfold lineWrites
  rw [parts_line hacc, List.dropLast_cons_of_ne_nil (parts_ne_nil bytes)]
  rfl

theorem lineWrites_rest (hacc : newline ∉ acc) : lineWrites strtol reg acc = [] := by
  unfold lineWrites
  rw [parts_rest hacc]
  rfl

/-! ## The loop -/

/-- `acc` is the part of the current line that is in `msg_in`. -/
def Accum.Holds (s : Accum) (acc : List UInt8) : Prop := (List.range s.lenIn).map s.msgIn = acc

variable {s : Accum} {byte : Option UInt8} {i : ℕ} {ch : UInt8} {msgIn : ℕ → UInt8} {imsg : List (Option UInt8)}

theorem Accum.Holds.length (h : s.Holds acc) : acc.length = s.lenIn := by
  unfold Accum.Holds at h
  rw [← h, List.length_map, List.length_range]

theorem store_inside (h : i < 32) : store msgIn i ch = some (fun j => if j = i then ch else msgIn j) := if_pos h

theorem store_outside (h : 32 ≤ i) : store msgIn i ch = none := if_neg (Nat.not_lt_of_le h)

/-- The string of a line that is terminated at `n`. -/
theorem cString_terminated {n : ℕ} (hn : n < 32) (hnul : msgIn n = 0) (hacc : (List.range n).map msgIn = acc) :
    cString msgIn = acc.takeWhile (· != 0) := by
  obtain ⟨k, hk⟩ : ∃ k, MSG_IN = n + (k + 1) := ⟨31 - n, by unfold MSG_IN; omega⟩
  have hrest : (List.range (n + (k + 1))).map msgIn =
      acc ++ 0 :: (List.range k).map (fun j => msgIn (n + (j + 1))) := by
    rw [List.range_add, List.map_append, hacc, List.range_succ_eq_map, List.map_cons, List.map_map, List.map_cons,
      List.map_map, Nat.add_zero, hnul]
    rfl
  unfold cString
  rw [hk, hrest, List.takeWhile_append]
  split
  · -- the line has no NUL, so the one behind it ends the string
    rename_i hall
    rw [List.takeWhile_cons_of_neg (by decide), List.append_nil]
    exact (List.takeWhile_prefix _).eq_of_length hall |>.symm
  · rfl

/-- The other bytes are as they were. -/
theorem map_store {n : ℕ} (h : n ≤ i) :
    (List.range n).map (fun j => if j = i then ch else msgIn j) = (List.range n).map msgIn := by
  apply List.map_congr_left
  intro j hj
  exact if_neg (by have hlt := List.mem_range.1 hj; omega)

/-- The byte that has been stored before its NUL. -/
theorem stored_byte (n : ℕ) :
    (fun j => if j = n + 1 then 0 else (fun j => if j = n then ch else msgIn j) j) n = ch := by
  show (if n = n + 1 then 0 else if n = n then ch else msgIn n) = ch
  rw [if_neg (Nat.ne_of_lt (Nat.lt_succ_self n)), if_pos rfl]

/-- A newline writes the register and begins a new line. -/
theorem writeByte_newline (strtol : List UInt8 → ℤ) (reg : ℕ) (hs : s.Holds acc) (hlen : acc.length ≤ 30)
    (hbyte : byte.getD 0 = newline) :
    ∃ m, writeByte strtol reg s byte =
      some ⟨m, 0, s.offset + 1, s.writes ++ [(reg, value strtol (acc.takeWhile (· != 0)))]⟩ := by
  have hlenIn := hs.length
  unfold writeByte
  simp only [hbyte, Option.bind_eq_bind]
  rw [store_inside (by omega), Option.bind_some, store_inside (by omega), Option.bind_some,
    if_pos (stored_byte _), store_inside (by omega), Option.bind_some,
    cString_terminated (n := s.lenIn) (by omega) (if_pos rfl)]
  · exact ⟨_, rfl⟩
  · rw [map_store (Nat.le_refl _), map_store (Nat.le_succ _), map_store (Nat.le_refl _)]
    exact hs

/-- Any other byte is added to the line. -/
theorem writeByte_char (strtol : List UInt8 → ℤ) (reg : ℕ) (hs : s.Holds acc) (hlen : acc.length ≤ 30)
    (hbyte : byte.getD 0 ≠ newline) :
    ∃ s', writeByte strtol reg s byte = some s' ∧ s'.Holds (acc ++ [byte.getD 0]) ∧ s'.offset = s.offset + 1 ∧
      s'.writes = s.writes := by
  have hlenIn := hs.length
  unfold writeByte
  simp only [Option.bind_eq_bind]
  rw [store_inside (by omega), Option.bind_some, store_inside (by omega), Option.bind_some,
    if_neg (by rwa [stored_byte])]
  refine ⟨_, rfl, ?_, rfl, rfl⟩
  unfold Accum.Holds at hs ⊢
  rw [List.range_succ, List.map_append, map_store (Nat.le_succ _), map_store (Nat.le_refl _), hs]
  simp

/-- A byte behind a line of 31 leaves `msg_in`. -/
theorem writeByte_outside (hs : s.Holds acc) (hlen : acc.length = 31) : writeByte strtol reg s byte = none := by
  have hlenIn := hs.length
  unfold writeByte
  simp only [Option.bind_eq_bind]
  rw [store_inside (by omega), Option.bind_some, store_outside (by omega), Option.bind_none]

/-- **The loop**, from a part of a line on. -/
theorem writeBytes_eq (strtol : List UInt8 → ℤ) (reg : ℕ) (imsg : List (Option UInt8)) (hacc : newline ∉ acc)
    (hs : s.Holds acc) (hlen : acc.length ≤ 31) :
    ((imsg.foldlM (writeByte strtol reg) s).map fun s => (s.writes, s.offset)) =
      if Short (parts (acc ++ imsg.map (·.getD 0))) then
        some (s.writes ++ lineWrites strtol reg (acc ++ imsg.map (·.getD 0)), s.offset + imsg.length)
      else none := by
  induction imsg generalizing acc s with
  | nil =>
    have hshort : Short (parts acc) := by
      rw [parts_rest hacc]
      exact ⟨nofun, hlen⟩
    rw [List.map_nil, List.append_nil, if_pos hshort, lineWrites_rest hacc, List.append_nil]
    rfl
  | cons byte imsg ih =>
    rw [List.foldlM_cons, List.map_cons]
    by_cases hbyte : byte.getD 0 = newline
    · rw [hbyte, parts_line hacc, lineWrites_line hacc, if_congr (short_cons (parts_ne_nil _)) rfl rfl]
      by_cases hline : acc.length ≤ 30
      · obtain ⟨m, hm⟩ := writeByte_newline strtol reg hs hline hbyte
        have hempty :
            Accum.Holds ⟨m, 0, s.offset + 1, s.writes ++ [(reg, value strtol (acc.takeWhile (· != 0)))]⟩ [] := rfl
        have hrest := ih List.not_mem_nil hempty (Nat.zero_le _)
        rw [hm]
        refine hrest.trans ?_
        simp only [List.nil_append, List.append_assoc, List.singleton_append, List.length_cons, hline, true_and]
        rw [Nat.add_right_comm, Nat.add_assoc]
      · -- a line of 31 bytes has no room for its newline and NUL
        rw [writeByte_outside hs (by omega), if_neg fun h => hline h.1]
        rfl
    · by_cases hline : acc.length ≤ 30
      · obtain ⟨s', hs', hholds, hoffset, hwrites⟩ := writeByte_char strtol reg hs hline hbyte
        have hnew := newline_notMem_concat hacc hbyte
        have hrest := ih hnew hholds (by rw [List.length_append, List.length_singleton]; omega)
        rw [hs']
        refine hrest.trans ?_
        rw [List.append_assoc, List.singleton_append, hoffset, hwrites, List.length_cons]
        rw [Nat.add_right_comm, Nat.add_assoc]
      · -- the byte would be the 32nd of its line
        have hnew := newline_notMem_concat hacc hbyte
        obtain ⟨rest, more, -, hparts⟩ := parts_append hnew (imsg.map (·.getD 0))
        rw [List.append_assoc, List.singleton_append] at hparts
        rw [writeByte_outside hs (by omega), hparts, if_neg (not_short (by simp; omega))]
        rfl

/-! ## Calls -/

/-- **A call** leaves `msg_in` exactly if a line is not short. Otherwise it writes each line once, and returns 0. -/
theorem charWrite_eq (strtol : List UInt8 → ℤ) (reg : ℕ) (msgIn : ℕ → UInt8) (imsg : List (Option UInt8))
    (offset : ℕ) :
    charWrite strtol reg msgIn imsg offset =
      if Short (parts (bytesOf imsg)) then
        some ⟨lineWrites strtol reg (bytesOf imsg), offset + imsg.length, 0⟩
      else none := by
  have hempty : Accum.Holds ⟨msgIn, 0, offset, []⟩ [] := rfl
  have hrun := writeBytes_eq strtol reg imsg List.not_mem_nil hempty (Nat.zero_le _)
  simp only [List.nil_append] at hrun
  have hmap : charWrite strtol reg msgIn imsg offset =
      ((imsg.foldlM (writeByte strtol reg) ⟨msgIn, 0, offset, []⟩).map fun s => (s.writes, s.offset)).map
        fun r => ⟨r.1, r.2, 0⟩ := by
    rw [Option.map_map]
    rfl
  rw [hmap, hrun, apply_ite (Option.map _)]
  rfl

/-- **A caller that goes on** with what is left writes the lines of the whole buffer in each of its calls. -/
theorem callWrites_eq (strtol : List UInt8 → ℤ) (reg : ℕ) (msgIn : ℕ → UInt8) (imsg : List (Option UInt8))
    (offset n : ℕ) :
    callWrites (charWrite strtol reg msgIn) (n + 1) imsg offset =
      if Short (parts (bytesOf imsg)) then
        some ((List.replicate (n + 1) (lineWrites strtol reg (bytesOf imsg))).flatten, imsg)
      else none := by
  induction n generalizing offset with
  | zero =>
    rw [callWrites, charWrite_eq]
    split
    · show some (lineWrites strtol reg (bytesOf imsg) ++ [], imsg) = _
      rw [List.replicate_one, List.flatten_singleton, List.append_nil]
    · rfl
  | succ n ih =>
    rw [callWrites, charWrite_eq]
    by_cases hshort : Short (parts (bytesOf imsg))
    · rw [if_pos hshort, if_pos hshort]
      show ((callWrites (charWrite strtol reg msgIn) (n + 1) imsg (offset + imsg.length)).bind _) = _
      rw [ih, if_pos hshort]
      rfl
    · rw [if_neg hshort, if_neg hshort]
      rfl

/-- What returns 0 is right of no bytes only. -/
theorem charWrite_right_iff (strtol : List UInt8 → ℤ) (reg : ℕ) (msgIn : ℕ → UInt8) (imsg : List (Option UInt8))
    (offset : ℕ) : WriteRight strtol reg imsg (charWrite strtol reg msgIn imsg offset) ↔ imsg = [] := by
  constructor
  · -- 0 is no error, and as a number of bytes it says that none has been consumed
    rintro ⟨r, hr, hret⟩
    have hzero : r.ret = 0 := by
      rw [charWrite_eq] at hr
      split at hr
      · cases hr
        rfl
      · cases hr
    rw [hzero] at hret
    obtain hneg | ⟨n, bytes, hn, -, hprogress, -⟩ := hret
    · exact absurd hneg (Int.lt_irrefl 0)
    · by_contra hne
      have hpos := hprogress hne
      have hnat : n = 0 := (Int.ofNat.inj hn).symm
      omega
  · rintro rfl
    exact ⟨⟨[], offset, 0⟩, rfl, Or.inr ⟨0, [], rfl, Nat.le_refl _, fun h => absurd rfl h, rfl, rfl⟩⟩

/-- **The writes of both devices** are right of no bytes only. They stay in `msg_in` exactly if the lines are short;
then one call writes each line once, and a caller that goes on with what is left writes each of them in every call. -/
theorem device_writes_iff (strtol : List UInt8 → ℤ) (base basePtr : ℕ) (msgIn : ℕ → UInt8)
    (imsg : List (Option UInt8)) (offset : ℕ) :
    (WriteRight strtol (base + 4) imsg (apb3Write strtol base msgIn imsg offset) ↔ imsg = []) ∧
      (WriteRight strtol (basePtr + 4) imsg (evsocWrite strtol basePtr msgIn imsg offset) ↔ imsg = []) ∧
      (∀ reg, charWrite strtol reg msgIn imsg offset =
        if Short (parts (bytesOf imsg)) then
          some ⟨lineWrites strtol reg (bytesOf imsg), offset + imsg.length, 0⟩
        else none) ∧
      ∀ reg n, callWrites (charWrite strtol reg msgIn) (n + 1) imsg offset =
        if Short (parts (bytesOf imsg)) then
          some ((List.replicate (n + 1) (lineWrites strtol reg (bytesOf imsg))).flatten, imsg)
        else none :=
  ⟨charWrite_right_iff strtol _ msgIn imsg offset, charWrite_right_iff strtol _ msgIn imsg offset,
    fun reg => charWrite_eq strtol reg msgIn imsg offset, fun reg n => callWrites_eq strtol reg msgIn imsg offset n⟩

/-- Decimal digits. -/
def decimal (line : List UInt8) : ℤ := line.foldl (fun n ch => 10 * n + (Int.ofNat ch.toNat - 48)) 0

/-- "12" and a newline. -/
def line12 : List (Option UInt8) := [some 49, some 50, some 10]

/-- **The line "12"** is written, 0 is returned, and the next call writes it again; a line of 32 bytes leaves
`msg_in`. -/
theorem line_written_again :
    apb3Write decimal 0x1000 (fun _ => 0) line12 0 = some ⟨[(0x1004, 12#32)], 3, 0⟩ ∧
      ¬ WriteRight decimal (0x1000 + 4) line12 (apb3Write decimal 0x1000 (fun _ => 0) line12 0) ∧
      callWrites (apb3Write decimal 0x1000 fun _ => 0) 2 line12 0 =
        some ([(0x1004, 12#32), (0x1004, 12#32)], line12) ∧
      evsocWrite decimal 0x1000 (fun _ => 0) (List.replicate 32 (some 49)) 0 = none := by
  refine ⟨by decide, ?_, by decide, by decide⟩
  intro h
  exact absurd ((charWrite_right_iff decimal 0x1004 (fun _ => 0) line12 0).1 h) (by decide)

end Br2Efinix.CharDev
