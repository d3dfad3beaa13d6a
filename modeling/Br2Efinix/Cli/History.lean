import Mathlib.Data.List.GetD
import Br2Efinix.Cli.Editor

/-!
# The history of the line editor

The history is one array of 512 bytes: the lines, the newest first, each with its NUL, as far as they fit.

* `str_memory`: the entry at a place in the array, whole or cut off by the array's end.
* `getHistory_eq`: `embedded_cli_get_history` finds the entry, as long as all before it are whole.
* `historySearch_eq`: the search ends.
* `extendHistory_eq`: a new line is put in front, unless it is the last one again.
-/

namespace Br2Efinix.Cli

open CString

/-! ## The array -/

/-- The lines, each with its NUL. -/
def joined (lines : List (List UInt8)) : List UInt8 := lines.flatMap (· ++ [0])

/-- What is kept of the lines: 511 bytes, and a NUL. -/
def memoryOf (lines : List (List UInt8)) : List UInt8 :=
  (joined lines ++ List.replicate HISTORY_LEN 0).take (HISTORY_LEN - 1) ++ [0]

/-- Where line `k` begins. -/
def place (lines : List (List UInt8)) (k : ℕ) : ℕ := (joined (lines.take k)).length

/-- Line `k`, up to the last byte; behind the last line there is an empty one. -/
def entry (lines : List (List UInt8)) (k : ℕ) : List UInt8 :=
  (lines.getD k []).take (HISTORY_LEN - 1 - place lines k)

/-- The entry that can be found. -/
def recalled (lines : List (List UInt8)) (k : ℕ) : Option (List UInt8) :=
  if k ≤ lines.length ∧ place lines k < HISTORY_LEN then some (entry lines k) else none

/-- Lines that have been entered. -/
def Entered (lines : List (List UInt8)) : Prop := ∀ line ∈ lines, line ≠ [] ∧ 0 ∉ line ∧ line.length < MAX_LINE

/-- A line is remembered, if there is one and it is not the last one again. -/
def remember (lines : List (List UInt8)) (line : List UInt8) : List (List UInt8) :=
  if line = [] ∨ lines.head? = some line then lines else line :: lines

variable {lines : List (List UInt8)} {line rest : List UInt8} {k i n : ℕ}

theorem joined_cons (line : List UInt8) (lines : List (List UInt8)) :
    joined (line :: lines) = line ++ 0 :: joined lines := by
  unfold joined
  rw [List.flatMap_cons, List.append_assoc, List.singleton_append]

theorem joined_append (a b : List (List UInt8)) : joined (a ++ b) = joined a ++ joined b := List.flatMap_append

theorem length_memoryOf (lines : List (List UInt8)) : (memoryOf lines).length = HISTORY_LEN := by
  unfold memoryOf
  rw [List.length_append, List.length_take, List.length_append, List.length_replicate, List.length_singleton,
    Nat.min_eq_left (by omega)]
  rfl

theorem place_zero (lines : List (List UInt8)) : place lines 0 = 0 := rfl

/-- A line takes its bytes and one more. -/
theorem place_succ (hk : k < lines.length) : place lines (k + 1) = place lines k + (lines[k].length + 1) := by
  unfold place
  rw [List.take_succ_eq_append_getElem hk, joined_append, List.length_append]
  congr 1
  rw [joined_cons, List.length_append, List.length_cons]
  rfl

theorem place_mono (lines : List (List UInt8)) (k i : ℕ) : place lines k ≤ place lines (k + i) := by
  induction i with
  | zero => exact Nat.le_refl _
  | succ i ih =>
    rcases Nat.lt_or_ge (k + i) lines.length with hlt | hge
    · rw [← Nat.add_assoc, place_succ hlt]
      omega
    · have hsame : place lines (k + (i + 1)) = place lines (k + i) := by
        unfold place
        rw [List.take_of_length_le (by omega), List.take_of_length_le hge]
      omega

/-- No line is empty. -/
theorem place_ge (hlines : Entered lines) (hk : k ≤ lines.length) : 2 * k ≤ place lines k := by
  induction k with
  | zero => exact Nat.zero_le _
  | succ k ih =>
    have hne := (hlines lines[k] (List.getElem_mem hk)).1
    have hpos := List.length_pos_iff.2 hne
    have hbefore := ih (by omega)
    rw [place_succ hk]
    omega

/-! ## Entries -/

/-- A line cut off is followed by a NUL all the same. -/
theorem take_line (line rest : List UInt8) (n : ℕ) :
    ∃ rest', (line ++ 0 :: rest).take n ++ [0] = line.take n ++ 0 :: rest' := by
  rcases Nat.lt_or_ge line.length n with hlt | hge
  · obtain ⟨m, hm⟩ : ∃ m, n - line.length = m + 1 := ⟨n - line.length - 1, by omega⟩
    refine ⟨rest.take m ++ [0], ?_⟩
    rw [List.take_append, hm, List.take_succ_cons, List.append_assoc, List.cons_append]
  · refine ⟨[], ?_⟩
    rw [List.take_append_of_le_length hge]

/-- From line `k` on. -/
theorem joined_drop (lines : List (List UInt8)) (k : ℕ) :
    ∃ rest, joined (lines.drop k) ++ List.replicate HISTORY_LEN 0 = lines.getD k [] ++ 0 :: rest := by
  rcases Nat.lt_or_ge k lines.length with hlt | hge
  · rw [List.drop_eq_getElem_cons hlt, joined_cons, List.getD_eq_getElem _ _ hlt, List.append_assoc]
    exact ⟨_, rfl⟩
  · rw [List.drop_eq_nil_of_le hge, List.getD_eq_default _ _ hge]
    exact ⟨List.replicate (HISTORY_LEN - 1) 0, rfl⟩

theorem zero_notMem_entry (hlines : Entered lines) (k : ℕ) : 0 ∉ entry lines k := by
  intro hmem
  have hmem := List.mem_of_mem_take hmem
  rcases Nat.lt_or_ge k lines.length with hlt | hge
  · rw [List.getD_eq_getElem _ _ hlt] at hmem
    exact (hlines _ (List.getElem_mem hlt)).2.1 hmem
  · rw [List.getD_eq_default _ _ hge] at hmem
    exact List.not_mem_nil hmem

theorem length_entry (hlines : Entered lines) (k : ℕ) : (entry lines k).length < MAX_LINE := by
  have htake : (entry lines k).length ≤ (lines.getD k []).length := by
    unfold entry
    rw [List.length_take]
    exact Nat.min_le_right _ _
  rcases Nat.lt_or_ge k lines.length with hlt | hge
  · rw [List.getD_eq_getElem _ _ hlt] at htake
    exact Nat.lt_of_le_of_lt htake (hlines _ (List.getElem_mem hlt)).2.2
  · rw [List.getD_eq_default _ _ hge] at htake
    exact Nat.lt_of_le_of_lt htake (by decide)

/-- **The entry at its place.** -/
theorem str_memory (hlines : Entered lines) (hplace : place lines k < HISTORY_LEN) :
    str (memoryOf lines) (place lines k) = some (entry lines k) := by
  obtain ⟨rest, hrest⟩ := joined_drop lines k
  obtain ⟨rest', hrest'⟩ := take_line (lines.getD k []) rest (HISTORY_LEN - 1 - place lines k)
  have hsplit : memoryOf lines = joined (lines.take k) ++ (entry lines k ++ 0 :: rest') := by
    have hjoined : joined lines = joined (lines.take k) ++ joined (lines.drop k) := by
      rw [← joined_append, List.take_append_drop]
    have hle : (joined (lines.take k)).length ≤ HISTORY_LEN - 1 := by
      show place lines k ≤ HISTORY_LEN - 1
      omega
    unfold memoryOf
    rw [hjoined, List.append_assoc, hrest, List.take_append, List.take_of_length_le hle, List.append_assoc]
    show _ ++ (((lines.getD k []) ++ 0 :: rest).take (HISTORY_LEN - 1 - place lines k) ++ [0]) = _
    rw [hrest']
    rfl
  rw [hsplit]
  exact str_append (zero_notMem_entry hlines k)

/-- The walk over the entries. -/
theorem historyAt_eq (hlines : Entered lines) (hk : k ≤ lines.length) (hplace : place lines k < HISTORY_LEN) :
    historyAt (memoryOf lines) i (place lines k) =
      some (if k + i ≤ lines.length ∧ place lines (k + i) < HISTORY_LEN then some (place lines (k + i)) else none) := by
  induction i generalizing k with
  | zero => exact (congrArg some (if_pos ⟨hk, hplace⟩)).symm
  | succ i ih =>
    have hend : (k = lines.length ∨ HISTORY_LEN ≤ place lines (k + 1)) →
        ¬ (k + (i + 1) ≤ lines.length ∧ place lines (k + (i + 1)) < HISTORY_LEN) := by
      rintro hor ⟨hle, hlt⟩
      have hmono := place_mono lines (k + 1) i
      rw [Nat.add_assoc, Nat.add_comm 1 i] at hmono
      omega
    unfold historyAt
    rw [str_memory hlines hplace]
    show (if (entry lines k).length = 0 then _ else _) = _
    rcases Nat.lt_or_ge k lines.length with hlt | hge
    · obtain ⟨hne, -, -⟩ := hlines _ (List.getElem_mem hlt)
      have hpos := List.length_pos_iff.2 hne
      have hsucc := place_succ hlt
      have hlength : (entry lines k).length = min (HISTORY_LEN - 1 - place lines k) lines[k].length := by
        unfold entry
        rw [List.length_take, List.getD_eq_getElem _ _ hlt]
      rcases Nat.lt_or_ge (place lines (k + 1)) HISTORY_LEN with hnext | hnext
      · -- the whole line is there, and the next place is one
        have hwhole : (entry lines k).length = lines[k].length := by omega
        have hsum : k + 1 + i = k + (i + 1) := by omega
        rw [if_neg (by omega), hwhole, ← hsucc, if_neg (by omega), ih (k := k + 1) hlt hnext, hsum]
      · rw [if_neg (hend (Or.inr hnext))]
        split
        · rfl
        · rw [if_pos (by omega)]
    · have hnil : (entry lines k).length = 0 := by
        unfold entry
        rw [List.getD_eq_default _ _ hge, List.take_nil, List.length_nil]
      rw [if_pos hnil, if_neg (hend (Or.inl (by omega)))]

namespace EmbeddedCli

variable {c : EmbeddedCli} {l r : List UInt8}

/-- **What `embedded_cli_get_history` finds.** -/
theorem getHistory_eq (hlines : Entered lines) (hhistory : c.history = memoryOf lines) (k : ℕ) :
    c.getHistory (Int.ofNat k) = some (recalled lines k) := by
  have hwalk := historyAt_eq (k := 0) (i := k) hlines (Nat.zero_le _) (by rw [place_zero]; decide)
  rw [place_zero, Nat.zero_add] at hwalk
  have hnonneg : ¬ Int.ofNat k < 0 := by
    rw [Int.ofNat_eq_natCast]
    omega
  unfold getHistory recalled
  rw [if_neg hnonneg, hhistory]
  show (historyAt (memoryOf lines) k 0).bind _ = _
  rw [hwalk]
  split
  · rename_i hfound
    show (str (memoryOf lines) (place lines k)).map some = _
    rw [str_memory hlines hfound.2]
    rfl
  · rfl

/-- Before the first one there is none. -/
theorem getHistory_neg {p : ℤ} (hp : p < 0) : c.getHistory p = some none := if_pos hp

/-- A found entry is a line that fits in the buffer. -/
theorem recalled_spec (hlines : Entered lines) (h : recalled lines k = some line) :
    0 ∉ line ∧ line.length < MAX_LINE ∧ k < HISTORY_LEN / 2 := by
  unfold recalled at h
  split at h
  · rename_i hfound
    obtain rfl := Option.some.inj h
    refine ⟨zero_notMem_entry hlines k, length_entry hlines k, ?_⟩
    have hge := place_ge hlines hfound.1
    have hlt : place lines k < 512 := hfound.2
    show k < 256
    omega
  · exact absurd h.symm (Option.some_ne_none line)

/-- **The search ends**, with an entry or with none. -/
theorem historySearch_eq (hlines : Entered lines) (hhistory : c.history = memoryOf lines) (hline : Holds c l r) :
    ∃ h, c.historySearch = some h ∧ ∀ line, h = some line → 0 ∉ line ∧ line.length < MAX_LINE := by
  have hsearch : ∀ fuel i, HISTORY_LEN / 2 < fuel + i →
      ∃ h, c.searchFrom (fuel + 1) i = some h ∧ ∀ line, h = some line → 0 ∉ line ∧ line.length < MAX_LINE := by
    intro fuel
    induction fuel with
    | zero =>
      intro i hi
      have hnone : recalled lines i = none := by
        rw [Option.eq_none_iff_forall_ne_some]
        intro line hline
        have hlt := (recalled_spec hlines hline).2.2
        omega
      refine ⟨none, ?_, nofun⟩
      unfold searchFrom
      rw [getHistory_eq hlines hhistory, hnone]
      rfl
    | succ fuel ih =>
      intro i hi
      unfold searchFrom
      rw [getHistory_eq hlines hhistory]
      cases hfound : recalled lines i with
      | none => exact ⟨none, rfl, nofun⟩
      | some h =>
        obtain ⟨hzero, hlen, -⟩ := recalled_spec hlines hfound
        show ∃ h', (str c.buffer 0).bind _ = some h' ∧ _
        rw [hline.line, Option.bind_some]
        split
        · refine ⟨some h, rfl, ?_⟩
          rintro line ⟨⟩
          exact ⟨hzero, hlen⟩
        · exact ih (i + 1) (by omega)
  exact hsearch (HISTORY_LEN - 1) 0 (by decide)

/-- The array with a line in front. -/
theorem memoryOf_cons (line : List UInt8) (lines : List (List UInt8)) (hlen : line.length < MAX_LINE) :
    memoryOf (line :: lines) =
      line ++ 0 :: (memoryOf lines).take (HISTORY_LEN - 2 - line.length) ++ [0] := by
  have hshort : line.length < 120 := hlen
  have hrest : HISTORY_LEN - 1 - line.length = (HISTORY_LEN - 2 - line.length) + 1 := by
    unfold HISTORY_LEN
    omega
  have htake : (memoryOf lines).take (HISTORY_LEN - 2 - line.length) =
      (joined lines ++ List.replicate HISTORY_LEN 0).take (HISTORY_LEN - 2 - line.length) := by
    unfold memoryOf
    rw [List.take_append_of_le_length, List.take_take, Nat.min_eq_left (by omega)]
    rw [List.length_take, List.length_append, List.length_replicate]
    omega
  rw [htake]
  unfold memoryOf
  rw [joined_cons, List.append_assoc, List.take_append, List.take_of_length_le (by unfold HISTORY_LEN; omega),
    hrest]
  rfl

/-- **What `embedded_cli_extend_history` leaves.** The two bytes behind the array change with it. -/
theorem extendHistory_eq (hlines : Entered lines) (hhistory : c.history = memoryOf lines)
    (hstr : str c.buffer 0 = some line) (hlen : line.length < MAX_LINE) :
    ∃ searching padding, c.extendHistory =
      some { c with history := memoryOf (remember lines line), searching := searching, padding := padding } := by
  have hfirst : str c.history 0 = some (entry lines 0) := by
    have hentry := str_memory (k := 0) hlines (by rw [place_zero]; decide)
    rwa [place_zero, ← hhistory] at hentry
  have hshort : line.length < 120 := hlen
  unfold extendHistory
  rw [hstr]
  show ∃ searching padding, (if line.length > 0 then (str c.history 0).bind _ else some c) = _
  rw [hfirst, Option.bind_some]
  cases hline : line with
  | nil =>
    refine ⟨c.searching, c.padding, ?_⟩
    rw [if_neg (by simp)]
    unfold remember
    rw [if_pos (Or.inl rfl), ← hhistory]
  | cons b rest =>
    rw [← hline, if_pos (by rw [hline]; exact Nat.succ_pos _)]
    have hhead : line = entry lines 0 ↔ lines.head? = some line := by
      cases lines with
      | nil =>
        rw [hline]
        exact ⟨fun heq => absurd heq (List.cons_ne_nil b rest), fun heq => absurd heq.symm (Option.some_ne_none _)⟩
      | cons first lines =>
        have hwhole : entry (first :: lines) 0 = first := by
          have hle : first.length < 120 := (hlines first (List.mem_cons_self ..)).2.2
          exact List.take_of_length_le (show first.length ≤ 511 by omega)
        rw [hwhole, List.head?_cons, Option.some_inj]
        exact eq_comm
    by_cases hsame : line = entry lines 0
    · refine ⟨c.searching, c.padding, ?_⟩
      unfold remember
      rw [if_pos hsame, if_pos (Or.inr (hhead.1 hsame)), ← hhistory]
    · have hnew : remember lines line = line :: lines := by
        unfold remember
        rw [if_neg]
        rintro (hnil | heq)
        · rw [hline] at hnil
          exact List.cons_ne_nil b rest hnil
        · exact hsame (hhead.2 heq)
      rw [if_neg hsame, hnew, memoryOf_cons line lines hlen]
      have hlength := length_memoryOf lines
      generalize (if c.searching = true then (1 : UInt8) else 0) = flag
      -- the move fills the array from behind the new line on, and the two bytes
      have hmove : memmove (c.history ++ [flag, c.padding]) (line.length + 1) 0 (HISTORY_LEN - line.length + 1) =
          some ((c.history ++ [flag, c.padding]).take (line.length + 1) ++
            (c.history ++ [flag, c.padding]).take (HISTORY_LEN - line.length + 1)) := by
        have htotal : (c.history ++ [flag, c.padding]).length = 514 := by
          rw [hhistory, List.length_append, hlength]
          rfl
        have hdst : line.length + 1 + (HISTORY_LEN - line.length + 1) = 514 := by
          unfold HISTORY_LEN
          omega
        unfold memmove
        rw [hdst, htotal, if_pos ⟨Nat.le_refl _, by unfold HISTORY_LEN; omega⟩, List.drop_zero,
          List.drop_eq_nil_of_le (Nat.le_of_eq htotal), List.append_nil]
      have hbehind : ((c.history ++ [flag, c.padding]).take (line.length + 1) ++
          (c.history ++ [flag, c.padding]).take (HISTORY_LEN - line.length + 1)).drop (line.length + 1) =
            (c.history ++ [flag, c.padding]).take (HISTORY_LEN - line.length + 1) := by
        apply List.drop_left'
        rw [List.length_take, List.length_append, hhistory, hlength]
        unfold HISTORY_LEN
        omega
      obtain ⟨x, hx⟩ : ∃ x, (line ++ 0 :: (c.history ++ [flag, c.padding]).take (HISTORY_LEN - line.length + 1)).take
          HISTORY_LEN = (line ++ 0 :: (memoryOf lines).take (HISTORY_LEN - 2 - line.length)) ++ [x] := by
        have hrest : HISTORY_LEN - line.length = (HISTORY_LEN - 2 - line.length) + 1 + 1 := by
          unfold HISTORY_LEN
          omega
        have hlt : HISTORY_LEN - 2 - line.length < (memoryOf lines).length := by
          rw [hlength]
          unfold HISTORY_LEN
          omega
        refine ⟨(memoryOf lines)[HISTORY_LEN - 2 - line.length], ?_⟩
        rw [List.take_append, List.take_of_length_le (by unfold HISTORY_LEN; omega), hrest, List.take_succ_cons,
          List.take_take, Nat.min_eq_left (by omega), hhistory, List.take_append_of_le_length hlt,
          List.take_succ_eq_append_getElem hlt, List.append_assoc, List.cons_append]
      have hplace : HISTORY_LEN - 1 = (line ++ 0 :: (memoryOf lines).take (HISTORY_LEN - 2 - line.length)).length := by
        rw [List.length_append, List.length_cons, List.length_take, hlength]
        unfold HISTORY_LEN
        omega
      have hstore : store ((line ++ 0 :: (c.history ++ [flag, c.padding]).take (HISTORY_LEN - line.length + 1)).take
          HISTORY_LEN) (HISTORY_LEN - 1) 0 =
            some (line ++ 0 :: (memoryOf lines).take (HISTORY_LEN - 2 - line.length) ++ [0]) := by
        rw [hx, hplace]
        exact store_append
      simp only [hmove, hbehind, hstore, Option.bind_eq_bind, Option.bind_some]
      exact ⟨_, _, rfl⟩

end EmbeddedCli

end Br2Efinix.Cli
