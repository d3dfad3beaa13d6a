import Br2Efinix.Cli.History

/-!
# What a key does

* `Edits`: the ways in which a key changes the line, with what is put out.
* `stopSearch_live`, `plainChar_live`, `csiChar_live`: no key leaves an array, and without a search each is such a change.
* `insertChar_live`, `insertChar_finishes`: so is a call of `embedded_cli_insert_char`, or it finishes the line.
-/

namespace Br2Efinix.Cli

open CString

/-- The bytes that are no characters of a line. -/
def isControl (ch : UInt8) : Bool :=
  ch == 0 || ch == 1 || ch == 3 || ch == 5 || ch == 8 || ch == 10 || ch == 11 || ch == 12 || ch == 13 || ch == 18 ||
    ch == 27 || ch == 127

/-- A key turns the line `l` before the cursor and `r` from it on into another one, and puts bytes out. -/
inductive Edits (lines : List (List UInt8)) (prompt : List UInt8) (ch : UInt8) :
    List UInt8 → List UInt8 → List UInt8 → List UInt8 → List UInt8 → Prop
  | keep (l r : List UInt8) : Edits lines prompt ch l r [] l r
  | insert (l r : List UInt8) : isControl ch = false →
      Edits lines prompt ch l r (puts (ch :: r) ++ termCursorBack r.length) (l ++ [ch]) r
  | left (l s r : List UInt8) : Edits lines prompt ch (l ++ s) r (termCursorBack s.length) l (s ++ r)
  | right (l s r : List UInt8) : Edits lines prompt ch l (s ++ r) (termCursorFwd s.length) (l ++ s) r
  | delete (l : List UInt8) (b : UInt8) (r : List UInt8) :
      Edits lines prompt ch l (b :: r) (puts r ++ puts [32] ++ termCursorBack (r.length + 1)) l r
  | backspace (l : List UInt8) (b : UInt8) (r : List UInt8) :
      Edits lines prompt ch (l ++ [b]) r (termCursorBack 1 ++ puts r ++ puts [32] ++ termCursorBack (r.length + 1)) l r
  | cut (l r : List UInt8) : Edits lines prompt ch l r (puts CLEAR_EOL) l []
  | redraw (l r : List UInt8) :
      Edits lines prompt ch l r
        (puts (MOVE_BOL ++ CLEAR_EOL) ++ puts prompt ++ puts (l ++ r) ++ termCursorBack r.length) l r
  | cancel (l r : List UInt8) : Edits lines prompt ch l r (puts [94, 67, 10] ++ puts prompt) [] []
  | recallLine (l r line : List UInt8) : line = [] ∨ (∃ k, recalled lines k = some line) →
      Edits lines prompt ch l r (termBackspace l.length ++ (puts line ++ puts CLEAR_EOL)) line []

/-- The editor is in a line, over the lines entered before. -/
structure Live (lines : List (List UInt8)) (c : EmbeddedCli) (l r : List UInt8) : Prop extends c.Holds l r where
  history : c.history = memoryOf lines
  pos : -1 ≤ c.historyPos
  done : c.done = false

/-- The function stays in its arrays and leaves a line; without a search, `P` holds of what is put out and of that
line. -/
def Leaves (lines : List (List UInt8)) (c : EmbeddedCli) (result : Option (EmbeddedCli × List UInt8))
    (P : List UInt8 → List UInt8 → List UInt8 → Prop) : Prop :=
  ∃ c' out l r, result = some (c', out) ∧ Live lines c' l r ∧ c'.prompt = c.prompt ∧
    (c.searching = false → c'.searching = false ∧ P out l r)

variable {lines : List (List UInt8)} {c : EmbeddedCli} {l r line : List UInt8} {ch : UInt8}

theorem Live.edit {buffer l' r' : List UInt8} {len cursor : ℕ} (h : Live lines c l r)
    (hholds : (c.edit buffer len cursor).Holds l' r') : Live lines (c.edit buffer len cursor) l' r' :=
  ⟨hholds, h.history, h.pos, h.done⟩

/-! ## Characters -/

/-- **A character is put in**, unless the line is full. -/
theorem insertDefaultChar_live (hlines : Entered lines) (h : Live lines c l r) (hch : ch ≠ 0)
    (hplain : isControl ch = false) :
    Leaves lines c (c.insertDefaultChar ch) (Edits lines c.prompt ch l r) := by
  unfold EmbeddedCli.insertDefaultChar
  split
  · exact ⟨c, [], l, r, rfl, h, rfl, fun hsearch => ⟨hsearch, .keep l r⟩⟩
  · rename_i hroom
    obtain ⟨buffer, hbuffer, hholds⟩ := h.toHolds.insert hch (by omega)
    obtain ⟨first, hfirst, hrest⟩ := Option.bind_eq_some_iff.1 hbuffer
    obtain ⟨second, hsecond, hfirst⟩ := Option.bind_eq_some_iff.1 hfirst
    have hlive := h.edit hholds
    simp only [hsecond, hfirst, hrest, Option.bind_eq_bind, Option.bind_some]
    split
    · -- the search goes on with the longer text
      rename_i hsearch
      obtain ⟨found, hfound, -⟩ := EmbeddedCli.historySearch_eq hlines hlive.history hholds
      have hfound' : EmbeddedCli.historySearch
          { c with buffer := buffer, len := c.len + 1, cursor := c.cursor + 1 } = some found := hfound
      simp only [hfound', Option.bind_some]
      exact ⟨_, _, l ++ [ch], r, rfl, hlive, rfl, fun hno => absurd (hno.symm.trans hsearch) Bool.false_ne_true⟩
    · have hstr : str buffer c.cursor = some (ch :: r) := by
        obtain ⟨rest, hsplit⟩ := hholds.buffer
        have hright : 0 ∉ ch :: r := by
          rw [List.mem_cons]
          rintro (heq | hmem)
          · exact hch heq.symm
          · exact h.right hmem
        have hbytes : buffer = l ++ ((ch :: r) ++ 0 :: rest) := by
          rw [List.cons_append, ← List.singleton_append, ← List.append_assoc]
          exact hsplit
        rw [hbytes, h.cursor]
        exact str_append hright
      have hback : c.len + 1 - (c.cursor + 1) = r.length := by
        rw [h.len, h.cursor]
        omega
      have hcursor : c.cursor + 1 - 1 = c.cursor := rfl
      simp only [hcursor, hstr, hback, Option.bind_some]
      exact ⟨_, _, l ++ [ch], r, rfl, hlive, rfl, fun hsearch => ⟨hsearch, .insert l r hplain⟩⟩

/-! ## The search -/

/-- **The end of a search** leaves the line that was found. -/
theorem stopSearch_live (hlines : Entered lines) (h : Live lines c l r) (print : Bool) :
    ∃ c' out line, c.stopSearch print = some (c', out) ∧ Live lines c' line [] ∧ c'.prompt = c.prompt ∧
      c'.searching = false := by
  obtain ⟨found, hfound, hspec⟩ := EmbeddedCli.historySearch_eq hlines h.history h.toHolds
  unfold EmbeddedCli.stopSearch
  simp only [hfound, Option.bind_eq_bind, Option.bind_some]
  cases found with
  | none =>
    obtain ⟨buffer, hbuffer, hholds⟩ := EmbeddedCli.holds_clear h.size
    have hstr := hholds.line
    rw [List.append_nil] at hstr
    have hstr' : str buffer 0 = some [] := hstr
    simp only [hbuffer, hstr', Option.bind_some]
    exact ⟨_, _, [], rfl, ⟨⟨hholds.buffer, hholds.size, hholds.left, hholds.right, rfl, rfl⟩, h.history, h.pos, h.done⟩,
      rfl, rfl⟩
  | some line =>
    obtain ⟨hzero, hlen⟩ := hspec line rfl
    obtain ⟨buffer, hbuffer, hholds⟩ := EmbeddedCli.holds_strncpy h.size hzero hlen
    have hstr := hholds.line
    rw [List.append_nil] at hstr
    have hstr' : str buffer 0 = some line := hstr
    simp only [hbuffer, hstr', Option.bind_some]
    exact ⟨_, _, line, rfl, ⟨⟨hholds.buffer, hholds.size, hholds.left, hholds.right, rfl, rfl⟩, h.history, h.pos,
      h.done⟩, rfl, rfl⟩

/-! ## Sequences -/

/-- An arrow key that has found a line. -/
theorem recall_live (hlines : Entered lines) (h : Live lines c l r) {k : ℕ} (hfound : recalled lines k = some line) :
    ∃ c', c.recallLine line (Int.ofNat k) = some (c', puts line ++ puts CLEAR_EOL) ∧ Live lines c' line [] ∧
      c'.prompt = c.prompt ∧ c'.searching = c.searching ∧ c'.historyPos = Int.ofNat k := by
  obtain ⟨hzero, hlen, -⟩ := EmbeddedCli.recalled_spec hlines hfound
  obtain ⟨buffer, hbuffer, hholds⟩ := EmbeddedCli.holds_strncpy h.size hzero hlen
  have hstr := hholds.line
  rw [List.append_nil] at hstr
  have hstr' : str buffer 0 = some line := hstr
  have hpos : -1 ≤ Int.ofNat k := by
    rw [Int.ofNat_eq_natCast]
    omega
  unfold EmbeddedCli.recallLine
  simp only [hbuffer, hstr', Option.bind_eq_bind, Option.bind_some]
  exact ⟨_, rfl, ⟨⟨hholds.buffer, hholds.size, hholds.left, hholds.right, rfl, rfl⟩, h.history, hpos, h.done⟩, rfl, rfl,
    rfl⟩

/-- The next older line. -/
theorem upArrow_some (hlines : Entered lines) (h : Live lines c l r) {k : ℕ} (hpos : c.historyPos + 1 = Int.ofNat k)
    (hfound : recalled lines k = some line) :
    ∃ c', c.upArrow = some (c', termBackspace l.length ++ (puts line ++ puts CLEAR_EOL)) ∧ Live lines c' line [] ∧
      c'.prompt = c.prompt ∧ c'.searching = c.searching ∧ c'.historyPos = Int.ofNat k := by
  obtain ⟨c', hrecall, hlive, hframe⟩ := recall_live hlines h hfound
  unfold EmbeddedCli.upArrow
  rw [hpos, EmbeddedCli.getHistory_eq hlines h.history, hfound, h.done, h.cursor]
  exact ⟨c', by rw [if_neg Bool.false_ne_true]; exact congrArg (Option.map _) hrecall, hlive, hframe⟩

/-- The older and the newer line, or none. -/
theorem arrows_live (hlines : Entered lines) (h : Live lines c l r) :
    Leaves lines c c.upArrow (Edits lines c.prompt ch l r) ∧ Leaves lines c c.downArrow (Edits lines c.prompt ch l r) := by
  obtain ⟨buffer, hbuffer, hholds⟩ := EmbeddedCli.holds_clear h.size
  have hcursor : (if c.done = true then 0 else c.cursor) = l.length := by
    rw [h.done, if_neg Bool.false_ne_true, h.cursor]
  have hpos := h.pos
  have hedit : Edits lines c.prompt ch l r (termBackspace l.length ++ puts CLEAR_EOL) [] [] :=
    .recallLine l r [] (Or.inl rfl)
  constructor
  · obtain ⟨k, hk⟩ : ∃ k, c.historyPos + 1 = Int.ofNat k := Int.eq_ofNat_of_zero_le (by omega)
    cases hfound : recalled lines k with
    | some line =>
      obtain ⟨c', hup, hlive, hprompt, hsearching, -⟩ := upArrow_some hlines h hk hfound
      exact ⟨c', _, line, [], hup, hlive, hprompt,
        fun hsearch => ⟨hsearching.trans hsearch, .recallLine l r line (Or.inr ⟨k, hfound⟩)⟩⟩
    | none =>
      unfold EmbeddedCli.upArrow
      rw [hk, EmbeddedCli.getHistory_eq hlines h.history, hfound, hcursor]
      show Leaves lines c ((store c.buffer 0 0).bind _) _
      rw [hbuffer]
      exact ⟨_, _, [], [], rfl, ⟨⟨hholds.buffer, hholds.size, hholds.left, hholds.right, rfl, rfl⟩, h.history, h.pos,
        h.done⟩, rfl, fun _ => ⟨rfl, hedit⟩⟩
  · have hreset : (c.getHistory (c.historyPos - 1) = some none) →
        Leaves lines c c.downArrow (Edits lines c.prompt ch l r) := by
      intro hnone
      unfold EmbeddedCli.downArrow
      rw [hnone, hcursor]
      show Leaves lines c ((store c.buffer 0 0).bind _) _
      rw [hbuffer]
      exact ⟨_, _, [], [], rfl, ⟨⟨hholds.buffer, hholds.size, hholds.left, hholds.right, rfl, rfl⟩, h.history,
        Int.le_refl _, h.done⟩, rfl, fun _ => ⟨rfl, hedit⟩⟩
    by_cases hneg : c.historyPos - 1 < 0
    · exact hreset (EmbeddedCli.getHistory_neg hneg)
    · obtain ⟨k, hk⟩ : ∃ k, c.historyPos - 1 = Int.ofNat k := Int.eq_ofNat_of_zero_le (by omega)
      cases hfound : recalled lines k with
      | none => exact hreset (by rw [hk, EmbeddedCli.getHistory_eq hlines h.history, hfound])
      | some line =>
        obtain ⟨c', hrecall, hlive, hprompt, hsearching, -⟩ := recall_live hlines h hfound
        refine ⟨c', termBackspace l.length ++ (puts line ++ puts CLEAR_EOL), line, [], ?_, hlive, hprompt,
          fun hsearch => ⟨hsearching.trans hsearch, .recallLine l r line (Or.inr ⟨k, hfound⟩)⟩⟩
        unfold EmbeddedCli.downArrow
        rw [hk, EmbeddedCli.getHistory_eq hlines h.history, hfound, hcursor]
        exact congrArg (Option.map _) hrecall

/-- The delete key. -/
theorem deleteKey_live (h : Live lines c l r) : Leaves lines c c.deleteKey (Edits lines c.prompt ch l r) := by
  unfold EmbeddedCli.deleteKey
  split
  · rename_i hkey
    have hlen := h.len
    have hcursor := h.cursor
    cases r with
    | nil =>
      rw [List.length_nil] at hlen
      omega
    | cons b r =>
      obtain ⟨buffer, hbuffer, hholds⟩ := h.toHolds.erase
      have hstr' : str buffer c.cursor = some r := hholds.str_cursor
      have hback : c.len - 1 - c.cursor + 1 = r.length + 1 := by
        rw [List.length_cons] at hlen
        omega
      simp only [hbuffer, hstr', hback, Option.bind_eq_bind, Option.bind_some]
      exact ⟨_, _, l, r, rfl, h.edit hholds, rfl, fun hsearch => ⟨hsearch, .delete l b r⟩⟩
  · exact ⟨c, [], l, r, rfl, h, rfl, fun hsearch => ⟨hsearch, .keep l r⟩⟩

/-- The line split at a column. -/
theorem exists_split {n : ℕ} {u : List UInt8} (hn : n ≤ u.length) : ∃ s t, u = s ++ t ∧ s.length = n :=
  ⟨u.take n, u.drop n, (List.take_append_drop n u).symm, by rw [List.length_take, Nat.min_eq_left hn]⟩

theorem moveLeft_live (ch : UInt8) (h : Live lines c l r) {n : ℕ} (hn : n ≤ c.cursor) :
    Leaves lines c (some ({ c with cursor := c.cursor - n }, termCursorBack n)) (Edits lines c.prompt ch l r) := by
  have hcursor := h.cursor
  obtain ⟨l', s, rfl, hlen⟩ := exists_split (n := l.length - n) (u := l) (by omega)
  rw [List.length_append] at hlen hcursor
  have hs : s.length = n := by omega
  have hplace : c.cursor - n = l'.length := by omega
  refine ⟨_, _, l', s ++ r, rfl, ?_, rfl, fun hsearch => ⟨hsearch, ?_⟩⟩
  · rw [hplace]
    exact h.edit h.toHolds.move
  · rw [← hs]
    exact .left l' s r

theorem moveRight_live (ch : UInt8) (h : Live lines c l r) {n : ℕ} (hn : c.cursor + n ≤ c.len) :
    Leaves lines c (some ({ c with cursor := c.cursor + n }, termCursorFwd n)) (Edits lines c.prompt ch l r) := by
  have hcursor := h.cursor
  have hlen := h.len
  obtain ⟨s, r', rfl, hs⟩ := exists_split (n := n) (u := r) (by omega)
  have hplace : c.cursor + n = (l ++ s).length := by
    rw [List.length_append]
    omega
  refine ⟨_, _, l ++ s, r', rfl, ?_, rfl, fun hsearch => ⟨hsearch, ?_⟩⟩
  · rw [hplace]
    exact h.edit h.toHolds.move_right
  · rw [← hs]
    exact .right l s r'

/-- **The last byte of a sequence.** -/
theorem csiFinal_live (ch : UInt8) (hlines : Entered lines) (h : Live lines c l r) :
    Leaves lines c (c.csiFinal ch) (Edits lines c.prompt ch l r) := by
  have hcursor := h.cursor
  have hlen := h.len
  have hkeep : Leaves lines c (some (c, [])) (Edits lines c.prompt ch l r) :=
    ⟨c, [], l, r, rfl, h, rfl, fun hsearch => ⟨hsearch, .keep l r⟩⟩
  unfold EmbeddedCli.csiFinal
  split
  · exact (arrows_live hlines h).1
  split
  · exact (arrows_live hlines h).2
  split
  · split
    · rename_i hroom
      exact moveRight_live ch h hroom
    · exact hkeep
  split
  · split
    · rename_i hroom
      exact moveLeft_live ch h hroom
    · exact hkeep
  split
  · have hend := moveRight_live ch h (n := c.len - c.cursor) (by omega)
    rwa [Nat.add_sub_cancel' (by omega)] at hend
  split
  · have hhome := moveLeft_live ch h (n := c.cursor) (Nat.le_refl _)
    rwa [Nat.sub_self] at hhome
  split
  · exact deleteKey_live h
  · exact hkeep

/-- A change of the flags of the sequence. -/
theorem Leaves.flags {result : Option (EmbeddedCli × List UInt8)} {P : List UInt8 → List UInt8 → List UInt8 → Prop}
    (h : Leaves lines c result P) (f : EmbeddedCli → EmbeddedCli)
    (hf : ∀ c l r, Live lines c l r → Live lines (f c) l r) (hframe : ∀ c, (f c).prompt = c.prompt ∧
      (f c).searching = c.searching) : Leaves lines c (result.map fun p => (f p.1, p.2)) P := by
  obtain ⟨c', out, l, r, rfl, hlive, hprompt, hout⟩ := h
  refine ⟨f c', out, l, r, rfl, hf c' l r hlive, (hframe c').1.trans hprompt, ?_⟩
  intro hsearch
  rw [(hframe c').2]
  exact hout hsearch

/-- **A byte of a sequence.** -/
theorem csiChar_live (ch : UInt8) (hlines : Entered lines) (h : Live lines c l r) :
    Leaves lines c (c.csiChar ch) (Edits lines c.prompt ch l r) := by
  unfold EmbeddedCli.csiChar
  split
  · exact ⟨_, [], l, r, rfl, ⟨⟨h.buffer, h.size, h.left, h.right, h.len, h.cursor⟩, h.history, h.pos, h.done⟩, rfl,
      fun hsearch => ⟨hsearch, .keep l r⟩⟩
  · have hcounted : Live lines { c with counter := if c.counter = 0 then 1 else c.counter } l r :=
      ⟨⟨h.buffer, h.size, h.left, h.right, h.len, h.cursor⟩, h.history, h.pos, h.done⟩
    have hfinal := csiFinal_live ch hlines hcounted
    exact hfinal.flags (fun c => { c with haveCsi := false, haveEscape := false, counter := 0 })
      (fun c l r h => ⟨⟨h.buffer, h.size, h.left, h.right, h.len, h.cursor⟩, h.history, h.pos, h.done⟩)
      fun c => ⟨rfl, rfl⟩

/-! ## Other keys -/

/-- The end of a search, if one is on. -/
theorem endSearch_live (hlines : Entered lines) (h : Live lines c l r) (print : Bool) :
    ∃ c' out l' r', c.endSearch print = some (c', out) ∧ Live lines c' l' r' ∧ c'.prompt = c.prompt ∧
      c'.searching = false ∧ (c.searching = false → c' = c ∧ out = [] ∧ l' = l ∧ r' = r) := by
  unfold EmbeddedCli.endSearch
  split
  · rename_i hsearch
    obtain ⟨c', out, line, hstop, hlive, hprompt, hno⟩ := stopSearch_live hlines h print
    exact ⟨c', out, line, [], hstop, hlive, hprompt, hno, fun hoff => absurd (hoff.symm.trans hsearch) Bool.false_ne_true⟩
  · rename_i hsearch
    exact ⟨c, [], l, r, rfl, h, rfl, Bool.eq_false_iff.2 hsearch, fun _ => ⟨rfl, rfl, rfl, rfl⟩⟩

/-- The character before the cursor. -/
theorem eraseBefore_live (ch : UInt8) (h : Live lines c l r) :
    Leaves lines c c.eraseBefore (Edits lines c.prompt ch l r) := by
  have hcursor := h.cursor
  have hlen := h.len
  unfold EmbeddedCli.eraseBefore
  rcases List.eq_nil_or_concat' l with rfl | ⟨l, b, rfl⟩
  · rw [if_neg (by rw [hcursor]; exact Nat.lt_irrefl 0)]
    exact ⟨c, [], [], r, rfl, h, rfl, fun hsearch => ⟨hsearch, .keep [] r⟩⟩
  · rw [List.length_append, List.length_singleton] at hcursor hlen
    -- the move is that of the delete key, one place further left
    have hmoved := h.toHolds.move
    obtain ⟨buffer, hbuffer, hholds⟩ := hmoved.erase
    have hplace : c.cursor - 1 = l.length := by omega
    have hcount : c.len - c.cursor + 1 = c.len - l.length := by omega
    have hback : c.len - 1 - l.length + 1 = r.length + 1 := by omega
    have hmove : memmove c.buffer l.length c.cursor (c.len - l.length) = some buffer := by
      rw [hcursor]
      exact hbuffer
    have hstr : str buffer l.length = some r := hholds.str_cursor
    rw [if_pos (by omega), hplace, hcount, hback]
    simp only [hmove, hstr, Option.bind_eq_bind, Option.bind_some]
    exact ⟨_, _, l, r, rfl, h.edit hholds, rfl, fun hsearch => ⟨hsearch, .backspace l b r⟩⟩

/-- A backspace; with a search it is the line found that loses a character. -/
theorem backspace_live (hlines : Entered lines) (h : Live lines c l r) :
    Leaves lines c c.backspace (Edits lines c.prompt ch l r) := by
  obtain ⟨c₁, out₁, l₁, r₁, hend, hlive, hprompt, hno, hsame⟩ := endSearch_live hlines h true
  obtain ⟨c', out, l', r', herase, hlive', hprompt', hout⟩ := eraseBefore_live ch hlive
  unfold EmbeddedCli.backspace
  rw [hend, Option.bind_eq_bind, Option.bind_some]
  show Leaves lines c (c₁.eraseBefore.map _) _
  rw [herase]
  refine ⟨c', out₁ ++ out, l', r', rfl, hlive', hprompt'.trans hprompt, ?_⟩
  intro hsearch
  obtain ⟨rfl, rfl, rfl, rfl⟩ := hsame hsearch
  exact hout hsearch

/-- **A byte outside a sequence** that does not finish the line. -/
theorem plainChar_live (hlines : Entered lines) (h : Live lines c l r) (hfinish : ch ≠ 13 ∧ ch ≠ 10)
    (hstart : ch ≠ 18) : Leaves lines c (c.plainChar ch) (Edits lines c.prompt ch l r) := by
  have hcursor := h.cursor
  have hlen := h.len
  have hkeep : ∀ c', Live lines c' l r → c'.prompt = c.prompt → c'.searching = c.searching →
      Leaves lines c (some (c', [])) (Edits lines c.prompt ch l r) := fun c' hlive hprompt hsame =>
    ⟨c', [], l, r, rfl, hlive, hprompt, fun hsearch => ⟨hsame.trans hsearch, .keep l r⟩⟩
  unfold EmbeddedCli.plainChar
  by_cases h0 : ch = 0
  · rw [if_pos h0]
    exact hkeep c h rfl rfl
  rw [if_neg h0]
  by_cases h1 : ch = 1
  · rw [if_pos h1]
    have hhome := moveLeft_live ch h (n := c.cursor) (Nat.le_refl _)
    rwa [Nat.sub_self] at hhome
  rw [if_neg h1]
  by_cases h3 : ch = 3
  · obtain ⟨buffer, hbuffer, hholds⟩ := EmbeddedCli.holds_clear h.size
    rw [if_pos h3, hbuffer]
    exact ⟨_, _, [], [], rfl, ⟨⟨hholds.buffer, hholds.size, hholds.left, hholds.right, rfl, rfl⟩, h.history,
      Int.le_refl _, h.done⟩, rfl, fun _ => ⟨rfl, .cancel l r⟩⟩
  rw [if_neg h3]
  by_cases h5 : ch = 5
  · rw [if_pos h5]
    have hend := moveRight_live ch h (n := c.len - c.cursor) (by omega)
    rwa [Nat.add_sub_cancel' (by omega)] at hend
  rw [if_neg h5]
  by_cases h11 : ch = 11
  · obtain ⟨buffer, hbuffer, hholds⟩ := h.toHolds.cut
    rw [if_pos h11, hbuffer]
    exact ⟨_, _, l, [], rfl, h.edit hholds, rfl, fun hsearch => ⟨hsearch, .cut l r⟩⟩
  rw [if_neg h11]
  by_cases h12 : ch = 12
  · have hback : c.len - c.cursor = r.length := by omega
    rw [if_pos h12, h.toHolds.line, hback]
    exact ⟨c, _, l, r, rfl, h, rfl, fun hsearch => ⟨hsearch, .redraw l r⟩⟩
  rw [if_neg h12]
  by_cases h8 : ch = 8 ∨ ch = 127
  · rw [if_pos h8]
    exact backspace_live hlines h
  rw [if_neg h8, if_neg hstart]
  by_cases h27 : ch = 27
  · -- an escape ends a search
    obtain ⟨c', out, l', r', hend, hlive, hprompt, hno, hsame⟩ := endSearch_live hlines h true
    rw [if_pos h27, hend]
    refine ⟨_, out, l', r', rfl, ⟨⟨hlive.buffer, hlive.size, hlive.left, hlive.right, hlive.len, hlive.cursor⟩,
      hlive.history, hlive.pos, hlive.done⟩, hprompt, ?_⟩
    intro hsearch
    obtain ⟨-, rfl, rfl, rfl⟩ := hsame hsearch
    exact ⟨hno, .keep l' r'⟩
  rw [if_neg h27]
  have h8' := not_or.1 h8
  have hplain : isControl ch = false := by
    unfold isControl
    simp only [beq_false_of_ne h0, beq_false_of_ne h1, beq_false_of_ne h3, beq_false_of_ne h5, beq_false_of_ne h11,
      beq_false_of_ne h12, beq_false_of_ne h8'.1, beq_false_of_ne h8'.2, beq_false_of_ne hstart, beq_false_of_ne h27,
      beq_false_of_ne hfinish.1, beq_false_of_ne hfinish.2, Bool.or_false]
  have hinsert := insertDefaultChar_live hlines h h0 hplain
  by_cases hescape : ch = 91 ∧ c.haveEscape = true
  · rw [if_pos hescape.1, if_pos hescape.2]
    exact hkeep _ ⟨⟨h.buffer, h.size, h.left, h.right, h.len, h.cursor⟩, h.history, h.pos, h.done⟩ rfl rfl
  by_cases h91 : ch = 91
  · rwa [if_pos h91, if_neg fun h => hescape ⟨h91, h⟩]
  rwa [if_neg h91, if_neg fun hor => hor.elim hfinish.1 hfinish.2]

/-! ## Calls -/

/-- Between two lines, when the line entered last may have been taken apart in the buffer. -/
structure Between (lines : List (List UInt8)) (c : EmbeddedCli) : Prop where
  size : c.buffer.length = MAX_LINE
  history : c.history = memoryOf lines
  pos : c.historyPos = -1
  len : c.len = 0
  cursor : c.cursor = 0
  searching : c.searching = false
  haveCsi : c.haveCsi = false
  done : c.done = true

/-- A command takes the line apart in the buffer. -/
theorem Between.command {buffer : List UInt8} (h : Between lines c) (hlen : buffer.length = MAX_LINE) :
    Between lines { c with buffer := buffer } :=
  ⟨hlen, h.history, h.pos, h.len, h.cursor, h.searching, h.haveCsi, h.done⟩

/-- The line that a key finds: an empty one between two lines. -/
def Before (lines : List (List UInt8)) (c : EmbeddedCli) (l r : List UInt8) : Prop :=
  Live lines c l r ∨ (Between lines c ∧ l = [] ∧ r = [])

/-- **The first step of a call.** -/
theorem start_live (h : Before lines c l r) :
    ∃ c', c.start = some c' ∧ Live lines c' l r ∧ c'.prompt = c.prompt ∧ c'.searching = c.searching ∧
      c'.haveCsi = c.haveCsi ∧ c'.historyPos = c.historyPos := by
  unfold EmbeddedCli.start
  rcases h with hlive | ⟨hbetween, rfl, rfl⟩
  · rw [if_neg (by rw [hlive.done]; exact Bool.false_ne_true)]
    exact ⟨c, rfl, hlive, rfl, rfl, rfl, rfl⟩
  · obtain ⟨buffer, hbuffer, hholds⟩ := EmbeddedCli.holds_clear hbetween.size
    rw [if_pos hbetween.done, hbuffer]
    refine ⟨_, rfl, ⟨⟨hholds.buffer, hholds.size, hholds.left, hholds.right, hbetween.len, hbetween.cursor⟩,
      hbetween.history, Int.le_of_eq hbetween.pos.symm, rfl⟩, rfl, rfl, rfl, rfl⟩

/-- The key that begins a search. -/
theorem plainChar_search (h : Live lines c l r) :
    ∃ c' out, c.plainChar 18 = some (c', out) ∧ Live lines c' l r ∧ c'.prompt = c.prompt := by
  have hkey : c.plainChar 18 =
      if c.searching then some (c, [])
      else some ({ c with searching := true }, puts [10, 115, 101, 97, 114, 99, 104, 58]) := rfl
  rw [hkey]
  split
  · exact ⟨c, [], rfl, h, rfl⟩
  · exact ⟨_, _, rfl, ⟨⟨h.buffer, h.size, h.left, h.right, h.len, h.cursor⟩, h.history, h.pos, h.done⟩, rfl⟩

/-- The byte of a call, unless it finishes the line or begins a search. -/
theorem char_live (hlines : Entered lines) (h : Live lines c l r) (hfinish : c.finishes ch = false)
    (hsearch : c.haveCsi = false → ch ≠ 18) : Leaves lines c (c.char ch) (Edits lines c.prompt ch l r) := by
  unfold EmbeddedCli.char
  split
  · exact csiChar_live ch hlines h
  · rename_i hmode
    have hplain := Bool.eq_false_iff.2 hmode
    unfold EmbeddedCli.finishes at hfinish
    rw [hplain, Bool.not_false, Bool.and_true, Bool.or_eq_false_iff] at hfinish
    exact plainChar_live hlines h ⟨ne_of_beq_false hfinish.2, ne_of_beq_false hfinish.1⟩ (hsearch hplain)

/-- **A call that does not finish the line.** -/
theorem insertChar_live (hlines : Entered lines) (h : Before lines c l r) (hfinish : c.finishes ch = false)
    (hsearch : c.haveCsi = false → ch ≠ 18) :
    Leaves lines c (c.insertChar ch) (Edits lines c.prompt ch l r) := by
  obtain ⟨c₀, hstart, hlive, hprompt, hsearching, hcsi, -⟩ := start_live h
  have hnot : c₀.finishes ch = false := by
    rw [← hfinish]
    unfold EmbeddedCli.finishes
    rw [hcsi]
  obtain ⟨c', out, l', r', hchar, hlive', hprompt', hout⟩ := char_live hlines hlive hnot (by rwa [hcsi])
  unfold EmbeddedCli.insertChar
  rw [hstart]
  simp only [Option.bind_eq_bind, Option.bind_some, hchar, hnot, Bool.false_eq_true, if_false]
  refine ⟨_, out, l', r', rfl, ⟨⟨hlive'.buffer, hlive'.size, hlive'.left, hlive'.right, hlive'.len, hlive'.cursor⟩,
    hlive'.history, hlive'.pos, rfl⟩, hprompt'.trans hprompt, ?_⟩
  intro hno
  have hboth := hout (hsearching.trans hno)
  rwa [hprompt] at hboth

/-- **A call that finishes the line**: without a search it is the line that the editor held. -/
theorem finish_live (hlines : Entered lines) (h : Live lines c l r) :
    ∃ c' line, c.finish = some c' ∧ c'.getLine = some line ∧ line.length < MAX_LINE ∧ 0 ∉ line ∧
      Between (remember lines line) c' ∧ c'.prompt = c.prompt ∧ (c.searching = false → line = l ++ r) := by
  obtain ⟨c₁, out, l₁, r₁, hend, hlive, hprompt, -, hsame⟩ := endSearch_live hlines h false
  have hline := hlive.toHolds.line
  have hroom : (l₁ ++ r₁).length < MAX_LINE := by
    rw [List.length_append]
    exact hlive.toHolds.room
  obtain ⟨searching, padding, hextend⟩ := EmbeddedCli.extendHistory_eq hlines hlive.history hline hroom
  unfold EmbeddedCli.finish
  simp only [hend, hextend, Option.bind_eq_bind, Option.bind_some]
  refine ⟨_, l₁ ++ r₁, rfl, hline, hroom, ?_, ⟨hlive.size, rfl, rfl, rfl, rfl, rfl, rfl, rfl⟩, hprompt, ?_⟩
  · exact fun hmem => (List.mem_append.1 hmem).elim hlive.left hlive.right
  · intro hno
    obtain ⟨-, -, rfl, rfl⟩ := hsame hno
    rfl

/-- **A carriage return or a line feed** finishes the line that the editor held. -/
theorem insertChar_finishes (hlines : Entered lines) (h : Before lines c l r) (hsearch : c.searching = false)
    (hcsi : c.haveCsi = false) (hch : ch = 13 ∨ ch = 10) :
    ∃ c', c.insertChar ch = some (c', putchar 10) ∧ c'.getLine = some (l ++ r) ∧
      Between (remember lines (l ++ r)) c' ∧ c'.prompt = c.prompt := by
  obtain ⟨c₀, hstart, hlive, hprompt, hsearching, hmode, -⟩ := start_live h
  have hoff : c₀.haveCsi = false := hmode.trans hcsi
  have hchar : c₀.char ch = some (c₀, putchar 10) := by
    unfold EmbeddedCli.char
    rw [if_neg (by rw [hoff]; exact Bool.false_ne_true)]
    rcases hch with rfl | rfl
    · rfl
    · rfl
  have hends : c₀.finishes ch = true := by
    unfold EmbeddedCli.finishes
    rcases hch with rfl | rfl
    · rw [hoff]
      rfl
    · rfl
  obtain ⟨c', line, hfinish, hline, -, -, hbetween, hprompt', hsame⟩ := finish_live hlines hlive
  obtain rfl := hsame (hsearching.trans hsearch)
  unfold EmbeddedCli.insertChar
  rw [hstart]
  simp only [Option.bind_eq_bind, Option.bind_some, hchar, hends, if_true, hfinish, Option.map_some]
  exact ⟨c', rfl, hline, hbetween, hprompt'.trans hprompt⟩

end Br2Efinix.Cli
