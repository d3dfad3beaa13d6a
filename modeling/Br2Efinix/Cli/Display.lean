import Br2Efinix.Cli.Session

/-!
# What the prompt shows

* `shows_cursorBack`, `shows_cursorFwd`: the editor's sequences move the cursor.
* `edits_shown`: what a key puts out turns the row for the old line into that for the new one.
* `line_shown`: **the row is always the prompt and the line**, with the cursor in its place, and the line that is run is the
  one that was shown.
-/

namespace Br2Efinix.Cli

open CString Terminal

variable {t : Terminal} {s u v prompt l r l' r' out : List UInt8} {lines : List (List UInt8)} {ch : UInt8} {k n : ℕ}

/-! ## What is put out -/

theorem puts_eq (hu : 10 ∉ u) : puts u = u := by
  induction u with
  | nil => rfl
  | cons b u ih =>
    have hb : b ≠ 10 := fun heq => hu (by rw [heq]; exact List.mem_cons_self ..)
    unfold puts at ih ⊢
    rw [List.flatMap_cons, ih fun hmem => hu (List.mem_cons_of_mem _ hmem)]
    unfold putchar
    rw [if_neg hb, List.singleton_append]

theorem puts_printable (hu : Printable u) : puts u = u :=
  puts_eq fun hmem => absurd (hu 10 hmem).1 (by decide)

theorem printable_append (hu : Printable u) (hv : Printable v) : Printable (u ++ v) := fun b hb =>
  (List.mem_append.1 hb).elim (hu b) (hv b)

/-- A sequence of the editor, with at most nine columns. -/
theorem ansi_eq (hn : n < 10) (code : UInt8) (hcode : code ≠ 10) :
    ansi n code = [27, 91, UInt8.ofNat (48 + n), code] := by
  have hdigit : (10 : UInt8) ≠ UInt8.ofNat (48 + n) := by
    intro heq
    have hnat := congrArg UInt8.toNat heq
    rw [UInt8.toNat_ofNat', Nat.mod_eq_of_lt (by omega)] at hnat
    have hten : (10 : UInt8).toNat = 10 := rfl
    omega
  unfold ansi
  rw [Nat.mod_eq_of_lt hn]
  apply puts_eq
  simp only [List.mem_cons, List.not_mem_nil, or_false]
  rintro (heq | heq | heq | heq)
  · exact absurd heq (by decide)
  · exact absurd heq (by decide)
  · exact hdigit heq
  · exact hcode heq.symm

/-- The loop of the two functions, for a sequence that moves the cursor by its number. -/
theorem shows_cursor {code : UInt8} (hcode : code ≠ 10) (move : ℕ → ℕ → ℕ) (hzero : ∀ k, move k 0 = k)
    (hadd : ∀ k m n, move (move k m) n = move k (m + n))
    (hstep : ∀ (t : Terminal) k n, 0 < n → n < 10 → Shows t s k →
      Shows (t.puts [27, 91, UInt8.ofNat (48 + n), code]) s (move k n)) :
    ∀ fuel n (t : Terminal) k, n ≤ fuel → Shows t s k → Shows (t.puts (termCursor code fuel n)) s (move k n) := by
  intro fuel
  induction fuel with
  | zero =>
    intro n t k hn h
    rw [Nat.le_zero.1 hn, hzero]
    exact h
  | succ fuel ih =>
    intro n t k hn h
    unfold termCursor
    split
    · rename_i hpos
      show Shows (t.puts (ansi (if n > 9 then 9 else n) code ++
        termCursor code fuel (n - if n > 9 then 9 else n))) s (move k n)
      generalize hcount : (if n > 9 then 9 else n) = count
      have hbounds : 0 < count ∧ count < 10 ∧ count ≤ n := by
        rw [← hcount]
        split
        · omega
        · omega
      have hrest := ih (n - count) _ _ (by omega) (hstep t k count hbounds.1 hbounds.2.1 h)
      rw [ansi_eq hbounds.2.1 code hcode, puts_append]
      rwa [hadd, Nat.add_sub_cancel' hbounds.2.2] at hrest
    · rename_i hnone
      have hn0 : n = 0 := by omega
      rw [hn0, hzero]
      exact h

/-- **The cursor goes back** by any number of columns, -/
theorem shows_cursorBack (h : Shows t s k) (n : ℕ) : Shows (t.puts (termCursorBack n)) s (k - n) :=
  shows_cursor (by decide) (fun k n => k - n) (fun _ => rfl) (fun k m n => Nat.sub_sub k m n)
    (fun _ _ _ hpos hlt h => shows_left h hpos hlt) n n t k (Nat.le_refl n) h

/-- and forward. -/
theorem shows_cursorFwd (h : Shows t s k) (n : ℕ) : Shows (t.puts (termCursorFwd n)) s (k + n) :=
  shows_cursor (by decide) (fun k n => k + n) (fun _ => rfl) (fun k m n => Nat.add_assoc k m n)
    (fun _ _ _ hpos hlt h => shows_right h hpos hlt) n n t k (Nat.le_refl n) h

/-! ## Keys -/

/-- The row for a line. -/
def ShowsLine (t : Terminal) (prompt l r : List UInt8) : Prop :=
  t.Shows (prompt ++ (l ++ r)) (prompt.length + l.length)

theorem ShowsLine.split (h : ShowsLine t prompt l r) : Shows t ((prompt ++ l) ++ r) (prompt ++ l).length := by
  unfold ShowsLine at h
  rwa [← List.append_assoc, ← List.length_append] at h

theorem ShowsLine.of_split (h : Shows t ((prompt ++ l) ++ r) (prompt ++ l).length) : ShowsLine t prompt l r := by
  unfold ShowsLine
  rwa [← List.append_assoc, ← List.length_append]

/-- The rest of the line is put out one column further left, and a blank behind it. -/
theorem shows_closed {b : UInt8} (hr : Printable r) (h : Shows t (s ++ b :: r) s.length) :
    Shows (t.puts (puts r ++ puts [32] ++ termCursorBack (r.length + 1))) (s ++ r) s.length := by
  obtain ⟨x, hx⟩ : ∃ x, (b :: r).drop r.length = [x] := by
    apply List.length_eq_one_iff.1
    rw [List.length_drop, List.length_cons]
    omega
  have hrest := shows_text h hr
  rw [hx, ← List.append_assoc, ← List.length_append] at hrest
  have hspace : Printable [32] := fun b hb => by
    rw [List.mem_singleton.1 hb]
    decide
  have hblank := shows_text hrest hspace
  rw [List.length_singleton, List.drop_one, List.tail_cons, List.append_nil] at hblank
  have hback := shows_cursorBack hblank.blank (r.length + 1)
  have hcol : (s ++ r).length + 1 - (r.length + 1) = s.length := by
    rw [List.length_append]
    omega
  rw [hcol] at hback
  rw [puts_append, puts_append, puts_printable hr]
  exact hback

/-- A line that is brought back is one of those entered, or the start of one. -/
theorem recalled_printable (hlines : ∀ line ∈ lines, Printable line) (h : recalled lines k = some s) : Printable s := by
  unfold recalled at h
  split at h
  · rename_i hfound
    obtain rfl := Option.some.inj h
    intro b hb
    have hmem := List.mem_of_mem_take hb
    rcases Nat.lt_or_ge k lines.length with hlt | hge
    · rw [List.getD_eq_getElem _ _ hlt] at hmem
      exact hlines _ (List.getElem_mem hlt) b hmem
    · rw [List.getD_eq_default _ _ hge] at hmem
      exact absurd hmem List.not_mem_nil
  · exact absurd h.symm (Option.some_ne_none s)

/-- **The row follows the line.** -/
theorem edits_shown (h : Edits lines prompt ch l r out l' r') (hprompt : Printable prompt)
    (hl : Printable l) (hr : Printable r) (hch : isControl ch = false → 32 ≤ ch ∧ ch < 127)
    (hlines : ∀ line ∈ lines, Printable line) (hshows : ShowsLine t prompt l r) :
    ShowsLine (t.puts out) prompt l' r' ∧ Printable l' ∧ Printable r' := by
  cases h with
  | keep => exact ⟨hshows, hl, hr⟩
  | insert _ _ hplain =>
    have hchar := hch hplain
    have htyped : Printable (ch :: r) := List.forall_mem_cons.2 ⟨hchar, hr⟩
    have htext := shows_text hshows.split htyped
    rw [List.drop_eq_nil_of_le (by rw [List.length_cons]; omega), List.append_nil] at htext
    have hback := shows_cursorBack htext r.length
    have hcol : (prompt ++ l).length + (ch :: r).length - r.length = (prompt ++ (l ++ [ch])).length := by
      simp only [List.length_append, List.length_cons, List.length_nil]
      omega
    rw [hcol] at hback
    refine ⟨ShowsLine.of_split ?_, printable_append hl fun b hb => ?_, hr⟩
    · rw [puts_append, puts_printable htyped]
      simp only [List.append_assoc, List.cons_append, List.nil_append] at hback ⊢
      exact hback
    · rw [List.mem_singleton.1 hb]
      exact hchar
  | left _ s _ =>
    have hback := shows_cursorBack hshows s.length
    have hcol : prompt.length + (l' ++ s).length - s.length = prompt.length + l'.length := by
      rw [List.length_append]
      omega
    rw [hcol, List.append_assoc] at hback
    exact ⟨hback, fun b hb => hl b (List.mem_append_left _ hb),
      printable_append (fun b hb => hl b (List.mem_append_right _ hb)) hr⟩
  | right _ s _ =>
    have hfwd := shows_cursorFwd hshows s.length
    have hcol : prompt.length + l.length + s.length = prompt.length + (l ++ s).length := by
      rw [List.length_append]
      omega
    rw [hcol, ← List.append_assoc l s r'] at hfwd
    exact ⟨hfwd, printable_append hl fun b hb => hr b (List.mem_append_left _ hb),
      fun b hb => hr b (List.mem_append_right _ hb)⟩
  | delete _ b _ =>
    have htail : Printable r' := fun x hx => hr x (List.mem_cons_of_mem _ hx)
    exact ⟨ShowsLine.of_split (shows_closed htail hshows.split), hl, htail⟩
  | backspace _ b _ =>
    have hleft : Printable l' := fun x hx => hl x (List.mem_append_left _ hx)
    -- one column back, the row is that of the delete key
    have hback := shows_cursorBack hshows 1
    have hcol : prompt.length + (l' ++ [b]).length - 1 = prompt.length + l'.length := by
      rw [List.length_append, List.length_singleton]
      omega
    rw [hcol, List.append_assoc l' [b] r] at hback
    have hclosed := shows_closed hr (ShowsLine.split hback)
    refine ⟨ShowsLine.of_split ?_, hleft, hr⟩
    rw [List.append_assoc, List.append_assoc, puts_append]
    rw [List.append_assoc] at hclosed
    exact hclosed
  | cut =>
    have herase := shows_erase hshows
    have htake : (prompt ++ (l ++ r)).take (prompt.length + l.length) = prompt ++ (l ++ []) := by
      rw [List.append_nil, ← List.append_assoc, ← List.length_append, List.take_left]
    rw [htake] at herase
    exact ⟨herase, hl, fun b hb => absurd hb List.not_mem_nil⟩
  | redraw =>
    have hall := printable_append hl hr
    have hempty : Shows (t.puts (puts (MOVE_BOL ++ CLEAR_EOL))) [] 0 := shows_erase (shows_column hshows)
    have hstart := shows_end (s := []) hempty hprompt
    rw [List.nil_append, List.length_nil, Nat.zero_add] at hstart
    have htext := shows_end hstart hall
    have hback := shows_cursorBack htext r.length
    have hcol : prompt.length + (l ++ r).length - r.length = prompt.length + l.length := by
      rw [List.length_append]
      omega
    rw [hcol] at hback
    have hout : t.puts (puts (MOVE_BOL ++ CLEAR_EOL) ++ prompt ++ (l ++ r) ++ termCursorBack r.length) =
        (((t.puts (puts (MOVE_BOL ++ CLEAR_EOL))).puts prompt).puts (l ++ r)).puts (termCursorBack r.length) := by
      generalize l ++ r = line
      rw [puts_append, puts_append, puts_append]
    refine ⟨?_, hl, hr⟩
    rw [puts_printable hprompt, puts_printable hall, hout]
    exact hback
  | cancel =>
    have hcaret := shows_text (u := [94, 67]) hshows.split fun b hb => by revert b; decide
    have hempty := shows_newline hcaret.mode
    have hstart := shows_end (s := []) hempty hprompt
    rw [List.nil_append, List.length_nil, Nat.zero_add] at hstart
    refine ⟨?_, fun b hb => absurd hb List.not_mem_nil, fun b hb => absurd hb List.not_mem_nil⟩
    rw [puts_printable hprompt]
    show Shows _ (prompt ++ []) prompt.length
    rw [List.append_nil]
    exact hstart
  | recallLine _ _ _ hline =>
    have hplain : Printable l' := hline.elim (fun hnil => by rw [hnil]; exact fun b hb => absurd hb List.not_mem_nil)
      fun ⟨k, hfound⟩ => recalled_printable hlines hfound
    have hback := shows_back hshows l.length
    rw [Nat.add_sub_cancel] at hback
    have htext := shows_text hback hplain
    have herase := shows_erase htext
    have htake : (prompt ++ (l' ++ (l ++ r).drop l'.length)).take (prompt.length + l'.length) = prompt ++ (l' ++ []) := by
      rw [List.append_nil, ← List.append_assoc, ← List.length_append, List.take_left]
    rw [htake] at herase
    refine ⟨?_, hplain, fun b hb => absurd hb List.not_mem_nil⟩
    have hbytes : termBackspace l.length = List.replicate l.length 8 :=
      puts_eq fun hmem => absurd (List.eq_of_mem_replicate hmem) (by decide)
    rw [hbytes, puts_printable hplain, puts_append, puts_append]
    exact herase

theorem whole_printable (hu : Printable u) : Whole (puts u) := by
  rw [puts_printable hu]
  exact .of_notMem fun hmem => absurd (hu 27 hmem).1 (by decide)

/-- The loop that moves the cursor puts whole sequences out. -/
theorem whole_cursor {code : UInt8} (hfeed : code ≠ 10) (hcode : code ≠ 27) (hlast : ¬ (48 ≤ code ∧ code ≤ 57)) :
    ∀ fuel n, Whole (termCursor code fuel n) := by
  intro fuel
  induction fuel with
  | zero => exact fun _ => .nil
  | succ fuel ih =>
    intro n
    unfold termCursor
    split
    · show Whole (ansi (if n > 9 then 9 else n) code ++ termCursor code fuel (n - if n > 9 then 9 else n))
      generalize hcount : (if n > 9 then 9 else n) = count
      have hlt : count < 10 := by
        rw [← hcount]
        split
        · omega
        · omega
      have hdigit : UInt8.ofNat (48 + count) ≠ 27 := by
        intro heq
        have hnat := congrArg UInt8.toNat heq
        rw [UInt8.toNat_ofNat', Nat.mod_eq_of_lt (by omega)] at hnat
        have hescape : (27 : UInt8).toNat = 27 := rfl
        omega
      rw [ansi_eq hlt code hfeed]
      exact Whole.append (.sequence hdigit hcode hlast .nil) (ih _)
    · exact .nil

theorem whole_back (n : ℕ) : Whole (termCursorBack n) := whole_cursor (by decide) (by decide) (by decide) n n

theorem whole_fwd (n : ℕ) : Whole (termCursorFwd n) := whole_cursor (by decide) (by decide) (by decide) n n

theorem whole_erase : Whole (puts CLEAR_EOL) := .sequence (d := 48) (b := 75) (by decide) (by decide) (by decide) .nil

/-- **Keys put whole sequences out.** -/
theorem edits_whole (h : Edits lines prompt ch l r out l' r') (hprompt : Printable prompt)
    (hl : Printable l) (hr : Printable r) (hch : isControl ch = false → 32 ≤ ch ∧ ch < 127)
    (hlines : ∀ line ∈ lines, Printable line) : Whole out := by
  have hspace : Whole (puts [32]) := .byte (by decide) .nil
  cases h with
  | keep => exact .nil
  | insert _ _ hplain =>
    exact (whole_printable (List.forall_mem_cons.2 ⟨hch hplain, hr⟩)).append (whole_back _)
  | left => exact whole_back _
  | right => exact whole_fwd _
  | delete =>
    exact ((whole_printable fun x hx => hr x (List.mem_cons_of_mem _ hx)).append hspace).append (whole_back _)
  | backspace => exact (((whole_back 1).append (whole_printable hr)).append hspace).append (whole_back _)
  | cut => exact whole_erase
  | redraw =>
    have hempty : Whole (puts (MOVE_BOL ++ CLEAR_EOL)) :=
      .sequence (d := 49) (b := 71) (by decide) (by decide) (by decide) whole_erase
    exact ((hempty.append (whole_printable hprompt)).append (whole_printable (printable_append hl hr))).append
      (whole_back _)
  | cancel =>
    have hcaret : Whole (puts [94, 67, 10]) := .of_notMem (by decide)
    exact hcaret.append (whole_printable hprompt)
  | recallLine _ _ _ hline =>
    have hplain : Printable l' := hline.elim (fun hnil => by rw [hnil]; exact fun b hb => absurd hb List.not_mem_nil)
      fun ⟨k, hfound⟩ => recalled_printable hlines hfound
    have hbytes : termBackspace l.length = List.replicate l.length 8 :=
      puts_eq fun hmem => absurd (List.eq_of_mem_replicate hmem) (by decide)
    have hback : Whole (termBackspace l.length) := by
      rw [hbytes]
      exact .of_notMem fun hmem => absurd (List.eq_of_mem_replicate hmem) (by decide)
    exact hback.append ((whole_printable hplain).append whole_erase)

/-! ## Sessions -/

/-- A key that is a printable character, or one of the editor's other than the search; a sequence is not broken off by a
line feed. -/
def PlainKey (c : EmbeddedCli) (ch : UInt8) : Prop :=
  (isControl ch = false → 32 ≤ ch ∧ ch < 127) ∧ (c.haveCsi = true → ch ≠ 10) ∧ (c.haveCsi = false → ch ≠ 18)

/-- Such keys, and commands that end at the start of a row. -/
def Plain (s : Session) : Act → Prop
  | .key ch => PlainKey s.cli ch
  | .command _ out => (s.terminal.puts out).Shows [] 0

/-- What holds of the terminal between any two bytes. -/
structure Displayed (prompt : List UInt8) (s : Session) : Prop where
  sound : Sound prompt s
  searching : s.cli.searching = false
  entered : ∀ line ∈ s.entered, Printable line
  row : s.waiting = false → ∃ l r, Before s.entered s.cli l r ∧ Printable l ∧ Printable r ∧
    ShowsLine s.terminal prompt l r
  waiting : s.waiting = true → s.terminal.Shows [] 0

variable {s₀ s₁ : Session} {a : Act}

theorem printable_nil : Printable [] := fun _ hb => absurd hb List.not_mem_nil

/-- A new prompt, at the start of a row. -/
theorem shows_prompt (hprompt : Printable prompt) (h : Shows t [] 0) : ShowsLine (t.puts (puts prompt)) prompt [] [] := by
  have hstart := shows_end (s := []) h hprompt
  rw [List.nil_append, List.length_nil, Nat.zero_add] at hstart
  rw [puts_printable hprompt]
  show Shows _ (prompt ++ []) prompt.length
  rwa [List.append_nil]

theorem init_displayed (hprompt : Printable prompt) (h : Session.Init prompt s₀) : Displayed prompt s₀ := by
  have hsound := init_sound h
  obtain ⟨hcli, hwaiting, hentered, t, hblank, hterminal⟩ := h
  refine ⟨hsound, by rw [hcli]; rfl, ?_, fun _ => ⟨[], [], Or.inl ?_, printable_nil, printable_nil, ?_⟩,
    fun hwait => absurd (hwaiting.symm.trans hwait) Bool.false_ne_true⟩
  · rw [hentered]
    exact fun line hline => absurd hline List.not_mem_nil
  · rw [hentered, hcli]
    exact init_live prompt
  · rw [hterminal]
    exact shows_prompt hprompt hblank

/-- **A finished line** is the one on the row, and a new row begins. -/
theorem finish_displayed (ch : UInt8) (h : Displayed prompt s₀) (hidle : s₀.waiting = false) (hcsi : s₀.cli.haveCsi = false)
    (hbefore : Before s₀.entered s₀.cli l r) (hshows : ShowsLine s₀.terminal prompt l r) (hch : ch = 13 ∨ ch = 10) :
    ∃ s₁, s₀.step (.key ch) = some s₁ ∧ s₁.waiting = true ∧ s₁.cli.getLine = some (l ++ r) ∧ s₁.cli.searching = false ∧
      s₁.entered = remember s₀.entered (l ++ r) ∧ s₁.terminal.Shows [] 0 ∧ s₀.echo ch = putchar 10 := by
  obtain ⟨c', hinsert, hline, hbetween, -⟩ := insertChar_finishes h.sound.entered hbefore h.searching hcsi hch
  have hzero : ch ≠ 0 := by
    rcases hch with rfl | rfl
    · decide
    · decide
  have hstep : s₀.step (.key ch) = some (s₀.typed c' (putchar 10)) := by
    show (if s₀.waiting = true then none else if ch = 0 then some s₀ else _) = _
    rw [if_neg (by rw [hidle]; exact Bool.false_ne_true), if_neg hzero, hinsert]
    rfl
  refine ⟨_, hstep, hbetween.done, hline, hbetween.searching, ?_, shows_newline hshows.mode, ?_⟩
  · unfold Session.typed
    rw [hline, if_pos hbetween.done, Option.getD_some]
  · unfold Session.echo
    rw [if_neg hzero, hinsert]
    rfl

/-- A key that does not finish the line. -/
theorem key_displayed (hprompt : Printable prompt) (h : Displayed prompt s₀) (hidle : s₀.waiting = false)
    (hchar : isControl ch = false → 32 ≤ ch ∧ ch < 127) (hsearch : s₀.cli.haveCsi = false → ch ≠ 18)
    (hnot : s₀.cli.finishes ch = false) (hstep : s₀.step (.key ch) = some s₁) :
    Displayed prompt s₁ ∧ s₁.waiting = false ∧ Whole (s₀.echo ch) := by
  have hsound := h.sound.step hstep
  obtain ⟨-, hstep⟩ := Option.ite_none_left_eq_some.1 hstep
  unfold Session.echo
  split at hstep
  · rename_i hzero
    cases hstep
    rw [if_pos hzero]
    exact ⟨h, hidle, .nil⟩
  · rename_i hzero
    obtain ⟨l, r, hbefore, hl, hr, hshows⟩ := h.row hidle
    obtain ⟨c', out, l', r', hinsert, hlive, hprompt', hout⟩ := insertChar_live h.sound.entered hbefore hnot hsearch
    obtain ⟨hno, hedits⟩ := hout h.searching
    rw [h.sound.prompt] at hedits
    obtain ⟨hrow, hl', hr'⟩ := edits_shown hedits hprompt hl hr hchar h.entered hshows
    have hwhole := edits_whole hedits hprompt hl hr hchar h.entered
    rw [hinsert] at hstep
    cases hstep
    rw [if_neg hzero, hinsert]
    have hsame : (s₀.typed c' out).entered = s₀.entered := if_neg (by rw [hlive.done]; exact Bool.false_ne_true)
    refine ⟨⟨hsound, hno, ?_, fun _ => ⟨l', r', Or.inl ?_, hl', hr', hrow⟩,
      fun hwait => absurd (hlive.done.symm.trans hwait) Bool.false_ne_true⟩, hlive.done, hwhole⟩
    · rw [hsame]
      exact h.entered
    · rw [hsame]
      exact hlive

theorem remember_printable (hlines : ∀ line ∈ lines, Printable line) (hline : Printable s) :
    ∀ line ∈ remember lines s, Printable line := by
  unfold remember
  split
  · exact hlines
  · exact List.forall_mem_cons.2 ⟨hline, hlines⟩

/-- The key is one of two if the line is finished. -/
theorem finishes_cases {c : EmbeddedCli} (h : c.finishes ch = true) : ch = 10 ∨ (ch = 13 ∧ c.haveCsi = false) := by
  unfold EmbeddedCli.finishes at h
  simpa only [Bool.or_eq_true, Bool.and_eq_true, beq_iff_eq, Bool.not_eq_true'] using h

/-- A key either leaves the line open, or finishes the line on the row. -/
theorem key_cases (hprompt : Printable prompt) (h : Displayed prompt s₀) (hkey : PlainKey s₀.cli ch)
    (hstep : s₀.step (.key ch) = some s₁) :
    Displayed prompt s₁ ∧ Whole (s₀.echo ch) ∧ (s₁.waiting = true →
      s₀.echo ch = putchar 10 ∧ ∃ line, s₁.cli.getLine = some line ∧ Printable line) := by
  obtain ⟨hchar, hfeed, hsearch⟩ := hkey
  have hsound := h.sound.step hstep
  have hidle : s₀.waiting = false := Bool.eq_false_iff.2 (Option.ite_none_left_eq_some.1 hstep).1
  rcases Bool.eq_false_or_eq_true (s₀.cli.finishes ch) with hends | hnot
  · obtain ⟨l, r, hbefore, hl, hr, hshows⟩ := h.row hidle
    have hcsi : s₀.cli.haveCsi = false := by
      rcases finishes_cases hends with rfl | ⟨-, hoff⟩
      · exact Bool.eq_false_iff.2 fun hon => hfeed hon rfl
      · exact hoff
    have hch : ch = 13 ∨ ch = 10 := (finishes_cases hends).symm.imp_left And.left
    obtain ⟨s', hfinish, hwait, hline, hno, hentered, hblank, hecho⟩ :=
      finish_displayed ch h hidle hcsi hbefore hshows hch
    obtain rfl := Option.some.inj (hstep.symm.trans hfinish)
    have hplain := printable_append hl hr
    refine ⟨⟨hsound, hno, ?_, fun hidle' => absurd (hidle'.symm.trans hwait) Bool.false_ne_true, fun _ => hblank⟩,
      ?_, fun _ => ⟨hecho, l ++ r, hline, hplain⟩⟩
    · rw [hentered]
      exact remember_printable h.entered hplain
    · rw [hecho]
      exact .of_notMem (by decide)
  · obtain ⟨hdisplayed, hopen, hwhole⟩ := key_displayed hprompt h hidle hchar hsearch hnot hstep
    exact ⟨hdisplayed, hwhole, fun hwait => absurd (hopen.symm.trans hwait) Bool.false_ne_true⟩

/-- **A step keeps it.** -/
theorem Displayed.step (hprompt : Printable prompt) (h : Displayed prompt s₀) (ha : Plain s₀ a)
    (hstep : s₀.step a = some s₁) : Displayed prompt s₁ := by
  cases a with
  | key ch => exact (key_cases hprompt h ha hstep).1
  | command buffer out =>
    have hsound := h.sound.step hstep
    obtain ⟨⟨hwaiting, hlen⟩, rfl⟩ := of_guard hstep
    have hbetween := (h.sound.waiting hwaiting).command hlen
    refine ⟨hsound, h.searching, h.entered, fun _ => ⟨[], [], Or.inr ⟨hbetween, rfl, rfl⟩, printable_nil,
      printable_nil, ?_⟩, fun hwait => absurd hwait Bool.false_ne_true⟩
    show ShowsLine ((s₀.terminal.puts out).puts (puts s₀.cli.prompt)) prompt [] []
    rw [h.sound.prompt]
    exact shows_prompt hprompt ha

/-- **The row is the line.** As long as the keys are printable characters and keys of the editor other than the search,
the row of the terminal holds the prompt and the line in the buffer, with the cursor in its place, and the line that a
carriage return or a line feed gives to the command is the one on the row. -/
theorem line_shown (hprompt : Printable prompt) (h : (machine prompt).Reach Plain s₀) (hidle : s₀.waiting = false) :
    ∃ l r, Before s₀.entered s₀.cli l r ∧ s₀.terminal.Shows (prompt ++ (l ++ r)) (prompt.length + l.length) ∧
      ∀ ch, ch = 13 ∨ ch = 10 → s₀.cli.haveCsi = false →
        ∃ s₁, s₀.step (.key ch) = some s₁ ∧ s₁.waiting = true ∧ s₁.cli.getLine = some (l ++ r) ∧
          s₁.terminal.Shows [] 0 := by
  have hdisplayed : Displayed prompt s₀ := h.invariant (I := Displayed prompt) (fun _ => init_displayed hprompt)
    fun _ _ _ hs ha hstep => hs.step hprompt ha hstep
  obtain ⟨l, r, hbefore, -, -, hshows⟩ := hdisplayed.row hidle
  refine ⟨l, r, hbefore, hshows, fun ch hch hcsi => ?_⟩
  obtain ⟨s₁, hstep, hwait, hline, -, -, hblank, -⟩ := finish_displayed ch hdisplayed hidle hcsi hbefore hshows hch
  exact ⟨s₁, hstep, hwait, hline, hblank⟩

/-- The keys `b`, arrow left, `a`: the line is `ab`, with the cursor on the `b`. -/
def twoKeys : List UInt8 := [98, 27, 91, 68, 97]

/-- Keys after one another. -/
theorem reach_keys {keys : List UInt8} (h : (machine prompt).Reach Plain s₀) (hplain : ∀ c, ∀ ch ∈ keys, PlainKey c ch)
    (hexec : (machine prompt).exec s₀ (keys.map .key) = some s₁) : (machine prompt).Reach Plain s₁ := by
  induction keys generalizing s₀ with
  | nil =>
    obtain rfl := Option.some.inj hexec
    exact h
  | cons ch keys ih =>
    obtain ⟨s, hstep, hrest⟩ := Option.bind_eq_some_iff.1 hexec
    exact ih (h.step (a := .key ch) (hplain s₀.cli ch (List.mem_cons_self ..)) hstep)
      (fun c b hb => hplain c b (List.mem_cons_of_mem _ hb)) hrest

theorem line_shown_two :
    ∃ s₀ l r, (machine evsocPrompt).exec firstPrompt (twoKeys.map .key) = some s₀ ∧ Before s₀.entered s₀.cli l r ∧
      s₀.terminal.Shows (evsocPrompt ++ (l ++ r)) (evsocPrompt.length + l.length) := by
  have hinit : (machine evsocPrompt).init firstPrompt :=
    ⟨rfl, rfl, rfl, ⟨fun _ => 32, 0, .text⟩, ⟨rfl, rfl, rfl⟩, rfl⟩
  obtain ⟨s₀, hexec⟩ := Option.isSome_iff_exists.1
    (show ((machine evsocPrompt).exec firstPrompt (twoKeys.map .key)).isSome = true by decide +kernel)
  have hidle : ((machine evsocPrompt).exec firstPrompt (twoKeys.map .key)).map Session.waiting = some false := by
    decide +kernel
  rw [hexec] at hidle
  have hplain : ∀ c, ∀ ch ∈ twoKeys, PlainKey c ch := by
    have hkeys : ∀ ch ∈ twoKeys, (isControl ch = false → 32 ≤ ch ∧ ch < 127) ∧ ch ≠ 10 ∧ ch ≠ 18 := by decide
    exact fun c ch hch => ⟨(hkeys ch hch).1, fun _ => (hkeys ch hch).2.1, fun _ => (hkeys ch hch).2.2⟩
  obtain ⟨l, r, hbefore, hshows, -⟩ := line_shown (by unfold Terminal.Printable evsocPrompt; decide)
    (reach_keys (.init hinit) hplain hexec) (Option.some.inj hidle)
  exact ⟨s₀, l, r, hexec, hbefore, hshows⟩

end Br2Efinix.Cli
