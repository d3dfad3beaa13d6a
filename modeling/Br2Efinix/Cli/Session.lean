import Br2Efinix.Cli.Keys
import Br2Efinix.Lib.Machine
import Br2Efinix.Lib.Terminal

/-!
# A session at the prompt

`cli_main`: bytes from the keyboard go to the editor, a finished line is taken apart in the buffer and run, and the prompt
is put out again.

* `session_sound`: what holds between any two bytes.
* `up_press`: an arrow key in the three bytes that the terminal sends.
* `history_recalled`: **no byte ever makes the editor leave its arrays**, and `k + 1` presses of the arrow key bring back
  the line `k` places before the last one in the history.
-/

namespace Br2Efinix.Cli

open CString

/-! ## The program -/

/-- The editor and the terminal; a finished line that has not been run; and, only observed, the lines that the history has
taken. -/
structure Session where
  cli : EmbeddedCli
  terminal : Terminal
  waiting : Bool
  entered : List (List UInt8)

/-- A byte of `getch`; and a command, with what it and `embedded_cli_argc` leave in the buffer and on the terminal. -/
inductive Act
  | key (ch : UInt8)
  | command (buffer out : List UInt8)

namespace Session

/-- After a byte. -/
def typed (s : Session) (c : EmbeddedCli) (out : List UInt8) : Session :=
  { cli := c, terminal := s.terminal.puts out, waiting := c.done,
    entered := if c.done then remember s.entered (c.getLine.getD []) else s.entered }

/-- What a byte puts out. -/
def echo (s : Session) (ch : UInt8) : List UInt8 := if ch = 0 then [] else ((s.cli.insertChar ch).map Prod.snd).getD []

def step (s : Session) : Act → Option Session
  | .key ch =>
    if s.waiting then none
    else if ch = 0 then some s
    else (s.cli.insertChar ch).map fun p => s.typed p.1 p.2
  | .command buffer out =>
    if s.waiting ∧ buffer.length = MAX_LINE then
      -- embedded_cli_prompt
      some { s with cli := { s.cli with buffer := buffer },
                    terminal := (s.terminal.puts out).puts (puts s.cli.prompt), waiting := false }
    else none

/-- The prompt is put out at the start of a row. -/
def Init (prompt : List UInt8) (s : Session) : Prop :=
  s.cli = .init prompt ∧ s.waiting = false ∧ s.entered = [] ∧
    ∃ t : Terminal, t.Shows [] 0 ∧ s.terminal = t.puts (puts prompt)

end Session

def machine (prompt : List UInt8) : Machine Session Act where
  init := Session.Init prompt
  step := Session.step

/-- An arrow key, `n` times. -/
def ups : ℕ → List Act
  | 0 => []
  | n + 1 => ups n ++ [.key 27, .key 91, .key 65]

/-! ## The invariant -/

/-- The editor is in a line or between two. -/
structure Sound (prompt : List UInt8) (s : Session) : Prop where
  entered : Entered s.entered
  prompt : s.cli.prompt = prompt
  line : s.waiting = false → ∃ l r, Before s.entered s.cli l r
  waiting : s.waiting = true → Between s.entered s.cli

variable {prompt line l r : List UInt8} {s s' : Session} {c c₀ c' : EmbeddedCli} {lines : List (List UInt8)} {ch : UInt8}
  {k : ℕ}

theorem entered_remember (hlines : Entered lines) (hlen : line.length < MAX_LINE) (hzero : 0 ∉ line) :
    Entered (remember lines line) := by
  unfold remember
  split
  · exact hlines
  · rename_i hnew
    exact List.forall_mem_cons.2 ⟨⟨fun hnil => hnew (Or.inl hnil), hzero, hlen⟩, hlines⟩

/-- An editor just set up. -/
theorem init_live (prompt : List UInt8) : Live [] (.init prompt) [] [] := by
  refine ⟨⟨⟨List.replicate (MAX_LINE - 1) 0, rfl⟩, rfl, List.not_mem_nil, List.not_mem_nil, rfl, rfl⟩, ?_,
    Int.le_refl _, rfl⟩
  show List.replicate HISTORY_LEN 0 = (([] : List UInt8) ++ List.replicate HISTORY_LEN 0).take (HISTORY_LEN - 1) ++ [0]
  rw [List.nil_append, List.take_replicate, Nat.min_eq_left (by omega)]
  exact List.replicate_succ'

/-- **Any call**: the editor stays in the line, or the line is finished. -/
theorem insertChar_sound (hlines : Entered lines) (h : Before lines c l r) (ch : UInt8) :
    ∃ c' out, c.insertChar ch = some (c', out) ∧ c'.prompt = c.prompt ∧
      ((c'.done = false ∧ ∃ l' r', Live lines c' l' r') ∨
        ∃ line, c'.getLine = some line ∧ line.length < MAX_LINE ∧ 0 ∉ line ∧ Between (remember lines line) c') := by
  obtain ⟨c₀, hstart, hlive, hprompt, -, hcsi, -⟩ := start_live h
  -- the byte itself stays in the arrays, also where it begins a search or ends the line
  have hchar : ∃ c₁ out l₁ r₁, c₀.char ch = some (c₁, out) ∧ Live lines c₁ l₁ r₁ ∧ c₁.prompt = c₀.prompt := by
    unfold EmbeddedCli.char
    split
    · obtain ⟨c₁, out, l₁, r₁, hresult, hlive₁, hprompt₁, -⟩ := csiChar_live ch hlines hlive
      exact ⟨c₁, out, l₁, r₁, hresult, hlive₁, hprompt₁⟩
    · by_cases hsearch : ch = 18
      · rw [hsearch]
        obtain ⟨c₁, out, hresult, hlive₁, hprompt₁⟩ := plainChar_search hlive
        exact ⟨c₁, out, l, r, hresult, hlive₁, hprompt₁⟩
      · by_cases hend : ch = 13 ∨ ch = 10
        · refine ⟨c₀, putchar 10, l, r, ?_, hlive, rfl⟩
          rcases hend with rfl | rfl
          · rfl
          · rfl
        · obtain ⟨c₁, out, l₁, r₁, hresult, hlive₁, hprompt₁, -⟩ :=
            plainChar_live hlines hlive (not_or.1 hend) hsearch
          exact ⟨c₁, out, l₁, r₁, hresult, hlive₁, hprompt₁⟩
  obtain ⟨c₁, out, l₁, r₁, hchar, hlive₁, hprompt₁⟩ := hchar
  unfold EmbeddedCli.insertChar
  rw [hstart]
  simp only [Option.bind_eq_bind, Option.bind_some, hchar]
  split
  · obtain ⟨c', line, hfinish, hline, hlen, hzero, hbetween, hprompt', -⟩ := finish_live hlines hlive₁
    rw [hfinish]
    exact ⟨c', out, rfl, hprompt'.trans (hprompt₁.trans hprompt), Or.inr ⟨line, hline, hlen, hzero, hbetween⟩⟩
  · exact ⟨_, out, rfl, hprompt₁.trans hprompt, Or.inl ⟨rfl, l₁, r₁, ⟨⟨hlive₁.buffer, hlive₁.size, hlive₁.left,
      hlive₁.right, hlive₁.len, hlive₁.cursor⟩, hlive₁.history, hlive₁.pos, rfl⟩⟩⟩

theorem Live.notBetween (h : Live lines c l r) : c.done = true → False := fun hdone =>
  Bool.false_ne_true (h.done.symm.trans hdone)

/-- **A step keeps it.** -/
theorem Sound.step (h : Sound prompt s) {a : Act} (hstep : s.step a = some s') : Sound prompt s' := by
  cases a with
  | key ch =>
    obtain ⟨hwaiting, hstep⟩ := Option.ite_none_left_eq_some.1 hstep
    have hidle := Bool.eq_false_iff.2 hwaiting
    split at hstep
    · cases hstep
      exact h
    · obtain ⟨l, r, hbefore⟩ := h.line hidle
      obtain ⟨c', out, hinsert, hprompt, hcases⟩ := insertChar_sound h.entered hbefore ch
      rw [hinsert] at hstep
      cases hstep
      rcases hcases with ⟨hdone, l', r', hlive⟩ | ⟨line, hline, hlen, hzero, hbetween⟩
      · have hsame : (s.typed c' out).entered = s.entered := if_neg (by rw [hdone]; exact Bool.false_ne_true)
        refine ⟨?_, hprompt.trans h.prompt, fun _ => ⟨l', r', Or.inl ?_⟩, fun hwait => (hlive.notBetween hwait).elim⟩
        · show Entered (s.typed c' out).entered
          rw [hsame]
          exact h.entered
        · show Live (s.typed c' out).entered c' l' r'
          rw [hsame]
          exact hlive
      · have hmore : (s.typed c' out).entered = remember s.entered line := by
          unfold Session.typed
          rw [hline, if_pos hbetween.done, Option.getD_some]
        refine ⟨?_, hprompt.trans h.prompt, fun hno => absurd (hno.symm.trans hbetween.done) Bool.false_ne_true, ?_⟩
        · show Entered (s.typed c' out).entered
          rw [hmore]
          exact entered_remember h.entered hlen hzero
        · intro _
          show Between (s.typed c' out).entered c'
          rw [hmore]
          exact hbetween
  | command buffer out =>
    obtain ⟨⟨hwaiting, hlen⟩, rfl⟩ := of_guard hstep
    have hbetween := (h.waiting hwaiting).command hlen
    exact ⟨h.entered, h.prompt, fun _ => ⟨[], [], Or.inr ⟨hbetween, rfl, rfl⟩⟩, fun hno => absurd hno Bool.false_ne_true⟩

theorem init_sound (h : Session.Init prompt s) : Sound prompt s := by
  obtain ⟨hcli, hwaiting, hentered, -⟩ := h
  refine ⟨?_, by rw [hcli]; rfl, fun _ => ⟨[], [], Or.inl ?_⟩, fun hno => absurd (hwaiting.symm.trans hno) Bool.false_ne_true⟩
  · rw [hentered]
    exact fun line hline => absurd hline List.not_mem_nil
  · rw [hentered, hcli]
    exact init_live prompt

theorem session_sound (h : (machine prompt).Reach (fun _ _ => True) s) : Sound prompt s :=
  h.invariant (fun _ => init_sound) fun _ _ _ hs _ hstep => hs.step hstep

/-! ## The arrow key -/

theorem insertChar_eq {out : List UInt8} (ch : UInt8) (hstart : c.start = some c₀) (hchar : c₀.char ch = some (c', out))
    (hnot : c₀.finishes ch = false) : c.insertChar ch = some ({ c' with done := false }, out) := by
  unfold EmbeddedCli.insertChar
  rw [hstart]
  simp only [Option.bind_eq_bind, Option.bind_some, hchar, hnot, Bool.false_eq_true, if_false]

/-- A byte in a line. -/
theorem live_start (h : Live lines c l r) : c.start = some c :=
  if_neg (by rw [h.done]; exact Bool.false_ne_true)

/-- **The arrow key**, from a line or between two, brings the next older one. -/
theorem up_press (hlines : Entered lines) (h : Before lines c l r) (hsearch : c.searching = false)
    (hcsi : c.haveCsi = false) (hpos : c.historyPos + 1 = Int.ofNat k) (hfound : recalled lines k = some line) :
    ∃ c₁ c₂ c₃ out, c.insertChar 27 = some (c₁, []) ∧ c₁.insertChar 91 = some (c₂, []) ∧
      c₂.insertChar 65 = some (c₃, out) ∧ c₁.done = false ∧ c₂.done = false ∧ Live lines c₃ line [] ∧
      c₃.searching = false ∧ c₃.haveCsi = false ∧ c₃.historyPos = Int.ofNat k := by
  obtain ⟨c₀, hstart, hlive, -, hsearching, hmode, hsame⟩ := start_live h
  have hmode₀ := hmode.trans hcsi
  -- the escape
  have hescape : c₀.char 27 = some ({ c₀ with haveCsi := false, haveEscape := true, counter := 0 }, []) := by
    unfold EmbeddedCli.char
    rw [if_neg (by rw [hmode₀]; exact Bool.false_ne_true)]
    show (c₀.endSearch true).map _ = _
    unfold EmbeddedCli.endSearch
    rw [if_neg (by rw [hsearching, hsearch]; exact Bool.false_ne_true)]
    rfl
  have hfirst := insertChar_eq 27 hstart hescape rfl
  -- the bracket
  have hlive₁ : Live lines { c₀ with haveCsi := false, haveEscape := true, counter := 0, done := false } l r :=
    ⟨⟨hlive.buffer, hlive.size, hlive.left, hlive.right, hlive.len, hlive.cursor⟩, hlive.history, hlive.pos, rfl⟩
  have hsecond := insertChar_eq 91 (live_start hlive₁) rfl rfl
  -- the letter
  have hlive₂ : Live lines { c₀ with haveCsi := true, haveEscape := true, counter := 1, done := false } l r :=
    ⟨⟨hlive.buffer, hlive.size, hlive.left, hlive.right, hlive.len, hlive.cursor⟩, hlive.history, hlive.pos, rfl⟩
  obtain ⟨c', hup, hlive', -, hsearching', hpos'⟩ := upArrow_some hlines hlive₂ (by rw [← hpos, ← hsame]) hfound
  have hletter : EmbeddedCli.char { c₀ with haveCsi := true, haveEscape := true, counter := 0, done := false } 65 =
      some ({ c' with haveCsi := false, haveEscape := false, counter := 0 },
        termBackspace l.length ++ (puts line ++ puts CLEAR_EOL)) := by
    show (EmbeddedCli.upArrow _).map _ = _
    exact congrArg (Option.map _) hup
  have hlive₃ : Live lines { c₀ with haveCsi := true, haveEscape := true, counter := 0, done := false } l r :=
    ⟨⟨hlive.buffer, hlive.size, hlive.left, hlive.right, hlive.len, hlive.cursor⟩, hlive.history, hlive.pos, rfl⟩
  have hthird := insertChar_eq 65 (live_start hlive₃) hletter rfl
  refine ⟨_, _, _, _, hfirst, hsecond, hthird, rfl, rfl, ⟨⟨hlive'.buffer, hlive'.size, hlive'.left, hlive'.right,
    hlive'.len, hlive'.cursor⟩, hlive'.history, hlive'.pos, rfl⟩, ?_, rfl, hpos'⟩
  exact hsearching'.trans (hsearching.trans hsearch)

/-- A byte of a session that does not finish a line. -/
theorem step_key {out : List UInt8} (hidle : s.waiting = false) (hch : ch ≠ 0)
    (hinsert : s.cli.insertChar ch = some (c', out)) (hdone : c'.done = false) :
    s.step (.key ch) = some { s with cli := c', terminal := s.terminal.puts out, waiting := false } := by
  show (if s.waiting = true then none else if ch = 0 then some s else _) = _
  rw [if_neg (by rw [hidle]; exact Bool.false_ne_true), if_neg hch, hinsert]
  show some (s.typed c' out) = _
  unfold Session.typed
  rw [hdone, if_neg Bool.false_ne_true]

/-- The older lines that fit are found. -/
theorem recalled_of_fits (hk : k < lines.length) (hfits : place lines (k + 1) ≤ HISTORY_LEN) :
    recalled lines k = some lines[k] := by
  have hsucc := place_succ hk
  have hwhole : lines[k].length ≤ HISTORY_LEN - 1 - place lines k := by omega
  unfold recalled entry
  rw [if_pos ⟨Nat.le_of_lt hk, by omega⟩, List.getD_eq_getElem _ _ hk, List.take_of_length_le hwhole]

/-- The three bytes in a session. -/
theorem exec_up (prompt : List UInt8) (hlines : Entered lines) (hidle : s.waiting = false) (hsame : s.entered = lines)
    (h : Before lines s.cli l r) (hsearch : s.cli.searching = false) (hcsi : s.cli.haveCsi = false)
    (hpos : s.cli.historyPos + 1 = Int.ofNat k) (hfound : recalled lines k = some line) :
    ∃ s', (machine prompt).exec s [.key 27, .key 91, .key 65] = some s' ∧ s'.waiting = false ∧ s'.entered = lines ∧
      Live lines s'.cli line [] ∧ s'.cli.searching = false ∧ s'.cli.haveCsi = false ∧
      s'.cli.historyPos = Int.ofNat k := by
  obtain ⟨c₁, c₂, c₃, out, h₁, h₂, h₃, hdone₁, hdone₂, hlive, hframe⟩ := up_press hlines h hsearch hcsi hpos hfound
  have hstep₁ := step_key hidle (by decide) h₁ hdone₁
  have hstep₂ := step_key (s := { s with cli := c₁, terminal := s.terminal.puts [], waiting := false }) rfl
    (by decide) h₂ hdone₂
  have hstep₃ := step_key (s := { s with cli := c₂, terminal := (s.terminal.puts []).puts [], waiting := false }) rfl
    (by decide) h₃ hlive.done
  refine ⟨{ s with cli := c₃, terminal := ((s.terminal.puts []).puts []).puts out, waiting := false }, ?_, rfl, hsame,
    hlive, hframe⟩
  show (s.step (.key 27)).bind (fun t => (t.step (.key 91)).bind fun t => (t.step (.key 65)).bind some) = _
  rw [hstep₁, Option.bind_some, hstep₂, Option.bind_some, hstep₃, Option.bind_some]

/-- No older line is on the row, and neither a search nor a sequence is begun. -/
structure Fresh (c : EmbeddedCli) : Prop where
  searching : c.searching = false
  haveCsi : c.haveCsi = false
  historyPos : c.historyPos = -1

/-- A new prompt, -/
theorem Before.fresh (h : Before lines c l r) (hdone : c.done = true) : Fresh c := by
  rcases h with hlive | ⟨hbetween, -⟩
  · exact (hlive.notBetween hdone).elim
  · exact ⟨hbetween.searching, hbetween.haveCsi, hbetween.pos⟩

/-- and the one after Ctrl-C. -/
theorem insertChar_cancel {out : List UInt8} (h : Before lines c l r) (hcsi : c.haveCsi = false)
    (hinsert : c.insertChar 3 = some (c', out)) : c'.done = false ∧ Fresh c' := by
  obtain ⟨c₀, hstart, -, -, -, hmode, -⟩ := start_live h
  have hchar : c₀.char 3 = (store c₀.buffer 0 0).map fun buffer =>
      ({ c₀.resetLine with buffer := buffer }, puts [94, 67, 10] ++ puts c₀.prompt) := by
    unfold EmbeddedCli.char
    rw [if_neg (by rw [hmode, hcsi]; exact Bool.false_ne_true)]
    rfl
  unfold EmbeddedCli.insertChar at hinsert
  rw [hstart, Option.bind_eq_bind, Option.bind_some, hchar] at hinsert
  obtain ⟨p, hstored, hresult⟩ := Option.bind_eq_some_iff.1 hinsert
  obtain ⟨buffer, -, rfl⟩ := Option.map_eq_some_iff.1 hstored
  cases hresult
  exact ⟨rfl, rfl, rfl, rfl⟩

/-- Presses of the arrow key. -/
theorem exec_ups (hsound : Sound prompt s) (hidle : s.waiting = false) (hfresh : Fresh s.cli)
    (hk : k < s.entered.length) (hfits : place s.entered (k + 1) ≤ HISTORY_LEN) :
    ∃ s', (machine prompt).exec s (ups (k + 1)) = some s' ∧ s'.waiting = false ∧ s'.entered = s.entered ∧
      Live s.entered s'.cli s.entered[k] [] ∧ s'.cli.searching = false ∧ s'.cli.haveCsi = false ∧
      s'.cli.historyPos = Int.ofNat k := by
  induction k with
  | zero =>
    obtain ⟨l, r, hbefore⟩ := hsound.line hidle
    exact exec_up prompt hsound.entered hidle rfl hbefore hfresh.searching hfresh.haveCsi
      (by rw [hfresh.historyPos]; rfl) (recalled_of_fits hk hfits)
  | succ k ih =>
    have hmono := place_mono s.entered (k + 1) 1
    obtain ⟨s₁, hexec, hwait, hsame, hlive, hsearch, hcsi, hpos⟩ := ih (by omega) (by omega)
    obtain ⟨s', hup, hresult⟩ := exec_up prompt hsound.entered hwait hsame (Or.inl hlive) hsearch hcsi
      (by rw [hpos]; rfl) (recalled_of_fits hk hfits)
    refine ⟨s', ?_, hresult⟩
    show (machine prompt).exec s (ups (k + 1) ++ _) = _
    rw [Machine.exec_append, hexec]
    exact hup

/-- **Lines come back.** Whatever bytes are typed and whatever commands leave in the buffer, no byte makes the editor
leave its arrays. At a new prompt, also one after Ctrl-C, and wherever no older line, search or sequence is on, `k + 1`
presses of the arrow key bring back the line `k` places before the last one that the history has taken, as long as the
lines from it on fit. -/
theorem history_recalled (h : (machine prompt).Reach (fun _ _ => True) s) (hidle : s.waiting = false) :
    (∀ ch, (s.step (.key ch)).isSome = true) ∧
      (s.cli.done = true → Fresh s.cli) ∧
      (s.cli.haveCsi = false → ∀ s', s.step (.key 3) = some s' → s'.waiting = false ∧ Fresh s'.cli) ∧
      (Fresh s.cli → ∀ k (hk : k < s.entered.length), (joined (s.entered.take (k + 1))).length ≤ HISTORY_LEN →
        ∃ s', (machine prompt).exec s (ups (k + 1)) = some s' ∧ s'.cli.Holds s.entered[k] []) := by
  have hsound := session_sound h
  obtain ⟨l, r, hbefore⟩ := hsound.line hidle
  refine ⟨?_, fun hdone => hbefore.fresh hdone, ?_, ?_⟩
  · intro ch
    obtain ⟨c', out, hinsert, -⟩ := insertChar_sound hsound.entered hbefore ch
    show (if s.waiting = true then none else if ch = 0 then some s else _).isSome = true
    rw [if_neg (by rw [hidle]; exact Bool.false_ne_true), hinsert]
    split
    · rfl
    · rfl
  · intro hcsi s' hstep
    obtain ⟨-, hstep⟩ := Option.ite_none_left_eq_some.1 hstep
    obtain ⟨⟨c', out⟩, hinsert, rfl⟩ := Option.map_eq_some_iff.1 hstep
    exact insertChar_cancel hbefore hcsi hinsert
  · intro hfresh k hk hfits
    obtain ⟨s', hexec, -, -, hlive, -⟩ := exec_ups hsound hidle hfresh hk hfits
    exact ⟨s', hexec, hlive.toHolds⟩

/-- The prompt of the demo, `"EVSOC> "`. -/
def evsocPrompt : List UInt8 := [69, 86, 83, 79, 67, 62, 32]

/-- A session at its first prompt, on an empty row. -/
def firstPrompt : Session where
  cli := .init evsocPrompt
  terminal := Terminal.puts ⟨fun _ => 32, 0, .text⟩ (puts evsocPrompt)
  waiting := false
  entered := []

/-- The lines `a` and `b` have been entered and run. -/
def twoLines : Session :=
  ((machine evsocPrompt).exec firstPrompt
    [.key 97, .key 13, .command (List.replicate MAX_LINE 0) [], .key 98, .key 13,
      .command (List.replicate MAX_LINE 0) []]).getD firstPrompt

/-- After the lines `a` and `b`, two presses bring back `a`. -/
theorem history_recalled_two :
    ∃ s', (machine evsocPrompt).exec twoLines (ups 2) = some s' ∧ s'.cli.Holds [97] [] := by
  have hinit : (machine evsocPrompt).init firstPrompt :=
    ⟨rfl, rfl, rfl, ⟨fun _ => 32, 0, .text⟩, ⟨rfl, rfl, rfl⟩, rfl⟩
  have hreach : (machine evsocPrompt).Reach (fun _ _ => True) twoLines := by
    apply Machine.Reach.of_exec hinit (Machine.along_true _ [.key 97, .key 13, .command (List.replicate MAX_LINE 0) [],
      .key 98, .key 13, .command (List.replicate MAX_LINE 0) []])
    obtain ⟨t, ht⟩ := Option.isSome_iff_exists.1 (show ((machine evsocPrompt).exec firstPrompt [.key 97, .key 13,
      .command (List.replicate MAX_LINE 0) [], .key 98, .key 13,
      .command (List.replicate MAX_LINE 0) []]).isSome = true by decide +kernel)
    unfold twoLines
    rw [ht, Option.getD_some]
  have hlines : twoLines.entered = [[98], [97]] := by decide +kernel
  obtain ⟨-, hfresh, -, hup⟩ := history_recalled hreach (by decide +kernel)
  obtain ⟨s', hexec, hholds⟩ := hup (hfresh (by decide +kernel)) 1 (by rw [hlines]; decide) (by rw [hlines]; decide)
  simp only [hlines] at hholds
  exact ⟨s', hexec, hholds⟩

end Br2Efinix.Cli
