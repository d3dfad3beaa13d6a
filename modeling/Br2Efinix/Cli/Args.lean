import Mathlib.Data.List.Forall2
import Br2Efinix.Cli.Editor

/-!
# The words of a line

`embedded_cli_argc` takes a line apart where it stands: it takes backslashes and quotes out of the buffer and puts a NUL
behind each word.

* `Tok.next`: what a byte means for the words, without the buffer.
* `round_matches`, `loop_matches`: the buffer follows it.
* `Reads`: the lines that are written for given words, with quotes and backslashes.
* `argc_reads`: **the words are read back**, up to the ninth.
-/

namespace Br2Efinix.Cli

open CString

/-! ## The program -/

/-- `EMBEDDED_CLI_MAX_ARGC` -/
def MAX_ARGC : ℕ := 10

/-- `is_whitespace`. -/
def isWhitespace (ch : UInt8) : Bool := ch == 32 || ch == 9 || ch == 10 || ch == 13

def isQuote (ch : UInt8) : Bool := ch == 39 || ch == 34

/-- The variables of `embedded_cli_argc`; `pos` is the length of `argv`, which holds places in the buffer. -/
structure Scan where
  buffer : List UInt8
  i : ℕ
  argv : List ℕ
  inArg : Bool
  inEscape : Bool
  inString : UInt8
  deriving DecidableEq, Repr

/-- The byte at `i` is taken out of the buffer. -/
def absorb (m : List UInt8) (i : ℕ) : Option (List UInt8) := memmove m i (i + 1) (MAX_LINE - i - 1)

namespace Scan

/-- The test for a quote, at `i`. -/
def quote (s : Scan) (i : ℕ) : Option Scan := do
  let ch ← s.buffer[i]?
  if isQuote ch then
    let buffer ← absorb s.buffer i
    -- `i--`, and `i++` of the loop
    some { s with buffer := buffer, inString := ch, i := i }
  else some { s with i := i + 1 }

/-- A byte of a word. -/
def word (s : Scan) (ch : UInt8) : Option Scan :=
  if ch = 92 then do
    let buffer ← absorb s.buffer s.i
    -- the test that follows is one place further left, on the byte before the backslash
    if s.i = 0 then none else quote { s with buffer := buffer, inEscape := true } (s.i - 1)
  else s.quote s.i

/-- A round of the loop; `none` inside is a `break`. -/
def round (s : Scan) (ch : UInt8) : Option (Option Scan) :=
  if s.inEscape then some (some { s with inEscape := false, i := s.i + 1 })
  else if s.inString ≠ 0 then
    if ch = s.inString then (absorb s.buffer s.i).map fun buffer => some { s with buffer := buffer, inString := 0 }
    else some (some { s with i := s.i + 1 })
  else if isWhitespace ch then
    if s.inArg then (store s.buffer s.i 0).map fun buffer => some { s with buffer := buffer, inArg := false, i := s.i + 1 }
    else some (some { s with i := s.i + 1 })
  else if s.inArg then (s.word ch).map some
  else if s.argv.length ≥ MAX_ARGC then some none
  else (word { s with argv := s.argv ++ [s.i], inArg := true } ch).map some

def loop : ℕ → Scan → Option Scan
  | 0, _ => none
  | fuel + 1, s =>
    if s.i < MAX_LINE then do
      let ch ← s.buffer[s.i]?
      if ch = 0 then some s
      else
        match ← s.round ch with
        | none => some s
        | some s => loop fuel s
    else some s

end Scan

/-- `embedded_cli_argc`: the buffer after it, and where the words are. -/
def EmbeddedCli.argc (c : EmbeddedCli) : Option (EmbeddedCli × List ℕ) :=
  if c.done then do
    let s ← Scan.loop MAX_LINE
      { buffer := c.buffer, i := 0, argv := [], inArg := false, inEscape := false, inString := 0 }
    -- the last entry is for the NULL
    some ({ c with buffer := s.buffer }, if s.argv.length ≥ MAX_ARGC then s.argv.dropLast else s.argv)
  else some (c, [])

/-! ## What a byte means -/

/-- The words so far, the one that is being read, and whether white space has been read. -/
structure Tok where
  words : List (List UInt8)
  cur : Option (List UInt8)
  inEscape : Bool
  inString : UInt8
  blank : Bool

/-- The text of the word that is being read. -/
def Tok.text (t : Tok) : List UInt8 := t.cur.getD []

def Tok.next (t : Tok) (b : UInt8) : Tok :=
  if t.inEscape then { t with inEscape := false, cur := some (t.text ++ [b]) }
  else if t.inString ≠ 0 then
    if b = t.inString then { t with inString := 0 } else { t with cur := some (t.text ++ [b]) }
  else if isWhitespace b then { t with words := t.words ++ t.cur.toList, cur := none, blank := true }
  else if b = 92 then { t with cur := some t.text, inEscape := true }
  else if isQuote b then { t with cur := some t.text, inString := b }
  else { t with cur := some (t.text ++ [b]) }

/-- A backslash has a byte before it in the buffer, and not a quote that is part of the word. -/
def Tok.Safe (t : Tok) (b : UInt8) : Prop :=
  b = 92 → t.inEscape = false → t.inString = 0 →
    (t.text = [] → t.blank = true) ∧ ∀ q ∈ t.text.getLast?, isQuote q = false

/-- All words. -/
def Tok.all (t : Tok) : List (List UInt8) := t.words ++ t.cur.toList

/-- Every backslash of the text is so. -/
def SafeAlong : Tok → List UInt8 → Prop
  | _, [] => True
  | t, b :: text => t.Safe b ∧ SafeAlong (t.next b) text

/-! ## The buffer -/

variable {m front text rest w : List UInt8} {b : UInt8} {i : ℕ} {s s' : Scan} {t : Tok}

theorem str_drop (hw : 0 ∉ w) (h : m.drop i = w ++ 0 :: rest) : str m i = some w := by
  have hzero : str (m.drop i) 0 = str m i := by
    unfold str
    rw [List.drop_zero]
  rw [← hzero, h]
  exact str_zero hw

theorem absorb_eq (hsize : (front ++ b :: rest).length = MAX_LINE) :
    ∃ x, absorb (front ++ b :: rest) front.length = some (front ++ (rest ++ [x])) := by
  have hlen := hsize
  rw [List.length_append, List.length_cons] at hlen
  obtain ⟨x, hx⟩ : ∃ x, (b :: rest).drop rest.length = [x] := by
    apply List.length_eq_one_iff.1
    rw [List.length_drop, List.length_cons]
    omega
  refine ⟨x, ?_⟩
  have hcount : MAX_LINE - front.length - 1 = rest.length := by omega
  have hone : (front ++ b :: rest).drop (front.length + 1) = rest := by
    rw [List.drop_length_add_append]
    rfl
  unfold absorb memmove
  rw [hcount, if_pos ⟨by omega, by omega⟩, List.take_left, hone, List.take_of_length_le (Nat.le_refl _),
    List.drop_length_add_append, hx, List.append_assoc]

/-- A word that ends with its NUL. -/
def Placed (front : List UInt8) (i : ℕ) (w : List UInt8) : Prop := 0 ∉ w ∧ ∃ rest, front.drop i = w ++ 0 :: rest

theorem Placed.append (h : Placed front i w) (u : List UInt8) : Placed (front ++ u) i w := by
  obtain ⟨hw, rest, hdrop⟩ := h
  have hi : i ≤ front.length := by
    refine Nat.le_of_not_lt fun hlt => ?_
    rw [List.drop_eq_nil_of_le (Nat.le_of_lt hlt)] at hdrop
    exact absurd hdrop.symm (by simp)
  refine ⟨hw, rest ++ u, ?_⟩
  rw [List.drop_append_of_le_length hi, hdrop, List.append_assoc, List.cons_append]

/-- The buffer holds, behind the words read so far, the word that is being read and the text to come. -/
structure Matches (s : Scan) (t : Tok) (front text : List UInt8) : Prop where
  buffer : ∃ rest, s.buffer = front ++ (t.text ++ (text ++ 0 :: rest))
  size : s.buffer.length = MAX_LINE
  place : s.i = (front ++ t.text).length
  argv : ∃ places, s.argv = places ++ (if t.cur.isSome then [front.length] else []) ∧
    List.Forall₂ (Placed front) places t.words
  inArg : s.inArg = t.cur.isSome
  inEscape : s.inEscape = t.inEscape
  inString : s.inString = t.inString
  within : t.inEscape = true ∨ t.inString ≠ 0 → t.cur.isSome = true
  before : ∀ q ∈ front.getLast?, isQuote q = false
  blank : t.blank = true → front ≠ []
  zero : 0 ∉ t.text ∧ 0 ∉ text
  count : s.argv.length ≤ MAX_ARGC

theorem Matches.argv_length (h : Matches s t front text) : s.argv.length = t.all.length := by
  obtain ⟨places, hargv, hplaced⟩ := h.argv
  unfold Tok.all
  rw [hargv, List.length_append, List.length_append, hplaced.length_eq]
  cases t.cur
  · rfl
  · rfl

variable {u : List UInt8} {q q' : UInt8} {e e' : Bool}

theorem zero_cons (h : 0 ∉ b :: text) : b ≠ 0 ∧ 0 ∉ text := by
  rw [List.mem_cons, not_or] at h
  exact ⟨fun heq => h.1 heq.symm, h.2⟩

/-- **A word begins.** -/
theorem Matches.begin (h : Matches s t front text) (hcur : t.cur = none) (hroom : s.argv.length < MAX_ARGC) :
    Matches { s with argv := s.argv ++ [s.i], inArg := true } { t with cur := some [] } front text := by
  have htext : t.text = [] := by
    unfold Tok.text
    rw [hcur]
    rfl
  obtain ⟨places, hargv, hplaced⟩ := h.argv
  obtain ⟨rest, hbuffer⟩ := h.buffer
  have hplace := h.place
  rw [htext] at hbuffer
  rw [htext, List.append_nil] at hplace
  rw [hcur, if_neg (by decide), List.append_nil] at hargv
  refine ⟨⟨rest, hbuffer⟩, h.size, ?_, ⟨places, ?_, hplaced⟩, rfl, h.inEscape, h.inString, fun _ => rfl, h.before,
    h.blank, ⟨List.not_mem_nil, h.zero.2⟩, by rw [List.length_append, List.length_singleton]; exact hroom⟩
  · show s.i = (front ++ []).length
    rw [List.append_nil, hplace]
  · show s.argv ++ [s.i] = places ++ [front.length]
    rw [hargv, hplace]

/-- **A byte becomes part of the word.** -/
theorem Matches.take (h : Matches s t front (b :: text)) (hcur : t.cur = some u) (he : e' = e) (hq : q' = q) :
    Matches { s with inEscape := e', inString := q', i := s.i + 1 }
      { t with cur := some (u ++ [b]), inEscape := e, inString := q } front text := by
  have htext : t.text = u := by
    unfold Tok.text
    rw [hcur]
    rfl
  obtain ⟨rest, hbuffer⟩ := h.buffer
  have hargv := h.argv
  have hzero := h.zero
  have hplace := h.place
  rw [htext] at hbuffer hzero hplace
  rw [hcur] at hargv
  obtain ⟨hb, hzero'⟩ := zero_cons hzero.2
  refine ⟨⟨rest, ?_⟩, h.size, ?_, hargv, h.inArg.trans (by rw [hcur]; rfl), he, hq, fun _ => rfl, h.before, h.blank,
    ⟨?_, hzero'⟩, h.count⟩
  · show s.buffer = front ++ ((u ++ [b]) ++ (text ++ 0 :: rest))
    rw [hbuffer, List.append_assoc u, List.singleton_append]
    rfl
  · show s.i + 1 = (front ++ (u ++ [b])).length
    rw [hplace, ← List.append_assoc, @List.length_append _ (front ++ u), List.length_singleton]
  · show 0 ∉ u ++ [b]
    rw [List.mem_append, List.mem_singleton]
    exact fun hor => hor.elim hzero.1 fun heq => hb heq.symm

/-- **A byte is taken out**; the word stays as it is. -/
theorem Matches.absorb (h : Matches s t front (b :: text)) (hcur : t.cur.isSome = true) :
    ∃ buffer, absorb s.buffer s.i = some buffer ∧ ∀ e e' q q', e' = e → q' = q →
      Matches { s with buffer := buffer, inEscape := e', inString := q' } { t with inEscape := e, inString := q }
        front text := by
  obtain ⟨rest, hbuffer⟩ := h.buffer
  have hsplit : s.buffer = (front ++ t.text) ++ b :: (text ++ 0 :: rest) := by
    rw [hbuffer, List.append_assoc]
    rfl
  have hsize := h.size
  rw [hsplit] at hsize
  obtain ⟨x, habsorb⟩ := absorb_eq hsize
  refine ⟨_, by rw [hsplit, h.place]; exact habsorb, fun e e' q q' he hq => ⟨⟨rest ++ [x], ?_⟩, ?_, h.place, h.argv,
    h.inArg, he, hq, fun _ => hcur, h.before, h.blank, ⟨h.zero.1, (zero_cons h.zero.2).2⟩, h.count⟩⟩
  · show (front ++ t.text) ++ ((text ++ 0 :: rest) ++ [x]) = front ++ (t.text ++ (text ++ 0 :: (rest ++ [x])))
    simp only [List.append_assoc, List.cons_append]
  · rw [← hsize]
    simp only [List.length_append, List.length_cons, List.length_nil]

/-- **A word ends**: its NUL stands for the white space. -/
theorem Matches.close (h : Matches s t front (b :: text)) (hcur : t.cur = some u) (hescape : t.inEscape = false)
    (hstring : t.inString = 0) :
    ∃ buffer, store s.buffer s.i 0 = some buffer ∧
      Matches { s with buffer := buffer, inArg := false, i := s.i + 1 }
        { t with words := t.words ++ [u], cur := none, blank := true } (front ++ (u ++ [0])) text := by
  have htext : t.text = u := by
    unfold Tok.text
    rw [hcur]
    rfl
  obtain ⟨rest, hbuffer⟩ := h.buffer
  obtain ⟨places, hargv, hplaced⟩ := h.argv
  have hzero := h.zero
  have hplace := h.place
  rw [htext] at hbuffer hzero hplace
  rw [hcur, if_pos (show (some u).isSome = true from rfl)] at hargv
  have hsplit : s.buffer = (front ++ u) ++ b :: (text ++ 0 :: rest) := by
    rw [hbuffer, List.append_assoc]
    rfl
  have hword : Placed (front ++ (u ++ [0])) front.length u := ⟨hzero.1, [], List.drop_left⟩
  refine ⟨_, by rw [hsplit, hplace]; exact store_append, ⟨rest, ?_⟩, ?_, ?_, ⟨places ++ [front.length], ?_, ?_⟩, rfl,
    h.inEscape, h.inString, ?_, ?_, fun _ => by simp, ⟨List.not_mem_nil, (zero_cons hzero.2).2⟩, h.count⟩
  · show (front ++ u) ++ 0 :: (text ++ 0 :: rest) = (front ++ (u ++ [0])) ++ (text ++ 0 :: rest)
    simp only [List.append_assoc, List.cons_append, List.nil_append]
  · have hsize := h.size
    rw [hsplit, List.length_append, List.length_cons] at hsize
    show ((front ++ u) ++ 0 :: (text ++ 0 :: rest)).length = MAX_LINE
    rw [List.length_append, List.length_cons, hsize]
  · show s.i + 1 = ((front ++ (u ++ [0])) ++ []).length
    rw [hplace, List.append_nil, ← List.append_assoc, @List.length_append _ (front ++ u), List.length_singleton]
  · show s.argv = (places ++ [front.length]) ++ []
    rw [hargv, List.append_nil]
  · exact List.rel_append (hplaced.imp fun _ _ hp => hp.append _) (.cons hword .nil)
  · rintro (hon | hon)
    · exact absurd (hescape.symm.trans hon) Bool.false_ne_true
    · exact absurd hstring hon
  · intro q hq
    rw [← List.append_assoc, List.getLast?_concat] at hq
    obtain rfl := Option.some.inj hq
    rfl

/-- **White space** between two words. -/
theorem Matches.skip (h : Matches s t front (b :: text)) (hcur : t.cur = none) (hb : isQuote b = false) :
    Matches { s with i := s.i + 1 } { t with blank := true } (front ++ [b]) text := by
  have htext : t.text = [] := by
    unfold Tok.text
    rw [hcur]
    rfl
  obtain ⟨rest, hbuffer⟩ := h.buffer
  obtain ⟨places, hargv, hplaced⟩ := h.argv
  have hplace := h.place
  rw [htext] at hbuffer hplace
  refine ⟨⟨rest, ?_⟩, h.size, ?_, ⟨places, ?_, hplaced.imp fun _ _ hp => hp.append _⟩, h.inArg, h.inEscape,
    h.inString, h.within, ?_, fun _ => by simp, ⟨h.zero.1, (zero_cons h.zero.2).2⟩, h.count⟩
  · show s.buffer = (front ++ [b]) ++ (t.text ++ (text ++ 0 :: rest))
    rw [hbuffer, htext, List.append_assoc]
    rfl
  · show s.i + 1 = ((front ++ [b]) ++ t.text).length
    rw [hplace, htext, List.append_nil, List.append_nil, List.length_append, List.length_singleton]
  · rw [hcur] at hargv ⊢
    exact hargv
  · intro q hq
    rw [List.getLast?_concat] at hq
    obtain rfl := Option.some.inj hq
    exact hb

/-! ## The loop -/

theorem isQuote_of_whitespace (h : isWhitespace b = true) : isQuote b = false := by
  unfold isWhitespace at h
  simp only [Bool.or_eq_true, beq_iff_eq] at h
  rcases h with ((rfl | rfl) | rfl) | rfl
  · rfl
  · rfl
  · rfl
  · rfl

/-- A test for a quote on another byte. -/
theorem quote_other {ch : UInt8} (h : s.buffer[i]? = some ch) (hch : isQuote ch = false) :
    s.quote i = some { s with i := i + 1 } := by
  unfold Scan.quote
  rw [h]
  simp only [Option.bind_eq_bind, Option.bind_some, hch, Bool.false_eq_true, if_false]

theorem Tok.text_some (h : t.cur = some u) : t.text = u := by
  unfold Tok.text
  rw [h]
  rfl

theorem Tok.text_none (h : t.cur = none) : t.text = [] := by
  unfold Tok.text
  rw [h]
  rfl

theorem Tok.next_escape (hescape : t.inEscape = true) :
    t.next b = { t with inEscape := false, cur := some (t.text ++ [b]) } := if_pos hescape

theorem Tok.next_string (hescape : t.inEscape = false) (hstring : t.inString ≠ 0) :
    t.next b = if b = t.inString then { t with inString := 0 } else { t with cur := some (t.text ++ [b]) } := by
  unfold Tok.next
  rw [if_neg (by rw [hescape]; exact Bool.false_ne_true), if_pos hstring]

theorem Tok.next_blank (hescape : t.inEscape = false) (hstring : t.inString = 0) (hblank : isWhitespace b = true) :
    t.next b = { t with words := t.words ++ t.cur.toList, cur := none, blank := true } := by
  unfold Tok.next
  rw [if_neg (by rw [hescape]; exact Bool.false_ne_true), if_neg (not_not_intro hstring), if_pos hblank]

theorem Tok.next_slash (hescape : t.inEscape = false) (hstring : t.inString = 0) :
    t.next 92 = { t with cur := some t.text, inEscape := true } := by
  unfold Tok.next
  rw [if_neg (by rw [hescape]; exact Bool.false_ne_true), if_neg (by rw [hstring]; exact fun hne => hne rfl)]
  rfl

theorem Tok.next_plain (hescape : t.inEscape = false) (hstring : t.inString = 0) (hblank : isWhitespace b = false)
    (hslash : b ≠ 92) :
    t.next b = if isQuote b then { t with cur := some t.text, inString := b }
      else { t with cur := some (t.text ++ [b]) } := by
  unfold Tok.next
  rw [if_neg (by rw [hescape]; exact Bool.false_ne_true), if_neg (by rw [hstring]; exact fun hne => hne rfl),
    if_neg (by rw [hblank]; exact Bool.false_ne_true), if_neg hslash]

/-- The first byte of a word. -/
theorem Tok.next_begin (hcur : t.cur = none) (hescape : t.inEscape = false) (hstring : t.inString = 0)
    (hblank : isWhitespace b = false) : Tok.next { t with cur := some [] } b = t.next b := by
  by_cases hslash : b = 92
  · rw [hslash, Tok.next_slash hescape hstring, Tok.next_slash (t := { t with cur := some [] }) hescape hstring,
      Tok.text_none hcur]
    rfl
  · rw [Tok.next_plain hescape hstring hblank hslash,
      Tok.next_plain (t := { t with cur := some [] }) hescape hstring hblank hslash, Tok.text_none hcur]
    rfl

theorem Matches.byte (h : Matches s t front (b :: text)) : s.buffer[s.i]? = some b := by
  obtain ⟨rest, hbuffer⟩ := h.buffer
  rw [h.place, hbuffer, ← List.append_assoc, List.getElem?_append_right (Nat.le_refl _), Nat.sub_self]
  rfl

/-- The byte before the next one. -/
theorem Matches.byte_before (h : Matches s t front text) (hne : front ++ t.text ≠ []) :
    ∃ q, s.i = (s.i - 1) + 1 ∧ s.buffer[s.i - 1]? = some q ∧ (front ++ t.text).getLast? = some q := by
  obtain ⟨rest, hbuffer⟩ := h.buffer
  obtain ⟨u, q, hu⟩ := (List.eq_nil_or_concat' (front ++ t.text)).resolve_left hne
  have hplace := h.place
  rw [hu, List.length_append, List.length_singleton] at hplace
  refine ⟨q, by omega, ?_, by rw [hu, List.getLast?_concat]⟩
  rw [hbuffer, ← List.append_assoc, hu, hplace, Nat.add_sub_cancel, List.append_assoc,
    List.getElem?_append_right (Nat.le_refl _), Nat.sub_self]
  rfl

/-- **A byte of a word.** -/
theorem word_matches (h : Matches s t front (b :: text)) (hcur : t.cur = some u) (hsafe : t.Safe b)
    (hescape : t.inEscape = false) (hstring : t.inString = 0) (hblank : isWhitespace b = false) :
    ∃ s', s.word b = some s' ∧ Matches s' (t.next b) front text := by
  have htext : t.text = u := by
    unfold Tok.text
    rw [hcur]
    rfl
  unfold Scan.word
  by_cases hslash : b = 92
  · rw [if_pos hslash]
    subst hslash
    obtain ⟨hbegun, hlast⟩ := hsafe rfl hescape hstring
    obtain ⟨buffer, habsorb, hmatches⟩ := h.absorb (by rw [hcur]; rfl)
    have hafter := hmatches true true t.inString s.inString rfl h.inString
    have hne : front ++ t.text ≠ [] := by
      intro hnil
      obtain ⟨hfront, hword⟩ := List.append_eq_nil_iff.1 hnil
      exact h.blank (hbegun hword) hfront
    obtain ⟨q, hi, hbyte, hq⟩ := hafter.byte_before hne
    have hq' : (front ++ t.text).getLast? = some q := hq
    have hquote : isQuote q = false := by
      rcases List.eq_nil_or_concat' t.text with hnil | ⟨v, x, hv⟩
      · rw [hnil, List.append_nil] at hq'
        exact h.before q hq'
      · rw [hv, ← List.append_assoc, List.getLast?_concat] at hq'
        exact hlast q (by rw [hv, List.getLast?_concat]; exact hq')
    have hnext : Scan.quote { s with buffer := buffer, inEscape := true } (s.i - 1) =
        some { s with buffer := buffer, inEscape := true, i := s.i - 1 + 1 } := quote_other hbyte hquote
    have hzero : s.i ≠ 0 := by
      have hi' : s.i = s.i - 1 + 1 := hi
      omega
    have hi' : s.i - 1 + 1 = s.i := hi.symm
    rw [hi'] at hnext
    simp only [habsorb, Option.bind_eq_bind, Option.bind_some, if_neg hzero, hnext]
    refine ⟨_, rfl, ?_⟩
    rw [Tok.next_slash hescape hstring, htext, ← hcur]
    exact hafter
  · rw [if_neg hslash, Tok.next_plain hescape hstring hblank hslash, htext]
    by_cases hquote : isQuote b = true
    · rw [if_pos hquote, ← hcur]
      obtain ⟨buffer, habsorb, hmatches⟩ := h.absorb (by rw [hcur]; rfl)
      refine ⟨{ s with buffer := buffer, inString := b }, ?_, hmatches t.inEscape s.inEscape b b h.inEscape rfl⟩
      unfold Scan.quote
      simp only [h.byte, habsorb, Option.bind_eq_bind, Option.bind_some, hquote, if_true]
    · rw [if_neg hquote, quote_other h.byte (Bool.eq_false_iff.2 hquote)]
      exact ⟨_, rfl, h.take hcur h.inEscape h.inString⟩

/-- **A round**: the loop is left for an eleventh word, or it follows the byte. -/
theorem round_matches (h : Matches s t front (b :: text)) (hsafe : t.Safe b) :
    (s.round b = some none ∧ t.cur = none ∧ MAX_ARGC ≤ t.words.length) ∨
      ∃ s' front', s.round b = some (some s') ∧ Matches s' (t.next b) front' text := by
  unfold Scan.round
  rcases Bool.eq_false_or_eq_true t.inEscape with hescape | hescape
  · obtain ⟨u, hcur⟩ := Option.isSome_iff_exists.1 (h.within (Or.inl hescape))
    have htaken := h.take hcur (rfl : false = false) h.inString
    rw [if_pos (h.inEscape.trans hescape)]
    refine Or.inr ⟨_, front, rfl, ?_⟩
    rw [Tok.next_escape hescape, Tok.text_some hcur]
    exact htaken
  rw [if_neg (by rw [h.inEscape, hescape]; exact Bool.false_ne_true)]
  by_cases hstring : t.inString = 0
  · rw [if_neg (not_not_intro (h.inString.trans hstring))]
    rcases Bool.eq_false_or_eq_true (isWhitespace b) with hblank | hblank
    · -- white space
      rw [if_pos hblank, Tok.next_blank hescape hstring hblank]
      cases hcur : t.cur with
      | none =>
        have hskip := h.skip hcur (isQuote_of_whitespace hblank)
        refine Or.inr ⟨_, front ++ [b], if_neg (by rw [h.inArg, hcur]; exact Bool.false_ne_true), ?_⟩
        rw [Option.toList_none, List.append_nil, ← hcur]
        exact hskip
      | some u =>
        obtain ⟨buffer, hstore, hclose⟩ := h.close hcur hescape hstring
        refine Or.inr ⟨_, _, ?_, hclose⟩
        rw [if_pos (by rw [h.inArg, hcur]; rfl), hstore]
        rfl
    · -- a word, which may begin here
      rw [if_neg (by rw [hblank]; exact Bool.false_ne_true)]
      cases hcur : t.cur with
      | none =>
        rw [if_neg (by rw [h.inArg, hcur]; exact Bool.false_ne_true)]
        by_cases hroom : s.argv.length < MAX_ARGC
        · have hbegun := h.begin hcur hroom
          have htext := Tok.text_none hcur
          have hsafe' : Tok.Safe { t with cur := some [] } b := by
            intro hb he hs
            obtain ⟨hblank', hlast⟩ := hsafe hb he hs
            exact ⟨fun _ => hblank' htext, fun q hq => absurd hq (by simp [Tok.text])⟩
          obtain ⟨s', hword, hmatches⟩ := word_matches hbegun rfl hsafe' hescape hstring hblank
          rw [Tok.next_begin hcur hescape hstring hblank] at hmatches
          refine Or.inr ⟨s', front, ?_, hmatches⟩
          rw [if_neg (by omega), hword]
          rfl
        · have hcount := h.argv_length
          unfold Tok.all at hcount
          rw [hcur, Option.toList_none, List.append_nil] at hcount
          exact Or.inl ⟨if_pos (by omega), rfl, by omega⟩
      | some u =>
        obtain ⟨s', hword, hmatches⟩ := word_matches h hcur hsafe hescape hstring hblank
        refine Or.inr ⟨s', front, ?_, hmatches⟩
        rw [if_pos (by rw [h.inArg, hcur]; rfl), hword]
        rfl
  · -- in a string
    obtain ⟨u, hcur⟩ := Option.isSome_iff_exists.1 (h.within (Or.inr hstring))
    rw [if_pos (by rw [h.inString]; exact hstring), Tok.next_string hescape hstring, Tok.text_some hcur]
    by_cases hend : b = t.inString
    · obtain ⟨buffer, habsorb, hmatches⟩ := h.absorb (by rw [hcur]; rfl)
      rw [if_pos hend, if_pos (hend.trans h.inString.symm), habsorb]
      exact Or.inr ⟨_, front, rfl, hmatches t.inEscape s.inEscape 0 0 h.inEscape rfl⟩
    · rw [if_neg hend, if_neg (by rw [h.inString]; exact hend)]
      exact Or.inr ⟨_, front, rfl, h.take hcur h.inEscape h.inString⟩

theorem words_next (t : Tok) (b : UInt8) : t.words <+: (t.next b).words := by
  unfold Tok.next
  split
  · exact List.prefix_refl _
  split
  · split
    · exact List.prefix_refl _
    · exact List.prefix_refl _
  split
  · exact List.prefix_append _ _
  split
  · exact List.prefix_refl _
  split
  · exact List.prefix_refl _
  · exact List.prefix_refl _

theorem words_foldl (t : Tok) (text : List UInt8) : t.words <+: (text.foldl Tok.next t).words := by
  induction text generalizing t with
  | nil => exact List.prefix_refl _
  | cons b text ih => exact (words_next t b).trans (ih (t.next b))

/-- **The loop** ends, with all words or with ten of them. -/
theorem loop_matches {fuel : ℕ} (hfuel : text.length < fuel) (h : Matches s t front text) (hsafe : SafeAlong t text) :
    ∃ s' t' front' text', s.loop fuel = some s' ∧ Matches s' t' front' text' ∧
      ((text' = [] ∧ t' = text.foldl Tok.next t) ∨
        (t'.cur = none ∧ MAX_ARGC ≤ t'.words.length ∧ t'.words <+: (text.foldl Tok.next t).words)) := by
  induction text generalizing fuel s t front with
  | nil =>
    obtain ⟨fuel, rfl⟩ : ∃ k, fuel = k + 1 := ⟨fuel - 1, by omega⟩
    obtain ⟨rest, hbuffer⟩ := h.buffer
    refine ⟨s, t, front, [], ?_, h, Or.inl ⟨rfl, rfl⟩⟩
    unfold Scan.loop
    split
    · have hbyte : s.buffer[s.i]? = some 0 := by
        rw [h.place, hbuffer, ← List.append_assoc, List.getElem?_append_right (Nat.le_refl _), Nat.sub_self]
        rfl
      rw [hbyte]
      rfl
    · rfl
  | cons b text ih =>
    obtain ⟨fuel, rfl⟩ : ∃ k, fuel = k + 1 := ⟨fuel - 1, by omega⟩
    rw [List.length_cons] at hfuel
    have hbyte := h.byte
    have hroom : s.i < MAX_LINE := by
      rw [← h.size]
      exact (List.getElem?_eq_some_iff.1 hbyte).1
    have hb := (zero_cons h.zero.2).1
    rcases round_matches h hsafe.1 with ⟨hround, hcur, hten⟩ | ⟨s₁, front₁, hround, hmatches⟩
    · refine ⟨s, t, front, b :: text, ?_, h, Or.inr ⟨hcur, hten, words_foldl t (b :: text)⟩⟩
      unfold Scan.loop
      simp only [if_pos hroom, hbyte, Option.bind_eq_bind, Option.bind_some, if_neg hb, hround]
    · obtain ⟨s', t', front', text', hloop, hresult⟩ := ih (Nat.lt_of_succ_lt_succ hfuel) hmatches hsafe.2
      refine ⟨s', t', front', text', ?_, hresult⟩
      unfold Scan.loop
      simp only [if_pos hroom, hbyte, Option.bind_eq_bind, Option.bind_some, if_neg hb, hround]
      exact hloop

/-- Nothing has been read. -/
def Tok.start : Tok where
  words := []
  cur := none
  inEscape := false
  inString := 0
  blank := false

/-- Where the words are, each behind its place. -/
theorem Matches.strings (h : Matches s t front text) (hend : text = [] ∨ t.cur = none) :
    List.Forall₂ (fun i w => str s.buffer i = some w) s.argv t.all := by
  obtain ⟨rest, hbuffer⟩ := h.buffer
  obtain ⟨places, hargv, hplaced⟩ := h.argv
  have hwords : List.Forall₂ (fun i w => str s.buffer i = some w) places t.words := by
    refine hplaced.imp fun i w hp => ?_
    rw [hbuffer]
    obtain ⟨hw, rest', hdrop⟩ := hp.append (t.text ++ (text ++ 0 :: rest))
    exact str_drop hw hdrop
  unfold Tok.all
  cases hcur : t.cur with
  | none =>
    rw [hcur, if_neg (by exact Bool.false_ne_true), List.append_nil] at hargv
    rw [hargv, Option.toList_none, List.append_nil]
    exact hwords
  | some u =>
    have htext : text = [] := hend.resolve_right (by rw [hcur]; exact Option.some_ne_none u)
    rw [hcur, if_pos (by exact rfl)] at hargv
    rw [hargv]
    have hzero := h.zero.1
    rw [Tok.text_some hcur, htext] at hbuffer
    rw [Tok.text_some hcur] at hzero
    refine List.rel_append hwords (.cons ?_ .nil)
    rw [hbuffer]
    exact str_append hzero

/-- **The words of any line**, of which at most nine are given. -/
theorem argc_tokens {c : EmbeddedCli} (hdone : c.done = true) (hsize : c.buffer.length = MAX_LINE)
    (hline : str c.buffer 0 = some text) (hsafe : SafeAlong .start text) :
    ∃ buffer argv, c.argc = some ({ c with buffer := buffer }, argv) ∧ buffer.length = MAX_LINE ∧
      List.Forall₂ (fun i w => str buffer i = some w) argv ((text.foldl Tok.next .start).all.take (MAX_ARGC - 1)) := by
  obtain ⟨hzero, rest, hsplit⟩ := str_spec hline
  rw [List.drop_zero] at hsplit
  have hstart : Matches { buffer := c.buffer, i := 0, argv := [], inArg := false, inEscape := false, inString := 0 }
      .start [] text :=
    ⟨⟨rest, hsplit⟩, hsize, rfl, ⟨[], rfl, .nil⟩, rfl, rfl, rfl, fun hor => absurd hor (by decide),
      fun q hq => absurd hq (by simp), fun hno => absurd hno Bool.false_ne_true, ⟨List.not_mem_nil, hzero⟩,
      Nat.zero_le _⟩
  have hfuel : text.length < MAX_LINE := by
    rw [← hsize, hsplit, List.length_append, List.length_cons]
    omega
  obtain ⟨s, t, front, text', hloop, hmatches, hend⟩ := loop_matches hfuel hstart hsafe
  have hstrings := hmatches.strings (hend.imp And.left And.left)
  have hcount := hmatches.count
  have hlast : (if s.argv.length ≥ MAX_ARGC then s.argv.dropLast else s.argv) = s.argv.take (MAX_ARGC - 1) := by
    split
    · rw [List.dropLast_eq_take]
      congr 1
      omega
    · rw [List.take_of_length_le (by omega)]
  have htake : t.all.take (MAX_ARGC - 1) = (text.foldl Tok.next .start).all.take (MAX_ARGC - 1) := by
    rcases hend with ⟨-, rfl⟩ | ⟨hcur, hten, hprefix⟩
    · rfl
    · obtain ⟨more, hmore⟩ := hprefix
      unfold Tok.all
      rw [hcur, Option.toList_none, List.append_nil, ← hmore, List.append_assoc,
        List.take_append_of_le_length (by omega)]
  refine ⟨s.buffer, s.argv.take (MAX_ARGC - 1), ?_, hmatches.size, ?_⟩
  · unfold EmbeddedCli.argc
    rw [if_pos hdone]
    simp only [hloop, Option.bind_eq_bind, Option.bind_some, hlast]
  · rw [← htake]
    exact List.forall₂_take _ hstrings

/-! ## Lines that are written for words -/

/-- A byte, a byte behind a backslash, or bytes between quotes. -/
inductive Piece
  | plain (b : UInt8)
  | escaped (b : UInt8)
  | quoted (q : UInt8) (s : List UInt8)
  deriving DecidableEq, Repr

def Piece.bytes : Piece → List UInt8
  | plain b => [b]
  | escaped b => [92, b]
  | quoted q s => q :: (s ++ [q])

def Piece.value : Piece → List UInt8
  | plain b => [b]
  | escaped b => [b]
  | quoted _ s => s

/-- What can be written so, behind a text of the word. -/
def Piece.Ok (blank : Bool) (before : List UInt8) : Piece → Prop
  | plain b => b ≠ 0 ∧ isWhitespace b = false ∧ b ≠ 92 ∧ isQuote b = false
  | escaped b => b ≠ 0 ∧ (before = [] → blank = true) ∧ ∀ q ∈ before.getLast?, isQuote q = false
  | quoted q s => isQuote q = true ∧ q ∉ s ∧ 0 ∉ s

def wordText (w : List Piece) : List UInt8 := w.flatMap Piece.bytes

def wordValue (w : List Piece) : List UInt8 := w.flatMap Piece.value

/-- A word is written with such pieces. -/
def Written (blank : Bool) : List UInt8 → List Piece → Prop
  | _, [] => True
  | before, p :: w => p.Ok blank before ∧ Written blank (before ++ p.value) w

/-- A line is written for words, with white space between them; `blank` tells whether some comes before it. -/
inductive Reads : Bool → List UInt8 → List (List UInt8) → Prop
  | nil (blank : Bool) : Reads blank [] []
  | space (blank : Bool) (b : UInt8) (text : List UInt8) (ws : List (List UInt8)) : isWhitespace b = true →
      Reads true text ws → Reads blank (b :: text) ws
  | last (blank : Bool) (w : List Piece) : w ≠ [] → Written blank [] w → Reads blank (wordText w) [wordValue w]
  | word (blank : Bool) (w : List Piece) (b : UInt8) (text : List UInt8) (ws : List (List UInt8)) : w ≠ [] →
      Written blank [] w → isWhitespace b = true → Reads true text ws →
      Reads blank (wordText w ++ b :: text) (wordValue w :: ws)

theorem safeAlong_append (t : Tok) (u v : List UInt8) :
    SafeAlong t (u ++ v) ↔ SafeAlong t u ∧ SafeAlong (u.foldl Tok.next t) v := by
  induction u generalizing t with
  | nil =>
    show SafeAlong t v ↔ True ∧ SafeAlong t v
    rw [true_and]
  | cons b u ih =>
    show t.Safe b ∧ SafeAlong (t.next b) (u ++ v) ↔ _
    rw [ih]
    exact and_assoc.symm

/-- The bytes between quotes. -/
theorem string_foldl (hescape : t.inEscape = false) (hstring : t.inString ≠ 0) (hquote : t.inString ∉ u)
    (hcur : t.cur.isSome = true) :
    SafeAlong t u ∧ u.foldl Tok.next t = { t with cur := some (t.text ++ u) } := by
  induction u generalizing t with
  | nil =>
    obtain ⟨v, hv⟩ := Option.isSome_iff_exists.1 hcur
    refine ⟨trivial, ?_⟩
    show t = _
    rw [List.append_nil, Tok.text_some hv, ← hv]
  | cons b u ih =>
    rw [List.mem_cons, not_or] at hquote
    have hnext : t.next b = { t with cur := some (t.text ++ [b]) } := by
      rw [Tok.next_string hescape hstring, if_neg fun heq => hquote.1 heq.symm]
    obtain ⟨hsafe, hfold⟩ := ih (t := { t with cur := some (t.text ++ [b]) }) hescape hstring hquote.2 rfl
    refine ⟨⟨fun _ _ hno => absurd hno hstring, by rw [hnext]; exact hsafe⟩, ?_⟩
    rw [List.foldl_cons, hnext, hfold]
    show { t with cur := some ((t.text ++ [b]) ++ u) } = _
    rw [List.append_assoc, List.singleton_append]

theorem quote_facts (h : isQuote q = true) : q ≠ 0 ∧ q ≠ 92 ∧ isWhitespace q = false := by
  unfold isQuote at h
  rw [Bool.or_eq_true, beq_iff_eq, beq_iff_eq] at h
  rcases h with rfl | rfl
  · decide
  · decide

/-- **A piece** adds its value to the word. -/
theorem piece_foldl {p : Piece} (hescape : t.inEscape = false) (hstring : t.inString = 0) (hp : p.Ok t.blank t.text) :
    SafeAlong t p.bytes ∧ p.bytes.foldl Tok.next t = { t with cur := some (t.text ++ p.value) } := by
  cases p with
  | plain b =>
    obtain ⟨-, hblank, hslash, hquote⟩ := hp
    refine ⟨⟨fun heq => absurd heq hslash, trivial⟩, ?_⟩
    show t.next b = _
    rw [Tok.next_plain hescape hstring hblank hslash, if_neg (by rw [hquote]; exact Bool.false_ne_true)]
    rfl
  | escaped b =>
    obtain ⟨-, hbegun, hlast⟩ := hp
    refine ⟨⟨fun _ _ _ => ⟨hbegun, hlast⟩, ?_, trivial⟩, ?_⟩
    · rw [Tok.next_slash hescape hstring]
      exact fun _ hno => absurd hno Bool.noConfusion
    · show (t.next 92).next b = _
      rw [Tok.next_slash hescape hstring, Tok.next_escape rfl]
      show { t with cur := some (t.text ++ [b]), inEscape := false } = { t with cur := some (t.text ++ [b]) }
      rw [hescape]
  | quoted q s =>
    obtain ⟨hq, hs, -⟩ := hp
    obtain ⟨hzero, hslash, hblank⟩ := quote_facts hq
    have hopen : t.next q = { t with cur := some t.text, inString := q } := by
      rw [Tok.next_plain hescape hstring hblank hslash, if_pos hq]
    obtain ⟨hsafe, hfold⟩ := string_foldl (t := { t with cur := some t.text, inString := q }) hescape hzero hs rfl
    have hclose : (s ++ [q]).foldl Tok.next { t with cur := some t.text, inString := q } =
        { t with cur := some (t.text ++ s) } := by
      rw [List.foldl_append, hfold]
      show Tok.next { t with cur := some (t.text ++ s), inString := q } q = _
      rw [Tok.next_string (t := { t with cur := some (t.text ++ s), inString := q }) hescape hzero, if_pos rfl]
      show { t with cur := some (t.text ++ s), inString := 0 } = { t with cur := some (t.text ++ s) }
      rw [hstring]
    refine ⟨⟨fun heq => absurd heq hslash, ?_⟩, ?_⟩
    · rw [hopen, safeAlong_append, hfold]
      exact ⟨hsafe, fun heq => absurd heq hslash, trivial⟩
    · show (s ++ [q]).foldl Tok.next (t.next q) = _
      rw [hopen, hclose]
      rfl

/-- A word. -/
theorem word_foldl {p : List Piece} (hescape : t.inEscape = false) (hstring : t.inString = 0)
    (hcur : p = [] → t.cur.isSome = true) (hp : Written t.blank t.text p) :
    SafeAlong t (wordText p) ∧ (wordText p).foldl Tok.next t = { t with cur := some (t.text ++ wordValue p) } := by
  induction p generalizing t with
  | nil =>
    obtain ⟨v, hv⟩ := Option.isSome_iff_exists.1 (hcur rfl)
    refine ⟨trivial, ?_⟩
    show t = { t with cur := some (t.text ++ []) }
    rw [List.append_nil, Tok.text_some hv, ← hv]
  | cons p ps ih =>
    obtain ⟨hfirst, hrest⟩ := hp
    obtain ⟨hsafe, hfold⟩ := piece_foldl hescape hstring hfirst
    obtain ⟨hsafe', hfold'⟩ := ih (t := { t with cur := some (t.text ++ p.value) }) hescape hstring (fun _ => rfl) hrest
    show SafeAlong t (p.bytes ++ wordText ps) ∧ (p.bytes ++ wordText ps).foldl Tok.next t = _
    rw [safeAlong_append, List.foldl_append, hfold, hfold']
    refine ⟨⟨hsafe, hsafe'⟩, ?_⟩
    show { t with cur := some ((t.text ++ p.value) ++ wordValue ps) } =
      { t with cur := some (t.text ++ (p.value ++ wordValue ps)) }
    rw [List.append_assoc]

/-- **A line that is written for words** has them. -/
theorem reads_foldl {blank : Bool} {ws : List (List UInt8)} (h : Reads blank text ws) (hescape : t.inEscape = false)
    (hstring : t.inString = 0) (hcur : t.cur = none) (hblank : t.blank = blank) :
    SafeAlong t text ∧ (text.foldl Tok.next t).all = t.words ++ ws := by
  induction h generalizing t with
  | nil blank =>
    refine ⟨trivial, ?_⟩
    show t.words ++ t.cur.toList = t.words ++ []
    rw [hcur]
    rfl
  | space blank b text ws hb _ ih =>
    have hnext := Tok.next_blank hescape hstring hb
    obtain ⟨hsafe, hall⟩ := ih (t := t.next b) (by rw [hnext]; exact hescape) (by rw [hnext]; exact hstring)
      (by rw [hnext]) (by rw [hnext])
    refine ⟨⟨fun heq => ?_, hsafe⟩, ?_⟩
    · rw [heq] at hb
      exact absurd hb (by decide)
    · rw [List.foldl_cons, hall, hnext, hcur]
      show (t.words ++ []) ++ ws = _
      rw [List.append_nil]
  | last blank w hne hw =>
    obtain ⟨hsafe, hfold⟩ := word_foldl hescape hstring (fun hnil => absurd hnil hne)
      (by rw [hblank, Tok.text_none hcur]; exact hw)
    refine ⟨hsafe, ?_⟩
    rw [hfold, Tok.text_none hcur]
    rfl
  | word blank w b text ws hne hw hb _ ih =>
    have htext := Tok.text_none hcur
    obtain ⟨hsafe, hfold⟩ := word_foldl hescape hstring (fun hnil => absurd hnil hne) (by rw [hblank, htext]; exact hw)
    rw [htext, List.nil_append] at hfold
    have hnext := Tok.next_blank (t := { t with cur := some (wordValue w) }) hescape hstring hb
    obtain ⟨hsafe', hall⟩ := ih (t := Tok.next { t with cur := some (wordValue w) } b)
      (by rw [hnext]; exact hescape) (by rw [hnext]; exact hstring) (by rw [hnext]) (by rw [hnext])
    rw [safeAlong_append, List.foldl_append, hfold, List.foldl_cons, hall, hnext]
    rw [hnext] at hsafe'
    refine ⟨⟨hsafe, fun heq => ?_, by rw [hnext]; exact hsafe'⟩, ?_⟩
    · rw [heq] at hb
      exact absurd hb (by decide)
    · show (t.words ++ [wordValue w]) ++ ws = _
      rw [List.append_assoc]
      rfl

/-- **The words are read back.** A line written for words, with white space between them and quotes and backslashes in
them, gives `embedded_cli_argc` these words, the first nine if there are more; it stays in the buffer. No backslash may
come first in the line or right behind a quote that is part of a word. -/
theorem argc_reads {c : EmbeddedCli} {ws : List (List UInt8)} (hdone : c.done = true)
    (hsize : c.buffer.length = MAX_LINE) (hline : str c.buffer 0 = some text) (hreads : Reads false text ws) :
    ∃ buffer argv, c.argc = some ({ c with buffer := buffer }, argv) ∧ buffer.length = MAX_LINE ∧
      List.Forall₂ (fun i w => str buffer i = some w) argv (ws.take 9) := by
  obtain ⟨hsafe, hall⟩ := reads_foldl (t := .start) hreads rfl rfl rfl rfl
  obtain ⟨buffer, argv, hargc, hlen, hstrings⟩ := argc_tokens hdone hsize hline hsafe
  refine ⟨buffer, argv, hargc, hlen, ?_⟩
  rw [hall] at hstrings
  exact hstrings

/-- An editor with the finished line `a "b c"\ d`. -/
def quotedLine : EmbeddedCli :=
  { EmbeddedCli.init [] with
    buffer := [97, 32, 34, 98, 32, 99, 34, 92, 32, 100] ++ List.replicate (MAX_LINE - 10) 0, done := true }

theorem argc_reads_two :
    ∃ buffer argv, quotedLine.argc = some ({ quotedLine with buffer := buffer }, argv) ∧ buffer.length = MAX_LINE ∧
      List.Forall₂ (fun i w => str buffer i = some w) argv [[97], [98, 32, 99, 32, 100]] := by
  have hword : Written true [] [.quoted 34 [98, 32, 99], .escaped 32, .plain 100] := by
    refine ⟨?_, ?_, ?_, trivial⟩
    · exact ⟨rfl, by decide, by decide⟩
    · refine ⟨by decide, fun hnil => absurd hnil (by decide), fun q hq => ?_⟩
      obtain rfl : 99 = q := Option.some.inj hq
      rfl
    · exact ⟨by decide, rfl, by decide, rfl⟩
  have hreads : Reads false [97, 32, 34, 98, 32, 99, 34, 92, 32, 100] [[97], [98, 32, 99, 32, 100]] :=
    .word false [.plain 97] 32 _ _ (by decide) ⟨⟨by decide, rfl, by decide, rfl⟩, trivial⟩ rfl
      (.last true _ (by decide) hword)
  exact argc_reads rfl (by decide) (by decide +kernel) hreads

end Br2Efinix.Cli
