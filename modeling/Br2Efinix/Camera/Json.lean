import Mathlib.Algebra.Ring.Int.Defs
import Mathlib.Data.List.TakeWhile
import Br2Efinix.Lib.Decimal

/-!
# The requests of the camera demo

`parse_json`, `get_json_value` and `get_json_value_int`, as `handle_request` calls them with a buffer of 256 bytes and
`on_load` with one of 1024. A read or a write outside a buffer has no result.

* `requestInt_eq`: the path on any body, in one equation.
* `requestInt_form`: what it gives for a body with one key and a number.
* `request_right_iff`: **the path stays in its buffers and yields the number** exactly for these bodies.
-/

namespace Br2Efinix.Camera

/-! ## The program -/

/-- `strncpy(buf, src, n)` of the `n` bytes `src`. -/
def strncpy (buf src : List UInt8) : Option (List UInt8) :=
  let text := src.takeWhile (· != 0)
  if src.length ≤ buf.length then some (text ++ List.replicate (src.length - text.length) 0 ++ buf.drop src.length)
  else none

/-- `while(json[++i] != c);` from `i = 0` on: the index that it ends at. -/
def scan (json : List UInt8) (c : UInt8) : Option ℕ := ((json.drop 1).findIdx? (· == c)).map (· + 1)

/-- `snprintf(value, size, "%s", &json[start])` -/
def snprintf (value : List UInt8) (size : ℤ) (json : List UInt8) (start : ℕ) : Option (List UInt8) :=
  let str := (json.drop start).takeWhile (· != 0)
  let n := (size % 2 ^ 32).toNat
  -- the string is read up to its NUL, whatever the size is
  if 0 ∉ json.drop start then none
  else if n = 0 then some value
  else
    let written := str.take (n - 1) ++ [0]
    if written.length ≤ value.length then some (written ++ value.drop written.length) else none

/-- `parse_json` into a buffer that is all zeros. -/
def parseJson (size : ℕ) (body : List UInt8) : Option (List UInt8) := strncpy (List.replicate size 0) body

/-- `get_json_value`. -/
def getJsonValue (json value : List UInt8) : Option (List UInt8) := do
  let len ← scan json 0
  let i ← scan json 58
  snprintf value (Int.ofNat len - Int.ofNat i - 1) json (i + 1)

/-- The first byte is removed if it is a double quote. -/
def unquote : List UInt8 → List UInt8
  | 34 :: value => value
  | value => value

/-- `get_json_value_int`. -/
def getJsonValueInt (json : List UInt8) : Option ℤ :=
  (getJsonValue json (List.replicate 257 0)).map fun value => atoi (unquote (value.takeWhile (· != 0)))

/-- A request with a body, through a buffer of `size` bytes. -/
def requestInt (size : ℕ) (body : List UInt8) : Option ℤ := (parseJson size body).bind getJsonValueInt

/-- In `handle_request`. -/
def handleRequestInt (body : List UInt8) : Option ℤ := requestInt 256 body

/-- In `on_load`. -/
def onLoadInt (body : List UInt8) : Option ℤ := requestInt 1024 body

/-! ## The property -/

/-- One key with a decimal integer that an `int` can hold: the key's bytes, the spaces after the colon, whether the number
is quoted, its sign and digits. -/
structure Form where
  key : List UInt8
  spaces : ℕ
  quoted : Bool
  minus : Bool
  digits : List UInt8
  plain : ∀ b ∈ key, b ≠ 34 ∧ b ≠ 0
  digits_ne : digits ≠ []
  isDigits : ∀ b ∈ digits, isDigit b = true
  fits : digitsValue digits < 2 ^ 31 + if minus then 1 else 0

namespace Form

/-- The number. -/
def number (f : Form) : ℤ := if f.minus then -Int.ofNat (digitsValue f.digits) else Int.ofNat (digitsValue f.digits)

def sign (f : Form) : List UInt8 := if f.minus then [45] else []

def quote (f : Form) : List UInt8 := if f.quoted then [34] else []

/-- From the spaces on, without the closing brace. -/
def value (f : Form) : List UInt8 := List.replicate f.spaces 32 ++ (f.quote ++ (f.sign ++ (f.digits ++ f.quote)))

/-- The body. -/
def body (f : Form) : List UInt8 := 123 :: 34 :: (f.key ++ 34 :: 58 :: (f.value ++ [125]))

end Form

/-- The path has a result, and it is the number that the body gives. -/
def RequestRight (body : List UInt8) (result : Option ℤ) : Prop :=
  result ≠ none ∧ ∀ f : Form, f.body = body → result = some f.number

/-- What follows the first colon. -/
def afterColon (text : List UInt8) : Option (List UInt8) :=
  match text.dropWhile (· != 58) with
  | [] => none
  | _ :: rest => some rest

/-- The body's text: up to its first NUL. -/
def textOf (body : List UInt8) : List UInt8 := body.takeWhile (· != 0)

/-- The body fits in the buffer, its text leaves room for a NUL, and has a colon behind its first byte with at most 257
bytes after it. -/
def InBuffers (size : ℕ) (body : List UInt8) : Prop :=
  body.length ≤ size ∧ (textOf body).length < size ∧ ∃ t, afterColon ((textOf body).drop 1) = some t ∧ t.length ≤ 257

/-- The colon after the key is the first one and a quoted number follows it at once, or else what is read is the number
all the same. -/
def Form.Read (f : Form) : Prop :=
  match afterColon f.key with
  | some rest => atoi rest = f.number
  | none => f.quoted = true → f.spaces = 0 ∨ f.number = 0

/-! ## Lists -/

variable {size : ℕ} {body text pre rest t : List UInt8} {b : UInt8}

theorem afterColon_append (hpre : 58 ∉ pre) : afterColon (pre ++ 58 :: t) = some t := by
  have hall : ∀ b ∈ pre, (b != 58) = true := fun b hb => bne_iff_ne.2 fun heq => hpre (heq ▸ hb)
  unfold afterColon
  rw [List.dropWhile_append_of_pos hall]
  rfl

theorem afterColon_eq_none (h : 58 ∉ text) : afterColon text = none := by
  have hall : ∀ b ∈ text, (b != 58) = true := fun b hb => bne_iff_ne.2 fun heq => h (heq ▸ hb)
  unfold afterColon
  rw [List.dropWhile_eq_nil_iff.2 hall]

/-- A text with a colon is split at its first one. -/
theorem exists_colon (h : 58 ∈ text) : ∃ pre t, 58 ∉ pre ∧ text = pre ++ 58 :: t := by
  induction text with
  | nil => cases h
  | cons b text ih =>
    by_cases hb : b = 58
    · exact ⟨[], text, List.not_mem_nil, by rw [hb, List.nil_append]⟩
    · obtain ⟨pre, t, hpre, rfl⟩ := ih ((List.mem_cons.1 h).resolve_left fun heq => hb heq.symm)
      refine ⟨b :: pre, t, ?_, rfl⟩
      rw [List.mem_cons]
      rintro (heq | hmem)
      · exact hb heq.symm
      · exact hpre hmem

/-- The first place of a byte that `pre` does not have. -/
theorem findIdx_append {c : UInt8} (hpre : c ∉ pre) : (pre ++ c :: rest).findIdx? (· == c) = some pre.length := by
  induction pre with
  | nil => rw [List.nil_append, List.findIdx?_cons, if_pos (beq_self_eq_true c)]; rfl
  | cons b pre ih =>
    have hb : ¬ (b == c) = true := fun heq => hpre (by rw [beq_iff_eq.1 heq]; exact List.mem_cons_self ..)
    rw [List.cons_append, List.findIdx?_cons, if_neg hb, ih fun hmem => hpre (List.mem_cons_of_mem _ hmem)]
    rfl

theorem findIdx_none {c : UInt8} (h : c ∉ text) : text.findIdx? (· == c) = none := by
  rw [List.findIdx?_eq_none_iff]
  intro b hb
  exact beq_eq_false_iff_ne.2 fun heq => h (heq ▸ hb)

theorem zero_notMem_textOf (body : List UInt8) : 0 ∉ textOf body := by
  intro hmem
  have hne := List.mem_takeWhile_imp hmem
  exact absurd hne (by decide)

theorem textOf_length_le (body : List UInt8) : (textOf body).length ≤ body.length :=
  (List.takeWhile_prefix _).length_le

/-- A text without NULs before a NUL. -/
theorem takeWhile_zero (h : 0 ∉ text) : (text ++ 0 :: rest).takeWhile (· != 0) = text := by
  have hall : ∀ b ∈ text, (b != 0) = true := fun b hb => bne_iff_ne.2 fun heq => h (heq ▸ hb)
  rw [List.takeWhile_append_of_pos hall, List.takeWhile_cons_of_neg (by decide), List.append_nil]

/-! ## The path -/

/-- What `parse_json` leaves in the buffer. -/
theorem parseJson_eq (hlen : body.length ≤ size) :
    parseJson size body = some (textOf body ++ List.replicate (size - (textOf body).length) 0) := by
  have hle := textOf_length_le body
  have hsum : body.length - (textOf body).length + (size - body.length) = size - (textOf body).length := by omega
  unfold parseJson strncpy
  rw [if_pos (by rwa [List.length_replicate]), List.drop_replicate]
  show some (textOf body ++ List.replicate (body.length - (textOf body).length) 0 ++ _) = _
  rw [List.append_assoc, List.replicate_append_replicate, hsum]

/-- `get_json_value` on a text with a colon, in a buffer with room behind it. -/
theorem getJsonValue_colon {value : List UInt8} (hpre : 58 ∉ pre) (hzero : 0 ∉ pre) (ht : 0 ∉ t) :
    getJsonValue (b :: (pre ++ 58 :: (t ++ 0 :: rest))) value =
      snprintf value (Int.ofNat t.length) (b :: (pre ++ 58 :: (t ++ 0 :: rest))) (pre.length + 2) := by
  have hnul : scan (b :: (pre ++ 58 :: (t ++ 0 :: rest))) 0 = some (pre.length + t.length + 2) := by
    have hsplit : pre ++ 58 :: (t ++ 0 :: rest) = (pre ++ 58 :: t) ++ 0 :: rest := by
      rw [List.append_assoc, List.cons_append]
    have hnone : 0 ∉ pre ++ 58 :: t := by
      rw [List.mem_append, List.mem_cons]
      rintro (hmem | heq | hmem)
      · exact hzero hmem
      · exact absurd heq (by decide)
      · exact ht hmem
    unfold scan
    rw [List.drop_succ_cons, List.drop_zero, hsplit, findIdx_append hnone]
    simp only [Option.map_some, List.length_append, List.length_cons]
    congr 1
  have hcolon : scan (b :: (pre ++ 58 :: (t ++ 0 :: rest))) 58 = some (pre.length + 1) := by
    unfold scan
    rw [List.drop_succ_cons, List.drop_zero, findIdx_append hpre]
    rfl
  have hsize : Int.ofNat (pre.length + t.length + 2) - Int.ofNat (pre.length + 1) - 1 = Int.ofNat t.length := by
    simp only [Int.ofNat_eq_natCast]
    omega
  unfold getJsonValue
  rw [hnul, hcolon]
  show snprintf value (Int.ofNat (pre.length + t.length + 2) - Int.ofNat (pre.length + 1) - 1) _ (pre.length + 2) = _
  rw [hsize]

/-- `snprintf` of a text with its length as the size: the last byte is lost. -/
theorem snprintf_text {value json : List UInt8} {start : ℕ} (hdrop : json.drop start = t ++ 0 :: rest) (ht : 0 ∉ t)
    (hlen : t.length < 2 ^ 32) (hne : t ≠ []) :
    snprintf value (Int.ofNat t.length) json start =
      if t.length ≤ value.length then some (t.dropLast ++ 0 :: value.drop t.length) else none := by
  have hpos : t.length ≠ 0 := fun h => hne (List.length_eq_zero_iff.1 h)
  have hsize : (Int.ofNat t.length % 2 ^ 32).toNat = t.length := by
    rw [Int.ofNat_eq_natCast]
    omega
  have hwritten : (t.dropLast ++ [0]).length = t.length := by
    rw [List.length_append, List.length_dropLast, List.length_singleton]
    omega
  unfold snprintf
  simp only [hdrop, takeWhile_zero ht, hsize]
  rw [if_neg (by simp), if_neg hpos, ← List.dropLast_eq_take, hwritten]
  split
  · rw [List.append_assoc, List.singleton_append]
  · rfl

/-- `get_json_value_int` there. -/
theorem getJsonValueInt_colon (hpre : 58 ∉ pre) (hzero : 0 ∉ pre) (ht : 0 ∉ t) (hlen : t.length < 2 ^ 32) :
    getJsonValueInt (b :: (pre ++ 58 :: (t ++ 0 :: rest))) =
      if t.length ≤ 257 then some (atoi (unquote t.dropLast)) else none := by
  have hdrop : (b :: (pre ++ 58 :: (t ++ 0 :: rest))).drop (pre.length + 2) = t ++ 0 :: rest := by
    have hlength : pre.length + 2 = (b :: (pre ++ [58])).length := by
      rw [List.length_cons, List.length_append, List.length_singleton]
    have hsplit : b :: (pre ++ 58 :: (t ++ 0 :: rest)) = (b :: (pre ++ [58])) ++ (t ++ 0 :: rest) := by
      rw [List.cons_append, List.append_assoc, List.singleton_append]
    rw [hsplit, hlength, List.drop_left]
  unfold getJsonValueInt
  rw [getJsonValue_colon hpre hzero ht]
  cases t with
  | nil =>
    -- a size of 0: nothing is written
    have hnone : snprintf (List.replicate 257 0) (Int.ofNat 0) (b :: (pre ++ 58 :: ([] ++ 0 :: rest)))
        (pre.length + 2) = some (List.replicate 257 0) := by
      unfold snprintf
      simp only [hdrop]
      rw [if_neg (by simp)]
      rfl
    rw [List.length_nil, hnone]
    rfl
  | cons x t =>
    rw [snprintf_text hdrop ht hlen (List.cons_ne_nil _ _), List.length_replicate]
    have hlast : 0 ∉ (x :: t).dropLast := fun hmem => ht (List.dropLast_subset _ hmem)
    split
    · rw [Option.map_some, takeWhile_zero hlast]
    · rfl

/-- A buffer in which a scan finds nothing. -/
theorem getJsonValueInt_none (h : scan text 0 = none ∨ scan text 58 = none) : getJsonValueInt text = none := by
  have hvalue : ∀ value, getJsonValue text value = none := by
    intro value
    unfold getJsonValue
    rcases h with hnul | hcolon
    · rw [hnul]
      rfl
    · rw [hcolon]
      cases scan text 0 with
      | none => rfl
      | some len => rfl
  unfold getJsonValueInt
  rw [hvalue]
  rfl

/-- Without a NUL the scan for it leaves the buffer. -/
theorem getJsonValueInt_full (hnul : 0 ∉ text) : getJsonValueInt text = none := by
  apply getJsonValueInt_none
  left
  unfold scan
  rw [findIdx_none fun hmem => hnul (List.mem_of_mem_drop hmem)]
  rfl

/-- Without a colon the scan for that does. -/
theorem getJsonValueInt_plain (hcolon : 58 ∉ text.drop 1) (n : ℕ) :
    getJsonValueInt (text ++ List.replicate n 0) = none := by
  have hnone : 58 ∉ (text ++ List.replicate n 0).drop 1 := by
    rw [List.drop_append, List.mem_append]
    rintro (hmem | hmem)
    · exact hcolon hmem
    · exact absurd (List.eq_of_mem_replicate (List.mem_of_mem_drop hmem)) (by decide)
  apply getJsonValueInt_none
  right
  unfold scan
  rw [findIdx_none hnone]
  rfl

/-- `get_json_value_int` in a buffer with a text and `n` zeros. -/
theorem getJsonValueInt_buffer (hnul : 0 ∉ text) (hlen : text.length < 2 ^ 32) (n : ℕ) :
    getJsonValueInt (text ++ List.replicate n 0) =
      match afterColon (text.drop 1) with
      | some t => if 0 < n ∧ t.length ≤ 257 then some (atoi (unquote t.dropLast)) else none
      | none => none := by
  by_cases hcolon : 58 ∈ text.drop 1
  · obtain ⟨pre, t, hpre, hsplit⟩ := exists_colon hcolon
    rw [hsplit, afterColon_append hpre]
    obtain ⟨b, rfl⟩ : ∃ b, text = b :: (pre ++ 58 :: t) := by
      cases text with
      | nil => cases hcolon
      | cons b text => exact ⟨b, congrArg (b :: ·) hsplit⟩
    cases n with
    | zero =>
      -- the NUL has no room
      rw [List.replicate_zero, List.append_nil, getJsonValueInt_full hnul]
      exact (if_neg fun h => absurd h.1 (Nat.lt_irrefl 0)).symm
    | succ n =>
      have hzero : 0 ∉ pre := fun hmem => hnul (List.mem_cons_of_mem _ (List.mem_append_left _ hmem))
      have ht : 0 ∉ t := fun hmem =>
        hnul (List.mem_cons_of_mem _ (List.mem_append_right _ (List.mem_cons_of_mem _ hmem)))
      have htlen : t.length < 2 ^ 32 := by
        rw [List.length_cons, List.length_append, List.length_cons] at hlen
        omega
      rw [List.replicate_succ, List.cons_append, List.append_assoc, List.cons_append,
        getJsonValueInt_colon hpre hzero ht htlen]
      simp only [Nat.succ_pos, true_and]
  · rw [afterColon_eq_none hcolon]
    exact getJsonValueInt_plain hcolon n

/-- **The path on any body.** -/
theorem requestInt_eq (hsize : size < 2 ^ 32) (body : List UInt8) :
    requestInt size body =
      match afterColon ((textOf body).drop 1) with
      | some t =>
        if body.length ≤ size ∧ (textOf body).length < size ∧ t.length ≤ 257 then some (atoi (unquote t.dropLast))
        else none
      | none => none := by
  have hle := textOf_length_le body
  unfold requestInt
  rcases Nat.lt_or_ge size body.length with hlong | hlen
  · -- `strncpy` writes behind the buffer
    have hnone : parseJson size body = none := if_neg (by rw [List.length_replicate]; omega)
    rw [hnone]
    cases afterColon ((textOf body).drop 1) with
    | none => rfl
    | some t => exact (if_neg fun h => absurd h.1 (by omega)).symm
  · rw [parseJson_eq hlen, Option.bind_some, getJsonValueInt_buffer (zero_notMem_textOf body) (by omega)]
    simp only [Nat.sub_pos_iff_lt, hlen, true_and]

/-- The path has a result exactly if it stays in the buffers. -/
theorem requestInt_ne_none (hsize : size < 2 ^ 32) : requestInt size body ≠ none ↔ InBuffers size body := by
  rw [requestInt_eq hsize]
  unfold InBuffers
  cases afterColon ((textOf body).drop 1) with
  | none =>
    constructor
    · intro h
      exact absurd rfl h
    · rintro ⟨-, -, t, ht, -⟩
      cases ht
  | some t =>
    constructor
    · intro h
      obtain ⟨hin, -⟩ := Option.ite_none_right_eq_some.1 (Option.ne_none_iff_exists'.1 h).choose_spec
      exact ⟨hin.1, hin.2.1, t, rfl, hin.2.2⟩
    · rintro ⟨hlen, hroom, t', ht', hle⟩
      cases ht'
      show (if _ then some _ else none) ≠ none
      rw [if_pos ⟨hlen, hroom, hle⟩]
      nofun

/-! ## Bodies with a number -/

variable {f : Form}

theorem foreign_quote : Foreign 34 := ⟨by decide, by decide, by decide, by decide⟩

theorem foreign_colon : Foreign 58 := ⟨by decide, by decide, by decide, by decide⟩

theorem unquote_of_ne {x : UInt8} (s : List UInt8) (hx : x ≠ 34) : unquote (x :: s) = x :: s := by
  unfold unquote
  split
  · rename_i heq
    exact absurd (List.cons.inj heq).1 hx
  · rfl

theorem quote_of_quoted (h : f.quoted = true) : f.quote = [34] := if_pos h

theorem quote_of_bare (h : f.quoted = false) : f.quote = [] := if_neg (by rw [h]; exact Bool.false_ne_true)

/-- A sign and digits are read as the number. -/
theorem atoi_number (f : Form) {rest : List UInt8} (hrest : EndsDigits rest) :
    atoi (f.sign ++ (f.digits ++ rest)) = f.number := by
  unfold Form.sign Form.number
  split
  · exact atoi_minus f.isDigits hrest
  · exact atoi_digits f.digits_ne f.isDigits hrest

theorem atoi_spaces (k : ℕ) (s : List UInt8) : atoi (List.replicate k 32 ++ s) = atoi s := by
  induction k with
  | zero => rfl
  | succ k ih => rw [List.replicate_succ, List.cons_append, atoi_space _ rfl, ih]

/-- A number begins with no quote. -/
theorem unquote_number (f : Form) (rest : List UInt8) :
    unquote (f.sign ++ (f.digits ++ rest)) = f.sign ++ (f.digits ++ rest) := by
  obtain ⟨d, ds, hds⟩ := List.exists_cons_of_ne_nil f.digits_ne
  have hd : d ≠ 34 := by
    rintro rfl
    exact absurd (f.isDigits 34 (by rw [hds]; exact List.mem_cons_self ..)) (by decide)
  unfold Form.sign
  split
  · exact unquote_of_ne _ (by decide)
  · rw [hds]
    exact unquote_of_ne _ hd

/-- What is read after the colon of the key. -/
theorem atoi_value (f : Form) :
    atoi (unquote f.value) = if f.quoted = true ∧ 0 < f.spaces then 0 else f.number := by
  unfold Form.value
  cases hspaces : f.spaces with
  | zero =>
    rw [if_neg fun h => absurd h.2 (Nat.lt_irrefl 0), List.replicate_zero, List.nil_append]
    cases hquoted : f.quoted with
    | false =>
      rw [quote_of_bare hquoted, List.nil_append, unquote_number, atoi_number f endsDigits_nil]
    | true =>
      rw [quote_of_quoted hquoted]
      show atoi (f.sign ++ (f.digits ++ [34])) = f.number
      exact atoi_number f (by rintro b ⟨⟩; rfl)
  | succ k =>
    have hspace : unquote (List.replicate (k + 1) 32 ++ (f.quote ++ (f.sign ++ (f.digits ++ f.quote)))) =
        List.replicate (k + 1) 32 ++ (f.quote ++ (f.sign ++ (f.digits ++ f.quote))) :=
      unquote_of_ne _ (by decide)
    rw [hspace, atoi_spaces]
    cases hquoted : f.quoted with
    | false =>
      rw [if_neg fun h => Bool.false_ne_true h.1, quote_of_bare hquoted, List.nil_append, atoi_number f endsDigits_nil]
    | true =>
      rw [if_pos ⟨rfl, Nat.succ_pos k⟩, quote_of_quoted hquoted]
      exact (atoi_foreign [] _ foreign_quote).trans rfl

/-- What is read after a colon in the key. -/
theorem atoi_key {k : List UInt8} (s : List UInt8) (hk : 34 ∉ k) : atoi (unquote (k ++ 34 :: 58 :: s)) = atoi k := by
  cases k with
  | nil => exact atoi_foreign [] s foreign_colon
  | cons x k =>
    have hx : x ≠ 34 := fun heq => hk (by rw [heq]; exact List.mem_cons_self ..)
    rw [List.cons_append, unquote_of_ne _ hx, ← List.cons_append, atoi_foreign _ _ foreign_quote]

theorem mem_quote {b : UInt8} (hb : b ∈ f.quote) : b = 34 := by
  unfold Form.quote at hb
  split at hb
  · exact List.mem_singleton.1 hb
  · cases hb

theorem mem_sign {b : UInt8} (hb : b ∈ f.sign) : b = 45 := by
  unfold Form.sign at hb
  split at hb
  · exact List.mem_singleton.1 hb
  · cases hb

theorem textOf_body (f : Form) : textOf f.body = f.body := by
  apply List.takeWhile_eq_self_iff.2
  intro b hb
  rw [bne_iff_ne]
  simp only [Form.body, Form.value, List.mem_cons, List.mem_append, List.mem_replicate, List.not_mem_nil,
    or_false] at hb
  rcases hb with rfl | rfl | hkey | rfl | rfl | (⟨-, rfl⟩ | h34 | h45 | hdigit | h34) | rfl
  · decide
  · decide
  · exact (f.plain b hkey).2
  · decide
  · decide
  · decide
  · rw [mem_quote h34]
    decide
  · rw [mem_sign h45]
    decide
  · rintro rfl
    exact absurd (f.isDigits 0 hdigit) (by decide)
  · rw [mem_quote h34]
    decide
  · decide

/-- The first colon of the body is in the key, -/
theorem afterColon_key {k₁ k₂ : List UInt8} (hk₁ : 58 ∉ k₁) (hkey : f.key = k₁ ++ 58 :: k₂) :
    afterColon (f.body.drop 1) = some ((k₂ ++ 34 :: 58 :: f.value) ++ [125]) := by
  have hfirst : 58 ∉ 34 :: k₁ := by
    rw [List.mem_cons]
    rintro (heq | hmem)
    · exact absurd heq (by decide)
    · exact hk₁ hmem
  have hsplit : f.body.drop 1 = (34 :: k₁) ++ 58 :: ((k₂ ++ 34 :: 58 :: f.value) ++ [125]) := by
    show (34 :: f.key) ++ 34 :: 58 :: (f.value ++ [125]) = _
    rw [hkey]
    simp
  rw [hsplit, afterColon_append hfirst]

/-- or it is the one behind the key. -/
theorem afterColon_value (hcolon : 58 ∉ f.key) : afterColon (f.body.drop 1) = some (f.value ++ [125]) := by
  have hfirst : 58 ∉ (34 :: f.key) ++ [34] := by
    simp only [List.mem_append, List.mem_cons, List.not_mem_nil, or_false]
    rintro ((heq | hmem) | heq)
    · exact absurd heq (by decide)
    · exact hcolon hmem
    · exact absurd heq (by decide)
  have hsplit : f.body.drop 1 = ((34 :: f.key) ++ [34]) ++ 58 :: (f.value ++ [125]) := by
    show (34 :: f.key) ++ 34 :: 58 :: (f.value ++ [125]) = _
    rw [List.append_assoc, List.singleton_append]
  rw [hsplit, afterColon_append hfirst]

/-- **The path on a body with a number.** -/
theorem requestInt_form (hsize : size < 2 ^ 32) (hin : InBuffers size f.body) :
    requestInt size f.body =
      some (match afterColon f.key with
        | some rest => atoi rest
        | none => if f.quoted = true ∧ 0 < f.spaces then 0 else f.number) := by
  obtain ⟨hlen, hroom, t, ht, hle⟩ := hin
  rw [requestInt_eq hsize, ht]
  show (if _ then some (atoi (unquote t.dropLast)) else none) = _
  rw [if_pos ⟨hlen, hroom, hle⟩]
  congr 1
  rw [textOf_body] at ht
  by_cases hcolon : 58 ∈ f.key
  · obtain ⟨k₁, k₂, hk₁, hkey⟩ := exists_colon hcolon
    have hquote : 34 ∉ k₂ := fun hmem =>
      (f.plain 34 (by rw [hkey]; exact List.mem_append_right _ (List.mem_cons_of_mem _ hmem))).1 rfl
    rw [afterColon_key hk₁ hkey] at ht
    rw [← Option.some.inj ht, List.dropLast_concat, hkey, afterColon_append hk₁]
    exact atoi_key f.value hquote
  · rw [afterColon_value hcolon] at ht
    rw [← Option.some.inj ht, List.dropLast_concat, afterColon_eq_none hcolon]
    exact atoi_value f

/-- What is read is the number exactly in these cases. -/
theorem read_iff (f : Form) :
    (match afterColon f.key with
      | some rest => atoi rest
      | none => if f.quoted = true ∧ 0 < f.spaces then 0 else f.number) = f.number ↔ f.Read := by
  unfold Form.Read
  cases afterColon f.key with
  | some rest => exact Iff.rfl
  | none =>
    show (if f.quoted = true ∧ 0 < f.spaces then 0 else f.number) = f.number ↔ _
    split
    · rename_i h
      constructor
      · intro heq _
        exact Or.inr heq.symm
      · intro hread
        exact ((hread h.1).resolve_left (by omega)).symm
    · rename_i h
      refine ⟨fun _ hquoted => Or.inl ?_, fun _ => rfl⟩
      by_contra hspaces
      exact h ⟨hquoted, Nat.pos_of_ne_zero hspaces⟩

theorem request_right_iff (hsize : size < 2 ^ 32) (body : List UInt8) :
    RequestRight body (requestInt size body) ↔ InBuffers size body ∧ ∀ f : Form, f.body = body → f.Read := by
  unfold RequestRight
  rw [requestInt_ne_none hsize]
  apply and_congr_right
  intro hin
  apply forall_congr'
  rintro f
  constructor
  · rintro h rfl
    have hresult := (requestInt_form hsize hin).symm.trans (h rfl)
    exact (read_iff f).1 (Option.some.inj hresult)
  · rintro h rfl
    rw [requestInt_form hsize hin, (read_iff f).2 (h rfl)]

/-- **The requests of both callers** stay in their buffers and yield the number exactly for these bodies. -/
theorem requests_right_iff (body : List UInt8) :
    (RequestRight body (handleRequestInt body) ↔ InBuffers 256 body ∧ ∀ f : Form, f.body = body → f.Read) ∧
      (RequestRight body (onLoadInt body) ↔ InBuffers 1024 body ∧ ∀ f : Form, f.body = body → f.Read) :=
  ⟨request_right_iff (by decide) body, request_right_iff (by decide) body⟩

/-- `{"key": "5"}` -/
def fiveForm : Form :=
  ⟨[107, 101, 121], 1, true, false, [53], by decide +kernel, by decide, by decide +kernel, by decide⟩

/-- **A quoted 5 after a space is read as 0**; an empty body has the scan for the colon leave the buffer, and one of 300
bytes the copy. -/
theorem quoted_number_lost :
    (fiveForm.body = [123, 34, 107, 101, 121, 34, 58, 32, 34, 53, 34, 125] ∧ fiveForm.number = 5 ∧
      handleRequestInt fiveForm.body = some 0 ∧ ¬ RequestRight fiveForm.body (handleRequestInt fiveForm.body)) ∧
      handleRequestInt [] = none ∧ handleRequestInt (List.replicate 300 49) = none := by
  refine ⟨⟨rfl, rfl, ?_⟩, ?_, ?_⟩
  · have hread : handleRequestInt fiveForm.body = some 0 := by decide +kernel
    refine ⟨hread, ?_⟩
    intro h
    have hfive := h.2 _ rfl
    exact absurd (hread.symm.trans hfive) (by decide)
  · decide +kernel
  · decide +kernel

end Br2Efinix.Camera
