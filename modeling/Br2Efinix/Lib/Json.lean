import Mathlib.Data.List.TakeWhile
import Br2Efinix.Lib.Decimal

/-!
# JSON text

Numbers that are integers, strings without escapes, arrays and objects. The text has `", "` and `": "` between the parts;
the reader takes any blanks there.

* `readString_append`, `readNumber_append`: the text of a string or a number is read back, whatever follows it.
* `readValue_print`: so is that of a value, with enough fuel.
* `read_print`: **the text of a value is read as that value**.
-/

namespace Br2Efinix

/-- Bytes that stand for themselves in a string. -/
structure PlainText where
  bytes : List UInt8
  plain : ∀ b ∈ bytes, 32 ≤ b ∧ b ≠ 34 ∧ b ≠ 92
  deriving DecidableEq

inductive Json
  | num (i : ℤ)
  | str (text : PlainText)
  | arr (items : List Json)
  | obj (members : List (PlainText × Json))

namespace PlainText

def cons (b : UInt8) (hb : 32 ≤ b ∧ b ≠ 34 ∧ b ≠ 92) (t : PlainText) : PlainText :=
  ⟨b :: t.bytes, List.forall_mem_cons.2 ⟨hb, t.plain⟩⟩

/-- The text between its quotes. -/
def quoted (t : PlainText) : List UInt8 := 34 :: (t.bytes ++ [34])

end PlainText

namespace Json

/-! ## The text of a value -/

mutual

def print : Json → List UInt8
  | num i => decimal i
  | str text => text.quoted
  | arr [] => [91, 93]
  | arr (v :: vs) => 91 :: (v.print ++ printItems vs)
  | obj [] => [123, 125]
  | obj ((key, v) :: ms) => 123 :: (key.quoted ++ 58 :: 32 :: (v.print ++ printMembers ms))

/-- The items after the first one, with the bracket. -/
def printItems : List Json → List UInt8
  | [] => [93]
  | v :: vs => 44 :: 32 :: (v.print ++ printItems vs)

/-- The members after the first one, with the brace. -/
def printMembers : List (PlainText × Json) → List UInt8
  | [] => [125]
  | (key, v) :: ms => 44 :: 32 :: (key.quoted ++ 58 :: 32 :: (v.print ++ printMembers ms))

end

/-! ## The reader -/

def isBlank (b : UInt8) : Bool := b == 32 || b == 9 || b == 10 || b == 13

def skip (s : List UInt8) : List UInt8 := s.dropWhile isBlank

/-- A string from behind its first quote on. -/
def readString : List UInt8 → Option (PlainText × List UInt8)
  | [] => none
  | 34 :: s => some (⟨[], nofun⟩, s)
  | b :: s => if hb : 32 ≤ b ∧ b ≠ 34 ∧ b ≠ 92 then (readString s).map fun p => (p.1.cons b hb, p.2) else none

def readDigits (s : List UInt8) : Option (ℕ × List UInt8) :=
  match s.takeWhile isDigit with
  | [] => none
  | d :: ds => some (digitsValue (d :: ds), s.dropWhile isDigit)

def readNumber : List UInt8 → Option (ℤ × List UInt8)
  | 45 :: s => (readDigits s).map fun p => (-Int.ofNat p.1, p.2)
  | s => (readDigits s).map fun p => (Int.ofNat p.1, p.2)

/-- A key and its colon. -/
def readKey (s : List UInt8) : Option (PlainText × List UInt8) :=
  match skip s with
  | 34 :: s =>
    match readString s with
    | some (key, s) =>
      match skip s with
      | 58 :: s => some (key, s)
      | _ => none
    | none => none
  | _ => none

mutual

def readValue : ℕ → List UInt8 → Option (Json × List UInt8)
  | 0, _ => none
  | n + 1, s =>
    match skip s with
    | 34 :: s => (readString s).map fun p => (str p.1, p.2)
    | 91 :: s =>
      match skip s with
      | 93 :: s => some (arr [], s)
      | s =>
        match readValue n s with
        | some (v, s) => (readItems n s).map fun p => (arr (v :: p.1), p.2)
        | none => none
    | 123 :: s =>
      match skip s with
      | 125 :: s => some (obj [], s)
      | s =>
        match readKey s with
        | some (key, s) =>
          match readValue n s with
          | some (v, s) => (readMembers n s).map fun p => (obj ((key, v) :: p.1), p.2)
          | none => none
        | none => none
    | s => (readNumber s).map fun p => (num p.1, p.2)

def readItems : ℕ → List UInt8 → Option (List Json × List UInt8)
  | 0, _ => none
  | n + 1, s =>
    match skip s with
    | 93 :: s => some ([], s)
    | 44 :: s =>
      match readValue n s with
      | some (v, s) => (readItems n s).map fun p => (v :: p.1, p.2)
      | none => none
    | _ => none

def readMembers : ℕ → List UInt8 → Option (List (PlainText × Json) × List UInt8)
  | 0, _ => none
  | n + 1, s =>
    match skip s with
    | 125 :: s => some ([], s)
    | 44 :: s =>
      match readKey s with
      | some (key, s) =>
        match readValue n s with
        | some (v, s) => (readMembers n s).map fun p => ((key, v) :: p.1, p.2)
        | none => none
      | none => none
    | _ => none

end

/-- A text is one value, with blanks around it. -/
def read (s : List UInt8) : Option Json :=
  match readValue (s.length + 1) s with
  | some (v, rest) => if skip rest = [] then some v else none
  | none => none

/-! ## Parts -/

variable {b : UInt8} {s rest : List UInt8} {n : ℕ}

theorem skip_cons (hb : isBlank b = false) : skip (b :: s) = b :: s :=
  List.dropWhile_cons_of_neg (by rw [hb]; exact Bool.false_ne_true)

theorem skip_blank (hb : isBlank b = true) : skip (b :: s) = skip s := List.dropWhile_cons_of_pos hb

theorem readString_cons (hb : 32 ≤ b ∧ b ≠ 34 ∧ b ≠ 92) :
    readString (b :: s) = (readString s).map fun p => (p.1.cons b hb, p.2) := by
  rw [readString.eq_3 _ _ fun h => hb.2.1 h, dif_pos hb]

/-- **A string is read back.** -/
theorem readString_append (t : PlainText) (rest : List UInt8) :
    readString (t.bytes ++ 34 :: rest) = some (t, rest) := by
  obtain ⟨bytes, plain⟩ := t
  induction bytes with
  | nil => rfl
  | cons b bytes ih =>
    obtain ⟨hb, hrest⟩ := List.forall_mem_cons.1 plain
    show readString (b :: (bytes ++ 34 :: rest)) = _
    rw [readString_cons hb, ih hrest]
    rfl

theorem readDigits_append (m : ℕ) (hrest : EndsDigits rest) : readDigits (decimalNat m ++ rest) = some (m, rest) := by
  have htake := takeWhile_digits (isDigit_decimalNat m) hrest
  have hdrop : (decimalNat m ++ rest).dropWhile isDigit = rest := by
    have hsplit := List.takeWhile_append_dropWhile (p := isDigit) (l := decimalNat m ++ rest)
    rw [htake] at hsplit
    exact List.append_cancel_left hsplit
  have hvalue := digitsValue_decimalNat m
  unfold readDigits
  rw [htake, hdrop]
  cases hdigits : decimalNat m with
  | nil => exact absurd hdigits (decimalNat_ne_nil m)
  | cons d ds =>
    rw [hdigits] at hvalue
    show some (digitsValue (d :: ds), rest) = _
    rw [hvalue]

/-- A number begins with a digit or with its sign. -/
theorem decimalNat_cons (m : ℕ) : ∃ d ds, decimalNat m = d :: ds ∧ isDigit d = true := by
  obtain ⟨d, ds, hcons⟩ := List.exists_cons_of_ne_nil (decimalNat_ne_nil m)
  exact ⟨d, ds, hcons, isDigit_decimalNat m d (by rw [hcons]; exact List.mem_cons_self ..)⟩

/-- **So is a number** that no digit follows. -/
theorem readNumber_append (i : ℤ) (hrest : EndsDigits rest) : readNumber (decimal i ++ rest) = some (i, rest) := by
  unfold decimal
  split
  · rename_i hneg
    show (readDigits (decimalNat i.natAbs ++ rest)).map (fun p => (-Int.ofNat p.1, p.2)) = _
    rw [readDigits_append _ hrest]
    show some (-Int.ofNat i.natAbs, rest) = _
    congr 2
    rw [Int.ofNat_eq_natCast]
    omega
  · rename_i hpos
    have hread := readDigits_append i.natAbs hrest
    obtain ⟨d, ds, hcons, hd⟩ := decimalNat_cons i.natAbs
    have hsign : d ≠ 45 := by
      rintro rfl
      exact absurd hd (by decide)
    rw [hcons] at hread ⊢
    have hdefault : readNumber (d :: (ds ++ rest)) =
        (readDigits (d :: (ds ++ rest))).map fun p => (Int.ofNat p.1, p.2) :=
      readNumber.eq_2 _ fun _ h => hsign (List.cons.inj h).1
    show readNumber (d :: (ds ++ rest)) = _
    rw [hdefault, ← List.cons_append, hread]
    show some (Int.ofNat i.natAbs, rest) = _
    congr 2
    rw [Int.ofNat_eq_natCast]
    omega

theorem readKey_append (key : PlainText) (s : List UInt8) : readKey (key.quoted ++ 58 :: s) = some (key, s) := by
  have htext : key.quoted ++ 58 :: s = 34 :: (key.bytes ++ 34 :: 58 :: s) := by
    unfold PlainText.quoted
    rw [List.cons_append, List.append_assoc, List.singleton_append]
  unfold readKey
  rw [htext, skip_cons (by decide)]
  simp only [readString_append, skip_cons (show isBlank 58 = false by decide)]

/-! ## Values -/

theorem isBlank_of_isDigit (hb : isDigit b = true) : isBlank b = false := by
  have hbounds := isDigit_bounds hb
  have hne : ∀ c : UInt8, c.toNat < 48 → (b == c) = false := fun c hc => beq_eq_false_iff_ne.2 fun heq => by
    rw [heq] at hbounds
    omega
  unfold isBlank
  rw [hne 32 (by decide), hne 9 (by decide), hne 10 (by decide), hne 13 (by decide)]
  rfl

/-- A value begins with a byte that is no blank and closes nothing. -/
theorem print_head (v : Json) : ∃ b s, v.print = b :: s ∧ isBlank b = false ∧ b ≠ 93 := by
  cases v with
  | num i =>
    rw [print]
    unfold decimal
    split
    · exact ⟨45, _, rfl, by decide, by decide⟩
    · obtain ⟨d, ds, hcons, hd⟩ := decimalNat_cons i.natAbs
      refine ⟨d, ds, hcons, isBlank_of_isDigit hd, ?_⟩
      rintro rfl
      exact absurd hd (by decide)
  | str text => exact ⟨34, _, by rw [print]; rfl, by decide, by decide⟩
  | arr items =>
    cases items with
    | nil => exact ⟨91, _, by rw [print], by decide, by decide⟩
    | cons v vs => exact ⟨91, _, by rw [print], by decide, by decide⟩
  | obj members =>
    cases members with
    | nil => exact ⟨123, _, by rw [print], by decide, by decide⟩
    | cons m ms => exact ⟨123, _, by rw [print], by decide, by decide⟩

theorem endsDigits_cons (hb : isDigit b = false) : EndsDigits (b :: s) := by
  rintro c ⟨⟩
  exact hb

theorem endsDigits_items (vs : List Json) : EndsDigits (printItems vs ++ rest) := by
  cases vs with
  | nil =>
    rw [printItems]
    exact endsDigits_cons (by decide)
  | cons v vs =>
    rw [printItems]
    exact endsDigits_cons (by decide)

theorem endsDigits_members (ms : List (PlainText × Json)) : EndsDigits (printMembers ms ++ rest) := by
  cases ms with
  | nil =>
    rw [printMembers]
    exact endsDigits_cons (by decide)
  | cons m ms =>
    rw [printMembers]
    exact endsDigits_cons (by decide)

/-- The reader on a number. -/
theorem readValue_num (i : ℤ) (n : ℕ) (hrest : EndsDigits rest) :
    readValue (n + 1) (decimal i ++ rest) = some (num i, rest) := by
  have hread := readNumber_append i hrest
  obtain ⟨b, s, hcons, hblank, hplain⟩ : ∃ b s, decimal i ++ rest = b :: s ∧ isBlank b = false ∧
      b ≠ 34 ∧ b ≠ 91 ∧ b ≠ 123 := by
    unfold decimal
    split
    · exact ⟨45, _, rfl, by decide, by decide, by decide, by decide⟩
    · obtain ⟨d, ds, hcons, hd⟩ := decimalNat_cons i.natAbs
      have hne : ∀ c : UInt8, isDigit c = false → d ≠ c := by
        rintro c hc rfl
        rw [hd] at hc
        exact Bool.noConfusion hc
      rw [hcons]
      exact ⟨d, _, rfl, isBlank_of_isDigit hd, hne 34 (by decide), hne 91 (by decide), hne 123 (by decide)⟩
  rw [hcons] at hread ⊢
  rw [readValue, skip_cons hblank]
  split
  · rename_i h
    exact absurd (List.cons.inj h).1 hplain.1
  · rename_i h
    exact absurd (List.cons.inj h).1 hplain.2.1
  · rename_i h
    exact absurd (List.cons.inj h).1 hplain.2.2
  · rw [hread]
    rfl

/-- On an array with items. -/
theorem readValue_arr {v : Json} {vs : List Json} {s' : List UInt8} (hv : readValue n (v.print ++ s) = some (v, s))
    (hvs : readItems n s = some (vs, s')) : readValue (n + 1) (91 :: (v.print ++ s)) = some (arr (v :: vs), s') := by
  obtain ⟨b, t, hcons, hblank, hclose⟩ := print_head v
  have hskip : skip (v.print ++ s) = v.print ++ s := by
    rw [hcons]
    exact skip_cons hblank
  rw [readValue, skip_cons (by decide)]
  simp only [hskip]
  split
  · rename_i h
    rw [hcons] at h
    exact absurd (List.cons.inj h).1 hclose
  · simp only [hv, hvs, Option.map_some]

/-- On an object with members. -/
theorem readValue_obj {key : PlainText} {v : Json} {ms : List (PlainText × Json)} {t s' : List UInt8}
    (hv : readValue n (32 :: t) = some (v, s)) (hms : readMembers n s = some (ms, s')) :
    readValue (n + 1) (123 :: (key.quoted ++ 58 :: 32 :: t)) = some (obj ((key, v) :: ms), s') := by
  have hskip : skip (key.quoted ++ 58 :: 32 :: t) = key.quoted ++ 58 :: 32 :: t := skip_cons (by decide)
  rw [readValue, skip_cons (by decide)]
  simp only [hskip]
  split
  · rename_i h
    exact absurd (List.cons.inj h).1 (by decide)
  · simp only [readKey_append, hv, hms, Option.map_some]

/-- A blank before a value. -/
theorem readValue_space (n : ℕ) (s : List UInt8) : readValue n (32 :: s) = readValue n s := by
  cases n with
  | zero => rw [readValue, readValue]
  | succ n => rw [readValue, readValue, skip_blank (by decide)]

theorem readItems_cons {v : Json} {vs : List Json} {t s' : List UInt8} (hv : readValue n t = some (v, s))
    (hvs : readItems n s = some (vs, s')) : readItems (n + 1) (44 :: t) = some (v :: vs, s') := by
  rw [readItems, skip_cons (by decide)]
  simp only [hv, hvs, Option.map_some]

theorem readMembers_cons {key : PlainText} {v : Json} {ms : List (PlainText × Json)} {t s' : List UInt8}
    (hv : readValue n (32 :: t) = some (v, s)) (hms : readMembers n s = some (ms, s')) :
    readMembers (n + 1) (44 :: 32 :: (key.quoted ++ 58 :: 32 :: t)) = some ((key, v) :: ms, s') := by
  have hkey : readKey (32 :: (key.quoted ++ 58 :: 32 :: t)) = some (key, 32 :: t) := by
    rw [← readKey_append key (32 :: t)]
    unfold readKey
    rw [skip_blank (by decide)]
  rw [readMembers, skip_cons (by decide)]
  simp only [hkey, hv, hms, Option.map_some]

mutual

/-- **A value is read back** from its text and whatever follows, unless that is a digit. The induction is on the value;
a fuel of the text's length is enough. -/
theorem readValue_print : ∀ (v : Json) (n : ℕ) (rest : List UInt8), v.print.length ≤ n → EndsDigits rest →
    readValue n (v.print ++ rest) = some (v, rest)
  | v, 0, _, hn, _ => by
    obtain ⟨b, s, hcons, -⟩ := print_head v
    rw [hcons] at hn
    exact absurd hn (Nat.not_succ_le_zero _)
  | num i, n + 1, rest, _, hrest => by
    rw [print]
    exact readValue_num i n hrest
  | str text, n + 1, rest, _, _ => by
    have htext : (str text).print ++ rest = 34 :: (text.bytes ++ 34 :: rest) := by
      rw [print]
      unfold PlainText.quoted
      rw [List.cons_append, List.append_assoc, List.singleton_append]
    rw [htext, readValue, skip_cons (by decide)]
    simp only [readString_append, Option.map_some]
  | arr [], n + 1, rest, _, _ => by
    rw [print]
    show readValue (n + 1) (91 :: 93 :: rest) = _
    rw [readValue, skip_cons (by decide)]
    simp only [skip_cons (show isBlank 93 = false by decide)]
  | arr (v :: vs), n + 1, rest, hn, _ => by
    rw [print, List.length_cons, List.length_append] at hn
    rw [print, List.cons_append, List.append_assoc]
    exact readValue_arr (readValue_print v n _ (by omega) (endsDigits_items vs))
      (readItems_print vs n rest (by omega))
  | obj [], n + 1, rest, _, _ => by
    rw [print]
    show readValue (n + 1) (123 :: 125 :: rest) = _
    rw [readValue, skip_cons (by decide)]
    simp only [skip_cons (show isBlank 125 = false by decide)]
  | obj ((key, v) :: ms), n + 1, rest, hn, _ => by
    rw [print, List.length_cons, List.length_append, List.length_cons, List.length_cons, List.length_append] at hn
    have hv := readValue_print v n (printMembers ms ++ rest) (by omega) (endsDigits_members ms)
    rw [print, List.cons_append, List.append_assoc, List.cons_append, List.cons_append, List.append_assoc]
    exact readValue_obj ((readValue_space n _).trans hv) (readMembers_print ms n rest (by omega))

theorem readItems_print : ∀ (vs : List Json) (n : ℕ) (rest : List UInt8), (printItems vs).length ≤ n →
    readItems n (printItems vs ++ rest) = some (vs, rest)
  | [], 0, _, hn => by
    rw [printItems] at hn
    exact absurd hn (Nat.not_succ_le_zero _)
  | [], n + 1, rest, _ => by
    rw [printItems]
    show readItems (n + 1) (93 :: rest) = _
    rw [readItems, skip_cons (by decide)]
    rfl
  | v :: vs, 0, _, hn => by
    rw [printItems] at hn
    exact absurd hn (Nat.not_succ_le_zero _)
  | v :: vs, n + 1, rest, hn => by
    rw [printItems, List.length_cons, List.length_cons, List.length_append] at hn
    have hv := readValue_print v n (printItems vs ++ rest) (by omega) (endsDigits_items vs)
    rw [printItems, List.cons_append, List.cons_append, List.append_assoc]
    exact readItems_cons ((readValue_space n _).trans hv) (readItems_print vs n rest (by omega))

theorem readMembers_print : ∀ (ms : List (PlainText × Json)) (n : ℕ) (rest : List UInt8),
    (printMembers ms).length ≤ n → readMembers n (printMembers ms ++ rest) = some (ms, rest)
  | [], 0, _, hn => by
    rw [printMembers] at hn
    exact absurd hn (Nat.not_succ_le_zero _)
  | [], n + 1, rest, _ => by
    rw [printMembers]
    show readMembers (n + 1) (125 :: rest) = _
    rw [readMembers, skip_cons (by decide)]
    rfl
  | (key, v) :: ms, 0, _, hn => by
    rw [printMembers] at hn
    exact absurd hn (Nat.not_succ_le_zero _)
  | (key, v) :: ms, n + 1, rest, hn => by
    rw [printMembers, List.length_cons, List.length_cons, List.length_append, List.length_cons, List.length_cons,
      List.length_append] at hn
    have hv := readValue_print v n (printMembers ms ++ rest) (by omega) (endsDigits_members ms)
    rw [printMembers, List.cons_append, List.cons_append, List.append_assoc, List.cons_append, List.cons_append,
      List.append_assoc]
    exact readMembers_cons ((readValue_space n _).trans hv) (readMembers_print ms n rest (by omega))

end

/-- **The text of a value is read as that value**, with blanks behind it. -/
theorem read_print (v : Json) {blanks : List UInt8} (hblanks : ∀ b ∈ blanks, isBlank b = true) :
    read (v.print ++ blanks) = some v := by
  have hend : EndsDigits blanks := by
    intro b hb
    rw [Bool.eq_false_iff]
    intro hdigit
    have hblank := hblanks b (List.mem_of_mem_head? hb)
    rw [isBlank_of_isDigit hdigit] at hblank
    exact Bool.false_ne_true hblank
  have hskip : skip blanks = [] := List.dropWhile_eq_nil_iff.2 hblanks
  unfold read
  rw [readValue_print v _ blanks (by rw [List.length_append]; omega) hend]
  simp only [hskip, if_true]

end Json

end Br2Efinix
