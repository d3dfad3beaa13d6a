import Mathlib.Algebra.Notation.Defs
import Mathlib.Data.List.GetD
import Mathlib.Data.Nat.Notation
import Mathlib.Logic.Function.Basic

/-!
# A row of a terminal

The row that the cursor is on, as wide as the text needs, with the control bytes and the escape sequences that a line
editor uses: backspace, carriage return, line feed, cursor left and right, the column, and the end of the row erased.

* `shows_text`: text replaces what is under it.
* `shows_left`, `shows_right`, `shows_back`, `shows_column`: the cursor moves over the row.
* `shows_erase`, `shows_newline`: the end of the row, or all of it, is blank.
* `mode_mixed`: what others put out between the bytes of an editor leaves no sequence open.
-/

namespace Br2Efinix

/-- What the terminal expects: text, the byte after an escape, or the rest of a sequence with its number so far. -/
inductive TermMode
  | text
  | esc
  | csi (n : ℕ)
  deriving DecidableEq, Repr

structure Terminal where
  cells : ℕ → UInt8
  col : ℕ
  mode : TermMode

namespace Terminal

/-- A byte of text, or a control byte. -/
def putText (t : Terminal) (b : UInt8) : Terminal :=
  if b = 27 then { t with mode := .esc }
  else if b = 8 then { t with col := t.col - 1 }
  else if b = 13 then { t with col := 0 }
  else if b = 10 then { t with cells := fun _ => 32 }
  else if 32 ≤ b ∧ b ≠ 127 then { t with cells := Function.update t.cells t.col b, col := t.col + 1 }
  else t

/-- The last byte of a sequence. -/
def finish (t : Terminal) (n : ℕ) (b : UInt8) : Terminal :=
  if b = 67 then { t with col := t.col + max n 1, mode := .text }
  else if b = 68 then { t with col := t.col - max n 1, mode := .text }
  else if b = 71 then { t with col := max n 1 - 1, mode := .text }
  else if b = 75 ∧ n = 0 then { t with cells := fun i => if i < t.col then t.cells i else 32, mode := .text }
  else { t with mode := .text }

/-- A byte for the terminal. -/
def put (t : Terminal) (b : UInt8) : Terminal :=
  match t.mode with
  | .text => t.putText b
  | .esc => if b = 91 then { t with mode := .csi 0 } else { t with mode := .text }
  | .csi n => if 48 ≤ b ∧ b ≤ 57 then { t with mode := .csi (10 * n + (b.toNat - 48)) } else t.finish n b

def puts (t : Terminal) (s : List UInt8) : Terminal := s.foldl put t

/-- The row holds a text, with blanks behind it, and the cursor is at a column; no sequence is open. -/
structure Shows (t : Terminal) (s : List UInt8) (col : ℕ) : Prop where
  cells : t.cells = fun i => s.getD i 32
  col : t.col = col
  mode : t.mode = .text

/-- Bytes with a place in the row. -/
def Printable (s : List UInt8) : Prop := ∀ b ∈ s, 32 ≤ b ∧ b < 127

variable {t : Terminal} {s u v : List UInt8} {k n : ℕ} {b : UInt8}

theorem puts_append (t : Terminal) (u v : List UInt8) : t.puts (u ++ v) = (t.puts u).puts v := List.foldl_append

theorem puts_cons (t : Terminal) (b : UInt8) (u : List UInt8) : t.puts (b :: u) = (t.put b).puts u := rfl

/-- Blanks at the end are not seen. -/
theorem Shows.blank (h : Shows t (s ++ [32]) k) : Shows t s k := by
  refine ⟨?_, h.col, h.mode⟩
  rw [h.cells]
  funext i
  rcases Nat.lt_trichotomy i s.length with hlt | heq | hgt
  · exact List.getD_append _ _ _ _ hlt
  · rw [heq, List.getD_append_right _ _ _ _ (Nat.le_refl _), Nat.sub_self, List.getD_eq_default _ _ (Nat.le_refl _)]
    rfl
  · rw [List.getD_eq_default _ _ (by rw [List.length_append, List.length_singleton]; omega),
      List.getD_eq_default _ _ (Nat.le_of_lt hgt)]

/-- What is shown is all there is. -/
theorem Shows.unique {t' : Terminal} (h : Shows t s k) (h' : Shows t' s k) : t = t' := by
  obtain ⟨cells, col, mode⟩ := t
  obtain ⟨cells', col', mode'⟩ := t'
  obtain rfl := h.cells.trans h'.cells.symm
  obtain rfl := h.col.trans h'.col.symm
  obtain rfl := h.mode.trans h'.mode.symm
  rfl

theorem put_printable (ht : t.mode = .text) (hb : 32 ≤ b ∧ b < 127) :
    t.put b = { t with cells := Function.update t.cells t.col b, col := t.col + 1 } := by
  have h32 : 32 ≤ b.toNat := UInt8.le_iff_toNat_le.1 hb.1
  have hne : ∀ c : UInt8, c.toNat < 32 → b ≠ c := by
    rintro c hc rfl
    omega
  have h127 : b ≠ 127 := by
    rintro rfl
    exact absurd hb.2 (by decide)
  unfold put putText
  simp only [ht]
  rw [if_neg (hne 27 (by decide)), if_neg (hne 8 (by decide)), if_neg (hne 13 (by decide)),
    if_neg (hne 10 (by decide)), if_pos ⟨hb.1, h127⟩]

theorem getD_set_append (s v : List UInt8) (b : UInt8) :
    Function.update (fun i => (s ++ v).getD i 32) s.length b = fun i => (s ++ b :: v.drop 1).getD i 32 := by
  funext i
  rcases Nat.lt_trichotomy i s.length with hlt | heq | hgt
  · rw [Function.update_of_ne (Nat.ne_of_lt hlt), List.getD_append _ _ _ _ hlt, List.getD_append _ _ _ _ hlt]
  · rw [heq, Function.update_self, List.getD_append_right _ _ _ _ (Nat.le_refl _), Nat.sub_self]
    rfl
  · obtain ⟨j, rfl⟩ : ∃ j, i = s.length + (j + 1) := ⟨i - s.length - 1, by omega⟩
    rw [Function.update_of_ne (by omega), List.getD_append_right _ _ _ _ (by omega),
      List.getD_append_right _ _ _ _ (by omega), Nat.add_sub_cancel_left, List.getD_cons_succ]
    cases v with
    | nil => rfl
    | cons x v => rfl

/-- **Text replaces what is under it.** -/
theorem shows_text (h : Shows t (s ++ v) s.length) (hu : Printable u) :
    Shows (t.puts u) (s ++ (u ++ v.drop u.length)) (s.length + u.length) := by
  induction u generalizing t s v with
  | nil => exact h
  | cons b u ih =>
    obtain ⟨hb, hu⟩ := List.forall_mem_cons.1 hu
    have hput : Shows (t.put b) ((s ++ [b]) ++ v.drop 1) (s ++ [b]).length := by
      rw [put_printable h.mode hb]
      refine ⟨?_, ?_, h.mode⟩
      · show Function.update t.cells t.col b = _
        rw [h.cells, h.col, getD_set_append, List.append_assoc, List.singleton_append]
      · show t.col + 1 = _
        rw [h.col, List.length_append, List.length_singleton]
    have hrest := ih hput hu
    rw [puts_cons, List.length_cons]
    rw [List.drop_drop, List.append_assoc, List.singleton_append, List.length_append, List.length_singleton,
      Nat.add_assoc, Nat.add_comm 1] at hrest
    exact hrest

/-- Text at the end of the row. -/
theorem shows_end (h : Shows t s s.length) (hu : Printable u) : Shows (t.puts u) (s ++ u) (s.length + u.length) := by
  have htext := shows_text (v := []) (by rwa [List.append_nil]) hu
  rwa [List.drop_nil, List.append_nil] at htext

/-- A sequence with one digit. -/
theorem puts_csi (ht : t.mode = .text) (hn : n < 10) (hb : ¬ (48 ≤ b ∧ b ≤ 57)) :
    t.puts [27, 91, UInt8.ofNat (48 + n), b] = finish { t with mode := .csi n } n b := by
  obtain ⟨cells, col, mode⟩ := t
  have hmode : mode = .text := ht
  subst hmode
  have hdigit : (UInt8.ofNat (48 + n)).toNat = 48 + n := by
    rw [UInt8.toNat_ofNat']
    exact Nat.mod_eq_of_lt (by omega)
  have hrange : 48 ≤ UInt8.ofNat (48 + n) ∧ UInt8.ofNat (48 + n) ≤ 57 := by
    rw [UInt8.le_iff_toNat_le, UInt8.le_iff_toNat_le, hdigit]
    exact ⟨Nat.le_add_right 48 n, show 48 + n ≤ 57 by omega⟩
  show put (if 48 ≤ UInt8.ofNat (48 + n) ∧ UInt8.ofNat (48 + n) ≤ 57 then
    ⟨cells, col, .csi (10 * 0 + ((UInt8.ofNat (48 + n)).toNat - 48))⟩ else _) b = _
  rw [if_pos hrange, hdigit, Nat.mul_zero, Nat.zero_add, Nat.add_sub_cancel_left]
  show (if 48 ≤ b ∧ b ≤ 57 then _ else finish ⟨cells, col, .csi n⟩ n b) = _
  rw [if_neg hb]

/-- **The cursor goes left**, -/
theorem shows_left (h : Shows t s k) (hn : 0 < n) (hlt : n < 10) :
    Shows (t.puts [27, 91, UInt8.ofNat (48 + n), 68]) s (k - n) := by
  rw [puts_csi h.mode hlt (by decide)]
  refine ⟨h.cells, ?_, rfl⟩
  show t.col - max n 1 = k - n
  rw [h.col, Nat.max_eq_left hn]

/-- right, -/
theorem shows_right (h : Shows t s k) (hn : 0 < n) (hlt : n < 10) :
    Shows (t.puts [27, 91, UInt8.ofNat (48 + n), 67]) s (k + n) := by
  rw [puts_csi h.mode hlt (by decide)]
  refine ⟨h.cells, ?_, rfl⟩
  show t.col + max n 1 = k + n
  rw [h.col, Nat.max_eq_left hn]

/-- back by one column for each backspace, -/
theorem shows_back (h : Shows t s k) (n : ℕ) : Shows (t.puts (List.replicate n 8)) s (k - n) := by
  induction n generalizing t k with
  | zero => exact h
  | succ n ih =>
    have hput : Shows (t.put 8) s (k - 1) := by
      obtain ⟨cells, col, mode⟩ := t
      have hmode : mode = .text := h.mode
      subst hmode
      exact ⟨h.cells, congrArg (· - 1) h.col, rfl⟩
    have hrest := ih hput
    rw [List.replicate_succ, puts_cons]
    rwa [Nat.sub_sub, Nat.add_comm 1 n] at hrest

/-- and to the start of the row. -/
theorem shows_column (h : Shows t s k) : Shows (t.puts [27, 91, 49, 71]) s 0 := by
  have hput := puts_csi (n := 1) (b := 71) h.mode (by decide) (by decide)
  show Shows (t.puts [27, 91, UInt8.ofNat (48 + 1), 71]) s 0
  rw [hput]
  exact ⟨h.cells, rfl, rfl⟩

/-- **The end of the row is erased.** -/
theorem shows_erase (h : Shows t s k) : Shows (t.puts [27, 91, 48, 75]) (s.take k) k := by
  have hput := puts_csi (n := 0) (b := 75) h.mode (by decide) (by decide)
  show Shows (t.puts [27, 91, UInt8.ofNat (48 + 0), 75]) (s.take k) k
  rw [hput]
  refine ⟨?_, h.col, rfl⟩
  show (fun i => if i < t.col then t.cells i else 32) = _
  rw [h.col, h.cells]
  funext i
  show (if i < k then s.getD i 32 else 32) = (s.take k).getD i 32
  split
  · rename_i hlt
    rw [List.getD_eq_getElem?_getD, List.getD_eq_getElem?_getD, List.getElem?_take_of_lt hlt]
  · rename_i hge
    rw [List.getD_eq_default _ _ (by rw [List.length_take]; omega)]

/-- A new row. -/
theorem shows_newline (ht : t.mode = .text) : Shows (t.puts [13, 10]) [] 0 := by
  obtain ⟨cells, col, mode⟩ := t
  have hmode : mode = .text := ht
  subst hmode
  exact ⟨rfl, rfl, rfl⟩

/-! ## Two writers -/

/-- The bytes of one program, with what others put out before each of them, and in the end. -/
def mixed (prints : List (List UInt8)) : List UInt8 → List UInt8
  | [] => prints.flatten
  | b :: u => prints.headD [] ++ b :: mixed prints.tail u

theorem mixed_nil (u : List UInt8) : mixed [] u = u := by
  induction u with
  | nil => rfl
  | cons b u ih => exact congrArg (b :: ·) ih

/-- Text, and sequences with one digit that are not broken off. -/
inductive Whole : List UInt8 → Prop
  | nil : Whole []
  | byte {b : UInt8} {u : List UInt8} : b ≠ 27 → Whole u → Whole (b :: u)
  | sequence {d b : UInt8} {u : List UInt8} : d ≠ 27 → b ≠ 27 → ¬ (48 ≤ b ∧ b ≤ 57) → Whole u →
      Whole (27 :: 91 :: d :: b :: u)

theorem Whole.of_notMem (hu : 27 ∉ u) : Whole u := by
  induction u with
  | nil => exact .nil
  | cons b u ih =>
    exact .byte (fun heq => hu (by rw [heq]; exact List.mem_cons_self ..)) (ih fun hmem => hu (List.mem_cons_of_mem _ hmem))

theorem Whole.append (hu : Whole u) (hv : Whole v) : Whole (u ++ v) := by
  induction hu with
  | nil => exact hv
  | byte hb _ ih => exact .byte hb ih
  | sequence hd hb hlast _ ih => exact .sequence hd hb hlast ih

theorem mode_finish (t : Terminal) (n : ℕ) (b : UInt8) : (t.finish n b).mode = .text := by
  unfold finish
  simp only [apply_ite Terminal.mode, ite_self]

/-- Other bytes than the escape begin no sequence, -/
theorem mode_put (hb : b ≠ 27) (ht : t.mode = .text) : (t.put b).mode = .text := by
  unfold put putText
  simp only [ht, if_neg hb, apply_ite Terminal.mode, ite_self]

theorem mode_puts (hu : 27 ∉ u) (ht : t.mode = .text) : (t.puts u).mode = .text := by
  induction u generalizing t with
  | nil => exact ht
  | cons b u ih =>
    exact ih (fun hmem => hu (List.mem_cons_of_mem _ hmem)) (mode_put (fun heq => hu (heq ▸ List.mem_cons_self ..)) ht)

/-- and no sequence is at its start behind one. -/
theorem mode_put_ne (hb : b ≠ 27) : (t.put b).mode ≠ .esc := by
  cases hmode : t.mode with
  | text =>
    rw [mode_put hb hmode]
    exact TermMode.noConfusion
  | esc =>
    unfold put
    rw [hmode]
    show (if b = 91 then _ else _ : Terminal).mode ≠ _
    split
    · exact TermMode.noConfusion
    · exact TermMode.noConfusion
  | csi n =>
    unfold put
    rw [hmode]
    show (if 48 ≤ b ∧ b ≤ 57 then _ else t.finish n b : Terminal).mode ≠ _
    split
    · exact TermMode.noConfusion
    · rw [mode_finish]
      exact TermMode.noConfusion

theorem mode_puts_ne (hu : 27 ∉ u) (ht : t.mode ≠ .esc) : (t.puts u).mode ≠ .esc := by
  induction u generalizing t with
  | nil => exact ht
  | cons b u ih =>
    exact ih (fun hmem => hu (List.mem_cons_of_mem _ hmem)) (mode_put_ne fun heq => hu (heq ▸ List.mem_cons_self ..))

/-- The last byte of a sequence. -/
theorem mode_last (hb : b ≠ 27) (hlast : ¬ (48 ≤ b ∧ b ≤ 57)) (ht : t.mode ≠ .esc) : (t.put b).mode = .text := by
  cases hmode : t.mode with
  | text => exact mode_put hb hmode
  | esc => exact absurd hmode ht
  | csi n =>
    unfold put
    rw [hmode]
    simp only [if_neg hlast]
    exact mode_finish t n b

/-- **What others put out** between the bytes of whole sequences leaves no sequence open. -/
theorem mode_mixed {prints : List (List UInt8)} (hu : Whole u) (hprints : ∀ p ∈ prints, 27 ∉ p) (ht : t.mode = .text) :
    (t.puts (mixed prints u)).mode = .text := by
  have hhead : ∀ {ps : List (List UInt8)}, (∀ p ∈ ps, 27 ∉ p) → 27 ∉ ps.headD [] := by
    intro ps hps
    cases ps with
    | nil => exact List.not_mem_nil
    | cons p ps => exact hps p (List.mem_cons_self ..)
  have htail : ∀ {ps : List (List UInt8)}, (∀ p ∈ ps, 27 ∉ p) → ∀ p ∈ ps.tail, 27 ∉ p :=
    fun hps p hp => hps p (List.mem_of_mem_tail hp)
  induction hu generalizing t prints with
  | nil =>
    refine mode_puts (fun hmem => ?_) ht
    obtain ⟨p, hp, hbyte⟩ := List.mem_flatten.1 hmem
    exact hprints p hp hbyte
  | byte hb _ ih =>
    unfold mixed
    rw [puts_append, puts_cons]
    exact ih (htail hprints) (mode_put hb (mode_puts (hhead hprints) ht))
  | sequence hd hb hlast _ ih =>
    -- behind the bracket no escape is open, whatever is in between
    have h₁ := htail hprints
    have h₂ := htail h₁
    have h₃ := htail h₂
    simp only [mixed, puts_append, puts_cons]
    exact ih (htail h₃) (mode_last hb hlast (mode_puts_ne (hhead h₃) (mode_put_ne hd)))

end Terminal

end Br2Efinix
