import Mathlib.Algebra.GroupWithZero.Nat
import Mathlib.Data.List.Basic
import Mathlib.Data.List.Range
import Mathlib.Data.Nat.Bitwise

/-!
# The SPI controller

The two FIFOs of the controller and the command it is working on. The driver writes and reads the
data register and the two halves of the buffer register; the controller takes commands in order
and answers each that reads with one byte, at any time. The device at the other end is any
deterministic function of the commands that it gets.

* `Flow.take`, `Flow.finish`, `Flow.put`, `Flow.pull`: while no FIFO overruns, the answers come in the
  order of the commands, and are those of a device that gets one command after the other.
-/

namespace Br2Efinix.Spi

def SPI_CMD_WRITE : ℕ := 0x100

def SPI_CMD_READ : ℕ := 0x200

def SPI_CMD_SS : ℕ := 0x800

/-- Data commands with the read flag are answered; chip-select commands are not. -/
def reads (w : ℕ) : Bool := w.testBit 9 && !w.testBit 11

/-- The command for byte `i`, of a transmit buffer if there is one. -/
def dataWord (tx : Option (ℕ → BitVec 8)) (i : ℕ) : ℕ :=
  match tx with
  | some ptr => SPI_CMD_WRITE ||| SPI_CMD_READ ||| (ptr i).toNat
  | none => SPI_CMD_READ

/-- A byte leaves the flags as they are. -/
theorem reads_dataWord (tx : Option (ℕ → BitVec 8)) (i : ℕ) : reads (dataWord tx i) = true := by
  unfold dataWord
  cases tx with
  | none => exact show reads SPI_CMD_READ = true by decide
  | some ptr =>
    have hbyte : ∀ k, 8 ≤ k → (ptr i).toNat.testBit k = false := fun k hk =>
      Nat.testBit_lt_two_pow (Nat.lt_of_lt_of_le (ptr i).isLt (Nat.pow_le_pow_right (by decide) hk))
    unfold reads
    simp only [Nat.testBit_or, hbyte 9 (by decide), hbyte 11 (by decide)]
    decide

/-- A chip-select command is not answered, whatever it names. -/
theorem reads_select (v : ℕ) : reads (v ||| SPI_CMD_SS) = false := by
  unfold reads
  rw [Nat.testBit_or v SPI_CMD_SS 11, show SPI_CMD_SS.testBit 11 = true by decide, Bool.or_true, Bool.not_true,
    Bool.and_false]

/-- The sum of two `u32`. -/
def add32 (a b : ℕ) : ℕ := (a + b) % 2 ^ 32

/-- Their difference. -/
def sub32 (a b : ℕ) : ℕ := (a + 2 ^ 32 - b) % 2 ^ 32

theorem add32_eq {a b : ℕ} (h : a + b < 2 ^ 32) : add32 a b = a + b := Nat.mod_eq_of_lt h

theorem sub32_eq {a b : ℕ} (hle : b ≤ a) (hlt : a < 2 ^ 32) : sub32 a b = a - b := by
  unfold sub32
  omega

/-! ## Credit -/

section Credit

variable {token count txCount len credit burst : ℕ}

/-- **A burst is read** and credited: the tokens and the commands outstanding still add up, and the
next burst stays within the length. -/
theorem credit_read (hcount : count + burst ≤ txCount) (htxCount : txCount ≤ len) (hlen : len < 2 ^ 32)
    (hcredit : token + (txCount - count) = credit) (hlt : credit < 2 ^ 32) :
    add32 token burst = token + burst ∧ add32 count burst = count + burst ∧ sub32 len txCount = len - txCount ∧
      token + burst + (txCount - (count + burst)) = credit ∧
        txCount + min (len - txCount) (token + burst) ≤ len := by
  have htoken : add32 token burst = token + burst := add32_eq (by omega)
  have hcount' : add32 count burst = count + burst := add32_eq (by omega)
  have hleft := Nat.min_le_left (len - txCount) (token + burst)
  refine ⟨htoken, hcount', sub32_eq htxCount hlen, ?_, ?_⟩ <;> omega

/-- **A burst is written** with as many tokens. -/
theorem credit_write (hcount : count ≤ txCount) (hburst : burst ≤ token) (hleft : txCount + burst ≤ len)
    (hlen : len < 2 ^ 32) (hcredit : token + (txCount - count) = credit) (hlt : credit < 2 ^ 32) :
    sub32 token burst = token - burst ∧ add32 txCount burst = txCount + burst ∧ count ≤ txCount + burst ∧
      token - burst + (txCount + burst - count) = credit := by
  have htoken : sub32 token burst = token - burst := sub32_eq hburst (by omega)
  have htxCount : add32 txCount burst = txCount + burst := add32_eq (by omega)
  refine ⟨htoken, htxCount, ?_, ?_⟩ <;> omega

end Credit

/-- The device: what a command does to it, and the byte it answers with. -/
abbrev Device (σ : Type*) := σ → ℕ → σ × BitVec 8

/-- The controller. Only observed are the commands it has done, whether one was written to a full
FIFO, and whether an answer found the other one full. -/
structure Controller (σ : Type*) where
  cmd : List ℕ
  busy : Option ℕ
  rsp : List (BitVec 8)
  dev : σ
  sent : List ℕ
  overrun : Bool
  overflow : Bool

variable {σ : Type*}

namespace Controller

/-- `spi_spinal_lib_cmd_availability`. -/
def availability (c : Controller σ) (cmdFifoDepth : ℕ) : ℕ := (cmdFifoDepth - c.cmd.length) % 2 ^ 16

/-- `spi_spinal_lib_rsp_occupancy`. -/
def occupancy (c : Controller σ) : ℕ := c.rsp.length % 2 ^ 16

/-- A write of the data register. -/
def put (c : Controller σ) (cmdFifoDepth w : ℕ) : Controller σ :=
  if c.cmd.length < cmdFifoDepth then { c with cmd := c.cmd ++ [w] } else { c with overrun := true }

/-- The controller takes up a command. -/
def take (c : Controller σ) : Option (Controller σ) :=
  match c.busy, c.cmd with
  | none, w :: cmd => some { c with busy := some w, cmd := cmd }
  | _, _ => none

/-- The command is done; one that reads is answered. -/
def finish (c : Controller σ) (respond : Device σ) (rspFifoDepth : ℕ) : Option (Controller σ) :=
  match c.busy with
  | none => none
  | some w =>
    let r := respond c.dev w
    let done : Controller σ := { c with busy := none, dev := r.1, sent := c.sent ++ [w] }
    some (if reads w = false then done
      else if c.rsp.length < rspFifoDepth then { done with rsp := c.rsp ++ [r.2] }
      else { done with overflow := true })

/-- A read of the data register; with no answer there it shows `blank`. -/
def pull (c : Controller σ) (blank : BitVec 8) : BitVec 8 × Controller σ :=
  match c.rsp with
  | [] => (blank, c)
  | b :: rsp => (b, { c with rsp := rsp })

variable {c c' : Controller σ} {respond : Device σ} {rspFifoDepth : ℕ}

theorem occupancy_le : c.occupancy ≤ c.rsp.length := Nat.mod_le _ _

/-- What `spi_spinal_lib_cmd_wait` waits for. -/
theorem room_of_availability {cmdFifoDepth : ℕ} (h : c.availability cmdFifoDepth ≠ 0) :
    c.cmd.length < cmdFifoDepth := by
  unfold availability at h
  by_contra hfull
  rw [Nat.sub_eq_zero_of_le (not_lt.1 hfull)] at h
  exact h rfl

theorem take_length (h : c.take = some c') : c'.cmd.length ≤ c.cmd.length := by
  unfold take at h
  split at h
  · rename_i w cmd hbusy hcmd
    obtain rfl := Option.some.inj h
    rw [hcmd]
    exact Nat.le_succ _
  · exact absurd h (by simp)

theorem finish_cmd (h : c.finish respond rspFifoDepth = some c') : c'.cmd = c.cmd := by
  unfold finish at h
  split at h
  · exact absurd h (by simp)
  · obtain rfl := Option.some.inj h
    simp only
    split
    · rfl
    · split <;> rfl

end Controller

/-- A controller with nothing to do. -/
def Controller.empty (dev : σ) : Controller σ :=
  { cmd := [], busy := none, rsp := [], dev := dev, sent := [], overrun := false, overflow := false }

/-! ## One command after the other -/

section Flow

variable (respond : Device σ) (word : ℕ → ℕ) (dev : σ)

/-- The device after `n` commands. -/
def after : ℕ → σ
  | 0 => dev
  | n + 1 => (respond (after n) (word n)).1

/-- Its answer to the next. -/
def answer (n : ℕ) : BitVec 8 := (respond (after respond word dev n) (word n)).2

/-- `w` commands were written, `p` of them are done, and `r` answers were read. -/
structure Flow (c : Controller σ) (r p w : ℕ) : Prop where
  read_le : r ≤ p
  done_le : p ≤ w
  sent : c.sent = (List.range p).map word
  queued : c.busy.toList ++ c.cmd = (List.range' p (w - p)).map word
  rsp : c.rsp = (List.range' r (p - r)).map (answer respond word dev)
  dev : c.dev = after respond word dev p
  overrun : c.overrun = false
  overflow : c.overflow = false

theorem empty_flow : Flow respond word dev (.empty dev) 0 0 0 :=
  ⟨Nat.le_refl _, Nat.le_refl _, rfl, rfl, rfl, rfl, rfl, rfl⟩

variable {respond word dev} {c c' : Controller σ} {r p w : ℕ}

theorem Flow.rsp_length (h : Flow respond word dev c r p w) : c.rsp.length = p - r := by
  rw [h.rsp, List.length_map, List.length_range']

theorem Flow.cmd_length (h : Flow respond word dev c r p w) : c.cmd.length ≤ w - p := by
  have hlength := congrArg List.length h.queued
  rw [List.length_append, List.length_map, List.length_range'] at hlength
  omega

/-- The controller tells how many were written, done and read. -/
theorem Flow.unique {r' p' w' : ℕ} (h : Flow respond word dev c r p w) (h' : Flow respond word dev c r' p' w') :
    r = r' ∧ p = p' ∧ w = w' := by
  have hsent : p = p' := by
    have hlength := congrArg List.length (h.sent.symm.trans h'.sent)
    rw [List.length_map, List.length_map, List.length_range, List.length_range] at hlength
    exact hlength
  have hqueued : w - p = w' - p' := by
    have hlength := congrArg List.length (h.queued.symm.trans h'.queued)
    rw [List.length_map, List.length_map, List.length_range', List.length_range'] at hlength
    exact hlength
  have hrsp := h.rsp_length.symm.trans h'.rsp_length
  have hread := h.read_le
  have hread' := h'.read_le
  have hdone := h.done_le
  have hdone' := h'.done_le
  refine ⟨?_, hsent, ?_⟩ <;> omega

/-- **A command is taken up.** -/
theorem Flow.take (h : Flow respond word dev c r p w) (htake : c.take = some c') : Flow respond word dev c' r p w := by
  unfold Controller.take at htake
  split at htake
  · rename_i v cmd hbusy hcmd
    obtain rfl := Option.some.inj htake
    refine ⟨h.read_le, h.done_le, h.sent, ?_, h.rsp, h.dev, h.overrun, h.overflow⟩
    have hqueued := h.queued
    rw [hbusy, hcmd] at hqueued
    exact hqueued
  · exact absurd htake (by simp)

/-- **A command is done**, and its answer has room if no more answers are outstanding than the FIFO holds. -/
theorem Flow.finish {rspFifoDepth : ℕ} (h : Flow respond word dev c r p w)
    (hread : ∀ n, reads (word n) = true) (hroom : w - r ≤ rspFifoDepth)
    (hfinish : c.finish respond rspFifoDepth = some c') : Flow respond word dev c' r (p + 1) w := by
  have hqueued := h.queued
  have hrsp := h.rsp_length
  have hle := h.read_le
  have hdone := h.done_le
  unfold Controller.finish at hfinish
  cases hbusy : c.busy with
  | none =>
    rw [hbusy] at hfinish
    exact absurd hfinish (by simp)
  | some v =>
    rw [hbusy] at hfinish hqueued
    -- the command at work is the next one
    have hlt : p < w := by
      have hlength := congrArg List.length hqueued
      simp only [Option.toList_some, List.singleton_append, List.length_cons, List.length_map,
        List.length_range'] at hlength
      omega
    obtain ⟨n, hn⟩ := Nat.exists_eq_add_of_lt hlt
    have hsucc : w - p = n + 1 := by omega
    rw [hsucc, List.range'_succ, List.map_cons] at hqueued
    obtain ⟨rfl, hcmd⟩ := List.cons.inj hqueued
    simp only [hread p, Bool.true_eq_false, if_false] at hfinish
    rw [if_pos (by omega)] at hfinish
    obtain rfl := Option.some.inj hfinish
    refine ⟨by omega, by omega, ?_, ?_, ?_, ?_, h.overrun, h.overflow⟩
    · show c.sent ++ [word p] = _
      rw [h.sent, List.range_succ, List.map_append, List.map_singleton]
    · show c.cmd = _
      rw [show w - (p + 1) = n by omega]
      exact hcmd
    · show c.rsp ++ [(respond c.dev (word p)).2] = _
      rw [h.rsp, h.dev, show p + 1 - r = (p - r) + 1 by omega, List.range'_1_concat, List.map_append,
        List.map_singleton, show r + (p - r) = p by omega]
      rfl
    · show (respond c.dev (word p)).1 = _
      rw [h.dev]
      rfl

/-- **The next command is written** where there is room. -/
theorem Flow.put {cmdFifoDepth : ℕ} (h : Flow respond word dev c r p w) (hroom : c.cmd.length < cmdFifoDepth) :
    Flow respond word dev (c.put cmdFifoDepth (word w)) r p (w + 1) := by
  unfold Controller.put
  rw [if_pos hroom]
  have hdone := h.done_le
  refine ⟨h.read_le, by omega, h.sent, ?_, h.rsp, h.dev, h.overrun, h.overflow⟩
  show c.busy.toList ++ (c.cmd ++ [word w]) = _
  rw [← List.append_assoc, h.queued, show w + 1 - p = (w - p) + 1 by omega, List.range'_1_concat, List.map_append,
    List.map_singleton, show p + (w - p) = w by omega]

/-- **The next answer is read.** -/
theorem Flow.pull (h : Flow respond word dev c r p w) (hlt : r < p) (blank : BitVec 8) :
    (c.pull blank).1 = answer respond word dev r ∧ Flow respond word dev (c.pull blank).2 (r + 1) p w := by
  obtain ⟨n, hn⟩ := Nat.exists_eq_add_of_lt hlt
  have hrsp := h.rsp
  rw [show p - r = n + 1 by omega, List.range'_succ, List.map_cons] at hrsp
  unfold Controller.pull
  rw [hrsp]
  refine ⟨rfl, by omega, h.done_le, h.sent, h.queued, ?_, h.dev, h.overrun, h.overflow⟩
  rw [show p - (r + 1) = n by omega]

end Flow

end Br2Efinix.Spi
