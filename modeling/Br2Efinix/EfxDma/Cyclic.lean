import Br2Efinix.EfxDma.Prep

/-!
# Cyclic transfers

The chain that `efx_dma_prep_cyclic` builds has `buf_len / period_len` descriptors, and the quotient is taken before
the arguments are checked.

* `prepCyclic_chain`: the descriptors form a cycle through the head, none of them is completed, and descriptor `i`
  transfers the bytes from the beginning of period `i` on.
* `cyclic_chain_iff`: **one round transfers the buffer** if and only if the periods fill it, none is longer than a
  descriptor can count, and the transfer is from or to a device.
-/

namespace Br2Efinix.EfxDma

/-- The addresses from `addr` on, on the 64-bit bus. -/
def addresses (addr len : ℕ) : List ℕ := (List.range len).map fun k => (addr + k) % 2 ^ 64

namespace HwDesc

/-- The addresses that the engine reads for a descriptor. -/
def reads (d : HwDesc) (direction : Direction) : List ℕ :=
  if direction = .memToDev ∨ direction = .memToMem then addresses d.srcAddr d.bytes else []

/-- The addresses that it writes. -/
def writes (d : HwDesc) (direction : Direction) : List ℕ :=
  if direction = .devToMem ∨ direction = .memToMem then addresses d.dstAddr d.bytes else []

end HwDesc

/-- The descriptors added since `c₀` are one cycle through `h`, and one round of it transfers the buffer, in order
and on one side of the engine only. -/
structure CyclicChain (c₀ c : Chan) (h bufAddr bufLen : ℕ) (direction : Direction) (hs : List ℕ) : Prop where
  added : c.pending = c₀.pending ++ hs
  nonempty : 0 < hs.length
  distinct : hs.Nodup
  walk : ∀ i < hs.length, c.walk h i = hs[i]?
  closed : c.walk h hs.length = some h
  open_ : ∀ k ∈ hs, (c.mem k).hw.completed = false
  buffer : (hs.flatMap fun k => (c.mem k).hw.reads direction, hs.flatMap fun k => (c.mem k).hw.writes direction) =
      (addresses bufAddr bufLen, []) ∨
    (hs.flatMap fun k => (c.mem k).hw.reads direction, hs.flatMap fun k => (c.mem k).hw.writes direction) =
      ([], addresses bufAddr bufLen)

/-- The arguments that `efx_dma_prep_cyclic` accepts. -/
def Accepted (bufAddr bufLen periodLen : ℕ) : Prop := ¬ (bufAddr = 0 ∨ bufLen = 0 ∨ periodLen > bufLen)

/-- `efx_dma_prep_cyclic` from its first statement on, the division; a division by zero has no result. -/
def dividePrepCyclic (c : Chan) (bufAddr bufLen periodLen : ℕ) (direction : Direction)
    (alloc : ℕ → Bool × Bool) : Option (Chan × Option ℕ) :=
  if periodLen = 0 then none else some (prepCyclic c bufAddr bufLen periodLen direction alloc)

/-- It does not divide by zero, and what it returns is the cyclic chain of the buffer. -/
def Cycled (c : Chan) (bufAddr bufLen periodLen : ℕ) (direction : Direction) (alloc : ℕ → Bool × Bool) : Prop :=
  ∃ c' ret, dividePrepCyclic c bufAddr bufLen periodLen direction alloc = some (c', ret) ∧
    ∀ h, ret = some h → ∃ hs, CyclicChain c c' h bufAddr bufLen direction hs

/-- The periods fill the buffer, and a descriptor can count each. -/
structure EvenPeriods (bufLen periodLen : ℕ) (direction : Direction) : Prop where
  slave : direction = .memToDev ∨ direction = .devToMem
  pos : periodLen ≠ 0
  fills : periodLen ∣ bufLen
  counted : periodLen ≤ 2 ^ 27

variable {a : InitArgs} {c c' : Chan} {alloc : ℕ → Bool × Bool} {h bufAddr bufLen periodLen : ℕ}
  {direction : Direction}

/-! ## Addresses -/

theorem length_addresses (addr len : ℕ) : (addresses addr len).length = len := by
  unfold addresses
  rw [List.length_map, List.length_range]

theorem addresses_mod (addr len : ℕ) : addresses (addr % 2 ^ 64) len = addresses addr len := by
  unfold addresses
  apply List.map_congr_left
  intro k _
  exact Nat.mod_add_mod addr (2 ^ 64) k

theorem addresses_add (addr m n : ℕ) : addresses addr (m + n) = addresses addr m ++ addresses (addr + m) n := by
  unfold addresses
  rw [List.range_add, List.map_append, List.map_map]
  congr 1
  apply List.map_congr_left
  intro k _
  simp only [Function.comp_apply, Nat.add_assoc]

/-- Pieces of one length, one after the other. -/
theorem flatMap_addresses (addr p n : ℕ) :
    ((List.range n).flatMap fun i => addresses (addr + i * p) p) = addresses addr (n * p) := by
  induction n with
  | zero => simp [addresses]
  | succ n ih => rw [List.range_succ, List.flatMap_append, ih, List.flatMap_singleton, Nat.succ_mul, addresses_add]

/-! ## The chain -/

/-- The bytes of a descriptor for a period. -/
def periodBytes (periodLen : ℕ) : ℕ := (periodLen + (2 ^ 32 - 1)) % 2 ^ 27 + 1

theorem periodBytes_le (hpos : periodLen ≠ 0) : periodBytes periodLen ≤ periodLen := by
  unfold periodBytes
  omega

theorem periodBytes_eq (hpos : periodLen ≠ 0) : periodBytes periodLen = periodLen ↔ periodLen ≤ 2 ^ 27 := by
  unfold periodBytes
  omega

/-- The arguments that `efx_dma_prep_cyclic` hands over. -/
def cyclicArgs (bufAddr bufLen periodLen : ℕ) (direction : Direction) : InitArgs :=
  { srcAddr := bufAddr, dstAddr := 0, sg := none, len := bufLen / periodLen
    periodLen := periodLen, direction := direction, cyclic := true }

/-- A descriptor of the chain. -/
structure PeriodDesc (bufAddr periodLen i : ℕ) (direction : Direction) (d : HwDesc) : Prop where
  open_ : d.completed = false
  reads : d.reads direction = if direction = .memToDev ∨ direction = .memToMem
    then addresses (bufAddr + i * periodLen) (periodBytes periodLen) else []
  writes : d.writes direction = if direction = .devToMem
    then addresses (bufAddr + i * periodLen) (periodBytes periodLen)
    else if direction = .memToMem then addresses (i * periodLen) (periodBytes periodLen) else []

theorem built_period (owner base n i : ℕ) : PeriodDesc bufAddr periodLen i direction
    (built (cyclicArgs bufAddr bufLen periodLen direction) owner base n i).hw := by
  have hbytes : (built (cyclicArgs bufAddr bufLen periodLen direction) owner base n i).hw.bytes =
      periodBytes periodLen := bytes_period (a := cyclicArgs bufAddr bufLen periodLen direction) rfl (some base) i
  have hbuffer := addresses_mod (bufAddr + i * periodLen) (periodBytes periodLen)
  have hother := addresses_mod (i * periodLen) (periodBytes periodLen)
  refine ⟨Bool.and_false _, ?_, ?_⟩
  · unfold HwDesc.reads
    rw [hbytes]
    unfold built addressControl cyclicArgs
    cases direction with
    | memToDev => simpa using hbuffer
    | memToMem => simpa using hbuffer
    | devToMem => simp
    | devToDev => simp
  · unfold HwDesc.writes
    rw [hbytes]
    unfold built addressControl cyclicArgs
    cases direction with
    | memToDev => simp
    | devToDev => simp
    | devToMem => simpa using hbuffer
    | memToMem => simpa using hother

/-- **The chain** of a call that succeeds. -/
theorem prepCyclic_chain (hok : Accepted bufAddr bufLen periodLen) (hpos : periodLen ≠ 0)
    (hprep : prepCyclic c bufAddr bufLen periodLen direction alloc = (c', some h)) :
    0 < bufLen / periodLen ∧ h = c.fresh ∧ c'.pending = c.pending ++ List.range' c.fresh (bufLen / periodLen) ∧
    (∀ i < bufLen / periodLen, c'.walk h i = some (c.fresh + i)) ∧ c'.walk h (bufLen / periodLen) = some h ∧
    ∀ i < bufLen / periodLen, PeriodDesc bufAddr periodLen i direction (c'.mem (c.fresh + i)).hw := by
  have hsegments : 0 < bufLen / periodLen := by
    unfold Accepted at hok
    exact Nat.div_pos (by omega) (by omega)
  unfold prepCyclic at hprep
  rw [if_neg hok] at hprep
  obtain ⟨rfl, c₁, hp, rfl⟩ := finishPrep_some hsegments hprep
  have hnew : ∀ j < bufLen / periodLen, c₁.mem (c.fresh + j) =
    built (cyclicArgs bufAddr bufLen periodLen direction) c.preps c.fresh (bufLen / periodLen) j := hp.new
  have hwalk : ∀ i, Chan.walk { c₁ with active := c.active ++ [c.preps] } c.fresh i = c₁.walk c.fresh i := by
    intro i
    refine walk_congr (c := c₁) ?_ c.fresh i
    rfl
  refine ⟨hsegments, rfl, hp.pending, fun i hi => ?_, ?_, fun i hi => ?_⟩
  · rw [hwalk]
    exact walk_built (a := cyclicArgs bufAddr bufLen periodLen direction) hnew hi
  · rw [hwalk]
    exact walk_closed (a := cyclicArgs bufAddr bufLen periodLen direction) rfl hsegments hnew
  · simp only
    rw [hnew i hi]
    exact built_period c.preps c.fresh (bufLen / periodLen) i

/-- It succeeds when every allocation does. -/
theorem prepCyclic_succeeds (c : Chan) (direction : Direction) (hok : Accepted bufAddr bufLen periodLen)
    (hpos : periodLen ≠ 0) :
    ∃ c' h, prepCyclic c bufAddr bufLen periodLen direction (fun _ => (true, true)) = (c', some h) := by
  have hsegments : 0 < bufLen / periodLen := by
    unfold Accepted at hok
    exact Nat.div_pos (by omega) (by omega)
  unfold prepCyclic
  rw [if_neg hok]
  change ∃ c' h, finishPrep (hwDescInit c (cyclicArgs bufAddr bufLen periodLen direction) fun _ => (true, true)) =
    (c', some h)
  rcases hwDescInit_spec c (cyclicArgs bufAddr bufLen periodLen direction) fun _ => (true, true) with
    ⟨c₁, hinit, hp⟩ | ⟨j, c₁, -, -, -, hfail⟩
  · have hhead := hp.headDesc
    have hsome : (cyclicArgs bufAddr bufLen periodLen direction).len ≠ 0 := Nat.pos_iff_ne_zero.1 hsegments
    rw [if_neg hsome] at hhead
    rw [hinit]
    unfold finishPrep
    simp only [if_true, hhead]
    exact ⟨_, _, rfl⟩
  · exact absurd rfl hfail

/-! ## One round -/

variable {f g : ℕ → List ℕ} {base n b : ℕ}

theorem round_congr (hfg : ∀ i < n, f (base + i) = g i) :
    (List.range' base n).flatMap f = (List.range n).flatMap g := by
  rw [List.range'_eq_map_range, List.flatMap_map]
  apply List.flatMap_congr
  intro i hi
  exact hfg i (List.mem_range.1 hi)

theorem round_length (hb : ∀ i < n, (f (base + i)).length = b) :
    ((List.range' base n).flatMap f).length = n * b := by
  induction n with
  | zero => simp
  | succ n ih =>
    rw [List.range'_1_concat, List.flatMap_append, List.length_append, ih fun i hi => hb i (by omega),
      List.flatMap_singleton, hb n (Nat.lt_succ_self n), Nat.succ_mul]

theorem round_nil (hf : ∀ i < n, f (base + i) = []) : (List.range' base n).flatMap f = [] := by
  apply List.eq_nil_of_length_eq_zero
  rw [round_length (b := 0) fun i hi => by rw [hf i hi, List.length_nil], Nat.mul_zero]

/-- The descriptors transfer as many bytes as the buffer has only if each transfers its period. -/
theorem even_of_total (hok : Accepted bufAddr bufLen periodLen) (hpos : periodLen ≠ 0)
    (htotal : bufLen / periodLen * periodBytes periodLen = bufLen) : periodLen ∣ bufLen ∧ periodLen ≤ 2 ^ 27 := by
  have hsegments : 0 < bufLen / periodLen := by
    unfold Accepted at hok
    exact Nat.div_pos (by omega) (by omega)
  -- neither the count of a descriptor nor the quotient ever rounds up
  have hle : bufLen / periodLen * periodBytes periodLen ≤ bufLen / periodLen * periodLen :=
    Nat.mul_le_mul_left _ (periodBytes_le hpos)
  have hless : bufLen / periodLen * periodLen ≤ bufLen := Nat.div_mul_le_self bufLen periodLen
  have hfill : bufLen / periodLen * periodLen = bufLen := by omega
  refine ⟨Dvd.intro_left _ hfill, (periodBytes_eq hpos).1 ?_⟩
  exact Nat.eq_of_mul_eq_mul_left hsegments (htotal.trans hfill.symm)

/-- What one side of the engine transfers in a round, when it is the buffer's side. -/
theorem round_buffer (heven : EvenPeriods bufLen periodLen direction)
    (hf : ∀ i < bufLen / periodLen, f (base + i) = addresses (bufAddr + i * periodLen) (periodBytes periodLen)) :
    (List.range' base (bufLen / periodLen)).flatMap f = addresses bufAddr bufLen := by
  -- a descriptor transfers its whole period, and the periods end with the buffer
  rw [(periodBytes_eq heven.pos).2 heven.counted] at hf
  rw [round_congr hf, flatMap_addresses, Nat.div_mul_cancel heven.fills]

/-- What a side of the engine transfers in a round is the buffer only if the periods are even. -/
theorem even_of_side {side : List ℕ} (hok : Accepted bufAddr bufLen periodLen) (hpos : periodLen ≠ 0)
    (hslave : direction = .memToDev ∨ direction = .devToMem)
    (hlen : side.length = bufLen / periodLen * periodBytes periodLen) (hside : side = addresses bufAddr bufLen) :
    EvenPeriods bufLen periodLen direction := by
  rw [hside, length_addresses] at hlen
  obtain ⟨hfills, hcounted⟩ := even_of_total hok hpos hlen.symm
  exact ⟨hslave, hpos, hfills, hcounted⟩

/-- A call of which all allocations succeed transfers its buffer only if the periods are even. -/
theorem even_of_cycled (hok : Accepted bufAddr bufLen periodLen)
    (hcycled : Cycled c bufAddr bufLen periodLen direction fun _ => (true, true)) :
    EvenPeriods bufLen periodLen direction := by
  obtain ⟨c', ret, hdivide, hchain⟩ := hcycled
  unfold dividePrepCyclic at hdivide
  by_cases hpos : periodLen = 0
  · -- the division comes before the checks
    rw [if_pos hpos] at hdivide
    exact absurd hdivide (by simp)
  rw [if_neg hpos] at hdivide
  obtain ⟨c₁, h, hprep⟩ := prepCyclic_succeeds c direction hok hpos
  obtain ⟨rfl, rfl⟩ : c' = c₁ ∧ ret = some h := Prod.mk.inj ((Option.some.inj hdivide).symm.trans hprep)
  obtain ⟨hsegments, rfl, hpending, -, -, hdesc⟩ := prepCyclic_chain hok hpos hprep
  obtain ⟨hs, hadded, -, -, -, -, -, hbuffer⟩ := hchain c.fresh rfl
  obtain rfl : hs = List.range' c.fresh (bufLen / periodLen) := List.append_cancel_left (hadded.symm.trans hpending)
  have hfull : ∀ (f : ℕ → List ℕ) (addr : ℕ → ℕ),
      (∀ i < bufLen / periodLen, f (c.fresh + i) = addresses (addr i) (periodBytes periodLen)) →
      ((List.range' c.fresh (bufLen / periodLen)).flatMap f).length = bufLen / periodLen * periodBytes periodLen :=
    fun f addr hf => round_length fun i hi => by rw [hf i hi, length_addresses]
  have hsome : ∀ {side : List ℕ}, side.length = bufLen / periodLen * periodBytes periodLen → side ≠ [] := by
    intro side hlen hnil
    rw [hnil, List.length_nil] at hlen
    exact absurd hlen.symm (Nat.ne_of_gt (Nat.mul_pos hsegments (Nat.succ_pos _)))
  have hbuf : addresses bufAddr bufLen ≠ [] := by
    intro hnil
    have hlen := length_addresses bufAddr bufLen
    rw [hnil, List.length_nil] at hlen
    exact hok (Or.inr (Or.inl hlen.symm))
  -- one side transfers the buffer, and the other one nothing
  cases direction with
  | memToDev =>
    have hreads := hfull (fun k => (c'.mem k).hw.reads .memToDev) (fun i => bufAddr + i * periodLen)
      fun i hi => (hdesc i hi).reads
    rcases hbuffer with hb | hb
    · exact even_of_side hok hpos (Or.inl rfl) hreads (Prod.mk.inj hb).1
    · exact absurd (Prod.mk.inj hb).1 (hsome hreads)
  | devToMem =>
    have hwrites := hfull (fun k => (c'.mem k).hw.writes .devToMem) (fun i => bufAddr + i * periodLen)
      fun i hi => (hdesc i hi).writes
    rcases hbuffer with hb | hb
    · exact absurd (Prod.mk.inj hb).2 (hsome hwrites)
    · exact even_of_side hok hpos (Or.inr rfl) hwrites (Prod.mk.inj hb).2
  | memToMem =>
    have hreads := hfull (fun k => (c'.mem k).hw.reads .memToMem) (fun i => bufAddr + i * periodLen)
      fun i hi => (hdesc i hi).reads
    have hwrites := hfull (fun k => (c'.mem k).hw.writes .memToMem) (fun i => i * periodLen)
      fun i hi => (hdesc i hi).writes
    rcases hbuffer with hb | hb
    · exact absurd (Prod.mk.inj hb).2 (hsome hwrites)
    · exact absurd (Prod.mk.inj hb).1 (hsome hreads)
  | devToDev =>
    have hreads := round_nil (f := fun k => (c'.mem k).hw.reads .devToDev) fun i hi => (hdesc i hi).reads
    have hwrites := round_nil (f := fun k => (c'.mem k).hw.writes .devToDev) fun i hi => (hdesc i hi).writes
    rcases hbuffer with hb | hb
    · exact absurd ((Prod.mk.inj hb).1.symm.trans hreads) hbuf
    · exact absurd ((Prod.mk.inj hb).2.symm.trans hwrites) hbuf

/-- With even periods, whatever a call returns is the cycle of its buffer. -/
theorem cycled_of_even (hok : Accepted bufAddr bufLen periodLen) (heven : EvenPeriods bufLen periodLen direction)
    (alloc : ℕ → Bool × Bool) : Cycled c bufAddr bufLen periodLen direction alloc := by
  obtain ⟨c', ret, hprep⟩ : ∃ c' ret, prepCyclic c bufAddr bufLen periodLen direction alloc = (c', ret) :=
    ⟨_, _, rfl⟩
  refine ⟨c', ret, ?_, fun h hret => ?_⟩
  · unfold dividePrepCyclic
    rw [if_neg heven.pos, hprep]
  rw [hret] at hprep
  obtain ⟨hsegments, rfl, hpending, hwalk, hclosed, hdesc⟩ := prepCyclic_chain hok heven.pos hprep
  refine ⟨List.range' c.fresh (bufLen / periodLen), hpending, ?_, List.nodup_range', fun i hi => ?_, ?_, ?_, ?_⟩
  · rw [List.length_range']
    exact hsegments
  · rw [List.length_range'] at hi
    rw [hwalk i hi, List.getElem?_range' hi, Nat.one_mul]
  · rw [List.length_range']
    exact hclosed
  · intro k hk
    obtain ⟨i, hi, rfl⟩ := List.mem_range'.1 hk
    rw [Nat.one_mul]
    exact (hdesc i hi).open_
  · rcases heven.slave with rfl | rfl
    · exact Or.inl (Prod.ext (round_buffer heven fun i hi => (hdesc i hi).reads)
        (round_nil fun i hi => (hdesc i hi).writes))
    · exact Or.inr (Prod.ext (round_nil fun i hi => (hdesc i hi).reads)
        (round_buffer heven fun i hi => (hdesc i hi).writes))

/-- **One round of a cyclic transfer transfers its buffer** if and only if the periods fill the buffer, each can be
counted by a descriptor, and the transfer is from or to a device. -/
theorem cyclic_chain_iff (c : Chan) (bufAddr bufLen periodLen : ℕ) (direction : Direction)
    (hok : Accepted bufAddr bufLen periodLen) :
    (∀ alloc, Cycled c bufAddr bufLen periodLen direction alloc) ↔ EvenPeriods bufLen periodLen direction :=
  ⟨fun hcycled => even_of_cycled hok (hcycled _), fun heven => cycled_of_even hok heven⟩

theorem cyclic_chain_iff_even : Accepted 4096 1024 512 ∧ ∀ alloc, Cycled .rest 4096 1024 512 .memToDev alloc := by
  have hok : Accepted 4096 1024 512 := by
    unfold Accepted
    decide
  have heven : EvenPeriods 1024 512 .memToDev := ⟨Or.inl rfl, by decide, by decide, by decide⟩
  exact ⟨hok, (cyclic_chain_iff .rest 4096 1024 512 .memToDev hok).2 heven⟩

/-- **A period of no bytes** is accepted, and divided by. -/
theorem zero_period_divides : Accepted 4096 1024 0 ∧
    dividePrepCyclic .rest 4096 1024 0 .memToDev (fun _ => (true, true)) = none ∧
    ¬ Cycled .rest 4096 1024 0 .memToDev (fun _ => (true, true)) := by
  refine ⟨by unfold Accepted; decide, rfl, ?_⟩
  rintro ⟨c', ret, hdivide, -⟩
  exact absurd hdivide (by simp [dividePrepCyclic])

end Br2Efinix.EfxDma
