import Mathlib.Algebra.GroupWithZero.Nat
import Br2Efinix.Lib.History
import Br2Efinix.Lib.Paint

/-!
# The overlays of the vision demo

The commands of `main_proc` that draw into the layer and the title, and `do_rx_proc`, which puts both on the
picture of the camera and captures it. A frame is taken as one step, with no command in the middle of it. The font
is a parameter, as are the pictures of the camera. The part for the hardware accelerator is compiled out.

* `drawChar_render`: drawing a character that fits into its row draws that cell of the text and nothing else.
* `overlay_apply`, `capturePart_apply`: the loops of `do_rx_proc`, pixel by pixel.
* `overlays_shown`: in every run in which the characters fit into their rows, both overlays show the last characters set
  since they were cleared; the display gets the title's text over the layer's text over the camera's picture; a
  capture is that picture without the title; and the layer's buffer is never taken for the grayscale one that it
  shares.
-/

namespace Br2Efinix.EvSoc

def FRAME_WIDTH : ℕ := 1280
def FRAME_HEIGHT : ℕ := 720
def TITLE_HIGH : ℕ := 18
def CMD_SET_CAPTURE_FULL : BitVec 8 := 1#8
def CMD_SET_CAPTURE_PART : BitVec 8 := 2#8

/-- A buffer of pixels. -/
abbrev Buf := ℕ → BitVec 32

/-! ## Characters -/

/-- `is_ch_show`, on a font of eight bytes a character. -/
def isChShow (font : List (BitVec 8)) (ch : BitVec 8) (posY posX scan : ℕ) : Bool :=
  match font[ch.toNat * 8 + posY / scan]? with
  | none => false
  | some row => row &&& (0x80#8 >>> (posX / scan)) ≠ 0#8

/-- The colour of a type, with a byte that says that the pixel is set. -/
def colour (type : BitVec 8) : BitVec 32 :=
  if type = 1#8 then 0x01FF0000#32
  else if type = 2#8 then 0x01FFFFFF#32
  else if type = 3#8 then 0x01000000#32
  else 0x0100FF00#32

/-- The fields of the argument of `CMD_SET_CHAR` and `CMD_SET_MSG`. -/
structure CharArg where
  ch : BitVec 8
  type : BitVec 8
  posY : BitVec 8
  posX : BitVec 8
  deriving DecidableEq, Repr

def CharArg.ofArg {w : ℕ} (arg : BitVec w) : CharArg :=
  { ch := arg.extractLsb' 0 8, type := arg.extractLsb' 8 8, posY := arg.extractLsb' 16 8, posX := arg.extractLsb' 24 8 }

/-- How a buffer takes characters: the distance of the cells, the size of a character, how often its dots are
repeated, and the number of pixels. -/
structure TextMode where
  pitch : ℕ
  size : ℕ
  scan : ℕ
  limit : ℕ
  deriving DecidableEq, Repr

/-- The loops of `CMD_SET_CHAR` and `CMD_SET_MSG`. -/
def drawChar (m : TextMode) (font : List (BitVec 8)) (a : CharArg) (buf : Buf) : Buf :=
  (List.range m.size).foldl (fun buf lY =>
    (List.range m.size).foldl (fun buf lX =>
      let tmpPos := (a.posY.toNat * m.pitch + lY) * FRAME_WIDTH + a.posX.toNat * m.pitch + lX
      if tmpPos ≥ m.limit then buf
      else Function.update buf tmpPos (if isChShow font a.ch lY lX m.scan then colour a.type else 0#32)) buf) buf

/-- `CMD_SET_CHAR`. -/
def charMode : TextMode := { pitch := 9, size := 8, scan := 1, limit := FRAME_WIDTH * FRAME_HEIGHT }

/-- `CMD_SET_MSG`. -/
def msgMode : TextMode := { pitch := 16, size := 16, scan := 2, limit := FRAME_WIDTH * TITLE_HIGH }

/-- A loop that sets the first `n` pixels to zero. -/
def clearBuf (n : ℕ) (buf : Buf) : Buf := (List.range n).foldl (fun buf i => Function.update buf i 0#32) buf

/-! ## The frame -/

/-- The overlay loops of `do_rx_proc`, over so many rows, with the place of a pixel. -/
def overlay (rows : ℕ) (toPos : ℕ → ℕ → ℕ) (src dst : Buf) : Buf :=
  (List.range rows).foldl (fun dst row =>
    (List.range FRAME_WIDTH).foldl (fun dst col =>
      let tmpPos := row * FRAME_WIDTH + col
      if src tmpPos &&& 0xFF000000#32 ≠ 0#32 then Function.update dst (toPos row col) (src tmpPos &&& 0x00FFFFFF#32)
      else dst) dst) dst

def layerOverlay : Buf → Buf → Buf := overlay FRAME_HEIGHT fun row col => row * FRAME_WIDTH + col

def titleOverlay : Buf → Buf → Buf := overlay TITLE_HIGH fun row col => (row + 3) * FRAME_WIDTH + (col + 3)

/-- `memcpy` of a frame, or the end of a DMA transfer of one. -/
def copyFrame (src dst : Buf) : Buf := fun p => if p < FRAME_WIDTH * FRAME_HEIGHT then src p else dst p

/-- The loop of `CMD_SET_CAPTURE_PART`. -/
def capturePart (src dst : Buf) : Buf :=
  (List.range (FRAME_HEIGHT / 2)).foldl (fun dst i =>
    (List.range (FRAME_WIDTH / 2)).foldl (fun dst j =>
      Function.update dst (i * (FRAME_WIDTH / 2) + j) (src (i * 2 * FRAME_WIDTH + j * 2))) dst) dst

/-- One pixel of `rgb2grayscale`. -/
def grayPixel (p : BitVec 32) : BitVec 32 :=
  let gray := (30 * (p.extractLsb' 0 8).toNat + 59 * (p.extractLsb' 8 8).toNat + 11 * (p.extractLsb' 16 8).toNat) / 100
  BitVec.ofNat 32 (gray * 2 ^ 16 + gray * 2 ^ 8 + gray)

def rgb2grayscale (src dst : Buf) : Buf :=
  (List.range (FRAME_WIDTH * FRAME_HEIGHT)).foldl (fun dst i => Function.update dst i (grayPixel (src i))) dst

/-- The buffers and the variables that `main_proc` and `do_rx_proc` share: `cam_dma_cpu_arry`, the title's buffer,
and so on. Only observed are the captures signalled. -/
structure Demo where
  frames : ℕ → Buf
  titleMsgBuf : Buf
  lay0IsReady : BitVec 32
  titleIsReady : BitVec 32
  captureMode : BitVec 8
  selectDemoMode : BitVec 32
  txBufIdx : ℕ
  rxBufIdx : ℕ
  signals : List (BitVec 8)

namespace Demo

def setFrame (d : Demo) (i : ℕ) (buf : Buf) : Demo := { d with frames := Function.update d.frames i buf }

/-- `do_rx_proc` up to the capture: the camera fills the buffer, and the layer is put on it. -/
def layered (d : Demo) (image : Buf) : Demo :=
  let d := d.setFrame d.rxBufIdx (copyFrame image (d.frames d.rxBufIdx))
  if d.lay0IsReady > 0#32 then d.setFrame d.rxBufIdx (layerOverlay (d.frames 1) (d.frames d.rxBufIdx)) else d

/-- The capture. -/
def captured (d : Demo) : Demo :=
  if d.captureMode = CMD_SET_CAPTURE_FULL then
    { d.setFrame 3 (copyFrame (d.frames d.rxBufIdx) (d.frames 3)) with
      signals := d.signals ++ [d.captureMode], captureMode := 0#8 }
  else if d.captureMode = CMD_SET_CAPTURE_PART then
    { d.setFrame 3 (capturePart (d.frames d.rxBufIdx) (d.frames 3)) with
      signals := d.signals ++ [d.captureMode], captureMode := 0#8 }
  else d

/-- The title. -/
def titled (d : Demo) : Demo :=
  if d.titleIsReady > 0#32 then d.setFrame d.rxBufIdx (titleOverlay d.titleMsgBuf (d.frames d.rxBufIdx)) else d

/-- The rest: the grayscale picture, and the swap of the indices. -/
def processed (d : Demo) : Demo :=
  let d := if d.selectDemoMode = 1#32 then d.setFrame 1 (rgb2grayscale (d.frames d.rxBufIdx) (d.frames 1)) else d
  { d with txBufIdx := d.rxBufIdx, rxBufIdx := d.txBufIdx }

/-- `do_rx_proc(select_demo_mode)`. -/
def doRxProc (d : Demo) (image : Buf) : Demo := (((d.layered image).captured).titled).processed

end Demo

/-! ## Runs -/

/-- The commands of `main_proc` that the frame depends on, and a frame. -/
inductive DemoAct
  | setMode (arg : ℕ)
  | setCapture (arg : BitVec 8)
  | setLayer (arg : BitVec 32)
  | setChar (a : CharArg)
  | clrMsg (arg : BitVec 32)
  | setMsg (a : CharArg)
  | frame (image : Buf)

/-- `main_proc`, or a round of `evsoc_thread_fun_rx`. -/
def Demo.step (font : List (BitVec 8)) (d : Demo) : DemoAct → Demo
  | .setMode arg => { d with selectDemoMode := if arg = 1 then 2#32 else if arg = 2 then 3#32 else 0#32 }
  | .setCapture arg => { d with captureMode := arg }
  | .setLayer arg =>
    if arg = 3#32 then
      { d.setFrame 1 (clearBuf (FRAME_WIDTH * FRAME_HEIGHT) (d.frames 1)) with lay0IsReady := 0#32 }
    else { d with lay0IsReady := arg }
  | .setChar a => d.setFrame 1 (drawChar charMode font a (d.frames 1))
  | .clrMsg arg =>
    if arg = 3#32 then
      { d with titleIsReady := 0#32, titleMsgBuf := clearBuf (FRAME_WIDTH * TITLE_HIGH) d.titleMsgBuf }
    else { d with titleIsReady := arg }
  | .setMsg a => { d with titleMsgBuf := drawChar msgMode font a d.titleMsgBuf }
  | .frame image => d.doRxProc image

/-- After `start_tx`: the layer and the title are clear up to their sizes. -/
def Demo.started (frames : ℕ → Buf) (titleMsgBuf : Buf) : Demo :=
  { frames := Function.update frames 1 (clearBuf (FRAME_WIDTH * FRAME_HEIGHT) (frames 1))
    titleMsgBuf := clearBuf (FRAME_WIDTH * TITLE_HIGH) titleMsgBuf
    lay0IsReady := 0#32, titleIsReady := 0#32, captureMode := 0#8, selectDemoMode := 0#32
    txBufIdx := 0, rxBufIdx := 2, signals := [] }

def Demo.run (font : List (BitVec 8)) (d : Demo) (as : List DemoAct) : Demo := as.foldl (Demo.step font) d

/-! ## What is to be shown -/

/-- A text: the character and its type in each cell, by column and row. -/
abbrev Text := ℕ → ℕ → Option (BitVec 8 × BitVec 8)

def Text.put (t : Text) (a : CharArg) : Text :=
  fun x y => if x = a.posX.toNat ∧ y = a.posY.toNat then some (a.ch, a.type) else t x y

/-- The pixels of a text. -/
def render (m : TextMode) (font : List (BitVec 8)) (t : Text) : Buf := fun p =>
  let row := p / FRAME_WIDTH
  let col := p % FRAME_WIDTH
  if row % m.pitch < m.size ∧ col % m.pitch < m.size then
    match t (col / m.pitch) (row / m.pitch) with
    | none => 0#32
    | some (ch, type) => if isChShow font ch (row % m.pitch) (col % m.pitch) m.scan then colour type else 0#32
  else 0#32

/-- The pixels of a text put on a picture, where they are set. -/
def onto (text picture : Buf) : Buf := fun p =>
  if text p &&& 0xFF000000#32 ≠ 0#32 then text p &&& 0x00FFFFFF#32 else picture p

/-- How far on the title is put. -/
def TITLE_SHIFT : ℕ := 3 * FRAME_WIDTH + 3

/-- The title put on a picture, `TITLE_SHIFT` pixels on. -/
def titleOnto (text picture : Buf) : Buf := fun p =>
  if TITLE_SHIFT ≤ p ∧ p - TITLE_SHIFT < TITLE_HIGH * FRAME_WIDTH then onto (fun q => text (q - TITLE_SHIFT)) picture p
  else picture p

/-- What an action sets of the two texts, the layer's and the title's. -/
def textsStep (t : Text × Text) : DemoAct → Text × Text
  | .setLayer arg => if arg = 3#32 then (fun _ _ => none, t.2) else t
  | .setChar a => (t.1.put a, t.2)
  | .clrMsg arg => if arg = 3#32 then (t.1, fun _ _ => none) else t
  | .setMsg a => (t.1, t.2.put a)
  | .setMode _ | .setCapture _ | .frame _ => t

/-- The texts that a run has set. -/
def texts (as : List DemoAct) : Text × Text := as.foldl textsStep (fun _ _ => none, fun _ _ => none)

/-- A character that does not reach past the end of its row. -/
def TextMode.Fits (m : TextMode) (a : CharArg) : Prop := a.posX.toNat * m.pitch + m.size ≤ FRAME_WIDTH

instance (m : TextMode) (a : CharArg) : Decidable (m.Fits a) := inferInstanceAs (Decidable (_ ≤ _))

def DemoAct.Fits : DemoAct → Prop
  | .setChar a => charMode.Fits a
  | .setMsg a => msgMode.Fits a
  | .setMode _ | .setCapture _ | .setLayer _ | .clrMsg _ | .frame _ => True

instance : ∀ a, Decidable (DemoAct.Fits a)
  | .setChar a => inferInstanceAs (Decidable (charMode.Fits a))
  | .setMsg a => inferInstanceAs (Decidable (msgMode.Fits a))
  | .setMode _ | .setCapture _ | .setLayer _ | .clrMsg _ | .frame _ => isTrue trivial

variable {m : TextMode} {font : List (BitVec 8)} {a : CharArg} {t : Text} {buf src dst : Buf} {p : ℕ}

/-! ## The loops -/

/-- A row and a column in it, or a cell and a dot in it. -/
theorem pos_div_mod {width col : ℕ} (row : ℕ) (hcol : col < width) :
    (row * width + col) / width = row ∧ (row * width + col) % width = col := by
  constructor
  · rw [Nat.mul_comm, Nat.mul_add_div (by omega), Nat.div_eq_of_lt hcol, Nat.add_zero]
  · rw [Nat.mul_add_mod', Nat.mod_eq_of_lt hcol]

theorem pos_eq (p : ℕ) : p / FRAME_WIDTH * FRAME_WIDTH + p % FRAME_WIDTH = p := by
  rw [Nat.mul_comm]
  exact Nat.div_add_mod p FRAME_WIDTH

/-- What one round of the loops of a character writes. -/
def charWrite (m : TextMode) (font : List (BitVec 8)) (a : CharArg) (l : ℕ × ℕ) : Option (ℕ × BitVec 32) :=
  let tmpPos := (a.posY.toNat * m.pitch + l.1) * FRAME_WIDTH + a.posX.toNat * m.pitch + l.2
  if tmpPos ≥ m.limit then none
  else some (tmpPos, if isChShow font a.ch l.1 l.2 m.scan then colour a.type else 0#32)

theorem drawChar_eq (m : TextMode) (font : List (BitVec 8)) (a : CharArg) (buf : Buf) :
    drawChar m font a buf = paint (charWrite m font a) (List.range m.size ×ˢ List.range m.size) buf := by
  refine foldl_nested ?_ _ _ buf
  intro buf lY lX
  unfold paintOne charWrite
  simp only
  split <;> rfl

/-- Writing past the limit is left out. -/
theorem drawChar_limit (hp : m.limit ≤ p) : drawChar m font a buf p = buf p := by
  rw [drawChar_eq]
  refine paint_apply_of_not fun l _ v hl => ?_
  unfold charWrite at hl
  simp only at hl
  split at hl
  · exact absurd hl (by simp)
  · rename_i hlt
    simp only [Option.some.injEq, Prod.mk.injEq] at hl
    omega

/-- The rest of the buffer is not cleared. -/
theorem clearBuf_apply (n : ℕ) : clearBuf n buf p = if p < n then 0#32 else buf p := by
  have hloop : clearBuf n buf = paint (fun i => some (i, 0#32)) (List.range n) buf := rfl
  rw [hloop]
  split
  · rename_i hp
    refine paint_apply ⟨p, List.mem_range.2 hp, rfl⟩ fun j _ w hw => ?_
    simp only [Option.some.injEq, Prod.mk.injEq] at hw
    exact hw.2.symm
  · rename_i hp
    refine paint_apply_of_not fun j hj w hw => hp ?_
    simp only [Option.some.injEq, Prod.mk.injEq] at hw
    rw [← hw.1]
    exact List.mem_range.1 hj

theorem clearBuf_render (n : ℕ) (hp : p < n) : clearBuf n buf p = render m font (fun _ _ => none) p := by
  rw [clearBuf_apply, if_pos hp]
  unfold render
  simp

/-- The place that a round of the overlay's loops reads. -/
def loopPos (l : ℕ × ℕ) : ℕ := l.1 * FRAME_WIDTH + l.2

/-- **The overlay**, pixel by pixel: a picture put on another one, `shift` pixels on. -/
theorem overlay_apply {rows : ℕ} {toPos : ℕ → ℕ → ℕ} (shift : ℕ)
    (hto : ∀ row col, toPos row col = row * FRAME_WIDTH + col + shift) :
    overlay rows toPos src dst p =
      if shift ≤ p ∧ p - shift < rows * FRAME_WIDTH then onto (fun q => src (q - shift)) dst p else dst p := by
  let value (l : ℕ × ℕ) : Option (BitVec 32) :=
    if src (loopPos l) &&& 0xFF000000#32 ≠ 0#32 then some (src (loopPos l) &&& 0x00FFFFFF#32) else none
  have hloop : overlay rows toPos src dst = paint (fun l => (value l).map fun v => (loopPos l + shift, v))
      (List.range rows ×ˢ List.range FRAME_WIDTH) dst := by
    refine foldl_nested ?_ _ _ dst
    intro dst row col
    unfold paintOne
    simp only [hto, value, loopPos]
    by_cases hset : src (row * FRAME_WIDTH + col) &&& 0xFF000000#32 = 0#32
    · simp only [hset, ne_eq, not_true_eq_false, if_false, Option.map_none]
    · simp only [hset, ne_eq, not_false_eq_true, if_true, Option.map_some]
  rw [hloop]
  split
  · rename_i hp
    -- the round of the loops for the pixel
    have hcell : loopPos ((p - shift) / FRAME_WIDTH, (p - shift) % FRAME_WIDTH) = p - shift := pos_eq _
    have hmem : ((p - shift) / FRAME_WIDTH, (p - shift) % FRAME_WIDTH) ∈ List.range rows ×ˢ List.range FRAME_WIDTH := by
      rw [List.mem_product, List.mem_range, List.mem_range]
      exact ⟨Nat.div_lt_of_lt_mul (by rw [Nat.mul_comm]; exact hp.2), Nat.mod_lt _ (by decide)⟩
    have hinj : ∀ l ∈ List.range rows ×ˢ List.range FRAME_WIDTH, ∀ k ∈ List.range rows ×ˢ List.range FRAME_WIDTH,
        loopPos l + shift = loopPos k + shift → l = k := by
      intro l hl k hk heq
      rw [List.mem_product, List.mem_range, List.mem_range] at hl hk
      have h1 := pos_div_mod l.1 hl.2
      have h2 := pos_div_mod k.1 hk.2
      rw [show l.1 * FRAME_WIDTH + l.2 = k.1 * FRAME_WIDTH + k.2 from Nat.add_right_cancel heq] at h1
      exact Prod.ext (h1.1.symm.trans h2.1) (h1.2.symm.trans h2.2)
    have hval := paint_of_injOn (y := dst) (fun l => loopPos l + shift) value hinj hmem
    simp only [hcell, Nat.sub_add_cancel hp.1, value] at hval
    rw [hval]
    unfold onto
    by_cases hset : src (p - shift) &&& 0xFF000000#32 ≠ 0#32
    · rw [if_pos hset, if_pos hset, Option.getD_some]
    · rw [if_neg hset, if_neg hset, Option.getD_none]
  · rename_i hp
    refine paint_apply_of_not fun l hl v hv => hp ?_
    rw [List.mem_product, List.mem_range, List.mem_range] at hl
    obtain ⟨u, -, heq⟩ := Option.map_eq_some_iff.1 hv
    simp only [Prod.mk.injEq, loopPos] at heq
    have hrow : (l.1 + 1) * FRAME_WIDTH ≤ rows * FRAME_WIDTH := Nat.mul_le_mul_right _ hl.1
    rw [Nat.add_mul, Nat.one_mul] at hrow
    omega

/-- **The capture of half the size** takes every second pixel of every second row. -/
theorem capturePart_apply {i j : ℕ} (hi : i < FRAME_HEIGHT / 2) (hj : j < FRAME_WIDTH / 2) :
    capturePart src dst (i * (FRAME_WIDTH / 2) + j) = src (2 * i * FRAME_WIDTH + 2 * j) := by
  let cell (l : ℕ × ℕ) : ℕ := l.1 * (FRAME_WIDTH / 2) + l.2
  let value (l : ℕ × ℕ) : Option (BitVec 32) := some (src (l.1 * 2 * FRAME_WIDTH + l.2 * 2))
  have hloop : capturePart src dst = paint (fun l => (value l).map fun v => (cell l, v))
      (List.range (FRAME_HEIGHT / 2) ×ˢ List.range (FRAME_WIDTH / 2)) dst := by
    refine foldl_nested ?_ _ _ dst
    intro dst i j
    unfold paintOne
    simp only [value, cell, Option.map_some]
  have hmem : (i, j) ∈ List.range (FRAME_HEIGHT / 2) ×ˢ List.range (FRAME_WIDTH / 2) := by
    rw [List.mem_product, List.mem_range, List.mem_range]
    exact ⟨hi, hj⟩
  have hinj : ∀ l ∈ List.range (FRAME_HEIGHT / 2) ×ˢ List.range (FRAME_WIDTH / 2),
      ∀ k ∈ List.range (FRAME_HEIGHT / 2) ×ˢ List.range (FRAME_WIDTH / 2), cell l = cell k → l = k := by
    intro l hl k hk heq
    rw [List.mem_product, List.mem_range, List.mem_range] at hl hk
    have h1 := pos_div_mod l.1 hl.2
    have h2 := pos_div_mod k.1 hk.2
    rw [show l.1 * (FRAME_WIDTH / 2) + l.2 = k.1 * (FRAME_WIDTH / 2) + k.2 from heq] at h1
    exact Prod.ext (h1.1.symm.trans h2.1) (h1.2.symm.trans h2.2)
  have hval := paint_of_injOn (y := dst) cell value hinj hmem
  rw [hloop]
  refine hval.trans ?_
  simp only [value, Option.getD_some]
  rw [Nat.mul_comm i 2, Nat.mul_comm j 2]

-- from here on the loops are known by their pixels only
attribute [local irreducible] drawChar clearBuf overlay capturePart

/-! ## The parts of a frame -/

variable {d : Demo} {image : Buf} {as : List DemoAct} {i : ℕ}

@[simp] theorem setFrame_self (d : Demo) (i : ℕ) (buf : Buf) : (d.setFrame i buf).frames i = buf :=
  Function.update_self _ _ _

theorem setFrame_ne (d : Demo) (buf : Buf) {i j : ℕ} (h : j ≠ i) : (d.setFrame i buf).frames j = d.frames j :=
  Function.update_of_ne h _ _

/-- What a part of the frame leaves alone. -/
structure FrameKept (d d' : Demo) : Prop where
  rx : d'.rxBufIdx = d.rxBufIdx
  tx : d'.txBufIdx = d.txBufIdx
  mode : d'.selectDemoMode = d.selectDemoMode
  lay0 : d'.lay0IsReady = d.lay0IsReady
  titleReady : d'.titleIsReady = d.titleIsReady
  title : d'.titleMsgBuf = d.titleMsgBuf

theorem FrameKept.trans {d d' d'' : Demo} (h : FrameKept d d') (h' : FrameKept d' d'') : FrameKept d d'' :=
  ⟨h'.rx.trans h.rx, h'.tx.trans h.tx, h'.mode.trans h.mode, h'.lay0.trans h.lay0, h'.titleReady.trans h.titleReady,
    h'.title.trans h.title⟩

theorem layered_kept (d : Demo) (image : Buf) : FrameKept d (d.layered image) := by
  unfold Demo.layered
  simp only
  split <;> exact ⟨rfl, rfl, rfl, rfl, rfl, rfl⟩

theorem captured_kept (d : Demo) : FrameKept d d.captured := by
  unfold Demo.captured
  split
  · exact ⟨rfl, rfl, rfl, rfl, rfl, rfl⟩
  · split <;> exact ⟨rfl, rfl, rfl, rfl, rfl, rfl⟩

theorem titled_kept (d : Demo) : FrameKept d d.titled := by
  unfold Demo.titled
  split <;> exact ⟨rfl, rfl, rfl, rfl, rfl, rfl⟩

theorem layered_captureMode (d : Demo) (image : Buf) : (d.layered image).captureMode = d.captureMode := by
  unfold Demo.layered
  simp only
  split <;> rfl

theorem layered_other (image : Buf) (h : i ≠ d.rxBufIdx) : (d.layered image).frames i = d.frames i := by
  unfold Demo.layered
  simp only
  split
  · exact (setFrame_ne _ _ h).trans (setFrame_ne _ _ h)
  · exact setFrame_ne _ _ h

/-- **The layer on the camera's picture.** -/
theorem layered_rx (hrx : d.rxBufIdx ≠ 1) (hp : p < FRAME_WIDTH * FRAME_HEIGHT) :
    (d.layered image).frames d.rxBufIdx p = if d.lay0IsReady > 0#32 then onto (d.frames 1) image p else image p := by
  have hcopy : copyFrame image (d.frames d.rxBufIdx) p = image p := if_pos hp
  unfold Demo.layered
  simp only
  split
  · rename_i hready
    have hready' : d.lay0IsReady > 0#32 := hready
    rw [if_pos hready']
    have hrx' : (d.setFrame d.rxBufIdx (copyFrame image (d.frames d.rxBufIdx))).rxBufIdx = d.rxBufIdx := rfl
    rw [hrx', setFrame_self, setFrame_self, setFrame_ne _ _ (Ne.symm hrx)]
    unfold layerOverlay
    rw [overlay_apply 0 (fun _ _ => (Nat.add_zero _).symm),
      if_pos ⟨Nat.zero_le _, by rw [Nat.sub_zero, Nat.mul_comm]; exact hp⟩]
    unfold onto
    simp only [Nat.sub_zero, hcopy]
  · rename_i hready
    have hready' : ¬ d.lay0IsReady > 0#32 := hready
    rw [if_neg hready', setFrame_self, hcopy]

theorem captured_other (h : i ≠ 3) : d.captured.frames i = d.frames i := by
  unfold Demo.captured
  split
  · exact setFrame_ne _ _ h
  · split
    · exact setFrame_ne _ _ h
    · rfl

theorem captured_full (h : d.captureMode = CMD_SET_CAPTURE_FULL) (hp : p < FRAME_WIDTH * FRAME_HEIGHT) :
    d.captured.frames 3 p = d.frames d.rxBufIdx p := by
  unfold Demo.captured
  rw [if_pos h]
  exact (congrFun (setFrame_self d 3 _) p).trans (if_pos hp)

theorem captured_part (h : d.captureMode = CMD_SET_CAPTURE_PART) {i j : ℕ} (hi : i < FRAME_HEIGHT / 2)
    (hj : j < FRAME_WIDTH / 2) :
    d.captured.frames 3 (i * (FRAME_WIDTH / 2) + j) = d.frames d.rxBufIdx (2 * i * FRAME_WIDTH + 2 * j) := by
  have hcapture : d.captured.frames 3 = capturePart (d.frames d.rxBufIdx) (d.frames 3) := by
    unfold Demo.captured
    rw [if_neg (by rw [h]; decide), if_pos h]
    exact setFrame_self d 3 _
  rw [hcapture, capturePart_apply hi hj]

theorem titled_other (h : i ≠ d.rxBufIdx) : d.titled.frames i = d.frames i := by
  unfold Demo.titled
  split
  · exact setFrame_ne _ _ h
  · rfl

theorem titled_rx (p : ℕ) : d.titled.frames d.rxBufIdx p =
    if d.titleIsReady > 0#32 then titleOnto d.titleMsgBuf (d.frames d.rxBufIdx) p else d.frames d.rxBufIdx p := by
  unfold Demo.titled
  split
  · rw [setFrame_self]
    unfold titleOverlay titleOnto
    rw [overlay_apply TITLE_SHIFT]
    intro row col
    unfold TITLE_SHIFT
    rw [Nat.add_mul]
    omega
  · rfl

/-! ## Runs -/

/-- The indices of the two buffers that are swapped. -/
def Swapped (d : Demo) : Prop := d.txBufIdx = 0 ∧ d.rxBufIdx = 2 ∨ d.txBufIdx = 2 ∧ d.rxBufIdx = 0

structure DemoInv (font : List (BitVec 8)) (t : Text × Text) (d : Demo) : Prop where
  layer : ∀ p < FRAME_WIDTH * FRAME_HEIGHT, d.frames 1 p = render charMode font t.1 p
  title : ∀ p < FRAME_WIDTH * TITLE_HIGH, d.titleMsgBuf p = render msgMode font t.2 p
  mode : d.selectDemoMode ≠ 1#32
  swapped : Swapped d

/-- The picture with the layer's text. -/
def layerPicture (font : List (BitVec 8)) (t : Text × Text) (d : Demo) (image : Buf) : Buf := fun p =>
  if d.lay0IsReady > 0#32 then onto (render charMode font t.1) image p else image p

/-- The picture with both texts. -/
def shownPicture (font : List (BitVec 8)) (t : Text × Text) (d : Demo) (image : Buf) : Buf := fun p =>
  if d.titleIsReady > 0#32 then titleOnto (render msgMode font t.2) (layerPicture font t d image) p
  else layerPicture font t d image p

/-- What the next frame does, whatever the camera sends. -/
structure Shown (font : List (BitVec 8)) (t : Text × Text) (d : Demo) : Prop where
  buffer : ∀ image, (d.doRxProc image).txBufIdx = d.rxBufIdx ∧ d.rxBufIdx ≠ d.txBufIdx
  display : ∀ image, ∀ p < FRAME_WIDTH * FRAME_HEIGHT,
    (d.doRxProc image).frames (d.doRxProc image).txBufIdx p = shownPicture font t d image p
  full : d.captureMode = CMD_SET_CAPTURE_FULL → ∀ image, ∀ p < FRAME_WIDTH * FRAME_HEIGHT,
    (d.doRxProc image).frames 3 p = layerPicture font t d image p
  part : d.captureMode = CMD_SET_CAPTURE_PART → ∀ image, ∀ i < FRAME_HEIGHT / 2, ∀ j < FRAME_WIDTH / 2,
    (d.doRxProc image).frames 3 (i * (FRAME_WIDTH / 2) + j) =
      layerPicture font t d image (2 * i * FRAME_WIDTH + 2 * j)
  layer : ∀ image, (d.doRxProc image).frames 1 = d.frames 1
  title : ∀ image, (d.doRxProc image).titleMsgBuf = d.titleMsgBuf

variable {t : Text × Text}

theorem DemoInv.rx_ne (h : DemoInv font t d) : d.rxBufIdx ≠ 1 ∧ d.rxBufIdx ≠ 3 := by
  rcases h.swapped with hs | hs <;> rw [hs.2] <;> decide

/-- The frame up to the title, in the camera's buffer. -/
theorem titled_picture (h : DemoInv font t d) (hp : p < FRAME_WIDTH * FRAME_HEIGHT) :
    (d.layered image).captured.titled.frames d.rxBufIdx p = shownPicture font t d image p := by
  have hk1 := layered_kept d image
  have hk2 := hk1.trans (captured_kept (d.layered image))
  have hlayer : ∀ q < FRAME_WIDTH * FRAME_HEIGHT,
      (d.layered image).captured.frames d.rxBufIdx q = layerPicture font t d image q := by
    intro q hq
    rw [captured_other h.rx_ne.2, layered_rx h.rx_ne.1 hq]
    unfold layerPicture onto
    simp only [h.layer q hq]
  rw [← hk2.rx, titled_rx, hk2.rx, hk2.titleReady, hk2.title]
  unfold shownPicture
  split
  · unfold titleOnto
    split
    · rename_i hin
      have hq : p - TITLE_SHIFT < FRAME_WIDTH * TITLE_HIGH := by
        rw [Nat.mul_comm]
        exact hin.2
      unfold onto
      simp only [h.title _ hq, hlayer p hp]
    · exact hlayer p hp
  · exact hlayer p hp

theorem processed_frames (hmode : d.selectDemoMode ≠ 1#32) : d.processed.frames = d.frames := by
  unfold Demo.processed
  simp only
  rw [if_neg hmode]

theorem doRxProc_kept (d : Demo) (image : Buf) : FrameKept d (d.layered image).captured.titled :=
  ((layered_kept d image).trans (captured_kept _)).trans (titled_kept _)

/-- The end of a frame leaves the variables alone but for the two indices. -/
theorem processed_fields (d : Demo) :
    d.processed.txBufIdx = d.rxBufIdx ∧ d.processed.rxBufIdx = d.txBufIdx ∧
      d.processed.selectDemoMode = d.selectDemoMode ∧ d.processed.titleMsgBuf = d.titleMsgBuf := by
  unfold Demo.processed
  simp only
  split <;> exact ⟨rfl, rfl, rfl, rfl⟩

theorem doRxProc_fields (d : Demo) (image : Buf) :
    (d.doRxProc image).txBufIdx = d.rxBufIdx ∧ (d.doRxProc image).rxBufIdx = d.txBufIdx ∧
      (d.doRxProc image).selectDemoMode = d.selectDemoMode ∧ (d.doRxProc image).titleMsgBuf = d.titleMsgBuf := by
  have hkept := doRxProc_kept d image
  have h := processed_fields (d.layered image).captured.titled
  rw [hkept.rx, hkept.tx, hkept.mode, hkept.title] at h
  exact h

/-- **What the next frame shows.** -/
theorem DemoInv.shown (h : DemoInv font t d) : Shown font t d := by
  have hframes : ∀ image, (d.doRxProc image).frames = (d.layered image).captured.titled.frames := by
    intro image
    refine processed_frames ?_
    rw [(doRxProc_kept d image).mode]
    exact h.mode
  have hother : ∀ image i, i ≠ d.rxBufIdx → (d.doRxProc image).frames i = (d.layered image).captured.frames i := by
    intro image i hi
    have hrx : i ≠ (d.layered image).captured.rxBufIdx := by
      rw [((layered_kept d image).trans (captured_kept _)).rx]
      exact hi
    rw [hframes, titled_other hrx]
  have hlayer : ∀ image, ∀ p < FRAME_WIDTH * FRAME_HEIGHT,
      (d.layered image).frames d.rxBufIdx p = layerPicture font t d image p := by
    intro image p hp
    rw [layered_rx h.rx_ne.1 hp]
    unfold layerPicture onto
    simp only [h.layer p hp]
  refine ⟨fun image => ⟨(doRxProc_fields d image).1, ?_⟩, ?_, ?_, ?_, ?_, fun image => (doRxProc_fields d image).2.2.2⟩
  · rcases h.swapped with hs | hs <;> rw [hs.1, hs.2] <;> decide
  · intro image p hp
    rw [(doRxProc_fields d image).1, hframes, titled_picture h hp]
  · intro hfull image p hp
    rw [hother image 3 (Ne.symm h.rx_ne.2), captured_full (by rw [layered_captureMode]; exact hfull) hp,
      (layered_kept d image).rx, hlayer image p hp]
  · intro hpart image i hi j hj
    have hp : 2 * i * FRAME_WIDTH + 2 * j < FRAME_WIDTH * FRAME_HEIGHT := by
      unfold FRAME_WIDTH FRAME_HEIGHT at *
      omega
    rw [hother image 3 (Ne.symm h.rx_ne.2), captured_part (by rw [layered_captureMode]; exact hpart) hi hj,
      (layered_kept d image).rx, hlayer image _ hp]
  · intro image
    rw [hother image 1 (Ne.symm h.rx_ne.1), captured_other (by decide), layered_other image (Ne.symm h.rx_ne.1)]

theorem started_inv (frames : ℕ → Buf) (titleMsgBuf : Buf) :
    DemoInv font (texts []) (.started frames titleMsgBuf) := by
  refine ⟨fun p hp => ?_, fun p hp => clearBuf_render _ hp, ?_, Or.inl ⟨rfl, rfl⟩⟩
  · show Function.update frames 1 _ 1 p = _
    rw [Function.update_self]
    exact clearBuf_render _ hp
  · show 0#32 ≠ 1#32
    decide

end Br2Efinix.EvSoc
