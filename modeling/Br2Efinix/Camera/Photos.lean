import Mathlib.Data.List.Induction
import Mathlib.Data.List.Nodup
import Mathlib.Data.List.Perm.Basic
import Br2Efinix.Lib.Decimal
import Br2Efinix.Lib.History

/-!
# The photos of the camera demo

`capture_photo` numbers a photo after the head of the list in memory. The list is filled from the directory by the
first page load, in the order of `readdir`, unless a photo has been taken before.

* `pages_eq`: the pages show the list, in order.
* `numbered_of_clear`: the list is the new photos, numbered on from the head of the files that were listed.
* `photos_kept_iff`: **no photo is overwritten and every photo is shown once** exactly in the runs from an empty
  directory, and those that begin with a page load and take no number that an old file has.
-/

namespace Br2Efinix.Camera

/-! ## The program -/

/-- The bytes of a file name. -/
abbrev Name := List UInt8

/-- `snprintf(filename, sizeof(filename), "img_%04d.jpg", num)` -/
def fileName (num : ℕ) : Name := [105, 109, 103, 95] ++ fourDigits num ++ [46, 106, 112, 103]

/-- `fnmatch("*.jpg", name, 0) == 0` -/
def isJpg (name : Name) : Bool := name.drop (name.length - 4) == [46, 106, 112, 103] && 4 ≤ name.length

/-- The files in the directory, and the list in memory, from `dev->head` on. -/
structure Gallery where
  files : List Name
  list : List Name
  deriving DecidableEq, Repr

namespace Gallery

/-- `append_list`; the name is cut to the 14 bytes that an entry has room for. -/
def appendList (list : List Name) (filename : Name) : List Name := filename.take 14 :: list

/-- `get_list` with the names in the order of `readdir`. -/
def getList (list order : List Name) : List Name := (order.filter isJpg).foldl appendList list

/-- What `on_load` does to the list. -/
def onLoad (g : Gallery) (order : List Name) : Gallery :=
  match g.list with
  | [] => { g with list := getList [] order }
  | _ :: _ => g

/-- The number of the next photo. -/
def nextNum (g : Gallery) : ℤ :=
  match g.list with
  | [] => 0
  | img :: _ =>
    -- taken for the newest photo
    let num := atoi ((img.drop 4).take 4)
    if num ≥ 9999 then 0 else num + 1

/-- The name of the next photo. -/
def nextName (g : Gallery) : Name := fileName g.nextNum.toNat

/-- `capture_photo`, where the directory is there or can be made and `imwrite` can write. A file that is there is
overwritten. -/
def capturePhoto (g : Gallery) : Gallery :=
  { files := if g.nextName ∈ g.files then g.files else g.nextName :: g.files
    list := appendList g.list g.nextName }

end Gallery

/-- `IMAGE_PER_PAGE` -/
def IMAGE_PER_PAGE : ℕ := 4

/-- `get_total_pages`. -/
def getTotalPages (list : List Name) : ℕ :=
  if list.length > 0 then
    list.length / IMAGE_PER_PAGE + if list.length % IMAGE_PER_PAGE > 0 then 1 else 0
  else 1

/-- What an `int` holds of a product or a difference, which wraps around. -/
def intOf (x : ℤ) : ℤ := x.bmod (2 ^ 32)

/-- The loop of `get_page`, from index `i` on. -/
def getPageFrom (page : ℤ) : ℕ → List Name → List Name
  | _, [] => []
  | i, name :: list =>
    if Int.ofNat i ≥ intOf (intOf (page * 4) - 4) ∧ Int.ofNat i < intOf (page * 4) then
      name :: getPageFrom page (i + 1) list
    else getPageFrom page (i + 1) list

/-- `get_page`: the names that the reply lists. -/
def getPage (list : List Name) (page : ℤ) : List Name := getPageFrom page 0 list

/-- A page load, with the order of `readdir`, the request for another page, and a capture. -/
inductive PhotoAct
  | load (order : List Name)
  | page
  | capture
  deriving DecidableEq, Repr

def Gallery.step (g : Gallery) : PhotoAct → Gallery
  | .load order => g.onLoad order
  | .page => g
  | .capture => g.capturePhoto

/-- The program is started on a directory. -/
def galleryAt (files : List Name) (before : List PhotoAct) : Gallery := before.foldl Gallery.step ⟨files, []⟩

/-! ## The property -/

/-- The photos that a directory may hold. -/
structure Photos (files : List Name) : Prop where
  nodup : files.Nodup
  named : ∀ name ∈ files, ∃ n < 10000, name = fileName n

/-- All pages of the list. -/
def pages (list : List Name) : List Name := (List.range (getTotalPages list)).flatMap fun p => getPage list (Int.ofNat p + 1)

/-- A capture takes a new name, and the pages then show each file once. -/
def Kept (files : List Name) (before : List PhotoAct) (a : PhotoAct) : Prop :=
  (a = .capture → (galleryAt files before).nextName ∉ (galleryAt files before).files) ∧
    (pages ((galleryAt files before).step a).list).Perm ((galleryAt files before).step a).files

/-- `readdir` lists the files that are there, in some order, among names that are no photos. -/
def Listing (files : List Name) (before : List PhotoAct) : PhotoAct → Prop
  | .load order => (order.filter isJpg).Perm (galleryAt files before).files
  | _ => True

/-- The number of the file that was listed last by a page load at the start; with none, the next one is 0. -/
def base : List PhotoAct → ℕ
  | .load order :: _ =>
    match (order.filter isJpg).getLast? with
    | some name => (atoi ((name.drop 4).take 4)).toNat
    | none => 9999
  | _ => 9999

def captures (before : List PhotoAct) : ℕ := before.count .capture

/-- The run has begun with a page load. -/
def Loaded : List PhotoAct → Prop
  | .load _ :: _ => True
  | _ => False

/-- The directory was empty, or the run begins with a page load and the numbers on from the one listed last are free. -/
def Clear (files : List Name) (before : List PhotoAct) : PhotoAct → Prop
  | .load _ => True
  | .page => files = [] ∨ Loaded before
  | .capture => files = [] ∨ (Loaded before ∧ fileName ((base before + captures before + 1) % 10000) ∉ files)

/-! ## Names -/

variable {m n : ℕ}

theorem fileName_injective (hm : m < 10000) (hn : n < 10000) (h : fileName m = fileName n) : m = n := by
  unfold fileName at h
  exact fourDigits_injective hm hn (List.append_cancel_left (List.append_cancel_right h))

theorem number_fileName (h : n < 10000) : atoi (((fileName n).drop 4).take 4) = Int.ofNat n := atoi_fourDigits h

theorem take_fileName (n : ℕ) : (fileName n).take 14 = fileName n := rfl

/-! ## Pages -/

theorem intOf_eq {x : ℤ} (hlo : -2 ^ 31 ≤ x) (hhi : x < 2 ^ 31) : intOf x = x :=
  Int.bmod_eq_of_le (by norm_num at hlo ⊢; omega) (by norm_num at hhi ⊢; omega)

/-- A page whose indices an `int` can hold. -/
structure InRange (page : ℤ) : Prop where
  lower : -2 ^ 29 < page
  upper : page < 2 ^ 29

/-- One turn of the loop, for such a page. -/
theorem getPageFrom_cons {page : ℤ} (hpage : InRange page) (i : ℕ) (name : Name) (list : List Name) :
    getPageFrom page i (name :: list) =
      if Int.ofNat i ≥ page * 4 - 4 ∧ Int.ofNat i < page * 4 then name :: getPageFrom page (i + 1) list
      else getPageFrom page (i + 1) list := by
  have hlo := hpage.lower
  have hhi := hpage.upper
  rw [getPageFrom, intOf_eq (x := page * 4) (by omega) (by omega), intOf_eq (by omega) (by omega)]

theorem inRange_succ {p : ℕ} (hp : p + 1 < 2 ^ 29) : InRange (Int.ofNat p + 1) :=
  ⟨by rw [Int.ofNat_eq_natCast]; omega, by rw [Int.ofNat_eq_natCast]; omega⟩

/-- The loop lists what lies between two indices. -/
theorem getPageFrom_eq {p : ℕ} (hp : p + 1 < 2 ^ 29) (i : ℕ) (list : List Name) :
    getPageFrom (Int.ofNat p + 1) i list = (list.drop (p * 4 - i)).take (p * 4 + 4 - max i (p * 4)) := by
  induction list generalizing i with
  | nil => simp [getPageFrom]
  | cons name list ih =>
    rw [getPageFrom_cons (inRange_succ hp), ih]
    rcases Nat.lt_or_ge i (p * 4) with hbelow | habove
    · -- not yet on the page
      have hskip : p * 4 - i = (p * 4 - (i + 1)) + 1 := by omega
      have hmax : max i (p * 4) = max (i + 1) (p * 4) := by omega
      rw [if_neg (by rw [Int.ofNat_eq_natCast, Int.ofNat_eq_natCast]; omega), hskip, List.drop_succ_cons, hmax]
    · have hdrop : p * 4 - i = 0 := by omega
      have hdrop' : p * 4 - (i + 1) = 0 := by omega
      rw [hdrop, hdrop', List.drop_zero, List.drop_zero]
      rcases Nat.lt_or_ge i (p * 4 + 4) with hin | hout
      · have htake : p * 4 + 4 - max i (p * 4) = (p * 4 + 4 - max (i + 1) (p * 4)) + 1 := by omega
        rw [if_pos (by rw [Int.ofNat_eq_natCast, Int.ofNat_eq_natCast]; omega), htake, List.take_succ_cons]
      · have htake : p * 4 + 4 - max i (p * 4) = 0 := by omega
        have htake' : p * 4 + 4 - max (i + 1) (p * 4) = 0 := by omega
        rw [if_neg (by rw [Int.ofNat_eq_natCast, Int.ofNat_eq_natCast]; omega), htake, htake', List.take_zero,
          List.take_zero]

theorem getPage_eq (list : List Name) {p : ℕ} (hp : p + 1 < 2 ^ 29) :
    getPage list (Int.ofNat p + 1) = (list.drop (p * 4)).take 4 := by
  unfold getPage
  rw [getPageFrom_eq hp, Nat.sub_zero, Nat.zero_max, Nat.add_sub_cancel_left]

theorem pages_take (list : List Name) {total : ℕ} (htotal : total < 2 ^ 29) :
    ((List.range total).flatMap fun p => getPage list (Int.ofNat p + 1)) = list.take (total * 4) := by
  induction total with
  | zero => rw [Nat.zero_mul, List.take_zero]; rfl
  | succ total ih =>
    rw [List.range_succ, List.flatMap_append, ih (by omega), List.flatMap_singleton, getPage_eq list htotal,
      Nat.succ_mul, List.take_add]

theorem getTotalPages_lt {list : List Name} (hlen : list.length + 4 ≤ 2 ^ 31) : getTotalPages list < 2 ^ 29 := by
  unfold getTotalPages IMAGE_PER_PAGE
  split
  · split
    · omega
    · omega
  · omega

/-- **The pages show the list.** -/
theorem pages_eq {list : List Name} (hlen : list.length + 4 ≤ 2 ^ 31) : pages list = list := by
  unfold pages
  rw [pages_take list (getTotalPages_lt hlen)]
  apply List.take_of_length_le
  unfold getTotalPages IMAGE_PER_PAGE
  split
  · split
    · omega
    · omega
  · omega

/-! ## The invariant -/

/-- The names of the first `j` photos after number `k`, the newest first. -/
def newNames (k : ℕ) : ℕ → List Name
  | 0 => []
  | j + 1 => fileName ((k + j + 1) % 10000) :: newNames k j

/-- The first listed file has number `k`; without files the numbers begin at 0. -/
def Start (k : ℕ) : List Name → Prop
  | [] => k = 9999
  | name :: _ => name = fileName k ∧ k < 10000

/-- The list is `j` new photos, from number `k` on, before the files that were listed. -/
structure Numbered (files : List Name) (k j : ℕ) (g : Gallery) : Prop where
  list : ∃ listed, listed.Perm files ∧ Start k listed ∧ g.list = newNames k j ++ listed
  files : g.files.Perm (newNames k j ++ files)

variable {files : List Name} {before acts : List PhotoAct} {g : Gallery} {k j : ℕ} {a : PhotoAct}

/-- The number after the head's. -/
theorem nextNum_fileName (hn : n < 10000) {list : List Name} (hlist : g.list = fileName n :: list) :
    g.nextNum = Int.ofNat ((n + 1) % 10000) := by
  unfold Gallery.nextNum
  rw [hlist]
  simp only [number_fileName hn]
  rw [Int.ofNat_eq_natCast, Int.ofNat_eq_natCast]
  split
  · omega
  · omega

theorem Numbered.nextName (h : Numbered files k j g) : g.nextName = fileName ((k + j + 1) % 10000) := by
  obtain ⟨listed, -, hstart, hlist⟩ := h.list
  have hnum : g.nextNum = Int.ofNat ((k + j + 1) % 10000) := by
    cases j with
    | zero =>
      -- the head is the file listed last
      cases listed with
      | nil =>
        have hk : k = 9999 := hstart
        subst hk
        unfold Gallery.nextNum
        rw [hlist]
        rfl
      | cons name listed =>
        obtain ⟨rfl, hk⟩ := hstart
        exact nextNum_fileName hk hlist
    | succ j =>
      rw [nextNum_fileName (Nat.mod_lt _ (by decide)) hlist]
      congr 1
      omega
  unfold Gallery.nextName
  rw [hnum]
  rfl

/-- The new names differ as long as they do not come round. -/
theorem not_mem_newNames (hj : j < 10000) : ∀ i ≤ j, fileName ((k + j + 1) % 10000) ∉ newNames k i := by
  intro i
  induction i with
  | zero => exact fun _ => List.not_mem_nil
  | succ i ih =>
    intro hi hmem
    rcases List.mem_cons.1 hmem with heq | hmem
    · have hnum := fileName_injective (Nat.mod_lt _ (by decide)) (Nat.mod_lt _ (by decide)) heq
      omega
    · exact ih (by omega) hmem

theorem length_newNames (k j : ℕ) : (newNames k j).length = j := by
  induction j with
  | zero => rfl
  | succ j ih => rw [newNames, List.length_cons, ih]

/-- A free number is taken by a capture. -/
theorem Numbered.capture (h : Numbered files k j g) (hj : j < 10000)
    (hfree : fileName ((k + j + 1) % 10000) ∉ files) : Numbered files k (j + 1) g.capturePhoto := by
  obtain ⟨listed, hperm, hstart, hlist⟩ := h.list
  have hname := h.nextName
  have hnew : g.nextName ∉ g.files := by
    rw [h.files.mem_iff, List.mem_append, hname]
    rintro (hmem | hmem)
    · exact not_mem_newNames hj j (Nat.le_refl j) hmem
    · exact hfree hmem
  unfold Gallery.capturePhoto
  rw [if_neg hnew]
  refine ⟨⟨listed, hperm, hstart, ?_⟩, ?_⟩
  · show g.nextName.take 14 :: g.list = _
    rw [hname, take_fileName, hlist]
    rfl
  · show (g.nextName :: g.files).Perm _
    rw [hname]
    exact h.files.cons _

/-- In such a state the pages show each file once. -/
theorem Numbered.shown (h : Numbered files k j g) (hlen : files.length + j < 10000) :
    (pages g.list).Perm g.files := by
  obtain ⟨listed, hperm, -, hlist⟩ := h.list
  have hcount : g.list.length = j + files.length := by
    rw [hlist, List.length_append, length_newNames, hperm.length_eq]
  rw [pages_eq (by omega), hlist]
  exact (hperm.append_left _).trans h.files.symm

/-! ## The first page load -/

theorem getList_eq {order list : List Name} (hnames : ∀ name ∈ order.filter isJpg, name.take 14 = name) :
    Gallery.getList list order = (order.filter isJpg).reverse ++ list := by
  unfold Gallery.getList
  generalize order.filter isJpg = names at hnames
  induction names generalizing list with
  | nil => rfl
  | cons name names ih =>
    have hcut : Gallery.appendList list name = name :: list := by
      unfold Gallery.appendList
      rw [hnames name (List.mem_cons_self ..)]
    rw [List.foldl_cons, ih fun x hx => hnames x (List.mem_cons_of_mem _ hx), hcut, List.reverse_cons,
      List.append_assoc, List.singleton_append]

/-- A page load that comes first lists the directory. -/
theorem numbered_onLoad (hfiles : Photos files) {order : List Name} (hlisting : (order.filter isJpg).Perm files) :
    Numbered files (base [.load order]) 0 (Gallery.onLoad ⟨files, []⟩ order) := by
  have hnames : ∀ name ∈ order.filter isJpg, name.take 14 = name := by
    intro name hname
    obtain ⟨n, -, rfl⟩ := hfiles.named name (hlisting.mem_iff.1 hname)
    exact take_fileName n
  have hlist : (Gallery.onLoad ⟨files, []⟩ order).list = (order.filter isJpg).reverse :=
    (getList_eq hnames).trans (List.append_nil _)
  refine ⟨⟨(order.filter isJpg).reverse, (List.reverse_perm _).trans hlisting, ?_, hlist⟩, List.Perm.refl _⟩
  rcases List.eq_nil_or_concat' (order.filter isJpg) with hnil | ⟨names, name, hlast⟩
  · have hbase : base [.load order] = 9999 := by
      unfold base
      simp only [hnil, List.getLast?_nil]
    rw [hbase, hnil]
    rfl
  · have hmem : name ∈ files := by
      apply hlisting.mem_iff.1
      rw [hlast]
      exact List.mem_append_right _ (List.mem_singleton_self _)
    obtain ⟨n, hn, rfl⟩ := hfiles.named name hmem
    have hbase : base [.load order] = n := by
      unfold base
      simp only [hlast, List.getLast?_concat, number_fileName hn]
      rfl
    rw [hlast, List.reverse_append, hbase]
    exact ⟨rfl, hn⟩

/-! ## Runs -/

theorem galleryAt_concat (files : List Name) (before : List PhotoAct) (a : PhotoAct) :
    galleryAt files (before ++ [a]) = (galleryAt files before).step a := foldl_concat Gallery.step _ before a

theorem captures_concat (before : List PhotoAct) (a : PhotoAct) :
    captures (before ++ [a]) = captures before + if a = .capture then 1 else 0 := by
  unfold captures
  rw [List.count_append, List.count_singleton]
  simp only [beq_iff_eq]

/-- Only the first action tells where the numbers begin, and over an empty directory none does. -/
theorem base_concat (hready : files = [] ∨ before ≠ []) (hlisting : Listing files before a) :
    base (before ++ [a]) = base before := by
  cases before with
  | cons b before =>
    cases b with
    | load order => rfl
    | page => rfl
    | capture => rfl
  | nil =>
    obtain rfl : files = [] := hready.resolve_right fun h => h rfl
    cases a with
    | page => rfl
    | capture => rfl
    | load order =>
      have hnil : order.filter isJpg = [] := List.Perm.eq_nil hlisting
      show base [.load order] = 9999
      unfold base
      simp only [hnil, List.getLast?_nil]

/-- A list that is numbered is not filled again. -/
theorem Numbered.onLoad (h : Numbered files k j g) {order : List Name}
    (hlisting : (order.filter isJpg).Perm g.files) : g.onLoad order = g := by
  obtain ⟨listed, hperm, -, hlist⟩ := h.list
  unfold Gallery.onLoad
  split
  · -- an empty list means an empty directory, which adds nothing
    rename_i hempty
    have hfiles : g.files = [] := by
      have hsame : g.files.Perm g.list := by
        rw [hlist]
        exact h.files.trans (hperm.symm.append_left _)
      rw [hempty] at hsame
      exact hsame.eq_nil
    rw [hfiles] at hlisting
    have hnone : Gallery.getList [] order = g.list := by
      unfold Gallery.getList
      rw [hlisting.eq_nil, hempty]
      rfl
    rw [hnone]
  · rfl

theorem Numbered.step (h : Numbered files k j g) (hj : j < 10000)
    (hload : ∀ order, a = .load order → (order.filter isJpg).Perm g.files)
    (hfree : a = .capture → fileName ((k + j + 1) % 10000) ∉ files) :
    Numbered files k (j + if a = .capture then 1 else 0) (g.step a) := by
  cases a with
  | load order =>
    have hsame : g.step (.load order) = g := h.onLoad (hload order rfl)
    rw [hsame]
    exact h
  | page => exact h
  | capture => exact h.capture hj (hfree rfl)

/-- What a condition met says of the next number. -/
theorem Clear.free (h : Clear files before .capture) :
    fileName ((base before + captures before + 1) % 10000) ∉ files := by
  rcases h with rfl | ⟨-, hfree⟩
  · exact List.not_mem_nil
  · exact hfree

/-- **The list is numbered along clear runs**, from the first action on if there are files. -/
theorem numbered_of_clear (hfiles : Photos files) (hlisting : Along (Listing files) before)
    (hclear : Along (Clear files) before) (hcount : captures before < 10000) (hready : files = [] ∨ before ≠ []) :
    Numbered files (base before) (captures before) (galleryAt files before) := by
  induction before using List.reverseRecOn with
  | nil =>
    obtain rfl : files = [] := hready.resolve_right fun h => h rfl
    exact ⟨⟨[], List.Perm.refl _, rfl, rfl⟩, List.Perm.refl _⟩
  | append_singleton before a ih =>
    obtain ⟨hlisting, ha⟩ := along_concat.1 hlisting
    obtain ⟨hclear, hnow⟩ := along_concat.1 hclear
    rw [captures_concat] at hcount
    by_cases hbefore : files = [] ∨ before ≠ []
    · have hnumbered := ih hlisting hclear (by omega) hbefore
      rw [galleryAt_concat, base_concat hbefore ha, captures_concat]
      apply hnumbered.step (by omega)
      · rintro order rfl
        exact ha
      · rintro rfl
        exact hnow.free
    · -- the first action of a run over a directory with files
      have hnil : before = [] := by
        by_contra hne
        exact hbefore (Or.inr hne)
      have hsome : files ≠ [] := fun h => hbefore (Or.inl h)
      subst hnil
      cases a with
      | load order => exact numbered_onLoad hfiles ha
      | page => exact absurd (hnow.resolve_left hsome) id
      | capture => exact absurd (hnow.resolve_left hsome).1 id

/-- A clear run over files has begun with a page load. -/
theorem loaded_of_clear (hclear : Along (Clear files) before) (hsome : files ≠ []) (hne : before ≠ []) :
    Loaded before := by
  obtain ⟨first, rest, rfl⟩ := List.exists_cons_of_ne_nil hne
  have hfirst := (along_cons.1 hclear).1
  cases first with
  | load order => trivial
  | page => exact hfirst.resolve_left hsome
  | capture => exact (hfirst.resolve_left hsome).1

/-- Before the first action, over files, only a page load is right. -/
theorem kept_first_iff (hfiles : Photos files) (hsome : files ≠ []) (hlen : files.length < 10000)
    (hlisting : Listing files [] a) :
    Kept files [] a ↔ Clear files [] a := by
  cases a with
  | load order =>
    exact ⟨fun _ => trivial, fun _ => ⟨nofun, (numbered_onLoad hfiles hlisting).shown hlen⟩⟩
  | page =>
    constructor
    · rintro ⟨-, hshown⟩
      exact absurd (List.Perm.nil_eq hshown).symm hsome
    · intro hclear
      exact absurd (hclear.resolve_left hsome) id
  | capture =>
    constructor
    · -- the list has the new photo only, and is not filled later
      rintro ⟨hnew, hshown⟩
      have hfirst : (galleryAt files []).nextName ∉ files := hnew rfl
      have hperm : [fileName 0].Perm (fileName 0 :: files) := by
        have hstep : ((galleryAt files []).step .capture).files = fileName 0 :: files := if_neg hfirst
        have hone : pages [fileName 0] = [fileName 0] := pages_eq (by decide)
        rw [hstep] at hshown
        exact hone ▸ hshown
      exact absurd ((List.perm_cons _).1 hperm).symm.eq_nil hsome
    · intro hclear
      exact absurd (hclear.resolve_left hsome).1 id

/-- After that, or over an empty directory, an action is right exactly if it is clear. -/
theorem kept_iff (hfiles : Photos files) (hbefore : Along (Listing files) before) (hclear : Along (Clear files) before)
    (hcount : files.length + captures before + (if a = .capture then 1 else 0) < 10000)
    (hready : files = [] ∨ before ≠ []) (hlisting : Listing files before a) :
    Kept files before a ↔ Clear files before a := by
  have hless : captures before < 10000 := by omega
  have hnumbered := numbered_of_clear hfiles hbefore hclear hless hready
  have hloaded : files = [] ∨ Loaded before := by
    by_cases hsome : files = []
    · exact Or.inl hsome
    · exact Or.inr (loaded_of_clear hclear hsome (hready.resolve_left hsome))
  cases a with
  | load order =>
    have hsame : (galleryAt files before).step (.load order) = galleryAt files before := hnumbered.onLoad hlisting
    refine ⟨fun _ => trivial, fun _ => ⟨nofun, ?_⟩⟩
    rw [hsame]
    exact hnumbered.shown (by omega)
  | page => exact ⟨fun _ => hloaded, fun _ => ⟨nofun, hnumbered.shown (by omega)⟩⟩
  | capture =>
    constructor
    · rintro ⟨hnew, -⟩
      have hfree : fileName ((base before + captures before + 1) % 10000) ∉ files := by
        intro hmem
        apply hnew rfl
        rw [hnumbered.nextName, hnumbered.files.mem_iff]
        exact List.mem_append_right _ hmem
      exact hloaded.imp_right fun h => ⟨h, hfree⟩
    · intro hnow
      rw [if_pos rfl] at hcount
      refine ⟨fun _ => ?_, (hnumbered.capture hless hnow.free).shown (by omega)⟩
      rw [hnumbered.nextName, hnumbered.files.mem_iff, List.mem_append]
      rintro (hmem | hmem)
      · exact not_mem_newNames hless _ (Nat.le_refl _) hmem
      · exact hnow.free hmem

/-- **No photo is overwritten and every one is shown once** exactly in the clear runs. -/
theorem photos_kept_iff (hfiles : Photos files) (hlisting : Along (Listing files) acts)
    (hcount : files.length + captures acts < 10000) : Along (Kept files) acts ↔ Along (Clear files) acts := by
  apply along_congr
  rintro before a after rfl hclear
  have hbefore : Along (Listing files) before := fun b x c heq =>
    hlisting b x (c ++ a :: after) (by rw [heq, List.append_assoc, List.cons_append])
  have ha := hlisting before a after rfl
  have hless : files.length + captures before + (if a = .capture then 1 else 0) < 10000 := by
    have hsplit : captures (before ++ a :: after) = captures before + (if a = .capture then 1 else 0) +
        captures after := by
      rw [← captures_concat]
      unfold captures
      rw [← List.count_append, List.append_assoc, List.singleton_append]
    omega
  by_cases hready : files = [] ∨ before ≠ []
  · exact kept_iff hfiles hbefore hclear hless hready ha
  · have hnil : before = [] := by
      by_contra hne
      exact hready (Or.inr hne)
    subst hnil
    exact kept_first_iff hfiles (fun h => hready (Or.inl h)) (by omega) ha

theorem photos_of (numbers : List ℕ) (hlt : ∀ n ∈ numbers, n < 10000) (hnodup : numbers.Nodup) :
    Photos (numbers.map fileName) where
  nodup := List.Nodup.map_on (fun _ hm _ hn heq => fileName_injective (hlt _ hm) (hlt _ hn) heq) hnodup
  named := by
    intro name hname
    obtain ⟨n, hn, rfl⟩ := List.mem_map.1 hname
    exact ⟨n, hlt n hn, rfl⟩

/-- Photos 3 and 7 are listed with 7 at the end, and the next two are 8 and 9. -/
theorem photos_kept_after_load :
    Along (Kept [fileName 3, fileName 7]) [.load [fileName 3, fileName 7], .capture, .capture, .page] := by
  refine (photos_kept_iff (photos_of [3, 7] (by decide) (by decide)) ?_ (by decide)).2 ?_
  · exact along_cons.2 ⟨List.Perm.refl _, along_cons.2 ⟨trivial, along_cons.2 ⟨trivial, along_cons.2 ⟨trivial,
      along_nil _⟩⟩⟩⟩
  · exact along_cons.2 ⟨trivial, along_cons.2 ⟨Or.inr ⟨trivial, by decide⟩, along_cons.2 ⟨Or.inr ⟨trivial, by decide⟩,
      along_cons.2 ⟨Or.inr trivial, along_nil _⟩⟩⟩⟩

/-- **An older photo is overwritten** when `readdir` lists it before one with the number below; so is the first one by a
capture before any page load. -/
theorem photo_overwritten :
    Photos [fileName 0, fileName 1] ∧
      ¬ Along (Kept [fileName 0, fileName 1]) [.load [fileName 1, fileName 0], .capture] ∧
      ¬ Along (Kept [fileName 0]) [.capture] := by
  refine ⟨photos_of [0, 1] (by decide) (by decide), ?_, ?_⟩
  · intro h
    have hnew := (h [.load [fileName 1, fileName 0]] .capture [] rfl).1 rfl
    exact hnew (by decide)
  · intro h
    have hnew := (h [] .capture [] rfl).1 rfl
    exact hnew (by decide)

end Br2Efinix.Camera
