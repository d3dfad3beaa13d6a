import Br2Efinix.Camera.Json
import Br2Efinix.Camera.Photos
import Br2Efinix.Lib.CString
import Br2Efinix.Lib.Json

/-!
# The replies of the camera demo

A page load, a turn of the page and a capture are answered with the names of one page and the number of pages, as a JSON
text that `create_json_string` puts together in buffers of 256 bytes.

* `itemStr_eq`, `createJsonString_eq`: with at most four names the text is whole.
* `named_step`: the names in memory are those of photos, and so plain text.
* `replies_show_page`: **every reply is read as the names of the page that was asked for** and the number of pages.
-/

namespace Br2Efinix.Camera

/-! ## The program -/

/-- `snprintf(dst, size, "%s", text)` -/
def cut (size : ℕ) (text : List UInt8) : List UInt8 := text.take (size - 1)

/-- `strncat(dst, src, size - strlen(dst) - 1)` -/
def strncat (size : ℕ) (dst src : List UInt8) : List UInt8 := dst ++ src.take (size - dst.length - 1)

/-- The loop of `create_json_string`, from item `i` on. -/
def itemStr (numImages : ℕ) : ℕ → List Name → List UInt8 → List UInt8
  | _, [], str => str
  | i, item :: items, str =>
    let temp := cut 256 (34 :: (item ++ [34]))
    let str := strncat 256 str temp
    itemStr numImages (i + 1) items (if i < numImages - 1 then strncat 256 str [44, 32] else str)

/-- `create_json_string`. -/
def createJsonString (items : List Name) (respondSize totalPages : ℕ) : List UInt8 :=
  cut respondSize
    ([123, 34, 99, 97, 112, 116, 117, 114, 101, 34, 58, 32, 91] ++ itemStr items.length 0 items [] ++
      [93, 44, 32, 34, 112, 97, 103, 101, 34, 58, 32] ++ decimal (Int.ofNat totalPages) ++ [125])

/-- `mg_http_reply(c, 200, "", "%s\n", respond)`: the body. -/
def httpReply (respond : List UInt8) : List UInt8 := respond ++ [10]

/-- The loop of `update_page`. -/
def updateItems : ℕ → List Name → List Name
  | _, [] => []
  | i, name :: list => name :: if i + 1 = IMAGE_PER_PAGE then [] else updateItems (i + 1) list

/-- `update_page`. -/
def updatePage (list : List Name) : List UInt8 :=
  httpReply (createJsonString (updateItems 0 list) 256 (getTotalPages list))

/-- The reply of `get_page`. -/
def pageReply (list : List Name) (page : ℤ) : List UInt8 :=
  httpReply (createJsonString (getPage list page) 256 (getTotalPages list))

/-- What `handle_request` and `timer_callback` are called for: a page load, with the order of `readdir`, a press on one of
the two page buttons, and the frame after a press on the capture button. -/
inductive Request
  | load (body : List UInt8) (order : List Name)
  | turn (body : List UInt8)
  | capture
  deriving DecidableEq, Repr

/-- A request is answered; there is no result where a body leaves its buffers. -/
def Gallery.handle (g : Gallery) : Request → Option (Gallery × List UInt8)
  | .load body order =>
    -- on_load
    (onLoadInt body).map fun currentPage =>
      let g := g.onLoad order
      let totalPages := getTotalPages g.list
      (g, pageReply g.list (if currentPage > Int.ofNat totalPages then 1 else currentPage))
  | .turn body => (handleRequestInt body).map fun num => (g, pageReply g.list num)
  | .capture => some (g.capturePhoto, updatePage g.capturePhoto.list)

/-- The program is started on a directory and answers requests. -/
def galleryAfter (files : List Name) (before : List Request) : Option Gallery :=
  before.foldlM (fun g q => (g.handle q).map Prod.fst) ⟨files, []⟩

/-! ## The property -/

/-- A name that the program gives. -/
def IsPhoto (name : Name) : Prop := ∃ n < 10000, name = fileName n

/-- A request asks for a page with a body in the form that the pages send; a capture shows the first one. -/
inductive Asks : Request → ℤ → Prop
  | load (f : Form) (order : List Name) : f.Read → InBuffers 1024 f.body → Asks (.load f.body order) f.number
  | turn (f : Form) : f.Read → InBuffers 256 f.body → Asks (.turn f.body) f.number
  | capture : Asks .capture 1

/-- A load of a page that is not there shows the first one. -/
def Request.target (totalPages : ℕ) : Request → ℤ → ℤ
  | .load _ _, page => if page > Int.ofNat totalPages then 1 else page
  | _, page => page

/-- Four items on a page, and pages from number 1 on. -/
def onPage {α : Type} (page : ℤ) (items : List α) : List α :=
  if 1 ≤ page then (items.drop ((page.toNat - 1) * 4)).take 4 else []

/-- The pages of `n` items; there is always one. -/
def pageCount (n : ℕ) : ℕ := max 1 ((n + 3) / 4)

def captureKey : PlainText := ⟨[99, 97, 112, 116, 117, 114, 101], by decide⟩

def pageKey : PlainText := ⟨[112, 97, 103, 101], by decide⟩

/-- `{"capture": [names], "page": totalPages}` -/
def replyValue (names : List PlainText) (totalPages : ℕ) : Json :=
  .obj [(captureKey, .arr (names.map .str)), (pageKey, .num (Int.ofNat totalPages))]

/-- `readdir` lists the files that are there, in some order, among names that are no photos. -/
def Request.Lists (g : Gallery) : Request → Prop
  | .load _ order => (order.filter isJpg).Perm g.files
  | _ => True

/-- A request of that form, with such a listing. -/
def Asked (files : List Name) (before : List Request) (q : Request) : Prop :=
  (∃ page, Asks q page) ∧ ∀ g, galleryAfter files before = some g → q.Lists g

/-! ## The text -/

variable {names : List PlainText} {str : List UInt8} {n i : ℕ}

theorem cut_of_le {text : List UInt8} {size : ℕ} (h : text.length < size) : cut size text = text :=
  List.take_of_length_le (by omega)

theorem strncat_of_le {dst src : List UInt8} {size : ℕ} (h : dst.length + src.length < size) :
    strncat size dst src = dst ++ src := by
  unfold strncat
  rw [List.take_of_length_le (by omega)]

/-- The names of entries are short. -/
def Short (names : List PlainText) : Prop := ∀ t ∈ names, t.bytes.length ≤ 14

/-- **The loop loses nothing.** -/
theorem itemStr_eq {t : PlainText} (hn : n = i + names.length + 1) (hshort : Short (t :: names))
    (hroom : str.length + 18 * (names.length + 1) ≤ 255) :
    itemStr n i ((t :: names).map PlainText.bytes) str ++ [93] =
      str ++ t.quoted ++ Json.printItems (names.map .str) := by
  induction names generalizing t i str with
  | nil =>
    have ht : t.bytes.length ≤ 14 := hshort t (List.mem_cons_self ..)
    have hlen : (34 :: (t.bytes ++ [34])).length ≤ 16 := by
      rw [List.length_cons, List.length_append, List.length_singleton]
      omega
    rw [List.length_nil] at hroom
    have hlast : ¬ i < n - 1 := by
      rw [hn, List.length_nil]
      omega
    show itemStr n (i + 1) [] (if i < n - 1 then _ else strncat 256 str (cut 256 (34 :: (t.bytes ++ [34])))) ++ [93] = _
    rw [if_neg hlast, cut_of_le (by omega), strncat_of_le (by omega), List.map_nil, Json.printItems]
    rfl
  | cons next names ih =>
    have ht : t.bytes.length ≤ 14 := hshort t (List.mem_cons_self ..)
    have hquoted : t.quoted.length ≤ 16 := by
      unfold PlainText.quoted
      rw [List.length_cons, List.length_append, List.length_singleton]
      omega
    rw [List.length_cons] at hroom hn
    have hmore : i < n - 1 := by omega
    show itemStr n (i + 1) ((next :: names).map PlainText.bytes)
      (if i < n - 1 then strncat 256 (strncat 256 str (cut 256 t.quoted)) [44, 32] else _) ++ [93] = _
    have hname : strncat 256 str (cut 256 t.quoted) = str ++ t.quoted := by
      rw [cut_of_le (by omega), strncat_of_le (by omega)]
    have hlen : (str ++ t.quoted ++ [44, 32]).length ≤ str.length + 18 := by
      rw [List.length_append, List.length_append, List.length_cons, List.length_singleton]
      omega
    have hcomma : strncat 256 (str ++ t.quoted) [44, 32] = str ++ t.quoted ++ [44, 32] := by
      apply strncat_of_le
      rw [← List.length_append]
      omega
    rw [if_pos hmore, hname, hcomma,
      ih (by omega) (fun x hx => hshort x (List.mem_cons_of_mem _ hx)) (by omega), List.map_cons, Json.printItems,
      Json.print]
    simp only [List.append_assoc, List.cons_append, List.nil_append]

/-- The text of the names, with the brackets. -/
theorem print_names (hshort : Short names) (hfour : names.length ≤ 4) :
    91 :: (itemStr names.length 0 (names.map PlainText.bytes) [] ++ [93]) = (Json.arr (names.map .str)).print := by
  cases names with
  | nil => rfl
  | cons t names =>
    rw [List.length_cons] at hfour
    rw [itemStr_eq (by rw [List.length_cons, Nat.zero_add]) hshort (by rw [List.length_nil]; omega), List.map_cons,
      Json.print, Json.print, List.nil_append]

theorem length_printItems (hshort : Short names) :
    (Json.printItems (names.map .str)).length ≤ 18 * names.length + 1 := by
  induction names with
  | nil => rw [List.map_nil, Json.printItems]; exact Nat.le_refl 1
  | cons t names ih =>
    have ht : t.bytes.length ≤ 14 := hshort t (List.mem_cons_self ..)
    have hrest := ih fun x hx => hshort x (List.mem_cons_of_mem _ hx)
    rw [List.map_cons, Json.printItems, Json.print]
    unfold PlainText.quoted
    simp only [List.length_cons, List.length_append, List.length_nil]
    omega

theorem length_names (hshort : Short names) : (Json.arr (names.map .str)).print.length ≤ 18 * names.length + 2 := by
  cases names with
  | nil => rw [List.map_nil, Json.print]; exact Nat.le_refl 2
  | cons t names =>
    have ht : t.bytes.length ≤ 14 := hshort t (List.mem_cons_self ..)
    have hrest := length_printItems fun x hx => hshort x (List.mem_cons_of_mem _ hx)
    rw [List.map_cons, Json.print, Json.print]
    unfold PlainText.quoted
    simp only [List.length_cons, List.length_append, List.length_nil]
    omega

theorem print_replyValue (names : List PlainText) (total : ℕ) :
    (replyValue names total).print =
      [123, 34, 99, 97, 112, 116, 117, 114, 101, 34, 58, 32] ++ ((Json.arr (names.map .str)).print ++
        ([44, 32, 34, 112, 97, 103, 101, 34, 58, 32] ++ decimal (Int.ofNat total) ++ [125])) := by
  unfold replyValue
  rw [Json.print, Json.printMembers, Json.printMembers]
  show 123 :: (captureKey.quoted ++ 58 :: 32 :: _) = _
  generalize (Json.arr (names.map .str)).print = text
  rw [Json.print]
  simp only [PlainText.quoted, captureKey, pageKey, List.cons_append, List.nil_append]

/-- **The reply is the text of the value.** -/
theorem createJsonString_eq {total : ℕ} (hshort : Short names) (hfour : names.length ≤ 4) (htotal : total < 2 ^ 31) :
    createJsonString (names.map PlainText.bytes) 256 total = (replyValue names total).print := by
  have hnames := length_names hshort
  have hdigits : (decimal (Int.ofNat total)).length ≤ 10 :=
    decimalNat_length (by decide) (Nat.lt_trans htotal (by decide))
  have htext : ([123, 34, 99, 97, 112, 116, 117, 114, 101, 34, 58, 32, 91] ++
      itemStr (names.map PlainText.bytes).length 0 (names.map PlainText.bytes) [] ++
      [93, 44, 32, 34, 112, 97, 103, 101, 34, 58, 32] ++ decimal (Int.ofNat total) ++ [125]) =
      (replyValue names total).print := by
    rw [print_replyValue, ← print_names hshort hfour, List.length_map]
    simp only [List.cons_append, List.nil_append, List.append_assoc]
  unfold createJsonString
  rw [htext]
  apply cut_of_le
  rw [print_replyValue]
  simp only [List.length_append, List.length_cons, List.length_nil]
  omega

theorem read_reply {total : ℕ} (hshort : Short names) (hfour : names.length ≤ 4) (htotal : total < 2 ^ 31) :
    Json.read (httpReply (createJsonString (names.map PlainText.bytes) 256 total)) = some (replyValue names total) := by
  unfold httpReply
  rw [createJsonString_eq hshort hfour htotal]
  exact Json.read_print _ fun b hb => by rw [List.mem_singleton.1 hb]; decide

/-! ## The pages -/

theorem onPage_eq {α : Type} (p : ℕ) (items : List α) : onPage (Int.ofNat p + 1) items = (items.drop (p * 4)).take 4 := by
  have hnat : (Int.ofNat p + 1).toNat - 1 = p := by
    rw [Int.ofNat_eq_natCast]
    omega
  unfold onPage
  rw [if_pos (by rw [Int.ofNat_eq_natCast]; omega), hnat]

/-- No index lies on a page before the first. -/
theorem getPageFrom_nil {page : ℤ} (hrange : InRange page) (hpage : page ≤ 0) (i : ℕ) (list : List Name) :
    getPageFrom page i list = [] := by
  induction list generalizing i with
  | nil => rfl
  | cons name list ih =>
    rw [getPageFrom_cons hrange, if_neg (by rw [Int.ofNat_eq_natCast]; omega), ih]

/-- `get_page` takes what is on the page. -/
theorem getPage_onPage {page : ℤ} (hrange : InRange page) (list : List Name) : getPage list page = onPage page list := by
  by_cases hpage : 1 ≤ page
  · have hupper := hrange.upper
    have hnat : page = Int.ofNat (page.toNat - 1) + 1 := by
      rw [Int.ofNat_eq_natCast]
      omega
    rw [hnat, getPage_eq list (by omega), onPage_eq]
  · unfold onPage
    rw [if_neg hpage]
    exact getPageFrom_nil hrange (by omega) 0 list

theorem map_onPage {α β : Type} (f : α → β) (page : ℤ) (items : List α) :
    (onPage page items).map f = onPage page (items.map f) := by
  unfold onPage
  split
  · rw [List.map_take, List.map_drop]
  · rfl

theorem length_onPage {α : Type} (page : ℤ) (items : List α) : (onPage page items).length ≤ 4 := by
  unfold onPage
  split
  · exact List.length_take_le 4 _
  · exact Nat.zero_le 4

theorem updateItems_eq (list : List Name) : updateItems 0 list = onPage 1 list := by
  show updateItems 0 list = list.take 4
  have htake : ∀ i, i < 4 → updateItems i list = list.take (4 - i) := by
    induction list with
    | nil => intro i _; rw [List.take_nil]; rfl
    | cons name list ih =>
      intro i hi
      have hsucc : 4 - i = (4 - (i + 1)) + 1 := by omega
      rw [updateItems, hsucc, List.take_succ_cons]
      split
      · rename_i hlast
        have hfour : i + 1 = 4 := hlast
        rw [hfour, Nat.sub_self, List.take_zero]
      · rename_i hmore
        have hne : i + 1 ≠ 4 := hmore
        rw [ih (i + 1) (by omega)]
  exact htake 0 (by decide)

theorem getTotalPages_eq (list : List Name) : getTotalPages list = pageCount list.length := by
  unfold getTotalPages pageCount IMAGE_PER_PAGE
  split
  · split
    · omega
    · omega
  · omega

/-- The first pages, one after the other. -/
theorem onPage_take {α : Type} (items : List α) (total : ℕ) :
    ((List.range total).flatMap fun p => onPage (Int.ofNat p + 1) items) = items.take (total * 4) := by
  induction total with
  | zero => rw [Nat.zero_mul, List.take_zero]; rfl
  | succ total ih =>
    rw [List.range_succ, List.flatMap_append, ih, List.flatMap_singleton, onPage_eq, Nat.succ_mul, List.take_add]

/-- Turning through the pages shows every item once, in order. -/
theorem onPage_all {α : Type} (items : List α) :
    ((List.range (pageCount items.length)).flatMap fun p => onPage (Int.ofNat p + 1) items) = items := by
  rw [onPage_take]
  apply List.take_of_length_le
  unfold pageCount
  omega

/-! ## The names -/

/-- The names that the program gives are plain. -/
theorem fileName_plain (n : ℕ) : ∀ b ∈ fileName n, 32 ≤ b ∧ b ≠ 34 ∧ b ≠ 92 := by
  intro b hb
  unfold fileName at hb
  rw [List.mem_append, List.mem_append] at hb
  rcases hb with (hb | hb) | hb
  · revert b
    decide
  · -- a digit
    have hbounds := isDigit_bounds (isDigit_fourDigits n b hb)
    refine ⟨UInt8.le_iff_toNat_le.2 (Nat.le_trans (by decide) hbounds.1), ?_, ?_⟩
    · rintro rfl
      exact absurd hbounds.1 (by decide)
    · rintro rfl
      exact absurd hbounds.2 (by decide)
  · revert b
    decide

/-- A list of such names as plain texts, which are short. -/
theorem exists_plain {list : List Name} (hlist : ∀ name ∈ list, IsPhoto name) :
    ∃ names : List PlainText, names.map PlainText.bytes = list ∧ Short names := by
  induction list with
  | nil => exact ⟨[], rfl, nofun⟩
  | cons name list ih =>
    obtain ⟨names, hnames, hshort⟩ := ih fun x hx => hlist x (List.mem_cons_of_mem _ hx)
    obtain ⟨n, -, rfl⟩ := hlist name (List.mem_cons_self ..)
    refine ⟨⟨fileName n, fileName_plain n⟩ :: names, by rw [List.map_cons, hnames], ?_⟩
    exact List.forall_mem_cons.2 ⟨show 12 ≤ 14 by decide, hshort⟩

/-- The directory and the list hold such names, after `k` requests over `m` files. -/
structure Named (m k : ℕ) (g : Gallery) : Prop where
  files : ∀ name ∈ g.files, IsPhoto name
  list : ∀ name ∈ g.list, IsPhoto name
  files_length : g.files.length ≤ m + k
  list_length : g.list.length ≤ m + k

variable {g g' : Gallery} {m k : ℕ} {q : Request} {reply : List UInt8}

theorem Named.mono (h : Named m k g) : Named m (k + 1) g :=
  ⟨h.files, h.list, by have := h.files_length; omega, by have := h.list_length; omega⟩

/-- The first page load lists the directory. -/
theorem Named.onLoad (h : Named m k g) {order : List Name} (horder : (order.filter isJpg).Perm g.files) :
    Named m k (g.onLoad order) := by
  unfold Gallery.onLoad
  split
  · have hmem : ∀ name ∈ order.filter isJpg, IsPhoto name := fun name hname => h.files name (horder.mem_iff.1 hname)
    have hlist : Gallery.getList [] order = (order.filter isJpg).reverse := by
      rw [getList_eq, List.append_nil]
      intro name hname
      obtain ⟨n, -, rfl⟩ := hmem name hname
      exact take_fileName n
    refine ⟨h.files, ?_, h.files_length, ?_⟩
    · show ∀ name ∈ Gallery.getList [] order, IsPhoto name
      rw [hlist]
      exact fun name hname => hmem name (List.mem_reverse.1 hname)
    · show (Gallery.getList [] order).length ≤ m + k
      rw [hlist, List.length_reverse, horder.length_eq]
      exact h.files_length
  · exact h

/-- The number after the head's has four digits too. -/
theorem Named.nextName (h : Named m k g) : IsPhoto g.nextName := by
  unfold Gallery.nextName
  cases hlist : g.list with
  | nil =>
    refine ⟨0, by decide, ?_⟩
    unfold Gallery.nextNum
    rw [hlist]
    rfl
  | cons name list =>
    obtain ⟨n, hn, rfl⟩ := h.list name (by rw [hlist]; exact List.mem_cons_self ..)
    refine ⟨(n + 1) % 10000, Nat.mod_lt _ (by decide), ?_⟩
    rw [nextNum_fileName hn hlist]
    rfl

theorem Named.capture (h : Named m k g) : Named m (k + 1) g.capturePhoto := by
  have hnext := h.nextName
  have hcut : g.nextName.take 14 = g.nextName := by
    obtain ⟨n, -, heq⟩ := hnext
    rw [heq, take_fileName]
  have hfiles := h.files_length
  have hlist := h.list_length
  unfold Gallery.capturePhoto Gallery.appendList
  rw [hcut]
  refine ⟨?_, List.forall_mem_cons.2 ⟨hnext, h.list⟩, ?_, ?_⟩
  · show ∀ name ∈ (if g.nextName ∈ g.files then _ else _), IsPhoto name
    split
    · exact h.files
    · exact List.forall_mem_cons.2 ⟨hnext, h.files⟩
  · show (if g.nextName ∈ g.files then _ else _ : List Name).length ≤ _
    split
    · omega
    · rw [List.length_cons]
      omega
  · rw [List.length_cons]
    omega

/-! ## Requests -/

/-- The number in a body of the form. -/
theorem requestInt_number {f : Form} {size : ℕ} (hsize : size < 2 ^ 32) (hread : f.Read) (hin : InBuffers size f.body) :
    requestInt size f.body = some f.number := by
  rw [requestInt_form hsize hin, (read_iff f).2 hread]

/-- A request with such a body has an answer, and what it lists is the page that is looked up. -/
theorem handle_reply {page : ℤ} (hasks : Asks q page) :
    ∃ g' names, g.handle q = some (g', httpReply (createJsonString names 256 (getTotalPages g'.list))) ∧
      (InRange (q.target (getTotalPages g'.list) page) → names = onPage (q.target (getTotalPages g'.list) page) g'.list) := by
  cases hasks with
  | load f order hread hin =>
    have hnumber : onLoadInt f.body = some f.number := requestInt_number (by decide) hread hin
    refine ⟨g.onLoad order, getPage (g.onLoad order).list
      (Request.target (getTotalPages (g.onLoad order).list) (.load f.body order) f.number), ?_, fun h => getPage_onPage h _⟩
    unfold Gallery.handle
    simp only [hnumber, Option.map_some, pageReply]
    rfl
  | turn f hread hin =>
    have hnumber : handleRequestInt f.body = some f.number := requestInt_number (by decide) hread hin
    refine ⟨g, getPage g.list f.number, ?_, fun h => getPage_onPage h _⟩
    unfold Gallery.handle
    simp only [hnumber, Option.map_some, pageReply]
  | capture =>
    refine ⟨g.capturePhoto, onPage 1 g.capturePhoto.list, ?_, fun _ => rfl⟩
    unfold Gallery.handle updatePage
    rw [updateItems_eq]

/-- **What a request leaves.** -/
theorem named_handle (h : Named m k g) (hlists : q.Lists g) (hhandle : g.handle q = some (g', reply)) :
    Named m (k + 1) g' := by
  unfold Gallery.handle at hhandle
  cases q with
  | load body order =>
    obtain ⟨page, -, heq⟩ := Option.map_eq_some_iff.1 hhandle
    cases heq
    exact (h.onLoad hlists).mono
  | turn body =>
    obtain ⟨page, -, heq⟩ := Option.map_eq_some_iff.1 hhandle
    cases heq
    exact h.mono
  | capture =>
    cases hhandle
    exact h.capture

/-! ## Runs -/

variable {files : List Name} {before : List Request}

theorem galleryAfter_concat (files : List Name) (before : List Request) (q : Request) :
    galleryAfter files (before ++ [q]) = (galleryAfter files before).bind fun g => (g.handle q).map Prod.fst := by
  unfold galleryAfter
  rw [List.foldlM_append]
  show Option.bind _ _ = Option.bind _ _
  congr 1
  funext g
  rw [List.foldlM_cons]
  exact Option.bind_fun_some _

/-- **No request of a run fails**, and the names stay those of photos. -/
theorem named_run (hfiles : ∀ name ∈ files, IsPhoto name) (hasked : Along (Asked files) before) :
    ∃ g, galleryAfter files before = some g ∧ Named files.length before.length g := by
  induction before using List.reverseRecOn with
  | nil => exact ⟨⟨files, []⟩, rfl, hfiles, nofun, Nat.le_refl _, Nat.zero_le _⟩
  | append_singleton before q ih =>
    obtain ⟨hbefore, ⟨page, hasks⟩, hlists⟩ := along_concat.1 hasked
    obtain ⟨g, hg, hnamed⟩ := ih hbefore
    obtain ⟨g', names, hhandle, -⟩ := handle_reply (g := g) hasks
    refine ⟨g', ?_, ?_⟩
    · rw [galleryAfter_concat, hg]
      show (g.handle q).map Prod.fst = some g'
      rw [hhandle]
      rfl
    · rw [List.length_append, List.length_singleton]
      exact named_handle hnamed (hlists g hg) hhandle

/-- **Every reply of a run is read as the page that was asked for**, with the number of pages, as long as the indices of
its names are in the range of an `int`; one after the other, the pages hold the list. -/
theorem replies_show_page (hfiles : ∀ name ∈ files, IsPhoto name) (hasked : Along (Asked files) (before ++ [q]))
    (hlen : files.length + before.length + 1 < 2 ^ 31) :
    ∃ g g' reply names, galleryAfter files before = some g ∧ g.handle q = some (g', reply) ∧
      names.map PlainText.bytes = g'.list ∧
      (∀ page, Asks q page → InRange (q.target (pageCount names.length) page) → Json.read reply =
        some (replyValue (onPage (q.target (pageCount names.length) page) names) (pageCount names.length))) ∧
      ((List.range (pageCount names.length)).flatMap fun p => onPage (Int.ofNat p + 1) names) = names := by
  obtain ⟨hbefore, ⟨page, hasks⟩, hlists⟩ := along_concat.1 hasked
  obtain ⟨g, hg, hnamed⟩ := named_run hfiles hbefore
  obtain ⟨g', listed, hhandle, -⟩ := handle_reply (g := g) hasks
  have hafter := named_handle hnamed (hlists g hg) hhandle
  obtain ⟨names, hnames, hshort⟩ := exists_plain hafter.list
  have hcount : getTotalPages g'.list = pageCount names.length := by
    rw [getTotalPages_eq, ← hnames, List.length_map]
  have htotal : pageCount names.length < 2 ^ 31 := by
    have hlength : names.length = g'.list.length := by rw [← hnames, List.length_map]
    have hle := hafter.list_length
    unfold pageCount
    omega
  refine ⟨g, g', _, names, hg, hhandle, hnames, ?_, onPage_all names⟩
  intro page' hasks' hrange
  -- the body has one number
  obtain ⟨g'', listed', hhandle', hlisted⟩ := handle_reply (g := g) hasks'
  have heq := Prod.mk.inj (Option.some.inj (hhandle.symm.trans hhandle'))
  obtain ⟨rfl, hreply⟩ := heq
  rw [hcount] at hlisted
  rw [hreply, hcount, hlisted hrange, ← hnames, ← map_onPage]
  exact read_reply (fun t ht => hshort t (by
    unfold onPage at ht
    split at ht
    · exact List.mem_of_mem_drop (List.mem_of_mem_take ht)
    · exact absurd ht List.not_mem_nil)) (length_onPage _ _) htotal

/-- `{"load":1}` -/
def loadForm : Form := ⟨[108, 111, 97, 100], 0, false, false, [49], by decide, by decide, by decide, by decide⟩

/-- `{"btn_next":2}` -/
def nextForm : Form :=
  ⟨[98, 116, 110, 95, 110, 101, 120, 116], 0, false, false, [50], by decide, by decide, by decide, by decide⟩

/-- Four photos are there, a fifth one is taken, and the second page is asked for. -/
theorem replies_show_page_second :
    ∃ g g' reply names, galleryAfter ([3, 2, 1, 0].map fileName)
        [.load loadForm.body ([0, 1, 2, 3].map fileName), .capture] = some g ∧
      g.handle (.turn nextForm.body) = some (g', reply) ∧ names.map PlainText.bytes = g'.list ∧
      Json.read reply = some (replyValue (onPage 2 names) (pageCount names.length)) := by
  have hload : Asks (.load loadForm.body ([0, 1, 2, 3].map fileName)) 1 :=
    .load loadForm _ nofun ⟨by decide, by decide, [49, 125], rfl, by decide⟩
  have hnext : Asks (.turn nextForm.body) 2 := .turn nextForm nofun ⟨by decide, by decide, [50, 125], rfl, by decide⟩
  have hasked : Along (Asked ([3, 2, 1, 0].map fileName))
      ([.load loadForm.body ([0, 1, 2, 3].map fileName), .capture] ++ [.turn nextForm.body]) := by
    refine along_cons.2 ⟨⟨⟨_, hload⟩, ?_⟩, along_cons.2 ⟨⟨⟨_, .capture⟩, fun _ _ => trivial⟩,
      along_cons.2 ⟨⟨⟨_, hnext⟩, fun _ _ => trivial⟩, along_nil _⟩⟩⟩
    rintro g ⟨⟩
    show List.Perm _ _
    decide
  obtain ⟨g, g', reply, names, hg, hhandle, hnames, hread, -⟩ := replies_show_page (by
    intro name hname
    obtain ⟨n, hn, rfl⟩ := List.mem_map.1 hname
    exact ⟨n, by revert n; decide, rfl⟩) hasked (by decide)
  have hrange : InRange 2 := ⟨by decide, by decide⟩
  exact ⟨g, g', reply, names, hg, hhandle, hnames, hread 2 hnext hrange⟩

end Br2Efinix.Camera
