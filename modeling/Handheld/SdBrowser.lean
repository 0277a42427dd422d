import Handheld.FolderTree
import Handheld.Keypad
import Handheld.ListCursor
import Handheld.SdCard

/-!
# The SD browser (`ReadSD.h`, `showFileList` of `GUI.h`)

`readSDFiles` fills the global `fileList` with the entries of the folder at
`currentPath`; `showFileList` shows them and calls itself for another folder on
'B' and 'D'. Every such call is the last one of its caller, so one loop is live at
a time, and `currentPath` outlives the visits.

Results:
1. `Browser.shows_iff`: the folder shown is the one that was chosen exactly as
   long as subfolders are entered from the root only and 'D' is not pressed after
   an empty one.
2. `SdTree.alwaysBack_iff`: the root can always be shown again exactly when every
   folder in the root is non-empty and every folder in these has the name of a
   folder in the root.
-/

namespace Handheld

open ByteString ListCursor

/-! ## Definitions -/

structure FileEntry where
  name : Bytes
  path : Bytes
  isDirectory : Bool
deriving DecidableEq, Repr

/-- The calls that reading a folder makes. -/
class SdFolder (σ : Type) where
  begin_ : StateM σ Bool
  open_ : Bytes → StateM σ (Option File)
  openNextFiles : File → StateM σ (List File)

/-- The globals of `ReadSD.h`. -/
structure SdGlobals where
  fileList : List FileEntry
  currentPath : Bytes
deriving DecidableEq, Repr

/-- The entry that `readSDFiles` makes of a `File`. -/
def FileEntry.of (file : File) : FileEntry :=
  let lastSlash := lastIndexOf file.name slash
  { name := if lastSlash ≠ -1 then substringFrom file.name (lastSlash + 1).toNat else file.name
    path := file.name
    isDirectory := file.isDirectory }

def readSDFiles {σ : Type} [SdFolder σ] (folderPath : Bytes) : StateM σ SdGlobals := do
  if ← SdFolder.begin_ then
    match ← SdFolder.open_ folderPath with
    | some root =>
      if root.isDirectory then
        let files ← SdFolder.openNextFiles root
        return ⟨files.map FileEntry.of, folderPath⟩
      else return ⟨[], folderPath⟩
    | none => return ⟨[], folderPath⟩
  else return ⟨[], folderPath⟩

/-! ### A readable card -/

/-- A name of a file or a folder on a card. -/
def IsFileName (n : Bytes) : Prop := IsName n ∧ 0 ∉ n

instance (n : Bytes) : Decidable (IsFileName n) := inferInstanceAs (Decidable (_ ∧ _))

/-- The folders of a card, each file with its size. Names with one `key` are the same. -/
structure SdTree where
  key : Bytes → Bytes
  root : List (Bytes × FolderTree Bytes Nat)
  wellNamed : (FolderTree.folder root).WellNamed key IsFileName

/-- What the path leads to. -/
def SdTree.at_ (t : SdTree) (path : Path) : Option (FolderTree Bytes Nat) :=
  (FolderTree.folder t.root).find t.key path

/-- The entries of a folder; none where there is no folder. -/
def SdTree.listing (t : SdTree) (path : Path) : List (Bytes × FolderTree Bytes Nat) :=
  match t.at_ path with
  | some f => f.entries
  | none => []

/-- `File::size`. -/
def fileSize : FolderTree Bytes Nat → Nat
  | .file size => size
  | .folder _ => 0

/-- `VFSFileImpl::openNextFile`: the path of an entry. -/
def entryPath (path name : Bytes) : Bytes :=
  if name.head? ≠ some slash ∧ path.getLast? ≠ some slash then path ++ slash :: name
  else path ++ name

instance : SdFolder SdTree where
  begin_ := fun t => (true, t)
  open_ p := fun t =>
    (if startsWith p [slash] then
      (t.at_ (resolve p)).map fun f => ⟨p, f.isFolder, fileSize f⟩
    else none, t)
  openNextFiles file := fun t =>
    ((t.listing (resolve file.path)).map fun e =>
      ⟨entryPath file.path e.1, e.2.isFolder, fileSize e.2⟩, t)

/-- `readSDFiles(currentPath.c_str())` on the card. -/
def SdTree.readSDFiles (t : SdTree) (currentPath : Bytes) : SdGlobals :=
  (Handheld.readSDFiles (cstr currentPath) t).1

/-! ### The loop -/

/-- The browser: its globals, and the cursor if the loop of `showFileList` is running. -/
structure Browser extends SdGlobals where
  screen : Option (CursorIn fileList.length)

def Browser.boot : Browser := ⟨⟨[], [slash]⟩, none⟩

/-- The call `showFileList()`, up to its loop. -/
def SdTree.showFileList (t : SdTree) (currentPath : Bytes) : Browser :=
  { t.readSDFiles currentPath with
    screen :=
      if h : 0 < (t.readSDFiles currentPath).fileList.length then some (.start h) else none }

/-- `fileList[selectedFile]`. -/
def Browser.marked (b : Browser) (c : CursorIn b.fileList.length) : FileEntry :=
  b.fileList.get c.index

/-- The key 'D'. -/
def Browser.leave (t : SdTree) (b : Browser) : Browser :=
  if b.currentPath ≠ [slash] then
    let path := if endsWith b.currentPath [slash] then b.currentPath.dropLast else b.currentPath
    let lastSlash := lastIndexOf path slash
    if 0 ≤ lastSlash then
      let parent := substring path 0 lastSlash.toNat
      t.showFileList (if parent = [] then [slash] else parent)
    -- a path without a slash: the loop goes on
    else { b with currentPath := path }
  else { b with screen := none }

/-- A turn of the loop. -/
def Browser.handle (t : SdTree) (b : Browser) (c : CursorIn b.fileList.length) :
    Option Key → Browser
  | some .A => { b with screen := some c.up }
  | some .C => { b with screen := some c.down }
  | some .B =>
    -- `path` is the name alone, so this is a folder of the root
    if (b.marked c).isDirectory then t.showFileList (slash :: (b.marked c).path)
    else { b with screen := none }
  | some .D => b.leave t
  | _ => b

/-- "Read SD" in the menu, or what the keypad answers. -/
inductive BrowserEvent
  | visit
  | key (key : Option Key)
deriving DecidableEq, Repr

/-- The menu is not read while the loop runs, and the keys of the menu do not
reach the browser. -/
def Browser.step (t : SdTree) (b : Browser) (e : BrowserEvent) : Browser :=
  match e, b.screen with
  | .visit, none => t.showFileList b.currentPath
  | .visit, some _ => b
  | .key _, none => b
  | .key k, some c => b.handle t c k

/-! ### What the browser is for -/

/-- The folder that was chosen, and the cursor in it while it is on the screen. -/
structure Chosen where
  folder : Path
  screen : Option Cursor
deriving DecidableEq, Repr

def Chosen.boot : Chosen := ⟨[], none⟩

/-- 'B' enters the marked folder, 'D' leaves to the parent. -/
def Chosen.handle (t : SdTree) (a : Chosen) (c : Cursor) : Option Key → Chosen
  | some .A => { a with screen := some c.up }
  | some .C => { a with screen := some (c.down (t.listing a.folder).length) }
  | some .B =>
    match (t.listing a.folder)[c.selected.toNat]? with
    | some (name, .folder _) => ⟨a.folder ++ [name], some .start⟩
    | some (_, .file _) => { a with screen := none }
    | none => a
  | some .D =>
    if a.folder = [] then { a with screen := none } else ⟨a.folder.dropLast, some .start⟩
  | _ => a

def Chosen.step (t : SdTree) (a : Chosen) (e : BrowserEvent) : Chosen :=
  match e, a.screen with
  | .visit, none => { a with screen := some .start }
  | .visit, some _ => a
  | .key _, none => a
  | .key k, some c => a.handle t c k

/-- The entry as the list shows it. -/
def entryOf (e : Bytes × FolderTree Bytes Nat) : FileEntry := ⟨e.1, e.1, e.2.isFolder⟩

/-- `currentPath` is the full path of the chosen folder, and its entries are on
the screen, unless it has none. -/
structure Shows (t : SdTree) (b : Browser) (a : Chosen) : Prop where
  path : b.currentPath = render a.folder
  list : a.screen.isSome → b.fileList = (t.listing a.folder).map entryOf
  screen : b.screen.map CursorIn.toCursor = if t.listing a.folder = [] then none else a.screen

/-- A subfolder is entered from the root only, and 'D' is not pressed after an
empty folder other than the root. -/
def Browser.StaysFlat (b : Browser) : BrowserEvent → Prop
  | .key (some .B) =>
    ∀ c, b.screen = some c → (b.marked c).isDirectory → b.currentPath = [slash]
  | .key (some .D) => b.screen = none → b.fileList = [] → b.currentPath = [slash]
  | _ => True

/-- Browser and choice under the same events. -/
def bothStep (t : SdTree) (s : Browser × Chosen) (e : BrowserEvent) : Browser × Chosen :=
  (s.1.step t e, s.2.step t e)

/-- The listing of the root is on the screen. -/
def SdTree.ShowsRoot (t : SdTree) (b : Browser) : Prop :=
  b.screen.isSome ∧ b.currentPath = [slash] ∧ b.fileList = t.root.map entryOf

/-- From every state that can be reached the root can be shown again. -/
def SdTree.AlwaysBack (t : SdTree) : Prop :=
  ∀ b, Machine.Reaches (Browser.step t) .boot b →
    ∃ b', Machine.Reaches (Browser.step t) b b' ∧ t.ShowsRoot b'

/-- No folder in the root is empty, and the folders in them have names of
folders in the root. -/
def SdTree.Returns (t : SdTree) : Prop :=
  ∀ x es, (x, .folder es) ∈ t.root → es ≠ [] ∧
    ∀ y ds, (y, .folder ds) ∈ es → ∃ z fs, (z, .folder fs) ∈ t.root ∧ t.key z = t.key y

/-! ## Reading a folder -/

/-- The last component of an entry's path is its name. -/
theorem name_entryPath (path : Bytes) {name : Bytes} (h : IsFileName name) (isDirectory : Bool)
    (size : Nat) : File.name ⟨entryPath path name, isDirectory, size⟩ = name := by
  obtain ⟨⟨hne, hslash⟩, -⟩ := h
  have hhead : name.head? ≠ some slash := fun hhead => hslash (List.mem_of_mem_head? hhead)
  have hlast : ∀ p : Bytes, File.name ⟨p ++ slash :: name, isDirectory, size⟩ = name := by
    intro p
    have hdrop : (p ++ slash :: name).drop (p.length + 1) = name := by simp
    unfold File.name
    simp only [lastIndexOf_append_slash hslash]
    exact hdrop
  unfold entryPath
  by_cases hpath : path.getLast? = some slash
  · obtain ⟨p, rfl⟩ := List.getLast?_eq_some_iff.mp hpath
    rw [if_neg (by simp)]
    simpa using hlast p
  · rw [if_pos ⟨hhead, hpath⟩]
    exact hlast path

theorem SdTree.isFileName_of_mem (t : SdTree) {path : Path} {e : Bytes × FolderTree Bytes Nat}
    (h : e ∈ t.listing path) : IsFileName e.1 := by
  unfold listing at h
  split at h
  · next f hf => exact t.wellNamed.good path f hf e h
  · cases h

theorem fileEntry_of (path : Bytes) {e : Bytes × FolderTree Bytes Nat} (h : IsFileName e.1) :
    FileEntry.of ⟨entryPath path e.1, e.2.isFolder, fileSize e.2⟩ = entryOf e := by
  unfold FileEntry.of entryOf
  simp only [name_entryPath path h, lastIndexOf_eq_neg_one h.1.2]
  simp

/-- What is read is the listing of the folder at the path. -/
theorem SdTree.readSDFiles_eq (t : SdTree) {currentPath : Bytes}
    (hslash : startsWith (cstr currentPath) [slash] = true) :
    t.readSDFiles currentPath =
      ⟨(t.listing (resolve (cstr currentPath))).map entryOf, cstr currentPath⟩ := by
  have hentries : (t.listing (resolve (cstr currentPath))).map (FileEntry.of ∘ fun e =>
      ⟨entryPath (cstr currentPath) e.1, e.2.isFolder, fileSize e.2⟩) =
        (t.listing (resolve (cstr currentPath))).map entryOf :=
    List.map_congr_left fun e he => fileEntry_of _ (t.isFileName_of_mem he)
  have hopen : SdFolder.open_ (cstr currentPath) t =
      ((t.at_ (resolve (cstr currentPath))).map fun f =>
        ⟨cstr currentPath, f.isFolder, fileSize f⟩, t) := by
    show (if startsWith (cstr currentPath) [slash] then _ else none, t) = _
    rw [if_pos hslash]
  have hbegin : SdFolder.begin_ t = (true, t) := rfl
  unfold readSDFiles Handheld.readSDFiles
  simp only [bind_run, hbegin, if_true, hopen]
  cases hf : t.at_ (resolve (cstr currentPath)) with
  | none =>
    unfold listing
    rw [hf]
    rfl
  | some f =>
    cases f with
    | file size =>
      unfold listing
      rw [hf]
      rfl
    | folder es =>
      show SdGlobals.mk (List.map FileEntry.of (List.map _ (t.listing _))) _ = _
      rw [List.map_map, hentries]

theorem isFileName_render {cs : Path} (h : ∀ c ∈ cs, IsFileName c) :
    cstr (render cs) = render cs ∧ resolve (render cs) = cs ∧
      startsWith (render cs) [slash] = true := by
  have hcstr : cstr (render cs) = render cs :=
    cstr_eq_self (notMem_render (by decide) fun c hc => (h c hc).2)
  refine ⟨hcstr, ?_, by simp [startsWith, render]⟩
  unfold resolve
  rw [hcstr, components_render fun c hc => (h c hc).1]

theorem render_inj {cs ds : Path} (hcs : ∀ c ∈ cs, IsFileName c) (hds : ∀ d ∈ ds, IsFileName d)
    (h : render cs = render ds) : cs = ds := by
  rw [← (isFileName_render hcs).2.1, h, (isFileName_render hds).2.1]

section showFileList

variable (t : SdTree) {folder : Path} (hfolder : ∀ n ∈ folder, IsFileName n)

include hfolder

theorem SdTree.readSDFiles_render :
    t.readSDFiles (render folder) = ⟨(t.listing folder).map entryOf, render folder⟩ := by
  obtain ⟨hcstr, hresolve, hslash⟩ := isFileName_render hfolder
  rw [t.readSDFiles_eq (by rwa [hcstr]), hcstr, hresolve]

theorem SdTree.showFileList_globals :
    (t.showFileList (render folder)).toSdGlobals =
      ⟨(t.listing folder).map entryOf, render folder⟩ :=
  t.readSDFiles_render hfolder

theorem SdTree.showFileList_screen :
    (t.showFileList (render folder)).screen.map CursorIn.toCursor =
      if t.listing folder = [] then none else some .start := by
  have hlist : (t.readSDFiles (render folder)).fileList.length = (t.listing folder).length := by
    rw [t.readSDFiles_render hfolder, List.length_map]
  unfold showFileList
  by_cases hnil : t.listing folder = []
  · have hlength : ¬ 0 < (t.readSDFiles (render folder)).fileList.length := by
      rw [hlist, hnil]
      exact Nat.lt_irrefl 0
    simp only [dif_neg hlength, if_pos hnil, Option.map_none]
  · have hlength : 0 < (t.readSDFiles (render folder)).fileList.length := by
      rw [hlist]
      exact List.length_pos_of_ne_nil hnil
    simp only [dif_pos hlength, if_neg hnil, Option.map_some, CursorIn.start_toCursor]

/-- A folder that is listed again, or shown for the first time. -/
theorem shows_showFileList {screen : Option Cursor}
    (hscreen : screen = some .start ∨ t.listing folder = []) :
    Shows t (t.showFileList (render folder)) ⟨folder, screen⟩ := by
  have hglobals := t.showFileList_globals hfolder
  refine ⟨by rw [hglobals], fun _ => by rw [hglobals], ?_⟩
  rw [t.showFileList_screen hfolder]
  rcases hscreen with rfl | hnil
  · rfl
  · simp only [if_pos hnil]

end showFileList

/-! ## 1. The folder that was chosen -/

/-- The names come from the card, and an exit leaves a folder that was listed,
or the root. -/
structure Tracked (b : Browser) (a : Chosen) : Prop where
  names : ∀ n ∈ a.folder, IsFileName n
  left : a.screen = none → b.fileList ≠ [] ∨ a.folder = []

theorem leave_root (t : SdTree) {b : Browser} (hpath : b.currentPath = [slash]) :
    b.leave t = { b with screen := none } := by
  unfold Browser.leave
  rw [if_neg (not_not.mpr hpath)]

/-- The path of the parent. -/
theorem leave_render (t : SdTree) {b : Browser} {folder : Path} (hpath : b.currentPath = render folder)
    (hfolder : ∀ n ∈ folder, IsFileName n) (hne : folder ≠ []) :
    b.leave t = t.showFileList (render folder.dropLast) := by
  obtain ⟨parent, name, rfl⟩ := List.eq_nil_or_concat folder |>.resolve_left hne
  have hname : IsFileName name := hfolder name (by simp)
  have hrender : render (parent ++ [name]) = (if parent = [] then [] else render parent) ++ slash :: name := by
    split
    · next hnil =>
      subst hnil
      exact render_singleton name
    · next hnil => exact render_concat hnil name
  rw [List.concat_eq_append, hrender] at hpath
  rw [List.concat_eq_append, List.dropLast_concat]
  generalize hp : (if parent = [] then [] else render parent) = p at hpath
  have hroot : b.currentPath ≠ [slash] := by
    rw [hpath]
    intro h
    have hlen := congrArg List.length h
    have hpos := List.length_pos_of_ne_nil hname.1.1
    simp at hlen
    omega
  have hends : endsWith b.currentPath [slash] = false := by
    have happend : b.currentPath = (p ++ [slash]) ++ name := by simpa using hpath
    rw [happend]
    exact endsWith_name hname.1 _
  have hlast : lastIndexOf b.currentPath slash = p.length := by
    rw [hpath]
    exact lastIndexOf_append_slash hname.1.2
  have hsub : substring b.currentPath 0 p.length = p := by
    rw [hpath]
    simpa using substring_append [] p (slash :: name)
  have hparent : (if p = [] then [slash] else p) = render parent := by
    rw [← hp]
    by_cases hnil : parent = []
    · subst hnil
      rfl
    · rw [if_neg hnil, if_neg (by simp [render])]
  unfold Browser.leave
  rw [if_pos hroot]
  simp only [hends, hlast, if_neg Bool.false_ne_true]
  rw [if_pos (Int.natCast_nonneg _), Int.toNat_natCast, hsub, hparent]

theorem chosen_names (t : SdTree) {a : Chosen} (h : ∀ n ∈ a.folder, IsFileName n)
    (e : BrowserEvent) : ∀ n ∈ (a.step t e).folder, IsFileName n := by
  have hdrop : ∀ n ∈ a.folder.dropLast, IsFileName n := fun n hn => h n (List.mem_of_mem_dropLast hn)
  unfold Chosen.step
  split
  · exact h
  · exact h
  · exact h
  · unfold Chosen.handle
    split
    · exact h
    · exact h
    · split
      · next name es hentry =>
        intro n hn
        rcases List.mem_append.mp hn with hn | hn
        · exact h n hn
        · obtain rfl := List.mem_singleton.mp hn
          exact t.isFileName_of_mem (List.mem_of_getElem? hentry)
      · exact h
      · exact h
    · split
      · exact h
      · exact hdrop
    · exact h

section step

variable (t : SdTree) {b : Browser} {a : Chosen}

theorem Browser.step_visit (hb : b.screen = none) : b.step t .visit = t.showFileList b.currentPath := by
  unfold Browser.step
  rw [hb]

theorem Browser.step_visit_loop {c : CursorIn b.fileList.length} (hb : b.screen = some c) :
    b.step t .visit = b := by
  unfold Browser.step
  rw [hb]

theorem Browser.step_key_menu (hb : b.screen = none) (k : Option Key) : b.step t (.key k) = b := by
  unfold Browser.step
  rw [hb]

theorem Browser.step_key {c : CursorIn b.fileList.length} (hb : b.screen = some c) (k : Option Key) :
    b.step t (.key k) = b.handle t c k := by
  unfold Browser.step
  rw [hb]

theorem Chosen.step_menu (ha : a.screen = none) (k : Option Key) : a.step t (.key k) = a := by
  unfold Chosen.step
  rw [ha]

theorem Chosen.step_key {c : Cursor} (ha : a.screen = some c) (k : Option Key) :
    a.step t (.key k) = a.handle t c k := by
  unfold Chosen.step
  rw [ha]

theorem Chosen.screen_visit : (a.step t .visit).screen ≠ none := by
  unfold Chosen.step
  cases ha : a.screen with
  | none => exact Option.some_ne_none _
  | some c =>
    simp only [ha]
    exact Option.some_ne_none c

variable {t}

theorem Shows.menu (h : Shows t b a) (ha : a.screen = none) : b.screen = none := by
  have hscreen := h.screen
  rw [ha, ite_self] at hscreen
  exact Option.map_eq_none_iff.mp hscreen

theorem Shows.empty (h : Shows t b a) (hnil : t.listing a.folder = []) : b.screen = none := by
  have hscreen := h.screen
  rw [if_pos hnil] at hscreen
  exact Option.map_eq_none_iff.mp hscreen

theorem Shows.loop (h : Shows t b a) {c : Cursor} (ha : a.screen = some c)
    (hne : t.listing a.folder ≠ []) : ∃ c', b.screen = some c' ∧ c'.toCursor = c := by
  have hscreen := h.screen
  rw [if_neg hne, ha] at hscreen
  exact Option.map_eq_some_iff.mp hscreen

/-- The entry marked is the one at the mark in the listing. -/
theorem Browser.marked_eq {es : List (Bytes × FolderTree Bytes Nat)}
    (hlist : b.fileList = es.map entryOf) (c : CursorIn b.fileList.length) :
    ∃ e, es[c.selected.toNat]? = some e ∧ b.marked c = entryOf e := by
  have hmarked : b.fileList[c.selected.toNat]? = some (b.marked c) :=
    List.getElem?_eq_getElem c.index.isLt
  have hget : ∀ i : Nat, b.fileList[i]? = es[i]?.map entryOf := fun i => by
    rw [hlist, List.getElem?_map]
  rw [hget] at hmarked
  obtain ⟨e, he, heq⟩ := Option.map_eq_some_iff.mp hmarked
  exact ⟨e, he, heq.symm⟩

/-- The path shown is the root's only if the root is shown. -/
theorem render_eq_root {folder : Path} (hfolder : ∀ n ∈ folder, IsFileName n) :
    render folder = [slash] ↔ folder = [] := by
  constructor
  · intro h
    exact render_inj hfolder (fun _ hn => absurd hn List.not_mem_nil) h
  · rintro rfl
    rfl

/-- 'B' on a folder and on a file. -/
theorem Browser.handle_B (t : SdTree) {c : CursorIn b.fileList.length} {name : Bytes}
    {child : FolderTree Bytes Nat} (hmarked : b.marked c = entryOf (name, child)) :
    b.handle t c (some .B) = match child with
      | .folder _ => t.showFileList (slash :: name)
      | .file _ => { b with screen := none } := by
  unfold Browser.handle
  simp only [hmarked]
  cases child <;> rfl

theorem Chosen.handle_B {c : Cursor} {name : Bytes} {child : FolderTree Bytes Nat}
    (hentry : (t.listing a.folder)[c.selected.toNat]? = some (name, child)) :
    a.handle t c (some .B) = match child with
      | .folder _ => ⟨a.folder ++ [name], some .start⟩
      | .file _ => { a with screen := none } := by
  unfold Chosen.handle
  simp only [hentry]
  cases child <;> rfl

theorem Browser.handle_D (t : SdTree) (c : CursorIn b.fileList.length) :
    b.handle t c (some .D) = b.leave t := rfl

theorem Chosen.handle_D (c : Cursor) : a.handle t c (some .D) =
    if a.folder = [] then { a with screen := none } else ⟨a.folder.dropLast, some .start⟩ := rfl

/-- The keys that the loop looks at, and the others. -/
theorem key_cases (t : SdTree) (k : Option Key) :
    k = some .A ∨ k = some .C ∨ k = some .B ∨ k = some .D ∨
      ((∀ (b : Browser) c, b.handle t c k = b ∧ (b.StaysFlat (.key k) ↔ True)) ∧
        ∀ a c, Chosen.handle t a c k = a) := by
  cases k with
  | none => simp [Browser.handle, Chosen.handle, Browser.StaysFlat]
  | some k => cases k <;> simp [Browser.handle, Chosen.handle, Browser.StaysFlat]

/-- No key leads out of an empty folder but 'D', which leads to the parent. -/
theorem Chosen.handle_empty (hnil : t.listing a.folder = []) {c : Cursor} (ha : a.screen = some c)
    (k : Option Key) :
    (∃ c', a.handle t c k = { a with screen := some c' } ∧ k ≠ some .D) ∨
      (k = some .D ∧ a.handle t c k =
        if a.folder = [] then { a with screen := none } else ⟨a.folder.dropLast, some .start⟩) := by
  have hsame : a = { a with screen := some c } := by rw [← ha]
  rcases key_cases t k with rfl | rfl | rfl | rfl | ⟨hother, hsame'⟩
  · exact .inl ⟨_, rfl, by decide⟩
  · exact .inl ⟨_, rfl, by decide⟩
  · refine .inl ⟨c, ?_, by decide⟩
    unfold Chosen.handle
    simp only [hnil, List.getElem?_nil]
    exact hsame
  · exact .inr ⟨rfl, rfl⟩
  · refine .inl ⟨c, (hsame' a c).trans hsame, ?_⟩
    rintro rfl
    have hexit := hsame' ⟨[], some c⟩ c
    cases hexit

/-- Entering a subfolder leads where it should from the root only. -/
theorem shows_enter (h : Tracked b a) {name : Bytes} (hname : IsFileName name) :
    Shows t (t.showFileList (slash :: name)) ⟨a.folder ++ [name], some .start⟩ ↔ a.folder = [] := by
  have hsingle : ∀ n ∈ [name], IsFileName n := fun n hn => List.mem_singleton.mp hn ▸ hname
  rw [← render_singleton]
  constructor
  · intro hshows
    have hpath := hshows.path
    rw [t.showFileList_globals hsingle] at hpath
    have hnames : ∀ n ∈ a.folder ++ [name], IsFileName n := by
      intro n hn
      exact (List.mem_append.mp hn).elim (h.names n) (hsingle n)
    have hlength := congrArg List.length (render_inj hsingle hnames hpath)
    rw [List.length_append] at hlength
    exact List.eq_nil_of_length_eq_zero (by omega)
  · intro hroot
    rw [hroot]
    exact shows_showFileList t hsingle (.inl rfl)

theorem shows_exit (h : Shows t b a) : Shows t { b with screen := none } { a with screen := none } :=
  ⟨h.path, fun hscreen => absurd hscreen Bool.false_ne_true, (ite_self _).symm⟩

/-- 'B' leaves the list on a file, and enters a folder. -/
theorem shows_select (hT : Tracked b a) (h : Shows t b a) {c : CursorIn b.fileList.length}
    (hb : b.screen = some c) (hlist : b.fileList = (t.listing a.folder).map entryOf) :
    Shows t (b.handle t c (some .B)) (a.handle t c.toCursor (some .B)) ↔
      b.StaysFlat (.key (some .B)) := by
  obtain ⟨⟨name, child⟩, hentry, hmarked⟩ := Browser.marked_eq hlist c
  have hname := t.isFileName_of_mem (List.mem_of_getElem? hentry)
  rw [Chosen.handle_B hentry, Browser.handle_B t hmarked]
  cases child with
  | file size =>
    refine iff_of_true (shows_exit h) fun c' hc' hdir => ?_
    obtain rfl := Option.some.inj (hb.symm.trans hc')
    rw [hmarked] at hdir
    cases hdir
  | folder es =>
    have hflat : b.StaysFlat (.key (some .B)) ↔ a.folder = [] := by
      rw [← render_eq_root hT.names, ← h.path]
      constructor
      · intro hflat
        exact hflat c hb (by rw [hmarked]; rfl)
      · exact fun hroot _ _ _ => hroot
    rw [hflat]
    exact shows_enter hT hname

/-- 'D' leads to the folder above, and out of the list at the root. -/
theorem shows_leave (hT : Tracked b a) (h : Shows t b a) (c : CursorIn b.fileList.length) :
    Shows t (b.handle t c (some .D)) (a.handle t c.toCursor (some .D)) := by
  rw [Chosen.handle_D, Browser.handle_D]
  by_cases hroot : a.folder = []
  · have hpath := h.path
    rw [hroot] at hpath
    rw [leave_root t hpath, if_pos hroot]
    exact shows_exit h
  · rw [if_neg hroot, leave_render t h.path hT.names hroot]
    exact shows_showFileList t (fun n hn => hT.names n (List.mem_of_mem_dropLast hn)) (.inl rfl)

/-- A turn of the loop, with the list on the screen. -/
theorem shows_handle (hT : Tracked b a) (h : Shows t b a) {c : CursorIn b.fileList.length}
    (hb : b.screen = some c) (ha : a.screen = some c.toCursor) (hne : t.listing a.folder ≠ [])
    (k : Option Key) :
    Shows t (b.handle t c k) (a.handle t c.toCursor k) ↔ b.StaysFlat (.key k) := by
  have hlist : b.fileList = (t.listing a.folder).map entryOf := h.list (by rw [ha]; rfl)
  have hmove : ∀ c' : CursorIn b.fileList.length,
      Shows t { b with screen := some c' } { a with screen := some c'.toCursor } := by
    refine fun c' => ⟨h.path, fun _ => hlist, ?_⟩
    simp only [Option.map_some, if_neg hne]
  rcases key_cases t k with rfl | rfl | rfl | rfl | ⟨hother, hother'⟩
  · exact iff_of_true (hmove c.up) trivial
  · have hlength : b.fileList.length = (t.listing a.folder).length := by rw [hlist, List.length_map]
    have hdown := congrArg (fun n : Nat => c.toCursor.down n) hlength
    refine iff_of_true ?_ trivial
    show Shows t _ { a with screen := some (c.toCursor.down (t.listing a.folder).length) }
    rw [← hdown]
    exact hmove c.down
  · exact shows_select hT h hb hlist
  · exact iff_of_true (shows_leave hT h c) fun hnone =>
      absurd (hb.symm.trans hnone) (Option.some_ne_none c)
  · rw [(hother b c).1, hother', (hother b c).2]
    exact iff_of_true h trivial

theorem staysFlat_menu (hb : b.screen = none) (k : Option Key) :
    b.StaysFlat (.key k) ↔ (k = some .D → b.fileList = [] → b.currentPath = [slash]) := by
  unfold Browser.StaysFlat
  cases k with
  | none => simp
  | some k => cases k <;> simp [hb]

/-- A visit lists the folder that was chosen last. -/
theorem shows_visit (hT : Tracked b a) (h : Shows t b a) :
    Shows t (b.step t .visit) (a.step t .visit) := by
  have hpath := h.path
  cases ha : a.screen with
  | none =>
    have hvisit : a.step t .visit = ⟨a.folder, some .start⟩ := by
      unfold Chosen.step
      rw [ha]
    rw [Browser.step_visit t (h.menu ha), hvisit, hpath]
    exact shows_showFileList t hT.names (.inl rfl)
  | some c =>
    have hvisit : a.step t .visit = a := by
      unfold Chosen.step
      rw [ha]
    rw [hvisit]
    by_cases hnil : t.listing a.folder = []
    · rw [Browser.step_visit t (h.empty hnil), hpath]
      exact shows_showFileList t hT.names (.inr hnil)
    · obtain ⟨c', hb, -⟩ := h.loop ha hnil
      rw [Browser.step_visit_loop t hb]
      exact h

/-- In an empty folder the keys go to the menu, 'D' too. -/
theorem shows_key_empty (hT : Tracked b a) (h : Shows t b a) {c : Cursor} (ha : a.screen = some c)
    (hnil : t.listing a.folder = []) (k : Option Key) :
    Shows t b (a.handle t c k) ↔ b.StaysFlat (.key k) := by
  have hpath := h.path
  have hb := h.empty hnil
  have hlist : b.fileList = [] := by
    rw [h.list (by rw [ha]; rfl), hnil]
    rfl
  have hroot : b.currentPath = [slash] ↔ a.folder = [] := by
    rw [hpath]
    exact render_eq_root hT.names
  have hscreen : ∀ screen, Shows t b ⟨a.folder, screen⟩ := by
    refine fun screen => ⟨hpath, fun _ => by rw [hlist, hnil]; rfl, ?_⟩
    rw [hb, if_pos hnil]
    rfl
  rw [staysFlat_menu hb]
  rcases Chosen.handle_empty hnil ha k with ⟨c', hc', hk⟩ | ⟨rfl, hD⟩
  · rw [hc']
    exact iff_of_true (hscreen _) fun hD => absurd hD hk
  · rw [hD]
    by_cases hnone : a.folder = []
    · rw [if_pos hnone]
      exact iff_of_true (hscreen _) fun _ _ => hroot.mpr hnone
    · rw [if_neg hnone]
      -- the parent is chosen, and `currentPath` is still the empty folder's
      refine iff_of_false (fun hshows => ?_) fun hD => hnone (hroot.mp (hD rfl hlist))
      have hparent := render_inj hT.names
        (fun n hn => hT.names n (List.mem_of_mem_dropLast hn)) (hpath.symm.trans hshows.path)
      have hlength := congrArg List.length hparent
      have hpos := List.length_pos_of_ne_nil hnone
      rw [List.length_dropLast] at hlength
      omega

theorem shows_step (hT : Tracked b a) (h : Shows t b a) (e : BrowserEvent) :
    Shows t (b.step t e) (a.step t e) ↔ b.StaysFlat e := by
  cases e with
  | visit => exact iff_of_true (shows_visit hT h) trivial
  | key k =>
    cases ha : a.screen with
    | none =>
      have hb := h.menu ha
      rw [Browser.step_key_menu t hb, Chosen.step_menu t ha]
      refine iff_of_true h ((staysFlat_menu hb k).mpr fun _ hnil => ?_)
      rw [h.path, (hT.left ha).resolve_left (not_not.mpr hnil)]
      rfl
    | some c =>
      rw [Chosen.step_key t ha]
      by_cases hnil : t.listing a.folder = []
      · rw [Browser.step_key_menu t (h.empty hnil)]
        exact shows_key_empty hT h ha hnil k
      · obtain ⟨c', hb, rfl⟩ := h.loop ha hnil
        rw [Browser.step_key t hb]
        exact shows_handle hT h hb ha hnil k

/-- A file that is chosen ends the visit, and so does 'D' in the root. -/
theorem tracked_step (hT : Tracked b a) (h : Shows t b a) (e : BrowserEvent) :
    Tracked (b.step t e) (a.step t e) := by
  refine ⟨chosen_names t hT.names e, fun hnone => ?_⟩
  cases e with
  | visit => exact absurd hnone (Chosen.screen_visit t)
  | key k =>
    cases ha : a.screen with
    | none =>
      rw [Browser.step_key_menu t (h.menu ha), Chosen.step_menu t ha]
      exact hT.left ha
    | some c =>
      rw [Chosen.step_key t ha] at hnone ⊢
      by_cases hnil : t.listing a.folder = []
      · rcases Chosen.handle_empty hnil ha k with ⟨c', hc', -⟩ | ⟨-, hD⟩
        · rw [hc'] at hnone
          cases hnone
        · rw [hD] at hnone ⊢
          split at hnone
          · next hroot => exact .inr (by rw [if_pos hroot]; exact hroot)
          · cases hnone
      · obtain ⟨c', hb, rfl⟩ := h.loop ha hnil
        have hlist := h.list (by rw [ha]; rfl)
        obtain ⟨⟨name, child⟩, hentry, hmarked⟩ := Browser.marked_eq hlist c'
        rw [Browser.step_key t hb]
        rcases key_cases t k with rfl | rfl | rfl | rfl | ⟨-, hother⟩
        · cases hnone
        · cases hnone
        · rw [Chosen.handle_B hentry] at hnone ⊢
          rw [Browser.handle_B t hmarked]
          cases child with
          | folder es => cases hnone
          | file size =>
            refine .inl fun hfiles => hnil ?_
            have hempty : b.fileList = [] := hfiles
            rw [hlist] at hempty
            exact List.map_eq_nil_iff.mp hempty
        · rw [Chosen.handle_D] at hnone ⊢
          split at hnone
          · next hroot => exact .inr (by rw [if_pos hroot]; exact hroot)
          · cases hnone
        · rw [hother, ha] at hnone
          cases hnone

end step

/-- Along every run: the browser shows the folder that was chosen as long as it
stays flat, and no longer. -/
theorem Browser.shows_iff (t : SdTree) (events : List BrowserEvent) :
    Machine.Throughout (bothStep t) (fun s => Shows t s.1 s.2) (.boot, .boot) events ↔
      Machine.StepsOk (bothStep t) (fun s e => s.1.StaysFlat e) (.boot, .boot) events := by
  have hboot : Shows t .boot .boot := by
    refine ⟨rfl, fun h => absurd h Bool.false_ne_true, ?_⟩
    exact (ite_self _).symm
  have htracked : Tracked .boot .boot :=
    ⟨fun _ hn => absurd hn List.not_mem_nil, fun _ => .inr rfl⟩
  exact Machine.throughout_iff_stepsOk_of_invariant
    (J := fun s : Browser × Chosen => Tracked s.1 s.2) (fun s e hT h _ => tracked_step hT h e)
    (fun s e hT h => shows_step hT h e) htracked hboot events

/-- `/a/b/f`. -/
def nestedTree : SdTree where
  key := id
  root := [(ascii "a", .folder [(ascii "b", .folder [(ascii "f", .file 0)])])]
  wellNamed := by
    have hf : (FolderTree.folder [(ascii "f", .file 0)]).WellNamed id IsFileName :=
      .folder (by decide) (by decide) (by simpa using .file 0)
    have hb : (FolderTree.folder [(ascii "b", .folder [(ascii "f", .file 0)])]).WellNamed id IsFileName :=
      .folder (by decide) (by decide) (by simpa using hf)
    exact .folder (by decide) (by decide) (by simpa using hb)

/-- Read SD, 'B' on `a`, 'B' on `b`. -/
theorem nested_folder_lost :
    (Machine.run (bothStep nestedTree) (.boot, .boot)
      [.visit, .key (some .B), .key (some .B)]).2.folder = [ascii "a", ascii "b"] ∧
    (Machine.run (bothStep nestedTree) (.boot, .boot)
      [.visit, .key (some .B), .key (some .B)]).1.currentPath = ascii "/b" ∧
    ¬ Machine.Throughout (bothStep nestedTree) (fun s => Shows nestedTree s.1 s.2) (.boot, .boot)
      [.visit, .key (some .B), .key (some .B)] := by
  refine ⟨by decide, by decide, fun h => ?_⟩
  have hpath := (h _ (List.prefix_refl _)).path
  exact absurd hpath (by decide)

/-! ## 2. The way back to the root -/

/-- The browser is in a folder, on the screen or in the menu. -/
structure At (t : SdTree) (b : Browser) (folder : Path) : Prop where
  names : ∀ n ∈ folder, IsFileName n
  path : b.currentPath = render folder
  list : b.screen.isSome → b.fileList = (t.listing folder).map entryOf

theorem at_showFileList (t : SdTree) {folder : Path} (h : ∀ n ∈ folder, IsFileName n) :
    At t (t.showFileList (render folder)) folder := by
  have hglobals := t.showFileList_globals h
  exact ⟨h, by rw [hglobals], fun _ => by rw [hglobals]⟩

theorem SdTree.isFileName_entry (t : SdTree) {folder : Path} {name : Bytes}
    {child : FolderTree Bytes Nat} (h : (name, child) ∈ t.listing folder) :
    ∀ n ∈ [name], IsFileName n :=
  fun _ hn => List.mem_singleton.mp hn ▸ t.isFileName_of_mem h

/-- What a turn of the loop does. -/
theorem Browser.handle_cases (t : SdTree) (b : Browser) (c : CursorIn b.fileList.length)
    (k : Option Key) :
    (b.handle t c k).toSdGlobals = b.toSdGlobals ∨
      ((b.marked c).isDirectory ∧ b.handle t c k = t.showFileList (slash :: (b.marked c).path)) ∨
      b.handle t c k = b.leave t := by
  rcases key_cases t k with rfl | rfl | rfl | rfl | ⟨hother, -⟩
  · exact .inl rfl
  · exact .inl rfl
  · unfold Browser.handle
    simp only
    split
    · next hdir => exact .inr (.inl ⟨hdir, rfl⟩)
    · exact .inl rfl
  · exact .inr (.inr rfl)
  · exact .inl (by rw [(hother b c).1])

/-- A step stays in the folder, or enters a subfolder as if it were in the root,
or goes to the parent. -/
theorem At.step {t : SdTree} {b : Browser} {folder : Path} (h : At t b folder) (e : BrowserEvent) :
    At t (b.step t e) folder ∨
      (∃ name es, (name, .folder es) ∈ t.listing folder ∧
        b.step t e = t.showFileList (render [name])) ∨
      (folder ≠ [] ∧ b.step t e = t.showFileList (render folder.dropLast)) := by
  cases hb : b.screen with
  | none =>
    left
    cases e with
    | visit =>
      rw [Browser.step_visit t hb, h.path]
      exact at_showFileList t h.names
    | key k => rwa [Browser.step_key_menu t hb]
  | some c =>
    have hlist := h.list (by rw [hb]; rfl)
    cases e with
    | visit =>
      left
      rwa [Browser.step_visit_loop t hb]
    | key k =>
      rw [Browser.step_key t hb]
      rcases Browser.handle_cases t b c k with hsame | ⟨hdir, henter⟩ | hleave
      · left
        refine ⟨h.names, ?_, fun _ => ?_⟩
        · rw [hsame, h.path]
        · rw [hsame, hlist]
      · right; left
        obtain ⟨⟨name, child⟩, hentry, hmarked⟩ := Browser.marked_eq hlist c
        rw [hmarked] at hdir henter
        cases child with
        | file size => cases hdir
        | folder es =>
          refine ⟨name, es, List.mem_of_getElem? hentry, ?_⟩
          rw [henter, render_singleton]
          rfl
      · rw [hleave]
        by_cases hroot : folder = []
        · left
          have hpath := h.path
          rw [hroot] at hpath
          rw [leave_root t hpath]
          exact ⟨h.names, h.path, fun hscreen => absurd hscreen Bool.false_ne_true⟩
        · exact .inr (.inr ⟨hroot, leave_render t h.path h.names hroot⟩)

/-- The root, or a folder that is found in it and has entries. -/
def Home (t : SdTree) (folder : Path) : Prop :=
  folder = [] ∨ ∃ n fs, folder = [n] ∧ t.at_ [n] = some (.folder fs) ∧ fs ≠ []

theorem SdTree.listing_nil (t : SdTree) : t.listing [] = t.root := rfl

theorem SdTree.listing_of_at {t : SdTree} {path : Path} {f : FolderTree Bytes Nat}
    (h : t.at_ path = some f) : t.listing path = f.entries := by
  unfold listing
  rw [h]

/-- An entry of the root is found under every name with its key. -/
theorem SdTree.at_root (t : SdTree) {m n : Bytes} {f : FolderTree Bytes Nat} (h : (m, f) ∈ t.root)
    (hkey : t.key m = t.key n) : t.at_ [n] = some f :=
  t.wellNamed.find_entry h hkey

/-- With the condition every folder that is entered is home. -/
theorem home_of_mem {t : SdTree} (hreturns : t.Returns) {folder : Path} (hhome : Home t folder)
    {name : Bytes} {es : List (Bytes × FolderTree Bytes Nat)}
    (hmem : (name, .folder es) ∈ t.listing folder) : Home t [name] := by
  rcases hhome with rfl | ⟨_, fs, rfl, hat, -⟩
  · exact .inr ⟨name, es, rfl, t.at_root hmem rfl, (hreturns name es hmem).1⟩
  · rw [SdTree.listing_of_at hat] at hmem
    obtain ⟨m, hm, -⟩ := FolderTree.mem_entries_of_find t.key hat
    obtain ⟨z, gs, hz, hkey⟩ := (hreturns m fs hm).2 name es hmem
    exact .inr ⟨name, gs, rfl, t.at_root hz hkey, (hreturns z gs hz).1⟩

theorem home_step {t : SdTree} (hreturns : t.Returns) {b : Browser} (e : BrowserEvent)
    (h : ∃ folder, At t b folder ∧ Home t folder) :
    ∃ folder, At t (b.step t e) folder ∧ Home t folder := by
  obtain ⟨folder, hat, hhome⟩ := h
  rcases hat.step e with hstay | ⟨name, es, hmem, hstep⟩ | ⟨hne, hstep⟩
  · exact ⟨folder, hstay, hhome⟩
  · rw [hstep]
    exact ⟨[name], at_showFileList t (t.isFileName_entry hmem), home_of_mem hreturns hhome hmem⟩
  · rw [hstep]
    refine ⟨folder.dropLast, at_showFileList t fun n hn => hat.names n (List.mem_of_mem_dropLast hn), ?_⟩
    rcases hhome with rfl | ⟨_, fs, rfl, -, -⟩
    · exact absurd rfl hne
    · exact .inl rfl

/-- Home there is something on the screen. -/
theorem Home.listing_ne {t : SdTree} (hroot : t.root ≠ []) {folder : Path} (h : Home t folder) :
    t.listing folder ≠ [] := by
  rcases h with rfl | ⟨n, fs, rfl, hat, hne⟩
  · exact hroot
  · rwa [SdTree.listing_of_at hat]

theorem showsRoot_showFileList {t : SdTree} (hroot : t.root ≠ []) :
    t.ShowsRoot (t.showFileList (render [])) := by
  have hnil : ∀ n ∈ ([] : Path), IsFileName n := fun n hn => absurd hn List.not_mem_nil
  have hglobals := t.showFileList_globals hnil
  have hscreen := t.showFileList_screen hnil
  rw [t.listing_nil] at hglobals hscreen
  rw [if_neg hroot] at hscreen
  obtain ⟨c, hc, -⟩ := Option.map_eq_some_iff.mp hscreen
  refine ⟨by rw [hc]; rfl, by rw [hglobals]; rfl, by rw [hglobals]⟩

theorem reaches_visit (t : SdTree) {b : Browser} {folder : Path} (h : At t b folder)
    (hb : b.screen = none) : Machine.Reaches (Browser.step t) b (t.showFileList (render folder)) := by
  refine ⟨[.visit], ?_⟩
  rw [Machine.run_cons, Machine.run_nil, Browser.step_visit t hb, h.path]

/-- From home a visit and 'D' lead to the root. -/
theorem home_reaches_root {t : SdTree} (hroot : t.root ≠ []) {b : Browser} {folder : Path}
    (hat : At t b folder) (hhome : Home t folder) :
    ∃ b', Machine.Reaches (Browser.step t) b b' ∧ t.ShowsRoot b' := by
  -- on the screen first
  obtain ⟨b₁, hreach, hat₁, hscreen⟩ : ∃ b₁, Machine.Reaches (Browser.step t) b b₁ ∧ At t b₁ folder ∧
      b₁.screen.isSome := by
    cases hb : b.screen with
    | none =>
      refine ⟨_, reaches_visit t hat hb, at_showFileList t hat.names, ?_⟩
      have hscreen := t.showFileList_screen hat.names
      rw [if_neg (hhome.listing_ne hroot)] at hscreen
      obtain ⟨c, hc, -⟩ := Option.map_eq_some_iff.mp hscreen
      rw [hc]
      rfl
    | some c => exact ⟨b, .refl _ b, hat, by rw [hb]; rfl⟩
  rcases hhome with rfl | ⟨n, fs, rfl, -, -⟩
  · exact ⟨b₁, hreach, hscreen, hat₁.path, hat₁.list hscreen⟩
  · obtain ⟨c, hc⟩ := Option.isSome_iff_exists.mp hscreen
    have hleave : b₁.step t (.key (some .D)) = t.showFileList (render []) := by
      rw [Browser.step_key t hc, Browser.handle_D,
        leave_render t hat₁.path hat₁.names (List.cons_ne_nil n []), List.dropLast_singleton]
    refine ⟨_, hreach.step (.key (some .D)), ?_⟩
    rw [hleave]
    exact showsRoot_showFileList hroot

/-- In a folder without entries there is no way out. -/
theorem trapped {t : SdTree} {folder : Path} (hfolder : ∀ n ∈ folder, IsFileName n)
    (hnil : t.listing folder = []) {b : Browser}
    (h : Machine.Reaches (Browser.step t) (t.showFileList (render folder)) b) : ¬ t.ShowsRoot b := by
  have hmenu : (t.showFileList (render folder)).screen = none := by
    have hscreen := t.showFileList_screen hfolder
    rw [if_pos hnil] at hscreen
    exact Option.map_eq_none_iff.mp hscreen
  have htrap : At t b folder ∧ b.screen = none := by
    refine h.invariant (I := fun b => At t b folder ∧ b.screen = none) (fun s e hs => ?_)
      ⟨at_showFileList t hfolder, hmenu⟩
    cases e with
    | visit =>
      rw [Browser.step_visit t hs.2, hs.1.path]
      exact ⟨at_showFileList t hfolder, hmenu⟩
    | key k =>
      rw [Browser.step_key_menu t hs.2]
      exact hs
  rintro ⟨hscreen, -⟩
  rw [htrap.2] at hscreen
  cases hscreen

/-- 'C' moves the mark to any entry. -/
theorem reaches_index (t : SdTree) {b : Browser} {c : CursorIn b.fileList.length}
    (hb : b.screen = some c) (hc : c.selected = 0) :
    ∀ i < b.fileList.length, ∃ c' : CursorIn b.fileList.length,
      Machine.Reaches (Browser.step t) b { b with screen := some c' } ∧ c'.selected = i := by
  intro i
  -- one more 'C' for every entry
  induction i with
  | zero =>
    intro _
    have hsame : { b with screen := some c } = b := by rw [← hb]
    exact ⟨c, by rw [hsame]; exact .refl _ b, hc⟩
  | succ i ih =>
    intro hi
    obtain ⟨c', hreach, hindex⟩ := ih (by omega)
    refine ⟨c'.down, hreach.step (.key (some .C)), ?_⟩
    rw [CursorIn.down_toCursor]
    unfold Cursor.down
    rw [if_pos (by omega)]
    simp only
    omega

/-- A subfolder of what is listed can be entered. -/
theorem reaches_enter {t : SdTree} {folder : Path} (hfolder : ∀ n ∈ folder, IsFileName n)
    {name : Bytes} {es : List (Bytes × FolderTree Bytes Nat)}
    (hmem : (name, .folder es) ∈ t.listing folder) :
    Machine.Reaches (Browser.step t) (t.showFileList (render folder))
      (t.showFileList (render [name])) := by
  generalize hb : t.showFileList (render folder) = b
  have hat : At t b folder := hb ▸ at_showFileList t hfolder
  have hscreen := t.showFileList_screen hfolder
  rw [hb, if_neg (List.ne_nil_of_mem hmem)] at hscreen
  obtain ⟨c, hc, hstart⟩ := Option.map_eq_some_iff.mp hscreen
  have hlist := hat.list (by rw [hc]; rfl)
  obtain ⟨i, hi, hentry⟩ := List.mem_iff_getElem.mp hmem
  obtain ⟨c', hreach, hindex⟩ := reaches_index t hc (by rw [hstart]; rfl) i
    (by rw [hlist, List.length_map]; exact hi)
  refine hreach.trans ⟨[.key (some .B)], ?_⟩
  obtain ⟨e, he, hmarked⟩ := Browser.marked_eq (b := { b with screen := some c' }) hlist c'
  have he' : e = (name, .folder es) := by
    rw [hindex, Int.toNat_natCast, List.getElem?_eq_getElem hi, hentry] at he
    exact (Option.some.inj he).symm
  rw [he'] at hmarked
  rw [Machine.run_cons, Machine.run_nil, Browser.step_key t rfl, Browser.handle_B t hmarked,
    render_singleton]

/-- The root can always be shown again exactly if the root is not empty and the
tree is as `Returns` says. -/
theorem SdTree.alwaysBack_iff (t : SdTree) : t.AlwaysBack ↔ t.root ≠ [] ∧ t.Returns := by
  have hnil : ∀ n ∈ ([] : Path), IsFileName n := fun n hn => absurd hn List.not_mem_nil
  have hboot : At t .boot [] := ⟨hnil, rfl, fun h => absurd h Bool.false_ne_true⟩
  constructor
  · intro hback
    have hvisit : Machine.Reaches (Browser.step t) .boot (t.showFileList (render [])) :=
      reaches_visit t hboot rfl
    -- a folder that can be reached has entries
    have hentered : ∀ folder, (∀ n ∈ folder, IsFileName n) →
        Machine.Reaches (Browser.step t) .boot (t.showFileList (render folder)) →
          t.listing folder ≠ [] := by
      intro folder hfolder hreach hempty
      obtain ⟨b', hreach', hshows⟩ := hback _ hreach
      exact trapped hfolder hempty hreach' hshows
    refine ⟨hentered [] hnil hvisit, fun x es hx => ?_⟩
    have hxmem : (x, .folder es) ∈ t.listing [] := hx
    have hxname := t.isFileName_entry hxmem
    have hxreach := hvisit.trans (reaches_enter hnil hx)
    have hxlist : t.listing [x] = es := SdTree.listing_of_at (t.at_root hx rfl)
    refine ⟨hxlist ▸ hentered [x] hxname hxreach, fun y ds hy => ?_⟩
    rw [← hxlist] at hy
    have hyname := t.isFileName_entry hy
    have hylist := hentered [y] hyname (hxreach.trans (reaches_enter hxname hy))
    unfold SdTree.listing at hylist
    split at hylist
    · next f hat =>
      obtain ⟨z, hz, hkey⟩ := FolderTree.mem_entries_of_find t.key hat
      cases f with
      | file size => exact absurd rfl hylist
      | folder fs => exact ⟨z, fs, hz, hkey⟩
    · exact absurd rfl hylist
  · rintro ⟨hroot, hreturns⟩ b hreach
    obtain ⟨folder, hat, hhome⟩ := hreach.invariant
      (I := fun b => ∃ folder, At t b folder ∧ Home t folder)
      (fun s e => home_step hreturns e) ⟨[], hboot, .inl rfl⟩
    exact home_reaches_root hroot hat hhome

/-- An empty folder `d` and a file `f`. -/
def emptyFolderTree : SdTree where
  key := id
  root := [(ascii "d", .folder []), (ascii "f", .file 0)]
  wellNamed := by
    have hd : (FolderTree.folder ([] : List (Bytes × FolderTree Bytes Nat))).WellNamed id IsFileName :=
      .folder (by decide) (by decide) fun _ he => absurd he List.not_mem_nil
    exact .folder (by decide) (by decide) (by simpa using ⟨hd, .file 0⟩)

theorem trapped_in_empty_folder : emptyFolderTree.root ≠ [] ∧ ¬ emptyFolderTree.AlwaysBack := by
  refine ⟨List.cons_ne_nil _ _, fun hback => ?_⟩
  have hd : ∀ n ∈ [ascii "d"], IsFileName n := by decide
  obtain ⟨b, hreach, hshows⟩ := hback (emptyFolderTree.showFileList (render [ascii "d"]))
    ⟨[.visit, .key (some .B)], rfl⟩
  exact trapped hd rfl hreach hshows

end Handheld
