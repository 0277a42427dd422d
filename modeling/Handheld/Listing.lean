import Handheld.SdVolume
import Handheld.WebFiles

/-!
# The two listings of a folder (`WebReadSDCard.cpp`, `ReadSD.h`)

GET `/listfiles` answers with a line for each entry, `readSDFiles` stores the
entries in `fileList`. A line is `Fo name` or `Fi name: size`, and a name may have
spaces and colons in it; the size may not, so that the last `": "` of a line ends
the name.

Results:
1. `parseListing_listLines`: the text is read back, whatever the names are.
2. `listings_agree`: both listings are the entries of the folder in its order.
-/

namespace Handheld

open ByteString AsyncWebServerRequest

/-! ## Definitions -/

def newline : UInt8 := '\n'.toUInt8

/-- The text of a size ends no line and no name. -/
def SizeText (text : Bytes) : Prop := newline ∉ text ∧ ¬ ascii ": " <:+: text

/-- What is before the last `": "`. -/
def beforeSize : Bytes → Option Bytes
  | [] => none
  | c :: s =>
    match beforeSize s with
    | some name => some (c :: name)
    | none => if startsWith (c :: s) (ascii ": ") then some [] else none

/-- Whether a line is that of a folder, and its name. -/
def parseLine (line : Bytes) : Option (Bool × Bytes) :=
  if startsWith line (ascii "Fo ") then some (true, line.drop 3)
  else if startsWith line (ascii "Fi ") then (beforeSize (line.drop 3)).map fun name => (false, name)
  else none

/-- The entries in the answer of `/listfiles`; every line ends in a newline. -/
def parseListing (text : Bytes) : Option (List (Bool × Bytes)) :=
  if (text.splitOn newline).getLast? = some [] then (text.splitOn newline).dropLast.mapM parseLine
  else none

section volume

variable {ν : Type} [DecidableEq ν]

/-- The browser calls the card as the handlers do. -/
instance : SdFolder (Volume ν) where
  begin_ := fun v => v.inquire false (some true)
  open_ p := SdStore.open_ p .read
  openNextFiles file := Sd.openNextFiles file

/-- Whether an entry is a folder, and its name, for the entries of a folder in their order. -/
def Volume.listing (v : Volume ν) (p : List ν) : List (Bool × Bytes) :=
  (v.tree.names p).filterMap fun n =>
    (v.tree.item (p ++ [n])).map fun i => (decide (i = .folder), v.naming.text n)

/-- The next calls, as many as it takes to read a folder, succeed. -/
def Volume.Answers (v : Volume ν) : Prop := ∀ n < 3, v.ok (v.calls + n) = true

/-- GET `/listfiles` with `request` and `readSDFiles(path)` both list the folder
at `p`: every entry, each once and in the order of the folder. -/
structure ListingsAgree (formatSize : Nat → Bytes) (v : Volume ν) (p : List ν)
    (request : List Param) (path : Bytes) : Prop where
  all : ∀ n i, v.tree.item (p ++ [n]) = some i →
    (decide (i = .folder), v.naming.text n) ∈ v.listing p
  only : ∀ kind name, (kind, name) ∈ v.listing p →
    ∃ n i, v.tree.item (p ++ [n]) = some i ∧ (kind, name) = (decide (i = .folder), v.naming.text n)
  once : (v.listing p).Nodup
  web : ∃ text, (handleListFiles formatSize request v).1 = .text 200 text ∧
    parseListing text = some (v.listing p)
  device : (readSDFiles path v).1.fileList.map (fun entry => (entry.isDirectory, entry.name)) =
    v.listing p

end volume

/-! ## 1. Reading the text back -/

theorem beforeSize_eq_none {s : Bytes} (h : ¬ ascii ": " <:+: s) : beforeSize s = none := by
  induction s with
  | nil => rfl
  | cons c s ih =>
    have hstart : startsWith (c :: s) (ascii ": ") = false :=
      Bool.eq_false_iff.mpr fun hstart => h (List.isPrefixOf_iff_prefix.mp hstart).isInfix
    rw [beforeSize, ih fun hinfix => h (List.infix_cons hinfix), hstart]
    rfl

/-- The size, and not a part of the name, is cut off. -/
theorem beforeSize_append {size : Bytes} (h : ¬ ascii ": " <:+: size) (name : Bytes) :
    beforeSize (name ++ (ascii ": " ++ size)) = some name := by
  induction name with
  | nil =>
    have hspace : ¬ ascii ": " <:+: 32 :: size := by
      intro hinfix
      rcases List.infix_cons_iff.mp hinfix with hprefix | hinfix
      · exact absurd (List.cons_prefix_cons.mp hprefix).1 (by decide)
      · exact h hinfix
    show (match beforeSize (32 :: size) with | some name => _ | none => _) = _
    rw [beforeSize_eq_none hspace]
    rfl
  | cons c name ih => rw [List.cons_append, beforeSize, ih]

/-- The line of an entry, without its end. -/
def entryLine (formatSize : Nat → Bytes) (file : File) : Bytes :=
  (if file.isDirectory then ascii "Fo " else ascii "Fi ") ++ file.name ++
    (if file.isDirectory then [] else ascii ": " ++ formatSize file.size)

theorem listLine_eq (formatSize : Nat → Bytes) {file : File} (h : IsFileName file.name) :
    listLine formatSize file = entryLine formatSize file ++ [newline] := by
  have hslash : lastIndexOf file.name slash = -1 := lastIndexOf_eq_neg_one h.1.2
  have hpos : file.name.length > 0 := List.length_pos_of_ne_nil h.1.1
  have hname : (if (-1 : Int) ≥ 0 then substringFrom file.name (-1 + 1 : Int).toNat
      else file.name) = file.name := if_neg (by decide)
  unfold listLine entryLine
  simp only [hslash, hname]
  rw [if_pos hpos]
  rfl

theorem splitOn_lines {lines : List Bytes} (h : ∀ line ∈ lines, newline ∉ line) :
    (lines.flatMap (· ++ [newline])).splitOn newline = lines ++ [[]] := by
  induction lines with
  | nil => rfl
  | cons line lines ih =>
    rw [List.flatMap_cons, List.append_assoc, List.singleton_append, List.splitOn_append_cons_self,
      List.splitOn_eq_singleton (h line List.mem_cons_self),
      ih fun line' hline' => h line' (List.mem_cons_of_mem line hline')]
    rfl

section formatSize

variable {formatSize : Nat → Bytes} (hsize : ∀ n, SizeText (formatSize n))

include hsize

theorem parseLine_entryLine (file : File) :
    parseLine (entryLine formatSize file) = some (file.isDirectory, file.name) := by
  unfold entryLine
  cases file.isDirectory with
  | true =>
    simp only [if_true, List.append_nil]
    rfl
  | false =>
    simp only [Bool.false_eq_true, if_false]
    rw [List.append_assoc]
    show (beforeSize (file.name ++ (ascii ": " ++ formatSize file.size))).map _ = _
    rw [beforeSize_append (hsize file.size).2]
    rfl

theorem newline_notMem_entryLine {file : File} (h : newline ∉ file.name) :
    newline ∉ entryLine formatSize file := by
  unfold entryLine
  cases file.isDirectory with
  | true =>
    simp only [if_true, List.append_nil, List.mem_append, not_or]
    exact ⟨by decide, h⟩
  | false =>
    simp only [Bool.false_eq_true, if_false, List.mem_append, not_or]
    exact ⟨⟨by decide, h⟩, by decide, (hsize file.size).1⟩

/-- The text is read back to the kinds and the names of its entries. -/
theorem parseListing_listLines {files : List File}
    (h : ∀ file ∈ files, IsFileName file.name ∧ newline ∉ file.name) :
    parseListing (files.flatMap (listLine formatSize)) =
      some (files.map fun file => (file.isDirectory, file.name)) := by
  have hlines : files.flatMap (listLine formatSize) =
      (files.map (entryLine formatSize)).flatMap (· ++ [newline]) := by
    rw [List.flatMap_map]
    exact List.flatMap_congr fun file hfile => listLine_eq formatSize (h file hfile).1
  have hclean : ∀ line ∈ files.map (entryLine formatSize), newline ∉ line := by
    intro line hline
    obtain ⟨file, hfile, rfl⟩ := List.mem_map.mp hline
    exact newline_notMem_entryLine hsize (h file hfile).2
  have hparse : parseLine ∘ entryLine formatSize = fun file => some (file.isDirectory, file.name) :=
    funext (parseLine_entryLine hsize)
  rw [parseListing, hlines, splitOn_lines hclean, if_pos List.getLast?_concat, List.dropLast_concat,
    List.mapM_map, hparse]
  exact List.mapM_pure

end formatSize

/-! ## 2. The two loops -/

section volume

variable {ν : Type} [DecidableEq ν] {v : Volume ν} {p : List ν}

theorem mem_listing {kind : Bool} {name : Bytes} :
    (kind, name) ∈ v.listing p ↔ ∃ n i, v.tree.item (p ++ [n]) = some i ∧
      (kind, name) = (decide (i = .folder), v.naming.text n) := by
  unfold Volume.listing
  rw [List.mem_filterMap]
  constructor
  · rintro ⟨n, -, hn⟩
    obtain ⟨i, hi, heq⟩ := Option.map_eq_some_iff.mp hn
    exact ⟨n, i, hi, heq.symm⟩
  · rintro ⟨n, i, hi, heq⟩
    refine ⟨n, PathTree.mem_names.mpr (by rw [hi]; exact Option.some_ne_none i), ?_⟩
    rw [hi, heq]
    rfl

theorem nodup_listing (v : Volume ν) (p : List ν) : (v.listing p).Nodup := by
  refine List.Nodup.filterMap (fun n m e hn hm => ?_) (v.tree.nodup_names p)
  obtain ⟨i, -, rfl⟩ := Option.map_eq_some_iff.mp hn
  obtain ⟨j, -, heq⟩ := Option.map_eq_some_iff.mp hm
  exact v.naming.text_injective (congrArg Prod.snd heq).symm

/-- The files that `openNextFile` gives for the folder at `p`. -/
def Volume.filesIn (v : Volume ν) (path : Bytes) (p : List ν) : List File :=
  (v.tree.names p).filterMap fun n =>
    (v.tree.item (p ++ [n])).map (Volume.file (entryPath path (v.naming.text n)))

/-- The kinds and names of the files are the listing. -/
theorem filesIn_pairs (v : Volume ν) (path : Bytes) (p : List ν) :
    (v.filesIn path p).map (fun file => (file.isDirectory, file.name)) = v.listing p := by
  unfold Volume.filesIn Volume.listing
  rw [List.map_filterMap]
  refine List.filterMap_congr fun n _ => ?_
  rw [Option.map_map]
  refine Option.map_congr fun i _ => ?_
  show ((Volume.file _ i).isDirectory, (Volume.file _ i).name) = _
  rw [Volume.file_isDirectory, Volume.name_file]

theorem isFileName_of_mem {path : Bytes} {file : File} (h : file ∈ v.filesIn path p) :
    ∃ n ∈ v.tree.names p, file.name = v.naming.text n := by
  unfold Volume.filesIn at h
  obtain ⟨n, hn, hfile⟩ := List.mem_filterMap.mp h
  obtain ⟨i, -, rfl⟩ := Option.map_eq_some_iff.mp hfile
  exact ⟨n, hn, v.name_file path n i⟩

variable {path : Bytes}

theorem open_run (hok : v.ok v.calls = true) (htarget : v.target path = some (p, .folder)) :
    (SdStore.open_ path .read : StateM (Volume ν) (Option File)) v =
      (some (Volume.file path .folder), v.called) := by
  show v.inquire none ((v.target path).map fun i => some (Volume.file path i.2)) = _
  rw [htarget]
  exact Volume.inquire_ok hok none _

theorem openNextFiles_run (hok : v.ok v.calls = true) (htarget : v.target path = some (p, .folder)) :
    (Sd.openNextFiles (Volume.file path .folder) : StateM (Volume ν) (List File)) v =
      (v.filesIn path p, v.called) := by
  have hplace : v.place path = some p := (Volume.target_eq_some_iff.mp htarget).1
  have hentries : v.entries (Volume.file path .folder) = some (v.filesIn path p) := by
    show (v.place path).map _ = _
    rw [hplace]
    rfl
  show v.inquire [] (v.entries (Volume.file path .folder)) = _
  rw [hentries]
  exact Volume.inquire_ok hok [] _

variable (hok : v.Answers) (htarget : v.target path = some (p, .folder))

include hok htarget

/-- GET `/listfiles` answers with the lines of the files. -/
theorem handleListFiles_run {formatSize : Nat → Bytes} {request : List Param} {param : Param}
    (hparam : getParam request (ascii "folder") false = some param)
    (hpath : path = withSlash (urlDecode param.value)) :
    (handleListFiles formatSize request v).1 =
      .text 200 ((v.filesIn path p).flatMap (listLine formatSize)) := by
  have hopen := open_run (hok 0 (by decide)) htarget
  have hnext := openNextFiles_run (v := v.called) (hok 1 (by decide)) htarget
  unfold handleListFiles
  rw [hparam]
  dsimp only
  rw [← hpath, bind_run, hopen]
  show ((Sd.openNextFiles (Volume.file path .folder) >>= _ : StateM (Volume ν) Response)
    v.called).1 = _
  rw [bind_run, hnext]
  rfl

/-- `readSDFiles` makes an entry of each file. -/
theorem readSDFiles_run :
    (readSDFiles path v).1 = ⟨(v.filesIn path p).map FileEntry.of, path⟩ := by
  have hbegin : (SdFolder.begin_ : StateM (Volume ν) Bool) v = (true, v.called) :=
    Volume.inquire_ok (hok 0 (by decide)) false true
  have hopen := open_run (v := v.called) (hok 1 (by decide)) htarget
  have hnext := openNextFiles_run (v := v.called.called) (hok 2 (by decide)) htarget
  unfold readSDFiles
  rw [bind_run, hbegin]
  show ((SdStore.open_ path .read >>= _ : StateM (Volume ν) SdGlobals) v.called).1 = _
  rw [bind_run, hopen]
  show ((Sd.openNextFiles (Volume.file path .folder) >>= _ : StateM (Volume ν) SdGlobals)
    v.called.called).1 = _
  rw [bind_run, hnext]
  rfl

end volume

/-- The entry of a `File` has its kind and its name. -/
theorem fileEntry_pair {file : File} (h : IsFileName file.name) :
    ((FileEntry.of file).isDirectory, (FileEntry.of file).name) = (file.isDirectory, file.name) := by
  have hslash : lastIndexOf file.name slash = -1 := lastIndexOf_eq_neg_one h.1.2
  unfold FileEntry.of
  simp only [hslash]
  rfl

/-- Two paths to one folder, one from the web and one on the device: the answer is
read back to the entries of the folder, and the device stores the same. -/
theorem listings_agree {ν : Type} [DecidableEq ν] {formatSize : Nat → Bytes}
    (hsize : ∀ n, SizeText (formatSize n)) {v : Volume ν} {p : List ν} {request : List Param}
    {param : Param} {path : Bytes} (hparam : getParam request (ascii "folder") false = some param)
    (hweb : v.target (withSlash (urlDecode param.value)) = some (p, .folder))
    (hdevice : v.target path = some (p, .folder)) (hok : v.Answers)
    (hname : ∀ n ∈ v.tree.names p, newline ∉ v.naming.text n) :
    ListingsAgree formatSize v p request path := by
  have hfiles : ∀ path, ∀ file ∈ v.filesIn path p, IsFileName file.name ∧ newline ∉ file.name := by
    intro path file hfile
    obtain ⟨n, hn, heq⟩ := isFileName_of_mem hfile
    rw [heq]
    exact ⟨v.naming.isFileName_text n, hname n hn⟩
  refine ⟨fun n i hi => mem_listing.mpr ⟨n, i, hi, rfl⟩, fun _ _ h => mem_listing.mp h,
    nodup_listing v p, ⟨_, handleListFiles_run hok hweb hparam rfl, ?_⟩, ?_⟩
  · rw [parseListing_listLines hsize (hfiles _), filesIn_pairs]
  · rw [readSDFiles_run hok hdevice, ← filesIn_pairs v path p, List.map_map]
    exact List.map_congr_left fun file hfile => fileEntry_pair (hfiles path file hfile).1

/-- The folder `/docs` with the file `a: b`, of five bytes, and the folder `Fi x`. -/
def docsVolume : Volume PosixName :=
  let docs : PosixName := ⟨ascii "docs", by decide⟩
  let withDocs := PathTree.bare.put [docs] .folder (by decide) (by decide)
  let withFile := withDocs.put [docs, ⟨ascii "a: b", by decide⟩] (.file [1, 2, 3, 4, 5]) (by decide)
    (by decide)
  ⟨.posix, withFile.put [docs, ⟨ascii "Fi x", by decide⟩] .folder (by decide) (by decide),
    fun _ => true, 0⟩

theorem listings_agree_docs :
    ListingsAgree (fun _ => ascii "5 B") docsVolume [⟨ascii "docs", by decide⟩]
      [⟨ascii "folder", ascii "docs", false, false⟩] (ascii "/docs/") := by
  have htext : SizeText (ascii "5 B") := ⟨by decide, by decide⟩
  have hparam : getParam [⟨ascii "folder", ascii "docs", false, false⟩] (ascii "folder") false =
      some ⟨ascii "folder", ascii "docs", false, false⟩ := by decide
  exact listings_agree (fun _ => htext) hparam (by decide) (by decide) (fun _ _ => rfl) (by decide)

end Handheld
