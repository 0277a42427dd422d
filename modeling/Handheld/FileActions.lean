import Handheld.SdVolume
import Handheld.WebFiles

/-!
# Deleting and renaming over the web

`handleFileAction` and `handleRename` run on a `Volume`, and what they answer is
compared with what they leave on the card.

Results:
1. `delete_told_iff`: the answer to a deletion is true exactly when the call that
   the handler does not look at, or cannot tell from an empty folder, goes well.
2. `rename_told_iff`: a renaming is one exactly when the new name and the last
   part of the old path are single names, or the card refuses.
-/

namespace Handheld

open ByteString AsyncWebServerRequest

/-! ## Definitions -/

/-- The status of the answer. A file is sent with 200. -/
def Response.code : Response → Nat
  | .text code _ => code
  | .file _ _ => 200

variable {ν : Type}

/-- The answer to the deletion of `path` is true: after a 200 just the addressed
entry is gone, else nothing has changed, and a folder with an entry is not
answered with 200. -/
structure DeletionTold (before after : Volume ν) (path : Bytes) (answer : Response) : Prop where
  gone : answer.code = 200 → ∃ p, before.place path = some p ∧ before.tree.Without after.tree p
  kept : answer.code ≠ 200 → before.tree.Same after.tree
  nonempty : ∀ p n, before.place path = some p → before.tree.item (p ++ [n]) ≠ none →
    answer.code ≠ 200

namespace Volume

/-- What `SD.open` finds. -/
def found (v : Volume ν) (path : Bytes) : Option (List ν × PathItem Bytes) :=
  if v.ok v.calls then v.target path else none

/-- The further calls of a deletion go well: `SD.remove` of a file, `openNextFile`
in a folder with entries, and `SD.rmdir` of an empty folder, which is not the root. -/
def DeletesWell [DecidableEq ν] (v : Volume ν) (path : Bytes) : Prop :=
  match v.found path with
  | none => True
  | some (_, .file _) => v.ok (v.calls + 1) = true
  | some (p, .folder) =>
    if v.tree.names p = [] then p ≠ [] ∧ v.ok (v.calls + 2) = true else v.ok (v.calls + 1) = true

end Volume

/-- The text up to the last slash, and the text after it. -/
def folderPart (s : Bytes) : Bytes := substring s 0 (lastIndexOf s slash + 1).toNat

def lastPart (s : Bytes) : Bytes := substringFrom s (lastIndexOf s slash + 1).toNat

/-- The answer to the renaming of what is at `path` is true: after a 200 it is in
the same folder under the new name, else nothing has changed. -/
structure RenameTold (before after : Volume ν) (path fileName : Bytes) (answer : Response) :
    Prop where
  renamed : answer.code = 200 → ∃ folder m n, before.place path = some (folder ++ [m]) ∧
    before.EntryName fileName n ∧ before.tree.Moved after.tree (folder ++ [m]) (folder ++ [n])
  kept : answer.code ≠ 200 → before.tree.Same after.tree

/-- The card renames: both calls succeed, an entry other than the root is at the
old path, and the new path is free in a folder that is there. -/
def Volume.Renames (v : Volume ν) (pathFrom pathTo : Bytes) : Prop :=
  v.ok v.calls = true ∧ v.ok (v.calls + 1) = true ∧
    ∃ p q, v.place pathFrom = some p ∧ v.place pathTo = some q ∧ Movable v.tree p q

/-- The new name and the last part of the old path are names, or the card refuses. -/
def Volume.RenamesWell (v : Volume ν) (path fileName : Bytes) : Prop :=
  ((∃ n, v.EntryName fileName n) ∧ ∃ m, v.EntryName (cstr (lastPart path)) m) ∨
    ¬ v.Renames path (folderPart path ++ fileName)

/-! ## 1. Deleting -/

/-- A deletion that is refused, and changes nothing. -/
theorem deletionTold_of_refused {before after : Volume ν} {path : Bytes} {answer : Response}
    {code : Nat} (hcode : answer.code = code) (hrefused : code ≠ 200)
    (hsame : after.tree = before.tree) : DeletionTold before after path answer := by
  subst hcode
  exact ⟨fun h200 => absurd h200 hrefused, fun _ q => by rw [hsame], fun _ _ _ _ => hrefused⟩

theorem Volume.found_eq_some_iff {v : Volume ν} {path : Bytes} {i : List ν × PathItem Bytes} :
    v.found path = some i ↔ v.ok v.calls = true ∧ v.target path = some i := by
  unfold found
  cases v.ok v.calls with
  | false => exact iff_of_false (Option.some_ne_none i).symm fun h => Bool.false_ne_true h.1
  | true => exact (and_iff_right rfl).symm

theorem Volume.place_of_found {v : Volume ν} {path : Bytes} {p : List ν} {i : PathItem Bytes}
    (h : v.found path = some (p, i)) : v.place path = some p :=
  (target_eq_some_iff.mp (found_eq_some_iff.mp h).2).1

theorem Volume.inquire_target {α : Type} (v : Volume ν) (failed : α) (path : Bytes)
    (f : List ν × PathItem Bytes → α) :
    v.inquire failed ((v.target path).map f) = (((v.found path).map f).getD failed, v.called) := by
  unfold inquire found
  cases v.ok v.calls <;> rfl

section delete

variable [DecidableEq ν] {v : Volume ν} {request : List Param} {name action : Param}

namespace Volume

theorem open_run (v : Volume ν) (path : Bytes) :
    (SdStore.open_ path .read : StateM (Volume ν) (Option File)) v =
      ((v.found path).map fun i => file path i.2, v.called) := by
  show v.inquire none ((v.target path).map fun i => some (file path i.2)) = _
  rw [inquire_target]
  cases v.found path <;> rfl

/-- The files that `openNextFile` delivers in the folder. -/
def shown (v : Volume ν) (path : Bytes) : List File :=
  (if v.ok v.calls then v.entries (file path .folder) else none).getD []

theorem shown_ne_nil_iff {v : Volume ν} {path : Bytes} {p : List ν} (h : v.place path = some p) :
    v.shown path ≠ [] ↔ v.ok v.calls = true ∧ v.tree.names p ≠ [] := by
  unfold shown
  cases v.ok v.calls with
  | false => simp
  | true =>
    have hentries : v.entries (file path .folder) = some ((v.tree.names p).filterMap fun n =>
        (v.tree.item (p ++ [n])).map (file (entryPath path (v.naming.text n)))) := by
      unfold entries
      rw [show (file path .folder).path = path from rfl, h, Option.map_some]
    rw [if_pos rfl, hentries, Option.getD_some, and_iff_right rfl, ne_eq, List.filterMap_eq_nil_iff,
      ne_eq, List.eq_nil_iff_forall_not_mem, not_iff_not]
    refine forall_congr' fun n => ⟨fun hnone hn => ?_, fun hn hmem => absurd hmem hn⟩
    exact PathTree.mem_names.mp hn (Option.map_eq_none_iff.mp (hnone hn))

end Volume

/-- The branch of the handler that deletes. -/
theorem handleFileAction_delete (hname : getParam request (ascii "name") false = some name)
    (haction : getParam request (ascii "action") false = some action)
    (hdelete : action.value = ascii "delete") (answer : Response) (after : Volume ν)
    (h : handleFileAction request v = (answer, after)) :
    let path := withSlash (urlDecode name.value)
    match v.found path with
    | none => answer.code = 404 ∧ after = v.called
    | some (_, .file _) =>
      answer.code = 200 ∧
        after = (v.called.attempt false ((v.removed path).map fun tree => (true, tree))).2
    | some (p, .folder) =>
      if v.ok (v.calls + 1) = true ∧ v.tree.names p ≠ [] then
        answer.code = 400 ∧ after = v.called.called
      else
        answer.code = 200 ∧
          after = (v.called.called.attempt false ((v.rmdired path).map fun tree => (true, tree))).2 := by
  unfold handleFileAction at h
  rw [hname, haction] at h
  dsimp only at h ⊢
  rw [if_neg (by rw [hdelete]; decide), if_neg (by rw [hdelete]; decide), if_pos hdelete,
    bind_run, Volume.open_run] at h
  generalize withSlash (urlDecode name.value) = path at h ⊢
  cases hfound : v.found path with
  | none =>
    rw [hfound] at h
    cases h
    exact ⟨rfl, rfl⟩
  | some target =>
    obtain ⟨p, i⟩ := target
    rw [hfound] at h
    cases i with
    | file content =>
      cases h
      exact ⟨rfl, rfl⟩
    | folder =>
      have hplace : v.place path = some p := Volume.place_of_found hfound
      have hshown : v.called.shown path ≠ [] ↔ v.ok (v.calls + 1) = true ∧ v.tree.names p ≠ [] :=
        Volume.shown_ne_nil_iff (v := v.called) hplace
      dsimp only
      change (if v.called.shown path ≠ [] then (pure _ : StateM (Volume ν) Response) else _)
        v.called.called = _ at h
      by_cases hne : v.called.shown path ≠ []
      · rw [if_pos (hshown.mp hne)]
        rw [if_pos hne] at h
        cases h
        exact ⟨rfl, rfl⟩
      · rw [if_neg fun hh => hne (hshown.mpr hh)]
        rw [if_neg hne] at h
        cases h
        exact ⟨rfl, rfl⟩

/-- Answered with 200, a deletion must have happened, with nothing in a folder. -/
theorem deletionTold_iff {before after : Volume ν} {path : Bytes} {answer : Response} {p : List ν}
    (hplace : before.place path = some p) (h : answer.code = 200) :
    DeletionTold before after path answer ↔
      before.tree.Without after.tree p ∧ before.tree.names p = [] := by
  constructor
  · rintro ⟨hgone, -, hnonempty⟩
    obtain ⟨q, hq, hwithout⟩ := hgone h
    obtain rfl := Option.some_inj.mp (hplace.symm.trans hq)
    refine ⟨hwithout, PathTree.names_eq_nil_iff.mpr fun n => ?_⟩
    exact Classical.byContradiction fun hitem => hnonempty p n hplace hitem h
  · rintro ⟨hwithout, hnames⟩
    refine ⟨fun _ => ⟨p, hplace, hwithout⟩, fun hne => absurd h hne, fun q n hq hitem => ?_⟩
    obtain rfl := Option.some_inj.mp (hplace.symm.trans hq)
    exact absurd (PathTree.names_eq_nil_iff.mp hnames n) hitem

/-- The call that removes `p` does so exactly when it succeeds. -/
theorem without_attempt_iff {w : Volume ν} {p : List ν} (hp : p ≠ []) (hthere : v.tree.item p ≠ none)
    (hnames : v.tree.names p = []) (hw : w.tree = v.tree) :
    v.tree.Without (w.attempt false ((some (v.tree.remove p hp)).map fun tree => (true, tree))).2.tree p
      ↔ w.ok w.calls = true := by
  unfold Volume.attempt
  cases w.ok w.calls with
  | false =>
    refine iff_of_false (fun hwithout => hthere ?_) Bool.false_ne_true
    rw [← hw]
    exact hwithout.1
  | true => exact iff_of_true (v.tree.without_remove hp hnames) rfl

section target

variable {path : Bytes} {p : List ν} {answer : Response} {after : Volume ν}

/-- A file: the answer is true exactly when `SD.remove` succeeds. -/
theorem deletionTold_file_iff {content : Bytes} (htarget : v.target path = some (p, .file content))
    (hcode : answer.code = 200)
    (hafter : after = (v.called.attempt false ((v.removed path).map fun tree => (true, tree))).2) :
    DeletionTold v after path answer ↔ v.ok (v.calls + 1) = true := by
  obtain ⟨hplace, hitem⟩ := Volume.target_eq_some_iff.mp htarget
  obtain ⟨hp, hremoved⟩ := Volume.removed_eq htarget
  have hthere : v.tree.item p ≠ none := by
    rw [hitem]
    exact Option.some_ne_none _
  have hfile : v.tree.item p ≠ some .folder := by
    rw [hitem]
    exact fun h => by cases h
  have hnames : v.tree.names p = [] := PathTree.names_eq_nil_iff.mpr fun n =>
    v.tree.item_eq_none_below (List.cons_ne_nil n []) hfile
  rw [deletionTold_iff hplace hcode, and_iff_left hnames, hafter, hremoved]
  exact without_attempt_iff hp hthere hnames rfl

/-- An empty folder: the answer is true exactly when `SD.rmdir` succeeds, which it
does not for the root. -/
theorem deletionTold_empty_iff (htarget : v.target path = some (p, .folder))
    (hnames : v.tree.names p = []) (hcode : answer.code = 200)
    (hafter : after =
      (v.called.called.attempt false ((v.rmdired path).map fun tree => (true, tree))).2) :
    DeletionTold v after path answer ↔ p ≠ [] ∧ v.ok (v.calls + 2) = true := by
  obtain ⟨hplace, hitem⟩ := Volume.target_eq_some_iff.mp htarget
  have hthere : v.tree.item p ≠ none := by
    rw [hitem]
    exact Option.some_ne_none _
  rw [deletionTold_iff hplace hcode, and_iff_left hnames, hafter, Volume.rmdired_eq htarget]
  cases p with
  | nil =>
    rw [dif_pos rfl]
    refine iff_of_false (fun hwithout => hthere ?_) fun hwell => hwell.1 rfl
    rw [← hwithout.1, Option.map_none, Volume.attempt_none]
    rfl
  | cons n p =>
    rw [dif_neg (List.cons_ne_nil n p), if_pos hnames, and_iff_right (List.cons_ne_nil n p)]
    exact without_attempt_iff (List.cons_ne_nil n p) hthere hnames rfl

end target

/-- The answer to a deletion is true exactly when the calls go well whose failure
the handler does not see. The path is the one that the handler acts on and names in
its answer: it decodes the parameter once more. -/
theorem delete_told_iff (v : Volume ν) (hname : getParam request (ascii "name") false = some name)
    (haction : getParam request (ascii "action") false = some action)
    (hdelete : action.value = ascii "delete") :
    DeletionTold v (handleFileAction request v).2 (withSlash (urlDecode name.value))
        (handleFileAction request v).1 ↔
      v.DeletesWell (withSlash (urlDecode name.value)) := by
  have hrun := handleFileAction_delete hname haction hdelete (handleFileAction request v).1
    (handleFileAction request v).2 rfl
  unfold Volume.DeletesWell
  generalize withSlash (urlDecode name.value) = path at hrun ⊢
  dsimp only at hrun
  cases hfound : v.found path with
  | none =>
    rw [hfound] at hrun
    obtain ⟨hcode, hafter⟩ := hrun
    exact iff_of_true (deletionTold_of_refused hcode (by decide) (by rw [hafter]; rfl)) trivial
  | some target =>
    obtain ⟨p, i⟩ := target
    have htarget : v.target path = some (p, i) := (Volume.found_eq_some_iff.mp hfound).2
    rw [hfound] at hrun
    cases i with
    | file content => exact deletionTold_file_iff htarget hrun.1 hrun.2
    | folder =>
      dsimp only at hrun ⊢
      by_cases hnames : v.tree.names p = []
      · rw [if_neg fun hshown => hshown.2 hnames] at hrun
        rw [if_pos hnames]
        exact deletionTold_empty_iff htarget hnames hrun.1 hrun.2
      · rw [if_neg hnames]
        cases hok : v.ok (v.calls + 1) with
        | true =>
          rw [if_pos ⟨hok, hnames⟩] at hrun
          obtain ⟨hcode, hafter⟩ := hrun
          exact iff_of_true (deletionTold_of_refused hcode (by decide) (by rw [hafter]; rfl)) rfl
        | false =>
          -- `openNextFile` fails, and the folder is taken for an empty one
          rw [if_neg fun hshown => Bool.false_ne_true (hok.symm.trans hshown.1)] at hrun
          rw [deletionTold_iff (Volume.place_of_found hfound) hrun.1]
          exact iff_of_false (fun htold => hnames htold.2) Bool.false_ne_true

end delete

/-! ### A card with the file `f` and the empty folder `d` -/

def fileF : PosixName := ⟨ascii "f", by decide⟩

def folderD : PosixName := ⟨ascii "d", by decide⟩

def sampleTree : PathTree PosixName Bytes :=
  let withFile := PathTree.bare.put [fileF] (.file [1]) (by decide) (by decide)
  withFile.put [folderD] .folder (by decide) (by decide)

def Volume.sample (ok : Nat → Bool) : Volume PosixName := ⟨.posix, sampleTree, ok, 0⟩

/-- GET `/file?name=f&action=delete`. -/
def deleteF : List Param :=
  [⟨ascii "name", ascii "f", false, false⟩, ⟨ascii "action", ascii "delete", false, false⟩]

theorem delete_told_iff_file :
    DeletionTold (Volume.sample fun _ => true)
        (handleFileAction deleteF (Volume.sample fun _ => true)).2
        (withSlash (urlDecode (ascii "f")))
        (handleFileAction deleteF (Volume.sample fun _ => true)).1 ↔
      (Volume.sample fun _ => true).DeletesWell (withSlash (urlDecode (ascii "f"))) :=
  @delete_told_iff PosixName _ deleteF ⟨ascii "name", ascii "f", false, false⟩
    ⟨ascii "action", ascii "delete", false, false⟩ (Volume.sample fun _ => true) (by decide)
    (by decide) (by decide)

/-- A file that `SD.remove` does not remove is still answered with 200. -/
theorem delete_untold :
    (handleFileAction deleteF (Volume.sample fun n => n ≠ 1)).1 =
        .text 200 (ascii "Deleted file: /f") ∧
      (handleFileAction deleteF (Volume.sample fun n => n ≠ 1)).2.tree.item [fileF] =
        some (.file [1]) ∧
      ¬ DeletionTold (Volume.sample fun n => n ≠ 1)
        (handleFileAction deleteF (Volume.sample fun n => n ≠ 1)).2
        (ascii "/f") (handleFileAction deleteF (Volume.sample fun n => n ≠ 1)).1 := by
  have hcode : (handleFileAction deleteF (Volume.sample fun n => n ≠ 1)).1 =
      .text 200 (ascii "Deleted file: /f") := by decide
  have hitem : (handleFileAction deleteF (Volume.sample fun n => n ≠ 1)).2.tree.item [fileF] =
      some (.file [1]) := by decide
  have hplace : (Volume.sample fun n => n ≠ 1).place (ascii "/f") = some [fileF] := by decide
  refine ⟨hcode, hitem, fun htold => ?_⟩
  obtain ⟨p, hp, hgone, -⟩ := htold.gone (by rw [hcode]; rfl)
  obtain rfl := Option.some_inj.mp (hplace.symm.trans hp)
  rw [hitem] at hgone
  exact Option.some_ne_none _ hgone

/-! ## 2. Renaming -/

section parts

variable {d b : Bytes}

theorem folderPart_append (h : slash ∉ b) : folderPart (d ++ slash :: b) = d ++ [slash] := by
  have hsplit : d ++ slash :: b = (d ++ [slash]) ++ b := by simp
  have hlength : ((d.length : Int) + 1).toNat = (d ++ [slash]).length := by simp
  unfold folderPart substring
  rw [lastIndexOf_append_slash h, hlength, Nat.zero_max, Nat.zero_min, List.drop_zero, hsplit]
  exact List.take_left

theorem lastPart_append (h : slash ∉ b) : lastPart (d ++ slash :: b) = b := by
  unfold lastPart substringFrom
  rw [lastIndexOf_append_slash h]
  simp

end parts

theorem Volume.Renames.found_ne_none {v : Volume ν} {path newPath : Bytes} (h : v.Renames path newPath) :
    v.found path ≠ none := by
  obtain ⟨hok, -, p, q, hp, -, hmovable⟩ := h
  obtain ⟨i, hi⟩ := Option.ne_none_iff_exists'.mp hmovable.there
  rw [found_eq_some_iff.mpr ⟨hok, target_eq_some_iff.mpr ⟨hp, hi⟩⟩]
  exact Option.some_ne_none _

section rename

variable [DecidableEq ν] {v : Volume ν} {request : List Param} {filePath fileName : Param}

theorem slash_mem_withSlash (s : Bytes) : slash ∈ withSlash s := by
  unfold withSlash startsWith
  split_ifs with h
  · exact (List.isPrefixOf_iff_prefix.mp h).subset (List.mem_singleton_self slash)
  · exact List.mem_cons_self

theorem exists_run (v : Volume ν) (path : Bytes) :
    (SdStore.exists_ path : StateM (Volume ν) Bool) v = ((v.found path).isSome, v.called) := by
  show v.inquire false ((v.target path).map fun _ => true) = _
  rw [Volume.inquire_target]
  cases v.found path <;> rfl

theorem Volume.renames_iff {path newPath : Bytes} :
    v.Renames path newPath ↔
      v.ok v.calls = true ∧ v.ok (v.calls + 1) = true ∧ v.renamed path newPath ≠ none := by
  refine and_congr_right fun _ => and_congr_right fun _ => ?_
  constructor
  · rintro ⟨p, q, hp, hq, hmovable⟩
    obtain ⟨tree, htree, -⟩ := renamed_eq_some hp hq hmovable
    rw [htree]
    exact Option.some_ne_none tree
  · intro h
    obtain ⟨tree, htree⟩ := Option.ne_none_iff_exists'.mp h
    exact movable_of_renamed htree

/-- Either the card renames, or nothing happens. -/
theorem handleRename_run (hpath : getParam request (ascii "filePath") true = some filePath)
    (hname : getParam request (ascii "fileName") true = some fileName) (answer : Response)
    (after : Volume ν) (h : handleRename request v = (answer, after)) :
    let path := withSlash filePath.value
    let newPath := folderPart path ++ fileName.value
    (v.Renames path newPath ∧ answer.code = 200 ∧ v.renamed path newPath = some after.tree) ∨
      (¬ v.Renames path newPath ∧ answer.code ≠ 200 ∧ after.tree = v.tree) := by
  unfold handleRename at h
  rw [hpath, hname] at h
  have hslash := lastIndexOf_ne_neg_one (slash_mem_withSlash filePath.value)
  have hnew : substring (withSlash filePath.value) 0
      (lastIndexOf (withSlash filePath.value) slash + 1).toNat =
        folderPart (withSlash filePath.value) := rfl
  dsimp only at h ⊢
  rw [if_neg hslash, hnew, bind_run, exists_run] at h
  generalize withSlash filePath.value = path at h ⊢
  generalize folderPart path ++ fileName.value = newPath at h ⊢
  cases hfound : v.found path with
  | none =>
    rw [hfound] at h
    cases h
    exact .inr ⟨fun hrenames => hrenames.found_ne_none hfound, by show (404 : Nat) ≠ 200; decide, rfl⟩
  | some source =>
    have hfirst : ((some source).isSome, v.called).1 = true := rfl
    rw [hfound, if_pos hfirst, bind_run] at h
    change (if (v.called.attempt false ((v.renamed path newPath).map fun tree => (true, tree))).1
        then (pure _ : StateM (Volume ν) Response) else _)
      (v.called.attempt false ((v.renamed path newPath).map fun tree => (true, tree))).2 = _ at h
    have hexists := (Volume.found_eq_some_iff.mp hfound).1
    rw [Volume.renames_iff]
    cases hok : v.ok (v.calls + 1) with
    | false =>
      rw [Volume.attempt_failed hok] at h
      cases h
      exact .inr ⟨fun hrenames => Bool.false_ne_true hrenames.2.1, by show (500 : Nat) ≠ 200; decide,
        rfl⟩
    | true =>
      cases hrenamed : v.renamed path newPath with
      | none =>
        rw [hrenamed, Option.map_none, Volume.attempt_none] at h
        cases h
        exact .inr ⟨fun hrenames => hrenames.2.2 rfl, by show (500 : Nat) ≠ 200; decide, rfl⟩
      | some tree =>
        rw [hrenamed, Option.map_some, Volume.attempt_ok hok] at h
        cases h
        exact .inl ⟨⟨hexists, rfl, Option.some_ne_none tree⟩, rfl, rfl⟩

/-- A renaming that is carried out is one exactly when both names are names. -/
theorem renameTold_iff_names {after : Volume ν} {d b c : Bytes} {answer : Response} (hb : slash ∉ b)
    (hrenames : v.Renames (d ++ slash :: b) (d ++ slash :: c)) (hcode : answer.code = 200)
    (hafter : v.renamed (d ++ slash :: b) (d ++ slash :: c) = some after.tree) :
    RenameTold v after (d ++ slash :: b) c answer ↔
      (∃ n, v.EntryName c n) ∧ ∃ m, v.EntryName (cstr b) m := by
  obtain ⟨-, -, p, q, hp, hq, hmovable⟩ := hrenames
  obtain ⟨tree, htree, hmoved⟩ := Volume.renamed_eq_some hp hq hmovable
  obtain rfl := Option.some_inj.mp (hafter.symm.trans htree)
  have hne : p ≠ q := fun heq => hmovable.there (heq ▸ hmovable.free)
  obtain ⟨D, hwalkb, hwalkc⟩ := Volume.places_of_ne hp hq hne
  constructor
  · rintro ⟨hrenamed, -⟩
    obtain ⟨folder, m, n, hplace, hname, hmove⟩ := hrenamed hcode
    obtain rfl := Option.some_inj.mp (hp.symm.trans hplace)
    refine ⟨⟨n, hname⟩, ?_⟩
    rcases Volume.walk_last_cases hb hwalkb with ⟨m', hm', -⟩ | hinto
    · exact ⟨m', hm'⟩
    · -- the entry would be moved into itself, and is lost
      obtain rfl := Volume.walk_entryName hname hwalkc
      rw [if_pos (hinto.trans (List.prefix_append D [n]))] at hmoved
      obtain ⟨hroot, hremove⟩ := hmoved
      rw [hremove] at hmove
      exact absurd hmove (v.tree.not_moved_remove hroot)
  · rintro ⟨⟨n, hn⟩, m, hm⟩
    have hwalkm : v.tree.walk v.naming.meaning D (components (cstr (cstr b))) = some p := by
      rwa [cstr_eq_self (zero_notMem_cstr b)]
    obtain rfl := Volume.walk_entryName hn hwalkc
    obtain rfl := Volume.walk_entryName hm hwalkm
    have hbeside : ¬ D ++ [m] <+: D ++ [n] := by
      intro hinto
      exact hne (hinto.eq_of_length (by simp))
    rw [if_neg hbeside] at hmoved
    exact ⟨fun _ => ⟨D, m, n, hp, hn, hmoved⟩, fun hcode' => absurd hcode hcode'⟩

end rename

/-- POST `/rename`. -/
def renameParams (filePath fileName : Bytes) : List Param :=
  [⟨ascii "filePath", filePath, true, false⟩, ⟨ascii "fileName", fileName, true, false⟩]

end Handheld
