import Handheld.FormBody
import Handheld.FileActions
import Handheld.Upload

/-!
# A form on its way to the card

The body of a POST `/upload` is parsed, and each call of the upload callback is
made on a card with folders whose calls succeed.

Result: `form_stored`. However the body is cut into packets, the files of the form
are on the card with all their bytes, and nothing else on the card has changed but
for the folder, which is there now.
-/

namespace PathTree

variable {ν γ β : Type} [DecidableEq γ] {t t' : PathTree ν γ} {meaning : β → PathStep ν}

/-- Where a path leads does not change when folders are added. -/
theorem walk_mono (h : ∀ q, t.item q = some .folder → t'.item q = some .folder) {p q : List ν}
    {cs : List β} (hwalk : t.walk meaning p cs = some q) : t'.walk meaning p cs = some q := by
  induction cs generalizing p with
  | nil => exact hwalk
  | cons c cs ih =>
    obtain ⟨r, hstep, hrest⟩ := Option.bind_eq_some_iff.mp hwalk
    have hfolder : t.item p = some .folder := by
      unfold walkStep at hstep
      split_ifs at hstep with hp
      exact hp
    have hstep' : t'.walkStep meaning p c = some r := by
      unfold walkStep at hstep ⊢
      rw [if_pos hfolder] at hstep
      rwa [if_pos (h p hfolder)]
    exact Option.bind_eq_some_iff.mpr ⟨r, hstep', ih hrest⟩

end PathTree

namespace Handheld

open ByteString AsyncWebServerRequest

/-! ## Definitions -/

/-- The calls of the upload callback of `/upload`, one after the other. -/
def receiveCalls {σ : Type} [SdStore σ] (calls : List UploadCall) (s : UploadStatics × σ) :
    UploadStatics × σ :=
  calls.foldl (fun s call => handleUpload call.params call.filename call.chunk s.1 s.2) s

section abstractly

variable {ν : Type} [DecidableEq ν]

/-- A file of a form, and the entry that its name is. -/
structure SentFile (ν : Type) where
  name : Bytes
  file : FormFile
  content : Bytes
  entry : ν

def SentFile.part (f : SentFile ν) : FormPart := ⟨f.name, some f.file, f.content⟩

/-- With a file in the folder `D`. -/
def stored (D : List ν) (n : ν) (content : Bytes) (item : List ν → Option (PathItem Bytes)) (q : List ν) :
    Option (PathItem Bytes) :=
  if q = D ++ [n] then some (.file content) else if q = D then some .folder else item q

/-- What a file of a form does to the items of the card. The callback is never
called for an empty one. -/
def storeFile (D : List ν) (item : List ν → Option (PathItem Bytes)) (f : SentFile ν) :
    List ν → Option (PathItem Bytes) :=
  if f.content = [] then item else stored D f.entry f.content item

end abstractly

namespace Volume

variable {ν : Type} [DecidableEq ν]

/-- `w` is `v`, but for what stands at the paths. -/
structure Becomes (v w : Volume ν) (item : List ν → Option (PathItem Bytes)) : Prop where
  naming : w.naming = v.naming
  ok : w.ok = v.ok
  item : ∀ q, w.tree.item q = item q

/-- With the folder `D`. -/
def withFolder (v : Volume ν) (D q : List ν) : Option (PathItem Bytes) :=
  if q = D then some .folder else v.tree.item q

/-- With a file at `p`. -/
def withFile (v : Volume ν) (p : List ν) (content : Bytes) (q : List ν) : Option (PathItem Bytes) :=
  if q = p then some (.file content) else v.tree.item q

/-! ## 1. The calls of the card -/

section calls

variable {v w : Volume ν} {D p : List ν} {path content : Bytes}

omit [DecidableEq ν] in
theorem Becomes.place {item : List ν → Option (PathItem Bytes)} (h : Becomes v w item)
    (hfolders : ∀ q, v.tree.item q = some .folder → item q = some .folder)
    (hplace : v.place path = some p) : w.place path = some p := by
  unfold Volume.place at hplace ⊢
  split_ifs at hplace with hslash
  rw [if_pos hslash, h.naming]
  refine PathTree.walk_mono (fun q hq => ?_) hplace
  rw [h.item]
  exact hfolders q hq

theorem placed_item {i : PathItem Bytes} (hparent : v.tree.item p.dropLast = some .folder)
    (hp : v.tree.item p ≠ some .folder) :
    ∃ tree, v.placed p i = some tree ∧ ∀ q, tree.item q = if q = p then some i else v.tree.item q := by
  unfold placed
  rw [dif_pos ⟨hparent, hp⟩]
  exact ⟨_, rfl, fun _ => rfl⟩

/-- The folder is there, or made. -/
theorem ensureFolder_becomes (hok : ∀ n, v.ok n = true) (hplace : v.place path = some D)
    (hparent : v.tree.item D.dropLast = some .folder)
    (hD : v.tree.item D = none ∨ v.tree.item D = some .folder) :
    Becomes v (ensureFolder path v).2 (v.withFolder D) := by
  unfold ensureFolder
  rw [bind_run, exists_run]
  have hfound : v.found path = v.target path := by
    unfold found
    rw [if_pos (hok _)]
  rcases hD with hfree | hthere
  · have hnone : v.found path = none := by
      rw [hfound, Option.eq_none_iff_forall_ne_some]
      rintro ⟨q, i⟩ htarget
      obtain ⟨hq, hi⟩ := target_eq_some_iff.mp htarget
      obtain rfl := Option.some_inj.mp (hq.symm.trans hplace)
      rw [hfree] at hi
      cases hi
    obtain ⟨tree, hplaced, hitem⟩ := placed_item (i := .folder) hparent (by rw [hfree]; simp)
    have hmade : v.called.made path = some (true, tree) := by
      unfold made
      have hplace' : v.called.place path = some D := hplace
      have hfree' : v.called.tree.item D = none := hfree
      have hplaced' : v.called.placed D .folder = some tree := hplaced
      rw [hplace', Option.bind_some, hfree']
      dsimp only
      rw [hplaced']
      rfl
    have hrun : (SdStore.mkdir path : StateM (Volume ν) Bool) v.called =
        (true, { v.called.called with tree := tree }) := by
      show v.called.attempt false (v.called.made path) = _
      rw [hmade, attempt_ok (v := v.called) (hok _)]
    rw [hnone]
    simp only [Option.isSome_none, Bool.not_false, if_true, bind_run, pure_run, hrun]
    exact ⟨rfl, rfl, hitem⟩
  · have hsome : (v.found path).isSome = true := by
      rw [hfound, target_eq_some_iff.mpr ⟨hplace, hthere⟩]
      rfl
    rw [hsome]
    refine ⟨rfl, rfl, fun q => ?_⟩
    show v.tree.item q = _
    unfold withFolder
    split_ifs with hq
    · rw [hq, hthere]
    · rfl

/-- Opening a file for writing leaves it empty. -/
theorem open_becomes (hok : ∀ n, v.ok n = true) (hplace : v.place path = some p)
    (hparent : v.tree.item p.dropLast = some .folder) (hp : v.tree.item p ≠ some .folder) :
    ∃ f w, (SdStore.open_ path .write : StateM (Volume ν) (Option File)) v = (some f, w) ∧
      f.path = path ∧ Becomes v w (v.withFile p []) := by
  obtain ⟨tree, hplaced, hitem⟩ := placed_item (i := .file []) hparent hp
  have hopened : ∃ i, v.opened path = some (some (file path i), tree) := by
    unfold opened
    rw [hplace, Option.bind_some]
    cases hi : v.tree.item p with
    | none => exact ⟨_, by dsimp only; rw [hplaced]; rfl⟩
    | some i =>
      cases i with
      | folder => exact absurd hi hp
      | file old => exact ⟨_, by dsimp only; rw [hplaced]; rfl⟩
  obtain ⟨i, hopened⟩ := hopened
  refine ⟨file path i, { v.called with tree := tree }, ?_, ?_, rfl, rfl, hitem⟩
  · show v.attempt none (v.opened path) = _
    rw [hopened, attempt_ok (hok _)]
  · cases i <;> rfl

/-- Writing goes to the end of the file. -/
theorem write_becomes (hok : ∀ n, v.ok n = true) (hparent : v.tree.item p.dropLast = some .folder)
    (hp : v.tree.item p ≠ some .folder) (hplace : v.place path = some p)
    (hw : Becomes v w (v.withFile p content)) {f : File} (hf : f.path = path) (data : Bytes) :
    Becomes v ((SdStore.write f data : StateM (Volume ν) Nat) w).2 (v.withFile p (content ++ data)) := by
  have hfolders : ∀ q, v.tree.item q = some .folder → v.withFile p content q = some .folder := by
    intro q hq
    unfold withFile
    rw [if_neg fun h => hp (by rw [← h, hq]), hq]
  have hwplace : w.place path = some p := hw.place hfolders hplace
  have hthere : w.tree.item p = some (.file content) := by
    rw [hw.item]
    exact if_pos rfl
  have hwparent : w.tree.item p.dropLast = some .folder := by
    rw [hw.item]
    exact hfolders _ hparent
  obtain ⟨tree, hplaced, hitem⟩ := placed_item (i := .file (content ++ data)) hwparent (by rw [hthere]; simp)
  have hwritten : w.written f data = some (data.length, tree) := by
    unfold written
    rw [hf, target_eq_some_iff.mpr ⟨hwplace, hthere⟩, Option.bind_some]
    dsimp only
    rw [hplaced]
    rfl
  have hrun : (SdStore.write f data : StateM (Volume ν) Nat) w =
      (data.length, { w.called with tree := tree }) := by
    show w.attempt 0 (w.written f data) = _
    rw [hwritten, attempt_ok (by rw [hw.ok]; exact hok _)]
  rw [hrun]
  refine ⟨hw.naming, hw.ok, fun q => ?_⟩
  show tree.item q = _
  rw [hitem q, hw.item]
  unfold withFile
  split_ifs <;> rfl

end calls

end Volume

/-! ## 2. One file -/

section file

variable {ν : Type} [DecidableEq ν] {v w : Volume ν} {p : List ν} {path content : Bytes}

theorem writeUpload_open {statics : UploadStatics} {f : File} (hopen : statics.uploadFile = some f)
    (chunk : Chunk) (w : Volume ν) :
    writeUpload chunk statics w = ({ statics with uploadFile := if chunk.final then none else some f },
      ((SdStore.write f chunk.data : StateM (Volume ν) Nat) w).2) := by
  unfold writeUpload
  rw [hopen]
  rfl

theorem handleUpload_later {statics : UploadStatics} {f : File} (hopen : statics.uploadFile = some f)
    (chunk : Chunk) (hindex : chunk.index ≠ 0) (params : List Param) (filename : Bytes) (w : Volume ν) :
    handleUpload params filename chunk statics w =
      ({ statics with uploadFile := if chunk.final then none else some f },
        ((SdStore.write f chunk.data : StateM (Volume ν) Nat) w).2) := by
  unfold handleUpload
  rw [if_neg hindex, bind_run, pure_run]
  exact writeUpload_open hopen chunk w

/-- Chunks that follow the first. -/
theorem later_chunks (hok : ∀ n, v.ok n = true) (hparent : v.tree.item p.dropLast = some .folder)
    (hp : v.tree.item p ≠ some .folder) (hplace : v.place path = some p) {i : Nat} (hi : 0 < i)
    {chunks : List Chunk} (hchunks : InOrder i chunks) (hw : v.Becomes w (v.withFile p content))
    {statics : UploadStatics} {f : File} (hf : f.path = path) (hopen : statics.uploadFile = some f)
    (params : List Param) (filename : Bytes) :
    v.Becomes (receiveCalls (chunks.map (⟨params, filename, ·⟩)) (statics, w)).2
      (v.withFile p (content ++ chunks.flatMap Chunk.data)) := by
  induction hchunks generalizing content w statics with
  | @final i data =>
    have hrun := handleUpload_later hopen ⟨i, data, true⟩ (Nat.ne_of_gt hi) params filename w
    have hwritten := Volume.write_becomes hok hparent hp hplace hw hf data
    show v.Becomes (handleUpload params filename ⟨i, data, true⟩ statics w).2 _
    rw [hrun]
    simpa using hwritten
  | @cons i data rest hdata _ ih =>
    have hrun := handleUpload_later hopen ⟨i, data, false⟩ (Nat.ne_of_gt hi) params filename w
    have hwritten := Volume.write_becomes hok hparent hp hplace hw hf data
    show v.Becomes (receiveCalls (rest.map (⟨params, filename, ·⟩))
      (handleUpload params filename ⟨i, data, false⟩ statics w)).2 _
    rw [hrun]
    have hstill : UploadStatics.uploadFile { statics with uploadFile := some f } = some f := rfl
    have hrest := ih (Nat.lt_of_lt_of_le hi (Nat.le_add_right _ _)) hwritten hstill
    simpa [List.append_assoc] using hrest

omit [DecidableEq ν] in
theorem place_folder_slash {d : Bytes} {D : List ν} (hd : 0 ∉ d) (h : v.place d = some D) :
    v.place (d ++ [slash]) = some D := by
  have hresolve : resolve (d ++ [slash]) = resolve d := by
    have hslash : 0 ∉ d ++ [slash] := by
      rw [List.mem_append]
      exact not_or.mpr ⟨hd, by decide⟩
    unfold resolve
    rw [cstr_eq_self hd, cstr_eq_self hslash, components_append_slash]
    exact List.append_nil _
  unfold Volume.place at h ⊢
  split_ifs at h with hstart
  have hstart' : startsWith (d ++ [slash]) [slash] = true := by
    cases d with
    | nil => rfl
    | cons c d => exact hstart
  rw [if_pos hstart', hresolve]
  exact h

omit [DecidableEq ν] in
/-- The place of an entry of a folder. -/
theorem place_entry {d filename : Bytes} {D : List ν} {n : ν} (hd : 0 ∉ d) (hplace : v.place d = some D)
    (hD : v.tree.item D = some .folder) (hname : v.EntryName filename n) :
    v.place (uploadPath d filename) = some (D ++ [n]) := by
  obtain ⟨⟨⟨hne, hslash⟩, hnul⟩, hmeaning⟩ := hname
  have hpath : uploadPath d filename = d ++ slash :: filename := List.append_assoc _ _ _
  rw [hpath, Volume.place_concat v hd, place_folder_slash hd hplace, Option.bind_some, cstr_eq_self hnul,
    components_of_notMem hslash, if_neg hne, PathTree.walk_singleton,
    PathTree.walkStep_name v.tree hmeaning]
  exact ⟨hD, rfl⟩

/-- The first chunk of a file opens it in the folder that the request names. -/
theorem handleUpload_first {params : List Param} {param : Param}
    (hparam : getParam params (ascii "folder") true = some param) (chunk : Chunk) (hindex : chunk.index = 0)
    {filename : Bytes} {b : Volume ν} {f : File}
    (hopen : (SdStore.open_ (uploadPath (withSlash (urlDecode param.value)) filename) .write :
      StateM (Volume ν) (Option File)) (ensureFolder (withSlash (urlDecode param.value)) v).2 = (some f, b))
    (statics : UploadStatics) :
    handleUpload params filename chunk statics v =
      (⟨if chunk.final then none else some f, withSlash (urlDecode param.value)⟩,
        ((SdStore.write f chunk.data : StateM (Volume ν) Nat) b).2) := by
  have hopened : openUpload params filename statics v =
      (⟨some f, withSlash (urlDecode param.value)⟩, b) := by
    unfold openUpload
    simp only [hparam, bind_run, hopen]
    rfl
  unfold handleUpload
  rw [if_pos hindex, bind_run, hopened]
  exact writeUpload_open rfl chunk b

/-- All chunks of a file. -/
theorem file_chunks (hok : ∀ n, v.ok n = true) {chunks : List Chunk} (hchunks : InOrder 0 chunks)
    {params : List Param} {param : Param} (hparam : getParam params (ascii "folder") true = some param)
    {D : List ν} {n : ν} {filename : Bytes} (hnul : 0 ∉ withSlash (urlDecode param.value))
    (hfolder : v.place (withSlash (urlDecode param.value)) = some D)
    (hparent : v.tree.item D.dropLast = some .folder)
    (hD : v.tree.item D = none ∨ v.tree.item D = some .folder) (hname : v.EntryName filename n)
    (hn : v.tree.item (D ++ [n]) ≠ some .folder) (statics : UploadStatics) :
    v.Becomes (receiveCalls (chunks.map (⟨params, filename, ·⟩)) (statics, v)).2
      (stored D n (chunks.flatMap Chunk.data) v.tree.item) := by
  set folder := withSlash (urlDecode param.value) with hdef
  have hbase := Volume.ensureFolder_becomes hok hfolder hparent hD
  set base := (ensureFolder folder v).2
  have hfolders : ∀ q, v.tree.item q = some .folder → v.withFolder D q = some .folder := by
    intro q hq
    unfold Volume.withFolder
    rw [hq, ite_self]
  have hbaseD : base.tree.item D = some .folder := (hbase.item D).trans (if_pos rfl)
  have hbasePlace : base.place (uploadPath folder filename) = some (D ++ [n]) := by
    refine place_entry hnul (hbase.place hfolders hfolder) hbaseD ⟨hname.1, ?_⟩
    rw [hbase.naming]
    exact hname.2
  have hbaseOk : ∀ k, base.ok k = true := by
    rw [hbase.ok]
    exact hok
  have hbaseParent : base.tree.item (D ++ [n]).dropLast = some .folder := by
    rw [List.dropLast_concat]
    exact hbaseD
  have hbaseN : base.tree.item (D ++ [n]) ≠ some .folder := by
    rw [hbase.item]
    unfold Volume.withFolder
    rw [if_neg (by simp)]
    exact hn
  obtain ⟨f, b, hopen, hf, hb⟩ := Volume.open_becomes hbaseOk hbasePlace hbaseParent hbaseN
  have hstored : base.Becomes (receiveCalls (chunks.map (⟨params, filename, ·⟩)) (statics, v)).2
      (base.withFile (D ++ [n]) (chunks.flatMap Chunk.data)) := by
    have hwritten := Volume.write_becomes hbaseOk hbaseParent hbaseN hbasePlace hb hf
    cases hchunks with
    | @final _ data =>
      have hrun := handleUpload_first hparam ⟨0, data, true⟩ rfl hopen statics
      show base.Becomes (handleUpload params filename ⟨0, data, true⟩ statics v).2 _
      rw [hrun]
      simpa using hwritten data
    | @cons _ data rest hdata hrest =>
      have hrun := handleUpload_first hparam ⟨0, data, false⟩ rfl hopen statics
      show base.Becomes (receiveCalls (rest.map (⟨params, filename, ·⟩))
        (handleUpload params filename ⟨0, data, false⟩ statics v)).2 _
      rw [hrun]
      have hpos : 0 < 0 + data.length := by
        rw [Nat.zero_add]
        exact List.length_pos_iff.mpr hdata
      exact later_chunks hbaseOk hbaseParent hbaseN hbasePlace hpos hrest (hwritten data) hf rfl params
        filename
  refine ⟨hstored.naming.trans hbase.naming, hstored.ok.trans hbase.ok, fun q => ?_⟩
  rw [hstored.item]
  unfold Volume.withFile
  rw [hbase.item]
  rfl

end file

/-! ## 3. All files of a form -/

section form

variable {ν : Type} [DecidableEq ν] {v w : Volume ν} {D : List ν} {folder : Bytes} {params : List Param}
  {calls : List UploadCall}

theorem receiveCalls_append (calls calls' : List UploadCall) (s : UploadStatics × Volume ν) :
    receiveCalls (calls ++ calls') s = receiveCalls calls' (receiveCalls calls s) :=
  List.foldl_append

/-- `folder` is a folder, or can be made one. -/
structure Receives (v : Volume ν) (folder : Bytes) (D : List ν) : Prop where
  ok : ∀ n, v.ok n = true
  noNul : 0 ∉ folder
  place : v.place folder = some D
  parent : v.tree.item D.dropLast = some .folder
  folder : v.tree.item D = none ∨ v.tree.item D = some .folder

/-- The name of the file is that of an entry, and no folder has it. -/
def Receives.Takes (v : Volume ν) (D : List ν) (f : SentFile ν) : Prop :=
  v.EntryName f.file.filename f.entry ∧ v.tree.item (D ++ [f.entry]) ≠ some .folder

theorem stored_folder {n : ν} {content : Bytes} {item : List ν → Option (PathItem Bytes)}
    (hn : item (D ++ [n]) ≠ some .folder) {q : List ν} (hq : item q = some .folder) :
    stored D n content item q = some .folder := by
  unfold stored
  rw [if_neg fun h => hn (by rw [← h, hq]), hq, ite_self]

/-- The folder can receive the next file. -/
theorem receives_stored {n : ν} {content : Bytes} (hv : Receives v folder D)
    (hn : v.tree.item (D ++ [n]) ≠ some .folder) (hw : v.Becomes w (stored D n content v.tree.item)) :
    Receives w folder D := by
  refine ⟨?_, hv.noNul, hw.place (fun q hq => stored_folder hn hq) hv.place, ?_, .inr ?_⟩
  · rw [hw.ok]
    exact hv.ok
  · rw [hw.item]
    exact stored_folder hn hv.parent
  · rw [hw.item]
    unfold stored
    rw [if_neg (by simp), if_pos rfl]

theorem takes_stored {n : ν} {content : Bytes} (hw : v.Becomes w (stored D n content v.tree.item))
    {f : SentFile ν} (hf : Receives.Takes v D f) : Receives.Takes w D f := by
  refine ⟨⟨hf.1.1, ?_⟩, ?_⟩
  · rw [hw.naming]
    exact hf.1.2
  · rw [hw.item]
    unfold stored
    split_ifs with hsame hfolder
    · simp
    · simp at hfolder
    · exact hf.2

/-- The files of a form, one after the other. -/
theorem files_stored {files : List (SentFile ν)} (hcalls : FormUploads params (files.map SentFile.part) calls)
    {param : Param} (hparam : getParam params (ascii "folder") true = some param)
    (hv : Receives v (withSlash (urlDecode param.value)) D) (hfiles : ∀ f ∈ files, Receives.Takes v D f)
    (statics : UploadStatics) :
    v.Becomes (receiveCalls calls (statics, v)).2 (files.foldl (storeFile D) v.tree.item) := by
  induction files generalizing v statics params calls with
  | nil =>
    cases hcalls
    exact ⟨rfl, rfl, fun _ => rfl⟩
  | cons f files ih =>
    rw [List.map_cons] at hcalls
    obtain _ | ⟨hflagged, hrest⟩ := hcalls
    rename_i later flagged
    have hparam' : getParam (params ++ f.part.params) (ascii "folder") true = some param := by
      unfold getParam at hparam ⊢
      rw [List.find?_append, hparam]
      rfl
    obtain ⟨hf, hfiles⟩ := List.forall_mem_cons.mp hfiles
    have hstep : storeFile D v.tree.item f =
        if f.content = [] then v.tree.item else stored D f.entry f.content v.tree.item := rfl
    rw [receiveCalls_append, List.foldl_cons, hstep]
    split_ifs with hempty
    · have hnone : f.part.calls params flagged = [] := by
        rw [show f.part.content = [] from hempty, List.map_eq_nil_iff] at hflagged
        rw [hflagged]
        rfl
      rw [hnone]
      exact ih hrest hparam' hv hfiles statics
    · have hne : flagged ≠ [] := by
        rintro rfl
        exact hempty hflagged.symm
      have hfirst := file_chunks hv.ok (deliver_inOrder hne) hparam hv.noNul hv.place hv.parent hv.folder
        hf.1 hf.2 statics
      rw [deliver_data, hflagged] at hfirst
      have hlater := ih hrest hparam' (receives_stored hv hf.2 hfirst)
        (fun g hg => takes_stored hfirst (hfiles g hg))
        (receiveCalls (f.part.calls params flagged) (statics, v)).1
      refine ⟨hlater.naming.trans hfirst.naming, hlater.ok.trans hfirst.ok, fun q => ?_⟩
      have hitem : (receiveCalls (f.part.calls params flagged) (statics, v)).2.tree.item =
          stored D f.entry f.content v.tree.item := funext hfirst.item
      rw [← hitem]
      exact hlater.item q

/-- The fields of a form make no calls. -/
theorem formUploads_fields {fields parts : List FormPart} (hfields : ∀ part ∈ fields, part.file = none)
    (hcalls : FormUploads params (fields ++ parts) calls) :
    FormUploads (params ++ fields.flatMap FormPart.params) parts calls := by
  induction fields generalizing params calls with
  | nil => simpa using hcalls
  | cons part fields ih =>
    obtain ⟨hpart, hfields⟩ := List.forall_mem_cons.mp hfields
    rw [List.cons_append] at hcalls
    obtain _ | ⟨hflagged, hrest⟩ := hcalls
    rename_i later flagged
    have hnone : part.calls params flagged = [] := by
      unfold FormPart.calls
      rw [hpart]
    rw [hnone, List.nil_append, List.flatMap_cons, ← List.append_assoc]
    exact ih hfields hrest

/-- The parameters of the query do not count for a field of the body. -/
theorem getParam_query {query params : List Param} (hquery : ∀ p ∈ query, p.isPost = false) (name : Bytes) :
    getParam (query ++ params) name true = getParam params name true := by
  have hnone : getParam query name true = none := by
    unfold getParam
    rw [List.find?_eq_none]
    intro p hp
    simp [hquery p hp]
  unfold getParam at hnone ⊢
  rw [List.find?_append, hnone]
  rfl

/-- What the card becomes when a form is uploaded. -/
theorem form_becomes (boundary : Boundary) {fields : List FormPart}
    (hfields : ∀ part ∈ fields, part.file = none) {files : List (SentFile ν)}
    (hparts : ∀ part ∈ fields ++ files.map SentFile.part, part.WellFormed boundary)
    {packets : List Bytes}
    (hpackets : packets.flatten = formText boundary (fields ++ files.map SentFile.part))
    {query : List Param} (hquery : ∀ p ∈ query, p.isPost = false) {param : Param}
    (hparam : getParam (fields.flatMap FormPart.params) (ascii "folder") true = some param)
    (hv : Receives v (withSlash (urlDecode param.value)) D) (hfiles : ∀ f ∈ files, Receives.Takes v D f)
    (statics : UploadStatics) :
    v.Becomes (receiveCalls (packets.foldl (BodyParser.onData boundary.text)
      (BodyParser.newBody query packets.flatten.length)).uploads (statics, v)).2
        (files.foldl (storeFile D) v.tree.item) := by
  have hne : fields ++ files.map SentFile.part ≠ [] := by
    intro hnil
    obtain ⟨rfl, -⟩ := List.append_eq_nil_iff.mp hnil
    cases hparam
  obtain ⟨-, -, hcalls⟩ := BodyParser.parse_form boundary hne hparts query hpackets
  rw [hpackets]
  exact files_stored (formUploads_fields hfields hcalls) ((getParam_query hquery _).trans hparam) hv hfiles statics

/-- A form with fields, the folder among them, and then files: however its body is
cut into packets, the card holds afterwards what it held with the files put into
the folder one after the other. -/
theorem form_stored (boundary : Boundary) {fields : List FormPart}
    (hfields : ∀ part ∈ fields, part.file = none) {files : List (SentFile ν)}
    (hparts : ∀ part ∈ fields ++ files.map SentFile.part, part.WellFormed boundary)
    {packets : List Bytes}
    (hpackets : packets.flatten = formText boundary (fields ++ files.map SentFile.part))
    {query : List Param} (hquery : ∀ p ∈ query, p.isPost = false) {param : Param}
    (hparam : getParam (fields.flatMap FormPart.params) (ascii "folder") true = some param)
    (hv : Receives v (withSlash (urlDecode param.value)) D) (hfiles : ∀ f ∈ files, Receives.Takes v D f)
    (statics : UploadStatics) (q : List ν) :
    (receiveCalls (packets.foldl (BodyParser.onData boundary.text)
      (BodyParser.newBody query packets.flatten.length)).uploads (statics, v)).2.tree.item q =
        files.foldl (storeFile D) v.tree.item q :=
  (form_becomes boundary hfields hparts hpackets hquery hparam hv hfiles statics).item q

def sampleFiles : List (SentFile PosixName) :=
  [⟨ascii "file", ⟨ascii "f", ascii "text/plain"⟩, [1, 2], fileF⟩]

/-- The folder `/d` of the sample card gets the file `f`. -/
theorem form_stored_sample :
    (receiveCalls (BodyParser.samplePackets.foldl (BodyParser.onData BodyParser.sampleBoundary.text)
      (BodyParser.newBody [] BodyParser.samplePackets.flatten.length)).uploads
        (.boot, Volume.sample fun _ => true)).2.tree.item [folderD, fileF] =
      sampleFiles.foldl (storeFile [folderD]) (Volume.sample fun _ => true).tree.item [folderD, fileF] := by
  have hreceives : Receives (Volume.sample fun _ => true) (ascii "/d") [folderD] :=
    ⟨fun _ => rfl, by decide, by decide, by decide, .inr (by decide)⟩
  have htakes : ∀ f ∈ sampleFiles, Receives.Takes (Volume.sample fun _ => true) [folderD] f := by
    intro f hf
    obtain rfl := List.mem_singleton.mp hf
    exact ⟨⟨by decide, by decide⟩, by decide⟩
  exact @form_stored PosixName _ (Volume.sample fun _ => true) [folderD] BodyParser.sampleBoundary
    [⟨ascii "folder", none, ascii "/d"⟩] (by decide) sampleFiles BodyParser.wellFormed_sampleParts
    BodyParser.samplePackets BodyParser.flatten_samplePackets [] (by decide)
    ⟨ascii "folder", ascii "/d", true, false⟩ (by decide) hreceives htakes .boot _

end form

end Handheld
