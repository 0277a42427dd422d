import Handheld.Upload

/-!
# A POST `/upload` request on a card whose calls fail

The chunks go to `handleUpload`, the answer comes from another callback. One
request is processed alone, from any state of the static variables, on a card
whose calls to `mkdir`, `open` and `write` fail in any pattern.

Results:
1. `writeAll_nodes`: what a sequence of chunks leaves in the open file.
2. `processUpload_truthful_iff`: the answer `OK` is true exactly when the file
   opens at its destination and every write is whole, or else the destination
   held the same bytes before.
-/

namespace Handheld

open ByteString AsyncWebServerRequest

/-! ## Definitions -/

/-- All calls of the upload callback for one request. -/
def uploadAll {σ : Type} [SdStore σ] (u : Upload) (chunks : List Chunk)
    (statics : UploadStatics) : StateM σ UploadStatics :=
  chunks.foldlM (fun statics chunk => handleUpload u.params u.filename chunk statics) statics

/-- The request handler of `/upload`. -/
def uploadResponse : Response := .text 200 (ascii "OK")

/-- A request from its first byte to its answer; each byte of the file comes
with the flag whether it is the last of its packet. -/
def processUpload {σ : Type} [SdStore σ] (u : Upload) (bytes : List (UInt8 × Bool))
    (statics : UploadStatics) : StateM σ Response := do
  let _ ← uploadAll u (deliver bytes) statics
  return uploadResponse

/-- When the file is opened, there is a folder in its place: one that was there,
or one that the request itself has just made. -/
def FolderInPlace (u : Upload) (statics : UploadStatics) (card : FaultyCard) : Prop :=
  card.nodes (u.placeIn statics.folder) = some .dir ∨
    card.nodes (u.placeIn statics.folder) = none ∧ card.faults.mkdir card.mkdirs ∧
      u.folder.map resolve = some (u.placeIn statics.folder)

/-- The file is opened, at its destination. -/
def OpensAtDest (u : Upload) (statics : UploadStatics) (card : FaultyCard) : Prop :=
  u.placeIn statics.folder = u.dest ∧ card.faults.open_ card.opens ∧
    ¬ FolderInPlace u statics card

/-- No chunk is cut short by its write. -/
def WritesWhole (chunks : List Chunk) (card : FaultyCard) : Prop :=
  ∀ i chunk, chunks[i]? = some chunk → chunk.data.length ≤ card.faults.written (card.writes + i)

instance (u : Upload) (statics : UploadStatics) (card : FaultyCard) :
    Decidable (FolderInPlace u statics card) :=
  inferInstanceAs (Decidable (_ ∨ _))

instance (u : Upload) (statics : UploadStatics) (card : FaultyCard) :
    Decidable (OpensAtDest u statics card) :=
  inferInstanceAs (Decidable (_ ∧ _))

/-- The bytes that writes starting with the `n`-th take of the chunks. -/
def taken (faults : Faults) : Nat → List Chunk → Bytes
  | _, [] => []
  | n, chunk :: chunks => chunk.data.take (faults.written n) ++ taken faults (n + 1) chunks

/-! ## 1. The chunks of one file -/

/-- The chunks, once the file is opened. -/
def writeAll {σ : Type} [SdStore σ] (chunks : List Chunk) (statics : UploadStatics) :
    StateM σ UploadStatics :=
  chunks.foldlM (fun statics chunk => writeUpload chunk statics) statics

theorem writeAll_cons {σ : Type} [SdStore σ] (chunk : Chunk) (chunks : List Chunk)
    (statics : UploadStatics) (s : σ) :
    writeAll (chunk :: chunks) statics s =
      writeAll chunks (writeUpload chunk statics s).1 (writeUpload chunk statics s).2 := rfl

theorem uploadAll_later {σ : Type} [SdStore σ] (u : Upload) {chunks : List Chunk}
    (h : ∀ c ∈ chunks, c.index ≠ 0) (statics : UploadStatics) (s : σ) :
    uploadAll u chunks statics s = writeAll chunks statics s := by
  induction chunks generalizing statics s with
  | nil => rfl
  | cons c chunks ih =>
    have hc : handleUpload u.params u.filename c statics s = writeUpload c statics s := by
      unfold handleUpload
      rw [if_neg (h c List.mem_cons_self)]
      rfl
    have hrest := ih (fun d hd => h d (List.mem_cons_of_mem c hd))
    show uploadAll u chunks (handleUpload u.params u.filename c statics s).1
      (handleUpload u.params u.filename c statics s).2 = _
    rw [hc, hrest, writeAll_cons]

/-- The first chunk opens the file; from then on the chunks are written. -/
theorem uploadAll_eq {σ : Type} [SdStore σ] (u : Upload) {chunks : List Chunk}
    (h : InOrder 0 chunks) (statics : UploadStatics) (s : σ) :
    uploadAll u chunks statics s =
      writeAll chunks (openUpload u.params u.filename statics s).1
        (openUpload u.params u.filename statics s).2 := by
  obtain ⟨c, rest, rfl, hc, hrest⟩ := h.index
  have hfirst : handleUpload u.params u.filename c statics s =
      writeUpload c (openUpload u.params u.filename statics s).1
        (openUpload u.params u.filename statics s).2 := by
    unfold handleUpload
    rw [if_pos hc]
    rfl
  show uploadAll u rest (handleUpload u.params u.filename c statics s).1
    (handleUpload u.params u.filename c statics s).2 = _
  rw [hfirst, uploadAll_later u fun d hd => (hrest d hd).ne', writeAll_cons]

theorem writeUpload_file {f : File} {old : Bytes} {card : FaultyCard} (hfile : f.isDirectory = false)
    (hnode : card.nodes (resolve f.path) = some (.file old)) (chunk : Chunk) (folder : Bytes) :
    writeUpload chunk ⟨some f, folder⟩ card =
      (⟨if chunk.final then none else some f, folder⟩,
        ({ card with writes := card.writes + 1 } : FaultyCard).set (resolve f.path)
          (.file (old ++ chunk.data.take (card.faults.written card.writes)))) := by
  simp [writeUpload, SdStore.write, FaultyCard.write, hfile, hnode, bind_run, pure_run]

/-- The chunks of one file, up to the final one, add what the writes take of them. -/
theorem writeAll_nodes {n : Nat} {chunks : List Chunk} (h : InOrder n chunks) {f : File}
    (hfile : f.isDirectory = false) :
    ∀ {old : Bytes} {card : FaultyCard} (folder : Bytes),
      card.nodes (resolve f.path) = some (.file old) →
        (writeAll chunks ⟨some f, folder⟩ card).2.nodes =
          Function.update card.nodes (resolve f.path)
            (some (.file (old ++ taken card.faults card.writes chunks))) := by
  induction h with
  | final =>
    intro old card folder hnode
    rw [writeAll_cons, writeUpload_file hfile hnode]
    simp [writeAll, taken, pure_run]
  | @cons index data cs hdata _ ih =>
    intro old card folder hnode
    have hset : (({ card with writes := card.writes + 1 } : FaultyCard).set (resolve f.path)
        (.file (old ++ data.take (card.faults.written card.writes)))).nodes (resolve f.path) =
          some (.file (old ++ data.take (card.faults.written card.writes))) :=
      Function.update_self _ _ _
    rw [writeAll_cons, writeUpload_file hfile hnode]
    simp only [Bool.false_eq_true, ↓reduceIte]
    rw [ih folder hset]
    simp [taken]

/-- Without an open file, or with a folder in its place, nothing is written. -/
theorem writeAll_idle {chunks : List Chunk} {statics : UploadStatics}
    (h : ∀ f ∈ statics.uploadFile, f.isDirectory = true) (card : FaultyCard) :
    (writeAll chunks statics card).2.nodes = card.nodes := by
  induction chunks generalizing statics card with
  | nil => rfl
  | cons c chunks ih =>
    obtain ⟨file, folder⟩ := statics
    rw [writeAll_cons]
    cases file with
    | none => exact ih h card
    | some f =>
      have hdir : f.isDirectory = true := h f rfl
      have hstep : writeUpload c ⟨some f, folder⟩ card =
          (⟨if c.final then none else some f, folder⟩, { card with writes := card.writes + 1 }) := by
        simp [writeUpload, SdStore.write, FaultyCard.write, hdir, bind_run, pure_run]
      rw [hstep, ih]
      intro g hg
      cases hfinal : c.final with
      | true => simp [hfinal] at hg
      | false =>
        simp only [hfinal, Bool.false_eq_true, ↓reduceIte, Option.mem_some_iff] at hg
        exact hg ▸ hdir

theorem taken_cons (faults : Faults) (n : Nat) (chunk : Chunk) (chunks : List Chunk) :
    taken faults n (chunk :: chunks) =
      chunk.data.take (faults.written n) ++ taken faults (n + 1) chunks := rfl

theorem taken_length_le (faults : Faults) (chunks : List Chunk) :
    ∀ n, (taken faults n chunks).length ≤ (chunks.flatMap Chunk.data).length := by
  induction chunks with
  | nil => exact fun _ => Nat.le_refl 0
  | cons c chunks ih =>
    intro n
    rw [taken_cons, List.flatMap_cons, List.length_append, List.length_append]
    exact Nat.add_le_add (List.length_take_le' _ _) (ih (n + 1))

/-- The writes take everything exactly when each takes its whole chunk. -/
theorem taken_eq_iff (faults : Faults) (chunks : List Chunk) :
    ∀ n, taken faults n chunks = chunks.flatMap Chunk.data ↔
      ∀ i chunk, chunks[i]? = some chunk → chunk.data.length ≤ faults.written (n + i) := by
  induction chunks with
  | nil => simp [taken]
  | cons c chunks ih =>
    intro n
    have hsplit : taken faults n (c :: chunks) = (c :: chunks).flatMap Chunk.data ↔
        c.data.length ≤ faults.written n ∧
          taken faults (n + 1) chunks = chunks.flatMap Chunk.data := by
      rw [taken_cons, List.flatMap_cons]
      constructor
      · intro heq
        have hlen := congrArg List.length heq
        have hrest := taken_length_le faults chunks (n + 1)
        rw [List.length_append, List.length_append, List.length_take] at hlen
        have hwhole : c.data.length ≤ faults.written n := by omega
        rw [List.take_of_length_le hwhole] at heq
        exact ⟨hwhole, List.append_cancel_left heq⟩
      · rintro ⟨hwhole, heq⟩
        rw [List.take_of_length_le hwhole, heq]
    rw [hsplit, ih]
    constructor
    · rintro ⟨hhead, htail⟩ i chunk hi
      cases i with
      | zero =>
        obtain rfl := Option.some.inj hi
        exact hhead
      | succ i =>
        have hchunk := htail i chunk hi
        rwa [Nat.add_assoc, Nat.add_comm 1 i] at hchunk
    · intro h
      refine ⟨h 0 c rfl, fun i chunk hi => ?_⟩
      have hchunk := h (i + 1) chunk hi
      rwa [Nat.add_comm i 1, ← Nat.add_assoc] at hchunk

/-! ## 2. The answer -/

/-- The card once the folder of the request is there, if it can be made. -/
def prepared (u : Upload) (card : FaultyCard) : FaultyCard :=
  match u.folder with
  | some folder => (ensureFolder folder card).2
  | none => card

theorem openUpload_faulty (u : Upload) (statics : UploadStatics) (card : FaultyCard) :
    openUpload u.params u.filename statics card =
      (⟨((prepared u card).open_ (uploadPath (u.folder.getD statics.folder) u.filename) .write).1,
        u.folder.getD statics.folder⟩,
        ((prepared u card).open_ (uploadPath (u.folder.getD statics.folder) u.filename)
          .write).2) := by
  unfold openUpload prepared Upload.folder
  cases getParam u.params (ascii "folder") true <;> rfl

/-- The folder is made only where nothing was. -/
theorem ensureFolder_faulty (folder : Bytes) (card : FaultyCard) :
    let made := (ensureFolder folder card).2
    made.faults = card.faults ∧ made.opens = card.opens ∧ made.writes = card.writes ∧
      made.nodes = if card.nodes (resolve folder) = none ∧ card.faults.mkdir card.mkdirs then
        Function.update card.nodes (resolve folder) (some .dir) else card.nodes := by
  unfold ensureFolder
  cases hnode : card.nodes (resolve folder) with
  | some node =>
    simp [SdStore.exists_, hnode, bind_run, pure_run]
  | none =>
    cases hmkdir : card.faults.mkdir card.mkdirs <;>
      simp [SdStore.exists_, SdStore.mkdir, FaultyCard.mkdir, hnode, hmkdir, bind_run, map_run]

theorem prepared_calls (u : Upload) (card : FaultyCard) :
    (prepared u card).faults = card.faults ∧ (prepared u card).opens = card.opens ∧
      (prepared u card).writes = card.writes := by
  unfold prepared
  cases u.folder with
  | none => exact ⟨rfl, rfl, rfl⟩
  | some folder =>
    obtain ⟨hfaults, hopens, hwrites, -⟩ := ensureFolder_faulty folder card
    exact ⟨hfaults, hopens, hwrites⟩

theorem prepared_nodes (u : Upload) (card : FaultyCard) (p : Path) :
    (prepared u card).nodes p =
      if card.nodes p = none ∧ card.faults.mkdir card.mkdirs ∧ u.folder.map resolve = some p then
        some .dir else card.nodes p := by
  unfold prepared
  cases u.folder with
  | none => simp
  | some folder =>
    obtain ⟨-, -, -, hnodes⟩ := ensureFolder_faulty folder card
    simp only [hnodes, Option.map_some, Option.some.injEq]
    by_cases hp : resolve folder = p
    · subst hp
      split <;> simp_all
    · have hne : p ≠ resolve folder := Ne.symm hp
      split <;> simp [hne, hp]

theorem prepared_file_iff (u : Upload) (card : FaultyCard) (p : Path) (d : Bytes) :
    (prepared u card).nodes p = some (.file d) ↔ card.nodes p = some (.file d) := by
  rw [prepared_nodes]
  split
  · next h => simp [h.1]
  · exact Iff.rfl

theorem folderInPlace_iff (u : Upload) (statics : UploadStatics) (card : FaultyCard) :
    FolderInPlace u statics card ↔
      (prepared u card).nodes (u.placeIn statics.folder) = some .dir := by
  unfold FolderInPlace
  rw [prepared_nodes]
  split
  · next h => simp [h]
  · next h => exact or_iff_left h

/-- What the handle of the request is, and what the card holds, once it is opened. -/
theorem open_prepared (u : Upload) (statics : UploadStatics) (card : FaultyCard) :
    let path := uploadPath (u.folder.getD statics.folder) u.filename
    let opened := (prepared u card).open_ path .write
    if card.faults.open_ card.opens ∧ ¬ FolderInPlace u statics card then
      (∃ size, opened.1 = some ⟨path, false, size⟩) ∧
        opened.2 = ({ prepared u card with opens := card.opens + 1 } : FaultyCard).set
          (u.placeIn statics.folder) (.file [])
    else
      (∀ f ∈ opened.1, f.isDirectory = true) ∧ opened.2.nodes = (prepared u card).nodes := by
  obtain ⟨hfaults, hopens, -⟩ := prepared_calls u card
  have hplace : resolve (uploadPath (u.folder.getD statics.folder) u.filename) =
      u.placeIn statics.folder := rfl
  simp only [folderInPlace_iff]
  cases hopen : card.faults.open_ card.opens with
  | false => simp [FaultyCard.open_, hfaults, hopens, hopen]
  | true =>
    cases hnode : (prepared u card).nodes (u.placeIn statics.folder) with
    | none => simp [FaultyCard.open_, hfaults, hopens, hopen, hplace, hnode]
    | some node =>
      cases node with
      | dir => simp [FaultyCard.open_, hfaults, hopens, hopen, hplace, hnode]
      | file d => simp [FaultyCard.open_, hfaults, hopens, hopen, hplace, hnode]

/-- What the card holds after the request, at any path. -/
theorem uploadAll_nodes (u : Upload) (bytes : List (UInt8 × Bool)) (statics : UploadStatics)
    (card : FaultyCard) (p : Path) (d : Bytes) :
    (uploadAll u (deliver bytes) statics card).2.nodes p = some (.file d) ↔
      if bytes ≠ [] ∧ u.placeIn statics.folder = p ∧ card.faults.open_ card.opens ∧
          ¬ FolderInPlace u statics card then
        taken card.faults card.writes (deliver bytes) = d
      else card.nodes p = some (.file d) := by
  by_cases hbytes : bytes = []
  · subst hbytes
    rw [if_neg (by simp), deliver_nil]
    rfl
  · obtain ⟨hfaults, -, hwrites⟩ := prepared_calls u card
    have hopened := open_prepared u statics card
    have hin := deliver_inOrder hbytes
    rw [uploadAll_eq u hin, openUpload_faulty]
    by_cases hfile : card.faults.open_ card.opens ∧ ¬ FolderInPlace u statics card
    · rw [if_pos hfile] at hopened
      obtain ⟨⟨size, hhandle⟩, hcard⟩ := hopened
      have hplace : resolve (uploadPath (u.folder.getD statics.folder) u.filename) =
          u.placeIn statics.folder := rfl
      have hempty : (({ prepared u card with opens := card.opens + 1 } : FaultyCard).set
          (u.placeIn statics.folder) (.file [])).nodes
            (resolve (uploadPath (u.folder.getD statics.folder) u.filename)) =
          some (.file []) := Function.update_self _ _ _
      rw [hhandle, hcard, writeAll_nodes hin rfl _ hempty]
      simp only [FaultyCard.set_nodes, FaultyCard.set_faults, FaultyCard.set_writes, hfaults,
        hwrites, hplace, List.nil_append, Function.update_idem]
      by_cases hp : u.placeIn statics.folder = p
      · subst hp
        simp [hbytes, hfile]
      · rw [if_neg fun h => hp h.2.1, Function.update_of_ne (Ne.symm hp), prepared_file_iff]
    · rw [if_neg hfile] at hopened
      rw [if_neg fun h => hfile h.2.2, writeAll_idle hopened.1, hopened.2, prepared_file_iff]

/-- The answer is always `OK`, and it is true exactly when the file opens at its
destination and every write is whole, or else when the destination held the
same bytes before. -/
theorem processUpload_truthful_iff (u : Upload) (bytes : List (UInt8 × Bool))
    (statics : UploadStatics) (card : FaultyCard) :
    ((processUpload u bytes statics card).1 = .text 200 (ascii "OK") →
        (processUpload u bytes statics card).2.nodes u.dest =
          some (.file (bytes.map Prod.fst))) ↔
      if bytes ≠ [] ∧ OpensAtDest u statics card then WritesWhole (deliver bytes) card
      else card.nodes u.dest = some (.file (bytes.map Prod.fst)) := by
  have hanswer : (processUpload u bytes statics card).1 = .text 200 (ascii "OK") := rfl
  have hcard : (processUpload u bytes statics card).2 =
      (uploadAll u (deliver bytes) statics card).2 := rfl
  rw [hcard, uploadAll_nodes, ← deliver_data]
  simp only [hanswer, true_imp_iff]
  unfold OpensAtDest WritesWhole
  split
  · exact taken_eq_iff card.faults (deliver bytes) card.writes
  · exact Iff.rfl

/-- A card with nothing on it, on which the writes take `written` bytes at most. -/
def blankCard (written : Nat → Nat) : FaultyCard :=
  ⟨fun _ => none, ⟨fun _ => true, fun _ => true, written⟩, 0, 0, 0⟩

/-- An empty file is answered `OK` and is not there. -/
theorem processUpload_empty :
    (processUpload ⟨[], ascii "a"⟩ [] .boot (blankCard id)).1 = .text 200 (ascii "OK") ∧
      (processUpload ⟨[], ascii "a"⟩ [] .boot (blankCard id)).2.nodes [ascii "a"] = none ∧
      ¬ ((processUpload ⟨[], ascii "a"⟩ [] .boot (blankCard id)).1 = .text 200 (ascii "OK") →
        (processUpload ⟨[], ascii "a"⟩ [] .boot (blankCard id)).2.nodes
          (Upload.dest ⟨[], ascii "a"⟩) = some (.file [])) := by
  decide

end Handheld
