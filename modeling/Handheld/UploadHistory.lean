import Handheld.UploadFaults

/-!
# Uploads one after the other

The folder of the last request that named one stays in a static variable of the
upload callback. Here completed requests follow one another, on a card that
answers every call in any way, and a further request is looked at after each of
two histories.

Results:
1. `remembered_folder`: what a history leaves in the static variable.
2. `ownDestination_iff`: after two histories a request goes to the same place, and
   to the default folder if it names none, exactly when it names a folder, writes
   nothing, or both histories remember the default folder;
   `destinations_fixed_iff`: to the same place after any two histories.
-/

namespace Handheld

open ByteString AsyncWebServerRequest

/-! ## Definitions -/

/-- A request with its file, each byte with the flag whether it is the last of
its packet. -/
structure SentUpload where
  upload : Upload
  bytes : List (UInt8 × Bool)

/-- The request is processed from its first byte to its last. -/
def completeUpload {σ : Type} [SdStore σ] (s : UploadStatics × σ) (r : SentUpload) :
    UploadStatics × σ :=
  uploadAll r.upload (deliver r.bytes) s.1 s.2

/-- The place that a call opens for writing. -/
def SdCall.written : SdCall → Option Path
  | .open_ path .write => some (resolve path)
  | _ => none

/-- The device after the history, from boot, with a card that answers so. -/
def afterUploads (answers : SdAnswers) (history : List SentUpload) : UploadStatics × SdLog :=
  Machine.run completeUpload (.boot, ⟨answers, []⟩) history

/-- The places at which the request opens a file for writing after the history. -/
def destinations (answers : SdAnswers) (history : List SentUpload) (r : SentUpload) : List Path :=
  let before := afterUploads answers history
  ((completeUpload before r).2.calls.drop before.2.calls.length).filterMap SdCall.written

/-- The folder of the last request that has data and names one, else `/`. -/
def lastFolder (history : List SentUpload) : Bytes :=
  ((history.filter (·.bytes ≠ [])).filterMap (·.upload.folder)).getLast?.getD (ascii "/")

/-- A file of that name goes to one place below both folders: the folders have
the same components, where a NUL in a folder cuts the name off. -/
def SameFolder (filename f g : Bytes) : Prop :=
  ((0 ∈ f ↔ 0 ∈ g) ∧ resolve f = resolve g) ∨
    (0 ∈ f ∧ 0 ∉ g ∧ resolve f = resolve g ++ resolve filename) ∨
    (0 ∉ f ∧ 0 ∈ g ∧ resolve g = resolve f ++ resolve filename)

/-- After both histories the request goes to the same place; one with data that
names no folder goes to the default folder. -/
structure OwnDestination (answers answers' : SdAnswers) (history history' : List SentUpload)
    (r : SentUpload) : Prop where
  same : destinations answers history r = destinations answers' history' r
  byDefault : r.bytes ≠ [] → r.upload.folder = none →
    destinations answers history r = [resolve (uploadPath (ascii "/") r.upload.filename)]

/-! ## 1. The remembered folder -/

section folder

variable {σ : Type} [SdStore σ]

theorem writeUpload_folder (chunk : Chunk) (statics : UploadStatics) (s : σ) :
    (writeUpload chunk statics s).1.folder = statics.folder := by
  obtain ⟨file, folder⟩ := statics
  cases file <;> rfl

theorem writeAll_folder (chunks : List Chunk) (statics : UploadStatics) (s : σ) :
    (writeAll chunks statics s).1.folder = statics.folder := by
  induction chunks generalizing statics s with
  | nil => rfl
  | cons c chunks ih => rw [writeAll_cons, ih, writeUpload_folder]

theorem openUpload_folder (u : Upload) (statics : UploadStatics) (s : σ) :
    (openUpload u.params u.filename statics s).1.folder = u.folder.getD statics.folder := by
  unfold openUpload Upload.folder
  cases getParam u.params (ascii "folder") true <;> rfl

/-- A request with data leaves the folder it names, or the one that was there. -/
theorem completeUpload_folder (s : UploadStatics × σ) (r : SentUpload) :
    (completeUpload s r).1.folder =
      if r.bytes = [] then s.1.folder else r.upload.folder.getD s.1.folder := by
  unfold completeUpload
  by_cases hbytes : r.bytes = []
  · rw [if_pos hbytes, hbytes]
    rfl
  · rw [if_neg hbytes, uploadAll_eq r.upload (deliver_inOrder hbytes), writeAll_folder,
      openUpload_folder]

theorem run_folder (history : List SentUpload) (s : UploadStatics × σ) :
    (Machine.run completeUpload s history).1.folder =
      ((history.filter (·.bytes ≠ [])).filterMap (·.upload.folder)).getLast?.getD s.1.folder := by
  induction history generalizing s with
  | nil => rfl
  | cons r history ih =>
    rw [Machine.run_cons, ih, completeUpload_folder]
    by_cases hbytes : r.bytes = []
    · simp [hbytes]
    · cases hfolder : r.upload.folder with
      | none => simp [hbytes, hfolder]
      | some f => simp [hbytes, hfolder, List.getLast?_cons]

theorem remembered_folder (answers : SdAnswers) (history : List SentUpload) :
    (afterUploads answers history).1.folder = lastFolder history :=
  run_folder history _

end folder

/-! ## 2. The destination -/

/-- The computation opens the places `ps` for writing, in this order. -/
def Opens {α : Type} (ps : List Path) (m : StateM SdLog α) : Prop :=
  ∀ s, ∃ cs, (m s).2.calls = s.calls ++ cs ∧ cs.filterMap SdCall.written = ps

section Opens

variable {α β : Type}

theorem opens_pure (a : α) : Opens [] (pure a : StateM SdLog α) := logs_nil (fun _ => rfl) rfl

theorem opens_ask {call : SdCall} (h : call.written = none) : Opens [] (SdLog.ask call) :=
  logs_ask (by simp [h])

theorem opens_open (p : Bytes) : Opens [resolve p] (SdStore.open_ p .write : StateM SdLog _) :=
  logs_open rfl

theorem opens_write (f : File) (d : Bytes) : Opens [] (SdStore.write f d : StateM SdLog _) :=
  logs_nil (fun _ => rfl) rfl

theorem Opens.bind {ps qs : List Path} {m : StateM SdLog α} {k : α → StateM SdLog β}
    (hm : Opens ps m) (hk : ∀ a, Opens qs (k a)) : Opens (ps ++ qs) (m >>= k) :=
  Logs.bind hm hk fun _ _ hps hqs => by rw [List.filterMap_append, hps, hqs]

end Opens

theorem opens_writeUpload (chunk : Chunk) (statics : UploadStatics) :
    Opens [] (writeUpload chunk statics : StateM SdLog _) := by
  unfold writeUpload
  cases statics.uploadFile with
  | none => exact opens_pure _
  | some f => exact (opens_write f _).bind fun _ => opens_pure _

theorem opens_writeAll (chunks : List Chunk) :
    ∀ statics, Opens [] (writeAll chunks statics : StateM SdLog _) := by
  induction chunks with
  | nil => exact fun statics => opens_pure statics
  | cons c chunks ih => exact fun statics => (opens_writeUpload c statics).bind ih

theorem opens_ensureFolder (folder : Bytes) : Opens [] (ensureFolder folder : StateM SdLog Unit) := by
  unfold ensureFolder
  refine (opens_ask rfl).bind fun found => ?_
  split
  · exact (opens_ask rfl).bind fun _ => opens_pure _
  · exact opens_pure _

theorem opens_openUpload (u : Upload) (statics : UploadStatics) :
    Opens [u.placeIn statics.folder] (openUpload u.params u.filename statics : StateM SdLog _) := by
  unfold openUpload Upload.placeIn Upload.folder
  cases getParam u.params (ascii "folder") true with
  | none => exact (opens_open _).bind fun _ => opens_pure _
  | some param =>
    exact (opens_ensureFolder _).bind fun _ => (opens_open _).bind fun _ => opens_pure _

theorem opens_uploadAll (u : Upload) {chunks : List Chunk} (h : InOrder 0 chunks)
    (statics : UploadStatics) :
    Opens [u.placeIn statics.folder] (uploadAll u chunks statics : StateM SdLog _) := by
  intro s
  rw [uploadAll_eq u h]
  exact ((opens_openUpload u statics).bind fun opened => opens_writeAll chunks opened) s

/-- A request with data opens one file, below the folder it names or the remembered one. -/
theorem destinations_eq (answers : SdAnswers) (history : List SentUpload) (r : SentUpload) :
    destinations answers history r =
      if r.bytes = [] then [] else [r.upload.placeIn (lastFolder history)] := by
  unfold destinations
  dsimp only
  by_cases hbytes : r.bytes = []
  · have hsame : completeUpload (afterUploads answers history) r = afterUploads answers history := by
      unfold completeUpload
      rw [hbytes]
      rfl
    rw [if_pos hbytes, hsame, List.drop_length]
    rfl
  · have hopens := opens_uploadAll r.upload (deliver_inOrder hbytes) (afterUploads answers history).1
    obtain ⟨cs, hcs, hplaces⟩ := hopens (afterUploads answers history).2
    rw [if_neg hbytes, ← remembered_folder answers history, ← hplaces]
    unfold completeUpload
    rw [hcs, List.drop_left]

theorem resolve_of_notMem {folder : Bytes} (h : 0 ∉ folder) : resolve folder = components folder := by
  rw [resolve, cstr_eq_self h]

theorem resolve_uploadPath_eq_iff (filename f g : Bytes) :
    resolve (uploadPath f filename) = resolve (uploadPath g filename) ↔ SameFolder filename f g := by
  unfold SameFolder
  by_cases hf : 0 ∈ f
  · by_cases hg : 0 ∈ g
    · rw [resolve_uploadPath_of_mem hf, resolve_uploadPath_of_mem hg]
      simp [hf, hg]
    · rw [resolve_uploadPath_of_mem hf, resolve_uploadPath hg, ← resolve_of_notMem hg]
      simp [hf, hg]
  · by_cases hg : 0 ∈ g
    · rw [resolve_uploadPath hf, resolve_uploadPath_of_mem hg, ← resolve_of_notMem hf]
      simp [hf, hg, eq_comm]
    · rw [resolve_uploadPath hf, resolve_uploadPath hg, ← resolve_of_notMem hf,
        ← resolve_of_notMem hg, List.append_left_inj]
      simp [hf, hg]

theorem placeIn_eq_iff (u : Upload) (f g : Bytes) :
    u.placeIn f = u.placeIn g ↔ u.folder ≠ none ∨ SameFolder u.filename f g := by
  unfold Upload.placeIn
  cases u.folder with
  | none => simp [resolve_uploadPath_eq_iff]
  | some folder => simp

/-- After two histories a request goes to the same place exactly when it has no
data, names a folder, or finds the same folder remembered. -/
theorem destinations_eq_iff (answers answers' : SdAnswers) (history history' : List SentUpload)
    (r : SentUpload) :
    destinations answers history r = destinations answers' history' r ↔
      r.bytes = [] ∨ r.upload.folder ≠ none ∨
        SameFolder r.upload.filename (lastFolder history) (lastFolder history') := by
  rw [destinations_eq, destinations_eq]
  by_cases hbytes : r.bytes = []
  · rw [if_pos hbytes, if_pos hbytes]
    exact iff_of_true rfl (.inl hbytes)
  · rw [if_neg hbytes, if_neg hbytes, List.singleton_inj, placeIn_eq_iff]
    exact ⟨.inr, fun h => h.resolve_left hbytes⟩

/-- Where a request with data goes that names no folder. -/
theorem destinations_default_iff (answers : SdAnswers) (history : List SentUpload) {r : SentUpload}
    (hbytes : r.bytes ≠ []) (hfolder : r.upload.folder = none) :
    destinations answers history r = [resolve (uploadPath (ascii "/") r.upload.filename)] ↔
      SameFolder r.upload.filename (lastFolder history) (ascii "/") := by
  have hplace : r.upload.placeIn (ascii "/") = resolve (uploadPath (ascii "/") r.upload.filename) := by
    unfold Upload.placeIn
    rw [hfolder]
    rfl
  rw [destinations_eq, if_neg hbytes, List.singleton_inj, ← hplace, placeIn_eq_iff, hfolder]
  exact or_iff_right fun hne => hne rfl

theorem ownDestination_of {answers answers' : SdAnswers} {history history' : List SentUpload} {r : SentUpload}
    (h : r.bytes = [] ∨ r.upload.folder ≠ none) : OwnDestination answers answers' history history' r := by
  refine ⟨(destinations_eq_iff answers answers' history history' r).mpr ?_, fun hbytes hfolder => ?_⟩
  · rcases h with hbytes | hfolder
    · exact .inl hbytes
    · exact .inr (.inl hfolder)
  · rcases h with hempty | hnamed
    · exact absurd hempty hbytes
    · exact absurd hfolder hnamed

/-- The destination is the request's own exactly when it has no data, names a folder,
or both histories leave the default folder. -/
theorem ownDestination_iff (answers answers' : SdAnswers) (history history' : List SentUpload)
    (r : SentUpload) :
    OwnDestination answers answers' history history' r ↔
      r.bytes = [] ∨ r.upload.folder ≠ none ∨
        (SameFolder r.upload.filename (lastFolder history) (ascii "/") ∧
          SameFolder r.upload.filename (lastFolder history') (ascii "/")) := by
  rw [← or_assoc]
  by_cases hown : r.bytes = [] ∨ r.upload.folder ≠ none
  · exact iff_of_true (ownDestination_of hown) (.inl hown)
  rw [or_iff_right hown]
  obtain ⟨hbytes, hnamed⟩ := not_or.mp hown
  have hfolder : r.upload.folder = none := not_not.mp hnamed
  have hfirst := destinations_default_iff answers history hbytes hfolder
  have hsecond := destinations_default_iff answers' history' hbytes hfolder
  constructor
  · rintro ⟨hsame, hdefault⟩
    have hto := hdefault hbytes hfolder
    exact ⟨hfirst.mp hto, hsecond.mp (hsame ▸ hto)⟩
  · rintro ⟨hdefault, hdefault'⟩
    have hto := hfirst.mpr hdefault
    exact ⟨hto.trans (hsecond.mpr hdefault').symm, fun _ _ => hto⟩

/-- A request with data for the folder `x`. -/
def uploadToX : SentUpload :=
  ⟨⟨[⟨ascii "folder", ascii "x", true, false⟩], ascii "a"⟩, [(0, true)]⟩

/-- A request that names no folder goes to `/` first, and below `x` after one for `x`. -/
theorem destination_leaks :
    destinations .plain [] ⟨⟨[], ascii "b"⟩, [(0, true)]⟩ = [[ascii "b"]] ∧
      destinations .plain [uploadToX] ⟨⟨[], ascii "b"⟩, [(0, true)]⟩ = [[ascii "x", ascii "b"]] ∧
      ¬ ∀ (answers answers' : SdAnswers) (history history' : List SentUpload) (r : SentUpload),
        OwnDestination answers answers' history history' r := by
  have hfirst : destinations .plain [] ⟨⟨[], ascii "b"⟩, [(0, true)]⟩ = [[ascii "b"]] := by
    rw [destinations_eq]
    decide
  have hlater : destinations .plain [uploadToX] ⟨⟨[], ascii "b"⟩, [(0, true)]⟩ =
      [[ascii "x", ascii "b"]] := by
    rw [destinations_eq]
    decide
  refine ⟨hfirst, hlater, fun h => ?_⟩
  have hsame := (h .plain .plain [] [uploadToX] ⟨⟨[], ascii "b"⟩, [(0, true)]⟩).same
  rw [hfirst, hlater] at hsame
  exact absurd hsame (by decide)

theorem not_sameFolder (filename : Bytes) :
    ¬ SameFolder filename (lastFolder []) (lastFolder [uploadToX]) := by
  rintro (⟨-, hsame⟩ | ⟨hnul, -⟩ | ⟨-, hnul, -⟩)
  · exact absurd hsame (by decide)
  · exact absurd hnul (by decide)
  · exact absurd hnul (by decide)

/-- The requests that go to the same place after any two histories are those
that write nothing and those that name a folder. -/
theorem destinations_fixed_iff (r : SentUpload) :
    (∀ answers history history', destinations answers history r = destinations answers history' r) ↔
      r.bytes = [] ∨ r.upload.folder ≠ none := by
  simp only [destinations_eq]
  by_cases hbytes : r.bytes = []
  · simp [hbytes]
  · simp only [if_neg hbytes, List.singleton_inj, placeIn_eq_iff]
    constructor
    · intro hfixed
      exact .inr ((hfixed .plain [] [uploadToX]).resolve_right (not_sameFolder _))
    · exact fun h _ _ _ => .inl (h.resolve_left hbytes)

end Handheld
