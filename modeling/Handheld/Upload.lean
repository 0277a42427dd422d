import Handheld.Machine
import Handheld.WebFiles

/-!
# POST `/upload` (`WebReadSDCard.cpp`)

The upload callback keeps its open file and the folder it last saw in static
variables. Here any number of requests deliver their chunks in any interleaving
onto a card on which every call succeeds. The abstract store gives each request
a file of its own (`receive`); `track` follows, from the events alone, which
request the open file belongs to and which folder is remembered.

Results:
1. `files_eq_card`: while no request disturbs another, the card holds at every
   destination what the abstract store holds for the request.
2. `content_of_not_opened`: a file that nobody opens keeps its content.
3. `uploads_separate_iff`: the requests do not mix, whatever the card, exactly
   when each chunk with data finds its own request's file open and each file is
   opened at its own destination.
-/

namespace Handheld

open ByteString AsyncWebServerRequest

/-! ## Definitions -/

/-- The `static` variables of the callback. -/
structure UploadStatics where
  uploadFile : Option File
  folder : Bytes

def UploadStatics.boot : UploadStatics := ⟨none, ascii "/"⟩

/-- `folder + "/" + filename`. -/
def uploadPath (folder filename : Bytes) : Bytes := folder ++ ascii "/" ++ filename

/-- `if (!SD.exists(folder)) SD.mkdir(folder);` -/
def ensureFolder {σ : Type} [SdStore σ] (folder : Bytes) : StateM σ Unit := do
  if !(← SdStore.exists_ folder) then
    let _ ← SdStore.mkdir folder

/-- The body of `if (index == 0)`. -/
def openUpload {σ : Type} [SdStore σ] (request : List Param) (filename : Bytes)
    (statics : UploadStatics) : StateM σ UploadStatics := do
  match getParam request (ascii "folder") true with
  | some param =>
    let folder := withSlash (urlDecode param.value)
    ensureFolder folder
    return ⟨← SdStore.open_ (uploadPath folder filename) .write, folder⟩
  | none =>
    return ⟨← SdStore.open_ (uploadPath statics.folder filename) .write, statics.folder⟩

/-- `if (uploadFile) uploadFile.write(data, len); if (final && uploadFile) uploadFile.close();` -/
def writeUpload {σ : Type} [SdStore σ] (chunk : Chunk) (statics : UploadStatics) :
    StateM σ UploadStatics := do
  match statics.uploadFile with
  | some file =>
    let _ ← SdStore.write file chunk.data
    return { statics with uploadFile := if chunk.final then none else some file }
  | none => return statics

/-- The upload callback of `/upload`, for one chunk of one request. -/
def handleUpload {σ : Type} [SdStore σ] (request : List Param) (filename : Bytes) (chunk : Chunk)
    (statics : UploadStatics) : StateM σ UploadStatics := do
  let statics ← if chunk.index = 0 then openUpload request filename statics else pure statics
  writeUpload chunk statics

/-- A POST `/upload` request: the fields sent before the file, and its name. -/
structure Upload where
  params : List Param
  filename : Bytes

/-- The folder the request asks for. -/
def Upload.folder (u : Upload) : Option Bytes :=
  (getParam u.params (ascii "folder") true).map fun param => withSlash (urlDecode param.value)

/-- Where the file goes when `folder` is the folder in force. -/
def Upload.placeIn (u : Upload) (folder : Bytes) : Path :=
  resolve (uploadPath (u.folder.getD folder) u.filename)

/-- The destination of the request: its folder, `/` if it names none. -/
def Upload.dest (u : Upload) : Path := u.placeIn (ascii "/")

section Interleaving

variable {ι : Type} (req : ι → Upload)

/-- One call of the callback: the request it belongs to, and the chunk. -/
abbrev UploadEvent (ι : Type) := ι × Chunk

def uploadStep (s : UploadStatics × Card) (e : UploadEvent ι) : UploadStatics × Card :=
  handleUpload (req e.1).params (req e.1).filename e.2 s.1 s.2

/-- The card after the calls, from boot. -/
def cardAfter (card : Card) (events : List (UploadEvent ι)) : Card :=
  (Machine.run (uploadStep req) (.boot, card) events).2

/-- The chunks of one request. -/
def chunksOf [DecidableEq ι] (events : List (UploadEvent ι)) (r : ι) : List Chunk :=
  (events.filter (·.1 = r)).map (·.2)

/-- What the events alone say about the static variables. -/
structure Tracker (ι : Type) where
  owner : Option ι
  folder : Bytes

def Tracker.boot : Tracker ι := ⟨none, ascii "/"⟩

/-- The first chunk of a request takes the file over and sets the folder if the
request names one; a final chunk closes the file, whoever sent it. -/
def track (t : Tracker ι) (e : UploadEvent ι) : Tracker ι :=
  let opened := if e.2.index = 0 then ⟨some e.1, (req e.1).folder.getD t.folder⟩ else t
  if e.2.final then { opened with owner := none } else opened

/-- A chunk that opens a file opens it at the destination of its request. -/
def OpensOwn (t : Tracker ι) (e : UploadEvent ι) : Prop :=
  e.2.index = 0 → (req e.1).placeIn t.folder = (req e.1).dest

/-- A chunk with data opens the file itself or finds its own file open. -/
def WritesOwn (t : Tracker ι) (e : UploadEvent ι) : Prop :=
  e.2.data ≠ [] → e.2.index = 0 ∨ t.owner = some e.1

/-- The step disturbs no other request and is not disturbed by one. -/
def Undisturbed (t : Tracker ι) (e : UploadEvent ι) : Prop :=
  OpensOwn req t e ∧ WritesOwn t e

/-- One chunk of a file, given what there is of it so far. -/
def append (content : Option Bytes) (chunk : Chunk) : Option Bytes :=
  if chunk.index = 0 then some chunk.data else content.map (· ++ chunk.data)

/-- The abstract store: each request has a file of its own. -/
def receive [DecidableEq ι] (files : ι → Option Bytes) (e : UploadEvent ι) : ι → Option Bytes :=
  Function.update files e.1 (append (files e.1) e.2)

/-! ## One call of the callback -/

theorem ensureFolder_card (folder : Bytes) (card : Card) :
    ensureFolder folder card = ((), card) := by
  unfold ensureFolder
  cases hexists : (card.content (resolve folder)).isSome <;>
    simp [SdStore.exists_, SdStore.mkdir, hexists, bind_run, map_run, pure_run]

theorem openUpload_card (u : Upload) (s : UploadStatics) (card : Card) :
    openUpload u.params u.filename s card =
      (⟨some ⟨uploadPath (u.folder.getD s.folder) u.filename, false, 0⟩, u.folder.getD s.folder⟩,
        card.set (u.placeIn s.folder) (some [])) := by
  unfold openUpload Upload.placeIn Upload.folder
  cases getParam u.params (ascii "folder") true with
  | none => rfl
  | some param => simp [ensureFolder_card, SdStore.open_, bind_run, map_run]

theorem writeUpload_card (chunk : Chunk) (s : UploadStatics) (card : Card) :
    writeUpload chunk s card =
      (if chunk.final then { s with uploadFile := none } else s,
        match s.uploadFile with
        | some f => card.set (resolve f.path)
            ((card.content (resolve f.path)).map (· ++ chunk.data))
        | none => card) := by
  obtain ⟨file, folder⟩ := s
  cases file with
  | none => cases hfinal : chunk.final <;> simp [writeUpload, pure_run]
  | some file =>
    cases hfinal : chunk.final <;>
      simp [writeUpload, hfinal, SdStore.write, bind_run, pure_run]

/-- A first chunk makes its file the open one and the file's whole content. -/
theorem uploadStep_first {e : UploadEvent ι} (h : e.2.index = 0) (s : UploadStatics)
    (card : Card) :
    uploadStep req (s, card) e =
      (⟨if e.2.final then none
          else some ⟨uploadPath ((req e.1).folder.getD s.folder) (req e.1).filename, false, 0⟩,
        (req e.1).folder.getD s.folder⟩,
        card.set ((req e.1).placeIn s.folder) (some e.2.data)) := by
  have hopen := openUpload_card (req e.1) s card
  unfold uploadStep handleUpload
  simp only [h, ↓reduceIte, bind_run, hopen, writeUpload_card]
  cases e.2.final <;> simp [Card.set, Upload.placeIn]

/-- A later chunk goes to the file that is open, if one is. -/
theorem uploadStep_later {e : UploadEvent ι} (h : e.2.index ≠ 0) (s : UploadStatics)
    (card : Card) :
    uploadStep req (s, card) e =
      (if e.2.final then { s with uploadFile := none } else s,
        match s.uploadFile with
        | some f => card.set (resolve f.path)
            ((card.content (resolve f.path)).map (· ++ e.2.data))
        | none => card) := by
  unfold uploadStep handleUpload
  simp only [h, ↓reduceIte, bind_run, pure_run, writeUpload_card]

/-! ## 1. Requests that do not disturb each other -/

/-- The static variables are as the tracker says, every file in the abstract
store is on the card, and the open file is in the store. -/
structure Agrees (t : Tracker ι) (s : (UploadStatics × Card) × (ι → Option Bytes)) : Prop where
  folder : s.1.1.folder = t.folder
  owner : s.1.1.uploadFile.map (resolve ·.path) = t.owner.map fun r => (req r).dest
  content : ∀ r d, s.2 r = some d → s.1.2.content (req r).dest = some d
  open_ : ∀ r, t.owner = some r → ∃ d, s.2 r = some d

section agrees

variable [DecidableEq ι] {req} (hdest : Function.Injective fun r => (req r).dest) {t : Tracker ι}
  {statics : UploadStatics} {card : Card} {files : ι → Option Bytes} {r : ι} {chunk : Chunk}

theorem receive_of_ne {q : ι} (hqr : q ≠ r) : receive files (r, chunk) q = files q :=
  Function.update_of_ne hqr _ _

theorem receive_self : receive files (r, chunk) r = append (files r) chunk :=
  Function.update_self _ _ _

include hdest

/-- Writing to the file of one request leaves the files of the others alone. -/
theorem content_of_others (hcontent : ∀ q d, files q = some d → card.content (req q).dest = some d)
    (content : Option Bytes) {q : ι} {d : Bytes} (hqr : q ≠ r)
    (hq : receive files (r, chunk) q = some d) :
    (card.set (req r).dest content).content (req q).dest = some d := by
  have hne : (req q).dest ≠ (req r).dest := fun heq => hqr (hdest heq)
  rw [Card.set_of_ne _ hne]
  rw [receive_of_ne hqr] at hq
  exact hcontent q d hq

theorem agrees_first (h : Agrees req t ((statics, card), files)) (hindex : chunk.index = 0)
    (hopens : OpensOwn req t (r, chunk)) :
    Agrees req (track req t (r, chunk))
      (uploadStep req (statics, card) (r, chunk), receive files (r, chunk)) := by
  obtain ⟨hfolder, -, hcontent, -⟩ := h
  simp only at hfolder hcontent
  have hplace : (req r).placeIn statics.folder = (req r).dest := by
    rw [hfolder]
    exact hopens hindex
  have hopened : append (files r) chunk = some chunk.data := if_pos hindex
  rw [uploadStep_first req hindex, hplace]
  unfold track
  simp only [hindex, ↓reduceIte]
  have hcard : ∀ q d, receive files (r, chunk) q = some d →
      (card.set (req r).dest (some chunk.data)).content (req q).dest = some d := by
    intro q d hq
    by_cases hqr : q = r
    · subst hqr
      rw [receive_self, hopened] at hq
      rw [Card.set_same, hq]
    · exact content_of_others hdest hcontent _ hqr hq
  refine ⟨?_, ?_, hcard, fun q hq => ⟨chunk.data, ?_⟩⟩
  · rw [hfolder]
    split <;> rfl
  · cases chunk.final with
    | true => rfl
    | false => simpa [Upload.placeIn] using hplace
  · have hqr : q = r := by
      cases hfinal : chunk.final <;> simp_all
    rw [hqr]
    exact receive_self.trans hopened

theorem agrees_later (h : Agrees req t ((statics, card), files)) (hindex : chunk.index ≠ 0)
    (hwrites : WritesOwn t (r, chunk)) :
    Agrees req (track req t (r, chunk))
      (uploadStep req (statics, card) (r, chunk), receive files (r, chunk)) := by
  obtain ⟨hfolder, howner, hcontent, hopen⟩ := h
  simp only at hfolder howner hcontent hopen
  have happend : ∀ content, append content chunk = content.map (· ++ chunk.data) :=
    fun content => if_neg hindex
  have hcard : ∀ q d, receive files (r, chunk) q = some d →
      (uploadStep req (statics, card) (r, chunk)).2.content (req q).dest = some d := by
    rw [uploadStep_later req hindex]
    intro q d hq
    by_cases hdata : chunk.data = []
    · -- an empty chunk changes nothing, wherever it goes
      have hsame : receive files (r, chunk) = files := by
        simp [receive, happend, hdata]
      rw [hsame] at hq
      cases statics.uploadFile <;> simpa [hdata] using hcontent q d hq
    · have hmine : t.owner = some r := (hwrites hdata).resolve_left hindex
      rw [hmine] at howner
      obtain ⟨f, hfile, hplace⟩ := Option.map_eq_some_iff.mp howner
      obtain ⟨d', hd'⟩ := hopen r hmine
      simp only [hfile, hplace, hcontent r d' hd']
      by_cases hqr : q = r
      · subst hqr
        rw [receive_self, happend, hd'] at hq
        rw [Card.set_same, hq]
      · exact content_of_others hdest hcontent _ hqr hq
  have hstore : ∀ q, t.owner = some q → ∃ d, receive files (r, chunk) q = some d := by
    intro q hq
    obtain ⟨d, hd⟩ := hopen q hq
    by_cases hqr : q = r
    · subst hqr
      exact ⟨d ++ chunk.data, by rw [receive_self, happend, hd]; rfl⟩
    · exact ⟨d, by rw [receive_of_ne hqr, hd]⟩
  rw [uploadStep_later req hindex] at hcard ⊢
  unfold track
  simp only [hindex, ↓reduceIte]
  cases chunk.final with
  | true => exact ⟨hfolder, rfl, hcard, fun q hq => nomatch hq⟩
  | false => exact ⟨hfolder, howner, hcard, hstore⟩

end agrees

theorem agrees_step [DecidableEq ι] (hdest : Function.Injective fun r => (req r).dest)
    {t : Tracker ι} {s : (UploadStatics × Card) × (ι → Option Bytes)} {e : UploadEvent ι}
    (h : Agrees req t s) (hok : Undisturbed req t e) :
    Agrees req (track req t e) (uploadStep req s.1 e, receive s.2 e) := by
  obtain ⟨⟨statics, card⟩, files⟩ := s
  obtain ⟨r, chunk⟩ := e
  by_cases hindex : chunk.index = 0
  · exact agrees_first hdest h hindex hok.1
  · exact agrees_later hdest h hindex hok.2

/-- While the requests do not disturb each other, the card follows the abstract store. -/
theorem files_eq_card [DecidableEq ι] (hdest : Function.Injective fun r => (req r).dest)
    (card : Card) {events : List (UploadEvent ι)}
    (hok : Machine.StepsOk (track req) (Undisturbed req) .boot events) :
    Agrees req (Machine.run (track req) .boot events)
      (Machine.run (uploadStep req) (.boot, card) events,
        Machine.run receive (fun _ => none) events) := by
  have hboot : Agrees req .boot ((.boot, card), fun _ => none) := by
    exact ⟨rfl, rfl, (fun _ _ h => nomatch h), (fun _ h => nomatch h)⟩
  have hstep : ∀ t x e, Agrees req t x → Undisturbed req t e →
      Agrees req (track req t e) (uploadStep req x.1 e, receive x.2 e) :=
    fun t x e h hok => agrees_step req hdest h hok
  have hrun := Machine.simulation hstep hboot hok
  rwa [Machine.run_prod] at hrun

section chunksOf

variable [DecidableEq ι]

theorem chunksOf_append (xs ys : List (UploadEvent ι)) (r : ι) :
    chunksOf (xs ++ ys) r = chunksOf xs r ++ chunksOf ys r := by
  simp [chunksOf]

theorem chunksOf_cons_self (r : ι) (chunk : Chunk) (events : List (UploadEvent ι)) :
    chunksOf ((r, chunk) :: events) r = chunk :: chunksOf events r := by
  simp [chunksOf]

theorem mem_chunksOf {events : List (UploadEvent ι)} {e : UploadEvent ι} (h : e ∈ events) :
    e.2 ∈ chunksOf events e.1 := by
  simpa [chunksOf] using h

/-- The abstract store of a request depends on its own chunks only. -/
theorem run_receive (files : ι → Option Bytes) (events : List (UploadEvent ι)) (r : ι) :
    Machine.run receive files events r = (chunksOf events r).foldl append (files r) := by
  induction events generalizing files with
  | nil => rfl
  | cons e events ih =>
    rw [Machine.run_cons, ih]
    by_cases he : e.1 = r
    · subst he
      rw [chunksOf_cons_self]
      simp [receive]
    · have hne : r ≠ e.1 := Ne.symm he
      simp [chunksOf, receive, he, hne]

end chunksOf

/-- From the first chunk on, the chunks of a file add up to its data. -/
theorem foldl_append {cs : List Chunk} (h : ∀ c ∈ cs, c.index ≠ 0) (d : Bytes) :
    cs.foldl append (some d) = some (d ++ cs.flatMap Chunk.data) := by
  induction cs generalizing d with
  | nil => simp
  | cons c cs ih =>
    have hc : append (some d) c = some (d ++ c.data) := by
      simp [append, h c List.mem_cons_self]
    rw [List.foldl_cons, hc, ih fun c' hc' => h c' (List.mem_cons_of_mem c hc')]
    simp

theorem foldl_append_inOrder {xs ys : List Chunk} (h : InOrder 0 (xs ++ ys)) (hne : xs ≠ []) :
    xs.foldl append none = some (xs.flatMap Chunk.data) := by
  obtain ⟨c, rest, heq, hc, hrest⟩ := h.index
  obtain ⟨x, xs, rfl⟩ := List.exists_cons_of_ne_nil hne
  obtain ⟨rfl, rfl⟩ := List.cons.inj heq
  have hfirst : append none x = some x.data := if_pos hc
  have hlater : ∀ d ∈ xs, d.index ≠ 0 := fun d hd => (hrest d (by simp [hd])).ne'
  rw [List.foldl_cons, hfirst, foldl_append hlater, List.flatMap_cons]

/-! ## 2. Files that nobody opens -/

/-- The event opens no file at `p`. -/
def OpensElsewhere (p : Path) (t : Tracker ι) (e : UploadEvent ι) : Prop :=
  e.2.index = 0 → (req e.1).placeIn t.folder ≠ p

/-- The file at `p` has the content `d` and is not open. -/
structure Frozen (p : Path) (d : Option Bytes) (t : Tracker ι) (s : UploadStatics × Card) :
    Prop where
  folder : s.1.folder = t.folder
  closed : ∀ f ∈ s.1.uploadFile, resolve f.path ≠ p
  content : s.2.content p = d

theorem frozen_step {p : Path} {d : Option Bytes} {t : Tracker ι} {s : UploadStatics × Card}
    {e : UploadEvent ι} (h : Frozen p d t s) (hok : OpensElsewhere req p t e) :
    Frozen p d (track req t e) (uploadStep req s e) := by
  obtain ⟨statics, card⟩ := s
  obtain ⟨hfolder, hclosed, hcontent⟩ := h
  simp only at hfolder hclosed hcontent
  by_cases hindex : e.2.index = 0
  · have hplace := hok hindex
    rw [← hfolder] at hplace
    rw [uploadStep_first req hindex]
    refine ⟨?_, ?_, ?_⟩
    · unfold track
      simp only [hindex, ↓reduceIte, hfolder]
      split <;> rfl
    · cases e.2.final with
      | true => simp
      | false => simpa [Upload.placeIn] using hplace
    · rw [Card.set_of_ne _ hplace.symm, hcontent]
  · rw [uploadStep_later req hindex]
    refine ⟨?_, ?_, ?_⟩
    · unfold track
      simp only [hindex, ↓reduceIte]
      split <;> exact hfolder
    · simp only
      split
      · simp
      · exact hclosed
    · cases hopen : statics.uploadFile with
      | none => exact hcontent
      | some f =>
        have hother : p ≠ resolve f.path := (hclosed f hopen).symm
        simp only
        rw [Card.set_of_ne _ hother, hcontent]

/-- A file that is not open and is not opened keeps its content. -/
theorem content_of_not_opened {p : Path} {d : Option Bytes} {t : Tracker ι}
    {s : UploadStatics × Card} (h : Frozen p d t s) {events : List (UploadEvent ι)}
    (hok : Machine.StepsOk (track req) (OpensElsewhere req p) t events) :
    (Machine.run (uploadStep req) s events).2.content p = d :=
  (Machine.simulation (fun _ _ _ => frozen_step req) h hok).content

/-! ## 3. Exactly when uploads stay separate -/

theorem Upload.placeIn_of_folder {u : Upload} {f : Bytes} (h : u.folder = some f)
    (folder : Bytes) : u.placeIn folder = u.dest := by
  simp [Upload.dest, Upload.placeIn, h]

/-- A folder with a NUL hides the file name. -/
theorem resolve_uploadPath_of_mem {folder : Bytes} (h : 0 ∈ folder) (filename : Bytes) :
    resolve (uploadPath folder filename) = resolve folder := by
  unfold resolve uploadPath
  rw [List.append_assoc, cstr_append_of_mem h]

theorem resolve_uploadPath {folder : Bytes} (h : 0 ∉ folder) (filename : Bytes) :
    resolve (uploadPath folder filename) = components folder ++ resolve filename := by
  have hslash : ascii "/" = [slash] := by decide
  have hnul : 0 ∉ folder ++ [slash] := by
    simpa [h] using (by decide : (0 : UInt8) ≠ slash)
  unfold resolve uploadPath
  rw [hslash, cstr_append hnul, List.append_assoc, List.singleton_append, components_append_slash]

/-- The remembered folder is the one of boot or one that a request asked for. -/
theorem folder_mem (events : List (UploadEvent ι)) :
    (Machine.run (track req) .boot events).folder = ascii "/" ∨
      ∃ q, (req q).folder = some (Machine.run (track req) .boot events).folder := by
  have hstep : ∀ t e, (t.folder = ascii "/" ∨ ∃ q, (req q).folder = some t.folder) →
      ((track req t e).folder = ascii "/" ∨ ∃ q, (req q).folder = some (track req t e).folder) := by
    intro t e ht
    have hfolder : (track req t e).folder = t.folder ∨
        (req e.1).folder = some (track req t e).folder := by
      unfold track
      cases hreq : (req e.1).folder <;> (split <;> split <;> simp)
    rcases hfolder with hsame | hset
    · rwa [hsame]
    · exact .inr ⟨e.1, hset⟩
  exact Machine.invariant_run hstep (.inl rfl) events

/-- A file opened below a remembered folder at the destination of a request that
names no folder belongs to a request with a shorter destination. -/
theorem length_dest_lt {pre : List (UploadEvent ι)} {q r : ι}
    (hdest : Function.Injective fun r => (req r).dest) (hq : (req q).folder = none)
    (hr : (req r).folder = none) (hne : (req q).dest ≠ (req r).dest)
    (hplace : (req q).placeIn (Machine.run (track req) .boot pre).folder = (req r).dest) :
    (req q).dest.length < (req r).dest.length := by
  have hdestq : (req q).dest = resolve (req q).filename := by
    have hroot : components (ascii "/") = [] := by decide
    have hplain : resolve (uploadPath (ascii "/") (req q).filename) = _ :=
      resolve_uploadPath (by decide) _
    simpa [Upload.dest, Upload.placeIn, hq, hroot] using hplain
  rcases folder_mem req pre with hroot | ⟨k, hk⟩
  · rw [hroot] at hplace
    exact absurd hplace hne
  · generalize (Machine.run (track req) .boot pre).folder = folder at hplace hk
    have hopened : resolve (uploadPath folder (req q).filename) = (req r).dest := by
      simpa [Upload.placeIn, hq] using hplace
    by_cases hnul : 0 ∈ folder
    · -- the file name is cut off, and the destination is that of the request that set the folder
      have hkr : (req k).dest = (req r).dest := by
        rw [← hopened, resolve_uploadPath_of_mem hnul]
        simp [Upload.dest, Upload.placeIn, hk, resolve_uploadPath_of_mem hnul]
      rw [hdest hkr, hr] at hk
      exact absurd hk (Option.some_ne_none folder).symm
    · rw [resolve_uploadPath hnul, ← hdestq] at hopened
      have hfolder : components folder ≠ [] := by
        intro hnil
        rw [hnil, List.nil_append] at hopened
        exact hne hopened
      have hpos := List.length_pos_of_ne_nil hfolder
      rw [← hopened, List.length_append]
      omega

/-- On an empty card, a file that is there at the end was opened. -/
theorem exists_opening {events : List (UploadEvent ι)} {p : Path}
    (h : (cardAfter req ⟨fun _ => none⟩ events).content p ≠ none) :
    ∃ pre e post, events = pre ++ e :: post ∧ e.2.index = 0 ∧
      (req e.1).placeIn (Machine.run (track req) .boot pre).folder = p := by
  by_contra hnone
  have hboot : Frozen (ι := ι) p none .boot (.boot, ⟨fun _ => none⟩) :=
    ⟨rfl, fun f hf => absurd hf (Option.not_mem_none f), rfl⟩
  refine h (content_of_not_opened req hboot ?_)
  rw [Machine.stepsOk_iff_forall]
  exact fun pre e post heq hindex hplace => hnone ⟨pre, e, post, heq, hindex, hplace⟩

section Delivered

variable [DecidableEq ι]

/-- Where a chunk stands among those of its request. -/
theorem index_eq_zero_iff {pre post : List (UploadEvent ι)} {r : ι} {chunk : Chunk}
    (h : InOrder 0 (chunksOf (pre ++ (r, chunk) :: post) r)) :
    (chunk.index = 0 ↔ chunksOf pre r = []) ∧ ∀ d ∈ chunksOf post r, d.index ≠ 0 := by
  obtain ⟨c, rest, heq, hc, hrest⟩ := h.index
  rw [chunksOf_append, chunksOf_cons_self] at heq
  cases hpre : chunksOf pre r with
  | nil =>
    rw [hpre, List.nil_append] at heq
    obtain ⟨rfl, rfl⟩ := List.cons.inj heq
    exact ⟨iff_of_true hc rfl, fun d hd => (hrest d hd).ne'⟩
  | cons c' cs =>
    rw [hpre, List.cons_append] at heq
    obtain ⟨-, rfl⟩ := List.cons.inj heq
    have hchunk := hrest chunk (by simp)
    refine ⟨iff_of_false hchunk.ne' (List.cons_ne_nil c' cs), fun d hd => ?_⟩
    exact (hrest d (by simp [hd])).ne'

/-- A request has one first chunk. -/
theorem first_unique {events pre pre' post post' : List (UploadEvent ι)} {r : ι}
    {chunk chunk' : Chunk} (h : InOrder 0 (chunksOf events r))
    (heq : events = pre ++ (r, chunk) :: post) (heq' : events = pre' ++ (r, chunk') :: post')
    (hfirst : chunk.index = 0) (hfirst' : chunk'.index = 0) : pre = pre' := by
  have hpre : chunksOf pre r = [] := (index_eq_zero_iff (heq ▸ h)).1.mp hfirst
  have hpre' : chunksOf pre' r = [] := (index_eq_zero_iff (heq' ▸ h)).1.mp hfirst'
  rcases List.append_eq_append_iff.mp (heq.symm.trans heq') with ⟨mid, rfl, hmid⟩ | ⟨mid, rfl, hmid⟩
  · cases mid with
    | nil => simp
    | cons e mid =>
      obtain ⟨rfl, -⟩ := List.cons.inj hmid
      simp [chunksOf_append, chunksOf_cons_self] at hpre'
  · cases mid with
    | nil => simp
    | cons e mid =>
      obtain ⟨rfl, -⟩ := List.cons.inj hmid
      simp [chunksOf_append, chunksOf_cons_self] at hpre

/-- If every destination is filled, every file was opened at its own: a file
opened below a remembered folder takes the place of one with a longer path. -/
theorem opens_own {events : List (UploadEvent ι)}
    (hdest : Function.Injective fun r => (req r).dest)
    (hown : ∀ r, InOrder 0 (chunksOf events r))
    (hfiles : ∀ r, (cardAfter req ⟨fun _ => none⟩ events).content (req r).dest ≠ none) :
    ∀ n r pre chunk post, (req r).dest.length = n → events = pre ++ (r, chunk) :: post →
      chunk.index = 0 →
        (req r).placeIn (Machine.run (track req) .boot pre).folder = (req r).dest := by
  intro n
  induction n using Nat.strong_induction_on with
  | _ n ih =>
    intro r pre chunk post hlen heq hindex
    by_contra hplace
    have hnone : ∀ q folder, (req q).placeIn folder ≠ (req q).dest → (req q).folder = none := by
      intro q folder hne
      cases hfolder : (req q).folder with
      | none => rfl
      | some f => exact absurd (Upload.placeIn_of_folder hfolder folder) hne
    obtain ⟨pre', ⟨q, chunk'⟩, post', heq', hindex', hplace'⟩ := exists_opening req (hfiles r)
    simp only at hindex' hplace'
    -- the request that filled the destination is another one, and names no folder either
    have hqr : q ≠ r := by
      rintro rfl
      rw [first_unique (hown q) heq heq' hindex hindex'] at hplace
      exact hplace hplace'
    have hne : (req q).dest ≠ (req r).dest := fun h => hqr (hdest h)
    have hq : (req q).folder = none := hnone q _ (hplace'.symm ▸ hne.symm)
    have hshort := length_dest_lt req hdest hq (hnone r _ hplace) hne hplace'
    rw [hlen] at hshort
    exact hne ((ih _ hshort q pre' chunk' post' rfl heq' hindex').symm.trans hplace')

/-- Once a chunk with data misses its file, the file stays short. -/
theorem content_of_missed {events pre post : List (UploadEvent ι)} {r : ι} {chunk : Chunk}
    (hdest : Function.Injective fun r => (req r).dest)
    (hown : ∀ r, InOrder 0 (chunksOf events r))
    (hopens : ∀ q pre chunk post, events = pre ++ (q, chunk) :: post → chunk.index = 0 →
      (req q).placeIn (Machine.run (track req) .boot pre).folder = (req q).dest)
    (heq : events = pre ++ (r, chunk) :: post) (card : Card)
    (hpre : Machine.StepsOk (track req) (Undisturbed req) .boot pre)
    (hindex : chunk.index ≠ 0) (howner : (Machine.run (track req) .boot pre).owner ≠ some r) :
    (cardAfter req card events).content (req r).dest =
      some ((chunksOf pre r).flatMap Chunk.data) := by
  subst heq
  have hagrees := files_eq_card req hdest card hpre
  have hstored : Machine.run receive (fun _ => none) pre r =
      some ((chunksOf pre r).flatMap Chunk.data) := by
    have hin := hown r
    have hne : chunksOf pre r ≠ [] := fun hnil => hindex ((index_eq_zero_iff hin).1.mpr hnil)
    rw [chunksOf_append] at hin
    rw [run_receive]
    exact foldl_append_inOrder hin hne
  have hclosed : ∀ f ∈ (Machine.run (uploadStep req) (.boot, card) pre).1.uploadFile,
      resolve f.path ≠ (req r).dest := by
    intro f hf hplace
    have hmap := hagrees.owner
    simp only [Option.mem_def.mp hf, Option.map_some] at hmap
    obtain ⟨q, hq, hqdest⟩ := Option.map_eq_some_iff.mp hmap.symm
    exact howner (hdest (hqdest.trans hplace) ▸ hq)
  unfold cardAfter
  rw [Machine.run_append]
  refine content_of_not_opened req ⟨hagrees.folder, hclosed, hagrees.content r _ hstored⟩ ?_
  rw [Machine.stepsOk_iff_forall]
  rintro pre' ⟨q, chunk'⟩ post' heq hindex' hplace
  have hq : (req q).dest = (req r).dest := by
    rw [← hplace, ← Machine.run_append]
    exact (hopens q (pre ++ pre') chunk' post' (by rw [heq, List.append_assoc]) hindex').symm
  obtain rfl := hdest hq
  -- the request is past its first chunk
  have hmem : (q, chunk') ∈ (q, chunk) :: post := by simp [heq]
  rcases List.mem_cons.mp hmem with hsame | hlater
  · exact hindex ((Prod.mk.inj hsame).2 ▸ hindex')
  · exact (index_eq_zero_iff (hown q)).2 chunk' (mem_chunksOf hlater) hindex'

/-- Whatever was on the card, the requests end with their own data at their own
destinations exactly when none of the calls is disturbed. -/
theorem uploads_separate_iff (events : List (UploadEvent ι))
    (hdest : Function.Injective fun r => (req r).dest)
    (hown : ∀ r, InOrder 0 (chunksOf events r)) :
    (∀ card r, (cardAfter req card events).content (req r).dest =
        some ((chunksOf events r).flatMap Chunk.data)) ↔
      Machine.StepsOk (track req) (Undisturbed req) .boot events := by
  constructor
  · intro hfiles
    have hopens := opens_own req hdest hown fun r => by
      rw [hfiles]
      exact Option.some_ne_none _
    by_contra hbad
    obtain ⟨pre, ⟨r, chunk⟩, post, heq, hpre, hfail⟩ := Machine.exists_first_failure hbad
    have hwrites : ¬ WritesOwn (Machine.run (track req) .boot pre) (r, chunk) := fun hw =>
      hfail ⟨fun hindex => hopens _ r pre chunk post rfl heq hindex, hw⟩
    unfold WritesOwn at hwrites
    push Not at hwrites
    obtain ⟨hdata, hindex, howner⟩ := hwrites
    have hshort := content_of_missed req hdest hown
      (fun q pre chunk post => hopens _ q pre chunk post rfl) heq ⟨fun _ => none⟩ hpre hindex howner
    rw [hfiles, heq, chunksOf_append, chunksOf_cons_self] at hshort
    have hrest : (chunk :: chunksOf post r).flatMap Chunk.data = [] := by
      rw [Option.some.injEq, List.flatMap_append] at hshort
      exact List.append_right_eq_self.mp hshort
    rw [List.flatMap_cons] at hrest
    exact hdata (List.append_eq_nil_iff.mp hrest).1
  · intro hok card r
    have hagrees := files_eq_card req hdest card hok
    refine hagrees.content r _ ?_
    show Machine.run receive (fun _ => none) events r = _
    have hin : InOrder 0 (chunksOf events r ++ []) := by simpa using hown r
    obtain ⟨c, rest, hcs, -⟩ := (hown r).index
    rw [run_receive]
    exact foldl_append_inOrder hin (by simp [hcs])

end Delivered

end Interleaving

/-- Two requests that name no folder. -/
def twoUploads : Bool → Upload
  | false => ⟨[], ascii "a"⟩
  | true => ⟨[], ascii "b"⟩

theorem twoUploads_injective : Function.Injective fun r => (twoUploads r).dest := by
  intro r q h
  cases r <;> cases q
  · rfl
  · exact absurd h (by decide)
  · exact absurd h (by decide)
  · rfl

theorem uploads_separate_iff_in_turn :
    (∀ card r, (cardAfter twoUploads card [(false, ⟨0, ascii "1", true⟩),
        (true, ⟨0, ascii "2", false⟩), (true, ⟨1, ascii "3", true⟩)]).content
          (twoUploads r).dest = some ((chunksOf [(false, ⟨0, ascii "1", true⟩),
        (true, ⟨0, ascii "2", false⟩), (true, ⟨1, ascii "3", true⟩)] r).flatMap Chunk.data)) ↔
      Machine.StepsOk (track twoUploads) (Undisturbed twoUploads) .boot
        [(false, ⟨0, ascii "1", true⟩), (true, ⟨0, ascii "2", false⟩),
          (true, ⟨1, ascii "3", true⟩)] :=
  uploads_separate_iff twoUploads _ twoUploads_injective fun r =>
    match r with
    | false => .final
    | true => .cons (by decide) .final

/-- The second request starts between the two chunks of the first: the first
file ends short and the second one long. -/
theorem uploads_mixed :
    let events : List (UploadEvent Bool) := [(false, ⟨0, ascii "1", false⟩),
      (true, ⟨0, ascii "2", false⟩), (false, ⟨1, ascii "3", true⟩), (true, ⟨1, ascii "4", true⟩)]
    (Function.Injective fun r => (twoUploads r).dest) ∧
      (∀ r, InOrder 0 (chunksOf events r)) ∧
      (cardAfter twoUploads ⟨fun _ => none⟩ events).content [ascii "a"] = some (ascii "1") ∧
      (cardAfter twoUploads ⟨fun _ => none⟩ events).content [ascii "b"] = some (ascii "23") ∧
      ¬ ∀ card r, (cardAfter twoUploads card events).content (twoUploads r).dest =
        some ((chunksOf events r).flatMap Chunk.data) := by
  refine ⟨twoUploads_injective, fun r => ?_, by decide, by decide, fun h => ?_⟩
  · cases r with
    | false => exact .cons (by decide) .final
    | true => exact .cons (by decide) .final
  · exact absurd (h ⟨fun _ => none⟩ false) (by decide)

end Handheld
