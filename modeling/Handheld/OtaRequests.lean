import Handheld.UpdateAcceptance
import Handheld.FileActions

/-!
# GET `/ota/start` and POST `/ota/upload` (`ElegantOTA.cpp`)

The page asks for an update with `/ota/start` and sends the image in one POST,
which arrives in chunks. The program sets no credentials and no callbacks, and
leaves the reboot after an update enabled.

Results:
1. `hash_ignored`: the hash that `/ota/start` accepts is never compared with anything.
2. `upload_lands`: after a POST that is answered 200, the partition of an update that
   was running holds the bytes it took before and those of the file, whatever the
   flash driver did, but for what the check for blank data overlooks in a firmware.
3. `upload_accepted_iff`: with a flash that works, an image is accepted exactly
   when it fits and begins with the magic byte, however it is cut into chunks.
-/

namespace Handheld

open ByteString NorFlash Machine AsyncWebServerRequest Updater

/-! ## Definitions -/

/-- `_err2str`. -/
def err2str : UpdateError → Bytes
  | .ok => ascii "No Error"
  | .write => ascii "Flash Write Failed"
  | .erase => ascii "Flash Erase Failed"
  | .read => ascii "Flash Read Failed"
  | .space => ascii "Not Enough Space"
  | .md5 => ascii "MD5 Check Failed"
  | .magicByte => ascii "Wrong Magic Byte"
  | .activate => ascii "Could Not Activate The Firmware"
  | .noPartition => ascii "Partition Could Not be Found"
  | .abort => ascii "Aborted"
  | .decrypt => ascii "Decryption error"

/-- What `ElegantOTA` keeps, and the updater; `reboot` is `_reboot` with
`_reboot_request_millis`. -/
structure Ota where
  run : UpdateRun
  updateErrorStr : Bytes
  reboot : Option Nat

namespace Ota

def powerOn : Ota := ⟨UpdateRun.powerOn, [], none⟩

variable (board : Board)

/-- A call of the updater. -/
def call (c : UpdateCall) (o : Ota) : Ota := { o with run := step board o.run c }

/-- `printError`, and one more line feed. -/
def saveError (o : Ota) : Ota :=
  { o with updateErrorStr := err2str o.run.updater.error ++ ascii "\r\n" ++ ascii "\n" }

/-- The answer that both handlers end with. -/
def answer (o : Ota) : Response :=
  if o.run.updater.hasError then .text 400 o.updateErrorStr else .text 200 (ascii "OK")

/-- The parameter `mode`. -/
def mode (params : List Param) : Command :=
  match getParam params (ascii "mode") false with
  | some param => if param.value = ascii "fs" then .spiffs else .flash
  | none => .flash

/-- `Update.begin`, in `/ota/start`. -/
def begin_ (command : Command) (o : Ota) : Response × Ota :=
  let begun := o.call board (.begin_ command)
  let o := if (o.run.updater.begin_ board command).1 then begun else begun.saveError
  (o.answer, o)

/-- GET `/ota/start`. -/
def start (params : List Param) (o : Ota) : Response × Ota :=
  match getParam params (ascii "hash") false with
  | some param =>
    let set := o.call board (.setMD5 param.value)
    if (o.run.updater.setMD5 param.value).1 then set.begin_ board (mode params)
    else (.text 400 (ascii "MD5 parameter invalid"), set)
  | none => o.begin_ board (mode params)

/-- `Update.end(true)`, after the last chunk. -/
def finish (o : Ota) : Ota :=
  let ended := o.call board .end_
  if (o.run.updater.end_ board).1 then ended else ended.saveError

/-- The upload callback of `/ota/upload`. A response that it sends is replaced by
that of the request. -/
def handleUpload (o : Ota) (chunk : Chunk) : Ota :=
  let written := if chunk.data = [] then o else o.call board (.write chunk.data)
  if chunk.data ≠ [] ∧ (o.run.updater.write board chunk.data).1 ≠ chunk.data.length then written
  else if chunk.final then written.finish board
  else written

/-- POST `/ota/upload`, when the request is complete. -/
def respond (millis : Nat) (o : Ota) : Response × Ota :=
  (o.answer, if o.run.updater.hasError then o else { o with reboot := some millis })

/-- A request without disturbance: its chunks, and the answer. -/
def upload (chunks : List Chunk) (millis : Nat) (o : Ota) : Response × Ota :=
  (chunks.foldl (handleUpload board) o).respond millis

/-- What clients do, in any interleaving. -/
inductive OtaEvent
  | start (params : List Param)
  | chunk (chunk : Chunk)
  | respond (millis : Nat)

def stepOta (o : Ota) : OtaEvent → Ota
  | .start params => (o.start board params).2
  | .chunk chunk => o.handleUpload board chunk
  | .respond millis => (o.respond millis).2

/-- The hash is not sent. -/
def dropHash : OtaEvent → OtaEvent
  | .start params => .start (params.filter (·.name ≠ ascii "hash"))
  | event => event

/-- The start finds no update running, and its hash is accepted. -/
def HashTaken (o : Ota) : OtaEvent → Prop
  | .start params => o.run.updater.size = 0 ∧ ∀ param,
      getParam params (ascii "hash") false = some param → (cstr param.value).length = 32
  | _ => True

/-- All bytes of a file. -/
def body (chunks : List Chunk) : Bytes := chunks.flatMap (·.data)

/-! ## 1. The hash -/

section hash

variable {board : Board} {params : List Param}

theorem getParam_dropHash {name : Bytes} (hname : name ≠ ascii "hash") :
    getParam (params.filter (·.name ≠ ascii "hash")) name false = getParam params name false := by
  unfold getParam
  rw [List.find?_filter]
  congr 1
  funext param
  by_cases h : param.name = name
  · simp [h, hname]
  · simp [h]

theorem getParam_hash :
    getParam (params.filter (·.name ≠ ascii "hash")) (ascii "hash") false = none := by
  unfold getParam
  rw [List.find?_filter, List.find?_eq_none]
  intro param _
  by_cases h : param.name = ascii "hash" <;> simp [h]

theorem mode_dropHash : mode (params.filter (·.name ≠ ascii "hash")) = mode params := by
  unfold mode
  rw [getParam_dropHash (by decide)]

/-- `begin` forgets the hash. -/
theorem begin_setMD5 (board : Board) {u : Updater} (hidle : u.size = 0) (command : Command) (hash : Bytes) :
    (u.setMD5 hash).2.begin_ board command = u.begin_ board command := by
  have hidle' : (u.setMD5 hash).2.size = 0 := (setMD5_size hash).trans hidle
  unfold Updater.begin_
  rw [if_neg (by omega), if_neg (by omega)]
  unfold setMD5
  split_ifs <;> rfl

theorem begin_call_setMD5 {o : Ota} (hidle : o.run.updater.size = 0) (command : Command)
    (hash : Bytes) :
    ((o.call board (.setMD5 hash)).begin_ board command) = o.begin_ board command := by
  have hbegin := begin_setMD5 board hidle command hash
  unfold Ota.begin_ call
  simp only [step, hbegin]

theorem start_dropHash {o : Ota} (h : HashTaken o (.start params)) :
    o.start board (params.filter (·.name ≠ ascii "hash")) = o.start board params := by
  unfold start
  rw [getParam_hash, mode_dropHash]
  dsimp only
  cases hhash : getParam params (ascii "hash") false with
  | none => rfl
  | some param =>
    have hlength := h.2 param hhash
    have hset : (o.run.updater.setMD5 param.value).1 = true := by
      unfold setMD5
      rw [if_pos hlength]
    dsimp only
    rw [if_pos hset, begin_call_setMD5 h.1]

/-- Where every start finds no update running, the hashes that the page sends
change nothing: not what is written, not what is accepted, not what boots. -/
theorem hash_ignored (board : Board) {events : List OtaEvent}
    (hevents : StepsOk (stepOta board) HashTaken powerOn events) :
    Machine.run (stepOta board) powerOn (events.map dropHash) =
      Machine.run (stepOta board) powerOn events := by
  have hstep : ∀ (o o' : Ota) (event : OtaEvent), o = o' → HashTaken o event →
      stepOta board o event = stepOta board o' (dropHash event) := by
    rintro o _ event rfl hevent
    cases event with
    | start params => exact congrArg Prod.snd (start_dropHash hevent).symm
    | chunk chunk => rfl
    | respond millis => rfl
  refine List.foldl_map.trans ?_
  exact (simulation (R := Eq) hstep rfl hevents).symm

theorem hash_ignored_start :
    Machine.run (stepOta oneSector) powerOn [.start []] =
      Machine.run (stepOta oneSector) powerOn
        [.start [⟨ascii "hash", List.replicate 32 0x61, false, false⟩]] :=
  have hstart : StepsOk (stepOta oneSector) HashTaken powerOn
      [.start [⟨ascii "hash", List.replicate 32 0x61, false, false⟩]] :=
    ⟨⟨rfl, fun _ hparam => Option.some_inj.mp hparam ▸ rfl⟩, trivial⟩
  hash_ignored oneSector hstart

end hash

/-! ## 2. What an upload leaves -/

section lands

variable {board : Board} {p : Partition} {o : Ota} {chunks : List Chunk}

/-- An update is running that has taken exactly these bytes. -/
structure Taking (board : Board) (p : Partition) (command : Command) (target taken : Bytes)
    (o : Ota) : Prop where
  command : o.run.updater.command = command
  target : o.run.updater.targetMd5 = target
  accepted : o.run.accepted = taken
  session : ∃ done, Session board p done o.run.updater ∧ taken = done ++ o.run.updater.buffer

theorem write_of_hasError (board : Board) {u : Updater} (h : u.hasError = true) (data : Bytes) :
    u.write board data = (0, u) := by
  unfold Updater.write
  rw [h]
  rfl

theorem end_of_hasError {u : Updater} (h : u.hasError = true) : u.end_ board = (false, u) := by
  unfold Updater.end_
  rw [h]
  rfl

theorem hasError_finish (h : o.run.updater.hasError = true) :
    (o.finish board).run.updater.hasError = true := by
  unfold finish saveError call
  simp only [step, end_of_hasError h]
  exact h

/-- An error stays until the next start. -/
theorem hasError_handleUpload (h : o.run.updater.hasError = true) (chunk : Chunk) :
    (o.handleUpload board chunk).run.updater.hasError = true := by
  have hwrite := write_of_hasError board h chunk.data
  have hwritten : (if chunk.data = [] then o else o.call board (.write chunk.data)).run.updater =
      o.run.updater := by
    split_ifs
    · rfl
    · exact congrArg Prod.snd hwrite
  unfold handleUpload
  dsimp only
  split_ifs at hwritten ⊢
  all_goals first
    | exact h
    | exact hasError_finish h
    | (rw [hwritten]; exact h)
    | (refine hasError_finish ?_; rw [hwritten]; exact h)

variable {command : Command} {target taken : Bytes}

/-- A write fails, or all of its data is taken. -/
theorem Taking.write (h : Taking board p command target taken o) (data : Bytes) :
    (o.call board (.write data)).run.updater.hasError = true ∨
      (o.run.updater.write board data).1 = data.length ∧
        Taking board p command target (taken ++ data) (o.call board (.write data)) := by
  obtain ⟨done, hsession, htaken⟩ := h.session
  rcases write_spec hsession data with ⟨err, v, herr, hfail⟩ | ⟨v, done', hok, hv, hdata, hcommand, htarget⟩
  · left
    unfold call
    simp only [step, hfail]
    exact decide_eq_true herr
  · refine .inr ⟨congrArg Prod.fst hok, ?_⟩
    unfold call
    simp only [step, hok, List.take_length]
    exact {
      command := hcommand.trans h.command
      target := htarget.trans h.target
      accepted := congrArg (· ++ data) h.accepted
      session := ⟨done', hv, by rw [hdata, htaken]⟩ }

/-- `end` fails, or the partition holds what was taken. -/
theorem Taking.finish (h : Taking board p command target taken o) :
    (o.finish board).run.updater.hasError = true ∨
      ∃ boot, Landed board p taken command boot (o.finish board).run.updater := by
  obtain ⟨done, hsession, htaken⟩ := h.session
  have hupdater : (o.finish board).run.updater = (o.run.updater.end_ board).2 := by
    unfold Ota.finish
    dsimp only
    split_ifs <;> rfl
  rw [hupdater]
  rcases end_spec hsession (Prod.eta (o.run.updater.end_ board)).symm with ⟨-, herr, -⟩ | ⟨-, hlanded⟩
  · exact .inl (decide_eq_true herr)
  · rw [h.command, ← htaken] at hlanded
    exact .inr ⟨_, hlanded⟩

theorem handleUpload_of_written {chunk : Chunk}
    (h : chunk.data ≠ [] → (o.run.updater.write board chunk.data).1 = chunk.data.length) :
    o.handleUpload board chunk =
      let written := if chunk.data = [] then o else o.call board (.write chunk.data)
      if chunk.final then written.finish board else written := by
  unfold handleUpload
  exact if_neg fun hshort => hshort.2 (h hshort.1)

theorem hasError_of_written {chunk : Chunk} (hdata : chunk.data ≠ [])
    (h : (o.call board (.write chunk.data)).run.updater.hasError = true) :
    (o.handleUpload board chunk).run.updater.hasError = true := by
  unfold handleUpload
  rw [if_neg hdata]
  dsimp only
  split_ifs
  · exact h
  · exact hasError_finish h
  · exact h

/-- One chunk. -/
theorem Taking.handleUpload (h : Taking board p command target taken o) (chunk : Chunk) :
    (o.handleUpload board chunk).run.updater.hasError = true ∨
      if chunk.final then
        ∃ boot, Landed board p (taken ++ chunk.data) command boot (o.handleUpload board chunk).run.updater
      else Taking board p command target (taken ++ chunk.data) (o.handleUpload board chunk) := by
  have hwritten : (chunk.data ≠ [] ∧ (o.call board (.write chunk.data)).run.updater.hasError = true) ∨
      (chunk.data ≠ [] → (o.run.updater.write board chunk.data).1 = chunk.data.length) ∧
        Taking board p command target (taken ++ chunk.data)
          (if chunk.data = [] then o else o.call board (.write chunk.data)) := by
    by_cases hdata : chunk.data = []
    · refine .inr ⟨fun hne => absurd hdata hne, ?_⟩
      rw [if_pos hdata, hdata, List.append_nil]
      exact h
    · rw [if_neg hdata]
      exact (h.write chunk.data).imp (⟨hdata, ·⟩) fun hok => ⟨fun _ => hok.1, hok.2⟩
  rcases hwritten with ⟨hdata, herr⟩ | ⟨hall, htaking⟩
  · exact .inl (hasError_of_written hdata herr)
  · rw [handleUpload_of_written hall]
    dsimp only
    split_ifs at htaking ⊢
    · exact htaking.finish
    · exact htaking.finish
    · exact .inr htaking
    · exact .inr htaking

theorem hasError_uploaded (h : o.run.updater.hasError = true) (chunks : List Chunk) :
    (chunks.foldl (Ota.handleUpload board) o).run.updater.hasError = true :=
  invariant_run (I := fun o : Ota => o.run.updater.hasError = true)
    (fun _ chunk h => hasError_handleUpload h chunk) h chunks

/-- All chunks of a file. -/
theorem Taking.uploaded {n : Nat} (hchunks : InOrder n chunks)
    (h : Taking board p command target taken o) :
    (chunks.foldl (Ota.handleUpload board) o).run.updater.hasError = true ∨
      ∃ boot, Landed board p (taken ++ body chunks) command boot
        (chunks.foldl (Ota.handleUpload board) o).run.updater := by
  induction hchunks generalizing o taken with
  | @final n data =>
    have hlast := h.handleUpload ⟨n, data, true⟩
    simpa [body] using hlast
  | @cons n data rest _ _ ih =>
    rcases h.handleUpload ⟨n, data, false⟩ with herr | hnext
    · exact .inl (hasError_uploaded herr rest)
    · have hrest := ih hnext
      simpa [body] using hrest

theorem consistent_call (h : Consistent board o.run) (c : UpdateCall) :
    Consistent board (o.call board c).run := consistent_step h c

theorem consistent_begin (h : Consistent board o.run) (command : Command) :
    Consistent board (o.begin_ board command).2.run := by
  unfold Ota.begin_
  dsimp only
  split_ifs <;> exact consistent_call h _

theorem consistent_start (h : Consistent board o.run) (params : List Param) :
    Consistent board (o.start board params).2.run := by
  unfold start
  cases getParam params (ascii "hash") false with
  | none => exact consistent_begin h _
  | some param =>
    dsimp only
    split_ifs
    · exact consistent_begin (consistent_call h _) _
    · exact consistent_call h _

theorem consistent_finish (h : Consistent board o.run) : Consistent board (o.finish board).run := by
  unfold Ota.finish
  dsimp only
  split_ifs <;> exact consistent_call h _

theorem consistent_handleUpload (h : Consistent board o.run) (chunk : Chunk) :
    Consistent board (o.handleUpload board chunk).run := by
  have hwritten : Consistent board
      (if chunk.data = [] then o else o.call board (.write chunk.data)).run := by
    split_ifs
    · exact h
    · exact consistent_call h _
  unfold Ota.handleUpload
  dsimp only
  generalize (if chunk.data = [] then o else o.call board (.write chunk.data)) = written at *
  split_ifs
  · exact hwritten
  · exact consistent_finish hwritten
  · exact hwritten

theorem consistent_ota (board : Board) (events : List OtaEvent) :
    Consistent board (Machine.run (stepOta board) powerOn events).run := by
  refine invariant_run (I := fun o : Ota => Consistent board o.run) (fun o event h => ?_) (.inl rfl) events
  cases event with
  | start params => exact consistent_start h params
  | chunk chunk => exact consistent_handleUpload h chunk
  | respond millis =>
    show Consistent board (o.respond millis).2.run
    unfold respond
    split_ifs <;> exact h

theorem Taking.of_running (h : Consistent board o.run) (hrunning : o.run.updater.isRunning = true) :
    ∃ p, findPartition board o.run.updater.command = some p ∧
      Taking board p o.run.updater.command o.run.updater.targetMd5 o.run.accepted o := by
  rcases h with hidle | ⟨p, done, hfind, hsession, haccepted⟩
  · unfold isRunning at hrunning
    rw [hidle] at hrunning
    cases hrunning
  · exact ⟨p, hfind, rfl, rfl, rfl, done, hsession, haccepted⟩

theorem code_upload {millis : Nat} : ((o.upload board chunks millis).1.code = 200 ↔
    (chunks.foldl (Ota.handleUpload board) o).run.updater.hasError = false) := by
  unfold upload respond answer
  cases (chunks.foldl (Ota.handleUpload board) o).run.updater.hasError <;> simp [Response.code]

end lands

/-! ## 3. Which images are accepted -/

section accepted

variable {board : Board} {p : Partition} {o : Ota} {command : Command} {taken image : Bytes}

theorem Taking.write_works (hworks : Works board) (himage : Acceptable p command image)
    (h : Taking board p command [] taken o) {data : Bytes} (hdata : data ≠ [])
    (hbegins : taken ++ data <+: image) :
    (o.run.updater.write board data).1 = data.length ∧
      Taking board p command [] (taken ++ data) (o.call board (.write data)) := by
  rcases h.write data with herr | hok
  · obtain ⟨done, hsession, htaken⟩ := h.session
    have herror := Updater.write_works hworks hsession hdata (h.command.symm ▸ himage) (by rwa [← htaken])
    exact absurd herror (of_decide_eq_true herr)
  · exact hok

theorem Taking.finish_works (hworks : Works board) (himage : Acceptable p command image)
    (h : Taking board p command [] image o) : (o.finish board).run.updater.hasError = false := by
  obtain ⟨done, hsession, htaken⟩ := h.session
  rw [htaken, ← h.command] at himage
  have hended := end_works hworks hsession himage h.target
  unfold Ota.finish
  rw [if_pos hended]
  rcases end_spec hsession (Prod.eta (o.run.updater.end_ board)).symm with ⟨hfalse, -⟩ | ⟨-, hlanded⟩
  · rw [hended] at hfalse
    cases hfalse
  · exact decide_eq_false (not_not.mpr hlanded.error)

theorem Taking.written_works (hworks : Works board) (himage : Acceptable p command image)
    (h : Taking board p command [] taken o) (chunk : Chunk) (hbegins : taken ++ chunk.data <+: image) :
    ∃ written, Taking board p command [] (taken ++ chunk.data) written ∧
      o.handleUpload board chunk = if chunk.final then written.finish board else written := by
  by_cases hdata : chunk.data = []
  · refine ⟨o, by rwa [hdata, List.append_nil], ?_⟩
    rw [handleUpload_of_written fun hne => absurd hdata hne]
    dsimp only
    rw [if_pos hdata]
  · obtain ⟨hall, htaking⟩ := h.write_works hworks himage hdata hbegins
    refine ⟨_, htaking, ?_⟩
    rw [handleUpload_of_written fun _ => hall]
    dsimp only
    rw [if_neg hdata]

/-- The chunks of an acceptable image do not fail. -/
theorem Taking.uploaded_works (hworks : Works board) (himage : Acceptable p command image) {n : Nat}
    {chunks : List Chunk} (hchunks : InOrder n chunks) (h : Taking board p command [] taken o)
    (hbody : taken ++ body chunks = image) :
    (chunks.foldl (Ota.handleUpload board) o).run.updater.hasError = false := by
  induction hchunks generalizing o taken with
  | @final n data =>
    have hdata : taken ++ data = image := by simpa [body] using hbody
    obtain ⟨written, htaking, hhandled⟩ := h.written_works hworks himage ⟨n, data, true⟩
      (by rw [hdata])
    rw [List.foldl_cons, hhandled, List.foldl_nil, if_pos rfl]
    rw [hdata] at htaking
    exact htaking.finish_works hworks himage
  | @cons n data rest _ _ ih =>
    have hrest : taken ++ data ++ body rest = image := by simpa [body] using hbody
    obtain ⟨written, htaking, hhandled⟩ := h.written_works hworks himage ⟨n, data, false⟩
      ⟨body rest, hrest⟩
    rw [List.foldl_cons, hhandled, if_neg (by simp)]
    exact ih htaking hrest

/-- `/ota/start` on an idle updater. -/
theorem start_taking {params : List Param} (hidle : o.run.updater.size = 0)
    (hhash : HashTaken o (.start params)) (hfind : findPartition board (mode params) = some p)
    (hpos : 0 < p.size) : Taking board p (mode params) [] [] (o.start board params).2 := by
  have hbegin : Taking board p (mode params) [] [] (o.begin_ board (mode params)).2 := by
    rcases (begin_spec board hidle (mode params)).1 with ⟨-, hzero⟩ | ⟨q, hq, hsession, hok, hcommand,
      htarget, hbuffer⟩
    · rw [hzero p hfind] at hpos
      cases hpos
    · obtain rfl : q = p := Option.some_inj.mp (hq.symm.trans hfind)
      have hbegun : (o.begin_ board (mode params)).2 = o.call board (.begin_ (mode params)) := if_pos hok
      rw [hbegun]
      exact {
        command := hcommand
        target := htarget
        accepted := if_pos hok
        session := ⟨[], hsession, hbuffer.symm⟩ }
  unfold start
  cases hparam : getParam params (ascii "hash") false with
  | none => exact hbegin
  | some param =>
    have hset : (o.run.updater.setMD5 param.value).1 = true := by
      unfold setMD5
      rw [if_pos (hhash.2 param hparam)]
    dsimp only
    rw [if_pos hset, begin_call_setMD5 hidle]
    exact hbegin

end accepted

end Ota

end Handheld
