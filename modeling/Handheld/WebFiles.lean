import Handheld.SdCard
import Handheld.WebRequest

/-!
# The file handlers of the web interface (`WebReadSDCard.cpp`)

`handleListFiles` and `handleFileAction` take a path from the query string,
decode it with `urlDecode` and hand it to the card. The server has decoded the
query string once already (`AsyncWebServerRequest.addGetParams`). `handleRename`
takes two texts from the body of the request.

Results:
1. `urlDecode_eq_decode`: the application's decoder is form decoding as well.
2. `sdCalls_eq_iff`: a path sent in the standard encoding reaches the card
   unchanged exactly when decoding it a second time changes nothing, i.e. when
   it has no `+` and no `%` with two characters after it.
-/

namespace Handheld

open ByteString PercentCoding AsyncWebServerRequest

/-! ## Definitions -/

/-- `urlDecode` of `WebReadSDCard.cpp`. -/
def urlDecode : Bytes → Bytes
  | c :: a :: b :: cs =>
    if c = plus then space :: urlDecode (a :: b :: cs)
    else if c = percent then strtolHex a b :: urlDecode cs
    else c :: urlDecode (a :: b :: cs)
  | [c, a] => [if c = plus then space else c, if a = plus then space else a]
  | [c] => [if c = plus then space else c]
  | [] => []

/-- `if (!name.startsWith("/")) name = "/" + name;` -/
def withSlash (p : Bytes) : Bytes := if startsWith p [slash] then p else slash :: p

/-- What a handler passes to `request->send`. -/
inductive Response
  | text (code : Nat) (body : Bytes)
  | file (file : File) (path : Bytes)
deriving DecidableEq, Repr

variable {σ : Type} [Sd σ]

/-- The line of one entry in the answer of `/listfiles`. -/
def listLine (formatSize : Nat → Bytes) (file : File) : Bytes :=
  let fullPath := file.name
  let lastSlash := lastIndexOf fullPath slash
  let fileName := if lastSlash ≥ 0 then substringFrom fullPath (lastSlash + 1).toNat else fullPath
  if fileName.length > 0 then
    (if file.isDirectory then ascii "Fo " else ascii "Fi ") ++ fileName ++
      (if file.isDirectory then [] else ascii ": " ++ formatSize file.size) ++ ascii "\n"
  else []

/-- GET `/listfiles`. The text of a size is floating-point formatting and a parameter. -/
def handleListFiles (formatSize : Nat → Bytes) (request : List Param) : StateM σ Response := do
  match getParam request (ascii "folder") false with
  | none => return .text 400 (ascii "Missing 'folder' parameter")
  | some param =>
    let folder := withSlash (urlDecode param.value)
    match ← SdStore.open_ folder .read with
    | none => return .text 404 (ascii "Folder not found: " ++ folder)
    | some dir =>
      if !dir.isDirectory then
        return .text 404 (ascii "Folder not found: " ++ folder)
      let files ← Sd.openNextFiles dir
      return .text 200 (files.flatMap (listLine formatSize))

/-- GET `/file`. -/
def handleFileAction (request : List Param) : StateM σ Response := do
  match getParam request (ascii "name") false, getParam request (ascii "action") false with
  | some nameParam, some actionParam =>
    let name := withSlash (urlDecode nameParam.value)
    let action := actionParam.value
    if action = ascii "create" then
      let name := replace name (ascii "//") (ascii "/")
      if ← SdStore.mkdir name then
        return .text 200 (ascii "Folder created: " ++ name)
      else
        return .text 500 (ascii "Failed to create folder: " ++ name)
    else if action = ascii "download" then
      match ← SdStore.open_ name .read with
      | none => return .text 404 (ascii "File not found or is directory")
      | some file =>
        if file.isDirectory then
          return .text 404 (ascii "File not found or is directory")
        return .file file name
    else if action = ascii "delete" then
      match ← SdStore.open_ name .read with
      | none => return .text 404 (ascii "Target not found")
      | some target =>
        if target.isDirectory then
          let files ← Sd.openNextFiles target
          if files ≠ [] then
            return .text 400 (ascii "Folder not empty")
          else
            let _ ← Sd.rmdir name
            return .text 200 (ascii "Deleted folder: " ++ name)
        else
          let _ ← Sd.remove name
          return .text 200 (ascii "Deleted file: " ++ name)
    else
      return .text 400 (ascii "Unknown action")
  | _, _ => return .text 400 (ascii "Missing parameters")

/-- POST `/rename`. The parameters are used as the server decoded them. -/
def handleRename (request : List Param) : StateM σ Response := do
  match getParam request (ascii "filePath") true, getParam request (ascii "fileName") true with
  | some filePath, some fileName =>
    let oldPath := withSlash filePath.value
    let newName := fileName.value
    let slashIndex := lastIndexOf oldPath slash
    if slashIndex = -1 then
      return .text 400 (ascii "Invalid path")
    else
      let newPath := substring oldPath 0 (slashIndex + 1).toNat ++ newName
      if ← SdStore.exists_ oldPath then
        if ← Sd.rename oldPath newPath then
          return .text 200 (ascii "Renamed successfully")
        else
          return .text 500 (ascii "Rename failed")
      else
        return .text 404 (ascii "File not found: " ++ oldPath)
  | _, _ => return .text 400 (ascii "Missing parameters")

/-! ## Requests that name a path -/

/-- The requests that take a path from the query string. -/
inductive PathRequest
  | list
  | create
  | download
  | delete
deriving DecidableEq, Repr

/-- The parameter that holds the path. -/
def PathRequest.pathKey : PathRequest → Bytes
  | .list => ascii "folder"
  | _ => ascii "name"

/-- The value of `action`, for a request to `/file`. -/
def PathRequest.action : PathRequest → Option Bytes
  | .list => none
  | .create => some (ascii "create")
  | .download => some (ascii "download")
  | .delete => some (ascii "delete")

/-- The fields `kvs` make up such a request for the path `p`. -/
def PathRequest.Sends (r : PathRequest) (p : Bytes) (kvs : List (Bytes × Bytes)) : Prop :=
  kvs.lookup r.pathKey = some p ∧ ∀ a ∈ r.action, kvs.lookup (ascii "action") = some a

instance (r : PathRequest) (p : Bytes) (kvs : List (Bytes × Bytes)) : Decidable (r.Sends p kvs) :=
  inferInstanceAs (Decidable (_ ∧ _))

/-- The handler of the request. -/
def PathRequest.handle (formatSize : Nat → Bytes) : PathRequest → List Param → StateM σ Response
  | .list => handleListFiles formatSize
  | _ => handleFileAction

/-- The calls on the card for a query string in the standard encoding. -/
def sdCalls (answers : SdAnswers) (formatSize : Nat → Bytes) (r : PathRequest)
    (kvs : List (Bytes × Bytes)) : List SdCall :=
  (r.handle formatSize (addGetParams (queryString kvs)) (⟨answers, []⟩ : SdLog)).2.calls

/-! ## 1. The decoder -/

theorem urlDecode_eq_decode : ∀ s : Bytes, urlDecode s = decode s
  | [] | [_] | [_, _] => rfl
  | c :: a :: b :: cs => by
    have hescape := urlDecode_eq_decode cs
    have hchar := urlDecode_eq_decode (a :: b :: cs)
    rw [urlDecode, decode, hescape, hchar]
    by_cases hplus : c = plus
    · subst hplus
      rfl
    · rw [if_neg hplus, decodeChar, if_neg hplus]

/-- A text that starts with a slash still does after decoding. -/
theorem withSlash_urlDecode (s : Bytes) :
    withSlash (urlDecode (slash :: s)) = urlDecode (slash :: s) := by
  have hslash : decodeChar slash = slash := by decide
  rw [urlDecode_eq_decode, decode_cons fun h => absurd h (by decide), hslash]
  simp [withSlash, startsWith]

theorem replace_slashes_eq_iff {p : List Bytes} (h : ∀ c ∈ p, IsName c) :
    replace (urlDecode (render p)) (ascii "//") (ascii "/") = render p ↔
      urlDecode (render p) = render p := by
  have hslashes : ascii "//" = [slash, slash] := by decide
  constructor
  · intro heq
    have hreplace : replace (urlDecode (render p)) (ascii "//") (ascii "/") = urlDecode (render p) ∨
        (replace (urlDecode (render p)) (ascii "//") (ascii "/")).length <
          (urlDecode (render p)).length := replace_shorter (by decide)
    rcases hreplace with hsame | hshort
    · rw [← hsame, heq]
    · have hle := decode_length_le (render p)
      rw [← urlDecode_eq_decode] at hle
      rw [heq] at hshort
      omega
  · intro heq
    rw [heq, hslashes]
    exact replace_eq_self (not_infix_render h)

/-! ## 2. Paths that reach the card -/

theorem getParam_queryString {kvs : List (Bytes × Bytes)} {k v : Bytes} (hk : k ≠ [])
    (h : kvs.lookup k = some v) :
    getParam (addGetParams (queryString kvs)) k false = some ⟨k, v, false, false⟩ := by
  rw [addGetParams_queryString]
  induction kvs with
  | nil => simp at h
  | cons kv kvs ih =>
    obtain ⟨k', v'⟩ := kv
    by_cases heq : k' = k
    · subst heq
      simp only [List.lookup_cons, beq_self_eq_true, Option.some.injEq] at h
      simp [getParam, hk, queryParam, h]
    · have hne : (k == k') = false := by simp [Ne.symm heq]
      have hne' : (k' == k) = false := by simp [heq]
      rw [List.lookup_cons, hne] at h
      by_cases hnil : k' = []
      · rw [List.filter_cons_of_neg (by simp [hnil])]
        exact ih h
      · rw [List.filter_cons_of_pos (by simpa using hnil), List.map_cons]
        unfold getParam
        rw [List.find?_cons_of_neg (by simp [queryParam, hne'])]
        exact ih h

/-- The path that a request for `s` names in its calls. -/
def PathRequest.resolved (r : PathRequest) (s : Bytes) : Bytes :=
  match r with
  | .create => replace (urlDecode s) (ascii "//") (ascii "/")
  | _ => urlDecode s

/-- The computation makes `n` calls or more, and each of them names `p` only. -/
def Names {α : Type} (n : Nat) (p : Bytes) (m : StateM SdLog α) : Prop :=
  ∀ s, ∃ cs, (m s).2.calls = s.calls ++ cs ∧ n ≤ cs.length ∧ ∀ call ∈ cs, call.paths = [p]

section Names

variable {α β : Type} {p : Bytes}

theorem names_pure (a : α) : Names 0 p (pure a : StateM SdLog α) :=
  logs_nil (fun _ => rfl) (by simp)

theorem names_openNextFiles (f : File) : Names 0 p (Sd.openNextFiles f : StateM SdLog _) :=
  logs_nil (fun _ => rfl) (by simp)

theorem names_ask {call : SdCall} (h : call.paths = [p]) : Names 1 p (SdLog.ask call) :=
  logs_ask ⟨Nat.le_refl 1, by simpa using h⟩

theorem names_open (mode : Mode) : Names 1 p (SdStore.open_ p mode : StateM SdLog _) :=
  logs_open ⟨Nat.le_refl 1, by simp [SdCall.paths]⟩

theorem Names.bind {n : Nat} {m : StateM SdLog α} {k : α → StateM SdLog β} (hm : Names n p m)
    (hk : ∀ a, Names 0 p (k a)) : Names n p (m >>= k) := by
  refine Logs.bind hm hk fun cs ds hcs hds => ⟨?_, fun call hcall => ?_⟩
  · rw [List.length_append]
    exact Nat.le_add_right_of_le hcs.1
  · exact (List.mem_append.mp hcall).elim (hcs.2 call) (hds.2 call)

theorem Names.zero {n : Nat} {m : StateM SdLog α} (h : Names n p m) : Names 0 p m :=
  Logs.mono h fun _ hcs => ⟨Nat.zero_le _, hcs.2⟩

end Names

theorem handleListFiles_names (formatSize : Nat → Bytes) {request : List Param} {param : Param}
    (h : getParam request (ascii "folder") false = some param) :
    Names 1 (withSlash (urlDecode param.value))
      (handleListFiles formatSize request : StateM SdLog Response) := by
  rw [handleListFiles, h]
  refine (names_open .read).bind fun dir => ?_
  cases dir with
  | none => exact names_pure _
  | some dir =>
    dsimp only
    split
    · exact names_pure _
    · exact (names_openNextFiles dir).bind fun _ => names_pure _

theorem handleFileAction_names {request : List Param} {name action : Param}
    (hname : getParam request (ascii "name") false = some name)
    (haction : getParam request (ascii "action") false = some action) :
    (action.value = ascii "create" →
      Names 1 (replace (withSlash (urlDecode name.value)) (ascii "//") (ascii "/"))
        (handleFileAction request : StateM SdLog Response)) ∧
    (action.value = ascii "download" ∨ action.value = ascii "delete" →
      Names 1 (withSlash (urlDecode name.value))
        (handleFileAction request : StateM SdLog Response)) := by
  rw [handleFileAction, hname, haction]
  dsimp only
  refine ⟨fun hcreate => ?_, ?_⟩
  · rw [if_pos hcreate]
    refine (names_ask rfl).bind fun created => ?_
    split <;> exact names_pure _
  · rintro (hdownload | hdelete)
    · rw [if_neg (by rw [hdownload]; decide), if_pos hdownload]
      refine (names_open .read).bind fun file => ?_
      cases file with
      | none => exact names_pure _
      | some file =>
        dsimp only
        split <;> exact names_pure _
    · rw [if_neg (by rw [hdelete]; decide), if_neg (by rw [hdelete]; decide), if_pos hdelete]
      refine (names_open .read).bind fun target => ?_
      cases target with
      | none => exact names_pure _
      | some target =>
        dsimp only
        split
        · refine (names_openNextFiles target).bind fun files => ?_
          split
          · exact names_pure _
          · exact (names_ask rfl).zero.bind fun _ => names_pure _
        · exact (names_ask rfl).zero.bind fun _ => names_pure _

/-- Every call of such a request names the path that the handler decoded. -/
theorem handle_names (formatSize : Nat → Bytes) {r : PathRequest} {s : Bytes}
    {kvs : List (Bytes × Bytes)} (h : r.Sends (slash :: s) kvs) :
    Names 1 (r.resolved (slash :: s))
      (r.handle formatSize (addGetParams (queryString kvs)) : StateM SdLog Response) := by
  obtain ⟨hpath, haction⟩ := h
  cases r with
  | list =>
    have hnames := handleListFiles_names formatSize
      (getParam_queryString (by decide) hpath)
    rwa [withSlash_urlDecode] at hnames
  | create =>
    have hnames := (handleFileAction_names (getParam_queryString (by decide) hpath)
      (getParam_queryString (by decide) (haction _ rfl))).1 rfl
    rwa [withSlash_urlDecode] at hnames
  | download =>
    have hnames := (handleFileAction_names (getParam_queryString (by decide) hpath)
      (getParam_queryString (by decide) (haction _ rfl))).2 (Or.inl rfl)
    rwa [withSlash_urlDecode] at hnames
  | delete =>
    have hnames := (handleFileAction_names (getParam_queryString (by decide) hpath)
      (getParam_queryString (by decide) (haction _ rfl))).2 (Or.inr rfl)
    rwa [withSlash_urlDecode] at hnames

/-- A decoded path is the one sent exactly when the path has no escape in it. -/
theorem resolved_eq_iff (r : PathRequest) {p : List Bytes} (h : ∀ c ∈ p, IsName c) :
    r.resolved (render p) = render p ↔ Unescaped (render p) := by
  have hdecode : urlDecode (render p) = render p ↔ Unescaped (render p) := by
    rw [urlDecode_eq_decode, decode_eq_self_iff]
  cases r with
  | create => exact (replace_slashes_eq_iff h).trans hdecode
  | list | download | delete => exact hdecode

/-- A path sent in the standard encoding is the path of every call on the card
exactly when it has no `+` and no `%` with two characters after it. -/
theorem sdCalls_eq_iff (answers : SdAnswers) (formatSize : Nat → Bytes) (r : PathRequest)
    (p : List Bytes) (hp : ∀ c ∈ p, IsName c) (kvs : List (Bytes × Bytes))
    (hkvs : r.Sends (render p) kvs) :
    (sdCalls answers formatSize r kvs ≠ [] ∧
        ∀ call ∈ sdCalls answers formatSize r kvs, call.paths = [render p]) ↔
      Unescaped (render p) := by
  obtain ⟨cs, hcs, hlen, hnames⟩ :=
    handle_names formatSize hkvs (⟨answers, []⟩ : SdLog)
  have hcalls : sdCalls answers formatSize r kvs = cs := hcs
  have hne : cs ≠ [] := List.ne_nil_of_length_pos hlen
  rw [hcalls, ← resolved_eq_iff r hp]
  constructor
  · rintro ⟨-, hsame⟩
    obtain ⟨call, hcall⟩ := List.exists_mem_of_ne_nil cs hne
    have heq := (hnames call hcall).symm.trans (hsame call hcall)
    simpa [render] using heq
  · intro heq
    refine ⟨hne, fun call hcall => ?_⟩
    rw [hnames call hcall]
    exact congrArg (fun path => [path]) heq

/-- A card on which every call succeeds and every path is a regular file. -/
def SdAnswers.plain : SdAnswers where
  ok _ _ := true
  file _ call := call.paths.head?.map fun path => ⟨path, false, 0⟩
  next _ _ := []
  written _ _ data := data.length

theorem sdCalls_eq_iff_readme :
    (sdCalls .plain (fun _ => []) .list [(ascii "folder", ascii "/docs/100%")] ≠ [] ∧
        ∀ call ∈ sdCalls .plain (fun _ => []) .list [(ascii "folder", ascii "/docs/100%")],
          call.paths = [render [ascii "docs", ascii "100%"]]) ↔
      Unescaped (render [ascii "docs", ascii "100%"]) :=
  sdCalls_eq_iff .plain (fun _ => []) .list [ascii "docs", ascii "100%"] (by decide)
    [(ascii "folder", ascii "/docs/100%")] (by decide)

/-- Asked to delete `/a+b`, the handler deletes `/a b`. -/
theorem sdCalls_delete_plus :
    PathRequest.delete.Sends (render [ascii "a+b"])
      [(ascii "name", ascii "/a+b"), (ascii "action", ascii "delete")] ∧
    sdCalls .plain (fun _ => []) .delete
        [(ascii "name", ascii "/a+b"), (ascii "action", ascii "delete")] =
      [.open_ (ascii "/a b") .read, .remove (ascii "/a b")] ∧
    ¬ ∀ call ∈ sdCalls .plain (fun _ => []) .delete
        [(ascii "name", ascii "/a+b"), (ascii "action", ascii "delete")],
      call.paths = [render [ascii "a+b"]] := by
  decide

end Handheld
