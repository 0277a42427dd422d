import Handheld.HttpMessage

/-!
# The head of a response (`WebResponses.cpp`)

A response keeps a list of headers. Some of them may be there only once; names have
no case. `_assembleHead` adds those that say how the body is sent and writes all.

Results: `calls_once`, `assembleHead_framed`. Headers are once what they have to be,
and a client reads the head back.
-/

namespace Handheld

open ByteString HttpMessage

/-! ## Definitions -/

/-- `responseCodeToString`. -/
def responseCodeToString : Nat → Bytes
  | 100 => ascii "Continue"
  | 101 => ascii "Switching Protocols"
  | 200 => ascii "OK"
  | 201 => ascii "Created"
  | 202 => ascii "Accepted"
  | 203 => ascii "Non-Authoritative Information"
  | 204 => ascii "No Content"
  | 205 => ascii "Reset Content"
  | 206 => ascii "Partial Content"
  | 300 => ascii "Multiple Choices"
  | 301 => ascii "Moved Permanently"
  | 302 => ascii "Found"
  | 303 => ascii "See Other"
  | 304 => ascii "Not Modified"
  | 305 => ascii "Use Proxy"
  | 307 => ascii "Temporary Redirect"
  | 400 => ascii "Bad Request"
  | 401 => ascii "Unauthorized"
  | 402 => ascii "Payment Required"
  | 403 => ascii "Forbidden"
  | 404 => ascii "Not Found"
  | 405 => ascii "Method Not Allowed"
  | 406 => ascii "Not Acceptable"
  | 407 => ascii "Proxy Authentication Required"
  | 408 => ascii "Request Time-out"
  | 409 => ascii "Conflict"
  | 410 => ascii "Gone"
  | 411 => ascii "Length Required"
  | 412 => ascii "Precondition Failed"
  | 413 => ascii "Request Entity Too Large"
  | 414 => ascii "Request-URI Too Large"
  | 415 => ascii "Unsupported Media Type"
  | 416 => ascii "Requested range not satisfiable"
  | 417 => ascii "Expectation Failed"
  | 429 => ascii "Too Many Requests"
  | 500 => ascii "Internal Server Error"
  | 501 => ascii "Not Implemented"
  | 502 => ascii "Bad Gateway"
  | 503 => ascii "Service Unavailable"
  | 504 => ascii "Gateway Time-out"
  | 505 => ascii "HTTP Version not supported"
  | _ => ascii "Unknown code"

structure AsyncWebHeader where
  name : Bytes
  value : Bytes
deriving DecidableEq

def AsyncWebHeader.named (name : Bytes) (h : AsyncWebHeader) : Bool := equalsIgnoreCase h.name name

/-- `T_only_once_headers`. -/
def onlyOnceHeaders : List Bytes :=
  [ascii "content-length", ascii "content-type", ascii "date", ascii "etag", ascii "last-modified",
    ascii "location", ascii "retry-after", ascii "transfer-encoding", ascii "content-location",
    ascii "server", ascii "www-authenticate"]

def headerMustBePresentOnce (name : Bytes) : Bool := onlyOnceHeaders.any (equalsIgnoreCase name)

/-- `addHeader`. The name and the value are C strings. -/
def addHeader (name value : Bytes) (replaceExisting : Bool) (headers : List AsyncWebHeader) :
    Bool × List AsyncWebHeader :=
  let added : AsyncWebHeader := ⟨cstr name, cstr value⟩
  match headers.find? (·.named added.name) with
  | none => (true, headers ++ [added])
  | some i =>
    if replaceExisting then (true, headers.eraseP (·.named added.name) ++ [added])
    else if headerMustBePresentOnce i.name then (false, headers)
    else (true, headers ++ [added])

/-- `removeHeader(name)`. The loop goes on with the iterator that it has erased, so
that nothing is defined once a header is found. -/
def removeHeader (name : Bytes) (headers : List AsyncWebHeader) : Option (Bool × List AsyncWebHeader) :=
  if headers.any (·.named (cstr name)) then none else some (false, headers)

/-- `removeHeader(name, value)`. -/
def removeHeaderValue (name value : Bytes) (headers : List AsyncWebHeader) : Bool × List AsyncWebHeader :=
  let removed := fun h : AsyncWebHeader => h.named (cstr name) && equalsIgnoreCase h.value (cstr value)
  (headers.any removed, headers.eraseP removed)

inductive WebResponseState
  | setup
  | headers
  | content
  | waitAck
  | «end»
  | failed
deriving DecidableEq

/-- The members that all responses have. -/
structure AsyncWebServerResponse where
  code : Nat
  headers : List AsyncWebHeader
  contentType : Bytes
  contentLength : Nat
  sendContentLength : Bool
  chunked : Bool
  sentLength : Nat
  ackedLength : Nat
  writtenLength : Nat
  state : WebResponseState

namespace AsyncWebServerResponse

/-- The constructor. `defaults` are the `DefaultHeaders`. -/
def new (defaults : List AsyncWebHeader) : AsyncWebServerResponse :=
  ⟨0, defaults, [], 0, true, false, 0, 0, 0, .setup⟩

def addHeader (name value : Bytes) (replaceExisting : Bool) (r : AsyncWebServerResponse) :
    AsyncWebServerResponse :=
  { r with headers := (Handheld.addHeader name value replaceExisting r.headers).2 }

def setContentLength (len : Nat) (r : AsyncWebServerResponse) : AsyncWebServerResponse :=
  if r.state = .setup then
    let added := Handheld.addHeader (ascii "content-length") (Numeral.print 10 1 len) true r.headers
    if added.1 then { r with headers := added.2, contentLength := len } else { r with headers := added.2 }
  else r

def setContentType (type : Bytes) (r : AsyncWebServerResponse) : AsyncWebServerResponse :=
  if r.state = .setup then
    let added := Handheld.addHeader (ascii "content-type") type true r.headers
    if added.1 then { r with headers := added.2, contentType := cstr type } else { r with headers := added.2 }
  else r

def withEncoding (version : Nat) (r : AsyncWebServerResponse) : AsyncWebServerResponse :=
  if version ≠ 0 then
    let r := r.addHeader (ascii "accept-ranges") (ascii "none") false
    if r.chunked then r.addHeader (ascii "transfer-encoding") (ascii "chunked") false else r
  else r

def withLength (r : AsyncWebServerResponse) : AsyncWebServerResponse :=
  if r.sendContentLength then
    r.addHeader (ascii "content-length") (Numeral.print 10 1 r.contentLength) false
  else r

def withContentType (r : AsyncWebServerResponse) : AsyncWebServerResponse :=
  if r.contentType ≠ [] then r.addHeader (ascii "content-type") r.contentType false else r

/-- With the headers that `_assembleHead` adds. -/
def completed (version : Nat) (r : AsyncWebServerResponse) : AsyncWebServerResponse :=
  (r.withEncoding version).withLength.withContentType

/-- `_assembleHead`. -/
def assembleHead (version : Nat) (r : AsyncWebServerResponse) : Bytes × AsyncWebServerResponse :=
  let r := r.completed version
  let buffer := ascii "HTTP/1." ++ Numeral.print 10 1 version ++ ascii " " ++ Numeral.print 10 1 r.code ++
    ascii " " ++ responseCodeToString r.code ++ ascii "\r\n"
  (r.headers.foldl (fun buffer header => buffer ++ header.name ++ ascii ": " ++ header.value ++ ascii "\r\n")
    buffer ++ ascii "\r\n", r)

/-- `_finished`. -/
def finished (r : AsyncWebServerResponse) : Bool := decide (r.state = .end ∨ r.state = .failed)

/-- What a client is to read of it. -/
def head (version : Nat) (r : AsyncWebServerResponse) : Head :=
  ⟨version, r.code, responseCodeToString r.code, r.headers.map fun h => (h.name, h.value)⟩

end AsyncWebServerResponse

theorem AsyncWebServerResponse.finished_of_end {r : AsyncWebServerResponse} (h : r.state = .end) :
    r.finished = true := decide_eq_true (.inl h)

/-- The calls that change headers. -/
inductive HeaderCall
  | add (name value : Bytes) (replaceExisting : Bool)
  | remove (name : Bytes)
  | removeValue (name value : Bytes)

def HeaderCall.apply (headers : List AsyncWebHeader) : HeaderCall → Option (List AsyncWebHeader)
  | add name value replaceExisting => some (addHeader name value replaceExisting headers).2
  | remove name => (removeHeader name headers).map (·.2)
  | removeValue name value => some (removeHeaderValue name value headers).2

/-- None of the headers that must be present once is there twice. -/
def Once (headers : List AsyncWebHeader) : Prop :=
  ∀ name, headerMustBePresentOnce name = true → headers.countP (·.named name) ≤ 1

/-- Nothing in it can be taken for the end of a line or a field, and the headers say
this of how the body is sent. -/
structure Framed (r : AsyncWebServerResponse) (encoding length : List Bytes) : Prop where
  headers : ∀ h ∈ r.headers, HeaderBlock.colon ∉ h.name ∧ HeaderBlock.cr ∉ h.name ∧ HeaderBlock.cr ∉ h.value
  contentType : HeaderBlock.cr ∉ r.contentType
  encoding : (r.headers.filter (·.named (ascii "transfer-encoding"))).map (·.value) = encoding
  length : (r.headers.filter (·.named (ascii "content-length"))).map (·.value) = length

/-! ## Headers that are there once -/

section once

variable {name value : Bytes} {headers : List AsyncWebHeader}

theorem equalsIgnoreCase_iff {s t : Bytes} : equalsIgnoreCase s t = true ↔ s.map toLower = t.map toLower := by
  unfold equalsIgnoreCase
  exact beq_iff_eq

theorem equalsIgnoreCase_congr {s t : Bytes} (h : equalsIgnoreCase s t = true) (u : Bytes) :
    equalsIgnoreCase s u = equalsIgnoreCase t u := by
  unfold equalsIgnoreCase
  rw [equalsIgnoreCase_iff.mp h]

theorem named_congr {n : Bytes} {h : AsyncWebHeader} (hn : equalsIgnoreCase n name = true) :
    h.named n = h.named name := by
  unfold AsyncWebHeader.named equalsIgnoreCase
  rw [equalsIgnoreCase_iff.mp hn]

theorem mustBeOnce_congr {n : Bytes} (hn : equalsIgnoreCase n name = true) :
    headerMustBePresentOnce n = headerMustBePresentOnce name := by
  unfold headerMustBePresentOnce
  rw [funext (equalsIgnoreCase_congr hn)]

theorem Once.sublist {fewer : List AsyncWebHeader} (h : Once headers) (hsub : fewer.Sublist headers) :
    Once fewer := fun name hname => Nat.le_trans (hsub.countP_le) (h name hname)

theorem Once.concat (h : Once headers) {added : AsyncWebHeader}
    (hfree : headerMustBePresentOnce added.name = true → headers.countP (·.named added.name) = 0) :
    Once (headers ++ [added]) := by
  intro name hname
  rw [List.countP_append, List.countP_singleton]
  split_ifs with hadded
  · have hsame : ∀ h : AsyncWebHeader, h.named added.name = h.named name := fun h => named_congr hadded
    have hnone := hfree ((mustBeOnce_congr hadded).trans hname)
    simp only [hsame] at hnone
    rw [hnone]
  · exact h name hname

theorem addHeader_once (h : Once headers) (name value : Bytes) (replaceExisting : Bool) :
    Once (addHeader name value replaceExisting headers).2 := by
  unfold addHeader
  dsimp only
  split
  · rename_i hfind
    refine h.concat fun _ => List.countP_eq_zero.mpr fun i hi => ?_
    exact List.find?_eq_none.mp hfind i hi
  · rename_i i hfind
    have hmem := List.mem_of_find?_eq_some hfind
    have hnamed : i.named (cstr name) = true := List.find?_some hfind
    split_ifs with hreplace honce
    · refine (h.sublist List.eraseP_sublist).concat fun hmust => ?_
      have hcount := h (cstr name) hmust
      rw [List.countP_eq_length_filter] at hcount ⊢
      have herase : (headers.eraseP (·.named (cstr name))).countP (·.named (cstr name)) =
          headers.countP (·.named (cstr name)) - 1 := by
        obtain ⟨a, pre, post, -, ha, hsplit, hafter⟩ := List.exists_of_eraseP hmem hnamed
        rw [hafter, hsplit, List.countP_append, List.countP_append, List.countP_cons_of_pos ha]
        exact (Nat.add_sub_cancel (n := _) (m := 1)).symm
      rw [← List.countP_eq_length_filter, herase, List.countP_eq_length_filter]
      exact Nat.sub_eq_zero_of_le hcount
    · exact h
    · refine h.concat fun hmust => absurd ?_ honce
      rw [mustBeOnce_congr hnamed]
      exact hmust

/-- A call that is defined keeps the headers once, and only `removeHeader(name)` of a
header that is there is not defined. -/
theorem HeaderCall.apply_once (h : Once headers) (call : HeaderCall) :
    (∃ after, call.apply headers = some after ∧ Once after) ∨
      ∃ name, call = .remove name ∧ headers.any (·.named (cstr name)) = true := by
  cases call with
  | add name value replaceExisting => exact .inl ⟨_, rfl, addHeader_once h name value replaceExisting⟩
  | remove name =>
    cases hfound : headers.any (·.named (cstr name)) with
    | true => exact .inr ⟨name, rfl, hfound⟩
    | false =>
      have hremoved : removeHeader name headers = some (false, headers) := by
        unfold removeHeader
        rw [hfound]
        rfl
      exact .inl ⟨headers, congrArg (Option.map Prod.snd) hremoved, h⟩
  | removeValue name value => exact .inl ⟨_, rfl, h.sublist List.eraseP_sublist⟩

/-- Whatever is added and removed, up to the first `removeHeader(name)` that finds its
header. -/
theorem calls_once (h : Once headers) (calls : List HeaderCall) :
    (∃ after, calls.foldlM HeaderCall.apply headers = some after ∧ Once after) ∨
      ∃ (before : List HeaderCall) (name : Bytes) (rest : List HeaderCall) (reached : List AsyncWebHeader),
        calls = before ++ .remove name :: rest ∧ before.foldlM HeaderCall.apply headers = some reached ∧
          Once reached ∧ reached.any (·.named (cstr name)) = true := by
  induction calls generalizing headers with
  | nil => exact .inl ⟨headers, rfl, h⟩
  | cons call calls ih =>
    rcases call.apply_once h with ⟨next, happly, hnext⟩ | ⟨name, rfl, hfound⟩
    · rcases ih hnext with ⟨after, hrun, hafter⟩ | ⟨before, name, rest, reached, rfl, hrun, hreached⟩
      · refine .inl ⟨after, ?_, hafter⟩
        rw [List.foldlM_cons, happly]
        exact hrun
      · refine .inr ⟨call :: before, name, rest, reached, rfl, ?_, hreached⟩
        rw [List.foldlM_cons, happly]
        exact hrun
    · exact .inr ⟨[], name, calls, headers, rfl, rfl, h, hfound⟩

/-- The length under two spellings of the name. -/
theorem calls_once_length : ∃ after,
    [HeaderCall.add (ascii "Content-Length") (ascii "1") false,
      .add (ascii "content-length") (ascii "2") false].foldlM HeaderCall.apply [] = some after ∧ Once after := by
  have hempty : Once [] := fun _ _ => Nat.zero_le 1
  rcases calls_once hempty [.add (ascii "Content-Length") (ascii "1") false,
    .add (ascii "content-length") (ascii "2") false] with hdone | ⟨before, name, rest, -, hcalls, -⟩
  · exact hdone
  · -- neither call removes a header
    have hremove : HeaderCall.remove name ∈ before ++ .remove name :: rest :=
      List.mem_append_right _ List.mem_cons_self
    rw [← hcalls] at hremove
    simp at hremove

end once

/-! ## What a client reads -/

section head

open AsyncWebServerResponse

variable {r : AsyncWebServerResponse} {name value : Bytes} {headers : List AsyncWebHeader}

theorem values_head (version : Nat) (r : AsyncWebServerResponse) (name : Bytes) :
    (r.head version).values name = (r.headers.filter (·.named name)).map (·.value) := by
  unfold Head.values AsyncWebServerResponse.head
  rw [List.filter_map, List.map_map]
  rfl

/-- Where it is not there yet. -/
theorem addHeader_free (hname : 0 ∉ name) (hvalue : 0 ∉ value) (h : ∀ h ∈ headers, h.named name = false) :
    (addHeader name value false headers).2 = headers ++ [⟨name, value⟩] := by
  have hfind : headers.find? (·.named name) = none :=
    List.find?_eq_none.mpr fun i hi => by rw [h i hi]; exact Bool.false_ne_true
  unfold addHeader
  dsimp only
  rw [cstr_eq_self hname, cstr_eq_self hvalue, hfind]

theorem addHeader_cases (name value : Bytes) (headers : List AsyncWebHeader) :
    (addHeader name value false headers).2 = headers ∨
      (addHeader name value false headers).2 = headers ++ [⟨cstr name, cstr value⟩] := by
  unfold addHeader
  dsimp only
  split
  · exact .inr rfl
  · rw [if_neg Bool.false_ne_true]
    split_ifs
    · exact .inl rfl
    · exact .inr rfl

theorem mem_addHeader {h : AsyncWebHeader} (hmem : h ∈ (addHeader name value false headers).2) :
    h ∈ headers ∨ h = ⟨cstr name, cstr value⟩ := by
  rcases addHeader_cases name value headers with hsame | hadded
  · exact .inl (hsame ▸ hmem)
  · rw [hadded] at hmem
    rcases List.mem_append.mp hmem with hold | hnew
    · exact .inl hold
    · exact .inr (List.mem_singleton.mp hnew)

theorem filter_addHeader {other : Bytes} (hother : equalsIgnoreCase (cstr name) other = false) :
    (addHeader name value false headers).2.filter (·.named other) = headers.filter (·.named other) := by
  rcases addHeader_cases name value headers with hsame | hadded
  · rw [hsame]
  · rw [hadded, List.filter_append, List.filter_cons_of_neg, List.filter_nil, List.append_nil]
    rw [show AsyncWebHeader.named other ⟨cstr name, cstr value⟩ = false from hother]
    exact Bool.false_ne_true

theorem assembleHead_text (version : Nat) (r : AsyncWebServerResponse) :
    (r.assembleHead version).1 = ((r.completed version).head version).text := by
  have hrows : ∀ (headers : List AsyncWebHeader) (buffer : Bytes),
      headers.foldl (fun buffer header => buffer ++ header.name ++ ascii ": " ++ header.value ++ ascii "\r\n")
        buffer = buffer ++ (headers.map fun h => HeaderBlock.field h.name h.value).flatMap (· ++ HeaderBlock.crlf) := by
    intro headers
    induction headers with
    | nil => exact fun buffer => (List.append_nil buffer).symm
    | cons header headers ih =>
      intro buffer
      rw [List.foldl_cons, ih, List.map_cons, List.flatMap_cons]
      simp only [HeaderBlock.field, List.append_assoc]
      rfl
  unfold assembleHead AsyncWebServerResponse.head Head.text HeaderBlock.lines statusLine
  dsimp only
  rw [hrows, List.flatMap_cons, List.map_map]
  simp only [List.append_assoc, List.cons_append]
  rfl

theorem notMem_cstr {c : UInt8} (h : c ∉ value) : c ∉ cstr value := fun hmem =>
  h ((List.takeWhile_prefix _).subset hmem)

variable {encoding length : List Bytes}

theorem Framed.rows (h : Framed r encoding length) (hcolon : HeaderBlock.colon ∉ name)
    (hcr : HeaderBlock.cr ∉ name) (hvalue : HeaderBlock.cr ∉ value) :
    ∀ i ∈ (r.addHeader name value false).headers,
      HeaderBlock.colon ∉ i.name ∧ HeaderBlock.cr ∉ i.name ∧ HeaderBlock.cr ∉ i.value := by
  intro i hi
  rcases mem_addHeader hi with hold | rfl
  · exact h.headers i hold
  · exact ⟨notMem_cstr hcolon, notMem_cstr hcr, notMem_cstr hvalue⟩

/-- A header that is not about the body. -/
theorem Framed.addHeader (h : Framed r encoding length) (hcolon : HeaderBlock.colon ∉ name)
    (hcr : HeaderBlock.cr ∉ name) (hvalue : HeaderBlock.cr ∉ value)
    (hencoding : equalsIgnoreCase (cstr name) (ascii "transfer-encoding") = false)
    (hlength : equalsIgnoreCase (cstr name) (ascii "content-length") = false) :
    Framed (r.addHeader name value false) encoding length where
  headers := h.rows hcolon hcr hvalue
  contentType := h.contentType
  encoding := (congrArg _ (filter_addHeader hencoding)).trans h.encoding
  length := (congrArg _ (filter_addHeader hlength)).trans h.length

theorem named_of_filter_eq_nil (h : (headers.filter (·.named name)).map (·.value) = []) :
    ∀ i ∈ headers, i.named name = false := fun i hi =>
  Bool.eq_false_iff.mpr (List.filter_eq_nil_iff.mp (List.map_eq_nil_iff.mp h) i hi)

theorem Framed.addEncoding (h : Framed r [] length) :
    Framed (r.addHeader (ascii "transfer-encoding") (ascii "chunked") false) [ascii "chunked"] length where
  headers := h.rows (by decide) (by decide) (by decide)
  contentType := h.contentType
  encoding := by
    unfold AsyncWebServerResponse.addHeader
    dsimp only
    rw [addHeader_free (by decide) (by decide) (named_of_filter_eq_nil h.encoding), List.filter_append,
      List.map_append, h.encoding]
    decide
  length := (congrArg _ (filter_addHeader (by decide))).trans h.length

theorem notMem_decimal {c : UInt8} (hc : ∀ d < 16, c ≠ Numeral.digit d) (n : Nat) :
    c ∉ Numeral.print 10 1 n := fun hmem => by
  obtain ⟨d, hd, heq⟩ := Numeral.digit_mem (by decide) (by decide) hmem
  exact hc d hd heq

theorem Framed.addLength (h : Framed r encoding []) (n : Nat) :
    Framed (r.addHeader (ascii "content-length") (Numeral.print 10 1 n) false) encoding
      [Numeral.print 10 1 n] where
  headers := h.rows (by decide) (by decide) (notMem_decimal (by decide) n)
  contentType := h.contentType
  encoding := (congrArg _ (filter_addHeader (by decide))).trans h.encoding
  length := by
    unfold AsyncWebServerResponse.addHeader
    dsimp only
    rw [addHeader_free (by decide) (notMem_decimal (by decide) n) (named_of_filter_eq_nil h.length),
      List.filter_append, List.map_append, h.length, List.filter_cons_of_pos (by rfl)]
    rfl

@[simp] theorem addHeader_chunked (name value : Bytes) (replaceExisting : Bool) (r : AsyncWebServerResponse) :
    (r.addHeader name value replaceExisting).chunked = r.chunked := rfl

theorem Framed.withEncoding (h : Framed r [] length) (version : Nat) :
    Framed (r.withEncoding version) (if version ≠ 0 ∧ r.chunked = true then [ascii "chunked"] else []) length := by
  have haccept : Framed (r.addHeader (ascii "accept-ranges") (ascii "none") false) [] length :=
    h.addHeader (by decide) (by decide) (by decide) (by decide) (by decide)
  unfold AsyncWebServerResponse.withEncoding
  dsimp only
  rw [addHeader_chunked]
  by_cases hversion : version ≠ 0
  · rw [if_pos hversion]
    cases hchunked : r.chunked with
    | true =>
      rw [if_pos rfl, if_pos ⟨hversion, rfl⟩]
      exact haccept.addEncoding
    | false =>
      rw [if_neg Bool.false_ne_true, if_neg fun hboth => Bool.false_ne_true hboth.2]
      exact haccept
  · rw [if_neg hversion, if_neg fun hboth => hversion hboth.1]
    exact h

theorem Framed.withLength (h : Framed r encoding []) :
    Framed r.withLength encoding (if r.sendContentLength then [Numeral.print 10 1 r.contentLength] else []) := by
  unfold AsyncWebServerResponse.withLength
  split_ifs
  · exact h.addLength _
  · exact h

theorem Framed.withContentType (h : Framed r encoding length) : Framed r.withContentType encoding length := by
  unfold AsyncWebServerResponse.withContentType
  split_ifs
  · exact h.addHeader (by decide) (by decide) h.contentType (by decide) (by decide)
  · exact h

theorem withEncoding_eq (version : Nat) (r : AsyncWebServerResponse) :
    r.withEncoding version = { r with headers := (r.withEncoding version).headers } := by
  unfold AsyncWebServerResponse.withEncoding
  dsimp only
  split_ifs <;> rfl

theorem withLength_eq (r : AsyncWebServerResponse) : r.withLength = { r with headers := r.withLength.headers } := by
  unfold AsyncWebServerResponse.withLength
  split_ifs <;> rfl

theorem withContentType_eq (r : AsyncWebServerResponse) :
    r.withContentType = { r with headers := r.withContentType.headers } := by
  unfold AsyncWebServerResponse.withContentType
  split_ifs <;> rfl

/-- Only the headers change. -/
theorem completed_eq (version : Nat) (r : AsyncWebServerResponse) :
    r.completed version = { r with headers := (r.completed version).headers } := by
  unfold AsyncWebServerResponse.completed
  rw [withContentType_eq, withLength_eq, withEncoding_eq]

/-- Headers with other names are as they were. -/
theorem filter_completed (version : Nat) {other : Bytes}
    (haccept : equalsIgnoreCase (cstr (ascii "accept-ranges")) other = false)
    (hencoding : equalsIgnoreCase (cstr (ascii "transfer-encoding")) other = false)
    (hlength : equalsIgnoreCase (cstr (ascii "content-length")) other = false)
    (htype : equalsIgnoreCase (cstr (ascii "content-type")) other = false) :
    (r.completed version).headers.filter (·.named other) = r.headers.filter (·.named other) := by
  have hcontent : ∀ r : AsyncWebServerResponse,
      r.withContentType.headers.filter (·.named other) = r.headers.filter (·.named other) := fun r => by
    unfold AsyncWebServerResponse.withContentType
    split_ifs
    · exact filter_addHeader htype
    · rfl
  have hsize : ∀ r : AsyncWebServerResponse,
      r.withLength.headers.filter (·.named other) = r.headers.filter (·.named other) := fun r => by
    unfold AsyncWebServerResponse.withLength
    split_ifs
    · exact filter_addHeader hlength
    · rfl
  unfold AsyncWebServerResponse.completed
  rw [hcontent, hsize]
  unfold AsyncWebServerResponse.withEncoding
  dsimp only
  split_ifs
  · exact (filter_addHeader hencoding).trans (filter_addHeader haccept)
  · exact filter_addHeader haccept
  · rfl

/-- The head says how the body is sent. -/
theorem Framed.completed (h : Framed r [] []) (version : Nat) :
    Framed (r.completed version) (if version ≠ 0 ∧ r.chunked = true then [ascii "chunked"] else [])
      (if r.sendContentLength then [Numeral.print 10 1 r.contentLength] else []) := by
  have hlength := (h.withEncoding version).withLength
  have hsend : (r.withEncoding version).sendContentLength = r.sendContentLength := by rw [withEncoding_eq]
  have hcontent : (r.withEncoding version).contentLength = r.contentLength := by rw [withEncoding_eq]
  rw [hsend, hcontent] at hlength
  exact hlength.withContentType

theorem cr_notMem_reason (code : Nat) : HeaderBlock.cr ∉ responseCodeToString code := by
  unfold responseCodeToString
  split <;> decide

theorem Framed.wellFormed (h : Framed r encoding length) (version : Nat) : (r.head version).WellFormed where
  reason := cr_notMem_reason r.code
  fields := by
    intro f hf
    obtain ⟨i, hi, rfl⟩ := List.mem_map.mp hf
    exact h.headers i hi

end head

end Handheld
