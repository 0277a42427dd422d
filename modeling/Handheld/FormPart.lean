import Handheld.Multipart
import Mathlib.Data.Bool.AllAny

/-!
# The parts of a form

A browser writes a part of a form as a `Content-Disposition` line with the name and
the name of the file, a `Content-Type` line for a file, an empty line and the
content.

Results: `feed_headers`, `feed_part`. A part is read back.
-/

namespace Handheld

open ByteString PercentCoding DelimiterScan

namespace AsyncWebServerRequest

namespace BodyParser

/-! ## 1. Lines -/

section headers

variable {s : BodyParser} {text : Bytes}

/-- After some bytes of a line. -/
def heard (temp : Bytes) (count : Nat) (s : BodyParser) : BodyParser :=
  { s with temp := temp, parsedLength := s.parsedLength + count }

@[simp] theorem heard_temp (temp : Bytes) (count : Nat) (s : BodyParser) :
    (s.heard temp count).temp = temp := rfl

theorem heard_heard (temp temp' : Bytes) (count count' : Nat) (s : BodyParser) :
    (s.heard temp count).heard temp' count' = s.heard temp' (count + count') := by
  unfold heard
  rw [Nat.add_assoc]

/-- With a header. -/
def headed (header : ItemHeader) (s : BodyParser) : BodyParser := { s with header := header }

theorem headed_heard (header : ItemHeader) (temp : Bytes) (count : Nat) (s : BodyParser) :
    (s.heard temp count).headed header = (s.headed header).heard temp count := rfl

theorem feed_header (hstate : s.state = .parseHeaders) (hlength : 0 < s.parsedLength)
    (b : UInt8 × Bool) :
    feed text s b =
      { s.parseHeaders b.1 with parsedLength := (s.parseHeaders b.1).parsedLength + 1 } := by
  unfold feed parseMultipartPostByte
  rw [if_neg (Nat.ne_of_gt hlength)]
  unfold dispatch
  rw [hstate]

theorem feed_char (hstate : s.state = .parseHeaders) (hlength : 0 < s.parsedLength)
    {b : UInt8 × Bool} (hcr : b.1 ≠ cr) (hlf : b.1 ≠ lf) :
    feed text s b = s.heard (s.temp ++ [b.1]) 1 := by
  rw [feed_header hstate hlength]
  unfold parseHeaders
  simp only [if_neg hlf, if_pos (And.intro hcr hlf)]
  rfl

theorem feed_cr (hstate : s.state = .parseHeaders) (hlength : 0 < s.parsedLength)
    {b : UInt8 × Bool} (hcr : b.1 = cr) : feed text s b = s.heard s.temp 1 := by
  have hlf : b.1 ≠ lf := by
    rw [hcr]
    decide
  rw [feed_header hstate hlength]
  unfold parseHeaders
  simp only [if_neg hlf, if_neg fun h : b.1 ≠ cr ∧ b.1 ≠ lf => h.1 hcr]
  rfl

theorem feed_lf (hstate : s.state = .parseHeaders) (hlength : 0 < s.parsedLength) (hne : s.temp ≠ [])
    {b : UInt8 × Bool} (hlf : b.1 = lf) :
    feed text s b = (s.headed (s.header.parseLine s.temp)).heard [] 1 := by
  rw [feed_header hstate hlength]
  unfold parseHeaders
  simp only [if_pos hlf, if_neg fun h : b.1 ≠ cr ∧ b.1 ≠ lf => h.2 hlf, if_pos hne]
  rfl

theorem feed_lf_empty (hstate : s.state = .parseHeaders) (hlength : 0 < s.parsedLength)
    (htemp : s.temp = []) {b : UInt8 × Bool} (hlf : b.1 = lf) :
    feed text s b = s.startItem.heard [] 1 := by
  rw [feed_header hstate hlength]
  unfold parseHeaders
  simp only [if_pos hlf, if_neg fun h : b.1 ≠ cr ∧ b.1 ≠ lf => h.2 hlf, htemp, ne_eq,
    not_true_eq_false, if_false]
  rfl

/-- The characters of a line. -/
theorem feed_chars (hstate : s.state = .parseHeaders) (hlength : 0 < s.parsedLength)
    {bytes : List (UInt8 × Bool)} (hbytes : ∀ b ∈ bytes, b.1 ≠ cr ∧ b.1 ≠ lf) :
    feedAll text s bytes = s.heard (s.temp ++ bytes.map Prod.fst) bytes.length := by
  induction bytes generalizing s with
  | nil =>
    rw [List.map_nil, List.append_nil]
    rfl
  | cons b bytes ih =>
    obtain ⟨hcr, hlf⟩ := hbytes b List.mem_cons_self
    rw [feedAll_cons, feed_char hstate hlength hcr hlf,
      ih (s := s.heard (s.temp ++ [b.1]) 1) hstate (Nat.succ_pos _)
        fun b hb => hbytes b (List.mem_cons_of_mem _ hb),
      heard_heard, List.length_cons, Nat.add_comm bytes.length]
    show s.heard (s.temp ++ [b.1] ++ bytes.map Prod.fst) _ = _
    rw [List.append_assoc]
    rfl

/-- A line of the headers. -/
theorem feed_line (hstate : s.state = .parseHeaders) (hlength : 0 < s.parsedLength) (htemp : s.temp = [])
    {line : Bytes} (hne : line ≠ []) (hcr : cr ∉ line) (hlf : lf ∉ line) {bytes : List (UInt8 × Bool)}
    (hbytes : bytes.map Prod.fst = line ++ [cr, lf]) :
    feedAll text s bytes = (s.headed (s.header.parseLine line)).heard [] bytes.length := by
  obtain ⟨chars, ends, rfl, rfl, hends⟩ := List.map_eq_append_iff.mp hbytes
  obtain ⟨b, ends, rfl, hb, hends⟩ := List.map_eq_cons_iff.mp hends
  obtain ⟨b', ends, rfl, hb', hnil⟩ := List.map_eq_cons_iff.mp hends
  obtain rfl : ends = [] := List.map_eq_nil_iff.mp hnil
  have hchars : ∀ b ∈ chars, b.1 ≠ cr ∧ b.1 ≠ lf := fun b hb =>
    ⟨fun h => hcr (h ▸ List.mem_map_of_mem hb), fun h => hlf (h ▸ List.mem_map_of_mem hb)⟩
  have hpos : ∀ temp count, 0 < (s.heard temp count).parsedLength := fun _ _ =>
    Nat.lt_of_lt_of_le hlength (Nat.le_add_right _ _)
  rw [feedAll_append, feed_chars hstate hlength hchars, htemp, List.nil_append, feedAll_cons,
    feed_cr (s := s.heard _ _) hstate (hpos _ _) hb, heard_heard, heard_temp, feedAll_cons,
    feed_lf (s := s.heard _ _) hstate (hpos _ _) hne hb', List.length_append,
    heard_temp, headed_heard, heard_heard]
  rfl

theorem heard_pos (hlength : 0 < s.parsedLength) (temp : Bytes) (count : Nat) :
    0 < (s.heard temp count).parsedLength := Nat.lt_of_lt_of_le hlength (Nat.le_add_right _ _)

/-- The empty line after the headers. -/
theorem feed_end (hstate : s.state = .parseHeaders) (hlength : 0 < s.parsedLength) (htemp : s.temp = [])
    {bytes : List (UInt8 × Bool)} (hbytes : bytes.map Prod.fst = [cr, lf]) :
    feedAll text s bytes = s.startItem.heard [] bytes.length := by
  obtain ⟨b, ends, rfl, hb, hends⟩ := List.map_eq_cons_iff.mp hbytes
  obtain ⟨b', ends, rfl, hb', hnil⟩ := List.map_eq_cons_iff.mp hends
  obtain rfl : ends = [] := List.map_eq_nil_iff.mp hnil
  have hpos : 0 < (s.heard s.temp 1).parsedLength := Nat.succ_pos _
  rw [feedAll_cons, feed_cr hstate hlength hb, feedAll_cons,
    feed_lf_empty (s := s.heard s.temp 1) hstate hpos htemp hb']
  exact heard_heard _ _ _ _ s.startItem

end headers

end BodyParser

/-! ## 2. What a browser writes -/

/-- The file of a part: its name and its type. -/
structure FormFile where
  filename : Bytes
  type : Bytes

/-- A field of a form, or a file. -/
structure FormPart where
  name : Bytes
  file : Option FormFile
  content : Bytes

namespace FormPart

/-- `key="value"`. -/
def field (key value : Bytes) : Bytes := key ++ equals :: dquote :: value ++ [dquote]

def formData : Bytes := ascii "Content-Disposition: form-data; "

/-- The `Content-Disposition` line. -/
def disposition (part : FormPart) : Bytes :=
  formData ++ field (ascii "name") part.name ++
    match part.file with
    | none => []
    | some file => ascii "; " ++ field (ascii "filename") file.filename

/-- The headers, as a browser writes them. -/
def headers (part : FormPart) : Bytes :=
  part.disposition ++ [cr, lf] ++
    match part.file with
    | none => []
    | some file => ascii "Content-Type: " ++ file.type ++ [cr, lf]

/-- A part up to the boundary behind it. -/
def text (boundary : Boundary) (part : FormPart) : Bytes :=
  part.headers ++ [cr, lf] ++ (part.content ++ (BodyParser.delimiter boundary).text)

/-- The parameter of the request that comes of it. -/
def params (part : FormPart) : List Param :=
  match part.file with
  | none => [⟨part.name, part.content, true, false⟩]
  | some file => if part.content = [] then [] else [⟨part.name, file.filename, true, true⟩]

/-- The calls of the upload callback that come of it. -/
def calls (params : List Param) (flagged : List (UInt8 × Bool)) (part : FormPart) : List UploadCall :=
  match part.file with
  | none => []
  | some file => (deliver flagged).map (⟨params, file.filename, ·⟩)

/-- What the parser can read back: it looks for semicolons and line ends, and
stops at a NUL, but does not mind quotes. -/
structure WellFormed (boundary : Boundary) (part : FormPart) : Prop where
  name : ∀ b ∈ part.name, b ≠ semicolon ∧ b ≠ cr ∧ b ≠ lf ∧ b ≠ 0
  filename : ∀ file, part.file = some file →
    ∀ b ∈ file.filename, b ≠ semicolon ∧ b ≠ cr ∧ b ≠ lf ∧ b ≠ 0
  type : ∀ file, part.file = some file → cr ∉ file.type ∧ lf ∉ file.type
  content : ¬ (BodyParser.delimiter boundary).text <:+: part.content

/-- The header that is read. -/
def header (part : FormPart) (h : ItemHeader) : ItemHeader :=
  match part.file with
  | none => { h with itemName := part.name }
  | some file => ⟨part.name, file.filename, file.type, true⟩

end FormPart

section headers

open ItemHeader FormPart

variable {key value : Bytes}

theorem find_append {pre : Bytes} {c : UInt8} (hpre : ∀ b ∈ pre, b ≠ c ∧ b ≠ 0) (hc : c ≠ 0)
    (post : Bytes) : find (pre ++ c :: post) c = (pre.length : Int) := by
  have hcstr : cstr (pre ++ c :: post) = pre ++ c :: cstr post := by
    unfold cstr
    rw [List.takeWhile_append_of_pos (by simpa using fun b hb => (hpre b hb).2),
      List.takeWhile_cons_of_pos (by simpa using hc)]
  have hnot : c ∉ pre := fun h => (hpre c h).1 rfl
  unfold find
  rw [hcstr]
  simpa using @indexOf_append [] pre c hnot (cstr post)

theorem find_of_notMem {s : Bytes} {c : UInt8} (h : c ∉ s) : find s c = -1 := by
  have hcstr : c ∉ cstr s := fun hin => h (List.takeWhile_subset _ hin)
  simpa [find] using @indexOf_eq_neg_one [] (cstr s) c hcstr

theorem bound_natCast (s : Bytes) (n : Nat) : bound s (n : Int) = n := by
  unfold bound
  rw [if_neg (by omega), Int.toNat_natCast]

theorem find_field (hkey : ∀ b ∈ key, b ≠ equals ∧ b ≠ 0) (post : Bytes) :
    find (field key value ++ post) equals = (key.length : Int) := by
  unfold field
  rw [List.append_assoc, List.append_assoc]
  exact find_append hkey (by decide) _

/-- The key of a field. -/
theorem key_field (hkey : ∀ b ∈ key, b ≠ equals ∧ b ≠ 0) (post : Bytes) :
    substring (field key value ++ post) 0 (bound (field key value ++ post)
      (find (field key value ++ post) equals)) = key := by
  rw [find_field hkey, bound_natCast]
  unfold substring field
  simp

/-- The value of a field, up to its closing quote. -/
theorem value_field (hkey : ∀ b ∈ key, b ≠ equals ∧ b ≠ 0) (post : Bytes) :
    substring (field key value ++ post) (bound (field key value ++ post)
      (find (field key value ++ post) equals + 2)) (key.length + 2 + value.length) = value := by
  have hstart : (key.length : Int) + 2 = ((key.length + 2 : Nat) : Int) := by omega
  rw [find_field hkey, hstart, bound_natCast]
  unfold substring field
  have hsplit : key ++ equals :: dquote :: value ++ [dquote] ++ post =
      (key ++ [equals, dquote] ++ value) ++ dquote :: post := by simp
  rw [max_eq_right (Nat.le_add_right _ _), min_eq_left (Nat.le_add_right _ _), hsplit]
  have hlength : (key ++ [equals, dquote] ++ value).length = key.length + 2 + value.length := by
    rw [List.length_append, List.length_append]
    rfl
  rw [List.take_append_of_le_length (Nat.le_of_eq hlength.symm), List.take_of_length_le (Nat.le_of_eq hlength)]
  exact List.drop_left' (by simp)

theorem length_field : (field key value).length = key.length + value.length + 3 := by
  unfold field
  simp
  omega

theorem notMem_field {c : UInt8} (hkey : c ∉ key) (hequals : c ≠ equals) (hquote : c ≠ dquote)
    (hvalue : c ∉ value) : c ∉ field key value := by
  unfold field
  simp only [List.mem_append, List.mem_cons, List.not_mem_nil, or_false, not_or]
  exact ⟨⟨hkey, hequals, hquote, hvalue⟩, hquote⟩

theorem key_name : ∀ b ∈ ascii "name", b ≠ equals ∧ b ≠ 0 :=
  List.all_iff_forall_prop.mp (by decide)

theorem key_filename : ∀ b ∈ ascii "filename", b ≠ equals ∧ b ≠ 0 :=
  List.all_iff_forall_prop.mp (by decide)

/-- The last field of the line. -/
theorem setDisposition_last (hkey : ∀ b ∈ key, b ≠ equals ∧ b ≠ 0) (h : ItemHeader) :
    h.setDisposition
        (substring (field key value) 0 (bound (field key value) (find (field key value) equals)))
        (substring (field key value) (bound (field key value) (find (field key value) equals + 2))
          (bound (field key value) ((field key value).length - 1))) =
      h.setDisposition key value := by
  have hname := @key_field key value hkey []
  have hvalue := @value_field key value hkey []
  rw [List.append_nil] at hname hvalue
  have hend : ((field key value).length : Int) - 1 = ((key.length + 2 + value.length : Nat) : Int) := by
    rw [length_field]
    omega
  rw [hname, hend, bound_natCast, hvalue]

/-- A field that another one follows. -/
theorem dispositionLoop_field (hkey : ∀ b ∈ key, b ≠ equals ∧ b ≠ 0)
    (hfield : ∀ b ∈ field key value, b ≠ semicolon ∧ b ≠ 0) (fuel : Nat) (post : Bytes) (h : ItemHeader) :
    dispositionLoop (fuel + 1) (field key value ++ ascii "; " ++ post) h =
      dispositionLoop fuel post (h.setDisposition key value) := by
  have hsemicolon : find (field key value ++ ascii "; " ++ post) semicolon =
      ((field key value).length : Int) := by
    rw [List.append_assoc]
    exact find_append hfield (by decide) _
  have hend : ((field key value).length : Int) - 1 = ((key.length + 2 + value.length : Nat) : Int) := by
    rw [length_field]
    omega
  have hnext : ((field key value).length : Int) + 2 =
      (((field key value ++ ascii "; ").length : Nat) : Int) := by
    rw [List.length_append]
    rfl
  rw [dispositionLoop, hsemicolon, if_pos (by rw [length_field]; omega), hend, hnext, bound_natCast,
    bound_natCast, List.append_assoc (field key value), key_field hkey, value_field hkey,
    ← List.append_assoc]
  unfold substringFrom
  rw [List.drop_left]

theorem dispositionLoop_last {temp : Bytes} (h : semicolon ∉ temp) (fuel : Nat) (header : ItemHeader) :
    dispositionLoop fuel temp header = (temp, header) := by
  cases fuel with
  | zero => rfl
  | succ fuel =>
    unfold dispositionLoop
    rw [find_of_notMem h, if_neg (by decide)]

theorem formData_eq : formData = ascii "Content-Disposition: form-data" ++ [semicolon, 32] := by decide

theorem length_formData : formData.length = 32 := by decide

theorem parseLine_formData (post : Bytes) (h : ItemHeader) :
    h.parseLine (formData ++ post) =
      let rest := dispositionLoop (post.length + 1) post h
      rest.2.setDisposition (substring rest.1 0 (bound rest.1 (find rest.1 equals)))
        (substring rest.1 (bound rest.1 (find rest.1 equals + 2)) (bound rest.1 (rest.1.length - 1))) := by
  have hfind : find (formData ++ post) semicolon = ((30 : Nat) : Int) := by
    have hpre : ∀ b ∈ ascii "Content-Disposition: form-data", b ≠ semicolon ∧ b ≠ 0 :=
      List.all_iff_forall_prop.mp (by decide)
    rw [formData_eq, List.append_assoc]
    exact find_append hpre (by decide) (32 :: post)
  have htake : ∀ n ≤ 32, substring (formData ++ post) 0 n = formData.take n := by
    intro n hn
    unfold substring
    rw [Nat.zero_max, Nat.zero_min, List.drop_zero,
      List.take_append_of_le_length (by rwa [length_formData])]
  have hrest : substringFrom (formData ++ post) 32 = post := by
    unfold substringFrom
    rw [← length_formData, List.drop_left]
  have hlength : (formData ++ post).length = 32 + post.length := by
    rw [List.length_append, length_formData]
  have htype : ¬ equalsIgnoreCase (formData.take 12) (ascii "Content-Type") = true := by decide
  have hline : equalsIgnoreCase (formData.take 19) (ascii "Content-Disposition") = true := by decide
  have hstart : ((30 : Nat) : Int) + 2 = ((32 : Nat) : Int) := rfl
  unfold parseLine
  rw [htake 12 (by decide), htake 19 (by decide), hlength, if_neg fun hin => htype hin.2,
    if_pos ⟨by omega, hline⟩]
  unfold parseDisposition
  rw [hfind, hstart, bound_natCast, hrest]

/-- The headers of a part are read back. -/
theorem parseLine_disposition {boundary : Boundary} {part : FormPart} (hpart : part.WellFormed boundary)
    (h : ItemHeader) :
    h.parseLine part.disposition = match part.file with
      | none => { h with itemName := part.name }
      | some file =>
        { h with itemName := part.name, itemFilename := file.filename, itemIsFile := true } := by
  have hname : semicolon ∉ part.name := fun hin => (hpart.name _ hin).1 rfl
  unfold disposition
  cases hfile : part.file with
  | none =>
    dsimp only
    rw [List.append_nil, parseLine_formData]
    dsimp only
    rw [dispositionLoop_last (notMem_field (by decide) (by decide) (by decide) hname)]
    exact setDisposition_last key_name h
  | some file =>
    have hfilename : semicolon ∉ file.filename := fun hin => (hpart.filename file hfile _ hin).1 rfl
    have hfield : ∀ b ∈ field (ascii "name") part.name, b ≠ semicolon ∧ b ≠ 0 := by
      intro b hb
      refine ⟨fun hin => notMem_field (by decide) (by decide) (by decide) hname (hin ▸ hb), ?_⟩
      unfold field at hb
      simp only [List.mem_append, List.mem_cons, List.not_mem_nil, or_false] at hb
      rcases hb with (hb | rfl | rfl | hb) | rfl
      · exact (key_name b hb).2
      · decide
      · decide
      · exact (hpart.name b hb).2.2.2
      · decide
    dsimp only
    rw [List.append_assoc, parseLine_formData]
    dsimp only
    rw [← List.append_assoc, dispositionLoop_field key_name hfield,
      dispositionLoop_last (notMem_field (by decide) (by decide) (by decide) hfilename)]
    exact setDisposition_last key_filename _

theorem parseLine_type (type : Bytes) (h : ItemHeader) :
    h.parseLine (ascii "Content-Type: " ++ type) = { h with itemType := type, itemIsFile := true } := by
  have hlong : (ascii "Content-Type: ").length = 14 := by decide
  have htake : substring (ascii "Content-Type: " ++ type) 0 12 = ascii "Content-Type" := by
    unfold substring
    rw [Nat.zero_max, Nat.zero_min, List.drop_zero, List.take_append_of_le_length (by decide)]
    decide
  have hrest : substringFrom (ascii "Content-Type: " ++ type) 14 = type := by
    unfold substringFrom
    rw [← hlong, List.drop_left]
  have hsame : equalsIgnoreCase (ascii "Content-Type") (ascii "Content-Type") = true := by decide
  unfold parseLine
  rw [htake, hrest, List.length_append, hlong, if_pos ⟨by omega, hsame⟩]

end headers

/-! ## 3. What becomes of a part -/

namespace BodyParser

section part

variable {s : BodyParser} {boundary : Boundary} {part : FormPart}

theorem notMem_disposition (hpart : part.WellFormed boundary) {c : UInt8} (hc : c = cr ∨ c = lf) :
    c ∉ part.disposition := by
  have hname : c ∉ part.name := fun hin => by
    obtain ⟨-, hcr, hlf, -⟩ := hpart.name c hin
    exact hc.elim hcr hlf
  have hfilename : ∀ file, part.file = some file → c ∉ file.filename := fun file hfile hin => by
    obtain ⟨-, hcr, hlf, -⟩ := hpart.filename file hfile c hin
    exact hc.elim hcr hlf
  have hfixed : c ∉ FormPart.formData ∧ c ∉ ascii "name" ∧ c ∉ ascii "; " ∧ c ∉ ascii "filename" ∧
      c ≠ equals ∧ c ≠ dquote := by
    rcases hc with rfl | rfl <;> decide
  obtain ⟨hdata, hkey, hsep, hkey', hequals, hquote⟩ := hfixed
  unfold FormPart.disposition
  rw [List.mem_append, List.mem_append, not_or, not_or]
  refine ⟨⟨hdata, notMem_field hkey hequals hquote hname⟩, ?_⟩
  cases hfile : part.file with
  | none => exact List.not_mem_nil
  | some file =>
    rw [List.mem_append, not_or]
    exact ⟨hsep, notMem_field hkey' hequals hquote (hfilename file hfile)⟩

/-- The headers of a part. -/
theorem feed_headers (hpart : part.WellFormed boundary) (hstate : s.state = .parseHeaders)
    (hlength : 0 < s.parsedLength) (htemp : s.temp = []) {bytes : List (UInt8 × Bool)}
    (hbytes : bytes.map Prod.fst = part.headers ++ [cr, lf]) :
    feedAll boundary.text s bytes =
      (s.headed (part.header s.header)).startItem.heard [] bytes.length := by
  have hdisposition : part.disposition ≠ [] := by
    unfold FormPart.disposition FormPart.formData
    simp [ascii]
  have hline := parseLine_disposition hpart s.header
  have hstart : s = (s.headed s.header).heard [] 0 := by
    unfold headed heard
    rw [← htemp]
    rfl
  -- what a line does after others
  have hnext : ∀ (h : ItemHeader) (n : Nat) (line : Bytes) (bytes : List (UInt8 × Bool)), line ≠ [] →
      cr ∉ line → lf ∉ line → bytes.map Prod.fst = line ++ [cr, lf] →
      feedAll boundary.text ((s.headed h).heard [] n) bytes =
        (s.headed (h.parseLine line)).heard [] (n + bytes.length) := by
    intro h n line bytes hne hcr hlf hbytes
    rw [feed_line (s := (s.headed h).heard [] n) hstate (heard_pos (s := s.headed h) hlength _ _) rfl hne
      hcr hlf hbytes, headed_heard, heard_heard]
    rfl
  have hend : ∀ (h : ItemHeader) (n : Nat) (bytes : List (UInt8 × Bool)), bytes.map Prod.fst = [cr, lf] →
      feedAll boundary.text ((s.headed h).heard [] n) bytes =
        (s.headed h).startItem.heard [] (n + bytes.length) := by
    intro h n bytes hbytes
    rw [feed_end (s := (s.headed h).heard [] n) hstate (heard_pos (s := s.headed h) hlength _ _) rfl hbytes]
    exact heard_heard _ _ _ _ (s.headed h).startItem
  unfold FormPart.headers at hbytes
  rw [List.append_assoc] at hbytes
  obtain ⟨line, ends, rfl, hline', hends⟩ := List.map_eq_append_iff.mp hbytes
  have hfirst := hnext s.header 0 part.disposition line hdisposition (notMem_disposition hpart (.inl rfl))
    (notMem_disposition hpart (.inr rfl)) hline'
  rw [← hstart, Nat.zero_add, hline] at hfirst
  rw [feedAll_append, hfirst, List.length_append]
  unfold FormPart.header
  cases hfile : part.file with
  | none =>
    rw [hfile, List.nil_append] at hends
    exact hend _ _ _ hends
  | some file =>
    obtain ⟨hcr, hlf⟩ := hpart.type file hfile
    have hcr' : cr ∉ ascii "Content-Type: " ++ file.type := by
      rw [List.mem_append, not_or]
      exact ⟨by decide, hcr⟩
    have hlf' : lf ∉ ascii "Content-Type: " ++ file.type := by
      rw [List.mem_append, not_or]
      exact ⟨by decide, hlf⟩
    have hne : ascii "Content-Type: " ++ file.type ≠ [] := fun h => by
      have hnil := (List.append_eq_nil_iff.mp h).1
      exact absurd hnil (by decide)
    rw [hfile] at hends
    obtain ⟨second, last, rfl, hsecond, hlast⟩ := List.map_eq_append_iff.mp hends
    dsimp only
    rw [feedAll_append, hnext _ _ _ _ hne hcr' hlf' hsecond, parseLine_type, hend _ _ _ hlast,
      List.length_append, Nat.add_assoc]

/-- The bytes of a field are its value. -/
theorem written_text (hfile : s.header.itemIsFile = false) (bytes : List (UInt8 × Bool)) :
    (s.written bytes).endItem.params =
        s.params ++ [⟨s.header.itemName, s.itemValue ++ bytes.map Prod.fst, true, false⟩] ∧
      (s.written bytes).endItem.uploads = s.uploads := by
  induction bytes generalizing s with
  | nil =>
    have hend : s.endItem =
        { s with params := s.params ++ [⟨s.header.itemName, s.itemValue, true, false⟩] } := by
      unfold endItem
      rw [hfile]
      rfl
    show s.endItem.params = _ ∧ s.endItem.uploads = _
    rw [hend, List.map_nil, List.append_nil]
    exact ⟨rfl, rfl⟩
  | cons b bytes ih =>
    have hwrite : s.itemWriteByte b.2 b.1 = { s with
        item := { s.item with itemSize := s.item.itemSize + 1 }, itemValue := s.itemValue ++ [b.1] } := by
      unfold itemWriteByte
      rw [hfile]
      rfl
    show ((s.itemWriteByte b.2 b.1).written bytes).endItem.params = _ ∧
      ((s.itemWriteByte b.2 b.1).written bytes).endItem.uploads = _
    have hnext := ih (s := s.itemWriteByte b.2 b.1) (by rw [hwrite]; exact hfile)
    rw [hwrite] at hnext ⊢
    simpa using hnext

/-- The bytes of a file are handed over. -/
theorem written_file (hfile : s.header.itemIsFile = true) (bytes : List (UInt8 × Bool)) :
    (s.written bytes).endItem.params = (if s.item.itemSize + bytes.length = 0 then s.params
        else s.params ++ [⟨s.header.itemName, s.header.itemFilename, true, true⟩]) ∧
      (s.written bytes).endItem.uploads = s.uploads ++
        (deliverFrom s.item bytes).map (⟨s.params, s.header.itemFilename, ·⟩) := by
  induction bytes generalizing s with
  | nil =>
    show s.endItem.params = _ ∧ s.endItem.uploads = _
    unfold endItem deliverFrom
    rw [hfile, List.length_nil, Nat.add_zero]
    by_cases hsize : s.item.itemSize = 0
    · simp [hsize]
    · simp [hsize]
  | cons b bytes ih =>
    have hwrite : s.itemWriteByte b.2 b.1 = { s with
        item := (handleUploadByte s.item b.1 b.2).1
        uploads := s.uploads ++ (handleUploadByte s.item b.1 b.2).2.map
          (⟨s.params, s.header.itemFilename, ·⟩) } := by
      unfold itemWriteByte
      rw [hfile]
      rfl
    have hsize : (handleUploadByte s.item b.1 b.2).1.itemSize = s.item.itemSize + 1 := by
      unfold handleUploadByte
      dsimp only
      split_ifs <;> rfl
    show ((s.itemWriteByte b.2 b.1).written bytes).endItem.params = _ ∧
      ((s.itemWriteByte b.2 b.1).written bytes).endItem.uploads = _
    have hnext := ih (s := s.itemWriteByte b.2 b.1) (by rw [hwrite]; exact hfile)
    rw [hwrite] at hnext ⊢
    refine ⟨hnext.1.trans ?_, hnext.2.trans ?_⟩
    · dsimp only
      rw [hsize, List.length_cons, Nat.add_assoc, Nat.add_comm 1]
    · show _ = s.uploads ++ ((handleUploadByte s.item b.1 b.2).2 ++
        deliverFrom (handleUploadByte s.item b.1 b.2).1 bytes).map _
      rw [List.map_append, List.append_assoc]

/-- What a part leaves behind it. -/
structure PartRead (part : FormPart) (count : Nat) (s t : BodyParser) : Prop where
  state : t.state = .dash3OrReturn2
  temp : t.temp = []
  parsedLength : t.parsedLength = s.parsedLength + count
  params : t.params = s.params ++ part.params
  uploads : ∃ flagged, flagged.map Prod.fst = part.content ∧
    t.uploads = s.uploads ++ part.calls s.params flagged

theorem written_frame (s : BodyParser) (bytes : List (UInt8 × Bool)) :
    (s.written bytes).endItem.temp = s.temp := by
  induction bytes generalizing s with
  | nil =>
    show s.endItem.temp = s.temp
    unfold endItem
    split_ifs <;> rfl
  | cons b bytes ih =>
    refine (ih (s.itemWriteByte b.2 b.1)).trans ?_
    unfold itemWriteByte
    split_ifs <;> rfl

/-- A part, from its headers to the boundary behind it. -/
theorem feed_part (hpart : part.WellFormed boundary) (hstate : s.state = .parseHeaders)
    (hlength : 0 < s.parsedLength) (htemp : s.temp = []) (hfile : s.header.itemIsFile = false)
    {bytes : List (UInt8 × Bool)} (hbytes : bytes.map Prod.fst = part.text boundary) :
    PartRead part bytes.length s (feedAll boundary.text s bytes) := by
  unfold FormPart.text at hbytes
  obtain ⟨first, rest, rfl, hfirst, hrest⟩ := List.map_eq_append_iff.mp hbytes
  have hheaders := feed_headers hpart hstate hlength htemp hfirst
  obtain ⟨flagged, position, hflagged, hfed⟩ :=
    reads_content (s := (s.headed (part.header s.header)).startItem.heard [] first.length)
      (Delimiter.reads_of_not_infix hpart.content) hrest
      (heard_pos (s := (s.headed (part.header s.header)).startItem) hlength _ _) rfl (Nat.succ_pos _)
  rw [feedAll_append, hheaders, hfed]
  generalize ht : (s.headed (part.header s.header)).startItem.heard [] first.length = t at *
  have hheader : t.header = part.header s.header := by
    rw [← ht]
    rfl
  have hparams : t.params = s.params := by
    rw [← ht]
    rfl
  have huploads : t.uploads = s.uploads := by
    rw [← ht]
    rfl
  have hitem : t.item = ⟨0, []⟩ ∧ t.itemValue = [] := by
    rw [← ht]
    exact ⟨rfl, rfl⟩
  have htlength : t.parsedLength = s.parsedLength + first.length := by
    rw [← ht]
    rfl
  have htemp' : t.temp = [] := by
    rw [← ht]
    rfl
  have hcount : t.parsedLength + rest.length = s.parsedLength + (first ++ rest).length := by
    rw [htlength, List.length_append, Nat.add_assoc]
  have hwritten : (t.written flagged).endItem.params = s.params ++ part.params ∧
      (t.written flagged).endItem.uploads = s.uploads ++ part.calls s.params flagged := by
    unfold FormPart.header at hheader
    unfold FormPart.params FormPart.calls
    cases hpartfile : part.file with
    | none =>
      rw [hpartfile] at hheader
      have htext := written_text (s := t) (by rw [hheader]; exact hfile) flagged
      rw [hparams, huploads, hheader, hitem.2, List.nil_append, hflagged] at htext
      exact ⟨htext.1, by rw [htext.2, List.append_nil]⟩
    | some file =>
      rw [hpartfile] at hheader
      have hfile' := written_file (s := t) (by rw [hheader]) flagged
      rw [hparams, huploads, hheader, hitem.1, Nat.zero_add] at hfile'
      refine ⟨hfile'.1.trans ?_, hfile'.2⟩
      have hnil : flagged.length = 0 ↔ part.content = [] := by
        rw [← hflagged, List.length_eq_zero_iff, List.map_eq_nil_iff]
      dsimp only
      by_cases hcontent : part.content = []
      · rw [if_pos (hnil.mpr hcontent), if_pos hcontent, List.append_nil]
      · rw [if_neg (mt hnil.mp hcontent), if_neg hcontent]
  exact {
    state := rfl
    temp := (written_frame t flagged).trans htemp'
    parsedLength := hcount
    params := hwritten.1
    uploads := ⟨flagged, hflagged, hwritten.2⟩ }

end part

end BodyParser

end AsyncWebServerRequest

end Handheld
