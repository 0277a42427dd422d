import Handheld.DelimiterScan
import Handheld.WebRequest

/-!
# Multipart bodies (`ESPAsyncWebServer/src/WebRequest.cpp`)

`_parseMultipartPostByte` reads the body of a form byte by byte. What could be the
beginning of the boundary is held back, and given to the field or the file when it
turns out not to be.

A boundary has no CR and at most 70 bytes, as a browser's has; the one-byte
counters of the source do not overflow on it. The buffer of a file is freed when
its boundary is found: a boundary that then goes on in an unknown way, where the
source writes to the freed buffer, is not followed.

Result: `reads_content`. The content of a field or a file is read up to the
boundary.
-/

namespace Handheld

open ByteString PercentCoding DelimiterScan

namespace AsyncWebServerRequest

/-! ## Definitions -/

def cr : UInt8 := 13
def lf : UInt8 := 10
def dash : UInt8 := '-'.toUInt8
def semicolon : UInt8 := ';'.toUInt8
def dquote : UInt8 := '"'.toUInt8

structure Boundary where
  text : Bytes
  nonempty : 0 < text.length
  short : text.length ≤ 70
  noCr : cr ∉ text

inductive MultiParseState
  | expectBoundary
  | parseHeaders
  | waitForReturn1
  | expectFeed1
  | expectDash1
  | expectDash2
  | boundaryOrData
  | dash3OrReturn2
  | expectFeed2
  | parsingFinished
  | parseError
deriving DecidableEq, Repr

/-- A call of the upload callback, with the parameters known to the request then. -/
structure UploadCall where
  params : List Param
  filename : Bytes
  chunk : Chunk
deriving DecidableEq, Repr

/-- What the headers of a part say. -/
structure ItemHeader where
  itemName : Bytes
  itemFilename : Bytes
  itemType : Bytes
  itemIsFile : Bool
deriving DecidableEq, Repr

namespace ItemHeader

/-- The search of `String::indexOf`, which ends at a NUL. -/
def find (s : Bytes) (c : UInt8) : Int := indexOf (cstr s) c 0

/-- A bound of a substring of `s`; as an `unsigned int`, a negative one lies
beyond the end. -/
def bound (s : Bytes) (i : Int) : Nat := if i < 0 then s.length else i.toNat

/-- A parameter of the `Content-Disposition` line. -/
def setDisposition (name value : Bytes) (h : ItemHeader) : ItemHeader :=
  if name = ascii "name" then { h with itemName := value }
  else if name = ascii "filename" then { h with itemFilename := value, itemIsFile := true }
  else h

/-- `while (_temp.indexOf(';') > 0)`. Every turn shortens the text. -/
def dispositionLoop : Nat → Bytes → ItemHeader → Bytes × ItemHeader
  | 0, temp, h => (temp, h)
  | fuel + 1, temp, h =>
    if 0 < find temp semicolon then
      let name := substring temp 0 (bound temp (find temp equals))
      let value := substring temp (bound temp (find temp equals + 2)) (bound temp (find temp semicolon - 1))
      dispositionLoop fuel (substringFrom temp (bound temp (find temp semicolon + 2)))
        (h.setDisposition name value)
    else (temp, h)

/-- The `Content-Disposition` line. -/
def parseDisposition (line : Bytes) (h : ItemHeader) : ItemHeader :=
  let temp := substringFrom line (bound line (find line semicolon + 2))
  let rest := dispositionLoop (temp.length + 1) temp h
  rest.2.setDisposition (substring rest.1 0 (bound rest.1 (find rest.1 equals)))
    (substring rest.1 (bound rest.1 (find rest.1 equals + 2)) (bound rest.1 (rest.1.length - 1)))

/-- One line of the headers of a part. -/
def parseLine (line : Bytes) (h : ItemHeader) : ItemHeader :=
  if 12 < line.length ∧ equalsIgnoreCase (substring line 0 12) (ascii "Content-Type") then
    { h with itemType := substringFrom line 14, itemIsFile := true }
  else if 19 < line.length ∧ equalsIgnoreCase (substring line 0 19) (ascii "Content-Disposition") then
    h.parseDisposition line
  else h

end ItemHeader

/-- The members of `AsyncWebServerRequest` that the parser of a body uses, and the
calls of the upload callback so far. -/
structure BodyParser where
  state : MultiParseState
  parsedLength : Nat
  contentLength : Nat
  temp : Bytes
  header : ItemHeader
  itemValue : Bytes
  item : ItemState
  boundaryPosition : Nat
  params : List Param
  uploads : List UploadCall

namespace BodyParser

def goto (state : MultiParseState) (s : BodyParser) : BodyParser := { s with state := state }

/-- `itemWriteByte`. -/
def itemWriteByte (last : Bool) (s : BodyParser) (b : UInt8) : BodyParser :=
  if s.header.itemIsFile then
    let next := handleUploadByte s.item b last
    { s with
      item := next.1
      uploads := s.uploads ++ next.2.map (⟨s.params, s.header.itemFilename, ·⟩) }
  else
    { s with
      item := { s.item with itemSize := s.item.itemSize + 1 }
      itemValue := s.itemValue ++ [b] }

def itemWriteBytes (last : Bool) (bytes : Bytes) (s : BodyParser) : BodyParser :=
  bytes.foldl (itemWriteByte last) s

/-- The branch of `WAIT_FOR_RETURN1`. -/
def waitForReturn1 (data : UInt8) (last : Bool) (s : BodyParser) : BodyParser :=
  if data ≠ cr then s.itemWriteByte last data else s.goto .expectFeed1

/-- What was held back is data, and the byte is looked at again. -/
def notBoundary (held : Bytes) (data : UInt8) (last : Bool) (s : BodyParser) : BodyParser :=
  ((s.goto .waitForReturn1).itemWriteBytes last held).waitForReturn1 data last

/-- The content of a part begins. -/
def startItem (s : BodyParser) : BodyParser :=
  { s with state := .waitForReturn1, item := ⟨0, []⟩, itemValue := [] }

/-- The branch of `PARSE_HEADERS`. -/
def parseHeaders (data : UInt8) (s : BodyParser) : BodyParser :=
  let temp := if data ≠ cr ∧ data ≠ lf then s.temp ++ [data] else s.temp
  if data = lf then
    if temp ≠ [] then { s with header := s.header.parseLine temp, temp := [] }
    else { s with temp := temp }.startItem
  else { s with temp := temp }

/-- The headers of a part begin. -/
def startHeaders (s : BodyParser) : BodyParser :=
  { s with state := .parseHeaders, header := { s.header with itemIsFile := false } }

/-- The branch of `EXPECT_BOUNDARY`. -/
def expectBoundary (boundary : Bytes) (data : UInt8) (s : BodyParser) : BodyParser :=
  if s.parsedLength < 2 ∧ data ≠ dash then s.goto .parseError
  else if 2 ≤ s.parsedLength ∧ s.parsedLength - 2 < boundary.length ∧
      boundary[s.parsedLength - 2]? ≠ some data then s.goto .parseError
  else if 2 ≤ s.parsedLength ∧ s.parsedLength - 2 = boundary.length ∧ data ≠ cr then s.goto .parseError
  else if 3 ≤ s.parsedLength ∧ s.parsedLength - 3 = boundary.length then
    if data ≠ lf then s.goto .parseError
    else s.startHeaders
  else s

/-- The content of a part ends. -/
def endItem (s : BodyParser) : BodyParser :=
  if !s.header.itemIsFile then
    { s with params := s.params ++ [⟨s.header.itemName, s.itemValue, true, false⟩] }
  else if s.item.itemSize ≠ 0 then
    let chunk : Chunk := ⟨s.item.itemSize - s.item.itemBuffer.length, s.item.itemBuffer, true⟩
    { s with
      uploads := s.uploads ++ [⟨s.params, s.header.itemFilename, chunk⟩]
      item := { s.item with itemBuffer := [] }
      params := s.params ++ [⟨s.header.itemName, s.header.itemFilename, true, true⟩] }
  else s

/-- What the parser holds back when it has seen as much of the boundary. -/
def held (boundary : Bytes) (position : Nat) : Bytes := [cr, lf, dash, dash] ++ boundary.take position

/-- The branch of `BOUNDARY_OR_DATA`. -/
def boundaryOrData (boundary : Bytes) (data : UInt8) (last : Bool) (s : BodyParser) : BodyParser :=
  if s.boundaryPosition < boundary.length ∧ boundary[s.boundaryPosition]? ≠ some data then
    s.notBoundary (held boundary s.boundaryPosition) data last
  else if s.boundaryPosition = boundary.length - 1 then (s.goto .dash3OrReturn2).endItem
  else { s with boundaryPosition := s.boundaryPosition + 1 }

/-- The branch of `DASH3_OR_RETURN2`. A dash closes the request, if need be before
its announced end. -/
def dash3OrReturn2 (boundary : Bytes) (data : UInt8) (last : Bool) (s : BodyParser) : BodyParser :=
  if data = dash then { s with contentLength := s.parsedLength + 4 }.goto .parsingFinished
  else if data = cr then s.goto .expectFeed2
  else s.notBoundary (held boundary boundary.length) data last

/-- The branches of `_parseMultipartPostByte`. -/
def dispatch (boundary : Bytes) (data : UInt8) (last : Bool) (s : BodyParser) : BodyParser :=
  match s.state with
  | .waitForReturn1 => s.waitForReturn1 data last
  | .expectBoundary => s.expectBoundary boundary data
  | .parseHeaders => s.parseHeaders data
  | .expectFeed1 => if data ≠ lf then s.notBoundary [cr] data last else s.goto .expectDash1
  | .expectDash1 => if data ≠ dash then s.notBoundary [cr, lf] data last else s.goto .expectDash2
  | .expectDash2 =>
    if data ≠ dash then s.notBoundary [cr, lf, dash] data last
    else { s with state := .boundaryOrData, boundaryPosition := 0 }
  | .boundaryOrData => s.boundaryOrData boundary data last
  | .dash3OrReturn2 => s.dash3OrReturn2 boundary data last
  | .expectFeed2 =>
    if data = lf then s.startHeaders
    else s.notBoundary (held boundary boundary.length ++ [cr]) data last
  | .parsingFinished => s
  | .parseError => s

/-- The state before the first byte. -/
def startBody (s : BodyParser) : BodyParser :=
  { s with
    state := .expectBoundary
    temp := []
    header := { s.header with itemName := [], itemFilename := [], itemType := [] } }

/-- `_parseMultipartPostByte`. -/
def parseMultipartPostByte (boundary : Bytes) (data : UInt8) (last : Bool) (s : BodyParser) :
    BodyParser :=
  (if s.parsedLength = 0 then s.startBody else s).dispatch boundary data last

/-- A byte of the body in `_onData`. -/
def feed (boundary : Bytes) (s : BodyParser) (b : UInt8 × Bool) : BodyParser :=
  let parsed := s.parseMultipartPostByte boundary b.1 b.2
  { parsed with parsedLength := parsed.parsedLength + 1 }

def feedAll (boundary : Bytes) (s : BodyParser) (bytes : List (UInt8 × Bool)) : BodyParser :=
  bytes.foldl (feed boundary) s

/-! ## 1. The content of a part -/

section content

variable {s : BodyParser} {boundary : Boundary}

def moved (state : MultiParseState) (parsedLength boundaryPosition : Nat) (s : BodyParser) : BodyParser :=
  { s with state := state, parsedLength := parsedLength, boundaryPosition := boundaryPosition }

/-- The bytes of a part, each with the flag that it was written with. -/
def written (s : BodyParser) (bytes : List (UInt8 × Bool)) : BodyParser :=
  bytes.foldl (fun s b => s.itemWriteByte b.2 b.1) s

theorem itemWriteByte_moved (last : Bool) (state : MultiParseState) (length position : Nat)
    (s : BodyParser) (b : UInt8) :
    (s.moved state length position).itemWriteByte last b =
      (s.itemWriteByte last b).moved state length position := by
  unfold itemWriteByte
  show (if s.header.itemIsFile then _ else _) = _
  split_ifs <;> rfl

theorem written_moved (state : MultiParseState) (length position : Nat) (bytes : List (UInt8 × Bool))
    (s : BodyParser) :
    (s.moved state length position).written bytes = (s.written bytes).moved state length position := by
  induction bytes generalizing s with
  | nil => rfl
  | cons b bytes ih =>
    show ((s.moved state length position).itemWriteByte b.2 b.1).written bytes = _
    rw [itemWriteByte_moved, ih]
    rfl

theorem endItem_moved (state : MultiParseState) (length position : Nat) (s : BodyParser) :
    (s.moved state length position).endItem = s.endItem.moved state length position := by
  unfold endItem
  show (if !s.header.itemIsFile then _ else if s.item.itemSize ≠ 0 then _ else _) = _
  split_ifs <;> rfl

theorem written_append (s : BodyParser) (xs ys : List (UInt8 × Bool)) :
    s.written (xs ++ ys) = (s.written xs).written ys :=
  List.foldl_append

theorem itemWriteBytes_eq (last : Bool) (bytes : Bytes) (s : BodyParser) :
    s.itemWriteBytes last bytes = s.written (bytes.map (·, last)) :=
  (List.foldl_map (f := (·, last)) (g := fun s b => itemWriteByte b.2 s b.1)).symm

/-- CR LF, two dashes and the boundary. -/
def delimiter (boundary : Boundary) : Delimiter UInt8 where
  first := cr
  rest := [lf, dash, dash] ++ boundary.text
  fresh := by
    rw [List.mem_append, not_or]
    exact ⟨by decide, boundary.noCr⟩

/-- In this state, and at this position, the parser has seen as many bytes of the
delimiter. -/
def Holds : Nat → MultiParseState → Nat → Prop
  | 0, state, _ => state = .waitForReturn1
  | 1, state, _ => state = .expectFeed1
  | 2, state, _ => state = .expectDash1
  | 3, state, _ => state = .expectDash2
  | matched + 4, state, position => state = .boundaryOrData ∧ position = matched

theorem map_fst_flag (bytes : Bytes) (last : Bool) : (bytes.map (·, last)).map Prod.fst = bytes := by
  rw [List.map_map]
  exact List.map_id bytes

theorem text_delimiter (boundary : Boundary) :
    (delimiter boundary).text = [cr, lf, dash, dash] ++ boundary.text := rfl

theorem take_delimiter (boundary : Boundary) (position : Nat) :
    (delimiter boundary).text.take (position + 4) = held boundary.text position := by
  rw [text_delimiter, List.take_append]
  simp [held]

theorem notBoundary_cr (bytes : Bytes) (last : Bool) (s : BodyParser) :
    s.notBoundary bytes cr last =
      (s.written (bytes.map (·, last))).moved .expectFeed1 s.parsedLength s.boundaryPosition := by
  unfold notBoundary
  rw [itemWriteBytes_eq]
  show ((s.moved .waitForReturn1 s.parsedLength s.boundaryPosition).written _).waitForReturn1 cr last = _
  rw [written_moved]
  exact if_neg (not_not.mpr rfl)

theorem notBoundary_of_ne (bytes : Bytes) {data : UInt8} (h : data ≠ cr) (last : Bool) (s : BodyParser) :
    s.notBoundary bytes data last = (s.written ((bytes ++ [data]).map (·, last))).moved .waitForReturn1
      s.parsedLength s.boundaryPosition := by
  unfold notBoundary
  rw [itemWriteBytes_eq, List.map_append, written_append]
  show ((s.moved .waitForReturn1 s.parsedLength s.boundaryPosition).written _).waitForReturn1 data last = _
  rw [written_moved]
  refine (if_pos h).trans ?_
  exact itemWriteByte_moved last _ _ _ _ data

/-- A byte with which the delimiter does not go on. -/
theorem dispatch_mismatch {matched : Nat} {data : UInt8} (hmatched : matched < (delimiter boundary).text.length)
    (hholds : Holds matched s.state s.boundaryPosition) (hne : (delimiter boundary).text[matched]? ≠ some data) (last : Bool) :
    s.dispatch boundary.text data last =
      s.notBoundary ((delimiter boundary).text.take matched) data last := by
  unfold dispatch
  match matched, hholds with
  | 0, hstate =>
    have hgoto : s.goto .waitForReturn1 = s := by
      unfold goto
      rw [← hstate]
    show _ = (s.goto .waitForReturn1).waitForReturn1 data last
    rw [hgoto, hstate]
  | 1, hstate =>
    have hdata : data ≠ lf := fun h => hne (h ▸ rfl)
    rw [hstate]
    exact if_pos hdata
  | 2, hstate =>
    have hdata : data ≠ dash := fun h => hne (h ▸ rfl)
    rw [hstate]
    exact if_pos hdata
  | 3, hstate =>
    have hdata : data ≠ dash := fun h => hne (h ▸ rfl)
    rw [hstate]
    exact if_pos hdata
  | position + 4, ⟨hstate, hposition⟩ =>
    have hlt : position < boundary.text.length := by
      rw [text_delimiter, List.length_append] at hmatched
      simp only [List.length_cons, List.length_nil] at hmatched
      omega
    have hdata : boundary.text[position]? ≠ some data := hne
    rw [hstate, take_delimiter]
    dsimp only
    unfold boundaryOrData
    rw [hposition, if_pos ⟨hlt, hdata⟩]

/-- A byte with which it goes on, but not to its end. -/
theorem dispatch_fits {matched : Nat} {data : UInt8} (hholds : Holds matched s.state s.boundaryPosition)
    (hfits : (delimiter boundary).text[matched]? = some data)
    (hmore : matched + 1 < (delimiter boundary).text.length) (last : Bool) :
    ∃ state position, s.dispatch boundary.text data last = s.moved state s.parsedLength position ∧
      Holds (matched + 1) state position := by
  unfold dispatch
  match matched, hholds with
  | 0, hstate =>
    obtain rfl : cr = data := Option.some_inj.mp hfits
    rw [hstate]
    exact ⟨.expectFeed1, s.boundaryPosition, if_neg (not_not.mpr rfl), rfl⟩
  | 1, hstate =>
    obtain rfl : lf = data := Option.some_inj.mp hfits
    rw [hstate]
    exact ⟨.expectDash1, s.boundaryPosition, if_neg (not_not.mpr rfl), rfl⟩
  | 2, hstate =>
    obtain rfl : dash = data := Option.some_inj.mp hfits
    rw [hstate]
    exact ⟨.expectDash2, s.boundaryPosition, if_neg (not_not.mpr rfl), rfl⟩
  | 3, hstate =>
    obtain rfl : dash = data := Option.some_inj.mp hfits
    rw [hstate]
    exact ⟨.boundaryOrData, 0, if_neg (not_not.mpr rfl), rfl, rfl⟩
  | position + 4, ⟨hstate, hposition⟩ =>
    have hdata : boundary.text[position]? = some data := hfits
    have hlast : s.boundaryPosition ≠ boundary.text.length - 1 := by
      rw [text_delimiter, List.length_append] at hmore
      simp only [List.length_cons, List.length_nil] at hmore
      omega
    refine ⟨.boundaryOrData, position + 1, ?_, rfl, rfl⟩
    rw [hstate]
    dsimp only
    unfold boundaryOrData
    rw [if_neg fun h => h.2 (by rw [hposition, hdata]), if_neg hlast]
    unfold moved
    rw [hposition, ← hstate]

/-- The end of the delimiter. -/
theorem dispatch_found {matched : Nat} {data : UInt8} (hholds : Holds matched s.state s.boundaryPosition)
    (hfits : (delimiter boundary).text[matched]? = some data)
    (hall : matched + 1 = (delimiter boundary).text.length) (last : Bool) :
    s.dispatch boundary.text data last =
      s.endItem.moved .dash3OrReturn2 s.parsedLength s.boundaryPosition := by
  have hpos := boundary.nonempty
  rw [text_delimiter, List.length_append] at hall
  simp only [List.length_cons, List.length_nil] at hall
  obtain ⟨position, rfl⟩ : ∃ position, matched = position + 4 := ⟨matched - 4, by omega⟩
  obtain ⟨hstate, hposition⟩ := hholds
  have hdata : boundary.text[position]? = some data := hfits
  unfold dispatch
  rw [hstate]
  dsimp only
  unfold boundaryOrData
  rw [if_neg fun h => h.2 (by rw [hposition, hdata]), if_pos (by omega)]
  exact endItem_moved .dash3OrReturn2 s.parsedLength s.boundaryPosition s

theorem feed_of_dispatch (hlength : 0 < s.parsedLength) {text : Bytes} {b : UInt8 × Bool} {t : BodyParser}
    {state : MultiParseState} {length position : Nat}
    (h : s.dispatch text b.1 b.2 = t.moved state length position) :
    feed text s b = t.moved state (length + 1) position := by
  unfold feed parseMultipartPostByte
  rw [if_neg (Nat.ne_of_gt hlength), h]
  rfl

theorem feedAll_cons (text : Bytes) (s : BodyParser) (b : UInt8 × Bool) (bytes : List (UInt8 × Bool)) :
    feedAll text s (b :: bytes) = feedAll text (feed text s b) bytes := rfl

theorem feedAll_append (text : Bytes) (s : BodyParser) (xs ys : List (UInt8 × Bool)) :
    feedAll text s (xs ++ ys) = feedAll text (feedAll text s xs) ys :=
  List.foldl_append

/-- What was read before goes in front. -/
theorem endItem_written {t : BodyParser} {state : MultiParseState} {before flagged : List (UInt8 × Bool)}
    {length position length' position' : Nat}
    (h : t = (((s.written before).moved state length position).written flagged).endItem.moved
      .dash3OrReturn2 length' position') :
    t = (s.written (before ++ flagged)).endItem.moved .dash3OrReturn2 length' position' := by
  rw [h, written_moved, endItem_moved, written_append]
  rfl

/-- The content of a part, up to its boundary: all of it is written, in its order. -/
theorem reads_content {matched : Nat} {stream data : Bytes}
    (hreads : (delimiter boundary).Reads matched stream data) {bytes : List (UInt8 × Bool)}
    (hbytes : bytes.map Prod.fst = stream) (hlength : 0 < s.parsedLength) (hholds : Holds matched s.state s.boundaryPosition)
    (hmatched : matched < (delimiter boundary).text.length) :
    ∃ flagged position, flagged.map Prod.fst = data ∧
      feedAll boundary.text s bytes = (s.written flagged).endItem.moved .dash3OrReturn2
        (s.parsedLength + bytes.length) position := by
  induction hreads generalizing s bytes with
  | found hfits hall =>
    obtain ⟨b, bytes, rfl, rfl, hnil⟩ := List.map_eq_cons_iff.mp hbytes
    obtain rfl : bytes = [] := List.map_eq_nil_iff.mp hnil
    exact ⟨[], _, rfl, feed_of_dispatch hlength (dispatch_found hholds hfits hall b.2)⟩
  | fits hfits hmore _ ih =>
    obtain ⟨b, bytes, rfl, rfl, hrest⟩ := List.map_eq_cons_iff.mp hbytes
    obtain ⟨state, position, hdispatch, hnext⟩ := dispatch_fits hholds hfits hmore b.2
    obtain ⟨flagged, position', hflagged, hfed⟩ := ih (s := s.moved state (s.parsedLength + 1) position)
      hrest (Nat.succ_pos _) hnext hmore
    refine ⟨flagged, position', hflagged, ?_⟩
    rw [feedAll_cons, feed_of_dispatch hlength hdispatch, List.length_cons, Nat.add_comm bytes.length,
      ← Nat.add_assoc]
    exact @endItem_written s _ _ [] _ _ _ _ _ hfed
  | @restart matched stream data hpos hne _ ih =>
    obtain ⟨⟨_, last⟩, bytes, rfl, rfl, hrest⟩ := List.map_eq_cons_iff.mp hbytes
    have hdispatch := (dispatch_mismatch hmatched hholds hne last).trans (notBoundary_cr _ last s)
    have hone : 1 < (delimiter boundary).text.length := Nat.lt_of_le_of_lt hpos hmatched
    generalize hbefore : ((delimiter boundary).text.take matched).map (·, last) = before at hdispatch
    obtain ⟨flagged, position, hflagged, hfed⟩ := ih
      (s := (s.written before).moved .expectFeed1 (s.parsedLength + 1) s.boundaryPosition)
      hrest (Nat.succ_pos _) rfl hone
    refine ⟨before ++ flagged, position, ?_, ?_⟩
    · rw [List.map_append, hflagged, ← hbefore, map_fst_flag]
    · rw [feedAll_cons, feed_of_dispatch hlength hdispatch, List.length_cons, Nat.add_comm bytes.length,
        ← Nat.add_assoc]
      exact endItem_written hfed
  | @skip matched a stream data hne ha _ ih =>
    obtain ⟨⟨_, last⟩, bytes, rfl, rfl, hrest⟩ := List.map_eq_cons_iff.mp hbytes
    have hdispatch := (dispatch_mismatch hmatched hholds hne last).trans (notBoundary_of_ne _ ha last s)
    generalize hbefore : ((delimiter boundary).text.take matched ++ [_]).map (·, last) = before at hdispatch
    obtain ⟨flagged, position, hflagged, hfed⟩ := ih
      (s := (s.written before).moved .waitForReturn1 (s.parsedLength + 1) s.boundaryPosition)
      hrest (Nat.succ_pos _) rfl (Nat.zero_lt_of_lt hmatched)
    refine ⟨before ++ flagged, position, ?_, ?_⟩
    · rw [List.map_append, hflagged, ← hbefore, map_fst_flag, List.append_assoc]
      rfl
    · rw [feedAll_cons, feed_of_dispatch hlength hdispatch, List.length_cons, Nat.add_comm bytes.length,
        ← Nat.add_assoc]
      exact endItem_written hfed

end content

end BodyParser

end AsyncWebServerRequest

end Handheld
