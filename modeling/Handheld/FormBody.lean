import Handheld.FormPart

/-!
# Forms

Result: `parse_form`. A form is read back as its fields and files, however the body
is cut into packets.
-/

namespace Handheld

open ByteString DelimiterScan

namespace AsyncWebServerRequest

/-! ## Definitions -/

/-- The body from behind a boundary on. -/
def formRest (boundary : Boundary) : List FormPart → Bytes
  | [] => [dash, dash, cr, lf]
  | part :: parts => [cr, lf] ++ part.text boundary ++ formRest boundary parts

/-- The body that a browser sends. -/
def formText (boundary : Boundary) (parts : List FormPart) : Bytes :=
  [dash, dash] ++ boundary.text ++ formRest boundary parts

/-- What the upload callback is called with, for some packets that the body came in. -/
inductive FormUploads : List Param → List FormPart → List UploadCall → Prop
  | nil {params : List Param} : FormUploads params [] []
  | cons {params : List Param} {part : FormPart} {parts : List FormPart} {calls : List UploadCall}
      {flagged : List (UInt8 × Bool)} : flagged.map Prod.fst = part.content →
      FormUploads (params ++ part.params) parts calls →
      FormUploads params (part :: parts) (part.calls params flagged ++ calls)

namespace BodyParser

/-! ## 1. The body, byte by byte -/

section form

variable {s : BodyParser} {boundary : Boundary} {part : FormPart}

/-- What a body leaves. -/
structure BodyRead (parts : List FormPart) (count : Nat) (s t : BodyParser) : Prop where
  state : t.state = .parsingFinished
  parsedLength : t.parsedLength = s.parsedLength + count
  complete : t.contentLength = t.parsedLength
  params : t.params = s.params ++ parts.flatMap FormPart.params
  uploads : ∃ calls, FormUploads s.params parts calls ∧ t.uploads = s.uploads ++ calls

/-- A byte that does not end anything. -/
def counted (count : Nat) (s : BodyParser) : BodyParser :=
  { s with parsedLength := s.parsedLength + count }

theorem feed_counted (hlength : 0 < s.parsedLength) (text : Bytes) (b : UInt8 × Bool) :
    feed text s b = (s.dispatch text b.1 b.2).counted 1 := by
  unfold feed parseMultipartPostByte
  rw [if_neg (Nat.ne_of_gt hlength)]
  rfl

/-- Behind the last boundary nothing happens any more. -/
theorem feed_finished (hstate : s.state = .parsingFinished) (hlength : 0 < s.parsedLength) (text : Bytes)
    (bytes : List (UInt8 × Bool)) : feedAll text s bytes = s.counted bytes.length := by
  induction bytes generalizing s with
  | nil => rfl
  | cons b bytes ih =>
    have hdispatch : s.dispatch text b.1 b.2 = s := by
      unfold dispatch
      simp only [hstate]
    rw [feedAll_cons, feed_counted hlength, hdispatch, ih (s := s.counted 1) hstate (Nat.succ_pos _),
      List.length_cons, Nat.add_comm bytes.length]
    unfold counted
    rw [Nat.add_assoc]

theorem dispatch_dash3OrReturn2 (hstate : s.state = .dash3OrReturn2) (text : Bytes) (data : UInt8)
    (last : Bool) : s.dispatch text data last = s.dash3OrReturn2 text data last := by
  unfold dispatch
  simp only [hstate]

/-- The end of the line behind a boundary. -/
theorem feed_return2 (hstate : s.state = .dash3OrReturn2) (hlength : 0 < s.parsedLength) (text : Bytes)
    {bytes : List (UInt8 × Bool)} (hbytes : bytes.map Prod.fst = [cr, lf]) :
    feedAll text s bytes = s.startHeaders.counted bytes.length := by
  obtain ⟨⟨_, last⟩, ends, rfl, rfl, hends⟩ := List.map_eq_cons_iff.mp hbytes
  obtain ⟨⟨_, last'⟩, ends, rfl, rfl, hnil⟩ := List.map_eq_cons_iff.mp hends
  obtain rfl : ends = [] := List.map_eq_nil_iff.mp hnil
  have hreturn : s.dispatch text cr last = s.goto .expectFeed2 := by
    rw [dispatch_dash3OrReturn2 hstate]
    unfold dash3OrReturn2
    rw [if_neg (by decide), if_pos rfl]
  have hfeed : ((s.goto .expectFeed2).counted 1).dispatch text lf last' = s.startHeaders.counted 1 := by
    unfold dispatch
    exact if_pos rfl
  rw [feedAll_cons, feed_counted hlength, hreturn, feedAll_cons,
    feed_counted (s := (s.goto .expectFeed2).counted 1) (Nat.succ_pos _), hfeed]
  rfl

/-- The two dashes behind the last boundary, and the end of the line. -/
theorem feed_closing (hstate : s.state = .dash3OrReturn2) (hlength : 0 < s.parsedLength) (text : Bytes)
    {bytes : List (UInt8 × Bool)} (hbytes : bytes.map Prod.fst = [dash, dash, cr, lf]) :
    BodyRead [] bytes.length s (feedAll text s bytes) := by
  obtain ⟨⟨_, last⟩, ends, rfl, rfl, hends⟩ := List.map_eq_cons_iff.mp hbytes
  have hthree : ends.length = 3 := by
    rw [← List.length_map Prod.fst, hends]
    rfl
  have hdash : s.dispatch text dash last =
      { s with contentLength := s.parsedLength + 4 }.goto .parsingFinished := by
    rw [dispatch_dash3OrReturn2 hstate]
    exact if_pos rfl
  have hclosed : feedAll text s ((dash, last) :: ends) =
      (({ s with contentLength := s.parsedLength + 4 }.goto .parsingFinished).counted 1).counted 3 := by
    rw [feedAll_cons, feed_counted hlength, hdash, feed_finished rfl (Nat.succ_pos _), hthree]
  rw [hclosed, List.length_cons, hthree]
  exact {
    state := rfl
    parsedLength := rfl
    complete := rfl
    params := (List.append_nil _).symm
    uploads := ⟨[], .nil, (List.append_nil _).symm⟩ }

/-- A part, where it is known what becomes of the others. -/
theorem feed_next {parts : List FormPart} (hpart : part.WellFormed boundary)
    (hrest : ∀ {s : BodyParser} {bytes : List (UInt8 × Bool)}, s.state = .dash3OrReturn2 →
      0 < s.parsedLength → s.temp = [] → bytes.map Prod.fst = formRest boundary parts →
      BodyRead parts bytes.length s (feedAll boundary.text s bytes))
    (hstate : s.state = .parseHeaders) (hlength : 0 < s.parsedLength) (htemp : s.temp = [])
    (hfile : s.header.itemIsFile = false) {bytes : List (UInt8 × Bool)}
    (hbytes : bytes.map Prod.fst = part.text boundary ++ formRest boundary parts) :
    BodyRead (part :: parts) bytes.length s (feedAll boundary.text s bytes) := by
  obtain ⟨first, rest, rfl, hfirst, hlater⟩ := List.map_eq_append_iff.mp hbytes
  have hread := feed_part hpart hstate hlength htemp hfile hfirst
  rw [feedAll_append]
  generalize feedAll boundary.text s first = t at hread
  have hbody := hrest hread.state (by rw [hread.parsedLength]; omega) hread.temp hlater
  obtain ⟨flagged, hflagged, huploads⟩ := hread.uploads
  obtain ⟨calls, hcalls, hmore⟩ := hbody.uploads
  exact {
    state := hbody.state
    parsedLength := by rw [hbody.parsedLength, hread.parsedLength, List.length_append, Nat.add_assoc]
    complete := hbody.complete
    params := by rw [hbody.params, hread.params, List.flatMap_cons, List.append_assoc]
    uploads := by
      rw [hread.params] at hcalls
      refine ⟨_, .cons hflagged hcalls, ?_⟩
      rw [hmore, huploads, List.append_assoc] }

/-- The parts, from behind a boundary on. -/
theorem feed_rest {parts : List FormPart} (hparts : ∀ part ∈ parts, part.WellFormed boundary)
    (hstate : s.state = .dash3OrReturn2) (hlength : 0 < s.parsedLength) (htemp : s.temp = [])
    {bytes : List (UInt8 × Bool)} (hbytes : bytes.map Prod.fst = formRest boundary parts) :
    BodyRead parts bytes.length s (feedAll boundary.text s bytes) := by
  induction parts generalizing s bytes with
  | nil => exact feed_closing hstate hlength boundary.text hbytes
  | cons part parts ih =>
    have hlater := fun p hp => hparts p (List.mem_cons_of_mem part hp)
    unfold formRest at hbytes
    rw [List.append_assoc] at hbytes
    obtain ⟨line, body, rfl, hline, hbody⟩ := List.map_eq_append_iff.mp hbytes
    rw [feedAll_append, feed_return2 hstate hlength boundary.text hline]
    have hread := feed_next (s := s.startHeaders.counted line.length) (hparts part List.mem_cons_self)
      (fun hs hl ht hb => ih hlater hs hl ht hb) rfl (Nat.lt_of_lt_of_le hlength (Nat.le_add_right _ _)) htemp rfl hbody
    exact { hread with
      parsedLength := by
        rw [hread.parsedLength, List.length_append, ← Nat.add_assoc]
        rfl }

theorem feed_expect (hstate : s.state = .expectBoundary) (hlength : 0 < s.parsedLength) (text : Bytes)
    (b : UInt8 × Bool) : feed text s b = (s.expectBoundary text b.1).counted 1 := by
  have hdispatch : s.dispatch text b.1 b.2 = s.expectBoundary text b.1 := by
    unfold dispatch
    simp only [hstate]
  rw [feed_counted hlength, hdispatch]

/-- The boundary in the first line of a body. -/
theorem feed_boundary (hstate : s.state = .expectBoundary) (pre : Bytes) {bytes : List (UInt8 × Bool)}
    (hlength : s.parsedLength = pre.length + 2) (htext : pre ++ bytes.map Prod.fst = boundary.text) :
    feedAll boundary.text s bytes = s.counted bytes.length := by
  induction bytes generalizing s pre with
  | nil => rfl
  | cons b bytes ih =>
    have hget : boundary.text[s.parsedLength - 2]? = some b.1 := by
      rw [hlength, ← htext]
      simp
    have hlt : s.parsedLength - 2 < boundary.text.length := (List.getElem?_eq_some_iff.mp hget).1
    have hstay : s.expectBoundary boundary.text b.1 = s := by
      unfold expectBoundary
      rw [if_neg (by omega), if_neg fun h => h.2.2 hget, if_neg (by omega), if_neg (by omega)]
    rw [feedAll_cons, feed_expect hstate (by omega), hstay,
      ih (s := s.counted 1) hstate (pre ++ [b.1]) ?_ ?_, List.length_cons, Nat.add_comm bytes.length]
    · unfold counted
      rw [Nat.add_assoc]
    · show s.parsedLength + 1 = _
      rw [hlength, List.length_append]
      rfl
    · rw [← htext]
      simp

theorem map_fst_pair {a b : UInt8} {bytes : List (UInt8 × Bool)} (h : bytes.map Prod.fst = [a, b]) :
    ∃ last last', bytes = [(a, last), (b, last')] := by
  obtain ⟨⟨_, last⟩, rest, rfl, rfl, hrest⟩ := List.map_eq_cons_iff.mp h
  obtain ⟨⟨_, last'⟩, rest', rfl, rfl, hnil⟩ := List.map_eq_cons_iff.mp hrest
  exact ⟨last, last', by rw [List.map_eq_nil_iff.mp hnil]⟩

/-- The first line of a body. -/
theorem feed_opening (hlength : s.parsedLength = 0) {bytes : List (UInt8 × Bool)}
    (hbytes : bytes.map Prod.fst = [dash, dash] ++ boundary.text ++ [cr, lf]) :
    feedAll boundary.text s bytes = s.startBody.startHeaders.counted bytes.length := by
  have hpos := boundary.nonempty
  obtain ⟨front, ends, rfl, hfront, hends⟩ := List.map_eq_append_iff.mp hbytes
  obtain ⟨dashes, middle, rfl, hdashes, hmiddle⟩ := List.map_eq_append_iff.mp hfront
  obtain ⟨l1, l2, rfl⟩ := map_fst_pair hdashes
  obtain ⟨l3, l4, rfl⟩ := map_fst_pair hends
  have hcount : middle.length = boundary.text.length := by rw [← hmiddle, List.length_map]
  have hfirst : feed boundary.text s (dash, l1) = s.startBody.counted 1 := by
    unfold feed parseMultipartPostByte
    rw [if_pos hlength]
    show (s.startBody.expectBoundary boundary.text dash).counted 1 = _
    have hzero : s.startBody.parsedLength = 0 := hlength
    unfold expectBoundary
    rw [if_neg (fun h => h.2 rfl), if_neg (by omega), if_neg (by omega), if_neg (by omega)]
  have hsecond : feed boundary.text (s.startBody.counted 1) (dash, l2) = s.startBody.counted 2 := by
    have hone : (s.startBody.counted 1).parsedLength = 1 := congrArg (· + 1) hlength
    rw [feed_expect rfl (by omega)]
    unfold expectBoundary
    rw [if_neg (fun h => h.2 rfl), if_neg (by omega), if_neg (by omega), if_neg (by omega)]
    rfl
  have htext := feed_boundary (s := s.startBody.counted 2) rfl [] (congrArg (· + 2) hlength) hmiddle
  generalize ht : (s.startBody.counted 2).counted middle.length = t at htext
  have htlength : t.parsedLength = boundary.text.length + 2 := by
    rw [← ht, ← hcount]
    show s.parsedLength + 2 + middle.length = _
    omega
  have htstate : t.state = .expectBoundary := by
    rw [← ht]
    rfl
  have hthird : feed boundary.text t (cr, l3) = t.counted 1 := by
    rw [feed_expect htstate (by omega)]
    unfold expectBoundary
    rw [if_neg (by omega), if_neg (by omega), if_neg (fun h => h.2.2 rfl), if_neg (by omega)]
  have hlast : feed boundary.text (t.counted 1) (lf, l4) = (t.counted 1).startHeaders.counted 1 := by
    have hlength' : (t.counted 1).parsedLength = boundary.text.length + 3 := congrArg (· + 1) htlength
    rw [feed_expect (s := t.counted 1) htstate (by omega)]
    unfold expectBoundary
    rw [if_neg (by omega), if_neg (by omega), if_neg (by omega), if_pos (by omega),
      if_neg (not_not.mpr rfl)]
  have hdashes' : feedAll boundary.text s [(dash, l1), (dash, l2)] = s.startBody.counted 2 := by
    rw [feedAll_cons, hfirst, feedAll_cons, hsecond]
    rfl
  have hends' : feedAll boundary.text t [(cr, l3), (lf, l4)] = (t.counted 1).startHeaders.counted 1 := by
    rw [feedAll_cons, hthird, feedAll_cons, hlast]
    rfl
  rw [feedAll_append, feedAll_append, hdashes', htext, hends', ← ht]
  have hsum : ([(dash, l1), (dash, l2)] ++ middle ++ [(cr, l3), (lf, l4)]).length =
      2 + middle.length + 1 + 1 := by simp [Nat.add_comm]
  rw [hsum]
  unfold counted
  rw [← Nat.add_assoc, ← Nat.add_assoc, ← Nat.add_assoc]
  rfl

/-- A request whose body is read from the start. -/
def newBody (params : List Param) (contentLength : Nat) : BodyParser where
  state := .expectBoundary
  parsedLength := 0
  contentLength := contentLength
  temp := []
  header := ⟨[], [], [], false⟩
  itemValue := []
  item := ⟨0, []⟩
  boundaryPosition := 0
  params := params
  uploads := []

/-- The body of a form, each byte with the flag whether it ends a packet. -/
theorem feed_form (boundary : Boundary) {parts : List FormPart} (hne : parts ≠ [])
    (hparts : ∀ part ∈ parts, part.WellFormed boundary) (params : List Param)
    {bytes : List (UInt8 × Bool)} (hbytes : bytes.map Prod.fst = formText boundary parts) :
    let t := feedAll boundary.text (newBody params bytes.length) bytes
    t.parsedLength = bytes.length ∧ t.contentLength = bytes.length ∧
      t.params = params ++ parts.flatMap FormPart.params ∧ FormUploads params parts t.uploads := by
  cases parts with
  | nil => exact absurd rfl hne
  | cons part parts =>
    have hsplit : formText boundary (part :: parts) = [dash, dash] ++ boundary.text ++ [cr, lf] ++
        (part.text boundary ++ formRest boundary parts) := by
      unfold formText
      rw [formRest]
      simp only [List.append_assoc]
    rw [hsplit] at hbytes
    obtain ⟨first, rest, rfl, hfirst, hrest⟩ := List.map_eq_append_iff.mp hbytes
    generalize hs : newBody params (first ++ rest).length = s
    have hlength : s.parsedLength = 0 := by
      rw [← hs]
      rfl
    have hparams : s.params = params := by
      rw [← hs]
      rfl
    have huploads : s.uploads = [] := by
      rw [← hs]
      rfl
    rw [feedAll_append, feed_opening hlength hfirst]
    have hpos : 0 < first.length := by
      rw [← List.length_map Prod.fst, hfirst, List.length_append]
      exact Nat.succ_pos _
    have hread := feed_next (s := s.startBody.startHeaders.counted first.length)
      (hparts part List.mem_cons_self)
      (fun hs hl ht hb => feed_rest (fun p hp => hparts p (List.mem_cons_of_mem part hp)) hs hl ht hb) rfl
      (Nat.lt_of_lt_of_le hpos (Nat.le_add_left _ _)) rfl rfl hrest
    have hcount : (s.startBody.startHeaders.counted first.length).parsedLength + rest.length =
        (first ++ rest).length := by
      show s.parsedLength + first.length + rest.length = _
      rw [hlength, List.length_append, Nat.zero_add]
    obtain ⟨calls, hcalls, hmore⟩ := hread.uploads
    have hstart : (s.startBody.startHeaders.counted first.length).params = params := hparams
    have hnone : (s.startBody.startHeaders.counted first.length).uploads = [] := huploads
    rw [hnone, List.nil_append] at hmore
    rw [hstart] at hcalls
    refine ⟨hread.parsedLength.trans hcount, (hread.complete.trans hread.parsedLength).trans hcount, ?_, ?_⟩
    · rw [hread.params, hstart]
    · rwa [hmore]

end form

/-! ## 2. Packets -/

section packets

variable {s : BodyParser} {text : Bytes}

/-- What a step may change of the two lengths. -/
def Keeps (s t : BodyParser) : Prop := t.parsedLength = s.parsedLength ∧ t.contentLength = s.contentLength

theorem keeps_itemWriteByte (last : Bool) (b : UInt8) (s : BodyParser) :
    Keeps s (s.itemWriteByte last b) := by
  unfold itemWriteByte
  split_ifs <;> exact ⟨rfl, rfl⟩

theorem keeps_itemWriteBytes (last : Bool) (bytes : Bytes) (s : BodyParser) :
    Keeps s (s.itemWriteBytes last bytes) := by
  induction bytes generalizing s with
  | nil => exact ⟨rfl, rfl⟩
  | cons b bytes ih =>
    have hb := keeps_itemWriteByte last b s
    have hbytes := ih (s.itemWriteByte last b)
    exact ⟨hbytes.1.trans hb.1, hbytes.2.trans hb.2⟩

theorem keeps_waitForReturn1 (data : UInt8) (last : Bool) (s : BodyParser) :
    Keeps s (s.waitForReturn1 data last) := by
  unfold waitForReturn1
  split_ifs
  · exact keeps_itemWriteByte last data s
  · exact ⟨rfl, rfl⟩

theorem keeps_notBoundary (bytes : Bytes) (data : UInt8) (last : Bool) (s : BodyParser) :
    Keeps s (s.notBoundary bytes data last) := by
  have hwritten := keeps_itemWriteBytes last bytes (s.goto .waitForReturn1)
  have hdata := keeps_waitForReturn1 data last ((s.goto .waitForReturn1).itemWriteBytes last bytes)
  exact ⟨hdata.1.trans hwritten.1, hdata.2.trans hwritten.2⟩

/-- The announced length changes at the last boundary only. -/
theorem keeps_dispatch (text : Bytes) (data : UInt8) (last : Bool) (s : BodyParser) :
    (s.dispatch text data last).parsedLength = s.parsedLength ∧
      ((s.dispatch text data last).contentLength = s.contentLength ∨
        (s.dispatch text data last).state = .parsingFinished) := by
  have hkeeps : Keeps s (s.dispatch text data last) ∨
      s.dispatch text data last = { s with contentLength := s.parsedLength + 4 }.goto .parsingFinished := by
    unfold dispatch
    split
    · exact .inl (keeps_waitForReturn1 data last s)
    · left
      unfold expectBoundary
      split_ifs <;> exact ⟨rfl, rfl⟩
    · left
      unfold parseHeaders
      dsimp only
      split_ifs <;> exact ⟨rfl, rfl⟩
    · left
      split_ifs
      · exact keeps_notBoundary _ data last s
      · exact ⟨rfl, rfl⟩
    · left
      split_ifs
      · exact keeps_notBoundary _ data last s
      · exact ⟨rfl, rfl⟩
    · left
      split_ifs
      · exact keeps_notBoundary _ data last s
      · exact ⟨rfl, rfl⟩
    · left
      unfold boundaryOrData endItem
      split_ifs
      · exact keeps_notBoundary _ data last s
      all_goals exact ⟨rfl, rfl⟩
    · unfold dash3OrReturn2
      split_ifs
      · exact .inr rfl
      · exact .inl ⟨rfl, rfl⟩
      · exact .inl (keeps_notBoundary _ data last s)
    · left
      split_ifs
      · exact ⟨rfl, rfl⟩
      · exact keeps_notBoundary _ data last s
    · exact .inl ⟨rfl, rfl⟩
    · exact .inl ⟨rfl, rfl⟩
  rcases hkeeps with ⟨hlength, hcontent⟩ | hclosed
  · exact ⟨hlength, .inl hcontent⟩
  · rw [hclosed]
    exact ⟨rfl, .inr rfl⟩

theorem feed_length (text : Bytes) (s : BodyParser) (b : UInt8 × Bool) :
    (feed text s b).parsedLength = s.parsedLength + 1 := by
  have hkeeps := keeps_dispatch text b.1 b.2 (if s.parsedLength = 0 then s.startBody else s)
  have hstart : (if s.parsedLength = 0 then s.startBody else s).parsedLength = s.parsedLength := by
    split_ifs <;> rfl
  exact congrArg (· + 1) (hkeeps.1.trans hstart)

theorem feedAll_length (text : Bytes) (s : BodyParser) (bytes : List (UInt8 × Bool)) :
    (feedAll text s bytes).parsedLength = s.parsedLength + bytes.length := by
  induction bytes generalizing s with
  | nil => rfl
  | cons b bytes ih =>
    rw [feedAll_cons, ih, feed_length, List.length_cons, Nat.add_assoc, Nat.add_comm 1]

/-- Either the announced length is as it was, or the last boundary was seen. -/
theorem feedAll_contentLength (text : Bytes) (s : BodyParser) (bytes : List (UInt8 × Bool)) :
    (feedAll text s bytes).contentLength = s.contentLength ∨
      (feedAll text s bytes).state = .parsingFinished ∧ bytes ≠ [] := by
  induction bytes using List.reverseRecOn with
  | nil => exact .inl rfl
  | append_singleton bytes b ih =>
    rw [feedAll_append]
    generalize ht : feedAll text s bytes = t at ih
    show (feed text t b).contentLength = s.contentLength ∨ (feed text t b).state = .parsingFinished ∧ _
    rcases ih with hsame | ⟨hfinished, hne⟩
    · have hkeeps := keeps_dispatch text b.1 b.2 (if t.parsedLength = 0 then t.startBody else t)
      have hstart : (if t.parsedLength = 0 then t.startBody else t).contentLength = t.contentLength := by
        split_ifs <;> rfl
      rcases hkeeps.2 with hkept | hclosed
      · exact .inl ((hkept.trans hstart).trans hsame)
      · exact .inr ⟨hclosed, by simp⟩
    · have hpos : 0 < t.parsedLength := by
        rw [← ht, feedAll_length]
        exact Nat.lt_of_lt_of_le (List.length_pos_iff.mpr hne) (Nat.le_add_left _ _)
      have hfeed := feed_finished hfinished hpos text [b]
      refine .inr ⟨?_, by simp⟩
      show (feedAll text t [b]).state = _
      rw [hfeed]
      exact hfinished

/-- A packet, each byte with the flag whether it is the last. -/
def flagged : Bytes → List (UInt8 × Bool)
  | [] => []
  | [b] => [(b, true)]
  | b :: c :: packet => (b, false) :: flagged (c :: packet)

theorem map_flagged (packet : Bytes) : (flagged packet).map Prod.fst = packet := by
  fun_induction flagged packet with
  | case1 => rfl
  | case2 b => rfl
  | case3 b c packet ih => rw [List.map_cons, ih]

/-- `_onData`, for the body of a form. -/
def onData (text : Bytes) (s : BodyParser) (packet : Bytes) : BodyParser :=
  feedAll text s (flagged (packet.take (s.contentLength - s.parsedLength)))

/-- No byte of the body is left out. -/
theorem foldl_onData {total : Nat} {packets : List Bytes} {s : BodyParser}
    (hlength : s.parsedLength + packets.flatten.length = total) (hcontent : s.contentLength = total)
    (hend : (feedAll text s (packets.flatMap flagged)).contentLength = total) :
    packets.foldl (onData text) s = feedAll text s (packets.flatMap flagged) := by
  induction packets generalizing s with
  | nil => rfl
  | cons packet packets ih =>
    rw [List.flatten_cons, List.length_append] at hlength
    have hwhole : onData text s packet = feedAll text s (flagged packet) := by
      unfold onData
      rw [hcontent, List.take_of_length_le (by omega)]
    rw [List.foldl_cons, List.flatMap_cons, feedAll_append, hwhole]
    rw [List.flatMap_cons, feedAll_append] at hend
    have hcount : (flagged packet).length = packet.length := by
      rw [← List.length_map Prod.fst, map_flagged]
    refine ih ?_ ?_ hend
    · rw [feedAll_length, hcount, Nat.add_assoc]
      exact hlength
    · rcases feedAll_contentLength text s (flagged packet) with hsame | ⟨hfinished, hne⟩
      · exact hsame.trans hcontent
      · have hpos : 0 < (feedAll text s (flagged packet)).parsedLength := by
          rw [feedAll_length]
          exact Nat.lt_of_lt_of_le (List.length_pos_iff.mpr hne) (Nat.le_add_left _ _)
        rw [feed_finished hfinished hpos] at hend
        exact hend

/-- A form is read back, however its body is cut into packets: the parameters of
the request are those it had before and then the fields and the names of the
files, the upload callback is given the files, and the request is complete. -/
theorem parse_form (boundary : Boundary) {parts : List FormPart} (hne : parts ≠ [])
    (hparts : ∀ part ∈ parts, part.WellFormed boundary) (params : List Param) {packets : List Bytes}
    (hpackets : packets.flatten = formText boundary parts) :
    let t := packets.foldl (onData boundary.text) (newBody params (formText boundary parts).length)
    t.parsedLength = t.contentLength ∧ t.params = params ++ parts.flatMap FormPart.params ∧
      FormUploads params parts t.uploads := by
  have hbytes : (packets.flatMap flagged).map Prod.fst = formText boundary parts := by
    rw [List.map_flatMap, ← hpackets]
    simp only [map_flagged]
    exact List.flatMap_id'
  have hcount : (packets.flatMap flagged).length = (formText boundary parts).length := by
    rw [← hbytes, List.length_map]
  obtain ⟨hlength, hcontent, hparams, huploads⟩ := feed_form boundary hne hparts params hbytes
  rw [hcount] at hlength hcontent hparams huploads
  have hzero : (newBody params (formText boundary parts).length).parsedLength + packets.flatten.length =
      (formText boundary parts).length := by
    rw [hpackets]
    exact Nat.zero_add _
  have hsame := foldl_onData hzero rfl hcontent
  dsimp only
  rw [hsame]
  exact ⟨hlength.trans hcontent.symm, hparams, huploads⟩

/-- The field `folder` is `/d`, and the file `f` has two bytes. -/
def sampleParts : List FormPart :=
  [⟨ascii "folder", none, ascii "/d"⟩, ⟨ascii "file", some ⟨ascii "f", ascii "text/plain"⟩, [1, 2]⟩]

def sampleBoundary : Boundary := ⟨ascii "x1", by decide, by decide, by decide⟩

theorem wellFormed_sampleParts : ∀ part ∈ sampleParts, part.WellFormed sampleBoundary := by
  have hfolder : FormPart.WellFormed sampleBoundary ⟨ascii "folder", none, ascii "/d"⟩ :=
    ⟨List.all_iff_forall_prop.mp (by decide), nofun, nofun, by decide⟩
  have hfile : FormPart.WellFormed sampleBoundary
      ⟨ascii "file", some ⟨ascii "f", ascii "text/plain"⟩, [1, 2]⟩ := by
    refine ⟨List.all_iff_forall_prop.mp (by decide), ?_, ?_, by decide⟩
    · rintro _ ⟨⟩
      exact List.all_iff_forall_prop.mp (by decide)
    · rintro _ ⟨⟩
      decide
  intro part hpart
  rcases List.mem_pair.mp hpart with rfl | rfl
  · exact hfolder
  · exact hfile

/-- The body of the form, cut after the twentieth byte. -/
def samplePackets : List Bytes :=
  [(formText sampleBoundary sampleParts).take 20, (formText sampleBoundary sampleParts).drop 20]

theorem flatten_samplePackets : samplePackets.flatten = formText sampleBoundary sampleParts := by
  unfold samplePackets
  rw [List.flatten_cons, List.flatten_singleton, List.take_append_drop]

theorem parse_form_sample :
    let t := samplePackets.foldl (onData sampleBoundary.text)
      (newBody [] (formText sampleBoundary sampleParts).length)
    t.parsedLength = t.contentLength ∧ t.params = [] ++ sampleParts.flatMap FormPart.params ∧
      FormUploads [] sampleParts t.uploads :=
  parse_form sampleBoundary (by decide) wellFormed_sampleParts [] flatten_samplePackets

end packets

end BodyParser

end AsyncWebServerRequest

end Handheld
