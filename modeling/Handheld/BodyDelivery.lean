import Handheld.ChunkedCoding
import Handheld.ResponseDelivery

/-!
# What arrives of a body that is read

A body comes from an array, a file or a callback, as much as there is room for in one
call. The first part of it goes out with the head.

Results: `honest_file`, `honest_progmem`, `honest_callback`, `body_delivered`. The connection is given the
head and all that the source holds, if no call leaves the head behind.
-/

namespace Handheld

open ByteString

variable {sent : Bool} {len : Nat} {turn : Turn} {c : AsyncClient}

/-! ## Sources -/

/-- What is read of a source is what is left in it, in order, and never more than is
asked for; nothing is read only when nothing is left. -/
structure Honest (σ : Type) [BodySource σ] (rest : σ → Bytes) : Prop where
  valid : ∀ s : σ, BodySource.sourceValid s = true
  gives : ∀ (n : Nat) (s : σ) (data : Bytes), (BodySource.fillBuffer n s).1 = some data →
    rest s = data ++ rest (BodySource.fillBuffer n s).2 ∧ data.length ≤ n ∧ (data = [] → n = 0 ∨ rest s = [])
  again : ∀ (n : Nat) (s : σ), (BodySource.fillBuffer n s).1 = none →
    rest (BodySource.fillBuffer n s).2 = rest s

def ProgmemSource.unread (s : ProgmemSource) : Bytes := s.content.drop s.readLength

theorem honest_take {rest : Bytes} {n : Nat} (h : rest.take n = []) : n = 0 ∨ rest = [] := List.take_eq_nil_iff.mp h

theorem honest_file : Honest FileSource FileSource.unread where
  valid _ := rfl
  gives n s data h := by
    obtain rfl := Option.some.inj h
    exact ⟨(List.take_append_drop n s.unread).symm, List.length_take_le n _, honest_take⟩
  again n s h := nomatch h

theorem ProgmemSource.fillBuffer_eq (n : Nat) (s : ProgmemSource) :
    ∃ k, s.fillBuffer n = (some (s.unread.take n), { s with readLength := k }) ∧
      s.content.drop k = s.unread.drop n := by
  unfold ProgmemSource.fillBuffer ProgmemSource.unread
  dsimp only
  split_ifs with hleft
  · exact ⟨_, rfl, by rw [List.drop_drop]⟩
  · have hall : (s.content.drop s.readLength).length ≤ n := by
      rw [List.length_drop]
      exact Nat.not_lt.mp hleft
    refine ⟨s.readLength + (s.content.length - s.readLength), ?_, ?_⟩
    · rw [List.take_of_length_le hall, List.take_of_length_le (by rw [List.length_drop])]
    · rw [List.drop_of_length_le hall, List.drop_of_length_le]
      omega

theorem honest_progmem : Honest ProgmemSource ProgmemSource.unread where
  valid _ := rfl
  gives n s data h := by
    obtain ⟨k, hfill, hdrop⟩ := s.fillBuffer_eq n
    have hread : BodySource.fillBuffer n s = (some (s.unread.take n), { s with readLength := k }) := hfill
    rw [hread] at h ⊢
    obtain rfl := Option.some.inj h
    refine ⟨?_, List.length_take_le n _, honest_take⟩
    show _ = s.unread.take n ++ s.content.drop k
    rw [hdrop, List.take_append_drop]
  again n s h := by
    obtain ⟨k, hfill, -⟩ := s.fillBuffer_eq n
    have hread : BodySource.fillBuffer n s = (some (s.unread.take n), { s with readLength := k }) := hfill
    rw [hread] at h
    exact nomatch h

/-- A callback that gives parts of a text, each from where it is asked to. -/
theorem honest_callback {content : Nat → Nat → Option Bytes} {text : Bytes}
    (hcontent : ∀ n i data, content n i = some data →
      data <+: text.drop i ∧ data.length ≤ n ∧ (data = [] → n = 0 ∨ text.drop i = [])) :
    Honest (CallbackSource content) fun s => text.drop s.filledLength where
  valid _ := rfl
  gives n s data h := by
    have hread : BodySource.fillBuffer n s = s.fillBuffer n := rfl
    rw [hread] at h ⊢
    unfold CallbackSource.fillBuffer at h ⊢
    cases hdata : content n s.filledLength with
    | none =>
      rw [hdata] at h
      cases h
    | some read =>
      rw [hdata] at h
      obtain rfl := Option.some.inj h
      obtain ⟨⟨later, hpart⟩, hle, hnil⟩ := hcontent n s.filledLength read hdata
      refine ⟨?_, hle, hnil⟩
      show text.drop s.filledLength = read ++ text.drop (s.filledLength + read.length)
      rw [← List.drop_drop, ← hpart, List.drop_left]
  again n s h := by
    have hread : BodySource.fillBuffer n s = s.fillBuffer n := rfl
    rw [hread] at h ⊢
    unfold CallbackSource.fillBuffer at h ⊢
    cases hdata : content n s.filledLength with
    | none => rfl
    | some read =>
      rw [hdata] at h
      cases h

namespace AsyncAbstractResponse

open ChunkedCoding

variable {σ : Type} {rest : σ → Bytes} {r : AsyncAbstractResponse σ} {wire coded done data : Bytes}

theorem framed_length (hlt : data.length < 2 ^ 16) :
    (r.framed data).length = data.length + if r.chunked then 8 else 0 := by
  unfold framed
  split_ifs
  · have hdigits : (Nat.digits 16 data.length).length ≤ 4 :=
      (Nat.digits_length_le_iff (by decide) _).mpr hlt
    have hcrlf : (ascii "\r\n").length = 2 := rfl
    rw [List.length_append, List.length_append, List.length_append, Numeral.length_print, hcrlf]
    omega
  · rfl

theorem framed_chunk (hchunked : r.chunked = true) (data : Bytes) : r.framed data = chunk data := by
  unfold framed
  rw [if_pos hchunked]
  rfl

theorem framed_plain (hchunked : r.chunked = false) (data : Bytes) : r.framed data = data := by
  unfold framed
  rw [if_neg (by rw [hchunked]; exact Bool.false_ne_true)]

theorem flown_wire (hwrite : turn.write = true) (out : Bytes) (r : AsyncAbstractResponse σ) (c : AsyncClient) :
    (r.flown turn out c).2.wire = c.wire ++ out.take c.space := by
  unfold flown
  dsimp only
  rw [hwrite, AsyncClient.write_snd]
  rfl

/-! ### Invariants -/

/-- Some of a body as it is on the wire: in chunks, or plain. -/
def Coded (chunked : Bool) (data coded : Bytes) : Prop := if chunked then Chunks data coded else coded = data

theorem coded_nil (chunked : Bool) : Coded chunked [] [] := by
  unfold Coded
  split_ifs
  · exact chunks_nil
  · rfl

/-- All of it. -/
def Complete (start content : Bytes) (chunked : Bool) (wire : Bytes) : Prop :=
  ∃ coded, Coded chunked content coded ∧ wire = start ++ coded ++ if chunked then chunk [] else []

/-- No byte that does not belong there. -/
def Good (start content : Bytes) (chunked : Bool) (wire : Bytes) : Prop :=
  (∃ done coded, done <+: content ∧ Coded chunked done coded ∧ wire <+: start ++ coded) ∨
    Complete start content chunked wire

/-- Bytes on the wire and in the head make up the start and some of the body, and the
rest of the body is in the source. -/
structure Aligned (start content : Bytes) (rest : σ → Bytes) (r : AsyncAbstractResponse σ)
    (wire done coded : Bytes) : Prop where
  body : content = done ++ rest r.source
  coding : Coded r.chunked done coded
  bytes : wire ++ r.headLeft = start ++ coded
  count : r.sentLength = done.length % 2 ^ 32

/-- How far the response is. No head is left behind once the body is sent. -/
inductive Stage (start content : Bytes) (rest : σ → Bytes) (r : AsyncAbstractResponse σ) (wire : Bytes) : Prop
  | head : r.state = .headers → Aligned start content rest r wire [] [] → Stage start content rest r wire
  | body (done coded : Bytes) : r.state = .content → r.headLeft = [] →
      Aligned start content rest r wire done coded → Stage start content rest r wire
  | whole : r.state = .waitAck ∨ r.state = .end → Complete start content r.chunked wire →
      Stage start content rest r wire

/-- The body is in chunks, or of a length that is known. -/
structure Framing (content : Bytes) (chunked : Bool) (r : AsyncAbstractResponse σ) : Prop where
  kind : r.chunked = chunked
  sized : r.sendContentLength = !chunked
  length : chunked = false → r.contentLength = content.length ∧ content.length < 2 ^ 32

structure Sending (start content : Bytes) (chunked : Bool) (rest : σ → Bytes) (r : AsyncAbstractResponse σ)
    (wire : Bytes) : Prop where
  framing : r.Framing content chunked
  stage : r.Stage start content rest wire

/-- When the call gets to the body, it also sends the head. -/
def Passes [BodySource σ] (sent : Bool) (len : Nat) (turn : Turn) (r : AsyncAbstractResponse σ) : Prop :=
  r.state = .headers → r.headLeft.length ≤ turn.sndbuf →
    (sent = true → turn.malloc = true) ∧
      r.inFlight ≤ turn.sndbuf - r.headLeft.length + len ∧
      (r.chunked = true → 8 < turn.sndbuf - r.headLeft.length) ∧
      ∀ n, (BodySource.fillBuffer n r.source).1 ≠ none

variable {start content : Bytes} {chunked : Bool}

theorem Aligned.good (h : Aligned start content rest r wire done coded) :
    Good start content r.chunked wire :=
  .inl ⟨done, coded, ⟨_, h.body.symm⟩, h.coding, ⟨_, h.bytes⟩⟩

theorem Sending.good (h : Sending start content chunked rest r wire) : Good start content chunked wire := by
  rw [← h.framing.kind]
  cases h.stage with
  | head _ haligned => exact haligned.good
  | body done coded _ _ haligned => exact haligned.good
  | whole _ hcomplete => exact .inr hcomplete

theorem Sending.complete (h : Sending start content chunked rest r wire) (hfinished : r.finished = true) :
    Complete start content chunked wire := by
  rw [← h.framing.kind]
  have hstate : r.state = .end ∨ r.state = .failed := of_decide_eq_true hfinished
  cases h.stage with
  | head hhead => rw [hhead] at hstate; simp at hstate
  | body _ _ hbody => rw [hbody] at hstate; simp at hstate
  | whole _ hcomplete => exact hcomplete

/-! ### Steps -/

theorem advanced_eq (turn : Turn) (data out : Bytes) (r : AsyncAbstractResponse σ) (c : AsyncClient) :
    ∃ written inFlight credit, (r.advanced turn data out c).1 =
      { r with
        headLeft := []
        sentLength := sizeAdd r.sentLength data.length
        writtenLength := written
        inFlight := inFlight
        inFlightCredit := credit } := by
  unfold advanced flown
  dsimp only
  split_ifs <;> exact ⟨_, _, _, rfl⟩

theorem advanced_wire (hwrite : turn.write = true) {out : Bytes} (hroom : out.length ≤ c.space) (data : Bytes)
    (r : AsyncAbstractResponse σ) : (r.advanced turn data out c).2.wire = c.wire ++ out := by
  unfold advanced
  dsimp only
  split_ifs with hout
  · rw [flown_wire hwrite, List.take_of_length_le hroom]
  · rw [not_not.mp hout, List.append_nil]

theorem Aligned.advance (h : Aligned start content rest r wire done coded) (hframing : r.Framing content chunked)
    {source : σ} (hread : rest r.source = data ++ rest source) (hne : chunked = true → data ≠ []) :
    content = (done ++ data) ++ rest source ∧ Coded chunked (done ++ data) (coded ++ r.framed data) ∧
      sizeAdd r.sentLength data.length = (done ++ data).length % 2 ^ 32 := by
  refine ⟨?_, ?_, ?_⟩
  · rw [List.append_assoc, ← hread]
    exact h.body
  · have hcoding := h.coding
    rw [hframing.kind] at hcoding
    cases chunked with
    | true =>
      rw [framed_chunk hframing.kind]
      exact Chunks.concat hcoding (hne rfl)
    | false =>
      rw [framed_plain hframing.kind]
      exact congrArg (· ++ data) (show coded = done from hcoding)
  · unfold sizeAdd
    rw [h.count, Nat.mod_add_mod, List.length_append]

/-- The end of the body was sent. -/
def Last (r : AsyncAbstractResponse σ) (data out : Bytes) : Prop :=
  (r.chunked = true ∧ data.length = 0) ∨ (r.sendContentLength = false ∧ out.length = 0) ∨
    (r.chunked = false ∧ sizeAdd r.sentLength data.length = r.contentLength)

theorem sendData_cases (hwrite : turn.write = true) {out : Bytes} (hroom : out.length ≤ c.space) (data : Bytes)
    (r : AsyncAbstractResponse σ) :
    ∃ written inFlight credit sent, (sent : AsyncClient).wire = c.wire ++ out ∧
      ((Last r data out ∧ r.sendData turn data out c =
          ({ r with
            headLeft := []
            sentLength := sizeAdd r.sentLength data.length
            writtenLength := written
            inFlight := inFlight
            inFlightCredit := credit
            state := .waitAck }, sent)) ∨
        (¬ Last r data out ∧ r.sendData turn data out c =
          ({ r with
            headLeft := []
            sentLength := sizeAdd r.sentLength data.length
            writtenLength := written
            inFlight := inFlight
            inFlightCredit := credit }, sent))) := by
  obtain ⟨written, inFlight, credit, hadvanced⟩ := advanced_eq turn data out r c
  have hwire := advanced_wire hwrite hroom data r
  refine ⟨written, inFlight, credit, (r.advanced turn data out c).2, hwire, ?_⟩
  unfold sendData
  dsimp only
  rw [hadvanced]
  dsimp only
  split_ifs with hlast
  · exact .inl ⟨hlast, rfl⟩
  · exact .inr ⟨hlast, Prod.ext hadvanced rfl⟩

section sendData

variable {source : σ} (hwrite : turn.write = true) (hstate : r.state = .content)
  (h : Aligned start content rest r c.wire done coded) (hread : rest r.source = data ++ rest source)
  (hroom : (r.headLeft ++ r.framed data).length ≤ c.space)

include hwrite hstate h hread hroom

theorem sendData_chunked (hframing : r.Framing content true) (hlast : data = [] → rest r.source = []) :
    Sending start content true rest
      (({ r with source := source } : AsyncAbstractResponse σ).sendData turn data (r.headLeft ++ r.framed data) c).1
      (({ r with source := source } : AsyncAbstractResponse σ).sendData turn data (r.headLeft ++ r.framed data) c).2.wire := by
  obtain ⟨written, inFlight, credit, sent, hwire, hcases⟩ :=
    sendData_cases hwrite hroom data { r with source := source }
  rw [← List.append_assoc, h.bytes, List.append_assoc] at hwire
  have hkind : r.chunked = true := hframing.kind
  have hsized : r.sendContentLength = false := hframing.sized
  rcases hcases with ⟨hend, heq⟩ | ⟨hend, heq⟩
  · rw [heq]
    refine ⟨⟨hkind, hsized, nofun⟩, .whole (.inl rfl) ⟨coded, ?_, ?_⟩⟩
    all_goals
      have hnil : data = [] := by
        rcases hend with ⟨-, hzero⟩ | ⟨-, hzero⟩ | ⟨hplain, -⟩
        · exact List.eq_nil_of_length_eq_zero hzero
        · rw [framed_chunk hkind, List.length_append] at hzero
          exact absurd (Nat.eq_zero_of_add_eq_zero_left hzero) (Nat.ne_of_gt (length_chunk data))
        · exact absurd (hkind.symm.trans hplain) Bool.noConfusion
    · have hbody := h.body
      rw [hlast hnil, List.append_nil] at hbody
      rw [hbody]
      exact h.coding
    · show sent.wire = start ++ coded ++ if r.chunked = true then chunk [] else []
      rw [hwire, if_pos hkind, framed_chunk hkind, hnil, List.append_assoc]
  · rw [heq]
    have hne : data ≠ [] := fun hnil => hend (.inl ⟨hkind, by rw [hnil]; rfl⟩)
    obtain ⟨hbody, hcoding, hcount⟩ := h.advance hframing hread fun _ => hne
    refine ⟨⟨hkind, hsized, nofun⟩, .body (done ++ data) (coded ++ r.framed data) hstate rfl ⟨hbody, ?_, ?_, hcount⟩⟩
    · exact hkind.symm ▸ hcoding
    · exact (List.append_nil _).trans hwire

theorem sendData_sized (hframing : r.Framing content false) :
    Sending start content false rest
      (({ r with source := source } : AsyncAbstractResponse σ).sendData turn data (r.headLeft ++ r.framed data) c).1
      (({ r with source := source } : AsyncAbstractResponse σ).sendData turn data (r.headLeft ++ r.framed data) c).2.wire := by
  obtain ⟨written, inFlight, credit, sent, hwire, hcases⟩ :=
    sendData_cases hwrite hroom data { r with source := source }
  rw [← List.append_assoc, h.bytes, List.append_assoc] at hwire
  have hkind : r.chunked = false := hframing.kind
  have hsized : r.sendContentLength = true := hframing.sized
  obtain ⟨hlength, hlt⟩ := hframing.length rfl
  obtain ⟨hbody, hcoding, hcount⟩ := h.advance hframing hread nofun
  rcases hcases with ⟨hend, heq⟩ | ⟨-, heq⟩
  · rw [heq]
    have hall : sizeAdd r.sentLength data.length = r.contentLength := by
      rcases hend with ⟨hchunked, -⟩ | ⟨hunsized, -⟩ | ⟨-, hall⟩
      · exact absurd (hkind.symm.trans hchunked) Bool.noConfusion
      · exact absurd (hsized.symm.trans hunsized) Bool.noConfusion
      · exact hall
    have hpre : done ++ data <+: content := ⟨_, hbody.symm⟩
    have hdone : (done ++ data).length = content.length := by
      rw [hcount, hlength, Nat.mod_eq_of_lt (Nat.lt_of_le_of_lt hpre.length_le hlt)] at hall
      exact hall
    have hwhole : coded ++ r.framed data = content :=
      (show coded ++ r.framed data = done ++ data from hcoding).trans (hpre.eq_of_length hdone)
    refine ⟨⟨hkind, hsized, hframing.length⟩, .whole (.inl rfl) ⟨content, ?_, ?_⟩⟩
    · show Coded r.chunked content content
      rw [hkind]
      rfl
    · show sent.wire = start ++ content ++ if r.chunked = true then chunk [] else []
      rw [hwire, hkind, if_neg Bool.false_ne_true, hwhole, List.append_nil]
  · rw [heq]
    refine ⟨⟨hkind, hsized, hframing.length⟩,
      .body (done ++ data) (coded ++ r.framed data) hstate rfl ⟨hbody, ?_, ?_, hcount⟩⟩
    · exact hkind.symm ▸ hcoding
    · exact (List.append_nil _).trans hwire

end sendData

theorem Sending.keepsAck {acked : AsyncAbstractResponse σ × AsyncClient}
    (h : Sending start content chunked rest acked.1 acked.2.wire) :
    KeepsAck (fun r : AsyncAbstractResponse σ => r.finished) (Sending start content chunked rest)
      (Good start content chunked) (Complete start content chunked) acked :=
  ⟨h.good, fun _ => h, h.complete⟩

theorem outLen_le (space : Nat) (r : AsyncAbstractResponse σ) : r.outLen space ≤ space := by
  unfold outLen
  split_ifs with hchunked hunsized hmore
  · exact Nat.le_refl space
  · exact Nat.le_refl space
  · exact Nat.le_refl space
  · exact Nat.not_lt.mp hmore

/-- The counters of what is in flight do not matter here. -/
theorem Sending.counters (h : Sending start content chunked rest r wire) (inFlight credit acked : Nat) :
    Sending start content chunked rest
      { r with inFlight := inFlight, inFlightCredit := credit, ackedLength := acked } wire := by
  obtain ⟨⟨hkind, hsized, hlength⟩, hstage⟩ := h
  refine ⟨⟨hkind, hsized, hlength⟩, ?_⟩
  cases hstage with
  | head hstate h => exact .head hstate ⟨h.body, h.coding, h.bytes, h.count⟩
  | body done coded hstate hnil h => exact .body done coded hstate hnil ⟨h.body, h.coding, h.bytes, h.count⟩
  | whole hstate hcomplete => exact .whole hstate hcomplete

theorem inFlight_counted (len : Nat) (r : AsyncAbstractResponse σ) :
    (r.counted len).inFlight = r.inFlight - len := by
  unfold counted
  dsimp only
  split_ifs with h
  · rfl
  · rw [Nat.sub_self, Nat.sub_eq_zero_of_le (Nat.not_lt.mp h)]

variable [BodySource σ]

theorem sendContent_keeps (hhonest : Honest σ rest) (hwrite : turn.write = true)
    (hframing : r.Framing content chunked) (hstate : r.state = .content)
    (h : Aligned start content rest r c.wire done coded) {space : Nat} (hspace : space < 2 ^ 16)
    (hroom : r.headLeft.length + space ≤ c.space)
    (hpasses : r.headLeft ≠ [] → (sent = true → turn.malloc = true) ∧ r.inFlight ≤ space ∧
      (r.chunked = true → 8 < space) ∧ ∀ n, (BodySource.fillBuffer n r.source).1 ≠ none) :
    KeepsAck (fun r : AsyncAbstractResponse σ => r.finished) (Sending start content chunked rest)
      (Good start content chunked) (Complete start content chunked) (r.sendContent sent len turn space c) := by
  have hstays : ∀ {r' : AsyncAbstractResponse σ}, r.headLeft = [] → r'.Framing content chunked →
      r'.state = .content → r'.headLeft = [] → Aligned start content rest r' c.wire done coded →
      KeepsAck (fun r : AsyncAbstractResponse σ => r.finished) (Sending start content chunked rest)
        (Good start content chunked) (Complete start content chunked) (r', c) :=
    fun _ hframing' hstate' hhead' h' => Sending.keepsAck ⟨hframing', .body done coded hstate' hhead' h'⟩
  unfold sendContent
  by_cases hflight : r.inFlight > space
  · have hnil : r.headLeft = [] := not_not.mp fun hne => Nat.not_lt.mpr (hpasses hne).2.1 hflight
    rw [if_pos hflight]
    split_ifs
    · exact hstays hnil ⟨hframing.kind, hframing.sized, hframing.length⟩ hstate hnil
        ⟨h.body, h.coding, h.bytes, h.count⟩
    · exact hstays hnil hframing hstate hnil h
  rw [if_neg hflight]
  by_cases hsmall : r.chunked = true ∧ space ≤ 8
  · have hnil : r.headLeft = [] := not_not.mp fun hne =>
      Nat.not_lt.mpr hsmall.2 ((hpasses hne).2.2.1 hsmall.1)
    rw [if_pos hsmall]
    exact hstays hnil hframing hstate hnil h
  rw [if_neg hsmall]
  dsimp only
  by_cases hmalloc : (!turn.malloc) = true
  · rw [if_pos hmalloc]
    cases sent with
    | false =>
      have hgood := h.good
      rw [hframing.kind] at hgood
      have hunfinished : r.finished ≠ true := by simp [AsyncWebServerResponse.finished, hstate]
      exact ⟨hgood, fun hopen => absurd hopen Bool.false_ne_true, fun hfinished => absurd hfinished hunfinished⟩
    | true =>
      have hfailed : turn.malloc ≠ true := by simpa using hmalloc
      have hnil : r.headLeft = [] := not_not.mp fun hne => hfailed ((hpasses hne).1 rfl)
      exact hstays hnil hframing hstate hnil h
  rw [if_neg hmalloc]
  have hroom' : ∀ n, n = (if r.chunked = true then r.outLen space - 8 else r.outLen space) →
      n + (if r.chunked = true then 8 else 0) ≤ space ∧ (r.chunked = true → n ≠ 0) := by
    rintro _ rfl
    have hout := r.outLen_le space
    cases hkind : r.chunked with
    | false => exact ⟨hout, fun htrue => absurd htrue Bool.false_ne_true⟩
    | true =>
      have hbig : 8 < space := Nat.not_le.mp fun hle => hsmall ⟨hkind, hle⟩
      have hall : r.outLen space = space := if_pos hkind
      rw [if_pos rfl, if_pos rfl, hall, Nat.sub_add_cancel (Nat.le_of_lt hbig)]
      exact ⟨Nat.le_refl space, fun _ => Nat.sub_ne_zero_of_lt hbig⟩
  obtain ⟨hn, hpos⟩ := hroom' _ rfl
  generalize (if r.chunked = true then r.outLen space - 8 else r.outLen space) = n at hn hpos ⊢
  cases hfill : (BodySource.fillBuffer n r.source).1 with
  | none =>
    have hnil : r.headLeft = [] := not_not.mp fun hne => (hpasses hne).2.2.2 n hfill
    refine hstays hnil ⟨hframing.kind, hframing.sized, hframing.length⟩ hstate hnil
      ⟨?_, h.coding, h.bytes, h.count⟩
    show content = done ++ rest (BodySource.fillBuffer n r.source).2
    rw [hhonest.again n r.source hfill]
    exact h.body
  | some data =>
    obtain ⟨hread, hle, hlast⟩ := hhonest.gives n r.source data hfill
    have hframed : (r.headLeft ++ r.framed data).length ≤ c.space := by
      rw [List.length_append, framed_length (Nat.lt_of_le_of_lt (Nat.le_trans hle (Nat.le_of_add_right_le hn)) hspace)]
      exact Nat.le_trans (Nat.add_le_add_left (Nat.le_trans (Nat.add_le_add_right hle _) hn) _) hroom
    refine Sending.keepsAck ?_
    cases chunked with
    | false => exact sendData_sized hwrite hstate h hread hframed hframing
    | true =>
      exact sendData_chunked hwrite hstate h hread hframed hframing fun hnil =>
        (hlast hnil).resolve_left (hpos hframing.kind)

theorem proceed_keeps (hhonest : Honest σ rest) (hwrite : turn.write = true)
    (hsending : Sending start content chunked rest r c.wire) (hspace : c.space < 2 ^ 16)
    (hpasses : r.state = .headers → r.headLeft.length ≤ c.space →
      (sent = true → turn.malloc = true) ∧ r.inFlight ≤ c.space - r.headLeft.length ∧ (r.chunked = true → 8 < c.space - r.headLeft.length) ∧
        ∀ n, (BodySource.fillBuffer n r.source).1 ≠ none) :
    KeepsAck (fun r : AsyncAbstractResponse σ => r.finished) (Sending start content chunked rest)
      (Good start content chunked) (Complete start content chunked) (r.proceed sent len turn c) := by
  obtain ⟨⟨hkind, hsized, hlength⟩, hstage⟩ := hsending
  unfold proceed
  cases hstage with
  | head hstate h =>
    rw [hstate]
    dsimp only
    split_ifs with hfits
    · exact sendContent_keeps (r := { r with state := .content }) hhonest hwrite ⟨hkind, hsized, hlength⟩ rfl
        ⟨h.body, h.coding, h.bytes, h.count⟩ (Nat.lt_of_le_of_lt (Nat.sub_le _ _) hspace)
        (Nat.le_of_eq (Nat.add_sub_of_le hfits)) fun _ => hpasses hstate hfits
    · refine Sending.keepsAck ⟨⟨hkind, hsized, hlength⟩, .head hstate ⟨h.body, h.coding, ?_, h.count⟩⟩
      rw [flown_wire hwrite, List.take_take, min_self, List.append_assoc]
      show c.wire ++ (r.headLeft.take c.space ++ r.headLeft.drop c.space) = _
      rw [List.take_append_drop]
      exact h.bytes
  | body done coded hstate hnil h =>
    rw [hstate]
    refine sendContent_keeps hhonest hwrite ⟨hkind, hsized, hlength⟩ hstate h hspace ?_ fun hne => absurd hnil hne
    rw [hnil]
    exact Nat.le_of_eq (Nat.zero_add _)
  | whole hstate hcomplete =>
    rcases hstate with hwait | hend
    · rw [hwait]
      dsimp only
      split_ifs with hdone hclose
      · exact Sending.keepsAck ⟨⟨hkind, hsized, hlength⟩, .whole (.inr rfl) hcomplete⟩
      · exact Sending.keepsAck ⟨⟨hkind, hsized, hlength⟩, .whole (.inr rfl) hcomplete⟩
      · exact Sending.keepsAck ⟨⟨hkind, hsized, hlength⟩, .whole (.inl hwait) hcomplete⟩
    · rw [hend]
      exact Sending.keepsAck ⟨⟨hkind, hsized, hlength⟩, .whole (.inr hend) hcomplete⟩

theorem ack_keeps (hhonest : Honest σ rest) (hwrite : turn.write = true)
    (hsending : Sending start content chunked rest r c.wire) (hspace : c.space = turn.sndbuf)
    (hpasses : r.Passes sent len turn) :
    KeepsAck (fun r : AsyncAbstractResponse σ => r.finished) (Sending start content chunked rest)
      (Good start content chunked) (Complete start content chunked) (r.ack sent len turn c) := by
  have hproceed : ∀ credit, KeepsAck (fun r : AsyncAbstractResponse σ => r.finished)
      (Sending start content chunked rest) (Good start content chunked) (Complete start content chunked)
      ((({ r with inFlightCredit := credit } : AsyncAbstractResponse σ).counted len).proceed sent len turn c) := by
    intro credit
    refine proceed_keeps hhonest hwrite (hsending.counters _ credit _) (hspace ▸ turn.sndbuf_lt) fun hstate hfits => ?_
    rw [hspace, inFlight_counted]
    obtain ⟨hmalloc, hle, hchunk, hfill⟩ := hpasses hstate (hspace ▸ hfits)
    exact ⟨hmalloc, Nat.sub_le_of_le_add hle, hchunk, hfill⟩
  unfold ack
  rw [hhonest.valid, if_neg (by decide)]
  dsimp only
  by_cases hlen : len ≠ 0
  · rw [if_pos hlen]
    split_ifs
    · exact Sending.keepsAck (hsending.counters _ _ _)
    · exact hproceed _
  · rw [if_neg hlen]
    split_ifs
    · exact Sending.keepsAck hsending
    · exact hproceed _

/-- Nothing was sent of it. -/
structure Fresh (r : AsyncAbstractResponse σ) : Prop where
  headLeft : r.headLeft = []
  sentLength : r.sentLength = 0
  ackedLength : r.ackedLength = 0
  writtenLength : r.writtenLength = 0
  inFlight : r.inFlight = 0

/-- With the header that `_respond` adds. -/
def closing (r : AsyncAbstractResponse σ) : AsyncWebServerResponse :=
  r.addHeader (ascii "connection") (ascii "close") false

def headText (version : Nat) (r : AsyncAbstractResponse σ) : Bytes := (r.closing.assembleHead version).1

end AsyncAbstractResponse

namespace AsyncAbstractResponse

variable {σ : Type} {rest : σ → Bytes} {r : AsyncAbstractResponse σ} {chunked : Bool}

theorem Fresh.assembled (hfresh : r.Fresh) (version : Nat) :
    r.assembled version =
      { r with
        toAsyncWebServerResponse :=
          { r.closing with headers := (r.closing.completed version).headers, state := .headers }
        headLeft := r.headText version } := by
  have hassembled : (r.closing.assembleHead version).2 =
      { r.closing with headers := (r.closing.completed version).headers } := completed_eq version _
  unfold AsyncAbstractResponse.assembled
  dsimp only
  rw [hfresh.headLeft, show (r.addHeader _ _ _).assembleHead version = r.closing.assembleHead version from rfl,
    hassembled]
  rfl

theorem Fresh.sending (hfresh : r.Fresh) (version : Nat) (hframing : r.Framing (rest r.source) chunked)
    (wire : Bytes) :
    Sending (wire ++ r.headText version) (rest r.source) chunked rest (r.assembled version) wire := by
  rw [hfresh.assembled]
  exact ⟨⟨hframing.kind, hframing.sized, hframing.length⟩,
    .head rfl ⟨rfl, coded_nil _, (List.append_nil _).symm, hfresh.sentLength⟩⟩

end AsyncAbstractResponse

section constructors

variable (defaults : List AsyncWebHeader) (contentType : Bytes) (content : Nat → Nat → Option Bytes)

theorem progmem_new (code : Nat) {array : Bytes} (hlt : array.length < 2 ^ 32) :
    (AsyncProgmemResponse.new defaults code contentType array).Fresh ∧
      (AsyncProgmemResponse.new defaults code contentType array).Framing array false :=
  ⟨⟨rfl, rfl, rfl, rfl, rfl⟩, rfl, rfl, fun _ => ⟨rfl, hlt⟩⟩

theorem chunked_new (text : Bytes) :
    (AsyncChunkedResponse.new defaults contentType content).Fresh ∧
      (AsyncChunkedResponse.new defaults contentType content).Framing text true :=
  ⟨⟨rfl, rfl, rfl, rfl, rfl⟩, rfl, rfl, nofun⟩

/-- A length of zero stands for one that is not known. -/
theorem callback_new {text : Bytes} (hne : text ≠ []) (hlt : text.length < 2 ^ 32) :
    (AsyncCallbackResponse.new defaults contentType text.length content).Fresh ∧
      (AsyncCallbackResponse.new defaults contentType text.length content).Framing text false := by
  refine ⟨⟨rfl, rfl, rfl, rfl, rfl⟩, rfl, ?_, fun _ => ⟨rfl, hlt⟩⟩
  exact if_neg fun hzero => hne (List.eq_nil_of_length_eq_zero hzero)

end constructors

/-- `_tcp_write` takes what there is room for, and when there is room for the head, then
no more is in flight than there is room for behind it, a chunk fits there, memory is
allocated, and the source has an answer. -/
def Served {σ : Type} [BodySource σ] (x : Exchange (AsyncAbstractResponse σ)) (e : TcpEvent) : Prop :=
  e.call.2.write = true ∧ ∀ r, x.response = some r → r.Passes true e.call.1 e.call.2

section body

open AsyncAbstractResponse

variable {σ : Type} [BodySource σ] {rest : σ → Bytes} {start content : Bytes} {chunked : Bool}

theorem body_step (hhonest : Honest σ rest) {x : Exchange (AsyncAbstractResponse σ)} {e : TcpEvent}
    (h : x.Keeps (Sending start content chunked rest) (Good start content chunked)
      (AsyncAbstractResponse.Complete start content chunked)) (hserved : Served x e) :
    (x.step e).Keeps (Sending start content chunked rest) (Good start content chunked)
      (AsyncAbstractResponse.Complete start content chunked) := by
  refine step_keeps h fun r hr _ hestablished => ?_
  exact ack_keeps hhonest hserved.1 (h.kept r hr hestablished) (space_at hestablished e.call.2) (hserved.2 r hr)

/-- A body arrives whole behind its head, and nothing else. -/
theorem body_delivered (hhonest : Honest σ rest) (version : Nat) {r : AsyncAbstractResponse σ} (hfresh : r.Fresh)
    (hframing : r.Framing (rest r.source) chunked) (hwrite : turn.write = true)
    (hpasses : (r.assembled version).Passes false 0 turn) {c : AsyncClient} (hestablished : c.established = true)
    {events : List TcpEvent} {x : Exchange (AsyncAbstractResponse σ)}
    (hok : Machine.StepsOk Exchange.step Served (Exchange.start version turn r c) events)
    (hx : Machine.run Exchange.step (Exchange.start version turn r c) events = x) :
    Good (c.wire ++ r.headText version) (rest r.source) chunked x.client.wire ∧
      (x.Over → AsyncAbstractResponse.Complete (c.wire ++ r.headText version) (rest r.source) chunked
        x.client.wire) := by
  have hsending : Sending (c.wire ++ r.headText version) (rest r.source) chunked rest (r.assembled version)
      (c.at turn).wire := hfresh.sending version hframing c.wire
  have hacked := ack_keeps hhonest hwrite hsending (space_at hestablished turn) hpasses
  have hkeeps : (Exchange.start version turn r c).Keeps
      (Sending (c.wire ++ r.headText version) (rest r.source) chunked rest)
      (Good (c.wire ++ r.headText version) (rest r.source) chunked)
      (AsyncAbstractResponse.Complete (c.wire ++ r.headText version) (rest r.source) chunked) := by
    refine ⟨hacked.good, fun r' hr' hestablished' => ?_, fun hover => hacked.complete (hover _ rfl)⟩
    rw [← Option.some.inj hr']
    exact hacked.kept hestablished'
  have hrun := Machine.throughout_of_step (fun x e hx he => body_step hhonest hx he) hkeeps hok events
    List.prefix_rfl
  rw [hx] at hrun
  exact ⟨hrun.good, hrun.complete⟩

end body

end Handheld
