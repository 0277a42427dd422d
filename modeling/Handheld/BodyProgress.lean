import Handheld.ResponseProgress

/-!
# A body of known length comes to its end

A response holds back while more is in flight than there is room for. It never waits
for itself: when all is acknowledged, nothing is in flight.

Result: `body_closed`.
-/

namespace Handheld

open ByteString

namespace AsyncAbstractResponse

/-! ## Definitions -/

section counts

variable {σ : Type} {start acked len : Nat} {content startText : Bytes} {turn : Turn} {c : AsyncClient}
  {rest : σ → Bytes} {r : AsyncAbstractResponse σ} {wire done data out : Bytes}

/-- The response also knows how much is in flight. -/
structure Flows (r : AsyncAbstractResponse σ) (start acked : Nat) (wire : Bytes) : Prop where
  counts : r.Counts start acked wire
  inFlight : start + acked + r.inFlight = wire.length

/-- What is left to do. -/
def work (rest : σ → Bytes) (r : AsyncAbstractResponse σ) : Nat :=
  match r.state with
  | .headers => r.headLeft.length + (rest r.source).length + 4
  | .content => (rest r.source).length + 3
  | _ => 2

/-! ## Counting -/

/-- A body that is not in chunks goes out as it is. -/
theorem Complete.wire_eq (h : Complete startText content false wire) : wire = startText ++ content := by
  obtain ⟨coded, hcoded, hwire⟩ := h
  have hplain : coded = content := hcoded
  rw [hwire, hplain, if_neg Bool.false_ne_true, List.append_nil]

theorem Good.wire_le (h : Good startText content false wire) : wire <+: startText ++ content := by
  rcases h with ⟨done, coded, hdone, hcoded, hwire⟩ | hcomplete
  · have hplain : coded = done := hcoded
    rw [hplain] at hwire
    exact hwire.trans (List.prefix_append_right_inj startText |>.mpr hdone)
  · rw [hcomplete.wire_eq]

theorem Sending.wire_le (h : Sending startText content false rest r wire) : wire <+: startText ++ content :=
  h.good.wire_le

theorem Aligned.plain {coded : Bytes} (h : Aligned startText content rest r wire done coded)
    (hframing : r.Framing content false) : coded = done := by
  have hcoding := h.coding
  rw [hframing.kind] at hcoding
  exact hcoding

theorem work_headers (hstate : r.state = .headers) :
    r.work rest = r.headLeft.length + (rest r.source).length + 4 := by
  unfold work
  rw [hstate]

theorem work_content (hstate : r.state = .content) : r.work rest = (rest r.source).length + 3 := by
  unfold work
  rw [hstate]

theorem work_waitAck (hstate : r.state = .waitAck) : r.work rest = 2 := by
  unfold work
  rw [hstate]

/-- The rest of a body of known length. -/
theorem Aligned.unsent (h : Aligned startText content rest r wire done data) (hframing : r.Framing content false) :
    sizeSub r.contentLength r.sentLength = (rest r.source).length := by
  obtain ⟨hlength, hlt⟩ := hframing.length rfl
  have hsum := congrArg List.length h.body
  rw [List.length_append] at hsum
  rw [h.count, hlength, Nat.mod_eq_of_lt (by omega), sizeSub_of_le hlt (by omega)]
  omega

/-- Only three counters matter. -/
theorem Flows.congr {r' : AsyncAbstractResponse σ} (h : r.Flows start acked wire)
    (hwritten : r'.writtenLength = r.writtenLength) (hacked : r'.ackedLength = r.ackedLength)
    (hflight : r'.inFlight = r.inFlight) : r'.Flows start acked wire := by
  refine ⟨⟨?_, hacked.trans h.counts.ackedLength, h.counts.le⟩, ?_⟩
  · rw [hwritten]
    exact h.counts.written
  · rw [hflight]
    exact h.inFlight

theorem flown_flows (hsound : turn.Sound) (h : r.Flows start acked c.wire)
    (hlt : (r.flown turn out c).2.wire.length < start + 2 ^ 32) (hroom : out.length ≤ c.space) :
    (r.flown turn out c).1.Flows start acked (r.flown turn out c).2.wire := by
  have hlength : (r.flown turn out c).2.wire.length = c.wire.length + out.length := by
    rw [flown_wire hsound.write, List.length_append, List.take_of_length_le hroom]
  have hwritten : (r.flown turn out c).1.writtenLength = sizeAdd r.writtenLength out.length := by
    unfold flown
    dsimp only
    rw [hsound.write, hsound.output, AsyncClient.write_fst, min_eq_right hroom]
  have hflight : (r.flown turn out c).1.inFlight = sizeAdd r.inFlight out.length := rfl
  obtain ⟨⟨hw, ha, hle⟩, hf⟩ := h
  refine ⟨⟨?_, ha, ?_⟩, ?_⟩
  · rw [hwritten, sizeAdd_of_lt (by omega), hlength, ← hw, Nat.add_assoc]
  · rw [hlength]
    exact Nat.le_trans hle (Nat.le_add_right _ _)
  · rw [hflight, sizeAdd_of_lt (by omega), hlength, ← hf]
    exact (Nat.add_assoc _ _ _).symm

theorem sendData_flows (hsound : turn.Sound) (h : r.Flows start acked c.wire)
    (hlt : (r.sendData turn data out c).2.wire.length < start + 2 ^ 32) (hroom : out.length ≤ c.space) :
    (r.sendData turn data out c).1.Flows start acked (r.sendData turn data out c).2.wire := by
  have hadvanced : (r.advanced turn data out c).2.wire.length < start + 2 ^ 32 →
      (r.advanced turn data out c).1.Flows start acked (r.advanced turn data out c).2.wire := by
    have hempty : ({ r with headLeft := [] } : AsyncAbstractResponse σ).Flows start acked c.wire :=
      h.congr rfl rfl rfl
    unfold advanced
    dsimp only
    split_ifs
    · intro hlt
      exact (flown_flows hsound hempty hlt hroom).congr rfl rfl rfl
    · exact fun _ => h.congr rfl rfl rfl
  unfold sendData at hlt ⊢
  dsimp only at hlt ⊢
  split_ifs at hlt ⊢
  · exact (hadvanced hlt).congr rfl rfl rfl
  · exact hadvanced hlt

/-- Of a body that is not at its end, what is read of it is less to do. -/
theorem sendData_work (hwrite : turn.write = true) (hframing : r.Framing content false) (hstate : r.state = .content)
    (h : Aligned startText content rest r wire done done) {source : σ} (hread : rest r.source = data ++ rest source)
    (hroom : out.length ≤ c.space) :
    (({ r with source := source } : AsyncAbstractResponse σ).sendData turn data out c).1.work rest ≤
        (rest r.source).length + 3 ∧
      ((data = [] → rest r.source = []) →
        (({ r with source := source } : AsyncAbstractResponse σ).sendData turn data out c).1.work rest <
          (rest r.source).length + 3) := by
  obtain ⟨hlength, hsmall⟩ := hframing.length rfl
  obtain ⟨written, inFlight, credit, sent, -, hcases⟩ :=
    sendData_cases hwrite hroom data { r with source := source }
  rcases hcases with ⟨-, hdata⟩ | ⟨hmore, hdata⟩
  · have hwork : (({ r with source := source } : AsyncAbstractResponse σ).sendData turn data out c).1.work rest = 2 := by
      rw [hdata]
      exact work_waitAck rfl
    rw [hwork]
    exact ⟨by omega, fun _ => by omega⟩
  · have hwork : (({ r with source := source } : AsyncAbstractResponse σ).sendData turn data out c).1.work rest =
        (rest source).length + 3 := by
      rw [hdata]
      exact work_content hstate
    rw [hwork, hread, List.length_append]
    refine ⟨Nat.add_le_add_right (Nat.le_add_left _ _) 3, fun hlast => ?_⟩
    have hne : data ≠ [] := by
      intro hnil
      -- all was sent before, and the lengths agree
      have hall := h.body
      rw [hread, hlast hnil, List.append_nil] at hall
      refine hmore (.inr (.inr ⟨hframing.kind, ?_⟩))
      show sizeAdd r.sentLength data.length = r.contentLength
      rw [hall] at hsmall
      rw [h.count, hnil, hlength, hall, Nat.mod_eq_of_lt hsmall]
      exact sizeAdd_of_lt hsmall
    have hdata := List.length_pos_iff.mpr hne
    omega

theorem sendData_established (hestablished : c.established = true) :
    (r.sendData turn data out c).2.established = true := by
  unfold sendData advanced flown
  dsimp only
  split_ifs <;> first | exact hestablished | exact (AsyncClient.write_established _ _ _ _).trans hestablished

end counts

/-! ## Calls -/

section calls

variable {σ : Type} [BodySource σ] {sent : Bool} {start acked len space : Nat} {content startText : Bytes} {turn : Turn}
  {c : AsyncClient} {rest : σ → Bytes} {r : AsyncAbstractResponse σ} {done : Bytes}

/-- Nothing fails and the source always has an answer. -/
theorem sendContent_cases (hhonest : Honest σ rest) (heager : ∀ n (s : σ), (BodySource.fillBuffer n s).1 ≠ none)
    (hsound : turn.Sound) (hframing : r.Framing content false)
    (h : Aligned startText content rest r c.wire done done) (sent : Bool) (len space : Nat) :
    (space < r.inFlight ∧ ∃ credit, r.sendContent sent len turn space c = ({ r with inFlightCredit := credit }, c)) ∨
      (r.inFlight ≤ space ∧ ∃ data source, rest r.source = data ++ rest source ∧ data.length ≤ space ∧
        (data = [] → space = 0 ∨ rest r.source = []) ∧
        r.sendContent sent len turn space c =
          ({ r with source := source } : AsyncAbstractResponse σ).sendData turn data (r.headLeft ++ data) c) := by
  have hkind : r.chunked = false := hframing.kind
  have hsized : r.sendContentLength = true := hframing.sized
  have hout : r.outLen space = min (rest r.source).length space := by
    unfold outLen
    rw [if_neg (by rw [hkind]; exact Bool.false_ne_true), if_neg (by rw [hsized]; decide), h.unsent hframing]
    split_ifs with hmore
    · exact (min_eq_right (Nat.le_of_lt hmore)).symm
    · exact (min_eq_left (Nat.not_lt.mp hmore)).symm
  unfold sendContent
  by_cases hflight : r.inFlight > space
  · rw [if_pos hflight]
    refine .inl ⟨hflight, ?_⟩
    split_ifs
    · exact ⟨_, rfl⟩
    · exact ⟨r.inFlightCredit, rfl⟩
  · rw [if_neg hflight, if_neg fun hsmall => Bool.false_ne_true (hkind.symm.trans hsmall.1)]
    dsimp only
    rw [if_neg (by rw [hsound.malloc]; decide), if_neg (by rw [hkind]; exact Bool.false_ne_true), hout]
    refine .inr ⟨Nat.not_lt.mp hflight, ?_⟩
    cases hfill : (BodySource.fillBuffer (min (rest r.source).length space) r.source).1 with
    | none => exact absurd hfill (heager _ _)
    | some data =>
      obtain ⟨hread, hle, hlast⟩ := hhonest.gives _ r.source data hfill
      refine ⟨data, _, hread, Nat.le_trans hle (Nat.min_le_right _ _), fun hnil => ?_, ?_⟩
      · rcases hlast hnil with hzero | hdone
        · rcases Nat.min_eq_zero_iff.mp hzero with hrest | hspace
          · exact .inr (List.eq_nil_of_length_eq_zero hrest)
          · exact .inl hspace
        · exact .inr hdone
      · have hplain : ∀ source, ({ r with source := source } : AsyncAbstractResponse σ).framed data = data :=
          fun source => framed_plain (r := { r with source := source }) hkind data
        dsimp only
        rw [hplain]

variable (hhonest : Honest σ rest) (heager : ∀ n (s : σ), (BodySource.fillBuffer n s).1 ≠ none)
  (hsound : turn.Sound) (hestablished : c.established = true)

include hhonest heager hsound hestablished

theorem sendContent_moves (hframing : r.Framing content false) (hstate : r.state = .content)
    (h : Aligned startText content rest r c.wire done done) (hflows : r.Flows start acked c.wire)
    (hlt : (r.sendContent sent len turn space c).2.wire.length < start + 2 ^ 32)
    (hroom : r.headLeft.length + space ≤ c.space) :
    (r.sendContent sent len turn space c).2.established = true ∧
      (r.sendContent sent len turn space c).1.Flows start acked (r.sendContent sent len turn space c).2.wire ∧
      (r.inFlight = 0 → (r.sendContent sent len turn space c).1.work rest ≤ (rest r.source).length + 3 ∧
        (0 < space → (r.sendContent sent len turn space c).1.work rest < (rest r.source).length + 3)) := by
  rcases sendContent_cases hhonest heager hsound hframing h sent len space with
    ⟨hflight, credit, heq⟩ | ⟨-, data, source, hread, hle, hlast, heq⟩
  · rw [heq]
    exact ⟨hestablished, hflows.congr rfl rfl rfl, fun hzero => absurd (hzero ▸ hflight) (Nat.not_lt_zero _)⟩
  · have hout : (r.headLeft ++ data).length ≤ c.space := by
      rw [List.length_append]
      exact Nat.le_trans (Nat.add_le_add_left hle _) hroom
    rw [heq] at hlt ⊢
    refine ⟨sendData_established hestablished, ?_, fun _ => ?_⟩
    · exact sendData_flows hsound (r := { r with source := source }) (hflows.congr rfl rfl rfl) hlt hout
    · obtain ⟨hle, hless⟩ := sendData_work (c := c) hsound.write hframing hstate h hread hout
      exact ⟨hle, fun hpos => hless fun hnil => (hlast hnil).resolve_left (Nat.ne_of_gt hpos)⟩

theorem proceed_moves (hsending : Sending startText content false rest r c.wire)
    (hflows : r.Flows start acked c.wire) (hlt : (r.proceed sent len turn c).2.wire.length < start + 2 ^ 32) :
    (r.proceed sent len turn c).2.established = true ∧
      (r.proceed sent len turn c).1.Flows start acked (r.proceed sent len turn c).2.wire ∧
      (r.inFlight = 0 → 0 < c.space → r.finished = false → (r.proceed sent len turn c).1.finished = false →
        (r.proceed sent len turn c).1.work rest < r.work rest) := by
  obtain ⟨hframing, hstage⟩ := hsending
  unfold proceed at hlt ⊢
  cases hstage with
  | head hstate h =>
    rw [work_headers hstate]
    rw [hstate] at hlt ⊢
    dsimp only at hlt ⊢
    split_ifs at hlt ⊢ with hfits
    · obtain ⟨hopen, hcounts, hless⟩ := sendContent_moves hhonest heager hsound hestablished
        (r := { r with state := .content }) ⟨hframing.kind, hframing.sized, hframing.length⟩ rfl
        ⟨h.body, h.coding, h.bytes, h.count⟩
        (hflows.congr rfl rfl rfl) hlt (Nat.le_of_eq (Nat.add_sub_of_le hfits))
      refine ⟨hopen, hcounts, fun hzero _ _ _ => Nat.lt_of_le_of_lt (hless hzero).1 ?_⟩
      exact Nat.add_lt_add_of_le_of_lt (Nat.le_add_left _ _) (by decide)
    · have hroom : (r.headLeft.take c.space).length ≤ c.space := List.length_take_le _ _
      refine ⟨(AsyncClient.write_established _ _ _ _).trans hestablished, ?_, fun _ hspace _ _ => ?_⟩
      · exact flown_flows hsound (r := { r with headLeft := r.headLeft.drop c.space })
          (hflows.congr rfl rfl rfl) hlt hroom
      · refine lt_of_eq_of_lt (work_headers hstate) ?_
        show (r.headLeft.drop c.space).length + (rest r.source).length + 4 < _
        rw [List.length_drop]
        omega
  | body done coded hstate hnil h =>
    rw [h.plain hframing] at h
    rw [work_content hstate]
    rw [hstate] at hlt ⊢
    dsimp only at hlt ⊢
    obtain ⟨hopen, hcounts, hless⟩ := sendContent_moves hhonest heager hsound hestablished hframing hstate h hflows
      hlt (by rw [hnil]; exact Nat.le_of_eq (Nat.zero_add _))
    exact ⟨hopen, hcounts, fun hzero hspace _ _ => (hless hzero).2 hspace⟩
  | whole hstate _ =>
    rcases hstate with hwait | hend
    · have hsized : r.sendContentLength = true := hframing.sized
      rw [hwait]
      dsimp only
      split_ifs with hdone hclose
      · rw [hsized, Bool.not_true, Bool.and_false] at hclose
        cases hclose
      · refine ⟨hestablished, hflows.congr rfl rfl rfl, fun _ _ _ hfinished => ?_⟩
        rw [AsyncWebServerResponse.finished_of_end rfl] at hfinished
        cases hfinished
      · refine ⟨hestablished, hflows, fun hzero _ _ _ => absurd (.inr ?_) hdone⟩
        have hwritten := hflows.counts.written
        have hflight := hflows.inFlight
        have hacked := hflows.counts.ackedLength
        show r.writtenLength ≤ r.ackedLength
        omega
    · rw [hend]
      refine ⟨hestablished, hflows, fun _ _ hunfinished => ?_⟩
      rw [AsyncWebServerResponse.finished_of_end hend] at hunfinished
      cases hunfinished

theorem ack_moves (hsending : Sending startText content false rest r c.wire) (hflows : r.Flows start acked c.wire)
    (hbound : (startText ++ content).length < start + 2 ^ 32) (hspace : c.space = turn.sndbuf)
    (hwritten : start + (acked + len) ≤ c.wire.length) (hpasses : r.Passes sent len turn) :
    (r.ack sent len turn c).2.established = true ∧
      Sending startText content false rest (r.ack sent len turn c).1 (r.ack sent len turn c).2.wire ∧
      (r.ack sent len turn c).1.Flows start (acked + len) (r.ack sent len turn c).2.wire ∧
      (start + (acked + len) = c.wire.length → 0 < turn.sndbuf → r.finished = false →
        (r.ack sent len turn c).1.finished = false → (r.ack sent len turn c).1.work rest < r.work rest) := by
  have hkeeps := ack_keeps hhonest hsound.write hsending hspace hpasses
  have hkind : r.chunked = false := hsending.framing.kind
  have hack : ∃ credit, r.ack sent len turn c =
      (({ r with inFlightCredit := credit } : AsyncAbstractResponse σ).counted len).proceed sent len turn c := by
    unfold ack
    rw [hhonest.valid, if_neg (by decide)]
    dsimp only
    by_cases hlen : len ≠ 0
    · rw [if_pos hlen, if_neg fun h => Bool.false_ne_true (hkind.symm.trans h.1)]
      exact ⟨_, rfl⟩
    · rw [if_neg hlen, if_neg fun h => Bool.false_ne_true (hkind.symm.trans h.1)]
      exact ⟨r.inFlightCredit, rfl⟩
  obtain ⟨credit, hproceed⟩ := hack
  rw [hproceed] at hkeeps ⊢
  have hwire := hsending.wire_le.length_le
  have hacked : sizeAdd r.ackedLength len = acked + len := by
    rw [hflows.counts.ackedLength]
    exact sizeAdd_of_lt (by omega)
  have hflight := hflows.inFlight
  have hcounted : (({ r with inFlightCredit := credit } : AsyncAbstractResponse σ).counted len).Flows start
      (acked + len) c.wire := by
    refine ⟨⟨hflows.counts.written, hacked, hwritten⟩, ?_⟩
    rw [inFlight_counted]
    show start + (acked + len) + (r.inFlight - len) = c.wire.length
    omega
  have hafter : ((({ r with inFlightCredit := credit } : AsyncAbstractResponse σ).counted len).proceed sent len turn
      c).2.wire.length < start + 2 ^ 32 := by
    exact Nat.lt_of_le_of_lt hkeeps.good.wire_le.length_le hbound
  obtain ⟨hopen, hflows', hless⟩ := proceed_moves hhonest heager hsound hestablished
    (hsending.counters _ credit _) hcounted hafter
  refine ⟨hopen, hkeeps.kept hopen, hflows', fun hall hroom hunfinished hunfinished' => ?_⟩
  have hzero : (({ r with inFlightCredit := credit } : AsyncAbstractResponse σ).counted len).inFlight = 0 := by
    rw [inFlight_counted]
    show r.inFlight - len = 0
    omega
  exact hless hzero (hspace ▸ hroom) hunfinished hunfinished'

end calls

/-- A body of known length comes to its end. -/
theorem lively {σ : Type} [BodySource σ] {rest : σ → Bytes} (hhonest : Honest σ rest)
    (heager : ∀ n (s : σ), (BodySource.fillBuffer n s).1 ≠ none) (start : Nat) {startText content : Bytes}
    (hbound : (startText ++ content).length < start + 2 ^ 32) :
    Lively start (startText ++ content) (fun len turn (r : AsyncAbstractResponse σ) => r.Passes true len turn)
      (fun acked r wire => Sending startText content false rest r wire ∧ r.Flows start acked wire) (work rest) where
  keeps h _ hestablished hspace hsound hwritten hpasses := by
    obtain ⟨hsending, hflows⟩ := h
    obtain ⟨hopen, hsending', hflows', -⟩ :=
      ack_moves hhonest heager hsound hestablished hsending hflows hbound hspace hwritten hpasses
    exact ⟨hopen, hsending', hflows'⟩
  settles {acked len turn r c} h hfinished hestablished hspace hsound hroom hall := by
    obtain ⟨hsending, hflows⟩ := h
    have hpasses : r.Passes true len turn := by
      intro _ _
      have hflight := hflows.inFlight
      refine ⟨fun _ => hsound.malloc, by omega, fun hchunked => ?_, fun n => heager n _⟩
      exact absurd (hsending.framing.kind.symm.trans hchunked) Bool.false_ne_true
    obtain ⟨-, -, -, hless⟩ := ack_moves hhonest heager hsound hestablished hsending hflows hbound hspace
      (Nat.le_of_eq hall) hpasses
    exact ⟨hpasses, hless hall hroom hfinished⟩
  acked h := h.2.counts.le
  works {acked r wire} h hfinished := by
    obtain ⟨hsending, hflows⟩ := h
    have hle := hflows.counts.le
    rw [List.length_append]
    cases hsending.stage with
    | head hstate haligned =>
      have hbody := congrArg List.length haligned.body
      have hbytes := congrArg List.length haligned.bytes
      simp only [List.length_append, List.length_nil, List.append_nil] at hbody hbytes
      rw [work_headers hstate]
      omega
    | body done coded hstate hnil haligned =>
      have hbody := congrArg List.length haligned.body
      have hbytes := congrArg List.length haligned.bytes
      rw [haligned.plain hsending.framing] at hbytes
      simp only [List.length_append] at hbody hbytes
      rw [work_content hstate]
      omega
    | whole hstate hcomplete =>
      rcases hstate with hwait | hend
      · have hwire := hsending.wire_le.length_le
        rw [List.length_append] at hwire
        rw [work_waitAck hwait]
        omega
      · exact absurd hfinished (by rw [show ServerResponse.finished r = true from
          AsyncWebServerResponse.finished_of_end hend]; decide)
  complete h hfinished := (h.1.complete hfinished).wire_eq

end AsyncAbstractResponse

section closed

open AsyncAbstractResponse

/-- A body of known length is sent and the connection closed. -/
theorem body_closes {σ : Type} [BodySource σ] {rest : σ → Bytes} (hhonest : Honest σ rest)
    (heager : ∀ n (s : σ), (BodySource.fillBuffer n s).1 ≠ none) (version : Nat) {r : AsyncAbstractResponse σ}
    (hfresh : r.Fresh) (hframing : r.Framing (rest r.source) false)
    (hlt : (r.headText version ++ rest r.source).length < 2 ^ 32) {turn : Turn} (hsound : turn.Sound)
    {c : AsyncClient} (hestablished : c.established = true) {events : List TcpEvent}
    (hok : Machine.StepsOk Dialogue.step
      (Dialogue.Orderly c.wire.length fun len turn (r : AsyncAbstractResponse σ) => r.Passes true len turn)
      ⟨Exchange.start version turn r c, 0⟩ events)
    {turns : List Turn} (hturns : ∀ turn ∈ turns, turn.Sound ∧ 0 < turn.sndbuf)
    (hmany : (r.headText version ++ rest r.source).length + 4 ≤ turns.length)
    {s : Dialogue (AsyncAbstractResponse σ)}
    (hs : Machine.run Dialogue.step ⟨Exchange.start version turn r c, 0⟩ events = s) :
    ∃ n, (Machine.run (Dialogue.settle c.wire.length) s (turns.take n)).Closed
      (c.wire ++ r.headText version ++ rest r.source) := by
  have hbound : (c.wire ++ r.headText version ++ rest r.source).length < c.wire.length + 2 ^ 32 := by
    rw [List.append_assoc, List.length_append]
    exact Nat.add_lt_add_left hlt _
  have hsending : Sending (c.wire ++ r.headText version) (rest r.source) false rest (r.assembled version)
      (c.at turn).wire := hfresh.sending version hframing c.wire
  have hflows : (r.assembled version).Flows c.wire.length 0 (c.at turn).wire := by
    rw [hfresh.assembled]
    refine ⟨⟨?_, hfresh.ackedLength, Nat.le_refl _⟩, ?_⟩
    · show c.wire.length + r.writtenLength = c.wire.length
      rw [hfresh.writtenLength, Nat.add_zero]
    · show c.wire.length + 0 + r.inFlight = c.wire.length
      rw [hfresh.inFlight]
      rfl
  have hpasses : (r.assembled version).Passes false 0 turn := by
    rw [hfresh.assembled]
    intro _ _
    refine ⟨nofun, ?_, fun hchunked => ?_, fun n => heager n _⟩
    · rw [hfresh.inFlight]
      exact Nat.zero_le _
    · exact absurd (hframing.kind.symm.trans hchunked) Bool.false_ne_true
  obtain ⟨hopen, hsending', hflows', -⟩ := ack_moves hhonest heager hsound (c := c.at turn) hestablished hsending
    hflows hbound (space_at hestablished turn) (Nat.le_refl _) hpasses
  have hgoing : Dialogue.Going (fun acked (r' : AsyncAbstractResponse σ) wire =>
      Sending (c.wire ++ r.headText version) (rest r.source) false rest r' wire ∧ r'.Flows c.wire.length acked wire)
      (c.wire ++ r.headText version ++ rest r.source) ⟨Exchange.start version turn r c, 0⟩ :=
    .inl ⟨hopen, _, rfl, hsending', hflows'⟩
  have hlength : (c.wire ++ r.headText version ++ rest r.source).length - c.wire.length =
      (r.headText version ++ rest r.source).length := by
    rw [List.append_assoc, List.length_append, Nat.add_sub_cancel_left]
  have hlong : c.wire.length ≤ (c.wire ++ r.headText version ++ rest r.source).length := by
    rw [List.append_assoc, List.length_append]
    exact Nat.le_add_right _ _
  have hcloses := closes (AsyncAbstractResponse.lively hhonest heager c.wire.length hbound) hgoing hlong hok hturns
    (by rw [hlength]; exact hmany)
  rw [hs] at hcloses
  exact hcloses

/-- However little room there is at a time, a body of known length is sent to its end
and read, and the connection is closed. -/
theorem body_closed {σ : Type} [BodySource σ] {rest : σ → Bytes} (hhonest : Honest σ rest)
    (heager : ∀ n (s : σ), (BodySource.fillBuffer n s).1 ≠ none) (version : Nat) {r : AsyncAbstractResponse σ}
    (hfresh : r.Fresh) (hframing : r.Framing (rest r.source) false) (hframed : Framed r.closing [] [])
    (hlt : (r.headText version ++ rest r.source).length < 2 ^ 32) {turn : Turn} (hsound : turn.Sound)
    {c : AsyncClient} (hestablished : c.established = true) {events : List TcpEvent}
    (hok : Machine.StepsOk Dialogue.step
      (Dialogue.Orderly c.wire.length fun len turn (r : AsyncAbstractResponse σ) => r.Passes true len turn)
      ⟨Exchange.start version turn r c, 0⟩ events)
    {turns : List Turn} (hturns : ∀ turn ∈ turns, turn.Sound ∧ 0 < turn.sndbuf)
    (hmany : (r.headText version ++ rest r.source).length + 4 ≤ turns.length)
    {s : Dialogue (AsyncAbstractResponse σ)}
    (hs : Machine.run Dialogue.step ⟨Exchange.start version turn r c, 0⟩ events = s) :
    ∃ n, (Machine.run (Dialogue.settle c.wire.length) s (turns.take n)).exchange.response = none ∧
      (Machine.run (Dialogue.settle c.wire.length) s (turns.take n)).exchange.client.established = false ∧
      HttpMessage.readMessage ((Machine.run (Dialogue.settle c.wire.length) s (turns.take n)).wire.drop
        c.wire.length) = some (⟨(r.closing.completed version).head version, rest r.source⟩, []) := by
  obtain ⟨n, hdeleted, hclosed, hwire⟩ :=
    body_closes hhonest heager version hfresh hframing hlt hsound hestablished hok hturns hmany hs
  refine ⟨n, hdeleted, hclosed, ?_⟩
  rw [hwire]
  exact read_body hframing nofun hframed ⟨rest r.source, rfl, (List.append_nil _).symm⟩

def helloArray : AsyncAbstractResponse ProgmemSource :=
  AsyncProgmemResponse.new [] 200 (ascii "text/plain") (ascii "Hello")

theorem body_closed_hello :
    ∃ n, (Machine.run (Dialogue.settle 0) ⟨Exchange.start 1 (room 1 (by decide)) helloArray open_, 0⟩
        ((List.replicate 113 (room 1 (by decide))).take n)).exchange.response = none ∧
      (Machine.run (Dialogue.settle 0) ⟨Exchange.start 1 (room 1 (by decide)) helloArray open_, 0⟩
        ((List.replicate 113 (room 1 (by decide))).take n)).exchange.client.established = false ∧
      HttpMessage.readMessage ((Machine.run (Dialogue.settle 0)
        ⟨Exchange.start 1 (room 1 (by decide)) helloArray open_, 0⟩
        ((List.replicate 113 (room 1 (by decide))).take n)).wire.drop 0) =
          some (⟨(helloArray.closing.completed 1).head 1, ascii "Hello"⟩, []) := by
  obtain ⟨hfresh, hframing⟩ : helloArray.Fresh ∧ helloArray.Framing (ascii "Hello") false :=
    progmem_new _ _ _ (by decide)
  have hlength : (helloArray.headText 1 ++ helloArray.source.unread).length = 109 := by decide +kernel
  have heager : ∀ n (s : ProgmemSource), (BodySource.fillBuffer n s).1 ≠ none := by
    intro n s
    obtain ⟨k, hfill, -⟩ := s.fillBuffer_eq n
    exact fun hnone => Option.some_ne_none _ ((congrArg Prod.fst hfill).symm.trans hnone)
  have hok : Machine.StepsOk Dialogue.step
      (Dialogue.Orderly open_.wire.length fun len turn (r : AsyncAbstractResponse ProgmemSource) => r.Passes true len turn)
      ⟨Exchange.start 1 (room 1 (by decide)) helloArray open_, 0⟩ [] := trivial
  have hframed : Framed helloArray.closing [] [] := ⟨by decide, by decide, by decide, by decide⟩
  refine body_closed honest_progmem heager 1 hfresh hframing hframed (by rw [hlength]; decide) ⟨rfl, rfl, rfl⟩
    rfl hok (fun turn hturn => ?_) ?_ rfl
  · obtain rfl := List.eq_of_mem_replicate hturn
    exact ⟨⟨rfl, rfl, rfl⟩, by decide⟩
  · rw [hlength, List.length_replicate]

end closed

end Handheld
