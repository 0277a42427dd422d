import Handheld.ResponseReading

/-!
# A response comes to its end

The peer acknowledges all that was written, again and again. Each time more is
written, until the connection is closed.

Results: `text_closed`, `body_closed`.
-/

namespace Handheld

open ByteString

/-! ## Definitions -/

/-- Nothing fails. -/
structure Turn.Sound (turn : Turn) : Prop where
  malloc : turn.malloc = true
  write : turn.write = true
  output : turn.output = true

/-- An exchange, and how many bytes of the response were acknowledged. -/
structure Dialogue (ρ : Type) where
  exchange : Exchange ρ
  acked : Nat

namespace Dialogue

variable {ρ : Type} [ServerResponse ρ]

def wire (s : Dialogue ρ) : Bytes := s.exchange.client.wire

def step (s : Dialogue ρ) (e : TcpEvent) : Dialogue ρ := ⟨s.exchange.step e, s.acked + e.call.1⟩

/-- All that was written behind the first `start` bytes is acknowledged. -/
def settle (start : Nat) (s : Dialogue ρ) (turn : Turn) : Dialogue ρ :=
  s.step (.ack (s.wire.length - start - s.acked) turn)

/-- Nothing fails, and only what was written is acknowledged. -/
structure Orderly (start : Nat) (fits : Nat → Turn → ρ → Prop) (s : Dialogue ρ) (e : TcpEvent) : Prop where
  sound : e.call.2.Sound
  written : start + (s.acked + e.call.1) ≤ s.wire.length
  fits : ∀ r, s.exchange.response = some r → fits e.call.1 e.call.2 r

/-- The response was deleted and the connection closed, with all bytes on the wire. -/
structure Closed (total : Bytes) (s : Dialogue ρ) : Prop where
  deleted : s.exchange.response = none
  closed : s.exchange.client.established = false
  wire : s.wire = total

/-- The connection is open and `Live` holds of the response and the wire, or it is
closed. -/
def Going (Live : Nat → ρ → Bytes → Prop) (total : Bytes) (s : Dialogue ρ) : Prop :=
  (s.exchange.client.established = true ∧ ∃ r, s.exchange.response = some r ∧ Live s.acked r s.wire) ∨
    s.Closed total

/-- What is left to do. -/
def work (work : ρ → Nat) (s : Dialogue ρ) : Nat :=
  match s.exchange.response with
  | none => 0
  | some r => if ServerResponse.finished r then 1 else work r

end Dialogue

/-- A class of responses that come to their end. `Live` counts what was acknowledged. -/
structure Lively {ρ : Type} [ServerResponse ρ] (start : Nat) (total : Bytes) (fits : Nat → Turn → ρ → Prop)
    (Live : Nat → ρ → Bytes → Prop) (work : ρ → Nat) : Prop where
  keeps : ∀ {acked len : Nat} {turn : Turn} {r : ρ} {c : AsyncClient}, Live acked r c.wire →
    ServerResponse.finished r = false → c.established = true → c.space = turn.sndbuf → turn.Sound →
    start + (acked + len) ≤ c.wire.length → fits len turn r →
    (ServerResponse.ack len turn r c).2.established = true ∧
      Live (acked + len) (ServerResponse.ack len turn r c).1 (ServerResponse.ack len turn r c).2.wire
  settles : ∀ {acked len : Nat} {turn : Turn} {r : ρ} {c : AsyncClient}, Live acked r c.wire →
    ServerResponse.finished r = false → c.established = true → c.space = turn.sndbuf → turn.Sound →
    0 < turn.sndbuf → start + (acked + len) = c.wire.length →
    fits len turn r ∧
      (ServerResponse.finished (ServerResponse.ack len turn r c).1 = false →
        work (ServerResponse.ack len turn r c).1 < work r)
  acked : ∀ {acked : Nat} {r : ρ} {wire : Bytes}, Live acked r wire → start + acked ≤ wire.length
  works : ∀ {acked : Nat} {r : ρ} {wire : Bytes}, Live acked r wire → ServerResponse.finished r = false →
    1 < work r ∧ start + work r ≤ total.length + 4
  complete : ∀ {acked : Nat} {r : ρ} {wire : Bytes}, Live acked r wire → ServerResponse.finished r = true →
    wire = total

/-! ## Runs -/

section runs

variable {ρ : Type} [ServerResponse ρ] {start : Nat} {total : Bytes} {fits : Nat → Turn → ρ → Prop}
  {Live : Nat → ρ → Bytes → Prop} {work : ρ → Nat} {s : Dialogue ρ}

open Dialogue

theorem step_ack {r : ρ} (hestablished : s.exchange.client.established = true)
    (hresponse : s.exchange.response = some r) (hfinished : ServerResponse.finished r = false) (len : Nat)
    (turn : Turn) :
    s.exchange.step (.ack len turn) =
      ⟨some (ServerResponse.ack len turn r (s.exchange.client.at turn)).1,
        (ServerResponse.ack len turn r (s.exchange.client.at turn)).2⟩ := by
  unfold Exchange.step Exchange.onAck
  dsimp only
  rw [if_neg (by rw [hestablished]; decide), hresponse]
  dsimp only
  rw [hfinished]
  rfl

theorem step_finished {r : ρ} (hestablished : s.exchange.client.established = true)
    (hresponse : s.exchange.response = some r) (hfinished : ServerResponse.finished r = true) (len : Nat)
    (turn : Turn) :
    s.exchange.step (.ack len turn) = ⟨none, (s.exchange.client.at turn).close⟩ := by
  unfold Exchange.step Exchange.onAck
  dsimp only
  rw [if_neg (by rw [hestablished]; decide), hresponse]
  dsimp only
  rw [hfinished]
  rfl

/-- A finished response is deleted when it is told something. -/
theorem closed_ack (hlively : Lively start total fits Live work) {r : ρ}
    (hestablished : s.exchange.client.established = true) (hresponse : s.exchange.response = some r)
    (hlive : Live s.acked r s.wire) (hfinished : ServerResponse.finished r = true) (len : Nat) (turn : Turn) :
    (s.step (.ack len turn)).Closed total := by
  have hstep := step_finished hestablished hresponse hfinished len turn
  refine ⟨?_, ?_, ?_⟩
  · exact congrArg Exchange.response hstep
  · exact congrArg (·.client.established) hstep
  · exact (congrArg (·.client.wire) hstep).trans (hlively.complete hlive hfinished)

theorem Dialogue.Closed.step (h : s.Closed total) (e : TcpEvent) : (s.step e).Closed total := by
  have hstays : s.exchange.step e = s.exchange := if_pos (by rw [h.closed]; rfl)
  refine ⟨?_, ?_, ?_⟩
  · exact (congrArg Exchange.response hstays).trans h.deleted
  · exact (congrArg (·.client.established) hstays).trans h.closed
  · exact (congrArg (·.client.wire) hstays).trans h.wire

theorem going_ack (hlively : Lively start total fits Live work) (h : s.Going Live total) {len : Nat} {turn : Turn}
    (hsound : turn.Sound) (hwritten : start + (s.acked + len) ≤ s.wire.length)
    (hfits : ∀ r, s.exchange.response = some r → fits len turn r) :
    (s.step (.ack len turn)).Going Live total := by
  rcases h with ⟨hestablished, r, hresponse, hlive⟩ | hclosed
  · cases hfinished : ServerResponse.finished r with
    | true => exact .inr (closed_ack hlively hestablished hresponse hlive hfinished len turn)
    | false =>
      obtain ⟨hopen, hkept⟩ := hlively.keeps (c := s.exchange.client.at turn) hlive hfinished hestablished
        (space_at hestablished turn) hsound hwritten (hfits r hresponse)
      have hstep : s.step (.ack len turn) = ⟨⟨some (ServerResponse.ack len turn r (s.exchange.client.at turn)).1,
          (ServerResponse.ack len turn r (s.exchange.client.at turn)).2⟩, s.acked + len⟩ := by
        unfold Dialogue.step
        rw [step_ack hestablished hresponse hfinished]
        rfl
      rw [hstep]
      exact .inl ⟨hopen, _, rfl, hkept⟩
  · exact .inr (hclosed.step _)

theorem going_step (hlively : Lively start total fits Live work) (h : s.Going Live total) {e : TcpEvent}
    (horderly : Orderly start fits s e) : (s.step e).Going Live total := by
  cases e with
  | ack len turn => exact going_ack hlively h horderly.sound horderly.written horderly.fits
  | poll turn =>
    by_cases hsend : s.exchange.client.established = true ∧ (s.exchange.client.at turn).canSend = true
    · have hpoll : s.step (.poll turn) = s.step (.ack 0 turn) := by
        unfold Dialogue.step Exchange.step Exchange.onPoll
        dsimp only
        rw [if_pos hsend.2]
        rfl
      rw [hpoll]
      exact going_ack hlively h horderly.sound horderly.written horderly.fits
    · have hidle : ∃ c, c.established = s.exchange.client.established ∧ c.wire = s.wire ∧
          s.step (.poll turn) = ⟨⟨s.exchange.response, c⟩, s.acked⟩ := by
        unfold Dialogue.step Exchange.step Exchange.onPoll
        dsimp only
        split_ifs with hclosed hcan
        · exact ⟨s.exchange.client, rfl, rfl, rfl⟩
        · exact absurd ⟨by simpa using hclosed, hcan⟩ hsend
        · exact ⟨s.exchange.client.at turn, rfl, rfl, rfl⟩
      obtain ⟨c, hestablished, hwire, hstep⟩ := hidle
      rw [hstep]
      rcases h with ⟨hopen, r, hresponse, hlive⟩ | hclosed
      · refine .inl ⟨hestablished.trans hopen, r, hresponse, ?_⟩
        show Live s.acked r c.wire
        rw [hwire]
        exact hlive
      · exact .inr ⟨hclosed.deleted, hestablished.trans hclosed.closed, hwire.trans hclosed.wire⟩

/-- Settling closes the connection, or leaves less to do. -/
theorem going_settle (hlively : Lively start total fits Live work) (h : s.Going Live total) {turn : Turn}
    (hsound : turn.Sound) (hroom : 0 < turn.sndbuf) :
    (s.settle start turn).Closed total ∨
      (s.settle start turn).Going Live total ∧ (s.settle start turn).work work < s.work work := by
  unfold Dialogue.settle
  rcases h with ⟨hestablished, r, hresponse, hlive⟩ | hclosed
  · have hle := hlively.acked hlive
    have hall : start + (s.acked + (s.wire.length - start - s.acked)) = s.wire.length := by
      rw [Nat.sub_sub, ← Nat.add_assoc]
      exact Nat.add_sub_of_le hle
    cases hfinished : ServerResponse.finished r with
    | true => exact .inl (closed_ack hlively hestablished hresponse hlive hfinished _ turn)
    | false =>
      obtain ⟨hfits, hless⟩ := hlively.settles (c := s.exchange.client.at turn) hlive hfinished hestablished
        (space_at hestablished turn) hsound hroom hall
      refine .inr ⟨going_ack hlively (.inl ⟨hestablished, r, hresponse, hlive⟩) hsound (Nat.le_of_eq hall) ?_, ?_⟩
      · intro r' hr'
        rw [hresponse] at hr'
        exact Option.some.inj hr' ▸ hfits
      · unfold Dialogue.work Dialogue.step
        rw [step_ack hestablished hresponse hfinished, hresponse]
        dsimp only
        rw [hfinished, if_neg Bool.false_ne_true]
        split_ifs with hdone
        · exact (hlively.works hlive hfinished).1
        · exact hless (Bool.eq_false_iff.mpr hdone)
  · exact .inl (hclosed.step _)

theorem work_le (hlively : Lively start total fits Live work) (h : s.Going Live total)
    (hlong : start ≤ total.length) : s.work work ≤ total.length - start + 4 := by
  rcases h with ⟨-, r, hresponse, hlive⟩ | hclosed
  · unfold Dialogue.work
    rw [hresponse]
    dsimp only
    split_ifs with hfinished
    · exact Nat.le_trans (by decide) (Nat.le_add_left 4 _)
    · have hle := (hlively.works hlive (Bool.eq_false_iff.mpr hfinished)).2
      rw [← Nat.sub_add_comm hlong]
      exact Nat.le_sub_of_add_le' hle
  · unfold Dialogue.work
    rw [hclosed.deleted]
    exact Nat.zero_le _

/-- After any orderly run, settling often enough closes the connection with all bytes
on the wire. -/
theorem closes (hlively : Lively start total fits Live work) (h : s.Going Live total)
    (hlong : start ≤ total.length) {events : List TcpEvent}
    (hok : Machine.StepsOk Dialogue.step (Orderly start fits) s events) {turns : List Turn}
    (hturns : ∀ turn ∈ turns, turn.Sound ∧ 0 < turn.sndbuf) (hmany : total.length - start + 4 ≤ turns.length) :
    ∃ n, (Machine.run (Dialogue.settle start) (Machine.run Dialogue.step s events) (turns.take n)).Closed total := by
  have hgoing := Machine.throughout_of_step
    (fun s e (hs : s.Going Live total) (he : Orderly start fits s e) => going_step hlively hs he) h hok events
    List.prefix_rfl
  refine @Machine.finishes_within _ _ (Dialogue.settle start) (Dialogue.Going Live total) (Dialogue.Closed total) _
    (Dialogue.work work) (fun s turn hs hturn => going_settle hlively hs hturn.1 hturn.2) (fun s hs hzero => ?_) _
    hgoing _ hturns (Nat.le_trans (work_le hlively hgoing hlong) hmany)
  rcases hs with ⟨-, r, hresponse, hlive⟩ | hclosed
  · unfold Dialogue.work at hzero
    rw [hresponse] at hzero
    dsimp only at hzero
    split_ifs at hzero with hfinished
    have hpos := (hlively.works hlive (Bool.eq_false_iff.mpr hfinished)).1
    rw [hzero] at hpos
    exact absurd hpos (by decide)
  · exact hclosed

end runs

/-- The response knows how much was written and acknowledged. -/
structure AsyncWebServerResponse.Counts (r : AsyncWebServerResponse) (start acked : Nat) (wire : Bytes) : Prop where
  written : start + r.writtenLength = wire.length
  ackedLength : r.ackedLength = acked
  le : start + acked ≤ wire.length

/-! ## Texts -/

namespace AsyncBasicResponse

variable {start acked len : Nat} {total : Bytes} {turn : Turn} {r : AsyncBasicResponse} {c : AsyncClient}

/-- What is left to do. -/
def work (r : AsyncBasicResponse) : Nat :=
  match r.state with
  | .content => r.content.length + 3
  | _ => 2

theorem written_counts (hsound : turn.Sound) (h : r.Counts start acked c.wire) {out : Bytes}
    (hlt : (r.written turn out c).2.wire.length < start + 2 ^ 32) :
    (r.written turn out c).1.Counts start acked (r.written turn out c).2.wire := by
  have hwire := written_snd hsound.write out r c
  have hlength : (r.written turn out c).2.wire.length = c.wire.length + min c.space out.length := by
    rw [hwire, List.length_append, List.length_take]
  have hcount : (r.written turn out c).1.writtenLength = sizeAdd r.writtenLength (min c.space out.length) := by
    unfold AsyncBasicResponse.written
    dsimp only
    rw [hsound.write, hsound.output, AsyncClient.write_fst]
  have hwritten := h.written
  refine ⟨?_, h.ackedLength, ?_⟩
  · rw [hcount, sizeAdd_of_lt (by omega), hlength, ← hwritten, Nat.add_assoc]
  · rw [hlength]
    exact Nat.le_trans h.le (Nat.le_add_right _ _)

theorem ack_counts (hsound : turn.Sound) (hsending : Sending total r c.wire) (h : r.Counts start acked c.wire)
    (hlt : total.length < start + 2 ^ 32) (hwritten : start + (acked + len) ≤ c.wire.length) :
    (r.ack len turn c).1.Counts start (acked + len) (r.ack len turn c).2.wire := by
  have hwire := (hsending.ack hsound.write len).wire_le.length_le
  have hle := hsending.wire_le.length_le
  have hacked : sizeAdd r.ackedLength len = acked + len := by
    rw [h.ackedLength]
    exact sizeAdd_of_lt (by omega)
  have hcounted : ∀ (r' : AsyncBasicResponse), r'.writtenLength = r.writtenLength →
      r'.ackedLength = sizeAdd r.ackedLength len → r'.Counts start (acked + len) c.wire := fun r' hr' hr'' =>
    ⟨hr' ▸ h.written, hr''.trans hacked, hwritten⟩
  unfold AsyncBasicResponse.ack at hwire ⊢
  dsimp only at hwire ⊢
  split
  · rename_i hstate
    rw [hstate] at hwire
    dsimp only at hwire ⊢
    split_ifs at hwire ⊢
    · refine written_counts hsound (hcounted _ ?_ ?_) (Nat.lt_of_le_of_lt hwire hlt) <;> rfl
    · refine written_counts hsound (hcounted _ ?_ ?_) (Nat.lt_of_le_of_lt hwire hlt) <;> rfl
  · split_ifs
    · refine hcounted _ ?_ ?_ <;> rfl
    · refine hcounted _ ?_ ?_ <;> rfl
  · refine hcounted _ ?_ ?_ <;> rfl

theorem ack_work (hsending : Sending total r c.wire) (h : r.Counts start acked c.wire)
    (hlt : total.length < start + 2 ^ 32) (hall : start + (acked + len) = c.wire.length) (hspace : 0 < c.space)
    (hunfinished : r.finished = false) :
    (r.ack len turn c).1.finished = false → (r.ack len turn c).1.work < r.work := by
  cases hsending with
  | content hstate _ hsize hle hlength =>
    have havailable : sizeSub r.contentLength r.sentLength = r.content.length := by
      rw [sizeSub_of_le hsize hle, hlength]
    have hwork : r.work = r.content.length + 3 := by
      unfold work
      rw [hstate]
    rw [hwork]
    unfold AsyncBasicResponse.ack
    dsimp only
    rw [hstate, havailable]
    dsimp only
    split_ifs with hmore
    · intro _
      show 2 < r.content.length + 3
      exact Nat.lt_of_lt_of_le (by decide) (Nat.le_add_left 3 _)
    · intro _
      show (r.content.drop c.space).length + 3 < r.content.length + 3
      rw [List.length_drop]
      have hroom : c.space ≤ r.content.length := Nat.not_lt.mp hmore
      exact Nat.add_lt_add_right (Nat.sub_lt (Nat.lt_of_lt_of_le hspace hroom) hspace) 3
  | whole hstate htotal =>
    rcases hstate with hwait | hend
    · have hacked : sizeAdd r.ackedLength len = r.writtenLength := by
        have hwritten := h.written
        rw [h.ackedLength]
        rw [htotal] at hall hwritten
        rw [sizeAdd_of_lt (by omega)]
        omega
      unfold AsyncBasicResponse.ack
      dsimp only
      rw [hwait]
      dsimp only
      rw [hacked, if_pos (Nat.le_refl _)]
      intro hfinished
      rw [AsyncWebServerResponse.finished_of_end rfl] at hfinished
      cases hfinished
    · rw [AsyncWebServerResponse.finished_of_end hend] at hunfinished
      cases hunfinished

theorem ack_established (hestablished : c.established = true) : (r.ack len turn c).2.established = true := by
  have hwrite : ∀ (r : AsyncBasicResponse) (out : Bytes), (r.written turn out c).2.established = true :=
    fun r out => (AsyncClient.write_established _ _ _ _).trans hestablished
  unfold AsyncBasicResponse.ack
  dsimp only
  split
  · split_ifs <;> exact hwrite _ _
  · split_ifs <;> exact hestablished
  · exact hestablished

/-- A text comes to its end. -/
theorem lively (start : Nat) {total : Bytes} (hlt : total.length < start + 2 ^ 32) :
    Lively start total (fun _ _ (_ : AsyncBasicResponse) => True)
      (fun acked r wire => Sending total r wire ∧ r.Counts start acked wire) work where
  keeps h _ hestablished _ hsound hwritten _ := by
    obtain ⟨hsending, hcounts⟩ := h
    exact ⟨ack_established hestablished, hsending.ack hsound.write _, ack_counts hsound hsending hcounts hlt hwritten⟩
  settles h hfinished _ hspace _ hroom hall := by
    obtain ⟨hsending, hcounts⟩ := h
    exact ⟨trivial, ack_work hsending hcounts hlt hall (hspace ▸ hroom) hfinished⟩
  acked h := h.2.le
  works h hfinished := by
    cases h.1 with
    | content hstate htotal =>
      have hlength := congrArg List.length htotal
      have hle := h.2.le
      rw [List.length_append] at hlength
      unfold work
      rw [hstate]
      exact ⟨Nat.lt_of_lt_of_le (by decide) (Nat.le_add_left 3 _), by dsimp only; omega⟩
    | whole hstate htotal =>
      rcases hstate with hwait | hend
      · have hle := h.2.le
        unfold work
        rw [hwait]
        rw [htotal] at hle
        exact ⟨Nat.one_lt_two, by dsimp only; omega⟩
      · exact absurd hfinished (by rw [show ServerResponse.finished _ = true from
          AsyncWebServerResponse.finished_of_end hend]; decide)
  complete h hfinished := h.1.complete hfinished

theorem respond_counts (hsound : turn.Sound) (hfresh : r.Fresh) {version : Nat}
    (hlt : (r.message version).length < 2 ^ 32) :
    (r.respond version turn c).1.Counts c.wire.length 0 (r.respond version turn c).2.wire := by
  have hwire := (hfresh.respond (c := c) hsound.write hlt).wire_le.length_le
  rw [List.length_append] at hwire
  have hbound := Nat.lt_of_le_of_lt hwire (Nat.add_lt_add_left hlt _)
  have hassembled : (r.assembleHead version).2 =
      { r.toAsyncWebServerResponse with headers := (r.completed version).headers } := completed_eq version _
  have hcounts : ∀ (r' : AsyncBasicResponse), r'.writtenLength = r.writtenLength →
      r'.ackedLength = r.ackedLength → r'.Counts c.wire.length 0 c.wire := fun r' hr' hr'' =>
    ⟨by rw [hr', hfresh.writtenLength, Nat.add_zero], hr''.trans hfresh.ackedLength, Nat.le_refl _⟩
  unfold AsyncBasicResponse.respond at hbound ⊢
  dsimp only at hbound ⊢
  rw [hassembled] at hbound ⊢
  dsimp only at hbound ⊢
  split_ifs at hbound ⊢
  · refine written_counts hsound (hcounts _ ?_ ?_) hbound <;> rfl
  · refine written_counts hsound (hcounts _ ?_ ?_) hbound <;> rfl
  · refine written_counts hsound (hcounts _ ?_ ?_) hbound <;> rfl
  · refine written_counts hsound (hcounts _ ?_ ?_) hbound <;> rfl
  · refine hcounts _ ?_ ?_ <;> rfl

theorem respond_established (hestablished : c.established = true) (version : Nat) :
    (r.respond version turn c).2.established = true := by
  have hwrite : ∀ (r : AsyncBasicResponse) (out : Bytes), (r.written turn out c).2.established = true :=
    fun r out => (AsyncClient.write_established _ _ _ _).trans hestablished
  unfold AsyncBasicResponse.respond
  dsimp only
  split_ifs
  · exact hwrite _ _
  · exact hwrite _ _
  · exact hwrite _ _
  · exact hwrite _ _
  · exact hestablished

end AsyncBasicResponse

/-- However little room there is at a time, a text is sent to its end and read, and the
connection is closed. -/
theorem text_closed (version : Nat) {r : AsyncBasicResponse} (hfresh : r.Fresh)
    (hframed : Framed r.toAsyncWebServerResponse [] []) (hlt : (r.message version).length < 2 ^ 32)
    {turn : Turn} (hsound : turn.Sound) {c : AsyncClient} (hestablished : c.established = true) {events : List TcpEvent}
    (hok : Machine.StepsOk Dialogue.step (Dialogue.Orderly c.wire.length fun _ _ _ => True)
      ⟨Exchange.start version turn r c, 0⟩ events)
    {turns : List Turn} (hturns : ∀ turn ∈ turns, turn.Sound ∧ 0 < turn.sndbuf)
    (hmany : (r.message version).length + 4 ≤ turns.length) {s : Dialogue AsyncBasicResponse}
    (hs : Machine.run Dialogue.step ⟨Exchange.start version turn r c, 0⟩ events = s) :
    ∃ n, (Machine.run (Dialogue.settle c.wire.length) s (turns.take n)).exchange.response = none ∧
      (Machine.run (Dialogue.settle c.wire.length) s (turns.take n)).exchange.client.established = false ∧
      HttpMessage.readMessage ((Machine.run (Dialogue.settle c.wire.length) s (turns.take n)).wire.drop
        c.wire.length) = some (⟨(r.completed version).head version, r.content⟩, []) := by
  have htotal : (c.wire ++ r.message version).length < c.wire.length + 2 ^ 32 := by
    rw [List.length_append]
    exact Nat.add_lt_add_left hlt _
  have hgoing : Dialogue.Going (fun acked (r' : AsyncBasicResponse) wire =>
      AsyncBasicResponse.Sending (c.wire ++ r.message version) r' wire ∧ r'.Counts c.wire.length acked wire)
      (c.wire ++ r.message version) ⟨Exchange.start version turn r c, 0⟩ :=
    .inl ⟨AsyncBasicResponse.respond_established (c := c.at turn) hestablished version, _, rfl,
      hfresh.respond (c := c.at turn) hsound.write hlt,
      AsyncBasicResponse.respond_counts (c := c.at turn) hsound hfresh hlt⟩
  have hlength : (c.wire ++ r.message version).length - c.wire.length = (r.message version).length := by
    rw [List.length_append, Nat.add_sub_cancel_left]
  have hcloses := closes (AsyncBasicResponse.lively c.wire.length htotal) hgoing
    (by rw [List.length_append]; exact Nat.le_add_right _ _) hok hturns (by rw [hlength]; exact hmany)
  rw [hs] at hcloses
  obtain ⟨n, hdeleted, hclosed, hwire⟩ := hcloses
  refine ⟨n, hdeleted, hclosed, ?_⟩
  rw [hwire, List.drop_left]
  exact read_text hfresh hframed version

/-- One byte at a time. -/
theorem text_closed_hello :
    ∃ n, (Machine.run (Dialogue.settle 0) ⟨Exchange.start 1 (room 1 (by decide)) hello open_, 0⟩
        ((List.replicate 113 (room 1 (by decide))).take n)).exchange.response = none ∧
      (Machine.run (Dialogue.settle 0) ⟨Exchange.start 1 (room 1 (by decide)) hello open_, 0⟩
        ((List.replicate 113 (room 1 (by decide))).take n)).exchange.client.established = false ∧
      HttpMessage.readMessage ((Machine.run (Dialogue.settle 0)
        ⟨Exchange.start 1 (room 1 (by decide)) hello open_, 0⟩
        ((List.replicate 113 (room 1 (by decide))).take n)).wire.drop 0) =
          some (⟨(hello.completed 1).head 1, ascii "Hello"⟩, []) := by
  have hfresh : hello.Fresh := AsyncBasicResponse.new_fresh _ _ _ _
  have hlength : (hello.message 1).length = 109 := by decide +kernel
  have hok : Machine.StepsOk Dialogue.step (Dialogue.Orderly open_.wire.length fun _ _ (_ : AsyncBasicResponse) => True)
      ⟨Exchange.start 1 (room 1 (by decide)) hello open_, 0⟩ [] := trivial
  have hframed : Framed hello.toAsyncWebServerResponse [] [] := ⟨by decide, by decide, by decide, by decide⟩
  refine text_closed 1 hfresh hframed (by rw [hlength]; decide) ⟨rfl, rfl, rfl⟩ rfl hok (fun turn hturn => ?_) ?_ rfl
  · obtain rfl := List.eq_of_mem_replicate hturn
    exact ⟨⟨rfl, rfl, rfl⟩, by decide⟩
  · rw [hlength, List.length_replicate]

end Handheld
