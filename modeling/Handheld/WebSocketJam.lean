import Handheld.WebSocketAcks

/-!
# A client that is jammed

A control frame that is sent twice is acknowledged twice. What is acknowledged the
second time is taken for the first message, which is then never between two frames.

Result: `jammed_forever`. A client whose first message has more acknowledged than was
sent of it sends nothing any more.
-/

namespace Handheld

open ByteString FrameStream

namespace WebSocket

open AsyncWebSocketClient

/-! ## Definitions -/

/-- The first message is not sent to its end, and has more acknowledged than was sent
of it, the control frame that waits included. -/
structure Jammed (s : AsyncWebSocketClient) (total : Nat) : Prop where
  controls : ∀ c ∈ s.controlQueue.tail, c.finished = false
  message : ∃ m rest, s.messageQueue = m :: rest ∧ m.status = .sending ∧ m.sent < m.buffer.length ∧
    m.ack + s.controlWaits < m.acked ∧ m.acked + s.tcp.wire.length < sizeRange + total
  sent : total ≤ s.tcp.wire.length

/-- Only what was sent is acknowledged. -/
def Honest (s : Acked) (e : Link × SendEvent) : Prop :=
  ∀ len now, e.2 = .ack len now → s.2 + len ≤ s.1.tcp.wire.length

/-- Nothing is sent, and the client is closed or stays as it is. -/
def Silent (s : AsyncWebSocketClient) (total : Nat) (t : AsyncWebSocketClient) : Prop :=
  t.tcp.wire = s.tcp.wire ∧ (t.client = false ∨ Jammed t total)

/-! ## One event -/

section jam

variable {link : Link} {s : AsyncWebSocketClient} {total : Nat}

theorem clearQueue_sending {m : AsyncWebSocketMessage} {rest : List AsyncWebSocketMessage}
    (hqueue : s.messageQueue = m :: rest) (hstatus : m.status = .sending) : s.clearQueue = s := by
  have hnot : ¬ m.finished = true := by
    unfold AsyncWebSocketMessage.finished
    rw [hstatus]
    decide
  have hkeep : s.messageQueue.dropWhile AsyncWebSocketMessage.finished = s.messageQueue := by
    rw [hqueue, List.dropWhile_cons_of_neg hnot]
  unfold clearQueue
  rw [hkeep]

theorem runQueue_jammed (h : Jammed s total) : s.runQueue link = s := by
  obtain ⟨m, rest, hqueue, hstatus, -, hmore, -⟩ := h.message
  have hbetween : s.betweenFrames = false := by
    unfold betweenFrames
    rw [hqueue]
    refine decide_eq_false ?_
    omega
  unfold runQueue
  rw [clearQueue_sending hqueue hstatus]
  dsimp only
  rw [hbetween]
  split_ifs with hclient hcontrol hmessage
  · rfl
  · cases hcontrol.1
  · cases hmessage.2.1
  · rfl

theorem silent_runIfRoom (h : Jammed s total) : Silent s total (s.runIfRoom link) := by
  unfold runIfRoom
  split_ifs
  · rw [runQueue_jammed h]
    exact ⟨rfl, .inr h⟩
  · exact ⟨rfl, .inr h⟩

theorem silent_closeNow (hclient : s.client = true) : Silent s total s.closeNow := by
  unfold closeNow
  rw [if_pos hclient]
  exact ⟨rfl, .inl rfl⟩

theorem silent_queueControl (h : Jammed s total) (opcode : Nat) (data : Bytes) :
    Silent s total (s.queueControl link opcode data) := by
  unfold queueControl
  split_ifs
  · exact ⟨rfl, .inr h⟩
  · obtain ⟨m, rest, hqueue, hstatus, hsent, hmore, hless⟩ := h.message
    have hwaits : AsyncWebSocketClient.controlWaits
        { s with controlQueue := s.controlQueue ++ [.new opcode data] } = s.controlWaits := by
      unfold controlWaits
      cases s.controlQueue <;> rfl
    have hpushed : Jammed { s with controlQueue := s.controlQueue ++ [.new opcode data] } total := by
      refine ⟨fun c hc => ?_, ⟨m, rest, hqueue, hstatus, hsent, hwaits.symm ▸ hmore, hless⟩, h.sent⟩
      have htail := h.controls
      cases hcontrols : s.controlQueue with
      | nil =>
        rw [hcontrols] at hc
        cases hc
      | cons head controls =>
        rw [hcontrols] at hc htail
        rcases List.mem_append.mp hc with hold | hnew
        · exact htail c hold
        · rw [List.mem_singleton.mp hnew]
          rfl
    exact silent_runIfRoom hpushed

theorem silent_queueMessage (h : Jammed s total) (hclient : s.client = true) (kind : MessageKind) (buffer : Bytes) :
    Silent s total (s.queueMessage link kind buffer).2 := by
  rcases s.queueMessage_cases link kind buffer with hkept | hclosed | ⟨-, hpushed⟩
  · rw [hkept]
    exact ⟨rfl, .inr h⟩
  · rw [hclosed]
    exact silent_closeNow (s := { s with status := .disconnected }) hclient
  · rw [hpushed]
    obtain ⟨m, rest, hqueue, hm⟩ := h.message
    have hpushed : Jammed { s with messageQueue := s.messageQueue ++ [.new buffer kind] } total :=
      ⟨h.controls, ⟨m, rest ++ [.new buffer kind], by rw [hqueue]; rfl, hm⟩, h.sent⟩
    exact silent_runIfRoom hpushed

/-- An acknowledgement only adds to what is too much. -/
theorem silent_ackMessage {m : AsyncWebSocketMessage} {rest : List AsyncWebSocketMessage} {len total' : Nat}
    (hcontrols : ∀ c ∈ s.controlQueue, c.finished = false) (hqueue : s.messageQueue = m :: rest)
    (hstatus : m.status = .sending) (hsent : m.sent < m.buffer.length) (hacked : m.acked < sizeRange)
    (hmore : m.ack < (m.acked + len) % sizeRange)
    (hless : (m.acked + len) % sizeRange + s.tcp.wire.length < sizeRange + total')
    (hle : total' ≤ s.tcp.wire.length) : Silent s total' (s.ackMessage link len) := by
  have hcalm : s.Calm := fun c hc => hcontrols c (List.mem_of_mem_head? hc)
  unfold ackMessage
  rw [hqueue]
  dsimp only
  split_ifs with hlen
  · have hsame : m.acknowledge len = { m with acked := (m.acked + len) % sizeRange } := by
      rcases m.acknowledge_cases len with ⟨-, hall⟩ | ⟨heq, -⟩
      · omega
      · exact heq
    have hjammed : Jammed { s with messageQueue := m.acknowledge len :: rest } total' := by
      refine ⟨fun c hc => hcontrols c (List.mem_of_mem_tail hc), ⟨_, rest, rfl, ?_⟩, hle⟩
      have hnone : AsyncWebSocketClient.controlWaits { s with messageQueue := m.acknowledge len :: rest } = 0 :=
        controlWaits_calm hcalm
      rw [hnone, hsame]
      exact ⟨hstatus, hsent, hmore, hless⟩
    have hstatus' : (m.acknowledge len).status = .sending := by
      rw [hsame]
      exact hstatus
    rw [clearQueue_sending (s := { s with messageQueue := m.acknowledge len :: rest }) rfl hstatus',
      runQueue_jammed hjammed]
    exact ⟨rfl, .inr hjammed⟩
  · rw [not_not.mp hlen, Nat.add_zero, Nat.mod_eq_of_lt hacked] at hmore hless
    have hjammed : Jammed s total' := by
      refine ⟨fun c hc => hcontrols c (List.mem_of_mem_tail hc), ⟨m, rest, hqueue, hstatus, hsent, ?_, hless⟩, hle⟩
      rw [controlWaits_calm hcalm]
      exact hmore
    rw [clearQueue_sending hqueue hstatus, runQueue_jammed hjammed]
    exact ⟨rfl, .inr hjammed⟩

theorem silent_onAck (h : Jammed s total) (hclient : s.client = true) {len : Nat}
    (hhonest : total + len ≤ s.tcp.wire.length) (now : Nat) :
    Silent s (total + len) (s.onAck link len now) := by
  obtain ⟨m, rest, hqueue, hstatus, hsent, hmore, hless⟩ := h.message
  have hle := h.sent
  have hacked : m.acked < sizeRange := by omega
  rcases calm_or_finished s with hcalm | ⟨control, controls, hcontrols, hfinished, hwaits⟩
  · have hmod : (m.acked + len) % sizeRange = m.acked + len := Nat.mod_eq_of_lt (by omega)
    have hnone : ∀ c ∈ s.controlQueue, c.finished = false := by
      intro c hc
      cases hcontrols : s.controlQueue with
      | nil =>
        rw [hcontrols] at hc
        cases hc
      | cons head controls =>
        have htail := h.controls
        rw [hcontrols] at hc htail
        rcases List.mem_cons.mp hc with rfl | hrest
        · exact hcalm c (by rw [hcontrols]; rfl)
        · exact htail c hrest
    rw [controlWaits_calm hcalm] at hmore
    rw [onAck_calm hcalm]
    exact silent_ackMessage (s := { s with lastMessageTime := now }) hnone hqueue hstatus hsent hacked
      (by rw [hmod]; omega) (by rw [hmod]; show _ + s.tcp.wire.length < _; omega) hhonest
  · have hnone : ∀ c ∈ controls, c.finished = false := by
      have htail := h.controls
      rw [hcontrols] at htail
      exact htail
    rw [hwaits] at hmore
    -- what is missing of the control frame is taken from the message
    have hmod : (m.acked + (len + sizeRange - control.len) % sizeRange) % sizeRange =
        m.acked + len - control.len := by
      have hsum : m.acked + (len + sizeRange - control.len) = m.acked + len - control.len + sizeRange := by omega
      rw [Nat.add_mod_mod, hsum, Nat.add_mod_right, Nat.mod_eq_of_lt (by omega)]
    rw [onAck_control hcontrols hfinished]
    split_ifs
    · exact silent_closeNow
        (s := { s with lastMessageTime := now, controlQueue := controls, status := .disconnected }) hclient
    · exact silent_ackMessage (s := { s with lastMessageTime := now, controlQueue := controls }) hnone hqueue hstatus
        hsent hacked (by rw [hmod]; omega) (by rw [hmod]; show _ + s.tcp.wire.length < _; omega) hhonest

theorem silent_ping (h : Jammed s total) (data : Bytes) : Silent s total (s.ping link data) := by
  unfold ping
  split_ifs
  · exact silent_queueControl h _ data
  · exact ⟨rfl, .inr h⟩

theorem silent_close (h : Jammed s total) (code : Nat) (message : Bytes) (allocated : Bool) :
    Silent s total (s.close link code message allocated) := by
  have hclosing : Jammed { s with status := .disconnecting } total := ⟨h.controls, h.message, h.sent⟩
  have haborted : Jammed { s with status := .disconnecting, tcp := s.tcp.abort } total :=
    ⟨h.controls, h.message, h.sent⟩
  unfold close
  split_ifs
  · exact ⟨rfl, .inr h⟩
  · exact silent_queueControl hclosing _ _
  · exact silent_queueControl hclosing _ _
  · exact silent_queueControl haborted _ _

theorem silent_onControl (h : Jammed s total) (hclient : s.client = true) (opcode : Nat) (data : Bytes) :
    Silent s total (s.onControl link opcode data) := by
  have hclosing : Jammed { s with status := .disconnecting } total := ⟨h.controls, h.message, h.sent⟩
  unfold onControl
  split_ifs
  · exact silent_closeNow (s := { s with status := .disconnected }) hclient
  · exact silent_queueControl hclosing _ _
  · exact silent_queueControl h _ _
  · exact ⟨rfl, .inr h⟩

theorem silent_onPoll (h : Jammed s total) (now : Nat) : Silent s total (s.onPoll link now) := by
  unfold onPoll
  split_ifs
  · rw [runQueue_jammed h]
    exact ⟨rfl, .inr h⟩
  · exact silent_ping h _
  · exact ⟨rfl, .inr h⟩

end jam

/-- One event. -/
theorem silent_step {s : AsyncWebSocketClient} {total : Nat} {e : Link × SendEvent}
    (h : s.client = false ∨ Jammed s total) (hhonest : Honest (s, total) e) :
    Silent s (ackedStep (s, total) e).2 (ackedStep (s, total) e).1 := by
  obtain ⟨link, event⟩ := e
  cases hclient : s.client with
  | false =>
    have hsame : s.step (link, event) = s := by
      unfold step
      rw [hclient]
      rfl
    show Silent s _ (s.step (link, event))
    rw [hsame]
    exact ⟨rfl, .inl hclient⟩
  | true =>
    have hjammed : Jammed s total := h.resolve_left (by rw [hclient]; decide)
    have hready : Jammed (s.ready link) total := ⟨hjammed.controls, hjammed.message, hjammed.sent⟩
    unfold ackedStep step
    rw [hclient]
    cases event with
    | message kind buffer => exact silent_queueMessage hready hclient kind buffer
    | ping data => exact silent_ping hready data
    | close code message allocated => exact silent_close hready code message allocated
    | control opcode data => exact silent_onControl hready hclient opcode data
    | ack len now => exact silent_onAck hready hclient (hhonest len now rfl) now
    | poll now => exact silent_onPoll hready now
    | disconnect => exact silent_closeNow (s := s.ready link) hclient

/-! ## Runs -/

/-- A jammed client sends nothing any more, whatever happens. -/
theorem jammed_forever {s : AsyncWebSocketClient} {total : Nat} (h : Jammed s total)
    {es : List (Link × SendEvent)} (hok : Machine.StepsOk ackedStep Honest (s, total) es) :
    (Machine.run ackedStep (s, total) es).1.tcp.wire = s.tcp.wire := by
  have hrun : ∀ {s : Acked}, s.1.client = false ∨ Jammed s.1 s.2 → Machine.StepsOk ackedStep Honest s es →
      (Machine.run ackedStep s es).1.tcp.wire = s.1.tcp.wire := by
    clear h hok
    induction es with
    | nil => exact fun _ _ => rfl
    | cons e es ih =>
      intro s h hok
      obtain ⟨hwire, hnext⟩ := silent_step h hok.1
      exact (ih hnext hok.2).trans hwire
  exact hrun (.inr h) hok

/-- A ping is sent, and again when a text is queued; the two are acknowledged together. -/
def pingAndText : List (Link × SendEvent) :=
  [(steady, .ping []), (steady, .message .text [1, 2, 3]), (steady, .ack 4 0)]

/-- The text is never sent, however often the queue is looked at. -/
theorem jammed_forever_ping :
    (Machine.run ackedStep (Machine.run ackedStep (.new true 0 0, 0) pingAndText)
      [(steady, .poll 0), (steady, .poll 1)]).1.tcp.wire =
        (Machine.run ackedStep (.new true 0 0, 0) pingAndText).1.tcp.wire := by
  have hqueue : (Machine.run ackedStep (.new true 0 0, 0) pingAndText).1.messageQueue =
      [⟨[1, 2, 3], .text, .sending, 0, 0, 2⟩] := rfl
  have hjammed : Jammed (Machine.run ackedStep (.new true 0 0, 0) pingAndText).1
      (Machine.run ackedStep (.new true 0 0, 0) pingAndText).2 :=
    ⟨nofun, ⟨_, _, hqueue, rfl, by decide, by decide, by decide⟩, by decide⟩
  exact jammed_forever hjammed ⟨nofun, nofun, trivial⟩

end WebSocket

end Handheld
