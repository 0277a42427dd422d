import Handheld.Machine
import Handheld.WebSocketSending

/-!
# The order of the texts on the wire

Whatever happens to a client, and however the connection acknowledges what it was
given, the texts go out whole, once and in the order in which they were queued.

Result: `delivers_in_order`.
-/

namespace Handheld

open ByteString FrameStream

namespace WebSocket

/-! ## Definitions -/

/-- What the reader gets of it. -/
def AsyncWebSocketMessage.entry (m : AsyncWebSocketMessage) : Nat × Bytes := (m.kind.opcode, m.buffer)

/-- What the reader has when the messages of the queue come after `done`: of the
first one, what is sent of it. -/
def progress (done : List (Nat × Bytes)) : List AsyncWebSocketMessage → Reassembly
  | [] => ⟨none, done⟩
  | m :: _ =>
    if m.sent = 0 then ⟨none, done⟩
    else if m.sent = m.buffer.length then ⟨none, done ++ [m.entry]⟩
    else ⟨some (m.kind.opcode, m.buffer.take m.sent), done⟩

namespace AsyncWebSocketMessage

/-- The first message of the queue. -/
structure Valid (m : AsyncWebSocketMessage) : Prop where
  nonempty : m.buffer ≠ []
  sent_le : m.sent ≤ m.buffer.length
  status : m.status = .sending ∨ m.status = .sent ∧ m.sent = m.buffer.length
  waits : m.status = .sending → m.acked = m.ack → m.sent < m.buffer.length
  ack_lt : m.ack < sizeRange

/-- The others. -/
def Fresh (m : AsyncWebSocketMessage) : Prop := m.buffer ≠ [] ∧ m = .new m.buffer m.kind

end AsyncWebSocketMessage

/-- The first message is valid, and the others are fresh. -/
def Queue : List AsyncWebSocketMessage → Prop
  | [] => True
  | m :: rest => m.Valid ∧ ∀ m' ∈ rest, m'.Fresh

/-- The wire is what the queue says, where `queued` are all messages so far. -/
structure Sound (s : AsyncWebSocketClient) (queued : List (Nat × Bytes)) : Prop where
  controls : ∀ c ∈ s.controlQueue, 8 ≤ c.opcode ∧ c.opcode < 16 ∧ c.data.length ≤ 125
  messages : Queue s.messageQueue
  room : s.tcp.sndbuf < 2 ^ 16
  wire : ∃ done, Received s.tcp.wire (progress done s.messageQueue) ∧
    queued = done ++ s.messageQueue.map AsyncWebSocketMessage.entry

namespace AsyncWebSocketClient

/-- The messages that are not sent to their end. -/
def waiting (s : AsyncWebSocketClient) : List (Nat × Bytes) :=
  (s.messageQueue.filter fun m => m.sent < m.buffer.length).map AsyncWebSocketMessage.entry

/-- All messages that the events put into the queue. -/
def queuedBy (s : AsyncWebSocketClient) : List (Link × SendEvent) → List (Nat × Bytes)
  | [] => []
  | e :: es => s.accepted e ++ queuedBy (s.step e) es

/-- Of `queued`, the reader of the wire has what is not waiting any more, in its
order, and the beginning of what waits first. -/
def Delivers (s : AsyncWebSocketClient) (queued : List (Nat × Bytes)) : Prop :=
  ∃ r, Received s.tcp.wire r ∧ r.messages ++ s.waiting = queued ∧
    ∀ m, r.underway = some m → ∃ whole, s.waiting.head? = some (m.1, whole) ∧ m.2 <+: whole

end AsyncWebSocketClient

/-! ## 1. The queue -/

section queue

variable {m : AsyncWebSocketMessage} {rest ms : List AsyncWebSocketMessage} {done : List (Nat × Bytes)}

theorem kind_opcode (kind : MessageKind) : kind.opcode ≠ 0 ∧ kind.opcode < 8 := by
  cases kind <;> decide

theorem AsyncWebSocketMessage.Fresh.valid (h : m.Fresh) : m.Valid := by
  obtain ⟨hne, hnew⟩ := h
  have hsent : m.sent = 0 := congrArg AsyncWebSocketMessage.sent hnew
  have hpos : 0 < m.buffer.length := List.length_pos_iff.mpr hne
  have hack : m.ack = 0 := congrArg AsyncWebSocketMessage.ack hnew
  refine ⟨hne, hsent ▸ Nat.zero_le _, .inl (congrArg AsyncWebSocketMessage.status hnew), fun _ _ => ?_, ?_⟩
  · rw [hsent]
    exact hpos
  · rw [hack]
    decide

theorem AsyncWebSocketMessage.Fresh.not_finished (h : m.Fresh) : m.finished = false := by
  have hstatus : m.status = .sending := congrArg AsyncWebSocketMessage.status h.2
  unfold finished
  rw [hstatus]
  rfl

theorem queue_of_fresh (h : ∀ m ∈ ms, m.Fresh) : Queue ms := by
  cases ms with
  | nil => trivial
  | cons m rest => exact ⟨(h m List.mem_cons_self).valid, fun m' hm' => h m' (List.mem_cons_of_mem m hm')⟩

theorem progress_fresh (h : ∀ m ∈ ms, m.Fresh) (done : List (Nat × Bytes)) : progress done ms = ⟨none, done⟩ := by
  cases ms with
  | nil => rfl
  | cons m rest => exact if_pos (congrArg AsyncWebSocketMessage.sent (h m List.mem_cons_self).2)

theorem dropWhile_fresh (h : ∀ m ∈ ms, m.Fresh) : ms.dropWhile AsyncWebSocketMessage.finished = ms := by
  cases ms with
  | nil => rfl
  | cons m rest =>
    refine List.dropWhile_cons_of_neg ?_
    rw [(h m List.mem_cons_self).not_finished]
    decide

theorem progress_cons (done : List (Nat × Bytes)) (m : AsyncWebSocketMessage)
    (rest : List AsyncWebSocketMessage) :
    progress done (m :: rest) =
      if m.sent = 0 then ⟨none, done⟩
      else if m.sent = m.buffer.length then ⟨none, done ++ [m.entry]⟩
      else ⟨some (m.kind.opcode, m.buffer.take m.sent), done⟩ := rfl

/-- A finished message leaves the queue, all of it being sent. -/
theorem queue_dropWhile (h : Queue ms) (done : List (Nat × Bytes)) :
    Queue (ms.dropWhile AsyncWebSocketMessage.finished) ∧
      (∀ m ∈ ms.dropWhile AsyncWebSocketMessage.finished, m.status = .sending) ∧
      ∃ done', progress done ms = progress done' (ms.dropWhile AsyncWebSocketMessage.finished) ∧
        done ++ ms.map AsyncWebSocketMessage.entry =
          done' ++ (ms.dropWhile AsyncWebSocketMessage.finished).map AsyncWebSocketMessage.entry := by
  have hfresh : ∀ {ms : List AsyncWebSocketMessage}, (∀ m ∈ ms, m.Fresh) → ∀ m ∈ ms, m.status = .sending :=
    fun h m hm => congrArg AsyncWebSocketMessage.status (h m hm).2
  cases ms with
  | nil => exact ⟨trivial, nofun, done, rfl, rfl⟩
  | cons m rest =>
    obtain ⟨hm, hrest⟩ := h
    rcases hm.status with hsending | ⟨hsent, hall⟩
    · have hkeep : (m :: rest).dropWhile AsyncWebSocketMessage.finished = m :: rest := by
        refine List.dropWhile_cons_of_neg ?_
        unfold AsyncWebSocketMessage.finished
        rw [hsending]
        decide
      rw [hkeep]
      exact ⟨⟨hm, hrest⟩, List.forall_mem_cons.mpr ⟨hsending, hfresh hrest⟩, done, rfl, rfl⟩
    · have hdrop : (m :: rest).dropWhile AsyncWebSocketMessage.finished = rest := by
        rw [List.dropWhile_cons_of_pos, dropWhile_fresh hrest]
        unfold AsyncWebSocketMessage.finished
        rw [hsent]
        decide
      have hpos : m.sent ≠ 0 := by
        rw [hall]
        exact Nat.ne_of_gt (List.length_pos_iff.mpr hm.nonempty)
      rw [hdrop]
      refine ⟨queue_of_fresh hrest, hfresh hrest, done ++ [m.entry], ?_, ?_⟩
      · rw [progress_fresh hrest, progress_cons, if_neg hpos, if_pos hall]
      · simp

theorem queue_push (h : Queue ms) {buffer : Bytes} (hne : buffer ≠ []) (kind : MessageKind) :
    Queue (ms ++ [.new buffer kind]) ∧
      ∀ done, progress done (ms ++ [.new buffer kind]) = progress done ms := by
  have hnew : AsyncWebSocketMessage.Fresh (.new buffer kind) := ⟨hne, rfl⟩
  cases ms with
  | nil => exact ⟨⟨hnew.valid, nofun⟩, fun _ => rfl⟩
  | cons m rest =>
    refine ⟨⟨h.1, fun m' hm' => ?_⟩, fun _ => rfl⟩
    rcases List.mem_append.mp hm' with hold | hlast
    · exact h.2 m' hold
    · rw [List.mem_singleton.mp hlast]
      exact hnew

/-- The next frame of the first message. -/
theorem progress_advanced {n : Nat} (hpos : 0 < n) (hle : m.sent + n ≤ m.buffer.length) :
    (progress done (m :: rest)).accept ⟨decide (m.sent + n = m.buffer.length),
        if m.sent = 0 then m.kind.opcode else WS_CONTINUATION, m.piece n⟩ =
      some (progress done (m.advanced n :: rest)) := by
  obtain ⟨hkind, hdata⟩ := kind_opcode m.kind
  have htake : m.buffer.take m.sent ++ m.piece n = m.buffer.take (m.sent + n) := List.take_add.symm
  have hnext : (m.advanced n).sent = m.sent + n := rfl
  have hbuffer : (m.advanced n).buffer = m.buffer := rfl
  have hprogress : progress done (m.advanced n :: rest) =
      if m.sent + n = m.buffer.length then ⟨none, done ++ [(m.kind.opcode, m.buffer.take (m.sent + n))]⟩
      else ⟨some (m.kind.opcode, m.buffer.take (m.sent + n)), done⟩ := by
    rw [progress_cons, hnext, hbuffer, if_neg (by omega)]
    split_ifs with hall
    · rw [hall, List.take_length]
      rfl
    · rfl
  rw [hprogress]
  by_cases hzero : m.sent = 0
  · have hstart : progress done (m :: rest) = ⟨none, done⟩ := if_pos hzero
    rw [hstart, Reassembly.accept_first (by rw [if_pos hzero]; exact hkind) (by rw [if_pos hzero]; exact hdata),
      if_pos hzero]
    rw [hzero] at htake ⊢
    rw [← htake]
    simp only [decide_eq_true_eq]
    rfl
  · have hunder : progress done (m :: rest) = ⟨some (m.kind.opcode, m.buffer.take m.sent), done⟩ := by
      rw [progress_cons, if_neg hzero, if_neg (by omega)]
    rw [hunder, Reassembly.accept_later (if_neg hzero), htake]
    simp only [decide_eq_true_eq]

end queue

/-! ## 2. One event -/

section sound

variable {link : Link} {s t : AsyncWebSocketClient} {queued : List (Nat × Bytes)}

theorem Sound.clearQueue (h : Sound s queued) : Sound s.clearQueue queued := by
  obtain ⟨done, hwire, hqueued⟩ := h.wire
  obtain ⟨hqueue, -, done', hprogress, hentries⟩ := queue_dropWhile h.messages done
  exact ⟨h.controls, hqueue, h.room, done', hprogress ▸ hwire, hqueued.trans hentries⟩

theorem Sound.sendable (h : Sound s queued) : Sendable s.clearQueue := by
  obtain ⟨hqueue, hsending, -⟩ := queue_dropWhile h.messages []
  refine ⟨fun c hc => (h.controls c hc).2.2, fun m hm => ⟨hsending m hm, ?_⟩⟩
  have hvalid : m.Valid := by
    have hm' : m ∈ s.messageQueue.dropWhile AsyncWebSocketMessage.finished := hm
    generalize s.messageQueue.dropWhile AsyncWebSocketMessage.finished = ms at hqueue hm'
    cases ms with
    | nil => cases hm'
    | cons first rest =>
      rcases List.mem_cons.mp hm' with rfl | hrest
      · exact hqueue.1
      · exact (hqueue.2 m hrest).valid
  exact hvalid.waits (hsending m hm)

theorem AsyncWebSocketMessage.Valid.advanced {m : AsyncWebSocketMessage} {n : Nat} (h : m.Valid)
    (hacked : m.acked = m.ack) (hsent : m.sent < m.buffer.length) (hpos : 0 < n)
    (hle : m.sent + n ≤ m.buffer.length) (hsmall : n < 2 ^ 16) : (m.advanced n).Valid := by
  have hsending : m.status = .sending := h.status.resolve_right fun hall => Nat.ne_of_lt hsent hall.2
  refine ⟨h.nonempty, hle, .inl hsending, fun _ hequal => ?_, Nat.mod_lt _ (by decide)⟩
  have hhead := headLen_le n
  have hack := h.ack_lt
  have hequal' : m.acked = (m.ack + headLen n + n) % sizeRange := hequal
  rw [hacked] at hequal'
  unfold sizeRange at hequal' hack
  omega

theorem AsyncWebSocketMessage.Valid.missed {m : AsyncWebSocketMessage} (h : m.Valid)
    (hsent : m.sent < m.buffer.length) (n : Nat) : (m.missed n).Valid := by
  have hsending : m.status = .sending := h.status.resolve_right fun hall => Nat.ne_of_lt hsent hall.2
  exact ⟨h.nonempty, h.sent_le, .inl hsending, fun _ _ => hsent, Nat.mod_lt _ (by decide)⟩

/-- A frame that is sent, or lost, leaves the wire in order. -/
theorem Sound.sends (h : Sound s queued) (hsends : Sends link s t) : Sound t queued := by
  obtain ⟨done, hwire, hqueued⟩ := h.wire
  have hroom : ∀ bytes : Bytes, (s.tcp.sent bytes).sndbuf < 2 ^ 16 := fun bytes =>
    Nat.lt_of_le_of_lt (Nat.sub_le _ _) h.room
  cases hsends with
  | nothing => exact h
  | @control control rest hqueue =>
    obtain ⟨hhead, hrest⟩ := List.forall_mem_cons.mp (hqueue ▸ h.controls)
    have hread := @readFrame_frameBytes link true control.opcode control.data hhead.2.1
      (Nat.lt_of_le_of_lt hhead.2.2 (by decide))
    exact ⟨List.forall_mem_cons.mpr ⟨hhead, hrest⟩, h.messages, hroom _, done,
      hwire.control hread hhead.1, hqueued⟩
  | @controlLost control rest tcp hqueue _ hsame hsndbuf =>
    obtain ⟨hhead, hrest⟩ := List.forall_mem_cons.mp (hqueue ▸ h.controls)
    exact ⟨List.forall_mem_cons.mpr ⟨hhead, hrest⟩, h.messages, hsndbuf ▸ h.room, done, hsame ▸ hwire, hqueued⟩
  | @message m rest hqueue hacked hsent hwindow =>
    have hmessages := h.messages
    rw [hqueue] at hmessages hwire hqueued
    obtain ⟨hspace, hwindow'⟩ := window_eq hwindow
    have hspace' : s.tcp.space ≤ s.tcp.sndbuf := by
      unfold AsyncClient.space
      split_ifs
      · exact Nat.le_refl _
      · exact Nat.zero_le _
    have hsndbuf := h.room
    have hpos : 0 < m.toSend s.tcp := by
      unfold AsyncWebSocketMessage.toSend
      omega
    have hle : m.sent + m.toSend s.tcp ≤ m.buffer.length := by
      unfold AsyncWebSocketMessage.toSend
      omega
    have hsmall : m.toSend s.tcp < 2 ^ 16 := by
      unfold AsyncWebSocketMessage.toSend
      omega
    have hopcode : (if m.sent = 0 then m.kind.opcode else WS_CONTINUATION) < 16 := by
      split_ifs
      · exact Nat.lt_trans (kind_opcode m.kind).2 (by decide)
      · decide
    have hread := @readFrame_frameBytes link (decide (m.sent + m.toSend s.tcp = m.buffer.length)) _
      (m.piece (m.toSend s.tcp)) hopcode (by rw [AsyncWebSocketMessage.length_piece hle]; exact hsmall)
    exact ⟨h.controls, ⟨hmessages.1.advanced hacked hsent hpos hle hsmall, hmessages.2⟩, hroom _, done,
      hwire.fragment hread (progress_advanced hpos hle), hqueued⟩
  | @messageLost m rest n tcp hqueue hsent _ hsame hsndbuf =>
    have hmessages := h.messages
    rw [hqueue] at hmessages hwire hqueued
    exact ⟨h.controls, ⟨hmessages.1.missed hsent n, hmessages.2⟩, hsndbuf ▸ h.room, done, hsame ▸ hwire, hqueued⟩

theorem Sound.closeNow (h : Sound s queued) : Sound s.closeNow queued := by
  unfold AsyncWebSocketClient.closeNow
  split_ifs
  · exact ⟨h.controls, h.messages, h.room, h.wire⟩
  · exact h

/-- With one more control frame. -/
theorem Sound.pushControl (h : Sound s queued) {opcode : Nat} (hopcode : 8 ≤ opcode ∧ opcode < 16)
    (data : Bytes) : Sound { s with controlQueue := s.controlQueue ++ [.new opcode data] } queued := by
  refine ⟨fun c hc => ?_, h.messages, h.room, h.wire⟩
  rcases List.mem_append.mp hc with hold | hnew
  · exact h.controls c hold
  · rw [List.mem_singleton.mp hnew]
    exact ⟨hopcode.1, hopcode.2, List.length_take_le _ _⟩

/-- With one more message. -/
theorem Sound.pushMessage (h : Sound s queued) {buffer : Bytes} (hne : buffer ≠ []) (kind : MessageKind) :
    Sound { s with messageQueue := s.messageQueue ++ [.new buffer kind] }
      (queued ++ [(kind.opcode, buffer)]) := by
  obtain ⟨done, hwire, hqueued⟩ := h.wire
  obtain ⟨hqueue, hprogress⟩ := queue_push h.messages hne kind
  refine ⟨h.controls, hqueue, h.room, done, (hprogress done).symm ▸ hwire, ?_⟩
  rw [hqueued, List.map_append, List.append_assoc]
  rfl

/-- A message that is not queued may close the connection. -/
theorem AsyncWebSocketClient.queueMessage_cases (s : AsyncWebSocketClient) (link : Link) (kind : MessageKind)
    (buffer : Bytes) :
    s.queueMessage link kind buffer = (false, s) ∨
      s.queueMessage link kind buffer = (false, { s with status := .disconnected }.closeNow) ∨
      buffer ≠ [] ∧ s.queueMessage link kind buffer =
        (true, runIfRoom link { s with messageQueue := s.messageQueue ++ [.new buffer kind] }) := by
  unfold queueMessage
  split_ifs with hrefused
  · exact .inl rfl
  · exact .inr (.inl rfl)
  · exact .inl rfl
  · exact .inr (.inr ⟨fun hnil => hrefused (.inr (.inl (by rw [hnil]; rfl))), rfl⟩)

theorem AsyncWebSocketMessage.acknowledge_cases (m : AsyncWebSocketMessage) (len : Nat) :
    m.acknowledge len = { m with acked := (m.acked + len) % sizeRange, status := .sent } ∧
        m.buffer.length ≤ m.sent ∨
      m.acknowledge len = { m with acked := (m.acked + len) % sizeRange } ∧
        ¬ (m.buffer.length ≤ m.sent ∧ m.ack ≤ (m.acked + len) % sizeRange) := by
  unfold acknowledge
  dsimp only
  split_ifs with h
  · exact .inl ⟨rfl, h.1⟩
  · exact .inr ⟨rfl, h⟩

theorem AsyncWebSocketMessage.Valid.acknowledge {m : AsyncWebSocketMessage} (h : m.Valid) (len : Nat) :
    (m.acknowledge len).Valid := by
  rcases m.acknowledge_cases len with ⟨heq, hall⟩ | ⟨heq, hnot⟩
  · rw [heq]
    exact ⟨h.nonempty, h.sent_le, .inr ⟨rfl, Nat.le_antisymm h.sent_le hall⟩, nofun, h.ack_lt⟩
  · rw [heq]
    refine ⟨h.nonempty, h.sent_le, h.status, fun _ hacked => ?_, h.ack_lt⟩
    exact Nat.lt_of_not_le fun hall => hnot ⟨hall, Nat.le_of_eq hacked.symm⟩

/-- An acknowledgement changes nothing of what is sent. -/
theorem acknowledge_same (m : AsyncWebSocketMessage) (rest : List AsyncWebSocketMessage) (len : Nat) :
    (∀ done, progress done (m.acknowledge len :: rest) = progress done (m :: rest)) ∧
      (m.acknowledge len).entry = m.entry := by
  rcases m.acknowledge_cases len with ⟨heq, -⟩ | ⟨heq, -⟩
  · rw [heq]
    exact ⟨fun _ => rfl, rfl⟩
  · rw [heq]
    exact ⟨fun _ => rfl, rfl⟩

/-- With some bytes of the first message acknowledged. -/
theorem Sound.acknowledge (h : Sound s queued) {m : AsyncWebSocketMessage} {rest : List AsyncWebSocketMessage}
    (hqueue : s.messageQueue = m :: rest) (len : Nat) :
    Sound { s with messageQueue := m.acknowledge len :: rest } queued := by
  obtain ⟨done, hwire, hqueued⟩ := h.wire
  have hmessages := h.messages
  rw [hqueue] at hmessages hwire hqueued
  obtain ⟨hprogress, hentry⟩ := acknowledge_same m rest len
  refine ⟨h.controls, ⟨hmessages.1.acknowledge len, hmessages.2⟩, h.room, done, ?_, ?_⟩
  · show Received s.tcp.wire (progress done (m.acknowledge len :: rest))
    rw [hprogress]
    exact hwire
  · rw [hqueued, List.map_cons, List.map_cons, hentry]

variable (huntorn : link.Untorn)

include huntorn

theorem Sound.runQueue (h : Sound s queued) : Sound (s.runQueue link) queued := by
  cases hclient : s.client with
  | false =>
    have hsame : s.runQueue link = s := by
      unfold AsyncWebSocketClient.runQueue
      rw [hclient]
      rfl
    rw [hsame]
    exact h
  | true => exact h.clearQueue.sends (AsyncWebSocketClient.runQueue_sends huntorn h.sendable hclient)

theorem Sound.runIfRoom (h : Sound s queued) : Sound (s.runIfRoom link) queued := by
  unfold AsyncWebSocketClient.runIfRoom
  split_ifs
  · exact h.runQueue huntorn
  · exact h

theorem Sound.queueControl (h : Sound s queued) {opcode : Nat} (hopcode : 8 ≤ opcode ∧ opcode < 16)
    (data : Bytes) : Sound (s.queueControl link opcode data) queued := by
  unfold AsyncWebSocketClient.queueControl
  split_ifs
  · exact h
  · exact (h.pushControl hopcode data).runIfRoom huntorn

/-- A message is put at the end of the queue. -/
theorem Sound.queueMessage (h : Sound s queued) (kind : MessageKind) (buffer : Bytes) :
    Sound (s.queueMessage link kind buffer).2
      (queued ++ if (s.queueMessage link kind buffer).1 then [(kind.opcode, buffer)] else []) := by
  rcases s.queueMessage_cases link kind buffer with hkept | hclosed | ⟨hne, hpushed⟩
  · rw [hkept]
    simpa using h
  · rw [hclosed]
    have hdisconnected : Sound { s with status := .disconnected } queued :=
      ⟨h.controls, h.messages, h.room, h.wire⟩
    simpa using hdisconnected.closeNow
  · rw [hpushed]
    exact (h.pushMessage hne kind).runIfRoom huntorn

theorem Sound.ping (h : Sound s queued) (data : Bytes) : Sound (s.ping link data) queued := by
  unfold AsyncWebSocketClient.ping
  split_ifs
  · exact h.queueControl huntorn (by decide) data
  · exact h

theorem Sound.close (h : Sound s queued) (code : Nat) (message : Bytes) (allocated : Bool) :
    Sound (s.close link code message allocated) queued := by
  have hclosing : Sound { s with status := .disconnecting } queued := ⟨h.controls, h.messages, h.room, h.wire⟩
  have haborted : Sound { s with status := .disconnecting, tcp := s.tcp.abort } queued :=
    ⟨h.controls, h.messages, h.room, h.wire⟩
  unfold AsyncWebSocketClient.close
  split_ifs
  · exact h
  · exact hclosing.queueControl huntorn (by decide) _
  · exact hclosing.queueControl huntorn (by decide) _
  · exact haborted.queueControl huntorn (by decide) _

theorem Sound.onControl (h : Sound s queued) (opcode : Nat) (data : Bytes) :
    Sound (s.onControl link opcode data) queued := by
  unfold AsyncWebSocketClient.onControl
  split_ifs
  · exact Sound.closeNow ⟨h.controls, h.messages, h.room, h.wire⟩
  · have hclosing : Sound { s with status := .disconnecting } queued :=
      ⟨h.controls, h.messages, h.room, h.wire⟩
    exact hclosing.queueControl huntorn (by decide) data
  · exact h.queueControl huntorn (by decide) data
  · exact h

/-- What is acknowledged may be any number of bytes. -/
theorem Sound.ackMessage (h : Sound s queued) (len : Nat) : Sound (s.ackMessage link len) queued := by
  unfold AsyncWebSocketClient.ackMessage
  refine Sound.runQueue huntorn (Sound.clearQueue ?_)
  cases hqueue : s.messageQueue with
  | nil => exact h
  | cons m rest =>
    dsimp only
    split_ifs
    · exact h.acknowledge hqueue len
    · exact h

theorem Sound.onAck (h : Sound s queued) (len now : Nat) : Sound (s.onAck link len now) queued := by
  have hcontrols := h.controls
  unfold AsyncWebSocketClient.onAck
  dsimp only
  cases hqueue : s.controlQueue with
  | nil =>
    have hnow : Sound { s with controlQueue := [], lastMessageTime := now } queued :=
      ⟨nofun, h.messages, h.room, h.wire⟩
    exact hnow.ackMessage huntorn len
  | cons control rest =>
    rw [hqueue] at hcontrols
    have hpopped : ∀ status, Sound { s with controlQueue := rest, lastMessageTime := now, status := status } queued :=
      fun _ => ⟨(List.forall_mem_cons.mp hcontrols).2, h.messages, h.room, h.wire⟩
    have hnow : Sound { s with controlQueue := control :: rest, lastMessageTime := now } queued :=
      ⟨hcontrols, h.messages, h.room, h.wire⟩
    dsimp only
    split_ifs
    · exact (hpopped .disconnected).closeNow
    · exact (hpopped s.status).ackMessage huntorn _
    · exact hnow.ackMessage huntorn len

theorem Sound.onPoll (h : Sound s queued) (now : Nat) : Sound (s.onPoll link now) queued := by
  unfold AsyncWebSocketClient.onPoll
  split_ifs
  · exact h.runQueue huntorn
  · exact h.ping huntorn _
  · exact h

end sound

/-- One event. -/
theorem sound_step {s : AsyncWebSocketClient} {queued : List (Nat × Bytes)} (h : Sound s queued)
    {e : Link × SendEvent} (huntorn : e.1.Untorn) : Sound (s.step e) (queued ++ s.accepted e) := by
  have hready : Sound (s.ready e.1) queued := ⟨h.controls, h.messages, e.1.sndbuf_lt, h.wire⟩
  obtain ⟨link, event⟩ := e
  cases hclient : s.client with
  | false =>
    have hsame : s.step (link, event) = s := by
      unfold AsyncWebSocketClient.step
      rw [hclient]
      rfl
    have hnone : s.accepted (link, event) = [] := by
      unfold AsyncWebSocketClient.accepted AsyncWebSocketClient.queueMessage AsyncWebSocketClient.ready
      cases event with
      | message kind buffer => simp [hclient]
      | _ => rfl
    rw [hsame, hnone, List.append_nil]
    exact h
  | true =>
    unfold AsyncWebSocketClient.step AsyncWebSocketClient.accepted
    rw [hclient]
    cases event with
    | message kind buffer => exact hready.queueMessage huntorn kind buffer
    | ping data => simpa using hready.ping huntorn data
    | close code message allocated => simpa using hready.close huntorn code message allocated
    | control opcode data => simpa using hready.onControl huntorn opcode data
    | ack len now => simpa using hready.onAck huntorn len now
    | poll now => simpa using hready.onPoll huntorn now
    | disconnect => simpa using hready.closeNow

/-! ## 3. Runs -/

open AsyncWebSocketClient

theorem sound_new (closeWhenFull : Bool) (keepAlivePeriod now : Nat) :
    Sound (.new closeWhenFull keepAlivePeriod now) [] :=
  ⟨nofun, trivial, Nat.two_pow_pos 16, [], received_nil, rfl⟩

theorem sound_run {s : AsyncWebSocketClient} {queued : List (Nat × Bytes)} (h : Sound s queued)
    {es : List (Link × SendEvent)} (huntorn : ∀ e ∈ es, e.1.Untorn) :
    Sound (Machine.run step s es) (queued ++ s.queuedBy es) := by
  induction es generalizing s queued with
  | nil =>
    rw [queuedBy, List.append_nil]
    exact h
  | cons e es ih =>
    obtain ⟨he, hes⟩ := List.forall_mem_cons.mp huntorn
    rw [Machine.run_cons, queuedBy, ← List.append_assoc]
    exact ih (sound_step h he) hes

theorem Sound.delivers {s : AsyncWebSocketClient} {queued : List (Nat × Bytes)} (h : Sound s queued) :
    s.Delivers queued := by
  obtain ⟨done, hwire, hqueued⟩ := h.wire
  have hmessages := h.messages
  refine ⟨_, hwire, ?_⟩
  unfold waiting
  cases hqueue : s.messageQueue with
  | nil =>
    rw [hqueue] at hqueued
    exact ⟨hqueued.symm, nofun⟩
  | cons m rest =>
    rw [hqueue] at hqueued hmessages
    have hrest : rest.filter (fun m => m.sent < m.buffer.length) = rest := by
      refine List.filter_eq_self.mpr fun m' hm' => ?_
      have hfresh := hmessages.2 m' hm'
      exact decide_eq_true (hfresh.valid.waits (congrArg _ hfresh.2)
        ((congrArg AsyncWebSocketMessage.acked hfresh.2).trans (congrArg AsyncWebSocketMessage.ack hfresh.2).symm))
    have hkeep : m.sent < m.buffer.length →
        (m :: rest).filter (fun m => m.sent < m.buffer.length) = m :: rest := by
      intro hless
      rw [List.filter_cons_of_pos (by simpa using hless), hrest]
    rw [progress_cons]
    split_ifs with hzero hall
    · have hless : m.sent < m.buffer.length := by
        rw [hzero]
        exact List.length_pos_iff.mpr hmessages.1.nonempty
      rw [hkeep hless]
      exact ⟨hqueued.symm, nofun⟩
    · have hdrop : (m :: rest).filter (fun m => m.sent < m.buffer.length) = rest := by
        rw [List.filter_cons_of_neg (by simp [hall]), hrest]
      rw [hdrop, hqueued]
      exact ⟨by simp, nofun⟩
    · rw [hkeep (Nat.lt_of_le_of_ne hmessages.1.sent_le hall)]
      refine ⟨hqueued.symm, ?_⟩
      rintro _ ⟨⟩
      exact ⟨m.buffer, rfl, List.take_prefix _ _⟩

/-- In any run the texts are sent in order, each once. -/
theorem delivers_in_order (closeWhenFull : Bool) (keepAlivePeriod now : Nat) {es : List (Link × SendEvent)}
    (huntorn : ∀ e ∈ es, e.1.Untorn) :
    (Machine.run step (.new closeWhenFull keepAlivePeriod now) es).Delivers
      (queuedBy (.new closeWhenFull keepAlivePeriod now) es) := by
  have hrun := sound_run (sound_new closeWhenFull keepAlivePeriod now) huntorn
  rw [List.nil_append] at hrun
  exact hrun.delivers

/-- A connection on which nothing fails, with room for 100 bytes. -/
def steady : Link := ⟨100, by decide, true, (0, 0), true, true, true⟩

/-- The text `hi` is sent and acknowledged. -/
def hiEvents : List (Link × SendEvent) := [(steady, .message .text (ascii "hi")), (steady, .ack 4 0)]

theorem delivers_in_order_hi :
    (Machine.run step (.new true 0 0) hiEvents).Delivers (queuedBy (.new true 0 0) hiEvents) := by
  refine delivers_in_order true 0 0 fun e he => ?_
  rcases List.mem_pair.mp he with rfl | rfl
  · exact fun _ => ⟨rfl, rfl⟩
  · exact fun _ => ⟨rfl, rfl⟩

end WebSocket

end Handheld
