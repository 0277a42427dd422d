import Handheld.WebSocketDelivery

/-!
# Acknowledgements

`_onAck` is told how many bytes of the connection were acknowledged, and takes them
for the control frame that it sent last, if there is one, and then for the first
message. A control frame that waits for its acknowledgement is sent again whenever
the queue is looked at, and is acknowledged only once.

Result: `account_run`. While no control frame is sent twice, what the client waits
for is what is in flight.
-/

namespace Handheld

open ByteString FrameStream

namespace WebSocket

open AsyncWebSocketClient

/-! ## Definitions -/

namespace AsyncWebSocketClient

/-- The bytes of the first message that are not acknowledged. -/
def messageWaits (s : AsyncWebSocketClient) : Nat :=
  match s.messageQueue with
  | [] => 0
  | m :: _ => m.ack - m.acked

/-- The bytes of the control frame that is sent. -/
def controlWaits (s : AsyncWebSocketClient) : Nat :=
  match s.controlQueue with
  | [] => 0
  | control :: _ => if control.finished then control.len else 0

/-- No control frame waits for its acknowledgement. -/
def Calm (s : AsyncWebSocketClient) : Prop := ∀ c ∈ s.controlQueue.head?, c.finished = false

end AsyncWebSocketClient

/-- The client, and the bytes that were acknowledged so far. -/
abbrev Acked := AsyncWebSocketClient × Nat

def ackedStep (s : Acked) (e : Link × SendEvent) : Acked :=
  (s.1.step e, s.2 + match e.2 with
    | .ack len _ => len
    | _ => 0)

/-- Nothing of the connection fails, messages have at most half a gigabyte, only what
was sent is acknowledged, and while a control frame waits for its acknowledgement
nothing else happens. -/
structure Orderly (s : Acked) (e : Link × SendEvent) : Prop where
  reliable : e.1.Reliable
  short : ∀ kind buffer, e.2 = .message kind buffer → buffer.length < 2 ^ 29
  allocated : ∀ code message allocated, e.2 = .close code message allocated → allocated = true
  honest : ∀ len now, e.2 = .ack len now → s.2 + len ≤ s.1.tcp.wire.length
  calm : s.1.Calm ∨ e.2 = .disconnect ∨ ∃ now, e.2 = .ack s.1.controlWaits now

/-- What is in flight is what the client waits for. -/
structure Account (s : AsyncWebSocketClient) (total : Nat) : Prop where
  controls : ∀ c ∈ s.controlQueue.tail, c.finished = false
  between : s.Calm ∨ s.messageWaits = 0
  messages : ∀ m ∈ s.messageQueue, m.acked ≤ m.ack ∧ m.ack ≤ 3 * m.sent ∧ m.buffer.length < 2 ^ 29 ∧
    (m.status = .sent → m.acked = m.ack)
  wire : s.tcp.wire.length = total + s.messageWaits + s.controlWaits
  established : s.client = true → s.tcp.established = true

/-! ## The account -/

section account

variable {link : Link} {s t : AsyncWebSocketClient} {queued : List (Nat × Bytes)} {total : Nat}

theorem controlWaits_calm (h : s.Calm) : s.controlWaits = 0 := by
  unfold AsyncWebSocketClient.controlWaits
  unfold AsyncWebSocketClient.Calm at h
  cases hqueue : s.controlQueue with
  | nil => rfl
  | cons c rest =>
    rw [hqueue] at h
    have hc : c.finished = false := h c rfl
    dsimp only
    rw [hc]
    rfl

theorem messageWaits_fresh (h : ∀ m ∈ s.messageQueue, m.Fresh) : s.messageWaits = 0 := by
  unfold messageWaits
  cases hqueue : s.messageQueue with
  | nil => rfl
  | cons m rest =>
    rw [hqueue] at h
    have hfresh := (h m List.mem_cons_self).2
    have hack : m.ack = 0 := congrArg AsyncWebSocketMessage.ack hfresh
    dsimp only
    rw [hack]
    exact Nat.zero_sub _

theorem messageWaits_between (h : s.betweenFrames = true) : s.messageWaits = 0 := by
  unfold betweenFrames at h
  unfold messageWaits
  cases hqueue : s.messageQueue with
  | nil => rfl
  | cons m rest =>
    rw [hqueue] at h
    have hacked : m.acked = m.ack := of_decide_eq_true h
    dsimp only
    rw [hacked, Nat.sub_self]

/-- Only a first message that is sent and acknowledged leaves the queue. -/
theorem clearQueue_cases (h : Queue s.messageQueue) :
    s.clearQueue = s ∧ (∀ m ∈ s.messageQueue, m.status = .sending) ∨
      ∃ m rest, s.messageQueue = m :: rest ∧ m.status = .sent ∧ m.sent = m.buffer.length ∧
        (∀ m' ∈ rest, m'.Fresh) ∧ s.clearQueue = { s with messageQueue := rest } := by
  have hsame : s.messageQueue.dropWhile AsyncWebSocketMessage.finished = s.messageQueue → s.clearQueue = s := by
    intro heq
    unfold clearQueue
    rw [heq]
  cases hqueue : s.messageQueue with
  | nil => exact .inl ⟨hsame (by rw [hqueue]; rfl), nofun⟩
  | cons m rest =>
    rw [hqueue] at h
    have hrest : ∀ m' ∈ rest, m'.status = .sending := fun m' hm' =>
      congrArg AsyncWebSocketMessage.status (h.2 m' hm').2
    rcases h.1.status with hsending | ⟨hsent, hall⟩
    · refine .inl ⟨hsame ?_, List.forall_mem_cons.mpr ⟨hsending, hrest⟩⟩
      rw [hqueue]
      refine List.dropWhile_cons_of_neg ?_
      unfold AsyncWebSocketMessage.finished
      rw [hsending]
      decide
    · refine .inr ⟨m, rest, rfl, hsent, hall, h.2, ?_⟩
      have hfinished : m.finished = true := by
        unfold AsyncWebSocketMessage.finished
        rw [hsent]
        rfl
      unfold clearQueue
      rw [hqueue, List.dropWhile_cons_of_pos hfinished, dropWhile_fresh h.2]

theorem account_clearQueue (hsound : Sound s queued) (h : Account s total) : Account s.clearQueue total := by
  rcases clearQueue_cases hsound.messages with ⟨hsame, -⟩ | ⟨m, rest, hqueue, hsent, -, hfresh, hcleared⟩
  · rw [hsame]
    exact h
  · obtain ⟨hm, hrest⟩ := List.forall_mem_cons.mp (hqueue ▸ h.messages)
    have hnothing : s.messageWaits = 0 := by
      unfold messageWaits
      rw [hqueue]
      dsimp only
      rw [hm.2.2.2 hsent, Nat.sub_self]
    have hnothing' : AsyncWebSocketClient.messageWaits { s with messageQueue := rest } = 0 :=
      messageWaits_fresh hfresh
    have hwire := h.wire
    rw [hnothing, ← hnothing'] at hwire
    rw [hcleared]
    exact ⟨h.controls, .inr hnothing', hrest, hwire, h.established⟩

theorem headLen_le_two_mul {n : Nat} (hpos : 0 < n) : headLen n ≤ 2 * n := by
  unfold headLen
  split_ifs <;> omega

/-- A frame that is sent is waited for. -/
theorem account_sends (hreliable : link.Reliable) (hcalm : s.Calm) (hsound : Sound s queued)
    (h : Account s total) (hsends : Sends link s t) : Account t total := by
  have hwire := h.wire
  rw [controlWaits_calm hcalm] at hwire
  cases hsends with
  | nothing => exact h
  | @control control rest hqueue hbetween =>
    have hshort : control.data.length ≤ 125 :=
      (hsound.controls control (by rw [hqueue]; exact List.mem_cons_self)).2.2
    have hrest : ∀ c ∈ rest, c.finished = false := by
      have htail := h.controls
      rw [hqueue] at htail
      exact htail
    have hlength : (control.frame link).length = control.len := by
      unfold AsyncWebSocketControl.frame AsyncWebSocketControl.len
      rw [length_frameBytes]
      unfold headLen
      rw [if_neg (by omega), Nat.add_comm]
    refine ⟨hrest, .inr (messageWaits_between hbetween), h.messages, ?_, h.established⟩
    show (s.tcp.wire ++ control.frame link).length = total + s.messageWaits + control.len
    rw [List.length_append, hlength, hwire]
    rfl
  | controlLost _ _ hlost => exact absurd hreliable hlost
  | @message m rest hqueue hacked hsent hwindow =>
    obtain ⟨hm, hrest⟩ := List.forall_mem_cons.mp (hqueue ▸ h.messages)
    have hmessages := hsound.messages
    rw [hqueue] at hmessages
    obtain ⟨-, hwindow'⟩ := window_eq hwindow
    generalize hn : m.toSend s.tcp = n
    have hpos : 0 < n := by
      unfold AsyncWebSocketMessage.toSend at hn
      omega
    have hle : m.sent + n ≤ m.buffer.length := by
      unfold AsyncWebSocketMessage.toSend at hn
      omega
    have hhead := headLen_le_two_mul hpos
    have hack : (m.ack + headLen n + n) % sizeRange = m.ack + headLen n + n := by
      refine Nat.mod_eq_of_lt ?_
      unfold sizeRange
      omega
    have hadvanced : (m.advanced n).ack = m.ack + headLen n + n := hack
    have hsending : m.status = .sending :=
      hmessages.1.status.resolve_right fun hall => Nat.ne_of_lt hsent hall.2
    have hwaits : s.messageWaits = 0 := by
      unfold messageWaits
      rw [hqueue]
      dsimp only
      rw [hacked, Nat.sub_self]
    refine ⟨h.controls, .inl hcalm, List.forall_mem_cons.mpr ⟨⟨?_, ?_, hm.2.2.1, fun hsentStatus => ?_⟩, hrest⟩, ?_,
      h.established⟩
    · show m.acked ≤ (m.advanced n).ack
      rw [hadvanced]
      omega
    · show (m.advanced n).ack ≤ 3 * (m.sent + n)
      rw [hadvanced]
      omega
    · cases hsending.symm.trans hsentStatus
    · show (s.tcp.wire ++ m.frame link n).length = total + ((m.advanced n).ack - m.acked) + s.controlWaits
      have hlength : (m.frame link n).length = headLen n + n := by
        unfold AsyncWebSocketMessage.frame
        rw [length_frameBytes, AsyncWebSocketMessage.length_piece hle]
      rw [List.length_append, hlength, hwire, hwaits, hadvanced, controlWaits_calm hcalm, hacked]
      omega
  | messageLost _ _ _ _ hlost => exact absurd hreliable hlost

theorem account_closeNow (h : Account s total) : Account s.closeNow total := by
  unfold closeNow
  split_ifs
  · exact ⟨h.controls, h.between, h.messages, h.wire, nofun⟩
  · exact h

theorem account_runQueue (hreliable : link.Reliable) (hcalm : s.Calm) (hsound : Sound s queued)
    (h : Account s total) : Account (s.runQueue link) total := by
  have huntorn : link.Untorn := fun _ => ⟨hreliable.writeData, hreliable.output⟩
  cases hclient : s.client with
  | false =>
    have hsame : s.runQueue link = s := by
      unfold runQueue
      rw [hclient]
      rfl
    rw [hsame]
    exact h
  | true =>
    have hcalm' : s.clearQueue.Calm := hcalm
    exact account_sends hreliable hcalm' hsound.clearQueue (account_clearQueue hsound h)
      (runQueue_sends huntorn hsound.sendable hclient)

theorem account_runIfRoom (hreliable : link.Reliable) (hcalm : s.Calm) (hsound : Sound s queued)
    (h : Account s total) : Account (s.runIfRoom link) total := by
  unfold runIfRoom
  split_ifs
  · exact account_runQueue hreliable hcalm hsound h
  · exact h

theorem calm_pushControl (hcalm : s.Calm) (opcode : Nat) (data : Bytes) :
    AsyncWebSocketClient.Calm { s with controlQueue := s.controlQueue ++ [.new opcode data] } := by
  unfold Calm at hcalm ⊢
  cases hqueue : s.controlQueue with
  | nil =>
    rintro c ⟨⟩
    rfl
  | cons head rest =>
    rw [hqueue] at hcalm
    exact hcalm

theorem account_pushControl (hcalm : s.Calm) (h : Account s total) (opcode : Nat) (data : Bytes) :
    Account { s with controlQueue := s.controlQueue ++ [.new opcode data] } total := by
  have hcalm' := calm_pushControl hcalm opcode data
  refine ⟨fun c hc => ?_, .inl hcalm', h.messages, ?_, h.established⟩
  · have htail := h.controls
    cases hqueue : s.controlQueue with
    | nil =>
      rw [hqueue] at hc
      cases hc
    | cons head rest =>
      rw [hqueue] at hc htail
      rcases List.mem_append.mp hc with hold | hnew
      · exact htail c hold
      · rw [List.mem_singleton.mp hnew]
        rfl
  · have hwire := h.wire
    rw [controlWaits_calm hcalm] at hwire
    rw [controlWaits_calm hcalm']
    exact hwire

theorem account_queueControl (hreliable : link.Reliable) (hcalm : s.Calm) (hsound : Sound s queued)
    (h : Account s total) {opcode : Nat} (hopcode : 8 ≤ opcode ∧ opcode < 16) (data : Bytes) :
    Account (s.queueControl link opcode data) total := by
  unfold queueControl
  split_ifs
  · exact h
  · exact account_runIfRoom hreliable (calm_pushControl hcalm opcode data) (hsound.pushControl hopcode data)
      (account_pushControl hcalm h opcode data)

theorem account_pushMessage (h : Account s total) {buffer : Bytes} (hshort : buffer.length < 2 ^ 29)
    (kind : MessageKind) :
    Account { s with messageQueue := s.messageQueue ++ [.new buffer kind] } total := by
  have hwaits : AsyncWebSocketClient.messageWaits { s with messageQueue := s.messageQueue ++ [.new buffer kind] } =
      s.messageWaits := by
    unfold messageWaits
    cases hqueue : s.messageQueue with
    | nil => rfl
    | cons m rest => rfl
  refine ⟨h.controls, ?_, fun m hm => ?_, ?_, h.established⟩
  · rw [hwaits]
    exact h.between
  · rcases List.mem_append.mp hm with hold | hnew
    · exact h.messages m hold
    · rw [List.mem_singleton.mp hnew]
      exact ⟨Nat.le_refl _, Nat.zero_le _, hshort, nofun⟩
  · rw [hwaits]
    exact h.wire

theorem account_queueMessage (hreliable : link.Reliable) (hcalm : s.Calm) (hsound : Sound s queued)
    (h : Account s total) (kind : MessageKind) {buffer : Bytes} (hshort : buffer.length < 2 ^ 29) :
    Account (s.queueMessage link kind buffer).2 total := by
  rcases s.queueMessage_cases link kind buffer with hkept | hclosed | ⟨hne, hpushed⟩
  · rw [hkept]
    exact h
  · rw [hclosed]
    exact account_closeNow ⟨h.controls, h.between, h.messages, h.wire, h.established⟩
  · rw [hpushed]
    exact account_runIfRoom hreliable hcalm (hsound.pushMessage hne kind) (account_pushMessage h hshort kind)

theorem account_acknowledge (hcalm : s.Calm) (h : Account s total) {m : AsyncWebSocketMessage}
    {rest : List AsyncWebSocketMessage} (hqueue : s.messageQueue = m :: rest) (hack : m.ack < sizeRange)
    {len : Nat} (hlen : m.acked + len ≤ m.ack) :
    Account { s with messageQueue := m.acknowledge len :: rest } (total + len) := by
  obtain ⟨hm, hrest⟩ := List.forall_mem_cons.mp (hqueue ▸ h.messages)
  have hmod : (m.acked + len) % sizeRange = m.acked + len := Nat.mod_eq_of_lt (Nat.lt_of_le_of_lt hlen hack)
  have hsame : (m.acknowledge len).ack = m.ack ∧ (m.acknowledge len).acked = m.acked + len ∧
      (m.acknowledge len).sent = m.sent ∧ (m.acknowledge len).buffer = m.buffer ∧
      ((m.acknowledge len).status = .sent → m.acked + len = m.ack) := by
    unfold AsyncWebSocketMessage.acknowledge
    dsimp only
    rw [hmod]
    split_ifs with hdone
    · exact ⟨rfl, rfl, rfl, rfl, fun _ => Nat.le_antisymm hlen hdone.2⟩
    · refine ⟨rfl, rfl, rfl, rfl, fun hsent => ?_⟩
      have hacked := hm.2.2.2 hsent
      omega
  obtain ⟨hack', hacked', hsent', hbuffer', hstatus'⟩ := hsame
  refine ⟨h.controls, .inl hcalm, List.forall_mem_cons.mpr ⟨?_, hrest⟩, ?_, h.established⟩
  · rw [hack', hacked', hsent', hbuffer']
    exact ⟨hlen, hm.2.1, hm.2.2.1, hstatus'⟩
  · have hwire := h.wire
    have hwaits : s.messageWaits = m.ack - m.acked := by
      unfold messageWaits
      rw [hqueue]
    show s.tcp.wire.length = total + len + ((m.acknowledge len).ack - (m.acknowledge len).acked) + s.controlWaits
    rw [hack', hacked']
    omega

theorem account_popControl (h : Account s total) {control : AsyncWebSocketControl}
    {rest : List AsyncWebSocketControl} (hqueue : s.controlQueue = control :: rest) :
    AsyncWebSocketClient.Calm { s with controlQueue := rest } ∧
      Account { s with controlQueue := rest } (total + s.controlWaits) := by
  have hrest : ∀ c ∈ rest, c.finished = false := by
    have htail := h.controls
    rw [hqueue] at htail
    exact htail
  have hcalm : AsyncWebSocketClient.Calm { s with controlQueue := rest } := fun c hc =>
    hrest c (List.mem_of_mem_head? hc)
  refine ⟨hcalm, fun c hc => hrest c (List.mem_of_mem_tail hc), .inl hcalm, h.messages, ?_, h.established⟩
  have hwire := h.wire
  rw [controlWaits_calm hcalm]
  show s.tcp.wire.length = total + s.controlWaits + s.messageWaits + 0
  omega

theorem account_ackMessage (hreliable : link.Reliable) (hcalm : s.Calm) (hsound : Sound s queued)
    (h : Account s total) {len : Nat} (hhonest : total + len ≤ s.tcp.wire.length) :
    Account (s.ackMessage link len) (total + len) := by
  have hwire := h.wire
  rw [controlWaits_calm hcalm] at hwire
  unfold ackMessage
  cases hqueue : s.messageQueue with
  | nil =>
    have hzero : len = 0 := by
      have hnothing : s.messageWaits = 0 := by
        unfold messageWaits
        rw [hqueue]
      omega
    rw [hzero]
    exact account_runQueue hreliable hcalm hsound.clearQueue (account_clearQueue hsound h)
  | cons m rest =>
    dsimp only
    split_ifs with hlen
    · have hwaits : s.messageWaits = m.ack - m.acked := by
        unfold messageWaits
        rw [hqueue]
      have hacked := (h.messages m (by rw [hqueue]; exact List.mem_cons_self)).1
      have hsound' := hsound.acknowledge hqueue len
      have hvalid : m.Valid := by
        have hmessages := hsound.messages
        rw [hqueue] at hmessages
        exact hmessages.1
      have hlen' : m.acked + len ≤ m.ack := by omega
      have haccount := account_acknowledge hcalm h hqueue hvalid.ack_lt hlen'
      exact account_runQueue hreliable hcalm hsound'.clearQueue (account_clearQueue hsound' haccount)
    · have hzero : len = 0 := not_not.mp hlen
      rw [hzero]
      exact account_runQueue hreliable hcalm hsound.clearQueue (account_clearQueue hsound h)

/-- `_onAck` when no control frame waits. -/
theorem onAck_calm (hcalm : s.Calm) (len now : Nat) :
    s.onAck link len now = ackMessage link len { s with lastMessageTime := now } := by
  obtain ⟨_, _, _, controlQueue, _, _, _, _⟩ := s
  unfold onAck
  cases controlQueue with
  | nil => rfl
  | cons control rest =>
    have hfinished : control.finished = false := hcalm control rfl
    dsimp only
    rw [hfinished]
    rfl

/-- `_onAck` when a control frame waits. -/
theorem onAck_control {control : AsyncWebSocketControl} {rest : List AsyncWebSocketControl}
    (hqueue : s.controlQueue = control :: rest) (hfinished : control.finished = true) (len now : Nat) :
    s.onAck link len now =
      if s.status = .disconnecting ∧ control.opcode = WS_DISCONNECT then
        closeNow { s with lastMessageTime := now, controlQueue := rest, status := .disconnected }
      else ackMessage link ((len + sizeRange - control.len) % sizeRange)
        { s with lastMessageTime := now, controlQueue := rest } := by
  unfold onAck
  rw [hqueue]
  dsimp only
  rw [hfinished, if_pos rfl]

theorem paid_control (n : Nat) : (n + sizeRange - n) % sizeRange = 0 := by
  rw [Nat.add_sub_cancel_left, Nat.mod_self]

/-- Either no control frame waits, or the first one does. -/
theorem calm_or_finished (s : AsyncWebSocketClient) :
    s.Calm ∨ ∃ control rest, s.controlQueue = control :: rest ∧ control.finished = true ∧
      s.controlWaits = control.len := by
  unfold Calm controlWaits
  cases hqueue : s.controlQueue with
  | nil => exact .inl nofun
  | cons control rest =>
    cases hfinished : control.finished with
    | false =>
      left
      rintro c ⟨⟩
      exact hfinished
    | true => exact .inr ⟨control, rest, rfl, hfinished, if_pos hfinished⟩

theorem account_onAck (hreliable : link.Reliable) (hsound : Sound s queued) (h : Account s total) {len : Nat}
    (hhonest : total + len ≤ s.tcp.wire.length) (hcalm : s.Calm ∨ len = s.controlWaits) (now : Nat) :
    Account (s.onAck link len now) (total + len) := by
  rcases calm_or_finished s with hnone | ⟨control, rest, hqueue, hfinished, hwaits⟩
  · rw [onAck_calm hnone]
    have hsound' : Sound { s with lastMessageTime := now } queued :=
      ⟨hsound.controls, hsound.messages, hsound.room, hsound.wire⟩
    have haccount : Account { s with lastMessageTime := now } total :=
      ⟨h.controls, h.between, h.messages, h.wire, h.established⟩
    have hnone' : AsyncWebSocketClient.Calm { s with lastMessageTime := now } := hnone
    exact account_ackMessage hreliable hnone' hsound' haccount hhonest
  · have hlen : len = control.len := by
      refine (hcalm.resolve_left fun hnone => ?_).trans hwaits
      have hfalse := hnone control (by rw [hqueue]; rfl)
      rw [hfinished] at hfalse
      cases hfalse
    obtain ⟨hpopped, haccount⟩ := account_popControl h hqueue
    rw [hwaits, ← hlen] at haccount
    rw [hlen, onAck_control hqueue hfinished, paid_control, ← hlen]
    split_ifs
    · exact account_closeNow
        ⟨haccount.controls, haccount.between, haccount.messages, haccount.wire, haccount.established⟩
    · have hcontrols := hsound.controls
      rw [hqueue] at hcontrols
      have hsound' : Sound { s with lastMessageTime := now, controlQueue := rest } queued :=
        ⟨(List.forall_mem_cons.mp hcontrols).2, hsound.messages, hsound.room, hsound.wire⟩
      have haccount' : Account { s with lastMessageTime := now, controlQueue := rest } (total + len) :=
        ⟨haccount.controls, haccount.between, haccount.messages, haccount.wire, haccount.established⟩
      have hcalm' : AsyncWebSocketClient.Calm { s with lastMessageTime := now, controlQueue := rest } := hpopped
      have hnothing : total + len + 0 ≤ s.tcp.wire.length := hhonest
      exact account_ackMessage hreliable hcalm' hsound' haccount' hnothing

theorem account_ping (hreliable : link.Reliable) (hcalm : s.Calm) (hsound : Sound s queued)
    (h : Account s total) (data : Bytes) : Account (s.ping link data) total := by
  unfold ping
  split_ifs
  · exact account_queueControl hreliable hcalm hsound h (by decide) data
  · exact h

theorem account_onPoll (hreliable : link.Reliable) (hcalm : s.Calm) (hsound : Sound s queued)
    (h : Account s total) (now : Nat) : Account (s.onPoll link now) total := by
  unfold onPoll
  split_ifs
  · exact account_runQueue hreliable hcalm hsound h
  · exact account_ping hreliable hcalm hsound h _
  · exact h

theorem account_close (hreliable : link.Reliable) (hcalm : s.Calm) (hsound : Sound s queued)
    (h : Account s total) (code : Nat) (message : Bytes) : Account (s.close link code message true) total := by
  have hsound' : Sound { s with status := .disconnecting } queued :=
    ⟨hsound.controls, hsound.messages, hsound.room, hsound.wire⟩
  have haccount : Account { s with status := .disconnecting } total :=
    ⟨h.controls, h.between, h.messages, h.wire, h.established⟩
  have hcalm' : AsyncWebSocketClient.Calm { s with status := .disconnecting } := hcalm
  have hclosing := fun data => account_queueControl hreliable hcalm' hsound' haccount
    (by decide : 8 ≤ WS_DISCONNECT ∧ WS_DISCONNECT < 16) data
  unfold close
  split_ifs with hstatus hcode hallocated
  · exact h
  · exact hclosing _
  · exact hclosing _
  · exact absurd rfl hallocated

theorem account_onControl (hreliable : link.Reliable) (hcalm : s.Calm) (hsound : Sound s queued)
    (h : Account s total) (opcode : Nat) (data : Bytes) : Account (s.onControl link opcode data) total := by
  unfold onControl
  split_ifs
  · exact account_closeNow ⟨h.controls, h.between, h.messages, h.wire, h.established⟩
  · have hsound' : Sound { s with status := .disconnecting } queued :=
      ⟨hsound.controls, hsound.messages, hsound.room, hsound.wire⟩
    have haccount : Account { s with status := .disconnecting } total :=
      ⟨h.controls, h.between, h.messages, h.wire, h.established⟩
    have hcalm' : AsyncWebSocketClient.Calm { s with status := .disconnecting } := hcalm
    exact account_queueControl hreliable hcalm' hsound' haccount (by decide) data
  · exact account_queueControl hreliable hcalm hsound h (by decide) data
  · exact h

end account

theorem Orderly.calm_of {s : Acked} {e : Link × SendEvent} (h : Orderly s e) (hdisconnect : e.2 ≠ .disconnect)
    (hack : ∀ len now, e.2 ≠ .ack len now) : s.1.Calm := by
  rcases h.calm with hcalm | hgone | ⟨now, hgone⟩
  · exact hcalm
  · exact absurd hgone hdisconnect
  · exact absurd hgone (hack _ now)

/-- One event of an orderly run. -/
theorem account_step {s : AsyncWebSocketClient} {total : Nat} {queued : List (Nat × Bytes)} {e : Link × SendEvent}
    (hsound : Sound s queued) (h : s.client = true → Account s total) (horderly : Orderly (s, total) e) :
    (ackedStep (s, total) e).1.client = true → Account (ackedStep (s, total) e).1 (ackedStep (s, total) e).2 := by
  obtain ⟨link, event⟩ := e
  have hother : event ≠ .disconnect → (∀ len now, event ≠ .ack len now) → (s.ready link).Calm := horderly.calm_of
  obtain ⟨hreliable, hshort, hallocated, hhonest, hcalm⟩ := horderly
  cases hclient : s.client with
  | false =>
    have hsame : s.step (link, event) = s := by
      unfold step
      rw [hclient]
      rfl
    intro hstill
    have hclosed : (ackedStep (s, total) (link, event)).1.client = false := by
      show (s.step (link, event)).client = false
      rw [hsame]
      exact hclient
    rw [hclosed] at hstill
    cases hstill
  | true =>
    intro _
    have haccount := h hclient
    have hready : Account (s.ready link) total :=
      ⟨haccount.controls, haccount.between, haccount.messages, haccount.wire, haccount.established⟩
    have hsound' : Sound (s.ready link) queued := ⟨hsound.controls, hsound.messages, link.sndbuf_lt, hsound.wire⟩
    unfold ackedStep step
    rw [hclient]
    cases event with
    | disconnect => exact account_closeNow hready
    | ack len now =>
      refine account_onAck hreliable hsound' hready (hhonest len now rfl) ?_ now
      rcases hcalm with hnone | hgone | ⟨_, hack⟩
      · exact .inl hnone
      · cases hgone
      · cases hack
        exact .inr rfl
    | message kind buffer =>
      exact account_queueMessage hreliable (hother nofun nofun) hsound' hready kind (hshort kind buffer rfl)
    | ping data => exact account_ping hreliable (hother nofun nofun) hsound' hready data
    | close code message allocated =>
      rw [hallocated code message allocated rfl]
      exact account_close hreliable (hother nofun nofun) hsound' hready code message
    | control opcode data => exact account_onControl hreliable (hother nofun nofun) hsound' hready opcode data
    | poll now => exact account_onPoll hreliable (hother nofun nofun) hsound' hready now

/-- In an orderly run. -/
theorem account_run {s : Acked} {queued : List (Nat × Bytes)} (hsound : Sound s.1 queued)
    (h : s.1.client = true → Account s.1 s.2) {es : List (Link × SendEvent)}
    (hok : Machine.StepsOk ackedStep Orderly s es) :
    let t := Machine.run ackedStep s es
    Sound t.1 (queued ++ s.1.queuedBy es) ∧ (t.1.client = true → Account t.1 t.2) := by
  induction es generalizing s queued with
  | nil =>
    refine ⟨?_, h⟩
    rw [queuedBy, List.append_nil]
    exact hsound
  | cons e es ih =>
    obtain ⟨he, hes⟩ := hok
    have huntorn : e.1.Untorn := fun _ => ⟨he.reliable.writeData, he.reliable.output⟩
    rw [queuedBy, ← List.append_assoc]
    exact ih (sound_step hsound huntorn) (account_step hsound h he) hes

theorem account_new (closeWhenFull : Bool) (keepAlivePeriod now : Nat) :
    Account (.new closeWhenFull keepAlivePeriod now) 0 :=
  ⟨nofun, .inl nofun, nofun, rfl, fun _ => rfl⟩

end WebSocket

end Handheld
