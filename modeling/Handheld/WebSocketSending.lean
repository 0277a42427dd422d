import Handheld.FrameStream
import Handheld.TcpClient
import Handheld.WebSocket

/-!
# What a WebSocket sends (`AsyncWebSocket.cpp`)

Texts and control frames wait in two queues. A call of `_runQueue` gives at most
one frame to the TCP connection: a control frame, or as much of the first text as
there is room for; the next one goes out when the last one is acknowledged. What a
call finds of the connection is its `Link`.

No caller asks for masked frames. A control frame has at most 125 bytes of data, of
more the source copies all into a buffer for 125.

Results: `webSocketSendFrame_eq`, `sendMessage_spec`, `runQueue_cases`. What one call
puts on the wire.
-/

namespace Handheld

open ByteString FrameStream

namespace WebSocket

/-! ## Definitions -/

/-- What a call finds: the room in the send buffer (`tcp_sndbuf`), whether the buffer
for the header of a frame is allocated and what its last bytes hold then, and
whether `_tcp_write` takes the header, whether it takes the data, and whether
`_tcp_output` succeeds. -/
structure Link where
  sndbuf : Nat
  sndbuf_lt : sndbuf < 2 ^ 16
  malloc : Bool
  stale : UInt8 × UInt8
  writeHead : Bool
  writeData : Bool
  output : Bool

def webSocketSendFrameWindow (c : AsyncClient) : Nat :=
  if !c.canSend then 0 else if c.space < 9 then 0 else c.space - 8

/-- The header in its buffer of `headLen` bytes. -/
def frameHead (stale : UInt8 × UInt8) (final : Bool) (opcode len headLen : Nat) : Bytes :=
  let b0 := UInt8.ofNat (opcode % 16 + if final then 128 else 0)
  if len < 126 then [b0, UInt8.ofNat len, stale.1, stale.2].take headLen
  else [b0, 126] ++ toBigEndian 2 len

/-- The length of the header of a frame with `n` bytes. -/
def headLen (n : Nat) : Nat := if 125 < n then 4 else 2

/-- `webSocketSendFrame`, not masked: the bytes of `data` that are sent. -/
def webSocketSendFrame (link : Link) (final : Bool) (opcode : Nat) (data : Bytes) (c : AsyncClient) :
    Nat × AsyncClient :=
  if !c.canSend then (0, c)
  else if c.space < 2 then (0, c)
  else
    if c.space < headLen data.length then (0, c)
    else
      let len := min data.length (c.space - headLen data.length)
      if !link.malloc then (0, c.abort)
      else
        let head := c.add link.writeHead (frameHead link.stale final opcode len (headLen data.length))
        if head.1 ≠ headLen data.length then (0, head.2)
        else
          let body := if len = 0 then (0, head.2) else head.2.add link.writeData (data.take len)
          if body.1 ≠ len then (0, body.2)
          else if !link.output then (0, body.2)
          else (len, body.2)

/-- `AwsFrameType`, of the frames that begin a message. -/
inductive MessageKind
  | text
  | binary
deriving DecidableEq, Repr

def MessageKind.opcode : MessageKind → Nat
  | .text => 1
  | .binary => 2

def WS_CONTINUATION : Nat := 0
def WS_DISCONNECT : Nat := 8
def WS_PING : Nat := 9
def WS_PONG : Nat := 10

inductive AwsMessageStatus
  | sending
  | sent
  | error
deriving DecidableEq, Repr

structure AsyncWebSocketMessage where
  buffer : Bytes
  kind : MessageKind
  status : AwsMessageStatus
  sent : Nat
  ack : Nat
  acked : Nat

namespace AsyncWebSocketMessage

def new (buffer : Bytes) (kind : MessageKind) : AsyncWebSocketMessage := ⟨buffer, kind, .sending, 0, 0, 0⟩

def finished (m : AsyncWebSocketMessage) : Bool := decide (m.status ≠ .sending)

def betweenFrames (m : AsyncWebSocketMessage) : Bool := decide (m.acked = m.ack)

/-- `ack(len)`. -/
def acknowledge (len : Nat) (m : AsyncWebSocketMessage) : AsyncWebSocketMessage :=
  let m := { m with acked := (m.acked + len) % sizeRange }
  if m.buffer.length ≤ m.sent ∧ m.ack ≤ m.acked then { m with status := .sent } else m

/-- `send`. -/
def send (link : Link) (m : AsyncWebSocketMessage) (c : AsyncClient) : AsyncWebSocketMessage × AsyncClient :=
  if m.status ≠ .sending then (m, c)
  else if m.acked < m.ack then (m, c)
  else if m.sent = m.buffer.length then (if m.acked = m.ack then { m with status := .sent } else m, c)
  else if m.buffer.length < m.sent then ({ m with status := .error }, c)
  else
    let toSend := min (m.buffer.length - m.sent) (webSocketSendFrameWindow c)
    let sent := m.sent + toSend
    let ack := m.ack + toSend + if toSend < 126 then 2 else 4
    let final := decide (sent = m.buffer.length)
    let opCode := if toSend ≠ 0 ∧ sent = toSend then m.kind.opcode else WS_CONTINUATION
    let r := webSocketSendFrame link final opCode ((m.buffer.drop m.sent).take toSend) c
    -- what was not sent is taken back, but for the header
    let missing := if toSend ≠ 0 ∧ r.1 ≠ toSend then toSend - r.1 else 0
    ({ m with status := .sending, sent := sent - missing, ack := (ack - missing) % sizeRange }, r.2)

end AsyncWebSocketMessage

/-- A control frame; `finished` is set when it is sent. -/
structure AsyncWebSocketControl where
  opcode : Nat
  data : Bytes
  finished : Bool

namespace AsyncWebSocketControl

/-- The constructor. It copies all of the data into a buffer that has at most 125 bytes,
so that longer data is not for it. -/
def new (opcode : Nat) (data : Bytes) : AsyncWebSocketControl := ⟨opcode, data.take 125, false⟩

def len (control : AsyncWebSocketControl) : Nat := control.data.length + 2

/-- `send`, which does not look at `finished`. -/
def send (link : Link) (control : AsyncWebSocketControl) (c : AsyncClient) :
    AsyncWebSocketControl × AsyncClient :=
  ({ control with finished := true }, (webSocketSendFrame link true control.opcode control.data c).2)

end AsyncWebSocketControl

inductive AwsClientStatus
  | disconnected
  | connected
  | disconnecting
deriving DecidableEq, Repr

/-- The members of `AsyncWebSocketClient` that sending uses; `client` is that the
pointer `_client` is there. -/
structure AsyncWebSocketClient where
  client : Bool
  tcp : AsyncClient
  status : AwsClientStatus
  controlQueue : List AsyncWebSocketControl
  messageQueue : List AsyncWebSocketMessage
  closeWhenFull : Bool
  lastMessageTime : Nat
  keepAlivePeriod : Nat

/-- `WS_MAX_QUEUED_MESSAGES`. -/
def WS_MAX_QUEUED_MESSAGES : Nat := 32

/-- `AWSC_PING_PAYLOAD`. -/
def AWSC_PING_PAYLOAD : Bytes := ascii "ESPAsyncWebServer-PING"

namespace AsyncWebSocketClient

/-- What the constructor leaves, with what may be set then. -/
def new (closeWhenFull : Bool) (keepAlivePeriod now : Nat) : AsyncWebSocketClient :=
  ⟨true, ⟨true, [], 0⟩, .connected, [], [], closeWhenFull, now, keepAlivePeriod⟩

/-- `if (_client) _client->close(true);`, which calls `_onDisconnect`. -/
def closeNow (s : AsyncWebSocketClient) : AsyncWebSocketClient :=
  if s.client then { s with client := false, tcp := s.tcp.abort } else s

/-- `_clearQueue`. -/
def clearQueue (s : AsyncWebSocketClient) : AsyncWebSocketClient :=
  { s with messageQueue := s.messageQueue.dropWhile AsyncWebSocketMessage.finished }

/-- No message is in the middle of a frame. -/
def betweenFrames (s : AsyncWebSocketClient) : Bool :=
  match s.messageQueue with
  | [] => true
  | m :: _ => m.betweenFrames

/-- `_controlQueue.front().send(_client)`. -/
def sendControl (link : Link) (s : AsyncWebSocketClient) : AsyncWebSocketClient :=
  match s.controlQueue with
  | [] => s
  | control :: rest =>
    let r := control.send link s.tcp
    { s with controlQueue := r.1 :: rest, tcp := r.2 }

/-- `_messageQueue.front().send(_client)`. -/
def sendMessage (link : Link) (s : AsyncWebSocketClient) : AsyncWebSocketClient :=
  match s.messageQueue with
  | [] => s
  | m :: rest =>
    let r := m.send link s.tcp
    { s with messageQueue := r.1 :: rest, tcp := r.2 }

/-- The room is enough for the first control frame. -/
def controlFits (s : AsyncWebSocketClient) : Bool :=
  match s.controlQueue with
  | [] => false
  | control :: _ => decide (control.len - 1 < webSocketSendFrameWindow s.tcp)

/-- `_runQueue`. -/
def runQueue (link : Link) (s : AsyncWebSocketClient) : AsyncWebSocketClient :=
  if !s.client then s
  else
    let s := s.clearQueue
    if s.betweenFrames ∧ s.controlFits then s.sendControl link
    else if s.messageQueue ≠ [] ∧ s.betweenFrames ∧ webSocketSendFrameWindow s.tcp ≠ 0 then
      s.sendMessage link
    else s

/-- `if (_client && _client->canSend()) _runQueue();` -/
def runIfRoom (link : Link) (s : AsyncWebSocketClient) : AsyncWebSocketClient :=
  if s.client ∧ s.tcp.canSend then s.runQueue link else s

/-- `_queueControl`. -/
def queueControl (link : Link) (opcode : Nat) (data : Bytes) (s : AsyncWebSocketClient) :
    AsyncWebSocketClient :=
  if !s.client then s
  else runIfRoom link { s with controlQueue := s.controlQueue ++ [.new opcode data] }

/-- `_queueMessage`, with its answer. -/
def queueMessage (link : Link) (kind : MessageKind) (buffer : Bytes) (s : AsyncWebSocketClient) :
    Bool × AsyncWebSocketClient :=
  if !s.client ∨ buffer.length = 0 ∨ s.status ≠ .connected then (false, s)
  else if WS_MAX_QUEUED_MESSAGES ≤ s.messageQueue.length then
    (false, if s.closeWhenFull then { s with status := .disconnected }.closeNow else s)
  else (true, runIfRoom link { s with messageQueue := s.messageQueue ++ [.new buffer kind] })

/-- `ping`. -/
def ping (link : Link) (data : Bytes) (s : AsyncWebSocketClient) : AsyncWebSocketClient :=
  if s.status = .connected then s.queueControl link WS_PING data else s

/-- `close`; `allocated` is that the buffer for the reason is there. -/
def close (link : Link) (code : Nat) (message : Bytes) (allocated : Bool) (s : AsyncWebSocketClient) :
    AsyncWebSocketClient :=
  if s.status ≠ .connected then s
  else
    let s := { s with status := .disconnecting }
    if code = 0 then s.queueControl link WS_DISCONNECT []
    else if allocated then
      s.queueControl link WS_DISCONNECT (toBigEndian 2 code ++ (cstr message).take 123)
    else { s with tcp := s.tcp.abort }.queueControl link WS_DISCONNECT []

/-- What `_onData` does about a control frame. -/
def onControl (link : Link) (opcode : Nat) (data : Bytes) (s : AsyncWebSocketClient) :
    AsyncWebSocketClient :=
  if opcode = WS_DISCONNECT then
    if s.status = .disconnecting then { s with status := .disconnected }.closeNow
    else { s with status := .disconnecting }.queueControl link WS_DISCONNECT data
  else if opcode = WS_PING then s.queueControl link WS_PONG data
  else s

/-- The rest of `_onAck`, for the bytes that are no control frame's. -/
def ackMessage (link : Link) (len : Nat) (s : AsyncWebSocketClient) : AsyncWebSocketClient :=
  let s := match s.messageQueue with
    | m :: rest => if len ≠ 0 then { s with messageQueue := m.acknowledge len :: rest } else s
    | [] => s
  s.clearQueue.runQueue link

/-- `_onAck`. -/
def onAck (link : Link) (len now : Nat) (s : AsyncWebSocketClient) : AsyncWebSocketClient :=
  let s := { s with lastMessageTime := now }
  match s.controlQueue with
  | control :: rest =>
    if control.finished then
      let s := { s with controlQueue := rest }
      if s.status = .disconnecting ∧ control.opcode = WS_DISCONNECT then
        { s with status := .disconnected }.closeNow
      else s.ackMessage link ((len + sizeRange - control.len) % sizeRange)
    else s.ackMessage link len
  | [] => s.ackMessage link len

/-- `_onPoll`. -/
def onPoll (link : Link) (now : Nat) (s : AsyncWebSocketClient) : AsyncWebSocketClient :=
  if s.tcp.canSend ∧ (s.controlQueue ≠ [] ∨ s.messageQueue ≠ []) then s.runQueue link
  else if 0 < s.keepAlivePeriod ∧ s.keepAlivePeriod ≤ (now + sizeRange - s.lastMessageTime) % sizeRange ∧
      s.controlQueue = [] ∧ s.messageQueue = [] then
    s.ping link AWSC_PING_PAYLOAD
  else s

end AsyncWebSocketClient

/-- What happens to a client. -/
inductive SendEvent
  | message (kind : MessageKind) (buffer : Bytes)
  | ping (data : Bytes)
  | close (code : Nat) (message : Bytes) (allocated : Bool)
  | control (opcode : Nat) (data : Bytes)
  | ack (len now : Nat)
  | poll (now : Nat)
  | disconnect

namespace AsyncWebSocketClient

/-- With the room that there is now. -/
def ready (link : Link) (s : AsyncWebSocketClient) : AsyncWebSocketClient :=
  { s with tcp := { s.tcp with sndbuf := link.sndbuf } }

/-- One event. Nothing happens to a client that is disconnected. -/
def step (s : AsyncWebSocketClient) (e : Link × SendEvent) : AsyncWebSocketClient :=
  if !s.client then s
  else
    let s := s.ready e.1
    match e.2 with
    | .message kind buffer => (s.queueMessage e.1 kind buffer).2
    | .ping data => s.ping e.1 data
    | .close code message allocated => s.close e.1 code message allocated
    | .control opcode data => s.onControl e.1 opcode data
    | .ack len now => s.onAck e.1 len now
    | .poll now => s.onPoll e.1 now
    | .disconnect => s.closeNow

/-- The message that the event adds to the queue. -/
def accepted (s : AsyncWebSocketClient) (e : Link × SendEvent) : List (Nat × Bytes) :=
  match e.2 with
  | .message kind buffer =>
    if ((s.ready e.1).queueMessage e.1 kind buffer).1 then [(kind.opcode, buffer)] else []
  | _ => []

end AsyncWebSocketClient

/-! ## 1. A frame -/

section frame

variable {link : Link} {final : Bool} {opcode : Nat} {data : Bytes} {c : AsyncClient}

/-- Both writes or none, and the output then too. -/
def Link.Untorn (link : Link) : Prop := link.writeHead = true → link.writeData = true ∧ link.output = true

/-- Nothing fails. -/
structure Link.Reliable (link : Link) : Prop where
  malloc : link.malloc = true
  writeHead : link.writeHead = true
  writeData : link.writeData = true
  output : link.output = true

/-- The bytes of a frame. -/
def frameBytes (link : Link) (final : Bool) (opcode : Nat) (data : Bytes) : Bytes :=
  frameHead link.stale final opcode data.length (headLen data.length) ++ data

theorem length_frameHead (stale : UInt8 × UInt8) (final : Bool) (opcode n : Nat) :
    (frameHead stale final opcode n (headLen n)).length = headLen n := by
  unfold frameHead headLen
  by_cases hn : n < 126
  · have hlong : ¬ 125 < n := by omega
    rw [if_pos hn, if_neg hlong]
    rfl
  · have hlong : 125 < n := by omega
    rw [if_neg hn, if_pos hlong]
    simp

theorem length_frameBytes : (frameBytes link final opcode data).length = headLen data.length + data.length := by
  unfold frameBytes
  rw [List.length_append, length_frameHead]

theorem two_le_headLen (n : Nat) : 2 ≤ headLen n := by
  unfold headLen
  split_ifs <;> omega

/-- The frame is read as it was written. -/
theorem readFrame_frameBytes (hopcode : opcode < 16) (hdata : data.length < 2 ^ 16) :
    readFrame (frameBytes link final opcode data) = some (⟨final, opcode, data⟩, []) := by
  have hfirst : (UInt8.ofNat (opcode % 16 + if final then 128 else 0)).toNat =
      opcode + if final then 128 else 0 := by
    rw [UInt8.toNat_ofNat', Nat.mod_eq_of_lt hopcode]
    cases final <;> simp <;> omega
  have hflag : decide (128 ≤ opcode + if final = true then 128 else 0) = final := by
    cases final <;> simp
    omega
  have hlow : (opcode + if final = true then 128 else 0) % 16 = opcode := by
    cases final <;> simp <;> omega
  have htail : ∀ lengthBytes : Bytes, ∀ code : UInt8,
      readLength code.toNat (lengthBytes ++ data) = some (data.length, data) →
        readFrame (UInt8.ofNat (opcode % 16 + if final then 128 else 0) :: code :: (lengthBytes ++ data)) =
          some (⟨final, opcode, data⟩, []) := by
    intro lengthBytes code hlength
    unfold readFrame
    dsimp only
    rw [hlength, Option.bind_some, if_pos (Nat.le_refl _), hfirst, hflag, hlow, List.take_length,
      List.drop_length]
  unfold frameBytes frameHead headLen
  by_cases hshort : data.length < 126
  · rw [if_pos hshort, if_neg (by omega)]
    refine htail [] _ ?_
    have hcode : (UInt8.ofNat data.length).toNat = data.length := by
      rw [UInt8.toNat_ofNat']
      omega
    unfold readLength
    rw [hcode, if_pos hshort]
    rfl
  · rw [if_neg hshort]
    refine htail (toBigEndian 2 data.length) 126 ?_
    have hvalue : bigEndian (toBigEndian 2 data.length) = data.length := by
      rw [bigEndian_toBigEndian, Nat.mod_eq_of_lt (by omega)]
    have hcode : (126 : UInt8).toNat = 126 := rfl
    unfold readLength
    rw [hcode, if_neg (by decide), if_pos ⟨rfl, by simp⟩, List.take_left' (length_toBigEndian 2 _),
      List.drop_left' (length_toBigEndian 2 _), hvalue]

/-- A frame that there is room for. -/
theorem webSocketSendFrame_eq (huntorn : link.Untorn) (hroom : headLen data.length + data.length ≤ c.space) :
    webSocketSendFrame link final opcode data c =
      if !link.malloc then (0, c.abort)
      else if !link.writeHead then (0, c)
      else (data.length, c.sent (frameBytes link final opcode data)) := by
  have htwo := two_le_headLen data.length
  have hcan : c.canSend = true := decide_eq_true (by omega)
  have hlen : min data.length (c.space - headLen data.length) = data.length := min_eq_left (by omega)
  unfold webSocketSendFrame
  rw [hcan, if_neg (by decide), if_neg (by omega), if_neg (by omega), hlen]
  dsimp only
  set head := frameHead link.stale final opcode data.length (headLen data.length) with hdef
  have hheadLen : head.length = headLen data.length := length_frameHead _ _ _ _
  cases hmalloc : link.malloc with
  | false => rfl
  | true =>
    cases hwrite : link.writeHead with
    | false =>
      rw [AsyncClient.add_refused]
      have hne : 0 ≠ headLen data.length := by omega
      simp only [Bool.not_true, Bool.not_false, Bool.false_eq_true, if_false, if_true, if_pos hne]
    | true =>
      obtain ⟨hdata, houtput⟩ := huntorn hwrite
      have hhead : c.add true head = (headLen data.length, c.sent head) := by
        rw [← hheadLen]
        refine AsyncClient.add_ok (by omega)
      have hbody : (if data.length = 0 then ((0 : Nat), c.sent head)
          else (c.sent head).add true (data.take data.length)) = (data.length, c.sent (head ++ data)) := by
        split_ifs with hzero
        · rw [List.length_eq_zero_iff.mp hzero, List.append_nil]
          rfl
        · rw [List.take_length, AsyncClient.add_ok, AsyncClient.sent_sent]
          rw [AsyncClient.space_sent]
          omega
      rw [hdata, houtput, hhead]
      simp only [hbody, ne_eq, not_true_eq_false, if_false, Bool.not_true, Bool.false_eq_true]
      rfl

end frame

/-! ## 2. What one call sends -/

section call

variable {link : Link} {c : AsyncClient}

theorem window_eq (h : webSocketSendFrameWindow c ≠ 0) :
    9 ≤ c.space ∧ webSocketSendFrameWindow c = c.space - 8 := by
  unfold webSocketSendFrameWindow at h ⊢
  split_ifs at h ⊢ with hcan hspace
  · exact absurd rfl h
  · exact absurd rfl h
  · exact ⟨Nat.not_lt.mp hspace, rfl⟩

theorem headLen_le (n : Nat) : headLen n ≤ 4 := by
  unfold headLen
  split_ifs <;> omega

namespace AsyncWebSocketMessage

variable {m : AsyncWebSocketMessage}

/-- The next `n` bytes. -/
def piece (n : Nat) (m : AsyncWebSocketMessage) : Bytes := (m.buffer.drop m.sent).take n

/-- They are sent. -/
def advanced (n : Nat) (m : AsyncWebSocketMessage) : AsyncWebSocketMessage :=
  { m with sent := m.sent + n, ack := (m.ack + headLen n + n) % sizeRange }

/-- They are not, and the header is waited for. -/
def missed (n : Nat) (m : AsyncWebSocketMessage) : AsyncWebSocketMessage :=
  { m with ack := (m.ack + headLen n) % sizeRange }

/-- The frame with the next `n` bytes. -/
def frame (link : Link) (n : Nat) (m : AsyncWebSocketMessage) : Bytes :=
  frameBytes link (decide (m.sent + n = m.buffer.length))
    (if m.sent = 0 then m.kind.opcode else WS_CONTINUATION) (m.piece n)

/-- The bytes that one frame takes. -/
def toSend (c : AsyncClient) (m : AsyncWebSocketMessage) : Nat :=
  min (m.buffer.length - m.sent) (webSocketSendFrameWindow c)

theorem length_piece {n : Nat} (h : m.sent + n ≤ m.buffer.length) : (m.piece n).length = n := by
  unfold piece
  rw [List.length_take, List.length_drop]
  omega

theorem send_eq (huntorn : link.Untorn) (hstatus : m.status = .sending) (hbetween : m.acked = m.ack)
    (hsent : m.sent < m.buffer.length) (hwindow : webSocketSendFrameWindow c ≠ 0) :
    m.send link c =
      if !link.malloc then (m.missed (m.toSend c), c.abort)
      else if !link.writeHead then (m.missed (m.toSend c), c)
      else (m.advanced (m.toSend c), c.sent (m.frame link (m.toSend c))) := by
  obtain ⟨hspace, hwindow'⟩ := window_eq hwindow
  have hpos : m.toSend c ≠ 0 := by
    unfold toSend
    omega
  have hpiece : (m.piece (m.toSend c)).length = m.toSend c := length_piece (by unfold toSend; omega)
  have hroom : headLen (m.piece (m.toSend c)).length + (m.piece (m.toSend c)).length ≤ c.space := by
    have hhead := headLen_le (m.piece (m.toSend c)).length
    rw [hpiece] at hhead ⊢
    have hle : m.toSend c ≤ webSocketSendFrameWindow c := min_le_right _ _
    omega
  have hheader : (if m.toSend c < 126 then 2 else 4) = headLen (m.toSend c) := by
    unfold headLen
    split_ifs <;> omega
  have hfirst : (m.toSend c ≠ 0 ∧ m.sent + m.toSend c = m.toSend c) ↔ m.sent = 0 := by omega
  have hframe := @webSocketSendFrame_eq link (decide (m.sent + m.toSend c = m.buffer.length))
    (if m.sent = 0 then m.kind.opcode else WS_CONTINUATION) _ _ huntorn hroom
  rw [hpiece] at hframe
  have hopcode : (if m.toSend c ≠ 0 ∧ m.sent + m.toSend c = m.toSend c then m.kind.opcode else WS_CONTINUATION) =
      if m.sent = 0 then m.kind.opcode else WS_CONTINUATION := by
    simp only [hfirst]
  have hheader' : m.ack + m.toSend c + (if m.toSend c < 126 then 2 else 4) =
      m.ack + headLen (m.toSend c) + m.toSend c := by
    rw [hheader]
    omega
  unfold send
  rw [if_neg (by rw [hstatus]; decide), if_neg (by omega), if_neg (by omega), if_neg (by omega)]
  unfold frame advanced missed
  unfold piece at hframe ⊢
  generalize hn : m.toSend c = n at *
  unfold toSend at hn
  simp only [hn, hopcode, hframe, hheader']
  cases link.malloc with
  | false => simp [hpos, hpos.symm, hstatus]
  | true =>
    cases link.writeHead with
    | false => simp [hpos, hpos.symm, hstatus]
    | true => simp [hpos, hstatus]

end AsyncWebSocketMessage

namespace AsyncWebSocketControl

/-- The frame. -/
def frame (link : Link) (control : AsyncWebSocketControl) : Bytes :=
  frameBytes link true control.opcode control.data

def sent (control : AsyncWebSocketControl) : AsyncWebSocketControl := { control with finished := true }

theorem send_eq {control : AsyncWebSocketControl} (huntorn : link.Untorn) (hshort : control.data.length ≤ 125)
    (hfits : control.len - 1 < webSocketSendFrameWindow c) :
    control.send link c =
      (control.sent,
        if !link.malloc then c.abort else if !link.writeHead then c else c.sent (control.frame link)) := by
  obtain ⟨hspace, hwindow⟩ := window_eq (Nat.ne_of_gt (Nat.lt_of_le_of_lt (Nat.zero_le _) hfits))
  have hroom : headLen control.data.length + control.data.length ≤ c.space := by
    have hhead := headLen_le control.data.length
    unfold len at hfits
    omega
  unfold send frame sent
  rw [webSocketSendFrame_eq huntorn hroom]
  split_ifs <;> rfl

end AsyncWebSocketControl

/-- What a call of `_runQueue` can do. -/
inductive Sends (link : Link) (s : AsyncWebSocketClient) : AsyncWebSocketClient → Prop
  | nothing : Sends link s s
  | control {control : AsyncWebSocketControl} {rest : List AsyncWebSocketControl} :
      s.controlQueue = control :: rest → s.betweenFrames = true →
      Sends link s { s with controlQueue := control.sent :: rest, tcp := s.tcp.sent (control.frame link) }
  | controlLost {control : AsyncWebSocketControl} {rest : List AsyncWebSocketControl} (tcp : AsyncClient) :
      s.controlQueue = control :: rest → ¬ link.Reliable → tcp.wire = s.tcp.wire →
      tcp.sndbuf = s.tcp.sndbuf →
      Sends link s { s with controlQueue := control.sent :: rest, tcp := tcp }
  | message {m : AsyncWebSocketMessage} {rest : List AsyncWebSocketMessage} :
      s.messageQueue = m :: rest → m.acked = m.ack → m.sent < m.buffer.length →
      webSocketSendFrameWindow s.tcp ≠ 0 →
      Sends link s { s with
        messageQueue := m.advanced (m.toSend s.tcp) :: rest
        tcp := s.tcp.sent (m.frame link (m.toSend s.tcp)) }
  | messageLost {m : AsyncWebSocketMessage} {rest : List AsyncWebSocketMessage} (n : Nat) (tcp : AsyncClient) :
      s.messageQueue = m :: rest → m.sent < m.buffer.length → ¬ link.Reliable →
      tcp.wire = s.tcp.wire → tcp.sndbuf = s.tcp.sndbuf →
      Sends link s { s with messageQueue := m.missed n :: rest, tcp := tcp }

/-- What is known of the queues before a call: control frames are short, no message is
sent beyond its end, and a message that waits for nothing is not complete. -/
structure Sendable (s : AsyncWebSocketClient) : Prop where
  controls : ∀ c ∈ s.controlQueue, c.data.length ≤ 125
  messages : ∀ m ∈ s.messageQueue, m.status = .sending ∧ (m.acked = m.ack → m.sent < m.buffer.length)

namespace AsyncWebSocketClient

variable {s : AsyncWebSocketClient}

theorem sendControl_sends (huntorn : link.Untorn) (hs : Sendable s) (hbetween : s.betweenFrames = true)
    (hfits : s.controlFits = true) : Sends link s (s.sendControl link) := by
  unfold controlFits at hfits
  cases hqueue : s.controlQueue with
  | nil =>
    rw [hqueue] at hfits
    cases hfits
  | cons control rest =>
    rw [hqueue] at hfits
    have hshort := hs.controls control (by rw [hqueue]; exact List.mem_cons_self)
    have hsend := AsyncWebSocketControl.send_eq huntorn hshort (of_decide_eq_true hfits)
    unfold sendControl
    rw [hqueue]
    dsimp only
    rw [hsend]
    split_ifs with hmalloc hwrite
    · refine .controlLost _ hqueue (fun h => ?_) rfl rfl
      rw [h.malloc] at hmalloc
      cases hmalloc
    · refine .controlLost _ hqueue (fun h => ?_) rfl rfl
      rw [h.writeHead] at hwrite
      cases hwrite
    · exact .control hqueue hbetween

theorem sendMessage_sends (huntorn : link.Untorn) (hs : Sendable s) (hbetween : s.betweenFrames = true)
    (hwindow : webSocketSendFrameWindow s.tcp ≠ 0) : Sends link s (s.sendMessage link) := by
  unfold sendMessage
  unfold betweenFrames at hbetween
  cases hqueue : s.messageQueue with
  | nil => exact .nothing
  | cons m rest =>
    rw [hqueue] at hbetween
    have hacked : m.acked = m.ack := of_decide_eq_true hbetween
    obtain ⟨hstatus, hsent⟩ := hs.messages m (by rw [hqueue]; exact List.mem_cons_self)
    dsimp only
    rw [AsyncWebSocketMessage.send_eq huntorn hstatus hacked (hsent hacked) hwindow]
    split_ifs with hmalloc hwrite
    · refine .messageLost _ _ hqueue (hsent hacked) (fun h => ?_) rfl rfl
      rw [h.malloc] at hmalloc
      cases hmalloc
    · refine .messageLost _ _ hqueue (hsent hacked) (fun h => ?_) rfl rfl
      rw [h.writeHead] at hwrite
      cases hwrite
    · exact .message hqueue hacked (hsent hacked) hwindow

theorem runQueue_sends (huntorn : link.Untorn) (hs : Sendable s.clearQueue) (hclient : s.client = true) :
    Sends link s.clearQueue (s.runQueue link) := by
  unfold runQueue
  rw [hclient, if_neg (by decide)]
  dsimp only
  split_ifs with hcontrol hmessage
  · exact sendControl_sends huntorn hs hcontrol.1 hcontrol.2
  · exact sendMessage_sends huntorn hs hmessage.2.1 hmessage.2.2
  · exact .nothing

end AsyncWebSocketClient

end call

end WebSocket

end Handheld
