import Handheld.ResponseHead
import Handheld.TcpClient

/-!
# Sending a response (`WebResponses.cpp`)

A response is given to the connection when it is made and then, as there is room,
each time the peer acknowledges bytes and each time the connection is polled. A text
is sent by an `AsyncBasicResponse`; what is read from somewhere, by an
`AsyncAbstractResponse`, which holds back while much is in flight. A `size_t` has 32
bits. Template processing is not modelled: no callback is given.

Result: `step_keeps`. What each call keeps holds in every run.
-/

namespace Handheld

open ByteString

/-! ## Definitions -/

def sizeAdd (a b : Nat) : Nat := (a + b) % 2 ^ 32
def sizeSub (a b : Nat) : Nat := (a + (2 ^ 32 - b)) % 2 ^ 32

/-- What a call finds of the connection: the room in the send buffer, and whether
memory is allocated, `_tcp_write` takes the bytes, and `_tcp_output` succeeds. -/
structure Turn where
  sndbuf : Nat
  sndbuf_lt : sndbuf < 2 ^ 16
  malloc : Bool
  write : Bool
  output : Bool

def AsyncClient.at (turn : Turn) (c : AsyncClient) : AsyncClient := { c with sndbuf := turn.sndbuf }

/-- The members that each class of responses has in its own way. -/
class ServerResponse (ρ : Type) where
  finished : ρ → Bool
  respond : Nat → Turn → ρ → AsyncClient → ρ × AsyncClient
  ack : Nat → Turn → ρ → AsyncClient → ρ × AsyncClient

/-- A response with a text as its body. -/
structure AsyncBasicResponse extends AsyncWebServerResponse where
  content : Bytes

namespace AsyncBasicResponse

/-- The constructor. The arguments are C strings. -/
def new (defaults : List AsyncWebHeader) (code : Nat) (contentType content : Bytes) : AsyncBasicResponse :=
  let content := cstr content
  let contentType := cstr contentType
  let r : AsyncWebServerResponse :=
    { AsyncWebServerResponse.new defaults with
      code := code
      contentType := if content ≠ [] ∧ contentType = [] then ascii "text/plain" else contentType
      contentLength := content.length }
  ⟨r.addHeader (ascii "connection") (ascii "close") false, content⟩

/-- The bytes are written. -/
def written (turn : Turn) (out : Bytes) (r : AsyncBasicResponse) (c : AsyncClient) :
    AsyncBasicResponse × AsyncClient :=
  let written := c.write turn.write turn.output out
  ({ r with writtenLength := sizeAdd r.writtenLength written.1 }, written.2)

/-- `_respond`. -/
def respond (version : Nat) (turn : Turn) (r : AsyncBasicResponse) (c : AsyncClient) :
    AsyncBasicResponse × AsyncClient :=
  let assembled := r.assembleHead version
  let out := assembled.1
  let r : AsyncBasicResponse := { r with toAsyncWebServerResponse := assembled.2 }
  let space := c.space
  if r.contentLength = 0 ∧ out.length ≤ space then
    { r with state := .waitAck }.written turn out c
  else if r.contentLength ≠ 0 ∧ out.length + r.contentLength ≤ space then
    { r with state := .waitAck }.written turn (out ++ r.content) c
  else if space ≠ 0 ∧ space < out.length then
    { r with
      content := out.drop space ++ r.content
      contentLength := sizeAdd r.contentLength (out.length - space)
      state := .content }.written turn (out.take space) c
  else if out.length < space ∧ space < out.length + r.contentLength then
    let shift := space - out.length
    { r with
      sentLength := sizeAdd r.sentLength shift
      content := r.content.drop shift
      state := .content }.written turn (out ++ r.content.take shift) c
  else
    ({ r with
      content := out ++ r.content
      contentLength := sizeAdd r.contentLength out.length
      state := .content }, c)

/-- `_ack`. -/
def ack (len : Nat) (turn : Turn) (r : AsyncBasicResponse) (c : AsyncClient) :
    AsyncBasicResponse × AsyncClient :=
  let r := { r with ackedLength := sizeAdd r.ackedLength len }
  match r.state with
  | .content =>
    let available := sizeSub r.contentLength r.sentLength
    let space := c.space
    if space > available then
      { r with content := [], state := .waitAck }.written turn (r.content.take available) c
    else
      { r with
        content := r.content.drop space
        sentLength := sizeAdd r.sentLength space }.written turn (r.content.take space) c
  | .waitAck => (if r.ackedLength ≥ r.writtenLength then { r with state := .end } else r, c)
  | _ => (r, c)

instance : ServerResponse AsyncBasicResponse := ⟨(·.finished), respond, ack⟩

end AsyncBasicResponse

/-- `AsyncWebServerRequest::abort`. It does nothing once `_sent` is set, and that is
done when `_respond` returns. -/
def abortRequest (sent : Bool) (c : AsyncClient) : AsyncClient := if sent then c else c.abort

/-- Where a body is read from: `_sourceValid`, and `_fillBuffer`, which gives at most
so many bytes, or `none` for `RESPONSE_TRY_AGAIN`. -/
class BodySource (σ : Type) where
  sourceValid : σ → Bool
  fillBuffer : Nat → σ → Option Bytes × σ

/-- A response with a body that is read. -/
structure AsyncAbstractResponse (σ : Type) extends AsyncWebServerResponse where
  inFlight : Nat
  inFlightCredit : Nat
  headLeft : Bytes
  source : σ

namespace AsyncAbstractResponse

variable {σ : Type} [BodySource σ]

/-- A call of `write` that takes a credit. -/
def flown (turn : Turn) (out : Bytes) (r : AsyncAbstractResponse σ) (c : AsyncClient) :
    AsyncAbstractResponse σ × AsyncClient :=
  let written := c.write turn.write turn.output out
  ({ r with
    writtenLength := sizeAdd r.writtenLength written.1
    inFlight := sizeAdd r.inFlight out.length
    inFlightCredit := sizeSub r.inFlightCredit 1 }, written.2)

/-- The data and its frame. -/
def framed (r : AsyncAbstractResponse σ) (data : Bytes) : Bytes :=
  if r.chunked then
    Numeral.print 16 4 data.length ++ ascii "\r\n" ++ data ++ ascii "\r\n"
  else data

/-- The bytes are written, the head is gone, and the data is counted. -/
def advanced (turn : Turn) (data out : Bytes) (r : AsyncAbstractResponse σ) (c : AsyncClient) :
    AsyncAbstractResponse σ × AsyncClient :=
  let r : AsyncAbstractResponse σ := { r with headLeft := [] }
  let sent := if out ≠ [] then r.flown turn out c else (r, c)
  ({ sent.1 with sentLength := sizeAdd sent.1.sentLength data.length }, sent.2)

/-- The end of `_ack`, with what was read and what is written of it. -/
def sendData (turn : Turn) (data out : Bytes) (r : AsyncAbstractResponse σ) (c : AsyncClient) :
    AsyncAbstractResponse σ × AsyncClient :=
  let sent := r.advanced turn data out c
  if (sent.1.chunked = true ∧ data.length = 0) ∨ (sent.1.sendContentLength = false ∧ out.length = 0) ∨
      (sent.1.chunked = false ∧ sent.1.sentLength = sent.1.contentLength) then
    ({ sent.1 with state := .waitAck }, sent.2)
  else sent

/-- `outLen`, before the source is read. -/
def outLen (space : Nat) (r : AsyncAbstractResponse σ) : Nat :=
  if r.chunked then space
  else if !r.sendContentLength then space
  else if sizeSub r.contentLength r.sentLength > space then space
  else sizeSub r.contentLength r.sentLength

/-- `_ack` in the state `RESPONSE_CONTENT`, with the room that is left. -/
def sendContent (sent : Bool) (len : Nat) (turn : Turn) (space : Nat) (r : AsyncAbstractResponse σ) (c : AsyncClient) :
    AsyncAbstractResponse σ × AsyncClient :=
  if r.inFlight > space then
    (if len ≠ 0 then { r with inFlightCredit := sizeSub r.inFlightCredit 1 } else r, c)
  else if r.chunked = true ∧ space ≤ 8 then (r, c)
  else
    if !turn.malloc then (r, abortRequest sent c)
    else
      let filled := BodySource.fillBuffer (if r.chunked then r.outLen space - 8 else r.outLen space) r.source
      let r := { r with source := filled.2 }
      match filled.1 with
      | none => (r, c)
      | some data => r.sendData turn data (r.headLeft ++ r.framed data) c

/-- What is acknowledged is counted. -/
def counted (len : Nat) (r : AsyncAbstractResponse σ) : AsyncAbstractResponse σ :=
  { r with
    inFlight := r.inFlight - (if r.inFlight > len then len else r.inFlight)
    ackedLength := sizeAdd r.ackedLength len }

/-- `_ack` after the counting. -/
def proceed (sent : Bool) (len : Nat) (turn : Turn) (r : AsyncAbstractResponse σ) (c : AsyncClient) :
    AsyncAbstractResponse σ × AsyncClient :=
  match r.state with
  | .headers =>
    if r.headLeft.length ≤ c.space then
      { r with state := .content }.sendContent sent len turn (c.space - r.headLeft.length) c
    else
      { r with headLeft := r.headLeft.drop c.space }.flown turn (r.headLeft.take c.space) c
  | .content => r.sendContent sent len turn c.space c
  | .waitAck =>
    if r.sendContentLength = false ∨ r.ackedLength ≥ r.writtenLength then
      ({ r with state := .end }, if !r.chunked && !r.sendContentLength then c.close else c)
    else (r, c)
  | _ => (r, c)

/-- `_ack`, in a request whose `_sent` is set or not. -/
def ack (sent : Bool) (len : Nat) (turn : Turn) (r : AsyncAbstractResponse σ) (c : AsyncClient) :
    AsyncAbstractResponse σ × AsyncClient :=
  if !BodySource.sourceValid r.source then ({ r with state := .failed }, c.close)
  else
    let r := if len ≠ 0 then { r with inFlightCredit := sizeAdd r.inFlightCredit 1 } else r
    if r.chunked = true ∧ r.inFlightCredit = 0 then (r, c)
    else (r.counted len).proceed sent len turn c

/-- With its head. -/
def assembled (version : Nat) (r : AsyncAbstractResponse σ) : AsyncAbstractResponse σ :=
  let assembled := (r.addHeader (ascii "connection") (ascii "close") false).assembleHead version
  { r with
    toAsyncWebServerResponse := { assembled.2 with state := .headers }
    headLeft := r.headLeft ++ assembled.1 }

/-- `_respond`. -/
def respond (version : Nat) (turn : Turn) (r : AsyncAbstractResponse σ) (c : AsyncClient) :
    AsyncAbstractResponse σ × AsyncClient :=
  (r.assembled version).ack false 0 turn c

instance : ServerResponse (AsyncAbstractResponse σ) := ⟨(·.finished), respond, ack true⟩

end AsyncAbstractResponse

/-! ### Sources -/

/-- Of `AsyncProgmemResponse`. -/
structure ProgmemSource where
  content : Bytes
  readLength : Nat

def ProgmemSource.fillBuffer (len : Nat) (s : ProgmemSource) : Option Bytes × ProgmemSource :=
  let left := s.content.length - s.readLength
  if left > len then
    (some ((s.content.drop s.readLength).take len), { s with readLength := s.readLength + len })
  else (some ((s.content.drop s.readLength).take left), { s with readLength := s.readLength + left })

instance : BodySource ProgmemSource := ⟨fun _ => true, ProgmemSource.fillBuffer⟩

/-- Of `AsyncFileResponse`: the bytes of an open file behind the place that was read. -/
structure FileSource where
  unread : Bytes

def FileSource.fillBuffer (len : Nat) (s : FileSource) : Option Bytes × FileSource :=
  (some (s.unread.take len), ⟨s.unread.drop len⟩)

instance : BodySource FileSource := ⟨fun _ => true, FileSource.fillBuffer⟩

/-- Of `AsyncCallbackResponse` and `AsyncChunkedResponse`. -/
structure CallbackSource (content : Nat → Nat → Option Bytes) where
  filledLength : Nat

def CallbackSource.fillBuffer {content : Nat → Nat → Option Bytes} (len : Nat) (s : CallbackSource content) :
    Option Bytes × CallbackSource content :=
  match content len s.filledLength with
  | none => (none, s)
  | some data => (some data, ⟨s.filledLength + data.length⟩)

instance (content : Nat → Nat → Option Bytes) : BodySource (CallbackSource content) :=
  ⟨fun _ => true, CallbackSource.fillBuffer⟩

namespace AsyncAbstractResponse

/-- Before `_respond`. -/
def unsent {σ : Type} (r : AsyncWebServerResponse) (source : σ) : AsyncAbstractResponse σ := ⟨r, 0, 2, [], source⟩

end AsyncAbstractResponse

/-- The constructors. -/
def AsyncProgmemResponse.new (defaults : List AsyncWebHeader) (code : Nat) (contentType content : Bytes) :
    AsyncAbstractResponse ProgmemSource :=
  let r := AsyncWebServerResponse.new defaults
  .unsent { r with code := code, contentType := cstr contentType, contentLength := content.length } ⟨content, 0⟩

def AsyncCallbackResponse.new (defaults : List AsyncWebHeader) (contentType : Bytes) (len : Nat)
    (content : Nat → Nat → Option Bytes) : AsyncAbstractResponse (CallbackSource content) :=
  let r := AsyncWebServerResponse.new defaults
  .unsent
    { r with
      code := 200
      contentLength := len
      sendContentLength := if len = 0 then false else r.sendContentLength
      contentType := cstr contentType } ⟨0⟩

def AsyncChunkedResponse.new (defaults : List AsyncWebHeader) (contentType : Bytes)
    (content : Nat → Nat → Option Bytes) : AsyncAbstractResponse (CallbackSource content) :=
  let r := AsyncWebServerResponse.new defaults
  .unsent
    { r with
      code := 200
      contentLength := 0
      contentType := cstr contentType
      sendContentLength := false
      chunked := true } ⟨0⟩

/-! ### The exchange -/

/-- The part of an `AsyncWebServerRequest` that sends its response. -/
structure Exchange (ρ : Type) where
  response : Option ρ
  client : AsyncClient

/-- What the connection tells. -/
inductive TcpEvent
  | ack (len : Nat) (turn : Turn)
  | poll (turn : Turn)

namespace Exchange

variable {ρ : Type} [ServerResponse ρ]

/-- `_onAck`. -/
def onAck (len : Nat) (turn : Turn) (x : Exchange ρ) : Exchange ρ :=
  match x.response with
  | none => x
  | some r =>
    if !ServerResponse.finished r then
      let acked := ServerResponse.ack len turn r x.client
      ⟨some acked.1, acked.2⟩
    else ⟨none, x.client.close⟩

/-- `_onPoll`. -/
def onPoll (turn : Turn) (x : Exchange ρ) : Exchange ρ := if x.client.canSend then x.onAck 0 turn else x

/-- A connection that is closed tells nothing more. -/
def step (x : Exchange ρ) (e : TcpEvent) : Exchange ρ :=
  if !x.client.established then x
  else
    match e with
    | .ack len turn => { x with client := x.client.at turn }.onAck len turn
    | .poll turn => { x with client := x.client.at turn }.onPoll turn

/-- `_send`. -/
def start (version : Nat) (turn : Turn) (r : ρ) (c : AsyncClient) : Exchange ρ :=
  let responded := ServerResponse.respond version turn r (c.at turn)
  ⟨some responded.1, responded.2⟩

end Exchange

/-! ## What each call keeps -/

theorem space_at {c : AsyncClient} (hestablished : c.established = true) (turn : Turn) :
    (c.at turn).space = turn.sndbuf := by
  unfold AsyncClient.space AsyncClient.at
  rw [if_pos hestablished]

/-- The response was sent. -/
def Exchange.Over {ρ : Type} [ServerResponse ρ] (x : Exchange ρ) : Prop :=
  ∀ r, x.response = some r → ServerResponse.finished r = true

/-- `I` holds of the response and the wire while the connection is established; the
wire is always as `Good` says, and as `Complete` says when the response was sent. -/
structure Exchange.Keeps {ρ : Type} [ServerResponse ρ] (I : ρ → Bytes → Prop) (Good Complete : Bytes → Prop)
    (x : Exchange ρ) : Prop where
  good : Good x.client.wire
  kept : ∀ r, x.response = some r → x.client.established = true → I r x.client.wire
  complete : x.Over → Complete x.client.wire

/-- A call of `_ack` that keeps them. -/
structure KeepsAck {ρ : Type} (finished : ρ → Bool) (I : ρ → Bytes → Prop) (Good Complete : Bytes → Prop)
    (acked : ρ × AsyncClient) : Prop where
  good : Good acked.2.wire
  kept : acked.2.established = true → I acked.1 acked.2.wire
  complete : finished acked.1 = true → Complete acked.2.wire

section keeps

variable {ρ : Type} [ServerResponse ρ] {I : ρ → Bytes → Prop} {Good Complete : Bytes → Prop} {x : Exchange ρ}

theorem onAck_keeps {len : Nat} {turn : Turn} (h : x.Keeps I Good Complete)
    (hack : ∀ r, x.response = some r → ServerResponse.finished r = false →
      KeepsAck ServerResponse.finished I Good Complete (ServerResponse.ack len turn r x.client)) :
    (x.onAck len turn).Keeps I Good Complete := by
  obtain ⟨response, client⟩ := x
  cases response with
  | none => exact h
  | some r =>
    unfold Exchange.onAck
    dsimp only
    cases hfinished : ServerResponse.finished r with
    | true =>
      rw [if_neg (by decide)]
      exact ⟨h.good, nofun, fun _ => h.complete fun r' hr' => Option.some.inj hr' ▸ hfinished⟩
    | false =>
      rw [if_pos (by decide)]
      obtain ⟨hgood, hkept, hcomplete⟩ := hack r rfl hfinished
      refine ⟨hgood, fun r' hr' hestablished => ?_, fun hover => hcomplete (hover _ rfl)⟩
      rw [← Option.some.inj hr']
      exact hkept hestablished

/-- The number that is acknowledged, and what the call finds. -/
def TcpEvent.call : TcpEvent → Nat × Turn
  | .ack len turn => (len, turn)
  | .poll turn => (0, turn)

theorem step_keeps {e : TcpEvent} (h : x.Keeps I Good Complete)
    (hack : ∀ r, x.response = some r → ServerResponse.finished r = false → x.client.established = true →
      KeepsAck ServerResponse.finished I Good Complete
        (ServerResponse.ack e.call.1 e.call.2 r (x.client.at e.call.2))) :
    (x.step e).Keeps I Good Complete := by
  unfold Exchange.step
  cases hestablished : x.client.established with
  | false => exact h
  | true =>
    have hat : ∀ turn, Exchange.Keeps I Good Complete { x with client := x.client.at turn } := fun turn =>
      ⟨h.good, h.kept, h.complete⟩
    rw [if_neg (by decide)]
    cases e with
    | ack len turn => exact onAck_keeps (hat turn) fun r hr hfinished => hack r hr hfinished hestablished
    | poll turn =>
      unfold Exchange.onPoll
      dsimp only
      split_ifs
      · exact onAck_keeps (hat turn) fun r hr hfinished => hack r hr hfinished hestablished
      · exact hat turn

end keeps

end Handheld
