import Handheld.BodyDelivery

/-!
# What a client reads of a response

Results: `text_received`, `body_received`. When a response was sent, a client reads its
status, its headers and its body off the connection, and nothing is behind it.
-/

namespace Handheld

open ByteString HttpMessage

variable {version : Nat} {turn : Turn} {c : AsyncClient} {events : List TcpEvent}

/-! ## Texts -/

section text

variable {r : AsyncBasicResponse}

theorem AsyncBasicResponse.new_fresh (defaults : List AsyncWebHeader) (code : Nat) (contentType content : Bytes) :
    (AsyncBasicResponse.new defaults code contentType content).Fresh := ⟨rfl, rfl, rfl, rfl, rfl, rfl⟩

theorem read_text (hfresh : r.Fresh) (hframed : Framed r.toAsyncWebServerResponse [] []) (version : Nat) :
    readMessage (r.message version) = some (⟨(r.completed version).head version, r.content⟩, []) := by
  have hcompleted := hframed.completed version
  rw [hfresh.kind, hfresh.sized, hfresh.contentLength, if_pos rfl, if_neg fun h => Bool.false_ne_true h.2] at hcompleted
  have hread := readMessage_sized (hcompleted.wellFormed version)
    ((values_head version _ _).trans hcompleted.encoding) ((values_head version _ _).trans hcompleted.length) []
  rw [List.append_nil] at hread
  unfold AsyncBasicResponse.message
  rw [assembleHead_text]
  exact hread

/-- Whatever the connection has room for and whatever the peer acknowledges. -/
theorem text_received (version : Nat) (hfresh : r.Fresh) (hframed : Framed r.toAsyncWebServerResponse [] [])
    (hlt : (r.message version).length < 2 ^ 32) (hwrite : turn.write = true) (c : AsyncClient)
    (hok : Machine.StepsOk Exchange.step (fun x e => e.Taken x) (Exchange.start version turn r c) events)
    {x : Exchange AsyncBasicResponse} (hx : Machine.run Exchange.step (Exchange.start version turn r c) events = x) :
    x.client.wire <+: c.wire ++ r.message version ∧
      (x.Over → readMessage (x.client.wire.drop c.wire.length) =
        some (⟨(r.completed version).head version, r.content⟩, [])) := by
  obtain ⟨hbegins, hcomplete⟩ := basic_delivered version hfresh hlt hwrite c hok hx
  refine ⟨hbegins, fun hover => ?_⟩
  rw [hcomplete hover, List.drop_left]
  exact read_text hfresh hframed version

/-- Nothing fails, and there is so much room. -/
def room (sndbuf : Nat) (h : sndbuf < 2 ^ 16) : Turn := ⟨sndbuf, h, true, true, true⟩

def open_ : AsyncClient := ⟨true, [], 0⟩

def hello : AsyncBasicResponse := .new [] 200 (ascii "text/plain") (ascii "Hello")

/-- The text goes out in three parts, which are acknowledged. -/
def helloEvents : List TcpEvent := [.ack 50 (room 50 (by decide)), .poll (room 50 (by decide)), .ack 59 (room 50 (by decide))]

theorem text_received_hello :
    HttpMessage.readMessage ((Machine.run Exchange.step
      (Exchange.start 1 (room 50 (by decide)) hello open_) helloEvents).client.wire.drop 0) =
        some (⟨(hello.completed 1).head 1, ascii "Hello"⟩, []) := by
  have hframed : Framed hello.toAsyncWebServerResponse [] [] := ⟨by decide, by decide, by decide, by decide⟩
  have hsent : ∀ r, (Machine.run Exchange.step (Exchange.start 1 (room 50 (by decide)) hello open_)
      helloEvents).response = some r → r.finished = true := by
    intro r hr
    have hall : (Machine.run Exchange.step (Exchange.start 1 (room 50 (by decide)) hello open_)
      helloEvents).response.all (·.finished) = true := by decide +kernel
    rw [hr] at hall
    exact hall
  have hfresh : hello.Fresh := AsyncBasicResponse.new_fresh _ _ _ _
  have hok : Machine.StepsOk Exchange.step (fun x e => e.Taken x)
      (Exchange.start 1 (room 50 (by decide)) hello open_) helloEvents := ⟨rfl, rfl, rfl, trivial⟩
  have hreceived := text_received 1 hfresh hframed (by decide +kernel) rfl open_ hok rfl
  exact hreceived.2 hsent

end text

/-! ## Bodies that are read -/

section body

open AsyncAbstractResponse

variable {σ : Type} {rest : σ → Bytes} {r : AsyncAbstractResponse σ} {chunked : Bool} {content : Bytes}

theorem read_body (hframing : r.Framing content chunked) (hversion : chunked = true → version ≠ 0)
    (hframed : Framed r.closing [] []) {wire : Bytes}
    (h : AsyncAbstractResponse.Complete (c.wire ++ r.headText version) content chunked wire) :
    readMessage (wire.drop c.wire.length) = some (⟨(r.closing.completed version).head version, content⟩, []) := by
  have hcompleted := hframed.completed version
  have hkind : r.closing.chunked = chunked := hframing.kind
  have hsized : r.closing.sendContentLength = !chunked := hframing.sized
  obtain ⟨coded, hcoded, rfl⟩ := h
  rw [List.append_assoc, List.append_assoc, List.drop_left]
  unfold AsyncAbstractResponse.headText
  rw [assembleHead_text]
  cases chunked with
  | true =>
    rw [if_pos ⟨hversion rfl, hkind⟩] at hcompleted
    have hread := readMessage_chunked (hcompleted.wellFormed version)
      ((values_head version _ _).trans hcompleted.encoding) hcoded []
    rw [List.append_nil] at hread
    exact hread
  | false =>
    have hlength : r.closing.contentLength = content.length := (hframing.length rfl).1
    rw [hkind, hsized, hlength, if_neg fun h => Bool.false_ne_true h.2] at hcompleted
    have hread := readMessage_sized (hcompleted.wellFormed version)
      ((values_head version _ _).trans hcompleted.encoding) ((values_head version _ _).trans hcompleted.length) []
    have hplain : coded = content := hcoded
    rw [hplain]
    exact hread

/-- Whatever the connection has room for, whatever the peer acknowledges and whenever
the connection is polled, as long as no call leaves the head behind. -/
theorem body_received [BodySource σ] (hhonest : Honest σ rest) (version : Nat) (hfresh : r.Fresh)
    (hframing : r.Framing (rest r.source) chunked) (hversion : chunked = true → version ≠ 0)
    (hframed : Framed r.closing [] []) (hwrite : turn.write = true)
    (hpasses : (r.assembled version).Passes false 0 turn) (hestablished : c.established = true)
    (hok : Machine.StepsOk Exchange.step Served (Exchange.start version turn r c) events)
    {x : Exchange (AsyncAbstractResponse σ)}
    (hx : Machine.run Exchange.step (Exchange.start version turn r c) events = x) :
    Good (c.wire ++ r.headText version) (rest r.source) chunked x.client.wire ∧
      (x.Over → readMessage (x.client.wire.drop c.wire.length) =
        some (⟨(r.closing.completed version).head version, rest r.source⟩, [])) := by
  obtain ⟨hgood, hcomplete⟩ :=
    body_delivered hhonest version hfresh hframing hwrite hpasses hestablished hok hx
  exact ⟨hgood, fun hover => read_body hframing hversion hframed (hcomplete hover)⟩

/-- Behind the head nothing is asked of a call but that the bytes are taken. -/
theorem served_behind [BodySource σ] {x : Exchange (AsyncAbstractResponse σ)} {e : TcpEvent}
    (hwrite : e.call.2.write = true) (h : (x.response.all fun r => decide (r.state ≠ .headers)) = true) :
    Served x e := by
  refine ⟨hwrite, fun r hr hhead => ?_⟩
  rw [hr] at h
  exact absurd hhead (of_decide_eq_true h)

/-- A callback that gives "Hello", at most three bytes in one call. -/
def helloFrom (n i : Nat) : Option Bytes := some (((ascii "Hello").drop i).take (min n 3))

def helloChunks : AsyncAbstractResponse (CallbackSource helloFrom) := AsyncChunkedResponse.new [] (ascii "text/plain") helloFrom

def helloPolls : List TcpEvent :=
  [.ack 200 (room 200 (by decide)), .ack 200 (room 200 (by decide)), .ack 200 (room 200 (by decide))]

theorem honest_hello : Honest (CallbackSource helloFrom) fun s => (ascii "Hello").drop s.filledLength := by
  refine honest_callback fun n i data h => ?_
  obtain rfl := Option.some.inj h
  refine ⟨List.take_prefix _ _, Nat.le_trans (List.length_take_le _ _) (Nat.min_le_left n 3), fun hnil => ?_⟩
  rcases List.take_eq_nil_iff.mp hnil with hzero | hdone
  · exact .inl (by omega)
  · exact .inr hdone

theorem body_received_hello :
    HttpMessage.readMessage ((Machine.run Exchange.step
      (Exchange.start 1 (room 200 (by decide)) helloChunks open_) helloPolls).client.wire.drop 0) =
        some (⟨(helloChunks.closing.completed 1).head 1, ascii "Hello"⟩, []) := by
  have hframed : Framed helloChunks.closing [] [] := ⟨by decide, by decide, by decide, by decide⟩
  have hpasses : (helloChunks.assembled 1).Passes false 0 (room 200 (by decide)) := fun _ _ =>
    ⟨nofun, Nat.zero_le _, fun _ => by decide +kernel, fun _ => Option.some_ne_none _⟩
  have hok : Machine.StepsOk Exchange.step Served (Exchange.start 1 (room 200 (by decide)) helloChunks open_)
      helloPolls :=
    ⟨served_behind rfl (by decide +kernel), served_behind rfl (by decide +kernel),
      served_behind rfl (by decide +kernel), trivial⟩
  have hsent : ∀ r, (Machine.run Exchange.step (Exchange.start 1 (room 200 (by decide)) helloChunks open_)
      helloPolls).response = some r → r.finished = true := by
    intro r hr
    have hall : (Machine.run Exchange.step (Exchange.start 1 (room 200 (by decide)) helloChunks open_)
      helloPolls).response.all (·.finished) = true := by decide +kernel
    rw [hr] at hall
    exact hall
  obtain ⟨hfresh, hframing⟩ : helloChunks.Fresh ∧ helloChunks.Framing (ascii "Hello") true := chunked_new _ _ _ _
  have hreceived := body_received honest_hello 1 hfresh hframing (by decide) hframed rfl hpasses rfl hok rfl
  exact hreceived.2 hsent

end body

end Handheld
