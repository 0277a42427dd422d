import Handheld.Machine
import Handheld.ResponseSending

/-!
# What arrives of a text

Whatever room there is and whatever the peer acknowledges, the connection is given
the head and the text, byte by byte; it is closed when all was given.

Result: `basic_delivered`.
-/

namespace Handheld

open ByteString

variable {total : Bytes} {len : Nat} {turn : Turn} {c : AsyncClient}

/-! ## Counters -/

theorem sizeSub_of_le {a b : Nat} (ha : a < 2 ^ 32) (h : b ≤ a) : sizeSub a b = a - b := by
  unfold sizeSub
  omega

theorem sizeAdd_of_lt {a b : Nat} (h : a + b < 2 ^ 32) : sizeAdd a b = a + b := Nat.mod_eq_of_lt h

/-! ## A text -/

namespace AsyncBasicResponse

variable {r : AsyncBasicResponse}

/-- What is left of all bytes is the content, and the counters know its length. -/
inductive Sending (total : Bytes) (r : AsyncBasicResponse) (wire : Bytes) : Prop
  | content : r.state = .content → wire ++ r.content = total → r.contentLength < 2 ^ 32 →
      r.sentLength ≤ r.contentLength → r.content.length = r.contentLength - r.sentLength → Sending total r wire
  | whole : r.state = .waitAck ∨ r.state = .end → wire = total → Sending total r wire

theorem Sending.wire_le {wire : Bytes} (h : Sending total r wire) : wire <+: total := by
  cases h with
  | content _ htotal => exact ⟨_, htotal⟩
  | whole _ htotal => exact htotal ▸ List.prefix_rfl

theorem Sending.complete {wire : Bytes} (h : Sending total r wire) (hfinished : r.finished = true) :
    wire = total := by
  cases h with
  | content hstate => simp [AsyncWebServerResponse.finished, hstate] at hfinished
  | whole _ htotal => exact htotal

theorem written_snd (hwrite : turn.write = true) (out : Bytes) (r : AsyncBasicResponse) (c : AsyncClient) :
    (r.written turn out c).2.wire = c.wire ++ out.take c.space := by
  unfold written
  dsimp only
  rw [hwrite, AsyncClient.write_snd]
  rfl

theorem Sending.ack (h : Sending total r c.wire) (hwrite : turn.write = true) (len : Nat) :
    Sending total (r.ack len turn c).1 (r.ack len turn c).2.wire := by
  cases h with
  | content hstate htotal hlt hle hlength =>
    have havailable : sizeSub r.contentLength r.sentLength = r.content.length := by
      rw [sizeSub_of_le hlt hle, hlength]
    unfold AsyncBasicResponse.ack
    dsimp only
    rw [hstate, havailable]
    dsimp only
    split_ifs with hspace
    · refine .whole (.inl rfl) ?_
      rw [written_snd hwrite, List.take_length, List.take_of_length_le (Nat.le_of_lt hspace), htotal]
    · have hroom : c.space ≤ r.content.length := Nat.not_lt.mp hspace
      have hsent : sizeAdd r.sentLength c.space = r.sentLength + c.space := sizeAdd_of_lt (by omega)
      refine .content rfl ?_ hlt ?_ ?_
      · rw [written_snd hwrite, List.take_take, min_self, List.append_assoc]
        exact (congrArg (c.wire ++ ·) (List.take_append_drop c.space r.content)).trans htotal
      · show sizeAdd r.sentLength c.space ≤ r.contentLength
        rw [hsent]
        omega
      · show (r.content.drop c.space).length = r.contentLength - sizeAdd r.sentLength c.space
        rw [hsent, List.length_drop, hlength, Nat.sub_sub]
  | whole hstate htotal =>
    unfold AsyncBasicResponse.ack
    rcases hstate with hwait | hend
    · dsimp only
      rw [hwait]
      dsimp only
      split_ifs
      · exact .whole (.inr rfl) htotal
      · exact .whole (.inl rfl) htotal
    · dsimp only
      rw [hend]
      exact .whole (.inr rfl) htotal

/-- Nothing was sent of it, and its length is known. -/
structure Fresh (r : AsyncBasicResponse) : Prop where
  kind : r.chunked = false
  sized : r.sendContentLength = true
  contentLength : r.contentLength = r.content.length
  sentLength : r.sentLength = 0
  ackedLength : r.ackedLength = 0
  writtenLength : r.writtenLength = 0

/-- The head and the body. -/
def message (version : Nat) (r : AsyncBasicResponse) : Bytes := (r.assembleHead version).1 ++ r.content

theorem Fresh.respond (hfresh : r.Fresh) (hwrite : turn.write = true)
    (hlt : (r.message version).length < 2 ^ 32) :
    Sending (c.wire ++ r.message version) (r.respond version turn c).1 (r.respond version turn c).2.wire := by
  obtain ⟨-, -, hcontent, hsent, -, -⟩ := hfresh
  have hassembled : (r.assembleHead version).2 =
      { r.toAsyncWebServerResponse with headers := (r.completed version).headers } := completed_eq version _
  unfold message at hlt ⊢
  unfold AsyncBasicResponse.respond
  dsimp only
  rw [hassembled]
  dsimp only
  generalize (r.assembleHead version).1 = out at hlt ⊢
  rw [List.length_append, ← hcontent] at hlt
  split_ifs with hhead hall hpart hsome
  · have hnil : r.content = [] := List.eq_nil_of_length_eq_zero (hcontent.symm.trans hhead.1)
    refine .whole (.inl rfl) ?_
    rw [written_snd hwrite, List.take_of_length_le hhead.2, hnil, List.append_nil]
  · refine .whole (.inl rfl) ?_
    rw [written_snd hwrite, List.take_of_length_le]
    rw [List.length_append, ← hcontent]
    exact hall.2
  · have hgrown : sizeAdd r.contentLength (out.length - c.space) = r.contentLength + (out.length - c.space) :=
      sizeAdd_of_lt (by omega)
    refine .content rfl ?_ ?_ ?_ ?_
    · rw [written_snd hwrite, List.take_take, min_self, List.append_assoc]
      show c.wire ++ (out.take c.space ++ (out.drop c.space ++ r.content)) = _
      rw [← List.append_assoc (out.take c.space), List.take_append_drop]
    · show sizeAdd r.contentLength (out.length - c.space) < 2 ^ 32
      rw [hgrown]
      omega
    · show r.sentLength ≤ _
      rw [hsent]
      exact Nat.zero_le _
    · show (out.drop c.space ++ r.content).length = sizeAdd r.contentLength (out.length - c.space) - r.sentLength
      rw [hgrown, hsent, List.length_append, List.length_drop, ← hcontent, Nat.sub_zero, Nat.add_comm]
  · have hshift : sizeAdd r.sentLength (c.space - out.length) = c.space - out.length := by
      rw [hsent, sizeAdd_of_lt (by omega), Nat.zero_add]
    have hlong : out.length ≤ c.space := Nat.le_of_lt hsome.1
    have hfits : (out ++ r.content.take (c.space - out.length)).length ≤ c.space := by
      rw [List.length_append, List.length_take]
      omega
    refine .content rfl ?_ ?_ ?_ ?_
    · rw [written_snd hwrite, List.take_of_length_le hfits]
      show c.wire ++ (out ++ r.content.take (c.space - out.length)) ++ r.content.drop (c.space - out.length) = _
      rw [List.append_assoc, List.append_assoc, List.take_append_drop]
    · show r.contentLength < 2 ^ 32
      omega
    · show sizeAdd r.sentLength (c.space - out.length) ≤ r.contentLength
      rw [hshift]
      omega
    · show (r.content.drop (c.space - out.length)).length =
        r.contentLength - sizeAdd r.sentLength (c.space - out.length)
      rw [hshift, List.length_drop, hcontent]
  · have hgrown : sizeAdd r.contentLength out.length = r.contentLength + out.length := sizeAdd_of_lt (by omega)
    refine .content rfl rfl ?_ ?_ ?_
    · show sizeAdd r.contentLength out.length < 2 ^ 32
      rw [hgrown]
      omega
    · show r.sentLength ≤ _
      rw [hsent]
      exact Nat.zero_le _
    · show (out ++ r.content).length = sizeAdd r.contentLength out.length - r.sentLength
      rw [hgrown, hsent, List.length_append, ← hcontent, Nat.sub_zero, Nat.add_comm]

end AsyncBasicResponse

/-- `_tcp_write` takes what there is room for. -/
def TcpEvent.Taken {ρ : Type} (_ : Exchange ρ) (e : TcpEvent) : Prop := e.call.2.write = true

theorem basic_step {x : Exchange AsyncBasicResponse} {e : TcpEvent}
    (h : x.Keeps (AsyncBasicResponse.Sending total) (· <+: total) (· = total)) (htaken : e.Taken x) :
    (x.step e).Keeps (AsyncBasicResponse.Sending total) (· <+: total) (· = total) := by
  refine step_keeps h fun r hr _ hestablished => ?_
  have hsending : AsyncBasicResponse.Sending total r (x.client.at e.call.2).wire := h.kept r hr hestablished
  have hacked := hsending.ack htaken e.call.1
  exact ⟨hacked.wire_le, fun _ => hacked, hacked.complete⟩

/-- A text response arrives whole, and nothing else. -/
theorem basic_delivered (version : Nat) {r : AsyncBasicResponse} (hfresh : r.Fresh)
    (hlt : (r.message version).length < 2 ^ 32) (hwrite : turn.write = true) (c : AsyncClient)
    {events : List TcpEvent} {x : Exchange AsyncBasicResponse}
    (hok : Machine.StepsOk Exchange.step (fun x e => e.Taken x) (Exchange.start version turn r c) events)
    (hx : Machine.run Exchange.step (Exchange.start version turn r c) events = x) :
    x.client.wire <+: c.wire ++ r.message version ∧ (x.Over → x.client.wire = c.wire ++ r.message version) := by
  have hstart : AsyncBasicResponse.Sending (c.wire ++ r.message version) _ _ :=
    hfresh.respond (c := c.at turn) hwrite hlt
  have hkeeps : (Exchange.start version turn r c).Keeps
      (AsyncBasicResponse.Sending (c.wire ++ r.message version)) (· <+: c.wire ++ r.message version)
      (· = c.wire ++ r.message version) := by
    refine ⟨hstart.wire_le, fun r' hr' _ => ?_, fun hover => hstart.complete (hover _ rfl)⟩
    rw [← Option.some.inj hr']
    exact hstart
  have hrun := Machine.throughout_of_step (fun x e hx he => basic_step hx he) hkeeps hok events List.prefix_rfl
  rw [hx] at hrun
  exact ⟨hrun.good, hrun.complete⟩

end Handheld
