import Handheld.WebSocketAcks

/-!
# Everything is delivered

The connection acknowledges what is in flight, again and again. Each time the client
sends the next frame, as long as a message waits.

Result: `all_delivered`.
-/

namespace Handheld

open ByteString FrameStream

namespace WebSocket

open AsyncWebSocketClient

/-! ## Definitions -/

namespace AsyncWebSocketClient

/-- The bytes and the control frames that are not sent. -/
def unsent (s : AsyncWebSocketClient) : Nat :=
  (s.messageQueue.map fun m => m.buffer.length - m.sent).sum + s.controlQueue.countP fun c => !c.finished

/-- What is left to do: to send, to wait for the acknowledgement of what is in flight. -/
def work (s : AsyncWebSocketClient) : Nat :=
  2 * s.unsent + if s.messageWaits + s.controlWaits = 0 then 0 else 1

end AsyncWebSocketClient

/-- All that is in flight is acknowledged, or the queue is looked at if nothing is. -/
def serve (s : Acked) (l : Link × Nat) : Acked :=
  ackedStep s (l.1, if s.1.tcp.wire.length = s.2 then .poll l.2 else .ack (s.1.tcp.wire.length - s.2) l.2)

/-! ## Rounds -/

section deliver

variable {link : Link} {s : AsyncWebSocketClient} {queued : List (Nat × Bytes)} {total : Nat}

theorem sendControl_eq (hreliable : link.Reliable) {control : AsyncWebSocketControl}
    {rest : List AsyncWebSocketControl} (hqueue : s.controlQueue = control :: rest)
    (hshort : control.data.length ≤ 125) (hfits : s.controlFits = true) :
    s.sendControl link =
      { s with controlQueue := control.sent :: rest, tcp := s.tcp.sent (control.frame link) } := by
  have huntorn : link.Untorn := fun _ => ⟨hreliable.writeData, hreliable.output⟩
  unfold controlFits at hfits
  rw [hqueue] at hfits
  have hsend := AsyncWebSocketControl.send_eq huntorn hshort (of_decide_eq_true hfits)
  rw [hreliable.malloc, hreliable.writeHead] at hsend
  unfold sendControl
  rw [hqueue]
  dsimp only
  rw [hsend]
  rfl

theorem sendControl_messageQueue (link : Link) (s : AsyncWebSocketClient) :
    (s.sendControl link).messageQueue = s.messageQueue := by
  unfold sendControl
  cases s.controlQueue <;> rfl

theorem sendMessage_eq (hreliable : link.Reliable) {m : AsyncWebSocketMessage}
    {rest : List AsyncWebSocketMessage} (hqueue : s.messageQueue = m :: rest) (hstatus : m.status = .sending)
    (hacked : m.acked = m.ack) (hsent : m.sent < m.buffer.length) (hwindow : webSocketSendFrameWindow s.tcp ≠ 0) :
    s.sendMessage link =
      { s with
        messageQueue := m.advanced (m.toSend s.tcp) :: rest
        tcp := s.tcp.sent (m.frame link (m.toSend s.tcp)) } := by
  have huntorn : link.Untorn := fun _ => ⟨hreliable.writeData, hreliable.output⟩
  have hsend := AsyncWebSocketMessage.send_eq huntorn hstatus hacked hsent hwindow
  rw [hreliable.malloc, hreliable.writeHead] at hsend
  unfold sendMessage
  rw [hqueue]
  dsimp only
  rw [hsend]
  rfl

theorem work_le (s : AsyncWebSocketClient) : s.work ≤ 2 * s.unsent + 1 := by
  unfold work
  split_ifs <;> omega

theorem le_work (s : AsyncWebSocketClient) : 2 * s.unsent ≤ s.work := Nat.le_add_right _ _

theorem work_of_calm (hcalm : s.Calm) (hwaits : s.messageWaits = 0) : s.work = 2 * s.unsent := by
  unfold work
  rw [hwaits, controlWaits_calm hcalm, if_pos rfl, Nat.add_zero]

/-- A control frame that is sent. -/
theorem unsent_sendControl (hcalm : s.Calm) {control : AsyncWebSocketControl}
    {rest : List AsyncWebSocketControl} (hqueue : s.controlQueue = control :: rest) (tcp : AsyncClient) :
    AsyncWebSocketClient.unsent { s with controlQueue := control.sent :: rest, tcp := tcp } + 1 = s.unsent := by
  have hhead : control.finished = false := hcalm control (by rw [hqueue]; rfl)
  have hcount : s.controlQueue.countP (fun c => !c.finished) = rest.countP (fun c => !c.finished) + 1 := by
    rw [hqueue, List.countP_cons_of_pos (by simp [hhead])]
  have hcount' : (control.sent :: rest).countP (fun c => !c.finished) = rest.countP (fun c => !c.finished) :=
    List.countP_cons_of_neg (by simp [AsyncWebSocketControl.sent])
  unfold unsent
  rw [hcount, hcount', Nat.add_assoc]

/-- A part of a message that is sent. -/
theorem unsent_sendMessage {m : AsyncWebSocketMessage} {rest : List AsyncWebSocketMessage}
    (hqueue : s.messageQueue = m :: rest) {n : Nat} (hpos : 0 < n) (hsent : m.sent < m.buffer.length)
    (tcp : AsyncClient) :
    AsyncWebSocketClient.unsent { s with messageQueue := m.advanced n :: rest, tcp := tcp } < s.unsent := by
  have hless : m.buffer.length - (m.sent + n) < m.buffer.length - m.sent := by omega
  unfold unsent
  rw [hqueue, List.map_cons, List.sum_cons, List.map_cons, List.sum_cons]
  exact Nat.add_lt_add_right (Nat.add_lt_add_right hless _) _

/-- A message of which some bytes are acknowledged. -/
theorem unsent_acknowledge {m : AsyncWebSocketMessage} {rest : List AsyncWebSocketMessage}
    (hqueue : s.messageQueue = m :: rest) (len : Nat) :
    AsyncWebSocketClient.unsent { s with messageQueue := m.acknowledge len :: rest } = s.unsent := by
  have hsame : (m.acknowledge len).buffer = m.buffer ∧ (m.acknowledge len).sent = m.sent := by
    rcases m.acknowledge_cases len with ⟨heq, -⟩ | ⟨heq, -⟩
    · rw [heq]
      exact ⟨rfl, rfl⟩
    · rw [heq]
      exact ⟨rfl, rfl⟩
  unfold unsent
  rw [hqueue, List.map_cons, List.map_cons, hsame.1, hsame.2]

/-- A control frame that is acknowledged. -/
theorem unsent_popControl {control : AsyncWebSocketControl} {rest : List AsyncWebSocketControl}
    (hqueue : s.controlQueue = control :: rest) (hfinished : control.finished = true) :
    AsyncWebSocketClient.unsent { s with controlQueue := rest } = s.unsent := by
  unfold unsent
  rw [hqueue, List.countP_cons_of_neg (by simp [hfinished])]

theorem waiting_of_nil (h : s.messageQueue = []) : s.waiting = [] := by
  unfold waiting
  rw [h]
  rfl

/-- A message that is sent and acknowledged is no work. -/
theorem unsent_clearQueue (hwaits : s.messageWaits = 0) (hsound : Sound s queued) :
    s.clearQueue.messageWaits = 0 ∧ s.clearQueue.unsent = s.unsent := by
  rcases clearQueue_cases hsound.messages with ⟨hsame, -⟩ | ⟨m, rest, hqueue, -, hall, hfresh, hcleared⟩
  · rw [hsame]
    exact ⟨hwaits, rfl⟩
  · have hwaits' : AsyncWebSocketClient.messageWaits { s with messageQueue := rest } = 0 :=
      messageWaits_fresh hfresh
    rw [hcleared]
    refine ⟨hwaits', ?_⟩
    unfold unsent
    rw [hqueue, List.map_cons, List.sum_cons, hall, Nat.sub_self, Nat.zero_add]

/-- When nothing is in flight, a call of `_runQueue` does some of the work. -/
theorem work_runQueue (hreliable : link.Reliable) (hclient : s.client = true) (hcalm : s.Calm)
    (hwaits : s.messageWaits = 0) (hsound : Sound s queued) (h : Account s total)
    (hspace : 9 ≤ s.tcp.space) :
    (s.runQueue link).waiting = [] ∨ (s.runQueue link).work < 2 * s.unsent := by
  obtain ⟨hwaits', hunsent⟩ := unsent_clearQueue hwaits hsound
  have hsendable := hsound.sendable
  have haccount := account_clearQueue hsound h
  have hcalm' : s.clearQueue.Calm := hcalm
  have hwindow : webSocketSendFrameWindow s.clearQueue.tcp ≠ 0 := by
    have hspace' : 9 ≤ s.clearQueue.tcp.space := hspace
    have hcan : s.clearQueue.tcp.canSend = true := decide_eq_true (by omega)
    unfold webSocketSendFrameWindow
    rw [hcan, if_neg (by decide), if_neg (by omega)]
    omega
  rw [← hunsent]
  unfold runQueue
  rw [hclient, if_neg (by decide)]
  dsimp only
  generalize s.clearQueue = u at *
  cases hqueue : u.messageQueue with
  | nil =>
    left
    split_ifs with hcontrol hmessage
    · exact waiting_of_nil (by rw [sendControl_messageQueue, hqueue])
    · exact absurd rfl hmessage.1
    · exact waiting_of_nil hqueue
  | cons m rest =>
    right
    obtain ⟨hstatus, hsent⟩ := hsendable.messages m (by rw [hqueue]; exact List.mem_cons_self)
    have hacked : m.acked = m.ack := by
      have hle := (haccount.messages m (by rw [hqueue]; exact List.mem_cons_self)).1
      unfold messageWaits at hwaits'
      rw [hqueue] at hwaits'
      exact Nat.le_antisymm hle (Nat.le_of_sub_eq_zero hwaits')
    have hbetween : u.betweenFrames = true := by
      unfold betweenFrames
      rw [hqueue]
      exact decide_eq_true hacked
    rw [hbetween]
    split_ifs with hcontrol hmessage
    · cases hcontrols : u.controlQueue with
      | nil =>
        have hfits := hcontrol.2
        unfold controlFits at hfits
        rw [hcontrols] at hfits
        cases hfits
      | cons control controls =>
        have hshort := hsendable.controls control (by rw [hcontrols]; exact List.mem_cons_self)
        have hless := unsent_sendControl hcalm' hcontrols (u.tcp.sent (control.frame link))
        have hle := work_le
          { u with controlQueue := control.sent :: controls, tcp := u.tcp.sent (control.frame link) }
        rw [sendControl_eq hreliable hcontrols hshort hcontrol.2]
        omega
    · have hpos : 0 < m.toSend u.tcp := by
        have hless := hsent hacked
        unfold AsyncWebSocketMessage.toSend
        omega
      have hless := unsent_sendMessage hqueue hpos (hsent hacked)
        (u.tcp.sent (m.frame link (m.toSend u.tcp)))
      have hle := work_le
        { u with
          messageQueue := m.advanced (m.toSend u.tcp) :: rest
          tcp := u.tcp.sent (m.frame link (m.toSend u.tcp)) }
      rw [sendMessage_eq hreliable hqueue hstatus hacked (hsent hacked) hwindow]
      omega
    · exact absurd ⟨List.cons_ne_nil m rest, rfl, hwindow⟩ hmessage

theorem work_ackMessage (hreliable : link.Reliable) (hclient : s.client = true) (hcalm : s.Calm)
    (hsound : Sound s queued) (h : Account s total) (hspace : 9 ≤ s.tcp.space) :
    (s.ackMessage link s.messageWaits).waiting = [] ∨
      (s.ackMessage link s.messageWaits).work < 2 * s.unsent := by
  -- the queue is cleared once more in `_runQueue`
  have hrest : ∀ {u : AsyncWebSocketClient} {total' : Nat}, u.client = true → u.Calm → u.messageWaits = 0 →
      Sound u queued → Account u total' → 9 ≤ u.tcp.space → u.unsent = s.unsent →
      (u.clearQueue.runQueue link).waiting = [] ∨ (u.clearQueue.runQueue link).work < 2 * s.unsent := by
    intro u total' huclient hucalm huwaits husound huaccount huspace hsame
    obtain ⟨hwaits', hunsent⟩ := unsent_clearQueue huwaits husound
    rw [← hsame, ← hunsent]
    have hucalm' : u.clearQueue.Calm := hucalm
    exact work_runQueue hreliable huclient hucalm' hwaits' husound.clearQueue
      (account_clearQueue husound huaccount) huspace
  unfold ackMessage
  cases hqueue : s.messageQueue with
  | nil =>
    have hwaits : s.messageWaits = 0 := by
      unfold messageWaits
      rw [hqueue]
    exact hrest hclient hcalm hwaits hsound h hspace rfl
  | cons m rest =>
    have hwaits : s.messageWaits = m.ack - m.acked := by
      unfold messageWaits
      rw [hqueue]
    dsimp only
    split_ifs with hlen
    · have hvalid : m.Valid := by
        have hmessages := hsound.messages
        rw [hqueue] at hmessages
        exact hmessages.1
      have hacked := (h.messages m (by rw [hqueue]; exact List.mem_cons_self)).1
      have hall : m.acked + s.messageWaits ≤ m.ack := by omega
      have haccount := account_acknowledge hcalm h hqueue hvalid.ack_lt hall
      have hcalm' : AsyncWebSocketClient.Calm
          { s with messageQueue := m.acknowledge s.messageWaits :: rest } := hcalm
      have hnone : AsyncWebSocketClient.messageWaits
          { s with messageQueue := m.acknowledge s.messageWaits :: rest } = 0 := by
        have hwire : s.tcp.wire.length = _ := haccount.wire
        have hwire' := h.wire
        rw [controlWaits_calm hcalm'] at hwire
        rw [controlWaits_calm hcalm] at hwire'
        omega
      exact hrest hclient hcalm' hnone (hsound.acknowledge hqueue _) haccount hspace
        (unsent_acknowledge hqueue _)
    · exact hrest hclient hcalm (not_not.mp hlen) hsound h hspace rfl

theorem step_poll (hclient : s.client = true) (link : Link) (now : Nat) :
    s.step (link, .poll now) = (s.ready link).onPoll link now := by
  unfold step
  rw [hclient]
  rfl

theorem step_ack (hclient : s.client = true) (link : Link) (len now : Nat) :
    s.step (link, .ack len now) = (s.ready link).onAck link len now := by
  unfold step
  rw [hclient]
  rfl

/-- One round does some of the work, if messages are waiting. -/
theorem work_serve (hreliable : link.Reliable) (hclient : s.client = true) (hsound : Sound s queued)
    (h : Account s total) (hspace : 9 ≤ link.sndbuf) (hwaiting : s.waiting ≠ []) (now : Nat) :
    (serve (s, total) (link, now)).1.client = false ∨ (serve (s, total) (link, now)).1.waiting = [] ∨
      (serve (s, total) (link, now)).1.work < s.work := by
  have hready : Account (s.ready link) total :=
    ⟨h.controls, h.between, h.messages, h.wire, h.established⟩
  have hsound' : Sound (s.ready link) queued := ⟨hsound.controls, hsound.messages, link.sndbuf_lt, hsound.wire⟩
  have hspace' : 9 ≤ (s.ready link).tcp.space := by
    have hestablished : (s.ready link).tcp.established = true := h.established hclient
    unfold AsyncClient.space
    rw [hestablished, if_pos rfl]
    exact hspace
  have hwire := h.wire
  unfold serve ackedStep
  dsimp only
  split_ifs with hnothing
  · have hwaits : (s.ready link).messageWaits = 0 ∧ s.controlWaits = 0 := by
      show s.messageWaits = 0 ∧ _
      omega
    have hcalm : (s.ready link).Calm := by
      rcases calm_or_finished s with hcalm | ⟨control, rest, -, -, hcontrol⟩
      · exact hcalm
      · rw [hwaits.2] at hcontrol
        cases hcontrol
    have hne : s.messageQueue ≠ [] := fun hnil => hwaiting (waiting_of_nil hnil)
    have hcan : (s.ready link).tcp.canSend = true := decide_eq_true (by omega)
    have hpoll : (s.ready link).onPoll link now = (s.ready link).runQueue link := if_pos ⟨hcan, .inr hne⟩
    rw [step_poll hclient, hpoll]
    rcases work_runQueue (s := s.ready link) hreliable hclient hcalm hwaits.1 hsound' hready hspace' with hdone | hless
    · exact .inr (.inl hdone)
    · exact .inr (.inr (Nat.lt_of_lt_of_le hless (le_work s)))
  · rw [step_ack hclient]
    rcases calm_or_finished (s.ready link) with hcalm | ⟨control, rest, hqueue, hfinished, hcontrol⟩
    · have hlen : s.tcp.wire.length - total = (s.ready link).messageWaits := by
        have hzero : s.controlWaits = 0 := controlWaits_calm hcalm
        show _ = s.messageWaits
        omega
      have hsound'' : Sound { s.ready link with lastMessageTime := now } queued :=
        ⟨hsound'.controls, hsound'.messages, hsound'.room, hsound'.wire⟩
      have haccount : Account { s.ready link with lastMessageTime := now } total :=
        ⟨hready.controls, hready.between, hready.messages, hready.wire, hready.established⟩
      have hcalm' : AsyncWebSocketClient.Calm { s.ready link with lastMessageTime := now } := hcalm
      rw [hlen, onAck_calm hcalm]
      rcases work_ackMessage (s := { s.ready link with lastMessageTime := now }) hreliable hclient hcalm' hsound''
        haccount hspace' with hdone | hless
      · exact .inr (.inl hdone)
      · exact .inr (.inr (Nat.lt_of_lt_of_le hless (le_work s)))
    · have hbetween : (s.ready link).messageWaits = 0 := by
        refine hready.between.resolve_left fun hnone => ?_
        have hfalse := hnone control (by rw [hqueue]; rfl)
        rw [hfinished] at hfalse
        cases hfalse
      have hlen : s.tcp.wire.length - total = control.len := by
        have hzero : s.messageWaits = 0 := hbetween
        have hwaits : s.controlWaits = control.len := hcontrol
        omega
      rw [hlen, onAck_control hqueue hfinished, paid_control]
      split_ifs with hclosing
      · left
        unfold closeNow
        exact congrArg AsyncWebSocketClient.client (if_pos hclient)
      · obtain ⟨hpopped, hpaid⟩ := account_popControl hready hqueue
        have hcontrols := hsound'.controls
        rw [hqueue] at hcontrols
        have hsound'' : Sound { s.ready link with lastMessageTime := now, controlQueue := rest } queued :=
          ⟨(List.forall_mem_cons.mp hcontrols).2, hsound'.messages, hsound'.room, hsound'.wire⟩
        have haccount : Account { s.ready link with lastMessageTime := now, controlQueue := rest } _ :=
          ⟨hpaid.controls, hpaid.between, hpaid.messages, hpaid.wire, hpaid.established⟩
        have hcalm' : AsyncWebSocketClient.Calm
            { s.ready link with lastMessageTime := now, controlQueue := rest } := hpopped
        have hwork := work_ackMessage (s := { s.ready link with lastMessageTime := now, controlQueue := rest })
          hreliable hclient hcalm' hsound'' haccount hspace'
        have hzero : AsyncWebSocketClient.messageWaits
            { s.ready link with lastMessageTime := now, controlQueue := rest } = 0 := hbetween
        have hunsent : AsyncWebSocketClient.unsent
            { s.ready link with lastMessageTime := now, controlQueue := rest } = s.unsent :=
          unsent_popControl (s := s.ready link) hqueue hfinished
        rw [hzero, hunsent] at hwork
        rcases hwork with hdone | hless
        · exact .inr (.inl hdone)
        · exact .inr (.inr (Nat.lt_of_lt_of_le hless (le_work s)))

/-- A round is an orderly event. -/
theorem orderly_serve (hreliable : link.Reliable) (h : Account s total) (now : Nat) :
    Orderly (s, total)
      (link, if s.tcp.wire.length = total then .poll now else .ack (s.tcp.wire.length - total) now) := by
  have hwire := h.wire
  refine ⟨hreliable, fun kind buffer he => ?_, fun code message allocated he => ?_, fun len now' he => ?_, ?_⟩
  · dsimp only at he
    split_ifs at he
  · dsimp only at he
    split_ifs at he
  · dsimp only at he
    split_ifs at he
    cases he
    show total + (s.tcp.wire.length - total) ≤ s.tcp.wire.length
    omega
  · rcases calm_or_finished s with hcalm | ⟨control, rest, hqueue, hfinished, hcontrol⟩
    · exact .inl hcalm
    · have hbetween : s.messageWaits = 0 := by
        refine h.between.resolve_left fun hnone => ?_
        have hfalse := hnone control (by rw [hqueue]; rfl)
        rw [hfinished] at hfalse
        cases hfalse
      have hlen : s.tcp.wire.length - total = s.controlWaits := by omega
      have hpos : 0 < s.controlWaits := by
        rw [hcontrol]
        exact Nat.succ_pos _
      refine .inr (.inr ⟨now, ?_⟩)
      rw [← hlen]
      exact if_neg (by omega)

theorem serve_keeps (hreliable : link.Reliable) (hsound : Sound s queued)
    (h : Account s total) (now : Nat) :
    Sound (serve (s, total) (link, now)).1 queued ∧
      ((serve (s, total) (link, now)).1.client = true →
        Account (serve (s, total) (link, now)).1 (serve (s, total) (link, now)).2) := by
  have huntorn : link.Untorn := fun _ => ⟨hreliable.writeData, hreliable.output⟩
  have horderly := orderly_serve hreliable h now
  refine ⟨?_, account_step hsound (fun _ => h) horderly⟩
  have hstep := sound_step hsound
    (e := (link, if s.tcp.wire.length = total then .poll now else .ack (s.tcp.wire.length - total) now)) huntorn
  have hnone : s.accepted
      (link, if s.tcp.wire.length = total then .poll now else .ack (s.tcp.wire.length - total) now) = [] := by
    split_ifs <;> rfl
  rw [hnone, List.append_nil] at hstep
  exact hstep

theorem waiting_of_work (h : s.work = 0) : s.waiting = [] := by
  have hunsent : s.unsent = 0 := by
    have hle := le_work s
    omega
  have hsum := (Nat.add_eq_zero_iff.mp hunsent).1
  have hnone : s.messageQueue.filter (fun m => m.sent < m.buffer.length) = [] := by
    rw [List.filter_eq_nil_iff]
    intro m hm
    have hzero := List.sum_eq_zero_iff_forall_eq_nat.mp hsum _ (List.mem_map_of_mem hm)
    simpa using Nat.le_of_sub_eq_zero hzero
  unfold waiting
  rw [hnone]
  rfl

/-- As many rounds as there is work are enough. -/
theorem delivered_within {rounds : List (Link × Nat)} {s : Acked} (hsound : Sound s.1 queued)
    (h : s.1.client = true → Account s.1 s.2) (hrounds : ∀ l ∈ rounds, l.1.Reliable ∧ 9 ≤ l.1.sndbuf)
    (hwork : s.1.work ≤ rounds.length) :
    ∃ k, (Machine.run serve s (rounds.take k)).1.client = false ∨
      (Machine.run serve s (rounds.take k)).1.waiting = [] ∧
        Sound (Machine.run serve s (rounds.take k)).1 queued := by
  induction rounds generalizing s with
  | nil => exact ⟨0, .inr ⟨waiting_of_work (Nat.le_zero.mp hwork), hsound⟩⟩
  | cons l rounds ih =>
    cases hclient : s.1.client with
    | false => exact ⟨0, .inl hclient⟩
    | true =>
      by_cases hwaiting : s.1.waiting = []
      · exact ⟨0, .inr ⟨hwaiting, hsound⟩⟩
      · obtain ⟨⟨hreliable, hspace⟩, hrest⟩ := List.forall_mem_cons.mp hrounds
        obtain ⟨s, total⟩ := s
        obtain ⟨link, now⟩ := l
        obtain ⟨hsound', haccount'⟩ := serve_keeps hreliable hsound (h hclient) now
        rcases work_serve hreliable hclient hsound (h hclient) hspace hwaiting now with hgone | hdone | hless
        · exact ⟨1, .inl hgone⟩
        · exact ⟨1, .inr ⟨hdone, hsound'⟩⟩
        · have hwork' : (serve (s, total) (link, now)).1.work ≤ rounds.length :=
            Nat.le_of_lt_succ (Nat.lt_of_lt_of_le hless hwork)
          obtain ⟨k, hk⟩ := ih hsound' haccount' hrest hwork'
          exact ⟨k + 1, hk⟩

end deliver

/-- After an orderly run, if in each round what is in flight is acknowledged, within
as many rounds as there is work the reader has all messages that were queued, or the
connection is closed. -/
theorem all_delivered (closeWhenFull : Bool) (keepAlivePeriod now : Nat) {es : List (Link × SendEvent)}
    (hok : Machine.StepsOk ackedStep Orderly (.new closeWhenFull keepAlivePeriod now, 0) es) {s : Acked}
    (hs : Machine.run ackedStep (.new closeWhenFull keepAlivePeriod now, 0) es = s)
    {rounds : List (Link × Nat)} (hrounds : ∀ l ∈ rounds, l.1.Reliable ∧ 9 ≤ l.1.sndbuf)
    (hwork : s.1.work ≤ rounds.length) :
    ∃ k, (Machine.run serve s (rounds.take k)).1.client = false ∨
      Received (Machine.run serve s (rounds.take k)).1.tcp.wire
        ⟨none, queuedBy (.new closeWhenFull keepAlivePeriod now) es⟩ := by
  have hrun := account_run (sound_new closeWhenFull keepAlivePeriod now)
    (fun _ => account_new closeWhenFull keepAlivePeriod now) hok
  rw [List.nil_append, hs] at hrun
  obtain ⟨k, hgone | ⟨hwaiting, hsound⟩⟩ := delivered_within hrun.1 hrun.2 hrounds hwork
  · exact ⟨k, .inl hgone⟩
  · refine ⟨k, .inr ?_⟩
    obtain ⟨⟨underway, messages⟩, hreceived, hmessages, hunderway⟩ := hsound.delivers
    rw [hwaiting] at hmessages hunderway
    have hnone : underway = none := by
      cases underway with
      | none => rfl
      | some m =>
        obtain ⟨_, hhead, -⟩ := hunderway m rfl
        cases hhead
    rw [hnone] at hreceived
    rw [List.append_nil] at hmessages
    exact hmessages ▸ hreceived

/-- Room for two bytes of a message. -/
def narrow : Link := ⟨10, by decide, true, (0, 0), true, true, true⟩

theorem reliable_narrow : narrow.Reliable := ⟨rfl, rfl, rfl, rfl⟩

/-- Three bytes are sent in two frames. -/
def twoFrames : List (Link × SendEvent) := [(narrow, .message .text [1, 2, 3])]

theorem all_delivered_twoFrames :
    ∃ k, (Machine.run serve (Machine.run ackedStep (.new true 0 0, 0) twoFrames)
        ([(narrow, 0), (narrow, 0), (narrow, 0)].take k)).1.client = false ∨
      Received (Machine.run serve (Machine.run ackedStep (.new true 0 0, 0) twoFrames)
        ([(narrow, 0), (narrow, 0), (narrow, 0)].take k)).1.tcp.wire ⟨none, queuedBy (.new true 0 0) twoFrames⟩ := by
  have horderly : Orderly (.new true 0 0, 0) (narrow, .message .text [1, 2, 3]) := by
    refine ⟨reliable_narrow, ?_, nofun, nofun, .inl nofun⟩
    rintro _ _ ⟨⟩
    decide
  have hok : Machine.StepsOk ackedStep Orderly (.new true 0 0, 0) twoFrames := ⟨horderly, trivial⟩
  refine all_delivered true 0 0 hok rfl (fun l hl => ?_) (by decide)
  have hnarrow : l = (narrow, 0) := by simpa using hl
  rw [hnarrow]
  exact ⟨reliable_narrow, by decide⟩

end WebSocket

end Handheld
