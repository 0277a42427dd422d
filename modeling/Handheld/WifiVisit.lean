import Handheld.PasswordScreen

/-!
# A visit to the list of networks (`SettingWifi.h`)

`showWiFiList` and `enterWiFiPassword` as the two functions that call each other,
on the presses they read. What a call does is its list of events: the keys read,
with what was on the display, and the call of `connectWifi`.

Results:
1. `textLoop_ends`: how `getTextInput` ends, and what was in the field.
2. `one_attempt`: a visit makes one connection attempt at most and ends with it, and
   'D' in any list ends the visit without one.
3. `enough_fuel`, `run_visit`: the recursion is not cut short, and the program of
   the list screen does the same.
-/

namespace Handheld

open ByteString ListCursor

/-! ## Definitions -/

/-- A key read in a list, with the rows drawn; a key read in the password screen,
with the text in the field; or the call of `connectWifi`. -/
inductive VisitEvent
  | list (display : List (Bool × Option Bytes)) (p : Press)
  | password (ssid field : Bytes) (p : Press)
  | connectWifi (ssid password : Bytes)
deriving DecidableEq, Repr

/-- A call that has returned, with the globals it leaves and the presses not read. -/
structure Visit where
  events : List VisitEvent
  text : TextState
  rest : List Press
deriving DecidableEq, Repr

/-- How a call ends: it returns, or the presses do, with a list or the password
screen waiting for the next one, or it is stuck where the array is left or the
fuel is used up. -/
inductive VisitOutcome
  | returned (v : Visit)
  | waits (events : List VisitEvent) (inList : Bool)
  | stuck
deriving DecidableEq, Repr

/-- The events `es` come before those of the call. -/
def VisitOutcome.after (es : List VisitEvent) : VisitOutcome → VisitOutcome
  | .returned v => .returned { v with events := es ++ v.events }
  | .waits events inList => .waits (es ++ events) inList
  | .stuck => .stuck

namespace Visit

/-- The keys that `textLoop` reads, each with the text in the field. -/
def fieldEvents (ssid : Bytes) : TextState → List Press → List VisitEvent
  | _, [] => []
  | s, p :: ps =>
    .password ssid s.inputText p ::
      match p.key with
      | .B => []
      | .D => []
      | _ => fieldEvents ssid (pressKey s p) ps

mutual

/-- The loop of `showWiFiList`, with its cursor. -/
def listLoop (store : ScanStore) : Nat → Cursor → TextState → List Press → VisitOutcome
  | 0, _, _, _ => .stuck
  | _ + 1, _, _, [] => .waits [] true
  | fuel + 1, c, text, p :: ps =>
    VisitOutcome.after [.list (rowsOf store c) p] <|
      match p.key with
      | .A => listLoop store fuel c.up text ps
      | .C => listLoop store fuel (c.down store.wifiCount) text ps
      | .B =>
        match store.at_ c.selected with
        -- `confirmed = true` then ends the loop, and the call returns
        | some ssid => enterWiFiPassword store fuel ssid text ps
        | none => .stuck
      | .D => .returned ⟨[], text, ps⟩
      | _ => listLoop store fuel c text ps

def showWiFiList (store : ScanStore) : Nat → TextState → List Press → VisitOutcome
  | 0, _, _ => .stuck
  | fuel + 1, text, ps =>
    if store.wifiCount = 0 then .returned ⟨[], text, ps⟩ else listLoop store fuel .start text ps

def enterWiFiPassword (store : ScanStore) : Nat → Bytes → TextState → List Press → VisitOutcome
  | 0, _, _, _ => .stuck
  | fuel + 1, ssid, text, ps =>
    VisitOutcome.after (fieldEvents ssid text.reset ps) <|
      match getTextInput text ps with
      | none => .waits [] false
      | some (password, text, rest) =>
        if password = ascii "EXIT" then showWiFiList store fuel text rest
        else .returned ⟨[.connectWifi ssid password], text, rest⟩

end

end Visit

/-- The press that an event reads. -/
def VisitEvent.press : VisitEvent → Option Press
  | .list _ p => some p
  | .password _ _ p => some p
  | .connectWifi _ _ => none

/-- The credentials that an event connects with. -/
def VisitEvent.connect : VisitEvent → Option (Bytes × Bytes)
  | .connectWifi ssid pass => some (ssid, pass)
  | _ => none

/-- A visit that has read the presses `ps`, up to those left: one attempt to
connect at most, the last event, with the SSID marked at the last 'B' in a list
and the text in the field of the last password screen; and none after 'D' in a
list, which is the last key. -/
structure OneAttempt (ps : List Press) (v : Visit) : Prop where
  read : v.events.filterMap VisitEvent.press ++ v.rest = ps
  once : (v.events.filterMap VisitEvent.connect).length ≤ 1
  attempt : ∀ ssid password, .connectWifi ssid password ∈ v.events →
    ∃ before display b typed p, v.events = before ++ .list display b ::
        (typed ++ [.password ssid password p, .connectWifi ssid password]) ∧
      b.key = .B ∧ (true, some ssid) ∈ display ∧ p.key = .B ∧
      ∀ e ∈ typed, ∃ field q, e = .password ssid field q ∧ Stays q
  cancelled : ∀ display p, .list display p ∈ v.events → p.key = .D →
    (∃ before, v.events = before ++ [.list display p]) ∧
      v.events.filterMap VisitEvent.connect = []

/-! ## 1. The password screen -/

namespace Visit

section textLoop

variable {ssid password : Bytes} {s s' : TextState} {p : Press} {keys ps rest : List Press}

/-- A key that ends the input: 'B' with the text in the field, 'D' with the marker. -/
theorem textLoop_end (h : ¬ Stays p) (s : TextState) (ps : List Press) :
    textLoop s (p :: ps) = some (if p.key = .B then s.inputText else ascii "EXIT", s, ps) := by
  unfold textLoop
  cases hkey : p.key with
  | B => rfl
  | D => rfl
  | _ => exact absurd (by simp [Stays, hkey]) h

theorem fieldEvents_end (h : ¬ Stays p) (ssid : Bytes) (s : TextState) (ps : List Press) :
    fieldEvents ssid s (p :: ps) = [.password ssid s.inputText p] := by
  unfold fieldEvents
  cases hkey : p.key with
  | B => rfl
  | D => rfl
  | _ => exact absurd (by simp [Stays, hkey]) h

theorem fieldEvents_stays (h : Stays p) :
    fieldEvents ssid s (p :: ps) =
      .password ssid s.inputText p :: fieldEvents ssid (pressKey s p) ps := by
  rw [fieldEvents]
  split
  · next hB => exact absurd hB h.1
  · next hD => exact absurd hD h.2
  · rfl

theorem fieldEvents_append (h : ∀ q ∈ keys, Stays q) (s : TextState) (ps : List Press) :
    fieldEvents ssid s (keys ++ ps) =
      fieldEvents ssid s keys ++ fieldEvents ssid (Machine.run pressKey s keys) ps := by
  induction keys generalizing s with
  | nil => rfl
  | cons p keys ih =>
    obtain ⟨hp, hkeys⟩ := List.forall_mem_cons.mp h
    rw [List.cons_append, fieldEvents_stays hp, ih hkeys, fieldEvents_stays hp, List.cons_append,
      Machine.run_cons]

/-- Keys that stay in the screen are read there, one by one. -/
theorem fieldEvents_typed (ssid : Bytes) (h : ∀ q ∈ keys, Stays q) (s : TextState) :
    (fieldEvents ssid s keys).filterMap VisitEvent.press = keys ∧
      ∀ e ∈ fieldEvents ssid s keys, ∃ field q, e = .password ssid field q ∧ Stays q := by
  induction keys generalizing s with
  | nil => exact ⟨rfl, by simp [fieldEvents]⟩
  | cons p keys ih =>
    obtain ⟨hp, hkeys⟩ := List.forall_mem_cons.mp h
    obtain ⟨hread, htyped⟩ := ih hkeys (pressKey s p)
    rw [fieldEvents_stays hp]
    exact ⟨congrArg (p :: ·) hread, List.forall_mem_cons.mpr ⟨⟨s.inputText, p, rfl, hp⟩, htyped⟩⟩

/-- The events of an input that ends with `p`. -/
theorem fieldEvents_read (h : ∀ q ∈ keys, Stays q) (hp : ¬ Stays p) (ssid : Bytes) (s : TextState)
    (ps : List Press) :
    (fieldEvents ssid s (keys ++ p :: ps)).filterMap VisitEvent.press = keys ++ [p] ∧
      (fieldEvents ssid s (keys ++ p :: ps)).filterMap VisitEvent.connect = [] := by
  obtain ⟨hread, htyped⟩ := fieldEvents_typed ssid h s
  rw [fieldEvents_append h, fieldEvents_end hp, List.filterMap_append, List.filterMap_append, hread]
  refine ⟨rfl, List.append_eq_nil_iff.mpr ⟨List.filterMap_eq_nil_iff.mpr fun e he => ?_, rfl⟩⟩
  obtain ⟨field, q, rfl, -⟩ := htyped e he
  rfl

/-- The keys that a finished input has read. -/
theorem textLoop_split (h : textLoop s ps = some (password, s', rest)) :
    ∃ keys p, ps = keys ++ p :: rest ∧ (∀ q ∈ keys, Stays q) ∧ ¬ Stays p ∧
      s' = Machine.run pressKey s keys ∧
      password = if p.key = .B then s'.inputText else ascii "EXIT" := by
  induction ps generalizing s with
  | nil => cases h
  | cons p ps ih =>
    by_cases hp : Stays p
    · rw [show p :: ps = [p] ++ ps from rfl, textLoop_append (List.forall_mem_singleton.mpr hp)] at h
      obtain ⟨keys, q, rfl, hkeys, hq, hs', hpassword⟩ := ih h
      exact ⟨p :: keys, q, rfl, List.forall_mem_cons.mpr ⟨hp, hkeys⟩, hq, hs', hpassword⟩
    · rw [textLoop_end hp] at h
      cases h
      exact ⟨[], p, rfl, by simp, hp, rfl, rfl⟩

/-- The input ends with 'B' and the text in the field, or with 'D' and the marker. -/
theorem textLoop_ends (ssid : Bytes) (h : textLoop s ps = some (password, s', rest)) :
    ∃ typed field p, fieldEvents ssid s ps = typed ++ [.password ssid field p] ∧
      (fieldEvents ssid s ps).filterMap VisitEvent.press ++ rest = ps ∧
      (∀ e ∈ typed, ∃ field q, e = .password ssid field q ∧ Stays q) ∧
      (p.key = .B ∧ password = field ∨ password = ascii "EXIT") := by
  obtain ⟨keys, p, rfl, hkeys, hp, rfl, rfl⟩ := textLoop_split h
  obtain ⟨hread, htyped⟩ := fieldEvents_typed ssid hkeys s
  have hevents : fieldEvents ssid s (keys ++ p :: rest) = fieldEvents ssid s keys ++
      [.password ssid (Machine.run pressKey s keys).inputText p] := by
    rw [fieldEvents_append hkeys, fieldEvents_end hp]
  refine ⟨_, _, p, hevents, ?_, htyped, ?_⟩
  · rw [hevents, List.filterMap_append, hread, List.append_assoc]
    rfl
  · split_ifs with hB
    · exact .inl ⟨hB, rfl⟩
    · exact .inr rfl

/-- Presses that come after the end of the input are not read. -/
theorem textLoop_extend (ssid : Bytes) (h : textLoop s ps = some (password, s', rest))
    (qs : List Press) :
    textLoop s (ps ++ qs) = some (password, s', rest ++ qs) ∧
      fieldEvents ssid s (ps ++ qs) = fieldEvents ssid s ps := by
  obtain ⟨keys, p, rfl, hkeys, hp, rfl, rfl⟩ := textLoop_split h
  rw [List.append_assoc, List.cons_append, textLoop_append hkeys, textLoop_end hp,
    fieldEvents_append hkeys, fieldEvents_append hkeys, fieldEvents_end hp, fieldEvents_end hp]
  exact ⟨rfl, rfl⟩

end textLoop

/-! ### A key in the list -/

/-- The cursor after a key that neither enters nor leaves. -/
def movedBy (store : ScanStore) (c : Cursor) : Key → Cursor
  | .A => c.up
  | .C => c.down store.wifiCount
  | _ => c

section listKey

variable {store : ScanStore} {c : Cursor} {p : Press}

theorem stays_or (p : Press) : Stays p ∨ p.key = .B ∨ p.key = .D := by
  by_cases hB : p.key = .B
  · exact .inr (.inl hB)
  · by_cases hD : p.key = .D
    · exact .inr (.inr hD)
    · exact .inl ⟨hB, hD⟩

theorem onList_movedBy (h : c.OnList store.wifiCount) (key : Key) :
    (movedBy store c key).OnList store.wifiCount := by
  unfold movedBy
  split
  · exact h.up
  · exact h.down
  · exact h

variable (fuel : Nat) (text : TextState) (ps : List Press)

theorem listLoop_stays (hp : Stays p) :
    listLoop store (fuel + 1) c text (p :: ps) =
      (listLoop store fuel (movedBy store c p.key) text ps).after [.list (rowsOf store c) p] := by
  rw [listLoop]
  unfold movedBy
  cases hkey : p.key with
  | B => exact absurd hkey hp.1
  | D => exact absurd hkey hp.2
  | _ => rfl

theorem listLoop_B (hp : p.key = .B) :
    listLoop store (fuel + 1) c text (p :: ps) =
      VisitOutcome.after [.list (rowsOf store c) p]
        (match store.at_ c.selected with
        | some ssid => enterWiFiPassword store fuel ssid text ps
        | none => .stuck) := by
  rw [listLoop, hp]

theorem listLoop_D (hp : p.key = .D) :
    listLoop store (fuel + 1) c text (p :: ps) =
      VisitOutcome.after [.list (rowsOf store c) p] (.returned ⟨[], text, ps⟩) := by
  rw [listLoop, hp]

end listKey

/-! ## 2. One attempt -/

/-- An event that neither connects nor is 'D' in a list. -/
def Passes : VisitEvent → Prop
  | .list _ p => p.key ≠ .D
  | .password _ _ _ => True
  | .connectWifi _ _ => False

/-- The events of a password screen, none of which is in a list. -/
theorem typed_passes {ssid : Bytes} {typed : List VisitEvent}
    (h : ∀ e ∈ typed, ∃ field q, e = .password ssid field q ∧ Stays q) : ∀ e ∈ typed, Passes e := by
  intro e he
  obtain ⟨field, q, rfl, -⟩ := h e he
  trivial

/-- The events of the password screen of `ssid`, from the first key to the attempt. -/
def Connects (ssid : Bytes) (es : List VisitEvent) : Prop :=
  ∃ typed password p, es = typed ++ [.password ssid password p, .connectWifi ssid password] ∧
    p.key = .B ∧ ∀ e ∈ typed, ∃ field q, e = .password ssid field q ∧ Stays q

/-- The events of a visit that is over: 'D' in a list, or 'B' on a marked entry and
the attempt to connect to it, after others. -/
inductive Concludes : List VisitEvent → Prop
  | cancelled {display p} : p.key = .D → Concludes [.list display p]
  | connected {display b ssid es} : b.key = .B → (true, some ssid) ∈ display → Connects ssid es →
      Concludes (.list display b :: es)
  | skip {e es} : Passes e → Concludes es → Concludes (e :: es)

theorem Concludes.append {es : List VisitEvent} (h : Concludes es) :
    ∀ {earlier : List VisitEvent}, (∀ e ∈ earlier, Passes e) → Concludes (earlier ++ es)
  | [], _ => h
  | e :: _, hearlier =>
    .skip (hearlier e List.mem_cons_self) (h.append fun x hx => hearlier x (List.mem_cons_of_mem e hx))

/-- What a call of the three functions has done when it returns. -/
structure Over (ps : List Press) (v : Visit) : Prop where
  read : v.events.filterMap VisitEvent.press ++ v.rest = ps
  concludes : Concludes v.events

/-- The same for the password screen of `ssid`. -/
structure PasswordOver (ssid : Bytes) (ps : List Press) (v : Visit) : Prop where
  read : v.events.filterMap VisitEvent.press ++ v.rest = ps
  concludes : Connects ssid v.events ∨ Concludes v.events

theorem after_eq_returned {es : List VisitEvent} {o : VisitOutcome} {v : Visit}
    (h : o.after es = .returned v) :
    ∃ w, o = .returned w ∧ v = { w with events := es ++ w.events } := by
  cases o with
  | returned w => exact ⟨w, rfl, (VisitOutcome.returned.inj h).symm⟩
  | waits events inList => cases h
  | stuck => cases h

/-- A key in the list that does not leave it. -/
theorem Over.list_cons {ps : List Press} {v : Visit} (h : Over ps v) {p : Press} (hp : p.key ≠ .D)
    (display : List (Bool × Option Bytes)) :
    Over (p :: ps) { v with events := [.list display p] ++ v.events } where
  read := congrArg (p :: ·) h.read
  concludes := .skip hp h.concludes

/-- 'B' on the marked entry, and the password screen of it. -/
theorem PasswordOver.list_cons {ssid : Bytes} {ps : List Press} {v : Visit}
    (h : PasswordOver ssid ps v) {p : Press} (hp : p.key = .B)
    {display : List (Bool × Option Bytes)} (hmarked : (true, some ssid) ∈ display) :
    Over (p :: ps) { v with events := [.list display p] ++ v.events } where
  read := congrArg (p :: ·) h.read
  concludes := by
    rcases h.concludes with hconnects | hconcludes
    · exact .connected hp hmarked hconnects
    · exact .skip (by show p.key ≠ .D; rw [hp]; decide) hconcludes

section recursion

variable {store : ScanStore} {fuel : Nat}

/-- What each function has done when it returns, for a given fuel. -/
def ListOver (store : ScanStore) (fuel : Nat) : Prop :=
  ∀ c text ps v, c.OnList store.wifiCount → listLoop store fuel c text ps = .returned v → Over ps v

def CallOver (store : ScanStore) (fuel : Nat) : Prop :=
  ∀ text ps v, showWiFiList store fuel text ps = .returned v → Over ps v

def FieldOver (store : ScanStore) (fuel : Nat) : Prop :=
  ∀ ssid text ps v, enterWiFiPassword store fuel ssid text ps = .returned v → PasswordOver ssid ps v

theorem listLoop_over (hcap : store.wifiCount ≤ maxWifiList) (hlist : ListOver store fuel)
    (hfield : FieldOver store fuel) : ListOver store (fuel + 1) := by
  intro c text ps v hc h
  cases ps with
  | nil => cases h
  | cons p ps =>
    rcases stays_or p with hp | hB | hD
    · rw [listLoop_stays fuel text ps hp] at h
      obtain ⟨w, hw, rfl⟩ := after_eq_returned h
      exact (hlist _ _ _ _ (onList_movedBy hc p.key) hw).list_cons hp.2 _
    · rw [listLoop_B fuel text ps hB] at h
      obtain ⟨w, hw, rfl⟩ := after_eq_returned h
      have hlt : c.selected < maxWifiList := Int.lt_of_lt_of_le hc.lt hcap
      obtain ⟨j, -, hat⟩ := store.at_of_lt hc.selected_nonneg hlt
      rw [hat] at hw
      refine (hfield _ _ _ _ hw).list_cons hB ?_
      exact (marked_mem_rowsOf_iff store hc.toInWindow _).mpr ⟨hc.lt, hat⟩
    · rw [listLoop_D fuel text ps hD] at h
      cases h
      exact ⟨rfl, .cancelled hD⟩

theorem showWiFiList_over (hpos : 1 ≤ store.wifiCount) (hlist : ListOver store fuel) :
    CallOver store (fuel + 1) := by
  intro text ps v h
  have hne : store.wifiCount ≠ 0 := by omega
  rw [showWiFiList, if_neg hne] at h
  exact hlist _ _ _ _ (onList_start hpos) h

theorem enterWiFiPassword_over (hcall : CallOver store fuel) : FieldOver store (fuel + 1) := by
  intro ssid text ps v h
  rw [enterWiFiPassword] at h
  obtain ⟨w, hw, rfl⟩ := after_eq_returned h
  cases hinput : getTextInput text ps with
  | none =>
    rw [hinput] at hw
    cases hw
  | some result =>
    obtain ⟨password, text', rest⟩ := result
    rw [hinput] at hw
    dsimp only at hw
    obtain ⟨typed, field, p, hevents, hread, htyped, hend⟩ := textLoop_ends ssid hinput
    have hpasses : ∀ e ∈ fieldEvents ssid text.reset ps, Passes e := by
      rw [hevents]
      intro e he
      rcases List.mem_append.mp he with he | he
      · exact typed_passes htyped e he
      · obtain rfl := List.mem_singleton.mp he
        trivial
    split_ifs at hw with hexit
    · have hover := hcall _ _ _ hw
      refine ⟨?_, .inr (hover.concludes.append hpasses)⟩
      rw [List.filterMap_append, List.append_assoc, hover.read, hread]
    · -- 'D' returns the marker, so the input ended with 'B' on what is in the field
      obtain ⟨hB, rfl⟩ : p.key = .B ∧ password = field := hend.resolve_right hexit
      cases hw
      refine ⟨?_, .inl ⟨typed, password, p, ?_, hB, htyped⟩⟩
      · rw [List.filterMap_append, List.append_assoc]
        exact hread
      · show fieldEvents ssid text.reset ps ++ _ = _
        rw [hevents, List.append_assoc]
        rfl

/-- By induction on the fuel, that is over any depth of calls. -/
theorem over_of_visit (hpos : 1 ≤ store.wifiCount) (hcap : store.wifiCount ≤ maxWifiList) (fuel : Nat) :
    ListOver store fuel ∧ CallOver store fuel ∧ FieldOver store fuel := by
  induction fuel with
  | zero =>
    refine ⟨fun c text ps v hc h => ?_, fun text ps v h => ?_, fun ssid text ps v h => ?_⟩ <;> cases h
  | succ fuel ih =>
    obtain ⟨hlist, hcall, hfield⟩ := ih
    exact ⟨listLoop_over hcap hlist hfield, showWiFiList_over hpos hlist,
      enterWiFiPassword_over hcall⟩

end recursion

/-! ### What the events of a visit say -/

theorem Passes.connect_eq_none {e : VisitEvent} (h : Passes e) : e.connect = none := by
  cases e with
  | list display p => rfl
  | password ssid field p => rfl
  | connectWifi ssid password => cases h

theorem filterMap_connect_of_passes {es : List VisitEvent} (h : ∀ e ∈ es, Passes e) :
    es.filterMap VisitEvent.connect = [] :=
  List.filterMap_eq_nil_iff.mpr fun e he => (h e he).connect_eq_none

/-- The last key in a list is 'D', or 'B' before the attempt. -/
theorem Concludes.cases {es : List VisitEvent} (h : Concludes es) :
    ∃ earlier, (∀ e ∈ earlier, Passes e) ∧
      ((∃ display p, es = earlier ++ [.list display p] ∧ p.key = .D) ∨
        ∃ display b ssid rest, es = earlier ++ .list display b :: rest ∧ b.key = .B ∧
          (true, some ssid) ∈ display ∧ Connects ssid rest) := by
  induction h with
  | @cancelled display p hp => exact ⟨[], by simp, .inl ⟨display, p, rfl, hp⟩⟩
  | @connected display b ssid rest hb hmarked hrest =>
    exact ⟨[], by simp, .inr ⟨display, b, ssid, rest, rfl, hb, hmarked, hrest⟩⟩
  | @skip e es he _ ih =>
    obtain ⟨earlier, hearlier, hend⟩ := ih
    refine ⟨e :: earlier, List.forall_mem_cons.mpr ⟨he, hearlier⟩, ?_⟩
    rcases hend with ⟨display, p, rfl, hp⟩ | ⟨display, b, ssid, rest, rfl, hend⟩
    · exact .inl ⟨display, p, rfl, hp⟩
    · exact .inr ⟨display, b, ssid, rest, rfl, hend⟩

section oneAttempt

variable {ps : List Press} {v : Visit} {earlier : List VisitEvent}
  {display : List (Bool × Option Bytes)}

theorem oneAttempt_of_cancelled (hread : v.events.filterMap VisitEvent.press ++ v.rest = ps)
    (hearlier : ∀ e ∈ earlier, Passes e) {p : Press}
    (hevents : v.events = earlier ++ [.list display p]) : OneAttempt ps v := by
  have hconnects : v.events.filterMap VisitEvent.connect = [] := by
    rw [hevents, List.filterMap_append, filterMap_connect_of_passes hearlier]
    rfl
  refine ⟨hread, by rw [hconnects]; exact Nat.zero_le 1, fun ssid password hmem => ?_,
    fun display' q hmem hq => ⟨⟨earlier, ?_⟩, hconnects⟩⟩
  · have hpair : (ssid, password) ∈ v.events.filterMap VisitEvent.connect :=
      List.mem_filterMap.mpr ⟨_, hmem, rfl⟩
    rw [hconnects] at hpair
    cases hpair
  · rw [hevents] at hmem ⊢
    rcases List.mem_append.mp hmem with hmem | hmem
    · exact absurd hq (hearlier _ hmem)
    · rw [List.mem_singleton.mp hmem]

theorem oneAttempt_of_connected (hread : v.events.filterMap VisitEvent.press ++ v.rest = ps)
    (hearlier : ∀ e ∈ earlier, Passes e) {b : Press} {ssid : Bytes} {rest : List VisitEvent}
    (hevents : v.events = earlier ++ .list display b :: rest) (hb : b.key = .B)
    (hmarked : (true, some ssid) ∈ display) (hrest : Connects ssid rest) : OneAttempt ps v := by
  obtain ⟨typed, password, p, rfl, hp, htyped⟩ := hrest
  have hconnects : v.events.filterMap VisitEvent.connect = [(ssid, password)] := by
    rw [hevents, List.filterMap_append, filterMap_connect_of_passes hearlier, List.nil_append,
      List.filterMap_cons_none rfl, List.filterMap_append,
      filterMap_connect_of_passes (typed_passes htyped)]
    rfl
  refine ⟨hread, by rw [hconnects]; exact Nat.le_refl 1, fun ssid' password' hmem => ?_,
    fun display' q hmem hq => absurd hq ?_⟩
  · have hpair : (ssid', password') ∈ v.events.filterMap VisitEvent.connect :=
      List.mem_filterMap.mpr ⟨_, hmem, rfl⟩
    rw [hconnects, List.mem_singleton] at hpair
    obtain ⟨rfl, rfl⟩ := Prod.mk.inj hpair
    exact ⟨earlier, display, b, typed, p, hevents, hb, hmarked, hp, htyped⟩
  · rw [hevents] at hmem
    simp only [List.mem_append, List.mem_cons, List.not_mem_nil, or_false, reduceCtorEq,
      VisitEvent.list.injEq] at hmem
    rcases hmem with hmem | ⟨-, rfl⟩ | hmem
    · exact hearlier _ hmem
    · rw [hb]
      decide
    · exact typed_passes htyped _ hmem

theorem Over.oneAttempt (h : Over ps v) : OneAttempt ps v := by
  obtain ⟨earlier, hearlier, ⟨display, p, hevents, -⟩ |
    ⟨display, b, ssid, rest, hevents, hb, hmarked, hrest⟩⟩ := h.concludes.cases
  · exact oneAttempt_of_cancelled h.read hearlier hevents
  · exact oneAttempt_of_connected h.read hearlier hevents hb hmarked hrest

end oneAttempt

/-! ### 'D' in a list -/

theorem after_eq_waits {es events : List VisitEvent} {o : VisitOutcome} {inList : Bool}
    (h : o.after es = .waits events inList) :
    ∃ later, o = .waits later inList ∧ events = es ++ later := by
  cases o with
  | returned w => cases h
  | waits later l =>
    obtain ⟨rfl, rfl⟩ := VisitOutcome.waits.inj h
    exact ⟨later, rfl, rfl⟩
  | stuck => cases h

/-- The call waits in a list, and returns when 'D' comes. -/
def Leaves (run : List Press → VisitOutcome) : Prop :=
  ∀ ps es, run ps = .waits es true → ∀ p : Press, p.key = .D → ∀ qs, ∃ display text,
    run (ps ++ p :: qs) = .returned ⟨es ++ [.list display p], text, qs⟩

theorem after_leaves {o o' : VisitOutcome} {es : List VisitEvent} {p : Press} {qs : List Press}
    {before : List VisitEvent} (hwaits : o.after before = .waits es true)
    (h : ∀ later, o = .waits later true →
      ∃ display text, o' = .returned ⟨later ++ [.list display p], text, qs⟩) :
    ∃ display text, o'.after before = .returned ⟨es ++ [.list display p], text, qs⟩ := by
  obtain ⟨later, hlater, rfl⟩ := after_eq_waits hwaits
  obtain ⟨display, text, rfl⟩ := h later hlater
  exact ⟨display, text, by rw [List.append_assoc]; rfl⟩

section leaves

variable {store : ScanStore} {fuel : Nat}

theorem listLoop_leaves (hlist : ∀ c text, Leaves (listLoop store fuel c text))
    (hfield : ∀ ssid text, Leaves (enterWiFiPassword store fuel ssid text)) (c : Cursor)
    (text : TextState) : Leaves (listLoop store (fuel + 1) c text) := by
  intro ps es h q hq qs
  cases ps with
  | nil =>
    cases h
    refine ⟨rowsOf store c, text, ?_⟩
    rw [List.nil_append, listLoop_D fuel text qs hq]
    rfl
  | cons p ps =>
    rw [List.cons_append]
    rcases stays_or p with hp | hB | hD
    · rw [listLoop_stays fuel text ps hp] at h
      rw [listLoop_stays fuel text _ hp]
      exact after_leaves h fun later hlater => hlist _ _ _ _ hlater q hq qs
    · rw [listLoop_B fuel text ps hB] at h
      rw [listLoop_B fuel text _ hB]
      refine after_leaves h fun later hlater => ?_
      cases hat : store.at_ c.selected with
      | none =>
        rw [hat] at hlater
        cases hlater
      | some ssid =>
        rw [hat] at hlater
        exact hfield _ _ _ _ hlater q hq qs
    · rw [listLoop_D fuel text ps hD] at h
      cases h

theorem showWiFiList_leaves (hlist : ∀ c text, Leaves (listLoop store fuel c text))
    (text : TextState) : Leaves (showWiFiList store (fuel + 1) text) := by
  intro ps es h q hq qs
  rw [showWiFiList] at h ⊢
  split_ifs at h ⊢ with hzero
  exact hlist _ _ _ _ h q hq qs

theorem enterWiFiPassword_leaves (hcall : ∀ text, Leaves (showWiFiList store fuel text))
    (ssid : Bytes) (text : TextState) : Leaves (enterWiFiPassword store (fuel + 1) ssid text) := by
  intro ps es h q hq qs
  rw [enterWiFiPassword] at h ⊢
  cases hinput : getTextInput text ps with
  | none =>
    rw [hinput] at h
    cases h
  | some result =>
    obtain ⟨password, text', rest⟩ := result
    obtain ⟨hloop, hevents⟩ := textLoop_extend ssid hinput (q :: qs)
    have hinput' : getTextInput text (ps ++ q :: qs) = some (password, text', rest ++ q :: qs) := hloop
    rw [hinput] at h
    rw [hevents, hinput']
    refine after_leaves h fun later hlater => ?_
    dsimp only at hlater ⊢
    split_ifs at hlater ⊢ with hexit
    exact hcall _ _ _ hlater q hq qs

/-- 'D' in a list at any depth of calls. -/
theorem leaves (store : ScanStore) (fuel : Nat) :
    (∀ c text, Leaves (listLoop store fuel c text)) ∧
      (∀ text, Leaves (showWiFiList store fuel text)) ∧
      ∀ ssid text, Leaves (enterWiFiPassword store fuel ssid text) := by
  induction fuel with
  | zero =>
    refine ⟨fun c text ps es h => ?_, fun text ps es h => ?_, fun ssid text ps es h => ?_⟩ <;> cases h
  | succ fuel ih =>
    obtain ⟨hlist, hcall, hfield⟩ := ih
    exact ⟨listLoop_leaves hlist hfield, showWiFiList_leaves hlist, enterWiFiPassword_leaves hcall⟩

end leaves

end Visit

/-- A visit to a list of 1 to 10 networks: what it has done when it returns, and
that 'D' in a list, at whatever depth, makes it return without an attempt. -/
theorem one_attempt (store : ScanStore) (hpos : 1 ≤ store.wifiCount)
    (hcap : store.wifiCount ≤ maxWifiList) (fuel : Nat) (text : TextState) (ps : List Press) :
    (∀ v, Visit.showWiFiList store fuel text ps = .returned v → OneAttempt ps v) ∧
    ∀ es, Visit.showWiFiList store fuel text ps = .waits es true →
      ∀ (p : Press), p.key = .D → ∀ qs, ∃ display text',
        Visit.showWiFiList store fuel text (ps ++ p :: qs) =
            .returned ⟨es ++ [.list display p], text', qs⟩ ∧
          es.filterMap VisitEvent.connect = [] := by
  have hover : ∀ ps v, Visit.showWiFiList store fuel text ps = .returned v → OneAttempt ps v :=
    fun ps v h => ((Visit.over_of_visit hpos hcap fuel).2.1 text ps v h).oneAttempt
  refine ⟨hover ps, fun es h p hp qs => ?_⟩
  obtain ⟨display, text', hreturned⟩ := (Visit.leaves store fuel).2.1 text ps es h p hp qs
  have hconnects := ((hover _ _ hreturned).cancelled display p (by simp) hp).2
  rw [List.filterMap_append] at hconnects
  exact ⟨display, text', hreturned, (List.append_eq_nil_iff.mp hconnects).1⟩

/-- The second network, the password `2`; before that an attempt for the first is cancelled. -/
theorem one_attempt_cafe :
    ∃ v, Visit.showWiFiList (ScanStore.boot.scan twoNetworks) 20 .boot
        [⟨.B, 0⟩, ⟨.digit 1, 100⟩, ⟨.D, 200⟩, ⟨.C, 300⟩, ⟨.B, 400⟩, ⟨.digit 2, 500⟩, ⟨.B, 600⟩] =
          .returned v ∧
      v.events.getLast? = some (.connectWifi (ascii "cafe") (ascii "2")) ∧
      OneAttempt [⟨.B, 0⟩, ⟨.digit 1, 100⟩, ⟨.D, 200⟩, ⟨.C, 300⟩, ⟨.B, 400⟩, ⟨.digit 2, 500⟩,
        ⟨.B, 600⟩] v :=
  ⟨_, rfl, by decide, (one_attempt (ScanStore.boot.scan twoNetworks) (by decide) (by decide) 20 .boot
    [⟨.B, 0⟩, ⟨.digit 1, 100⟩, ⟨.D, 200⟩, ⟨.C, 300⟩, ⟨.B, 400⟩, ⟨.digit 2, 500⟩, ⟨.B, 600⟩]).1 _ rfl⟩

/-! ## 3. The program of the list screen -/

namespace Visit

section fuel

variable {store : ScanStore} {fuel : Nat}

theorem after_ne_stuck {es : List VisitEvent} {o : VisitOutcome} (h : o ≠ .stuck) :
    o.after es ≠ .stuck := by
  cases o with
  | returned v => exact VisitOutcome.noConfusion
  | waits events inList => exact VisitOutcome.noConfusion
  | stuck => exact absurd rfl h

/-- For each function, with a given fuel: how many presses it is enough for. Every
call in the recursion has read a key or comes before one. -/
def ListRuns (store : ScanStore) (fuel : Nat) : Prop :=
  ∀ c text ps, c.OnList store.wifiCount → 2 * ps.length < fuel →
    listLoop store fuel c text ps ≠ .stuck

def CallRuns (store : ScanStore) (fuel : Nat) : Prop :=
  ∀ text ps, 2 * ps.length + 1 < fuel → showWiFiList store fuel text ps ≠ .stuck

def FieldRuns (store : ScanStore) (fuel : Nat) : Prop :=
  ∀ ssid text ps, 2 * ps.length < fuel → enterWiFiPassword store fuel ssid text ps ≠ .stuck

theorem listLoop_runs (hcap : store.wifiCount ≤ maxWifiList) (hlist : ListRuns store fuel)
    (hfield : FieldRuns store fuel) : ListRuns store (fuel + 1) := by
  intro c text ps hc hfuel
  cases ps with
  | nil => exact VisitOutcome.noConfusion
  | cons p ps =>
    have hrest : 2 * ps.length < fuel := by
      rw [List.length_cons] at hfuel
      omega
    rcases stays_or p with hp | hB | hD
    · rw [listLoop_stays fuel text ps hp]
      exact after_ne_stuck (hlist _ _ _ (onList_movedBy hc p.key) hrest)
    · have hlt : c.selected < maxWifiList := Int.lt_of_lt_of_le hc.lt hcap
      obtain ⟨j, -, hat⟩ := store.at_of_lt hc.selected_nonneg hlt
      rw [listLoop_B fuel text ps hB, hat]
      exact after_ne_stuck (hfield _ _ _ hrest)
    · rw [listLoop_D fuel text ps hD]
      exact VisitOutcome.noConfusion

theorem showWiFiList_runs (hpos : 1 ≤ store.wifiCount) (hlist : ListRuns store fuel) :
    CallRuns store (fuel + 1) := by
  intro text ps hfuel
  have hne : store.wifiCount ≠ 0 := by omega
  rw [showWiFiList, if_neg hne]
  exact hlist _ _ _ (onList_start hpos) (Nat.lt_of_succ_lt_succ hfuel)

theorem enterWiFiPassword_runs (hcall : CallRuns store fuel) : FieldRuns store (fuel + 1) := by
  intro ssid text ps hfuel
  rw [enterWiFiPassword]
  refine after_ne_stuck ?_
  cases hinput : getTextInput text ps with
  | none => exact VisitOutcome.noConfusion
  | some result =>
    obtain ⟨password, text', rest⟩ := result
    obtain ⟨keys, p, rfl, -⟩ := textLoop_split hinput
    dsimp only
    split_ifs
    · refine hcall _ _ ?_
      rw [List.length_append, List.length_cons] at hfuel
      omega
    · exact VisitOutcome.noConfusion

theorem not_stuck (hpos : 1 ≤ store.wifiCount) (hcap : store.wifiCount ≤ maxWifiList) (fuel : Nat) :
    ListRuns store fuel ∧ CallRuns store fuel ∧ FieldRuns store fuel := by
  induction fuel with
  | zero =>
    exact ⟨fun _ _ _ _ h => absurd h (Nat.not_lt_zero _), fun _ _ h => absurd h (Nat.not_lt_zero _),
      fun _ _ _ h => absurd h (Nat.not_lt_zero _)⟩
  | succ fuel ih =>
    obtain ⟨hlist, hcall, hfield⟩ := ih
    exact ⟨listLoop_runs hcap hlist hfield, showWiFiList_runs hpos hlist,
      enterWiFiPassword_runs hcall⟩

end fuel

end Visit

/-- Enough fuel for any presses: the visit returns or waits for the next key. -/
theorem enough_fuel {store : ScanStore} (hpos : 1 ≤ store.wifiCount)
    (hcap : store.wifiCount ≤ maxWifiList) (text : TextState) (ps : List Press) :
    Visit.showWiFiList store (2 * ps.length + 2) text ps ≠ .stuck :=
  (Visit.not_stuck hpos hcap _).2.1 text ps (Nat.lt_succ_self _)

namespace Visit

/-- The program of the list screen can read the keys of the visit, and ends as it does. -/
def Follows (s : Screen) (v : Visit) : Prop :=
  ∃ presses : List (Option Press),
    presses.filterMap id = v.events.filterMap VisitEvent.press ∧
      (Machine.run Screen.go s presses).stack = [] ∧
      (Machine.run Screen.go s presses).text = v.text ∧
      (Machine.run Screen.go s presses).connects =
        s.connects ++ v.events.filterMap VisitEvent.connect

/-- The program has come from `s` to `t` with the events `es`. -/
theorem Follows.after {s t : Screen} {v : Visit} {es : List VisitEvent}
    {presses : List (Option Press)} (hrun : Machine.run Screen.go s presses = t)
    (hkeys : presses.filterMap id = es.filterMap VisitEvent.press)
    (hconnects : t.connects = s.connects ++ es.filterMap VisitEvent.connect) (h : Follows t v) :
    Follows s { v with events := es ++ v.events } := by
  obtain ⟨later, hlater, hstack, htext, hlog⟩ := h
  refine ⟨presses ++ later, ?_, ?_⟩
  · rw [List.filterMap_append, hkeys, hlater, List.filterMap_append]
  · rw [Machine.run_append, hrun]
    refine ⟨hstack, htext, ?_⟩
    rw [hlog, hconnects, List.append_assoc, List.filterMap_append]

theorem follows_returned {s : Screen} (hstack : s.stack = []) (ps : List Press) :
    Follows s ⟨[], s.text, ps⟩ :=
  ⟨[], rfl, hstack, rfl, (List.append_nil s.connects).symm⟩

theorem showWiFiList_connects (s : Screen) : s.showWiFiList.connects = s.connects := by
  unfold Screen.showWiFiList
  split <;> rfl

/-- A key that neither enters nor leaves moves the cursor. -/
theorem handle_stays {s : Screen} {c : Cursor} {p : Press} (hp : Stays p) (rest : List Activation) :
    s.handle c (some p.key) rest =
      { s with stack := .list (movedBy s.store c p.key) .draw :: rest } := by
  unfold Screen.handle movedBy
  cases hkey : p.key with
  | B => exact absurd hkey hp.1
  | D => exact absurd hkey hp.2
  | _ => rfl

section follows

variable {store : ScanStore} {fuel : Nat}

/-- For each function, with a given fuel: where it returns, the program follows. -/
def ListFollows (store : ScanStore) (fuel : Nat) : Prop :=
  ∀ (s : Screen) c rest ps v, s.store = store → s.stack = .list c .draw :: rest →
    listLoop store fuel c s.text ps = .returned v → Follows s v

def CallFollows (store : ScanStore) (fuel : Nat) : Prop :=
  ∀ (s : Screen) ps v, s.store = store → showWiFiList store fuel s.text ps = .returned v →
    Follows s.showWiFiList v

def FieldFollows (store : ScanStore) (fuel : Nat) : Prop :=
  ∀ (s : Screen) ssid rest text ps v, s.store = store → s.stack = .password ssid :: rest →
    s.text = text.reset → enterWiFiPassword store fuel ssid text ps = .returned v → Follows s v

theorem listLoop_follows (hlist : ListFollows store fuel) (hfield : FieldFollows store fuel) :
    ListFollows store (fuel + 1) := by
  rintro s c rest ps v rfl hstack h
  cases ps with
  | nil => cases h
  | cons p ps =>
    have hrun := run_listKey hstack p
    have hlog : s.connects = s.connects ++ [] := (List.append_nil s.connects).symm
    rcases stays_or p with hp | hB | hD
    · rw [listLoop_stays fuel s.text ps hp] at h
      obtain ⟨w, hw, rfl⟩ := after_eq_returned h
      rw [handle_stays hp] at hrun
      exact Follows.after hrun rfl hlog (hlist _ _ rest _ _ rfl rfl hw)
    · rw [listLoop_B fuel s.text ps hB] at h
      obtain ⟨w, hw, rfl⟩ := after_eq_returned h
      cases hat : s.store.at_ c.selected with
      | none =>
        rw [hat] at hw
        cases hw
      | some ssid =>
        rw [hat] at hw
        exact Follows.after (run_select hstack hB hat) rfl hlog (hfield _ _ _ _ _ _ rfl rfl rfl hw)
    · rw [listLoop_D fuel s.text ps hD] at h
      obtain ⟨w, hw, rfl⟩ := after_eq_returned h
      rw [hD] at hrun
      cases hw
      exact Follows.after hrun rfl hlog (follows_returned rfl ps)

theorem showWiFiList_follows (hlist : ListFollows store fuel) : CallFollows store (fuel + 1) := by
  rintro s ps v rfl h
  rw [showWiFiList] at h
  unfold Screen.showWiFiList
  split_ifs at h ⊢ with hzero
  · cases h
    exact follows_returned rfl ps
  · exact hlist _ _ s.stack _ _ rfl rfl h

theorem enterWiFiPassword_follows (hcall : CallFollows store fuel) :
    FieldFollows store (fuel + 1) := by
  rintro s ssid rest text ps v rfl hstack htext h
  rw [enterWiFiPassword] at h
  obtain ⟨w, hw, rfl⟩ := after_eq_returned h
  cases hinput : getTextInput text ps with
  | none =>
    rw [hinput] at hw
    cases hw
  | some result =>
    obtain ⟨password, text', left⟩ := result
    rw [hinput] at hw
    obtain ⟨keys, p, rfl, hkeys, hp, rfl, hpassword⟩ := textLoop_split hinput
    obtain ⟨outcome, houtcome, hrun⟩ := run_password hstack htext hkeys hp
    have hend : getTextInput text (keys ++ [p]) =
        some (password, Machine.run pressKey text.reset keys, []) := by
      rw [getTextInput, textLoop_append hkeys, textLoop_end hp, ← hpassword]
    unfold Handheld.enterWiFiPassword at houtcome
    rw [hend] at houtcome
    obtain ⟨hread, hconnect⟩ := fieldEvents_read hkeys hp ssid text.reset left
    have hpresses : ((keys ++ [p]).map some).filterMap id =
        (fieldEvents ssid text.reset (keys ++ p :: left)).filterMap VisitEvent.press := by
      rw [hread, List.filterMap_map]
      exact List.filterMap_some
    dsimp only at hw houtcome
    split_ifs at hw houtcome with hexit
    · cases houtcome
      refine Follows.after hrun hpresses ?_ (hcall { s with text := _ } _ _ rfl hw)
      rw [hconnect, List.append_nil]
      exact showWiFiList_connects _
    · cases houtcome
      cases hw
      refine ⟨(keys ++ [p]).map some, ?_, ?_⟩
      · rw [hpresses, List.filterMap_append]
        exact (List.append_nil _).symm
      · rw [hrun, List.filterMap_append, hconnect]
        exact ⟨rfl, rfl, rfl⟩

/-- By induction on the fuel. -/
theorem follows (store : ScanStore) (fuel : Nat) :
    ListFollows store fuel ∧ CallFollows store fuel ∧ FieldFollows store fuel := by
  induction fuel with
  | zero =>
    refine ⟨fun s c rest ps v _ _ h => ?_, fun s ps v _ h => ?_,
      fun s ssid rest text ps v _ _ _ h => ?_⟩ <;> cases h
  | succ fuel ih =>
    obtain ⟨hlist, hcall, hfield⟩ := ih
    exact ⟨listLoop_follows hlist hfield, showWiFiList_follows hlist,
      enterWiFiPassword_follows hcall⟩

end follows

end Visit

/-- A visit that returns is a run of the program of the list screen. -/
theorem run_visit (s : Screen) (fuel : Nat) (ps : List Press) (v : Visit)
    (h : Visit.showWiFiList s.store fuel s.text ps = .returned v) :
    Visit.Follows s.showWiFiList v :=
  (Visit.follows s.store fuel).2.1 s ps v rfl h

end Handheld
