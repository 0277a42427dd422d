import Handheld.PasswordScreen

/-!
# How deep the list of networks nests (`SettingWifi.h`)

A cancelled password screen calls `showWiFiList` and returns only when that call
does, and so does the list that opened it: every cancellation leaves two
activations waiting below the list that it opens.

Results:
1. `Screen.Alternates.depth`: while the visit lasts, two activations for each
   password screen opened in it, and one more if a list is on top.
2. `nesting_iff`: a bound for all keys exists exactly when there is no network; a run
   keeps to one list, one password screen and one re-opened list exactly when 'B'
   opens no password screen from a re-opened list.
-/

namespace Handheld

open ByteString ListCursor

/-! ## Definitions -/

/-- The live activations of `showWiFiList` and `enterWiFiPassword`. A call that
finds no network is gone before the next step, and its callers with it. -/
def Screen.depth (s : Screen) : Nat := s.stack.length

/-- One list, one password screen and one re-opened list at most. -/
def Shallow (s : Screen) : Prop := s.depth ≤ 3

/-- The step does not open a password screen from a list that a cancelled one
has opened: no 'B' is handled there on a place in the array. -/
def NotFromReopened (s : Screen) : ScreenEvent → Prop
  | .go _ => ∀ c ssid rest, s.stack = .list c (.handle (some .B)) :: .password ssid :: rest →
      s.store.at_ c.selected = none
  | .scan _ => True

/-- A list at the bottom, then a password screen and a list in turn, with `n`
password screens in all. -/
inductive Alternating : Nat → List Activation → Prop
  | list (c : Cursor) (phase : Phase) : Alternating 0 [.list c phase]
  | password {n : Nat} {c : Cursor} {phase : Phase} {rest : List Activation} (ssid : Bytes) :
      Alternating n (.list c phase :: rest) →
      Alternating (n + 1) (.password ssid :: .list c phase :: rest)
  | reopened {n : Nat} {ssid : Bytes} {rest : List Activation} (c : Cursor) (phase : Phase) :
      Alternating n (.password ssid :: rest) →
      Alternating n (.list c phase :: .password ssid :: rest)

/-- One for an activation of `showWiFiList`. -/
def Activation.lists : Activation → Nat
  | .list _ _ => 1
  | .password _ => 0

/-- The visit is over, or its activations alternate, with one password screen
for each network that it has offered. -/
def Screen.Alternates (s : Screen) : Prop :=
  s.stack = [] ∨ Alternating s.offered.length s.stack

/-- What a step does to the activations. -/
inductive Stacked (s t : Screen) : Prop
  | returned (hstack : t.stack = [])
  | waiting (hstack : t.stack = s.stack) (hoffered : t.offered = s.offered)
  | list (c d : Cursor) (phase phase' : Phase) (rest : List Activation)
      (hbefore : s.stack = .list c phase :: rest) (hstack : t.stack = .list d phase' :: rest)
      (hoffered : t.offered = s.offered)
  | opened (c : Cursor) (ssid : Bytes) (rest : List Activation)
      (hbefore : s.stack = .list c (.handle (some .B)) :: rest)
      (hat : s.store.at_ c.selected = some ssid)
      (hstack : t.stack = .password ssid :: s.stack) (hoffered : t.offered = s.offered ++ [ssid])
  | reopened (ssid : Bytes) (rest : List Activation) (hbefore : s.stack = .password ssid :: rest)
      (hstack : t.stack = .list .start .draw :: s.stack) (hoffered : t.offered = s.offered)

/-! ## 1. The activations of a visit -/

section stack

variable {n : Nat} {a : Activation} {c d : Cursor} {phase phase' : Phase} {ssid : Bytes}
  {rest : List Activation} {s t : Screen}

/-- The loop of the list on top goes on. -/
theorem Alternating.retop (h : Alternating n (.list c phase :: rest)) (d : Cursor)
    (phase' : Phase) : Alternating n (.list d phase' :: rest) := by
  cases h with
  | list => exact .list d phase'
  | reopened _ _ hbelow => exact .reopened d phase' hbelow

theorem Alternating.password_below {b : Activation}
    (h : Alternating n (.list c phase :: b :: rest)) : ∃ ssid, b = .password ssid := by
  cases h
  exact ⟨_, rfl⟩

theorem Alternating.length (h : Alternating n (a :: rest)) :
    (a :: rest).length = 2 * n + a.lists := by
  generalize hstack : a :: rest = stack at h
  induction h generalizing a rest with
  | list c phase =>
    obtain ⟨rfl, rfl⟩ := List.cons.inj hstack
    rfl
  | password ssid _ ih =>
    obtain ⟨rfl, rfl⟩ := List.cons.inj hstack
    rw [List.length_cons, ih rfl]
    rfl
  | reopened c phase _ ih =>
    obtain ⟨rfl, rfl⟩ := List.cons.inj hstack
    rw [List.length_cons, ih rfl]
    rfl

theorem Screen.Alternates.live (h : s.Alternates) (hstack : s.stack = a :: rest) :
    Alternating s.offered.length (a :: rest) := by
  rcases h with hnil | h
  · cases hnil.symm.trans hstack
  · exact hstack ▸ h

/-- While a visit lasts its depth is twice the number of password screens it has
opened, and one more if a list is on top. -/
theorem Screen.Alternates.depth (h : s.Alternates) (hstack : s.stack = a :: rest) :
    s.depth = 2 * s.offered.length + a.lists := by
  rw [Screen.depth, hstack]
  exact (h.live hstack).length

theorem showWiFiList_stacked (hbefore : s.stack = .password ssid :: rest) :
    Stacked s s.showWiFiList := by
  unfold Screen.showWiFiList
  split
  · exact .returned rfl
  · exact .reopened ssid rest hbefore rfl rfl

theorem submit_stacked (hbefore : s.stack = .password ssid :: rest) (password : Bytes) :
    Stacked s (s.submit ssid password) := by
  unfold Screen.submit
  split
  · exact showWiFiList_stacked hbefore
  · exact .returned rfl

theorem handle_stacked {key : Option Key} (hbefore : s.stack = .list c (.handle key) :: rest) :
    Stacked s (s.handle c key rest) := by
  unfold Screen.handle
  split
  · exact .list c _ _ _ rest hbefore rfl rfl
  · exact .list c _ _ _ rest hbefore rfl rfl
  · cases hat : s.store.at_ c.selected with
    | some ssid =>
      simp only [hat]
      exact .opened c ssid rest hbefore hat (by rw [hbefore]) rfl
    | none =>
      simp only [hat]
      exact .returned rfl
  · exact .returned rfl
  · exact .list c _ _ _ rest hbefore rfl rfl

/-- The step lemma: one case for each way a step can leave the activations. -/
theorem go_stacked (s : Screen) (press : Option Press) : Stacked s (s.go press) := by
  cases hstack : s.stack with
  | nil =>
    rw [go_nil hstack]
    exact .returned hstack
  | cons a rest =>
    cases a with
    | list c phase =>
      cases phase with
      | draw =>
        rw [go_draw hstack]
        exact .list c c _ .read rest hstack rfl rfl
      | read =>
        rw [go_read hstack]
        exact .list c c _ _ rest hstack rfl rfl
      | handle key =>
        rw [go_handle hstack]
        exact handle_stacked hstack
    | password ssid =>
      cases press with
      | none =>
        have hgo : s.go none = s := by simp [Screen.go, hstack]
        rw [hgo]
        exact .waiting rfl rfl
      | some p =>
        rw [go_password hstack]
        unfold Screen.typePassword
        split
        · exact submit_stacked hstack _
        · exact submit_stacked hstack _
        · exact .waiting rfl rfl

theorem Stacked.alternates (hstacked : Stacked s t) (h : s.Alternates) : t.Alternates := by
  unfold Screen.Alternates
  cases hstacked with
  | returned hstack => exact .inl hstack
  | waiting hstack hoffered =>
    rw [hstack, hoffered]
    exact h
  | list c d phase phase' rest hbefore hstack hoffered =>
    rw [hstack, hoffered]
    exact .inr ((h.live hbefore).retop d phase')
  | opened c ssid rest hbefore hat hstack hoffered =>
    rw [hstack, hoffered, hbefore, List.length_append]
    exact .inr (.password ssid (h.live hbefore))
  | reopened ssid rest hbefore hstack hoffered =>
    rw [hstack, hoffered, hbefore]
    exact .inr (.reopened .start .draw (h.live hbefore))

theorem alternates_step (h : s.Alternates) (e : ScreenEvent) : (s.step e).Alternates := by
  cases e with
  | go press => exact (go_stacked s press).alternates h
  | scan r => exact h

end stack

theorem alternates_open (text : TextState) (scans : List ScanResult) :
    (Screen.open_ text scans).Alternates := by
  have hoffered : (Screen.open_ text scans).offered = [] := (showWiFiList_logs _).2
  unfold Screen.Alternates
  rw [open_stack, hoffered]
  split
  · exact .inl rfl
  · exact .inr (.list .start .draw)

/-! ## 2. The bound -/

/-- A shallow visit stays shallow over a step exactly when the step opens no
password screen from a re-opened list. -/
theorem shallow_step_iff {s : Screen} (h : s.Alternates) (hshallow : Shallow s) (e : ScreenEvent) :
    Shallow (s.step e) ↔ NotFromReopened s e := by
  cases e with
  | scan r => exact ⟨fun _ => trivial, fun _ => hshallow⟩
  | go press =>
    unfold Shallow Screen.depth at *
    constructor
    · intro hnext c ssid rest hstack
      cases hat : s.store.at_ c.selected with
      | none => rfl
      | some offered =>
        -- two lists and a password screen are live, and there would be a fourth activation
        have hdepth : s.stack.length = 2 * s.offered.length + 1 := h.depth hstack
        rw [Screen.step, go_handle hstack, handle_B hat] at hnext
        rw [hstack, List.length_cons, List.length_cons] at hdepth
        rw [List.length_cons, List.length_cons, List.length_cons] at hnext
        omega
    · intro hok
      cases go_stacked s press with
      | returned hstack =>
        rw [Screen.step, hstack]
        exact Nat.zero_le 3
      | waiting hstack => rwa [Screen.step, hstack]
      | list c d phase phase' rest hbefore hstack =>
        rw [hbefore] at hshallow
        rwa [Screen.step, hstack]
      | opened c ssid rest hbefore hat hstack =>
        cases rest with
        | nil =>
          rw [Screen.step, hstack, hbefore]
          exact Nat.le_succ 2
        | cons a rest =>
          obtain ⟨below, rfl⟩ := (h.live hbefore).password_below
          exact absurd (hat.symm.trans (hok c below rest hbefore)) (Option.some_ne_none ssid)
      | reopened ssid rest hbefore hstack =>
        have hdepth : s.stack.length = 2 * s.offered.length := h.depth hbefore
        rw [Screen.step, hstack, List.length_cons]
        omega

/-- 'D' in the password screen opens another list above it. -/
theorem go_cancel {s : Screen} {ssid : Bytes} {rest : List Activation}
    (hstack : s.stack = .password ssid :: rest) (hcount : s.store.wifiCount ≠ 0) (time : UInt32) :
    s.go (some ⟨.D, time⟩) = { s with stack := .list .start .draw :: s.stack } := by
  rw [go_password hstack]
  simp [Screen.typePassword, Screen.submit, Screen.showWiFiList, hcount]

/-- 'B' in a list and 'D' in the password screen. -/
def selectAndCancel : List (Option Press) := pressInList .B ++ [some ⟨.D, 0⟩]

/-- Every selection that is cancelled leaves two activations behind. -/
theorem run_selectAndCancel {s : Screen} {rest : List Activation}
    (hstack : s.stack = .list .start .draw :: rest) (hcount : s.store.wifiCount ≠ 0) :
    let t := Machine.run Screen.go s selectAndCancel
    t.store = s.store ∧ ∃ below, t.stack = .list .start .draw :: below ∧
      below.length = rest.length + 2 := by
  -- the first place of the array is there, whatever the scan has reported
  obtain ⟨i, -, hat⟩ := s.store.at_of_lt (i := Cursor.start.selected) (by decide) (by decide)
  have hselect : Machine.run Screen.go s (pressInList .B) = _ := run_select hstack rfl hat
  have hstore : (Machine.run Screen.go s (pressInList .B)).store = s.store := by
    rw [hselect]
    rfl
  have hpassword : (Machine.run Screen.go s (pressInList .B)).stack =
      .password (s.store.wifiList i) :: .list .start (.handle (some .B)) :: rest := by
    rw [hselect]
  rw [selectAndCancel, Machine.run_append, Machine.run_cons, Machine.run_nil,
    go_cancel hpassword (hstore ▸ hcount)]
  exact ⟨hstore, _, rfl, by rw [hpassword]; rfl⟩

theorem run_cancelled {s : Screen} (hstack : s.stack = [.list .start .draw])
    (hcount : s.store.wifiCount ≠ 0) (n : Nat) :
    let t := Machine.run Screen.go s (List.replicate n selectAndCancel).flatten
    t.store = s.store ∧ ∃ below, t.stack = .list .start .draw :: below ∧
      below.length = 2 * n := by
  induction n with
  | zero => exact ⟨rfl, [], hstack, rfl⟩
  | succ n ih =>
    obtain ⟨hstore, below, hbelow, hlength⟩ := ih
    rw [List.replicate_succ', List.flatten_append, Machine.run_append, List.flatten_singleton]
    generalize Machine.run Screen.go s (List.replicate n selectAndCancel).flatten = t at *
    obtain ⟨hstore', below', hbelow', hlength'⟩ := run_selectAndCancel hbelow (hstore ▸ hcount)
    exact ⟨hstore'.trans hstore, below', hbelow', by omega⟩

/-- With a network on the list every bound is passed. -/
theorem depth_unbounded {scans : List ScanResult}
    (hcount : (scans.foldl ScanStore.scan .boot).wifiCount ≠ 0) (text : TextState) (bound : Nat) :
    ∃ keys, bound < (Machine.run Screen.go (Screen.open_ text scans) keys).depth := by
  have hstack : (Screen.open_ text scans).stack = [.list .start .draw] := by
    rw [open_stack, if_neg hcount]
  have hstore := open_store text scans
  obtain ⟨-, below, hbelow, hlength⟩ := run_cancelled hstack (hstore ▸ hcount) bound
  refine ⟨(List.replicate bound selectAndCancel).flatten, ?_⟩
  rw [Screen.depth, hbelow, List.length_cons, hlength]
  omega

/-- With no network the call has returned at once. -/
theorem depth_of_no_network {scans : List ScanResult}
    (hcount : (scans.foldl ScanStore.scan .boot).wifiCount = 0) (text : TextState)
    (keys : List (Option Press)) :
    (Machine.run Screen.go (Screen.open_ text scans) keys).depth = 0 := by
  have hopen : (Screen.open_ text scans).stack = [] := by
    rw [open_stack, if_pos hcount]
  rw [run_of_stopped hopen]
  exact congrArg List.length hopen

/-- All runs together are bounded exactly when there is no network to select; and
a run, with web scans at any points, has one list, one password screen and one
re-opened list at most in every state exactly when none of its steps opens a
password screen from a re-opened list. -/
theorem nesting_iff (text : TextState) (scans : List ScanResult) :
    ((∃ bound, ∀ keys, (Machine.run Screen.go (Screen.open_ text scans) keys).depth ≤ bound) ↔
      (scans.foldl ScanStore.scan .boot).wifiCount = 0) ∧
    ∀ events, Machine.Throughout Screen.step Shallow (Screen.open_ text scans) events ↔
      Machine.StepsOk Screen.step NotFromReopened (Screen.open_ text scans) events := by
  constructor
  · constructor
    · rintro ⟨bound, hbound⟩
      by_contra hcount
      obtain ⟨keys, hkeys⟩ := depth_unbounded hcount text bound
      exact absurd (hbound keys) (Nat.not_le.mpr hkeys)
    · intro hcount
      exact ⟨0, fun keys => Nat.le_of_eq (depth_of_no_network hcount text keys)⟩
  · have hopen : Shallow (Screen.open_ text scans) := by
      unfold Shallow Screen.depth
      rw [open_stack]
      split
      · exact Nat.zero_le 3
      · exact Nat.le_add_left 1 2
    exact Machine.throughout_iff_stepsOk_of_invariant
      (fun s e halternates _ _ => alternates_step halternates e)
      (fun s e halternates hshallow => shallow_step_iff halternates hshallow e)
      (alternates_open text scans) hopen

/-- Two networks: 'B' and 'D' in turn pass every bound, and the second 'B' of the
visit has four activations live. -/
theorem nests_without_bound :
    (¬ ∃ bound, ∀ keys,
      (Machine.run Screen.go (Screen.open_ .boot [twoNetworks]) keys).depth ≤ bound) ∧
      (Machine.run Screen.go (Screen.open_ .boot [twoNetworks])
        (selectAndCancel ++ pressInList .B)).depth = 4 := by
  have hcount : ([twoNetworks].foldl ScanStore.scan .boot).wifiCount ≠ 0 := by decide
  refine ⟨?_, by decide⟩
  rintro ⟨bound, hbound⟩
  obtain ⟨keys, hkeys⟩ := depth_unbounded hcount .boot bound
  exact absurd (hbound keys) (Nat.not_le.mpr hkeys)

end Handheld
