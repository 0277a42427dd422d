import Handheld.PasswordScreen

/-!
# What can be typed (`SettingKeypad.h`)

The presses of a session edit the end of the text only, what they type depends on
nothing but the letter case that earlier sessions have left, and they can type
every text over the characters of the table.

Results:
1. `edits_end`: what a press does to the text, in any state of the loop.
2. `sessions_agree`: two sessions with the same keys, one later than the other.
3. `every_text_typed`: keys for any text, whatever the letter case at the start.
-/

namespace Handheld

open ByteString

/-! ## Definitions -/

/-- The press takes the branch that replaces the last character. -/
def Cycles (s : TextState) (p : Press) : Prop :=
  ∃ d, p.key = .digit d ∧ s.lastKey = some (.digit d) ∧ p.time - s.lastPressTime < 500

/-- A press that cycles replaces the last character, and there is one; any other
appends a digit, removes the last character if there is one, or changes nothing. -/
structure EditsEnd (s : TextState) (p : Press) : Prop where
  cycling : Cycles s p → s.inputText ≠ [] ∧
    (pressKey s p).inputText.length = s.inputText.length ∧
      (pressKey s p).inputText.dropLast = s.inputText.dropLast
  appends : ∀ d, p.key = .digit d → ¬ Cycles s p →
    (pressKey s p).inputText = s.inputText ++ [digitChar d]
  removes : p.key = .star → s.inputText ≠ [] → ∃ c, s.inputText = (pressKey s p).inputText ++ [c]
  keeps : (∀ d, p.key ≠ .digit d) → (p.key = .star → s.inputText = []) →
    (pressKey s p).inputText = s.inputText

/-- The other letter case. -/
def swapCase (c : UInt8) : UInt8 :=
  if 65 ≤ c ∧ c ≤ 90 then c + 32 else if 97 ≤ c ∧ c ≤ 122 then c - 32 else c

/-- The press, `shift` milliseconds later. -/
def Press.later (shift : UInt32) (p : Press) : Press := { p with time := p.time + shift }

/-- What a session types, in the letter case of another one. -/
def recase (same : Bool) (c : UInt8) : UInt8 := if same then c else swapCase c

/-- Keys, each with the milliseconds since the key before it; the first since `t`. -/
def timed (t : UInt32) : List (Key × UInt32) → List Press
  | [] => []
  | (key, gap) :: keys => ⟨key, t + gap⟩ :: timed (t + gap) keys

/-- The clock at the last of the keys, from `t`. -/
def clockAfter (t : UInt32) (keys : List (Key × UInt32)) : UInt32 :=
  keys.foldl (fun t key => t + key.2) t

/-- The characters of the table, with the letters in both cases. -/
def alphabet : Bytes :=
  ascii "0123456789ABCDEFGHIJKLMNOPQRSTUVWXYZabcdefghijklmnopqrstuvwxyz .,@#!"

/-- The run of presses that types the character. -/
def runOf (c : UInt8) : Run :=
  let lower := 97 ≤ c && c ≤ 122
  let cell := if lower then c - 32 else c
  let row := t9Rows.findIdx fun row => row.contains cell
  { digit := ⟨row % 10, Nat.mod_lt row (by decide)⟩
    presses := (t9Rows.getD row []).idxOf cell + 1
    upper := !lower }

/-- The keys of one run: the letter case if it is another one, and the presses. -/
def Run.keys (upper : Bool) (r : Run) : List (Key × UInt32) :=
  (if upper = r.upper then [] else [(.hash, 500)]) ++
    (.digit r.digit, 500) :: List.replicate (r.presses - 1) (.digit r.digit, 100)

/-- The keys of the runs, one after the other. -/
def keysOf : Bool → List Run → List (Key × UInt32)
  | _, [] => []
  | upper, r :: rs => r.keys upper ++ keysOf r.upper rs

/-! ## 1. One press -/

/-- A digit in `lastKey` has left a character. -/
def LastTyped (s : TextState) : Prop := ∀ d, s.lastKey = some (.digit d) → s.inputText ≠ []

theorem pressKey_digit {p : Press} {d : Fin 10} (hp : p.key = .digit d) (s : TextState) :
    (pressKey s p).inputText = (pressDigit s d p.time).inputText := by
  unfold pressKey
  rw [hp]

theorem cycles_iff {s : TextState} {p : Press} {d : Fin 10} (hp : p.key = .digit d) :
    Cycles s p ↔ s.lastKey = some (.digit d) ∧ p.time - s.lastPressTime < 500 := by
  unfold Cycles
  rw [hp]
  constructor
  · rintro ⟨e, he, hcycle⟩
    cases he
    exact hcycle
  · exact fun hcycle => ⟨d, rfl, hcycle⟩

/-- The last character of a text is replaced. -/
theorem set_last {text : Bytes} (h : text ≠ []) (c : UInt8) :
    text.set (text.length - 1) c = text.dropLast ++ [c] := by
  obtain ⟨init, last, rfl⟩ := List.eq_nil_or_concat text |>.resolve_left h
  simp

theorem pressKey_cycles {s : TextState} {p : Press} (h : Cycles s p) (hne : s.inputText ≠ []) :
    ∃ c, (pressKey s p).inputText = s.inputText.dropLast ++ [c] := by
  obtain ⟨d, hp, hcycle⟩ := h
  rw [pressKey_digit hp, pressDigit, if_pos hcycle]
  exact ⟨_, set_last hne _⟩

theorem pressKey_appends {s : TextState} {p : Press} {d : Fin 10} (hp : p.key = .digit d)
    (h : ¬ Cycles s p) : (pressKey s p).inputText = s.inputText ++ [digitChar d] := by
  rw [pressKey_digit hp, pressDigit, if_neg ((cycles_iff hp).not.mp h)]

theorem pressKey_other {s : TextState} {p : Press} (hp : ∀ d, p.key ≠ .digit d) :
    (pressKey s p).inputText = if p.key = .star then s.inputText.dropLast else s.inputText := by
  unfold pressKey
  cases hkey : p.key with
  | digit d => exact absurd hkey (hp d)
  | _ => rfl

theorem LastTyped.pressKey {s : TextState} (h : LastTyped s) (p : Press) :
    LastTyped (pressKey s p) := by
  intro d hd
  have hp : p.key = .digit d := Option.some_inj.mp hd
  by_cases hcycles : Cycles s p
  · obtain ⟨c, hc⟩ := pressKey_cycles hcycles (h d ((cycles_iff hp).mp hcycles).1)
    rw [hc]
    simp
  · rw [pressKey_appends hp hcycles]
    simp

/-- In a state of the loop a press edits the end of the text only. -/
theorem edits_end (s : TextState) (ps : List Press) (p : Press) :
    EditsEnd (Machine.run pressKey s.reset ps) p := by
  have hreset : LastTyped s.reset := fun d hd => by cases hd
  have hinv := Machine.invariant_run (I := LastTyped) (fun s p h => LastTyped.pressKey h p) hreset ps
  generalize Machine.run pressKey s.reset ps = t at hinv ⊢
  refine ⟨fun hcycles => ?_, fun d hp hcycles => pressKey_appends hp hcycles, fun hp hne => ?_,
    fun hdigit hstar => ?_⟩
  · obtain ⟨d, hp, hkey, htime⟩ := hcycles
    have hne : t.inputText ≠ [] := hinv d hkey
    obtain ⟨c, hc⟩ := pressKey_cycles ⟨d, hp, hkey, htime⟩ hne
    have hpos := List.length_pos_of_ne_nil hne
    refine ⟨hne, ?_, ?_⟩
    · rw [hc, List.length_append, List.length_dropLast, List.length_singleton]
      omega
    · rw [hc, List.dropLast_concat]
  · rw [pressKey_other (by rw [hp]; simp), if_pos hp]
    exact ⟨t.inputText.getLast hne, (List.dropLast_append_getLast hne).symm⟩
  · rw [pressKey_other hdigit]
    split_ifs with hp
    · rw [hstar hp]
      rfl
    · rfl

/-! ## 2. Two sessions -/

/-- Two states of the loop, the second `shift` milliseconds later, `same` if the
letter case is. The time of the last press counts only once there was one. -/
structure Alike (same : Bool) (shift : UInt32) (s t : TextState) : Prop where
  text : t.inputText = s.inputText.map (recase same)
  upper : t.uppercase = (s.uppercase == same)
  key : t.lastKey = s.lastKey
  index : t.keyIndex = s.keyIndex
  time : s.lastKey ≠ none → t.lastPressTime = s.lastPressTime + shift

theorem recase_digitChar (same : Bool) (d : Fin 10) : recase same (digitChar d) = digitChar d := by
  revert same d
  decide

/-- The table has no letter in lower case. -/
theorem recase_t9At (same upper : Bool) (d : Fin 10) (i : Nat) :
    recase same (letterCase upper (t9At d i)) = letterCase (upper == same) (t9At d i) := by
  have hcells : (0 :: t9Mapping).all (fun c => [true, false].all fun upper =>
      [true, false].all fun same =>
        recase same (letterCase upper c) == letterCase (upper == same) c) = true := by
    decide
  have hmem : t9At d i ∈ 0 :: t9Mapping := by
    unfold t9At
    rw [List.getD_eq_getElem?_getD]
    cases hcell : t9Mapping[6 * d.val + i]? with
    | none => exact List.mem_cons_self
    | some c => exact List.mem_cons_of_mem 0 (List.mem_of_getElem? hcell)
  have hall := List.all_eq_true.mp hcells _ hmem
  cases upper <;> cases same <;> simp_all

/-- Intervals do not depend on when the session began. -/
theorem later_sub_later (a b shift : UInt32) : (a + shift) - (b + shift) = a - b := by
  rw [UInt32.sub_eq_iff_eq_add, ← UInt32.add_assoc, UInt32.sub_add_cancel]

section alike

variable {same : Bool} {shift : UInt32} {s t : TextState}

/-- A digit takes the same branch in both. -/
theorem Alike.cycles_iff (h : Alike same shift s t) (d : Fin 10) (now : UInt32) :
    (t.lastKey = some (.digit d) ∧ now + shift - t.lastPressTime < 500) ↔
      s.lastKey = some (.digit d) ∧ now - s.lastPressTime < 500 := by
  rw [h.key]
  refine and_congr_right fun hkey => ?_
  rw [h.time (by rw [hkey]; exact Option.some_ne_none _), later_sub_later]

theorem Alike.pressDigit (h : Alike same shift s t) (d : Fin 10) (now : UInt32) :
    (pressDigit t d (now + shift)).inputText =
        (pressDigit s d now).inputText.map (recase same) ∧
      (pressDigit t d (now + shift)).keyIndex = (pressDigit s d now).keyIndex ∧
      (pressDigit t d (now + shift)).uppercase = ((pressDigit s d now).uppercase == same) := by
  unfold Handheld.pressDigit
  by_cases hcycles : s.lastKey = some (.digit d) ∧ now - s.lastPressTime < 500
  · rw [if_pos ((h.cycles_iff d now).mpr hcycles), if_pos hcycles, List.map_set, recase_t9At]
    simp only [h.text, h.upper, h.index, List.length_map, and_self]
  · rw [if_neg ((h.cycles_iff d now).not.mpr hcycles), if_neg hcycles, List.map_append,
      List.map_singleton, recase_digitChar]
    simp only [h.text, h.upper, and_self]

/-- The same key, `shift` milliseconds later. -/
theorem Alike.pressKey (h : Alike same shift s t) (p : Press) :
    Alike same shift (pressKey s p) (pressKey t (p.later shift)) := by
  unfold Handheld.pressKey Press.later
  cases p.key with
  | digit d =>
    obtain ⟨htext, hindex, hupper⟩ := h.pressDigit d p.time
    exact ⟨htext, hupper, rfl, hindex, fun _ => rfl⟩
  | star => exact ⟨by simp only [h.text, List.map_dropLast], h.upper, rfl, h.index, fun _ => rfl⟩
  | hash =>
    have hupper : (!t.uppercase) = ((!s.uppercase) == same) := by
      rw [h.upper]
      cases s.uppercase <;> cases same <;> rfl
    exact ⟨h.text, hupper, rfl, h.index, fun _ => rfl⟩
  | _ => exact ⟨h.text, h.upper, rfl, h.index, fun _ => rfl⟩

end alike

/-- What earlier sessions leave in the globals is not read but for the letter case. -/
theorem Alike.reset (shift : UInt32) (s t : TextState) :
    Alike (s.uppercase == t.uppercase) shift s.reset t.reset where
  text := rfl
  upper := by cases hs : s.uppercase <;> cases ht : t.uppercase <;> simp [TextState.reset, hs, ht]
  key := rfl
  index := rfl
  time h := absurd rfl h

theorem typedText_later (s t : TextState) (shift : UInt32) (ps : List Press) :
    typedText t (ps.map (Press.later shift)) =
      (typedText s ps).map (recase (s.uppercase == t.uppercase)) := by
  have hruns : Alike (s.uppercase == t.uppercase) shift (Machine.run pressKey s.reset ps)
      (Machine.run pressKey t.reset (ps.map (Press.later shift))) :=
    Machine.simulation_map (R := Alike (s.uppercase == t.uppercase) shift)
      (fun _ _ p h => Alike.pressKey h p) (Alike.reset shift s t) ps
  exact hruns.text

/-- Two sessions with the same keys, the second `shift` milliseconds later, return
the same text if they start in the same letter case, else the text with every
letter in the other case. -/
theorem sessions_agree (s₁ s₂ : TextState) (shift : UInt32) (ps : List Press)
    (h : ∀ p ∈ ps, Stays p) (t : UInt32) :
    ∃ text, (getTextInput s₁ (ps ++ [⟨.B, t⟩])).map Prod.fst = some text ∧
      (getTextInput s₂ ((ps ++ [(⟨.B, t⟩ : Press)]).map (Press.later shift))).map Prod.fst =
        some (if s₁.uppercase = s₂.uppercase then text else text.map swapCase) := by
  have hlater : ∀ p ∈ ps.map (Press.later shift), Stays p := by
    intro p hp
    obtain ⟨q, hq, rfl⟩ := List.mem_map.mp hp
    exact h q hq
  have hsecond : (getTextInput s₂ ((ps ++ [(⟨.B, t⟩ : Press)]).map (Press.later shift))).map Prod.fst =
      some (typedText s₂ (ps.map (Press.later shift))) := by
    rw [List.map_append, List.map_singleton]
    exact getTextInput_last hlater
  refine ⟨typedText s₁ ps, getTextInput_last h, ?_⟩
  rw [hsecond, typedText_later s₁ s₂, Option.some_inj]
  split_ifs with hupper
  · rw [beq_iff_eq.mpr hupper]
    exact List.map_id _
  · rw [beq_eq_false_iff_ne.mpr hupper]
    rfl

/-- '3' three times, '#' and '2' twice: the second session starts in the other
letter case, and the clock wraps around in it. -/
theorem sessions_agree_wrap :
    let ps : List Press := [⟨.digit 3, 0⟩, ⟨.digit 3, 100⟩, ⟨.digit 3, 200⟩, ⟨.hash, 300⟩,
      ⟨.digit 2, 400⟩, ⟨.digit 2, 500⟩]
    let left : TextState := ⟨ascii "ab", true, 7, some (.digit 3), 2⟩
    (getTextInput .boot (ps ++ [⟨.B, 600⟩])).map Prod.fst = some (ascii "eA") ∧
      ∃ text, (getTextInput .boot (ps ++ [⟨.B, 600⟩])).map Prod.fst = some text ∧
        (getTextInput left ((ps ++ [(⟨.B, 600⟩ : Press)]).map (Press.later 4294967100))).map
          Prod.fst = some (if TextState.boot.uppercase = left.uppercase then text
            else text.map swapCase) := by
  intro ps left
  exact ⟨by decide, sessions_agree .boot left 4294967100 ps (by decide) 600⟩

/-! ## 3. Typing a text -/

theorem timed_append (t : UInt32) (keys keys' : List (Key × UInt32)) :
    timed t (keys ++ keys') = timed t keys ++ timed (clockAfter t keys) keys' := by
  induction keys generalizing t with
  | nil => rfl
  | cons key keys ih => exact congrArg _ (ih (t + key.2))

theorem clockAfter_append (t : UInt32) (keys keys' : List (Key × UInt32)) :
    clockAfter t (keys ++ keys') = clockAfter (clockAfter t keys) keys' :=
  List.foldl_append

theorem length_timed (t : UInt32) (keys : List (Key × UInt32)) :
    (timed t keys).length = keys.length := by
  induction keys generalizing t with
  | nil => rfl
  | cons key keys ih => exact congrArg (· + 1) (ih (t + key.2))

/-- The last of the presses is at the end of the time. -/
theorem time_of_getLast (t : UInt32) (keys : List (Key × UInt32)) :
    ∀ q ∈ (timed t keys).getLast?, q.time = clockAfter t keys := by
  induction keys generalizing t with
  | nil => exact fun q hq => by cases hq
  | cons key keys ih =>
    intro q hq
    cases keys with
    | nil =>
      cases hq
      rfl
    | cons key' keys => exact ih (t + key.2) q (by simpa [timed] using hq)

/-- The presses of a run follow each other fast enough. -/
theorem isChain_run (d : Fin 10) (gap : UInt32) (n : Nat) (t : UInt32) :
    (timed t ((.digit d, gap) :: List.replicate n (.digit d, 100))).IsChain
      fun p q => continues p q := by
  induction n generalizing t gap with
  | zero => exact List.isChain_singleton _
  | succ n ih =>
    have hnext : continues ⟨.digit d, t + gap⟩ ⟨.digit d, t + gap + 100⟩ = true := by
      rw [continues_digit rfl, UInt32.add_comm (t + gap), UInt32.add_sub_cancel]
      exact ⟨rfl, by decide⟩
    exact List.isChain_cons_cons.mpr ⟨hnext, ih 100 (t + gap)⟩

/-- The loop has typed the runs `st.1`, and its last press, if any, was at `t`. -/
def TypedBy (t : UInt32) (st : List Run × Bool) (s : TextState) : Prop :=
  ∃ last, Tracks st last s ∧ ∀ q ∈ last, q.time = t

section typing

variable {t : UInt32} {s : TextState} {rs : List Run} {upper : Bool}

theorem typedBy_reset (t : UInt32) (s : TextState) : TypedBy t ([], s.uppercase) s.reset :=
  ⟨none, ⟨rfl, rfl, rfl, by simp⟩, by simp⟩

/-- '#', if the letter case is another one. -/
theorem TypedBy.shift (h : TypedBy t (rs, upper) s) (upper' : Bool) :
    let keys := if upper = upper' then [] else [(Key.hash, 500)]
    TypedBy (clockAfter t keys) (rs, upper') (Machine.run pressKey s (timed t keys)) := by
  intro keys
  by_cases hsame : upper = upper'
  · have hkeys : keys = [] := if_pos hsame
    rw [hkeys, ← hsame]
    exact h
  · obtain ⟨last, htracks, -⟩ := h
    have hkeys : keys = [(Key.hash, 500)] := if_neg hsame
    have hother : (!upper) = upper' := (Bool.eq_not_of_ne (Ne.symm hsame)).symm
    have hhash : Tracks (applyRun (rs, upper) [⟨.hash, t + 500⟩]) (some ⟨.hash, t + 500⟩)
        (pressKey s ⟨.hash, t + 500⟩) :=
      htracks.other (by simp)
    rw [hkeys, ← hother]
    refine ⟨_, hhash, fun q hq => ?_⟩
    cases hq
    rfl

/-- The presses of one run, half a second after the key before it. -/
theorem TypedBy.presses {r : Run} (h : TypedBy t (rs, r.upper) s) (hr : 1 ≤ r.presses) :
    let keys := (Key.digit r.digit, 500) :: List.replicate (r.presses - 1) (.digit r.digit, 100)
    TypedBy (clockAfter t keys) (rs ++ [r], r.upper) (Machine.run pressKey s (timed t keys)) := by
  intro keys
  obtain ⟨last, htracks, htime⟩ := h
  have hfresh : ∀ q ∈ last, continues q ⟨.digit r.digit, t + 500⟩ = false := by
    intro q hq
    unfold continues
    cases q.key with
    | digit d =>
      rw [htime q hq, UInt32.add_comm, UInt32.add_sub_cancel]
      simp
    | _ => rfl
  have hrun := htracks.run hfresh (isChain_run r.digit 500 (r.presses - 1) t)
  have hlength : (timed t keys).length = r.presses := by
    rw [length_timed, List.length_cons, List.length_replicate]
    omega
  have happly : applyRun (rs, r.upper) (timed t keys) = (rs ++ [r], r.upper) := by
    show (rs ++ [⟨r.digit, (timed t keys).length, r.upper⟩], r.upper) = _
    rw [hlength]
  rw [← happly]
  exact ⟨_, hrun, time_of_getLast t keys⟩

/-- All runs, one after the other. -/
theorem TypedBy.keysOf {rs' : List Run} (h : TypedBy t (rs, upper) s)
    (hrs : ∀ r ∈ rs', 1 ≤ r.presses) :
    ∃ upper', TypedBy (clockAfter t (keysOf upper rs')) (rs ++ rs', upper')
      (Machine.run pressKey s (timed t (keysOf upper rs'))) := by
  induction rs' generalizing t s rs upper with
  | nil =>
    rw [List.append_nil]
    exact ⟨upper, h⟩
  | cons r rs' ih =>
    have hkeys := (h.shift r.upper).presses (hrs r List.mem_cons_self)
    obtain ⟨upper', hrest⟩ := ih hkeys fun r' hr' => hrs r' (List.mem_cons_of_mem r hr')
    refine ⟨upper', ?_⟩
    rw [Handheld.keysOf, Run.keys]
    simp only [timed_append, clockAfter_append, Machine.run_append]
    rw [List.append_assoc] at hrest
    exact hrest

end typing

/-- What is known of every character of the table. -/
theorem runOf_alphabet {c : UInt8} (h : c ∈ alphabet) :
    (runOf c).typed = c ∧ 1 ≤ (runOf c).presses := by
  have hall : alphabet.all (fun c => (runOf c).typed == c && decide (1 ≤ (runOf c).presses)) = true := by
    decide +kernel
  simpa using List.all_eq_true.mp hall c h

theorem stays_timed {keys : List (Key × UInt32)} (h : ∀ key ∈ keys, key.1 ≠ .B ∧ key.1 ≠ .D)
    (t : UInt32) : ∀ p ∈ timed t keys, Stays p := by
  induction keys generalizing t with
  | nil => exact fun p hp => by cases hp
  | cons key keys ih =>
    intro p hp
    rcases List.mem_cons.mp hp with rfl | hp
    · exact h key List.mem_cons_self
    · exact ih (fun key' hkey' => h key' (List.mem_cons_of_mem key hkey')) (t + key.2) p hp

/-- Digits and '#' only, none sooner than a tenth of a second after the last. -/
theorem keysOf_keys {rs : List Run} {upper : Bool} :
    ∀ key ∈ keysOf upper rs, (key.1 = .hash ∨ ∃ d, key.1 = .digit d) ∧ 100 ≤ key.2 := by
  induction rs generalizing upper with
  | nil => exact fun key hkey => by cases hkey
  | cons r rs ih =>
    intro key hkey
    simp only [keysOf, Run.keys, List.mem_append, List.mem_cons] at hkey
    rcases hkey with (hhash | rfl | hagain) | hrest
    · split at hhash
      · cases hhash
      · rw [List.mem_singleton.mp hhash]
        exact ⟨.inl rfl, by decide⟩
    · exact ⟨.inr ⟨r.digit, rfl⟩, (by decide : (100 : UInt32) ≤ 500)⟩
    · rw [List.eq_of_mem_replicate hagain]
      exact ⟨.inr ⟨r.digit, rfl⟩, UInt32.le_refl 100⟩
    · exact ih key hrest

/-- Every text over the characters of the table can be typed, from any state and
at any time, without two keys in less than a tenth of a second. -/
theorem every_text_typed {text : Bytes} (h : ∀ c ∈ text, c ∈ alphabet) (s : TextState) :
    ∃ keys : List (Key × UInt32), (∀ key ∈ keys, 100 ≤ key.2) ∧ ∀ start,
      (getTextInput s (timed start (keys ++ [(.B, 100)]))).map Prod.fst = some text := by
  have hpresses : ∀ r ∈ text.map runOf, 1 ≤ r.presses := by
    intro r hr
    obtain ⟨c, hc, rfl⟩ := List.mem_map.mp hr
    exact (runOf_alphabet (h c hc)).2
  have htyped : (text.map runOf).map Run.typed = text := by
    rw [List.map_map]
    exact (List.map_congr_left fun c hc => (runOf_alphabet (h c hc)).1).trans text.map_id
  refine ⟨keysOf s.uppercase (text.map runOf), fun key hkey => (keysOf_keys key hkey).2,
    fun start => ?_⟩
  obtain ⟨_, _, htracks, -⟩ := (typedBy_reset start s).keysOf hpresses
  have hstays : ∀ p ∈ timed start (keysOf s.uppercase (text.map runOf)), Stays p := by
    refine stays_timed (fun key hkey => ?_) start
    rcases (keysOf_keys key hkey).1 with hkey | ⟨d, hkey⟩ <;> rw [hkey] <;> simp
  rw [timed_append]
  refine (getTextInput_last hstays).trans (congrArg some ?_)
  rw [typedText, htracks.text, List.nil_append, htyped]

/-- A name with a double letter, two letters of one key and both letter cases. -/
theorem every_text_typed_abba :
    ∃ keys : List (Key × UInt32), (∀ key ∈ keys, 100 ≤ key.2) ∧ ∀ start,
      (getTextInput .boot (timed start (keys ++ [(.B, 100)]))).map Prod.fst =
        some (ascii "Abba @ 1!") := by
  have hall : (ascii "Abba @ 1!").all alphabet.contains = true := by decide
  exact every_text_typed (fun c hc => List.contains_iff_mem.mp (List.all_eq_true.mp hall c hc)) .boot

end Handheld
