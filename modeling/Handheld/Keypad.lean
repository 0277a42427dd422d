import Mathlib.Data.List.SplitBy
import Handheld.Machine
import Handheld.ByteString

/-!
# Multi-tap text entry (`SettingKeypad.h`)

`getTextInput` reads the keypad until 'B' or 'D' and edits a global text: a
digit typed again within 500 ms cycles the last character through the row
`t9Mapping` has for the digit, `*` deletes, `#` toggles the letter case.

The cycle length comes from `strlen` over a row of a fixed `10 x 6` table. The
row of '1' fills all six bytes, so its `strlen` runs on into the row of '2':
`t9Strlen_one`.

The reference editor (`referenceText`) splits the presses into maximal runs and
lets every run contribute one character.

Results:
1. `getTextInput_eq_typed`: the loop computes the surviving runs and types each
   with the cell its own table arithmetic reaches.
2. `getTextInput_eq_reference_iff`: that is the reference text exactly when no
   surviving run of '1' has left the first six cells of its cycle.
-/

namespace Handheld

open ByteString

/-! ## Definitions -/

/-- The keys of the 4x4 matrix (`keys`). -/
inductive Key
  | digit (d : Fin 10)
  | A
  | B
  | C
  | D
  | star
  | hash
deriving DecidableEq, Repr

/-- A key reported by `keypad.getKey()` and the `millis()` read right after it. -/
structure Press where
  key : Key
  time : UInt32
deriving DecidableEq, Repr

/-- The initialisers of the rows of `t9Mapping`. -/
def t9Rows : List Bytes :=
  [ascii "0 ", ascii "1.,@#!", ascii "2ABC", ascii "3DEF", ascii "4GHI", ascii "5JKL",
   ascii "6MNO", ascii "7PQRS", ascii "8TUV", ascii "9WXYZ"]

/-- `const char t9Mapping[10][6]` as it lies in memory: each row padded with NUL
to six bytes, the rows one after the other. -/
def t9Mapping : Bytes := t9Rows.flatMap fun row => row ++ List.replicate (6 - row.length) 0

/-- `strlen(t9Mapping[d])`: the bytes from the start of row `d` to the next NUL,
whichever row that NUL is in. -/
def t9Strlen (d : Fin 10) : Nat := (cstr (t9Mapping.drop (6 * d))).length

/-- `t9Mapping[d][i]`. -/
def t9At (d : Fin 10) (i : Nat) : UInt8 := t9Mapping.getD (6 * d + i) 0

/-- The globals of the text entry. `lastKey` is `none` for `'\0'`. -/
structure TextState where
  inputText : Bytes
  uppercase : Bool
  lastPressTime : UInt32
  lastKey : Option Key
  keyIndex : Nat
deriving DecidableEq, Repr

/-- The globals as initialised at start-up. -/
def TextState.boot : TextState := ⟨[], false, 0, none, 0⟩

/-- The character a digit key appends. -/
def digitChar (d : Fin 10) : UInt8 := '0'.toUInt8 + UInt8.ofNat d

/-- `uppercase ? c : tolower(c)`. -/
def letterCase (uppercase : Bool) (c : UInt8) : UInt8 := if uppercase then c else toLower c

/-- The branch of the loop for a digit key. -/
def pressDigit (s : TextState) (d : Fin 10) (currentTime : UInt32) : TextState :=
  if s.lastKey = some (.digit d) ∧ currentTime - s.lastPressTime < 500 then
    let keyIndex := (s.keyIndex + 1) % t9Strlen d
    { s with
      keyIndex := keyIndex
      inputText := s.inputText.set (s.inputText.length - 1) (letterCase s.uppercase (t9At d keyIndex)) }
  else
    { s with inputText := s.inputText ++ [digitChar d], keyIndex := 0 }

/-- One turn of the loop for a key that stays in it. -/
def pressKey (s : TextState) (p : Press) : TextState :=
  let s' := match p.key with
    | .digit d => pressDigit s d p.time
    | .star => { s with inputText := s.inputText.dropLast }
    | .hash => { s with uppercase := !s.uppercase }
    | _ => s
  { s' with lastKey := some p.key, lastPressTime := p.time }

/-- The `while (true)` loop: the returned text, the globals it leaves and the
presses not read; `none` if the presses end before 'B' or 'D'. -/
def textLoop : TextState → List Press → Option (Bytes × TextState × List Press)
  | _, [] => none
  | s, p :: ps =>
    match p.key with
    | .B => some (s.inputText, s, ps)
    | .D => some (ascii "EXIT", s, ps)
    | _ => textLoop (pressKey s p) ps

/-- The three assignments at the start of `getTextInput`. -/
def TextState.reset (s : TextState) : TextState :=
  { s with inputText := [], lastKey := none, keyIndex := 0 }

def getTextInput (s : TextState) (ps : List Press) : Option (Bytes × TextState × List Press) :=
  textLoop s.reset ps

/-! ## The reference editor -/

/-- `q` goes on with the run of `p`: the same digit again, less than 500 ms
later modulo `2^32`. -/
def continues (p q : Press) : Bool :=
  match p.key with
  | .digit d => q.key == .digit d && q.time - p.time < 500
  | _ => false

/-- The presses, split into maximal runs. -/
def runs (ps : List Press) : List (List Press) := ps.splitBy continues

/-- A run of `presses` presses of `digit`, in the letter case in force. -/
structure Run where
  digit : Fin 10
  presses : Nat
  upper : Bool
deriving DecidableEq, Repr

/-- One maximal run edits the list of runs whose characters are in the text. -/
def applyRun (st : List Run × Bool) (g : List Press) : List Run × Bool :=
  match g with
  | [] => st
  | p :: _ =>
    match p.key with
    | .digit d => (st.1 ++ [⟨d, g.length, st.2⟩], st.2)
    | .star => (st.1.dropLast, st.2)
    | .hash => (st.1, !st.2)
    | _ => st

/-- The runs whose character is still in the text after all presses. -/
def survivingRuns (upper : Bool) (ps : List Press) : List Run :=
  ((runs ps).foldl applyRun ([], upper)).1

/-- The characters written for a digit in `t9Mapping`. -/
def symbols (d : Fin 10) : Bytes := t9Rows.getD d []

/-- The character a run of `m` presses contributes: number `m - 1` of its row,
cyclically. -/
def Run.symbol (r : Run) : UInt8 :=
  letterCase r.upper ((symbols r.digit).getD ((r.presses - 1) % (symbols r.digit).length) 0)

/-- The text of the reference editor. -/
def referenceText (upper : Bool) (ps : List Press) : Bytes :=
  (survivingRuns upper ps).map Run.symbol

/-! ## The table -/

theorem t9Strlen_one : t9Strlen 1 = 10 := by decide

theorem t9Strlen_pos (d : Fin 10) : 0 < t9Strlen d := by
  revert d
  decide

/-- The character the loop has written after `m` presses of a run. -/
def Run.typed (r : Run) : UInt8 :=
  letterCase r.upper (t9At r.digit ((r.presses - 1) % t9Strlen r.digit))

theorem typed_first (d : Fin 10) (u : Bool) : Run.typed ⟨d, 1, u⟩ = digitChar d := by
  revert d u
  decide

/-- On every row but that of '1' the table arithmetic stays in the row. -/
theorem typed_eq_symbol_of_ne_one {r : Run} (h : r.digit ≠ 1) : r.typed = r.symbol := by
  obtain ⟨d, m, u⟩ := r
  have hlen : ∀ d : Fin 10, d ≠ 1 → t9Strlen d = (symbols d).length := by decide
  have hcell : ∀ d : Fin 10, d ≠ 1 → ∀ i < (symbols d).length, t9At d i = (symbols d).getD i 0 := by
    decide
  simp only [Run.typed, Run.symbol, hlen d h]
  have hpos : 0 < (symbols d).length := hlen d h ▸ t9Strlen_pos d
  rw [hcell d h _ (Nat.mod_lt _ hpos)]

/-- On the row of '1' the loop cycles through ten cells, the reference through
six; they agree only while both are in the same place of the row. -/
theorem typed_one_eq_symbol_iff (m : Nat) (u : Bool) :
    Run.typed ⟨1, m, u⟩ = Run.symbol ⟨1, m, u⟩ ↔ (m - 1) % 30 < 6 := by
  have hten : (m - 1) % 10 = (m - 1) % 30 % 10 := by omega
  have hsix : (m - 1) % 6 = (m - 1) % 30 % 6 := by omega
  have hcells : ∀ k < 30, ∀ u : Bool,
      (letterCase u (t9At 1 (k % 10)) = letterCase u ((symbols 1).getD (k % 6) 0) ↔ k < 6) := by
    decide
  have hlen : (symbols 1).length = 6 := by decide
  simp only [Run.typed, Run.symbol, t9Strlen_one, hlen]
  rw [hten, hsix]
  exact hcells _ (Nat.mod_lt _ (by decide)) u

theorem typed_eq_symbol_iff (r : Run) :
    r.typed = r.symbol ↔ (r.digit = 1 → (r.presses - 1) % 30 < 6) := by
  by_cases h : r.digit = 1
  · obtain ⟨d, m, u⟩ := r
    obtain rfl : d = 1 := h
    simp [typed_one_eq_symbol_iff]
  · simp [h, typed_eq_symbol_of_ne_one]

/-! ## 1. What the loop types -/

/-- The state of the loop in the middle of a run of `m` presses of `d` whose
last press is `p`, typed after the text `before`. -/
structure InRun (before : Bytes) (d : Fin 10) (m : Nat) (p : Press) (s : TextState) : Prop where
  started : 1 ≤ m
  text : s.inputText = before ++ [Run.typed ⟨d, m, s.uppercase⟩]
  key : s.lastKey = some (.digit d)
  time : s.lastPressTime = p.time
  index : s.keyIndex = (m - 1) % t9Strlen d

theorem continues_digit {p q : Press} {d : Fin 10} (hp : p.key = .digit d) :
    continues p q = true ↔ q.key = .digit d ∧ q.time - p.time < 500 := by
  simp [continues, hp]

@[simp] theorem pressKey_lastKey (s : TextState) (p : Press) :
    (pressKey s p).lastKey = some p.key := rfl

@[simp] theorem pressKey_lastPressTime (s : TextState) (p : Press) :
    (pressKey s p).lastPressTime = p.time := rfl

/-- A press that continues the run replaces the last character by the next of the cycle. -/
theorem InRun.next {before : Bytes} {d : Fin 10} {m : Nat} {p q : Press} {s : TextState}
    (h : InRun before d m p s) (hp : p.key = .digit d) (hq : continues p q = true) :
    InRun before d (m + 1) q (pressKey s q) ∧ (pressKey s q).uppercase = s.uppercase := by
  obtain ⟨hkey, htime⟩ := (continues_digit hp).mp hq
  have hcycle : s.lastKey = some (.digit d) ∧ q.time - s.lastPressTime < 500 := by
    rw [h.time]
    exact ⟨h.key, htime⟩
  have hindex : (s.keyIndex + 1) % t9Strlen d = m % t9Strlen d := by
    have hm : m - 1 + 1 = m := Nat.sub_add_cancel h.started
    rw [h.index, Nat.mod_add_mod, hm]
  have hpress : pressKey s q =
      { s with
        keyIndex := m % t9Strlen d
        inputText := before ++ [Run.typed ⟨d, m + 1, s.uppercase⟩]
        lastKey := some (.digit d)
        lastPressTime := q.time } := by
    simp [pressKey, hkey, pressDigit, hcycle, hindex, h.text, Run.typed]
  rw [hpress]
  exact ⟨⟨by omega, rfl, rfl, rfl, by simp⟩, rfl⟩

/-- The rest of a run, from any place in it. -/
theorem InRun.rest {before : Bytes} {d : Fin 10} {rest : List Press} :
    ∀ {m : Nat} {p : Press} {s : TextState}, InRun before d m p s → p.key = .digit d →
      (p :: rest).IsChain (fun x y => continues x y) →
      ∃ q, (p :: rest).getLast? = some q ∧ q.key = .digit d ∧
        InRun before d (m + rest.length) q (Machine.run pressKey s rest) ∧
        (Machine.run pressKey s rest).uppercase = s.uppercase := by
  induction rest with
  | nil =>
    intro m p s h hp _
    exact ⟨p, rfl, hp, h, rfl⟩
  | cons q rest ih =>
    intro m p s h hp hchain
    rw [List.isChain_cons_cons] at hchain
    obtain ⟨hnext, hupper⟩ := h.next hp hchain.1
    have hq : q.key = .digit d := ((continues_digit hp).mp hchain.1).1
    obtain ⟨r, hlast, hr, hrun, hu⟩ := ih hnext hq hchain.2
    refine ⟨r, by simpa using hlast, hr, ?_, by rw [Machine.run_cons, hu, hupper]⟩
    rw [Machine.run_cons, List.length_cons, Nat.add_comm rest.length 1, ← Nat.add_assoc]
    exact hrun

/-- The text of the loop is that of the runs `st.1`, the letter case is `st.2`,
and the loop remembers the press `prev`. -/
structure Tracks (st : List Run × Bool) (prev : Option Press) (s : TextState) : Prop where
  text : s.inputText = st.1.map Run.typed
  upper : s.uppercase = st.2
  key : s.lastKey = prev.map Press.key
  time : ∀ q ∈ prev, s.lastPressTime = q.time

/-- A digit that does not continue the previous press starts a new character. -/
theorem pressKey_fresh_digit {s : TextState} {prev : Option Press} {p : Press} {d : Fin 10}
    {st : List Run × Bool} (h : Tracks st prev s) (hp : p.key = .digit d)
    (hfresh : ∀ q ∈ prev, continues q p = false) :
    InRun s.inputText d 1 p (pressKey s p) ∧ (pressKey s p).uppercase = s.uppercase := by
  have hnew : ¬ (s.lastKey = some (.digit d) ∧ p.time - s.lastPressTime < 500) := by
    rintro ⟨hkey, htime⟩
    rw [h.key] at hkey
    obtain ⟨q, hq, hqd⟩ := Option.map_eq_some_iff.mp hkey
    have hcont : continues q p = true := (continues_digit hqd).mpr ⟨hp, h.time q hq ▸ htime⟩
    exact absurd hcont (by simp [hfresh q hq])
  have hpress : pressKey s p =
      { s with
        inputText := s.inputText ++ [digitChar d]
        keyIndex := 0
        lastKey := some (.digit d)
        lastPressTime := p.time } := by
    simp only [pressKey, hp, pressDigit, if_neg hnew]
  rw [hpress]
  exact ⟨⟨Nat.le_refl 1, by rw [typed_first], rfl, rfl, rfl⟩, rfl⟩

/-- A key that is no digit ends the run and is a run of its own. -/
theorem Tracks.other {st : List Run × Bool} {prev : Option Press} {s : TextState} {p : Press}
    (h : Tracks st prev s) (hp : ∀ d, p.key ≠ .digit d) :
    Tracks (applyRun st [p]) (some p) (pressKey s p) := by
  obtain ⟨htext, hupper, -, -⟩ := h
  refine ⟨?_, ?_, rfl, by simp⟩
  · cases hk : p.key with
    | digit d => exact absurd hk (hp d)
    | _ => simp [pressKey, applyRun, hk, htext, List.map_dropLast]
  · cases hk : p.key with
    | digit d => exact absurd hk (hp d)
    | _ => simp [pressKey, applyRun, hk, hupper]

/-- One maximal run. -/
theorem Tracks.run {st : List Run × Bool} {prev : Option Press} {s : TextState} {p : Press}
    {rest : List Press} (h : Tracks st prev s) (hfresh : ∀ q ∈ prev, continues q p = false)
    (hchain : (p :: rest).IsChain (fun x y => continues x y)) :
    Tracks (applyRun st (p :: rest)) ((p :: rest).getLast?) (Machine.run pressKey s (p :: rest)) := by
  cases hk : p.key with
  | digit d =>
    obtain ⟨hfirst, hu⟩ := pressKey_fresh_digit h hk hfresh
    obtain ⟨q, hlast, hq, hrun, hu'⟩ := hfirst.rest hk hchain
    rw [hlast, Machine.run_cons]
    refine ⟨?_, ?_, by rw [hrun.key, Option.map_some, hq], by simp [hrun.time]⟩
    · rw [hrun.text, hu', hu, h.text, h.upper]
      simp [applyRun, hk, Nat.add_comm]
    · simp [applyRun, hk, hu', hu, h.upper]
  | _ =>
    -- only a digit is continued, so the run is this one press
    have hrest : rest = [] := by
      cases rest with
      | nil => rfl
      | cons q rest =>
        rw [List.isChain_cons_cons] at hchain
        simp [continues, hk] at hchain
    subst hrest
    exact h.other (by simp [hk])

/-- All runs, one after the other. -/
theorem Tracks.runs {gs : List (List Press)} :
    ∀ {st : List Run × Bool} {prev : Option Press} {s : TextState}, Tracks st prev s →
      [] ∉ gs → (∀ g ∈ gs, g.IsChain fun x y => continues x y) →
      (gs.IsChain fun a b => ∃ ha hb, continues (a.getLast ha) (b.head hb) = false) →
      (∀ q ∈ prev, ∀ g ∈ gs.head?, ∀ p ∈ g.head?, continues q p = false) →
      ∃ last, Tracks (gs.foldl applyRun st) last (Machine.run pressKey s gs.flatten) := by
  induction gs with
  | nil =>
    intro st prev s h _ _ _ _
    exact ⟨prev, h⟩
  | cons g gs ih =>
    intro st prev s h hne hchain hsep hprev
    obtain ⟨p, rest, rfl⟩ : ∃ p rest, g = p :: rest := by
      cases g with
      | nil => simp at hne
      | cons p rest => exact ⟨p, rest, rfl⟩
    have hg := h.run (hprev · · _ rfl p rfl) (hchain _ List.mem_cons_self)
    rw [List.flatten_cons, Machine.run_append, List.foldl_cons]
    refine ih hg (fun hmem => hne (List.mem_cons_of_mem _ hmem))
      (fun g' hg' => hchain g' (List.mem_cons_of_mem _ hg')) hsep.tail ?_
    intro q hq g' hg' p' hp'
    rw [List.isChain_cons] at hsep
    obtain ⟨ha, hb, hsep⟩ := hsep.1 g' hg'
    rwa [List.getLast_of_mem_getLast? hq, List.head_of_mem_head? hp'] at hsep

/-- The keys that do not leave the loop. -/
def Stays (p : Press) : Prop := p.key ≠ .B ∧ p.key ≠ .D

instance (p : Press) : Decidable (Stays p) := inferInstanceAs (Decidable (_ ∧ _))

theorem textLoop_append {ps : List Press} (h : ∀ p ∈ ps, Stays p) (s : TextState) (qs : List Press) :
    textLoop s (ps ++ qs) = textLoop (Machine.run pressKey s ps) qs := by
  induction ps generalizing s with
  | nil => rfl
  | cons p ps ih =>
    have hp : Stays p := h p List.mem_cons_self
    have hloop : textLoop s (p :: (ps ++ qs)) = textLoop (pressKey s p) (ps ++ qs) := by
      rw [textLoop]
      split
      · next hB => exact absurd hB hp.1
      · next hD => exact absurd hD hp.2
      · rfl
    rw [List.cons_append, hloop, Machine.run_cons, ih fun q hq => h q (List.mem_cons_of_mem _ hq)]

/-- The text returned on 'B' is that of the surviving runs, each typed with the
cell the table arithmetic of the loop reaches. -/
theorem getTextInput_eq_typed (s : TextState) {ps : List Press} (h : ∀ p ∈ ps, Stays p)
    (t : UInt32) (qs : List Press) :
    (getTextInput s (ps ++ ⟨.B, t⟩ :: qs)).map Prod.fst =
      some ((survivingRuns s.uppercase ps).map Run.typed) := by
  have hstart : Tracks ([], s.uppercase) none s.reset := ⟨rfl, rfl, rfl, by simp⟩
  obtain ⟨last, htracks⟩ : ∃ last, Tracks ((runs ps).foldl applyRun ([], s.uppercase)) last
      (Machine.run pressKey s.reset (runs ps).flatten) :=
    hstart.runs (List.nil_notMem_splitBy _ _) (fun g hg => List.isChain_of_mem_splitBy hg)
      (List.isChain_getLast_head_splitBy _ _) (by simp)
  rw [runs, List.flatten_splitBy] at htracks
  rw [getTextInput, textLoop_append h]
  simp only [textLoop, Option.map_some, htracks.text]
  rfl

/-! ## 2. Agreement with the reference -/

/-- `getTextInput` returns the reference text exactly when every surviving run
of '1' ends in the first six cells of its ten-cell cycle, and where the cycle
of six is in the same place. -/
theorem getTextInput_eq_reference_iff (s : TextState) (ps : List Press) (h : ∀ p ∈ ps, Stays p)
    (t : UInt32) :
    (getTextInput s (ps ++ [⟨.B, t⟩])).map Prod.fst = some (referenceText s.uppercase ps) ↔
      ∀ r ∈ survivingRuns s.uppercase ps, r.digit = 1 → (r.presses - 1) % 30 < 6 := by
  rw [getTextInput_eq_typed s h t [], Option.some_inj, referenceText, List.map_inj_left]
  simp only [typed_eq_symbol_iff]

/-- '2' twice, then '3' and a delete: no run of '1' is involved. -/
theorem getTextInput_eq_reference_b :
    (getTextInput .boot ([⟨.digit 2, 0⟩, ⟨.digit 2, 100⟩, ⟨.digit 3, 200⟩, ⟨.star, 300⟩] ++
        [⟨.B, 400⟩])).map Prod.fst =
      some (referenceText false
        [⟨.digit 2, 0⟩, ⟨.digit 2, 100⟩, ⟨.digit 3, 200⟩, ⟨.star, 300⟩]) :=
  (getTextInput_eq_reference_iff .boot _ (by decide) 400).mpr (by decide)

/-- Seven quick presses of '1'. -/
def sevenOnes : List Press :=
  [⟨.digit 1, 0⟩, ⟨.digit 1, 100⟩, ⟨.digit 1, 200⟩, ⟨.digit 1, 300⟩, ⟨.digit 1, 400⟩,
   ⟨.digit 1, 500⟩, ⟨.digit 1, 600⟩]

/-- The seventh press of '1' writes the '2' of the next row, where the reference
is back at '1'. -/
theorem getTextInput_ne_reference :
    ¬ ∀ (s : TextState) (ps : List Press) (t : UInt32), (∀ p ∈ ps, Stays p) →
      (getTextInput s (ps ++ [⟨.B, t⟩])).map Prod.fst = some (referenceText s.uppercase ps) := by
  intro h
  have hseven := h .boot sevenOnes 700 (by decide)
  have htyped : (getTextInput .boot (sevenOnes ++ [⟨.B, 700⟩])).map Prod.fst = some (ascii "2") := by
    decide
  have href : referenceText false sevenOnes = ascii "1" := by decide
  rw [htyped, TextState.boot, href] at hseven
  exact absurd hseven (by decide)

end Handheld
