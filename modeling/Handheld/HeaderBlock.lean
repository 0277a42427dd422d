import Handheld.ByteString

/-!
# Head lines

Lines that end with CR LF, an empty one behind them, and `name: value` fields.

Results: `readLines_lines`, `readField_field`. Lines and fields are read back.
-/

namespace HeaderBlock

open ByteString

/-! ## Definitions -/

def cr : UInt8 := 13
def lf : UInt8 := 10
def colon : UInt8 := 58
def blank : UInt8 := 32

def crlf : Bytes := [cr, lf]

/-- What is behind a line end. -/
def pastLineEnd : Bytes → Option Bytes
  | c :: d :: rest => if c = cr ∧ d = lf then some rest else none
  | _ => none

/-- A line, and what is behind its end. -/
def readLine (s : Bytes) : Option (Bytes × Bytes) :=
  (pastLineEnd (s.dropWhile (· ≠ cr))).map ((s.takeWhile (· ≠ cr), ·))

/-- Lines and the empty line. -/
def lines (texts : List Bytes) : Bytes := texts.flatMap (· ++ crlf) ++ crlf

/-- The lines up to the empty one, and what is behind it. -/
def readLines : Nat → Bytes → Option (List Bytes × Bytes)
  | 0, _ => none
  | fuel + 1, s =>
    match readLine s with
    | none => none
    | some ([], rest) => some ([], rest)
    | some (line, rest) => (readLines fuel rest).map fun read => (line :: read.1, read.2)

def field (name value : Bytes) : Bytes := name ++ colon :: blank :: value

def readField (line : Bytes) : Option (Bytes × Bytes) :=
  match line.dropWhile (· ≠ colon) with
  | _ :: b :: value => if b = blank then some (line.takeWhile (· ≠ colon), value) else none
  | _ => none

/-! ## Reading back -/

variable {line name value rest : Bytes}

theorem takeWhile_ne {c : UInt8} (h : c ∉ line) (rest : Bytes) :
    (line ++ c :: rest).takeWhile (· ≠ c) = line ∧ (line ++ c :: rest).dropWhile (· ≠ c) = c :: rest := by
  have hall : ∀ b ∈ line, (decide (b ≠ c)) = true := fun b hb => decide_eq_true fun heq => h (heq ▸ hb)
  constructor
  · rw [List.takeWhile_append_of_pos hall, List.takeWhile_cons_of_neg (by simp), List.append_nil]
  · rw [List.dropWhile_append_of_pos hall, List.dropWhile_cons_of_neg (by simp)]

@[simp] theorem pastLineEnd_crlf (rest : Bytes) : pastLineEnd (crlf ++ rest) = some rest := rfl

theorem readLine_crlf (h : cr ∉ line) (rest : Bytes) : readLine (line ++ (crlf ++ rest)) = some (line, rest) := by
  obtain ⟨htake, hdrop⟩ := takeWhile_ne h (lf :: rest)
  have hsplit : line ++ (crlf ++ rest) = line ++ cr :: lf :: rest := rfl
  unfold readLine
  rw [hsplit, htake, hdrop]
  rfl

theorem readLines_lines : ∀ (texts : List Bytes), (∀ line ∈ texts, line ≠ [] ∧ cr ∉ line) → ∀ {fuel : Nat},
    texts.length < fuel → readLines fuel (lines texts ++ rest) = some (texts, rest)
  | [], _, fuel + 1, _ => rfl
  | line :: texts, htexts, fuel + 1, hfuel => by
    have hread := readLines_lines texts (fun l hl => htexts l (List.mem_cons_of_mem _ hl))
      (Nat.lt_of_succ_lt_succ hfuel)
    obtain ⟨hne, hcr⟩ := htexts line List.mem_cons_self
    have hsplit : lines (line :: texts) ++ rest = line ++ (crlf ++ (lines texts ++ rest)) := by
      simp only [lines, List.flatMap_cons, List.append_assoc]
    obtain ⟨a, tail, rfl⟩ := List.exists_cons_of_ne_nil hne
    unfold readLines
    rw [hsplit, readLine_crlf hcr]
    dsimp only
    rw [hread, Option.map_some]

theorem length_le_lines (texts : List Bytes) : texts.length < (lines texts).length := by
  induction texts with
  | nil => exact Nat.zero_lt_two
  | cons line texts ih =>
    have hsplit : lines (line :: texts) = line ++ (crlf ++ lines texts) := by
      simp only [lines, List.flatMap_cons, List.append_assoc]
    have hcrlf : crlf.length = 2 := rfl
    rw [hsplit, List.length_append, List.length_append, List.length_cons, hcrlf]
    omega

theorem readField_field (h : colon ∉ name) (value : Bytes) : readField (field name value) = some (name, value) := by
  obtain ⟨htake, hdrop⟩ := takeWhile_ne h (blank :: value)
  unfold readField field
  rw [hdrop, htake]
  rfl

end HeaderBlock
