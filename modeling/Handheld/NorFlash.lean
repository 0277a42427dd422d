import Mathlib.Data.List.GetD
import Mathlib.Data.UInt

/-!
# NOR flash memory

Erasing sets bytes to `0xFF`; programming can only clear bits, so that data
lands as written on blank bytes alone. The history of a memory is the list of
its operations, and a power cut is a prefix of that list.

Results:
1. `read_program`: data programmed over blank bytes is read back.
2. `program_of_blank`: programming nothing but `0xFF` may be left out.
3. `kept_replay`: bytes that no operation of a history touches keep their values.
-/

namespace NorFlash

/-! ## Definitions -/

abbrev Memory := Nat → UInt8

/-- The value of an erased byte. -/
def blank : UInt8 := 0xFF

inductive Op
  | erase (start length : Nat)
  | program (start : Nat) (data : List UInt8)
deriving DecidableEq, Repr

def Op.apply : Op → Memory → Memory
  | .erase start length, m => fun i => if start ≤ i ∧ i < start + length then blank else m i
  | .program start data, m => fun i =>
    if start ≤ i then m i &&& data.getD (i - start) blank else m i

/-- The memory after a history. -/
def replay (m : Memory) (ops : List Op) : Memory := ops.foldl (fun m op => op.apply m) m

def read (m : Memory) (start length : Nat) : List UInt8 :=
  (List.range length).map fun i => m (start + i)

/-- The bytes of `[start, stop)` are erased. -/
def Blank (m : Memory) (start stop : Nat) : Prop := ∀ i, start ≤ i → i < stop → m i = blank

/-- The bytes of `[op.start, op.stop)` are those that the operation is about. -/
def Op.start : Op → Nat
  | .erase start _ => start
  | .program start _ => start

def Op.stop : Op → Nat
  | .erase start length => start + length
  | .program start data => start + data.length

/-- The operation is not about the bytes of `[start, stop)`. -/
def Op.Spares (op : Op) (start stop : Nat) : Prop := stop ≤ op.start ∨ op.stop ≤ start

/-! ## Histories -/

@[simp] theorem replay_nil (m : Memory) : replay m [] = m := rfl

theorem replay_append (m : Memory) (xs ys : List Op) :
    replay m (xs ++ ys) = replay (replay m xs) ys :=
  List.foldl_append

theorem replay_concat (m : Memory) (ops : List Op) (op : Op) :
    replay m (ops ++ [op]) = op.apply (replay m ops) := by
  rw [replay_append]
  rfl

/-! ## Reading -/

@[simp] theorem length_read (m : Memory) (start length : Nat) :
    (read m start length).length = length := by
  simp [read]

theorem getElem_read {m : Memory} {start length i : Nat} (h : i < (read m start length).length) :
    (read m start length)[i] = m (start + i) := by
  simp [read]

theorem read_eq_iff {m : Memory} {start : Nat} {d : List UInt8} :
    read m start d.length = d ↔ ∀ i, (h : i < d.length) → m (start + i) = d[i] := by
  constructor
  · intro hread i hi
    have hlt : i < (read m start d.length).length := by rwa [length_read]
    rw [← getElem_read hlt]
    simp only [hread]
  · intro h
    refine List.ext_getElem (length_read m start d.length) fun i hread hi => ?_
    rw [getElem_read hread]
    exact h i hi

theorem read_append (m : Memory) (start n k : Nat) :
    read m start (n + k) = read m start n ++ read m (start + n) k := by
  unfold read
  rw [List.range_add, List.map_append, List.map_map]
  congr 1
  refine List.map_congr_left fun i _ => ?_
  show m (start + (n + i)) = m (start + n + i)
  rw [Nat.add_assoc]

theorem read_congr {m m' : Memory} {start length : Nat}
    (h : ∀ i, start ≤ i → i < start + length → m' i = m i) :
    read m' start length = read m start length :=
  List.map_congr_left fun i hi =>
    h (start + i) (Nat.le_add_right start i) (Nat.add_lt_add_left (List.mem_range.mp hi) start)

/-! ## Operations -/

theorem blank_and (b : UInt8) : blank &&& b = b := UInt8.neg_one_and

theorem and_blank (b : UInt8) : b &&& blank = b := UInt8.and_neg_one

theorem Op.apply_of_lt (op : Op) {i : Nat} (h : i < op.start) (m : Memory) : op.apply m i = m i := by
  cases op with
  | erase a n => exact if_neg fun hin => absurd hin.1 (Nat.not_le.mpr h)
  | program a d => exact if_neg (Nat.not_le.mpr h)

theorem Op.apply_of_ge (op : Op) {i : Nat} (h : op.stop ≤ i) (m : Memory) : op.apply m i = m i := by
  cases op with
  | erase a n => exact if_neg fun hin => absurd hin.2 (Nat.not_lt.mpr h)
  | program a d =>
    have ha : a ≤ i := Nat.le_trans (Nat.le_add_right a d.length) h
    have hout : d.length ≤ i - a := Nat.le_sub_of_add_le' h
    show (if a ≤ i then m i &&& d.getD (i - a) blank else m i) = m i
    rw [if_pos ha, List.getD_eq_default d blank hout, and_blank]

theorem Op.apply_of_spares {op : Op} {start stop i : Nat} (h : op.Spares start stop) (hi : start ≤ i)
    (hi' : i < stop) (m : Memory) : op.apply m i = m i := by
  rcases h with h | h
  · exact op.apply_of_lt (Nat.lt_of_lt_of_le hi' h) m
  · exact op.apply_of_ge (Nat.le_trans h hi) m

/-- Bytes that no operation of a history touches keep their values. -/
theorem kept_replay {ops : List Op} {start stop i : Nat} (h : ∀ op ∈ ops, op.Spares start stop)
    (hi : start ≤ i) (hi' : i < stop) (m : Memory) : replay m ops i = m i := by
  induction ops generalizing m with
  | nil => rfl
  | cons op ops ih =>
    show replay (op.apply m) ops i = m i
    rw [ih (fun o ho => h o (List.mem_cons_of_mem op ho)),
      op.apply_of_spares (h op List.mem_cons_self) hi hi']

theorem Blank.mono {m : Memory} {start stop start' stop' : Nat} (h : Blank m start stop)
    (hstart : start ≤ start') (hstop : stop' ≤ stop) : Blank m start' stop' :=
  fun i hi hi' => h i (Nat.le_trans hstart hi) (Nat.lt_of_lt_of_le hi' hstop)

theorem Blank.apply {m : Memory} {start stop : Nat} {op : Op} (h : Blank m start stop)
    (hop : op.Spares start stop) : Blank (op.apply m) start stop := by
  intro i hi hi'
  rw [op.apply_of_spares hop hi hi']
  exact h i hi hi'

theorem blank_erase (m : Memory) (start length : Nat) :
    Blank ((Op.erase start length).apply m) start (start + length) :=
  fun _ hi hi' => if_pos ⟨hi, hi'⟩

/-- What is erased stays erased when more is. -/
theorem Blank.erase {m : Memory} {start stop : Nat} (h : Blank m start stop) (a n : Nat) :
    Blank ((Op.erase a n).apply m) start stop := by
  intro i hi hi'
  show (if a ≤ i ∧ i < a + n then blank else m i) = blank
  rw [h i hi hi', ite_self]

theorem read_of_spares {op : Op} {start length : Nat} (h : op.Spares start (start + length))
    (m : Memory) : read (op.apply m) start length = read m start length :=
  read_congr fun _ hi hi' => op.apply_of_spares h hi hi' m

/-- Data programmed over blank bytes is read back. -/
theorem read_program {m : Memory} (start : Nat) {d : List UInt8}
    (h : Blank m start (start + d.length)) :
    read ((Op.program start d).apply m) start d.length = d := by
  refine read_eq_iff.mpr fun i hi => ?_
  show (if start ≤ start + i then m (start + i) &&& d.getD (start + i - start) blank
    else m (start + i)) = d[i]
  rw [if_pos (Nat.le_add_right start i), h _ (Nat.le_add_right start i)
    (Nat.add_lt_add_left hi start), blank_and, Nat.add_sub_cancel_left,
    List.getD_eq_getElem d blank hi]

/-- Programming nothing but blank bytes may be left out. -/
theorem program_of_blank {d : List UInt8} (h : ∀ b ∈ d, b = blank) (m : Memory) (start : Nat) :
    (Op.program start d).apply m = m := by
  funext i
  show (if start ≤ i then m i &&& d.getD (i - start) blank else m i) = m i
  have hget : d.getD (i - start) blank = blank := by
    rcases Nat.lt_or_ge (i - start) d.length with hlt | hge
    · rw [List.getD_eq_getElem d blank hlt]
      exact h _ (List.getElem_mem hlt)
    · exact List.getD_eq_default d blank hge
  rw [hget, and_blank, ite_self]

end NorFlash
