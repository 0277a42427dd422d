import Handheld.Machine
import Mathlib.Data.Fin.Tuple.Basic
import Mathlib.Data.List.OfFn
import Mathlib.Logic.Function.Basic

/-!
# Sliding windows

An array of `n + 1` values that is shifted by one place for each new value, as a
loop does it that copies every element into the place before.

* `shiftLeft_castSucc`: the loop moves every value but the first, none twice.
* `ofFn_run_push`: after any values the array holds the last `n + 1` of what it
  held and of these values.
-/

namespace SlidingWindow

variable {α : Type} {n : Nat}

/-- The first `m` passes of `for (i = 1; i <= n; i++) d[i - 1] = d[i];`. -/
def shiftFirst (d : Fin (n + 1) → α) : Nat → Fin (n + 1) → α
  | 0 => d
  | m + 1 =>
    let d := shiftFirst d m
    if h : m + 1 < n + 1 then Function.update d ⟨m, Nat.lt_of_succ_lt h⟩ (d ⟨m + 1, h⟩) else d

/-- The whole loop. -/
def shiftLeft (d : Fin (n + 1) → α) : Fin (n + 1) → α := shiftFirst d n

/-- The window after a new value, which is stored in the last place. -/
def push (d : Fin (n + 1) → α) (x : α) : Fin (n + 1) → α :=
  Function.update (shiftLeft d) (Fin.last n) x

/-- After `m` passes the values up to the `m`-th have moved, and no other. -/
theorem shiftFirst_apply (d : Fin (n + 1) → α) {m : Nat} (hm : m ≤ n) (j : Fin (n + 1)) :
    shiftFirst d m j = if h : (j : Nat) < m then d ⟨j + 1, by omega⟩ else d j := by
  induction m generalizing j with
  | zero => simp [shiftFirst]
  | succ m ih =>
    have hnext : m + 1 < n + 1 := Nat.lt_succ_of_le hm
    have hlt : ¬ m + 1 < m := by omega
    rw [shiftFirst, dif_pos hnext, Function.update_apply, ih (by omega), ih (by omega)]
    by_cases hj : j = ⟨m, Nat.lt_of_succ_lt hnext⟩
    · subst hj
      simp
    · have hne : (j : Nat) ≠ m := fun h => hj (Fin.ext h)
      rw [if_neg hj]
      by_cases hless : (j : Nat) < m
      · rw [dif_pos hless, dif_pos (Nat.lt_succ_of_lt hless)]
      · rw [dif_neg hless, dif_neg (by omega)]

theorem shiftLeft_castSucc (d : Fin (n + 1) → α) (i : Fin n) :
    shiftLeft d i.castSucc = d i.succ := by
  rw [shiftLeft, shiftFirst_apply d (Nat.le_refl n)]
  exact dif_pos i.isLt

theorem push_last (d : Fin (n + 1) → α) (x : α) : push d x (Fin.last n) = x :=
  Function.update_self ..

theorem push_castSucc (d : Fin (n + 1) → α) (x : α) (i : Fin n) :
    push d x i.castSucc = d i.succ := by
  rw [push, Function.update_of_ne (Fin.castSucc_lt_last i).ne, shiftLeft_castSucc]

/-- A property of every value in the window. -/
theorem forall_push {P : α → Prop} {d : Fin (n + 1) → α} {x : α} (hd : ∀ i, P (d i)) (hx : P x) :
    ∀ i, P (push d x i) := by
  intro i
  cases i using Fin.lastCases with
  | last => rwa [push_last]
  | cast i =>
    rw [push_castSucc]
    exact hd i.succ

theorem ofFn_push (d : Fin (n + 1) → α) (x : α) :
    List.ofFn (push d x) = (List.ofFn d ++ [x]).drop 1 := by
  rw [List.ofFn_succ', List.ofFn_succ, push_last]
  simp only [push_castSucc, List.concat_eq_append, List.cons_append, List.drop_succ_cons,
    List.drop_zero]

theorem ofFn_run_push (d : Fin (n + 1) → α) (xs : List α) :
    List.ofFn (Machine.run push d xs) = (List.ofFn d ++ xs).drop xs.length := by
  induction xs generalizing d with
  | nil => simp
  | cons x xs ih =>
    have hlen : 1 ≤ (List.ofFn d ++ [x]).length := by simp
    rw [Machine.run_cons, ih, ofFn_push, ← List.drop_append_of_le_length hlen, List.drop_drop]
    simp [Nat.add_comm]

end SlidingWindow
