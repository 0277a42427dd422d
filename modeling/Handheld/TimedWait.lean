import Mathlib.Algebra.Group.Nat.Defs
import Mathlib.Tactic.SplitIfs

/-!
# Waiting with a timeout on a clock that wraps around

A `Polling` asks until it is answered, with a pause after each unanswered poll;
`wait` gives up once `timeout` units have passed on an unsigned 32-bit clock. The
interval is a difference of two readings, so it does not matter where the clock
is at the start.

* `wait_ends`: the wait ends, after a bounded number of pauses.
* `wait_rule`: what every turn keeps holds before the last poll, whose answer is
  that of the wait.
-/

namespace TimedWait

/-- A poll, and the pause after it. A poll takes no time, a pause at least
`least` and less than half the period of the clock. -/
structure Polling (σ : Type) where
  clock : σ → UInt32
  poll : σ → Bool × σ
  pause : σ → σ
  least : Nat
  clock_poll : ∀ s, clock (poll s).2 = clock s
  clock_pause : ∀ s, ∃ a, least ≤ a ∧ a < 2 ^ 31 ∧ clock (pause s) = clock s + UInt32.ofNat a

/-- How a wait ended: whether it was answered, and the pauses it took. -/
structure Waited (σ : Type) where
  answered : Bool
  turns : Nat
  state : σ
deriving DecidableEq, Repr

namespace Polling

variable {σ : Type} (w : Polling σ)

/-- `while (!poll() && clock() - start < timeout) pause();` -/
def wait (start timeout : UInt32) : Nat → σ → Option (Waited σ)
  | 0, _ => none
  | fuel + 1, s =>
    if (w.poll s).1 then some ⟨true, 0, (w.poll s).2⟩
    else if w.clock (w.poll s).2 - start < timeout then
      (wait start timeout fuel (w.pause (w.poll s).2)).map fun r => { r with turns := r.turns + 1 }
    else some ⟨false, 0, (w.poll s).2⟩

/-! ## Ending -/

/-- The units since `start`. -/
def elapsed (start : UInt32) (s : σ) : Nat := (w.clock s - start).toNat

variable {start timeout : UInt32}

theorem elapsed_poll (s : σ) : w.elapsed start (w.poll s).2 = w.elapsed start s := by
  unfold elapsed
  rw [w.clock_poll]

/-- Before the timeout a pause does not take the interval around. -/
theorem elapsed_pause {s : σ} (htimeout : timeout.toNat ≤ 2 ^ 31)
    (h : w.clock s - start < timeout) :
    w.elapsed start s + w.least ≤ w.elapsed start (w.pause s) := by
  obtain ⟨a, hleast, hlt, hclock⟩ := w.clock_pause s
  have hnext : w.clock (w.pause s) - start = w.clock s - start + UInt32.ofNat a := by
    rw [hclock, UInt32.sub_eq_iff_eq_add, UInt32.add_assoc, UInt32.add_comm (UInt32.ofNat a),
      ← UInt32.add_assoc, UInt32.sub_add_cancel]
  have hbefore : (w.clock s - start).toNat < timeout.toNat := UInt32.lt_iff_toNat_lt.mp h
  have hpause : (UInt32.ofNat a).toNat = a := UInt32.toNat_ofNat_of_lt' (by
    show a < 2 ^ 32
    omega)
  unfold elapsed
  rw [hnext, UInt32.toNat_add, hpause]
  omega

/-- A wait ends, with at most as many pauses as fit into the time left. -/
theorem wait_ends (htimeout : timeout.toNat ≤ 2 ^ 31) (n : Nat) :
    ∀ {s : σ} {fuel : Nat}, timeout.toNat ≤ w.elapsed start s + n * w.least → n < fuel →
      ∃ r, w.wait start timeout fuel s = some r ∧ r.turns ≤ n := by
  induction n with
  | zero =>
    intro s fuel hleft hfuel
    obtain ⟨fuel, rfl⟩ : ∃ f, fuel = f + 1 := ⟨fuel - 1, by omega⟩
    have hlate : ¬ w.clock (w.poll s).2 - start < timeout := by
      rw [← w.elapsed_poll s] at hleft
      rw [UInt32.lt_iff_toNat_lt]
      unfold elapsed at hleft
      omega
    rw [wait, if_neg hlate]
    split_ifs
    · exact ⟨_, rfl, Nat.le_refl 0⟩
    · exact ⟨_, rfl, Nat.le_refl 0⟩
  | succ n ih =>
    intro s fuel hleft hfuel
    obtain ⟨fuel, rfl⟩ : ∃ f, fuel = f + 1 := ⟨fuel - 1, by omega⟩
    rw [wait]
    split_ifs with hanswered hearly
    · exact ⟨_, rfl, Nat.zero_le _⟩
    · have hpause := w.elapsed_pause htimeout hearly
      rw [elapsed_poll] at hpause
      have hrest : timeout.toNat ≤ w.elapsed start (w.pause (w.poll s).2) + n * w.least := by
        rw [Nat.succ_mul] at hleft
        omega
      obtain ⟨r, hr, hturns⟩ := ih hrest (Nat.lt_of_succ_lt_succ hfuel)
      refine ⟨_, by rw [hr]; rfl, Nat.succ_le_succ hturns⟩
    · exact ⟨_, rfl, Nat.zero_le _⟩

/-! ## What the turns keep -/

/-- What holds after `n` turns holds before the last poll, whose answer is that of
the wait. -/
theorem wait_rule {I : Nat → σ → Prop} (hturn : ∀ n s, I n s → I (n + 1) (w.pause (w.poll s).2))
    {fuel : Nat} : ∀ {n : Nat} {s : σ} {r : Waited σ}, I n s →
      w.wait start timeout fuel s = some r →
        ∃ t, I (n + r.turns) t ∧ w.poll t = (r.answered, r.state) := by
  induction fuel with
  | zero => exact fun _ hr => by cases hr
  | succ fuel ih =>
    intro n s r h hr
    rw [wait] at hr
    split_ifs at hr with hanswered
    · cases hr
      exact ⟨s, h, Prod.ext hanswered rfl⟩
    · obtain ⟨r', hr', rfl⟩ := Option.map_eq_some_iff.mp hr
      obtain ⟨t, ht, hpoll⟩ := ih (hturn n s h) hr'
      refine ⟨t, ?_, hpoll⟩
      rwa [Nat.add_right_comm] at ht
    · cases hr
      exact ⟨s, h, Prod.ext (Bool.eq_false_iff.mpr hanswered) rfl⟩

end Polling

end TimedWait
