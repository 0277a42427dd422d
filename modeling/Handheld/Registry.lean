import Mathlib.Data.List.Basic

/-!
# Registries

A registry is a list of entries with keys, to which entries are appended and from
which an entry is removed by its key, the first one that has it. Keys may repeat.

* `removeFirst_eq_filter`: a key that at most one entry has is gone after its
  removal, and the other entries are left in their order.
* `removeAll_eq_filter`: the same for a list of keys, removed one after the other.
-/

namespace Registry

variable {α κ : Type} [DecidableEq κ] {key : α → κ}

/-- The entries with the key `k`. -/
def occurrences (key : α → κ) (k : κ) (l : List α) : Nat := l.countP fun a => key a = k

/-- The first entry with the key `k` is removed. -/
def removeFirst (key : α → κ) (l : List α) (k : κ) : List α := l.eraseP fun a => key a = k

/-- The keys are removed one after the other. -/
def removeAll (key : α → κ) (l : List α) (ks : List κ) : List α := ks.foldl (removeFirst key) l

@[simp] theorem removeAll_nil (l : List α) : removeAll key l [] = l := rfl

theorem removeAll_append (l : List α) (ks ks' : List κ) :
    removeAll key l (ks ++ ks') = removeAll key (removeAll key l ks) ks' :=
  List.foldl_append

theorem filter_of_occurrences_zero {k : κ} {l : List α} (h : occurrences key k l = 0) :
    l.filter (fun a => key a ≠ k) = l := by
  rw [occurrences, List.countP_eq_zero] at h
  rw [List.filter_eq_self]
  intro a ha
  simpa using h a ha

theorem removeFirst_eq_filter {k : κ} {l : List α} (h : occurrences key k l ≤ 1) :
    removeFirst key l k = l.filter fun a => key a ≠ k := by
  induction l with
  | nil => rfl
  | cons a l ih =>
    unfold removeFirst occurrences at *
    by_cases hkey : key a = k
    · -- the entry goes, and no other has the key
      rw [List.countP_cons_of_pos (by simpa using hkey)] at h
      have hzero : occurrences key k l = 0 := Nat.le_zero.mp (Nat.le_of_succ_le_succ h)
      rw [List.eraseP_cons_of_pos (by simpa using hkey),
        List.filter_cons_of_neg (by simpa using hkey), filter_of_occurrences_zero hzero]
    · rw [List.countP_cons_of_neg (by simpa using hkey)] at h
      rw [List.eraseP_cons_of_neg (by simpa using hkey),
        List.filter_cons_of_pos (by simpa using hkey), ih h]

theorem occurrences_filter_le (p : α → Bool) (k : κ) (l : List α) :
    occurrences key k (l.filter p) ≤ occurrences key k l :=
  List.filter_sublist.countP_le

/-- Removing keys that no two entries share keeps the other entries in their order. -/
theorem removeAll_eq_filter {ks : List κ} {l : List α} (h : ∀ k ∈ ks, occurrences key k l ≤ 1) :
    removeAll key l ks = l.filter fun a => key a ∉ ks := by
  induction ks generalizing l with
  | nil => simp [removeAll]
  | cons k ks ih =>
    have hrest : ∀ k' ∈ ks, occurrences key k' (l.filter fun a => key a ≠ k) ≤ 1 := fun k' hk' =>
      Nat.le_trans (occurrences_filter_le _ k' l) (h k' (List.mem_cons_of_mem k hk'))
    have hfirst := removeFirst_eq_filter (h k List.mem_cons_self)
    unfold removeAll at *
    rw [List.foldl_cons, hfirst, ih hrest, List.filter_filter]
    refine List.filter_congr fun a _ => ?_
    simp [not_or, Bool.and_comm]

end Registry
