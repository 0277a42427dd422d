import Handheld.PercentCoding
import Mathlib.Data.Nat.Digits.Lemmas

/-!
# Numbers as text

`print base width n` is a number as `printf` writes it: lower-case digits, and zeros
in front up to the width. `read` takes digits of either case.

Result: `read_print`. A number is read back.
-/

namespace Numeral

open ByteString PercentCoding

/-! ## Definitions -/

def digit (d : Nat) : UInt8 := UInt8.ofNat (if d < 10 then 48 + d else 87 + d)

def print (base width n : Nat) : Bytes :=
  let digits := (Nat.digits base n).reverse.map digit
  List.replicate (width - digits.length) (digit 0) ++ digits

def readDigit (base n : Nat) (c : UInt8) : Option Nat :=
  (hexValue c).bind fun d => if d < base then some (base * n + d) else none

def read (base : Nat) (s : Bytes) : Option Nat := if s = [] then none else s.foldlM (readDigit base) 0

/-! ## Reading back -/

variable {base width n : Nat}

theorem hexValue_digit : ∀ d < 16, hexValue (digit d) = some d := by decide

theorem print_eq (base width n : Nat) :
    print base width n =
      ((Nat.digits base n ++ List.replicate (width - (Nat.digits base n).length) 0).reverse).map digit := by
  unfold print
  dsimp only
  rw [List.reverse_append, List.map_append, List.reverse_replicate, List.map_replicate, List.length_map,
    List.length_reverse]

theorem length_print (base width n : Nat) :
    (print base width n).length = max width (Nat.digits base n).length := by
  rw [print_eq, List.length_map, List.length_reverse, List.length_append, List.length_replicate]
  omega

theorem digits_print_lt (hbase : 1 < base) {d : Nat}
    (hd : d ∈ (Nat.digits base n ++ List.replicate (width - (Nat.digits base n).length) 0).reverse) : d < base := by
  rcases List.mem_append.mp (List.mem_reverse.mp hd) with h | h
  · exact Nat.digits_lt_base hbase h
  · rw [List.eq_of_mem_replicate h]
    exact Nat.zero_lt_of_lt hbase

theorem foldlM_readDigit (hbase : base ≤ 16) {ds : List Nat} (hds : ∀ d ∈ ds, d < base) (n : Nat) :
    (ds.map digit).foldlM (readDigit base) n = some (ds.foldl (fun n d => base * n + d) n) := by
  induction ds generalizing n with
  | nil => rfl
  | cons d ds ih =>
    have hd : d < base := hds d List.mem_cons_self
    have hread : readDigit base n (digit d) = some (base * n + d) := by
      unfold readDigit
      rw [hexValue_digit d (Nat.lt_of_lt_of_le hd hbase), Option.bind_some, if_pos hd]
    rw [List.map_cons, List.foldlM_cons, hread, List.foldl_cons]
    exact ih (fun d hd => hds d (List.mem_cons_of_mem _ hd)) _

/-- At least one digit is printed of every number if the width is not zero. -/
theorem read_print (hbase : 1 < base) (hhex : base ≤ 16) (hwidth : 0 < width) (n : Nat) :
    read base (print base width n) = some n := by
  have hne : print base width n ≠ [] := by
    refine List.ne_nil_of_length_pos ?_
    rw [length_print]
    exact Nat.lt_of_lt_of_le hwidth (Nat.le_max_left _ _)
  unfold read
  rw [if_neg hne, print_eq, foldlM_readDigit hhex fun d => digits_print_lt hbase, List.foldl_reverse]
  have hvalue := Nat.ofDigits_append_replicate_zero (b := base)
    (k := width - (Nat.digits base n).length) (Nat.digits base n)
  rw [Nat.ofDigits_digits, Nat.ofDigits_eq_foldr] at hvalue
  simpa only [Nat.cast_id, Nat.add_comm, Option.some.injEq] using hvalue

theorem digit_mem (hbase : 1 < base) (hhex : base ≤ 16) {c : UInt8} (h : c ∈ print base width n) :
    ∃ d < 16, c = digit d := by
  rw [print_eq] at h
  obtain ⟨d, hd, rfl⟩ := List.mem_map.mp h
  exact ⟨d, Nat.lt_of_lt_of_le (digits_print_lt hbase hd) hhex, rfl⟩

end Numeral
