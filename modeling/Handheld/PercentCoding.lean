import Handheld.ByteString

/-!
# Percent-encoding

`encode` is the standard component encoding: unreserved characters stay, every
other byte becomes `%XX`. `decode` is the form decoding that also reads `+` as
a space and takes an escape's value with `strtol`, so that a malformed escape
still consumes three characters.

* `decode_of_encodes`: decoding undoes every encoding, `decode_encode` the standard one.
* `decode_eq_strict_iff`: the texts on which a malformed escape makes no difference.
* `nul_of_decodeStrict`: where a NUL comes from.
* `decode_eq_self_iff`: the texts that decoding leaves alone.
* `encode_no_separator`: an encoded text contains neither `&` nor `=`.
-/

namespace PercentCoding

def plus : UInt8 := '+'.toUInt8
def space : UInt8 := ' '.toUInt8
def percent : UInt8 := '%'.toUInt8
def ampersand : UInt8 := '&'.toUInt8
def equals : UInt8 := '='.toUInt8

/-- The value of a hexadecimal digit in either letter case. -/
def hexValue (c : UInt8) : Option Nat :=
  if 48 ≤ c ∧ c ≤ 57 then some (c.toNat - 48)
  else if 65 ≤ c ∧ c ≤ 70 then some (c.toNat - 55)
  else if 97 ≤ c ∧ c ≤ 102 then some (c.toNat - 87)
  else none

/-- `(char) strtol("0xab", NULL, 16)`: the number of the leading hexadecimal
digits after the prefix, `0` when there is none. -/
def strtolHex (a b : UInt8) : UInt8 :=
  match hexValue a, hexValue b with
  | none, _ => 0
  | some x, none => UInt8.ofNat x
  | some x, some y => UInt8.ofNat (16 * x + y)

/-- A character outside an escape. -/
def decodeChar (c : UInt8) : UInt8 := if c = plus then space else c

/-- Form decoding. An escape is a `%` with at least two characters after it. -/
def decode : Bytes → Bytes
  | c :: a :: b :: cs =>
    if c = percent then strtolHex a b :: decode cs
    else decodeChar c :: decode (a :: b :: cs)
  | [c, a] => [decodeChar c, decodeChar a]
  | [c] => [decodeChar c]
  | [] => []

/-- Form decoding that keeps a malformed escape as it is. -/
def decodeStrict : Bytes → Bytes
  | c :: a :: b :: cs =>
    if c = percent then
      match hexValue a, hexValue b with
      | some x, some y => UInt8.ofNat (16 * x + y) :: decodeStrict cs
      | _, _ => percent :: decodeStrict (a :: b :: cs)
    else decodeChar c :: decodeStrict (a :: b :: cs)
  | [c, a] => [decodeChar c, decodeChar a]
  | [c] => [decodeChar c]
  | [] => []

/-- Two hexadecimal digits follow every `%` that at least two characters follow. -/
def WellFormed : Bytes → Prop
  | c :: a :: b :: cs =>
    (c = percent → (hexValue a).isSome ∧ (hexValue b).isSome) ∧ WellFormed (a :: b :: cs)
  | _ => True

instance decidableWellFormed : (s : Bytes) → Decidable (WellFormed s)
  | c :: a :: b :: cs =>
    have := decidableWellFormed (a :: b :: cs)
    inferInstanceAs (Decidable ((c = percent → (hexValue a).isSome ∧ (hexValue b).isSome) ∧
      WellFormed (a :: b :: cs)))
  | [] | [_] | [_, _] => inferInstanceAs (Decidable True)

/-- `e` is an encoding of `s`: each byte stays, unless it is `%` or `+`, or is
written with its two hexadecimal digits, in either letter case, or is a space
written as `+`. -/
inductive Encodes : Bytes → Bytes → Prop
  | nil : Encodes [] []
  | literal {c : UInt8} {s e : Bytes} : c ≠ percent → c ≠ plus → Encodes s e →
      Encodes (c :: s) (c :: e)
  | escape {c a b : UInt8} {s e : Bytes} : hexValue a = some (c.toNat / 16) →
      hexValue b = some (c.toNat % 16) → Encodes s e → Encodes (c :: s) (percent :: a :: b :: e)
  | plus {s e : Bytes} : Encodes s e → Encodes (space :: s) (plus :: e)

/-- The upper-case hexadecimal digit of `n < 16`. -/
def hexDigit (n : Nat) : UInt8 := UInt8.ofNat (if n < 10 then 48 + n else 55 + n)

/-- `%XX`. -/
def escape (b : UInt8) : Bytes := [percent, hexDigit (b.toNat / 16), hexDigit (b.toNat % 16)]

/-- The characters `encodeURIComponent` keeps. -/
def unreserved (b : UInt8) : Bool :=
  (48 ≤ b && b ≤ 57) || (65 ≤ b && b ≤ 90) || (97 ≤ b && b ≤ 122) ||
    (ByteString.ascii "-_.!~*'()").contains b

def encodeByte (b : UInt8) : Bytes := if unreserved b then [b] else escape b

def encode (s : Bytes) : Bytes := s.flatMap encodeByte

/-- No `+` and no escape: no `%` that at least two characters follow. -/
def Unescaped : Bytes → Prop
  | [] => True
  | c :: cs => c ≠ plus ∧ (c = percent → cs.length < 2) ∧ Unescaped cs

instance decidableUnescaped : (s : Bytes) → Decidable (Unescaped s)
  | [] => inferInstanceAs (Decidable True)
  | c :: cs =>
    have := decidableUnescaped cs
    inferInstanceAs (Decidable (c ≠ plus ∧ (c = percent → cs.length < 2) ∧ Unescaped cs))

/-! ## Hexadecimal digits -/

theorem hexValue_hexDigit : ∀ n < 16, hexValue (hexDigit n) = some n := by decide

theorem hexDigit_ne_separator : ∀ n < 16, hexDigit n ≠ ampersand ∧ hexDigit n ≠ equals := by decide

theorem strtolHex_of_digits {a b c : UInt8} (ha : hexValue a = some (c.toNat / 16))
    (hb : hexValue b = some (c.toNat % 16)) : strtolHex a b = c := by
  have hsum : 16 * (c.toNat / 16) + c.toNat % 16 = c.toNat := Nat.div_add_mod c.toNat 16
  rw [strtolHex, ha, hb]
  simp only [hsum, UInt8.ofNat_toNat]

/-! ## Decoding -/

@[simp] theorem decode_nil : decode [] = [] := rfl

theorem decode_escape (a b : UInt8) (cs : Bytes) :
    decode (percent :: a :: b :: cs) = strtolHex a b :: decode cs := by
  rw [decode, if_pos rfl]

/-- Outside an escape, one character at a time. -/
theorem decode_cons {c : UInt8} {cs : Bytes} (h : c = percent → cs.length < 2) :
    decode (c :: cs) = decodeChar c :: decode cs := by
  match cs, h with
  | [], _ | [_], _ => rfl
  | a :: b :: cs, h =>
    have hc : c ≠ percent := fun hc => absurd (h hc) (by simp)
    rw [decode, if_neg hc]

theorem decodeChar_eq_self_iff {c : UInt8} : decodeChar c = c ↔ c ≠ plus := by
  rw [decodeChar]
  split
  · next h =>
    subst h
    decide
  · next h => simp [h]

theorem unreserved_literal {c : UInt8} (h : unreserved c = true) :
    c ≠ plus ∧ c ≠ percent ∧ c ≠ ampersand ∧ c ≠ equals := by
  refine ⟨?_, ?_, ?_, ?_⟩ <;>
  · rintro rfl
    revert h
    decide

/-- Decoding undoes every encoding. -/
theorem decode_of_encodes {s e : Bytes} (h : Encodes s e) : decode e = s := by
  induction h with
  | nil => rfl
  | literal hpercent hplus _ ih =>
    rw [decode_cons fun hc => absurd hc hpercent, decodeChar_eq_self_iff.mpr hplus, ih]
  | escape ha hb _ ih => rw [decode_escape, strtolHex_of_digits ha hb, ih]
  | plus _ ih =>
    rw [decode_cons fun hc => absurd hc (by decide), ih]
    rfl

/-- The standard encoding is one of them. -/
theorem encodes_encode (s : Bytes) : Encodes s (encode s) := by
  induction s with
  | nil => exact .nil
  | cons b s ih =>
    have hb : b.toNat < 256 := UInt8.toNat_lt_size b
    rw [encode, List.flatMap_cons, encodeByte]
    split
    · next h =>
      obtain ⟨hplus, hpercent, -, -⟩ := unreserved_literal h
      exact .literal hpercent hplus ih
    · exact .escape (hexValue_hexDigit _ (by omega)) (hexValue_hexDigit _ (by omega)) ih

theorem decode_encode (s : Bytes) : decode (encode s) = s := decode_of_encodes (encodes_encode s)

theorem decode_length_le : ∀ s : Bytes, (decode s).length ≤ s.length
  | [] | [_] | [_, _] => Nat.le_refl _
  | c :: a :: b :: cs => by
    have hescape := decode_length_le cs
    have hchar := decode_length_le (a :: b :: cs)
    rw [decode]
    split
    · simp only [List.length_cons]
      omega
    · simpa using hchar

/-- Decoding leaves a text alone exactly when it has no `+` and no escape. -/
theorem decode_eq_self_iff (s : Bytes) : decode s = s ↔ Unescaped s := by
  induction s with
  | nil => simp [Unescaped]
  | cons c cs ih =>
    rw [Unescaped, ← ih]
    by_cases h : c = percent → cs.length < 2
    · rw [decode_cons h, List.cons.injEq, decodeChar_eq_self_iff]
      exact ⟨fun hc => ⟨hc.1, h, hc.2⟩, fun hc => ⟨hc.1, hc.2.2⟩⟩
    · refine iff_of_false (fun hdec => ?_) fun hcs => h hcs.2.1
      obtain ⟨rfl, hlen⟩ : c = percent ∧ 2 ≤ cs.length := by
        obtain ⟨hc, hlen⟩ := Classical.not_imp.mp h
        exact ⟨hc, Nat.le_of_not_lt hlen⟩
      obtain ⟨a, b, rest, rfl⟩ : ∃ a b rest, cs = a :: b :: rest := by
        match cs, hlen with
        | a :: b :: rest, _ => exact ⟨a, b, rest, rfl⟩
      -- an escape is shorter than what it stands for
      rw [decode_escape] at hdec
      have hshort := congrArg List.length hdec
      have hle := decode_length_le rest
      simp only [List.length_cons] at hshort
      omega

/-! ## Malformed escapes -/

/-- Both characters after a `%` are hexadecimal digits. -/
def Digits (a b : UInt8) : Prop := (hexValue a).isSome ∧ (hexValue b).isSome

theorem hexValue_lt {c : UInt8} {n : Nat} (h : hexValue c = some n) : n < 16 := by
  simp only [hexValue, UInt8.le_iff_toNat_le] at h
  have h57 : (57 : UInt8).toNat = 57 := rfl
  have h70 : (70 : UInt8).toNat = 70 := rfl
  have h102 : (102 : UInt8).toNat = 102 := rfl
  split_ifs at h <;> cases h <;> omega

theorem ne_percent_of_hexValue {c : UInt8} (h : (hexValue c).isSome) : c ≠ percent := by
  rintro rfl
  exact absurd h (by decide)

/-- What a malformed escape stands for is less than sixteen. -/
theorem strtolHex_ne_percent {a b : UInt8} (h : ¬ Digits a b) : strtolHex a b ≠ percent := by
  unfold strtolHex
  cases ha : hexValue a with
  | none => exact (by decide : (0 : UInt8) ≠ percent)
  | some x =>
    cases hb : hexValue b with
    | none =>
      have hsmall : ∀ n < 16, UInt8.ofNat n ≠ percent := by decide
      exact hsmall x (hexValue_lt ha)
    | some y => exact absurd ⟨by rw [ha]; rfl, by rw [hb]; rfl⟩ h

theorem decodeStrict_cons {c : UInt8} (h : c ≠ percent) (cs : Bytes) :
    decodeStrict (c :: cs) = decodeChar c :: decodeStrict cs := by
  match cs with
  | [] | [_] => rfl
  | a :: b :: cs => rw [decodeStrict, if_neg h]

theorem decodeStrict_digits {a b : UInt8} (h : Digits a b) (cs : Bytes) :
    decodeStrict (percent :: a :: b :: cs) = strtolHex a b :: decodeStrict cs := by
  obtain ⟨x, hx⟩ := Option.isSome_iff_exists.mp h.1
  obtain ⟨y, hy⟩ := Option.isSome_iff_exists.mp h.2
  rw [decodeStrict, if_pos rfl, strtolHex, hx, hy]

theorem decodeStrict_malformed {a b : UInt8} (h : ¬ Digits a b) (cs : Bytes) :
    decodeStrict (percent :: a :: b :: cs) = percent :: decodeStrict (a :: b :: cs) := by
  rw [decodeStrict, if_pos rfl]
  split
  · next x y hx hy => exact absurd ⟨by rw [hx]; rfl, by rw [hy]; rfl⟩ h
  · rfl

theorem wellFormed_cons {c : UInt8} (h : c ≠ percent) (cs : Bytes) :
    WellFormed (c :: cs) ↔ WellFormed cs := by
  match cs with
  | [] | [_] => exact Iff.rfl
  | a :: b :: cs => exact and_iff_right fun hc => absurd hc h

theorem wellFormed_percent (a b : UInt8) (cs : Bytes) :
    WellFormed (percent :: a :: b :: cs) ↔ Digits a b ∧ WellFormed cs := by
  have hself : (percent = percent → Digits a b) ↔ Digits a b := ⟨fun h => h rfl, fun h _ => h⟩
  show (percent = percent → Digits a b) ∧ WellFormed (a :: b :: cs) ↔ _
  rw [hself]
  refine and_congr_right fun h => ?_
  rw [wellFormed_cons (ne_percent_of_hexValue h.1), wellFormed_cons (ne_percent_of_hexValue h.2)]

/-- The two decodings agree exactly on the texts with no malformed escape. -/
theorem decode_eq_strict_iff : ∀ s : Bytes, decode s = decodeStrict s ↔ WellFormed s
  | [] | [_] | [_, _] => iff_of_true rfl trivial
  | c :: a :: b :: cs => by
    have hescape := decode_eq_strict_iff cs
    have hchar := decode_eq_strict_iff (a :: b :: cs)
    by_cases hc : c = percent
    · rw [hc, decode_escape, wellFormed_percent]
      by_cases h : Digits a b
      · rw [decodeStrict_digits h, List.cons.injEq, hescape]
        simp [h]
      · -- the two differ in the character that stands for the escape
        rw [decodeStrict_malformed h]
        exact iff_of_false (fun heq => strtolHex_ne_percent h (List.cons.inj heq).1) fun h' => h h'.1
    · rw [decode_cons fun h => absurd h hc, decodeStrict_cons hc, List.cons.injEq, hchar,
        wellFormed_cons hc]
      simp

theorem eq_zero_of_hexValue {c : UInt8} (h : hexValue c = some 0) : c = 48 := by
  have h48 : (48 : UInt8).toNat = 48 := rfl
  rw [← UInt8.toNat_inj, h48]
  simp only [hexValue, UInt8.le_iff_toNat_le] at h
  have h65 : (65 : UInt8).toNat = 65 := rfl
  have h97 : (97 : UInt8).toNat = 97 := rfl
  split_ifs at h <;> injection h <;> omega

/-- Only `%00` stands for NUL. -/
theorem digits_of_strtolHex_eq_zero {a b : UInt8} (h : Digits a b) (hzero : strtolHex a b = 0) :
    a = 48 ∧ b = 48 := by
  obtain ⟨x, hx⟩ := Option.isSome_iff_exists.mp h.1
  obtain ⟨y, hy⟩ := Option.isSome_iff_exists.mp h.2
  have hxlt := hexValue_lt hx
  have hylt := hexValue_lt hy
  rw [strtolHex, hx, hy] at hzero
  have hsum : (16 * x + y) % 256 = 0 := congrArg UInt8.toNat hzero
  obtain ⟨rfl, rfl⟩ : x = 0 ∧ y = 0 := by omega
  exact ⟨eq_zero_of_hexValue hx, eq_zero_of_hexValue hy⟩

theorem eq_zero_of_decodeChar {c : UInt8} (h : decodeChar c = 0) : c = 0 := by
  unfold decodeChar at h
  split at h
  · exact absurd h (by decide)
  · exact h

/-- The text has a NUL, or an escape of one. -/
def HasNul (s : Bytes) : Prop := 0 ∈ s ∨ [percent, 48, 48] <:+: s

theorem HasNul.cons {s : Bytes} (h : HasNul s) (c : UInt8) : HasNul (c :: s) :=
  h.imp (List.mem_cons_of_mem c) fun hinfix => List.infix_cons hinfix

/-- The strict decoding makes no NUL. -/
theorem nul_of_decodeStrict : ∀ {s : Bytes}, 0 ∈ decodeStrict s → HasNul s
  | [], h => by cases h
  | [c], h => .inl (by
    rw [eq_zero_of_decodeChar (List.mem_singleton.mp h).symm]
    exact List.mem_singleton_self 0)
  | [c, a], h => .inl (by
    rcases List.mem_cons.mp h with hc | ha
    · rw [eq_zero_of_decodeChar hc.symm]
      exact List.mem_cons_self
    · rw [eq_zero_of_decodeChar (List.mem_singleton.mp ha).symm]
      exact List.mem_cons_of_mem c (List.mem_singleton_self 0))
  | c :: a :: b :: cs, h => by
    by_cases hc : c = percent
    · subst hc
      by_cases hdigits : Digits a b
      · rw [decodeStrict_digits hdigits] at h
        rcases List.mem_cons.mp h with hzero | hrest
        · obtain ⟨rfl, rfl⟩ := digits_of_strtolHex_eq_zero hdigits hzero.symm
          exact .inr ⟨[], cs, rfl⟩
        · exact (((nul_of_decodeStrict hrest).cons b).cons a).cons percent
      · rw [decodeStrict_malformed hdigits] at h
        rcases List.mem_cons.mp h with hzero | hrest
        · exact absurd hzero (by decide)
        · exact (nul_of_decodeStrict hrest).cons percent
    · rw [decodeStrict_cons hc] at h
      rcases List.mem_cons.mp h with hzero | hrest
      · rw [eq_zero_of_decodeChar hzero.symm]
        exact .inl List.mem_cons_self
      · exact (nul_of_decodeStrict hrest).cons c

/-! ## Encoded texts -/

theorem encodeByte_no_separator {b c : UInt8} (h : c ∈ encodeByte b) :
    c ≠ ampersand ∧ c ≠ equals := by
  have hb : b.toNat < 256 := UInt8.toNat_lt_size b
  rw [encodeByte] at h
  split at h
  · next hu =>
    obtain rfl := List.mem_singleton.mp h
    exact (unreserved_literal hu).2.2
  · simp only [escape, List.mem_cons, List.not_mem_nil, or_false] at h
    rcases h with rfl | rfl | rfl
    · decide
    · exact hexDigit_ne_separator _ (by omega)
    · exact hexDigit_ne_separator _ (by omega)

theorem encode_no_separator {s : Bytes} : ampersand ∉ encode s ∧ equals ∉ encode s := by
  constructor
  all_goals
    intro h
    obtain ⟨b, -, hb⟩ := List.mem_flatMap.mp h
  · exact (encodeByte_no_separator hb).1 rfl
  · exact (encodeByte_no_separator hb).2 rfl

end PercentCoding
